import CloudNode.Client.Rosters
import CloudNode.Signalling.World

/-!
# Roster agreement

The server's rooms against the clients' copies of them. `Network` adds to the server's world what
the server cannot see: for every socket the messages on their way to the client, for every client
its room table, and the sockets whose close the client has handled. A client handles the messages
of a socket in order and at any time; it may learn of a close long before or after the server does.

* `Synced` — the invariant: a member's table, once it has absorbed what is on its way, shows the
  server's roster of the room.
* `getPeers_eq_of_drained` — so a member that has handled everything sent to its socket, and not
  that socket's close, has the server's roster.
* `roster_lost_before_close` — a client forgets its rosters when it learns of a close, which may be
  before the server does.
-/

namespace CloudNode

/-- The server's world and the clients' side of it. Kind: D -/
structure Network where
  world : World := {}
  /-- The messages sent to a socket that its client has not handled yet, oldest first. -/
  inbox : Socket → List Message := fun _ => []
  /-- Every client's `m_rooms`. -/
  tables : Str → Rooms := fun _ => ∅
  /-- The sockets whose close their client has handled. -/
  dropped : Std.ExtTreeSet Socket := ∅

namespace Network

open Server World Client

/-- What can happen in the network. Kind: D -/
inductive Event where
  /-- A turn of the server's event loop. -/
  | server (e : World.Event)
  /-- The client of a socket handles the next message on it. -/
  | handled (k : Socket)
  /-- The client of a socket handles its close, having asked to exit or not. -/
  | dropped (k : Socket) (exiting : Bool)
  /-- A new process takes up a client's name. -/
  | started (id : Str)

/-- The messages that reach a socket's client. Kind: D -/
def arrivals (k : Socket) (records : List Record) : List Message :=
  (records.filter fun r => r.isOpen && r.send.target = k).map fun r => r.send.message

/-- The client that a new socket belongs to has handled the close of all earlier ones.
Source: `MessagePortClient.cpp`, `Start`, which stops a socket before it makes the next
Kind: D -/
def allDropped (n : Network) (id : Str) : Bool :=
  n.world.ids.toList.all fun entry => entry.2 ≠ id || entry.1 ∈ n.dropped

/-- The client's side allows what the server sees. Kind: D -/
def admits (n : Network) : World.Event → Bool
  | .opened _ id => n.allDropped id
  | _ => true

/-- One event. A close that the client handles clears its rosters, unless it is exiting.
Source: `WebRTCClient.cpp`, `OnMessageClose`
Kind: D -/
def step (n : Network) : Event → Option Network
  | .server e =>
    if n.admits e then
      (n.world.stepDistinct e).map fun w =>
        { n with
          world := w
          inbox := fun k => n.inbox k ++ arrivals k (w.sent.drop n.world.sent.length) }
    else none
  | .handled k =>
    match n.inbox k, n.world.ids[k]? with
    | m :: ms, some id =>
      if k ∈ n.dropped then none
      else
        match absorb (n.tables id) m with
        | .ok rooms => some { n with
            tables := Function.update n.tables id rooms, inbox := Function.update n.inbox k ms }
        | .error _ => none
    | _, _ => none
  | .dropped k exiting =>
    match n.world.ids[k]? with
    | some id =>
      if k ∈ n.dropped then none
      else some { n with
        dropped := n.dropped.insert k
        tables := if exiting then n.tables
          else Function.update n.tables id (WebRTC.clearRooms (n.tables id)) }
    | none => none
  | .started id =>
    if n.allDropped id then some { n with tables := Function.update n.tables id ∅ } else none

/-! ## Absorbing what is on its way -/

/-- The message never faults its reader. Kind: D -/
def Sound (m : Message) : Prop := ∀ rooms, ∃ rooms', absorb rooms m = .ok rooms'

/-- The message leaves the rosters alone. Kind: D -/
def Neutral (m : Message) : Prop := ∀ rooms, absorb rooms m = .ok rooms

/-- The message makes the room's entry that roster. Kind: D -/
def Brings (room : Str) (peers : Peers) (m : Message) : Prop :=
  ∀ rooms, ∃ rooms', absorb rooms m = .ok rooms' ∧
    ∀ r, rooms'[r]? = if room = r then some peers else rooms[r]?

/-- After these messages, the table has that roster of the room. Kind: D -/
def Shows (rooms : Rooms) (ms : List Message) (room : Str) (peers : Peers) : Prop :=
  ∃ rooms', absorbAll rooms ms = .ok rooms' ∧ rooms'[room]? = some peers

variable {rooms : Rooms} {room : Str} {peers : Peers} {ms ms' : List Message}

/-- Absorbing some messages and then others. Kind: L -/
theorem absorbAll_append (rooms : Rooms) (ms ms' : List Message) : absorbAll rooms (ms ++ ms') =
    (absorbAll rooms ms >>= fun rooms' => absorbAll rooms' ms') := by
  induction ms generalizing rooms with
  | nil => rfl
  | cons m ms ih =>
      rw [List.cons_append, absorbAll, absorbAll]
      cases absorb rooms m with
      | error e => rfl
      | ok rooms' => exact ih rooms'

/-- Sound messages are absorbed. Kind: L -/
theorem absorbAll_of_sound (h : ∀ m ∈ ms, Sound m) (rooms : Rooms) :
    ∃ rooms', absorbAll rooms ms = .ok rooms' := by
  induction ms generalizing rooms with
  | nil => exact ⟨rooms, rfl⟩
  | cons m ms ih =>
      obtain ⟨rooms', hm⟩ := h m (List.mem_cons_self ..) rooms
      obtain ⟨rooms'', hms⟩ := ih (fun m' hm' => h m' (List.mem_cons_of_mem _ hm')) rooms'
      exact ⟨rooms'', by rw [absorbAll, hm, Json.ok_bind, hms]⟩

/-- Neutral messages change nothing. Kind: L -/
theorem absorbAll_of_neutral (h : ∀ m ∈ ms, Neutral m) (rooms : Rooms) :
    absorbAll rooms ms = .ok rooms := by
  induction ms with
  | nil => rfl
  | cons m ms ih =>
      rw [absorbAll, h m (List.mem_cons_self ..) rooms, Json.ok_bind]
      exact ih fun m' hm' => h m' (List.mem_cons_of_mem _ hm')

/-- One roster, brought any number of times. Kind: L -/
theorem absorbAll_of_brings (h : ∀ m ∈ ms, Brings room peers m) (rooms : Rooms) :
    ∃ rooms', absorbAll rooms ms = .ok rooms' ∧
      ∀ r, rooms'[r]? = if room = r ∧ ms ≠ [] then some peers else rooms[r]? := by
  induction ms generalizing rooms with
  | nil => exact ⟨rooms, rfl, fun r => by simp⟩
  | cons m ms ih =>
      obtain ⟨rooms', hm, hread⟩ := h m (List.mem_cons_self ..) rooms
      obtain ⟨rooms'', hms, hread'⟩ := ih (fun m' hm' => h m' (List.mem_cons_of_mem _ hm')) rooms'
      refine ⟨rooms'', by rw [absorbAll, hm, Json.ok_bind, hms], fun r => ?_⟩
      rw [hread', hread]
      by_cases hr : room = r <;> simp [hr]

/-- Neutral messages change nothing that is shown. Kind: L -/
theorem shows_append_neutral (h : Shows rooms ms room peers) (hms' : ∀ m ∈ ms', Neutral m) :
    Shows rooms (ms ++ ms') room peers := by
  obtain ⟨rooms', hms, hroom⟩ := h
  refine ⟨rooms', ?_, hroom⟩
  rw [absorbAll_append, hms, Json.ok_bind, absorbAll_of_neutral hms']

/-- What brings one room's roster changes nothing shown of another. Kind: L -/
theorem shows_append_of_ne {r : Str} {ps : Peers} (h : Shows rooms ms r ps)
    (hms' : ∀ m ∈ ms', Brings room peers m) (hne : room ≠ r) : Shows rooms (ms ++ ms') r ps := by
  obtain ⟨rooms', hms, hr⟩ := h
  obtain ⟨rooms'', hms'', hread⟩ := absorbAll_of_brings hms' rooms'
  refine ⟨rooms'', ?_, ?_⟩
  · rw [absorbAll_append, hms, Json.ok_bind, hms'']
  · rw [hread, if_neg (fun hc => hne hc.1)]
    exact hr

/-- What brings a room's roster shows it. Kind: L -/
theorem shows_append_of_brings (hms : ∀ m ∈ ms, Sound m) (hms' : ∀ m ∈ ms', Brings room peers m)
    (hne : ms' ≠ []) : Shows rooms (ms ++ ms') room peers := by
  obtain ⟨rooms', hrooms'⟩ := absorbAll_of_sound hms rooms
  obtain ⟨rooms'', hms'', hread⟩ := absorbAll_of_brings hms' rooms'
  refine ⟨rooms'', ?_, ?_⟩
  · rw [absorbAll_append, hrooms', Json.ok_bind, hms'']
  · rw [hread, if_pos ⟨rfl, hne⟩]

/-- A message that brings a roster is sound. Kind: L -/
theorem Brings.sound {m : Message} (h : Brings room peers m) : Sound m := fun rooms => by
  obtain ⟨rooms', hm, -⟩ := h rooms
  exact ⟨rooms', hm⟩

/-! ## Agreement of a server state with what its members will see -/

/-- The messages that some sends put on their way to a socket. Kind: D -/
def passed (opened : Socket → Bool) (sends : List Send) (k : Socket) : List Message :=
  (sends.filter fun m => opened m.target && m.target = k).map fun m => m.message

/-- The inboxes after some sends. Kind: D -/
def delivered (opened : Socket → Bool) (inbox : Socket → List Message) (sends : List Send) :
    Socket → List Message :=
  fun k => inbox k ++ passed opened sends k

/-- Every member's table shows the server's roster, once it has absorbed its inbox. Kind: D -/
def Agreed (s : Server) (live : Socket → Prop) (tables : Str → Rooms)
    (inbox : Socket → List Message) : Prop :=
  ∀ (peer room : Str) (k : Socket), peer ∈ s.rooms.members room →
    s.clientDB[peer]? = some k → live k →
      Shows (tables peer) (inbox k) room (s.rooms.members room)

/-- No inbox holds a message that faults its reader. Kind: D -/
def AllSound (inbox : Socket → List Message) : Prop := ∀ k, ∀ m ∈ inbox k, Sound m

section sends

variable {s s' : Server} {live : Socket → Prop} {tables : Str → Rooms}
  {inbox : Socket → List Message} {opened : Socket → Bool} {sends sends' : List Send}
  {k : Socket} {m : Message} {peer whose type : Str}

/-- A message on its way was sent. Kind: L -/
theorem mem_passed : m ∈ passed opened sends k ↔
    ∃ x ∈ sends, (opened x.target = true ∧ x.target = k) ∧ x.message = m := by
  unfold passed
  simp only [List.mem_map, List.mem_filter, Bool.and_eq_true, decide_eq_true_eq, and_assoc]

/-- Some sends and then others. Kind: L -/
theorem delivered_append : delivered opened inbox (sends ++ sends') =
    delivered opened (delivered opened inbox sends) sends' := by
  funext k
  simp [delivered, passed]

/-- Sound sends keep the inboxes sound. Kind: L -/
theorem allSound_delivered (h : AllSound inbox) (hsends : ∀ x ∈ sends, Sound x.message) :
    AllSound (delivered opened inbox sends) := by
  intro k m hm
  obtain hm | hm := List.mem_append.mp hm
  · exact h k m hm
  · obtain ⟨x, hx, -, rfl⟩ := mem_passed.mp hm
    exact hsends x hx

/-- A notification brings the roster it carries. Kind: L -/
theorem brings_of_mem_notification {x : Send} {who : Str}
    (htype : type = str "peer_joined" ∨ type = str "peer_left") (hroom : 0 ∉ room)
    (hnul : ∀ u ∈ peers, 0 ∉ u) (hx : x ∈ s.sendNotification type who whose room peers) :
    Brings room peers x.message := by
  obtain ⟨-, -, hmessage⟩ := mem_sendNotification.mp hx
  rw [hmessage]
  exact fun rooms => absorb_roster htype hroom hnul rooms

/-- **The roster to everyone on it**: telling all members of a room its roster makes their tables
show it, and changes nothing they show of other rooms. Kind: P -/
theorem agreed_of_notifications (hsound : AllSound inbox)
    (htype : type = str "peer_joined" ∨ type = str "peer_left") (hroom : 0 ∉ room)
    (hnul : ∀ u ∈ s.rooms.members room, 0 ∉ u)
    (hopen : ∀ u ∈ s.rooms.members room, ∀ k, s.clientDB[u]? = some k → opened k = true)
    (hother : ∀ (peer r : Str) (k : Socket), room ≠ r → peer ∈ s.rooms.members r →
      s.clientDB[peer]? = some k → live k → Shows (tables peer) (inbox k) r (s.rooms.members r)) :
    Agreed s live tables (delivered opened inbox
      ((s.rooms.members room).toList.flatMap fun u =>
        s.sendNotification type u whose room (s.rooms.members room))) := by
  intro peer r k hmem hsocket hlive
  have hbrings : ∀ m ∈ passed opened ((s.rooms.members room).toList.flatMap fun u =>
      s.sendNotification type u whose room (s.rooms.members room)) k,
      Brings room (s.rooms.members room) m := by
    intro m hm
    obtain ⟨x, hx, -, rfl⟩ := mem_passed.mp hm
    obtain ⟨u, -, hx⟩ := List.mem_flatMap.mp hx
    exact brings_of_mem_notification htype hroom hnul hx
  by_cases hr : room = r
  · subst hr
    refine shows_append_of_brings (hsound k) hbrings ?_
    -- the member's own notification is among them
    have hsent : ⟨k, peer, .document (rosterDocument type whose room (s.rooms.members room))⟩ ∈
        (s.rooms.members room).toList.flatMap fun u =>
          s.sendNotification type u whose room (s.rooms.members room) :=
      List.mem_flatMap.mpr ⟨peer, Std.ExtTreeSet.mem_toList.mpr hmem,
        mem_sendNotification.mpr ⟨hsocket, rfl, rfl⟩⟩
    exact List.ne_nil_of_mem
      (mem_passed.mpr ⟨_, hsent, ⟨hopen peer hmem k hsocket, rfl⟩, rfl⟩)
  · exact shows_append_of_ne (hother peer r k hr hmem hsocket hlive) hbrings hr

/-- The sends of a notification round are sound. Kind: L -/
theorem sound_of_notifications
    (htype : type = str "peer_joined" ∨ type = str "peer_left") (hroom : 0 ∉ room)
    (hnul : ∀ u ∈ peers, 0 ∉ u) {names : List Str} :
    ∀ x ∈ names.flatMap fun u => s.sendNotification type u whose room peers, Sound x.message := by
  intro x hx
  obtain ⟨u, -, hx⟩ := List.mem_flatMap.mp hx
  exact (brings_of_mem_notification htype hroom hnul hx).sound

/-- One client leaves a room. Kind: L -/
theorem agreed_of_leave (hagreed : Agreed s live tables inbox) (hsound : AllSound inbox)
    (hroom : 0 ∉ room) (hnul : ∀ u r, u ∈ s.rooms.members r → 0 ∉ u)
    (hopen : ∀ u r, u ≠ peer → u ∈ s.rooms.members r →
      ∀ k, s.clientDB[u]? = some k → opened k = true) :
    Agreed (s.leave peer room).1 live tables (delivered opened inbox (s.leave peer room).2) ∧
      AllSound (delivered opened inbox (s.leave peer room).2) := by
  have hnul' : ∀ u ∈ (s.leave peer room).1.rooms.members room, 0 ∉ u :=
    fun u hu => hnul u room ((mem_members_leave _ _ _).mp hu).1
  rw [leave_sends]
  constructor
  · refine agreed_of_notifications hsound (.inr rfl) hroom hnul' ?_ ?_
    · intro u hu k hk
      obtain ⟨hmem, hne⟩ := (mem_members_leave _ _ _).mp hu
      exact hopen u room (fun heq => hne ⟨rfl, heq⟩) hmem k hk
    · intro q r k hr hmem hsocket hlive
      rw [members_leave_ne _ _ _ hr] at hmem ⊢
      exact hagreed q r k hmem hsocket hlive
  · exact allSound_delivered hsound (sound_of_notifications (.inr rfl) hroom hnul')

/-- One client leaves room after room. Kind: L -/
theorem agreed_of_leaveRooms {rooms : List Str} (hagreed : Agreed s live tables inbox)
    (hsound : AllSound inbox) (hrooms : ∀ r ∈ rooms, 0 ∉ r)
    (hnul : ∀ u r, u ∈ s.rooms.members r → 0 ∉ u)
    (hopen : ∀ u r, u ≠ peer → u ∈ s.rooms.members r →
      ∀ k, s.clientDB[u]? = some k → opened k = true) :
    Agreed (leaveRooms peer rooms s).1 live tables
        (delivered opened inbox (leaveRooms peer rooms s).2) ∧
      AllSound (delivered opened inbox (leaveRooms peer rooms s).2) := by
  induction rooms generalizing s inbox with
  | nil =>
      have hnone : delivered opened inbox [] = inbox := by
        funext k
        simp [delivered, passed]
      exact ⟨hnone.symm ▸ hagreed, hnone.symm ▸ hsound⟩
  | cons r rooms ih =>
      obtain ⟨hagreed', hsound'⟩ :=
        agreed_of_leave hagreed hsound (hrooms r (List.mem_cons_self ..)) hnul hopen
      have hback : ∀ u r', u ∈ (s.leave peer r).1.rooms.members r' → u ∈ s.rooms.members r' :=
        fun u r' hu => ((mem_members_leave _ _ _).mp hu).1
      have hrest := ih hagreed' hsound' (fun r' hr' => hrooms r' (List.mem_cons_of_mem _ hr'))
        (fun u r' hu => hnul u r' (hback u r' hu))
        (fun u r' hne hu => hopen u r' hne (hback u r' hu))
      rw [← delivered_append] at hrest
      exact hrest

/-- Sends that leave rosters alone. Kind: L -/
theorem agreed_of_neutral (hagreed : Agreed s live tables inbox) (hsound : AllSound inbox)
    (hdb : s'.clientDB = s.clientDB) (hrooms : ∀ r, s'.rooms.members r = s.rooms.members r)
    (hsends : ∀ x ∈ sends, Neutral x.message) :
    Agreed s' live tables (delivered opened inbox sends) ∧
      AllSound (delivered opened inbox sends) := by
  constructor
  · intro peer room k hmem hsocket hlive
    rw [hrooms] at hmem ⊢
    rw [hdb] at hsocket
    refine shows_append_neutral (hagreed peer room k hmem hsocket hlive) fun m hm => ?_
    obtain ⟨x, hx, -, rfl⟩ := mem_passed.mp hm
    exact hsends x hx
  · exact allSound_delivered hsound fun x hx rooms => ⟨rooms, hsends x hx rooms⟩

end sends

/-! ## Server steps -/

/-- No two open sockets carry one id. Kind: D -/
def Distinct (w : World) : Prop :=
  ∀ (j k : Socket) (id : Str), j ∈ w.openSockets → k ∈ w.openSockets → w.ids[j]? = some id →
    w.ids[k]? = some id → j = k

section server

variable {w : World} {ws : Ws} {k : Socket} {doc : Json} {out : Server × List Send}
  {live : Socket → Prop} {tables : Str → Rooms} {inbox : Socket → List Message}

/-- The sockets that take messages. Kind: D -/
def isOpen (w : World) (k : Socket) : Bool := k ∈ w.openSockets

/-- The client of a member is registered with an open socket. Kind: L -/
theorem isOpen_of_registered (hI : w.Invariant) {peer room : Str}
    (hmem : peer ∈ w.server.rooms.members room) {k : Socket}
    (hk : w.server.clientDB[peer]? = some k) : isOpen w k = true := by
  obtain ⟨j, hj, hopen⟩ := hI.present _ _ hmem
  rw [hk] at hj
  cases hj
  simpa [isOpen] using hopen

/-- The id of a member has no NUL. Kind: L -/
theorem zero_not_mem_of_member (hI : w.Invariant) {peer room : Str}
    (hmem : peer ∈ w.server.rooms.members room) : 0 ∉ peer := by
  obtain ⟨j, hj, -⟩ := hI.present _ _ hmem
  exact hI.noNul _ _ (hI.identified _ _ hj)

/-- A message keeps the agreement. Kind: L -/
theorem agreed_of_message (hI : w.Invariant) (hI' : (w.settle out).Invariant) (hD : Distinct w)
    (hws : w.websocket k = some ws) (hresult : MessageResult ws doc w.server out)
    (hagreed : Agreed w.server live tables inbox) (hsound : AllSound inbox) :
    Agreed out.1 live tables (delivered (isOpen w) inbox out.2) ∧
      AllSound (delivered (isOpen w) inbox out.2) := by
  obtain ⟨hopen, hid, rfl⟩ := websocket_eq_some.mp hws
  cases hresult with
  | ignored => exact agreed_of_neutral hagreed hsound rfl (fun _ => rfl) (fun x hx => by cases hx)
  | pong =>
      refine agreed_of_neutral hagreed hsound rfl (fun _ => rfl) fun x hx => ?_
      cases List.mem_singleton.mp hx
      exact fun rooms => rfl
  | relay _ _ hdoc hroute hrelay _ hresult =>
      cases hresult with
      | refused hdb hrooms =>
          exact agreed_of_neutral hagreed hsound hdb hrooms (fun x hx => by cases hx)
      | sent hdb hrooms _ _ _ =>
          refine agreed_of_neutral hagreed hsound hdb hrooms fun x hx => ?_
          cases List.mem_singleton.mp hx
          subst hdoc
          exact fun rooms => absorb_relayed hroute hrelay rooms
  | leave _ hleave =>
      refine agreed_of_leave hagreed hsound (zero_not_mem_of_roomOf hleave) ?_ ?_
      · exact fun u r hu => zero_not_mem_of_member hI hu
      · exact fun u r _ hu k hk => isOpen_of_registered hI hu hk
  | @join room _ hjoin _ hresult =>
      cases hresult with
      | refused _ hdb hrooms =>
          exact agreed_of_neutral hagreed hsound hdb hrooms (fun x hx => by cases hx)
      | @joined s' hnew hdb hrooms =>
          have hroom := zero_not_mem_of_roomOf hjoin
          have hnul : ∀ u ∈ s'.rooms.members room, 0 ∉ u :=
            fun u hu => zero_not_mem_of_member hI' hu
          constructor
          · refine agreed_of_notifications hsound (.inl rfl) hroom hnul ?_ ?_
            · exact fun u hu k hk => isOpen_of_registered hI' hu hk
            · intro q r k hr hmem hsocket hlive
              rw [hrooms, if_neg hr] at hmem ⊢
              refine hagreed q r k hmem ?_ hlive
              rw [hdb] at hsocket
              by_cases hq : ws.clientId = q
              · -- a member of another room joins on the one open socket it has
                subst hq
                rw [getElem?_insert_same] at hsocket
                cases hsocket
                obtain ⟨j, hj, hjopen⟩ := hI.present _ _ hmem
                rw [hj, hD j _ _ hjopen hopen (hI.identified _ _ hj) hid]
              · rwa [getElem?_insert_ne _ _ hq] at hsocket
          · exact allSound_delivered hsound (sound_of_notifications (.inl rfl) hroom hnul)

/-- A close keeps the agreement. Kind: L -/
theorem agreed_of_close (hI : w.Invariant) (hws : w.websocket k = some ws)
    (hagreed : Agreed w.server live tables inbox) (hsound : AllSound inbox) :
    let opened := isOpen { w with openSockets := w.openSockets.erase k }
    Agreed (onMessageClose ws w.server).1 live tables
        (delivered opened inbox (onMessageClose ws w.server).2) ∧
      AllSound (delivered opened inbox (onMessageClose ws w.server).2) := by
  obtain ⟨-, hid, rfl⟩ := websocket_eq_some.mp hws
  rw [onMessageClose_eq]
  refine agreed_of_leaveRooms hagreed hsound ?_ ?_ ?_
  · intro r hr
    obtain ⟨entry, hentry, rfl⟩ := List.mem_map.mp hr
    obtain ⟨hentry, hmem⟩ := List.mem_filter.mp hentry
    rw [Std.ExtTreeMap.mem_toList_iff_getElem?_eq_some] at hentry
    refine hI.plain ws.clientId _ ?_
    unfold Rooms.members
    rw [hentry]
    simpa using hmem
  · exact fun u r hu => zero_not_mem_of_member hI hu
  · intro u r hne hu k hk
    have hopen := isOpen_of_registered hI hu hk
    simp only [isOpen, decide_eq_true_eq] at hopen ⊢
    refine (mem_erase_iff _ _ _).mpr ⟨?_, hopen⟩
    rintro rfl
    exact hne (Option.some.inj ((hI.identified _ _ hk).symm.trans hid))

end server

/-! ## The invariant -/

variable {n n' : Network} {e : Event}

/-- What every run keeps. Kind: D -/
structure Synced (n : Network) : Prop where
  world : n.world.Invariant
  distinct : Distinct n.world
  /-- A client has one socket at a time. -/
  single : ∀ (j k : Socket) (id : Str), n.world.ids[j]? = some id → n.world.ids[k]? = some id →
    j ∉ n.dropped → k ∉ n.dropped → j = k
  sound : AllSound n.inbox
  agreed : Agreed n.world.server (· ∉ n.dropped) n.tables n.inbox

/-- At first there is no client. Kind: L -/
theorem synced_init : Synced {} where
  world := inv_init
  distinct := by intro j k id hj; simp at hj
  single := by intro j k id hj; simp at hj
  sound := by intro k m hm; cases hm
  agreed := by intro peer room k hmem; simp at hmem

/-- A client all of whose sockets are gone. Kind: L -/
theorem allDropped_iff {id : Str} :
    n.allDropped id = true ↔ ∀ k : Socket, n.world.ids[k]? = some id → k ∈ n.dropped := by
  unfold allDropped
  rw [List.all_eq_true]
  constructor
  · intro h k hk
    have hentry := h (k, id) (Std.ExtTreeMap.mem_toList_iff_getElem?_eq_some.mpr hk)
    simpa using hentry
  · rintro h ⟨k, v⟩ hentry
    rw [Std.ExtTreeMap.mem_toList_iff_getElem?_eq_some] at hentry
    by_cases hv : v = id
    · subst hv
      simpa using h k hentry
    · simp [hv]

/-- No open socket carries the id of one that may open. Kind: L -/
theorem distinctIds_opened {w : World} {k : Socket} {id : Str} :
    w.distinctIds (.opened k id) = true ↔ ∀ j ∈ w.openSockets, w.ids[j]? ≠ some id := by
  unfold distinctIds
  simp only [List.all_eq_true, Std.ExtTreeSet.mem_toList, decide_eq_true_eq]

/-- What a handler sends is what arrives. Kind: L -/
theorem arrivals_settle (w : World) (out : Server × List Send) (k : Socket) :
    arrivals k ((w.settle out).sent.drop w.sent.length) = passed (isOpen w) out.2 k := by
  unfold settle arrivals passed
  rw [List.drop_left, List.filter_map, List.map_map]
  rfl

/-- Ids are not forgotten. Kind: L -/
theorem ids_opened {w : World} {k j : Socket} {id v : Str} (hfresh : w.ids[k]? = none) :
    (w.ids.insert k id)[j]? = some v ↔ (j = k ∧ v = id) ∨ w.ids[j]? = some v := by
  rw [getElem?_insert_eq]
  split
  · rename_i hk
    subst hk
    simp [hfresh, eq_comm]
  · rename_i hk
    simp [Ne.symm hk]

/-- No two open sockets carry one id after a step that opens none under a taken id. Kind: L -/
theorem distinct_step {w w' : World} {e : World.Event} (h : Distinct w)
    (hdistinct : w.distinctIds e = true) (hstep : w.step e = some w') : Distinct w' := by
  cases e with
  | opened k id =>
      obtain ⟨⟨hfresh, -⟩, rfl⟩ := step_opened.mp hstep
      rw [distinctIds_opened] at hdistinct
      intro i j v hi hj hiv hjv
      obtain ⟨rfl, rfl⟩ | hiv' := (ids_opened hfresh).mp hiv
      · obtain ⟨rfl, -⟩ | hjv' := (ids_opened hfresh).mp hjv
        · rfl
        · obtain rfl | hj' := (mem_insert_iff _ _ _).mp hj
          · rfl
          · exact (hdistinct j hj' hjv').elim
      · obtain rfl | hi' := (mem_insert_iff _ _ _).mp hi
        · rw [hfresh] at hiv'
          cases hiv'
        · obtain ⟨rfl, rfl⟩ | hjv' := (ids_opened hfresh).mp hjv
          · exact (hdistinct i hi' hiv').elim
          · obtain rfl | hj' := (mem_insert_iff _ _ _).mp hj
            · rw [hfresh] at hjv'
              cases hjv'
            · exact h i j v hi' hj' hiv' hjv'
  | message k doc =>
      obtain ⟨ws, out, -, -, rfl⟩ := step_message.mp hstep
      exact h
  | closed k =>
      obtain ⟨ws, -, rfl⟩ := step_closed.mp hstep
      intro i j v hi hj
      exact h i j v ((mem_erase_iff _ _ _).mp hi).2 ((mem_erase_iff _ _ _).mp hj).2

/-- A turn of the server's event loop keeps the invariant. Kind: L -/
theorem synced_server {e : World.Event} (h : Synced n) (hadmits : n.admits e = true) {w : World}
    (hstep : n.world.stepDistinct e = some w) :
    Synced { n with
      world := w
      inbox := fun k => n.inbox k ++ arrivals k (w.sent.drop n.world.sent.length) } := by
  obtain ⟨hdistinct, hstep⟩ := step_of_stepDistinct hstep
  have hI := inv_step h.world hstep
  cases e with
  | opened k id =>
      obtain ⟨⟨hfresh, -⟩, rfl⟩ := step_opened.mp hstep
      have hinbox : (fun j => n.inbox j ++ arrivals j (n.world.sent.drop n.world.sent.length)) =
          n.inbox := by
        funext j
        simp [arrivals]
      refine ⟨hI, ?_, ?_, ?_, ?_⟩
      · exact distinct_step h.distinct hdistinct hstep
      · intro i j v hiv hjv hi hj
        have hdropped := allDropped_iff.mp hadmits
        obtain ⟨rfl, rfl⟩ | hiv' := (ids_opened hfresh).mp hiv
        · obtain ⟨rfl, -⟩ | hjv' := (ids_opened hfresh).mp hjv
          · rfl
          · exact (hj (hdropped j hjv')).elim
        · obtain ⟨rfl, rfl⟩ | hjv' := (ids_opened hfresh).mp hjv
          · exact (hi (hdropped i hiv')).elim
          · exact h.single i j v hiv' hjv' hi hj
      · dsimp only
        rw [hinbox]
        exact h.sound
      · dsimp only
        rw [hinbox]
        exact h.agreed
  | message k doc =>
      obtain ⟨ws, out, hws, hout, rfl⟩ := step_message.mp hstep
      have hinbox : (fun j => n.inbox j ++ arrivals j
          ((n.world.settle out).sent.drop n.world.sent.length)) =
          delivered (isOpen n.world) n.inbox out.2 := by
        funext j
        rw [arrivals_settle]
        rfl
      obtain ⟨hagreed, hsound⟩ := agreed_of_message h.world hI h.distinct hws
        (onMessage_result hout) h.agreed h.sound
      exact ⟨hI, h.distinct, h.single, hinbox ▸ hsound, hinbox ▸ hagreed⟩
  | closed k =>
      obtain ⟨ws, hws, rfl⟩ := step_closed.mp hstep
      obtain ⟨hagreed, hsound⟩ := agreed_of_close h.world hws h.agreed h.sound
      have hinbox := arrivals_settle { n.world with openSockets := n.world.openSockets.erase k }
        (onMessageClose ws n.world.server)
      refine ⟨hI, distinct_step h.distinct hdistinct hstep, h.single, ?_, ?_⟩
      · simp only [hinbox]
        exact hsound
      · simp only [hinbox]
        exact hagreed

/-- Every event keeps the invariant. Kind: L -/
theorem synced_step (h : Synced n) (hstep : n.step e = some n') : Synced n' := by
  cases e with
  | server e =>
      simp only [step] at hstep
      split at hstep
      · rename_i hadmits
        obtain ⟨w, hw, rfl⟩ := Option.map_eq_some_iff.mp hstep
        exact synced_server h hadmits hw
      · cases hstep
  | handled k =>
      simp only [step] at hstep
      split at hstep
      · rename_i m ms id hinbox hid
        split at hstep
        · cases hstep
        · rename_i hk
          split at hstep
          · rename_i rooms habsorb
            cases hstep
            refine ⟨h.world, h.distinct, h.single, ?_, ?_⟩
            · intro j m' (hm' : m' ∈ Function.update n.inbox k ms j)
              by_cases hj : j = k
              · subst hj
                rw [Function.update_self] at hm'
                exact h.sound j m' (hinbox ▸ List.mem_cons_of_mem _ hm')
              · rw [Function.update_of_ne hj] at hm'
                exact h.sound j m' hm'
            · intro peer room j hmem hsocket hlive
              have hidj := h.world.identified _ _ hsocket
              have hshows := h.agreed peer room j hmem hsocket hlive
              by_cases hj : j = k
              · subst hj
                cases hid.symm.trans hidj
                dsimp only
                rw [Function.update_self, Function.update_self]
                obtain ⟨rooms', hall, hroom⟩ := hshows
                rw [hinbox, absorbAll, habsorb, Json.ok_bind] at hall
                exact ⟨rooms', hall, hroom⟩
              · -- another socket that its client still listens to is another client's
                have hpeer : peer ≠ id := by
                  rintro rfl
                  exact hj (h.single j k peer hidj hid hlive hk)
                dsimp only
                rw [Function.update_of_ne hj, Function.update_of_ne hpeer]
                exact hshows
          · cases hstep
      · cases hstep
  | dropped k exiting =>
      simp only [step] at hstep
      split at hstep
      · rename_i id hid
        split at hstep
        · cases hstep
        · rename_i hk
          cases hstep
          refine ⟨h.world, h.distinct, ?_, h.sound, ?_⟩
          · intro i j v hi hj hi' hj'
            exact h.single i j v hi hj (fun hc => hi' ((mem_insert_iff _ _ _).mpr (.inr hc)))
              (fun hc => hj' ((mem_insert_iff _ _ _).mpr (.inr hc)))
          · intro peer room j hmem hsocket hlive
            have hlive' : j ∉ n.dropped := fun hc => hlive ((mem_insert_iff _ _ _).mpr (.inr hc))
            have hpeer : peer ≠ id := by
              rintro rfl
              have hj := h.single j k peer (h.world.identified _ _ hsocket) hid hlive' hk
              exact hlive ((mem_insert_iff _ _ _).mpr (.inl hj.symm))
            have hshows := h.agreed peer room j hmem hsocket hlive'
            cases exiting with
            | true => exact hshows
            | false =>
                simp only [Bool.false_eq_true, if_false]
                rw [Function.update_of_ne hpeer]
                exact hshows
      · cases hstep
  | started id =>
      simp only [step] at hstep
      split at hstep
      · rename_i hdropped
        cases hstep
        refine ⟨h.world, h.distinct, h.single, h.sound, ?_⟩
        intro peer room j hmem hsocket hlive
        have hpeer : peer ≠ id := by
          rintro rfl
          exact hlive (allDropped_iff.mp hdropped j (h.world.identified _ _ hsocket))
        dsimp only
        rw [Function.update_of_ne hpeer]
        exact h.agreed peer room j hmem hsocket hlive
      · cases hstep

/-! ## Agreement -/

/-- The client's roster of the room is the server's, and the client is on it.
Source: `WebRTC.cpp`, `GetPeers`
Kind: D -/
def Agrees (n : Network) (peer room : Str) : Prop :=
  WebRTC.getPeers (n.tables peer) room = some (n.world.server.rooms.members room).toList ∧
    peer ∈ (n.world.server.rooms.members room).toList

/-- The socket is the client's, and the client has handled everything that was sent to it.
Kind: D -/
def Drained (n : Network) (k : Socket) (peer : Str) : Prop :=
  k ∈ n.world.openSockets ∧ n.world.ids[k]? = some peer ∧ n.inbox k = []

/-- A drained member agrees. Kind: L -/
theorem agrees_of_synced (h : Synced n) {peer room : Str} {k : Socket}
    (hmem : peer ∈ n.world.server.rooms.members room) (hdrained : n.Drained k peer)
    (hlive : k ∉ n.dropped) : n.Agrees peer room := by
  obtain ⟨hopen, hid, hinbox⟩ := hdrained
  obtain ⟨j, hj, hjopen⟩ := h.world.present _ _ hmem
  cases h.distinct j k peer hjopen hopen (h.world.identified _ _ hj) hid
  obtain ⟨rooms, hall, hroom⟩ := h.agreed peer room k hmem hj hlive
  rw [hinbox, absorbAll, Except.ok.injEq] at hall
  subst hall
  refine ⟨?_, Std.ExtTreeSet.mem_toList.mpr hmem⟩
  unfold WebRTC.getPeers
  rw [hroom]
  rfl

/-- **Roster agreement**: in every reachable state, a member of a room that has handled all
messages sent to its socket, and has not handled that socket's close, has the server's roster of
the room, itself included. Kind: P -/
theorem getPeers_eq_of_drained (es : List Event) :
    Runs.Always step (fun n => ∀ (peer room : Str) (k : Socket),
      peer ∈ n.world.server.rooms.members room → n.Drained k peer → k ∉ n.dropped →
        n.Agrees peer room) {} es := by
  refine Runs.Always.imp step (P := Synced) ?_ (Runs.always_of_invariant step ?_ synced_init)
  · exact fun n h peer room k hmem hdrained hlive => agrees_of_synced h hmem hdrained hlive
  · exact fun _ _ _ h hs => synced_step h hs

/-- A client joins a room, is told, and loses its connection before the server notices. Kind: D -/
def lostConnection : List Event :=
  [.server (.opened 0 (str "p")),
    .server (.message 0 (.obj [(str "type", .str (str "join")), (str "room", .str (str "r"))])),
    .handled 0, .dropped 0 false]

/-- A client's rosters are gone before the server sees its socket close. Kind: P -/
theorem roster_lost_before_close : ¬ ∀ es, Runs.Always step (fun n =>
    ∀ (peer room : Str) (k : Socket), peer ∈ n.world.server.rooms.members room →
      n.Drained k peer → n.Agrees peer room) {} es := by
  intro h
  have hany : ((Runs.run step {} lostConnection).any fun n =>
      decide (str "p" ∈ n.world.server.rooms.members (str "r") ∧ 0 ∈ n.world.openSockets ∧
        n.world.ids[0]? = some (str "p") ∧ (n.inbox 0).isEmpty = true ∧
        WebRTC.getPeers (n.tables (str "p")) (str "r") = none)) = true := by decide
  obtain ⟨n, hn, hall⟩ := (h lostConnection).at_end _ hany
  obtain ⟨hmem, hopen, hid, hinbox, hnone⟩ := of_decide_eq_true hn
  have hagrees := hall (str "p") (str "r") 0 hmem ⟨hopen, hid, List.isEmpty_iff.mp hinbox⟩
  rw [hagrees.1] at hnone
  cases hnone

end Network

end CloudNode
