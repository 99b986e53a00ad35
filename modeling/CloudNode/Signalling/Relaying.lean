import CloudNode.Signalling.World

/-!
# Whom the server sends to

Two properties of the server's sends, over all runs.

* `delivered_iff_liveRecipient` — every send goes to an open socket of the client it is meant
  for. It does in exactly the runs in which no `answer` or `candidate` is relayed to a client
  whose registered socket has closed: nothing takes a client out of `m_clientDB`, and these two
  types are relayed without a look at the rooms, which a close does empty.
* `isolated_iff_acquainted` — a relayed message reaches another client only if it shares a room
  with the sender. It does except for exactly those `answer`s and `candidate`s whose recipient is
  connected and shares no room with the sender.
-/

namespace CloudNode

/-- The socket was open, and was that of the client the message is meant for. Kind: D -/
def Record.Delivered (r : Record) : Prop := r.isOpen = true ∧ r.clientId = some r.send.addressee

namespace World

open Server

variable {w w' : World} {ws : Ws} {k : Socket} {doc : Json} {out : Server × List Send}

/-- Every send so far reached an open socket of the client it was meant for. Kind: D -/
def AllDelivered (w : World) : Prop := ∀ r ∈ w.sent, r.Delivered

/-- A client that is registered is registered with an open socket. Kind: D -/
def registeredOpen (w : World) (peer : Str) : Bool :=
  match w.server.clientDB[peer]? with
  | none => true
  | some k => k ∈ w.openSockets

/-- The event is no `answer` or `candidate` for a client whose registered socket has closed.
Kind: D -/
def liveRecipient (w : World) : Event → Bool
  | .message _ doc => (uncheckedPeer doc).all w.registeredOpen
  | _ => true

/-! ## Open recipients -/

/-- After a handler, what was sent before and what it sent. Kind: L -/
theorem allDelivered_settle :
    (w.settle out).AllDelivered ↔ w.AllDelivered ∧ ∀ m ∈ out.2, (w.record m).Delivered := by
  unfold AllDelivered settle
  simp only [List.mem_append, List.mem_map, or_imp, forall_and, forall_exists_index, and_imp,
    forall_apply_eq_imp_iff₂]

/-- A send to the socket registered for its addressee is delivered if that socket is open.
Kind: L -/
theorem delivered_of_open {m : Send} (hI : w.Identified)
    (hsocket : w.server.clientDB[m.addressee]? = some m.target) (hopen : m.target ∈ w.openSockets) :
    (w.record m).Delivered :=
  ⟨by simpa [record] using hopen, hI _ _ hsocket⟩

/-- A send to the socket registered for a member of a room is delivered. Kind: L -/
theorem delivered_of_present {m : Send} {room : Str} (hI : w.Invariant)
    (hsocket : w.server.clientDB[m.addressee]? = some m.target)
    (hmem : m.addressee ∈ w.server.rooms.members room) : (w.record m).Delivered := by
  obtain ⟨k, hk, hopen⟩ := hI.present _ _ hmem
  rw [hsocket] at hk
  cases hk
  exact delivered_of_open hI.identified hsocket hopen

/-- What a message makes the server send is delivered, if its unchecked recipient is there.
Kind: L -/
theorem delivered_of_message (hI : w.Invariant) (hI' : (w.settle out).Invariant)
    (hws : w.websocket k = some ws) (hlive : w.liveRecipient (.message k doc) = true)
    (hresult : MessageResult ws doc w.server out) : ∀ m ∈ out.2, (w.record m).Delivered := by
  intro m hm
  cases hresult with
  | ignored => cases hm
  | join _ _ hresult =>
      cases hresult with
      | refused => cases hm
      | joined hnew hdb hrooms =>
          obtain ⟨u, hu, hm⟩ := List.mem_flatMap.mp hm
          obtain ⟨hsocket, rfl, -⟩ := mem_sendNotification.mp hm
          -- the new roster is one of the state that `OnJoin` leaves
          have hnew : ((w.settle _).record m).Delivered :=
            delivered_of_present hI' hsocket (Std.ExtTreeSet.mem_toList.mp hu)
          exact hnew
  | leave =>
      obtain ⟨hmem, -, hsocket⟩ := mem_leave_sends _ _ _ hm
      exact delivered_of_present hI hsocket hmem
  | relay _ _ hdoc hroute hrelay hhandle hresult =>
      subst hdoc
      cases hresult with
      | refused => cases hm
      | sent hdb hrooms hpeer hsocket hroom =>
          cases List.mem_singleton.mp hm
          cases hcheck : checksRoom _ with
          | true =>
              obtain ⟨room, -, hmem⟩ := hroom hcheck
              exact delivered_of_present hI hsocket hmem
          | false =>
              have hu := uncheckedPeer_of_sent hroute hrelay hcheck hhandle
              simp only [liveRecipient, hu, Option.all_some, registeredOpen, hsocket,
                decide_eq_true_eq] at hlive
              exact delivered_of_open hI.identified hsocket hlive
  | pong =>
      cases List.mem_singleton.mp hm
      obtain ⟨hopen, hid, rfl⟩ := websocket_eq_some.mp hws
      exact ⟨by simpa [record] using hopen, hid⟩

/-- What a close makes the server send is delivered. Kind: L -/
theorem delivered_of_close (hI : w.Invariant) (hws : w.websocket k = some ws) :
    ∀ m ∈ (onMessageClose ws w.server).2,
      (record { w with openSockets := w.openSockets.erase k } m).Delivered := by
  intro m hm
  rw [onMessageClose_eq] at hm
  obtain ⟨⟨room, hmem⟩, hne, hsocket⟩ := mem_leaveRooms_sends _ _ hm
  obtain ⟨j, hj, hopen⟩ := hI.present _ _ hmem
  rw [hsocket] at hj
  cases hj
  obtain ⟨-, hid, -⟩ := websocket_eq_some.mp hws
  have hid' := hI.identified _ _ hsocket
  refine ⟨?_, hid'⟩
  simp only [record, decide_eq_true_eq]
  refine (mem_erase_iff _ _ _).mpr ⟨?_, hopen⟩
  rintro rfl
  exact hne (Option.some.inj (hid'.symm.trans hid))

/-- A step with a live recipient delivers what it sends. Kind: L -/
theorem allDelivered_step {e : Event} (hI : w.Invariant) (hP : w.AllDelivered)
    (hlive : w.liveRecipient e = true) (hstep : w.step e = some w') : w'.AllDelivered := by
  have hI' := inv_step hI hstep
  cases e with
  | opened k id =>
      obtain ⟨-, rfl⟩ := step_opened.mp hstep
      exact hP
  | message k doc =>
      obtain ⟨ws, out, hws, hout, rfl⟩ := step_message.mp hstep
      exact allDelivered_settle.mpr
        ⟨hP, delivered_of_message hI hI' hws hlive (onMessage_result hout)⟩
  | closed k =>
      obtain ⟨ws, hws, rfl⟩ := step_closed.mp hstep
      exact allDelivered_settle.mpr ⟨hP, delivered_of_close hI hws⟩

/-- A step without a live recipient sends to a closed socket. Kind: L -/
theorem not_allDelivered_step {e : Event} (hlive : ¬ w.liveRecipient e = true)
    (hstep : w.step e = some w') : ¬ w'.AllDelivered := by
  cases e with
  | opened k id => exact (hlive rfl).elim
  | closed k => exact (hlive rfl).elim
  | message k doc =>
      obtain ⟨ws, out, -, hout, rfl⟩ := step_message.mp hstep
      cases hu : uncheckedPeer doc with
      | none => simp [liveRecipient, hu] at hlive
      | some peer =>
          cases hsocket : w.server.clientDB[peer]? with
          | none => simp [liveRecipient, hu, registeredOpen, hsocket] at hlive
          | some j =>
              simp only [liveRecipient, hu, Option.all_some, registeredOpen, hsocket,
                decide_eq_true_eq] at hlive
              obtain ⟨h, msg, -, -, hmsg⟩ := onMessage_of_unchecked ws hu hsocket
              rw [hmsg, Except.ok.injEq] at hout
              subst hout
              rw [allDelivered_settle]
              rintro ⟨-, hnew⟩
              have := (hnew _ (List.mem_singleton_self _)).1
              simp only [record, decide_eq_true_eq] at this
              exact hlive this

/-- **The server sends to open sockets only** in exactly the runs in which every `answer` and
`candidate` has a recipient that is not registered or registered with an open socket. Kind: P -/
theorem delivered_iff_liveRecipient (es : List Event) :
    Runs.Always step AllDelivered {} es ↔
      Runs.Meets step (fun w e => w.liveRecipient e = true) {} es := by
  refine Runs.always_iff_meets step (I := Invariant) (fun _ _ _ hI hs => inv_step hI hs)
    (fun _ _ _ hI hP hC hs => allDelivered_step hI hP hC hs)
    (fun _ _ _ _ _ hC hs => not_allDelivered_step hC hs) inv_init ?_
  intro r hr
  cases hr

/-- A client registers, its socket closes, and another client answers it.
Kind: D -/
def answerAfterClose : List Event :=
  [.opened 0 (str "t"), .opened 1 (str "a"),
    .message 0 (.obj [(str "type", .str (str "join")), (str "room", .str (str "r"))]),
    .closed 0,
    .message 1 (.obj [(str "type", .str (str "answer")), (str "peer", .str (str "t")),
      (str "sdp", .str [])])]

/-- The server can send to a closed socket, with distinct ids throughout. Kind: P -/
theorem sends_to_closed_socket : ¬ ∀ es, Runs.Always stepDistinct AllDelivered {} es := by
  intro h
  have hany : ((Runs.run stepDistinct {} answerAfterClose).any fun w =>
      w.sent.any fun r => !r.isOpen) = true := by decide
  obtain ⟨w, hw, hall⟩ := (h answerAfterClose).at_end _ hany
  obtain ⟨r, hr, hclosed⟩ := List.any_eq_true.mp hw
  rw [(hall r hr).1] at hclosed
  cases hclosed

/-! ## Room isolation -/

/-- What a relay message from `k` makes the server deliver to another client goes to one that
shares a room with the sender. Kind: D -/
def Isolated (w : World) (k : Socket) (doc : Json) : Prop :=
  ∀ ws h out, w.websocket k = some ws → messageRouter doc = .ok (some h) → relays h = true →
    onMessage ws doc w.server = .ok out → ∀ m ∈ out.2, (w.record m).isOpen = true →
      ∀ peer, (w.record m).clientId = some peer → peer ≠ ws.clientId →
        ∃ room, ws.clientId ∈ w.server.rooms.members room ∧ peer ∈ w.server.rooms.members room

/-- The document is no `answer` or `candidate` for another client that is connected and shares no
room with the sender. Kind: D -/
def Acquainted (w : World) (k : Socket) (doc : Json) : Prop :=
  ∀ ws peer j, w.websocket k = some ws → uncheckedPeer doc = some peer →
    w.server.clientDB[peer]? = some j → j ∈ w.openSockets → peer ≠ ws.clientId →
      ∃ room, ws.clientId ∈ w.server.rooms.members room ∧ peer ∈ w.server.rooms.members room

/-- The message of a relay, by the rule its type follows. Kind: L -/
theorem isolated_of_acquainted (hI : w.Invariant) (h : w.Acquainted k doc) : w.Isolated k doc := by
  intro ws hd out hws hroute hrelay hout m hm hopen peer hpeer hne
  obtain ⟨members, type, rfl, -, -⟩ := exists_members_of_messageRouter hroute
  have hhandle : handle hd ws (.obj members) w.server = .ok out := by
    unfold onMessage at hout
    rw [hroute, Json.ok_bind] at hout
    exact hout
  cases handle_relay hrelay hhandle with
  | refused => cases hm
  | sent hdb hrooms hpeer' hsocket hroom =>
      cases List.mem_singleton.mp hm
      have hid := hI.identified _ _ hsocket
      cases Option.some.inj (hid.symm.trans hpeer)
      cases hcheck : checksRoom hd with
      | true => exact hroom hcheck
      | false =>
          have hu := uncheckedPeer_of_sent hroute hrelay hcheck hhandle
          simp only [record, decide_eq_true_eq] at hopen
          exact h ws _ _ hws hu hsocket hopen hne

/-- **Room isolation holds exactly** for the messages that are no `answer` or `candidate` to a
connected client with which the sender shares no room. Kind: P -/
theorem isolated_iff_acquainted {es : List Event} (hrun : Runs.run step {} es = some w)
    (k : Socket) (doc : Json) : w.Isolated k doc ↔ w.Acquainted k doc := by
  have hI := inv_of_run hrun
  constructor
  · intro h ws peer j hws hu hsocket hopen hne
    obtain ⟨hd, msg, hroute, hrelay, hmsg⟩ := onMessage_of_unchecked ws hu hsocket
    refine h ws hd _ hws hroute hrelay hmsg _ (List.mem_singleton_self _) ?_ peer ?_ hne
    · simpa [record] using hopen
    · exact hI.identified _ _ hsocket
  · exact isolated_of_acquainted hI

/-- A client joins a room; another connects and joins none. Kind: D -/
def memberAndStranger : List Event :=
  [.opened 0 (str "b"), .opened 1 (str "a"),
    .message 0 (.obj [(str "type", .str (str "join")), (str "room", .str (str "r"))])]

/-- A candidate for client `b`. Kind: D -/
def candidateForB : Json :=
  .obj [(str "type", .str (str "candidate")), (str "peer", .str (str "b")),
    (str "candidate", .str []), (str "mid", .str [])]

/-- The exact condition at a state with a member and a stranger. Kind: L -/
theorem isolated_iff_acquainted_stranger : ∃ w, Runs.run step {} memberAndStranger = some w ∧
    (w.Isolated 1 candidateForB ↔ w.Acquainted 1 candidateForB) := by
  obtain ⟨w, hw⟩ := Option.isSome_iff_exists.mp
    (by decide : (Runs.run step {} memberAndStranger).isSome = true)
  exact ⟨w, hw, isolated_iff_acquainted hw 1 candidateForB⟩

/-- A stranger reaches a client of a room it is not in. Kind: P -/
theorem candidate_from_stranger : ¬ ∀ es w k doc, Runs.run step {} es = some w →
    Isolated w k doc := by
  intro h
  have hany : ((Runs.run step {} memberAndStranger).any fun w =>
      decide (w.server.clientDB[str "b"]? = some 0 ∧ 0 ∈ w.openSockets ∧ 1 ∈ w.openSockets ∧
        w.ids[1]? = some (str "a") ∧ w.server.clientDB[str "a"]? = none)) = true := by decide
  obtain ⟨w, hrun, hw⟩ := (Option.any_eq_true _ _).mp hany
  obtain ⟨hb, hopen, hopen', hid, ha⟩ := of_decide_eq_true hw
  have hI := inv_of_run hrun
  have hws : w.websocket 1 = some ⟨1, str "a"⟩ := websocket_eq_some.mpr ⟨hopen', hid, rfl⟩
  have hu : uncheckedPeer candidateForB = some (str "b") := by decide
  obtain ⟨hd, msg, hroute, hrelay, hmsg⟩ := onMessage_of_unchecked ⟨1, str "a"⟩ hu hb
  obtain ⟨room, hroom, -⟩ := h _ w 1 candidateForB hrun ⟨1, str "a"⟩ hd _ hws hroute hrelay hmsg _
    (List.mem_singleton_self _) (by simpa [record] using hopen) (str "b") (hI.identified _ _ hb)
    (by decide)
  -- whoever is in a room is registered, and `a` is not
  obtain ⟨j, hj, -⟩ := hI.present _ _ hroom
  rw [ha] at hj
  cases hj

end World

end CloudNode
