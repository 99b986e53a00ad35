import CloudNode.Lib.Runs
import CloudNode.Signalling.Handlers

/-!
# The signalling server and its sockets

The server runs on one event loop: sockets open with the id of their `x-client-id` header, text
messages arrive on open sockets, sockets close. `World` is the server's tables with the sockets
they are about, and a record of every `send` with what was true of its socket at that moment.

* `Message.closed` — uWebSockets calls the close handler on a socket that takes no more messages.
* Two sockets may carry one id: reconnecting clients reuse theirs. `stepDistinct` is the system
  in which no two open sockets do.
* `Identified`, `Present` — what every run keeps: the table of clients names sockets by their
  own id, and whoever is in a room is registered with an open socket.
-/

namespace CloudNode

/-- A `send` and the socket it was called on: whether it was open, and its `x_client_id`.
Kind: D -/
structure Record where
  send : Send
  isOpen : Bool
  clientId : Option Str

/-- The server's tables, the sockets, and the messages sent so far. Kind: D -/
structure World where
  server : Server := {}
  /-- Every socket that was ever opened, with its `x_client_id`. -/
  ids : Std.ExtTreeMap Socket Str := ∅
  openSockets : Std.ExtTreeSet Socket := ∅
  sent : List Record := []

namespace World

/-- What can happen on the server's event loop. Kind: D -/
inductive Event where
  | opened (k : Socket) (id : Str)
  | message (k : Socket) (doc : Json)
  | closed (k : Socket)

/-- An open socket with its `PerSocketData`. Kind: D -/
def websocket (w : World) (k : Socket) : Option Ws :=
  if k ∈ w.openSockets then w.ids[k]?.map fun id => ⟨k, id⟩ else none

/-- The record of one `send`. Kind: D -/
def record (w : World) (m : Send) : Record :=
  ⟨m, m.target ∈ w.openSockets, w.ids[m.target]?⟩

/-- Take over what a handler left. Kind: D -/
def settle (w : World) (out : Server × List Send) : World :=
  { w with server := out.1, sent := w.sent ++ out.2.map w.record }

/-- One turn of the event loop. A header value holds no NUL. A document that breaks a RapidJSON
precondition has no next state.
Source: `MessagePortServer.cpp`, the `upgrade`, `open`, `message` and `close` behaviours;
`WebRTC.cpp`, the callbacks of the constructor; `WebRTCServer.cpp`, `OnMessageOpen`
Kind: D -/
def step (w : World) : Event → Option World
  | .opened k id =>
    if w.ids[k]? = none ∧ 0 ∉ id then
      some { w with ids := w.ids.insert k id, openSockets := w.openSockets.insert k }
    else none
  | .message k doc =>
    match w.websocket k with
    | none => none
    | some ws =>
      match Server.onMessage ws doc w.server with
      | .ok out => some (w.settle out)
      | .error _ => none
  | .closed k =>
    match w.websocket k with
    | none => none
    | some ws =>
      some ({ w with openSockets := w.openSockets.erase k }.settle
        (Server.onMessageClose ws w.server))

/-- The new socket's id is not that of an open one. Kind: D -/
def distinctIds (w : World) : Event → Bool
  | .opened _ id => w.openSockets.toList.all fun j => w.ids[j]? ≠ some id
  | _ => true

/-- The event loop while no two open sockets share an id. Kind: D -/
def stepDistinct (w : World) (e : Event) : Option World :=
  if w.distinctIds e then w.step e else none

/-! ## What a step does -/

variable {w w' : World} {k j : Socket} {id peer room : Str} {doc : Json} {ws : Ws}

/-- An open socket, as the handlers see it. Kind: L -/
theorem websocket_eq_some :
    w.websocket k = some ws ↔ k ∈ w.openSockets ∧ w.ids[k]? = some ws.clientId ∧ ws.socket = k := by
  unfold websocket
  split
  · rename_i hk
    rw [Option.map_eq_some_iff]
    constructor
    · rintro ⟨id, hid, rfl⟩
      exact ⟨hk, hid, rfl⟩
    · rintro ⟨-, hid, rfl⟩
      exact ⟨_, hid, rfl⟩
  · rename_i hk
    exact ⟨fun h => (Option.some_ne_none _ h.symm).elim, fun h => (hk h.1).elim⟩

/-- A socket opens. Kind: L -/
theorem step_opened : w.step (.opened k id) = some w' ↔ (w.ids[k]? = none ∧ 0 ∉ id) ∧
    w' = { w with ids := w.ids.insert k id, openSockets := w.openSockets.insert k } := by
  simp only [step]
  split
  · rename_i h
    simp only [h, not_false_eq_true, and_self, true_and, Option.some.injEq, eq_comm]
  · rename_i h
    simp only [h, false_and, reduceCtorEq]

/-- A message is handled. Kind: L -/
theorem step_message : w.step (.message k doc) = some w' ↔ ∃ ws out, w.websocket k = some ws ∧
    Server.onMessage ws doc w.server = .ok out ∧ w' = w.settle out := by
  simp only [step]
  cases hws : w.websocket k with
  | none => simp
  | some ws =>
      cases hout : Server.onMessage ws doc w.server with
      | error e => simp [hout]
      | ok out =>
          simp only [Option.some.injEq, exists_and_left, exists_eq_left', hout, Except.ok.injEq]
          exact eq_comm

/-- A socket closes. Kind: L -/
theorem step_closed : w.step (.closed k) = some w' ↔ ∃ ws, w.websocket k = some ws ∧
    w' = { w with openSockets := w.openSockets.erase k }.settle
      (Server.onMessageClose ws w.server) := by
  simp only [step]
  cases hws : w.websocket k with
  | none => simp
  | some ws => simp [eq_comm]

/-- The system with distinct ids takes steps of the system without. Kind: L -/
theorem step_of_stepDistinct {e : Event} (h : w.stepDistinct e = some w') :
    w.distinctIds e = true ∧ w.step e = some w' := by
  unfold stepDistinct at h
  split at h
  · rename_i hd
    exact ⟨hd, h⟩
  · cases h

/-! ## Ids and registrations -/

/-- The table of clients names sockets by their own id. Kind: D -/
def Identified (w : World) : Prop :=
  ∀ (peer : Str) (k : Socket), w.server.clientDB[peer]? = some k → w.ids[k]? = some peer

/-- Whoever is in a room is registered with an open socket. Kind: D -/
def Present (w : World) : Prop :=
  ∀ (peer room : Str), peer ∈ w.server.rooms.members room →
    ∃ k, w.server.clientDB[peer]? = some k ∧ k ∈ w.openSockets

/-- What every run keeps. Kind: D -/
structure Invariant (w : World) : Prop where
  opened : ∀ k : Socket, k ∈ w.openSockets → ∃ id : Str, w.ids[k]? = some id
  noNul : ∀ (k : Socket) (id : Str), w.ids[k]? = some id → 0 ∉ id
  identified : w.Identified
  present : w.Present
  plain : ∀ peer room : Str, peer ∈ w.server.rooms.members room → 0 ∉ room

/-- At first there is no socket and no client. Kind: L -/
theorem inv_init : Invariant {} where
  opened := by intro k hk; simp at hk
  noNul := by intro k id hk; simp at hk
  identified := by intro peer k hk; simp at hk
  present := by intro peer room hp; simp at hp
  plain := by intro peer room hp; simp at hp

/-- A message registers at most its sender, with the socket it came on. Kind: L -/
theorem clientDB_of_message (peer : Str) {s : Server} {out : Server × List Send}
    (h : Server.MessageResult ws doc s out) : out.1.clientDB[peer]? = s.clientDB[peer]? ∨
      (peer = ws.clientId ∧ out.1.clientDB[peer]? = some ws.socket) := by
  cases h with
  | ignored => exact .inl rfl
  | join _ _ hresult =>
      cases hresult with
      | refused _ hdb _ => exact .inl (by rw [hdb])
      | joined _ hdb _ =>
          rw [hdb]
          by_cases heq : ws.clientId = peer
          · subst heq
            exact .inr ⟨rfl, getElem?_insert_same _ _ _⟩
          · exact .inl (getElem?_insert_ne _ _ heq)
  | leave => exact .inl rfl
  | relay _ _ _ _ _ _ hresult =>
      cases hresult with
      | refused hdb _ => exact .inl (by rw [hdb])
      | sent hdb _ => exact .inl (by rw [hdb])
  | pong => exact .inl rfl

/-- After a message, a member of a room was one before, or is the sender and registered with the
socket it came on. Kind: L -/
theorem members_of_message {s : Server} {out : Server × List Send}
    (h : Server.MessageResult ws doc s out) (hp : peer ∈ out.1.rooms.members room) :
    peer ∈ s.rooms.members room ∨
      (peer = ws.clientId ∧ out.1.clientDB[peer]? = some ws.socket) := by
  cases h with
  | ignored => exact .inl hp
  | join _ _ hresult =>
      cases hresult with
      | refused _ _ hrooms => exact .inl (hrooms room ▸ hp)
      | joined _ hdb hrooms =>
          by_cases heq : ws.clientId = peer
          · subst heq
            exact .inr ⟨rfl, by rw [hdb, getElem?_insert_same]⟩
          · refine .inl ?_
            rw [hrooms] at hp
            split at hp
            · rename_i hr
              rw [mem_insert_iff] at hp
              exact hr ▸ hp.resolve_left heq
            · exact hp
  | leave _ _ => exact .inl ((Server.mem_members_leave _ _ _).mp hp).1
  | relay _ _ _ _ _ _ hresult =>
      cases hresult with
      | refused _ hrooms => exact .inl (hrooms room ▸ hp)
      | sent _ hrooms => exact .inl (hrooms room ▸ hp)
  | pong => exact .inl hp

/-- A room that a document names has no NUL in its name. Kind: L -/
theorem zero_not_mem_of_roomOf {h : Handler} (hroom : Server.roomOf h doc = some room) :
    0 ∉ room := by
  unfold Server.roomOf at hroom
  split at hroom
  · split at hroom
    · split at hroom
      · exact Option.some.inj hroom ▸ zero_not_mem_cstr _
      · cases hroom
    · cases hroom
  · cases hroom

/-- After a message, a room with a member had one before, or has a name without NUL. Kind: L -/
theorem plain_of_message {s : Server} {out : Server × List Send}
    (h : Server.MessageResult ws doc s out) (hp : peer ∈ out.1.rooms.members room) :
    peer ∈ s.rooms.members room ∨ 0 ∉ room := by
  cases h with
  | ignored => exact .inl hp
  | join hjoin _ hresult =>
      cases hresult with
      | refused _ _ hrooms => exact .inl (hrooms room ▸ hp)
      | joined _ _ hrooms =>
          rw [hrooms] at hp
          split at hp
          · rename_i heq
            exact .inr (heq ▸ zero_not_mem_of_roomOf hjoin)
          · exact .inl hp
  | leave _ _ => exact .inl ((Server.mem_members_leave _ _ _).mp hp).1
  | relay _ _ _ _ _ _ hresult =>
      cases hresult with
      | refused _ hrooms => exact .inl (hrooms room ▸ hp)
      | sent _ hrooms => exact .inl (hrooms room ▸ hp)
  | pong => exact .inl hp

/-- Every step keeps the invariant. Kind: L -/
theorem inv_step {e : Event} (h : Invariant w) (hstep : w.step e = some w') : Invariant w' := by
  cases e with
  | opened k id =>
      obtain ⟨⟨hfresh, hnul⟩, rfl⟩ := step_opened.mp hstep
      -- no earlier socket is the new one
      have hids : ∀ (j : Socket) (v : Str), w.ids[j]? = some v → (w.ids.insert k id)[j]? = some v := by
        intro j v hj
        rw [getElem?_insert_ne]
        · exact hj
        · rintro rfl
          rw [hfresh] at hj
          cases hj
      refine ⟨?_, ?_, fun peer j hj => hids j peer (h.identified peer j hj), ?_, h.plain⟩
      · intro j hj
        obtain rfl | hj := (mem_insert_iff _ _ _).mp hj
        · exact ⟨id, getElem?_insert_same _ _ _⟩
        · obtain ⟨v, hv⟩ := h.opened j hj
          exact ⟨v, hids j v hv⟩
      · intro j v hj
        rw [getElem?_insert_eq] at hj
        split at hj
        · exact Option.some.inj hj ▸ hnul
        · exact h.noNul j v hj
      · intro peer room hp
        obtain ⟨j, hj, hopen⟩ := h.present peer room hp
        exact ⟨j, hj, (mem_insert_iff _ _ _).mpr (.inr hopen)⟩
  | message k doc =>
      obtain ⟨ws, out, hws, hout, rfl⟩ := step_message.mp hstep
      obtain ⟨hopen, hid, rfl⟩ := websocket_eq_some.mp hws
      have hresult := Server.onMessage_result hout
      refine ⟨h.opened, h.noNul, ?_, ?_, ?_⟩
      · intro peer j (hj : out.1.clientDB[peer]? = some j)
        obtain heq | ⟨rfl, heq⟩ := clientDB_of_message peer hresult
        · exact h.identified peer j (heq ▸ hj)
        · rw [heq] at hj
          exact Option.some.inj hj ▸ hid
      · intro peer room (hp : peer ∈ out.1.rooms.members room)
        obtain hp | ⟨rfl, heq⟩ := members_of_message hresult hp
        · obtain heq | ⟨rfl, heq⟩ := clientDB_of_message peer hresult
          · obtain ⟨j, hj, hjopen⟩ := h.present peer room hp
            exact ⟨j, heq ▸ hj, hjopen⟩
          · exact ⟨ws.socket, heq, hopen⟩
        · exact ⟨ws.socket, heq, hopen⟩
      · intro peer room (hp : peer ∈ out.1.rooms.members room)
        exact (plain_of_message hresult hp).elim (h.plain peer room) id
  | closed k =>
      obtain ⟨ws, hws, rfl⟩ := step_closed.mp hstep
      obtain ⟨hopen, hid, rfl⟩ := websocket_eq_some.mp hws
      refine ⟨?_, h.noNul, ?_, ?_, ?_⟩
      · exact fun j hj => h.opened j ((mem_erase_iff _ _ _).mp hj).2
      · intro peer j (hj : (Server.onMessageClose ws w.server).1.clientDB[peer]? = some j)
        rw [Server.onMessageClose_clientDB] at hj
        exact h.identified peer j hj
      · intro peer room (hp : peer ∈ (Server.onMessageClose ws w.server).1.rooms.members room)
        obtain ⟨hp, hne⟩ := (Server.mem_members_onMessageClose _).mp hp
        obtain ⟨j, hj, hjopen⟩ := h.present peer room hp
        refine ⟨j, ?_, (mem_erase_iff _ _ _).mpr ⟨?_, hjopen⟩⟩
        · exact (Server.onMessageClose_clientDB _ ws).symm ▸ hj
        · rintro rfl
          -- the closing socket's id is in no room any more
          rw [h.identified peer _ hj] at hid
          exact hne (Option.some.inj hid)
      · intro peer room (hp : peer ∈ (Server.onMessageClose ws w.server).1.rooms.members room)
        exact h.plain peer room ((Server.mem_members_onMessageClose _).mp hp).1

/-- **Every run keeps the invariant**. Kind: P -/
theorem inv_of_run {es : List Event} (h : Runs.run step {} es = some w) : Invariant w :=
  Runs.invariant_of_run step (fun _ _ _ hI hs => inv_step hI hs) inv_init h

end World

end CloudNode
