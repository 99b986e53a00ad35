import CloudNode.Lib.Runs
import CloudNode.Signalling.Server

/-!
# The transport under the signalling server

`MessagePortServer` keeps `clients`, the table of the connections that its `Stop` ends. The open
handler enters a socket under its `x_client_id` where that id has no entry yet; the close handler
erases the entry of its socket. A client that reconnects before its old connection is found dead
has two sockets open under one id, and the second of them is not entered.

* `shutdown` — what `Stop` defers to the loop: stop listening, and end every socket of the table.
* `Invariant` — every entry of the table is an open socket, under the id of that socket.
* `mem_openSockets_shutdown` — the sockets that outlive the shutdown are those without an entry.
* `always_accounted_iff` — every open socket has an entry throughout a run exactly when no socket
  of the run opens with the id of an open one.
-/

namespace CloudNode

/-- The transport's table of connections, with the sockets it is about: the ids of all sockets
that were ever opened, those that are open, and whether the server still listens.
Source: `MessagePortServer.hpp`, `clients` and `m_listenSocket`; `MessagePort.hpp`, `PerSocketData`
Kind: D -/
structure MessagePortServer where
  clients : Std.ExtTreeMap Str Socket := ∅
  ids : Std.ExtTreeMap Socket Str := ∅
  openSockets : Std.ExtTreeSet Socket := ∅
  listening : Bool := true

namespace MessagePortServer

/-! ## The handlers -/

/-- The open handler: the first socket of an id is the one that is tracked.
Source: `MessagePortServer.cpp`, `Start`, `.open`
Kind: D -/
def onOpen (s : MessagePortServer) (k : Socket) (id : Str) : MessagePortServer :=
  { s with
    clients := if s.clients[id]? = none then s.clients.insert id k else s.clients
    ids := s.ids.insert k id
    openSockets := s.openSockets.insert k }

/-- The close handler: the entry goes only if it is this socket.
Source: `MessagePortServer.cpp`, `Start`, `.close`
Kind: D -/
def onClose (s : MessagePortServer) (k : Socket) (id : Str) : MessagePortServer :=
  { s with
    clients := if s.clients[id]? = some k then s.clients.erase id else s.clients
    openSockets := s.openSockets.erase k }

/-- The id of an open socket. Kind: D -/
def clientId (s : MessagePortServer) (k : Socket) : Option Str :=
  if k ∈ s.openSockets then s.ids[k]? else none

/-- `ws->end(..)`: a socket that is still open closes, which calls its close handler. Kind: D -/
def endSocket (s : MessagePortServer) (k : Socket) : MessagePortServer :=
  match s.clientId k with
  | some id => s.onClose k id
  | none => s

/-- What `Stop` defers to the loop: the listening socket is closed, then every socket of a copy of
the table is ended.
Source: `MessagePortServer.cpp`, `Stop`
Kind: D -/
def shutdown (s : MessagePortServer) : MessagePortServer :=
  (s.clients.toList.map Prod.snd).foldl endSocket { s with listening := false }

/-- Nothing is left for the event loop to poll, so that `run()` returns and `Stop` can join its
thread. Kind: D -/
def canFinish (s : MessagePortServer) : Bool :=
  !s.listening && s.openSockets.toList.isEmpty

/-- What can happen on the event loop. Kind: D -/
inductive Event where
  | opened (k : Socket) (id : Str)
  | closed (k : Socket)
  | stop

/-- One turn of the event loop. Kind: D -/
def step (s : MessagePortServer) : Event → Option MessagePortServer
  | .opened k id => if s.listening = true ∧ s.ids[k]? = none then some (s.onOpen k id) else none
  | .closed k => (s.clientId k).map (s.onClose k)
  | .stop => if s.listening = true then some s.shutdown else none

/-- A socket is the value of some entry of the table. Kind: D -/
def HasEntry (s : MessagePortServer) (k : Socket) : Prop :=
  ∃ id : Str, s.clients[id]? = some k

/-- Every open socket has an entry, every entry is an open socket, and the shutdown would leave
the loop nothing to wait for. Kind: D -/
structure Accounted (s : MessagePortServer) : Prop where
  tracked : ∀ k ∈ s.openSockets, s.HasEntry k
  live : ∀ (id : Str) (k : Socket), s.clients[id]? = some k → k ∈ s.openSockets
  finishes : s.shutdown.canFinish = true

/-- A socket that opens does not carry the id of an open one. Kind: D -/
def freshId (s : MessagePortServer) : Event → Bool
  | .opened _ id => s.openSockets.toList.all fun j => s.ids[j]? ≠ some id
  | _ => true

/-! ## What a step does -/

variable {s s' : MessagePortServer} {k j : Socket} {id id' : Str} {e : Event}

/-- The id of an open socket is the one it opened with. Kind: L -/
theorem clientId_eq_some : s.clientId k = some id ↔ k ∈ s.openSockets ∧ s.ids[k]? = some id := by
  unfold clientId
  split
  · rename_i hk
    exact ⟨fun h => ⟨hk, h⟩, fun h => h.2⟩
  · rename_i hk
    exact ⟨fun h => (Option.some_ne_none _ h.symm).elim, fun h => (hk h.1).elim⟩

/-- What one step can be. Kind: L -/
theorem step_cases (h : s.step e = some s') :
    (∃ k id, e = .opened k id ∧ s.listening = true ∧ s.ids[k]? = none ∧ s' = s.onOpen k id) ∨
    (∃ k id, e = .closed k ∧ k ∈ s.openSockets ∧ s.ids[k]? = some id ∧ s' = s.onClose k id) ∨
    (e = .stop ∧ s.listening = true ∧ s' = s.shutdown) := by
  cases e with
  | opened k id =>
      simp only [step] at h
      split at h
      · rename_i hopen
        exact .inl ⟨k, id, rfl, hopen.1, hopen.2, (Option.some.inj h).symm⟩
      · exact (Option.some_ne_none _ h.symm).elim
  | closed k =>
      obtain ⟨id, hid, rfl⟩ := Option.map_eq_some_iff.mp h
      obtain ⟨hk, hids⟩ := clientId_eq_some.mp hid
      exact .inr (.inl ⟨k, id, rfl, hk, hids, rfl⟩)
  | stop =>
      simp only [step] at h
      split at h
      · rename_i hlisten
        exact .inr (.inr ⟨rfl, hlisten, (Option.some.inj h).symm⟩)
      · exact (Option.some_ne_none _ h.symm).elim

/-! ## The table names open sockets by their own ids -/

/-- Every open socket has an id, and every entry is an open socket under its own id. Kind: D -/
structure Invariant (s : MessagePortServer) : Prop where
  known : ∀ k ∈ s.openSockets, ∃ id, s.ids[k]? = some id
  owned : ∀ (id : Str) (k : Socket), s.clients[id]? = some k →
    k ∈ s.openSockets ∧ s.ids[k]? = some id

/-- The invariant is not about listening. Kind: L -/
theorem Invariant.listen (h : s.Invariant) (b : Bool) : { s with listening := b }.Invariant :=
  ⟨h.known, h.owned⟩

/-- A new socket is not open yet. Kind: L -/
theorem Invariant.not_mem_of_new (h : s.Invariant) (hnew : s.ids[k]? = none) :
    k ∉ s.openSockets := by
  intro hk
  obtain ⟨id, hid⟩ := h.known k hk
  rw [hnew] at hid
  exact Option.some_ne_none _ hid.symm

/-- An entry after the open handler: the new socket's, or one from before. Kind: L -/
theorem getElem?_clients_onOpen (h : (s.onOpen k id).clients[id']? = some j) :
    (id' = id ∧ j = k ∧ s.clients[id]? = none) ∨ s.clients[id']? = some j := by
  simp only [onOpen] at h
  split at h
  · rename_i hnone
    rw [getElem?_insert_eq] at h
    split at h
    · rename_i hid
      exact .inl ⟨hid.symm, (Option.some.inj h).symm, hnone⟩
    · exact .inr h
  · exact .inr h

/-- An entry survives the close handler exactly when it is not the closed socket under its id.
Kind: L -/
theorem getElem?_clients_onClose : (s.onClose k id).clients[id']? = some j ↔
    s.clients[id']? = some j ∧ ¬ (id' = id ∧ j = k) := by
  simp only [onClose]
  split
  · rename_i hentry
    rw [getElem?_erase_eq]
    split
    · rename_i hid
      subst hid
      rw [hentry]
      simp only [reduceCtorEq, Option.some.injEq, true_and, false_iff, not_and, not_not]
      exact fun h => h.symm
    · rename_i hid
      simp only [Ne.symm hid, false_and, not_false_eq_true, and_true]
  · rename_i hentry
    refine ⟨fun h => ⟨h, ?_⟩, fun h => h.1⟩
    rintro ⟨rfl, rfl⟩
    exact hentry h

/-- Opening a socket keeps the invariant. Kind: L -/
theorem Invariant.onOpen (h : s.Invariant) (hnew : s.ids[k]? = none) :
    (s.onOpen k id).Invariant := by
  refine ⟨fun j hj => ?_, fun id' j hentry => ?_⟩
  · show ∃ id', (s.ids.insert k id)[j]? = some id'
    rw [getElem?_insert_eq]
    split
    · exact ⟨id, rfl⟩
    · rename_i hne
      rcases (mem_insert_iff _ _ _).mp hj with heq | hj
      · exact (hne heq).elim
      · exact h.known j hj
  · show j ∈ s.openSockets.insert k ∧ (s.ids.insert k id)[j]? = some id'
    rw [mem_insert_iff, getElem?_insert_eq]
    rcases getElem?_clients_onOpen hentry with ⟨rfl, rfl, -⟩ | hold
    · exact ⟨.inl rfl, if_pos rfl⟩
    · obtain ⟨hopen, hid⟩ := h.owned id' j hold
      have hne : k ≠ j := by
        rintro rfl
        exact h.not_mem_of_new hnew hopen
      exact ⟨.inr hopen, by rw [if_neg hne, hid]⟩

/-- Closing a socket keeps the invariant. Kind: L -/
theorem Invariant.onClose (h : s.Invariant) (hid : s.ids[k]? = some id) :
    (s.onClose k id).Invariant := by
  refine ⟨fun j hj => h.known j ((mem_erase_iff _ _ _).mp hj).2, fun id' j hentry => ?_⟩
  show j ∈ s.openSockets.erase k ∧ s.ids[j]? = some id'
  obtain ⟨hold, hother⟩ := getElem?_clients_onClose.mp hentry
  obtain ⟨hopen, hid'⟩ := h.owned id' j hold
  refine ⟨(mem_erase_iff _ _ _).mpr ⟨?_, hopen⟩, hid'⟩
  rintro rfl
  rw [hid] at hid'
  exact hother ⟨(Option.some.inj hid').symm, rfl⟩

/-- Ending a socket keeps the invariant. Kind: L -/
theorem Invariant.endSocket (h : s.Invariant) : (s.endSocket k).Invariant := by
  unfold MessagePortServer.endSocket
  split
  · rename_i id hid
    exact h.onClose (clientId_eq_some.mp hid).2
  · exact h

/-- Ending sockets one after the other keeps the invariant. Kind: L -/
theorem Invariant.foldl_endSocket (h : s.Invariant) (ks : List Socket) :
    (ks.foldl MessagePortServer.endSocket s).Invariant := by
  induction ks generalizing s with
  | nil => exact h
  | cons k ks ih => exact ih h.endSocket

/-- **The table of connections is accurate in every run**: what one step keeps. Kind: P -/
theorem inv_step (h : s.Invariant) (hstep : s.step e = some s') : s'.Invariant := by
  rcases step_cases hstep with ⟨k, id, -, -, hnew, rfl⟩ | ⟨k, id, -, -, hid, rfl⟩ | ⟨-, -, rfl⟩
  · exact h.onOpen hnew
  · exact h.onClose hid
  · exact (h.listen false).foldl_endSocket _

/-- The table is empty before the first socket opens. Kind: L -/
theorem inv_init : ({} : MessagePortServer).Invariant := by
  refine ⟨fun k hk => ?_, fun id k hentry => ?_⟩
  · exact (Std.ExtTreeSet.not_mem_empty hk).elim
  · exact (Option.some_ne_none k (hentry.symm.trans Std.ExtTreeMap.getElem?_empty)).elim

/-! ## What the shutdown ends -/

/-- Ending a socket closes that one and no other. Kind: L -/
theorem mem_openSockets_endSocket (h : s.Invariant) :
    j ∈ (s.endSocket k).openSockets ↔ j ≠ k ∧ j ∈ s.openSockets := by
  unfold endSocket
  split
  · show j ∈ s.openSockets.erase k ↔ _
    rw [mem_erase_iff, ne_comm]
  · rename_i hnone
    refine ⟨fun hj => ⟨?_, hj⟩, fun hj => hj.2⟩
    rintro rfl
    obtain ⟨id, hid⟩ := h.known j hj
    rw [clientId_eq_some.mpr ⟨hj, hid⟩] at hnone
    exact Option.some_ne_none _ hnone

/-- Ending a list of sockets closes those and no others. Kind: L -/
theorem mem_openSockets_foldl_endSocket (h : s.Invariant) (ks : List Socket) :
    j ∈ (ks.foldl endSocket s).openSockets ↔ j ∉ ks ∧ j ∈ s.openSockets := by
  induction ks generalizing s with
  | nil => simp only [List.foldl_nil, List.not_mem_nil, not_false_eq_true, true_and]
  | cons k ks ih =>
      rw [List.foldl_cons, ih h.endSocket, mem_openSockets_endSocket h, List.mem_cons, not_or,
        ← and_assoc, and_comm (a := j ∉ ks)]

/-- Ending sockets does not start listening. Kind: L -/
theorem listening_foldl_endSocket (ks : List Socket) :
    (ks.foldl endSocket s).listening = s.listening := by
  induction ks generalizing s with
  | nil => rfl
  | cons k ks ih =>
      rw [List.foldl_cons, ih]
      unfold endSocket
      split <;> rfl

/-- The sockets that are ended are the values of the table. Kind: L -/
theorem mem_values_iff : k ∈ s.clients.toList.map Prod.snd ↔ s.HasEntry k := by
  simp only [List.mem_map, Prod.exists, exists_eq_right, HasEntry]
  exact exists_congr fun id => Std.ExtTreeMap.mem_toList_iff_getElem?_eq_some

/-- **The sockets that outlive the shutdown are the open ones without an entry.** Kind: P -/
theorem mem_openSockets_shutdown (h : s.Invariant) :
    k ∈ s.shutdown.openSockets ↔ ¬ s.HasEntry k ∧ k ∈ s.openSockets := by
  unfold shutdown
  rw [mem_openSockets_foldl_endSocket (h.listen false), mem_values_iff]

/-- The loop can finish after the shutdown exactly when every open socket has an entry. Kind: L -/
theorem canFinish_shutdown_iff (h : s.Invariant) : s.shutdown.canFinish = true ↔
    ∀ k ∈ s.openSockets, s.HasEntry k := by
  have hlisten : s.shutdown.listening = false := listening_foldl_endSocket _
  simp only [canFinish, hlisten, Bool.not_false, Bool.true_and, List.isEmpty_iff,
    List.eq_nil_iff_forall_not_mem, Std.ExtTreeSet.mem_toList, mem_openSockets_shutdown h,
    not_and]
  constructor
  · intro hall k hk
    by_contra hno
    exact hall k hno hk
  · intro hall k hno hk
    exact hno (hall k hk)

/-- Given the invariant, being accounted for is having every open socket in the table. Kind: L -/
theorem accounted_iff (h : s.Invariant) :
    s.Accounted ↔ ∀ k ∈ s.openSockets, s.HasEntry k :=
  ⟨fun ha => ha.tracked, fun ha =>
    ⟨ha, fun id k hentry => (h.owned id k hentry).1, (canFinish_shutdown_iff h).mpr ha⟩⟩

/-! ## When every open socket is tracked -/

/-- Whether a new socket's id is taken by an open socket. Kind: L -/
theorem freshId_opened : s.freshId (.opened k id) = true ↔
    ∀ j ∈ s.openSockets, s.ids[j]? ≠ some id := by
  simp only [freshId, ne_eq, decide_not, List.all_eq_true, Std.ExtTreeSet.mem_toList,
    Bool.not_eq_eq_eq_not, Bool.not_true, decide_eq_false_iff_not]

/-- A step whose new socket brings a new id leaves every open socket in the table. Kind: L -/
theorem accounted_step (h : s.Invariant) (ha : s.Accounted) (hfresh : s.freshId e = true)
    (hstep : s.step e = some s') : s'.Accounted := by
  rw [accounted_iff (inv_step h hstep)]
  rcases step_cases hstep with ⟨k, id, rfl, -, hnew, rfl⟩ | ⟨k, id, rfl, -, hid, rfl⟩ | ⟨-, -, rfl⟩
  · have hnone : s.clients[id]? = none := by
      rw [Option.eq_none_iff_forall_ne_some]
      intro j hentry
      obtain ⟨hopen, hid⟩ := h.owned id j hentry
      exact freshId_opened.mp hfresh j hopen hid
    have hclients : (s.onOpen k id).clients = s.clients.insert id k := if_pos hnone
    intro j hj
    rcases (mem_insert_iff _ _ _).mp hj with rfl | hj
    · exact ⟨id, by rw [hclients, getElem?_insert_same]⟩
    · obtain ⟨id', hentry⟩ := ha.tracked j hj
      have hne : id ≠ id' := by
        rintro rfl
        rw [hnone] at hentry
        exact Option.some_ne_none _ hentry.symm
      exact ⟨id', by rw [hclients, getElem?_insert_ne _ _ hne, hentry]⟩
  · intro j hj
    obtain ⟨hne, hopen⟩ := (mem_erase_iff _ _ _).mp hj
    obtain ⟨id', hentry⟩ := ha.tracked j hopen
    exact ⟨id', getElem?_clients_onClose.mpr ⟨hentry, fun hsame => hne hsame.2.symm⟩⟩
  · intro j hj
    obtain ⟨hno, hopen⟩ := (mem_openSockets_shutdown h).mp hj
    exact (hno (ha.tracked j hopen)).elim

/-- A socket that opens under the id of an open one is not in the table. Kind: L -/
theorem not_accounted_step (h : s.Invariant) (ha : s.Accounted) (hfresh : ¬ s.freshId e = true)
    (hstep : s.step e = some s') : ¬ s'.Accounted := by
  rcases step_cases hstep with ⟨k, id, rfl, -, hnew, rfl⟩ | ⟨k, id, rfl, -, -, rfl⟩ | ⟨rfl, -, rfl⟩
  · rw [freshId_opened] at hfresh
    push Not at hfresh
    obtain ⟨j, hj, hid⟩ := hfresh
    intro ha'
    obtain ⟨id', hentry⟩ := ha'.tracked k ((mem_insert_iff _ _ _).mpr (.inl rfl))
    rcases getElem?_clients_onOpen hentry with ⟨-, -, hnone⟩ | hold
    · -- The open socket with this id has its entry under this id.
      obtain ⟨id'', hentry''⟩ := ha.tracked j hj
      have hsame := (h.owned id'' j hentry'').2
      rw [hid, Option.some.injEq] at hsame
      rw [← hsame, hnone] at hentry''
      exact Option.some_ne_none _ hentry''.symm
    · exact h.not_mem_of_new hnew (ha.live id' k hold)
  · exact (hfresh rfl).elim
  · exact (hfresh rfl).elim

/-- Nothing is open at first. Kind: L -/
theorem accounted_init : ({} : MessagePortServer).Accounted :=
  (accounted_iff inv_init).mpr fun _ hk => (Std.ExtTreeSet.not_mem_empty hk).elim

/-- **When every open socket is tracked**: every open socket has an entry, every entry is an open
socket and the shutdown lets the loop finish, in every state of a run, exactly when no socket of
the run opens with the id of a socket that is open then. Kind: P -/
theorem always_accounted_iff (es : List Event) :
    Runs.Always step Accounted {} es ↔ Runs.Meets step (fun s e => s.freshId e = true) {} es :=
  Runs.always_iff_meets step (I := Invariant) (fun _ _ _ => inv_step) (fun _ _ _ => accounted_step)
    (fun _ _ _ => not_accounted_step) inv_init accounted_init

/-- A client reconnects before its old socket is closed, and the server is stopped: the new socket
is never ended. Kind: P -/
theorem reconnected_socket_outlives_shutdown :
    ¬ Runs.Always step Accounted {} [.opened 1 (str "a"), .opened 2 (str "a")] := by
  intro h
  have hend : (Runs.run step {} [.opened 1 (str "a"), .opened 2 (str "a")]).any
      (fun t => !t.shutdown.canFinish) = true := by decide +kernel
  obtain ⟨t, htest, ha⟩ := h.at_end step hend
  rw [ha.finishes] at htest
  exact Bool.false_ne_true htest

end MessagePortServer

end CloudNode
