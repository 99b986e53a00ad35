import CloudNode.Signalling.Roster

/-!
# Sockets and memberships

The server's two tables against its sockets, while no two open sockets share a client id: who is
in a room is registered with its one open socket, and a close takes exactly the closing client out
and tells exactly those who stay. `OnMessageClose` leaves one room after the other while it walks
over `m_rooms`; each `Leave` changes the entry of its own room only.

* `leaveRooms_sends` — what leaving several rooms sends, in terms of the rosters at the end.
* `Backed`, `Cleaned` — the property of a state, and of the step that closes a socket.
* `backed_and_cleaned` — both, for every run.
-/

namespace CloudNode

namespace Server

/-! ## What leaving several rooms sends -/

variable {s : Server} {peer : Str}

/-- Leaving other rooms does not change a room. Kind: L -/
theorem members_leaveRooms_of_not_mem {rooms : List Str} {r : Str} (h : r ∉ rooms) :
    (leaveRooms peer rooms s).1.rooms.members r = s.rooms.members r := by
  apply Std.ExtTreeSet.ext_mem
  intro q
  rw [mem_members_leaveRooms]
  exact ⟨fun hq => hq.1, fun hq => ⟨hq, fun hc => h hc.1⟩⟩

/-- The notifications of leaving several rooms: for each room its roster at the end, to everyone
on it. Kind: L -/
theorem leaveRooms_sends {rooms : List Str} (hnodup : rooms.Nodup) :
    (leaveRooms peer rooms s).2 = rooms.flatMap fun r =>
      ((leaveRooms peer rooms s).1.rooms.members r).toList.flatMap fun u =>
        s.sendLeaveNotification u peer r ((leaveRooms peer rooms s).1.rooms.members r) := by
  induction rooms generalizing s with
  | nil => rfl
  | cons r rooms ih =>
      obtain ⟨hr, hnodup⟩ := List.nodup_cons.mp hnodup
      have hsame : (leaveRooms peer (r :: rooms) s).1.rooms.members r =
          (s.leave peer r).1.rooms.members r :=
        members_leaveRooms_of_not_mem (s := (s.leave peer r).1) hr
      rw [List.flatMap_cons, hsame]
      show (s.leave peer r).2 ++ (leaveRooms peer rooms (s.leave peer r).1).2 = _
      rw [leave_sends, ih hnodup]
      rfl

/-- The rooms that a client is in, in the order of their names. Kind: D -/
def roomsOf (s : Server) (peer : Str) : List Str :=
  (s.rooms.toList.filter fun e => peer ∈ e.2).map Prod.fst

/-- A client is in the rooms that have it as a member. Kind: L -/
theorem mem_roomsOf {r : Str} : r ∈ s.roomsOf peer ↔ peer ∈ s.rooms.members r := by
  unfold roomsOf
  rw [List.mem_map]
  constructor
  · rintro ⟨⟨r', peers⟩, he, rfl⟩
    rw [List.mem_filter, Std.ExtTreeMap.mem_toList_iff_getElem?_eq_some] at he
    obtain ⟨hentry, hmem⟩ := he
    simpa [Rooms.members, hentry] using hmem
  · intro hmem
    refine ⟨(r, s.rooms.members r), ?_, rfl⟩
    rw [List.mem_filter, Std.ExtTreeMap.mem_toList_iff_getElem?_eq_some]
    exact ⟨Rooms.getElem?_of_mem_members hmem, decide_eq_true hmem⟩

/-- No room is listed twice. Kind: L -/
theorem nodup_roomsOf : (s.roomsOf peer).Nodup := by
  unfold roomsOf
  apply List.Nodup.sublist (List.filter_sublist.map Prod.fst)
  rw [Std.ExtTreeMap.map_fst_toList_eq_keys]
  exact Std.ExtTreeMap.nodup_keys

/-- Whom a close tells, and about which room: every remaining member of every room that the
closing client was in. Kind: D -/
def told (s : Server) (peer : Str) (after : Rooms) : List (Str × Str) :=
  (s.roomsOf peer).flatMap fun r => (after.members r).toList.map fun u => (r, u)

/-- Who is told about which room. Kind: L -/
theorem mem_told {after : Rooms} {r u : Str} :
    (r, u) ∈ s.told peer after ↔ peer ∈ s.rooms.members r ∧ u ∈ after.members r := by
  simp only [told, List.mem_flatMap, List.mem_map, Prod.mk.injEq, mem_roomsOf,
    Std.ExtTreeSet.mem_toList]
  constructor
  · rintro ⟨r', hr', u', hu', rfl, rfl⟩
    exact ⟨hr', hu'⟩
  · rintro ⟨hr, hu⟩
    exact ⟨r, hr, u, hu, rfl, rfl⟩

/-- Nobody is told twice about a room. Kind: L -/
theorem nodup_told (after : Rooms) : (s.told peer after).Nodup := by
  refine List.nodup_flatMap.mpr ⟨fun r _ => ?_, ?_⟩
  · refine List.Nodup.map (fun u v h => (Prod.mk.inj h).2) ?_
    exact Std.ExtTreeSet.distinct_toList.imp fun hne => Std.ReflCmp.ne_of_cmp_ne_eq hne
  · refine nodup_roomsOf.imp fun hne => ?_
    rintro ⟨r, u⟩ h h'
    obtain ⟨_, -, heq⟩ := List.mem_map.mp h
    obtain ⟨_, -, heq'⟩ := List.mem_map.mp h'
    exact hne ((Prod.mk.inj heq).1.trans (Prod.mk.inj heq').1.symm)

/-- What a close sends: one message for everyone to be told, where all of them are registered.
Kind: L -/
theorem onMessageClose_sends (ws : Ws) (hdb : ∀ r u, u ∈ s.rooms.members r → ∃ k, s.clientDB[u]? = some k) :
    (onMessageClose ws s).2 =
      (s.told ws.clientId (onMessageClose ws s).1.rooms).map fun q =>
        ⟨(s.clientDB[q.2]?).getD 0, q.2, .document (rosterDocument (str "peer_left") ws.clientId q.1
          ((onMessageClose ws s).1.rooms.members q.1))⟩ := by
  have hclose : onMessageClose ws s = leaveRooms ws.clientId (s.roomsOf ws.clientId) s :=
    onMessageClose_eq s ws
  rw [hclose, leaveRooms_sends nodup_roomsOf, told, List.map_flatMap]
  refine List.flatMap_congr fun r _ => ?_
  rw [List.map_map, ← List.flatMap_singleton' (l := List.map _ _), List.flatMap_map]
  refine List.flatMap_congr fun u hu => ?_
  rw [Std.ExtTreeSet.mem_toList, mem_members_leaveRooms] at hu
  obtain ⟨k, hk⟩ := hdb r u hu.1
  simp only [sendLeaveNotification, sendNotification, hk, Function.comp_apply, Option.getD_some]

end Server

namespace World

open Server
open Network (Distinct distinct_step zero_not_mem_of_member)

/-! ## The property -/

/-- The notification that a peer left a room, whose members are now these.
Source: `WebRTCServer.cpp`, `SendLeaveNotification`, on names without NUL
Kind: D -/
def peerLeft (peer room : Str) (roster : Peers) : Json :=
  .obj [(str "type", .str (str "peer_left")), (str "peerId", .str peer), (str "room", .str room),
    (str "peers", .arr (roster.toList.map Json.str))]

/-- Everyone in a room is registered with a socket, and that is their one open socket. Kind: D -/
def Backed (w : World) : Prop :=
  ∀ peer room : Str, peer ∈ w.server.rooms.members room → ∃ k, w.server.clientDB[peer]? = some k ∧
    ∀ j : Socket, (j ∈ w.openSockets ∧ w.ids[j]? = some peer) ↔ j = k

/-- A record says that a member of a room was told, on an open socket of its own, that a peer left
the room, with the room's roster. Kind: D -/
structure Notice (w : World) (peer : Str) (told : Str × Str) (r : Record) : Prop where
  message : r.send.message = .document (peerLeft peer told.1 (w.server.rooms.members told.1))
  registered : w.server.clientDB[told.2]? = some r.send.target
  isOpen : r.isOpen = true
  clientId : r.clientId = some told.2

/-- What a close leaves: the client is in no room, every other membership is as before, and what
was sent is one notice for each remaining member of each room the client was in. Kind: D -/
structure Cleaned (w : World) (peer : Str) (w' : World) : Prop where
  gone : ∀ room : Str, peer ∉ w'.server.rooms.members room
  kept : ∀ room q : Str, q ≠ peer →
    (q ∈ w'.server.rooms.members room ↔ q ∈ w.server.rooms.members room)
  told : ∃ (pairs : List (Str × Str)) (notices : List Record), w'.sent = w.sent ++ notices ∧
    pairs.Nodup ∧ List.Forall₂ (Notice w' peer) pairs notices ∧
    ∀ room u : Str, (room, u) ∈ pairs ↔
      peer ∈ w.server.rooms.members room ∧ u ∈ w'.server.rooms.members room

/-! ## Every run has it -/

variable {w w' : World} {k : Socket} {peer room : Str} {e : Event}

/-- What a run with distinct ids keeps. Kind: L -/
theorem inv_distinct_step (h : w.Invariant ∧ Distinct w) (hstep : w.stepDistinct e = some w') :
    w'.Invariant ∧ Distinct w' := by
  obtain ⟨hdistinct, hstep⟩ := step_of_stepDistinct hstep
  exact ⟨inv_step h.1 hstep, distinct_step h.2 hdistinct hstep⟩

/-- Every run with distinct ids keeps the invariant. Kind: L -/
theorem inv_distinct_of_run {es : List Event} (hrun : Runs.run stepDistinct {} es = some w) :
    w.Invariant ∧ Distinct w := by
  refine Runs.invariant_of_run stepDistinct (fun _ _ _ => inv_distinct_step) ⟨inv_init, ?_⟩ hrun
  intro j k id hj
  exact (Std.ExtTreeSet.not_mem_empty hj).elim

/-- Given the invariant, members are backed by their sockets. Kind: L -/
theorem backed_of_inv (hI : w.Invariant) (hD : Distinct w) : w.Backed := by
  intro peer room hmem
  obtain ⟨k, hk, hopen⟩ := hI.present peer room hmem
  have hid := hI.identified peer k hk
  refine ⟨k, hk, fun j => ⟨fun hj => hD j k peer hj.1 hopen hj.2 hid, ?_⟩⟩
  rintro rfl
  exact ⟨hopen, hid⟩

/-- With names that have no NUL a leave notification shows them whole. Kind: L -/
theorem rosterDocument_eq_peerLeft {roster : Peers} (hpeer : 0 ∉ peer) (hroom : 0 ∉ room)
    (hroster : ∀ u ∈ roster, 0 ∉ u) :
    rosterDocument (str "peer_left") peer room roster = peerLeft peer room roster := by
  unfold rosterDocument peerLeft
  rw [cstr_of_zero_not_mem hpeer, cstr_of_zero_not_mem hroom]
  congr 7
  refine List.map_congr_left fun u hu => ?_
  rw [cstr_of_zero_not_mem (hroster u (Std.ExtTreeSet.mem_toList.mp hu))]

/-- A close cleans up, given the invariant. Kind: L -/
theorem cleaned_of_closed (h : w.Invariant ∧ Distinct w)
    (hstep : w.stepDistinct (.closed k) = some w') (hid : w.ids[k]? = some peer) :
    w.Cleaned peer w' := by
  obtain ⟨hI', hD'⟩ := inv_distinct_step h hstep
  obtain ⟨-, hstep⟩ := step_of_stepDistinct hstep
  obtain ⟨ws, hws, rfl⟩ := step_closed.mp hstep
  obtain ⟨-, hid', rfl⟩ := websocket_eq_some.mp hws
  obtain rfl : peer = ws.clientId := Option.some.inj (hid.symm.trans hid')
  refine ⟨fun r hr => ?_, fun r q hq => ?_, ?_⟩
  · exact ((mem_members_onMessageClose _).mp hr).2 rfl
  · show q ∈ (onMessageClose ws w.server).1.rooms.members r ↔ _
    rw [mem_members_onMessageClose]
    exact and_iff_left hq
  · have hdb : ∀ r u : Str, u ∈ w.server.rooms.members r → ∃ k, w.server.clientDB[u]? = some k := by
      intro r u hu
      obtain ⟨k, hk, -⟩ := h.1.present u r hu
      exact ⟨k, hk⟩
    refine ⟨_, _, rfl, nodup_told _, ?_, fun r u => mem_told⟩
    rw [onMessageClose_sends ws hdb, List.map_map, List.forall₂_map_right_iff]
    refine List.forall₂_same.mpr ?_
    rintro ⟨r, u⟩ hpair
    obtain ⟨hleft, hstays⟩ := mem_told.mp hpair
    -- Who stays is registered, now as before, with its open socket.
    obtain ⟨j, hj, hopen⟩ := hI'.present u r hstays
    have hjid := hI'.identified u j hj
    have hj' : w.server.clientDB[u]? = some j := onMessageClose_clientDB w.server ws ▸ hj
    have hroster : ∀ v ∈ (onMessageClose ws w.server).1.rooms.members r, 0 ∉ v := fun v hv =>
      zero_not_mem_of_member hI' hv
    refine ⟨?_, ?_, ?_, ?_⟩
    · show Message.document _ = Message.document _
      rw [rosterDocument_eq_peerLeft (h.1.noNul _ _ hid) (h.1.plain _ _ hleft) hroster]
      rfl
    · show (onMessageClose ws w.server).1.clientDB[u]? = some ((w.server.clientDB[u]?).getD 0)
      rw [hj', Option.getD_some]
      exact hj
    · show decide ((w.server.clientDB[u]?).getD 0 ∈ w.openSockets.erase ws.socket) = true
      rw [hj', Option.getD_some]
      exact decide_eq_true hopen
    · show w.ids[(w.server.clientDB[u]?).getD 0]? = some u
      rw [hj', Option.getD_some]
      exact hjid

/-- **Membership is backed by live sockets, and a disconnect cleans up exactly**: after every run in
which no two open sockets share an id, whoever is in a room is registered with its one open socket;
and when a socket closes, its client is in no room any more, every other membership is unchanged,
and what is sent is one `peer_left` with the new roster for each remaining member of each room the
client was in. Kind: P -/
theorem backed_and_cleaned {es : List Event} (hrun : Runs.run stepDistinct {} es = some w) :
    w.Backed ∧ ∀ (k : Socket) (peer : Str) (w' : World), w.ids[k]? = some peer →
      w.stepDistinct (.closed k) = some w' → w.Cleaned peer w' :=
  have h := inv_distinct_of_run hrun
  ⟨backed_of_inv h.1 h.2, fun _ _ _ hid hstep => cleaned_of_closed h hstep hid⟩

/-- Two clients join a room and one of them closes. Kind: P -/
theorem cleaned_after_joins : ∃ w w' : World,
    Runs.run stepDistinct {} [.opened 1 (str "a"), .opened 2 (str "b"), .message 1 (.obj
      [(str "type", .str (str "join")), (str "room", .str (str "r"))]), .message 2 (.obj
      [(str "type", .str (str "join")), (str "room", .str (str "r"))])] = some w ∧
    w.stepDistinct (.closed 1) = some w' ∧ w.Backed ∧ w.Cleaned (str "a") w' := by
  have htest : (Runs.run stepDistinct {} [.opened 1 (str "a"), .opened 2 (str "b"), .message 1 (.obj
      [(str "type", .str (str "join")), (str "room", .str (str "r"))]), .message 2 (.obj
      [(str "type", .str (str "join")), (str "room", .str (str "r"))])]).any (fun w =>
        w.ids[1]? = some (str "a") ∧ (w.stepDistinct (.closed 1)).isSome) = true := by
    decide +kernel
  obtain ⟨w, hrun, hw⟩ := (Option.any_eq_true _ _).mp htest
  obtain ⟨hid, hclose⟩ := of_decide_eq_true hw
  obtain ⟨w', hw'⟩ := Option.isSome_iff_exists.mp hclose
  obtain ⟨hbacked, hcleaned⟩ := backed_and_cleaned hrun
  exact ⟨w, w', hrun, hw', hbacked, hcleaned 1 (str "a") w' hid hw'⟩

end World

end CloudNode
