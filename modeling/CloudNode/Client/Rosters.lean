import CloudNode.Signalling.Handlers

/-!
# A client's copy of the rosters

A client's room table is what the server's `peer_joined` and `peer_left` notifications made it:
each carries the room's whole roster, which replaces the client's. No other message touches it.

* `absorb_roster` — a roster notification makes its room's entry the roster it carries.
* `absorb_relayed` — a relayed document changes nothing.
* `onJoin_cases`, `onLeave_cases` — everything a notification can do, well-formed or not.
-/

namespace CloudNode

namespace Client

open Json

/-- The loop over a notification's `peers`: the set of its strings, `none` at the first element
that is not one. Source: `WebRTCClient.cpp`, `OnJoin` and `OnLeave`. Kind: D -/
def peersOf : List Json → Peers → Option Peers
  | [], peers => some peers
  | .str peer :: rest, peers => peersOf rest (peers.insert (cstr peer))
  | _ :: _, _ => none

/-- The rosters after a `peer_joined`, and the room and peer that `OnJoin` goes on with.
Source: `WebRTCClient.cpp`, `OnJoin` up to the state update
Kind: D -/
def onJoin (doc : Json) (rooms : Rooms) : Except Fault (Rooms × Option (Str × Str)) := do
  if !(← doc.hasSuch (str "room") isString) then
    return (rooms, none)
  if !(← doc.hasSuch (str "peerId") isString) then
    return (rooms, none)
  if !(← doc.hasSuch (str "peers") isArray) then
    return (rooms, none)
  let room ← doc.stringAt (str "room")
  let peer ← doc.stringAt (str "peerId")
  match peersOf (← (← doc.member (str "peers")).getArray) ∅ with
  | none => return (rooms, none)
  | some peers => return (WebRTC.updatePeers rooms room peers, some (room, peer))

/-- The rosters after a `peer_left`. Nothing looks whether `peers` is there.
Source: `WebRTCClient.cpp`, `OnLeave`
Kind: D -/
def onLeave (doc : Json) (rooms : Rooms) : Except Fault Rooms := do
  if !(← doc.hasSuch (str "room") isString) then
    return rooms
  if !(← doc.hasSuch (str "peerId") isString) then
    return rooms
  let room ← doc.stringAt (str "room")
  let peer ← doc.stringAt (str "peerId")
  let rooms := (WebRTC.leave rooms peer room).2
  match peersOf (← (← doc.member (str "peers")).getArray) ∅ with
  | none => return rooms
  | some peers => return WebRTC.updatePeers rooms room peers

/-- The rosters after a message. The client's other handlers do not touch them, and the `pong`
text is at most a document whose first `type` is `pong`.
Source: `WebRTC.hpp`, `MessageRouter`
Kind: D -/
def absorb (rooms : Rooms) : Message → Except Fault Rooms
  | .pong _ => return rooms
  | .document doc => do
    match ← messageRouter doc with
    | some .onJoin => return (← onJoin doc rooms).1
    | some .onLeave => onLeave doc rooms
    | _ => return rooms

/-- The rosters after some messages. Kind: D -/
def absorbAll : Rooms → List Message → Except Fault Rooms
  | rooms, [] => .ok rooms
  | rooms, m :: ms => do absorbAll (← absorb rooms m) ms

/-! ## Reading a notification -/

/-- The members of a set built by insertion. Kind: L -/
theorem mem_peersOf {peers acc : Peers} {names : List Str}
    (h : peersOf (names.map fun peer => .str (cstr peer)) acc = some peers) (q : Str) :
    q ∈ peers ↔ q ∈ acc ∨ q ∈ names.map cstr := by
  induction names generalizing acc with
  | nil =>
      cases h
      simp
  | cons name names ih =>
      rw [List.map_cons, peersOf] at h
      rw [ih h, mem_insert_iff, cstr_cstr, List.map_cons, List.mem_cons, eq_comm (a := q)]
      tauto

/-- A list of strings is a roster. Kind: L -/
theorem exists_peersOf (names : List Str) (acc : Peers) :
    ∃ peers, peersOf (names.map fun peer => .str (cstr peer)) acc = some peers := by
  induction names generalizing acc with
  | nil => exact ⟨acc, rfl⟩
  | cons name names ih => exact ih _

/-- A roster of names without NUL is read as it was written. Kind: L -/
theorem peersOf_toList {peers : Peers} (hnul : ∀ peer ∈ peers, 0 ∉ peer) :
    peersOf (peers.toList.map fun peer => .str (cstr peer)) ∅ = some peers := by
  obtain ⟨read, hread⟩ := exists_peersOf peers.toList ∅
  rw [hread, Option.some.injEq]
  apply Std.ExtTreeSet.ext_mem
  intro q
  rw [mem_peersOf hread, List.mem_map]
  constructor
  · rintro (hq | ⟨peer, hpeer, rfl⟩)
    · simp at hq
    · rw [Std.ExtTreeSet.mem_toList] at hpeer
      rwa [cstr_of_zero_not_mem (hnul peer hpeer)]
  · intro hq
    exact .inr ⟨q, Std.ExtTreeSet.mem_toList.mpr hq, cstr_of_zero_not_mem (hnul q hq)⟩

/-- Leaving a room touches no other room's entry. Kind: L -/
theorem getElem?_leave_ne {rooms : Rooms} {peer room r : Str} (h : room ≠ r) :
    (WebRTC.leave rooms peer room).2[r]? = rooms[r]? := by
  unfold WebRTC.leave
  cases hroom : rooms[room]? with
  | none => rfl
  | some peers =>
      simp only
      split
      · exact getElem?_insert_ne _ _ h
      · rfl

section notification

variable (type whose room : Str) (peers : Peers)

/-- The members of a roster notification. Kind: D -/
def rosterMembers : List (Str × Json) :=
  [(str "type", .str type), (str "peerId", .str (cstr whose)), (str "room", .str (cstr room)),
    (str "peers", .arr (peers.toList.map fun peer => .str (cstr peer)))]

/-- Reading a notification's type. Kind: L -/
theorem find?_roster_type : find? (rosterMembers type whose room peers) (str "type") =
    some (.str type) := rfl

/-- Reading a notification's peer. Kind: L -/
theorem find?_roster_peerId : find? (rosterMembers type whose room peers) (str "peerId") =
    some (.str (cstr whose)) := rfl

/-- Reading a notification's room. Kind: L -/
theorem find?_roster_room : find? (rosterMembers type whose room peers) (str "room") =
    some (.str (cstr room)) := rfl

/-- Reading a notification's roster. Kind: L -/
theorem find?_roster_peers : find? (rosterMembers type whose room peers) (str "peers") =
    some (.arr (peers.toList.map fun peer => .str (cstr peer))) := rfl

end notification

variable {type whose room : Str} {peers : Peers}

/-- A well-formed `peer_joined` replaces its room's roster. Kind: L -/
theorem onJoin_roster (hroom : 0 ∉ room) (hnul : ∀ peer ∈ peers, 0 ∉ peer) (rooms : Rooms) :
    onJoin (.obj (rosterMembers type whose room peers)) rooms =
      .ok (WebRTC.updatePeers rooms room peers, some (room, cstr whose)) := by
  unfold onJoin
  simp only [hasSuch_obj, find?_roster_room, find?_roster_peerId, find?_roster_peers,
    Option.any_some, isString, isArray, ok_bind, Bool.not_true, Bool.false_eq_true, if_false,
    stringAt_of_find (find?_roster_room type whose room peers),
    stringAt_of_find (find?_roster_peerId type whose room peers),
    member_of_find (find?_roster_peers type whose room peers), getArray, peersOf_toList hnul,
    cstr_cstr, cstr_of_zero_not_mem hroom]
  rfl

/-- A well-formed `peer_left` replaces its room's roster. Kind: L -/
theorem onLeave_roster (hroom : 0 ∉ room) (hnul : ∀ peer ∈ peers, 0 ∉ peer) (rooms : Rooms) :
    onLeave (.obj (rosterMembers type whose room peers)) rooms =
      .ok (WebRTC.updatePeers (WebRTC.leave rooms (cstr whose) room).2 room peers) := by
  unfold onLeave
  simp only [hasSuch_obj, find?_roster_room, find?_roster_peerId, Option.any_some, isString,
    ok_bind, Bool.not_true, Bool.false_eq_true, if_false,
    stringAt_of_find (find?_roster_room type whose room peers),
    stringAt_of_find (find?_roster_peerId type whose room peers),
    member_of_find (find?_roster_peers type whose room peers), getArray, peersOf_toList hnul,
    cstr_cstr, cstr_of_zero_not_mem hroom]
  rfl

/-- **A roster notification** is read without a fault and makes its room's entry the roster it
carries. Kind: P -/
theorem absorb_roster (htype : type = str "peer_joined" ∨ type = str "peer_left")
    (hroom : 0 ∉ room) (hnul : ∀ peer ∈ peers, 0 ∉ peer) (rooms : Rooms) :
    ∃ rooms', absorb rooms (.document (Server.rosterDocument type whose room peers)) = .ok rooms' ∧
      ∀ r, rooms'[r]? = if room = r then some peers else rooms[r]? := by
  have hdoc : Server.rosterDocument type whose room peers =
      .obj (rosterMembers type whose room peers) := rfl
  have hroute := messageRouter_of_find (find?_roster_type type whose room peers)
  unfold absorb
  simp only [hdoc, hroute, ok_bind]
  obtain rfl | rfl := htype
  · have hdispatch : dispatch (cstr (str "peer_joined")) = some .onJoin := by decide
    simp only [hdispatch, onJoin_roster hroom hnul, ok_bind]
    exact ⟨_, rfl, fun r => getElem?_insert_eq _ _ _ _⟩
  · have hdispatch : dispatch (cstr (str "peer_left")) = some .onLeave := by decide
    simp only [hdispatch, onLeave_roster hroom hnul]
    refine ⟨_, rfl, fun r => ?_⟩
    unfold WebRTC.updatePeers
    rw [getElem?_insert_eq]
    split
    · rfl
    · rename_i h
      exact getElem?_leave_ne h

/-- A relayed document leaves the rosters alone. Kind: L -/
theorem absorb_relayed {members : List (Str × Json)} {h : Handler} {id : Str}
    (hroute : messageRouter (.obj members) = .ok (some h)) (hrelay : Server.relays h = true)
    (rooms : Rooms) :
    absorb rooms (.document (.obj (setFirst (str "peer") (.str id) members))) = .ok rooms := by
  obtain ⟨members', type, hobj, htype, hdispatch⟩ := exists_members_of_messageRouter hroute
  cases hobj
  have hfind : find? (setFirst (str "peer") (.str id) members) (str "type") = some (.str type) := by
    rw [find?_setFirst_ne (by decide), htype]
  unfold absorb
  simp only [messageRouter_of_find hfind, hdispatch, ok_bind]
  cases h with
  | onJoin => cases hrelay
  | onLeave => cases hrelay
  | _ => rfl

/-! ## Notifications of any shape -/

/-- The room and the client that a document names. Kind: D -/
def subjectOf : Json → Option (Str × Str)
  | .obj members =>
    match find? members (str "room"), find? members (str "peerId") with
    | some (.str room), some (.str peer) => some (cstr room, cstr peer)
    | _, _ => none
  | _ => none

/-- The roster that a document carries. Kind: D -/
def rosterOf : Json → Option Peers
  | .obj members =>
    match find? members (str "peers") with
    | some (.arr elems) => peersOf elems ∅
    | _ => none
  | _ => none

variable {doc : Json} {rooms : Rooms}

/-- The array in a member, read. Kind: L -/
theorem find?_of_getArray {members : List (Str × Json)} {k : Str} {v : Json} {elems : List Json}
    (hmember : (obj members).member k = .ok v) (helems : v.getArray = .ok elems) :
    find? members k = some (.arr elems) := by
  cases hfind : find? members k with
  | none => simp [member, hfind] at hmember
  | some w =>
      rw [member_of_find hfind, Except.ok.injEq] at hmember
      subst hmember
      cases w with
      | arr elems' => rw [← Except.ok.inj helems]
      | _ => simp [getArray] at helems

/-- **What a `peer_joined` does**: it replaces the roster of the room it names, or it is ignored.
Kind: P -/
theorem onJoin_cases {out : Rooms × Option (Str × Str)} (h : onJoin doc rooms = .ok out) :
    out = (rooms, none) ∨ ∃ room peer peers, subjectOf doc = some (room, peer) ∧
      rosterOf doc = some peers ∧ out = (WebRTC.updatePeers rooms room peers, some (room, peer)) := by
  unfold onJoin at h
  cases doc with
  | obj members =>
      simp only [hasSuch_obj, ok_bind] at h
      obtain ⟨-, rfl⟩ | ⟨hroom, h⟩ := guard_eq_ok.mp h
      · exact .inl rfl
      obtain ⟨-, rfl⟩ | ⟨hpeer, h⟩ := guard_eq_ok.mp h
      · exact .inl rfl
      obtain ⟨-, rfl⟩ | ⟨-, h⟩ := guard_eq_ok.mp h
      · exact .inl rfl
      rw [Bool.not_eq_false'] at hroom hpeer
      obtain ⟨room, hroom⟩ := exists_string_of_any hroom
      obtain ⟨peer, hpeer⟩ := exists_string_of_any hpeer
      simp only [stringAt_of_find hroom, stringAt_of_find hpeer, ok_bind] at h
      obtain ⟨v, hmember, h⟩ := bind_eq_ok.mp h
      obtain ⟨elems, helems, h⟩ := bind_eq_ok.mp h
      have hfind := find?_of_getArray hmember helems
      split at h
      · exact .inl (Except.ok.inj h).symm
      · rename_i peers hpeers
        refine .inr ⟨cstr room, cstr peer, peers, ?_, ?_, (Except.ok.inj h).symm⟩
        · simp only [subjectOf, hroom, hpeer]
        · simp only [rosterOf, hfind, hpeers]
  | _ => simp [hasSuch, hasMember, bind, Except.bind] at h

/-- **What a `peer_left` does**: it takes the peer out of the room it names and replaces the room's
roster, the latter only when it carries one, or it is ignored. Kind: P -/
theorem onLeave_cases {rooms' : Rooms} (h : onLeave doc rooms = .ok rooms') :
    rooms' = rooms ∨ ∃ room peer, subjectOf doc = some (room, peer) ∧
      (rosterOf doc = none ∧ rooms' = (WebRTC.leave rooms peer room).2 ∨
        ∃ peers, rosterOf doc = some peers ∧
          rooms' = WebRTC.updatePeers (WebRTC.leave rooms peer room).2 room peers) := by
  unfold onLeave at h
  cases doc with
  | obj members =>
      simp only [hasSuch_obj, ok_bind] at h
      obtain ⟨-, rfl⟩ | ⟨hroom, h⟩ := guard_eq_ok.mp h
      · exact .inl rfl
      obtain ⟨-, rfl⟩ | ⟨hpeer, h⟩ := guard_eq_ok.mp h
      · exact .inl rfl
      rw [Bool.not_eq_false'] at hroom hpeer
      obtain ⟨room, hroom⟩ := exists_string_of_any hroom
      obtain ⟨peer, hpeer⟩ := exists_string_of_any hpeer
      simp only [stringAt_of_find hroom, stringAt_of_find hpeer, ok_bind] at h
      obtain ⟨v, hmember, h⟩ := bind_eq_ok.mp h
      obtain ⟨elems, helems, h⟩ := bind_eq_ok.mp h
      have hfind := find?_of_getArray hmember helems
      refine .inr ⟨cstr room, cstr peer, by simp only [subjectOf, hroom, hpeer], ?_⟩
      split at h
      · rename_i hpeers
        exact .inl ⟨by simp only [rosterOf, hfind, hpeers], (Except.ok.inj h).symm⟩
      · rename_i peers hpeers
        exact .inr ⟨peers, by simp only [rosterOf, hfind, hpeers], (Except.ok.inj h).symm⟩
  | _ => simp [hasSuch, hasMember, bind, Except.bind] at h

end Client

end CloudNode
