import CloudNode.Wire.Text

/-!
# The room table of the base class

`WebRTC` keeps one table from rooms to their members. The server's is the membership of record;
a client's is its copy of the rosters it was told. The functions below are the members of `WebRTC`
that touch the table, each as the table it leaves (and the result it returns).

`m_rooms[room]` on a `std::map` creates the room when it is missing; `touch` is that effect alone.
-/

namespace CloudNode

/-- `m_rooms[room]` as a value: a room that is missing reads as an empty set. Kind: D -/
def Rooms.members (rooms : Rooms) (room : Str) : Peers := rooms[room]?.getD ∅

/-- `m_rooms[room]` as an effect: a room that is missing is created, empty. Kind: D -/
def Rooms.touch (rooms : Rooms) (room : Str) : Rooms := rooms.insert room (rooms.members room)

namespace WebRTC

/-- Add a peer to a room; `false` when it was already there.
Source: `WebRTC.cpp`, `WebRTC::Join`
Kind: D -/
def join (rooms : Rooms) (peer room : Str) : Bool × Rooms :=
  let peers := rooms.members room
  if peer ∈ peers then (false, rooms.touch room)
  else (true, rooms.insert room (peers.insert peer))

/-- Remove a peer from a room; `false` when the room does not exist or the peer is not in it.
Source: `WebRTC.cpp`, `WebRTC::Leave`
Kind: D -/
def leave (rooms : Rooms) (peer room : Str) : Bool × Rooms :=
  match rooms[room]? with
  | none => (false, rooms)
  | some peers =>
    if peer ∈ peers then (true, rooms.insert room (peers.erase peer)) else (false, rooms)

/-- The members of a room in the set's order, `none` for an unknown room.
Source: `WebRTC.cpp`, `WebRTC::GetPeers`
Kind: D -/
def getPeers (rooms : Rooms) (room : Str) : Option (List Str) := rooms[room]?.map fun peers => peers.toList

/-- Replace a room's roster. Source: `WebRTC.cpp`, `WebRTC::UpdatePeers`. Kind: D -/
def updatePeers (rooms : Rooms) (room : Str) (peers : Peers) : Rooms := rooms.insert room peers

/-- Forget all rosters. Source: `WebRTC.cpp`, `WebRTC::ClearRooms`. Kind: D -/
def clearRooms (_rooms : Rooms) : Rooms := ∅

end WebRTC

/-! ## Reading the table -/

namespace Rooms

variable (rooms : Rooms) (peer room other : Str)

/-- An empty table has no members anywhere. Kind: L -/
@[simp] theorem members_empty : Rooms.members ∅ room = ∅ := by
  simp [members]

/-- The members of a room that was just written. Kind: L -/
@[simp] theorem members_insert_same (peers : Peers) : members (rooms.insert room peers) room = peers := by
  simp [members]

/-- Writing one room leaves the others alone. Kind: L -/
theorem members_insert_ne {room other : Str} (h : room ≠ other) (peers : Peers) :
    members (rooms.insert room peers) other = rooms.members other := by
  unfold members
  rw [getElem?_insert_ne rooms peers h]

/-- The members of any room after one was written. Kind: L -/
theorem members_insert (peers : Peers) :
    members (rooms.insert room peers) other = if room = other then peers else rooms.members other := by
  by_cases h : room = other
  · subst h
    simp
  · rw [if_neg h, members_insert_ne rooms h]

/-- Creating a missing room changes no membership. Kind: L -/
@[simp] theorem members_touch : (rooms.touch room).members other = rooms.members other := by
  unfold touch
  rw [members_insert]
  by_cases h : room = other
  · rw [if_pos h, h]
  · rw [if_neg h]

/-- A room with a member is in the table. Kind: L -/
theorem getElem?_of_mem_members {rooms : Rooms} {peer room : Str} (h : peer ∈ rooms.members room) :
    rooms[room]? = some (rooms.members room) := by
  unfold members at h ⊢
  cases hroom : rooms[room]? with
  | none => simp [hroom] at h
  | some peers => rfl

end Rooms

/-! ## What `Join` and `Leave` do to memberships -/

namespace WebRTC

open Rooms

variable (rooms : Rooms) (peer room other : Str)

/-- `Join` of a peer that is already in the room is refused. Kind: L -/
theorem join_of_mem (h : peer ∈ rooms.members room) :
    join rooms peer room = (false, rooms.touch room) := by
  unfold join
  simp only [h, if_true]

/-- `Join` of any other peer adds it. Kind: L -/
theorem join_of_not_mem (h : peer ∉ rooms.members room) :
    join rooms peer room = (true, rooms.insert room ((rooms.members room).insert peer)) := by
  unfold join
  simp only [h, if_false]

/-- `Leave` takes the peer out of that room, and changes no other membership. Kind: L -/
theorem members_leave : (leave rooms peer room).2.members other =
    if room = other then (rooms.members room).erase peer else rooms.members other := by
  have hempty : room = other → rooms[room]? = none →
      rooms.members other = (rooms.members room).erase peer := by
    rintro rfl hroom
    simp [Rooms.members, hroom]
  unfold leave
  cases hroom : rooms[room]? with
  | none =>
      by_cases h : room = other
      · simpa [h] using hempty h hroom
      · rw [if_neg h]
  | some peers =>
      have hpeers : rooms.members room = peers := by simp [Rooms.members, hroom]
      by_cases hmem : peer ∈ peers
      · simp only [hmem, if_true, hpeers]
        exact members_insert rooms room other _
      · simp only [hmem, if_false]
        by_cases h : room = other
        · subst h
          rw [if_pos rfl, hpeers]
          apply Std.ExtTreeSet.ext_mem
          intro q
          rw [mem_erase_iff]
          constructor
          · intro hq
            exact ⟨fun heq => hmem (heq ▸ hq), hq⟩
          · exact fun hq => hq.2
        · rw [if_neg h]

/-- Who is in which room after `Leave`. Kind: L -/
theorem mem_members_leave {rooms : Rooms} {peer room other q : Str} :
    q ∈ (leave rooms peer room).2.members other ↔
      q ∈ rooms.members other ∧ ¬ (room = other ∧ q = peer) := by
  rw [members_leave]
  by_cases h : room = other
  · subst h
    rw [if_pos rfl, mem_erase_iff]
    constructor
    · rintro ⟨hne, hq⟩
      exact ⟨hq, fun hc => hne hc.2.symm⟩
    · rintro ⟨hq, hc⟩
      exact ⟨fun heq => hc ⟨rfl, heq.symm⟩, hq⟩
  · rw [if_neg h]
    exact ⟨fun hq => ⟨hq, fun hc => h hc.1⟩, fun hq => hq.1⟩

end WebRTC

end CloudNode
