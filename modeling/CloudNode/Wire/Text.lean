import Mathlib

/-!
# Byte strings and the keys made of them

`std::string` is a sequence of bytes and is modelled as one: nothing in the program validates an
encoding, so a name is any list of bytes. `std::map` and `std::set` order their keys by the bytes'
numeric values, which is the order of `compare` on `Str`; they are modelled by `Std.ExtTreeMap` and
`Std.ExtTreeSet`, whose traversals go through the keys in that order.
-/

namespace CloudNode

/-- `std::string`: any sequence of bytes. Kind: D -/
abbrev Str := List UInt8

/-- Strings are compared byte by byte. Kind: L -/
instance : LawfulBEq Str := inferInstance

/-- A string literal of the source (all of them are ASCII). Kind: D -/
def str (s : String) : Str := s.toList.map fun c => UInt8.ofNat c.toNat

/-- What `std::string(const char*)` copies: the bytes before the first NUL. Every string the
program reads with RapidJSON's `GetString()` goes through it.
Source: `WebRTCServer.cpp`, `std::string room = doc["room"].GetString()` and its like
Kind: D -/
def cstr (s : Str) : Str := s.takeWhile (· ≠ 0)

/-- A copied C string has no NUL left. Kind: L -/
theorem zero_not_mem_cstr (s : Str) : (0 : UInt8) ∉ cstr s := by
  intro h
  simpa using List.mem_takeWhile_imp h

/-- A string without NUL is copied whole. Kind: L -/
theorem cstr_of_zero_not_mem {s : Str} (h : (0 : UInt8) ∉ s) : cstr s = s := by
  unfold cstr
  rw [List.takeWhile_eq_self_iff]
  intro b hb
  simp only [decide_eq_true_eq]
  rintro rfl
  exact h hb

/-- Copying a C string twice is copying it once. Kind: L -/
@[simp] theorem cstr_cstr (s : Str) : cstr (cstr s) = cstr s :=
  cstr_of_zero_not_mem (zero_not_mem_cstr s)

/-- The key of the per-peer tables.
Source: `WebRTCClient.hpp`, `using PeerRoomKey = std::pair<std::string, std::string>`
Kind: D -/
abbrev PeerRoomKey := Str × Str

/-- `std::pair` compares its first components first. Kind: D -/
instance : Ord PeerRoomKey := lexOrd

/-- Pairs are ordered. Kind: L -/
instance : Std.TransOrd PeerRoomKey := inferInstance

/-- Lists of strings, which are paths, are ordered. Kind: L -/
instance : Std.TransOrd (List Str) := inferInstance

/-- The members of a room. Source: `WebRTC.hpp`, `std::set<std::string>`. Kind: D -/
abbrev Peers := Std.ExtTreeSet Str

/-- The room table. Source: `WebRTC.hpp`, `m_rooms`. Kind: D -/
abbrev Rooms := Std.ExtTreeMap Str Peers

section maps

variable {κ ν : Type*} [Ord κ] [Std.TransOrd κ] [Std.LawfulEqOrd κ]

/-- Reading a map after `insert_or_assign`. Kind: L -/
theorem getElem?_insert_eq (m : Std.ExtTreeMap κ ν) (k a : κ) (v : ν) [Decidable (k = a)] :
    (m.insert k v)[a]? = if k = a then some v else m[a]? := by
  rw [Std.ExtTreeMap.getElem?_insert]
  simp only [Std.LawfulEqCmp.compare_eq_iff_eq]

/-- Reading the key that was just written. Kind: L -/
@[simp] theorem getElem?_insert_same (m : Std.ExtTreeMap κ ν) (k : κ) (v : ν) :
    (m.insert k v)[k]? = some v := by
  simp

/-- Reading another key than the one written. Kind: L -/
theorem getElem?_insert_ne (m : Std.ExtTreeMap κ ν) {k a : κ} (v : ν) (h : k ≠ a) :
    (m.insert k v)[a]? = m[a]? := by
  rw [Std.ExtTreeMap.getElem?_insert]
  simp only [Std.LawfulEqCmp.compare_eq_iff_eq, h, if_false]

/-- Reading a map after `erase`. Kind: L -/
theorem getElem?_erase_eq (m : Std.ExtTreeMap κ ν) (k a : κ) [Decidable (k = a)] :
    (m.erase k)[a]? = if k = a then none else m[a]? := by
  rw [Std.ExtTreeMap.getElem?_erase]
  simp only [Std.LawfulEqCmp.compare_eq_iff_eq]

/-- Reading another key than the one erased. Kind: L -/
theorem getElem?_erase_ne (m : Std.ExtTreeMap κ ν) {k a : κ} (h : k ≠ a) :
    (m.erase k)[a]? = m[a]? := by
  rw [Std.ExtTreeMap.getElem?_erase]
  simp only [Std.LawfulEqCmp.compare_eq_iff_eq, h, if_false]

/-- Membership in a set after `insert`. Kind: L -/
theorem mem_insert_iff (s : Std.ExtTreeSet κ) (k a : κ) : a ∈ s.insert k ↔ k = a ∨ a ∈ s := by
  rw [Std.ExtTreeSet.mem_insert, Std.LawfulEqCmp.compare_eq_iff_eq]

/-- Membership in a set after `erase`. Kind: L -/
theorem mem_erase_iff (s : Std.ExtTreeSet κ) (k a : κ) : a ∈ s.erase k ↔ k ≠ a ∧ a ∈ s := by
  rw [Std.ExtTreeSet.mem_erase, ne_eq, Std.LawfulEqCmp.compare_eq_iff_eq]

end maps

end CloudNode
