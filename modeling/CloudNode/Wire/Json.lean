import CloudNode.Wire.Text

/-!
# JSON documents as RapidJSON presents them

A document is what `rapidjson::Document::Parse` leaves: an object keeps its members in the order
of the text, repeated names included, and a lookup finds the first one. RapidJSON's accessors have
preconditions that are assertions (undefined behaviour without them); an accessor is therefore a
partial operation here, with the failed precondition as its `Fault`.

`Writer` followed by `Parse` restores a document, so that a document sent is the document received.
-/

namespace CloudNode

/-- A parsed JSON value. Numbers are split as RapidJSON splits them: integers that fit 64 bits,
and everything else, which it keeps as a double.
Source: `rapidjson::Value`
Kind: D -/
inductive Json where
  | null
  | bool (b : Bool)
  | int (n : ℤ)
  | real (lexeme : Str)
  | str (s : Str)
  | arr (elems : List Json)
  | obj (members : List (Str × Json))

/-- The RapidJSON precondition that an access broke. Kind: D -/
inductive Fault where
  /-- A member was looked up in a value that is not an object. -/
  | notObject
  /-- `operator[]` on a member that is absent. -/
  | absentMember
  /-- `GetString` on a value that is not a string. -/
  | notString
  /-- `GetInt64` on a value that is not a 64-bit signed integer. -/
  | notInt64
  /-- `GetUint64` on a value that is not a 64-bit unsigned integer. -/
  | notUint64
  /-- `GetArray`, `Size` or an element access on a value that is not an array. -/
  | notArray
  /-- An element access beyond the array's size. -/
  | outOfRange
  deriving DecidableEq, Repr

namespace Json

/-- The value of the first member of that name. Source: `rapidjson::Value::FindMember`. Kind: D -/
def find? : List (Str × Json) → Str → Option Json
  | [], _ => none
  | (name, v) :: members, k => if name = k then some v else find? members k

/-- Source: `rapidjson::Value::IsString`. Kind: D -/
def isString : Json → Bool
  | str _ => true
  | _ => false

/-- Source: `rapidjson::Value::IsObject`. Kind: D -/
def isObject : Json → Bool
  | obj _ => true
  | _ => false

/-- Source: `rapidjson::Value::IsArray`. Kind: D -/
def isArray : Json → Bool
  | arr _ => true
  | _ => false

/-- Source: `rapidjson::Value::IsInt64`. Kind: D -/
def isInt64 : Json → Bool
  | int n => decide (-2 ^ 63 ≤ n ∧ n < 2 ^ 63)
  | _ => false

/-- Source: `rapidjson::Value::IsUint64`. Kind: D -/
def isUint64 : Json → Bool
  | int n => decide (0 ≤ n ∧ n < 2 ^ 64)
  | _ => false

/-- Source: `rapidjson::Value::HasMember`. Kind: D -/
def hasMember (v : Json) (k : Str) : Except Fault Bool :=
  match v with
  | obj members => .ok (find? members k).isSome
  | _ => .error .notObject

/-- Source: `rapidjson::Value::operator[]` with a name. Kind: D -/
def member (v : Json) (k : Str) : Except Fault Json :=
  match v with
  | obj members => match find? members k with
    | some w => .ok w
    | none => .error .absentMember
  | _ => .error .notObject

/-- `std::string` of `GetString()`: the string up to its first NUL.
Source: `rapidjson::Value::GetString`
Kind: D -/
def getString : Json → Except Fault Str
  | str s => .ok (cstr s)
  | _ => .error .notString

/-- Source: `rapidjson::Value::GetInt64`. Kind: D -/
def getInt64 : Json → Except Fault ℤ
  | int n => if -2 ^ 63 ≤ n ∧ n < 2 ^ 63 then .ok n else .error .notInt64
  | _ => .error .notInt64

/-- Source: `rapidjson::Value::GetUint64`. Kind: D -/
def getUint64 : Json → Except Fault ℕ
  | int n => if 0 ≤ n ∧ n < 2 ^ 64 then .ok n.toNat else .error .notUint64
  | _ => .error .notUint64

/-- The elements of `GetArray()`. Source: `rapidjson::Value::GetArray`. Kind: D -/
def getArray : Json → Except Fault (List Json)
  | arr elems => .ok elems
  | _ => .error .notArray

/-- Source: `rapidjson::Value::operator[]` with an index, on an array's elements. Kind: D -/
def element (elems : List Json) (i : ℕ) : Except Fault Json :=
  match elems[i]? with
  | some w => .ok w
  | none => .error .outOfRange

/-- `doc.HasMember(k) && doc[k].IsX()`, the test in front of nearly every access. Kind: D -/
def hasSuch (v : Json) (k : Str) (isX : Json → Bool) : Except Fault Bool := do
  if ← v.hasMember k then
    return isX (← v.member k)
  return false

/-- `doc[k].GetString()`. Kind: D -/
def stringAt (v : Json) (k : Str) : Except Fault Str := do
  (← v.member k).getString

/-- Overwrite the first member of that name. Source: `doc[k].SetString(..)`. Kind: D -/
def setFirst (k : Str) (w : Json) : List (Str × Json) → List (Str × Json)
  | [] => []
  | (name, v) :: members => if name = k then (name, w) :: members else (name, v) :: setFirst k w members

/-- Source: `doc[k].SetString(s)`. Kind: D -/
def setString (v : Json) (k s : Str) : Except Fault Json :=
  match v with
  | obj members =>
    if (find? members k).isSome then .ok (obj (setFirst k (str s) members))
    else .error .absentMember
  | _ => .error .notObject

/-- The members without the first one of that name, the others in their order. Kind: D -/
def eraseFirst (k : Str) : List (Str × Json) → List (Str × Json)
  | [] => []
  | (name, v) :: members => if name = k then members else (name, v) :: eraseFirst k members

/-- Source: `rapidjson::Value::EraseMember` with a name. Kind: D -/
def eraseMember (v : Json) (k : Str) : Except Fault Json :=
  match v with
  | obj members => .ok (obj (eraseFirst k members))
  | _ => .error .notObject

/-- Source: `rapidjson::Value::AddMember`. Kind: D -/
def addMember (v : Json) (k : Str) (w : Json) : Except Fault Json :=
  match v with
  | obj members => .ok (obj (members ++ [(k, w)]))
  | _ => .error .notObject

/-! ## The accessors on an object -/

variable {members : List (Str × Json)} {k : Str}

/-- Looking a name up in an object. Kind: L -/
@[simp] theorem hasMember_obj : (obj members).hasMember k = .ok (find? members k).isSome := rfl

/-- `operator[]` finds the first member of the name. Kind: L -/
theorem member_of_find {w : Json} (h : find? members k = some w) :
    (obj members).member k = .ok w := by
  simp [member, h]

/-- The guard in front of an access, on an object, never faults. Kind: L -/
@[simp] theorem hasSuch_obj (isX : Json → Bool) :
    (obj members).hasSuch k isX = .ok ((find? members k).any isX) := by
  unfold hasSuch
  rw [hasMember_obj]
  cases h : find? members k with
  | none => rfl
  | some w =>
      show (do return isX (← (obj members).member k)) = _
      rw [member_of_find h]
      rfl

/-- A guard that says yes has found a string. Kind: L -/
theorem exists_string_of_any (h : (find? members k).any isString = true) :
    ∃ s, find? members k = some (str s) := by
  cases hf : find? members k with
  | none => simp [hf] at h
  | some w =>
      cases w <;> simp [hf, isString] at h
      exact ⟨_, rfl⟩

/-- Reading a string member that is there. Kind: L -/
theorem stringAt_of_find {s : Str} (h : find? members k = some (str s)) :
    (obj members).stringAt k = .ok (cstr s) := by
  unfold stringAt
  rw [member_of_find h]
  rfl

/-- Overwriting a member that is there. Kind: L -/
theorem setString_of_find {w : Json} (h : find? members k = some w) (s : Str) :
    (obj members).setString k s = .ok (obj (setFirst k (str s) members)) := by
  simp [setString, h]

/-- Reading a member that has been overwritten. Kind: L -/
theorem find?_setFirst_same {v : Json} (h : find? members k = some v) (w : Json) :
    find? (setFirst k w members) k = some w := by
  induction members with
  | nil => simp [find?] at h
  | cons m members ih =>
      obtain ⟨name, u⟩ := m
      unfold setFirst
      by_cases hk : name = k
      · simp only [if_pos hk, find?]
      · simp only [find?, if_neg hk] at h ⊢
        exact ih h

/-! ## All members of a name -/

/-- The values of the members of that name, in their order. Kind: D -/
def valuesOf (k : Str) (members : List (Str × Json)) : List Json :=
  members.filterMap fun m => if m.1 = k then some m.2 else none

/-- A lookup finds the first of them. Kind: L -/
theorem find?_eq_head? (members : List (Str × Json)) (k : Str) :
    find? members k = (valuesOf k members).head? := by
  induction members with
  | nil => rfl
  | cons m members ih =>
      obtain ⟨name, v⟩ := m
      unfold find? valuesOf
      by_cases hk : name = k
      · simp [hk]
      · rw [if_neg hk, ih]
        simp [valuesOf, hk]

/-- Erasing takes away the first of them. Kind: L -/
theorem valuesOf_eraseFirst_same (k : Str) (members : List (Str × Json)) :
    valuesOf k (eraseFirst k members) = (valuesOf k members).tail := by
  induction members with
  | nil => rfl
  | cons m members ih =>
      obtain ⟨name, v⟩ := m
      unfold eraseFirst
      by_cases hk : name = k
      · simp [valuesOf, hk]
      · rw [if_neg hk]
        simpa [valuesOf, hk] using ih

/-- Erasing a member leaves those of other names. Kind: L -/
theorem valuesOf_eraseFirst_ne {k' : Str} (h : k ≠ k') (members : List (Str × Json)) :
    valuesOf k' (eraseFirst k members) = valuesOf k' members := by
  induction members with
  | nil => rfl
  | cons m members ih =>
      obtain ⟨name, v⟩ := m
      unfold eraseFirst
      by_cases hk : name = k
      · rw [if_pos hk]
        subst hk
        simp [valuesOf, h]
      · rw [if_neg hk]
        simp only [valuesOf, List.filterMap_cons] at ih ⊢
        rw [ih]

/-- Overwriting a member leaves those of other names. Kind: L -/
theorem valuesOf_setFirst_ne {k' : Str} (h : k ≠ k') (w : Json) (members : List (Str × Json)) :
    valuesOf k' (setFirst k w members) = valuesOf k' members := by
  induction members with
  | nil => rfl
  | cons m members ih =>
      obtain ⟨name, v⟩ := m
      unfold setFirst
      by_cases hk : name = k
      · rw [if_pos hk]
        subst hk
        simp [valuesOf, h]
      · rw [if_neg hk]
        simp only [valuesOf, List.filterMap_cons] at ih ⊢
        rw [ih]

/-- Overwriting a member leaves the others where they are. Kind: L -/
theorem find?_setFirst_ne {k' : Str} (h : k ≠ k') (w : Json) :
    find? (setFirst k w members) k' = find? members k' := by
  rw [find?_eq_head?, find?_eq_head?, valuesOf_setFirst_ne h]

/-- The members of two lists. Kind: L -/
theorem valuesOf_append (k : Str) (members members' : List (Str × Json)) :
    valuesOf k (members ++ members') = valuesOf k members ++ valuesOf k members' :=
  List.filterMap_append

end Json

end CloudNode
