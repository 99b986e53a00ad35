import CloudNode.Lib.Base64
import CloudNode.Wire.Members
import CloudNode.Wire.Messages

/-!
# Session descriptions as texts

A description is written as a JSON object, or as two members of one that another function writes,
and it is made from such an object again. Its items are Base64 texts. `base64Encode` refuses an item
that is empty; the three writers put the comma between items whether or not it does.

* `decodedItems_encodings` — an item is decoded iff it is not empty and its size fits an `int`.
* `restored_iff`, `Placement.found_iff` — so exactly the descriptions of such items are restored,
  and read where they are placed.
-/

namespace CloudNode

open Json

/-! ## libb64 -/

/-- What the program relies on: `base64::encoder` breaks the Base64 text into lines, and
`base64::decoder` gives the bytes of a Base64 text. Kind: D -/
structure Libb64 (encoder decoder : Str → Str) : Prop where
  encodes : ∀ s, (encoder s).filter (· ≠ Base64.lineFeed) = Base64.encode s
  decodes : ∀ s t, Base64.decode t = some s → decoder t = s

/-- What ends the reading of a description. Kind: D -/
inductive Failure where
  /-- A precondition of RapidJSON. -/
  | fault (f : Fault)
  /-- The decoder writes behind its buffer. -/
  | overrun
  /-- `std::length_error`. -/
  | lengthError

/-- A number of bytes, as an `int`. Kind: D -/
def asInt (n : ℕ) : ℤ := Int.bmod n (2 ^ 32)

/-- Source: `std::string::resize`. Kind: D -/
def resize (s : Str) (n : ℕ) : Str := s.take n ++ List.replicate (n - s.length) 0

/-- `false` is `none`. The size to which a negative number is converted is more than a string has.
Source: `LocalDescription.cpp`, `base64Decode`
Kind: D -/
def base64Decode (decoder : Str → Str) (input : Str) : Except Failure (Option Str) :=
  if input = [] then .ok none
  else
    let decoded := resize [] (cstr input).length
    let bytes := decoder input
    if decoded.length < bytes.length then .error .overrun
    else
      let s := asInt bytes.length
      if s < 0 then .error .lengthError
      else .ok (some (resize (bytes ++ decoded.drop bytes.length) s.toNat))

/-! ## The object, and what is made from it -/

/-- All its members. Source: `LocalDescription.hpp`. Kind: D -/
structure FullDescription extends LocalDescription where
  UUID : Str

namespace FullDescription

variable (encoder decoder : Str → Str)

/-- Source: `LocalDescription.cpp`, `toJson`, `appendArray`. Kind: D -/
def appendArray (name : Str) (items : List Str) : Str :=
  str "," ++ name ++ str ":" ++ LocalDescription.encodedArray encoder items

/-- Source: `LocalDescription.cpp`, `toJson`. Kind: D -/
def toJson (d : FullDescription) : Str :=
  str "\x7b\"UUID\":\"" ++ d.UUID ++ str "\"" ++
    appendArray encoder (str "\"descriptions\"") d.descriptions ++
    appendArray encoder (str "\"candidates\"") d.candidates ++ str "\x7d"

/-- What is decoded of an element. Source: `LocalDescription.cpp`, `processArrays`. Kind: D -/
def decodedItem (v : Json) : Except Failure (Option Str) :=
  if v.isString then v.getString.mapError .fault >>= base64Decode decoder
  else .ok none

/-- The items of the elements, in their order.
Source: `LocalDescription.cpp`, `processArrays`, the loop
Kind: D -/
def decodedItems : List Json → Except Failure (List Str)
  | [] => .ok []
  | v :: vs => do
    let item ← decodedItem decoder v
    let items ← decodedItems vs
    return item.toList ++ items

/-- The elements under a name; what is absent or no array has none. Kind: D -/
def elementsOf (doc : Json) (name : Str) : Except Fault (List Json) := do
  if ← doc.hasSuch name isArray then
    (← doc.member name).getArray
  else
    return []

/-- Source: `LocalDescription.cpp`, `processArrays`. Kind: D -/
def processArrays (doc : Json) (name : Str) : Except Failure (List Str) :=
  (elementsOf doc name).mapError .fault >>= decodedItems decoder

/-- The UUID; one that is absent or no string leaves the member as it was made. Kind: D -/
def uuidOf (doc : Json) : Except Fault Str := do
  if ← doc.hasSuch (str "UUID") isString then
    doc.stringAt (str "UUID")
  else
    return []

/-- Source: `LocalDescription.cpp`, `LocalDescription(const std::string&)`. Kind: D -/
def ofJson (jsonStr : Str) : Except Failure FullDescription :=
  match parse jsonStr with
  | none => .ok ⟨⟨[], []⟩, []⟩
  | some doc => do
    let UUID ← (uuidOf doc).mapError .fault
    let descriptions ← processArrays decoder doc (str "descriptions")
    let candidates ← processArrays decoder doc (str "candidates")
    return ⟨⟨descriptions, candidates⟩, UUID⟩

end FullDescription

/-! ## The members, in another object -/

/-- The two members that are written for other objects. Kind: D -/
inductive Fragment where
  | descriptions
  | candidates

namespace Fragment

/-- The name of the member. Kind: D -/
def key : Fragment → Str
  | descriptions => str "descriptions"
  | candidates => str "candidates"

/-- The list that it is written of. Kind: D -/
def items (d : FullDescription) : Fragment → List Str
  | descriptions => d.descriptions
  | candidates => d.candidates

/-- Its text. Kind: D -/
def text (encoder : Str → Str) (d : FullDescription) : Fragment → Str
  | descriptions => d.getDescriptionsJson encoder
  | candidates => d.getCandidatesJson encoder

end Fragment

/-- A place in an object: for any other member, or for one of the two, with white space around it.
Kind: D -/
inductive Slot where
  | other (m : Member)
  | fragment (f : Fragment) (before after : Str)

namespace Slot

variable (encoder decoder : Str → Str) (d : FullDescription)

/-- The name of the member. Kind: D -/
def key : Slot → Str
  | other m => m.head.key
  | fragment f _ _ => f.key

/-- What is written there. Kind: D -/
def text : Slot → Str
  | other m => m.written
  | fragment f before after => before ++ (f.text encoder d ++ after)

/-- The list that is written there. Kind: D -/
def items : Slot → List Str
  | other _ => []
  | fragment f _ _ => f.items d

/-- The other member is one, and what is around the two is white space. Kind: D -/
def Neat : Slot → Prop
  | other m => m.Neat
  | fragment _ before after => white before = true ∧ white after = true

/-- The list is found among the members that were read: an array whose decoded elements it is.
Kind: D -/
def Found (ms : List (Str × Json)) : Slot → Prop
  | other _ => True
  | fragment f _ _ => ∃ vs, find? ms f.key = some (.arr vs) ∧
    FullDescription.decodedItems decoder vs = .ok (f.items d)

end Slot

/-- A JSON object with places for the two members. Kind: D -/
structure Placement where
  slots : List Slot
  neat : ∀ slot ∈ slots, slot.Neat
  keys : (slots.map Slot.key).Nodup

namespace Placement

variable (encoder decoder : Str → Str) (d : FullDescription)

/-- The object. Kind: D -/
def text (p : Placement) : Str := objectText (p.slots.map (Slot.text encoder d))

/-- The object is one, and the lists are found in it. Kind: D -/
def Found (p : Placement) : Prop :=
  ∃ ms, parse (p.text encoder d) = some (.obj ms) ∧ ∀ slot ∈ p.slots, slot.Found decoder d ms

end Placement

namespace FullDescription

variable (encoder decoder : Str → Str)

/-- A description is made from its text again. Kind: D -/
def Restored (d : FullDescription) : Prop := ofJson decoder (d.toJson encoder) = .ok d

/-- **A description survives**: it is made from its text again, and its lists are found in every
object that they are placed in. Kind: D -/
def Survives (d : FullDescription) : Prop :=
  d.Restored encoder decoder ∧ ∀ p : Placement, p.Found encoder decoder d

end FullDescription

/-- An item that is encoded, and whose size fits an `int`. Kind: D -/
def Carried (s : Str) : Prop := s ≠ [] ∧ s.length < 2 ^ 31

instance (s : Str) : Decidable (Carried s) := inferInstanceAs (Decidable (_ ∧ _))

/-! ## One item -/

variable {encoder decoder : Str → Str}

/-- A letter of the text needs no escape. Kind: L -/
theorem base64Char_letter {n : ℕ} (hn : n < 64) : base64Char (Base64.letter n) = true := by
  revert n
  decide

/-- The characters of a Base64 text. Kind: L -/
theorem base64Char_of_mem_encode {s : Str} {c : UInt8} (h : c ∈ Base64.encode s) :
    base64Char c = true := by
  rcases Base64.mem_encode h with ⟨n, hn, rfl⟩ | rfl
  · exact base64Char_letter hn
  · decide

/-- The encoder writes Base64 characters, in lines. Kind: L -/
theorem Libb64.isBase64 (hlib : Libb64 encoder decoder) : IsBase64 encoder := by
  intro s c hc
  by_cases hline : c = 0x0A
  · exact Or.inr hline
  · left
    apply base64Char_of_mem_encode (s := s)
    rw [← hlib.encodes]
    exact List.mem_filter.mpr ⟨hc, decide_eq_true hline⟩

/-- What is encoded is the Base64 text. Kind: L -/
theorem base64Encode_eq (hlib : Libb64 encoder decoder) (s : Str) :
    base64Encode encoder s = if s = [] then none else some (Base64.encode s) := by
  have htext : (encoder s).filter (fun c => ¬(c = 0x0A ∨ c = 0x0D)) = Base64.encode s := by
    have hreturn : ∀ c ∈ Base64.encode s, decide (c ≠ 0x0D) = true := by
      intro c hc
      apply decide_eq_true
      rintro rfl
      exact absurd (base64Char_of_mem_encode hc) (by decide)
    rw [← List.filter_eq_self.mpr hreturn, ← hlib.encodes, List.filter_filter]
    apply List.filter_congr
    intro c _
    simp only [not_or, Bool.decide_and, Bool.and_comm]
  rw [base64Encode, htext]

/-- A string that was resized has its new size. Kind: L -/
theorem length_resize (s : Str) (n : ℕ) : (resize s n).length = n := by
  rw [resize, List.length_append, List.length_take, List.length_replicate]
  omega

/-- The front of a string. Kind: L -/
theorem resize_append (s t : Str) : resize (s ++ t) s.length = s := by
  rw [resize, List.take_left, List.length_append, Nat.sub_eq_zero_of_le (Nat.le_add_right _ _),
    List.replicate_zero, List.append_nil]

/-- The numbers that an `int` holds. Kind: L -/
theorem asInt_eq_iff (n : ℕ) : asInt n = n ↔ n < 2 ^ 31 := by
  have hwidth : ((2 ^ 32 : ℕ) : ℤ) = 4294967296 := by norm_num
  unfold asInt
  rw [Int.bmod_eq_iff (Nat.two_pow_pos 32), hwidth, sub_self]
  constructor
  · rintro ⟨-, hlt, -⟩
    omega
  · intro hn
    exact ⟨by omega, by omega, dvd_zero _⟩

/-- The text of an item has no NUL. Kind: L -/
theorem cstr_encode (s : Str) : cstr (Base64.encode s) = Base64.encode s := by
  apply cstr_of_zero_not_mem
  intro h
  exact absurd (base64Char_of_mem_encode h) (by decide)

/-- **The text of an item is decoded to it iff the item's size fits an `int`.** Kind: P -/
theorem base64Decode_encode (hlib : Libb64 encoder decoder) {s : Str} (hs : s ≠ []) :
    base64Decode decoder (Base64.encode s) = .ok (some s) ↔ s.length < 2 ^ 31 := by
  have hbytes : decoder (Base64.encode s) = s := hlib.decodes _ _ (Base64.decode_encode s)
  have hroom : ¬(resize [] (Base64.encode s).length).length < s.length := by
    rw [length_resize]
    exact Nat.not_lt.mpr (Base64.length_le_encode s)
  rw [base64Decode, if_neg (Base64.encode_ne_nil hs)]
  simp only [cstr_encode, hbytes, if_neg hroom]
  constructor
  · intro h
    split at h
    · exact absurd h (by simp)
    · rename_i hpos
      have hitem := Option.some.inj (Except.ok.inj h)
      have hlength := congrArg List.length hitem
      rw [length_resize] at hlength
      rw [← asInt_eq_iff]
      omega
  · intro h
    have hsize := (asInt_eq_iff _).mpr h
    have hnat : (asInt s.length).toNat = s.length := by rw [hsize, Int.toNat_natCast]
    have hpos : ¬asInt s.length < 0 := by
      rw [hsize]
      omega
    rw [if_neg hpos, hnat, resize_append]

/-- Of a text that is not empty, something is decoded. Kind: L -/
theorem base64Decode_ne_none {input : Str} (h : input ≠ []) :
    base64Decode decoder input ≠ .ok none := by
  rw [base64Decode, if_neg h]
  simp only
  split
  · simp
  · split
    · simp
    · simp

/-! ## The items of a list -/

namespace FullDescription

open HandBuilt

/-- The text of an item is decoded as it is. Kind: L -/
theorem decodedItem_encode (s : Str) : decodedItem decoder (.str (Base64.encode s)) =
    base64Decode decoder (Base64.encode s) := by
  have hstring : (Json.str (Base64.encode s)).isString = true := rfl
  rw [decodedItem, if_pos hstring, getString, cstr_encode]
  rfl

/-- No more items are decoded than there are elements. Kind: L -/
theorem length_of_decodedItems {vs : List Json} {items : List Str}
    (h : decodedItems decoder vs = .ok items) : items.length ≤ vs.length := by
  induction vs generalizing items with
  | nil =>
      rw [← Except.ok.inj h]
      exact le_rfl
  | cons v vs ih =>
      rw [decodedItems] at h
      cases hitem : decodedItem decoder v with
      | error e =>
          rw [hitem] at h
          cases h
      | ok item =>
          cases hrest : decodedItems decoder vs with
          | error e =>
              rw [hitem, hrest] at h
              cases h
          | ok rest =>
              rw [hitem, hrest] at h
              have hitems : item.toList ++ rest = items := Except.ok.inj h
              have hone : item.toList.length ≤ 1 := by cases item <;> simp
              have hle := ih hrest
              rw [← hitems, List.length_append, List.length_cons]
              omega

/-- An element of which something is decoded, and others. Kind: L -/
theorem decodedItems_cons_iff {v : Json} (hv : decodedItem decoder v ≠ .ok none) {vs : List Json}
    {s : Str} {items : List Str} : decodedItems decoder (v :: vs) = .ok (s :: items) ↔
      decodedItem decoder v = .ok (some s) ∧ decodedItems decoder vs = .ok items := by
  rw [decodedItems]
  constructor
  · intro h
    cases hitem : decodedItem decoder v with
    | error e =>
        rw [hitem] at h
        cases h
    | ok item =>
        cases hrest : decodedItems decoder vs with
        | error e =>
            rw [hitem, hrest] at h
            cases h
        | ok rest =>
            rw [hitem, hrest] at h
            cases item with
            | none => exact absurd hitem hv
            | some s' =>
                have hitems : s' :: rest = s :: items := Except.ok.inj h
                obtain ⟨rfl, rfl⟩ := List.cons.inj hitems
                exact ⟨rfl, rfl⟩
  · rintro ⟨hitem, hrest⟩
    rw [hitem, hrest]
    rfl

/-- **A list is decoded from its texts iff its items are not empty and their sizes fit an `int`.**
By induction on the list. Kind: P -/
theorem decodedItems_encodings (hlib : Libb64 encoder decoder) (items : List Str) :
    decodedItems decoder ((encodings encoder items).map .str) = .ok items ↔
      ∀ s ∈ items, Carried s := by
  induction items with
  | nil => exact ⟨fun _ s hs => absurd hs List.not_mem_nil, fun _ => rfl⟩
  | cons s items ih =>
      by_cases hs : s = []
      · have hskip : encodings encoder (s :: items) = encodings encoder items :=
          List.filterMap_cons_none (by rw [base64Encode_eq hlib, if_pos hs])
        rw [hskip]
        constructor
        · intro h
          have hlength := length_of_decodedItems h
          have hle : (encodings encoder items).length ≤ items.length := List.length_filterMap_le _ _
          rw [List.length_map, List.length_cons] at hlength
          omega
        · intro h
          exact absurd hs (h s List.mem_cons_self).1
      · have hcons : encodings encoder (s :: items) = Base64.encode s :: encodings encoder items :=
          List.filterMap_cons_some (by rw [base64Encode_eq hlib, if_neg hs])
        have hsome : decodedItem decoder (.str (Base64.encode s)) ≠ .ok none := by
          rw [decodedItem_encode]
          exact base64Decode_ne_none (Base64.encode_ne_nil hs)
        rw [hcons, List.map_cons, decodedItems_cons_iff hsome, decodedItem_encode,
          base64Decode_encode hlib hs, ih, List.forall_mem_cons, Carried, and_iff_right hs]

end FullDescription

/-! ## The text of a list -/

/-- Nothing was written for one of several items. Kind: D -/
def Gappy (items : List Str) : Prop := [] ∈ items ∧ items ≠ [[]]

/-- A list whose items are written is without gaps. Kind: L -/
theorem not_gappy_of_carried {items : List Str} (h : ∀ s ∈ items, Carried s) : ¬Gappy items :=
  fun hgappy => (h [] hgappy.1).1 rfl

/-- The text of a list, by what is encoded of its items. Kind: L -/
theorem encodedArray_eq_quotedOrNone (encoder : Str → Str) (items : List Str) :
    LocalDescription.encodedArray encoder items =
      0x5B :: ([0x2C].intercalate ((items.map (base64Encode encoder)).map quotedOrNone) ++ [0x5D]) := by
  have hopen : str "[" = [0x5B] := by decide
  have hclose : str "]" = [0x5D] := by decide
  unfold LocalDescription.encodedArray
  rw [hopen, hclose, List.map_map, List.append_assoc, List.singleton_append]
  refine congrArg (fun texts => 0x5B :: ([0x2C].intercalate texts ++ [0x5D])) ?_
  apply List.map_congr_left
  intro item _
  rw [Function.comp_apply]
  cases base64Encode encoder item with
  | none => rfl
  | some encoded => rfl

/-- **A list with a gap is no JSON text.** Kind: P -/
theorem unreadable_of_gappy (hlib : Libb64 encoder decoder) {items : List Str} (h : Gappy items) :
    Unreadable (LocalDescription.encodedArray encoder items) := by
  rw [encodedArray_eq_quotedOrNone]
  apply unreadable_array
  · intro s hs
    obtain ⟨item, -, hitem⟩ := List.mem_map.mp hs
    exact (HandBuilt.quotable_base64Encode hlib.isBase64 hitem).1
  · exact List.mem_map.mpr ⟨[], h.1, by rw [base64Encode, if_pos rfl]⟩
  · intro hone
    apply h.2
    obtain ⟨item, hitems, hitem⟩ := List.map_eq_singleton_iff.mp hone
    rw [base64Encode] at hitem
    split at hitem
    · rename_i hnil
      rw [hitems, hnil]
    · exact absurd hitem (by simp)

/-- **Any other is the array of its texts.** Kind: P -/
theorem readsAs_of_not_gappy (hlib : Libb64 encoder decoder) {items : List Str} (h : ¬Gappy items) :
    ascii (LocalDescription.encodedArray encoder items) = true ∧
      ReadsAs (LocalDescription.encodedArray encoder items)
        (.arr ((HandBuilt.encodings encoder items).map .str)) := by
  by_cases hnil : [] ∈ items
  · have hone : items = [[]] := by
      by_contra hne
      exact h ⟨hnil, hne⟩
    rw [hone]
    have hreads : ReadsAs (array []) (.arr (([] : List Str).map .str)) :=
      readsAs_array fun s hs => absurd hs List.not_mem_nil
    exact ⟨rfl, hreads⟩
  · apply HandBuilt.encodedEntry_neat hlib.isBase64
    rintro s hs rfl
    exact hnil hs

/-- A list in its member. Kind: D -/
def arrayMember (encoder : Str → Str) (head : Head) (items : List Str) (after : Str) : Member :=
  ⟨head, LocalDescription.encodedArray encoder items,
    .arr ((HandBuilt.encodings encoder items).map .str), after⟩

/-- A list without a gap is a value there. Kind: L -/
theorem arrayMember_neat (hlib : Libb64 encoder decoder) {head : Head} (hhead : head.Neat)
    {items : List Str} (h : ¬Gappy items) {after : Str} (hafter : white after = true) :
    (arrayMember encoder head items after).Neat := by
  obtain ⟨hascii, hreads⟩ := readsAs_of_not_gappy hlib h
  exact ⟨hhead, utf8_of_ascii hascii, hreads, hafter⟩

/-- Any list is a value there, or none. Kind: L -/
theorem arrayMember_neat_or (hlib : Libb64 encoder decoder) {head : Head} (hhead : head.Neat)
    (items : List Str) {after : Str} (hafter : white after = true) :
    (arrayMember encoder head items after).Neat ∨
      Unreadable (arrayMember encoder head items after).text := by
  by_cases hgap : Gappy items
  · exact Or.inr (unreadable_of_gappy hlib hgap)
  · exact Or.inl (arrayMember_neat hlib hhead hgap hafter)

/-! ## A description and its own text -/

namespace FullDescription

/-- The members of the text. Kind: D -/
def jsonMembers (encoder : Str → Str) (d : FullDescription) : List Member :=
  [⟨⟨[], str "UUID", str ":"⟩, quoted d.UUID, .str d.UUID, []⟩,
   arrayMember encoder ⟨[], str "descriptions", str ":"⟩ d.descriptions [],
   arrayMember encoder ⟨[], str "candidates", str ":"⟩ d.candidates []]

/-- The text is that of its members. Kind: L -/
theorem toJson_eq (encoder : Str → Str) (d : FullDescription) :
    d.toJson encoder = objectText ((d.jsonMembers encoder).map Member.written) := by
  simp only [toJson, appendArray, jsonMembers, objectText, List.map_cons, List.map_nil,
    List.intercalate_cons_cons, List.intercalate_singleton, Member.written, Head.text, arrayMember,
    quoted, List.append_assoc, List.cons_append, List.nil_append, List.append_nil]
  rfl

/-- What is made of a text that has the three members. Kind: L -/
theorem ofJson_eq {text UUID : Str} (hUUID : (0 : UInt8) ∉ UUID) {vs ws : List Json}
    (h : parse text = some (.obj [(str "UUID", .str UUID), (str "descriptions", .arr vs),
      (str "candidates", .arr ws)])) :
    ofJson decoder text = do
      let descriptions ← decodedItems decoder vs
      let candidates ← decodedItems decoder ws
      return ⟨⟨descriptions, candidates⟩, UUID⟩ := by
  have huuid : uuidOf (.obj [(str "UUID", .str UUID), (str "descriptions", .arr vs),
      (str "candidates", .arr ws)]) = .ok UUID := by
    have hcstr : Except.ok (ε := Fault) (cstr UUID) = .ok UUID := by
      rw [cstr_of_zero_not_mem hUUID]
    exact hcstr
  rw [ofJson, h]
  simp only [huuid]
  rfl

/-- A description of two lists that are decoded. Kind: L -/
theorem both_decoded_iff {vs ws : List Json} {UUID : Str} {d : FullDescription}
    (hUUID : d.UUID = UUID) : (do
      let descriptions ← decodedItems decoder vs
      let candidates ← decodedItems decoder ws
      return (⟨⟨descriptions, candidates⟩, UUID⟩ : FullDescription)) = .ok d ↔
        decodedItems decoder vs = .ok d.descriptions ∧ decodedItems decoder ws = .ok d.candidates := by
  constructor
  · intro h
    cases hvs : decodedItems decoder vs with
    | error e =>
        rw [hvs] at h
        cases h
    | ok descriptions =>
        cases hws : decodedItems decoder ws with
        | error e =>
            rw [hvs, hws] at h
            cases h
        | ok candidates =>
            rw [hvs, hws] at h
            have hd : (⟨⟨descriptions, candidates⟩, UUID⟩ : FullDescription) = d := Except.ok.inj h
            rw [← hd]
            exact ⟨rfl, rfl⟩
  · rintro ⟨hvs, hws⟩
    rw [hvs, hws, ← hUUID]
    rfl

/-- A UUID has no NUL. Kind: L -/
theorem zero_not_mem_generateUUID (random : Fin 16 → UInt8) : (0 : UInt8) ∉ generateUUID random := by
  intro h
  have hplain := List.all_eq_true.mp (HandBuilt.quotable_generateUUID random).1 0 h
  exact absurd hplain (by decide)

/-- A UUID is not empty. Kind: L -/
theorem generateUUID_ne_nil (random : Fin 16 → UInt8) : generateUUID random ≠ [] := by
  rw [generateUUID, Ne, List.flatMap_eq_nil_iff]
  intro h
  exact absurd (h 0 (List.mem_finRange 0)) (by simp)

/-- The UUID in its member. Kind: L -/
theorem uuidMember_neat {head : Head} (hhead : head.Neat) {UUID : Str}
    (hUUID : HandBuilt.Quotable UUID) : (⟨head, quoted UUID, .str UUID, []⟩ : Member).Neat :=
  ⟨hhead, utf8_of_ascii (ascii_quoted hUUID.2), readsAs_quoted hUUID.1, rfl⟩

/-- The text with a gap in a list is no JSON text. Kind: L -/
theorem parse_toJson_of_gappy (hlib : Libb64 encoder decoder) {d : FullDescription}
    (hUUID : HandBuilt.Quotable d.UUID) (hgap : Gappy d.descriptions ∨ Gappy d.candidates) :
    parse (d.toJson encoder) = none := by
  rw [toJson_eq]
  apply parse_none_of_unreadable
  · simp only [jsonMembers, List.forall_mem_cons]
    exact ⟨⟨by decide, Or.inl (uuidMember_neat (by decide) hUUID)⟩,
      ⟨by simp only [arrayMember]; decide, arrayMember_neat_or hlib (by decide) _ rfl⟩,
      ⟨by simp only [arrayMember]; decide, arrayMember_neat_or hlib (by decide) _ rfl⟩,
      fun m hm => absurd hm List.not_mem_nil⟩
  · rcases hgap with hgap | hgap
    · exact ⟨_, List.mem_cons_of_mem _ List.mem_cons_self, unreadable_of_gappy hlib hgap⟩
    · exact ⟨_, List.mem_cons_of_mem _ (List.mem_cons_of_mem _ List.mem_cons_self),
        unreadable_of_gappy hlib hgap⟩

/-- Any other is the object of the UUID and the texts of the lists. Kind: L -/
theorem parse_toJson (hlib : Libb64 encoder decoder) {d : FullDescription}
    (hUUID : HandBuilt.Quotable d.UUID) (hdescriptions : ¬Gappy d.descriptions)
    (hcandidates : ¬Gappy d.candidates) :
    parse (d.toJson encoder) = some (.obj [(str "UUID", .str d.UUID),
      (str "descriptions", .arr ((HandBuilt.encodings encoder d.descriptions).map .str)),
      (str "candidates", .arr ((HandBuilt.encodings encoder d.candidates).map .str))]) := by
  rw [toJson_eq, parse_written]
  · rfl
  · simp only [jsonMembers, List.forall_mem_cons]
    exact ⟨uuidMember_neat (by decide) hUUID, arrayMember_neat hlib (by decide) hdescriptions rfl,
      arrayMember_neat hlib (by decide) hcandidates rfl, fun m hm => absurd hm List.not_mem_nil⟩

/-- **A description is restored from its text iff its items are not empty and their sizes fit an
`int`.** Kind: P -/
theorem restored_iff (hlib : Libb64 encoder decoder) {d : FullDescription}
    {random : Fin 16 → UInt8} (hUUID : d.UUID = generateUUID random) :
    d.Restored encoder decoder ↔ ∀ s ∈ d.descriptions ++ d.candidates, Carried s := by
  have hquotable : HandBuilt.Quotable d.UUID := by
    rw [hUUID]
    exact HandBuilt.quotable_generateUUID random
  have hzero : (0 : UInt8) ∉ d.UUID := by
    rw [hUUID]
    exact zero_not_mem_generateUUID random
  rw [Restored, List.forall_mem_append]
  by_cases hgap : Gappy d.descriptions ∨ Gappy d.candidates
  · rw [ofJson, parse_toJson_of_gappy hlib hquotable hgap]
    constructor
    · intro h
      have hempty : d.UUID = [] := congrArg FullDescription.UUID (Except.ok.inj h).symm
      exact absurd (hUUID.symm.trans hempty) (generateUUID_ne_nil random)
    · rintro ⟨hdescriptions, hcandidates⟩
      rcases hgap with hgap | hgap
      · exact absurd hgap (not_gappy_of_carried hdescriptions)
      · exact absurd hgap (not_gappy_of_carried hcandidates)
  · obtain ⟨hdescriptions, hcandidates⟩ := not_or.mp hgap
    rw [ofJson_eq hzero (parse_toJson hlib hquotable hdescriptions hcandidates),
      both_decoded_iff rfl, decodedItems_encodings hlib, decodedItems_encodings hlib]

end FullDescription

/-! ## A description in other objects -/

namespace Slot

/-- The member that a slot is filled with. Kind: D -/
def member (encoder : Str → Str) (d : FullDescription) : Slot → Member
  | other m => m
  | fragment f before after => arrayMember encoder ⟨before, f.key, str " :"⟩ (f.items d) after

/-- The text there is the member's. Kind: L -/
theorem text_eq (encoder : Str → Str) (d : FullDescription) (slot : Slot) :
    slot.text encoder d = (slot.member encoder d).written := by
  cases slot with
  | other m => rfl
  | fragment f before after =>
      have hfragment : f.text encoder d =
          quote :: (f.key ++ quote :: (str " :" ++
            LocalDescription.encodedArray encoder (f.items d))) := by
        cases f with
        | descriptions => rfl
        | candidates => rfl
      simp only [text, member, arrayMember, Member.written, Head.text, hfragment, List.append_assoc,
        List.cons_append]

/-- The name there is the member's. Kind: L -/
theorem key_eq (encoder : Str → Str) (d : FullDescription) (slot : Slot) :
    (slot.member encoder d).head.key = slot.key := by
  cases slot with
  | other m => rfl
  | fragment f before after => rfl

/-- The name and what is around it make a head. Kind: L -/
theorem head_neat {slot : Slot} (h : slot.Neat) (encoder : Str → Str) (d : FullDescription) :
    (slot.member encoder d).head.Neat := by
  cases slot with
  | other m => exact h.head
  | fragment f before after =>
      have hkey : plain f.key = true ∧ ascii f.key = true := by
        cases f with
        | descriptions => decide
        | candidates => decide
      have hcolon : (skip (str " :")).head? = some 0x3A ∧ white (skip (str " :")).tail = true := by
        decide
      exact ⟨h.1, hkey.1, hkey.2, hcolon.1, hcolon.2⟩

/-- A list without a gap is a value there. Kind: L -/
theorem member_neat (hlib : Libb64 encoder decoder) {slot : Slot} (h : slot.Neat)
    {d : FullDescription} (hgap : ¬Gappy (slot.items d)) : (slot.member encoder d).Neat := by
  cases slot with
  | other m => exact h
  | fragment f before after =>
      have hneat : (fragment f before after).Neat := h
      exact arrayMember_neat hlib (head_neat hneat encoder d) hgap h.2

/-- A list with a gap is none. Kind: L -/
theorem member_unreadable (hlib : Libb64 encoder decoder) {slot : Slot} {d : FullDescription}
    (hgap : Gappy (slot.items d)) : Unreadable (slot.member encoder d).text := by
  cases slot with
  | other m => exact absurd hgap.1 List.not_mem_nil
  | fragment f before after => exact unreadable_of_gappy hlib hgap

/-- The list is found where its texts are. Kind: L -/
theorem found_iff (hlib : Libb64 encoder decoder) {slot : Slot} {d : FullDescription}
    {ms : List (Str × Json)} (h : find? ms slot.key = some (slot.member encoder d).json) :
    slot.Found decoder d ms ↔ ∀ s ∈ slot.items d, Carried s := by
  cases slot with
  | other m => exact ⟨fun _ s hs => absurd hs List.not_mem_nil, fun _ => trivial⟩
  | fragment f before after =>
      refine Iff.trans ?_ (FullDescription.decodedItems_encodings hlib (f.items d))
      constructor
      · rintro ⟨vs, hvs, hdecoded⟩
        obtain rfl := Json.arr.inj (Option.some.inj (hvs.symm.trans h))
        exact hdecoded
      · intro hdecoded
        exact ⟨_, h, hdecoded⟩

end Slot

namespace Placement

/-- **The lists are found where they are placed iff their items are not empty and their sizes fit an
`int`.** Kind: P -/
theorem found_iff (hlib : Libb64 encoder decoder) (p : Placement) (d : FullDescription) :
    p.Found encoder decoder d ↔ ∀ slot ∈ p.slots, ∀ s ∈ slot.items d, Carried s := by
  have htext : p.text encoder d =
      objectText ((p.slots.map (Slot.member encoder d)).map Member.written) := by
    rw [text, List.map_map]
    exact congrArg objectText (List.map_congr_left fun slot _ => slot.text_eq encoder d)
  by_cases hgap : ∃ slot ∈ p.slots, Gappy (slot.items d)
  · obtain ⟨slot, hslot, hgappy⟩ := hgap
    have hnone : parse (p.text encoder d) = none := by
      rw [htext]
      apply parse_none_of_unreadable
      · intro m hm
        obtain ⟨slot', hslot', rfl⟩ := List.mem_map.mp hm
        refine ⟨Slot.head_neat (p.neat slot' hslot') encoder d, ?_⟩
        by_cases hgappy' : Gappy (slot'.items d)
        · exact Or.inr (Slot.member_unreadable hlib hgappy')
        · exact Or.inl (Slot.member_neat hlib (p.neat slot' hslot') hgappy')
      · exact ⟨_, List.mem_map_of_mem hslot, Slot.member_unreadable hlib hgappy⟩
    constructor
    · rintro ⟨ms, hparse, -⟩
      rw [hnone] at hparse
      exact absurd hparse (by simp)
    · intro h
      exact absurd hgappy (not_gappy_of_carried (h slot hslot))
  · have hparse : parse (p.text encoder d) =
        some (.obj ((p.slots.map (Slot.member encoder d)).map Member.entry)) := by
      rw [htext]
      apply parse_written
      intro m hm
      obtain ⟨slot, hslot, rfl⟩ := List.mem_map.mp hm
      exact Slot.member_neat hlib (p.neat slot hslot) fun hgappy => hgap ⟨slot, hslot, hgappy⟩
    have hkeys : ((p.slots.map (Slot.member encoder d)).map fun m => m.head.key).Nodup := by
      have hmap : (p.slots.map (Slot.member encoder d)).map (fun m => m.head.key) =
          p.slots.map Slot.key := by
        rw [List.map_map]
        exact List.map_congr_left fun slot _ => slot.key_eq encoder d
      rw [hmap]
      exact p.keys
    have hfind : ∀ slot ∈ p.slots,
        find? ((p.slots.map (Slot.member encoder d)).map Member.entry) slot.key =
          some (slot.member encoder d).json := by
      intro slot hslot
      rw [← slot.key_eq encoder d]
      exact find?_of_mem hkeys (List.mem_map_of_mem hslot)
    constructor
    · rintro ⟨ms, hms, hfound⟩ slot hslot
      obtain rfl := Json.obj.inj (Option.some.inj (hms.symm.trans hparse))
      exact (Slot.found_iff hlib (hfind slot hslot)).mp (hfound slot hslot)
    · intro h
      exact ⟨_, hparse, fun slot hslot => (Slot.found_iff hlib (hfind slot hslot)).mpr (h slot hslot)⟩

end Placement

/-! ## Which descriptions survive -/

namespace FullDescription

/-- **A description survives iff its items are not empty and their sizes fit an `int`**, and of the
lists that are placed in an object the same is true. Kind: P -/
theorem carried_exactly (hlib : Libb64 encoder decoder) {d : FullDescription}
    {random : Fin 16 → UInt8} (hUUID : d.UUID = generateUUID random) :
    (d.Survives encoder decoder ↔ ∀ s ∈ d.descriptions ++ d.candidates, Carried s) ∧
      ∀ p : Placement, p.Found encoder decoder d ↔
        ∀ slot ∈ p.slots, ∀ s ∈ slot.items d, Carried s := by
  refine ⟨?_, fun p => p.found_iff hlib d⟩
  constructor
  · rintro ⟨hrestored, -⟩
    exact (restored_iff hlib hUUID).mp hrestored
  · intro h
    refine ⟨(restored_iff hlib hUUID).mpr h, fun p => (p.found_iff hlib d).mpr ?_⟩
    intro slot _ s hs
    cases slot with
    | other m => exact absurd hs List.not_mem_nil
    | fragment f before after =>
        cases f with
        | descriptions => exact h s (List.mem_append_left _ hs)
        | candidates => exact h s (List.mem_append_right _ hs)

/-- An encoder that writes lines of 72 characters. Kind: D -/
def encodeLines (s : Str) : Str := Base64.breakLines 72 72 (Base64.encode s)

/-- A decoder that gives nothing for what is no Base64 text. Kind: D -/
def decodeText (t : Str) : Str := (Base64.decode t).getD []

/-- They are such an encoder and such a decoder. Kind: L -/
theorem libb64_lines : Libb64 encodeLines decodeText where
  encodes s := Base64.filter_breakLines 72 72 (Base64.lineFeed_not_mem_encode s)
  decodes s t h := by rw [decodeText, h, Option.getD_some]

/-- A description and a candidate. Kind: L -/
theorem candidate_carried :
    Survives encodeLines decodeText
      ⟨⟨[str "v=0\r\n"], [str "candidate:1 1 UDP"]⟩, generateUUID fun _ => 0⟩ :=
  (carried_exactly libb64_lines rfl).1.mpr (by decide)

/-- Behind a description that is empty there is a comma too many. Kind: P -/
theorem empty_description_lost : Libb64 encodeLines decodeText ∧
    ¬Survives encodeLines decodeText
      ⟨⟨[str "v=0", []], [str "candidate:1 1 UDP"]⟩, generateUUID fun _ => 0⟩ := by
  refine ⟨libb64_lines, ?_⟩
  rintro ⟨hrestored, -⟩
  have hnone : (parse (toJson encodeLines
      ⟨⟨[str "v=0", []], [str "candidate:1 1 UDP"]⟩, generateUUID fun _ => 0⟩)).isNone = true := by
    decide +kernel
  rw [Restored, ofJson, Option.isNone_iff_eq_none.mp hnone] at hrestored
  have hempty := congrArg FullDescription.UUID (Except.ok.inj hrestored)
  exact generateUUID_ne_nil _ hempty.symm

end FullDescription

end CloudNode
