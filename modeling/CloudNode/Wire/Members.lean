import CloudNode.Wire.Numerals

/-!
# JSON objects written member by member

An object that is put together from texts: a text for each member's value, which may be any JSON
text or, where the program that wrote it went wrong, none.

* `parse_written` — texts of values make the object of these values.
* `parse_none_of_unreadable` — a single text that is no value makes the whole object none.
* `unreadable_array` — a list of strings in which nothing was written for one of them is no value.
-/

namespace CloudNode

namespace Json

/-! ## Members -/

/-- A member as it is written: the text of its value, with the value that is meant, and the white
space behind it. Kind: D -/
structure Member where
  head : Head
  text : Str
  json : Json
  after : Str

namespace Member

/-- The text of a member. Kind: D -/
def written (m : Member) : Str := m.head.text ++ (m.text ++ m.after)

/-- A member is its name and its value. Kind: D -/
def entry (m : Member) : Str × Json := (m.head.key, m.json)

/-- The text of the value is one. Kind: D -/
structure Neat (m : Member) : Prop where
  head : m.head.Neat
  utf8 : utf8 m.text = true
  reads : ReadsAs m.text m.json
  after : white m.after = true

end Member

/-- The text of an object, of the texts of its members. Kind: D -/
def objectText (members : List Str) : Str := 0x7B :: ([0x2C].intercalate members ++ [0x7D])

/-- A text that is never read as a value, whatever stands behind it. Kind: D -/
def Unreadable (t : Str) : Prop := ∀ n T, value n (skip (t ++ T)) = none

/-- What is between commas and a closing character: a last text, or one with others behind.
Kind: L -/
theorem intercalate_cons_append (s : Str) (rest : List Str) (c : UInt8) (T : Str) :
    ∃ d X, (d = c ∨ d = 0x2C) ∧ [0x2C].intercalate (s :: rest) ++ c :: T = s ++ d :: X := by
  cases rest with
  | nil => exact ⟨c, T, Or.inl rfl, by rw [List.intercalate_singleton]⟩
  | cons s' rest =>
      refine ⟨0x2C, [0x2C].intercalate (s' :: rest) ++ c :: T, Or.inr rfl, ?_⟩
      rw [List.intercalate_cons_cons, List.append_assoc, List.append_assoc, List.singleton_append]

/-! ## Texts of values make an object -/

variable {m : Member} {ms : List Member}

/-- A value in its member. Kind: L -/
theorem members_written_append (hm : m.Neat) {n : ℕ} (hn : m.written.length ≤ n) {c : UInt8}
    {X : Str} (hc : ends (c :: X) = true) :
    members (n + 1) (m.written ++ c :: X) =
      (more n (m.after ++ c :: X)).map fun out => (m.entry :: out.1, out.2) := by
  have hlength : m.text.length < n := by
    simp only [Member.written, Head.text, List.length_append, List.length_cons] at hn
    omega
  have hvalue := hm.reads n (m.after ++ c :: X) hlength (ends_white_cons hm.after hc)
  rw [Member.written, List.append_assoc, List.append_assoc, members_head hm.head, hvalue]
  rfl

/-- **The members are read as they are meant.** By induction on the members behind the first.
Kind: P -/
theorem members_written (h : ∀ x ∈ m :: ms, x.Neat) {n : ℕ}
    (hn : ([0x2C].intercalate ((m :: ms).map Member.written)).length < n) (T : Str) :
    members n ([0x2C].intercalate ((m :: ms).map Member.written) ++ 0x7D :: T) =
      some ((m :: ms).map Member.entry, T) := by
  obtain ⟨n, rfl⟩ : ∃ k, n = k + 1 := ⟨n - 1, by omega⟩
  have hm := h m List.mem_cons_self
  induction ms generalizing m n with
  | nil =>
      rw [List.map_cons, List.map_nil, List.intercalate_singleton] at hn ⊢
      rw [members_written_append hm (by omega) (by rfl), more_last hm.after]
      rfl
  | cons m' ms ih =>
      rw [List.map_cons, List.map_cons, List.intercalate_cons_cons, List.append_assoc,
        List.length_append, List.length_append, List.length_singleton, ← List.map_cons] at hn
      have hpos : 0 < m.written.length := by
        simp only [Member.written, Head.text, List.length_append, List.length_cons]
        omega
      obtain ⟨n, rfl⟩ : ∃ k, n = k + 1 := ⟨n - 1, by omega⟩
      have hrest := ih (fun x hx => h x (List.mem_cons_of_mem _ hx)) n (by omega)
        (h m' (List.mem_cons_of_mem _ List.mem_cons_self))
      rw [List.map_cons, List.map_cons, List.intercalate_cons_cons, List.append_assoc,
        List.append_assoc, List.singleton_append, ← List.map_cons,
        members_written_append hm (by omega) (by rfl), more_cons hm.after, hrest]
      rfl

/-- ASCII is UTF-8. Kind: L -/
theorem utf8_of_ascii {t : Str} (ht : ascii t = true) : utf8 t = true := by
  rw [← List.append_nil t, utf8_ascii_append ht]
  rfl

/-- White space behind a text does not matter to its encoding. Kind: L -/
theorem utf8_append_white (t : Str) {w : Str} (hw : white w = true) : utf8 (t ++ w) = utf8 t := by
  cases w with
  | nil => rw [List.append_nil]
  | cons c w =>
      have hascii := ascii_of_white hw
      simp only [ascii, List.all_cons, Bool.and_eq_true, decide_eq_true_eq] at hascii
      rw [utf8_append_cons hascii.1, utf8_of_ascii hascii.2, Bool.and_true]

/-- The members are UTF-8. Kind: L -/
theorem utf8_members (h : ∀ x ∈ ms, x.Neat) {T : Str} (hT : utf8 T = true) :
    utf8 ([0x2C].intercalate (ms.map Member.written) ++ 0x7D :: T) = true := by
  have hwritten : ∀ {x : Member}, x.Neat → ∀ {c : UInt8} {X : Str}, c < 0x80 → utf8 X = true →
      utf8 (x.written ++ c :: X) = true := by
    intro x hx c X hc hX
    rw [Member.written, List.append_assoc, utf8_head hx.head, utf8_append_cons hc,
      utf8_append_white _ hx.after, hx.utf8, hX]
    rfl
  induction ms with
  | nil => rw [List.map_nil, List.intercalate_nil, List.nil_append, utf8_ascii_cons (by decide), hT]
  | cons x ms ih =>
      have hx := h x List.mem_cons_self
      have hrest := ih fun y hy => h y (List.mem_cons_of_mem _ hy)
      cases ms with
      | nil =>
          rw [List.map_cons, List.map_nil, List.intercalate_singleton]
          exact hwritten hx (by decide) hT
      | cons x' ms =>
          rw [List.map_cons, List.map_cons, List.intercalate_cons_cons, List.append_assoc,
            List.append_assoc, List.singleton_append, ← List.map_cons]
          exact hwritten hx (by decide) hrest

/-- Behind the brace of an object there is a name. Kind: L -/
theorem skip_members (hm : m.head.Neat) (ms : List Member) (T : Str) :
    ∃ t, skip ([0x2C].intercalate ((m :: ms).map Member.written) ++ 0x7D :: T) = quote :: t := by
  obtain ⟨c, X, -, htext⟩ := intercalate_cons_append m.written (ms.map Member.written) 0x7D T
  rw [List.map_cons, htext]
  simp only [Member.written, Head.text, List.append_assoc, List.cons_append]
  exact ⟨_, skip_white_cons hm.before (by decide) _⟩

/-- An object is its members. Kind: L -/
theorem value_objectText (hm : m.head.Neat) (n : ℕ) :
    value (n + 1) (skip (objectText ((m :: ms).map Member.written))) =
      (members n ([0x2C].intercalate ((m :: ms).map Member.written) ++ [0x7D])).map
        fun out => (obj out.1, out.2) := by
  obtain ⟨t, ht⟩ := skip_members hm ms []
  have hne : quote ≠ 0x7D := by decide
  rw [objectText, skip_brace, value, if_pos rfl, ht]
  simp only [if_neg hne]
  rw [← ht, members_skip]

/-- **Texts of values make the object of these values.** Kind: P -/
theorem parse_written (h : ∀ x ∈ ms, x.Neat) :
    parse (objectText (ms.map Member.written)) = some (obj (ms.map Member.entry)) := by
  have hutf8 : utf8 (objectText (ms.map Member.written)) = true := by
    rw [objectText, utf8_brace_cons]
    exact utf8_members h (by rfl)
  cases ms with
  | nil => rfl
  | cons m ms =>
      have hmembers := members_written h (n := (objectText ((m :: ms).map Member.written)).length)
        (by rw [objectText, List.length_cons, List.length_append]; omega) []
      rw [parse, if_pos hutf8, value_objectText (h m List.mem_cons_self).head, hmembers]
      rfl

/-- The value of a member that no other has the name of. Kind: L -/
theorem find?_of_mem (hkeys : (ms.map fun x => x.head.key).Nodup) (hm : m ∈ ms) :
    find? (ms.map Member.entry) m.head.key = some m.json := by
  induction ms with
  | nil => exact absurd hm List.not_mem_nil
  | cons x ms ih =>
      obtain ⟨hx, hkeys⟩ := List.nodup_cons.mp hkeys
      rw [List.map_cons, Member.entry, find?]
      rcases List.mem_cons.mp hm with rfl | hm
      · exact if_pos rfl
      · have hne : x.head.key ≠ m.head.key := fun heq =>
          hx (List.mem_map.mpr ⟨m, hm, heq.symm⟩)
        rw [if_neg hne]
        exact ih hkeys hm

/-- A plain string in quotes is a value. Kind: L -/
theorem readsAs_quoted {s : Str} (hs : plain s = true) : ReadsAs (quoted s) (.str s) := by
  intro n T hn _
  obtain ⟨n, rfl⟩ : ∃ k, n = k + 1 := ⟨n - 1, by omega⟩
  exact value_of_plain hs n T

/-- An ASCII string in quotes is ASCII. Kind: L -/
theorem ascii_quoted {s : Str} (hs : ascii s = true) : ascii (quoted s) = true := by
  rw [quoted, ← List.singleton_append, ascii_append, ascii_append, hs]
  rfl

/-! ## A text that is no value makes none -/

/-- The members up to a text that is no value. Kind: L -/
theorem members_none (h : ∀ x ∈ m :: ms, x.head.Neat ∧ (x.Neat ∨ Unreadable x.text))
    (hsome : ∃ x ∈ m :: ms, Unreadable x.text) {n : ℕ}
    (hn : ([0x2C].intercalate ((m :: ms).map Member.written)).length < n) (T : Str) :
    members n ([0x2C].intercalate ((m :: ms).map Member.written) ++ 0x7D :: T) = none := by
  obtain ⟨n, rfl⟩ : ∃ k, n = k + 1 := ⟨n - 1, by omega⟩
  have hunreadable : ∀ {m : Member} {n : ℕ} {X : Str}, m.head.Neat → Unreadable m.text →
      members (n + 1) (m.written ++ X) = none := by
    intro m n X hhead hm
    rw [Member.written, List.append_assoc, List.append_assoc, members_head hhead, hm]
  obtain ⟨hhead, hm⟩ := h m List.mem_cons_self
  induction ms generalizing m n with
  | nil =>
      obtain ⟨x, hx, hx'⟩ := hsome
      obtain rfl := List.mem_singleton.mp hx
      rw [List.map_cons, List.map_nil, List.intercalate_singleton]
      exact hunreadable hhead hx'
  | cons m' ms ih =>
      rw [List.map_cons, List.map_cons, List.intercalate_cons_cons, List.append_assoc,
        List.append_assoc, List.singleton_append, ← List.map_cons]
      rcases hm with hm | hm
      swap
      · exact hunreadable hhead hm
      rw [List.map_cons, List.map_cons, List.intercalate_cons_cons, List.append_assoc,
        List.length_append, List.length_append, List.length_singleton, ← List.map_cons] at hn
      have hpos : 0 < m.written.length := by
        simp only [Member.written, Head.text, List.length_append, List.length_cons]
        omega
      obtain ⟨n, rfl⟩ : ∃ k, n = k + 1 := ⟨n - 1, by omega⟩
      -- the first member is read as it is meant, so that the text that is no value is behind it
      have hsome' : ∃ x ∈ m' :: ms, Unreadable x.text := by
        obtain ⟨x, hx, hx'⟩ := hsome
        rcases List.mem_cons.mp hx with rfl | hx
        · have hread := hm.reads (x.text.length + 1) [] (Nat.lt_succ_self _) rfl
          rw [hx'] at hread
          exact absurd hread (by simp)
        · exact ⟨x, hx, hx'⟩
      obtain ⟨hhead', hm'⟩ := h m' (List.mem_cons_of_mem _ List.mem_cons_self)
      rw [members_written_append hm (by omega) (by rfl), more_cons hm.after,
        ih (fun x hx => h x (List.mem_cons_of_mem _ hx)) hsome' n (by omega) hhead' hm']
      rfl

/-- **A single text that is no value makes the whole object none.** Kind: P -/
theorem parse_none_of_unreadable (h : ∀ x ∈ ms, x.head.Neat ∧ (x.Neat ∨ Unreadable x.text))
    (hsome : ∃ x ∈ ms, Unreadable x.text) : parse (objectText (ms.map Member.written)) = none := by
  cases ms with
  | nil =>
      obtain ⟨x, hx, -⟩ := hsome
      exact absurd hx List.not_mem_nil
  | cons m ms =>
      have hmembers := members_none h hsome (n := (objectText ((m :: ms).map Member.written)).length)
        (by rw [objectText, List.length_cons, List.length_append]; omega) []
      rw [parse, value_objectText (h m List.mem_cons_self).1, hmembers]
      split
      · rfl
      · rfl

/-! ## Arrays in which nothing was written for an element -/

/-- No value starts with a comma or a closing bracket. Kind: L -/
theorem value_none {c : UInt8} (hc : c = 0x5D ∨ c = 0x2C) (n : ℕ) (t : Str) :
    value n (skip (c :: t)) = none := by
  cases n with
  | zero => rw [value]
  | succ n =>
      rcases hc with rfl | rfl
      · rfl
      · rfl

/-- What was written of the strings: between quotation marks, or nothing. Kind: D -/
def quotedOrNone : Option Str → Str
  | some s => quoted s
  | none => []

variable {items : List (Option Str)} {item : Option Str}

/-- The elements up to the one for which nothing was written. Kind: L -/
theorem elements_none (h : ∀ s, some s ∈ item :: items → plain s = true) (hnone : none ∈ item :: items)
    (n : ℕ) (T : Str) :
    elements n ([0x2C].intercalate ((item :: items).map quotedOrNone) ++ 0x5D :: T) = none := by
  induction items generalizing item n with
  | nil =>
      obtain rfl := List.mem_singleton.mp hnone
      rw [List.map_cons, List.map_nil, List.intercalate_singleton]
      cases n with
      | zero => rw [elements]
      | succ n =>
          rw [elements, quotedOrNone, List.nil_append, value_none (Or.inl rfl)]
  | cons item' items ih =>
      rw [List.map_cons, List.map_cons, List.intercalate_cons_cons, List.append_assoc,
        List.append_assoc, List.singleton_append, ← List.map_cons]
      cases item with
      | none =>
          cases n with
          | zero => rw [elements]
          | succ n => rw [elements, quotedOrNone, List.nil_append, value_none (Or.inr rfl)]
      | some s =>
          have hnone' : none ∈ item' :: items := by
            rcases List.mem_cons.mp hnone with h | h
            · exact absurd h (by simp)
            · exact h
          have hrest := ih (fun x hx => h x (List.mem_cons_of_mem _ hx)) hnone'
          cases n with
          | zero => rw [elements]
          | succ n =>
              cases n with
              | zero => rw [elements, value]
              | succ n =>
                  rw [quotedOrNone, elements_quoted_cons (h s List.mem_cons_self), hrest]
                  rfl

/-- **An array in which nothing was written for one of several elements is no value.** Kind: P -/
theorem unreadable_array (h : ∀ s, some s ∈ items → plain s = true) (hnone : none ∈ items)
    (hitems : items ≠ [none]) :
    Unreadable (0x5B :: ([0x2C].intercalate (items.map quotedOrNone) ++ [0x5D])) := by
  intro n T
  cases items with
  | nil => exact absurd hnone List.not_mem_nil
  | cons item items =>
      cases n with
      | zero => rw [value]
      | succ n =>
          have hbracket : (0x5B : UInt8) ≠ 0x7B := by decide
          have helements := elements_none h hnone n T
          obtain ⟨c, t, hc, ht⟩ : ∃ c t, (c = quote ∨ c = 0x2C) ∧
              [0x2C].intercalate ((item :: items).map quotedOrNone) ++ 0x5D :: T = c :: t := by
            cases item with
            | some s =>
                obtain ⟨d, X, -, htext⟩ :=
                  intercalate_cons_append (quotedOrNone (some s)) (items.map quotedOrNone) 0x5D T
                rw [List.map_cons, htext]
                exact ⟨quote, _, Or.inl rfl, rfl⟩
            | none =>
                cases items with
                | nil => exact absurd rfl hitems
                | cons item' items =>
                    rw [List.map_cons, List.map_cons, List.intercalate_cons_cons]
                    exact ⟨0x2C, _, Or.inr rfl, rfl⟩
          have hkept : isSpace c = false ∧ c ≠ 0x5D := by
            rcases hc with rfl | rfl
            · decide
            · decide
          rw [ht] at helements
          rw [List.cons_append, List.append_assoc, List.singleton_append, skip_cons (by decide), value,
            if_neg hbracket, if_pos rfl, ht, skip_cons hkept.1]
          simp only [if_neg hkept.2, helements]
          rfl

end Json

end CloudNode
