import CloudNode.Wire.Forms

/-!
# Decimal numbers and lists of strings in a JSON text

What a program writes into a form besides strings: numbers as `std::to_string` writes them, and
arrays of strings that need no escapes.

* `readsAs_decimal` — a number of 64 bits is read as itself.
* `readsAs_array` — an array of plain strings is read as itself.
-/

namespace CloudNode

/-- The decimal digits of a number. Source: `std::to_string`. Kind: D -/
def decimal (n : ℕ) : Str :=
  if n < 10 then [UInt8.ofNat (0x30 + n)] else decimal (n / 10) ++ [UInt8.ofNat (0x30 + n % 10)]
decreasing_by omega

namespace Json

/-! ## Digits -/

/-- A digit, and the number it stands for. Kind: L -/
theorem digit {d : ℕ} (hd : d < 10) : isDigit (UInt8.ofNat (0x30 + d)) = true ∧
    (UInt8.ofNat (0x30 + d)).toNat - 0x30 = d ∧ (UInt8.ofNat (0x30 + d) = 0x30 → d = 0) := by
  revert d
  decide

/-- Only digits are written. Kind: L -/
theorem isDigit_of_mem_decimal {n : ℕ} {c : UInt8} (hc : c ∈ decimal n) : isDigit c = true := by
  induction n using Nat.strong_induction_on with
  | h n ih =>
      rw [decimal] at hc
      by_cases hn : n < 10
      · rw [if_pos hn, List.mem_singleton] at hc
        rw [hc]
        exact (digit hn).1
      · rw [if_neg hn, List.mem_append, List.mem_singleton] at hc
        rcases hc with hc | rfl
        · exact ih (n / 10) (by omega) hc
        · exact (digit (Nat.mod_lt n (by omega))).1

/-- Something is written. Kind: L -/
theorem decimal_ne_nil (n : ℕ) : decimal n ≠ [] := by
  rw [decimal]
  split <;> simp

/-- One more digit. Kind: L -/
theorem natOf_append (digits : Str) (c : UInt8) :
    natOf (digits ++ [c]) = 10 * natOf digits + (c.toNat - 0x30) := by
  simp only [natOf, List.foldl_append, List.foldl_cons, List.foldl_nil]

/-- **The digits write the number.** Kind: P -/
theorem natOf_decimal (n : ℕ) : natOf (decimal n) = n := by
  induction n using Nat.strong_induction_on with
  | h n ih =>
      rw [decimal]
      by_cases hn : n < 10
      · rw [if_pos hn, ← List.nil_append [_], natOf_append, (digit hn).2.1]
        simp [natOf]
      · rw [if_neg hn, natOf_append, ih (n / 10) (by omega),
          (digit (Nat.mod_lt n (by omega))).2.1]
        omega

/-- No zero in front. Kind: L -/
theorem decimal_of_head {n : ℕ} (h : (decimal n).head? = some 0x30) : decimal n = [0x30] := by
  have hzero : n = 0 := by
    induction n using Nat.strong_induction_on with
    | h n ih =>
        rw [decimal] at h
        by_cases hn : n < 10
        · rw [if_pos hn, List.head?_cons, Option.some.injEq] at h
          exact (digit hn).2.2 h
        · rw [if_neg hn, List.head?_append_of_ne_nil _ (decimal_ne_nil _)] at h
          have := ih (n / 10) (by omega) h
          omega
  rw [hzero, decimal]
  rfl

/-! ## What follows a number -/

/-- Where a value may end, no number goes on. Kind: L -/
theorem not_numeral_of_ends {c : UInt8} {T : Str} (h : ends (c :: T) = true) :
    isDigit c = false ∧ c ≠ 0x2E ∧ ¬(c = 0x65 ∨ c = 0x45) := by
  simp only [ends, isSpace, Bool.or_eq_true, decide_eq_true_eq] at h
  rcases h with (((((rfl | rfl) | rfl) | rfl) | rfl) | rfl) | rfl
  all_goals decide

/-- The digits end where the number does. Kind: L -/
theorem someDigits_decimal (n : ℕ) {T : Str} (hT : ends T = true) :
    someDigits (decimal n ++ T) = some (decimal n, T) := by
  have hdigits : ∀ c ∈ decimal n, isDigit c = true := fun c hc => isDigit_of_mem_decimal hc
  have hstop : T.takeWhile isDigit = [] ∧ T.dropWhile isDigit = T := by
    cases T with
    | nil => exact ⟨rfl, rfl⟩
    | cons c T =>
        have hc := (not_numeral_of_ends hT).1
        rw [List.takeWhile_cons, List.dropWhile_cons, if_neg (by simp [hc]), if_neg (by simp [hc])]
        exact ⟨rfl, rfl⟩
  rw [someDigits, List.takeWhile_append_of_pos hdigits, List.dropWhile_append_of_pos hdigits,
    hstop.1, hstop.2, List.append_nil, if_neg (by simpa using decimal_ne_nil n)]

/-- Behind a number that ends there is neither a fraction nor an exponent. Kind: L -/
theorem no_fraction {T : Str} (hT : ends T = true) :
    fraction T = some (false, T) ∧ exponent T = some (false, T) := by
  cases T with
  | nil => exact ⟨rfl, rfl⟩
  | cons c T =>
      obtain ⟨-, hpoint, hletter⟩ := not_numeral_of_ends hT
      exact ⟨if_neg hpoint, if_neg hletter⟩

/-- A number of 64 bits, behind no minus. Kind: L -/
theorem unsigned_decimal {n : ℕ} (hn : n < 2 ^ 64) {T : Str} (hT : ends T = true) :
    unsigned false (decimal n ++ T) = some (int n, T) := by
  have hlead : ¬((decimal n).head? = some 0x30 ∧ decimal n ≠ [0x30]) :=
    fun h => h.2 (decimal_of_head h.1)
  have hrange : ¬(false = true ∨ false = true ∨ ¬(-2 ^ 63 ≤ (n : ℤ) ∧ (n : ℤ) < 2 ^ 64)) := by
    simp only [Bool.false_eq_true, false_or, not_not]
    omega
  obtain ⟨hfraction, hexponent⟩ := no_fraction hT
  simp only [unsigned, someDigits_decimal n hT, if_neg hlead, hfraction, hexponent,
    natOf_decimal, Bool.false_eq_true, if_false]
  rw [if_neg (by simpa using hrange)]

/-- A text that starts with a digit is a number. Kind: L -/
theorem value_of_isDigit {c : UInt8} (hc : isDigit c = true) (n : ℕ) (t : Str) :
    value (n + 1) (skip (c :: t)) = unsigned false (c :: t) := by
  have hne : ∀ b, isDigit b = false → c ≠ b := by
    rintro b hb rfl
    rw [hc] at hb
    exact absurd hb (by simp)
  have hbehind : ∀ b word, isDigit b = false → behind (b :: word) (c :: t) = none := by
    intro b word hb
    rw [behind, if_neg]
    intro hstart
    exact hne b hb (List.cons_prefix_cons.mp hstart).1.symm
  have hspace : isSpace c = false := by
    simp only [isSpace, hne 0x20 (by decide), hne 0x09 (by decide), hne 0x0A (by decide),
      hne 0x0D (by decide), decide_false, Bool.or_false]
  rw [skip_cons hspace, value, if_neg (hne _ (by decide)), if_neg (hne _ (by decide)),
    if_neg (hne _ (by decide)), scalar]
  simp only [show behind (CloudNode.str "null") (c :: t) = none from hbehind _ _ (by decide),
    show behind (CloudNode.str "true") (c :: t) = none from hbehind _ _ (by decide),
    show behind (CloudNode.str "false") (c :: t) = none from hbehind _ _ (by decide)]
  rw [number, if_neg (hne _ (by decide))]

/-- **A number of 64 bits is read as itself.** Kind: P -/
theorem readsAs_decimal {n : ℕ} (hn : n < 2 ^ 64) : ReadsAs (decimal n) (int n) := by
  intro fuel T hfuel hT
  obtain ⟨fuel, rfl⟩ : ∃ m, fuel = m + 1 := ⟨fuel - 1, by omega⟩
  obtain ⟨c, t, hct⟩ := List.exists_cons_of_ne_nil (decimal_ne_nil n)
  have hdigit : isDigit c = true := isDigit_of_mem_decimal (n := n) (by rw [hct]; simp)
  have hnumber := unsigned_decimal hn hT
  rw [hct, List.cons_append] at hnumber ⊢
  rw [value_of_isDigit hdigit, hnumber]

/-- A number is ASCII. Kind: L -/
theorem ascii_decimal (n : ℕ) : ascii (decimal n) = true := by
  rw [ascii, List.all_eq_true]
  intro c hc
  have hdigit := isDigit_of_mem_decimal hc
  simp only [isDigit, Bool.and_eq_true, decide_eq_true_eq] at hdigit
  exact decide_eq_true (UInt8.lt_of_le_of_lt hdigit.2 (by decide))

/-! ## Arrays of strings -/

/-- A string between quotation marks. Kind: D -/
def quoted (s : Str) : Str := quote :: (s ++ [quote])

/-- An array of strings, as it is written without escapes. Kind: D -/
def array (items : List Str) : Str := 0x5B :: ([0x2C].intercalate (items.map quoted) ++ [0x5D])

/-- A last element that is a plain string. Kind: L -/
theorem elements_quoted_last {s : Str} (hs : plain s = true) (n : ℕ) (T : Str) :
    elements (n + 2) (quoted s ++ 0x5D :: T) = some ([.str s], T) := by
  have hvalue : value (n + 1) (skip (quoted s ++ 0x5D :: T)) = some (.str s, 0x5D :: T) :=
    value_of_plain hs n _
  have hne : (0x5D : UInt8) ≠ 0x2C := by decide
  rw [elements]
  simp only [hvalue, skip_cons (show isSpace 0x5D = false by decide), if_neg hne, if_true]

/-- An element that is a plain string, and others. Kind: L -/
theorem elements_quoted_cons {s : Str} (hs : plain s = true) (n : ℕ) (X : Str) :
    elements (n + 2) (quoted s ++ 0x2C :: X) =
      (elements (n + 1) X).map fun out => (.str s :: out.1, out.2) := by
  have hvalue : value (n + 1) (skip (quoted s ++ 0x2C :: X)) = some (.str s, 0x2C :: X) :=
    value_of_plain hs n _
  rw [elements]
  simp only [hvalue, skip_cons (show isSpace 0x2C = false by decide), if_true]

/-- The elements of an array of plain strings. Kind: L -/
theorem elements_array {items : List Str} {s : Str} (h : ∀ x ∈ s :: items, plain x = true) {n : ℕ}
    (hn : ([0x2C].intercalate ((s :: items).map quoted)).length < n) (T : Str) :
    elements n ([0x2C].intercalate ((s :: items).map quoted) ++ 0x5D :: T) =
      some ((s :: items).map .str, T) := by
  have hs : plain s = true := h s (by simp)
  have hquoted : 2 ≤ (quoted s).length := by simp [quoted]
  induction items generalizing s n with
  | nil =>
      rw [List.map_cons, List.map_nil, List.intercalate_singleton] at hn ⊢
      obtain ⟨n, rfl⟩ : ∃ m, n = m + 2 := ⟨n - 2, by omega⟩
      exact elements_quoted_last hs n T
  | cons s' items ih =>
      rw [List.map_cons, List.map_cons, List.intercalate_cons_cons, List.append_assoc,
        List.length_append, List.length_append, List.length_singleton] at hn
      obtain ⟨n, rfl⟩ : ∃ m, n = m + 2 := ⟨n - 2, by omega⟩
      rw [List.map_cons, List.map_cons, List.intercalate_cons_cons, List.append_assoc,
        List.append_assoc, List.singleton_append, elements_quoted_cons hs, ← List.map_cons]
      have hrest := ih (n := n + 1) (fun x hx => h x (List.mem_cons_of_mem _ hx))
        (by rw [List.map_cons]; omega) (h s' (by simp)) (by simp [quoted])
      rw [hrest]
      rfl

/-- **An array of plain strings is read as itself.** Kind: P -/
theorem readsAs_array {items : List Str} (h : ∀ s ∈ items, plain s = true) :
    ReadsAs (array items) (arr (items.map .str)) := by
  intro n T hn hT
  obtain ⟨n, rfl⟩ : ∃ m, n = m + 1 := ⟨n - 1, by omega⟩
  have hbracket : (0x5B : UInt8) ≠ 0x7B := by decide
  rw [array, List.cons_append, List.append_assoc, List.singleton_append, skip_cons (by decide), value,
    if_neg hbracket, if_pos rfl]
  cases items with
  | nil =>
      rw [List.map_nil, List.intercalate_nil, List.nil_append, skip_cons (by decide)]
      rfl
  | cons s items =>
      have hlength : ([0x2C].intercalate ((s :: items).map quoted)).length < n := by
        simp only [array, List.length_cons, List.length_append] at hn
        omega
      have helements := elements_array h hlength T
      obtain ⟨t, ht⟩ : ∃ t, [0x2C].intercalate ((s :: items).map quoted) ++ 0x5D :: T = quote :: t := by
        cases items with
        | nil => exact ⟨_, by rw [List.map_cons, List.map_nil, List.intercalate_singleton]; rfl⟩
        | cons s' items =>
            exact ⟨_, by rw [List.map_cons, List.map_cons, List.intercalate_cons_cons]; rfl⟩
      have hne : quote ≠ 0x5D := by decide
      rw [ht] at helements ⊢
      rw [skip_quote]
      simp only [if_neg hne, helements]
      rfl

/-- An array of ASCII strings is ASCII. Kind: L -/
theorem ascii_array {items : List Str} (h : ∀ s ∈ items, ascii s = true) :
    ascii (array items) = true := by
  have hquoted : ∀ s, ascii s = true → ascii (quoted s) = true := by
    intro s hs
    rw [quoted, ← List.singleton_append, ascii_append, ascii_append, hs]
    rfl
  have helements : ascii ([0x2C].intercalate (items.map quoted)) = true := by
    induction items with
    | nil => rfl
    | cons s items ih =>
        have hs := hquoted s (h s (by simp))
        have hitems := ih fun x hx => h x (List.mem_cons_of_mem _ hx)
        cases items with
        | nil =>
            rw [List.map_cons, List.map_nil, List.intercalate_singleton]
            exact hs
        | cons s' items =>
            rw [List.map_cons, List.map_cons, List.intercalate_cons_cons, ← List.map_cons,
              ascii_append, ascii_append, hs, hitems]
            rfl
  rw [array, ← List.singleton_append, ascii_append, ascii_append, helements]
  rfl

end Json

end CloudNode
