import CloudNode.Wire.Json

/-!
# JSON texts

RFC 8259 as a function from a text to its value, `none` for what is no JSON text. A text is UTF-8;
the strings in it are unescaped to the UTF-8 bytes of their characters, and an escape that is no
character (half a surrogate pair) makes the text none. Numbers are split as in `Json`.

The nesting is followed with fuel. `parse_of_value`: `parse` has enough of it, because each level,
member and element takes at least a character.
-/

namespace CloudNode

namespace Json

/-! ## UTF-8 -/

/-- A character's first byte: how many bytes follow, and between which bounds the next one is.
Source: RFC 3629, section 4
Kind: D -/
def lead (b : UInt8) : Option (ℕ × UInt8 × UInt8) :=
  if b < 0x80 then some (0, 0x80, 0xBF)
  else if b < 0xC2 then none
  else if b < 0xE0 then some (1, 0x80, 0xBF)
  else if b = 0xE0 then some (2, 0xA0, 0xBF)
  else if b = 0xED then some (2, 0x80, 0x9F)
  else if b < 0xF0 then some (2, 0x80, 0xBF)
  else if b = 0xF0 then some (3, 0x90, 0xBF)
  else if b < 0xF4 then some (3, 0x80, 0xBF)
  else if b = 0xF4 then some (3, 0x80, 0x8F)
  else none

/-- The bytes are what is left of a character that misses `owed` bytes, the next of them between
the bounds, and then characters. Kind: D -/
def utf8From : ℕ → UInt8 → UInt8 → Str → Bool
  | 0, _, _, [] => true
  | _ + 1, _, _, [] => false
  | 0, _, _, b :: t =>
    match lead b with
    | none => false
    | some (owed, low, high) => utf8From owed low high t
  | owed + 1, low, high, b :: t => decide (low ≤ b ∧ b ≤ high) && utf8From owed 0x80 0xBF t

/-- The bytes are UTF-8. Kind: D -/
def utf8 (t : Str) : Bool := utf8From 0 0x80 0xBF t

/-- The UTF-8 bytes of a code point. Kind: D -/
def encode (n : ℕ) : Str :=
  (if n < 0x80 then [n]
  else if n < 0x800 then [0xC0 + n / 0x40, 0x80 + n % 0x40]
  else if n < 0x10000 then [0xE0 + n / 0x1000, 0x80 + n / 0x40 % 0x40, 0x80 + n % 0x40]
  else [0xF0 + n / 0x40000, 0x80 + n / 0x1000 % 0x40, 0x80 + n / 0x40 % 0x40,
    0x80 + n % 0x40]).map UInt8.ofNat

/-! ## Strings -/

/-- The quotation mark. Kind: D -/
abbrev quote : UInt8 := 0x22

/-- The backslash. Kind: D -/
abbrev backslash : UInt8 := 0x5C

/-- A hexadecimal digit. Kind: D -/
def hexDigit (c : UInt8) : Option ℕ :=
  if 0x30 ≤ c ∧ c ≤ 0x39 then some (c.toNat - 0x30)
  else if 0x41 ≤ c ∧ c ≤ 0x46 then some (c.toNat - 0x41 + 10)
  else if 0x61 ≤ c ∧ c ≤ 0x66 then some (c.toNat - 0x61 + 10)
  else none

/-- `u` and four hexadecimal digits, in front. Kind: D -/
def unicode : Str → Option ℕ
  | u :: a :: b :: c :: d :: _ => do
    if u = 0x75 then
      return ((← hexDigit a) * 16 + (← hexDigit b)) * 256 + ((← hexDigit c) * 16 + (← hexDigit d))
    failure
  | _ => none

/-- What stands for itself behind a backslash, or for a control character. Kind: D -/
def shortEscape (c : UInt8) : Option UInt8 :=
  if c = quote ∨ c = backslash ∨ c = 0x2F then some c
  else if c = 0x62 then some 0x08
  else if c = 0x66 then some 0x0C
  else if c = 0x6E then some 0x0A
  else if c = 0x72 then some 0x0D
  else if c = 0x74 then some 0x09
  else none

/-- The second half of a surrogate pair, in front. Kind: D -/
def lowSurrogate (t : Str) : Option ℕ :=
  match t with
  | c :: t => if c = backslash then (unicode t).filter fun n => 0xDC00 ≤ n ∧ n < 0xE000 else none
  | [] => none

/-- An escape, behind its backslash: the bytes it stands for and how many it is written with.
Source: RFC 8259, section 7
Kind: D -/
def escape (t : Str) : Option (Str × ℕ) :=
  match t with
  | [] => none
  | c :: _ =>
    if c = 0x75 then
      match unicode t with
      | none => none
      | some n =>
        if n < 0xD800 ∨ 0xE000 ≤ n then some (encode n, 5)
        else if n < 0xDC00 then
          (lowSurrogate (t.drop 5)).map fun m =>
            (encode (0x10000 + (n - 0xD800) * 0x400 + (m - 0xDC00)), 11)
        else none
    else (shortEscape c).map fun b => ([b], 1)

/-- The rest of a string, of which the next `skip` bytes are part of an escape that has been read,
with what follows it. Kind: D -/
def string : ℕ → Str → Option (Str × Str)
  | _, [] => none
  | skip + 1, _ :: t => string skip t
  | 0, c :: t =>
    if c = quote then some ([], t)
    else if c = backslash then
      match escape t with
      | none => none
      | some (bytes, k) => (string k t).map fun out => (bytes ++ out.1, out.2)
    else if c < 0x20 then none
    else (string 0 t).map fun out => (c :: out.1, out.2)

/-! ## Numbers -/

/-- A digit. Kind: D -/
def isDigit (c : UInt8) : Bool := 0x30 ≤ c && c ≤ 0x39

/-- The number that some digits write. Kind: D -/
def natOf (digits : Str) : ℕ := digits.foldl (fun n c => 10 * n + (c.toNat - 0x30)) 0

/-- At least one digit, and what follows. Kind: D -/
def someDigits (t : Str) : Option (Str × Str) :=
  if (t.takeWhile isDigit).isEmpty then none else some (t.takeWhile isDigit, t.dropWhile isDigit)

/-- A fraction, if there is one: what follows, and whether there was one. Kind: D -/
def fraction : Str → Option (Bool × Str)
  | [] => some (false, [])
  | c :: t => if c = 0x2E then (someDigits t).map fun out => (true, out.2) else some (false, c :: t)

/-- An exponent's sign. Kind: D -/
def sign : Str → Str
  | [] => []
  | c :: t => if c = 0x2B ∨ c = 0x2D then t else c :: t

/-- An exponent, if there is one: what follows, and whether there was one. Kind: D -/
def exponent : Str → Option (Bool × Str)
  | [] => some (false, [])
  | c :: t =>
    if c = 0x65 ∨ c = 0x45 then (someDigits (sign t)).map fun out => (true, out.2)
    else some (false, c :: t)

/-- A number without its minus. Kind: D -/
def unsigned (negative : Bool) (t : Str) : Option (Json × Str) :=
  match someDigits t with
  | none => none
  | some (digits, t₁) =>
    if digits.head? = some 0x30 ∧ digits ≠ [0x30] then none
    else
      match fraction t₁ with
      | none => none
      | some (isFraction, t₂) =>
        match exponent t₂ with
        | none => none
        | some (isExponent, t₃) =>
          let n : ℤ := if negative then -natOf digits else natOf digits
          let lexeme := (if negative then [0x2D] else []) ++ t.take (t.length - t₃.length)
          if isFraction ∨ isExponent ∨ ¬(-2 ^ 63 ≤ n ∧ n < 2 ^ 64) then some (real lexeme, t₃)
          else some (int n, t₃)

/-- Source: RFC 8259, section 6. Kind: D -/
def number : Str → Option (Json × Str)
  | [] => none
  | c :: t => if c = 0x2D then unsigned true t else unsigned false (c :: t)

/-! ## Values -/

/-- White space. Source: RFC 8259, section 2. Kind: D -/
def isSpace (c : UInt8) : Bool := c = 0x20 || c = 0x09 || c = 0x0A || c = 0x0D

/-- The text without the white space in front. Kind: D -/
def skip (t : Str) : Str := t.dropWhile isSpace

/-- The text behind a word in front of it. Kind: D -/
def behind (word t : Str) : Option Str := if word <+: t then some (t.drop word.length) else none

/-- A value that is neither object, array nor string. Kind: D -/
def scalar (t : Str) : Option (Json × Str) :=
  match behind (CloudNode.str "null") t with
  | some t => some (null, t)
  | none =>
    match behind (CloudNode.str "true") t with
    | some t => some (bool true, t)
    | none =>
      match behind (CloudNode.str "false") t with
      | some t => some (bool false, t)
      | none => number t

mutual

/-- A value, with what follows it. Source: RFC 8259, sections 3 to 7. Kind: D -/
def value : ℕ → Str → Option (Json × Str)
  | 0, _ => none
  | _ + 1, [] => none
  | n + 1, c :: t =>
    if c = 0x7B then
      match skip t with
      | [] => none
      | d :: t' =>
        if d = 0x7D then some (obj [], t')
        else (members n (d :: t')).map fun out => (obj out.1, out.2)
    else if c = 0x5B then
      match skip t with
      | [] => none
      | d :: t' =>
        if d = 0x5D then some (arr [], t')
        else (elements n (d :: t')).map fun out => (arr out.1, out.2)
    else if c = quote then (string 0 t).map fun out => (.str out.1, out.2)
    else scalar (c :: t)

/-- The members of an object from the next one on, with what follows the object. Kind: D -/
def members : ℕ → Str → Option (List (Str × Json) × Str)
  | 0, _ => none
  | n + 1, t =>
    match skip t with
    | [] => none
    | c :: t =>
      if c = quote then
        match string 0 t with
        | none => none
        | some (name, t) =>
          match skip t with
          | [] => none
          | c :: t =>
            if c = 0x3A then
              match value n (skip t) with
              | none => none
              | some (v, t) =>
                match skip t with
                | [] => none
                | c :: t =>
                  if c = 0x2C then (members n t).map fun out => ((name, v) :: out.1, out.2)
                  else if c = 0x7D then some ([(name, v)], t)
                  else none
            else none
      else none

/-- The elements of an array from the next one on, with what follows the array. Kind: D -/
def elements : ℕ → Str → Option (List Json × Str)
  | 0, _ => none
  | n + 1, t =>
    match value n (skip t) with
    | none => none
    | some (v, t) =>
      match skip t with
      | [] => none
      | c :: t =>
        if c = 0x2C then (elements n t).map fun out => (v :: out.1, out.2)
        else if c = 0x5D then some ([v], t)
        else none

end

/-- The value of a JSON text. Source: RFC 8259, sections 2 and 8.1. Kind: D -/
def parse (text : Str) : Option Json :=
  if utf8 text then
    match value (text.length + 1) (skip text) with
    | none => none
    | some (doc, t) => if skip t = [] then some doc else none
  else none

/-! ## Fuel -/

/-- A string is read from its text. Kind: L -/
theorem length_of_string {k : ℕ} {t out r : Str} (h : string k t = some (out, r)) :
    r.length < t.length := by
  induction t generalizing k out with
  | nil => simp [string] at h
  | cons c t ih =>
      have hlater : ∀ {k f}, (string k t).map f = some (out, r) →
          (∀ out, (f out).2 = out.2) → r.length < (c :: t).length := by
        intro k f hmap hf
        obtain ⟨⟨out', r'⟩, hout, heq⟩ := Option.map_eq_some_iff.mp hmap
        have hr : r' = r := by
          have hsnd := hf (out', r')
          rw [heq] at hsnd
          exact hsnd.symm
        subst hr
        exact Nat.lt_succ_of_lt (ih hout)
      cases k with
      | succ k => exact Nat.lt_succ_of_lt (ih h)
      | zero =>
          rw [string] at h
          split at h
          · obtain ⟨-, rfl⟩ := Prod.mk.inj (Option.some.inj h)
            exact Nat.lt_succ_self _
          split at h
          · split at h
            · exact absurd h (by simp)
            · exact hlater h fun _ => rfl
          split at h
          · exact absurd h (by simp)
          · exact hlater h fun _ => rfl

/-- There is at least one digit. Kind: L -/
theorem length_of_someDigits {t digits r : Str} (h : someDigits t = some (digits, r)) :
    r.length < t.length := by
  rw [someDigits] at h
  split at h
  · exact absurd h (by simp)
  · rename_i hne
    obtain ⟨-, rfl⟩ := Prod.mk.inj (Option.some.inj h)
    have hpos : 0 < (t.takeWhile isDigit).length := by
      rw [List.length_pos_iff]
      simpa using hne
    have hsum := congrArg List.length (List.takeWhile_append_dropWhile (p := isDigit) (l := t))
    rw [List.length_append] at hsum
    omega

/-- A fraction is part of its text. Kind: L -/
theorem length_of_fraction {t r : Str} {b : Bool} (h : fraction t = some (b, r)) :
    r.length ≤ t.length := by
  cases t with
  | nil =>
      obtain ⟨-, rfl⟩ := Prod.mk.inj (Option.some.inj h)
      exact le_rfl
  | cons c t =>
      rw [fraction] at h
      split at h
      · obtain ⟨⟨digits, r'⟩, hdigits, heq⟩ := Option.map_eq_some_iff.mp h
        obtain ⟨-, rfl⟩ := Prod.mk.inj heq
        exact le_of_lt (Nat.lt_succ_of_lt (length_of_someDigits hdigits))
      · obtain ⟨-, rfl⟩ := Prod.mk.inj (Option.some.inj h)
        exact le_rfl

/-- A sign is part of its text. Kind: L -/
theorem length_sign (t : Str) : (sign t).length ≤ t.length := by
  cases t with
  | nil => exact le_rfl
  | cons c t =>
      rw [sign]
      split
      · exact Nat.le_succ _
      · exact le_rfl

/-- An exponent is part of its text. Kind: L -/
theorem length_of_exponent {t r : Str} {b : Bool} (h : exponent t = some (b, r)) :
    r.length ≤ t.length := by
  cases t with
  | nil =>
      obtain ⟨-, rfl⟩ := Prod.mk.inj (Option.some.inj h)
      exact le_rfl
  | cons c t =>
      rw [exponent] at h
      split at h
      · obtain ⟨⟨digits, r'⟩, hdigits, heq⟩ := Option.map_eq_some_iff.mp h
        obtain ⟨-, hr⟩ := Prod.mk.inj heq
        obtain rfl : r' = r := hr
        have hlength := length_of_someDigits hdigits
        have hsign := length_sign t
        rw [List.length_cons]
        omega
      · obtain ⟨-, rfl⟩ := Prod.mk.inj (Option.some.inj h)
        exact le_rfl

/-- A number is read from its text. Kind: L -/
theorem length_of_unsigned {negative : Bool} {t r : Str} {v : Json}
    (h : unsigned negative t = some (v, r)) : r.length < t.length := by
  unfold unsigned at h
  split at h
  · exact absurd h (by simp)
  rename_i digits t₁ hdigits
  split at h
  · exact absurd h (by simp)
  split at h
  · exact absurd h (by simp)
  rename_i isFraction t₂ hfraction
  split at h
  · exact absurd h (by simp)
  rename_i isExponent t₃ hexponent
  have hr : t₃ = r := by
    simp only at h
    split at h
    · split at h <;> exact (Prod.mk.inj (Option.some.inj h)).2
    · split at h <;> exact (Prod.mk.inj (Option.some.inj h)).2
  have h₁ := length_of_someDigits hdigits
  have h₂ := length_of_fraction hfraction
  have h₃ := length_of_exponent hexponent
  rw [← hr]
  omega

/-- A word is read from its text. Kind: L -/
theorem length_of_behind {word t r : Str} (hword : word ≠ []) (h : behind word t = some r) :
    r.length < t.length := by
  rw [behind] at h
  split at h
  · rename_i hstart
    have hle := hstart.length_le
    have hpos := List.length_pos_iff.mpr hword
    rw [← Option.some.inj h, List.length_drop]
    omega
  · exact absurd h (by simp)

/-- A value without parts is read from its text. Kind: L -/
theorem length_of_scalar {t r : Str} {v : Json} (h : scalar t = some (v, r)) :
    r.length < t.length := by
  rw [scalar] at h
  split at h
  · rename_i hword
    obtain ⟨-, rfl⟩ := Prod.mk.inj (Option.some.inj h)
    exact length_of_behind (by decide) hword
  split at h
  · rename_i hword
    obtain ⟨-, rfl⟩ := Prod.mk.inj (Option.some.inj h)
    exact length_of_behind (by decide) hword
  split at h
  · rename_i hword
    obtain ⟨-, rfl⟩ := Prod.mk.inj (Option.some.inj h)
    exact length_of_behind (by decide) hword
  · cases t with
    | nil => simp [number] at h
    | cons c t =>
        rw [number] at h
        split at h
        · exact Nat.lt_succ_of_lt (length_of_unsigned h)
        · exact length_of_unsigned h

/-- White space is part of its text. Kind: L -/
theorem length_skip (t : Str) : (skip t).length ≤ t.length := List.length_dropWhile_le _ _

/-- A reading that took a part of the text, for which fuel for that part is enough. Kind: D -/
def Enough {α : Type} (read : ℕ → Str → Option (α × Str)) (t : Str) (a : α) (r : Str) : Prop :=
  r.length < t.length ∧ ∀ n, t.length - r.length ≤ n → read n t = some (a, r)

/-- A reading that takes at least a character, with one more for what it calls. Kind: L -/
theorem enough_of_succ {α : Type} {read : ℕ → Str → Option (α × Str)} {t r : Str} {a : α}
    (hlt : r.length < t.length) (h : ∀ n, t.length - r.length ≤ n + 1 → read (n + 1) t = some (a, r)) :
    Enough read t a r := by
  refine ⟨hlt, fun n hn => ?_⟩
  obtain ⟨n, rfl⟩ : ∃ k, n = k + 1 := ⟨n - 1, by omega⟩
  exact h n hn

section parts

variable {α : Type} {read : ℕ → Str → Option (α × Str)} {m : ℕ}

/-- Behind an opening bracket. Kind: L -/
theorem enough_inside (hread : ∀ t a r, read m t = some (a, r) → Enough read t a r) {close : UInt8}
    {e v : Json} {f : α → Json} {t r : Str}
    (h : (match skip t with
      | [] => none
      | d :: t' =>
        if d = close then some (e, t')
        else (read m (d :: t')).map fun out => (f out.1, out.2)) = some (v, r)) :
    r.length ≤ t.length ∧ ∀ n, t.length - r.length ≤ n → (match skip t with
      | [] => none
      | d :: t' =>
        if d = close then some (e, t')
        else (read n (d :: t')).map fun out => (f out.1, out.2)) = some (v, r) := by
  have hskip := length_skip t
  cases ht : skip t with
  | nil => simp [ht] at h
  | cons d t' =>
      simp only [ht] at h ⊢
      rw [ht] at hskip
      by_cases hd : d = close
      · simp only [if_pos hd] at h ⊢
        obtain ⟨-, rfl⟩ := Prod.mk.inj (Option.some.inj h)
        rw [List.length_cons] at hskip
        exact ⟨by omega, fun n _ => h⟩
      · simp only [if_neg hd] at h ⊢
        obtain ⟨⟨a, r'⟩, ha, heq⟩ := Option.map_eq_some_iff.mp h
        obtain ⟨hv, hr⟩ := Prod.mk.inj heq
        obtain rfl : r' = r := hr
        obtain ⟨hlt, hfuel⟩ := hread _ a r' ha
        refine ⟨by omega, fun n hn => ?_⟩
        rw [hfuel n (by omega)]
        exact congrArg some heq

/-- Behind a part of an object or array. Kind: L -/
theorem enough_behind (hread : ∀ t a r, read m t = some (a, r) → Enough read t a r) {close : UInt8}
    {e a : α} {f : α → α} {t r : Str}
    (h : (match skip t with
      | [] => none
      | c :: t =>
        if c = 0x2C then (read m t).map fun out => (f out.1, out.2)
        else if c = close then some (e, t)
        else none) = some (a, r)) :
    r.length < t.length ∧ ∀ n, t.length - r.length ≤ n → (match skip t with
      | [] => none
      | c :: t =>
        if c = 0x2C then (read n t).map fun out => (f out.1, out.2)
        else if c = close then some (e, t)
        else none) = some (a, r) := by
  have hskip := length_skip t
  cases ht : skip t with
  | nil => simp [ht] at h
  | cons c t' =>
      simp only [ht] at h ⊢
      rw [ht, List.length_cons] at hskip
      by_cases hcomma : c = 0x2C
      · simp only [if_pos hcomma] at h ⊢
        obtain ⟨⟨b, r'⟩, hb, heq⟩ := Option.map_eq_some_iff.mp h
        obtain ⟨-, hr⟩ := Prod.mk.inj heq
        obtain rfl : r' = r := hr
        obtain ⟨hlt, hfuel⟩ := hread _ b r' hb
        refine ⟨by omega, fun n hn => ?_⟩
        rw [hfuel n (by omega)]
        exact congrArg some heq
      · simp only [if_neg hcomma] at h ⊢
        by_cases hclose : c = close
        · rw [if_pos hclose] at h
          rw [if_pos hclose]
          obtain ⟨-, rfl⟩ := Prod.mk.inj (Option.some.inj h)
          exact ⟨by omega, fun n _ => h⟩
        · rw [if_neg hclose] at h
          exact absurd h (by simp)

end parts

/-- What is read of a value, when its parts are read with enough fuel. Kind: L -/
theorem enough_value {m : ℕ} (hmembers : ∀ t ms r, members m t = some (ms, r) → Enough members t ms r)
    (helements : ∀ t vs r, elements m t = some (vs, r) → Enough elements t vs r) {t r : Str} {v : Json}
    (h : value (m + 1) t = some (v, r)) : Enough value t v r := by
  cases t with
  | nil => simp [value] at h
  | cons c t =>
      rw [value] at h
      by_cases hbrace : c = 0x7B
      · rw [if_pos hbrace] at h
        obtain ⟨hle, hfuel⟩ := enough_inside hmembers h
        refine enough_of_succ (Nat.lt_succ_of_le hle) fun n hn => ?_
        rw [List.length_cons] at hn
        rw [value, if_pos hbrace]
        exact hfuel n (by omega)
      rw [if_neg hbrace] at h
      by_cases hbracket : c = 0x5B
      · rw [if_pos hbracket] at h
        obtain ⟨hle, hfuel⟩ := enough_inside helements h
        refine enough_of_succ (Nat.lt_succ_of_le hle) fun n hn => ?_
        rw [List.length_cons] at hn
        rw [value, if_neg hbrace, if_pos hbracket]
        exact hfuel n (by omega)
      rw [if_neg hbracket] at h
      by_cases hquote : c = quote
      · rw [if_pos hquote] at h
        obtain ⟨⟨out, r'⟩, hout, heq⟩ := Option.map_eq_some_iff.mp h
        obtain ⟨rfl, rfl⟩ := Prod.mk.inj heq
        refine enough_of_succ (Nat.lt_succ_of_lt (length_of_string hout)) fun n _ => ?_
        rw [value, if_neg hbrace, if_neg hbracket, if_pos hquote, hout]
        rfl
      · rw [if_neg hquote] at h
        refine enough_of_succ (length_of_scalar h) fun n _ => ?_
        rw [value, if_neg hbrace, if_neg hbracket, if_neg hquote, h]

/-- What is read of an array, when its parts are read with enough fuel. Kind: L -/
theorem enough_elements {m : ℕ} (hvalue : ∀ t v r, value m t = some (v, r) → Enough value t v r)
    (helements : ∀ t vs r, elements m t = some (vs, r) → Enough elements t vs r) {t r : Str}
    {vs : List Json} (h : elements (m + 1) t = some (vs, r)) : Enough elements t vs r := by
  have hskip := length_skip t
  rw [elements] at h
  cases hv : value m (skip t) with
  | none => simp [hv] at h
  | some out =>
      obtain ⟨v, t'⟩ := out
      simp only [hv] at h
      obtain ⟨hlt, hfuel⟩ := hvalue _ v t' hv
      obtain ⟨hlt', hfuel'⟩ := enough_behind (f := (v :: ·)) helements h
      refine enough_of_succ (by omega) fun n hn => ?_
      rw [elements, hfuel n (by omega)]
      exact hfuel' n (by omega)

/-- What is read of an object, when its parts are read with enough fuel. Kind: L -/
theorem enough_members {m : ℕ} (hvalue : ∀ t v r, value m t = some (v, r) → Enough value t v r)
    (hmembers : ∀ t ms r, members m t = some (ms, r) → Enough members t ms r) {t r : Str}
    {ms : List (Str × Json)} (h : members (m + 1) t = some (ms, r)) : Enough members t ms r := by
  have hskip := length_skip t
  rw [members] at h
  cases hquote : skip t with
  | nil => simp [hquote] at h
  | cons c t₁ =>
      by_cases hc : c = quote
      swap
      · simp [hquote, hc] at h
      simp only [hquote, if_pos hc] at h
      rw [hquote, List.length_cons] at hskip
      cases hname : string 0 t₁ with
      | none => simp [hname] at h
      | some out =>
          obtain ⟨name, t₂⟩ := out
          have hstring := length_of_string hname
          have hskip₂ := length_skip t₂
          simp only [hname] at h
          cases hcolon : skip t₂ with
          | nil => simp [hcolon] at h
          | cons d t₃ =>
              by_cases hd : d = 0x3A
              swap
              · simp [hcolon, hd] at h
              simp only [hcolon, if_pos hd] at h
              rw [hcolon, List.length_cons] at hskip₂
              have hskip₃ := length_skip t₃
              cases hv : value m (skip t₃) with
              | none => simp [hv] at h
              | some out =>
                  obtain ⟨v, t₄⟩ := out
                  simp only [hv] at h
                  obtain ⟨hlt, hfuel⟩ := hvalue _ v t₄ hv
                  obtain ⟨hlt', hfuel'⟩ := enough_behind (f := ((name, v) :: ·)) hmembers h
                  refine enough_of_succ (by omega) fun n hn => ?_
                  rw [members]
                  simp only [hquote, if_pos hc, hname, hcolon, if_pos hd, hfuel n (by omega)]
                  exact hfuel' n (by omega)

/-- **Whatever is read with some fuel is read with fuel for each of its characters.** By induction
on the fuel. Kind: P -/
theorem enough (m : ℕ) :
    (∀ t v r, value m t = some (v, r) → Enough value t v r) ∧
    (∀ t ms r, members m t = some (ms, r) → Enough members t ms r) ∧
    ∀ t vs r, elements m t = some (vs, r) → Enough elements t vs r := by
  induction m with
  | zero => simp [value, members, elements]
  | succ m ih =>
      obtain ⟨hvalue, hmembers, helements⟩ := ih
      exact ⟨fun t v r h => enough_value hmembers helements h,
        fun t ms r h => enough_members hvalue hmembers h,
        fun t vs r h => enough_elements hvalue helements h⟩

/-- **`parse` is not short of fuel**: a text that is read with any fuel is read by it. Kind: P -/
theorem parse_of_value {text t : Str} {doc : Json} {m : ℕ} (hutf8 : utf8 text = true)
    (h : value m (skip text) = some (doc, t)) (ht : skip t = []) : parse text = some doc := by
  obtain ⟨-, hfuel⟩ := (enough m).1 _ doc t h
  have hskip := length_skip text
  rw [parse, if_pos hutf8, hfuel _ (by omega)]
  exact if_pos ht

end Json

end CloudNode
