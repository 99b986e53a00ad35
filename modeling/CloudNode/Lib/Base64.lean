import Mathlib.Data.List.GetD
import Mathlib.Data.Nat.Basic

/-!
# Base64

Groups of three bytes are written as four letters of six bits; one or two bytes at the end are
padded with `=`. Programs break the text into lines.

* `decode_encode` — **what was encoded is decoded.**
* `mem_encode` — letters and `=` are written, and nothing else.
* `length_le_encode` — a text has more characters than it has bytes.
* `filter_breakLines` — line breaks are all that is added to a text.

Source: RFC 4648, section 4
-/

namespace Base64

/-- The padding character. Kind: D -/
abbrev pad : UInt8 := 0x3D

/-- The line feed. Kind: D -/
abbrev lineFeed : UInt8 := 0x0A

/-- The letter of six bits. Source: RFC 4648, table 1. Kind: D -/
def letter (n : ℕ) : UInt8 :=
  if n < 26 then UInt8.ofNat (0x41 + n)
  else if n < 52 then UInt8.ofNat (0x61 + (n - 26))
  else if n < 62 then UInt8.ofNat (0x30 + (n - 52))
  else if n = 62 then 0x2B
  else 0x2F

/-- The six bits of a letter. Source: RFC 4648, table 1. Kind: D -/
def sextet (c : UInt8) : Option ℕ :=
  if 0x41 ≤ c ∧ c ≤ 0x5A then some (c.toNat - 0x41)
  else if 0x61 ≤ c ∧ c ≤ 0x7A then some (c.toNat - 0x61 + 26)
  else if 0x30 ≤ c ∧ c ≤ 0x39 then some (c.toNat - 0x30 + 52)
  else if c = 0x2B then some 62
  else if c = 0x2F then some 63
  else none

/-- The text of some bytes. Source: RFC 4648, section 4. Kind: D -/
def encode : List UInt8 → List UInt8
  | [] => []
  | [a] => [letter (a.toNat / 4), letter (a.toNat % 4 * 16), pad, pad]
  | [a, b] =>
    [letter (a.toNat / 4), letter (a.toNat % 4 * 16 + b.toNat / 16), letter (b.toNat % 16 * 4), pad]
  | a :: b :: c :: s =>
    letter (a.toNat / 4) :: letter (a.toNat % 4 * 16 + b.toNat / 16) ::
      letter (b.toNat % 16 * 4 + c.toNat / 64) :: letter (c.toNat % 64) :: encode s

/-- The first byte of a group, from two letters. Kind: D -/
def first (w x : ℕ) : UInt8 := UInt8.ofNat (w * 4 + x / 16)

/-- The second one. Kind: D -/
def second (x y : ℕ) : UInt8 := UInt8.ofNat (x % 16 * 16 + y / 4)

/-- The third one. Kind: D -/
def third (y z : ℕ) : UInt8 := UInt8.ofNat (y % 4 * 64 + z)

/-- The bytes of a text, `none` for what is no Base64 text.
Source: RFC 4648, section 4
Kind: D -/
def decode : List UInt8 → Option (List UInt8)
  | [] => some []
  | c₁ :: c₂ :: c₃ :: c₄ :: t => do
    let w ← sextet c₁
    let x ← sextet c₂
    if c₄ = pad then
      if t = [] then
        if c₃ = pad then some [first w x]
        else (sextet c₃).map fun y => [first w x, second x y]
      else none
    else
      let y ← sextet c₃
      let z ← sextet c₄
      (decode t).map fun s => first w x :: second x y :: third y z :: s
  | _ => none

/-- The text with a line feed behind each `width` characters and behind the last one, the next of
them after `left` characters. Kind: D -/
def breakLines (width : ℕ) : ℕ → List UInt8 → List UInt8
  | _, [] => [lineFeed]
  | 0, c :: t => lineFeed :: c :: breakLines width (width - 1) t
  | left + 1, c :: t => c :: breakLines width left t

/-! ## Letters -/

/-- A letter stands for its bits. Kind: L -/
theorem sextet_letter {n : ℕ} (hn : n < 64) : sextet (letter n) = some n := by
  revert n
  decide

/-- A letter is no padding. Kind: L -/
theorem letter_ne_pad {n : ℕ} (hn : n < 64) : letter n ≠ pad := by
  revert n
  decide

/-! ## What was encoded is decoded -/

variable {c : UInt8} {s t : List UInt8}

/-- The first byte is in the first two letters. Kind: L -/
theorem first_eq (a : UInt8) {n : ℕ} (hn : n < 16) :
    first (a.toNat / 4) (a.toNat % 4 * 16 + n) = a := by
  have hsum : a.toNat / 4 * 4 + (a.toNat % 4 * 16 + n) / 16 = a.toNat := by omega
  rw [first, hsum, UInt8.ofNat_toNat]

/-- The second one is in the second and the third. Kind: L -/
theorem second_eq (b : UInt8) {n : ℕ} (hn : n < 4) (m : ℕ) :
    second (m * 16 + b.toNat / 16) (b.toNat % 16 * 4 + n) = b := by
  have hlt := UInt8.toNat_lt b
  have hsum : (m * 16 + b.toNat / 16) % 16 * 16 + (b.toNat % 16 * 4 + n) / 4 = b.toNat := by omega
  rw [second, hsum, UInt8.ofNat_toNat]

/-- The third one is in the last two. Kind: L -/
theorem third_eq (c : UInt8) (m : ℕ) : third (m * 4 + c.toNat / 64) (c.toNat % 64) = c := by
  have hlt := UInt8.toNat_lt c
  have hsum : (m * 4 + c.toNat / 64) % 4 * 64 + c.toNat % 64 = c.toNat := by omega
  rw [third, hsum, UInt8.ofNat_toNat]

/-- **What was encoded is decoded.** Kind: P -/
theorem decode_encode (s : List UInt8) : decode (encode s) = some s := by
  induction s using encode.induct with
  | case1 => rfl
  | case2 a =>
      have ha := UInt8.toNat_lt a
      have hfirst := first_eq a (show 0 < 16 by decide)
      rw [Nat.add_zero] at hfirst
      simp only [encode, decode, sextet_letter (show a.toNat / 4 < 64 by omega),
        sextet_letter (show a.toNat % 4 * 16 < 64 by omega), Option.bind_eq_bind, Option.bind_some,
        if_true, hfirst]
  | case3 a b =>
      have ha := UInt8.toNat_lt a
      have hb := UInt8.toNat_lt b
      have hfirst := first_eq a (show b.toNat / 16 < 16 by omega)
      have hsecond := second_eq b (show 0 < 4 by decide) (a.toNat % 4)
      rw [Nat.add_zero] at hsecond
      simp only [encode, decode, sextet_letter (show a.toNat / 4 < 64 by omega),
        sextet_letter (show a.toNat % 4 * 16 + b.toNat / 16 < 64 by omega),
        sextet_letter (show b.toNat % 16 * 4 < 64 by omega), Option.bind_eq_bind, Option.bind_some,
        if_true, if_neg (letter_ne_pad (show b.toNat % 16 * 4 < 64 by omega)), Option.map_some,
        hfirst, hsecond]
  | case4 a b c s ih =>
      have ha := UInt8.toNat_lt a
      have hb := UInt8.toNat_lt b
      have hc := UInt8.toNat_lt c
      have hfirst := first_eq a (show b.toNat / 16 < 16 by omega)
      have hsecond := second_eq b (show c.toNat / 64 < 4 by omega) (a.toNat % 4)
      have hthird := third_eq c (b.toNat % 16)
      simp only [encode, decode, sextet_letter (show a.toNat / 4 < 64 by omega),
        sextet_letter (show a.toNat % 4 * 16 + b.toNat / 16 < 64 by omega),
        sextet_letter (show b.toNat % 16 * 4 + c.toNat / 64 < 64 by omega),
        sextet_letter (show c.toNat % 64 < 64 by omega), Option.bind_eq_bind, Option.bind_some,
        if_neg (letter_ne_pad (show c.toNat % 64 < 64 by omega)), ih, Option.map_some,
        hfirst, hsecond, hthird]

/-! ## What is written -/

/-- Bytes have a text. Kind: L -/
theorem encode_ne_nil (h : s ≠ []) : encode s ≠ [] := by
  intro hnil
  have hdecode := decode_encode s
  rw [hnil] at hdecode
  exact h (Option.some.inj hdecode).symm

/-- Letters and `=` are written, and nothing else. Kind: L -/
theorem mem_encode (h : c ∈ encode s) : (∃ n < 64, c = letter n) ∨ c = pad := by
  induction s using encode.induct with
  | case1 => exact absurd h List.not_mem_nil
  | case2 a =>
      have ha := UInt8.toNat_lt a
      simp only [encode, List.mem_cons, List.not_mem_nil, or_false, or_self] at h
      rcases h with h | h | h
      · exact Or.inl ⟨_, by omega, h⟩
      · exact Or.inl ⟨_, by omega, h⟩
      · exact Or.inr h
  | case3 a b =>
      have ha := UInt8.toNat_lt a
      have hb := UInt8.toNat_lt b
      simp only [encode, List.mem_cons, List.not_mem_nil, or_false] at h
      rcases h with h | h | h | h
      · exact Or.inl ⟨_, by omega, h⟩
      · exact Or.inl ⟨_, by omega, h⟩
      · exact Or.inl ⟨_, by omega, h⟩
      · exact Or.inr h
  | case4 a b c' s ih =>
      have ha := UInt8.toNat_lt a
      have hb := UInt8.toNat_lt b
      have hc := UInt8.toNat_lt c'
      simp only [encode, List.mem_cons] at h
      rcases h with h | h | h | h | h
      · exact Or.inl ⟨_, by omega, h⟩
      · exact Or.inl ⟨_, by omega, h⟩
      · exact Or.inl ⟨_, by omega, h⟩
      · exact Or.inl ⟨_, by omega, h⟩
      · exact ih h

/-- No line feed is written. Kind: L -/
theorem lineFeed_not_mem_encode (s : List UInt8) : lineFeed ∉ encode s := by
  intro h
  rcases mem_encode h with ⟨n, hn, h⟩ | h
  · revert n
    decide
  · exact absurd h (by decide)

/-- A text has more characters than it has bytes. Kind: L -/
theorem length_le_encode (s : List UInt8) : s.length ≤ (encode s).length := by
  induction s using encode.induct with
  | case1 => exact le_rfl
  | case2 a => simp [encode]
  | case3 a b => simp [encode]
  | case4 a b c s ih =>
      simp only [encode, List.length_cons]
      omega

/-! ## Lines -/

/-- **Line feeds are all that is added to a text.** Kind: P -/
theorem filter_breakLines (width left : ℕ) (ht : lineFeed ∉ t) :
    (breakLines width left t).filter (· ≠ lineFeed) = t := by
  induction t generalizing left with
  | nil => rfl
  | cons c t ih =>
      have hkept : ∀ u : List UInt8, (c :: u).filter (· ≠ lineFeed) = c :: u.filter (· ≠ lineFeed) :=
        fun u => List.filter_cons_of_pos (decide_eq_true (Ne.symm (List.ne_of_not_mem_cons ht)))
      have ht' := List.not_mem_of_not_mem_cons ht
      cases left with
      | zero => rw [breakLines, List.filter_cons_of_neg (by decide), hkept, ih _ ht']
      | succ left => rw [breakLines, hkept, ih _ ht']

end Base64
