import CloudNode.Wire.Syntax

/-!
# Strings in a JSON text

A string that a program puts between quotation marks as it is.

* `string_of_plain` — a string without quotes, backslashes and control characters reads as itself.
* `plain_of_string` — and no other does, whatever it runs into behind its closing quote.
* `utf8_append_cons` — a text is UTF-8 in front of an ASCII character and behind it.
-/

namespace CloudNode

namespace Json

/-! ## Texts that are UTF-8 -/

/-- All characters are ASCII. Kind: D -/
def ascii (t : Str) : Bool := t.all (· < 0x80)

/-- Both parts are ASCII. Kind: L -/
theorem ascii_append (a b : Str) : ascii (a ++ b) = (ascii a && ascii b) := List.all_append

/-- The byte behind a character's first one is no ASCII character. Kind: L -/
theorem lead_low {b low high : UInt8} {owed : ℕ} (h : lead b = some (owed, low, high)) :
    0x80 ≤ low := by
  unfold lead at h
  repeat' split at h
  all_goals simp only [Option.some.injEq, Prod.mk.injEq, reduceCtorEq] at h
  all_goals obtain ⟨-, rfl, -⟩ := h
  all_goals decide

/-- An ASCII character ends whatever is in front of it. Kind: L -/
theorem utf8From_append_cons {c : UInt8} (hc : c < 0x80) (s t : Str) (owed : ℕ) (low high : UInt8)
    (hlow : 0x80 ≤ low) :
    utf8From owed low high (s ++ c :: t) = (utf8From owed low high s && utf8 t) := by
  have hlead : lead c = some (0, 0x80, 0xBF) := if_pos hc
  induction s generalizing owed low high with
  | nil =>
      cases owed with
      | zero => simp only [List.nil_append, utf8From, hlead, Bool.true_and, utf8]
      | succ owed =>
          have hout : ¬(low ≤ c ∧ c ≤ high) := fun h =>
            absurd (UInt8.lt_of_lt_of_le hc (UInt8.le_trans hlow h.1)) (UInt8.lt_irrefl c)
          simp only [List.nil_append, utf8From, hout, decide_false, Bool.false_and]
  | cons b s ih =>
      cases owed with
      | zero =>
          simp only [List.cons_append, utf8From]
          cases hb : lead b with
          | none => rfl
          | some next =>
              obtain ⟨owed', low', high'⟩ := next
              exact ih owed' low' high' (lead_low hb)
      | succ owed =>
          simp only [List.cons_append, utf8From]
          rw [ih owed 0x80 0xBF (by decide), Bool.and_assoc]

/-- **A text is UTF-8 in front of an ASCII character and behind it.** Kind: P -/
theorem utf8_append_cons {c : UInt8} (hc : c < 0x80) (s t : Str) :
    utf8 (s ++ c :: t) = (utf8 s && utf8 t) :=
  utf8From_append_cons hc s t 0 0x80 0xBF (by decide)

/-- An ASCII character in front of a text does not matter. Kind: L -/
theorem utf8_ascii_cons {c : UInt8} (hc : c < 0x80) (t : Str) : utf8 (c :: t) = utf8 t := by
  rw [← List.nil_append (c :: t), utf8_append_cons hc]
  rfl

/-- ASCII in front of a text does not matter. Kind: L -/
theorem utf8_ascii_append {a : Str} (ha : ascii a = true) (t : Str) : utf8 (a ++ t) = utf8 t := by
  induction a with
  | nil => rfl
  | cons c a ih =>
      simp only [ascii, List.all_cons, Bool.and_eq_true, decide_eq_true_eq] at ha
      rw [List.cons_append, utf8_ascii_cons ha.1, ih ha.2]

/-! ## Strings without escapes -/

/-- A character that stands for itself in a string. Kind: D -/
def isPlain (c : UInt8) : Bool := c ≠ quote && c ≠ backslash && 0x20 ≤ c

/-- All characters stand for themselves. Kind: D -/
def plain (s : Str) : Bool := s.all isPlain

/-- One more plain character. Kind: L -/
theorem string_cons {c : UInt8} (hc : isPlain c = true) (t : Str) :
    string 0 (c :: t) = (string 0 t).map fun out => (c :: out.1, out.2) := by
  simp only [isPlain, Bool.and_eq_true, decide_eq_true_eq] at hc
  obtain ⟨⟨hquote, hbackslash⟩, hcontrol⟩ := hc
  have hnot : ¬c < 0x20 := UInt8.not_lt.mpr hcontrol
  simp only [string, if_neg hquote, if_neg hbackslash, if_neg hnot]

/-- Plain characters in front of a string. Kind: L -/
theorem string_plain_append {p : Str} (hp : plain p = true) (t : Str) :
    string 0 (p ++ t) = (string 0 t).map fun out => (p ++ out.1, out.2) := by
  induction p with
  | nil =>
      cases h : string 0 t with
      | none => simp [h]
      | some out => simp [h]
  | cons c p ih =>
      simp only [plain, List.all_cons, Bool.and_eq_true] at hp
      rw [List.cons_append, string_cons hp.1, ih hp.2, Option.map_map]
      rfl

/-- **A plain string reads as itself.** Kind: P -/
theorem string_of_plain {s : Str} (hs : plain s = true) (t : Str) :
    string 0 (s ++ quote :: t) = some (s, t) := by
  rw [string_plain_append hs]
  simp [string]

/-! ## What an escape is written with -/

/-- The quotation mark is no hexadecimal digit. Kind: L -/
theorem ne_quote_of_hexDigit {c : UInt8} {n : ℕ} (h : hexDigit c = some n) : c ≠ quote := by
  rintro rfl
  have hnone : hexDigit quote = none := by decide
  rw [hnone] at h
  simp at h

/-- No byte of `u` and its digits is a quotation mark. Kind: L -/
theorem ne_quote_of_unicode {t : Str} {n i : ℕ} {c : UInt8} (h : unicode t = some n) (hi : i < 5)
    (hc : t[i]? = some c) : c ≠ quote := by
  unfold unicode at h
  split at h
  · rename_i u a b c' d rest
    split at h
    · rename_i hu
      subst hu
      cases ha : hexDigit a with
      | none => simp [ha] at h
      | some na =>
          cases hb : hexDigit b with
          | none => simp [ha, hb] at h
          | some nb =>
              cases hc' : hexDigit c' with
              | none => simp [ha, hb, hc'] at h
              | some nc =>
                  cases hd : hexDigit d with
                  | none => simp [ha, hb, hc', hd] at h
                  | some nd =>
                      interval_cases i
                      · obtain rfl := Option.some.inj hc
                        decide
                      · exact Option.some.inj hc ▸ ne_quote_of_hexDigit ha
                      · exact Option.some.inj hc ▸ ne_quote_of_hexDigit hb
                      · exact Option.some.inj hc ▸ ne_quote_of_hexDigit hc'
                      · exact Option.some.inj hc ▸ ne_quote_of_hexDigit hd
    · simp at h
  · simp at h

/-- No byte of a second surrogate is a quotation mark. Kind: L -/
theorem ne_quote_of_lowSurrogate {t : Str} {n i : ℕ} {c : UInt8} (h : lowSurrogate t = some n)
    (hi : i < 6) (hc : t[i]? = some c) : c ≠ quote := by
  unfold lowSurrogate at h
  split at h
  · rename_i b t
    split at h
    · rename_i hb
      cases i with
      | zero =>
          obtain rfl := Option.some.inj hc
          rw [hb]
          decide
      | succ i =>
          obtain ⟨hunicode, -⟩ := Option.filter_eq_some_iff.mp h
          exact ne_quote_of_unicode hunicode (by omega) hc
    · simp at h
  · simp at h

/-- A code point has at most four bytes, and three below the surrogate pairs. Kind: L -/
theorem length_encode (n : ℕ) : (encode n).length ≤ 4 := by
  unfold encode
  rw [List.length_map]
  repeat' split
  all_goals simp

/-- The short escapes. Kind: L -/
theorem escape_of_ne {c : UInt8} (hc : c ≠ 0x75) (t : Str) :
    escape (c :: t) = (shortEscape c).map fun b => ([b], 1) := by
  simp only [escape, if_neg hc]

/-- The escapes with digits. Kind: L -/
theorem escape_of_unicode {t : Str} {bytes : Str} {k : ℕ}
    (h : escape (0x75 :: t) = some (bytes, k)) : ∃ n, unicode (0x75 :: t) = some n ∧
      (k = 5 ∨ k = 11 ∧ ∃ m, lowSurrogate (t.drop 4) = some m) ∧ bytes.length ≤ 4 := by
  simp only [escape, if_true] at h
  cases hn : unicode (0x75 :: t) with
  | none => simp [hn] at h
  | some n =>
      refine ⟨n, rfl, ?_⟩
      simp only [hn] at h
      split at h
      · obtain ⟨rfl, rfl⟩ := Prod.mk.inj (Option.some.inj h)
        exact ⟨.inl rfl, length_encode _⟩
      · split at h
        · obtain ⟨m, hm, hout⟩ := Option.map_eq_some_iff.mp h
          obtain ⟨rfl, rfl⟩ := Prod.mk.inj hout
          exact ⟨.inr ⟨rfl, m, hm⟩, length_encode _⟩
        · simp at h

/-- **An escape stands for no more bytes than it is written with behind its backslash, and none of
these is a quotation mark, unless it is one.** Kind: P -/
theorem escape_cases {t bytes : Str} {k : ℕ} (h : escape t = some (bytes, k)) :
    bytes.length ≤ k ∧ ((∃ rest, t = quote :: rest ∧ bytes = [quote] ∧ k = 1) ∨
      ∀ i c, i < k → t[i]? = some c → c ≠ quote) := by
  cases t with
  | nil => simp [escape] at h
  | cons c t =>
      by_cases hc : c = 0x75
      · subst hc
        obtain ⟨n, hn, hk, hlength⟩ := escape_of_unicode h
        refine ⟨by omega, .inr fun i c hi hc => ?_⟩
        by_cases hi5 : i < 5
        · exact ne_quote_of_unicode hn hi5 hc
        · obtain ⟨rfl, m, hm⟩ : k = 11 ∧ ∃ m, lowSurrogate (t.drop 4) = some m := by
            rcases hk with rfl | hk
            · omega
            · exact hk
          have hc' : (t.drop 4)[i - 5]? = some c := by
            rw [List.getElem?_drop]
            have hi' : i = (4 + (i - 5)) + 1 := by omega
            rw [hi', List.getElem?_cons_succ] at hc
            exact hc
          exact ne_quote_of_lowSurrogate hm (by omega) hc'
      · rw [escape_of_ne hc] at h
        obtain ⟨b, hb, hout⟩ := Option.map_eq_some_iff.mp h
        obtain ⟨rfl, rfl⟩ := Prod.mk.inj hout
        refine ⟨le_rfl, ?_⟩
        by_cases hquote : c = quote
        · subst hquote
          have hb' : shortEscape quote = some quote := by decide
          rw [hb', Option.some.injEq] at hb
          exact .inl ⟨t, rfl, by rw [hb], rfl⟩
        · refine .inr fun i c' hi hc' => ?_
          obtain rfl : i = 0 := by omega
          obtain rfl := Option.some.inj hc'
          exact hquote

/-! ## Strings that read as themselves -/

/-- A string that runs on behind its quotation mark reads no backslash there. Kind: D -/
def Calm (t : Str) : Prop := ∀ out r, string 0 t = some (out, r) → backslash ∉ out

/-- What a string is read as has at most as many bytes as are left of it; or it ends in a
backslash, and what it is read as runs on behind the quotation mark. Kind: D -/
def Fits (s out : Str) (k : ℕ) : Prop := out.length + k ≤ s.length ∨
  s.getLast? = some backslash ∧ ∃ y u, out = y ++ quote :: u ∧ backslash ∉ u

/-- More bytes in front. Kind: L -/
theorem Fits.cons {s out : Str} {k k' : ℕ} (h : Fits s out k) (c : UInt8) (bytes : Str)
    (hle : bytes.length + k' ≤ k + 1) : Fits (c :: s) (bytes ++ out) k' := by
  rcases h with hlength | ⟨hlast, y, u, rfl, hu⟩
  · left
    rw [List.length_append, List.length_cons]
    omega
  · refine .inr ⟨?_, bytes ++ y, u, by rw [List.append_assoc], hu⟩
    rw [List.getLast?_cons, hlast]
    rfl

/-- A backslash is read with what follows it, and then the rest of the string; or it is the last
byte, and takes the quotation mark with it. Kind: L -/
theorem escape_of_string {t : Str} (hcalm : Calm t) {s out r : Str}
    (h : string 0 (backslash :: (s ++ quote :: t)) = some (out, r)) :
    (∃ bytes k out', k ≤ s.length ∧ bytes.length ≤ k ∧ out = bytes ++ out' ∧
      string k (s ++ quote :: t) = some (out', r)) ∨
    s = [] ∧ ∃ u, out = quote :: u ∧ backslash ∉ u := by
  have hne : backslash ≠ quote := by decide
  rw [string, if_neg hne, if_pos rfl] at h
  cases hescape : escape (s ++ quote :: t) with
  | none => simp [hescape] at h
  | some found =>
      obtain ⟨bytes, k⟩ := found
      simp only [hescape] at h
      obtain ⟨⟨out', r'⟩, hout, heq⟩ := Option.map_eq_some_iff.mp h
      obtain ⟨rfl, rfl⟩ := Prod.mk.inj heq
      obtain ⟨hbytes, hshape⟩ := escape_cases hescape
      by_cases hk : k ≤ s.length
      · exact .inl ⟨bytes, k, out', hk, hbytes, rfl, hout⟩
      · rcases hshape with ⟨rest, -, rfl, rfl⟩ | hnone
        · obtain rfl : s = [] := List.eq_nil_of_length_eq_zero (by omega)
          refine .inr ⟨rfl, out', rfl, hcalm out' r' ?_⟩
          simpa [string] using hout
        · exact absurd rfl (hnone s.length quote (by omega) (by simp))

/-- **What a string is read as, at most**, when the next `k` bytes belong to an escape. Kind: P -/
theorem fits_of_string {t : Str} (hcalm : Calm t) {s out r : Str} {k : ℕ} (hk : k ≤ s.length)
    (h : string k (s ++ quote :: t) = some (out, r)) : Fits s out k := by
  induction s generalizing k out with
  | nil =>
      obtain rfl : k = 0 := by simpa using hk
      simp only [List.nil_append, string, if_true, Option.some.injEq, Prod.mk.injEq] at h
      obtain ⟨rfl, -⟩ := h
      exact .inl (by simp)
  | cons c s ih =>
      rw [List.cons_append] at h
      cases k with
      | succ k =>
          rw [string] at h
          exact (ih (by simpa using hk) h).cons c [] (by simp)
      | zero =>
          by_cases hbackslash : c = backslash
          · subst hbackslash
            rcases escape_of_string hcalm h with
              ⟨bytes, k, out', hk, hbytes, rfl, hout⟩ | ⟨rfl, u, rfl, hu⟩
            · exact (ih hk hout).cons backslash bytes (by omega)
            · exact .inr ⟨rfl, [], u, rfl, hu⟩
          rw [string, if_neg hbackslash] at h
          by_cases hquote : c = quote
          · rw [if_pos hquote] at h
            obtain ⟨rfl, -⟩ := Prod.mk.inj (Option.some.inj h)
            exact .inl (by simp)
          rw [if_neg hquote] at h
          by_cases hcontrol : c < 0x20
          · rw [if_pos hcontrol] at h
            simp at h
          rw [if_neg hcontrol] at h
          obtain ⟨⟨out', r'⟩, hout, heq⟩ := Option.map_eq_some_iff.mp h
          obtain ⟨rfl, rfl⟩ := Prod.mk.inj heq
          exact (ih (by omega) hout).cons c [c] (by simp)

/-- A string that starts with a byte that is not plain does not read as itself. Kind: L -/
theorem ne_of_string_cons {t : Str} (hcalm : Calm t) {c : UInt8} {s out r : Str}
    (hc : isPlain c = false) (h : string 0 (c :: (s ++ quote :: t)) = some (out, r)) :
    out ≠ c :: s := by
  by_cases hbackslash : c = backslash
  · subst hbackslash
    rcases escape_of_string hcalm h with ⟨bytes, k, out', hk, hbytes, rfl, hout⟩ | ⟨rfl, u, rfl, -⟩
    · intro heq
      rcases fits_of_string hcalm hk hout with hlength | ⟨hlast, y, u, rfl, hu⟩
      · have hlengths := congrArg List.length heq
        rw [List.length_append, List.length_cons] at hlengths
        omega
      · have hlasts := congrArg List.getLast? heq
        rw [List.getLast?_cons, hlast, ← List.append_assoc, List.getLast?_append_of_ne_nil _ (by simp)]
          at hlasts
        have hmem : backslash ∈ quote :: u := List.mem_of_getLast? hlasts
        rcases List.mem_cons.mp hmem with hmem | hmem
        · exact absurd hmem (by decide)
        · exact hu hmem
    · intro heq
      exact absurd (List.cons.inj heq).1 (by decide)
  · rw [string, if_neg hbackslash] at h
    by_cases hquote : c = quote
    · rw [if_pos hquote] at h
      obtain ⟨rfl, -⟩ := Prod.mk.inj (Option.some.inj h)
      simp
    · have hcontrol : c < 0x20 := by
        by_contra hcontrol
        simp [isPlain, hquote, hbackslash, UInt8.not_lt.mp hcontrol] at hc
      rw [if_neg hquote, if_pos hcontrol] at h
      simp at h

/-- **Only a plain string reads as itself.** Kind: P -/
theorem plain_of_string {t : Str} (hcalm : Calm t) {s r : Str}
    (h : string 0 (s ++ quote :: t) = some (s, r)) : plain s = true := by
  induction s with
  | nil => rfl
  | cons c s ih =>
      by_cases hc : isPlain c = true
      · rw [List.cons_append, string_cons hc] at h
        obtain ⟨⟨out', r'⟩, hout, heq⟩ := Option.map_eq_some_iff.mp h
        obtain ⟨hout', rfl⟩ := Prod.mk.inj heq
        obtain rfl := (List.cons.inj hout').2
        rw [plain, List.all_cons, hc]
        exact ih hout
      · exact absurd rfl (ne_of_string_cons hcalm (by simpa using hc) h)

end Json

end CloudNode
