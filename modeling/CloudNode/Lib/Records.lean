import Mathlib.Data.Nat.Digits.Lemmas

/-!
# Words in a buffer

A record of a binary format begins with a header of words of a fixed number of bytes, the lowest
byte first. A reader takes the word at an index of the header, wherever the record ends.

* `ofBytes`, `toBytes` — the number that some bytes come to, and the bytes of a number.
* `header`, `word` — the words at the front of a record, and the one at an index.
* `word_header` — the reader finds what the writer put there.
-/

namespace Records

/-! ## Numbers and bytes -/

/-- The number that some bytes come to, the lowest first. Kind: D -/
def ofBytes (bytes : List UInt8) : ℕ := Nat.ofDigits 256 (bytes.map UInt8.toNat)

/-- The lowest bytes of a number, the lowest first. Kind: D -/
def toBytes : ℕ → ℕ → List UInt8
  | 0, _ => []
  | width + 1, n => UInt8.ofNat n :: toBytes width (n / 256)

/-- A word has its width. Kind: L -/
@[simp] theorem length_toBytes (width n : ℕ) : (toBytes width n).length = width := by
  induction width generalizing n with
  | zero => rfl
  | succ width ih => rw [toBytes, List.length_cons, ih]

/-- The lowest byte counts once, the others 256 times. Kind: L -/
theorem ofBytes_cons (b : UInt8) (bytes : List UInt8) :
    ofBytes (b :: bytes) = b.toNat + 256 * ofBytes bytes := by
  rw [ofBytes, List.map_cons, Nat.ofDigits_cons]
  rfl

/-- A number that a word has room for is read back from it. Kind: L -/
theorem ofBytes_toBytes {width n : ℕ} (h : n < 256 ^ width) : ofBytes (toBytes width n) = n := by
  induction width generalizing n with
  | zero =>
      rw [pow_zero, Nat.lt_one_iff] at h
      exact h.symm
  | succ width ih =>
      have hrest : n / 256 < 256 ^ width := by
        rw [Nat.div_lt_iff_lt_mul (by omega), ← pow_succ]
        exact h
      rw [toBytes, ofBytes_cons, ih hrest, UInt8.toNat_ofNat']
      exact Nat.mod_add_div n 256

/-! ## Headers -/

/-- The words of a header, one after the other. Kind: D -/
def header (width : ℕ) (words : List ℕ) : List UInt8 := words.flatMap (toBytes width)

/-- The word at an index of a header. Kind: D -/
def word (width : ℕ) (bytes : List UInt8) (i : ℕ) : ℕ :=
  ofBytes ((bytes.drop (width * i)).take width)

/-- A header is as long as its words together. Kind: L -/
@[simp] theorem length_header (width : ℕ) (words : List ℕ) :
    (header width words).length = width * words.length := by
  induction words with
  | nil => rfl
  | cons n words ih =>
      rw [header, List.flatMap_cons, List.length_append, length_toBytes, List.length_cons]
      change width + (header width words).length = _
      rw [ih, Nat.mul_succ, Nat.add_comm]

/-- **The reader finds the words of the header**, whatever comes after it. Kind: P -/
theorem word_header {width : ℕ} {words : List ℕ} (hwords : ∀ n ∈ words, n < 256 ^ width)
    {i n : ℕ} (h : words[i]? = some n) (rest : List UInt8) :
    word width (header width words ++ rest) i = n := by
  induction words generalizing i with
  | nil => cases h
  | cons m words ih =>
      have hsplit : header width (m :: words) ++ rest =
          toBytes width m ++ (header width words ++ rest) := by
        rw [header, List.flatMap_cons, List.append_assoc]
        rfl
      cases i with
      | zero =>
          obtain rfl : m = n := Option.some.inj h
          rw [word, hsplit, Nat.mul_zero, List.drop_zero, List.take_left' (length_toBytes ..)]
          exact ofBytes_toBytes (hwords m List.mem_cons_self)
      | succ i =>
          have hdrop : (header width (m :: words) ++ rest).drop (width * (i + 1)) =
              (header width words ++ rest).drop (width * i) := by
            rw [hsplit, Nat.mul_succ, Nat.add_comm, ← List.drop_drop,
              List.drop_left' (length_toBytes ..)]
          rw [word, hdrop]
          exact ih (fun k hk => hwords k (List.mem_cons_of_mem m hk)) h

end Records
