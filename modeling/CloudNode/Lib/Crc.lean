import Mathlib.Data.List.GetD
import Mathlib.Logic.Function.Iterate

/-!
# Cyclic redundancy checks

A reflected CRC of width `w` is a register that takes in a message bit by bit, the lowest bit of
each byte first: it is shifted down, and the polynomial is added when the bit that leaves it differs
from the one that comes in. Programs take in a byte at a time, with a table of what eight shifts
make of each low byte.

* `feed`, `bitwise` — the register after a bit, and after some bytes.
* `shift_xor` — a shift is linear over exclusive or.
* `foldl_feed` — taking in some bits is shifting them out of a register to which they were added.
* `tableStep_eq` — **the table**: one lookup takes in the eight bits of a byte.
-/

namespace Crc

variable {w : ℕ} (poly : BitVec w)

/-- The register takes in one bit. Kind: D -/
def feed (crc : BitVec w) (bit : Bool) : BitVec w :=
  if crc.getLsbD 0 != bit then poly ^^^ (crc >>> 1) else crc >>> 1

/-- The bits of a byte, the lowest first. Kind: D -/
def byteBits (b : BitVec 8) : List Bool :=
  [b.getLsbD 0, b.getLsbD 1, b.getLsbD 2, b.getLsbD 3, b.getLsbD 4, b.getLsbD 5, b.getLsbD 6,
   b.getLsbD 7]

/-- The register takes in some bytes, bit by bit. Kind: D -/
def bitwise (crc : BitVec w) (bytes : List (BitVec 8)) : BitVec w :=
  (bytes.flatMap byteBits).foldl (feed poly) crc

/-- A shift of the register, with nothing coming in. Kind: D -/
def shift (c : BitVec w) : BitVec w :=
  if c.getLsbD 0 then poly ^^^ (c >>> 1) else c >>> 1

/-- The register takes in one byte by the table of eight shifts. Kind: D -/
def tableStep (crc : BitVec w) (b : BitVec 8) : BitVec w :=
  (shift poly)^[8] ((crc ^^^ b.setWidth w) &&& 255#w) ^^^ (crc >>> 8)

/-- The number that some bits make, the lowest first. Kind: D -/
def ofBits : List Bool → BitVec w
  | [] => 0#w
  | b :: bits => (BitVec.ofBool b).setWidth w ^^^ (ofBits bits <<< 1)

variable {a c crc : BitVec w} {poly : BitVec w}

/-! ## Shifts -/

/-- **A shift is linear.** Kind: P -/
theorem shift_xor : shift poly (a ^^^ c) = shift poly a ^^^ shift poly c := by
  unfold shift
  rw [BitVec.getLsbD_xor, BitVec.ushiftRight_xor_distrib]
  cases a.getLsbD 0 with
  | false =>
      cases c.getLsbD 0 with
      | false => rfl
      | true =>
          show poly ^^^ (a >>> 1 ^^^ c >>> 1) = a >>> 1 ^^^ (poly ^^^ c >>> 1)
          rw [← BitVec.xor_assoc, ← BitVec.xor_assoc, BitVec.xor_comm poly]
  | true =>
      cases c.getLsbD 0 with
      | false => exact (BitVec.xor_assoc _ _ _).symm
      | true =>
          -- The polynomial is added twice.
          show a >>> 1 ^^^ c >>> 1 = (poly ^^^ a >>> 1) ^^^ (poly ^^^ c >>> 1)
          rw [BitVec.xor_comm poly (a >>> 1), BitVec.xor_assoc, ← BitVec.xor_assoc poly,
            BitVec.xor_self, BitVec.zero_xor]

/-- Some shifts are linear. Kind: L -/
theorem iterate_shift_xor (k : ℕ) :
    (shift poly)^[k] (a ^^^ c) = (shift poly)^[k] a ^^^ (shift poly)^[k] c := by
  induction k generalizing a c with
  | zero => rfl
  | succ k ih => rw [Function.iterate_succ_apply, Function.iterate_succ_apply,
      Function.iterate_succ_apply, shift_xor, ih]

/-- Clear bits leave the register without a trace. Kind: L -/
theorem iterate_shift_of_clear {k : ℕ} (h : ∀ i < k, c.getLsbD i = false) :
    (shift poly)^[k] c = c >>> k := by
  induction k with
  | zero => exact (BitVec.ushiftRight_zero c).symm
  | succ k ih =>
      have hbit : (c >>> k).getLsbD 0 = false := by
        rw [BitVec.getLsbD_ushiftRight]
        exact h k (Nat.lt_succ_self k)
      rw [Function.iterate_succ_apply', ih fun i hi => h i (Nat.lt_succ_of_lt hi), shift, hbit,
        if_neg Bool.false_ne_true, ← BitVec.shiftRight_add]

/-! ## Bits coming in -/

/-- One bit as a register: its lowest. Kind: L -/
theorem getLsbD_bit (bit : Bool) (i : ℕ) :
    ((BitVec.ofBool bit).setWidth w).getLsbD i = (decide (i < w) && (decide (i = 0) && bit)) := by
  rw [BitVec.getLsbD_setWidth, BitVec.getLsbD_ofBool]

/-- A bit that comes in is added before the shift. Kind: L -/
theorem feed_eq (hw : 0 < w) (bit : Bool) :
    feed poly crc bit = shift poly (crc ^^^ (BitVec.ofBool bit).setWidth w) := by
  have hlow : (crc ^^^ (BitVec.ofBool bit).setWidth w).getLsbD 0 = (crc.getLsbD 0 != bit) := by
    rw [BitVec.getLsbD_xor, getLsbD_bit, decide_eq_true hw]
    cases crc.getLsbD 0 <;> cases bit <;> rfl
  have hgone : (BitVec.ofBool bit).setWidth w >>> 1 = 0#w := by
    apply BitVec.eq_of_getLsbD_eq
    intro i _
    rw [BitVec.getLsbD_ushiftRight, getLsbD_bit, BitVec.getLsbD_zero,
      decide_eq_false (p := 1 + i = 0) (by omega), Bool.false_and, Bool.and_false]
  rw [feed, shift, hlow, BitVec.ushiftRight_xor_distrib, hgone, BitVec.xor_zero]

/-- The bits of the number that some bits make. Kind: L -/
theorem getLsbD_ofBits {bits : List Bool} {i : ℕ} (hi : i < w) :
    (ofBits bits : BitVec w).getLsbD i = bits.getD i false := by
  induction bits generalizing i with
  | nil => exact BitVec.getLsbD_zero
  | cons b bits ih =>
      rw [ofBits, BitVec.getLsbD_xor, getLsbD_bit, BitVec.getLsbD_shiftLeft, decide_eq_true hi]
      cases i with
      | zero => simp
      | succ i => simp [ih (Nat.lt_of_succ_lt hi)]

/-- Making room for a bit and shifting again changes nothing, while there is room. Kind: L -/
theorem shift_shiftLeft_ofBits {bits : List Bool} (hlength : bits.length < w) :
    shift poly (ofBits bits <<< 1) = ofBits bits := by
  have hlow : (ofBits bits <<< 1 : BitVec w).getLsbD 0 = false := by
    rw [BitVec.getLsbD_shiftLeft, decide_eq_true Nat.one_pos, Bool.not_true, Bool.and_false,
      Bool.false_and]
  rw [shift, hlow, if_neg Bool.false_ne_true]
  apply BitVec.eq_of_getLsbD_eq
  intro i hi
  rw [BitVec.getLsbD_ushiftRight, BitVec.getLsbD_shiftLeft, Nat.add_sub_cancel_left,
    decide_eq_false (p := 1 + i < 1) (by omega), Bool.not_false, Bool.and_true]
  by_cases htop : 1 + i < w
  · rw [decide_eq_true htop, Bool.true_and]
  · -- The highest bit is none of these.
    rw [decide_eq_false htop, Bool.false_and, getLsbD_ofBits hi, List.getD_eq_default _ _ (by omega)]

/-- **Taking in some bits** is adding them to the register, and then shifting. Kind: P -/
theorem foldl_feed {bits : List Bool} (hlength : bits.length ≤ w) :
    bits.foldl (feed poly) crc = (shift poly)^[bits.length] (crc ^^^ ofBits bits) := by
  induction bits generalizing crc with
  | nil => exact (BitVec.xor_zero (x := crc)).symm
  | cons b bits ih =>
      rw [List.length_cons] at hlength
      have hsplit : shift poly (crc ^^^ ((BitVec.ofBool b).setWidth w ^^^ ofBits bits <<< 1)) =
          shift poly (crc ^^^ (BitVec.ofBool b).setWidth w) ^^^ ofBits bits := by
        rw [← BitVec.xor_assoc, shift_xor, shift_shiftLeft_ofBits hlength]
      rw [List.foldl_cons, ih (Nat.le_of_succ_le hlength), feed_eq (Nat.zero_lt_of_lt hlength),
        List.length_cons, Function.iterate_succ_apply, ofBits, hsplit]

/-! ## The table -/

/-- The number that the bits of a byte make is the byte. Kind: L -/
theorem ofBits_byteBits (b : BitVec 8) : (ofBits (byteBits b) : BitVec w) = b.setWidth w := by
  apply BitVec.eq_of_getLsbD_eq
  intro i hi
  rw [getLsbD_ofBits hi, BitVec.getLsbD_setWidth, decide_eq_true hi, Bool.true_and]
  by_cases hi8 : i < 8
  · have hcases : i = 0 ∨ i = 1 ∨ i = 2 ∨ i = 3 ∨ i = 4 ∨ i = 5 ∨ i = 6 ∨ i = 7 := by omega
    rcases hcases with rfl | rfl | rfl | rfl | rfl | rfl | rfl | rfl <;> rfl
  · rw [List.getD_eq_default _ _ (Nat.not_lt.mp hi8), BitVec.getLsbD_of_ge _ _ (Nat.not_lt.mp hi8)]

/-- The lowest eight bits of a mask of eight. Kind: L -/
theorem getLsbD_mask {i : ℕ} : (255#w).getLsbD i = (decide (i < w) && decide (i < 8)) := by
  have hmask : 255 = 2 ^ 8 - 1 := rfl
  rw [BitVec.getLsbD_ofNat, hmask, Nat.testBit_two_pow_sub_one]

/-- A register is its lowest byte and what is above it. Kind: L -/
theorem split_low (c : BitVec w) : c = (c &&& 255#w) ^^^ (c &&& ~~~255#w) := by
  apply BitVec.eq_of_getLsbD_eq
  intro i hi
  rw [BitVec.getLsbD_xor, BitVec.getLsbD_and, BitVec.getLsbD_and, BitVec.getLsbD_not,
    decide_eq_true hi]
  cases c.getLsbD i <;> cases (255#w).getLsbD i <;> rfl

/-- Eight shifts of what is above the lowest byte. Kind: L -/
theorem iterate_shift_high (c : BitVec w) : (shift poly)^[8] (c &&& ~~~255#w) = c >>> 8 := by
  rw [iterate_shift_of_clear]
  · apply BitVec.eq_of_getLsbD_eq
    intro i _
    rw [BitVec.getLsbD_ushiftRight, BitVec.getLsbD_ushiftRight, BitVec.getLsbD_and,
      BitVec.getLsbD_not, getLsbD_mask, decide_eq_false (p := 8 + i < 8) (by omega), Bool.and_false,
      Bool.not_false, Bool.and_true]
    by_cases hlt : 8 + i < w
    · rw [decide_eq_true hlt, Bool.and_true]
    · rw [BitVec.getLsbD_of_ge _ _ (Nat.not_lt.mp hlt), Bool.false_and]
  · intro i hi
    rw [BitVec.getLsbD_and, BitVec.getLsbD_not, getLsbD_mask, decide_eq_true hi, Bool.and_true]
    cases decide (i < w)
    · rw [Bool.false_and, Bool.and_false]
    · rw [Bool.not_true, Bool.and_false, Bool.and_false]

/-- **One lookup takes in the eight bits of a byte.** Kind: P -/
theorem tableStep_eq (hw : 8 ≤ w) (b : BitVec 8) :
    tableStep poly crc b = (byteBits b).foldl (feed poly) crc := by
  have hbyte : (b.setWidth w) >>> 8 = 0#w := by
    apply BitVec.eq_of_getLsbD_eq
    intro i _
    rw [BitVec.getLsbD_ushiftRight, BitVec.getLsbD_setWidth, BitVec.getLsbD_zero,
      BitVec.getLsbD_of_ge _ _ (Nat.le_add_right 8 i), Bool.and_false]
  have hhigh : crc >>> 8 = (shift poly)^[8] ((crc ^^^ b.setWidth w) &&& ~~~255#w) := by
    rw [iterate_shift_high, BitVec.ushiftRight_xor_distrib, hbyte, BitVec.xor_zero]
  have hlength : (byteBits b).length = 8 := rfl
  rw [foldl_feed (hlength ▸ hw), hlength, ofBits_byteBits, tableStep, hhigh, ← iterate_shift_xor,
    ← split_low]

/-- Bytes taken in by the table. Kind: L -/
theorem foldl_tableStep (hw : 8 ≤ w) (bytes : List (BitVec 8)) :
    bytes.foldl (tableStep poly) crc = bitwise poly crc bytes := by
  induction bytes generalizing crc with
  | nil => rfl
  | cons b bytes ih =>
      rw [List.foldl_cons, tableStep_eq hw, ih, bitwise, bitwise, List.flatMap_cons,
        List.foldl_append]

end Crc
