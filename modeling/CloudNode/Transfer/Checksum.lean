import CloudNode.Lib.Crc
import CloudNode.Transfer.Framing

/-!
# The checksum of a file

`get_crc` fills a table, reads the file in buffers of 65536 bytes, and looks up every byte. The
sender puts the result into its offers, and the receiver compares it with that of the file it has.

* `crc32` — CRC-32 of IEEE 802.3, bit by bit.
* `sends_buffers` — the buffers are what the loop reads: the last one is what is left.
* `foldl_crcStep` — the table makes of some bytes what their bits make.
* `getCrc_eq` — the value is the CRC-32 of the content, however it is divided into buffers.
-/

namespace CloudNode

/-! ## The definition -/

/-- The polynomial of IEEE 802.3, reflected. Kind: D -/
def crcPolynomial : BitVec 32 := 0xEDB88320#32

/-- CRC-32 of IEEE 802.3: the bits of the message, the lowest of each byte first, go into a register
of ones; the result is inverted. Kind: D -/
def crc32 (content : List UInt8) : BitVec 32 :=
  Crc.bitwise crcPolynomial 0xFFFFFFFF#32 (content.map UInt8.toBitVec) ^^^ 0xFFFFFFFF#32

example : crc32 (str "123456789") = 0xCBF43926#32 := by decide +kernel

/-! ## `get_crc` -/

/-- One turn of the inner loop that fills the table.
Source: `MimeDetector.hpp`, `get_crc`, `c = (c & 1) ? (0xEDB88320u ^ (c >> 1)) : (c >> 1)`
Kind: D -/
def crcShift (c : UInt32) : UInt32 :=
  if c &&& 1 ≠ 0 then (0xEDB88320 : UInt32) ^^^ (c >>> 1) else c >>> 1

/-- Source: `MimeDetector.hpp`, `get_crc`, `table`. Kind: D -/
def crcTable : Vector UInt32 256 := Vector.ofFn fun i => crcShift^[8] (UInt32.ofNat i)

/-- One turn of the loop over a buffer. The index is below 256.
Source: `MimeDetector.hpp`, `get_crc`, `crc = table[(crc ^ ..) & 0xFF] ^ (crc >> 8)`
Kind: D -/
def crcStep (crc : UInt32) (b : UInt8) : UInt32 :=
  crcTable[((crc ^^^ b.toUInt32) &&& 0xFF).toNat]?.getD 0 ^^^ (crc >>> 8)

/-- The register after some buffers, inverted. Kind: D -/
def crcOfBuffers (buffers : List (List UInt8)) : UInt32 :=
  buffers.foldl (fun crc buf => buf.foldl crcStep crc) 0xFFFFFFFF ^^^ 0xFFFFFFFF

/-- The checksum of a file that can be opened. Its loop reads as the sender's does, with a buffer of
65536 bytes.
Source: `MimeDetector.hpp`, `get_crc`
Kind: D -/
def getCrc (content : List UInt8) : UInt32 := crcOfBuffers (chunks 65536 content)

/-- The buffers that the loop reads. Kind: L -/
theorem sends_buffers (content : List UInt8) : Sends 65536 content (chunks 65536 content) :=
  sends_chunks (by decide) content

/-! ## The table -/

/-- The lowest bit, tested with a mask. Kind: L -/
theorem and_one_ne_zero_iff (c : UInt32) : c &&& 1 ≠ 0 ↔ c.toBitVec.getLsbD 0 = true := by
  have hmask : (c &&& 1).toBitVec = (BitVec.ofBool (c.toBitVec.getLsbD 0)).setWidth 32 := by
    rw [UInt32.toBitVec_and]
    exact BitVec.and_one_eq_setWidth_ofBool_getLsbD
  rw [ne_eq, ← UInt32.toBitVec_inj, hmask]
  cases c.toBitVec.getLsbD 0 <;> decide

/-- A turn of the loop that fills the table is a shift of the register. Kind: L -/
theorem toBitVec_crcShift (c : UInt32) :
    (crcShift c).toBitVec = Crc.shift crcPolynomial c.toBitVec := by
  unfold crcShift Crc.shift
  by_cases hbit : c &&& 1 ≠ 0
  · rw [if_pos hbit, if_pos ((and_one_ne_zero_iff c).mp hbit)]
    rfl
  · rw [if_neg hbit, if_neg (mt (and_one_ne_zero_iff c).mpr hbit)]
    rfl

/-- The turns of that loop are shifts of the register. Kind: L -/
theorem toBitVec_iterate_crcShift (k : ℕ) (c : UInt32) :
    (crcShift^[k] c).toBitVec = (Crc.shift crcPolynomial)^[k] c.toBitVec := by
  induction k generalizing c with
  | zero => rfl
  | succ k ih => rw [Function.iterate_succ_apply, Function.iterate_succ_apply, ih,
      toBitVec_crcShift]

/-- An entry of the table, looked up with a mask of eight bits. Kind: L -/
theorem getElem?_crcTable (c : UInt32) :
    crcTable[(c &&& 0xFF).toNat]?.getD 0 = crcShift^[8] (c &&& 0xFF) := by
  have hlt : (c &&& 0xFF).toNat < 256 := by
    rw [UInt32.toNat_and]
    exact Nat.lt_of_le_of_lt Nat.and_le_right (by decide)
  rw [Vector.getElem?_eq_getElem hlt, Option.getD_some, crcTable, Vector.getElem_ofFn,
    UInt32.ofNat_toNat]

/-- **A lookup takes in a byte.** Kind: P -/
theorem toBitVec_crcStep (crc : UInt32) (b : UInt8) :
    (crcStep crc b).toBitVec = Crc.tableStep crcPolynomial crc.toBitVec b.toBitVec := by
  rw [crcStep, getElem?_crcTable, UInt32.toBitVec_xor, toBitVec_iterate_crcShift, Crc.tableStep]
  rfl

/-- The table makes of some bytes what their bits make. Kind: L -/
theorem foldl_crcStep (crc : UInt32) (bytes : List UInt8) :
    (bytes.foldl crcStep crc).toBitVec =
      Crc.bitwise crcPolynomial crc.toBitVec (bytes.map UInt8.toBitVec) := by
  rw [← Crc.foldl_tableStep (by decide), List.foldl_map]
  induction bytes generalizing crc with
  | nil => rfl
  | cons b bytes ih => rw [List.foldl_cons, List.foldl_cons, ih, toBitVec_crcStep]

/-! ## The whole file -/

/-- Buffer after buffer is byte after byte. Kind: L -/
theorem foldl_buffers (crc : UInt32) (buffers : List (List UInt8)) :
    buffers.foldl (fun crc buf => buf.foldl crcStep crc) crc = buffers.flatten.foldl crcStep crc := by
  induction buffers generalizing crc with
  | nil => rfl
  | cons buf buffers ih => rw [List.foldl_cons, List.flatten_cons, List.foldl_append, ih]

/-- The checksum of some buffers is the CRC-32 of what they hold. Kind: L -/
theorem crcOfBuffers_eq (buffers : List (List UInt8)) :
    (crcOfBuffers buffers).toBitVec = crc32 buffers.flatten := by
  rw [crcOfBuffers, foldl_buffers, UInt32.toBitVec_xor, foldl_crcStep]
  rfl

/-- **`get_crc` is CRC-32**, of every content; and however a content comes in buffers, the loop over
them gives the same. Kind: P -/
theorem getCrc_eq : (∀ content : List UInt8, (getCrc content).toBitVec = crc32 content) ∧
    ∀ buffers : List (List UInt8), crcOfBuffers buffers = getCrc buffers.flatten := by
  have hget : ∀ content : List UInt8, (getCrc content).toBitVec = crc32 content := by
    intro content
    rw [getCrc, crcOfBuffers_eq, flatten_chunks (by decide)]
  refine ⟨hget, fun buffers => UInt32.toBitVec_inj.mp ?_⟩
  rw [hget, crcOfBuffers_eq]

end CloudNode
