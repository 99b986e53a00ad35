import Mathlib.Data.List.Basic
import Mathlib.Data.List.Infix
import Mathlib.Data.List.Nodup
import Mathlib.Data.List.Count
import Mathlib.Data.List.Range

/-!
# Blocks on a stream

Several blocks, each with a key and a length, are put on one stream that marks no boundaries. The
receiver finds them by counting, so the stream has to carry block after block in an order both
sides know. A position of a block is its key and a number below its length.

* `part` — the positions of a block from one to another.
* `stream` — the blocks of a list of keys, one after another.
* `held` — how many positions of a block a list has.
* `append_part_prefix_iff` — **the next part**: a list that is the beginning of the stream, followed
  by the part of a block that it lacks, is a beginning too exactly when it has the blocks before.
-/

namespace Blocks

variable {ι : Type*} {size : ι → ℕ} {i j k : ι} {start mid stop n : ℕ} {keys pre post : List ι}
  {l l' more : List (ι × ℕ)}

/-- The positions of a block from `start` to before `stop`. Kind: D -/
def part (i : ι) (start stop : ℕ) : List (ι × ℕ) :=
  (List.range' start (stop - start)).map fun p => (i, p)

/-- The blocks of a list of keys, one after another. Kind: D -/
def stream (size : ι → ℕ) (keys : List ι) : List (ι × ℕ) :=
  keys.flatMap fun i => part i 0 (size i)

/-! ## Parts -/

/-- How long a part is. Kind: L -/
@[simp] theorem length_part : (part i start stop).length = stop - start := by
  rw [part, List.length_map, List.length_range']

/-- Two parts that meet. Kind: L -/
theorem part_append (hstart : start ≤ mid) (hstop : mid ≤ stop) :
    part i start mid ++ part i mid stop = part i start stop := by
  have hmid : start + 1 * (mid - start) = mid := by omega
  have hlength : mid - start + (stop - mid) = stop - start := by omega
  rw [part, part, part, ← List.map_append, ← hlength, ← List.range'_append, hmid]

/-- The first position of a part. Kind: L -/
theorem part_eq_cons (h : start < stop) :
    part i start stop = (i, start) :: part i (start + 1) stop := by
  have hlength : stop - start = stop - (start + 1) + 1 := by omega
  rw [part, part, hlength, List.range'_succ, List.map_cons]

/-- A part without positions. Kind: L -/
theorem part_eq_nil (h : stop ≤ start) : part i start stop = [] := by
  rw [part, Nat.sub_eq_zero_of_le h]
  rfl

/-- The positions of a part. Kind: L -/
theorem mem_part {x : ι × ℕ} (h : x ∈ part i start stop) : x.1 = i := by
  obtain ⟨p, -, rfl⟩ := List.mem_map.mp h
  rfl

/-! ## Streams -/

/-- No blocks, no stream. Kind: L -/
@[simp] theorem stream_nil : stream size [] = [] := rfl

/-- The first block of a stream. Kind: L -/
theorem stream_cons : stream size (k :: keys) = part k 0 (size k) ++ stream size keys :=
  List.flatMap_cons

/-- Blocks, and more of them. Kind: L -/
theorem stream_append : stream size (pre ++ post) = stream size pre ++ stream size post :=
  List.flatMap_append

/-- The keys of a stream. Kind: L -/
theorem mem_of_mem_stream {x : ι × ℕ} (h : x ∈ stream size keys) : x.1 ∈ keys := by
  obtain ⟨i, hi, hx⟩ := List.mem_flatMap.mp h
  rw [mem_part hx]
  exact hi

/-- The stream depends on the lengths of its own blocks only. Kind: L -/
theorem stream_congr {size' : ι → ℕ} (h : ∀ i ∈ keys, size i = size' i) :
    stream size keys = stream size' keys := by
  induction keys with
  | nil => rfl
  | cons k keys ih =>
      rw [stream_cons, stream_cons, h k (List.mem_cons_self ..),
        ih fun i hi => h i (List.mem_cons_of_mem k hi)]

/-! ## Beginnings of a stream -/

/-- A beginning of a block and a list. Kind: L -/
theorem prefix_part_append (h : l <+: part k 0 n ++ more) :
    l = part k 0 l.length ∧ l.length ≤ n ∨ ∃ l', l = part k 0 n ++ l' ∧ l' <+: more := by
  by_cases hlength : l.length ≤ n
  · refine .inl ⟨?_, hlength⟩
    have hsplit := part_append (i := k) (Nat.zero_le l.length) hlength
    rw [← hsplit, List.append_assoc] at h
    have hmine : part k 0 l.length <+: part k 0 l.length ++ (part k l.length n ++ more) :=
      List.prefix_append _ _
    refine (List.prefix_of_prefix_length_le h hmine ?_).eq_of_length ?_
    · rw [length_part]
      omega
    · rw [length_part]
      omega
  · refine .inr ?_
    obtain ⟨l', rfl⟩ := List.prefix_of_prefix_length_le (List.prefix_append _ _) h
      (by rw [length_part]; omega)
    exact ⟨l', rfl, (List.prefix_append_right_inj _).mp h⟩

/-- What comes next on a stream is of the block whose turn it is. Kind: L -/
theorem eq_of_next_part {i j : ι} {pos : ℕ} (hstart : start < stop) (hpos : pos < n)
    (h : part i start stop <+: part j pos n ++ more) : i = j ∧ start = pos := by
  rw [part_eq_cons hstart, part_eq_cons hpos, List.cons_append, List.cons_prefix_cons] at h
  exact Prod.mk.inj h.1

/-! ## Counting -/

variable [DecidableEq ι]

/-- How many positions of a block a list has. Kind: D -/
def held (l : List (ι × ℕ)) (i : ι) : ℕ := l.countP fun x => x.1 = i

/-- An empty list has none. Kind: L -/
@[simp] theorem held_nil : held ([] : List (ι × ℕ)) i = 0 := rfl

/-- Counting adds up. Kind: L -/
theorem held_append : held (l ++ l') i = held l i + held l' i := List.countP_append

/-- A part counts for its own block. Kind: L -/
theorem held_part_same : held (part i start stop) i = stop - start := by
  rw [held, List.countP_eq_length.mpr, length_part]
  intro x hx
  exact decide_eq_true (mem_part hx)

/-- A part counts for no other block. Kind: L -/
theorem held_part_ne (h : i ≠ j) : held (part i start stop) j = 0 := by
  rw [held, List.countP_eq_zero]
  intro x hx hj
  exact h ((mem_part hx).symm.trans (of_decide_eq_true hj))

/-- A list without a block's key has none of it. Kind: L -/
theorem held_eq_zero (h : ∀ x ∈ l, x.1 ≠ i) : held l i = 0 := by
  rw [held, List.countP_eq_zero]
  intro x hx hi
  exact h x hx (of_decide_eq_true hi)

/-- A beginning has no more of a block. Kind: L -/
theorem held_mono (h : l <+: l') : held l i ≤ held l' i := h.sublist.countP_le

/-- The stream of distinct blocks has each whole. Kind: L -/
theorem held_stream (hkeys : keys.Nodup) (hi : i ∈ keys) : held (stream size keys) i = size i := by
  induction keys with
  | nil => exact (List.not_mem_nil hi).elim
  | cons k keys ih =>
      obtain ⟨hk, hnodup⟩ := List.nodup_cons.mp hkeys
      rw [stream_cons, held_append]
      obtain rfl | hi := List.mem_cons.mp hi
      · have hzero : held (stream size keys) i = 0 := by
          apply held_eq_zero
          rintro x hx rfl
          exact hk (mem_of_mem_stream hx)
        rw [held_part_same, hzero]
        rfl
      · have hne : k ≠ i := by
          rintro rfl
          exact hk hi
        rw [held_part_ne hne, ih hnodup hi, Nat.zero_add]

/-! ## The next part -/

/-- A beginning that has the first blocks whole and lacks some of the next. Kind: L -/
theorem eq_of_whole (hkeys : (pre ++ k :: post).Nodup) (h : l <+: stream size (pre ++ k :: post))
    (hpre : ∀ i ∈ pre, held l i = size i) (hk : held l k < size k) :
    l = stream size pre ++ part k 0 (held l k) := by
  induction pre generalizing l with
  | nil =>
      rw [List.nil_append, stream_cons] at h
      obtain ⟨heq, -⟩ | ⟨l', rfl, -⟩ := prefix_part_append h
      · have hheld : held l k = l.length := by
          rw [heq, held_part_same, length_part]
        rw [hheld]
        exact heq
      · rw [held_append, held_part_same] at hk
        omega
  | cons j pre ih =>
      rw [List.cons_append, stream_cons] at h
      rw [List.cons_append, List.nodup_cons] at hkeys
      have hj := hpre j (List.mem_cons_self ..)
      obtain ⟨l', rfl, hl'⟩ : ∃ l', l = part j 0 (size j) ++ l' ∧
          l' <+: stream size (pre ++ k :: post) := by
        obtain ⟨heq, hle⟩ | hsplit := prefix_part_append h
        · refine ⟨[], ?_, List.nil_prefix⟩
          rw [heq, held_part_same] at hj
          rw [List.append_nil, heq]
          congr 1
        · exact hsplit
      have hother {i : ι} (hi : i ∈ pre ++ k :: post) :
          held (part j 0 (size j) ++ l') i = held l' i := by
        have hne : j ≠ i := by
          rintro rfl
          exact hkeys.1 hi
        rw [held_append, held_part_ne hne, Nat.zero_add]
      have hmem : k ∈ pre ++ k :: post := List.mem_append_right _ (List.mem_cons_self ..)
      rw [hother hmem] at hk ⊢
      rw [stream_cons, List.append_assoc, ← ih hkeys.2 hl' ?_ hk]
      intro i hi
      rw [← hother (List.mem_append_left _ hi)]
      exact hpre i (List.mem_cons_of_mem j hi)

/-- **The next part**: where a list is a beginning of the stream, what follows in one block, from
what the list has of it, makes a beginning exactly when the list has the blocks before whole.
Kind: P -/
theorem append_part_prefix_iff (hkeys : (pre ++ k :: post).Nodup)
    (h : l <+: stream size (pre ++ k :: post)) (hstart : held l k < stop) (hstop : stop ≤ size k) :
    l ++ part k (held l k) stop <+: stream size (pre ++ k :: post) ↔
      ∀ i ∈ pre, held l i = size i := by
  constructor
  · intro hnext i hi
    have hin : stream size pre <+: stream size (pre ++ k :: post) := by
      rw [stream_append]
      exact List.prefix_append _ _
    have hk : k ∉ pre := fun hc =>
      (List.disjoint_of_nodup_append hkeys) hc (List.mem_cons_self ..)
    -- The next position cannot be one of the blocks before, so the list has all of these.
    have hall : stream size pre <+: l := by
      by_contra hnot
      have hlt : l.length < (stream size pre).length := by
        by_contra hge
        rw [not_lt] at hge
        exact hnot (List.prefix_of_prefix_length_le hin h hge)
      have hone : l ++ [(k, held l k)] <+: stream size (pre ++ k :: post) := by
        rw [part_eq_cons hstart] at hnext
        refine List.IsPrefix.trans ?_ hnext
        rw [List.prefix_append_right_inj]
        exact ⟨_, rfl⟩
      have hinside : l ++ [(k, held l k)] <+: stream size pre := by
        apply List.prefix_of_prefix_length_le hone hin
        rw [List.length_append, List.length_singleton]
        exact hlt
      have hmem : (k, held l k) ∈ stream size pre :=
        hinside.subset (List.mem_append_right _ (List.mem_singleton_self _))
      exact hk (mem_of_mem_stream hmem)
    have hle := held_mono (i := i) h
    have hge := held_mono (i := i) hall
    rw [held_stream hkeys (List.mem_append_left _ hi)] at hle
    rw [held_stream hkeys.of_append_left hi] at hge
    exact le_antisymm hle hge
  · intro hpre
    have heq := eq_of_whole hkeys h hpre (by omega)
    generalize held l k = start at heq hstart
    subst heq
    rw [List.append_assoc, part_append (Nat.zero_le _) hstart.le, stream_append,
      List.prefix_append_right_inj, stream_cons, ← part_append (Nat.zero_le _) hstop,
      List.append_assoc]
    exact List.prefix_append _ _

end Blocks
