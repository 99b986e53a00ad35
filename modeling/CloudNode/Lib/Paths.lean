import Mathlib

/-!
# Paths and their lexical operations

A path is a sequence of steps, from the root or from wherever it is read, and may end in a
separator. The operations are those of `std::filesystem::path` on a POSIX system that look at the
path alone: appending, normalizing, and expressing one path relative to another. Names are of any
type.

* `normal_of_root` — a normalized path from the root is a list of names, in which each `..` has
  taken a name away.
* `relative_of_isPrefix`, `relative_self`, `relative_of_not_isPrefix` — the three things that one
  list of names can be relative to another: what is left of it, `.`, or a path that starts with
  `..`.
* `normal_upThrough` — such paths are normalized already.
* `head?_normal_eq_up_iff` — a normalized path without a root starts with `..` exactly when some of
  its steps have led above where it starts.
* `names_isPrefix_of_append` — steps without `..` stay beneath where they start.
-/

namespace Paths

/-- One element of a path: `.`, `..` or a name. Kind: D -/
inductive Step (ν : Type) where
  | here
  | up
  | down (name : ν)
  deriving DecidableEq

/-- Whether a step is `..`. Kind: D -/
def Step.isUp {ν : Type} : Step ν → Bool
  | .up => true
  | _ => false

/-- Whether a step is a name. Kind: D -/
def Step.isDown {ν : Type} : Step ν → Bool
  | .down _ => true
  | _ => false

/-- A path; `trailing` says that a separator follows its last step. Kind: D -/
structure FsPath (ν : Type) where
  root : Bool := false
  steps : List (Step ν) := []
  trailing : Bool := false
  deriving DecidableEq

namespace FsPath

variable {ν : Type}

/-- The path `.`. Kind: D -/
def dot : FsPath ν := { steps := [.here] }

/-- There is nothing in the path. Source: `path::empty`. Kind: D -/
def isEmpty (p : FsPath ν) : Bool := !p.root && p.steps.isEmpty

/-- The path without its root. Source: `path::relative_path`. Kind: D -/
def relativePath (p : FsPath ν) : FsPath ν := { p with root := false }

/-- Source: `path::operator/`. Kind: D -/
def append (p q : FsPath ν) : FsPath ν :=
  if q.root then q
  else {
    root := p.root
    steps := p.steps ++ q.steps
    trailing := if q.steps.isEmpty then !p.steps.isEmpty else q.trailing }

/-- The path as seen from a directory. Source: `std::filesystem::absolute`. Kind: D -/
def absolute (cwd p : FsPath ν) : FsPath ν := if p.root then p else cwd.append p

/-! ## Normalizing -/

/-- One more step, behind the steps that are left (the last one first). Kind: D -/
def push (root : Bool) (left : List (Step ν)) : Step ν → List (Step ν)
  | .here => left
  | .down name => .down name :: left
  | .up =>
    match left with
    | .down _ :: left => left
    | .here :: left => .up :: .here :: left
    | .up :: left => .up :: .up :: left
    | [] => if root then [] else [.up]

/-- Something that is dropped, or nothing, follows the last separator. Kind: D -/
def endsOpen (p : FsPath ν) : Bool :=
  p.trailing || match p.steps.getLast? with
    | some .here | some .up => true
    | _ => false

/-- Source: `path::lexically_normal`. Kind: D -/
def normal (p : FsPath ν) : FsPath ν :=
  match p.steps.foldl (push p.root) [] with
  | [] => if p.root || p.steps.isEmpty then { root := p.root } else dot
  | last :: left =>
    { root := p.root
      steps := (last :: left).reverse
      trailing := match last with
        | .down _ => p.endsOpen
        | _ => false }

/-! ## One path relative to another -/

/-- What an iteration over a path gives behind the root; the element behind a trailing separator
is empty, `none`. Source: `path::begin`. Kind: D -/
def elements (p : FsPath ν) : List (Option (Step ν)) :=
  p.steps.map some ++ if p.trailing then [none] else []

/-- The rests of two lists behind what they have in common. Source: `std::mismatch`. Kind: D -/
def mismatch {α : Type} [DecidableEq α] : List α → List α → List α × List α
  | a :: as, b :: bs => if a = b then mismatch as bs else (a :: as, b :: bs)
  | as, bs => (as, bs)

/-- How far an element leads down. Kind: D -/
def depth : Option (Step ν) → ℤ
  | some (.down _) => 1
  | some .up => -1
  | _ => 0

/-- The path that appending some elements one by one gives. Kind: D -/
def ofElements (es : List (Option (Step ν))) : FsPath ν where
  steps := es.filterMap id
  trailing := es.getLast?.any Option.isNone && !(es.filterMap id).isEmpty

/-- Source: `path::lexically_relative`. Kind: D -/
def relative [DecidableEq ν] (p base : FsPath ν) : FsPath ν :=
  if p.root ≠ base.root then {}
  else
    let (a, b) := mismatch p.elements base.elements
    if a = [] ∧ b = [] then dot
    else
      let n := (b.map depth).sum
      if n = 0 ∧ (a = [] ∨ a.head? = some none) then dot
      else if 0 ≤ n then ofElements (List.replicate n.toNat (some .up) ++ a)
      else {}

/-! ## Names -/

/-- One more step, behind the names that are left (the last one first); nothing leads above the
root. Kind: D -/
def climb (left : List ν) : Step ν → List ν
  | .here => left
  | .up => left.tail
  | .down name => name :: left

/-- The names on the way from the root. Kind: D -/
def names (p : FsPath ν) : List ν := (p.steps.foldl climb []).reverse

/-- The path down some names. Kind: D -/
def through (ns : List ν) : FsPath ν := { steps := ns.map .down }

/-- A path that climbs and then goes down some names. Kind: D -/
def upThrough (k : ℕ) (ns : List ν) : FsPath ν :=
  { steps := List.replicate k .up ++ ns.map .down }

/-- From the root, a step changes the names. Kind: L -/
theorem push_root (left : List ν) (s : Step ν) :
    push true (left.map .down) s = (climb left s).map .down := by
  cases s with
  | here => rfl
  | down name => rfl
  | up =>
      cases left with
      | nil => rfl
      | cons last left => rfl

/-- From the root, some steps change the names. Kind: L -/
theorem foldl_push_root (steps : List (Step ν)) (left : List ν) :
    steps.foldl (push true) (left.map .down) = (steps.foldl climb left).map .down := by
  induction steps generalizing left with
  | nil => rfl
  | cons s steps ih => rw [List.foldl_cons, push_root, ih, List.foldl_cons]

/-- **A normalized path from the root is its names.** Kind: P -/
theorem normal_of_root {p : FsPath ν} (hroot : p.root = true) :
    p.normal = ⟨true, p.names.map .down, !p.names.isEmpty && p.endsOpen⟩ := by
  have hfold := foldl_push_root p.steps []
  rw [List.map_nil] at hfold
  unfold normal names
  rw [hroot, hfold]
  cases p.steps.foldl climb [] with
  | nil => simp
  | cons last left => simp

/-- Names behind a path. Kind: L -/
theorem names_append (p : FsPath ν) (ns : List ν) :
    (p.append (through ns)).names = p.names ++ ns := by
  have hclimb : ∀ left : List ν, (ns.map Step.down).foldl climb left = ns.reverse ++ left := by
    induction ns with
    | nil => exact fun left => rfl
    | cons n ns ih =>
        intro left
        rw [List.map_cons, List.foldl_cons, ih]
        simp [climb]
  simp only [names, append, through, Bool.false_eq_true, if_false, List.foldl_append, hclimb,
    List.reverse_append, List.reverse_reverse]

/-- Going down some names leaves them. Kind: L -/
theorem foldl_push_down (root : Bool) (ns : List ν) (left : List (Step ν)) :
    (ns.map Step.down).foldl (push root) left = (ns.map Step.down).reverse ++ left := by
  induction ns generalizing left with
  | nil => rfl
  | cons n ns ih =>
      rw [List.map_cons, List.foldl_cons, ih]
      simp [push]

/-- Climbing from nowhere leaves the climb. Kind: L -/
theorem foldl_push_up (k j : ℕ) :
    (List.replicate k Step.up).foldl (push false) (List.replicate j (Step.up : Step ν)) =
      List.replicate (k + j) .up := by
  induction k generalizing j with
  | zero => simp
  | succ k ih =>
      have hpush : push false (List.replicate j (Step.up : Step ν)) .up =
          List.replicate (j + 1) .up := by
        cases j with
        | zero => rfl
        | succ j => rfl
      rw [List.replicate_succ, List.foldl_cons, hpush, ih]
      congr 1
      omega

/-- A path without a trailing separator that ends in a name does not end open. Kind: L -/
theorem endsOpen_of_getLast? {p : FsPath ν} {n : ν} (htrailing : p.trailing = false)
    (hlast : p.steps.getLast? = some (.down n)) : p.endsOpen = false := by
  simp only [endsOpen, htrailing, hlast, Bool.or_self]

/-- A path that pushing its steps leaves as it is, is normalized. Kind: L -/
theorem normal_of_foldl {p : FsPath ν} (hroot : p.root = false) (htrailing : p.trailing = false)
    (hne : p.steps ≠ []) (hfold : p.steps.foldl (push false) [] = p.steps.reverse) :
    p.normal = p := by
  obtain ⟨root, steps, trailing⟩ := p
  simp only at hroot htrailing hne hfold
  subst hroot htrailing
  unfold normal
  simp only [hfold]
  cases hrev : steps.reverse with
  | nil => exact absurd (List.reverse_eq_nil_iff.mp hrev) hne
  | cons last left =>
      have hsteps : (last :: left).reverse = steps := by rw [← hrev, List.reverse_reverse]
      cases last with
      | down n =>
          have hlast : steps.getLast? = some (.down n) := by
            rw [← hsteps, List.getLast?_reverse, List.head?_cons]
          have hopen := @endsOpen_of_getLast? _ ⟨false, steps, false⟩ n rfl hlast
          simp only [hopen, hsteps]
      | here => simp only [hsteps]
      | up => simp only [hsteps]

/-- **A climb and a way down are normalized.** Kind: P -/
theorem normal_upThrough {k : ℕ} {ns : List ν} (h : k ≠ 0 ∨ ns ≠ []) :
    (upThrough k ns).normal = upThrough k ns := by
  have hup := foldl_push_up (ν := ν) k 0
  rw [List.replicate_zero, Nat.add_zero] at hup
  apply normal_of_foldl
  · rfl
  · rfl
  · rcases h with hk | hns
    · simp [upThrough, hk]
    · simp [upThrough, hns]
  · simp only [upThrough, List.foldl_append, hup, foldl_push_down, List.reverse_append,
      List.reverse_replicate]

/-! ## Steps that lead above their start -/

/-- None of the first steps hold more `..` than names, with some names before them. Kind: D -/
def StaysWithin (depth : ℕ) (steps : List (Step ν)) : Prop :=
  ∀ front, front <+: steps → front.countP Step.isUp ≤ front.countP Step.isDown + depth

/-- The first step, and the rest. Kind: L -/
theorem staysWithin_cons {depth : ℕ} {s : Step ν} {steps : List (Step ν)} :
    StaysWithin depth (s :: steps) ↔
      ∀ front, front <+: steps →
        (s :: front).countP Step.isUp ≤ (s :: front).countP Step.isDown + depth := by
  constructor
  · intro h front hfront
    exact h (s :: front) ((List.prefix_cons_inj s).mpr hfront)
  · intro h front hfront
    cases front with
    | nil => exact Nat.zero_le _
    | cons s' front =>
        rw [List.cons_prefix_cons] at hfront
        rw [hfront.1]
        exact h front hfront.2

/-- **What pushing leaves without a root**: a climb and some names; the climb gets longer exactly
where the steps lead above their start. Kind: P -/
theorem foldl_push_false (steps : List (Step ν)) (ns : List ν) (k : ℕ) :
    ∃ (ms : List ν) (j : ℕ), steps.foldl (push false) (ns.map .down ++ List.replicate k .up) =
      ms.map .down ++ List.replicate j .up ∧ k ≤ j ∧ (j = k ↔ StaysWithin ns.length steps) := by
  induction steps generalizing ns k with
  | nil =>
      refine ⟨ns, k, rfl, Nat.le_refl k, fun _ front hfront => ?_, fun _ => rfl⟩
      rw [List.prefix_nil.mp hfront]
      exact Nat.zero_le _
  | cons s steps ih =>
      cases s with
      | here =>
          obtain ⟨ms, j, hfold, hle, hiff⟩ := ih ns k
          refine ⟨ms, j, hfold, hle, hiff.trans ?_⟩
          rw [staysWithin_cons]
          simp [StaysWithin, Step.isUp, Step.isDown]
      | down n =>
          obtain ⟨ms, j, hfold, hle, hiff⟩ := ih (n :: ns) k
          refine ⟨ms, j, hfold, hle, hiff.trans ?_⟩
          rw [staysWithin_cons]
          refine forall₂_congr fun front _ => ?_
          simp only [List.countP_cons, Step.isUp, Step.isDown, List.length_cons, if_true,
            Bool.false_eq_true, if_false]
          omega
      | up =>
          cases ns with
          | cons n ns =>
              obtain ⟨ms, j, hfold, hle, hiff⟩ := ih ns k
              refine ⟨ms, j, hfold, hle, hiff.trans ?_⟩
              rw [staysWithin_cons]
              refine forall₂_congr fun front _ => ?_
              simp only [List.countP_cons, Step.isUp, Step.isDown, List.length_cons, if_true,
                Bool.false_eq_true, if_false]
              omega
          | nil =>
              -- Here it leads above.
              have hpush : push false (List.replicate k (Step.up : Step ν)) .up =
                  List.replicate (k + 1) .up := by
                cases k with
                | zero => rfl
                | succ k => rfl
              obtain ⟨ms, j, hfold, hle, hiff⟩ := ih [] (k + 1)
              refine ⟨ms, j, ?_, by omega, fun h => absurd h (by omega), fun h => ?_⟩
              · rw [List.foldl_cons, List.map_nil, List.nil_append, hpush]
                exact hfold
              · have hup := h [.up] (by simp)
                simp [Step.isUp, Step.isDown] at hup

/-- **A normalized path without a root** is a climb and some names, or `.`; there is a climb exactly
where the steps lead above their start. Kind: P -/
theorem normal_of_not_root {p : FsPath ν} (hroot : p.root = false) :
    ∃ (ns : List ν) (k : ℕ), (k = 0 ↔ StaysWithin 0 p.steps) ∧
      (p.normal.steps = (upThrough k ns).steps ∨ (k = 0 ∧ p.normal.steps = [.here])) := by
  obtain ⟨ms, j, hfold, -, hiff⟩ := foldl_push_false p.steps [] 0
  rw [List.map_nil, List.replicate_zero, List.nil_append] at hfold
  refine ⟨ms.reverse, j, hiff, ?_⟩
  have hsteps : (upThrough j ms.reverse).steps =
      (ms.map Step.down ++ List.replicate j Step.up).reverse := by
    rw [upThrough, List.reverse_append, List.reverse_replicate, List.map_reverse]
  rw [hsteps]
  unfold normal
  rw [hroot, hfold]
  cases hleft : ms.map Step.down ++ List.replicate j Step.up with
  | nil =>
      obtain ⟨-, hreplicate⟩ := List.append_eq_nil_iff.mp hleft
      simp only [Bool.false_or]
      split
      · exact .inl rfl
      · exact .inr ⟨(List.replicate_eq_nil_iff _).mp hreplicate, rfl⟩
  | cons last left => exact .inl rfl

/-- A normalized path without a root is empty where there are no steps. Kind: L -/
theorem isEmpty_normal_iff {p : FsPath ν} (hroot : p.root = false) :
    p.normal.isEmpty = true ↔ p.steps = [] := by
  unfold normal isEmpty
  rw [hroot]
  cases hsteps : p.steps with
  | nil => simp
  | cons s steps =>
      cases (s :: steps).foldl (push false) [] with
      | nil => simp [dot]
      | cons last left => simp

/-- **When a normalized path starts with `..`**: its steps have led above their start. Kind: P -/
theorem head?_normal_eq_up_iff {p : FsPath ν} (hroot : p.root = false) :
    p.normal.steps.head? = some .up ↔ ¬ StaysWithin 0 p.steps := by
  obtain ⟨ns, k, hiff, hnormal⟩ := normal_of_not_root hroot
  rw [← not_congr hiff]
  rcases hnormal with hnormal | ⟨hk, hnormal⟩
  · rw [hnormal]
    cases k with
    | zero =>
        cases ns with
        | nil => simp [upThrough]
        | cons n ns => simp [upThrough]
    | succ k => simp [upThrough, List.replicate_succ]
  · rw [hnormal, hk]
    simp

/-- A normalized path that does not start with `..` holds none. Kind: L -/
theorem isUp_of_mem_normal {p : FsPath ν} (hroot : p.root = false) (h : StaysWithin 0 p.steps) :
    ∀ s ∈ p.normal.steps, s.isUp = false := by
  obtain ⟨ns, k, hiff, hnormal⟩ := normal_of_not_root hroot
  rcases hnormal with hnormal | ⟨-, hnormal⟩
  · rw [hnormal, hiff.mpr h]
    intro s hs
    rw [upThrough, List.replicate_zero, List.nil_append] at hs
    obtain ⟨n, -, rfl⟩ := List.mem_map.mp hs
    rfl
  · rw [hnormal]
    intro s hs
    obtain rfl := List.mem_singleton.mp hs
    rfl

/-- **Steps without `..` stay beneath where they start.** Kind: P -/
theorem names_isPrefix_of_append (root : Bool) (steps more : List (Step ν))
    (h : ∀ s ∈ more, s.isUp = false) :
    names ⟨root, steps, false⟩ <+: names ⟨root, steps ++ more, false⟩ := by
  unfold names
  simp only
  rw [List.foldl_append]
  generalize steps.foldl climb [] = left
  induction more generalizing left with
  | nil => exact List.prefix_rfl
  | cons s more ih =>
      have hmore := ih (fun s' hs' => h s' (List.mem_cons_of_mem s hs'))
      have hs := h s (List.mem_cons_self ..)
      cases s with
      | here => exact hmore left
      | up => exact absurd hs (by simp [Step.isUp])
      | down n =>
          refine List.IsPrefix.trans ?_ (hmore (n :: left))
          rw [List.reverse_cons]
          exact List.prefix_append _ _

/-! ## Names relative to names -/

/-- What two lists have in common is skipped. Kind: L -/
theorem mismatch_append {α : Type} [DecidableEq α] (common as bs : List α) :
    mismatch (common ++ as) (common ++ bs) = mismatch as bs := by
  induction common with
  | nil => rfl
  | cons c common ih => simp only [List.cons_append, mismatch, if_true, ih]

/-- Lists that differ at once have nothing in common. Kind: L -/
theorem mismatch_of_head {α : Type} [DecidableEq α] {as bs : List α} (h : as.head? ≠ bs.head?) :
    mismatch as bs = (as, bs) := by
  cases as with
  | nil => simp [mismatch]
  | cons a as =>
      cases bs with
      | nil => simp [mismatch]
      | cons b bs =>
          have hne : a ≠ b := by simpa using h
          simp only [mismatch, if_neg hne]

/-- A list that is no prefix leaves the other one somewhere. Kind: L -/
theorem exists_split {α : Type} [DecidableEq α] {xs ys : List α} (h : ¬ ys <+: xs) :
    ∃ common xs' y ys', xs = common ++ xs' ∧ ys = common ++ y :: ys' ∧ xs'.head? ≠ some y := by
  induction ys generalizing xs with
  | nil => exact absurd List.nil_prefix h
  | cons y ys ih =>
      by_cases hhead : xs.head? = some y
      · obtain ⟨xs, rfl⟩ : ∃ xs', xs = y :: xs' := by
          cases xs with
          | nil => simp at hhead
          | cons x xs => exact ⟨xs, by simpa using hhead⟩
        rw [List.prefix_cons_inj] at h
        obtain ⟨common, xs', y', ys', rfl, rfl, hne⟩ := ih h
        exact ⟨y :: common, xs', y', ys', rfl, rfl, hne⟩
      · exact ⟨[], xs, y, ys, rfl, rfl, hhead⟩

/-- The elements of a path through names. Kind: L -/
theorem elements_of_names {p : FsPath ν} {ns : List ν} (hsteps : p.steps = ns.map .down) :
    p.elements = ns.map (fun n => some (.down n)) ++ if p.trailing then [none] else [] := by
  simp [elements, hsteps]

/-- What is behind the common names leads down by their number. Kind: L -/
theorem sum_depth (ns : List ν) (b : Bool) :
    ((ns.map (fun n => some (Step.down n)) ++ if b then [none] else []).map depth).sum =
      (ns.length : ℤ) := by
  induction ns with
  | nil =>
      cases b with
      | true => rfl
      | false => rfl
  | cons n ns ih =>
      rw [List.map_cons, List.cons_append, List.map_cons, List.sum_cons, ih]
      simp only [depth, List.length_cons]
      omega

/-- The path that some steps make, none of them empty. Kind: L -/
theorem ofElements_map_some (steps : List (Step ν)) :
    ofElements (steps.map some) = { steps := steps } := by
  have hlast : (steps.map some).getLast?.any Option.isNone = false := by
    rw [List.getLast?_map]
    cases steps.getLast? with
    | none => rfl
    | some s => rfl
  have hfilter : (steps.map some).filterMap id = steps := by
    rw [List.filterMap_map]
    exact List.filterMap_some
  simp only [ofElements, hlast, hfilter, Bool.false_and]

/-- The path that a climb and some names make. Kind: L -/
theorem ofElements_upThrough (k : ℕ) (ns : List ν) :
    ofElements (List.replicate k (some .up) ++ ns.map fun n => some (.down n)) =
      upThrough k ns := by
  have hsome : (List.replicate k (some .up) ++ ns.map fun n => some (.down n)) =
      (List.replicate k Step.up ++ ns.map Step.down).map some := by
    simp
  rw [hsome, ofElements_map_some]
  rfl

variable [DecidableEq ν] {p base : FsPath ν} {fs bs rest : List ν}

/-- **Beneath a list of names** is what is left of a longer one. Kind: P -/
theorem relative_of_isPrefix (hroot : p.root = base.root) (htrailing : p.trailing = false)
    (hp : p.steps = (bs ++ rest).map .down) (hbase : base.steps = bs.map .down) (hrest : rest ≠ []) :
    p.relative base = through rest := by
  have hhead : (rest.map fun n => some (Step.down n)).head? ≠
      (if base.trailing then [none] else []).head? := by
    cases rest with
    | nil => exact absurd rfl hrest
    | cons r rest =>
        cases base.trailing with
        | true => simp
        | false => simp
  have hmismatch : mismatch p.elements base.elements =
      (rest.map fun n => some (Step.down n), if base.trailing then [none] else []) := by
    rw [elements_of_names hp, elements_of_names hbase, htrailing, List.map_append, List.append_assoc,
      mismatch_append]
    simp only [Bool.false_eq_true, if_false, List.append_nil]
    exact mismatch_of_head hhead
  have hdepth := sum_depth (ν := ν) [] base.trailing
  rw [List.map_nil, List.nil_append, List.length_nil, Nat.cast_zero] at hdepth
  have hup : ofElements (rest.map fun n => some (Step.down n)) = upThrough 0 rest :=
    ofElements_upThrough 0 rest
  unfold relative
  simp only [hroot, ne_eq, not_true_eq_false, if_false, hmismatch, hdepth]
  cases rest with
  | nil => exact absurd rfl hrest
  | cons r rest =>
      rw [if_neg (by simp), if_neg (by simp), if_pos le_rfl]
      exact hup

/-- **A list of names relative to itself** is `.`. Kind: P -/
theorem relative_self (hroot : p.root = base.root) (htrailing : p.trailing = false)
    (hp : p.steps = bs.map .down) (hbase : base.steps = bs.map .down) : p.relative base = dot := by
  have hmismatch : mismatch p.elements base.elements =
      ([], if base.trailing then [none] else []) := by
    rw [elements_of_names hp, elements_of_names hbase, htrailing, mismatch_append]
    simp [mismatch]
  have hdepth := sum_depth (ν := ν) [] base.trailing
  rw [List.map_nil, List.nil_append, List.length_nil, Nat.cast_zero] at hdepth
  unfold relative
  simp only [hroot, ne_eq, not_true_eq_false, if_false, hmismatch, hdepth]
  simp

/-- **Outside a list of names** the way leads up. Kind: P -/
theorem relative_of_not_isPrefix (hroot : p.root = base.root) (htrailing : p.trailing = false)
    (hp : p.steps = fs.map .down) (hbase : base.steps = bs.map .down) (h : ¬ bs <+: fs) :
    ∃ k ns, p.relative base = upThrough (k + 1) ns := by
  obtain ⟨common, ns, b, bs, rfl, rfl, hne⟩ := exists_split h
  refine ⟨bs.length, ns, ?_⟩
  have hhead : (ns.map fun n => some (Step.down n)).head? ≠
      ((b :: bs).map (fun n => some (Step.down n)) ++
        if base.trailing then [none] else []).head? := by
    cases ns with
    | nil => simp
    | cons n ns => simpa using hne
  have hmismatch : mismatch p.elements base.elements = (ns.map fun n => some (Step.down n),
      (b :: bs).map (fun n => some (Step.down n)) ++ if base.trailing then [none] else []) := by
    rw [elements_of_names hp, elements_of_names hbase, htrailing, List.map_append, List.map_append,
      List.append_assoc, List.append_assoc, mismatch_append]
    simp only [Bool.false_eq_true, if_false, List.append_nil]
    exact mismatch_of_head hhead
  unfold relative
  simp only [hroot, ne_eq, not_true_eq_false, if_false, hmismatch, sum_depth]
  rw [if_neg (by simp), if_neg (by simp; omega), if_pos (by omega), Int.toNat_natCast]
  exact ofElements_upThrough (bs.length + 1) ns

end FsPath

end Paths
