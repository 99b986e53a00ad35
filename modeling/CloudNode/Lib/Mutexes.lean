import CloudNode.Lib.Runs
import Mathlib.Logic.Function.Basic
import Mathlib.Logic.Relation

/-!
# Mutexes taken in order

Code is looked at for what it does with mutexes: it holds one for the length of a scope, lets go of
one for a while and takes it again, as a condition variable does, or does several such things one
after the other, one of several, or one over and over. Threads run such code and share the mutexes;
one that is about to take a mutex waits while somebody has it.

Where every mutex has a rank, and code only takes a mutex of a higher rank than those it holds, no
threads wait for each other in a circle.

* `Code`, `Pool`, `step` — the code, the threads, and a step of one of them.
* `Ordered` — what the code has to keep to.
* `sound_of_step` — what a thread has left to do fits the mutexes that it holds.
* `exists_mover` — whoever has not finished can move, or waits, over some others, for one who can.
-/

namespace Mutexes

/-! ## Code -/

/-- What code does with mutexes. Kind: D -/
inductive Code (μ : Type*) where
  | skip
  /-- A mutex is held for the length of a scope. -/
  | hold (m : μ) (body : Code μ)
  /-- The mutex that was taken last is let go, and taken again at the end. -/
  | release (m : μ) (body : Code μ)
  | seq (first second : Code μ)
  | choice (left right : Code μ)
  /-- One of many. -/
  | any (body : ℕ → Code μ)
  | loop (body : Code μ)

/-- What a thread is about to do. Kind: D -/
inductive Item (μ : Type*) where
  | code (c : Code μ)
  | lock (m : μ)
  | unlock (m : μ)

/-- The threads, each with what it has left to do, and who has which mutex. Kind: D -/
structure Pool (ι μ : Type*) where
  owner : μ → Option ι
  rest : ι → List (Item μ)

variable {ι μ : Type*}

/-- Several pieces of code, one after the other. Kind: D -/
def block (cs : List (Code μ)) : Code μ := cs.foldr .seq .skip

/-- What a piece of code comes to, with how a choice goes. Kind: D -/
def expand (pick : ℕ) : Code μ → List (Item μ)
  | .skip => []
  | .hold m body => [.lock m, .code body, .unlock m]
  | .release m body => [.unlock m, .code body, .lock m]
  | .seq first second => [.code first, .code second]
  | .choice left right => [.code (if pick = 0 then left else right)]
  | .any body => [.code (body pick)]
  | .loop body => if pick = 0 then [] else [.code body, .code (.loop body)]

section Steps

variable [DecidableEq ι] [DecidableEq μ]

/-- One step of a thread, with how a choice goes. Kind: D -/
def step (s : Pool ι μ) (e : ι × ℕ) : Option (Pool ι μ) :=
  match s.rest e.1 with
  | [] => none
  | .code c :: rest => some { s with rest := Function.update s.rest e.1 (expand e.2 c ++ rest) }
  | .lock m :: rest =>
    if (s.owner m).isNone then
      some ⟨Function.update s.owner m (some e.1), Function.update s.rest e.1 rest⟩
    else none
  | .unlock m :: rest =>
    some ⟨Function.update s.owner m none, Function.update s.rest e.1 rest⟩

end Steps

/-- Each thread is about to run its code, and nobody has a mutex. Kind: D -/
def start (code : ι → Code μ) : Pool ι μ where
  owner := fun _ => none
  rest i := [.code (code i)]

/-! ## The order -/

variable (rank : μ → ℕ)

/-- The code only takes mutexes of higher ranks than those it holds, and lets go of none but the
last. Kind: D -/
def Ordered : List μ → Code μ → Prop
  | _, .skip => True
  | held, .hold m body => (∀ x ∈ held, rank x < rank m) ∧ Ordered (m :: held) body
  | [], .release _ _ => False
  | m' :: held, .release m body => m' = m ∧ (∀ x ∈ held, rank x < rank m) ∧ Ordered held body
  | held, .seq first second => Ordered held first ∧ Ordered held second
  | held, .choice left right => Ordered held left ∧ Ordered held right
  | held, .any body => ∀ k, Ordered held (body k)
  | held, .loop body => Ordered held body

/-- What a thread has left fits the mutexes it holds: it takes higher ones, and lets go of the last
one first, of all in the end. Kind: D -/
def Fits : List μ → List (Item μ) → Prop
  | held, [] => held = []
  | held, .code c :: rest => Ordered rank held c ∧ Fits held rest
  | held, .lock m :: rest => (∀ x ∈ held, rank x < rank m) ∧ Fits (m :: held) rest
  | [], .unlock _ :: _ => False
  | m' :: held, .unlock m :: rest => m' = m ∧ Fits held rest

variable {rank} {held : List μ} {rest : List (Item μ)}

/-- Kind: L -/
@[simp] theorem ordered_skip : Ordered rank held .skip := by
  cases held <;> trivial

/-- Kind: L -/
@[simp] theorem ordered_hold {m : μ} {body : Code μ} :
    Ordered rank held (.hold m body) ↔
      (∀ x ∈ held, rank x < rank m) ∧ Ordered rank (m :: held) body := by
  cases held <;> rfl

/-- Kind: L -/
@[simp] theorem ordered_release {m m' : μ} {body : Code μ} :
    Ordered rank (m' :: held) (.release m body) ↔
      m' = m ∧ (∀ x ∈ held, rank x < rank m) ∧ Ordered rank held body :=
  Iff.rfl

/-- Kind: L -/
@[simp] theorem ordered_seq {first second : Code μ} :
    Ordered rank held (.seq first second) ↔
      Ordered rank held first ∧ Ordered rank held second := by
  cases held <;> rfl

/-- Kind: L -/
@[simp] theorem ordered_choice {left right : Code μ} :
    Ordered rank held (.choice left right) ↔
      Ordered rank held left ∧ Ordered rank held right := by
  cases held <;> rfl

/-- Kind: L -/
@[simp] theorem ordered_any {body : ℕ → Code μ} :
    Ordered rank held (.any body) ↔ ∀ k, Ordered rank held (body k) := by
  cases held <;> rfl

/-- Kind: L -/
@[simp] theorem ordered_loop {body : Code μ} :
    Ordered rank held (.loop body) ↔ Ordered rank held body := by
  cases held <;> rfl

/-- A block is ordered where its pieces are. Kind: L -/
@[simp] theorem ordered_block {cs : List (Code μ)} :
    Ordered rank held (block cs) ↔ ∀ c ∈ cs, Ordered rank held c := by
  induction cs with
  | nil => exact iff_of_true trivial nofun
  | cons c cs ih =>
      rw [block, List.foldr_cons, Ordered, List.forall_mem_cons]
      exact and_congr_right fun _ => ih

/-- What ordered code comes to fits in its place. Kind: L -/
theorem fits_expand {c : Code μ} (pick : ℕ) (hc : Ordered rank held c)
    (hrest : Fits rank held rest) : Fits rank held (expand pick c ++ rest) := by
  cases c with
  | skip => exact hrest
  | hold m body => exact ⟨hc.1, hc.2, rfl, hrest⟩
  | release m body =>
      cases held with
      | nil => exact hc.elim
      | cons m' held =>
          obtain ⟨rfl, hranks, hbody⟩ := hc
          exact ⟨rfl, hbody, hranks, hrest⟩
  | seq first second => exact ⟨hc.1, hc.2, hrest⟩
  | choice left right =>
      refine ⟨?_, hrest⟩
      by_cases hpick : pick = 0
      · rw [if_pos hpick]
        exact hc.1
      · rw [if_neg hpick]
        exact hc.2
  | any body => exact ⟨hc pick, hrest⟩
  | loop body =>
      rw [expand]
      by_cases hpick : pick = 0
      · rw [if_pos hpick]
        exact hrest
      · rw [if_neg hpick]
        exact ⟨hc, hc, hrest⟩

/-! ## Every run -/

/-- The mutexes that each thread holds, the last one first: it has them, its code fits them, and
they were taken in order. Kind: D -/
structure Sound (rank : μ → ℕ) (s : Pool ι μ) (held : ι → List μ) : Prop where
  fits : ∀ i, Fits rank (held i) (s.rest i)
  owner : ∀ m i, s.owner m = some i ↔ m ∈ held i
  sorted : ∀ i, (held i).Pairwise fun m m' => rank m' < rank m

/-- At the start nobody holds anything. Kind: L -/
theorem sound_start {code : ι → Code μ} (hcode : ∀ i, Ordered rank [] (code i)) :
    Sound rank (start code) fun _ => [] where
  fits i := ⟨hcode i, rfl⟩
  owner _ _ := iff_of_false nofun List.not_mem_nil
  sorted _ := List.Pairwise.nil

/-- A thread that holds something has not finished. Kind: L -/
theorem Sound.rest_ne_nil {s : Pool ι μ} {held : ι → List μ} (h : Sound rank s held) {m : μ}
    {j : ι} (hmem : m ∈ held j) : s.rest j ≠ [] := by
  intro hnil
  have hfits := h.fits j
  rw [hnil, Fits] at hfits
  rw [hfits] at hmem
  cases hmem

variable [DecidableEq ι] [DecidableEq μ] {s s' : Pool ι μ} {held : ι → List μ} {i j : ι} {m : μ}

/-- A thread takes a mutex that nobody has. Kind: L -/
theorem Sound.lock (h : Sound rank s held) (hrest : s.rest i = .lock m :: rest)
    (hfree : s.owner m = none) :
    Sound rank ⟨Function.update s.owner m (some i), Function.update s.rest i rest⟩
      (Function.update held i (m :: held i)) := by
  have hfits := h.fits i
  rw [hrest] at hfits
  have hnobody : ∀ j, m ∉ held j := by
    intro j hmem
    rw [(h.owner m j).mpr hmem] at hfree
    cases hfree
  constructor
  · intro j
    by_cases hj : j = i
    · rw [hj]
      simp only [Function.update_self]
      exact hfits.2
    · simp only [Function.update_of_ne hj]
      exact h.fits j
  · intro m' j
    change Function.update s.owner m (some i) m' = some j ↔ _
    by_cases hm : m' = m
    · rw [hm]
      by_cases hj : j = i
      · rw [hj]
        simp only [Function.update_self, List.mem_cons_self]
      · simp only [Function.update_self, Function.update_of_ne hj]
        exact iff_of_false (fun hsome => hj (Option.some.inj hsome).symm) (hnobody j)
    · rw [Function.update_of_ne hm, h.owner m' j]
      by_cases hj : j = i
      · rw [hj, Function.update_self, List.mem_cons, or_iff_right hm]
      · rw [Function.update_of_ne hj]
  · intro j
    by_cases hj : j = i
    · rw [hj, Function.update_self]
      exact List.pairwise_cons.mpr ⟨hfits.1, h.sorted i⟩
    · rw [Function.update_of_ne hj]
      exact h.sorted j

/-- A thread lets go of the mutex that it took last. Kind: L -/
theorem Sound.unlock {later : List μ} (h : Sound rank s held) (hheld : held i = m :: later)
    (hfits : Fits rank later rest) :
    Sound rank ⟨Function.update s.owner m none, Function.update s.rest i rest⟩
      (Function.update held i later) := by
  have hsorted := h.sorted i
  rw [hheld, List.pairwise_cons] at hsorted
  have howner : s.owner m = some i := (h.owner m i).mpr (hheld ▸ List.mem_cons_self)
  constructor
  · intro j
    by_cases hj : j = i
    · rw [hj]
      simp only [Function.update_self]
      exact hfits
    · simp only [Function.update_of_ne hj]
      exact h.fits j
  · intro m' j
    change Function.update s.owner m none m' = some j ↔ _
    by_cases hm : m' = m
    · rw [hm, Function.update_self]
      refine iff_of_false nofun fun hmem => ?_
      by_cases hj : j = i
      · rw [hj, Function.update_self] at hmem
        exact Nat.lt_irrefl _ (hsorted.1 m hmem)
      · rw [Function.update_of_ne hj, ← h.owner m j, howner] at hmem
        exact hj (Option.some.inj hmem).symm
    · rw [Function.update_of_ne hm, h.owner m' j]
      by_cases hj : j = i
      · rw [hj, Function.update_self, hheld, List.mem_cons, or_iff_right hm]
      · rw [Function.update_of_ne hj]
  · intro j
    by_cases hj : j = i
    · rw [hj, Function.update_self]
      exact hsorted.2
    · rw [Function.update_of_ne hj]
      exact h.sorted j

/-- **What a thread has left goes on to fit what it holds.** Kind: P -/
theorem sound_of_step {e : ι × ℕ} (h : Sound rank s held) (he : step s e = some s') :
    ∃ held', Sound rank s' held' := by
  have hfits := h.fits e.1
  rw [step] at he
  cases hrest : s.rest e.1 with
  | nil =>
      rw [hrest] at he
      cases he
  | cons item rest =>
      rw [hrest] at he hfits
      cases item with
      | code c =>
          obtain rfl := Option.some.inj he
          refine ⟨held, fun j => ?_, h.owner, h.sorted⟩
          by_cases hj : j = e.1
          · rw [hj]
            simp only [Function.update_self]
            exact fits_expand e.2 hfits.1 hfits.2
          · simp only [Function.update_of_ne hj]
            exact h.fits j
      | lock m =>
          obtain ⟨hfree, he⟩ := Option.ite_none_right_eq_some.mp he
          obtain rfl := Option.some.inj he
          exact ⟨_, h.lock hrest (Option.isNone_iff_eq_none.mp hfree)⟩
      | unlock m =>
          obtain rfl := Option.some.inj he
          cases hheld : held e.1 with
          | nil =>
              rw [hheld] at hfits
              exact hfits.elim
          | cons m' later =>
              rw [hheld] at hfits
              obtain ⟨rfl, hlater⟩ := hfits
              exact ⟨_, h.unlock hheld hlater⟩

/-! ## Nobody waits in a circle -/

/-- A thread is about to take a mutex that another one has. Kind: D -/
def WaitsFor (s : Pool ι μ) (i j : ι) : Prop :=
  ∃ m rest, s.rest i = .lock m :: rest ∧ s.owner m = some j

/-- A thread that has a step, or waits for a mutex. Kind: L -/
theorem step_or_waits (hrest : s.rest i ≠ []) :
    (step s (i, 0)).isSome = true ∨
      ∃ m rest j, s.rest i = .lock m :: rest ∧ s.owner m = some j := by
  cases hcase : s.rest i with
  | nil => exact absurd hcase hrest
  | cons item rest =>
      cases item with
      | code c =>
          left
          simp only [step, hcase, Option.isSome_some]
      | unlock m =>
          left
          simp only [step, hcase, Option.isSome_some]
      | lock m =>
          cases howner : s.owner m with
          | none =>
              left
              simp only [step, hcase, howner, Option.isNone_none, if_true, Option.isSome_some]
          | some j => exact .inr ⟨m, rest, j, rfl, howner⟩

/-- **Whoever waits for a mutex waits for a thread that can move**, or for one that waits for such a
thread, and so on: the mutexes that they wait for rank higher and higher. Kind: P -/
theorem Sound.exists_mover {bound : ℕ} (hbound : ∀ m, rank m ≤ bound) (h : Sound rank s held)
    (hrest : s.rest i ≠ []) :
    ∃ j, Relation.ReflTransGen (WaitsFor s) i j ∧ (step s (j, 0)).isSome = true := by
  -- the induction is on how far the mutex that the thread waits for is from the highest rank
  suffices hwaiting : ∀ n i m rest, s.rest i = .lock m :: rest → bound - rank m = n →
      ∃ j, Relation.ReflTransGen (WaitsFor s) i j ∧ (step s (j, 0)).isSome = true by
    rcases step_or_waits hrest with hstep | ⟨m, rest, -, hlock, -⟩
    · exact ⟨i, .refl, hstep⟩
    · exact hwaiting _ i m rest hlock rfl
  intro n
  induction n using Nat.strongRecOn with
  | ind n ih =>
      intro i m rest hlock hn
      have hsome : s.rest i ≠ [] := by
        rw [hlock]
        exact List.cons_ne_nil _ _
      rcases step_or_waits hsome with hstep | ⟨m', rest', j, hlock', howner⟩
      · exact ⟨i, .refl, hstep⟩
      · rw [hlock] at hlock'
        obtain ⟨hm, -⟩ := List.cons_eq_cons.mp hlock'
        obtain rfl := Item.lock.inj hm
        have hmem := (h.owner m j).mp howner
        have hwaits : WaitsFor s i j := ⟨m, rest, hlock, howner⟩
        rcases step_or_waits (h.rest_ne_nil hmem) with hstep | ⟨m', rest', -, hnext, -⟩
        · exact ⟨j, .single hwaits, hstep⟩
        · have hfits := h.fits j
          rw [hnext] at hfits
          have hless := hfits.1 m hmem
          have hle := hbound m'
          obtain ⟨k, hpath, hstep⟩ := ih (bound - rank m') (by omega) j m' rest' hnext rfl
          exact ⟨k, .head hwaits hpath, hstep⟩

/-- **No run of ordered code comes to a circle of waiting threads.** Kind: P -/
theorem exists_mover {bound : ℕ} (hbound : ∀ m, rank m ≤ bound) {code : ι → Code μ}
    (hcode : ∀ i, Ordered rank [] (code i)) {es : List (ι × ℕ)}
    (hrun : Runs.run step (start code) es = some s) (hrest : s.rest i ≠ []) :
    ∃ j, Relation.ReflTransGen (WaitsFor s) i j ∧ (step s (j, 0)).isSome = true := by
  have hsound : ∃ held, Sound rank s held :=
    Runs.invariant_of_run step (I := fun s => ∃ held, Sound rank s held)
      (fun _ _ _ h he => h.elim fun _ hheld => sound_of_step hheld he) ⟨_, sound_start hcode⟩ hrun
  obtain ⟨held, h⟩ := hsound
  exact h.exists_mover hbound hrest

end Mutexes
