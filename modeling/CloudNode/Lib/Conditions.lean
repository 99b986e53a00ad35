import Mathlib.Data.Finset.Card

/-!
# Condition variables

A thread that waits at a condition variable sleeps until it is notified, or until it wakes for no
reason; then it has to get the mutex back before it looks at its condition again, and others may get
the mutex first. A `Condition` is the set of the threads that sleep and the set of those that were
woken and have not looked yet.

* `Covered n c` — the invariant behind `notify_one`: while anybody sleeps, there is a woken thread
  for each of `n` things that the threads wait for. Each rule says what keeps it.
* `Covered.min_le` — so there are woken threads for as many of them as anybody waits for.
* `Heeded P c` — the invariant behind `notify_all`: nobody sleeps whose condition `P` is met.
-/

/-- The threads at a condition variable. Kind: D -/
structure Condition (τ : Type*) where
  asleep : Finset τ
  woken : Finset τ
  disjoint : Disjoint asleep woken

namespace Condition

variable {τ : Type*}

/-- Nobody waits. Kind: D -/
def idle : Condition τ := ⟨∅, ∅, Finset.disjoint_empty_left _⟩

/-- While anybody sleeps, there is a woken thread for each of `n` things. Kind: D -/
def Covered (n : ℕ) (c : Condition τ) : Prop := c.asleep.Nonempty → n ≤ c.woken.card

/-- Nobody sleeps whose condition is met. Kind: D -/
def Heeded (P : τ → Prop) (c : Condition τ) : Prop := ∀ t ∈ c.asleep, ¬ P t

variable {n : ℕ} {c c' : Condition τ} {t : τ} {P Q : τ → Prop}

/-- Nothing is there to be waited for. Kind: L -/
theorem covered_zero (c : Condition τ) : Covered 0 c := fun _ => Nat.zero_le _

/-- Who sleeps was not woken. Kind: L -/
theorem notMem_woken (h : t ∈ c.asleep) : t ∉ c.woken := Finset.disjoint_left.mp c.disjoint h

/-- Somebody else gets one of the things. Kind: L -/
theorem Covered.of_succ (h : Covered (n + 1) c) : Covered n c :=
  fun hasleep => Nat.le_of_succ_le (h hasleep)

/-- A change that meets nobody's condition needs no notification. Kind: L -/
theorem Heeded.mono (h : Heeded P c) (hPQ : ∀ t, Q t → P t) : Heeded Q c :=
  fun t ht hQ => h t ht (hPQ t hQ)

variable [DecidableEq τ]

/-! ## What happens to waiting threads -/

/-- A thread falls asleep. Kind: D -/
def sleep (c : Condition τ) (t : τ) : Condition τ where
  asleep := insert t c.asleep
  woken := c.woken.erase t
  disjoint := by
    rw [Finset.disjoint_insert_left]
    exact ⟨Finset.notMem_erase t _, c.disjoint.mono_right (Finset.erase_subset t _)⟩

/-- A thread is woken, by a notification or for no reason. Kind: D -/
def wake (c : Condition τ) (t : τ) : Condition τ where
  asleep := c.asleep.erase t
  woken := insert t c.woken
  disjoint := by
    rw [Finset.disjoint_insert_right]
    exact ⟨Finset.notMem_erase t _, c.disjoint.mono_left (Finset.erase_subset t _)⟩

/-- A woken thread has the mutex again. Kind: D -/
def resume (c : Condition τ) (t : τ) : Condition τ where
  asleep := c.asleep
  woken := c.woken.erase t
  disjoint := c.disjoint.mono_right (Finset.erase_subset t _)

/-- `notify_one`: some sleeping thread is woken, if there is one. Kind: D -/
def notifyOne (c : Condition τ) (choice : Option τ) : Option (Condition τ) :=
  match choice with
  | some t => if t ∈ c.asleep then some (c.wake t) else none
  | none => if c.asleep = ∅ then some c else none

/-- `notify_all`. Kind: D -/
def notifyAll (c : Condition τ) : Condition τ where
  asleep := ∅
  woken := c.asleep ∪ c.woken
  disjoint := Finset.disjoint_empty_left _

/-- The threads that are in a wait. Kind: D -/
def waiting (c : Condition τ) : Finset τ := c.asleep ∪ c.woken

/-- Each waiting thread sleeps or was woken. Kind: L -/
theorem card_waiting (c : Condition τ) : c.waiting.card = c.asleep.card + c.woken.card :=
  Finset.card_union_of_disjoint c.disjoint

/-! ## Waking one thread for each thing -/

/-- One more woken thread. Kind: L -/
theorem card_woken_wake (h : t ∈ c.asleep) : (c.wake t).woken.card = c.woken.card + 1 :=
  Finset.card_insert_of_notMem (notMem_woken h)

/-- **`notify_one` pays for one more thing.** Kind: P -/
theorem Covered.notifyOne (h : Covered n c) {choice : Option τ}
    (hnotify : c.notifyOne choice = some c') : Covered (n + 1) c' := by
  cases choice with
  | none =>
      obtain ⟨hempty, hc⟩ := Option.ite_none_right_eq_some.mp hnotify
      rw [← Option.some.inj hc]
      intro hasleep
      rw [hempty] at hasleep
      exact absurd hasleep Finset.not_nonempty_empty
  | some t =>
      obtain ⟨hmem, hc⟩ := Option.ite_none_right_eq_some.mp hnotify
      rw [← Option.some.inj hc]
      intro _
      rw [card_woken_wake hmem]
      exact Nat.succ_le_succ (h ⟨t, hmem⟩)

/-- A thread may wake for no reason. Kind: L -/
theorem Covered.wake (h : Covered n c) (hmem : t ∈ c.asleep) : Covered n (c.wake t) := by
  intro _
  rw [card_woken_wake hmem]
  exact Nat.le_succ_of_le (h ⟨t, hmem⟩)

/-- After `notify_all` nobody sleeps. Kind: L -/
theorem covered_notifyAll (n : ℕ) (c : Condition τ) : Covered n c.notifyAll :=
  fun hasleep => absurd hasleep Finset.not_nonempty_empty

/-- **A woken thread gets one of the things.** Kind: P -/
theorem Covered.resume (h : Covered (n + 1) c) (hmem : t ∈ c.woken) : Covered n (c.resume t) := by
  intro hasleep
  have hcard : (c.resume t).woken.card + 1 = c.woken.card := Finset.card_erase_add_one hmem
  have hle := h hasleep
  omega

/-- **No wake-up is lost**: of `n` things, as many as there are waiting threads for have a woken
thread that will look. Kind: P -/
theorem Covered.min_le (h : Covered n c) : min n c.waiting.card ≤ c.woken.card := by
  rw [card_waiting]
  rcases Finset.eq_empty_or_nonempty c.asleep with hempty | hasleep
  · rw [hempty, Finset.card_empty, Nat.zero_add]
    exact Nat.min_le_right _ _
  · exact (Nat.min_le_left _ _).trans (h hasleep)

/-! ## Waking everybody -/

/-- **`notify_all` pays for every change.** Kind: P -/
theorem heeded_notifyAll (P : τ → Prop) (c : Condition τ) : Heeded P c.notifyAll :=
  fun t ht => absurd ht (Finset.notMem_empty t)

/-- Who falls asleep has looked. Kind: L -/
theorem Heeded.sleep (h : Heeded P c) (ht : ¬ P t) : Heeded P (c.sleep t) := by
  intro u hu
  rcases Finset.mem_insert.mp hu with rfl | hu
  · exact ht
  · exact h u hu

/-- Fewer threads sleep. Kind: L -/
theorem Heeded.wake (h : Heeded P c) (t : τ) : Heeded P (c.wake t) :=
  fun u hu => h u (Finset.mem_of_mem_erase hu)

end Condition
