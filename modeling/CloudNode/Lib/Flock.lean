import Mathlib.Data.Nat.Notation
import Mathlib.Data.Option.Basic
import Mathlib.Logic.Function.Basic

/-!
# Advisory locks on open files

`flock` puts a lock on an open file description. A file has one exclusive lock or any number of
shared ones, whoever asks; a description loses its lock when it is closed. Descriptions are numbers
here that are never used twice; files are of any type.

* `Compatible` — when a lock is granted.
* `Exclusive` — what holds of the locks that are held; `lock` and `close` keep it.
* `Moves`, `Distinct.move` — one holder of a description at a time changes the table; no description
  comes to have two holders.
-/

namespace Flock

/-- A lock that is held. Kind: D -/
structure Held (ι : Type*) where
  fd : ℕ
  file : ι
  exclusive : Bool
  deriving DecidableEq

/-- The locks that are held. Kind: D -/
abbrev Table (ι : Type*) := List (Held ι)

variable {ι : Type*} {t t' : Table ι} {fd fd' : ℕ} {file : ι} {exclusive : Bool}

/-- A lock is granted where every lock of the file is shared, and so is this one. Kind: D -/
def Compatible (t : Table ι) (file : ι) (exclusive : Bool) : Prop :=
  ∀ h ∈ t, h.file = file → h.exclusive = false ∧ exclusive = false

/-- Whether a lock is granted can be seen from the table. Kind: D -/
instance [DecidableEq ι] : Decidable (Compatible t file exclusive) :=
  inferInstanceAs (Decidable (∀ h ∈ t, h.file = file → h.exclusive = false ∧ exclusive = false))

/-- Source: `flock`, granted. Kind: D -/
def lock (t : Table ι) (fd : ℕ) (file : ι) (exclusive : Bool) : Table ι := ⟨fd, file, exclusive⟩ :: t

/-- Source: `close`. Kind: D -/
def close (t : Table ι) (fd : ℕ) : Table ι := t.filter (·.fd ≠ fd)

/-- A file with an exclusive lock has no other lock. Kind: D -/
def Exclusive (t : Table ι) : Prop :=
  ∀ a ∈ t, ∀ b ∈ t, a.file = b.file → a.exclusive = true → a = b

/-- What is locked stays locked when another lock is granted. Kind: L -/
theorem mem_lock_of_mem {h : Held ι} (hmem : h ∈ t) : h ∈ lock t fd file exclusive :=
  List.mem_cons_of_mem _ hmem

/-- What is granted is held. Kind: L -/
theorem mem_lock_self : (⟨fd, file, exclusive⟩ : Held ι) ∈ lock t fd file exclusive :=
  List.mem_cons_self ..

/-- What is locked stays locked when another description is closed. Kind: L -/
theorem mem_close {h : Held ι} : h ∈ close t fd ↔ h ∈ t ∧ h.fd ≠ fd := by
  rw [close, List.mem_filter, decide_eq_true_eq]

/-- **A granted lock keeps the exclusion.** Kind: P -/
theorem Exclusive.lock (ht : Exclusive t) (hgranted : Compatible t file exclusive) :
    Exclusive (lock t fd file exclusive) := by
  intro a ha b hb hfile hexclusive
  rcases List.mem_cons.mp ha with rfl | ha
  · rcases List.mem_cons.mp hb with rfl | hb
    · rfl
    · have hshared := (hgranted b hb hfile.symm).2
      rw [hshared] at hexclusive
      exact (Bool.false_ne_true hexclusive).elim
  · rcases List.mem_cons.mp hb with rfl | hb
    · have hshared := (hgranted a ha hfile).1
      rw [hshared] at hexclusive
      exact (Bool.false_ne_true hexclusive).elim
    · exact ht a ha b hb hfile hexclusive

/-- **Closing keeps the exclusion.** Kind: P -/
theorem Exclusive.close (ht : Exclusive t) : Exclusive (close t fd) :=
  fun a ha b hb => ht a (mem_close.mp ha).1 b (mem_close.mp hb).1

/-- An exclusive lock and another lock of one file are the same. Kind: L -/
theorem Exclusive.fd_eq (ht : Exclusive t) (h : ⟨fd, file, true⟩ ∈ t)
    (h' : ⟨fd', file, exclusive⟩ ∈ t) : fd = fd' ∧ exclusive = true := by
  have hsame := ht _ h _ h' rfl rfl
  rw [Held.mk.injEq] at hsame
  exact ⟨hsame.1, hsame.2.2.symm⟩

/-! ## Holders -/

/-- A holder gives up its description `old`, or keeps it, or opens a new one, and changes no lock of
another description. Kind: D -/
structure Moves (old new : Option ℕ) (t t' : Table ι) (next next' : ℕ) : Prop where
  exclusive : Exclusive t → Exclusive t'
  next_le : next ≤ next'
  keeps : ∀ h ∈ t, old ≠ some h.fd → h ∈ t'
  fd : new = none ∨ new = old ∨ (new = some next ∧ next < next')

/-- A holder that changes no lock. Kind: L -/
theorem Moves.same {old new : Option ℕ} {next : ℕ} (h : new = none ∨ new = old) :
    Moves old new t t next next :=
  ⟨id, Nat.le_refl _, fun _ hmem _ => hmem, h.imp_right .inl⟩

/-- A holder that opens a description. Kind: L -/
theorem Moves.opened {old : Option ℕ} {next : ℕ} : Moves old (some next) t t next (next + 1) :=
  ⟨id, Nat.le_succ _, fun _ hmem _ => hmem, .inr (.inr ⟨rfl, Nat.lt_succ_self _⟩)⟩

/-- A holder whose description gets a lock. Kind: L -/
theorem Moves.granted {next : ℕ} (h : Compatible t file exclusive) :
    Moves (some fd) (some fd) t (lock t fd file exclusive) next next :=
  ⟨fun ht => ht.lock h, Nat.le_refl _, fun _ hmem _ => mem_lock_of_mem hmem, .inr (.inl rfl)⟩

/-- A holder that closes its description. Kind: L -/
theorem Moves.closed {next : ℕ} : Moves (some fd) none t (close t fd) next next := by
  refine ⟨Exclusive.close, Nat.le_refl _, fun h hmem hne => mem_close.mpr ⟨hmem, ?_⟩, .inl rfl⟩
  rintro rfl
  exact hne rfl

/-- No description has two holders, and none that is held is still to be opened. Kind: D -/
structure Distinct {η : Type*} (fdOf : η → Option ℕ) (next : ℕ) : Prop where
  one : ∀ a b fd, fdOf a = some fd → fdOf b = some fd → a = b
  lt : ∀ a fd, fdOf a = some fd → fd < next

/-- **One holder moves**, and still no description has two. Kind: P -/
theorem Distinct.move {η : Type*} [DecidableEq η] {fdOf : η → Option ℕ} {next next' : ℕ} {a : η}
    {new : Option ℕ} (h : Distinct fdOf next) (hmove : Moves (fdOf a) new t t' next next') :
    Distinct (Function.update fdOf a new) next' := by
  -- What the moving holder has is its old description, or one that nobody had.
  have hnew : ∀ fd, new = some fd → (fdOf a = some fd ∨ next ≤ fd) ∧ fd < next' := by
    rintro fd rfl
    rcases hmove.fd with hnone | hsame | ⟨hfresh, hlt⟩
    · exact absurd hnone (Option.some_ne_none fd)
    · exact ⟨.inl hsame.symm, Nat.lt_of_lt_of_le (h.lt a fd hsame.symm) hmove.next_le⟩
    · obtain rfl := Option.some.inj hfresh
      exact ⟨.inr (Nat.le_refl _), hlt⟩
  have hlt : ∀ b fd, Function.update fdOf a new b = some fd → fd < next' := by
    intro b fd hb
    by_cases hba : b = a
    · subst hba
      rw [Function.update_self] at hb
      exact (hnew fd hb).2
    · rw [Function.update_of_ne hba] at hb
      exact Nat.lt_of_lt_of_le (h.lt b fd hb) hmove.next_le
  have hother : ∀ b fd, b ≠ a → new = some fd → fdOf b ≠ some fd := by
    intro b fd hba hfd hb
    rcases (hnew fd hfd).1 with hold | hfresh
    · exact hba (h.one b a fd hb hold)
    · exact Nat.not_lt.mpr hfresh (h.lt b fd hb)
  refine ⟨fun b c fd hb hc => ?_, hlt⟩
  by_cases hba : b = a
  · by_cases hca : c = a
    · rw [hba, hca]
    · subst hba
      rw [Function.update_self] at hb
      rw [Function.update_of_ne hca] at hc
      exact absurd hc (hother c fd hca hb)
  · rw [Function.update_of_ne hba] at hb
    by_cases hca : c = a
    · subst hca
      rw [Function.update_self] at hc
      exact absurd hb (hother b fd hba hc)
    · rw [Function.update_of_ne hca] at hc
      exact h.one b c fd hb hc

end Flock
