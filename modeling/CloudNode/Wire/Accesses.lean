import CloudNode.Wire.Router

/-!
# Computing with accesses

A handler is a computation that can break the precondition of an access. `Safe` says of one that
it does not; the rules take a computation apart at its accesses, so that what is left of a handler
is the condition under which each access is made and what it needs.

* `bind_eq_ok`, `guard_eq_ok`, `stringAt_eq_ok` — what a computation that came to an end did.
* `safe_bind`, `safe_guard`, `safe_stringAt` — when a computation comes to an end.
-/

namespace CloudNode

namespace Json

variable {α β : Type}

/-! ## What a computation did -/

/-- A computation that has not faulted goes on. Kind: L -/
theorem ok_bind (a : α) (f : α → Except Fault β) : (Except.ok a >>= f) = f a := rfl

/-- A computation without faults had none in its first part. Kind: L -/
theorem bind_eq_ok {x : Except Fault α} {f : α → Except Fault β} {b : β} :
    (x >>= f) = .ok b ↔ ∃ a, x = .ok a ∧ f a = .ok b := by
  cases x with
  | error e =>
      constructor
      · intro h
        cases h
      · rintro ⟨a, h, -⟩
        cases h
  | ok a =>
      constructor
      · exact fun h => ⟨a, rfl, h⟩
      · rintro ⟨a', h, hf⟩
        cases h
        exact hf

/-- A guard that returns early. Kind: L -/
theorem guard_eq_ok {c : Bool} {a r : α} {x : Except Fault α} :
    (if c = true then (pure a : Except Fault α) else x) = .ok r ↔
      (c = true ∧ a = r) ∨ (c = false ∧ x = .ok r) := by
  cases c with
  | true => simp [pure, Except.pure]
  | false => simp

/-- A string member, read. Kind: L -/
theorem stringAt_eq_ok {members : List (Str × Json)} {k s : Str} :
    (obj members).stringAt k = .ok s ↔ ∃ v, find? members k = some (.str v) ∧ s = cstr v := by
  constructor
  · intro h
    unfold stringAt at h
    obtain ⟨w, hw, hs⟩ := bind_eq_ok.mp h
    cases hf : find? members k with
    | none => simp [member, hf] at hw
    | some v =>
        rw [member_of_find hf, Except.ok.injEq] at hw
        subst hw
        cases v <;> simp [getString] at hs
        exact ⟨_, rfl, hs.symm⟩
  · rintro ⟨v, hv, rfl⟩
    exact stringAt_of_find hv

/-! ## Computations that break no precondition -/

/-- The computation breaks no precondition. Kind: D -/
def Safe (x : Except Fault α) : Prop := ∃ a, x = .ok a

/-- Whether a computation breaks a precondition can be seen by running it. Kind: D -/
instance (x : Except Fault α) : Decidable (Safe x) :=
  match x with
  | .ok a => isTrue ⟨a, rfl⟩
  | .error _ => isFalse fun ⟨_, h⟩ => by cases h

/-- A result breaks nothing. Kind: L -/
@[simp] theorem safe_pure (a : α) : Safe (pure a : Except Fault α) := ⟨a, rfl⟩

/-- Two computations in a row are safe together when the first is safe and the second is, after
what the first gives. Kind: L -/
theorem safe_bind {x : Except Fault α} {f : α → Except Fault β} :
    Safe (x >>= f) ↔ ∃ a, x = .ok a ∧ Safe (f a) := by
  constructor
  · rintro ⟨b, hb⟩
    obtain ⟨a, ha, hf⟩ := bind_eq_ok.mp hb
    exact ⟨a, ha, b, hf⟩
  · rintro ⟨a, ha, b, hf⟩
    exact ⟨b, bind_eq_ok.mpr ⟨a, ha, hf⟩⟩

/-- A second computation that is safe whatever it is given leaves the first one. Kind: L -/
theorem safe_bind_of_forall {x : Except Fault α} {f : α → Except Fault β} (hf : ∀ a, Safe (f a)) :
    Safe (x >>= f) ↔ Safe x := by
  rw [safe_bind]
  constructor
  · rintro ⟨a, ha, -⟩
    exact ⟨a, ha⟩
  · rintro ⟨a, ha⟩
    exact ⟨a, ha, hf a⟩

/-- A guard protects what is behind it. Kind: L -/
theorem safe_guard {c : Bool} {a : α} {x : Except Fault α} :
    Safe (if c = true then pure a else x) ↔ (c = false → Safe x) := by
  cases c with
  | true => simp
  | false => simp

variable {members : List (Str × Json)} {k : Str}

/-- Reading a string needs a member of that name that is a string. Kind: L -/
theorem safe_stringAt : Safe ((obj members).stringAt k) ↔ (find? members k).any isString = true := by
  constructor
  · rintro ⟨s, hs⟩
    obtain ⟨v, hv, -⟩ := stringAt_eq_ok.mp hs
    rw [hv]
    rfl
  · intro h
    obtain ⟨s, hs⟩ := exists_string_of_any h
    exact ⟨_, stringAt_of_find hs⟩

/-- A string member that was tested is read. Kind: L -/
theorem safe_stringAt_bind {k : Str} {f : Str → Except Fault α}
    (hk : (find? members k).any isString = true) (hf : ∀ v, Safe (f v)) :
    Safe ((obj members).stringAt k >>= f) :=
  (safe_bind_of_forall hf).mpr (safe_stringAt.mpr hk)

/-- An object member is there or is not. Kind: L -/
theorem any_isObject (members : List (Str × Json)) (k : Str) : (find? members k).any isObject = false ∨
    ∃ file, find? members k = some (.obj file) := by
  cases find? members k with
  | none => exact .inl rfl
  | some v =>
      cases v with
      | obj file => exact .inr ⟨file, rfl⟩
      | _ => exact .inl rfl

/-- An integer member that was tested is read. Kind: L -/
theorem getInt64_of_any {file : List (Str × Json)} {k : Str}
    (hk : (find? file k).any isInt64 = true) :
    ∃ v n, (obj file).member k = .ok v ∧ v.getInt64 = .ok n := by
  cases hf : find? file k with
  | none => simp [hf] at hk
  | some v =>
      cases v with
      | int n =>
          rw [hf, Option.any_some, isInt64, decide_eq_true_eq] at hk
          exact ⟨_, n, member_of_find hf, by rw [getInt64, if_pos hk]⟩
      | _ => simp [hf, isInt64] at hk

/-- Routing an object breaks nothing. Kind: L -/
theorem safe_messageRouter (members : List (Str × Json)) : Safe (messageRouter (.obj members)) := by
  unfold messageRouter
  rw [hasSuch_obj, ok_bind, safe_guard]
  intro hguard
  exact safe_stringAt_bind (by simpa using hguard) fun _ => safe_pure _

end Json

end CloudNode
