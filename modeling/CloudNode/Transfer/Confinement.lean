import CloudNode.Transfer.Naming

/-!
# Which offered names are refused

The receiver drops the root of an offered name, normalizes the rest, and looks at nothing but its
first element. That is enough: in a normalized path every `..` that is left comes first. The name is
what `GetString()` copies, so it ends at a NUL, as every path does for the kernel.

* `passesNameCheck_iff` — a name is refused when nothing is left of it, or when its elements lead
  above where they start.
* `destination_eq_some` — on the way from the receiver's directory to the destination nothing leads
  up.
* `confined_exactly` — both, with the directories that the way goes through.
-/

namespace CloudNode

open Paths

/-- The check that an offered name has to pass.
Source: `WebRTCClient.cpp`, `OnFileOffer`, `name.empty() || *name.begin() == ".."`
Kind: D -/
def passesNameCheck (name : Str) : Bool := (confine (cstr name)).isSome

/-- The elements of the relative part of an offered name; empty ones are none. Kind: D -/
def nameSteps (name : Str) : List (Step FileName) := (parsePath (cstr name)).relativePath.steps

/-- The names on the way from the root to a path of a process. Kind: D -/
def placeOf (cwd : WorkingDirectory) (p : FilePath) : List FileName := (cwd.path.absolute p).names

variable {directory name : Str} {dest : FilePath}

/-- **A name passes** when something is left of it that does not lead above its start. Kind: P -/
theorem passesNameCheck_iff :
    passesNameCheck name = true ↔ nameSteps name ≠ [] ∧ FsPath.StaysWithin 0 (nameSteps name) := by
  have hroot : (parsePath (cstr name)).relativePath.root = false := rfl
  have hempty := FsPath.isEmpty_normal_iff hroot
  have hup := FsPath.head?_normal_eq_up_iff hroot
  unfold passesNameCheck confine nameSteps
  simp only
  split
  · rename_i hrefused
    rw [Bool.or_eq_true, decide_eq_true_eq, hempty, hup] at hrefused
    refine ⟨fun h => Bool.noConfusion h, fun ⟨hne, hstays⟩ => ?_⟩
    rcases hrefused with hnil | habove
    · exact absurd hnil hne
    · exact absurd hstays habove
  · rename_i hpasses
    rw [Bool.or_eq_true, decide_eq_true_eq, hempty, hup, not_or, not_not] at hpasses
    exact ⟨fun _ => hpasses, fun _ => rfl⟩

/-- Where the destination is: at the directory, or down some names from there. Kind: L -/
theorem destination_eq_some (h : destination directory (cstr name) = some dest) :
    ∃ more, dest.root = (ownDirectory directory).root ∧
      dest.steps = (ownDirectory directory).steps ++ more ∧ ∀ s ∈ more, s.isUp = false := by
  obtain ⟨own, hown, rfl⟩ := Option.map_eq_some_iff.mp h
  have hpasses : passesNameCheck name = true := by rw [passesNameCheck, hown, Option.isSome_some]
  have hroot : (parsePath (cstr name)).relativePath.root = false := rfl
  have hstays := (passesNameCheck_iff.mp hpasses).2
  obtain rfl : (parsePath (cstr name)).relativePath.normal = own := by
    unfold confine at hown
    simp only at hown
    split at hown
    · exact (Option.some_ne_none _ hown.symm).elim
    · exact Option.some.inj hown
  have hnormal : (parsePath (cstr name)).relativePath.normal.root = false := by
    unfold FsPath.normal
    rw [hroot]
    split
    · split <;> rfl
    · rfl
  refine ⟨(parsePath (cstr name)).relativePath.normal.steps, ?_, ?_, ?_⟩
  · rw [FsPath.append, hnormal]
    rfl
  · rw [FsPath.append, hnormal]
    rfl
  · exact FsPath.isUp_of_mem_normal hroot hstays

/-- A place does not depend on how a path ends. Kind: L -/
theorem placeOf_eq (cwd : WorkingDirectory) (p : FilePath) :
    placeOf cwd p = FsPath.names ⟨true, (if p.root then [] else cwd.path.steps) ++ p.steps, false⟩ := by
  unfold placeOf FsPath.absolute FsPath.names
  cases hroot : p.root with
  | true => rfl
  | false => simp [FsPath.append, hroot]

/-- **Names are confined, and only escaping ones are refused**: a name passes exactly when something
is left of it that does not lead above its start; and then whatever lies on the way from the
directory to the destination, element by element, is at or beneath the directory. Kind: P -/
theorem confined_exactly (directory name : Str) :
    (passesNameCheck name = true ↔
      nameSteps name ≠ [] ∧ FsPath.StaysWithin 0 (nameSteps name)) ∧
    (passesNameCheck name = (destination directory (cstr name)).isSome) ∧
    ∀ dest ∈ destination directory (cstr name),
      dest.root = (ownDirectory directory).root ∧
      (ownDirectory directory).steps <+: dest.steps ∧
      ∀ cwd steps, (ownDirectory directory).steps <+: steps → steps <+: dest.steps →
        placeOf cwd (ownDirectory directory) <+: placeOf cwd { dest with steps := steps } := by
  refine ⟨passesNameCheck_iff, (Option.isSome_map ..).symm, fun dest hdest => ?_⟩
  obtain ⟨more, hroot, hsteps, hup⟩ := destination_eq_some (Option.mem_def.mp hdest)
  refine ⟨hroot, hsteps ▸ List.prefix_append _ _, fun cwd steps hfrom hto => ?_⟩
  obtain ⟨between, rfl⟩ := hfrom
  rw [hsteps, List.prefix_append_right_inj] at hto
  rw [placeOf_eq, placeOf_eq, hroot]
  simp only
  rw [← List.append_assoc]
  exact FsPath.names_isPrefix_of_append true _ between fun s hs => hup s (hto.mem hs)

/-- A name from the root, with a `..` that takes a name away. Kind: P -/
theorem confined_exactly_nested :
    placeOf ⟨{ root := true }, rfl⟩ (ownDirectory (str "/srv")) <+:
      placeOf ⟨{ root := true }, rfl⟩
        ((destination (str "/srv") (cstr (str "//a/./b/../c"))).getD .dot) := by
  have hdest : (destination (str "/srv") (cstr (str "//a/./b/../c"))).getD .dot ∈
      destination (str "/srv") (cstr (str "//a/./b/../c")) := by decide
  obtain ⟨-, hown, hbetween⟩ :=
    (confined_exactly (str "/srv") (str "//a/./b/../c")).2.2 _ hdest
  exact hbetween _ _ hown List.prefix_rfl

end CloudNode
