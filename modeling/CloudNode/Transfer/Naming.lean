import CloudNode.Lib.Paths
import CloudNode.Wire.Text

/-!
# Offered names and where they lead

The sender offers a file under its path relative to `--directory`, or under its absolute path when
there is no such directory; the receiver confines the name beneath its own directory. Both compute
with normalized paths, in the way of `std::filesystem::path` on a POSIX system.

* `parsePath_pathString` — a path survives being sent as a string.
* `confine_through`, `confine_dot`, `confine_upThrough` — what the receiver makes of a name that
  leads down, nowhere, or up.
* `offeredName_of_location` — what a file is offered under that lies beneath where names start.
* `destination_of_beneath` — the destination of such a name is where the file is, relative to the
  two directories.
* `confine_of_outside` — every other name is refused.
-/

namespace CloudNode

open Paths

/-! ## Paths as strings -/

/-- The separator. Kind: D -/
abbrev slash : UInt8 := 0x2F

/-- An element of a path that is neither `.` nor `..`. Kind: D -/
structure FileName where
  text : Str
  ne_nil : text ≠ []
  slash_not_mem : slash ∉ text
  ne_here : text ≠ str "."
  ne_up : text ≠ str ".."
  deriving DecidableEq

/-- A path of the file system. Kind: D -/
abbrev FilePath := FsPath FileName

/-- What stands between two separators; nothing stands for no step. Kind: D -/
def stepOf (text : Str) : Option (Step FileName) :=
  if here : text = str "." then some .here
  else if up : text = str ".." then some .up
  else if h : text ≠ [] ∧ slash ∉ text then some (.down ⟨text, h.1, h.2, here, up⟩)
  else none

/-- Source: the constructor of `fs::path` from a string. Kind: D -/
def parsePath (s : Str) : FilePath where
  root := s.head? = some slash
  steps := (s.splitOn slash).filterMap stepOf
  trailing := s.getLast? = some slash && !((s.splitOn slash).filterMap stepOf).isEmpty

/-- A step, written. Kind: D -/
def stepText : Step FileName → Str
  | .here => str "."
  | .up => str ".."
  | .down name => name.text

/-- Source: `fs::path::string`. Kind: D -/
def pathString (p : FilePath) : Str :=
  (if p.root then [slash] else []) ++ [slash].intercalate (p.steps.map stepText) ++
    if p.trailing then [slash] else []

/-- A written step is read as itself. Kind: L -/
theorem stepOf_stepText (s : Step FileName) : stepOf (stepText s) = some s := by
  cases s with
  | here => decide
  | up => decide
  | down name =>
      unfold stepOf stepText
      rw [dif_neg name.ne_here, dif_neg name.ne_up, dif_pos ⟨name.ne_nil, name.slash_not_mem⟩]

/-- A written step is not nothing. Kind: L -/
theorem stepText_ne_nil (s : Step FileName) : stepText s ≠ [] := by
  cases s with
  | here => decide
  | up => decide
  | down name => exact name.ne_nil

/-- A written step holds no separator. Kind: L -/
theorem slash_not_mem_stepText (s : Step FileName) : slash ∉ stepText s := by
  cases s with
  | here => decide
  | up => decide
  | down name => exact name.slash_not_mem

/-- Written steps, one after the other, start with one. Kind: L -/
theorem intercalate_cons (s : Step FileName) (steps : List (Step FileName)) :
    ∃ rest, [slash].intercalate ((s :: steps).map stepText) = stepText s ++ rest := by
  cases steps with
  | nil => exact ⟨[], by simp⟩
  | cons s' steps =>
      refine ⟨[slash] ++ [slash].intercalate ((s' :: steps).map stepText), ?_⟩
      rw [List.map_cons, List.map_cons, List.intercalate_cons_cons, List.append_assoc]

/-- Written steps, one after the other, do not start with a separator. Kind: L -/
theorem head?_intercalate (steps : List (Step FileName)) :
    ([slash].intercalate (steps.map stepText)).head? ≠ some slash := by
  cases steps with
  | nil => simp
  | cons s steps =>
      obtain ⟨rest, hrest⟩ := intercalate_cons s steps
      rw [hrest, List.head?_append_of_ne_nil _ (stepText_ne_nil s)]
      exact fun h => slash_not_mem_stepText s (List.mem_of_head? h)

/-- Written steps, one after the other, do not end in a separator. Kind: L -/
theorem getLast?_intercalate (steps : List (Step FileName)) :
    ([slash].intercalate (steps.map stepText)).getLast? ≠ some slash := by
  induction steps with
  | nil => simp
  | cons s steps ih =>
      cases steps with
      | nil =>
          rw [List.map_singleton, List.intercalate_singleton]
          exact fun h => slash_not_mem_stepText s (List.mem_of_getLast? h)
      | cons s' steps =>
          obtain ⟨rest, hrest⟩ := intercalate_cons s' steps
          have hne : [slash].intercalate ((s' :: steps).map stepText) ≠ [] := by
            rw [hrest]
            exact fun h => stepText_ne_nil s' (List.append_eq_nil_iff.mp h).1
          rw [List.map_cons, List.map_cons, List.intercalate_cons_cons, ← List.map_cons,
            List.getLast?_append_of_ne_nil _ hne]
          exact ih

/-- The steps of written steps. Kind: L -/
theorem splitOn_intercalate (steps : List (Step FileName)) :
    (([slash].intercalate (steps.map stepText)).splitOn slash).filterMap stepOf = steps := by
  have hread : (steps.map stepText).filterMap stepOf = steps := by
    rw [List.filterMap_map]
    have hcomp : stepOf ∘ stepText = some := funext stepOf_stepText
    rw [hcomp, List.filterMap_some]
  cases steps with
  | nil => rfl
  | cons s steps =>
      rw [List.splitOn_intercalate]
      · exact hread
      · intro text htext
        obtain ⟨s, -, rfl⟩ := List.mem_map.mp htext
        exact slash_not_mem_stepText s
      · simp

/-- **A path without a trailing separator survives being written.** Kind: P -/
theorem parsePath_pathString {p : FilePath} (htrailing : p.trailing = false) :
    parsePath (pathString p) = p := by
  obtain ⟨root, steps, trailing⟩ := p
  simp only at htrailing
  subst htrailing
  have hsplit := splitOn_intercalate steps
  have hlast := getLast?_intercalate steps
  cases root with
  | false =>
      have hstring : pathString ⟨false, steps, false⟩ = [slash].intercalate (steps.map stepText) := by
        simp [pathString]
      unfold parsePath
      rw [hstring, hsplit]
      simp [head?_intercalate steps, hlast]
  | true =>
      have hstring : pathString ⟨true, steps, false⟩ =
          slash :: [slash].intercalate (steps.map stepText) := by
        simp [pathString]
      have hsplit' : ((slash :: [slash].intercalate (steps.map stepText)).splitOn slash).filterMap
          stepOf = steps := by
        have hnone : stepOf [] = none := by decide
        rw [List.splitOn_cons_eq_if_modifyHead]
        simp only [beq_self_eq_true, if_true, List.filterMap_cons, hnone, hsplit]
      have hend : (slash :: [slash].intercalate (steps.map stepText)).getLast? = some slash →
          steps = [] := by
        intro h
        cases steps with
        | nil => rfl
        | cons s steps =>
            obtain ⟨rest, hrest⟩ := intercalate_cons s steps
            have hne : [slash].intercalate ((s :: steps).map stepText) ≠ [] := by
              rw [hrest]
              exact fun h => stepText_ne_nil s (List.append_eq_nil_iff.mp h).1
            rw [← List.singleton_append, List.getLast?_append_of_ne_nil _ hne] at h
            exact absurd h hlast
      unfold parsePath
      rw [hstring, hsplit']
      by_cases hsteps : steps = []
      · simp [hsteps]
      · have hne : ¬(slash :: [slash].intercalate (steps.map stepText)).getLast? = some slash :=
          fun h => hsteps (hend h)
        simp only [List.head?_cons, hne, decide_true, decide_false, Bool.false_and]

/-! ## The sender -/

/-- The current path of a process. Kind: D -/
structure WorkingDirectory where
  path : FilePath
  root : path.root = true

/-- Source: `fs::absolute(..).lexically_normal()`. Kind: D -/
def resolve (cwd : WorkingDirectory) (p : FilePath) : FilePath := (cwd.path.absolute p).normal

/-- Source: `WebRTCClient.cpp`, `SendFileOffer`, `offeredPath`. Kind: D -/
def offeredPath (cwd : WorkingDirectory) (directory fileDetails : Str) : Str :=
  let absolutePath := resolve cwd (parsePath fileDetails)
  if directory = [] then pathString absolutePath
  else pathString (absolutePath.relative (resolve cwd (parsePath directory)))

/-- The name in the offer.
Source: `MimeDetector.hpp`, `get_file_info`, `displayName.empty() ? filename : displayName`
Kind: D -/
def offeredName (cwd : WorkingDirectory) (directory fileDetails : Str) : Str :=
  if offeredPath cwd directory fileDetails = [] then fileDetails
  else offeredPath cwd directory fileDetails

/-! ## The receiver -/

/-- The offered name beneath the receiver's directory, `none` when it escapes it.
Source: `WebRTCClient.cpp`, `OnFileOffer`, `const fs::path name = ..` and the test behind it
Kind: D -/
def confine (name : Str) : Option FilePath :=
  let name := (parsePath name).relativePath.normal
  if name.isEmpty || name.steps.head? = some .up then none else some name

/-- The directory that the receiver writes beneath.
Source: `WebRTCClient.cpp`, `OnFileOffer`, `fs::path(directory.empty() ? "." : directory)`
Kind: D -/
def ownDirectory (directory : Str) : FilePath :=
  parsePath (if directory = [] then str "." else directory)

/-- Where an offered file goes. Source: `WebRTCClient.cpp`, `OnFileOffer`, `destination`. Kind: D -/
def destination (directory name : Str) : Option FilePath :=
  (confine name).map (ownDirectory directory).append

/-! ## What the receiver makes of a name -/

/-- A name that leads down is confined as it is. Kind: L -/
theorem confine_through {ns : List FileName} (h : ns ≠ []) :
    confine (pathString (.through ns)) = some (.through ns) := by
  have hnormal : (FsPath.through ns).normal = .through ns :=
    @FsPath.normal_upThrough _ 0 ns (.inr h)
  have hhead : (FsPath.through ns).steps.head? ≠ some .up := by
    cases ns with
    | nil => exact absurd rfl h
    | cons n ns => simp [FsPath.through]
  have hempty : (FsPath.through ns).isEmpty = false := by
    simp [FsPath.through, FsPath.isEmpty, h]
  unfold confine
  rw [parsePath_pathString rfl]
  change (if (FsPath.through ns).normal.isEmpty || (FsPath.through ns).normal.steps.head? = some .up
    then none else some (FsPath.through ns).normal) = _
  simp only [hnormal, hempty, hhead, decide_false, Bool.or_self, Bool.false_eq_true, if_false]

/-- The name `.` is confined. Kind: L -/
theorem confine_dot : confine (pathString .dot) = some .dot := by decide

/-- A name that leads up is refused. Kind: L -/
theorem confine_upThrough (k : ℕ) (ns : List FileName) :
    confine (pathString (.upThrough (k + 1) ns)) = none := by
  have hnormal : (FsPath.upThrough (k + 1) ns).normal = .upThrough (k + 1) ns :=
    FsPath.normal_upThrough (.inl k.succ_ne_zero)
  have hhead : (FsPath.upThrough (k + 1) ns).steps.head? = some .up := by
    simp [FsPath.upThrough, List.replicate_succ]
  unfold confine
  rw [parsePath_pathString rfl]
  change (if (FsPath.upThrough (k + 1) ns).normal.isEmpty ||
    (FsPath.upThrough (k + 1) ns).normal.steps.head? = some .up then none else _) = _
  simp only [hnormal, hhead, decide_true, Bool.or_true, if_true]

/-- A name from the root is confined to the way down from there. Kind: L -/
theorem confine_root {ns : List FileName} (h : ns ≠ []) :
    confine (pathString ⟨true, ns.map .down, false⟩) = some (.through ns) := by
  have hrelative : ∀ p : FilePath, p.trailing = false → confine (pathString p) =
      confine (pathString p.relativePath) := by
    intro p hp
    unfold confine
    rw [parsePath_pathString hp, @parsePath_pathString p.relativePath hp]
    rfl
  rw [hrelative _ rfl]
  exact confine_through h

/-! ## Files -/

/-- The path is as that of an existing regular file is: it ends in a name. Kind: D -/
def NamesFile (p : FilePath) : Prop := p.trailing = false ∧ ∃ n, p.steps.getLast? = some (.down n)

/-- The names on the way from the root to a path. Kind: D -/
def location (cwd : WorkingDirectory) (path : Str) : List FileName :=
  (cwd.path.absolute (parsePath path)).names

/-- An absolute path starts at the root. Kind: L -/
theorem root_absolute (cwd : WorkingDirectory) (p : FilePath) :
    (cwd.path.absolute p).root = true := by
  unfold FsPath.absolute
  cases hroot : p.root with
  | true => exact hroot
  | false =>
      simp only [Bool.false_eq_true, if_false, FsPath.append, hroot]
      exact cwd.root

/-- A path that names a file does so from the root, too. Kind: L -/
theorem namesFile_absolute (cwd : WorkingDirectory) {p : FilePath} (h : NamesFile p) :
    NamesFile (cwd.path.absolute p) := by
  obtain ⟨htrailing, n, hlast⟩ := h
  have hne : p.steps ≠ [] := by
    intro hnil
    simp [hnil] at hlast
  unfold FsPath.absolute
  cases hroot : p.root with
  | true => exact ⟨htrailing, n, hlast⟩
  | false =>
      refine ⟨?_, n, ?_⟩
      · simp [FsPath.append, hroot, hne, htrailing]
      · simp only [Bool.false_eq_true, if_false, FsPath.append, hroot]
        rw [List.getLast?_append_of_ne_nil _ hne, hlast]

/-- **The normalized path of a file** is its names. Kind: P -/
theorem normal_of_namesFile {p : FilePath} (hroot : p.root = true) (h : NamesFile p) :
    p.normal = ⟨true, p.names.map .down, false⟩ ∧ p.names ≠ [] := by
  obtain ⟨htrailing, n, hlast⟩ := h
  refine ⟨?_, ?_⟩
  · rw [FsPath.normal_of_root hroot, FsPath.endsOpen_of_getLast? htrailing hlast, Bool.and_false]
  · obtain ⟨steps, hsteps⟩ := List.getLast?_eq_some_iff.mp hlast
    unfold FsPath.names
    rw [hsteps, List.foldl_append]
    simp [FsPath.climb]

variable {cwd cwd' : WorkingDirectory} {directory own file : Str}

/-- What `SendFileOffer` computes with. Kind: L -/
theorem resolve_file (hfile : NamesFile (parsePath file)) :
    resolve cwd (parsePath file) = ⟨true, (location cwd file).map .down, false⟩ ∧
      location cwd file ≠ [] :=
  normal_of_namesFile (root_absolute cwd _) (namesFile_absolute cwd hfile)

/-- A resolved path is its names. Kind: L -/
theorem resolve_eq (cwd : WorkingDirectory) (p : FilePath) : (resolve cwd p).root = true ∧
    (resolve cwd p).steps = (cwd.path.absolute p).names.map .down := by
  unfold resolve
  rw [FsPath.normal_of_root (root_absolute cwd p)]
  exact ⟨rfl, rfl⟩

/-- A written path that has a step is a name to offer. Kind: L -/
theorem offeredName_of_steps {p : FilePath} (h : offeredPath cwd directory file = pathString p)
    (htrailing : p.trailing = false) (hne : p.steps ≠ []) :
    offeredName cwd directory file = pathString p := by
  have hstring : pathString p ≠ [] := by
    intro hnil
    have hparse := parsePath_pathString htrailing
    rw [hnil] at hparse
    exact hne (by rw [← hparse]; rfl)
  unfold offeredName
  rw [h, if_neg hstring]

/-- Without a directory, a file is offered under its absolute path. Kind: L -/
theorem offeredName_of_no_directory (hfile : NamesFile (parsePath file)) :
    offeredName cwd [] file = pathString ⟨true, (location cwd file).map .down, false⟩ := by
  obtain ⟨hresolve, hne⟩ : resolve cwd (parsePath file) = _ ∧ location cwd file ≠ [] :=
    resolve_file hfile
  apply offeredName_of_steps
  · simp only [offeredPath, if_true, hresolve]
  · rfl
  · simpa using hne

/-- With one, under what its path is relative to that. Kind: L -/
theorem offeredName_of_relative {p : FilePath} (hdirectory : directory ≠ [])
    (hrelative : (resolve cwd (parsePath file)).relative (resolve cwd (parsePath directory)) = p)
    (htrailing : p.trailing = false) (hne : p.steps ≠ []) :
    offeredName cwd directory file = pathString p := by
  refine offeredName_of_steps ?_ htrailing hne
  simp only [offeredPath, if_neg hdirectory, hrelative]

/-- A file beneath the directory is what is left of its path. Kind: L -/
theorem relative_of_beneath {rest : List FileName} (hfile : NamesFile (parsePath file))
    (hrest : rest ≠ []) (hlocation : location cwd file = location cwd directory ++ rest) :
    (resolve cwd (parsePath file)).relative (resolve cwd (parsePath directory)) = .through rest := by
  obtain ⟨hresolve, -⟩ : resolve cwd (parsePath file) = _ ∧ location cwd file ≠ [] :=
    resolve_file hfile
  obtain ⟨hroot, hsteps⟩ := resolve_eq cwd (parsePath directory)
  rw [hresolve, hlocation]
  exact FsPath.relative_of_isPrefix hroot.symm rfl rfl hsteps hrest

/-- **The destination**, relative to the receiver's directory, is the name it was confined to.
Kind: P -/
theorem relative_destination {rest : List FileName} (hrest : rest ≠ []) :
    (resolve cwd' ((ownDirectory own).append (.through rest))).relative
      (resolve cwd' (ownDirectory own)) = .through rest := by
  have happend : cwd'.path.absolute ((ownDirectory own).append (.through rest)) =
      (cwd'.path.absolute (ownDirectory own)).append (.through rest) := by
    unfold FsPath.absolute
    cases hroot : (ownDirectory own).root with
    | true => simp [FsPath.append, FsPath.through, hroot]
    | false => simp [FsPath.append, FsPath.through, hroot, hrest]
  have hnames : NamesFile ((ownDirectory own).append (.through rest)) := by
    obtain ⟨n, hn⟩ : ∃ n, rest.getLast? = some n :=
      ⟨rest.getLast hrest, List.getLast?_eq_some_getLast hrest⟩
    have hdown : (rest.map Step.down).getLast? = some (.down n) := by
      rw [List.getLast?_map, hn]
      rfl
    refine ⟨by simp [FsPath.append, FsPath.through, hrest], n, ?_⟩
    simp only [FsPath.append, FsPath.through, Bool.false_eq_true, if_false]
    rw [List.getLast?_append_of_ne_nil _ (by simpa using hrest), hdown]
  obtain ⟨hroot, hsteps⟩ := resolve_eq cwd' (ownDirectory own)
  have hnormal := (normal_of_namesFile (root_absolute cwd' _) (namesFile_absolute cwd' hnames)).1
  rw [happend, FsPath.names_append] at hnormal
  unfold resolve at hroot hsteps ⊢
  rw [happend, hnormal]
  exact FsPath.relative_of_isPrefix hroot.symm rfl rfl hsteps hrest

/-! ## Offered names and their destinations -/

/-- The file lies beneath the directory. Kind: D -/
def Beneath (cwd : WorkingDirectory) (directory file : Str) : Prop :=
  location cwd directory <+: location cwd file ∧ location cwd directory ≠ location cwd file

/-- Where offered names start: at the sender's directory, or at the root when there is none.
Kind: D -/
def offeredFrom (cwd : WorkingDirectory) (directory : Str) : List FileName :=
  if directory = [] then [] else location cwd directory

/-- The path that is offered for a file, from what is left of its names there. Kind: D -/
def offeredBelow (directory : Str) (rest : List FileName) : FilePath :=
  if directory = [] then ⟨true, rest.map .down, false⟩
  else if rest = [] then .dot
  else .through rest

/-- **What a file is offered under** that lies where names start, or beneath. Kind: P -/
theorem offeredName_of_location {rest : List FileName} (hfile : NamesFile (parsePath file))
    (hlocation : location cwd file = offeredFrom cwd directory ++ rest) :
    offeredName cwd directory file = pathString (offeredBelow directory rest) := by
  unfold offeredBelow
  split
  · rename_i hdirectory
    subst hdirectory
    rw [offeredFrom, if_pos rfl, List.nil_append] at hlocation
    rw [offeredName_of_no_directory hfile, hlocation]
  · rename_i hdirectory
    rw [offeredFrom, if_neg hdirectory] at hlocation
    split
    · rename_i hempty
      have hself : location cwd file = location cwd directory := by
        rw [hlocation, hempty, List.append_nil]
      obtain ⟨hroot, hsteps⟩ := resolve_eq cwd (parsePath directory)
      have hdot : (resolve cwd (parsePath file)).relative (resolve cwd (parsePath directory)) =
          .dot := by
        rw [(resolve_file hfile).1, hself]
        exact FsPath.relative_self hroot.symm rfl rfl hsteps
      exact offeredName_of_relative hdirectory hdot rfl (by simp [FsPath.dot])
    · rename_i hempty
      exact offeredName_of_relative hdirectory (relative_of_beneath hfile hempty hlocation) rfl
        (by simpa [FsPath.through] using hempty)

/-- **Such a name is confined.** Kind: P -/
theorem confine_of_location {rest : List FileName} (hfile : NamesFile (parsePath file))
    (hlocation : location cwd file = offeredFrom cwd directory ++ rest) :
    (confine (offeredName cwd directory file)).isSome = true := by
  rw [offeredName_of_location hfile hlocation]
  unfold offeredBelow
  split
  · rename_i hdirectory
    rw [offeredFrom, if_pos hdirectory, List.nil_append] at hlocation
    have hrest : rest ≠ [] := hlocation ▸ (resolve_file hfile).2
    rw [confine_root hrest]
    rfl
  · split
    · rw [confine_dot]
      rfl
    · rename_i hempty
      rw [confine_through hempty]
      rfl

/-- **The destination of a file beneath the sender's directory** is at the same place beneath the
receiver's. Kind: P -/
theorem destination_of_beneath (cwd' : WorkingDirectory) (own : Str) (hfile : NamesFile (parsePath file))
    (hdirectory : directory ≠ []) (hbeneath : Beneath cwd directory file) :
    ∃ dest, destination own (offeredName cwd directory file) = some dest ∧
      (resolve cwd' dest).relative (resolve cwd' (ownDirectory own)) =
        (resolve cwd (parsePath file)).relative (resolve cwd (parsePath directory)) := by
  obtain ⟨⟨rest, hrest⟩, hne⟩ := hbeneath
  have hempty : rest ≠ [] := by
    rintro rfl
    rw [List.append_nil] at hrest
    exact hne hrest
  have hlocation : location cwd file = offeredFrom cwd directory ++ rest := by
    rw [offeredFrom, if_neg hdirectory, hrest]
  have hname : offeredName cwd directory file = pathString (.through rest) := by
    rw [offeredName_of_location hfile hlocation, offeredBelow, if_neg hdirectory, if_neg hempty]
  refine ⟨(ownDirectory own).append (.through rest), ?_, ?_⟩
  · unfold destination
    rw [hname, confine_through hempty]
    rfl
  · rw [relative_destination hempty, relative_of_beneath hfile hempty hrest.symm]

/-- **A file outside the sender's directory is offered under a name that is refused.** Kind: P -/
theorem confine_of_outside (hfile : NamesFile (parsePath file)) (hdirectory : directory ≠ [])
    (houtside : ¬ location cwd directory <+: location cwd file) :
    confine (offeredName cwd directory file) = none := by
  obtain ⟨hroot, hsteps⟩ := resolve_eq cwd (parsePath directory)
  have hup : ∃ k ns, (resolve cwd (parsePath file)).relative (resolve cwd (parsePath directory)) =
      .upThrough (k + 1) ns := by
    rw [(resolve_file hfile).1]
    exact FsPath.relative_of_not_isPrefix hroot.symm rfl rfl hsteps houtside
  obtain ⟨k, ns, hup⟩ := hup
  have hname := offeredName_of_relative hdirectory hup rfl
    (by simp [FsPath.upThrough, List.replicate_succ])
  rw [hname, confine_upThrough]

/-- The root as a working directory. Kind: D -/
def atRoot : WorkingDirectory := ⟨⟨true, [], false⟩, rfl⟩

end CloudNode
