import CloudNode.Lib.Trees
import CloudNode.Wire.Text

/-!
# Directories and files by inode

What the kernel knows of the watched directory and of what is around it: inodes of directories and
of regular files, and the entries of each directory. A watch belongs to an inode and stays with it
when it is renamed, while the program knows directories by their paths, so the tree keeps the two
apart. Inode numbers are never used again.

* `FileTree` — the inodes and the entries. That every entry belongs to a directory, that no inode
  has two, and that the root has none, are fields.
* `find` — the inode that a path leads to.
* `detach`, `attach`, `create` — what `mkdir`, `open`, `unlink`, `rmdir` and `rename` are made of.
-/

namespace CloudNode

/-- An absolute `std::filesystem::path`: its names, innermost first, so that the parent of a path
is its tail. Kind: D -/
abbrev AbsPath := List Str

/-- What `is_directory` and `is_regular_file` tell. Kind: D -/
inductive NodeKind where
  | directory
  | regular
  deriving DecidableEq

/-- An entry: the inode of its directory and its name. Kind: D -/
abbrev DirEntry := ℕ × Str

/-- Entries are ordered by their directories first. Kind: D -/
instance : Ord DirEntry := lexOrd

/-- They are ordered. Kind: L -/
instance : Std.TransOrd DirEntry := inferInstance

/-- The inodes, with what is linked where. The root is inode `0`. Kind: D -/
structure FileTree where
  /-- What each inode is, by its number. -/
  kinds : List NodeKind
  /-- The inode of each entry. -/
  entries : Std.ExtTreeMap DirEntry ℕ
  root_directory : kinds[0]? = some .directory
  directory_of_entry : ∀ {d : ℕ} {n : Str} {i : ℕ}, entries[((d, n) : DirEntry)]? = some i →
    kinds[d]? = some .directory
  name_of_entry : ∀ {d : ℕ} {n : Str} {i : ℕ}, entries[((d, n) : DirEntry)]? = some i → n ≠ []
  node_of_entry : ∀ {d : ℕ} {n : Str} {i : ℕ}, entries[((d, n) : DirEntry)]? = some i →
    i < kinds.length ∧ i ≠ 0
  unique : ∀ {d : ℕ} {n : Str} {d' : ℕ} {n' : Str} {i : ℕ},
    entries[((d, n) : DirEntry)]? = some i → entries[((d', n') : DirEntry)]? = some i →
      d = d' ∧ n = n'

namespace FileTree

variable {tree : FileTree} {d d' i j : ℕ} {n m : Str} {kind : NodeKind} {path p q : AbsPath}

/-- The inode of an entry. Kind: D -/
def link (tree : FileTree) (d : ℕ) (n : Str) : Option ℕ := tree.entries[((d, n) : DirEntry)]?

/-- The inode that a path leads to. Kind: D -/
def find (tree : FileTree) (path : AbsPath) : Option ℕ := Trees.resolve tree.link 0 path

/-- What a path leads to. Kind: D -/
def kindAt (tree : FileTree) (path : AbsPath) : Option NodeKind :=
  (tree.find path).bind fun i => tree.kinds[i]?

/-- The names in a directory. Kind: D -/
def names (tree : FileTree) (d : ℕ) : List Str :=
  (tree.entries.toList.filter fun e => e.1.1 = d).map fun e => e.1.2

/-- The inode has no entry. Kind: D -/
def Loose (tree : FileTree) (i : ℕ) : Prop := ∀ d n, tree.link d n ≠ some i

/-- What an entry names may be created there. Kind: D -/
structure Free (tree : FileTree) (d : ℕ) (n : Str) : Prop where
  directory : tree.kinds[d]? = some .directory
  name : n ≠ []
  vacant : tree.link d n = none

/-- An inode may be given an entry. Kind: D -/
structure Attachable (tree : FileTree) (d : ℕ) (n : Str) (i : ℕ) : Prop where
  directory : tree.kinds[d]? = some .directory
  name : n ≠ []
  node : i < tree.kinds.length ∧ i ≠ 0
  loose : tree.Loose i

/-! ## Operations -/

/-- What is left after an erasure was there before. Kind: L -/
theorem getElem?_of_erase {entries : Std.ExtTreeMap DirEntry ℕ} {k a : DirEntry}
    (h : (entries.erase k)[a]? = some i) : k ≠ a ∧ entries[a]? = some i := by
  rw [getElem?_erase_eq] at h
  by_cases hka : k = a
  · rw [if_pos hka] at h
    exact (Option.some_ne_none i h.symm).elim
  · rw [if_neg hka] at h
    exact ⟨hka, h⟩

/-- An entry is removed. Its inode stays, as it does in the kernel while someone holds it.
Kind: D -/
def detach (tree : FileTree) (d : ℕ) (n : Str) : FileTree where
  kinds := tree.kinds
  entries := tree.entries.erase (d, n)
  root_directory := tree.root_directory
  directory_of_entry h := tree.directory_of_entry (getElem?_of_erase h).2
  name_of_entry h := tree.name_of_entry (getElem?_of_erase h).2
  node_of_entry h := tree.node_of_entry (getElem?_of_erase h).2
  unique h h' := tree.unique (getElem?_of_erase h).2 (getElem?_of_erase h').2

/-- An entry after one was written. Kind: L -/
theorem getElem?_insert_cases {entries : Std.ExtTreeMap DirEntry ℕ} {k a : DirEntry}
    (h : (entries.insert k j)[a]? = some i) : (k = a ∧ j = i) ∨ (k ≠ a ∧ entries[a]? = some i) := by
  rw [getElem?_insert_eq] at h
  by_cases hka : k = a
  · rw [if_pos hka, Option.some.injEq] at h
    exact .inl ⟨hka, h⟩
  · rw [if_neg hka] at h
    exact .inr ⟨hka, h⟩

/-- An inode is given an entry. Kind: D -/
def attach (tree : FileTree) (d : ℕ) (n : Str) (i : ℕ) (h : tree.Attachable d n i) :
    FileTree where
  kinds := tree.kinds
  entries := tree.entries.insert (d, n) i
  root_directory := tree.root_directory
  directory_of_entry hentry := by
    rcases getElem?_insert_cases hentry with ⟨heq, -⟩ | ⟨-, hold⟩
    · exact (Prod.mk.inj heq).1 ▸ h.directory
    · exact tree.directory_of_entry hold
  name_of_entry hentry := by
    rcases getElem?_insert_cases hentry with ⟨heq, -⟩ | ⟨-, hold⟩
    · exact (Prod.mk.inj heq).2 ▸ h.name
    · exact tree.name_of_entry hold
  node_of_entry hentry := by
    rcases getElem?_insert_cases hentry with ⟨-, rfl⟩ | ⟨-, hold⟩
    · exact h.node
    · exact tree.node_of_entry hold
  unique hentry hentry' := by
    rcases getElem?_insert_cases hentry with ⟨heq, rfl⟩ | ⟨-, hold⟩
    · rcases getElem?_insert_cases hentry' with ⟨heq', -⟩ | ⟨-, hold'⟩
      · exact Prod.mk.inj (heq.symm.trans heq')
      · exact (h.loose _ _ hold').elim
    · rcases getElem?_insert_cases hentry' with ⟨-, rfl⟩ | ⟨-, hold'⟩
      · exact (h.loose _ _ hold).elim
      · exact tree.unique hold hold'

/-- What an inode is stays so when there are more of them. Kind: L -/
theorem getElem?_append_of_some {kinds more : List NodeKind} (h : kinds[i]? = some kind) :
    (kinds ++ more)[i]? = some kind := by
  rw [List.getElem?_append_left (List.getElem?_eq_some_iff.mp h).1]
  exact h

/-- There is a new inode, without an entry. Kind: D -/
def create (tree : FileTree) (kind : NodeKind) : FileTree where
  kinds := tree.kinds ++ [kind]
  entries := tree.entries
  root_directory := getElem?_append_of_some tree.root_directory
  directory_of_entry h := getElem?_append_of_some (tree.directory_of_entry h)
  name_of_entry h := tree.name_of_entry h
  node_of_entry h := by
    obtain ⟨hlt, hne⟩ := tree.node_of_entry h
    rw [List.length_append]
    exact ⟨Nat.lt_add_right _ hlt, hne⟩
  unique h h' := tree.unique h h'

/-- A tree of nothing but its root. Kind: D -/
def bare : FileTree where
  kinds := [.directory]
  entries := ∅
  root_directory := rfl
  directory_of_entry h := (Option.some_ne_none _ (h.symm.trans Std.ExtTreeMap.getElem?_empty)).elim
  name_of_entry h := (Option.some_ne_none _ (h.symm.trans Std.ExtTreeMap.getElem?_empty)).elim
  node_of_entry h := (Option.some_ne_none _ (h.symm.trans Std.ExtTreeMap.getElem?_empty)).elim
  unique h := (Option.some_ne_none _ (h.symm.trans Std.ExtTreeMap.getElem?_empty)).elim

/-! ## Links -/

/-- Inodes have one entry at most, and the root has none. Kind: L -/
theorem isTree (tree : FileTree) : Trees.IsTree tree.link 0 where
  unique := tree.unique
  rootless h := (tree.node_of_entry h).2 rfl

/-- What is linked after a removal. Kind: L -/
theorem link_of_detach (h : (tree.detach d n).link d' m = some i) :
    (d, n) ≠ (d', m) ∧ tree.link d' m = some i :=
  getElem?_of_erase h

/-- A removed entry is not there. Kind: L -/
theorem link_detach_self : (tree.detach d n).link d n = none :=
  Std.ExtTreeMap.getElem?_erase_self

/-- What a removal leaves. Kind: L -/
theorem link_detach_of_ne (h : (d, n) ≠ (d', m)) :
    (tree.detach d n).link d' m = tree.link d' m :=
  getElem?_erase_ne tree.entries h

/-- What is linked after an addition. Kind: L -/
theorem link_of_attach {h : tree.Attachable d n i} {k : ℕ}
    (hlink : (tree.attach d n i h).link d' m = some k) :
    tree.link d' m = some k ∨ (d' = d ∧ m = n ∧ k = i) := by
  rcases getElem?_insert_cases hlink with ⟨heq, rfl⟩ | ⟨-, hold⟩
  · obtain ⟨rfl, rfl⟩ := Prod.mk.inj heq
    exact .inr ⟨rfl, rfl, rfl⟩
  · exact .inl hold

/-- The names in a directory are those of its entries. Kind: L -/
theorem mem_names : n ∈ tree.names d ↔ ∃ i, tree.link d n = some i := by
  unfold names link
  simp only [List.mem_map, List.mem_filter, decide_eq_true_eq]
  constructor
  · rintro ⟨⟨⟨d', n'⟩, i⟩, ⟨hmem, rfl⟩, rfl⟩
    exact ⟨i, Std.ExtTreeMap.mem_toList_iff_getElem?_eq_some.mp hmem⟩
  · rintro ⟨i, hi⟩
    exact ⟨((d, n), i), ⟨Std.ExtTreeMap.mem_toList_iff_getElem?_eq_some.mpr hi, rfl⟩, rfl⟩

/-- An inode that lost its entry has none. Kind: L -/
theorem loose_detach (h : tree.link d n = some i) : (tree.detach d n).Loose i := by
  intro d' m hlink
  obtain ⟨hne, hold⟩ := link_of_detach hlink
  obtain ⟨rfl, rfl⟩ := tree.unique h hold
  exact hne rfl

/-- A removal gives nothing an entry. Kind: L -/
theorem Loose.detach (h : tree.Loose i) (d : ℕ) (n : Str) : (tree.detach d n).Loose i :=
  fun d' m hlink => h d' m (link_of_detach hlink).2

/-- A new inode has no entry. Kind: L -/
theorem loose_create : (tree.create kind).Loose tree.kinds.length :=
  fun _ _ hlink => (tree.node_of_entry hlink).1.false

/-- A new inode may be put where there is room. Kind: L -/
theorem Free.attachable (h : tree.Free d n) (kind : NodeKind) :
    (tree.create kind).Attachable d n tree.kinds.length where
  directory := getElem?_append_of_some h.directory
  name := h.name
  node := by
    have hpos := (List.getElem?_eq_some_iff.mp tree.root_directory).1
    refine ⟨?_, hpos.ne'⟩
    show tree.kinds.length < (tree.kinds ++ [kind]).length
    rw [List.length_append]
    exact Nat.lt_add_one _
  loose := loose_create

/-! ## Paths -/

/-- A path leads to an entry of what its parent leads to. Kind: L -/
theorem find_cons_eq_some :
    tree.find (n :: path) = some i ↔ ∃ d, tree.find path = some d ∧ tree.link d n = some i :=
  Trees.resolve_cons_eq_some

/-- An inode has one path at most. Kind: L -/
theorem find_inj (hp : tree.find p = some i) (hq : tree.find q = some i) : p = q :=
  Trees.resolve_inj tree.isTree hp hq

/-- A path that leads somewhere after a removal led there before. Kind: L -/
theorem find_of_detach (h : (tree.detach d n).find p = some i) : tree.find p = some i := by
  have hsame := Trees.agree_of_le (fun _ _ _ hlink => (link_of_detach hlink).2) h
  exact (hsame p List.suffix_rfl).symm.trans h

/-- What a path leads to is an inode. Kind: L -/
theorem lt_of_find (h : tree.find path = some i) : i < tree.kinds.length := by
  cases path with
  | nil =>
      obtain rfl : 0 = i := Option.some.inj h
      exact (List.getElem?_eq_some_iff.mp tree.root_directory).1
  | cons n path =>
      obtain ⟨d, -, hlink⟩ := find_cons_eq_some.mp h
      exact (tree.node_of_entry hlink).1

/-- What a path leads to beyond the root has an entry. Kind: L -/
theorem not_loose_of_find (h : tree.find path = some i) (hi : i ≠ 0) : ¬ tree.Loose i := by
  cases path with
  | nil => exact (hi (Option.some.inj h).symm).elim
  | cons n path =>
      obtain ⟨d, -, hlink⟩ := find_cons_eq_some.mp h
      exact fun hloose => hloose d n hlink

/-- Above a path that leads somewhere there are directories. Kind: L -/
theorem directory_of_suffix (h : tree.find p = some i) (hq : n :: q <:+ p) :
    ∃ d, tree.find q = some d ∧ tree.kinds[d]? = some .directory := by
  obtain ⟨d, k, hd, hlink⟩ := Trees.exists_child_of_suffix h hq
  exact ⟨d, hd, tree.directory_of_entry hlink⟩

/-- A directory has directories above it. Kind: L -/
theorem kindAt_of_suffix (h : tree.kindAt p = some .directory) (hq : q <:+ p) :
    tree.kindAt q = some .directory := by
  obtain ⟨i, hi, -⟩ := Option.bind_eq_some_iff.mp h
  rcases Trees.eq_or_cons_suffix hq with rfl | ⟨n, hn⟩
  · exact h
  · obtain ⟨d, hd, hdir⟩ := directory_of_suffix hi hn
    exact Option.bind_eq_some_iff.mpr ⟨d, hd, hdir⟩

end FileTree

end CloudNode
