import CloudNode.Sync.Scanning

/-!
# What the watcher has still to see to

A directory that is made or moved is not watched at its path at once, and the paths the watcher
holds may be out of date. But something is then to be done at the directory or above it: its event
is on the way, or a listing is to come to it. The invariant says this of every directory, and of
every file that changed, in every state. Here it is stated, and shown to survive whatever others do
to the tree: the event of an operation announces the path it makes, unless the directory it is in is
not watched, and then something is to be done at or above that.

* `Todo`, `Covered` — what is to be done at a path, for a directory or for a file.
* `Settled` — a directory is watched under its path, or covered; a file that changed was passed to
  `Notify`, or is to be.
* `Sound` — all beneath the root is settled.
* `Sound.cut`, `Sound.graft` — the two things that operations do to the tree.
-/

namespace CloudNode

namespace WatchedTree

variable {s s' : WatchedTree} {d i j : ℕ} {n m : Str} {kind : NodeKind} {dir p q t path : AbsPath}
  {e : KernelEvent} {f : Frame}

/-! ## What is to be done -/

/-- The events that the watcher did not handle yet. Kind: D -/
def unread (s : WatchedTree) : List KernelEvent := s.buffer ++ s.queue

/-- The event leads to a listing of the directory, or tells of the file. Kind: D -/
def announces : NodeKind → WatchKind → Bool
  | .directory, .create | .directory, .movedTo => true
  | .regular, .closeWrite | .regular, .movedTo => true
  | _, _ => false

/-- An unread event tells of the path. Kind: D -/
def Announced (s : WatchedTree) (kind : NodeKind) (q : AbsPath) : Prop :=
  ∃ n dir d what, q = n :: dir ∧ s.root <:+ dir ∧ s.tree.find dir = some d ∧
    .child d what (kind = .directory) n ∈ s.unread ∧ announces kind what = true

/-- A call of `AddWatchTree` comes to the path. Kind: D -/
def frameTodo (tree : FileTree) (kind : NodeKind) (q : AbsPath) : Frame → Prop
  | .adding dir _ => kind = .directory ∧ q = dir
  | .opening dir _ => ∃ n, q = n :: dir
  | .listing dir node left _ => ∃ n, q = n :: dir ∧ tree.find dir = some node ∧ n ∈ left

/-- The watcher will come to the path. Kind: D -/
def Todo (s : WatchedTree) (kind : NodeKind) (q : AbsPath) : Prop :=
  s.Announced kind q ∨ (s.root <:+ q ∧ ∃ f ∈ s.frames, frameTodo s.tree kind q f)

/-- The watcher will come to the path as a directory's, or to one above it. Kind: D -/
def Covered (s : WatchedTree) (p : AbsPath) : Prop := Trees.Covered (s.Todo .directory) p

/-- The watcher will come to a file. Kind: D -/
def Due (s : WatchedTree) (p : AbsPath) : Prop := s.Todo .regular p ∨ s.Covered p.tail

/-- An inode is watched under its path. Kind: D -/
def WatchedAs (s : WatchedTree) (i : ℕ) (p : AbsPath) : Prop :=
  i ∈ s.watched ∧ s.watches[i]? = some p

/-- A directory is watched under its path, or will be; a file that changed was passed to `Notify`
under its path, or will be. Kind: D -/
structure Settled (s : WatchedTree) (p : AbsPath) (i : ℕ) : Prop where
  directory : s.tree.kinds[i]? = some .directory → s.WatchedAs i p ∨ s.Covered p
  regular : s.tree.kinds[i]? = some .regular → s.changed p = true → s.told p = true ∨ s.Due p

/-- `reportExisting` of a call. Kind: D -/
def reports : Frame → Bool
  | .adding _ report | .opening _ report | .listing _ _ _ report => report

/-- What holds all along. Kind: D -/
structure Sound (s : WatchedTree) : Prop where
  rooted : s.tree.kindAt s.root = some .directory
  settled : ∀ p i, s.root <:+ p → s.tree.find p = some i → s.Settled p i
  gone : ∀ i, .ignored i ∈ s.unread → i < s.tree.kinds.length ∧ i ≠ 0 ∧ s.tree.Loose i
  reporting : s.started = true → ∀ f ∈ s.frames, reports f = true
  calm : ∀ p, s.changed p = true → s.started = true

/-! ## What stays to be done -/

/-- Whatever is to be done at a path or above it stays to be done. Kind: D -/
structure Keeps (s s' : WatchedTree) (p : AbsPath) : Prop where
  root : s'.root = s.root
  find : ∀ q, q <:+ p → s'.tree.find q = s.tree.find q
  unread : ∀ e ∈ s.unread, e ∈ s'.unread
  frames : ∀ f ∈ s.frames, ∀ kind q, q <:+ p → frameTodo s.tree kind q f →
    ∃ f' ∈ s'.frames, frameTodo s'.tree kind q f'

/-- Where the tree and the calls stay, everything stays to be done. Kind: L -/
theorem Keeps.of_tree_eq (hroot : s'.root = s.root) (htree : s'.tree = s.tree)
    (hunread : ∀ e ∈ s.unread, e ∈ s'.unread) (hframes : ∀ f ∈ s.frames, f ∈ s'.frames) :
    Keeps s s' p where
  root := hroot
  find q _ := by rw [htree]
  unread := hunread
  frames f hf kind q _ htodo := ⟨f, hframes f hf, htree ▸ htodo⟩

/-- What is to be done at a path stays so. Kind: L -/
theorem Keeps.todo (h : Keeps s s' p) (hq : q <:+ p) (htodo : s.Todo kind q) : s'.Todo kind q := by
  rcases htodo with ⟨n, dir, d, what, rfl, hdir, hfind, hmem, hannounces⟩ | ⟨hroot, f, hf, hf'⟩
  · have hsame := h.find dir ((List.suffix_cons n dir).trans hq)
    exact .inl ⟨n, dir, d, what, rfl, h.root ▸ hdir, hsame.trans hfind, h.unread _ hmem, hannounces⟩
  · exact .inr ⟨h.root ▸ hroot, h.frames f hf kind q hq hf'⟩

/-- A covered path stays covered. Kind: L -/
theorem Keeps.covered (h : Keeps s s' p) (hq : q <:+ p) (hcovered : s.Covered q) : s'.Covered q :=
  hcovered.imp fun _ ht => h.todo (ht.trans hq)

/-- What keeps all that is to be done keeps a path settled. Kind: L -/
theorem Settled.keep (hs : s.Settled p i) (h : Keeps s s' p)
    (hkind : s'.tree.kinds[i]? = s.tree.kinds[i]?) (hwatched : s.WatchedAs i p → s'.WatchedAs i p)
    (hchanged : s'.changed p = true → s.changed p = true)
    (htold : s.told p = true → s'.told p = true) : s'.Settled p i where
  directory hdir := by
    rcases hs.directory (hkind ▸ hdir) with hright | hcovered
    · exact .inl (hwatched hright)
    · exact .inr (h.covered List.suffix_rfl hcovered)
  regular hreg hch := by
    rcases hs.regular (hkind ▸ hreg) (hchanged hch) with hdone | htodo | hcovered
    · exact .inl (htold hdone)
    · exact .inr (.inl (h.todo List.suffix_rfl htodo))
    · exact .inr (.inr (h.covered (List.tail_suffix p) hcovered))

/-- What is settled where only the tables grow. Kind: L -/
theorem Sound.of_grow (hs : s.Sound) (hroot : s'.root = s.root) (htree : s'.tree = s.tree)
    (hunread : ∀ e ∈ s.unread, e ∈ s'.unread)
    (hnew : ∀ e ∈ s'.unread, e ∈ s.unread ∨ ∃ d what isDir n, e = .child d what isDir n)
    (hframes : s'.frames = s.frames) (hwatched : s'.watched = s.watched)
    (hwatches : s'.watches = s.watches) (hstarted : s'.started = s.started)
    (hchanged : s'.changed = s.changed) (htold : s'.told = s.told) : s'.Sound where
  rooted := by
    rw [hroot, htree]
    exact hs.rooted
  settled p i hp hfind := by
    rw [hroot] at hp
    rw [htree] at hfind
    have hkeeps : Keeps s s' p := .of_tree_eq hroot htree hunread (fun f hf => hframes ▸ hf)
    refine (hs.settled p i hp hfind).keep hkeeps (by rw [htree]) ?_ ?_ ?_
    · rw [WatchedAs, WatchedAs, hwatched, hwatches]
      exact id
    · rw [hchanged]
      exact id
    · rw [htold]
      exact id
  gone i hi := by
    rw [htree]
    rcases hnew _ hi with hold | ⟨d, what, isDir, n, heq⟩
    · exact hs.gone i hold
    · exact KernelEvent.noConfusion heq
  reporting hst f hf := hs.reporting (hstarted ▸ hst) f (hframes ▸ hf)
  calm p hp := by
    rw [hstarted]
    exact hs.calm p (hchanged ▸ hp)

/-! ## Operations on the tree -/

/-- What is unread after something happened to an entry. Kind: L -/
theorem mem_unread_emit {what : WatchKind} {isDir : Bool} :
    e ∈ (s.emit d what isDir n).unread ↔
      e ∈ s.unread ∨ (d ∈ s.watched ∧ e = .child d what isDir n) := by
  simp only [unread, emit, List.mem_append]
  split
  · rename_i h
    simp only [List.mem_append, List.mem_singleton, h.1, true_and, or_assoc]
  · rename_i h
    refine ⟨.inl, ?_⟩
    rintro (hold | ⟨hwatched, rfl⟩)
    · exact hold
    · -- The same event is the newest of the queue.
      rw [not_and, not_not] at h
      exact .inr (List.mem_of_getLast? (h hwatched))

/-- An event leaves all settled. Kind: L -/
theorem Sound.emit (hs : s.Sound) (d : ℕ) (what : WatchKind) (isDir : Bool) (n : Str) :
    (s.emit d what isDir n).Sound := by
  refine hs.of_grow rfl rfl (fun e he => mem_unread_emit.mpr (.inl he)) (fun e he => ?_)
    rfl rfl rfl rfl rfl rfl
  rcases mem_unread_emit.mp he with hold | ⟨-, rfl⟩
  · exact .inl hold
  · exact .inr ⟨d, what, isDir, n, rfl⟩

/-- The root keeps its place where nothing above it loses its entry. Kind: L -/
theorem find_root_of_cut (hroot : s.tree.kindAt s.root = some .directory)
    (havoid : ∀ t, s.tree.find t = some d → ¬ n :: t <:+ s.root) :
    (s.tree.detach d n).find s.root = s.tree.find s.root := by
  obtain ⟨r, hr, -⟩ := Option.bind_eq_some_iff.mp hroot
  have hnew : ∀ a b c, s.tree.link a b = some c →
      (s.tree.detach d n).link a b = some c ∨ (d = a ∧ n = b) := by
    intro a b c hlink
    by_cases hab : (d, n) = (a, b)
    · exact .inr (Prod.mk.inj hab)
    · exact .inl ((FileTree.link_detach_of_ne hab).trans hlink)
  rcases Trees.agree_or_through hnew hr with hsame | ⟨m, t, a, b, ht, -, hfind, -, rfl, rfl⟩
  · exact (hsame s.root List.suffix_rfl).symm
  · exact (havoid t hfind ht).elim

/-- Everything that is to be done beneath a path that still leads somewhere stays to be done when an
entry is removed. Kind: L -/
theorem keeps_cut (hfind : (s.tree.detach d n).find p = some i) : Keeps s (s.cut d n) p where
  root := rfl
  find := Trees.agree_of_le (fun _ _ _ h => (FileTree.link_of_detach h).2) hfind
  unread _ he := he
  frames f hf kind q hq htodo := by
    have hsame := Trees.agree_of_le (fun _ _ _ h => (FileTree.link_of_detach h).2) hfind
    refine ⟨forget d n f, List.mem_map_of_mem hf, ?_⟩
    cases f with
    | adding dir report => exact htodo
    | opening dir report => exact htodo
    | listing dir node left report =>
        obtain ⟨m, rfl, hdir, hm⟩ := htodo
        refine ⟨m, rfl, (hsame dir ((List.suffix_cons m dir).trans hq)).trans hdir, ?_⟩
        by_cases hnode : node = d
        · rw [if_pos hnode, List.mem_filter]
          refine ⟨hm, decide_eq_true ?_⟩
          -- The path still leads somewhere, so it is not the entry that was removed.
          rintro rfl
          obtain ⟨a, k, ha, hlink⟩ := Trees.exists_child_of_suffix hfind hq
          have hold := (hsame dir ((List.suffix_cons m dir).trans hq)).symm.trans ha
          obtain rfl : node = a := Option.some.inj (hdir.symm.trans hold)
          exact (FileTree.link_of_detach hlink).1 (by rw [hnode])
        · rw [if_neg hnode]
          exact hm

/-- **Removing an entry leaves all settled**, unless the root goes with it. Kind: P -/
theorem Sound.cut (hs : s.Sound) (havoid : ∀ t, s.tree.find t = some d → ¬ n :: t <:+ s.root) :
    (s.cut d n).Sound where
  rooted := by
    have hroot := find_root_of_cut hs.rooted havoid
    have hkind := hs.rooted
    rw [FileTree.kindAt] at hkind ⊢
    show ((s.tree.detach d n).find s.root).bind _ = _
    rw [hroot]
    exact hkind
  settled p i hp hfind := by
    have hkeeps := keeps_cut (s := s) hfind
    have hold := (hkeeps.find p List.suffix_rfl).symm.trans hfind
    exact (hs.settled p i hp hold).keep hkeeps rfl id id id
  gone i hi := by
    obtain ⟨hlt, hne, hloose⟩ := hs.gone i hi
    exact ⟨hlt, hne, hloose.detach d n⟩
  reporting hst f hf := by
    obtain ⟨g, hg, rfl⟩ := List.mem_map.mp hf
    have hreports := hs.reporting hst g hg
    cases g <;> exact hreports
  calm := hs.calm

/-- What is settled stays so when there is a new inode. Kind: L -/
theorem Sound.create (hs : s.Sound) (kind : NodeKind) :
    Sound { s with tree := s.tree.create kind } where
  rooted := by
    obtain ⟨r, hr, hdir⟩ := Option.bind_eq_some_iff.mp hs.rooted
    exact Option.bind_eq_some_iff.mpr ⟨r, hr, FileTree.getElem?_append_of_some hdir⟩
  settled p i hp hfind := by
    have hfind' : s.tree.find p = some i := hfind
    have hkind : (s.tree.kinds ++ [kind])[i]? = s.tree.kinds[i]? :=
      List.getElem?_append_left (FileTree.lt_of_find hfind')
    have hkeeps : Keeps s { s with tree := s.tree.create kind } p :=
      { root := rfl
        find := fun _ _ => rfl
        unread := fun _ he => he
        frames := fun f hf kind q _ htodo => ⟨f, hf, by cases f <;> exact htodo⟩ }
    exact (hs.settled p i hp hfind').keep hkeeps hkind id id id
  gone i hi := by
    obtain ⟨hlt, hne, hloose⟩ := hs.gone i hi
    refine ⟨?_, hne, hloose⟩
    show i < (s.tree.kinds ++ [kind]).length
    rw [List.length_append]
    exact Nat.lt_add_right _ hlt
  reporting := hs.reporting
  calm := hs.calm

/-- What is beneath the root but not above it is beneath an entry's directory. Kind: L -/
theorem root_suffix_of_cons {root : AbsPath} (hp : root <:+ p) (hq : n :: q <:+ p)
    (hroot : ¬ n :: q <:+ root) : root <:+ q := by
  rcases List.suffix_or_suffix_of_suffix hp hq with h | h
  · rcases List.suffix_cons_iff.mp h with heq | h
    · exact (hroot (heq ▸ List.suffix_rfl)).elim
    · exact h
  · exact (hroot h).elim

/-- Beneath the root, where a directory is not watched, something is to be done. Kind: L -/
theorem Sound.covered_of_not_watched (hs : s.Sound) (hdir : s.root <:+ dir)
    (hfind : s.tree.find dir = some d) (hkind : s.tree.kinds[d]? = some .directory)
    (hwatched : d ∉ s.watched) : s.Covered dir := by
  rcases (hs.settled dir d hdir hfind).directory hkind with hright | hcovered
  · exact (hwatched hright.1).elim
  · exact hcovered

/-- Beneath a path that the watcher will come to, all is settled. Kind: L -/
theorem settled_beneath (hfind : s.tree.find p = some i) (hq : m :: q <:+ p)
    (hkind : s.tree.kindAt (m :: q) = some kind)
    (h : s.Todo kind (m :: q) ∨ s.Covered q ∨
      (kind = .regular ∧ s.changed (m :: q) = false)) : s.Settled p i := by
  obtain ⟨j, hj, hjkind⟩ := Option.bind_eq_some_iff.mp hkind
  rcases Trees.eq_or_cons_suffix hq with rfl | ⟨l, hl⟩
  · obtain rfl : j = i := Option.some.inj (hj.symm.trans hfind)
    refine ⟨fun hdir => .inr ?_, fun hreg hch => .inr ?_⟩
    · obtain rfl : kind = .directory := Option.some.inj (hjkind.symm.trans hdir)
      rcases h with htodo | hcovered | ⟨hreg, -⟩
      · exact ⟨m :: q, List.suffix_rfl, htodo⟩
      · exact hcovered.of_suffix (List.suffix_cons m q)
      · exact NodeKind.noConfusion hreg
    · obtain rfl : kind = .regular := Option.some.inj (hjkind.symm.trans hreg)
      rcases h with htodo | hcovered | ⟨-, hnot⟩
      · exact .inl htodo
      · exact .inr hcovered
      · exact (Bool.false_ne_true (hnot.symm.trans hch)).elim
  · -- There is something in it, so it is a directory.
    obtain ⟨d, hd, hdir⟩ := FileTree.directory_of_suffix hfind hl
    obtain rfl : j = d := Option.some.inj (hj.symm.trans hd)
    obtain rfl : kind = .directory := Option.some.inj (hjkind.symm.trans hdir)
    have hcovered : s.Covered p.tail := by
      rcases h with htodo | hcovered | ⟨hreg, -⟩
      · exact ⟨m :: q, Trees.suffix_tail_of_cons hl, htodo⟩
      · exact hcovered.of_suffix ((List.suffix_cons m q).trans (Trees.suffix_tail_of_cons hl))
      · exact NodeKind.noConfusion hreg
    exact ⟨fun _ => .inr (hcovered.of_suffix (List.tail_suffix p)), fun _ _ => .inr (.inr hcovered)⟩

section graft

variable {changed : Bool} {what : WatchKind} {h : s.tree.Attachable d n i}

/-- Where a path leads where it led before, everything stays to be done when an inode is given an
entry. Kind: L -/
theorem keeps_graft (hsame : Trees.Agree s.tree.link (s.tree.attach d n i h).link 0 p)
    {isDir : Bool} : Keeps s ((s.graft d n i path changed h).emit d what isDir n) p where
  root := rfl
  find := hsame
  unread _ he := mem_unread_emit.mpr (.inl he)
  frames f hf kind q hq htodo := by
    refine ⟨f, hf, ?_⟩
    cases f with
    | adding dir report => exact htodo
    | opening dir report => exact htodo
    | listing dir node left report =>
        obtain ⟨m, rfl, hfind, hm⟩ := htodo
        exact ⟨m, rfl, (hsame dir ((List.suffix_cons m dir).trans hq)).trans hfind, hm⟩

/-- A path does not lead through an entry that is not there. Kind: L -/
theorem not_suffix_of_vacant (hvacant : s.tree.link d n = none) (hfind : s.tree.find p = some j)
    (hdir : ∀ k, s.tree.find dir = some k → k = d) : ¬ n :: dir <:+ p := by
  intro hsuffix
  obtain ⟨a, k, ha, hak⟩ := Trees.exists_child_of_suffix hfind hsuffix
  obtain rfl := hdir a ha
  exact Option.some_ne_none k (hak.symm.trans hvacant)

/-- A new entry takes nothing from the root. Kind: L -/
theorem kindAt_root_of_graft (hroot : s.tree.kindAt s.root = some .directory)
    (hvacant : s.tree.link d n = none) :
    (s.tree.attach d n i h).kindAt s.root = some .directory := by
  obtain ⟨r, hr, hdir⟩ := Option.bind_eq_some_iff.mp hroot
  have hnew : ∀ a b c, s.tree.link a b = some c →
      (s.tree.attach d n i h).link a b = some c ∨ False := by
    intro a b c hold
    refine .inl ((getElem?_insert_ne _ i ?_).trans hold)
    rintro heq
    obtain ⟨rfl, rfl⟩ := Prod.mk.inj heq
    exact Option.some_ne_none c (hold.symm.trans hvacant)
  rcases Trees.agree_or_through hnew hr with hsame | ⟨m, t, a, b, -, -, -, -, hfalse⟩
  · exact Option.bind_eq_some_iff.mpr ⟨r, (hsame s.root List.suffix_rfl).symm.trans hr, hdir⟩
  · exact hfalse.elim

/-- **Giving an inode an entry leaves all settled** if the kernel tells of it: the event announces
it, or nothing is owed yet. Kind: P -/
theorem Sound.graft (hs : s.Sound) (hdir : ∀ j, s.tree.find dir = some j → j = d)
    (hvacant : s.tree.link d n = none) (hkind : s.tree.kinds[i]? = some kind)
    (hannounces : announces kind what = true ∨
      (kind = .regular ∧ changed = false ∧ s.tree.find dir = some d))
    (hgone : .ignored i ∉ s.unread) (hcalm : changed = true → s.started = true) :
    ((s.graft d n i (n :: dir) changed h).emit d what (kind = .directory) n).Sound := by
  refine ⟨kindAt_root_of_graft (h := h) hs.rooted hvacant, fun p j hp hfind => ?_, fun j hj => ?_,
    hs.reporting, fun p hp => ?_⟩
  · have hlink : ∀ a b c, (s.tree.attach d n i h).link a b = some c →
        s.tree.link a b = some c ∨ (d = a ∧ n = b ∧ i = c) := by
      intro a b c habc
      rcases FileTree.link_of_attach habc with hold | ⟨rfl, rfl, rfl⟩
      · exact .inl hold
      · exact .inr ⟨rfl, rfl, rfl⟩
    rcases Trees.agree_or_through hlink hfind with
      hsame | ⟨m, t, a, k, ht, hsame, ha, hk, rfl, rfl, rfl⟩
    · have hold : s.tree.find p = some j := (hsame p List.suffix_rfl).symm.trans hfind
      have hnot := not_suffix_of_vacant hvacant hold hdir
      refine (hs.settled p j hp hold).keep (keeps_graft hsame) rfl id ?_ ?_
      · show (if n :: dir <:+ p then changed else s.changed p) = true → _
        rw [if_neg hnot]
        exact id
      · show _ → (if n :: dir <:+ p then false else s.told p) = true
        rw [if_neg hnot]
        exact id
    · -- The path leads through the new entry.
      have hold : s.tree.find t = some d := (hsame t List.suffix_rfl).symm.trans ha
      obtain ⟨r, hr, -⟩ := Option.bind_eq_some_iff.mp hs.rooted
      have hoff : ¬ n :: t <:+ s.root := not_suffix_of_vacant hvacant hr fun b hb =>
        Option.some.inj (hb.symm.trans hold)
      have hroot : s.root <:+ t := root_suffix_of_cons hp ht hoff
      refine settled_beneath hfind ht (Option.bind_eq_some_iff.mpr
        ⟨i, FileTree.find_cons_eq_some.mpr ⟨d, ha, hk⟩, hkind⟩) ?_
      rcases hannounces with hann | ⟨rfl, rfl, hfinddir⟩
      · by_cases hwatched : d ∈ s.watched
        · exact .inl (.inl ⟨n, t, d, what, rfl, hroot, ha,
            mem_unread_emit.mpr (.inr ⟨hwatched, rfl⟩), hann⟩)
        · have hcovered := hs.covered_of_not_watched hroot hold h.directory hwatched
          exact .inr (.inl ((keeps_graft hsame).covered List.suffix_rfl hcovered))
      · obtain rfl := FileTree.find_inj hold hfinddir
        exact .inr (.inr ⟨rfl, if_pos List.suffix_rfl⟩)
  · rcases mem_unread_emit.mp hj with hold | ⟨-, heq⟩
    · obtain ⟨hlt, hne, hloose⟩ := hs.gone j hold
      refine ⟨hlt, hne, fun a b hab => ?_⟩
      rcases FileTree.link_of_attach (h := h) hab with hab | ⟨-, -, rfl⟩
      · exact hloose a b hab
      · exact hgone hold
    · exact KernelEvent.noConfusion heq
  · change (if n :: dir <:+ p then changed else s.changed p) = true at hp
    show s.started = true
    by_cases hsuffix : n :: dir <:+ p
    · rw [if_pos hsuffix] at hp
      exact hcalm hp
    · rw [if_neg hsuffix] at hp
      exact hs.calm p hp

end graft

/-! ## Steps of others -/

/-- The entry that a path names. Kind: L -/
theorem spot_eq_some : s.spot path = some (d, n) ↔
    ∃ dir, path = n :: dir ∧ s.tree.find dir = some d := by
  cases path with
  | nil => exact ⟨fun h => (Option.some_ne_none _ h.symm).elim, fun ⟨_, h, _⟩ => nomatch h⟩
  | cons m dir =>
      simp only [spot, Option.map_eq_some_iff, Prod.mk.injEq]
      constructor
      · rintro ⟨d', hfind, rfl, rfl⟩
        exact ⟨dir, rfl, hfind⟩
      · rintro ⟨dir', heq, hfind⟩
        obtain ⟨rfl, rfl⟩ := List.cons.inj heq
        exact ⟨d, hfind, rfl, rfl⟩

/-- Making a directory or a file leaves all settled. Kind: L -/
theorem Sound.make (hs : s.Sound) (hspot : s.spot path = some (d, n)) (h : s.tree.Free d n) :
    (s.make kind d n path h).Sound := by
  obtain ⟨dir, rfl, hfind⟩ := spot_eq_some.mp hspot
  have hkind : (s.tree.kinds ++ [kind])[s.tree.kinds.length]? = some kind := by
    rw [List.getElem?_append_right (Nat.le_refl _), Nat.sub_self]
    rfl
  refine (hs.create kind).graft (fun j hj => Option.some.inj (hj.symm.trans hfind)) h.vacant hkind
    ?_ ?_ (fun hfalse => Bool.noConfusion hfalse)
  · cases kind with
    | directory => exact .inl rfl
    | regular => exact .inr ⟨rfl, rfl, hfind⟩
  · intro hmem
    exact (hs.gone _ hmem).1.false

/-- Removing a file or a directory leaves all settled. Kind: L -/
theorem Sound.delete (hs : s.Sound) (hspot : s.spot path = some (d, n))
    (hroot : ¬ path <:+ s.root) (isDir : Bool) : ((s.cut d n).emit d .delete isDir n).Sound := by
  obtain ⟨dir, rfl, hfind⟩ := spot_eq_some.mp hspot
  refine (hs.cut fun t ht hsuffix => hroot ?_).emit d .delete isDir n
  exact FileTree.find_inj ht hfind ▸ hsuffix

/-- Renaming leaves all settled. Kind: L -/
theorem Sound.rename {old new : AbsPath} {d' : ℕ} {n' : Str} (hs : s.Sound)
    (hold : s.spot old = some (d, n)) (hnew : s.spot new = some (d', n'))
    (hlink : s.tree.link d n = some i) (h : s.Renamable i old new d' n') :
    (s.rename d n i new d' n' (h.attachable hlink)).Sound := by
  obtain ⟨dir, rfl, hfind⟩ := spot_eq_some.mp hold
  obtain ⟨dir', rfl, hfind'⟩ := spot_eq_some.mp hnew
  obtain ⟨kind, hkind⟩ : ∃ kind, s.tree.kinds[i]? = some kind :=
    ⟨_, List.getElem?_eq_getElem (s.tree.node_of_entry hlink).1⟩
  have hisDir : decide (s.tree.kinds[i]? = some .directory) = decide (kind = .directory) := by
    rw [hkind, decide_eq_decide, Option.some.injEq]
  have hfirst : (s.cut d n).Sound := hs.cut fun t ht hsuffix =>
    h.old_not_root (FileTree.find_inj ht hfind ▸ hsuffix)
  have hmoved := hfirst.emit d .movedFrom (kind = .directory) n
  have hsecond := hmoved.cut (d := d') (n := n') fun t ht hsuffix =>
    h.new_not_root (FileTree.find_inj (FileTree.find_of_detach ht) hfind' ▸ hsuffix)
  unfold WatchedTree.rename
  simp only [hisDir]
  refine hsecond.graft (fun j hj => ?_) FileTree.link_detach_self hkind (.inl ?_) ?_ id
  · have hj' := FileTree.find_of_detach (FileTree.find_of_detach hj)
    exact Option.some.inj (hj'.symm.trans hfind')
  · cases kind <;> rfl
  · intro hmem
    change .ignored i ∈ ((s.cut d n).emit d .movedFrom (kind = .directory) n).unread at hmem
    rcases mem_unread_emit.mp hmem with hmem | ⟨-, heq⟩
    · exact (hs.gone i hmem).2.2 d n hlink
    · exact KernelEvent.noConfusion heq

/-- Closing a file leaves all settled: the kernel tells of it, or its directory is not watched yet.
Kind: L -/
theorem Sound.close (hs : s.Sound) (hspot : s.spot path = some (d, n))
    (hkind : s.tree.kindAt path = some .regular) :
    (WatchedTree.emit { s with
      changed := fun q => if q = path then s.started else s.changed q
      told := fun q => if q = path then false else s.told q } d .closeWrite false n).Sound := by
  obtain ⟨dir, rfl, hfind⟩ := spot_eq_some.mp hspot
  have hkeeps (p : AbsPath) : Keeps s (WatchedTree.emit { s with
      changed := fun q => if q = n :: dir then s.started else s.changed q
      told := fun q => if q = n :: dir then false else s.told q } d .closeWrite false n) p :=
    .of_tree_eq rfl rfl (fun e he => mem_unread_emit.mpr (.inl he)) fun f hf => hf
  refine ⟨hs.rooted, fun p j hp hj => ?_, fun j hj => ?_, hs.reporting, fun p hp => ?_⟩
  · by_cases heq : p = n :: dir
    · subst heq
      refine settled_beneath hj List.suffix_rfl hkind ?_
      have hroot : s.root <:+ dir := by
        rcases List.suffix_cons_iff.mp (show s.root <:+ n :: dir from hp) with heq | h
        · rw [← heq] at hkind
          exact NodeKind.noConfusion (Option.some.inj (hkind.symm.trans hs.rooted))
        · exact h
      obtain ⟨a, b, ha, hab⟩ := Trees.exists_child_of_suffix hj List.suffix_rfl
      obtain rfl : d = a := Option.some.inj (hfind.symm.trans ha)
      by_cases hwatched : d ∈ s.watched
      · exact .inl (.inl ⟨n, dir, d, .closeWrite, rfl, hroot, hfind,
          mem_unread_emit.mpr (.inr ⟨hwatched, rfl⟩), rfl⟩)
      · have hcovered := hs.covered_of_not_watched hroot hfind
          (s.tree.directory_of_entry hab) hwatched
        exact .inr (.inl ((hkeeps dir).covered List.suffix_rfl hcovered))
    · refine (hs.settled p j hp hj).keep (hkeeps p) rfl id ?_ ?_
      · show (if p = n :: dir then s.started else s.changed p) = true → _
        rw [if_neg heq]
        exact id
      · show _ → (if p = n :: dir then false else s.told p) = true
        rw [if_neg heq]
        exact id
  · rcases mem_unread_emit.mp hj with hold | ⟨-, heq⟩
    · exact hs.gone j hold
    · exact KernelEvent.noConfusion heq
  · change (if p = n :: dir then s.started else s.changed p) = true at hp
    show s.started = true
    by_cases heq : p = n :: dir
    · rw [if_pos heq] at hp
      exact hp
    · rw [if_neg heq] at hp
      exact hs.calm p hp

/-- The watch of a removed inode is nobody's. Kind: L -/
theorem Sound.evict (hs : s.Sound) (hlt : i < s.tree.kinds.length) (hne : i ≠ 0)
    (hloose : s.tree.Loose i) :
    Sound { s with
      watched := s.watched.erase i
      queue := s.queue ++ [.ignored i] } where
  rooted := hs.rooted
  settled p j hp hj := by
    have hij : i ≠ j := by
      rintro rfl
      exact FileTree.not_loose_of_find hj hne hloose
    have hkeeps : Keeps s { s with
        watched := s.watched.erase i
        queue := s.queue ++ [.ignored i] } p := by
      refine .of_tree_eq rfl rfl (fun e he => ?_) fun f hf => hf
      rw [unread, ← List.append_assoc]
      exact List.mem_append_left _ he
    exact (hs.settled p j hp hj).keep hkeeps rfl
      (fun hright => ⟨(mem_erase_iff _ _ _).mpr ⟨hij, hright.1⟩, hright.2⟩) id id
  gone j hj := by
    rw [unread, ← List.append_assoc] at hj
    rcases List.mem_append.mp hj with hold | hnew
    · exact hs.gone j hold
    · obtain rfl : j = i := KernelEvent.ignored.inj (List.mem_singleton.mp hnew)
      exact ⟨hlt, hne, hloose⟩
  reporting := hs.reporting
  calm := hs.calm

end WatchedTree

end CloudNode
