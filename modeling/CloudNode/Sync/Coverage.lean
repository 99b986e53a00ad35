import CloudNode.Sync.Settled

/-!
# Every directory is watched

The watcher takes what is to be done at a path and turns it, step by step, into the watch of the
directory and what is to be done right beneath it. An event may find the path of its directory out
of date; then the directory itself is not right, and something is to be done at or above it, which
covers the event's path too.

* `Sound.read_child` — handling an event leaves all settled.
* `Sound.addWatch`, `Sound.entry` — so do the steps of `AddWatchTree`.
* `sound_of_run` — all is settled in every state of every run.
* `watched_of_handled` — when all events have been handled, nothing is to be done.
-/

namespace CloudNode

namespace WatchedTree

variable {s s' : WatchedTree} {d i j : ℕ} {n m : Str} {kind : NodeKind} {dir p q t path : AbsPath}
  {e : KernelEvent} {f : Frame}

/-! ## Steps of the watcher -/

/-- What the watcher does leaves the tree; all that has to be seen to is what is settled. Kind: L -/
theorem Sound.of_watcher (hs : s.Sound) (hroot : s'.root = s.root) (htree : s'.tree = s.tree)
    (hunread : ∀ e ∈ s'.unread, e ∈ s.unread) (hchanged : s'.changed = s.changed)
    (hstarted : s.started = true → s'.started = true)
    (hreporting : s'.started = true → ∀ f ∈ s'.frames, reports f = true)
    (hsettled : ∀ p i, s.root <:+ p → s.tree.find p = some i → s.Settled p i → s'.Settled p i) :
    s'.Sound where
  rooted := by
    rw [hroot, htree]
    exact hs.rooted
  settled p i hp hfind := by
    rw [hroot] at hp
    rw [htree] at hfind
    exact hsettled p i hp hfind (hs.settled p i hp hfind)
  gone i hi := by
    rw [htree]
    exact hs.gone i (hunread _ hi)
  reporting := hreporting
  calm p hp := hstarted (hs.calm p (hchanged ▸ hp))

/-- What the watcher does at a path: nothing is lost, and it may get to call `AddWatchTree`, or pass
the path to `Notify`. Kind: D -/
structure Extends (s s' : WatchedTree) (report : Bool) : Prop where
  root : s'.root = s.root
  tree : s'.tree = s.tree
  watched : s'.watched = s.watched
  watches : s'.watches = s.watches
  unread : s'.unread = s.unread
  started : s'.started = s.started
  changed : s'.changed = s.changed
  told : ∀ p, s.told p = true → s'.told p = true
  frames : ∀ f ∈ s.frames, f ∈ s'.frames
  reporting : ∀ f ∈ s'.frames, f ∈ s.frames ∨ reports f = report

/-- Nothing was done. Kind: L -/
theorem Extends.refl (s : WatchedTree) (report : Bool) : Extends s s report :=
  ⟨rfl, rfl, rfl, rfl, rfl, rfl, rfl, fun _ => id, fun _ => id, fun _ => .inl⟩

/-- A path was passed to `Notify`. Kind: L -/
theorem extends_notify (created : Std.ExtTreeSet AbsPath) {change : FileChange} {report : Bool} :
    Extends s (notify { s with created := created } path change) report :=
  ⟨rfl, rfl, rfl, rfl, rfl, rfl, rfl, fun _ h => Bool.or_eq_true_iff.mpr (.inr h), fun _ => id,
    fun _ => .inl⟩

/-- `AddWatchTree` was called. Kind: L -/
theorem extends_adding {report : Bool} :
    Extends s { s with frames := .adding path report :: s.frames } report where
  root := rfl
  tree := rfl
  watched := rfl
  watches := rfl
  unread := rfl
  started := rfl
  changed := rfl
  told _ := id
  frames _ := List.mem_cons_of_mem _
  reporting f hf := by
    rcases List.mem_cons.mp hf with rfl | hold
    · exact .inr rfl
    · exact .inl hold

/-- The path that was passed to `Notify` as added or modified. Kind: L -/
theorem told_notify {change : FileChange} (h : change ≠ .removed) :
    (s.notify path change).told path = true := by
  simp only [notify, decide_eq_true h, decide_true, Bool.and_true, Bool.true_or]

/-- What the watcher makes of an event: nothing is lost. Kind: L -/
theorem extends_handleChild (what : WatchKind) (isDir : Bool) :
    Extends s (s.handleChild what isDir path) true := by
  cases isDir with
  | true =>
      cases what with
      | create => exact extends_adding
      | movedTo => exact extends_adding
      | closeWrite => exact .refl s true
      | delete => exact .refl s true
      | movedFrom => exact .refl s true
  | false =>
      cases what with
      | create => exact ⟨rfl, rfl, rfl, rfl, rfl, rfl, rfl, fun _ => id, fun _ => id, fun _ => .inl⟩
      | movedTo => exact extends_notify _
      | closeWrite => exact extends_notify _
      | delete => exact extends_notify _
      | movedFrom => exact extends_notify _

/-- **What the watcher makes of an event that announces a path**: it calls `AddWatchTree` on a
directory, and passes a file to `Notify`. Kind: P -/
theorem handleChild_of_announces (s : WatchedTree) (path : AbsPath) {what : WatchKind}
    (h : announces kind what = true) :
    (kind = .directory ∧ .adding path true ∈
      (s.handleChild what (kind = .directory) path).frames) ∨
    (kind = .regular ∧ (s.handleChild what (kind = .directory) path).told path = true) := by
  cases kind with
  | directory =>
      refine .inl ⟨rfl, ?_⟩
      cases what with
      | create => exact List.mem_cons_self
      | movedTo => exact List.mem_cons_self
      | closeWrite => exact Bool.noConfusion h
      | delete => exact Bool.noConfusion h
      | movedFrom => exact Bool.noConfusion h
  | regular =>
      refine .inr ⟨rfl, ?_⟩
      cases what with
      | movedTo => exact told_notify FileChange.noConfusion
      | closeWrite =>
          apply told_notify
          split <;> exact FileChange.noConfusion
      | create => exact Bool.noConfusion h
      | delete => exact Bool.noConfusion h
      | movedFrom => exact Bool.noConfusion h

/-- What the watcher makes of an entry that it lists: nothing is lost. Kind: L -/
theorem extends_listEntry {report : Bool} (found : Option NodeKind) :
    Extends s (s.listEntry path report found) report := by
  cases found with
  | none => exact .refl s report
  | some kind =>
      cases kind with
      | directory => exact extends_adding
      | regular =>
          cases report with
          | true => exact extends_notify s.created
          | false => exact .refl s false

section read

variable {buffer : List KernelEvent}

/-- When an event is handled, what it announced is the only thing that is no longer to be done.
Kind: L -/
theorem todo_or_announced (hframes : s.frames = []) (hbuffer : s.buffer = e :: buffer)
    (hroot : s'.root = s.root) (htree : s'.tree = s.tree) (hunread : s'.unread = buffer ++ s.queue)
    (h : s.Todo kind q) :
    s'.Todo kind q ∨ ∃ n dir d what, q = n :: dir ∧ s.root <:+ dir ∧ s.tree.find dir = some d ∧
      e = .child d what (kind = .directory) n ∧ announces kind what = true := by
  rcases h with ⟨n, dir, d, what, rfl, hdir, hfind, hmem, hann⟩ | ⟨-, f, hf, -⟩
  · rw [unread, hbuffer, List.cons_append] at hmem
    rcases List.mem_cons.mp hmem with heq | hrest
    · exact .inr ⟨n, dir, d, what, rfl, hdir, hfind, heq.symm, hann⟩
    · exact .inl (.inl ⟨n, dir, d, what, rfl, hroot ▸ hdir, htree ▸ hfind, hunread ▸ hrest, hann⟩)
  · rw [hframes] at hf
    exact (List.not_mem_nil hf).elim

/-- What is covered above the path of an event is covered after the event. Kind: L -/
theorem covered_of_event {wd : ℕ} {what : WatchKind} {isDir : Bool} (hframes : s.frames = [])
    (hbuffer : s.buffer = .child wd what isDir n :: buffer) (hroot : s'.root = s.root)
    (htree : s'.tree = s.tree) (hunread : s'.unread = buffer ++ s.queue)
    (hfind : s.tree.find dir = some wd) (h : s.Covered dir) : s'.Covered dir := by
  refine h.imp fun t ht htodo => ?_
  rcases todo_or_announced hframes hbuffer hroot htree hunread htodo with
    hkeep | ⟨m, dir', d, what', rfl, -, hfind', heq, -⟩
  · exact hkeep
  · -- The event is of an entry of `dir`, which is not above `dir`.
    obtain ⟨rfl, -, -, rfl⟩ := KernelEvent.child.inj heq
    obtain rfl := FileTree.find_inj hfind hfind'
    have hlength := ht.length_le
    rw [List.length_cons] at hlength
    exact (Nat.not_succ_le_self _ hlength).elim

/-- An event of an entry: nothing is lost. Kind: L -/
theorem extends_handleEvent (wd : ℕ) (what : WatchKind) (isDir : Bool) (m : Str) :
    Extends s (s.handleEvent (.child wd what isDir m)) true := by
  rw [handleEvent]
  cases hdir : s.watches[wd]? with
  | none => exact .refl s true
  | some dir =>
      show Extends s (if m = [] then s else s.handleChild what isDir (m :: dir)) true
      by_cases hname : m = []
      · rw [if_pos hname]
        exact .refl s true
      · rw [if_neg hname]
        exact extends_handleChild what isDir

/-- **Handling an event**: what the watcher was to come to it has come to, or still will, or it will
come to the directory of the event, whose path it had wrong. Kind: P -/
theorem todo_of_event {wd : ℕ} {what : WatchKind} {isDir : Bool} (hs : s.Sound)
    (hframes : s.frames = []) (hbuffer : s.buffer = .child wd what isDir m :: buffer)
    (hs' : s' = handleEvent { s with buffer := buffer } (.child wd what isDir m))
    (hq : s.tree.find q = some i) (h : s.Todo kind q) :
    s'.Todo kind q ∨ s'.Covered q.tail ∨ (kind = .regular ∧ s'.told q = true) := by
  have hext : Extends { s with buffer := buffer } s' true := hs' ▸ extends_handleEvent wd what isDir m
  rcases todo_or_announced hframes hbuffer hext.root hext.tree hext.unread h with
    hkeep | ⟨n, dir, d, what', rfl, hroot, hfind, heq, hann⟩
  · exact .inl hkeep
  · obtain ⟨rfl, rfl, rfl, rfl⟩ := KernelEvent.child.inj heq
    obtain ⟨a, ha, hlink⟩ := FileTree.find_cons_eq_some.mp hq
    obtain rfl : wd = a := Option.some.inj (hfind.symm.trans ha)
    rcases (hs.settled dir wd hroot hfind).directory (s.tree.directory_of_entry hlink) with
      hright | hcovered
    · -- The watcher has the path right.
      have hhandle : s' = handleChild { s with buffer := buffer } what (kind = .directory)
          (m :: dir) := by
        rw [hs', handleEvent]
        simp only [hright.2, if_neg (s.tree.name_of_entry hlink)]
      rcases handleChild_of_announces { s with buffer := buffer } (m :: dir) hann with
        ⟨rfl, hadding⟩ | ⟨rfl, htold⟩
      · rw [← hhandle] at hadding
        exact .inl (.inr ⟨hext.root ▸ hroot.trans (List.suffix_cons m dir), _, hadding, rfl, rfl⟩)
      · rw [← hhandle] at htold
        exact .inr (.inr ⟨rfl, htold⟩)
    · exact .inr (.inl (covered_of_event hframes hbuffer hext.root hext.tree hext.unread hfind
        hcovered))

/-- The watch of a removed inode is forgotten. Kind: L -/
theorem Sound.read_ignored {wd : ℕ} (hs : s.Sound)
    (hbuffer : s.buffer = .ignored wd :: buffer) :
    Sound { s with
      buffer := buffer
      watches := s.watches.erase wd } := by
  have hsub : ∀ e ∈ buffer ++ s.queue, e ∈ s.unread := by
    intro e he
    rw [unread, hbuffer]
    exact List.mem_cons_of_mem _ he
  have hgone := hs.gone wd (by
    rw [unread, hbuffer]
    exact List.mem_cons_self)
  have htodo : ∀ {kind q}, s.Todo kind q → Todo { s with
      buffer := buffer
      watches := s.watches.erase wd } kind q := by
    intro kind q htodo
    rcases htodo with ⟨n, dir, d, what, rfl, hdir, hfind, hmem, hann⟩ | hframe
    · rw [unread, hbuffer, List.cons_append] at hmem
      rcases List.mem_cons.mp hmem with heq | hrest
      · exact KernelEvent.noConfusion heq
      · exact .inl ⟨n, dir, d, what, rfl, hdir, hfind, hrest, hann⟩
    · exact .inr hframe
  refine hs.of_watcher rfl rfl hsub rfl id hs.reporting fun p i hp hfind hsettled => ?_
  refine ⟨fun hdir => ?_, fun hreg hch => ?_⟩
  · rcases hsettled.directory hdir with hright | hcovered
    · have hne : wd ≠ i := by
        rintro rfl
        exact FileTree.not_loose_of_find hfind hgone.2.1 hgone.2.2
      exact .inl ⟨hright.1, (getElem?_erase_ne s.watches hne).trans hright.2⟩
    · exact .inr (hcovered.imp fun _ _ => htodo)
  · rcases hsettled.regular hreg hch with hdone | hdue | hcovered
    · exact .inl hdone
    · exact .inr (.inl (htodo hdue))
    · exact .inr (.inr (hcovered.imp fun _ _ => htodo))

/-- **Reading an event of an entry leaves all settled.** Kind: P -/
theorem Sound.read_child {wd : ℕ} {what : WatchKind} {isDir : Bool} (hs : s.Sound)
    (hframes : s.frames = []) (hbuffer : s.buffer = .child wd what isDir m :: buffer)
    (hs' : s' = handleEvent { s with buffer := buffer } (.child wd what isDir m)) : s'.Sound := by
  have hext : Extends { s with buffer := buffer } s' true := hs' ▸ extends_handleEvent wd what isDir m
  have hcovered : ∀ {p i}, s.tree.find p = some i → s.Covered p → s'.Covered p := by
    rintro p i hfind ⟨t, ht, htodo⟩
    obtain ⟨j, hj⟩ := Trees.exists_resolve_of_suffix hfind ht
    rcases todo_of_event hs hframes hbuffer hs' hj htodo with hkeep | habove | ⟨hreg, -⟩
    · exact ⟨t, ht, hkeep⟩
    · exact habove.of_suffix ((List.tail_suffix t).trans ht)
    · exact NodeKind.noConfusion hreg
  refine hs.of_watcher hext.root hext.tree (fun e he => ?_) hext.changed
    (fun h => hext.started.trans h) (fun _ f hf => ?_) fun p i _ hfind hsettled => ?_
  · rw [hext.unread] at he
    rw [unread, hbuffer]
    exact List.mem_cons_of_mem _ he
  · rcases hext.reporting f hf with hold | hreports
    · change f ∈ s.frames at hold
      rw [hframes] at hold
      exact (List.not_mem_nil hold).elim
    · exact hreports
  · have hkinds : s'.tree.kinds = s.tree.kinds := congrArg FileTree.kinds hext.tree
    refine ⟨fun hdir => ?_, fun hreg hch => ?_⟩
    · rw [hkinds] at hdir
      rcases hsettled.directory hdir with hright | hcov
      · refine .inl ?_
        rw [WatchedAs, hext.watched, hext.watches]
        exact hright
      · exact .inr (hcovered hfind hcov)
    · rw [hkinds] at hreg
      rw [hext.changed] at hch
      rcases hsettled.regular hreg hch with hdone | hdue | hcov
      · exact .inl (hext.told p hdone)
      · rcases todo_of_event hs hframes hbuffer hs' hfind hdue with hkeep | habove | ⟨-, htold⟩
        · exact .inr (.inl hkeep)
        · exact .inr (.inr habove)
        · exact .inl htold
      · obtain ⟨j, hj⟩ := Trees.exists_resolve_of_suffix hfind (List.tail_suffix p)
        exact .inr (.inr (hcovered hj hcov))

end read

section frames

/-- What is to be done is beneath the root. Kind: L -/
theorem Todo.root_suffix (h : s.Todo kind q) : s.root <:+ q := by
  rcases h with ⟨n, dir, d, what, rfl, hdir, -⟩ | ⟨hq, -⟩
  · exact hdir.trans (List.suffix_cons n dir)
  · exact hq

variable {frames : List Frame} {report : Bool}

/-- What is to be done without the innermost call, and what that call is to do. Kind: L -/
theorem todo_or_innermost (hframes : s.frames = f :: frames) (hroot : s'.root = s.root)
    (htree : s'.tree = s.tree) (hunread : s'.unread = s.unread)
    (hrest : ∀ g ∈ frames, g ∈ s'.frames) (h : s.Todo kind q) :
    s'.Todo kind q ∨ (s.root <:+ q ∧ frameTodo s.tree kind q f) := by
  rcases h with ⟨n, dir, d, what, rfl, hdir, hfind, hmem, hann⟩ | ⟨hq, g, hg, htodo⟩
  · exact .inl (.inl ⟨n, dir, d, what, rfl, hroot ▸ hdir, htree ▸ hfind, hunread ▸ hmem, hann⟩)
  · rw [hframes] at hg
    rcases List.mem_cons.mp hg with rfl | hg
    · exact .inr ⟨hq, htodo⟩
    · exact .inl (.inr ⟨hroot ▸ hq, g, hrest g hg, htree ▸ htodo⟩)

/-- Where the innermost call had nothing to do at or above a path, all stays to be done there.
Kind: L -/
theorem keeps_innermost (hframes : s.frames = f :: frames) (hroot : s'.root = s.root)
    (htree : s'.tree = s.tree) (hunread : s'.unread = s.unread)
    (hrest : ∀ g ∈ frames, g ∈ s'.frames)
    (hdone : ∀ kind q, q <:+ p → frameTodo s.tree kind q f →
      ∃ g ∈ s'.frames, frameTodo s.tree kind q g) : Keeps s s' p where
  root := hroot
  find _ _ := by rw [htree]
  unread _ he := hunread ▸ he
  frames g hg kind q hq htodo := by
    rw [htree]
    rw [hframes] at hg
    rcases List.mem_cons.mp hg with rfl | hg
    · exact hdone kind q hq htodo
    · exact ⟨g, hrest g hg, htodo⟩

/-- What is left of the calls reports as it did. Kind: L -/
theorem Sound.reporting_tail (hs : s.Sound) (hframes : s.frames = f :: frames)
    (hst : s.started = true) : reports f = true ∧ ∀ g ∈ frames, reports g = true := by
  have hreporting := hs.reporting hst
  rw [hframes] at hreporting
  exact ⟨hreporting f List.mem_cons_self, fun g hg => hreporting g (List.mem_cons_of_mem _ hg)⟩

/-- **A call watches its directory**: it is watched under its path, and everything right beneath it
is to be come to. Kind: P -/
theorem Sound.addWatch (hs : s.Sound) (hframes : s.frames = .adding dir report :: frames)
    (hfind : s.tree.find dir = some i) :
    Sound { s with
      watched := s.watched.insert i
      watches := s.watches.insert i dir
      frames := .opening dir report :: frames } := by
  refine hs.of_watcher rfl rfl (fun _ => id) rfl id (fun hst g hg => ?_)
    fun p j hp hj hsettled => ?_
  · obtain ⟨hreports, hreporting⟩ := hs.reporting_tail hframes hst
    rcases List.mem_cons.mp hg with rfl | hg
    · exact hreports
    · exact hreporting g hg
  · let s' : WatchedTree := { s with
      watched := s.watched.insert i
      watches := s.watches.insert i dir
      frames := .opening dir report :: frames }
    have htodo : ∀ {kind q}, s.Todo kind q →
        s'.Todo kind q ∨ (s.root <:+ q ∧ kind = .directory ∧ q = dir) := fun h =>
      todo_or_innermost hframes rfl rfl rfl (fun _ => List.mem_cons_of_mem _) h
    have hopening : ∀ {kind n}, s.root <:+ n :: dir → s'.Todo kind (n :: dir) := fun hroot =>
      .inr ⟨hroot, _, List.mem_cons_self, _, rfl⟩
    -- What was to be done at `dir` is done there, and is to be done right beneath it.
    have hexpand : ∀ {t}, s.Covered t → t = dir ∨ s'.Covered t := fun hcovered =>
      hcovered.expand
        (fun q _ hne h => (htodo h).resolve_right fun hdone => hne hdone.2.2)
        (fun h n _ => hopening (h.root_suffix.trans (List.suffix_cons n dir)))
    refine ⟨fun hdir => ?_, fun hreg hch => ?_⟩
    · rcases hsettled.directory hdir with hright | hcovered
      · refine .inl ⟨(mem_insert_iff _ _ _).mpr (.inr hright.1), ?_⟩
        show (s.watches.insert i dir)[j]? = some p
        rw [getElem?_insert_eq]
        by_cases hij : i = j
        · subst hij
          rw [if_pos rfl, FileTree.find_inj hfind hj]
        · rw [if_neg hij]
          exact hright.2
      · rcases hexpand hcovered with rfl | hcovered
        · obtain rfl : i = j := Option.some.inj (hfind.symm.trans hj)
          exact .inl ⟨(mem_insert_iff _ _ _).mpr (.inl rfl), getElem?_insert_same _ _ _⟩
        · exact .inr hcovered
    · rcases hsettled.regular hreg hch with hdone | hdue | hcovered
      · exact .inl hdone
      · rcases htodo hdue with hkeep | ⟨-, hdir, -⟩
        · exact .inr (.inl hkeep)
        · exact NodeKind.noConfusion hdir
      · rcases hexpand hcovered with htail | hcovered
        · cases p with
          | nil =>
              obtain rfl : 0 = j := Option.some.inj hj
              exact NodeKind.noConfusion (Option.some.inj (hreg.symm.trans s.tree.root_directory))
          | cons n p =>
              rw [List.tail_cons] at htail
              subst htail
              exact .inr (.inl (hopening hp))
        · exact .inr (.inr hcovered)

/-- A call that has nothing more to do ends, or goes on. Kind: L -/
theorem Sound.replace (more : List Frame) (hs : s.Sound) (hframes : s.frames = f :: frames)
    (hreports : ∀ g ∈ more, reports g = reports f)
    (hdone : ∀ p i, s.tree.find p = some i → ∀ kind q, q <:+ p → frameTodo s.tree kind q f →
      ∃ g ∈ more, frameTodo s.tree kind q g) : Sound { s with frames := more ++ frames } := by
  refine hs.of_watcher rfl rfl (fun _ => id) rfl id (fun hst g hg => ?_)
    fun p i _ hfind hsettled => ?_
  · obtain ⟨hf, hrest⟩ := hs.reporting_tail hframes hst
    rcases List.mem_append.mp hg with hg | hg
    · exact (hreports g hg).trans hf
    · exact hrest g hg
  · have hkeeps : Keeps s { s with frames := more ++ frames } p := by
      refine keeps_innermost hframes rfl rfl rfl (fun g hg => List.mem_append_right more hg) ?_
      intro kind q hq htodo
      obtain ⟨g, hg, hg'⟩ := hdone p i hfind kind q hq htodo
      exact ⟨g, List.mem_append_left frames hg, hg'⟩
    exact hsettled.keep hkeeps rfl id id id

/-- A call whose directory is gone has nothing to do. Kind: L -/
theorem Sound.addWatch_fails (hs : s.Sound) (hframes : s.frames = .adding dir report :: frames)
    (hfind : s.tree.find dir = none) : Sound { s with frames := frames } := by
  refine Sound.replace [] hs hframes (fun _ hg => (List.not_mem_nil hg).elim) ?_
  rintro p i hp kind q hq ⟨-, rfl⟩
  obtain ⟨j, hj⟩ := Trees.exists_resolve_of_suffix hp hq
  exact (Option.some_ne_none j (hj.symm.trans hfind)).elim

/-- A directory is opened: the listing is to come to every name in it. Kind: L -/
theorem Sound.openDir (hs : s.Sound) (hframes : s.frames = .opening dir report :: frames)
    (hfind : s.tree.find dir = some i) :
    Sound { s with frames := .listing dir i (s.tree.names i) report :: frames } := by
  refine Sound.replace [.listing dir i (s.tree.names i) report] hs hframes
    (fun g hg => List.mem_singleton.mp hg ▸ rfl) ?_
  rintro p j hp kind q hq ⟨n, rfl⟩
  obtain ⟨d, k, hd, hlink⟩ := Trees.exists_child_of_suffix hp hq
  obtain rfl : i = d := Option.some.inj (hfind.symm.trans hd)
  exact ⟨_, List.mem_singleton_self _, n, rfl, hfind, FileTree.mem_names.mpr ⟨k, hlink⟩⟩

/-- What cannot be opened has nothing in it. Kind: L -/
theorem Sound.openDir_fails (hs : s.Sound) (hframes : s.frames = .opening dir report :: frames)
    (hkind : ∀ i, s.tree.find dir = some i → s.tree.kinds[i]? ≠ some .directory) :
    Sound { s with frames := frames } := by
  refine Sound.replace [] hs hframes (fun _ hg => (List.not_mem_nil hg).elim) ?_
  rintro p j hp kind q hq ⟨n, rfl⟩
  obtain ⟨d, hd, hdir⟩ := FileTree.directory_of_suffix hp hq
  exact (hkind d hd hdir).elim

/-- A listing that came to every name has nothing more to do. Kind: L -/
theorem Sound.leave (hs : s.Sound) (hframes : s.frames = .listing dir i [] report :: frames) :
    Sound { s with frames := frames } := by
  refine Sound.replace [] hs hframes (fun _ hg => (List.not_mem_nil hg).elim) ?_
  rintro _ _ - _ _ - ⟨n, -, -, hn⟩
  exact (List.not_mem_nil hn).elim

/-- **A listing comes to a name**: it goes into a directory, and passes a file to `Notify`.
Kind: P -/
theorem Sound.entry {left : List Str} {found : Option NodeKind} (hs : s.Sound)
    (hframes : s.frames = .listing dir d left report :: frames)
    (hfound : n ∈ left → s.tree.find dir = some d → found = s.tree.kindAt (n :: dir))
    (hs' : s' = listEntry { s with
      frames := .listing dir d (left.filter (· ≠ n)) report :: frames } (n :: dir) report found) :
    s'.Sound := by
  have hext : Extends { s with
      frames := .listing dir d (left.filter (· ≠ n)) report :: frames } s' report :=
    hs' ▸ extends_listEntry found
  have hrest : ∀ g ∈ frames, g ∈ s'.frames := fun g hg =>
    hext.frames g (List.mem_cons_of_mem _ hg)
  -- Everything but the name it came to is still to be done.
  have htodo : ∀ {kind q}, s.Todo kind q → s'.Todo kind q ∨
      (q = n :: dir ∧ found = s.tree.kindAt q ∧ s.root <:+ q) := by
    intro kind q h
    rcases todo_or_innermost hframes hext.root hext.tree hext.unread hrest h with
      hkeep | ⟨hq, m, rfl, hfind, hm⟩
    · exact .inl hkeep
    · by_cases hmn : m = n
      · subst hmn
        exact .inr ⟨rfl, hfound hm hfind, hq⟩
      · have hmem : m ∈ left.filter (· ≠ n) := List.mem_filter.mpr ⟨hm, decide_eq_true hmn⟩
        exact .inl (.inr ⟨hext.root ▸ hq, _, hext.frames _ List.mem_cons_self, m, rfl,
          hext.tree ▸ hfind, hmem⟩)
  -- The name it came to, if it is a directory's, is the next call's.
  have hcovered : ∀ {p}, s.tree.kindAt p = some .directory → s.Covered p → s'.Covered p := by
    intro p hp hcovered
    refine hcovered.imp fun q hq h => ?_
    rcases htodo h with hkeep | ⟨rfl, hkind, hroot⟩
    · exact hkeep
    · rw [FileTree.kindAt_of_suffix hp hq] at hkind
      subst hkind
      have hadding : .adding (n :: dir) report ∈ s'.frames := hs' ▸ List.mem_cons_self
      exact .inr ⟨hext.root ▸ hroot, _, hadding, rfl, rfl⟩
  refine hs.of_watcher hext.root hext.tree (fun e he => hext.unread ▸ he) hext.changed
    (fun h => hext.started.trans h) (fun hst g hg => ?_) fun p i hp hfind hsettled => ?_
  · obtain ⟨hreports, hreporting⟩ := hs.reporting_tail hframes (hext.started ▸ hst)
    rcases hext.reporting g hg with hold | hnew
    · rcases List.mem_cons.mp hold with rfl | hold
      · exact hreports
      · exact hreporting g hold
    · exact hnew.trans hreports
  · have hkinds : s'.tree.kinds = s.tree.kinds := congrArg FileTree.kinds hext.tree
    refine ⟨fun hdir => ?_, fun hreg hch => ?_⟩
    · rw [hkinds] at hdir
      rcases hsettled.directory hdir with hright | hcov
      · refine .inl ?_
        rw [WatchedAs, hext.watched, hext.watches]
        exact hright
      · exact .inr (hcovered (Option.bind_eq_some_iff.mpr ⟨i, hfind, hdir⟩) hcov)
    · rw [hkinds] at hreg
      rw [hext.changed] at hch
      have hkind : s.tree.kindAt p = some .regular := Option.bind_eq_some_iff.mpr ⟨i, hfind, hreg⟩
      rcases hsettled.regular hreg hch with hdone | hdue | hcov
      · exact .inl (hext.told p hdone)
      · rcases htodo hdue with hkeep | ⟨rfl, hfile, -⟩
        · exact .inr (.inl hkeep)
        · obtain ⟨rfl, -⟩ := hs.reporting_tail hframes (hs.calm _ hch)
          obtain rfl := hfile.trans hkind
          exact .inl (hs' ▸ told_notify FileChange.noConfusion)
      · cases p with
        | nil => exact .inr (.inr (hcovered (FileTree.kindAt_of_suffix hs.rooted
            (List.nil_suffix)) hcov))
        | cons m p =>
            obtain ⟨a, ha, hdir⟩ := FileTree.directory_of_suffix hfind List.suffix_rfl
            exact .inr (.inr (hcovered (Option.bind_eq_some_iff.mpr ⟨a, ha, hdir⟩) hcov))

end frames

/-! ## Runs -/

/-- What has neither events nor calls more or less is as settled as before. Kind: L -/
theorem Sound.of_eq (hs : s.Sound) (hroot : s'.root = s.root) (htree : s'.tree = s.tree)
    (hunread : s'.unread = s.unread) (hframes : s'.frames = s.frames)
    (hwatched : s'.watched = s.watched) (hwatches : s'.watches = s.watches)
    (hstarted : s'.started = s.started) (hchanged : s'.changed = s.changed)
    (htold : s'.told = s.told) : s'.Sound :=
  hs.of_grow hroot htree (fun _ he => hunread ▸ he) (fun _ he => .inl (hunread ▸ he)) hframes
    hwatched hwatches hstarted hchanged htold

/-- When `Start` returns, no file has changed since. Kind: L -/
theorem Sound.startReturns (hs : s.Sound) (hframes : s.frames = []) :
    Sound { s with started := true } where
  rooted := hs.rooted
  settled p i hp hfind := (hs.settled p i hp hfind).keep
    (.of_tree_eq rfl rfl (fun _ => id) fun _ => id) rfl id id id
  gone := hs.gone
  reporting _ f hf := by
    change f ∈ s.frames at hf
    rw [hframes] at hf
    exact (List.not_mem_nil hf).elim
  calm _ _ := rfl

/-- **Every step leaves all settled.** Kind: P -/
theorem sound_of_step (ev : Event) (hs : s.Sound) (h : step s ev = some s') : s'.Sound := by
  cases ev with
  | make kind path =>
      simp only [step] at h
      split at h
      · rename_i d n hspot
        split at h
        · rename_i hfree
          exact Option.some.inj h ▸ hs.make hspot hfree
        · exact (Option.some_ne_none _ h.symm).elim
      · exact (Option.some_ne_none _ h.symm).elim
  | delete path =>
      simp only [step] at h
      split at h
      · rename_i d n hspot
        split at h
        · split at h
          · rename_i hguard
            exact Option.some.inj h ▸ hs.delete hspot hguard.2 _
          · exact (Option.some_ne_none _ h.symm).elim
        · exact (Option.some_ne_none _ h.symm).elim
      · exact (Option.some_ne_none _ h.symm).elim
  | close path =>
      simp only [step] at h
      split at h
      · rename_i d n i hspot hfind
        split at h
        · rename_i hkind
          have hclosed := hs.close hspot (Option.bind_eq_some_iff.mpr ⟨i, hfind, hkind⟩)
          exact Option.some.inj h ▸ hclosed.emit i .closeWrite false []
        · exact (Option.some_ne_none _ h.symm).elim
      · exact (Option.some_ne_none _ h.symm).elim
  | closeRemoved d n => exact Option.some.inj h ▸ hs.emit d .closeWrite false n
  | rename old new =>
      simp only [step] at h
      split at h
      · rename_i d n d' n' hold hnew
        split at h
        · rename_i i hlink
          split at h
          · rename_i hren
            exact Option.some.inj h ▸ hs.rename hold hnew hlink hren
          · exact (Option.some_ne_none _ h.symm).elim
        · exact (Option.some_ne_none _ h.symm).elim
      · exact (Option.some_ne_none _ h.symm).elim
  | evict i =>
      simp only [step] at h
      split at h
      · rename_i hguard
        obtain ⟨-, hlt, hne, hentries⟩ := hguard
        refine Option.some.inj h ▸ hs.evict hlt hne fun d n hlink => ?_
        exact hentries ((d, n), i) (Std.ExtTreeMap.mem_toList_iff_getElem?_eq_some.mpr hlink) rfl
      · exact (Option.some_ne_none _ h.symm).elim
  | poll count =>
      simp only [step] at h
      split at h
      · rename_i hguard
        have hbuffer : s.buffer = [] := List.isEmpty_iff.mp hguard.2.2
        refine Option.some.inj h ▸ hs.of_eq rfl rfl ?_ rfl rfl rfl rfl rfl rfl
        rw [unread, unread, hbuffer]
        exact List.take_append_drop count s.queue
      · exact (Option.some_ne_none _ h.symm).elim
  | read =>
      simp only [step] at h
      split at h
      · rename_i e buffer hframes hbuffer
        cases e with
        | ignored wd => exact Option.some.inj h ▸ hs.read_ignored hbuffer
        | child wd what isDir m =>
            exact hs.read_child hframes hbuffer (Option.some.inj h).symm
      · exact (Option.some_ne_none _ h.symm).elim
  | addWatch =>
      simp only [step] at h
      split at h
      · rename_i dir report frames hframes
        split at h
        · rename_i i hfind
          exact Option.some.inj h ▸ hs.addWatch hframes hfind
        · rename_i hfind
          exact Option.some.inj h ▸ hs.addWatch_fails hframes hfind
      · exact (Option.some_ne_none _ h.symm).elim
  | openDir =>
      simp only [step] at h
      split at h
      · rename_i dir report frames hframes
        split at h
        · rename_i i hfind
          split at h
          · exact Option.some.inj h ▸ hs.openDir hframes hfind
          · rename_i hkind
            refine Option.some.inj h ▸ hs.openDir_fails hframes fun j hj => ?_
            exact Option.some.inj (hfind.symm.trans hj) ▸ hkind
        · rename_i hfind
          refine Option.some.inj h ▸ hs.openDir_fails hframes fun j hj => ?_
          exact (Option.some_ne_none j (hj.symm.trans hfind)).elim
      · exact (Option.some_ne_none _ h.symm).elim
  | entry name found =>
      simp only [step] at h
      split at h
      · rename_i dir d left report frames hframes
        split at h
        · rename_i hfound
          exact hs.entry hframes hfound (Option.some.inj h).symm
        · exact (Option.some_ne_none _ h.symm).elim
      · exact (Option.some_ne_none _ h.symm).elim
  | leave =>
      simp only [step] at h
      split at h
      · rename_i dir d report frames hframes
        exact Option.some.inj h ▸ hs.leave hframes
      · exact (Option.some_ne_none _ h.symm).elim
  | startReturns =>
      simp only [step] at h
      split at h
      · rename_i hguard
        exact Option.some.inj h ▸ hs.startReturns (List.isEmpty_iff.mp hguard.1)
      · exact (Option.some_ne_none _ h.symm).elim
  | flush =>
      simp only [step] at h
      split at h
      · exact Option.some.inj h ▸ hs.of_eq rfl rfl rfl rfl rfl rfl rfl rfl rfl
      · exact (Option.some_ne_none _ h.symm).elim

/-- When `Start` is called, the first call is to come to the root. Kind: L -/
theorem sound_atStart {root : AbsPath} {tree : FileTree}
    (hroot : tree.kindAt root = some .directory) : (atStart root tree).Sound where
  rooted := hroot
  settled _ _ hp _ :=
    ⟨fun _ => .inr ⟨root, hp, .inr ⟨List.suffix_rfl, _, List.mem_singleton_self _, rfl, rfl⟩⟩,
      fun _ hch => (Bool.false_ne_true hch).elim⟩
  gone _ hi := (List.not_mem_nil hi).elim
  reporting hst := (Bool.false_ne_true hst).elim
  calm _ hch := (Bool.false_ne_true hch).elim

/-- **The invariant**: in every run all beneath the root is settled. Kind: P -/
theorem sound_of_run {root : AbsPath} {tree : FileTree} {es : List Event}
    (hroot : tree.kindAt root = some .directory)
    (hrun : Runs.run step (atStart root tree) es = some s) : s.Sound :=
  Runs.invariant_of_run step (fun _ ev _ hs h => sound_of_step ev hs h) (sound_atStart hroot) hrun

/-- The root stays the root. Kind: L -/
theorem root_of_step (ev : Event) (h : step s ev = some s') : s'.root = s.root := by
  cases ev with
  | read =>
      simp only [step] at h
      split at h
      · rename_i e buffer hframes hbuffer
        obtain rfl := Option.some.inj h
        cases e with
        | ignored wd => rfl
        | child wd what isDir m =>
            exact (extends_handleEvent (s := { s with buffer := buffer }) wd what isDir m).root
      · exact (Option.some_ne_none _ h.symm).elim
  | entry name found =>
      simp only [step] at h
      split at h
      · rename_i dir d left report frames hframes
        split at h
        · obtain rfl := Option.some.inj h
          exact (extends_listEntry found).root
        · exact (Option.some_ne_none _ h.symm).elim
      · exact (Option.some_ne_none _ h.symm).elim
  | _ =>
      simp only [step] at h
      repeat' split at h
      all_goals first
        | exact (Option.some_ne_none _ h.symm).elim
        | exact Option.some.inj h ▸ rfl

/-- The root of a run. Kind: L -/
theorem root_of_run {root : AbsPath} {tree : FileTree} {es : List Event}
    (hrun : Runs.run step (atStart root tree) es = some s) : s.root = root :=
  Runs.invariant_of_run step (I := fun s => s.root = root)
    (fun _ ev _ hroot h => (root_of_step ev h).trans hroot) rfl hrun

/-- When all events have been handled, nothing is to be done. Kind: L -/
theorem not_todo_of_handled (h : s.handled = true) : ¬ s.Todo kind q := by
  simp only [handled, Bool.and_eq_true, List.isEmpty_iff] at h
  obtain ⟨⟨hframes, hbuffer⟩, hqueue⟩ := h
  rintro (⟨n, dir, d, what, -, -, -, hmem, -⟩ | ⟨-, f, hf, -⟩)
  · rw [unread, hbuffer, hqueue] at hmem
    exact List.not_mem_nil hmem
  · rw [hframes] at hf
    exact List.not_mem_nil hf

/-- **Every directory is watched, and no change is missed.** From any tree, with the watcher's steps
and any changes of the tree in any order: whenever all events have been handled, every directory at
or beneath the root is watched, and `m_watches` has its current path; and every file there that was
closed after writing or moved since `Start` returned was passed to `Notify` since, under its current
path. Kind: P -/
theorem watched_of_handled {root : AbsPath} {tree : FileTree} {es : List Event}
    (hroot : tree.kindAt root = some .directory)
    (hrun : Runs.run step (atStart root tree) es = some s) (hhandled : s.handled = true) :
    (∀ p i, root <:+ p → s.tree.find p = some i → s.tree.kinds[i]? = some .directory →
      i ∈ s.watched ∧ s.watches[i]? = some p) ∧
    (∀ p, root <:+ p → s.tree.kindAt p = some .regular → s.changed p = true →
      s.told p = true) := by
  have hs := sound_of_run hroot hrun
  rw [← root_of_run hrun]
  refine ⟨fun p i hp hfind hdir => ?_, fun p hp hreg hch => ?_⟩
  · rcases (hs.settled p i hp hfind).directory hdir with hright | ⟨q, -, htodo⟩
    · exact hright
    · exact (not_todo_of_handled hhandled htodo).elim
  · obtain ⟨i, hfind, hkind⟩ := Option.bind_eq_some_iff.mp hreg
    rcases (hs.settled p i hp hfind).regular hkind hch with htold | htodo | ⟨q, -, htodo⟩
    · exact htold
    · exact (not_todo_of_handled hhandled htodo).elim
    · exact (not_todo_of_handled hhandled htodo).elim

/-- A directory `w`, in it a directory `a`, and in that a file `f`. Kind: D -/
def shelf : FileTree :=
  ((Runs.run step (atStart [] .bare)
    [.make .directory [str "w"],
     .make .directory [str "a", str "w"],
     .make .regular [str "f", str "a", str "w"]]).map (·.tree)).getD .bare

/-- While `Start` lists `w`, someone makes `b`. Then `a` is moved into it, and `f` is closed after
writing, before the watcher reads of `b`. Kind: D -/
def moving : List Event :=
  [.addWatch, .openDir, .make .directory [str "b", str "w"], .entry (str "a") (some .directory),
   .addWatch, .openDir, .entry (str "f") (some .regular), .leave, .leave, .startReturns,
   .rename [str "a", str "w"] [str "a", str "b", str "w"],
   .close [str "f", str "a", str "b", str "w"],
   .poll 3, .read, .addWatch, .openDir, .entry (str "a") (some .directory), .addWatch, .openDir,
   .entry (str "f") (some .regular), .leave, .leave, .read, .read]

/-- The watcher has `a` under its new path, though it was told of no more than `b`. Kind: P -/
theorem watched_where_moved : ∃ s, Runs.run step (atStart [str "w"] shelf) moving = some s ∧
    s.watches[2]? = some [str "a", str "b", str "w"] ∧
    s.told [str "f", str "a", str "b", str "w"] = true := by
  have htest : (Runs.run step (atStart [str "w"] shelf) moving).any (fun s =>
      s.handled && decide (s.tree.find [str "a", str "b", str "w"] = some 2) &&
        decide (s.tree.kinds[2]? = some .directory) &&
        decide (s.tree.kindAt [str "f", str "a", str "b", str "w"] = some .regular) &&
        s.changed [str "f", str "a", str "b", str "w"]) = true := by decide +kernel
  obtain ⟨s, hrun, htest⟩ := (Option.any_eq_true _ _).mp htest
  simp only [Bool.and_eq_true, decide_eq_true_eq] at htest
  obtain ⟨⟨⟨⟨hhandled, hfind⟩, hdir⟩, hreg⟩, hch⟩ := htest
  obtain ⟨hdirs, hfiles⟩ := watched_of_handled (by decide +kernel) hrun hhandled
  exact ⟨s, hrun, (hdirs _ 2 (by decide) hfind hdir).2, hfiles _ (by decide) hreg hch⟩

end WatchedTree

end CloudNode
