import CloudNode.Sync.Watching

/-!
# Received files that come back

A received file is not sent back because its record is in `m_receivedPaths` when its change is
delivered. The record is entered when the transfer ends and taken by the first delivery, so a file
is echoed where a delivery comes too early (the listing of a new directory tells of a file that is
still being received), where a further event of the same transfer is read after the delivery, or
where `StartNextIncoming` leaves an event and no record.

* `Reportable` — a change of the path can still be delivered as no removal.
* `Clean` — where deliveries wait for their path, a path that was not edited locally and is
  reportable has a record, or a transfer that will enter one.
* `none_echoed_of_settled` — in such runs no received file is passed to `QueueFileToAll`.
-/

namespace CloudNode

namespace Mirror

/-- No delivered change of a path was passed to `QueueFileToAll` that nothing but transfers has
created or written since the last one: neither of a file that they wrote since, nor one that an
event of theirs makes when it is read later. Kind: D -/
def NoneEchoed (s : Mirror) : Prop :=
  ∀ d ∈ s.deliveries, d.onlyReceived = true → d.passed = false

/-- An event of the path, or of a directory above it that is still to be listed. Kind: D -/
def concerns (p : Location) (e : WatchEvent) : Bool :=
  e.path = p || (e.lists && e.path <:+ p.tail)

/-- A change of a path is delivered only when nothing that concerns it is unread, and, unless it is
a removal or the path was edited locally, when no transfer into it is under way; a transfer that
cannot have its lock or stream comes only to a path that was edited locally, has a record, or is
being received. Kind: D -/
def settled (s : Mirror) : Event → Bool
  | .refused path =>
    path ∈ s.byLocal || path ∈ s.received || s.transfers.any fun t => t.path = path
  | .deliver => s.ready.head?.all fun entry =>
    (s.events.all fun e => !concerns entry.1 e) &&
      (entry.2 = .removed || entry.1 ∈ s.byLocal || s.transfers.all fun t => t.path ≠ entry.1)
  | _ => true

/-! ## What can still be delivered -/

/-- A directory is being listed, or an event that makes the watcher list it is unread. Kind: D -/
def Listing (s : Mirror) (dir : Location) : Prop :=
  dir ∈ s.scan ∨ ∃ e ∈ s.events, e.path = dir ∧ e.lists = true

/-- A change of the path that is no removal is on its way to the callback, pending, or still to be
noted: by an event, or by the listing of a directory above. Kind: D -/
def Reportable (s : Mirror) (p : Location) : Prop :=
  (∃ e ∈ s.events, word p e = some true) ∨
  (∃ change, s.pending[p]? = some change ∧ change ≠ .removed) ∨
  (∃ change, (p, change) ∈ s.ready ∧ change ≠ .removed) ∨
  (p ∈ s.files ∧ ∃ dir, s.Listing dir ∧ dir <:+ p.tail)

/-- The path has a record, or a transfer that will enter one. Kind: D -/
def Covered (s : Mirror) (p : Location) : Prop :=
  p ∈ s.received ∨ ∃ t ∈ s.transfers, t.path = p

/-- What a run keeps whose steps are all `settled`. Kind: D -/
structure Clean (s : Mirror) : Prop where
  rooted : ∀ p ∈ s.files, p.tail ∈ s.dirs
  nested : ∀ dir ∈ s.dirs, dir.tail ∈ s.dirs
  held : ∀ p, s.closing = some p → p ∈ s.received
  flushing : s.ready ≠ [] → s.scan = [] ∧ ∀ p : Location, s.pending[p]? = none
  distinct : (s.ready.map Prod.fst).Nodup
  covered : ∀ p, p ∉ s.byLocal → s.Reportable p → s.Covered p
  silent : s.NoneEchoed

variable {s s' : Mirror} {p q dir : Location} {e : WatchEvent} {es : List WatchEvent}

/-- At first nothing has happened. Kind: L -/
theorem clean_init : Clean {} where
  rooted := by intro p hp; exact (Std.ExtTreeSet.not_mem_empty hp).elim
  nested := by
    intro dir hdir
    obtain rfl | hdir := (mem_insert_iff _ _ _).mp hdir
    · exact (mem_insert_iff _ _ _).mpr (.inl rfl)
    · exact (Std.ExtTreeSet.not_mem_empty hdir).elim
  held := by intro p hp; exact (Option.some_ne_none p hp.symm).elim
  flushing := by intro hready; exact (hready rfl).elim
  distinct := List.nodup_nil
  covered := by
    rintro p - (⟨e, he, -⟩ | ⟨change, hpending, -⟩ | ⟨change, hready, -⟩ | ⟨hp, -⟩)
    · exact (List.not_mem_nil he).elim
    · have hnone : (∅ : Std.ExtTreeMap Location FileChange)[p]? = none :=
        Std.ExtTreeMap.getElem?_empty
      exact (Option.some_ne_none _ (hpending.symm.trans hnone)).elim
    · exact (List.not_mem_nil hready).elim
    · exact (Std.ExtTreeSet.not_mem_empty hp).elim
  silent := by intro d hd; exact (List.not_mem_nil hd).elim

/-- The directories above a directory are there. Kind: L -/
theorem Clean.mem_dirs_of_suffix (h : s.Clean) (hdir : dir ∈ s.dirs) {above : Location}
    (habove : above <:+ dir) : above ∈ s.dirs := by
  induction dir with
  | nil => exact List.suffix_nil.mp habove ▸ hdir
  | cons name dir ih =>
      obtain rfl | habove := List.suffix_cons_iff.mp habove
      · exact hdir
      · exact ih (h.nested _ hdir) habove

/-- What is reportable after an event was before, or the event says so. Kind: L -/
theorem reportable_of_event {events : List WatchEvent} {files : Std.ExtTreeSet Location}
    (h : Reportable { s with events := events, files := files } p)
    (hevents : ∀ e' ∈ events, e' ∈ s.events ∨ e' = e) (hfiles : p ∈ files → p ∈ s.files) :
    s.Reportable p ∨ word p e = some true ∨ (p ∈ s.files ∧ e.lists = true ∧ e.path <:+ p.tail) := by
  obtain ⟨e', he', hword⟩ | hpending | hready | ⟨hp, dir, hlisting, habove⟩ := h
  · obtain he' | rfl := hevents e' he'
    · exact .inl (.inl ⟨e', he', hword⟩)
    · exact .inr (.inl hword)
  · exact .inl (.inr (.inl hpending))
  · exact .inl (.inr (.inr (.inl hready)))
  · obtain hscan | ⟨e', he', rfl, hlists⟩ := hlisting
    · exact .inl (.inr (.inr (.inr ⟨hfiles hp, dir, .inl hscan, habove⟩)))
    · obtain he' | rfl := hevents e' he'
      · exact .inl (.inr (.inr (.inr ⟨hfiles hp, _, .inr ⟨e', he', rfl, hlists⟩, habove⟩)))
      · exact .inr (.inr ⟨hfiles hp, hlists, habove⟩)

/-- What is reportable after an event of another file, or one that says nothing of the path, was so
before. Kind: L -/
theorem reportable_of_file_event {events : List WatchEvent} {files : Std.ExtTreeSet Location}
    (h : Reportable { s with events := events, files := files } p)
    (hevents : ∀ e' ∈ events, e' ∈ s.events ∨ e' = e) (hfiles : p ∈ files → p ∈ s.files)
    (hword : word p e ≠ some true) (hdir : e.isDir = false) : s.Reportable p := by
  obtain hold | hnow | ⟨-, hlists, -⟩ := reportable_of_event h hevents hfiles
  · exact hold
  · exact (hword hnow).elim
  · unfold WatchEvent.lists at hlists
    rw [hdir] at hlists
    exact (Bool.false_ne_true hlists).elim

/-- An event of the kernel's queue is an old one or the new one. Kind: L -/
theorem eq_of_mem_queueEvent {e' : WatchEvent} (h : e' ∈ s.queueEvent e) :
    e' ∈ s.events ∨ e' = e :=
  (mem_queueEvent.mp h).imp_right And.right

/-- Opening another file does not make a path reportable. Kind: L -/
theorem reportable_of_openFile (h : (s.openFile q).Reportable p) (hne : q ≠ p) :
    s.Reportable p := by
  refine reportable_of_file_event (e := ⟨.create, false, q⟩) h (fun e' he' => ?_) (fun hp => ?_) ?_ rfl
  · exact (mem_events_openFile he').imp_right And.right
  · exact ((mem_insert_iff _ _ _).mp hp).resolve_left hne
  · rw [word_of_ne hne]
    exact (Option.some_ne_none true ·.symm)

/-- Closing another file does not make a path reportable. Kind: L -/
theorem reportable_of_emit {kind : WatchKind} (h : (s.emit kind false q).Reportable p)
    (hne : q ≠ p) : s.Reportable p := by
  refine reportable_of_file_event (e := ⟨kind, false, q⟩) h (fun _ => eq_of_mem_queueEvent) id ?_ rfl
  rw [word_of_ne hne]
  exact (Option.some_ne_none true ·.symm)

/-! ## Steps of the directory and of the transfers -/

/-- A file that is opened is placed in a directory. Kind: L -/
theorem placeable_iff : s.placeable q = true ↔ (q ≠ [] ∧ q.tail ∈ s.dirs) ∧ q ∉ s.dirs := by
  unfold placeable
  simp only [Bool.and_eq_true, decide_eq_true_eq]

/-- A new directory keeps the invariant: no file was in it. Kind: L -/
theorem Clean.mkdir (h : s.Clean) (hdir : s.placeable dir = true) :
    (emit { s with dirs := s.dirs.insert dir } .create true dir).Clean := by
  obtain ⟨⟨-, habove⟩, hnew⟩ := placeable_iff.mp hdir
  refine ⟨fun p hp => ?_, fun d hd => ?_, h.held, h.flushing, h.distinct, fun p hp hreport => ?_,
    h.silent⟩
  · exact (mem_insert_iff _ _ _).mpr (.inr (h.rooted p hp))
  · obtain rfl | hd := (mem_insert_iff _ _ _).mp hd
    · exact (mem_insert_iff _ _ _).mpr (.inr habove)
    · exact (mem_insert_iff _ _ _).mpr (.inr (h.nested d hd))
  · change Reportable { s with
        events := s.queueEvent ⟨.create, true, dir⟩
        files := s.files } p at hreport
    obtain hold | hnow | ⟨hfile, -, hbelow⟩ :=
      reportable_of_event hreport (fun _ => eq_of_mem_queueEvent) id
    · exact h.covered p hp hold
    · unfold word at hnow
      rw [if_neg fun hc => Bool.noConfusion hc.2] at hnow
      exact (Option.some_ne_none true hnow.symm).elim
    · exact (hnew (h.mem_dirs_of_suffix (h.rooted p hfile) hbelow)).elim

/-- A closed descriptor keeps the invariant where its path was edited locally or is covered.
Kind: L -/
theorem Clean.closeWrite (h : s.Clean) (hq : q ∉ s.byLocal → s.Covered q) :
    (s.emit .closeWrite false q).Clean := by
  refine ⟨h.rooted, h.nested, h.held, h.flushing, h.distinct, fun p hp hreport => ?_, h.silent⟩
  by_cases hne : q = p
  · subst hne
    exact hq hp
  · exact h.covered p hp (reportable_of_emit hreport hne)

/-- A local write keeps the invariant. Kind: L -/
theorem Clean.localWrite (h : s.Clean) (hq : s.placeable q = true) :
    Clean { (s.openFile q).emit .closeWrite false q with
      localLast := s.localLast.insert q
      byLocal := s.byLocal.insert q } := by
  obtain ⟨⟨-, habove⟩, -⟩ := placeable_iff.mp hq
  refine ⟨fun p hp => ?_, h.nested, h.held, h.flushing, h.distinct, fun p hp hreport => ?_, h.silent⟩
  · obtain rfl | hp := (mem_insert_iff _ _ _).mp hp
    · exact habove
    · exact h.rooted p hp
  · have hboth := not_or.mp (mt (mem_insert_iff _ _ _).mpr hp)
    exact h.covered p hboth.2 (reportable_of_openFile (reportable_of_emit hreport hboth.1) hboth.1)

/-- Opening a file for a transfer keeps the invariant where its path was edited locally or is
covered. Kind: L -/
theorem Clean.openRemotely (h : s.Clean) (hq : s.placeable q = true)
    (hcovered : q ∉ s.byLocal → s.Covered q) : ((s.openFile q).wroteRemotely q).Clean := by
  obtain ⟨⟨-, habove⟩, -⟩ := placeable_iff.mp hq
  refine ⟨fun p hp => ?_, h.nested, h.held, h.flushing, h.distinct, fun p hp hreport => ?_, h.silent⟩
  · obtain rfl | hp := (mem_insert_iff _ _ _).mp hp
    · exact habove
    · exact h.rooted p hp
  · by_cases hne : q = p
    · subst hne
      exact hcovered hp
    · exact h.covered p hp (reportable_of_openFile hreport hne)

/-- A transfer that begins keeps the invariant. Kind: L -/
theorem Clean.begun (h : s.Clean) (hq : s.placeable q = true) :
    Clean { (s.openFile q).wroteRemotely q with transfers := s.transfers ++ [⟨q, true⟩] } := by
  have hnext : Clean { s with transfers := s.transfers ++ [⟨q, true⟩] } := by
    refine ⟨h.rooted, h.nested, h.held, h.flushing, h.distinct, fun p hp hreport => ?_, h.silent⟩
    obtain hrecord | ⟨t, ht, heq⟩ := h.covered p hp hreport
    · exact .inl hrecord
    · exact .inr ⟨t, List.mem_append_left _ ht, heq⟩
  refine hnext.openRemotely hq fun _ => .inr ⟨⟨q, true⟩, ?_, rfl⟩
  exact List.mem_append_right _ (List.mem_singleton_self _)

/-- A deletion keeps the invariant. Kind: L -/
theorem Clean.localDelete (h : s.Clean) :
    (emit { s with
      files := s.files.erase q
      transfers := s.transfers.map fun t : OpenTransfer =>
        if t.path = q then ⟨t.path, false⟩ else t } .delete false q).Clean := by
  refine ⟨fun p hp => h.rooted p ((mem_erase_iff _ _ _).mp hp).2, h.nested, h.held, h.flushing,
    h.distinct, fun p hp hreport => ?_, h.silent⟩
  have hbefore : s.Reportable p := by
    refine reportable_of_file_event (e := ⟨.delete, false, q⟩) hreport
      (fun _ => eq_of_mem_queueEvent) (fun hfile => ((mem_erase_iff _ _ _).mp hfile).2) ?_ rfl
    unfold word
    split
    · exact fun hc => Bool.noConfusion (Option.some.inj hc)
    · exact (Option.some_ne_none true ·.symm)
  obtain hrecord | ⟨t, ht, heq⟩ := h.covered p hp hbefore
  · exact .inl hrecord
  · refine .inr ⟨_, List.mem_map.mpr ⟨t, ht, rfl⟩, ?_⟩
    split
    · exact heq
    · exact heq

/-- A transfer that ends keeps the invariant: it enters the record. Kind: L -/
theorem Clean.finish (h : s.Clean) {i : ℕ} {t : OpenTransfer} (ht : s.transfers[i]? = some t) :
    (emit { s with
      received := s.received.insert t.path
      transfers := s.transfers.eraseIdx i
      closing := some t.path } .closeWrite false t.path).Clean := by
  refine Clean.closeWrite ⟨h.rooted, h.nested, fun p hp => ?_, h.flushing, h.distinct,
    fun p hp hreport => ?_, h.silent⟩ fun _ => .inl ((mem_insert_iff _ _ _).mpr (.inl rfl))
  · exact (mem_insert_iff _ _ _).mpr (.inl (Option.some.inj hp))
  · obtain hrecord | ⟨t', ht', rfl⟩ := h.covered p hp hreport
    · exact .inl ((mem_insert_iff _ _ _).mpr (.inr hrecord))
    · by_cases heq : t.path = t'.path
      · exact .inl ((mem_insert_iff _ _ _).mpr (.inl heq))
      · obtain ⟨j, hj⟩ := List.mem_iff_getElem?.mp ht'
        refine .inr ⟨t', List.mem_eraseIdx_iff_getElem?.mpr ⟨j, ?_, hj⟩, rfl⟩
        rintro rfl
        rw [ht, Option.some.injEq] at hj
        exact heq (congrArg OpenTransfer.path hj)

/-- Releasing the lock keeps the invariant: the record is entered before. Kind: L -/
theorem Clean.release (h : s.Clean) (hq : s.closing = some q) :
    (emit { s with closing := none } .closeWrite false q).Clean := by
  refine Clean.closeWrite ⟨h.rooted, h.nested, fun p hp => ?_, h.flushing, h.distinct, h.covered,
    h.silent⟩ fun _ => .inl (h.held q hq)
  exact (Option.some_ne_none p hp.symm).elim

/-! ## Steps of the watcher -/

/-- A noted change makes its own path reportable only, and only if it is no removal. Kind: L -/
theorem reportable_of_notify {change : FileChange} (h : (s.notify q change).Reportable p) :
    s.Reportable p ∨ (q = p ∧ change ≠ .removed) := by
  obtain hevent | ⟨change', hpending, hchange'⟩ | hready | hlisted := h
  · exact .inl (.inl hevent)
  · change (s.pending.insert q (coalesce s.pending[q]? change))[p]? = some change' at hpending
    by_cases hne : q = p
    · subst hne
      rw [getElem?_insert_same, Option.some.injEq] at hpending
      refine .inr ⟨rfl, ?_⟩
      rintro rfl
      rw [coalesce_removed] at hpending
      exact hchange' hpending.symm
    · rw [getElem?_insert_ne _ _ hne] at hpending
      exact .inl (.inr (.inl ⟨change', hpending, hchange'⟩))
  · exact .inl (.inr (.inr (.inl hready)))
  · exact .inl (.inr (.inr (.inr hlisted)))

/-- A directory that is listed makes the files beneath it reportable. Kind: L -/
theorem reportable_of_addWatchTree (h : (s.addWatchTree dir).Reportable p) :
    s.Reportable p ∨ (p ∈ s.files ∧ dir <:+ p.tail) := by
  obtain hevent | hpending | hready | ⟨hp, above, hlisting, habove⟩ := h
  · exact .inl (.inl hevent)
  · exact .inl (.inr (.inl hpending))
  · exact .inl (.inr (.inr (.inl hready)))
  · obtain hscan | hunread := hlisting
    · obtain rfl | hscan := List.mem_cons.mp hscan
      · exact .inr ⟨hp, habove⟩
      · exact .inl (.inr (.inr (.inr ⟨hp, above, .inl hscan, habove⟩)))
    · exact .inl (.inr (.inr (.inr ⟨hp, above, .inr hunread, habove⟩)))

/-- Reading an event makes nothing reportable. Kind: L -/
theorem reportable_of_read (hevents : s.events = e :: es)
    (h : (handleEvent { s with events := es } e).Reportable p) : s.Reportable p := by
  have hmem {e' : WatchEvent} (he' : e' ∈ es) : e' ∈ s.events :=
    hevents ▸ List.mem_cons_of_mem _ he'
  have hfirst : e ∈ s.events := hevents ▸ List.mem_cons_self ..
  have hrest (h : Reportable { s with events := es } p) : s.Reportable p := by
    obtain ⟨e', he', hword⟩ | hpending | hready | ⟨hp, above, hlisting, habove⟩ := h
    · exact .inl ⟨e', hmem he', hword⟩
    · exact .inr (.inl hpending)
    · exact .inr (.inr (.inl hready))
    · refine .inr (.inr (.inr ⟨hp, above, hlisting.imp_right ?_, habove⟩))
      rintro ⟨e', he', hlists⟩
      exact ⟨e', hmem he', hlists⟩
  rcases handleEvent_cases { s with events := es } e with
    ⟨heq, hlists, -⟩ | ⟨created, heq, -⟩ | ⟨created, change, heq, hword⟩
  · rw [heq] at h
    obtain hold | ⟨hp, habove⟩ := reportable_of_addWatchTree h
    · exact hrest hold
    · exact .inr (.inr (.inr ⟨hp, e.path, .inr ⟨e, hfirst, rfl, hlists⟩, habove⟩))
  · rw [heq] at h
    exact hrest h
  · rw [heq] at h
    obtain hold | ⟨rfl, hchange⟩ := reportable_of_notify h
    · exact hrest hold
    · refine .inl ⟨e, hfirst, ?_⟩
      rw [hword, decide_eq_true hchange]

/-- Reading an event keeps the invariant. Kind: L -/
theorem Clean.read (h : s.Clean) (hevents : s.events = e :: es) (hready : s.ready = []) :
    (handleEvent { s with events := es } e).Clean := by
  have hcovered (p : Location) (hp : p ∉ s.byLocal)
      (hreport : (handleEvent { s with events := es } e).Reportable p) : s.Covered p :=
    h.covered p hp (reportable_of_read hevents hreport)
  rcases handleEvent_cases { s with events := es } e with
    ⟨heq, -, -⟩ | ⟨created, heq, -⟩ | ⟨created, change, heq, -⟩
  · rw [heq] at hcovered ⊢
    exact ⟨h.rooted, h.nested, h.held, fun hc => (hc hready).elim, h.distinct, hcovered, h.silent⟩
  · rw [heq] at hcovered ⊢
    exact ⟨h.rooted, h.nested, h.held, fun hc => (hc hready).elim, h.distinct, hcovered, h.silent⟩
  · rw [heq] at hcovered ⊢
    exact ⟨h.rooted, h.nested, h.held, fun hc => (hc hready).elim, h.distinct, hcovered, h.silent⟩

/-- While a directory is listed there is no flush. Kind: L -/
theorem Clean.ready_of_scan (h : s.Clean) (hscan : s.scan ≠ []) : s.ready = [] := by
  by_contra hready
  exact hscan (h.flushing hready).1

/-- A file of a listing keeps the invariant. Kind: L -/
theorem Clean.report (h : s.Clean) (hscan : s.scan.head? = some q.tail) (hq : q ∈ s.files) :
    (s.notify q .added).Clean := by
  have hmem : q.tail ∈ s.scan := List.mem_of_head? hscan
  have hready : s.ready = [] := h.ready_of_scan (List.ne_nil_of_mem hmem)
  refine ⟨h.rooted, h.nested, h.held, fun hc => (hc hready).elim, h.distinct,
    fun p hp hreport => h.covered p hp ?_, h.silent⟩
  obtain hold | ⟨rfl, -⟩ := reportable_of_notify hreport
  · exact hold
  · exact .inr (.inr (.inr ⟨hq, q.tail, .inl hmem, List.suffix_rfl⟩))

/-- A directory of a listing keeps the invariant. Kind: L -/
theorem Clean.enter (h : s.Clean) (hscan : s.scan.head? = some dir.tail) :
    (s.addWatchTree dir).Clean := by
  have hmem : dir.tail ∈ s.scan := List.mem_of_head? hscan
  have hready : s.ready = [] := h.ready_of_scan (List.ne_nil_of_mem hmem)
  refine ⟨h.rooted, h.nested, h.held, fun hc => (hc hready).elim, h.distinct,
    fun p hp hreport => h.covered p hp ?_, h.silent⟩
  obtain hold | ⟨hfile, habove⟩ := reportable_of_addWatchTree hreport
  · exact hold
  · have habove' : dir.tail <:+ p.tail := (List.tail_suffix dir).trans habove
    exact .inr (.inr (.inr ⟨hfile, dir.tail, .inl hmem, habove'⟩))

/-- The end of a listing keeps the invariant. Kind: L -/
theorem Clean.leave (h : s.Clean) {scan : List Location} (hscan : s.scan = dir :: scan) :
    Clean { s with scan := scan } := by
  have hready : s.ready = [] := h.ready_of_scan (by rw [hscan]; exact List.cons_ne_nil _ _)
  refine ⟨h.rooted, h.nested, h.held, fun hc => (hc hready).elim, h.distinct,
    fun p hp hreport => h.covered p hp ?_, h.silent⟩
  obtain hevent | hpending | hflush | ⟨hfile, above, hlisting, habove⟩ := hreport
  · exact .inl hevent
  · exact .inr (.inl hpending)
  · exact .inr (.inr (.inl hflush))
  · refine .inr (.inr (.inr ⟨hfile, above, hlisting.imp_left fun hmem => ?_, habove⟩))
    rw [hscan]
    exact List.mem_cons_of_mem _ hmem

/-- Taking the pending changes for delivery keeps the invariant. Kind: L -/
theorem Clean.flush (h : s.Clean) (hscan : s.scan = []) : Clean { s with
    pending := ∅
    ready := s.pending.toList } := by
  have hempty (p : Location) : (∅ : Std.ExtTreeMap Location FileChange)[p]? = none :=
    Std.ExtTreeMap.getElem?_empty
  refine ⟨h.rooted, h.nested, h.held, fun _ => ⟨hscan, hempty⟩, ?_,
    fun p hp hreport => h.covered p hp ?_, h.silent⟩
  · show (s.pending.toList.map Prod.fst).Nodup
    rw [Std.ExtTreeMap.map_fst_toList_eq_keys]
    exact Std.ExtTreeMap.nodup_keys
  · obtain hevent | ⟨change, hpending, -⟩ | ⟨change, hready, hchange⟩ | hlisted := hreport
    · exact .inl hevent
    · exact (Option.some_ne_none change (hpending.symm.trans (hempty p))).elim
    · refine .inr (.inl ⟨change, ?_, hchange⟩)
      exact Std.ExtTreeMap.mem_toList_iff_getElem?_eq_some.mp hready
    · exact .inr (.inr (.inr hlisted))

/-! ## Deliveries -/

/-- Nothing more of a path is reportable once a change of it is taken whose path nothing unread
concerns. Kind: L -/
theorem Clean.not_reportable (h : s.Clean) {change : FileChange}
    {ready : List (Location × FileChange)} (hready : s.ready = (q, change) :: ready)
    (hread : ∀ e ∈ s.events, concerns q e = false) :
    ¬ Reportable { s with ready := ready } q := by
  obtain ⟨hscan, hpending⟩ := h.flushing (by rw [hready]; exact List.cons_ne_nil _ _)
  have hother (e : WatchEvent) (he : e ∈ s.events) :
      e.path ≠ q ∧ (e.lists = true → ¬ e.path <:+ q.tail) := by
    have hnot := hread e he
    unfold concerns at hnot
    obtain ⟨hpath, hlists⟩ := Bool.or_eq_false_iff.mp hnot
    refine ⟨of_decide_eq_false hpath, fun hyes => ?_⟩
    rw [hyes, Bool.true_and] at hlists
    exact of_decide_eq_false hlists
  rintro (⟨e, he, hword⟩ | ⟨change', hnow, -⟩ | ⟨change', hmem, -⟩ | ⟨-, above, hlisting, habove⟩)
  · rw [word_of_ne (hother e he).1] at hword
    exact Option.some_ne_none true hword.symm
  · exact Option.some_ne_none change' (hnow.symm.trans (hpending q))
  · have hdistinct := h.distinct
    rw [hready, List.map_cons, List.nodup_cons] at hdistinct
    exact hdistinct.1 (List.mem_map.mpr ⟨_, hmem, rfl⟩)
  · obtain hmem | ⟨e, he, rfl, hlists⟩ := hlisting
    · change above ∈ s.scan at hmem
      rw [hscan] at hmem
      exact List.not_mem_nil hmem
    · exact (hother e he).2 hlists habove

/-- The callback keeps the invariant on a path that nothing unread concerns, into which nothing is
received. Kind: L -/
theorem Clean.deliver (h : s.Clean) {change : FileChange} {ready : List (Location × FileChange)}
    (hready : s.ready = (q, change) :: ready) (hread : ∀ e ∈ s.events, concerns q e = false)
    (hidle : change = .removed ∨ q ∈ s.byLocal ∨ ∀ t ∈ s.transfers, t.path ≠ q)
    (hclosing : s.closing = none) : (Mirror.deliver { s with ready := ready } q change).Clean := by
  have hne : s.ready ≠ [] := by
    rw [hready]
    exact List.cons_ne_nil _ _
  refine ⟨h.rooted, h.nested, fun p hp => ?_, fun _ => h.flushing hne, ?_,
    fun p hp hreport => ?_, fun d hd => ?_⟩
  · change s.closing = some p at hp
    rw [hclosing] at hp
    exact (Option.some_ne_none p hp.symm).elim
  · have hdistinct := h.distinct
    rw [hready, List.map_cons] at hdistinct
    exact hdistinct.of_cons
  · have hpq : q ≠ p := by
      rintro rfl
      exact h.not_reportable hready hread hreport
    have hbefore : s.Reportable p := by
      obtain hevent | hpending | ⟨change', hmem, hchange'⟩ | hlisted := hreport
      · exact .inl hevent
      · exact .inr (.inl hpending)
      · exact .inr (.inr (.inl ⟨change', hready ▸ List.mem_cons_of_mem _ hmem, hchange'⟩))
      · exact .inr (.inr (.inr hlisted))
    have hlocal : p ∉ s.byLocal := fun hc => hp ((mem_erase_iff _ _ _).mpr ⟨hpq, hc⟩)
    refine (h.covered p hlocal hbefore).imp_left fun hrecord => ?_
    show p ∈ (if change = .removed then s.received else s.received.erase q)
    split
    · exact hrecord
    · exact (mem_erase_iff _ _ _).mpr ⟨hpq, hrecord⟩
  · obtain hd | hd := List.mem_append.mp hd
    · exact h.silent d hd
    · obtain rfl := List.mem_singleton.mp hd
      intro honly
      have hlocal : q ∉ s.byLocal := of_decide_eq_true honly
      refine decide_eq_false fun hpassed => ?_
      obtain ⟨hchange, hrecord⟩ := hpassed
      have hreport : s.Reportable q :=
        .inr (.inr (.inl ⟨change, hready ▸ List.mem_cons_self .., hchange⟩))
      obtain hc | ⟨t, ht, hpath⟩ := h.covered q hlocal hreport
      · exact hrecord hc
      · obtain hc | hc | hnone := hidle
        · exact hchange hc
        · exact hlocal hc
        · exact hnone t ht hpath

/-! ## Every step -/

/-- What the condition says of a delivery. Kind: L -/
theorem settled_deliver {change : FileChange} {ready : List (Location × FileChange)}
    (hready : s.ready = (q, change) :: ready) (h : s.settled .deliver = true) :
    (∀ e ∈ s.events, concerns q e = false) ∧
      (change = .removed ∨ q ∈ s.byLocal ∨ ∀ t ∈ s.transfers, t.path ≠ q) := by
  simp only [settled, hready, List.head?_cons, Option.all_some, Bool.and_eq_true, Bool.or_eq_true,
    List.all_eq_true, Bool.not_eq_true', decide_eq_true_eq, or_assoc] at h
  exact h

/-- What the condition says of a refused transfer. Kind: L -/
theorem covered_of_refused (h : s.settled (.refused path) = true) (hlocal : path ∉ s.byLocal) :
    s.Covered path := by
  simp only [settled, Bool.or_eq_true, List.any_eq_true, decide_eq_true_eq] at h
  obtain (hc | hrecord) | htransfer := h
  · exact (hlocal hc).elim
  · exact .inl hrecord
  · exact .inr htransfer

/-- **What a step keeps that is `settled`.** Kind: P -/
theorem clean_step {e : Event} (h : s.Clean) (hsettled : s.settled e = true)
    (hstep : s.step e = some s') : s'.Clean := by
  cases step_cases hstep with
  | channel => exact ⟨h.rooted, h.nested, h.held, h.flushing, h.distinct, h.covered, h.silent⟩
  | mkdir dir hplace => exact h.mkdir hplace
  | localWrite path hplace => exact h.localWrite hplace
  | localDelete path => exact h.localDelete
  | refusedPresent path hplace => exact h.closeWrite (covered_of_refused hsettled)
  | refusedAbsent path hplace =>
      have hcovered := covered_of_refused hsettled
      exact (h.openRemotely hplace hcovered).closeWrite hcovered
  | begun path hplace => exact h.begun hplace
  | chunk i t =>
      split
      · exact ⟨h.rooted, h.nested, h.held, h.flushing, h.distinct, h.covered, h.silent⟩
      · exact h
  | finish i t ht => exact h.finish ht
  | release path hclosing => exact h.release hclosing
  | read e events hevents _ hready => exact h.read hevents hready
  | report path hscan _ hpresent => exact h.report hscan hpresent
  | enter dir hscan => exact h.enter hscan
  | leave dir scan hscan => exact h.leave hscan
  | flush hscan => exact h.flush hscan
  | deliver path change ready hready hclosing =>
      obtain ⟨hread, hidle⟩ := settled_deliver hready hsettled
      exact h.deliver hready hread hidle hclosing

/-- **Received files are not echoed** in every run in which a change is delivered only when nothing
that concerns its path is unread and, unless it is a removal or the path was edited locally, when
nothing is being received into it, and in which a lock or a stream is refused only where the path
was edited locally, has a record, or is being received. Kind: P -/
theorem none_echoed_of_settled (es : List Event)
    (h : Runs.Meets step (fun s e => s.settled e = true) {} es) : Runs.Always step NoneEchoed {} es :=
  (Runs.always_of_meets step (fun _ _ _ hc hs he => clean_step hc hs he) clean_init h).imp step
    fun _ hc => hc.silent

/-- A file `f` of a new directory `d` is received, and its change is delivered. Kind: D -/
def receivedAtOnce : List Event :=
  [.channel (str "b", str "r") true, .mkdir [str "d"], .begun [str "f", str "d"], .chunk 0,
    .finish 0, .release, .read, .report [str "f", str "d"], .leave, .flush, .deliver]

/-- The same, received for longer than the quiet period. Kind: D -/
def receivedSlowly : List Event :=
  [.channel (str "b", str "r") true, .mkdir [str "d"], .begun [str "f", str "d"], .chunk 0,
    .read, .report [str "f", str "d"], .leave, .flush, .deliver]

/-- A file that is received at once is not echoed. Kind: P -/
theorem none_echoed_at_once : Runs.Always step NoneEchoed {} receivedAtOnce ∧
    (Runs.run step {} receivedAtOnce).isSome = true :=
  ⟨none_echoed_of_settled receivedAtOnce (by decide +kernel), by decide +kernel⟩

/-- A file of a new directory that is received for longer is echoed. Kind: P -/
theorem slow_file_echoed : ¬ ∀ es, Runs.Always step NoneEchoed {} es := by
  intro hall
  have hend : (Runs.run step {} receivedSlowly).any (fun s => s.deliveries.any fun d =>
      d.onlyReceived && d.passed) = true := by
    decide +kernel
  obtain ⟨s, htest, hnone⟩ := (hall receivedSlowly).at_end step hend
  obtain ⟨d, hd, hboth⟩ := List.any_eq_true.mp htest
  obtain ⟨honly, hpassed⟩ := Bool.and_eq_true_iff.mp hboth
  have hkept := hnone d hd honly
  rw [hpassed] at hkept
  exact Bool.noConfusion hkept

end Mirror

end CloudNode
