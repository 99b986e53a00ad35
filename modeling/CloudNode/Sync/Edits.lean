import CloudNode.Sync.Watching

/-!
# Local edits and the records of received files

A record in `m_receivedPaths` stands for one change that is still to be delivered, but nothing ties
it to that change. A local edit that comes before the delivery is coalesced with it and swallowed;
and where the received file is deleted before it, the removal leaves the record behind for the next
local file of that name.

* `lastWord` — what the unread events will make of a path.
* `Kept` — where local edits keep apart from records, a path whose latest write is local has no
  record, and the change that is pending for it is no removal once its events are read.
* `edits_sent_of_apart` — in such runs every delivered local edit is queued for every channel.
-/

namespace CloudNode

namespace Mirror

/-- Every delivered change of a file that is there, and whose latest write was local, was queued
for every data channel. Kind: D -/
def AllSent (s : Mirror) : Prop :=
  ∀ d ∈ s.deliveries, d.localLast = true → d.present = true → ∀ key ∈ d.targets, key ∈ d.queued

/-- A local write comes to a path without a record, into which nothing is received; a change of a
path is delivered only when the path's events are read; a channel's peer and room have names.
Kind: D -/
def apart (s : Mirror) : Event → Bool
  | .channel key present => !present || (key.1 ≠ [] ∧ key.2 ≠ [])
  | .localWrite path => path ∉ s.received ∧ s.transfers.all fun t => t.path ≠ path
  | .deliver => s.ready.head?.all fun entry => s.events.all fun e => e.path ≠ entry.1
  | _ => true

/-! ## What the unread events say of a path -/

/-- What the last event that says something of a file says. Kind: D -/
def lastWord (p : Location) : List WatchEvent → Option Bool
  | [] => none
  | e :: es => (lastWord p es).or (word p e)

variable {s s' : Mirror} {p q : Location} {e : WatchEvent} {es : List WatchEvent}

/-- The newest event has the last word. Kind: L -/
theorem lastWord_append (p : Location) (es : List WatchEvent) (e : WatchEvent) :
    lastWord p (es ++ [e]) = (word p e).or (lastWord p es) := by
  induction es with
  | nil =>
      show (none : Option Bool).or (word p e) = (word p e).or none
      rw [Option.none_or, Option.or_none]
  | cons e' es ih =>
      show (lastWord p (es ++ [e])).or (word p e') = (word p e).or ((lastWord p es).or (word p e'))
      rw [ih, Option.or_assoc]

/-- What is said of a path whose events are all read. Kind: L -/
theorem lastWord_eq_none (h : ∀ e ∈ es, e.path ≠ p) : lastWord p es = none := by
  induction es with
  | nil => rfl
  | cons e es ih =>
      have hrest := ih fun e' he' => h e' (List.mem_cons_of_mem e he')
      rw [lastWord, hrest, word_of_ne (h e (List.mem_cons_self ..)), Option.none_or]

/-- An event that has happened has the last word if it is queued. Kind: L -/
theorem lastWord_queueEvent : lastWord p (s.queueEvent e) =
    if e.path.tail ∈ s.watched then (word p e).or (lastWord p s.events)
    else lastWord p s.events := by
  unfold queueEvent
  by_cases hwatched : e.path.tail ∈ s.watched
  · by_cases hlast : s.events.getLast? = some e
    · rw [if_neg fun hc => hc.2 hlast, if_pos hwatched]
      have hevents : s.events.dropLast ++ [e] = s.events :=
        List.dropLast_append_getLast? e hlast
      rw [← hevents, lastWord_append, ← Option.or_assoc, Option.or_self]
    · rw [if_pos ⟨hwatched, hlast⟩, if_pos hwatched, lastWord_append]
  · rw [if_neg fun hc => hwatched hc.1, if_neg hwatched]

/-- An event of another path leaves the last word. Kind: L -/
theorem lastWord_queueEvent_of_none (h : word p e = none) :
    lastWord p (s.queueEvent e) = lastWord p s.events := by
  rw [lastWord_queueEvent, h, Option.none_or, ite_self]

/-! ## What pending changes come to -/

/-- Once a path's events are read, no removal of it is pending or on its way to the callback.
Kind: D -/
def Standing (s : Mirror) (p : Location) : Prop :=
  lastWord p s.events ≠ some false ∧
    (lastWord p s.events = none → s.pending[p]? ≠ some .removed ∧ (p, .removed) ∉ s.ready)

/-- The watcher knows nothing of a path in a directory without a watch. Kind: D -/
def Unseen (s : Mirror) (p : Location) : Prop :=
  lastWord p s.events = none ∧ s.pending[p]? = none ∧ ∀ change, (p, change) ∉ s.ready

/-- Nothing is known of a path in a directory without a watch, after an event. Kind: L -/
theorem unseen_of_event {events : List WatchEvent} (h : s.Unseen p) (hp : p.tail ∉ s.watched)
    (hevents : events = s.queueEvent e ∨ events = s.events) :
    Unseen { s with events := events } p := by
  obtain rfl | rfl := hevents
  · refine ⟨?_, h.2⟩
    show lastWord p (s.queueEvent e) = none
    rw [lastWord_queueEvent]
    split
    · rename_i hwatched
      have hne : e.path ≠ p := by
        rintro rfl
        exact hp hwatched
      rw [word_of_ne hne, Option.none_or]
      exact h.1
    · exact h.1
  · exact h

/-- No removal is pending, after an event that is none. Kind: L -/
theorem standing_of_event {events : List WatchEvent} (h : s.Standing p)
    (hword : word p e ≠ some false) (hevents : events = s.queueEvent e ∨ events = s.events) :
    Standing { s with events := events } p := by
  obtain rfl | rfl := hevents
  · cases hw : word p e with
    | none =>
        show lastWord p (s.queueEvent e) ≠ some false ∧ (lastWord p (s.queueEvent e) = none → _)
        rw [lastWord_queueEvent_of_none hw]
        exact h
    | some b =>
        cases b with
        | false => exact (hword hw).elim
        | true =>
            show lastWord p (s.queueEvent e) ≠ some false ∧ (lastWord p (s.queueEvent e) = none → _)
            rw [lastWord_queueEvent, hw]
            split
            · rw [Option.some_or]
              exact ⟨fun hc => Bool.noConfusion (Option.some.inj hc),
                fun hc => (Option.some_ne_none true hc).elim⟩
            · exact h
  · exact h

/-- What a run keeps whose steps are all `apart`. Kind: D -/
structure Kept (s : Mirror) : Prop where
  named : ∀ key ∈ s.dataChannels, key.1 ≠ [] ∧ key.2 ≠ []
  scanned : ∀ dir ∈ s.scan, dir ∈ s.watched
  unseen : ∀ p : Location, p.tail ∉ s.watched → s.Unseen p
  unrecorded : ∀ p ∈ s.localLast, p ∉ s.received ∧ ∀ t ∈ s.transfers, t.path ≠ p
  standing : ∀ p ∈ s.localLast, p ∈ s.files → s.Standing p
  sent : s.AllSent

/-- At first nothing has happened. Kind: L -/
theorem kept_init : Kept {} where
  named := by intro key hkey; exact (Std.ExtTreeSet.not_mem_empty hkey).elim
  scanned := by intro dir hdir; exact (List.not_mem_nil hdir).elim
  unseen := by
    intro p _
    exact ⟨rfl, Std.ExtTreeMap.getElem?_empty, fun _ hready => (List.not_mem_nil hready).elim⟩
  unrecorded := by intro p hp; exact (Std.ExtTreeSet.not_mem_empty hp).elim
  standing := by intro p hp; exact (Std.ExtTreeSet.not_mem_empty hp).elim
  sent := by intro d hd; exact (List.not_mem_nil hd).elim

/-- Opening a file queues an event or none. Kind: L -/
theorem events_openFile : (s.openFile q).events = s.queueEvent ⟨.create, false, q⟩ ∨
    (s.openFile q).events = s.events := by
  simp only [openFile]
  split
  · exact .inr rfl
  · exact .inl rfl

/-- Opening a file tells nothing of a path in a directory without a watch. Kind: L -/
theorem Unseen.openFile (h : s.Unseen p) (hp : p.tail ∉ s.watched) : (s.openFile q).Unseen p :=
  unseen_of_event h hp events_openFile

/-- An event tells nothing of a path in a directory without a watch. Kind: L -/
theorem Unseen.emit {kind : WatchKind} {isDir : Bool} (h : s.Unseen p) (hp : p.tail ∉ s.watched) :
    (s.emit kind isDir q).Unseen p :=
  unseen_of_event h hp (.inl rfl)

/-- Opening a file takes none away. Kind: L -/
theorem Standing.openFile (h : s.Standing p) : (s.openFile q).Standing p := by
  refine standing_of_event h ?_ events_openFile
  unfold word
  split
  · exact (Option.some_ne_none false ·.symm)
  · exact (Option.some_ne_none false ·.symm)

/-- A closed file is there. Kind: L -/
theorem Standing.closeWrite (h : s.Standing p) : (s.emit .closeWrite false q).Standing p := by
  refine standing_of_event h ?_ (.inl rfl)
  unfold word
  split
  · exact fun hc => Bool.noConfusion (Option.some.inj hc)
  · exact (Option.some_ne_none false ·.symm)

/-- After a local write the file is there, whatever was known of it. Kind: L -/
theorem standing_of_write (hunseen : q.tail ∉ s.watched → s.Unseen q) :
    ((s.openFile q).emit .closeWrite false q).Standing q := by
  have hword : word q ⟨.closeWrite, false, q⟩ = some true := by
    unfold word
    rw [if_pos ⟨rfl, rfl⟩]
  by_cases hq : q.tail ∈ s.watched
  · have hlast : lastWord q ((s.openFile q).queueEvent ⟨.closeWrite, false, q⟩) = some true := by
      rw [lastWord_queueEvent, hword, Option.some_or]
      exact if_pos hq
    refine ⟨?_, fun hnone => ?_⟩
    · show lastWord q ((s.openFile q).queueEvent _) ≠ some false
      rw [hlast]
      exact fun hc => Bool.noConfusion (Option.some.inj hc)
    · change lastWord q ((s.openFile q).queueEvent _) = none at hnone
      rw [hlast] at hnone
      exact (Option.some_ne_none true hnone).elim
  · obtain ⟨hwords, hpending, hready⟩ := ((hunseen hq).openFile hq).emit hq
    refine ⟨?_, fun _ => ⟨?_, hready _⟩⟩
    · rw [hwords]
      exact (Option.some_ne_none false ·.symm)
    · rw [hpending]
      exact (Option.some_ne_none _ ·.symm)

/-! ## Steps of the directory and of the transfers -/

/-- Opening a file and writing it from a transfer keeps the invariant, as long as its path loses
the claim to a local write. Kind: L -/
theorem Kept.openRemotely (h : s.Kept) : ((s.openFile q).wroteRemotely q).Kept := by
  refine ⟨h.named, h.scanned, fun p hp => (h.unseen p hp).openFile hp, fun p hp => ?_,
    fun p hp hfile => ?_, h.sent⟩
  · exact h.unrecorded p ((mem_erase_iff _ _ _).mp hp).2
  · obtain ⟨hne, hp⟩ := (mem_erase_iff _ _ _).mp hp
    have hfile : p ∈ s.files := ((mem_insert_iff _ _ _).mp hfile).resolve_left hne
    exact (h.standing p hp hfile).openFile

/-- A closed descriptor keeps the invariant. Kind: L -/
theorem Kept.closeWrite (h : s.Kept) : (s.emit .closeWrite false q).Kept :=
  ⟨h.named, h.scanned, fun p hp => (h.unseen p hp).emit hp, h.unrecorded,
    fun p hp hfile => (h.standing p hp hfile).closeWrite, h.sent⟩

/-- A local write keeps the invariant if its path has no record and no transfer. Kind: L -/
theorem Kept.localWrite (h : s.Kept) (hrecord : q ∉ s.received)
    (htransfer : ∀ t ∈ s.transfers, t.path ≠ q) :
    Kept { (s.openFile q).emit .closeWrite false q with
      localLast := s.localLast.insert q
      byLocal := s.byLocal.insert q } := by
  refine ⟨h.named, h.scanned, fun p hp => ((h.unseen p hp).openFile hp).emit hp, fun p hp => ?_,
    fun p hp hfile => ?_, h.sent⟩
  · obtain rfl | hp := (mem_insert_iff _ _ _).mp hp
    · exact ⟨hrecord, htransfer⟩
    · exact h.unrecorded p hp
  · by_cases hpq : q = p
    · subst hpq
      exact standing_of_write (h.unseen q)
    · have hp : p ∈ s.localLast := ((mem_insert_iff _ _ _).mp hp).resolve_left hpq
      have hfile : p ∈ s.files := ((mem_insert_iff _ _ _).mp hfile).resolve_left hpq
      exact (h.standing p hp hfile).openFile.closeWrite

/-- A deletion keeps the invariant. Kind: L -/
theorem Kept.localDelete (h : s.Kept) :
    (emit { s with
      files := s.files.erase q
      transfers := s.transfers.map fun t : OpenTransfer =>
        if t.path = q then ⟨t.path, false⟩ else t } .delete false q).Kept := by
  refine ⟨h.named, h.scanned, fun p hp => (h.unseen p hp).emit hp, fun p hp => ⟨?_, ?_⟩,
    fun p hp hfile => ?_, h.sent⟩
  · exact (h.unrecorded p hp).1
  · intro t ht
    obtain ⟨t', ht', rfl⟩ := List.mem_map.mp ht
    have hne := (h.unrecorded p hp).2 t' ht'
    split
    · exact hne
    · exact hne
  · obtain ⟨hne, hfile⟩ := (mem_erase_iff _ _ _).mp hfile
    refine standing_of_event (h.standing p hp hfile) ?_ (.inl rfl)
    rw [word_of_ne hne]
    exact (Option.some_ne_none false ·.symm)

/-- A transfer that ends records its path, whose latest write it was. Kind: L -/
theorem Kept.finish (h : s.Kept) {i : ℕ} {t : OpenTransfer} (ht : s.transfers[i]? = some t) :
    (emit { s with
      received := s.received.insert t.path
      transfers := s.transfers.eraseIdx i
      closing := some t.path } .closeWrite false t.path).Kept := by
  refine Kept.closeWrite ⟨h.named, h.scanned, h.unseen, fun p hp => ?_, h.standing, h.sent⟩
  obtain ⟨hrecord, htransfer⟩ := h.unrecorded p hp
  refine ⟨fun hc => ?_, fun t' ht' => htransfer t' (List.mem_of_mem_eraseIdx ht')⟩
  obtain hc | hc := (mem_insert_iff _ _ _).mp hc
  · exact htransfer t (List.mem_of_getElem? ht) hc
  · exact hrecord hc

/-! ## Steps of the watcher -/

/-- A change that is no removal keeps the invariant. Kind: L -/
theorem Kept.notify (h : s.Kept) (hq : q.tail ∈ s.watched) {change : FileChange}
    (hchange : change ≠ .removed) : (s.notify q change).Kept := by
  have hother {p : Location} (hne : q ≠ p) : (s.notify q change).pending[p]? = s.pending[p]? :=
    getElem?_insert_ne _ _ hne
  refine ⟨h.named, h.scanned, fun p hp => ?_, h.unrecorded, fun p hp hfile => ?_, h.sent⟩
  · obtain ⟨hwords, hpending, hready⟩ := h.unseen p hp
    refine ⟨hwords, ?_, hready⟩
    rw [hother]
    · exact hpending
    · rintro rfl
      exact hp hq
  · obtain ⟨hword, hsettled⟩ := h.standing p hp hfile
    refine ⟨hword, fun hnone => ⟨?_, (hsettled hnone).2⟩⟩
    by_cases hne : q = p
    · subst hne
      show (s.pending.insert q (coalesce s.pending[q]? change))[q]? ≠ _
      rw [getElem?_insert_same]
      exact fun hc => coalesce_ne_removed hchange _ (Option.some.inj hc)
    · rw [hother hne]
      exact (hsettled hnone).1

/-- What the unread events say once one of them is read. Kind: L -/
theorem lastWord_tail (h : lastWord p (e :: es) ≠ some false) : lastWord p es ≠ some false := by
  intro hc
  rw [lastWord, hc] at h
  exact h rfl

/-- Reading an event keeps the invariant. Kind: L -/
theorem Kept.read (h : s.Kept) (hevents : s.events = e :: es) (hscan : s.scan = [])
    (hready : s.ready = []) : (handleEvent { s with events := es } e).Kept := by
  have hunseen (p : Location) (hp : p.tail ∉ s.watched) :
      word p e = none ∧ Unseen { s with events := es } p := by
    obtain ⟨hwords, hpending, hflush⟩ := h.unseen p hp
    rw [hevents, lastWord, Option.or_eq_none_iff] at hwords
    exact ⟨hwords.2, hwords.1, hpending, hflush⟩
  -- A path of which the event says nothing keeps its standing.
  have hkeeps (p : Location) (hp : p ∈ s.localLast) (hfile : p ∈ s.files) (hword : word p e = none) :
      Standing { s with events := es } p := by
    obtain ⟨hlast, hsettled⟩ := h.standing p hp hfile
    rw [hevents] at hlast hsettled
    refine ⟨lastWord_tail hlast, fun hnone => hsettled ?_⟩
    rw [lastWord, hnone, hword, Option.none_or]
  rcases handleEvent_cases { s with events := es } e with
    ⟨heq, -, hnothing⟩ | ⟨created, heq, hnothing⟩ | ⟨created, change, heq, hword⟩
  · rw [heq]
    refine ⟨h.named, fun dir hdir => ?_, fun p hp => ?_, h.unrecorded, fun p hp hfile => ?_, h.sent⟩
    · rw [addWatchTree, hscan, List.mem_singleton] at hdir
      exact (mem_insert_iff _ _ _).mpr (.inl hdir.symm)
    · exact (hunseen p fun hc => hp ((mem_insert_iff _ _ _).mpr (.inr hc))).2
    · exact hkeeps p hp hfile (hnothing p)
  · rw [heq]
    exact ⟨h.named, h.scanned, fun p hp => (hunseen p hp).2, h.unrecorded,
      fun p hp hfile => hkeeps p hp hfile (hnothing p), h.sent⟩
  · rw [heq]
    have hother {p : Location} (hne : e.path ≠ p) :
        (s.pending.insert e.path (coalesce s.pending[e.path]? change))[p]? = s.pending[p]? :=
      getElem?_insert_ne _ _ hne
    refine ⟨h.named, h.scanned, fun p hp => ?_, h.unrecorded, fun p hp hfile => ?_, h.sent⟩
    · obtain ⟨hnone, hwords, hpending, hflush⟩ := hunseen p hp
      refine ⟨hwords, ?_, hflush⟩
      have hne : e.path ≠ p := by
        rintro rfl
        rw [hword] at hnone
        exact Option.some_ne_none _ hnone
      exact (hother hne).trans hpending
    · by_cases hne : e.path = p
      · subst hne
        obtain ⟨hlast, -⟩ := h.standing _ hp hfile
        rw [hevents] at hlast
        refine ⟨lastWord_tail hlast, fun hnone => ⟨?_, ?_⟩⟩
        · have hchange : change ≠ .removed := by
            rintro rfl
            change lastWord e.path es = none at hnone
            rw [lastWord, hnone, hword, Option.none_or] at hlast
            exact hlast rfl
          show (s.pending.insert e.path (coalesce s.pending[e.path]? change))[e.path]? ≠ _
          rw [getElem?_insert_same]
          exact fun hc => coalesce_ne_removed hchange _ (Option.some.inj hc)
        · show (e.path, FileChange.removed) ∉ s.ready
          rw [hready]
          exact List.not_mem_nil
      · obtain ⟨hlast, hsettled⟩ := hkeeps p hp hfile (word_of_ne hne)
        exact ⟨hlast, fun hnone => ⟨(hother hne) ▸ (hsettled hnone).1, (hsettled hnone).2⟩⟩

/-- Taking the pending changes for delivery keeps the invariant. Kind: L -/
theorem Kept.flush (h : s.Kept) : Kept { s with
    pending := ∅
    ready := s.pending.toList } := by
  have hempty (p : Location) : (∅ : Std.ExtTreeMap Location FileChange)[p]? = none :=
    Std.ExtTreeMap.getElem?_empty
  refine ⟨h.named, h.scanned, fun p hp => ?_, h.unrecorded, fun p hp hfile => ?_, h.sent⟩
  · obtain ⟨hwords, hpending, -⟩ := h.unseen p hp
    refine ⟨hwords, hempty p, fun change hc => ?_⟩
    rw [Std.ExtTreeMap.mem_toList_iff_getElem?_eq_some, hpending] at hc
    exact Option.some_ne_none _ hc.symm
  · obtain ⟨hlast, hsettled⟩ := h.standing p hp hfile
    refine ⟨hlast, fun hnone => ⟨?_, fun hc => (hsettled hnone).1 ?_⟩⟩
    · show (∅ : Std.ExtTreeMap Location FileChange)[p]? ≠ _
      rw [hempty]
      exact (Option.some_ne_none _ ·.symm)
    · exact Std.ExtTreeMap.mem_toList_iff_getElem?_eq_some.mp hc

/-- The callback on a path whose events are read keeps the invariant. Kind: L -/
theorem Kept.deliver (h : s.Kept) {change : FileChange} {ready : List (Location × FileChange)}
    (hready : s.ready = (q, change) :: ready) (hread : ∀ e ∈ s.events, e.path ≠ q) :
    (Mirror.deliver { s with ready := ready } q change).Kept := by
  have hsub (entry : Location × FileChange) (hentry : entry ∉ s.ready) : entry ∉ ready := by
    intro hc
    exact hentry (hready ▸ List.mem_cons_of_mem _ hc)
  refine ⟨h.named, h.scanned, fun p hp => ?_, fun p hp => ?_, fun p hp hfile => ?_, fun d hd => ?_⟩
  · obtain ⟨hwords, hpending, hflush⟩ := h.unseen p hp
    exact ⟨hwords, hpending, fun change => hsub _ (hflush change)⟩
  · obtain ⟨hrecord, htransfer⟩ := h.unrecorded p hp
    refine ⟨fun hc => hrecord ?_, htransfer⟩
    change p ∈ (if change = .removed then s.received else s.received.erase q) at hc
    split at hc
    · exact hc
    · exact ((mem_erase_iff _ _ _).mp hc).2
  · obtain ⟨hlast, hsettled⟩ := h.standing p hp hfile
    exact ⟨hlast, fun hnone => ⟨(hsettled hnone).1, hsub _ (hsettled hnone).2⟩⟩
  · obtain hd | hd := List.mem_append.mp hd
    · exact h.sent d hd
    · obtain rfl := List.mem_singleton.mp hd
      intro hlocal hpresent key hkey
      have hq : q ∈ s.localLast := of_decide_eq_true hlocal
      have hchange : change ≠ .removed := by
        rintro rfl
        obtain ⟨-, hsettled⟩ := h.standing q hq (of_decide_eq_true hpresent)
        refine (hsettled (lastWord_eq_none hread)).2 ?_
        rw [hready]
        exact List.mem_cons_self ..
      have hrecord := (h.unrecorded q hq).1
      show key ∈ if change ≠ .removed ∧ q ∉ s.received then queueKeys s.dataChannels.toList else []
      rw [if_pos ⟨hchange, hrecord⟩, queueKeys, List.mem_filter]
      exact ⟨hkey, decide_eq_true (h.named key (Std.ExtTreeSet.mem_toList.mp hkey))⟩

/-! ## Every step -/

/-- **What a step keeps that is `apart`.** Kind: P -/
theorem kept_step {e : Event} (h : s.Kept) (hapart : s.apart e = true)
    (hstep : s.step e = some s') : s'.Kept := by
  cases step_cases hstep with
  | channel key present =>
      refine ⟨fun key' hkey' => ?_, h.scanned, h.unseen, h.unrecorded, h.standing, h.sent⟩
      change key' ∈ (if present then s.dataChannels.insert key else s.dataChannels.erase key) at hkey'
      cases present with
      | false => exact h.named key' ((mem_erase_iff _ _ _).mp hkey').2
      | true =>
          obtain rfl | hkey' := (mem_insert_iff _ _ _).mp hkey'
          · exact of_decide_eq_true hapart
          · exact h.named key' hkey'
  | mkdir dir =>
      refine ⟨h.named, h.scanned, fun p hp => (h.unseen p hp).emit hp, h.unrecorded,
        fun p hp hfile => standing_of_event (h.standing p hp hfile) ?_ (.inl rfl), h.sent⟩
      unfold word
      rw [if_neg fun hc => Bool.noConfusion hc.2]
      exact (Option.some_ne_none false ·.symm)
  | localWrite path =>
      obtain ⟨hrecord, htransfer⟩ := of_decide_eq_true hapart
      refine h.localWrite hrecord fun t ht => ?_
      exact of_decide_eq_true (List.all_eq_true.mp htransfer t ht)
  | localDelete path => exact h.localDelete
  | refusedPresent path => exact h.closeWrite
  | refusedAbsent path => exact h.openRemotely.closeWrite
  | begun path =>
      have hopened := h.openRemotely (q := path)
      refine ⟨h.named, h.scanned, hopened.unseen, fun p hp => ⟨(hopened.unrecorded p hp).1, ?_⟩,
        hopened.standing, h.sent⟩
      intro t ht
      obtain ht | ht := List.mem_append.mp ht
      · exact (hopened.unrecorded p hp).2 t ht
      · obtain rfl := List.mem_singleton.mp ht
        exact ((mem_erase_iff _ _ _).mp hp).1
  | chunk i t =>
      split
      · have herased {p : Location} (hp : p ∈ s.localLast.erase t.path) : p ∈ s.localLast :=
          ((mem_erase_iff _ _ _).mp hp).2
        exact ⟨h.named, h.scanned, h.unseen, fun p hp => h.unrecorded p (herased hp),
          fun p hp => h.standing p (herased hp), h.sent⟩
      · exact h
  | finish i t ht => exact h.finish ht
  | release path =>
      exact Kept.closeWrite ⟨h.named, h.scanned, h.unseen, h.unrecorded, h.standing, h.sent⟩
  | read e events hevents hscan hready => exact h.read hevents hscan hready
  | report path hscan =>
      refine h.notify (h.scanned _ (List.mem_of_head? hscan)) ?_
      exact FileChange.noConfusion
  | enter dir =>
      refine ⟨h.named, fun d hd => ?_, fun p hp => ?_, h.unrecorded, h.standing, h.sent⟩
      · obtain rfl | hd := List.mem_cons.mp hd
        · exact (mem_insert_iff _ _ _).mpr (.inl rfl)
        · exact (mem_insert_iff _ _ _).mpr (.inr (h.scanned d hd))
      · exact h.unseen p fun hc => hp ((mem_insert_iff _ _ _).mpr (.inr hc))
  | leave dir scan hscan =>
      refine ⟨h.named, fun d hd => h.scanned d ?_, h.unseen, h.unrecorded, h.standing, h.sent⟩
      rw [hscan]
      exact List.mem_cons_of_mem _ hd
  | flush => exact h.flush
  | deliver path change ready hready =>
      refine h.deliver hready fun e he => ?_
      simp only [apart, hready, List.head?_cons, Option.all_some] at hapart
      exact of_decide_eq_true (List.all_eq_true.mp hapart e he)

/-- **Local edits are sent** in every run in which a file is written locally only where it has no
record and is not being received, and in which a change is delivered only when the events of its
path are read: whenever the latest write to a path was local, and the file is there when a change
of it is delivered, the path is queued for every data channel. Kind: P -/
theorem edits_sent_of_apart (es : List Event)
    (h : Runs.Meets step (fun s e => s.apart e = true) {} es) : Runs.Always step AllSent {} es :=
  (Runs.always_of_meets step (fun _ _ _ hk hc hs => kept_step hk hc hs) kept_init h).imp step
    fun _ hk => hk.sent

/-- A file `f` is received from the only peer, and edited once its change was delivered. Kind: D -/
def editedLater : List Event :=
  [.channel (str "b", str "r") true, .begun [str "f"], .chunk 0, .finish 0, .release, .read, .read,
    .flush, .deliver, .localWrite [str "f"], .read, .flush, .deliver]

/-- The same, edited within the quiet period of its reception. Kind: D -/
def editedAtOnce : List Event :=
  [.channel (str "b", str "r") true, .begun [str "f"], .chunk 0, .finish 0, .release, .read, .read,
    .localWrite [str "f"], .read, .flush, .deliver]

/-- An edit after the quiet period is sent. Kind: P -/
theorem edits_sent_later : Runs.Always step AllSent {} editedLater ∧
    (Runs.run step {} editedLater).isSome = true :=
  ⟨edits_sent_of_apart editedLater (by decide +kernel), by decide +kernel⟩

/-- An edit within the quiet period is swallowed. Kind: P -/
theorem edit_swallowed : ¬ ∀ es, Runs.Always step AllSent {} es := by
  intro hall
  have hend : (Runs.run step {} editedAtOnce).any (fun s => s.deliveries.any fun d =>
      d.localLast && d.present && !d.targets.isEmpty && d.queued.isEmpty) = true := by
    decide +kernel
  obtain ⟨s, htest, hsent⟩ := (hall editedAtOnce).at_end step hend
  obtain ⟨d, hd, hlost⟩ := List.any_eq_true.mp htest
  simp only [Bool.and_eq_true, Bool.not_eq_true', List.isEmpty_eq_false_iff_exists_mem,
    List.isEmpty_iff] at hlost
  obtain ⟨⟨⟨hlocal, hpresent⟩, key, hkey⟩, hnone⟩ := hlost
  have hqueued := hsent d hd hlocal hpresent key hkey
  rw [hnone] at hqueued
  exact List.not_mem_nil hqueued

end Mirror

end CloudNode
