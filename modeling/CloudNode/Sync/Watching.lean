import CloudNode.Lib.Runs
import CloudNode.Wire.Text

/-!
# A directory kept in sync

The watcher thread reads inotify events, remembers which paths changed, and after a quiet period
hands each of them to the callback of `main`, which sends the file to every peer unless it has just
been received. Received files are told apart by `m_receivedPaths`: the transfer thread enters a
path when a transfer into it ends, the callback takes it out.

The two threads share nothing else but the directory, and learn of each other through events that
are read later. `Mirror` is the directory, the kernel's unread events, the tables of both threads,
and a record of every change that was delivered.

* `handleEvent`, `notify` — the watcher's bookkeeping.
* `deliver` — the callback on one change of a flush.
* `step` — a step of the transfer thread, of the watcher, or of anyone else who writes or deletes a
  file. Time is left open: a flush may come whenever a change is pending.
* `step_cases` — what each step needs and what it leaves.
-/

namespace CloudNode

/-- A path beneath the watched directory: its names, innermost first, so that the parent of a path
is its tail and the directory itself is the empty list. Kind: D -/
abbrev Location := List Str

/-- Source: `FileWatcher.hpp`, `FileChange`. Kind: D -/
inductive FileChange where
  | added
  | modified
  | removed
  deriving DecidableEq

/-- The bits of `kWatchMask`. Source: `FileWatcher.cpp`. Kind: D -/
inductive WatchKind where
  | create
  | closeWrite
  | delete
  | movedFrom
  | movedTo
  deriving DecidableEq

/-- An inotify event, with the path that its watch and its name come to. Kind: D -/
structure WatchEvent where
  kind : WatchKind
  isDir : Bool
  path : Location
  deriving DecidableEq

/-- The event makes the watcher watch and list a directory. Kind: D -/
def WatchEvent.lists (e : WatchEvent) : Bool :=
  e.isDir && (e.kind = .create || e.kind = .movedTo)

/-- A file that is being received: its stream is open and its lock is held. `linked` tells whether
the file is still there under its path. Kind: D -/
structure OpenTransfer where
  path : Location
  linked : Bool

/-- A change that was delivered to the callback, with what was true of its path then: whether its
latest write was local, whether the file was there, whether nothing but incoming transfers had
created or written it since the last change of it, the keys of the data channels, whether it was
passed to `QueueFileToAll`, and for which keys it was queued. Kind: D -/
structure Delivery where
  path : Location
  change : FileChange
  localLast : Bool
  present : Bool
  onlyReceived : Bool
  targets : List PeerRoomKey
  passed : Bool
  queued : List PeerRoomKey

/-- The directory, the kernel's events, the watcher and the client. Kind: D -/
structure Mirror where
  dirs : Std.ExtTreeSet Location := (∅ : Std.ExtTreeSet Location).insert []
  files : Std.ExtTreeSet Location := ∅
  /-- The directories with a watch. -/
  watched : Std.ExtTreeSet Location := (∅ : Std.ExtTreeSet Location).insert []
  /-- The events that were not read yet, oldest first. -/
  events : List WatchEvent := []
  created : Std.ExtTreeSet Location := ∅
  pending : Std.ExtTreeMap Location FileChange := ∅
  /-- The directories that `AddWatchTree` is in, innermost first. -/
  scan : List Location := []
  /-- What is left of the flush that is under way. -/
  ready : List (Location × FileChange) := []
  received : Std.ExtTreeSet Location := ∅
  transfers : List OpenTransfer := []
  /-- The path whose stream is closed and whose lock is not; `m_incomingMutex` is held. -/
  closing : Option Location := none
  dataChannels : Std.ExtTreeSet PeerRoomKey := ∅
  queuedFiles : List (PeerRoomKey × Location) := []
  /-- The paths whose latest write was local. -/
  localLast : Std.ExtTreeSet Location := ∅
  /-- The paths that were created or written locally since a change of them was delivered. -/
  byLocal : Std.ExtTreeSet Location := ∅
  deliveries : List Delivery := []

namespace Mirror

/-! ## The watcher -/

/-- What becomes of a pending change when another one comes.
Source: `FileWatcher.cpp`, `Notify`
Kind: D -/
def coalesce : Option FileChange → FileChange → FileChange
  | none, change => change
  | some .added, .modified => .added
  | some .removed, .added => .modified
  | some _, change => change

/-- Source: `FileWatcher.cpp`, `Notify`. Kind: D -/
def notify (s : Mirror) (path : Location) (change : FileChange) : Mirror :=
  { s with pending := s.pending.insert path (coalesce s.pending[path]? change) }

/-- `AddWatchTree` up to its listing, which goes on in steps of its own.
Source: `FileWatcher.cpp`, `AddWatchTree`
Kind: D -/
def addWatchTree (s : Mirror) (dir : Location) : Mirror :=
  { s with
    watched := s.watched.insert dir
    scan := dir :: s.scan }

/-- One event of the buffer.
Source: `FileWatcher.cpp`, `HandleEvents`
Kind: D -/
def handleEvent (s : Mirror) (e : WatchEvent) : Mirror :=
  match e.kind, e.isDir with
  | .create, true | .movedTo, true => s.addWatchTree e.path
  | .movedTo, false => s.notify e.path .added
  | .create, false => { s with created := s.created.insert e.path }
  | .closeWrite, false =>
    { s with created := s.created.erase e.path }.notify e.path
      (if e.path ∈ s.created then .added else .modified)
  | .delete, false | .movedFrom, false =>
    { s with created := s.created.erase e.path }.notify e.path .removed
  | _, true => s

/-! ## The callback -/

/-- The keys that `QueueFileToAll` queues a path for: `QueueFile` refuses an empty name or room.
Source: `WebRTCClient.cpp`, `QueueFileToAll` and `QueueFile`
Kind: D -/
def queueKeys (targets : List PeerRoomKey) : List PeerRoomKey :=
  targets.filter fun key => key.1 ≠ [] ∧ key.2 ≠ []

/-- The callback on one change: a removal is not sent, nor is a file whose record it takes.
Source: `CloudNode.cpp`, `main`, the callback of `OnFile`; `WebRTCClient.cpp`, `TakeReceivedFile`
Kind: D -/
def deliver (s : Mirror) (path : Location) (change : FileChange) : Mirror :=
  let passed := change ≠ .removed ∧ path ∉ s.received
  let queued := if passed then queueKeys s.dataChannels.toList else []
  { s with
    received := if change = .removed then s.received else s.received.erase path
    queuedFiles := s.queuedFiles ++ queued.map fun key => (key, path)
    byLocal := s.byLocal.erase path
    deliveries := s.deliveries ++
      [{ path := path
         change := change
         localLast := path ∈ s.localLast
         present := path ∈ s.files
         onlyReceived := path ∉ s.byLocal
         targets := s.dataChannels.toList
         passed := passed
         queued := queued }] }

/-! ## The directory -/

/-- The kernel queues an event for a directory with a watch, unless it is the same as the newest
unread one. Kind: D -/
def queueEvent (s : Mirror) (e : WatchEvent) : List WatchEvent :=
  if e.path.tail ∈ s.watched ∧ s.events.getLast? ≠ some e then s.events ++ [e] else s.events

/-- Something happens in the directory. Kind: D -/
def emit (s : Mirror) (kind : WatchKind) (isDir : Bool) (path : Location) : Mirror :=
  { s with events := s.queueEvent ⟨kind, isDir, path⟩ }

/-- Opening a file for writing creates it if it is missing. Kind: D -/
def openFile (s : Mirror) (path : Location) : Mirror :=
  { s with
    files := s.files.insert path
    events := if path ∈ s.files then s.events else s.queueEvent ⟨.create, false, path⟩ }

/-- A path can be opened as a file. Kind: D -/
def placeable (s : Mirror) (path : Location) : Bool :=
  path ≠ [] && path.tail ∈ s.dirs && path ∉ s.dirs

/-- An incoming transfer has created or written a path. Kind: D -/
def wroteRemotely (s : Mirror) (path : Location) : Mirror :=
  { s with localLast := s.localLast.erase path }

/-- What can happen. Kind: D -/
inductive Event where
  /-- A data channel is registered or forgotten. -/
  | channel (key : PeerRoomKey) (present : Bool)
  /-- Someone, `OnFileOffer` for one, creates a directory. -/
  | mkdir (dir : Location)
  /-- Another program writes a file, creating it if it is missing, and closes it. -/
  | localWrite (path : Location)
  /-- Another program deletes a file. -/
  | localDelete (path : Location)
  /-- `StartNextIncoming` opens a destination for its lock, and then cannot lock it or cannot open
  its stream: it closes the descriptor. -/
  | refused (path : Location)
  /-- `StartNextIncoming` locks and truncates a destination. -/
  | begun (path : Location)
  /-- `OnIncomingChunk` writes to a destination. -/
  | chunk (i : ℕ)
  /-- The transfer is recorded and its stream is closed. -/
  | finish (i : ℕ)
  /-- The lock of a finished transfer is released, which closes a descriptor too. -/
  | release
  /-- The watcher handles its next event. -/
  | read
  /-- The watcher's listing comes to a file. -/
  | report (path : Location)
  /-- The watcher's listing comes to a directory. -/
  | enter (dir : Location)
  /-- The watcher's listing ends. -/
  | leave
  /-- The quiet period is over: the pending changes are taken for delivery. -/
  | flush
  /-- The callback is called on the next of them. -/
  | deliver

/-- The watcher is between two events: no listing and no flush is under way. Kind: D -/
def watching (s : Mirror) : Bool := s.scan.isEmpty && s.ready.isEmpty

/-- One step. The callback's `TakeReceivedFile` waits for `m_incomingMutex`, and so do the
transfers.
Source: `WebRTCClient.cpp`, `StartNextIncoming`, `OnIncomingChunk`; `FileLock.hpp`;
`FileWatcher.cpp`, `Run`, `HandleEvents`, `AddWatchTree`, `FlushIfQuiet`
Kind: D -/
def step (s : Mirror) : Event → Option Mirror
  | .channel key present =>
    some { s with dataChannels :=
      if present then s.dataChannels.insert key else s.dataChannels.erase key }
  | .mkdir dir =>
    if s.placeable dir ∧ dir ∉ s.files then
      some ({ s with dirs := s.dirs.insert dir }.emit .create true dir)
    else none
  | .localWrite path =>
    if s.placeable path then
      let s := (s.openFile path).emit .closeWrite false path
      some { s with
        localLast := s.localLast.insert path
        byLocal := s.byLocal.insert path }
    else none
  | .localDelete path =>
    if path ∈ s.files then
      some ({ s with
        files := s.files.erase path
        transfers := s.transfers.map fun t : OpenTransfer =>
          if t.path = path then ⟨t.path, false⟩ else t }.emit .delete false path)
    else none
  | .refused path =>
    if s.placeable path ∧ s.closing = none then
      if path ∈ s.files then some (s.emit .closeWrite false path)
      else some (((s.openFile path).wroteRemotely path).emit .closeWrite false path)
    else none
  | .begun path =>
    if s.placeable path ∧ s.closing = none then
      let s := (s.openFile path).wroteRemotely path
      some { s with transfers := s.transfers ++ [⟨path, true⟩] }
    else none
  | .chunk i =>
    match s.transfers[i]?, s.closing with
    | some t, none => some (if t.linked then s.wroteRemotely t.path else s)
    | _, _ => none
  | .finish i =>
    match s.transfers[i]?, s.closing with
    | some t, none =>
      some ({ s with
        received := s.received.insert t.path
        transfers := s.transfers.eraseIdx i
        closing := some t.path }.emit .closeWrite false t.path)
    | _, _ => none
  | .release =>
    match s.closing with
    | some path => some ({ s with closing := none }.emit .closeWrite false path)
    | none => none
  | .read =>
    match s.events with
    | e :: events => if s.watching then some ({ s with events := events }.handleEvent e) else none
    | [] => none
  | .report path =>
    if s.scan.head? = some path.tail ∧ path ≠ [] ∧ path ∈ s.files then
      some (s.notify path .added)
    else none
  | .enter dir =>
    if s.scan.head? = some dir.tail ∧ dir ≠ [] ∧ dir ∈ s.dirs then some (s.addWatchTree dir)
    else none
  | .leave =>
    match s.scan with
    | _ :: scan => some { s with scan := scan }
    | [] => none
  | .flush =>
    if s.watching ∧ ¬ s.pending.toList.isEmpty then
      some { s with
        pending := ∅
        ready := s.pending.toList }
    else none
  | .deliver =>
    match s.ready, s.closing with
    | (path, change) :: ready, none => some ({ s with ready := ready }.deliver path change)
    | _, _ => none

/-! ## What a step can do -/

/-- The steps that are possible, each with what it needs and the state it leaves. Kind: D -/
inductive Step (s : Mirror) : Event → Mirror → Prop where
  | channel (key : PeerRoomKey) (present : Bool) : Step s (.channel key present)
      { s with dataChannels :=
        if present then s.dataChannels.insert key else s.dataChannels.erase key }
  | mkdir (dir : Location) (placeable : s.placeable dir) (fresh : dir ∉ s.files) :
      Step s (.mkdir dir) ({ s with dirs := s.dirs.insert dir }.emit .create true dir)
  | localWrite (path : Location) (placeable : s.placeable path) : Step s (.localWrite path)
      { (s.openFile path).emit .closeWrite false path with
        localLast := s.localLast.insert path
        byLocal := s.byLocal.insert path }
  | localDelete (path : Location) (present : path ∈ s.files) : Step s (.localDelete path)
      ({ s with
        files := s.files.erase path
        transfers := s.transfers.map fun t : OpenTransfer =>
          if t.path = path then ⟨t.path, false⟩ else t }.emit .delete false path)
  | refusedPresent (path : Location) (placeable : s.placeable path) (closing : s.closing = none)
      (present : path ∈ s.files) : Step s (.refused path) (s.emit .closeWrite false path)
  | refusedAbsent (path : Location) (placeable : s.placeable path) (closing : s.closing = none)
      (absent : path ∉ s.files) : Step s (.refused path)
      (((s.openFile path).wroteRemotely path).emit .closeWrite false path)
  | begun (path : Location) (placeable : s.placeable path) (closing : s.closing = none) :
      Step s (.begun path)
      { (s.openFile path).wroteRemotely path with
        transfers := ((s.openFile path).wroteRemotely path).transfers ++ [⟨path, true⟩] }
  | chunk (i : Nat) (t : OpenTransfer) (transfer : s.transfers[i]? = some t)
      (closing : s.closing = none) :
      Step s (.chunk i) (if t.linked then s.wroteRemotely t.path else s)
  | finish (i : Nat) (t : OpenTransfer) (transfer : s.transfers[i]? = some t)
      (closing : s.closing = none) : Step s (.finish i)
      ({ s with
        received := s.received.insert t.path
        transfers := s.transfers.eraseIdx i
        closing := some t.path }.emit .closeWrite false t.path)
  | release (path : Location) (closing : s.closing = some path) :
      Step s .release ({ s with closing := none }.emit .closeWrite false path)
  | read (e : WatchEvent) (events : List WatchEvent) (unread : s.events = e :: events)
      (scan : s.scan = []) (ready : s.ready = []) :
      Step s .read ({ s with events := events }.handleEvent e)
  | report (path : Location) (scan : s.scan.head? = some path.tail) (beneath : path ≠ [])
      (present : path ∈ s.files) : Step s (.report path) (s.notify path .added)
  | enter (dir : Location) (scan : s.scan.head? = some dir.tail) (beneath : dir ≠ [])
      (present : dir ∈ s.dirs) : Step s (.enter dir) (s.addWatchTree dir)
  | leave (dir : Location) (scan : List Location) (scanning : s.scan = dir :: scan) :
      Step s .leave { s with scan := scan }
  | flush (scan : s.scan = []) (ready : s.ready = []) (pending : ¬ s.pending.toList.isEmpty) :
      Step s .flush { s with pending := ∅, ready := s.pending.toList }
  | deliver (path : Location) (change : FileChange) (ready : List (Location × FileChange))
      (flushed : s.ready = (path, change) :: ready) (closing : s.closing = none) :
      Step s .deliver ({ s with ready := ready }.deliver path change)

/-- The watcher reads and flushes between two scans and two deliveries. Kind: L -/
theorem idle_of_watching {s : Mirror} (h : s.watching = true) : s.scan = [] ∧ s.ready = [] := by
  obtain ⟨hscan, hready⟩ := Bool.and_eq_true_iff.mp h
  exact ⟨List.isEmpty_iff.mp hscan, List.isEmpty_iff.mp hready⟩

/-- **Every step is one of these.** Kind: P -/
theorem step_cases {s s' : Mirror} {e : Event} (h : s.step e = some s') : Step s e s' := by
  cases e with
  | channel key present => exact Option.some.inj h ▸ .channel key present
  | mkdir dir =>
      obtain ⟨hplace, h⟩ := Option.ite_none_right_eq_some.mp h
      exact Option.some.inj h ▸ .mkdir dir hplace.1 hplace.2
  | localWrite path =>
      obtain ⟨hplace, h⟩ := Option.ite_none_right_eq_some.mp h
      exact Option.some.inj h ▸ .localWrite path hplace
  | localDelete path =>
      obtain ⟨hpresent, h⟩ := Option.ite_none_right_eq_some.mp h
      exact Option.some.inj h ▸ .localDelete path hpresent
  | refused path =>
      obtain ⟨⟨hplace, hclosing⟩, h⟩ := Option.ite_none_right_eq_some.mp h
      split at h
      · rename_i hpresent
        exact Option.some.inj h ▸ .refusedPresent path hplace hclosing hpresent
      · rename_i habsent
        exact Option.some.inj h ▸ .refusedAbsent path hplace hclosing habsent
  | begun path =>
      obtain ⟨⟨hplace, hclosing⟩, h⟩ := Option.ite_none_right_eq_some.mp h
      exact Option.some.inj h ▸ .begun path hplace hclosing
  | chunk i =>
      simp only [step] at h
      split at h
      · rename_i t ht hclosing
        exact Option.some.inj h ▸ .chunk i t ht hclosing
      · exact (Option.some_ne_none _ h.symm).elim
  | finish i =>
      simp only [step] at h
      split at h
      · rename_i t ht hclosing
        exact Option.some.inj h ▸ .finish i t ht hclosing
      · exact (Option.some_ne_none _ h.symm).elim
  | release =>
      simp only [step] at h
      split at h
      · rename_i path hclosing
        exact Option.some.inj h ▸ .release path hclosing
      · exact (Option.some_ne_none _ h.symm).elim
  | read =>
      simp only [step] at h
      split at h
      · rename_i e events hevents
        obtain ⟨hwatching, h⟩ := Option.ite_none_right_eq_some.mp h
        obtain ⟨hscan, hready⟩ := idle_of_watching hwatching
        exact Option.some.inj h ▸ .read e events hevents hscan hready
      · exact (Option.some_ne_none _ h.symm).elim
  | report path =>
      obtain ⟨⟨hscan, hbeneath, hpresent⟩, h⟩ := Option.ite_none_right_eq_some.mp h
      exact Option.some.inj h ▸ .report path hscan hbeneath hpresent
  | enter dir =>
      obtain ⟨⟨hscan, hbeneath, hpresent⟩, h⟩ := Option.ite_none_right_eq_some.mp h
      exact Option.some.inj h ▸ .enter dir hscan hbeneath hpresent
  | leave =>
      simp only [step] at h
      split at h
      · rename_i dir scan hscan
        exact Option.some.inj h ▸ .leave dir scan hscan
      · exact (Option.some_ne_none _ h.symm).elim
  | flush =>
      obtain ⟨⟨hwatching, hpending⟩, h⟩ := Option.ite_none_right_eq_some.mp h
      obtain ⟨hscan, hready⟩ := idle_of_watching hwatching
      exact Option.some.inj h ▸ .flush hscan hready hpending
  | deliver =>
      simp only [step] at h
      split at h
      · rename_i path change ready hready hclosing
        exact Option.some.inj h ▸ .deliver path change ready hready hclosing
      · exact (Option.some_ne_none _ h.symm).elim

/-! ## Events on their way -/

variable {s : Mirror} {e e' : WatchEvent} {path p : Location}

/-- What is unread after something happened. Kind: L -/
theorem mem_queueEvent : e' ∈ s.queueEvent e ↔
    e' ∈ s.events ∨ (e.path.tail ∈ s.watched ∧ e' = e) := by
  unfold queueEvent
  split
  · rename_i h
    simp only [List.mem_append, List.mem_singleton, h.1, true_and]
  · rename_i h
    refine ⟨.inl, ?_⟩
    rintro (hold | ⟨hwatched, rfl⟩)
    · exact hold
    · -- The same event is the newest unread one.
      rw [not_and, not_not] at h
      exact List.mem_of_getLast? (h hwatched)

/-- A file that is opened for writing makes no event but its creation. Kind: L -/
theorem mem_events_openFile (h : e' ∈ (s.openFile path).events) :
    e' ∈ s.events ∨ (path.tail ∈ s.watched ∧ e' = ⟨.create, false, path⟩) := by
  simp only [openFile] at h
  split at h
  · exact .inl h
  · exact mem_queueEvent.mp h

/-! ## What an event says -/

/-- What one event says of a file: that it is there, that it is not, or nothing. Kind: D -/
def word (p : Location) (e : WatchEvent) : Option Bool :=
  if e.path = p ∧ e.isDir = false then
    match e.kind with
    | .closeWrite | .movedTo => some true
    | .delete | .movedFrom => some false
    | .create => none
  else none

/-- An event of another path says nothing. Kind: L -/
theorem word_of_ne (h : e.path ≠ p) : word p e = none := by
  unfold word
  rw [if_neg fun hc => h hc.1]

/-- **What the watcher makes of an event**: it watches and lists a directory, or remembers a new
file, or notes the change of a file of which the event says something. Kind: P -/
theorem handleEvent_cases (s : Mirror) (e : WatchEvent) :
    (s.handleEvent e = s.addWatchTree e.path ∧ e.lists = true ∧ ∀ p, word p e = none) ∨
    (∃ created, s.handleEvent e = { s with created := created } ∧ ∀ p, word p e = none) ∨
    (∃ created change, s.handleEvent e = notify { s with created := created } e.path change ∧
      word e.path e = some (decide (change ≠ .removed))) := by
  obtain ⟨kind, isDir, path⟩ := e
  have hdir (kind : WatchKind) (p : Location) : word p ⟨kind, true, path⟩ = none := by
    unfold word
    rw [if_neg fun hc => Bool.noConfusion hc.2]
  have hfile (kind : WatchKind) : word path ⟨kind, false, path⟩ = match kind with
      | .closeWrite | .movedTo => some true
      | .delete | .movedFrom => some false
      | .create => none := by
    unfold word
    rw [if_pos ⟨rfl, rfl⟩]
  cases isDir with
  | true =>
      cases kind with
      | create => exact .inl ⟨rfl, rfl, hdir _⟩
      | movedTo => exact .inl ⟨rfl, rfl, hdir _⟩
      | closeWrite => exact .inr (.inl ⟨s.created, rfl, hdir _⟩)
      | delete => exact .inr (.inl ⟨s.created, rfl, hdir _⟩)
      | movedFrom => exact .inr (.inl ⟨s.created, rfl, hdir _⟩)
  | false =>
      cases kind with
      | create =>
          refine .inr (.inl ⟨_, rfl, fun p => ?_⟩)
          unfold word
          split <;> rfl
      | movedTo => exact .inr (.inr ⟨s.created, .added, rfl, hfile _⟩)
      | delete => exact .inr (.inr ⟨_, .removed, rfl, hfile _⟩)
      | movedFrom => exact .inr (.inr ⟨_, .removed, rfl, hfile _⟩)
      | closeWrite =>
          refine .inr (.inr ⟨_, _, rfl, (hfile _).trans ?_⟩)
          show some true =
            some (decide ((if path ∈ s.created then FileChange.added else .modified) ≠ .removed))
          by_cases hcreated : path ∈ s.created
          · rw [if_pos hcreated]
            rfl
          · rw [if_neg hcreated]
            rfl

/-- A removal is noted as a removal. Kind: L -/
theorem coalesce_removed (previous : Option FileChange) : coalesce previous .removed = .removed := by
  cases previous with
  | none => rfl
  | some previous => cases previous <;> rfl

/-- What a pending change becomes is a removal only if a removal comes. Kind: L -/
theorem coalesce_ne_removed {change : FileChange} (h : change ≠ .removed)
    (previous : Option FileChange) : coalesce previous change ≠ .removed := by
  cases previous with
  | none => exact h
  | some previous =>
      cases previous <;> cases change <;> first | exact FileChange.noConfusion | exact h

end Mirror

end CloudNode
