import CloudNode.Lib.Runs
import CloudNode.Sync.FileTree
import CloudNode.Sync.Watching

/-!
# A directory tree and its watches

A watch reports what happens to the entries of one directory, so the watcher puts one on every
directory: `AddWatchTree` watches a directory, then lists it, and goes on with the directories it
finds. Meanwhile others create, fill, rename and remove directories. What the watcher holds of a
directory is its path when it was watched, by the watch descriptor; it learns of a new path when it
reads the event of the rename.

`WatchedTree` has the file system, the kernel's watches and unread events, and the watcher with the
calls of `AddWatchTree` that it is in. The kernel knows a watch by its inode, and the number of the
inode stands for the watch descriptor. Whatever is done to the tree is one step, and so is each call
of the watcher to the kernel, so that all else may come between them.

* `handleEvent`, `notify` — the watcher's bookkeeping.
* `cut`, `graft`, `emit` — what an operation on the tree does to the tree, to the listings that are
  under way, and to the queue of events.
* `step` — a step of the watcher, of the kernel, or of anyone else.
-/

namespace CloudNode

/-- An inotify event: a watch is gone, or something happened to an entry of the watched directory,
or, without a name, to the watched inode itself. Kind: D -/
inductive KernelEvent where
  | ignored (wd : ℕ)
  | child (wd : ℕ) (kind : WatchKind) (isDir : Bool) (name : Str)
  deriving DecidableEq

/-- Where a call of `AddWatchTree` stands: before `inotify_add_watch`, before the directory is
opened, or in its loop, with the directory that was opened and with the names in it that were there
all the while and did not come up yet.
Source: `FileWatcher.cpp`, `AddWatchTree`
Kind: D -/
inductive Frame where
  | adding (dir : AbsPath) (reportExisting : Bool)
  | opening (dir : AbsPath) (reportExisting : Bool)
  | listing (dir : AbsPath) (node : ℕ) (left : List Str) (reportExisting : Bool)

/-- The file system, the kernel and the watcher. Kind: D -/
structure WatchedTree where
  root : AbsPath
  tree : FileTree
  /-- The inodes with a watch. -/
  watched : Std.ExtTreeSet ℕ := ∅
  /-- The kernel's events, oldest first. -/
  queue : List KernelEvent := []
  /-- The events that were read from the kernel and not handled yet. -/
  buffer : List KernelEvent := []
  watches : Std.ExtTreeMap ℕ AbsPath := ∅
  created : Std.ExtTreeSet AbsPath := ∅
  pending : Std.ExtTreeMap AbsPath FileChange := ∅
  /-- The calls of `AddWatchTree`, innermost first. -/
  frames : List Frame
  /-- `Start` has returned. -/
  started : Bool := false
  /-- The file there was closed after writing, or moved there, since `Start` returned. -/
  changed : AbsPath → Bool := fun _ => false
  /-- The path was passed to `Notify`, as added or modified, since the file there was created, moved
  there, or closed after writing. -/
  told : AbsPath → Bool := fun _ => false

namespace WatchedTree

/-! ## The watcher -/

/-- Source: `FileWatcher.cpp`, `Notify`. Kind: D -/
def notify (s : WatchedTree) (path : AbsPath) (change : FileChange) : WatchedTree :=
  { s with
    pending := s.pending.insert path (Mirror.coalesce s.pending[path]? change)
    told := fun q => (q = path && change ≠ .removed) || s.told q }

/-- An event of a watched directory, with its path.
Source: `FileWatcher.cpp`, `HandleEvents`
Kind: D -/
def handleChild (s : WatchedTree) (kind : WatchKind) (isDir : Bool) (path : AbsPath) : WatchedTree :=
  match kind, isDir with
  | .create, true | .movedTo, true => { s with frames := .adding path true :: s.frames }
  | .movedTo, false => s.notify path .added
  | .create, false => { s with created := s.created.insert path }
  | .closeWrite, false =>
    { s with created := s.created.erase path }.notify path
      (if path ∈ s.created then .added else .modified)
  | .delete, false | .movedFrom, false =>
    { s with created := s.created.erase path }.notify path .removed
  | _, true => s

/-- One event of the buffer.
Source: `FileWatcher.cpp`, `HandleEvents`
Kind: D -/
def handleEvent (s : WatchedTree) : KernelEvent → WatchedTree
  | .ignored wd => { s with watches := s.watches.erase wd }
  | .child wd kind isDir name =>
    match s.watches[wd]? with
    | none => s
    | some dir => if name = [] then s else s.handleChild kind isDir (name :: dir)

/-- One entry of a listing, with what it turns out to be, if it is still there.
Source: `FileWatcher.cpp`, `AddWatchTree`
Kind: D -/
def listEntry (s : WatchedTree) (path : AbsPath) (reportExisting : Bool) :
    Option NodeKind → WatchedTree
  | some .directory => { s with frames := .adding path reportExisting :: s.frames }
  | some .regular => if reportExisting then s.notify path .added else s
  | none => s

/-! ## The tree and the kernel -/

/-- The kernel queues an event of a watched inode, unless it is the same as the newest one in the
queue. Kind: D -/
def emit (s : WatchedTree) (wd : ℕ) (kind : WatchKind) (isDir : Bool) (name : Str) : WatchedTree :=
  { s with queue :=
      if wd ∈ s.watched ∧ s.queue.getLast? ≠ some (.child wd kind isDir name) then
        s.queue ++ [.child wd kind isDir name]
      else s.queue }

/-- A listing need not come to a name that was removed after it began. Kind: D -/
def forget (d : ℕ) (n : Str) : Frame → Frame
  | .listing dir node left reportExisting =>
    .listing dir node (if node = d then left.filter (· ≠ n) else left) reportExisting
  | f => f

/-- An entry is removed, if it is there. Kind: D -/
def cut (s : WatchedTree) (d : ℕ) (n : Str) : WatchedTree :=
  { s with
    tree := s.tree.detach d n
    frames := s.frames.map (forget d n) }

/-- An inode is given an entry, which is under the given path. Kind: D -/
def graft (s : WatchedTree) (d : ℕ) (n : Str) (i : ℕ) (path : AbsPath) (changed : Bool)
    (h : s.tree.Attachable d n i) : WatchedTree :=
  { s with
    tree := s.tree.attach d n i h
    changed := fun q => if path <:+ q then changed else s.changed q
    told := fun q => if path <:+ q then false else s.told q }

/-- A directory or an empty file is made. Kind: D -/
def make (s : WatchedTree) (kind : NodeKind) (d : ℕ) (n : Str) (path : AbsPath)
    (h : s.tree.Free d n) : WatchedTree :=
  (graft { s with tree := s.tree.create kind } d n s.tree.kinds.length path false
    (h.attachable kind)).emit d .create (kind = .directory) n

/-- What `rename` asks of its arguments: no directory goes beneath itself, a file takes the place
of nothing but a file, a directory of nothing but an empty directory. The root stays. Kind: D -/
structure Renamable (s : WatchedTree) (i : ℕ) (old new : AbsPath) (d' : ℕ) (n' : Str) : Prop where
  directory : s.tree.kinds[d']? = some .directory
  name : n' ≠ []
  not_beneath : ¬ old <:+ new
  old_not_root : ¬ old <:+ s.root
  new_not_root : ¬ new <:+ s.root
  target : (s.tree.link d' n').all fun j =>
    s.tree.kinds[j]? = s.tree.kinds[i]? && (s.tree.names j).isEmpty

/-- What was renamed may be put where it goes. Kind: L -/
theorem Renamable.attachable {s : WatchedTree} {i d d' : ℕ} {n n' : Str} {old new : AbsPath}
    (h : s.Renamable i old new d' n') (hlink : s.tree.link d n = some i) :
    ((s.tree.detach d n).detach d' n').Attachable d' n' i where
  directory := h.directory
  name := h.name
  node := s.tree.node_of_entry hlink
  loose := (FileTree.loose_detach hlink).detach d' n'

/-- A file or a directory is renamed. Kind: D -/
def rename (s : WatchedTree) (d : ℕ) (n : Str) (i : ℕ) (new : AbsPath) (d' : ℕ) (n' : Str)
    (h : ((s.tree.detach d n).detach d' n').Attachable d' n' i) : WatchedTree :=
  let isDir := s.tree.kinds[i]? = some .directory
  ((((s.cut d n).emit d .movedFrom isDir n).cut d' n').graft d' n' i new s.started h).emit
    d' .movedTo isDir n'

/-- The inode of the directory that a path is an entry of, and its name there. Kind: D -/
def spot (s : WatchedTree) : AbsPath → Option DirEntry
  | [] => none
  | n :: dir => (s.tree.find dir).map fun d => (d, n)

/-- What can happen. Kind: D -/
inductive Event where
  /-- Someone makes a directory or creates a file. -/
  | make (kind : NodeKind) (path : AbsPath)
  /-- Someone removes a file or an empty directory. -/
  | delete (path : AbsPath)
  /-- A file is closed after writing. -/
  | close (path : AbsPath)
  /-- A file that was removed from this directory while it was open is closed after writing. -/
  | closeRemoved (d : ℕ) (n : Str)
  /-- Someone renames a file or a directory, within the root, or into it, or anywhere else. -/
  | rename (old new : AbsPath)
  /-- The kernel gives up a removed inode, and its watch. -/
  | evict (i : ℕ)
  /-- The watcher reads the first `count` events of the kernel's queue into its buffer. -/
  | poll (count : ℕ)
  /-- The watcher handles the next event of its buffer. -/
  | read
  /-- The watcher calls `inotify_add_watch`. -/
  | addWatch
  /-- The watcher opens the directory. -/
  | openDir
  /-- The listing comes to a name, and tells what it finds under it. -/
  | entry (name : Str) (found : Option NodeKind)
  /-- The listing ends. -/
  | leave
  /-- `Start` starts the thread and returns. -/
  | startReturns
  /-- The pending changes are delivered. -/
  | flush

/-- Whether there is room for an entry. Kind: D -/
instance (tree : FileTree) (d : ℕ) (n : Str) : Decidable (tree.Free d n) :=
  decidable_of_iff (tree.kinds[d]? = some .directory ∧ n ≠ [] ∧ tree.link d n = none)
    ⟨fun h => ⟨h.1, h.2.1, h.2.2⟩, fun h => ⟨h.directory, h.name, h.vacant⟩⟩

/-- Whether a rename goes through. Kind: D -/
instance (s : WatchedTree) (i : ℕ) (old new : AbsPath) (d' : ℕ) (n' : Str) :
    Decidable (s.Renamable i old new d' n') :=
  decidable_of_iff (s.tree.kinds[d']? = some .directory ∧ n' ≠ [] ∧ ¬ old <:+ new ∧
      ¬ old <:+ s.root ∧ ¬ new <:+ s.root ∧ (s.tree.link d' n').all fun j =>
        s.tree.kinds[j]? = s.tree.kinds[i]? && (s.tree.names j).isEmpty)
    ⟨fun h => ⟨h.1, h.2.1, h.2.2.1, h.2.2.2.1, h.2.2.2.2.1, h.2.2.2.2.2⟩, fun h =>
      ⟨h.directory, h.name, h.not_beneath, h.old_not_root, h.new_not_root, h.target⟩⟩

/-- One step. A listing comes to every name that is in the directory from when it is opened to its
end, and finds out rightly what it is, unless the path has come to lead elsewhere.
Source: `FileWatcher.cpp`, `Start`, `Run`, `HandleEvents`, `AddWatchTree`, `FlushIfQuiet`
Kind: D -/
def step (s : WatchedTree) : Event → Option WatchedTree
  | .make kind path =>
    match s.spot path with
    | some (d, n) => if h : s.tree.Free d n then some (s.make kind d n path h) else none
    | none => none
  | .delete path =>
    match s.spot path with
    | some (d, n) =>
      match s.tree.link d n with
      | some i =>
        if s.tree.names i = [] ∧ ¬ path <:+ s.root then
          some ((s.cut d n).emit d .delete (s.tree.kinds[i]? = some .directory) n)
        else none
      | none => none
    | none => none
  | .close path =>
    match s.spot path, s.tree.find path with
    | some (d, n), some i =>
      if s.tree.kinds[i]? = some .regular then
        let s := { s with
          changed := fun q => if q = path then s.started else s.changed q
          told := fun q => if q = path then false else s.told q }
        some ((s.emit d .closeWrite false n).emit i .closeWrite false [])
      else none
    | _, _ => none
  | .closeRemoved d n => some (s.emit d .closeWrite false n)
  | .rename old new =>
    match s.spot old, s.spot new with
    | some (d, n), some (d', n') =>
      match hlink : s.tree.link d n with
      | some i =>
        if h : s.Renamable i old new d' n' then
          some (s.rename d n i new d' n' (h.attachable hlink))
        else none
      | none => none
    | _, _ => none
  | .evict i =>
    if i ∈ s.watched ∧ i < s.tree.kinds.length ∧ i ≠ 0 ∧ ∀ e ∈ s.tree.entries.toList, e.2 ≠ i then
      some { s with
        watched := s.watched.erase i
        queue := s.queue ++ [.ignored i] }
    else none
  | .poll count =>
    if s.started ∧ s.frames.isEmpty ∧ s.buffer.isEmpty then
      some { s with
        buffer := s.queue.take count
        queue := s.queue.drop count }
    else none
  | .read =>
    match s.frames, s.buffer with
    | [], e :: buffer => some ({ s with buffer := buffer }.handleEvent e)
    | _, _ => none
  | .addWatch =>
    match s.frames with
    | .adding dir reportExisting :: frames =>
      match s.tree.find dir with
      | some i =>
        some { s with
          watched := s.watched.insert i
          watches := s.watches.insert i dir
          frames := .opening dir reportExisting :: frames }
      | none => some { s with frames := frames }
    | _ => none
  | .openDir =>
    match s.frames with
    | .opening dir reportExisting :: frames =>
      match s.tree.find dir with
      | some i =>
        if s.tree.kinds[i]? = some .directory then
          some { s with frames := .listing dir i (s.tree.names i) reportExisting :: frames }
        else some { s with frames := frames }
      | none => some { s with frames := frames }
    | _ => none
  | .entry name found =>
    match s.frames with
    | .listing dir node left reportExisting :: frames =>
      if name ∈ left → s.tree.find dir = some node → found = s.tree.kindAt (name :: dir) then
        some (listEntry { s with
          frames := .listing dir node (left.filter (· ≠ name)) reportExisting :: frames }
          (name :: dir) reportExisting found)
      else none
    | _ => none
  | .leave =>
    match s.frames with
    | .listing _ _ [] _ :: frames => some { s with frames := frames }
    | _ => none
  | .startReturns =>
    if s.frames.isEmpty ∧ ¬ s.started then some { s with started := true } else none
  | .flush =>
    if s.started ∧ s.frames.isEmpty ∧ s.buffer.isEmpty then some { s with pending := ∅ } else none

/-- `Start` is called: `AddWatchTree` is about to watch the root.
Source: `FileWatcher.cpp`, `Start`
Kind: D -/
def atStart (root : AbsPath) (tree : FileTree) : WatchedTree where
  root := root
  tree := tree
  frames := [.adding root false]

/-- All events have been handled. Kind: D -/
def handled (s : WatchedTree) : Bool :=
  s.frames.isEmpty && s.buffer.isEmpty && s.queue.isEmpty

end WatchedTree

end CloudNode
