import CloudNode.Lib.Flock
import CloudNode.Lib.Runs
import CloudNode.Wire.Text

/-!
# Files that are sent and received at once

A receiver writes a file that a worker may want to send. Both use `flock`: the receiver locks a
destination exclusively before it truncates it, without waiting, and the worker opens a file only
under a shared lock that it waited for. Every call to the kernel is a step here, so that anything
may happen between two of them, and any of them may fail. A path always names the same file,
`inodeOf`; which one is left open, and so are the paths, the number of the workers, and what they
are busy with. That the receiver's calls hold `m_incomingMutex` is not used.

* `Receiver.step` — the queue of one peer and room: `OnFileOffer`, `StartNextIncoming`,
  `OnIncomingChunk`, and the destruction of entries, member by member.
* `Sending.step` — a worker: `LockedIfstream`, its constructor, its use and its destructor.
* `moves_receiver`, `moves_sending` — what one step does to the locks.
* `excluded_always` — no file is open for sending, or open twice for receiving, while it is
  received.
-/

namespace CloudNode

namespace Locking

open Flock

/-! ## The receiver -/

/-- A file to be received: `lock` is the descriptor of its `FileLock`, and `stream` the write
position of an open stream. Source: `WebRTCClient.hpp`, `IncomingFile`. Kind: D -/
structure Entry where
  lock : Option ℕ := none
  stream : Option ℕ := none
  expectedSize : ℤ
  destination : Str

/-- Where the handling of a queue stands. Kind: D -/
inductive Task where
  /-- Nothing is under way. -/
  | idle
  /-- `StartNextIncoming` is at the head of its loop. -/
  | starting
  /-- `Acquire` has opened the destination of the front entry. -/
  | acquiring (fd : ℕ)
  /-- `flock` has failed. -/
  | refused (fd : ℕ)
  /-- The front entry has its lock, and its stream is to be opened. -/
  | truncating
  /-- The stream is open. -/
  | started
  /-- The stream is to be closed. -/
  | closing
  /-- The front entry is being destroyed. -/
  | popping
  /-- The queue is being destroyed. -/
  | clearing

/-- The queue of one peer and room. Source: `WebRTCClient.hpp`, `m_incomingFiles`. Kind: D -/
structure Receiver where
  queue : List Entry := []
  task : Task := .idle

/-- What happens to a queue; where a call to the kernel may fail, whether it succeeds. Kind: D -/
inductive ReceiverEvent where
  /-- An offer is accepted. -/
  | offer (destination : Str) (expectedSize : ℤ)
  /-- The loop looks at the front entry; `Acquire` opens its destination. -/
  | examine (opens : Bool)
  | flock (granted : Bool)
  /-- `Acquire` closes the descriptor that it could not lock. -/
  | closeRefused
  /-- The stream is opened, and the file truncated. -/
  | openStream (ok : Bool)
  /-- The loop looks whether the file is empty. -/
  | inspect
  /-- Some bytes arrive and are written. -/
  | chunk (count : ℕ) (ok : Bool)
  | closeStream
  /-- A member of the front entry is destroyed. -/
  | destroy
  /-- The client is destroyed. -/
  | drop

/-- Source: `FileLock.hpp`, `Release`. Kind: D -/
def release {ι : Type} (table : Table ι) : Option ℕ → Table ι
  | none => table
  | some fd => close table fd

/-- The destruction of the front entry, member by member: the stream was declared behind the lock,
and is destroyed before it.
Source: `WebRTCClient.hpp`, `IncomingFile`; `std::deque::pop_front`
Kind: D -/
def destroyFront {ι : Type} (table : Table ι) (after : Task) (task : Task) (file : Entry)
    (rest : List Entry) : Receiver × Table ι :=
  match file.stream with
  | some _ => (⟨{ file with stream := none } :: rest, task⟩, table)
  | none => (⟨rest, after⟩, release table file.lock)

section

variable {ι : Type} [DecidableEq ι] (inodeOf : Str → ι)

/-- A step of a queue.
Source: `WebRTCClient.cpp`, `OnFileOffer`, `StartNextIncoming` and `OnIncomingChunk`;
`FileLock.hpp`, `Acquire`
Kind: D -/
def Receiver.step (r : Receiver) (table : Table ι) (next : ℕ) :
    ReceiverEvent → Option (Receiver × Table ι × ℕ)
  | .offer destination expectedSize =>
    match r.task with
    | .idle =>
      let file := { destination := destination, expectedSize := expectedSize }
      some (⟨r.queue ++ [file], if r.queue = [] then .starting else .idle⟩, table, next)
    | _ => none
  | .examine opens =>
    match r.task, r.queue with
    | .starting, [] => some (⟨[], .idle⟩, table, next)
    | .starting, file :: rest =>
      if file.stream.isSome then some (⟨file :: rest, .idle⟩, table, next)
      else
        let table := release table file.lock
        let queue := { file with lock := none } :: rest
        if opens then some (⟨queue, .acquiring next⟩, table, next + 1)
        else some (⟨queue, .popping⟩, table, next)
    | _, _ => none
  | .flock granted =>
    match r.task, r.queue with
    | .acquiring fd, file :: rest =>
      if granted then
        if Compatible table (inodeOf file.destination) true then
          some (⟨{ file with lock := some fd } :: rest, .truncating⟩,
            lock table fd (inodeOf file.destination) true, next)
        else none
      else some (⟨file :: rest, .refused fd⟩, table, next)
    | _, _ => none
  | .closeRefused =>
    match r.task with
    | .refused fd => some (⟨r.queue, .popping⟩, close table fd, next)
    | _ => none
  | .openStream ok =>
    match r.task, r.queue with
    | .truncating, file :: rest =>
      if ok then some (⟨{ file with stream := some 0 } :: rest, .started⟩, table, next)
      else some (⟨file :: rest, .popping⟩, table, next)
    | _, _ => none
  | .inspect =>
    match r.task, r.queue with
    | .started, file :: rest =>
      some (⟨file :: rest, if file.expectedSize = 0 then .closing else .starting⟩, table, next)
    | _, _ => none
  | .chunk count ok =>
    match r.task, r.queue with
    | .idle, file :: rest =>
      match file.stream with
      | none => none
      | some pos =>
        let file := { file with stream := some (pos + count) }
        if ok = false ∨ file.expectedSize ≤ ((pos + count : ℕ) : ℤ) then
          some (⟨file :: rest, .closing⟩, table, next)
        else some (⟨file :: rest, .idle⟩, table, next)
    | _, _ => none
  | .closeStream =>
    match r.task, r.queue with
    | .closing, file :: rest =>
      some (⟨{ file with stream := none } :: rest, .popping⟩, table, next)
    | _, _ => none
  | .destroy =>
    match r.task, r.queue with
    | .popping, file :: rest =>
      let out := destroyFront table .starting .popping file rest
      some (out.1, out.2, next)
    | .clearing, file :: rest =>
      let out := destroyFront table .clearing .clearing file rest
      some (out.1, out.2, next)
    | .clearing, [] => some (⟨[], .idle⟩, table, next)
    | _, _ => none
  | .drop =>
    match r.task with
    | .idle => some (⟨r.queue, .clearing⟩, table, next)
    | _ => none

/-! ## The worker -/

/-- A worker and the file it is about to send: it has none, it has opened it for locking, `flock`
failed, it has the lock, its stream is open, or the stream is closed again.
Source: `FileLock.hpp`, `LockedIfstream`
Kind: D -/
inductive Sending where
  | idle
  | acquiring (fd : ℕ) (path : Str)
  | refused (fd : ℕ)
  | locked (fd : ℕ) (path : Str)
  | reading (fd : ℕ) (path : Str)
  | closed (fd : ℕ)

/-- What a worker does; where a call to the kernel may fail, whether it succeeds. Kind: D -/
inductive SendingEvent where
  /-- `Acquire` opens a file. -/
  | openLock (path : Str) (opens : Bool)
  | flock (granted : Bool)
  | closeRefused
  | openStream (ok : Bool)
  | read
  /-- The destructor closes the stream. -/
  | close
  /-- The destructor releases the lock. -/
  | release

/-- A step of a worker.
Source: `FileLock.hpp`, `Acquire` and `LockedIfstream`; `WebRTCClient.cpp`, `MakeDataChannel`
Kind: D -/
def Sending.step (s : Sending) (table : Table ι) (next : ℕ) :
    SendingEvent → Option (Sending × Table ι × ℕ)
  | .openLock path opens =>
    match s with
    | .idle =>
      if opens then some (.acquiring next path, table, next + 1) else some (.idle, table, next)
    | _ => none
  | .flock granted =>
    match s with
    | .acquiring fd path =>
      if granted then
        if Compatible table (inodeOf path) false then
          some (.locked fd path, lock table fd (inodeOf path) false, next)
        else none
      else some (.refused fd, table, next)
    | _ => none
  | .closeRefused =>
    match s with
    | .refused fd => some (.idle, close table fd, next)
    | _ => none
  | .openStream ok =>
    match s with
    | .locked fd path => some (if ok then .reading fd path else .closed fd, table, next)
    | _ => none
  | .read =>
    match s with
    | .reading fd path => some (.reading fd path, table, next)
    | _ => none
  | .close =>
    match s with
    | .reading fd _ => some (.closed fd, table, next)
    | _ => none
  | .release =>
    match s with
    | .closed fd => some (.idle, close table fd, next)
    | _ => none

/-! ## All of them -/

/-- The queues, the workers, and the kernel's locks. Kind: D -/
structure Transfers (ι ω : Type) where
  table : Table ι := []
  /-- The next descriptor. -/
  next : ℕ := 0
  receivers : PeerRoomKey → Receiver := fun _ => {}
  senders : ω → Sending := fun _ => .idle

/-- Who moves, and how. Kind: D -/
inductive Event (ω : Type) where
  | receive (key : PeerRoomKey) (e : ReceiverEvent)
  | send (worker : ω) (e : SendingEvent)

variable {ω : Type} [DecidableEq ω]

/-- A step of one of them. Kind: D -/
def step (s : Transfers ι ω) : Event ω → Option (Transfers ι ω)
  | .receive key e =>
    ((s.receivers key).step inodeOf s.table s.next e).map fun (r, table, next) =>
      { s with
        table := table
        next := next
        receivers := Function.update s.receivers key r }
  | .send worker e =>
    ((s.senders worker).step inodeOf s.table s.next e).map fun (sending, table, next) =>
      { s with
        table := table
        next := next
        senders := Function.update s.senders worker sending }

/-- What must not be: that a file is open for sending which is being received, from when it is
truncated until the stream is closed, or that one is being received twice. Kind: D -/
structure Excluded (s : Transfers ι ω) : Prop where
  unread : ∀ worker fd path, s.senders worker = .reading fd path →
    ∀ key, ∀ file ∈ (s.receivers key).queue, file.stream ≠ none →
      inodeOf file.destination ≠ inodeOf path
  single : ∀ (key key' : PeerRoomKey) (i i' : ℕ) (file file' : Entry),
    (s.receivers key).queue[i]? = some file → (s.receivers key').queue[i']? = some file' →
    file.stream ≠ none → file'.stream ≠ none →
    inodeOf file.destination = inodeOf file'.destination → key = key' ∧ i = i'

end

/-! ## One queue -/

section

variable {ι : Type} {inodeOf : Str → ι} {r r' : Receiver} {table table' : Table ι} {next next' : ℕ}
  {file : Entry} {rest : List Entry} {task : Task}

/-- The descriptor of a lock that is being acquired. Kind: D -/
def Task.fd : Task → Option ℕ
  | .acquiring fd => some fd
  | .refused fd => some fd
  | _ => none

/-- The descriptor that a queue has. Kind: D -/
def Receiver.fd (r : Receiver) : Option ℕ := r.task.fd.or (r.queue.head?.bind Entry.lock)

/-- An entry that waits for its turn. Kind: D -/
def Entry.Waits (file : Entry) : Prop := file.lock = none ∧ file.stream = none

/-- What holds of the front entry: its stream is open only under its lock, and the lock is held.
Kind: D -/
structure Entry.Front (inodeOf : Str → ι) (table : Table ι) (file : Entry) : Prop where
  guarded : file.stream ≠ none → file.lock ≠ none
  held : ∀ fd, file.lock = some fd → ⟨fd, inodeOf file.destination, true⟩ ∈ table

/-- What holds of a queue between two steps. Kind: D -/
structure Receiver.Ok (inodeOf : Str → ι) (table : Table ι) (r : Receiver) : Prop where
  front : ∀ file rest, r.queue = file :: rest → file.Front inodeOf table ∧ ∀ f ∈ rest, f.Waits
  pending : r.task.fd ≠ none → ∀ file rest, r.queue = file :: rest → file.Waits
  locked : r.task = .truncating → ∀ file rest, r.queue = file :: rest → file.lock ≠ none

/-- An entry that waits makes a front. Kind: L -/
theorem Entry.Waits.front (h : file.Waits) : file.Front inodeOf table :=
  ⟨fun hstream => absurd h.2 hstream, fun _ hlock => absurd (h.1.symm.trans hlock) nofun⟩

/-- An empty queue. Kind: L -/
theorem ok_nil (task : Task) : Receiver.Ok inodeOf table ⟨[], task⟩ := ⟨nofun, nofun, nofun⟩

/-- A queue whose front acquires no lock. Kind: L -/
theorem ok_front (hfront : file.Front inodeOf table) (hrest : ∀ f ∈ rest, f.Waits)
    (hfd : task.fd = none) (htask : task = .truncating → file.lock ≠ none) :
    Receiver.Ok inodeOf table ⟨file :: rest, task⟩ := by
  refine ⟨fun f fs h => ?_, fun h => absurd hfd h, fun h f fs hqueue => ?_⟩
  · obtain ⟨rfl, rfl⟩ := List.cons.inj h
    exact ⟨hfront, hrest⟩
  · obtain ⟨rfl, rfl⟩ := List.cons.inj hqueue
    exact htask h

/-- A queue whose entries all wait. Kind: L -/
theorem ok_waits {queue : List Entry} (hqueue : ∀ f ∈ queue, f.Waits) (htask : task ≠ .truncating) :
    Receiver.Ok inodeOf table ⟨queue, task⟩ := by
  refine ⟨fun f fs h => ⟨?_, fun f' hf' => ?_⟩, fun _ f fs h => ?_, fun h => absurd h htask⟩
  · obtain rfl : queue = f :: fs := h
    exact (hqueue f (List.mem_cons_self ..)).front
  · obtain rfl : queue = f :: fs := h
    exact hqueue f' (List.mem_cons_of_mem f hf')
  · obtain rfl : queue = f :: fs := h
    exact hqueue f (List.mem_cons_self ..)

/-- The front of a queue of waiting entries has no descriptor. Kind: L -/
theorem lock_eq_none_of_waits {queue : List Entry} (h : ∀ f ∈ queue, f.Waits) :
    queue.head?.bind Entry.lock = none := by
  cases queue with
  | nil => rfl
  | cons f queue => exact (h f (List.mem_cons_self ..)).1

/-- A queue keeps its lock while others change theirs. Kind: L -/
theorem Receiver.Ok.of_keeps (h : r.Ok inodeOf table)
    (hkeeps : ∀ l ∈ table, r.fd = some l.fd → l ∈ table') : r.Ok inodeOf table' := by
  obtain ⟨hfront, hpending, hlocked⟩ := h
  refine ⟨fun file rest hqueue => ?_, hpending, hlocked⟩
  obtain ⟨⟨hguarded, hheld⟩, hrest⟩ := hfront file rest hqueue
  refine ⟨⟨hguarded, fun fd hlock => hkeeps _ (hheld fd hlock) ?_⟩, hrest⟩
  have hnone : r.task.fd = none := by
    by_contra hsome
    have hwaits := (hpending hsome file rest hqueue).1
    rw [hlock] at hwaits
    exact Option.some_ne_none fd hwaits
  rw [Receiver.fd, hnone, hqueue]
  exact hlock

/-- A descriptor is given up, and another one is opened or not. Kind: L -/
theorem moves_release {old new : Option ℕ}
    (h : (new = none ∧ next' = next) ∨ (new = some next ∧ next' = next + 1)) :
    Moves old new table (release table old) next next' := by
  have hnext : next ≤ next' := by omega
  have hnew : new = none ∨ new = old ∨ (new = some next ∧ next < next') := by
    rcases h with ⟨hnone, -⟩ | ⟨hsome, hlt⟩
    · exact .inl hnone
    · exact .inr (.inr ⟨hsome, by omega⟩)
  cases old with
  | none => exact ⟨id, hnext, fun _ hmem _ => hmem, hnew⟩
  | some fd =>
      refine ⟨Exclusive.close, hnext, fun l hmem hne => mem_close.mpr ⟨hmem, ?_⟩, hnew⟩
      rintro rfl
      exact hne rfl

/-- The destruction of the front entry closes its stream, or gives up its lock. Kind: L -/
theorem moves_destroy {after : Task} (hfront : file.Front inodeOf table)
    (hrest : ∀ f ∈ rest, f.Waits) (hafter : after.fd = none) (htask : task.fd = none)
    (hready : after ≠ .truncating) (hready' : task ≠ .truncating) :
    Moves file.lock (destroyFront table after task file rest).1.fd table
        (destroyFront table after task file rest).2 next next ∧
      (destroyFront table after task file rest).1.Ok inodeOf
        (destroyFront table after task file rest).2 := by
  unfold destroyFront
  cases file.stream with
  | some pos =>
      refine ⟨.same (.inr ?_), ok_front ⟨nofun, hfront.held⟩ hrest htask fun h => absurd h hready'⟩
      simp [Receiver.fd, htask]
  | none =>
      refine ⟨?_, ok_waits hrest hready⟩
      have hnone : Receiver.fd ⟨rest, after⟩ = none := by
        rw [Receiver.fd, hafter]
        exact lock_eq_none_of_waits hrest
      rw [hnone]
      exact moves_release (.inl ⟨rfl, rfl⟩)

/-- **What a step of a queue does to the locks**, and that it keeps what holds of the queue.
Kind: P -/
theorem moves_receiver [DecidableEq ι] (e : ReceiverEvent) (h : r.Ok inodeOf table)
    (hstep : r.step inodeOf table next e = some (r', table', next')) :
    Moves r.fd r'.fd table table' next next' ∧ r'.Ok inodeOf table' := by
  obtain ⟨queue, task⟩ := r
  obtain ⟨hfront, hpending, hlocked⟩ := h
  cases e with
  | offer destination expectedSize =>
      simp only [Receiver.step] at hstep
      split at hstep
      · rw [Option.some.injEq, Prod.mk.injEq, Prod.mk.injEq] at hstep
        obtain ⟨rfl, rfl, rfl⟩ := hstep
        cases queue with
        | nil => exact ⟨.same (.inl rfl), ok_waits (by simp [Entry.Waits]) (by simp)⟩
        | cons file rest =>
            obtain ⟨hfile, hrest⟩ := hfront file rest rfl
            rw [if_neg (List.cons_ne_nil _ _)]
            refine ⟨.same (.inr rfl), ok_front hfile (fun f hf => ?_) rfl nofun⟩
            rcases List.mem_append.mp hf with hf | hf
            · exact hrest f hf
            · rw [List.mem_singleton.mp hf]
              exact ⟨rfl, rfl⟩
      · exact (Option.some_ne_none _ hstep.symm).elim
  | examine opens =>
      simp only [Receiver.step] at hstep
      split at hstep
      · rw [Option.some.injEq, Prod.mk.injEq, Prod.mk.injEq] at hstep
        obtain ⟨rfl, rfl, rfl⟩ := hstep
        exact ⟨.same (.inl rfl), ok_nil _⟩
      · rename_i file rest
        obtain ⟨hfile, hrest⟩ := hfront file rest rfl
        split at hstep
        · rw [Option.some.injEq, Prod.mk.injEq, Prod.mk.injEq] at hstep
          obtain ⟨rfl, rfl, rfl⟩ := hstep
          exact ⟨.same (.inr rfl), ok_front hfile hrest rfl nofun⟩
        · rename_i hclosed
          have hstream : file.stream = none := by simpa using hclosed
          have hwaits : ∀ f ∈ { file with lock := none } :: rest, f.Waits :=
            List.forall_mem_cons.mpr ⟨⟨rfl, hstream⟩, hrest⟩
          split at hstep
          · rw [Option.some.injEq, Prod.mk.injEq, Prod.mk.injEq] at hstep
            obtain ⟨rfl, rfl, rfl⟩ := hstep
            exact ⟨moves_release (.inr ⟨rfl, rfl⟩), ok_waits hwaits nofun⟩
          · rw [Option.some.injEq, Prod.mk.injEq, Prod.mk.injEq] at hstep
            obtain ⟨rfl, rfl, rfl⟩ := hstep
            exact ⟨moves_release (.inl ⟨rfl, rfl⟩), ok_waits hwaits nofun⟩
      · exact (Option.some_ne_none _ hstep.symm).elim
  | flock granted =>
      simp only [Receiver.step] at hstep
      split at hstep
      · rename_i fd file rest
        obtain ⟨hfile, hrest⟩ := hfront file rest rfl
        have hwaits := hpending (Option.some_ne_none fd) file rest rfl
        split at hstep
        · split at hstep
          · rename_i hcompatible
            rw [Option.some.injEq, Prod.mk.injEq, Prod.mk.injEq] at hstep
            obtain ⟨rfl, rfl, rfl⟩ := hstep
            refine ⟨.granted hcompatible, ok_front ⟨fun _ => nofun, ?_⟩ hrest rfl fun _ => nofun⟩
            intro fd' hfd'
            obtain rfl := Option.some.inj hfd'
            exact mem_lock_self
          · exact (Option.some_ne_none _ hstep.symm).elim
        · rw [Option.some.injEq, Prod.mk.injEq, Prod.mk.injEq] at hstep
          obtain ⟨rfl, rfl, rfl⟩ := hstep
          exact ⟨.same (.inr rfl), ok_waits (List.forall_mem_cons.mpr ⟨hwaits, hrest⟩) nofun⟩
      · exact (Option.some_ne_none _ hstep.symm).elim
  | closeRefused =>
      simp only [Receiver.step] at hstep
      split at hstep
      · rename_i fd
        rw [Option.some.injEq, Prod.mk.injEq, Prod.mk.injEq] at hstep
        obtain ⟨rfl, rfl, rfl⟩ := hstep
        have hwaits : ∀ f ∈ queue, f.Waits := by
          cases queue with
          | nil => exact fun f hf => absurd hf List.not_mem_nil
          | cons file rest =>
              exact List.forall_mem_cons.mpr
                ⟨hpending (Option.some_ne_none fd) file rest rfl, (hfront file rest rfl).2⟩
        have hnone : Receiver.fd ⟨queue, .popping⟩ = none := lock_eq_none_of_waits hwaits
        rw [hnone]
        exact ⟨.closed, ok_waits hwaits nofun⟩
      · exact (Option.some_ne_none _ hstep.symm).elim
  | openStream ok =>
      simp only [Receiver.step] at hstep
      split at hstep
      · rename_i file rest
        obtain ⟨hfile, hrest⟩ := hfront file rest rfl
        have hlock := hlocked rfl file rest rfl
        split at hstep
        · rw [Option.some.injEq, Prod.mk.injEq, Prod.mk.injEq] at hstep
          obtain ⟨rfl, rfl, rfl⟩ := hstep
          exact ⟨.same (.inr rfl), ok_front ⟨fun _ => hlock, hfile.held⟩ hrest rfl nofun⟩
        · rw [Option.some.injEq, Prod.mk.injEq, Prod.mk.injEq] at hstep
          obtain ⟨rfl, rfl, rfl⟩ := hstep
          exact ⟨.same (.inr rfl), ok_front hfile hrest rfl nofun⟩
      · exact (Option.some_ne_none _ hstep.symm).elim
  | inspect =>
      simp only [Receiver.step] at hstep
      split at hstep
      · rename_i file rest
        obtain ⟨hfile, hrest⟩ := hfront file rest rfl
        rw [Option.some.injEq, Prod.mk.injEq, Prod.mk.injEq] at hstep
        obtain ⟨rfl, rfl, rfl⟩ := hstep
        by_cases hempty : file.expectedSize = 0
        · rw [if_pos hempty]
          exact ⟨.same (.inr rfl), ok_front hfile hrest rfl nofun⟩
        · rw [if_neg hempty]
          exact ⟨.same (.inr rfl), ok_front hfile hrest rfl nofun⟩
      · exact (Option.some_ne_none _ hstep.symm).elim
  | chunk count ok =>
      simp only [Receiver.step] at hstep
      split at hstep
      · rename_i file rest
        obtain ⟨hfile, hrest⟩ := hfront file rest rfl
        split at hstep
        · exact (Option.some_ne_none _ hstep.symm).elim
        · rename_i pos hpos
          have hlock : file.lock ≠ none := hfile.guarded (hpos ▸ Option.some_ne_none pos)
          split at hstep
          · rw [Option.some.injEq, Prod.mk.injEq, Prod.mk.injEq] at hstep
            obtain ⟨rfl, rfl, rfl⟩ := hstep
            exact ⟨.same (.inr rfl), ok_front ⟨fun _ => hlock, hfile.held⟩ hrest rfl nofun⟩
          · rw [Option.some.injEq, Prod.mk.injEq, Prod.mk.injEq] at hstep
            obtain ⟨rfl, rfl, rfl⟩ := hstep
            exact ⟨.same (.inr rfl), ok_front ⟨fun _ => hlock, hfile.held⟩ hrest rfl nofun⟩
      · exact (Option.some_ne_none _ hstep.symm).elim
  | closeStream =>
      simp only [Receiver.step] at hstep
      split at hstep
      · rename_i file rest
        obtain ⟨hfile, hrest⟩ := hfront file rest rfl
        rw [Option.some.injEq, Prod.mk.injEq, Prod.mk.injEq] at hstep
        obtain ⟨rfl, rfl, rfl⟩ := hstep
        exact ⟨.same (.inr rfl), ok_front ⟨nofun, hfile.held⟩ hrest rfl nofun⟩
      · exact (Option.some_ne_none _ hstep.symm).elim
  | destroy =>
      simp only [Receiver.step] at hstep
      split at hstep
      · rename_i file rest
        obtain ⟨hfile, hrest⟩ := hfront file rest rfl
        rw [Option.some.injEq, Prod.mk.injEq, Prod.mk.injEq] at hstep
        obtain ⟨rfl, rfl, rfl⟩ := hstep
        exact moves_destroy hfile hrest rfl rfl nofun nofun
      · rename_i file rest
        obtain ⟨hfile, hrest⟩ := hfront file rest rfl
        rw [Option.some.injEq, Prod.mk.injEq, Prod.mk.injEq] at hstep
        obtain ⟨rfl, rfl, rfl⟩ := hstep
        exact moves_destroy hfile hrest rfl rfl nofun nofun
      · rw [Option.some.injEq, Prod.mk.injEq, Prod.mk.injEq] at hstep
        obtain ⟨rfl, rfl, rfl⟩ := hstep
        exact ⟨.same (.inl rfl), ok_nil _⟩
      · exact (Option.some_ne_none _ hstep.symm).elim
  | drop =>
      simp only [Receiver.step] at hstep
      split at hstep
      · rw [Option.some.injEq, Prod.mk.injEq, Prod.mk.injEq] at hstep
        obtain ⟨rfl, rfl, rfl⟩ := hstep
        exact ⟨.same (.inr rfl), hfront, fun h => absurd rfl h, nofun⟩
      · exact (Option.some_ne_none _ hstep.symm).elim

/-! ## One worker -/

/-- The descriptor that a worker has. Kind: D -/
def Sending.fd : Sending → Option ℕ
  | .idle => none
  | .acquiring fd _ => some fd
  | .refused fd => some fd
  | .locked fd _ => some fd
  | .reading fd _ => some fd
  | .closed fd => some fd

/-- What holds of a worker between two steps: it has its file open under a shared lock. Kind: D -/
def Sending.Ok (inodeOf : Str → ι) (table : Table ι) (s : Sending) : Prop :=
  ∀ fd path, s = .locked fd path ∨ s = .reading fd path → ⟨fd, inodeOf path, false⟩ ∈ table

variable {s s' : Sending}

/-- A worker keeps its lock while others change theirs. Kind: L -/
theorem Sending.Ok.of_keeps (h : s.Ok inodeOf table)
    (hkeeps : ∀ l ∈ table, s.fd = some l.fd → l ∈ table') : s.Ok inodeOf table' := by
  intro fd path hs
  refine hkeeps _ (h fd path hs) ?_
  rcases hs with rfl | rfl
  · rfl
  · rfl

/-- **What a step of a worker does to the locks**, and that it keeps what holds of the worker.
Kind: P -/
theorem moves_sending [DecidableEq ι] (e : SendingEvent) (h : s.Ok inodeOf table)
    (hstep : s.step inodeOf table next e = some (s', table', next')) :
    Moves s.fd s'.fd table table' next next' ∧ s'.Ok inodeOf table' := by
  cases e with
  | openLock path opens =>
      simp only [Sending.step] at hstep
      split at hstep
      · split at hstep
        · rw [Option.some.injEq, Prod.mk.injEq, Prod.mk.injEq] at hstep
          obtain ⟨rfl, rfl, rfl⟩ := hstep
          exact ⟨.opened, fun fd path hs => by simp at hs⟩
        · rw [Option.some.injEq, Prod.mk.injEq, Prod.mk.injEq] at hstep
          obtain ⟨rfl, rfl, rfl⟩ := hstep
          exact ⟨.same (.inl rfl), h⟩
      · exact (Option.some_ne_none _ hstep.symm).elim
  | flock granted =>
      simp only [Sending.step] at hstep
      split at hstep
      · rename_i fd path
        split at hstep
        · split at hstep
          · rename_i hcompatible
            rw [Option.some.injEq, Prod.mk.injEq, Prod.mk.injEq] at hstep
            obtain ⟨rfl, rfl, rfl⟩ := hstep
            refine ⟨.granted hcompatible, fun fd' path' hs => ?_⟩
            obtain ⟨rfl, rfl⟩ : fd = fd' ∧ path = path' := by simpa using hs
            exact mem_lock_self
          · exact (Option.some_ne_none _ hstep.symm).elim
        · rw [Option.some.injEq, Prod.mk.injEq, Prod.mk.injEq] at hstep
          obtain ⟨rfl, rfl, rfl⟩ := hstep
          exact ⟨.same (.inr rfl), fun fd path hs => by simp at hs⟩
      · exact (Option.some_ne_none _ hstep.symm).elim
  | closeRefused =>
      simp only [Sending.step] at hstep
      split at hstep
      · rw [Option.some.injEq, Prod.mk.injEq, Prod.mk.injEq] at hstep
        obtain ⟨rfl, rfl, rfl⟩ := hstep
        exact ⟨.closed, fun fd path hs => by simp at hs⟩
      · exact (Option.some_ne_none _ hstep.symm).elim
  | openStream ok =>
      simp only [Sending.step] at hstep
      split at hstep
      · rename_i fd path
        rw [Option.some.injEq, Prod.mk.injEq, Prod.mk.injEq] at hstep
        obtain ⟨rfl, rfl, rfl⟩ := hstep
        cases ok with
        | true =>
            refine ⟨.same (.inr rfl), fun fd' path' hs => ?_⟩
            obtain ⟨rfl, rfl⟩ : fd = fd' ∧ path = path' := by simpa using hs
            exact h fd path (.inl rfl)
        | false => exact ⟨.same (.inr rfl), fun fd path hs => by simp at hs⟩
      · exact (Option.some_ne_none _ hstep.symm).elim
  | read =>
      simp only [Sending.step] at hstep
      split at hstep
      · rw [Option.some.injEq, Prod.mk.injEq, Prod.mk.injEq] at hstep
        obtain ⟨rfl, rfl, rfl⟩ := hstep
        exact ⟨.same (.inr rfl), h⟩
      · exact (Option.some_ne_none _ hstep.symm).elim
  | close =>
      simp only [Sending.step] at hstep
      split at hstep
      · rw [Option.some.injEq, Prod.mk.injEq, Prod.mk.injEq] at hstep
        obtain ⟨rfl, rfl, rfl⟩ := hstep
        exact ⟨.same (.inr rfl), fun fd path hs => by simp at hs⟩
      · exact (Option.some_ne_none _ hstep.symm).elim
  | release =>
      simp only [Sending.step] at hstep
      split at hstep
      · rw [Option.some.injEq, Prod.mk.injEq, Prod.mk.injEq] at hstep
        obtain ⟨rfl, rfl, rfl⟩ := hstep
        exact ⟨.closed, fun fd path hs => by simp at hs⟩
      · exact (Option.some_ne_none _ hstep.symm).elim

end

/-! ## All of them, at any time -/

section

variable {ι ω : Type} {inodeOf : Str → ι} {s s' : Transfers ι ω}

/-- The descriptor of a queue or a worker. Kind: D -/
def Transfers.fdOf (s : Transfers ι ω) : PeerRoomKey ⊕ ω → Option ℕ
  | .inl key => (s.receivers key).fd
  | .inr worker => (s.senders worker).fd

/-- What holds between two steps. Kind: D -/
structure Sound (inodeOf : Str → ι) (s : Transfers ι ω) : Prop where
  exclusive : Exclusive s.table
  distinct : Distinct s.fdOf s.next
  receivers : ∀ key, (s.receivers key).Ok inodeOf s.table
  senders : ∀ worker, (s.senders worker).Ok inodeOf s.table

/-- At first nobody has anything. Kind: L -/
theorem sound_initial : Sound inodeOf ({} : Transfers ι ω) where
  exclusive := nofun
  distinct := by
    refine ⟨fun a b fd ha => ?_, fun a fd ha => ?_⟩
    · cases a <;> exact (Option.some_ne_none _ ha.symm).elim
    · cases a <;> exact (Option.some_ne_none _ ha.symm).elim
  receivers _ := ok_nil _
  senders _ fd path hs := by simp at hs

variable [DecidableEq ι] [DecidableEq ω]

/-- **Every step keeps this.** Kind: P -/
theorem sound_step (e : Event ω) (hs : Sound inodeOf s) (hstep : step inodeOf s e = some s') :
    Sound inodeOf s' := by
  obtain ⟨hexclusive, hdistinct, hreceivers, hsenders⟩ := hs
  -- Who does not move keeps its lock: the descriptor is another one.
  have hkeeps : ∀ {a b new table' next'}, Moves (s.fdOf a) new s.table table' s.next next' → b ≠ a →
      ∀ l ∈ s.table, s.fdOf b = some l.fd → l ∈ table' := by
    intro a b new table' next' hmoves hne l hl hfd
    exact hmoves.keeps l hl fun hfd' => hne (hdistinct.one b a l.fd hfd hfd')
  cases e with
  | receive key e =>
      obtain ⟨⟨r, table, next⟩, hr, rfl⟩ := Option.map_eq_some_iff.mp hstep
      obtain ⟨hmoves, hok⟩ := moves_receiver e (hreceivers key) hr
      refine ⟨hmoves.exclusive hexclusive, ?_, fun key' => ?_, fun worker => ?_⟩
      · have hfd : Transfers.fdOf { s with
            table := table
            next := next
            receivers := Function.update s.receivers key r } =
              Function.update s.fdOf (.inl key) r.fd := by
          funext a
          cases a with
          | inl key' =>
              by_cases hne : key' = key
              · subst hne
                simp [Transfers.fdOf]
              · simp [Transfers.fdOf, hne]
          | inr worker => simp [Transfers.fdOf]
        rw [hfd]
        exact hdistinct.move hmoves
      · by_cases hne : key' = key
        · subst hne
          simp only [Function.update_self]
          exact hok
        · simp only [Function.update_of_ne hne]
          exact (hreceivers key').of_keeps (@hkeeps (.inl key) (.inl key') _ _ _ hmoves (by simpa))
      · exact (hsenders worker).of_keeps (@hkeeps (.inl key) (.inr worker) _ _ _ hmoves nofun)
  | send worker e =>
      obtain ⟨⟨r, table, next⟩, hr, rfl⟩ := Option.map_eq_some_iff.mp hstep
      obtain ⟨hmoves, hok⟩ := moves_sending e (hsenders worker) hr
      refine ⟨hmoves.exclusive hexclusive, ?_, fun key => ?_, fun worker' => ?_⟩
      · have hfd : Transfers.fdOf { s with
            table := table
            next := next
            senders := Function.update s.senders worker r } =
              Function.update s.fdOf (.inr worker) r.fd := by
          funext a
          cases a with
          | inl key => simp [Transfers.fdOf]
          | inr worker' =>
              by_cases hne : worker' = worker
              · subst hne
                simp [Transfers.fdOf]
              · simp [Transfers.fdOf, hne]
        rw [hfd]
        exact hdistinct.move hmoves
      · exact (hreceivers key).of_keeps (@hkeeps (.inr worker) (.inl key) _ _ _ hmoves nofun)
      · by_cases hne : worker' = worker
        · subst hne
          simp only [Function.update_self]
          exact hok
        · simp only [Function.update_of_ne hne]
          exact (hsenders worker').of_keeps
            (@hkeeps (.inr worker) (.inr worker') _ _ _ hmoves (by simpa))

omit [DecidableEq ι] [DecidableEq ω] in
/-- An entry whose stream is open is the front one, and has its destination locked. Kind: L -/
theorem Sound.locked_of_open (hs : Sound inodeOf s) {key : PeerRoomKey} {i : ℕ} {file : Entry}
    (hfile : (s.receivers key).queue[i]? = some file) (hopen : file.stream ≠ none) :
    i = 0 ∧ ∃ fd, s.fdOf (.inl key) = some fd ∧ ⟨fd, inodeOf file.destination, true⟩ ∈ s.table := by
  have hok := hs.receivers key
  cases hqueue : (s.receivers key).queue with
  | nil =>
      rw [hqueue] at hfile
      exact absurd hfile nofun
  | cons front rest =>
      obtain ⟨hfront, hrest⟩ := hok.front front rest hqueue
      rw [hqueue] at hfile
      cases i with
      | succ i =>
          rw [List.getElem?_cons_succ] at hfile
          exact absurd (hrest file (List.mem_of_getElem? hfile)).2 hopen
      | zero =>
          obtain rfl := Option.some.inj hfile
          obtain ⟨fd, hfd⟩ := Option.ne_none_iff_exists'.mp (hfront.guarded hopen)
          have hnone : (s.receivers key).task.fd = none := by
            by_contra hsome
            exact hopen (hok.pending hsome front rest hqueue).2
          refine ⟨rfl, fd, ?_, hfront.held fd hfd⟩
          rw [Transfers.fdOf, Receiver.fd, hnone, hqueue]
          exact hfd

omit [DecidableEq ι] [DecidableEq ω] in
/-- **What holds excludes what must not be.** Kind: P -/
theorem Sound.excluded (hs : Sound inodeOf s) : Excluded inodeOf s := by
  constructor
  · intro worker fd path hreading key file hfile hopen hsame
    obtain ⟨i, hi⟩ := List.getElem?_of_mem hfile
    obtain ⟨-, fd', hfd', hlocked⟩ := hs.locked_of_open hi hopen
    have hshared := hs.senders worker fd path (.inr hreading)
    rw [hsame] at hlocked
    exact Bool.false_ne_true (hs.exclusive.fd_eq hlocked hshared).2
  · intro key key' i i' file file' hfile hfile' hopen hopen' hsame
    obtain ⟨rfl, fd, hfd, hlocked⟩ := hs.locked_of_open hfile hopen
    obtain ⟨rfl, fd', hfd', hlocked'⟩ := hs.locked_of_open hfile' hopen'
    rw [hsame] at hlocked
    obtain rfl := (hs.exclusive.fd_eq hlocked hlocked').1
    exact ⟨Sum.inl.inj (hs.distinct.one _ _ fd hfd hfd'), rfl⟩

/-- **A file is never read for sending while it is being received**, nor received twice at once,
in any run. Kind: P -/
theorem excluded_always (inodeOf : Str → ι) (es : List (Event ω)) :
    Runs.Always (step inodeOf) (Excluded inodeOf) ({} : Transfers ι ω) es := by
  have hsound : Runs.Always (step inodeOf) (Sound inodeOf) ({} : Transfers ι ω) es :=
    Runs.always_of_invariant _ (fun _ e _ hs hstep => sound_step e hs hstep) sound_initial
  exact hsound.imp _ fun _ hs => hs.excluded

/-- The worker waits for its lock while the file is received, and gets it afterwards. -/
example :
    let key := (str "ann", str "den")
    let receiving := [.offer (str "f") 2, .examine true, .flock true, .openStream true, .inspect,
      .examine true].map (Event.receive key)
    let sending := [.openLock (str "f") true, .flock true, .openStream true, .read].map (Event.send ())
    let finishing := [.chunk 2 true, .closeStream, .destroy].map (Event.receive key)
    (Runs.run (step id) {} (receiving ++ sending)).isNone ∧
      (Runs.run (step id) {} (receiving ++ finishing ++ sending)).isSome := by
  decide

end

end Locking

end CloudNode
