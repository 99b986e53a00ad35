import CloudNode.Wire.Text

/-!
# Receiving files

The receiver keeps, for every peer and room, a queue of the files it accepted; the front one is
being written. Nothing on the data channel says where a file ends: a file is complete when as many
bytes have arrived as its offer announced.

* `startNextIncoming` — open the next file of a queue, dropping those whose destination cannot be
  locked or opened and completing empty ones on the way.
* `onFileOffer`, `onIncomingChunk` — an accepted offer joins the queue, arriving bytes go to its
  front.
* `WellFormed` — the queues between two calls: stored queues are not empty, the front file is open
  and misses bytes, the files behind it are not open.

Bytes are of any type `β` and entries carry the offer they are for, of any type `ι`, so that the
results about whole transfers can tell where a byte came from. What the file system answers is an
argument of the functions.
-/

namespace CloudNode

/-- What preparing a destination comes to: the file cannot be opened for locking, another holder
has its lock, it is locked but its stream does not open, or it is locked, truncated and open.
Source: `FileLock.hpp`, `Acquire`; `WebRTCClient.cpp`, `StartNextIncoming`
Kind: D -/
inductive Preparation where
  | absent
  | locked
  | unopenable
  | ready
  deriving DecidableEq

/-- Source: `WebRTCClient.hpp`, `IncomingFile`; `offer` names the offer it was accepted for, and
`stream` is the write position of an open stream. Kind: D -/
structure IncomingFile (ι : Type) where
  offer : ι
  expectedSize : ℤ
  destination : Str
  lock : Bool := false
  stream : Option ℕ := none

/-- What became of an accepted file, in the order it happened. Kind: D -/
inductive Receipt (ι β : Type) where
  /-- Its destination could not be locked or opened; its entry is gone. -/
  | dropped (offer : ι)
  | wrote (offer : ι) (bytes : List β)
  /-- It has its announced size; `held` is what its destination holds then. -/
  | completed (offer : ι) (held : List β)
  /-- It grew beyond its announced size; its entry is gone. -/
  | exceeded (offer : ι)
  /-- Writing it failed; its entry is gone. -/
  | failed (offer : ι)

/-- The receiver's side of the file system, with the paths whose change is its own doing.
Source: `WebRTCClient.hpp`, `m_receivedPaths`
Kind: D -/
structure Files (ι β : Type) where
  receivedPaths : Std.ExtTreeSet Str := ∅
  disk : Std.ExtTreeMap Str (List β) := ∅
  log : List (Receipt ι β) := []

/-- Source: `WebRTCClient.hpp`, `m_incomingFiles`. Kind: D -/
structure Incoming (ι β : Type) where
  incomingFiles : Std.ExtTreeMap PeerRoomKey (List (IncomingFile ι)) := ∅
  files : Files ι β := {}

variable {ι β : Type}

namespace Files

/-- The content of a file; one that is missing reads as empty. Kind: D -/
def content (s : Files ι β) (path : Str) : List β := s.disk[path]?.getD []

/-- Append to the log. Kind: D -/
def note (s : Files ι β) (r : Receipt ι β) : Files ι β := { s with log := s.log ++ [r] }

/-- `O_CREAT`: a file that is missing is created. Kind: D -/
def create (s : Files ι β) (path : Str) : Files ι β :=
  { s with disk := s.disk.insert path (s.content path) }

/-- `std::ios::trunc`. Kind: D -/
def truncate (s : Files ι β) (path : Str) : Files ι β := { s with disk := s.disk.insert path [] }

/-- Write at a position, over what is there. Kind: D -/
def writeAt (s : Files ι β) (path : Str) (pos : ℕ) (bytes : List β) : Files ι β :=
  let old := s.content path
  { s with disk := s.disk.insert path (old.take pos ++ bytes ++ old.drop (pos + bytes.length)) }

/-- The path is one whose change is the receiver's own doing. Kind: D -/
def received (s : Files ι β) (path : Str) : Files ι β :=
  { s with receivedPaths := s.receivedPaths.insert path }

end Files

namespace Incoming

variable (absolute : Str → Str)

/-- The loop over a queue whose front is not open, with the answers of the file system to its
turns. `absolute` is `fs::absolute(..).lexically_normal().string()`.
Source: `WebRTCClient.cpp`, `StartNextIncoming`
Kind: D -/
def startNextIncoming (prepare : ℕ → Preparation) :
    List (IncomingFile ι) → Files ι β → List (IncomingFile ι) × Files ι β
  | [], s => ([], s)
  | next :: rest, s =>
    if next.stream.isSome then (next :: rest, s)
    else
      let again := startNextIncoming (fun i => prepare (i + 1)) rest
      match prepare 0 with
      | .absent => again (s.note (.dropped next.offer))
      | .locked => again ((s.create next.destination).note (.dropped next.offer))
      | .unopenable => again ((s.create next.destination).note (.dropped next.offer))
      | .ready =>
        let s := s.truncate next.destination
        if next.expectedSize = 0 then
          again ((s.received (absolute next.destination)).note
            (.completed next.offer (s.content next.destination)))
        else ({ next with lock := true, stream := some 0 } :: rest, s)

/-- Put a queue back, or forget it when nothing is left in it.
Source: `WebRTCClient.cpp`, `OnFileOffer` and `OnIncomingChunk`, `m_incomingFiles.erase(..)`
Kind: D -/
def store (key : PeerRoomKey) (out : List (IncomingFile ι) × Files ι β) (s : Incoming ι β) :
    Incoming ι β where
  incomingFiles := if out.1.isEmpty then s.incomingFiles.erase key
    else s.incomingFiles.insert key out.1
  files := out.2

/-- An accepted offer joins its queue.
Source: `WebRTCClient.cpp`, `OnFileOffer`, the block under `m_incomingMutex`
Kind: D -/
def enqueue (prepare : ℕ → Preparation) (key : PeerRoomKey) (file : IncomingFile ι)
    (s : Incoming ι β) : Incoming ι β :=
  let queue := s.incomingFiles[key]?.getD [] ++ [file]
  s.store key (if queue.length = 1 then startNextIncoming absolute prepare queue s.files
    else (queue, s.files))

/-- The front file is done with: it makes room for the next.
Source: `WebRTCClient.cpp`, `OnIncomingChunk`, the branch under `finished`
Kind: D -/
def finish (prepare : ℕ → Preparation) (key : PeerRoomKey) (file : IncomingFile ι)
    (rest : List (IncomingFile ι)) (files : Files ι β) (s : Incoming ι β) : Incoming ι β :=
  s.store key
    (startNextIncoming absolute prepare rest (files.received (absolute file.destination)))

/-- A binary message arrives. `cut` is `none` when the write succeeds, and otherwise how many of
the bytes still reached the file. The result says whether the message completed a file.
Source: `WebRTCClient.cpp`, `OnIncomingChunk`
Kind: D -/
def onIncomingChunk (prepare : ℕ → Preparation) (cut : Option ℕ) (key : PeerRoomKey)
    (bytes : List β) (s : Incoming ι β) : Bool × Incoming ι β :=
  match s.incomingFiles[key]? with
  | some (file :: rest) =>
    match file.stream with
    | none => (false, s)
    | some pos =>
      match cut with
      | some n =>
        let files := (s.files.writeAt file.destination pos (bytes.take n)).note
          (.wrote file.offer (bytes.take n))
        (false, finish absolute prepare key file rest (files.note (.failed file.offer)) s)
      | none =>
        let files := (s.files.writeAt file.destination pos bytes).note (.wrote file.offer bytes)
        let bytesWritten := pos + bytes.length
        if bytesWritten = file.expectedSize then
          (true, finish absolute prepare key file rest
            (files.note (.completed file.offer (files.content file.destination))) s)
        else if bytesWritten > file.expectedSize then
          (false, finish absolute prepare key file rest (files.note (.exceeded file.offer)) s)
        else
          (false, {
            incomingFiles := s.incomingFiles.insert key
              ({ file with stream := some bytesWritten } :: rest)
            files := files })
  | _ => (false, s)

/-- What `OnFileOffer` makes of an offer before it touches a queue: it answers nothing (the name
leads out of the directory, or the destination's directories cannot be created), it has the file
already, or it accepts it into a destination. Kind: D -/
inductive Verdict where
  | refused
  | duplicate
  | accepted (destination : Str)

/-- Source: `WebRTCClient.cpp`, `SendFileAccept` and `SendFileReject`. Kind: D -/
inductive Response where
  | accept
  | reject
  deriving DecidableEq

/-- An offer arrives; a size that is not a 64-bit integer makes its metadata invalid.
Source: `WebRTCClient.cpp`, `OnFileOffer`
Kind: D -/
def onFileOffer (prepare : ℕ → Preparation) (key : PeerRoomKey) (offer : ι) (size : ℤ)
    (verdict : Verdict) (s : Incoming ι β) : Option Response × Incoming ι β :=
  if -2 ^ 63 ≤ size ∧ size < 2 ^ 63 then
    match verdict with
    | .refused => (none, s)
    | .duplicate => (some .reject, s)
    | .accepted destination =>
      (some .accept, enqueue absolute prepare key
        { offer := offer, expectedSize := size, destination := destination } s)
  else (none, s)

end Incoming

/-! ## Files -/

namespace Files

variable (s : Files ι β) (path : Str)

/-- What a truncated file holds. Kind: L -/
@[simp] theorem content_truncate : (s.truncate path).content path = [] := by
  simp [truncate, content]

/-- A note is not a write. Kind: L -/
@[simp] theorem content_note (r : Receipt ι β) : (s.note r).content path = s.content path := rfl

/-- A received path is not logged. Kind: L -/
@[simp] theorem log_received : (s.received path).log = s.log := rfl

/-- A note is appended to the log. Kind: L -/
@[simp] theorem log_note (r : Receipt ι β) : (s.note r).log = s.log ++ [r] := rfl

/-- Writing at the end of a file appends to it. Kind: L -/
theorem content_writeAt_end {pos : ℕ} (hpos : (s.content path).length = pos) (bytes : List β) :
    (s.writeAt path pos bytes).content path = s.content path ++ bytes := by
  have hread : (s.writeAt path pos bytes).content path =
      (s.content path).take pos ++ bytes ++ (s.content path).drop (pos + bytes.length) := by
    simp [writeAt, content]
  rw [hread, List.take_of_length_le (by omega), List.drop_eq_nil_of_le (by omega),
    List.append_nil]

end Files

namespace Incoming

variable (absolute : Str → Str)

/-! ## Opening the next file -/

/-- What `startNextIncoming` does to a queue without an open file: entries are dropped (only if
some preparation fails) or are empty and complete, until one is opened or none is left. Kind: D -/
inductive Started (faulty : Prop) :
    List (IncomingFile ι) → Files ι β → List (IncomingFile ι) × Files ι β → Prop
  | nil (s : Files ι β) : Started faulty [] s ([], s)
  | dropped {next : IncomingFile ι} {rest : List (IncomingFile ι)} {s s' : Files ι β}
      {out : List (IncomingFile ι) × Files ι β} (hfaulty : faulty)
      (hlog : s'.log = s.log ++ [.dropped next.offer]) (hrest : Started faulty rest s' out) :
      Started faulty (next :: rest) s out
  | empty {next : IncomingFile ι} {rest : List (IncomingFile ι)} {s s' : Files ι β}
      {out : List (IncomingFile ι) × Files ι β} (hsize : next.expectedSize = 0)
      (hlog : s'.log = s.log ++ [.completed next.offer []]) (hrest : Started faulty rest s' out) :
      Started faulty (next :: rest) s out
  | opened {next : IncomingFile ι} {rest : List (IncomingFile ι)} {s s' : Files ι β}
      (hsize : next.expectedSize ≠ 0) (hlog : s'.log = s.log)
      (hcontent : s'.content next.destination = []) :
      Started faulty (next :: rest) s ({ next with lock := true, stream := some 0 } :: rest, s')

/-- Fewer faults than feared. Kind: L -/
theorem Started.mono {faulty faulty' : Prop} (himp : faulty → faulty')
    {queue : List (IncomingFile ι)} {s : Files ι β} {out : List (IncomingFile ι) × Files ι β}
    (h : Started faulty queue s out) : Started faulty' queue s out := by
  induction h with
  | nil s => exact .nil s
  | dropped hfaulty hlog _ ih => exact .dropped (himp hfaulty) hlog ih
  | empty hsize hlog _ ih => exact .empty hsize hlog ih
  | opened hsize hlog hcontent => exact .opened hsize hlog hcontent

/-- **Everything `startNextIncoming` can do.** Kind: P -/
theorem started_startNextIncoming (prepare : ℕ → Preparation) (queue : List (IncomingFile ι))
    (s : Files ι β) (hclosed : ∀ file ∈ queue, file.stream = none) :
    Started (∃ i, prepare i ≠ .ready) queue s (startNextIncoming absolute prepare queue s) := by
  induction queue generalizing prepare s with
  | nil => exact .nil s
  | cons next rest ih =>
      have hnext : next.stream = none := hclosed next (List.mem_cons_self ..)
      have hagain : ∀ s' : Files ι β, Started (∃ i, prepare i ≠ .ready) rest s'
          (startNextIncoming absolute (fun i => prepare (i + 1)) rest s') := by
        intro s'
        refine Started.mono ?_ (ih _ s' fun file hfile => hclosed file (List.mem_cons_of_mem _ hfile))
        rintro ⟨i, hi⟩
        exact ⟨i + 1, hi⟩
      unfold startNextIncoming
      rw [hnext, if_neg (by simp)]
      cases hprepare : prepare 0 with
      | absent => exact .dropped ⟨0, by rw [hprepare]; decide⟩ rfl (hagain _)
      | locked => exact .dropped ⟨0, by rw [hprepare]; decide⟩ rfl (hagain _)
      | unopenable => exact .dropped ⟨0, by rw [hprepare]; decide⟩ rfl (hagain _)
      | ready =>
          by_cases hsize : next.expectedSize = 0
          · simp only [if_pos hsize, Files.content_truncate]
            exact .empty hsize rfl (hagain _)
          · simp only [if_neg hsize]
            exact .opened hsize rfl (Files.content_truncate _ _)

/-! ## Queues between two calls -/

/-- A queue as the functions leave it: the front file is open, locked and misses bytes, those
behind it wait. Kind: D -/
def QueueOk : List (IncomingFile ι) → Prop
  | [] => True
  | front :: rest =>
    (front.lock = true ∧ front.expectedSize ≠ 0 ∧
      ∃ pos : ℕ, front.stream = some pos ∧ (pos = 0 ∨ (pos : ℤ) < front.expectedSize)) ∧
    ∀ file ∈ rest, file.lock = false ∧ file.stream = none

/-- The queue of a peer and room; no queue reads as an empty one. Kind: D -/
def queueOf (s : Incoming ι β) (key : PeerRoomKey) : List (IncomingFile ι) :=
  s.incomingFiles[key]?.getD []

/-- The queues between two calls: those that are stored are not empty. Kind: D -/
structure WellFormed (s : Incoming ι β) : Prop where
  stored : ∀ (key : PeerRoomKey) (queue : List (IncomingFile ι)),
    s.incomingFiles[key]? = some queue → queue ≠ []
  ok : ∀ key : PeerRoomKey, QueueOk (s.queueOf key)

section store

variable {s : Incoming ι β} {key other : PeerRoomKey} {out : List (IncomingFile ι) × Files ι β}

/-- The queue that was put back. Kind: L -/
@[simp] theorem queueOf_store_same : (s.store key out).queueOf key = out.1 := by
  unfold store queueOf
  dsimp only
  split
  · rename_i hempty
    rw [getElem?_erase_eq, if_pos rfl, List.isEmpty_iff.mp hempty]
    rfl
  · rw [getElem?_insert_same]
    rfl

/-- The queues that were left alone. Kind: L -/
theorem queueOf_store_ne (h : key ≠ other) : (s.store key out).queueOf other = s.queueOf other := by
  unfold store queueOf
  dsimp only
  split
  · rw [getElem?_erase_ne _ h]
  · rw [getElem?_insert_ne _ _ h]

/-- The file system after a queue was put back. Kind: L -/
@[simp] theorem files_store : (s.store key out).files = out.2 := rfl

/-- Putting back a queue that is fine. Kind: L -/
theorem wellFormed_store (h : WellFormed s) (hout : QueueOk out.1) : WellFormed (s.store key out) := by
  constructor
  · intro other queue hqueue
    unfold store at hqueue
    dsimp only at hqueue
    split at hqueue
    · rw [getElem?_erase_eq] at hqueue
      split at hqueue
      · cases hqueue
      · exact h.stored other queue hqueue
    · rename_i hempty
      rw [getElem?_insert_eq] at hqueue
      split at hqueue
      · rw [Option.some.injEq] at hqueue
        rintro rfl
        exact hempty (by rw [hqueue]; rfl)
      · exact h.stored other queue hqueue
  · intro other
    by_cases hkey : key = other
    · subst hkey
      rwa [queueOf_store_same]
    · rw [queueOf_store_ne hkey]
      exact h.ok other

/-- A stored queue, with its front file. Kind: L -/
theorem getElem?_of_queueOf {file : IncomingFile ι} {rest : List (IncomingFile ι)}
    (h : s.queueOf key = file :: rest) : s.incomingFiles[key]? = some (file :: rest) := by
  unfold queueOf at h
  cases hkey : s.incomingFiles[key]? with
  | none => simp [hkey] at h
  | some queue => simpa [hkey] using h

/-- No queue is stored where none reads. Kind: L -/
theorem getElem?_of_queueOf_nil (hs : WellFormed s) (h : s.queueOf key = []) :
    s.incomingFiles[key]? = none := by
  cases hkey : s.incomingFiles[key]? with
  | none => rfl
  | some queue =>
      have hqueue : queue = [] := by simpa [queueOf, hkey] using h
      exact (hs.stored key queue hkey hqueue).elim

/-- A queue is in order, front file and all. Kind: L -/
theorem WellFormed.queueOk (hs : WellFormed s) {front : IncomingFile ι}
    {rest : List (IncomingFile ι)} (h : s.queueOf key = front :: rest) :
    QueueOk (front :: rest) :=
  h ▸ hs.ok key

end store

/-- What is left of a queue is in order. Kind: L -/
theorem Started.queueOk {faulty : Prop} {queue : List (IncomingFile ι)} {s : Files ι β}
    {out : List (IncomingFile ι) × Files ι β} (h : Started faulty queue s out)
    (hclosed : ∀ file ∈ queue, file.lock = false ∧ file.stream = none) : QueueOk out.1 := by
  induction h with
  | nil s => trivial
  | dropped _ _ _ ih => exact ih fun file hfile => hclosed file (List.mem_cons_of_mem _ hfile)
  | empty _ _ _ ih => exact ih fun file hfile => hclosed file (List.mem_cons_of_mem _ hfile)
  | opened hsize _ _ =>
      exact ⟨⟨rfl, hsize, 0, rfl, .inl rfl⟩, fun file hfile => hclosed file (List.mem_cons_of_mem _ hfile)⟩

/-! ## The two calls -/

section calls

variable {s : Incoming ι β} {key : PeerRoomKey} {prepare : ℕ → Preparation} {cut : Option ℕ}
  {bytes : List β} {front file : IncomingFile ι} {rest : List (IncomingFile ι)} {pos : ℕ}

/-- The files behind a front wait. Kind: L -/
theorem waiting_of_queueOk (h : QueueOk (front :: rest)) :
    ∀ file ∈ rest, file.lock = false ∧ file.stream = none := h.2

/-- The front of a queue is open. Kind: L -/
theorem open_of_queueOk (h : QueueOk (front :: rest)) : ∃ pos, front.stream = some pos := by
  obtain ⟨⟨-, -, pos, hpos, -⟩, -⟩ := h
  exact ⟨pos, hpos⟩

/-- A waiting queue is started without a look at streams. Kind: L -/
theorem started_of_waiting (prepare : ℕ → Preparation) (files : Files ι β)
    (h : ∀ file ∈ rest, file.lock = false ∧ file.stream = none) :
    Started (∃ i, prepare i ≠ .ready) rest files (startNextIncoming absolute prepare rest files) :=
  started_startNextIncoming absolute prepare rest files fun file hfile => (h file hfile).2

/-- An accepted offer that finds no queue is started. Kind: L -/
theorem enqueue_of_empty (h : s.queueOf key = []) : enqueue absolute prepare key file s =
    s.store key (startNextIncoming absolute prepare [file] s.files) := by
  have hqueue : s.incomingFiles[key]?.getD [] = [] := h
  unfold enqueue
  simp only [hqueue, List.nil_append, List.length_singleton, if_true]

/-- An accepted offer that finds a queue waits at its end. Kind: L -/
theorem enqueue_of_queue (h : s.queueOf key = front :: rest) :
    enqueue absolute prepare key file s = s.store key (front :: rest ++ [file], s.files) := by
  have hqueue : s.incomingFiles[key]?.getD [] = front :: rest := h
  unfold enqueue
  simp only [hqueue]
  rw [if_neg (by simp)]

/-- A message that finds no queue is ignored. Kind: L -/
theorem onIncomingChunk_of_empty (hs : WellFormed s) (h : s.queueOf key = []) :
    onIncomingChunk absolute prepare cut key bytes s = (false, s) := by
  unfold onIncomingChunk
  rw [getElem?_of_queueOf_nil hs h]

/-- The file system after a write that succeeds. Kind: D -/
def wrote (file : IncomingFile ι) (pos : ℕ) (bytes : List β) (files : Files ι β) : Files ι β :=
  (files.writeAt file.destination pos bytes).note (.wrote file.offer bytes)

/-- A write is noted. Kind: L -/
@[simp] theorem log_wrote (files : Files ι β) :
    (wrote file pos bytes files).log = files.log ++ [.wrote file.offer bytes] := rfl

/-- What a file holds after a write. Kind: L -/
theorem mem_content_wrote {files : Files ι β} {b : β}
    (h : b ∈ (wrote file pos bytes files).content file.destination) :
    b ∈ files.content file.destination ∨ b ∈ bytes := by
  have hread : (wrote file pos bytes files).content file.destination =
      (files.content file.destination).take pos ++ bytes ++
        (files.content file.destination).drop (pos + bytes.length) := by
    simp [wrote, Files.note, Files.writeAt, Files.content]
  rw [hread, List.mem_append, List.mem_append] at h
  rcases h with (h | h) | h
  · exact .inl (List.mem_of_mem_take h)
  · exact .inr h
  · exact .inl (List.mem_of_mem_drop h)

/-- A message that completes the front file. Kind: L -/
theorem onIncomingChunk_complete (h : s.queueOf key = front :: rest)
    (hpos : front.stream = some pos) (hsize : (pos : ℤ) + bytes.length = front.expectedSize) :
    onIncomingChunk absolute prepare none key bytes s =
      (true, finish absolute prepare key front rest
        ((wrote front pos bytes s.files).note
          (.completed front.offer ((wrote front pos bytes s.files).content front.destination))) s) := by
  unfold onIncomingChunk
  simp only [getElem?_of_queueOf h, hpos, Nat.cast_add, if_pos hsize]
  rfl

/-- A message that makes the front file too long. Kind: L -/
theorem onIncomingChunk_exceed (h : s.queueOf key = front :: rest)
    (hpos : front.stream = some pos) (hsize : front.expectedSize < (pos : ℤ) + bytes.length) :
    onIncomingChunk absolute prepare none key bytes s =
      (false, finish absolute prepare key front rest
        ((wrote front pos bytes s.files).note (.exceeded front.offer)) s) := by
  have hne : ¬ (pos : ℤ) + bytes.length = front.expectedSize := by omega
  unfold onIncomingChunk
  simp only [getElem?_of_queueOf h, hpos, Nat.cast_add, if_neg hne, gt_iff_lt, if_pos hsize]
  rfl

/-- A message that leaves the front file incomplete. Kind: L -/
theorem onIncomingChunk_short (h : s.queueOf key = front :: rest)
    (hpos : front.stream = some pos) (hsize : (pos : ℤ) + bytes.length < front.expectedSize) :
    onIncomingChunk absolute prepare none key bytes s =
      (false, s.store key
        ({ front with stream := some (pos + bytes.length) } :: rest, wrote front pos bytes s.files)) := by
  have hne : ¬ (pos : ℤ) + bytes.length = front.expectedSize := by omega
  have hle : ¬ front.expectedSize < (pos : ℤ) + bytes.length := by omega
  unfold onIncomingChunk
  simp only [getElem?_of_queueOf h, hpos, Nat.cast_add, if_neg hne, gt_iff_lt, if_neg hle]
  rfl

/-- A message that cannot be written. Kind: L -/
theorem onIncomingChunk_fail {n : ℕ} (h : s.queueOf key = front :: rest)
    (hpos : front.stream = some pos) : onIncomingChunk absolute prepare (some n) key bytes s =
      (false, finish absolute prepare key front rest
        ((wrote front pos (bytes.take n) s.files).note (.failed front.offer)) s) := by
  unfold onIncomingChunk
  simp only [getElem?_of_queueOf h, hpos]
  rfl

/-- Finishing a file keeps the queues in order. Kind: L -/
theorem wellFormed_finish (hs : WellFormed s) (h : s.queueOf key = front :: rest)
    (files : Files ι β) : WellFormed (finish absolute prepare key front rest files s) := by
  have hwaiting := waiting_of_queueOk (hs.queueOk h)
  exact wellFormed_store hs ((started_of_waiting absolute prepare _ hwaiting).queueOk hwaiting)

/-- **An offer keeps the queues in order.** Kind: P -/
theorem wellFormed_enqueue (hs : WellFormed s) (hlock : file.lock = false)
    (hstream : file.stream = none) : WellFormed (enqueue absolute prepare key file s) := by
  have hwaiting : ∀ f ∈ [file], f.lock = false ∧ f.stream = none := by
    intro f hf
    rw [List.mem_singleton] at hf
    exact hf ▸ ⟨hlock, hstream⟩
  cases h : s.queueOf key with
  | nil =>
      rw [enqueue_of_empty absolute h]
      exact wellFormed_store hs ((started_of_waiting absolute prepare _ hwaiting).queueOk hwaiting)
  | cons front rest =>
      rw [enqueue_of_queue absolute h]
      obtain ⟨hfront, hrest⟩ := hs.queueOk h
      refine wellFormed_store hs ⟨hfront, fun f hf => ?_⟩
      rcases List.mem_append.mp hf with hf | hf
      · exact hrest f hf
      · exact hwaiting f hf

/-- **A message keeps the queues in order.** Kind: P -/
theorem wellFormed_onIncomingChunk (hs : WellFormed s) :
    WellFormed (onIncomingChunk absolute prepare cut key bytes s).2 := by
  cases h : s.queueOf key with
  | nil =>
      rw [onIncomingChunk_of_empty absolute hs h]
      exact hs
  | cons front rest =>
      have hok := hs.queueOk h
      obtain ⟨⟨hlock, hsize, pos, hpos, -⟩, hrest⟩ := hok
      cases cut with
      | some n =>
          rw [onIncomingChunk_fail absolute h hpos]
          exact wellFormed_finish absolute hs h _
      | none =>
          rcases lt_trichotomy ((pos : ℤ) + bytes.length) front.expectedSize with hlt | heq | hgt
          · rw [onIncomingChunk_short absolute h hpos hlt]
            refine wellFormed_store hs ⟨⟨hlock, hsize, pos + bytes.length, rfl, .inr ?_⟩, hrest⟩
            rw [Nat.cast_add]
            exact hlt
          · rw [onIncomingChunk_complete absolute h hpos heq]
            exact wellFormed_finish absolute hs h _
          · rw [onIncomingChunk_exceed absolute h hpos hgt]
            exact wellFormed_finish absolute hs h _

variable (s key prepare) in
/-- Everything that accepting an offer can do to its queue: start it, or wait in it. Kind: L -/
theorem enqueue_cases (hlock : file.lock = false) (hstream : file.stream = none) :
    (s.queueOf key = [] ∧ Started (∃ i, prepare i ≠ .ready) [file] s.files
      ((enqueue absolute prepare key file s).queueOf key,
        (enqueue absolute prepare key file s).files)) ∨
    (s.queueOf key ≠ [] ∧
      (enqueue absolute prepare key file s).queueOf key = s.queueOf key ++ [file] ∧
      (enqueue absolute prepare key file s).files = s.files) := by
  cases h : s.queueOf key with
  | nil =>
      refine .inl ⟨rfl, ?_⟩
      have hwaiting : ∀ f ∈ [file], f.lock = false ∧ f.stream = none := by
        intro f hf
        rw [List.mem_singleton] at hf
        exact hf ▸ ⟨hlock, hstream⟩
      rw [enqueue_of_empty absolute h, queueOf_store_same, files_store]
      exact started_of_waiting absolute prepare _ hwaiting
  | cons front rest =>
      rw [enqueue_of_queue absolute h, queueOf_store_same, files_store]
      exact .inr ⟨List.cons_ne_nil _ _, rfl, rfl⟩

variable (prepare bytes) in
/-- Everything that a message can do to its queue: the front file grows, or it is done with,
complete or too long, and the files behind it are started. Kind: L -/
theorem onIncomingChunk_cases (hs : WellFormed s) (h : s.queueOf key = front :: rest)
    (hpos : front.stream = some pos) :
    ((pos : ℤ) + bytes.length < front.expectedSize ∧
      (onIncomingChunk absolute prepare none key bytes s).2.queueOf key =
        { front with stream := some (pos + bytes.length) } :: rest ∧
      (onIncomingChunk absolute prepare none key bytes s).2.files =
        wrote front pos bytes s.files) ∨
    (front.expectedSize ≤ (pos : ℤ) + bytes.length ∧ ∃ (files : Files ι β) (receipt : Receipt ι β),
      (receipt = .completed front.offer ((wrote front pos bytes s.files).content front.destination) ∨
        receipt = .exceeded front.offer) ∧
      files.log = s.files.log ++ [.wrote front.offer bytes, receipt] ∧
      Started (∃ i, prepare i ≠ .ready) rest files
        ((onIncomingChunk absolute prepare none key bytes s).2.queueOf key,
          (onIncomingChunk absolute prepare none key bytes s).2.files)) := by
  have hfinish : ∀ files : Files ι β, Started (∃ i, prepare i ≠ .ready) rest
      (files.received (absolute front.destination))
      ((finish absolute prepare key front rest files s).queueOf key,
        (finish absolute prepare key front rest files s).files) := by
    intro files
    unfold finish
    rw [queueOf_store_same, files_store]
    exact started_of_waiting absolute prepare _ (waiting_of_queueOk (hs.queueOk h))
  rcases lt_trichotomy ((pos : ℤ) + bytes.length) front.expectedSize with hlt | heq | hgt
  · rw [onIncomingChunk_short absolute h hpos hlt, queueOf_store_same, files_store]
    exact .inl ⟨hlt, rfl, rfl⟩
  · rw [onIncomingChunk_complete absolute h hpos heq]
    exact .inr ⟨heq.ge, _, _, .inl rfl, by simp, hfinish _⟩
  · rw [onIncomingChunk_exceed absolute h hpos hgt]
    exact .inr ⟨hgt.le, _, _, .inr rfl, by simp, hfinish _⟩

/-- Everything `OnFileOffer` can do: not answer, reject, or accept and enqueue. Kind: L -/
theorem onFileOffer_cases (offer : ι) (size : ℤ) (verdict : Verdict) :
    onFileOffer absolute prepare key offer size verdict s = (none, s) ∨
      onFileOffer absolute prepare key offer size verdict s = (some .reject, s) ∨
      ∃ destination, onFileOffer absolute prepare key offer size verdict s =
        (some .accept, enqueue absolute prepare key
          { offer := offer, expectedSize := size, destination := destination } s) := by
  unfold onFileOffer
  split
  · cases verdict with
    | refused => exact .inl rfl
    | duplicate => exact .inr (.inl rfl)
    | accepted destination => exact .inr (.inr ⟨destination, rfl⟩)
  · exact .inl rfl

/-- At first there are no queues. Kind: L -/
theorem wellFormed_empty : WellFormed ({} : Incoming ι β) := by
  constructor
  · intro key queue h
    simp at h
  · intro key
    have hnone : ({} : Incoming ι β).queueOf key = [] := by simp [queueOf]
    rw [hnone]
    trivial

end calls

end Incoming

end CloudNode
