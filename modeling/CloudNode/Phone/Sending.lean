import CloudNode.Lib.Blocks
import CloudNode.Lib.Runs
import CloudNode.Transfer.Incoming

/-!
# Sending from the phone

Every selection of photos and every imported file makes a task on the main actor of the iOS client.
A task sends its items one after another: it offers an item, waits for the answer, and puts the
data on the data channel in chunks. It gives way to other tasks while it loads an item, while it
waits for the answer, and in the chunk loop whenever the channel has too much buffered.

`Uploads` is the client with one data channel and, on the other side, the receiver of `Incoming`,
whose destinations can be locked, opened and written.

* `step` — a step of a task, of the signalling between both sides, or of the channel.
* `Sound` — what holds of tasks, offers and answers in every state reached.
-/

namespace CloudNode

/-- Source: `ConnectionManager.swift`, `Transfer.Category`. Kind: D -/
inductive TransferCategory where
  | photo
  | video
  | file

/-- Source: `ConnectionManager.swift`, `Transfer.Status`. Kind: D -/
inductive TransferStatus where
  | waiting
  | sending
  | done
  | rejected
  | failed
  deriving DecidableEq

/-- Source: `ConnectionManager.swift`, `Transfer`. Kind: D -/
structure PhoneTransfer where
  name : Str
  size : ℕ
  category : TransferCategory
  sent : ℕ := 0
  status : TransferStatus := .waiting

/-- The bytes of a `Data`: how many, and which. Kind: D -/
structure Blob where
  count : ℕ
  byte : ℕ → UInt8

/-- Source: `Data`, `subdata(in:)`. Kind: D -/
def Blob.subdata (data : Blob) (start stop : ℕ) : List UInt8 :=
  (List.range' start (stop - start)).map data.byte

/-- What is sent: a photo, a video or a file; `data` is missing where it cannot be loaded.
Source: `ConnectionManager.swift`, `send(_ item:, category:)` and `send(_ url:)`
Kind: D -/
structure PhoneItem where
  name : Str
  mime : Str
  category : TransferCategory
  data : Option Blob

/-- Where a task stands. Kind: D -/
inductive SendPhase where
  /-- It comes to its next item, if there is one. -/
  | next
  /-- It waits in `withCheckedContinuation` for the answer to an offer. -/
  | offered (index : ℕ) (data : Blob)
  /-- Its continuation was resumed. -/
  | resumed (accepted : Bool) (index : ℕ) (data : Blob)
  /-- It is in the chunk loop. -/
  | sending (index : ℕ) (data : Blob) (offset : ℕ)

/-- A task of the main actor: what it has still to send, and where it stands.
Source: `ContentView.swift`, the tasks of `fileImporter` and `onChange`
Kind: D -/
structure SendTask where
  items : List PhoneItem
  phase : SendPhase

/-- A continuation is resumed. Kind: D -/
def SendPhase.resume (accepted : Bool) : SendPhase → SendPhase
  | .offered index data => .resumed accepted index data
  | phase => phase

/-- The transfer that a task is at, its data, and how much of it was sent. Kind: D -/
def SendPhase.current : SendPhase → Option (ℕ × Blob × ℕ)
  | .next => none
  | .offered index data => some (index, data, 0)
  | .resumed _ index data => some (index, data, 0)
  | .sending index data offset => some (index, data, offset)

/-- The task's offer was accepted. Kind: D -/
def SendPhase.granted : SendPhase → Bool
  | .resumed accepted _ _ => accepted
  | .sending _ _ _ => true
  | _ => false

/-- A message to the receiver through the server. The `uuid` of an offer is fresh, and the index of
its transfer stands for it.
Source: `ConnectionManager.swift`, `send(data:name:mime:category:)`
Kind: D -/
inductive PhoneSignal where
  | fileOffer (index : ℕ) (name : Str) (size : ℕ) (mimeType : Str)
  | fileComplete

/-- The transfer that a message offers. Kind: D -/
def PhoneSignal.offer : PhoneSignal → Option ℕ
  | .fileOffer index _ _ _ => some index
  | .fileComplete => none

/-- A binary message: the bytes `start..<stop` of a transfer. Kind: D -/
structure Slice where
  index : ℕ
  start : ℕ
  stop : ℕ

/-- The client with its channel, and the receiver. Kind: D -/
structure Uploads where
  /-- `state` is `.ready`, and config, signaling and session are there. -/
  ready : Bool := true
  transfers : List PhoneTransfer := []
  /-- The data of the transfers. -/
  contents : List Blob := []
  tasks : List SendTask := []
  /-- The task that has the main actor, in the middle of its loop. -/
  busy : Option ℕ := none
  /-- The task that waits for the answer to an offer. -/
  acceptWaiters : Std.ExtTreeMap ℕ ℕ := ∅
  /-- The messages that the receiver has not handled. -/
  signals : List PhoneSignal := []
  /-- The answers that the client has not handled: acceptances and rejections. -/
  answers : List (ℕ × Bool) := []
  bufferedAmount : ℕ := 0
  /-- The binary messages that were put on the channel. -/
  channel : List Slice := []
  /-- How many of them have reached the receiver. -/
  arrived : ℕ := 0
  receiver : Incoming ℕ UInt8 := {}
  /-- The transfers that the receiver has accepted, in the order in which it queued them. -/
  accepted : List ℕ := []

namespace Uploads

/-- Source: `ConnectionManager.swift`, `chunkSize`. Kind: D -/
def chunkSize : ℕ := 16 * 1024

/-- Source: `ConnectionManager.swift`, `highWaterMark`. Kind: D -/
def highWaterMark : ℕ := 2 ^ 20

/-- Source: `transfers[index].status = ..`. Kind: D -/
def mark (s : Uploads) (index : ℕ) (status : TransferStatus) : Uploads :=
  { s with transfers := s.transfers.modify index fun t => { t with status := status } }

/-- Where a task stands. Kind: D -/
def phase (s : Uploads) (k : ℕ) : SendPhase := (s.tasks[k]?).elim .next SendTask.phase

/-- A task goes on elsewhere. Kind: D -/
def setPhase (s : Uploads) (k : ℕ) (phase : SendPhase) : Uploads :=
  { s with tasks := s.tasks.modify k fun t => { t with phase := phase } }

/-- A task comes to its next item, up to where it waits for an answer.
Source: `ConnectionManager.swift`, `send(_ item:, category:)`, `send(_ url:)` and
`send(data:name:mime:category:)`
Kind: D -/
def take (s : Uploads) (k : ℕ) (item : PhoneItem) (rest : List PhoneItem) : Uploads :=
  match item.data with
  | none =>
    { s with
      transfers := s.transfers ++ [{
        name := item.name
        size := 0
        category := item.category
        status := .failed : PhoneTransfer }]
      contents := s.contents ++ [⟨0, fun _ => 0⟩]
      tasks := s.tasks.set k ⟨rest, .next⟩ }
  | some data =>
    let index := s.transfers.length
    let s := { s with
      transfers := s.transfers ++ [{
        name := item.name
        size := data.count
        category := item.category : PhoneTransfer }]
      contents := s.contents ++ [data] }
    if s.ready then
      { s with
        tasks := s.tasks.set k ⟨rest, .offered index data⟩
        acceptWaiters := s.acceptWaiters.insert index k
        signals := s.signals ++ [PhoneSignal.fileOffer index item.name data.count item.mime] }
    else { s with tasks := s.tasks.set k ⟨rest, .next⟩ }.mark index .failed

/-- An answer from the receiver.
Source: `ConnectionManager.swift`, `handle`, `file_accept` and `file_reject`
Kind: D -/
def handleAnswer (s : Uploads) (index : ℕ) (accepted : Bool) : Uploads :=
  match s.acceptWaiters[index]? with
  | some k =>
    { s with acceptWaiters := s.acceptWaiters.erase index }.setPhase k
      ((s.phase k).resume accepted)
  | none => s

/-- A turn of a task: it goes on from its continuation, or makes one round of its chunk loop. `ok`
tells whether the channel takes the message.
Source: `ConnectionManager.swift`, `send(data:name:mime:category:)`
Kind: D -/
def turn (s : Uploads) (k : ℕ) (ok : Bool) : SendPhase → Option Uploads
  | .resumed false index _ => some (({ s with busy := none }.mark index .rejected).setPhase k .next)
  | .resumed true index data =>
    some (({ s with busy := some k }.mark index .sending).setPhase k (.sending index data 0))
  | .sending index data offset =>
    if offset < data.count then
      if s.bufferedAmount > highWaterMark then some { s with busy := none }
      else
        let stop := min (offset + chunkSize) data.count
        if ok ∧ s.ready then
          some ({ s with
            busy := some k
            bufferedAmount := s.bufferedAmount + (stop - offset)
            channel := s.channel ++ [Slice.mk index offset stop]
            transfers := s.transfers.modify index fun t => { t with sent := stop }
          }.setPhase k (.sending index data stop))
        else some (({ s with busy := none }.mark index .failed).setPhase k .next)
    else
      some (({ s with
        busy := none
        signals := s.signals ++ [PhoneSignal.fileComplete] }.mark index .done).setPhase k .next)
  | _ => none

/-- The bytes of a binary message. Kind: D -/
def bytes (s : Uploads) (slice : Slice) : List UInt8 :=
  (s.contents[slice.index]?).elim [] fun data => data.subdata slice.start slice.stop

/-- What can happen. Kind: D -/
inductive Event where
  /-- Photos are selected, or a file is imported. -/
  | select (items : List PhoneItem)
  /-- A task comes to its next item. -/
  | take (k : ℕ)
  /-- A task that may go on does so. -/
  | turn (k : ℕ) (ok : Bool)
  /-- The receiver handles a message. -/
  | handled (j : ℕ) (verdict : Incoming.Verdict)
  /-- The client handles an answer. -/
  | answered (j : ℕ)
  /-- Buffered bytes leave for the receiver. -/
  | drain (n : ℕ)
  /-- A binary message reaches the receiver. -/
  | deliver
  /-- The client disconnects. -/
  | disconnect

variable (key : PeerRoomKey) (absolute : Str → Str)

/-- One step. What runs on the main actor runs alone until it suspends.
Source: `ConnectionManager.swift`, `send` and `disconnect`; `ContentView.swift`, `body`;
`WebRTCClient.cpp`, `OnFileOffer` and `OnIncomingChunk`
Kind: D -/
def step (s : Uploads) : Event → Option Uploads
  | .select items =>
    if s.busy = none ∧ items ≠ [] then some { s with tasks := s.tasks ++ [⟨items, .next⟩] }
    else none
  | .take k =>
    if s.busy = none then
      match s.tasks[k]? with
      | some ⟨item :: rest, .next⟩ => some (s.take k item rest)
      | _ => none
    else none
  | .turn k ok =>
    if s.busy = none ∨ s.busy = some k then s.turn k ok (s.phase k) else none
  | .handled j verdict =>
    match s.signals[j]? with
    | some (.fileOffer index _ size _) =>
      let out := Incoming.onFileOffer absolute (fun _ => .ready) key index size verdict s.receiver
      some { s with
        signals := s.signals.eraseIdx j
        receiver := out.2
        accepted := if out.1 = some .accept then s.accepted ++ [index] else s.accepted
        answers := s.answers ++ (out.1.map fun r => (index, decide (r = .accept))).toList }
    | some .fileComplete => some { s with signals := s.signals.eraseIdx j }
    | none => none
  | .answered j =>
    if s.busy = none then
      (s.answers[j]?).map fun answer =>
        { s with answers := s.answers.eraseIdx j }.handleAnswer answer.1 answer.2
    else none
  | .drain n =>
    if n ≤ s.bufferedAmount then some { s with bufferedAmount := s.bufferedAmount - n } else none
  | .deliver =>
    (s.channel[s.arrived]?).map fun slice =>
      { s with
        receiver := (Incoming.onIncomingChunk absolute (fun _ => .ready) none key (s.bytes slice)
          s.receiver).2
        arrived := s.arrived + 1 }
  | .disconnect =>
    if s.busy = none then
      some { s with
        ready := false
        acceptWaiters := ∅
        tasks := s.tasks.map fun t => { t with phase := t.phase.resume false } }
    else none

/-! ## What holds in every state -/

/-- How many bytes a transfer has. Kind: D -/
def sizeOf (s : Uploads) (i : ℕ) : ℕ := (s.contents[i]?).elim 0 Blob.count

/-- How many of them were sent. Kind: D -/
def sentOf (s : Uploads) (i : ℕ) : ℕ := (s.transfers[i]?).elim 0 PhoneTransfer.sent

/-- What was put on the channel. Kind: D -/
def onChannel (s : Uploads) : List (ℕ × ℕ) :=
  s.channel.flatMap fun m => Blocks.part m.index m.start m.stop

/-- The transfers whose offers the receiver has not handled. Kind: D -/
def offers (s : Uploads) : List ℕ := s.signals.filterMap PhoneSignal.offer

/-- What holds in every state reached. Kind: D -/
structure Sound (s : Uploads) : Prop where
  sizes : s.transfers.map PhoneTransfer.size = s.contents.map Blob.count
  counted : ∀ i, Blocks.held s.onChannel i = s.sentOf i
  current : ∀ k i d o, (s.phase k).current = some (i, d, o) →
    s.contents[i]? = some d ∧ s.sentOf i = o ∧ o ≤ d.count
  alone : ∀ k k' i d d' o o', (s.phase k).current = some (i, d, o) →
    (s.phase k').current = some (i, d', o') → k = k'
  granted : ∀ k i d o, (s.phase k).granted = true →
    (s.phase k).current = some (i, d, o) → i ∈ s.accepted
  waiting : ∀ i k, s.acceptWaiters[i]? = some k → ∃ d, s.phase k = .offered i d
  answered : ∀ i, (i, true) ∈ s.answers → i ∈ s.accepted
  offered : ∀ i name size mime, .fileOffer i name size mime ∈ s.signals →
    i ∉ s.accepted ∧ ∃ d, s.contents[i]? = some d ∧ d.count = size
  distinct : s.offers.Nodup
  queued : s.accepted.Nodup ∧ ∀ i ∈ s.accepted, i < s.contents.length
  slices : ∀ m ∈ s.channel, m.start < m.stop ∧ m.stop ≤ s.sizeOf m.index

variable {s s' : Uploads} {k k' index : ℕ} {phase : SendPhase} {status : TransferStatus}

/-- At first nothing has happened. Kind: L -/
theorem sound_init : Sound {} where
  sizes := rfl
  counted := by intro i; rfl
  current := by intro k i d o hcurrent; exact (Option.some_ne_none _ hcurrent.symm).elim
  alone := by intro k k' i d d' o o' hcurrent; exact (Option.some_ne_none _ hcurrent.symm).elim
  granted := by intro k i d o hgranted; exact Bool.noConfusion hgranted
  waiting := by
    intro i k hwaiter
    have hnone : (∅ : Std.ExtTreeMap ℕ ℕ)[i]? = none := Std.ExtTreeMap.getElem?_empty
    exact (Option.some_ne_none _ (hwaiter.symm.trans hnone)).elim
  answered := by intro i hi; exact (List.not_mem_nil hi).elim
  offered := by intro i name size mime hi; exact (List.not_mem_nil hi).elim
  distinct := List.nodup_nil
  queued := by
    refine ⟨List.nodup_nil, ?_⟩
    intro i hi
    exact (List.not_mem_nil hi).elim
  slices := by intro m hm; exact (List.not_mem_nil hm).elim

/-- Where the tasks stand after one of them went on. Kind: L -/
theorem phase_setPhase (hk : k < s.tasks.length) :
    (s.setPhase k phase).phase = Function.update s.phase k phase := by
  funext k'
  show ((s.tasks.modify k _)[k']?).elim SendPhase.next SendTask.phase = _
  rw [List.getElem?_modify]
  by_cases hne : k = k'
  · subst hne
    rw [Function.update_self, List.getElem?_eq_getElem hk]
    simp only [if_true, Option.map_eq_map, Option.map_some, Option.elim_some]
  · rw [Function.update_of_ne (Ne.symm hne)]
    simp only [if_neg hne, Option.map_eq_map, Option.map_id']
    rfl

/-- Only a task that exists is at something. Kind: L -/
theorem lt_of_phase (h : s.phase k ≠ .next) : k < s.tasks.length := by
  by_contra hge
  rw [not_lt] at hge
  apply h
  unfold Uploads.phase
  rw [List.getElem?_eq_none hge]
  rfl

/-- The sizes of transfers do not change. Kind: L -/
theorem map_size_modify (transfers : List PhoneTransfer) (index : ℕ) {f : PhoneTransfer → PhoneTransfer}
    (hf : ∀ t, (f t).size = t.size) :
    (transfers.modify index f).map PhoneTransfer.size = transfers.map PhoneTransfer.size := by
  apply List.ext_getElem?
  intro i
  rw [List.getElem?_map, List.getElem?_map, List.getElem?_modify]
  cases transfers[i]? with
  | none => rfl
  | some t =>
      simp only [Option.map_eq_map, Option.map_some]
      split
      · rw [hf]
      · rfl

/-- How much was sent of a transfer whose status changes. Kind: L -/
theorem sentOf_mark (i : ℕ) : (s.mark index status).sentOf i = s.sentOf i := by
  unfold sentOf mark
  rw [List.getElem?_modify]
  cases s.transfers[i]? with
  | none => rfl
  | some t =>
      simp only [Option.map_eq_map, Option.map_some, Option.elim_some]
      split
      · rfl
      · rfl

/-- A status may change. Kind: L -/
theorem Sound.mark (h : s.Sound) : (s.mark index status).Sound := by
  refine ⟨?_, fun i => ?_, fun k i d o hcurrent => ?_, h.alone, h.granted, h.waiting, h.answered,
    h.offered, h.distinct, h.queued, h.slices⟩
  · show (s.transfers.modify index _).map PhoneTransfer.size = s.contents.map Blob.count
    refine (map_size_modify s.transfers index ?_).trans h.sizes
    intro t
    rfl
  · rw [sentOf_mark]
    exact h.counted i
  · rw [sentOf_mark]
    exact h.current k i d o hcurrent

/-- A task may come to a transfer that is its own, where an answer it is waited for with waits for
that transfer. Kind: L -/
theorem Sound.move {tasks : List SendTask} (h : s.Sound)
    (hphase : Uploads.phase { s with tasks := tasks } = Function.update s.phase k phase)
    (hcurrent : ∀ i d o, phase.current = some (i, d, o) →
      (s.contents[i]? = some d ∧ s.sentOf i = o ∧ o ≤ d.count) ∧
      ∀ k' d' o', k' ≠ k → (s.phase k').current ≠ some (i, d', o'))
    (hgranted : phase.granted = true → ∀ i d o, phase.current = some (i, d, o) → i ∈ s.accepted)
    (hwaiter : ∀ i : ℕ, s.acceptWaiters[i]? = some k → ∃ d, phase = .offered i d) :
    Sound { s with tasks := tasks } := by
  refine ⟨h.sizes, h.counted, fun k' i d o hnow => ?_, fun k' k'' i d d' o o' hnow hnow' => ?_,
    fun k' i d o hyes hnow => ?_, fun i k' hmem => ?_, h.answered, h.offered, h.distinct, h.queued,
    h.slices⟩
  · rw [hphase] at hnow
    by_cases hne : k' = k
    · subst hne
      rw [Function.update_self] at hnow
      exact (hcurrent i d o hnow).1
    · rw [Function.update_of_ne hne] at hnow
      exact h.current k' i d o hnow
  · rw [hphase] at hnow hnow'
    by_cases hne : k' = k
    · subst hne
      by_cases hne' : k'' = k'
      · exact hne'.symm
      · rw [Function.update_self] at hnow
        rw [Function.update_of_ne hne'] at hnow'
        exact ((hcurrent i d o hnow).2 k'' d' o' hne' hnow').elim
    · rw [Function.update_of_ne hne] at hnow
      by_cases hne' : k'' = k
      · subst hne'
        rw [Function.update_self] at hnow'
        exact ((hcurrent i d' o' hnow').2 k' d o hne hnow).elim
      · rw [Function.update_of_ne hne'] at hnow'
        exact h.alone k' k'' i d d' o o' hnow hnow'
  · rw [hphase] at hyes hnow
    by_cases hne : k' = k
    · subst hne
      rw [Function.update_self] at hyes hnow
      exact hgranted hyes i d o hnow
    · rw [Function.update_of_ne hne] at hyes hnow
      exact h.granted k' i d o hyes hnow
  · rw [hphase]
    by_cases hne : k' = k
    · subst hne
      rw [Function.update_self]
      exact hwaiter i hmem
    · rw [Function.update_of_ne hne]
      exact h.waiting i k' hmem

/-- What a task is at is its own. Kind: L -/
theorem Sound.own (h : s.Sound) {i : ℕ} {d : Blob} {o : ℕ}
    (hcurrent : (s.phase k).current = some (i, d, o)) :
    (s.contents[i]? = some d ∧ s.sentOf i = o ∧ o ≤ d.count) ∧
      ∀ k' d' o', k' ≠ k → (s.phase k').current ≠ some (i, d', o') :=
  ⟨h.current k i d o hcurrent, fun k' d' o' hne hother =>
    hne (h.alone k' k i d' d o' o hother hcurrent)⟩

/-- Nobody waits for the answer to an offer of a task that does not. Kind: L -/
theorem Sound.not_waiting (h : s.Sound) (hk : ∀ i d, s.phase k ≠ .offered i d) (i : ℕ) :
    s.acceptWaiters[i]? ≠ some k := by
  intro hwaiter
  obtain ⟨d, hphase⟩ := h.waiting i k hwaiter
  exact hk i d hphase

/-- A task may be done with its transfer. Kind: L -/
theorem Sound.setNext (h : s.Sound) (hsome : s.phase k ≠ .next)
    (hk : ∀ i d, s.phase k ≠ .offered i d) : (s.setPhase k .next).Sound := by
  apply h.move (phase_setPhase (lt_of_phase hsome))
  · intro i d o hcurrent
    exact (Option.some_ne_none _ hcurrent.symm).elim
  · intro hgranted
    exact Bool.noConfusion hgranted
  · intro i hwaiter
    exact (h.not_waiting hk i hwaiter).elim

/-! ## A chunk -/

/-- The lists of transfers and of their data are as long. Kind: L -/
theorem Sound.length_eq (h : s.Sound) : s.transfers.length = s.contents.length := by
  have hlength := congrArg List.length h.sizes
  rw [List.length_map, List.length_map] at hlength
  exact hlength

/-- A message that is put on the channel. Kind: L -/
theorem onChannel_append (slice : Slice) : onChannel { s with channel := s.channel ++ [slice] } =
    s.onChannel ++ Blocks.part slice.index slice.start slice.stop := by
  unfold onChannel
  rw [List.flatMap_append, List.flatMap_singleton]

/-- A task in its loop may put a chunk on the channel. Kind: L -/
theorem Sound.chunk (h : s.Sound) {data : Blob} {offset stop : ℕ}
    (hphase : s.phase k = .sending index data offset) (hstart : offset < stop)
    (hstop : stop ≤ data.count) : Sound ({ s with
      channel := s.channel ++ [Slice.mk index offset stop]
      transfers := s.transfers.modify index fun t => { t with sent := stop }
    }.setPhase k (.sending index data stop)) := by
  have hcurrent : (s.phase k).current = some (index, data, offset) := by
    rw [hphase]
    rfl
  obtain ⟨⟨hcontent, hsent, -⟩, halone⟩ := h.own hcurrent
  have hlength : index < s.transfers.length := by
    rw [h.length_eq]
    exact (List.getElem?_eq_some_iff.mp hcontent).1
  have hk : k < s.tasks.length := lt_of_phase (by rw [hphase]; exact SendPhase.noConfusion)
  have hsame : sentOf { s with
      transfers := s.transfers.modify index fun t => { t with sent := stop } } index = stop := by
    unfold sentOf
    rw [List.getElem?_modify, List.getElem?_eq_getElem hlength]
    simp only [if_true, Option.map_eq_map, Option.map_some, Option.elim_some]
  have hother {i : ℕ} (hne : index ≠ i) : sentOf { s with
      transfers := s.transfers.modify index fun t => { t with sent := stop } } i = s.sentOf i := by
    unfold sentOf
    rw [List.getElem?_modify]
    simp only [if_neg hne, Option.map_eq_map, Option.map_id']
  have hupdate : (s.setPhase k (.sending index data stop)).phase =
      Function.update s.phase k (.sending index data stop) := phase_setPhase hk
  refine ⟨?_, fun i => ?_, fun k' i d o hnow => ?_, fun k' k'' i d d' o o' hnow hnow' => ?_,
    fun k' i d o hyes hnow => ?_, fun i k' hmem => ?_, h.answered, h.offered, h.distinct, h.queued,
    fun m hm => ?_⟩
  · show (s.transfers.modify index _).map PhoneTransfer.size = s.contents.map Blob.count
    refine (map_size_modify s.transfers index ?_).trans h.sizes
    intro t
    rfl
  · have hchannel := onChannel_append (s := s) ⟨index, offset, stop⟩
    show Blocks.held (onChannel { s with channel := s.channel ++ [_] }) i = sentOf { s with
      transfers := s.transfers.modify index fun t => { t with sent := stop } } i
    rw [hchannel, Blocks.held_append, h.counted]
    by_cases hne : index = i
    · subst hne
      rw [Blocks.held_part_same, hsame, hsent]
      exact Nat.add_sub_cancel' hstart.le
    · rw [Blocks.held_part_ne hne, hother hne]
      rfl
  · change ((s.setPhase k (.sending index data stop)).phase k').current = _ at hnow
    rw [hupdate] at hnow
    by_cases hne : k' = k
    · subst hne
      rw [Function.update_self] at hnow
      obtain ⟨rfl, rfl, rfl⟩ : index = i ∧ data = d ∧ stop = o := by
        simpa only [SendPhase.current, Option.some.injEq, Prod.mk.injEq] using hnow
      exact ⟨hcontent, hsame, hstop⟩
    · rw [Function.update_of_ne hne] at hnow
      have hindex : index ≠ i := by
        rintro rfl
        exact halone k' d o hne hnow
      show _ ∧ sentOf { s with
        transfers := s.transfers.modify index fun t => { t with sent := stop } } i = o ∧ _
      rw [hother hindex]
      exact h.current k' i d o hnow
  · have hbefore {k' i : ℕ} {d : Blob} {o : ℕ}
        (hnow : ((s.setPhase k (.sending index data stop)).phase k').current = some (i, d, o)) :
        ∃ d' o', (s.phase k').current = some (i, d', o') := by
      rw [hupdate] at hnow
      by_cases hne : k' = k
      · subst hne
        rw [Function.update_self] at hnow
        obtain ⟨rfl, -, -⟩ : index = i ∧ data = d ∧ stop = o := by
          simpa only [SendPhase.current, Option.some.injEq, Prod.mk.injEq] using hnow
        exact ⟨data, offset, hcurrent⟩
      · rw [Function.update_of_ne hne] at hnow
        exact ⟨d, o, hnow⟩
    obtain ⟨d₁, o₁, hnow⟩ := hbefore hnow
    obtain ⟨d₂, o₂, hnow'⟩ := hbefore hnow'
    exact h.alone k' k'' i d₁ d₂ o₁ o₂ hnow hnow'
  · change ((s.setPhase k (.sending index data stop)).phase k').granted = true at hyes
    change ((s.setPhase k (.sending index data stop)).phase k').current = _ at hnow
    rw [hupdate] at hyes hnow
    by_cases hne : k' = k
    · subst hne
      rw [Function.update_self] at hnow
      obtain ⟨rfl, -, -⟩ : index = i ∧ data = d ∧ stop = o := by
        simpa only [SendPhase.current, Option.some.injEq, Prod.mk.injEq] using hnow
      refine h.granted k' index data offset ?_ hcurrent
      rw [hphase]
      rfl
    · rw [Function.update_of_ne hne] at hyes hnow
      exact h.granted k' i d o hyes hnow
  · have hne : k' ≠ k := by
      rintro rfl
      apply h.not_waiting (k := k') _ i hmem
      rw [hphase]
      exact fun _ _ => SendPhase.noConfusion
    show ∃ d, (s.setPhase k (.sending index data stop)).phase k' = .offered i d
    rw [hupdate, Function.update_of_ne hne]
    exact h.waiting i k' hmem
  · obtain hm | hm := List.mem_append.mp hm
    · exact h.slices m hm
    · obtain rfl := List.mem_singleton.mp hm
      refine ⟨hstart, ?_⟩
      show stop ≤ (s.contents[index]?).elim 0 Blob.count
      rw [hcontent]
      exact hstop

/-! ## Offers and answers -/

/-- A new transfer, which no task is at yet, keeps what holds. Kind: L -/
theorem Sound.append (h : s.Sound) (transfer : PhoneTransfer) (data : Blob)
    (hsize : transfer.size = data.count) (hsent : transfer.sent = 0) : Sound { s with
      transfers := s.transfers ++ [transfer]
      contents := s.contents ++ [data] } := by
  have hold {i : ℕ} {d : Blob} (hi : s.contents[i]? = some d) :
      (s.contents ++ [data])[i]? = some d := by
    rw [List.getElem?_append_left (List.getElem?_eq_some_iff.mp hi).1]
    exact hi
  have hsentOf (i : ℕ) : sentOf { s with transfers := s.transfers ++ [transfer] } i = s.sentOf i := by
    unfold sentOf
    obtain hlt | heq | hgt := lt_trichotomy i s.transfers.length
    · rw [List.getElem?_append_left hlt]
    · rw [List.getElem?_append_right heq.ge, heq, Nat.sub_self, List.getElem?_eq_none le_rfl]
      exact hsent
    · rw [List.getElem?_eq_none, List.getElem?_eq_none hgt.le]
      rw [List.length_append, List.length_singleton]
      exact hgt
  refine ⟨?_, fun i => ?_, fun k i d o hnow => ?_, h.alone, h.granted, h.waiting, h.answered,
    fun i name size mime hi => ?_, h.distinct, ⟨h.queued.1, fun i hi => ?_⟩, fun m hm => ?_⟩
  · show (s.transfers ++ [transfer]).map PhoneTransfer.size = (s.contents ++ [data]).map Blob.count
    rw [List.map_append, List.map_append, h.sizes, List.map_singleton, List.map_singleton, hsize]
  · exact (h.counted i).trans (hsentOf i).symm
  · obtain ⟨hcontent, hoffset, hle⟩ := h.current k i d o hnow
    exact ⟨hold hcontent, (hsentOf i).trans hoffset, hle⟩
  · obtain ⟨hnew, d, hd, hcount⟩ := h.offered i name size mime hi
    exact ⟨hnew, d, hold hd, hcount⟩
  · show i < (s.contents ++ [data]).length
    rw [List.length_append]
    exact Nat.lt_add_right _ (h.queued.2 i hi)
  · obtain ⟨hlt, hle⟩ := h.slices m hm
    refine ⟨hlt, ?_⟩
    -- A message is never empty, so its transfer has data.
    cases hcontent : s.contents[m.index]? with
    | none =>
        unfold sizeOf at hle
        rw [hcontent, Option.elim_none] at hle
        omega
    | some d =>
        show m.stop ≤ ((s.contents ++ [data])[m.index]?).elim 0 Blob.count
        rw [hold hcontent]
        unfold sizeOf at hle
        rw [hcontent] at hle
        exact hle

/-- Where the tasks stand after one of them took an item. Kind: L -/
theorem phase_set {items : List PhoneItem} (hk : k < s.tasks.length) :
    Uploads.phase { s with tasks := s.tasks.set k ⟨items, phase⟩ } =
      Function.update s.phase k phase := by
  funext k'
  show ((s.tasks.set k ⟨items, phase⟩)[k']?).elim SendPhase.next SendTask.phase = _
  rw [List.getElem?_set]
  by_cases hne : k = k'
  · subst hne
    rw [Function.update_self, if_pos rfl, if_pos hk]
    rfl
  · rw [Function.update_of_ne (Ne.symm hne), if_neg hne]
    rfl

/-- An offer that a task makes keeps what holds. Kind: L -/
theorem Sound.offer (h : s.Sound) {data : Blob} {name mime : Str}
    (hphase : s.phase k = .offered index data) (hnew : index ∉ s.accepted)
    (hfresh : index ∉ s.offers) : Sound { s with
      acceptWaiters := s.acceptWaiters.insert index k
      signals := s.signals ++ [PhoneSignal.fileOffer index name data.count mime] } := by
  have hcontent : s.contents[index]? = some data := by
    refine (h.current k index data 0 ?_).1
    rw [hphase]
    rfl
  refine ⟨h.sizes, h.counted, h.current, h.alone, h.granted, fun i k' hmem => ?_, h.answered,
    fun i name' size mime' hi => ?_, ?_, h.queued, h.slices⟩
  · change (s.acceptWaiters.insert index k)[i]? = some k' at hmem
    by_cases hne : index = i
    · subst hne
      rw [getElem?_insert_same, Option.some.injEq] at hmem
      exact ⟨data, hmem ▸ hphase⟩
    · rw [getElem?_insert_ne _ _ hne] at hmem
      exact h.waiting i k' hmem
  · obtain hi | hi := List.mem_append.mp hi
    · exact h.offered i name' size mime' hi
    · rw [List.mem_singleton, PhoneSignal.fileOffer.injEq] at hi
      obtain ⟨rfl, -, rfl, -⟩ := hi
      exact ⟨hnew, data, hcontent, rfl⟩
  · show (offers { s with signals := s.signals ++ [_] }).Nodup
    have hoffers : offers { s with
        signals := s.signals ++ [PhoneSignal.fileOffer index name data.count mime] } =
        s.offers ++ [index] := by
      unfold offers
      rw [List.filterMap_append]
      rfl
    rw [hoffers]
    exact List.nodup_append.mpr ⟨h.distinct, List.nodup_singleton _, fun i hi j hj hij =>
      hfresh (hij.trans (List.mem_singleton.mp hj) ▸ hi)⟩

/-- The transfers that are offered are there. Kind: L -/
theorem Sound.lt_of_offers (h : s.Sound) {i : ℕ} (hi : i ∈ s.offers) : i < s.contents.length := by
  obtain ⟨signal, hsignal, heq⟩ := List.mem_filterMap.mp hi
  cases signal with
  | fileOffer index name size mime =>
      obtain rfl := Option.some.inj heq
      obtain ⟨-, d, hd, -⟩ := h.offered index name size mime hsignal
      exact (List.getElem?_eq_some_iff.mp hd).1
  | fileComplete => exact (Option.some_ne_none i heq.symm).elim

/-- Taking an item keeps what holds. Kind: L -/
theorem Sound.take (h : s.Sound) {item : PhoneItem} {rest : List PhoneItem}
    (hk : k < s.tasks.length) (hphase : s.phase k = .next) : (s.take k item rest).Sound := by
  have hnext {t : Uploads} (ht : t.Sound) (htasks : t.tasks = s.tasks) :
      Sound { t with tasks := s.tasks.set k ⟨rest, .next⟩ } := by
    have hsame : t.phase = s.phase := by
      unfold Uploads.phase
      rw [htasks]
    rw [← htasks]
    apply ht.move (phase_set (htasks ▸ hk))
    · intro i d o hcurrent
      exact (Option.some_ne_none _ hcurrent.symm).elim
    · intro hgranted
      exact Bool.noConfusion hgranted
    · intro i hwaiter
      refine (ht.not_waiting (fun i d => ?_) i hwaiter).elim
      rw [hsame, hphase]
      exact SendPhase.noConfusion
  unfold Uploads.take
  split
  · exact hnext (h.append _ ⟨0, fun _ => 0⟩ rfl rfl) rfl
  · rename_i data _
    have happended := h.append ⟨item.name, data.count, item.category, 0, .waiting⟩ data rfl rfl
    dsimp only
    split
    · have hindex : s.transfers.length = s.contents.length := h.length_eq
      have hnew (i : ℕ) (d : Blob) (hi : s.contents[i]? = some d) : i ≠ s.transfers.length := by
        rw [hindex]
        exact (List.getElem?_eq_some_iff.mp hi).1.ne
      have hset : Uploads.phase { s with
          transfers := s.transfers ++ [⟨item.name, data.count, item.category, 0, .waiting⟩]
          contents := s.contents ++ [data]
          tasks := s.tasks.set k ⟨rest, .offered s.transfers.length data⟩ } =
          Function.update s.phase k (.offered s.transfers.length data) := phase_set hk
      have hmoved := happended.move hset ?_ ?_ ?_
      · refine hmoved.offer ?_ ?_ ?_
        · rw [hset, Function.update_self]
        · intro hc
          have hlt := h.queued.2 _ hc
          omega
        · intro hc
          have hlt := h.lt_of_offers hc
          omega
      · intro i d o hcurrent
        obtain ⟨rfl, rfl, rfl⟩ : s.transfers.length = i ∧ data = d ∧ 0 = o := by
          simpa only [SendPhase.current, Option.some.injEq, Prod.mk.injEq] using hcurrent
        refine ⟨⟨?_, ?_, Nat.zero_le _⟩, fun k' d' o' _ hother => ?_⟩
        · show (s.contents ++ [data])[s.transfers.length]? = some data
          rw [hindex, List.getElem?_concat_length]
        · show ((s.transfers ++ [_])[s.transfers.length]?).elim 0 PhoneTransfer.sent = 0
          rw [List.getElem?_concat_length]
          rfl
        · exact hnew _ d' (h.current k' _ d' o' hother).1 rfl
      · intro hgranted
        exact Bool.noConfusion hgranted
      · intro i hwaiter
        refine (h.not_waiting (fun i d => ?_) i hwaiter).elim
        rw [hphase]
        exact SendPhase.noConfusion
    · exact (hnext happended rfl).mark

/-- An offer that the receiver handles keeps what holds. Kind: L -/
theorem Sound.handled (h : s.Sound) {j size : ℕ} {name mime : Str}
    (hj : s.signals[j]? = some (.fileOffer index name size mime)) (receiver : Incoming ℕ UInt8)
    (out : Option Incoming.Response) : Sound { s with
      signals := s.signals.eraseIdx j
      receiver := receiver
      accepted := if out = some .accept then s.accepted ++ [index] else s.accepted
      answers := s.answers ++ (out.map fun r => (index, decide (r = .accept))).toList } := by
  obtain ⟨hnew, d, hd, -⟩ := h.offered index name size mime (List.mem_of_getElem? hj)
  have hgrow {i : ℕ} (hi : i ∈ s.accepted) :
      i ∈ if out = some .accept then s.accepted ++ [index] else s.accepted := by
    split
    · exact List.mem_append_left _ hi
    · exact hi
  obtain ⟨hlt, hget⟩ := List.getElem?_eq_some_iff.mp hj
  have hperm := List.getElem_cons_eraseIdx_perm hlt
  rw [hget] at hperm
  have hdistinct := (hperm.filterMap PhoneSignal.offer).nodup_iff.mpr h.distinct
  change (index :: (s.signals.eraseIdx j).filterMap PhoneSignal.offer).Nodup at hdistinct
  rw [List.nodup_cons] at hdistinct
  refine ⟨h.sizes, h.counted, h.current, h.alone,
    fun k i d o hyes hnow => hgrow (h.granted k i d o hyes hnow), h.waiting, fun i hi => ?_,
    fun i name' size' mime' hi => ?_, hdistinct.2, ?_, h.slices⟩
  · obtain hi | hi := List.mem_append.mp hi
    · exact hgrow (h.answered i hi)
    · rw [Option.mem_toList, Option.map_eq_some_iff] at hi
      obtain ⟨r, hr, heq⟩ := hi
      rw [Prod.mk.injEq, decide_eq_true_eq] at heq
      obtain ⟨rfl, rfl⟩ := heq
      show index ∈ if out = some .accept then s.accepted ++ [index] else s.accepted
      rw [if_pos hr]
      exact List.mem_append_right _ (List.mem_singleton_self _)
  · obtain ⟨hnot, hcontent⟩ := h.offered i name' size' mime' (List.mem_of_mem_eraseIdx hi)
    refine ⟨?_, hcontent⟩
    show i ∉ if out = some .accept then s.accepted ++ [index] else s.accepted
    split
    · intro hc
      obtain hc | hc := List.mem_append.mp hc
      · exact hnot hc
      · obtain rfl := List.mem_singleton.mp hc
        exact hdistinct.1 (List.mem_filterMap.mpr ⟨_, hi, rfl⟩)
    · exact hnot
  · show (if out = some .accept then s.accepted ++ [index] else s.accepted).Nodup ∧
      ∀ i ∈ if out = some .accept then s.accepted ++ [index] else s.accepted, i < s.contents.length
    split
    · refine ⟨?_, fun i hi => ?_⟩
      · exact List.nodup_append.mpr ⟨h.queued.1, List.nodup_singleton _, fun i hi j hj hij =>
          hnew (List.mem_singleton.mp hj ▸ hij ▸ hi)⟩
      · obtain hi | hi := List.mem_append.mp hi
        · exact h.queued.2 i hi
        · obtain rfl := List.mem_singleton.mp hi
          exact (List.getElem?_eq_some_iff.mp hd).1
    · exact h.queued

/-- An answer that the client handles keeps what holds. Kind: L -/
theorem Sound.handleAnswer (h : s.Sound) {accepted : Bool}
    (hanswer : accepted = true → index ∈ s.accepted) : (s.handleAnswer index accepted).Sound := by
  unfold Uploads.handleAnswer
  split
  · rename_i k hwaiter
    obtain ⟨data, hphase⟩ := h.waiting index k hwaiter
    rw [hphase]
    have herased : Sound { s with acceptWaiters := s.acceptWaiters.erase index } := by
      refine ⟨h.sizes, h.counted, h.current, h.alone, h.granted, fun i k' hmem => ?_, h.answered,
        h.offered, h.distinct, h.queued, h.slices⟩
      change (s.acceptWaiters.erase index)[i]? = some k' at hmem
      by_cases hne : index = i
      · subst hne
        rw [getElem?_erase_eq, if_pos rfl] at hmem
        exact (Option.some_ne_none _ hmem.symm).elim
      · rw [getElem?_erase_ne _ hne] at hmem
        exact h.waiting i k' hmem
    have hcurrent : (s.phase k).current = some (index, data, 0) := by
      rw [hphase]
      rfl
    have hsome : s.phase k ≠ .next := by
      rw [hphase]
      exact SendPhase.noConfusion
    apply herased.move (phase_setPhase (lt_of_phase hsome))
    · intro i d o hnow
      obtain ⟨rfl, rfl, rfl⟩ : index = i ∧ data = d ∧ 0 = o := by
        simpa only [SendPhase.resume, SendPhase.current, Option.some.injEq, Prod.mk.injEq] using hnow
      exact h.own hcurrent
    · intro hgranted i d o hnow
      obtain ⟨rfl, -, -⟩ : index = i ∧ data = d ∧ 0 = o := by
        simpa only [SendPhase.resume, SendPhase.current, Option.some.injEq, Prod.mk.injEq] using hnow
      exact hanswer hgranted
    · -- Nobody else waits for this task: it is at this offer.
      intro i hmem
      obtain ⟨d, hat⟩ := herased.waiting i k hmem
      change s.phase k = _ at hat
      rw [hphase, SendPhase.offered.injEq] at hat
      obtain ⟨rfl, -⟩ := hat
      change (s.acceptWaiters.erase index)[index]? = some k at hmem
      rw [getElem?_erase_eq, if_pos rfl] at hmem
      exact (Option.some_ne_none _ hmem.symm).elim
  · exact h

/-- Where the tasks stand after a disconnect. Kind: L -/
theorem phase_map_resume (s : Uploads) (k : ℕ) : Uploads.phase { s with
    tasks := s.tasks.map fun t => { t with phase := t.phase.resume false } } k =
      (s.phase k).resume false := by
  unfold Uploads.phase
  rw [List.getElem?_map]
  cases s.tasks[k]? with
  | none => rfl
  | some t => rfl

/-- A disconnect keeps what holds. Kind: L -/
theorem Sound.disconnect (h : s.Sound) : Sound { s with
    ready := false
    acceptWaiters := ∅
    tasks := s.tasks.map fun t => { t with phase := t.phase.resume false } } := by
  have hcurrent (phase : SendPhase) : (phase.resume false).current = phase.current := by
    cases phase <;> rfl
  have hgranted (phase : SendPhase) (hyes : (phase.resume false).granted = true) :
      phase.granted = true := by
    cases phase with
    | offered index data => exact Bool.noConfusion hyes
    | next => exact hyes
    | resumed accepted index data => exact hyes
    | sending index data offset => exact hyes
  refine ⟨h.sizes, h.counted, fun k i d o hnow => ?_, fun k k' i d d' o o' hnow hnow' => ?_,
    fun k i d o hyes hnow => ?_, fun i k hmem => ?_, h.answered, h.offered, h.distinct, h.queued,
    h.slices⟩
  · change (Uploads.phase { s with tasks := _ } k).current = _ at hnow
    rw [phase_map_resume, hcurrent] at hnow
    exact h.current k i d o hnow
  · change (Uploads.phase { s with tasks := _ } k).current = _ at hnow
    change (Uploads.phase { s with tasks := _ } k').current = _ at hnow'
    rw [phase_map_resume, hcurrent] at hnow hnow'
    exact h.alone k k' i d d' o o' hnow hnow'
  · change (Uploads.phase { s with tasks := _ } k).granted = true at hyes
    change (Uploads.phase { s with tasks := _ } k).current = _ at hnow
    rw [phase_map_resume] at hyes hnow
    rw [hcurrent] at hnow
    exact h.granted k i d o (hgranted _ hyes) hnow
  · have hnone : (∅ : Std.ExtTreeMap ℕ ℕ)[i]? = none := Std.ExtTreeMap.getElem?_empty
    exact (Option.some_ne_none _ (hmem.symm.trans hnone)).elim

/-! ## Every step -/

/-- Who has the main actor, and how much is buffered, is nothing to what holds. Kind: L -/
theorem Sound.setBusy (h : s.Sound) (busy : Option ℕ) (bufferedAmount : ℕ) : Sound { s with
    busy := busy
    bufferedAmount := bufferedAmount } :=
  ⟨h.sizes, h.counted, h.current, h.alone, h.granted, h.waiting, h.answered, h.offered, h.distinct,
    h.queued, h.slices⟩

/-- A message to the receiver that is no offer keeps what holds. Kind: L -/
theorem Sound.complete (h : s.Sound) :
    Sound { s with signals := s.signals ++ [PhoneSignal.fileComplete] } := by
  have hoffers : offers { s with signals := s.signals ++ [PhoneSignal.fileComplete] } = s.offers := by
    unfold offers
    rw [List.filterMap_append]
    exact List.append_nil _
  refine ⟨h.sizes, h.counted, h.current, h.alone, h.granted, h.waiting, h.answered,
    fun i name size mime hi => ?_, hoffers ▸ h.distinct, h.queued, h.slices⟩
  obtain hi | hi := List.mem_append.mp hi
  · exact h.offered i name size mime hi
  · exact PhoneSignal.noConfusion (List.mem_singleton.mp hi)

/-- A turn of a task keeps what holds. Kind: L -/
theorem Sound.turn (h : s.Sound) {ok : Bool} (hturn : s.turn k ok (s.phase k) = some s') :
    s'.Sound := by
  cases hphase : s.phase k with
  | next =>
      rw [hphase] at hturn
      exact (Option.some_ne_none _ hturn.symm).elim
  | offered index data =>
      rw [hphase] at hturn
      exact (Option.some_ne_none _ hturn.symm).elim
  | resumed accepted index data =>
      have hsome : s.phase k ≠ .next := by
        rw [hphase]
        exact SendPhase.noConfusion
      have hnot (i : ℕ) (d : Blob) : s.phase k ≠ .offered i d := by
        rw [hphase]
        exact SendPhase.noConfusion
      rw [hphase] at hturn
      cases accepted with
      | false =>
          obtain rfl := Option.some.inj hturn
          exact ((h.setBusy none _).mark).setNext hsome hnot
      | true =>
          obtain rfl := Option.some.inj hturn
          have hcurrent : (s.phase k).current = some (index, data, 0) := by
            rw [hphase]
            rfl
          have hmarked : (Uploads.mark { s with busy := some k } index .sending).Sound :=
            (h.setBusy (some k) s.bufferedAmount).mark
          apply hmarked.move (phase_setPhase (lt_of_phase hsome))
          · intro i d o hnow
            exact hmarked.own (hcurrent.trans hnow)
          · intro _ i d o hnow
            refine h.granted k i d o ?_ (hcurrent.trans hnow)
            rw [hphase]
            rfl
          · intro i hwaiter
            exact (h.not_waiting hnot i hwaiter).elim
  | sending index data offset =>
      have hsome : s.phase k ≠ .next := by
        rw [hphase]
        exact SendPhase.noConfusion
      have hnot (i : ℕ) (d : Blob) : s.phase k ≠ .offered i d := by
        rw [hphase]
        exact SendPhase.noConfusion
      rw [hphase] at hturn
      simp only [Uploads.turn] at hturn
      split at hturn
      · rename_i hless
        split at hturn
        · obtain rfl := Option.some.inj hturn
          exact h.setBusy none _
        · split at hturn
          · obtain rfl := Option.some.inj hturn
            have hstart : offset < min (offset + chunkSize) data.count := by
              refine lt_min ?_ hless
              exact Nat.lt_add_of_pos_right (by decide)
            exact (h.setBusy (some k) _).chunk hphase hstart (min_le_right _ _)
          · obtain rfl := Option.some.inj hturn
            exact ((h.setBusy none _).mark).setNext hsome hnot
      · obtain rfl := Option.some.inj hturn
        exact ((h.setBusy none s.bufferedAmount).complete.mark).setNext hsome hnot

variable {key : PeerRoomKey} {absolute : Str → Str} {e : Event}

/-- **What holds in every state reached**: a step keeps it. Kind: P -/
theorem sound_step (h : s.Sound) (hstep : s.step key absolute e = some s') : s'.Sound := by
  cases e with
  | select items =>
      simp only [step] at hstep
      split at hstep
      · obtain rfl := Option.some.inj hstep
        have hphase : Uploads.phase { s with tasks := s.tasks ++ [⟨items, .next⟩] } = s.phase := by
          funext k
          unfold Uploads.phase
          obtain hlt | heq | hgt := lt_trichotomy k s.tasks.length
          · rw [List.getElem?_append_left hlt]
          · rw [List.getElem?_append_right heq.ge, heq, Nat.sub_self, List.getElem?_eq_none le_rfl]
            rfl
          · rw [List.getElem?_eq_none, List.getElem?_eq_none hgt.le]
            rw [List.length_append, List.length_singleton]
            exact hgt
        exact ⟨h.sizes, h.counted, hphase ▸ h.current, hphase ▸ h.alone, hphase ▸ h.granted,
          hphase ▸ h.waiting, h.answered, h.offered, h.distinct, h.queued, h.slices⟩
      · exact (Option.some_ne_none _ hstep.symm).elim
  | take k =>
      simp only [step] at hstep
      split at hstep
      · split at hstep
        · rename_i item rest htask
          obtain rfl := Option.some.inj hstep
          refine h.take (List.getElem?_eq_some_iff.mp htask).1 ?_
          unfold Uploads.phase
          rw [htask]
          rfl
        · exact (Option.some_ne_none _ hstep.symm).elim
      · exact (Option.some_ne_none _ hstep.symm).elim
  | turn k ok =>
      simp only [step] at hstep
      split at hstep
      · exact h.turn hstep
      · exact (Option.some_ne_none _ hstep.symm).elim
  | handled j verdict =>
      simp only [step] at hstep
      split at hstep
      · rename_i index name size mime hj
        obtain rfl := Option.some.inj hstep
        exact h.handled hj _ _
      · obtain rfl := Option.some.inj hstep
        have hsub : (s.signals.eraseIdx j).Sublist s.signals := List.eraseIdx_sublist _ _
        exact ⟨h.sizes, h.counted, h.current, h.alone, h.granted, h.waiting, h.answered,
          fun i name size mime hi => h.offered i name size mime (hsub.subset hi),
          h.distinct.sublist (hsub.filterMap _), h.queued, h.slices⟩
      · exact (Option.some_ne_none _ hstep.symm).elim
  | answered j =>
      simp only [step] at hstep
      split at hstep
      · obtain ⟨⟨index, accepted⟩, hj, rfl⟩ := Option.map_eq_some_iff.mp hstep
        have hrest : Sound { s with answers := s.answers.eraseIdx j } :=
          ⟨h.sizes, h.counted, h.current, h.alone, h.granted, h.waiting,
            fun i hi => h.answered i (List.mem_of_mem_eraseIdx hi), h.offered, h.distinct, h.queued,
            h.slices⟩
        refine hrest.handleAnswer ?_
        rintro rfl
        exact h.answered index (List.mem_of_getElem? hj)
      · exact (Option.some_ne_none _ hstep.symm).elim
  | drain n =>
      simp only [step] at hstep
      split at hstep
      · obtain rfl := Option.some.inj hstep
        exact h.setBusy s.busy _
      · exact (Option.some_ne_none _ hstep.symm).elim
  | deliver =>
      obtain ⟨slice, -, rfl⟩ := Option.map_eq_some_iff.mp hstep
      exact ⟨h.sizes, h.counted, h.current, h.alone, h.granted, h.waiting, h.answered, h.offered,
        h.distinct, h.queued, h.slices⟩
  | disconnect =>
      simp only [step] at hstep
      split at hstep
      · obtain rfl := Option.some.inj hstep
        exact h.disconnect
      · exact (Option.some_ne_none _ hstep.symm).elim

end Uploads

end CloudNode
