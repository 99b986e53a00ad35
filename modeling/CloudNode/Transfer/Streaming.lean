import CloudNode.Transfer.Draining

/-!
# The worker of a data channel

When a channel that this client offered opens, a thread is started that lives as long as the
channel: it takes a path from the channel's queue, opens and locks the file, reads it into a buffer
of `maxMessageSize` bytes and sends each buffer, and at the end of the file tells the receiver. The
channel may close between any two of its steps. Paths come from `OnFileAccept`, which looks the
queue up in `m_dataChannels` and adds to it when it has released the mutex; the entry may be gone by
then.

* `Faithful.step` — what holds of messages, files and paths at each step of the loop.
* `streams_of_run` — the channel gets the files one after the other, each as the messages of its
  content, and the receiver is told of those that it got whole.
* `accepted_of_closed` — nothing is sent on a channel that has closed.
* `canEnd_iff` — the thread of a closed channel can still end exactly when it is not stranded: in
  `GetItem`, with an empty queue that nobody else has.
-/

namespace CloudNode

/-- A file that is open for sending. Kind: D -/
structure OpenFile where
  path : Str
  /-- What was in it when it was locked. -/
  content : List UInt8
  left : List UInt8
  /-- What is in the buffer and was not sent. -/
  chunk : List UInt8 := []
  messages : List (List UInt8) := []
  /-- The stream came to the end of the file. -/
  ended : Bool := false
  bad : Bool := false

/-- Where the worker is.
Source: `WebRTCClient.cpp`, `MakeDataChannel`
Kind: D -/
inductive TransferPhase where
  /-- At the head of the loop. -/
  | heading
  /-- In `GetItem(fileQ)`. -/
  | waiting
  /-- With a path, before it looks at the channel again. -/
  | taken
  /-- Before it opens the file. -/
  | opening
  /-- Before `file.read`. -/
  | reading
  /-- Before it looks at `bufferedAmount()`. -/
  | checking
  /-- In `waitForCapacity`. -/
  | capacity (w : SendLoop.Wait)
  /-- Before `channel->send`. -/
  | sending
  /-- Behind the loop over the file. -/
  | finishing
  /-- Before `SendFileComplete`. -/
  | announcing
  /-- Returned, or left by an exception. -/
  | gone
  deriving DecidableEq

/-- The worker, its channel and queue, and who else has the queue.
Source: `WebRTCClient.cpp`, `MakeDataChannel` and `OnFileAccept`
Kind: D -/
structure FileTransferWorker where
  /-- The queue is in `m_dataChannels`. -/
  registered : Bool := true
  /-- The calls of `OnFileAccept` that have found the queue and not added to it. -/
  holders : ℕ := 0
  fileQ : List Str := []
  isOpen : Bool := true
  /-- `transfer->closed`. -/
  closed : Bool := false
  phase : TransferPhase := .heading
  /-- `*queuedFilePath`. -/
  path : Str := []
  file : Option OpenFile := none
  /-- What the channel accepted. -/
  accepted : List (List UInt8) := []
  /-- Every path that was added to the queue. -/
  queued : List Str := []
  /-- The files that the worker is done with. -/
  past : List OpenFile := []
  /-- The files that it reported with `SendFileComplete`. -/
  completed : List Str := []

namespace FileTransferWorker

/-- What can happen. Kind: D -/
inductive Event where
  /-- `OnFileAccept` finds the queue, and then adds a path. -/
  | findQueue
  | addItem (path : Str)
  /-- The entry of `m_dataChannels` is erased, cleared or replaced. -/
  | unregister
  /-- The channel closes, and calls `onClosed`. -/
  | closes
  | onClosed
  /-- The worker goes on, where nothing else decides how. -/
  | goOn
  /-- It opens the file, or cannot lock or open it. -/
  | opens (content : Option (List UInt8))
  /-- Reading fails. -/
  | readError
  /-- More than `maxMessageSize` is buffered, or not. -/
  | looks (full : Bool)
  /-- The wait for capacity is over, because there is some or because the channel closed. -/
  | awakes (low : Bool)
  /-- `send` takes the message, at once or not; on a closed channel it throws or does not
  take it. -/
  | sends (flag : Bool)

/-- One turn of `while (file.read(..) || file.gcount() > 0)`, up to the buffer. Kind: D -/
def read (size : ℕ) (w : FileTransferWorker) (f : OpenFile) : FileTransferWorker :=
  match sendTurn size f.left with
  | none => { w with file := some { f with ended := true }, phase := .finishing }
  | some (chunk, left) => { w with
      file := some { f with chunk := chunk, left := left, ended := chunk.length < size }
      phase := .checking }

/-- `bool transferSucceeded` and what depends on it. Kind: D -/
def finish (w : FileTransferWorker) (f : OpenFile) : FileTransferWorker :=
  { w with
    file := none
    past := w.past ++ [f]
    phase := if !f.bad && w.isOpen then .announcing else .heading }

/-- The worker goes on, where nothing else decides how.
Source: `WebRTCClient.cpp`, `MakeDataChannel`
Kind: D -/
def goOn (size : ℕ) (w : FileTransferWorker) : Option FileTransferWorker :=
  match w.phase, w.file with
  | .heading, _ => some { w with phase := if w.isOpen then .waiting else .gone }
  | .waiting, _ =>
    match w.fileQ with
    | [] => none
    | path :: fileQ => some { w with fileQ := fileQ, path := path, phase := .taken }
  | .taken, _ => some { w with
      phase := if !w.isOpen then .gone else if w.path = [] then .heading else .opening }
  | .reading, some f => some (w.read size f)
  | .finishing, some f => some (w.finish f)
  | .announcing, _ => some { w with completed := w.completed ++ [w.path], phase := .heading }
  | _, _ => none

/-- One step of the worker, of its channel or of `OnFileAccept`.
Source: `WebRTCClient.cpp`, `MakeDataChannel` and `OnFileAccept`
Kind: D -/
def step (size : ℕ) (w : FileTransferWorker) : Event → Option FileTransferWorker
  | .findQueue => if w.registered then some { w with holders := w.holders + 1 } else none
  | .addItem path =>
    if 0 < w.holders then
      some { w with
        holders := w.holders - 1
        fileQ := w.fileQ ++ [path]
        queued := w.queued ++ [path] }
    else none
  | .unregister => some { w with registered := false }
  | .closes => some { w with isOpen := false }
  | .onClosed => if w.isOpen then none else some { w with closed := true }
  | .goOn => w.goOn size
  | .opens content =>
    if w.phase = .opening then
      match content with
      | none => some { w with phase := .heading }
      | some content => some { w with
          file := some { path := w.path, content := content, left := content }
          phase := .reading }
    else none
  | .readError =>
    match w.phase, w.file with
    | .reading, some f =>
      if f.ended then none
      else some { w with file := some { f with bad := true }, phase := .finishing }
    | _, _ => none
  | .looks full =>
    if w.phase = .checking then
      some { w with phase := if full then .capacity .before else .sending }
    else none
  | .awakes low =>
    match w.phase with
    | .capacity wait =>
      if w.closed || !w.isOpen || low then
        some { w with
          phase := if w.closed || !w.isOpen then .gone
            else match wait with
              | .before => .checking
              | .after => .reading }
      else none
    | _ => none
  | .sends flag =>
    match w.phase, w.file with
    | .sending, some f =>
      if w.isOpen then
        some { w with
          file := some { f with messages := f.messages ++ [f.chunk], chunk := [] }
          accepted := w.accepted ++ [f.chunk]
          phase := if flag then .reading else .capacity .after }
      else some { w with phase := if flag then .gone else .capacity .after }
    | _, _ => none

/-! ## What holds of messages, files and paths -/

/-- What was sent of an open file, and what is still to be sent. Kind: D -/
structure InFile (size : ℕ) (phase : TransferPhase) (isOpen : Bool) (f : OpenFile) : Prop where
  sent : f.messages <+: chunks size f.content
  reading : phase = .reading ∨ phase = .capacity .after ∧ isOpen = true →
    f.messages ++ chunks size f.left = chunks size f.content
  buffered : phase = .checking ∨ phase = .sending ∨ phase = .capacity .before →
    f.messages ++ f.chunk :: chunks size f.left = chunks size f.content
  finishing : phase = .finishing → f.bad = false → f.messages = chunks size f.content
  /-- The worker has no file in the rest of its loop. -/
  inside : phase ≠ .heading ∧ phase ≠ .waiting ∧ phase ≠ .taken ∧ phase ≠ .opening ∧
    phase ≠ .announcing

/-- The path that the worker took from its queue and is not done with. Kind: D -/
def current (w : FileTransferWorker) : List Str :=
  if w.phase = .taken ∨ w.phase = .opening then [w.path] else w.file.toList.map OpenFile.path

/-- The invariant. Kind: D -/
structure Faithful (size : ℕ) (w : FileTransferWorker) : Prop where
  accepted : w.accepted = (w.past ++ w.file.toList).flatMap OpenFile.messages
  past : ∀ f ∈ w.past, f.messages <+: chunks size f.content ∧
    (f.bad = false → f.messages = chunks size f.content)
  file : ∀ f, w.file = some f → InFile size w.phase w.isOpen f ∧ f.path = w.path
  order : ∃ taken, w.queued = taken ++ w.fileQ ∧
    (w.past.map OpenFile.path ++ w.current).Sublist taken
  completed : (w.completed ++ if w.phase = .announcing then [w.path] else []).Sublist
    ((w.past.filter fun f => !f.bad).map OpenFile.path)

variable {size : ℕ} {w w' : FileTransferWorker} {e : Event} {f : OpenFile}

/-- Nothing was taken at first. Kind: L -/
theorem faithful_init (size : ℕ) : Faithful size {} where
  accepted := rfl
  past := by simp
  file := by simp
  order := ⟨[], rfl, by simp [current]⟩
  completed := by simp

/-- The next message of an open file is one of its content's. Kind: L -/
theorem InFile.sendable {phase : TransferPhase} {isOpen : Bool} (h : InFile size phase isOpen f)
    (hphase : phase = .sending) : f.messages ++ [f.chunk] <+: chunks size f.content := by
  rw [← h.buffered (.inr (.inl hphase))]
  exact ⟨chunks size f.left, by rw [List.append_assoc, List.singleton_append]⟩

/-- Another turn of the loop over the file. Kind: L -/
theorem Faithful.read (hsize : 0 < size) (h : Faithful size w) (hphase : w.phase = .reading)
    (hfile : w.file = some f) : Faithful size (w.read size f) := by
  obtain ⟨hin, hpath⟩ := h.file f hfile
  have hleft := hin.reading (.inl hphase)
  obtain ⟨taken, hqueued, hsub⟩ := h.order
  have hcurrent : w.current = [f.path] := by simp [current, hphase, hfile]
  rw [hcurrent] at hsub
  have hcompleted := h.completed
  simp only [hphase, reduceCtorEq, if_false] at hcompleted
  have haccepted := h.accepted
  rw [hfile] at haccepted
  unfold FileTransferWorker.read
  rw [sendTurn_of_pos hsize]
  split
  · rename_i hnone
    have hnil : f.left = [] := by
      by_contra hne
      rw [if_neg hne] at hnone
      cases hnone
    rw [hnil, chunks_nil, List.append_nil] at hleft
    refine ⟨by simpa using haccepted, h.past, ?_, ⟨taken, hqueued, by simpa [current] using hsub⟩,
      by simpa using hcompleted⟩
    intro g hg
    obtain rfl := Option.some.inj hg
    exact ⟨⟨hin.sent, by simp, by simp, fun _ _ => hleft, by simp⟩, hpath⟩
  · rename_i chunk left hsome
    have hne : f.left ≠ [] := by
      intro hnil
      rw [if_pos hnil] at hsome
      cases hsome
    rw [if_neg hne] at hsome
    obtain ⟨rfl, rfl⟩ := Prod.mk.inj (Option.some.inj hsome)
    rw [chunks_of_ne_nil hsize hne] at hleft
    refine ⟨by simpa using haccepted, h.past, ?_, ⟨taken, hqueued, by simpa [current] using hsub⟩,
      by simpa using hcompleted⟩
    intro g hg
    obtain rfl := Option.some.inj hg
    exact ⟨⟨hin.sent, by simp, fun _ => hleft, by simp, by simp⟩, hpath⟩

/-- The end of a file. Kind: L -/
theorem Faithful.finish (h : Faithful size w) (hphase : w.phase = .finishing)
    (hfile : w.file = some f) : Faithful size (w.finish f) := by
  obtain ⟨hin, hpath⟩ := h.file f hfile
  obtain ⟨taken, hqueued, hsub⟩ := h.order
  have hcurrent : w.current = [f.path] := by simp [current, hphase, hfile]
  rw [hcurrent] at hsub
  have hcompleted := h.completed
  simp only [hphase, reduceCtorEq, if_false, List.append_nil] at hcompleted
  have haccepted := h.accepted
  rw [hfile] at haccepted
  unfold FileTransferWorker.finish
  refine ⟨by simpa using haccepted, ?_, by simp, ⟨taken, hqueued, ?_⟩, ?_⟩
  · intro g hg
    rcases List.mem_append.mp hg with hg | hg
    · exact h.past g hg
    · rw [List.mem_singleton.mp hg]
      exact ⟨hin.sent, hin.finishing hphase⟩
  · have hnone : current { w with
        file := none
        past := w.past ++ [f]
        phase := if !f.bad && w.isOpen then .announcing else .heading } = [] := by
      cases f.bad <;> cases w.isOpen <;> simp [current]
    rw [hnone]
    simpa using hsub
  · simp only [List.filter_append, List.map_append]
    cases hbad : f.bad with
    | true => simpa [hbad] using hcompleted
    | false =>
        cases hopen : w.isOpen with
        | false =>
            simp only [Bool.not_false, Bool.and_false, Bool.false_eq_true, if_false,
              reduceCtorEq, List.append_nil]
            exact hcompleted.trans (List.sublist_append_left _ _)
        | true => simpa [hbad, hpath] using hcompleted.append (List.Sublist.refl [w.path])

/-- The worker has no file in the rest of its loop. Kind: L -/
theorem Faithful.file_eq_none (h : Faithful size w) (hphase : w.phase = .heading ∨
    w.phase = .waiting ∨ w.phase = .taken ∨ w.phase = .opening ∨ w.phase = .announcing) :
    w.file = none := by
  rw [Option.eq_none_iff_forall_ne_some]
  intro f hfile
  obtain ⟨hheading, hwaiting, htaken, hopening, hannouncing⟩ := (h.file f hfile).1.inside
  rcases hphase with hphase | hphase | hphase | hphase | hphase
  · exact hheading hphase
  · exact hwaiting hphase
  · exact htaken hphase
  · exact hopening hphase
  · exact hannouncing hphase

/-- The worker goes on. Kind: L -/
theorem Faithful.goOn (hsize : 0 < size) (h : Faithful size w) (he : w.goOn size = some w') :
    Faithful size w' := by
  obtain ⟨taken, hqueued, hsub⟩ := h.order
  have hcompleted := h.completed
  unfold FileTransferWorker.goOn at he
  cases hphase : w.phase with
  | heading =>
      have hnone := h.file_eq_none (.inl hphase)
      have hcurrent : w.current = [] := by simp [current, hphase, hnone]
      rw [hcurrent] at hsub
      simp only [hphase, Option.some.injEq] at he
      subst he
      simp only [hphase, reduceCtorEq, if_false] at hcompleted
      refine ⟨h.accepted, h.past, by simp [hnone], ⟨taken, hqueued, ?_⟩, ?_⟩
      · cases hopen : w.isOpen <;> simpa [current, hnone] using hsub
      · cases hopen : w.isOpen <;> simpa using hcompleted
  | waiting =>
      have hnone := h.file_eq_none (.inr (.inl hphase))
      have hcurrent : w.current = [] := by simp [current, hphase, hnone]
      rw [hcurrent, List.append_nil] at hsub
      simp only [hphase, reduceCtorEq, if_false] at hcompleted
      cases hqueue : w.fileQ with
      | nil => simp [hphase, hqueue] at he
      | cons path fileQ =>
          simp only [hphase, hqueue, Option.some.injEq] at he
          subst he
          refine ⟨h.accepted, h.past, by simp [hnone], ⟨taken ++ [path], ?_, ?_⟩,
            by simpa using hcompleted⟩
          · rw [hqueued, hqueue, List.append_assoc, List.singleton_append]
          · simpa [current] using hsub.append (List.Sublist.refl [path])
  | taken =>
      have hnone := h.file_eq_none (.inr (.inr (.inl hphase)))
      have hless := (List.sublist_append_left (w.past.map OpenFile.path) w.current).trans hsub
      simp only [hphase, reduceCtorEq, if_false] at hcompleted
      simp only [hphase, Option.some.injEq] at he
      subst he
      have hcurrent : w.current = [w.path] := by simp [current, hphase]
      rw [hcurrent] at hsub
      refine ⟨h.accepted, h.past, by simp [hnone], ⟨taken, hqueued, ?_⟩, ?_⟩
      · split
        · simpa [current, hnone] using hless
        · split
          · simpa [current, hnone] using hless
          · simpa [current] using hsub
      · split
        · simpa using hcompleted
        · split <;> simpa using hcompleted
  | reading =>
      cases hfile : w.file with
      | none => simp [hphase, hfile] at he
      | some f =>
          simp only [hphase, hfile, Option.some.injEq] at he
          exact he ▸ h.read hsize hphase hfile
  | finishing =>
      cases hfile : w.file with
      | none => simp [hphase, hfile] at he
      | some f =>
          simp only [hphase, hfile, Option.some.injEq] at he
          exact he ▸ h.finish hphase hfile
  | announcing =>
      have hnone := h.file_eq_none (.inr (.inr (.inr (.inr hphase))))
      have hcurrent : w.current = [] := by simp [current, hphase, hnone]
      rw [hcurrent] at hsub
      simp only [hphase, Option.some.injEq] at he
      subst he
      simp only [hphase, if_true] at hcompleted
      exact ⟨h.accepted, h.past, by simp [hnone], ⟨taken, hqueued, by simpa [current, hnone] using hsub⟩,
        by simpa using hcompleted⟩
  | opening | checking | capacity | sending | gone => simp [hphase] at he

/-- The worker goes to another place in the loop over its file, or leaves it. Kind: L -/
theorem Faithful.move (h : Faithful size w) {phase : TransferPhase}
    (hcurrent : current { w with phase := phase } = w.current)
    (hannouncing : w.phase ≠ .announcing ∧ phase ≠ .announcing)
    (hin : ∀ f, w.file = some f → InFile size phase w.isOpen f) :
    Faithful size { w with phase := phase } := by
  obtain ⟨taken, hqueued, hsub⟩ := h.order
  have hcompleted := h.completed
  rw [if_neg hannouncing.1] at hcompleted
  refine ⟨h.accepted, h.past, fun f hf => ⟨hin f hf, (h.file f hf).2⟩, ⟨taken, hqueued, ?_⟩, ?_⟩
  · rw [hcurrent]
    exact hsub
  · rw [if_neg hannouncing.2]
    exact hcompleted

/-- The worker opens the file, or cannot. Kind: L -/
theorem Faithful.opens (h : Faithful size w) (hphase : w.phase = .opening)
    {content : Option (List UInt8)} (he : w.step size (.opens content) = some w') :
    Faithful size w' := by
  obtain ⟨taken, hqueued, hsub⟩ := h.order
  have hnone := h.file_eq_none (.inr (.inr (.inr (.inl hphase))))
  have hcompleted := h.completed
  simp only [hphase, reduceCtorEq, if_false] at hcompleted
  have haccepted := h.accepted
  rw [hnone] at haccepted
  have hcurrent : w.current = [w.path] := by simp [current, hphase]
  rw [hcurrent] at hsub
  simp only [step, hphase, if_true] at he
  cases content with
  | none =>
      obtain rfl := Option.some.inj he
      have hless := (List.sublist_append_left (w.past.map OpenFile.path) [w.path]).trans hsub
      exact ⟨h.accepted, h.past, by simp [hnone],
        ⟨taken, hqueued, by simpa [current, hnone] using hless⟩, by simpa using hcompleted⟩
  | some content =>
      obtain rfl := Option.some.inj he
      refine ⟨by simpa using haccepted, h.past, ?_, ⟨taken, hqueued, by simpa [current] using hsub⟩,
        by simpa using hcompleted⟩
      intro g hg
      obtain rfl := Option.some.inj hg
      exact ⟨⟨List.nil_prefix, fun _ => rfl, by simp, by simp, by simp⟩, rfl⟩

/-- A message is sent, or the channel has closed. Kind: L -/
theorem Faithful.sends (h : Faithful size w) {flag : Bool}
    (he : w.step size (.sends flag) = some w') : Faithful size w' := by
  unfold step at he
  cases hphase : w.phase with
  | sending =>
      cases hfile : w.file with
      | none => simp [hphase, hfile] at he
      | some f =>
          obtain ⟨hin, hpath⟩ := h.file f hfile
          obtain ⟨taken, hqueued, hsub⟩ := h.order
          have hcompleted := h.completed
          simp only [hphase, reduceCtorEq, if_false] at hcompleted
          simp only [hphase, hfile] at he
          split at he
          · obtain rfl := Option.some.inj he
            have hcurrent : w.current = [f.path] := by simp [current, hphase, hfile]
            rw [hcurrent] at hsub
            have haccepted := h.accepted
            rw [hfile] at haccepted
            have hleft := hin.buffered (.inr (.inl hphase))
            rw [← List.singleton_append, ← List.append_assoc] at hleft
            refine ⟨?_, h.past, ?_, ⟨taken, hqueued, ?_⟩, ?_⟩
            · simp [haccepted]
            · intro g hg
              obtain rfl := Option.some.inj hg
              refine ⟨⟨hin.sendable hphase, fun _ => hleft, ?_, ?_, ?_⟩, hpath⟩
              all_goals cases flag <;> simp
            · cases flag <;> simpa [current] using hsub
            · cases flag <;> simpa using hcompleted
          · rename_i hclosed
            obtain rfl := Option.some.inj he
            have hopen : w.isOpen = false := by simpa using hclosed
            rw [← hfile]
            apply h.move
            · cases flag <;> simp [current, hphase]
            · cases flag <;> simp [hphase]
            · intro g hg
              obtain ⟨hin, -⟩ := h.file g hg
              refine ⟨hin.sent, ?_, ?_, ?_, ?_⟩
              all_goals cases flag <;> simp [hopen]
  | heading | waiting | taken | opening | reading | checking | capacity | finishing | announcing
  | gone => simp [hphase] at he

/-- The wait for capacity is over. Kind: L -/
theorem Faithful.awakes (h : Faithful size w) {low : Bool}
    (he : w.step size (.awakes low) = some w') : Faithful size w' := by
  unfold step at he
  cases hphase : w.phase with
  | capacity wait =>
      simp only [hphase] at he
      obtain ⟨-, he⟩ := Option.ite_none_right_eq_some.mp he
      obtain rfl := Option.some.inj he
      by_cases hclosed : (w.closed || !w.isOpen) = true
      · rw [if_pos hclosed]
        apply h.move
        · simp [current, hphase]
        · simp [hphase]
        · exact fun g hg => ⟨(h.file g hg).1.sent, by simp, by simp, by simp, by simp⟩
      · rw [if_neg hclosed]
        have hopen : w.isOpen = true := by
          by_contra hshut
          exact hclosed (by simp [hshut])
        cases wait with
        | before =>
            apply h.move
            · simp [current, hphase]
            · simp [hphase]
            · intro g hg
              have hbuffered := (h.file g hg).1.buffered (.inr (.inr hphase))
              exact ⟨(h.file g hg).1.sent, by simp, fun _ => hbuffered, by simp, by simp⟩
        | after =>
            apply h.move
            · simp [current, hphase]
            · simp [hphase]
            · intro g hg
              have hreading := (h.file g hg).1.reading (.inr ⟨hphase, hopen⟩)
              exact ⟨(h.file g hg).1.sent, fun _ => hreading, by simp, by simp, by simp⟩
  | heading | waiting | taken | opening | reading | checking | sending | finishing | announcing
  | gone => simp [hphase] at he

/-- **What holds of messages, files and paths**: what one step keeps. Kind: P -/
theorem Faithful.step (hsize : 0 < size) (h : Faithful size w) (he : w.step size e = some w') :
    Faithful size w' := by
  cases e with
  | findQueue =>
      obtain ⟨-, he⟩ := Option.ite_none_right_eq_some.mp he
      exact Option.some.inj he ▸ { h with }
  | addItem path =>
      obtain ⟨-, he⟩ := Option.ite_none_right_eq_some.mp he
      obtain rfl := Option.some.inj he
      obtain ⟨taken, hqueued, hsub⟩ := h.order
      exact { h with order := ⟨taken, by rw [hqueued, List.append_assoc], hsub⟩ }
  | unregister => exact Option.some.inj he ▸ { h with }
  | closes =>
      obtain rfl := Option.some.inj he
      refine { h with file := fun f hf => ?_ }
      obtain ⟨hin, hpath⟩ := h.file f hf
      refine ⟨{ hin with reading := fun hreading => hin.reading ?_ }, hpath⟩
      exact hreading.imp_right fun hwrong => absurd hwrong.2 Bool.false_ne_true
  | onClosed =>
      obtain ⟨-, he⟩ := Option.ite_none_left_eq_some.mp he
      exact Option.some.inj he ▸ { h with }
  | goOn => exact h.goOn hsize he
  | opens content =>
      obtain ⟨hphase, -⟩ := Option.ite_none_right_eq_some.mp he
      exact h.opens hphase he
  | readError =>
      unfold FileTransferWorker.step at he
      cases hphase : w.phase with
      | reading =>
          cases hfile : w.file with
          | none => simp [hphase, hfile] at he
          | some f =>
              simp only [hphase, hfile] at he
              obtain ⟨-, he⟩ := Option.ite_none_left_eq_some.mp he
              obtain rfl := Option.some.inj he
              obtain ⟨hin, hpath⟩ := h.file f hfile
              obtain ⟨taken, hqueued, hsub⟩ := h.order
              have hcompleted := h.completed
              simp only [hphase, reduceCtorEq, if_false] at hcompleted
              have haccepted := h.accepted
              rw [hfile] at haccepted
              have hcurrent : w.current = [f.path] := by simp [current, hphase, hfile]
              rw [hcurrent] at hsub
              refine ⟨by simpa using haccepted, h.past, ?_,
                ⟨taken, hqueued, by simpa [current] using hsub⟩, by simpa using hcompleted⟩
              intro g hg
              obtain rfl := Option.some.inj hg
              exact ⟨⟨hin.sent, by simp, by simp, by simp, by simp⟩, hpath⟩
      | heading | waiting | taken | opening | checking | capacity | sending | finishing | announcing
      | gone => simp [hphase] at he
  | looks full =>
      obtain ⟨hphase, he⟩ := Option.ite_none_right_eq_some.mp he
      obtain rfl := Option.some.inj he
      apply h.move
      · cases full <;> simp [current, hphase]
      · cases full <;> simp [hphase]
      · intro g hg
        have hbuffered := (h.file g hg).1.buffered (.inl hphase)
        refine ⟨(h.file g hg).1.sent, ?_, fun _ => hbuffered, ?_, ?_⟩
        all_goals cases full <;> simp
  | awakes low => exact h.awakes he
  | sends flag => exact h.sends he

/-- The invariant holds in every state that a run reaches. Kind: L -/
theorem faithful_of_run (hsize : 0 < size) {es : List Event}
    (hrun : Runs.run (step size) {} es = some w) : Faithful size w :=
  Runs.invariant_of_run (step size) (fun _ _ _ h => h.step hsize) (faithful_init size) hrun

/-- **What the channel gets**: in every run, whatever closes when and whatever cannot be read, the
messages on the channel are those of the files that the worker is done with, one after the other,
and then those of the file that it is at or was left at. A file's messages are the first messages of
its content, and all of them when no read failed; the files are in the order of the queue, and the
receiver is told, in that order, of files that it got whole. Kind: P -/
theorem streams_of_run (hsize : 0 < size) {es : List Event}
    (hrun : Runs.run (step size) {} es = some w) :
    w.accepted = (w.past ++ w.file.toList).flatMap OpenFile.messages ∧
    (∀ f ∈ w.past ++ w.file.toList, f.messages <+: chunks size f.content) ∧
    (∀ f ∈ w.past, f.bad = false → f.messages = chunks size f.content) ∧
    ((w.past ++ w.file.toList).map OpenFile.path).Sublist w.queued ∧
    w.completed.Sublist ((w.past.filter fun f => !f.bad).map OpenFile.path) := by
  have h := faithful_of_run hsize hrun
  obtain ⟨taken, hqueued, hsub⟩ := h.order
  refine ⟨h.accepted, fun f hf => ?_, fun f hf => (h.past f hf).2, ?_, ?_⟩
  · rcases List.mem_append.mp hf with hf | hf
    · exact (h.past f hf).1
    · exact (h.file f (Option.mem_toList.mp hf)).1.sent
  · have hfile : (w.file.toList.map OpenFile.path).Sublist w.current := by
      unfold current
      split
      · rename_i hphase
        rw [h.file_eq_none (hphase.elim (fun h => .inr (.inr (.inl h)))
          fun h => .inr (.inr (.inr (.inl h))))]
        exact List.nil_sublist _
      · exact List.Sublist.refl _
    rw [List.map_append, hqueued]
    exact ((hfile.append_left _).trans hsub).trans (List.sublist_append_left _ _)
  · exact (List.sublist_append_left _ _).trans h.completed

/-- Two files are accepted, and the channel closes in the second. Kind: D -/
def closedInSecond : List Event :=
  [.findQueue, .findQueue, .goOn, .addItem (str "a"), .addItem (str "b"), .goOn, .goOn,
    .opens (some [1, 2, 3]), .goOn, .looks false, .sends true, .goOn, .looks true, .awakes true,
    .looks false, .sends false, .awakes true, .goOn, .goOn, .goOn, .goOn, .goOn, .goOn,
    .opens (some [4, 5, 6]), .goOn, .looks false, .sends true, .goOn, .closes, .looks false,
    .sends false, .onClosed, .awakes false]

/-- The second file is cut, and only the first one reported. Kind: L -/
theorem streams_closedInSecond : ∃ w, Runs.run (step 2) {} closedInSecond = some w ∧
    w.accepted = [[1, 2], [3], [4, 5]] ∧ w.completed = [str "a"] ∧
    (w.accepted = (w.past ++ w.file.toList).flatMap OpenFile.messages ∧
      (∀ f ∈ w.past ++ w.file.toList, f.messages <+: chunks 2 f.content) ∧
      (∀ f ∈ w.past, f.bad = false → f.messages = chunks 2 f.content) ∧
      ((w.past ++ w.file.toList).map OpenFile.path).Sublist w.queued ∧
      w.completed.Sublist ((w.past.filter fun f => !f.bad).map OpenFile.path)) := by
  have hrun : Runs.run (step 2) {} closedInSecond = some _ := rfl
  exact ⟨_, hrun, rfl, rfl, streams_of_run Nat.two_pos hrun⟩

/-! ## After the channel has closed -/

/-- A closed channel stays closed, and takes nothing. Kind: L -/
theorem closed_step (hclosed : w.isOpen = false) (he : w.step size e = some w') :
    w'.isOpen = false ∧ w'.accepted = w.accepted := by
  unfold step at he
  cases e with
  | findQueue | addItem | onClosed | looks =>
      simp only [Option.ite_none_left_eq_some, Option.ite_none_right_eq_some, Option.some.injEq] at he
      obtain ⟨-, rfl⟩ := he
      exact ⟨hclosed, rfl⟩
  | unregister => exact Option.some.inj he ▸ ⟨hclosed, rfl⟩
  | closes => exact Option.some.inj he ▸ ⟨rfl, rfl⟩
  | goOn =>
      simp only [goOn] at he
      split at he
      · exact Option.some.inj he ▸ ⟨hclosed, rfl⟩
      · split at he
        · cases he
        · exact Option.some.inj he ▸ ⟨hclosed, rfl⟩
      · exact Option.some.inj he ▸ ⟨hclosed, rfl⟩
      · obtain rfl := Option.some.inj he
        unfold read
        split
        · exact ⟨hclosed, rfl⟩
        · exact ⟨hclosed, rfl⟩
      · exact Option.some.inj he ▸ ⟨hclosed, rfl⟩
      · exact Option.some.inj he ▸ ⟨hclosed, rfl⟩
      · cases he
  | opens content =>
      obtain ⟨-, he⟩ := Option.ite_none_right_eq_some.mp he
      cases content with
      | none => exact Option.some.inj he ▸ ⟨hclosed, rfl⟩
      | some content => exact Option.some.inj he ▸ ⟨hclosed, rfl⟩
  | readError =>
      simp only at he
      split at he
      · obtain ⟨-, he⟩ := Option.ite_none_left_eq_some.mp he
        exact Option.some.inj he ▸ ⟨hclosed, rfl⟩
      · cases he
  | awakes low =>
      simp only at he
      split at he
      · obtain ⟨-, he⟩ := Option.ite_none_right_eq_some.mp he
        exact Option.some.inj he ▸ ⟨hclosed, rfl⟩
      · cases he
  | sends flag =>
      simp only at he
      split at he
      · rw [if_neg (by simp [hclosed])] at he
        exact Option.some.inj he ▸ ⟨hclosed, rfl⟩
      · cases he

/-- **Nothing is sent on a channel that has closed.** Kind: P -/
theorem accepted_of_closed (hclosed : w.isOpen = false) {es : List Event}
    (hrun : Runs.run (step size) w es = some w') : w'.accepted = w.accepted := by
  have hend : w'.isOpen = false ∧ w'.accepted = w.accepted := by
    refine Runs.invariant_of_run (step size)
      (I := fun v => v.isOpen = false ∧ v.accepted = w.accepted) ?_ ⟨hclosed, rfl⟩ hrun
    rintro v e v' ⟨hclosed, hsame⟩ he
    obtain ⟨hclosed', hsame'⟩ := closed_step hclosed he
    exact ⟨hclosed', hsame'.trans hsame⟩
  exact hend.2

/-- In the loop over a file, or right behind it. Kind: D -/
def inLoop : TransferPhase → Bool
  | .reading | .checking | .capacity _ | .sending | .finishing => true
  | _ => false

/-- The worker has a file wherever its loop needs one. Kind: D -/
def Holding (w : FileTransferWorker) : Prop := inLoop w.phase = true → ∃ f, w.file = some f

/-- Outside of the loop over a file none is needed. Kind: L -/
theorem holding_of_outside (h : inLoop w.phase = false) : Holding w := by
  intro hloop
  rw [h] at hloop
  cases hloop

/-- The worker goes on with its file. Kind: L -/
theorem holding_goOn (he : w.goOn size = some w') : Holding w' := by
  unfold goOn at he
  split at he
  · obtain rfl := Option.some.inj he
    apply holding_of_outside
    cases w.isOpen <;> rfl
  · split at he
    · cases he
    · obtain rfl := Option.some.inj he
      exact holding_of_outside rfl
  · obtain rfl := Option.some.inj he
    apply holding_of_outside
    show inLoop (if !w.isOpen then _ else if w.path = [] then _ else _) = false
    split
    · rfl
    · split <;> rfl
  · obtain rfl := Option.some.inj he
    unfold read
    split
    · exact fun _ => ⟨_, rfl⟩
    · exact fun _ => ⟨_, rfl⟩
  · obtain rfl := Option.some.inj he
    apply holding_of_outside
    show inLoop (if !_ && w.isOpen then _ else _) = false
    split <;> rfl
  · obtain rfl := Option.some.inj he
    exact holding_of_outside rfl
  · cases he

/-- A step keeps the file where the loop needs it. Kind: L -/
theorem holding_step (h : Holding w) (he : w.step size e = some w') : Holding w' := by
  unfold step at he
  cases e with
  | findQueue | addItem | onClosed =>
      simp only [Option.ite_none_left_eq_some, Option.ite_none_right_eq_some, Option.some.injEq] at he
      obtain ⟨-, rfl⟩ := he
      exact h
  | unregister | closes => exact Option.some.inj he ▸ h
  | goOn => exact holding_goOn he
  | looks full =>
      obtain ⟨hphase, he⟩ := Option.ite_none_right_eq_some.mp he
      obtain rfl := Option.some.inj he
      exact fun _ => h (by rw [hphase]; rfl)
  | opens content =>
      obtain ⟨-, he⟩ := Option.ite_none_right_eq_some.mp he
      cases content with
      | none => exact Option.some.inj he ▸ holding_of_outside rfl
      | some content =>
          obtain rfl := Option.some.inj he
          exact fun _ => ⟨_, rfl⟩
  | readError =>
      simp only at he
      split at he
      · obtain ⟨-, he⟩ := Option.ite_none_left_eq_some.mp he
        obtain rfl := Option.some.inj he
        exact fun _ => ⟨_, rfl⟩
      · cases he
  | awakes low =>
      simp only at he
      split at he
      · rename_i wait hphase
        obtain ⟨-, he⟩ := Option.ite_none_right_eq_some.mp he
        obtain rfl := Option.some.inj he
        exact fun _ => h (by rw [hphase]; rfl)
      · cases he
  | sends flag =>
      simp only at he
      split at he
      · rename_i f hphase hfile
        split at he
        · obtain rfl := Option.some.inj he
          exact fun _ => ⟨_, rfl⟩
        · obtain rfl := Option.some.inj he
          exact fun _ => ⟨f, hfile⟩
      · cases he

/-- There is a continuation in which the worker's thread ends. Kind: D -/
def CanEnd (size : ℕ) (w : FileTransferWorker) : Prop :=
  ∃ es w', Runs.run (step size) w es = some w' ∧ w'.phase = .gone

/-- The worker waits for a path, and nobody is left who could add one. Kind: D -/
def Stranded (w : FileTransferWorker) : Prop :=
  w.phase = .waiting ∧ w.fileQ = [] ∧ w.registered = false ∧ w.holders = 0

/-- It may take one more step. Kind: L -/
theorem CanEnd.of_step (h : CanEnd size w') (he : w.step size e = some w') : CanEnd size w := by
  obtain ⟨es, v, hrun, hgone⟩ := h
  exact ⟨e :: es, v, (Runs.run_cons_eq_some _).mpr ⟨w', he, hrun⟩, hgone⟩

/-- Who is stranded stays so. Kind: L -/
theorem Stranded.step (h : Stranded w) (he : w.step size e = some w') : Stranded w' := by
  obtain ⟨hphase, hqueue, hregistered, hholders⟩ := h
  unfold FileTransferWorker.step at he
  cases e with
  | findQueue => simp [hregistered] at he
  | addItem path => simp [hholders] at he
  | unregister => exact Option.some.inj he ▸ ⟨hphase, hqueue, rfl, hholders⟩
  | closes => exact Option.some.inj he ▸ ⟨hphase, hqueue, hregistered, hholders⟩
  | onClosed =>
      obtain ⟨-, he⟩ := Option.ite_none_left_eq_some.mp he
      exact Option.some.inj he ▸ ⟨hphase, hqueue, hregistered, hholders⟩
  | goOn => simp [goOn, hphase, hqueue] at he
  | opens | readError | looks | awakes | sends => simp [hphase] at he

/-- A worker at the head of its loop finds the channel closed. Kind: L -/
theorem canEnd_of_heading (hclosed : w.isOpen = false) (hphase : w.phase = .heading) :
    CanEnd size w := by
  refine ⟨[.goOn], { w with phase := .gone }, ?_, rfl⟩
  simp [Runs.run_cons, step, goOn, hphase, hclosed]

/-- A worker that gets a path finds the channel closed. Kind: L -/
theorem canEnd_of_queued (hclosed : w.isOpen = false) (hphase : w.phase = .waiting)
    (hqueue : w.fileQ ≠ []) : CanEnd size w := by
  cases hitems : w.fileQ with
  | nil => exact absurd hitems hqueue
  | cons path fileQ =>
      refine ⟨[.goOn, .goOn], { w with fileQ := fileQ, path := path, phase := .gone }, ?_, rfl⟩
      simp [Runs.run_cons, step, goOn, hphase, hitems, hclosed]

/-- A worker that waits ends when somebody can add a path. Kind: L -/
theorem canEnd_of_waiting (hclosed : w.isOpen = false) (hphase : w.phase = .waiting)
    (hsafe : ¬ Stranded w) : CanEnd size w := by
  by_cases hqueue : w.fileQ = []
  · have hadd : ∀ {v : FileTransferWorker}, v.isOpen = false → v.phase = .waiting →
        0 < v.holders → CanEnd size v := by
      intro v hclosed hphase hholders
      have he : v.step size (.addItem []) = some { v with
          holders := v.holders - 1, fileQ := v.fileQ ++ [[]], queued := v.queued ++ [[]] } :=
        if_pos hholders
      exact (canEnd_of_queued (by exact hclosed) (by exact hphase) (by simp)).of_step he
    by_cases hholders : w.holders = 0
    · have hregistered : w.registered = true := by
        by_contra hgone
        exact hsafe ⟨hphase, hqueue, by simpa using hgone, hholders⟩
      have he : w.step size .findQueue = some { w with holders := w.holders + 1 } :=
        if_pos hregistered
      exact (hadd (by exact hclosed) (by exact hphase) (Nat.succ_pos _)).of_step he
    · exact hadd hclosed hphase (Nat.pos_of_ne_zero hholders)
  · exact canEnd_of_queued hclosed hphase hqueue

/-- A message is refused by the closed channel. Kind: L -/
theorem canEnd_of_sending (hclosed : w.isOpen = false) (hphase : w.phase = .sending)
    (hholding : Holding w) : CanEnd size w := by
  obtain ⟨f, hfile⟩ := hholding (by rw [hphase]; rfl)
  refine ⟨[.sends true], { w with phase := .gone }, ?_, rfl⟩
  simp [Runs.run_cons, step, hphase, hfile, hclosed]

/-- The worker is about to look at what is buffered. Kind: L -/
theorem canEnd_of_checking (hclosed : w.isOpen = false) (hphase : w.phase = .checking)
    (hholding : Holding w) : CanEnd size w := by
  have he : w.step size (.looks false) = some { w with phase := .sending } := if_pos hphase
  have hholding' := holding_step hholding he
  exact (canEnd_of_sending (by exact hclosed) rfl hholding').of_step he

/-- The worker is behind its loop over a file. Kind: L -/
theorem canEnd_of_finishing (hclosed : w.isOpen = false) (hphase : w.phase = .finishing)
    (hholding : Holding w) : CanEnd size w := by
  obtain ⟨f, hfile⟩ := hholding (by rw [hphase]; rfl)
  have he : w.step size .goOn = some (w.finish f) := by simp [step, goOn, hphase, hfile]
  have hheading : (w.finish f).phase = .heading := if_neg (by simp [hclosed])
  exact (canEnd_of_heading (by exact hclosed) hheading).of_step he

/-- The worker is about to read. Kind: L -/
theorem canEnd_of_reading (hclosed : w.isOpen = false) (hphase : w.phase = .reading)
    (hholding : Holding w) : CanEnd size w := by
  obtain ⟨f, hfile⟩ := hholding (by rw [hphase]; rfl)
  have he : w.step size .goOn = some (w.read size f) := by simp [step, goOn, hphase, hfile]
  have hholding' := holding_step hholding he
  obtain ⟨hclosed', -⟩ := closed_step hclosed he
  refine CanEnd.of_step ?_ he
  cases hturn : sendTurn size f.left with
  | none => exact canEnd_of_finishing hclosed' (by simp [read, hturn]) hholding'
  | some turn => exact canEnd_of_checking hclosed' (by simp [read, hturn]) hholding'

/-- Where it is not stranded, a worker whose channel has closed can end. Kind: L -/
theorem canEnd_of_closed (hclosed : w.isOpen = false) (hholding : Holding w)
    (hsafe : ¬ Stranded w) : CanEnd size w := by
  cases hphase : w.phase with
  | heading => exact canEnd_of_heading hclosed hphase
  | waiting => exact canEnd_of_waiting hclosed hphase hsafe
  | taken =>
      refine ⟨[.goOn], { w with phase := .gone }, ?_, rfl⟩
      simp [Runs.run_cons, step, goOn, hphase, hclosed]
  | opening =>
      have he : w.step size (.opens none) = some { w with phase := .heading } := if_pos hphase
      exact (canEnd_of_heading (by exact hclosed) rfl).of_step he
  | reading => exact canEnd_of_reading hclosed hphase hholding
  | checking => exact canEnd_of_checking hclosed hphase hholding
  | capacity wait =>
      refine ⟨[.awakes false], { w with phase := .gone }, ?_, rfl⟩
      simp [Runs.run_cons, step, hphase, hclosed]
  | sending => exact canEnd_of_sending hclosed hphase hholding
  | finishing => exact canEnd_of_finishing hclosed hphase hholding
  | announcing =>
      have he : w.step size .goOn =
          some { w with completed := w.completed ++ [w.path], phase := .heading } := by
        simp [step, goOn, hphase]
      exact (canEnd_of_heading (by exact hclosed) rfl).of_step he
  | gone => exact ⟨[], w, rfl, hphase⟩

/-- **Which threads are left over**: in every state that is reached with the channel closed, the
worker can still end exactly when it is not stranded. A stranded one is never woken, for
`WakeFileTransferWorkers` and `onClosed` notify a condition variable that it does not wait at.
Kind: P -/
theorem canEnd_iff {es : List Event} (hrun : Runs.run (step size) {} es = some w)
    (hclosed : w.isOpen = false) : CanEnd size w ↔ ¬ Stranded w := by
  have hholding : Holding w :=
    Runs.invariant_of_run (step size) (fun _ _ _ => holding_step) (holding_of_outside rfl) hrun
  constructor
  · rintro ⟨es, v, hend, hgone⟩ hstranded
    have hstill : Stranded v :=
      Runs.invariant_of_run (step size) (fun _ _ _ => Stranded.step) hstranded hend
    rw [hstill.1] at hgone
    cases hgone
  · exact canEnd_of_closed hclosed hholding

/-- The connection to the server is lost while the worker waits for a path. Kind: D -/
def closedWhileWaiting : List Event := [.goOn, .unregister, .closes, .onClosed]

/-- That thread is left over. Kind: L -/
theorem canEnd_closedWhileWaiting : ∃ w, Runs.run (step 2) {} closedWhileWaiting = some w ∧
    (CanEnd 2 w ↔ ¬ Stranded w) ∧ Stranded w := by
  have hrun : Runs.run (step 2) {} closedWhileWaiting = some _ := rfl
  exact ⟨_, hrun, canEnd_iff hrun rfl, rfl, rfl, rfl, rfl⟩

end FileTransferWorker

end CloudNode
