import CloudNode.Transfer.Framing

/-!
# When the loop over a file ends

The worker reads a file into a buffer of `maxMessageSize` bytes and sends what it gets. While more
than that is buffered it waits, and it waits after a `send` that did not get through at once; a wait
is over when no more than half of `maxMessageSize` is buffered. The channel stays open and drains
what is buffered, and it tells the worker when that falls to the half.

The worker tests and then falls asleep, and the channel tells it without holding the mutex. When the
channel gets down to the half in between, it tells nobody, and there is no second time.

* `step` — the loop, from the allocation of its buffer on, and the channel.
* `step_cases` — what each step needs and what it leaves.
* `decreases_of_step` — with a buffer that holds something, every step makes `rest` smaller.
* `Reached.step` — while the worker is not missed, it sleeps only when there is more to drain.
* `ends_iff_positive` — the loop ends then, with the file sent, exactly for a positive size.
* `not_ends_of_zero`, `not_ends_when_missed` — a size of zero, and a worker that is missed.
-/

namespace CloudNode

namespace SendLoop

/-- `static_cast<size_t>` of an `int`.
Source: `WebRTCClient.cpp`, `MakeDataChannel`, `maxMessageSize`
Kind: D -/
def messageSize (maxMessageSize : BitVec 32) : ℕ := (maxMessageSize.signExtend 64).toNat

/-- Which of its waits the worker is in: the one before a message is sent, or the one after.
Source: `WebRTCClient.cpp`, `MakeDataChannel`, the two calls of `waitForCapacity`
Kind: D -/
inductive Wait where
  | before
  | after
  deriving DecidableEq

/-- Where the loop stands: its buffer is not allocated, it is to read, it has read a message, it is
to test whether it must wait, it has found that it must, it is asleep, it has ended, or the buffer
could not be allocated. Kind: D -/
inductive Phase where
  | allocating
  | reading
  | checking
  | testing (w : Wait)
  | blocking (w : Wait)
  | asleep (w : Wait)
  | done
  | aborted
  deriving DecidableEq

end SendLoop

/-- The loop over one file, and the channel. Kind: D -/
structure SendLoop where
  /-- What is left to read. -/
  left : List UInt8
  /-- What is in the buffer and was not sent. -/
  chunk : List UInt8 := []
  phase : SendLoop.Phase := .allocating
  bufferedAmount : ℕ := 0
  sent : List (List UInt8) := []

namespace SendLoop

/-- What can happen. Kind: D -/
inductive Event where
  /-- The buffer is allocated: a vector holds less than `2^63` bytes. -/
  | allocate
  | read
  /-- More than `maxMessageSize` is buffered: the worker waits before it sends. -/
  | throttle
  /-- The message is sent, at once or not. -/
  | send (atOnce : Bool)
  /-- The worker tests what is buffered, with the mutex. -/
  | test
  /-- The worker releases the mutex and sleeps. -/
  | block
  /-- The channel drains some bytes. -/
  | drain (count : ℕ)

/-- Where the worker goes on after a wait. Kind: D -/
def resume : Wait → Phase
  | .before => .checking
  | .after => .reading

/-- What is buffered falls to the threshold: the channel calls `onBufferedAmountLow`.
Source: `WebRTCClient.cpp`, `MakeDataChannel`, `setBufferedAmountLowThreshold`
Kind: D -/
def low (size : ℕ) (s : SendLoop) (count : ℕ) : Bool :=
  size / 2 < s.bufferedAmount && s.bufferedAmount - count ≤ size / 2

/-- The worker is told: it wakes if it sleeps. Kind: D -/
def told : Phase → Phase
  | .asleep w => .testing w
  | phase => phase

/-- One step.
Source: `WebRTCClient.cpp`, `MakeDataChannel`, the loop over a file and `waitForCapacity`
Kind: D -/
def step (size : ℕ) (s : SendLoop) : Event → Option SendLoop
  | .allocate =>
    if s.phase = .allocating then
      some { s with phase := if size < 2 ^ 63 then .reading else .aborted }
    else none
  | .read =>
    if s.phase = .reading then
      match sendTurn size s.left with
      | none => some { s with phase := .done }
      | some (chunk, left) =>
        some { s with
          left := left
          chunk := chunk
          phase := .checking }
    else none
  | .throttle =>
    if s.phase = .checking ∧ size < s.bufferedAmount then
      some { s with phase := .testing .before }
    else none
  | .send atOnce =>
    if s.phase = .checking ∧ s.bufferedAmount ≤ size then
      some { s with
        chunk := []
        phase := if atOnce then .reading else .testing .after
        bufferedAmount := s.bufferedAmount + s.chunk.length
        sent := s.sent ++ [s.chunk] }
    else none
  | .test =>
    match s.phase with
    | .testing w =>
      some { s with phase := if s.bufferedAmount ≤ size / 2 then resume w else .blocking w }
    | _ => none
  | .block =>
    match s.phase with
    | .blocking w => some { s with phase := .asleep w }
    | _ => none
  | .drain count =>
    if 0 < count ∧ count ≤ s.bufferedAmount then
      some { s with
        bufferedAmount := s.bufferedAmount - count
        phase := if low size s count then told s.phase else s.phase }
    else none

/-- The worker opened a file. Kind: D -/
def initial (content : List UInt8) : SendLoop where
  left := content

/-- The channel does not get down to the threshold between the worker's test and its sleep.
Kind: D -/
def heard (size : ℕ) (s : SendLoop) : Event → Prop
  | .drain count => low size s count = true → ∀ w, s.phase ≠ .blocking w
  | _ => True

/-- The loop ends: there is a bound on the length of runs, and a run that cannot go on has ended
with the content of the file sent. The runs are those with steps that meet `C`. Kind: D -/
def Ends (C : ℕ → SendLoop → Event → Prop) (content : List UInt8) (maxMessageSize : BitVec 32) :
    Prop :=
  ∃ bound, ∀ es s,
    Runs.Meets (step (messageSize maxMessageSize)) (C (messageSize maxMessageSize))
      (initial content) es →
    Runs.run (step (messageSize maxMessageSize)) (initial content) es = some s →
    es.length ≤ bound ∧
      ((∀ e, step (messageSize maxMessageSize) s e = none) →
        s.phase = .done ∧ s.sent.flatten = content)

variable {size : ℕ} {s s' : SendLoop} {e : Event} {content : List UInt8}

/-! ## What a step can be -/

/-- A step that is possible: its conditions, and what it leaves. Kind: D -/
inductive Step (size : ℕ) (s : SendLoop) : Event → SendLoop → Prop where
  | allocate (phase : s.phase = .allocating) : Step size s .allocate
      { s with phase := if size < 2 ^ 63 then .reading else .aborted }
  | finish (phase : s.phase = .reading) (turn : sendTurn size s.left = none) :
      Step size s .read { s with phase := .done }
  | read (chunk left : List UInt8) (phase : s.phase = .reading)
      (turn : sendTurn size s.left = some (chunk, left)) : Step size s .read { s with
        left := left
        chunk := chunk
        phase := .checking }
  | throttle (phase : s.phase = .checking) (above : size < s.bufferedAmount) :
      Step size s .throttle { s with phase := .testing .before }
  | send (atOnce : Bool) (phase : s.phase = .checking) (under : s.bufferedAmount ≤ size) :
      Step size s (.send atOnce) { s with
        chunk := []
        phase := if atOnce then .reading else .testing .after
        bufferedAmount := s.bufferedAmount + s.chunk.length
        sent := s.sent ++ [s.chunk] }
  | resume (w : Wait) (phase : s.phase = .testing w) (low : s.bufferedAmount ≤ size / 2) :
      Step size s .test { s with phase := resume w }
  | wait (w : Wait) (phase : s.phase = .testing w) (high : size / 2 < s.bufferedAmount) :
      Step size s .test { s with phase := .blocking w }
  | block (w : Wait) (phase : s.phase = .blocking w) :
      Step size s .block { s with phase := .asleep w }
  | drain (count : ℕ) (pos : 0 < count) (le : count ≤ s.bufferedAmount) :
      Step size s (.drain count) { s with
        bufferedAmount := s.bufferedAmount - count
        phase := if low size s count then told s.phase else s.phase }

/-- **Every step is one of these.** Kind: P -/
theorem step_cases (h : step size s e = some s') : Step size s e s' := by
  cases e with
  | allocate =>
      obtain ⟨hphase, h⟩ := Option.ite_none_right_eq_some.mp h
      exact Option.some.inj h ▸ .allocate hphase
  | read =>
      obtain ⟨hphase, h⟩ := Option.ite_none_right_eq_some.mp h
      split at h
      · rename_i hturn
        exact Option.some.inj h ▸ .finish hphase hturn
      · rename_i chunk left hturn
        exact Option.some.inj h ▸ .read chunk left hphase hturn
  | throttle =>
      obtain ⟨⟨hphase, hover⟩, h⟩ := Option.ite_none_right_eq_some.mp h
      exact Option.some.inj h ▸ .throttle hphase hover
  | send atOnce =>
      obtain ⟨⟨hphase, hunder⟩, h⟩ := Option.ite_none_right_eq_some.mp h
      exact Option.some.inj h ▸ .send atOnce hphase hunder
  | test =>
      simp only [step] at h
      split at h
      · rename_i w hphase
        split at h
        · rename_i hlow
          exact Option.some.inj h ▸ .resume w hphase hlow
        · rename_i hlow
          exact Option.some.inj h ▸ .wait w hphase (Nat.not_le.mp hlow)
      · exact (Option.some_ne_none _ h.symm).elim
  | block =>
      simp only [step] at h
      split at h
      · rename_i w hphase
        exact Option.some.inj h ▸ .block w hphase
      · exact (Option.some_ne_none _ h.symm).elim
  | drain count =>
      obtain ⟨⟨hpos, hle⟩, h⟩ := Option.ite_none_right_eq_some.mp h
      exact Option.some.inj h ▸ .drain count hpos hle

/-! ## Progress -/

/-- How far the worker is from its next read, where nothing drains. Kind: D -/
def distance (size : ℕ) (s : SendLoop) : ℕ :=
  match s.phase with
  | .done | .aborted => 0
  | .reading => 1
  | .allocating => 2
  | .asleep .after => 2
  | .blocking .after => 3
  | .testing .after => if s.bufferedAmount ≤ size / 2 then 2 else 4
  | .checking => if s.bufferedAmount ≤ size then 5 else 10
  | .testing .before => if s.bufferedAmount ≤ size / 2 then 6 else 9
  | .blocking .before => 8
  | .asleep .before => 7

/-- What is left to do: bytes to read, bytes to drain, and the way to the next read. Kind: D -/
def rest (size : ℕ) (s : SendLoop) : ℕ :=
  11 * s.left.length + 11 * (s.left.length + s.chunk.length + s.bufferedAmount) + distance size s

/-- What a read leaves, and that it is less. Kind: L -/
theorem sendTurn_eq_some (hsize : 0 < size) {left chunk left' : List UInt8}
    (h : sendTurn size left = some (chunk, left')) :
    chunk ++ left' = left ∧ left'.length < left.length := by
  rw [sendTurn_of_pos hsize] at h
  split at h
  · exact (Option.some_ne_none _ h.symm).elim
  · rename_i hne
    obtain ⟨rfl, rfl⟩ := Prod.mk.inj (Option.some.inj h)
    have hlength := List.length_pos_of_ne_nil hne
    refine ⟨List.take_append_drop size left, ?_⟩
    rw [List.length_drop]
    omega

/-- **Every step leaves less to do**, with a buffer that holds something. Kind: P -/
theorem decreases_of_step (hsize : 0 < size) (h : step size s e = some s') :
    rest size s' < rest size s := by
  cases step_cases h with
  | allocate hphase =>
      by_cases hlt : size < 2 ^ 63
      · simp only [rest, distance, hphase, if_pos hlt]
        omega
      · simp only [rest, distance, hphase, if_neg hlt]
        omega
  | finish hphase =>
      simp only [rest, distance, hphase]
      omega
  | read chunk left hphase hturn =>
      obtain ⟨happend, hless⟩ := sendTurn_eq_some hsize hturn
      have hlength := congrArg List.length happend
      rw [List.length_append] at hlength
      simp only [rest, distance, hphase]
      split <;> omega
  | throttle hphase hover =>
      simp only [rest, distance, hphase, if_neg (Nat.not_le.mpr hover)]
      split <;> omega
  | send atOnce hphase hunder =>
      cases atOnce with
      | true =>
          simp only [rest, distance, hphase, if_pos hunder, if_true, List.length_nil]
          omega
      | false =>
          simp only [rest, distance, hphase, if_pos hunder, Bool.false_eq_true, if_false,
            List.length_nil]
          split <;> omega
  | resume w hphase hlow =>
      have hunder : s.bufferedAmount ≤ size := by omega
      cases w with
      | before => simp [rest, distance, hphase, if_pos hlow, resume, hunder]
      | after => simp [rest, distance, hphase, if_pos hlow, resume]
  | wait w hphase hhigh =>
      have hnot : ¬ s.bufferedAmount ≤ size / 2 := Nat.not_le.mpr hhigh
      cases w with
      | before => simp [rest, distance, hphase, if_neg hnot]
      | after => simp [rest, distance, hphase, if_neg hnot]
  | block w hphase =>
      cases w with
      | before => simp [rest, distance, hphase]
      | after => simp [rest, distance, hphase]
  | drain count hpos hle =>
      have hfar : ∀ t : SendLoop, distance size t ≤ 10 := by
        intro t
        unfold distance
        split <;> first | omega | (split <;> omega)
      have hnear := hfar { s with
        bufferedAmount := s.bufferedAmount - count
        phase := if low size s count then told s.phase else s.phase }
      simp only [rest]
      omega

/-- What holds while the worker is not missed, with a buffer that can be allocated. Kind: D -/
structure Reached (size : ℕ) (content : List UInt8) (s : SendLoop) : Prop where
  content : s.sent.flatten ++ s.chunk ++ s.left = content
  unsent : s.chunk = [] ∨ s.phase = .checking ∨ s.phase = .testing .before ∨
    s.phase = .blocking .before ∨ s.phase = .asleep .before
  ended : s.phase = .done → s.left = []
  alive : s.phase ≠ .aborted
  deep : ∀ w, s.phase = .blocking w ∨ s.phase = .asleep w → size / 2 < s.bufferedAmount

/-- **A step keeps this**, unless the channel gets down to the threshold while the worker is between
its test and its sleep. Kind: P -/
theorem Reached.step (hs : Reached size content s) (hsize : 0 < size) (hmax : size < 2 ^ 63)
    (hheard : heard size s e) (h : step size s e = some s') : Reached size content s' := by
  obtain ⟨hcontent, hunsent, hended, halive, hdeep⟩ := hs
  cases step_cases h with
  | allocate hphase =>
      rw [if_pos hmax]
      exact ⟨hcontent, .inl (by simpa [hphase] using hunsent), nofun, nofun, nofun⟩
  | finish hphase hturn =>
      have hchunk : s.chunk = [] := by simpa [hphase] using hunsent
      rw [sendTurn_of_pos hsize] at hturn
      refine ⟨hcontent, .inl hchunk, fun _ => ?_, nofun, nofun⟩
      by_contra hne
      rw [if_neg hne] at hturn
      exact Option.some_ne_none _ hturn
  | read chunk left hphase hturn =>
      have hchunk : s.chunk = [] := by simpa [hphase] using hunsent
      refine ⟨?_, .inr (.inl rfl), nofun, nofun, nofun⟩
      rw [List.append_assoc, (sendTurn_eq_some hsize hturn).1]
      rw [hchunk, List.append_nil] at hcontent
      exact hcontent
  | throttle => exact ⟨hcontent, .inr (.inr (.inl rfl)), nofun, nofun, nofun⟩
  | send atOnce =>
      refine ⟨?_, .inl rfl, ?_, ?_, ?_⟩
      · rw [List.flatten_append, List.flatten_singleton, List.append_nil]
        exact hcontent
      all_goals cases atOnce <;> nofun
  | resume w hphase =>
      cases w with
      | before => exact ⟨hcontent, .inr (.inl rfl), nofun, nofun, nofun⟩
      | after => exact ⟨hcontent, .inl (by simpa [hphase] using hunsent), nofun, nofun, nofun⟩
  | wait w hphase hhigh =>
      refine ⟨hcontent, ?_, nofun, nofun, fun _ _ => hhigh⟩
      cases w with
      | before => exact .inr (.inr (.inr (.inl rfl)))
      | after => exact .inl (by simpa [hphase] using hunsent)
  | block w hphase =>
      refine ⟨hcontent, ?_, nofun, nofun, fun _ _ => hdeep w (.inl hphase)⟩
      cases w with
      | before => exact .inr (.inr (.inr (.inr rfl)))
      | after => exact .inl (by simpa [hphase] using hunsent)
  | drain count =>
      by_cases hlow : low size s count = true
      · -- The worker is told, and it did not just test.
        have hawake := hheard hlow
        simp only [if_pos hlow]
        cases hphase : s.phase with
        | blocking w => exact (hawake w hphase).elim
        | asleep w =>
            cases w with
            | before => exact ⟨hcontent, .inr (.inr (.inl rfl)), nofun, nofun, nofun⟩
            | after =>
                exact ⟨hcontent, .inl (by simpa [hphase] using hunsent), nofun, nofun, nofun⟩
        | aborted => exact (halive hphase).elim
        | done =>
            rw [hphase] at hunsent
            exact ⟨hcontent, hunsent, fun _ => hended hphase, nofun, nofun⟩
        | _ =>
            rw [hphase] at hunsent
            exact ⟨hcontent, hunsent, nofun, nofun, nofun⟩
      · simp only [if_neg hlow]
        refine ⟨hcontent, hunsent, hended, halive, fun w hw => ?_⟩
        have hover := hdeep w hw
        simp only [low, Bool.and_eq_true, decide_eq_true_eq, not_and, Nat.not_le] at hlow
        exact hlow hover

/-- **A loop that cannot go on has ended**, with everything sent. Kind: P -/
theorem Reached.ended_of_stuck (hs : Reached size content s) (hstuck : ∀ e, SendLoop.step size s e = none) :
    s.phase = .done ∧ s.sent.flatten = content := by
  obtain ⟨hcontent, hunsent, hended, halive, hdeep⟩ := hs
  cases hphase : s.phase with
  | allocating =>
      have hnone := hstuck .allocate
      rw [SendLoop.step, if_pos hphase] at hnone
      exact (Option.some_ne_none _ hnone).elim
  | reading =>
      have hnone := hstuck .read
      rw [SendLoop.step, if_pos hphase] at hnone
      split at hnone
      · exact (Option.some_ne_none _ hnone).elim
      · exact (Option.some_ne_none _ hnone).elim
  | checking =>
      by_cases hover : size < s.bufferedAmount
      · have hnone := hstuck .throttle
        rw [SendLoop.step, if_pos ⟨hphase, hover⟩] at hnone
        exact (Option.some_ne_none _ hnone).elim
      · have hnone := hstuck (.send true)
        rw [SendLoop.step, if_pos ⟨hphase, Nat.not_lt.mp hover⟩] at hnone
        exact (Option.some_ne_none _ hnone).elim
  | testing w =>
      have hnone := hstuck .test
      simp only [SendLoop.step, hphase] at hnone
      exact (Option.some_ne_none _ hnone).elim
  | blocking w =>
      have hnone := hstuck .block
      simp only [SendLoop.step, hphase] at hnone
      exact (Option.some_ne_none _ hnone).elim
  | asleep w =>
      -- There is more to drain.
      have hover := hdeep w (.inr hphase)
      have hnone := hstuck (.drain 1)
      rw [SendLoop.step, if_pos ⟨Nat.one_pos, Nat.one_le_of_lt hover⟩] at hnone
      exact (Option.some_ne_none _ hnone).elim
  | done =>
      have hchunk : s.chunk = [] := by simpa [hphase] using hunsent
      rw [hchunk, hended hphase, List.append_nil, List.append_nil] at hcontent
      exact ⟨rfl, hcontent⟩
  | aborted => exact (halive hphase).elim

/-- Before the first step. Kind: L -/
theorem reached_initial (size : ℕ) (content : List UInt8) : Reached size content (initial content) :=
  ⟨rfl, .inl rfl, nofun, nofun, nofun⟩

/-- **With a buffer that can be allocated and holds something, the loop ends.** Kind: P -/
theorem ends_of_pos {maxMessageSize : BitVec 32} (hpos : 0 < messageSize maxMessageSize)
    (hmax : messageSize maxMessageSize < 2 ^ 63) : Ends heard content maxMessageSize := by
  refine ⟨rest (messageSize maxMessageSize) (initial content), fun es s hmeets hrun => ⟨?_, ?_⟩⟩
  · have hlength := Runs.length_le_of_measure _ (fun _ _ _ => decreases_of_step hpos) hrun
    omega
  · have halways := Runs.always_of_meets _ (fun s e s' hs hheard h =>
      Reached.step hs hpos hmax hheard h) (reached_initial _ content) hmeets
    have hs := (Runs.always_iff _).mp halways es s List.prefix_rfl hrun
    exact hs.ended_of_stuck

/-! ## Which sizes -/

/-- A positive size is the size of the buffer. Kind: L -/
theorem messageSize_of_pos {maxMessageSize : BitVec 32} (hpos : 0 < maxMessageSize.toInt) :
    0 < messageSize maxMessageSize ∧ messageSize maxMessageSize < 2 ^ 63 := by
  have hext : (maxMessageSize.signExtend 64).toInt = maxMessageSize.toInt :=
    BitVec.toInt_signExtend_of_le (by omega)
  have hlt := BitVec.toInt_lt (x := maxMessageSize)
  rw [BitVec.toInt_eq_toNat_cond] at hext
  simp only [messageSize]
  split at hext
  · omega
  · omega

/-- A size below zero is a buffer that no vector holds. Kind: L -/
theorem messageSize_of_neg {maxMessageSize : BitVec 32} (hneg : maxMessageSize.toInt < 0) :
    ¬ messageSize maxMessageSize < 2 ^ 63 := by
  have hext : (maxMessageSize.signExtend 64).toInt = maxMessageSize.toInt :=
    BitVec.toInt_signExtend_of_le (by omega)
  rw [BitVec.toInt_eq_toNat_cond] at hext
  simp only [messageSize]
  split at hext
  · omega
  · omega

/-- A worker whose buffer cannot be allocated goes no further. Kind: L -/
theorem stuck_of_aborted (hphase : s.phase = .aborted) (hnone : s.bufferedAmount = 0) (e : Event) :
    step size s e = none := by
  cases e with
  | drain count =>
      rw [step, if_neg]
      rintro ⟨hpos, hle⟩
      omega
  | _ => simp [step, hphase]

/-- The loop with a buffer of no bytes, after some turns. Kind: L -/
theorem run_of_zero (content : List UInt8) (turns : ℕ) : ∃ s, Runs.run (step 0) (initial content)
    (.allocate :: (List.replicate turns [Event.read, .send true]).flatten) = some s := by
  have hturns : ∀ (n : ℕ) (s : SendLoop), s.phase = .reading → s.bufferedAmount = 0 →
      ∃ s', Runs.run (step 0) s (List.replicate n [Event.read, .send true]).flatten = some s' := by
    intro n
    induction n with
    | zero => exact fun s _ _ => ⟨s, rfl⟩
    | succ n ih =>
        intro s hphase hnone
        have hturn : sendTurn 0 s.left = some ([], s.left) := by simp [sendTurn]
        obtain ⟨s', hs'⟩ := ih
          { s with
            phase := .reading
            chunk := []
            sent := s.sent ++ [[]] } rfl hnone
        refine ⟨s', ?_⟩
        simp only [List.replicate_succ, List.flatten_cons, List.cons_append, List.nil_append,
          Runs.run_cons, step, if_pos hphase, hturn, Option.bind_some]
        simpa [hnone] using hs'
  obtain ⟨s', hs'⟩ := hturns turns
    { initial content with phase := .reading } rfl rfl
  exact ⟨s', hs'⟩

/-- Where nothing drains, the worker is not missed. Kind: L -/
theorem meets_of_not_drain {es : List Event} (hes : ∀ e ∈ es, ∀ count, e ≠ .drain count) :
    Runs.Meets (step size) (heard size) s es := by
  refine Runs.meets_of_forall _ fun e he s => ?_
  cases e with
  | drain count => exact (hes _ he count rfl).elim
  | _ => trivial

/-- **The loop ends exactly for a positive size**, where the channel does not get down to the
threshold between the worker's test and its sleep. Kind: P -/
theorem ends_iff_positive (content : List UInt8) (maxMessageSize : BitVec 32) :
    Ends heard content maxMessageSize ↔ 0 < maxMessageSize.toInt := by
  constructor
  · rintro ⟨bound, hends⟩
    by_contra hpos
    by_cases hzero : maxMessageSize.toInt = 0
    · -- No bytes are read, and none are sent, again and again.
      obtain rfl : maxMessageSize = 0 := by
        apply BitVec.eq_of_toInt_eq
        rw [hzero]
        rfl
      obtain ⟨s, hrun⟩ := run_of_zero content (bound + 1)
      have hmeets : Runs.Meets (step 0) (heard 0) (initial content)
          (.allocate :: (List.replicate (bound + 1) [Event.read, .send true]).flatten) :=
        meets_of_not_drain (by simp)
      have hlength := (hends _ s hmeets hrun).1
      simp only [List.length_cons, List.length_flatten, List.map_replicate,
        List.sum_replicate_nat] at hlength
      simp only [List.length_nil] at hlength
      omega
    · -- The vector is not made.
      have hneg : maxMessageSize.toInt < 0 := by omega
      have hlarge := messageSize_of_neg hneg
      have hrun : Runs.run (step (messageSize maxMessageSize)) (initial content) [.allocate] =
          some { initial content with phase := .aborted } := by
        simp only [Runs.run_cons, step, initial, if_true, if_neg hlarge, Option.bind_some,
          Runs.run_nil]
      obtain ⟨-, hdone⟩ := hends _ _ (meets_of_not_drain (by simp)) hrun
      exact nomatch (hdone (stuck_of_aborted rfl rfl)).1
  · intro hpos
    obtain ⟨hsize, hmax⟩ := messageSize_of_pos hpos
    exact ends_of_pos hsize hmax

/-- With a size of zero the loop does not end, whatever the file and whatever the channel does.
Kind: P -/
theorem not_ends_of_zero : ¬ ∀ (content : List UInt8) (maxMessageSize : BitVec 32),
    Ends (fun _ _ _ => True) content maxMessageSize := by
  intro hall
  obtain ⟨bound, hends⟩ := hall [] 0
  obtain ⟨s, hrun⟩ := run_of_zero [] (bound + 1)
  have hlength := (hends _ s (Runs.meets_of_forall _ fun _ _ _ => trivial) hrun).1
  simp only [List.length_cons, List.length_flatten, List.map_replicate, List.sum_replicate_nat]
    at hlength
  simp only [List.length_nil] at hlength
  omega

/-- **A worker that is missed sleeps on**: the channel drains all it has after the worker's test and
before its sleep. Kind: P -/
theorem not_ends_when_missed : ¬ Ends (fun _ _ _ => True) [7] 1 := by
  rintro ⟨bound, hends⟩
  have hrun : Runs.run (step (messageSize 1)) (initial [7])
      [.allocate, .read, .send false, .test, .drain 1, .block] = some
        { left := []
          phase := .asleep .after
          sent := [[7]] } := by rfl
  obtain ⟨-, hdone⟩ := hends _ _ (Runs.meets_of_forall _ fun _ _ _ => trivial) hrun
  refine nomatch (hdone fun e => ?_).1
  cases e with
  | drain count =>
      rw [step, if_neg]
      rintro ⟨hpos, hle⟩
      have hnone : count ≤ 0 := hle
      omega
  | _ => rfl

end SendLoop

end CloudNode
