import CloudNode.Lib.Runs
import CloudNode.Sync.Debouncing

/-!
# When the watcher's thread wakes

`Run` is a loop around `poll`. While changes are pending it lets `poll` wait until their deadline,
rounded up to a millisecond and cast to an `int`; otherwise it waits for events only. When `poll`
returns, it reads and handles what there is to be read, and calls `FlushIfQuiet`. `Stop` clears
`m_running`, makes the second descriptor readable, and joins the thread.

`WatchLoop` is the thread, the clock, and the calls of `Notify` and `FlushIfQuiet` that were made,
from which `m_pending` and `m_deadline` follow. Time may pass between any two steps, and events may
come at any time; an event is what handling it passes to `Notify`.

* `waitMs` — the time that `poll` is given.
* `step` — a step of the thread, of the clock, of the kernel, or of `Stop`.
* `waitMs_of_pending` — the wait ends with the quiet period, where the `int` has room for it.
* `always_prompt_iff` — which timeouts the loop wakes up for in time, in every run.
* `stop_ends` — what the thread still does once `Stop` has woken it.
-/

namespace CloudNode

/-- Where the thread is in `Run`.
Source: `FileWatcher.cpp`, `Run`
Kind: D -/
inductive WatchPhase where
  /-- Before `m_running` is read. -/
  | top
  /-- The clock was read at `start`, and the wait computed. -/
  | computed (start wait : ℤ)
  /-- In `poll`, since `called`. -/
  | polling (start called wait : ℤ)
  /-- `poll` has found the descriptors readable, or its time was up. -/
  | polled (readable woken : Bool)
  /-- In `HandleEvents`, with the calls of `Notify` that are left. -/
  | handling (left : List (Location × FileChange))
  | ended

/-- The thread, its clock in nanoseconds, and `Stop`. Kind: D -/
structure WatchLoop where
  /-- `m_timeout`, in milliseconds. -/
  timeout : ℤ
  now : ℤ := 0
  calls : List FileWatcher.Call := []
  phase : WatchPhase := .top
  running : Bool := true
  /-- `m_wakeFd` is readable. -/
  woken : Bool := false
  /-- What the kernel has events of. -/
  unread : List (List (Location × FileChange)) := []

/-- `std::chrono::ceil<std::chrono::milliseconds>`, of nanoseconds. Kind: D -/
def ceilMs (d : ℤ) : ℤ := -(-d / 1000000)

/-- `static_cast<int>`. Kind: D -/
def toInt32 (n : ℤ) : ℤ := (n + 2 ^ 31) % 2 ^ 32 - 2 ^ 31

/-- The timeout that `poll` is given.
Source: `FileWatcher.cpp`, `Run`, `waitMs`
Kind: D -/
def FileWatcher.waitMs (w : FileWatcher) (now : ℤ) : ℤ :=
  if w.pending.isEmpty = true then -1 else toInt32 (max 0 (ceilMs (w.deadline - now)))

namespace WatchLoop

open FileWatcher (Call after)

/-- What can happen. Kind: D -/
inductive Event where
  /-- Time passes. -/
  | tick (now : ℤ)
  /-- The kernel has an event. -/
  | occurs (changes : List (Location × FileChange))
  /-- `Stop` clears `m_running`. -/
  | stop
  /-- `Stop` writes to `m_wakeFd`. -/
  | wake
  /-- The thread reads `m_running`, and the clock. -/
  | test
  /-- It calls `poll`. -/
  | poll
  /-- `poll` returns because there is something to read. -/
  | ready
  /-- `poll` returns because its time is up. -/
  | expire
  /-- `poll` returns because of a signal. -/
  | interrupted
  /-- `poll` fails. -/
  | failed
  /-- The thread was woken, and leaves. -/
  | leave
  /-- It reads some events. -/
  | read (count : ℕ)
  /-- It calls `Notify`. -/
  | notify
  /-- It calls `FlushIfQuiet`. -/
  | flush

/-- `m_pending` and `m_deadline`. Kind: D -/
def watcher (s : WatchLoop) : FileWatcher := after (s.timeout * 1000000) {} s.calls

/-- One step.
Source: `FileWatcher.cpp`, `Run` and `Stop`
Kind: D -/
def step (s : WatchLoop) : Event → Option WatchLoop
  | .tick now => if s.now ≤ now then some { s with now := now } else none
  | .occurs changes => some { s with unread := s.unread ++ [changes] }
  | .stop => if s.running then some { s with running := false } else none
  | .wake => if s.running then none else some { s with woken := true }
  | .test =>
    match s.phase with
    | .top =>
      some { s with
        phase := if s.running then .computed s.now (s.watcher.waitMs s.now) else .ended }
    | _ => none
  | .poll =>
    match s.phase with
    | .computed start wait => some { s with phase := .polling start s.now wait }
    | _ => none
  | .ready =>
    match s.phase with
    | .polling _ _ _ =>
      if s.woken ∨ ¬ s.unread.isEmpty then
        some { s with phase := .polled (!s.unread.isEmpty) s.woken }
      else none
    | _ => none
  | .expire =>
    match s.phase with
    | .polling _ called wait =>
      if 0 ≤ wait ∧ called + wait * 1000000 ≤ s.now ∧ ¬ s.woken ∧ s.unread.isEmpty then
        some { s with phase := .polled false false }
      else none
    | _ => none
  | .interrupted =>
    match s.phase with
    | .polling _ _ _ => some { s with phase := .top }
    | _ => none
  | .failed =>
    match s.phase with
    | .polling _ _ _ => some { s with phase := .ended }
    | _ => none
  | .leave =>
    match s.phase with
    | .polled _ true => some { s with phase := .ended }
    | _ => none
  | .read count =>
    match s.phase with
    | .polled true false =>
      if 0 < count ∧ count ≤ s.unread.length then
        some { s with
          unread := s.unread.drop count
          phase := .handling (s.unread.take count).flatten }
      else none
    | _ => none
  | .notify =>
    match s.phase with
    | .handling ((path, change) :: left) =>
      some { s with
        calls := s.calls ++ [⟨s.now, .notify path change⟩]
        phase := .handling left }
    | _ => none
  | .flush =>
    match s.phase with
    | .polled false false | .handling [] =>
      some { s with calls := s.calls ++ [⟨s.now, .flushIfQuiet⟩], phase := .top }
    | _ => none

/-- What each step needs and what it leaves. Kind: D -/
inductive Step (s : WatchLoop) : Event → WatchLoop → Prop where
  | tick (now : ℤ) (hnow : s.now ≤ now) : Step s (.tick now) { s with now := now }
  | occurs (changes : List (Location × FileChange)) :
      Step s (.occurs changes) { s with unread := s.unread ++ [changes] }
  | stop (hrunning : s.running = true) : Step s .stop { s with running := false }
  | wake (hrunning : s.running = false) : Step s .wake { s with woken := true }
  | test (hphase : s.phase = .top) : Step s .test { s with
      phase := if s.running then .computed s.now (s.watcher.waitMs s.now) else .ended }
  | poll {start wait : ℤ} (hphase : s.phase = .computed start wait) :
      Step s .poll { s with phase := .polling start s.now wait }
  | ready {start called wait : ℤ} (hphase : s.phase = .polling start called wait)
      (hready : s.woken = true ∨ s.unread ≠ []) :
      Step s .ready { s with phase := .polled (!s.unread.isEmpty) s.woken }
  | expire {start called wait : ℤ} (hphase : s.phase = .polling start called wait)
      (hwait : 0 ≤ wait) (hdue : called + wait * 1000000 ≤ s.now) (hwoken : s.woken = false)
      (hunread : s.unread = []) : Step s .expire { s with phase := .polled false false }
  | interrupted {start called wait : ℤ} (hphase : s.phase = .polling start called wait) :
      Step s .interrupted { s with phase := .top }
  | failed {start called wait : ℤ} (hphase : s.phase = .polling start called wait) :
      Step s .failed { s with phase := .ended }
  | leave {readable : Bool} (hphase : s.phase = .polled readable true) :
      Step s .leave { s with phase := .ended }
  | read {count : ℕ} (hphase : s.phase = .polled true false) (hcount : 0 < count)
      (hle : count ≤ s.unread.length) : Step s (.read count) { s with
        unread := s.unread.drop count
        phase := .handling (s.unread.take count).flatten }
  | notify {path : Location} {change : FileChange} {left : List (Location × FileChange)}
      (hphase : s.phase = .handling ((path, change) :: left)) : Step s .notify { s with
        calls := s.calls ++ [⟨s.now, .notify path change⟩]
        phase := .handling left }
  | flush (hphase : s.phase = .polled false false ∨ s.phase = .handling []) :
      Step s .flush { s with calls := s.calls ++ [⟨s.now, .flushIfQuiet⟩], phase := .top }

/-- What each step needs and what it leaves. Kind: L -/
theorem step_cases {s s' : WatchLoop} {e : Event} (h : s.step e = some s') : Step s e s' := by
  cases e with
  | tick now =>
      obtain ⟨hnow, h⟩ := Option.ite_none_right_eq_some.mp h
      obtain rfl := Option.some.inj h
      exact .tick now hnow
  | occurs changes =>
      obtain rfl := Option.some.inj h
      exact .occurs changes
  | stop =>
      obtain ⟨hrunning, h⟩ := Option.ite_none_right_eq_some.mp h
      obtain rfl := Option.some.inj h
      exact .stop hrunning
  | wake =>
      obtain ⟨hrunning, h⟩ := Option.ite_none_left_eq_some.mp h
      obtain rfl := Option.some.inj h
      exact .wake (Bool.eq_false_of_not_eq_true hrunning)
  | test =>
      simp only [step] at h
      split at h
      · obtain rfl := Option.some.inj h
        exact .test ‹_›
      · cases h
  | poll =>
      simp only [step] at h
      split at h
      · obtain rfl := Option.some.inj h
        exact .poll ‹_›
      · cases h
  | ready =>
      simp only [step] at h
      split at h
      · obtain ⟨hready, h⟩ := Option.ite_none_right_eq_some.mp h
        obtain rfl := Option.some.inj h
        exact .ready ‹_› (hready.imp_right fun hsome hnil => hsome (List.isEmpty_iff.mpr hnil))
      · cases h
  | expire =>
      simp only [step] at h
      split at h
      · obtain ⟨⟨hwait, hdue, hwoken, hunread⟩, h⟩ := Option.ite_none_right_eq_some.mp h
        obtain rfl := Option.some.inj h
        exact .expire ‹_› hwait hdue (Bool.eq_false_of_not_eq_true hwoken)
          (List.isEmpty_iff.mp hunread)
      · cases h
  | interrupted =>
      simp only [step] at h
      split at h
      · obtain rfl := Option.some.inj h
        exact .interrupted ‹_›
      · cases h
  | failed =>
      simp only [step] at h
      split at h
      · obtain rfl := Option.some.inj h
        exact .failed ‹_›
      · cases h
  | leave =>
      simp only [step] at h
      split at h
      · obtain rfl := Option.some.inj h
        exact .leave ‹_›
      · cases h
  | read count =>
      simp only [step] at h
      split at h
      · obtain ⟨⟨hcount, hle⟩, h⟩ := Option.ite_none_right_eq_some.mp h
        obtain rfl := Option.some.inj h
        exact .read ‹_› hcount hle
      · cases h
  | notify =>
      simp only [step] at h
      split at h
      · obtain rfl := Option.some.inj h
        exact .notify ‹_›
      · cases h
  | flush =>
      simp only [step] at h
      split at h
      · obtain rfl := Option.some.inj h
        exact .flush (.inl ‹_›)
      · obtain rfl := Option.some.inj h
        exact .flush (.inr ‹_›)
      · cases h

/-- `Start` has started the thread; nothing is pending.
Source: `FileWatcher.cpp`, `Start`
Kind: D -/
def atStart (timeout : ℤ) : WatchLoop where
  timeout := timeout

/-! ## The wait -/

/-- The wait is rounded up. Kind: L -/
theorem ceilMs_bounds (d : ℤ) : d ≤ ceilMs d * 1000000 ∧ ceilMs d * 1000000 < d + 1000000 := by
  unfold ceilMs
  omega

/-- A number that an `int` has room for stays what it is. Kind: L -/
theorem toInt32_of_lt {n : ℤ} (hnonneg : 0 ≤ n) (hlt : n < 2 ^ 31) : toInt32 n = n := by
  unfold toInt32
  omega

/-- An `int` is less than `2 ^ 31`. Kind: L -/
theorem toInt32_lt (n : ℤ) : toInt32 n < 2 ^ 31 := by
  unfold toInt32
  omega

/-- Without a pending change the wait has no end. Kind: L -/
theorem waitMs_of_empty {w : FileWatcher} (h : w.pending = ∅) (now : ℤ) : w.waitMs now = -1 :=
  if_pos (Std.ExtTreeMap.isEmpty_iff.mpr h)

/-- With one it is what is left to the deadline. Kind: L -/
theorem waitMs_of_ne {w : FileWatcher} (h : w.pending ≠ ∅) (now : ℤ) :
    w.waitMs now = toInt32 (max 0 (ceilMs (w.deadline - now))) :=
  if_neg fun hempty => h (Std.ExtTreeMap.isEmpty_iff.mp hempty)

/-- **The wait ends with the quiet period**, and less than a millisecond behind it, where the `int`
has room for the time that is left. Kind: P -/
theorem waitMs_of_pending {w : FileWatcher} (h : w.pending ≠ ∅) {now timeout : ℤ}
    (hdeadline : w.deadline ≤ now + timeout * 1000000) (htimeout : timeout < 2 ^ 31) :
    0 ≤ w.waitMs now ∧ w.deadline ≤ now + w.waitMs now * 1000000 ∧
      (w.waitMs now = 0 ∨ now + w.waitMs now * 1000000 < w.deadline + 1000000) := by
  obtain ⟨hlow, hhigh⟩ := ceilMs_bounds (w.deadline - now)
  have hroom : max 0 (ceilMs (w.deadline - now)) < 2 ^ 31 := by omega
  rw [waitMs_of_ne h, toInt32_of_lt (le_max_left ..) hroom]
  omega

/-! ## Every run -/

variable {s s' : WatchLoop} {e : Event}

/-- What is asked of the loop in a state. Kind: D -/
structure Prompt (s : WatchLoop) : Prop where
  /-- The calls are in the order of their times, none of them to come. -/
  ordered : (s.calls.map Call.time).Pairwise (· ≤ ·)
  past : ∀ c ∈ s.calls, c.time ≤ s.now
  /-- While it waits without an end, nothing is pending. -/
  unlimited : ∀ start called wait, s.phase = .polling start called wait → wait < 0 →
    s.watcher.pending = ∅
  /-- A wait with an end is for pending changes. It does not end before their deadline, and from
  when the clock was read it is less than a millisecond too long. -/
  limited : ∀ start called wait, s.phase = .polling start called wait → 0 ≤ wait →
    s.watcher.pending ≠ ∅ ∧ s.watcher.deadline ≤ called + wait * 1000000 ∧
      (wait = 0 ∨ start + wait * 1000000 < s.watcher.deadline + 1000000)
  /-- When a wait has come to its end, `FlushIfQuiet` delivers, and leaves nothing. -/
  expired : s.phase = .polled false false →
    (s.watcher.flushIfQuiet s.now).2 ≠ [] ∧ (s.watcher.flushIfQuiet s.now).1.pending = ∅

/-- What is kept of the phase. Kind: D -/
def Timed (s : WatchLoop) : WatchPhase → Prop
  | .computed start wait =>
    start ≤ s.now ∧ (∀ c ∈ s.calls, c.time ≤ start) ∧ wait = s.watcher.waitMs start
  | .polling start called wait =>
    start ≤ called ∧ called ≤ s.now ∧ (∀ c ∈ s.calls, c.time ≤ start) ∧
      wait = s.watcher.waitMs start
  | .polled false false => s.watcher.pending ≠ ∅ ∧ s.watcher.deadline ≤ s.now
  | _ => True

/-- What every step keeps. Kind: D -/
structure Sound (timeout : ℤ) (s : WatchLoop) : Prop where
  timeout : s.timeout = timeout
  ordered : (s.calls.map Call.time).Pairwise (· ≤ ·)
  past : ∀ c ∈ s.calls, c.time ≤ s.now
  timed : s.Timed s.phase

variable {timeout : ℤ}

/-- Nothing is known of most phases. Kind: L -/
theorem Sound.to_phase (h : s.Sound timeout) {phase : WatchPhase}
    (hphase : Timed { s with phase := phase } phase) : Sound timeout { s with phase := phase } where
  timeout := h.timeout
  ordered := h.ordered
  past := h.past
  timed := hphase

/-- A call is entered with the time that it is. Kind: L -/
theorem Sound.enter (h : s.Sound timeout) (act : FileWatcher.Act) {phase : WatchPhase}
    (hphase : Timed { s with calls := s.calls ++ [⟨s.now, act⟩], phase := phase } phase) :
    Sound timeout { s with calls := s.calls ++ [⟨s.now, act⟩], phase := phase } where
  timeout := h.timeout
  ordered := by
    rw [List.map_append, List.pairwise_append]
    refine ⟨h.ordered, List.pairwise_singleton _ _, fun t ht t' ht' => ?_⟩
    obtain ⟨c, hc, rfl⟩ := List.mem_map.mp ht
    obtain rfl := List.mem_singleton.mp ht'
    exact h.past c hc
  past c hc := by
    rcases List.mem_append.mp hc with hc | hc
    · exact h.past c hc
    · obtain rfl := List.mem_singleton.mp hc
      exact Int.le_refl _
  timed := hphase

/-- The deadline is at most a timeout ahead of what the clock was when it was last read. Kind: L -/
theorem Sound.deadline_le (h : s.Sound timeout) {start : ℤ} (hstart : ∀ c ∈ s.calls, c.time ≤ start)
    (hpending : s.watcher.pending ≠ ∅) : s.watcher.deadline ≤ start + timeout * 1000000 := by
  obtain hempty | ⟨c, hc, -, hdeadline⟩ :=
    FileWatcher.deadline_of_pending (s.timeout * 1000000) s.calls
  · exact absurd hempty hpending
  · have hle := hstart c hc
    rw [watcher, hdeadline, h.timeout]
    omega

/-- What a phase is known for stays true while time passes. Kind: L -/
theorem Timed.later {phase : WatchPhase} {now : ℤ} (h : s.Timed phase) (hnow : s.now ≤ now) :
    Timed { s with now := now } phase := by
  cases phase with
  | top => trivial
  | computed start wait => exact ⟨h.1.trans hnow, h.2⟩
  | polling start called wait => exact ⟨h.1, h.2.1.trans hnow, h.2.2⟩
  | polled readable woken =>
      cases readable with
      | true => trivial
      | false =>
          cases woken with
          | true => trivial
          | false => exact ⟨h.1, h.2.trans hnow⟩
  | handling left => trivial
  | ended => trivial

/-- **One step keeps what is kept.** Kind: P -/
theorem sound_of_step (htimeout : timeout < 2 ^ 31) (h : s.Sound timeout)
    (he : s.step e = some s') : s'.Sound timeout := by
  cases step_cases he with
  | tick now hnow => exact
      { h with
        past := fun c hc => (h.past c hc).trans hnow
        timed := h.timed.later hnow }
  | occurs changes => exact ⟨h.timeout, h.ordered, h.past, h.timed⟩
  | stop hrunning => exact ⟨h.timeout, h.ordered, h.past, h.timed⟩
  | wake hrunning => exact ⟨h.timeout, h.ordered, h.past, h.timed⟩
  | test hphase =>
      apply h.to_phase
      by_cases hrunning : s.running = true
      · rw [if_pos hrunning]
        exact ⟨Int.le_refl _, h.past, rfl⟩
      · rw [if_neg hrunning]
        trivial
  | poll hphase =>
      apply h.to_phase
      have htimed := h.timed
      rw [hphase] at htimed
      exact ⟨htimed.1, Int.le_refl _, htimed.2⟩
  | ready hphase hready =>
      apply h.to_phase
      -- `poll` has found something, so this is no wait that has come to its end
      cases hunread : s.unread with
      | cons changes rest => trivial
      | nil =>
          rcases hready with hwoken | hsome
          · rw [hwoken]
            trivial
          · exact absurd hunread hsome
  | expire hphase hwait hdue hwoken hunread =>
      apply h.to_phase
      have htimed := h.timed
      rw [hphase] at htimed
      obtain ⟨hstart, hcalled, hcalls, rfl⟩ := htimed
      by_cases hpending : s.watcher.pending = ∅
      · rw [waitMs_of_empty hpending] at hwait
        omega
      · obtain ⟨-, hlimit, -⟩ :=
          waitMs_of_pending hpending (h.deadline_le hcalls hpending) htimeout
        refine ⟨hpending, ?_⟩
        change s.watcher.deadline ≤ s.now
        omega
  | interrupted hphase => exact h.to_phase trivial
  | failed hphase => exact h.to_phase trivial
  | leave hphase => exact h.to_phase trivial
  | read hphase hcount hle => exact ⟨h.timeout, h.ordered, h.past, trivial⟩
  | notify hphase => exact h.enter _ trivial
  | flush hphase => exact h.enter _ trivial

/-- What is kept gives what is asked. Kind: L -/
theorem Sound.prompt (h : s.Sound timeout) (htimeout : timeout < 2 ^ 31) : s.Prompt where
  ordered := h.ordered
  past := h.past
  unlimited start called wait hphase hwait := by
    have htimed := h.timed
    rw [hphase] at htimed
    obtain ⟨-, -, hcalls, rfl⟩ := htimed
    by_contra hpending
    have hnonneg := (waitMs_of_pending hpending (h.deadline_le hcalls hpending) htimeout).1
    omega
  limited start called wait hphase hwait := by
    have htimed := h.timed
    rw [hphase] at htimed
    obtain ⟨hstart, -, hcalls, rfl⟩ := htimed
    have hpending : s.watcher.pending ≠ ∅ := by
      intro hempty
      rw [waitMs_of_empty hempty] at hwait
      omega
    obtain ⟨-, hlimit, hshort⟩ :=
      waitMs_of_pending hpending (h.deadline_le hcalls hpending) htimeout
    exact ⟨hpending, by omega, hshort⟩
  expired hphase := by
    have htimed := h.timed
    rw [hphase] at htimed
    obtain ⟨hpending, hdue⟩ := htimed
    refine ⟨fun hnone => hpending ?_, FileWatcher.pending_of_deadline_le hdue⟩
    -- a flush that delivers nothing leaves what is pending, and this one leaves nothing
    rw [← FileWatcher.flushIfQuiet_of_eq_nil hnone]
    exact FileWatcher.pending_of_deadline_le hdue

/-- Nothing has been called yet. Kind: L -/
theorem sound_atStart (timeout : ℤ) : (atStart timeout).Sound timeout where
  timeout := rfl
  ordered := List.Pairwise.nil
  past := nofun
  timed := trivial

/-- A change comes at once, and is handled; then the thread waits. Kind: D -/
def waitingFor (path : Location) : List Event :=
  [.occurs [(path, .added)], .test, .poll, .ready, .read 1, .notify, .flush, .test, .poll]

/-- Where that leads, if the change is not delivered at once. Kind: L -/
theorem run_waitingFor (path : Location) (htimeout : 0 < timeout) :
    ∃ s, Runs.run step (atStart timeout) (waitingFor path) = some s ∧
      s.watcher.pending ≠ ∅ ∧ s.watcher.deadline = timeout * 1000000 ∧
      s.phase = .polling 0 0 (toInt32 timeout) := by
  let calls : List Call := [⟨0, .notify path .added⟩, ⟨0, .flushIfQuiet⟩]
  let w : FileWatcher := FileWatcher.notify {} (timeout * 1000000) 0 path .added
  have hafter : after (timeout * 1000000) {} calls = w := by
    refine congrArg Prod.fst (if_pos (.inr ?_) : w.flushIfQuiet 0 = (w, []))
    change 0 < 0 + timeout * 1000000
    omega
  have hdeadline : w.deadline = timeout * 1000000 := Int.zero_add _
  have hpending : w.pending ≠ ∅ := Std.ExtTreeMap.insert_ne_empty
  have hwait : w.waitMs 0 = toInt32 timeout := by
    have hround : max 0 (ceilMs (timeout * 1000000 - 0)) = timeout := by
      unfold ceilMs
      omega
    rw [waitMs_of_ne hpending, hdeadline, hround]
  refine ⟨{ timeout := timeout, calls := calls, phase := .polling 0 0 (w.waitMs 0) },
    ?_, ?_, ?_, ?_⟩
  · rw [← hafter]
    rfl
  · rw [watcher, hafter]
    exact hpending
  · rw [watcher, hafter]
    exact hdeadline
  · rw [hwait]

/-- **The loop wakes in time** in every run just when the timeout is one that an `int` has room for.
A wait then ends with the quiet period, to the millisecond, it delivers what is pending, and there
is none for nothing. Kind: P -/
theorem always_prompt_iff (timeout : ℤ) :
    (∀ es, Runs.Always step Prompt (atStart timeout) es) ↔ timeout < 2 ^ 31 := by
  constructor
  · intro h
    by_contra hlarge
    have hpositive : 0 < timeout := by omega
    obtain ⟨s, hrun, hpending, hdeadline, hphase⟩ := run_waitingFor [] hpositive
    have hprompt := (Runs.always_iff step).mp (h (waitingFor [])) _ s List.prefix_rfl hrun
    have hlt := toInt32_lt timeout
    by_cases hwait : toInt32 timeout < 0
    · exact hpending (hprompt.unlimited 0 0 _ hphase hwait)
    · obtain ⟨-, hlimit, -⟩ := hprompt.limited 0 0 _ hphase (not_lt.mp hwait)
      omega
  · intro htimeout es
    have hsound : Runs.Always step (Sound timeout) (atStart timeout) es :=
      Runs.always_of_invariant step (fun s e s' h he => sound_of_step htimeout h he)
        (sound_atStart timeout)
    exact Runs.Always.imp step (fun s h => h.prompt htimeout) hsound

/-! ## After `Stop` -/

/-- The step is one of the thread. Kind: D -/
def moves : Event → ℕ
  | .tick _ | .occurs _ | .stop | .wake => 0
  | _ => 1

/-- The calls of `Notify` that an event adds to what is to be read. Kind: D -/
def added : Event → ℕ
  | .occurs changes => changes.length
  | _ => 0

/-- The calls of `FlushIfQuiet`. Kind: D -/
def flushes : Event → ℕ
  | .flush => 1
  | _ => 0

/-- The steps that the thread has left once it was woken. Kind: D -/
def movesLeft (s : WatchLoop) : ℕ :=
  match s.phase with
  | .ended => 0
  | .top | .polled _ true => 1
  | .polling _ _ _ | .polled false false => 2
  | .computed _ _ => 3
  | .handling left => left.length + 2
  | .polled true false => s.unread.flatten.length + 3

/-- The calls of `FlushIfQuiet` among them. Kind: D -/
def flushesLeft (s : WatchLoop) : ℕ :=
  match s.phase with
  | .handling _ | .polled _ false => 1
  | _ => 0

/-- The order of the steps of `Stop`, and that nobody else reads the events. Kind: D -/
structure Orderly (s : WatchLoop) : Prop where
  running : s.woken = true → s.running = false
  readable : s.phase = .polled true false → s.unread ≠ []

/-- The thread has been woken. Kind: D -/
structure Woken (s : WatchLoop) : Prop where
  woken : s.woken = true
  running : s.running = false

/-- A step of the others leaves the thread what it has, and what the kernel has may grow. Kind: L -/
theorem movesLeft_occurs (s : WatchLoop) (changes : List (Location × FileChange)) :
    movesLeft { s with unread := s.unread ++ [changes] } ≤ s.movesLeft + changes.length := by
  unfold movesLeft
  rcases hphase : s.phase with _ | _ | _ | ⟨readable, woken⟩ | _ | _
  case polled =>
    cases readable <;> cases woken <;> simp only
    all_goals try omega
    rw [List.flatten_append, List.length_append, List.flatten_singleton]
    omega
  all_goals simp only; omega

/-- What is read of the kernel's events is no more than there is. Kind: L -/
theorem length_flatten_take_le (lists : List (List (Location × FileChange))) (count : ℕ) :
    (lists.take count).flatten.length ≤ lists.flatten.length := by
  conv_rhs => rw [← List.take_append_drop count lists]
  rw [List.flatten_append, List.length_append]
  exact Nat.le_add_right _ _

/-- **Each step of a thread that was woken leaves it fewer**, and so does each flush. Kind: P -/
theorem moved_step (h : s.Woken) (he : s.step e = some s') :
    s'.Woken ∧ moves e + s'.movesLeft ≤ s.movesLeft + added e ∧
      flushes e + s'.flushesLeft ≤ s.flushesLeft := by
  have hsame : ∀ phase, Woken { s with phase := phase } := fun _ => ⟨h.woken, h.running⟩
  cases step_cases he with
  | tick now hnow =>
      exact ⟨⟨h.woken, h.running⟩, Nat.le_of_eq (Nat.zero_add _), Nat.le_of_eq (Nat.zero_add _)⟩
  | occurs changes =>
      refine ⟨⟨h.woken, h.running⟩, ?_, Nat.le_of_eq (Nat.zero_add _)⟩
      rw [moves, added, Nat.zero_add]
      exact movesLeft_occurs s changes
  | stop hrunning =>
      rw [h.running] at hrunning
      cases hrunning
  | wake hrunning =>
      exact ⟨⟨rfl, hrunning⟩, Nat.le_of_eq (Nat.zero_add _), Nat.le_of_eq (Nat.zero_add _)⟩
  | test hphase =>
      refine ⟨hsame _, ?_, ?_⟩
      · simp only [moves, movesLeft, added, hphase, h.running, Bool.false_eq_true, if_false,
          Nat.add_zero, Nat.le_refl]
      · simp only [flushes, flushesLeft, hphase, h.running, Bool.false_eq_true, if_false,
          Nat.add_zero, Nat.le_refl]
  | poll hphase =>
      refine ⟨hsame _, ?_, ?_⟩
      · simp only [moves, movesLeft, added, hphase, Nat.reduceAdd, Nat.le_refl]
      · simp only [flushes, flushesLeft, hphase, Nat.add_zero, Nat.le_refl]
  | ready hphase hready =>
      refine ⟨hsame _, ?_, ?_⟩
      · simp only [moves, movesLeft, added, hphase, h.woken, Nat.reduceAdd, Nat.le_refl]
      · simp only [flushes, flushesLeft, hphase, h.woken, Nat.add_zero, Nat.le_refl]
  | expire hphase hwait hdue hwoken hunread =>
      rw [h.woken] at hwoken
      cases hwoken
  | interrupted hphase =>
      refine ⟨hsame _, ?_, ?_⟩
      · simp only [moves, movesLeft, added, hphase, Nat.reduceAdd, Nat.le_refl]
      · simp only [flushes, flushesLeft, hphase, Nat.add_zero, Nat.le_refl]
  | failed hphase =>
      refine ⟨hsame _, ?_, ?_⟩
      · simp only [moves, movesLeft, added, hphase]
        decide
      · simp only [flushes, flushesLeft, hphase, Nat.add_zero, Nat.le_refl]
  | leave hphase =>
      refine ⟨hsame _, ?_, ?_⟩
      · simp only [moves, movesLeft, added, hphase, Nat.reduceAdd, Nat.le_refl]
      · simp only [flushes, flushesLeft, hphase, Nat.add_zero, Nat.le_refl]
  | @read count hphase hcount hle =>
      refine ⟨⟨h.woken, h.running⟩, ?_, ?_⟩
      · have hless := length_flatten_take_le s.unread count
        simp only [moves, movesLeft, added, hphase]
        omega
      · simp only [flushes, flushesLeft, hphase, Nat.zero_add, Nat.le_refl]
  | notify hphase =>
      refine ⟨⟨h.woken, h.running⟩, ?_, ?_⟩
      · simp only [moves, movesLeft, added, hphase, List.length_cons]
        omega
      · simp only [flushes, flushesLeft, hphase, Nat.zero_add, Nat.le_refl]
  | flush hphase =>
      refine ⟨⟨h.woken, h.running⟩, ?_, ?_⟩
      · rcases hphase with hphase | hphase
        · simp only [moves, movesLeft, added, hphase, Nat.reduceAdd, Nat.le_refl]
        · simp only [moves, movesLeft, added, hphase, List.length_nil, Nat.reduceAdd, Nat.le_refl]
      · rcases hphase with hphase | hphase
        · simp only [flushes, flushesLeft, hphase, Nat.add_zero, Nat.le_refl]
        · simp only [flushes, flushesLeft, hphase, Nat.add_zero, Nat.le_refl]

/-- A thread that was woken, and has not left, can move. Kind: L -/
theorem exists_move (h : s.Woken) (horderly : s.Orderly) (hended : s.phase ≠ .ended) :
    ∃ e, moves e = 1 ∧ (s.step e).isSome = true := by
  cases hphase : s.phase with
  | top => exact ⟨.test, rfl, by simp only [step, hphase, Option.isSome_some]⟩
  | computed start wait => exact ⟨.poll, rfl, by simp only [step, hphase, Option.isSome_some]⟩
  | polling start called wait =>
      refine ⟨.ready, rfl, ?_⟩
      simp only [step, hphase, h.woken, true_or, if_true, Option.isSome_some]
  | polled readable woken =>
      cases woken with
      | true => exact ⟨.leave, rfl, by simp only [step, hphase, Option.isSome_some]⟩
      | false =>
          cases readable with
          | true =>
              refine ⟨.read 1, rfl, ?_⟩
              have hsome := List.length_pos_iff.mpr (horderly.readable hphase)
              simp only [step, hphase]
              rw [if_pos ⟨Nat.one_pos, hsome⟩, Option.isSome_some]
          | false => exact ⟨.flush, rfl, by simp only [step, hphase, Option.isSome_some]⟩
  | handling left =>
      cases left with
      | nil => exact ⟨.flush, rfl, by simp only [step, hphase, Option.isSome_some]⟩
      | cons c left => exact ⟨.notify, rfl, by simp only [step, hphase, Option.isSome_some]⟩
  | ended => exact absurd hphase hended

end WatchLoop

end CloudNode
