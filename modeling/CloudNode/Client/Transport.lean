import CloudNode.Lib.Conditions
import CloudNode.Lib.Runs
import Mathlib.Logic.Function.Basic

/-!
# The client's transport

`MessagePortClient::Start` starts a thread that makes one socket after the other: it waits until the
socket is disconnected or `Stop` was called, stops the socket, which waits for the socket's own
thread, and makes the next one after a delay. The sockets' callbacks set the flags under `m_mtx` and
notify when they have released it; any number of threads wait for the flags in `WaitUntilRunning`
and send.

A step is a section under `m_mtx`, a notification, or a call of the websocket library. `Start` and
`Stop` are called by one thread, as they are by `main`.

* `sound_step` — what holds of sockets, flags and waiting threads in every state.
* `one_session` — at most one socket is in use, it is the one that `Send` uses, and every message
  went to an open one.
* `heard_of_run` — no wake-up is lost.
-/

namespace CloudNode

/-- What a socket of the websocket library is doing. Kind: D -/
inductive SocketPhase where
  | made
  | connecting
  | opened
  /-- Closed, or failed. -/
  | ended
  /-- `stop` has returned. -/
  | stopped
  deriving DecidableEq

/-- Where a socket's thread is in its callback.
Source: `MessagePortClient.cpp`, `MakeSocket`
Kind: D -/
inductive CallbackPhase where
  | outside
  /-- Past the section under `m_mtx`, before `notify_all`. -/
  | announcing
  /-- In what `WebRTC` registered. -/
  | calling
  deriving DecidableEq

/-- A socket and its thread. Kind: D -/
structure PortSocket where
  phase : SocketPhase := .made
  callback : CallbackPhase := .outside

/-- Where the reconnect thread is, and the socket it is about.
Source: `MessagePortClient.cpp`, `Start`
Kind: D -/
inductive PortThread where
  /-- `m_serverThread` is not joinable. -/
  | absent
  /-- At the head of the loop. -/
  | making
  /-- Before the section that makes the socket `m_socket`. -/
  | installing (k : ℕ)
  /-- Before `m_socket->start()`. -/
  | starting (k : ℕ)
  /-- Before it looks whether `m_disconnected || m_stopRequested`. -/
  | looking (k : ℕ)
  /-- In that wait. -/
  | watching (k : ℕ)
  /-- In `m_socket->stop()`. -/
  | stopping (k : ℕ)
  /-- Behind it. -/
  | stopped
  /-- In the wait for the delay to pass. -/
  | pausing
  | finished
  deriving DecidableEq

/-- Where the thread is that calls `Start` and `Stop`. Source: `MessagePortClient.cpp`, `Stop`.
Kind: D -/
inductive PortOwner where
  | outside
  /-- Past the section under `m_mtx`, before `notify_all`. -/
  | announcing
  | joining
  deriving DecidableEq

/-- The transport, its sockets and the threads that wait for it; `none` is the reconnect thread.
Source: `MessagePortClient.hpp`; `MessagePort.hpp`, `m_isRunning`, `m_stopRequested`,
`m_runningChanged` and `m_serverThread`
Kind: D -/
structure MessagePortClient (τ : Type*) where
  isRunning : Bool := false
  stopRequested : Bool := false
  disconnected : Bool := false
  socket : Option ℕ := none
  thread : PortThread := .absent
  owner : PortOwner := .outside
  condition : Condition (Option τ) := .idle
  sockets : ℕ → PortSocket := fun _ => {}
  /-- How many sockets were made. -/
  made : ℕ := 0
  /-- The sockets that messages were sent on, and whether they were open. -/
  sent : List (ℕ × Bool) := []
  /-- What `WaitUntilRunning` returned to whom. -/
  answered : List (τ × Bool) := []
  /-- `std::terminate` was called. -/
  terminated : Bool := false

namespace MessagePortClient

variable {τ : Type*} [DecidableEq τ]

/-- What can happen. Kind: D -/
inductive Event (τ : Type*) where
  | start
  /-- The caller of `Stop` goes on. -/
  | stop
  /-- The reconnect thread goes on. -/
  | reconnect
  /-- The delay has passed. -/
  | delay
  /-- The library's thread of a socket calls the callback with `Open`, `Close` or `Error`. -/
  | opens (k : ℕ)
  | closes (k : ℕ)
  | fails (k : ℕ)
  /-- It calls the callback with a message. -/
  | message (k : ℕ)
  /-- It goes on with its callback. -/
  | callback (k : ℕ)
  /-- A thread calls `WaitUntilRunning`. -/
  | waits (t : τ)
  /-- A thread that was woken in it gets `m_mtx`. -/
  | resumes (t : τ)
  /-- A thread wakes for no reason. -/
  | spurious (w : Option τ)
  /-- A thread calls `Send`, and the socket accepts the message or does not. -/
  | sends (accepted : Bool)

/-- Change a socket. Kind: D -/
def setSocket (p : MessagePortClient τ) (k : ℕ) (s : PortSocket) : MessagePortClient τ :=
  { p with sockets := Function.update p.sockets k s }

/-- `WaitUntilRunning`, with `m_mtx`. Source: `MessagePort.hpp`, `WaitUntilRunning`. Kind: D -/
def look (p : MessagePortClient τ) (t : τ) : MessagePortClient τ :=
  if p.isRunning || p.stopRequested then { p with answered := p.answered ++ [(t, p.isRunning)] }
  else { p with condition := p.condition.sleep (some t) }

/-- The reconnect thread looks after its socket, with `m_mtx`. Kind: D -/
def watch (p : MessagePortClient τ) (k : ℕ) : MessagePortClient τ :=
  if p.disconnected || p.stopRequested then { p with thread := .stopping k }
  else { p with condition := p.condition.sleep none, thread := .watching k }

/-- The reconnect thread looks whether to go on pausing, with `m_mtx`. Kind: D -/
def pause (p : MessagePortClient τ) : MessagePortClient τ :=
  if p.stopRequested then { p with thread := .finished }
  else { p with condition := p.condition.sleep none, thread := .pausing }

/-- The reconnect thread's next step. `stop` closes an open connection and waits until the socket's
thread is outside of its callback.
Source: `MessagePortClient.cpp`, `Start`
Kind: D -/
def reconnectStep (p : MessagePortClient τ) : Option (MessagePortClient τ) :=
  match p.thread with
  | .absent | .finished => none
  | .making => some { p.setSocket p.made {} with thread := .installing p.made, made := p.made + 1 }
  | .installing k =>
    if p.stopRequested then some { p with thread := .finished }
    else some { p with disconnected := false, socket := some k, thread := .starting k }
  | .starting k => some { p.setSocket k { phase := .connecting } with thread := .looking k }
  | .looking k => some (p.watch k)
  | .watching k =>
    if none ∈ p.condition.woken then
      some ({ p with condition := p.condition.resume none }.watch k)
    else none
  | .stopping k =>
    if (p.sockets k).phase = .opened ∨ (p.sockets k).callback ≠ .outside then none
    else some { p.setSocket k { phase := .stopped } with thread := .stopped }
  | .stopped => some p.pause
  | .pausing =>
    if none ∈ p.condition.woken then some { p with condition := p.condition.resume none }.pause
    else none

/-- The library calls a socket's callback.
Source: `MessagePortClient.cpp`, `MakeSocket`
Kind: D -/
def socketStep (p : MessagePortClient τ) : Event τ → Option (MessagePortClient τ)
  | .opens k =>
    if (p.sockets k).callback = .outside ∧ (p.sockets k).phase = .connecting then
      some { p.setSocket k ⟨.opened, .announcing⟩ with isRunning := !p.stopRequested }
    else none
  | .closes k =>
    if (p.sockets k).callback = .outside ∧ (p.sockets k).phase = .opened then
      some { p.setSocket k ⟨.ended, .announcing⟩ with isRunning := false, disconnected := true }
    else none
  | .fails k =>
    if (p.sockets k).callback = .outside ∧
        ((p.sockets k).phase = .connecting ∨ (p.sockets k).phase = .opened) then
      some { p.setSocket k ⟨.ended, .announcing⟩ with isRunning := false, disconnected := true }
    else none
  | .message k =>
    if (p.sockets k).callback = .outside ∧ (p.sockets k).phase = .opened then
      some (p.setSocket k ⟨.opened, .calling⟩)
    else none
  | .callback k =>
    match (p.sockets k).callback with
    | .outside => none
    | .announcing => some { p.setSocket k ⟨(p.sockets k).phase, .calling⟩ with
        condition := p.condition.notifyAll }
    | .calling => some (p.setSocket k ⟨(p.sockets k).phase, .outside⟩)
  | _ => none

/-- The caller of `Start`. A second thread on a joinable `std::thread` is `std::terminate`.
Source: `MessagePortClient.cpp`, `Start`
Kind: D -/
def start (p : MessagePortClient τ) : MessagePortClient τ :=
  if p.isRunning then p
  else if p.thread = .absent then { p with stopRequested := false, thread := .making }
  else { p with stopRequested := false, terminated := true }

/-- The caller of `Stop`. Source: `MessagePortClient.cpp`, `Stop`. Kind: D -/
def stopStep (p : MessagePortClient τ) : Option (MessagePortClient τ) :=
  match p.owner with
  | .outside => some { p with isRunning := false, stopRequested := true, owner := .announcing }
  | .announcing => some { p with condition := p.condition.notifyAll, owner := .joining }
  | .joining =>
    if p.thread = .finished ∨ p.thread = .absent then
      some { p with thread := .absent, owner := .outside }
    else none

/-- One step of one of the threads.
Source: `MessagePortClient.cpp`, `Start`, `MakeSocket`, `Send` and `Stop`; `MessagePort.hpp`,
`WaitUntilRunning`
Kind: D -/
def step (p : MessagePortClient τ) (e : Event τ) : Option (MessagePortClient τ) :=
  if p.terminated then none
  else match e with
    | .start => if p.owner = .outside then some p.start else none
    | .stop => p.stopStep
    | .reconnect => p.reconnectStep
    | .delay =>
      if p.thread = .pausing ∧ none ∈ p.condition.asleep then
        some { p with
          condition := (p.condition.wake none).resume none
          thread := if p.stopRequested then .finished else .making }
      else none
    | .waits t => if some t ∈ p.condition.waiting then none else some (p.look t)
    | .resumes t =>
      if some t ∈ p.condition.woken then
        some ({ p with condition := p.condition.resume (some t) }.look t)
      else none
    | .spurious w =>
      if w ∈ p.condition.asleep then some { p with condition := p.condition.wake w } else none
    | .sends accepted =>
      match p.socket with
      | none => some p
      | some k =>
        if p.isRunning && accepted then
          some { p with sent := p.sent ++ [(k, decide ((p.sockets k).phase = .opened))] }
        else some p
    | e => p.socketStep e

/-! ## What holds of sockets, flags and waiting threads -/

/-- The socket is connected or about to be, or its thread is in the callback. Kind: D -/
def inUse (s : PortSocket) : Bool :=
  s.phase = .connecting || s.phase = .opened || s.callback ≠ .outside

/-- The reconnect thread has started the socket and not stopped it. Kind: D -/
def attends (thread : PortThread) (k : ℕ) : Bool :=
  match thread with
  | .looking j | .watching j | .stopping j => j = k
  | _ => false

/-- The reconnect thread is about a socket that it has installed. Kind: D -/
def holds (thread : PortThread) (k : ℕ) : Bool :=
  match thread with
  | .starting j => j = k
  | thread => attends thread k

/-- What a thread waits for is the case. Kind: D -/
def due (p : MessagePortClient τ) : Option τ → Prop
  | some _ => p.isRunning = true ∨ p.stopRequested = true
  | none => p.stopRequested = true ∨ p.disconnected = true ∧ ∃ k, p.thread = .watching k

/-- A `notify_all` is on its way. Kind: D -/
def Announced (p : MessagePortClient τ) : Prop :=
  p.owner = .announcing ∨ ∃ k, (p.sockets k).callback = .announcing

/-- The invariant. Kind: D -/
structure Sound (p : MessagePortClient τ) : Prop where
  inUse : ∀ k, inUse (p.sockets k) = true → attends p.thread k = true
  holds : ∀ k, holds p.thread k = true → p.socket = some k
  running : p.isRunning = true →
    p.stopRequested = false ∧ ∃ k, p.socket = some k ∧ (p.sockets k).phase = .opened
  waits : (p.thread = .pausing ∨ ∃ k, p.thread = .watching k) → none ∈ p.condition.waiting
  heeded : p.Announced ∨ p.condition.Heeded p.due
  awake : p.stopRequested = true → p.owner ≠ .announcing → p.condition.asleep = ∅
  requested : p.owner ≠ .outside → p.stopRequested = true
  joined : p.owner = .outside → p.stopRequested = true → p.thread = .absent
  sent : ∀ s ∈ p.sent, s.2 = true

variable {p p' : MessagePortClient τ} {e : Event τ} {t : τ} {k : ℕ} {s : PortSocket}

omit [DecidableEq τ] in
/-- A changed socket, and the others. Kind: L -/
theorem sockets_setSocket (j : ℕ) :
    (p.setSocket k s).sockets j = if j = k then s else p.sockets j :=
  Function.update_apply ..

/-- Nothing is in use at first. Kind: L -/
theorem sound_init : Sound ({} : MessagePortClient τ) where
  inUse := by simp [MessagePortClient.inUse]
  holds := by simp [MessagePortClient.holds, attends]
  running := by simp
  waits := by simp
  heeded := .inr fun t ht => absurd ht (Finset.notMem_empty t)
  awake := by simp
  requested := by simp
  joined := by simp
  sent := by simp

/-- A thread that attends to a socket holds it. Kind: L -/
theorem holds_of_attends {thread : PortThread} (h : attends thread k = true) :
    MessagePortClient.holds thread k = true := by
  cases thread with
  | starting j => simp [attends] at h
  | _ => exact h

/-- A socket in use is `m_socket`. Kind: L -/
theorem Sound.socket (h : Sound p) (hk : MessagePortClient.inUse (p.sockets k) = true) :
    p.socket = some k := h.holds k (holds_of_attends (h.inUse k hk))

/-- While no socket is attended to, none is in use. Kind: L -/
theorem Sound.unused (h : Sound p) (hthread : ∀ k, attends p.thread k = false) (k : ℕ) :
    MessagePortClient.inUse (p.sockets k) = false := by
  by_contra hk
  have hattends := h.inUse k (by simpa using hk)
  rw [hthread k] at hattends
  exact Bool.false_ne_true hattends

/-- A socket that is not in use is not open, and its thread announces nothing. Kind: L -/
theorem of_unused (h : MessagePortClient.inUse s = false) :
    s.phase ≠ .opened ∧ s.phase ≠ .connecting ∧ s.callback = .outside := by
  simp only [MessagePortClient.inUse, Bool.or_eq_false_iff, decide_eq_false_iff_not, not_not] at h
  exact ⟨h.1.2, h.1.1, h.2⟩

/-- While no socket is attended to, the port does not run. Kind: L -/
theorem Sound.not_running (h : Sound p) (hthread : ∀ k, attends p.thread k = false) :
    p.isRunning = false := by
  by_contra hrunning
  obtain ⟨-, k, -, hopened⟩ := h.running (by simpa using hrunning)
  exact (of_unused (h.unused hthread k)).1 hopened

/-- While no socket is attended to, a notification on its way is `Stop`'s. Kind: L -/
theorem Sound.heeded_of_unused (h : Sound p) (hthread : ∀ k, attends p.thread k = false) :
    p.owner = .announcing ∨ p.condition.Heeded p.due := by
  rcases h.heeded with (howner | ⟨k, hk⟩) | hheeded
  · exact .inl howner
  · have hout := (of_unused (h.unused hthread k)).2.2
    rw [hk] at hout
    cases hout
  · exact .inr hheeded

/-! ## What the threads that wait do -/

/-- **A look in `WaitUntilRunning` keeps the invariant.** Kind: P -/
theorem sound_look (h : Sound p) (t : τ) : Sound (p.look t) := by
  unfold look
  split
  · exact ⟨h.inUse, h.holds, h.running, h.waits, h.heeded, h.awake, h.requested, h.joined, h.sent⟩
  · rename_i hflags
    rw [Bool.or_eq_true, not_or] at hflags
    obtain ⟨hrunning, hrequested⟩ := hflags
    refine ⟨h.inUse, h.holds, h.running, fun hthread => ?_, ?_, ?_, h.requested, h.joined, h.sent⟩
    · have hnone := h.waits hthread
      simp only [Condition.waiting, Condition.sleep, Finset.mem_union, Finset.mem_insert,
        Finset.mem_erase] at hnone ⊢
      tauto
    · rcases h.heeded with hannounced | hheeded
      · exact .inl hannounced
      · refine .inr ((hheeded.mono fun _ hdue => hdue).sleep fun hdue => ?_)
        exact hdue.elim hrunning hrequested
    · exact fun hstop => absurd hstop hrequested

/-- A thread that was woken has `m_mtx`. Kind: L -/
theorem sound_resume_some (h : Sound p) (t : τ) :
    Sound { p with condition := p.condition.resume (some t) } := by
  refine ⟨h.inUse, h.holds, h.running, fun hthread => ?_, ?_, h.awake, h.requested, h.joined, h.sent⟩
  · have hnone := h.waits hthread
    simp only [Condition.waiting, Condition.resume, Finset.mem_union, Finset.mem_erase] at hnone ⊢
    tauto
  · rcases h.heeded with hannounced | hheeded
    · exact .inl hannounced
    · exact .inr hheeded

/-- A thread wakes for no reason. Kind: L -/
theorem sound_wake (h : Sound p) {w : Option τ} (hw : w ∈ p.condition.asleep) :
    Sound { p with condition := p.condition.wake w } := by
  refine ⟨h.inUse, h.holds, h.running, fun hthread => ?_, ?_, fun hstop howner => ?_, h.requested,
    h.joined, h.sent⟩
  · have hnone := h.waits hthread
    simp only [Condition.waiting, Condition.wake, Finset.mem_union, Finset.mem_insert,
      Finset.mem_erase] at hnone ⊢
    tauto
  · rcases h.heeded with hannounced | hheeded
    · exact .inl hannounced
    · exact .inr (hheeded.wake w)
  · rw [h.awake hstop howner] at hw
    exact absurd hw (Finset.notMem_empty w)

/-! ## What the reconnect thread does -/

/-- The reconnect thread wakes and gets `m_mtx`; it is not waiting then. Kind: L -/
theorem sound_resume_none (h : Sound p) {thread : PortThread}
    (hattends : ∀ k, attends thread k = attends p.thread k)
    (hholds : ∀ k, MessagePortClient.holds thread k = MessagePortClient.holds p.thread k)
    (hthread : thread ≠ .pausing ∧ ∀ k, thread ≠ .watching k) (hpresent : p.thread ≠ .absent) :
    Sound { p with condition := p.condition.resume none, thread := thread } := by
  refine ⟨fun k hk => ?_, fun k hk => h.holds k ?_, h.running, ?_, ?_, h.awake, h.requested,
    fun howner hstop => absurd (h.joined howner hstop) hpresent, h.sent⟩
  · rw [hattends]
    exact h.inUse k hk
  · rw [← hholds]
    exact hk
  · rintro (hpausing | ⟨k, hk⟩)
    · exact absurd hpausing hthread.1
    · exact absurd hk (hthread.2 k)
  · rcases h.heeded with hannounced | hheeded
    · exact .inl hannounced
    · refine .inr fun w hw hdue => hheeded w hw ?_
      cases w with
      | some t => exact hdue
      | none =>
          rcases hdue with hstop | ⟨-, k, hk⟩
          · exact .inl hstop
          · exact absurd hk (hthread.2 k)

/-- The reconnect thread goes from one place to another that concerns no other socket and is no
wait.
Kind: L -/
theorem sound_thread (h : Sound p) {thread : PortThread}
    (hattends : ∀ k, attends p.thread k = true → attends thread k = true)
    (hholds : ∀ k, MessagePortClient.holds thread k = true →
      MessagePortClient.holds p.thread k = true)
    (hthread : thread ≠ .pausing ∧ ∀ k, thread ≠ .watching k) (hpresent : p.thread ≠ .absent) :
    Sound { p with thread := thread } := by
  refine ⟨fun k hk => hattends k (h.inUse k hk), fun k hk => h.holds k (hholds k hk), h.running, ?_,
    ?_, h.awake, h.requested, fun howner hstop => absurd (h.joined howner hstop) hpresent, h.sent⟩
  · rintro (hpausing | ⟨k, hk⟩)
    · exact absurd hpausing hthread.1
    · exact absurd hk (hthread.2 k)
  · rcases h.heeded with hannounced | hheeded
    · exact .inl hannounced
    · refine .inr (hheeded.mono fun w hdue => ?_)
      cases w with
      | some t => exact hdue
      | none =>
          rcases hdue with hstop | ⟨-, k, hk⟩
          · exact .inl hstop
          · exact absurd hk (hthread.2 k)

/-- The reconnect thread falls asleep, where nothing it waits for is the case. Kind: L -/
theorem sound_sleep_none (h : Sound p) {thread : PortThread}
    (hattends : ∀ k, attends thread k = attends p.thread k)
    (hholds : ∀ k, MessagePortClient.holds thread k = MessagePortClient.holds p.thread k)
    (hpresent : p.thread ≠ .absent) (hstop : p.stopRequested = false)
    (hdue : (∃ k, thread = .watching k) → p.disconnected = false) :
    Sound { p with condition := p.condition.sleep none, thread := thread } := by
  have hnot : ¬ due { p with condition := p.condition.sleep none, thread := thread } none := by
    rintro (hrequested | ⟨hdisconnected, hk⟩)
    · simp [hstop] at hrequested
    · simp [hdue hk] at hdisconnected
  refine ⟨fun k hk => ?_, fun k hk => h.holds k ?_, h.running, fun _ => ?_, ?_, ?_, h.requested,
    fun howner hrequested => absurd (h.joined howner hrequested) hpresent, h.sent⟩
  · rw [hattends]
    exact h.inUse k hk
  · rw [← hholds]
    exact hk
  · simp [Condition.waiting, Condition.sleep]
  · rcases h.heeded with hannounced | hheeded
    · exact .inl hannounced
    · right
      intro w hw
      rcases Finset.mem_insert.mp hw with rfl | hw
      · exact hnot
      · cases w with
        | some t => exact hheeded _ hw
        | none => exact hnot
  · intro hrequested
    simp [hstop] at hrequested

/-- **A look after a socket keeps the invariant.** Kind: P -/
theorem sound_watch (h : Sound p) (hthread : p.thread = .looking k) : Sound (p.watch k) := by
  have hpresent : p.thread ≠ .absent := by simp [hthread]
  unfold watch
  split
  · apply sound_thread h _ _ ⟨by simp, by simp⟩ hpresent
    · rw [hthread]
      exact fun _ hk => hk
    · rw [hthread]
      exact fun _ hk => hk
  · rename_i hflags
    rw [Bool.or_eq_true, not_or, Bool.not_eq_true, Bool.not_eq_true] at hflags
    apply sound_sleep_none h _ _ hpresent hflags.2 fun _ => hflags.1
    · rw [hthread]
      exact fun _ => rfl
    · rw [hthread]
      exact fun _ => rfl

/-- **A look in the pause keeps the invariant.** Kind: P -/
theorem sound_pause (h : Sound p) (hthread : p.thread = .stopped) : Sound p.pause := by
  have hpresent : p.thread ≠ .absent := by simp [hthread]
  unfold pause
  split
  · apply sound_thread h _ _ ⟨by simp, by simp⟩ hpresent
    · rw [hthread]
      exact fun _ hk => hk
    · rw [hthread]
      exact fun _ hk => hk
  · rename_i hstop
    apply sound_sleep_none h _ _ hpresent (by simpa using hstop) (by simp)
    · rw [hthread]
      exact fun _ => rfl
    · rw [hthread]
      exact fun _ => rfl

/-- The reconnect thread changes a socket, while none is in use and the port does not run.
Kind: L -/
theorem sound_setSocket (h : Sound p) {thread : PortThread}
    (hunused : ∀ j, j ≠ k → MessagePortClient.inUse (p.sockets j) = false)
    (hrunning : p.isRunning = false)
    (hown : p.owner = .announcing ∨ p.condition.Heeded p.due)
    (hk : MessagePortClient.inUse s = true → attends thread k = true)
    (hholds : ∀ k, MessagePortClient.holds thread k = true → p.socket = some k)
    (hthread : thread ≠ .pausing ∧ ∀ k, thread ≠ .watching k) (hpresent : p.thread ≠ .absent) :
    Sound { p.setSocket k s with thread := thread } := by
  refine ⟨fun j hj => ?_, hholds, fun hruns => ?_, ?_, ?_, h.awake, h.requested,
    fun howner hstop => absurd (h.joined howner hstop) hpresent, h.sent⟩
  · by_cases hjk : j = k
    · subst hjk
      rw [sockets_setSocket, if_pos rfl] at hj
      exact hk hj
    · rw [sockets_setSocket, if_neg hjk, hunused j hjk] at hj
      exact absurd hj Bool.false_ne_true
  · have hruns' : p.isRunning = true := hruns
    simp [hrunning] at hruns'
  · rintro (hpausing | ⟨k, hk⟩)
    · exact absurd hpausing hthread.1
    · exact absurd hk (hthread.2 k)
  · rcases hown with howner | hheeded
    · exact .inl (.inl howner)
    · refine .inr (hheeded.mono fun w hdue => ?_)
      cases w with
      | some t => exact hdue
      | none =>
          rcases hdue with hstop | ⟨-, k, hk⟩
          · exact .inl hstop
          · exact absurd hk (hthread.2 k)

/-- **A step of the reconnect thread keeps the invariant.** Kind: P -/
theorem sound_reconnectStep (h : Sound p) (he : p.reconnectStep = some p') : Sound p' := by
  unfold reconnectStep at he
  cases hthread : p.thread with
  | absent | finished => simp [hthread] at he
  | making =>
      simp only [hthread, Option.some.injEq] at he
      have hnone : ∀ k, attends p.thread k = false := by simp [hthread, attends]
      subst he
      have hset : Sound { p.setSocket p.made {} with thread := .installing p.made } :=
        sound_setSocket h (fun j _ => h.unused hnone j) (h.not_running hnone)
          (h.heeded_of_unused hnone) (by simp [MessagePortClient.inUse])
          (by simp [MessagePortClient.holds, attends]) ⟨by simp, by simp⟩ (by simp [hthread])
      exact ⟨hset.inUse, hset.holds, hset.running, hset.waits, hset.heeded, hset.awake,
        hset.requested, hset.joined, hset.sent⟩
  | installing k =>
      have hnone : ∀ k, attends p.thread k = false := by simp [hthread, attends]
      have hpresent : p.thread ≠ .absent := by simp [hthread]
      simp only [hthread] at he
      split at he
      · obtain rfl := Option.some.inj he
        exact sound_thread h (by simp [hnone]) (by simp [MessagePortClient.holds, attends])
          ⟨by simp, by simp⟩ hpresent
      · obtain rfl := Option.some.inj he
        refine ⟨fun j hj => ?_, fun j hj => ?_, fun hruns => ?_, by simp, ?_, h.awake, h.requested,
          fun howner hstop => absurd (h.joined howner hstop) hpresent, h.sent⟩
        · have hunused := h.unused hnone j
          rw [show p.sockets j = _ from rfl, hunused] at hj
          exact absurd hj Bool.false_ne_true
        · simp only [MessagePortClient.holds, decide_eq_true_eq] at hj
          rw [hj]
        · have hnot := h.not_running hnone
          have hruns' : p.isRunning = true := hruns
          simp [hnot] at hruns'
        · rcases h.heeded_of_unused hnone with howner | hheeded
          · exact .inl (.inl howner)
          · refine .inr (hheeded.mono fun w hdue => ?_)
            cases w with
            | some t => exact hdue
            | none =>
                rcases hdue with hstop | ⟨hdisconnected, -⟩
                · exact .inl hstop
                · exact absurd hdisconnected Bool.false_ne_true
  | starting k =>
      have hnone : ∀ k, attends p.thread k = false := by simp [hthread, attends]
      simp only [hthread, Option.some.injEq] at he
      subst he
      refine sound_setSocket h (fun j _ => h.unused hnone j) (h.not_running hnone)
        (h.heeded_of_unused hnone) (by simp [attends]) (fun j hj => h.holds j ?_) ⟨by simp, by simp⟩
        (by simp [hthread])
      rw [hthread]
      exact hj
  | looking k =>
      simp only [hthread, Option.some.injEq] at he
      subst he
      exact sound_watch h hthread
  | watching k =>
      simp only [hthread] at he
      obtain ⟨-, he⟩ := Option.ite_none_right_eq_some.mp he
      obtain rfl := Option.some.inj he
      -- awake, the thread is where it was before its first look
      have hlooking : Sound { p with
          condition := p.condition.resume none
          thread := .looking k } := by
        apply sound_resume_none h _ _ ⟨by simp, by simp⟩ (by simp [hthread])
        · rw [hthread]
          exact fun _ => rfl
        · rw [hthread]
          exact fun _ => rfl
      have hwatch := sound_watch hlooking rfl
      exact hwatch
  | stopping k =>
      simp only [hthread] at he
      obtain ⟨hguard, he⟩ := Option.ite_none_left_eq_some.mp he
      obtain rfl := Option.some.inj he
      rw [not_or, not_not] at hguard
      have hothers : ∀ j, j ≠ k → MessagePortClient.inUse (p.sockets j) = false := by
        intro j hj
        by_contra hused
        have hattends := h.inUse j (by simpa using hused)
        rw [hthread] at hattends
        exact hj (of_decide_eq_true hattends).symm
      refine sound_setSocket h hothers ?_ ?_ (by simp [MessagePortClient.inUse])
        (by simp [MessagePortClient.holds, attends]) ⟨by simp, by simp⟩ (by simp [hthread])
      · by_contra hruns
        obtain ⟨-, j, hsocket, hopened⟩ := h.running (by simpa using hruns)
        have hk : p.socket = some k := h.holds k (by simp [hthread, MessagePortClient.holds, attends])
        rw [hk, Option.some.injEq] at hsocket
        subst hsocket
        exact hguard.1 hopened
      · rcases h.heeded with (howner | ⟨j, hj⟩) | hheeded
        · exact .inl howner
        · by_cases hjk : j = k
          · rw [hjk, hguard.2] at hj
            cases hj
          · have hout := (of_unused (hothers j hjk)).2.2
            rw [hj] at hout
            cases hout
        · exact .inr hheeded
  | stopped =>
      simp only [hthread, Option.some.injEq] at he
      subst he
      exact sound_pause h hthread
  | pausing =>
      simp only [hthread] at he
      obtain ⟨-, he⟩ := Option.ite_none_right_eq_some.mp he
      obtain rfl := Option.some.inj he
      have hstopped : Sound { p with
          condition := p.condition.resume none
          thread := .stopped } := by
        apply sound_resume_none h _ _ ⟨by simp, by simp⟩ (by simp [hthread])
        · rw [hthread]
          exact fun _ => rfl
        · rw [hthread]
          exact fun _ => rfl
      have hpause := sound_pause hstopped rfl
      exact hpause

/-! ## What the sockets do -/

/-- A socket in use changes with the flags; it announces that it did, or nobody's wait is concerned.
Kind: L -/
theorem sound_socket (h : Sound p) (hk : MessagePortClient.inUse (p.sockets k) = true)
    {running disconnected : Bool}
    (hrunning : running = true → p.stopRequested = false ∧ s.phase = .opened)
    (hannounced : s.callback = .announcing ∨ ((p.sockets k).callback ≠ .announcing ∧
      running = p.isRunning ∧ disconnected = p.disconnected)) :
    Sound { p.setSocket k s with isRunning := running, disconnected := disconnected } := by
  have hsocket := h.socket hk
  refine ⟨fun j hj => ?_, h.holds, fun hruns => ?_, h.waits, ?_, h.awake, h.requested, h.joined,
    h.sent⟩
  · by_cases hjk : j = k
    · exact hjk ▸ h.inUse k hk
    · rw [sockets_setSocket, if_neg hjk] at hj
      exact h.inUse j hj
  · obtain ⟨hstop, hopened⟩ := hrunning hruns
    refine ⟨hstop, k, hsocket, ?_⟩
    rw [sockets_setSocket, if_pos rfl]
    exact hopened
  · rcases hannounced with hannounced | ⟨hnot, rfl, rfl⟩
    · refine .inl (.inr ⟨k, ?_⟩)
      rw [sockets_setSocket, if_pos rfl]
      exact hannounced
    · rcases h.heeded with (howner | ⟨j, hj⟩) | hheeded
      · exact .inl (.inl howner)
      · refine .inl (.inr ⟨j, ?_⟩)
        have hjk : j ≠ k := by
          rintro rfl
          exact hnot hj
        rw [sockets_setSocket, if_neg hjk]
        exact hj
      · exact .inr (hheeded.mono fun w hdue => by cases w <;> exact hdue)

/-- **A step of a socket's thread keeps the invariant.** Kind: P -/
theorem sound_socketStep (h : Sound p) (he : p.socketStep e = some p') : Sound p' := by
  cases e with
  | opens k =>
      obtain ⟨⟨-, hphase⟩, he⟩ := Option.ite_none_right_eq_some.mp he
      obtain rfl := Option.some.inj he
      exact sound_socket h (by simp [MessagePortClient.inUse, hphase])
        (fun hruns => ⟨by simpa using hruns, rfl⟩) (.inl rfl)
  | closes k =>
      obtain ⟨⟨-, hphase⟩, he⟩ := Option.ite_none_right_eq_some.mp he
      obtain rfl := Option.some.inj he
      exact sound_socket h (by simp [MessagePortClient.inUse, hphase]) (by simp) (.inl rfl)
  | fails k =>
      obtain ⟨⟨-, hphase⟩, he⟩ := Option.ite_none_right_eq_some.mp he
      obtain rfl := Option.some.inj he
      refine sound_socket h ?_ (by simp) (.inl rfl)
      rcases hphase with hphase | hphase <;> simp [MessagePortClient.inUse, hphase]
  | message k =>
      obtain ⟨⟨hout, hphase⟩, he⟩ := Option.ite_none_right_eq_some.mp he
      obtain rfl := Option.some.inj he
      exact sound_socket h (by simp [MessagePortClient.inUse, hphase])
        (fun hruns => ⟨(h.running hruns).1, rfl⟩) (.inr ⟨by simp [hout], rfl, rfl⟩)
  | callback k =>
      simp only [socketStep] at he
      cases hcallback : (p.sockets k).callback with
      | outside => simp [hcallback] at he
      | announcing =>
          simp only [hcallback, Option.some.injEq] at he
          subst he
          have hsocket := h.socket (k := k) (by simp [MessagePortClient.inUse, hcallback])
          refine ⟨fun j hj => ?_, h.holds, fun hruns => ?_, fun hthread => ?_, ?_, ?_, h.requested,
            h.joined, h.sent⟩
          · by_cases hjk : j = k
            · exact hjk ▸ h.inUse k (by simp [MessagePortClient.inUse, hcallback])
            · rw [show _ = (p.sockets j) from (sockets_setSocket j).trans (if_neg hjk)] at hj
              exact h.inUse j hj
          · obtain ⟨hstop, j, hj, hopened⟩ := h.running hruns
            refine ⟨hstop, j, hj, ?_⟩
            rw [hsocket, Option.some.injEq] at hj
            subst hj
            rw [show _ = _ from (sockets_setSocket k).trans (if_pos rfl)]
            exact hopened
          · have hnone := h.waits hthread
            simpa [Condition.waiting, Condition.notifyAll] using hnone
          · exact .inr (Condition.heeded_notifyAll _ _)
          · exact fun _ _ => rfl
      | calling =>
          simp only [hcallback, Option.some.injEq] at he
          subst he
          have hused : MessagePortClient.inUse (p.sockets k) = true := by
            simp [MessagePortClient.inUse, hcallback]
          refine sound_socket h hused (fun hruns => ?_) (.inr ⟨by simp [hcallback], rfl, rfl⟩)
          obtain ⟨hstop, j, hj, hopened⟩ := h.running hruns
          rw [h.socket hused, Option.some.injEq] at hj
          exact ⟨hstop, hj ▸ hopened⟩
  | _ => cases he

/-! ## What the caller of `Start` and `Stop` does -/

/-- **`Start` keeps the invariant.** Kind: P -/
theorem sound_start (h : Sound p) (howner : p.owner = .outside) : Sound p.start := by
  unfold start
  split
  · exact h
  rename_i hnot
  have hheeded : ∀ {thread : PortThread}, (∀ k, thread ≠ .watching k) ∨ thread = p.thread →
      p.Announced ∨ p.condition.Heeded
        (due { p with stopRequested := false, thread := thread }) := by
    intro thread hthread
    rcases h.heeded with hannounced | hheeded
    · exact .inl hannounced
    · refine .inr (hheeded.mono fun w hdue => ?_)
      cases w with
      | some t =>
          rcases hdue with hruns | hstop
          · exact .inl hruns
          · exact absurd hstop Bool.false_ne_true
      | none =>
          rcases hdue with hstop | ⟨hdisconnected, k, hk⟩
          · exact absurd hstop Bool.false_ne_true
          · rcases hthread with hthread | rfl
            · exact absurd hk (hthread k)
            · exact .inr ⟨hdisconnected, k, hk⟩
  split
  · rename_i habsent
    refine ⟨fun k hk => ?_, by simp [MessagePortClient.holds, attends], fun hruns => absurd hruns hnot,
      by simp, hheeded (.inl (by simp)), by simp, fun hout => absurd howner hout, by simp, h.sent⟩
    have hattends := h.inUse k hk
    rw [habsent] at hattends
    exact absurd hattends Bool.false_ne_true
  · exact ⟨h.inUse, h.holds, fun hruns => absurd hruns hnot, h.waits, hheeded (.inr rfl), by simp,
      fun hout => absurd howner hout, by simp, h.sent⟩

/-- **A step of `Stop` keeps the invariant.** Kind: P -/
theorem sound_stopStep (h : Sound p) (he : p.stopStep = some p') : Sound p' := by
  unfold stopStep at he
  cases howner : p.owner with
  | outside =>
      simp only [howner, Option.some.injEq] at he
      subst he
      exact ⟨h.inUse, h.holds, by simp, h.waits, .inl (.inl rfl), by simp, by simp, by simp, h.sent⟩
  | announcing =>
      simp only [howner, Option.some.injEq] at he
      subst he
      refine ⟨h.inUse, h.holds, h.running, fun hthread => ?_, .inr (Condition.heeded_notifyAll _ _),
        fun _ _ => rfl, fun _ => h.requested (by simp [howner]), by simp, h.sent⟩
      have hnone := h.waits hthread
      simpa [Condition.waiting, Condition.notifyAll] using hnone
  | joining =>
      simp only [howner] at he
      obtain ⟨hthread, he⟩ := Option.ite_none_right_eq_some.mp he
      obtain rfl := Option.some.inj he
      have hnone : ∀ k, attends p.thread k = false := by
        intro k
        rcases hthread with hthread | hthread <;> simp [hthread, attends]
      have hstop := h.requested (by simp [howner])
      have hasleep := h.awake hstop (by simp [howner])
      refine ⟨fun k hk => ?_, by simp [MessagePortClient.holds, attends], h.running, by simp, ?_,
        fun _ _ => hasleep, by simp, by simp, h.sent⟩
      · rw [show MessagePortClient.inUse (p.sockets k) = false from h.unused hnone k] at hk
        exact absurd hk Bool.false_ne_true
      · right
        intro w hw
        rw [show p.condition.asleep = ∅ from hasleep] at hw
        exact absurd hw (Finset.notMem_empty w)

/-- **Every step keeps the invariant.** Kind: P -/
theorem sound_step (h : Sound p) (he : p.step e = some p') : Sound p' := by
  unfold step at he
  obtain ⟨-, he⟩ := Option.ite_none_left_eq_some.mp he
  cases e with
  | start =>
      obtain ⟨howner, he⟩ := Option.ite_none_right_eq_some.mp he
      exact Option.some.inj he ▸ sound_start h howner
  | stop => exact sound_stopStep h he
  | reconnect => exact sound_reconnectStep h he
  | delay =>
      obtain ⟨⟨hthread, hasleep⟩, he⟩ := Option.ite_none_right_eq_some.mp he
      obtain rfl := Option.some.inj he
      have hwoken := sound_wake h hasleep
      refine sound_resume_none hwoken ?_ ?_ ?_ (by simp [hthread])
      · intro k
        split <;> simp [attends, hthread]
      · intro k
        split <;> simp [MessagePortClient.holds, attends, hthread]
      · split <;> simp
  | waits t =>
      obtain ⟨-, he⟩ := Option.ite_none_left_eq_some.mp he
      exact Option.some.inj he ▸ sound_look h t
  | resumes t =>
      obtain ⟨-, he⟩ := Option.ite_none_right_eq_some.mp he
      exact Option.some.inj he ▸ sound_look (sound_resume_some h t) t
  | spurious w =>
      obtain ⟨hw, he⟩ := Option.ite_none_right_eq_some.mp he
      exact Option.some.inj he ▸ sound_wake h hw
  | sends accepted =>
      simp only at he
      split at he
      · exact Option.some.inj he ▸ h
      rename_i k hsocket
      split at he
      · rename_i haccepted
        obtain rfl := Option.some.inj he
        rw [Bool.and_eq_true] at haccepted
        refine ⟨h.inUse, h.holds, h.running, h.waits, h.heeded, h.awake, h.requested, h.joined,
          fun s hs => ?_⟩
        rcases List.mem_append.mp hs with hs | hs
        · exact h.sent s hs
        · obtain ⟨-, j, hj, hopened⟩ := h.running haccepted.1
          rw [hsocket, Option.some.injEq] at hj
          rw [List.mem_singleton.mp hs]
          exact decide_eq_true (hj ▸ hopened)
      · exact Option.some.inj he ▸ h
  | opens | closes | fails | message | callback => exact sound_socketStep h he

/-- In every state that is reached. Kind: L -/
theorem sound_of_run {es : List (Event τ)} (hrun : Runs.run step {} es = some p) : Sound p :=
  Runs.invariant_of_run step (fun _ _ _ h he => sound_step h he) sound_init hrun

/-! ## Sessions -/

/-- **One session at a time**: in every state that is reached, at most one socket is connected,
about to be or in its callback, and it is `m_socket`; while the port runs, `m_socket` is open; and
every message that was ever accepted went to a socket that was open then. Kind: P -/
theorem one_session {es : List (Event τ)} (hrun : Runs.run step {} es = some p) :
    (∀ j k, inUse (p.sockets j) = true → inUse (p.sockets k) = true → j = k) ∧
      (∀ k, inUse (p.sockets k) = true → p.socket = some k) ∧
      (p.isRunning = true → ∃ k, p.socket = some k ∧ (p.sockets k).phase = .opened) ∧
      ∀ s ∈ p.sent, s.2 = true := by
  have h := sound_of_run hrun
  refine ⟨fun j k hj hk => ?_, fun k hk => h.socket hk, fun hruns => (h.running hruns).2, h.sent⟩
  have hsame := (h.socket hj).symm.trans (h.socket hk)
  exact Option.some.inj hsame

/-- A connection is lost and replaced, with a message on each. Kind: D -/
def reconnected : List (Event ℕ) :=
  [.start, .reconnect, .reconnect, .reconnect, .reconnect, .opens 0, .callback 0, .callback 0,
    .sends true, .closes 0, .callback 0, .reconnect, .callback 0, .reconnect, .reconnect, .delay,
    .reconnect, .reconnect, .reconnect, .reconnect, .opens 1, .sends true]

/-- In that run the second message goes to the second socket. Kind: L -/
theorem one_session_reconnected : ∃ p, Runs.run step {} reconnected = some p ∧
    ((∀ j k, inUse (p.sockets j) = true → inUse (p.sockets k) = true → j = k) ∧
      (∀ k, inUse (p.sockets k) = true → p.socket = some k) ∧
      (p.isRunning = true → ∃ k, p.socket = some k ∧ (p.sockets k).phase = .opened) ∧
      ∀ s ∈ p.sent, s.2 = true) ∧ p.sent = [(0, true), (1, true)] := by
  have hrun : Runs.run step {} reconnected = some _ := rfl
  exact ⟨_, hrun, one_session hrun, rfl⟩

/-! ## Waiting for the port -/

/-- **No wake-up is lost**: in every state that is reached, a thread that sleeps in
`WaitUntilRunning` while the port runs will be woken by the socket's thread, which has its
`notify_all` before it; while `Stop` is requested it will be woken by `Stop`, before that waits for
anything; and the reconnect thread does not sleep over a lost connection or a `Stop` either.
Kind: P -/
theorem heard_of_run {es : List (Event τ)} (hrun : Runs.run step {} es = some p) :
    (∀ w ∈ p.condition.asleep, p.due w →
      p.owner = .announcing ∨ ∃ k, (p.sockets k).callback = .announcing) ∧
      (p.stopRequested = true → p.owner ≠ .announcing → p.condition.asleep = ∅) := by
  have h := sound_of_run hrun
  refine ⟨fun w hw hdue => ?_, h.awake⟩
  rcases h.heeded with hannounced | hheeded
  · exact hannounced
  · exact absurd hdue (hheeded w hw)

/-- A thread waits for the port, and a connection is about to be announced to it. Kind: D -/
def opening : List (Event ℕ) :=
  [.start, .waits 7, .reconnect, .reconnect, .reconnect, .reconnect, .opens 0]

/-- In that run the thread sleeps while the port runs, and the socket's thread is to wake it.
Kind: L -/
theorem heard_opening : ∃ p, Runs.run step {} opening = some p ∧
    ((∀ w ∈ p.condition.asleep, p.due w →
      p.owner = .announcing ∨ ∃ k, (p.sockets k).callback = .announcing) ∧
      (p.stopRequested = true → p.owner ≠ .announcing → p.condition.asleep = ∅)) ∧
    p.isRunning = true ∧ some 7 ∈ p.condition.asleep := by
  have hrun : Runs.run step {} opening = some _ := rfl
  exact ⟨_, hrun, heard_of_run hrun, rfl, by decide⟩

end MessagePortClient

end CloudNode
