import CloudNode.Lib.Conditions
import CloudNode.Signalling.Transport

/-!
# Starting and stopping the server's transport

`MessagePortServer::Start` starts the thread of the event loop and returns. The loop's thread binds
the port, and its callback stores first `m_listenSocket`, then `m_loop`, and then sets `m_isRunning`
under `m_mtx`. `Stop` reads both pointers under `m_mtx`; with both it defers the shutdown to the
loop, and without it defers nothing; then it joins the thread, which runs as long as it listens.

A step is a section under `m_mtx`, a store, a notification, or a turn of the event loop. `Start` and
`Stop` are called by one thread, as they are by `main`.

* `doomed` — `Stop` is on its way and nobody will tell the loop to stop listening.
* `stop_returns_iff` — a `Stop` that is under way can still return exactly when it is not doomed.
* `never_doomed_iff` — no `Stop` of a run is doomed exactly when each comes before `Start`, after
  the two pointers are stored, or to a server that cannot listen.
-/

namespace CloudNode

/-- Where the thread of the event loop is.
Source: `MessagePortServer.cpp`, `Start`
Kind: D -/
inductive LoopThread where
  /-- `m_serverThread` is not joinable. -/
  | absent
  /-- Before `listen` calls its callback. -/
  | listening
  /-- `m_listenSocket` is stored. -/
  | bound
  /-- `m_loop` is stored, too. -/
  | looped
  /-- The port could not be bound; before the section under `m_mtx`. -/
  | refused
  /-- Past the section under `m_mtx`, before `notify_all`. -/
  | announcing
  /-- In `run()`. -/
  | polling
  | finished
  deriving DecidableEq

/-- Where the thread is that calls `Start` and `Stop`, and the pointers that `Stop` has read: the
session of the loop and that of the listening socket.
Source: `MessagePortServer.cpp`, `Stop`
Kind: D -/
inductive ServerOwner where
  | outside
  /-- Past the section under `m_mtx`, before `notify_all`. -/
  | announcing (alreadyStopped : Bool) (loop listenSocket : Option ℕ)
  /-- Before it looks at the pointers. -/
  | deferring (loop listenSocket : Option ℕ)
  | joining
  deriving DecidableEq

/-- What the C++ runtime does not survive. Kind: D -/
inductive ServerFault where
  /-- A new thread was assigned to a joinable `std::thread`. -/
  | terminate
  /-- The loop of a thread that has ended was used. -/
  | freedLoop
  deriving DecidableEq

/-- The server's transport: its table, flags and pointers, its two threads and those that wait for
it. A pointer is the number of the session it belongs to.
Source: `MessagePortServer.hpp`; `MessagePort.hpp`, `m_isRunning`, `m_stopRequested`,
`m_runningChanged` and `m_serverThread`
Kind: D -/
structure ServerPort (τ : Type*) where
  table : MessagePortServer := { listening := false }
  isRunning : Bool := false
  stopRequested : Bool := false
  loop : Option ℕ := none
  listenSocket : Option ℕ := none
  /-- The listening sockets of the calls that were deferred to the loop. -/
  deferred : List ℕ := []
  thread : LoopThread := .absent
  owner : ServerOwner := .outside
  condition : Condition τ := .idle
  /-- What `WaitUntilRunning` returned to whom. -/
  answered : List (τ × Bool) := []
  /-- How many threads were started. -/
  sessions : ℕ := 0
  fault : Option ServerFault := none

namespace ServerPort

variable {τ : Type*} [DecidableEq τ]

/-- What can happen. Kind: D -/
inductive Event (τ : Type*) where
  | start
  /-- The caller of `Stop` goes on. -/
  | stop
  /-- `listen` calls its callback, with a socket or without. -/
  | binds (ok : Bool)
  /-- The loop's thread goes on: with the callback, a deferred call, or the end of `run()`. -/
  | loop
  /-- A websocket opens or closes. -/
  | opened (k : Socket) (id : Str)
  | closed (k : Socket)
  /-- A thread calls `WaitUntilRunning`. -/
  | waits (t : τ)
  /-- A thread that was woken in it gets `m_mtx`. -/
  | resumes (t : τ)
  /-- A thread wakes for no reason. -/
  | spurious (t : τ)

/-- `WaitUntilRunning`, with `m_mtx`. Source: `MessagePort.hpp`, `WaitUntilRunning`. Kind: D -/
def look (p : ServerPort τ) (t : τ) : ServerPort τ :=
  if p.isRunning || p.stopRequested then { p with answered := p.answered ++ [(t, p.isRunning)] }
  else { p with condition := p.condition.sleep t }

/-- The caller of `Start`. Source: `MessagePortServer.cpp`, `Start`. Kind: D -/
def start (p : ServerPort τ) : ServerPort τ :=
  if p.isRunning then p
  else if p.thread = .absent then
    { p with
      stopRequested := false, thread := .listening, sessions := p.sessions + 1, deferred := [] }
  else { p with stopRequested := false, fault := some .terminate }

/-- The loop lives as long as its thread. Kind: D -/
def isAlive (p : ServerPort τ) (loop : ℕ) : Bool :=
  loop = p.sessions && p.thread ≠ .absent && p.thread ≠ .finished

/-- The caller of `Stop`. Source: `MessagePortServer.cpp`, `Stop`. Kind: D -/
def stopStep (p : ServerPort τ) : Option (ServerPort τ) :=
  match p.owner with
  | .outside => some { p with
      isRunning := false
      stopRequested := true
      owner := .announcing (!p.isRunning && p.thread = .absent) p.loop p.listenSocket }
  | .announcing alreadyStopped loop listenSocket => some { p with
      condition := p.condition.notifyAll
      owner := if alreadyStopped then .outside else .deferring loop listenSocket }
  | .deferring (some loop) (some listenSocket) =>
    if p.isAlive loop then
      some { p with deferred := p.deferred ++ [listenSocket], owner := .joining }
    else some { p with fault := some .freedLoop }
  | .deferring _ _ => some { p with owner := .joining }
  | .joining =>
    if p.thread = .finished ∨ p.thread = .absent then
      some { p with thread := .absent, owner := .outside }
    else none

/-- What `Stop` defers, run by the loop: the shutdown, and the pointer is cleared if it is still
this socket's. Source: `MessagePortServer.cpp`, `Stop`. Kind: D -/
def close (p : ServerPort τ) (listenSocket : ℕ) : ServerPort τ :=
  { p with
    table := p.table.shutdown
    listenSocket := if p.listenSocket = some listenSocket then none else p.listenSocket }

/-- The loop's thread goes on. `run()` returns when there is nothing left to poll.
Source: `MessagePortServer.cpp`, `Start`
Kind: D -/
def loopStep (p : ServerPort τ) : Option (ServerPort τ) :=
  match p.thread with
  | .absent | .listening | .finished => none
  | .bound => some { p with loop := some p.sessions, thread := .looped }
  | .looped => some { p with isRunning := true, thread := .announcing }
  | .refused => some { p with isRunning := false, stopRequested := true, thread := .announcing }
  | .announcing => some { p with condition := p.condition.notifyAll, thread := .polling }
  | .polling =>
    match p.deferred with
    | listenSocket :: deferred => some { p.close listenSocket with deferred := deferred }
    | [] => if p.table.canFinish then some { p with thread := .finished } else none

/-- A turn of the event loop that is about a websocket.
Source: `MessagePortServer.cpp`, `Start`, `.open` and `.close`
Kind: D -/
def socketStep (p : ServerPort τ) (e : MessagePortServer.Event) : Option (ServerPort τ) :=
  if p.thread = .polling then (p.table.step e).map fun table => { p with table := table } else none

/-- `listen` calls its callback: what it does first. Source: `MessagePortServer.cpp`, `Start`.
Kind: D -/
def bindStep (p : ServerPort τ) (ok : Bool) : Option (ServerPort τ) :=
  if p.thread = .listening then
    some (if ok then { p with
        table := { p.table with listening := true }
        listenSocket := some p.sessions
        thread := .bound }
      else { p with thread := .refused })
  else none

/-- One step of one of the threads.
Source: `MessagePortServer.cpp`, `Start` and `Stop`; `MessagePort.hpp`, `WaitUntilRunning`
Kind: D -/
def step (p : ServerPort τ) (e : Event τ) : Option (ServerPort τ) :=
  if p.fault ≠ none then none
  else match e with
    | .start => if p.owner = .outside then some p.start else none
    | .stop => p.stopStep
    | .binds ok => p.bindStep ok
    | .loop => p.loopStep
    | .opened k id => p.socketStep (.opened k id)
    | .closed k => p.socketStep (.closed k)
    | .waits t => if t ∈ p.condition.waiting then none else some (p.look t)
    | .resumes t =>
      if t ∈ p.condition.woken then some ({ p with condition := p.condition.resume t }.look t)
      else none
    | .spurious t =>
      if t ∈ p.condition.asleep then some { p with condition := p.condition.wake t } else none

/-- The loop was told to stop listening, or `Stop` has read what it takes to tell it. Kind: D -/
def isHanded (p : ServerPort τ) : Bool :=
  match p.owner with
  | .announcing alreadyStopped (some loop) (some _) => !alreadyStopped && loop = p.sessions
  | .deferring (some loop) (some _) => loop = p.sessions
  | _ => !p.deferred.isEmpty

/-- `Stop` is on its way, and nobody will tell the loop to stop listening. Kind: D -/
def doomed (p : ServerPort τ) : Bool := p.owner ≠ .outside && p.table.listening && !p.isHanded

/-- `Stop` comes with both pointers stored, or to a server that does not listen, and never will.
Kind: D -/
def inTime (p : ServerPort τ) : Event τ → Bool
  | .stop => p.owner ≠ .outside || p.thread ≠ .bound
  | .binds true => p.owner = .outside
  | _ => true

/-! ## What holds of pointers, table and threads -/

/-- The invariant. Kind: D -/
structure Sound (p : ServerPort τ) : Prop where
  table : p.table.Invariant
  listens : p.table.listening = true → p.listenSocket = some p.sessions ∧
    (p.thread = .bound ∨ p.thread = .looped ∨ p.thread = .announcing ∨ p.thread = .polling)
  socket : ∀ s, p.listenSocket = some s → s = p.sessions ∧ p.table.listening = true
  polled : ∀ k ∈ p.table.openSockets, p.thread = .polling
  binding : p.thread = .bound ∨ p.thread = .looped → p.table.listening = true
  past : ∀ l, p.loop = some l → l ≤ p.sessions
  unlooped : p.thread = .listening ∨ p.thread = .bound → p.loop ≠ some p.sessions
  looped : p.table.listening = true → p.thread ≠ .bound → p.loop = some p.sessions
  deferred : p.deferred = [] ∨
    p.deferred = [p.sessions] ∧ p.table.listening = true ∧ p.owner = .joining
  read : ∀ l s, (∃ b, p.owner = .announcing b l (some s)) ∨ p.owner = .deferring l (some s) →
    s = p.sessions ∧ p.table.listening = true
  stopped : ∀ l s, p.owner = .announcing true l s → p.thread = .absent
  faultless : p.fault = none ∨ p.owner = .outside ∨ p.doomed = true

variable {p p' : ServerPort τ} {e : Event τ} {t : τ}

omit [DecidableEq τ] in
/-- Nothing is there at first. Kind: L -/
theorem sound_init : Sound ({} : ServerPort τ) where
  table := MessagePortServer.inv_init.listen false
  listens := by simp
  socket := by simp
  polled := fun k hk => (Std.ExtTreeSet.not_mem_empty hk).elim
  binding := by simp
  past := by simp
  unlooped := by simp
  looped := by simp
  deferred := .inl rfl
  read := by simp
  stopped := by simp
  faultless := .inl rfl

/-- A look in `WaitUntilRunning` keeps the invariant. Kind: L -/
theorem sound_look (h : Sound p) (t : τ) : Sound (p.look t) := by
  unfold look
  split
  · exact { h with }
  · exact { h with }

omit [DecidableEq τ] in
/-- A call of `Start` keeps the invariant. Kind: L -/
theorem sound_start (h : Sound p) (howner : p.owner = .outside) : Sound p.start := by
  unfold start
  split
  · exact h
  · split
    · rename_i habsent
      have hdeaf : p.table.listening = false := by
        by_contra hlisten
        simpa [habsent] using (h.listens (by simpa using hlisten)).2
      refine { h with listens := ?_, socket := ?_, polled := ?_, binding := ?_, past := ?_
                      unlooped := ?_, looped := ?_, deferred := .inl rfl, read := ?_, stopped := ?_
                      faultless := .inr (.inl howner) }
      · simp [hdeaf]
      · intro s hs
        simpa [hdeaf] using (h.socket s hs).2
      · intro k hk
        simpa [habsent] using h.polled k hk
      · simp
      · exact fun l hl => Nat.le_succ_of_le (h.past l hl)
      · intro _ hloop
        exact absurd (h.past _ hloop) (Nat.not_succ_le_self _)
      · simp [hdeaf]
      · simp [howner]
      · simp [howner]
    · exact { h with faultless := .inr (.inl howner) }

omit [DecidableEq τ] in
/-- While the thread is not in a session that listens, the table does not either. Kind: L -/
theorem Sound.deaf (h : Sound p) (hthread : ¬ (p.thread = .bound ∨ p.thread = .looped ∨
    p.thread = .announcing ∨ p.thread = .polling)) : p.table.listening = false := by
  by_contra hlisten
  exact hthread (h.listens (by simpa using hlisten)).2

omit [DecidableEq τ] in
/-- A loop whose session listens is alive. Kind: L -/
theorem Sound.isAlive_iff (h : Sound p) (hlisten : p.table.listening = true) (l : ℕ) :
    p.isAlive l = true ↔ l = p.sessions := by
  have hthread : p.thread ≠ .absent ∧ p.thread ≠ .finished := by
    rcases (h.listens hlisten).2 with hthread | hthread | hthread | hthread
    all_goals simp [hthread]
  simp [isAlive, hthread]

/-- A step of `Stop` keeps the invariant. Kind: L -/
theorem sound_stopStep (h : Sound p) (hfault : p.fault = none) (he : p.stopStep = some p') :
    Sound p' := by
  unfold stopStep at he
  have hnone : ∀ {b l s}, p.owner = .announcing b l s ∨ p.owner = .deferring l s →
      p.deferred = [] := by
    intro b l s howner
    rcases h.deferred with hnone | ⟨-, -, hjoining⟩
    · exact hnone
    · rcases howner with howner | howner
      all_goals rw [howner] at hjoining; cases hjoining
  cases howner : p.owner with
  | outside =>
      simp only [howner, Option.some.injEq] at he
      subst he
      refine { h with deferred := ?_, read := ?_, stopped := ?_, faultless := .inl hfault }
      · rcases h.deferred with hnone | ⟨-, -, hjoining⟩
        · exact .inl hnone
        · rw [howner] at hjoining
          cases hjoining
      · rintro l s (⟨b, hread⟩ | hread)
        · obtain ⟨-, -, hsocket⟩ := ServerOwner.announcing.inj hread
          exact h.socket s hsocket
        · cases hread
      · intro l s hread
        obtain ⟨halready, -, -⟩ := ServerOwner.announcing.inj hread
        simp only [Bool.and_eq_true, decide_eq_true_eq] at halready
        exact halready.2
  | announcing b l s =>
      simp only [howner, Option.some.injEq] at he
      subst he
      refine { h with deferred := .inl (hnone (.inl howner)), read := ?_, stopped := ?_
                      faultless := .inl hfault }
      · intro l' s' hread
        cases b with
        | true => simp at hread
        | false =>
            simp only [Bool.false_eq_true, if_false, reduceCtorEq, exists_const, false_or,
              ServerOwner.deferring.injEq] at hread
            obtain ⟨rfl, rfl⟩ := hread
            exact h.read l s' (.inl ⟨false, howner⟩)
      · intro l' s' hread
        cases b with
        | true => simp at hread
        | false => simp at hread
  | deferring l s =>
      have hempty := hnone (b := true) (.inr howner)
      cases l with
      | none =>
          simp only [howner, Option.some.injEq] at he
          subst he
          exact { h with deferred := .inl hempty, read := by simp, stopped := by simp
                         faultless := .inl hfault }
      | some l =>
          cases s with
          | none =>
              simp only [howner, Option.some.injEq] at he
              subst he
              exact { h with deferred := .inl hempty, read := by simp, stopped := by simp
                             faultless := .inl hfault }
          | some s =>
              obtain ⟨rfl, hlisten⟩ := h.read _ _ (.inr howner)
              simp only [howner, h.isAlive_iff hlisten] at he
              split at he
              · obtain rfl := Option.some.inj he
                refine { h with deferred := .inr ⟨?_, hlisten, rfl⟩, read := by simp
                                stopped := by simp, faultless := .inl hfault }
                simp [hempty]
              · rename_i hstale
                obtain rfl := Option.some.inj he
                refine { h with deferred := .inl hempty, read := fun l' s' hread => ?_
                                stopped := by simp, faultless := .inr (.inr ?_) }
                · obtain ⟨-, rfl⟩ : l' = some l ∧ p.sessions = s' := by
                    simpa [eq_comm] using hread
                  exact ⟨rfl, hlisten⟩
                · simp [doomed, isHanded, hlisten, hstale]
  | joining =>
      simp only [howner] at he
      obtain ⟨hdone, he⟩ := Option.ite_none_right_eq_some.mp he
      obtain rfl := Option.some.inj he
      have hdeaf : p.table.listening = false := by
        apply h.deaf
        rcases hdone with hdone | hdone
        all_goals simp [hdone]
      refine { h with listens := by simp [hdeaf], polled := ?_, binding := by simp
                      unlooped := by simp, looped := by simp [hdeaf], deferred := ?_
                      read := by simp, stopped := by simp, faultless := .inl hfault }
      · intro k hk
        have hpolling := h.polled k hk
        rcases hdone with hdone | hdone
        all_goals rw [hdone] at hpolling; cases hpolling
      · rcases h.deferred with hnone | ⟨-, hlisten, -⟩
        · exact .inl hnone
        · rw [hdeaf] at hlisten
          cases hlisten

omit [DecidableEq τ] in
/-- A callback of `listen` keeps the invariant. Kind: L -/
theorem sound_bindStep (h : Sound p) (hfault : p.fault = none) {ok : Bool}
    (he : p.bindStep ok = some p') : Sound p' := by
  obtain ⟨hthread, he⟩ := Option.ite_none_right_eq_some.mp he
  obtain rfl := Option.some.inj he
  have hdeaf : p.table.listening = false := h.deaf (by simp [hthread])
  have hempty : p.deferred = [] := by
    rcases h.deferred with hempty | ⟨-, hlisten, -⟩
    · exact hempty
    · rw [hdeaf] at hlisten
      cases hlisten
  have hclosed : ∀ k, k ∉ p.table.openSockets := by
    intro k hk
    have hpolling := h.polled k hk
    rw [hthread] at hpolling
    cases hpolling
  cases ok with
  | false =>
      exact { h with listens := by simp [hdeaf], polled := fun k hk => absurd hk (hclosed k)
                     binding := by simp, unlooped := by simp, looped := by simp [hdeaf]
                     stopped := fun l s hread => by simpa [hthread] using h.stopped l s hread
                     faultless := .inl hfault }
  | true =>
      exact { h with table := h.table.listen true, listens := fun _ => ⟨rfl, .inl rfl⟩
                     socket := fun s hs => ⟨(Option.some.inj hs).symm, rfl⟩
                     polled := fun k hk => absurd hk (hclosed k), binding := fun _ => rfl
                     unlooped := fun _ => h.unlooped (.inl hthread), looped := by simp
                     deferred := .inl hempty
                     read := fun l s hread => ⟨(h.read l s hread).1, rfl⟩
                     stopped := fun l s hread => by simpa [hthread] using h.stopped l s hread
                     faultless := .inl hfault }

omit [DecidableEq τ] in
/-- A turn of the event loop about a websocket neither starts listening nor ends it. Kind: L -/
theorem listening_socketStep {k : Socket} {i : Str} {table : MessagePortServer}
    {e : MessagePortServer.Event} (hne : e = .opened k i ∨ e = .closed k)
    (he : p.table.step e = some table) : table.listening = p.table.listening := by
  rcases hne with rfl | rfl
  · obtain ⟨-, he⟩ := Option.ite_none_right_eq_some.mp he
    exact Option.some.inj he ▸ rfl
  · obtain ⟨id, -, rfl⟩ := Option.map_eq_some_iff.mp he
    rfl

omit [DecidableEq τ] in
/-- A turn of the event loop about a websocket keeps the invariant. Kind: L -/
theorem sound_socketStep (h : Sound p) (hfault : p.fault = none) {k : Socket} {i : Str}
    {e : MessagePortServer.Event} (hne : e = .opened k i ∨ e = .closed k)
    (he : p.socketStep e = some p') : Sound p' := by
  obtain ⟨hthread, he⟩ := Option.ite_none_right_eq_some.mp he
  obtain ⟨table, htable, rfl⟩ := Option.map_eq_some_iff.mp he
  have hsame := listening_socketStep hne htable
  refine { h with table := MessagePortServer.inv_step h.table htable
                  listens := fun hlisten => h.listens (hsame ▸ hlisten)
                  socket := fun s hs => ⟨(h.socket s hs).1, hsame.trans (h.socket s hs).2⟩
                  polled := fun _ _ => hthread
                  binding := fun hbinding => hsame.trans (h.binding hbinding)
                  looped := fun hlisten => h.looped (hsame ▸ hlisten)
                  deferred := h.deferred.imp_right fun hdeferred =>
                    ⟨hdeferred.1, hsame.trans hdeferred.2.1, hdeferred.2.2⟩
                  read := fun l s hread => ⟨(h.read l s hread).1, hsame.trans (h.read l s hread).2⟩
                  faultless := .inl hfault }

/-- The shutdown ends listening. Kind: L -/
theorem listening_shutdown (s : MessagePortServer) : s.shutdown.listening = false :=
  MessagePortServer.listening_foldl_endSocket _

/-- A step of the loop's thread keeps the invariant. Kind: L -/
theorem sound_loopStep (h : Sound p) (hfault : p.fault = none) (he : p.loopStep = some p') :
    Sound p' := by
  unfold loopStep at he
  have hclosed : p.thread ≠ .polling → ∀ k, k ∉ p.table.openSockets :=
    fun hthread k hk => hthread (h.polled k hk)
  have hstopped : p.thread ≠ .absent → ∀ l s, p.owner ≠ .announcing true l s :=
    fun hthread l s hread => hthread (h.stopped l s hread)
  cases hthread : p.thread with
  | absent | listening | finished => simp [hthread] at he
  | bound =>
      simp only [hthread, Option.some.injEq] at he
      subst he
      have hlisten := h.binding (.inl hthread)
      exact { h with listens := fun _ => ⟨(h.listens hlisten).1, .inr (.inl rfl)⟩
                     polled := fun k hk => absurd hk (hclosed (by simp [hthread]) k)
                     binding := fun _ => hlisten
                     past := fun l hl => Nat.le_of_eq (Option.some.inj hl).symm
                     unlooped := by simp, looped := fun _ _ => rfl
                     stopped := fun l s hread => absurd hread (hstopped (by simp [hthread]) l s)
                     faultless := .inl hfault }
  | looped =>
      simp only [hthread, Option.some.injEq] at he
      subst he
      have hlisten := h.binding (.inr hthread)
      exact { h with listens := fun _ => ⟨(h.listens hlisten).1, .inr (.inr (.inl rfl))⟩
                     polled := fun k hk => absurd hk (hclosed (by simp [hthread]) k)
                     binding := by simp, unlooped := by simp
                     looped := fun _ _ => h.looped hlisten (by simp [hthread])
                     stopped := fun l s hread => absurd hread (hstopped (by simp [hthread]) l s)
                     faultless := .inl hfault }
  | refused =>
      simp only [hthread, Option.some.injEq] at he
      subst he
      have hdeaf : p.table.listening = false := h.deaf (by simp [hthread])
      exact { h with listens := by simp [hdeaf]
                     polled := fun k hk => absurd hk (hclosed (by simp [hthread]) k)
                     binding := by simp, unlooped := by simp, looped := by simp [hdeaf]
                     stopped := fun l s hread => absurd hread (hstopped (by simp [hthread]) l s)
                     faultless := .inl hfault }
  | announcing =>
      simp only [hthread, Option.some.injEq] at he
      subst he
      exact { h with listens := fun hlisten => ⟨(h.listens hlisten).1, .inr (.inr (.inr rfl))⟩
                     polled := fun _ _ => rfl, binding := by simp, unlooped := by simp
                     looped := fun hlisten _ => h.looped hlisten (by simp [hthread])
                     stopped := fun l s hread => absurd hread (hstopped (by simp [hthread]) l s)
                     faultless := .inl hfault }
  | polling =>
      simp only [hthread] at he
      rcases h.deferred with hempty | ⟨hdeferred, hlisten, howner⟩
      · simp only [hempty] at he
        obtain ⟨hfinish, he⟩ := Option.ite_none_right_eq_some.mp he
        obtain rfl := Option.some.inj he
        simp only [MessagePortServer.canFinish, Bool.and_eq_true, Bool.not_eq_true',
          List.isEmpty_iff, List.eq_nil_iff_forall_not_mem, Std.ExtTreeSet.mem_toList] at hfinish
        obtain ⟨hdeaf, hnone⟩ := hfinish
        exact { h with listens := by simp [hdeaf], polled := fun k hk => absurd hk (hnone k)
                       binding := by simp, unlooped := by simp, looped := by simp [hdeaf]
                       deferred := .inl rfl
                       stopped := fun l s hread => absurd hread (hstopped (by simp [hthread]) l s)
                       faultless := .inl hfault }
      · simp only [hdeferred, Option.some.injEq] at he
        subst he
        have hdeaf := listening_shutdown p.table
        have hsocket : (p.close p.sessions).listenSocket = none := if_pos (h.listens hlisten).1
        refine { h with table := (h.table.listen false).foldl_endSocket _, listens := ?_
                        socket := ?_, polled := fun _ _ => hthread, binding := ?_, looped := ?_
                        deferred := .inl rfl, read := ?_, faultless := .inl hfault }
        · exact fun hlisten' => absurd hlisten' (by simp [close, hdeaf])
        · exact fun s hs => absurd (hsocket.symm.trans hs) (by simp)
        · exact fun hbinding => absurd hbinding (by simp [close, hthread])
        · exact fun hlisten' => absurd hlisten' (by simp [close, hdeaf])
        · rintro l s (⟨b, hread⟩ | hread)
          all_goals exact absurd (howner.symm.trans hread) (by simp)

/-- **Pointers, table and threads agree**: what one step keeps. Kind: P -/
theorem sound_step (h : Sound p) (he : p.step e = some p') : Sound p' := by
  unfold step at he
  obtain ⟨hfault, he⟩ := Option.ite_none_left_eq_some.mp he
  rw [not_not] at hfault
  cases e with
  | start =>
      obtain ⟨howner, he⟩ := Option.ite_none_right_eq_some.mp he
      exact Option.some.inj he ▸ sound_start h howner
  | stop => exact sound_stopStep h hfault he
  | binds ok => exact sound_bindStep h hfault he
  | loop => exact sound_loopStep h hfault he
  | opened k id => exact sound_socketStep h hfault (.inl rfl) he
  | closed k => exact sound_socketStep h hfault (k := k) (i := []) (.inr rfl) he
  | waits t =>
      obtain ⟨-, he⟩ := Option.ite_none_left_eq_some.mp he
      exact Option.some.inj he ▸ sound_look h t
  | resumes t =>
      obtain ⟨-, he⟩ := Option.ite_none_right_eq_some.mp he
      obtain rfl := Option.some.inj he
      have hawake : Sound { p with condition := p.condition.resume t } := { h with }
      exact sound_look hawake t
  | spurious t =>
      obtain ⟨-, he⟩ := Option.ite_none_right_eq_some.mp he
      exact Option.some.inj he ▸ { h with }

/-- The invariant holds in every state that a run reaches. Kind: L -/
theorem sound_of_run {es : List (Event τ)} (hrun : Runs.run step {} es = some p) : Sound p :=
  Runs.invariant_of_run step (fun _ _ _ => sound_step) sound_init hrun

/-! ## When `Stop` is doomed -/

omit [DecidableEq τ] in
/-- What it takes to be doomed. Kind: L -/
theorem doomed_iff : p.doomed = true ↔
    p.owner ≠ .outside ∧ p.table.listening = true ∧ p.isHanded = false := by
  simp [doomed, and_assoc]

omit [DecidableEq τ] in
/-- Before `Stop` joins, nothing is deferred. Kind: L -/
theorem Sound.deferred_eq_nil (h : Sound p) (howner : p.owner ≠ .joining) : p.deferred = [] := by
  rcases h.deferred with hempty | ⟨-, -, hjoining⟩
  · exact hempty
  · exact absurd hjoining howner

omit [DecidableEq τ] in
/-- Where `Stop` is doomed, nothing is deferred. Kind: L -/
theorem Sound.deferred_of_doomed (h : Sound p) (hdoomed : p.doomed = true) : p.deferred = [] := by
  by_cases howner : p.owner = .joining
  · have hhanded := (doomed_iff.mp hdoomed).2.2
    simpa [isHanded, howner] using hhanded
  · exact h.deferred_eq_nil howner

omit [DecidableEq τ] in
/-- Without both pointers, `Stop` hands nothing to the loop. Kind: L -/
theorem isHanded_of_missing {l s : Option ℕ} (hempty : p.deferred = [])
    (howner : (∃ b, p.owner = .announcing b l s) ∨ p.owner = .deferring l s)
    (hmissing : l = none ∨ s = none) : p.isHanded = false := by
  unfold isHanded
  rcases howner with ⟨b, howner⟩ | howner
  · rw [howner]
    rcases hmissing with rfl | rfl
    · simp [hempty]
    · cases l <;> simp [hempty]
  · rw [howner]
    rcases hmissing with rfl | rfl
    · simp [hempty]
    · cases l <;> simp [hempty]

omit [DecidableEq τ] in
/-- Before it looks at what it has read, `Stop` is as doomed as when it has read it. Kind: L -/
theorem isHanded_announcing {l s : Option ℕ} (howner : p.owner = .announcing false l s)
    (c : Condition τ) :
    isHanded { p with condition := c, owner := .deferring l s } = p.isHanded := by
  unfold isHanded
  rw [howner]
  cases l with
  | none => rfl
  | some l =>
      cases s with
      | none => rfl
      | some s => simp

/-- What `Stop` does next decides nothing. Kind: L -/
theorem doomed_stopStep (h : Sound p) (howner : p.owner ≠ .outside) (he : p.stopStep = some p')
    (hgoes : p'.owner ≠ .outside) : p'.doomed = p.doomed := by
  unfold stopStep at he
  cases hphase : p.owner with
  | outside => exact absurd hphase howner
  | announcing b l s =>
      simp only [hphase, Option.some.injEq] at he
      subst he
      cases b with
      | true => simp at hgoes
      | false =>
          have hsame := isHanded_announcing hphase p.condition.notifyAll
          simp only [doomed, Bool.false_eq_true, if_false, hsame, hphase]
          rfl
  | deferring l s =>
      have hempty := h.deferred_eq_nil (by simp [hphase])
      have hmissing : ∀ {l' s'}, p.owner = .deferring l' s' → (l' = none ∨ s' = none) →
          doomed { p with owner := .joining } = p.doomed := by
        intro l' s' hread hnone
        have hhanded := isHanded_of_missing hempty (.inr hread) hnone
        unfold doomed
        rw [hhanded, hread]
        simp [isHanded, hempty]
      cases l with
      | none =>
          simp only [hphase, Option.some.injEq] at he
          exact he ▸ hmissing hphase (.inl rfl)
      | some l =>
          cases s with
          | none =>
              simp only [hphase, Option.some.injEq] at he
              exact he ▸ hmissing hphase (.inr rfl)
          | some s =>
              obtain ⟨rfl, hlisten⟩ := h.read _ _ (.inr hphase)
              simp only [hphase, h.isAlive_iff hlisten] at he
              split at he
              · rename_i hcurrent
                obtain rfl := Option.some.inj he
                simp [doomed, isHanded, hphase, hcurrent]
              · obtain rfl := Option.some.inj he
                simp [doomed, isHanded, hphase]
  | joining =>
      simp only [hphase] at he
      obtain ⟨-, he⟩ := Option.ite_none_right_eq_some.mp he
      obtain rfl := Option.some.inj he
      exact absurd rfl hgoes

/-- The section of `Stop` dooms it when `m_loop` is not stored yet. Kind: L -/
theorem doomed_section (h : Sound p) (howner : p.owner = .outside)
    (hlisten : p.table.listening = true)
    (he : p.stopStep = some p') : p'.doomed = decide (p.thread = .bound) := by
  simp only [stopStep, howner, Option.some.injEq] at he
  subst he
  have hempty := h.deferred_eq_nil (by simp [howner])
  obtain ⟨hsocket, hthread⟩ := h.listens hlisten
  have hpresent : p.thread ≠ .absent := by
    rcases hthread with hthread | hthread | hthread | hthread
    all_goals simp [hthread]
  by_cases hbound : p.thread = .bound
  · have hloop := h.unlooped (.inr hbound)
    cases hread : p.loop with
    | none => simp [doomed, isHanded, hbound, hlisten, hempty]
    | some l =>
        have hstale : l ≠ p.sessions := fun hl => hloop (hread.trans (congrArg some hl))
        simp [doomed, isHanded, hsocket, hbound, hlisten, hstale]
  · have hloop := h.looped hlisten hbound
    simp [doomed, isHanded, hsocket, hbound, hloop, hpresent]

/-- What the loop's thread does next decides nothing while it listens. Kind: L -/
theorem doomed_loopStep (h : Sound p) (he : p.loopStep = some p')
    (hlisten : p'.table.listening = true) : p'.doomed = p.doomed := by
  unfold loopStep at he
  cases hthread : p.thread with
  | absent | listening | finished => simp [hthread] at he
  | bound | looped | refused | announcing =>
      simp only [hthread, Option.some.injEq] at he
      subst he
      rfl
  | polling =>
      simp only [hthread] at he
      rcases h.deferred with hempty | ⟨hdeferred, -, -⟩
      · simp only [hempty] at he
        obtain ⟨hfinish, he⟩ := Option.ite_none_right_eq_some.mp he
        obtain rfl := Option.some.inj he
        simp [MessagePortServer.canFinish, show p.table.listening = true from hlisten] at hfinish
      · simp only [hdeferred, Option.some.injEq] at he
        subst he
        exact absurd hlisten (by simp [close, listening_shutdown])

/-- Where `Stop` is doomed, the loop goes on listening. Kind: L -/
theorem listening_of_doomed (h : Sound p) (hdoomed : p.doomed = true) (he : p.loopStep = some p') :
    p'.table.listening = true := by
  have hlisten := (doomed_iff.mp hdoomed).2.1
  unfold loopStep at he
  cases hthread : p.thread with
  | absent | listening | finished => simp [hthread] at he
  | bound | looped | refused | announcing =>
      simp only [hthread, Option.some.injEq] at he
      subst he
      exact hlisten
  | polling => simp [hthread, h.deferred_of_doomed hdoomed, MessagePortServer.canFinish, hlisten] at he

/-- `Stop` returns when nothing listens. Kind: L -/
theorem deaf_of_returned (h : Sound p) (howner : p.owner ≠ .outside) (he : p.stopStep = some p')
    (hreturns : p'.owner = .outside) : p.table.listening = false := by
  unfold stopStep at he
  cases hphase : p.owner with
  | outside => exact absurd hphase howner
  | announcing b l s =>
      simp only [hphase, Option.some.injEq] at he
      subst he
      cases b with
      | true => exact h.deaf (by simp [h.stopped l s hphase])
      | false => simp at hreturns
  | deferring l s =>
      simp only [hphase] at he
      split at he
      · cases ‹ServerOwner.deferring l s = .outside›
      · cases ‹ServerOwner.deferring l s = .announcing _ _ _›
      · split at he
        all_goals
          obtain rfl := Option.some.inj he
          simp at hreturns
      · obtain rfl := Option.some.inj he
        simp at hreturns
      · cases ‹ServerOwner.deferring l s = .joining›
  | joining =>
      simp only [hphase] at he
      obtain ⟨hdone, -⟩ := Option.ite_none_right_eq_some.mp he
      apply h.deaf
      rcases hdone with hdone | hdone
      all_goals simp [hdone]

omit [DecidableEq τ] in
/-- Who is not calling `Stop` is not doomed. Kind: L -/
theorem not_doomed_of_outside (howner : p.owner = .outside) : p.doomed = false := by
  simp [doomed, howner]

omit [DecidableEq τ] in
/-- Without listening, `Stop` is not doomed. Kind: L -/
theorem not_doomed_of_deaf (hdeaf : p.table.listening = false) : p.doomed = false := by
  simp [doomed, hdeaf]

/-- **What dooms `Stop`**: a step that is not in time, and nothing saves it afterwards. Kind: P -/
theorem doomed_step_iff (h : Sound p) (he : p.step e = some p') :
    p'.doomed = true ↔ p.doomed = true ∨ p.inTime e = false := by
  unfold step at he
  obtain ⟨-, he⟩ := Option.ite_none_left_eq_some.mp he
  cases e with
  | start =>
      obtain ⟨howner, he⟩ := Option.ite_none_right_eq_some.mp he
      obtain rfl := Option.some.inj he
      have howner' : p.start.owner = .outside := by
        unfold start
        split
        · exact howner
        · split <;> exact howner
      simp [not_doomed_of_outside howner, not_doomed_of_outside howner', inTime]
  | stop =>
      by_cases howner : p.owner = .outside
      · rw [not_doomed_of_outside howner]
        cases hlisten : p.table.listening with
        | true => simp [doomed_section h howner hlisten he, inTime, howner]
        | false =>
            have hunbound : p.thread ≠ .bound := by
              intro hbound
              have hlisten' := h.binding (.inl hbound)
              rw [hlisten] at hlisten'
              cases hlisten'
            have htable : p'.table = p.table := by
              simp only [stopStep, howner, Option.some.injEq] at he
              exact he ▸ rfl
            simp [not_doomed_of_deaf (htable ▸ hlisten), inTime, hunbound]
      · have htime : p.inTime .stop = true := by simp [inTime, howner]
        by_cases hreturns : p'.owner = .outside
        · have hdeaf := deaf_of_returned h howner he hreturns
          simp [not_doomed_of_outside hreturns, not_doomed_of_deaf hdeaf, htime]
        · simp [doomed_stopStep h howner he hreturns, htime]
  | binds ok =>
      obtain ⟨hthread, he⟩ := Option.ite_none_right_eq_some.mp he
      obtain rfl := Option.some.inj he
      have hdeaf : p.table.listening = false := h.deaf (by simp [hthread])
      rw [not_doomed_of_deaf hdeaf]
      cases ok with
      | false => simp [not_doomed_of_deaf, hdeaf, inTime]
      | true =>
          have hempty : p.deferred = [] := by
            rcases h.deferred with hempty | ⟨-, hlisten, -⟩
            · exact hempty
            · rw [hdeaf] at hlisten
              cases hlisten
          have hunread : ∀ l s, ¬ ((∃ b, p.owner = .announcing b l (some s)) ∨
              p.owner = .deferring l (some s)) := by
            intro l s hread
            have hlisten := (h.read l s hread).2
            rw [hdeaf] at hlisten
            cases hlisten
          have hhanded : isHanded { p with
              table := { p.table with listening := true }
              listenSocket := some p.sessions
              thread := .bound } = false := by
            cases howner : p.owner with
            | outside | joining => simp [isHanded, hempty]
            | announcing b l s =>
                cases s with
                | none => exact isHanded_of_missing hempty (.inl ⟨b, rfl⟩) (.inr rfl)
                | some s => exact absurd (.inl ⟨b, howner⟩) (hunread l s)
            | deferring l s =>
                cases s with
                | none => exact isHanded_of_missing hempty (.inr rfl) (.inr rfl)
                | some s => exact absurd (.inr howner) (hunread l s)
          simp [doomed_iff, hhanded, inTime]
  | loop =>
      cases hlisten : p'.table.listening with
      | true => simp [doomed_loopStep h he hlisten, inTime]
      | false =>
          have hsafe : p.doomed = false := by
            by_contra hdoomed
            have hlisten' := listening_of_doomed h (by simpa using hdoomed) he
            rw [hlisten] at hlisten'
            cases hlisten'
          simp [not_doomed_of_deaf hlisten, hsafe, inTime]
  | opened k id =>
      obtain ⟨hthread, he⟩ := Option.ite_none_right_eq_some.mp he
      obtain ⟨table, htable, rfl⟩ := Option.map_eq_some_iff.mp he
      have hsame := listening_socketStep (.inl rfl) htable
      simp [doomed, hsame, isHanded, inTime]
  | closed k =>
      obtain ⟨hthread, he⟩ := Option.ite_none_right_eq_some.mp he
      obtain ⟨table, htable, rfl⟩ := Option.map_eq_some_iff.mp he
      have hsame := listening_socketStep (k := k) (i := []) (.inr rfl) htable
      simp [doomed, hsame, isHanded, inTime]
  | waits t =>
      obtain ⟨-, he⟩ := Option.ite_none_left_eq_some.mp he
      obtain rfl := Option.some.inj he
      have hsame : (p.look t).doomed = p.doomed := by
        unfold look
        split <;> rfl
      simp [hsame, inTime]
  | resumes t =>
      obtain ⟨-, he⟩ := Option.ite_none_right_eq_some.mp he
      obtain rfl := Option.some.inj he
      have hsame : (look { p with condition := p.condition.resume t } t).doomed = p.doomed := by
        unfold look
        split <;> rfl
      simp [hsame, inTime]
  | spurious t =>
      obtain ⟨-, he⟩ := Option.ite_none_right_eq_some.mp he
      obtain rfl := Option.some.inj he
      simp [doomed, isHanded, inTime]

/-- A step in time dooms nobody. Kind: L -/
theorem safe_step (h : Sound p) (hsafe : p.doomed = false) (he : p.step e = some p')
    (htime : p.inTime e = true) : p'.doomed = false := by
  by_contra hdoomed
  rcases (doomed_step_iff h he).mp (by simpa using hdoomed) with hdoomed | hlate
  · rw [hsafe] at hdoomed
    cases hdoomed
  · rw [htime] at hlate
    cases hlate

/-- **No `Stop` of a run is doomed exactly when each is in time**: it takes its section when the
loop's thread has stored both pointers, or when it never comes to listen. Kind: P -/
theorem never_doomed_iff (es : List (Event τ)) :
    Runs.Always step (fun p => p.doomed = false) ({} : ServerPort τ) es ↔
      Runs.Meets step (fun p e => p.inTime e = true) {} es := by
  refine Runs.always_iff_meets step (I := Sound) (fun _ _ _ => sound_step) ?_ ?_ sound_init rfl
  · exact fun p e p' h hsafe htime he => safe_step h hsafe he htime
  · intro p e p' h hsafe hlate he hsafe'
    have hdoomed := (doomed_step_iff h he).mpr (.inr (by simpa using hlate))
    rw [hsafe'] at hdoomed
    cases hdoomed

/-! ## When `Stop` returns -/

/-- There is a continuation in which `Stop` returns. Kind: D -/
def CanReturn (p : ServerPort τ) : Prop :=
  ∃ es p', Runs.run step p es = some p' ∧ p'.owner = .outside

/-- It may take one more step. Kind: L -/
theorem CanReturn.of_step (h : CanReturn p') (he : p.step e = some p') : CanReturn p := by
  obtain ⟨es, q, hrun, hreturned⟩ := h
  exact ⟨e :: es, q, (Runs.run_cons_eq_some step).mpr ⟨p', he, hrun⟩, hreturned⟩

/-- `Stop` is under way, and not doomed. Kind: D -/
structure Underway (p : ServerPort τ) : Prop where
  sound : Sound p
  owner : p.owner = .joining
  safe : p.doomed = false

omit [DecidableEq τ] in
/-- Nothing has gone wrong. Kind: L -/
theorem fault_eq_none (h : Sound p) (howner : p.owner ≠ .outside) (hsafe : p.doomed = false) :
    p.fault = none := by
  rcases h.faultless with hnone | houtside | hdoomed
  · exact hnone
  · exact absurd houtside howner
  · rw [hsafe] at hdoomed
    cases hdoomed

/-- When the loop's thread has ended, `Stop` returns. Kind: L -/
theorem canReturn_of_finished (h : Underway p) (hdone : p.thread = .finished ∨ p.thread = .absent) :
    CanReturn p := by
  have hfault := fault_eq_none h.sound (by simp [h.owner]) h.safe
  refine ⟨[.stop], { p with thread := .absent, owner := .outside }, ?_, rfl⟩
  simp [Runs.run_cons, step, hfault, stopStep, h.owner, hdone]

/-- A set gets smaller when a member is erased. Kind: L -/
theorem size_erase_lt {s : Std.ExtTreeSet Socket} {k : Socket} (hk : k ∈ s) :
    (s.erase k).size < s.size := by
  have hpos : s.size ≠ 0 := by
    intro hzero
    rw [Std.ExtTreeSet.eq_empty_iff_size_eq_zero.mpr hzero] at hk
    exact Std.ExtTreeSet.not_mem_empty hk
  rw [Std.ExtTreeSet.size_erase, if_pos (Std.ExtTreeSet.contains_iff_mem.mpr hk)]
  omega

/-- A socket that is left is closed by its peer or for being idle. Kind: L -/
theorem canReturn_of_deaf (h : Underway p) (hpolling : p.thread = .polling)
    (hdeaf : p.table.listening = false) : CanReturn p := by
  induction hsize : p.table.openSockets.size using Nat.strong_induction_on generalizing p with
  | h n ih =>
      have hfault := fault_eq_none h.sound (by simp [h.owner]) h.safe
      by_cases hopen : ∃ k, k ∈ p.table.openSockets
      · obtain ⟨k, hk⟩ := hopen
        obtain ⟨id, hid⟩ := h.sound.table.known k hk
        have hclient := MessagePortServer.clientId_eq_some.mpr ⟨hk, hid⟩
        have he : p.step (.closed k) = some { p with table := p.table.onClose k id } := by
          simp [step, hfault, socketStep, hpolling, MessagePortServer.step, hclient]
        have hless : (p.table.onClose k id).openSockets.size < n := by
          rw [← hsize]
          exact size_erase_lt hk
        refine (ih _ hless ⟨sound_step h.sound he, h.owner, ?_⟩ hpolling hdeaf rfl).of_step he
        exact safe_step h.sound h.safe he rfl
      · have hnone : p.deferred = [] := by
          rcases h.sound.deferred with hempty | ⟨-, hlisten, -⟩
          · exact hempty
          · rw [hdeaf] at hlisten
            cases hlisten
        have hfinish : p.table.canFinish = true := by
          simp only [MessagePortServer.canFinish, hdeaf, Bool.not_false, Bool.true_and,
            List.isEmpty_iff, List.eq_nil_iff_forall_not_mem, Std.ExtTreeSet.mem_toList]
          exact fun k hk => hopen ⟨k, hk⟩
        have he : p.step .loop = some { p with thread := .finished } := by
          simp [step, hfault, loopStep, hpolling, hnone, hfinish]
        refine (canReturn_of_finished ⟨sound_step h.sound he, h.owner, ?_⟩ (.inl rfl)).of_step he
        exact safe_step h.sound h.safe he rfl

/-- The loop takes the deferred call, or there is none and it does not listen. Kind: L -/
theorem canReturn_of_polling (h : Underway p) (hpolling : p.thread = .polling) : CanReturn p := by
  cases hlisten : p.table.listening with
  | false => exact canReturn_of_deaf h hpolling hlisten
  | true =>
      have hfault := fault_eq_none h.sound (by simp [h.owner]) h.safe
      have hdeferred : p.deferred = [p.sessions] := by
        rcases h.sound.deferred with hempty | ⟨hdeferred, -⟩
        · have hsafe := h.safe
          simp [doomed, isHanded, h.owner, hlisten, hempty] at hsafe
        · exact hdeferred
      have he : p.step .loop = some { p.close p.sessions with deferred := [] } := by
        simp [step, hfault, loopStep, hpolling, hdeferred]
      refine (canReturn_of_deaf ⟨sound_step h.sound he, h.owner, ?_⟩ hpolling ?_).of_step he
      · exact safe_step h.sound h.safe he rfl
      · exact listening_shutdown p.table

/-- The loop's thread comes to poll. Kind: L -/
theorem canReturn_of_announcing (h : Underway p) (hthread : p.thread = .announcing) :
    CanReturn p := by
  have hfault := fault_eq_none h.sound (by simp [h.owner]) h.safe
  have he : p.step .loop =
      some { p with condition := p.condition.notifyAll, thread := .polling } := by
    simp [step, hfault, loopStep, hthread]
  refine (canReturn_of_polling ⟨sound_step h.sound he, h.owner, ?_⟩ rfl).of_step he
  exact safe_step h.sound h.safe he rfl

/-- The loop's thread stores the second pointer and sets the flag. Kind: L -/
theorem canReturn_of_looped (h : Underway p) (hthread : p.thread = .looped) : CanReturn p := by
  have hfault := fault_eq_none h.sound (by simp [h.owner]) h.safe
  have he : p.step .loop = some { p with isRunning := true, thread := .announcing } := by
    simp [step, hfault, loopStep, hthread]
  refine (canReturn_of_announcing ⟨sound_step h.sound he, h.owner, ?_⟩ rfl).of_step he
  exact safe_step h.sound h.safe he rfl

/-- The port could not be bound. Kind: L -/
theorem canReturn_of_refused (h : Underway p) (hthread : p.thread = .refused) : CanReturn p := by
  have hfault := fault_eq_none h.sound (by simp [h.owner]) h.safe
  have he : p.step .loop =
      some { p with isRunning := false, stopRequested := true, thread := .announcing } := by
    simp [step, hfault, loopStep, hthread]
  refine (canReturn_of_announcing ⟨sound_step h.sound he, h.owner, ?_⟩ rfl).of_step he
  exact safe_step h.sound h.safe he rfl

/-- **A `Stop` that joins and is not doomed can return.** Kind: P -/
theorem canReturn_of_underway (h : Underway p) : CanReturn p := by
  have hfault := fault_eq_none h.sound (by simp [h.owner]) h.safe
  cases hthread : p.thread with
  | absent => exact canReturn_of_finished h (.inr hthread)
  | finished => exact canReturn_of_finished h (.inl hthread)
  | polling => exact canReturn_of_polling h hthread
  | announcing => exact canReturn_of_announcing h hthread
  | looped => exact canReturn_of_looped h hthread
  | refused => exact canReturn_of_refused h hthread
  | bound =>
      have he : p.step .loop = some { p with loop := some p.sessions, thread := .looped } := by
        simp [step, hfault, loopStep, hthread]
      refine (canReturn_of_looped ⟨sound_step h.sound he, h.owner, ?_⟩ rfl).of_step he
      exact safe_step h.sound h.safe he rfl
  | listening =>
      have he : p.step (.binds false) = some { p with thread := .refused } := by
        simp [step, hfault, bindStep, hthread]
      refine (canReturn_of_refused ⟨sound_step h.sound he, h.owner, ?_⟩ rfl).of_step he
      exact safe_step h.sound h.safe he rfl

/-- A `Stop` that hands the shutdown to the loop, or has nothing to hand, comes to join. Kind: L -/
theorem canReturn_of_deferring (h : Sound p) (hsafe : p.doomed = false) {l s : Option ℕ}
    (howner : p.owner = .deferring l s) : CanReturn p := by
  have hjoins : ∃ p', p.step .stop = some p' ∧ p'.owner = .joining := by
    have hfault := fault_eq_none h (by simp [howner]) hsafe
    cases l with
    | none => exact ⟨_, by simp only [step, hfault, stopStep, howner]; rfl, rfl⟩
    | some l =>
        cases s with
        | none => exact ⟨_, by simp only [step, hfault, stopStep, howner]; rfl, rfl⟩
        | some s =>
            obtain ⟨rfl, hlisten⟩ := h.read _ _ (.inr howner)
            have hcurrent : l = p.sessions := by
              simpa [doomed, isHanded, howner, hlisten] using hsafe
            have halive := (h.isAlive_iff hlisten l).mpr hcurrent
            exact ⟨_, by simp only [step, hfault, stopStep, howner, halive]; rfl, rfl⟩
  obtain ⟨p', he, hjoining⟩ := hjoins
  have htime : p.inTime .stop = true := by simp [inTime, howner]
  refine (canReturn_of_underway ⟨sound_step h he, hjoining, ?_⟩).of_step he
  exact safe_step h hsafe he htime

/-- **A `Stop` that is not doomed can return.** Kind: P -/
theorem canReturn_of_safe (h : Sound p) (hsafe : p.doomed = false) : CanReturn p := by
  cases howner : p.owner with
  | outside => exact ⟨[], p, rfl, howner⟩
  | joining => exact canReturn_of_underway ⟨h, howner, hsafe⟩
  | deferring l s => exact canReturn_of_deferring h hsafe howner
  | announcing b l s =>
      have hfault := fault_eq_none h (by simp [howner]) hsafe
      have htime : p.inTime .stop = true := by simp [inTime, howner]
      have he : p.step .stop = some { p with
          condition := p.condition.notifyAll
          owner := if b then .outside else .deferring l s } := by
        simp [step, hfault, stopStep, howner]
      cases b with
      | true => exact ⟨[.stop], _, (Runs.run_cons_eq_some step).mpr ⟨_, he, rfl⟩, rfl⟩
      | false =>
          refine (canReturn_of_deferring (sound_step h he) ?_ rfl).of_step he
          exact safe_step h hsafe he htime

/-- What is doomed stays so. Kind: L -/
theorem not_canReturn_of_doomed (h : Sound p) (hdoomed : p.doomed = true) : ¬ CanReturn p := by
  rintro ⟨es, q, hrun, hreturned⟩
  have hend : Sound q ∧ q.doomed = true := by
    refine Runs.invariant_of_run step (I := fun p => Sound p ∧ p.doomed = true) ?_ ⟨h, hdoomed⟩ hrun
    exact fun p e p' h he => ⟨sound_step h.1 he, (doomed_step_iff h.1 he).mpr (.inl h.2)⟩
  exact (doomed_iff.mp hend.2).1 hreturned

/-- **When `Stop` returns**: from any state that the transport can reach, a call of `Stop` that is
under way can still return exactly when it is not doomed; the sockets that are left then have to be
closed by their peers. Kind: P -/
theorem stop_returns_iff {es : List (Event τ)} (hrun : Runs.run step {} es = some p) :
    CanReturn p ↔ p.doomed = false := by
  have h := sound_of_run hrun
  constructor
  · intro hreturn
    by_contra hdoomed
    exact not_canReturn_of_doomed h (by simpa using hdoomed) hreturn
  · exact canReturn_of_safe h

/-- The server is stopped while its thread binds the port. Kind: D -/
def stoppedTooEarly : List (Event ℕ) := [.start, .stop, .stop, .stop, .binds true]

/-- That `Stop` never returns. Kind: L -/
theorem stop_returns_tooEarly : ∃ p, Runs.run step {} stoppedTooEarly = some p ∧
    (CanReturn p ↔ p.doomed = false) ∧ p.doomed = true := by
  have hrun : Runs.run step {} stoppedTooEarly = some _ := rfl
  exact ⟨_, hrun, stop_returns_iff hrun, rfl⟩

end ServerPort

end CloudNode
