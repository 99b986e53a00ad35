import CloudNode.Client.Transport

/-!
# Stopping the client's transport

`MessagePortClient::Stop` sets the flags, notifies everybody and joins the reconnect thread, which
may be anywhere: before a fresh socket, in `m_socket->stop()` behind a callback that still runs, or
in one of its waits.

* `quiet_after_stop` — when `Stop` has returned nothing is in use and nobody sleeps, and until
  `Start` is called again nothing is sent and every wait is answered with `false`.
* `moved_step` — with `Stop` requested, each move of a socket or of the reconnect thread leaves
  fewer.
* `stop_returns` — so `Stop` is not kept waiting: one of these threads can always move, and they
  have few moves left.
-/

namespace CloudNode

namespace MessagePortClient

variable {τ : Type*} [DecidableEq τ] {p p' : MessagePortClient τ} {e : Event τ} {t : τ} {k : ℕ}
  {s : PortSocket}

/-! ## After `Stop` -/

/-- `Stop` has returned, and neither it nor `Start` was called since. Kind: D -/
def isStopped (p : MessagePortClient τ) : Bool := p.owner = .outside && p.stopRequested

/-- Nothing is left of a session. Kind: D -/
structure Quiet (p : MessagePortClient τ) : Prop where
  unused : ∀ k, inUse (p.sockets k) = false
  absent : p.thread = .absent
  halted : p.isRunning = false
  requested : p.stopRequested = true
  awake : p.condition.asleep = ∅

/-- Nothing is left when `Stop` has returned. Kind: L -/
theorem Sound.quiet (h : Sound p) (hstopped : p.isStopped = true) : Quiet p := by
  simp only [isStopped, Bool.and_eq_true, decide_eq_true_eq] at hstopped
  obtain ⟨howner, hstop⟩ := hstopped
  have habsent := h.joined howner hstop
  have hnone : ∀ k, attends p.thread k = false := by simp [habsent, attends]
  exact ⟨h.unused hnone, habsent, h.not_running hnone, hstop, h.awake hstop (by simp [howner])⟩

/-- A call of `WaitUntilRunning` is answered at once. Kind: L -/
theorem Quiet.look (h : Quiet p) (t : τ) : Quiet (p.look t) ∧ (p.look t).sent = p.sent ∧
    ∃ later, (p.look t).answered = p.answered ++ later ∧ ∀ a ∈ later, a.2 = false := by
  unfold MessagePortClient.look
  rw [if_pos (by simp [h.requested])]
  refine ⟨⟨h.unused, h.absent, h.halted, h.requested, h.awake⟩, rfl, [(t, p.isRunning)], rfl, ?_⟩
  intro a ha
  rw [List.mem_singleton.mp ha]
  exact h.halted

/-- **A stopped port stays quiet until `Start`**: it sends nothing and answers `false`. Kind: P -/
theorem Quiet.step (h : Quiet p) (he : p.step e = some p') (hne : e ≠ .start) :
    Quiet p' ∧ p'.sent = p.sent ∧
      ∃ later, p'.answered = p.answered ++ later ∧ ∀ a ∈ later, a.2 = false := by
  unfold MessagePortClient.step at he
  obtain ⟨-, he⟩ := Option.ite_none_left_eq_some.mp he
  have hsame : ∃ later, p.answered = p.answered ++ later ∧ ∀ a ∈ later, a.2 = false :=
    ⟨[], by simp, by simp⟩
  have hcallback : ∀ k, (p.sockets k).callback = .outside := fun k => (of_unused (h.unused k)).2.2
  have hphase : ∀ k, (p.sockets k).phase ≠ .opened ∧ (p.sockets k).phase ≠ .connecting :=
    fun k => ⟨(of_unused (h.unused k)).1, (of_unused (h.unused k)).2.1⟩
  cases e with
  | start => exact absurd rfl hne
  | stop =>
      simp only [stopStep] at he
      cases howner : p.owner with
      | outside =>
          simp only [howner, Option.some.injEq] at he
          subst he
          exact ⟨⟨h.unused, h.absent, rfl, rfl, h.awake⟩, rfl, hsame⟩
      | announcing =>
          simp only [howner, Option.some.injEq] at he
          subst he
          exact ⟨⟨h.unused, h.absent, h.halted, h.requested, rfl⟩, rfl, hsame⟩
      | joining =>
          simp only [howner] at he
          obtain ⟨-, he⟩ := Option.ite_none_right_eq_some.mp he
          obtain rfl := Option.some.inj he
          exact ⟨⟨h.unused, rfl, h.halted, h.requested, h.awake⟩, rfl, hsame⟩
  | reconnect => simp [reconnectStep, h.absent] at he
  | delay => simp [h.absent] at he
  | waits t =>
      obtain ⟨-, he⟩ := Option.ite_none_left_eq_some.mp he
      exact Option.some.inj he ▸ h.look t
  | resumes t =>
      obtain ⟨-, he⟩ := Option.ite_none_right_eq_some.mp he
      obtain rfl := Option.some.inj he
      have hawake : Quiet { p with condition := p.condition.resume (some t) } :=
        ⟨h.unused, h.absent, h.halted, h.requested, h.awake⟩
      exact hawake.look t
  | spurious w => simp [h.awake] at he
  | sends accepted =>
      simp only [h.halted, Bool.false_and, Bool.false_eq_true, if_false] at he
      split at he
      all_goals exact Option.some.inj he ▸ ⟨h, rfl, hsame⟩
  | opens k | closes k | message k => simp [socketStep, hphase] at he
  | fails k => simp [socketStep, hphase] at he
  | callback k => simp [socketStep, hcallback] at he

/-- **`Stop` leaves nothing behind**: when it has returned, and in every state reached from there
before `Start` is called again, no socket is in use, the reconnect thread is gone, nobody sleeps in
`WaitUntilRunning`, every call of it that returned since returned `false`, and nothing was sent.
Kind: P -/
theorem quiet_after_stop {es es' : List (Event τ)} (hrun : Runs.run step {} es = some p)
    (hstopped : p.isStopped = true) (hrest : Runs.run step p es' = some p')
    (hstart : .start ∉ es') : Quiet p' ∧ p'.sent = p.sent ∧
      ∃ later, p'.answered = p.answered ++ later ∧ ∀ a ∈ later, a.2 = false := by
  have hquiet := (sound_of_run hrun).quiet hstopped
  clear hrun hstopped
  induction es' generalizing p with
  | nil =>
      obtain rfl := Option.some.inj hrest
      exact ⟨hquiet, rfl, [], by simp, by simp⟩
  | cons e es' ih =>
      obtain ⟨p₁, he, hrest⟩ := (Runs.run_cons_eq_some step).mp hrest
      rw [List.mem_cons, not_or] at hstart
      obtain ⟨hquiet₁, hsent₁, later₁, hanswered₁, hfalse₁⟩ := hquiet.step he (Ne.symm hstart.1)
      obtain ⟨hquiet', hsent', later, hanswered, hfalse⟩ := ih hrest hstart.2 hquiet₁
      refine ⟨hquiet', hsent'.trans hsent₁, later₁ ++ later, ?_, ?_⟩
      · rw [hanswered, hanswered₁, List.append_assoc]
      · intro a ha
        rcases List.mem_append.mp ha with ha | ha
        · exact hfalse₁ a ha
        · exact hfalse a ha

/-- `Stop` is called in the pause before a new connection, and returns. Kind: D -/
def stoppedInPause : List (Event ℕ) :=
  [.start, .reconnect, .reconnect, .reconnect, .reconnect, .fails 0, .callback 0, .callback 0,
    .reconnect, .reconnect, .reconnect, .stop, .stop, .reconnect, .stop]

/-- After that run a thread that waits for the port is told that it does not run. Kind: L -/
theorem quiet_stoppedInPause : ∃ p p', Runs.run step {} stoppedInPause = some p ∧
    Runs.run step p [.waits 7, .sends true] = some p' ∧ Quiet p' ∧ p'.sent = p.sent ∧
      ∃ later, p'.answered = p.answered ++ later ∧ ∀ a ∈ later, a.2 = false := by
  have hrun : Runs.run step {} stoppedInPause = some _ := rfl
  exact ⟨_, _, hrun, rfl,
    @quiet_after_stop _ _ _ _ _ [.waits 7, .sends true] hrun rfl rfl (by simp)⟩

/-! ## How long `Stop` takes -/

/-- The moves that the transport's own threads have left for a socket. Kind: D -/
def socketLeft (s : PortSocket) : ℕ :=
  (match s.phase with
    | .connecting => 8
    | .opened => 4
    | _ => 0) +
  match s.callback with
    | .outside => 0
    | .announcing => 2
    | .calling => 1

/-- The moves that the reconnect thread has left when `Stop` is requested. Kind: D -/
def threadLeft : PortThread → ℕ
  | .absent | .finished => 0
  | .installing _ | .stopped | .pausing => 1
  | .making | .stopping _ => 2
  | .looking _ | .watching _ => 3
  | .starting _ => 12

/-- The moves that the transport's own threads have left when `Stop` is requested. Kind: D -/
def movesLeft (thread : PortThread) (sockets : ℕ → PortSocket) : ℕ :=
  threadLeft thread +
    match thread with
    | .looking k | .watching k | .stopping k => socketLeft (sockets k)
    | _ => 0

/-- The event is a move of the reconnect thread or of a socket, a message apart. Kind: D -/
def isMove : Event τ → Bool
  | .reconnect | .delay | .opens _ | .closes _ | .fails _ | .callback _ => true
  | _ => false

/-- The event is a message that comes in. Kind: D -/
def isMessage : Event τ → Bool
  | .message _ => true
  | _ => false

/-- With a socket that is attended to. Kind: L -/
theorem movesLeft_of_attends {thread : PortThread} (hk : attends thread k = true)
    (sockets : ℕ → PortSocket) :
    movesLeft thread sockets = threadLeft thread + socketLeft (sockets k) := by
  unfold movesLeft
  cases thread with
  | looking j | watching j | stopping j => rw [of_decide_eq_true hk]
  | _ => simp [attends] at hk

/-- A socket in use takes its next move. Kind: L -/
theorem movesLeft_update {thread : PortThread} (hk : attends thread k = true)
    (sockets : ℕ → PortSocket) : movesLeft thread (Function.update sockets k s) +
      socketLeft (sockets k) = movesLeft thread sockets + socketLeft s := by
  rw [movesLeft_of_attends hk, movesLeft_of_attends hk, Function.update_self]
  omega

/-- What a step keeps of a requested stop, and that a move leaves fewer, unless it is a message that
comes in. Kind: D -/
structure Moved (p p' : MessagePortClient τ) (e : Event τ) : Prop where
  owner : p'.owner = p.owner
  requested : p'.stopRequested = p.stopRequested
  left : movesLeft p'.thread p'.sockets + (isMove e).toNat ≤
    movesLeft p.thread p.sockets + (isMessage e).toNat

/-- A step of a socket's thread leaves fewer. Kind: L -/
theorem moved_socketStep (h : Sound p) (he : p.socketStep e = some p') : Moved p p' e := by
  have hleft : ∀ {k s}, inUse (p.sockets k) = true →
      movesLeft p.thread (Function.update p.sockets k s) + socketLeft (p.sockets k) =
        movesLeft p.thread p.sockets + socketLeft s :=
    fun hk => movesLeft_update (h.inUse _ hk) _
  cases e with
  | opens k =>
      obtain ⟨⟨hout, hphase⟩, he⟩ := Option.ite_none_right_eq_some.mp he
      obtain rfl := Option.some.inj he
      have hmoves := @hleft k ⟨.opened, .announcing⟩ (by simp [inUse, hphase])
      simp only [socketLeft, hout, hphase] at hmoves
      refine ⟨rfl, rfl, ?_⟩
      simp only [isMove, isMessage, setSocket, Bool.toNat_true, Bool.toNat_false]
      omega
  | closes k =>
      obtain ⟨⟨hout, hphase⟩, he⟩ := Option.ite_none_right_eq_some.mp he
      obtain rfl := Option.some.inj he
      have hmoves := @hleft k ⟨.ended, .announcing⟩ (by simp [inUse, hphase])
      simp only [socketLeft, hout, hphase] at hmoves
      refine ⟨rfl, rfl, ?_⟩
      simp only [isMove, isMessage, setSocket, Bool.toNat_true, Bool.toNat_false]
      omega
  | fails k =>
      obtain ⟨⟨hout, hphase⟩, he⟩ := Option.ite_none_right_eq_some.mp he
      obtain rfl := Option.some.inj he
      refine ⟨rfl, rfl, ?_⟩
      simp only [isMove, isMessage, setSocket, Bool.toNat_true, Bool.toNat_false]
      rcases hphase with hphase | hphase
      all_goals
        have hmoves := @hleft k ⟨.ended, .announcing⟩ (by simp [inUse, hphase])
        simp only [socketLeft, hout, hphase] at hmoves
        omega
  | message k =>
      obtain ⟨⟨hout, hphase⟩, he⟩ := Option.ite_none_right_eq_some.mp he
      obtain rfl := Option.some.inj he
      have hmoves := @hleft k ⟨.opened, .calling⟩ (by simp [inUse, hphase])
      simp only [socketLeft, hout, hphase] at hmoves
      refine ⟨rfl, rfl, ?_⟩
      simp only [isMove, isMessage, setSocket, Bool.toNat_true, Bool.toNat_false]
      omega
  | callback k =>
      simp only [socketStep] at he
      cases hcallback : (p.sockets k).callback with
      | outside => simp [hcallback] at he
      | announcing =>
          simp only [hcallback, Option.some.injEq] at he
          subst he
          have hmoves := @hleft k ⟨(p.sockets k).phase, .calling⟩ (by simp [inUse, hcallback])
          simp only [socketLeft, hcallback] at hmoves
          refine ⟨rfl, rfl, ?_⟩
          simp only [isMove, isMessage, setSocket, Bool.toNat_true, Bool.toNat_false]
          omega
      | calling =>
          simp only [hcallback, Option.some.injEq] at he
          subst he
          have hmoves := @hleft k ⟨(p.sockets k).phase, .outside⟩ (by simp [inUse, hcallback])
          simp only [socketLeft, hcallback] at hmoves
          refine ⟨rfl, rfl, ?_⟩
          simp only [isMove, isMessage, setSocket, Bool.toNat_true, Bool.toNat_false]
          omega
  | _ => cases he

/-- With `Stop` requested, a step of the reconnect thread leaves fewer. Kind: L -/
theorem moved_reconnectStep (hstop : p.stopRequested = true) (he : p.reconnectStep = some p') :
    Moved p p' .reconnect := by
  have hwatch : ∀ {q : MessagePortClient τ} {k}, q.stopRequested = true →
      q.watch k = { q with thread := .stopping k } := by
    intro q k hq
    unfold watch
    rw [if_pos (by simp [hq])]
  have hpause : ∀ {q : MessagePortClient τ}, q.stopRequested = true →
      q.pause = { q with thread := .finished } := by
    intro q hq
    unfold pause
    rw [if_pos hq]
  unfold reconnectStep at he
  cases hthread : p.thread with
  | absent | finished => simp [hthread] at he
  | making =>
      simp only [hthread, Option.some.injEq] at he
      subst he
      refine ⟨rfl, rfl, ?_⟩
      simp [movesLeft, threadLeft, hthread, isMove, isMessage]
  | installing k =>
      simp only [hthread, if_pos hstop, Option.some.injEq] at he
      subst he
      refine ⟨rfl, rfl, ?_⟩
      simp [movesLeft, threadLeft, hthread, isMove, isMessage]
  | starting k =>
      simp only [hthread, Option.some.injEq] at he
      subst he
      refine ⟨rfl, rfl, ?_⟩
      simp [movesLeft, threadLeft, hthread, isMove, isMessage, setSocket, socketLeft]
  | looking k =>
      simp only [hthread, hwatch hstop, Option.some.injEq] at he
      subst he
      refine ⟨rfl, rfl, ?_⟩
      simp only [movesLeft, threadLeft, hthread, isMove, isMessage, Bool.toNat_true,
        Bool.toNat_false]
      omega
  | watching k =>
      simp only [hthread] at he
      obtain ⟨-, he⟩ := Option.ite_none_right_eq_some.mp he
      rw [hwatch (by exact hstop)] at he
      obtain rfl := Option.some.inj he
      refine ⟨rfl, rfl, ?_⟩
      simp only [movesLeft, threadLeft, hthread, isMove, isMessage, Bool.toNat_true,
        Bool.toNat_false]
      omega
  | stopping k =>
      simp only [hthread] at he
      obtain ⟨-, he⟩ := Option.ite_none_left_eq_some.mp he
      obtain rfl := Option.some.inj he
      refine ⟨rfl, rfl, ?_⟩
      simp only [movesLeft, threadLeft, hthread, isMove, isMessage, Bool.toNat_true,
        Bool.toNat_false]
      omega
  | stopped =>
      simp only [hthread, hpause hstop, Option.some.injEq] at he
      subst he
      refine ⟨rfl, rfl, ?_⟩
      simp [movesLeft, threadLeft, hthread, isMove, isMessage]
  | pausing =>
      simp only [hthread] at he
      obtain ⟨-, he⟩ := Option.ite_none_right_eq_some.mp he
      rw [hpause (by exact hstop)] at he
      obtain rfl := Option.some.inj he
      refine ⟨rfl, rfl, ?_⟩
      simp [movesLeft, threadLeft, hthread, isMove, isMessage]

/-- A look leaves the transport's threads alone. Kind: L -/
theorem moved_look {q : MessagePortClient τ} (t : τ) (howner : q.owner = p.owner)
    (hstop : q.stopRequested = p.stopRequested) (hthread : q.thread = p.thread)
    (hsockets : q.sockets = p.sockets) (hmove : isMove e = false) : Moved p (q.look t) e := by
  unfold look
  split
  all_goals
    refine ⟨howner, hstop, ?_⟩
    simp [hthread, hsockets, hmove]

/-- **With `Stop` requested, each move leaves fewer.** Kind: P -/
theorem moved_step (h : Sound p) (hstop : p.stopRequested = true) (he : p.step e = some p')
    (hne : e ≠ .start ∧ e ≠ .stop) : Moved p p' e := by
  unfold step at he
  obtain ⟨-, he⟩ := Option.ite_none_left_eq_some.mp he
  cases e with
  | start => exact absurd rfl hne.1
  | stop => exact absurd rfl hne.2
  | reconnect => exact moved_reconnectStep hstop he
  | delay =>
      obtain ⟨⟨hthread, -⟩, he⟩ := Option.ite_none_right_eq_some.mp he
      obtain rfl := Option.some.inj he
      refine ⟨rfl, rfl, ?_⟩
      simp [movesLeft, threadLeft, hthread, hstop, isMove, isMessage]
  | waits t =>
      obtain ⟨-, he⟩ := Option.ite_none_left_eq_some.mp he
      exact Option.some.inj he ▸ moved_look t rfl rfl rfl rfl rfl
  | resumes t =>
      obtain ⟨-, he⟩ := Option.ite_none_right_eq_some.mp he
      obtain rfl := Option.some.inj he
      exact moved_look t rfl rfl rfl rfl rfl
  | spurious w =>
      obtain ⟨-, he⟩ := Option.ite_none_right_eq_some.mp he
      obtain rfl := Option.some.inj he
      exact ⟨rfl, rfl, by simp [isMove]⟩
  | sends accepted =>
      simp only at he
      split at he
      · obtain rfl := Option.some.inj he
        exact ⟨rfl, rfl, by simp [isMove]⟩
      · split at he
        all_goals
          obtain rfl := Option.some.inj he
          exact ⟨rfl, rfl, by simp [isMove]⟩
  | opens | closes | fails | message | callback => exact moved_socketStep h he

/-- There are never many. Kind: L -/
theorem movesLeft_le (thread : PortThread) (sockets : ℕ → PortSocket) :
    movesLeft thread sockets ≤ 13 := by
  have hsocket : ∀ s, socketLeft s ≤ 10 := by
    intro s
    unfold socketLeft
    split <;> split <;> simp
  unfold movesLeft
  cases thread with
  | looking k | watching k | stopping k =>
      have hle := hsocket (sockets k)
      simp only [threadLeft]
      omega
  | _ => simp [threadLeft]

/-- Only `Start` brings the program down. Kind: L -/
theorem owner_of_terminated (he : p.step e = some p') (h : p'.terminated = true) :
    p'.owner = .outside := by
  unfold step at he
  obtain ⟨hnot, he⟩ := Option.ite_none_left_eq_some.mp he
  have hlook : ∀ (q : MessagePortClient τ) t, (q.look t).terminated = q.terminated := by
    intro q t
    unfold look
    split <;> rfl
  have hwatch : ∀ (q : MessagePortClient τ) k, (q.watch k).terminated = q.terminated := by
    intro q k
    unfold watch
    split <;> rfl
  have hpause : ∀ q : MessagePortClient τ, q.pause.terminated = q.terminated := by
    intro q
    unfold pause
    split <;> rfl
  -- a step that leaves the flag alone was not possible with the flag set
  have hsame : p'.terminated = p.terminated → p'.owner = .outside := fun hsame =>
    absurd (hsame ▸ h) hnot
  cases e with
  | start =>
      obtain ⟨howner, he⟩ := Option.ite_none_right_eq_some.mp he
      obtain rfl := Option.some.inj he
      unfold start
      split
      · exact howner
      · split <;> exact howner
  | stop =>
      apply hsame
      simp only [stopStep] at he
      split at he
      · exact Option.some.inj he ▸ rfl
      · exact Option.some.inj he ▸ rfl
      · obtain ⟨-, he⟩ := Option.ite_none_right_eq_some.mp he
        exact Option.some.inj he ▸ rfl
  | reconnect =>
      apply hsame
      simp only [reconnectStep] at he
      split at he
      · simp at he
      · simp at he
      · exact Option.some.inj he ▸ rfl
      · split at he <;> exact Option.some.inj he ▸ rfl
      · exact Option.some.inj he ▸ rfl
      · exact Option.some.inj he ▸ hwatch _ _
      · obtain ⟨-, he⟩ := Option.ite_none_right_eq_some.mp he
        exact Option.some.inj he ▸ hwatch _ _
      · obtain ⟨-, he⟩ := Option.ite_none_left_eq_some.mp he
        exact Option.some.inj he ▸ rfl
      · exact Option.some.inj he ▸ hpause _
      · obtain ⟨-, he⟩ := Option.ite_none_right_eq_some.mp he
        exact Option.some.inj he ▸ hpause _
  | delay =>
      obtain ⟨-, he⟩ := Option.ite_none_right_eq_some.mp he
      exact hsame (Option.some.inj he ▸ rfl)
  | waits t =>
      obtain ⟨-, he⟩ := Option.ite_none_left_eq_some.mp he
      exact hsame (Option.some.inj he ▸ hlook _ _)
  | resumes t =>
      obtain ⟨-, he⟩ := Option.ite_none_right_eq_some.mp he
      exact hsame (Option.some.inj he ▸ hlook _ _)
  | spurious w =>
      obtain ⟨-, he⟩ := Option.ite_none_right_eq_some.mp he
      exact hsame (Option.some.inj he ▸ rfl)
  | sends accepted =>
      apply hsame
      simp only at he
      split at he
      · exact Option.some.inj he ▸ rfl
      · split at he <;> exact Option.some.inj he ▸ rfl
  | callback k =>
      apply hsame
      simp only [socketStep] at he
      split at he
      · simp at he
      · exact Option.some.inj he ▸ rfl
      · exact Option.some.inj he ▸ rfl
  | opens k | closes k | fails k | message k =>
      obtain ⟨-, he⟩ := Option.ite_none_right_eq_some.mp he
      exact hsame (Option.some.inj he ▸ rfl)

/-- While `Stop` waits for the reconnect thread, a thread of the transport can move on. Kind: L -/
theorem exists_move (h : Sound p) (howner : p.owner = .joining) (hterminated : p.terminated = false)
    (hthread : p.thread ≠ .finished ∧ p.thread ≠ .absent) :
    ∃ e, isMove e = true ∧ (p.step e).isSome = true := by
  have hstop := h.requested (by simp [howner])
  have hasleep := h.awake hstop (by simp [howner])
  -- nobody sleeps, so that whoever waits was woken
  have hwoken : (p.thread = .pausing ∨ ∃ k, p.thread = .watching k) → none ∈ p.condition.woken := by
    intro hwaits
    have hnone := h.waits hwaits
    rwa [Condition.waiting, hasleep, Finset.empty_union] at hnone
  have hnot : ¬ p.terminated = true := by simp [hterminated]
  cases hcase : p.thread with
  | absent => exact absurd hcase hthread.2
  | finished => exact absurd hcase hthread.1
  | stopping k =>
      by_cases hcallback : (p.sockets k).callback = .outside
      · by_cases hopened : (p.sockets k).phase = .opened
        · refine ⟨.closes k, rfl, ?_⟩
          simp only [step, if_neg hnot, socketStep, hcallback, hopened, and_self, if_true]
          rfl
        · refine ⟨.reconnect, rfl, ?_⟩
          simp [step, hnot, reconnectStep, hcase, hcallback, hopened]
      · refine ⟨.callback k, rfl, ?_⟩
        simp only [step, if_neg hnot, socketStep]
        split
        · exact absurd ‹_› hcallback
        · rfl
        · rfl
  | watching k =>
      refine ⟨.reconnect, rfl, ?_⟩
      simp [step, hnot, reconnectStep, hcase, hwoken (.inr ⟨k, hcase⟩)]
  | pausing =>
      refine ⟨.reconnect, rfl, ?_⟩
      simp [step, hnot, reconnectStep, hcase, hwoken (.inl hcase)]
  | installing k =>
      refine ⟨.reconnect, rfl, ?_⟩
      simp [step, hnot, reconnectStep, hcase, hstop]
  | making | starting | looking | stopped =>
      refine ⟨.reconnect, rfl, ?_⟩
      simp [step, hnot, reconnectStep, hcase]

/-- **`Stop` is not kept waiting**: in every state that is reached with `Stop` waiting for the
reconnect thread, it can go on, or some thread of the transport can move; and until it goes on these
threads make at most 13 moves, and one more for each message that still comes in. Kind: P -/
theorem stop_returns {es : List (Event τ)} (hrun : Runs.run step {} es = some p)
    (howner : p.owner = .joining) :
    ((p.step .stop).isSome = true ∨ ∃ e, isMove e = true ∧ (p.step e).isSome = true) ∧
      ∀ es' p', Runs.run step p es' = some p' → (∀ e ∈ es', e ≠ .start ∧ e ≠ .stop) →
        es'.countP isMove ≤ 13 + es'.countP isMessage := by
  have h := sound_of_run hrun
  have hterminated : p.terminated = false := by
    by_contra hset
    have hout : p.owner = .outside := Runs.invariant_of_run step (s := {})
      (I := fun q : MessagePortClient τ => q.terminated = true → q.owner = .outside)
      (fun _ _ _ _ he hset => owner_of_terminated he hset) (fun _ => rfl) hrun (by simpa using hset)
    rw [howner] at hout
    cases hout
  constructor
  · by_cases hthread : p.thread = .finished ∨ p.thread = .absent
    · left
      simp [step, hterminated, stopStep, howner, hthread]
    · exact .inr (exists_move h howner hterminated (not_or.mp hthread))
  · intro es' p' hrest hes
    have hstop := h.requested (by simp [howner])
    have hle := movesLeft_le p.thread p.sockets
    suffices hcount : es'.countP isMove ≤ movesLeft p.thread p.sockets + es'.countP isMessage by
      omega
    clear hrun howner hterminated hle
    induction es' generalizing p with
    | nil => simp
    | cons e es' ih =>
        obtain ⟨p₁, he, hrest⟩ := (Runs.run_cons_eq_some step).mp hrest
        have hmoved := moved_step h hstop he (hes e (List.mem_cons_self ..))
        have hless := hmoved.left
        have hrest' := ih (sound_step h he) hrest
          (fun e' he' => hes e' (List.mem_cons_of_mem _ he'))
          (hmoved.requested.trans hstop)
        rw [List.countP_cons, List.countP_cons]
        cases hmove : isMove e <;> cases hmessage : isMessage e <;>
          simp only [hmove, hmessage, Bool.toNat_true, Bool.toNat_false, if_true, if_false,
            Bool.false_eq_true] at hless ⊢ <;> omega

/-- `Stop` is called on an open connection, while a thread waits for the port. Kind: D -/
def interrupted : List (Event ℕ) :=
  [.start, .waits 7, .reconnect, .reconnect, .reconnect, .reconnect, .opens 0, .callback 0, .stop,
    .stop]

/-- In that run the socket is still to be closed. Kind: L -/
theorem stop_returns_interrupted : ∃ p, Runs.run step {} interrupted = some p ∧
    ((p.step .stop).isSome = true ∨ ∃ e, isMove e = true ∧ (p.step e).isSome = true) ∧
      ∀ es' p', Runs.run step p es' = some p' → (∀ e ∈ es', e ≠ .start ∧ e ≠ .stop) →
        es'.countP isMove ≤ 13 + es'.countP isMessage := by
  have hrun : Runs.run step {} interrupted = some _ := rfl
  exact ⟨_, hrun, stop_returns hrun rfl⟩

end MessagePortClient

end CloudNode
