import CloudNode.Client.Reconnecting

/-!
# Passes through `CLIENT_INIT`

`StartClient` executes the `CLIENT_INIT` branch when the transport is open, and a `CLIENT_INIT` that
it finds behind the branch is one that `OnMessageClose` has written, as it supposes. But the branch
begins in that state, and little in it writes another one: `JoinRooms` does, at a room that has a
name and that the client is not in. Where there is none, `ConnectPeer` and `OfferFiles` take the
state they find for a loss and give up, or have nothing to do, and the branch is executed again at
once.

* `early_of_workerStep` — a pass that meets no such room stays in `CLIENT_INIT`.
* `Passes` — a client with the last execution of the branch and what was reported of the transport
  since.
* `settles_iff_ledOut` — the worker does not spin in exactly the runs in which every pass is led out
  of `CLIENT_INIT`.
-/

namespace CloudNode

/-- The worker may be in the `CLIENT_INIT` branch. Kind: D -/
def Pc.works : Pc → Bool
  | .top | .awaitTransport | .sendPing | .pinged _ | .awaitWork | .awaitResponse | .awaitPong |
    .awaitOther | .finished => false
  | _ => true

/-- The worker is where the branch goes in `CLIENT_INIT`. Kind: D -/
def Pc.early : Pc → Bool
  | .joining _ _ _ | .connectPeer | .awaitPeer _ _ | .returned _ => true
  | _ => false

namespace WebRTCClient

/-- The `CLIENT_INIT` branch is executed, from behind its wait for the transport.
Source: `WebRTCClient.cpp`, `StartClient`
Kind: D -/
def executes (t : WebRTCClient) : ClientEvent → Bool
  | .worker _ =>
    match t.worker with
    | .awaitTransport => t.clientState ≠ .exit && t.transportOpen
    | _ => false
  | _ => false

/-- The event leads out of `CLIENT_INIT`: `JoinRooms` is at a room that has a name and that the
client is not in, a file completes, or the client is stopped. Kind: D -/
def leads (cfg : Config) (t : WebRTCClient) : ClientEvent → Bool
  | .worker _ => t.asks cfg
  | .transferComplete | .stop => true
  | _ => false

variable {cfg : Config} {a : Answers} {t t' : WebRTCClient} {e : ClientEvent}

/-! ## Where the worker goes -/

/-- The head of `OfferFiles`' loop is in the branch. Kind: L -/
@[simp] theorem works_offerNext (batch : Batch) : (offerNext batch).works = true :=
  offerNext_elim (motive := fun p => p.works = true) rfl (fun _ _ => rfl) batch

/-- With the rooms joined, the worker is in the branch. Kind: L -/
@[simp] theorem works_afterJoin (task : Task) : (afterJoin cfg task).works = true :=
  afterJoin_elim (motive := fun p => p.works = true) rfl (fun _ _ => rfl) rfl (fun _ _ => rfl) task

/-- With a channel, too. Kind: L -/
@[simp] theorem works_afterChannel (task : Task) : (afterChannel cfg task).works = true :=
  afterChannel_elim (motive := fun p => p.works = true) rfl (fun _ _ => rfl) (fun _ _ => rfl) task

/-- With the rooms joined, the branch may still be in `CLIENT_INIT`. Kind: L -/
@[simp] theorem early_afterJoin (task : Task) : (afterJoin cfg task).early = true :=
  afterJoin_elim (motive := fun p => p.early = true) rfl (fun _ _ => rfl) rfl (fun _ _ => rfl) task

/-- The branch is left where its functions have returned. Kind: L -/
theorem works_of_workerStep (h : workerStep cfg a t = some t') (hworks : t.worker.works = true)
    (hreturned : ∀ ok, t.worker ≠ .returned ok) : t'.worker.works = true := by
  cases workerStep_cases h with
  | joined | channelFound | announced | offerNext => simp
  | join locked room rest task =>
      unfold joinNext
      repeat' split
      all_goals rfl
  | returned ok hworker => exact absurd hworker (hreturned ok)
  | _ => simp_all [Pc.works]

/-- **A pass that meets no room to join stays in `CLIENT_INIT`**, and comes to its end. Kind: P -/
theorem early_of_workerStep (h : workerStep cfg a t = some t') (hearly : t.worker.early = true)
    (hinit : t.clientState = .init) (hasks : t.asks cfg = false)
    (hreturned : ∀ ok, t.worker ≠ .returned ok) :
    t'.clientState = .init ∧ t'.worker.early = true := by
  have hstopped : t.stopped = true := by simp [stopped, hinit]
  cases workerStep_cases h with
  | joined locked task => exact ⟨hinit, early_afterJoin task⟩
  | join locked room rest task hworker =>
      have hskips : (room = [] || t.inRoom cfg room) = true := by
        rw [Bool.or_eq_true, decide_eq_true_eq, or_iff_not_imp_left]
        simpa [asks, hworker, hinit] using hasks
      have hexit : t.clientState ≠ .exit := by simp [hinit]
      unfold joinNext
      rw [if_neg hexit, if_pos hskips]
      exact ⟨hinit, rfl⟩
  | connectStopped | peerStopped => exact ⟨hinit, rfl⟩
  | returned ok hworker => exact absurd hworker (hreturned ok)
  | _ =>
      -- the other places are not for a pass in `CLIENT_INIT`, or wait for a state that it has
      simp_all [Pc.early]

/-- The head of `OfferFiles`' loop is no failure. Kind: L -/
theorem offerNext_ne_failed (batch : Batch) : offerNext batch ≠ .returned false :=
  offerNext_elim (motive := fun p => p ≠ .returned false) (by simp) (fun _ _ => by simp) batch

/-- Neither is what follows joined rooms. Kind: L -/
theorem afterJoin_ne_failed (task : Task) : afterJoin cfg task ≠ .returned false :=
  afterJoin_elim (motive := fun p => p ≠ .returned false) (by simp) (fun _ _ => by simp) (by simp)
    (fun _ _ => by simp) task

/-- Nor what follows a channel. Kind: L -/
theorem afterChannel_ne_failed (task : Task) : afterChannel cfg task ≠ .returned false :=
  afterChannel_elim (motive := fun p => p ≠ .returned false) (by simp) (fun _ _ => by simp)
    (fun _ _ => by simp) task

/-- The functions of the branch fail in `CLIENT_INIT` or `CLIENT_EXIT` only. Kind: L -/
theorem stopped_of_workerStep (h : workerStep cfg a t = some t')
    (hfailed : t'.worker = .returned false) : t'.stopped = true := by
  cases workerStep_cases h with
  | dispatch =>
      unfold dispatch at hfailed
      repeat' split at hfailed
      all_goals first
        | cases hfailed
        | exact absurd hfailed (offerNext_ne_failed _)
  | joined locked task => exact absurd hfailed (afterJoin_ne_failed task)
  | join locked room rest task =>
      unfold joinNext at hfailed ⊢
      repeat' split at hfailed
      all_goals cases hfailed
      all_goals simp_all [stopped]
  | channelFound key task | announced key _ task => exact absurd hfailed (afterChannel_ne_failed task)
  | offerNext batch => exact absurd hfailed (offerNext_ne_failed batch)
  | joinStopped | connectStopped | peerStopped | offeredStopped => assumption
  | joinExpired | peerExpired => rfl
  | channelFailed =>
      by_cases hstopped : t.stopped = true
      · simp only [hstopped, if_true]
        exact hstopped
      · simp only [hstopped, Bool.false_eq_true, if_false]
        rfl
  | _ => cases hfailed

/-- The worker waits for the transport where it has found `CLIENT_INIT`. Kind: L -/
theorem init_of_awaitTransport (h : workerStep cfg a t = some t')
    (hawaits : t'.worker = .awaitTransport) :
    t.worker = .top ∧ t.clientState = .init ∧ t'.clientState = .init := by
  have hoffer : ∀ batch, offerNext batch ≠ .awaitTransport :=
    offerNext_elim (motive := fun p => p ≠ .awaitTransport) (by simp) (fun _ _ => by simp)
  have hjoin : ∀ task, afterJoin cfg task ≠ .awaitTransport :=
    afterJoin_elim (motive := fun p => p ≠ .awaitTransport) (by simp) (fun _ _ => by simp) (by simp)
      (fun _ _ => by simp)
  have hchannel : ∀ task, afterChannel cfg task ≠ .awaitTransport :=
    afterChannel_elim (motive := fun p => p ≠ .awaitTransport) (by simp) (fun _ _ => by simp)
      (fun _ _ => by simp)
  cases workerStep_cases h with
  | dispatch hworker =>
      unfold dispatch at hawaits ⊢
      cases hstate : t.clientState with
      | init => exact ⟨hworker, rfl, rfl⟩
      | run =>
          simp only [hstate] at hawaits
          split at hawaits
          · cases hawaits
          · exact absurd hawaits (hoffer _)
      | _ =>
          simp only [hstate] at hawaits
          cases hawaits
  | joined locked task => exact absurd hawaits (hjoin task)
  | join locked room rest task =>
      unfold joinNext at hawaits
      repeat' split at hawaits
      all_goals cases hawaits
  | channelFound key task | announced key _ task => exact absurd hawaits (hchannel task)
  | offerNext batch => exact absurd hawaits (hoffer batch)
  | _ =>
      -- no other place is left for this one
      cases hawaits

/-- What a pass leaves behind. Kind: L -/
theorem workerStep_returned {ok : Bool} (hworker : t.worker = .returned ok)
    (h : workerStep cfg a t = some t') : t'.worker = .top ∧ t'.clientState =
      if !ok || t.stopped || t.clientState = .waitForFileAccept then t.clientState else .run := by
  simp only [workerStep, hworker, Option.some.injEq] at h
  subst h
  exact ⟨rfl, rfl⟩

/-! ## What the threads write -/

/-- Nobody but `OnMessageClose` writes `CLIENT_INIT`. Kind: L -/
theorem close_of_init (h : step cfg t e = some t') (hinit : t'.clientState = .init) :
    t.clientState = .init ∨ e = .messageClose := by
  have hstate := step_clientState h
  rw [hinit] at hstate
  by_cases hclose : e = .messageClose
  · exact Or.inr hclose
  left
  cases hassigned : assigned cfg t e with
  | none =>
      rw [hassigned] at hstate
      exact hstate.symm
  | some state =>
      rw [hassigned] at hstate
      obtain rfl : ClientState.init = state := hstate
      cases e with
      | worker a =>
          exfalso
          simp only [assigned, workerAssigned] at hassigned
          repeat' split at hassigned
          all_goals cases hassigned
      | messageClose => exact absurd rfl hclose
      | callback =>
          exfalso
          simp only [assigned] at hassigned
          repeat' split at hassigned
          all_goals cases hassigned
      | _ =>
          exfalso
          simp only [assigned] at hassigned
          first
            | cases hassigned
            | split at hassigned
          all_goals cases hassigned

/-- What leads out of `CLIENT_INIT` does so. Kind: L -/
theorem ne_init_of_leads (hleads : leads cfg t e = true) (h : step cfg t e = some t') :
    t'.clientState ≠ .init := by
  rw [step_clientState h]
  cases e with
  | worker a =>
      simp only [leads, asks] at hleads
      split at hleads
      · rename_i locked room rest task hworker
        rw [Bool.and_eq_true, decide_eq_true_eq, Bool.not_eq_true'] at hleads
        have hnot : ¬(t.clientState = .exit ∨ (room = [] || t.inRoom cfg room) = true) := by
          rw [hleads.2]
          simp [hleads.1]
        simp only [assigned, workerAssigned, hworker, if_neg hnot]
        cases a.sent with
        | true => simp
        | false => simp
      · exact absurd hleads (by simp)
  | transferComplete => simp [assigned]
  | stop => simp [assigned]
  | _ => simp [leads] at hleads

/-- No other thread does, but for one that leads out of it. Kind: L -/
theorem init_of_other (hother : ∀ a, e ≠ .worker a) (hleads : leads cfg t e = false)
    (hinit : t.clientState = .init) (h : step cfg t e = some t') : t'.clientState = .init := by
  rw [step_clientState h]
  cases e with
  | worker a => exact absurd rfl (hother a)
  | transferComplete => simp [leads] at hleads
  | stop => simp [leads] at hleads
  | callback =>
      simp only [assigned, hinit]
      cases t.callback with
      | _ => simp
  | _ => simp [assigned, hinit]

/-- Where `CLIENT_INIT`, `CLIENT_EXIT` or `CLIENT_RUN` is found, the other threads write no other
state. Kind: L -/
theorem settled_of_other (hother : ∀ a, e ≠ .worker a)
    (hsettled : t.stopped = true ∨ t.clientState = .run) (h : step cfg t e = some t') :
    t'.stopped = true ∨ t'.clientState = .run := by
  have hstates : t.clientState = .exit ∨ t.clientState = .init ∨ t.clientState = .run := by
    simpa [stopped, or_assoc] using hsettled
  suffices t'.clientState = .exit ∨ t'.clientState = .init ∨ t'.clientState = .run by
    simpa [stopped, or_assoc] using this
  rw [step_clientState h]
  cases e with
  | worker a => exact absurd rfl (hother a)
  | callback =>
      rcases hstates with hstate | hstate | hstate
      all_goals
        simp only [assigned, hstate]
        cases t.callback with
        | _ => simp
  | _ =>
      rcases hstates with hstate | hstate | hstate
      all_goals simp [assigned, hstate]

/-- While the worker is at the loop's condition, nobody writes the state. Kind: L -/
theorem clientState_of_top (hother : ∀ a, e ≠ .worker a) (htop : t.worker = .top)
    (h : step cfg t e = some t') : t'.clientState = t.clientState := by
  have hlocked : t.worker.locked = true := by
    rw [htop]
    rfl
  rw [step_clientState h]
  cases step_cases h with
  | worker a => exact absurd rfl (hother a)
  | cleared hcallback => simp only [assigned, hcallback, Option.getD_none]
  | _ =>
      -- the others write the state only where they lock it
      first
        | rfl
        | simp_all

/-- The worker does not touch the transport. Kind: L -/
theorem open_of_workerStep (h : workerStep cfg a t = some t') :
    t'.transportOpen = t.transportOpen := by
  cases workerStep_cases h with
  | dispatch =>
      unfold dispatch
      repeat' split
      all_goals rfl
  | join locked room rest task =>
      unfold joinNext
      repeat' split
      all_goals rfl
  | _ => rfl

/-- The transport is open where it was, or has been reported open. Kind: L -/
theorem open_of_step (h : step cfg t e = some t') (hopen : t'.transportOpen = true) :
    t.transportOpen = true ∨ e = .messageOpen := by
  cases step_cases h with
  | opened => exact Or.inr rfl
  | worker a t' hgoes => exact Or.inl (open_of_workerStep hgoes ▸ hopen)
  | closed => exact absurd hopen Bool.false_ne_true
  | _ => exact Or.inl hopen

end WebRTCClient

/-! ## Runs -/

/-- What has been reported of the transport since the `CLIENT_INIT` branch was last executed.
Kind: D -/
inductive Reported where
  /-- It has not been executed yet. -/
  | fresh
  | nothing
  | closed
  /-- Closed, and then opened again. -/
  | reopened
  deriving DecidableEq

/-- Where the worker is with the functions of the `CLIENT_INIT` branch. Kind: D -/
inductive Pass where
  | outside
  /-- `JoinRooms`, `ConnectPeer` and `OfferFiles` are running. -/
  | inside
  /-- They have returned, and the worker is at the loop's condition. -/
  | ended
  deriving DecidableEq

/-- A client with the last execution of its `CLIENT_INIT` branch, and whether that has been led out
of `CLIENT_INIT`. Kind: D -/
structure Passes where
  client : WebRTCClient := {}
  reported : Reported := .fresh
  pass : Pass := .outside
  led : Bool := false

namespace Passes

open WebRTCClient

variable (cfg : Config)

/-- Source: `WebRTCClient.cpp`, `OnMessageClose` and `OnMessageOpen`. Kind: D -/
def reportedAfter (t : Passes) : ClientEvent → Reported
  | .messageClose => if t.reported = .nothing then .closed else t.reported
  | .messageOpen => if t.reported = .closed then .reopened else t.reported
  | _ => t.reported

/-- The functions of the branch return, and the worker goes on. Kind: D -/
def passAfter (t : Passes) : ClientEvent → Pass
  | .worker _ =>
    match t.pass, t.client.worker with
    | .inside, .returned _ => .ended
    | .inside, _ => .inside
    | _, _ => .outside
  | _ => t.pass

/-- A step of the client, noted; the branch has no functions to run where `--file` is malformed.
Kind: D -/
def step (t : Passes) (e : ClientEvent) : Option Passes :=
  (t.client.step cfg e).map fun c =>
    if t.client.executes e then
      { client := c
        reported := .nothing
        pass := if cfg.specs.isSome then .inside else .outside
        led := t.client.clientState ≠ .init || cfg.specs.isNone }
    else
      { client := c
        reported := t.reportedAfter e
        pass := t.passAfter e
        led := t.led || leads cfg t.client e }

/-- The worker does not spin in `CLIENT_INIT`: a pass whose functions have returned without a loss
has left it, and the branch is executed again only when the transport was closed and opened since.
Kind: D -/
structure Settles (t : Passes) : Prop where
  left : t.pass = .ended → t.reported = .nothing → t.client.clientState = .run ∨
    t.client.clientState = .waitForFileAccept ∨ t.client.clientState = .exit
  again : t.client.worker = .awaitTransport → t.client.clientState ≠ .exit →
    t.client.transportOpen = true → t.reported = .fresh ∨ t.reported = .reopened

/-- The functions of the branch do not end in the `CLIENT_INIT` they began with: they are not about
to, or a loss has been reported, or something has led the pass out. Kind: D -/
def ledOut (t : Passes) : ClientEvent → Bool
  | .worker _ =>
    match t.client.worker with
    | .returned _ => t.pass ≠ .inside || t.reported ≠ .nothing || t.led
    | _ => true
  | _ => true

/-- What holds of a client and its last pass. Kind: D -/
structure Sound (t : Passes) : Prop where
  inside : t.pass = .inside → t.client.worker.works = true
  ended : t.pass = .ended → t.client.worker = .top
  led : t.reported = .nothing → t.led = true → t.client.clientState ≠ .init
  early : t.pass = .inside → t.reported = .nothing → t.led = false →
    t.client.clientState = .init ∧ t.client.worker.early = true
  failed : t.client.worker = .returned false →
    t.client.stopped = true ∨ t.client.clientState = .run

/-- What holds of them while every pass is led out. Kind: D -/
structure Safe (t : Passes) : Prop extends Sound t where
  left : t.pass = .ended → t.reported = .nothing → t.client.clientState = .run ∨
    t.client.clientState = .waitForFileAccept ∨ t.client.clientState = .exit
  pending : t.reported = .nothing → t.pass = .inside ∨ t.led = true
  awaiting : t.client.worker = .awaitTransport → t.reported ≠ .nothing
  closed : t.reported = .closed →
    t.client.clientState = .init ∨ t.client.worker = .awaitTransport →
      t.client.transportOpen = false

variable {cfg} {a : Answers} {c : WebRTCClient} {t t' : Passes} {e : ClientEvent}

/-- Where the branch is executed. Kind: L -/
theorem executes_cases (h : c.executes e = true) :
    ∃ a, e = .worker a ∧ c.worker = .awaitTransport ∧ c.clientState ≠ .exit ∧
      c.transportOpen = true := by
  unfold executes at h
  split at h
  · rename_i a
    split at h
    · rename_i hworker
      rw [Bool.and_eq_true, decide_eq_true_eq] at h
      exact ⟨a, rfl, hworker, h⟩
    · simp at h
  · simp at h

/-- What executing the branch does. Kind: L -/
theorem step_of_executes (hexecutes : t.client.executes e = true) (h : step cfg t e = some t') :
    t'.reported = .nothing ∧ t'.client.worker ≠ .awaitTransport ∧
      (t'.pass = .inside ∧ (∃ rooms, t'.client.worker = .joining false rooms .session) ∧
          (t'.led = false → t'.client.clientState = .init) ∧
          (t'.led = true → t'.client.clientState ≠ .init) ∨
        t'.pass = .outside ∧ t'.client.worker = .top ∧ t'.client.clientState = .exit ∧
          t'.led = true) := by
  obtain ⟨a, rfl, hworker, hexit, hopen⟩ := executes_cases hexecutes
  obtain ⟨c, hc, rfl⟩ := Option.map_eq_some_iff.mp h
  rw [if_pos hexecutes]
  simp only [WebRTCClient.step, workerStep, hworker, if_neg hexit, hopen, if_true] at hc
  cases hspecs : cfg.specs with
  | none =>
      rw [hspecs] at hc
      obtain rfl := Option.some.inj hc
      exact ⟨rfl, by simp, .inr ⟨rfl, rfl, rfl, by simp⟩⟩
  | some specs =>
      rw [hspecs] at hc
      obtain rfl := Option.some.inj hc
      exact ⟨rfl, by simp, .inl ⟨rfl, ⟨_, rfl⟩, by simp, by simp⟩⟩

/-- What any other step does. Kind: L -/
theorem step_of_not_executes (hexecutes : t.client.executes e = false)
    (h : step cfg t e = some t') :
    ∃ c, t.client.step cfg e = some c ∧
      t' = ⟨c, t.reportedAfter e, t.passAfter e, t.led || leads cfg t.client e⟩ := by
  obtain ⟨c, hc, rfl⟩ := Option.map_eq_some_iff.mp h
  rw [hexecutes]
  exact ⟨c, hc, rfl⟩

/-- What was not reported after a step was not reported before it. Kind: L -/
theorem nothing_of_reportedAfter (h : t.reportedAfter e = .nothing) :
    t.reported = .nothing ∧ e ≠ .messageClose := by
  cases e with
  | messageClose =>
      simp only [reportedAfter] at h
      split at h
      · cases h
      · rename_i hreported
        exact absurd h hreported
  | messageOpen =>
      simp only [reportedAfter] at h
      split at h
      · cases h
      · exact ⟨h, by simp⟩
  | _ => exact ⟨h, by simp⟩

/-- A pass goes on where its functions have not returned. Kind: L -/
theorem inside_of_passAfter (h : t.passAfter (.worker a) = .inside) :
    t.pass = .inside ∧ ∀ ok, t.client.worker ≠ .returned ok := by
  simp only [passAfter] at h
  split at h
  · cases h
  · rename_i hpass hreturned
    exact ⟨hpass, hreturned⟩
  · cases h

/-- A pass is over where they have. Kind: L -/
theorem ended_of_passAfter (h : t.passAfter (.worker a) = .ended) :
    t.pass = .inside ∧ ∃ ok, t.client.worker = .returned ok := by
  simp only [passAfter] at h
  split at h
  · rename_i ok hpass hworker
    exact ⟨hpass, ok, hworker⟩
  · cases h
  · cases h

/-- A pass that was led out is out of `CLIENT_INIT` as long as no loss is reported. Kind: L -/
theorem Sound.led_step (hsound : Sound t) (hc : t.client.step cfg e = some c)
    (hreported : t.reportedAfter e = .nothing) (hled : (t.led || leads cfg t.client e) = true) :
    c.clientState ≠ .init := by
  obtain ⟨hnothing, hclose⟩ := nothing_of_reportedAfter hreported
  intro hinit
  rcases Bool.or_eq_true_iff.mp hled with hled | hleads
  · apply hsound.led hnothing hled
    exact (close_of_init hc hinit).resolve_right hclose
  · exact ne_init_of_leads hleads hc hinit

/-- The branch is executed. Kind: L -/
theorem sound_of_executes (hexecutes : t.client.executes e = true) (h : step cfg t e = some t') :
    Sound t' := by
  obtain ⟨-, -, hexecuted⟩ := step_of_executes hexecutes h
  rcases hexecuted with ⟨hpass, ⟨rooms, hworker⟩, hstays, hleft⟩ | ⟨hpass, hworker, hexit, -⟩
  · refine ⟨fun _ => ?_, fun hended => ?_, fun _ => hleft, fun _ _ hled => ⟨hstays hled, ?_⟩,
      fun hfailed => ?_⟩
    · rw [hworker]
      rfl
    · rw [hpass] at hended
      cases hended
    · rw [hworker]
      rfl
    · rw [hworker] at hfailed
      cases hfailed
  · refine ⟨fun hinside => ?_, fun _ => hworker, fun _ _ => ?_, fun hinside => ?_,
      fun hfailed => ?_⟩
    · rw [hpass] at hinside
      cases hinside
    · rw [hexit]
      simp
    · rw [hpass] at hinside
      cases hinside
    · rw [hworker] at hfailed
      cases hfailed

/-- The worker takes another step. Kind: L -/
theorem Sound.of_worker (hsound : Sound t) (hc : t.client.step cfg (.worker a) = some c) :
    Sound ⟨c, t.reported, t.passAfter (.worker a), t.led || leads cfg t.client (.worker a)⟩ := by
  refine ⟨fun hinside => ?_, fun hended => ?_, hsound.led_step hc, fun hinside hnothing hled => ?_,
    fun hfailed => .inl (stopped_of_workerStep hc hfailed)⟩
  · obtain ⟨hpass, hreturned⟩ := inside_of_passAfter (a := a) hinside
    exact works_of_workerStep hc (hsound.inside hpass) hreturned
  · obtain ⟨-, ok, hreturned⟩ := ended_of_passAfter (a := a) hended
    exact (workerStep_returned hreturned hc).1
  · obtain ⟨hpass, hreturned⟩ := inside_of_passAfter (a := a) hinside
    obtain ⟨hled, hasks⟩ := Bool.or_eq_false_iff.mp hled
    obtain ⟨hinit, hearly⟩ := hsound.early hpass hnothing hled
    exact early_of_workerStep hc hearly hinit hasks hreturned

/-- Another thread takes a step. Kind: L -/
theorem Sound.of_other (hsound : Sound t) (hother : ∀ a, e ≠ .worker a)
    (hc : t.client.step cfg e = some c) :
    Sound ⟨c, t.reportedAfter e, t.pass, t.led || leads cfg t.client e⟩ := by
  have hstays := (step_frame hother hc).1
  refine ⟨fun hinside => ?_, fun hended => ?_, hsound.led_step hc, fun hinside hnothing hled => ?_,
    fun hfailed => ?_⟩
  · rw [hstays]
    exact hsound.inside hinside
  · rw [hstays]
    exact hsound.ended hended
  · obtain ⟨hled, hleads⟩ := Bool.or_eq_false_iff.mp hled
    obtain ⟨hinit, hearly⟩ := hsound.early hinside (nothing_of_reportedAfter hnothing).1 hled
    rw [hstays]
    exact ⟨init_of_other hother hleads hinit hc, hearly⟩
  · rw [hstays] at hfailed
    exact settled_of_other hother (hsound.failed hfailed) hc

/-- The other threads do not move the worker. Kind: L -/
theorem passAfter_of_other (hother : ∀ a, e ≠ .worker a) : t.passAfter e = t.pass := by
  cases e with
  | worker a => exact absurd rfl (hother a)
  | _ => rfl

/-- **Every step keeps what holds of a pass.** Kind: P -/
theorem Sound.step (hsound : Sound t) (h : step cfg t e = some t') : Sound t' := by
  cases hexecutes : t.client.executes e with
  | true => exact sound_of_executes hexecutes h
  | false =>
      obtain ⟨c, hc, rfl⟩ := step_of_not_executes hexecutes h
      by_cases hworker : ∃ a, e = .worker a
      · obtain ⟨a, rfl⟩ := hworker
        exact hsound.of_worker hc
      · have hother : ∀ a, e ≠ .worker a := fun a ha => hworker ⟨a, ha⟩
        rw [passAfter_of_other hother]
        exact hsound.of_other hother hc

/-- **A pass that is not led out spins.** Kind: P -/
theorem not_settles_step (hsound : Sound t) (hbad : ¬ t.ledOut e = true)
    (h : step cfg t e = some t') : ¬ Settles t' := by
  intro hsettles
  unfold ledOut at hbad
  split at hbad
  · rename_i a
    split at hbad
    · rename_i ok hworker
      obtain ⟨⟨hinside, hnothing⟩, hled⟩ : (t.pass = .inside ∧ t.reported = .nothing) ∧ t.led = false := by
        simpa [not_or] using hbad
      have hexecutes : t.client.executes (.worker a) = false := by simp [executes, hworker]
      obtain ⟨c, hc, rfl⟩ := step_of_not_executes hexecutes h
      have hinit := (hsound.early hinside hnothing hled).1
      have hstate := (workerStep_returned hworker hc).2
      rw [if_pos (by simp [stopped, hinit]), hinit] at hstate
      have hended : t.passAfter (.worker a) = .ended := by simp [passAfter, hinside, hworker]
      have hleft := hsettles.left hended hnothing
      simp [hstate] at hleft
    · exact hbad rfl
  · exact hbad rfl

/-- Safe passes settle. Kind: L -/
theorem Safe.settles (hsafe : Safe t) : Settles t := by
  refine ⟨hsafe.left, fun hawaits hexit hopen => ?_⟩
  cases hreported : t.reported with
  | fresh => exact Or.inl rfl
  | nothing => exact absurd hreported (hsafe.awaiting hawaits)
  | closed =>
      rw [hsafe.closed hreported (Or.inr hawaits)] at hopen
      cases hopen
  | reopened => exact Or.inr rfl

/-- The state that a pass leaves behind where it has been led out. Kind: L -/
theorem left_of_led (hsound : Sound t) {ok : Bool} (hreturned : t.client.worker = .returned ok)
    (hc : workerStep cfg a t.client = some c) (hinit : c.clientState ≠ .init) :
    c.clientState = .run ∨ c.clientState = .waitForFileAccept ∨ c.clientState = .exit := by
  have hstate := (workerStep_returned hreturned hc).2
  split at hstate
  · rename_i hkept
    rw [hstate] at hinit ⊢
    have hends : t.client.stopped = true ∨ t.client.clientState = .run ∨
        t.client.clientState = .waitForFileAccept := by
      cases ok with
      | false => exact (hsound.failed hreturned).imp_right Or.inl
      | true =>
          rw [Bool.not_true, Bool.false_or, Bool.or_eq_true, decide_eq_true_eq] at hkept
          exact hkept.imp_right Or.inr
    rcases hends with hstopped | hrun | hwait
    · have hexit : t.client.clientState = .exit := by
        simpa [stopped, hinit] using hstopped
      exact Or.inr (Or.inr hexit)
    · exact Or.inl hrun
    · exact Or.inr (Or.inl hwait)
  · exact Or.inl hstate

/-- What is reported closed was not reported before the close, or was reported closed. Kind: L -/
theorem closed_of_reportedAfter (h : t.reportedAfter e = .closed) :
    e ≠ .messageOpen ∧ (t.reported = .closed ∨ t.reported = .nothing ∧ e = .messageClose) := by
  cases e with
  | messageClose =>
      simp only [reportedAfter] at h
      split at h
      · rename_i hnothing
        exact ⟨by simp, Or.inr ⟨hnothing, rfl⟩⟩
      · exact ⟨by simp, Or.inl h⟩
  | messageOpen =>
      simp only [reportedAfter] at h
      split at h
      · cases h
      · rename_i hclosed
        exact absurd h hclosed
  | _ => exact ⟨by simp, Or.inl h⟩

/-- The branch is executed. Kind: L -/
theorem safe_of_executes (hexecutes : t.client.executes e = true) (h : step cfg t e = some t') :
    Safe t' := by
  have hsound := sound_of_executes hexecutes h
  obtain ⟨hnothing, hawaits, hexecuted⟩ := step_of_executes hexecutes h
  have hpass : t'.pass ≠ .ended ∧ (t'.pass = .inside ∨ t'.led = true) := by
    rcases hexecuted with ⟨hpass, -⟩ | ⟨hpass, -, -, hled⟩
    · exact ⟨by simp [hpass], Or.inl hpass⟩
    · exact ⟨by simp [hpass], Or.inr hled⟩
  refine ⟨hsound, fun hended => absurd hended hpass.1, fun _ => hpass.2,
    fun hworker => absurd hworker hawaits, fun hclosed => ?_⟩
  rw [hnothing] at hclosed
  cases hclosed

/-- The worker takes another step. Kind: L -/
theorem Safe.of_worker (hsafe : Safe t) (hled : t.ledOut (.worker a) = true)
    (hc : t.client.step cfg (.worker a) = some c) :
    Safe ⟨c, t.reported, t.passAfter (.worker a), t.led || leads cfg t.client (.worker a)⟩ := by
  have hends : ∀ ok, t.pass = .inside → t.client.worker = .returned ok → t.reported = .nothing →
      t.led = true := by
    intro ok hinside hreturned hnothing
    simpa [ledOut, hreturned, hinside, hnothing] using hled
  refine ⟨hsafe.toSound.of_worker hc, fun hended hnothing => ?_, fun hnothing => ?_,
    fun hawaits hnothing => ?_, fun hclosed hstate => ?_⟩
  · obtain ⟨hinside, ok, hreturned⟩ := ended_of_passAfter (a := a) hended
    apply left_of_led hsafe.toSound hreturned hc
    exact hsafe.led_step hc hnothing (by rw [hends ok hinside hreturned hnothing, Bool.true_or])
  · rcases hsafe.pending hnothing with hinside | hled
    · by_cases hreturned : ∃ ok, t.client.worker = .returned ok
      · obtain ⟨ok, hreturned⟩ := hreturned
        right
        simp only [hends ok hinside hreturned hnothing, Bool.true_or]
      · left
        simp only [passAfter, hinside]
        split
        · rename_i ok _ hworker
          exact absurd ⟨ok, hworker⟩ hreturned
        · rfl
        · rename_i hpass _
          exact absurd rfl hpass
    · right
      simp only [hled, Bool.true_or]
  · obtain ⟨htop, hinit, -⟩ := init_of_awaitTransport hc hawaits
    rcases hsafe.pending hnothing with hinside | hled
    · have hworks := hsafe.inside hinside
      rw [htop] at hworks
      cases hworks
    · exact hsafe.led hnothing hled hinit
  · have hinit : t.client.clientState = .init := by
      rcases hstate with hinit | hawaits
      · exact (close_of_init hc hinit).resolve_right (by simp)
      · exact (init_of_awaitTransport hc hawaits).2.1
    show c.transportOpen = false
    rw [open_of_workerStep hc]
    exact hsafe.closed hclosed (Or.inl hinit)

/-- Another thread takes a step. Kind: L -/
theorem Safe.of_other (hsafe : Safe t) (hother : ∀ a, e ≠ .worker a)
    (hc : t.client.step cfg e = some c) :
    Safe ⟨c, t.reportedAfter e, t.pass, t.led || leads cfg t.client e⟩ := by
  have hstays := (step_frame hother hc).1
  refine ⟨hsafe.toSound.of_other hother hc, fun hended hnothing => ?_, fun hnothing => ?_,
    fun hawaits hnothing => ?_, fun hclosed hstate => ?_⟩
  · rw [clientState_of_top hother (hsafe.ended hended) hc]
    exact hsafe.left hended (nothing_of_reportedAfter hnothing).1
  · rcases hsafe.pending (nothing_of_reportedAfter hnothing).1 with hinside | hled
    · exact Or.inl hinside
    · right
      simp only [hled, Bool.true_or]
  · rw [hstays] at hawaits
    exact hsafe.awaiting hawaits (nothing_of_reportedAfter hnothing).1
  · obtain ⟨hreport, hbefore⟩ := closed_of_reportedAfter hclosed
    rw [hstays] at hstate
    by_cases hclose : e = .messageClose
    · subst hclose
      simp only [WebRTCClient.step] at hc
      repeat' split at hc
      all_goals cases hc
      · rename_i hexit
        have hawaits := hstate.resolve_left (by simp [hexit])
        have hreported := hbefore.resolve_right fun h => hsafe.awaiting hawaits h.1
        exact hsafe.closed hreported (Or.inr hawaits)
      · rfl
    · have hreported := hbefore.resolve_right fun h => hclose h.2
      have hclosed : t.client.transportOpen = false := by
        apply hsafe.closed hreported
        exact hstate.imp_left fun hinit => (close_of_init hc hinit).resolve_right hclose
      cases hopen : c.transportOpen with
      | false => rfl
      | true =>
          have hwas := (open_of_step hc hopen).resolve_right hreport
          rw [hclosed] at hwas
          cases hwas

/-- **A step keeps the worker from spinning**, where every pass is led out. Kind: P -/
theorem Safe.step (hsafe : Safe t) (hled : t.ledOut e = true) (h : step cfg t e = some t') :
    Safe t' := by
  cases hexecutes : t.client.executes e with
  | true => exact safe_of_executes hexecutes h
  | false =>
      obtain ⟨c, hc, rfl⟩ := step_of_not_executes hexecutes h
      by_cases hworker : ∃ a, e = .worker a
      · obtain ⟨a, rfl⟩ := hworker
        exact hsafe.of_worker hled hc
      · have hother : ∀ a, e ≠ .worker a := fun a ha => hworker ⟨a, ha⟩
        rw [passAfter_of_other hother]
        exact hsafe.of_other hother hc

/-- **The worker does not spin in `CLIENT_INIT` in exactly the runs in which every pass is led out
of it.** Kind: P -/
theorem settles_iff_ledOut (cfg : Config) (es : List ClientEvent) :
    Runs.Always (step cfg) Settles {} es ↔
      Runs.Meets (step cfg) (fun t e => t.ledOut e = true) {} es := by
  have hsound : Sound {} := by
    refine ⟨fun h => ?_, fun h => ?_, fun h => ?_, fun h => ?_, fun h => ?_⟩
    all_goals cases h
  constructor
  · apply Runs.meets_of_always (I := Sound)
    · exact fun t e t' hsound he => hsound.step he
    · exact fun t e t' hsound _ hbad he => not_settles_step hsound hbad he
    · exact hsound
  · intro hmeets
    have hsafe : Runs.Always (step cfg) Safe {} es := by
      apply Runs.always_of_meets _ (fun t e t' hsafe hled he => hsafe.step hled he) _ hmeets
      refine ⟨hsound, fun h => ?_, fun h => ?_, fun h => ?_, fun h => ?_⟩
      all_goals cases h
    exact hsafe.imp _ fun t h => h.settles

/-- `--room` is empty, and nothing else is given. Kind: D -/
def emptyRoom : Config := ⟨str "a", some [], [], some []⟩

/-- The branch is executed, and nothing is reported of the transport before it is executed again.
Kind: D -/
def emptyPass : List ClientEvent :=
  [.worker {}, .messageOpen, .worker {}, .worker {}, .worker {}, .worker {}, .worker {}]

/-- With an empty room the worker spins. Kind: P -/
theorem empty_room_spins : ¬ ∀ cfg es, Runs.Always (step cfg) Settles {} es := by
  intro h
  have hany : ((Runs.run (step emptyRoom) {} emptyPass).any fun t =>
      t.client.executes (.worker {}) && decide (t.reported = .nothing)) = true := by decide
  obtain ⟨t, ht, hsettles⟩ := (h emptyRoom emptyPass).at_end _ hany
  rw [Bool.and_eq_true, decide_eq_true_eq] at ht
  obtain ⟨a, -, hawaits, hexit, hopen⟩ := executes_cases ht.1
  have hagain := hsettles.again hawaits hexit hopen
  simp [ht.2] at hagain

end Passes

end CloudNode
