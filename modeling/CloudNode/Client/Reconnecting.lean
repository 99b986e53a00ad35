import CloudNode.Client.Lifecycle
import CloudNode.Client.Requests

/-!
# After a lost connection

`OnMessageClose` makes the state `CLIENT_INIT` and leaves it to the worker to notice. The worker
then runs the `CLIENT_INIT` branch: it waits for the transport to reopen and joins its rooms again.
Between the loss and the branch nobody may write another state, and nothing may be sent that
belongs to the old session.

* `Loss` — how far a loss has come: a send has failed, the close was handled, or the branch is
  being executed.
* `fresh_of_heeds` — a loss leads to a fresh session in the runs in which no step goes past it:
  the steps that do are listed in `heeds`.
-/

namespace CloudNode

/-- How far a loss of the connection has come. Kind: D -/
inductive Loss where
  | intact
  /-- `SendMessage` has failed, and `OnMessageClose` has not run. -/
  | failed
  /-- `OnMessageClose` has run, and the `CLIENT_INIT` branch has not been executed. -/
  | closed
  /-- The `CLIENT_INIT` branch is executed, and its rooms are not joined yet. -/
  | renewing
  deriving DecidableEq

/-- How far `SendFileOffer` is. Kind: D -/
inductive Stage where
  | outside
  /-- Before it sets `CLIENT_WAIT_FOR_FILE_ACCEPT`. -/
  | beginning
  /-- From there until the offer is sent. -/
  | sending
  /-- From a failed send until it has set `CLIENT_RUN`. -/
  | undoing
  deriving DecidableEq

/-- How far `SendFileOffer` is. Kind: D -/
def Pc.stage : Pc → Stage
  | .expect _ _ => .beginning
  | .register _ _ | .sendOffer _ _ => .sending
  | .withdraw _ _ | .resume _ => .undoing
  | _ => .outside

namespace WebRTCClient

variable (cfg : Config)

/-- `JoinRooms` is about to ask for a room.
Source: `WebRTCClient.cpp`, `JoinRooms`
Kind: D -/
def asks (t : WebRTCClient) : Bool :=
  match t.worker with
  | .joining _ (room :: _) _ => t.clientState ≠ .exit && !(room = [] || t.inRoom cfg room)
  | _ => false

/-- The worker's step is a `SendMessage` that fails. Kind: D -/
def sendFails (a : Answers) (t : WebRTCClient) : Bool :=
  !a.sent && t.clientState ≠ .exit &&
    match t.worker with
    | .joining _ _ _ => t.asks cfg
    | .announceChannel _ _ _ | .sendOffer _ _ | .sendPing => true
    | _ => false

variable {cfg} {a : Answers} {t t' : WebRTCClient}

/-- The head of `OfferFiles`' loop is outside of `SendFileOffer`. Kind: L -/
@[simp] theorem stage_offerNext (batch : Batch) : (offerNext batch).stage = .outside :=
  offerNext_elim (motive := fun p => p.stage = .outside) rfl (fun _ _ => rfl) batch

/-- With the rooms joined, the worker is outside of `SendFileOffer`. Kind: L -/
@[simp] theorem stage_afterJoin (task : Task) : (afterJoin cfg task).stage = .outside :=
  afterJoin_elim (motive := fun p => p.stage = .outside) rfl (fun _ _ => rfl) rfl (fun _ _ => rfl) task

/-- With a channel, the worker has not written the state. Kind: L -/
@[simp] theorem stage_afterChannel (task : Task) : (afterChannel cfg task).stage = .outside :=
  afterChannel_elim (motive := fun p => p.stage = .outside) rfl (fun _ _ => rfl) (fun _ _ => rfl) task

/-- At the loop's condition the worker is outside of `SendFileOffer`. Kind: L -/
theorem stage_dispatch (t : WebRTCClient) : t.dispatch.worker.stage = .outside := by
  unfold dispatch
  split
  all_goals try rfl
  split
  · rfl
  · exact stage_offerNext _

/-- **How the worker goes through `SendFileOffer`.** Kind: P -/
theorem stage_workerStep (h : workerStep cfg a t = some t') :
    (t'.worker.stage = .sending → t.worker.stage = .beginning ∨ t.worker.stage = .sending) ∧
      (t'.worker.stage = .undoing →
        t.worker.stage = .undoing ∨ t.worker.stage = .sending ∧ a.sent = false) := by
  cases workerStep_cases h with
  | dispatch => simp [stage_dispatch]
  | joined | channelFound | announced | offerNext => simp
  | join locked room rest task =>
      unfold joinNext
      repeat' split
      all_goals simp [Pc.stage]
  | _ =>
      -- the other places are left for one place each
      simp_all [Pc.stage]

/-- A step in which no timer expires writes `CLIENT_EXIT` only where a send or a description has
failed, or `--file` is malformed. Kind: L -/
theorem exit_of_workerStep (h : workerStep cfg a t = some t') (hexpired : a.expired = false)
    (hexit : t'.clientState = .exit) (hbefore : t.clientState ≠ .exit) :
    (t.worker = .awaitTransport ∧ cfg.specs = none) ∨ (t.asks cfg = true ∧ a.sent = false) ∨
      (∃ task, t.worker = .channelFailed task ∧ t.stopped = false) ∨
      (t.worker = .pinged false ∧ t.clientState = .waitForPong) := by
  cases workerStep_cases h with
  | malformed hspecs _ _ hworker => exact .inl ⟨hworker, hspecs⟩
  | join locked room rest task hworker =>
      rw [joinNext_clientState] at hexit
      split at hexit
      · exact absurd hexit hbefore
      · rename_i hasks
        refine .inr (.inl ⟨?_, ?_⟩)
        · simpa [asks, hworker] using not_or.mp hasks
        · cases hsent : a.sent with
          | true => simp [hsent] at hexit
          | false => rfl
  | channelFailed task hworker =>
      dsimp only at hexit
      split at hexit
      · exact absurd hexit hbefore
      · rename_i hstopped
        exact .inr (.inr (.inl ⟨task, hworker, by simpa using hstopped⟩))
  | pinged sent hworker =>
      dsimp only at hexit
      split at hexit
      · rename_i hpong
        rw [Bool.and_eq_true, Bool.not_eq_true', decide_eq_true_eq] at hpong
        exact .inr (.inr (.inr ⟨by rw [hworker, hpong.1], hpong.2⟩))
      · exact absurd hexit hbefore
  | joinExpired _ _ _ _ htimer | peerExpired _ _ _ _ htimer | pongExpired _ htimer =>
      exact absurd htimer (by simp [hexpired])
  | dispatch =>
      rw [dispatch_clientState] at hexit
      split at hexit
      · cases hexit
      · exact absurd hexit hbefore
  | returned ok =>
      dsimp only at hexit
      split at hexit
      · exact absurd hexit hbefore
      · cases hexit
  | expect | resume | quiet => cases hexit
  | _ => exact absurd hexit hbefore

/-- The worker's steps that write another state over `CLIENT_INIT`. Kind: L -/
theorem init_of_workerStep (h : workerStep cfg a t = some t') (hinit : t.clientState = .init) :
    t'.clientState = .init ∨ (t.worker = .awaitTransport ∧ cfg.specs = none) ∨
      t.asks cfg = true ∨ t.worker.stage = .beginning ∨ t.worker.stage = .undoing := by
  rw [workerStep_clientState h]
  cases hworker : t.worker with
  | joining locked rooms task =>
      cases rooms with
      | nil => exact .inl (by simp [workerAssigned, hworker, hinit])
      | cons room rest =>
          by_cases hasks : t.asks cfg = true
          · exact .inr (.inr (.inl hasks))
          · refine .inl ?_
            have hskips : (room = [] || t.inRoom cfg room) = true := by
              rw [Bool.or_eq_true, decide_eq_true_eq, or_iff_not_imp_left]
              simpa [asks, hworker, hinit] using hasks
            simp only [workerAssigned, hworker, hskips, or_true, if_true, Option.getD_none, hinit]
  | awaitTransport =>
      simp only [workerAssigned, hworker, hinit]
      split
      · rename_i hspecs
        exact .inr (.inl ⟨trivial, hspecs.2⟩)
      · exact .inl rfl
  | expect spec batch => exact .inr (.inr (.inr (.inl rfl)))
  | resume batch => exact .inr (.inr (.inr (.inr rfl)))
  | _ => exact .inl (by simp [workerAssigned, hworker, hinit, stopped])

end WebRTCClient

/-! ## Runs -/

/-- A client, with how far a loss of its connection has come, and whether a file offer or a ping
was sent while one was. Kind: D -/
structure Reconnecting where
  client : WebRTCClient := {}
  loss : Loss := .intact
  strayed : Bool := false

namespace Reconnecting

open WebRTCClient

variable (cfg : Config)

/-- How far a loss has come after an event. Nobody stops the client, so that a send fails only for
a connection that is lost. Kind: D -/
def lossAfter (t : Reconnecting) : ClientEvent → Loss
  | .messageClose => if t.client.clientState = .exit then t.loss else .closed
  | .worker a =>
    if sendFails cfg a t.client then (if t.loss = .closed then .closed else .failed)
    else match t.client.worker with
      | .awaitTransport =>
        if t.loss = .intact ∨ t.client.clientState = .exit ∨ cfg.specs = none then t.loss
        else .renewing
      | .joining _ [] .session => if t.loss = .renewing then .intact else t.loss
      | _ => t.loss
  | _ => t.loss

/-- The event is the sending of a file offer or a ping. Kind: D -/
def sends (t : Reconnecting) : ClientEvent → Bool
  | .worker a =>
    match t.client.worker with
    | .sendOffer _ _ | .sendPing => a.sent
    | _ => false
  | _ => false

/-- A step of the client, noted. Nobody stops the client, and no timer expires during a loss.
Kind: D -/
def step (t : Reconnecting) (e : ClientEvent) : Option Reconnecting :=
  match e with
  | .stop => none
  | .worker a =>
    if t.loss ≠ .intact ∧ a.expired then none
    else (t.client.step cfg e).map fun c =>
      ⟨c, lossAfter cfg t e, t.strayed || (t.loss ≠ .intact && sends t e)⟩
  | _ => (t.client.step cfg e).map fun c => ⟨c, lossAfter cfg t e, t.strayed⟩

/-- From a loss on, the client does not come into `CLIENT_EXIT`, and sends no file offer and no
ping, until it has executed the `CLIENT_INIT` branch and joined its rooms. Kind: D -/
structure Fresh (t : Reconnecting) : Prop where
  exits : t.loss ≠ .intact → t.client.clientState ≠ .exit
  strays : t.strayed = false

/-- The steps that take a loss into account. A step that does not is one of these:
* `OnMessageClose` runs between `SendFileOffer`'s first assignment to the state and its return;
* a file completes after `OnMessageClose`, before the worker has noticed the loss;
* the `CLIENT_INIT` branch is executed with a malformed `--file`;
* `JoinRooms` cannot send a join, or asks for a room in `CLIENT_INIT` outside of that branch;
* a data channel cannot be made or announced during a loss that `OnMessageClose` has not handled;
* `SendFileOffer` sets `CLIENT_WAIT_FOR_FILE_ACCEPT` during a loss;
* a ping under way during a loss is sent, or fails before `OnMessageClose` runs.
Kind: D -/
def heeds (t : Reconnecting) : ClientEvent → Bool
  | .messageClose => t.client.clientState = .exit || t.client.worker.stage = .outside ||
      t.client.worker.stage = .beginning
  | .transferComplete =>
    t.loss ≠ .closed || match t.client.worker with
      | .awaitTransport => true
      | _ => false
  | .worker a =>
    match t.client.worker with
    | .awaitTransport => t.loss = .intact || cfg.specs.isSome
    | .joining _ _ _ => !t.client.asks cfg || (a.sent && t.loss ≠ .closed)
    | .channelFailed _ => t.loss = .intact || t.client.stopped
    | .expect _ _ => t.loss = .intact
    | .sendPing => t.loss = .intact || !a.sent
    | .pinged sent => t.loss = .intact || sent || t.client.clientState ≠ .waitForPong
    | _ => true
  | _ => true

/-- The invariant of the runs that take a loss into account. Kind: D -/
structure Heeded (t : Reconnecting) : Prop where
  fresh : Fresh t
  sending : t.loss ≠ .intact → t.client.worker.stage ≠ .sending
  undoing : t.loss = .closed → t.client.worker.stage ≠ .undoing
  init : t.loss = .closed → t.client.clientState = .init ∨ t.client.worker = .awaitTransport

variable {cfg} {t t' : Reconnecting} {e : ClientEvent} {a : Answers}

/-- Only a failed send begins a loss in the worker. Kind: L -/
theorem lost_of_lossAfter (hfails : sendFails cfg a t.client = false)
    (hlost : lossAfter cfg t (.worker a) ≠ .intact) : t.loss ≠ .intact := by
  rintro hintact
  apply hlost
  simp only [lossAfter, hfails, Bool.false_eq_true, if_false]
  split
  · rw [if_pos (.inl hintact), hintact]
  · rw [if_neg (by simp [hintact]), hintact]
  · exact hintact

/-- The worker does not close the connection. Kind: L -/
theorem closed_of_lossAfter (hclosed : lossAfter cfg t (.worker a) = .closed) :
    t.loss = .closed := by
  simp only [lossAfter] at hclosed
  split at hclosed
  · split at hclosed
    · assumption
    · simp at hclosed
  · split at hclosed
    · split at hclosed
      · exact hclosed
      · simp at hclosed
    · split at hclosed
      · simp at hclosed
      · exact hclosed
    · exact hclosed

/-- The first assignment of `SendFileOffer` is not executed during a loss. Kind: L -/
theorem intact_of_beginning (hheeds : heeds cfg t (.worker a) = true)
    (hstage : t.client.worker.stage = .beginning) : t.loss = .intact := by
  cases hworker : t.client.worker with
  | expect spec batch => simpa [heeds, hworker] using hheeds
  | _ => simp [hworker, Pc.stage] at hstage

/-- A failed send writes nothing to the state, unless it is that of a join. Kind: L -/
theorem clientState_of_sendFails {c : WebRTCClient} (hheeds : heeds cfg t (.worker a) = true)
    (hfails : sendFails cfg a t.client = true) (hc : workerStep cfg a t.client = some c) :
    c.clientState = t.client.clientState ∧ t.client.worker ≠ .awaitTransport := by
  simp only [sendFails, Bool.and_eq_true, Bool.not_eq_true'] at hfails
  obtain ⟨⟨hsent, -⟩, hplace⟩ := hfails
  rw [workerStep_clientState hc]
  cases hworker : t.client.worker with
  | joining locked rooms task => simp_all [heeds]
  | announceChannel key channel task => exact ⟨by simp [workerAssigned, hworker], by simp⟩
  | sendOffer uuid batch => exact ⟨by simp [workerAssigned, hworker], by simp⟩
  | sendPing => exact ⟨by simp [workerAssigned, hworker], by simp⟩
  | _ => simp [hworker] at hplace

/-- A send that fails is no send. Kind: L -/
theorem not_sends_of_sendFails (hfails : sendFails cfg a t.client = true) :
    sends t (.worker a) = false := by
  simp only [sendFails, Bool.and_eq_true, Bool.not_eq_true'] at hfails
  simp only [sends, hfails.1.1]
  split
  · rfl
  · rfl
  · rfl

/-- After a failed send nothing is to be sent. Kind: L -/
theorem stage_of_sendFails {c : WebRTCClient} (hfails : sendFails cfg a t.client = true)
    (hc : workerStep cfg a t.client = some c) : c.worker.stage ≠ .sending := by
  intro hstage
  simp only [sendFails, Bool.and_eq_true, Bool.not_eq_true'] at hfails
  obtain ⟨⟨hsent, -⟩, hplace⟩ := hfails
  have hbefore := (stage_workerStep hc).1 hstage
  cases hworker : t.client.worker with
  | sendOffer uuid batch =>
      simp only [workerStep, hworker, hsent, Option.some.injEq] at hc
      subst hc
      simp [Pc.stage] at hstage
  | expect spec batch => simp [hworker] at hplace
  | register spec batch => simp [hworker] at hplace
  | _ => simp [hworker, Pc.stage] at hbefore

/-- `JoinRooms` asks for a room only if it can, and not behind a close. Kind: L -/
theorem sent_of_asks (hheeds : heeds cfg t (.worker a) = true) (hasks : t.client.asks cfg = true) :
    a.sent = true ∧ t.loss ≠ .closed := by
  have hasks' := hasks
  unfold asks at hasks'
  split at hasks'
  · rename_i hworker
    simpa [heeds, hworker, hasks] using hheeds
  · simp at hasks'

/-- During a loss no step of the worker ends the client. Kind: L -/
theorem not_exit_of_heeds {c : WebRTCClient} (hheeds : heeds cfg t (.worker a) = true)
    (hexpired : a.expired = false) (hlost : t.loss ≠ .intact)
    (hc : workerStep cfg a t.client = some c) (hstate : t.client.clientState ≠ .exit) :
    c.clientState ≠ .exit := by
  intro hexit
  rcases exit_of_workerStep hc hexpired hexit hstate with
    ⟨hworker, hspecs⟩ | ⟨hasks, hsent⟩ | ⟨task, hworker, hstopped⟩ | ⟨hworker, hpong⟩
  · simp [heeds, hworker, hspecs, hlost] at hheeds
  · rw [(sent_of_asks hheeds hasks).1] at hsent
    simp at hsent
  · simp [heeds, hworker, hstopped, hlost] at hheeds
  · simp [heeds, hworker, hpong, hlost] at hheeds

/-- During a loss nothing is sent that would be lost. Kind: L -/
theorem not_sends_of_heeds (h : Heeded t) (hheeds : heeds cfg t (.worker a) = true)
    (hlost : t.loss ≠ .intact) : sends t (.worker a) = false := by
  simp only [sends]
  split
  · rename_i hworker
    exact absurd (by rw [hworker]; rfl) (h.sending hlost)
  · rename_i hworker
    simpa [heeds, hworker, hlost] using hheeds
  · rfl

/-- Behind a close the worker leaves `CLIENT_INIT` as it is, until it executes that branch.
Kind: L -/
theorem init_of_heeds {c : WebRTCClient} (h : Heeded t) (hheeds : heeds cfg t (.worker a) = true)
    (hclosed : t.loss = .closed) (hplace : t.client.worker ≠ .awaitTransport)
    (hc : workerStep cfg a t.client = some c) : c.clientState = .init := by
  rcases init_of_workerStep hc ((h.init hclosed).resolve_right hplace) with
    hinit | ⟨hworker, -⟩ | hasks | hstage | hstage
  · exact hinit
  · exact absurd hworker hplace
  · exact absurd hclosed (sent_of_asks hheeds hasks).2
  · simp [intact_of_beginning hheeds hstage] at hclosed
  · exact absurd hstage (h.undoing hclosed)

/-- **A step of the worker that takes a loss into account.** Kind: P -/
theorem heeded_worker (h : Heeded t) (hheeds : heeds cfg t (.worker a) = true)
    (he : step cfg t (.worker a) = some t') : Heeded t' := by
  simp only [step] at he
  split at he
  · simp at he
  rename_i hquiet
  obtain ⟨c, hc, rfl⟩ := Option.map_eq_some_iff.mp he
  have hstep : workerStep cfg a t.client = some c := hc
  obtain ⟨hsending, hundoing⟩ := stage_workerStep hstep
  have hundone : lossAfter cfg t (.worker a) = .closed → c.worker.stage ≠ .undoing := by
    intro hclosed hstage
    have hbefore := closed_of_lossAfter hclosed
    rcases hundoing hstage with hstage | ⟨hstage, -⟩
    · exact h.undoing hbefore hstage
    · exact h.sending (by simp [hbefore]) hstage
  by_cases hfails : sendFails cfg a t.client = true
  · -- the loss begins, or has begun: the state is left alone and the worker is past the send
    obtain ⟨hstate, hplace⟩ := clientState_of_sendFails hheeds hfails hstep
    refine ⟨⟨fun _ => ?_, ?_⟩, fun _ => ?_, hundone, fun hclosed => .inl ?_⟩
    · simp only [sendFails, Bool.and_eq_true, decide_eq_true_eq] at hfails
      rw [hstate]
      exact hfails.1.2
    · dsimp only
      rw [not_sends_of_sendFails hfails, h.fresh.strays, Bool.and_false, Bool.or_false]
    · exact stage_of_sendFails hfails hstep
    · have hbefore := closed_of_lossAfter hclosed
      rw [hstate]
      exact (h.init hbefore).resolve_right hplace
  · rw [Bool.not_eq_true] at hfails
    refine ⟨⟨fun hlost => ?_, ?_⟩, fun hlost hstage => ?_, hundone, fun hclosed => .inl ?_⟩
    · have hbefore := lost_of_lossAfter hfails hlost
      have hexpired : a.expired = false := by
        simpa [hbefore] using hquiet
      exact not_exit_of_heeds hheeds hexpired hbefore hstep (h.fresh.exits hbefore)
    · dsimp only
      rw [h.fresh.strays, Bool.false_or, Bool.and_eq_false_iff]
      by_cases hlost : t.loss = .intact
      · exact .inl (by simp [hlost])
      · exact .inr (not_sends_of_heeds h hheeds hlost)
    · have hbefore := lost_of_lossAfter hfails hlost
      rcases hsending hstage with hstage | hstage
      · exact hbefore (intact_of_beginning hheeds hstage)
      · exact h.sending hbefore hstage
    · have hbefore := closed_of_lossAfter hclosed
      refine init_of_heeds h hheeds hbefore (fun hworker => ?_) hstep
      -- the branch itself ends the loss
      have hexit := h.fresh.exits (by simp [hbefore])
      cases hspecs : cfg.specs with
      | none => simp [heeds, hworker, hspecs, hbefore] at hheeds
      | some specs => simp [lossAfter, hfails, hworker, hexit, hspecs, hbefore] at hclosed

/-- An event that is neither the worker's, nor a close, nor the end of a file. Kind: L -/
theorem assigned_of_calm {c : WebRTCClient} (hother : ∀ a, e ≠ .worker a) (hstop : e ≠ .stop)
    (hclose : e ≠ .messageClose) (htransfer : e ≠ .transferComplete) :
    (assigned cfg c e = none ∨ c.clientState ≠ .init) ∧ assigned cfg c e ≠ some .exit := by
  cases e with
  | worker a => exact absurd rfl (hother a)
  | stop => exact absurd rfl hstop
  | messageClose => exact absurd rfl hclose
  | transferComplete => exact absurd rfl htransfer
  | pong =>
      simp only [assigned]
      split
      · rename_i hpong
        exact ⟨.inr (by simp [hpong]), by simp⟩
      · exact ⟨.inl rfl, by simp⟩
  | callback =>
      simp only [assigned]
      split
      · split
        · rename_i hjoin
          exact ⟨.inr (by simp [hjoin.1]), by simp⟩
        · exact ⟨.inl rfl, by simp⟩
      · split
        · rename_i haccept
          exact ⟨.inr (by simp [haccept]), by simp⟩
        · exact ⟨.inl rfl, by simp⟩
      · exact ⟨.inl rfl, by simp⟩
  | _ => exact ⟨.inl rfl, by simp [assigned]⟩

/-- A step that leaves the worker, the state and the loss as they are. Kind: L -/
theorem heeded_of_same {c : WebRTCClient} (h : Heeded t) (hworker : c.worker = t.client.worker)
    (hstate : c.clientState = t.client.clientState) : Heeded ⟨c, t.loss, t.strayed⟩ := by
  refine ⟨⟨?_, h.fresh.strays⟩, ?_, ?_, ?_⟩
  · rw [hstate]
    exact h.fresh.exits
  · rw [hworker]
    exact h.sending
  · rw [hworker]
    exact h.undoing
  · rw [hstate, hworker]
    exact h.init

/-- The connection closes. Kind: L -/
theorem heeded_messageClose {c : WebRTCClient} (h : Heeded t)
    (hheeds : heeds cfg t .messageClose = true) (hworker : c.worker = t.client.worker)
    (hstate : c.clientState = (assigned cfg t.client .messageClose).getD t.client.clientState) :
    Heeded ⟨c, lossAfter cfg t .messageClose, t.strayed⟩ := by
  by_cases hexit : t.client.clientState = .exit
  · -- a close in `CLIENT_EXIT` is ignored
    have hloss : lossAfter cfg t .messageClose = t.loss := by simp [lossAfter, hexit]
    rw [hloss]
    apply heeded_of_same h hworker
    rw [hstate]
    simp [assigned, hexit]
  · have hinit : c.clientState = .init := by
      rw [hstate]
      simp [assigned, hexit]
    have hstage : c.worker.stage = .outside ∨ c.worker.stage = .beginning := by
      rw [hworker]
      simpa [heeds, hexit] using hheeds
    refine ⟨⟨fun _ => by simp [hinit], h.fresh.strays⟩, fun _ => ?_, fun _ => ?_, fun _ => .inl hinit⟩
    · rcases hstage with hstage | hstage
      · simp [hstage]
      · simp [hstage]
    · rcases hstage with hstage | hstage
      · simp [hstage]
      · simp [hstage]

/-- A file is complete. Kind: L -/
theorem heeded_transferComplete {c : WebRTCClient} (h : Heeded t)
    (hheeds : heeds cfg t .transferComplete = true) (hworker : c.worker = t.client.worker)
    (hstate : c.clientState = .run) : Heeded ⟨c, t.loss, t.strayed⟩ := by
  refine ⟨⟨fun _ => by simp [hstate], h.fresh.strays⟩, ?_, ?_, fun hclosed => .inr ?_⟩
  · rw [hworker]
    exact h.sending
  · rw [hworker]
    exact h.undoing
  · rw [hworker]
    have hlost : t.loss = .closed := hclosed
    simp only [heeds] at hheeds
    split at hheeds
    · assumption
    · simp [hlost] at hheeds

/-- **A step of another thread that takes a loss into account.** Kind: P -/
theorem heeded_other (h : Heeded t) (hother : ∀ a, e ≠ .worker a)
    (hheeds : heeds cfg t e = true) (he : step cfg t e = some t') : Heeded t' := by
  have hstop : e ≠ .stop := by
    rintro rfl
    simp [step] at he
  obtain ⟨c, hc, rfl⟩ : ∃ c, t.client.step cfg e = some c ∧
      ⟨c, lossAfter cfg t e, t.strayed⟩ = t' := by
    cases e with
    | worker a => exact absurd rfl (hother a)
    | stop => exact absurd rfl hstop
    | _ => exact Option.map_eq_some_iff.mp he
  have hworker : c.worker = t.client.worker := (step_frame hother hc).1
  have hstate := step_clientState hc
  by_cases hclose : e = .messageClose
  · subst hclose
    exact heeded_messageClose h hheeds hworker hstate
  have hloss : lossAfter cfg t e = t.loss := by
    cases e with
    | worker a => exact absurd rfl (hother a)
    | messageClose => exact absurd rfl hclose
    | _ => rfl
  rw [hloss]
  by_cases htransfer : e = .transferComplete
  · subst htransfer
    exact heeded_transferComplete h hheeds hworker hstate
  obtain ⟨hinit, hexit⟩ := @assigned_of_calm cfg e t.client hother hstop hclose htransfer
  cases hwritten : assigned cfg t.client e with
  | none =>
      rw [hwritten] at hstate
      exact heeded_of_same h hworker hstate
  | some s =>
      -- the state is written, but it was not `CLIENT_INIT` and does not become `CLIENT_EXIT`
      rw [hwritten] at hstate hinit hexit
      refine ⟨⟨fun _ hs => hexit (congrArg some (hstate.symm.trans hs)), h.fresh.strays⟩, ?_, ?_, ?_⟩
      · rw [hworker]
        exact h.sending
      · rw [hworker]
        exact h.undoing
      · intro hclosed
        rw [hworker]
        exact (h.init hclosed).imp_left fun hinit' => absurd hinit' (hinit.resolve_left (by simp))

/-- **A loss leads to a fresh session in every run in which no step goes past it.** Kind: P -/
theorem fresh_of_heeds (cfg : Config) (es : List ClientEvent)
    (hheeds : Runs.Meets (step cfg) (fun t e => heeds cfg t e = true) {} es) :
    Runs.Always (step cfg) Fresh {} es := by
  have hheeded : Runs.Always (step cfg) Heeded {} es := by
    apply Runs.always_of_meets _ _ _ hheeds
    · intro t e t' h hheeds he
      by_cases hworker : ∃ a, e = .worker a
      · obtain ⟨a, rfl⟩ := hworker
        exact heeded_worker h hheeds he
      · exact heeded_other h (fun a ha => hworker ⟨a, ha⟩) hheeds he
    · refine ⟨⟨fun hlost => ?_, rfl⟩, fun hlost => ?_, fun hlost => ?_, fun hlost => ?_⟩
      all_goals simp at hlost
  exact hheeded.imp _ fun t h => h.fresh

/-- The connection is lost while the client waits for work, and comes back. Kind: D -/
def lossAtRest : List ClientEvent :=
  Ledger.session ++ [.messageClose, .callback, .worker {}, .worker {}, .messageOpen, .worker {},
    .worker {},
    .join (.obj [(str "type", .str (str "peer_joined")), (str "room", .str (str "r")),
      (str "peerId", .str (str "a")), (str "peers", .arr [.str (str "a"), .str (str "b")])]),
    .callback, .worker {}, .worker {}]

/-- The client is in a session again. Kind: L -/
theorem fresh_after_lossAtRest :
    ((Runs.run (step Ledger.clientA) {} lossAtRest).any fun t => t.loss = .intact) = true ∧
      Runs.Always (step Ledger.clientA) Fresh {} lossAtRest :=
  ⟨by decide, fresh_of_heeds Ledger.clientA lossAtRest (by decide)⟩

/-- No timer expires. Kind: D -/
def patiently : ClientEvent → Bool
  | .worker a => !a.expired
  | _ => true

/-- A step in which no timer expires. Kind: D -/
def stepQuiet (cfg : Config) (t : Reconnecting) (e : ClientEvent) : Option Reconnecting :=
  if patiently e then step cfg t e else none

/-- The connection is lost, and the last chunk of an incoming file is handled before its channel is
gone; the worker has not noticed the loss. Then a file is queued. Kind: D -/
def transferOverLoss : List ClientEvent :=
  Ledger.session ++ [.messageClose, .transferComplete, .callback,
    .queueFile ⟨str "b", str "r", str "x"⟩, .worker {}, .worker {}, .messageOpen, .worker {},
    .join (.obj [(str "type", .str (str "peer_joined")), (str "room", .str (str "r")),
      (str "peerId", .str (str "a")), (str "peers", .arr [.str (str "a"), .str (str "b")])]),
    .callback] ++ List.replicate 11 (.worker {})

/-- The file is offered without a fresh session. Kind: P -/
theorem offer_without_session : ¬ ∀ cfg es, Runs.Always (stepQuiet cfg) Fresh {} es := by
  intro h
  have hany : ((Runs.run (stepQuiet Ledger.clientA) {} transferOverLoss).any fun t =>
      t.strayed) = true := by decide
  obtain ⟨t, ht, hfresh⟩ := (h Ledger.clientA transferOverLoss).at_end _ hany
  rw [hfresh.strays] at ht
  simp at ht

end Reconnecting

end CloudNode
