import CloudNode.Client.Lifecycle
import CloudNode.Client.Requests

/-!
# After `CLIENT_EXIT`

`CLIENT_EXIT` is where `Stop`, a timeout and a failure lead, and nothing but `Start` is meant to
lead out of it. Most of the assignments to the state look at its value first. Three do not:
`OnIncomingChunk` when a file is complete, and `SendFileOffer` before it sends and after it could
not send.

* `assigned_of_guarded` — the other assignments keep `CLIENT_EXIT`.
* `ended_iff_guarded` — `CLIENT_EXIT` is final in exactly the runs in which none of the three is
  executed in it.
-/

namespace CloudNode

namespace WebRTCClient

/-- Source: `WebRTCClient.cpp`, `IsRunning`. Kind: D -/
def isRunning (t : WebRTCClient) : Bool := t.clientState ≠ .exit

/-- The client is at its end: it is in `CLIENT_EXIT`, does not run, takes no request, and leaves
its loop at the condition. Kind: D -/
structure Ended (t : WebRTCClient) : Prop where
  exited : t.clientState = .exit
  stands : t.isRunning = false
  refuses : ∀ spec, (t.queueFile spec).1 = false
  leaves : t.worker = .top → t.dispatch.worker = .finished

/-- The client is at its end as soon as its state is `CLIENT_EXIT`. Kind: L -/
theorem ended_iff {t : WebRTCClient} : Ended t ↔ t.clientState = .exit := by
  constructor
  · exact Ended.exited
  · intro hexit
    refine ⟨hexit, ?_, fun spec => ?_, fun _ => ?_⟩
    · simp only [isRunning, hexit, ne_eq, not_true_eq_false, decide_false]
    · simp only [queueFile, hexit, if_true, ite_self]
    · simp only [dispatch, hexit]

/-- The events that assign the state without a look at it.
Source: `WebRTCClient.cpp`, `OnIncomingChunk` and `SendFileOffer`
Kind: D -/
def unguarded (t : WebRTCClient) : ClientEvent → Bool
  | .transferComplete => true
  | .worker _ =>
    match t.worker with
    | .expect _ _ | .resume _ => true
    | _ => false
  | _ => false

variable {cfg : Config} {t t' : WebRTCClient} {e : ClientEvent}

/-- **The guarded assignments keep `CLIENT_EXIT`.** Kind: P -/
theorem assigned_of_guarded (hexit : t.clientState = .exit) (hguarded : unguarded t e = false) :
    (assigned cfg t e).getD .exit = .exit := by
  cases e with
  | worker a =>
      simp only [unguarded] at hguarded
      simp only [assigned, workerAssigned]
      cases hworker : t.worker with
      | joining locked rooms task =>
          cases rooms with
          | nil => rfl
          | cons room rest => simp [hexit]
      | expect spec batch => simp [hworker] at hguarded
      | resume batch => simp [hworker] at hguarded
      | _ => simp [hexit, stopped]
  | callback =>
      simp only [assigned, hexit]
      cases t.callback with
      | _ => simp
  | transferComplete => simp [unguarded] at hguarded
  | _ => simp [assigned, hexit]

/-- The others do not. Kind: L -/
theorem assigned_of_unguarded (h : unguarded t e = true) (s : ClientState) :
    (assigned cfg t e).getD s ≠ .exit := by
  cases e with
  | transferComplete => simp [assigned]
  | worker a =>
      simp only [unguarded] at h
      simp only [assigned, workerAssigned]
      split at h
      · simp_all
      · simp_all
      · simp at h
  | _ => simp [unguarded] at h

end WebRTCClient

/-! ## Runs -/

/-- A client, with whether it has been in `CLIENT_EXIT`. Kind: D -/
structure Stopping where
  client : WebRTCClient := {}
  exited : Bool := false

namespace Stopping

open WebRTCClient

variable (cfg : Config)

/-- A step of the client, noted. No event is a call of `Start`. Kind: D -/
def step (t : Stopping) (e : ClientEvent) : Option Stopping :=
  (t.client.step cfg e).map fun c => ⟨c, t.exited || decide (c.clientState = .exit)⟩

/-- Once the client has been in `CLIENT_EXIT`, it is at its end. Kind: D -/
def Final (t : Stopping) : Prop := t.exited = true → Ended t.client

/-- No assignment without a look at the state is executed in `CLIENT_EXIT`. Kind: D -/
def guarded (t : Stopping) (e : ClientEvent) : Bool :=
  !(t.client.clientState = .exit && unguarded t.client e)

variable {cfg} {t t' : Stopping} {e : ClientEvent}

/-- A client in `CLIENT_EXIT` is noted. Kind: D -/
def Noted (t : Stopping) : Prop := t.client.clientState = .exit → t.exited = true

/-- What is noted stays noted. Kind: L -/
theorem noted_step (he : step cfg t e = some t') : Noted t' := by
  obtain ⟨c, -, rfl⟩ := Option.map_eq_some_iff.mp he
  intro hexit
  exact Bool.or_eq_true_iff.mpr (.inr (decide_eq_true hexit))

/-- A guarded step keeps the end. Kind: L -/
theorem final_step (hfinal : Final t) (hguarded : guarded t e = true)
    (he : step cfg t e = some t') : Final t' := by
  obtain ⟨c, hc, rfl⟩ := Option.map_eq_some_iff.mp he
  intro hexited
  apply ended_iff.mpr
  rcases Bool.or_eq_true_iff.mp hexited with hbefore | hnow
  · have hexit := (hfinal hbefore).exited
    have hlooks : unguarded t.client e = false := by
      simpa only [guarded, hexit, decide_true, Bool.true_and, Bool.not_eq_true'] using hguarded
    have hstate := step_clientState hc
    rw [hexit] at hstate
    rw [hstate]
    exact assigned_of_guarded hexit hlooks
  · exact of_decide_eq_true hnow

/-- A step that is not guarded leads out of it. Kind: L -/
theorem not_final_step (hnoted : Noted t) (hguarded : ¬ guarded t e = true)
    (he : step cfg t e = some t') : ¬ Final t' := by
  obtain ⟨c, hc, rfl⟩ := Option.map_eq_some_iff.mp he
  simp only [guarded, Bool.not_eq_true', Bool.not_eq_false, Bool.and_eq_true,
    decide_eq_true_eq] at hguarded
  obtain ⟨hexit, hunguarded⟩ := hguarded
  intro hfinal
  have hended := hfinal (Bool.or_eq_true_iff.mpr (.inl (hnoted hexit)))
  have hstate := step_clientState hc
  rw [hended.exited] at hstate
  exact assigned_of_unguarded hunguarded _ hstate.symm

/-- **`CLIENT_EXIT` is final in exactly the runs in which none of the assignments that do not look
at the state is executed in it.** Kind: P -/
theorem ended_iff_guarded (cfg : Config) (es : List ClientEvent) :
    Runs.Always (step cfg) Final {} es ↔
      Runs.Meets (step cfg) (fun t e => guarded t e = true) {} es := by
  apply Runs.always_iff_meets (I := Noted)
  · exact fun t e t' _ he => noted_step he
  · exact fun t e t' _ hfinal hguarded he => final_step hfinal hguarded he
  · exact fun t e t' hnoted _ hguarded he => not_final_step hnoted hguarded he
  · intro hexit
    simp at hexit
  · intro hexited
    simp at hexited

/-- The client joins its room, with `b` in it, and waits for work; it is stopped, and the last chunk
of an incoming file is handled. Kind: D -/
def stoppedTransfer : List ClientEvent := Ledger.session ++ [.stop, .transferComplete]

/-- A file that completes after `Stop` makes the client run again. Kind: P -/
theorem transfer_leaves_exit : ¬ ∀ cfg es, Runs.Always (step cfg) Final {} es := by
  intro h
  have hany : ((Runs.run (step Ledger.clientA) {} stoppedTransfer).any fun t =>
      t.exited && decide (t.client.clientState = .run)) = true := by decide
  obtain ⟨t, ht, hfinal⟩ := (h Ledger.clientA stoppedTransfer).at_end _ hany
  rw [Bool.and_eq_true, decide_eq_true_eq] at ht
  have hexit := (hfinal ht.1).exited
  rw [ht.2] at hexit
  simp at hexit

end Stopping

end CloudNode
