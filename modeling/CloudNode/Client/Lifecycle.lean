import CloudNode.Client.Worker

/-!
# The assignments to the lifecycle state

About twenty places of the source assign `m_clientState`, some after a look at its value, some
without. `assigned` is the table of them: what an event that happens in a state writes, if it
writes.

* `step_clientState` — the table is complete: a step leaves the state as it was, or as the table
  says.
-/

namespace CloudNode

namespace WebRTCClient

variable (cfg : Config)

/-- What the worker's next step writes to the state. Where a wait can end in more than one way,
the way that writes is the timeout.
Source: `WebRTCClient.cpp`, `StartClient`, `JoinRooms`, `ConnectPeer`, `OfferFiles` and
`SendFileOffer`
Kind: D -/
def workerAssigned (a : Answers) (t : WebRTCClient) : Option ClientState :=
  match t.worker with
  | .top => if t.clientState = .ping then some .waitForPong else none
  | .awaitTransport =>
    if t.clientState ≠ .exit ∧ cfg.specs = none then some .exit else none
  | .joining _ (room :: _) _ =>
    if t.clientState = .exit ∨ (room = [] || t.inRoom cfg room) = true then none
    else some (if a.sent then .waitingForJoin else .exit)
  | .awaitJoin _ _ => if t.stopped ∨ t.clientState = .joined then none else some .exit
  | .channelFailed _ => if t.stopped then none else some .exit
  | .awaitPeer spec _ =>
    if t.stopped ∨ present t.rooms (spec.peer, spec.room) then none else some .exit
  | .expect _ _ => some .waitForFileAccept
  | .resume _ => some .run
  | .returned ok =>
    if !ok || t.stopped || t.clientState = .waitForFileAccept then none else some .run
  | .pinged sent => if !sent && t.clientState = .waitForPong then some .exit else none
  | .awaitWork => if t.clientState = .run ∧ t.queuedFiles = [] then some .ping else none
  | .awaitPong => if t.clientState = .waitForPong then some .exit else none
  | _ => none

/-- What an event writes to the state.
Source: `WebRTCClient.cpp`, the assignments to `m_clientState`
Kind: D -/
def assigned (t : WebRTCClient) : ClientEvent → Option ClientState
  | .worker a => workerAssigned cfg a t
  | .messageClose => if t.clientState = .exit then none else some .init
  | .transferComplete => some .run
  | .stop => some .exit
  | .pong => if t.clientState = .waitForPong then some .run else none
  | .callback =>
    match t.callback with
    | .confirming room peer =>
      if t.clientState = .waitingForJoin ∧ room = t.room ∧ peer = cfg.name then some .joined
      else none
    | .responding => if t.clientState = .waitForFileAccept then some .run else none
    | _ => none
  | _ => none

variable {cfg} {a : Answers} {t t' : WebRTCClient} {e : ClientEvent}

/-- The loop's condition writes the state for a ping only. Kind: L -/
theorem dispatch_clientState (t : WebRTCClient) : t.dispatch.clientState =
    (if t.clientState = .ping then some ClientState.waitForPong else none).getD t.clientState := by
  unfold dispatch
  cases hstate : t.clientState with
  | run =>
      by_cases hqueued : t.queuedFiles = []
      · simp [hqueued]
      · simp [hqueued]
  | _ => simp

/-- What `JoinRooms` writes at a room. Kind: L -/
theorem joinNext_clientState (room : Str) (rest : List Str) (task : Task) (t : WebRTCClient) :
    (joinNext cfg a room rest task t).clientState =
      (if t.clientState = .exit ∨ (room = [] || t.inRoom cfg room) = true then none
        else some (if a.sent then ClientState.waitingForJoin else .exit)).getD t.clientState := by
  unfold joinNext
  by_cases hexit : t.clientState = .exit
  · simp [hexit]
  · by_cases hin : (room = [] || t.inRoom cfg room) = true
    · rw [if_neg hexit, if_pos hin, if_pos (.inr hin)]
      rfl
    · rw [if_neg hexit, if_neg hin, if_neg (not_or.mpr ⟨hexit, hin⟩)]
      cases a.sent with
      | true => rfl
      | false => rfl

/-- A step of the worker writes what the table says. Kind: L -/
theorem workerStep_clientState (h : workerStep cfg a t = some t') :
    t'.clientState = (workerAssigned cfg a t).getD t.clientState := by
  cases workerStep_cases h with
  | dispatch hworker =>
      simp only [workerAssigned, hworker]
      exact dispatch_clientState t
  | join locked room rest task hworker =>
      simp only [workerAssigned, hworker]
      exact joinNext_clientState room rest task t
  | channelFailed _ hworker | returned _ hworker | pinged _ hworker =>
      simp only [workerAssigned, hworker]
      split
      · rfl
      · rfl
  | interrupted hinterrupted hworker =>
      have hrun : ¬ (t.clientState = .run ∧ t.queuedFiles = []) := by tauto
      simp only [workerAssigned, hworker, if_neg hrun, Option.getD_none]
  | _ =>
      -- at the other places the table repeats the conditions of the step
      simp_all [workerAssigned]

/-- What the other threads write. Kind: L -/
theorem otherStep_clientState (hother : ∀ a, e ≠ .worker a) (h : step cfg t e = some t') :
    t'.clientState = (assigned cfg t e).getD t.clientState := by
  cases step_cases h with
  | worker a => exact absurd rfl (hother a)
  | confirmed _ _ _ hcallback | responded _ hcallback =>
      simp only [assigned, hcallback]
      split
      · rfl
      · rfl
  | pong =>
      simp only [assigned]
      split
      · rfl
      · rfl
  | _ => simp_all [assigned]

/-- **The table of assignments is complete**: a step leaves the state as it was, or writes what the
table says. Kind: P -/
theorem step_clientState (h : step cfg t e = some t') :
    t'.clientState = (assigned cfg t e).getD t.clientState := by
  by_cases hworker : ∃ a, e = .worker a
  · obtain ⟨a, rfl⟩ := hworker
    exact workerStep_clientState h
  · exact otherStep_clientState (fun a ha => hworker ⟨a, ha⟩) h

end WebRTCClient

end CloudNode
