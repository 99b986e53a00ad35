import CloudNode.Client.Lifecycle
import CloudNode.Client.Requests

/-!
# Confirmed joins

`JoinRooms` sets `CLIENT_WAITING_FOR_JOIN`, asks for a room and waits for another state; `OnJoin`
makes that `CLIENT_JOINED` when the confirmation comes, but only if it still finds
`CLIENT_WAITING_FOR_JOIN`. `OnIncomingChunk` writes `CLIENT_RUN` whenever a file is complete, and
`CLIENT_RUN` is none of the states that end the wait.

* `proceeds_iff_undisturbed` — a confirmed join is noticed in exactly the runs in which the
  confirmation finds the state of the request, and no file completes between the confirmation and
  the worker's next look.
* `proceeds_of_no_transfer` — so it is in every run in which no file completes during a wait.
-/

namespace CloudNode

/-- `JoinRooms` waits for a confirmation. Kind: D -/
def Pc.awaits : Pc → Bool
  | .awaitJoin _ _ => true
  | _ => false

namespace WebRTCClient

/-- `JoinRooms` waits for a confirmation. Kind: D -/
def awaits (t : WebRTCClient) : Bool := t.worker.awaits

/-- The event is `OnJoin`'s look at the state for a `peer_joined` that names the client and the
room it asked for. Kind: D -/
def confirms (cfg : Config) (t : WebRTCClient) : ClientEvent → Bool
  | .callback =>
    match t.callback with
    | .confirming room peer => room = t.room && peer = cfg.name
    | _ => false
  | _ => false

variable {cfg : Config} {a : Answers} {t t' : WebRTCClient} {e : ClientEvent}

/-- The worker's step ends its wait. Kind: L -/
theorem not_awaits_of_workerStep (hawaits : t.awaits = true) (h : workerStep cfg a t = some t') :
    t'.awaits = false := by
  unfold awaits Pc.awaits at hawaits
  split at hawaits
  · rename_i rest task hworker
    cases workerStep_cases h with
    | joinStopped | joinConfirmed | joinExpired => rfl
    | _ => simp_all
  · simp at hawaits

/-- A wait that goes on was not stepped. Kind: L -/
theorem other_of_awaits (hawaits : t.awaits = true) (hawaits' : t'.awaits = true)
    (h : step cfg t e = some t') : ∀ a, e ≠ .worker a := by
  rintro a rfl
  have hended := not_awaits_of_workerStep hawaits h
  rw [hawaits'] at hended
  simp at hended

/-- The head of `OfferFiles`' loop is no wait. Kind: L -/
theorem awaits_offerNext (batch : Batch) : (offerNext batch).awaits = false :=
  offerNext_elim (motive := fun p => p.awaits = false) rfl (fun _ _ => rfl) batch

/-- With the rooms joined, no join is waited for. Kind: L -/
theorem awaits_afterJoin (task : Task) : (afterJoin cfg task).awaits = false :=
  afterJoin_elim (motive := fun p => p.awaits = false) rfl (fun _ _ => rfl) rfl (fun _ _ => rfl) task

/-- With a channel, no join is waited for. Kind: L -/
theorem awaits_afterChannel (task : Task) : (afterChannel cfg task).awaits = false :=
  afterChannel_elim (motive := fun p => p.awaits = false) rfl (fun _ _ => rfl) (fun _ _ => rfl) task

/-- At the loop's condition no join is waited for. Kind: L -/
theorem awaits_dispatch (t : WebRTCClient) : t.dispatch.awaits = false := by
  unfold dispatch
  split
  all_goals try rfl
  split
  · rfl
  · exact awaits_offerNext _

/-- **A wait for a confirmation begins in `CLIENT_WAITING_FOR_JOIN`.** Kind: P -/
theorem waitingForJoin_of_workerStep (h : workerStep cfg a t = some t')
    (hawaits' : t'.awaits = true) : t'.clientState = .waitingForJoin := by
  cases workerStep_cases h with
  | dispatch => simp [awaits_dispatch] at hawaits'
  | joined locked task => simp [awaits, awaits_afterJoin] at hawaits'
  | join locked room rest task =>
      unfold joinNext at hawaits' ⊢
      repeat' split at hawaits'
      all_goals simp_all [awaits, Pc.awaits]
  | channelFound key task | announced key channel task =>
      simp [awaits, awaits_afterChannel] at hawaits'
  | offerNext batch => simp [awaits, awaits_offerNext] at hawaits'
  | _ =>
      -- no other step leads into `JoinRooms`' wait
      simp only [awaits] at hawaits'
      simp [Pc.awaits] at hawaits'

/-- The other threads do not end the wait. Kind: L -/
theorem awaits_of_other (hother : ∀ a, e ≠ .worker a) (h : step cfg t e = some t') :
    t'.awaits = t.awaits := by
  unfold awaits
  rw [(step_frame hother h).1]

/-- A confirmation is no step of the worker. Kind: L -/
theorem other_of_confirms (h : confirms cfg t e = true) : ∀ a, e ≠ .worker a := by
  rintro a rfl
  simp [confirms] at h

/-- The worker goes on past the room it has waited for, whatever the clock says. Kind: D -/
def Proceeds (cfg : Config) (t : WebRTCClient) : Prop :=
  ∃ rest task, t.worker = .awaitJoin rest task ∧
    ∀ a, workerStep cfg a t = some { t with worker := .joining true rest task }

/-- It does in `CLIENT_JOINED` only. Kind: L -/
theorem proceeds_iff (hawaits : t.awaits = true) :
    Proceeds cfg t ↔ t.clientState = .joined := by
  unfold awaits Pc.awaits at hawaits
  split at hawaits
  · rename_i rest task hworker
    constructor
    · rintro ⟨rest', task', -, hsteps⟩
      have hwaits := hsteps {}
      simp only [workerStep, hworker] at hwaits
      repeat' split at hwaits
      · simp at hwaits
      · assumption
      · simp at hwaits
      · simp at hwaits
    · intro hjoined
      refine ⟨rest, task, hworker, fun a => ?_⟩
      have hstopped : t.stopped = false := by simp [stopped, hjoined]
      simp only [workerStep, hworker, hstopped, Bool.false_eq_true, if_false, hjoined, if_true]
  · simp at hawaits

end WebRTCClient

/-! ## Runs -/

/-- A client, with whether the join that `JoinRooms` waits for has been confirmed. Kind: D -/
structure Joining where
  client : WebRTCClient := {}
  confirmed : Bool := false

namespace Joining

open WebRTCClient

variable (cfg : Config)

/-- A step of the client, noted; a confirmation is one of the current wait. Kind: D -/
def step (t : Joining) (e : ClientEvent) : Option Joining :=
  (t.client.step cfg e).map fun c =>
    ⟨c, t.client.awaits && c.awaits && (t.confirmed || confirms cfg t.client e)⟩

/-- A step while the connection stays open during the waits of `JoinRooms` and nobody stops the
client in one. Kind: D -/
def stepOpen (t : Joining) (e : ClientEvent) : Option Joining :=
  match t.client.awaits, e with
  | true, .messageClose | true, .stop => none
  | _, _ => step cfg t e

/-- A confirmed join lets the worker go on. Kind: D -/
def Noticed (t : Joining) : Prop := t.confirmed = true → Proceeds cfg t.client

/-- A confirmation finds the state of the request, or of an earlier confirmation, and no file
completes between the confirmation and the worker's next look. Kind: D -/
def undisturbed (t : Joining) (e : ClientEvent) : Bool :=
  match e with
  | .transferComplete => !t.confirmed
  | _ => !(t.client.awaits && confirms cfg t.client e) ||
      t.client.clientState = .waitingForJoin || t.client.clientState = .joined

variable {cfg} {t t' : Joining} {e : ClientEvent}

/-- Where `stepOpen` goes, `step` goes. Kind: L -/
theorem step_of_stepOpen (he : stepOpen cfg t e = some t') : step cfg t e = some t' := by
  unfold stepOpen at he
  split at he
  · simp at he
  · simp at he
  · exact he

/-- During a wait there is neither a close nor a stop. Kind: L -/
theorem open_of_stepOpen (hawaits : t.client.awaits = true) (he : stepOpen cfg t e = some t') :
    e ≠ .messageClose ∧ e ≠ .stop := by
  constructor
  all_goals
    rintro rfl
    simp [stepOpen, hawaits] at he

/-- There is no confirmation without a wait. Kind: D -/
def Waited (t : Joining) : Prop := t.confirmed = true → t.client.awaits = true

/-- A confirmation is one of a wait that goes on. Kind: L -/
theorem confirmed_step (he : step cfg t e = some t') (hconfirmed : t'.confirmed = true) :
    t.client.awaits = true ∧ t'.client.awaits = true ∧
      (t.confirmed = true ∨ confirms cfg t.client e = true) := by
  obtain ⟨c, -, rfl⟩ := Option.map_eq_some_iff.mp he
  simpa only [Bool.and_eq_true, Bool.or_eq_true, and_assoc] using hconfirmed

/-- A join has been requested, and perhaps confirmed. Kind: D -/
def Requested (c : WebRTCClient) : Prop :=
  c.clientState = .waitingForJoin ∨ c.clientState = .joined

/-- During a wait, an event other than the end of a file, a close and a stop at most confirms the
request. Kind: L -/
theorem assigned_requested {c : WebRTCClient} (hother : ∀ a, e ≠ .worker a)
    (htransfer : e ≠ .transferComplete) (hclose : e ≠ .messageClose) (hstop : e ≠ .stop)
    (hrequested : Requested c) :
    (assigned cfg c e).getD c.clientState = c.clientState ∨
      (assigned cfg c e).getD c.clientState = .joined := by
  cases e with
  | worker a => exact absurd rfl (hother a)
  | transferComplete => exact absurd rfl htransfer
  | messageClose => exact absurd rfl hclose
  | stop => exact absurd rfl hstop
  | callback =>
      simp only [assigned]
      split
      · split
        · exact .inr rfl
        · exact .inl rfl
      · rw [if_neg (by rcases hrequested with h | h <;> simp [h])]
        exact .inl rfl
      · exact .inl rfl
  | pong =>
      simp only [assigned]
      rw [if_neg (by rcases hrequested with h | h <;> simp [h])]
      exact .inl rfl
  | _ => exact .inl rfl

/-- The confirmation makes the state of the request `CLIENT_JOINED`. Kind: L -/
theorem assigned_of_confirms {c : WebRTCClient} (h : confirms cfg c e = true) :
    (assigned cfg c e).getD c.clientState =
      if c.clientState = .waitingForJoin then .joined else c.clientState := by
  cases e with
  | callback =>
      simp only [confirms] at h
      split at h
      · rename_i room peer hcallback
        rw [Bool.and_eq_true, decide_eq_true_eq, decide_eq_true_eq] at h
        simp only [assigned, hcallback, h.1, h.2, and_true]
        split
        · rfl
        · rfl
      · simp at h
  | _ => simp [confirms] at h

/-- An undisturbed step lets a confirmed join be noticed. Kind: L -/
theorem noticed_step (hnoticed : Noticed cfg t) (hundisturbed : undisturbed cfg t e = true)
    (he : stepOpen cfg t e = some t') : Noticed cfg t' := by
  intro hconfirmed
  obtain ⟨hawaits, hawaits', hbefore⟩ := confirmed_step (step_of_stepOpen he) hconfirmed
  apply (proceeds_iff hawaits').mpr
  have hopen := open_of_stepOpen hawaits he
  obtain ⟨c, hc, rfl⟩ := Option.map_eq_some_iff.mp (step_of_stepOpen he)
  have hother := other_of_awaits hawaits hawaits' hc
  show c.clientState = .joined
  rw [step_clientState hc]
  by_cases hconfirms : confirms cfg t.client e = true
  · rw [assigned_of_confirms hconfirms]
    have hstate : t.client.clientState = .waitingForJoin ∨ t.client.clientState = .joined := by
      unfold undisturbed at hundisturbed
      split at hundisturbed
      · simp [confirms] at hconfirms
      · simpa [hawaits, hconfirms] using hundisturbed
    rcases hstate with hstate | hstate
    · rw [if_pos hstate]
    · rw [hstate, if_neg (by simp)]
  · have hearlier : t.confirmed = true := hbefore.resolve_right hconfirms
    have hjoined := (proceeds_iff hawaits).mp (hnoticed hearlier)
    have htransfer : e ≠ .transferComplete := by
      rintro rfl
      simp [undisturbed, hearlier] at hundisturbed
    rcases assigned_requested hother htransfer hopen.1 hopen.2 (.inr hjoined) with hsame | hnow
    · rw [hsame, hjoined]
    · exact hnow

/-- A step that is not undisturbed lets it be missed. Kind: L -/
theorem not_noticed_step (hwaited : Waited t)
    (hundisturbed : ¬ undisturbed cfg t e = true) (he : stepOpen cfg t e = some t') :
    ¬ Noticed cfg t' := by
  obtain ⟨c, hc, rfl⟩ := Option.map_eq_some_iff.mp (step_of_stepOpen he)
  unfold undisturbed at hundisturbed
  split at hundisturbed
  · have hconfirmed : t.confirmed = true := by simpa using hundisturbed
    have hawaits := hwaited hconfirmed
    have hawaits' : c.awaits = true := by rw [awaits_of_other (by simp) hc, hawaits]
    intro hmissed
    have hjoined := (proceeds_iff hawaits').mp (hmissed (by simp [hawaits, hawaits', hconfirmed]))
    rw [step_clientState hc] at hjoined
    simp [assigned] at hjoined
  · obtain ⟨⟨⟨hawaits, hconfirms⟩, hrequest⟩, hjoined⟩ :
        ((t.client.awaits = true ∧ confirms cfg t.client e = true) ∧
          t.client.clientState ≠ .waitingForJoin) ∧ t.client.clientState ≠ .joined := by
      simpa [not_or] using hundisturbed
    have hawaits' : c.awaits = true := by
      rw [awaits_of_other (other_of_confirms hconfirms) hc, hawaits]
    intro hmissed
    have hjoined' := (proceeds_iff hawaits').mp (hmissed (by simp [hawaits, hawaits', hconfirms]))
    rw [step_clientState hc, assigned_of_confirms hconfirms, if_neg hrequest] at hjoined'
    exact hjoined hjoined'

/-- **A confirmed join is noticed in exactly the runs in which the confirmation finds the state of
the request and no file completes between it and the worker's next look.** Kind: P -/
theorem proceeds_iff_undisturbed (cfg : Config) (es : List ClientEvent) :
    Runs.Always (stepOpen cfg) (Noticed cfg) {} es ↔
      Runs.Meets (stepOpen cfg) (fun t e => undisturbed cfg t e = true) {} es := by
  apply Runs.always_iff_meets (I := Waited)
  · exact fun t e t' _ he hconfirmed => (confirmed_step (step_of_stepOpen he) hconfirmed).2.1
  · exact fun t e t' _ hnoticed hgood he => noticed_step hnoticed hgood he
  · exact fun t e t' hwaited _ hbad he => not_noticed_step hwaited hbad he
  · intro hconfirmed
    simp at hconfirmed
  · intro hconfirmed
    simp at hconfirmed

/-- No file completes while `JoinRooms` waits. Kind: D -/
def calm (t : Joining) : ClientEvent → Bool
  | .transferComplete => !t.client.awaits
  | _ => true

/-- A calm step keeps the request. Kind: L -/
theorem requested_step (hrequested : t.client.awaits = true → Requested t.client)
    (hcalm : calm t e = true) (he : stepOpen cfg t e = some t')
    (hawaits' : t'.client.awaits = true) : Requested t'.client := by
  obtain ⟨c, hc, rfl⟩ := Option.map_eq_some_iff.mp (step_of_stepOpen he)
  by_cases hworker : ∃ a, e = .worker a
  · obtain ⟨a, rfl⟩ := hworker
    exact .inl (waitingForJoin_of_workerStep hc hawaits')
  · have hother : ∀ a, e ≠ .worker a := fun a ha => hworker ⟨a, ha⟩
    have hawaits : t.client.awaits = true := by rw [← awaits_of_other hother hc, hawaits']
    have hopen := open_of_stepOpen hawaits he
    have htransfer : e ≠ .transferComplete := by
      rintro rfl
      simp [calm, hawaits] at hcalm
    have hbefore := hrequested hawaits
    have hstate := step_clientState hc
    have hassigned : (assigned cfg t.client e).getD t.client.clientState = t.client.clientState ∨
        (assigned cfg t.client e).getD t.client.clientState = .joined :=
      assigned_requested hother htransfer hopen.1 hopen.2 hbefore
    rcases hassigned with hsame | hnow
    · rw [hsame] at hstate
      unfold Requested
      rw [hstate]
      exact hbefore
    · exact .inr (hstate.trans hnow)

/-- **A confirmed join is noticed in every run in which no file completes during a wait.**
Kind: P -/
theorem proceeds_of_no_transfer (cfg : Config) (es : List ClientEvent)
    (hcalm : Runs.Meets (stepOpen cfg) (fun t e => calm t e = true) {} es) :
    Runs.Always (stepOpen cfg) (Noticed cfg) {} es := by
  have hkept : Runs.Always (stepOpen cfg) (fun t => Waited t ∧
      (t.client.awaits = true → Requested t.client) ∧ Noticed cfg t) {} es := by
    apply Runs.always_of_meets _ _ _ hcalm
    · rintro t e t' ⟨hwaited, hrequested, hnoticed⟩ hcalm he
      refine ⟨fun h => (confirmed_step (step_of_stepOpen he) h).2.1,
        fun h => requested_step hrequested hcalm he h, ?_⟩
      apply noticed_step hnoticed _ he
      unfold undisturbed
      split
      · by_cases hconfirmed : t.confirmed = true
        · have hawaits := hwaited hconfirmed
          simp [calm, hawaits] at hcalm
        · simpa using hconfirmed
      · by_cases hawaits : t.client.awaits = true
        · simpa [hawaits, or_assoc] using .inr (hrequested hawaits)
        · simp [hawaits]
    · refine ⟨?_, ?_, ?_⟩
      all_goals
        intro h
        simp [awaits, Pc.awaits] at h
  exact hkept.imp _ fun t h => h.2.2

/-- The client has joined its room and is sent a file; a request takes it into the room `s`, and
while it waits for the confirmation, the file is complete. Kind: D -/
def transferDuringJoin : List ClientEvent :=
  Ledger.session ++ [.queueFile ⟨str "b", str "s", str "x"⟩, .worker {}, .worker {}, .worker {},
    .transferComplete,
    .join (.obj [(str "type", .str (str "peer_joined")), (str "room", .str (str "s")),
      (str "peerId", .str (str "a")), (str "peers", .arr [.str (str "a"), .str (str "b")])]),
    .callback]

/-- The confirmation of the room is missed. Kind: P -/
theorem confirmation_missed : ¬ ∀ cfg es, Runs.Always (stepOpen cfg) (Noticed cfg) {} es := by
  intro h
  have hany : ((Runs.run (stepOpen Ledger.clientA) {} transferDuringJoin).any fun t =>
      t.confirmed && t.client.awaits && decide (t.client.clientState = .run)) = true := by decide
  obtain ⟨t, ht, hnoticed⟩ := (h Ledger.clientA transferDuringJoin).at_end _ hany
  rw [Bool.and_eq_true, Bool.and_eq_true, decide_eq_true_eq] at ht
  obtain ⟨⟨hconfirmed, hawaits⟩, hrun⟩ := ht
  have hjoined := (proceeds_iff hawaits).mp (hnoticed hconfirmed)
  rw [hrun] at hjoined
  simp at hjoined

end Joining

end CloudNode
