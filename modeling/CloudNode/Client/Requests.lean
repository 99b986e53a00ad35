import CloudNode.Client.Worker
import CloudNode.Lib.Runs

/-!
# From `QueueFile` to the offer

`StartClient` moves all queued requests into a batch and `OfferFiles` goes through it. A request is
held while it is in the queue or in the batch, and done with once `SendFileOffer` is called for it.

* `workerStep_held` — a step of the worker moves requests along, or it gives up the batch.
* `kept_iff_patient` — no request is lost, offered out of order or offered twice, in exactly the
  runs in which the worker never gives up a batch with requests left in it. `OfferFiles` does so
  when it finds the connection lost, or cannot send a join or make a channel.
-/

namespace CloudNode

/-! ## What the worker holds -/

/-- The queued requests of a batch. Kind: D -/
def Batch.held (batch : Batch) : List FileSpec := if batch.queued then batch.left else []

/-- The queued requests of a batch with the file it is at. Kind: D -/
def Batch.heldWith (batch : Batch) (spec : FileSpec) : List FileSpec :=
  if batch.queued then spec :: batch.left else []

/-- The queued requests of a task. Kind: D -/
def Task.held : Task → List FileSpec
  | .session => []
  | .offers spec batch => batch.heldWith spec

/-- The queued requests in the batch that the worker is offering, those offered left out.
Kind: D -/
def Pc.held : Pc → List FileSpec
  | .joining _ _ task | .awaitJoin _ task | .findChannel _ task | .makeChannel _ task
  | .announceChannel _ _ task | .channelFailed task => task.held
  | .awaitPeer spec batch => batch.heldWith spec
  | .inspect _ batch | .lookUp _ batch | .expect _ batch | .register _ batch | .sendOffer _ batch
  | .withdraw _ batch | .resume batch | .offered batch => batch.held
  | _ => []

/-- The queued request for which `SendFileOffer` was just called. Kind: D -/
def Pc.invoked : Pc → List FileSpec
  | .inspect spec batch => if batch.queued then [spec] else []
  | _ => []

namespace WebRTCClient

variable (cfg : Config)

/-- The worker's next step takes it out of `OfferFiles` (or `JoinRooms`) before the end: the
client is stopped or its connection is lost, a join cannot be sent, a wait is over, or there is no
channel. Kind: D -/
def givesUp (a : Answers) (t : WebRTCClient) : Bool :=
  match t.worker with
  | .joining _ (room :: _) _ =>
    t.clientState = .exit || !(room = [] || t.inRoom cfg room) && !a.sent
  | .awaitJoin _ _ => t.stopped || t.clientState ≠ .joined && a.expired
  | .awaitPeer spec _ => t.stopped || !present t.rooms (spec.peer, spec.room) && a.expired
  | .channelFailed _ => true
  | .offered _ => t.stopped
  | _ => false

variable {cfg} {a : Answers} {t t' : WebRTCClient}

/-- The head of the loop keeps the batch. Kind: L -/
@[simp] theorem held_offerNext (batch : Batch) : (offerNext batch).held = batch.held := by
  unfold offerNext Batch.held
  cases hleft : batch.left with
  | nil => simp [Pc.held]
  | cons spec rest => rfl

/-- The head of the loop offers nothing. Kind: L -/
@[simp] theorem invoked_offerNext (batch : Batch) : (offerNext batch).invoked = [] :=
  offerNext_elim (motive := fun p => p.invoked = []) rfl (fun _ _ => rfl) batch

/-- The session's files are no requests. Kind: L -/
@[simp] theorem held_offerSession : (offerSession cfg).held = [] := by
  unfold offerSession
  rw [held_offerNext]
  rfl

/-- The session's files are no requests. Kind: L -/
@[simp] theorem invoked_offerSession : (offerSession cfg).invoked = [] := invoked_offerNext _

/-- Joined rooms leave the task as it is. Kind: L -/
theorem held_afterJoin (task : Task) : (afterJoin cfg task).held = task.held := by
  cases task with
  | session =>
      by_cases hpeer : cfg.peer = []
      · simp only [afterJoin, if_pos hpeer, held_offerSession]
        rfl
      · simp only [afterJoin, if_neg hpeer]
        rfl
  | offers spec batch => rfl

/-- Joined rooms are no offer. Kind: L -/
theorem invoked_afterJoin (task : Task) : (afterJoin cfg task).invoked = [] :=
  afterJoin_elim (motive := fun p => p.invoked = []) rfl (fun _ _ => rfl) rfl (fun _ _ => rfl) task

/-- With a channel, the file that `OfferFiles` is at is offered. Kind: L -/
theorem held_afterChannel (task : Task) :
    (afterChannel cfg task).invoked ++ (afterChannel cfg task).held = task.held := by
  cases task with
  | session =>
      unfold afterChannel
      rw [invoked_offerSession, held_offerSession]
      rfl
  | offers spec batch =>
      unfold afterChannel Task.held Batch.heldWith
      cases hqueued : batch.queued with
      | false => simp [Pc.invoked, Pc.held, Batch.held, hqueued]
      | true => simp [Pc.invoked, Pc.held, Batch.held, hqueued]

/-- What a step of the worker that moves the requests along does. Kind: D -/
def Moves (t t' : WebRTCClient) : Prop :=
  t'.worker.invoked ++ t'.worker.held ++ t'.queuedFiles = t.worker.held ++ t.queuedFiles

/-- What a step of the worker that gives up its batch does. Kind: D -/
def Drops (t t' : WebRTCClient) : Prop :=
  t'.worker.invoked = [] ∧ t'.worker.held = [] ∧ t'.queuedFiles = t.queuedFiles

/-- A step that holds on to what it holds. Kind: L -/
theorem moves_of_held (hinvoked : t'.worker.invoked = []) (hheld : t'.worker.held = t.worker.held)
    (hqueued : t'.queuedFiles = t.queuedFiles) : Moves t t' := by
  unfold Moves
  rw [hinvoked, hheld, hqueued, List.nil_append]

/-- At the loop's condition the queue becomes the batch, or nothing happens to it. Kind: L -/
theorem moves_dispatch (hworker : t.worker = .top) : Moves t t.dispatch := by
  have hheld : t.worker.held = [] := by
    rw [hworker]
    rfl
  unfold dispatch
  cases t.clientState with
  | run =>
      by_cases hqueued : t.queuedFiles = []
      · simp only [if_pos hqueued]
        exact moves_of_held rfl hheld.symm rfl
      · simp only [if_neg hqueued, Moves, invoked_offerNext, held_offerNext, hheld, List.nil_append,
          List.append_nil]
        rfl
  | _ => exact moves_of_held rfl hheld.symm rfl

/-- The next room of `JoinRooms`. Kind: L -/
theorem moves_joinNext {held : Bool} {room : Str} {rest : List Str} {task : Task}
    (hworker : t.worker = .joining held (room :: rest) task) :
    (givesUp cfg a t = false ∧ Moves t (joinNext cfg a room rest task t)) ∨
      (givesUp cfg a t = true ∧ Drops t (joinNext cfg a room rest task t)) := by
  have hheld : t.worker.held = task.held := by
    rw [hworker]
    rfl
  unfold givesUp joinNext
  simp only [hworker]
  by_cases hexit : t.clientState = .exit
  · simp only [if_pos hexit]
    exact .inr ⟨by simp [hexit], rfl, rfl, rfl⟩
  · simp only [if_neg hexit]
    by_cases hin : (room = [] || t.inRoom cfg room) = true
    · rw [if_pos hin]
      exact .inl ⟨by simp [hexit, hin], moves_of_held rfl hheld.symm rfl⟩
    · rw [if_neg hin]
      cases hsent : a.sent with
      | true => exact .inl ⟨by simp [hexit], moves_of_held rfl hheld.symm rfl⟩
      | false => exact .inr ⟨by simpa [hexit] using hin, rfl, rfl, rfl⟩

/-- With a channel the file that `OfferFiles` is at is offered, without one it is held. Kind: L -/
theorem moves_afterChannel {task : Task} (hworker : t.worker.held = task.held)
    (h : t'.worker = afterChannel cfg task) (hqueued : t'.queuedFiles = t.queuedFiles) :
    Moves t t' := by
  unfold Moves
  rw [h, held_afterChannel, hworker, hqueued]

/-- **What a step of the worker does to the requests**: it moves them along, or it gives up those
of its batch. Kind: P -/
theorem workerStep_held (h : workerStep cfg a t = some t') :
    (givesUp cfg a t = false ∧ Moves t t') ∨ (givesUp cfg a t = true ∧ Drops t t') := by
  cases workerStep_cases h with
  | dispatch hworker => exact .inl ⟨by simp only [givesUp, hworker], moves_dispatch hworker⟩
  | joined held task hworker =>
      refine .inl ⟨by simp only [givesUp, hworker], moves_of_held (invoked_afterJoin task) ?_ rfl⟩
      rw [hworker]
      exact held_afterJoin task
  | join held room rest task hworker => exact moves_joinNext hworker
  | joinStopped rest task hstopped hworker =>
      exact .inr ⟨by simp [givesUp, hworker, hstopped], rfl, rfl, rfl⟩
  | joinExpired rest task hstopped hstate hexpired hworker =>
      exact .inr ⟨by simp [givesUp, hworker, hstate, hexpired], rfl, rfl, rfl⟩
  | peerStopped spec batch hstopped hworker =>
      exact .inr ⟨by simp [givesUp, hworker, hstopped], rfl, rfl, rfl⟩
  | peerExpired spec batch hstopped habsent hexpired hworker =>
      exact .inr ⟨by simp [givesUp, hworker, habsent, hexpired], rfl, rfl, rfl⟩
  | channelFailed task hworker => exact .inr ⟨by simp only [givesUp, hworker], rfl, rfl, rfl⟩
  | offeredStopped batch hstopped hworker =>
      exact .inr ⟨by simp only [givesUp, hworker, hstopped], rfl, rfl, rfl⟩
  | joinConfirmed rest task hstopped hstate hworker =>
      refine .inl ⟨by simp [givesUp, hworker, hstopped, hstate], moves_of_held rfl ?_ rfl⟩
      rw [hworker]
      rfl
  | peerPresent spec batch hstopped hpresent hworker =>
      refine .inl ⟨by simp [givesUp, hworker, hstopped, hpresent], moves_of_held rfl ?_ rfl⟩
      rw [hworker]
      rfl
  | channelFound key task hfound hworker =>
      exact .inl ⟨by simp only [givesUp, hworker], moves_afterChannel (by rw [hworker]; rfl) rfl rfl⟩
  | announced key channel task hsent hworker =>
      exact .inl ⟨by simp only [givesUp, hworker], moves_afterChannel (by rw [hworker]; rfl) rfl rfl⟩
  | offerNext batch hstopped hworker =>
      refine .inl ⟨by simp only [givesUp, hworker, hstopped],
        moves_of_held (invoked_offerNext batch) ?_ rfl⟩
      rw [hworker]
      exact held_offerNext batch
  | _ =>
      -- the other places hold on to the batch, or are outside of `OfferFiles` and have none
      rename_i hworker
      exact .inl ⟨by simp only [givesUp, hworker], moves_of_held rfl (by rw [hworker]; rfl) rfl⟩

/-! ## The other threads -/

/-- The request that an event adds to the queue. Kind: D -/
def queues (t : WebRTCClient) : ClientEvent → List FileSpec
  | .queueFile spec => if (t.queueFile spec).1 then [spec] else []
  | .queueNext i =>
    match t.calls[i]? with
    | none => []
    | some spec => if (t.queueFile spec).1 then [spec] else []
  | _ => []

/-- **The other threads leave the worker alone and only append to the queue.** Kind: P -/
theorem step_frame {e : ClientEvent} (hother : ∀ a, e ≠ .worker a) (h : step cfg t e = some t') :
    t'.worker = t.worker ∧ t'.queuedFiles = t.queuedFiles ++ t.queues e := by
  cases step_cases h with
  | worker a => exact (hother a rfl).elim
  | queueRefused spec _ hqueue | queued spec _ hqueue => exact ⟨rfl, by simp [queues, hqueue]⟩
  | nextRefused i spec hspec _ hqueue | nextQueued i spec hspec _ hqueue =>
      exact ⟨rfl, by simp [queues, hspec, hqueue]⟩
  | _ => exact ⟨rfl, (List.append_nil _).symm⟩

end WebRTCClient

/-! ## Runs -/

/-- A client with the requests for which `QueueFile` returned `true`, and those of them for which
`SendFileOffer` was called. Kind: D -/
structure Ledger where
  client : WebRTCClient := {}
  requested : List FileSpec := []
  offered : List FileSpec := []

namespace Ledger

open WebRTCClient

variable (cfg : Config)

/-- The requests that an event and where it leads to offer. Kind: D -/
def offers (c : WebRTCClient) : ClientEvent → List FileSpec
  | .worker _ => c.worker.invoked
  | _ => []

/-- A step of the client, noted. Kind: D -/
def step (t : Ledger) (e : ClientEvent) : Option Ledger :=
  (t.client.step cfg e).map fun c =>
    { client := c
      requested := t.requested ++ t.client.queues e
      offered := t.offered ++ offers c e }

/-- The requests are those offered, then those in the batch, then those in the queue, each once
and in order. Kind: D -/
def Kept (t : Ledger) : Prop :=
  t.requested = t.offered ++ t.client.worker.held ++ t.client.queuedFiles

/-- The worker does not give up a batch that holds requests. Kind: D -/
def patient (t : Ledger) : ClientEvent → Bool
  | .worker a => !givesUp cfg a t.client || t.client.worker.held.isEmpty
  | _ => true

variable {cfg} {t t' : Ledger} {e : ClientEvent}

/-- A step that is patient loses no request. Kind: L -/
theorem kept_step (hkept : Kept t) (hpatient : patient cfg t e = true)
    (he : step cfg t e = some t') : Kept t' := by
  obtain ⟨c, hc, rfl⟩ := Option.map_eq_some_iff.mp he
  unfold Kept at hkept ⊢
  dsimp only
  rw [hkept]
  cases e with
  | worker a =>
      show t.offered ++ _ ++ _ ++ [] = _ ++ c.worker.invoked ++ _ ++ _
      rcases workerStep_held hc with ⟨-, hmoves⟩ | ⟨hgives, hinvoked, hheld, hqueued⟩
      · unfold Moves at hmoves
        rw [List.append_nil, List.append_assoc, ← hmoves]
        simp only [List.append_assoc]
      · simp only [patient] at hpatient
        rw [hgives, Bool.not_true, Bool.false_or, List.isEmpty_iff] at hpatient
        rw [hinvoked, hheld, hqueued, hpatient]
        simp only [List.append_nil]
  | _ =>
      obtain ⟨hworker, hqueued⟩ := step_frame (by simp) hc
      rw [hworker, hqueued]
      simp only [offers, List.append_nil, List.append_assoc]

/-- A step that is not patient loses a request. Kind: L -/
theorem not_kept_step (hkept : Kept t) (hpatient : ¬ patient cfg t e = true)
    (he : step cfg t e = some t') : ¬ Kept t' := by
  obtain ⟨c, hc, rfl⟩ := Option.map_eq_some_iff.mp he
  cases e with
  | worker a =>
      simp only [patient] at hpatient
      rw [Bool.or_eq_true, not_or, Bool.not_eq_true', List.isEmpty_iff, Bool.not_eq_false]
        at hpatient
      obtain ⟨hgives, hheld⟩ := hpatient
      rcases workerStep_held hc with ⟨hgives', -⟩ | ⟨-, hinvoked, hheld', hqueued⟩
      · rw [hgives] at hgives'
        cases hgives'
      · intro hkept'
        unfold Kept at hkept hkept'
        have hsame : t.requested ++ [] = t.offered ++ c.worker.invoked ++ c.worker.held ++
            c.queuedFiles := hkept'
        rw [hkept, hinvoked, hheld', hqueued] at hsame
        have hlengths := congrArg List.length hsame
        simp only [List.length_append, List.length_nil] at hlengths
        have hpos := List.length_pos_of_ne_nil hheld
        omega
  | _ => exact (hpatient rfl).elim

/-- **No request is lost, offered out of order or offered twice, in exactly the runs in which the
worker never gives up a batch that holds requests.** Kind: P -/
theorem kept_iff_patient (cfg : Config) (es : List ClientEvent) :
    Runs.Always (step cfg) Kept {} es ↔
      Runs.Meets (step cfg) (fun t e => patient cfg t e = true) {} es := by
  refine Runs.always_iff_meets _ (I := fun _ => True) (fun _ _ _ _ _ => trivial) ?_ ?_ trivial ?_
  · exact fun t e t' _ hkept hpatient he => kept_step hkept hpatient he
  · exact fun t e t' _ hkept hpatient he => not_kept_step hkept hpatient he
  · rfl

/-- The event is no `Stop`, and no wait is over. Kind: D -/
def quiet : ClientEvent → Bool
  | .stop => false
  | .worker a => !a.expired
  | _ => true

/-- A step of a client that is not stopped and does not run into a timeout. Kind: D -/
def stepQuiet (cfg : Config) (t : Ledger) (e : ClientEvent) : Option Ledger :=
  if quiet e then step cfg t e else none

/-- The client `a` of the room `r`, with no files to offer. Kind: D -/
def clientA : Config := ⟨str "a", some (str "r"), [], some []⟩

/-- The client joins its room, with `b` in it, and waits for work. Kind: D -/
def session : List ClientEvent :=
  [.worker {}, .messageOpen, .worker {}, .worker {},
    .join (.obj [(str "type", .str (str "peer_joined")), (str "room", .str (str "r")),
      (str "peerId", .str (str "a")), (str "peers", .arr [.str (str "a"), .str (str "b")])]),
    .callback, .worker {}, .worker {}, .worker {}, .worker {}]

/-- A request is queued and taken into a batch; then the connection is lost. Kind: D -/
def lostInBatch : List ClientEvent :=
  session ++ [.queueFile ⟨str "b", str "r", str "x"⟩, .worker {}, .worker {}, .worker {}, .worker {},
    .messageClose, .callback, .worker {}]

/-- A batch that is given up takes its requests along. Kind: P -/
theorem request_lost_in_batch : ¬ ∀ cfg es, Runs.Always (stepQuiet cfg) Kept {} es := by
  intro h
  have hany : ((Runs.run (stepQuiet clientA) {} lostInBatch).any fun t =>
      t.requested ≠ t.offered ++ t.client.worker.held ++ t.client.queuedFiles) = true := by decide
  obtain ⟨t, ht, hkept⟩ := (h clientA lostInBatch).at_end _ hany
  exact of_decide_eq_true ht hkept

end Ledger

end CloudNode
