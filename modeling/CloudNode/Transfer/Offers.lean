import CloudNode.Lib.Runs
import CloudNode.Transfer.Outgoing

/-!
# The ledger of offers

Offers are made on the threads that call `SendFileOffer`; the responses to them are handled one
after the other on the message thread. What they share are `m_pendingOffers`, the table of
channels and the queues, each under a mutex of its own, so that `OnFileAccept` takes three steps:
it takes the offer, reads the queue of its peer and room, and puts the path on that queue.

* `OfferBook` — the tables, where the calls and the message thread are, and a record of every
  response and of every path that was put on a queue.
* `tables_of_accept` — the three steps together are `onFileAccept`.
* `Decided` — every offer is decided at most once, by the first response that carries its uuid,
  and `m_pendingOffers` holds exactly the offers that are not answered or withdrawn.
* `decided_of_run` — so it is after every run, whatever the responses.
-/

namespace CloudNode

/-- A `file_accept` or `file_reject`, by the uuid that `TakePendingOffer` reads in it. Kind: D -/
structure FileResponse where
  uuid : Option Str
  accepts : Bool

/-- Where a call of `SendFileOffer` is, once it has remembered its offer: at `SendMessage`,
returned, or returned after a failed send. Kind: D -/
inductive OfferCall where
  | sending
  | sent
  | failed
  deriving DecidableEq

/-- Where the message thread is: between responses, in `OnFileAccept` with an offer taken, or there
with the queue read. `index` is the number of the response; `moved` tells whether the channel of
the offer's peer and room was registered anew or forgotten since the queue was read. Kind: D -/
inductive AcceptPhase where
  | idle
  | taken (index : ℕ) (uuid : Str) (offer : PendingOffer)
  | holding (index : ℕ) (uuid : Str) (offer : PendingOffer) (channel : Channel) (moved : Bool)

/-- A path that was put on a queue: for which offer, by which response, on which queue, which one
was registered for the offer's peer and room then, and whether that had changed since the handler
read it. Kind: D -/
structure QueuedPath where
  index : ℕ
  uuid : Str
  offer : PendingOffer
  channel : Channel
  registered : Option Channel
  moved : Bool

/-- The sender's tables with the calls, the responses and the paths put on queues so far, and what
the workers have taken off the queues. Kind: D -/
structure OfferBook where
  tables : Outgoing := {}
  calls : Std.ExtTreeMap Str (PendingOffer × OfferCall) := ∅
  responses : List FileResponse := []
  phase : AcceptPhase := .idle
  queued : List QueuedPath := []
  taken : Channel → List Str := fun _ => []

namespace OfferBook

/-- What can happen to the tables. Kind: D -/
inductive Event where
  /-- A call of `SendFileOffer` remembers its offer under a new uuid. -/
  | register (uuid : Str) (offer : PendingOffer)
  /-- Its `SendMessage` returned true. -/
  | sent (uuid : Str)
  /-- Its `SendMessage` returned false, and the call forgets the offer. -/
  | failed (uuid : Str)
  /-- A `file_accept` arrives, and `TakePendingOffer` returns. -/
  | accept (uuid : Option Str)
  /-- `OnFileAccept` reads the table of channels. -/
  | lookup
  /-- `OnFileAccept` calls `AddItem`. -/
  | addItem
  /-- A `file_reject` arrives and is handled. -/
  | reject (uuid : Option Str)
  /-- The channel of a peer and room is registered or forgotten. -/
  | channel (key : PeerRoomKey) (channel : Option Channel)
  /-- A worker takes the next path of its queue. -/
  | getItem (channel : Channel)

/-- A uuid that no offer and no response has carried. Kind: D -/
def fresh (s : OfferBook) (uuid : Str) : Bool :=
  s.calls[uuid]?.isNone && s.responses.all fun r => r.uuid ≠ some uuid

/-- A response has arrived. Kind: D -/
def heard (s : OfferBook) (r : FileResponse) : OfferBook :=
  { s with responses := s.responses ++ [r] }

/-- The registration of a key changes while the message thread may hold the queue it read.
Kind: D -/
def phaseAfter (key : PeerRoomKey) : AcceptPhase → AcceptPhase
  | .holding index uuid offer channel moved =>
    .holding index uuid offer channel (moved || offer.key = key)
  | phase => phase

/-- One step of a calling thread, of the message thread or of a worker.
Source: `WebRTCClient.cpp`, `SendFileOffer`, `TakePendingOffer`, `OnFileAccept`, `OnFileReject`
Kind: D -/
def step (s : OfferBook) : Event → Option OfferBook
  | .register uuid offer =>
    if s.fresh uuid then
      some { s with
        tables := s.tables.register uuid offer
        calls := s.calls.insert uuid (offer, .sending) }
    else none
  | .sent uuid =>
    match s.calls[uuid]? with
    | some (offer, .sending) => some { s with calls := s.calls.insert uuid (offer, .sent) }
    | _ => none
  | .failed uuid =>
    match s.calls[uuid]? with
    | some (offer, .sending) =>
      some { s with
        tables := { s.tables with pendingOffers := s.tables.pendingOffers.erase uuid }
        calls := s.calls.insert uuid (offer, .failed) }
    | _ => none
  | .accept uuid =>
    match s.phase with
    | .idle =>
      match uuid, s.tables.takePendingOffer uuid with
      | some u, some (offer, tables) =>
        some { s.heard ⟨uuid, true⟩ with
          tables := tables
          phase := .taken s.responses.length u offer }
      | _, _ => some (s.heard ⟨uuid, true⟩)
    | _ => none
  | .lookup =>
    match s.phase with
    | .taken index uuid offer =>
      match s.tables.dataChannels[offer.key]? with
      | some channel => some { s with phase := .holding index uuid offer channel false }
      | none => some { s with phase := .idle }
    | _ => none
  | .addItem =>
    match s.phase with
    | .holding index uuid offer channel moved =>
      some { s with
        tables := s.tables.addItem channel offer.path
        phase := .idle
        queued := s.queued ++
          [⟨index, uuid, offer, channel, s.tables.dataChannels[offer.key]?, moved⟩] }
    | _ => none
  | .reject uuid =>
    match s.phase with
    | .idle => some { s.heard ⟨uuid, false⟩ with tables := s.tables.onFileReject uuid }
    | _ => none
  | .channel key channel =>
    some { s with
      tables := { s.tables with dataChannels :=
        match channel with
        | some channel => s.tables.dataChannels.insert key channel
        | none => s.tables.dataChannels.erase key }
      phase := phaseAfter key s.phase }
  | .getItem channel =>
    (s.tables.getItem channel).map fun out =>
      { s with
        tables := out.2
        taken := Function.update s.taken channel (s.taken channel ++ [out.1]) }

/-- No offer has been made; the channels are as they may be. Kind: D -/
def start (channels : Std.ExtTreeMap PeerRoomKey Channel) : OfferBook where
  tables := { dataChannels := channels }

/-! ## The property -/

/-- The response at that index accepts the offer made under that uuid, and is the first response
that carries it. Kind: D -/
structure Decides (s : OfferBook) (index : ℕ) (uuid : Str) (offer : PendingOffer) : Prop where
  made : ∃ call, s.calls[uuid]? = some (offer, call)
  accepted : s.responses[index]? = some ⟨some uuid, true⟩
  first : ∀ (i : ℕ) (r : FileResponse), i < index → s.responses[i]? = some r → r.uuid ≠ some uuid

/-- An offer that was sent or is being sent, and that no response has carried the uuid of.
Kind: D -/
def Open (s : OfferBook) (uuid : Str) (offer : PendingOffer) : Prop :=
  (∃ call, s.calls[uuid]? = some (offer, call) ∧ call ≠ .failed) ∧
    ∀ r ∈ s.responses, r.uuid ≠ some uuid

/-- Every offer is decided at most once. Kind: D -/
structure Decided (s : OfferBook) : Prop where
  /-- No two paths were put on a queue for one offer. -/
  once : (s.queued.map QueuedPath.uuid).Nodup
  /-- A path is that of the offer, put there by the first response with its uuid. -/
  first : ∀ q ∈ s.queued, s.Decides q.index q.uuid q.offer
  /-- The queue is the one registered for the offer's peer and room. -/
  registered : ∀ q ∈ s.queued, q.moved = false → q.registered = some q.channel
  /-- The ledger is exact. -/
  pending : ∀ uuid offer, s.tables.pendingOffers[uuid]? = some offer ↔ s.Open uuid offer
  /-- Nothing else was put on the queues. -/
  contents : ∀ channel, s.taken channel ++ s.tables.fileQ channel =
    (s.queued.filter fun q => q.channel = channel).map fun q => q.offer.path

/-- What the message thread is at is the decision of an offer whose path was not queued before,
and the queue it holds is the registered one unless that changed. Kind: D -/
def PhaseSound (s : OfferBook) : Prop :=
  match s.phase with
  | .idle => True
  | .taken index uuid offer => s.Decides index uuid offer ∧ ∀ q ∈ s.queued, q.uuid ≠ uuid
  | .holding index uuid offer channel moved =>
    (s.Decides index uuid offer ∧ ∀ q ∈ s.queued, q.uuid ≠ uuid) ∧
      (moved = false → s.tables.dataChannels[offer.key]? = some channel)

/-- What every run keeps. Kind: D -/
structure Invariant (s : OfferBook) : Prop where
  decided : s.Decided
  phase : s.PhaseSound

/-! ## Taking offers -/

variable {s s' : OfferBook} {t t' : Outgoing} {uuid u : Str} {offer o : PendingOffer} {index : ℕ}
  {channel : Channel} {moved : Bool} {r : FileResponse}

/-- An offer that is taken was pending, and is forgotten. Kind: L -/
theorem takePendingOffer_eq_some {answered : Option Str} :
    t.takePendingOffer answered = some (offer, t') ↔ ∃ u, answered = some u ∧
      t.pendingOffers[u]? = some offer ∧
        t' = { t with pendingOffers := t.pendingOffers.erase u } := by
  unfold Outgoing.takePendingOffer
  cases answered with
  | none => simp only [reduceCtorEq, false_and, exists_false]
  | some u =>
      simp only [Option.some.injEq, exists_eq_left']
      cases t.pendingOffers[u]? with
      | none => simp only [reduceCtorEq, false_and]
      | some offer' => simp only [Option.some.injEq, Prod.mk.injEq, eq_comm]

/-- No offer is taken where none is pending under the uuid. Kind: L -/
theorem pendingOffers_of_take_none (h : t.takePendingOffer (some u) = none) :
    t.pendingOffers[u]? = none := by
  cases hu : t.pendingOffers[u]? with
  | none => rfl
  | some offer =>
      have htake := takePendingOffer_eq_some.mpr ⟨u, rfl, hu, rfl⟩
      rw [h] at htake
      exact (Option.some_ne_none _ htake.symm).elim

/-- A reject forgets the offer of its uuid and changes nothing else. Kind: L -/
theorem onFileReject_tables (t : Outgoing) (answered : Option Str) :
    (∀ u, (t.onFileReject answered).pendingOffers[u]? =
      if answered = some u then none else t.pendingOffers[u]?) ∧
    (t.onFileReject answered).fileQ = t.fileQ ∧
    (t.onFileReject answered).dataChannels = t.dataChannels := by
  unfold Outgoing.onFileReject
  cases htake : t.takePendingOffer answered with
  | none =>
      refine ⟨fun u => ?_, rfl, rfl⟩
      by_cases hu : answered = some u
      · subst hu
        rw [if_pos rfl]
        exact pendingOffers_of_take_none htake
      · rw [if_neg hu]
  | some out =>
      obtain ⟨offer, t'⟩ := out
      obtain ⟨u', rfl, -, rfl⟩ := takePendingOffer_eq_some.mp htake
      refine ⟨fun u => ?_, rfl, rfl⟩
      simp only [getElem?_erase_eq, Option.some.injEq]

/-- **The steps of the message thread are `OnFileAccept`**: from between two responses a
`file_accept` is handled in one, two or three steps, which leave the tables as `onFileAccept` does.
Kind: P -/
theorem tables_of_accept (answered : Option Str) (hidle : s.phase = .idle) :
    ∃ es s', es ≠ [] ∧ es <+: [.accept answered, .lookup, .addItem] ∧
      Runs.run step s es = some s' ∧ s'.phase = .idle ∧
        s'.tables = s.tables.onFileAccept answered := by
  cases htake : s.tables.takePendingOffer answered with
  | none =>
      refine ⟨[.accept answered], s.heard ⟨answered, true⟩, List.cons_ne_nil _ _, ⟨_, rfl⟩, ?_, hidle, ?_⟩
      · have hstep : s.step (.accept answered) = some (s.heard ⟨answered, true⟩) := by
          cases answered with
          | none => simp only [step, hidle]
          | some u => simp only [step, hidle, htake]
        rw [Runs.run_cons, hstep]
        rfl
      · unfold Outgoing.onFileAccept
        rw [htake]
        rfl
  | some out =>
      obtain ⟨offer, t⟩ := out
      obtain ⟨u, rfl, hu, rfl⟩ := takePendingOffer_eq_some.mp htake
      have hstep : s.step (.accept (some u)) = some { s.heard ⟨some u, true⟩ with
          tables := { s.tables with pendingOffers := s.tables.pendingOffers.erase u }
          phase := .taken s.responses.length u offer } := by
        simp only [step, hidle, htake]
      cases hchannel : s.tables.dataChannels[offer.key]? with
      | none =>
          refine ⟨[.accept (some u), .lookup], { s.heard ⟨some u, true⟩ with
            tables := { s.tables with pendingOffers := s.tables.pendingOffers.erase u }
            phase := .idle }, List.cons_ne_nil _ _, ⟨_, rfl⟩, ?_, rfl, ?_⟩
          · rw [Runs.run_cons, hstep, Option.bind_some, Runs.run_cons]
            simp only [step, hchannel]
            rfl
          · unfold Outgoing.onFileAccept
            simp only [htake, hchannel]
      | some channel =>
          refine ⟨[.accept (some u), .lookup, .addItem], { s.heard ⟨some u, true⟩ with
            tables := Outgoing.addItem
              { s.tables with pendingOffers := s.tables.pendingOffers.erase u } channel offer.path
            phase := .idle
            queued := s.queued ++
              [⟨s.responses.length, u, offer, channel, some channel, false⟩] },
            List.cons_ne_nil _ _, ⟨_, rfl⟩, ?_, rfl, ?_⟩
          · rw [Runs.run_cons, hstep, Option.bind_some, Runs.run_cons]
            simp only [step, hchannel, Option.bind_some, Runs.run_cons, Runs.run_nil]
            rfl
          · exact (Outgoing.onFileAccept_of_pending hu hchannel).symm

/-! ## What stays true of a decision -/

/-- Calls do not forget their offers. Kind: D -/
def CallsGrow (s s' : OfferBook) : Prop :=
  ∀ (uuid : Str) (offer : PendingOffer) (call : OfferCall), s.calls[uuid]? = some (offer, call) →
    ∃ call', s'.calls[uuid]? = some (offer, call')

/-- A decision stays one. Kind: L -/
theorem Decides.mono (h : s.Decides index uuid offer) (hcalls : CallsGrow s s')
    (hresponses : s.responses <+: s'.responses) : s'.Decides index uuid offer := by
  obtain ⟨call, hcall⟩ := h.made
  obtain ⟨later, hlater⟩ := hresponses
  have hlength : index < s.responses.length := (List.getElem?_eq_some_iff.mp h.accepted).1
  refine ⟨hcalls uuid offer call hcall, ?_, fun i r hi hr => h.first i r hi ?_⟩
  · rw [← hlater, List.getElem?_append_left hlength, h.accepted]
  · rwa [← hlater, List.getElem?_append_left (hi.trans hlength)] at hr

/-- The offer that a first response accepts. Kind: L -/
theorem decides_of_open (hopen : s.Open uuid offer) (hcalls : s'.calls = s.calls)
    (hresponses : s'.responses = s.responses ++ [⟨some uuid, true⟩]) :
    s'.Decides s.responses.length uuid offer := by
  obtain ⟨⟨call, hcall, -⟩, hfirst⟩ := hopen
  refine ⟨⟨call, hcalls ▸ hcall⟩, ?_, fun i r hi hr => ?_⟩
  · rw [hresponses, List.getElem?_append_right (le_refl _), Nat.sub_self]
    rfl
  · rw [hresponses, List.getElem?_append_left hi] at hr
    exact hfirst r (List.mem_of_getElem? hr)

/-- An open offer, after a response. Kind: L -/
theorem open_heard : (s.heard r).Open uuid offer ↔ s.Open uuid offer ∧ r.uuid ≠ some uuid := by
  unfold Open heard
  simp only [List.mem_append, List.mem_singleton, or_imp, forall_and, forall_eq, and_assoc]

/-- Whoever was decided is not open any more. Kind: L -/
theorem ne_of_decides_of_open (hd : s.Decides index u o) (hopen : s.Open uuid offer) :
    u ≠ uuid := by
  rintro rfl
  exact hopen.2 _ (List.mem_of_getElem? hd.accepted) rfl

/-! ## Every step keeps the invariant -/

/-- What the message thread is at, after a step that leaves it there. Kind: L -/
theorem PhaseSound.mono (h : s.PhaseSound) (hcalls : CallsGrow s s')
    (hresponses : s'.responses = s.responses) (hphase : s'.phase = s.phase)
    (hqueued : s'.queued = s.queued) (hchannels : s'.tables.dataChannels = s.tables.dataChannels) :
    s'.PhaseSound := by
  have hstays : ∀ {index uuid offer}, s.Decides index uuid offer → s'.Decides index uuid offer :=
    fun hd => hd.mono hcalls (hresponses ▸ List.prefix_rfl)
  unfold PhaseSound at h ⊢
  rw [hphase, hqueued, hchannels]
  cases hp : s.phase with
  | idle => trivial
  | taken index uuid offer =>
      rw [hp] at h
      exact ⟨hstays h.1, h.2⟩
  | holding index uuid offer channel moved =>
      rw [hp] at h
      exact ⟨⟨hstays h.1.1, h.1.2⟩, h.2⟩

/-- The message thread between two responses. Kind: L -/
theorem phaseSound_of_idle (h : s.phase = .idle) : s.PhaseSound := by
  unfold PhaseSound
  rw [h]
  trivial

/-- A step of a call keeps the invariant if it keeps the ledger exact. Kind: L -/
theorem Invariant.of_calls (h : s.Invariant) (hcalls : CallsGrow s s')
    (hresponses : s'.responses = s.responses) (hphase : s'.phase = s.phase)
    (hqueued : s'.queued = s.queued) (htaken : s'.taken = s.taken)
    (hfileQ : s'.tables.fileQ = s.tables.fileQ)
    (hchannels : s'.tables.dataChannels = s.tables.dataChannels)
    (hpending : ∀ uuid offer, s'.tables.pendingOffers[uuid]? = some offer ↔ s'.Open uuid offer) :
    s'.Invariant where
  decided := by
    refine ⟨?_, ?_, ?_, hpending, ?_⟩
    · rw [hqueued]
      exact h.decided.once
    · rw [hqueued]
      exact fun q hq => (h.decided.first q hq).mono hcalls (hresponses ▸ List.prefix_rfl)
    · rw [hqueued]
      exact h.decided.registered
    · rw [hqueued, htaken, hfileQ]
      exact h.decided.contents
  phase := h.phase.mono hcalls hresponses hphase hqueued hchannels

/-- A uuid that nothing has carried. Kind: L -/
theorem fresh_iff : s.fresh uuid = true ↔
    s.calls[uuid]? = none ∧ ∀ r ∈ s.responses, r.uuid ≠ some uuid := by
  unfold fresh
  rw [Bool.and_eq_true, Option.isNone_iff_eq_none, List.all_eq_true]
  simp only [decide_eq_true_eq]

/-- Making an offer keeps the invariant. Kind: L -/
theorem invariant_register (h : s.Invariant) (hstep : s.step (.register uuid offer) = some s') :
    s'.Invariant := by
  simp only [step] at hstep
  split at hstep
  · rename_i hfresh
    obtain ⟨hnew, hunheard⟩ := fresh_iff.mp hfresh
    obtain rfl := Option.some.inj hstep
    refine h.of_calls (fun u o call hcall => ⟨call, ?_⟩) rfl rfl rfl rfl rfl rfl fun u o => ?_
    · show (s.calls.insert uuid (offer, .sending))[u]? = _
      rw [getElem?_insert_ne, hcall]
      rintro rfl
      rw [hnew] at hcall
      exact Option.some_ne_none _ hcall.symm
    · show (s.tables.pendingOffers.insert uuid offer)[u]? = some o ↔
        (∃ call, (s.calls.insert uuid (offer, .sending))[u]? = some (o, call) ∧ call ≠ .failed) ∧ _
      rw [getElem?_insert_eq, getElem?_insert_eq]
      by_cases hu : uuid = u
      · subst hu
        simp only [if_true, Option.some.injEq, Prod.mk.injEq]
        constructor
        · rintro rfl
          exact ⟨⟨_, ⟨rfl, rfl⟩, OfferCall.noConfusion⟩, hunheard⟩
        · exact fun hopen => hopen.1.choose_spec.1.1
      · rw [if_neg hu, if_neg hu]
        exact h.decided.pending u o
  · exact (Option.some_ne_none _ hstep.symm).elim

/-- A call that moves on. Kind: L -/
theorem callsGrow_insert {call call' : OfferCall} (hcall : s.calls[uuid]? = some (offer, call))
    (tables : Outgoing) :
    CallsGrow s { s with
      tables := tables
      calls := s.calls.insert uuid (offer, call') } := by
  intro u o c hc
  show ∃ c', (s.calls.insert uuid (offer, call'))[u]? = some (o, c')
  by_cases hu : uuid = u
  · subst hu
    rw [hcall, Option.some.injEq, Prod.mk.injEq] at hc
    exact ⟨call', by rw [getElem?_insert_same, hc.1]⟩
  · exact ⟨c, by rw [getElem?_insert_ne _ _ hu, hc]⟩

/-- A send that succeeded keeps the invariant. Kind: L -/
theorem invariant_sent (h : s.Invariant) (hstep : s.step (.sent uuid) = some s') :
    s'.Invariant := by
  simp only [step] at hstep
  split at hstep
  · rename_i offer hcall
    obtain rfl := Option.some.inj hstep
    refine h.of_calls (callsGrow_insert hcall _) rfl rfl rfl rfl rfl rfl fun u o => ?_
    show s.tables.pendingOffers[u]? = some o ↔
      (∃ call, (s.calls.insert uuid (offer, .sent))[u]? = some (o, call) ∧ call ≠ .failed) ∧ _
    rw [h.decided.pending, getElem?_insert_eq]
    refine and_congr_left fun _ => ?_
    by_cases hu : uuid = u
    · subst hu
      simp only [hcall, if_true, Option.some.injEq, Prod.mk.injEq]
      constructor
      · rintro ⟨call, ⟨rfl, -⟩, -⟩
        exact ⟨_, ⟨rfl, rfl⟩, OfferCall.noConfusion⟩
      · rintro ⟨call, ⟨rfl, -⟩, -⟩
        exact ⟨_, ⟨rfl, rfl⟩, OfferCall.noConfusion⟩
    · rw [if_neg hu]
  · exact (Option.some_ne_none _ hstep.symm).elim

/-- A send that failed keeps the invariant. Kind: L -/
theorem invariant_failed (h : s.Invariant) (hstep : s.step (.failed uuid) = some s') :
    s'.Invariant := by
  simp only [step] at hstep
  split at hstep
  · rename_i offer hcall
    obtain rfl := Option.some.inj hstep
    refine h.of_calls (callsGrow_insert hcall _) rfl rfl rfl rfl rfl rfl fun u o => ?_
    show (s.tables.pendingOffers.erase uuid)[u]? = some o ↔
      (∃ call, (s.calls.insert uuid (offer, .failed))[u]? = some (o, call) ∧ call ≠ .failed) ∧ _
    rw [getElem?_erase_eq, getElem?_insert_eq]
    by_cases hu : uuid = u
    · rw [if_pos hu, if_pos hu]
      refine iff_of_false (Option.some_ne_none _ ·.symm) ?_
      rintro ⟨⟨call, hc, hne⟩, -⟩
      exact hne (Prod.mk.inj (Option.some.inj hc)).2.symm
    · rw [if_neg hu, if_neg hu]
      exact h.decided.pending u o
  · exact (Option.some_ne_none _ hstep.symm).elim

/-- Responses leave the paths that were queued decided. Kind: L -/
theorem Invariant.of_heard (h : s.Invariant) (hcalls : s'.calls = s.calls)
    (hresponses : s'.responses = s.responses ++ [r]) (hqueued : s'.queued = s.queued)
    (htaken : s'.taken = s.taken) (hfileQ : s'.tables.fileQ = s.tables.fileQ)
    (hpending : ∀ uuid offer, s'.tables.pendingOffers[uuid]? = some offer ↔
      s.Open uuid offer ∧ r.uuid ≠ some uuid) : s'.Decided := by
  refine ⟨?_, ?_, ?_, fun uuid offer => ?_, ?_⟩
  · rw [hqueued]
    exact h.decided.once
  · rw [hqueued]
    refine fun q hq => (h.decided.first q hq).mono (fun u o c hc => ⟨c, hcalls ▸ hc⟩) ?_
    exact hresponses ▸ List.prefix_append _ _
  · rw [hqueued]
    exact h.decided.registered
  · rw [hpending, ← open_heard]
    unfold Open heard
    rw [hcalls, hresponses]
  · rw [hqueued, htaken, hfileQ]
    exact h.decided.contents

/-- A `file_accept` that arrives keeps the invariant. Kind: L -/
theorem invariant_accept {answered : Option Str} (h : s.Invariant)
    (hstep : s.step (.accept answered) = some s') : s'.Invariant := by
  simp only [step] at hstep
  split at hstep
  · rename_i hidle
    split at hstep
    · rename_i u offer tables htake
      obtain rfl := Option.some.inj hstep
      obtain ⟨_, heq, hpending, rfl⟩ := takePendingOffer_eq_some.mp htake
      obtain rfl := Option.some.inj heq
      have hopen := (h.decided.pending u offer).mp hpending
      refine ⟨h.of_heard rfl rfl rfl rfl rfl fun v o => ?_, ?_, fun q hq => ?_⟩
      · show (s.tables.pendingOffers.erase u)[v]? = some o ↔ s.Open v o ∧ some u ≠ some v
        rw [getElem?_erase_eq, ← h.decided.pending]
        by_cases hv : u = v
        · simp only [hv, if_true, reduceCtorEq, ne_eq, not_true_eq_false, and_false]
        · simp only [hv, if_false, ne_eq, Option.some.injEq, not_false_eq_true, and_true]
      · exact decides_of_open hopen rfl rfl
      · exact ne_of_decides_of_open (h.decided.first q hq) hopen
    · rename_i answered _ _ hnone
      obtain rfl := Option.some.inj hstep
      refine ⟨h.of_heard rfl rfl rfl rfl rfl fun v o => ?_, phaseSound_of_idle hidle⟩
      show s.tables.pendingOffers[v]? = some o ↔ s.Open v o ∧ answered ≠ some v
      rw [h.decided.pending]
      refine (and_iff_left_of_imp fun hopen => ?_).symm
      rintro rfl
      have hpending := (h.decided.pending v o).mpr hopen
      exact hnone v o _ rfl (takePendingOffer_eq_some.mpr ⟨v, rfl, hpending, rfl⟩)
  · exact (Option.some_ne_none _ hstep.symm).elim

/-- A `file_reject` keeps the invariant. Kind: L -/
theorem invariant_reject {answered : Option Str} (h : s.Invariant)
    (hstep : s.step (.reject answered) = some s') : s'.Invariant := by
  simp only [step] at hstep
  split at hstep
  · rename_i hidle
    obtain rfl := Option.some.inj hstep
    obtain ⟨hpending, hfileQ, -⟩ := onFileReject_tables s.tables answered
    refine ⟨h.of_heard rfl rfl rfl rfl hfileQ fun v o => ?_, phaseSound_of_idle hidle⟩
    rw [← h.decided.pending]
    show (s.tables.onFileReject answered).pendingOffers[v]? = some o ↔ _ ∧ answered ≠ some v
    rw [hpending]
    by_cases hv : answered = some v
    · simp only [hv, if_true, reduceCtorEq, ne_eq, not_true_eq_false, and_false]
    · simp only [hv, if_false, ne_eq, not_false_eq_true, and_true]
  · exact (Option.some_ne_none _ hstep.symm).elim

/-- Reading the table of channels keeps the invariant. Kind: L -/
theorem invariant_lookup (h : s.Invariant) (hstep : s.step .lookup = some s') : s'.Invariant := by
  simp only [step] at hstep
  split at hstep
  · rename_i index uuid offer hphase
    have hsound := h.phase
    unfold PhaseSound at hsound
    rw [hphase] at hsound
    have hdecided : ∀ phase, ({ s with phase := phase } : OfferBook).Decided := fun _ =>
      ⟨h.decided.once, fun q hq => ⟨(h.decided.first q hq).made, (h.decided.first q hq).accepted,
        (h.decided.first q hq).first⟩, h.decided.registered, h.decided.pending, h.decided.contents⟩
    split at hstep
    · rename_i channel hchannel
      obtain rfl := Option.some.inj hstep
      refine ⟨hdecided _, ⟨⟨?_, hsound.2⟩, fun _ => hchannel⟩⟩
      exact ⟨hsound.1.made, hsound.1.accepted, hsound.1.first⟩
    · obtain rfl := Option.some.inj hstep
      exact ⟨hdecided _, trivial⟩
  · exact (Option.some_ne_none _ hstep.symm).elim

/-- Putting the path on the queue keeps the invariant. Kind: L -/
theorem invariant_addItem (h : s.Invariant) (hstep : s.step .addItem = some s') :
    s'.Invariant := by
  simp only [step] at hstep
  split at hstep
  · rename_i index uuid offer channel moved hphase
    obtain rfl := Option.some.inj hstep
    have hsound := h.phase
    unfold PhaseSound at hsound
    rw [hphase] at hsound
    obtain ⟨⟨hd, hnew⟩, hchannel⟩ := hsound
    refine ⟨⟨?_, fun q hq => ?_, fun q hq => ?_, h.decided.pending, fun c => ?_⟩, trivial⟩
    · rw [List.map_append, List.nodup_append]
      refine ⟨h.decided.once, List.nodup_singleton _, fun u hu v hv => ?_⟩
      obtain ⟨q, hq, rfl⟩ := List.mem_map.mp hu
      obtain rfl := List.mem_singleton.mp hv
      exact hnew q hq
    · obtain hq | hq := List.mem_append.mp hq
      · have hold := h.decided.first q hq
        exact ⟨hold.made, hold.accepted, hold.first⟩
      · obtain rfl := List.mem_singleton.mp hq
        exact ⟨hd.made, hd.accepted, hd.first⟩
    · obtain hq | hq := List.mem_append.mp hq
      · exact h.decided.registered q hq
      · obtain rfl := List.mem_singleton.mp hq
        exact hchannel
    · show s.taken c ++ Function.update s.tables.fileQ channel _ c = _
      rw [List.filter_append, List.map_append, ← h.decided.contents c]
      by_cases hc : channel = c
      · subst hc
        rw [Function.update_self, ← List.append_assoc, List.filter_singleton]
        simp only [decide_true, cond_true, List.map_cons, List.map_nil]
      · rw [Function.update_of_ne (Ne.symm hc), List.filter_singleton, decide_eq_false hc]
        exact (List.append_nil _).symm
  · exact (Option.some_ne_none _ hstep.symm).elim

/-- A registration keeps the invariant. Kind: L -/
theorem invariant_channel {key : PeerRoomKey} {new : Option Channel} (h : s.Invariant)
    (hstep : s.step (.channel key new) = some s') : s'.Invariant := by
  obtain rfl := Option.some.inj hstep
  refine ⟨⟨h.decided.once, fun q hq => ⟨(h.decided.first q hq).made,
    (h.decided.first q hq).accepted, (h.decided.first q hq).first⟩, h.decided.registered,
    h.decided.pending, h.decided.contents⟩, ?_⟩
  have hsound := h.phase
  unfold PhaseSound at hsound ⊢
  cases hphase : s.phase with
  | idle => trivial
  | taken index uuid offer =>
      rw [hphase] at hsound
      exact ⟨⟨hsound.1.made, hsound.1.accepted, hsound.1.first⟩, hsound.2⟩
  | holding index uuid offer channel moved =>
      rw [hphase] at hsound
      obtain ⟨⟨hd, hnew⟩, hchannel⟩ := hsound
      refine ⟨⟨⟨hd.made, hd.accepted, hd.first⟩, hnew⟩, fun hmoved => ?_⟩
      obtain ⟨hmoved, hkey⟩ := Bool.or_eq_false_iff.mp hmoved
      have hne : key ≠ offer.key := Ne.symm (of_decide_eq_false hkey)
      rw [← hchannel hmoved]
      cases new with
      | some c => exact getElem?_insert_ne _ _ hne
      | none => exact getElem?_erase_ne _ hne

/-- A worker that takes a path keeps the invariant. Kind: L -/
theorem invariant_getItem (h : s.Invariant) (hstep : s.step (.getItem channel) = some s') :
    s'.Invariant := by
  obtain ⟨⟨path, tables⟩, hitem, rfl⟩ := Option.map_eq_some_iff.mp hstep
  unfold Outgoing.getItem at hitem
  split at hitem
  · exact (Option.some_ne_none _ hitem.symm).elim
  · rename_i first paths hqueue
    obtain ⟨rfl, rfl⟩ := Prod.mk.inj (Option.some.inj hitem)
    refine ⟨⟨h.decided.once, fun q hq => ⟨(h.decided.first q hq).made,
      (h.decided.first q hq).accepted, (h.decided.first q hq).first⟩, h.decided.registered,
      h.decided.pending, fun c => ?_⟩, ?_⟩
    · show Function.update s.taken channel _ c ++ Function.update s.tables.fileQ channel paths c = _
      rw [← h.decided.contents c]
      by_cases hc : c = channel
      · subst hc
        rw [Function.update_self, Function.update_self, hqueue, List.append_assoc]
        rfl
      · rw [Function.update_of_ne hc, Function.update_of_ne hc]
    · exact h.phase.mono (fun u o c hc => ⟨c, hc⟩) rfl rfl rfl rfl

/-- **Every step keeps the ledger exact and its decisions single.** Kind: P -/
theorem invariant_step {e : Event} (h : s.Invariant) (hstep : s.step e = some s') :
    s'.Invariant := by
  cases e with
  | register uuid offer => exact invariant_register h hstep
  | sent uuid => exact invariant_sent h hstep
  | failed uuid => exact invariant_failed h hstep
  | accept uuid => exact invariant_accept h hstep
  | lookup => exact invariant_lookup h hstep
  | addItem => exact invariant_addItem h hstep
  | reject uuid => exact invariant_reject h hstep
  | channel key channel => exact invariant_channel h hstep
  | getItem channel => exact invariant_getItem h hstep

/-! ## Runs -/

/-- Before the first offer nothing is pending and nothing was queued. Kind: L -/
theorem invariant_start (channels : Std.ExtTreeMap PeerRoomKey Channel) :
    (start channels).Invariant := by
  refine ⟨⟨List.nodup_nil, fun q hq => (List.not_mem_nil hq).elim,
    fun q hq => (List.not_mem_nil hq).elim, fun u o => iff_of_false ?_ ?_, fun _ => rfl⟩, trivial⟩
  · show ¬ (∅ : Std.ExtTreeMap Str PendingOffer)[u]? = some o
    rw [Std.ExtTreeMap.getElem?_empty]
    exact (Option.some_ne_none o ·.symm)
  · rintro ⟨⟨call, hcall, -⟩, -⟩
    change (∅ : Std.ExtTreeMap Str (PendingOffer × OfferCall))[u]? = _ at hcall
    rw [Std.ExtTreeMap.getElem?_empty] at hcall
    exact Option.some_ne_none _ hcall.symm

/-- The event changes which channel is registered for a peer and room. Kind: D -/
def Event.registers : Event → Bool
  | .channel _ _ => true
  | _ => false

/-- The registration has not changed since the handler read it. Kind: D -/
def Still (s : OfferBook) : Prop :=
  (∀ q ∈ s.queued, q.moved = false) ∧
    ∀ index uuid offer channel moved, s.phase = .holding index uuid offer channel moved →
      moved = false

/-- Only a registration makes a difference to what the handler read. Kind: L -/
theorem still_step {e : Event} (h : s.Still) (he : e.registers = false)
    (hstep : s.step e = some s') : s'.Still := by
  have hidle {queued : List QueuedPath} (hq : ∀ q ∈ queued, q.moved = false)
      (hs' : s'.queued = queued) (hphase : s'.phase = .idle) : s'.Still := by
    refine ⟨hs' ▸ hq, fun i u o c m hm => ?_⟩
    rw [hphase] at hm
    exact AcceptPhase.noConfusion hm
  cases e with
  | register uuid offer =>
      simp only [step] at hstep
      split at hstep
      · exact Option.some.inj hstep ▸ h
      · exact (Option.some_ne_none _ hstep.symm).elim
  | sent uuid =>
      simp only [step] at hstep
      split at hstep
      · exact Option.some.inj hstep ▸ h
      · exact (Option.some_ne_none _ hstep.symm).elim
  | failed uuid =>
      simp only [step] at hstep
      split at hstep
      · exact Option.some.inj hstep ▸ h
      · exact (Option.some_ne_none _ hstep.symm).elim
  | accept uuid =>
      simp only [step] at hstep
      split at hstep
      · rename_i hphase
        split at hstep
        · obtain rfl := Option.some.inj hstep
          exact ⟨h.1, fun i u o c m hm => AcceptPhase.noConfusion hm⟩
        · obtain rfl := Option.some.inj hstep
          exact hidle h.1 rfl hphase
      · exact (Option.some_ne_none _ hstep.symm).elim
  | lookup =>
      simp only [step] at hstep
      split at hstep
      · split at hstep
        · obtain rfl := Option.some.inj hstep
          refine ⟨h.1, fun i u o c m hm => ?_⟩
          injection hm with _ _ _ _ hmoved
          exact hmoved.symm
        · obtain rfl := Option.some.inj hstep
          exact hidle h.1 rfl rfl
      · exact (Option.some_ne_none _ hstep.symm).elim
  | addItem =>
      simp only [step] at hstep
      split at hstep
      · rename_i index uuid offer channel moved hphase
        obtain rfl := Option.some.inj hstep
        refine hidle (fun q hq => ?_) rfl rfl
        obtain hq | hq := List.mem_append.mp hq
        · exact h.1 q hq
        · obtain rfl := List.mem_singleton.mp hq
          exact h.2 _ _ _ _ _ hphase
      · exact (Option.some_ne_none _ hstep.symm).elim
  | reject uuid =>
      simp only [step] at hstep
      split at hstep
      · rename_i hphase
        obtain rfl := Option.some.inj hstep
        exact hidle h.1 rfl hphase
      · exact (Option.some_ne_none _ hstep.symm).elim
  | channel key channel => exact (Bool.false_ne_true he.symm).elim
  | getItem channel =>
      obtain ⟨out, -, rfl⟩ := Option.map_eq_some_iff.mp hstep
      exact h

/-- **Each offer is decided at most once**: after every run of calls that make offers under new
uuids, of responses of any kind and of the workers, every path was put on a queue at most once for
its offer, by the first response with its uuid, and the ledger holds exactly the offers that are
open. The queue is the one registered for the offer's peer and room when the handler reads it, and
still so at the put unless a registration comes in between, which no call and no response is.
Kind: P -/
theorem decided_of_run {channels : Std.ExtTreeMap PeerRoomKey Channel} {es : List Event}
    (hrun : Runs.run step (start channels) es = some s) : s.Decided ∧
      ((∀ e ∈ es, e.registers = false) → ∀ q ∈ s.queued, q.registered = some q.channel) := by
  have hI := Runs.invariant_of_run step (fun _ _ _ h hs => invariant_step h hs)
    (invariant_start channels) hrun
  refine ⟨hI.decided, fun hes q hq => hI.decided.registered q hq ?_⟩
  have hinit : (start channels).Still :=
    ⟨fun q hq => (List.not_mem_nil hq).elim, fun i u o c m hm => AcceptPhase.noConfusion hm⟩
  have hstill := Runs.invariant_of_run_on step (fun _ _ _ he h hs => still_step h he hs) hes hinit hrun
  exact hstill.1 q hq

/-- An offer is accepted before its call has returned, and accepted again. Kind: P -/
theorem decided_after_duplicate : ∃ s, Runs.run step
    (start ((∅ : Std.ExtTreeMap PeerRoomKey Channel).insert (str "b", str "r") 3))
    [.register (str "u") ⟨(str "b", str "r"), str "f"⟩, .accept (some (str "u")), .lookup, .addItem,
      .sent (str "u"), .accept (some (str "u"))] = some s ∧ s.Decided ∧
      ∀ q ∈ s.queued, q.registered = some q.channel := by
  obtain ⟨s, hrun⟩ := Option.isSome_iff_exists.mp (show (Runs.run step
    (start ((∅ : Std.ExtTreeMap PeerRoomKey Channel).insert (str "b", str "r") 3))
    [.register (str "u") ⟨(str "b", str "r"), str "f"⟩, .accept (some (str "u")), .lookup, .addItem,
      .sent (str "u"), .accept (some (str "u"))]).isSome = true by decide +kernel)
  obtain ⟨hdecided, hqueues⟩ := decided_of_run hrun
  refine ⟨s, hrun, hdecided, hqueues fun e he => ?_⟩
  simp only [List.mem_cons, List.not_mem_nil, or_false] at he
  obtain rfl | rfl | rfl | rfl | rfl | rfl := he <;> rfl

end OfferBook

end CloudNode
