import CloudNode.Client.Worker
import CloudNode.Lib.Runs

/-!
# Peers that come back

Whether a peer is present is read from the roster, whether it can be reached from the table of
data channels. A `peer_left` takes the peer from the roster and leaves its channel registered; a
channel that closes leaves itself registered too.

* `Registered` — the invariant: every registered channel was negotiated after its peer's latest
  arrival in the room.
* `live_of_renewed` — in the runs in which no peer arrives while a channel is still registered for
  it, and no acceptance is handled whose channel has closed, files are offered on channels
  negotiated since the peer arrived, and no path is put on the queue of a closed channel.
* `Answerable` — the invariant of offers: the channel of every pending one is open.
* `queued_of_heldOpen` — no path is put on the queue of a closed channel where channels stay open as
  long as offers to their peers are pending.
-/

namespace CloudNode

/-- A client, with what happened to its peers and channels. Kind: D -/
structure Contacts where
  client : WebRTCClient := {}
  /-- How often a peer has come into a room's roster. -/
  arrivals : PeerRoomKey → ℕ := fun _ => 0
  /-- How often the peer of a channel had arrived when the channel was registered. -/
  negotiated : Channel → ℕ := fun _ => 0
  closed : List Channel := []
  /-- For every offer: how often its peer had arrived, and what `negotiated` says of the channel
  that was found for it. -/
  offers : List (ℕ × ℕ) := []
  /-- For every path that an acceptance put on a queue: whether the channel had closed. -/
  late : List Bool := []

namespace Contacts

open WebRTCClient

/-- What can happen: a step of the client, or a channel closes. Kind: D -/
inductive Event where
  | client (e : ClientEvent)
  | channelClosed (channel : Channel)

variable (cfg : Config)

/-- A peer that was not in a room's roster is in it now. Kind: D -/
def arrives (rooms rooms' : Rooms) (key : PeerRoomKey) : Bool :=
  !present rooms key && present rooms' key

/-- What `negotiated` becomes when the worker makes a channel. Kind: D -/
def noteChannel (t : Contacts) : ClientEvent → Channel → ℕ
  | .worker a =>
    match t.client.worker with
    | .makeChannel key _ =>
      if a.described then Function.update t.negotiated t.client.nextChannel (t.arrivals key)
      else t.negotiated
    | _ => t.negotiated
  | _ => t.negotiated

/-- The offer that the worker is about to make. Kind: D -/
def noteOffer (t : Contacts) : ClientEvent → List (ℕ × ℕ)
  | .worker _ =>
    match t.client.worker with
    | .lookUp spec _ =>
      match t.client.outgoing.dataChannels[(spec.peer, spec.room)]? with
      | some channel => [(t.arrivals (spec.peer, spec.room), t.negotiated channel)]
      | none => []
    | _ => []
  | _ => []

/-- The channel on whose queue an acceptance puts its path. Kind: D -/
def acceptedOn (c : WebRTCClient) : ClientEvent → Option Channel
  | .fileAccept uuid =>
    (c.outgoing.takePendingOffer uuid).bind fun taken => c.outgoing.dataChannels[taken.1.key]?
  | _ => none

/-- A step, noted. Kind: D -/
def step (t : Contacts) : Event → Option Contacts
  | .channelClosed channel =>
    if channel < t.client.nextChannel then some { t with closed := channel :: t.closed } else none
  | .client e =>
    (t.client.step cfg e).map fun c =>
      { client := c
        arrivals := fun key =>
          if arrives t.client.rooms c.rooms key then t.arrivals key + 1 else t.arrivals key
        negotiated := noteChannel t e
        closed := t.closed
        offers := t.offers ++ noteOffer t e
        late := t.late ++ ((acceptedOn t.client e).map fun channel =>
          decide (channel ∈ t.closed)).toList }

/-- Every offer relied on a channel negotiated after the peer's latest arrival, and no path was put
on the queue of a closed channel. Kind: D -/
structure Live (t : Contacts) : Prop where
  offers : ∀ o ∈ t.offers, o.2 = o.1
  queued : ∀ late ∈ t.late, late = false

/-- The rosters after a notification. Kind: D -/
def roomsAfter (rooms : Rooms) : ClientEvent → Rooms
  | .join doc =>
    match Client.onJoin doc rooms with
    | .ok (rooms', _) => rooms'
    | .error _ => rooms
  | .leave doc =>
    match Client.onLeave doc rooms with
    | .ok rooms' => rooms'
    | .error _ => rooms
  | _ => rooms

/-- No peer arrives while a channel is registered for it, and no acceptance is handled whose
channel has closed. Kind: D -/
def renewed (t : Contacts) : Event → Bool
  | .channelClosed _ => true
  | .client e =>
    (t.client.outgoing.dataChannels.toList.all fun entry =>
      !arrives t.client.rooms (roomsAfter t.client.rooms e) entry.1) &&
    (acceptedOn t.client e).all fun channel => decide (channel ∉ t.closed)

variable {cfg} {t t' : Contacts} {c c' : WebRTCClient} {a : Answers}

/-! ## What a step does to the tables -/

/-- No channel is registered that was not registered before. Kind: D -/
def Shrinks (c c' : WebRTCClient) : Prop :=
  c'.nextChannel = c.nextChannel ∧ ∀ (key : PeerRoomKey) (channel : Channel),
    c'.outgoing.dataChannels[key]? = some channel → c.outgoing.dataChannels[key]? = some channel

/-- The same channels are registered. Kind: L -/
theorem shrinks_of_eq (hnext : c'.nextChannel = c.nextChannel)
    (hchannels : c'.outgoing.dataChannels = c.outgoing.dataChannels) : Shrinks c c' :=
  ⟨hnext, fun _ _ h => hchannels ▸ h⟩

/-- The loop's condition touches no table. Kind: L -/
theorem dispatch_tables (c : WebRTCClient) : c.dispatch.rooms = c.rooms ∧
    c.dispatch.nextChannel = c.nextChannel ∧
    c.dispatch.outgoing.dataChannels = c.outgoing.dataChannels := by
  unfold WebRTCClient.dispatch
  cases c.clientState with
  | run =>
      by_cases hqueued : c.queuedFiles = []
      · simp only [if_pos hqueued, and_self]
      · simp only [if_neg hqueued, and_self]
  | _ => exact ⟨rfl, rfl, rfl⟩

/-- The next room of `JoinRooms` touches no table. Kind: L -/
theorem joinNext_tables (room : Str) (rest : List Str) (task : Task) (c : WebRTCClient) :
    (joinNext cfg a room rest task c).rooms = c.rooms ∧
      (joinNext cfg a room rest task c).nextChannel = c.nextChannel ∧
      (joinNext cfg a room rest task c).outgoing.dataChannels = c.outgoing.dataChannels := by
  unfold joinNext
  split
  · exact ⟨rfl, rfl, rfl⟩
  · split
    · exact ⟨rfl, rfl, rfl⟩
    · split
      · exact ⟨rfl, rfl, rfl⟩
      · exact ⟨rfl, rfl, rfl⟩

/-- **What a step of the worker does to rosters and channels**: it registers a new channel, or at
most takes one away. Kind: P -/
theorem workerStep_tables (h : workerStep cfg a c = some c') : c'.rooms = c.rooms ∧
    ((∃ key task, c.worker = .makeChannel key task ∧ a.described = true ∧
        c'.outgoing.dataChannels = c.outgoing.dataChannels.insert key c.nextChannel ∧
        c'.nextChannel = c.nextChannel + 1) ∨
      ((∀ key task, c.worker = .makeChannel key task → a.described = false) ∧ Shrinks c c')) := by
  cases workerStep_cases h with
  | dispatch hworker =>
      obtain ⟨hrooms, hnext, hchannels⟩ := dispatch_tables c
      exact ⟨hrooms, .inr ⟨by simp [hworker], shrinks_of_eq hnext hchannels⟩⟩
  | join held room rest task hworker =>
      obtain ⟨hrooms, hnext, hchannels⟩ := joinNext_tables room rest task c
      exact ⟨hrooms, .inr ⟨by simp [hworker], shrinks_of_eq hnext hchannels⟩⟩
  | described key task hdescribed hworker =>
      exact ⟨rfl, .inl ⟨key, task, hworker, hdescribed, rfl, rfl⟩⟩
  | undescribed key task hdescribed =>
      exact ⟨rfl, .inr ⟨fun _ _ _ => hdescribed, shrinks_of_eq rfl rfl⟩⟩
  | unannounced key channel task hsent hworker =>
      refine ⟨rfl, .inr ⟨by simp [hworker], rfl, fun key' channel' hchannel => ?_⟩⟩
      dsimp only at hchannel
      split at hchannel
      · rw [getElem?_erase_eq] at hchannel
        split at hchannel
        · cases hchannel
        · exact hchannel
      · exact hchannel
  | _ =>
      -- the other places leave the tables alone
      rename_i hworker
      exact ⟨rfl, .inr ⟨by simp [hworker], shrinks_of_eq rfl rfl⟩⟩

/-- A response changes no channel's registration. Kind: L -/
theorem dataChannels_onFileAccept (s : Outgoing) (uuid : Option Str) :
    (s.onFileAccept uuid).dataChannels = s.dataChannels := by
  unfold Outgoing.onFileAccept Outgoing.takePendingOffer
  cases uuid with
  | none => rfl
  | some uuid =>
      cases hpending : s.pendingOffers[uuid]? with
      | none => simp only [hpending]
      | some offer =>
          simp only [hpending]
          split
          · rfl
          · rfl

/-- A response changes no channel's registration. Kind: L -/
theorem dataChannels_onFileReject (s : Outgoing) (uuid : Option Str) :
    (s.onFileReject uuid).dataChannels = s.dataChannels := by
  unfold Outgoing.onFileReject Outgoing.takePendingOffer
  cases uuid with
  | none => rfl
  | some uuid =>
      cases hpending : s.pendingOffers[uuid]? with
      | none => simp only [hpending]
      | some offer => simp only [hpending]

/-- **What the other threads do to rosters and channels**: the rosters are what a notification
makes them, or are forgotten, and no channel is registered. Kind: P -/
theorem step_tables {e : ClientEvent} (hother : ∀ a, e ≠ .worker a)
    (h : WebRTCClient.step cfg c e = some c') :
    (c'.rooms = roomsAfter c.rooms e ∨ c'.rooms = ∅) ∧ Shrinks c c' := by
  cases step_cases h with
  | worker a => exact (hother a rfl).elim
  | cleared =>
      refine ⟨.inr rfl, rfl, fun key channel hchannel => ?_⟩
      simp at hchannel
  | joinIgnored doc rooms _ hjoin | join doc rooms _ _ _ hjoin =>
      exact ⟨.inl (by simp only [roomsAfter, hjoin]), shrinks_of_eq rfl rfl⟩
  | leave doc rooms _ hleave =>
      exact ⟨.inl (by simp only [roomsAfter, hleave]), shrinks_of_eq rfl rfl⟩
  | accept uuid => exact ⟨.inl rfl, shrinks_of_eq rfl (dataChannels_onFileAccept _ uuid)⟩
  | reject uuid => exact ⟨.inl rfl, shrinks_of_eq rfl (dataChannels_onFileReject _ uuid)⟩
  | _ => exact ⟨.inl rfl, shrinks_of_eq rfl rfl⟩

/-! ## Registered channels -/

/-- Every registered channel was negotiated after its peer's latest arrival. Kind: D -/
def Registered (t : Contacts) : Prop :=
  ∀ (key : PeerRoomKey) (channel : Channel),
    t.client.outgoing.dataChannels[key]? = some channel →
      channel < t.client.nextChannel ∧ t.negotiated channel = t.arrivals key

/-- Nobody arrives in rosters that are as they were. Kind: L -/
theorem arrives_self (rooms : Rooms) (key : PeerRoomKey) : arrives rooms rooms key = false := by
  unfold arrives
  cases present rooms key with
  | true => rfl
  | false => rfl

/-- Nobody arrives in forgotten rosters. Kind: L -/
theorem arrives_empty (rooms : Rooms) (key : PeerRoomKey) : arrives rooms ∅ key = false := by
  have hnone : present ∅ key = false := by simp [present, WebRTC.getPeers]
  unfold arrives
  rw [hnone, Bool.and_false]

/-- No peer with a registered channel arrives in a renewed step. Kind: L -/
theorem not_arrives_of_renewed {e : ClientEvent} (h : renewed t (.client e) = true)
    {key : PeerRoomKey} {channel : Channel}
    (hchannel : t.client.outgoing.dataChannels[key]? = some channel) :
    arrives t.client.rooms (roomsAfter t.client.rooms e) key = false := by
  simp only [renewed, Bool.and_eq_true, List.all_eq_true] at h
  have hentry := h.1 (key, channel) (Std.ExtTreeMap.mem_toList_iff_getElem?_eq_some.mpr hchannel)
  simpa using hentry

/-- The worker notes a channel only when it makes one. Kind: L -/
theorem noteChannel_of_none (h : ∀ key task, t.client.worker = .makeChannel key task →
    a.described = false) : noteChannel t (.worker a) = t.negotiated := by
  unfold noteChannel
  cases hworker : t.client.worker with
  | makeChannel key task => simp only [h key task hworker, Bool.false_eq_true, if_false]
  | _ => rfl

/-- **A renewed step keeps every registered channel newer than its peer's arrival.** Kind: P -/
theorem registered_step {e : Event} (h : Registered t) (hrenewed : renewed t e = true)
    (he : step cfg t e = some t') : Registered t' := by
  cases e with
  | channelClosed channel =>
      simp only [step] at he
      split at he
      · obtain rfl := Option.some.inj he
        exact h
      · cases he
  | client e =>
      obtain ⟨c, hc, rfl⟩ := Option.map_eq_some_iff.mp he
      intro key channel hchannel
      by_cases hworker : ∃ a, e = .worker a
      · obtain ⟨a, rfl⟩ := hworker
        obtain ⟨hrooms, hmake | ⟨hnone, hnext, hshrinks⟩⟩ := workerStep_tables hc
        · obtain ⟨key', task, hplace, hdescribed, hchannels, hnext⟩ := hmake
          have hnote : noteChannel t (.worker a) =
              Function.update t.negotiated t.client.nextChannel (t.arrivals key') := by
            simp only [noteChannel, hplace, hdescribed, if_true]
          dsimp only at hchannel ⊢
          rw [hchannels, getElem?_insert_eq] at hchannel
          rw [hnext, hnote, hrooms, arrives_self, if_neg (by simp)]
          split at hchannel
          · rename_i hkey
            obtain rfl := Option.some.inj hchannel
            rw [hkey, Function.update_self]
            exact ⟨Nat.lt_succ_self _, rfl⟩
          · obtain ⟨hlt, hsame⟩ := h key channel hchannel
            rw [Function.update_of_ne hlt.ne]
            exact ⟨Nat.lt_succ_of_lt hlt, hsame⟩
        · dsimp only
          rw [hnext, noteChannel_of_none hnone, hrooms, arrives_self, if_neg (by simp)]
          exact h key channel (hshrinks key channel hchannel)
      · have hother : ∀ a, e ≠ .worker a := fun a ha => hworker ⟨a, ha⟩
        obtain ⟨hrooms, hnext, hshrinks⟩ := step_tables hother hc
        have hbefore := hshrinks key channel hchannel
        have harrives : arrives t.client.rooms c.rooms key = false := by
          rcases hrooms with hrooms | hrooms
          · rw [hrooms]
            exact not_arrives_of_renewed hrenewed hbefore
          · rw [hrooms]
            exact arrives_empty _ _
        have hnote : noteChannel t e = t.negotiated := by
          cases e with
          | worker a => exact (hother a rfl).elim
          | _ => rfl
        dsimp only
        rw [hnext, hnote, harrives, if_neg (by simp)]
        exact h key channel hbefore

/-- **A renewed step offers on fresh channels and queues on open ones.** Kind: P -/
theorem live_step {e : Event} (h : Registered t) (hlive : Live t) (hrenewed : renewed t e = true)
    (he : step cfg t e = some t') : Live t' := by
  cases e with
  | channelClosed channel =>
      simp only [step] at he
      split at he
      · obtain rfl := Option.some.inj he
        exact ⟨hlive.offers, hlive.queued⟩
      · cases he
  | client e =>
      obtain ⟨c, -, rfl⟩ := Option.map_eq_some_iff.mp he
      constructor
      · intro o ho
        rcases List.mem_append.mp ho with ho | ho
        · exact hlive.offers o ho
        · unfold noteOffer at ho
          repeat' split at ho
          · rename_i channel hchannel
            rw [List.mem_singleton.mp ho]
            exact (h _ channel hchannel).2
          all_goals cases ho
      · intro late hlate
        rcases List.mem_append.mp hlate with hlate | hlate
        · exact hlive.queued late hlate
        · rw [Option.mem_toList, Option.map_eq_some_iff] at hlate
          obtain ⟨channel, hchannel, rfl⟩ := hlate
          simp only [renewed, Bool.and_eq_true, hchannel, Option.all_some] at hrenewed
          simpa using hrenewed.2

/-- **In a run in which no peer arrives while a channel is registered for it, and no acceptance is
handled whose channel has closed, files are offered on channels negotiated since the peer arrived
and queued on open ones.** Kind: P -/
theorem live_of_renewed (cfg : Config) (es : List Event)
    (hmeets : Runs.Meets (step cfg) (fun t e => renewed t e = true) {} es) :
    Runs.Always (step cfg) Live {} es := by
  have hkept : Runs.Always (step cfg) (fun t => Registered t ∧ Live t) {} es := by
    refine Runs.always_of_meets _ ?_ ⟨?_, ?_, ?_⟩ hmeets
    · rintro t e t' ⟨hregistered, hlive⟩ hrenewed he
      exact ⟨registered_step hregistered hrenewed he, live_step hregistered hlive hrenewed he⟩
    · intro key channel hchannel
      simp at hchannel
    · intro o ho
      cases ho
    · intro late hlate
      cases hlate
  exact hkept.imp _ fun t h => h.2

/-- A notification about the room `r`. Kind: D -/
def notice (type peerId : String) (peers : List String) : Json :=
  .obj [(str "type", .str (str type)), (str "room", .str (str "r")),
    (str "peerId", .str (str peerId)), (str "peers", .arr (peers.map fun peer => .str (str peer)))]

/-- Steps of the worker that go well. Kind: D -/
def works (n : ℕ) : List Event := List.replicate n (.client (.worker {}))

/-- The client `a` of the room `r`, with no files to offer. Kind: D -/
def inRoomR : Config := ⟨str "a", some (str "r"), [], some []⟩

/-- The client joins its room, with `b` in it, offers `b` a file that is accepted, and waits.
Kind: D -/
def firstOffer : List Event :=
  works 1 ++ [.client .messageOpen] ++ works 2 ++
    [.client (.join (notice "peer_joined" "a" ["a", "b"])), .client .callback] ++ works 4 ++
    [.client (.queueFile ⟨str "b", str "r", str "x"⟩)] ++ works 16 ++
    [.client (.fileAccept (some [])), .client .callback] ++ works 2

/-- The peer leaves for good, and its channel closes. Kind: D -/
def departure : List Event :=
  [.client (.leave (notice "peer_left" "b" ["a"])), .channelClosed 0]

/-- A file is offered to a peer that leaves afterwards. Kind: L -/
theorem live_until_departure :
    Runs.Always (step inRoomR) Live {} (firstOffer ++ departure) :=
  live_of_renewed inRoomR (firstOffer ++ departure) (by decide)

/-- The peer comes back, and another file is queued for it. Kind: D -/
def returnOfPeer : List Event :=
  [.client (.join (notice "peer_joined" "b" ["a", "b"])), .client .callback,
    .client (.queueFile ⟨str "b", str "r", str "y"⟩)] ++ works 8

/-- A step while the signalling connection stays up. Kind: D -/
def stepUp (cfg : Config) (t : Contacts) : Event → Option Contacts
  | .client .messageClose => none
  | e => step cfg t e

/-- The file for the peer that came back is offered on the channel that closed when it left.
Kind: P -/
theorem stale_channel_after_return : ¬ ∀ cfg es, Runs.Always (stepUp cfg) Live {} es := by
  intro h
  have hany : ((Runs.run (stepUp inRoomR) {} (firstOffer ++ departure ++ returnOfPeer)).any
      fun t => t.offers.any fun o => o.2 ≠ o.1) = true := by decide
  obtain ⟨t, ht, hlive⟩ := (h inRoomR (firstOffer ++ departure ++ returnOfPeer)).at_end _ hany
  obtain ⟨o, ho, hne⟩ := List.any_eq_true.mp ht
  exact of_decide_eq_true hne (hlive.offers o ho)

/-! ## Channels that stay open -/

/-- Whom the offer goes to that the worker is about to remember. Kind: D -/
def registering (c : WebRTCClient) : ClientEvent → Option PeerRoomKey
  | .worker _ =>
    match c.worker with
    | .register spec _ => some (spec.peer, spec.room)
    | _ => none
  | _ => none

/-- No registered channel closes while an offer to its peer is pending, and no offer is remembered
whose channel has closed. Kind: D -/
def heldOpen (t : Contacts) : Event → Bool
  | .channelClosed channel => t.client.outgoing.pendingOffers.toList.all fun entry =>
    t.client.outgoing.dataChannels[entry.2.key]? ≠ some channel
  | .client e => (registering t.client e).all fun key =>
    (t.client.outgoing.dataChannels[key]?).all fun channel => channel ∉ t.closed

/-- The channel of every pending offer is open. Kind: D -/
structure Answerable (t : Contacts) : Prop where
  made : ∀ channel ∈ t.closed, channel < t.client.nextChannel
  stays : ∀ (uuid : Str) (offer : PendingOffer) (channel : Channel),
    t.client.outgoing.pendingOffers[uuid]? = some offer →
      t.client.outgoing.dataChannels[offer.key]? = some channel → channel ∉ t.closed

variable {uuid : Str} {offer : PendingOffer}

/-- An offer that is taken was pending. Kind: L -/
theorem pending_of_taken {s rest : Outgoing} {answered : Option Str}
    (h : s.takePendingOffer answered = some (offer, rest)) :
    ∃ uuid : Str, s.pendingOffers[uuid]? = some offer := by
  unfold Outgoing.takePendingOffer at h
  split at h
  · cases h
  · rename_i uuid
    split at h
    · cases h
    · rename_i found hfound
      obtain ⟨rfl, rfl⟩ := Prod.mk.inj (Option.some.inj h)
      exact ⟨uuid, hfound⟩

/-- Those that are left were pending. Kind: L -/
theorem pending_of_left {s rest : Outgoing} {answered : Option Str} {taken : PendingOffer}
    (h : s.takePendingOffer answered = some (taken, rest))
    (hoffer : rest.pendingOffers[uuid]? = some offer) : s.pendingOffers[uuid]? = some offer := by
  unfold Outgoing.takePendingOffer at h
  split at h
  · cases h
  · rename_i answered
    split at h
    · cases h
    · obtain ⟨rfl, rfl⟩ := Prod.mk.inj (Option.some.inj h)
      dsimp only at hoffer
      rw [getElem?_erase_eq] at hoffer
      split at hoffer
      · cases hoffer
      · exact hoffer

/-- The loop's condition touches no offer. Kind: L -/
theorem outgoing_dispatch (c : WebRTCClient) : c.dispatch.outgoing = c.outgoing := by
  unfold WebRTCClient.dispatch
  split
  all_goals try rfl
  split
  · rfl
  · rfl

/-- Neither does the next room of `JoinRooms`. Kind: L -/
theorem outgoing_joinNext (room : Str) (rest : List Str) (task : Task) (c : WebRTCClient) :
    (joinNext cfg a room rest task c).outgoing = c.outgoing := by
  unfold joinNext
  repeat' split
  all_goals rfl

/-- An offer that is pending after a step of the worker was so before, or is the one that the worker
was about to remember. Kind: L -/
theorem pending_of_workerStep (h : workerStep cfg a c = some c')
    (hoffer : c'.outgoing.pendingOffers[uuid]? = some offer) :
    c.outgoing.pendingOffers[uuid]? = some offer ∨ registering c (.worker a) = some offer.key := by
  cases workerStep_cases h with
  | dispatch =>
      rw [outgoing_dispatch] at hoffer
      exact .inl hoffer
  | join locked room rest task =>
      rw [outgoing_joinNext] at hoffer
      exact .inl hoffer
  | register spec batch hfresh hplace =>
      change (c.outgoing.pendingOffers.insert a.uuid ⟨(spec.peer, spec.room), spec.path⟩)[uuid]? =
        some offer at hoffer
      rw [getElem?_insert_eq] at hoffer
      split at hoffer
      · rw [← Option.some.inj hoffer]
        simp only [registering, hplace, or_true]
      · exact .inl hoffer
  | withdraw withdrawn batch =>
      change (c.outgoing.pendingOffers.erase withdrawn)[uuid]? = some offer at hoffer
      rw [getElem?_erase_eq] at hoffer
      split at hoffer
      · cases hoffer
      · exact .inl hoffer
  | _ => exact .inl hoffer

/-- **An offer that is pending after a step** was so before, or is the one that the worker was about
to remember. Kind: P -/
theorem pending_of_step {e : ClientEvent} (h : WebRTCClient.step cfg c e = some c')
    (hoffer : c'.outgoing.pendingOffers[uuid]? = some offer) :
    c.outgoing.pendingOffers[uuid]? = some offer ∨ registering c e = some offer.key := by
  cases step_cases h with
  | worker a _ hgoes => exact pending_of_workerStep hgoes hoffer
  | accept answered taken rest _ htaken =>
      dsimp only at hoffer
      unfold Outgoing.onFileAccept at hoffer
      rw [htaken] at hoffer
      dsimp only at hoffer
      split at hoffer
      · exact .inl (pending_of_left htaken hoffer)
      · exact .inl (pending_of_left htaken hoffer)
  | reject answered taken rest _ htaken =>
      dsimp only at hoffer
      unfold Outgoing.onFileReject at hoffer
      rw [htaken] at hoffer
      exact .inl (pending_of_left htaken hoffer)
  | _ => exact .inl hoffer

/-- **A channel that is registered after a step** was so before, or is a new one. Kind: P -/
theorem registered_of_step {e : ClientEvent} (h : WebRTCClient.step cfg c e = some c') :
    c.nextChannel ≤ c'.nextChannel ∧ ∀ (key : PeerRoomKey) (channel : Channel),
      c'.outgoing.dataChannels[key]? = some channel →
        c.outgoing.dataChannels[key]? = some channel ∨ channel = c.nextChannel := by
  by_cases hworker : ∃ a, e = .worker a
  · obtain ⟨a, rfl⟩ := hworker
    obtain ⟨-, ⟨key', task, -, -, hchannels, hnext⟩ | ⟨-, hnext, hshrinks⟩⟩ := workerStep_tables h
    · refine ⟨hnext ▸ Nat.le_succ _, fun key channel hchannel => ?_⟩
      rw [hchannels, getElem?_insert_eq] at hchannel
      split at hchannel
      · exact .inr (Option.some.inj hchannel).symm
      · exact .inl hchannel
    · exact ⟨hnext.ge, fun key channel hchannel => .inl (hshrinks key channel hchannel)⟩
  · obtain ⟨-, hnext, hshrinks⟩ := step_tables (fun a ha => hworker ⟨a, ha⟩) h
    exact ⟨hnext.ge, fun key channel hchannel => .inl (hshrinks key channel hchannel)⟩

/-- The channel of an accepted offer is open. Kind: L -/
theorem open_of_acceptedOn {e : ClientEvent} {channel : Channel} (h : Answerable t)
    (haccepted : acceptedOn t.client e = some channel) : channel ∉ t.closed := by
  unfold acceptedOn at haccepted
  split at haccepted
  · obtain ⟨⟨offer, rest⟩, htaken, hchannel⟩ := Option.bind_eq_some_iff.mp haccepted
    obtain ⟨uuid, hpending⟩ := pending_of_taken htaken
    exact h.stays uuid offer channel hpending hchannel
  · cases haccepted

/-- **A step keeps the channels of pending offers open** that closes none of them and remembers no
offer whose channel has closed. Kind: P -/
theorem answerable_step {e : Event} (h : Answerable t) (hopen : heldOpen t e = true)
    (he : step cfg t e = some t') : Answerable t' := by
  cases e with
  | channelClosed channel =>
      simp only [step] at he
      split at he
      · rename_i hmade
        obtain rfl := Option.some.inj he
        simp only [heldOpen, List.all_eq_true, decide_eq_true_eq] at hopen
        refine ⟨fun channel' hclosed => ?_, fun uuid offer channel' hoffer hchannel => ?_⟩
        · obtain rfl | hclosed := List.mem_cons.mp hclosed
          · exact hmade
          · exact h.made channel' hclosed
        · rw [List.mem_cons, not_or]
          refine ⟨?_, h.stays uuid offer channel' hoffer hchannel⟩
          rintro rfl
          exact hopen (uuid, offer) (Std.ExtTreeMap.mem_toList_iff_getElem?_eq_some.mpr hoffer) hchannel
      · cases he
  | client e =>
      obtain ⟨c, hc, rfl⟩ := Option.map_eq_some_iff.mp he
      simp only [heldOpen] at hopen
      obtain ⟨hnext, hregistered⟩ := registered_of_step hc
      refine ⟨fun channel hclosed => (h.made channel hclosed).trans_le hnext,
        fun uuid offer channel hoffer hchannel hclosed => ?_⟩
      obtain hbefore | rfl := hregistered offer.key channel hchannel
      · obtain hpending | hnew := pending_of_step hc hoffer
        · exact h.stays uuid offer channel hpending hbefore hclosed
        · rw [hnew, Option.all_some, hbefore, Option.all_some, decide_eq_true_eq] at hopen
          exact hopen hclosed
      · exact (h.made _ hclosed).false

/-- At first no channel has closed. Kind: L -/
theorem answerable_init : Answerable {} where
  made := nofun
  stays := by
    intro uuid offer channel hoffer
    simp at hoffer

/-- No path is put on the queue of a closed channel while the channels of pending offers are open.
Kind: L -/
theorem queued_step {e : Event} (h : Answerable t) (hlate : ∀ late ∈ t.late, late = false)
    (he : step cfg t e = some t') : ∀ late ∈ t'.late, late = false := by
  cases e with
  | channelClosed channel =>
      simp only [step] at he
      split at he
      · obtain rfl := Option.some.inj he
        exact hlate
      · cases he
  | client e =>
      obtain ⟨c, -, rfl⟩ := Option.map_eq_some_iff.mp he
      intro late hmem
      obtain hmem | hmem := List.mem_append.mp hmem
      · exact hlate late hmem
      · rw [Option.mem_toList, Option.map_eq_some_iff] at hmem
        obtain ⟨channel, haccepted, rfl⟩ := hmem
        exact decide_eq_false (open_of_acceptedOn h haccepted)

/-- **No path is put on the queue of a closed channel** in a run in which no registered channel closes
while an offer to its peer is pending, and no offer is made whose channel has closed. Kind: P -/
theorem queued_of_heldOpen (cfg : Config) (es : List Event)
    (hmeets : Runs.Meets (step cfg) (fun t e => heldOpen t e = true) {} es) :
    Runs.Always (step cfg) (fun t => ∀ late ∈ t.late, late = false) {} es := by
  have hkept : Runs.Always (step cfg) (fun t => Answerable t ∧ ∀ late ∈ t.late, late = false) {} es := by
    refine Runs.always_of_meets _ ?_ ⟨answerable_init, nofun⟩ hmeets
    rintro t e t' ⟨hanswerable, hlate⟩ hopen he
    exact ⟨answerable_step hanswerable hopen he, queued_step hanswerable hlate he⟩
  exact hkept.imp _ fun t h => h.2

end Contacts

end CloudNode
