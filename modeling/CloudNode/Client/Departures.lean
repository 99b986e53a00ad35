import CloudNode.Client.Contacts
import CloudNode.Client.Lifecycle
import CloudNode.Client.Requests

/-!
# Peers that leave without an answer

In `CLIENT_WAIT_FOR_FILE_ACCEPT` the worker waits, without a timeout, until a response to one of
the pending offers is handled. `OnLeave` updates the roster and nothing else: an offer to a peer
that is gone stays pending, and the worker stays where it is.

* `Steady` — the invariant: where the state says that a response is expected, a peer that is still
  there has one of the pending offers; and the peer of the file that `OfferFiles` is at is there.
* `attended_of_stays` — in the runs in which no notification takes away the last such peer, nor the
  one that `OfferFiles` is at, the worker never waits on departed peers alone.
-/

namespace CloudNode

/-- For whom the file is that a task is about. Kind: D -/
def Task.addressee : Task → Option PeerRoomKey
  | .session => none
  | .offers spec _ => some (spec.peer, spec.room)

/-- For whom the file is that `OfferFiles` is at, from the moment it has seen the peer until the
offer is remembered. Kind: D -/
def Pc.addressee : Pc → Option PeerRoomKey
  | .findChannel _ task | .makeChannel _ task | .announceChannel _ _ task => task.addressee
  | .inspect spec _ | .lookUp spec _ | .expect spec _ | .register spec _ =>
    some (spec.peer, spec.room)
  | _ => none

/-- `SendFileOffer` is between an assignment to the state and what the assignment is about.
Kind: D -/
def Pc.settling : Pc → Bool
  | .register _ _ | .resume _ => true
  | _ => false

namespace WebRTCClient

/-- A peer that is still in the offer's room has one of the pending offers. Kind: D -/
def awaited (t : WebRTCClient) : Bool :=
  t.outgoing.pendingOffers.toList.any fun entry => present t.rooms entry.2.key

/-- The worker is blocked until a response comes. Kind: D -/
def Blocked (t : WebRTCClient) : Prop :=
  t.worker = .awaitResponse ∧ t.clientState = .waitForFileAccept

/-- The state says that a response is expected, and none is being handled. Kind: D -/
def expecting (t : WebRTCClient) : Bool :=
  t.clientState = .waitForFileAccept && t.callback ≠ .responding && !t.worker.settling

/-- A notification takes a peer from its room. Kind: D -/
def drops (key : PeerRoomKey) : ClientEvent → Bool
  | .join doc =>
    match Client.subjectOf doc, Client.rosterOf doc with
    | some (room, _), some peers => room = key.2 && key.1 ∉ peers
    | _, _ => false
  | .leave doc =>
    match Client.subjectOf doc, Client.rosterOf doc with
    | some (room, _), some peers => room = key.2 && key.1 ∉ peers
    | some (room, peer), none => room = key.2 && peer = key.1
    | none, _ => false
  | _ => false

/-- What keeps somebody there to answer: a notification takes neither the peer that `OfferFiles`
is at nor, where a response is expected, the last one with a pending offer; no acceptance uses up
the last such offer without a channel to send the file on; and `OnMessageClose` forgets the rosters
while no response is expected and no file is being offered. Kind: D -/
def stays (t : WebRTCClient) : ClientEvent → Bool
  | .join doc =>
    (t.worker.addressee.all fun key => !drops key (.join doc)) &&
    (!t.expecting || t.outgoing.pendingOffers.toList.any fun entry =>
      present t.rooms entry.2.key && !drops entry.2.key (.join doc))
  | .leave doc =>
    (t.worker.addressee.all fun key => !drops key (.leave doc)) &&
    (!t.expecting || t.outgoing.pendingOffers.toList.any fun entry =>
      present t.rooms entry.2.key && !drops entry.2.key (.leave doc))
  | .fileAccept uuid =>
    match t.outgoing.takePendingOffer uuid with
    | none => true
    | some (offer, rest) => !t.expecting || (t.outgoing.dataChannels[offer.key]?).isSome ||
        rest.pendingOffers.toList.any fun entry => present t.rooms entry.2.key
  | .callback => t.callback ≠ .clearing || (!t.expecting && t.worker.addressee.isNone)
  | _ => true

/-- The invariant of the runs that keep somebody there. Kind: D -/
structure Steady (t : WebRTCClient) : Prop where
  expecting : t.expecting = true → t.awaited = true
  addressee : ∀ key, t.worker.addressee = some key → present t.rooms key = true

variable {cfg : Config} {a : Answers} {t t' : WebRTCClient} {key : PeerRoomKey}

/-! ## Rosters -/

/-- A peer is present when it is among the room's members. Kind: L -/
theorem present_iff {rooms : Rooms} : present rooms key = true ↔ key.1 ∈ rooms.members key.2 := by
  unfold present WebRTC.getPeers Rooms.members
  rw [List.contains_iff_mem]
  cases rooms[key.2]? with
  | none => simp
  | some peers => simp

/-- A peer that a `peer_joined` does not drop is still there. Kind: L -/
theorem present_of_onJoin {doc : Json} {rooms : Rooms} {out : Rooms × Option (Str × Str)}
    (h : Client.onJoin doc rooms = .ok out) (hpresent : present rooms key = true)
    (hdrops : drops key (.join doc) = false) : present out.1 key = true := by
  obtain rfl | ⟨room, peer, peers, hsubject, hroster, rfl⟩ := Client.onJoin_cases h
  · exact hpresent
  · simp only [drops, hsubject, hroster] at hdrops
    rw [present_iff] at hpresent ⊢
    unfold WebRTC.updatePeers
    rw [Rooms.members_insert]
    split
    · rename_i hroom
      simpa [hroom] using hdrops
    · exact hpresent

/-- A peer that a `peer_left` does not drop is still there. Kind: L -/
theorem present_of_onLeave {doc : Json} {rooms rooms' : Rooms}
    (h : Client.onLeave doc rooms = .ok rooms') (hpresent : present rooms key = true)
    (hdrops : drops key (.leave doc) = false) : present rooms' key = true := by
  rw [present_iff] at hpresent ⊢
  obtain rfl | ⟨room, peer, hsubject, ⟨hroster, rfl⟩ | ⟨peers, hroster, rfl⟩⟩ :=
    Client.onLeave_cases h
  · exact hpresent
  · simp only [drops, hsubject, hroster] at hdrops
    rw [WebRTC.mem_members_leave]
    refine ⟨hpresent, ?_⟩
    rintro ⟨hroom, hpeer⟩
    simp [hroom, hpeer] at hdrops
  · simp only [drops, hsubject, hroster] at hdrops
    unfold WebRTC.updatePeers
    rw [Rooms.members_insert]
    split
    · rename_i hroom
      simpa [hroom] using hdrops
    · rw [WebRTC.mem_members_leave]
      exact ⟨hpresent, fun hgone => ‹¬ room = key.2› hgone.1⟩

/-! ## The worker -/

/-- The head of `OfferFiles`' loop is at no file. Kind: L -/
@[simp] theorem addressee_offerNext (batch : Batch) : (offerNext batch).addressee = none :=
  offerNext_elim (motive := fun p => p.addressee = none) rfl (fun _ _ => rfl) batch

/-- With the rooms joined, the file's peer has not been seen yet. Kind: L -/
@[simp] theorem addressee_afterJoin (task : Task) : (afterJoin cfg task).addressee = none :=
  afterJoin_elim (motive := fun p => p.addressee = none) rfl (fun _ _ => rfl) rfl (fun _ _ => rfl) task

/-- With a channel, the file stays the same. Kind: L -/
@[simp] theorem addressee_afterChannel (task : Task) :
    (afterChannel cfg task).addressee = task.addressee := by
  cases task with
  | session => exact addressee_offerNext _
  | offers spec batch => rfl

/-- What a step of the worker leaves of callback and offers: it is at no new file unless it sees
the file's peer, and it remembers an offer, withdraws one, or leaves the table alone. Kind: D -/
structure Offers (a : Answers) (t t' : WebRTCClient) : Prop where
  callback : t'.callback = t.callback
  addressee : ∀ key, t'.worker.addressee = some key →
    t.worker.addressee = some key ∨ present t.rooms key = true
  pending : t'.outgoing.pendingOffers = t.outgoing.pendingOffers ∨
    (∃ spec batch, t.worker = .register spec batch ∧ t'.outgoing.pendingOffers =
      t.outgoing.pendingOffers.insert a.uuid ⟨(spec.peer, spec.room), spec.path⟩) ∨
    t'.worker.settling = true
  settling : t.worker.settling = true → t.clientState = .waitForFileAccept →
    t'.clientState = .waitForFileAccept → ∃ spec batch, t.worker = .register spec batch ∧
      t'.outgoing.pendingOffers =
        t.outgoing.pendingOffers.insert a.uuid ⟨(spec.peer, spec.room), spec.path⟩

/-- A step that remembers and withdraws nothing. Kind: L -/
theorem offers_of_same (hcallback : t'.callback = t.callback)
    (hpending : t'.outgoing.pendingOffers = t.outgoing.pendingOffers)
    (haddressee : t'.worker.addressee = none ∨ t'.worker.addressee = t.worker.addressee)
    (hsettling : t.worker.settling = false) : Offers a t t' := by
  refine ⟨hcallback, fun key hkey => ?_, .inl hpending, fun h => ?_⟩
  · rcases haddressee with hnone | hsame
    · simp [hnone] at hkey
    · exact .inl (hsame ▸ hkey)
  · simp [hsettling] at h

/-- At the loop's condition no offer is touched. Kind: L -/
theorem offers_dispatch (hworker : t.worker = .top) : Offers a t t.dispatch := by
  have hsettling : t.worker.settling = false := by
    rw [hworker]
    rfl
  unfold dispatch
  split
  all_goals try exact offers_of_same rfl rfl (.inl rfl) hsettling
  split
  · exact offers_of_same rfl rfl (.inl rfl) hsettling
  · exact offers_of_same rfl rfl (.inl (addressee_offerNext _)) hsettling

/-- **What a step of the worker does to the offers.** Kind: P -/
theorem offers_workerStep (h : workerStep cfg a t = some t') : Offers a t t' := by
  cases workerStep_cases h with
  | dispatch hworker => exact offers_dispatch hworker
  | joined locked task hworker =>
      exact offers_of_same rfl rfl (.inl (addressee_afterJoin task)) (by rw [hworker]; rfl)
  | join locked room rest task hworker =>
      have hsettling : t.worker.settling = false := by
        rw [hworker]
        rfl
      unfold joinNext
      repeat' split
      all_goals exact offers_of_same rfl rfl (.inl rfl) hsettling
  | channelFound key task hfound hworker =>
      refine offers_of_same rfl rfl (.inr ?_) (by rw [hworker]; rfl)
      rw [hworker]
      exact addressee_afterChannel task
  | announced key channel task hsent hworker =>
      refine offers_of_same rfl rfl (.inr ?_) (by rw [hworker]; rfl)
      rw [hworker]
      exact addressee_afterChannel task
  | peerPresent spec batch hstopped hpresent hworker =>
      refine ⟨rfl, fun key hkey => .inr ?_, .inl rfl, by simp [hworker, Pc.settling]⟩
      rw [← Option.some.inj hkey]
      exact hpresent
  | register spec batch hfresh hworker =>
      refine ⟨rfl, by simp [Pc.addressee], .inr (.inl ⟨spec, batch, hworker, rfl⟩), fun _ _ _ => ?_⟩
      exact ⟨spec, batch, hworker, rfl⟩
  | withdraw uuid batch hworker =>
      exact ⟨rfl, by simp [Pc.addressee], .inr (.inr rfl), by simp [hworker, Pc.settling]⟩
  | resume batch hworker => exact ⟨rfl, by simp [Pc.addressee], .inl rfl, by simp⟩
  | offerNext batch hstopped hworker =>
      exact offers_of_same rfl rfl (.inl (addressee_offerNext _)) (by rw [hworker]; rfl)
  | channelMissing | described | inspected | lookedUp | expect =>
      -- the file stays that of the worker
      rename_i hworker
      exact offers_of_same rfl rfl (.inr (by rw [hworker]; rfl)) (by rw [hworker]; rfl)
  | _ =>
      -- outside of `OfferFiles` there is no file
      rename_i hworker
      exact offers_of_same rfl rfl (.inl rfl) (by rw [hworker]; rfl)

/-- Only `SendFileOffer` begins to expect a response. Kind: L -/
theorem waitForFileAccept_of_workerStep (h : workerStep cfg a t = some t')
    (hstate : t'.clientState = .waitForFileAccept) (hsettling : t'.worker.settling = false) :
    t.clientState = .waitForFileAccept := by
  cases workerStep_cases h with
  | dispatch =>
      rw [dispatch_clientState] at hstate
      split at hstate
      · cases hstate
      · exact hstate
  | join locked room rest task =>
      rw [joinNext_clientState] at hstate
      split at hstate
      · exact hstate
      · cases hsent : a.sent with
        | true => simp [hsent] at hstate
        | false => simp [hsent] at hstate
  | channelFailed | returned =>
      dsimp only at hstate
      split at hstate
      · exact hstate
      · cases hstate
  | pinged =>
      dsimp only at hstate
      split at hstate
      · cases hstate
      · exact hstate
  | expect => simp [Pc.settling] at hsettling
  | malformed | joinExpired | peerExpired | resume | quiet | pongExpired => cases hstate
  | _ => exact hstate

/-- A remembered offer to a peer that is there is waited for. Kind: L -/
theorem awaited_of_mem {uuid : Str} {offer : PendingOffer}
    (hoffer : t.outgoing.pendingOffers[uuid]? = some offer)
    (hpresent : present t.rooms offer.key = true) : t.awaited = true :=
  List.any_eq_true.mpr
    ⟨(uuid, offer), Std.ExtTreeMap.mem_toList_iff_getElem?_eq_some.mpr hoffer, hpresent⟩

/-- **The worker's steps keep somebody there to answer.** Kind: P -/
theorem steady_workerStep (hsteady : Steady t) (h : workerStep cfg a t = some t') : Steady t' := by
  have hrooms : t'.rooms = t.rooms := (Contacts.workerStep_tables h).1
  have hoffers := offers_workerStep h
  constructor
  · intro hexpecting
    simp only [expecting, Bool.and_eq_true, decide_eq_true_eq, Bool.not_eq_true'] at hexpecting
    obtain ⟨⟨hstate', hcallback⟩, hsettling'⟩ := hexpecting
    have hstate := waitForFileAccept_of_workerStep h hstate' hsettling'
    rw [hoffers.callback] at hcallback
    -- the new offer is one to a peer that is there
    have hregister : ∀ spec batch, t.worker = .register spec batch →
        t'.outgoing.pendingOffers =
          t.outgoing.pendingOffers.insert a.uuid ⟨(spec.peer, spec.room), spec.path⟩ →
        t'.awaited = true := by
      intro spec batch hworker hpending
      apply @awaited_of_mem t' a.uuid ⟨(spec.peer, spec.room), spec.path⟩
      · rw [hpending, getElem?_insert_same]
      · rw [hrooms]
        apply hsteady.addressee
        rw [hworker]
        rfl
    by_cases hsettling : t.worker.settling = true
    · obtain ⟨spec, batch, hworker, hpending⟩ := hoffers.settling hsettling hstate hstate'
      exact hregister spec batch hworker hpending
    · rcases hoffers.pending with hsame | ⟨spec, batch, hworker, hpending⟩ | hsettles
      · unfold awaited
        rw [hsame, hrooms]
        exact hsteady.expecting (by simp [expecting, hstate, hcallback, hsettling])
      · exact hregister spec batch hworker hpending
      · rw [hsettling'] at hsettles
        simp at hsettles
  · intro key hkey
    rw [hrooms]
    rcases hoffers.addressee key hkey with hbefore | hpresent
    · exact hsteady.addressee key hbefore
    · exact hpresent

/-! ## The other threads -/

/-- A step that leaves rosters, offers and worker alone, and expects nothing new. Kind: L -/
theorem steady_of_same (hsteady : Steady t) (hrooms : t'.rooms = t.rooms)
    (hpending : t'.outgoing.pendingOffers = t.outgoing.pendingOffers)
    (hworker : t'.worker = t.worker) (hexpecting : t'.expecting = true → t.expecting = true) :
    Steady t' := by
  constructor
  · intro h
    unfold awaited
    rw [hrooms, hpending]
    exact hsteady.expecting (hexpecting h)
  · intro key hkey
    rw [hworker] at hkey
    rw [hrooms]
    exact hsteady.addressee key hkey

/-- New rosters that keep the peers somebody waits for. Kind: L -/
theorem steady_of_rooms (hsteady : Steady t) {e : ClientEvent}
    (haddressee : t.worker.addressee.all (fun key => !drops key e) = true)
    (hstays : (!t.expecting || t.outgoing.pendingOffers.toList.any fun entry =>
      present t.rooms entry.2.key && !drops entry.2.key e) = true)
    (hpresent : ∀ key, present t.rooms key = true → drops key e = false →
      present t'.rooms key = true)
    (hpending : t'.outgoing.pendingOffers = t.outgoing.pendingOffers)
    (hworker : t'.worker = t.worker) (hexpecting : t'.expecting = true → t.expecting = true) :
    Steady t' := by
  constructor
  · intro h
    rw [hexpecting h, Bool.not_true, Bool.false_or] at hstays
    obtain ⟨entry, hentry, hkept⟩ := List.any_eq_true.mp hstays
    rw [Bool.and_eq_true, Bool.not_eq_true'] at hkept
    unfold awaited
    rw [hpending]
    exact List.any_eq_true.mpr ⟨entry, hentry, hpresent _ hkept.1 hkept.2⟩
  · intro key hkey
    rw [hworker] at hkey
    rw [hkey, Option.all_some, Bool.not_eq_true'] at haddressee
    exact hpresent key (hsteady.addressee key hkey) haddressee

/-- An offer that is taken leaves the channels. Kind: L -/
theorem dataChannels_of_taken {s rest : Outgoing} {uuid : Option Str} {offer : PendingOffer}
    (htaken : s.takePendingOffer uuid = some (offer, rest)) : rest.dataChannels = s.dataChannels := by
  unfold Outgoing.takePendingOffer at htaken
  repeat' split at htaken
  all_goals cases htaken
  rfl

/-- A response that leaves somebody there to answer. Kind: L -/
theorem steady_accept {uuid : Option Str} {offer : PendingOffer} {rest : Outgoing}
    (hsteady : Steady t) (hidle : t.callback = .idle) (hstays : stays t (.fileAccept uuid) = true)
    (htaken : t.outgoing.takePendingOffer uuid = some (offer, rest)) :
    Steady { t with
      outgoing := t.outgoing.onFileAccept uuid
      callback := if (t.outgoing.dataChannels[offer.key]?).isSome then .responding else .idle } := by
  refine ⟨fun hexpecting => ?_, hsteady.addressee⟩
  cases hchannel : t.outgoing.dataChannels[offer.key]? with
  | some channel => simp [expecting, hchannel] at hexpecting
  | none =>
      have hbefore : t.expecting = true := by
        simpa [expecting, hchannel, hidle] using hexpecting
      simp only [stays, htaken, hbefore, hchannel, Bool.not_true, Option.isSome_none,
        Bool.false_or] at hstays
      unfold awaited Outgoing.onFileAccept
      simp only [htaken, dataChannels_of_taken htaken, hchannel]
      exact hstays

/-- A close that leaves somebody there to answer. Kind: L -/
theorem steady_cleared (hstays : stays t .callback = true) (hcallback : t.callback = .clearing) :
    Steady { t with
      outgoing := { t.outgoing with dataChannels := ∅ }
      rooms := WebRTC.clearRooms t.rooms
      callback := .idle } := by
  simp only [stays, hcallback, ne_eq, not_true_eq_false, decide_false, Bool.false_or,
    Bool.and_eq_true, Bool.not_eq_true'] at hstays
  constructor
  · intro hexpecting
    have hbefore : t.expecting = true := by simpa [expecting, hcallback] using hexpecting
    simp [hstays.1] at hbefore
  · intro key hkey
    simp [hkey] at hstays

/-- **A step that leaves somebody there to answer keeps the invariant.** Kind: P -/
theorem steady_step {e : ClientEvent} (hsteady : Steady t) (hstays : stays t e = true)
    (h : step cfg t e = some t') : Steady t' := by
  cases step_cases h with
  | worker a t' hgoes => exact steady_workerStep hsteady hgoes
  | cleared hcallback => exact steady_cleared hstays hcallback
  | joinIgnored doc rooms _ hjoin =>
      simp only [stays, Bool.and_eq_true] at hstays
      exact steady_of_rooms hsteady hstays.1 hstays.2 (fun key => present_of_onJoin hjoin) rfl rfl
        fun h => h
  | join doc rooms room peer hidle hjoin =>
      simp only [stays, Bool.and_eq_true] at hstays
      refine steady_of_rooms hsteady hstays.1 hstays.2 (fun key => present_of_onJoin hjoin) rfl rfl
        fun h => ?_
      simpa [expecting, hidle] using h
  | leave doc rooms _ hleave =>
      simp only [stays, Bool.and_eq_true] at hstays
      exact steady_of_rooms hsteady hstays.1 hstays.2 (fun key => present_of_onLeave hleave) rfl rfl
        fun h => h
  | acceptUnknown | rejectUnknown => exact hsteady
  | accept uuid offer rest hidle htaken => exact steady_accept hsteady hidle hstays htaken
  | reject uuid =>
      refine ⟨fun hexpecting => ?_, hsteady.addressee⟩
      simp [expecting] at hexpecting
  | confirmed _ _ _ hcallback | responded _ hcallback =>
      refine steady_of_same hsteady rfl rfl rfl fun h => ?_
      unfold expecting at h ⊢
      split at h
      · simp at h
      · simp_all
  | pong =>
      refine steady_of_same hsteady rfl rfl rfl fun h => ?_
      unfold expecting at h ⊢
      split at h
      · simp at h
      · exact h
  | _ =>
      -- the others do not begin to expect a response
      refine steady_of_same hsteady rfl rfl rfl fun h => ?_
      simp_all [expecting]

end WebRTCClient

/-! ## Runs -/

/-- A client and the messages that the server has sent it and that have not been handled.
Kind: D -/
structure Link where
  client : WebRTCClient := {}
  inFlight : List ClientEvent := []

namespace Link

open WebRTCClient

/-- The event is the arrival of a message. Kind: D -/
def isMessage : ClientEvent → Bool
  | .join _ | .leave _ | .fileAccept _ | .fileReject _ | .pong => true
  | _ => false

/-- What can happen: the server sends a message, the next message arrives, or the client takes a
step that is no arrival. Kind: D -/
inductive Event where
  | sends (m : ClientEvent)
  | delivers
  | client (e : ClientEvent)

variable (cfg : Config)

/-- A step. Messages arrive in the order in which they were sent. Kind: D -/
def step (t : Link) : Event → Option Link
  | .sends m => if isMessage m then some { t with inFlight := t.inFlight ++ [m] } else none
  | .delivers =>
    match t.inFlight with
    | [] => none
    | m :: rest => (t.client.step cfg m).map fun c => ⟨c, rest⟩
  | .client e =>
    if isMessage e then none else (t.client.step cfg e).map fun c => ⟨c, t.inFlight⟩

/-- Where the worker is blocked and no message is on its way or being handled, there is somebody to
answer. Kind: D -/
def Attended (t : Link) : Prop :=
  Blocked t.client → t.inFlight = [] → t.client.callback = .idle → t.client.awaited = true

/-- The step leaves somebody there to answer. Kind: D -/
def keeps (t : Link) : Event → Bool
  | .sends _ => true
  | .delivers => t.inFlight.head?.all fun m => stays t.client m
  | .client e => stays t.client e

variable {cfg} {t t' : Link} {e : Event}

/-- A step that leaves somebody there to answer keeps the client's invariant. Kind: L -/
theorem steady_of_step (hsteady : Steady t.client) (hkeeps : keeps t e = true)
    (he : step cfg t e = some t') : Steady t'.client := by
  cases e with
  | sends m =>
      simp only [step] at he
      split at he
      · obtain rfl := Option.some.inj he
        exact hsteady
      · cases he
  | delivers =>
      simp only [step] at he
      split at he
      · cases he
      · rename_i m rest hflight
        obtain ⟨c, hc, rfl⟩ := Option.map_eq_some_iff.mp he
        apply steady_step hsteady _ hc
        simpa [keeps, hflight] using hkeeps
  | client e =>
      simp only [step] at he
      split at he
      · cases he
      · obtain ⟨c, hc, rfl⟩ := Option.map_eq_some_iff.mp he
        exact steady_step hsteady hkeeps hc

/-- With the client's invariant, a blocked worker has somebody to answer it. Kind: L -/
theorem attended_of_steady (hsteady : Steady t.client) : Attended t := by
  rintro ⟨hworker, hstate⟩ - hidle
  apply hsteady.expecting
  simp [expecting, hworker, hstate, hidle, Pc.settling]

/-- **In a run in which no step takes away the last one who could answer, nor the peer whose file
is being offered, the worker never waits on departed peers alone.** Kind: P -/
theorem attended_of_stays (cfg : Config) (es : List Event)
    (hkeeps : Runs.Meets (step cfg) (fun t e => keeps t e = true) {} es) :
    Runs.Always (step cfg) Attended {} es := by
  have hsteady : Runs.Always (step cfg) (fun t => Steady t.client) {} es := by
    apply Runs.always_of_meets _ _ _ hkeeps
    · exact fun t e t' hsteady hkeeps he => steady_of_step hsteady hkeeps he
    · constructor
      · intro hexpecting
        simp [expecting] at hexpecting
      · intro key hkey
        simp [Pc.addressee] at hkey
  exact hsteady.imp _ fun t h => attended_of_steady h

/-- Steps of the worker that go well. Kind: D -/
def works (n : ℕ) : List Event := List.replicate n (.client (.worker {}))

/-- The server's message is sent and handled. Kind: D -/
def told (m : ClientEvent) : List Event := [.sends m, .delivers]

/-- The client joins its room, with `b` in it, and offers `b` a file. Kind: D -/
def offerToB : List Event :=
  works 1 ++ [.client .messageOpen] ++ works 2 ++
    told (.join (Contacts.notice "peer_joined" "a" ["a", "b"])) ++ [.client .callback] ++ works 4 ++
    [.client (.queueFile ⟨str "b", str "r", str "x"⟩)] ++ works 15

/-- Another peer comes and goes, and the file is rejected. Kind: D -/
def rejectByB : List Event :=
  works 1 ++ told (.join (Contacts.notice "peer_joined" "c" ["a", "b", "c"])) ++
    [.client .callback] ++ told (.leave (Contacts.notice "peer_left" "c" ["a", "b"])) ++
    told (.fileReject (some [])) ++ [.client .callback]

/-- The worker waits on a peer that is there, until the answer. Kind: L -/
theorem attended_until_reject :
    (Runs.run (step Contacts.inRoomR) {} (offerToB ++ rejectByB)).isSome = true ∧
      Runs.Always (step Contacts.inRoomR) Attended {} (offerToB ++ rejectByB) :=
  ⟨by decide, attended_of_stays Contacts.inRoomR (offerToB ++ rejectByB) (by decide)⟩

/-- A step while the signalling connection stays up. Kind: D -/
def stepUp (cfg : Config) (t : Link) : Event → Option Link
  | .client .messageClose => none
  | e => step cfg t e

/-- The peer leaves without an answer. Kind: D -/
def departureOfB : List Event :=
  offerToB ++ told (.leave (Contacts.notice "peer_left" "b" ["a"])) ++ works 1

/-- The worker waits on the peer that has left. Kind: P -/
theorem blocked_on_departed : ¬ ∀ cfg es, Runs.Always (stepUp cfg) Attended {} es := by
  intro h
  have hany : ((Runs.run (stepUp Contacts.inRoomR) {} departureOfB).any fun t =>
      (match t.client.worker with | .awaitResponse => true | _ => false) &&
        decide (t.client.clientState = .waitForFileAccept) && t.inFlight.isEmpty &&
        decide (t.client.callback = .idle) && !t.client.awaited) = true := by decide
  obtain ⟨t, ht, hattended⟩ := (h Contacts.inRoomR departureOfB).at_end _ hany
  simp only [Bool.and_eq_true, decide_eq_true_eq, Bool.not_eq_true', List.isEmpty_iff] at ht
  obtain ⟨⟨⟨⟨hworker, hstate⟩, hflight⟩, hidle⟩, hnobody⟩ := ht
  have hblocked : Blocked t.client := by
    refine ⟨?_, hstate⟩
    split at hworker
    · assumption
    · simp at hworker
  rw [hattended hblocked hflight hidle] at hnobody
  simp at hnobody

end Link

end CloudNode
