import CloudNode.Client.Rosters
import CloudNode.Transfer.Outgoing

/-!
# The client's worker and its callbacks

The worker thread runs `StartClient`: it opens a session (joins rooms, connects a peer, offers the
files of the command line), then offers queued files and pings. The other threads are the
transport's, whose callbacks report opens, closes and messages, the data channels', and whoever
calls `QueueFile` or `Stop`. They meet in the lifecycle state under `m_clientStateMutex` and in the
tables, each under a mutex of its own.

A step is what a thread does between two of these critical sections. `Pc` is where the worker is;
where it keeps `m_clientStateMutex` from one step to the next (`Pc.locked`), no other thread enters
a section under that mutex. What the network, the clock and the file system answer is part of the
event.

* `workerStep`, `step` — a step of the worker, and of any of the threads.
* `workerStep_cases`, `step_cases` — what each of them can be, condition by condition.
-/

namespace CloudNode

/-- Source: `WebRTCClient.hpp`, `ClientState`. Kind: D -/
inductive ClientState where
  | init
  | waitingForJoin
  | joined
  | run
  | ping
  | waitForPong
  | waitForFileAccept
  | exit
  deriving DecidableEq

/-- A file for a peer in a room. Source: `WebRTCClient.hpp`, `FileSpec`. Kind: D -/
structure FileSpec where
  peer : Str
  room : Str
  path : Str
  deriving DecidableEq

/-- What an `OfferFiles` call has still to go through behind the file it is at, and whether it took
its files from `m_queuedFiles` (and not from `--file`). Kind: D -/
structure Batch where
  queued : Bool
  left : List FileSpec

/-- On whose behalf `JoinRooms` or `MakeDataChannel` runs: the session's, or that of a file that
`OfferFiles` is at. Kind: D -/
inductive Task where
  | session
  | offers (spec : FileSpec) (batch : Batch)

/-- Where the worker is. Source: `WebRTCClient.cpp`, the functions named. Kind: D -/
inductive Pc where
  /-- `StartClient`: at the loop's condition. -/
  | top
  /-- `StartClient`, `CLIENT_INIT`: waiting for the transport. -/
  | awaitTransport
  /-- `JoinRooms`: at the next room, having waited for one (`locked`) or just called. -/
  | joining (locked : Bool) (rooms : List Str) (task : Task)
  /-- `JoinRooms`: waiting for a confirmation, with the rooms behind. -/
  | awaitJoin (rooms : List Str) (task : Task)
  /-- `ConnectPeer`: waiting for the peer. -/
  | connectPeer
  /-- `ConnectPeer` and `OfferFiles`: before `m_dataChannels.count(..)`. -/
  | findChannel (key : PeerRoomKey) (task : Task)
  /-- `MakeDataChannel`: before the channel is there. -/
  | makeChannel (key : PeerRoomKey) (task : Task)
  /-- `MakeDataChannel`: before its offer is sent. -/
  | announceChannel (key : PeerRoomKey) (channel : Channel) (task : Task)
  /-- `ConnectPeer` and `OfferFiles`: there is no channel. -/
  | channelFailed (task : Task)
  /-- `OfferFiles`: waiting for the peer of the file it is at. -/
  | awaitPeer (spec : FileSpec) (batch : Batch)
  /-- `SendFileOffer`: called; before the file is inspected. -/
  | inspect (spec : FileSpec) (batch : Batch)
  /-- `SendFileOffer`: before `m_dataChannels.find(..)`. -/
  | lookUp (spec : FileSpec) (batch : Batch)
  /-- `SendFileOffer`: before the state becomes `CLIENT_WAIT_FOR_FILE_ACCEPT`. -/
  | expect (spec : FileSpec) (batch : Batch)
  /-- `SendFileOffer`: before the offer is remembered. -/
  | register (spec : FileSpec) (batch : Batch)
  /-- `SendFileOffer`: before the offer is sent. -/
  | sendOffer (uuid : Str) (batch : Batch)
  /-- `SendFileOffer`: before an offer that was not sent is forgotten. -/
  | withdraw (uuid : Str) (batch : Batch)
  /-- `SendFileOffer`: before the state becomes `CLIENT_RUN` again. -/
  | resume (batch : Batch)
  /-- `OfferFiles`: `SendFileOffer` has returned. -/
  | offered (batch : Batch)
  /-- `StartClient`: `JoinRooms`, `ConnectPeer` and `OfferFiles` have returned. -/
  | returned (ok : Bool)
  /-- `StartClient`, `CLIENT_PING`: before the ping is sent. -/
  | sendPing
  /-- `StartClient`, `CLIENT_PING`: after it. -/
  | pinged (sent : Bool)
  /-- `StartClient`, `CLIENT_RUN`: waiting for a file. -/
  | awaitWork
  /-- `StartClient`, `CLIENT_WAIT_FOR_FILE_ACCEPT`. -/
  | awaitResponse
  /-- `StartClient`, `CLIENT_WAIT_FOR_PONG`. -/
  | awaitPong
  /-- `StartClient`: the wait at the end of the loop. -/
  | awaitOther
  | finished

/-- The worker keeps `m_clientStateMutex` until its next step. Kind: D -/
def Pc.locked : Pc → Bool
  | .top => true
  | .joining locked _ _ => locked
  | _ => false

/-- Where the transport's thread is in a callback that enters more than one critical section.
Kind: D -/
inductive Callback where
  | idle
  /-- `OnMessageClose`: the state is reset, the tables are not. -/
  | clearing
  /-- `OnJoin`: the roster is updated, the state is not. -/
  | confirming (room peer : Str)
  /-- `OnFileAccept` and `OnFileReject`: the offer is taken, the state is not updated. -/
  | responding
  deriving DecidableEq

/-- Source: `WebRTCClient.hpp`, `WebRTCClient`, the members that the worker and the callbacks share.
Kind: D -/
structure WebRTCClient where
  clientState : ClientState := .init
  transportOpen : Bool := false
  queuedFiles : List FileSpec := []
  room : Str := []
  rooms : Rooms := ∅
  outgoing : Outgoing := {}
  worker : Pc := .top
  callback : Callback := .idle
  /-- The calls of `QueueFile` that running calls of `QueueFileToAll` have still to make. -/
  calls : List FileSpec := []
  /-- The identity of the next data channel. -/
  nextChannel : Channel := 0
  /-- The uuids of earlier offers. -/
  uuids : List Str := []

/-- What the worker reads of `Properties()`: `--name`, `--room`, `--peer` (empty when it is not
given), and what STEP 1 of the session makes of `--file`, `none` when it is malformed. Kind: D -/
structure Config where
  name : Str
  room : Option Str
  peer : Str
  specs : Option (List FileSpec)

/-- What the world answers to a step of the worker. Kind: D -/
structure Answers where
  /-- `SendMessage` succeeds. -/
  sent : Bool := true
  /-- `MakePeerConnection` and `obtainInitialDescription` succeed. -/
  described : Bool := true
  /-- `SendFileOffer` resolves the path and `get_file_info` succeeds. -/
  inspected : Bool := true
  /-- What `generateUUID` returns. -/
  uuid : Str := []
  /-- The timeout of the wait is over. -/
  expired : Bool := false

/-- What can happen. Kind: D -/
inductive ClientEvent where
  | worker (answers : Answers)
  | messageOpen
  | messageClose
  /-- A `peer_joined` arrives. -/
  | join (doc : Json)
  /-- A `peer_left` arrives. -/
  | leave (doc : Json)
  | fileAccept (uuid : Option Str)
  | fileReject (uuid : Option Str)
  /-- A pong with this client's id arrives. -/
  | pong
  /-- The transport's thread goes on with its callback. -/
  | callback
  /-- A message on an incoming data channel completes a file. -/
  | transferComplete
  | queueFile (spec : FileSpec)
  | queueFileToAll (path : Str)
  /-- One of the running calls of `QueueFileToAll` makes its next call. -/
  | queueNext (i : ℕ)
  | stop

namespace WebRTCClient

variable (cfg : Config)

/-! ## The worker -/

/-- Source: `WebRTCClient.cpp`, the lambda `stopped` of `JoinRooms` and others. Kind: D -/
def stopped (t : WebRTCClient) : Bool := t.clientState = .exit || t.clientState = .init

/-- A peer is in a room as far as the client knows. Source: `WebRTCClient.cpp`, `peerPresent`.
Kind: D -/
def present (rooms : Rooms) (key : PeerRoomKey) : Bool :=
  ((WebRTC.getPeers rooms key.2).getD []).contains key.1

/-- Source: `WebRTCClient.cpp`, `InRoom`. Kind: D -/
def inRoom (t : WebRTCClient) (room : Str) : Bool := present t.rooms (cfg.name, room)

/-- The rooms of a session. Source: `WebRTCClient.cpp`, `StartClient`, STEP 2. Kind: D -/
def sessionRooms (specs : List FileSpec) : List Str :=
  ((cfg.room.toList ++ specs.map FileSpec.room).insertionSort fun a b => (compare a b).isLE).destutter
    (· ≠ ·)

/-- The head of `OfferFiles`' loop. Kind: D -/
def offerNext (batch : Batch) : Pc :=
  match batch.left with
  | [] => .returned true
  | spec :: rest => .joining false [spec.room] (.offers spec { batch with left := rest })

/-- The session's files are offered after the rest of it. Kind: D -/
def offerSession : Pc := offerNext ⟨false, cfg.specs.getD []⟩

/-- `JoinRooms` has succeeded. Kind: D -/
def afterJoin : Task → Pc
  | .session => if cfg.peer = [] then offerSession cfg else .connectPeer
  | .offers spec batch => .awaitPeer spec batch

/-- There is a channel. Kind: D -/
def afterChannel : Task → Pc
  | .session => offerSession cfg
  | .offers spec batch => .inspect spec batch

/-- `StartClient`, at the loop's condition. Source: `WebRTCClient.cpp`, `StartClient`. Kind: D -/
def dispatch (t : WebRTCClient) : WebRTCClient :=
  match t.clientState with
  | .exit => { t with worker := .finished }
  | .init => { t with worker := .awaitTransport }
  | .waitForFileAccept => { t with worker := .awaitResponse }
  | .run =>
    if t.queuedFiles = [] then { t with worker := .awaitWork }
    else { t with queuedFiles := [], worker := offerNext ⟨true, t.queuedFiles⟩ }
  | .ping => { t with clientState := .waitForPong, worker := .sendPing }
  | .waitForPong => { t with worker := .awaitPong }
  | _ => { t with worker := .awaitOther }

/-- The next room of `JoinRooms`. Source: `WebRTCClient.cpp`, `JoinRooms`. Kind: D -/
def joinNext (a : Answers) (room : Str) (rest : List Str) (task : Task) (t : WebRTCClient) :
    WebRTCClient :=
  if t.clientState = .exit then { t with worker := .returned false }
  else if room = [] || t.inRoom cfg room then { t with worker := .joining true rest task }
  else if a.sent then
    { t with room := room, clientState := .waitingForJoin, worker := .awaitJoin rest task }
  else { t with room := room, clientState := .exit, worker := .returned false }

/-- The worker's next step; `none` when it waits, or is done.
Source: `WebRTCClient.cpp`, `StartClient`, `JoinRooms`, `ConnectPeer`, `OfferFiles`,
`MakeDataChannel` and `SendFileOffer`
Kind: D -/
def workerStep (a : Answers) (t : WebRTCClient) : Option WebRTCClient :=
  match t.worker with
  | .top => some t.dispatch
  | .awaitTransport =>
    if t.clientState = .exit then some { t with worker := .top }
    else if t.transportOpen then
      match cfg.specs with
      | none => some { t with clientState := .exit, worker := .top }
      | some specs => some { t with worker := .joining false (sessionRooms cfg specs) .session }
    else none
  | .joining _ [] task => some { t with worker := afterJoin cfg task }
  | .joining _ (room :: rest) task => some (joinNext cfg a room rest task t)
  | .awaitJoin rest task =>
    if t.stopped then some { t with worker := .returned false }
    else if t.clientState = .joined then some { t with worker := .joining true rest task }
    else if a.expired then some { t with clientState := .exit, worker := .returned false }
    else none
  | .connectPeer =>
    let key := (cfg.peer, cfg.room.getD [])
    if t.stopped then some { t with worker := .returned false }
    else if present t.rooms key then some { t with worker := .findChannel key .session }
    else none
  | .findChannel key task =>
    some { t with worker :=
      if (t.outgoing.dataChannels[key]?).isSome then afterChannel cfg task else .makeChannel key task }
  | .makeChannel key task =>
    if a.described then some { t with
      outgoing := { t.outgoing with
        dataChannels := t.outgoing.dataChannels.insert key t.nextChannel }
      nextChannel := t.nextChannel + 1
      worker := .announceChannel key t.nextChannel task }
    else some { t with worker := .channelFailed task }
  | .announceChannel key channel task =>
    if a.sent then some { t with worker := afterChannel cfg task }
    else some { t with
      outgoing := { t.outgoing with
        dataChannels :=
          if t.outgoing.dataChannels[key]? = some channel then t.outgoing.dataChannels.erase key
          else t.outgoing.dataChannels }
      worker := .channelFailed task }
  | .channelFailed _ =>
    some { t with
      clientState := if t.stopped then t.clientState else .exit
      worker := .returned false }
  | .awaitPeer spec batch =>
    if t.stopped then some { t with worker := .returned false }
    else if present t.rooms (spec.peer, spec.room) then
      some { t with worker := .findChannel (spec.peer, spec.room) (.offers spec batch) }
    else if a.expired then some { t with clientState := .exit, worker := .returned false }
    else none
  | .inspect spec batch =>
    some { t with worker := if a.inspected then .lookUp spec batch else .offered batch }
  | .lookUp spec batch =>
    some { t with worker :=
      if (t.outgoing.dataChannels[(spec.peer, spec.room)]?).isSome then .expect spec batch
      else .offered batch }
  | .expect spec batch =>
    some { t with clientState := .waitForFileAccept, worker := .register spec batch }
  | .register spec batch =>
    if a.uuid ∈ t.uuids then none
    else some { t with
      outgoing := t.outgoing.register a.uuid ⟨(spec.peer, spec.room), spec.path⟩
      uuids := a.uuid :: t.uuids
      worker := .sendOffer a.uuid batch }
  | .sendOffer uuid batch =>
    some { t with worker := if a.sent then .offered batch else .withdraw uuid batch }
  | .withdraw uuid batch =>
    some { t with
      outgoing := { t.outgoing with pendingOffers := t.outgoing.pendingOffers.erase uuid }
      worker := .resume batch }
  | .resume batch => some { t with clientState := .run, worker := .offered batch }
  | .offered batch =>
    some { t with worker := if t.stopped then .returned false else offerNext batch }
  | .returned ok =>
    some { t with
      clientState :=
        if !ok || t.stopped || t.clientState = .waitForFileAccept then t.clientState else .run
      worker := .top }
  | .sendPing => some { t with worker := .pinged a.sent }
  | .pinged sent =>
    some { t with
      clientState := if !sent && t.clientState = .waitForPong then .exit else t.clientState
      worker := .top }
  | .awaitWork =>
    if t.clientState ≠ .run ∨ t.queuedFiles ≠ [] then some { t with worker := .top }
    else if a.expired then some { t with clientState := .ping, worker := .top }
    else none
  | .awaitResponse =>
    if t.clientState ≠ .waitForFileAccept then some { t with worker := .top } else none
  | .awaitPong =>
    if t.clientState ≠ .waitForPong then some { t with worker := .top }
    else if a.expired then some { t with clientState := .exit, worker := .top }
    else none
  | .awaitOther =>
    if t.clientState = .waitingForJoin ∨ t.clientState = .waitForFileAccept then none
    else some { t with worker := .top }
  | .finished => none

/-! ## What a step of the worker can be -/

/-- A step of the worker: where the worker is, which of the step's conditions hold there, and the
state that the step leaves. Kind: D -/
inductive WorkerStep (a : Answers) (t : WebRTCClient) : WebRTCClient → Prop where
  | dispatch (place : t.worker = .top) : WorkerStep a t t.dispatch
  | transportExit (state : t.clientState = .exit) (place : t.worker = .awaitTransport) :
      WorkerStep a t { t with worker := .top }
  | malformed (given : cfg.specs = none) (state : t.clientState ≠ .exit)
      (transport : t.transportOpen = true) (place : t.worker = .awaitTransport) :
      WorkerStep a t { t with clientState := .exit, worker := .top }
  | session (specs : List FileSpec) (given : cfg.specs = some specs) (state : t.clientState ≠ .exit)
      (transport : t.transportOpen = true) (place : t.worker = .awaitTransport) :
      WorkerStep a t { t with worker := .joining false (sessionRooms cfg specs) .session }
  | joined (locked : Bool) (task : Task) (place : t.worker = .joining locked [] task) :
      WorkerStep a t { t with worker := afterJoin cfg task }
  | join (locked : Bool) (room : Str) (rest : List Str) (task : Task)
      (place : t.worker = .joining locked (room :: rest) task) :
      WorkerStep a t (joinNext cfg a room rest task t)
  | joinStopped (rest : List Str) (task : Task) (stopped : t.stopped = true)
      (place : t.worker = .awaitJoin rest task) : WorkerStep a t { t with worker := .returned false }
  | joinConfirmed (rest : List Str) (task : Task) (stopped : t.stopped = false)
      (state : t.clientState = .joined) (place : t.worker = .awaitJoin rest task) :
      WorkerStep a t { t with worker := .joining true rest task }
  | joinExpired (rest : List Str) (task : Task) (stopped : t.stopped = false)
      (state : t.clientState ≠ .joined) (expired : a.expired = true)
      (place : t.worker = .awaitJoin rest task) :
      WorkerStep a t { t with clientState := .exit, worker := .returned false }
  | connectStopped (stopped : t.stopped = true) (place : t.worker = .connectPeer) :
      WorkerStep a t { t with worker := .returned false }
  | connectPresent (stopped : t.stopped = false)
      (present : present t.rooms (cfg.peer, cfg.room.getD []) = true)
      (place : t.worker = .connectPeer) :
      WorkerStep a t { t with worker := .findChannel (cfg.peer, cfg.room.getD []) .session }
  | channelFound (key : PeerRoomKey) (task : Task)
      (found : (t.outgoing.dataChannels[key]?).isSome = true)
      (place : t.worker = .findChannel key task) :
      WorkerStep a t { t with worker := afterChannel cfg task }
  | channelMissing (key : PeerRoomKey) (task : Task)
      (found : (t.outgoing.dataChannels[key]?).isSome = false)
      (place : t.worker = .findChannel key task) :
      WorkerStep a t { t with worker := .makeChannel key task }
  | described (key : PeerRoomKey) (task : Task) (described : a.described = true)
      (place : t.worker = .makeChannel key task) : WorkerStep a t { t with
        outgoing := { t.outgoing with
          dataChannels := t.outgoing.dataChannels.insert key t.nextChannel }
        nextChannel := t.nextChannel + 1
        worker := .announceChannel key t.nextChannel task }
  | undescribed (key : PeerRoomKey) (task : Task) (described : a.described = false)
      (place : t.worker = .makeChannel key task) :
      WorkerStep a t { t with worker := .channelFailed task }
  | announced (key : PeerRoomKey) (channel : Channel) (task : Task) (sent : a.sent = true)
      (place : t.worker = .announceChannel key channel task) :
      WorkerStep a t { t with worker := afterChannel cfg task }
  | unannounced (key : PeerRoomKey) (channel : Channel) (task : Task) (sent : a.sent = false)
      (place : t.worker = .announceChannel key channel task) : WorkerStep a t { t with
        outgoing := { t.outgoing with
          dataChannels :=
            if t.outgoing.dataChannels[key]? = some channel then t.outgoing.dataChannels.erase key
            else t.outgoing.dataChannels }
        worker := .channelFailed task }
  | channelFailed (task : Task) (place : t.worker = .channelFailed task) : WorkerStep a t { t with
        clientState := if t.stopped then t.clientState else .exit
        worker := .returned false }
  | peerStopped (spec : FileSpec) (batch : Batch) (stopped : t.stopped = true)
      (place : t.worker = .awaitPeer spec batch) :
      WorkerStep a t { t with worker := .returned false }
  | peerPresent (spec : FileSpec) (batch : Batch) (stopped : t.stopped = false)
      (present : present t.rooms (spec.peer, spec.room) = true)
      (place : t.worker = .awaitPeer spec batch) :
      WorkerStep a t { t with worker := .findChannel (spec.peer, spec.room) (.offers spec batch) }
  | peerExpired (spec : FileSpec) (batch : Batch) (stopped : t.stopped = false)
      (absent : present t.rooms (spec.peer, spec.room) = false) (expired : a.expired = true)
      (place : t.worker = .awaitPeer spec batch) :
      WorkerStep a t { t with clientState := .exit, worker := .returned false }
  | inspected (spec : FileSpec) (batch : Batch) (inspected : a.inspected = true)
      (place : t.worker = .inspect spec batch) :
      WorkerStep a t { t with worker := .lookUp spec batch }
  | uninspected (spec : FileSpec) (batch : Batch) (inspected : a.inspected = false)
      (place : t.worker = .inspect spec batch) :
      WorkerStep a t { t with worker := .offered batch }
  | lookedUp (spec : FileSpec) (batch : Batch)
      (found : (t.outgoing.dataChannels[(spec.peer, spec.room)]?).isSome = true)
      (place : t.worker = .lookUp spec batch) :
      WorkerStep a t { t with worker := .expect spec batch }
  | notLookedUp (spec : FileSpec) (batch : Batch)
      (found : (t.outgoing.dataChannels[(spec.peer, spec.room)]?).isSome = false)
      (place : t.worker = .lookUp spec batch) :
      WorkerStep a t { t with worker := .offered batch }
  | expect (spec : FileSpec) (batch : Batch) (place : t.worker = .expect spec batch) :
      WorkerStep a t { t with clientState := .waitForFileAccept, worker := .register spec batch }
  | register (spec : FileSpec) (batch : Batch) (fresh : a.uuid ∉ t.uuids)
      (place : t.worker = .register spec batch) : WorkerStep a t { t with
        outgoing := t.outgoing.register a.uuid ⟨(spec.peer, spec.room), spec.path⟩
        uuids := a.uuid :: t.uuids
        worker := .sendOffer a.uuid batch }
  | offerSent (uuid : Str) (batch : Batch) (sent : a.sent = true)
      (place : t.worker = .sendOffer uuid batch) :
      WorkerStep a t { t with worker := .offered batch }
  | offerUnsent (uuid : Str) (batch : Batch) (sent : a.sent = false)
      (place : t.worker = .sendOffer uuid batch) :
      WorkerStep a t { t with worker := .withdraw uuid batch }
  | withdraw (uuid : Str) (batch : Batch) (place : t.worker = .withdraw uuid batch) :
      WorkerStep a t { t with
        outgoing := { t.outgoing with pendingOffers := t.outgoing.pendingOffers.erase uuid }
        worker := .resume batch }
  | resume (batch : Batch) (place : t.worker = .resume batch) :
      WorkerStep a t { t with clientState := .run, worker := .offered batch }
  | offeredStopped (batch : Batch) (stopped : t.stopped = true)
      (place : t.worker = .offered batch) : WorkerStep a t { t with worker := .returned false }
  | offerNext (batch : Batch) (stopped : t.stopped = false) (place : t.worker = .offered batch) :
      WorkerStep a t { t with worker := offerNext batch }
  | returned (ok : Bool) (place : t.worker = .returned ok) : WorkerStep a t { t with
        clientState :=
          if !ok || t.stopped || t.clientState = .waitForFileAccept then t.clientState else .run
        worker := .top }
  | sendPing (place : t.worker = .sendPing) : WorkerStep a t { t with worker := .pinged a.sent }
  | pinged (sent : Bool) (place : t.worker = .pinged sent) : WorkerStep a t { t with
        clientState := if !sent && t.clientState = .waitForPong then .exit else t.clientState
        worker := .top }
  | interrupted (interrupted : t.clientState ≠ .run ∨ t.queuedFiles ≠ [])
      (place : t.worker = .awaitWork) : WorkerStep a t { t with worker := .top }
  | quiet (state : t.clientState = .run) (queued : t.queuedFiles = []) (expired : a.expired = true)
      (place : t.worker = .awaitWork) :
      WorkerStep a t { t with clientState := .ping, worker := .top }
  | responded (state : t.clientState ≠ .waitForFileAccept) (place : t.worker = .awaitResponse) :
      WorkerStep a t { t with worker := .top }
  | ponged (state : t.clientState ≠ .waitForPong) (place : t.worker = .awaitPong) :
      WorkerStep a t { t with worker := .top }
  | pongExpired (state : t.clientState = .waitForPong) (expired : a.expired = true)
      (place : t.worker = .awaitPong) :
      WorkerStep a t { t with clientState := .exit, worker := .top }
  | otherState (state : ¬ (t.clientState = .waitingForJoin ∨ t.clientState = .waitForFileAccept))
      (place : t.worker = .awaitOther) : WorkerStep a t { t with worker := .top }

variable {cfg}

/-- **Every step of the worker is one of these.** Kind: P -/
theorem workerStep_cases {a : Answers} {t t' : WebRTCClient} (h : workerStep cfg a t = some t') :
    WorkerStep cfg a t t' := by
  cases place : t.worker with
  | finished =>
      simp only [workerStep, place] at h
      exact (Option.some_ne_none _ h.symm).elim
  | top =>
      simp only [workerStep, place, Option.some.injEq] at h
      exact h ▸ .dispatch place
  | awaitTransport =>
      simp only [workerStep, place] at h
      split at h
      · rename_i state
        exact Option.some.inj h ▸ .transportExit state place
      · rename_i state
        obtain ⟨transport, h⟩ := Option.ite_none_right_eq_some.mp h
        split at h
        · rename_i given
          exact Option.some.inj h ▸ .malformed given state transport place
        · rename_i specs given
          exact Option.some.inj h ▸ .session specs given state transport place
  | joining locked rooms task =>
      cases rooms with
      | nil =>
          simp only [workerStep, place, Option.some.injEq] at h
          exact h ▸ .joined locked task place
      | cons room rest =>
          simp only [workerStep, place, Option.some.injEq] at h
          exact h ▸ .join locked room rest task place
  | awaitJoin rest task =>
      simp only [workerStep, place] at h
      split at h
      · rename_i stopped
        exact Option.some.inj h ▸ .joinStopped rest task stopped place
      · rename_i stopped
        rw [Bool.not_eq_true] at stopped
        split at h
        · rename_i state
          exact Option.some.inj h ▸ .joinConfirmed rest task stopped state place
        · rename_i state
          obtain ⟨expired, h⟩ := Option.ite_none_right_eq_some.mp h
          exact Option.some.inj h ▸ .joinExpired rest task stopped state expired place
  | connectPeer =>
      simp only [workerStep, place] at h
      split at h
      · rename_i stopped
        exact Option.some.inj h ▸ .connectStopped stopped place
      · rename_i stopped
        obtain ⟨present, h⟩ := Option.ite_none_right_eq_some.mp h
        rw [Bool.not_eq_true] at stopped
        exact Option.some.inj h ▸ .connectPresent stopped present place
  | findChannel key task =>
      simp only [workerStep, place, Option.some.injEq] at h
      cases found : (t.outgoing.dataChannels[key]?).isSome with
      | true =>
          rw [found, if_pos rfl] at h
          exact h ▸ .channelFound key task found place
      | false =>
          rw [found, if_neg Bool.false_ne_true] at h
          exact h ▸ .channelMissing key task found place
  | makeChannel key task =>
      simp only [workerStep, place] at h
      split at h
      · rename_i described
        exact Option.some.inj h ▸ .described key task described place
      · rename_i described
        rw [Bool.not_eq_true] at described
        exact Option.some.inj h ▸ .undescribed key task described place
  | announceChannel key channel task =>
      simp only [workerStep, place] at h
      split at h
      · rename_i sent
        exact Option.some.inj h ▸ .announced key channel task sent place
      · rename_i sent
        rw [Bool.not_eq_true] at sent
        exact Option.some.inj h ▸ .unannounced key channel task sent place
  | channelFailed task =>
      simp only [workerStep, place, Option.some.injEq] at h
      exact h ▸ .channelFailed task place
  | awaitPeer spec batch =>
      simp only [workerStep, place] at h
      split at h
      · rename_i stopped
        exact Option.some.inj h ▸ .peerStopped spec batch stopped place
      · rename_i stopped
        rw [Bool.not_eq_true] at stopped
        split at h
        · rename_i present
          exact Option.some.inj h ▸ .peerPresent spec batch stopped present place
        · rename_i absent
          rw [Bool.not_eq_true] at absent
          obtain ⟨expired, h⟩ := Option.ite_none_right_eq_some.mp h
          exact Option.some.inj h ▸ .peerExpired spec batch stopped absent expired place
  | inspect spec batch =>
      simp only [workerStep, place, Option.some.injEq] at h
      cases inspected : a.inspected with
      | true =>
          rw [inspected, if_pos rfl] at h
          exact h ▸ .inspected spec batch inspected place
      | false =>
          rw [inspected, if_neg Bool.false_ne_true] at h
          exact h ▸ .uninspected spec batch inspected place
  | lookUp spec batch =>
      simp only [workerStep, place, Option.some.injEq] at h
      cases found : (t.outgoing.dataChannels[(spec.peer, spec.room)]?).isSome with
      | true =>
          rw [found, if_pos rfl] at h
          exact h ▸ .lookedUp spec batch found place
      | false =>
          rw [found, if_neg Bool.false_ne_true] at h
          exact h ▸ .notLookedUp spec batch found place
  | expect spec batch =>
      simp only [workerStep, place, Option.some.injEq] at h
      exact h ▸ .expect spec batch place
  | register spec batch =>
      simp only [workerStep, place] at h
      split at h
      · exact (Option.some_ne_none _ h.symm).elim
      · rename_i fresh
        exact Option.some.inj h ▸ .register spec batch fresh place
  | sendOffer uuid batch =>
      simp only [workerStep, place, Option.some.injEq] at h
      cases sent : a.sent with
      | true =>
          rw [sent, if_pos rfl] at h
          exact h ▸ .offerSent uuid batch sent place
      | false =>
          rw [sent, if_neg Bool.false_ne_true] at h
          exact h ▸ .offerUnsent uuid batch sent place
  | withdraw uuid batch =>
      simp only [workerStep, place, Option.some.injEq] at h
      exact h ▸ .withdraw uuid batch place
  | resume batch =>
      simp only [workerStep, place, Option.some.injEq] at h
      exact h ▸ .resume batch place
  | offered batch =>
      simp only [workerStep, place, Option.some.injEq] at h
      cases stopped : t.stopped with
      | true =>
          rw [stopped, if_pos rfl] at h
          exact h ▸ .offeredStopped batch stopped place
      | false =>
          rw [stopped, if_neg Bool.false_ne_true] at h
          exact h ▸ .offerNext batch stopped place
  | returned ok =>
      simp only [workerStep, place, Option.some.injEq] at h
      exact h ▸ .returned ok place
  | sendPing =>
      simp only [workerStep, place, Option.some.injEq] at h
      exact h ▸ .sendPing place
  | pinged sent =>
      simp only [workerStep, place, Option.some.injEq] at h
      exact h ▸ .pinged sent place
  | awaitWork =>
      simp only [workerStep, place] at h
      split at h
      · rename_i interrupted
        exact Option.some.inj h ▸ .interrupted interrupted place
      · rename_i interrupted
        obtain ⟨expired, h⟩ := Option.ite_none_right_eq_some.mp h
        obtain ⟨state, queued⟩ := not_or.mp interrupted
        exact Option.some.inj h ▸ .quiet (not_not.mp state) (not_not.mp queued) expired place
  | awaitResponse =>
      simp only [workerStep, place] at h
      obtain ⟨state, h⟩ := Option.ite_none_right_eq_some.mp h
      exact Option.some.inj h ▸ .responded state place
  | awaitPong =>
      simp only [workerStep, place] at h
      split at h
      · rename_i state
        exact Option.some.inj h ▸ .ponged state place
      · rename_i state
        obtain ⟨expired, h⟩ := Option.ite_none_right_eq_some.mp h
        exact Option.some.inj h ▸ .pongExpired (not_not.mp state) expired place
  | awaitOther =>
      simp only [workerStep, place] at h
      split at h
      · exact (Option.some_ne_none _ h.symm).elim
      · rename_i state
        exact Option.some.inj h ▸ .otherState state place

/-! ## Where the worker goes on -/

variable {motive : Pc → Prop}

/-- The head of `OfferFiles`' loop leads back or to the room of the next file. Kind: L -/
theorem offerNext_elim (returned : motive (.returned true))
    (joining : ∀ room task, motive (.joining false [room] task)) (batch : Batch) :
    motive (offerNext batch) := by
  unfold offerNext
  cases batch.left with
  | nil => exact returned
  | cons spec rest => exact joining _ _

/-- With the rooms joined, the session goes on with its peer, or `OfferFiles` with a file's.
Kind: L -/
theorem afterJoin_elim (returned : motive (.returned true))
    (joining : ∀ room task, motive (.joining false [room] task)) (connectPeer : motive .connectPeer)
    (awaitPeer : ∀ spec batch, motive (.awaitPeer spec batch)) (task : Task) :
    motive (afterJoin cfg task) := by
  cases task with
  | session =>
      by_cases hpeer : cfg.peer = []
      · simp only [afterJoin, if_pos hpeer]
        exact offerNext_elim returned joining _
      · simp only [afterJoin, if_neg hpeer]
        exact connectPeer
  | offers spec batch => exact awaitPeer spec batch

/-- With a channel, the session goes on with its files, or `OfferFiles` with the file. Kind: L -/
theorem afterChannel_elim (returned : motive (.returned true))
    (joining : ∀ room task, motive (.joining false [room] task))
    (inspect : ∀ spec batch, motive (.inspect spec batch)) (task : Task) :
    motive (afterChannel cfg task) := by
  cases task with
  | session => exact offerNext_elim returned joining _
  | offers spec batch => exact inspect spec batch

variable (cfg)

/-! ## The other threads -/

/-- Source: `WebRTCClient.cpp`, `QueueFile`. Kind: D -/
def queueFile (spec : FileSpec) (t : WebRTCClient) : Bool × WebRTCClient :=
  if spec.peer = [] ∨ spec.room = [] ∨ spec.path = [] then (false, t)
  else if t.clientState = .exit then (false, t)
  else (true, { t with queuedFiles := t.queuedFiles ++ [spec] })

/-- The calls of `QueueFile` that `QueueFileToAll` makes.
Source: `WebRTCClient.cpp`, `QueueFileToAll`
Kind: D -/
def targets (path : Str) (t : WebRTCClient) : List FileSpec :=
  t.outgoing.dataChannels.toList.map fun entry => ⟨entry.1.1, entry.1.2, path⟩

/-- The transport's thread goes on with its callback.
Source: `WebRTCClient.cpp`, `OnMessageClose`, `OnJoin`, `OnFileAccept` and `OnFileReject`
Kind: D -/
def callbackStep (t : WebRTCClient) : Option WebRTCClient :=
  match t.callback with
  | .idle => none
  | .clearing =>
    some { t with
      outgoing := { t.outgoing with dataChannels := ∅ }
      rooms := WebRTC.clearRooms t.rooms
      callback := .idle }
  | .confirming room peer =>
    if t.worker.locked then none
    else some { t with
      clientState :=
        if t.clientState = .waitingForJoin ∧ room = t.room ∧ peer = cfg.name then .joined
        else t.clientState
      callback := .idle }
  | .responding =>
    if t.worker.locked then none
    else some { t with
      clientState := if t.clientState = .waitForFileAccept then .run else t.clientState
      callback := .idle }

/-- A message of the server begins to be handled; a document that is accessed wrongly has no
outcome.
Source: `WebRTCClient.cpp`, `OnJoin`, `OnLeave`, `OnFileAccept`, `OnFileReject` and `OnPingPong`
Kind: D -/
def receive (t : WebRTCClient) : ClientEvent → Option WebRTCClient
  | .join doc =>
    match Client.onJoin doc t.rooms with
    | .error _ => none
    | .ok (rooms, none) => some { t with rooms := rooms }
    | .ok (rooms, some (room, peer)) =>
      some { t with rooms := rooms, callback := .confirming room peer }
  | .leave doc =>
    match Client.onLeave doc t.rooms with
    | .error _ => none
    | .ok rooms => some { t with rooms := rooms }
  | .fileAccept uuid =>
    match t.outgoing.takePendingOffer uuid with
    | none => some t
    | some (offer, _) => some { t with
        outgoing := t.outgoing.onFileAccept uuid
        callback :=
          if (t.outgoing.dataChannels[offer.key]?).isSome then .responding else .idle }
  | .fileReject uuid =>
    match t.outgoing.takePendingOffer uuid with
    | none => some t
    | some _ => some { t with outgoing := t.outgoing.onFileReject uuid, callback := .responding }
  | .pong =>
    if t.worker.locked then none
    else some { t with
      clientState := if t.clientState = .waitForPong then .run else t.clientState }
  | _ => none

/-- One step of one of the threads.
Source: `WebRTCClient.cpp`
Kind: D -/
def step (t : WebRTCClient) : ClientEvent → Option WebRTCClient
  | .worker a => workerStep cfg a t
  | .callback => callbackStep cfg t
  | .messageOpen =>
    if t.worker.locked || t.callback ≠ .idle then none else some { t with transportOpen := true }
  | .messageClose =>
    if t.worker.locked || t.callback ≠ .idle then none
    else if t.clientState = .exit then some t
    else some { t with clientState := .init, transportOpen := false, callback := .clearing }
  | .transferComplete => if t.worker.locked then none else some { t with clientState := .run }
  | .queueFile spec => if t.worker.locked then none else some (t.queueFile spec).2
  | .queueFileToAll path => some { t with calls := t.calls ++ t.targets path }
  | .queueNext i =>
    match t.calls[i]? with
    | none => none
    | some spec =>
      if t.worker.locked then none
      else some (queueFile spec { t with calls := t.calls.eraseIdx i }).2
  | .stop => if t.worker.locked then none else some { t with clientState := .exit }
  | e => if t.callback ≠ .idle then none else t.receive e

/-! ## What a step can be -/

/-- A step of one of the threads: its conditions, and the state that it leaves. Kind: D -/
inductive Step (t : WebRTCClient) : ClientEvent → WebRTCClient → Prop where
  | worker (a : Answers) (t' : WebRTCClient) (goes : workerStep cfg a t = some t') :
      Step t (.worker a) t'
  | cleared (place : t.callback = .clearing) : Step t .callback { t with
        outgoing := { t.outgoing with dataChannels := ∅ }
        rooms := WebRTC.clearRooms t.rooms
        callback := .idle }
  | confirmed (room peer : Str) (unlocked : t.worker.locked = false)
      (place : t.callback = .confirming room peer) : Step t .callback { t with
        clientState :=
          if t.clientState = .waitingForJoin ∧ room = t.room ∧ peer = cfg.name then .joined
          else t.clientState
        callback := .idle }
  | responded (unlocked : t.worker.locked = false) (place : t.callback = .responding) :
      Step t .callback { t with
        clientState := if t.clientState = .waitForFileAccept then .run else t.clientState
        callback := .idle }
  | opened (unlocked : t.worker.locked = false) (idle : t.callback = .idle) :
      Step t .messageOpen { t with transportOpen := true }
  | closedInExit (unlocked : t.worker.locked = false) (idle : t.callback = .idle)
      (state : t.clientState = .exit) : Step t .messageClose t
  | closed (unlocked : t.worker.locked = false) (idle : t.callback = .idle)
      (state : t.clientState ≠ .exit) : Step t .messageClose
      { t with clientState := .init, transportOpen := false, callback := .clearing }
  | transferComplete (unlocked : t.worker.locked = false) :
      Step t .transferComplete { t with clientState := .run }
  | queueRefused (spec : FileSpec) (unlocked : t.worker.locked = false)
      (refused : (t.queueFile spec).1 = false) : Step t (.queueFile spec) t
  | queued (spec : FileSpec) (unlocked : t.worker.locked = false)
      (queued : (t.queueFile spec).1 = true) :
      Step t (.queueFile spec) { t with queuedFiles := t.queuedFiles ++ [spec] }
  | queueFileToAll (path : Str) :
      Step t (.queueFileToAll path) { t with calls := t.calls ++ t.targets path }
  | nextRefused (i : ℕ) (spec : FileSpec) (call : t.calls[i]? = some spec)
      (unlocked : t.worker.locked = false) (refused : (t.queueFile spec).1 = false) :
      Step t (.queueNext i) { t with calls := t.calls.eraseIdx i }
  | nextQueued (i : ℕ) (spec : FileSpec) (call : t.calls[i]? = some spec)
      (unlocked : t.worker.locked = false) (queued : (t.queueFile spec).1 = true) :
      Step t (.queueNext i)
      { t with queuedFiles := t.queuedFiles ++ [spec], calls := t.calls.eraseIdx i }
  | stop (unlocked : t.worker.locked = false) : Step t .stop { t with clientState := .exit }
  | joinIgnored (doc : Json) (rooms : Rooms) (idle : t.callback = .idle)
      (read : Client.onJoin doc t.rooms = .ok (rooms, none)) :
      Step t (.join doc) { t with rooms := rooms }
  | join (doc : Json) (rooms : Rooms) (room peer : Str) (idle : t.callback = .idle)
      (read : Client.onJoin doc t.rooms = .ok (rooms, some (room, peer))) :
      Step t (.join doc) { t with rooms := rooms, callback := .confirming room peer }
  | leave (doc : Json) (rooms : Rooms) (idle : t.callback = .idle)
      (read : Client.onLeave doc t.rooms = .ok rooms) : Step t (.leave doc) { t with rooms := rooms }
  | acceptUnknown (uuid : Option Str) (idle : t.callback = .idle)
      (taken : t.outgoing.takePendingOffer uuid = none) : Step t (.fileAccept uuid) t
  | accept (uuid : Option Str) (offer : PendingOffer) (rest : Outgoing) (idle : t.callback = .idle)
      (taken : t.outgoing.takePendingOffer uuid = some (offer, rest)) :
      Step t (.fileAccept uuid) { t with
        outgoing := t.outgoing.onFileAccept uuid
        callback := if (t.outgoing.dataChannels[offer.key]?).isSome then .responding else .idle }
  | rejectUnknown (uuid : Option Str) (idle : t.callback = .idle)
      (taken : t.outgoing.takePendingOffer uuid = none) : Step t (.fileReject uuid) t
  | reject (uuid : Option Str) (offer : PendingOffer) (rest : Outgoing) (idle : t.callback = .idle)
      (taken : t.outgoing.takePendingOffer uuid = some (offer, rest)) :
      Step t (.fileReject uuid)
      { t with outgoing := t.outgoing.onFileReject uuid, callback := .responding }
  | pong (unlocked : t.worker.locked = false) (idle : t.callback = .idle) : Step t .pong { t with
        clientState := if t.clientState = .waitForPong then .run else t.clientState }

variable {cfg} {t t' : WebRTCClient} {e : ClientEvent}

/-- What `QueueFile` does: nothing, or append the request. Kind: L -/
theorem queueFile_cases (spec : FileSpec) (t : WebRTCClient) :
    (t.queueFile spec = (false, t)) ∨
      t.queueFile spec = (true, { t with queuedFiles := t.queuedFiles ++ [spec] }) := by
  unfold queueFile
  split
  · exact .inl rfl
  · split
    · exact .inl rfl
    · exact .inr rfl

/-- Whether a call of `QueueFile` is accepted does not depend on the other calls. Kind: L -/
theorem queueFile_calls (spec : FileSpec) (t : WebRTCClient) (calls : List FileSpec) :
    (queueFile spec { t with calls := calls }).1 = (t.queueFile spec).1 := by
  unfold queueFile
  split
  · rfl
  · split
    · rfl
    · rfl

/-- The transport's thread begins a callback between two others, where it may lock the state.
Kind: L -/
theorem ready_of_not (h : ¬ (t.worker.locked || t.callback ≠ .idle) = true) :
    t.worker.locked = false ∧ t.callback = .idle := by
  rw [Bool.not_eq_true, Bool.or_eq_false_iff, decide_eq_false_iff_not, not_not] at h
  exact h

/-- What a callback that goes on can be. Kind: L -/
theorem callbackStep_cases (h : callbackStep cfg t = some t') : Step cfg t .callback t' := by
  unfold callbackStep at h
  split at h
  · exact (Option.some_ne_none _ h.symm).elim
  · rename_i place
    exact Option.some.inj h ▸ .cleared place
  · rename_i room peer place
    obtain ⟨unlocked, h⟩ := Option.ite_none_left_eq_some.mp h
    rw [Bool.not_eq_true] at unlocked
    exact Option.some.inj h ▸ .confirmed room peer unlocked place
  · rename_i place
    obtain ⟨unlocked, h⟩ := Option.ite_none_left_eq_some.mp h
    rw [Bool.not_eq_true] at unlocked
    exact Option.some.inj h ▸ .responded unlocked place

/-- What a message of the server can do. Kind: L -/
theorem receive_cases (idle : t.callback = .idle) (h : t.receive e = some t') : Step cfg t e t' := by
  cases e with
  | join doc =>
      simp only [receive] at h
      split at h
      · exact (Option.some_ne_none _ h.symm).elim
      · rename_i rooms read
        exact Option.some.inj h ▸ .joinIgnored doc rooms idle read
      · rename_i rooms room peer read
        exact Option.some.inj h ▸ .join doc rooms room peer idle read
  | leave doc =>
      simp only [receive] at h
      split at h
      · exact (Option.some_ne_none _ h.symm).elim
      · rename_i rooms read
        exact Option.some.inj h ▸ .leave doc rooms idle read
  | fileAccept uuid =>
      simp only [receive] at h
      split at h
      · rename_i taken
        exact Option.some.inj h ▸ .acceptUnknown uuid idle taken
      · rename_i offer rest taken
        exact Option.some.inj h ▸ .accept uuid offer rest idle taken
  | fileReject uuid =>
      simp only [receive] at h
      split at h
      · rename_i taken
        exact Option.some.inj h ▸ .rejectUnknown uuid idle taken
      · rename_i taken
        exact Option.some.inj h ▸ .reject uuid _ _ idle taken
  | pong =>
      simp only [receive] at h
      obtain ⟨unlocked, h⟩ := Option.ite_none_left_eq_some.mp h
      rw [Bool.not_eq_true] at unlocked
      exact Option.some.inj h ▸ .pong unlocked idle
  | _ => exact (Option.some_ne_none _ h.symm).elim

/-- **Every step is one of these.** Kind: P -/
theorem step_cases (h : step cfg t e = some t') : Step cfg t e t' := by
  cases e with
  | worker a => exact .worker a t' h
  | callback => exact callbackStep_cases h
  | messageOpen =>
      obtain ⟨hready, h⟩ := Option.ite_none_left_eq_some.mp h
      obtain ⟨unlocked, idle⟩ := ready_of_not hready
      exact Option.some.inj h ▸ .opened unlocked idle
  | messageClose =>
      obtain ⟨hready, h⟩ := Option.ite_none_left_eq_some.mp h
      obtain ⟨unlocked, idle⟩ := ready_of_not hready
      split at h
      · rename_i state
        exact Option.some.inj h ▸ .closedInExit unlocked idle state
      · rename_i state
        exact Option.some.inj h ▸ .closed unlocked idle state
  | transferComplete =>
      obtain ⟨unlocked, h⟩ := Option.ite_none_left_eq_some.mp h
      rw [Bool.not_eq_true] at unlocked
      exact Option.some.inj h ▸ .transferComplete unlocked
  | queueFile spec =>
      obtain ⟨unlocked, h⟩ := Option.ite_none_left_eq_some.mp h
      rw [Bool.not_eq_true] at unlocked
      obtain hqueue | hqueue := queueFile_cases spec t
      · rw [hqueue] at h
        exact Option.some.inj h ▸ .queueRefused spec unlocked (by rw [hqueue])
      · rw [hqueue] at h
        exact Option.some.inj h ▸ .queued spec unlocked (by rw [hqueue])
  | queueFileToAll path => exact Option.some.inj h ▸ .queueFileToAll path
  | queueNext i =>
      simp only [step] at h
      split at h
      · exact (Option.some_ne_none _ h.symm).elim
      · rename_i spec call
        obtain ⟨unlocked, h⟩ := Option.ite_none_left_eq_some.mp h
        rw [Bool.not_eq_true] at unlocked
        have hcalls := queueFile_calls spec t (t.calls.eraseIdx i)
        obtain hqueue | hqueue := queueFile_cases spec { t with calls := t.calls.eraseIdx i }
        · rw [hqueue] at h hcalls
          exact Option.some.inj h ▸ .nextRefused i spec call unlocked hcalls.symm
        · rw [hqueue] at h hcalls
          exact Option.some.inj h ▸ .nextQueued i spec call unlocked hcalls.symm
  | stop =>
      obtain ⟨unlocked, h⟩ := Option.ite_none_left_eq_some.mp h
      rw [Bool.not_eq_true] at unlocked
      exact Option.some.inj h ▸ .stop unlocked
  | _ =>
      obtain ⟨idle, h⟩ := Option.ite_none_left_eq_some.mp h
      exact receive_cases (not_not.mp idle) h

end WebRTCClient

end CloudNode
