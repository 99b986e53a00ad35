import CloudNode.Lib.Runs
import CloudNode.Wire.Text

/-!
# Connections of the phone

The iOS client connects again and again, and work that it started for a connection may run when the
next one is under way: messages and callbacks that were queued on the main actor, the creation of a
`PeerSession` off it, an offer that is being gathered, the timeout of 30 seconds, and the tasks that
send what the user has picked, item after item.

Connections are numbered by their calls of `connect`. Everything that is queued, every config, every
session and every signaling client carries the number of the connection it belongs to; a task that
sends carries that of the connection it was begun under.

* `runWork` — what a queued piece of work does when it runs.
* `Separate` — work of an earlier connection changes nothing, and what is sent through a signaling
  client was built from the config and the session of its connection.
* `awaits` — the latest connection is where it waits for such a piece of work.
* `separate_of_unawaited` — connections keep apart if work of an earlier one comes when the latest
  does not wait for its like.
-/

namespace CloudNode

/-- What the user enters, but for the server's address, of which only the URL is made.
Source: `ConnectionManager.swift`, `ConnectionConfig`
Kind: D -/
structure PhoneConfig where
  stunServer : Str
  name : Str
  room : Str
  peerName : Str
  peerRoom : Str

/-- Something with the number of the connection it belongs to. Kind: D -/
structure Stamped (α : Type) where
  connection : ℕ
  value : α

/-- Source: `ConnectionManager.swift`, `State`. Kind: D -/
inductive PhoneState where
  | idle
  | connectingToServer
  | joiningRooms
  | waitingForPeer
  | negotiating
  | ready
  | failed (reason : Str)
  deriving DecidableEq

/-- A `PeerSession` object, with its number among all there were. Kind: D -/
structure PhoneSession where
  connection : ℕ
  number : ℕ
  stunServer : Str
  deriving DecidableEq

/-- What a session was told of the other side. Source: `PeerSession.swift`. Kind: D -/
inductive PhoneRemote where
  | answer (sdp : Str)
  | candidate (candidate mid : Str)

/-- A message from the server: the fields that `handle` reads, where they have the right type.
Kind: D -/
structure PhoneInbound where
  type : Option Str
  room : Option Str := none
  peers : Option (List Str) := none
  peerId : Option Str := none
  sdp : Option Str := none
  candidate : Option Str := none
  mid : Option Str := none
  uuid : Option Str := none

/-- What an offer is made of. Source: `PeerSession.swift`, `Offer`. Kind: D -/
structure PhoneOffer where
  sdp : Str
  candidates : List Str

/-- A message to the server. Kind: D -/
inductive PhoneOutbound where
  | join (room : Str)
  | leave (room : Str)
  | offer (room peer : Str) (offer : PhoneOffer)
  | fileOffer (uuid room peer : Str)
  | fileComplete (room peer : Str)

/-- A message that was sent: through the signaling client of which connection, built from the config
and, if it describes one, from the session of which connections. Kind: D -/
structure PhoneSent where
  client : ℕ
  config : ℕ
  session : Option ℕ
  message : PhoneOutbound

/-- The continuation of a file offer, and what its task has kept.
Source: `ConnectionManager.swift`, `send(_ items:)` and `send(data:name:mime:category:)`
Kind: D -/
structure PhoneWaiter where
  /-- The connection that the task was begun under. -/
  begun : ℕ
  /-- The signaling client that the file was offered through, by its connection. -/
  client : ℕ
  config : Stamped PhoneConfig
  /-- How many items the task has behind this one. -/
  rest : ℕ

/-- Work that waits for the main actor, or for something else before that. Kind: D -/
inductive PhoneWork where
  /-- `onMessage` was called. -/
  | message (message : PhoneInbound)
  /-- `onClose` of the signaling client was called. -/
  | serverLost (reason : Str)
  /-- The negotiation waits for its session to be created. -/
  | created (config : Stamped PhoneConfig)
  /-- `onOpen` of a session was called. -/
  | opened
  /-- `onClose` of a session was called. -/
  | channelClosed
  /-- The negotiation waits for its offer. -/
  | offered (config : Stamped PhoneConfig) (session : PhoneSession)
  /-- The negotiation sleeps for 30 seconds. -/
  | timeout (session : PhoneSession)
  /-- A task is to send an item, and waits for its turn or for the data of the photo. -/
  | item (rest : ℕ)
  /-- A task sends an accepted file, through the session it was offered with. -/
  | transfer (waiter : PhoneWaiter)

/-- Source: `ConnectionManager.swift`, `ConnectionManager`. Kind: D -/
structure PhoneClient where
  /-- The number of the latest connection. -/
  connection : ℕ := 0
  state : PhoneState := .idle
  config : Option (Stamped PhoneConfig) := none
  /-- The signaling client, by its connection. -/
  signaling : Option ℕ := none
  /-- `closed` of the signaling client. -/
  closed : Bool := false
  /-- All signaling clients there were. -/
  clients : List ℕ := []
  session : Option PhoneSession := none
  /-- What the session was told. -/
  remote : List PhoneRemote := []
  joinedRooms : Std.ExtTreeSet Str := ∅
  roomPeers : Std.ExtTreeMap Str Peers := ∅
  /-- The offers that wait for an answer. -/
  acceptWaiters : Std.ExtTreeMap Str PhoneWaiter := ∅
  /-- How many sessions were created. -/
  made : ℕ := 0
  works : List (Stamped PhoneWork) := []
  sent : List PhoneSent := []

namespace PhoneClient

/-- The rooms of a config, each once.
Source: `ConnectionManager.swift`, `Set([config.room, config.peerRoom])`
Kind: D -/
def rooms (config : PhoneConfig) : List Str :=
  if config.room = config.peerRoom then [config.room] else [config.room, config.peerRoom]

/-- Queue a piece of work. Kind: D -/
def queue (s : PhoneClient) (connection : ℕ) (work : PhoneWork) : PhoneClient :=
  { s with works := s.works ++ [⟨connection, work⟩] }

/-- Send through the signaling client, if there is one. Source: `signaling?.send(..)`. Kind: D -/
def send (s : PhoneClient) (config : ℕ) (session : Option ℕ) (message : PhoneOutbound) :
    PhoneClient :=
  match s.signaling with
  | some client => { s with sent := s.sent ++ [⟨client, config, session, message⟩] }
  | none => s

/-- The messages with which a connection leaves its rooms. Kind: D -/
def leaves (s : PhoneClient) : List PhoneSent :=
  match s.signaling, s.config with
  | some client, some config => (rooms config.value).map fun room =>
      ⟨client, config.connection, none, .leave room⟩
  | _, _ => []

/-- What a task has to do when it is done with an item: send the next one, if there is one.
Source: `ConnectionManager.swift`, `send(_ items:)`
Kind: D -/
def nextItem (begun : ℕ) : ℕ → List (Stamped PhoneWork)
  | 0 => []
  | rest + 1 => [⟨begun, .item rest⟩]

/-- A task goes on to its next item. Kind: D -/
def goOn (s : PhoneClient) (begun rest : ℕ) : PhoneClient :=
  { s with works := s.works ++ nextItem begun rest }

/-- The waiters are resumed with `false`, and their tasks go on to their next items.
Source: `ConnectionManager.swift`, `disconnect`
Kind: D -/
def disconnect (s : PhoneClient) : PhoneClient :=
  { s with
    works := s.works ++ s.acceptWaiters.toList.flatMap fun (_, waiter) =>
      nextItem waiter.begun waiter.rest
    sent := s.sent ++ s.leaves
    signaling := none
    session := none
    remote := []
    config := none
    joinedRooms := ∅
    roomPeers := ∅
    acceptWaiters := ∅
    state := .idle }

/-- Source: `ConnectionManager.swift`, `fail`. Kind: D -/
def fail (s : PhoneClient) (reason : Str) : PhoneClient :=
  if s.state = .idle then s else { s.disconnect with state := .failed reason }

/-- `valid` tells whether the server's address makes a URL. The state `.connectingToServer` is left
before anything else can run.
Source: `ConnectionManager.swift`, `connect`
Kind: D -/
def connect (s : PhoneClient) (config : PhoneConfig) (valid : Bool) : PhoneClient :=
  let s := { s.disconnect with connection := s.connection + 1 }
  if valid then
    { s with
      config := some ⟨s.connection, config⟩
      signaling := some s.connection
      closed := false
      clients := s.clients ++ [s.connection]
      state := .joiningRooms
      sent := s.sent ++ (rooms config).map fun room => ⟨s.connection, s.connection, none, .join room⟩ }
  else { s with state := .failed (str "Invalid server address") }

/-- Source: `ConnectionManager.swift`, `startNegotiation`, up to the creation of the session.
Kind: D -/
def startNegotiation (s : PhoneClient) (config : Stamped PhoneConfig) : PhoneClient :=
  { s with state := .negotiating }.queue s.connection (.created config)

/-- The rooms are joined, and no negotiation has begun.
Source: `ConnectionManager.swift`, `advanceIfPossible`, its first guard
Kind: D -/
def mayAdvance (s : PhoneClient) (config : PhoneConfig) : Bool :=
  s.state ≠ .negotiating && s.state ≠ .ready && (rooms config).all fun room => room ∈ s.joinedRooms

/-- The peer is in its room.
Source: `ConnectionManager.swift`, `advanceIfPossible`, its second guard
Kind: D -/
def peerPresent (s : PhoneClient) (config : PhoneConfig) : Bool :=
  (s.roomPeers[config.peerRoom]?).any fun peers => config.peerName ∈ peers

/-- Source: `ConnectionManager.swift`, `advanceIfPossible`. Kind: D -/
def advanceIfPossible (s : PhoneClient) (config : Stamped PhoneConfig) : PhoneClient :=
  if s.mayAdvance config.value then
    if s.peerPresent config.value then s.startNegotiation config else { s with state := .waitingForPeer }
  else s

/-- Source: `ConnectionManager.swift`, `handle`, `join` and `peer_joined`. Kind: D -/
def onJoin (s : PhoneClient) (config : Stamped PhoneConfig) (room : Str) (peers : List Str)
    (peerId : Option Str) : PhoneClient :=
  { s with
    roomPeers := s.roomPeers.insert room (Std.ExtTreeSet.ofList peers)
    joinedRooms := if peerId = some config.value.name then s.joinedRooms.insert room
      else s.joinedRooms }.advanceIfPossible config

/-- Source: `ConnectionManager.swift`, `handle`, `leave` and `peer_left`. Kind: D -/
def onLeave (s : PhoneClient) (config : Stamped PhoneConfig) (room : Str) (peers : List Str)
    (peerId : Option Str) : PhoneClient :=
  let s := { s with roomPeers := s.roomPeers.insert room (Std.ExtTreeSet.ofList peers) }
  if peerId = some config.value.peerName ∧ room = config.value.peerRoom ∧ s.state = .ready then
    s.fail (str "Peer left the room")
  else s

/-- Source: `ConnectionManager.swift`, `handle`, `answer` and `candidate`. Kind: D -/
def tell (s : PhoneClient) (remote : PhoneRemote) : PhoneClient :=
  if s.session.isSome then { s with remote := s.remote ++ [remote] } else s

/-- Source: `ConnectionManager.swift`, `handle`, `file_accept` and `file_reject`. Kind: D -/
def onFileAnswer (s : PhoneClient) (uuid : Str) (accepted : Bool) : PhoneClient :=
  match s.acceptWaiters[uuid]? with
  | some waiter =>
    let s := { s with acceptWaiters := s.acceptWaiters.erase uuid }
    if accepted then s.queue waiter.begun (.transfer waiter) else s.goOn waiter.begun waiter.rest
  | none => s

variable (decode : Str → Option Str)

/-- `decode` undoes Base64 and UTF-8. Source: `ConnectionManager.swift`, `handle`. Kind: D -/
def handle (s : PhoneClient) (m : PhoneInbound) : PhoneClient :=
  match m.type, s.config with
  | some type, some config =>
    if type = str "join" ∨ type = str "peer_joined" then
      match m.room, m.peers with
      | some room, some peers => s.onJoin config room peers m.peerId
      | _, _ => s
    else if type = str "leave" ∨ type = str "peer_left" then
      match m.room, m.peers with
      | some room, some peers => s.onLeave config room peers m.peerId
      | _, _ => s
    else if type = str "answer" then
      match m.sdp.bind decode with
      | some sdp => s.tell (.answer sdp)
      | none => s
    else if type = str "candidate" then
      match m.candidate, m.mid with
      | some candidate, some mid => s.tell (.candidate candidate mid)
      | _, _ => s
    else if type = str "file_accept" ∨ type = str "file_reject" then
      match m.uuid with
      | some uuid => s.onFileAnswer uuid (type = str "file_accept")
      | none => s
    else s
  | _, _ => s

/-- What was waited for: whether a session could be created, a photo be loaded or a file be sent to
its end; the offer or why there is none; the `uuid` that an offered file is given. Kind: D -/
structure Outcome where
  made : Bool := true
  offer : Option PhoneOffer := none
  description : Str := []
  uuid : Str := []

/-- The description of the offer, if there is one that can be encoded: an empty one cannot.
Source: `ConnectionManager.swift`, `encode`
Kind: D -/
def Outcome.encoded (outcome : Outcome) : Option PhoneOffer :=
  outcome.offer.filter fun offer => offer.sdp ≠ []

/-- The session is there, or not.
Source: `ConnectionManager.swift`, `startNegotiation`, up to the offer
Kind: D -/
def onCreated (s : PhoneClient) (connection : ℕ) (config : Stamped PhoneConfig) (made : Bool) :
    PhoneClient :=
  if made then
    let session : PhoneSession := ⟨connection, s.made, config.value.stunServer⟩
    let s := { s with made := s.made + 1 }
    if s.state = .negotiating ∧ s.session = none then
      { s with
        session := some session
        remote := [] }.queue connection (.offered config session)
    else s
  else s.fail (str "Unable to create peer connection")

/-- The offer is there, or not.
Source: `ConnectionManager.swift`, `startNegotiation`, from the offer to the timeout
Kind: D -/
def onOffered (s : PhoneClient) (connection : ℕ) (config : Stamped PhoneConfig)
    (session : PhoneSession) (outcome : Outcome) : PhoneClient :=
  match outcome.encoded with
  | some offer =>
    (s.send config.connection (some session.connection)
      (.offer config.value.peerRoom config.value.peerName offer)).queue connection (.timeout session)
  | none => s.fail (str "Offer failed: " ++ outcome.description)

/-- A file can be offered.
Source: `ConnectionManager.swift`, `send(data:name:mime:category:)`, its guard
Kind: D -/
def canOffer (s : PhoneClient) : Bool :=
  s.config.isSome && s.signaling.isSome && s.session.isSome && s.state = .ready

/-- The data of an item is there, or not; the task waits for the answer to its offer, or goes on.
Source: `ConnectionManager.swift`, `send(_ item:, category:)`, `send(_ url:)` and
`send(data:name:mime:category:)`, up to the answer
Kind: D -/
def sendItem (s : PhoneClient) (begun rest : ℕ) (outcome : Outcome) : PhoneClient :=
  match s.config, s.signaling with
  | some config, some client =>
    if outcome.made && s.canOffer then
      { s with acceptWaiters := s.acceptWaiters.insert outcome.uuid ⟨begun, client, config, rest⟩ }.send
        config.connection none (.fileOffer outcome.uuid config.value.peerRoom config.value.peerName)
    else s.goOn begun rest
  | _, _ => s.goOn begun rest

/-- An item that can be offered is offered through the signaling client. Kind: L -/
theorem sendItem_of_offer (s : PhoneClient) (begun rest : ℕ) {outcome : Outcome}
    (h : (outcome.made && s.canOffer) = true) : ∃ config client, s.config = some config ∧
      s.sendItem begun rest outcome = { s with
        acceptWaiters := s.acceptWaiters.insert outcome.uuid ⟨begun, client, config, rest⟩ }.send
          config.connection none
          (.fileOffer outcome.uuid config.value.peerRoom config.value.peerName) := by
  unfold sendItem
  split
  · rename_i config client hconfig _
    rw [if_pos h]
    exact ⟨config, client, hconfig, rfl⟩
  · rename_i hnone
    have hguard := (Bool.and_eq_true_iff.mp h).2
    unfold canOffer at hguard
    simp only [Bool.and_eq_true, Option.isSome_iff_exists] at hguard
    obtain ⟨⟨⟨⟨config, hconfig⟩, client, hsignaling⟩, -⟩, -⟩ := hguard
    exact (hnone config client hconfig hsignaling).elim

/-- An accepted file was sent to its end, or not. The task has kept the signaling client.
Source: `ConnectionManager.swift`, `send(data:name:mime:category:)`, from the answer
Kind: D -/
def onTransferred (s : PhoneClient) (waiter : PhoneWaiter) (complete : Bool) : PhoneClient :=
  let s := s.goOn waiter.begun waiter.rest
  if complete then
    { s with sent := s.sent ++ [⟨waiter.client, waiter.config.connection, none,
      .fileComplete waiter.config.value.peerRoom waiter.config.value.peerName⟩] }
  else s

/-- A piece of work runs on the main actor.
Source: `ConnectionManager.swift`, `connect`, `startNegotiation` and
`send(data:name:mime:category:)`
Kind: D -/
def runWork (s : PhoneClient) (w : Stamped PhoneWork) (outcome : Outcome) : PhoneClient :=
  match w.value with
  | .message message => s.handle decode message
  | .serverLost reason => s.fail (str "Server connection lost: " ++ reason)
  | .created config => s.onCreated w.connection config outcome.made
  | .opened => if s.state = .negotiating then { s with state := .ready } else s
  | .channelClosed => s.fail (str "Data channel closed")
  | .offered config session => s.onOffered w.connection config session outcome
  | .timeout session =>
    if s.state = .negotiating ∧ s.session = some session then
      s.fail (str "Timed out waiting for the data channel")
    else s
  | .item rest => s.sendItem w.connection rest outcome
  | .transfer waiter => s.onTransferred waiter outcome.made

/-- What can happen. Kind: D -/
inductive Event where
  /-- The user connects. -/
  | connect (config : PhoneConfig) (valid : Bool)
  /-- The user disconnects. -/
  | disconnect
  /-- The user picks a file, or a photo with others behind it. -/
  | pick (rest : ℕ)
  /-- A signaling client receives a message. -/
  | receive (client : ℕ) (message : PhoneInbound)
  /-- The signaling client loses the server. -/
  | serverLost (reason : Str)
  /-- The data channel of the session opens. -/
  | opened
  /-- It closes. -/
  | channelClosed
  /-- A piece of work runs. -/
  | run (i : ℕ) (outcome : Outcome)

/-- One step. A signaling client that `disconnect` has closed calls `onClose` no more, and neither
does a session; `onMessage` stays.
Source: `ConnectionManager.swift`; `SignalingClient.swift`; `PeerSession.swift`
Kind: D -/
def step (s : PhoneClient) : Event → Option PhoneClient
  | .connect config valid => some (s.connect config valid)
  | .disconnect => some s.disconnect
  | .pick rest => some (s.queue s.connection (.item rest))
  | .receive client message =>
    if client ∈ s.clients then some (s.queue client (.message message)) else none
  | .serverLost reason =>
    match s.signaling, s.closed with
    | some client, false => some ({ s with closed := true }.queue client (.serverLost reason))
    | _, _ => none
  | .opened => s.session.map fun session => s.queue session.connection .opened
  | .channelClosed => s.session.map fun session => s.queue session.connection .channelClosed
  | .run i outcome =>
    (s.works[i]?).map fun w => { s with works := s.works.eraseIdx i }.runWork decode w outcome

/-! ## The property and its condition -/

/-- What connections share. Kind: D -/
def shared (s : PhoneClient) : PhoneState × Std.ExtTreeSet Str × Std.ExtTreeMap Str Peers ×
    Option PhoneSession × List PhoneRemote × Std.ExtTreeMap Str PhoneWaiter :=
  (s.state, s.joinedRooms, s.roomPeers, s.session, s.remote, s.acceptWaiters)

/-- The event runs work of an earlier connection, be it of a task that was begun under it. Kind: D
-/
def stale (s : PhoneClient) : Event → Bool
  | .run i _ => (s.works[i]?).any fun w => w.connection < s.connection
  | _ => false

/-- What was sent through a signaling client was built from the config and the session of its
connection. Kind: D -/
def Owned (s : PhoneClient) : Prop :=
  ∀ m ∈ s.sent, m.config = m.client ∧ ∀ n, m.session = some n → n = m.client

/-- The step leaves what connections share if it runs work of an earlier one, and what was sent has
been built as it should. Kind: D -/
def Separate (s : PhoneClient) (e : Event) : Prop :=
  ∀ s', s.step decode e = some s' → (s.stale e = true → s'.shared = s.shared) ∧ s'.Owned

/-- Source: `ConnectionManager.swift`, `isActive`. Kind: D -/
def isActive (s : PhoneClient) : Bool :=
  match s.state with
  | .idle | .failed _ => false
  | _ => true

/-- The latest connection is where it waits for such a message: for one about rooms as long as it is
active, for one from the other side once it has a session, for an answer while the offer waits.
Kind: D -/
def awaitsMessage (s : PhoneClient) (m : PhoneInbound) : Bool :=
  m.type.any fun type =>
    if type ∈ [str "join", str "peer_joined", str "leave", str "peer_left"] then s.isActive
    else if type ∈ [str "answer", str "candidate"] then s.session.isSome
    else type ∈ [str "file_accept", str "file_reject"] && m.uuid.any fun uuid => uuid ∈ s.acceptWaiters

/-- The latest connection is where it waits for such a piece of work. For the timeout of an earlier
one, and the end of its transfers, it never does.
Kind: D -/
def awaits (s : PhoneClient) (work : PhoneWork) (outcome : Outcome) : Bool :=
  match work with
  | .message message => s.awaitsMessage message
  | .serverLost _ | .channelClosed => s.state ≠ .idle
  | .created _ =>
    if outcome.made then s.state = .negotiating && s.session.isNone else s.state ≠ .idle
  | .opened => s.state = .negotiating
  | .offered _ _ => if outcome.encoded.isSome then s.isActive else s.state ≠ .idle
  | .item _ => outcome.made && s.state = .ready
  | .timeout _ | .transfer _ => false

/-- Work of an earlier connection comes when the latest one does not wait for its like. Kind: D -/
def unawaited (s : PhoneClient) (e : Event) : Bool :=
  !s.stale e || match e with
    | .run i outcome => (s.works[i]?).all fun w => !s.awaits w.value outcome
    | _ => true

/-! ## What belongs to the connection -/

/-- Work carries what belongs to its own connection. Kind: D -/
def Own (w : Stamped PhoneWork) : Prop :=
  match w.value with
  | .created config => config.connection = w.connection
  | .offered config session => config.connection = w.connection ∧ session.connection = w.connection
  | .timeout session => session.connection = w.connection
  | .transfer waiter => waiter.begun = w.connection ∧ waiter.config.connection = waiter.client
  | _ => True

/-- What a run keeps whose steps are all `unawaited`. Kind: D -/
structure Current (s : PhoneClient) : Prop where
  config : ∀ c, s.config = some c → c.connection = s.connection
  signaling : ∀ g, s.signaling = some g → g = s.connection
  session : ∀ σ, s.session = some σ → σ.connection = s.connection
  waiters : ∀ (uuid : Str) w, s.acceptWaiters[uuid]? = some w →
    w.begun ≤ s.connection ∧ w.config.connection = w.client
  clients : ∀ g ∈ s.clients, g ≤ s.connection
  works : ∀ w ∈ s.works, w.connection ≤ s.connection ∧ Own w
  inactive : s.isActive = false → s.config = none ∧ s.signaling = none
  owned : s.Owned

variable {decode} {s s' : PhoneClient} {e : Event} {given : Stamped PhoneConfig}

/-- Nobody waits in an empty table. Kind: L -/
theorem not_waiting_of_empty {uuid : Str} {w : PhoneWaiter}
    (h : (∅ : Std.ExtTreeMap Str PhoneWaiter)[uuid]? = some w) : False :=
  Option.some_ne_none w (h.symm.trans Std.ExtTreeMap.getElem?_empty)

/-- At first there is no connection. Kind: L -/
theorem current_init : Current {} where
  config := nofun
  signaling := nofun
  session := nofun
  waiters := fun _ _ hw => (not_waiting_of_empty hw).elim
  clients := nofun
  works := nofun
  inactive := fun _ => ⟨rfl, rfl⟩
  owned := nofun

/-- Where there is a config, a connection is active. Kind: L -/
theorem Current.isActive_of_config (h : s.Current) (hconfig : s.config = some given) :
    s.isActive = true := by
  by_contra hidle
  obtain ⟨hnone, -⟩ := h.inactive (Bool.not_eq_true _ ▸ hidle)
  exact Option.some_ne_none given (hconfig.symm.trans hnone)

/-- More work that carries its own. Kind: L -/
theorem Current.addWorks (h : s.Current) {works : List (Stamped PhoneWork)}
    (hworks : ∀ w ∈ works, w.connection ≤ s.connection ∧ Own w) :
    Current { s with works := s.works ++ works } := by
  refine ⟨h.config, h.signaling, h.session, h.waiters, h.clients, fun w hw => ?_, h.inactive, h.owned⟩
  obtain hw | hw := List.mem_append.mp hw
  · exact h.works w hw
  · exact hworks w hw

/-- Queued work that carries its own. Kind: L -/
theorem Current.queue (h : s.Current) {connection : ℕ} {work : PhoneWork}
    (hle : connection ≤ s.connection) (hown : Own ⟨connection, work⟩) :
    (s.queue connection work).Current :=
  h.addWorks fun w hw => by
    rw [List.mem_singleton.mp hw]
    exact ⟨hle, hown⟩

/-- The next item of a task is work of the connection that the task was begun under. Kind: L -/
theorem own_nextItem {begun rest : ℕ} {w : Stamped PhoneWork} (hw : w ∈ nextItem begun rest) :
    w.connection = begun ∧ Own w := by
  cases rest with
  | zero => exact (List.not_mem_nil hw).elim
  | succ rest =>
      rw [List.mem_singleton.mp hw]
      exact ⟨rfl, trivial⟩

/-- A task that goes on. Kind: L -/
theorem Current.goOn (h : s.Current) {begun : ℕ} (hle : begun ≤ s.connection) (rest : ℕ) :
    (s.goOn begun rest).Current :=
  h.addWorks fun w hw => by
    obtain ⟨hbegun, hown⟩ := own_nextItem hw
    exact ⟨hbegun.trans_le hle, hown⟩

/-- Sending what is of the connection. Kind: L -/
theorem Current.send (h : s.Current) {number : ℕ} {session : Option ℕ} (message : PhoneOutbound)
    (hconfig : number = s.connection) (hsession : ∀ n, session = some n → n = s.connection) :
    (s.send number session message).Current := by
  unfold PhoneClient.send
  split
  · rename_i client hsignaling
    have hclient := h.signaling client hsignaling
    refine ⟨h.config, h.signaling, h.session, h.waiters, h.clients, h.works, h.inactive, fun m hm => ?_⟩
    obtain hm | hm := List.mem_append.mp hm
    · exact h.owned m hm
    · rw [List.mem_singleton.mp hm]
      exact ⟨hconfig.trans hclient.symm, fun n hn => (hsession n hn).trans hclient.symm⟩
  · exact h

/-- Sending begins no connection. Kind: L -/
theorem connection_send (number : ℕ) (session : Option ℕ) (message : PhoneOutbound) :
    (s.send number session message).connection = s.connection := by
  unfold PhoneClient.send
  split
  · rfl
  · rfl

/-! ## Connecting, disconnecting, failing -/

/-- **A disconnect ends what is of the connection**, but for the tasks that go on. Kind: P -/
theorem Current.disconnect (h : s.Current) : s.disconnect.Current where
  config := nofun
  signaling := nofun
  session := nofun
  waiters := fun _ _ hw => (not_waiting_of_empty hw).elim
  clients := h.clients
  works := by
    intro w hw
    obtain hw | hw := List.mem_append.mp hw
    · exact h.works w hw
    · obtain ⟨⟨uuid, waiter⟩, hwaiter, hnext⟩ := List.mem_flatMap.mp hw
      have hstored := Std.ExtTreeMap.mem_toList_iff_getElem?_eq_some.mp hwaiter
      obtain ⟨hbegun, hown⟩ := own_nextItem hnext
      exact ⟨hbegun.trans_le (h.waiters uuid waiter hstored).1, hown⟩
  inactive := fun _ => ⟨rfl, rfl⟩
  owned := by
    intro m hm
    obtain hm | hm := List.mem_append.mp hm
    · exact h.owned m hm
    · unfold leaves at hm
      split at hm
      · rename_i client config hsignaling hconfig
        obtain ⟨room, -, rfl⟩ := List.mem_map.mp hm
        exact ⟨(h.config config hconfig).trans (h.signaling client hsignaling).symm, nofun⟩
      · exact (List.not_mem_nil hm).elim

/-- Failing ends what is of the connection. Kind: L -/
theorem Current.fail (h : s.Current) (reason : Str) : (s.fail reason).Current := by
  unfold PhoneClient.fail
  split
  · exact h
  · have hdone := h.disconnect
    exact ⟨hdone.config, hdone.signaling, hdone.session, hdone.waiters, hdone.clients, hdone.works,
      fun _ => ⟨rfl, rfl⟩, hdone.owned⟩

/-- A connection that is idle does not fail. Kind: L -/
theorem fail_of_idle (h : decide (s.state ≠ .idle) = false) (reason : Str) : s.fail reason = s := by
  rw [decide_eq_false_iff_not, not_not] at h
  unfold PhoneClient.fail
  rw [if_pos h]

/-- A new connection begins with what is its own. Kind: L -/
theorem Current.connect (h : s.Current) (config : PhoneConfig) (valid : Bool) :
    (s.connect config valid).Current := by
  have hdone := h.disconnect
  have hle {n : ℕ} (hn : n ≤ s.connection) : n ≤ s.connection + 1 := Nat.le_succ_of_le hn
  unfold PhoneClient.connect
  dsimp only
  split
  · refine ⟨fun c hc => ?_, fun g hg => ?_, nofun, fun uuid w hw => (not_waiting_of_empty hw).elim,
      fun g hg => ?_, fun w hw => ?_, nofun, fun m hm => ?_⟩
    · rw [← Option.some.inj hc]
    · exact (Option.some.inj hg).symm
    · obtain hg | hg := List.mem_append.mp hg
      · exact hle (h.clients g hg)
      · exact (List.mem_singleton.mp hg).le
    · exact ⟨hle (hdone.works w hw).1, (hdone.works w hw).2⟩
    · obtain hm | hm := List.mem_append.mp hm
      · exact hdone.owned m hm
      · obtain ⟨room, -, rfl⟩ := List.mem_map.mp hm
        exact ⟨rfl, nofun⟩
  · exact ⟨nofun, nofun, nofun, fun uuid w hw => (not_waiting_of_empty hw).elim,
      fun g hg => hle (h.clients g hg),
      fun w hw => ⟨hle (hdone.works w hw).1, (hdone.works w hw).2⟩, fun _ => ⟨rfl, rfl⟩, hdone.owned⟩

/-! ## Messages -/

/-- Another state, of an active connection. Kind: L -/
theorem Current.setState (h : s.Current) {state : PhoneState}
    (hstate : isActive { s with state := state } = true) : Current { s with state := state } :=
  ⟨h.config, h.signaling, h.session, h.waiters, h.clients, h.works,
    fun hidle => Bool.noConfusion (hstate.symm.trans hidle), h.owned⟩

/-- Other rooms, peers, or what the session was told. Kind: L -/
theorem Current.setRooms (h : s.Current) (roomPeers : Std.ExtTreeMap Str Peers)
    (joinedRooms : Std.ExtTreeSet Str) (remote : List PhoneRemote) : Current { s with
      roomPeers := roomPeers
      joinedRooms := joinedRooms
      remote := remote } :=
  ⟨h.config, h.signaling, h.session, h.waiters, h.clients, h.works, h.inactive, h.owned⟩

/-- Advancing keeps what is of the connection. Kind: L -/
theorem Current.advance (h : s.Current) (hconfig : s.config = some given) :
    (s.advanceIfPossible given).Current := by
  unfold advanceIfPossible
  split
  · split
    · exact (h.setState rfl).queue le_rfl (h.config given hconfig)
    · exact h.setState rfl
  · exact h

/-- An answer to an offer keeps what is of the connection. Kind: L -/
theorem Current.onFileAnswer (h : s.Current) (uuid : Str) (accepted : Bool) :
    (s.onFileAnswer uuid accepted).Current := by
  unfold PhoneClient.onFileAnswer
  split
  · rename_i waiter hwaiter
    obtain ⟨hbegun, hown⟩ := h.waiters uuid waiter hwaiter
    have herased : Current { s with acceptWaiters := s.acceptWaiters.erase uuid } := by
      refine ⟨h.config, h.signaling, h.session, fun uuid' w hw => ?_, h.clients, h.works, h.inactive,
        h.owned⟩
      change (s.acceptWaiters.erase uuid)[uuid']? = some w at hw
      rw [getElem?_erase_eq] at hw
      split at hw
      · exact nomatch hw
      · exact h.waiters uuid' w hw
    dsimp only
    split
    · exact herased.queue hbegun ⟨rfl, hown⟩
    · exact herased.goOn hbegun _
  · exact h

/-- **A message keeps what is of the connection**, whichever connection it came on: it is handled
with the config of the latest. Kind: P -/
theorem Current.handle (h : s.Current) (m : PhoneInbound) : (s.handle decode m).Current := by
  have htell (remote : PhoneRemote) : (s.tell remote).Current := by
    unfold tell
    split
    · exact h.setRooms _ _ _
    · exact h
  unfold PhoneClient.handle
  split
  · rename_i type config _ hconfig
    split
    · split
      · exact (h.setRooms _ _ _).advance hconfig
      · exact h
    · split
      · split
        · rename_i room peers _ _
          have hrooms := h.setRooms (s.roomPeers.insert room (Std.ExtTreeSet.ofList peers))
            s.joinedRooms s.remote
          unfold onLeave
          dsimp only
          split
          · exact hrooms.fail _
          · exact hrooms
        · exact h
      · split
        · split
          · exact htell _
          · exact h
        · split
          · split
            · exact htell _
            · exact h
          · split
            · split
              · exact h.onFileAnswer _ _
              · exact h
            · exact h
  · exact h

/-- A session that is not there is told nothing. Kind: L -/
theorem tell_of_none (h : s.session.isSome = false) (remote : PhoneRemote) : s.tell remote = s := by
  unfold tell
  rw [h, if_neg Bool.false_ne_true]

/-- **A message that the connection does not wait for is not acted on.** Kind: P -/
theorem Current.handle_of_unawaited (h : s.Current) {m : PhoneInbound}
    (hnot : s.awaitsMessage m = false) : s.handle decode m = s := by
  unfold PhoneClient.handle
  split
  · rename_i type config htype hconfig
    unfold awaitsMessage at hnot
    rw [htype, Option.any_some, h.isActive_of_config hconfig] at hnot
    -- there is a config, so that the connection is active and waits for messages about rooms
    have hrooms : type ∉ [str "join", str "peer_joined", str "leave", str "peer_left"] := by
      intro hmem
      rw [if_pos hmem] at hnot
      exact Bool.noConfusion hnot
    rw [if_neg hrooms] at hnot
    simp only [List.mem_cons, List.not_mem_nil, or_false, not_or] at hrooms
    obtain ⟨hjoin, hjoined, hleave, hleft⟩ := hrooms
    rw [if_neg (not_or.mpr ⟨hjoin, hjoined⟩), if_neg (not_or.mpr ⟨hleave, hleft⟩)]
    split
    · rename_i hanswer
      rw [if_pos (by simp [hanswer])] at hnot
      split
      · exact tell_of_none hnot _
      · rfl
    · rename_i hanswer
      split
      · rename_i hcandidate
        rw [if_pos (by simp [hcandidate])] at hnot
        split
        · exact tell_of_none hnot _
        · rfl
      · rename_i hcandidate
        rw [if_neg (by simp [hanswer, hcandidate])] at hnot
        split
        · rename_i hfile
          split
          · rename_i uuid huuid
            have hmem : type ∈ [str "file_accept", str "file_reject"] := by simpa using hfile
            rw [decide_eq_true hmem, Bool.true_and, huuid, Option.any_some,
              decide_eq_false_iff_not] at hnot
            unfold PhoneClient.onFileAnswer
            rw [Std.ExtTreeMap.getElem?_eq_none hnot]
          · rfl
        · rfl
  · rfl

/-! ## Work -/

/-- A session keeps what is of the connection where it was created for it, or where it is not taken.
Kind: L -/
theorem Current.onCreated (h : s.Current) {connection : ℕ} {made : Bool}
    (hconfig : given.connection = connection) (hle : connection ≤ s.connection)
    (hmine : connection = s.connection ∨ made = false ∨
      (decide (s.state = .negotiating) && s.session.isNone) = false) :
    (s.onCreated connection given made).Current := by
  unfold PhoneClient.onCreated
  split
  · rename_i hmade
    dsimp only
    split
    · rename_i htaken
      have hconnection : connection = s.connection := by
        obtain hmine | hnot | hguarded := hmine
        · exact hmine
        · rw [hmade] at hnot
          exact Bool.noConfusion hnot
        · rw [htaken.1, htaken.2] at hguarded
          exact Bool.noConfusion hguarded
      have hsession : Current { s with
          made := s.made + 1
          session := some ⟨connection, s.made, given.value.stunServer⟩
          remote := [] } := by
        refine ⟨h.config, h.signaling, fun σ hσ => ?_, h.waiters, h.clients, h.works, h.inactive,
          h.owned⟩
        rw [← Option.some.inj hσ]
        exact hconnection
      exact hsession.queue hle ⟨hconfig, rfl⟩
    · exact ⟨h.config, h.signaling, h.session, h.waiters, h.clients, h.works, h.inactive, h.owned⟩
  · exact h.fail _

/-- An offer keeps what is of the connection where it was gathered for it, or where it is not sent.
Kind: L -/
theorem Current.onOffered (h : s.Current) {connection : ℕ} {session : PhoneSession} {outcome : Outcome}
    (hconfig : given.connection = connection) (hsession : session.connection = connection)
    (hle : connection ≤ s.connection)
    (hmine : connection = s.connection ∨ outcome.encoded.isSome = false ∨ s.isActive = false) :
    (s.onOffered connection given session outcome).Current := by
  unfold PhoneClient.onOffered
  split
  · rename_i offer hoffer
    obtain hsame | hnot | hidle := hmine
    · have hsent := h.send (.offer given.value.peerRoom given.value.peerName offer)
        (hconfig.trans hsame) fun n hn => (Option.some.inj hn).symm.trans (hsession.trans hsame)
      refine hsent.queue ?_ hsession
      rw [connection_send]
      exact hle
    · rw [hoffer] at hnot
      exact Bool.noConfusion hnot
    · have hquiet : s.send given.connection (some session.connection)
          (.offer given.value.peerRoom given.value.peerName offer) = s := by
        unfold PhoneClient.send
        rw [(h.inactive hidle).2]
      rw [hquiet]
      exact h.queue hle hsession
  · exact h.fail _

/-- An item is offered with what is of the connection, whatever its task was begun under. Kind: L -/
theorem Current.sendItem (h : s.Current) {begun : ℕ} (hle : begun ≤ s.connection) (rest : ℕ)
    (outcome : Outcome) : (s.sendItem begun rest outcome).Current := by
  unfold PhoneClient.sendItem
  split
  · rename_i config client hconfig hsignaling
    have hnow := h.config config hconfig
    split
    · have hwaiting : Current { s with
          acceptWaiters := s.acceptWaiters.insert outcome.uuid ⟨begun, client, config, rest⟩ } := by
        refine ⟨h.config, h.signaling, h.session, fun uuid w hw => ?_, h.clients, h.works, h.inactive,
          h.owned⟩
        change (s.acceptWaiters.insert outcome.uuid ⟨begun, client, config, rest⟩)[uuid]? = some w at hw
        rw [getElem?_insert_eq] at hw
        split at hw
        · rw [← Option.some.inj hw]
          exact ⟨hle, hnow.trans (h.signaling client hsignaling).symm⟩
        · exact h.waiters uuid w hw
      exact hwaiting.send _ hnow nofun
    · exact h.goOn hle rest
  · exact h.goOn hle rest

/-- A file that was sent keeps what is of the connection: its task has kept its own. Kind: L -/
theorem Current.onTransferred (h : s.Current) {waiter : PhoneWaiter} (hle : waiter.begun ≤ s.connection)
    (hown : waiter.config.connection = waiter.client) (complete : Bool) :
    (s.onTransferred waiter complete).Current := by
  have hon := h.goOn hle waiter.rest
  unfold PhoneClient.onTransferred
  dsimp only
  split
  · refine ⟨hon.config, hon.signaling, hon.session, hon.waiters, hon.clients, hon.works, hon.inactive,
      fun m hm => ?_⟩
    obtain hm | hm := List.mem_append.mp hm
    · exact hon.owned m hm
    · rw [List.mem_singleton.mp hm]
      exact ⟨hown, nofun⟩
  · exact hon

/-- Work keeps what is of the connection where it was started for it, or is not waited for. Kind: L
-/
theorem Current.runWork (h : s.Current) {w : Stamped PhoneWork} {outcome : Outcome}
    (hle : w.connection ≤ s.connection) (hown : Own w)
    (hmine : w.connection = s.connection ∨ s.awaits w.value outcome = false) :
    (s.runWork decode w outcome).Current := by
  unfold PhoneClient.runWork
  unfold Own at hown
  unfold awaits at hmine
  split
  · exact h.handle _
  · exact h.fail _
  · rename_i config hvalue
    simp only [hvalue] at hown hmine
    refine h.onCreated hown hle (hmine.imp_right fun hnot => ?_)
    cases hmade : outcome.made with
    | false => exact .inl rfl
    | true =>
        rw [hmade] at hnot
        exact .inr hnot
  · split
    · exact h.setState rfl
    · exact h
  · exact h.fail _
  · rename_i config session hvalue
    simp only [hvalue] at hown hmine
    refine h.onOffered hown.1 hown.2 hle (hmine.imp_right fun hnot => ?_)
    cases hoffer : outcome.encoded.isSome with
    | false => exact .inl rfl
    | true =>
        rw [hoffer] at hnot
        exact .inr hnot
  · split
    · exact h.fail _
    · exact h
  · exact h.sendItem hle _ outcome
  · rename_i waiter hvalue
    simp only [hvalue] at hown
    exact h.onTransferred (hown.1.trans_le hle) hown.2 _

/-- **Work of an earlier connection that is not waited for changes nothing that connections share.**
Kind: P -/
theorem shared_of_unawaited (h : s.Current) {w : Stamped PhoneWork} {outcome : Outcome}
    (hlt : w.connection < s.connection) (hown : Own w) (hnot : s.awaits w.value outcome = false) :
    (s.runWork decode w outcome).shared = s.shared := by
  unfold PhoneClient.runWork
  unfold Own at hown
  unfold awaits at hnot
  split
  · rename_i message hvalue
    simp only [hvalue] at hnot
    rw [h.handle_of_unawaited hnot]
  · rename_i reason hvalue
    simp only [hvalue] at hnot
    rw [fail_of_idle hnot]
  · rename_i config hvalue
    simp only [hvalue] at hnot
    unfold PhoneClient.onCreated
    cases hmade : outcome.made with
    | false =>
        rw [hmade] at hnot
        rw [if_neg Bool.false_ne_true, fail_of_idle hnot]
    | true =>
        rw [hmade, if_pos rfl] at hnot
        rw [if_pos rfl, if_neg]
        · rfl
        · rintro ⟨hnegotiating, hnone⟩
          rw [hnegotiating, hnone] at hnot
          exact Bool.noConfusion hnot
  · rename_i hvalue
    simp only [hvalue, decide_eq_false_iff_not] at hnot
    rw [if_neg hnot]
  · rename_i hvalue
    simp only [hvalue] at hnot
    rw [fail_of_idle hnot]
  · rename_i config session hvalue
    simp only [hvalue] at hnot
    unfold PhoneClient.onOffered
    split
    · rename_i offer hoffer
      rw [hoffer, Option.isSome_some, if_pos rfl] at hnot
      unfold PhoneClient.send
      rw [(h.inactive hnot).2]
      rfl
    · rename_i hoffer
      rw [hoffer, Option.isSome_none, if_neg Bool.false_ne_true] at hnot
      rw [fail_of_idle hnot]
  · rename_i session hvalue
    simp only [hvalue] at hown
    rw [if_neg]
    rintro ⟨-, hsession⟩
    -- The timeout asks for its own session, which an earlier connection had.
    have hnow := h.session session hsession
    omega
  · rename_i rest hvalue
    simp only [hvalue] at hnot
    have hready : ¬(outcome.made && s.canOffer) = true := by
      unfold canOffer
      rw [Bool.and_left_comm, hnot, Bool.and_false]
      exact Bool.false_ne_true
    unfold PhoneClient.sendItem
    split
    · rw [if_neg hready]
      rfl
    · rfl
  · unfold PhoneClient.onTransferred
    dsimp only
    split
    · rfl
    · rfl

/-! ## Every step -/

/-- Work that is taken from the queue. Kind: L -/
theorem Current.take (h : s.Current) (i : ℕ) : Current { s with works := s.works.eraseIdx i } :=
  ⟨h.config, h.signaling, h.session, h.waiters, h.clients,
    fun w hw => h.works w (List.mem_of_mem_eraseIdx hw), h.inactive, h.owned⟩

/-- What runs on the queue is of the connection, or is not waited for. Kind: L -/
theorem unawaited_run {i : ℕ} {w : Stamped PhoneWork} {outcome : Outcome} (h : s.Current)
    (hw : s.works[i]? = some w) (hun : s.unawaited (.run i outcome) = true) :
    w.connection = s.connection ∨ s.awaits w.value outcome = false := by
  simp only [unawaited, stale, hw, Option.any_some, Option.all_some, Bool.or_eq_true,
    Bool.not_eq_true', decide_eq_false_iff_not, not_lt] at hun
  exact hun.imp_left fun hge => le_antisymm (h.works w (List.mem_of_getElem? hw)).1 hge

/-- **What a step keeps that is `unawaited`.** Kind: P -/
theorem current_step (h : s.Current) (hun : s.unawaited e = true)
    (hstep : s.step decode e = some s') : s'.Current := by
  cases e with
  | connect config valid =>
      obtain rfl := Option.some.inj hstep
      exact h.connect config valid
  | disconnect =>
      obtain rfl := Option.some.inj hstep
      exact h.disconnect
  | pick rest =>
      obtain rfl := Option.some.inj hstep
      exact h.queue le_rfl trivial
  | receive client message =>
      simp only [step] at hstep
      split at hstep
      · rename_i hclient
        obtain rfl := Option.some.inj hstep
        exact h.queue (h.clients client hclient) trivial
      · exact nomatch hstep
  | serverLost reason =>
      simp only [step] at hstep
      split at hstep
      · rename_i client hsignaling _
        obtain rfl := Option.some.inj hstep
        have hclosed : Current { s with closed := true } :=
          ⟨h.config, h.signaling, h.session, h.waiters, h.clients, h.works, h.inactive, h.owned⟩
        exact hclosed.queue (h.signaling client hsignaling).le trivial
      · exact nomatch hstep
  | opened =>
      obtain ⟨session, hsession, rfl⟩ := Option.map_eq_some_iff.mp hstep
      exact h.queue (h.session session hsession).le trivial
  | channelClosed =>
      obtain ⟨session, hsession, rfl⟩ := Option.map_eq_some_iff.mp hstep
      exact h.queue (h.session session hsession).le trivial
  | run i outcome =>
      obtain ⟨w, hw, rfl⟩ := Option.map_eq_some_iff.mp hstep
      obtain ⟨hle, hown⟩ := h.works w (List.mem_of_getElem? hw)
      have hmine := unawaited_run h hw hun
      exact (h.take i).runWork hle hown hmine

/-- **A step that is `unawaited` keeps connections apart.** Kind: P -/
theorem separate_step (h : s.Current) (hun : s.unawaited e = true) : s.Separate decode e := by
  intro s' hstep
  refine ⟨fun hstale => ?_, (current_step h hun hstep).owned⟩
  cases e with
  | run i outcome =>
      obtain ⟨w, hw, rfl⟩ := Option.map_eq_some_iff.mp hstep
      simp only [stale, hw, Option.any_some, decide_eq_true_eq] at hstale
      have hnot := (unawaited_run h hw hun).resolve_left hstale.ne
      exact shared_of_unawaited (h.take i) hstale (h.works w (List.mem_of_getElem? hw)).2 hnot
  | connect config valid => exact Bool.noConfusion hstale
  | disconnect => exact Bool.noConfusion hstale
  | pick rest => exact Bool.noConfusion hstale
  | receive client message => exact Bool.noConfusion hstale
  | serverLost reason => exact Bool.noConfusion hstale
  | opened => exact Bool.noConfusion hstale
  | channelClosed => exact Bool.noConfusion hstale

/-- **Connections keep apart** in every run in which work of an earlier connection comes when the
latest one does not wait for its like: it changes nothing that connections share, and every message
that was sent through a signaling client was built from the config of its connection and the session
created for it. Kind: P -/
theorem separate_of_unawaited (decode : Str → Option Str) (es : List Event)
    (h : Runs.Meets (step decode) (fun s e => s.unawaited e = true) {} es) :
    Runs.Meets (step decode) (Separate decode) {} es :=
  h.imp_of_invariant (step decode) (fun _ _ _ hc hu hs => current_step hc hu hs)
    (fun _ _ hc hu => separate_step hc hu) current_init

/-- The user `me`, to whom `b` is in the room `r`. Kind: D -/
def firstConfig : PhoneConfig := ⟨str "stun", str "me", str "r", str "b", str "r"⟩

/-- The same user, to whom `c` is in the room `q`. Kind: D -/
def nextConfig : PhoneConfig := ⟨str "stun", str "me", str "q", str "c", str "q"⟩

/-- What the server tells of a room that the user has joined. Kind: D -/
def joined (room peer : Str) : PhoneInbound where
  type := some (str "join")
  room := some room
  peers := some [str "me", peer]
  peerId := some (str "me")

/-- The first connection is given up while its session is being created, and the next one is made
before that has ended. Kind: D -/
def reconnected : List Event :=
  [.connect firstConfig true, .receive 1 (joined (str "r") (str "b")), .run 0 {}, .disconnect,
    .connect nextConfig true]

/-- The session comes before the next connection negotiates, and is closed. Kind: P -/
theorem separate_reconnected : Runs.Meets (step some) (Separate some) {}
      (reconnected ++ [.run 0 {}, .receive 2 (joined (str "q") (str "c")), .run 0 {}]) ∧
    (Runs.run (step some) {}
      (reconnected ++ [.run 0 {}, .receive 2 (joined (str "q") (str "c")), .run 0 {}])).isSome = true :=
  ⟨separate_of_unawaited some _ (by decide +kernel), by decide +kernel⟩

/-- The next connection negotiates before the session comes. Kind: D -/
def renegotiated : List Event :=
  reconnected ++ [.receive 2 (joined (str "q") (str "c")), .run 1 {}]

/-- The session comes when the next connection negotiates, and is taken for its own. Kind: P -/
theorem session_taken_over : ¬ ∀ decode es, Runs.Meets (step decode) (Separate decode) {} es := by
  intro hall
  have hend : (Runs.run (step some) {} renegotiated).any (fun s =>
      (s.stale (.run 0 {}) && s.session.isNone &&
        (s.step some (.run 0 {})).any fun s' => s'.session.isSome) &&
      (s.step some (.run 0 {})).isSome) = true := by
    decide +kernel
  obtain ⟨s, htest, hseparate⟩ :=
    (hall some (renegotiated ++ [.run 0 {}])).at_last (step some) hend
  obtain ⟨hbefore, hafter⟩ := Bool.and_eq_true_iff.mp htest
  obtain ⟨hstale, hnone⟩ := Bool.and_eq_true_iff.mp hbefore
  obtain ⟨s', hstep, hsome⟩ := (Option.any_eq_true _ _).mp hafter
  have hsame := congrArg (fun shared => shared.2.2.2.1) ((hseparate s' hstep).1 hstale)
  change s'.session = s.session at hsame
  rw [hsame, Option.isSome_eq_false_iff.mpr hnone] at hsome
  exact Bool.noConfusion hsome

/-- A batch of two photos is picked, the first one is offered, and the user connects anew, up to
where the next connection is ready. Kind: D -/
def batchKept : List Event :=
  [.connect firstConfig true, .receive 1 (joined (str "r") (str "b")), .run 0 {}, .run 0 {}, .opened,
    .run 1 {}, .pick 1, .run 1 { uuid := str "u" }, .disconnect, .connect nextConfig true,
    .receive 2 (joined (str "q") (str "c")), .run 2 {}, .run 2 {}, .opened, .run 3 {}]

-- The second photo, which was picked for `b`, waits for the answer of `c`.
example : (Runs.run (step some) {} batchKept).any (fun s =>
    s.stale (.run 1 { uuid := str "v" }) && s.acceptWaiters.isEmpty &&
      (s.step some (.run 1 { uuid := str "v" })).any fun s' =>
        (s'.acceptWaiters[str "v"]?).any fun waiter =>
          waiter.begun = 1 && waiter.client = 2 && waiter.config.value.peerName = str "c") = true := by
  decide +kernel

end PhoneClient

end CloudNode
