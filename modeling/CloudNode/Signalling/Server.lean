import CloudNode.Signalling.Rooms
import CloudNode.Wire.Router

/-!
# The signalling server's handlers

`WebRTCServer` keeps two tables: the rooms with their members, and for every client id the socket
it last joined a room on. Each handler is a function of the calling socket (`CurrentWebSocket()`),
the document and the tables; it returns the tables it leaves and the messages it sent, or the
RapidJSON precondition it broke.

A guard `!a || !b || c` of the source stops at the first test that fails; here all its tests are
evaluated. That is the same, because no test of a guard can fault once the first one has not: they
all look into the same value.

The handlers of `offer`, `file_offer`, `file_accept`, `file_reject` and `file_complete` relay a
document only between two members of the room it names. Those of `answer` and `candidate` look at
no room.
-/

namespace CloudNode

/-- The identity of a server-side websocket object. Kind: D -/
abbrev Socket := ℕ

/-- A websocket with its `PerSocketData`. Source: `MessagePort.hpp`. Kind: D -/
structure Ws where
  socket : Socket
  clientId : Str

/-- What travels on a socket: a document written by RapidJSON, or the `pong` text, which the
server puts together by hand around the client's id. Kind: D -/
inductive Message where
  | document (doc : Json)
  | pong (id : Str)

/-- One `ws->send(..)`: the socket it was called on, the client id the server meant to reach, and
the message. Kind: D -/
structure Send where
  target : Socket
  addressee : Str
  message : Message

/-- The server's tables. Source: `WebRTC.hpp`, `m_rooms`; `WebRTCServer.hpp`, `m_clientDB`.
Kind: D -/
structure Server where
  rooms : Rooms := ∅
  clientDB : Std.ExtTreeMap Str Socket := ∅

/-- What a handler leaves: the tables and the messages it sent, in order. Kind: D -/
abbrev Outcome := Except Fault (Server × List Send)

/-- Metadata of a file request. Source: `WebRTCServer.hpp`, `FileDetails`. Kind: D -/
structure FileDetails where
  name : Str
  size : ℤ
  mimeType : Str

namespace Server

/-! ## Notifications -/

/-- The document of a roster notification. Source: `WebRTCServer.cpp`,
`SendJoinNotification` and `SendLeaveNotification`, which differ in the type. Kind: D -/
def rosterDocument (type whose room : Str) (peers : Peers) : Json :=
  .obj [(str "type", .str type), (str "peerId", .str (cstr whose)), (str "room", .str (cstr room)),
    (str "peers", .arr (peers.toList.map fun peer => .str (cstr peer)))]

/-- Tell one client about a room's roster; a client without a socket is skipped. Kind: D -/
def sendNotification (type : Str) (s : Server) (whoToNotify whose room : Str) (peers : Peers) :
    List Send :=
  match s.clientDB[whoToNotify]? with
  | none => []
  | some ws => [⟨ws, whoToNotify, .document (rosterDocument type whose room peers)⟩]

/-- Source: `WebRTCServer.cpp`, `SendJoinNotification`. Kind: D -/
def sendJoinNotification (s : Server) (whoToNotify whoJoined room : Str) (peers : Peers) :
    List Send :=
  sendNotification (str "peer_joined") s whoToNotify whoJoined room peers

/-- Source: `WebRTCServer.cpp`, `SendLeaveNotification`. Kind: D -/
def sendLeaveNotification (s : Server) (whoToNotify whoLeft room : Str) (peers : Peers) :
    List Send :=
  sendNotification (str "peer_left") s whoToNotify whoLeft room peers

/-! ## Membership -/

/-- Source: `WebRTCServer.cpp`, `OnJoin`. Kind: D -/
def onJoin (ws : Ws) (doc : Json) (s : Server) : Outcome := do
  if !(← doc.hasSuch (str "room") Json.isString) then
    return (s, [])
  let room ← doc.stringAt (str "room")
  let peer := ws.clientId
  match WebRTC.join s.rooms peer room with
  | (false, rooms) => return ({ s with rooms := rooms }, [])
  | (true, rooms) =>
    let s' : Server := { rooms := rooms, clientDB := s.clientDB.insert peer ws.socket }
    let peers := rooms.members room
    return (s', peers.toList.flatMap fun u => s'.sendJoinNotification u peer room peers)

/-- Take a peer out of a room and tell whoever is in that room now. The loop's `m_rooms[room]`
creates a room that was never joined.
Source: `WebRTCServer.cpp`, `Leave`
Kind: D -/
def leave (s : Server) (peer room : Str) : Server × List Send :=
  let s' := { s with rooms := (WebRTC.leave s.rooms peer room).2.touch room }
  let peers := s'.rooms.members room
  (s', peers.toList.flatMap fun u => s'.sendLeaveNotification u peer room peers)

/-- Source: `WebRTCServer.cpp`, `OnLeave`. Kind: D -/
def onLeave (ws : Ws) (doc : Json) (s : Server) : Outcome := do
  if !(← doc.hasSuch (str "room") Json.isString) then
    return (s, [])
  return s.leave ws.clientId (← doc.stringAt (str "room"))

/-- One turn of the loop over the rooms. The membership test reads the set the entry had when the
loop reached it: `Leave` on an earlier room changes another entry. Kind: D -/
def closeRoom (peer : Str) (acc : Server × List Send) (entry : Str × Peers) : Server × List Send :=
  if peer ∈ entry.2 then
    let out := acc.1.leave peer entry.1
    (out.1, acc.2 ++ out.2)
  else acc

/-- Source: `WebRTCServer.cpp`, `OnMessageClose`. Kind: D -/
def onMessageClose (ws : Ws) (s : Server) : Server × List Send :=
  s.rooms.toList.foldl (closeRoom ws.clientId) (s, [])

/-! ## Relays -/

/-- Both clients are in the room. Source: `WebRTCServer.cpp`, the test each checked relay makes.
Kind: D -/
def bothIn (s : Server) (from_ peer room : Str) : Bool :=
  from_ ∈ s.rooms.members room && peer ∈ s.rooms.members room

/-- The end of every relay: find the recipient's socket, put the sender's id in the document's
`peer`, send it.
Source: `WebRTCServer.cpp`, the tail of `HandleFile`, `OnFileComplete`, `OnOffer`, `OnAnswer` and
`OnCandidate`
Kind: D -/
def forward (s : Server) (from_ peer : Str) (doc : Json) : Outcome :=
  match s.clientDB[peer]? with
  | none => return (s, [])
  | some ws => do
    let doc ← doc.setString (str "peer") from_
    return (s, [⟨ws, peer, .document doc⟩])

/-- Source: `WebRTCServer.cpp`, `HandleFile`. Kind: D -/
def handleFile (ws : Ws) (doc : Json) (_file : FileDetails) (s : Server) : Outcome := do
  if !(← doc.hasSuch (str "room") Json.isString) || !(← doc.hasSuch (str "peer") Json.isString) ||
      !(← doc.hasSuch (str "file") Json.isObject) then
    return (s, [])
  let peer ← doc.stringAt (str "peer")
  let room ← doc.stringAt (str "room")
  let s := { s with rooms := s.rooms.touch room }
  if !s.bothIn ws.clientId peer room then
    return (s, [])
  s.forward ws.clientId peer doc

/-- `doc.HasMember("file") && doc["file"].IsObject()` and, if so, the same for a member of it.
Kind: D -/
def fileHasSuch (doc : Json) (k : Str) (isX : Json → Bool) : Except Fault Bool := do
  (← doc.member (str "file")).hasSuch k isX

/-- Source: `WebRTCServer.cpp`, `OnFileOffer`. The log line reads `doc["peer"]` before anything has
looked whether it is there. Kind: D -/
def onFileOffer (ws : Ws) (doc : Json) (s : Server) : Outcome := do
  if !(← doc.hasSuch (str "file") Json.isObject) then
    return (s, [])
  if !(← fileHasSuch doc (str "name") Json.isString) ||
      !(← fileHasSuch doc (str "size") Json.isInt64) ||
      !(← fileHasSuch doc (str "mimeType") Json.isString) then
    return (s, [])
  let file ← doc.member (str "file")
  let details : FileDetails :=
    ⟨← file.stringAt (str "name"), ← (← file.member (str "size")).getInt64,
      ← file.stringAt (str "mimeType")⟩
  let _logged ← doc.stringAt (str "peer")
  handleFile ws doc details s

/-- Source: `WebRTCServer.cpp`, `OnFileAccept`, whose log line reads `doc["peer"]` unchecked too.
Kind: D -/
def onFileAccept (ws : Ws) (doc : Json) (s : Server) : Outcome := do
  if !(← doc.hasSuch (str "file") Json.isObject) then
    return (s, [])
  if !(← fileHasSuch doc (str "name") Json.isString) then
    return (s, [])
  let details : FileDetails := ⟨← (← doc.member (str "file")).stringAt (str "name"), 0, []⟩
  let _logged ← doc.stringAt (str "peer")
  handleFile ws doc details s

/-- Source: `WebRTCServer.cpp`, `OnFileReject`. Kind: D -/
def onFileReject (ws : Ws) (doc : Json) (s : Server) : Outcome := do
  if !(← doc.hasSuch (str "file") Json.isObject) then
    return (s, [])
  if !(← fileHasSuch doc (str "name") Json.isString) ||
      !(← doc.hasSuch (str "peer") Json.isString) then
    return (s, [])
  let details : FileDetails := ⟨← (← doc.member (str "file")).stringAt (str "name"), 0, []⟩
  handleFile ws doc details s

/-- Source: `WebRTCServer.cpp`, `OnFileComplete`. Kind: D -/
def onFileComplete (ws : Ws) (doc : Json) (s : Server) : Outcome := do
  if !(← doc.hasSuch (str "peer") Json.isString) || !(← doc.hasSuch (str "room") Json.isString) then
    return (s, [])
  let peer ← doc.stringAt (str "peer")
  let room ← doc.stringAt (str "room")
  if !s.bothIn ws.clientId peer room then
    return (s, [])
  s.forward ws.clientId peer doc

/-- Source: `WebRTCServer.cpp`, `OnOffer`. Kind: D -/
def onOffer (ws : Ws) (doc : Json) (s : Server) : Outcome := do
  if !(← doc.hasSuch (str "peer") Json.isString) || !(← doc.hasSuch (str "room") Json.isString) ||
      !(← doc.hasSuch (str "descriptions") Json.isArray) then
    return (s, [])
  let peer ← doc.stringAt (str "peer")
  let room ← doc.stringAt (str "room")
  if !s.bothIn ws.clientId peer room then
    return (s, [])
  s.forward ws.clientId peer doc

/-- Source: `WebRTCServer.cpp`, `OnAnswer`. Kind: D -/
def onAnswer (ws : Ws) (doc : Json) (s : Server) : Outcome := do
  if !(← doc.hasSuch (str "peer") Json.isString) || !(← doc.hasSuch (str "sdp") Json.isString) then
    return (s, [])
  s.forward ws.clientId (← doc.stringAt (str "peer")) doc

/-- Source: `WebRTCServer.cpp`, `OnCandidate`. Kind: D -/
def onCandidate (ws : Ws) (doc : Json) (s : Server) : Outcome := do
  if !(← doc.hasSuch (str "peer") Json.isString) ||
      !(← doc.hasSuch (str "candidate") Json.isString) ||
      !(← doc.hasSuch (str "mid") Json.isString) then
    return (s, [])
  s.forward ws.clientId (← doc.stringAt (str "peer")) doc

/-- Source: `WebRTCServer.cpp`, `OnPingPong`. Kind: D -/
def onPingPong (ws : Ws) (_doc : Json) (s : Server) : Outcome :=
  return (s, [⟨ws.socket, ws.clientId, .pong ws.clientId⟩])

/-- The server's handler for what the router selected. Kind: D -/
def handle (h : Handler) : Ws → Json → Server → Outcome :=
  match h with
  | .onJoin => onJoin
  | .onLeave => onLeave
  | .onFileAccept => onFileAccept
  | .onFileReject => onFileReject
  | .onOffer => onOffer
  | .onAnswer => onAnswer
  | .onCandidate => onCandidate
  | .onFileOffer => onFileOffer
  | .onFileComplete => onFileComplete
  | .onPingPong => onPingPong

/-- A parsed text message, from the socket it came on.
Source: `WebRTC.hpp`, `MessageRouter`
Kind: D -/
def onMessage (ws : Ws) (doc : Json) (s : Server) : Outcome := do
  match ← messageRouter doc with
  | none => return (s, [])
  | some h => handle h ws doc s

end Server

end CloudNode
