import CloudNode.Client.Rosters
import CloudNode.Transfer.Incoming
import CloudNode.Transfer.Naming

/-!
# The client's handlers, as they read their documents

What the server relays comes from other clients, and the server looks at little of it. Each handler
is a function of the document and of what it finds in the client; the result says what it goes on
to do. `OnJoin` and `OnLeave` are in `Rosters`.

* `onFileOffer` — the offer that a document makes, and the document that answers it:
  `SendFileAccept` and `SendFileReject` send the offer back with another type and a new `peer`.
* `onOffer` — the descriptions and candidates that the other side put into one document.
-/

namespace CloudNode

/-- A call into a peer connection, which may throw.
Source: `WebRTCClient.cpp`, `OnOffer`, `OnAnswer` and `OnCandidate`
Kind: D -/
inductive Call where
  /-- `MakePeerConnection`. -/
  | connect (key : PeerRoomKey)
  | setRemoteDescription (key : PeerRoomKey) (sdp type : Str)
  | createAnswer (key : PeerRoomKey)
  | addRemoteCandidate (key : PeerRoomKey) (candidate mid : Str)

/-- An offered file, as the receiver reads it.
Source: `WebRTCClient.cpp`, `OnFileOffer`
Kind: D -/
structure OfferedFile where
  peer : Str
  room : Str
  name : Str
  size : ℤ
  mimeType : Str
  crc : Option ℕ

/-- What the handlers find in the client and around it. Kind: D -/
structure Surroundings where
  /-- The property `name`. -/
  name : Str
  /-- `m_room`. -/
  room : Str
  /-- `FindPeerConnection` has one. -/
  connected : PeerRoomKey → Bool
  /-- What the Base64 decoder makes of a text. -/
  decoder : Str → Str
  /-- The call returns; it throws otherwise, which ends the handler. -/
  returns : Call → Bool
  /-- `SendMessage` succeeds: the message port becomes active and takes the message. -/
  sends : Bool
  /-- The current path. -/
  cwd : WorkingDirectory
  /-- The property `directory`. -/
  directory : Str
  /-- The directories above a destination are there or can be created. -/
  creates : FilePath → Bool
  /-- The CRC of a regular file, `none` when there is no such file or it cannot be read. -/
  crcOf : FilePath → Option ℕ
  /-- What the file system says when the next files of a queue are prepared. -/
  prepare : ℕ → Preparation

namespace Client

open Json

variable (env : Surroundings)

/-! ## Responses -/

/-- The uuid of a response, `none` when it has none.
Source: `WebRTCClient.cpp`, `TakePendingOffer`, which looks it up in `m_pendingOffers`
Kind: D -/
def responseUuid (doc : Json) : Except Fault (Option Str) := do
  if !(← doc.hasSuch (str "uuid") isString) then
    return none
  return some (← doc.stringAt (str "uuid"))

/-- Whether a `pong` is this client's.
Source: `WebRTCClient.cpp`, `OnPingPong` up to the state update
Kind: D -/
def onPingPong (doc : Json) : Except Fault Bool := do
  if !(← doc.hasSuch (str "type") isString) then
    return false
  if (← doc.stringAt (str "type")) ≠ str "pong" || !(← doc.hasSuch (str "id") isString) then
    return false
  return (← doc.stringAt (str "id")) = env.name

/-- The sender and room of a completion, for the log.
Source: `WebRTCClient.cpp`, `OnFileComplete`
Kind: D -/
def onFileComplete (doc : Json) : Except Fault (Option (Str × Str)) := do
  if !(← doc.hasSuch (str "peer") isString) || !(← doc.hasSuch (str "room") isString) then
    return none
  return some (← doc.stringAt (str "peer"), ← doc.stringAt (str "room"))

/-! ## Peer connections -/

/-- Source: `LocalDescription.cpp`, `base64Decode`. Kind: D -/
def base64Decode (input : Str) : Option Str :=
  if input = [] then none else some (env.decoder input)

/-- `doc.HasMember(k) && doc[k].IsString() ? doc[k].GetString() : other`. Kind: D -/
def stringOr (doc : Json) (k other : Str) : Except Fault Str := do
  if ← doc.hasSuch k isString then
    doc.stringAt k
  else
    return other

/-- Source: `WebRTCClient.cpp`, `OnAnswer`. Kind: D -/
def onAnswer (doc : Json) : Except Fault (List Call) := do
  let peer ← stringOr doc (str "peer") []
  let room ← stringOr doc (str "room") env.room
  if !env.connected (peer, room) then
    return []
  if !(← doc.hasSuch (str "sdp") isString) then
    return []
  match base64Decode env (← doc.stringAt (str "sdp")) with
  | none => return []
  | some description => return [.setRemoteDescription (peer, room) description (str "answer")]

/-- Source: `WebRTCClient.cpp`, `OnCandidate`. Kind: D -/
def onCandidate (doc : Json) : Except Fault (List Call) := do
  let peer ← stringOr doc (str "peer") []
  let room ← stringOr doc (str "room") env.room
  if !env.connected (peer, room) then
    return []
  if !(← doc.hasSuch (str "candidate") isString) || !(← doc.hasSuch (str "mid") isString) then
    return []
  return [.addRemoteCandidate (peer, room) (← doc.stringAt (str "candidate"))
    (← doc.stringAt (str "mid"))]

/-- The calls that are made one after the other, up to the first that throws. Kind: D -/
def inTurn : List Call → List Call
  | [] => []
  | call :: calls => if env.returns call then call :: inTurn calls else [call]

/-- The first of the `descriptions`, which nothing looks at before it is read; the calls made, and
whether the handler goes on.
Source: `WebRTCClient.cpp`, `OnOffer`, `if (!doc.HasMember("descriptions") ..`
Kind: D -/
def takeDescription (key : PeerRoomKey) (doc : Json) : Except Fault (List Call × Bool) := do
  if !(← doc.hasSuch (str "descriptions") isArray) then
    return ([], true)
  let first ← element (← (← doc.member (str "descriptions")).getArray) 0
  match base64Decode env (← first.getString) with
  | none => return ([], true)
  | some sdp =>
    let calls := [.setRemoteDescription key sdp (str "offer"), .createAnswer key]
    return (inTurn env calls, calls.all env.returns)

/-- The loop over the `candidates`, none of which anything looks at before it is read.
Source: `WebRTCClient.cpp`, `OnOffer`, `for (rapidjson::SizeType i = 0; ..`
Kind: D -/
def takeCandidates (key : PeerRoomKey) : List Json → Except Fault (List Call)
  | [] => return []
  | first :: rest => do
    match base64Decode env (← first.getString) with
    | none => takeCandidates key rest
    | some candidate =>
      let call := .addRemoteCandidate key candidate (str "0")
      if env.returns call then
        return call :: (← takeCandidates key rest)
      else
        return [call]

/-- A new peer connection for an offer. Its callbacks run later and read no document.
Source: `WebRTCClient.cpp`, `OnOffer` from `MakePeerConnection` on
Kind: D -/
def takeOffer (key : PeerRoomKey) (doc : Json) : Except Fault (List Call) := do
  if !env.returns (.connect key) then
    return [.connect key]
  let (calls, goesOn) ← takeDescription env key doc
  if !goesOn then
    return .connect key :: calls
  if !(← doc.hasSuch (str "candidates") isArray) then
    return .connect key :: calls
  return .connect key :: calls ++
    (← takeCandidates env key (← (← doc.member (str "candidates")).getArray))

/-- Source: `WebRTCClient.cpp`, `OnOffer`. Kind: D -/
def onOffer (doc : Json) : Except Fault (List Call) := do
  if !(← doc.hasSuch (str "peer") isString) || !(← doc.hasSuch (str "room") isString) then
    return []
  takeOffer env (← doc.stringAt (str "peer"), ← doc.stringAt (str "room")) doc

/-! ## File offers -/

/-- The document that `SendMessage` is given. The first member named `peer` is erased twice.
Source: `WebRTCClient.cpp`, `SendFileAccept`
Kind: D -/
def sendFileAccept (doc : Json) : Except Fault (Option Json) := do
  if !(← doc.hasSuch (str "peer") isString) then
    return none
  let peer ← doc.stringAt (str "peer")
  let doc ← doc.setString (str "type") (str "file_accept")
  let doc ← doc.eraseMember (str "peer")
  let doc ← doc.eraseMember (str "peer")
  return some (← doc.addMember (str "peer") (.str peer))

/-- The document that `SendMessage` is given. Source: `WebRTCClient.cpp`, `SendFileReject`.
Kind: D -/
def sendFileReject (doc : Json) : Except Fault (Option Json) := do
  if !(← doc.hasSuch (str "peer") isString) || !(← doc.hasSuch (str "uuid") isString) then
    return none
  let peer ← doc.stringAt (str "peer")
  let doc ← doc.setString (str "type") (str "file_reject")
  let doc ← doc.eraseMember (str "peer")
  return some (← doc.addMember (str "peer") (.str peer))

/-- `file.HasMember(k) && file[k].IsUint64()`, and then the number. Kind: D -/
def optionalUint64 (file : Json) (k : Str) : Except Fault (Option ℕ) := do
  if ← file.hasSuch k isUint64 then
    return some (← (← file.member k).getUint64)
  else
    return none

/-- The offer that a document makes, `none` when something of it is missing.
Source: `WebRTCClient.cpp`, `OnFileOffer`, its guards and the reads behind them
Kind: D -/
def readOffer (doc : Json) : Except Fault (Option OfferedFile) := do
  if !(← doc.hasSuch (str "peer") isString) || !(← doc.hasSuch (str "room") isString) ||
      !(← doc.hasSuch (str "file") isObject) then
    return none
  let file ← doc.member (str "file")
  if !(← file.hasSuch (str "name") isString) || !(← file.hasSuch (str "size") isInt64) ||
      !(← file.hasSuch (str "mimeType") isString) then
    return none
  let crc ← optionalUint64 file (str "crc")
  return some {
    peer := ← doc.stringAt (str "peer")
    room := ← doc.stringAt (str "room")
    name := ← file.stringAt (str "name")
    size := ← (← file.member (str "size")).getInt64
    mimeType := ← file.stringAt (str "mimeType")
    crc := crc }

/-- What the receiver makes of an offer before it touches a queue.
Source: `WebRTCClient.cpp`, `OnFileOffer` from `const auto directory` to `SendFileReject`
Kind: D -/
def verdict (offer : OfferedFile) : Incoming.Verdict :=
  match destination env.directory offer.name with
  | none => .refused
  | some destination =>
    if !env.creates destination then .refused
    else if offer.crc.isSome && env.crcOf destination = offer.crc then .duplicate
    else .accepted (pathString destination)

/-- Source: `fs::absolute(..).lexically_normal().string()`. Kind: D -/
def absolute (path : Str) : Str := pathString (resolve env.cwd (parsePath path))

/-- The documents that go out of those that `SendMessage` is given. Kind: D -/
def sendMessage (payload : Option Json) : List Json := if env.sends then payload.toList else []

/-- A file offer arrives: the documents that are sent, and the queues.
Source: `WebRTCClient.cpp`, `OnFileOffer`
Kind: D -/
def onFileOffer {β : Type} (doc : Json) (s : Incoming OfferedFile β) :
    Except Fault (List Json × Incoming OfferedFile β) := do
  match ← readOffer doc with
  | none => return ([], s)
  | some offer =>
    let (response, s) := Incoming.onFileOffer (absolute env) env.prepare (offer.peer, offer.room)
      offer offer.size (verdict env offer) s
    match response with
    | none => return ([], s)
    | some .accept => return (sendMessage env (← sendFileAccept doc), s)
    | some .reject => return (sendMessage env (← sendFileReject doc), s)

/-! ## The router -/

/-- The client's tables that the handlers change or answer from. Kind: D -/
structure Tables (β : Type) where
  rooms : Rooms
  incoming : Incoming OfferedFile β

/-- What a handler has made of its document. Kind: D -/
inductive Reaction (β : Type) where
  | ignored
  | roster (rooms : Rooms) (confirmed : Option (Str × Str))
  | response (accepted : Bool) (uuid : Option Str)
  | connection (calls : List Call)
  | answered (sent : List Json) (incoming : Incoming OfferedFile β)
  | completed (parties : Option (Str × Str))
  | pong (mine : Bool)

/-- The client's handler for what the router selected. Kind: D -/
def handle {β : Type} (h : Handler) (doc : Json) (t : Tables β) : Except Fault (Reaction β) :=
  match h with
  | .onJoin => do
    let (rooms, confirmed) ← onJoin doc t.rooms
    return .roster rooms confirmed
  | .onLeave => return .roster (← onLeave doc t.rooms) none
  | .onFileAccept => return .response true (← responseUuid doc)
  | .onFileReject => return .response false (← responseUuid doc)
  | .onOffer => return .connection (← onOffer env doc)
  | .onAnswer => return .connection (← onAnswer env doc)
  | .onCandidate => return .connection (← onCandidate env doc)
  | .onFileOffer => do
    let (sent, incoming) ← onFileOffer env doc t.incoming
    return .answered sent incoming
  | .onFileComplete => return .completed (← onFileComplete doc)
  | .onPingPong => return .pong (← onPingPong env doc)

/-- A parsed message of the server. Source: `WebRTC.hpp`, `MessageRouter`. Kind: D -/
def onMessage {β : Type} (doc : Json) (t : Tables β) : Except Fault (Reaction β) := do
  match ← messageRouter doc with
  | none => return .ignored
  | some h => handle env h doc t

end Client

end CloudNode
