import CloudNode.Wire.Json

/-!
# `MessageRouter`: from a received document to a handler

The router hashes the document's type and switches on the hash; client and server share it and
differ in the handlers.
-/

namespace CloudNode

/-- `static_cast<unsigned int>(c)` of a signed `char`: bytes from 128 on are sign-extended.
Source: `WebRTC.hpp`, `string_hash`
Kind: D -/
def charToUnsigned (c : UInt8) : UInt32 :=
  if c < 128 then c.toUInt32 else c.toUInt32 ||| 0xFFFFFF00

/-- FNV-1a over the bytes of a string, with 32-bit wraparound.
Source: `WebRTC.hpp`, `string_hash`
Kind: D -/
def stringHash (s : Str) : UInt32 :=
  s.foldl (fun hash c => (hash ^^^ charToUnsigned c) * 16777619) 2166136261

/-- The virtual handlers of `WebRTC`. Source: `WebRTC.hpp`. Kind: D -/
inductive Handler where
  | onJoin
  | onLeave
  | onFileAccept
  | onFileReject
  | onOffer
  | onAnswer
  | onCandidate
  | onFileOffer
  | onFileComplete
  | onPingPong
  deriving DecidableEq, Repr

/-- The `switch` of the router; `none` is its default branch ("Unhandled message").
Source: `WebRTC.hpp`, `MessageRouter`
Kind: D -/
def dispatch (type : Str) : Option Handler :=
  let hash := stringHash type
  if hash = stringHash (str "join") ∨ hash = stringHash (str "peer_joined") then some .onJoin
  else if hash = stringHash (str "peer_left") ∨ hash = stringHash (str "leave") then some .onLeave
  else if hash = stringHash (str "file_accept") then some .onFileAccept
  else if hash = stringHash (str "file_reject") then some .onFileReject
  else if hash = stringHash (str "offer") then some .onOffer
  else if hash = stringHash (str "answer") then some .onAnswer
  else if hash = stringHash (str "candidate") then some .onCandidate
  else if hash = stringHash (str "file_offer") then some .onFileOffer
  else if hash = stringHash (str "file_complete") then some .onFileComplete
  else if hash = stringHash (str "ping") ∨ hash = stringHash (str "pong") then some .onPingPong
  else none

example : dispatch (str "file_offer") = some .onFileOffer := by decide

/-- The handler a parsed document is given to. A document without a string `type` reaches none.
Source: `WebRTC.hpp`, `MessageRouter`
Kind: D -/
def messageRouter (doc : Json) : Except Fault (Option Handler) := do
  if !(← doc.hasSuch (str "type") Json.isString) then
    return none
  return dispatch (← doc.stringAt (str "type"))

/-- A document that reaches a handler is an object with a string `type`. Kind: L -/
theorem exists_members_of_messageRouter {doc : Json} {h : Handler}
    (hroute : messageRouter doc = .ok (some h)) :
    ∃ members type, doc = .obj members ∧ Json.find? members (str "type") = some (.str type) ∧
      dispatch (cstr type) = some h := by
  cases doc with
  | obj members =>
      unfold messageRouter at hroute
      rw [Json.hasSuch_obj] at hroute
      cases hany : (Json.find? members (str "type")).any Json.isString with
      | false =>
          rw [hany] at hroute
          cases hroute
      | true =>
          obtain ⟨type, htype⟩ := Json.exists_string_of_any hany
          rw [hany] at hroute
          refine ⟨members, type, rfl, htype, ?_⟩
          change (do return dispatch (← (Json.obj members).stringAt (str "type"))) = _ at hroute
          rw [Json.stringAt_of_find htype] at hroute
          exact Except.ok.inj hroute
  | _ => cases hroute

/-- Routing an object with a string `type`. Kind: L -/
theorem messageRouter_of_find {members : List (Str × Json)} {type : Str}
    (h : Json.find? members (str "type") = some (.str type)) :
    messageRouter (.obj members) = .ok (dispatch (cstr type)) := by
  unfold messageRouter
  rw [Json.hasSuch_obj, h]
  change (do return dispatch (← (Json.obj members).stringAt (str "type"))) = _
  rw [Json.stringAt_of_find h]
  rfl

end CloudNode
