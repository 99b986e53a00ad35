import CloudNode.Signalling.Handlers
import CloudNode.Wire.Syntax

/-!
# What a client's text can make the server access

The server parses whatever text a client sends. Its handlers test a member before they read it,
with three exceptions: the router looks for `type` in a document that may be no object, and
`OnFileOffer` and `OnFileAccept` read `peer` for their log lines before `HandleFile` tests it.
`OnFileReject`, which is the same handler otherwise, tests it first.

* `safe_onText_iff` — a text breaks no precondition, in any state, exactly if it does not parse or
  its document is none of these.
-/

namespace CloudNode

namespace Server

open Json

/-- A text message, from the socket it came on; `parse` is RapidJSON's, `none` a parse error.
Source: `WebRTC.hpp`, `MessageRouter`
Kind: D -/
def onText (parse : Str → Option Json) (ws : Ws) (text : Str) (s : Server) : Outcome :=
  match parse text with
  | none => return (s, [])
  | some doc => onMessage ws doc s

/-- The handler comes to a log line that reads `peer`: the file metadata is as the handler
requires. Kind: D -/
def logsPeer (h : Handler) (members : List (Str × Json)) : Bool :=
  match h, find? members (str "file") with
  | .onFileOffer, some (.obj file) =>
    (find? file (str "name")).any isString && (find? file (str "size")).any isInt64 &&
      (find? file (str "mimeType")).any isString
  | .onFileAccept, some (.obj file) => (find? file (str "name")).any isString
  | _, _ => false

/-- The document is an object and has a string `peer` if that is logged. Kind: D -/
def accessible : Json → Bool
  | .obj members =>
    match messageRouter (.obj members) with
    | .ok (some h) => !logsPeer h members || (find? members (str "peer")).any isString
    | _ => true
  | _ => false

/-! ## The handlers -/

variable {ws : Ws} {members : List (Str × Json)} {s : Server}

/-- Relaying a document that has a `peer` breaks nothing. Kind: L -/
theorem safe_forward {from_ peer : Str} (hpeer : (find? members (str "peer")).any isString = true) :
    Safe (s.forward from_ peer (.obj members)) := by
  obtain ⟨v, hv⟩ := exists_string_of_any hpeer
  unfold forward
  cases s.clientDB[peer]? with
  | none => exact safe_pure _
  | some k =>
      simp only [setString_of_find hv]
      exact ⟨_, rfl⟩

/-- The common end of a checked relay breaks nothing. Kind: L -/
theorem safe_forward_guarded {from_ peer : Str} {c : Bool} {out : Server × List Send}
    (hpeer : (find? members (str "peer")).any isString = true) :
    Safe (if c = true then pure out else s.forward from_ peer (.obj members)) :=
  safe_guard.mpr fun _ => safe_forward hpeer

/-- `HandleFile` tests what it reads. Kind: L -/
theorem safe_handleFile (file : FileDetails) : Safe (handleFile ws (.obj members) file s) := by
  unfold handleFile
  simp only [hasSuch_obj, ok_bind]
  rw [safe_guard]
  intro hguard
  simp only [Bool.or_eq_false_iff, Bool.not_eq_false'] at hguard
  obtain ⟨⟨hroom, hpeer⟩, -⟩ := hguard
  refine safe_stringAt_bind hpeer fun _ => safe_stringAt_bind hroom fun _ => ?_
  exact safe_forward_guarded hpeer

/-- `OnJoin` tests what it reads. Kind: L -/
theorem safe_onJoin : Safe (onJoin ws (.obj members) s) := by
  unfold onJoin
  simp only [hasSuch_obj, ok_bind]
  rw [safe_guard]
  intro hguard
  refine safe_stringAt_bind (by simpa using hguard) fun room => ?_
  split
  · exact safe_pure _
  · exact safe_pure _

/-- `OnLeave` tests what it reads. Kind: L -/
theorem safe_onLeave : Safe (onLeave ws (.obj members) s) := by
  unfold onLeave
  simp only [hasSuch_obj, ok_bind]
  rw [safe_guard]
  intro hguard
  exact safe_stringAt_bind (by simpa using hguard) fun _ => safe_pure _

/-- `OnFileComplete` tests what it reads. Kind: L -/
theorem safe_onFileComplete : Safe (onFileComplete ws (.obj members) s) := by
  unfold onFileComplete
  simp only [hasSuch_obj, ok_bind]
  rw [safe_guard]
  intro hguard
  simp only [Bool.or_eq_false_iff, Bool.not_eq_false'] at hguard
  obtain ⟨hpeer, hroom⟩ := hguard
  refine safe_stringAt_bind hpeer fun _ => safe_stringAt_bind hroom fun _ => ?_
  exact safe_forward_guarded hpeer

/-- `OnOffer` tests what it reads. Kind: L -/
theorem safe_onOffer : Safe (onOffer ws (.obj members) s) := by
  unfold onOffer
  simp only [hasSuch_obj, ok_bind]
  rw [safe_guard]
  intro hguard
  simp only [Bool.or_eq_false_iff, Bool.not_eq_false'] at hguard
  obtain ⟨⟨hpeer, hroom⟩, -⟩ := hguard
  refine safe_stringAt_bind hpeer fun _ => safe_stringAt_bind hroom fun _ => ?_
  exact safe_forward_guarded hpeer

/-- `OnAnswer` tests what it reads. Kind: L -/
theorem safe_onAnswer : Safe (onAnswer ws (.obj members) s) := by
  unfold onAnswer
  simp only [hasSuch_obj, ok_bind]
  rw [safe_guard]
  intro hguard
  simp only [Bool.or_eq_false_iff, Bool.not_eq_false'] at hguard
  exact safe_stringAt_bind hguard.1 fun _ => safe_forward hguard.1

/-- `OnCandidate` tests what it reads. Kind: L -/
theorem safe_onCandidate : Safe (onCandidate ws (.obj members) s) := by
  unfold onCandidate
  simp only [hasSuch_obj, ok_bind]
  rw [safe_guard]
  intro hguard
  simp only [Bool.or_eq_false_iff, Bool.not_eq_false'] at hguard
  exact safe_stringAt_bind hguard.1.1 fun _ => safe_forward hguard.1.1

/-! ## The handlers of files -/

/-- A test of the file's metadata, on an object. Kind: L -/
theorem fileHasSuch_of_find {file : List (Str × Json)}
    (hfile : find? members (str "file") = some (.obj file)) (k : Str) (isX : Json → Bool) :
    fileHasSuch (.obj members) k isX = .ok ((find? file k).any isX) := by
  unfold fileHasSuch
  rw [member_of_find hfile, ok_bind, hasSuch_obj]

/-- Logging `peer` and relaying the document breaks a precondition exactly when `peer` is no
string. Kind: L -/
theorem safe_logged_iff (file : FileDetails) :
    Safe (do let _logged ← (obj members).stringAt (str "peer"); handleFile ws (.obj members) file s) ↔
      (find? members (str "peer")).any isString = true :=
  (safe_bind_of_forall fun _ => safe_handleFile file).trans safe_stringAt

/-- A document whose `file` is no object logs no `peer`. Kind: L -/
theorem logsPeer_of_no_file {h : Handler}
    (hnone : (find? members (str "file")).any isObject = false) : logsPeer h members = false := by
  unfold logsPeer
  split
  · rename_i hfile
    simp [hfile, isObject] at hnone
  · rename_i hfile
    simp [hfile, isObject] at hnone
  · rfl

/-- **`OnFileOffer`** breaks a precondition exactly when it logs a `peer` that is no string.
Kind: P -/
theorem safe_onFileOffer_iff : Safe (onFileOffer ws (.obj members) s) ↔
    (logsPeer .onFileOffer members = true → (find? members (str "peer")).any isString = true) := by
  unfold onFileOffer
  rw [hasSuch_obj, ok_bind, safe_guard]
  obtain hnone | ⟨file, hfile⟩ := any_isObject members (str "file")
  · rw [hnone, logsPeer_of_no_file hnone]
    simp
  · simp only [fileHasSuch_of_find hfile, ok_bind, hfile, Option.any_some, isObject, Bool.not_true,
      forall_const, member_of_find hfile, logsPeer]
    rw [safe_guard]
    simp only [Bool.or_eq_false_iff, Bool.not_eq_false', Bool.and_eq_true]
    refine forall_congr' fun ⟨⟨hname, hsize⟩, hmime⟩ => ?_
    obtain ⟨name, hname⟩ := exists_string_of_any hname
    obtain ⟨mimeType, hmime⟩ := exists_string_of_any hmime
    obtain ⟨v, size, hv, hsize⟩ := getInt64_of_any hsize
    simp only [stringAt_of_find hname, stringAt_of_find hmime, hv, hsize, ok_bind]
    exact safe_logged_iff _

/-- **`OnFileAccept`** breaks a precondition exactly when it logs a `peer` that is no string.
Kind: P -/
theorem safe_onFileAccept_iff : Safe (onFileAccept ws (.obj members) s) ↔
    (logsPeer .onFileAccept members = true → (find? members (str "peer")).any isString = true) := by
  unfold onFileAccept
  rw [hasSuch_obj, ok_bind, safe_guard]
  obtain hnone | ⟨file, hfile⟩ := any_isObject members (str "file")
  · rw [hnone, logsPeer_of_no_file hnone]
    simp
  · simp only [fileHasSuch_of_find hfile, ok_bind, hfile, Option.any_some, isObject, Bool.not_true,
      forall_const, member_of_find hfile, logsPeer]
    rw [safe_guard]
    simp only [Bool.not_eq_false']
    refine forall_congr' fun hname => ?_
    obtain ⟨name, hname⟩ := exists_string_of_any hname
    simp only [stringAt_of_find hname, ok_bind]
    exact safe_logged_iff _

/-- `OnFileReject` tests `peer` with the rest of what it reads. Kind: L -/
theorem safe_onFileReject : Safe (onFileReject ws (.obj members) s) := by
  unfold onFileReject
  rw [hasSuch_obj, ok_bind, safe_guard]
  intro hguard
  obtain hnone | ⟨file, hfile⟩ := any_isObject members (str "file")
  · rw [hnone] at hguard
    simp at hguard
  · simp only [fileHasSuch_of_find hfile, hasSuch_obj, ok_bind]
    rw [safe_guard]
    intro hguard
    simp only [Bool.or_eq_false_iff, Bool.not_eq_false'] at hguard
    obtain ⟨name, hname⟩ := exists_string_of_any hguard.1
    simp only [member_of_find hfile, stringAt_of_find hname, ok_bind]
    exact safe_handleFile _

/-! ## A text -/

/-- A handler breaks a precondition exactly when it logs a `peer` that is no string. Kind: P -/
theorem safe_handle_iff (h : Handler) : Safe (handle h ws (.obj members) s) ↔
    (logsPeer h members = true → (find? members (str "peer")).any isString = true) := by
  have hquiet (hlogs : logsPeer h members = false) (hsafe : Safe (handle h ws (.obj members) s)) :
      Safe (handle h ws (.obj members) s) ↔
        (logsPeer h members = true → (find? members (str "peer")).any isString = true) := by
    simp [hsafe, hlogs]
  cases h with
  | onJoin => exact hquiet rfl safe_onJoin
  | onLeave => exact hquiet rfl safe_onLeave
  | onFileAccept => exact safe_onFileAccept_iff
  | onFileReject => exact hquiet rfl safe_onFileReject
  | onOffer => exact hquiet rfl safe_onOffer
  | onAnswer => exact hquiet rfl safe_onAnswer
  | onCandidate => exact hquiet rfl safe_onCandidate
  | onFileOffer => exact safe_onFileOffer_iff
  | onFileComplete => exact hquiet rfl safe_onFileComplete
  | onPingPong => exact hquiet rfl (safe_pure _)

/-- A document breaks no precondition exactly if it is accessible. Kind: P -/
theorem safe_onMessage_iff (ws : Ws) (doc : Json) (s : Server) :
    Safe (onMessage ws doc s) ↔ accessible doc = true := by
  cases doc with
  | obj members =>
      obtain ⟨route, hroute⟩ := safe_messageRouter members
      unfold onMessage
      rw [hroute, ok_bind]
      cases route with
      | none => simp [accessible, hroute]
      | some h =>
          simp only [accessible, hroute]
          rw [safe_handle_iff]
          cases logsPeer h members with
          | true => simp
          | false => simp
  | _ => simp [Safe, onMessage, accessible, messageRouter, hasSuch, hasMember, bind, Except.bind]

/-- **What a text can make the server access.** For every text, parser and state of the server, no
RapidJSON precondition is broken exactly if the text does not parse, or to an object which has a
string `peer` in case it is a file offer with complete metadata or a file accept with a file name.
Kind: P -/
theorem safe_onText_iff (parse : Str → Option Json) (ws : Ws) (text : Str) (s : Server) :
    Safe (onText parse ws text s) ↔ ∀ doc, parse text = some doc → accessible doc = true := by
  unfold onText
  cases hparse : parse text with
  | none => simp
  | some doc =>
      rw [safe_onMessage_iff]
      simp

/-- A file accept without a `peer`, sent by a client that is in no room. Kind: D -/
def acceptWithoutPeer : Str := str "\x7b\"type\":\"file_accept\",\"file\":\x7b\"name\":\"a\"\x7d\x7d"

/-- A text that makes the server read a member that is not there. Kind: P -/
theorem peer_logged_unchecked :
    ¬ ∀ (text : Str) (s : Server), Safe (onText Json.parse ⟨0, str "mallory"⟩ text s) := by
  intro hsafe
  have hfault : ¬ Safe (onText Json.parse ⟨0, str "mallory"⟩ acceptWithoutPeer {}) := by
    decide +kernel
  exact hfault (hsafe acceptWithoutPeer {})

end Server

end CloudNode
