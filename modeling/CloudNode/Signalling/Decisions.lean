import CloudNode.Signalling.Accesses

/-!
# What the server does with a message, exactly

The relay handlers test the fields of a document, the rooms of its two clients and the table of
clients in different orders, and three of them create the room they look up. This file says once
what comes of it: `handle_of_wellFormed` for a document with the fields its type requires,
`handle_of_malformed` for one without.

* `wellFormed` — the fields a relay type requires.
* `recipient` — the socket a relay goes to, `none` where nothing is sent.
* `looksUp`, `afterLookup` — the room table after the lookup of the file types.
-/

namespace CloudNode

namespace Server

open Json

/-! ## The decision -/

/-- A text member; empty where there is none. Kind: D -/
def textOf (members : List (Str × Json)) (k : Str) : Str :=
  match find? members k with
  | some (.str v) => v
  | _ => []

/-- The file metadata has such a member. Kind: D -/
def fileHas (members : List (Str × Json)) (k : Str) (isX : Json → Bool) : Bool :=
  match find? members (str "file") with
  | some (.obj file) => (find? file k).any isX
  | _ => false

/-- The fields that a relay type requires are there with the types it requires. Kind: D -/
def wellFormed (h : Handler) (members : List (Str × Json)) : Bool :=
  let has (k : Str) (isX : Json → Bool) : Bool := (find? members k).any isX
  match h with
  | .onOffer =>
    has (str "peer") isString && has (str "room") isString && has (str "descriptions") isArray
  | .onAnswer => has (str "peer") isString && has (str "sdp") isString
  | .onCandidate =>
    has (str "peer") isString && has (str "candidate") isString && has (str "mid") isString
  | .onFileOffer =>
    has (str "peer") isString && has (str "room") isString &&
      fileHas members (str "name") isString && fileHas members (str "size") isInt64 &&
      fileHas members (str "mimeType") isString
  | .onFileAccept | .onFileReject =>
    has (str "peer") isString && has (str "room") isString && fileHas members (str "name") isString
  | .onFileComplete => has (str "peer") isString && has (str "room") isString
  | .onJoin | .onLeave | .onPingPong => false

/-- The types whose handler looks the room up with `m_rooms[room]`.
Source: `WebRTCServer.cpp`, `HandleFile`
Kind: D -/
def looksUp : Handler → Bool
  | .onFileOffer | .onFileAccept | .onFileReject => true
  | _ => false

/-- The socket that a relay goes to where the values of `peer` and `room` are read by `read`: the
recipient's, if the fields are as required and, for the types that test it, both clients are in the
room. Kind: D -/
def recipient (read : Str → Str) (s : Server) (from_ : Str) (h : Handler)
    (members : List (Str × Json)) : Option Socket :=
  if wellFormed h members = true ∧ (checksRoom h = true →
      s.bothIn from_ (read (textOf members (str "peer"))) (read (textOf members (str "room"))) = true)
  then s.clientDB[read (textOf members (str "peer"))]? else none

/-- The tables after a well-formed relay: the file types create the room if it is missing.
Kind: D -/
def afterLookup (s : Server) (h : Handler) (members : List (Str × Json)) : Server :=
  if looksUp h = true then
    { s with rooms := s.rooms.touch (cstr (textOf members (str "room"))) }
  else s

/-- The message of a relay: the document with the sender's id in its first `peer`. Kind: D -/
def relayed (from_ : Str) (members : List (Str × Json)) (k : Socket) : Send :=
  ⟨k, cstr (textOf members (str "peer")), .document (.obj (setFirst (str "peer") (.str from_) members))⟩

/-! ## The ends of the handlers -/

variable {s s' : Server} {ws : Ws} {members : List (Str × Json)} {v room from_ : Str}

/-- A text member is what a lookup finds. Kind: L -/
theorem textOf_of_find {k : Str} (h : find? members k = some (.str v)) : textOf members k = v := by
  unfold textOf
  rw [h]

/-- A string member that a guard found. Kind: L -/
theorem find?_of_any {k : Str} (h : (find? members k).any isString = true) :
    find? members k = some (.str (textOf members k)) := by
  obtain ⟨w, hw⟩ := exists_string_of_any h
  rw [textOf_of_find hw, hw]

/-- Forwarding sends to the registered socket, if there is one. Kind: L -/
theorem forward_eq (hpeer : (find? members (str "peer")).any isString = true) :
    s.forward from_ (cstr (textOf members (str "peer"))) (.obj members) =
      .ok (s, (s.clientDB[cstr (textOf members (str "peer"))]?).toList.map
        (relayed from_ members)) := by
  cases hsocket : s.clientDB[cstr (textOf members (str "peer"))]? with
  | none => exact forward_of_unregistered hsocket
  | some k => exact forward_of_registered from_ (find?_of_any hpeer) hsocket

/-- The room test and what follows it. Kind: L -/
theorem forward_guarded_eq {from_ : Str} (hpeer : (find? members (str "peer")).any isString = true) :
    (if (!s.bothIn from_ (cstr (textOf members (str "peer"))) room) = true then
      (pure (s, []) : Outcome) else s.forward from_ (cstr (textOf members (str "peer"))) (.obj members)) =
      .ok (s, (if s.bothIn from_ (cstr (textOf members (str "peer"))) room = true then
        s.clientDB[cstr (textOf members (str "peer"))]? else none).toList.map
          (relayed from_ members)) := by
  cases hin : s.bothIn from_ (cstr (textOf members (str "peer"))) room with
  | false => rfl
  | true =>
      rw [if_pos rfl]
      exact forward_eq hpeer

/-- The recipient of a well-formed document of a type that tests the room. Kind: L -/
theorem recipient_of_checked {read : Str → Str} {h : Handler} (hwell : wellFormed h members = true)
    (hcheck : checksRoom h = true) : recipient read s from_ h members =
      if s.bothIn from_ (read (textOf members (str "peer"))) (read (textOf members (str "room"))) = true
      then s.clientDB[read (textOf members (str "peer"))]? else none := by
  unfold recipient
  simp only [hwell, hcheck, true_and, true_implies]

/-- The recipient of a well-formed document of a type that does not. Kind: L -/
theorem recipient_of_unchecked {read : Str → Str} {h : Handler} (hwell : wellFormed h members = true)
    (hcheck : checksRoom h = false) : recipient read s from_ h members =
      s.clientDB[read (textOf members (str "peer"))]? := by
  unfold recipient
  simp only [hwell, hcheck, Bool.false_eq_true, false_implies, and_self, if_true]

/-- A document without the required fields has no recipient. Kind: L -/
theorem recipient_of_malformed {read : Str → Str} {h : Handler}
    (hwell : wellFormed h members = false) : recipient read s from_ h members = none := by
  unfold recipient
  rw [if_neg]
  rintro ⟨hc, -⟩
  exact Bool.false_ne_true (hwell.symm.trans hc)

/-- Whether two clients are in a room does not depend on whether the room is listed. Kind: L -/
theorem bothIn_touch {peer r : Str} :
    ({ s with rooms := s.rooms.touch r } : Server).bothIn from_ peer room =
      s.bothIn from_ peer room := by
  unfold bothIn
  rw [Rooms.members_touch]

/-! ## Documents with the required fields -/

/-- `HandleFile` on a document with a room, a peer and a file. Kind: L -/
theorem handleFile_eq {file : FileDetails} (hpeer : (find? members (str "peer")).any isString = true)
    (hroom : (find? members (str "room")).any isString = true)
    (hfile : (find? members (str "file")).any isObject = true) :
    handleFile ws (.obj members) file s =
      .ok ({ s with rooms := s.rooms.touch (cstr (textOf members (str "room"))) },
        (if s.bothIn ws.clientId (cstr (textOf members (str "peer")))
            (cstr (textOf members (str "room"))) = true then
          s.clientDB[cstr (textOf members (str "peer"))]? else none).toList.map
          (relayed ws.clientId members)) := by
  unfold handleFile
  simp only [hasSuch_obj, ok_bind, hroom, hpeer, hfile, Bool.not_true, Bool.or_self,
    Bool.false_eq_true, if_false, stringAt_of_find (find?_of_any hpeer),
    stringAt_of_find (find?_of_any hroom)]
  rw [forward_guarded_eq hpeer, bothIn_touch]

/-- A member of the metadata is one of an object. Kind: L -/
theorem exists_file_of_fileHas {k : Str} {isX : Json → Bool} (h : fileHas members k isX = true) :
    ∃ file, find? members (str "file") = some (.obj file) ∧ (find? file k).any isX = true := by
  unfold fileHas at h
  split at h
  · rename_i file hfile
    exact ⟨file, hfile, h⟩
  · exact (Bool.false_ne_true h).elim

/-- A test of the metadata. Kind: L -/
theorem fileHas_of_find {file : List (Str × Json)}
    (hfile : find? members (str "file") = some (.obj file)) (k : Str) (isX : Json → Bool) :
    fileHas members k isX = (find? file k).any isX := by
  unfold fileHas
  rw [hfile]

/-- `OnFileOffer` on a document with the required fields. Kind: L -/
theorem onFileOffer_eq (ws : Ws) (s : Server) (hwell : wellFormed .onFileOffer members = true) :
    ∃ file, onFileOffer ws (.obj members) s = handleFile ws (.obj members) file s := by
  simp only [wellFormed, Bool.and_eq_true] at hwell
  obtain ⟨⟨⟨⟨hpeer, -⟩, hname⟩, hsize⟩, hmime⟩ := hwell
  obtain ⟨file, hfile, hname⟩ := exists_file_of_fileHas hname
  rw [fileHas_of_find hfile] at hsize hmime
  obtain ⟨w, n, hw, hn⟩ := getInt64_of_any hsize
  refine ⟨⟨cstr (textOf file (str "name")), n, cstr (textOf file (str "mimeType"))⟩, ?_⟩
  unfold onFileOffer
  simp only [hasSuch_obj, ok_bind, hfile, Option.any_some, isObject, fileHasSuch_of_find hfile,
    hname, hsize, hmime, Bool.not_true, Bool.or_self, Bool.false_eq_true, if_false,
    member_of_find hfile, stringAt_of_find (find?_of_any hname),
    stringAt_of_find (find?_of_any hmime), hw, hn, stringAt_of_find (find?_of_any hpeer)]

/-- `OnFileAccept` on a document with the required fields. Kind: L -/
theorem onFileAccept_eq (ws : Ws) (s : Server) (hwell : wellFormed .onFileAccept members = true) :
    ∃ file, onFileAccept ws (.obj members) s = handleFile ws (.obj members) file s := by
  simp only [wellFormed, Bool.and_eq_true] at hwell
  obtain ⟨⟨hpeer, -⟩, hname⟩ := hwell
  obtain ⟨file, hfile, hname⟩ := exists_file_of_fileHas hname
  refine ⟨⟨cstr (textOf file (str "name")), 0, []⟩, ?_⟩
  unfold onFileAccept
  simp only [hasSuch_obj, ok_bind, hfile, Option.any_some, isObject, fileHasSuch_of_find hfile,
    hname, Bool.not_true, Bool.false_eq_true, if_false, member_of_find hfile,
    stringAt_of_find (find?_of_any hname), stringAt_of_find (find?_of_any hpeer)]

/-- `OnFileReject` on a document with the required fields. Kind: L -/
theorem onFileReject_eq (ws : Ws) (s : Server) (hwell : wellFormed .onFileReject members = true) :
    ∃ file, onFileReject ws (.obj members) s = handleFile ws (.obj members) file s := by
  simp only [wellFormed, Bool.and_eq_true] at hwell
  obtain ⟨⟨hpeer, -⟩, hname⟩ := hwell
  obtain ⟨file, hfile, hname⟩ := exists_file_of_fileHas hname
  refine ⟨⟨cstr (textOf file (str "name")), 0, []⟩, ?_⟩
  unfold onFileReject
  simp only [hasSuch_obj, ok_bind, hfile, Option.any_some, isObject, fileHasSuch_of_find hfile,
    hname, hpeer, Bool.not_true, Bool.or_self, Bool.false_eq_true, if_false, member_of_find hfile,
    stringAt_of_find (find?_of_any hname)]

/-- What the file handlers make of a document with the required fields. Kind: L -/
theorem handleFile_of_wellFormed {h : Handler} (hlooks : looksUp h = true)
    (hwell : wellFormed h members = true) (file : FileDetails) :
    handleFile ws (.obj members) file s =
      .ok (s.afterLookup h members,
        (recipient cstr s ws.clientId h members).toList.map (relayed ws.clientId members)) := by
  have hcheck : checksRoom h = true := by
    cases h <;> first | rfl | exact absurd hlooks Bool.false_ne_true
  have hfields : (find? members (str "peer")).any isString = true ∧
      (find? members (str "room")).any isString = true ∧
      (find? members (str "file")).any isObject = true := by
    have hname : (find? members (str "peer")).any isString = true ∧
        (find? members (str "room")).any isString = true ∧
        fileHas members (str "name") isString = true := by
      cases h <;> simp only [wellFormed, Bool.and_eq_true, reduceCtorEq] at hwell <;>
        simp only [looksUp, Bool.false_eq_true] at hlooks
      · exact ⟨hwell.1.1, hwell.1.2, hwell.2⟩
      · exact ⟨hwell.1.1, hwell.1.2, hwell.2⟩
      · exact ⟨hwell.1.1.1.1, hwell.1.1.1.2, hwell.1.1.2⟩
    obtain ⟨f, hf, -⟩ := exists_file_of_fileHas hname.2.2
    exact ⟨hname.1, hname.2.1, by rw [hf]; rfl⟩
  rw [handleFile_eq hfields.1 hfields.2.1 hfields.2.2, recipient_of_checked hwell hcheck]
  unfold afterLookup
  rw [if_pos hlooks]

/-- **What the server does with a relay that has the required fields**: it looks the room up, and
sends the document to the recipient if there is one. Kind: P -/
theorem handle_of_wellFormed {h : Handler} (hwell : wellFormed h members = true) :
    handle h ws (.obj members) s =
      .ok (s.afterLookup h members,
        (recipient cstr s ws.clientId h members).toList.map (relayed ws.clientId members)) := by
  cases h with
  | onJoin => exact (Bool.false_ne_true hwell).elim
  | onLeave => exact (Bool.false_ne_true hwell).elim
  | onPingPong => exact (Bool.false_ne_true hwell).elim
  | onFileAccept =>
      obtain ⟨file, hfile⟩ := onFileAccept_eq ws s hwell
      exact hfile.trans (handleFile_of_wellFormed rfl hwell file)
  | onFileReject =>
      obtain ⟨file, hfile⟩ := onFileReject_eq ws s hwell
      exact hfile.trans (handleFile_of_wellFormed rfl hwell file)
  | onFileOffer =>
      obtain ⟨file, hfile⟩ := onFileOffer_eq ws s hwell
      exact hfile.trans (handleFile_of_wellFormed rfl hwell file)
  | onOffer =>
      rw [recipient_of_checked hwell rfl]
      simp only [wellFormed, Bool.and_eq_true] at hwell
      obtain ⟨⟨hpeer, hroom⟩, hdesc⟩ := hwell
      show onOffer ws (.obj members) s = _
      unfold onOffer
      simp only [hasSuch_obj, ok_bind, hpeer, hroom, hdesc, Bool.not_true, Bool.or_self,
        Bool.false_eq_true, if_false, stringAt_of_find (find?_of_any hpeer),
        stringAt_of_find (find?_of_any hroom)]
      exact forward_guarded_eq hpeer
  | onFileComplete =>
      rw [recipient_of_checked hwell rfl]
      simp only [wellFormed, Bool.and_eq_true] at hwell
      obtain ⟨hpeer, hroom⟩ := hwell
      show onFileComplete ws (.obj members) s = _
      unfold onFileComplete
      simp only [hasSuch_obj, ok_bind, hpeer, hroom, Bool.not_true, Bool.or_self,
        Bool.false_eq_true, if_false, stringAt_of_find (find?_of_any hpeer),
        stringAt_of_find (find?_of_any hroom)]
      exact forward_guarded_eq hpeer
  | onAnswer =>
      rw [recipient_of_unchecked hwell rfl]
      simp only [wellFormed, Bool.and_eq_true] at hwell
      obtain ⟨hpeer, hsdp⟩ := hwell
      show onAnswer ws (.obj members) s = _
      unfold onAnswer
      simp only [hasSuch_obj, ok_bind, hpeer, hsdp, Bool.not_true, Bool.or_self,
        Bool.false_eq_true, if_false, stringAt_of_find (find?_of_any hpeer)]
      exact forward_eq hpeer
  | onCandidate =>
      rw [recipient_of_unchecked hwell rfl]
      simp only [wellFormed, Bool.and_eq_true] at hwell
      obtain ⟨⟨hpeer, hcandidate⟩, hmid⟩ := hwell
      show onCandidate ws (.obj members) s = _
      unfold onCandidate
      simp only [hasSuch_obj, ok_bind, hpeer, hcandidate, hmid, Bool.not_true, Bool.or_self,
        Bool.false_eq_true, if_false, stringAt_of_find (find?_of_any hpeer)]
      exact forward_eq hpeer

/-! ## Documents without the required fields -/

/-- `HandleFile` on a document without a room. Kind: L -/
theorem handleFile_of_no_room (file : FileDetails)
    (hroom : (find? members (str "room")).any isString = false) :
    handleFile ws (.obj members) file s = .ok (s, []) := by
  unfold handleFile
  simp only [hasSuch_obj, ok_bind, hroom, Bool.not_false, Bool.true_or, if_true]
  rfl

/-- `OnFileOffer` on a document without the required fields. Kind: L -/
theorem onFileOffer_of_malformed (hwell : wellFormed .onFileOffer members = false)
    (hlogs : logsPeer .onFileOffer members = true → (find? members (str "peer")).any isString = true) :
    onFileOffer ws (.obj members) s = .ok (s, []) := by
  unfold onFileOffer
  obtain hnone | ⟨file, hfile⟩ := any_isObject members (str "file")
  · simp only [hasSuch_obj, ok_bind, hnone, Bool.not_false, if_true]
    rfl
  · simp only [hasSuch_obj, ok_bind, hfile, Option.any_some, isObject, fileHasSuch_of_find hfile,
      Bool.not_true, Bool.false_eq_true, if_false]
    by_cases hmeta : logsPeer .onFileOffer members = true
    · have hpeer := hlogs hmeta
      simp only [logsPeer, hfile, Bool.and_eq_true] at hmeta
      obtain ⟨⟨hname, hsize⟩, hmime⟩ := hmeta
      obtain ⟨w, n, hw, hn⟩ := getInt64_of_any hsize
      have hroom : (find? members (str "room")).any isString = false := by
        simpa only [wellFormed, hpeer, fileHas_of_find hfile, hname, hsize, hmime, Bool.true_and,
          Bool.and_true] using hwell
      simp only [hname, hsize, hmime, Bool.not_true, Bool.or_self, Bool.false_eq_true, if_false,
        member_of_find hfile, ok_bind, stringAt_of_find (find?_of_any hname),
        stringAt_of_find (find?_of_any hmime), hw, hn, stringAt_of_find (find?_of_any hpeer)]
      exact handleFile_of_no_room _ hroom
    · simp only [logsPeer, hfile, Bool.and_eq_true, not_and, Bool.not_eq_true] at hmeta
      rw [if_pos]
      · rfl
      · cases hname : (find? file (str "name")).any isString with
        | false => rfl
        | true =>
            cases hsize : (find? file (str "size")).any isInt64 with
            | false => rfl
            | true => rw [hmeta ⟨hname, hsize⟩]; rfl

/-- `OnFileAccept` on a document without the required fields. Kind: L -/
theorem onFileAccept_of_malformed (hwell : wellFormed .onFileAccept members = false)
    (hlogs : logsPeer .onFileAccept members = true →
      (find? members (str "peer")).any isString = true) :
    onFileAccept ws (.obj members) s = .ok (s, []) := by
  unfold onFileAccept
  obtain hnone | ⟨file, hfile⟩ := any_isObject members (str "file")
  · simp only [hasSuch_obj, ok_bind, hnone, Bool.not_false, if_true]
    rfl
  · simp only [hasSuch_obj, ok_bind, hfile, Option.any_some, isObject, fileHasSuch_of_find hfile,
      Bool.not_true, Bool.false_eq_true, if_false]
    cases hname : (find? file (str "name")).any isString with
    | false => rfl
    | true =>
        have hpeer : (find? members (str "peer")).any isString = true :=
          hlogs (by simp only [logsPeer, hfile, hname])
        have hroom : (find? members (str "room")).any isString = false := by
          simpa only [wellFormed, hpeer, fileHas_of_find hfile, hname, Bool.true_and,
            Bool.and_true] using hwell
        simp only [Bool.not_true, Bool.false_eq_true, if_false, member_of_find hfile, ok_bind,
          stringAt_of_find (find?_of_any hname), stringAt_of_find (find?_of_any hpeer)]
        exact handleFile_of_no_room _ hroom

/-- `OnFileReject` on a document without the required fields. Kind: L -/
theorem onFileReject_of_malformed (hwell : wellFormed .onFileReject members = false) :
    onFileReject ws (.obj members) s = .ok (s, []) := by
  unfold onFileReject
  obtain hnone | ⟨file, hfile⟩ := any_isObject members (str "file")
  · simp only [hasSuch_obj, ok_bind, hnone, Bool.not_false, if_true]
    rfl
  · simp only [hasSuch_obj, ok_bind, hfile, Option.any_some, isObject, fileHasSuch_of_find hfile,
      Bool.not_true, Bool.false_eq_true, if_false]
    cases hname : (find? file (str "name")).any isString with
    | false => rfl
    | true =>
        cases hpeer : (find? members (str "peer")).any isString with
        | false => rfl
        | true =>
            have hroom : (find? members (str "room")).any isString = false := by
              simpa only [wellFormed, hpeer, fileHas_of_find hfile, hname, Bool.true_and,
                Bool.and_true] using hwell
            simp only [Bool.not_true, Bool.or_self, Bool.false_eq_true, if_false,
              member_of_find hfile, ok_bind, stringAt_of_find (find?_of_any hname)]
            exact handleFile_of_no_room _ hroom

/-- **What the server does with a relay that lacks a required field**: nothing, unless it comes to
log a `peer` that is no string. Kind: P -/
theorem handle_of_malformed {h : Handler} (hrelay : relays h = true)
    (hwell : wellFormed h members = false)
    (hlogs : logsPeer h members = true → (find? members (str "peer")).any isString = true) :
    handle h ws (.obj members) s = .ok (s, []) := by
  cases h with
  | onJoin => exact (Bool.false_ne_true hrelay).elim
  | onLeave => exact (Bool.false_ne_true hrelay).elim
  | onPingPong => exact (Bool.false_ne_true hrelay).elim
  | onFileAccept => exact onFileAccept_of_malformed hwell hlogs
  | onFileReject => exact onFileReject_of_malformed hwell
  | onFileOffer => exact onFileOffer_of_malformed hwell hlogs
  | onOffer =>
      show onOffer ws (.obj members) s = _
      unfold onOffer
      simp only [hasSuch_obj, ok_bind]
      rw [if_pos]
      · rfl
      · simpa only [wellFormed, Bool.not_and, Bool.and_eq_false_iff, Bool.or_eq_true,
          Bool.not_eq_true'] using hwell
  | onFileComplete =>
      show onFileComplete ws (.obj members) s = _
      unfold onFileComplete
      simp only [hasSuch_obj, ok_bind]
      rw [if_pos]
      · rfl
      · simpa only [wellFormed, Bool.and_eq_false_iff, Bool.or_eq_true, Bool.not_eq_true']
          using hwell
  | onAnswer =>
      show onAnswer ws (.obj members) s = _
      unfold onAnswer
      simp only [hasSuch_obj, ok_bind]
      rw [if_pos]
      · rfl
      · simpa only [wellFormed, Bool.and_eq_false_iff, Bool.or_eq_true, Bool.not_eq_true']
          using hwell
  | onCandidate =>
      show onCandidate ws (.obj members) s = _
      unfold onCandidate
      simp only [hasSuch_obj, ok_bind]
      rw [if_pos]
      · rfl
      · simpa only [wellFormed, Bool.and_eq_false_iff, Bool.or_eq_true, Bool.not_eq_true']
          using hwell

end Server

end CloudNode
