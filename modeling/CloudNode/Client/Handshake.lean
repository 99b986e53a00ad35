import CloudNode.Client.Answering
import CloudNode.Signalling.Exactness
import CloudNode.Transfer.Outgoing
import CloudNode.Wire.Descriptions
import CloudNode.Wire.Messages

/-!
# An offer and its answer, from end to end

A file offer is a text that the sender concatenates. The server parses it, puts the sender in place
of the peer and relays it; the receiver answers with the offer itself under another type; the server
relays that back, and the sender finds the offer again by its uuid. This file puts the four programs
together that the other files look at one by one.

* `Connected` — both clients are in the room and registered, for the server.
* `relayed_offer`, `relayed_answer` — the server on the two documents.
* `answered_offer` — the receiver on the offer.
* `handshake` — the whole way: the answer comes back with the uuid of the offer, it accepts the file
  unless the receiver has it, and then the path goes to the queue that the offer was made for.
-/

namespace CloudNode

namespace Handshake

open Json

/-- The file object of an offer. Source: `MimeDetector.hpp`, `get_file_info`. Kind: D -/
def fileMembers (name : Str) (file : FileFacts) : List (Str × Json) :=
  [(str "name", .str name), (str "size", .int file.size.toNat),
    (str "mimeType", .str file.mimeType),
    (str "crc", .int file.crc.toNat)]

/-- A `file_offer` document. Source: `WebRTCClient.cpp`, `SendFileOffer`. Kind: D -/
def offerMembers (uuid room peer : Str) (file : List (Str × Json)) : List (Str × Json) :=
  [(str "type", .str (str "file_offer")), (str "uuid", .str uuid), (str "room", .str room),
    (str "peer", .str peer), (str "file", .obj file)]

/-- Its answer. Source: `WebRTCClient.cpp`, `SendFileAccept` and `SendFileReject`. Kind: D -/
def answerMembers (accepted : Bool) (uuid room peer : Str) (file : List (Str × Json)) :
    List (Str × Json) :=
  [(str "type", .str (if accepted then str "file_accept" else str "file_reject")),
    (str "uuid", .str uuid), (str "room", .str room), (str "file", .obj file),
    (str "peer", .str peer)]

/-- For the server, both clients are in the room, and registered with these sockets. Kind: D -/
structure Connected (s : Server) (room a b : Str) (socketA socketB : Socket) : Prop where
  first : a ∈ s.rooms.members room
  second : b ∈ s.rooms.members room
  socketA : s.clientDB[a]? = some socketA
  socketB : s.clientDB[b]? = some socketB

variable {s : Server} {uuid room a b name : Str} {file : FileFacts} {socketA socketB : Socket}

/-- Seen from the other client. Kind: L -/
theorem Connected.symm (h : Connected s room a b socketA socketB) :
    Connected s room b a socketB socketA := ⟨h.second, h.first, h.socketB, h.socketA⟩

/-- A string without escapes holds no NUL. Kind: L -/
theorem cstr_of_plain {s : Str} (h : plain s = true) : cstr s = s := by
  apply cstr_of_zero_not_mem
  intro hzero
  have hplain := List.all_eq_true.mp h 0 hzero
  exact absurd hplain (by decide)

/-- The text of an offer is read as the document it was meant to be. Kind: L -/
theorem parse_offer {encoder : Str → Str} (hencoder : IsBase64 encoder)
    (random : Fin 16 → UInt8) (filename displayName : Str)
    (hmime : HandBuilt.Quotable file.mimeType)
    (hroom : Tame room) (hpeer : Tame b) (hname : Tame (shownName filename displayName)) :
    ((HandBuilt.fileOffer random room b filename displayName file).text encoder).bind parse =
      some (.obj (offerMembers (generateUUID random) room b
        (fileMembers (shownName filename displayName) file))) := by
  have hm : (HandBuilt.fileOffer random room b filename displayName file).FromLibraries := hmime
  rw [HandBuilt.text_eq encoder hm, Option.bind_some,
    Form.parse_of_tame (HandBuilt.form_neat hencoder hm)]
  · rfl
  · rw [HandBuilt.names_form]
    simp only [HandBuilt.names, List.forall_mem_cons]
    exact ⟨hroom, hpeer, hname, by simp⟩

/-! ## The server -/

/-- The server relays a document of a type that tests the room, between two clients that are in it.
Kind: L -/
theorem relay_of_connected {h : Handler} {members : List (Str × Json)} {type : Str}
    (hconnected : Connected s room a b socketA socketB) (hroom : cstr room = room)
    (hb : cstr b = b) (htype : find? members (str "type") = some (.str type))
    (hroute : dispatch (cstr type) = some h) (hrelay : Server.relays h = true)
    (hcheck : Server.checksRoom h = true) (hwell : Server.wellFormed h members = true)
    (hpeer : find? members (str "peer") = some (.str b))
    (hfind : find? members (str "room") = some (.str room)) :
    ∃ s', Server.onMessage ⟨socketA, a⟩ (.obj members) s =
      .ok (s', [⟨socketB, b, .document (.obj (setFirst (str "peer") (.str a) members))⟩]) := by
  have hrouted : messageRouter (.obj members) = .ok (some h) := by
    rw [messageRouter_of_find htype, hroute]
  obtain ⟨s', hsent, -, -⟩ :=
    Server.onMessage_of_relay s ⟨socketA, a⟩ hrouted hrelay (by rw [hpeer]; rfl)
  refine ⟨s', ?_⟩
  have hboth : s.bothIn a b room = true := Server.bothIn_eq_true.mpr
    ⟨hconnected.first, hconnected.second⟩
  rw [hsent, Server.recipient_of_checked hwell hcheck]
  simp only [Server.relayed, Server.textOf_of_find hpeer, Server.textOf_of_find hfind, hroom, hb,
    hboth, if_true, hconnected.socketB, Option.toList_some, List.map_cons, List.map_nil]

/-- A size that fits an `int64_t` is one. Kind: L -/
theorem isInt64_size (hsize : file.size.toNat < 2 ^ 63) :
    isInt64 (.int file.size.toNat) = true := by
  simp only [isInt64, decide_eq_true_eq]
  omega

/-- **The server relays an offer.** Kind: P -/
theorem relayed_offer (uuid name : Str) (hconnected : Connected s room a b socketA socketB)
    (hroom : cstr room = room) (hb : cstr b = b) (hsize : file.size.toNat < 2 ^ 63) :
    ∃ s',
      Server.onMessage ⟨socketA, a⟩ (.obj (offerMembers uuid room b (fileMembers name file))) s =
        .ok (s', [⟨socketB, b,
          .document (.obj (offerMembers uuid room a (fileMembers name file)))⟩]) := by
  have hwell : Server.wellFormed .onFileOffer
      (offerMembers uuid room b (fileMembers name file)) = true := by
    have hfile : find? (offerMembers uuid room b (fileMembers name file)) (str "file") =
        some (.obj (fileMembers name file)) := rfl
    have hfind : find? (fileMembers name file) (str "size") = some (.int file.size.toNat) := rfl
    have hfits : Server.fileHas (offerMembers uuid room b (fileMembers name file)) (str "size")
        isInt64 = true := by
      rw [Server.fileHas_of_find hfile, hfind, Option.any_some]
      exact isInt64_size hsize
    simp only [Server.wellFormed, hfits, Bool.and_true, Bool.and_eq_true]
    exact ⟨⟨⟨rfl, rfl⟩, rfl⟩, rfl⟩
  have hroute : dispatch (cstr (str "file_offer")) = some .onFileOffer := by decide
  exact relay_of_connected hconnected hroom hb rfl hroute rfl rfl hwell rfl rfl

/-- **The server relays an answer.** Kind: P -/
theorem relayed_answer (accepted : Bool) (uuid name : Str) (file : FileFacts)
    (hconnected : Connected s room a b socketA socketB) (hroom : cstr room = room)
    (hb : cstr b = b) :
    ∃ s', Server.onMessage ⟨socketA, a⟩
        (.obj (answerMembers accepted uuid room b (fileMembers name file))) s =
      .ok (s', [⟨socketB, b,
        .document (.obj (answerMembers accepted uuid room a (fileMembers name file)))⟩]) := by
  cases accepted with
  | true =>
      have hroute : dispatch (cstr (str "file_accept")) = some .onFileAccept := by decide
      exact relay_of_connected hconnected hroom hb rfl hroute rfl rfl rfl rfl rfl
  | false =>
      have hroute : dispatch (cstr (str "file_reject")) = some .onFileReject := by decide
      exact relay_of_connected hconnected hroom hb rfl hroute rfl rfl rfl rfl rfl

/-! ## The clients -/

/-- The type of an offer is routed to `OnFileOffer`. Kind: L -/
theorem routed_offer : dispatch (cstr (str "file_offer")) = some .onFileOffer := by decide

/-- The size of an offer is an `int64`. Kind: L -/
theorem int64_size {file : FileFacts} (hsize : file.size.toNat < 2 ^ 63) :
    -2 ^ 63 ≤ (file.size.toNat : ℤ) ∧ (file.size.toNat : ℤ) < 2 ^ 63 := by
  omega

/-- The offer as the receiver gets it. Kind: D -/
def received (uuid room a name : Str) (file : FileFacts) (hsize : file.size.toNat < 2 ^ 63) :
    FileOfferDocument where
  members := offerMembers uuid room a (fileMembers name file)
  type := str "file_offer"
  sender := a
  room := room
  uuid := uuid
  file := fileMembers name file
  name := name
  size := file.size.toNat
  mimeType := file.mimeType
  find_type := rfl
  routed := routed_offer
  find_peer := rfl
  find_room := rfl
  find_uuid := rfl
  find_file := rfl
  find_name := rfl
  find_size := rfl
  int64 := int64_size hsize
  find_mimeType := rfl

/-- The receiver does not have the file. Kind: D -/
def wanted (env : Surroundings) (file : FileFacts) (destination : FilePath) : Bool :=
  env.crcOf destination ≠ some file.crc.toNat

/-- The CRC of an offer is read. Kind: L -/
theorem crc_received (hsize : file.size.toNat < 2 ^ 63) :
    (received uuid room a name file hsize).crc = some file.crc.toNat := by
  have hcrc : (0 : ℤ) ≤ (file.crc.toNat : ℤ) ∧ (file.crc.toNat : ℤ) < 2 ^ 64 := by
    have hlt := file.crc.toNat_lt
    omega
  have hfind : find? (received uuid room a name file hsize).file (str "crc") =
      some (.int file.crc.toNat) := rfl
  unfold FileOfferDocument.crc
  simp only [hfind, if_pos hcrc, Int.toNat_natCast]

/-- The answer to an offer with a CRC that can be placed. Kind: L -/
theorem reply_of_crc (env : Surroundings) (doc : FileOfferDocument) {dest : FilePath}
    (hcrc : doc.crc = some file.crc.toNat)
    (hdest : destination env.directory (cstr doc.name) = some dest)
    (hcreates : env.creates dest = true) : doc.reply env = some (.obj
      (if wanted env file dest then doc.answer (str "file_accept") 2
        else doc.answer (str "file_reject") 1)) := by
  have hname : doc.offer.name = cstr doc.name := rfl
  have hsame : doc.offer.crc = doc.crc := rfl
  unfold FileOfferDocument.reply Client.verdict
  rw [hname, hsame, hcrc, hdest]
  by_cases hhas : env.crcOf dest = some file.crc.toNat
  · simp [hcreates, hhas, wanted]
  · simp [hcreates, hhas, wanted]

/-- What the receiver makes of the offer. Kind: L -/
theorem answer_received (hsize : file.size.toNat < 2 ^ 63) (ha : cstr a = a) (accepted : Bool) :
    (if accepted then (received uuid room a name file hsize).answer (str "file_accept") 2
      else (received uuid room a name file hsize).answer (str "file_reject") 1) =
      answerMembers accepted uuid room a (fileMembers name file) := by
  have hcut : (if accepted then (received uuid room a name file hsize).answer (str "file_accept") 2
      else (received uuid room a name file hsize).answer (str "file_reject") 1) =
      answerMembers accepted uuid room (cstr a) (fileMembers name file) := by
    cases accepted with
    | true => rfl
    | false => rfl
  rw [hcut, ha]

/-- **The receiver answers an offer that it can place.** Kind: P -/
theorem answered_offer {β : Type} (uuid room : Str) (env : Surroundings) (t : Client.Tables β)
    (hsize : file.size.toNat < 2 ^ 63) (ha : cstr a = a) (hname : cstr name = name)
    (hsends : env.sends = true) {dest : FilePath}
    (hdest : destination env.directory name = some dest) (hcreates : env.creates dest = true) :
    ∃ incoming, Client.onMessage env (.obj (offerMembers uuid room a (fileMembers name file))) t =
      .ok (.answered [.obj (answerMembers (wanted env file dest) uuid room a (fileMembers name file))]
        incoming) := by
  obtain ⟨incoming, hmessage⟩ := (received uuid room a name file hsize).onMessage_eq env t
  refine ⟨incoming, hmessage.trans ?_⟩
  rw [← hname] at hdest
  rw [reply_of_crc env _ (crc_received hsize) hdest hcreates, answer_received hsize ha]
  simp only [Client.sendMessage, hsends, if_true, Option.toList_some]

/-- The sender finds the offer that is answered. Kind: L -/
theorem answer_arrives {β : Type} (env : Surroundings) (t : Client.Tables β) (accepted : Bool)
    (huuid : cstr uuid = uuid) :
    Client.onMessage env (.obj (answerMembers accepted uuid room b (fileMembers name file))) t =
      .ok (.response accepted (some uuid)) := by
  have hresponse : Client.responseUuid
      (.obj (answerMembers accepted uuid room b (fileMembers name file))) = .ok (some uuid) := by
    have hfind : find? (answerMembers accepted uuid room b (fileMembers name file)) (str "uuid") =
        some (.str uuid) := rfl
    unfold Client.responseUuid
    simp only [hasSuch_obj, ok_bind, hfind, Option.any_some, isString, Bool.not_true,
      Bool.false_eq_true, if_false, stringAt_of_find hfind, huuid]
    rfl
  unfold Client.onMessage
  cases accepted with
  | true =>
      have htype : find? (answerMembers true uuid room b (fileMembers name file)) (str "type") =
          some (.str (str "file_accept")) := rfl
      have hroute : dispatch (cstr (str "file_accept")) = some .onFileAccept := by decide
      rw [messageRouter_of_find htype, hroute, ok_bind]
      simp only [Client.handle, hresponse]
      rfl
  | false =>
      have htype : find? (answerMembers false uuid room b (fileMembers name file)) (str "type") =
          some (.str (str "file_reject")) := rfl
      have hroute : dispatch (cstr (str "file_reject")) = some .onFileReject := by decide
      rw [messageRouter_of_find htype, hroute, ok_bind]
      simp only [Client.handle, hresponse]
      rfl

/-! ## The whole way -/

/-- An accepted offer's path goes to the queue that the offer was made for. Kind: L -/
theorem queued_of_accepted {o : Outgoing} {key : PeerRoomKey} {path : Str} {channel : Channel}
    (hoffer : o.pendingOffers[uuid]? = some ⟨key, path⟩)
    (hchannel : o.dataChannels[key]? = some channel) :
    (o.onFileAccept (some uuid)).fileQ channel = o.fileQ channel ++ [path] := by
  rw [Outgoing.onFileAccept_of_pending hoffer hchannel]
  exact Function.update_self ..

/-- **An offer and its answer**: an offer whose names can be written down reaches the receiver as it
was meant, whatever the server's tables are otherwise when it comes by; a receiver that can place
the file answers it once, whatever it is receiving already; the answer reaches the sender, and
carries the uuid. It accepts the file unless the receiver has it, and then the path goes to the
queue of the channel that the sender has for the receiver and the room. Kind: P -/
theorem handshake {β γ : Type} {encoder : Str → Str} (hencoder : IsBase64 encoder)
    (random : Fin 16 → UInt8) (filename displayName : Str) (file : FileFacts)
    (hmime : HandBuilt.Quotable file.mimeType) (hsize : file.size.toNat < 2 ^ 63)
    (hroom : Tame room) (hb : Tame b) (hname : Tame (shownName filename displayName)) (ha : 0 ∉ a)
    {s₁ s₂ : Server} {socketA' socketB' : Socket}
    (hoffered : Connected s₁ room a b socketA socketB)
    (hanswered : Connected s₂ room a b socketA' socketB')
    (sender receiver : Surroundings) (tA : Client.Tables β) (tB : Client.Tables γ)
    (hsends : receiver.sends = true) {dest : FilePath}
    (hdest : destination receiver.directory (shownName filename displayName) = some dest)
    (hcreates : receiver.creates dest = true) :
    ∃ offer relayedOffer answer relayedAnswer s₁' s₂' incoming,
      ((HandBuilt.fileOffer random room b filename displayName file).text encoder).bind parse =
        some offer ∧
      Server.onMessage ⟨socketA, a⟩ offer s₁ = .ok (s₁', [⟨socketB, b, .document relayedOffer⟩]) ∧
      Client.onMessage receiver relayedOffer tB = .ok (.answered [answer] incoming) ∧
      Server.onMessage ⟨socketB', b⟩ answer s₂ =
        .ok (s₂', [⟨socketA', a, .document relayedAnswer⟩]) ∧
      Client.onMessage sender relayedAnswer tA =
        .ok (.response (wanted receiver file dest) (some (generateUUID random))) ∧
      ∀ (o : Outgoing) (path : Str) (channel : Channel),
        o.pendingOffers[generateUUID random]? = some ⟨(b, room), path⟩ →
        o.dataChannels[(b, room)]? = some channel →
        (o.onFileAccept (some (generateUUID random))).fileQ channel = o.fileQ channel ++ [path] := by
  have huuid : cstr (generateUUID random) = generateUUID random :=
    cstr_of_plain (HandBuilt.quotable_generateUUID random).1
  have hcutRoom := cstr_of_plain hroom.1
  have hcutA := cstr_of_zero_not_mem ha
  obtain ⟨s₁', hrelayed⟩ := relayed_offer (generateUUID random) (shownName filename displayName)
    hoffered hcutRoom (cstr_of_plain hb.1) hsize
  obtain ⟨incoming, hanswer⟩ := answered_offer (generateUUID random) room receiver tB hsize hcutA
    (cstr_of_plain hname.1) hsends hdest hcreates
  obtain ⟨s₂', hback⟩ := relayed_answer (wanted receiver file dest) (generateUUID random)
    (shownName filename displayName) file hanswered.symm hcutRoom hcutA
  exact ⟨_, _, _, _, s₁', s₂', incoming,
    parse_offer hencoder random filename displayName hmime hroom hb hname, hrelayed, hanswer, hback,
    answer_arrives sender tA _ huuid, fun _ _ _ => queued_of_accepted⟩

/-- A server with two clients in a room. Kind: D -/
def twoInRoom : Server where
  rooms := (∅ : Rooms).insert (str "r") ((∅ : Peers).insert (str "a") |>.insert (str "b"))
  clientDB := (∅ : Std.ExtTreeMap Str Socket).insert (str "a") 1 |>.insert (str "b") 2

/-- A text of five bytes. Kind: D -/
def shortText : FileFacts := ⟨5, str "text/plain", 7⟩

/-- The offer of a file that the receiver does not have comes back accepted. Kind: L -/
theorem handshake_shortText : ∃ dest offer relayedOffer answer relayedAnswer s₁' s₂' incoming,
    destination Client.calmClient.directory (str "x") = some dest ∧
    ((HandBuilt.fileOffer (fun _ => 0) (str "r") (str "b") (str "x") [] shortText).text
      FullDescription.encodeLines).bind parse = some offer ∧
    Server.onMessage ⟨1, str "a"⟩ offer twoInRoom =
      .ok (s₁', [⟨2, str "b", .document relayedOffer⟩]) ∧
    Client.onMessage Client.calmClient relayedOffer (⟨∅, {}⟩ : Client.Tables UInt8) =
      .ok (.answered [answer] incoming) ∧
    Server.onMessage ⟨2, str "b"⟩ answer twoInRoom =
      .ok (s₂', [⟨1, str "a", .document relayedAnswer⟩]) ∧
    Client.onMessage Client.calmClient relayedAnswer (⟨∅, {}⟩ : Client.Tables UInt8) =
      .ok (.response (wanted Client.calmClient shortText dest)
        (some (generateUUID fun _ => 0))) := by
  have hconnected : Connected twoInRoom (str "r") (str "a") (str "b") 1 2 :=
    ⟨by decide +kernel, by decide +kernel, by decide +kernel, by decide +kernel⟩
  have hencoder : IsBase64 FullDescription.encodeLines := FullDescription.libb64_lines.isBase64
  have hmime : HandBuilt.Quotable shortText.mimeType := ⟨by decide, by decide⟩
  obtain ⟨dest, hdest⟩ : ∃ dest, destination Client.calmClient.directory (str "x") = some dest :=
    Option.isSome_iff_exists.mp (by decide +kernel)
  obtain ⟨offer, relayedOffer, answer, relayedAnswer, s₁', s₂', incoming, hparse, hrelayed, hanswer,
    hback, hresponse, -⟩ := handshake hencoder (fun _ => 0) (str "x") [] shortText hmime (by decide)
      (by decide) (by decide) (by decide) (by decide) hconnected hconnected Client.calmClient
      Client.calmClient (⟨∅, {}⟩ : Client.Tables UInt8) (⟨∅, {}⟩ : Client.Tables UInt8) rfl hdest rfl
  exact ⟨dest, offer, relayedOffer, answer, relayedAnswer, s₁', s₂', incoming, hdest, hparse,
    hrelayed, hanswer, hback, hresponse⟩

end Handshake

end CloudNode
