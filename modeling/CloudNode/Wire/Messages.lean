import CloudNode.Wire.Numerals

/-!
# The messages that are written by hand

The server's notifications and the client's answers to an offer are made with RapidJSON's `Writer`,
which escapes. Six messages are concatenated instead: the client's `offer`, `file_offer` (with the
file object of `get_file_info` inside), `file_complete`, `candidate` and description, and the
server's `pong`. Each is a `Form`, and the strings that it is built from are its names.

`HandBuilt.survives_iff`: such a message is read back as it was meant iff its room, peer, id and
file name need no escapes and are UTF-8. What `libmagic`, `libdatachannel` and the Base64 encoder
put into a message needs none.
-/

namespace CloudNode

/-! ## Base64, and identifiers -/

/-- The Base64 alphabet. Kind: D -/
def base64Char (c : UInt8) : Bool :=
  0x30 ≤ c && c ≤ 0x39 || 0x41 ≤ c && c ≤ 0x5A || 0x61 ≤ c && c ≤ 0x7A || c = 0x2B || c = 0x2F ||
    c = 0x3D

/-- What `base64::encoder::encode` writes: the alphabet, in lines. Kind: D -/
def IsBase64 (encoder : Str → Str) : Prop :=
  ∀ s, ∀ c ∈ encoder s, base64Char c = true ∨ c = 0x0A

/-- `false` is `none`. Source: `LocalDescription.cpp`, `base64Encode`. Kind: D -/
def base64Encode (encoder : Str → Str) (input : Str) : Option Str :=
  if input = [] then none else some ((encoder input).filter fun c => ¬(c = 0x0A ∨ c = 0x0D))

/-- Source: `LocalDescription.cpp`, `generateUUID`, `std::hex << std::uppercase`. Kind: D -/
def hexUpper (n : ℕ) : UInt8 := (str "0123456789ABCDEF").getD n 0x30

/-- Source: `LocalDescription.cpp`, `generateUUID`, of its random bytes. Kind: D -/
def generateUUID (random : Fin 16 → UInt8) : Str :=
  let bytes := Function.update (Function.update random 6 (random 6 &&& 0x0F ||| 0x40)) 8
    (random 8 &&& 0x3F ||| 0x80)
  (List.finRange 16).flatMap fun i =>
    (if i = 4 ∨ i = 6 ∨ i = 8 ∨ i = 10 then [0x2D] else []) ++
      [hexUpper ((bytes i).toNat / 16), hexUpper ((bytes i).toNat % 16)]

/-! ## Pieces of messages -/

/-- Source: `LocalDescription.hpp`, of which the messages use two members. Kind: D -/
structure LocalDescription where
  descriptions : List Str
  candidates : List Str

namespace LocalDescription

variable (encoder : Str → Str)

/-- An array of Base64 texts.
Source: `LocalDescription.cpp`, the loop of `GetDescriptionsJson` and `GetCandidatesJson`
Kind: D -/
def encodedArray (items : List Str) : Str :=
  str "[" ++ [0x2C].intercalate (items.map fun item => match base64Encode encoder item with
    | some encoded => str "\"" ++ encoded ++ str "\""
    | none => []) ++ str "]"

/-- Source: `LocalDescription.cpp`, `GetDescriptionsJson`. Kind: D -/
def getDescriptionsJson (d : LocalDescription) : Str :=
  str "\"descriptions\" :" ++ encodedArray encoder d.descriptions

/-- Source: `LocalDescription.cpp`, `GetCandidatesJson`. Kind: D -/
def getCandidatesJson (d : LocalDescription) : Str :=
  str "\"candidates\" :" ++ encodedArray encoder d.candidates

end LocalDescription

/-- What is found out about a file. Source: `MimeDetector.hpp`. Kind: D -/
structure FileFacts where
  /-- `fs::file_size`. -/
  size : UInt64
  /-- `get_mime_type`, which asks `libmagic`. -/
  mimeType : Str
  /-- `get_crc`. -/
  crc : UInt32

/-- The name that a file is offered under. Source: `MimeDetector.hpp`, `get_file_info`. Kind: D -/
def shownName (filename displayName : Str) : Str :=
  if displayName = [] then filename else displayName

/-- Source: `MimeDetector.hpp`, `get_file_info`, when it succeeds. Kind: D -/
def getFileInfo (filename displayName : Str) (file : FileFacts) : Str :=
  str "\x7b\"name\": \"" ++ shownName filename displayName ++ str "\", \"size\": " ++
    decimal file.size.toNat ++ str ", \"mimeType\": \"" ++ file.mimeType ++ str "\", \"crc\": " ++
    decimal file.crc.toNat ++ str "\x7d"

/-! ## Messages -/

/-- A message that the program concatenates, with what it is made of. Kind: D -/
inductive HandBuilt where
  /-- Source: `WebRTCClient.cpp`, `MakeDataChannel`. -/
  | offer (room peer : Str) (desc : LocalDescription)
  /-- Source: `WebRTCClient.cpp`, `SendFileOffer`. -/
  | fileOffer (random : Fin 16 → UInt8) (room peer filename displayName : Str) (file : FileFacts)
  /-- Source: `WebRTCClient.cpp`, `SendFileComplete`. -/
  | fileComplete (room peer : Str)
  /-- Source: `WebRTCClient.cpp`, `OnOffer`, its `onLocalCandidate`. -/
  | candidate (peer room cand mid : Str)
  /-- The answer. Source: `WebRTCClient.cpp`, `OnOffer`, its `onLocalDescription`. -/
  | description (typeString peer room sdp : Str)
  /-- Source: `WebRTCServer.cpp`, `OnPingPong`. -/
  | pong (peer : Str)

namespace HandBuilt

open Json

variable (encoder : Str → Str)

/-- The text of a message; an empty description makes none. Kind: D -/
def text : HandBuilt → Option Str
  | offer room peer desc => some <|
    str "\x7b\"type\" : \"offer\", " ++ (str "\"room\" : \"" ++ room ++ str "\", ") ++
      (str "\"peer\" : \"" ++ peer ++ str "\", ") ++ desc.getDescriptionsJson encoder ++
      str ", " ++ desc.getCandidatesJson encoder ++ str "\x7d"
  | fileOffer random room peer filename displayName file => some <|
    str "\x7b\"type\" : \"file_offer\", " ++
      (str " \"uuid\" : \"" ++ generateUUID random ++ str "\", ") ++
      (str " \"room\" : \"" ++ room ++ str "\", ") ++ (str " \"peer\" : \"" ++ peer ++ str "\", ") ++
      (str " \"file\" : " ++ getFileInfo filename displayName file ++ str " ") ++ str "\x7d"
  | fileComplete room peer => some <|
    str "\x7b\"type\" : \"file_complete\", \"room\" : \"" ++ room ++ str "\", \"peer\" : \"" ++
      peer ++ str "\"\x7d"
  | candidate peer room cand mid => some <|
    str "\x7b \"type\" : \"candidate\", " ++ str "\"peer\" : \"" ++ peer ++
      str "\", \"room\" : \"" ++ room ++ str "\", \"candidate\" : \"" ++ cand ++
      str "\", \"mid\" : \"" ++ mid ++ str "\"\x7d"
  | description typeString peer room sdp =>
    (base64Encode encoder sdp).map fun b64desc =>
      str "\x7b \"type\" : \"" ++ typeString ++ str "\", \"peer\" : \"" ++ peer ++
        str "\", \"room\" : \"" ++ room ++ str "\", \"sdp\" : \"" ++ b64desc ++ str "\"\x7d"
  | pong peer => some (str "\x7b\"type\" : \"pong\", \"id\" : \"" ++ peer ++ str "\"\x7d")

/-- The names that a message is built from. Kind: D -/
def names : HandBuilt → List Str
  | offer room peer _ => [room, peer]
  | fileOffer _ room peer filename displayName _ => [room, peer, shownName filename displayName]
  | fileComplete room peer => [room, peer]
  | candidate peer room _ _ => [peer, room]
  | description _ peer room _ => [peer, room]
  | pong peer => [peer]

/-- The names stand in their members, and a file's size and CRC in theirs. Kind: D -/
def ReadBack : HandBuilt → List (Str × Json) → Prop
  | offer room peer _, ms =>
    find? ms (str "type") = some (.str (str "offer")) ∧
      find? ms (str "room") = some (.str room) ∧ find? ms (str "peer") = some (.str peer)
  | fileOffer _ room peer filename displayName file, ms =>
    find? ms (str "type") = some (.str (str "file_offer")) ∧
      find? ms (str "room") = some (.str room) ∧ find? ms (str "peer") = some (.str peer) ∧
      ∃ info, find? ms (str "file") = some (.obj info) ∧
        find? info (str "name") = some (.str (shownName filename displayName)) ∧
        find? info (str "size") = some (.int file.size.toNat) ∧
        find? info (str "crc") = some (.int file.crc.toNat)
  | fileComplete room peer, ms =>
    find? ms (str "type") = some (.str (str "file_complete")) ∧
      find? ms (str "room") = some (.str room) ∧ find? ms (str "peer") = some (.str peer)
  | candidate peer room _ _, ms =>
    find? ms (str "type") = some (.str (str "candidate")) ∧
      find? ms (str "peer") = some (.str peer) ∧ find? ms (str "room") = some (.str room)
  | description typeString peer room _, ms =>
    find? ms (str "type") = some (.str typeString) ∧
      find? ms (str "peer") = some (.str peer) ∧ find? ms (str "room") = some (.str room)
  | pong peer, ms =>
    find? ms (str "type") = some (.str (str "pong")) ∧ find? ms (str "id") = some (.str peer)

/-- **The message survives the wire**: it is a JSON object, and what it was built from stands in it.
Kind: D -/
def Survives (m : HandBuilt) : Prop :=
  ∃ text ms, m.text encoder = some text ∧ parse text = some (.obj ms) ∧ m.ReadBack ms

/-- A string that needs no escapes, in ASCII. Kind: D -/
def Quotable (s : Str) : Prop := plain s = true ∧ ascii s = true

/-- What the libraries put into a message: a MIME type, a candidate, a media identifier and the name
of a description's type need no escapes; descriptions and candidates are not empty. Kind: D -/
def FromLibraries : HandBuilt → Prop
  | offer _ _ desc =>
    (∀ s ∈ desc.descriptions, s ≠ []) ∧ ∀ s ∈ desc.candidates, s ≠ []
  | fileOffer _ _ _ _ _ file => Quotable file.mimeType
  | candidate _ _ cand mid => Quotable cand ∧ Quotable mid
  | description typeString _ _ sdp => Quotable typeString ∧ sdp ≠ []
  | _ => True

/-! ## The forms behind the messages -/

/-- A head made of literals. Kind: D -/
def head (before key colon : String) : Head := ⟨str before, str key, str colon⟩

/-- The texts of an array. Kind: D -/
def encodings (items : List Str) : List Str := items.filterMap (base64Encode encoder)

/-- An array of Base64 texts, as a value. Kind: D -/
def encodedEntry (items : List Str) : Entry :=
  .raw (LocalDescription.encodedArray encoder items) (.arr ((encodings encoder items).map .str))

/-- A number, as a value. Kind: D -/
def numeral (n : ℕ) : Entry := .raw (decimal n) (.int n)

/-- The form of the file object. Kind: D -/
def fileForm (filename displayName : Str) (file : FileFacts) : Form :=
  .cons (head "" "name" ": ") (.name (shownName filename displayName)) [] <|
  .cons (head " " "size" ": ") (numeral file.size.toNat) [] <|
  .cons (head " " "mimeType" ": ") (.word file.mimeType) [] <|
  .last (head " " "crc" ": ") (numeral file.crc.toNat) []

/-- The form that is filled in for a message. Kind: D -/
def form : HandBuilt → Form
  | offer room peer desc =>
    .cons (head "" "type" " : ") (.word (str "offer")) [] <|
    .cons (head " " "room" " : ") (.name room) [] <|
    .cons (head " " "peer" " : ") (.name peer) [] <|
    .cons (head " " "descriptions" " :") (encodedEntry encoder desc.descriptions) [] <|
    .last (head " " "candidates" " :") (encodedEntry encoder desc.candidates) []
  | fileOffer random room peer filename displayName file =>
    .cons (head "" "type" " : ") (.word (str "file_offer")) [] <|
    .cons (head "  " "uuid" " : ") (.word (generateUUID random)) [] <|
    .cons (head "  " "room" " : ") (.name room) [] <|
    .cons (head "  " "peer" " : ") (.name peer) [] <|
    .last (head "  " "file" " : ") (.form (fileForm filename displayName file)) (str " ")
  | fileComplete room peer =>
    .cons (head "" "type" " : ") (.word (str "file_complete")) [] <|
    .cons (head " " "room" " : ") (.name room) [] <|
    .last (head " " "peer" " : ") (.name peer) []
  | candidate peer room cand mid =>
    .cons (head " " "type" " : ") (.word (str "candidate")) [] <|
    .cons (head " " "peer" " : ") (.name peer) [] <|
    .cons (head " " "room" " : ") (.name room) [] <|
    .cons (head " " "candidate" " : ") (.word cand) [] <|
    .last (head " " "mid" " : ") (.word mid) []
  | description typeString peer room sdp =>
    .cons (head " " "type" " : ") (.word typeString) [] <|
    .cons (head " " "peer" " : ") (.name peer) [] <|
    .cons (head " " "room" " : ") (.name room) [] <|
    .last (head " " "sdp" " : ") (.word ((base64Encode encoder sdp).getD [])) []
  | pong peer =>
    .cons (head "" "type" " : ") (.word (str "pong")) [] <|
    .last (head " " "id" " : ") (.name peer) []

/-- A message is its form. Kind: L -/
theorem text_eq {m : HandBuilt} (hm : m.FromLibraries) :
    m.text encoder = some (m.form encoder).document := by
  cases m with
  | offer room peer desc =>
      simp only [text, LocalDescription.getDescriptionsJson, LocalDescription.getCandidatesJson,
        form, Form.document, Form.text, Entry.text, Head.text, encodedEntry, List.append_assoc,
        List.cons_append]
      rfl
  | fileOffer random room peer filename displayName file =>
      simp only [text, getFileInfo, form, fileForm, Form.document, Form.text, Entry.text, Head.text, numeral,
        List.append_assoc, List.cons_append]
      rfl
  | fileComplete room peer =>
      simp only [text, form, Form.document, Form.text, Entry.text, Head.text, List.append_assoc,
        List.cons_append]
      rfl
  | candidate peer room cand mid =>
      simp only [text, form, Form.document, Form.text, Entry.text, Head.text, List.append_assoc,
        List.cons_append]
      rfl
  | description typeString peer room sdp =>
      obtain ⟨b64desc, hb64desc⟩ : ∃ b64desc, base64Encode encoder sdp = some b64desc :=
        ⟨_, if_neg hm.2⟩
      simp only [text, form, hb64desc, Option.map_some, Option.getD_some, Form.document, Form.text,
        Entry.text, Head.text, List.append_assoc, List.cons_append]
      rfl
  | pong peer =>
      simp only [text, form, Form.document, Form.text, Entry.text, Head.text, List.append_assoc,
        List.cons_append]
      rfl

/-! ## What the code and the libraries put into a message -/

/-- A Base64 character needs no escape. Kind: L -/
theorem isPlain_of_base64Char {c : UInt8} (hc : base64Char c = true) :
    isPlain c = true ∧ c < 0x80 := by
  revert c
  decide +kernel

/-- Neither does a Base64 text. Kind: L -/
theorem quotable_base64Encode {encoder : Str → Str} (hencoder : IsBase64 encoder) {input encoded : Str}
    (h : base64Encode encoder input = some encoded) : Quotable encoded := by
  have hchars : ∀ c ∈ encoded, base64Char c = true := by
    intro c hc
    rw [base64Encode] at h
    split at h
    · exact absurd h (by simp)
    · rw [← Option.some.inj h, List.mem_filter] at hc
      rcases hencoder input c hc.1 with hc' | rfl
      · exact hc'
      · exact absurd hc.2 (by decide)
  constructor
  · exact List.all_eq_true.mpr fun c hc => (isPlain_of_base64Char (hchars c hc)).1
  · exact List.all_eq_true.mpr fun c hc => decide_eq_true (isPlain_of_base64Char (hchars c hc)).2

/-- A hexadecimal digit needs no escape. Kind: L -/
theorem isPlain_hexUpper {n : ℕ} (hn : n < 16) :
    isPlain (hexUpper n) = true ∧ hexUpper n < 0x80 := by
  revert n
  decide

/-- Neither does a UUID. Kind: L -/
theorem quotable_generateUUID (random : Fin 16 → UInt8) : Quotable (generateUUID random) := by
  have hchars : ∀ c ∈ generateUUID random, isPlain c = true ∧ c < 0x80 := by
    intro c hc
    simp only [generateUUID, List.mem_flatMap, List.mem_append, List.mem_cons, List.not_mem_nil,
      or_false] at hc
    obtain ⟨i, -, hc | rfl | rfl⟩ := hc
    · split at hc
      · obtain rfl := List.mem_singleton.mp hc
        decide
      · exact absurd hc List.not_mem_nil
    · exact isPlain_hexUpper (Nat.div_lt_of_lt_mul (UInt8.toNat_lt _))
    · exact isPlain_hexUpper (Nat.mod_lt _ (by decide))
  exact ⟨List.all_eq_true.mpr fun c hc => (hchars c hc).1,
    List.all_eq_true.mpr fun c hc => decide_eq_true (hchars c hc).2⟩

/-- An array of Base64 texts, when each has one. Kind: L -/
theorem encodedArray_eq {items : List Str} (h : ∀ s ∈ items, s ≠ []) :
    LocalDescription.encodedArray encoder items = array (encodings encoder items) := by
  have hitems : (items.map fun item => match base64Encode encoder item with
      | some encoded => str "\"" ++ encoded ++ str "\""
      | none => []) = (encodings encoder items).map quoted := by
    induction items with
    | nil => rfl
    | cons item items ih =>
        obtain ⟨encoded, hencoded⟩ : ∃ encoded, base64Encode encoder item = some encoded :=
          ⟨_, if_neg (h item (by simp))⟩
        have hcons : encodings encoder (item :: items) = encoded :: encodings encoder items :=
          List.filterMap_cons_some hencoded
        rw [List.map_cons, ih fun s hs => h s (List.mem_cons_of_mem _ hs), hcons, List.map_cons,
          hencoded]
        rfl
  rw [LocalDescription.encodedArray, hitems]
  rfl

/-- An array of Base64 texts is written well. Kind: L -/
theorem encodedEntry_neat {encoder : Str → Str} (hencoder : IsBase64 encoder) {items : List Str}
    (h : ∀ s ∈ items, s ≠ []) : (encodedEntry encoder items).Neat := by
  have hquotable : ∀ s ∈ encodings encoder items, Quotable s := by
    intro s hs
    obtain ⟨item, -, hitem⟩ := List.mem_filterMap.mp hs
    exact quotable_base64Encode hencoder hitem
  rw [encodedEntry, Entry.Neat, encodedArray_eq encoder h]
  exact ⟨ascii_array fun s hs => (hquotable s hs).2, readsAs_array fun s hs => (hquotable s hs).1⟩

/-- A number is written well. Kind: L -/
theorem numeral_neat {n : ℕ} (hn : n < 2 ^ 64) : (numeral n).Neat := by
  rw [numeral, Entry.Neat]
  exact ⟨ascii_decimal n, readsAs_decimal hn⟩

/-- The literals of the messages are heads and white space. Kind: L -/
theorem literals_form (m : HandBuilt) :
    ∀ p ∈ (m.form encoder).literals, p.1.Neat ∧ white p.2 = true := by
  cases m
  all_goals simp only [form, Form.literals]
  all_goals decide

/-- No message names a member twice. Kind: L -/
theorem keys_form (m : HandBuilt) : (m.form encoder).keys.Nodup := by
  cases m
  all_goals simp only [form, Form.keys]
  all_goals decide

/-- A type that is written into a message needs no escape. Kind: L -/
theorem types_neat : ∀ type ∈ [str "offer", str "file_offer", str "file_complete", str "candidate",
    str "pong"], (Entry.word type).Neat := by
  simp only [Entry.Neat]
  decide

/-- The file object is written well. Kind: L -/
theorem fileForm_neat (filename displayName : Str) {file : FileFacts}
    (hmime : Quotable file.mimeType) : (fileForm filename displayName file).Neat := by
  have hsize : (numeral file.size.toNat).Neat := numeral_neat (UInt64.toNat_lt _)
  have hcrc : (numeral file.crc.toNat).Neat :=
    numeral_neat (lt_trans (UInt32.toNat_lt _) (by decide))
  apply Form.neat_of_entries
  · simp only [fileForm, Form.literals]
    decide
  · simp only [fileForm, Form.keys]
    decide
  · simp only [fileForm, Form.entries, List.forall_mem_cons]
    exact ⟨trivial, hsize, hmime, hcrc, by simp⟩

/-- **The forms are written well.** Kind: P -/
theorem form_neat {encoder : Str → Str} (hencoder : IsBase64 encoder) {m : HandBuilt}
    (hm : m.FromLibraries) : (m.form encoder).Neat := by
  apply Form.neat_of_entries (literals_form encoder m) (keys_form encoder m)
  cases m with
  | offer room peer desc =>
      simp only [form, Form.entries, List.forall_mem_cons]
      exact ⟨types_neat _ (by simp), trivial, trivial, encodedEntry_neat hencoder hm.1,
        encodedEntry_neat hencoder hm.2, by simp⟩
  | fileOffer random room peer filename displayName file =>
      simp only [form, Form.entries, List.forall_mem_cons]
      exact ⟨types_neat _ (by simp), quotable_generateUUID random, trivial, trivial,
        fileForm_neat filename displayName hm, by simp⟩
  | fileComplete room peer =>
      simp only [form, Form.entries, List.forall_mem_cons]
      exact ⟨types_neat _ (by simp), trivial, trivial, by simp⟩
  | candidate peer room cand mid =>
      simp only [form, Form.entries, List.forall_mem_cons]
      exact ⟨types_neat _ (by simp), trivial, trivial, hm.1, hm.2, by simp⟩
  | description typeString peer room sdp =>
      have hsdp : Quotable ((base64Encode encoder sdp).getD []) :=
        quotable_base64Encode hencoder (by rw [base64Encode, if_neg hm.2]; rfl)
      simp only [form, Form.entries, List.forall_mem_cons]
      exact ⟨hm.1, trivial, trivial, hsdp, by simp⟩
  | pong peer =>
      simp only [form, Form.entries, List.forall_mem_cons]
      exact ⟨types_neat _ (by simp), trivial, by simp⟩

/-! ## Which messages survive -/

/-- A form's names are the message's. Kind: L -/
theorem names_form (m : HandBuilt) : (m.form encoder).names = m.names := by
  cases m <;> rfl

/-- What is read back has the form's names in their places. Kind: L -/
theorem back_of_readBack {m : HandBuilt} {ms : List (Str × Json)} (h : m.ReadBack ms) :
    (m.form encoder).Back ms := by
  cases m with
  | offer room peer desc => exact ⟨trivial, h.2.1, h.2.2, trivial, trivial⟩
  | fileOffer random room peer filename displayName file =>
      obtain ⟨-, hroom, hpeer, info, hinfo, hname, -⟩ := h
      exact ⟨trivial, trivial, hroom, hpeer, info, hinfo, hname, trivial, trivial, trivial⟩
  | fileComplete room peer => exact ⟨trivial, h.2.1, h.2.2⟩
  | candidate peer room cand mid => exact ⟨trivial, h.2.1, h.2.2, trivial, trivial⟩
  | description typeString peer room sdp => exact ⟨trivial, h.2.1, h.2.2, trivial⟩
  | pong peer => exact ⟨trivial, h.2⟩

/-- What a form means is what is to be read back. Kind: L -/
theorem readBack_json (m : HandBuilt) : m.ReadBack (m.form encoder).json := by
  cases m with
  | fileOffer random room peer filename displayName file =>
      exact ⟨rfl, rfl, rfl, _, rfl, rfl, rfl, rfl⟩
  | pong peer => exact ⟨rfl, rfl⟩
  | _ => exact ⟨rfl, rfl, rfl⟩

/-- The names of a message that survives need no escapes. Kind: L -/
theorem tame_of_survives {encoder : Str → Str} (hencoder : IsBase64 encoder) {m : HandBuilt}
    (hm : m.FromLibraries) (h : m.Survives encoder) : ∀ s ∈ m.names, Tame s := by
  obtain ⟨text, ms, htext, hparse, hback⟩ := h
  rw [text_eq encoder hm, Option.some.injEq] at htext
  rw [← htext] at hparse
  rw [← names_form encoder m]
  exact Form.tame_of_parse (form_neat hencoder hm) hparse (back_of_readBack encoder hback)

/-- A message whose names need none survives. Kind: L -/
theorem survives_of_tame {encoder : Str → Str} (hencoder : IsBase64 encoder) {m : HandBuilt}
    (hm : m.FromLibraries) (h : ∀ s ∈ m.names, Tame s) : m.Survives encoder := by
  rw [← names_form encoder m] at h
  exact ⟨_, _, text_eq encoder hm, Form.parse_of_tame (form_neat hencoder hm) h,
    readBack_json encoder m⟩

/-- **A message survives iff its names need no escapes and are UTF-8.** Kind: P -/
theorem survives_iff {encoder : Str → Str} (hencoder : IsBase64 encoder) {m : HandBuilt}
    (hm : m.FromLibraries) : m.Survives encoder ↔ ∀ s ∈ m.names, Tame s :=
  ⟨tame_of_survives hencoder hm, survives_of_tame hencoder hm⟩

/-- An offer with a short description. Kind: L -/
theorem offer_survives : (offer (str "r") (str "b") ⟨[str "v=0"], []⟩).Survives
    fun _ => str "dj0w\n" := by
  have hencoder : IsBase64 fun _ => str "dj0w\n" := by
    have hchars : ∀ c ∈ str "dj0w\n", base64Char c = true ∨ c = 0x0A := by decide +kernel
    exact fun _ => hchars
  have hm : (offer (str "r") (str "b") ⟨[str "v=0"], []⟩).FromLibraries :=
    ⟨by decide, by decide⟩
  exact (survives_iff hencoder hm).mpr (by decide)

/-- A room with a quotation mark ends its string early. Kind: P -/
theorem quoted_room_lost : ¬(fileComplete (str "a\"b") (str "c")).Survives fun _ => [] := by
  rintro ⟨text, ms, htext, hparse, -⟩
  have hnone : (parse text).isNone = true := by
    rw [← Option.some.inj htext]
    decide +kernel
  rw [hparse] at hnone
  exact absurd hnone (by simp)

end HandBuilt

end CloudNode
