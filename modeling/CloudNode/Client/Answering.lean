import CloudNode.Client.Accesses

/-!
# Answered offers

The sender of a file waits for `file_accept` or `file_reject` without a timeout. The receiver
answers with the offer itself under another type, sent back to the first `peer` it names; several
paths through `OnFileOffer` answer nothing.

* `onFileOffer_eq` — what an offer with complete metadata is answered with, on every path.
* `find?_answer_peer` — whom the answer names: `SendFileAccept` erases two members named `peer` and
  `SendFileReject` one before they add theirs, so that a third or second one stays in front.
* `answered_iff` — an offer is answered once, to its sender, exactly if its name stays beneath the
  directory, the directories above its destination are there or can be created, no other `peer`
  comes to the front, and the message port takes the answer.
-/

namespace CloudNode

/-- A `file_offer` document with the fields that `OnFileOffer` requires, and a uuid; it may have
any further members. Kind: D -/
structure FileOfferDocument where
  members : List (Str × Json)
  type : Str
  sender : Str
  room : Str
  uuid : Str
  file : List (Str × Json)
  name : Str
  size : ℤ
  mimeType : Str
  find_type : Json.find? members (str "type") = some (.str type)
  routed : dispatch (cstr type) = some .onFileOffer
  find_peer : Json.find? members (str "peer") = some (.str sender)
  find_room : Json.find? members (str "room") = some (.str room)
  find_uuid : Json.find? members (str "uuid") = some (.str uuid)
  find_file : Json.find? members (str "file") = some (.obj file)
  find_name : Json.find? file (str "name") = some (.str name)
  find_size : Json.find? file (str "size") = some (.int size)
  int64 : -2 ^ 63 ≤ size ∧ size < 2 ^ 63
  find_mimeType : Json.find? file (str "mimeType") = some (.str mimeType)

namespace FileOfferDocument

open Json Client

/-- The CRC that the document gives. Kind: D -/
def crc (doc : FileOfferDocument) : Option ℕ :=
  match find? doc.file (str "crc") with
  | some (.int n) => if 0 ≤ n ∧ n < 2 ^ 64 then some n.toNat else none
  | _ => none

/-- The offer that the document makes. Kind: D -/
def offer (doc : FileOfferDocument) : OfferedFile where
  peer := cstr doc.sender
  room := cstr doc.room
  name := cstr doc.name
  size := doc.size
  mimeType := cstr doc.mimeType
  crc := doc.crc

/-- The document, answered: with its type overwritten, some members named `peer` erased, and one
added. Kind: D -/
def answer (doc : FileOfferDocument) (type : Str) (erased : ℕ) : List (Str × Json) :=
  (eraseFirst (str "peer"))^[erased] (setFirst (str "type") (.str type) doc.members) ++
    [(str "peer", .str (cstr doc.sender))]

/-- The offer is answered once, to its sender. Kind: D -/
def AnsweredOnce (doc : FileOfferDocument) (sent : List Json) : Prop :=
  ∃ members, sent = [.obj members] ∧
    (find? members (str "type") = some (.str (str "file_accept")) ∨
      find? members (str "type") = some (.str (str "file_reject"))) ∧
    find? members (str "uuid") = some (.str doc.uuid) ∧
    find? members (str "peer") = some (.str doc.sender)

variable (env : Surroundings) (doc : FileOfferDocument)

/-! ## What is sent -/

/-- The CRC, read. Kind: L -/
theorem optionalUint64_crc : optionalUint64 (.obj doc.file) (str "crc") = .ok doc.crc := by
  unfold optionalUint64 crc
  rw [hasSuch_obj, ok_bind]
  cases hfind : find? doc.file (str "crc") with
  | none => rfl
  | some v =>
      cases v with
      | int n =>
          by_cases hn : 0 ≤ n ∧ n < 2 ^ 64
          · simp only [Option.any_some, isUint64, hn, and_self, decide_true, if_true,
              member_of_find hfind, ok_bind, getUint64]
            rfl
          · simp only [Option.any_some, isUint64, hn, decide_false, Bool.false_eq_true, if_false]
            rfl
      | _ => rfl

/-- The document is read as the offer it makes. Kind: L -/
theorem readOffer_eq : readOffer (.obj doc.members) = .ok (some doc.offer) := by
  unfold readOffer
  simp only [hasSuch_obj, ok_bind, doc.find_peer, doc.find_room, doc.find_file, doc.find_name,
    doc.find_size, doc.find_mimeType, Option.any_some, isString, isObject, isInt64, doc.int64,
    and_self, decide_true, Bool.not_true, Bool.or_self, Bool.false_eq_true, if_false,
    member_of_find doc.find_file, member_of_find doc.find_size, stringAt_of_find doc.find_peer,
    stringAt_of_find doc.find_room, stringAt_of_find doc.find_name,
    stringAt_of_find doc.find_mimeType, optionalUint64_crc, getInt64, if_true]
  rfl

/-- `SendFileAccept` sends the document back. Kind: L -/
theorem sendFileAccept_eq : sendFileAccept (.obj doc.members) =
    .ok (some (.obj (doc.answer (str "file_accept") 2))) := by
  unfold sendFileAccept
  simp only [hasSuch_obj, ok_bind, doc.find_peer, Option.any_some, isString, Bool.not_true,
    Bool.false_eq_true, if_false, stringAt_of_find doc.find_peer, setString_of_find doc.find_type,
    eraseMember, addMember]
  rfl

/-- `SendFileReject` sends the document back. Kind: L -/
theorem sendFileReject_eq : sendFileReject (.obj doc.members) =
    .ok (some (.obj (doc.answer (str "file_reject") 1))) := by
  unfold sendFileReject
  simp only [hasSuch_obj, ok_bind, doc.find_peer, doc.find_uuid, Option.any_some, isString,
    Bool.not_true, Bool.or_self, Bool.false_eq_true, if_false, stringAt_of_find doc.find_peer,
    setString_of_find doc.find_type, eraseMember, addMember]
  rfl

/-- The document that answers the offer, if any does. Kind: D -/
def reply : Option Json :=
  match verdict env doc.offer with
  | .refused => none
  | .duplicate => some (.obj (doc.answer (str "file_reject") 1))
  | .accepted _ => some (.obj (doc.answer (str "file_accept") 2))

/-- **What an offer is answered with.** Kind: P -/
theorem onFileOffer_eq {β : Type} (s : Incoming OfferedFile β) :
    ∃ s', onFileOffer env (.obj doc.members) s = .ok (sendMessage env (doc.reply env), s') := by
  unfold onFileOffer
  rw [readOffer_eq, ok_bind]
  have hsize : -2 ^ 63 ≤ doc.offer.size ∧ doc.offer.size < 2 ^ 63 := doc.int64
  have hnothing : sendMessage env none = [] := by
    unfold sendMessage
    split <;> rfl
  simp only [Incoming.onFileOffer, if_pos hsize, reply]
  cases verdict env doc.offer with
  | refused => exact ⟨s, by rw [hnothing]; rfl⟩
  | duplicate =>
      simp only [sendFileReject_eq, ok_bind]
      exact ⟨s, rfl⟩
  | accepted destination =>
      simp only [sendFileAccept_eq, ok_bind]
      exact ⟨_, rfl⟩

/-! ## Whom the answer names -/

/-- Erasing members leaves those of other names. Kind: L -/
theorem valuesOf_erased_ne {k k' : Str} (h : k ≠ k') (n : ℕ) (members : List (Str × Json)) :
    valuesOf k' ((eraseFirst k)^[n] members) = valuesOf k' members := by
  induction n generalizing members with
  | zero => rfl
  | succ n ih => rw [Function.iterate_succ_apply, ih, valuesOf_eraseFirst_ne h]

/-- Erasing members takes away the first ones of their name. Kind: L -/
theorem valuesOf_erased_same (k : Str) (n : ℕ) (members : List (Str × Json)) :
    valuesOf k ((eraseFirst k)^[n] members) = (valuesOf k members).drop n := by
  induction n generalizing members with
  | zero => rfl
  | succ n ih =>
      rw [Function.iterate_succ_apply, ih, valuesOf_eraseFirst_same, List.drop_tail]

/-- An answer's type. Kind: L -/
theorem find?_answer_type (type : Str) (n : ℕ) :
    find? (doc.answer type n) (str "type") = some (.str type) := by
  have hset := find?_setFirst_same doc.find_type (.str type)
  rw [find?_eq_head?] at hset
  unfold answer
  rw [find?_eq_head?, valuesOf_append, valuesOf_erased_ne (by decide), List.head?_append, hset]
  rfl

/-- An answer's uuid. Kind: L -/
theorem find?_answer_uuid (type : Str) (n : ℕ) :
    find? (doc.answer type n) (str "uuid") = some (.str doc.uuid) := by
  have huuid := doc.find_uuid
  rw [find?_eq_head?] at huuid
  unfold answer
  rw [find?_eq_head?, valuesOf_append, valuesOf_erased_ne (by decide),
    valuesOf_setFirst_ne (by decide), List.head?_append, huuid]
  rfl

/-- **Whom an answer names**: the first `peer` that was not erased, and the sender if all were.
Kind: P -/
theorem find?_answer_peer (type : Str) (n : ℕ) : find? (doc.answer type n) (str "peer") =
    some (((valuesOf (str "peer") doc.members)[n]?).getD (.str (cstr doc.sender))) := by
  have hadded : (valuesOf (str "peer") [(str "peer", .str (cstr doc.sender))]).head? =
      some (.str (cstr doc.sender)) := by
    simp [valuesOf]
  unfold answer
  rw [find?_eq_head?, valuesOf_append, valuesOf_erased_same, valuesOf_setFirst_ne (by decide),
    List.head?_append, List.head?_drop, hadded]
  cases (valuesOf (str "peer") doc.members)[n]? with
  | none => rfl
  | some v => rfl

/-! ## Offers that are answered -/

/-- How many members named `peer` the answer to an offer with that destination erases: one where
the receiver has the file, two otherwise. Kind: D -/
def erased (dest : FilePath) : ℕ := if doc.crc.isSome ∧ env.crcOf dest = doc.crc then 1 else 2

/-- What it takes for an offer to be answered once, to its sender. Kind: D -/
structure Answerable : Prop where
  /-- The message port takes a message. -/
  sends : env.sends = true
  /-- The name stays beneath the receiver's directory, and there is or can be a directory for it. -/
  placeable : ∃ dest, destination env.directory (cstr doc.name) = some dest ∧
    env.creates dest = true
  /-- The `peer` that erasing brings to the front, if there is one, is the sender again; if there
  is none, the sender's id holds no NUL. -/
  named : ∀ dest, destination env.directory (cstr doc.name) = some dest →
    ((valuesOf (str "peer") doc.members)[doc.erased env dest]?).elim (0 ∉ doc.sender)
      (· = .str doc.sender)

/-- A string survives `c_str()` exactly if it holds no NUL. Kind: L -/
theorem cstr_eq_self_iff (s : Str) : cstr s = s ↔ 0 ∉ s := by
  constructor
  · intro h
    rw [← h]
    exact zero_not_mem_cstr s
  · exact cstr_of_zero_not_mem

/-- One answer is as it should be exactly if it names the sender. Kind: L -/
theorem answeredOnce_answer {type : Str} (htype : type = str "file_accept" ∨ type = str "file_reject")
    (n : ℕ) : doc.AnsweredOnce [.obj (doc.answer type n)] ↔
      ((valuesOf (str "peer") doc.members)[n]?).elim (0 ∉ doc.sender) (· = .str doc.sender) := by
  have hnames : find? (doc.answer type n) (str "peer") = some (.str doc.sender) ↔
      ((valuesOf (str "peer") doc.members)[n]?).elim (0 ∉ doc.sender) (· = .str doc.sender) := by
    rw [find?_answer_peer]
    cases (valuesOf (str "peer") doc.members)[n]? with
    | none => simp [cstr_eq_self_iff]
    | some v => simp
  rw [← hnames]
  constructor
  · rintro ⟨members, hsent, -, -, hpeer⟩
    obtain rfl : doc.answer type n = members := by simpa using hsent
    exact hpeer
  · intro hpeer
    refine ⟨_, rfl, ?_, doc.find?_answer_uuid type n, hpeer⟩
    rw [find?_answer_type]
    rcases htype with rfl | rfl
    · exact .inl rfl
    · exact .inr rfl

/-- Nothing is no answer. Kind: L -/
theorem not_answeredOnce_nil : ¬ doc.AnsweredOnce [] := by
  rintro ⟨members, hsent, -⟩
  simp at hsent

/-- An offer that is answered has a destination. Kind: L -/
theorem reply_cases :
    (doc.reply env = none ∧ ∀ dest, destination env.directory (cstr doc.name) = some dest →
      env.creates dest = false) ∨
    ∃ dest type, destination env.directory (cstr doc.name) = some dest ∧ env.creates dest = true ∧
      (type = str "file_accept" ∨ type = str "file_reject") ∧
      doc.reply env = some (.obj (doc.answer type (doc.erased env dest))) := by
  unfold reply verdict
  have hname : doc.offer.name = cstr doc.name := rfl
  have hcrc : doc.offer.crc = doc.crc := rfl
  rw [hname, hcrc]
  cases hdest : destination env.directory (cstr doc.name) with
  | none => exact .inl ⟨rfl, by simp⟩
  | some dest =>
      by_cases hcreates : env.creates dest = true
      · refine .inr ⟨dest, ?_⟩
        by_cases hduplicate : doc.crc.isSome ∧ env.crcOf dest = doc.crc
        · refine ⟨str "file_reject", rfl, hcreates, .inr rfl, ?_⟩
          simp [hcreates, hduplicate, erased]
        · refine ⟨str "file_accept", rfl, hcreates, .inl rfl, ?_⟩
          have htest : (doc.crc.isSome && decide (env.crcOf dest = doc.crc)) = false := by
            simpa using hduplicate
          simp [hcreates, htest, erased, hduplicate]
      · refine .inl ⟨by simp [hcreates], fun dest' hdest' => ?_⟩
        obtain rfl : dest = dest' := by simpa using hdest'
        simpa using hcreates

/-- The offer is answered once exactly if it is answerable. Kind: P -/
theorem answeredOnce_sent_iff :
    doc.AnsweredOnce (sendMessage env (doc.reply env)) ↔ doc.Answerable env := by
  unfold sendMessage
  by_cases hsends : env.sends = true
  · rw [if_pos hsends]
    rcases doc.reply_cases env with ⟨hnone, hcreates⟩ | ⟨dest, type, hdest, hcreates, htype, hreply⟩
    · rw [hnone]
      refine iff_of_false doc.not_answeredOnce_nil fun h => ?_
      obtain ⟨dest, hdest, htrue⟩ := h.placeable
      rw [hcreates dest hdest] at htrue
      simp at htrue
    · rw [hreply]
      constructor
      · intro h
        refine ⟨hsends, ⟨dest, hdest, hcreates⟩, fun dest' hdest' => ?_⟩
        obtain rfl : dest = dest' := Option.some.inj (hdest.symm.trans hdest')
        exact (doc.answeredOnce_answer htype _).mp h
      · exact fun h => (doc.answeredOnce_answer htype _).mpr (h.named dest hdest)
  · rw [if_neg hsends]
    exact iff_of_false doc.not_answeredOnce_nil fun h => hsends h.sends

/-- An offer that the router delivers. Kind: L -/
theorem onMessage_eq {β : Type} (t : Tables β) : ∃ incoming,
    onMessage env (.obj doc.members) t =
      .ok (.answered (sendMessage env (doc.reply env)) incoming) := by
  obtain ⟨incoming, hoffer⟩ := doc.onFileOffer_eq env t.incoming
  refine ⟨incoming, ?_⟩
  unfold onMessage
  rw [messageRouter_of_find doc.find_type, doc.routed, ok_bind]
  simp only [handle, hoffer]
  rfl

/-- **Which offers are answered.** For every client, in every state, and every offer, exactly one
response goes out, to the sender and with the offer's uuid, if and only if the offer is answerable.
Kind: P -/
theorem answered_iff {β : Type} (env : Surroundings) (doc : FileOfferDocument) (t : Tables β) :
    (∃ sent incoming, onMessage env (.obj doc.members) t = .ok (.answered sent incoming) ∧
      doc.AnsweredOnce sent) ↔ doc.Answerable env := by
  obtain ⟨incoming, hmessage⟩ := doc.onMessage_eq env t
  rw [← answeredOnce_sent_iff]
  constructor
  · rintro ⟨sent, incoming', hsent, hanswered⟩
    rw [hmessage] at hsent
    obtain ⟨rfl, -⟩ := Reaction.answered.inj (Except.ok.inj hsent)
    exact hanswered
  · exact fun hanswered => ⟨_, incoming, hmessage, hanswered⟩

/-- An offer of `../x`. Kind: D -/
def escaping : FileOfferDocument where
  members := [(str "type", .str (str "file_offer")), (str "peer", .str (str "b")),
    (str "room", .str (str "r")), (str "uuid", .str (str "1")),
    (str "file", .obj [(str "name", .str (str "../x")), (str "size", .int 1),
      (str "mimeType", .str (str "text/plain"))])]
  type := str "file_offer"
  sender := str "b"
  room := str "r"
  uuid := str "1"
  file := [(str "name", .str (str "../x")), (str "size", .int 1),
    (str "mimeType", .str (str "text/plain"))]
  name := str "../x"
  size := 1
  mimeType := str "text/plain"
  find_type := rfl
  routed := by decide
  find_peer := rfl
  find_room := rfl
  find_uuid := rfl
  find_file := rfl
  find_name := rfl
  find_size := rfl
  int64 := by decide
  find_mimeType := rfl

/-- An offer that is answered by nothing. Kind: P -/
theorem escaping_unanswered : ¬ ∀ (env : Surroundings) (doc : FileOfferDocument) (t : Tables UInt8),
    env.sends = true → ∃ sent incoming,
      onMessage env (.obj doc.members) t = .ok (.answered sent incoming) ∧ doc.AnsweredOnce sent := by
  intro h
  obtain ⟨sent, incoming, hmessage, hanswered⟩ := h calmClient escaping ⟨∅, {}⟩ rfl
  obtain ⟨incoming', hnothing⟩ := escaping.onMessage_eq calmClient (⟨∅, {}⟩ : Tables UInt8)
  rw [hnothing] at hmessage
  obtain ⟨rfl, -⟩ := Reaction.answered.inj (Except.ok.inj hmessage)
  have hlength : (sendMessage calmClient (escaping.reply calmClient)).length = 0 := by
    decide +kernel
  rw [List.eq_nil_of_length_eq_zero hlength] at hanswered
  exact escaping.not_answeredOnce_nil hanswered

end FileOfferDocument

end CloudNode
