import CloudNode.Client.Handshake

/-!
# The name of an offered file, on both sides

`SendFileOffer` computes the name that a file is offered under, `get_file_info` puts it into the
text of the offer as it is, the server and the receiver read it from there, and `OnFileOffer`
confines what it has read. Both sides agree on the name when the text is read as it was written, the
name that is read passes the receiver's check, and a file beneath the sender's directory goes to the
same place beneath the receiver's.

* `tame_offeredBelow` — an offered name needs no escapes iff the names below the directory need
  none.
* `arrived_of_tame` — an offer that needs no escapes arrives with its name.
* `agrees_iff` — both sides agree on the name exactly if room, peer and those names need no escapes
  and the file is not outside the sender's directory.
-/

namespace CloudNode

open Json Paths

/-- An existing regular file, as the file system and `libmagic` describe it. Kind: D -/
structure RegularFile where
  path : Str
  facts : FileFacts
  namesFile : NamesFile (parsePath path)
  /-- A size is an `off_t`, which is signed. -/
  size_lt : facts.size.toNat < 2 ^ 63
  quotable : HandBuilt.Quotable facts.mimeType

/-- An offer of a file, with what both sides compute with. Kind: D -/
structure Offering where
  /-- The sender's current path. -/
  cwd : WorkingDirectory
  /-- The sender's property `directory`. -/
  directory : Str
  file : RegularFile
  /-- The bytes of the uuid. -/
  random : Fin 16 → UInt8
  sender : Str
  room : Str
  peer : Str
  /-- The receiver's current path. -/
  cwd' : WorkingDirectory
  /-- The receiver's property `directory`. -/
  own : Str

namespace Offering

/-- Source: `WebRTCClient.cpp`, `SendFileOffer`, `payload`. Kind: D -/
def payload (o : Offering) : HandBuilt :=
  .fileOffer o.random o.room o.peer o.file.path (offeredPath o.cwd o.directory o.file.path)
    o.file.facts

/-- What the receiver reads of a document, once the server has put the sender in the place of the
peer.
Source: `WebRTCServer.cpp`, `OnFileOffer`; `WebRTCClient.cpp`, `OnFileOffer`
Kind: D -/
def readRelayed (sender : Str) : Json → Option OfferedFile
  | .obj members =>
    (Client.readOffer (.obj (setFirst (str "peer") (.str sender) members))).toOption.join
  | _ => none

-- The encoder is that of descriptions, of which a file offer has none.
variable (encoder : Str → Str)

/-- The offer as the receiver reads it from the text. Kind: D -/
def arrived (o : Offering) : Option OfferedFile :=
  ((o.payload.text encoder).bind parse).bind (readRelayed o.sender)

/-- **Sender and receiver agree on the name.** Kind: D -/
structure Agrees (o : Offering) : Prop where
  /-- The offer is read in its room, for its peer and under its name. -/
  carried : o.payload.Survives encoder
  /-- The name that is read passes the receiver's check. -/
  passes : ∃ offer, o.arrived encoder = some offer ∧ (confine offer.name).isSome = true
  /-- A file beneath the sender's directory goes to the same place beneath the receiver's. -/
  placed : o.directory ≠ [] → Beneath o.cwd o.directory o.file.path →
    ∃ offer dest, o.arrived encoder = some offer ∧ destination o.own offer.name = some dest ∧
      (resolve o.cwd' dest).relative (resolve o.cwd' (ownDirectory o.own)) =
        (resolve o.cwd (parsePath o.file.path)).relative (resolve o.cwd (parsePath o.directory))

variable {encoder} {o : Offering}

/-! ## Names without escapes -/

/-- The separator needs no escape. Kind: L -/
theorem tame_append_slash (a b : Str) : Tame (a ++ slash :: b) ↔ Tame a ∧ Tame b := by
  have hslash : isPlain slash = true := by decide
  unfold Tame
  rw [utf8_append_cons (by decide), Bool.and_eq_true, plain, List.all_append, List.all_cons, hslash,
    Bool.true_and, Bool.and_eq_true]
  exact and_and_and_comm

/-- A path needs no escapes iff its names need none. Kind: L -/
theorem tame_intercalate (ns : List FileName) :
    Tame ([slash].intercalate ((ns.map Step.down).map stepText)) ↔ ∀ n ∈ ns, Tame n.text := by
  induction ns with
  | nil => exact iff_of_true (by decide) (by simp)
  | cons n ns ih =>
      rw [List.forall_mem_cons]
      cases ns with
      | nil => simp [List.intercalate_singleton, stepText]
      | cons n' ns =>
          rw [← ih, ← tame_append_slash]
          simp only [List.map_cons, List.intercalate_cons_cons, List.append_assoc,
            List.singleton_append]
          rfl

/-- **An offered name needs no escapes** iff the names that are left of the path need none.
Kind: P -/
theorem tame_offeredBelow (directory : Str) (rest : List FileName) :
    Tame (pathString (offeredBelow directory rest)) ↔ ∀ n ∈ rest, Tame n.text := by
  rw [← tame_intercalate]
  unfold offeredBelow
  split
  · have hroot := tame_append_slash [] ([slash].intercalate ((rest.map Step.down).map stepText))
    rw [and_iff_right (by decide)] at hroot
    rw [← hroot]
    simp [pathString]
  · split
    · rename_i hempty
      subst hempty
      exact iff_of_true (by decide) (by decide)
    · simp [pathString, FsPath.through]

/-! ## The way of the name -/

/-- The file's facts are what libraries put into the offer. Kind: L -/
theorem fromLibraries (o : Offering) : o.payload.FromLibraries := o.file.quotable

/-- The names of the offer. Kind: L -/
theorem names_payload (o : Offering) :
    o.payload.names = [o.room, o.peer, offeredName o.cwd o.directory o.file.path] := rfl

/-- An encoder for offers of files, which have nothing to encode. Kind: L -/
theorem isBase64_nothing : IsBase64 fun _ => [] := fun _ _ hc => absurd hc List.not_mem_nil

/-- An offer is read as it was written iff its names need no escapes. Kind: L -/
theorem survives_payload_iff (encoder : Str → Str) (o : Offering) : o.payload.Survives encoder ↔
    Tame o.room ∧ Tame o.peer ∧ Tame (offeredName o.cwd o.directory o.file.path) := by
  have hnames : (∀ s ∈ o.payload.names, Tame s) ↔
      Tame o.room ∧ Tame o.peer ∧ Tame (offeredName o.cwd o.directory o.file.path) := by
    simp [names_payload]
  rw [← hnames]
  -- The offer's text is the same for every encoder.
  exact ⟨HandBuilt.tame_of_survives isBase64_nothing o.fromLibraries,
    HandBuilt.survives_of_tame isBase64_nothing o.fromLibraries⟩

/-- **An offer that needs no escapes arrives with its name.** Kind: P -/
theorem arrived_of_tame (encoder : Str → Str) (hroom : Tame o.room) (hpeer : Tame o.peer)
    (hname : Tame (offeredName o.cwd o.directory o.file.path)) :
    ∃ offer, o.arrived encoder = some offer ∧
      offer.name = offeredName o.cwd o.directory o.file.path := by
  have hparse : (o.payload.text encoder).bind parse = _ := Handshake.parse_offer isBase64_nothing
    o.random o.file.path (offeredPath o.cwd o.directory o.file.path) o.file.quotable hroom hpeer hname
  let doc := Handshake.received (generateUUID o.random) o.room o.sender
    (offeredName o.cwd o.directory o.file.path) o.file.facts o.file.size_lt
  have hrelayed : readRelayed o.sender (.obj (Handshake.offerMembers (generateUUID o.random) o.room
      o.peer (Handshake.fileMembers (offeredName o.cwd o.directory o.file.path) o.file.facts))) =
      (Client.readOffer (.obj doc.members)).toOption.join := rfl
  refine ⟨doc.offer, ?_, Handshake.cstr_of_plain hname.1⟩
  unfold arrived
  rw [hparse, Option.bind_some]
  refine hrelayed.trans ?_
  rw [doc.readOffer_eq]
  rfl

/-! ## The agreement -/

/-- **Where sender and receiver agree on a file's name.** For every working directory and every
directory setting of both, every existing regular file, room and peer, they do exactly if room and
peer need no escapes, and what is left of the file's path where offered names start, at the sender's
directory or at the root, is there and needs none either. Kind: P -/
theorem agrees_iff (encoder : Str → Str) (o : Offering) : o.Agrees encoder ↔
    Tame o.room ∧ Tame o.peer ∧ ∃ rest,
      location o.cwd o.file.path = offeredFrom o.cwd o.directory ++ rest ∧
        ∀ n ∈ rest, Tame n.text := by
  constructor
  · rintro ⟨hcarried, ⟨offer, harrived, hpasses⟩, -⟩
    obtain ⟨hroom, hpeer, hname⟩ := (survives_payload_iff encoder o).mp hcarried
    obtain ⟨offer', harrived', hsame⟩ := arrived_of_tame encoder hroom hpeer hname
    obtain rfl : offer' = offer := Option.some.inj (harrived'.symm.trans harrived)
    rw [hsame] at hpasses
    obtain ⟨rest, hrest⟩ : ∃ rest,
        location o.cwd o.file.path = offeredFrom o.cwd o.directory ++ rest := by
      unfold offeredFrom
      split
      · exact ⟨_, rfl⟩
      · rename_i hdirectory
        by_contra houtside
        rw [confine_of_outside o.file.namesFile hdirectory] at hpasses
        · exact Bool.noConfusion hpasses
        · exact fun ⟨rest, hrest⟩ => houtside ⟨rest, hrest.symm⟩
    rw [offeredName_of_location o.file.namesFile hrest, tame_offeredBelow] at hname
    exact ⟨hroom, hpeer, rest, hrest, hname⟩
  · rintro ⟨hroom, hpeer, rest, hrest, htame⟩
    have hname : Tame (offeredName o.cwd o.directory o.file.path) := by
      rw [offeredName_of_location o.file.namesFile hrest, tame_offeredBelow]
      exact htame
    obtain ⟨offer, harrived, hsame⟩ := arrived_of_tame encoder hroom hpeer hname
    refine ⟨(survives_payload_iff encoder o).mpr ⟨hroom, hpeer, hname⟩, ⟨offer, harrived, ?_⟩,
      fun hdirectory hbeneath => ?_⟩
    · rw [hsame]
      exact confine_of_location o.file.namesFile hrest
    · obtain ⟨dest, hdest, hplace⟩ := destination_of_beneath o.cwd' o.own o.file.namesFile hdirectory
        hbeneath
      exact ⟨offer, dest, harrived, hsame ▸ hdest, hplace⟩

/-- Whether a path ends in a name can be computed. Kind: L -/
theorem namesFile_of_isDown {p : FilePath}
    (h : (!p.trailing && p.steps.getLast?.any Step.isDown) = true) : NamesFile p := by
  obtain ⟨htrailing, hlast⟩ := Bool.and_eq_true_iff.mp h
  obtain ⟨s, hs, hdown⟩ := (Option.any_eq_true _ _).mp hlast
  refine ⟨(Bool.not_eq_true' _).mp htrailing, ?_⟩
  cases s with
  | down n => exact ⟨n, hs⟩
  | here => exact Bool.noConfusion hdown
  | up => exact Bool.noConfusion hdown

/-- A MIME type without escapes. Kind: L -/
theorem quotable_shortText : HandBuilt.Quotable Handshake.shortText.mimeType :=
  ⟨by decide, by decide⟩

/-- A size below the bound. Kind: L -/
theorem size_shortText : Handshake.shortText.size.toNat < 2 ^ 63 := by decide

/-- A short text under a path that ends in a name. Kind: D -/
def textAt (path : Str) (h : NamesFile (parsePath path)) : RegularFile :=
  ⟨path, Handshake.shortText, h, size_shortText, quotable_shortText⟩

/-- From `a` to `b` in the room `r`, both at the root; the receiver writes into `c`. Kind: D -/
def between (directory : Str) (file : RegularFile) : Offering where
  cwd := atRoot
  directory := directory
  file := file
  random := fun _ => 0
  sender := str "a"
  room := str "r"
  peer := str "b"
  cwd' := atRoot
  own := str "c"

/-- The path ends in a name. Kind: L -/
theorem namesFile_below : NamesFile (parsePath (str "a/d/x")) := namesFile_of_isDown (by decide)

/-- A file in a subdirectory of the sender's directory, which is given with a detour. Kind: P -/
theorem agrees_of_subdirectory :
    (between (str "./b/../a/") (textAt (str "a/d/x") namesFile_below)).Agrees fun _ => [] :=
  (agrees_iff _ _).mpr ⟨by decide, by decide, (location atRoot (str "a/d/x")).drop 1, by decide,
    by decide⟩

/-- The path ends in a name. Kind: L -/
theorem namesFile_beside : NamesFile (parsePath (str "x")) := namesFile_of_isDown (by decide)

/-- A file beside the sender's directory is offered under a name that the receiver refuses, between
a room and a peer that need no escapes. Kind: P -/
theorem refused_outside : ¬ ∀ (encoder : Str → Str) (o : Offering), Tame o.room → Tame o.peer →
    ((o.arrived encoder).bind fun offer => confine offer.name).isSome = true := by
  intro h
  have hpasses := h (fun _ => []) (between (str "a") (textAt (str "x") namesFile_beside)) (by decide)
    (by decide)
  have hrefused : (((between (str "a") (textAt (str "x") namesFile_beside)).arrived fun _ => []).bind
      fun offer => confine offer.name).isSome = false := by
    decide +kernel
  rw [hrefused] at hpasses
  exact Bool.noConfusion hpasses

/-- The path ends in a name. Kind: L -/
theorem namesFile_escaped : NamesFile (parsePath (str "w/\\u002e\\u002e/x")) :=
  namesFile_of_isDown (by decide)

-- A directory whose name is an escape of `..` leads up when the name is read, though not on disk.
example : ((between (str "w") (textAt (str "w/\\u002e\\u002e/x") namesFile_escaped)).arrived
    fun _ => []).map (fun offer => (offer.name, (confine offer.name).isSome)) =
      some (str "../x", false) := by
  decide +kernel

end Offering

end CloudNode
