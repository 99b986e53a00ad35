import CloudNode.Client.Accesses

/-!
# Roster messages, applied or ignored

A `peer_joined` or `peer_left` that is well-formed replaces the roster of the room it names. One
that is not is to leave the table alone. `OnJoin` reads the whole document before it touches the
table; `OnLeave` takes the peer out of the room first, and then reads `peers`.

* `Carries` — what a well-formed document says.
* `Applied` — the document is applied completely, or the table is as it was.
* `applied_insert_iff` — when replacing the roster that was read applies the document.
* `applied_iff` — the documents and tables for which the handlers do what they should.
-/

namespace CloudNode

namespace Client

open Json

/-- The document names a room and a peer, and its `peers` are an array of these strings. Kind: D -/
structure Carries (members : List (Str × Json)) (room peer : Str) (names : List Str) : Prop where
  room : find? members (str "room") = some (.str room)
  peerId : find? members (str "peerId") = some (.str peer)
  peers : find? members (str "peers") = some (.arr (names.map .str))

/-- The handler came to an end, and what it left is the table with the document's roster, as the
document has it, for the document's room; or it is the table as it was. Kind: D -/
def Applied (members : List (Str × Json)) (rooms : Rooms) (out : Except Fault Rooms) : Prop :=
  ∃ rooms', out = .ok rooms' ∧
    ((∃ room peer names, Carries members room peer names ∧
      (∃ roster, rooms'[room]? = some roster ∧ ∀ q, q ∈ roster ↔ q ∈ names) ∧
        ∀ r, r ≠ room → rooms'[r]? = rooms[r]?) ∨ rooms' = rooms)

/-- A room has a roster of these names. Kind: D -/
def HasRoster (rooms : Rooms) (room : Str) (names : List Str) : Prop :=
  ∃ roster, rooms[room]? = some roster ∧ ∀ q, q ∈ roster ↔ q ∈ names

variable {members : List (Str × Json)} {rooms : Rooms} {room peer type : Str} {names : List Str}
  {elems : List Json} {acc : Peers}

/-! ## Reading `peers` -/

/-- Strings are read up to their first NUL. Kind: L -/
theorem peersOf_strings (names : List Str) (acc : Peers) :
    ∃ read, peersOf (names.map .str) acc = some read ∧
      ∀ q, q ∈ read ↔ q ∈ acc ∨ q ∈ names.map cstr := by
  induction names generalizing acc with
  | nil => exact ⟨acc, rfl, fun q => by simp⟩
  | cons name names ih =>
      obtain ⟨read, hread, hmem⟩ := ih (acc.insert (cstr name))
      refine ⟨read, hread, fun q => ?_⟩
      rw [hmem, mem_insert_iff, List.map_cons, List.mem_cons, eq_comm (a := q)]
      tauto

/-- Elements that are read are strings. Kind: L -/
theorem exists_names_of_peersOf {read : Peers} (h : peersOf elems acc = some read) :
    ∃ names : List Str, elems = names.map .str := by
  induction elems generalizing acc with
  | nil => exact ⟨[], rfl⟩
  | cons e elems ih =>
      cases e with
      | str name =>
          obtain ⟨names, rfl⟩ := ih h
          exact ⟨name :: names, rfl⟩
      | _ => exact (Option.some_ne_none _ h.symm).elim

/-- A document carries one room, peer and list of names. Kind: L -/
theorem Carries.unique {room' peer' : Str} {names' : List Str} (h : Carries members room peer names)
    (h' : Carries members room' peer' names') : room' = room ∧ names' = names := by
  obtain ⟨hroom, -, hpeers⟩ := h
  obtain ⟨hroom', -, hpeers'⟩ := h'
  rw [hroom, Option.some.injEq, Json.str.injEq] at hroom'
  rw [hpeers, Option.some.injEq, Json.arr.injEq] at hpeers'
  refine ⟨hroom'.symm, ?_⟩
  have hinj : Function.Injective Json.str := fun a b => Json.str.inj
  exact (hinj.list_map hpeers').symm

/-! ## The table -/

/-- A roster that is replaced by itself. Kind: L -/
theorem insert_eq_self {read : Peers} (h : rooms[room]? = some read) :
    rooms.insert room read = rooms := by
  apply Std.ExtTreeMap.ext_getElem?
  intro r
  rw [getElem?_insert_eq]
  split
  · rename_i hr
    rw [← hr, h]
  · rfl

/-- **When replacing the roster that was read applies the document**: nothing in it was cut at a
NUL, or the table has that roster already. Kind: P -/
theorem applied_insert_iff {read : Peers} (hcarries : Carries members room peer names)
    (hread : ∀ q, q ∈ read ↔ q ∈ names.map cstr) :
    Applied members rooms (.ok (rooms.insert (cstr room) read)) ↔
      (0 ∉ room ∧ ∀ name ∈ names, 0 ∉ name) ∨ HasRoster rooms (cstr room) (names.map cstr) := by
  constructor
  · rintro ⟨rooms', hout, hwhole | rfl⟩
    · obtain rfl := Except.ok.inj hout
      obtain ⟨room', peer', names', hcarries', ⟨roster, hroster, hnames⟩, hothers⟩ := hwhole
      obtain ⟨rfl, rfl⟩ := hcarries.unique hcarries'
      by_cases hcut : cstr room' = room'
      · refine .inl ⟨hcut ▸ zero_not_mem_cstr room', fun name hname => ?_⟩
        rw [hcut, getElem?_insert_same, Option.some.injEq] at hroster
        rw [← hnames, ← hroster, hread] at hname
        obtain ⟨name', -, rfl⟩ := List.mem_map.mp hname
        exact zero_not_mem_cstr name'
      · have hsame := hothers (cstr room') hcut
        rw [getElem?_insert_same] at hsame
        exact .inr ⟨read, hsame.symm, hread⟩
    · have hsame := Except.ok.inj hout
      refine .inr ⟨read, ?_, hread⟩
      rw [← hsame, getElem?_insert_same]
  · rintro (⟨hroom, hnames⟩ | ⟨roster, hroster, hnames⟩)
    · refine ⟨_, rfl, .inl ⟨room, peer, names, hcarries, ⟨read, ?_, fun q => ?_⟩, fun r hr => ?_⟩⟩
      · rw [cstr_of_zero_not_mem hroom, getElem?_insert_same]
      · have huncut : names.map cstr = names := by
          rw [List.map_congr_left fun name hname => cstr_of_zero_not_mem (hnames name hname)]
          exact List.map_id' names
        rw [hread, huncut]
      · rw [cstr_of_zero_not_mem hroom, getElem?_insert_ne _ _ hr.symm]
    · refine ⟨_, rfl, .inr (insert_eq_self ?_)⟩
      rw [hroster, Option.some.injEq]
      apply Std.ExtTreeSet.ext_mem
      intro q
      rw [hnames, hread]

/-! ## The handlers -/

/-- `OnJoin` and a document that carries a roster. Kind: L -/
theorem onJoin_of_carries (h : Carries members room peer names) (rooms : Rooms) :
    ∃ read, (∀ q, q ∈ read ↔ q ∈ names.map cstr) ∧ onJoin (.obj members) rooms =
      .ok (WebRTC.updatePeers rooms (cstr room) read, some (cstr room, cstr peer)) := by
  obtain ⟨hroom, hpeer, hpeers⟩ := h
  obtain ⟨read, hread, hmem⟩ := peersOf_strings names ∅
  refine ⟨read, fun q => ?_, ?_⟩
  · rw [hmem]
    exact or_iff_right Std.ExtTreeSet.not_mem_empty
  · unfold onJoin
    simp only [hasSuch_obj, hroom, hpeer, hpeers, Option.any_some, isString, isArray, ok_bind,
      Bool.not_true, Bool.false_eq_true, if_false, stringAt_of_find hroom, stringAt_of_find hpeer,
      member_of_find hpeers, getArray, hread]
    rfl

/-- `OnJoin` and one that does not. Kind: L -/
theorem onJoin_of_not_carries (h : ¬ ∃ room peer names, Carries members room peer names)
    (rooms : Rooms) : onJoin (.obj members) rooms = .ok (rooms, none) := by
  obtain ⟨out, hout⟩ : Safe (onJoin (.obj members) rooms) := safe_onJoin
  rcases onJoin_cases hout with rfl | ⟨room, peer, read, hsubject, hroster, -⟩
  · exact hout
  · simp only [subjectOf] at hsubject
    simp only [rosterOf] at hroster
    split at hsubject
    · rename_i room' peer' hroom hpeer
      split at hroster
      · rename_i elems hpeers
        obtain ⟨names, rfl⟩ := exists_names_of_peersOf hroster
        exact absurd ⟨room', peer', names, hroom, hpeer, hpeers⟩ h
      · exact (Option.some_ne_none _ hroster.symm).elim
    · exact (Option.some_ne_none _ hsubject.symm).elim

/-- `OnLeave` and a document that carries a roster. Kind: L -/
theorem onLeave_of_carries (h : Carries members room peer names) (rooms : Rooms) :
    ∃ read, (∀ q, q ∈ read ↔ q ∈ names.map cstr) ∧
      onLeave (.obj members) rooms = .ok (rooms.insert (cstr room) read) := by
  obtain ⟨hroom, hpeer, hpeers⟩ := h
  obtain ⟨read, hread, hmem⟩ := peersOf_strings names ∅
  have hleave : WebRTC.updatePeers (WebRTC.leave rooms (cstr peer) (cstr room)).2 (cstr room) read =
      rooms.insert (cstr room) read := by
    apply Std.ExtTreeMap.ext_getElem?
    intro r
    unfold WebRTC.updatePeers
    rw [getElem?_insert_eq, getElem?_insert_eq]
    split
    · rfl
    · rename_i hne
      exact getElem?_leave_ne hne
  refine ⟨read, fun q => ?_, ?_⟩
  · rw [hmem]
    exact or_iff_right Std.ExtTreeSet.not_mem_empty
  · unfold onLeave
    simp only [hasSuch_obj, hroom, hpeer, Option.any_some, isString, ok_bind, Bool.not_true,
      Bool.false_eq_true, if_false, stringAt_of_find hroom, stringAt_of_find hpeer,
      member_of_find hpeers, getArray, hread, hleave]
    rfl

/-- `OnLeave` and one that names no room or no peer. Kind: L -/
theorem onLeave_of_unnamed
    (h : ¬ ∃ room peer, find? members (str "room") = some (.str room) ∧
      find? members (str "peerId") = some (.str peer)) (rooms : Rooms) :
    onLeave (.obj members) rooms = .ok rooms := by
  unfold onLeave
  cases hroom : (find? members (str "room")).any isString with
  | false =>
      simp only [hasSuch_obj, hroom, ok_bind]
      rfl
  | true =>
      cases hpeer : (find? members (str "peerId")).any isString with
      | false =>
          simp only [hasSuch_obj, hroom, hpeer, ok_bind]
          rfl
      | true =>
          obtain ⟨room, hroom⟩ := exists_string_of_any hroom
          obtain ⟨peer, hpeer⟩ := exists_string_of_any hpeer
          exact absurd ⟨room, peer, hroom, hpeer⟩ h

/-- `OnLeave` and a document whose `peers` are no array. Kind: L -/
theorem onLeave_of_not_array (hroom : find? members (str "room") = some (.str room))
    (hpeer : find? members (str "peerId") = some (.str peer))
    (hpeers : ∀ elems, find? members (str "peers") ≠ some (.arr elems)) (rooms rooms' : Rooms) :
    onLeave (.obj members) rooms ≠ .ok rooms' := by
  intro h
  unfold onLeave at h
  simp only [hasSuch_obj, hroom, hpeer, Option.any_some, isString, ok_bind, Bool.not_true,
    Bool.false_eq_true, if_false, stringAt_of_find hroom, stringAt_of_find hpeer] at h
  obtain ⟨v, hmember, h⟩ := bind_eq_ok.mp h
  obtain ⟨elems, helems, -⟩ := bind_eq_ok.mp h
  exact hpeers elems (find?_of_getArray hmember helems)

/-- `OnLeave` and a document with a peer that is no string. Kind: L -/
theorem onLeave_of_mixed (hroom : find? members (str "room") = some (.str room))
    (hpeer : find? members (str "peerId") = some (.str peer))
    (hpeers : find? members (str "peers") = some (.arr elems)) (hmixed : peersOf elems ∅ = none)
    (rooms : Rooms) :
    onLeave (.obj members) rooms = .ok (WebRTC.leave rooms (cstr peer) (cstr room)).2 := by
  unfold onLeave
  simp only [hasSuch_obj, hroom, hpeer, Option.any_some, isString, ok_bind, Bool.not_true,
    Bool.false_eq_true, if_false, stringAt_of_find hroom, stringAt_of_find hpeer,
    member_of_find hpeers, getArray, hmixed]
  rfl

/-! ## When a document is applied or ignored -/

/-- What a document and a table have to be like: if the document carries a roster, it was not cut at
a NUL, or the table has what is read of it already; and if it is a `peer_left` that names a room and
a peer, its `peers` are an array, of strings only unless the room does not have the peer. Kind: D -/
structure Harmless (type : Str) (members : List (Str × Json)) (rooms : Rooms) : Prop where
  uncut : ∀ room peer names, Carries members room peer names →
    (0 ∉ room ∧ ∀ name ∈ names, 0 ∉ name) ∨ HasRoster rooms (cstr room) (names.map cstr)
  complete : type = str "peer_left" → ∀ room peer,
    find? members (str "room") = some (.str room) →
    find? members (str "peerId") = some (.str peer) →
      ∃ elems, find? members (str "peers") = some (.arr elems) ∧
        ((∃ names : List Str, elems = names.map .str) ∨ cstr peer ∉ rooms.members (cstr room))

/-- A table that is left as it was. Kind: L -/
theorem applied_self : Applied members rooms (.ok rooms) := ⟨rooms, rfl, .inr rfl⟩

/-- A peer that leaves a room it is in is missed there. Kind: L -/
theorem webrtcLeave_eq_self_iff :
    (WebRTC.leave rooms peer room).2 = rooms ↔ peer ∉ rooms.members room := by
  constructor
  · intro h hmem
    rw [← h, WebRTC.members_leave, if_pos rfl, mem_erase_iff] at hmem
    exact hmem.1 rfl
  · intro hmem
    apply Std.ExtTreeMap.ext_getElem?
    intro r
    unfold WebRTC.leave
    cases hroom : rooms[room]? with
    | none => rfl
    | some peers =>
        have hpeers : rooms.members room = peers := by
          rw [Rooms.members, hroom]
          rfl
        rw [hpeers] at hmem
        simp only [if_neg hmem]

/-- What the table is left as, where the document carries no roster. Kind: L -/
theorem applied_iff_of_not_carries (h : ¬ ∃ room peer names, Carries members room peer names)
    {out : Except Fault Rooms} : Applied members rooms out ↔ out = .ok rooms := by
  constructor
  · rintro ⟨rooms', hout, ⟨room, peer, names, hcarries, -⟩ | rfl⟩
    · exact absurd ⟨room, peer, names, hcarries⟩ h
    · exact hout
  · rintro rfl
    exact applied_self

/-- **`OnJoin` applies or ignores** a document whose roster was not cut. Kind: P -/
theorem applied_onJoin_iff :
    Applied members rooms ((onJoin (.obj members) rooms).map Prod.fst) ↔
      ∀ room peer names, Carries members room peer names →
        (0 ∉ room ∧ ∀ name ∈ names, 0 ∉ name) ∨ HasRoster rooms (cstr room) (names.map cstr) := by
  by_cases hcarries : ∃ room peer names, Carries members room peer names
  · obtain ⟨room, peer, names, hcarries⟩ := hcarries
    obtain ⟨read, hread, hout⟩ := onJoin_of_carries hcarries rooms
    rw [hout]
    refine (applied_insert_iff hcarries hread).trans ⟨?_, fun h => h _ _ _ hcarries⟩
    intro h room' peer' names' hcarries'
    obtain ⟨rfl, rfl⟩ := hcarries.unique hcarries'
    exact h
  · rw [onJoin_of_not_carries hcarries]
    refine iff_of_true applied_self fun room peer names h => ?_
    exact absurd ⟨room, peer, names, h⟩ hcarries

/-- **`OnLeave` applies or ignores** a document whose roster was not cut and can be read to its end.
Kind: P -/
theorem applied_onLeave_iff : Applied members rooms (onLeave (.obj members) rooms) ↔
    Harmless (str "peer_left") members rooms := by
  by_cases hcarries : ∃ room peer names, Carries members room peer names
  · obtain ⟨room, peer, names, hcarries⟩ := hcarries
    obtain ⟨read, hread, hout⟩ := onLeave_of_carries hcarries rooms
    rw [hout, applied_insert_iff hcarries hread]
    constructor
    · intro h
      refine ⟨fun room' peer' names' hcarries' => ?_, fun _ room' peer' hroom' hpeer' => ?_⟩
      · obtain ⟨rfl, rfl⟩ := hcarries.unique hcarries'
        exact h
      · exact ⟨_, hcarries.peers, .inl ⟨names, rfl⟩⟩
    · exact fun h => h.uncut _ _ _ hcarries
  · rw [applied_iff_of_not_carries hcarries]
    have huncut : ∀ room peer names, Carries members room peer names →
        (0 ∉ room ∧ ∀ name ∈ names, 0 ∉ name) ∨ HasRoster rooms (cstr room) (names.map cstr) :=
      fun room peer names h => absurd ⟨room, peer, names, h⟩ hcarries
    by_cases hnamed : ∃ room peer, find? members (str "room") = some (.str room) ∧
        find? members (str "peerId") = some (.str peer)
    · obtain ⟨room, peer, hroom, hpeer⟩ := hnamed
      by_cases hpeers : ∃ elems, find? members (str "peers") = some (.arr elems)
      · obtain ⟨elems, hpeers⟩ := hpeers
        have hmixed : ¬ ∃ names : List Str, elems = names.map .str := by
          rintro ⟨names, rfl⟩
          exact hcarries ⟨room, peer, names, hroom, hpeer, hpeers⟩
        have hnone : peersOf elems ∅ = none := by
          cases hread : peersOf elems ∅ with
          | none => rfl
          | some read => exact absurd (exists_names_of_peersOf hread) hmixed
        rw [onLeave_of_mixed hroom hpeer hpeers hnone, Except.ok.injEq, webrtcLeave_eq_self_iff]
        constructor
        · intro hmem
          refine ⟨huncut, fun _ room' peer' hroom' hpeer' => ⟨elems, hpeers, .inr ?_⟩⟩
          rw [hroom, Option.some.injEq, Json.str.injEq] at hroom'
          rw [hpeer, Option.some.injEq, Json.str.injEq] at hpeer'
          rw [← hroom', ← hpeer']
          exact hmem
        · intro h
          obtain ⟨elems', hpeers', hstrings | hmem⟩ := h.complete rfl room peer hroom hpeer
          · rw [hpeers, Option.some.injEq, Json.arr.injEq] at hpeers'
            exact absurd (hpeers' ▸ hstrings) hmixed
          · exact hmem
      · refine iff_of_false (onLeave_of_not_array hroom hpeer ?_ rooms rooms) fun h => ?_
        · exact fun elems h => hpeers ⟨elems, h⟩
        · obtain ⟨elems, h, -⟩ := h.complete rfl room peer hroom hpeer
          exact hpeers ⟨elems, h⟩
    · refine iff_of_true (onLeave_of_unnamed hnamed rooms) ⟨huncut, fun _ room peer hroom hpeer => ?_⟩
      exact absurd ⟨room, peer, hroom, hpeer⟩ hnamed

/-- A `peer_joined` goes to `OnJoin`. Kind: L -/
theorem absorb_joined (hfind : find? members (str "type") = some (.str (str "peer_joined"))) :
    absorb rooms (.document (.obj members)) = (onJoin (.obj members) rooms).map Prod.fst := by
  have hdispatch : dispatch (cstr (str "peer_joined")) = some .onJoin := by decide +kernel
  unfold absorb
  simp only [messageRouter_of_find hfind, ok_bind, hdispatch]
  rfl

/-- A `peer_left` goes to `OnLeave`. Kind: L -/
theorem absorb_left (hfind : find? members (str "type") = some (.str (str "peer_left"))) :
    absorb rooms (.document (.obj members)) = onLeave (.obj members) rooms := by
  have hdispatch : dispatch (cstr (str "peer_left")) = some .onLeave := by decide +kernel
  unfold absorb
  simp only [messageRouter_of_find hfind, ok_bind, hdispatch]

/-- **Roster messages are applied completely or not at all**, exactly where the document and the
table are as they have to be. Kind: P -/
theorem applied_iff (htype : type = str "peer_joined" ∨ type = str "peer_left")
    (hfind : find? members (str "type") = some (.str type)) (rooms : Rooms) :
    Applied members rooms (absorb rooms (.document (.obj members))) ↔
      Harmless type members rooms := by
  rcases htype with rfl | rfl
  · rw [absorb_joined hfind, applied_onJoin_iff]
    exact ⟨fun h => ⟨h, fun hleft => absurd hleft (by decide)⟩, fun h => h.uncut⟩
  · rw [absorb_left hfind]
    exact applied_onLeave_iff

/-- A departure that leaves one peer behind. Kind: P -/
theorem applied_departure : Applied
    [(str "type", .str (str "peer_left")), (str "peerId", .str (str "b")),
      (str "room", .str (str "r")), (str "peers", .arr [.str (str "a")])] ∅
    (absorb ∅ (.document (.obj
      [(str "type", .str (str "peer_left")), (str "peerId", .str (str "b")),
        (str "room", .str (str "r")), (str "peers", .arr [.str (str "a")])]))) := by
  apply (applied_iff (.inr rfl) rfl ∅).mpr
  refine ⟨fun room peer names h => .inl ?_, fun _ room peer _ _ => ⟨_, rfl, .inl ⟨[str "a"], rfl⟩⟩⟩
  obtain rfl : str "r" = room := Json.str.inj (Option.some.inj h.room)
  have hnames : [Json.str (str "a")] = names.map .str := Json.arr.inj (Option.some.inj h.peers)
  refine ⟨by decide, fun name hname => ?_⟩
  have hmem : Json.str name ∈ [Json.str (str "a")] := hnames ▸ List.mem_map_of_mem hname
  obtain rfl := Json.str.inj (List.mem_singleton.mp hmem)
  decide

/-- A departure whose `peers` hold a number takes the peer out of its room, and leaves the rest of
the roster as it was. Kind: P -/
theorem departure_half_applied : ¬ ∀ (type : Str) (members : List (Str × Json)) (rooms : Rooms),
    type = str "peer_joined" ∨ type = str "peer_left" →
      find? members (str "type") = some (.str type) →
        Applied members rooms (absorb rooms (.document (.obj members))) := by
  intro hall
  have happlied := hall (str "peer_left")
    [(str "type", .str (str "peer_left")), (str "peerId", .str (str "b")),
      (str "room", .str (str "r")), (str "peers", .arr [.str (str "a"), .int 7])]
    ((∅ : Rooms).insert (str "r") ((∅ : Peers).insert (str "b"))) (.inr rfl) rfl
  rw [absorb_left rfl, applied_onLeave_iff] at happlied
  obtain ⟨elems, helems, ⟨names, hnames⟩ | hmem⟩ := happlied.complete rfl _ _ rfl rfl
  · obtain rfl : [.str (str "a"), .int 7] = elems := Json.arr.inj (Option.some.inj helems)
    have hnumber : Json.int 7 ∈ names.map .str := hnames ▸ by simp
    obtain ⟨name, -, hname⟩ := List.mem_map.mp hnumber
    exact Json.noConfusion hname
  · exact hmem (by decide)

end Client

end CloudNode
