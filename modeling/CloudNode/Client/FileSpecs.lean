import CloudNode.Client.Worker

/-!
# The file list of the command line

`--file` is a list of `peer:room:path` entries with commas between them, or, with `--peer`, a list
of paths. Two loops go through it by positions: each finds the next comma, or the end, takes what is
before it, and goes on behind it, as long as that is not beyond the end.

* `parseFileSpecs`, `splitPaths` — the two loops; `none` is an exception of `substr`.
* `pieces` — the non-empty pieces between the commas.
* `parseEntry_eq_some_iff` — an entry is accepted when it splits at its first two colons.
* `parsed_exactly` — what is accepted, what is appended, and that printed specs are read back.
-/

namespace CloudNode

/-- Source: `WebRTCClient.cpp`, `','`. Kind: D -/
def comma : UInt8 := 44

/-- Source: `WebRTCClient.cpp`, `':'`. Kind: D -/
def colon : UInt8 := 58

/-- `std::string::find` of a character, from a position on; `none` is `npos`. Kind: D -/
def findFrom (text : Str) (b : UInt8) (pos : ℕ) : Option ℕ :=
  ((text.drop pos).findIdx? (· = b)).map (pos + ·)

/-- `std::string::substr`, `none` where it throws. Kind: D -/
def substr (text : Str) (pos count : ℕ) : Option Str :=
  if pos ≤ text.length then some ((text.drop pos).take count) else none

variable {text front back entry : Str} {b : UInt8} {pos stop : ℕ} {spec : FileSpec}

/-! ## Positions -/

/-- What `find` finds. Kind: L -/
theorem findFrom_eq_some (h : findFrom text b pos = some stop) :
    pos ≤ stop ∧ stop < text.length ∧ b ∉ (text.drop pos).take (stop - pos) ∧
      text.drop pos = (text.drop pos).take (stop - pos) ++ b :: text.drop (stop + 1) := by
  obtain ⟨i, hi, rfl⟩ := Option.map_eq_some_iff.mp h
  rw [List.findIdx?_eq_some_iff_getElem] at hi
  obtain ⟨hlt, hfound, hbefore⟩ := hi
  rw [decide_eq_true_eq] at hfound
  rw [List.length_drop] at hlt
  refine ⟨Nat.le_add_right _ _, by omega, ?_, ?_⟩
  · rw [Nat.add_sub_cancel_left]
    intro hmem
    obtain ⟨j, hj, hget⟩ := List.getElem_of_mem hmem
    rw [List.length_take] at hj
    rw [List.getElem_take] at hget
    exact hbefore j (by omega) (decide_eq_true hget)
  · rw [Nat.add_sub_cancel_left, ← hfound, Nat.add_assoc, ← List.drop_drop,
      ← List.drop_eq_getElem_cons, List.take_append_drop]

/-- What `find` does not find is not there. Kind: L -/
theorem findFrom_eq_none (h : findFrom text b pos = none) : b ∉ text.drop pos := by
  rw [findFrom, Option.map_eq_none_iff, List.findIdx?_eq_none_iff] at h
  intro hmem
  exact absurd (h b hmem) (by simp)

/-- The first occurrence behind a position. Kind: L -/
theorem findFrom_of_split (hnot : b ∉ front) (h : text.drop pos = front ++ b :: back) :
    findFrom text b pos = some (pos + front.length) := by
  rw [findFrom, h, Option.map_eq_some_iff]
  refine ⟨front.length, ?_, rfl⟩
  rw [List.findIdx?_append, List.findIdx?_eq_none_iff.mpr]
  · simp [List.findIdx?_cons]
  · intro c hc
    simp only [decide_eq_false_iff_not]
    rintro rfl
    exact hnot hc

/-! ## An entry -/

/-- One entry, split at its first two colons; the inner `none` is a refusal.
Source: `WebRTCClient.cpp`, `ParseFileSpecs`, from `entry.find(':')` on
Kind: D -/
def parseEntry (entry : Str) : Option (Option FileSpec) :=
  match findFrom entry colon 0 with
  | none => some none
  | some first =>
    match findFrom entry colon (first + 1) with
    | none => some none
    | some second => do
      let peer ← substr entry 0 first
      let room ← substr entry (first + 1) (second - first - 1)
      let path ← substr entry (second + 1) entry.length
      if peer = [] ∨ room = [] ∨ path = [] then some none else some (some ⟨peer, room, path⟩)

/-- The entry is the spec's fields with colons between them, none of them empty, and the first two
colons of the entry are these. Kind: D -/
structure Splits (entry : Str) (spec : FileSpec) : Prop where
  eq : entry = spec.peer ++ colon :: (spec.room ++ colon :: spec.path)
  peer : spec.peer ≠ [] ∧ colon ∉ spec.peer
  room : spec.room ≠ [] ∧ colon ∉ spec.room
  path : spec.path ≠ []

/-- What an entry comes to whose first two colons are known. Kind: L -/
theorem parseEntry_of_eq (spec : FileSpec) (hpeer : colon ∉ spec.peer) (hroom : colon ∉ spec.room)
    (h : entry = spec.peer ++ colon :: (spec.room ++ colon :: spec.path)) :
    parseEntry entry =
      some (if spec.peer = [] ∨ spec.room = [] ∨ spec.path = [] then none else some spec) := by
  have hdrop : entry.drop (spec.peer.length + 1) = spec.room ++ colon :: spec.path := by
    rw [h, ← List.drop_drop, List.drop_left]
    rfl
  have hzero : entry.drop 0 = spec.peer ++ colon :: (spec.room ++ colon :: spec.path) := h
  have hfirst : findFrom entry colon 0 = some spec.peer.length := by
    rw [findFrom_of_split hpeer hzero, Nat.zero_add]
  have hsecond := findFrom_of_split hroom hdrop
  have hlength : entry.length = spec.peer.length + 1 + (spec.room.length + 1 + spec.path.length) := by
    rw [h]
    simp only [List.length_append, List.length_cons]
    omega
  have htake : substr entry 0 spec.peer.length = some spec.peer := by
    rw [substr, if_pos (Nat.zero_le _), List.drop_zero, h, List.take_left]
  have hmiddle : substr entry (spec.peer.length + 1)
      (spec.peer.length + 1 + spec.room.length - spec.peer.length - 1) = some spec.room := by
    rw [substr, if_pos (by omega), hdrop,
      show spec.peer.length + 1 + spec.room.length - spec.peer.length - 1 = spec.room.length by omega,
      List.take_left]
  have hend : substr entry (spec.peer.length + 1 + spec.room.length + 1) entry.length =
      some spec.path := by
    have hpath : entry.drop (spec.peer.length + 1 + spec.room.length + 1) = spec.path := by
      rw [Nat.add_assoc, ← List.drop_drop, hdrop, ← List.drop_drop, List.drop_left]
      rfl
    rw [substr, if_pos (by omega), hpath, List.take_of_length_le (by omega)]
  simp only [parseEntry, hfirst, hsecond, htake, hmiddle, hend, Option.bind_eq_bind, Option.bind_some]
  split <;> rfl

/-- **When an entry is accepted**, and as what. Kind: P -/
theorem parseEntry_eq_some_iff : parseEntry entry = some (some spec) ↔ Splits entry spec := by
  constructor
  · intro h
    cases hfirst : findFrom entry colon 0 with
    | none => simp [parseEntry, hfirst] at h
    | some first =>
        cases hsecond : findFrom entry colon (first + 1) with
        | none => simp [parseEntry, hfirst, hsecond] at h
        | some second =>
            obtain ⟨-, -, hpeer, hentry⟩ := findFrom_eq_some hfirst
            obtain ⟨-, -, hroom, hrest⟩ := findFrom_eq_some hsecond
            rw [List.drop_zero, hrest] at hentry
            have hparsed := parseEntry_of_eq ⟨_, _, _⟩ hpeer hroom hentry
            rw [h, Option.some.injEq] at hparsed
            split at hparsed
            · exact (Option.some_ne_none _ hparsed).elim
            · rename_i hsome
              obtain ⟨hpeer', hroom', hpath'⟩ := by simpa only [not_or] using hsome
              obtain rfl := Option.some.inj hparsed
              exact ⟨hentry, ⟨hpeer', hpeer⟩, ⟨hroom', hroom⟩, hpath'⟩
  · rintro ⟨heq, ⟨hpeer, hpeer'⟩, ⟨hroom, hroom'⟩, hpath⟩
    rw [parseEntry_of_eq spec hpeer' hroom' heq, if_neg]
    simp only [hpeer, hroom, hpath, or_self, not_false_eq_true]

/-- No position is beyond the end of an entry. Kind: L -/
theorem parseEntry_ne_none (entry : Str) : parseEntry entry ≠ none := by
  cases hfirst : findFrom entry colon 0 with
  | none => simp [parseEntry, hfirst]
  | some first =>
      cases hsecond : findFrom entry colon (first + 1) with
      | none => simp [parseEntry, hfirst, hsecond]
      | some second =>
          obtain ⟨-, -, hpeer, hentry⟩ := findFrom_eq_some hfirst
          obtain ⟨-, -, hroom, hrest⟩ := findFrom_eq_some hsecond
          rw [List.drop_zero, hrest] at hentry
          rw [parseEntry_of_eq ⟨_, _, _⟩ hpeer hroom hentry]
          exact Option.some_ne_none _

/-! ## The two loops -/

/-- The end of the piece that starts at a position: the next comma, or the end of the text.
Source: `WebRTCClient.cpp`, `ParseFileSpecs` and `StartClient`, `end`
Kind: D -/
def pieceEnd (text : Str) (start : ℕ) : ℕ := (findFrom text comma start).getD text.length

/-- A piece does not end before it starts. Kind: L -/
theorem le_pieceEnd {start : ℕ} (h : start ≤ text.length) : start ≤ pieceEnd text start := by
  unfold pieceEnd
  cases hfind : findFrom text comma start with
  | none => exact h
  | some stop => exact (findFrom_eq_some hfind).1

/-- The loop from a position on, with what was appended: whether it accepts, and what was appended
in the end.
Source: `WebRTCClient.cpp`, `ParseFileSpecs`, `while (start <= text.size())`
Kind: D -/
def parseFileSpecsFrom (text : Str) (start : ℕ) (specs : List FileSpec) :
    Option (Bool × List FileSpec) :=
  if _h : start ≤ text.length then
    match substr text start (pieceEnd text start - start) with
    | none => none
    | some entry =>
      if entry = [] then parseFileSpecsFrom text (pieceEnd text start + 1) specs
      else
        match parseEntry entry with
        | none => none
        | some none => some (false, specs)
        | some (some spec) => parseFileSpecsFrom text (pieceEnd text start + 1) (specs ++ [spec])
  else some (true, specs)
termination_by text.length + 1 - start
decreasing_by
  all_goals
    have hle := le_pieceEnd _h
    omega

/-- Source: `WebRTCClient.cpp`, `ParseFileSpecs`. Kind: D -/
def parseFileSpecs (text : Str) (specs : List FileSpec) : Option (Bool × List FileSpec) :=
  parseFileSpecsFrom text 0 specs

/-- The loop from a position on, with what was appended.
Source: `WebRTCClient.cpp`, `StartClient`, `while (start <= paths.size())`
Kind: D -/
def splitPathsFrom (peerName roomName paths : Str) (start : ℕ) (specs : List FileSpec) :
    Option (List FileSpec) :=
  if _h : start ≤ paths.length then
    if start < pieceEnd paths start then
      match substr paths start (pieceEnd paths start - start) with
      | none => none
      | some path =>
        splitPathsFrom peerName roomName paths (pieceEnd paths start + 1)
          (specs ++ [⟨peerName, roomName, path⟩])
    else splitPathsFrom peerName roomName paths (pieceEnd paths start + 1) specs
  else some specs
termination_by paths.length + 1 - start
decreasing_by
  all_goals
    have hle := le_pieceEnd _h
    omega

/-- Source: `WebRTCClient.cpp`, `StartClient`, STEP 1 with `--peer`. Kind: D -/
def splitPaths (peerName roomName paths : Str) : Option (List FileSpec) :=
  splitPathsFrom peerName roomName paths 0 []

/-! ## Pieces -/

/-- The non-empty pieces of a text between its commas. Kind: D -/
def pieces (text : Str) : List Str := (text.splitOn comma).filter (· ≠ [])

/-- The pieces from a position on. Kind: D -/
def piecesFrom (text : Str) (start : ℕ) : List Str :=
  if start ≤ text.length then pieces (text.drop start) else []

/-- The piece at a position. Kind: L -/
theorem substr_piece {start : ℕ} (h : start ≤ text.length) :
    substr text start (pieceEnd text start - start) =
      some ((text.drop start).take (pieceEnd text start - start)) := if_pos h

/-- **A turn of either loop takes the first piece**, if it is not empty. Kind: P -/
theorem piecesFrom_step {start : ℕ} (h : start ≤ text.length) :
    piecesFrom text start =
      [(text.drop start).take (pieceEnd text start - start)].filter (· ≠ []) ++
        piecesFrom text (pieceEnd text start + 1) := by
  rw [piecesFrom, if_pos h]
  unfold pieceEnd pieces
  cases hfind : findFrom text comma start with
  | none =>
      have hwhole : (text.drop start).take (text.length - start) = text.drop start :=
        List.take_of_length_le (by rw [List.length_drop])
      rw [Option.getD_none, hwhole, List.splitOn_eq_singleton (findFrom_eq_none hfind), piecesFrom,
        if_neg (by omega), List.append_nil]
  | some stop =>
      obtain ⟨-, hlt, hnot, hsplit⟩ := findFrom_eq_some hfind
      rw [Option.getD_some, piecesFrom, if_pos (by omega), pieces, ← List.filter_append]
      conv_lhs => rw [hsplit, List.splitOn_append_cons_self_of_not_mem hnot]
      rfl

/-- Before the first turn. Kind: L -/
theorem piecesFrom_zero (text : Str) : piecesFrom text 0 = pieces text := if_pos (Nat.zero_le _)

/-- Behind the last turn. Kind: L -/
theorem piecesFrom_of_lt {start : ℕ} (h : ¬ start ≤ text.length) : piecesFrom text start = [] :=
  if_neg h

/-- A piece that ends where it starts is empty. Kind: L -/
theorem piece_eq_nil_iff {start : ℕ} (h : start ≤ text.length) :
    (text.drop start).take (pieceEnd text start - start) = [] ↔ ¬ start < pieceEnd text start := by
  have hle : pieceEnd text start ≤ text.length := by
    unfold pieceEnd
    cases hfind : findFrom text comma start with
    | none => exact Nat.le_refl _
    | some stop => exact Nat.le_of_lt (findFrom_eq_some hfind).2.1
  rw [← List.length_eq_zero_iff, List.length_take, List.length_drop]
  omega

/-- The piece at a position is not empty. Kind: L -/
theorem piecesFrom_of_ne_nil {start : ℕ} (h : start ≤ text.length)
    (hpiece : substr text start (pieceEnd text start - start) = some entry) (hne : entry ≠ []) :
    piecesFrom text start = entry :: piecesFrom text (pieceEnd text start + 1) := by
  rw [substr_piece h, Option.some.injEq] at hpiece
  have hkept : [entry].filter (· ≠ []) = [entry] := by simp [hne]
  rw [piecesFrom_step h, hpiece, hkept]
  rfl

/-- The piece at a position is empty. Kind: L -/
theorem piecesFrom_of_eq_nil {start : ℕ} (h : start ≤ text.length)
    (hempty : ¬ start < pieceEnd text start) :
    piecesFrom text start = piecesFrom text (pieceEnd text start + 1) := by
  rw [piecesFrom_step h, (piece_eq_nil_iff h).mpr hempty]
  rfl

/-- **The splitter yields the pieces**, in order. Kind: P -/
theorem splitPathsFrom_eq (peerName roomName paths : Str) (start : ℕ) (specs : List FileSpec) :
    splitPathsFrom peerName roomName paths start specs =
      some (specs ++ (piecesFrom paths start).map fun path => ⟨peerName, roomName, path⟩) := by
  induction start, specs using splitPathsFrom.induct peerName roomName paths with
  | case1 start specs hle hlt hnone =>
      rw [substr_piece hle] at hnone
      exact (Option.some_ne_none _ hnone).elim
  | case2 start specs hle hlt path hpath ih =>
      have hne : path ≠ [] := by
        rw [substr_piece hle, Option.some.injEq] at hpath
        rw [← hpath, ne_eq, piece_eq_nil_iff hle, not_not]
        exact hlt
      rw [splitPathsFrom, dif_pos hle, if_pos hlt, hpath]
      simp only
      rw [ih, piecesFrom_of_ne_nil hle hpath hne, List.map_cons, List.append_assoc]
      rfl
  | case3 start specs hle hempty ih =>
      rw [splitPathsFrom, dif_pos hle, if_neg hempty, ih, piecesFrom_of_eq_nil hle hempty]
  | case4 start specs hend =>
      rw [splitPathsFrom, dif_neg hend, piecesFrom_of_lt hend, List.map_nil, List.append_nil]

/-- What comes of some pieces, with what was appended before: they are accepted when each of them
splits, and then what they split into is appended, in order. Kind: D -/
def Parsed (pieces : List Str) (specs : List FileSpec) (result : Option (Bool × List FileSpec)) :
    Prop :=
  ∃ ok out, result = some (ok, out) ∧
    (ok = true ↔ ∀ piece ∈ pieces, ∃ spec, Splits piece spec) ∧
    (ok = true → ∃ added, out = specs ++ added ∧ List.Forall₂ Splits pieces added)

/-- A piece that splits. Kind: L -/
theorem Parsed.cons {pieces : List Str} {specs : List FileSpec}
    {result : Option (Bool × List FileSpec)} (hsplits : Splits entry spec)
    (h : Parsed pieces (specs ++ [spec]) result) : Parsed (entry :: pieces) specs result := by
  obtain ⟨ok, out, hresult, hiff, hadded⟩ := h
  refine ⟨ok, out, hresult, ?_, fun hok => ?_⟩
  · rw [hiff, List.forall_mem_cons]
    exact ⟨fun hall => ⟨⟨spec, hsplits⟩, hall⟩, fun hall => hall.2⟩
  · obtain ⟨added, hout, hforall⟩ := hadded hok
    refine ⟨spec :: added, ?_, .cons hsplits hforall⟩
    rw [hout, List.append_assoc]
    rfl

/-- **The loop accepts when every piece splits**, and appends what they split into. Kind: P -/
theorem parsed_from (text : Str) (start : ℕ) (specs : List FileSpec) :
    Parsed (piecesFrom text start) specs (parseFileSpecsFrom text start specs) := by
  induction start, specs using parseFileSpecsFrom.induct text with
  | case1 start specs hle hnone =>
      rw [substr_piece hle] at hnone
      exact (Option.some_ne_none _ hnone).elim
  | case2 start specs hle hentry ih =>
      have hempty : ¬ start < pieceEnd text start := by
        rw [substr_piece hle, Option.some.injEq] at hentry
        exact (piece_eq_nil_iff hle).mp hentry
      rw [parseFileSpecsFrom, dif_pos hle, hentry, piecesFrom_of_eq_nil hle hempty]
      exact ih
  | case3 start specs hle entry hentry hne hnone => exact (parseEntry_ne_none entry hnone).elim
  | case4 start specs hle entry hentry hne hrefused =>
      rw [parseFileSpecsFrom, dif_pos hle, hentry, piecesFrom_of_ne_nil hle hentry hne]
      simp only [if_neg hne, hrefused]
      refine ⟨false, specs, rfl, ⟨nofun, fun hall => ?_⟩, nofun⟩
      obtain ⟨spec, hsplits⟩ := hall entry (List.mem_cons_self ..)
      rw [parseEntry_eq_some_iff.mpr hsplits] at hrefused
      exact (Option.some_ne_none _ (Option.some.inj hrefused)).elim
  | case5 start specs hle entry hentry hne spec hspec ih =>
      rw [parseFileSpecsFrom, dif_pos hle, hentry, piecesFrom_of_ne_nil hle hentry hne]
      simp only [if_neg hne, hspec]
      exact ih.cons (parseEntry_eq_some_iff.mp hspec)
  | case6 start specs hend =>
      rw [parseFileSpecsFrom, dif_neg hend, piecesFrom_of_lt hend]
      refine ⟨true, specs, rfl, ⟨fun _ piece hpiece => ?_, fun _ => rfl⟩, fun _ => ?_⟩
      · exact absurd hpiece List.not_mem_nil
      · exact ⟨[], (List.append_nil _).symm, .nil⟩

/-! ## Printing -/

/-- A spec as an entry. Kind: D -/
def printSpec (spec : FileSpec) : Str :=
  spec.peer ++ colon :: (spec.room ++ colon :: spec.path)

/-- The entries of some specs, with commas between them. Kind: D -/
def printSpecs (specs : List FileSpec) : Str := [comma].intercalate (specs.map printSpec)

/-- A spec that an entry can hold: no comma in it, and colons in the path only. Kind: D -/
structure FileSpec.Printable (spec : FileSpec) : Prop where
  peer : spec.peer ≠ [] ∧ comma ∉ spec.peer ∧ colon ∉ spec.peer
  room : spec.room ≠ [] ∧ comma ∉ spec.room ∧ colon ∉ spec.room
  path : spec.path ≠ [] ∧ comma ∉ spec.path

/-- A printed spec splits into itself. Kind: L -/
theorem FileSpec.Printable.splits (h : spec.Printable) : Splits (printSpec spec) spec :=
  ⟨rfl, ⟨h.peer.1, h.peer.2.2⟩, ⟨h.room.1, h.room.2.2⟩, h.path.1⟩

/-- No entry splits into two specs. Kind: L -/
theorem Splits.unique {spec' : FileSpec} (h : Splits entry spec) (h' : Splits entry spec') :
    spec = spec' := by
  have hparsed := parseEntry_eq_some_iff.mpr h
  rw [parseEntry_eq_some_iff.mpr h', Option.some.injEq, Option.some.injEq] at hparsed
  exact hparsed.symm

/-- The pieces of a printed list are its printed specs. Kind: L -/
theorem pieces_printSpecs {specs : List FileSpec} (h : ∀ spec ∈ specs, spec.Printable) :
    pieces (printSpecs specs) = specs.map printSpec := by
  rcases List.eq_nil_or_concat specs with rfl | ⟨front, last, rfl⟩
  · rfl
  · have hne : (front.concat last).map printSpec ≠ [] := by simp
    rw [pieces, printSpecs, List.splitOn_intercalate comma _ hne, List.filter_eq_self]
    · intro piece hpiece
      obtain ⟨spec, -, rfl⟩ := List.mem_map.mp hpiece
      simp [printSpec]
    · intro piece hpiece
      obtain ⟨spec, hspec, rfl⟩ := List.mem_map.mp hpiece
      obtain ⟨⟨-, hpeer, -⟩, ⟨-, hroom, -⟩, -, hpath⟩ := h spec hspec
      have hcolon : comma ≠ colon := by decide
      simp [printSpec, hpeer, hroom, hpath, hcolon]

/-- **The file list is parsed exactly**: what is accepted, and what is appended; printed specs are
read back; and the splitter yields the pieces. Kind: P -/
theorem parsed_exactly :
    (∀ text specs, Parsed (pieces text) specs (parseFileSpecs text specs)) ∧
      (∀ specs, (∀ spec ∈ specs, spec.Printable) →
        parseFileSpecs (printSpecs specs) [] = some (true, specs)) ∧
      ∀ peerName roomName paths, splitPaths peerName roomName paths =
        some ((pieces paths).map fun path => ⟨peerName, roomName, path⟩) := by
  have hparsed : ∀ text specs, Parsed (pieces text) specs (parseFileSpecs text specs) := by
    intro text specs
    rw [← piecesFrom_zero]
    exact parsed_from text 0 specs
  refine ⟨hparsed, fun specs hspecs => ?_, fun peerName roomName paths => ?_⟩
  · obtain ⟨ok, out, hresult, hiff, hadded⟩ := hparsed (printSpecs specs) []
    rw [pieces_printSpecs hspecs] at hiff hadded
    have hok : ok = true := by
      refine hiff.mpr fun piece hpiece => ?_
      obtain ⟨spec, hspec, rfl⟩ := List.mem_map.mp hpiece
      exact ⟨spec, (hspecs spec hspec).splits⟩
    obtain ⟨added, hout, hforall⟩ := hadded hok
    rw [List.forall₂_map_left_iff] at hforall
    have hsame : specs = added := by
      rw [← List.forall₂_eq_eq_eq]
      refine (List.forall₂_iff_zip.mpr ⟨hforall.length_eq, fun hmem => ?_⟩)
      have hsplits := List.forall₂_iff_zip.mp hforall |>.2 hmem
      exact (hspecs _ (List.of_mem_zip hmem).1).splits.unique hsplits
    rw [hresult, hok, hout, hsame, List.nil_append]
  · rw [splitPaths, splitPathsFrom_eq, piecesFrom_zero, List.nil_append]

/-- Two files for two peers, one of them with a colon in its path. Kind: P -/
theorem parsed_exactly_two :
    parseFileSpecs (printSpecs [⟨str "ann", str "den", str "a.txt"⟩, ⟨str "bob", str "hall", str "c:d"⟩])
      [] = some (true, [⟨str "ann", str "den", str "a.txt"⟩, ⟨str "bob", str "hall", str "c:d"⟩]) := by
  refine parsed_exactly.2.1 _ fun spec hspec => ?_
  rcases List.mem_cons.mp hspec with rfl | hspec
  · exact ⟨by decide, by decide, by decide⟩
  · obtain rfl := List.mem_singleton.mp hspec
    exact ⟨by decide, by decide, by decide⟩

end CloudNode
