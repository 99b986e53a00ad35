import CloudNode.Wire.Strings

/-!
# JSON objects written by concatenation

A program that puts a JSON object together from literals and strings fills in a form: a `Form` says
what is written for each member, white space included. A member's value is a string that the program
chooses (`word`), a string that it was given (`name`), a text that another function wrote (`raw`),
or an object again. Nothing is escaped.

Which names survive does not depend on the form. A name that is plain is read as it was written, so
that a reader meets the rest of the form where it expects it. A name that is not plain may still
leave a text that is read as some object, but never one with that name in its place: `Calm` holds
behind every name, because white space, a comma and the next member's quotation mark follow it.

* `Form.members_text` — with plain names, the text is read as the object that was meant.
* `Form.plain_of_members` — if every name is found in its place, all are plain.
* `Form.parse_of_tame`, `Form.tame_of_parse` — both, for a whole text, and with UTF-8.
-/

namespace CloudNode

namespace Json

/-! ## Forms -/

/-- What is written in front of a value: white space, the member's name, and what is between its
closing quotation mark and the value. Kind: D -/
structure Head where
  before : Str
  key : Str
  colon : Str

/-- The text of a head. Kind: D -/
def Head.text (h : Head) : Str := h.before ++ quote :: (h.key ++ quote :: h.colon)

mutual

/-- A member's value, as it is written. Kind: D -/
inductive Entry where
  | word (s : Str)
  | name (s : Str)
  | raw (t : Str) (v : Json)
  | form (f : Form)

/-- The members of an object, each with the white space behind its value. Kind: D -/
inductive Form where
  | last (h : Head) (e : Entry) (after : Str)
  | cons (h : Head) (e : Entry) (after : Str) (rest : Form)

end

mutual

/-- The text of a value. Kind: D -/
def Entry.text : Entry → Str
  | .word s => quote :: (s ++ [quote])
  | .name s => quote :: (s ++ [quote])
  | .raw t _ => t
  | .form f => 0x7B :: f.text

/-- The text of an object behind its brace. Kind: D -/
def Form.text : Form → Str
  | .last h e after => h.text ++ (e.text ++ (after ++ [0x7D]))
  | .cons h e after rest => h.text ++ (e.text ++ (after ++ 0x2C :: rest.text))

end

mutual

/-- The value that is meant. Kind: D -/
def Entry.json : Entry → Json
  | .word s => .str s
  | .name s => .str s
  | .raw _ v => v
  | .form f => .obj f.json

/-- The members that are meant. Kind: D -/
def Form.json : Form → List (Str × Json)
  | .last h e _ => [(h.key, e.json)]
  | .cons h e _ rest => (h.key, e.json) :: rest.json

end

mutual

/-- The strings that a value was given. Kind: D -/
def Entry.names : Entry → List Str
  | .word _ => []
  | .name s => [s]
  | .raw _ _ => []
  | .form f => f.names

/-- The strings that a form was filled in with. Kind: D -/
def Form.names : Form → List Str
  | .last _ e _ => e.names
  | .cons _ e _ rest => e.names ++ rest.names

end

mutual

/-- The names of a value are found in what was read in its place. Kind: D -/
def Entry.Back : Entry → Option Json → Prop
  | .word _, _ => True
  | .name s, v => v = some (.str s)
  | .raw _ _, _ => True
  | .form f, v => ∃ ms, v = some (.obj ms) ∧ f.Back ms

/-- The names of a form are found in their places, by a lookup of the members' names. Kind: D -/
def Form.Back : Form → List (Str × Json) → Prop
  | .last h e _, ms => e.Back (find? ms h.key)
  | .cons h e _ rest, ms => e.Back (find? ms h.key) ∧ rest.Back ms

end

/-- The members' names. Kind: D -/
def Form.keys : Form → List Str
  | .last h _ _ => [h.key]
  | .cons h _ _ rest => h.key :: rest.keys

/-! ## Forms that are written well -/

/-- There is only white space. Kind: D -/
def white (t : Str) : Bool := t.all isSpace

/-- A value may end in front of the text. Kind: D -/
def ends : Str → Bool
  | [] => true
  | c :: _ => isSpace c || c = 0x2C || c = 0x7D || c = 0x5D

/-- The text is read as the value. Kind: D -/
def ReadsAs (t : Str) (v : Json) : Prop :=
  ∀ n T, t.length < n → ends T = true → value n (skip (t ++ T)) = some (v, T)

/-- A head whose name is a plain one, with one colon and white space. Kind: D -/
structure Head.Neat (h : Head) : Prop where
  before : white h.before = true
  key : plain h.key = true
  ascii_key : ascii h.key = true
  colon : (skip h.colon).head? = some 0x3A
  space : white (skip h.colon).tail = true

instance (h : Head) : Decidable h.Neat :=
  decidable_of_iff (white h.before = true ∧ plain h.key = true ∧ ascii h.key = true ∧
    (skip h.colon).head? = some 0x3A ∧ white (skip h.colon).tail = true)
    ⟨fun ⟨before, key, ascii_key, colon, space⟩ => ⟨before, key, ascii_key, colon, space⟩,
      fun h => ⟨h.before, h.key, h.ascii_key, h.colon, h.space⟩⟩

mutual

/-- Whatever is not a name is written well. Kind: D -/
def Entry.Neat : Entry → Prop
  | .word s => plain s = true ∧ ascii s = true
  | .name _ => True
  | .raw t v => ascii t = true ∧ ReadsAs t v
  | .form f => f.Neat

/-- Whatever is not a name is written well, and no two members have one name. Kind: D -/
def Form.Neat : Form → Prop
  | .last h e after => h.Neat ∧ e.Neat ∧ white after = true
  | .cons h e after rest =>
    h.Neat ∧ e.Neat ∧ white after = true ∧ h.key ∉ rest.keys ∧ rest.Neat

end

/-- What a form consists of besides its members' values. Kind: D -/
def Form.literals : Form → List (Head × Str)
  | .last h _ after => [(h, after)]
  | .cons h _ after rest => (h, after) :: rest.literals

/-- The members' values. Kind: D -/
def Form.entries : Form → List Entry
  | .last _ e _ => [e]
  | .cons _ e _ rest => e :: rest.entries

/-- A form is written well if its literals are, and its members' values. Kind: L -/
theorem Form.neat_of_entries {f : Form}
    (hliterals : ∀ p ∈ f.literals, p.1.Neat ∧ white p.2 = true) (hkeys : f.keys.Nodup)
    (hentries : ∀ e ∈ f.entries, e.Neat) : f.Neat := by
  match f with
  | .last h e after =>
    obtain ⟨hh, hafter⟩ := hliterals (h, after) (by simp [Form.literals])
    exact ⟨hh, hentries e (by simp [Form.entries]), hafter⟩
  | .cons h e after rest =>
    obtain ⟨hh, hafter⟩ := hliterals (h, after) (by simp [Form.literals])
    obtain ⟨hkey, hkeys⟩ := List.nodup_cons.mp hkeys
    refine ⟨hh, hentries e (by simp [Form.entries]), hafter, hkey, ?_⟩
    apply Form.neat_of_entries _ hkeys
    · exact fun e' he' => hentries e' (List.mem_cons_of_mem _ he')
    · exact fun p hp => hliterals p (List.mem_cons_of_mem _ hp)

/-! ## White space -/

/-- White space in front of a text does not matter. Kind: L -/
theorem skip_white_append {w : Str} (hw : white w = true) (t : Str) : skip (w ++ t) = skip t := by
  induction w with
  | nil => rfl
  | cons c w ih =>
      simp only [white, List.all_cons, Bool.and_eq_true] at hw
      rw [List.cons_append, skip, List.dropWhile_cons, if_pos hw.1]
      exact ih hw.2

/-- A text that starts with no white space. Kind: L -/
theorem skip_cons {c : UInt8} (hc : isSpace c = false) (t : Str) : skip (c :: t) = c :: t := by
  rw [skip, List.dropWhile_cons, if_neg (by simp [hc])]

/-- A quotation mark is no white space. Kind: L -/
theorem skip_quote (t : Str) : skip (quote :: t) = quote :: t := skip_cons (by decide) t

/-- Neither is a brace. Kind: L -/
theorem skip_brace (t : Str) : skip (0x7B :: t) = 0x7B :: t := skip_cons (by decide) t

/-- The white space is gone after one `skip`. Kind: L -/
theorem skip_skip (t : Str) : skip (skip t) = skip t := by
  induction t with
  | nil => rfl
  | cons c t ih =>
      by_cases hc : isSpace c = true
      · have hskip : skip (c :: t) = skip t := by rw [skip, List.dropWhile_cons, if_pos hc]; rfl
        rw [hskip, ih]
      · have hskip := skip_cons (by simpa using hc) t
        rw [hskip, hskip]

/-- White space, then something else. Kind: L -/
theorem skip_white_cons {w : Str} (hw : white w = true) {c : UInt8} (hc : isSpace c = false)
    (t : Str) : skip (w ++ c :: t) = c :: t := by
  rw [skip_white_append hw, skip_cons hc]

/-- Behind a head comes its value. Kind: L -/
theorem Head.Neat.skip_colon {h : Head} (hh : h.Neat) (t : Str) :
    ∃ w, white w = true ∧ skip (h.colon ++ t) = 0x3A :: (w ++ t) := by
  refine ⟨(skip h.colon).tail, hh.space, ?_⟩
  have hskip : skip h.colon = 0x3A :: (skip h.colon).tail :=
    (List.cons_head?_tail hh.colon).symm
  have hne : (skip h.colon).isEmpty = false := by rw [hskip]; rfl
  rw [skip, List.dropWhile_append]
  simp only [skip] at hne
  rw [if_neg (by simp [hne])]
  exact congrArg (· ++ t) hskip

/-- White space is ASCII. Kind: L -/
theorem ascii_of_white {w : Str} (hw : white w = true) : ascii w = true := by
  rw [white, List.all_eq_true] at hw
  rw [ascii, List.all_eq_true]
  intro c hc
  have hspace := hw c hc
  simp only [isSpace, Bool.or_eq_true, decide_eq_true_eq] at hspace
  rcases hspace with ((rfl | rfl) | rfl) | rfl <;> decide

/-- White space in a string is plain, or ends the reading. Kind: L -/
theorem plain_or_not_of_white {w : Str} (hw : white w = true) (t : Str) :
    plain w = true ∨ string 0 (w ++ t) = none := by
  induction w with
  | nil => exact .inl rfl
  | cons c w ih =>
      simp only [white, List.all_cons, Bool.and_eq_true] at hw
      by_cases hc : c = 0x20
      · subst hc
        have hplain : isPlain 0x20 = true := by decide
        rcases ih hw.2 with hw | hnone
        · left
          rw [plain, List.all_cons, hplain]
          exact hw
        · right
          rw [List.cons_append, string_cons hplain, hnone]
          rfl
      · right
        have hspace := hw.1
        simp only [isSpace, Bool.or_eq_true, decide_eq_true_eq] at hspace
        rcases hspace with ((rfl | rfl) | rfl) | rfl
        · exact absurd rfl hc
        all_goals rfl

/-! ## What stands behind a name -/

/-- Plain characters in front. Kind: L -/
theorem Calm.plain_append {p t : Str} (hp : plain p = true) (h : Calm t) : Calm (p ++ t) := by
  intro out r hout
  rw [string_plain_append hp] at hout
  obtain ⟨⟨out', r'⟩, hout', heq⟩ := Option.map_eq_some_iff.mp hout
  obtain ⟨rfl, rfl⟩ := Prod.mk.inj heq
  intro hmem
  rcases List.mem_append.mp hmem with hmem | hmem
  · exact absurd (List.all_eq_true.mp hp _ hmem) (by decide)
  · exact h out' r' hout' hmem

/-- White space in front. Kind: L -/
theorem Calm.white_append {w t : Str} (hw : white w = true) (h : Calm t) : Calm (w ++ t) := by
  rcases plain_or_not_of_white hw t with hplain | hnone
  · exact h.plain_append hplain
  · intro out r hout
    rw [hnone] at hout
    exact absurd hout (by simp)

/-- A quotation mark. Kind: L -/
theorem calm_quote (t : Str) : Calm (quote :: t) := by
  intro out r h
  rw [string, if_pos rfl] at h
  obtain ⟨rfl, -⟩ := Prod.mk.inj (Option.some.inj h)
  simp

/-- The end of the text. Kind: L -/
theorem calm_nil : Calm [] := by
  intro out r h
  simp [string] at h

/-- Behind a last member. Kind: L -/
theorem calm_last {after T : Str} (hafter : white after = true) (hT : Calm T) :
    Calm (after ++ 0x7D :: T) :=
  .white_append hafter (hT.plain_append (p := [0x7D]) (by decide))

/-- Behind another member's value. Kind: L -/
theorem calm_cons {after : Str} (hafter : white after = true) {rest : Form} (hrest : rest.Neat)
    (T : Str) : Calm (after ++ 0x2C :: (rest.text ++ T)) := by
  have hhead : ∀ {h : Head}, h.Neat → ∀ X, Calm (0x2C :: ((h.text ++ X) ++ T)) := by
    intro h hh X
    simp only [Head.text, List.append_assoc, List.cons_append]
    exact ((calm_quote _).white_append hh.before).plain_append (p := [0x2C]) (by decide)
  apply Calm.white_append hafter
  cases rest with
  | last h e after' => exact hhead hrest.1 _
  | cons h e after' rest => exact hhead hrest.1 _

/-! ## Reading members -/

/-- The rest of an object, behind a value. Kind: D -/
def more (n : ℕ) (t : Str) : Option (List (Str × Json) × Str) :=
  match skip t with
  | [] => none
  | c :: t => if c = 0x2C then members n t else if c = 0x7D then some ([], t) else none

/-- A member is its name, its value, and then the others. Kind: L -/
theorem members_head {h : Head} (hh : h.Neat) (n : ℕ) (X : Str) :
    members (n + 1) (h.text ++ X) = match value n (skip X) with
      | none => none
      | some (v, t) => (more n t).map fun out => ((h.key, v) :: out.1, out.2) := by
  obtain ⟨w, hw, hcolon⟩ := hh.skip_colon X
  have hbefore : skip (h.text ++ X) = quote :: (h.key ++ quote :: (h.colon ++ X)) := by
    simp only [Head.text, List.append_assoc, List.cons_append]
    exact skip_white_cons hh.before (by decide) _
  rw [members, hbefore]
  simp only [if_true, string_of_plain hh.key, hcolon, skip_white_append hw]
  cases value n (skip X) with
  | none => rfl
  | some out =>
      obtain ⟨v, t⟩ := out
      simp only [more]
      cases skip t with
      | nil => rfl
      | cons c t =>
          simp only
          by_cases hcomma : c = 0x2C
          · rw [if_pos hcomma, if_pos hcomma]
          · rw [if_neg hcomma, if_neg hcomma]
            by_cases hbrace : c = 0x7D
            · rw [if_pos hbrace, if_pos hbrace]
              rfl
            · rw [if_neg hbrace, if_neg hbrace]
              rfl

/-- The brace. Kind: L -/
theorem more_last {after : Str} (hafter : white after = true) (n : ℕ) (T : Str) :
    more n (after ++ 0x7D :: T) = some ([], T) := by
  have hne : (0x7D : UInt8) ≠ 0x2C := by decide
  simp only [more, skip_white_cons hafter (show isSpace 0x7D = false by decide), if_neg hne, if_true]

/-- The comma. Kind: L -/
theorem more_cons {after : Str} (hafter : white after = true) (n : ℕ) (X : Str) :
    more n (after ++ 0x2C :: X) = members n X := by
  simp only [more, skip_white_cons hafter (show isSpace 0x2C = false by decide), if_true]

/-- A form starts with a quotation mark. Kind: L -/
theorem Form.Neat.skip_text {f : Form} (hf : f.Neat) (T : Str) :
    ∃ t, skip (f.text ++ T) = quote :: t := by
  have hhead : ∀ {h : Head}, h.Neat → ∀ X, ∃ t, skip ((h.text ++ X) ++ T) = quote :: t := by
    intro h hh X
    simp only [Head.text, List.append_assoc, List.cons_append]
    exact ⟨_, skip_white_cons hh.before (by decide) _⟩
  cases f with
  | last h e after => exact hhead hf.1 _
  | cons h e after rest => exact hhead hf.1 _

/-- White space in front of members. Kind: L -/
theorem members_skip (n : ℕ) (t : Str) : members n (skip t) = members n t := by
  cases n with
  | zero => rw [members, members]
  | succ n => rw [members, members, skip_skip]

/-- An object is its members. Kind: L -/
theorem value_form {f : Form} (hf : f.Neat) (n : ℕ) (T : Str) :
    value (n + 1) (0x7B :: (f.text ++ T)) =
      (members n (f.text ++ T)).map fun out => (obj out.1, out.2) := by
  obtain ⟨t, ht⟩ := hf.skip_text T
  have hne : quote ≠ 0x7D := by decide
  rw [value, if_pos rfl, ht]
  simp only [if_neg hne]
  rw [← ht, members_skip]

/-- A string in quotes. Kind: L -/
theorem value_quote (n : ℕ) (t : Str) :
    value (n + 1) (quote :: t) = (string 0 t).map fun out => (.str out.1, out.2) := by
  have hbrace : quote ≠ 0x7B := by decide
  have hbracket : quote ≠ 0x5B := by decide
  rw [value, if_neg hbrace, if_neg hbracket, if_pos rfl]

/-- A plain string in quotes. Kind: L -/
theorem value_of_plain {s : Str} (hs : plain s = true) (n : ℕ) (T : Str) :
    value (n + 1) (skip ((quote :: (s ++ [quote])) ++ T)) = some (.str s, T) := by
  have htext : (quote :: (s ++ [quote])) ++ T = quote :: (s ++ quote :: T) := by simp
  rw [htext, skip_quote, value_quote, string_of_plain hs]
  rfl

/-! ## With plain names, a form is read as it is meant -/

/-- A value ends at white space, a comma or a brace. Kind: L -/
theorem ends_white_cons {after : Str} (hafter : white after = true) {c : UInt8} {T : Str}
    (hc : ends (c :: T) = true) : ends (after ++ c :: T) = true := by
  cases after with
  | nil => exact hc
  | cons b after =>
      simp only [white, List.all_cons, Bool.and_eq_true] at hafter
      simp [ends, hafter.1]

mutual

/-- **With plain names, a value is read as it is meant.** Kind: P -/
theorem Entry.value_text {e : Entry} (he : e.Neat) (hplain : ∀ s ∈ e.names, plain s = true) {n : ℕ}
    (hn : e.text.length < n) {T : Str} (hT : ends T = true) :
    value n (skip (e.text ++ T)) = some (e.json, T) := by
  obtain ⟨n, rfl⟩ : ∃ m, n = m + 1 := ⟨n - 1, by omega⟩
  match e with
  | .word s => exact value_of_plain he.1 n T
  | .name s => exact value_of_plain (hplain s (by simp [Entry.names])) n T
  | .raw t v => exact he.2 (n + 1) T hn hT
  | .form f =>
    have hlength : f.text.length < n := by simpa [Entry.text] using hn
    rw [Entry.text, List.cons_append, skip_brace, value_form he,
      Form.members_text he hplain hlength T]
    rfl

/-- **With plain names, the members of a form are read as they are meant.** Kind: P -/
theorem Form.members_text {f : Form} (hf : f.Neat) (hplain : ∀ s ∈ f.names, plain s = true) {n : ℕ}
    (hn : f.text.length < n) (T : Str) : members n (f.text ++ T) = some (f.json, T) := by
  obtain ⟨n, rfl⟩ : ∃ m, n = m + 1 := ⟨n - 1, by omega⟩
  match f with
  | .last h e after =>
    obtain ⟨hh, he, hafter⟩ := hf
    have hlength : e.text.length < n := by
      simp only [Form.text, List.length_append, List.length_cons] at hn
      omega
    have hends : ends (after ++ 0x7D :: T) = true := ends_white_cons hafter (by rfl)
    rw [Form.text, List.append_assoc, members_head hh, List.append_assoc, List.append_assoc,
      List.singleton_append, Entry.value_text he hplain hlength hends]
    simp only [more_last hafter, Option.map_some]
    rfl
  | .cons h e after rest =>
    obtain ⟨hh, he, hafter, -, hrest⟩ := hf
    have hlength : e.text.length < n ∧ rest.text.length < n := by
      simp only [Form.text, List.length_append, List.length_cons] at hn
      omega
    have hends : ends (after ++ 0x2C :: (rest.text ++ T)) = true := ends_white_cons hafter (by rfl)
    have hplain' : (∀ s ∈ e.names, plain s = true) ∧ ∀ s ∈ rest.names, plain s = true :=
      ⟨fun s hs => hplain s (List.mem_append_left _ hs),
        fun s hs => hplain s (List.mem_append_right _ hs)⟩
    rw [Form.text, List.append_assoc, members_head hh, List.append_assoc, List.append_assoc,
      List.cons_append, Entry.value_text he hplain'.1 hlength.1 hends]
    simp only [more_cons hafter, Form.members_text hrest hplain'.2 hlength.2 T, Option.map_some]
    rfl

end

/-! ## If the names are found, they were plain -/

/-- A name that is read as itself. Kind: L -/
theorem plain_of_value {s : Str} {n : ℕ} {T r : Str} (hT : Calm T)
    (h : value (n + 1) (skip ((quote :: (s ++ [quote])) ++ T)) = some (.str s, r)) :
    plain s = true := by
  have htext : (quote :: (s ++ [quote])) ++ T = quote :: (s ++ quote :: T) := by simp
  rw [htext, skip_quote, value_quote] at h
  obtain ⟨⟨out, r'⟩, hout, heq⟩ := Option.map_eq_some_iff.mp h
  obtain ⟨hstr, -⟩ := Prod.mk.inj heq
  obtain rfl : out = s := Json.str.inj hstr
  exact plain_of_string hT hout

/-- The members of a form that are read are that of the head, and others. Kind: L -/
theorem of_members_head {h : Head} (hh : h.Neat) {n : ℕ} {X r : Str} {ms : List (Str × Json)}
    (hm : members (n + 1) (h.text ++ X) = some (ms, r)) : ∃ v t ms',
      value n (skip X) = some (v, t) ∧ more n t = some (ms', r) ∧ ms = (h.key, v) :: ms' := by
  rw [members_head hh] at hm
  cases hvalue : value n (skip X) with
  | none => simp [hvalue] at hm
  | some out =>
      obtain ⟨v, t⟩ := out
      simp only [hvalue] at hm
      obtain ⟨⟨ms', r'⟩, hmore, heq⟩ := Option.map_eq_some_iff.mp hm
      obtain ⟨rfl, rfl⟩ := Prod.mk.inj heq
      exact ⟨v, t, ms', rfl, hmore, rfl⟩

/-- One more member of another name in front. Kind: L -/
theorem Form.back_cons {f : Form} {k : Str} (hk : k ∉ f.keys) (v : Json) (ms : List (Str × Json)) :
    f.Back ((k, v) :: ms) ↔ f.Back ms := by
  match f with
  | .last h e _ =>
    have hne : k ≠ h.key := by simpa [Form.keys] using hk
    simp only [Form.Back, find?, if_neg hne]
  | .cons h e _ rest =>
    obtain ⟨hne, hrest⟩ : k ≠ h.key ∧ k ∉ rest.keys := by simpa [Form.keys] using hk
    simp only [Form.Back, find?, if_neg hne, Form.back_cons hrest]

mutual

/-- **If the names of a value are found, they were plain.** Kind: P -/
theorem Entry.plain_of_value {e : Entry} (he : e.Neat) {n : ℕ} (hn : e.text.length < n) {T : Str}
    (hcalm : Calm T) {v : Json} {r : Str} (hv : value n (skip (e.text ++ T)) = some (v, r))
    (hback : e.Back (some v)) : ∀ s ∈ e.names, plain s = true := by
  obtain ⟨n, rfl⟩ : ∃ m, n = m + 1 := ⟨n - 1, by omega⟩
  match e with
  | .word _ => simp [Entry.names]
  | .raw _ _ => simp [Entry.names]
  | .name s =>
    obtain rfl : v = .str s := Option.some.inj hback
    intro s' hs'
    obtain rfl := List.mem_singleton.mp hs'
    exact Json.plain_of_value hcalm hv
  | .form f =>
    obtain ⟨ms, hms, hback⟩ := hback
    have hlength : f.text.length < n := by simpa [Entry.text] using hn
    rw [Entry.text, List.cons_append, skip_brace, value_form he] at hv
    obtain ⟨⟨ms', r'⟩, hm, heq⟩ := Option.map_eq_some_iff.mp hv
    obtain ⟨rfl, rfl⟩ := Prod.mk.inj heq
    obtain rfl := Json.obj.inj (Option.some.inj hms)
    exact Form.plain_of_members he hlength hcalm hm hback

/-- **If the names of a form are found, they were plain.** Kind: P -/
theorem Form.plain_of_members {f : Form} (hf : f.Neat) {n : ℕ} (hn : f.text.length < n) {T : Str}
    (hcalm : Calm T) {ms : List (Str × Json)} {r : Str} (hm : members n (f.text ++ T) = some (ms, r))
    (hback : f.Back ms) : ∀ s ∈ f.names, plain s = true := by
  obtain ⟨n, rfl⟩ : ∃ m, n = m + 1 := ⟨n - 1, by omega⟩
  match f with
  | .last h e after =>
    obtain ⟨hh, he, hafter⟩ := hf
    have hlength : e.text.length < n := by
      simp only [Form.text, List.length_append, List.length_cons] at hn
      omega
    rw [Form.text, List.append_assoc] at hm
    obtain ⟨v, t, ms', hvalue, -, rfl⟩ := of_members_head hh hm
    rw [List.append_assoc, List.append_assoc, List.singleton_append] at hvalue
    simp only [Form.Back, find?, if_true] at hback
    exact Entry.plain_of_value he hlength (calm_last hafter hcalm) hvalue hback
  | .cons h e after rest =>
    obtain ⟨hh, he, hafter, hkey, hrest⟩ := hf
    have hlength : e.text.length < n ∧ rest.text.length < n := by
      simp only [Form.text, List.length_append, List.length_cons] at hn
      omega
    rw [Form.text, List.append_assoc] at hm
    obtain ⟨v, t, ms', hvalue, hmore, rfl⟩ := of_members_head hh hm
    rw [List.append_assoc, List.append_assoc, List.cons_append] at hvalue
    simp only [Form.Back, find?, if_true] at hback
    have hnames := Entry.plain_of_value he hlength.1 (calm_cons hafter hrest T) hvalue hback.1
    -- the value has been read as it is meant, so the others are where they are expected
    rw [Entry.value_text he hnames hlength.1 (ends_white_cons hafter (by rfl))] at hvalue
    obtain ⟨rfl, rfl⟩ := Prod.mk.inj (Option.some.inj hvalue)
    rw [more_cons hafter] at hmore
    have hrestNames := Form.plain_of_members hrest hlength.2 hcalm hmore
      ((Form.back_cons hkey _ _).mp hback.2)
    intro s hs
    rcases List.mem_append.mp hs with hs | hs
    · exact hnames s hs
    · exact hrestNames s hs

end

/-! ## Forms as texts -/

/-- What stands between a member's name and its value is ASCII. Kind: L -/
theorem Head.Neat.ascii_colon {h : Head} (hh : h.Neat) : ascii h.colon = true := by
  have hskip : h.colon.dropWhile isSpace = 0x3A :: (skip h.colon).tail :=
    (List.cons_head?_tail hh.colon).symm
  have hspace : white (h.colon.takeWhile isSpace) = true :=
    List.all_eq_true.mpr fun c hc => List.mem_takeWhile_imp hc
  rw [← List.takeWhile_append_dropWhile (p := isSpace) (l := h.colon), hskip,
    ← List.singleton_append, ascii_append, ascii_append, Bool.and_eq_true, Bool.and_eq_true]
  exact ⟨ascii_of_white hspace, by decide, ascii_of_white hh.space⟩

/-- A quotation mark in front. Kind: L -/
theorem utf8_quote_cons (t : Str) : utf8 (quote :: t) = utf8 t := utf8_ascii_cons (by decide) t

/-- A brace in front. Kind: L -/
theorem utf8_brace_cons (t : Str) : utf8 (0x7B :: t) = utf8 t := utf8_ascii_cons (by decide) t

/-- A head is ASCII. Kind: L -/
theorem utf8_head {h : Head} (hh : h.Neat) (t : Str) : utf8 (h.text ++ t) = utf8 t := by
  simp only [Head.text, List.append_assoc, List.cons_append]
  rw [utf8_ascii_append (ascii_of_white hh.before), utf8_quote_cons,
    utf8_ascii_append hh.ascii_key, utf8_quote_cons, utf8_ascii_append hh.ascii_colon]

/-- A string in quotes is UTF-8 iff the string is. Kind: L -/
theorem utf8_string (s t : Str) :
    utf8 ((quote :: (s ++ [quote])) ++ t) = (utf8 s && utf8 t) := by
  have htext : (quote :: (s ++ [quote])) ++ t = quote :: (s ++ quote :: t) := by simp
  rw [htext, utf8_quote_cons, utf8_append_cons (by decide)]

/-- White space and a character of the form. Kind: L -/
theorem utf8_white_cons {w : Str} (hw : white w = true) {c : UInt8} (hc : c < 0x80) (t : Str) :
    utf8 (w ++ c :: t) = utf8 t := by
  rw [utf8_ascii_append (ascii_of_white hw), utf8_ascii_cons hc]

mutual

/-- **A value is UTF-8 iff its names are.** Kind: P -/
theorem Entry.utf8_text {e : Entry} (he : e.Neat) (T : Str) :
    utf8 (e.text ++ T) = (e.names.all utf8 && utf8 T) := by
  match e with
  | .word s =>
    rw [Entry.text, utf8_string, ← List.append_nil s, utf8_ascii_append he.2]
    rfl
  | .name s => rw [Entry.text, utf8_string, Entry.names, List.all_cons, List.all_nil, Bool.and_true]
  | .raw t _ => rw [Entry.text, utf8_ascii_append he.1, Entry.names, List.all_nil, Bool.true_and]
  | .form f =>
    rw [Entry.text, Entry.names, ← Form.utf8_text he, List.cons_append, utf8_brace_cons]

/-- **A form is UTF-8 iff its names are.** Kind: P -/
theorem Form.utf8_text {f : Form} (hf : f.Neat) (T : Str) :
    utf8 (f.text ++ T) = (f.names.all utf8 && utf8 T) := by
  match f with
  | .last h e after =>
    obtain ⟨hh, he, hafter⟩ := hf
    rw [Form.text, List.append_assoc, utf8_head hh, List.append_assoc, List.append_assoc,
      List.singleton_append, Entry.utf8_text he, utf8_white_cons hafter (by decide), Form.names]
  | .cons h e after rest =>
    obtain ⟨hh, he, hafter, -, hrest⟩ := hf
    rw [Form.text, List.append_assoc, utf8_head hh, List.append_assoc, List.append_assoc,
      List.cons_append, Entry.utf8_text he, utf8_white_cons hafter (by decide),
      Form.utf8_text hrest, Form.names, List.all_append, Bool.and_assoc]

end

/-- The text of an object. Kind: D -/
def Form.document (f : Form) : Str := 0x7B :: f.text

/-- A string that a form can be filled in with: plain, and UTF-8. Kind: D -/
def Tame (s : Str) : Prop := plain s = true ∧ utf8 s = true

instance (s : Str) : Decidable (Tame s) := inferInstanceAs (Decidable (_ ∧ _))

/-- What a whole text is read as, when it is UTF-8. Kind: L -/
theorem parse_document {f : Form} (hf : f.Neat) (hutf8 : f.names.all utf8 = true) :
    parse f.document = match members f.document.length (f.text ++ []) with
      | none => none
      | some (ms, t) => if skip t = [] then some (obj ms) else none := by
  have htext : f.document = 0x7B :: (f.text ++ []) := by rw [List.append_nil]; rfl
  have hall : utf8 f.document = true := by
    rw [htext, utf8_brace_cons, Form.utf8_text hf, hutf8]
    rfl
  have hvalue : value (f.document.length + 1) (skip f.document) =
      (members f.document.length (f.text ++ [])).map fun out => (obj out.1, out.2) := by
    rw [← value_form hf, ← htext, Form.document, skip_brace]
  rw [parse, if_pos hall, hvalue]
  cases members f.document.length (f.text ++ []) with
  | none => rfl
  | some out => rfl

/-- **A form filled in with tame names is read as it is meant.** Kind: P -/
theorem Form.parse_of_tame {f : Form} (hf : f.Neat) (h : ∀ s ∈ f.names, Tame s) :
    parse f.document = some (obj f.json) := by
  have hlength : f.text.length < f.document.length := Nat.lt_succ_self _
  rw [parse_document hf (List.all_eq_true.mpr fun s hs => (h s hs).2),
    Form.members_text hf (fun s hs => (h s hs).1) hlength []]
  rfl

/-- **If a form's names are found in the text's value, they are tame.** Kind: P -/
theorem Form.tame_of_parse {f : Form} (hf : f.Neat) {ms : List (Str × Json)}
    (h : parse f.document = some (obj ms)) (hback : f.Back ms) : ∀ s ∈ f.names, Tame s := by
  have hutf8 : f.names.all utf8 = true := by
    by_contra hnot
    have htext : utf8 f.document = false := by
      rw [Form.document, ← List.append_nil f.text, utf8_brace_cons, Form.utf8_text hf]
      simp [hnot]
    rw [parse, htext] at h
    exact absurd h (by simp)
  rw [parse_document hf hutf8] at h
  cases hm : members f.document.length (f.text ++ []) with
  | none =>
      rw [hm] at h
      exact absurd h (by simp)
  | some out =>
      obtain ⟨ms', t⟩ := out
      rw [hm] at h
      simp only at h
      split at h
      · obtain rfl := Json.obj.inj (Option.some.inj h)
        have hplain := Form.plain_of_members hf (Nat.lt_succ_self _) calm_nil hm hback
        exact fun s hs => ⟨hplain s hs, List.all_eq_true.mp hutf8 s hs⟩
      · exact absurd h (by simp)

end Json

end CloudNode
