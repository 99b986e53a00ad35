import CloudNode.Client.Handshake
import CloudNode.Lib.Runs
import CloudNode.Phone.Connections
import CloudNode.Wire.Descriptions
import CloudNode.Wire.Messages

/-!
# Gathering an offer

Before a connection is offered, the library is asked for a description and for candidates, which it
reports one by one to callbacks, and at last that this was all. `obtainInitialDescription` waits for
that at a condition variable, for some seconds at most, and gives up when the time is over. The
phone looks every 50 milliseconds, and when the time is over it offers what there is.

A step is a section under the mutex, a notification, or what time and the library do. Reports may
come at any time, also when the offer is made.

* `GatherReport`, `ofReports` — what the library reports, and the description that it comes to.
* `Orderly` — what the library promises: nothing comes after the last report.
* `GatheredDescription.faithful_of_run` — a description that is returned is what was reported up to
  some moment, after the last report.
* `offer_arrives` — so the peer gets all of it, if the library keeps its promise: the text is read,
  relayed and handed to the peer's library.
* `GatheredOffer.collected_of_run` — the phone's offer has what was reported up to some moment,
  which is all of it if the wait did not run out.
-/

namespace CloudNode

/-- What the library tells a client about its own side of a connection. Kind: D -/
inductive GatherReport where
  | description (text : Str)
  | candidate (text : Str)
  | complete
  deriving DecidableEq

namespace GatherReport

/-- Kind: D -/
def description? : GatherReport → Option Str
  | .description text => some text
  | _ => none

/-- Kind: D -/
def candidate? : GatherReport → Option Str
  | .candidate text => some text
  | _ => none

/-- The text that comes with it. Kind: D -/
def texts : GatherReport → List Str
  | .description text | .candidate text => [text]
  | .complete => []

end GatherReport

/-- The description that some reports come to. Kind: D -/
def ofReports (reports : List GatherReport) : LocalDescription where
  descriptions := reports.filterMap GatherReport.description?
  candidates := reports.filterMap GatherReport.candidate?

/-- Nothing is reported after the last report. Kind: D -/
def Orderly (reports : List GatherReport) : Prop :=
  reports.Pairwise fun earlier later => earlier = .complete → later = .complete

variable {before after reports : List GatherReport}

/-- Reports are noted one after the other. Kind: L -/
theorem ofReports_append (before after : List GatherReport) :
    ofReports (before ++ after) =
      ⟨(ofReports before).descriptions ++ (ofReports after).descriptions,
        (ofReports before).candidates ++ (ofReports after).candidates⟩ := by
  simp only [ofReports, List.filterMap_append]

/-- One more description. Kind: L -/
theorem ofReports_description (reports : List GatherReport) (text : Str) :
    ofReports (reports ++ [.description text]) =
      ⟨(ofReports reports).descriptions ++ [text], (ofReports reports).candidates⟩ := by
  rw [ofReports_append]
  exact congrArg (LocalDescription.mk _) (List.append_nil _)

/-- One more candidate. Kind: L -/
theorem ofReports_candidate (reports : List GatherReport) (text : Str) :
    ofReports (reports ++ [.candidate text]) =
      ⟨(ofReports reports).descriptions, (ofReports reports).candidates ++ [text]⟩ := by
  rw [ofReports_append]
  exact congrArg (LocalDescription.mk · _) (List.append_nil _)

/-- The last report adds nothing. Kind: L -/
theorem ofReports_complete (reports : List GatherReport) :
    ofReports (reports ++ [.complete]) = ofReports reports := by
  rw [ofReports_append]
  exact congrArg₂ LocalDescription.mk (List.append_nil _) (List.append_nil _)

/-- **Of reports that keep their order, those up to the last one are all.** Kind: P -/
theorem ofReports_eq_of_complete (horderly : Orderly reports) (hinit : before <+: reports)
    (hcomplete : .complete ∈ before) : ofReports reports = ofReports before := by
  obtain ⟨after, rfl⟩ := hinit
  have hafter : ∀ r ∈ after, r = .complete := fun r hr =>
    (List.pairwise_append.mp horderly).2.2 .complete hcomplete r hr rfl
  have hnone : ofReports after = ⟨[], []⟩ := by
    simp only [ofReports, LocalDescription.mk.injEq, List.filterMap_eq_nil_iff]
    constructor
    · intro r hr
      rw [hafter r hr]
      rfl
    · intro r hr
      rw [hafter r hr]
      rfl
  rw [ofReports_append, hnone, List.append_nil, List.append_nil]

/-- What is in a description was reported. Kind: L -/
theorem mem_texts_of_mem_ofReports {text : Str}
    (h : text ∈ (ofReports reports).descriptions ∨ text ∈ (ofReports reports).candidates) :
    ∃ r ∈ reports, text ∈ r.texts := by
  rcases h with h | h
  · obtain ⟨r, hr, htext⟩ := List.mem_filterMap.mp h
    cases r with
    | description t => exact ⟨_, hr, List.mem_singleton.mpr (Option.some.inj htext).symm⟩
    | candidate t | complete => cases htext
  · obtain ⟨r, hr, htext⟩ := List.mem_filterMap.mp h
    cases r with
    | candidate t => exact ⟨_, hr, List.mem_singleton.mpr (Option.some.inj htext).symm⟩
    | description t | complete => cases htext

/-! ## The client's wait -/

/-- Where the caller is.
Source: `LocalDescription.cpp`, `obtainInitialDescription`
Kind: D -/
inductive GatherPhase where
  /-- The callbacks are registered. -/
  | preparing
  /-- The data channel is there; before the mutex is taken. -/
  | created
  | asleep
  /-- Woken, and without the mutex. -/
  | woken
  /-- `none` is `false`. -/
  | returned (result : Option LocalDescription)

/-- What the callbacks and the caller share.
Source: `LocalDescription.cpp`, `GatheredDescription`
Kind: D -/
structure GatheredDescription where
  complete : Bool := false
  description : LocalDescription := ⟨[], []⟩
  phase : GatherPhase := .preparing
  /-- Callbacks that have set `complete` and come to `notify_one`. -/
  announcing : ℕ := 0
  /-- All that was reported. -/
  reports : List GatherReport := []

namespace GatheredDescription

/-- Kind: D -/
inductive Event where
  /-- `createDataChannel` gives a channel, or none. -/
  | creates (ok : Bool)
  | reports (report : GatherReport)
  /-- A callback's `notify_one`. -/
  | announces
  /-- The caller takes the mutex and looks. -/
  | enters
  | spurious
  | resumes
  /-- The time is over. -/
  | expires

/-- A callback's section.
Source: `LocalDescription.cpp`, `obtainInitialDescription`, the three callbacks
Kind: D -/
def note (s : GatheredDescription) : GatherReport → GatheredDescription
  | .description text => { s with
      description := { s.description with
        descriptions := s.description.descriptions ++ [text] } }
  | .candidate text => { s with
      description := { s.description with candidates := s.description.candidates ++ [text] } }
  | .complete => { s with
      complete := true
      announcing := s.announcing + 1 }

/-- What there is to offer; `CreateStringQueue` always gives a queue.
Source: `LocalDescription.cpp`, `obtainInitialDescription`, from `desc = gathered->description` on
Kind: D -/
def result (s : GatheredDescription) : Option LocalDescription :=
  if s.description.descriptions = [] then none else some s.description

/-- The caller has the mutex and tests `complete`; with the time over it returns in any case.
Source: `LocalDescription.cpp`, `obtainInitialDescription`, `wait_for`
Kind: D -/
def look (s : GatheredDescription) (expired : Bool) : GatheredDescription :=
  if s.complete then { s with phase := .returned s.result }
  else if expired then { s with phase := .returned none }
  else { s with phase := .asleep }

/-- Source: `LocalDescription.cpp`, `obtainInitialDescription`. Kind: D -/
def step (s : GatheredDescription) : Event → Option GatheredDescription
  | .creates ok =>
    match s.phase with
    | .preparing => some { s with phase := if ok then .created else .returned none }
    | _ => none
  | .reports report => some { s.note report with reports := s.reports ++ [report] }
  | .announces =>
    if 0 < s.announcing then
      some { s with
        announcing := s.announcing - 1
        phase := match s.phase with
          | .asleep => .woken
          | phase => phase }
    else none
  | .enters =>
    match s.phase with
    | .created => some (s.look false)
    | _ => none
  | .spurious =>
    match s.phase with
    | .asleep => some { s with phase := .woken }
    | _ => none
  | .resumes =>
    match s.phase with
    | .woken => some (s.look false)
    | _ => none
  | .expires =>
    match s.phase with
    | .asleep | .woken => some (s.look true)
    | _ => none

variable {s s' : GatheredDescription} {e : Event} {es : List Event}

/-- The invariant. Kind: D -/
structure Faithful (s : GatheredDescription) : Prop where
  description : s.description = ofReports s.reports
  complete : s.complete = true ↔ .complete ∈ s.reports
  heard : s.phase = .asleep → s.complete = true → 0 < s.announcing
  returned : ∀ d, s.phase = .returned (some d) → ∃ before, before <+: s.reports ∧
    .complete ∈ before ∧ d = ofReports before ∧ d.descriptions ≠ []

/-- Whatever is reported is noted. Kind: L -/
theorem Faithful.note (h : Faithful s) (report : GatherReport) :
    Faithful { s.note report with reports := s.reports ++ [report] } := by
  have hreturned : ∀ d, s.phase = .returned (some d) → ∃ before,
      before <+: s.reports ++ [report] ∧ .complete ∈ before ∧ d = ofReports before ∧
        d.descriptions ≠ [] := by
    intro d hd
    obtain ⟨before, hinit, hbefore⟩ := h.returned d hd
    exact ⟨before, hinit.trans (List.prefix_append _ _), hbefore⟩
  cases report with
  | description text =>
      refine ⟨?_, ?_, h.heard, hreturned⟩
      · rw [ofReports_description, ← h.description]
        rfl
      · rw [List.mem_append, or_iff_left (by simp)]
        exact h.complete
  | candidate text =>
      refine ⟨?_, ?_, h.heard, hreturned⟩
      · rw [ofReports_candidate, ← h.description]
        rfl
      · rw [List.mem_append, or_iff_left (by simp)]
        exact h.complete
  | complete =>
      refine ⟨?_, ?_, fun _ _ => Nat.succ_pos _, hreturned⟩
      · rw [ofReports_complete, ← h.description]
        rfl
      · exact iff_of_true rfl (List.mem_append_right _ (List.mem_singleton_self _))

/-- What the caller finds is what was reported. Kind: L -/
theorem Faithful.look (h : Faithful s) (expired : Bool) : Faithful (s.look expired) := by
  unfold GatheredDescription.look
  split
  · rename_i hcomplete
    refine ⟨h.description, h.complete, nofun, fun d hd => ?_⟩
    obtain ⟨hsome, hd⟩ := Option.ite_none_left_eq_some.mp (GatherPhase.returned.inj hd)
    obtain rfl := Option.some.inj hd
    exact ⟨s.reports, List.prefix_rfl, h.complete.mp hcomplete, h.description, hsome⟩
  · rename_i hcomplete
    split
    · exact ⟨h.description, h.complete, nofun, nofun⟩
    · exact ⟨h.description, h.complete, fun _ hset => absurd hset hcomplete, nofun⟩

/-- **Each step keeps the invariant.** Kind: P -/
theorem Faithful.step (h : Faithful s) (he : s.step e = some s') : Faithful s' := by
  cases e with
  | reports report => exact Option.some.inj he ▸ h.note report
  | creates ok =>
      simp only [GatheredDescription.step] at he
      split at he
      · obtain rfl := Option.some.inj he
        cases ok <;> exact ⟨h.description, h.complete, nofun, nofun⟩
      · cases he
  | announces =>
      obtain ⟨-, he⟩ := Option.ite_none_right_eq_some.mp he
      obtain rfl := Option.some.inj he
      refine ⟨h.description, h.complete, ?_, ?_⟩
      · intro hasleep
        simp only at hasleep
        split at hasleep <;> contradiction
      · intro d hd
        simp only at hd
        split at hd
        · cases hd
        · exact h.returned d hd
  | enters | resumes =>
      simp only [GatheredDescription.step] at he
      split at he
      · exact Option.some.inj he ▸ h.look false
      · cases he
  | spurious =>
      simp only [GatheredDescription.step] at he
      split at he
      · obtain rfl := Option.some.inj he
        exact ⟨h.description, h.complete, nofun, nofun⟩
      · cases he
  | expires =>
      simp only [GatheredDescription.step] at he
      split at he
      · exact Option.some.inj he ▸ h.look true
      · exact Option.some.inj he ▸ h.look true
      · cases he

/-- At the beginning nothing is reported. Kind: L -/
theorem faithful_init : Faithful {} where
  description := rfl
  complete := iff_of_false nofun List.not_mem_nil
  heard hasleep := by cases hasleep
  returned d hd := by cases hd

/-- **What is returned was reported up to some moment, the last report among it**; and while the
caller sleeps with `complete` set, a callback comes to wake it. Kind: P -/
theorem faithful_of_run (hrun : Runs.run step {} es = some s) : Faithful s :=
  Runs.invariant_of_run step (fun _ _ _ h => h.step) faithful_init hrun

/-- A channel is created, a description is reported before the last report, and the time is not
over before that. Kind: D -/
def timely (s : GatheredDescription) : Event → Prop
  | .creates ok => ok = true
  | .reports .complete => s.description.descriptions ≠ []
  | .expires => s.complete = true
  | _ => True

/-- Nothing was refused, and where gathering is complete there is a description. Kind: D -/
structure Promising (s : GatheredDescription) : Prop where
  granted : s.phase ≠ .returned none
  described : s.complete = true → s.description.descriptions ≠ []

/-- A look refuses nothing that is complete. Kind: L -/
theorem Promising.look (h : Promising s) {expired : Bool}
    (htimely : expired = true → s.complete = true) : Promising (s.look expired) := by
  unfold GatheredDescription.look
  split
  · rename_i hcomplete
    refine ⟨?_, h.described⟩
    rw [result, if_neg (h.described hcomplete)]
    nofun
  · rename_i hcomplete
    rw [if_neg fun hexpired => hcomplete (htimely hexpired)]
    exact ⟨nofun, h.described⟩

/-- In time nothing is refused. Kind: L -/
theorem promising_step (h : Promising s) (htimely : s.timely e) (he : s.step e = some s') :
    Promising s' := by
  cases e with
  | reports report =>
      obtain rfl := Option.some.inj he
      cases report with
      | description text => exact ⟨h.granted, fun _ => by simp [note]⟩
      | candidate text => exact ⟨h.granted, h.described⟩
      | complete => exact ⟨h.granted, fun _ => htimely⟩
  | creates ok =>
      simp only [step] at he
      split at he
      · obtain rfl := Option.some.inj he
        obtain rfl : ok = true := htimely
        exact ⟨nofun, h.described⟩
      · cases he
  | announces =>
      obtain ⟨-, he⟩ := Option.ite_none_right_eq_some.mp he
      obtain rfl := Option.some.inj he
      refine ⟨?_, h.described⟩
      simp only
      split
      · nofun
      · exact h.granted
  | enters | resumes =>
      simp only [step] at he
      split at he
      · exact Option.some.inj he ▸ h.look nofun
      · cases he
  | spurious =>
      simp only [step] at he
      split at he
      · obtain rfl := Option.some.inj he
        exact ⟨nofun, h.described⟩
      · cases he
  | expires =>
      simp only [step] at he
      split at he
      · exact Option.some.inj he ▸ h.look fun _ => htimely
      · exact Option.some.inj he ▸ h.look fun _ => htimely
      · cases he

/-- At the beginning nothing is refused. Kind: L -/
theorem promising_init : Promising {} where
  granted hnone := by cases hnone
  described hcomplete := by cases hcomplete

/-- **`false` is returned only where a channel, a description or time is missing.** Kind: P -/
theorem granted_of_run (htimely : Runs.Meets step timely {} es) :
    Runs.Always step (fun s => s.phase ≠ .returned none) {} es := by
  have hpromising : Runs.Always step Promising {} es :=
    Runs.always_of_meets step (fun _ _ _ => promising_step) promising_init htimely
  exact hpromising.imp step fun _ h => h.granted

end GatheredDescription

/-! ## The offer on its way -/

section Arriving

open Json HandBuilt

/-- The document of an offer. Source: `WebRTCClient.cpp`, `MakeDataChannel`, `payload`. Kind: D -/
def offerDocument (encoder : Str → Str) (room peer : Str) (d : LocalDescription) :
    List (Str × Json) :=
  [(str "type", .str (str "offer")), (str "room", .str room), (str "peer", .str peer),
    (str "descriptions", .arr ((encodings encoder d.descriptions).map .str)),
    (str "candidates", .arr ((encodings encoder d.candidates).map .str))]

variable {encoder : Str → Str} {room a b : Str} {d : LocalDescription}

/-- The text is read as the document. Kind: L -/
theorem parse_connectionOffer (hencoder : IsBase64 encoder)
    (hd : (HandBuilt.offer room b d).FromLibraries) (hroom : Tame room) (hb : Tame b) :
    ((HandBuilt.offer room b d).text encoder).bind parse =
      some (.obj (offerDocument encoder room b d)) := by
  rw [HandBuilt.text_eq encoder hd, Option.bind_some,
    Form.parse_of_tame (HandBuilt.form_neat hencoder hd)]
  · rfl
  · rw [HandBuilt.names_form]
    simp only [HandBuilt.names, List.forall_mem_cons]
    exact ⟨hroom, hb, by simp⟩

/-- The server relays it. Kind: L -/
theorem relayed_connectionOffer {s : Server} {socketA socketB : Socket}
    (hconnected : Handshake.Connected s room a b socketA socketB) (hroom : cstr room = room)
    (hb : cstr b = b) :
    ∃ s', Server.onMessage ⟨socketA, a⟩ (.obj (offerDocument encoder room b d)) s =
      .ok (s', [⟨socketB, b, .document (.obj (offerDocument encoder room a d))⟩]) := by
  have hroute : dispatch (cstr (str "offer")) = some .onOffer := by decide
  exact Handshake.relay_of_connected hconnected hroom hb rfl hroute rfl rfl rfl rfl rfl

variable {env : Surroundings} {key : PeerRoomKey}

/-- An item comes out of its text. Kind: L -/
theorem decode_item (hlib : Libb64 encoder env.decoder) {item : Str} (hitem : item ≠ []) :
    Client.base64Decode env (cstr (Base64.encode item)) = some item := by
  rw [cstr_encode, Client.base64Decode, if_neg (Base64.encode_ne_nil hitem),
    hlib.decodes _ _ (Base64.decode_encode item)]

/-- The texts of items that are not empty, one by one. Kind: L -/
theorem encodings_cons (hlib : Libb64 encoder env.decoder) {item : Str} (hitem : item ≠ [])
    (items : List Str) :
    encodings encoder (item :: items) = Base64.encode item :: encodings encoder items :=
  List.filterMap_cons_some (by rw [base64Encode_eq hlib, if_neg hitem])

/-- **Every candidate that was offered is added, in order.** Kind: P -/
theorem takeCandidates_encodings (hlib : Libb64 encoder env.decoder)
    (hreturns : ∀ call, env.returns call = true) {items : List Str}
    (hitems : ∀ item ∈ items, item ≠ []) :
    Client.takeCandidates env key ((encodings encoder items).map .str) =
      .ok (items.map fun item => .addRemoteCandidate key item (str "0")) := by
  induction items with
  | nil => rfl
  | cons item items ih =>
      have hitem := hitems item List.mem_cons_self
      have hrest := ih fun other hother => hitems other (List.mem_cons_of_mem _ hother)
      rw [encodings_cons hlib hitem, List.map_cons, Client.takeCandidates]
      simp only [getString, ok_bind, decode_item hlib hitem, hreturns, if_true, hrest]
      rfl

/-- The first description is set, and answered. Kind: L -/
theorem takeDescription_encodings (hlib : Libb64 encoder env.decoder)
    (hreturns : ∀ call, env.returns call = true) {members : List (Str × Json)} {sdp : Str}
    {more : List Str} (hsdp : sdp ≠ [])
    (hfind : find? members (str "descriptions") =
      some (.arr ((encodings encoder (sdp :: more)).map .str))) :
    Client.takeDescription env key (.obj members) =
      .ok ([.setRemoteDescription key sdp (str "offer"), .createAnswer key], true) := by
  rw [encodings_cons hlib hsdp, List.map_cons] at hfind
  unfold Client.takeDescription
  simp only [hasSuch_obj, hfind, Option.any_some, isArray, ok_bind, member_of_find hfind, getArray,
    element, List.getElem?_cons_zero, getString, decode_item hlib hsdp, Client.inTurn, hreturns,
    List.all_cons, List.all_nil, Bool.and_true, if_true, Bool.not_true, Bool.false_eq_true,
    if_false]
  rfl

/-- **The peer hands its library the first description and all candidates.** Kind: P -/
theorem received_connectionOffer {β : Type} (hlib : Libb64 encoder env.decoder)
    (hreturns : ∀ call, env.returns call = true)
    (hd : (HandBuilt.offer room b d).FromLibraries) {sdp : Str} {more : List Str}
    (hsdp : d.descriptions = sdp :: more) (hroom : cstr room = room) (ha : cstr a = a)
    (t : Client.Tables β) :
    Client.onMessage env (.obj (offerDocument encoder room a d)) t =
      .ok (.connection (.connect (a, room) :: .setRemoteDescription (a, room) sdp (str "offer") ::
        .createAnswer (a, room) ::
          d.candidates.map fun item => .addRemoteCandidate (a, room) item (str "0"))) := by
  have htype : find? (offerDocument encoder room a d) (str "type") =
      some (.str (str "offer")) := rfl
  have hroute : dispatch (cstr (str "offer")) = some .onOffer := by decide
  have hoffer : Client.onOffer env (.obj (offerDocument encoder room a d)) =
      Client.takeOffer env (cstr a, cstr room) (.obj (offerDocument encoder room a d)) := rfl
  have hdescriptions : find? (offerDocument encoder room a d) (str "descriptions") =
      some (.arr ((encodings encoder (sdp :: more)).map .str)) := by
    rw [← hsdp]
    rfl
  have hcandidates : find? (offerDocument encoder room a d) (str "candidates") =
      some (.arr ((encodings encoder d.candidates).map .str)) := rfl
  unfold Client.onMessage
  rw [messageRouter_of_find htype, hroute, ok_bind]
  simp only [Client.handle, hoffer, ha, hroom, Client.takeOffer, hreturns, Bool.not_true,
    Bool.false_eq_true, if_false, takeDescription_encodings hlib hreturns
      (hd.1 sdp (hsdp ▸ List.mem_cons_self)) hdescriptions, ok_bind, hasSuch_obj, hcandidates,
    Option.any_some, isArray, member_of_find hcandidates, getArray,
    takeCandidates_encodings hlib hreturns hd.2]
  rfl

/-- What is gathered from texts that are not empty can be sent. Kind: L -/
theorem fromLibraries_ofReports (room b : Str) (htexts : ∀ r ∈ reports, [] ∉ r.texts) :
    (HandBuilt.offer room b (ofReports reports)).FromLibraries := by
  constructor
  · rintro text htext rfl
    obtain ⟨r, hr, hempty⟩ := mem_texts_of_mem_ofReports (.inl htext)
    exact htexts r hr hempty
  · rintro text htext rfl
    obtain ⟨r, hr, hempty⟩ := mem_texts_of_mem_ofReports (.inr htext)
    exact htexts r hr hempty

/-- **What one client's library reports reaches the other's**: when `obtainInitialDescription` has
returned a description, of a library that reports nothing after its last report, the text that
`MakeDataChannel` sends is read and relayed by the server, and the peer makes a connection, sets the
first description that was ever reported, answers it, and adds every candidate that was ever
reported, in order. Kind: P -/
theorem offer_arrives {β : Type} {g : GatheredDescription} {es : List GatheredDescription.Event}
    (hrun : Runs.run GatheredDescription.step {} es = some g) (horderly : Orderly g.reports)
    (htexts : ∀ r ∈ g.reports, [] ∉ r.texts) (hreturned : g.phase = .returned (some d))
    {env : Surroundings} (hlib : Libb64 encoder env.decoder)
    (hreturns : ∀ call, env.returns call = true) (hroom : Tame room) (hb : Tame b) (ha : 0 ∉ a)
    {s : Server} {socketA socketB : Socket}
    (hconnected : Handshake.Connected s room a b socketA socketB) (t : Client.Tables β) :
    ∃ offer relayed s' sdp,
      ((HandBuilt.offer room b d).text encoder).bind parse = some offer ∧
      Server.onMessage ⟨socketA, a⟩ offer s = .ok (s', [⟨socketB, b, .document relayed⟩]) ∧
      (ofReports g.reports).descriptions.head? = some sdp ∧
      Client.onMessage env relayed t =
        .ok (.connection (.connect (a, room) :: .setRemoteDescription (a, room) sdp (str "offer") ::
          .createAnswer (a, room) :: (ofReports g.reports).candidates.map fun item =>
            .addRemoteCandidate (a, room) item (str "0"))) := by
  have h := GatheredDescription.faithful_of_run hrun
  obtain ⟨before, hinit, hcomplete, rfl, hsome⟩ := h.returned d hreturned
  rw [← ofReports_eq_of_complete horderly hinit hcomplete] at hsome ⊢
  have hd := fromLibraries_ofReports room b htexts
  have hcutRoom := Handshake.cstr_of_plain hroom.1
  obtain ⟨s', hrelayed⟩ : ∃ s', Server.onMessage ⟨socketA, a⟩
      (.obj (offerDocument encoder room b (ofReports g.reports))) s =
        .ok (s', [⟨socketB, b, .document (.obj (offerDocument encoder room a
          (ofReports g.reports)))⟩]) :=
    relayed_connectionOffer hconnected hcutRoom (Handshake.cstr_of_plain hb.1)
  obtain ⟨sdp, more, hsdp⟩ := List.exists_cons_of_ne_nil hsome
  refine ⟨_, _, s', sdp, parse_connectionOffer hlib.isBase64 hd hroom hb, hrelayed, ?_, ?_⟩
  · rw [hsdp, List.head?_cons]
  · exact received_connectionOffer hlib hreturns hd hsdp hcutRoom (cstr_of_zero_not_mem ha) t

/-- A description and a candidate are reported, one of them while the caller waits. Kind: D -/
def shortGathering : List GatheredDescription.Event :=
  [.creates true, .reports (.description (str "v=0")), .enters,
    .reports (.candidate (str "candidate:1")), .reports .complete, .announces, .resumes]

/-- What is returned then. Kind: D -/
def shortDescription : LocalDescription := ⟨[str "v=0"], [str "candidate:1"]⟩

/-- A client whose library takes everything. Kind: D -/
def readyClient : Surroundings :=
  { Client.calmClient with decoder := FullDescription.decodeText }

/-- The peer gets the description and the candidate. Kind: L -/
theorem offer_arrives_shortGathering : ∃ g offer relayed s',
    Runs.run GatheredDescription.step {} shortGathering = some g ∧
    g.phase = .returned (some shortDescription) ∧
    ((HandBuilt.offer (str "r") (str "b") shortDescription).text
      FullDescription.encodeLines).bind parse = some offer ∧
    Server.onMessage ⟨1, str "a"⟩ offer Handshake.twoInRoom =
      .ok (s', [⟨2, str "b", .document relayed⟩]) ∧
    Client.onMessage readyClient relayed (⟨∅, {}⟩ : Client.Tables UInt8) =
      .ok (.connection [.connect (str "a", str "r"),
        .setRemoteDescription (str "a", str "r") (str "v=0") (str "offer"),
        .createAnswer (str "a", str "r"),
        .addRemoteCandidate (str "a", str "r") (str "candidate:1") (str "0")]) := by
  have hconnected : Handshake.Connected Handshake.twoInRoom (str "r") (str "a") (str "b") 1 2 :=
    ⟨by decide +kernel, by decide +kernel, by decide +kernel, by decide +kernel⟩
  let reports : List GatherReport :=
    [.description (str "v=0"), .candidate (str "candidate:1"), .complete]
  have hrun : Runs.run GatheredDescription.step {} shortGathering =
      some ⟨true, shortDescription, .returned (some shortDescription), 0, reports⟩ := rfl
  have horderly : Orderly reports := by
    unfold Orderly
    decide
  have hlib : Libb64 FullDescription.encodeLines readyClient.decoder := FullDescription.libb64_lines
  obtain ⟨offer, relayed, s', sdp, hparse, hrelayed, hsdp, hreceived⟩ :=
    offer_arrives hrun horderly (by decide) rfl hlib (fun _ => rfl) (by decide) (by decide)
      (by decide) hconnected (⟨∅, {}⟩ : Client.Tables UInt8)
  obtain rfl := Option.some.inj hsdp
  exact ⟨_, offer, relayed, s', hrun, rfl, hparse, hrelayed, hreceived⟩

end Arriving

/-! ## The phone's wait -/

/-- Where `makeOffer` is. Source: `PeerSession.swift`, `makeOffer`. Kind: D -/
inductive OfferPhase where
  | creating
  /-- At the head of the loop, or asleep in it. -/
  | polling
  /-- Behind the loop. -/
  | leaving
  /-- `none` is an error. -/
  | offered (result : Option PhoneOffer)

/-- What the phone's callbacks and `makeOffer` share.
Source: `PeerSession.swift`, `localDescription`, `localCandidates` and `gatheringComplete`
Kind: D -/
structure GatheredOffer where
  localDescription : Option Str := none
  localCandidates : List Str := []
  gatheringComplete : Bool := false
  phase : OfferPhase := .creating
  /-- The time was over before gathering was complete. -/
  late : Bool := false
  /-- All that was reported. -/
  reports : List GatherReport := []

namespace GatheredOffer

/-- Kind: D -/
inductive Event where
  /-- `rtcCreateDataChannel` gives a channel, or none. -/
  | creates (ok : Bool)
  | reports (report : GatherReport)
  /-- The head of the loop, before the deadline or not. -/
  | polls (expired : Bool)
  /-- The task is cancelled in its sleep. -/
  | cancels
  /-- `currentOffer`. -/
  | takes

/-- A callback's section; only the first description is kept.
Source: `PeerSession.swift`, `handleLocalDescription`, `handleLocalCandidate` and
`handleGatheringComplete`
Kind: D -/
def note (s : GatheredOffer) : GatherReport → GatheredOffer
  | .description sdp => { s with localDescription := s.localDescription.or (some sdp) }
  | .candidate text => { s with localCandidates := s.localCandidates ++ [text] }
  | .complete => { s with gatheringComplete := true }

/-- Source: `PeerSession.swift`, `makeOffer`. Kind: D -/
def step (s : GatheredOffer) : Event → Option GatheredOffer
  | .creates ok =>
    match s.phase with
    | .creating => some { s with phase := if ok then .polling else .offered none }
    | _ => none
  | .reports report => some { s.note report with reports := s.reports ++ [report] }
  | .polls expired =>
    match s.phase with
    | .polling =>
      if expired then some { s with
        phase := .leaving
        late := !s.gatheringComplete }
      else some { s with phase := if s.gatheringComplete then .leaving else .polling }
    | _ => none
  | .cancels =>
    match s.phase with
    | .polling => some { s with phase := .offered none }
    | _ => none
  | .takes =>
    match s.phase with
    | .leaving => some { s with
        phase := .offered (s.localDescription.map fun sdp => ⟨sdp, s.localCandidates⟩) }
    | _ => none

variable {s s' : GatheredOffer} {e : Event} {es : List Event}

/-- The invariant. Kind: D -/
structure Faithful (s : GatheredOffer) : Prop where
  description : s.localDescription = (ofReports s.reports).descriptions.head?
  candidates : s.localCandidates = (ofReports s.reports).candidates
  complete : s.gatheringComplete = true → .complete ∈ s.reports
  leaving : s.phase = .leaving → s.late = false → s.gatheringComplete = true
  offered : ∀ o, s.phase = .offered (some o) → ∃ before, before <+: s.reports ∧
    (ofReports before).descriptions.head? = some o.sdp ∧
    (ofReports before).candidates = o.candidates ∧ (s.late = false → .complete ∈ before)

/-- Whatever is reported is noted. Kind: L -/
theorem Faithful.note (h : Faithful s) (report : GatherReport) :
    Faithful { s.note report with reports := s.reports ++ [report] } := by
  have hoffered : ∀ o, s.phase = .offered (some o) → ∃ before,
      before <+: s.reports ++ [report] ∧ (ofReports before).descriptions.head? = some o.sdp ∧
        (ofReports before).candidates = o.candidates ∧ (s.late = false → .complete ∈ before) := by
    intro o ho
    obtain ⟨before, hinit, hbefore⟩ := h.offered o ho
    exact ⟨before, hinit.trans (List.prefix_append _ _), hbefore⟩
  cases report with
  | description sdp =>
      refine ⟨?_, ?_, fun hset => List.mem_append_left _ (h.complete hset), h.leaving, hoffered⟩
      · rw [ofReports_description, List.head?_append, ← h.description]
        rfl
      · rw [ofReports_description]
        exact h.candidates
  | candidate text =>
      refine ⟨?_, ?_, fun hset => List.mem_append_left _ (h.complete hset), h.leaving, hoffered⟩
      · rw [ofReports_candidate]
        exact h.description
      · rw [ofReports_candidate, ← h.candidates]
        rfl
  | complete =>
      refine ⟨?_, ?_, fun _ => List.mem_append_right _ (List.mem_singleton_self _),
        fun _ _ => rfl, hoffered⟩
      · rw [ofReports_complete]
        exact h.description
      · rw [ofReports_complete]
        exact h.candidates

/-- **Each step keeps the invariant.** Kind: P -/
theorem Faithful.step (h : Faithful s) (he : s.step e = some s') : Faithful s' := by
  cases e with
  | reports report => exact Option.some.inj he ▸ h.note report
  | creates ok =>
      simp only [GatheredOffer.step] at he
      split at he
      · obtain rfl := Option.some.inj he
        cases ok <;> exact ⟨h.description, h.candidates, h.complete, nofun, nofun⟩
      · cases he
  | polls expired =>
      simp only [GatheredOffer.step] at he
      split at he
      · split at he
        · obtain rfl := Option.some.inj he
          refine ⟨h.description, h.candidates, h.complete, fun _ hlate => ?_, nofun⟩
          simpa using hlate
        · obtain rfl := Option.some.inj he
          refine ⟨h.description, h.candidates, h.complete, fun hleft _ => ?_, fun o ho => ?_⟩
          · change (if s.gatheringComplete then OfferPhase.leaving else .polling) = _ at hleft
            by_contra hset
            rw [if_neg hset] at hleft
            cases hleft
          · change (if s.gatheringComplete then OfferPhase.leaving else .polling) = _ at ho
            split at ho <;> cases ho
      · cases he
  | cancels =>
      simp only [GatheredOffer.step] at he
      split at he
      · obtain rfl := Option.some.inj he
        exact ⟨h.description, h.candidates, h.complete, nofun, nofun⟩
      · cases he
  | takes =>
      simp only [GatheredOffer.step] at he
      split at he
      · rename_i hphase
        obtain rfl := Option.some.inj he
        refine ⟨h.description, h.candidates, h.complete, nofun, fun o ho => ?_⟩
        obtain ⟨sdp, hsdp, rfl⟩ := Option.map_eq_some_iff.mp (OfferPhase.offered.inj ho)
        refine ⟨s.reports, List.prefix_rfl, ?_, h.candidates.symm,
          fun hlate => h.complete (h.leaving hphase hlate)⟩
        rw [← h.description, hsdp]
      · cases he

/-- At the beginning nothing is reported. Kind: L -/
theorem faithful_init : Faithful {} where
  description := rfl
  candidates := rfl
  complete hset := by cases hset
  leaving hphase := by cases hphase
  offered o ho := by cases ho

/-- **What the phone offers**: the first description and the candidates that were reported up to
some moment; and where the library reports nothing after its last report and the wait did not run
out before that, these are all candidates. Kind: P -/
theorem collected_of_run {o : PhoneOffer} (hrun : Runs.run step {} es = some s)
    (hoffered : s.phase = .offered (some o)) :
    (∃ before, before <+: s.reports ∧ (ofReports before).descriptions.head? = some o.sdp ∧
      (ofReports before).candidates = o.candidates) ∧
      (Orderly s.reports → s.late = false →
        (ofReports s.reports).descriptions.head? = some o.sdp ∧
          (ofReports s.reports).candidates = o.candidates) := by
  have h : Faithful s := Runs.invariant_of_run step (fun _ _ _ h => h.step) faithful_init hrun
  obtain ⟨before, hinit, hsdp, hcandidates, hcomplete⟩ := h.offered o hoffered
  refine ⟨⟨before, hinit, hsdp, hcandidates⟩, fun horderly hlate => ?_⟩
  rw [ofReports_eq_of_complete horderly hinit (hcomplete hlate)]
  exact ⟨hsdp, hcandidates⟩

/-- The time is over with a candidate still to come. Kind: D -/
def lateGathering : List Event :=
  [.creates true, .reports (.description (str "v=0")), .polls false,
    .reports (.candidate (str "candidate:1")), .polls true, .takes,
    .reports (.candidate (str "candidate:2")), .reports .complete]

/-- The phone has offered without it. Kind: P -/
theorem collected_lateGathering : ∃ s o, Runs.run step {} lateGathering = some s ∧
    s.phase = .offered (some o) ∧ o.candidates = [str "candidate:1"] ∧
      (ofReports s.reports).candidates = [str "candidate:1", str "candidate:2"] ∧
      ∃ before, before <+: s.reports ∧ (ofReports before).descriptions.head? = some o.sdp ∧
        (ofReports before).candidates = o.candidates := by
  let offer : PhoneOffer := ⟨str "v=0", [str "candidate:1"]⟩
  have hrun : Runs.run step {} lateGathering = some
      ⟨some (str "v=0"), [str "candidate:1", str "candidate:2"], true, .offered (some offer), true,
        [.description (str "v=0"), .candidate (str "candidate:1"), .candidate (str "candidate:2"),
          .complete]⟩ := rfl
  exact ⟨_, offer, hrun, rfl, rfl, rfl, (collected_of_run hrun rfl).1⟩

end GatheredOffer

end CloudNode
