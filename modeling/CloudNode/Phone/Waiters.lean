import CloudNode.Phone.Connections
import Mathlib.Data.List.Nodup

/-!
# Continuations of file offers

A task that offers a file stores a continuation in `acceptWaiters`, under a uuid of its own, and
waits for it. An answer with that uuid resumes it, and so does every disconnect, be it the user's, a
failure's or that of the next `connect`. A continuation that is resumed twice traps; one that is
never resumed leaks its task.

The client is that of `PhoneClient`; what is added is which continuations were resumed, with what,
and what has happened to them since they were stored.

* `map_client_step` — the client goes where it would go.
* `verdict` — what the first event that concerns an offer says of it.
* `resumed_once` — a continuation is resumed once, with that verdict, and is stored until then.
-/

namespace CloudNode

/-- What happens to the continuations of file offers. Kind: D -/
inductive OfferNotice where
  /-- The continuation of an offer is stored. -/
  | offered (uuid : Str)
  /-- A `file_accept` or `file_reject` is handled. -/
  | answered (uuid : Str) (accepted : Bool)
  | disconnected
  deriving DecidableEq

/-- What an event says of the offer with this uuid, if it concerns it. Kind: D -/
def OfferNotice.concerns (uuid : Str) : OfferNotice → Option Bool
  | .offered _ => none
  | .answered uuid' accepted => if uuid' = uuid then some accepted else none
  | .disconnected => some false

/-- A client, with the continuations that were resumed, each by its uuid and with the value that it
returns, and what has happened so far. Kind: D -/
structure AcceptWaiters where
  client : PhoneClient := {}
  resumed : List (Str × Bool) := []
  log : List OfferNotice := []

namespace AcceptWaiters

open PhoneClient (Event Outcome)

/-- What the first event that concerns an offer says of it, since its continuation was stored.
Kind: D -/
def verdict (uuid : Str) (log : List OfferNotice) : Option Bool :=
  (log.dropWhile fun n => n ≠ .offered uuid).findSome? (OfferNotice.concerns uuid)

/-- The client does something that resumes nothing. Kind: D -/
def act (s : AcceptWaiters) (f : PhoneClient → PhoneClient) : AcceptWaiters :=
  { s with client := f s.client }

/-- Something happens. Kind: D -/
def notice (s : AcceptWaiters) (notices : List OfferNotice) : AcceptWaiters :=
  { s with log := s.log ++ notices }

/-- Every continuation that is stored is resumed with `false`.
Source: `ConnectionManager.swift`, `disconnect`
Kind: D -/
def disconnect (s : AcceptWaiters) : AcceptWaiters where
  client := s.client.disconnect
  resumed := s.resumed ++ s.client.acceptWaiters.keys.map fun uuid => (uuid, false)
  log := s.log ++ [.disconnected]

/-- Source: `ConnectionManager.swift`, `fail`. Kind: D -/
def fail (s : AcceptWaiters) (reason : Str) : AcceptWaiters :=
  if s.client.state = .idle then s
  else s.disconnect.act fun client => { client with state := .failed reason }

/-- Source: `ConnectionManager.swift`, `connect`. Kind: D -/
def connect (s : AcceptWaiters) (config : PhoneConfig) (valid : Bool) : AcceptWaiters :=
  { s.disconnect with client := s.client.connect config valid }

/-- Source: `ConnectionManager.swift`, `handle`, `leave` and `peer_left`. Kind: D -/
def onLeave (s : AcceptWaiters) (config : Stamped PhoneConfig) (room : Str) (peers : List Str)
    (peerId : Option Str) : AcceptWaiters :=
  let s := s.act fun client =>
    { client with roomPeers := client.roomPeers.insert room (Std.ExtTreeSet.ofList peers) }
  if peerId = some config.value.peerName ∧ room = config.value.peerRoom ∧ s.client.state = .ready then
    s.fail (str "Peer left the room")
  else s

/-- The continuation is taken from the table, and resumed with the answer.
Source: `ConnectionManager.swift`, `handle`, `file_accept` and `file_reject`
Kind: D -/
def onFileAnswer (s : AcceptWaiters) (uuid : Str) (accepted : Bool) : AcceptWaiters :=
  if uuid ∈ s.client.acceptWaiters then
    { s.act fun client => client.onFileAnswer uuid accepted with
      resumed := s.resumed ++ [(uuid, accepted)] }
  else s

/-- What a message says of an offer. Kind: D -/
def notices (m : PhoneInbound) : List OfferNotice :=
  match m.type, m.uuid with
  | some type, some uuid =>
    if type = str "file_accept" ∨ type = str "file_reject" then
      [.answered uuid (type = str "file_accept")]
    else []
  | _, _ => []

variable (decode : Str → Option Str)

/-- Source: `ConnectionManager.swift`, `handle`. Kind: D -/
def handle (s : AcceptWaiters) (m : PhoneInbound) : AcceptWaiters :=
  let s := s.notice (notices m)
  match m.type, s.client.config with
  | some type, some config =>
    if type = str "leave" ∨ type = str "peer_left" then
      match m.room, m.peers with
      | some room, some peers => s.onLeave config room peers m.peerId
      | _, _ => s
    else if type = str "file_accept" ∨ type = str "file_reject" then
      match m.uuid with
      | some uuid => s.onFileAnswer uuid (type = str "file_accept")
      | none => s
    else s.act fun client => client.handle decode m
  | _, _ => s

/-- The continuation of an offered item is stored.
Source: `ConnectionManager.swift`, `send(data:name:mime:category:)`, up to the answer
Kind: D -/
def sendItem (s : AcceptWaiters) (begun rest : ℕ) (outcome : Outcome) : AcceptWaiters :=
  let sent := s.act fun client => client.sendItem begun rest outcome
  if outcome.made && s.client.canOffer then sent.notice [.offered outcome.uuid] else sent

/-- A piece of work runs on the main actor.
Source: `ConnectionManager.swift`, `connect`, `startNegotiation` and
`send(data:name:mime:category:)`
Kind: D -/
def runWork (s : AcceptWaiters) (w : Stamped PhoneWork) (outcome : Outcome) : AcceptWaiters :=
  match w.value with
  | .message message => s.handle decode message
  | .serverLost reason => s.fail (str "Server connection lost: " ++ reason)
  | .created config =>
    if outcome.made then s.act fun client => client.onCreated w.connection config true
    else s.fail (str "Unable to create peer connection")
  | .channelClosed => s.fail (str "Data channel closed")
  | .offered config session =>
    if outcome.encoded.isSome then
      s.act fun client => client.onOffered w.connection config session outcome
    else s.fail (str "Offer failed: " ++ outcome.description)
  | .timeout session =>
    if s.client.state = .negotiating ∧ s.client.session = some session then
      s.fail (str "Timed out waiting for the data channel")
    else s
  | .item rest => s.sendItem w.connection rest outcome
  | .opened | .transfer _ => s.act fun client => client.runWork decode w outcome

/-- The event offers a file under a uuid that an earlier offer has. Kind: D -/
def reuses (s : AcceptWaiters) : Event → Bool
  | .run i outcome =>
    ((s.client.works[i]?).any fun w => w.value matches .item _) && outcome.made && s.client.canOffer &&
      .offered outcome.uuid ∈ s.log
  | _ => false

/-- One step. An offer has a uuid that no other has.
Source: `ConnectionManager.swift`
Kind: D -/
def step (s : AcceptWaiters) (e : Event) : Option AcceptWaiters :=
  if s.reuses e then none
  else match e with
    | .connect config valid => some (s.connect config valid)
    | .disconnect => some s.disconnect
    | .run i outcome =>
      (s.client.works[i]?).map fun w =>
        (s.act fun client => { client with works := client.works.eraseIdx i }).runWork decode w outcome
    | e => (s.client.step decode e).map fun client => { s with client := client }

/-- Every continuation is resumed once, with what the first event that concerns its offer says, and
is stored until then. Kind: D -/
structure ResumedOnce (s : AcceptWaiters) : Prop where
  once : (s.resumed.map Prod.fst).Nodup
  value : ∀ uuid value, (uuid, value) ∈ s.resumed → verdict uuid s.log = some value
  stored : ∀ uuid, .offered uuid ∈ s.log →
    (uuid ∈ s.client.acceptWaiters ↔ uuid ∉ s.resumed.map Prod.fst)
  disconnected : s.log.getLast? = some .disconnected →
    s.client.acceptWaiters = ∅ ∧ ∀ uuid, .offered uuid ∈ s.log → uuid ∈ s.resumed.map Prod.fst

variable {decode} {s s' : AcceptWaiters} {c : PhoneClient} {e : Event} {uuid : Str}
  {accepted : Bool}

/-! ## The client goes where it would go -/

/-- Failing. Kind: L -/
@[simp] theorem client_fail (reason : Str) : (s.fail reason).client = s.client.fail reason := by
  unfold fail PhoneClient.fail
  split
  · rfl
  · rfl

/-- A peer that leaves. Kind: L -/
@[simp] theorem client_onLeave (config : Stamped PhoneConfig) (room : Str) (peers : List Str)
    (peerId : Option Str) :
    (s.onLeave config room peers peerId).client = s.client.onLeave config room peers peerId := by
  unfold onLeave PhoneClient.onLeave
  dsimp only [act]
  split
  · exact client_fail _
  · rfl

/-- An answer. Kind: L -/
@[simp] theorem client_onFileAnswer :
    (s.onFileAnswer uuid accepted).client = s.client.onFileAnswer uuid accepted := by
  unfold onFileAnswer
  split
  · rfl
  · rename_i hwaiter
    unfold PhoneClient.onFileAnswer
    rw [Std.ExtTreeMap.getElem?_eq_none hwaiter]

/-- What the client does about a peer that leaves. Kind: L -/
theorem handle_leave {m : PhoneInbound} {type : Str} {config : Stamped PhoneConfig}
    (htype : m.type = some type) (hconfig : c.config = some config)
    (hleave : type = str "leave" ∨ type = str "peer_left") :
    c.handle decode m = match m.room, m.peers with
      | some room, some peers => c.onLeave config room peers m.peerId
      | _, _ => c := by
  have hjoin : ¬(type = str "join" ∨ type = str "peer_joined") := by
    rcases hleave with rfl | rfl
    · decide
    · decide
  unfold PhoneClient.handle
  rw [htype, hconfig]
  dsimp only
  refine (if_neg hjoin).trans ((if_pos hleave).trans ?_)
  cases m.room with
  | none => rfl
  | some room =>
      cases m.peers with
      | none => rfl
      | some peers => rfl

/-- What it does about an answer to an offer. Kind: L -/
theorem handle_file {m : PhoneInbound} {type : Str} {config : Stamped PhoneConfig}
    (htype : m.type = some type) (hconfig : c.config = some config)
    (hfile : type = str "file_accept" ∨ type = str "file_reject") :
    c.handle decode m = match m.uuid with
      | some uuid => c.onFileAnswer uuid (type = str "file_accept")
      | none => c := by
  have hother : ¬(type = str "join" ∨ type = str "peer_joined") ∧
      ¬(type = str "leave" ∨ type = str "peer_left") ∧ type ≠ str "answer" ∧
      type ≠ str "candidate" := by
    rcases hfile with rfl | rfl
    · decide
    · decide
  obtain ⟨hjoin, hleave, hanswer, hcandidate⟩ := hother
  unfold PhoneClient.handle
  rw [htype, hconfig]
  dsimp only
  refine (if_neg hjoin).trans ((if_neg hleave).trans ((if_neg hanswer).trans ?_))
  refine (if_neg hcandidate).trans ((if_pos hfile).trans ?_)
  cases m.uuid with
  | none => rfl
  | some uuid => rfl

/-- A message. Kind: L -/
@[simp] theorem client_handle (m : PhoneInbound) :
    (s.handle decode m).client = s.client.handle decode m := by
  unfold handle
  dsimp only [notice]
  split
  · rename_i type config htype hconfig
    split
    · rename_i hleave
      rw [handle_leave htype hconfig hleave]
      split
      · exact client_onLeave _ _ _ _
      · rfl
    · split
      · rename_i hfile
        rw [handle_file htype hconfig hfile]
        split
        · exact client_onFileAnswer
        · rfl
      · rfl
  · rename_i hnone
    unfold PhoneClient.handle
    split
    · rename_i type config htype hconfig
      exact (hnone type config htype hconfig).elim
    · rfl

/-- A piece of work. Kind: L -/
@[simp] theorem client_runWork (w : Stamped PhoneWork) (outcome : Outcome) :
    (s.runWork decode w outcome).client = s.client.runWork decode w outcome := by
  unfold runWork PhoneClient.runWork
  cases hvalue : w.value with
  | message m => exact client_handle m
  | serverLost reason => exact client_fail _
  | created config =>
      cases hmade : outcome.made with
      | true => rfl
      | false => exact client_fail _
  | channelClosed => exact client_fail _
  | offered config session =>
      dsimp only
      split
      · rfl
      · rename_i hnone
        rw [Option.not_isSome_iff_eq_none] at hnone
        unfold PhoneClient.onOffered
        rw [hnone]
        exact client_fail _
  | timeout session =>
      dsimp only
      split
      · exact client_fail _
      · rfl
  | opened => simp only [act]
  | transfer waiter => simp only [act]
  | item rest =>
      dsimp only [sendItem, act]
      split
      · rfl
      · rfl

/-- **The client goes where it would go**, but for an offer under a uuid that is taken. Kind: P -/
theorem map_client_step (hreuses : ¬ s.reuses e) :
    (s.step decode e).map client = s.client.step decode e := by
  unfold step
  rw [if_neg hreuses]
  cases e with
  | run i outcome =>
      simp only [PhoneClient.step, Option.map_map]
      congr 1
      funext w
      exact client_runWork w outcome
  | connect config valid => rfl
  | disconnect => rfl
  | _ =>
      simp only [Option.map_map]
      exact Option.map_id'

/-! ## What concerns an offer -/

/-- What happens next concerns an offer where nothing before did. Kind: L -/
theorem verdict_append {log : List OfferNotice} (h : .offered uuid ∈ log) (n : OfferNotice) :
    verdict uuid (log ++ [n]) = (verdict uuid log).or (n.concerns uuid) := by
  have hstored : (log.dropWhile fun n => n ≠ .offered uuid).isEmpty = false := by
    rw [List.isEmpty_eq_false_iff, ne_eq, List.dropWhile_eq_nil_iff]
    intro hall
    simpa using hall _ h
  unfold verdict
  rw [List.dropWhile_append, hstored, if_neg (by simp), List.findSome?_append,
    List.findSome?_singleton]

/-- Nothing concerns an offer at first. Kind: L -/
theorem verdict_offered {log : List OfferNotice} (h : .offered uuid ∉ log) :
    verdict uuid (log ++ [.offered uuid]) = none := by
  have hbefore : ∀ n ∈ log, (decide (n ≠ OfferNotice.offered uuid)) = true := by
    intro n hn
    rw [decide_eq_true_eq]
    rintro rfl
    exact h hn
  unfold verdict
  rw [List.dropWhile_append_of_pos hbefore]
  simp [OfferNotice.concerns]

/-- What holds of the continuations: those that are stored wait for the first event that concerns
them, and the others were resumed with what that says. Kind: D -/
structure Sound (s : AcceptWaiters) : Prop where
  once : (s.resumed.map Prod.fst).Nodup
  offered : ∀ uuid, uuid ∈ s.client.acceptWaiters → .offered uuid ∈ s.log
  waiting : ∀ uuid, .offered uuid ∈ s.log →
    (uuid ∈ s.client.acceptWaiters ↔ verdict uuid s.log = none)
  resumed : ∀ uuid value, (uuid, value) ∈ s.resumed ↔
    .offered uuid ∈ s.log ∧ verdict uuid s.log = some value
  unconfigured : s.client.config = none → s.client.acceptWaiters = ∅
  disconnected : s.log.getLast? = some .disconnected → s.client.acceptWaiters = ∅

/-- The client does something that concerns no offer. Kind: L -/
theorem Sound.act (hs : Sound s) (hwaiters : c.acceptWaiters = s.client.acceptWaiters)
    (hconfig : c.config = s.client.config) : Sound { s with client := c } := by
  refine ⟨hs.once, fun uuid => ?_, fun uuid => ?_, hs.resumed, fun hnone => ?_, fun hlast => ?_⟩
  · rw [hwaiters]
    exact hs.offered uuid
  · rw [hwaiters]
    exact hs.waiting uuid
  · rw [hwaiters]
    exact hs.unconfigured (hconfig ▸ hnone)
  · rw [hwaiters]
    exact hs.disconnected hlast

/-- A continuation that was resumed is not stored. Kind: L -/
theorem Sound.not_stored (hs : Sound s) (h : uuid ∈ s.resumed.map Prod.fst) :
    uuid ∉ s.client.acceptWaiters := by
  obtain ⟨⟨uuid, value⟩, hmem, rfl⟩ := List.mem_map.mp h
  obtain ⟨hoffered, hverdict⟩ := (hs.resumed uuid value).mp hmem
  rw [hs.waiting uuid hoffered, hverdict]
  simp

/-- After a disconnect, whatever follows it. Kind: L -/
theorem Sound.disconnect (hs : Sound s) (hc : c.acceptWaiters = ∅) :
    Sound ⟨c, s.resumed ++ s.client.acceptWaiters.keys.map fun uuid => (uuid, false),
      s.log ++ [.disconnected]⟩ := by
  have hlog : ∀ uuid, .offered uuid ∈ s.log ++ [OfferNotice.disconnected] ↔ .offered uuid ∈ s.log :=
    fun uuid => by simp
  have hverdict : ∀ uuid, .offered uuid ∈ s.log →
      verdict uuid (s.log ++ [.disconnected]) = (verdict uuid s.log).or (some false) :=
    fun uuid hoffered => verdict_append hoffered .disconnected
  refine ⟨?_, fun uuid hmem => ?_, fun uuid hoffered => ?_, fun uuid value => ?_, fun _ => hc,
    fun _ => hc⟩
  · have hkeys : s.client.acceptWaiters.keys.map (Prod.fst ∘ fun uuid => (uuid, false)) =
        s.client.acceptWaiters.keys := List.map_id _
    dsimp only
    rw [List.map_append, List.map_map, hkeys, List.nodup_append]
    refine ⟨hs.once, Std.ExtTreeMap.nodup_keys, fun uuid hresumed uuid' hstored heq => ?_⟩
    subst heq
    exact hs.not_stored hresumed (Std.ExtTreeMap.mem_keys.mp hstored)
  · rw [hc] at hmem
    exact (Std.ExtTreeMap.not_mem_empty hmem).elim
  · dsimp only at hoffered ⊢
    rw [hc, hverdict uuid ((hlog uuid).mp hoffered)]
    constructor
    · intro hmem
      exact (Std.ExtTreeMap.not_mem_empty hmem).elim
    · intro hnone
      cases hbefore : verdict uuid s.log with
      | none =>
          rw [hbefore] at hnone
          cases hnone
      | some value =>
          rw [hbefore] at hnone
          cases hnone
  · dsimp only
    rw [List.mem_append, hs.resumed, hlog]
    constructor
    · rintro (⟨hoffered, hresumed⟩ | hmem)
      · exact ⟨hoffered, by rw [hverdict uuid hoffered, hresumed, Option.some_or]⟩
      · obtain ⟨uuid', hstored, heq⟩ := List.mem_map.mp hmem
        obtain ⟨rfl, rfl⟩ := Prod.mk.inj heq
        rw [Std.ExtTreeMap.mem_keys] at hstored
        have hoffered := hs.offered _ hstored
        rw [hverdict _ hoffered, (hs.waiting _ hoffered).mp hstored]
        exact ⟨hoffered, rfl⟩
    · rintro ⟨hoffered, hnow⟩
      rw [hverdict uuid hoffered] at hnow
      cases hbefore : verdict uuid s.log with
      | some value' =>
          rw [hbefore, Option.some_or] at hnow
          exact Or.inl ⟨hoffered, hnow⟩
      | none =>
          rw [hbefore, Option.none_or] at hnow
          obtain rfl := Option.some.inj hnow
          have hstored := (hs.waiting uuid hoffered).mpr hbefore
          exact Or.inr (List.mem_map.mpr ⟨uuid, Std.ExtTreeMap.mem_keys.mpr hstored, rfl⟩)

/-- A failure is a disconnect, or nothing. Kind: L -/
theorem Sound.fail (hs : Sound s) (reason : Str) : Sound (s.fail reason) := by
  unfold AcceptWaiters.fail
  split
  · exact hs
  · exact hs.disconnect (c := { s.client.disconnect with state := .failed reason }) rfl

/-- An answer that no continuation waits for. Kind: L -/
theorem Sound.answer_absent (hs : Sound s) (h : uuid ∉ s.client.acceptWaiters) :
    Sound (s.notice [.answered uuid accepted]) := by
  have hverdict : ∀ uuid', .offered uuid' ∈ s.log →
      verdict uuid' (s.log ++ [.answered uuid accepted]) = verdict uuid' s.log := by
    intro uuid' hoffered
    rw [verdict_append hoffered]
    simp only [OfferNotice.concerns]
    split
    · rename_i hsame
      subst hsame
      cases hbefore : verdict uuid s.log with
      | none => exact absurd ((hs.waiting uuid hoffered).mpr hbefore) h
      | some value => rfl
    · rw [Option.or_none]
  have hlog : ∀ uuid', .offered uuid' ∈ s.log ++ [OfferNotice.answered uuid accepted] ↔
      .offered uuid' ∈ s.log := fun uuid' => by simp
  refine ⟨hs.once, fun uuid' hmem => (hlog uuid').mpr (hs.offered uuid' hmem),
    fun uuid' hoffered => ?_, fun uuid' value => ?_, hs.unconfigured, fun hlast => ?_⟩
  · have hbefore := (hlog uuid').mp hoffered
    dsimp only [notice]
    rw [hverdict uuid' hbefore]
    exact hs.waiting uuid' hbefore
  · dsimp only [notice]
    rw [hs.resumed, hlog]
    exact and_congr_right fun hoffered => by rw [hverdict uuid' hoffered]
  · simp [notice] at hlast

/-- An answer that a continuation waits for. Kind: L -/
theorem Sound.answer_stored (hs : Sound s) (h : uuid ∈ s.client.acceptWaiters)
    (hwaiters : c.acceptWaiters = s.client.acceptWaiters.erase uuid)
    (hconfig : c.config = s.client.config) :
    Sound ⟨c, s.resumed ++ [(uuid, accepted)], s.log ++ [.answered uuid accepted]⟩ := by
  have hoffered := hs.offered uuid h
  have hnone := (hs.waiting uuid hoffered).mp h
  have hlog : ∀ uuid', .offered uuid' ∈ s.log ++ [OfferNotice.answered uuid accepted] ↔
      .offered uuid' ∈ s.log := fun uuid' => by simp
  have hnow : verdict uuid (s.log ++ [.answered uuid accepted]) = some accepted := by
    rw [verdict_append hoffered, hnone]
    simp [OfferNotice.concerns]
  have hother : ∀ uuid', uuid' ≠ uuid → .offered uuid' ∈ s.log →
      verdict uuid' (s.log ++ [.answered uuid accepted]) = verdict uuid' s.log := by
    intro uuid' hne hbefore
    rw [verdict_append hbefore]
    simp only [OfferNotice.concerns, if_neg hne.symm, Option.or_none]
  have hmem : ∀ uuid', uuid' ∈ c.acceptWaiters ↔ uuid' ≠ uuid ∧ uuid' ∈ s.client.acceptWaiters := by
    intro uuid'
    rw [hwaiters, Std.ExtTreeMap.mem_erase, ne_eq, Std.LawfulEqCmp.compare_eq_iff_eq]
    exact and_congr_left fun _ => ne_comm
  refine ⟨?_, fun uuid' hstored => ?_, fun uuid' hstored => ?_, fun uuid' value => ?_, fun hnone => ?_,
    fun hlast => ?_⟩
  · dsimp only
    rw [List.map_append, List.nodup_append]
    refine ⟨hs.once, by simp, fun uuid' hresumed other hsingle heq => ?_⟩
    rw [heq, List.mem_singleton.mp hsingle] at hresumed
    exact hs.not_stored hresumed h
  · exact (hlog uuid').mpr (hs.offered uuid' ((hmem uuid').mp hstored).2)
  · have hbefore := (hlog uuid').mp hstored
    dsimp only
    rw [hmem]
    by_cases hsame : uuid' = uuid
    · subst hsame
      simp [hnow]
    · rw [hother uuid' hsame hbefore, ← hs.waiting uuid' hbefore]
      exact and_iff_right hsame
  · dsimp only
    rw [List.mem_append, hs.resumed, hlog]
    by_cases hsame : uuid' = uuid
    · subst hsame
      rw [hnow, hnone]
      simp [hoffered, eq_comm]
    · rw [List.mem_singleton, Prod.mk.injEq, or_iff_left fun h => hsame h.1]
      exact and_congr_right fun hbefore => by rw [hother uuid' hsame hbefore]
  · have hempty := hs.unconfigured (hconfig ▸ hnone)
    rw [hempty] at h
    exact (Std.ExtTreeMap.not_mem_empty h).elim
  · simp at hlast

/-- The continuation of an offer is stored. Kind: L -/
theorem Sound.offer (hs : Sound s) (h : .offered uuid ∉ s.log) {waiter : PhoneWaiter}
    {config : Stamped PhoneConfig}
    (hwaiters : c.acceptWaiters = s.client.acceptWaiters.insert uuid waiter)
    (hconfig : c.config = some config) :
    Sound ⟨c, s.resumed, s.log ++ [.offered uuid]⟩ := by
  have hlog : ∀ uuid', .offered uuid' ∈ s.log ++ [OfferNotice.offered uuid] ↔
      .offered uuid' ∈ s.log ∨ uuid' = uuid := fun uuid' => by simp
  have hbefore : ∀ uuid', .offered uuid' ∈ s.log →
      verdict uuid' (s.log ++ [.offered uuid]) = verdict uuid' s.log := by
    intro uuid' hoffered
    rw [verdict_append hoffered]
    exact Option.or_none
  have hnow := verdict_offered h
  have hmem : ∀ uuid', uuid' ∈ c.acceptWaiters ↔ uuid' = uuid ∨ uuid' ∈ s.client.acceptWaiters := by
    intro uuid'
    rw [hwaiters, Std.ExtTreeMap.mem_insert, Std.LawfulEqCmp.compare_eq_iff_eq]
    exact or_congr_left eq_comm
  refine ⟨hs.once, fun uuid' hstored => ?_, fun uuid' hoffered => ?_, fun uuid' value => ?_,
    fun hnone => ?_, fun hlast => ?_⟩
  · apply (hlog uuid').mpr
    exact ((hmem uuid').mp hstored).symm.imp_left (hs.offered uuid')
  · dsimp only at hoffered ⊢
    rw [hmem]
    by_cases hsame : uuid' = uuid
    · subst hsame
      simp [hnow]
    · have hearlier := ((hlog uuid').mp hoffered).resolve_right hsame
      rw [hbefore uuid' hearlier, ← hs.waiting uuid' hearlier]
      exact or_iff_right hsame
  · dsimp only
    rw [hs.resumed, hlog]
    by_cases hsame : uuid' = uuid
    · subst hsame
      simp [hnow, h]
    · rw [or_iff_left hsame]
      exact and_congr_right fun hearlier => by rw [hbefore uuid' hearlier]
  · rw [hconfig] at hnone
    cases hnone
  · simp at hlast

/-! ## What a step keeps -/

/-- What concerns no offer. Kind: D -/
def Same (c c' : PhoneClient) : Prop :=
  c'.acceptWaiters = c.acceptWaiters ∧ c'.config = c.config

/-- Sending. Kind: L -/
theorem same_send (c : PhoneClient) (config : ℕ) (session : Option ℕ) (message : PhoneOutbound) :
    Same c (c.send config session message) := by
  unfold PhoneClient.send
  split
  · exact ⟨rfl, rfl⟩
  · exact ⟨rfl, rfl⟩

/-- Advancing. Kind: L -/
theorem same_advance (c : PhoneClient) (config : Stamped PhoneConfig) :
    Same c (c.advanceIfPossible config) := by
  unfold PhoneClient.advanceIfPossible
  split
  · split
    · exact ⟨rfl, rfl⟩
    · exact ⟨rfl, rfl⟩
  · exact ⟨rfl, rfl⟩

/-- Telling the session of the other side. Kind: L -/
theorem same_tell (c : PhoneClient) (remote : PhoneRemote) : Same c (c.tell remote) := by
  unfold PhoneClient.tell
  split
  · exact ⟨rfl, rfl⟩
  · exact ⟨rfl, rfl⟩

/-- A message that concerns no offer, and of no peer that leaves. Kind: L -/
theorem same_handle {m : PhoneInbound} {type : Str} (htype : m.type = some type)
    (hleave : ¬(type = str "leave" ∨ type = str "peer_left"))
    (hfile : ¬(type = str "file_accept" ∨ type = str "file_reject")) :
    Same c (c.handle decode m) := by
  unfold PhoneClient.handle
  rw [htype]
  cases c.config with
  | none => exact ⟨rfl, rfl⟩
  | some config =>
      dsimp only
      rw [if_neg hleave, if_neg hfile]
      split
      · split
        · exact same_advance _ _
        · exact ⟨rfl, rfl⟩
      · split
        · split
          · exact same_tell _ _
          · exact ⟨rfl, rfl⟩
        · split
          · split
            · exact same_tell _ _
            · exact ⟨rfl, rfl⟩
          · exact ⟨rfl, rfl⟩

/-- A session that could be created. Kind: L -/
theorem same_onCreated (c : PhoneClient) (connection : ℕ) (config : Stamped PhoneConfig) :
    Same c (c.onCreated connection config true) := by
  unfold PhoneClient.onCreated
  rw [if_pos rfl]
  dsimp only
  split
  · exact ⟨rfl, rfl⟩
  · exact ⟨rfl, rfl⟩

/-- An offer that is there. Kind: L -/
theorem same_onOffered (c : PhoneClient) (connection : ℕ) (config : Stamped PhoneConfig)
    (session : PhoneSession) {outcome : Outcome}
    (h : outcome.encoded.isSome = true) :
    Same c (c.onOffered connection config session outcome) := by
  unfold PhoneClient.onOffered
  obtain ⟨offer, hoffer⟩ := Option.isSome_iff_exists.mp h
  rw [hoffer]
  exact same_send c _ _ _

/-- Doing what concerns no offer. Kind: L -/
theorem Sound.act_same (hs : Sound s) {f : PhoneClient → PhoneClient} (h : Same s.client (f s.client)) :
    Sound (s.act f) :=
  hs.act h.1 h.2

/-- A peer that leaves. Kind: L -/
theorem Sound.onLeave (hs : Sound s) (config : Stamped PhoneConfig) (room : Str) (peers : List Str)
    (peerId : Option Str) : Sound (s.onLeave config room peers peerId) := by
  have hrooms : Sound (s.act fun client =>
      { client with roomPeers := client.roomPeers.insert room (Std.ExtTreeSet.ofList peers) }) :=
    hs.act_same ⟨rfl, rfl⟩
  unfold AcceptWaiters.onLeave
  dsimp only
  split
  · exact hrooms.fail _
  · exact hrooms

/-- An answer. Kind: L -/
theorem Sound.onFileAnswer (hs : Sound s) (uuid : Str) (accepted : Bool) :
    Sound ((s.notice [.answered uuid accepted]).onFileAnswer uuid accepted) := by
  unfold AcceptWaiters.onFileAnswer
  split
  · rename_i hstored
    obtain ⟨waiter, hwaiter⟩ : ∃ waiter, s.client.acceptWaiters[uuid]? = some waiter :=
      Option.isSome_iff_exists.mp (Std.ExtTreeMap.mem_iff_isSome_getElem?.mp hstored)
    apply hs.answer_stored hstored
    · show (s.client.onFileAnswer uuid accepted).acceptWaiters = _
      unfold PhoneClient.onFileAnswer
      rw [hwaiter]
      dsimp only
      split
      · rfl
      · rfl
    · show (s.client.onFileAnswer uuid accepted).config = _
      unfold PhoneClient.onFileAnswer
      rw [hwaiter]
      dsimp only
      split
      · rfl
      · rfl
  · rename_i hstored
    exact hs.answer_absent hstored

/-- Nothing has happened. Kind: L -/
theorem notice_nil (s : AcceptWaiters) : s.notice [] = s := by
  unfold notice
  rw [List.append_nil]

/-- A message that says nothing of an offer. Kind: L -/
theorem notices_other {m : PhoneInbound} {type : Str} (htype : m.type = some type)
    (hfile : ¬(type = str "file_accept" ∨ type = str "file_reject")) : notices m = [] := by
  unfold notices
  rw [htype]
  cases m.uuid with
  | none => rfl
  | some uuid => exact if_neg hfile

/-- **A message keeps what holds of the continuations.** Kind: P -/
theorem Sound.handle (hs : Sound s) (m : PhoneInbound) : Sound (s.handle decode m) := by
  unfold AcceptWaiters.handle
  dsimp only
  split
  · rename_i type config htype hconfig
    split
    · rename_i hleave
      have hfile : ¬(type = str "file_accept" ∨ type = str "file_reject") := by
        rcases hleave with rfl | rfl
        · decide
        · decide
      rw [notices_other htype hfile, notice_nil]
      split
      · exact hs.onLeave _ _ _ _
      · exact hs
    · rename_i hleave
      split
      · rename_i hfile
        split
        · rename_i uuid huuid
          have hnotices : notices m = [.answered uuid (type = str "file_accept")] := by
            unfold notices
            rw [htype, huuid]
            exact if_pos hfile
          rw [hnotices]
          exact hs.onFileAnswer uuid _
        · rename_i huuid
          have hnotices : notices m = [] := by
            unfold notices
            rw [htype, huuid]
          rw [hnotices, notice_nil]
          exact hs
      · rename_i hfile
        rw [notices_other htype hfile, notice_nil]
        exact hs.act_same (same_handle htype hleave hfile)
  · rename_i hnone
    -- without a config no continuation is stored that the message could concern
    unfold notices
    split
    · rename_i type uuid htype huuid
      split
      · have hempty : s.client.acceptWaiters = ∅ := by
          apply hs.unconfigured
          cases hconfig : s.client.config with
          | none => rfl
          | some config => exact (hnone type config htype hconfig).elim
        apply hs.answer_absent
        rw [hempty]
        exact Std.ExtTreeMap.not_mem_empty
      · rw [notice_nil]
        exact hs
    · rw [notice_nil]
      exact hs

/-- An item keeps it, where its offer has a uuid of its own. Kind: L -/
theorem Sound.sendItem (hs : Sound s) (begun rest : ℕ) {outcome : Outcome}
    (hnew : (outcome.made && s.client.canOffer) = true → .offered outcome.uuid ∉ s.log) :
    Sound (s.sendItem begun rest outcome) := by
  unfold AcceptWaiters.sendItem
  dsimp only
  split
  · rename_i hoffer
    obtain ⟨config, client, hconfig, hsent⟩ := s.client.sendItem_of_offer begun rest hoffer
    obtain ⟨hwaiters, hsame⟩ := same_send
      { s.client with
        acceptWaiters := s.client.acceptWaiters.insert outcome.uuid ⟨begun, client, config, rest⟩ }
      config.connection none (.fileOffer outcome.uuid config.value.peerRoom config.value.peerName)
    rw [← hsent] at hwaiters hsame
    exact hs.offer (hnew hoffer) hwaiters (hsame.trans hconfig)
  · rename_i hoffer
    apply hs.act_same
    unfold PhoneClient.sendItem
    split
    · rw [if_neg hoffer]
      exact ⟨rfl, rfl⟩
    · exact ⟨rfl, rfl⟩

/-- Work keeps it, where an offer has a uuid of its own. Kind: L -/
theorem Sound.runWork (hs : Sound s) (w : Stamped PhoneWork) {outcome : Outcome}
    (hnew : ∀ rest, w.value = .item rest → (outcome.made && s.client.canOffer) = true →
      .offered outcome.uuid ∉ s.log) :
    Sound (s.runWork decode w outcome) := by
  unfold AcceptWaiters.runWork
  cases hvalue : w.value with
  | message m => exact hs.handle m
  | serverLost reason => exact hs.fail _
  | created config =>
      dsimp only
      split
      · exact hs.act_same (same_onCreated _ _ _)
      · exact hs.fail _
  | channelClosed => exact hs.fail _
  | offered config session =>
      dsimp only
      split
      · rename_i hoffer
        exact hs.act_same (same_onOffered _ _ _ _ hoffer)
      · exact hs.fail _
  | timeout session =>
      dsimp only
      split
      · exact hs.fail _
      · exact hs
  | opened =>
      apply hs.act_same
      unfold PhoneClient.runWork
      rw [hvalue]
      dsimp only
      split
      · exact ⟨rfl, rfl⟩
      · exact ⟨rfl, rfl⟩
  | transfer waiter =>
      apply hs.act_same
      unfold PhoneClient.runWork PhoneClient.onTransferred
      rw [hvalue]
      dsimp only
      split
      · exact ⟨rfl, rfl⟩
      · exact ⟨rfl, rfl⟩
  | item rest => exact hs.sendItem _ _ fun hoffer => hnew rest hvalue hoffer

/-- A new connection. Kind: L -/
theorem Sound.connect (hs : Sound s) (config : PhoneConfig) (valid : Bool) :
    Sound (s.connect config valid) := by
  apply hs.disconnect
  unfold PhoneClient.connect
  dsimp only
  split
  · rfl
  · rfl

/-- **Every step keeps what holds of the continuations.** Kind: P -/
theorem Sound.step (hs : Sound s) (h : s.step decode e = some s') : Sound s' := by
  unfold AcceptWaiters.step at h
  split at h
  · cases h
  rename_i hreuses
  cases e with
  | connect config valid =>
      cases h
      exact hs.connect config valid
  | disconnect =>
      cases h
      exact hs.disconnect rfl
  | pick rest =>
      cases h
      exact hs.act rfl rfl
  | receive client message =>
      obtain ⟨c, hc, rfl⟩ := Option.map_eq_some_iff.mp h
      simp only [PhoneClient.step] at hc
      split at hc
      · obtain rfl := Option.some.inj hc
        exact hs.act rfl rfl
      · cases hc
  | serverLost reason =>
      obtain ⟨c, hc, rfl⟩ := Option.map_eq_some_iff.mp h
      simp only [PhoneClient.step] at hc
      split at hc
      · obtain rfl := Option.some.inj hc
        exact hs.act rfl rfl
      · cases hc
  | opened =>
      obtain ⟨c, hc, rfl⟩ := Option.map_eq_some_iff.mp h
      obtain ⟨session, -, rfl⟩ := Option.map_eq_some_iff.mp hc
      exact hs.act rfl rfl
  | channelClosed =>
      obtain ⟨c, hc, rfl⟩ := Option.map_eq_some_iff.mp h
      obtain ⟨session, -, rfl⟩ := Option.map_eq_some_iff.mp hc
      exact hs.act rfl rfl
  | run i outcome =>
      obtain ⟨w, hw, rfl⟩ := Option.map_eq_some_iff.mp h
      have htaken : Sound (s.act fun client => { client with works := client.works.eraseIdx i }) :=
        hs.act_same ⟨rfl, rfl⟩
      refine htaken.runWork w fun rest hvalue hoffer hused => hreuses ?_
      obtain ⟨hmade, hcan⟩ := Bool.and_eq_true_iff.mp hoffer
      have hcan' : s.client.canOffer = true := hcan
      have hsame : .offered outcome.uuid ∈ s.log := hused
      simp only [reuses, hw, Option.any_some, hvalue, hmade, hcan', hsame, decide_true, Bool.and_self]

/-- Sound continuations are resumed once. Kind: L -/
theorem Sound.resumedOnce (hs : Sound s) : ResumedOnce s := by
  have hstored : ∀ uuid, .offered uuid ∈ s.log →
      (uuid ∈ s.client.acceptWaiters ↔ uuid ∉ s.resumed.map Prod.fst) := by
    intro uuid hoffered
    constructor
    · exact fun hmem hresumed => hs.not_stored hresumed hmem
    · intro hresumed
      apply (hs.waiting uuid hoffered).mpr
      cases hverdict : verdict uuid s.log with
      | none => rfl
      | some value =>
          have hmem := (hs.resumed uuid value).mpr ⟨hoffered, hverdict⟩
          exact absurd (List.mem_map_of_mem hmem) hresumed
  refine ⟨hs.once, fun uuid value hmem => ((hs.resumed uuid value).mp hmem).2, hstored,
    fun hlast => ⟨hs.disconnected hlast, fun uuid hoffered => ?_⟩⟩
  by_contra hresumed
  have hmem := (hstored uuid hoffered).mpr hresumed
  rw [hs.disconnected hlast] at hmem
  exact Std.ExtTreeMap.not_mem_empty hmem

/-- **A continuation is resumed once**, with what the first event that concerns its offer says, and
is stored until then, in every run. Kind: P -/
theorem resumed_once (decode : Str → Option Str) (es : List Event) :
    Runs.Always (step decode) ResumedOnce {} es := by
  have hsound : Runs.Always (step decode) Sound {} es := by
    apply Runs.always_of_invariant _ fun s e s' hs he => hs.step he
    refine ⟨List.nodup_nil, fun uuid hmem => ?_, fun uuid hmem => ?_, fun uuid value => ?_,
      fun _ => rfl, fun _ => rfl⟩
    · exact (Std.ExtTreeMap.not_mem_empty hmem).elim
    · cases hmem
    · simp
  exact hsound.imp _ fun s hs => hs.resumedOnce

-- Of two answers that contradict each other, the first one counts, and the disconnect has nothing left.
example : (Runs.run (step some) {} [
    .connect ⟨str "stun", str "me", str "r", str "b", str "r"⟩ true,
    .receive 1 {
      type := some (str "join")
      room := some (str "r")
      peers := some [str "me", str "b"]
      peerId := some (str "me") },
    .run 0 {}, .run 0 {}, .opened, .run 1 {}, .pick 0, .run 1 { uuid := str "u" },
    .receive 1 { type := some (str "file_accept"), uuid := some (str "u") },
    .receive 1 { type := some (str "file_reject"), uuid := some (str "u") },
    .run 1 {}, .run 1 {}, .disconnect]).map resumed = some [(str "u", true)] := by
  decide +kernel

end AcceptWaiters

end CloudNode
