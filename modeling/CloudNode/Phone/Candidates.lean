import CloudNode.Phone.Connections
import Mathlib.Data.List.Nodup
import Mathlib.Data.List.Perm.Basic

/-!
# Remote candidates of a session

Candidates can arrive before the answer. `addRemoteCandidate` holds them in `pendingRemote` until
`applyAnswer` has set the remote description; `applyAnswer` then takes the list and hands it over.
Both lock for their look at the flag and the list, and call the library outside of the lock, so that
any number of them may be anywhere in between.

A candidate is known by the call that passes it: the same text passed twice is two candidates.

* `RemoteCall` — where a running call is, with the candidates that it still has to hand over.
* `Sound.advance` — a step of a call keeps every candidate in one place.
* `applied_once` — no candidate is handed over twice or before a description is set, and all are
  when an answer has succeeded and every call has returned.
-/

namespace CloudNode

/-- A candidate, with the number of the call that passed it. Kind: D -/
structure RemoteCandidate where
  call : ℕ
  candidate : Str
  mid : Str
  deriving DecidableEq

/-- Where a call of `applyAnswer` or `addRemoteCandidate` is.
Source: `PeerSession.swift`, the functions named
Kind: D -/
inductive RemoteCall where
  /-- `applyAnswer`: `rtcSetRemoteDescription` is running. -/
  | describing (sdp : Str)
  /-- `applyAnswer`: it has succeeded; before the lock. -/
  | described
  /-- `applyAnswer`: behind the lock, with what is left of `queued`. -/
  | flushing (queued : List RemoteCandidate)
  /-- `addRemoteCandidate`: before the lock. -/
  | adding (candidate : RemoteCandidate)
  /-- `addRemoteCandidate`: behind the lock, before `rtcAddRemoteCandidate`. -/
  | handing (candidate : RemoteCandidate)
  | returned
  deriving DecidableEq

/-- A call of the library: one of `rtcSetRemoteDescription` that has returned, with whether it
succeeded, or one of `rtcAddRemoteCandidate` that has begun. Kind: D -/
inductive RtcCall where
  | setRemoteDescription (sdp : Str) (ok : Bool)
  | addRemoteCandidate (candidate : RemoteCandidate)
  deriving DecidableEq

/-- Source: `PeerSession.swift`, `PeerSession`, what concerns the other side. Kind: D -/
structure PeerSession where
  pendingRemote : List RemoteCandidate := []
  hasRemoteDescription : Bool := false
  /-- The calls, in the order in which they began. -/
  calls : List RemoteCall := []
  /-- The calls of the library, in their order. -/
  library : List RtcCall := []
  /-- The candidates that were passed. -/
  passed : List RemoteCandidate := []

/-- The candidates that a call has to hand over, or to hold. Kind: D -/
def RemoteCall.held : RemoteCall → List RemoteCandidate
  | .flushing queued => queued
  | .adding candidate | .handing candidate => [candidate]
  | _ => []

/-- A call has found, or made, the description set. Kind: D -/
def RemoteCall.hands : RemoteCall → Bool
  | .flushing _ | .handing _ => true
  | _ => false

/-- The candidate that a call of the library takes. Kind: D -/
def RtcCall.candidate? : RtcCall → Option RemoteCandidate
  | .addRemoteCandidate candidate => some candidate
  | _ => none

namespace PeerSession

/-- A call of the library. Kind: D -/
def log (s : PeerSession) (call : RtcCall) : PeerSession := { s with library := s.library ++ [call] }

/-- The next step of a call, and where that takes it. `ok` is what `rtcSetRemoteDescription`
answers.
Source: `PeerSession.swift`, `applyAnswer` and `addRemoteCandidate`
Kind: D -/
def advance (s : PeerSession) (ok : Bool) : RemoteCall → Option (PeerSession × RemoteCall)
  | .describing sdp =>
    some (s.log (.setRemoteDescription sdp ok), if ok then .described else .returned)
  | .described =>
    some ({ s with hasRemoteDescription := true, pendingRemote := [] }, .flushing s.pendingRemote)
  | .flushing [] => some (s, .returned)
  | .flushing (candidate :: rest) => some (s.log (.addRemoteCandidate candidate), .flushing rest)
  | .adding candidate =>
    if s.hasRemoteDescription then some (s, .handing candidate)
    else some ({ s with pendingRemote := s.pendingRemote ++ [candidate] }, .returned)
  | .handing candidate => some (s.log (.addRemoteCandidate candidate), .returned)
  | .returned => none

/-- What can happen: a call begins, or one goes on. Kind: D -/
inductive Event where
  | call (remote : PhoneRemote)
  | advance (k : ℕ) (ok : Bool)

/-- One step.
Source: `ConnectionManager.swift`, `handle`; `PeerSession.swift`
Kind: D -/
def step (s : PeerSession) : Event → Option PeerSession
  | .call (.answer sdp) => some { s with calls := s.calls ++ [.describing sdp] }
  | .call (.candidate candidate mid) => some { s with
      calls := s.calls ++ [.adding ⟨s.calls.length, candidate, mid⟩]
      passed := s.passed ++ [⟨s.calls.length, candidate, mid⟩] }
  | .advance k ok =>
    (s.calls[k]?).bind fun call => (s.advance ok call).map fun next =>
      { next.1 with calls := s.calls.set k next.2 }

/-! ## The property -/

/-- The candidates that were handed to `rtcAddRemoteCandidate`. Kind: D -/
def handed (s : PeerSession) : List RemoteCandidate := s.library.filterMap RtcCall.candidate?

/-- Some `rtcSetRemoteDescription` among these calls has succeeded. Kind: D -/
def Described (library : List RtcCall) : Prop :=
  ∃ sdp, RtcCall.setRemoteDescription sdp true ∈ library

/-- No candidate is handed over before the description is set. Kind: D -/
def Timely (library : List RtcCall) : Prop :=
  ∀ i candidate, library[i]? = some (.addRemoteCandidate candidate) → Described (library.take i)

/-- Candidates are applied exactly once and never early. Kind: D -/
structure AppliedOnce (s : PeerSession) : Prop where
  once : s.handed.Nodup
  passed : ∀ candidate ∈ s.handed, candidate ∈ s.passed
  timely : Timely s.library
  all : Described s.library → (∀ call ∈ s.calls, call = .returned) → s.handed.Perm s.passed

/-! ## What a step keeps -/

/-- A session whose calls hold, have handed over or have left behind every candidate once.
Kind: D -/
structure Sound (s : PeerSession) : Prop where
  kept : (s.calls.flatMap RemoteCall.held ++ s.pendingRemote ++ s.handed).Perm s.passed
  numbered : ∀ candidate ∈ s.passed, candidate.call < s.calls.length
  distinct : s.passed.Nodup
  flushed : s.hasRemoteDescription = true → s.pendingRemote = []
  noticed : Described s.library → s.hasRemoteDescription = true ∨ .described ∈ s.calls
  described : s.hasRemoteDescription = true ∨ .described ∈ s.calls → Described s.library
  hands : ∀ call ∈ s.calls, call.hands = true → s.hasRemoteDescription = true
  timely : Timely s.library

variable {s s' t : PeerSession} {call call' : RemoteCall} {e : Event} {k : ℕ} {ok : Bool}

/-- One more call of the library. Kind: L -/
theorem described_append (library : List RtcCall) (c : RtcCall) :
    Described (library ++ [c]) ↔ Described library ∨ ∃ sdp, c = .setRemoteDescription sdp true := by
  unfold Described
  simp only [List.mem_append, List.mem_singleton, exists_or, eq_comm]

/-- One more call of the library is timely where the description is set, or it needs none.
Kind: L -/
theorem Timely.append {library : List RtcCall} (h : Timely library) (c : RtcCall)
    (hc : ∀ candidate, c = .addRemoteCandidate candidate → Described library) :
    Timely (library ++ [c]) := by
  intro i candidate hi
  rcases Nat.lt_or_ge i library.length with hlt | hge
  · rw [List.getElem?_append_left hlt] at hi
    rw [List.take_append_of_le_length hlt.le]
    exact h i candidate hi
  · obtain ⟨rfl, hcandidate⟩ : i = library.length ∧ c = .addRemoteCandidate candidate := by
      rw [List.getElem?_append_right hge, List.getElem?_singleton] at hi
      split at hi
      · rename_i hzero
        exact ⟨by omega, Option.some.inj hi⟩
      · cases hi
    rw [List.take_left']
    · exact hc candidate hcandidate
    · rfl

/-- The calls with one of them apart. Kind: L -/
theorem held_set {calls : List RemoteCall} (hk : calls[k]? = some call) :
    ∃ rest, (calls.flatMap RemoteCall.held).Perm (call.held ++ rest) ∧
      ∀ call', ((calls.set k call').flatMap RemoteCall.held).Perm (call'.held ++ rest) := by
  obtain ⟨hlt, rfl⟩ := List.getElem?_eq_some_iff.mp hk
  refine ⟨(calls.eraseIdx k).flatMap RemoteCall.held, ?_, fun call' => ?_⟩
  · exact (List.getElem_cons_eraseIdx_perm hlt).symm.flatMap_right _
  · exact (List.set_perm_cons_eraseIdx hlt call').flatMap_right _

/-- Where a call has not moved, it still is. Kind: L -/
theorem mem_set_of_ne {calls : List RemoteCall} {other : RemoteCall} (hk : calls[k]? = some call)
    (hother : other ∈ calls) (hne : call ≠ other) : other ∈ calls.set k call' := by
  obtain ⟨j, hj⟩ := List.mem_iff_getElem?.mp hother
  have hjk : k ≠ j := by
    rintro rfl
    rw [hk] at hj
    exact hne (Option.some.inj hj)
  rw [List.mem_iff_getElem?]
  exact ⟨j, by rw [List.getElem?_set_ne hjk, hj]⟩

/-- **What a step of a call has to see to.** Kind: P -/
theorem Sound.move (hs : Sound s) (hk : s.calls[k]? = some call) (hpassed : t.passed = s.passed)
    (hmoves : ∀ c, call'.held.count c + t.pendingRemote.count c + t.handed.count c =
      call.held.count c + s.pendingRemote.count c + s.handed.count c)
    (hflushed : t.hasRemoteDescription = true → t.pendingRemote = [])
    (hstays : s.hasRemoteDescription = true → t.hasRemoteDescription = true)
    (hlibrary : Described s.library → Described t.library)
    (hnoticed : Described t.library → t.hasRemoteDescription = true ∨ call' = .described ∨
      Described s.library ∧ call ≠ .described)
    (hdescribed : t.hasRemoteDescription = true ∨ call' = .described → Described t.library)
    (hhands : call'.hands = true → t.hasRemoteDescription = true) (htimely : Timely t.library) :
    Sound { t with calls := s.calls.set k call' } := by
  obtain ⟨hlt, -⟩ := List.getElem?_eq_some_iff.mp hk
  constructor
  · obtain ⟨rest, hbefore, hafter⟩ := held_set hk
    show (_ ++ t.pendingRemote ++ t.handed).Perm t.passed
    rw [hpassed]
    refine (List.perm_iff_count.mpr fun c => ?_).trans hs.kept
    simp only [List.count_append, hbefore.count_eq, (hafter call').count_eq]
    have hcount := hmoves c
    omega
  · intro candidate hcandidate
    show candidate.call < (s.calls.set k call').length
    rw [List.length_set]
    exact hs.numbered candidate (hpassed ▸ hcandidate)
  · exact hpassed ▸ hs.distinct
  · exact hflushed
  · intro hlibrary
    rcases hnoticed hlibrary with hhas | rfl | ⟨hbefore, hne⟩
    · exact Or.inl hhas
    · exact Or.inr (List.mem_set hlt _)
    · exact (hs.noticed hbefore).imp hstays fun hmem => mem_set_of_ne hk hmem hne
  · rintro (hhas | hmem)
    · exact hdescribed (Or.inl hhas)
    · rcases List.mem_or_eq_of_mem_set hmem with hmem | heq
      · exact hlibrary (hs.described (Or.inr hmem))
      · exact hdescribed (Or.inr heq.symm)
  · intro other hmem hother
    rcases List.mem_or_eq_of_mem_set hmem with hmem | rfl
    · exact hstays (hs.hands other hmem hother)
    · exact hhands hother
  · exact htimely

/-- A candidate that is handed over. Kind: L -/
theorem handed_log (s : PeerSession) (c : RtcCall) :
    (s.log c).handed = s.handed ++ c.candidate?.toList := by
  unfold handed log
  rw [List.filterMap_append]
  cases hcandidate : c.candidate? with
  | none => simp [hcandidate]
  | some candidate => simp [hcandidate]

/-- A call of the library that sets no description. Kind: L -/
theorem described_log {c : RtcCall} (hc : ∀ sdp, c ≠ .setRemoteDescription sdp true) :
    Described (s.log c).library ↔ Described s.library := by
  unfold log
  rw [described_append]
  exact or_iff_left fun ⟨sdp, hsdp⟩ => hc sdp hsdp

/-- A call hands a candidate over. Kind: L -/
theorem Sound.hand (hs : Sound s) (hk : s.calls[k]? = some call) (hcall : call.hands = true)
    {candidate : RemoteCandidate} (hheld : call.held = candidate :: call'.held) :
    Sound { s.log (.addRemoteCandidate candidate) with calls := s.calls.set k call' } := by
  have hhas : s.hasRemoteDescription = true :=
    hs.hands call (List.mem_of_getElem? hk) hcall
  have hlibrary : Described (s.log (.addRemoteCandidate candidate)).library ↔ Described s.library :=
    described_log (by simp)
  apply hs.move (t := s.log (.addRemoteCandidate candidate)) hk rfl
  · intro c
    rw [handed_log, hheld, List.count_cons, List.count_append]
    simp only [RtcCall.candidate?, Option.toList_some, List.count_singleton, log]
    omega
  · exact hs.flushed
  · exact id
  · exact hlibrary.mpr
  · exact fun _ => Or.inl hhas
  · exact fun _ => hlibrary.mpr (hs.described (Or.inl hhas))
  · exact fun _ => hhas
  · exact hs.timely.append _ fun _ _ => hs.described (Or.inl hhas)

/-- `rtcSetRemoteDescription` returns. Kind: L -/
theorem Sound.describe (hs : Sound s) {sdp : Str} (hk : s.calls[k]? = some (.describing sdp)) :
    Sound { s.log (.setRemoteDescription sdp ok) with
      calls := s.calls.set k (if ok then .described else .returned) } := by
  have hlibrary : Described s.library → Described (s.log (.setRemoteDescription sdp ok)).library :=
    fun h => (described_append _ _).mpr (Or.inl h)
  apply hs.move (t := s.log (.setRemoteDescription sdp ok)) hk rfl
  · intro c
    have hheld : (if ok then RemoteCall.described else .returned).held = [] := by
      cases ok with
      | true => rfl
      | false => rfl
    rw [handed_log, hheld]
    simp [RtcCall.candidate?, RemoteCall.held, log]
  · exact hs.flushed
  · exact id
  · exact hlibrary
  · intro hafter
    rcases (described_append _ _).mp hafter with hbefore | ⟨sdp', hset⟩
    · exact Or.inr (Or.inr ⟨hbefore, by simp⟩)
    · have hok : ok = true := by
        rw [RtcCall.setRemoteDescription.injEq] at hset
        exact hset.2
      exact Or.inr (Or.inl (if_pos hok))
  · rintro (hhas | hset)
    · exact hlibrary (hs.described (Or.inl hhas))
    · have hok : ok = true := by
        by_contra hok
        rw [if_neg hok] at hset
        cases hset
      exact (described_append _ _).mpr (Or.inr ⟨sdp, by rw [hok]⟩)
  · intro hhands
    split at hhands
    · cases hhands
    · cases hhands
  · exact hs.timely.append _ (by simp)

/-- `applyAnswer` locks. Kind: L -/
theorem Sound.flush (hs : Sound s) (hk : s.calls[k]? = some .described) :
    Sound { s with
      hasRemoteDescription := true
      pendingRemote := []
      calls := s.calls.set k (.flushing s.pendingRemote) } := by
  have hset : Described s.library := hs.described (Or.inr (List.mem_of_getElem? hk))
  apply hs.move (t := { s with hasRemoteDescription := true, pendingRemote := [] }) hk rfl
  · intro c
    simp only [RemoteCall.held, List.count_nil, handed]
    omega
  · exact fun _ => rfl
  · exact fun _ => rfl
  · exact id
  · exact fun _ => Or.inl rfl
  · exact fun _ => hset
  · exact fun _ => rfl
  · exact hs.timely

/-- `addRemoteCandidate` locks before the description is set. Kind: L -/
theorem Sound.hold (hs : Sound s) {candidate : RemoteCandidate}
    (hk : s.calls[k]? = some (.adding candidate)) (hhas : s.hasRemoteDescription = false) :
    Sound { s with
      pendingRemote := s.pendingRemote ++ [candidate]
      calls := s.calls.set k .returned } := by
  apply hs.move (t := { s with pendingRemote := s.pendingRemote ++ [candidate] }) hk rfl
  · intro c
    simp only [RemoteCall.held, List.count_nil, List.count_append, handed]
    omega
  · intro h
    rw [hhas] at h
    cases h
  · exact id
  · exact id
  · exact fun hset => Or.inr (Or.inr ⟨hset, by simp⟩)
  · exact fun h => hs.described (h.imp_right fun h => by cases h)
  · intro h
    cases h
  · exact hs.timely

/-- A call goes on with what it has. Kind: L -/
theorem Sound.go (hs : Sound s) (hk : s.calls[k]? = some call) (hheld : call'.held = call.held)
    (hne : call ≠ .described) (hne' : call' ≠ .described)
    (hhands : call'.hands = true → s.hasRemoteDescription = true) :
    Sound { s with calls := s.calls.set k call' } := by
  apply hs.move (t := s) hk rfl
  · intro c
    rw [hheld]
  · exact hs.flushed
  · exact id
  · exact id
  · exact fun hset => Or.inr (Or.inr ⟨hset, hne⟩)
  · exact fun h => hs.described (h.imp_right fun h => absurd h hne')
  · exact hhands
  · exact hs.timely

/-- **A step of a call keeps every candidate in one place.** Kind: P -/
theorem Sound.advance (hs : Sound s) (hk : s.calls[k]? = some call)
    (h : s.advance ok call = some (t, call')) : Sound { t with calls := s.calls.set k call' } := by
  cases call with
  | describing sdp =>
      cases h
      exact hs.describe hk
  | described =>
      cases h
      exact hs.flush hk
  | flushing queued =>
      cases queued with
      | nil =>
          cases h
          exact hs.go hk rfl (by simp) (by simp) (by simp [RemoteCall.hands])
      | cons candidate rest =>
          cases h
          exact hs.hand hk rfl rfl
  | adding candidate =>
      simp only [PeerSession.advance] at h
      split at h
      · rename_i hhas
        cases h
        exact hs.go hk rfl (by simp) (by simp) fun _ => hhas
      · rename_i hhas
        cases h
        exact hs.hold hk (by simpa using hhas)
  | handing candidate =>
      cases h
      exact hs.hand hk rfl rfl
  | returned => cases h

/-- A call begins. Kind: L -/
theorem Sound.start (hs : Sound s) {remote : PhoneRemote} (h : s.step (.call remote) = some s') :
    Sound s' := by
  have hnumbered : ∀ candidate ∈ s.passed, ∀ call, candidate.call < (s.calls ++ [call]).length := by
    intro candidate hcandidate call
    rw [List.length_append]
    exact Nat.lt_add_right _ (hs.numbered candidate hcandidate)
  have hdescribed : ∀ call, call ≠ .described →
      (RemoteCall.described ∈ s.calls ++ [call] ↔ .described ∈ s.calls) := by
    intro call hcall
    rw [List.mem_append, List.mem_singleton, or_iff_left (Ne.symm hcall)]
  have hhands : ∀ call, call.hands = false → ∀ other ∈ s.calls ++ [call], other.hands = true →
      s.hasRemoteDescription = true := by
    intro call hcall other hmem hother
    rcases List.mem_append.mp hmem with hmem | hmem
    · exact hs.hands other hmem hother
    · rw [List.mem_singleton.mp hmem, hcall] at hother
      cases hother
  cases remote with
  | answer sdp =>
      cases h
      refine ⟨?_, fun c hc => hnumbered c hc _, hs.distinct, hs.flushed, ?_, ?_, hhands _ rfl,
        hs.timely⟩
      · show ((s.calls ++ [_]).flatMap _ ++ s.pendingRemote ++ s.handed).Perm s.passed
        rw [List.flatMap_append]
        simpa [RemoteCall.held] using hs.kept
      · exact fun hset => (hs.noticed hset).imp_right (hdescribed _ (by simp)).mpr
      · exact fun hset => hs.described (hset.imp_right (hdescribed _ (by simp)).mp)
  | candidate candidate mid =>
      cases h
      refine ⟨?_, ?_, ?_, hs.flushed, ?_, ?_, hhands _ rfl, hs.timely⟩
      · show ((s.calls ++ [_]).flatMap _ ++ s.pendingRemote ++ s.handed).Perm (s.passed ++ [_])
        refine (List.perm_iff_count.mpr fun c => ?_).trans (hs.kept.append_right _)
        simp only [List.flatMap_append, List.flatMap_singleton, List.count_append, RemoteCall.held]
        omega
      · intro c hc
        rcases List.mem_append.mp hc with hc | hc
        · exact hnumbered c hc _
        · rw [List.mem_singleton.mp hc]
          simp
      · show (s.passed ++ [_]).Nodup
        rw [List.nodup_append]
        refine ⟨hs.distinct, by simp, fun c hc c' hc' heq => ?_⟩
        have hlt := hs.numbered c hc
        rw [heq, List.mem_singleton.mp hc'] at hlt
        simp at hlt
      · exact fun hset => (hs.noticed hset).imp_right (hdescribed _ (by simp)).mpr
      · exact fun hset => hs.described (hset.imp_right (hdescribed _ (by simp)).mp)

/-- Every step keeps a session sound. Kind: L -/
theorem Sound.step (hs : Sound s) (h : s.step e = some s') : Sound s' := by
  cases e with
  | call remote => exact hs.start h
  | advance k ok =>
      obtain ⟨call, hk, hmap⟩ := Option.bind_eq_some_iff.mp h
      obtain ⟨⟨t, call'⟩, hadvance, rfl⟩ := Option.map_eq_some_iff.mp hmap
      exact hs.advance hk hadvance

/-- A sound session applies candidates once. Kind: L -/
theorem Sound.appliedOnce (hs : Sound s) : AppliedOnce s := by
  have hnodup := hs.kept.nodup_iff.mpr hs.distinct
  refine ⟨(List.nodup_append.mp hnodup).2.1, fun candidate hcandidate => ?_, hs.timely, ?_⟩
  · exact hs.kept.subset (List.mem_append_right _ hcandidate)
  · intro hset hreturned
    have hheld : s.calls.flatMap RemoteCall.held = [] := by
      rw [List.flatMap_eq_nil_iff]
      intro call hcall
      rw [hreturned call hcall]
      rfl
    have hhas : s.hasRemoteDescription = true := by
      apply (hs.noticed hset).resolve_right
      intro hmem
      cases hreturned _ hmem
    have hkept := hs.kept
    rw [hheld, hs.flushed hhas] at hkept
    exact hkept

/-- **Remote candidates are applied exactly once and never early**, whatever the order in which the
calls of `applyAnswer` and `addRemoteCandidate` go on. Kind: P -/
theorem applied_once (es : List Event) : Runs.Always step AppliedOnce {} es := by
  have hsound : Runs.Always step Sound {} es := by
    apply Runs.always_of_invariant _ fun s e s' hs he => hs.step he
    refine ⟨List.Perm.refl _, ?_, List.nodup_nil, fun _ => rfl, ?_, ?_, ?_, ?_⟩
    · intro candidate hcandidate
      cases hcandidate
    · rintro ⟨sdp, hset⟩
      cases hset
    · rintro (hhas | hmem)
      · cases hhas
      · cases hmem
    · intro call hcall
      cases hcall
    · intro i candidate hi
      cases hi
  exact hsound.imp _ fun s hs => hs.appliedOnce

-- A candidate comes before the answer, another one while the answer is being applied.
example : (Runs.run step {} [.call (.candidate (str "c") (str "0")), .call (.answer (str "s")),
    .advance 0 true, .advance 1 true, .call (.candidate (str "d") (str "0")), .advance 1 true,
    .advance 2 true, .advance 2 true, .advance 1 true]).map handed =
      some [⟨2, str "d", str "0"⟩, ⟨0, str "c", str "0"⟩] := by decide

end PeerSession

end CloudNode
