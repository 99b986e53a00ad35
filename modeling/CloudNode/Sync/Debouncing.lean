import CloudNode.Sync.Watching
import Mathlib.Data.Int.Notation

/-!
# When changes are delivered

`Notify` queues a path with a change, merges it with a change that the path is queued with, and sets
one deadline for the whole queue. `FlushIfQuiet` hands the queue over once the deadline has passed.
The watcher's thread calls both, so a history is a list of calls with the clock's time at each.
There is a callback, and it and the timeout stay what they are.

* `notify`, `flushIfQuiet` — the two calls.
* `LastDelivery` — where a history splits: at its latest call that delivered something.
* `getElem?_pending` — what a path is queued with is the merge of its changes since then.
* `delivers_exactly` — when a flush delivers, what it delivers, and what it leaves.
* `netChange_iff` — when the change that is delivered is the net change since the delivery before.
-/

namespace CloudNode

/-- The part of the watcher that waits for a quiet period; the clock counts from any moment on.
Source: `FileWatcher.hpp`, `m_pending` and `m_deadline`
Kind: D -/
structure FileWatcher where
  pending : Std.ExtTreeMap Location FileChange := ∅
  deadline : ℤ := 0

namespace FileWatcher

/-- What the watcher's thread calls. Kind: D -/
inductive Act where
  | notify (path : Location) (change : FileChange)
  | flushIfQuiet
  deriving DecidableEq

/-- A call, with the time it reads off the clock. Kind: D -/
structure Call where
  time : ℤ
  act : Act
  deriving DecidableEq

/-- Source: `FileWatcher.cpp`, `Notify`. Kind: D -/
def notify (w : FileWatcher) (timeout now : ℤ) (path : Location) (change : FileChange) :
    FileWatcher where
  pending := w.pending.insert path (Mirror.coalesce w.pending[path]? change)
  deadline := now + timeout

/-- The watcher after the call, and what it passed to the callback.
Source: `FileWatcher.cpp`, `FlushIfQuiet`
Kind: D -/
def flushIfQuiet (w : FileWatcher) (now : ℤ) : FileWatcher × List (Location × FileChange) :=
  if w.pending.isEmpty = true ∨ now < w.deadline then (w, [])
  else ({ w with pending := ∅ }, w.pending.toList)

/-- One call. Kind: D -/
def call (timeout : ℤ) (w : FileWatcher) (c : Call) :
    FileWatcher × List (Location × FileChange) :=
  match c.act with
  | .notify path change => (w.notify timeout c.time path change, [])
  | .flushIfQuiet => w.flushIfQuiet c.time

/-- The watcher after some calls. Kind: D -/
def after (timeout : ℤ) (w : FileWatcher) (calls : List Call) : FileWatcher :=
  calls.foldl (fun w c => (w.call timeout c).1) w

/-- What a call delivers when it comes after some others, from the start on. Kind: D -/
def delivered (timeout : ℤ) (calls : List Call) (c : Call) : List (Location × FileChange) :=
  ((after timeout {} calls).call timeout c).2

/-- The changes that some calls notify of a path, in order. Kind: D -/
def changesOf (path : Location) (calls : List Call) : List FileChange :=
  calls.filterMap fun c =>
    match c.act with
    | .notify q change => if q = path then some change else none
    | .flushIfQuiet => none

/-- Whether a call is one of `Notify`. Kind: D -/
def Call.notifies (c : Call) : Bool :=
  match c.act with
  | .notify _ _ => true
  | .flushIfQuiet => false

/-- Of the calls `earlier ++ since`, the last one of `earlier` delivered something, or there is
none, and none of `since` delivered anything. Kind: D -/
structure LastDelivery (timeout : ℤ) (earlier since : List Call) : Prop where
  starts : earlier = [] ∨ ∃ calls c, earlier = calls ++ [c] ∧ delivered timeout calls c ≠ []
  nothing : ∀ calls c rest, since = calls ++ c :: rest →
    delivered timeout (earlier ++ calls) c = []

variable {timeout : ℤ} {w : FileWatcher} {calls earlier since : List Call} {c : Call}
  {path : Location} {t : ℤ}

/-! ## Calls -/

/-- A call after some calls. Kind: L -/
theorem after_concat : after timeout w (calls ++ [c]) = ((after timeout w calls).call timeout c).1 := by
  rw [after, List.foldl_append]
  rfl

/-- The changes of a path, one call at a time. Kind: L -/
theorem changesOf_concat : changesOf path (calls ++ [c]) =
    changesOf path calls ++ changesOf path [c] := by
  rw [changesOf, List.filterMap_append]
  rfl

/-- **Every history splits at its latest delivery.** Kind: P -/
theorem exists_lastDelivery (timeout : ℤ) (calls : List Call) :
    ∃ earlier since, calls = earlier ++ since ∧ LastDelivery timeout earlier since := by
  induction calls using List.reverseRecOn with
  | nil =>
      refine ⟨[], [], rfl, .inl rfl, fun calls c rest h => ?_⟩
      exact absurd h.symm (by simp)
  | append_singleton calls c ih =>
      by_cases hnone : delivered timeout calls c = []
      · obtain ⟨earlier, since, rfl, hstarts, hnothing⟩ := ih
        refine ⟨earlier, since ++ [c], List.append_assoc .., hstarts, ?_⟩
        intro before c' rest hsplit
        rcases List.eq_nil_or_concat rest with rfl | ⟨front, last, rfl⟩
        · obtain ⟨rfl, hc⟩ := List.append_inj' hsplit rfl
          obtain ⟨rfl, -⟩ := List.cons.inj hc
          exact hnone
        · rw [List.concat_eq_append, ← List.cons_append, ← List.append_assoc] at hsplit
          obtain ⟨hfront, -⟩ := List.append_inj' hsplit rfl
          exact hnothing before c' front hfront
      · refine ⟨calls ++ [c], [], (List.append_nil _).symm, .inr ⟨calls, c, rfl, hnone⟩, ?_⟩
        intro before c' rest hsplit
        exact absurd hsplit.symm (by simp)

/-! ## What a flush does -/

/-- A flush that delivers hands over the whole queue, after the deadline. Kind: L -/
theorem flushIfQuiet_of_ne_nil (h : (w.flushIfQuiet t).2 ≠ []) :
    w.deadline ≤ t ∧ (w.flushIfQuiet t).2 = w.pending.toList ∧ (w.flushIfQuiet t).1.pending = ∅ := by
  unfold flushIfQuiet at h ⊢
  by_cases hwait : w.pending.isEmpty = true ∨ t < w.deadline
  · rw [if_pos hwait] at h
    exact absurd rfl h
  · rw [if_neg hwait]
    obtain ⟨-, hlate⟩ := not_or.mp hwait
    exact ⟨Int.not_lt.mp hlate, rfl, rfl⟩

/-- A flush that does not deliver does nothing. Kind: L -/
theorem flushIfQuiet_of_eq_nil (h : (w.flushIfQuiet t).2 = []) : (w.flushIfQuiet t).1 = w := by
  unfold flushIfQuiet at h ⊢
  by_cases hwait : w.pending.isEmpty = true ∨ t < w.deadline
  · rw [if_pos hwait]
  · rw [if_neg hwait] at h
    rw [Std.ExtTreeMap.toList_eq_nil_iff] at h
    exact absurd (.inl (Std.ExtTreeMap.isEmpty_iff.mpr h)) hwait

/-- A flush at or after the deadline leaves nothing. Kind: L -/
theorem pending_of_deadline_le (h : w.deadline ≤ t) : (w.flushIfQuiet t).1.pending = ∅ := by
  unfold flushIfQuiet
  by_cases hempty : w.pending.isEmpty = true
  · rw [if_pos (.inl hempty)]
    exact Std.ExtTreeMap.isEmpty_iff.mp hempty
  · rw [if_neg (not_or.mpr ⟨hempty, Int.not_lt.mpr h⟩)]

/-! ## What is queued -/

/-- What a path is queued with after some changes of it. Kind: D -/
def merged (changes : List FileChange) : Option FileChange :=
  changes.foldl (fun previous change => some (Mirror.coalesce previous change)) none

/-- One more change. Kind: L -/
theorem merged_concat (changes : List FileChange) (change : FileChange) :
    merged (changes ++ [change]) = some (Mirror.coalesce (merged changes) change) := by
  rw [merged, List.foldl_append]
  rfl

/-- Nothing is queued after a call that delivered something, nor at the start. Kind: L -/
theorem LastDelivery.pending_eq (h : LastDelivery timeout earlier since) :
    (after timeout {} earlier).pending = ∅ := by
  rcases h.starts with rfl | ⟨calls, c, rfl, hdelivered⟩
  · rfl
  · rw [after_concat]
    unfold delivered at hdelivered
    unfold call at hdelivered ⊢
    cases hact : c.act with
    | notify path change =>
        rw [hact] at hdelivered
        exact absurd rfl hdelivered
    | flushIfQuiet =>
        rw [hact] at hdelivered
        exact (flushIfQuiet_of_ne_nil hdelivered).2.2

/-- **What a path is queued with**: the merge of its changes since the latest delivery. Kind: P -/
theorem getElem?_pending (h : LastDelivery timeout earlier since) (path : Location) :
    (after timeout {} (earlier ++ since)).pending[path]? = merged (changesOf path since) := by
  obtain ⟨hstarts, hnothing⟩ := h
  induction since using List.reverseRecOn with
  | nil =>
      rw [List.append_nil, LastDelivery.pending_eq ⟨hstarts, hnothing⟩,
        Std.ExtTreeMap.getElem?_empty]
      rfl
  | append_singleton since c ih =>
      have hnow := hnothing since c [] rfl
      have hpending := ih fun calls c' rest hsplit =>
        hnothing calls c' (rest ++ [c]) (by rw [hsplit, List.append_assoc, List.cons_append])
      rw [← List.append_assoc, after_concat, changesOf_concat]
      unfold delivered at hnow
      unfold call at hnow ⊢
      cases hact : c.act with
      | notify q change =>
          simp only [notify]
          by_cases hq : q = path
          · subst hq
            rw [getElem?_insert_same, hpending, show changesOf q [c] = [change] by
              simp [changesOf, hact], merged_concat]
          · rw [getElem?_insert_ne _ _ hq, hpending, show changesOf path [c] = [] by
              simp [changesOf, hact, hq], List.append_nil]
      | flushIfQuiet =>
          rw [hact] at hnow
          simp only [flushIfQuiet_of_eq_nil hnow]
          rw [hpending, show changesOf path [c] = [] by simp [changesOf, hact], List.append_nil]

/-- A path that is queued was notified. Kind: L -/
theorem merged_eq_none_iff {changes : List FileChange} : merged changes = none ↔ changes = [] := by
  rcases List.eq_nil_or_concat changes with rfl | ⟨front, change, rfl⟩
  · exact ⟨fun _ => rfl, fun _ => rfl⟩
  · rw [List.concat_eq_append, merged_concat]
    exact ⟨fun h => (Option.some_ne_none _ h).elim, fun h => absurd h (by simp)⟩

/-- A path is queued as removed where its last change was that. Kind: L -/
theorem merged_eq_removed_iff {changes : List FileChange} :
    merged changes = some .removed ↔ changes.getLast? = some .removed := by
  rcases List.eq_nil_or_concat changes with rfl | ⟨front, change, rfl⟩
  · exact ⟨fun h => h, fun h => h⟩
  · rw [List.concat_eq_append, merged_concat, List.getLast?_append, List.getLast?_singleton,
      Option.some_or, Option.some.injEq, Option.some.injEq]
    constructor
    · intro h
      by_contra hchange
      exact Mirror.coalesce_ne_removed hchange _ h
    · rintro rfl
      exact Mirror.coalesce_removed _

/-! ## The deadline -/

/-- A flush leaves the deadline as it is. Kind: L -/
theorem flushIfQuiet_deadline : (w.flushIfQuiet t).1.deadline = w.deadline := by
  unfold flushIfQuiet
  split <;> rfl

/-- **No call of `Notify` is further back than the deadline tells.** Kind: P -/
theorem le_deadline (timeout : ℤ) (hmono : (calls.map Call.time).Pairwise (· ≤ ·)) :
    ∀ c ∈ calls, c.notifies = true → c.time + timeout ≤ (after timeout {} calls).deadline := by
  induction calls using List.reverseRecOn with
  | nil => exact fun c hc => absurd hc List.not_mem_nil
  | append_singleton calls last ih =>
      rw [List.map_append, List.pairwise_append] at hmono
      obtain ⟨hbefore, -, hlater⟩ := hmono
      rw [after_concat]
      unfold call
      intro c hc hnotifies
      rcases List.mem_append.mp hc with hc | hc
      · cases hact : last.act with
        | notify path change =>
            have htime := hlater _ (List.mem_map_of_mem hc) last.time (List.mem_singleton.mpr rfl)
            show c.time + timeout ≤ last.time + timeout
            omega
        | flushIfQuiet =>
            rw [flushIfQuiet_deadline]
            exact ih hbefore c hc hnotifies
      · obtain rfl := List.mem_singleton.mp hc
        cases hact : c.act with
        | notify path change => exact Int.le_refl _
        | flushIfQuiet =>
            rw [Call.notifies, hact] at hnotifies
            exact absurd hnotifies Bool.false_ne_true

/-- Where something is queued, the deadline comes from a call of `Notify`. Kind: L -/
theorem deadline_of_pending (timeout : ℤ) (calls : List Call) :
    (after timeout {} calls).pending = ∅ ∨
      ∃ c ∈ calls, c.notifies = true ∧ (after timeout {} calls).deadline = c.time + timeout := by
  induction calls using List.reverseRecOn with
  | nil => exact .inl rfl
  | append_singleton calls last ih =>
      rw [after_concat]
      unfold call
      cases hact : last.act with
      | notify path change =>
          refine .inr ⟨last, List.mem_append_right _ (List.mem_singleton.mpr rfl), ?_, rfl⟩
          rw [Call.notifies, hact]
      | flushIfQuiet =>
          by_cases hnone : ((after timeout {} calls).flushIfQuiet last.time).2 = []
          · simp only [flushIfQuiet_of_eq_nil hnone]
            rcases ih with hempty | ⟨c, hc, hnotifies, hdeadline⟩
            · exact .inl hempty
            · exact .inr ⟨c, List.mem_append_left _ hc, hnotifies, hdeadline⟩
          · exact .inl (flushIfQuiet_of_ne_nil hnone).2.2

/-! ## Every delivery -/

/-- What is owed when a call comes after `earlier ++ since`, split at the latest delivery.
Kind: D -/
structure Exact (timeout : ℤ) (earlier since : List Call) (c : Call) : Prop where
  /-- It delivers only when every call of `Notify` is a timeout ago, and is then a flush. -/
  quiet : delivered timeout (earlier ++ since) c ≠ [] →
    c.act = .flushIfQuiet ∧
      ∀ c' ∈ earlier ++ since, c'.notifies = true → c'.time + timeout ≤ c.time
  /-- It delivers the paths that were notified since. -/
  paths : delivered timeout (earlier ++ since) c ≠ [] → ∀ path,
    path ∈ (delivered timeout (earlier ++ since) c).map Prod.fst ↔ changesOf path since ≠ []
  once : ((delivered timeout (earlier ++ since) c).map Prod.fst).Nodup
  removed : ∀ path change, (path, change) ∈ delivered timeout (earlier ++ since) c →
    (change = .removed ↔ (changesOf path since).getLast? = some .removed)
  /-- A flush a timeout after the latest call of `Notify` leaves nothing pending. -/
  drained : c.act = .flushIfQuiet →
    (∀ c' ∈ earlier ++ since, c'.notifies = true → c'.time + timeout ≤ c.time) →
      (after timeout {} (earlier ++ since ++ [c])).pending = ∅

/-- What is delivered is nothing, or it is the queue and the call is a flush. Kind: L -/
theorem delivered_cases (timeout : ℤ) (calls : List Call) (c : Call) :
    delivered timeout calls c = [] ∨
      (c.act = .flushIfQuiet ∧ (after timeout {} calls).deadline ≤ c.time ∧
        delivered timeout calls c = (after timeout {} calls).pending.toList) := by
  unfold delivered call
  cases hact : c.act with
  | notify path change => exact .inl rfl
  | flushIfQuiet =>
      by_cases hnone : ((after timeout {} calls).flushIfQuiet c.time).2 = []
      · exact .inl hnone
      · obtain ⟨hdeadline, htoList, -⟩ := flushIfQuiet_of_ne_nil hnone
        exact .inr ⟨rfl, hdeadline, htoList⟩

/-- **Debounced delivery loses and repeats nothing**: every call of a history delivers what is owed
at it, and nothing else. Kind: P -/
theorem delivers_exactly (rest : List Call)
    (hmono : ((earlier ++ since ++ c :: rest).map Call.time).Pairwise (· ≤ ·))
    (hlast : LastDelivery timeout earlier since) : Exact timeout earlier since c := by
  have hbefore : ((earlier ++ since).map Call.time).Pairwise (· ≤ ·) := by
    rw [List.map_append, List.pairwise_append] at hmono
    exact hmono.1
  have hpending := getElem?_pending hlast
  constructor
  · intro hsome
    obtain hnone | ⟨hact, hdeadline, -⟩ := delivered_cases timeout (earlier ++ since) c
    · exact absurd hnone hsome
    · refine ⟨hact, fun c' hc' hnotifies => ?_⟩
      have hle := le_deadline timeout hbefore c' hc' hnotifies
      omega
  · intro hsome path
    obtain hnone | ⟨-, -, htoList⟩ := delivered_cases timeout (earlier ++ since) c
    · exact absurd hnone hsome
    · rw [htoList, Std.ExtTreeMap.map_fst_toList_eq_keys, Std.ExtTreeMap.mem_keys,
        Std.ExtTreeMap.mem_iff_isSome_getElem?, hpending, Option.isSome_iff_ne_none, ne_eq,
        merged_eq_none_iff]
  · obtain hnone | ⟨-, -, htoList⟩ := delivered_cases timeout (earlier ++ since) c
    · rw [hnone]
      exact List.nodup_nil
    · rw [htoList, Std.ExtTreeMap.map_fst_toList_eq_keys]
      exact Std.ExtTreeMap.nodup_keys
  · intro path change hmem
    obtain hnone | ⟨-, -, htoList⟩ := delivered_cases timeout (earlier ++ since) c
    · rw [hnone] at hmem
      exact absurd hmem List.not_mem_nil
    · rw [htoList, Std.ExtTreeMap.mem_toList_iff_getElem?_eq_some, hpending] at hmem
      rw [← merged_eq_removed_iff, hmem, Option.some.injEq]
  · intro hact hquiet
    rw [after_concat, call, hact]
    show ((after timeout {} (earlier ++ since)).flushIfQuiet c.time).1.pending = ∅
    obtain hempty | ⟨c', hc', hnotifies, hdeadline⟩ := deadline_of_pending timeout (earlier ++ since)
    · unfold flushIfQuiet
      rw [if_pos (.inl (Std.ExtTreeMap.isEmpty_iff.mpr hempty)), hempty]
    · apply pending_of_deadline_le
      rw [hdeadline]
      exact hquiet c' hc' hnotifies

/-- Calls of `Notify` deliver nothing. Kind: L -/
theorem lastDelivery_of_notifies (h : ∀ c ∈ since, c.notifies = true) :
    LastDelivery timeout [] since := by
  refine ⟨.inl rfl, ?_⟩
  rintro calls c rest rfl
  have hnotifies := h c (List.mem_append_right _ (List.mem_cons_self ..))
  unfold delivered call
  cases hact : c.act with
  | notify path change => rfl
  | flushIfQuiet =>
      rw [Call.notifies, hact] at hnotifies
      exact absurd hnotifies Bool.false_ne_true

/-- Two paths, one of them written and then removed. Kind: P -/
theorem delivers_exactly_two : Exact 10 []
    [⟨0, .notify [str "a"] .added⟩, ⟨4, .notify [str "b"] .modified⟩,
      ⟨7, .notify [str "a"] .removed⟩] ⟨17, .flushIfQuiet⟩ :=
  delivers_exactly [] (by decide) (lastDelivery_of_notifies (by decide))

/-! ## The net change -/

/-- Whether a file is there after some changes of it, where each of them fits what was there:
it was added only when absent, modified and removed only when present. Kind: D -/
def status : Bool → List FileChange → Option Bool
  | present, [] => some present
  | false, .added :: changes => status true changes
  | true, .modified :: changes => status true changes
  | true, .removed :: changes => status false changes
  | _, _ :: _ => none

/-- The change of a file that was there or not, and is there or not now. Kind: D -/
def netChange : Bool → Bool → Option FileChange
  | false, true => some .added
  | true, true => some .modified
  | true, false => some .removed
  | false, false => none

/-- What is delivered for a path. Kind: D -/
def deliveredFor (path : Location) (entries : List (Location × FileChange)) : Option FileChange :=
  (entries.find? fun entry => entry.1 = path).map Prod.snd

/-- The net change of a path is delivered, if it changed at all; a path that is absent as before may
be delivered as removed. Kind: D -/
def DeliversNet (before now : Bool) (changes : List FileChange) (reported : Option FileChange) :
    Prop :=
  if changes = [] then reported = none
  else reported = netChange before now ∨ (before = false ∧ now = false ∧ reported = some .removed)

/-- What a flush delivers for a path is what the path is queued with. Kind: L -/
theorem deliveredFor_toList (pending : Std.ExtTreeMap Location FileChange) (path : Location) :
    deliveredFor path pending.toList = pending[path]? := by
  unfold deliveredFor
  cases hfind : pending.toList.find? fun entry => entry.1 = path with
  | none =>
      rw [List.find?_eq_none] at hfind
      cases hget : pending[path]? with
      | none => rfl
      | some change =>
          have hmem := Std.ExtTreeMap.mem_toList_iff_getElem?_eq_some.mpr hget
          exact absurd (decide_eq_true rfl) (hfind _ hmem)
  | some entry =>
      have hpath : entry.1 = path := by simpa using List.find?_some hfind
      have hmem := List.mem_of_find?_eq_some hfind
      rw [← hpath, Option.map_some]
      exact (Std.ExtTreeMap.mem_toList_iff_getElem?_eq_some.mp hmem).symm

/-- Changes that follow a change of a file that was there before. Kind: L -/
theorem foldl_coalesce_of_known (present : Bool) {now : Bool} {changes : List FileChange}
    (h : status present changes = some now) :
    changes.foldl (fun previous change => some (Mirror.coalesce previous change))
      (some (if present then .modified else .removed)) =
        some (if now then .modified else .removed) := by
  induction changes generalizing present with
  | nil =>
      simp only [status, Option.some.injEq] at h
      rw [h]
      rfl
  | cons change changes ih =>
      cases present <;> cases change <;> simp only [status, reduceCtorEq] at h
      · exact ih _ h
      · exact ih _ h
      · exact ih _ h

/-- Changes that follow the creation of a file. Kind: L -/
theorem foldl_coalesce_of_new {now : Bool} {changes : List FileChange}
    (h : status true changes = some now) :
    changes.foldl (fun previous change => some (Mirror.coalesce previous change)) (some .added) =
      some (if .removed ∈ changes then if now then .modified else .removed else .added) ∧
        (.removed ∈ changes ∨ now = true) := by
  induction changes with
  | nil =>
      simp only [status, Option.some.injEq] at h
      exact ⟨rfl, .inr h.symm⟩
  | cons change changes ih =>
      cases change with
      | added => simp only [status, reduceCtorEq] at h
      | modified =>
          obtain ⟨hfold, hnow⟩ := ih h
          simp only [List.mem_cons, reduceCtorEq, false_or]
          exact ⟨hfold, hnow⟩
      | removed =>
          rw [if_pos (List.mem_cons_self ..)]
          exact ⟨foldl_coalesce_of_known false h, .inl (List.mem_cons_self ..)⟩

/-- **When a merge is the net change**: unless a file that was absent is there after it was removed
in between. Kind: P -/
theorem deliversNet_merged {before now : Bool} {changes : List FileChange}
    (h : status before changes = some now) :
    DeliversNet before now changes (merged changes) ↔
      ¬ (before = false ∧ now = true ∧ .removed ∈ changes) := by
  unfold DeliversNet
  cases changes with
  | nil =>
      rw [if_pos rfl]
      exact ⟨fun _ hbad => absurd hbad.2.2 List.not_mem_nil, fun _ => rfl⟩
  | cons change changes =>
      rw [if_neg (List.cons_ne_nil _ _)]
      cases before with
      | true =>
          have hmerged : merged (change :: changes) = netChange true now := by
            cases change with
            | added => simp only [status, reduceCtorEq] at h
            | modified =>
                have hfold := foldl_coalesce_of_known true h
                cases now <;> exact hfold
            | removed =>
                have hfold := foldl_coalesce_of_known false h
                cases now <;> exact hfold
          exact ⟨fun _ hbad => Bool.noConfusion hbad.1, fun _ => .inl hmerged⟩
      | false =>
          cases change with
          | modified => simp only [status, reduceCtorEq] at h
          | removed => simp only [status, reduceCtorEq] at h
          | added =>
              obtain ⟨hfold, hnow⟩ := foldl_coalesce_of_new h
              have hmerged : merged (.added :: changes) =
                  some (if .removed ∈ changes then if now then .modified else .removed
                    else .added) := hfold
              rw [hmerged]
              by_cases hremoved : .removed ∈ changes
              · rw [if_pos hremoved]
                have hmem := List.mem_cons_of_mem FileChange.added hremoved
                cases now with
                | true => simp [netChange, hmem]
                | false => simp
              · rw [if_neg hremoved]
                obtain rfl := hnow.resolve_left hremoved
                refine ⟨fun _ hbad => ?_, fun _ => .inl rfl⟩
                exact hremoved (List.mem_of_ne_of_mem (by decide) hbad.2.2)

/-- **When a delivery is the net change** since the delivery before: unless the file was absent
then, is there now, and was removed in between. Kind: P -/
theorem netChange_iff (hlast : LastDelivery timeout earlier since)
    (hflush : delivered timeout (earlier ++ since) c ≠ []) {before now : Bool}
    (hstatus : status before (changesOf path since) = some now) :
    DeliversNet before now (changesOf path since)
        (deliveredFor path (delivered timeout (earlier ++ since) c)) ↔
      ¬ (before = false ∧ now = true ∧ .removed ∈ changesOf path since) := by
  obtain hnone | ⟨-, -, htoList⟩ := delivered_cases timeout (earlier ++ since) c
  · exact absurd hnone hflush
  · rw [htoList, deliveredFor_toList, getElem?_pending hlast]
    exact deliversNet_merged hstatus

/-- A file that is removed, and written anew before the flush, is modified. Kind: P -/
theorem netChange_rewritten : DeliversNet true true
    (changesOf [str "a"] [⟨0, .notify [str "a"] .removed⟩, ⟨4, .notify [str "a"] .added⟩])
    (deliveredFor [str "a"] (delivered 10
      ([] ++ [⟨0, .notify [str "a"] .removed⟩, ⟨4, .notify [str "a"] .added⟩])
      ⟨14, .flushIfQuiet⟩)) := by
  apply (netChange_iff (lastDelivery_of_notifies _) _ _).mpr
  · decide
  · decide
  · decide
  · rfl

/-- A file that is created, removed and created again is new, and is delivered as modified.
Kind: P -/
theorem delivered_as_modified : ¬ ∀ (timeout : ℤ) (earlier since : List Call) (c : Call)
    (path : Location) (before now : Bool), LastDelivery timeout earlier since →
      delivered timeout (earlier ++ since) c ≠ [] →
        status before (changesOf path since) = some now →
          DeliversNet before now (changesOf path since)
            (deliveredFor path (delivered timeout (earlier ++ since) c)) := by
  intro hall
  have hnet := hall 10 []
    [⟨0, .notify [str "a"] .added⟩, ⟨1, .notify [str "a"] .removed⟩,
      ⟨2, .notify [str "a"] .added⟩] ⟨12, .flushIfQuiet⟩ [str "a"] false true
    (lastDelivery_of_notifies (by decide)) (by decide) rfl
  unfold DeliversNet at hnet
  revert hnet
  decide

end FileWatcher

end CloudNode
