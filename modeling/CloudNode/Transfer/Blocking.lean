import CloudNode.Lib.Conditions
import CloudNode.Lib.Runs
import CloudNode.Transfer.Outgoing

/-!
# The queue behind a data channel

`QueueBase` is a list under a mutex with a condition variable: `AddItem` puts a pointer at the end
and notifies one thread, `GetItem` waits until the list is not empty and takes the front. Any number
of threads call either. A thread that was woken has to get the mutex back before it looks again, and
a thread that calls `GetItem` meanwhile may take what it was woken for.

Between two steps nobody owns the mutex: a step is a section under it, or a notification.

* `step_cases` — what each step needs and what it leaves.
* `handed_of_run` — every item goes to one caller, in the order in which the items were added, and
  the threads together do to the list what `addItem` and `getItem` do to it one after the other.
* `covered_of_run` — no wake-up is lost: a caller sleeps while there is an item only if other
  threads have been woken for every item.
-/

namespace CloudNode

/-- A queue, the threads in its `GetItem`, and what was added to it and taken from it so far.
Source: `Queue.cpp`, `QueueBase`, `m_Items` and `m_Conditional`
Kind: D -/
structure QueueBase (τ α : Type*) where
  items : List α := []
  condition : Condition τ := .idle
  added : List α := []
  taken : List (τ × α) := []

namespace QueueBase

variable {τ α : Type*} [DecidableEq τ]

/-- What can happen. Kind: D -/
inductive Event (τ α : Type*) where
  /-- `AddItem`, of a pointer that may be null; `choice` is the thread that `notify_one` wakes. -/
  | addItem (item : Option α) (choice : Option τ)
  /-- A thread calls `GetItem` and gets the mutex. -/
  | getItem (t : τ)
  /-- A thread that was woken gets the mutex. -/
  | resume (t : τ)
  /-- A sleeping thread wakes for no reason. -/
  | spurious (t : τ)
  | notifyAll

/-- A thread with the mutex looks at its condition: it sleeps, or it takes the front item. The test
behind the wait finds the list not empty.
Source: `Queue.cpp`, `GetItem`
Kind: D -/
def look (q : QueueBase τ α) (t : τ) : QueueBase τ α :=
  match q.items with
  | [] => { q with condition := q.condition.sleep t }
  | item :: items => { q with items := items, taken := q.taken ++ [(t, item)] }

/-- One step of one of the threads.
Source: `Queue.cpp`, `AddItem`, `GetItem` and `NotifyAll`
Kind: D -/
def step (q : QueueBase τ α) : Event τ α → Option (QueueBase τ α)
  | .addItem none _ => some q
  | .addItem (some item) choice =>
    (q.condition.notifyOne choice).map fun condition => { q with
      items := q.items ++ [item]
      condition := condition
      added := q.added ++ [item] }
  | .getItem t => if t ∈ q.condition.waiting then none else some (q.look t)
  | .resume t =>
    if t ∈ q.condition.woken then
      some ({ q with condition := q.condition.resume t }.look t)
    else none
  | .spurious t =>
    if t ∈ q.condition.asleep then some { q with condition := q.condition.wake t } else none
  | .notifyAll => some { q with condition := q.condition.notifyAll }

/-- Source: `Queue.cpp`, `GetSize`. Kind: D -/
def getSize (q : QueueBase τ α) : ℕ := q.items.length

/-! ## What a step can be -/

/-- A step that is possible: its conditions, and what it leaves. A thread that gets the mutex in
`GetItem` is in one of two states: it has just come, or it was woken. Kind: D -/
inductive Step (q : QueueBase τ α) : Event τ α → QueueBase τ α → Prop where
  | null (choice : Option τ) : Step q (.addItem none choice) q
  | add (item : α) (choice : Option τ) (condition : Condition τ)
      (notified : q.condition.notifyOne choice = some condition) :
      Step q (.addItem (some item) choice) { q with
        items := q.items ++ [item]
        condition := condition
        added := q.added ++ [item] }
  | wait (t : τ) (empty : q.items = []) :
      Step q (.getItem t) { q with condition := q.condition.sleep t }
  | take (t : τ) (item : α) (items : List α) (front : q.items = item :: items) :
      Step q (.getItem t) { q with items := items, taken := q.taken ++ [(t, item)] }
  | waitAgain (t : τ) (empty : q.items = []) (woken : t ∈ q.condition.woken) :
      Step q (.resume t) { q with condition := (q.condition.resume t).sleep t }
  | takeWoken (t : τ) (item : α) (items : List α) (front : q.items = item :: items)
      (woken : t ∈ q.condition.woken) : Step q (.resume t) { q with
        items := items
        condition := q.condition.resume t
        taken := q.taken ++ [(t, item)] }
  | spurious (t : τ) (asleep : t ∈ q.condition.asleep) :
      Step q (.spurious t) { q with condition := q.condition.wake t }
  | notifyAll : Step q .notifyAll { q with condition := q.condition.notifyAll }

variable {q q' : QueueBase τ α} {e : Event τ α} {es : List (Event τ α)} {t : τ}

/-- **Every step is one of these.** Kind: P -/
theorem step_cases (h : q.step e = some q') : Step q e q' := by
  cases e with
  | addItem item choice =>
      cases item with
      | none => exact Option.some.inj h ▸ .null choice
      | some item =>
          obtain ⟨condition, hnotified, rfl⟩ := Option.map_eq_some_iff.mp h
          exact .add item choice condition hnotified
  | getItem t =>
      obtain ⟨-, h⟩ := Option.ite_none_left_eq_some.mp h
      rw [← Option.some.inj h]
      unfold look
      split
      · rename_i hempty
        exact .wait t hempty
      · rename_i item items hfront
        exact .take t item items hfront
  | resume t =>
      obtain ⟨hwoken, h⟩ := Option.ite_none_right_eq_some.mp h
      rw [← Option.some.inj h]
      unfold look
      split
      · rename_i hempty
        exact .waitAgain t hempty hwoken
      · rename_i item items hfront
        exact .takeWoken t item items hfront hwoken
  | spurious t =>
      obtain ⟨hasleep, h⟩ := Option.ite_none_right_eq_some.mp h
      exact Option.some.inj h ▸ .spurious t hasleep
  | notifyAll => exact Option.some.inj h ▸ .notifyAll

/-! ## The list that the threads share -/

/-- A call on a channel's queue, as it takes effect. Kind: D -/
inductive Call (α : Type*) where
  | put (item : α)
  | take (item : α)

/-- A call on the sender's tables; `take` gets that item. Kind: D -/
def perform (channel : Channel) (s : Outgoing) : Call Str → Option Outgoing
  | .put path => some (s.addItem channel path)
  | .take path =>
    match s.getItem channel with
    | none => none
    | some (front, s) => if front = path then some s else none

/-- The items that were put. Kind: D -/
def puts (calls : List (Call α)) : List α :=
  calls.filterMap fun
    | .put item => some item
    | .take _ => none

/-- The items that were taken. Kind: D -/
def takes (calls : List (Call α)) : List α :=
  calls.filterMap fun
    | .put _ => none
    | .take item => some item

/-- Which of the calls takes effect in a step, if one does. Kind: D -/
def effect (q : QueueBase τ α) : Event τ α → List (Call α)
  | .addItem item _ => (item.map Call.put).toList
  | .getItem _ | .resume _ => (q.items.head?.map Call.take).toList
  | .spurious _ | .notifyAll => []

/-- The calls that take effect in a run. Kind: D -/
def effects (q : QueueBase τ α) : List (Event τ α) → List (Call α)
  | [] => []
  | e :: es =>
    match q.step e with
    | none => []
    | some q' => q.effect e ++ q'.effects es

/-- What a step puts and takes is what it writes down. Kind: L -/
theorem written_of_step (h : Step q e q') : q'.added = q.added ++ puts (q.effect e) ∧
    q'.taken.map Prod.snd = q.taken.map Prod.snd ++ takes (q.effect e) := by
  cases h with
  | null | spurious | notifyAll => simp [effect, puts, takes]
  | add => simp [effect, puts, takes]
  | wait t hempty => simp [effect, puts, takes, hempty]
  | waitAgain t hempty => simp [effect, puts, takes, hempty]
  | take t item items hfront => simp [effect, puts, takes, hfront]
  | takeWoken t item items hfront => simp [effect, puts, takes, hfront]

/-- Nothing that was added gets lost or overtakes. Kind: L -/
theorem order_of_step (h : Step q e q') (hq : q.taken.map Prod.snd ++ q.items = q.added) :
    q'.taken.map Prod.snd ++ q'.items = q'.added := by
  cases h with
  | null | spurious | notifyAll | wait | waitAgain => exact hq
  | add item choice condition hnotified => rw [← List.append_assoc, hq]
  | take t item items hfront =>
      rw [hfront] at hq
      simpa using hq
  | takeWoken t item items hfront hwoken =>
      rw [hfront] at hq
      simpa using hq

/-- **A step of the threads is the call that takes effect in it.** Kind: P -/
theorem perform_of_step {channel : Channel} {q q' : QueueBase τ Str} {e : Event τ Str}
    {s : Outgoing} (h : Step q e q') (hs : s.fileQ channel = q.items) :
    ∃ s', Runs.run (perform channel) s (q.effect e) = some s' ∧ s'.fileQ channel = q'.items := by
  have htake : ∀ item items, q.items = item :: items →
      ∃ s', Runs.run (perform channel) s [.take item] = some s' ∧ s'.fileQ channel = items := by
    intro item items hfront
    refine ⟨{ s with fileQ := Function.update s.fileQ channel items }, ?_, Function.update_self ..⟩
    simp only [Runs.run, perform, Outgoing.getItem, hs, hfront, if_true, Option.bind_some]
  cases h with
  | null | spurious | notifyAll => exact ⟨s, rfl, hs⟩
  | add item choice condition hnotified =>
      refine ⟨s.addItem channel item, rfl, (Function.update_self ..).trans ?_⟩
      rw [hs]
  | wait t hempty | waitAgain t hempty =>
      refine ⟨s, ?_, hs⟩
      simp only [effect, hempty, List.head?_nil, Option.map_none, Option.toList_none, Runs.run_nil]
  | take t item items hfront | takeWoken t item items hfront =>
      obtain ⟨s', hrun, hs'⟩ := htake item items hfront
      refine ⟨s', ?_, hs'⟩
      simp only [effect, hfront, List.head?_cons, Option.map_some, Option.toList_some]
      exact hrun

/-- The calls of a run, one step and then the others. Kind: L -/
theorem effects_cons (h : q.step e = some q') (es : List (Event τ α)) :
    q.effects (e :: es) = q.effect e ++ q'.effects es := by
  simp only [effects, h]

/-- **A run of the threads is a run of calls on the list.** Kind: P -/
theorem perform_of_run {channel : Channel} {es : List (Event τ Str)} {q q' : QueueBase τ Str}
    {s : Outgoing} (hrun : Runs.run step q es = some q') (hs : s.fileQ channel = q.items) :
    ∃ s', Runs.run (perform channel) s (q.effects es) = some s' ∧ s'.fileQ channel = q'.items := by
  induction es generalizing q s with
  | nil =>
      obtain rfl := Option.some.inj hrun
      exact ⟨s, rfl, hs⟩
  | cons e es ih =>
      obtain ⟨q₁, he, hrest⟩ := (Runs.run_cons_eq_some step).mp hrun
      obtain ⟨s₁, hrun₁, hs₁⟩ := perform_of_step (step_cases he) hs
      obtain ⟨s', hrun', hs'⟩ := ih hrest hs₁
      refine ⟨s', ?_, hs'⟩
      rw [effects_cons he, Runs.run_append, hrun₁]
      exact hrun'

/-- What a run puts and takes is what it writes down. Kind: L -/
theorem written_of_run {q : QueueBase τ α} (hrun : Runs.run step q es = some q') :
    q'.added = q.added ++ puts (q.effects es) ∧
      q'.taken.map Prod.snd = q.taken.map Prod.snd ++ takes (q.effects es) := by
  induction es generalizing q with
  | nil =>
      obtain rfl := Option.some.inj hrun
      simp [effects, puts, takes]
  | cons e es ih =>
      obtain ⟨q₁, he, hrest⟩ := (Runs.run_cons_eq_some step).mp hrun
      obtain ⟨hputs, htakes⟩ := written_of_step (step_cases he)
      obtain ⟨hputs', htakes'⟩ := ih hrest
      rw [effects_cons he]
      constructor
      · rw [hputs', hputs, List.append_assoc]
        exact congrArg (q.added ++ ·) (List.filterMap_append ..).symm
      · rw [htakes', htakes, List.append_assoc]
        exact congrArg (q.taken.map Prod.snd ++ ·) (List.filterMap_append ..).symm

/-- **Every item goes to one caller, in order**, and what the threads do to the queue is what
`addItem` and `getItem` do to the list of the sender's tables, one after the other: the paths put
and taken there are those added and handed out here, and the lists agree in the end. Kind: P -/
theorem handed_of_run {channel : Channel} {es : List (Event τ Str)} {q : QueueBase τ Str}
    {s : Outgoing} (hrun : Runs.run step {} es = some q) (hs : s.fileQ channel = []) :
    q.taken.map Prod.snd ++ q.items = q.added ∧
      ∃ calls s', Runs.run (perform channel) s calls = some s' ∧ s'.fileQ channel = q.items ∧
        puts calls = q.added ∧ takes calls = q.taken.map Prod.snd := by
  constructor
  · exact Runs.invariant_of_run step (fun _ _ _ hq he => order_of_step (step_cases he) hq) rfl hrun
  · obtain ⟨s', hperform, hs'⟩ := perform_of_run hrun hs
    obtain ⟨hputs, htakes⟩ := written_of_run hrun
    exact ⟨_, s', hperform, hs', hputs.symm, htakes.symm⟩

/-- Two callers wait, two paths are added, and the caller that was not woken first takes the first
path. Kind: D -/
def overtaken : List (Event ℕ Str) :=
  [.getItem 0, .getItem 1, .addItem (some (str "a")) (some 0), .addItem (some (str "b")) (some 1),
    .resume 1]

/-- In that run each path has one taker, in order. Kind: L -/
theorem handed_overtaken : ∃ q, Runs.run step {} overtaken = some q ∧
    q.taken.map Prod.snd ++ q.items = q.added ∧
      ∃ calls s', Runs.run (perform 0) {} calls = some s' ∧ s'.fileQ 0 = q.items ∧
        puts calls = q.added ∧ takes calls = q.taken.map Prod.snd := by
  have hrun : Runs.run step {} overtaken = some _ := rfl
  exact ⟨_, hrun, handed_of_run (s := {}) hrun rfl⟩

/-! ## Wake-ups -/

/-- **A step leaves every item covered.** Kind: P -/
theorem covered_of_step (h : Step q e q') (hq : q.condition.Covered q.items.length) :
    q'.condition.Covered q'.items.length := by
  cases h with
  | null => exact hq
  | add item choice condition hnotified =>
      rw [List.length_append, List.length_singleton]
      exact hq.notifyOne hnotified
  | wait t hempty | waitAgain t hempty =>
      simp only [hempty, List.length_nil]
      exact Condition.covered_zero _
  | take t item items hfront =>
      rw [hfront] at hq
      exact hq.of_succ
  | takeWoken t item items hfront hwoken =>
      rw [hfront] at hq
      exact hq.resume hwoken
  | spurious t hasleep => exact hq.wake hasleep
  | notifyAll => exact Condition.covered_notifyAll _ _

/-- **No wake-up is lost**: in every state that is reached, as many callers of `GetItem` have been
woken as there are items for callers. So while there is an item and a caller, some caller's next
step takes the front item. Kind: P -/
theorem covered_of_run {es : List (Event τ α)} {q : QueueBase τ α}
    (hrun : Runs.run step {} es = some q) :
    min q.getSize q.condition.waiting.card ≤ q.condition.woken.card ∧
      (q.items ≠ [] → q.condition.waiting.Nonempty → ∃ t item items q',
        q.items = item :: items ∧ q.step (.resume t) = some q' ∧ q'.items = items ∧
          q'.taken = q.taken ++ [(t, item)]) := by
  have hcovered : q.condition.Covered q.items.length :=
    Runs.invariant_of_run step (s := {}) (I := fun q => q.condition.Covered q.items.length)
      (fun _ _ _ hq he => covered_of_step (step_cases he) hq) (Condition.covered_zero _) hrun
  have hmin := hcovered.min_le
  refine ⟨hmin, fun hitems hwaiting => ?_⟩
  obtain ⟨item, items, hfront⟩ := List.exists_cons_of_ne_nil hitems
  have hlength := List.length_pos_of_ne_nil hitems
  have hcallers := Finset.card_pos.mpr hwaiting
  obtain ⟨t, hwoken⟩ := Finset.card_pos.mp (by omega : 0 < q.condition.woken.card)
  refine ⟨t, item, items, _, hfront, if_pos hwoken, ?_, ?_⟩
  · simp only [look, hfront]
  · simp only [look, hfront]

/-- In the run above, the caller that was woken first is there for what is left. Kind: L -/
theorem covered_overtaken : ∃ q, Runs.run step {} overtaken = some q ∧
    min q.getSize q.condition.waiting.card ≤ q.condition.woken.card ∧
      (q.items ≠ [] → q.condition.waiting.Nonempty → ∃ t item items q',
        q.items = item :: items ∧ q.step (.resume t) = some q' ∧ q'.items = items ∧
          q'.taken = q.taken ++ [(t, item)]) := by
  have hrun : Runs.run step {} overtaken = some _ := rfl
  exact ⟨_, hrun, covered_of_run hrun⟩

end QueueBase

end CloudNode
