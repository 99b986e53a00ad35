import CloudNode.Lib.Runs
import CloudNode.Transfer.Incoming

/-!
# The queues of incoming files, call by call

`StartNextIncoming` is called where an offer finds its queue empty and where the front file of a
queue is done with. It drops the entries that cannot be locked or opened, completes the empty ones,
and leaves the map's entry to its callers, which erase it when no file is left.

* `turn`, `loop_ends` — the loop of `StartNextIncoming`, turn by turn: it ends, and with what
  `startNextIncoming` says.
* `queues_inOrder` — after any calls of `OnFileOffer` and `OnIncomingChunk` the front of every
  stored queue is open and locked and does not have its size, and the files behind it are closed.
-/

namespace CloudNode

namespace Incoming

variable {ι β : Type} (absolute : Str → Str)

/-! ## The loop -/

/-- One turn of the loop, with what the file system answers; `none` where its condition fails.
Source: `WebRTCClient.cpp`, `StartNextIncoming`
Kind: D -/
def turn : List (IncomingFile ι) × Files ι β → Preparation →
    Option (List (IncomingFile ι) × Files ι β)
  | ([], _), _ => none
  | (next :: rest, s), answer =>
    if next.stream.isSome then none
    else match answer with
      | .absent => some (rest, s.note (.dropped next.offer))
      | .locked | .unopenable => some (rest, (s.create next.destination).note (.dropped next.offer))
      | .ready =>
        let s := s.truncate next.destination
        if next.expectedSize = 0 then
          some (rest, (s.received (absolute next.destination)).note
            (.completed next.offer (s.content next.destination)))
        else some ({ next with lock := true, stream := some 0 } :: rest, s)

/-- The first answers that the file system gives. Kind: D -/
def answers (prepare : ℕ → Preparation) (n : ℕ) : List Preparation := (List.range n).map prepare

/-- The first answer, and those that follow. Kind: L -/
theorem answers_succ (prepare : ℕ → Preparation) (n : ℕ) :
    answers prepare (n + 1) = prepare 0 :: answers (fun i => prepare (i + 1)) n := by
  unfold answers
  rw [List.range_succ_eq_map, List.map_cons, List.map_map]
  rfl

/-- The loop ends with `out`, after at most as many turns as there are entries. Kind: D -/
def Ends (prepare : ℕ → Preparation) (queue : List (IncomingFile ι)) (s : Files ι β)
    (out : List (IncomingFile ι) × Files ι β) : Prop :=
  ∃ n ≤ queue.length, Runs.run (turn absolute) (queue, s) (answers prepare n) = some out ∧
    ∀ answer, turn absolute out answer = none

variable {absolute} {prepare : ℕ → Preparation} {next : IncomingFile ι}
  {rest : List (IncomingFile ι)} {s s' : Files ι β} {out : List (IncomingFile ι) × Files ι β}

/-- A turn that leaves the rest of the queue. Kind: L -/
theorem Ends.cons (hturn : turn absolute (next :: rest, s) (prepare 0) = some (rest, s'))
    (h : Ends absolute (fun i => prepare (i + 1)) rest s' out) :
    Ends absolute prepare (next :: rest) s out := by
  obtain ⟨n, hn, hrun, hstop⟩ := h
  refine ⟨n + 1, Nat.succ_le_succ hn, ?_, hstop⟩
  rw [answers_succ]
  exact (Runs.run_cons_eq_some _).mpr ⟨_, hturn, hrun⟩

variable (absolute)

/-- **The loop ends**, whatever the file system answers, with what `startNextIncoming` says.
Kind: P -/
theorem loop_ends (prepare : ℕ → Preparation) (queue : List (IncomingFile ι)) (s : Files ι β) :
    Ends absolute prepare queue s (startNextIncoming absolute prepare queue s) := by
  induction queue generalizing prepare s with
  | nil => exact ⟨0, le_rfl, rfl, fun _ => rfl⟩
  | cons next rest ih =>
      by_cases hopen : next.stream.isSome = true
      · unfold startNextIncoming
        rw [if_pos hopen]
        refine ⟨0, Nat.zero_le _, rfl, fun answer => ?_⟩
        unfold turn
        exact if_pos hopen
      unfold startNextIncoming
      rw [if_neg hopen]
      dsimp only
      cases hprepare : prepare 0 with
      | absent =>
          apply Ends.cons _ (ih (fun i => prepare (i + 1)) _)
          simp only [turn, hprepare, if_neg hopen]
      | locked =>
          apply Ends.cons _ (ih (fun i => prepare (i + 1)) _)
          simp only [turn, hprepare, if_neg hopen]
      | unopenable =>
          apply Ends.cons _ (ih (fun i => prepare (i + 1)) _)
          simp only [turn, hprepare, if_neg hopen]
      | ready =>
          by_cases hsize : next.expectedSize = 0
          · simp only [if_pos hsize]
            apply Ends.cons _ (ih (fun i => prepare (i + 1)) _)
            simp only [turn, hprepare, if_neg hopen, if_pos hsize]
          · simp only [if_neg hsize]
            refine ⟨1, Nat.succ_le_succ (Nat.zero_le _), ?_, fun answer => rfl⟩
            rw [answers_succ]
            apply (Runs.run_cons_eq_some _).mpr ⟨_, _, rfl⟩
            simp only [turn, hprepare, if_neg hopen, if_neg hsize]

/-! ## The calls -/

/-- A call, with what is asked and answered on the way: what the file name and an existing file make
of an offer, whether a chunk can be written, and the answers to `StartNextIncoming`. Kind: D -/
inductive Call (ι β : Type) where
  | onFileOffer (key : PeerRoomKey) (offer : ι) (size : ℤ) (verdict : Verdict)
      (prepare : ℕ → Preparation)
  | onIncomingChunk (key : PeerRoomKey) (bytes : List β) (cut : Option ℕ)
      (prepare : ℕ → Preparation)

/-- One call, under `m_incomingMutex`.
Source: `WebRTCClient.cpp`, `OnFileOffer` and `OnIncomingChunk`
Kind: D -/
def step (s : Incoming ι β) : Call ι β → Option (Incoming ι β)
  | .onFileOffer key offer size verdict prepare =>
    some (onFileOffer absolute prepare key offer size verdict s).2
  | .onIncomingChunk key bytes cut prepare =>
    some (onIncomingChunk absolute prepare cut key bytes s).2

/-- Every queue that is stored has a front, which is open and locked and does not have its size; the
files behind it are neither open nor locked. Kind: D -/
def InOrder (s : Incoming ι β) : Prop :=
  ∀ (key : PeerRoomKey) (queue : List (IncomingFile ι)), s.incomingFiles[key]? = some queue →
    ∃ (front : IncomingFile ι) (rest : List (IncomingFile ι)) (pos : ℕ), queue = front :: rest ∧
      front.lock = true ∧ front.stream = some pos ∧ (pos : ℤ) ≠ front.expectedSize ∧
      ∀ file ∈ rest, file.lock = false ∧ file.stream = none

/-- Well-formed queues are in order. Kind: L -/
theorem WellFormed.inOrder {s : Incoming ι β} (h : WellFormed s) : InOrder s := by
  intro key queue hqueue
  have hok : QueueOk queue := by
    have hread : s.queueOf key = queue := by
      unfold queueOf
      rw [hqueue]
      rfl
    exact hread ▸ h.ok key
  cases queue with
  | nil => exact absurd rfl (h.stored key [] hqueue)
  | cons front rest =>
      obtain ⟨⟨hlock, hsize, pos, hpos, hshort⟩, hrest⟩ := hok
      refine ⟨front, rest, pos, rfl, hlock, hpos, ?_, hrest⟩
      rcases hshort with rfl | hshort
      · exact fun hzero => hsize hzero.symm
      · exact hshort.ne

/-- A call keeps the queues well-formed. Kind: L -/
theorem WellFormed.step {s s' : Incoming ι β} {call : Call ι β} (h : WellFormed s)
    (hstep : s.step absolute call = some s') : WellFormed s' := by
  cases call with
  | onFileOffer key offer size verdict prepare =>
      obtain rfl := Option.some.inj hstep
      rcases @onFileOffer_cases ι β absolute s key prepare offer size verdict with
        hout | hout | ⟨destination, hout⟩
      · rw [hout]
        exact h
      · rw [hout]
        exact h
      · rw [hout]
        exact wellFormed_enqueue absolute h rfl rfl
  | onIncomingChunk key bytes cut prepare =>
      obtain rfl := Option.some.inj hstep
      exact wellFormed_onIncomingChunk absolute h

/-- **The queues of incoming files are in order after every call**, for any offers, chunks and
failures, and the loop of `StartNextIncoming` ends. Kind: P -/
theorem queues_inOrder (absolute : Str → Str) (calls : List (Call ι β)) :
    Runs.Always (step absolute) InOrder {} calls ∧
      ∀ (prepare : ℕ → Preparation) (queue : List (IncomingFile ι)) (s : Files ι β),
        Ends absolute prepare queue s (startNextIncoming absolute prepare queue s) := by
  refine ⟨?_, loop_ends absolute⟩
  have hkept : Runs.Always (step absolute) WellFormed {} calls :=
    Runs.always_of_invariant _ (fun s call s' h hstep => h.step absolute hstep) wellFormed_empty
  exact hkept.imp _ fun s h => h.inOrder

end Incoming

end CloudNode
