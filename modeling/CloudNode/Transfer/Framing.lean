import CloudNode.Lib.Runs
import CloudNode.Transfer.Outgoing

/-!
# How many bytes the sender puts on the channel

The sender announces a file's size when it offers the file and reads the file after the offer was
accepted. In between anything may happen to it, and the worker sends what it finds then.

* `sends_chunks`, `not_sends_of_zero` — the loop over an open file ends with the file's bytes sent
  in messages of `maxMessageSize`; with a buffer of no bytes it does not end.
* `linked_step`, `takeFile_of_run` — the worker's queue holds one path for every acceptance that was
  handled, in every run.
* `framed_iff_sendable` — every accepted offer gets as many bytes as were announced, and a receiver
  that counts finds each byte's file, in exactly the runs in which every file that the worker takes
  is, at that moment, as long as announced.
-/

namespace CloudNode

/-! ## The loop over an open file -/

section loop

variable {β : Type} {c : ℕ} {left : List β}

/-- The messages of the worker's loop over a file, turn by turn, until it ends.
Source: `WebRTCClient.cpp`, `MakeDataChannel`, `while (file.read(..) || file.gcount() > 0)`
Kind: D -/
inductive Sends (c : ℕ) : List β → List (List β) → Prop
  | done {left : List β} (hturn : sendTurn c left = none) : Sends c left []
  | turn {left left' message : List β} {messages : List (List β)}
      (hturn : sendTurn c left = some (message, left')) (hrest : Sends c left' messages) :
      Sends c left (message :: messages)

/-- The bytes of a file's messages. Kind: L -/
theorem flatten_chunks (hc : 0 < c) (left : List β) : (chunks c left).flatten = left := by
  induction left using chunks.induct c with
  | case1 left hstop =>
      have hnil : left = [] := by
        rcases hstop with hnil | hzero
        · exact hnil
        · omega
      rw [hnil, chunks_nil, List.flatten_nil]
  | case2 left hgo ih =>
      have hleft : left ≠ [] := fun hnil => hgo (.inl hnil)
      rw [chunks_of_ne_nil hc hleft, List.flatten_cons, ih, List.take_append_drop]

/-- **The loop ends with the file's messages sent.** Kind: P -/
theorem sends_chunks (hc : 0 < c) (left : List β) : Sends c left (chunks c left) := by
  induction left using chunks.induct c with
  | case1 left hstop =>
      have hnil : left = [] := by
        rcases hstop with hnil | hzero
        · exact hnil
        · omega
      subst hnil
      rw [chunks_nil]
      refine .done ?_
      rw [sendTurn_of_pos hc, if_pos rfl]
  | case2 left hgo ih =>
      have hleft : left ≠ [] := fun hnil => hgo (.inl hnil)
      rw [chunks_of_ne_nil hc hleft]
      refine .turn ?_ ih
      rw [sendTurn_of_pos hc, if_neg hleft]

/-- A loop with a buffer of no bytes does not end. Kind: L -/
theorem not_sends_of_zero {messages : List (List β)} : ¬ Sends 0 left messages := by
  intro h
  induction h with
  | done hturn => simp [sendTurn] at hturn
  | turn _ _ ih => exact ih

end loop

/-! ## The sender of one channel -/

/-- What reading a file gives: its bytes, or those before a read error. Kind: D -/
structure Source where
  content : List UInt8
  failsAt : Option ℕ := none

/-- The bytes that are read. Kind: D -/
def Source.readable (source : Source) : List UInt8 :=
  match source.failsAt with
  | none => source.content
  | some n => source.content.take n

/-- What the worker put on the channel for an accepted offer, and the size announced for it;
`succeeded` is when it would report the file as sent.
Source: `WebRTCClient.cpp`, `MakeDataChannel`, `transferSucceeded`
Kind: D -/
structure Transmission where
  offer : Str
  size : ℕ
  messages : List (List UInt8)
  succeeded : Bool

/-- The sender's files and tables, with what it announced and what it put on the channel.
Kind: D -/
structure Sender where
  /-- `none` is a file that cannot be locked or opened. -/
  disk : Str → Option Source := fun _ => none
  outgoing : Outgoing
  /-- The offers made, with the sizes announced. -/
  announced : List (Str × ℕ) := []
  /-- The accepted offers that the worker has not come to. -/
  owed : List (Str × ℕ) := []
  sent : List Transmission := []
  /-- The worker does not come back from its loop. -/
  halted : Bool := false

namespace Sender

/-- The receiver and room, the channel registered for them, and the worker's buffer. Kind: D -/
structure Setting where
  receiver : PeerRoomKey
  channel : Channel
  maxMessageSize : ℕ

variable (σ : Setting)

/-- At first there is the channel, and nothing else. Kind: D -/
def initial : Sender where
  outgoing :=
    { dataChannels := (∅ : Std.ExtTreeMap PeerRoomKey Channel).insert σ.receiver σ.channel }

/-- What can happen. Kind: D -/
inductive Event where
  /-- A file is written, replaced, removed or made unreadable. -/
  | change (path : Str) (source : Option Source)
  | offer (uuid path : Str)
  | fileAccept (uuid : Str)
  | fileReject (uuid : Str)
  /-- The worker takes a path and sends the file. -/
  | takeFile

/-- The file as it is read; a path without characters names none. Kind: D -/
def opened (t : Sender) (path : Str) : Option Source :=
  if path = [] then none else t.disk path

/-- One event; the channel stays open. An offer is made of a file that can be inspected, with a
fresh uuid. A file that the worker cannot lock or open is skipped; one that it opens is locked
until it is sent.
Source: `WebRTCClient.cpp`, `SendFileOffer`, `OnFileAccept`, `OnFileReject` and `MakeDataChannel`;
`MimeDetector.hpp`, `get_file_info`
Kind: D -/
def step (t : Sender) : Event → Option Sender
  | .change path source => some { t with disk := Function.update t.disk path source }
  | .offer uuid path =>
    if (t.announced.lookup uuid).isSome then none
    else
      match t.opened path with
      | none => some t
      | some source => some { t with
          outgoing := t.outgoing.register uuid ⟨σ.receiver, path⟩
          announced := (uuid, source.content.length) :: t.announced }
  | .fileAccept uuid => some { t with
      outgoing := t.outgoing.onFileAccept (some uuid)
      owed :=
        if (t.outgoing.pendingOffers[uuid]?).isSome then
          t.owed ++ [(uuid, (t.announced.lookup uuid).getD 0)]
        else t.owed }
  | .fileReject uuid => some { t with outgoing := t.outgoing.onFileReject (some uuid) }
  | .takeFile =>
    match t.halted, t.outgoing.getItem σ.channel, t.owed with
    | false, some (path, outgoing), (uuid, size) :: owed =>
      match t.opened path with
      | none => some { t with
          outgoing := outgoing
          owed := owed
          sent := t.sent ++ [⟨uuid, size, [], false⟩] }
      | some source => some { t with
          outgoing := outgoing
          owed := owed
          sent := t.sent ++
            [⟨uuid, size, chunks σ.maxMessageSize source.readable, source.failsAt.isNone⟩]
          halted := σ.maxMessageSize = 0 }
    | _, _, _ => none

variable {σ} {t t' : Sender} {e : Event}

/-! ## The worker's queue -/

/-- The channel is the one registered for the receiver, every pending offer is for it, and its
queue holds a path for every acceptance that the worker has not come to. Kind: D -/
structure Linked (σ : Setting) (t : Sender) : Prop where
  registered : t.outgoing.dataChannels[σ.receiver]? = some σ.channel
  pending : ∀ (uuid : Str) (offer : PendingOffer),
    t.outgoing.pendingOffers[uuid]? = some offer → offer.key = σ.receiver
  queued : (t.outgoing.fileQ σ.channel).length = t.owed.length

/-- The queue is linked at first. Kind: L -/
theorem linked_initial : Linked σ (initial σ) := by
  refine ⟨getElem?_insert_same _ _ _, fun uuid offer hpending => ?_, rfl⟩
  simp [initial] at hpending

/-- **Every step keeps the queue linked.** Kind: P -/
theorem linked_step (h : Linked σ t) (he : step σ t e = some t') : Linked σ t' := by
  cases e with
  | change path source =>
      obtain rfl := Option.some.inj he
      exact ⟨h.registered, h.pending, h.queued⟩
  | offer uuid path =>
      simp only [step] at he
      split at he
      · cases he
      · split at he
        · obtain rfl := Option.some.inj he
          exact h
        · obtain rfl := Option.some.inj he
          refine ⟨h.registered, fun uuid' offer hpending => ?_, h.queued⟩
          simp only [Outgoing.register, getElem?_insert_eq] at hpending
          split at hpending
          · rw [← Option.some.inj hpending]
          · exact h.pending uuid' offer hpending
  | fileAccept uuid =>
      obtain rfl := Option.some.inj he
      cases hpending : t.outgoing.pendingOffers[uuid]? with
      | none =>
          have hsame : t.outgoing.onFileAccept (some uuid) = t.outgoing := by
            simp [Outgoing.onFileAccept, Outgoing.takePendingOffer, hpending]
          refine ⟨?_, ?_, ?_⟩
          all_goals simp only [hsame]
          · exact h.registered
          · exact h.pending
          · simpa using h.queued
      | some offer =>
          have hchannel : t.outgoing.dataChannels[offer.key]? = some σ.channel := by
            rw [h.pending uuid offer hpending]
            exact h.registered
          rw [Outgoing.onFileAccept_of_pending hpending hchannel]
          refine ⟨h.registered, fun uuid' offer' hpending' => ?_, ?_⟩
          · simp only [Outgoing.addItem, getElem?_erase_eq] at hpending'
            split at hpending'
            · cases hpending'
            · exact h.pending uuid' offer' hpending'
          · have hqueued := h.queued
            simp only [Outgoing.addItem, Function.update_self, List.length_append, Option.isSome_some,
              if_true]
            rw [hqueued]
            rfl
  | fileReject uuid =>
      obtain rfl := Option.some.inj he
      cases hpending : t.outgoing.pendingOffers[uuid]? with
      | none =>
          have hsame : t.outgoing.onFileReject (some uuid) = t.outgoing := by
            simp [Outgoing.onFileReject, Outgoing.takePendingOffer, hpending]
          rw [hsame]
          exact ⟨h.registered, h.pending, h.queued⟩
      | some offer =>
          rw [Outgoing.onFileReject_of_pending hpending]
          refine ⟨h.registered, fun uuid' offer' hpending' => ?_, h.queued⟩
          simp only [getElem?_erase_eq] at hpending'
          split at hpending'
          · cases hpending'
          · exact h.pending uuid' offer' hpending'
  | takeFile =>
      simp only [step] at he
      split at he
      · rename_i path outgoing uuid size owed _ hitem howed
        have hqueued := h.queued
        unfold Outgoing.getItem at hitem
        split at hitem
        · cases hitem
        · rename_i first paths hqueue
          obtain ⟨-, rfl⟩ := Prod.mk.inj (Option.some.inj hitem)
          rw [hqueue, howed, List.length_cons, List.length_cons] at hqueued
          have hrest : (Function.update t.outgoing.fileQ σ.channel paths σ.channel).length =
              owed.length := by
            rw [Function.update_self]
            omega
          split at he
          all_goals
            obtain rfl := Option.some.inj he
            exact ⟨h.registered, h.pending, hrest⟩
      · cases he

/-- A worker that is back from its loop and finds a path takes it. Kind: L -/
theorem takeFile_of_queued (h : Linked σ t) (hback : t.halted = false)
    (hqueue : t.outgoing.fileQ σ.channel ≠ []) : ∃ t', step σ t .takeFile = some t' := by
  obtain ⟨path, paths, hpaths⟩ := List.exists_cons_of_ne_nil hqueue
  have hqueued := h.queued
  rw [hpaths, List.length_cons] at hqueued
  obtain ⟨⟨uuid, size⟩, owed, howed⟩ := List.exists_cons_of_length_pos (by omega : 0 < t.owed.length)
  simp only [step, hback, Outgoing.getItem, hpaths, howed]
  cases hopened : t.opened path with
  | none => exact ⟨_, rfl⟩
  | some source => exact ⟨_, rfl⟩

/-- **The worker never finds a path without an acceptance**: in every run, once it is back from its
loop, it takes the next path of its queue. Kind: P -/
theorem takeFile_of_run (σ : Setting) (es : List Event) :
    Runs.Always (step σ) (fun t => t.halted = false → t.outgoing.fileQ σ.channel ≠ [] →
      ∃ t', step σ t .takeFile = some t') (initial σ) es := by
  have hlinked : Runs.Always (step σ) (Linked σ) (initial σ) es := by
    apply Runs.always_of_invariant
    · exact fun t e t' h he => linked_step h he
    · exact linked_initial
  exact hlinked.imp _ fun t h => takeFile_of_queued h

/-! ## Framing -/

/-- Whose bytes are on the channel, byte by byte. Kind: D -/
def owners (sent : List Transmission) : List Str :=
  sent.flatMap fun s => List.replicate s.messages.flatten.length s.offer

/-- Whose bytes a receiver takes them for that counts the announced sizes. Kind: D -/
def counted (sizes : List (Str × ℕ)) : List Str :=
  sizes.flatMap fun s => List.replicate s.2 s.1

/-- Every accepted offer that the worker is done with got as many bytes as were announced, and a
counting receiver takes every byte for what it is. Kind: D -/
structure Framed (t : Sender) : Prop where
  sizes : ∀ s ∈ t.sent, s.messages.flatten.length = s.size
  attributed : owners t.sent <+: counted (t.sent.map (fun s => (s.offer, s.size)) ++ t.owed)

/-- How many bytes a file gives when the worker takes it. Kind: D -/
def deliverable (σ : Setting) (t : Sender) (path : Str) : ℕ :=
  if σ.maxMessageSize = 0 then 0
  else ((t.opened path).map fun source => source.readable.length).getD 0

/-- A file that the worker takes is as long as announced. Kind: D -/
def sendable (σ : Setting) (t : Sender) : Event → Bool
  | .takeFile =>
    match t.outgoing.getItem σ.channel, t.owed with
    | some (path, _), (_, size) :: _ => deliverable σ t path = size
    | _, _ => true
  | _ => true

/-- Where every count is right, every byte is taken for what it is. Kind: L -/
theorem framed_of_sizes (h : ∀ s ∈ t.sent, s.messages.flatten.length = s.size) : Framed t := by
  refine ⟨h, ?_⟩
  have howners : owners t.sent = counted (t.sent.map fun s => (s.offer, s.size)) := by
    unfold owners counted
    rw [List.flatMap_map]
    refine List.flatMap_congr fun s hs => ?_
    rw [h s hs]
  unfold counted at howners ⊢
  rw [howners, List.flatMap_append]
  exact List.prefix_append _ _

/-- Everything a step can do to what was sent: nothing, or append a transmission of as many bytes
as the file gives. Kind: L -/
theorem sent_step (he : step σ t e = some t') :
    (sendable σ t e = true ∧ t'.sent = t.sent) ∨
    ∃ transmission, t'.sent = t.sent ++ [transmission] ∧
      (sendable σ t e = true ↔ transmission.messages.flatten.length = transmission.size) := by
  cases e with
  | change path source =>
      obtain rfl := Option.some.inj he
      exact .inl ⟨rfl, rfl⟩
  | offer uuid path =>
      simp only [step] at he
      split at he
      · cases he
      · split at he
        all_goals
          obtain rfl := Option.some.inj he
          exact .inl ⟨rfl, rfl⟩
  | fileAccept uuid =>
      obtain rfl := Option.some.inj he
      exact .inl ⟨rfl, rfl⟩
  | fileReject uuid =>
      obtain rfl := Option.some.inj he
      exact .inl ⟨rfl, rfl⟩
  | takeFile =>
      simp only [step] at he
      split at he
      · rename_i path outgoing uuid size owed _ hitem howed
        have hsendable : sendable σ t .takeFile = true ↔ deliverable σ t path = size := by
          simp only [sendable, hitem, howed, decide_eq_true_eq]
        rw [hsendable]
        cases hopened : t.opened path with
        | none =>
            simp only [hopened, Option.some.injEq] at he
            subst he
            refine .inr ⟨_, rfl, ?_⟩
            simp [deliverable, hopened]
        | some source =>
            simp only [hopened, Option.some.injEq] at he
            subst he
            refine .inr ⟨_, rfl, ?_⟩
            by_cases hc : σ.maxMessageSize = 0
            · simp [deliverable, hc, chunks]
            · have hflatten := flatten_chunks (Nat.pos_of_ne_zero hc) source.readable
              simp [deliverable, hc, hopened, hflatten]
      · cases he

/-- **Every accepted offer gets the announced number of bytes in exactly the runs in which every
file the worker takes is, at that moment, as long as announced.** Kind: P -/
theorem framed_iff_sendable (σ : Setting) (es : List Event) :
    Runs.Always (step σ) Framed (initial σ) es ↔
      Runs.Meets (step σ) (fun t e => sendable σ t e = true) (initial σ) es := by
  refine Runs.always_iff_meets _ (I := fun _ => True) (fun _ _ _ _ _ => trivial) ?_ ?_ trivial ?_
  · intro t e t' _ hframed hsend he
    apply framed_of_sizes
    rcases sent_step he with ⟨-, hsame⟩ | ⟨transmission, hsent, hiff⟩
    · rw [hsame]
      exact hframed.sizes
    · rw [hsent]
      intro s hs
      rcases List.mem_append.mp hs with hs | hs
      · exact hframed.sizes s hs
      · rw [List.mem_singleton.mp hs]
        exact hiff.mp hsend
  · intro t e t' _ _ hsend he hframed
    rcases sent_step he with ⟨hsend', -⟩ | ⟨transmission, hsent, hiff⟩
    · exact hsend hsend'
    · have hmem : transmission ∈ t'.sent := by
        rw [hsent]
        exact List.mem_append_right _ (List.mem_singleton.mpr rfl)
      exact hsend (hiff.mpr (hframed.sizes transmission hmem))
  · apply framed_of_sizes
    intro s hs
    cases hs

/-- A file is offered, accepted and removed before the worker takes it. Kind: D -/
def removedAfterOffer : List Event :=
  [.change (str "x") (some ⟨[1], none⟩), .offer (str "u") (str "x"), .fileAccept (str "u"),
    .change (str "x") none, .takeFile]

/-- The receiver `b` in the room `r`. Kind: D -/
def toB : Setting := ⟨(str "b", str "r"), 0, 2⟩

/-- No byte is sent for a file that is gone. Kind: P -/
theorem skipped_after_removal : ¬ ∀ σ es, Runs.Always (step σ) Framed (initial σ) es := by
  intro h
  have hany : ((Runs.run (step toB) (initial toB) removedAfterOffer).any fun t =>
      t.sent.any fun s => s.messages.flatten.length ≠ s.size) = true := by decide
  obtain ⟨t, ht, hframed⟩ := (h toB removedAfterOffer).at_end _ hany
  obtain ⟨s, hs, hne⟩ := List.any_eq_true.mp ht
  exact of_decide_eq_true hne (hframed.sizes s hs)

end Sender

end CloudNode
