import CloudNode.Lib.Runs
import CloudNode.Transfer.Incoming
import CloudNode.Transfer.Outgoing

/-!
# A transfer without faults

One sender and one receiver with one data channel. Offers and responses travel one way each, in
order; the channel carries the files' bytes, in order; the sender's worker reads at its own pace.
The two streams meet at the receiver, which never sees where a file ends in the second: it counts.

* `Flowing` — the invariant: what is on the channel, in the worker, on its queue and on its way
  there is, message by message, what the receiver's queue still waits for.
* `delivered_intact` — so an accepted file holds the offered bytes when it completes, files
  complete in the order they were accepted, and when everything is delivered none is left.
-/

namespace CloudNode

/-- A `file_offer` on its way, with the file it is for. Kind: D -/
structure FileOffer where
  uuid : Str
  path : Str
  size : ℤ

/-- The two clients and what is on its way between them. `accepted` lists the uuid and path of
the offers the receiver accepted, in that order; `offered` the uuids used. Kind: D -/
structure Transfer (β : Type) where
  outgoing : Outgoing
  /-- What the worker has not read of its file yet; `none` while it waits for a path. -/
  worker : Option (List β) := none
  toReceiver : List FileOffer := []
  toSender : List (Incoming.Response × Str) := []
  channel : List (List β) := []
  incoming : Incoming (Str × Str) β := {}
  offered : List Str := []
  accepted : List (Str × Str) := []

namespace Transfer

open Incoming

/-- What does not change during a run: who talks to whom, what the sender's files hold, and the
size of the worker's buffer. Kind: D -/
structure Setting (β : Type) where
  /-- The receiver and the room, the key of the sender's tables. -/
  receiver : PeerRoomKey
  /-- The sender and the room, the key of the receiver's. -/
  sender : PeerRoomKey
  content : Str → List β
  maxMessageSize : ℕ
  absolute : Str → Str

variable {β : Type} (σ : Setting β)

/-- The channel's identity. Kind: D -/
def theChannel : Channel := 0

/-- At first there is the channel, and nothing else. Kind: D -/
def initial : Transfer β where
  outgoing := { dataChannels := (∅ : Std.ExtTreeMap PeerRoomKey Channel).insert σ.receiver theChannel }

/-- Whose turn it is. Kind: D -/
inductive Event where
  | offer (uuid path : Str)
  | deliverOffer (verdict : Verdict)
  | deliverResponse
  | takeFile
  | sendChunk
  | deliverChunk

/-- One turn: the sender offers a file, with a fresh uuid; the receiver answers an offer; the sender
handles an answer; the worker takes a path from its queue; it turns in its loop; the receiver
handles a message of the channel. No destination fails, and no write. Kind: D -/
def step (t : Transfer β) : Event → Option (Transfer β)
  | .offer uuid path =>
    if uuid ∈ t.offered then none
    else some { t with
      outgoing := t.outgoing.register uuid ⟨σ.receiver, path⟩
      toReceiver := t.toReceiver ++ [⟨uuid, path, (σ.content path).length⟩]
      offered := uuid :: t.offered }
  | .deliverOffer verdict =>
    match t.toReceiver with
    | [] => none
    | o :: rest =>
      let out := onFileOffer σ.absolute (fun _ => .ready) σ.sender (o.uuid, o.path) o.size verdict
        t.incoming
      some { t with
        toReceiver := rest
        toSender := t.toSender ++ (out.1.map fun response => (response, o.uuid)).toList
        incoming := out.2
        accepted := if out.1 = some .accept then t.accepted ++ [(o.uuid, o.path)] else t.accepted }
  | .deliverResponse =>
    match t.toSender with
    | [] => none
    | (.accept, uuid) :: rest =>
      some { t with toSender := rest, outgoing := t.outgoing.onFileAccept (some uuid) }
    | (.reject, uuid) :: rest =>
      some { t with toSender := rest, outgoing := t.outgoing.onFileReject (some uuid) }
  | .takeFile =>
    match t.worker, t.outgoing.getItem theChannel with
    | none, some (path, outgoing) =>
      some { t with worker := some (σ.content path), outgoing := outgoing }
    | _, _ => none
  | .sendChunk =>
    match t.worker with
    | none => none
    | some left =>
      match sendTurn σ.maxMessageSize left with
      | none => some { t with worker := none }
      | some (chunk, left) => some { t with worker := some left, channel := t.channel ++ [chunk] }
  | .deliverChunk =>
    match t.channel with
    | [] => none
    | chunk :: rest =>
      some { t with
        channel := rest
        incoming := (onIncomingChunk σ.absolute (fun _ => .ready) none σ.sender chunk t.incoming).2 }

/-! ## The receiver's bookkeeping -/

/-- The offers that were completed, in order. Kind: D -/
def completedOffers {ι β : Type} : List (Receipt ι β) → List ι :=
  List.filterMap fun
    | .completed offer _ => some offer
    | _ => none

/-- What an entry still waits for. Kind: D -/
def remaining (content : Str → List β) (file : IncomingFile (Str × Str)) : List β :=
  (content file.offer.2).drop (file.stream.getD 0)

/-- The messages that complete a queue. Kind: D -/
def awaited (c : ℕ) (content : Str → List β) (queue : List (IncomingFile (Str × Str))) :
    List (List β) :=
  queue.flatMap fun file => chunks c (remaining content file)

/-- A queue expects what was offered, and its front file holds what it was sent. Kind: D -/
structure Faithful (content : Str → List β) (queue : List (IncomingFile (Str × Str)))
    (files : Files (Str × Str) β) : Prop where
  sizes : ∀ file ∈ queue, file.expectedSize = (content file.offer.2).length
  front : ∀ file rest, queue = file :: rest →
    files.content file.destination = (content file.offer.2).take (file.stream.getD 0)
  completed : ∀ offer held, .completed offer held ∈ files.log → held = content offer.2

/-- Starting what waits keeps the queue faithful and in order, and what it awaits. Kind: L -/
theorem faithful_of_started {c : ℕ} {content : Str → List β}
    {queue : List (IncomingFile (Str × Str))} {files : Files (Str × Str) β}
    {out : List (IncomingFile (Str × Str)) × Files (Str × Str) β}
    (h : Started False queue files out) (hclosed : ∀ file ∈ queue, file.stream = none)
    (hsizes : ∀ file ∈ queue, file.expectedSize = (content file.offer.2).length)
    (hcompleted : ∀ offer held, .completed offer held ∈ files.log → held = content offer.2) :
    Faithful content out.1 out.2 ∧ awaited c content out.1 = awaited c content queue ∧
      completedOffers out.2.log ++ out.1.map (·.offer) =
        completedOffers files.log ++ queue.map (·.offer) := by
  induction h with
  | nil s => exact ⟨⟨hsizes, by simp, hcompleted⟩, rfl, rfl⟩
  | dropped hfaulty => exact hfaulty.elim
  | @empty next rest s s' out hsize hlog hrest ih =>
      have hclosed' : ∀ file ∈ rest, file.stream = none :=
        fun file hfile => hclosed file (List.mem_cons_of_mem _ hfile)
      have hsizes' : ∀ file ∈ rest, file.expectedSize = (content file.offer.2).length :=
        fun file hfile => hsizes file (List.mem_cons_of_mem _ hfile)
      -- an empty file is complete with no bytes
      have hempty : content next.offer.2 = [] := by
        have hlength := hsizes next (List.mem_cons_self ..)
        rw [hsize] at hlength
        exact List.length_eq_zero_iff.mp (by omega)
      have hcompleted' : ∀ offer held, .completed offer held ∈ s'.log → held = content offer.2 := by
        intro offer held hmem
        rw [hlog, List.mem_append, List.mem_singleton] at hmem
        rcases hmem with hmem | hmem
        · exact hcompleted offer held hmem
        · cases hmem
          exact hempty.symm
      obtain ⟨hfaithful, hawaited, horder⟩ := ih hclosed' hsizes' hcompleted'
      refine ⟨hfaithful, ?_, ?_⟩
      · rw [hawaited]
        simp [awaited, remaining, hempty]
      · rw [horder, hlog]
        simp [completedOffers]
  | @opened next rest s s' hsize hlog hcontent =>
      refine ⟨⟨?_, ?_, ?_⟩, ?_, ?_⟩
      · intro file hfile
        rcases List.mem_cons.mp hfile with rfl | hfile
        · exact hsizes next (List.mem_cons_self ..)
        · exact hsizes file (List.mem_cons_of_mem _ hfile)
      · intro file rest' heq
        obtain ⟨rfl, -⟩ := List.cons.inj heq
        simpa using hcontent
      · exact fun offer held hmem => hcompleted offer held (hlog ▸ hmem)
      · simp [awaited, remaining, hclosed next (List.mem_cons_self ..)]
      · rw [hlog]
        rfl

section receiver

variable {c : ℕ} {content : Str → List β} {s : Incoming (Str × Str) β} {key : PeerRoomKey}
  (absolute : Str → Str)

/-- No preparation fails. Kind: L -/
theorem started_of_ready {queue : List (IncomingFile (Str × Str))} (files : Files (Str × Str) β)
    (hwaiting : ∀ file ∈ queue, file.lock = false ∧ file.stream = none) :
    Started False queue files (startNextIncoming absolute (fun _ => .ready) queue files) := by
  refine Started.mono ?_ (started_of_waiting absolute (fun _ => .ready) files hwaiting)
  rintro ⟨i, hi⟩
  exact hi rfl

/-- An accepted offer is awaited after everything else. Kind: L -/
theorem faithful_enqueue (file : IncomingFile (Str × Str))
    (hfaithful : Faithful content (s.queueOf key) s.files) (hlock : file.lock = false)
    (hstream : file.stream = none) (hsize : file.expectedSize = (content file.offer.2).length) :
    let s' := enqueue absolute (fun _ => .ready) key file s
    Faithful content (s'.queueOf key) s'.files ∧
      awaited c content (s'.queueOf key) =
        awaited c content (s.queueOf key) ++ chunks c (content file.offer.2) ∧
      completedOffers s'.files.log ++ (s'.queueOf key).map (·.offer) =
        completedOffers s.files.log ++ (s.queueOf key).map (·.offer) ++ [file.offer] := by
  have hawaited : awaited c content [file] = chunks c (content file.offer.2) := by
    simp [awaited, remaining, hstream]
  cases hqueue : s.queueOf key with
  | nil =>
      rw [enqueue_of_empty absolute hqueue]
      simp only [queueOf_store_same, files_store]
      have hwaiting : ∀ f ∈ [file], f.lock = false ∧ f.stream = none := by
        intro f hf
        rw [List.mem_singleton] at hf
        exact hf ▸ ⟨hlock, hstream⟩
      have hsizes : ∀ f ∈ [file], f.expectedSize = (content f.offer.2).length := by
        intro f hf
        rw [List.mem_singleton] at hf
        exact hf ▸ hsize
      obtain ⟨hfaithful', hawaited', horder⟩ := faithful_of_started (c := c)
        (started_of_ready absolute s.files hwaiting)
        (fun f hf => (hwaiting f hf).2) hsizes hfaithful.completed
      refine ⟨hfaithful', ?_, ?_⟩
      · rw [hawaited', hawaited]
        rfl
      · rw [horder]
        simp
  | cons front rest =>
      rw [enqueue_of_queue absolute hqueue]
      simp only [queueOf_store_same, files_store]
      rw [hqueue] at hfaithful
      refine ⟨⟨?_, ?_, hfaithful.completed⟩, ?_, ?_⟩
      · intro f hf
        rcases List.mem_append.mp hf with hf | hf
        · exact hfaithful.sizes f hf
        · rw [List.mem_singleton] at hf
          exact hf ▸ hsize
      · intro f rest' heq
        obtain ⟨rfl, -⟩ := List.cons.inj heq
        exact hfaithful.front front rest rfl
      · rw [← hawaited]
        simp [awaited]
      · simp

/-- The next awaited message is the next piece of the front file. Kind: L -/
theorem front_of_awaited {chunk : List β} {more : List (List β)} (hc : 0 < c)
    (hs : s.WellFormed) (hfaithful : Faithful content (s.queueOf key) s.files)
    (hawaited : awaited c content (s.queueOf key) = chunk :: more) :
    ∃ front rest pos, s.queueOf key = front :: rest ∧ front.stream = some pos ∧
      pos < (content front.offer.2).length ∧
      chunk = ((content front.offer.2).drop pos).take c ∧
      more = chunks c ((content front.offer.2).drop (pos + chunk.length)) ++
        awaited c content rest := by
  cases hqueue : s.queueOf key with
  | nil =>
      rw [hqueue] at hawaited
      cases hawaited
  | cons front rest =>
      have hok := hs.queueOk hqueue
      obtain ⟨⟨-, hne, pos, hpos, hless⟩, -⟩ := hok
      have hsize := hfaithful.sizes front (hqueue ▸ List.mem_cons_self ..)
      have hlt : pos < (content front.offer.2).length := by
        rcases hless with rfl | hless
        · omega
        · omega
      have hremaining : remaining content front = (content front.offer.2).drop pos := by
        simp [remaining, hpos]
      have hleft : (content front.offer.2).drop pos ≠ [] := by
        intro hnil
        rw [List.drop_eq_nil_iff] at hnil
        omega
      rw [hqueue] at hawaited
      have hsplit : awaited c content (front :: rest) =
          chunks c ((content front.offer.2).drop pos) ++ awaited c content rest := by
        rw [← hremaining]
        rfl
      rw [hsplit, chunks_of_ne_nil hc hleft, List.cons_append, List.cons.injEq] at hawaited
      obtain ⟨hchunk, hmore⟩ := hawaited
      refine ⟨front, rest, pos, rfl, hpos, hlt, hchunk.symm, ?_⟩
      rw [← hmore, ← hchunk, List.drop_drop]
      congr 1
      -- a short last piece and a full one leave the same of the file
      by_cases hlast : c ≤ (content front.offer.2).length - pos
      · rw [List.length_take, List.length_drop, Nat.min_eq_left hlast]
      · rw [List.length_take, List.length_drop, Nat.min_eq_right (by omega),
          List.drop_eq_nil_of_le (by omega), List.drop_eq_nil_of_le (by omega)]

/-- The next awaited message goes where it belongs. Kind: L -/
theorem faithful_onIncomingChunk {chunk : List β} {more : List (List β)} (hc : 0 < c)
    (hs : s.WellFormed) (hfaithful : Faithful content (s.queueOf key) s.files)
    (hawaited : awaited c content (s.queueOf key) = chunk :: more) :
    let s' := (onIncomingChunk absolute (fun _ => .ready) none key chunk s).2
    Faithful content (s'.queueOf key) s'.files ∧ awaited c content (s'.queueOf key) = more ∧
      completedOffers s'.files.log ++ (s'.queueOf key).map (·.offer) =
        completedOffers s.files.log ++ (s.queueOf key).map (·.offer) := by
  obtain ⟨front, rest, pos, hqueue, hpos, hlt, hchunk, hmore⟩ :=
    front_of_awaited hc hs hfaithful hawaited
  have hsize := hfaithful.sizes front (hqueue ▸ List.mem_cons_self ..)
  have hlength : chunk.length ≤ (content front.offer.2).length - pos := by
    rw [hchunk, List.length_take, List.length_drop]
    omega
  -- what the file holds after the write
  have hheld : s.files.content front.destination = (content front.offer.2).take pos := by
    rw [hfaithful.front front rest hqueue, hpos]
    rfl
  have hprefix : chunk = ((content front.offer.2).drop pos).take chunk.length := by
    rw [hchunk, List.length_take]
    simp
  have hwritten : (wrote front pos chunk s.files).content front.destination =
      (content front.offer.2).take (pos + chunk.length) := by
    have hend : (s.files.content front.destination).length = pos := by
      rw [hheld, List.length_take]
      omega
    unfold wrote
    rw [Files.content_note, Files.content_writeAt_end _ _ hend, hheld, List.take_add, ← hprefix]
  have hwaiting := waiting_of_queueOk (hs.queueOk hqueue)
  by_cases hlast : pos + chunk.length = (content front.offer.2).length
  · have hcomplete : (pos : ℤ) + chunk.length = front.expectedSize := by omega
    rw [onIncomingChunk_complete absolute hqueue hpos hcomplete]
    unfold finish
    simp only [queueOf_store_same, files_store]
    have hfull : (wrote front pos chunk s.files).content front.destination =
        content front.offer.2 := by
      rw [hwritten, hlast, List.take_length]
    have hcompleted : ∀ offer held, .completed offer held ∈
        (((wrote front pos chunk s.files).note (.completed front.offer
          ((wrote front pos chunk s.files).content front.destination))).received
            (absolute front.destination)).log →
        held = content offer.2 := by
      intro offer held hmem
      rw [Files.log_received, Files.log_note, log_wrote, List.mem_append, List.mem_append,
        List.mem_singleton, List.mem_singleton] at hmem
      rcases hmem with (hmem | hmem) | hmem
      · exact hfaithful.completed offer held hmem
      · cases hmem
      · cases hmem
        exact hfull
    obtain ⟨hfaithful', hawaited', horder⟩ := faithful_of_started (c := c)
      (started_of_ready absolute _ hwaiting) (fun f hf => (hwaiting f hf).2)
      (fun f hf => hfaithful.sizes f (hqueue ▸ List.mem_cons_of_mem _ hf)) hcompleted
    refine ⟨hfaithful', ?_, ?_⟩
    · rw [hawaited', hmore, hlast, List.drop_length, chunks_nil, List.nil_append]
    · rw [horder, hqueue]
      simp [completedOffers]
  · have hpartial : (pos : ℤ) + chunk.length < front.expectedSize := by omega
    rw [onIncomingChunk_short absolute hqueue hpos hpartial]
    simp only [queueOf_store_same, files_store]
    refine ⟨⟨?_, ?_, ?_⟩, ?_, ?_⟩
    · intro f hf
      rcases List.mem_cons.mp hf with rfl | hf
      · exact hsize
      · exact hfaithful.sizes f (hqueue ▸ List.mem_cons_of_mem _ hf)
    · intro f rest' heq
      obtain ⟨rfl, -⟩ := List.cons.inj heq
      exact hwritten
    · intro offer held hmem
      rw [log_wrote, List.mem_append, List.mem_singleton] at hmem
      rcases hmem with hmem | hmem
      · exact hfaithful.completed offer held hmem
      · cases hmem
    · rw [hmore]
      rfl
    · rw [hqueue]
      simp [completedOffers]

end receiver

/-! ## What is on its way -/

/-- The paths whose acceptance is on its way to the sender. Kind: D -/
def acceptPaths (outgoing : Outgoing) (responses : List (Response × Str)) : List Str :=
  responses.filterMap fun r => match r.1 with
    | .accept => outgoing.pendingOffers[r.2]?.map (·.path)
    | .reject => none

/-- The messages of some files, one file after the other. Kind: D -/
def messagesOf (paths : List Str) : List (List β) :=
  paths.flatMap fun path => chunks σ.maxMessageSize (σ.content path)

/-- The messages that are still to arrive: those on the channel, what the worker has left to read,
the files on its queue, and the files whose acceptance is on its way. Kind: D -/
def pipeline (t : Transfer β) : List (List β) :=
  t.channel ++ (chunks σ.maxMessageSize (t.worker.getD []) ++
    (messagesOf σ (t.outgoing.fileQ theChannel) ++
      messagesOf σ (acceptPaths t.outgoing t.toSender)))

/-- The offers that are on their way, or whose answer is. Kind: D -/
def inFlight (t : Transfer β) : List Str :=
  t.toReceiver.map (·.uuid) ++ t.toSender.map (·.2)

/-- What every run keeps. Kind: D -/
structure Flowing (t : Transfer β) : Prop where
  wellFormed : t.incoming.WellFormed
  channel : t.outgoing.dataChannels[σ.receiver]? = some theChannel
  faithful : Faithful σ.content (t.incoming.queueOf σ.sender) t.incoming.files
  order : completedOffers t.incoming.files.log ++
    (t.incoming.queueOf σ.sender).map (·.offer) = t.accepted
  flow : pipeline σ t = awaited σ.maxMessageSize σ.content (t.incoming.queueOf σ.sender)
  distinct : (inFlight t).Nodup
  offered : ∀ uuid ∈ inFlight t, uuid ∈ t.offered
  offers : ∀ o ∈ t.toReceiver, o.size = (σ.content o.path).length ∧
    t.outgoing.pendingOffers[o.uuid]? = some ⟨σ.receiver, o.path⟩
  responses : ∀ r ∈ t.toSender, ∃ path, t.outgoing.pendingOffers[r.2]? = some ⟨σ.receiver, path⟩

/-- At first nothing is on its way. Kind: L -/
theorem flowing_initial : Flowing σ (initial σ) where
  wellFormed := wellFormed_empty
  channel := getElem?_insert_same _ _ _
  faithful := by
    have hnone : (initial σ).incoming.queueOf σ.sender = [] := by simp [initial, queueOf]
    rw [hnone]
    exact ⟨by simp, by simp, by simp [initial]⟩
  order := by simp [initial, queueOf, completedOffers]
  flow := by simp [pipeline, initial, messagesOf, acceptPaths, queueOf, awaited]
  distinct := List.nodup_nil
  offered := by simp [inFlight, initial]
  offers := by simp [initial]
  responses := by simp [initial]

/-- Tables that agree on the answered offers. Kind: L -/
theorem acceptPaths_congr {outgoing outgoing' : Outgoing} {responses : List (Response × Str)}
    (h : ∀ r ∈ responses, outgoing'.pendingOffers[r.2]? = outgoing.pendingOffers[r.2]?) :
    acceptPaths outgoing' responses = acceptPaths outgoing responses := by
  unfold acceptPaths
  apply List.filterMap_congr
  intro r hr
  rw [h r hr]

/-- The messages of some files and then others. Kind: L -/
theorem messagesOf_append (paths paths' : List Str) :
    messagesOf σ (paths ++ paths') = messagesOf σ paths ++ messagesOf σ paths' := by
  unfold messagesOf
  rw [List.flatMap_append]

variable {σ} {t t' : Transfer β}

/-- The sender offers a file. Kind: L -/
theorem flowing_offer (h : Flowing σ t) {uuid path : Str}
    (hstep : step σ t (.offer uuid path) = some t') : Flowing σ t' := by
  simp only [step] at hstep
  split at hstep
  · cases hstep
  · rename_i hfresh
    cases hstep
    have hne : ∀ u ∈ inFlight t, uuid ≠ u := by
      rintro u hu rfl
      exact hfresh (h.offered uuid hu)
    have hpending : ∀ u ∈ inFlight t,
        (t.outgoing.register uuid ⟨σ.receiver, path⟩).pendingOffers[u]? =
          t.outgoing.pendingOffers[u]? := fun u hu => getElem?_insert_ne _ _ (hne u hu)
    have hanswered : ∀ r ∈ t.toSender, r.2 ∈ inFlight t := fun r hr =>
      List.mem_append_right _ (List.mem_map_of_mem hr)
    have hwaiting : ∀ o ∈ t.toReceiver, o.uuid ∈ inFlight t := fun o ho =>
      List.mem_append_left _ (List.mem_map_of_mem ho)
    refine ⟨h.wellFormed, h.channel, h.faithful, h.order, ?_, ?_, ?_, ?_, ?_⟩
    · rw [← h.flow]
      unfold pipeline
      rw [acceptPaths_congr fun r hr => hpending r.2 (hanswered r hr)]
      rfl
    · have hperm : (inFlight { t with
          toReceiver := t.toReceiver ++ [⟨uuid, path, (σ.content path).length⟩] }).Perm
          (uuid :: inFlight t) := by
        unfold inFlight
        rw [List.map_append, List.append_assoc]
        exact List.perm_middle
      refine hperm.nodup_iff.mpr (List.nodup_cons.mpr ⟨?_, h.distinct⟩)
      exact fun hmem => hne uuid hmem rfl
    · intro u hu
      unfold inFlight at hu
      simp only [List.map_append, List.mem_append, List.map_cons, List.map_nil,
        List.mem_singleton] at hu
      rcases hu with (hu | rfl) | hu
      · exact List.mem_cons_of_mem _ (h.offered u (List.mem_append_left _ hu))
      · exact List.mem_cons_self ..
      · exact List.mem_cons_of_mem _ (h.offered u (List.mem_append_right _ hu))
    · intro o ho
      rcases List.mem_append.mp ho with ho | ho
      · rw [hpending o.uuid (hwaiting o ho)]
        exact h.offers o ho
      · rw [List.mem_singleton] at ho
        subst ho
        exact ⟨rfl, getElem?_insert_same _ _ _⟩
    · intro r hr
      rw [hpending r.2 (hanswered r hr)]
      exact h.responses r hr

/-- The receiver handles an offer. Kind: L -/
theorem flowing_deliverOffer (h : Flowing σ t) {verdict : Verdict}
    (hstep : step σ t (.deliverOffer verdict) = some t') : Flowing σ t' := by
  simp only [step] at hstep
  cases hto : t.toReceiver with
  | nil =>
      rw [hto] at hstep
      cases hstep
  | cons o rest =>
      rw [hto] at hstep
      rw [Option.some.injEq] at hstep
      subst hstep
      have hflight : inFlight t = o.uuid :: (rest.map (·.uuid) ++ t.toSender.map (·.2)) := by
        simp [inFlight, hto]
      have hdistinct := hflight ▸ h.distinct
      have hoffered := hflight ▸ h.offered
      have ho := h.offers o (hto ▸ List.mem_cons_self ..)
      have hoffers : ∀ o' ∈ rest, o'.size = (σ.content o'.path).length ∧
          t.outgoing.pendingOffers[o'.uuid]? = some ⟨σ.receiver, o'.path⟩ :=
        fun o' ho' => h.offers o' (hto ▸ List.mem_cons_of_mem _ ho')
      -- the answer takes the offer's place among what is on its way
      have hperm : ∀ response : Response, (rest.map (·.uuid) ++
          (t.toSender ++ [(response, o.uuid)]).map (·.2)).Perm (inFlight t) := by
        intro response
        rw [hflight, List.map_append, ← List.append_assoc]
        exact List.perm_append_singleton _ _
      have hresponses : ∀ response : Response, ∀ r ∈ t.toSender ++ [(response, o.uuid)],
          ∃ path, t.outgoing.pendingOffers[r.2]? = some ⟨σ.receiver, path⟩ := by
        intro response r hr
        rcases List.mem_append.mp hr with hr | hr
        · exact h.responses r hr
        · rw [List.mem_singleton] at hr
          subst hr
          exact ⟨o.path, ho.2⟩
      rcases @onFileOffer_cases (Str × Str) β σ.absolute t.incoming σ.sender (fun _ => .ready)
        (o.uuid, o.path) o.size verdict with hout | hout | ⟨destination, hout⟩
      · -- no answer
        rw [hout]
        simp only [Option.map_none, Option.toList_none, List.append_nil, reduceCtorEq, if_false]
        refine ⟨h.wellFormed, h.channel, h.faithful, h.order, h.flow, ?_, ?_, hoffers, h.responses⟩
        · exact (List.nodup_cons.mp hdistinct).2
        · exact fun u hu => hoffered u (List.mem_cons_of_mem _ hu)
      · -- rejected
        rw [hout]
        simp only [Option.map_some, Option.toList_some, Option.some.injEq, reduceCtorEq, if_false]
        refine ⟨h.wellFormed, h.channel, h.faithful, h.order, ?_, ?_, ?_, hoffers, hresponses _⟩
        · rw [← h.flow]
          simp [pipeline, acceptPaths]
        · exact (hperm .reject).nodup_iff.mpr h.distinct
        · exact fun u hu => h.offered u ((hperm .reject).mem_iff.mp hu)
      · -- accepted
        rw [hout]
        simp only [Option.map_some, Option.toList_some, if_true]
        have hsize : o.size = ((σ.content o.path).length : ℤ) := ho.1
        let file : IncomingFile (Str × Str) := ⟨(o.uuid, o.path), o.size, destination, false, none⟩
        obtain ⟨hfaithful, hawaited, horder⟩ := faithful_enqueue (c := σ.maxMessageSize)
          σ.absolute file h.faithful rfl rfl hsize
        refine ⟨?_, h.channel, hfaithful, ?_, ?_, ?_, ?_, hoffers, hresponses _⟩
        · exact wellFormed_enqueue σ.absolute h.wellFormed rfl rfl
        · rw [horder, h.order]
        · rw [hawaited, ← h.flow]
          have hpaths : acceptPaths t.outgoing (t.toSender ++ [(Response.accept, o.uuid)]) =
              acceptPaths t.outgoing t.toSender ++ [o.path] := by
            simp [acceptPaths, ho.2]
          unfold pipeline
          rw [hpaths, messagesOf_append]
          simp [messagesOf, file]
        · exact (hperm .accept).nodup_iff.mpr h.distinct
        · exact fun u hu => h.offered u ((hperm .accept).mem_iff.mp hu)

/-- The sender handles an answer. Kind: L -/
theorem flowing_deliverResponse (h : Flowing σ t)
    (hstep : step σ t .deliverResponse = some t') : Flowing σ t' := by
  cases hto : t.toSender with
  | nil =>
      simp only [step, hto] at hstep
      cases hstep
  | cons r rest =>
      obtain ⟨response, uuid⟩ := r
      obtain ⟨path, hpending⟩ := h.responses (response, uuid) (hto ▸ List.mem_cons_self ..)
      have hflight : (inFlight t).Perm
          (uuid :: (t.toReceiver.map (·.uuid) ++ rest.map (·.2))) := by
        unfold inFlight
        rw [hto, List.map_cons]
        exact List.perm_middle
      obtain ⟨hnot, hdistinct⟩ := List.nodup_cons.mp (hflight.nodup_iff.mp h.distinct)
      have hoffered : ∀ u ∈ t.toReceiver.map (·.uuid) ++ rest.map (·.2), u ∈ t.offered :=
        fun u hu => h.offered u (hflight.mem_iff.mpr (List.mem_cons_of_mem _ hu))
      -- the other offers stay pending
      have herase : ∀ u ∈ t.toReceiver.map (·.uuid) ++ rest.map (·.2),
          (t.outgoing.pendingOffers.erase uuid)[u]? = t.outgoing.pendingOffers[u]? := by
        intro u hu
        refine getElem?_erase_ne _ ?_
        rintro rfl
        exact hnot hu
      have hoffers : ∀ o ∈ t.toReceiver, o.size = (σ.content o.path).length ∧
          (t.outgoing.pendingOffers.erase uuid)[o.uuid]? = some ⟨σ.receiver, o.path⟩ := by
        intro o ho
        rw [herase o.uuid (List.mem_append_left _ (List.mem_map_of_mem ho))]
        exact h.offers o ho
      have hresponses : ∀ r ∈ rest, ∃ path,
          (t.outgoing.pendingOffers.erase uuid)[r.2]? = some ⟨σ.receiver, path⟩ := by
        intro r hr
        rw [herase r.2 (List.mem_append_right _ (List.mem_map_of_mem hr))]
        exact h.responses r (hto ▸ List.mem_cons_of_mem _ hr)
      have hpaths : ∀ outgoing : Outgoing,
          outgoing.pendingOffers = t.outgoing.pendingOffers.erase uuid →
          acceptPaths outgoing rest = acceptPaths t.outgoing rest := by
        intro outgoing heq
        refine acceptPaths_congr fun r hr => ?_
        rw [heq]
        exact herase r.2 (List.mem_append_right _ (List.mem_map_of_mem hr))
      cases response with
      | accept =>
          simp only [step, hto, Outgoing.onFileAccept_of_pending hpending h.channel] at hstep
          cases hstep
          refine ⟨h.wellFormed, h.channel, h.faithful, h.order, ?_, hdistinct, hoffered, hoffers,
            hresponses⟩
          rw [← h.flow]
          have hfirst : acceptPaths t.outgoing t.toSender =
              path :: acceptPaths t.outgoing rest := by
            simp [acceptPaths, hto, hpending]
          unfold pipeline
          rw [hfirst]
          simp only [Outgoing.addItem, Function.update_self]
          rw [hpaths _ rfl, messagesOf_append]
          simp [messagesOf]
      | reject =>
          simp only [step, hto, Outgoing.onFileReject_of_pending hpending] at hstep
          cases hstep
          refine ⟨h.wellFormed, h.channel, h.faithful, h.order, ?_, hdistinct, hoffered, hoffers,
            hresponses⟩
          rw [← h.flow]
          have hfirst : acceptPaths t.outgoing t.toSender = acceptPaths t.outgoing rest := by
            simp [acceptPaths, hto]
          unfold pipeline
          rw [hfirst, hpaths _ rfl]

/-- The worker takes a path from its queue. Kind: L -/
theorem flowing_takeFile (h : Flowing σ t) (hstep : step σ t .takeFile = some t') :
    Flowing σ t' := by
  simp only [step] at hstep
  cases hworker : t.worker with
  | some left => simp [hworker] at hstep
  | none =>
      cases hqueue : t.outgoing.fileQ theChannel with
      | nil => simp [hworker, Outgoing.getItem, hqueue] at hstep
      | cons path paths =>
          simp only [hworker, Outgoing.getItem, hqueue] at hstep
          cases hstep
          refine ⟨h.wellFormed, h.channel, h.faithful, h.order, ?_, h.distinct, h.offered, h.offers,
            h.responses⟩
          rw [← h.flow]
          unfold pipeline
          simp only [hworker, hqueue, Function.update_self, Option.getD_some, Option.getD_none,
            chunks_nil, List.nil_append]
          have hpaths : acceptPaths { t.outgoing with
              fileQ := Function.update t.outgoing.fileQ theChannel paths } t.toSender =
              acceptPaths t.outgoing t.toSender := rfl
          rw [hpaths]
          simp [messagesOf]

/-- The worker turns in its loop. Kind: L -/
theorem flowing_sendChunk (hc : 0 < σ.maxMessageSize) (h : Flowing σ t)
    (hstep : step σ t .sendChunk = some t') : Flowing σ t' := by
  simp only [step] at hstep
  cases hworker : t.worker with
  | none => simp [hworker] at hstep
  | some left =>
      rw [hworker] at hstep
      simp only [sendTurn_of_pos hc] at hstep
      by_cases hleft : left = []
      · subst hleft
        cases hstep
        refine ⟨h.wellFormed, h.channel, h.faithful, h.order, ?_, h.distinct, h.offered, h.offers,
          h.responses⟩
        rw [← h.flow]
        simp [pipeline, hworker]
      · simp only [if_neg hleft] at hstep
        cases hstep
        refine ⟨h.wellFormed, h.channel, h.faithful, h.order, ?_, h.distinct, h.offered, h.offers,
          h.responses⟩
        rw [← h.flow]
        simp [pipeline, hworker, chunks_of_ne_nil hc hleft]

/-- The receiver handles a message of the channel. Kind: L -/
theorem flowing_deliverChunk (hc : 0 < σ.maxMessageSize) (h : Flowing σ t)
    (hstep : step σ t .deliverChunk = some t') : Flowing σ t' := by
  simp only [step] at hstep
  cases hchannel : t.channel with
  | nil => simp [hchannel] at hstep
  | cons chunk rest =>
      rw [hchannel] at hstep
      cases hstep
      have hflow := h.flow
      unfold pipeline at hflow
      rw [hchannel, List.cons_append] at hflow
      obtain ⟨hfaithful, hawaited, horder⟩ := faithful_onIncomingChunk σ.absolute hc
        h.wellFormed h.faithful hflow.symm
      refine ⟨wellFormed_onIncomingChunk σ.absolute h.wellFormed, h.channel, hfaithful, ?_, ?_,
        h.distinct, h.offered, h.offers, h.responses⟩
      · rw [horder, h.order]
      · rw [hawaited]
        rfl

/-- Every turn keeps the invariant. Kind: L -/
theorem flowing_step (hc : 0 < σ.maxMessageSize) {e : Event} (h : Flowing σ t)
    (hstep : step σ t e = some t') : Flowing σ t' := by
  cases e with
  | offer uuid path => exact flowing_offer h hstep
  | deliverOffer verdict => exact flowing_deliverOffer h hstep
  | deliverResponse => exact flowing_deliverResponse h hstep
  | takeFile => exact flowing_takeFile h hstep
  | sendChunk => exact flowing_sendChunk hc h hstep
  | deliverChunk => exact flowing_deliverChunk hc h hstep

/-! ## Integrity -/

variable (σ)

/-- Everything is delivered: nothing is on its way, and the worker waits. Kind: D -/
def Delivered (t : Transfer β) : Prop :=
  t.toReceiver = [] ∧ t.toSender = [] ∧ t.channel = [] ∧ t.outgoing.fileQ theChannel = [] ∧
    t.worker = none

/-- The transfer is intact: what completes holds the offered bytes, in the order of acceptance,
and when everything is delivered all of it is complete and no queue is left. Kind: D -/
structure Intact (t : Transfer β) : Prop where
  content : ∀ offer held, .completed offer held ∈ t.incoming.files.log → held = σ.content offer.2
  inOrder : completedOffers t.incoming.files.log <+: t.accepted
  finished : Delivered t → t.incoming.incomingFiles[σ.sender]? = none ∧
    completedOffers t.incoming.files.log = t.accepted

/-- A queue that awaits nothing is empty. Kind: L -/
theorem queue_eq_nil_of_awaited {c : ℕ} {content : Str → List β} {s : Incoming (Str × Str) β}
    {key : PeerRoomKey} (hc : 0 < c) (hs : s.WellFormed)
    (hfaithful : Faithful content (s.queueOf key) s.files)
    (hawaited : awaited c content (s.queueOf key) = []) : s.queueOf key = [] := by
  cases hqueue : s.queueOf key with
  | nil => rfl
  | cons front rest =>
      exfalso
      have hok := hs.queueOk hqueue
      obtain ⟨⟨-, hne, pos, hpos, hless⟩, -⟩ := hok
      have hsize := hfaithful.sizes front (hqueue ▸ List.mem_cons_self ..)
      rw [hqueue] at hawaited
      have hfront : chunks c (remaining content front) = [] :=
        (List.append_eq_nil_iff.mp hawaited).1
      rw [chunks_eq_nil hc, remaining, hpos, Option.getD_some, List.drop_eq_nil_iff] at hfront
      rcases hless with rfl | hless
      · omega
      · omega

/-- A transfer that flows is intact. Kind: L -/
theorem intact_of_flowing (hc : 0 < σ.maxMessageSize) (h : Flowing σ t) : Intact σ t := by
  refine ⟨h.faithful.completed, ⟨_, h.order⟩, ?_⟩
  rintro ⟨-, htoSender, hchannel, hfileQ, hworker⟩
  have hflow := h.flow
  unfold pipeline at hflow
  rw [hchannel, hworker, hfileQ, htoSender] at hflow
  have hawaited : awaited σ.maxMessageSize σ.content (t.incoming.queueOf σ.sender) = [] := by
    rw [← hflow]
    simp [messagesOf, acceptPaths]
  have hqueue := queue_eq_nil_of_awaited hc h.wellFormed h.faithful hawaited
  refine ⟨getElem?_of_queueOf_nil h.wellFormed hqueue, ?_⟩
  rw [← h.order, hqueue, List.map_nil, List.append_nil]

/-- **Fault-free integrity**: in every run, accepted files complete in the order of acceptance with
exactly the offered bytes, and when everything is delivered none is left. Kind: P -/
theorem delivered_intact (hc : 0 < σ.maxMessageSize) (es : List Event) :
    Runs.Always (step σ) (Intact σ) (initial σ) es := by
  refine Runs.Always.imp (step σ) (P := Flowing σ) ?_
    (Runs.always_of_invariant (step σ) ?_ (flowing_initial σ))
  · exact fun _ h => intact_of_flowing σ hc h
  · exact fun _ _ _ h hstep => flowing_step hc h hstep

/-- Files of five bytes and none, sent two bytes at a time. Kind: D -/
def twoBytes : Setting UInt8 where
  receiver := (str "b", str "r")
  sender := (str "a", str "r")
  content := fun path => if path = str "five" then [1, 2, 3, 4, 5] else []
  maxMessageSize := 2
  absolute := id

/-- Two files are offered and accepted into one destination before the first byte is sent.
Kind: D -/
def overlapping : List Event :=
  [.offer (str "u1") (str "five"), .offer (str "u2") (str "none"),
    .deliverOffer (.accepted (str "d")), .deliverOffer (.accepted (str "d")),
    .deliverResponse, .takeFile, .sendChunk, .deliverChunk, .sendChunk, .deliverResponse,
    .sendChunk, .deliverChunk, .deliverChunk, .sendChunk, .takeFile, .sendChunk]

/-- Integrity of a run with overlapping offers. Kind: L -/
theorem delivered_intact_overlapping :
    Runs.Always (step twoBytes) (Intact twoBytes) (initial twoBytes) overlapping :=
  delivered_intact twoBytes (by decide) overlapping

example : ((Runs.run (step twoBytes) (initial twoBytes) overlapping).map fun t =>
    completedOffers t.incoming.files.log) =
      some [(str "u1", str "five"), (str "u2", str "none")] := by
  decide

end Transfer

end CloudNode
