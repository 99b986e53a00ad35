import CloudNode.Lib.Runs
import CloudNode.Transfer.Incoming

/-!
# Where the bytes of a file end up

The receiver of one peer and room, with destinations that fail and channels that are lost. Every
byte carries the offer it was sent for and the channel it arrived on, so that the log tells whose
bytes were written into whose file. The sender does what it should: for every accepted offer, in
the order of acceptance, exactly the offered bytes.

* `clean_iff_placeable` — without losses, no file receives another's bytes in exactly the runs in
  which no message of a file whose entry is gone finds other files queued. The others exist: an
  entry that is dropped for its destination was accepted all the same, and its bytes come.
* `clean_iff_fitting` — with losses, exactly in those in which, besides, no message finds a queued
  file whose transmission was lost with an older channel: nothing takes such a file out.
* `separate_of_fitting` — in these runs no file is continued with bytes of a later channel, and
  what completes holds its own bytes only.
-/

namespace CloudNode

/-- A byte with the offer it was sent for and the channel it arrived on. Kind: D -/
structure Tagged where
  offer : ℕ
  channel : ℕ
  value : UInt8
  deriving DecidableEq

/-- What the sender has still to transmit of an accepted file. Kind: D -/
structure Block where
  offer : ℕ
  left : List UInt8

/-- The receiver, and the sender's side of what it accepted. Offers and channels are numbered in
their order. Kind: D -/
structure Reception where
  incoming : Incoming ℕ Tagged := {}
  /-- Accepted files whose acceptance the sender has not handled. -/
  awaiting : List Block := []
  /-- Files that the sender transmits on the channel, the front one in part. -/
  sending : List Block := []
  /-- Files whose transmission was lost, each with the last channel there was. -/
  stranded : List (ℕ × ℕ) := []
  /-- There is a channel. -/
  up : Bool := true
  /-- The number of the channel. -/
  epoch : ℕ := 0
  /-- The number of the next offer. -/
  next : ℕ := 0

namespace Reception

open Incoming

/-- The receiver's key and its working directory. Kind: D -/
structure Setting where
  key : PeerRoomKey
  absolute : Str → Str

variable (σ : Setting)

/-- What can happen. Kind: D -/
inductive Event where
  /-- An offer arrives; `prepare` is how the destinations it leads to turn out. -/
  | offer (content : List UInt8) (verdict : Verdict) (prepare : ℕ → Preparation)
  /-- The sender handles the next acceptance. -/
  | acceptHandled
  /-- A message of that many bytes arrives on the channel. -/
  | chunk (n : ℕ) (prepare : ℕ → Preparation)
  /-- The channel goes away, by itself or with the signalling connection. -/
  | lost
  /-- The peer negotiates a new channel. -/
  | negotiated

/-- The sender handles an acceptance: what there is to transmit goes to the channel, if there is
one. Source: `WebRTCClient.cpp`, `OnFileAccept`. Kind: D -/
def handle (block : Block) (t : Reception) : Reception :=
  if block.left = [] then t
  else if t.up then { t with sending := t.sending ++ [block] }
  else { t with stranded := t.stranded ++ [(block.offer, t.epoch)] }

/-- A message of the next bytes of a file. Kind: D -/
def message (t : Reception) (block : Block) (n : ℕ) : List Tagged :=
  (block.left.take n).map fun value => ⟨block.offer, t.epoch, value⟩

/-- One event. A message holds bytes of one file only. What is on a channel that goes away is
lost; neither that nor a new channel touches the receiver's queues.
Source: `WebRTCClient.cpp`, `OnFileOffer`, `OnIncomingChunk`, `OnMessageClose`, `OnOffer`
Kind: D -/
def step (t : Reception) : Event → Option Reception
  | .offer content verdict prepare =>
    let out := onFileOffer σ.absolute prepare σ.key t.next content.length verdict t.incoming
    some { t with
      incoming := out.2
      awaiting := if out.1 = some .accept then t.awaiting ++ [⟨t.next, content⟩] else t.awaiting
      next := t.next + 1 }
  | .acceptHandled =>
    match t.awaiting with
    | [] => none
    | block :: rest => some (handle block { t with awaiting := rest })
  | .chunk n prepare =>
    match t.sending with
    | [] => none
    | block :: rest =>
      if t.up ∧ 0 < n ∧ n ≤ block.left.length then
        some { t with
          incoming := (onIncomingChunk σ.absolute prepare none σ.key (message t block n) t.incoming).2
          sending := if n = block.left.length then rest
            else { block with left := block.left.drop n } :: rest }
      else none
  | .lost =>
    some { t with
      up := false
      sending := []
      stranded := t.stranded ++ t.sending.map fun block => (block.offer, t.epoch) }
  | .negotiated => if t.up then none else some { t with up := true, epoch := t.epoch + 1 }

/-- The event is no loss and no new channel. Kind: D -/
def steady : Event → Bool
  | .lost | .negotiated => false
  | _ => true

/-- One event of a transfer that keeps its channel. Kind: D -/
def stepSteady (t : Reception) (e : Event) : Option Reception :=
  if steady e then step σ t e else none

/-! ## The properties and their conditions -/

/-- The queue of the peer and room. Kind: D -/
def queue (t : Reception) : List (IncomingFile ℕ) := t.incoming.queueOf σ.key

/-- No byte was written into another file than the one it was sent for. Kind: D -/
def Clean (t : Reception) : Prop :=
  ∀ offer bytes, .wrote offer bytes ∈ t.incoming.files.log → ∀ b ∈ bytes, b.offer = offer

/-- No file whose transmission was lost with a channel was continued with bytes of a later one,
and every complete file holds its own bytes only. Kind: D -/
structure Separate (t : Reception) : Prop where
  channels : ∀ offer channel, (offer, channel) ∈ t.stranded →
    ∀ bytes, .wrote offer bytes ∈ t.incoming.files.log → ∀ b ∈ bytes, b.channel ≤ channel
  completed : ∀ offer held, .completed offer held ∈ t.incoming.files.log →
    ∀ b ∈ held, b.offer = offer

/-- The file has an entry in the queue. Kind: D -/
def queued (t : Reception) (offer : ℕ) : Bool :=
  (queue σ t).any fun file => file.offer = offer

/-- The file that the next message is of still has its entry, or nothing is queued. Kind: D -/
def placeable (t : Reception) : Event → Bool
  | .chunk _ _ => (queue σ t).isEmpty || t.sending.head?.all fun block => queued σ t block.offer
  | _ => true

/-- The step is placeable, and a message finds no queued file whose transmission was lost.
Kind: D -/
def fitting (t : Reception) (e : Event) : Bool :=
  placeable σ t e &&
    match e with
    | .chunk _ _ => !t.stranded.any fun lost => queued σ t lost.1
    | _ => true

variable {σ} {t t' : Reception} {e : Event}

/-! ## One step -/

/-- The bytes of a message are of its file and come on the channel there is. Kind: L -/
theorem mem_message {block : Block} {n : ℕ} {b : Tagged} (h : b ∈ message t block n) :
    b.offer = block.offer ∧ b.channel = t.epoch := by
  unfold message at h
  obtain ⟨value, -, rfl⟩ := List.mem_map.mp h
  exact ⟨rfl, rfl⟩

/-- How many bytes a message holds. Kind: L -/
theorem length_message {block : Block} {n : ℕ} (h : n ≤ block.left.length) :
    (message t block n).length = n := by
  unfold message
  rw [List.length_map, List.length_take]
  omega

/-- A message of some bytes comes from a block that has some. Kind: L -/
theorem left_ne_nil {block : Block} {n : ℕ} (hn : 0 < n) (h : n ≤ block.left.length) :
    block.left ≠ [] := by
  apply List.ne_nil_of_length_pos
  omega

/-- Everything an offer can do. Kind: L -/
theorem offer_cases {content : List UInt8} {verdict : Verdict} {prepare : ℕ → Preparation}
    (h : step σ t (.offer content verdict prepare) = some t') :
    t' = { t with next := t.next + 1 } ∨ ∃ destination, t' = { t with
      incoming := enqueue σ.absolute prepare σ.key
        { offer := t.next, expectedSize := content.length, destination := destination } t.incoming
      awaiting := t.awaiting ++ [⟨t.next, content⟩]
      next := t.next + 1 } := by
  simp only [step, Option.some.injEq] at h
  rcases @onFileOffer_cases _ _ σ.absolute t.incoming σ.key prepare t.next
    content.length verdict with hout | hout | ⟨destination, hout⟩
  · rw [hout] at h
    exact .inl h.symm
  · rw [hout] at h
    exact .inl h.symm
  · rw [hout] at h
    exact .inr ⟨destination, h.symm⟩

/-- Everything a message can do. Kind: L -/
theorem chunk_cases {n : ℕ} {prepare : ℕ → Preparation}
    (h : step σ t (.chunk n prepare) = some t') :
    ∃ block rest, t.sending = block :: rest ∧ 0 < n ∧ n ≤ block.left.length ∧ t' = { t with
      incoming := (onIncomingChunk σ.absolute prepare none σ.key (message t block n) t.incoming).2
      sending := if n = block.left.length then rest
        else { block with left := block.left.drop n } :: rest } := by
  unfold step at h
  cases hsending : t.sending with
  | nil => simp only [hsending, reduceCtorEq] at h
  | cons block rest =>
      simp only [hsending] at h
      split at h
      · rename_i hfits
        exact ⟨block, rest, rfl, hfits.2.1, hfits.2.2, (Option.some.inj h).symm⟩
      · cases h

/-- Everything a handled acceptance can do. Kind: L -/
theorem acceptHandled_cases (h : step σ t .acceptHandled = some t') :
    ∃ block rest, t.awaiting = block :: rest ∧
      (block.left = [] ∧ t' = { t with awaiting := rest } ∨
       block.left ≠ [] ∧ t.up = true ∧
         t' = { t with awaiting := rest, sending := t.sending ++ [block] } ∨
       t.up = false ∧ t' = { t with
         awaiting := rest, stranded := t.stranded ++ [(block.offer, t.epoch)] }) := by
  unfold step at h
  cases hawaiting : t.awaiting with
  | nil => simp only [hawaiting, reduceCtorEq] at h
  | cons block rest =>
      simp only [hawaiting, Option.some.injEq] at h
      refine ⟨block, rest, rfl, ?_⟩
      unfold handle at h
      by_cases hleft : block.left = []
      · rw [if_pos hleft] at h
        exact .inl ⟨hleft, h.symm⟩
      · rw [if_neg hleft] at h
        by_cases hup : t.up = true
        · rw [if_pos hup] at h
          exact .inr (.inl ⟨hleft, hup, h.symm⟩)
        · rw [if_neg hup] at h
          exact .inr (.inr ⟨by simpa using hup, h.symm⟩)

/-- Everything a new channel can do. Kind: L -/
theorem negotiated_cases (h : step σ t .negotiated = some t') :
    t.up = false ∧ t' = { t with up := true, epoch := t.epoch + 1 } := by
  unfold step at h
  by_cases hup : t.up = true
  · simp [hup] at h
  · simp only [hup] at h
    exact ⟨by simpa using hup, (Option.some.inj h).symm⟩

/-! ## Entries and blocks -/

/-- Files whose transmission was lost. Kind: D -/
def gone (t : Reception) : List ℕ := t.stranded.map Prod.fst

/-- What the entries of a queue still miss, apart from empty files and files without a
transmission. Kind: D -/
def slots (gone : List ℕ) (files : List (IncomingFile ℕ)) : List (ℕ × ℤ) :=
  (files.filter fun file => file.expectedSize ≠ 0 ∧ file.offer ∉ gone).map fun file =>
    (file.offer, file.expectedSize - (file.stream.getD 0 : ℕ))

/-- What the blocks still hold, apart from empty files. Kind: D -/
def supplies (blocks : List Block) : List (ℕ × ℤ) :=
  (blocks.filter fun block => block.left ≠ []).map fun block =>
    (block.offer, (block.left.length : ℤ))

/-- The entries miss what the blocks hold, where a block may have lost its entry. Kind: D -/
def Aligned (σ : Setting) (t : Reception) : Prop :=
  List.Sublist (slots (gone t) (queue σ t)) (supplies (t.sending ++ t.awaiting))

/-- Entries and blocks are in the order of their offers, and a file that is gone is older than
what is still to be transmitted. Kind: D -/
structure Sorted (entries blocks gone : List ℕ) (next : ℕ) : Prop where
  entriesSorted : entries.Pairwise (· < ·)
  blocksSorted : blocks.Pairwise (· < ·)
  old : ∀ o, o ∈ entries ∨ o ∈ blocks ∨ o ∈ gone → o < next
  older : ∀ o ∈ gone, ∀ b ∈ blocks, o < b

/-- What holds of every reception. Kind: D -/
structure Ordered (σ : Setting) (t : Reception) : Prop where
  wellFormed : t.incoming.WellFormed
  sorted : Sorted ((queue σ t).map IncomingFile.offer)
    ((t.sending ++ t.awaiting).map Block.offer) (gone t) t.next
  down : t.up = false → t.sending = []

section sorted

variable {entries entries' blocks blocks' gone more : List ℕ} {next next' : ℕ}

/-- Fewer entries and blocks. Kind: L -/
theorem Sorted.shrink (h : Sorted entries blocks gone next) (hentries : List.Sublist entries' entries)
    (hblocks : List.Sublist blocks' blocks) : Sorted entries' blocks' gone next where
  entriesSorted := h.entriesSorted.sublist hentries
  blocksSorted := h.blocksSorted.sublist hblocks
  old o ho := h.old o (ho.imp (hentries.subset ·) (Or.imp_left (hblocks.subset ·)))
  older o ho b hb := h.older o ho b (hblocks.subset hb)

/-- A new offer. Kind: L -/
theorem Sorted.push (h : Sorted entries blocks gone next) :
    Sorted (entries ++ [next]) (blocks ++ [next]) gone (next + 1) := by
  constructor
  · rw [List.pairwise_append]
    refine ⟨h.entriesSorted, List.pairwise_singleton _ _, fun o ho b hb => ?_⟩
    rw [List.mem_singleton.mp hb]
    exact h.old o (.inl ho)
  · rw [List.pairwise_append]
    refine ⟨h.blocksSorted, List.pairwise_singleton _ _, fun o ho b hb => ?_⟩
    rw [List.mem_singleton.mp hb]
    exact h.old o (.inr (.inl ho))
  · intro o ho
    rw [List.mem_append, List.mem_append, List.mem_singleton] at ho
    have hold := h.old o
    rcases ho with (ho | rfl) | (ho | rfl) | ho
    · have := hold (.inl ho)
      omega
    · omega
    · have := hold (.inr (.inl ho))
      omega
    · omega
    · have := hold (.inr (.inr ho))
      omega
  · intro o ho b hb
    rcases List.mem_append.mp hb with hb | hb
    · exact h.older o ho b hb
    · rw [List.mem_singleton.mp hb]
      exact h.old o (.inr (.inr ho))

/-- The first blocks lose their transmission. Kind: L -/
theorem Sorted.strand (h : Sorted entries (more ++ blocks) gone next) :
    Sorted entries blocks (gone ++ more) next := by
  have hblocks := List.pairwise_append.mp h.blocksSorted
  refine ⟨h.entriesSorted, hblocks.2.1, fun o ho => h.old o ?_, fun o ho b hb => ?_⟩
  · rw [List.mem_append] at ho ⊢
    tauto
  · rcases List.mem_append.mp ho with ho | ho
    · exact h.older o ho b (List.mem_append_right _ hb)
    · exact hblocks.2.2 o ho b hb

end sorted

/-- What two lists of entries miss. Kind: L -/
theorem slots_append (gone : List ℕ) (files files' : List (IncomingFile ℕ)) :
    slots gone (files ++ files') = slots gone files ++ slots gone files' := by
  simp only [slots, List.filter_append, List.map_append]

/-- An entry that misses something. Kind: L -/
theorem slots_cons {gone : List ℕ} {file : IncomingFile ℕ} {rest : List (IncomingFile ℕ)}
    (hsize : file.expectedSize ≠ 0) (hgone : file.offer ∉ gone) : slots gone (file :: rest) =
      (file.offer, file.expectedSize - (file.stream.getD 0 : ℕ)) :: slots gone rest := by
  simp [slots, hsize, hgone]

/-- An entry without a transmission. Kind: L -/
theorem slots_cons_of_gone {gone : List ℕ} {file : IncomingFile ℕ} {rest : List (IncomingFile ℕ)}
    (hgone : file.offer ∈ gone) : slots gone (file :: rest) = slots gone rest := by
  simp [slots, hgone]

/-- The entries of a queue miss no less with one more. Kind: L -/
theorem slots_sublist_cons (gone : List ℕ) (file : IncomingFile ℕ) (rest : List (IncomingFile ℕ)) :
    List.Sublist (slots gone rest) (slots gone (file :: rest)) :=
  ((List.sublist_cons_self file rest).filter _).map _

/-- The entries miss less once some have lost their transmission. Kind: L -/
theorem slots_strand (gone more : List ℕ) (files : List (IncomingFile ℕ)) :
    slots (gone ++ more) files = (slots gone files).filter fun slot => slot.1 ∉ more := by
  unfold slots
  rw [List.filter_map, List.filter_filter]
  congr 1
  refine List.filter_congr fun file _ => ?_
  simp only [List.mem_append, Function.comp, not_or, ne_eq, Bool.decide_and]
  cases decide (¬ file.expectedSize = 0) <;> cases decide (file.offer ∉ gone) <;>
    cases decide (file.offer ∉ more) <;> rfl

/-- What two lists of blocks hold. Kind: L -/
theorem supplies_append (blocks blocks' : List Block) :
    supplies (blocks ++ blocks') = supplies blocks ++ supplies blocks' := by
  simp only [supplies, List.filter_append, List.map_append]

/-- A block that holds something. Kind: L -/
theorem supplies_cons {block : Block} {rest : List Block} (h : block.left ≠ []) :
    supplies (block :: rest) = (block.offer, (block.left.length : ℤ)) :: supplies rest := by
  simp [supplies, h]

/-- The block of an empty file. Kind: L -/
theorem supplies_cons_of_empty {block : Block} {rest : List Block} (h : block.left = []) :
    supplies (block :: rest) = supplies rest := by
  simp [supplies, h]

/-- What blocks hold is held for their offers. Kind: L -/
theorem mem_supplies {blocks : List Block} {slot : ℕ × ℤ} (h : slot ∈ supplies blocks) :
    slot.1 ∈ blocks.map Block.offer := by
  unfold supplies at h
  obtain ⟨block, hblock, rfl⟩ := List.mem_map.mp h
  exact List.mem_map_of_mem (List.mem_of_mem_filter hblock)

/-- Blocks that lose their transmission hold nothing any more. Kind: L -/
theorem supplies_strand (blocks rest : List Block) : List.Sublist
    ((supplies (blocks ++ rest)).filter fun slot => slot.1 ∉ blocks.map Block.offer)
    (supplies rest) := by
  have hnone : (supplies blocks).filter (fun slot => slot.1 ∉ blocks.map Block.offer) = [] := by
    refine List.filter_eq_nil_iff.mpr fun slot hslot => ?_
    simpa using mem_supplies hslot
  rw [supplies_append, List.filter_append, hnone, List.nil_append]
  exact List.filter_sublist

/-- The front entry misses what the front block holds, or all entries are behind that block.
Kind: L -/
theorem front_of_sublist {slot block : ℕ × ℤ} {slots blocks : List (ℕ × ℤ)}
    (h : List.Sublist (slot :: slots) (block :: blocks))
    (hblocks : ∀ b ∈ blocks, block.1 < b.1) (hslot : slot.1 ≤ block.1) :
    slot = block ∧ List.Sublist slots blocks := by
  cases h with
  | cons _ hrest =>
      have hlt := hblocks slot (hrest.subset (List.mem_cons_self ..))
      omega
  | cons_cons _ hrest => exact ⟨rfl, hrest⟩

section started

variable {faulty : Prop} {files files' : List (IncomingFile ℕ)} {s : Files ℕ Tagged}
  {out : List (IncomingFile ℕ) × Files ℕ Tagged}

/-- Starting a queue takes entries away. Kind: L -/
theorem offers_of_started (h : Started faulty files s out) :
    List.Sublist (out.1.map IncomingFile.offer) (files.map IncomingFile.offer) := by
  induction h with
  | nil s => exact List.Sublist.refl _
  | dropped _ _ _ ih => exact ih.trans (List.sublist_cons_self _ _)
  | empty _ _ _ ih => exact ih.trans (List.sublist_cons_self _ _)
  | opened _ _ _ => exact List.Sublist.refl _

/-- The entries of a started queue miss no more than before. Kind: L -/
theorem slots_of_started (h : Started faulty files s out) (gone : List ℕ)
    (hclosed : ∀ file ∈ files, file.lock = false ∧ file.stream = none) :
    List.Sublist (slots gone out.1) (slots gone files) := by
  induction h with
  | nil s => exact List.Sublist.refl _
  | @dropped next rest _ _ _ _ _ _ ih =>
      exact (ih fun f hf => hclosed f (List.mem_cons_of_mem _ hf)).trans
        (slots_sublist_cons gone next rest)
  | @empty next rest _ _ _ _ _ _ ih =>
      exact (ih fun f hf => hclosed f (List.mem_cons_of_mem _ hf)).trans
        (slots_sublist_cons gone next rest)
  | @opened next rest _ s' hsize _ _ =>
      have hstream := (hclosed next (List.mem_cons_self ..)).2
      show List.Sublist (slots gone ({ next with lock := true, stream := some 0 } :: rest)) _
      by_cases hgone : next.offer ∈ gone
      · rw [slots_cons_of_gone (by exact hgone), slots_cons_of_gone hgone]
      · rw [slots_cons (by exact hsize) (by exact hgone), slots_cons hsize hgone, hstream]
        exact List.Sublist.refl _

/-- Starting a queue writes nothing. Kind: L -/
theorem wrote_of_started (h : Started faulty files s out) {offer : ℕ} {bytes : List Tagged} :
    .wrote offer bytes ∈ out.2.log ↔ .wrote offer bytes ∈ s.log := by
  induction h with
  | nil s => exact Iff.rfl
  | dropped _ hlog _ ih =>
      rw [ih, hlog]
      simp
  | empty _ hlog _ ih =>
      rw [ih, hlog]
      simp
  | opened _ hlog _ => rw [hlog]

/-- Starting a queue completes empty files only. Kind: L -/
theorem completed_of_started (h : Started faulty files s out) {offer : ℕ} {held : List Tagged}
    (hmem : .completed offer held ∈ out.2.log) : .completed offer held ∈ s.log ∨ held = [] := by
  induction h with
  | nil s => exact .inl hmem
  | dropped _ hlog _ ih =>
      rcases ih hmem with hmem | hnil
      · rw [hlog] at hmem
        exact .inl (by simpa using hmem)
      · exact .inr hnil
  | empty _ hlog _ ih =>
      rcases ih hmem with hmem | hnil
      · rw [hlog, List.mem_append, List.mem_singleton] at hmem
        rcases hmem with hmem | hmem
        · exact .inl hmem
        · cases hmem
          exact .inr rfl
      · exact .inr hnil
  | opened _ hlog _ => exact .inl (hlog ▸ hmem)

/-- A file that was just opened is empty. Kind: L -/
theorem content_of_started (h : Started faulty files s out) {front : IncomingFile ℕ}
    {rest : List (IncomingFile ℕ)} (hout : out.1 = front :: rest) :
    out.2.content front.destination = [] := by
  induction h with
  | nil s => cases hout
  | dropped _ _ _ ih => exact ih hout
  | empty _ _ _ ih => exact ih hout
  | opened _ _ hcontent =>
      obtain ⟨rfl, -⟩ := List.cons.inj hout
      exact hcontent

end started

/-! ## Entries and blocks stay in order -/

/-- An accepted offer adds its entry at most. Kind: L -/
theorem offers_of_enqueue {prepare : ℕ → Preparation} {file : IncomingFile ℕ}
    (hlock : file.lock = false) (hstream : file.stream = none) : List.Sublist
      (((enqueue σ.absolute prepare σ.key file t.incoming).queueOf σ.key).map IncomingFile.offer)
      ((queue σ t).map IncomingFile.offer ++ [file.offer]) := by
  obtain ⟨hnil, hstarted⟩ | ⟨-, hqueue, -⟩ :=
    enqueue_cases σ.absolute t.incoming σ.key prepare hlock hstream
  · have hoffers := offers_of_started hstarted
    show List.Sublist _ ((t.incoming.queueOf σ.key).map _ ++ _)
    rw [hnil]
    exact hoffers
  · rw [hqueue, List.map_append]
    exact List.Sublist.refl _

/-- A message takes entries away. Kind: L -/
theorem offers_of_chunk (h : t.incoming.WellFormed) {prepare : ℕ → Preparation}
    {bytes : List Tagged} : List.Sublist
      (((onIncomingChunk σ.absolute prepare none σ.key bytes t.incoming).2.queueOf σ.key).map
        IncomingFile.offer) ((queue σ t).map IncomingFile.offer) := by
  show List.Sublist _ ((t.incoming.queueOf σ.key).map _)
  cases hqueue : t.incoming.queueOf σ.key with
  | nil =>
      rw [onIncomingChunk_of_empty σ.absolute h hqueue, hqueue]
  | cons front rest =>
      obtain ⟨pos, hpos⟩ := open_of_queueOk (h.queueOk hqueue)
      obtain ⟨-, hqueue', -⟩ | ⟨-, files, receipt, -, -, hstarted⟩ :=
        onIncomingChunk_cases σ.absolute prepare bytes h hqueue hpos
      · rw [hqueue']
        exact List.Sublist.refl _
      · exact (offers_of_started hstarted).trans (List.sublist_cons_self _ _)

/-- Files that lose their transmission are gone. Kind: L -/
theorem gone_strand (t : Reception) (more : List Block) :
    (t.stranded ++ more.map fun block => (block.offer, t.epoch)).map Prod.fst =
      gone t ++ more.map Block.offer := by
  rw [List.map_append, List.map_map]
  rfl

/-- **Entries and blocks stay in order.** Kind: P -/
theorem ordered_step (h : Ordered σ t) (he : step σ t e = some t') : Ordered σ t' := by
  have hsorted := h.sorted
  cases e with
  | offer content verdict prepare =>
      rcases offer_cases he with rfl | ⟨destination, rfl⟩
      · refine ⟨h.wellFormed, ?_, h.down⟩
        exact hsorted.push.shrink (List.sublist_append_left _ _) (List.sublist_append_left _ _)
      · refine ⟨wellFormed_enqueue σ.absolute h.wellFormed rfl rfl, ?_, h.down⟩
        refine hsorted.push.shrink (offers_of_enqueue rfl rfl) ?_
        simp only [List.map_append, List.map_cons, List.map_nil, List.append_assoc]
        exact List.Sublist.refl _
  | acceptHandled =>
      obtain ⟨block, rest, hawaiting, ⟨-, rfl⟩ | ⟨-, hup, rfl⟩ | ⟨hdown, rfl⟩⟩ :=
        acceptHandled_cases he
      · refine ⟨h.wellFormed, hsorted.shrink (List.Sublist.refl _) ?_, h.down⟩
        rw [hawaiting]
        exact ((List.sublist_cons_self _ _).append_left _).map _
      · refine ⟨h.wellFormed, hsorted.shrink (List.Sublist.refl _) ?_, fun hdown => ?_⟩
        · rw [hawaiting, List.append_assoc]
          exact List.Sublist.refl _
        · rw [hup] at hdown
          cases hdown
      · rw [hawaiting, h.down hdown] at hsorted
        have hstrand := @Sorted.strand _ _ _ [block.offer] _ hsorted
        refine ⟨h.wellFormed, ?_, h.down⟩
        show Sorted _ ((t.sending ++ rest).map Block.offer)
          ((t.stranded ++ [block].map fun block => (block.offer, t.epoch)).map Prod.fst) _
        rw [h.down hdown, gone_strand]
        exact hstrand
  | chunk n prepare =>
      obtain ⟨block, rest, hsending, -, -, rfl⟩ := chunk_cases he
      rw [hsending] at hsorted
      refine ⟨wellFormed_onIncomingChunk σ.absolute h.wellFormed, ?_, fun hdown => ?_⟩
      · refine hsorted.shrink (offers_of_chunk h.wellFormed) ?_
        dsimp only
        split
        · exact ((List.sublist_cons_self _ _).append_right _).map _
        · exact List.Sublist.refl _
      · have hnil := h.down hdown
        rw [hsending] at hnil
        cases hnil
  | lost =>
      obtain rfl := Option.some.inj he
      refine ⟨h.wellFormed, ?_, fun _ => rfl⟩
      rw [List.map_append] at hsorted
      have hstrand := hsorted.strand
      rw [← gone_strand t t.sending] at hstrand
      exact hstrand
  | negotiated =>
      obtain ⟨-, rfl⟩ := negotiated_cases he
      refine ⟨h.wellFormed, hsorted, fun hdown => ?_⟩
      cases hdown

/-! ## Whose bytes go where -/

section message

variable {n : ℕ} {prepare : ℕ → Preparation} {block : Block} {sending : List Block}
  {front : IncomingFile ℕ} {rest : List (IncomingFile ℕ)}

/-- No entry is older than the front one. Kind: L -/
theorem front_le (h : Ordered σ t) (hqueue : queue σ t = front :: rest) {offer : ℕ}
    (hoffer : queued σ t offer = true) : front.offer ≤ offer := by
  have hentries := h.sorted.entriesSorted
  rw [hqueue, List.map_cons, List.pairwise_cons] at hentries
  unfold queued at hoffer
  rw [hqueue, List.any_cons, Bool.or_eq_true, decide_eq_true_eq] at hoffer
  rcases hoffer with heq | hrest
  · exact heq.le
  · obtain ⟨file, hfile, heq⟩ := List.any_eq_true.mp hrest
    rw [decide_eq_true_eq] at heq
    exact heq ▸ (hentries.1 file.offer (List.mem_map_of_mem hfile)).le

/-- The front entry is in the queue. Kind: L -/
theorem queued_front (hqueue : queue σ t = front :: rest) : queued σ t front.offer = true := by
  unfold queued
  rw [hqueue, List.any_cons, Bool.or_eq_true, decide_eq_true_eq]
  exact .inl rfl

/-- What a fitting step means for a message that finds a queue. Kind: L -/
theorem fitting_chunk (hqueue : queue σ t = front :: rest) (hsending : t.sending = block :: sending) :
    fitting σ t (.chunk n prepare) = true ↔
      queued σ t block.offer = true ∧ ∀ offer ∈ gone t, queued σ t offer = false := by
  unfold fitting placeable gone
  rw [hqueue, hsending]
  simp

/-- **A fitting message is of the front file**, which misses what its block holds. Kind: P -/
theorem front_of_fitting (h : Ordered σ t) (ha : Aligned σ t)
    (hqueue : queue σ t = front :: rest) (hsending : t.sending = block :: sending)
    (hleft : block.left ≠ []) (hfit : fitting σ t (.chunk n prepare) = true) :
    front.offer = block.offer ∧
      front.expectedSize - (front.stream.getD 0 : ℕ) = (block.left.length : ℤ) ∧
      List.Sublist (slots (gone t) rest) (supplies (sending ++ t.awaiting)) := by
  obtain ⟨hown, hnone⟩ := (fitting_chunk hqueue hsending).mp hfit
  have hsize : front.expectedSize ≠ 0 := by
    have hok := h.wellFormed.queueOk hqueue
    exact hok.1.2.1
  have hgone : front.offer ∉ gone t := by
    intro hgone
    have := hnone _ hgone
    rw [queued_front hqueue] at this
    cases this
  have hblocks : ∀ b ∈ supplies (sending ++ t.awaiting), block.offer < b.1 := by
    intro b hb
    have hsorted := h.sorted.blocksSorted
    rw [hsending, List.cons_append, List.map_cons, List.pairwise_cons] at hsorted
    exact hsorted.1 b.1 (mem_supplies hb)
  unfold Aligned at ha
  rw [hqueue, hsending, slots_cons hsize hgone, List.cons_append, supplies_cons hleft] at ha
  obtain ⟨heq, hrest⟩ := front_of_sublist ha hblocks (front_le h hqueue hown)
  rw [Prod.mk.injEq] at heq
  exact ⟨heq.1, heq.2, hrest⟩

/-- **A message that does not fit is not of the front file.** Kind: P -/
theorem front_of_unfit (h : Ordered σ t) (hqueue : queue σ t = front :: rest)
    (hsending : t.sending = block :: sending) (hfit : ¬ fitting σ t (.chunk n prepare) = true) :
    front.offer ≠ block.offer := by
  rw [fitting_chunk hqueue hsending, not_and_or] at hfit
  rintro heq
  rcases hfit with hown | hgone
  · rw [← heq, queued_front hqueue] at hown
    exact hown rfl
  · push Not at hgone
    obtain ⟨offer, hoffer, hqueued⟩ := hgone
    rw [ne_eq, Bool.not_eq_false] at hqueued
    have hlt := h.sorted.older offer hoffer block.offer (by rw [hsending]; simp)
    have hle := front_le h hqueue hqueued
    omega

end message

/-- Blocks that lose their transmission leave the others aligned. Kind: L -/
theorem aligned_strand (more rest : List Block) (ha : Aligned σ t)
    (hblocks : t.sending ++ t.awaiting = more ++ rest) : List.Sublist
      (slots (gone t ++ more.map Block.offer) (queue σ t)) (supplies rest) := by
  unfold Aligned at ha
  rw [hblocks] at ha
  rw [slots_strand]
  exact (ha.filter _).trans (supplies_strand more rest)

/-- The entry of a new offer misses what its block holds. Kind: L -/
theorem slots_new {gone : List ℕ} {offer : ℕ} (content : List UInt8) (destination : Str)
    (hgone : offer ∉ gone) : List.Sublist
      (slots gone [⟨offer, content.length, destination, false, none⟩])
      (supplies [⟨offer, content⟩]) := by
  by_cases hcontent : content = []
  · subst hcontent
    exact List.Sublist.refl _
  · have hsize : (content.length : ℤ) ≠ 0 := by
      have := List.length_pos_of_ne_nil hcontent
      omega
    rw [slots_cons (by exact hsize) (by exact hgone), supplies_cons (by exact hcontent)]
    show List.Sublist [(offer, (content.length : ℤ) - (0 : ℕ))] _
    rw [Nat.cast_zero, sub_zero]
    exact List.Sublist.refl _

/-- An accepted offer adds the same to entries and blocks. Kind: L -/
theorem aligned_enqueue (h : Ordered σ t) (ha : Aligned σ t) (content : List UInt8)
    (destination : Str) (prepare : ℕ → Preparation) : List.Sublist
      (slots (gone t) ((enqueue σ.absolute prepare σ.key
        ⟨t.next, content.length, destination, false, none⟩ t.incoming).queueOf σ.key))
      (supplies (t.sending ++ (t.awaiting ++ [⟨t.next, content⟩]))) := by
  have hgone : t.next ∉ gone t := fun hgone => by
    have := h.sorted.old _ (.inr (.inr hgone))
    omega
  have hboth := List.Sublist.append ha (slots_new content destination hgone)
  rw [← slots_append, ← supplies_append, List.append_assoc] at hboth
  refine List.Sublist.trans ?_ hboth
  rcases @enqueue_cases _ _ σ.absolute t.incoming σ.key prepare
    ⟨t.next, content.length, destination, false, none⟩ rfl rfl with ⟨hnil, hstarted⟩ | ⟨-, hqueue, -⟩
  · rw [show queue σ t = [] from hnil, List.nil_append]
    refine slots_of_started hstarted (gone t) fun file hfile => ?_
    rw [List.mem_singleton.mp hfile]
    exact ⟨rfl, rfl⟩
  · rw [hqueue]
    exact List.Sublist.refl _

/-- A message that fits takes the same from entries and blocks. Kind: L -/
theorem aligned_chunk (h : Ordered σ t) (ha : Aligned σ t) {n : ℕ} {prepare : ℕ → Preparation}
    {block : Block} {sending : List Block} (hsending : t.sending = block :: sending) (hn : 0 < n)
    (hlength : n ≤ block.left.length) (hfit : fitting σ t (.chunk n prepare) = true) :
    List.Sublist (slots (gone t) ((onIncomingChunk σ.absolute prepare none σ.key
        (message t block n) t.incoming).2.queueOf σ.key))
      (supplies ((if n = block.left.length then sending
        else { block with left := block.left.drop n } :: sending) ++ t.awaiting)) := by
  have hleft := left_ne_nil hn hlength
  cases hqueue : queue σ t with
  | nil =>
      rw [onIncomingChunk_of_empty σ.absolute h.wellFormed hqueue,
        show t.incoming.queueOf σ.key = [] from hqueue]
      exact List.nil_sublist _
  | cons front rest =>
      obtain ⟨hown, hmisses, hrest⟩ := front_of_fitting h ha hqueue hsending hleft hfit
      have hok := h.wellFormed.queueOk hqueue
      obtain ⟨pos, hpos⟩ := open_of_queueOk hok
      have hmessage := length_message (t := t) hlength
      rw [hpos, Option.getD_some] at hmisses
      obtain ⟨hsize, hqueue', -⟩ | ⟨hsize, files, receipt, -, -, hstarted⟩ :=
        onIncomingChunk_cases σ.absolute prepare (message t block n) h.wellFormed hqueue hpos
      · rw [hmessage] at hsize hqueue'
        have hmore : n ≠ block.left.length := by omega
        have hdrop : block.left.drop n ≠ [] := by
          rw [ne_eq, List.drop_eq_nil_iff]
          omega
        have hgone : front.offer ∉ gone t := fun hgone => by
          have hlt := h.sorted.older _ hgone block.offer (by rw [hsending]; simp)
          omega
        rw [hqueue', if_neg hmore, List.cons_append, supplies_cons (by exact hdrop),
          slots_cons (by exact hok.1.2.1) (by exact hgone)]
        have hsame : front.expectedSize - ((pos + n : ℕ) : ℤ) = (block.left.drop n).length := by
          rw [List.length_drop]
          omega
        show List.Sublist ((front.offer, front.expectedSize - ((pos + n : ℕ) : ℤ)) :: _) _
        rw [hsame, hown]
        exact hrest.cons_cons _
      · rw [hmessage] at hsize
        have hall : n = block.left.length := by omega
        rw [if_pos hall]
        exact (slots_of_started hstarted (gone t) (waiting_of_queueOk hok)).trans hrest

/-- **A fitting step keeps entries and blocks aligned.** Kind: P -/
theorem aligned_step (h : Ordered σ t) (ha : Aligned σ t) (hfit : fitting σ t e = true)
    (he : step σ t e = some t') : Aligned σ t' := by
  cases e with
  | offer content verdict prepare =>
      rcases offer_cases he with rfl | ⟨destination, rfl⟩
      · exact ha
      · exact aligned_enqueue h ha content destination prepare
  | acceptHandled =>
      obtain ⟨block, rest, hawaiting, ⟨hleft, rfl⟩ | ⟨-, -, rfl⟩ | ⟨hdown, rfl⟩⟩ :=
        acceptHandled_cases he
      · unfold Aligned at ha ⊢
        rw [hawaiting, supplies_append, supplies_cons_of_empty hleft, ← supplies_append] at ha
        exact ha
      · unfold Aligned at ha ⊢
        rw [hawaiting] at ha
        rw [List.append_assoc]
        exact ha
      · have hstrand := aligned_strand [block] rest ha (by
          rw [h.down hdown, hawaiting]
          rfl)
        unfold Aligned gone
        rw [h.down hdown, List.nil_append]
        rw [← gone_strand] at hstrand
        exact hstrand
  | chunk n prepare =>
      obtain ⟨block, sending, hsending, hn, hlength, rfl⟩ := chunk_cases he
      exact aligned_chunk h ha hsending hn hlength hfit
  | lost =>
      obtain rfl := Option.some.inj he
      have hstrand := aligned_strand t.sending t.awaiting ha rfl
      rw [← gone_strand] at hstrand
      exact hstrand
  | negotiated =>
      obtain ⟨-, rfl⟩ := negotiated_cases he
      exact ha

/-! ## What is written -/

/-- Where nothing is queued, every step fits. Kind: L -/
theorem fitting_of_empty (hqueue : queue σ t = []) (e : Event) : fitting σ t e = true := by
  have hnone : ∀ offer, queued σ t offer = false := by
    intro offer
    unfold queued
    rw [hqueue, List.any_nil]
  unfold fitting placeable
  cases e with
  | chunk n prepare => simp [hqueue, hnone]
  | _ => rfl

/-- **What a step writes**: nothing, or a message into the front file. Kind: P -/
theorem wrote_step (h : Ordered σ t) (he : step σ t e = some t') :
    (fitting σ t e = true ∧ ∀ offer bytes, .wrote offer bytes ∈ t'.incoming.files.log ↔
      .wrote offer bytes ∈ t.incoming.files.log) ∨
    ∃ n prepare block sending front rest, e = .chunk n prepare ∧ t.sending = block :: sending ∧
      queue σ t = front :: rest ∧ 0 < n ∧ n ≤ block.left.length ∧
      ∀ offer bytes, .wrote offer bytes ∈ t'.incoming.files.log ↔
        .wrote offer bytes ∈ t.incoming.files.log ∨
          offer = front.offer ∧ bytes = message t block n := by
  cases e with
  | offer content verdict prepare =>
      rcases offer_cases he with rfl | ⟨destination, rfl⟩
      · exact .inl ⟨rfl, fun _ _ => Iff.rfl⟩
      · rcases @enqueue_cases _ _ σ.absolute t.incoming σ.key prepare
          ⟨t.next, content.length, destination, false, none⟩ rfl rfl with
          ⟨-, hstarted⟩ | ⟨-, -, hfiles⟩
        · exact .inl ⟨rfl, fun _ _ => wrote_of_started hstarted⟩
        · refine .inl ⟨rfl, fun _ _ => ?_⟩
          dsimp only
          rw [hfiles]
  | acceptHandled =>
      obtain ⟨block, rest, -, ⟨-, rfl⟩ | ⟨-, -, rfl⟩ | ⟨-, rfl⟩⟩ := acceptHandled_cases he
      all_goals exact .inl ⟨rfl, fun _ _ => Iff.rfl⟩
  | chunk n prepare =>
      obtain ⟨block, sending, hsending, hn, hlength, rfl⟩ := chunk_cases he
      cases hqueue : queue σ t with
      | nil =>
          refine .inl ⟨fitting_of_empty hqueue _, fun _ _ => ?_⟩
          dsimp only
          rw [onIncomingChunk_of_empty σ.absolute h.wellFormed hqueue]
      | cons front rest =>
          refine .inr ⟨n, prepare, block, sending, front, rest, rfl, hsending, rfl, hn, hlength,
            fun offer bytes => ?_⟩
          have hok := h.wellFormed.queueOk hqueue
          obtain ⟨pos, hpos⟩ := open_of_queueOk hok
          rcases onIncomingChunk_cases σ.absolute prepare (message t block n) h.wellFormed hqueue
            hpos with ⟨-, -, hfiles⟩ | ⟨-, files, receipt, hreceipt, hlog, hstarted⟩
          · dsimp only
            rw [hfiles, log_wrote, List.mem_append, List.mem_singleton, Receipt.wrote.injEq]
          · refine (wrote_of_started hstarted).trans ?_
            rw [hlog]
            rcases hreceipt with rfl | rfl
            all_goals simp
  | lost =>
      obtain rfl := Option.some.inj he
      exact .inl ⟨rfl, fun _ _ => Iff.rfl⟩
  | negotiated =>
      obtain ⟨-, rfl⟩ := negotiated_cases he
      exact .inl ⟨rfl, fun _ _ => Iff.rfl⟩

/-- What was written stays written. Kind: L -/
theorem clean_of_step (h : Ordered σ t) (he : step σ t e = some t') (hclean : Clean t') :
    Clean t := by
  intro offer bytes hmem
  apply hclean offer bytes
  rcases wrote_step h he with ⟨-, hsame⟩ | ⟨_, _, _, _, _, _, -, -, -, -, -, hmore⟩
  · exact (hsame offer bytes).mpr hmem
  · exact (hmore offer bytes).mpr (.inl hmem)

/-- **A fitting step writes no byte where it does not belong.** Kind: P -/
theorem clean_step (h : Ordered σ t) (ha : Aligned σ t) (hclean : Clean t)
    (hfit : fitting σ t e = true) (he : step σ t e = some t') : Clean t' := by
  intro offer bytes hmem
  rcases wrote_step h he with
    ⟨-, hsame⟩ | ⟨n, prepare, block, sending, front, rest, rfl, hsending, hqueue, hn, hlength, hmore⟩
  · exact hclean offer bytes ((hsame offer bytes).mp hmem)
  · rcases (hmore offer bytes).mp hmem with hmem | ⟨rfl, rfl⟩
    · exact hclean offer bytes hmem
    · have hleft := left_ne_nil hn hlength
      obtain ⟨hown, -, -⟩ := front_of_fitting h ha hqueue hsending hleft hfit
      intro b hb
      rw [hown]
      exact (mem_message hb).1

/-- **A step that does not fit writes bytes where they do not belong.** Kind: P -/
theorem not_clean_step (h : Ordered σ t) (hfit : ¬ fitting σ t e = true)
    (he : step σ t e = some t') : ¬ Clean t' := by
  intro hclean
  rcases wrote_step h he with
    ⟨hfits, hsame⟩ | ⟨n, prepare, block, sending, front, rest, rfl, hsending, hqueue, hn, hlength, hmore⟩
  · exact hfit hfits
  · have hforeign := front_of_unfit h hqueue hsending hfit
    have hlengthMessage := length_message (t := t) hlength
    obtain ⟨b, hb⟩ := List.exists_mem_of_length_pos (by omega : 0 < (message t block n).length)
    have hwrote := (hmore front.offer (message t block n)).mpr (.inr ⟨rfl, rfl⟩)
    have hbelongs := hclean _ _ hwrote b hb
    rw [(mem_message hb).1] at hbelongs
    exact hforeign hbelongs.symm

/-! ## Runs -/

/-- What holds of every reception, clean or not. Kind: D -/
structure Invariant (σ : Setting) (t : Reception) : Prop where
  ordered : Ordered σ t
  aligned : Clean t → Aligned σ t

/-- The invariant holds at first. Kind: L -/
theorem invariant_init : Invariant σ {} := by
  have hqueue : queue σ {} = [] := by simp [queue, queueOf]
  refine ⟨⟨wellFormed_empty, ?_, fun hdown => ?_⟩, fun _ => ?_⟩
  · rw [hqueue]
    exact ⟨List.Pairwise.nil, List.Pairwise.nil, by simp [gone], by simp⟩
  · cases hdown
  · unfold Aligned
    rw [hqueue]
    exact List.nil_sublist _

/-- **Every step keeps the invariant.** Kind: P -/
theorem invariant_step (h : Invariant σ t) (he : step σ t e = some t') : Invariant σ t' := by
  refine ⟨ordered_step h.ordered he, fun hclean => ?_⟩
  have hfit : fitting σ t e = true := by
    by_contra hfit
    exact not_clean_step h.ordered hfit he hclean
  exact aligned_step h.ordered (h.aligned (clean_of_step h.ordered he hclean)) hfit he

/-- No byte is misplaced at first. Kind: L -/
theorem clean_init : Clean {} := by
  intro offer bytes hmem
  cases hmem

/-- **Without a loss of channels, no byte is misplaced in exactly the runs in which no message of
a file whose entry is gone finds other files queued.** Kind: P -/
theorem clean_iff_placeable (es : List Event) :
    Runs.Always (stepSteady σ) Clean {} es ↔
      Runs.Meets (stepSteady σ) (fun t e => placeable σ t e = true) {} es := by
  have hstep : ∀ {t t' : Reception} {e : Event}, stepSteady σ t e = some t' →
      steady e = true ∧ step σ t e = some t' := by
    intro t t' e he
    unfold stepSteady at he
    split at he
    · rename_i hsteady
      exact ⟨hsteady, he⟩
    · cases he
  have hfit : ∀ {t : Reception} {e : Event}, t.up = true ∧ t.stranded = [] →
      fitting σ t e = placeable σ t e := by
    intro t e hnone
    unfold fitting
    rw [hnone.2]
    cases e <;> simp
  refine Runs.always_iff_meets _
    (I := fun t => Invariant σ t ∧ t.up = true ∧ t.stranded = []) ?_ ?_ ?_
    ⟨invariant_init, rfl, rfl⟩ clean_init
  · rintro t e t' ⟨hinv, hup, hnone⟩ he
    obtain ⟨hsteady, he⟩ := hstep he
    refine ⟨invariant_step hinv he, ?_⟩
    cases e with
    | offer content verdict prepare =>
        rcases offer_cases he with rfl | ⟨destination, rfl⟩
        all_goals exact ⟨hup, hnone⟩
    | acceptHandled =>
        obtain ⟨block, rest, -, ⟨-, rfl⟩ | ⟨-, -, rfl⟩ | ⟨hdown, -⟩⟩ := acceptHandled_cases he
        · exact ⟨hup, hnone⟩
        · exact ⟨hup, hnone⟩
        · rw [hup] at hdown
          cases hdown
    | chunk n prepare =>
        obtain ⟨block, rest, -, -, -, rfl⟩ := chunk_cases he
        exact ⟨hup, hnone⟩
    | lost => cases hsteady
    | negotiated => cases hsteady
  · rintro t e t' ⟨hinv, hnone⟩ hclean hplace he
    rw [← hfit hnone] at hplace
    exact clean_step hinv.ordered (hinv.aligned hclean) hclean hplace (hstep he).2
  · rintro t e t' ⟨hinv, hnone⟩ - hplace he
    rw [← hfit hnone] at hplace
    exact not_clean_step hinv.ordered hplace (hstep he).2

/-- A byte was written into another file than the one it was sent for. Kind: D -/
def misplaced (t : Reception) : Bool :=
  t.incoming.files.log.any fun
    | .wrote offer bytes => bytes.any fun b => b.offer ≠ offer
    | _ => false

/-- A misplaced byte is not clean. Kind: L -/
theorem not_clean_of_misplaced (h : misplaced t = true) : ¬ Clean t := by
  intro hclean
  obtain ⟨receipt, hreceipt, hbytes⟩ := List.any_eq_true.mp h
  cases receipt with
  | wrote offer bytes =>
      obtain ⟨b, hb, hne⟩ := List.any_eq_true.mp hbytes
      exact of_decide_eq_true hne (hclean offer bytes hreceipt b hb)
  | _ => cases hbytes

/-- The peer `a` in the room `r`. Kind: D -/
def peerA : Setting := ⟨(str "a", str "r"), id⟩

/-- The first of two accepted files finds its destination locked, and its byte comes. Kind: D -/
def lockedFirst : List Event :=
  [.offer [1] (.accepted (str "x")) fun _ => .locked,
    .offer [2] (.accepted (str "y")) fun _ => .ready,
    .acceptHandled, .acceptHandled, .chunk 1 fun _ => .ready]

/-- A file whose destination is locked leaves its bytes to the next one. Kind: P -/
theorem misplaced_after_lock : ¬ ∀ σ es, Runs.Always (stepSteady σ) Clean {} es := by
  intro h
  have hany : ((Runs.run (stepSteady peerA) {} lockedFirst).any misplaced) = true := by decide
  obtain ⟨t, ht, hclean⟩ := (h peerA lockedFirst).at_end _ hany
  exact not_clean_of_misplaced ht hclean

/-- **With losses, no byte is misplaced in exactly the fitting runs.** Kind: P -/
theorem clean_iff_fitting (es : List Event) :
    Runs.Always (step σ) Clean {} es ↔
      Runs.Meets (step σ) (fun t e => fitting σ t e = true) {} es := by
  refine Runs.always_iff_meets _ (I := Invariant σ) ?_ ?_ ?_ invariant_init clean_init
  · exact fun t e t' hinv he => invariant_step hinv he
  · exact fun t e t' hinv hclean hfit he =>
      clean_step hinv.ordered (hinv.aligned hclean) hclean hfit he
  · exact fun t e t' hinv _ hfit he => not_clean_step hinv.ordered hfit he

/-! ## Channels, and what complete files hold -/

/-- No byte is from a channel that is still to come, and none of a file whose transmission was
lost is from a later channel than that. Kind: D -/
def Dated (t : Reception) : Prop :=
  ∀ offer bytes, .wrote offer bytes ∈ t.incoming.files.log → ∀ b ∈ bytes,
    b.channel ≤ t.epoch ∧ ∀ channel, (b.offer, channel) ∈ t.stranded → b.channel ≤ channel

/-- The open file and the complete ones hold their own bytes only. Kind: D -/
structure Own (σ : Setting) (t : Reception) : Prop where
  front : ∀ file rest, queue σ t = file :: rest →
    ∀ b ∈ t.incoming.files.content file.destination, b.offer = file.offer
  completed : ∀ offer held, .completed offer held ∈ t.incoming.files.log →
    ∀ b ∈ held, b.offer = offer

/-- A step loses transmissions on the channel there is only. Kind: L -/
theorem stranded_step (he : step σ t e = some t') : t.epoch ≤ t'.epoch ∧
    ∀ lost ∈ t'.stranded, lost ∈ t.stranded ∨ lost.2 = t.epoch := by
  cases e with
  | offer content verdict prepare =>
      rcases offer_cases he with rfl | ⟨destination, rfl⟩
      all_goals exact ⟨le_rfl, fun _ hlost => .inl hlost⟩
  | acceptHandled =>
      obtain ⟨block, rest, -, ⟨-, rfl⟩ | ⟨-, -, rfl⟩ | ⟨-, rfl⟩⟩ := acceptHandled_cases he
      · exact ⟨le_rfl, fun _ hlost => .inl hlost⟩
      · exact ⟨le_rfl, fun _ hlost => .inl hlost⟩
      · refine ⟨le_rfl, fun lost hlost => ?_⟩
        rcases List.mem_append.mp hlost with hlost | hlost
        · exact .inl hlost
        · rw [List.mem_singleton.mp hlost]
          exact .inr rfl
  | chunk n prepare =>
      obtain ⟨block, rest, -, -, -, rfl⟩ := chunk_cases he
      exact ⟨le_rfl, fun _ hlost => .inl hlost⟩
  | lost =>
      obtain rfl := Option.some.inj he
      refine ⟨le_rfl, fun lost hlost => ?_⟩
      rcases List.mem_append.mp hlost with hlost | hlost
      · exact .inl hlost
      · obtain ⟨block, -, rfl⟩ := List.mem_map.mp hlost
        exact .inr rfl
  | negotiated =>
      obtain ⟨-, rfl⟩ := negotiated_cases he
      exact ⟨Nat.le_succ _, fun _ hlost => .inl hlost⟩

/-- **Every step keeps the bytes dated.** Kind: P -/
theorem dated_step (h : Ordered σ t) (hdated : Dated t) (he : step σ t e = some t') :
    Dated t' := by
  obtain ⟨hepoch, hstranded⟩ := stranded_step he
  have hold : ∀ offer bytes, .wrote offer bytes ∈ t.incoming.files.log → ∀ b ∈ bytes,
      b.channel ≤ t'.epoch ∧ ∀ channel, (b.offer, channel) ∈ t'.stranded → b.channel ≤ channel := by
    intro offer bytes hmem b hb
    obtain ⟨hchannel, hlost⟩ := hdated offer bytes hmem b hb
    refine ⟨hchannel.trans hepoch, fun channel hmem' => ?_⟩
    rcases hstranded _ hmem' with hmem' | heq
    · exact hlost channel hmem'
    · exact hchannel.trans heq.ge
  intro offer bytes hmem b hb
  rcases wrote_step h he with
    ⟨-, hsame⟩ | ⟨n, prepare, block, sending, front, rest, rfl, hsending, -, -, -, hmore⟩
  · exact hold offer bytes ((hsame offer bytes).mp hmem) b hb
  · rcases (hmore offer bytes).mp hmem with hmem | ⟨-, rfl⟩
    · exact hold offer bytes hmem b hb
    · obtain ⟨hoffer, hchannel⟩ := mem_message hb
      rw [hoffer, hchannel]
      refine ⟨hepoch, fun channel hlost => ?_⟩
      -- what is being sent was not lost
      obtain ⟨_, _, -, -, -, rfl⟩ := chunk_cases he
      have hgone : block.offer ∈ gone t := List.mem_map_of_mem (f := Prod.fst) hlost
      have hlt := h.sorted.older _ hgone block.offer (by rw [hsending]; simp)
      omega

/-- A queue that was started holds nothing foreign. Kind: L -/
theorem own_of_started {faulty : Prop} {files : List (IncomingFile ℕ)} {s : Files ℕ Tagged}
    (hstarted : Started faulty files s (queue σ t, t.incoming.files))
    (hcompleted : ∀ offer held, .completed offer held ∈ s.log → ∀ b ∈ held, b.offer = offer) :
    Own σ t := by
  constructor
  · intro file rest hqueue b hb
    rw [content_of_started hstarted hqueue] at hb
    cases hb
  · intro offer held hmem b hb
    rcases completed_of_started hstarted hmem with hmem | rfl
    · exact hcompleted offer held hmem b hb
    · cases hb

/-- **A fitting step keeps files to their own bytes.** Kind: P -/
theorem own_step (h : Ordered σ t) (ha : Aligned σ t) (hown : Own σ t)
    (hfit : fitting σ t e = true) (he : step σ t e = some t') : Own σ t' := by
  cases e with
  | offer content verdict prepare =>
      rcases offer_cases he with rfl | ⟨destination, rfl⟩
      · exact ⟨hown.front, hown.completed⟩
      · rcases @enqueue_cases _ _ σ.absolute t.incoming σ.key prepare
          ⟨t.next, content.length, destination, false, none⟩ rfl rfl with
          ⟨-, hstarted⟩ | ⟨hne, hqueue, hfiles⟩
        · exact own_of_started hstarted hown.completed
        · obtain ⟨front, others, hcons⟩ := List.exists_cons_of_ne_nil hne
          constructor
          · intro file rest hqueue' b hb
            have hfront : front = file := by
              rw [queue, hqueue, hcons, List.cons_append] at hqueue'
              exact (List.cons.inj hqueue').1
            dsimp only at hb
            rw [hfiles, ← hfront] at hb
            rw [← hfront]
            exact hown.front front others hcons b hb
          · dsimp only
            rw [hfiles]
            exact hown.completed
  | acceptHandled =>
      obtain ⟨block, rest, -, ⟨-, rfl⟩ | ⟨-, -, rfl⟩ | ⟨-, rfl⟩⟩ := acceptHandled_cases he
      all_goals exact ⟨hown.front, hown.completed⟩
  | chunk n prepare =>
      obtain ⟨block, sending, hsending, hn, hlength, rfl⟩ := chunk_cases he
      have hleft := left_ne_nil hn hlength
      cases hqueue : queue σ t with
      | nil =>
          rw [onIncomingChunk_of_empty σ.absolute h.wellFormed hqueue]
          exact ⟨hown.front, hown.completed⟩
      | cons front rest =>
          obtain ⟨heq, -, -⟩ := front_of_fitting h ha hqueue hsending hleft hfit
          have hok := h.wellFormed.queueOk hqueue
          obtain ⟨pos, hpos⟩ := open_of_queueOk hok
          have hcontent : ∀ b ∈ (wrote front pos (message t block n) t.incoming.files).content
              front.destination, b.offer = front.offer := by
            intro b hb
            rcases mem_content_wrote hb with hb | hb
            · exact hown.front front rest hqueue b hb
            · rw [heq]
              exact (mem_message hb).1
          rcases onIncomingChunk_cases σ.absolute prepare (message t block n) h.wellFormed hqueue
            hpos with ⟨-, hqueue', hfiles⟩ | ⟨-, files, receipt, hreceipt, hlog, hstarted⟩
          · constructor
            · intro file others hcons b hb
              rw [queue, hqueue'] at hcons
              obtain ⟨rfl, -⟩ := List.cons.inj hcons
              dsimp only at hb
              rw [hfiles] at hb
              exact hcontent b hb
            · intro offer held hmem
              dsimp only at hmem
              rw [hfiles, log_wrote, List.mem_append, List.mem_singleton] at hmem
              exact hown.completed offer held (hmem.resolve_right (by simp))
          · refine own_of_started hstarted fun offer held hmem => ?_
            rw [hlog, List.mem_append, List.mem_pair] at hmem
            rcases hmem with hmem | hmem | hmem
            · exact hown.completed offer held hmem
            · cases hmem
            · rcases hreceipt with rfl | rfl
              · obtain ⟨rfl, rfl⟩ := Receipt.completed.inj hmem
                exact hcontent
              · cases hmem
  | lost =>
      obtain rfl := Option.some.inj he
      exact ⟨hown.front, hown.completed⟩
  | negotiated =>
      obtain ⟨-, rfl⟩ := negotiated_cases he
      exact ⟨hown.front, hown.completed⟩

/-- **In a fitting run no file is continued with bytes of a later channel, and every complete one
holds its own bytes only.** Kind: P -/
theorem separate_of_fitting (es : List Event)
    (hmeets : Runs.Meets (step σ) (fun t e => fitting σ t e = true) {} es) :
    Runs.Always (step σ) Separate {} es := by
  have hkept : Runs.Always (step σ) (fun t => (Invariant σ t ∧ Clean t) ∧ Dated t ∧ Own σ t)
      {} es := by
    refine Runs.always_of_meets _ ?_ ⟨⟨invariant_init, clean_init⟩, ?_, ?_, ?_⟩ hmeets
    · rintro t e t' ⟨⟨hinv, hclean⟩, hdated, hown⟩ hfit he
      have ha := hinv.aligned hclean
      exact ⟨⟨invariant_step hinv he, clean_step hinv.ordered ha hclean hfit he⟩,
        dated_step hinv.ordered hdated he, own_step hinv.ordered ha hown hfit he⟩
    · intro offer bytes hmem
      cases hmem
    · intro file rest hqueue
      have hnil : queue σ {} = [] := by simp [queue, queueOf]
      rw [hnil] at hqueue
      cases hqueue
    · intro offer held hmem
      cases hmem
  refine hkept.imp _ ?_
  rintro t ⟨⟨-, hclean⟩, hdated, hown⟩
  constructor
  · intro offer channel hlost bytes hmem b hb
    apply (hdated offer bytes hmem b hb).2
    rw [hclean offer bytes hmem b hb]
    exact hlost
  · exact hown.completed

/-- A file is complete when the channel is lost, and another follows on the new one. Kind: D -/
def completeBeforeLoss : List Event :=
  [.offer [1, 2] (.accepted (str "x")) fun _ => .ready, .acceptHandled,
    .chunk 1 fun _ => .ready, .chunk 1 fun _ => .ready, .lost, .negotiated,
    .offer [3] (.accepted (str "y")) fun _ => .ready, .acceptHandled, .chunk 1 fun _ => .ready]

/-- A loss between two files does no harm. Kind: L -/
theorem separate_completeBeforeLoss :
    Runs.Always (step peerA) Separate {} completeBeforeLoss :=
  separate_of_fitting completeBeforeLoss (by decide)

/-- A channel is lost with half a file on it, and another file follows on the new one. Kind: D -/
def halfBeforeLoss : List Event :=
  [.offer [1, 2] (.accepted (str "x")) fun _ => .ready, .acceptHandled,
    .chunk 1 fun _ => .ready, .lost, .negotiated,
    .offer [3] (.accepted (str "y")) fun _ => .ready, .acceptHandled, .chunk 1 fun _ => .ready]

/-- A complete file holds a byte that was sent for another. Kind: D -/
def mixed (t : Reception) : Bool :=
  t.incoming.files.log.any fun
    | .completed offer held => held.any fun b => b.offer ≠ offer
    | _ => false

/-- The file on the new channel completes the one that the old channel left unfinished.
Kind: P -/
theorem mixed_after_loss : ¬ ∀ σ es, Runs.Always (step σ) Separate {} es := by
  intro h
  have hany : ((Runs.run (step peerA) {} halfBeforeLoss).any mixed) = true := by decide
  obtain ⟨t, ht, hseparate⟩ := (h peerA halfBeforeLoss).at_end _ hany
  obtain ⟨receipt, hreceipt, hbytes⟩ := List.any_eq_true.mp ht
  cases receipt with
  | completed offer held =>
      obtain ⟨b, hb, hne⟩ := List.any_eq_true.mp hbytes
      exact of_decide_eq_true hne (hseparate.completed offer held hreceipt b hb)
  | _ => cases hbytes

end Reception

end CloudNode
