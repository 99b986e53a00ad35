import CloudNode.Phone.Sending

/-!
# Transfers that interleave

The receiver counts the bytes that arrive against its queue of accepted offers, so the channel has
to carry the accepted files one after another in the order of that queue. Nothing in the client
orders its tasks: a task in its chunk loop gives way while the channel has too much buffered, and
another task may then put its own chunks on the channel.

* `Framed` — the channel carries the accepted files one after another.
* `Received` — what holds of the receiver where the channel is framed.
* `orderly_iff_inTurn` — in exactly the runs in which every chunk comes after the whole of the files
  that were queued before its own, the channel is framed and the receiver writes every file as it
  is.
-/

namespace CloudNode

namespace Uploads

/-- The binary messages are the bytes of the accepted files, one file after another in the order in
which the receiver queued them, of the last one a part. Kind: D -/
def Framed (s : Uploads) : Prop := s.onChannel <+: Blocks.stream s.sizeOf s.accepted

/-- The bytes of a transfer. Kind: D -/
def whole (s : Uploads) (i : ℕ) : List UInt8 := s.bytes ⟨i, 0, s.sizeOf i⟩

/-- What the receiver did is right: it wrote bytes of a file into that file, and a file it completed
held what was to be sent. Kind: D -/
def fits (s : Uploads) : Receipt ℕ UInt8 → Prop
  | .completed i held => i ∈ s.accepted ∧ held = s.whole i
  | .wrote i bytes => i ∈ s.accepted ∧ ∃ start stop, bytes = s.bytes ⟨i, start, stop⟩
  | _ => False

/-- The receiver wrote every file as it is. Kind: D -/
def Written (s : Uploads) : Prop := ∀ r ∈ s.receiver.files.log, s.fits r

/-- All of a transfer was sent. Kind: D -/
def sentWhole (s : Uploads) (i : ℕ) : Bool := (s.transfers[i]?).any fun t => t.sent = t.size

/-- A chunk is put on the channel only when all of the files that the receiver queued before its
own were sent. Kind: D -/
def inTurn (s : Uploads) : Event → Bool
  | .turn k ok =>
    match s.phase k with
    | .sending index data offset =>
      !(offset < data.count && s.bufferedAmount ≤ highWaterMark && ok && s.ready) ||
        (s.accepted.takeWhile fun i => i ≠ index).all s.sentWhole
    | _ => true
  | _ => true

variable {key : PeerRoomKey} {absolute : Str → Str} {s s' : Uploads} {e : Event} {i k index : ℕ}

/-! ## What a step puts on the channel -/

/-- How many bytes a transfer has whose data is there. Kind: L -/
theorem sizeOf_of_contents {data : Blob} (h : s.contents[i]? = some data) :
    s.sizeOf i = data.count := by
  unfold sizeOf
  rw [h]
  rfl

/-- All of a transfer was sent when the channel has all of it. Kind: L -/
theorem sentWhole_iff (h : s.Sound) (hi : i < s.contents.length) :
    s.sentWhole i = true ↔ Blocks.held s.onChannel i = s.sizeOf i := by
  have hlength : i < s.transfers.length := h.length_eq ▸ hi
  have hsize : s.transfers[i].size = s.contents[i].count := by
    have hget := congrArg (fun sizes => sizes[i]?) h.sizes
    simpa only [List.getElem?_map, List.getElem?_eq_getElem hlength, List.getElem?_eq_getElem hi,
      Option.map_some, Option.some.injEq] using hget
  rw [h.counted, sizeOf_of_contents (List.getElem?_eq_getElem hi)]
  unfold sentWhole sentOf
  rw [List.getElem?_eq_getElem hlength, Option.any_some, Option.elim_some, decide_eq_true_eq, hsize]

/-- A list around one of its elements. Kind: L -/
theorem exists_takeWhile_append {l : List ℕ} (h : index ∈ l) :
    ∃ post, l = l.takeWhile (fun i => i ≠ index) ++ index :: post := by
  induction l with
  | nil => exact (List.not_mem_nil h).elim
  | cons j l ih =>
      by_cases hj : j = index
      · subst hj
        refine ⟨l, ?_⟩
        rw [List.takeWhile_cons_of_neg (by simp)]
        rfl
      · obtain ⟨post, hpost⟩ := ih ((List.mem_cons.mp h).resolve_left (Ne.symm hj))
        refine ⟨post, ?_⟩
        rw [List.takeWhile_cons_of_pos (by simpa using hj), List.cons_append, ← hpost]

/-- Everything a step can do to the channel and to the receiver: nothing; a task puts a chunk on the
channel; the receiver queues a file; a message reaches it. Kind: L -/
theorem step_cases (hstep : s.step key absolute e = some s') :
    (s'.channel = s.channel ∧ s'.receiver = s.receiver ∧ s'.arrived = s.arrived ∧
      s'.accepted = s.accepted ∧ s.contents <+: s'.contents ∧ s.inTurn e = true) ∨
    (∃ k index data offset stop, s.phase k = .sending index data offset ∧ offset < stop ∧
      stop ≤ data.count ∧ s'.channel = s.channel ++ [⟨index, offset, stop⟩] ∧
      s'.receiver = s.receiver ∧ s'.arrived = s.arrived ∧ s'.accepted = s.accepted ∧
      s'.contents = s.contents ∧
      (s.inTurn e = true ↔ ∀ i ∈ s.accepted.takeWhile fun i => i ≠ index, s.sentWhole i = true)) ∨
    (∃ index name mime destination, ∃ size : ℕ, .fileOffer index name size mime ∈ s.signals ∧
      s'.receiver = Incoming.enqueue absolute (fun _ => .ready) key
        { offer := index, expectedSize := size, destination := destination } s.receiver ∧
      s'.channel = s.channel ∧ s'.arrived = s.arrived ∧ s'.accepted = s.accepted ++ [index] ∧
      s'.contents = s.contents ∧ s.inTurn e = true) ∨
    ∃ slice, s.channel[s.arrived]? = some slice ∧ s' = { s with
      receiver := (Incoming.onIncomingChunk absolute (fun _ => .ready) none key (s.bytes slice)
        s.receiver).2
      arrived := s.arrived + 1 } ∧ s.inTurn e = true := by
  have hrfl {α : Type} (l : List α) : l <+: l := List.prefix_rfl
  cases e with
  | select items =>
      simp only [step] at hstep
      split at hstep
      · obtain rfl := Option.some.inj hstep
        exact .inl ⟨rfl, rfl, rfl, rfl, hrfl _, rfl⟩
      · exact (Option.some_ne_none _ hstep.symm).elim
  | take k =>
      simp only [step] at hstep
      split at hstep
      · split at hstep
        · rename_i item rest _
          obtain rfl := Option.some.inj hstep
          refine .inl ?_
          unfold Uploads.take
          split
          · exact ⟨rfl, rfl, rfl, rfl, List.prefix_append _ _, rfl⟩
          · dsimp only
            split
            · exact ⟨rfl, rfl, rfl, rfl, List.prefix_append _ _, rfl⟩
            · exact ⟨rfl, rfl, rfl, rfl, List.prefix_append _ _, rfl⟩
        · exact (Option.some_ne_none _ hstep.symm).elim
      · exact (Option.some_ne_none _ hstep.symm).elim
  | turn k ok =>
      simp only [step] at hstep
      split at hstep
      · cases hphase : s.phase k with
        | next =>
            rw [hphase] at hstep
            exact (Option.some_ne_none _ hstep.symm).elim
        | offered index data =>
            rw [hphase] at hstep
            exact (Option.some_ne_none _ hstep.symm).elim
        | resumed accepted index data =>
            have hturn : s.inTurn (.turn k ok) = true := by
              simp only [inTurn, hphase]
            rw [hphase] at hstep
            cases accepted with
            | false =>
                obtain rfl := Option.some.inj hstep
                exact .inl ⟨rfl, rfl, rfl, rfl, hrfl _, hturn⟩
            | true =>
                obtain rfl := Option.some.inj hstep
                exact .inl ⟨rfl, rfl, rfl, rfl, hrfl _, hturn⟩
        | sending index data offset =>
            rw [hphase] at hstep
            simp only [Uploads.turn] at hstep
            split at hstep
            · rename_i hless
              split at hstep
              · rename_i hfull
                obtain rfl := Option.some.inj hstep
                refine .inl ⟨rfl, rfl, rfl, rfl, hrfl _, ?_⟩
                simp only [inTurn, hphase, decide_eq_false (not_le.mpr hfull), Bool.and_false,
                  Bool.false_and, Bool.not_false, Bool.true_or]
              · rename_i hroom
                split at hstep
                · rename_i hok
                  obtain rfl := Option.some.inj hstep
                  refine .inr (.inl ⟨k, index, data, offset, _, hphase, ?_, min_le_right _ _, rfl, rfl,
                    rfl, rfl, rfl, ?_⟩)
                  · refine lt_min ?_ hless
                    exact Nat.lt_add_of_pos_right (by decide)
                  · simp only [inTurn, hphase, decide_eq_true hless,
                      decide_eq_true (not_lt.mp hroom), hok.1, hok.2, Bool.and_self, Bool.not_true,
                      Bool.false_or, List.all_eq_true]
                · rename_i hok
                  obtain rfl := Option.some.inj hstep
                  refine .inl ⟨rfl, rfl, rfl, rfl, hrfl _, ?_⟩
                  simp only [inTurn, hphase]
                  cases hok' : ok with
                  | false => simp only [Bool.and_false, Bool.false_and, Bool.not_false, Bool.true_or]
                  | true =>
                      have hready : s.ready = false := by
                        rw [← Bool.not_eq_true]
                        exact fun hc => hok ⟨hok', hc⟩
                      simp only [hready, Bool.and_false, Bool.not_false, Bool.true_or]
            · rename_i hless
              obtain rfl := Option.some.inj hstep
              refine .inl ⟨rfl, rfl, rfl, rfl, hrfl _, ?_⟩
              simp only [inTurn, hphase, decide_eq_false hless, Bool.false_and, Bool.not_false,
                Bool.true_or]
      · exact (Option.some_ne_none _ hstep.symm).elim
  | handled j verdict =>
      simp only [step] at hstep
      split at hstep
      · rename_i index name size mime hj
        obtain rfl := Option.some.inj hstep
        rcases @Incoming.onFileOffer_cases _ _ absolute s.receiver key (fun _ => .ready) index
          size verdict with hout | hout | ⟨destination, hout⟩
        · rw [hout]
          exact .inl ⟨rfl, rfl, rfl, rfl, hrfl _, rfl⟩
        · rw [hout]
          exact .inl ⟨rfl, rfl, rfl, rfl, hrfl _, rfl⟩
        · rw [hout]
          exact .inr (.inr (.inl ⟨index, name, mime, destination, size, List.mem_of_getElem? hj, rfl,
            rfl, rfl, rfl, rfl, rfl⟩))
      · obtain rfl := Option.some.inj hstep
        exact .inl ⟨rfl, rfl, rfl, rfl, hrfl _, rfl⟩
      · exact (Option.some_ne_none _ hstep.symm).elim
  | answered j =>
      simp only [step] at hstep
      split at hstep
      · obtain ⟨answer, -, rfl⟩ := Option.map_eq_some_iff.mp hstep
        unfold Uploads.handleAnswer
        split
        · exact .inl ⟨rfl, rfl, rfl, rfl, hrfl _, rfl⟩
        · exact .inl ⟨rfl, rfl, rfl, rfl, hrfl _, rfl⟩
      · exact (Option.some_ne_none _ hstep.symm).elim
  | drain n =>
      simp only [step] at hstep
      split at hstep
      · obtain rfl := Option.some.inj hstep
        exact .inl ⟨rfl, rfl, rfl, rfl, hrfl _, rfl⟩
      · exact (Option.some_ne_none _ hstep.symm).elim
  | deliver =>
      obtain ⟨slice, hslice, rfl⟩ := Option.map_eq_some_iff.mp hstep
      exact .inr (.inr (.inr ⟨slice, hslice, rfl, rfl⟩))
  | disconnect =>
      simp only [step] at hstep
      split at hstep
      · obtain rfl := Option.some.inj hstep
        exact .inl ⟨rfl, rfl, rfl, rfl, hrfl _, rfl⟩
      · exact (Option.some_ne_none _ hstep.symm).elim

/-! ## Framing -/

/-- Data that is there stays. Kind: L -/
theorem sizeOf_grow (hcontents : s.contents <+: s'.contents) (hi : i < s.contents.length) :
    s'.sizeOf i = s.sizeOf i := by
  unfold sizeOf
  rw [List.prefix_iff_getElem?.mp hcontents i hi, List.getElem?_eq_getElem hi]

/-- What the receiver expects grows at its end. Kind: L -/
theorem stream_grow (h : s.Sound) (haccepted : s.accepted <+: s'.accepted)
    (hcontents : s.contents <+: s'.contents) :
    Blocks.stream s.sizeOf s.accepted <+: Blocks.stream s'.sizeOf s'.accepted := by
  obtain ⟨more, hmore⟩ := haccepted
  rw [← hmore, Blocks.stream_append]
  have hsame : Blocks.stream s.sizeOf s.accepted = Blocks.stream s'.sizeOf s.accepted :=
    Blocks.stream_congr fun i hi => (sizeOf_grow hcontents (h.queued.2 i hi)).symm
  rw [hsame]
  exact List.prefix_append _ _

/-- **A chunk keeps the channel framed exactly where it is in turn.** Kind: P -/
theorem framed_chunk_iff (h : s.Sound) (hframed : s.Framed) {data : Blob} {offset stop : ℕ}
    (hphase : s.phase k = .sending index data offset) (hstart : offset < stop)
    (hstop : stop ≤ data.count) :
    s.onChannel ++ Blocks.part index offset stop <+: Blocks.stream s.sizeOf s.accepted ↔
      ∀ i ∈ s.accepted.takeWhile fun i => i ≠ index, s.sentWhole i = true := by
  have hcurrent : (s.phase k).current = some (index, data, offset) := by
    rw [hphase]
    rfl
  obtain ⟨hcontent, hsent, -⟩ := h.current k index data offset hcurrent
  have hindex : index ∈ s.accepted := by
    refine h.granted k index data offset ?_ hcurrent
    rw [hphase]
    rfl
  obtain ⟨post, hpost⟩ := exists_takeWhile_append hindex
  have hheld : Blocks.held s.onChannel index = offset := (h.counted index).trans hsent
  have hnodup := h.queued.1
  have hbegin : s.onChannel <+: Blocks.stream s.sizeOf s.accepted := hframed
  rw [hpost] at hnodup hbegin
  have hless : Blocks.held s.onChannel index < stop := by
    rw [hheld]
    exact hstart
  have hmost : stop ≤ s.sizeOf index := by
    rw [sizeOf_of_contents hcontent]
    exact hstop
  have hnext := Blocks.append_part_prefix_iff hnodup hbegin hless hmost
  rw [hheld, ← hpost] at hnext
  rw [hnext]
  have hlt {i : ℕ} (hi : i ∈ s.accepted.takeWhile fun i => i ≠ index) : i < s.contents.length :=
    h.queued.2 i ((List.takeWhile_sublist _).subset hi)
  exact ⟨fun hall i hi => (sentWhole_iff h (hlt hi)).mpr (hall i hi),
    fun hall i hi => (sentWhole_iff h (hlt hi)).mp (hall i hi)⟩

/-- **A step keeps the channel framed exactly where it is in turn.** Kind: P -/
theorem framed_step_iff (h : s.Sound) (hframed : s.Framed)
    (hstep : s.step key absolute e = some s') : s'.Framed ↔ s.inTurn e = true := by
  have hkeep (hchannel : s'.channel = s.channel) (haccepted : s.accepted <+: s'.accepted)
      (hcontents : s.contents <+: s'.contents) : s'.Framed := by
    have hsame : s'.onChannel = s.onChannel := by
      unfold onChannel
      rw [hchannel]
    unfold Framed
    rw [hsame]
    exact hframed.trans (stream_grow h haccepted hcontents)
  rcases step_cases hstep with ⟨hchannel, -, -, haccepted, hcontents, hturn⟩ |
    ⟨k, index, data, offset, stop, hphase, hstart, hstop, hchannel, -, -, haccepted, hcontents, hturn⟩ |
    ⟨index, name, mime, destination, size, -, -, hchannel, -, haccepted, hcontents, hturn⟩ |
    ⟨slice, -, rfl, hturn⟩
  · refine ⟨fun _ => hturn, fun _ => hkeep hchannel ?_ hcontents⟩
    rw [haccepted]
  · have hsame : s'.onChannel = s.onChannel ++ Blocks.part index offset stop := by
      unfold onChannel
      rw [hchannel, List.flatMap_append, List.flatMap_singleton]
    have hsize : s'.sizeOf = s.sizeOf := by
      unfold sizeOf
      rw [hcontents]
    unfold Framed
    rw [hsame, hsize, haccepted, framed_chunk_iff h hframed hphase hstart hstop, hturn]
  · refine ⟨fun _ => hturn, fun _ => hkeep hchannel ?_ ?_⟩
    · rw [haccepted]
      exact List.prefix_append _ _
    · rw [hcontents]
  · exact ⟨fun _ => hturn, fun _ => hframed⟩

/-! ## The receiver -/

/-- The files that the receiver has queued. Kind: D -/
def queue (key : PeerRoomKey) (s : Uploads) : List (IncomingFile ℕ) := s.receiver.queueOf key

/-- What has reached the receiver. Kind: D -/
def arrivedOn (s : Uploads) : List (ℕ × ℕ) :=
  (s.channel.take s.arrived).flatMap fun m => Blocks.part m.index m.start m.stop

/-- What a queue still misses. Kind: D -/
def missing (size : ℕ → ℕ) : List (IncomingFile ℕ) → List (ℕ × ℕ)
  | [] => []
  | front :: rest =>
    Blocks.part front.offer (front.stream.getD 0) (size front.offer) ++
      Blocks.stream size (rest.map IncomingFile.offer)

/-- What holds of the receiver where the channel is framed: it misses what has not arrived.
Kind: D -/
structure Received (key : PeerRoomKey) (s : Uploads) : Prop where
  wellFormed : s.receiver.WellFormed
  arrived : s.arrived ≤ s.channel.length
  expected : ∀ file ∈ queue key s, file.offer ∈ s.accepted ∧ file.expectedSize = s.sizeOf file.offer
  stream : Blocks.stream s.sizeOf s.accepted = s.arrivedOn ++ missing s.sizeOf (queue key s)
  content : ∀ front rest pos, queue key s = front :: rest → front.stream = some pos →
    s.receiver.files.content front.destination = s.bytes ⟨front.offer, 0, pos⟩
  written : s.Written

/-- At first nothing is queued. Kind: L -/
theorem received_init : Received key {} where
  wellFormed := Incoming.wellFormed_empty
  arrived := le_rfl
  expected := by intro file hfile; exact (List.not_mem_nil hfile).elim
  stream := rfl
  content := by intro front rest pos hqueue; exact (List.cons_ne_nil _ _ hqueue.symm).elim
  written := by intro r hr; exact (List.not_mem_nil hr).elim

/-- Two parts of a transfer that meet. Kind: L -/
theorem bytes_append {start mid stop : ℕ} (hstart : start ≤ mid) (hstop : mid ≤ stop) :
    s.bytes ⟨i, start, mid⟩ ++ s.bytes ⟨i, mid, stop⟩ = s.bytes ⟨i, start, stop⟩ := by
  unfold bytes
  cases s.contents[i]? with
  | none => rfl
  | some data =>
      have hmid : start + 1 * (mid - start) = mid := by omega
      have hlength : mid - start + (stop - mid) = stop - start := by omega
      show data.subdata start mid ++ data.subdata mid stop = data.subdata start stop
      rw [Blob.subdata, Blob.subdata, Blob.subdata, ← List.map_append, ← hlength,
        ← List.range'_append, hmid]

/-- How long a part of a transfer is. Kind: L -/
theorem length_bytes (hi : i < s.contents.length) (start stop : ℕ) :
    (s.bytes ⟨i, start, stop⟩).length = stop - start := by
  unfold bytes
  rw [List.getElem?_eq_getElem hi]
  show (Blob.subdata _ _ _).length = _
  rw [Blob.subdata, List.length_map, List.length_range']

/-- Data that is there stays as it is. Kind: L -/
theorem bytes_grow (hcontents : s.contents <+: s'.contents) (hi : i < s.contents.length)
    (start stop : ℕ) : s'.bytes ⟨i, start, stop⟩ = s.bytes ⟨i, start, stop⟩ := by
  unfold bytes
  rw [List.prefix_iff_getElem?.mp hcontents i hi, List.getElem?_eq_getElem hi]

/-- What was right stays right. Kind: L -/
theorem Sound.fits_mono (h : s.Sound) (haccepted : s.accepted <+: s'.accepted)
    (hcontents : s.contents <+: s'.contents) {r : Receipt ℕ UInt8} (hr : s.fits r) : s'.fits r := by
  cases r with
  | completed i held =>
      obtain ⟨hi, rfl⟩ := hr
      have hlt := h.queued.2 i hi
      refine ⟨haccepted.subset hi, ?_⟩
      unfold whole
      rw [sizeOf_grow hcontents hlt, bytes_grow hcontents hlt]
  | wrote i bytes =>
      obtain ⟨hi, start, stop, rfl⟩ := hr
      exact ⟨haccepted.subset hi, start, stop, (bytes_grow hcontents (h.queued.2 i hi) _ _).symm⟩
  | dropped i => exact hr.elim
  | exceeded i => exact hr.elim
  | failed i => exact hr.elim

/-- What a queue misses depends on the sizes of its own files only. Kind: L -/
theorem missing_congr {size size' : ℕ → ℕ} {files : List (IncomingFile ℕ)}
    (h : ∀ file ∈ files, size file.offer = size' file.offer) :
    missing size files = missing size' files := by
  cases files with
  | nil => rfl
  | cons front rest =>
      rw [missing, missing, h front (List.mem_cons_self ..), Blocks.stream_congr]
      intro i hi
      obtain ⟨file, hfile, rfl⟩ := List.mem_map.mp hi
      exact h file (List.mem_cons_of_mem _ hfile)

/-- What a step leaves of the receiver that it does not touch. Kind: L -/
theorem Received.mono (hr : Received key s) (h : s.Sound) (hreceiver : s'.receiver = s.receiver)
    (harrived : s'.arrived = s.arrived) (haccepted : s'.accepted = s.accepted)
    (hcontents : s.contents <+: s'.contents) (hchannel : s.channel <+: s'.channel) :
    Received key s' := by
  have hqueue : queue key s' = queue key s := by
    unfold queue
    rw [hreceiver]
  have hsize {i : ℕ} (hi : i ∈ s.accepted) : s'.sizeOf i = s.sizeOf i :=
    sizeOf_grow hcontents (h.queued.2 i hi)
  have harrivedOn : s'.arrivedOn = s.arrivedOn := by
    obtain ⟨more, hmore⟩ := hchannel
    unfold arrivedOn
    rw [harrived, ← hmore, List.take_append_of_le_length hr.arrived]
  refine ⟨hreceiver ▸ hr.wellFormed, harrived ▸ hr.arrived.trans hchannel.length_le,
    fun file hfile => ?_, ?_, fun front rest pos hfiles hpos => ?_, fun r hmem => ?_⟩
  · rw [hqueue] at hfile
    obtain ⟨hoffer, hexpected⟩ := hr.expected file hfile
    exact ⟨haccepted ▸ hoffer, hexpected.trans (congrArg Nat.cast (hsize hoffer).symm)⟩
  · have hstream : Blocks.stream s'.sizeOf s.accepted = Blocks.stream s.sizeOf s.accepted :=
      Blocks.stream_congr fun i hi => hsize hi
    have hmissing : missing s'.sizeOf (queue key s) = missing s.sizeOf (queue key s) :=
      missing_congr fun file hfile => hsize (hr.expected file hfile).1
    rw [haccepted, hqueue, hstream, hmissing, harrivedOn]
    exact hr.stream
  · rw [hqueue] at hfiles
    have hmem : front ∈ queue key s := hfiles ▸ List.mem_cons_self ..
    rw [hreceiver, bytes_grow hcontents (h.queued.2 _ (hr.expected front hmem).1)]
    exact hr.content front rest pos hfiles hpos
  · rw [hreceiver] at hmem
    exact h.fits_mono (haccepted ▸ List.prefix_rfl) hcontents (hr.written r hmem)

/-- What starting a queue comes to where nothing fails: empty files are complete, and the first file
that is not empty is open and empty. Kind: L -/
theorem started_spec (size : ℕ → ℕ) {files : List (IncomingFile ℕ)} {disk : Files ℕ UInt8}
    {out : List (IncomingFile ℕ) × Files ℕ UInt8}
    (hstarted : Incoming.Started (∃ i : ℕ, (fun _ : ℕ => Preparation.ready) i ≠ .ready) files disk out)
    (hexpected : ∀ file ∈ files, file.expectedSize = size file.offer) :
    missing size out.1 = Blocks.stream size (files.map IncomingFile.offer) ∧
    (∀ file ∈ out.1, ∃ file' ∈ files, file.offer = file'.offer ∧
      file.expectedSize = file'.expectedSize) ∧
    (∀ front rest pos, out.1 = front :: rest → front.stream = some pos →
      pos = 0 ∧ out.2.content front.destination = []) ∧
    ∀ r ∈ out.2.log, r ∈ disk.log ∨ ∃ file ∈ files, r = .completed file.offer [] ∧
      size file.offer = 0 := by
  induction hstarted with
  | nil disk =>
      refine ⟨rfl, fun file hfile => (List.not_mem_nil hfile).elim, fun front rest pos hnil => ?_,
        fun r hr => .inl hr⟩
      exact (List.cons_ne_nil _ _ hnil.symm).elim
  | dropped hfaulty _ _ _ =>
      obtain ⟨i, hi⟩ := hfaulty
      exact (hi rfl).elim
  | @empty next rest disk disk' out hsize hlog _ ih =>
      obtain ⟨hmissing, hfiles, hcontent, hnotes⟩ :=
        ih fun file hfile => hexpected file (List.mem_cons_of_mem _ hfile)
      have hzero : size next.offer = 0 := by
        have hnext := hexpected next (List.mem_cons_self ..)
        rw [hsize] at hnext
        exact_mod_cast hnext.symm
      refine ⟨?_, fun file hfile => ?_, hcontent, fun r hr => ?_⟩
      · rw [hmissing, List.map_cons, Blocks.stream_cons, hzero, Blocks.part_eq_nil le_rfl]
        rfl
      · obtain ⟨file', hfile', hsame⟩ := hfiles file hfile
        exact ⟨file', List.mem_cons_of_mem _ hfile', hsame⟩
      · obtain hr | ⟨file, hfile, hcompleted⟩ := hnotes r hr
        · rw [hlog] at hr
          obtain hr | hr := List.mem_append.mp hr
          · exact .inl hr
          · exact .inr ⟨next, List.mem_cons_self .., List.mem_singleton.mp hr, hzero⟩
        · exact .inr ⟨file, List.mem_cons_of_mem _ hfile, hcompleted⟩
  | @opened next rest disk disk' hsize hlog hcontent =>
      refine ⟨rfl, fun file hfile => ?_, fun front rest' pos hout hpos => ?_, fun r hr => ?_⟩
      · obtain rfl | hfile := List.mem_cons.mp hfile
        · exact ⟨next, List.mem_cons_self .., rfl, rfl⟩
        · exact ⟨file, List.mem_cons_of_mem _ hfile, rfl, rfl⟩
      · obtain ⟨rfl, -⟩ := List.cons.inj hout
        exact ⟨(Option.some.inj hpos).symm, hcontent⟩
      · change r ∈ disk'.log at hr
        rw [hlog] at hr
        exact .inl hr

/-- A completed empty file is as it is. Kind: L -/
theorem whole_of_empty (h : s.sizeOf i = 0) : s.whole i = [] := by
  unfold whole bytes
  rw [h]
  cases s.contents[i]? with
  | none => rfl
  | some data => rfl

/-- A file behind others is missing after them. Kind: L -/
theorem missing_append {size : ℕ → ℕ} {files : List (IncomingFile ℕ)} (file : IncomingFile ℕ)
    (h : files ≠ []) :
    missing size (files ++ [file]) = missing size files ++ Blocks.stream size [file.offer] := by
  cases files with
  | nil => exact (h rfl).elim
  | cons front rest =>
      rw [List.cons_append, missing, missing, List.map_append, Blocks.stream_append,
        List.append_assoc]
      rfl

/-- An accepted offer: the receiver misses all of its file. Kind: L -/
theorem Received.enqueue (hr : Received key s) (h : s.Sound) {size : ℕ} {name mime destination : Str}
    (hoffer : .fileOffer index name size mime ∈ s.signals)
    (hreceiver : s'.receiver = Incoming.enqueue absolute (fun _ => .ready) key
      { offer := index, expectedSize := size, destination := destination } s.receiver)
    (hchannel : s'.channel = s.channel) (harrived : s'.arrived = s.arrived)
    (haccepted : s'.accepted = s.accepted ++ [index]) (hcontents : s'.contents = s.contents) :
    Received key s' := by
  obtain ⟨-, data, hdata, rfl⟩ := h.offered index name size mime hoffer
  have hsize : s'.sizeOf = s.sizeOf := by
    unfold sizeOf
    rw [hcontents]
  have hbytes : s'.bytes = s.bytes := by
    unfold bytes
    rw [hcontents]
  have hcount : s.sizeOf index = data.count := sizeOf_of_contents hdata
  have hmore : s.accepted <+: s'.accepted := haccepted ▸ List.prefix_append _ _
  have hindex : index ∈ s'.accepted :=
    haccepted ▸ List.mem_append_right _ (List.mem_singleton_self _)
  have harrivedOn : s'.arrivedOn = s.arrivedOn := by
    unfold arrivedOn
    rw [hchannel, harrived]
  have hold (r : Receipt ℕ UInt8) (hmem : r ∈ s.receiver.files.log) : s'.fits r :=
    h.fits_mono hmore (hcontents ▸ List.prefix_rfl) (hr.written r hmem)
  have hwellFormed : s'.receiver.WellFormed := by
    rw [hreceiver]
    exact Incoming.wellFormed_enqueue absolute hr.wellFormed rfl rfl
  have harrived' : s'.arrived ≤ s'.channel.length := by
    rw [harrived, hchannel]
    exact hr.arrived
  have hstream (hmissing : missing s.sizeOf (queue key s') =
      missing s.sizeOf (queue key s) ++ Blocks.stream s.sizeOf [index]) :
      Blocks.stream s'.sizeOf s'.accepted = s'.arrivedOn ++ missing s'.sizeOf (queue key s') := by
    rw [hsize, haccepted, Blocks.stream_append, hr.stream, harrivedOn, hmissing, List.append_assoc]
  have hlock : ({ offer := index, expectedSize := data.count, destination := destination } :
    IncomingFile ℕ).lock = false := rfl
  rcases Incoming.enqueue_cases absolute s.receiver key (fun _ => .ready) hlock rfl with
    ⟨hempty, hstarted⟩ | ⟨hsome, hqueue, hfiles⟩
  · rw [← hreceiver] at hstarted
    obtain ⟨hmissing, hexpected, hcontent, hnotes⟩ := started_spec s.sizeOf hstarted (by
      intro file hfile
      rw [List.mem_singleton.mp hfile]
      exact congrArg Nat.cast hcount.symm)
    refine ⟨hwellFormed, harrived', fun file hfile => ?_, hstream ?_,
      fun front rest pos hqueue hpos => ?_, fun r hmem => ?_⟩
    · obtain ⟨file', hfile', hsame, hsame'⟩ := hexpected file hfile
      rw [List.mem_singleton.mp hfile'] at hsame hsame'
      rw [hsame, hsame', hsize, hcount]
      exact ⟨hindex, rfl⟩
    · have hnil : queue key s = [] := hempty
      rw [hnil]
      exact hmissing
    · obtain ⟨rfl, hnothing⟩ := hcontent front rest pos hqueue hpos
      rw [hnothing, hbytes]
      unfold bytes
      cases s.contents[front.offer]? with
      | none => rfl
      | some data => rfl
    · obtain hmem | ⟨file, hfile, rfl, hzero⟩ := hnotes r hmem
      · exact hold r hmem
      · rw [List.mem_singleton.mp hfile] at hzero ⊢
        exact ⟨hindex, (whole_of_empty (hsize ▸ hzero)).symm⟩
  · rw [← hreceiver] at hqueue hfiles
    have hqueue' : queue key s' = queue key s ++
        [{ offer := index, expectedSize := data.count, destination := destination }] := hqueue
    refine ⟨hwellFormed, harrived', fun file hfile => ?_, hstream ?_,
      fun front rest pos hfront hpos => ?_, fun r hmem => ?_⟩
    · rw [hqueue'] at hfile
      rw [hsize]
      obtain hfile | hfile := List.mem_append.mp hfile
      · exact ⟨hmore.subset (hr.expected file hfile).1, (hr.expected file hfile).2⟩
      · rw [List.mem_singleton.mp hfile, hcount]
        exact ⟨hindex, rfl⟩
    · rw [hqueue']
      exact missing_append _ hsome
    · rw [hqueue'] at hfront
      rw [hfiles, hbytes]
      cases hcase : queue key s with
      | nil => exact (hsome hcase).elim
      | cons first others =>
          rw [hcase, List.cons_append] at hfront
          obtain ⟨rfl, -⟩ := List.cons.inj hfront
          exact hr.content first others pos hcase hpos
    · rw [hfiles] at hmem
      exact hold r hmem

/-- What has reached the receiver when another message does. Kind: L -/
theorem arrivedOn_succ {slice : Slice} (hslice : s.channel[s.arrived]? = some slice) :
    arrivedOn { s with arrived := s.arrived + 1 } =
      s.arrivedOn ++ Blocks.part slice.index slice.start slice.stop := by
  unfold arrivedOn
  rw [List.take_add_one, hslice, List.flatMap_append]
  congr 1
  exact List.flatMap_singleton _ _

/-- The next message is of the file that the receiver is writing, and goes on where that is.
Kind: L -/
theorem Received.next (hr : Received key s) (h : s.Sound) (hframed : s.Framed) {slice : Slice}
    (hslice : s.channel[s.arrived]? = some slice) :
    ∃ front rest, queue key s = front :: rest ∧ front.offer = slice.index ∧
      front.stream = some slice.start ∧ slice.start < slice.stop ∧ slice.stop ≤ s.sizeOf slice.index := by
  obtain ⟨hstart, hstop⟩ := h.slices slice (List.mem_of_getElem? hslice)
  have hnext : Blocks.part slice.index slice.start slice.stop <+: missing s.sizeOf (queue key s) := by
    have htaken : s.arrivedOn ++ Blocks.part slice.index slice.start slice.stop <+: s.onChannel := by
      rw [← arrivedOn_succ hslice]
      unfold arrivedOn onChannel
      have hall : s.channel = s.channel.take (s.arrived + 1) ++ s.channel.drop (s.arrived + 1) :=
        (List.take_append_drop _ _).symm
      conv_rhs => rw [hall, List.flatMap_append]
      exact List.prefix_append _ _
    have hin := htaken.trans hframed
    rw [hr.stream, List.prefix_append_right_inj] at hin
    exact hin
  cases hqueue : queue key s with
  | nil =>
      rw [hqueue, missing, List.prefix_nil] at hnext
      have hlength := congrArg List.length hnext
      rw [Blocks.length_part, List.length_nil] at hlength
      omega
  | cons front rest =>
      obtain ⟨⟨-, hsize, pos, hpos, hless⟩, -⟩ := hr.wellFormed.queueOk hqueue
      have hexpected := (hr.expected front (hqueue ▸ List.mem_cons_self ..)).2
      have hleft : pos < s.sizeOf front.offer := by
        rw [hexpected] at hsize hless
        omega
      rw [hqueue, missing, hpos, Option.getD_some] at hnext
      obtain ⟨hindex, rfl⟩ := Blocks.eq_of_next_part hstart hleft hnext
      exact ⟨front, rest, rfl, hindex.symm, hpos, hstart, hstop⟩

/-- A message that reaches the receiver is written where it belongs. Kind: L -/
theorem Received.deliver (hr : Received key s) (h : s.Sound) (hframed : s.Framed) {slice : Slice}
    (hslice : s.channel[s.arrived]? = some slice) : Received key { s with
      receiver := (Incoming.onIncomingChunk absolute (fun _ => .ready) none key (s.bytes slice)
        s.receiver).2
      arrived := s.arrived + 1 } := by
  obtain ⟨front, rest, hqueue, hindex, hpos, hstart, hstop⟩ := hr.next h hframed hslice
  obtain ⟨hoffer, hexpected⟩ := hr.expected front (hqueue ▸ List.mem_cons_self ..)
  have hqueueOf : s.receiver.queueOf key = front :: rest := hqueue
  have hlt : front.offer < s.contents.length := h.queued.2 _ hoffer
  obtain ⟨index, start, stop⟩ := slice
  obtain rfl : front.offer = index := hindex
  change start < stop at hstart
  change stop ≤ s.sizeOf front.offer at hstop
  change front.stream = some start at hpos
  have hlength : (s.bytes ⟨front.offer, start, stop⟩).length = stop - start := length_bytes hlt _ _
  have hcontent : (Incoming.wrote front start (s.bytes ⟨front.offer, start, stop⟩)
      s.receiver.files).content front.destination = s.bytes ⟨front.offer, 0, stop⟩ := by
    have hbefore := hr.content front rest start hqueue hpos
    show (Files.writeAt _ _ _ _).content front.destination = _
    rw [Files.content_writeAt_end, hbefore, bytes_append (Nat.zero_le _) hstart.le]
    rw [hbefore, length_bytes hlt, Nat.sub_zero]
  have hstream := hr.stream
  rw [hqueue, missing, hpos, Option.getD_some, ← Blocks.part_append hstart.le hstop,
    List.append_assoc, ← List.append_assoc, ← arrivedOn_succ hslice] at hstream
  have hwrote : s.fits (.wrote front.offer (s.bytes ⟨front.offer, start, stop⟩)) :=
    ⟨hoffer, start, stop, rfl⟩
  have hwellFormed : (Incoming.onIncomingChunk absolute (fun _ => .ready) none key
      (s.bytes ⟨front.offer, start, stop⟩) s.receiver).2.WellFormed :=
    Incoming.wellFormed_onIncomingChunk absolute hr.wellFormed
  have hwaiting := Incoming.waiting_of_queueOk (hr.wellFormed.queueOk hqueueOf)
  have hrest (file : IncomingFile ℕ) (hfile : file ∈ rest) :=
    hr.expected file (hqueue ▸ List.mem_cons_of_mem _ hfile)
  have hle : s.arrived + 1 ≤ s.channel.length := (List.getElem?_eq_some_iff.mp hslice).1
  by_cases hlast : stop = s.sizeOf front.offer
  · have hsize : (start : ℤ) + (s.bytes ⟨front.offer, start, stop⟩).length = front.expectedSize := by
      rw [hlength, hexpected, ← hlast]
      omega
    rw [Incoming.onIncomingChunk_complete absolute hqueueOf hpos hsize] at hwellFormed ⊢
    have hstarted := Incoming.started_of_waiting absolute (fun _ => Preparation.ready)
      (((Incoming.wrote front start (s.bytes ⟨front.offer, start, stop⟩) s.receiver.files).note
        (.completed front.offer ((Incoming.wrote front start (s.bytes ⟨front.offer, start, stop⟩)
          s.receiver.files).content front.destination))).received (absolute front.destination))
      hwaiting
    obtain ⟨hmissing, hfiles, hopened, hnotes⟩ := started_spec s.sizeOf hstarted
      fun file hfile => (hrest file hfile).2
    refine ⟨hwellFormed, hle, fun file hfile => ?_, ?_, fun front' rest' pos hfront' hpos' => ?_,
      fun r hmem => ?_⟩
    · change file ∈ Incoming.queueOf (Incoming.finish _ _ _ _ _ _ _) key at hfile
      rw [Incoming.finish, Incoming.queueOf_store_same] at hfile
      obtain ⟨file', hfile', hsame, hsame'⟩ := hfiles file hfile
      rw [hsame, hsame']
      exact hrest file' hfile'
    · show Blocks.stream s.sizeOf s.accepted = arrivedOn { s with arrived := s.arrived + 1 } ++
        missing s.sizeOf (Incoming.queueOf (Incoming.finish _ _ _ _ _ _ _) key)
      rw [Incoming.finish, Incoming.queueOf_store_same, hmissing, hstream, hlast,
        Blocks.part_eq_nil le_rfl, List.nil_append]
    · change Incoming.queueOf (Incoming.finish _ _ _ _ _ _ _) key = _ at hfront'
      rw [Incoming.finish, Incoming.queueOf_store_same] at hfront'
      obtain ⟨rfl, hnothing⟩ := hopened front' rest' pos hfront' hpos'
      refine hnothing.trans ?_
      show [] = s.bytes ⟨front'.offer, 0, 0⟩
      unfold bytes
      cases s.contents[front'.offer]? with
      | none => rfl
      | some data => rfl
    · obtain hmem | ⟨file, hfile, rfl, hzero⟩ := hnotes r hmem
      · rw [Files.log_received, Files.log_note, Incoming.log_wrote, List.mem_append,
          List.mem_append, List.mem_singleton, List.mem_singleton] at hmem
        obtain (hmem | rfl) | rfl := hmem
        · exact hr.written r hmem
        · exact hwrote
        · refine ⟨hoffer, ?_⟩
          rw [hcontent, hlast]
          rfl
      · exact ⟨(hrest file hfile).1, (whole_of_empty hzero).symm⟩
  · have hsize : (start : ℤ) + (s.bytes ⟨front.offer, start, stop⟩).length < front.expectedSize := by
      rw [hlength, hexpected]
      omega
    rw [Incoming.onIncomingChunk_short absolute hqueueOf hpos hsize] at hwellFormed ⊢
    have hend : start + (s.bytes ⟨front.offer, start, stop⟩).length = stop := by
      rw [hlength]
      omega
    rw [hend] at hwellFormed ⊢
    refine ⟨hwellFormed, hle, fun file hfile => ?_, ?_, fun front' rest' pos hfront' hpos' => ?_,
      fun r hmem => ?_⟩
    · change file ∈ Incoming.queueOf (Incoming.store _ _ _) key at hfile
      rw [Incoming.queueOf_store_same] at hfile
      obtain rfl | hfile := List.mem_cons.mp hfile
      · exact ⟨hoffer, hexpected⟩
      · exact hrest file hfile
    · show Blocks.stream s.sizeOf s.accepted = arrivedOn { s with arrived := s.arrived + 1 } ++
        missing s.sizeOf (Incoming.queueOf (Incoming.store _ _ _) key)
      rw [Incoming.queueOf_store_same, missing, Option.getD_some]
      exact hstream
    · change Incoming.queueOf (Incoming.store _ _ _) key = _ at hfront'
      rw [Incoming.queueOf_store_same] at hfront'
      obtain ⟨rfl, -⟩ := List.cons.inj hfront'
      obtain rfl := Option.some.inj hpos'
      exact hcontent
    · change r ∈ (Incoming.wrote _ _ _ _).log at hmem
      rw [Incoming.log_wrote, List.mem_append, List.mem_singleton] at hmem
      obtain hmem | rfl := hmem
      · exact hr.written r hmem
      · exact hwrote

/-- A step that is in turn keeps what holds of the receiver. Kind: L -/
theorem received_step (hr : Received key s) (h : s.Sound) (hframed : s.Framed)
    (hstep : s.step key absolute e = some s') : Received key s' := by
  rcases step_cases hstep with ⟨hchannel, hreceiver, harrived, haccepted, hcontents, -⟩ |
    ⟨k, index, data, offset, stop, -, -, -, hchannel, hreceiver, harrived, haccepted, hcontents, -⟩ |
    ⟨index, name, mime, destination, size, hoffer, hreceiver, hchannel, harrived, haccepted,
      hcontents, -⟩ |
    ⟨slice, hslice, rfl, -⟩
  · exact hr.mono h hreceiver harrived haccepted hcontents (hchannel ▸ List.prefix_rfl)
  · refine hr.mono h hreceiver harrived haccepted (hcontents ▸ List.prefix_rfl) ?_
    rw [hchannel]
    exact List.prefix_append _ _
  · exact hr.enqueue h hoffer hreceiver hchannel harrived haccepted hcontents
  · exact hr.deliver h hframed hslice

/-! ## Whole runs -/

/-- Nothing on the channel frames nothing. Kind: L -/
theorem framed_init : Framed {} := List.nil_prefix

/-- **The channel is framed all along exactly where every chunk is in turn.** Kind: P -/
theorem framed_iff_inTurn (key : PeerRoomKey) (absolute : Str → Str) (es : List Event) :
    Runs.Always (step key absolute) Framed {} es ↔
      Runs.Meets (step key absolute) (fun s e => s.inTurn e = true) {} es := by
  apply Runs.always_iff_meets (step key absolute) (I := Sound) _ _ _ sound_init framed_init
  · intro s e s' h hstep
    exact sound_step h hstep
  · intro s e s' h hframed hturn hstep
    exact (framed_step_iff h hframed hstep).mpr hturn
  · intro s e s' h hframed hturn hstep hframed'
    exact hturn ((framed_step_iff h hframed hstep).mp hframed')

/-- The channel carries the accepted files one after another, and the receiver wrote every file as
it is. Kind: D -/
def Orderly (s : Uploads) : Prop := s.Framed ∧ s.Written

/-- **Transfers keep apart in exactly the runs in which every chunk is in turn**: the binary
messages of an accepted file follow each other, files come in the order in which the receiver
queued them, and the receiver writes every file as it is. Kind: P -/
theorem orderly_iff_inTurn (key : PeerRoomKey) (absolute : Str → Str) (es : List Event) :
    Runs.Always (step key absolute) Orderly {} es ↔
      Runs.Meets (step key absolute) (fun s e => s.inTurn e = true) {} es := by
  constructor
  · intro hall
    exact (framed_iff_inTurn key absolute es).mp (hall.imp _ fun s h => h.1)
  · intro hmeets
    have hinit : Sound {} ∧ Framed {} ∧ Received key {} := ⟨sound_init, framed_init, received_init⟩
    have hall := Runs.always_of_meets (step key absolute)
      (P := fun s => s.Sound ∧ s.Framed ∧ Received key s) ?_ hinit hmeets
    · exact hall.imp _ fun s h => ⟨h.2.1, h.2.2.written⟩
    · rintro s e s' ⟨h, hframed, hr⟩ hturn hstep
      exact ⟨sound_step h hstep, (framed_step_iff h hframed hstep).mpr hturn,
        received_step hr h hframed hstep⟩

/-- A video of more than a mebibyte. Kind: D -/
def clip : PhoneItem := ⟨str "a.mov", str "video/quicktime", .video, some ⟨2 ^ 20 + 2 ^ 18, fun _ => 0⟩⟩

/-- A small file. Kind: D -/
def notes : PhoneItem := ⟨str "b.txt", str "text/plain", .file, some ⟨100, fun _ => 1⟩⟩

/-- Both are offered and accepted; the video is sent until too much is buffered, and then the file
has its turn. Kind: D -/
def clipThenNotes : List Event :=
  [.select [clip], .take 0, .select [notes], .take 1, .handled 0 (.accepted (str "a.mov")),
    .handled 0 (.accepted (str "b.txt")), .answered 0, .answered 0] ++
  List.replicate 67 (.turn 0 true) ++ [.drain (2 ^ 15), .turn 1 true, .turn 1 true]

/-- The file is sent amid the video. Kind: P -/
theorem notes_amid_clip :
    ¬ ∀ key absolute es, Runs.Always (step key absolute) Orderly {} es := by
  intro hall
  have horderly := hall (str "a", str "r") id clipThenNotes
  have hmeets := (framed_iff_inTurn _ _ _).mp (horderly.imp _ fun s h => h.1)
  revert hmeets
  decide +kernel

end Uploads

end CloudNode
