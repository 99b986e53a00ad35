import CloudNode.Lib.Records
import CloudNode.Sync.Scanning

/-!
# Events as the kernel writes them

`read` fills a buffer of 64 KiB with as many of the kernel's events as there is room for, one behind
the other: a header of four words, the last of which says how many bytes come behind it, and there
the name, ended by a NUL and filled up with more. `HandleEvents` goes through the bytes with a
pointer, tests the bits of the mask, and gets the name as a C string. In between it calls
`AddWatchTree`, while others change the tree.

`BufferedTree` is the tree and its watches with what the pointer has not passed, in bytes. What is
said of `WatchedTree`, whose buffer has events, is said of it as well.

* `written` — what the kernel writes.
* `handleNext` — the body of the loop of `HandleEvents`.
* `handleNext_record` — it handles the event that the next record is of, and goes on behind it.
* `runs_alike` — the runs on bytes are the runs on events whose reads fit the buffer.
-/

namespace CloudNode

/-! ## The format -/

/-- The bits of a mask. Source: `sys/inotify.h`. Kind: D -/
abbrev inCloseWrite : UInt32 := 0x8
/-- Source: `sys/inotify.h`. Kind: D -/
abbrev inMovedFrom : UInt32 := 0x40
/-- Source: `sys/inotify.h`. Kind: D -/
abbrev inMovedTo : UInt32 := 0x80
/-- Source: `sys/inotify.h`. Kind: D -/
abbrev inCreate : UInt32 := 0x100
/-- Source: `sys/inotify.h`. Kind: D -/
abbrev inDelete : UInt32 := 0x200
/-- Source: `sys/inotify.h`. Kind: D -/
abbrev inIgnored : UInt32 := 0x8000
/-- Source: `sys/inotify.h`. Kind: D -/
abbrev inIsdir : UInt32 := 0x40000000

/-- The bit of a kind. Kind: D -/
def WatchKind.bit : WatchKind → UInt32
  | .create => inCreate
  | .closeWrite => inCloseWrite
  | .delete => inDelete
  | .movedFrom => inMovedFrom
  | .movedTo => inMovedTo

/-- What the kernel writes with an event and the watcher does not look at: the number that joins the
two events of a rename, and how many NULs follow the one that ends the name. Kind: D -/
structure Filling where
  cookie : ℕ
  padding : ℕ

namespace KernelEvent

/-- The watch that an event comes from. Kind: D -/
def wd : KernelEvent → ℕ
  | .ignored wd => wd
  | .child wd _ _ _ => wd

/-- Kind: D -/
def mask : KernelEvent → UInt32
  | .ignored _ => inIgnored
  | .child _ kind isDir _ => kind.bit ||| if isDir then inIsdir else 0

/-- The name of the entry; the watched inode itself has none. Kind: D -/
def name : KernelEvent → Str
  | .ignored _ => []
  | .child _ _ _ name => name

/-- The bytes behind the header. Kind: D -/
def nameField (e : KernelEvent) (filling : Filling) : List UInt8 :=
  if e.name = [] then [] else e.name ++ List.replicate (filling.padding + 1) 0

/-- A record of the buffer.
Source: `sys/inotify.h`, `inotify_event`
Kind: D -/
def record (e : KernelEvent) (filling : Filling) : List UInt8 :=
  Records.header 4 [e.wd, e.mask.toNat, filling.cookie, (e.nameField filling).length] ++
    e.nameField filling

/-- What a record can be of: the watch is an `int` and not negative, the name has no NUL, and the
other words have room for what they are. Kind: D -/
structure Writable (e : KernelEvent) (filling : Filling) : Prop where
  wd : e.wd < 2 ^ 31
  cookie : filling.cookie < 2 ^ 32
  length : (e.nameField filling).length < 2 ^ 32
  name : (0 : UInt8) ∉ e.name

/-- Whether there is such a record. Kind: D -/
instance (e : KernelEvent) (filling : Filling) : Decidable (e.Writable filling) :=
  decidable_of_iff (e.wd < 2 ^ 31 ∧ filling.cookie < 2 ^ 32 ∧
      (e.nameField filling).length < 2 ^ 32 ∧ (0 : UInt8) ∉ e.name)
    ⟨fun h => ⟨h.1, h.2.1, h.2.2.1, h.2.2.2⟩, fun h => ⟨h.wd, h.cookie, h.length, h.name⟩⟩

end KernelEvent

/-- What the kernel writes for some events. Kind: D -/
def written : List KernelEvent → List Filling → List UInt8
  | e :: events, filling :: fillings => e.record filling ++ written events fillings
  | _, _ => []

/-! ## The watcher -/

/-- The tree, the kernel and the watcher, with what the watcher read and did not handle yet in
bytes; the buffer of events stays empty. Kind: D -/
structure BufferedTree extends WatchedTree where
  bytes : List UInt8 := []

namespace WatchedTree

/-- Source: `FileWatcher.cpp`, `HandleEvents`, `m_watches.find(event->wd)`. Kind: D -/
def findWatch (s : WatchedTree) (wd : ℤ) : Option AbsPath :=
  if 0 ≤ wd then s.watches[wd.toNat]? else none

/-- Source: `FileWatcher.cpp`, `HandleEvents`, `m_watches.erase(event->wd)`. Kind: D -/
def eraseWatch (s : WatchedTree) (wd : ℤ) : WatchedTree :=
  if 0 ≤ wd then { s with watches := s.watches.erase wd.toNat } else s

/-- What the bits of the mask have done to a path.
Source: `FileWatcher.cpp`, `HandleEvents`, from `const bool isDir` on
Kind: D -/
def handleMask (s : WatchedTree) (mask : UInt32) (path : AbsPath) : WatchedTree :=
  let isDir := mask &&& inIsdir ≠ 0
  if mask &&& (inCreate ||| inMovedTo) ≠ 0 then
    if isDir then { s with frames := .adding path true :: s.frames }
    else if mask &&& inMovedTo ≠ 0 then s.notify path .added
    else { s with created := s.created.insert path }
  else if mask &&& inCloseWrite ≠ 0 then
    if isDir then s
    else { s with created := s.created.erase path }.notify path
      (if path ∈ s.created then .added else .modified)
  else if mask &&& (inDelete ||| inMovedFrom) ≠ 0 then
    if isDir then s else { s with created := s.created.erase path }.notify path .removed
  else s

end WatchedTree

/-- An `int` of its 32 bits. Kind: D -/
def asInt32 (n : ℕ) : ℤ := if n < 2 ^ 31 then n else n - 2 ^ 32

namespace BufferedTree

/-- The body of the loop, with the pointer at the front of `bytes`. A name ends at the first NUL,
wherever that is.
Source: `FileWatcher.cpp`, `HandleEvents`
Kind: D -/
def handleNext (s : BufferedTree) : BufferedTree :=
  let wd := asInt32 (Records.word 4 s.bytes 0)
  let mask := UInt32.ofNat (Records.word 4 s.bytes 1)
  let len := Records.word 4 s.bytes 3
  let bytes := s.bytes.drop (16 + len)
  if mask &&& inIgnored ≠ 0 then ⟨s.eraseWatch wd, bytes⟩
  else match s.findWatch wd with
    | none => { s with bytes := bytes }
    | some dir =>
      if len = 0 then { s with bytes := bytes }
      else ⟨s.handleMask mask (cstr (s.bytes.drop 16) :: dir), bytes⟩

/-- The events that a read takes, and what the kernel fills their records with, are such that the
buffer has room for them. Source: `FileWatcher.cpp`, `Run`, `buffer`. Kind: D -/
structure Fits (events : List KernelEvent) (fillings : List Filling) : Prop where
  writable : List.Forall₂ KernelEvent.Writable events fillings
  room : (written events fillings).length ≤ 64 * 1024

/-- Whether a read can take the events. Kind: D -/
instance (events : List KernelEvent) (fillings : List Filling) : Decidable (Fits events fillings) :=
  decidable_of_iff (List.Forall₂ KernelEvent.Writable events fillings ∧
      (written events fillings).length ≤ 64 * 1024)
    ⟨fun h => ⟨h.1, h.2⟩, fun h => ⟨h.writable, h.room⟩⟩

/-- One step; an event comes with what the kernel fills a read with.
Source: `FileWatcher.cpp`, `Start`, `Run`, `HandleEvents`, `AddWatchTree`, `FlushIfQuiet`
Kind: D -/
def step (s : BufferedTree) (e : WatchedTree.Event × List Filling) : Option BufferedTree :=
  match e.1 with
  | .poll count =>
    if s.started ∧ s.frames.isEmpty ∧ s.bytes.isEmpty ∧ Fits (s.queue.take count) e.2 then
      some { s with
        bytes := written (s.queue.take count) e.2
        queue := s.queue.drop count }
    else none
  | .read => if s.frames.isEmpty ∧ ¬ s.bytes.isEmpty then some s.handleNext else none
  | .flush =>
    if s.started ∧ s.frames.isEmpty ∧ s.bytes.isEmpty then some { s with pending := ∅ } else none
  | e => (s.toWatchedTree.step e).map fun t => ⟨t, s.bytes⟩

/-- `Start` is called, as for `WatchedTree`. Source: `FileWatcher.cpp`, `Start`. Kind: D -/
def atStart (root : AbsPath) (tree : FileTree) : BufferedTree :=
  ⟨WatchedTree.atStart root tree, []⟩

end BufferedTree

/-! ## One record -/

/-- The mask says what the event is. Kind: L -/
theorem WatchedTree.handleMask_bit (s : WatchedTree) (kind : WatchKind) (isDir : Bool)
    (path : AbsPath) :
    s.handleMask (kind.bit ||| if isDir then inIsdir else 0) path =
      s.handleChild kind isDir path := by
  cases kind with
  | create => cases isDir <;> rfl
  | closeWrite => cases isDir <;> rfl
  | delete => cases isDir <;> rfl
  | movedFrom => cases isDir <;> rfl
  | movedTo => cases isDir <;> rfl

/-- No event of a child is taken for the end of a watch. Kind: L -/
theorem WatchKind.not_ignored (kind : WatchKind) (isDir : Bool) :
    (kind.bit ||| if isDir then inIsdir else 0) &&& inIgnored = 0 := by
  cases kind <;> cases isDir <;> rfl

/-- The name of a record is the C string behind its header. Kind: L -/
theorem cstr_nameField {name : Str} (hname : (0 : UInt8) ∉ name) (padding : ℕ)
    (rest : List UInt8) :
    cstr (name ++ List.replicate (padding + 1) 0 ++ rest) = name := by
  have hall : ∀ b ∈ name, decide (b ≠ 0) = true := by
    intro b hb
    rw [decide_eq_true_eq]
    rintro rfl
    exact hname hb
  rw [cstr, List.append_assoc, List.takeWhile_append_of_pos hall, List.replicate_succ,
    List.cons_append, List.takeWhile_cons_of_neg (by decide), List.append_nil]

/-- A watch descriptor is not negative. Kind: L -/
theorem asInt32_of_lt {n : ℕ} (h : n < 2 ^ 31) : asInt32 n = n := if_pos h

namespace BufferedTree

variable {s : BufferedTree} {t t' : WatchedTree} {e : KernelEvent} {filling : Filling}
  {events : List KernelEvent} {fillings : List Filling} {rest : List UInt8}

/-- The words of the record at the pointer. Kind: L -/
theorem word_record (h : e.Writable filling) {i n : ℕ}
    (hn : [e.wd, e.mask.toNat, filling.cookie, (e.nameField filling).length][i]? = some n)
    (rest : List UInt8) : Records.word 4 (e.record filling ++ rest) i = n := by
  have hwords : ∀ n ∈ [e.wd, e.mask.toNat, filling.cookie, (e.nameField filling).length],
      n < 256 ^ 4 := by
    intro n hmem
    have hmask := e.mask.toNat_lt
    have hwd := h.wd
    have hcookie := h.cookie
    have hlength := h.length
    simp only [List.mem_cons, List.not_mem_nil, or_false] at hmem
    omega
  rw [KernelEvent.record, List.append_assoc]
  exact Records.word_header hwords hn _

/-- Behind the header of a record is its name. Kind: L -/
theorem drop_header (e : KernelEvent) (filling : Filling) (rest : List UInt8) :
    (e.record filling ++ rest).drop 16 = e.nameField filling ++ rest := by
  rw [KernelEvent.record, List.append_assoc]
  exact List.drop_left' (Records.length_header 4 _)

/-- The pointer goes to the next record. Kind: L -/
theorem drop_record (e : KernelEvent) (filling : Filling) (rest : List UInt8) :
    (e.record filling ++ rest).drop (16 + (e.nameField filling).length) = rest := by
  rw [← List.drop_drop, drop_header, List.drop_left' rfl]

/-- **The next record is handled** as the event that it is of. Kind: P -/
theorem handleNext_record (h : e.Writable filling) (hbytes : s.bytes = e.record filling ++ rest) :
    s.handleNext = ⟨s.toWatchedTree.handleEvent e, rest⟩ := by
  have hwd : asInt32 (Records.word 4 s.bytes 0) = e.wd := by
    rw [hbytes, word_record h rfl, asInt32_of_lt h.wd]
  have hmask : UInt32.ofNat (Records.word 4 s.bytes 1) = e.mask := by
    rw [hbytes, word_record h rfl, UInt32.ofNat_toNat]
  have hlen : Records.word 4 s.bytes 3 = (e.nameField filling).length := by
    rw [hbytes, word_record h rfl]
  have hdrop : s.bytes.drop (16 + (e.nameField filling).length) = rest := by
    rw [hbytes, drop_record]
  have hfind : s.findWatch (e.wd : ℤ) = s.watches[e.wd]? := if_pos (Int.natCast_nonneg _)
  rw [handleNext]
  simp only [hwd, hmask, hlen, hdrop, hfind]
  cases e with
  | ignored wd =>
      have hignored : inIgnored &&& inIgnored ≠ 0 := by decide
      exact if_pos hignored
  | child wd kind isDir name =>
      have hnot : ¬ (KernelEvent.child wd kind isDir name).mask &&& inIgnored ≠ 0 :=
        not_not.mpr (kind.not_ignored isDir)
      rw [if_neg hnot, KernelEvent.wd, WatchedTree.handleEvent]
      cases hwatch : s.watches[wd]? with
      | none => rfl
      | some dir =>
          by_cases hname : name = []
          · have hzero : ((KernelEvent.child wd kind isDir name).nameField filling).length = 0 := by
              rw [KernelEvent.nameField, KernelEvent.name, if_pos hname, List.length_nil]
            exact (if_pos hzero).trans (congrArg (BufferedTree.mk · rest) (if_pos hname).symm)
          · have hfield : (KernelEvent.child wd kind isDir name).nameField filling =
                name ++ List.replicate (filling.padding + 1) 0 := if_neg hname
            have hpositive :
                ((KernelEvent.child wd kind isDir name).nameField filling).length ≠ 0 := by
              rw [hfield, List.length_append, List.length_replicate]
              omega
            have hcstr : cstr (s.bytes.drop 16) = name := by
              rw [hbytes, drop_header, hfield]
              exact cstr_nameField h.name filling.padding rest
            have hhandled : s.handleMask (KernelEvent.child wd kind isDir name).mask
                (cstr (s.bytes.drop 16) :: dir) = s.handleChild kind isDir (name :: dir) := by
              rw [hcstr]
              exact s.handleMask_bit kind isDir (name :: dir)
            refine (if_neg hpositive).trans (congrArg (BufferedTree.mk · rest) ?_)
            exact hhandled.trans (if_neg hname).symm

end BufferedTree

/-! ## Steps that leave the buffer alone -/

namespace WatchedTree

/-- The same, but for the buffer. Kind: D -/
def setBuffer (s : WatchedTree) (events : List KernelEvent) : WatchedTree :=
  { s with buffer := events }

variable (s : WatchedTree) (events : List KernelEvent)

/-- The buffer is what it was set to. Kind: L -/
theorem buffer_setBuffer : (s.setBuffer events).buffer = events := rfl

/-- What the buffer has does not matter to a path. Kind: L -/
theorem spot_setBuffer (path : AbsPath) :
    ({ s with buffer := events } : WatchedTree).spot path = s.spot path := rfl

/-- What the buffer has does not matter to a rename. Kind: L -/
theorem renamable_setBuffer {i d : ℕ} {old new : AbsPath} {n : Str} :
    (s.setBuffer events).Renamable i old new d n ↔ s.Renamable i old new d n :=
  ⟨fun h => ⟨h.1, h.2, h.3, h.4, h.5, h.6⟩, fun h => ⟨h.1, h.2, h.3, h.4, h.5, h.6⟩⟩

/-- Nor does it to an entry of a listing. Kind: L -/
theorem listEntry_setBuffer (path : AbsPath) (reportExisting : Bool) (found : Option NodeKind) :
    (s.setBuffer events).listEntry path reportExisting found =
      (s.listEntry path reportExisting found).setBuffer events := by
  cases found with
  | none => rfl
  | some kind =>
      cases kind with
      | directory => rfl
      | regular => cases reportExisting <;> rfl

/-- Nor does it to an event. Kind: L -/
theorem handleEvent_setBuffer (e : KernelEvent) :
    (s.setBuffer events).handleEvent e = (s.handleEvent e).setBuffer events := by
  cases e with
  | ignored wd => rfl
  | child wd kind isDir name =>
      have hsame : (s.setBuffer events).watches = s.watches := rfl
      rw [handleEvent, handleEvent, hsame]
      cases s.watches[wd]? with
      | none => rfl
      | some dir =>
          by_cases hname : name = []
          · simp only [if_pos hname]
          · simp only [if_neg hname]
            cases kind <;> cases isDir <;> rfl

/-- The next event of the buffer is handled. Kind: L -/
theorem step_read {s : WatchedTree} {e : KernelEvent} {events : List KernelEvent}
    (hframes : s.frames = []) (hbuffer : s.buffer = e :: events) :
    s.step .read = some ((s.setBuffer events).handleEvent e) := by
  simp only [step, setBuffer, hframes, hbuffer]

/-- **All other steps leave the buffer alone**, and do the same whatever it has. Kind: L -/
theorem step_setBuffer (e : Event) (hpoll : ∀ count, e ≠ .poll count) (hread : e ≠ .read)
    (hflush : e ≠ .flush) :
    (s.setBuffer events).step e = (s.step e).map fun t => t.setBuffer events := by
  change ({ s with buffer := events } : WatchedTree).step e = _
  cases e with
  | make kind path =>
      simp only [step, spot_setBuffer]
      cases s.spot path with
      | none => rfl
      | some spot =>
          simp only
          by_cases h : s.tree.Free spot.1 spot.2
          · simp only [dif_pos h]
            rfl
          · simp only [dif_neg h]
            rfl
  | delete path =>
      simp only [step, spot_setBuffer]
      cases s.spot path with
      | none => rfl
      | some spot =>
          cases hlink : s.tree.link spot.1 spot.2 with
          | none => simp only [hlink, Option.map_none]
          | some i =>
              simp only [hlink]
              split <;> rfl
  | close path =>
      simp only [step, spot_setBuffer]
      cases s.spot path with
      | none => rfl
      | some spot =>
          cases s.tree.find path with
          | none => rfl
          | some i =>
              simp only
              split <;> rfl
  | closeRemoved d n => rfl
  | rename old new =>
      simp only [step, spot_setBuffer]
      cases s.spot old with
      | none => rfl
      | some spot =>
          cases s.spot new with
          | none => rfl
          | some target =>
              simp only
              split
              · rename_i i hlink
                by_cases h : s.Renamable i old new target.1 target.2
                · rw [dif_pos h]
                  exact dif_pos ((s.renamable_setBuffer events).mpr h)
                · rw [dif_neg h]
                  exact dif_neg fun h' => h ((s.renamable_setBuffer events).mp h')
              · rfl
  | evict i =>
      simp only [step]
      split <;> rfl
  | poll count => exact (hpoll count rfl).elim
  | read => exact (hread rfl).elim
  | addWatch =>
      simp only [step]
      split
      · split <;> rfl
      · rfl
  | openDir =>
      simp only [step]
      split
      · split
        · split <;> rfl
        · rfl
      · rfl
  | entry name found =>
      simp only [step]
      split
      · rename_i dir node left reportExisting frames _
        split
        · exact congrArg some (listEntry_setBuffer { s with
            frames := .listing dir node (left.filter (· ≠ name)) reportExisting :: frames } events
            (name :: dir) reportExisting found)
        · rfl
      · rfl
  | leave =>
      simp only [step]
      split <;> rfl
  | startReturns =>
      simp only [step]
      split <;> rfl
  | flush => exact (hflush rfl).elim

end WatchedTree

/-! ## The runs -/

namespace BufferedTree

/-- The bytes are those of the events that are left, and all else is the same. Kind: D -/
structure Represents (s : BufferedTree) (t : WatchedTree) : Prop where
  tree : s.toWatchedTree = t.setBuffer []
  bytes : ∃ fillings, List.Forall₂ KernelEvent.Writable t.buffer fillings ∧
    s.bytes = written t.buffer fillings

/-- A read of the kernel's events fits the buffer. Kind: D -/
def readFits (t : WatchedTree) (e : WatchedTree.Event × List Filling) : Bool :=
  match e.1 with
  | .poll count => Fits (t.queue.take count) e.2
  | _ => true

/-- Records are not empty. Kind: L -/
theorem written_eq_nil (h : List.Forall₂ KernelEvent.Writable events fillings) :
    written events fillings = [] ↔ events = [] := by
  cases h with
  | nil => exact iff_of_true rfl rfl
  | cons hfirst hrest =>
      refine iff_of_false (fun hnil => ?_) (List.cons_ne_nil _ _)
      have hlength := congrArg List.length (List.append_eq_nil_iff.mp (hnil : _ ++ _ = [])).1
      rw [KernelEvent.record, List.length_append, Records.length_header] at hlength
      simp only [List.length_cons, List.length_nil] at hlength
      omega

/-- Both sides are as far with `Start`. Kind: L -/
theorem Represents.started {s : BufferedTree} (h : Represents s t) : s.started = t.started := by
  rw [h.tree]
  rfl

/-- Both sides are in the same calls. Kind: L -/
theorem Represents.frames {s : BufferedTree} (h : Represents s t) : s.frames = t.frames := by
  rw [h.tree]
  rfl

/-- Both sides have the same events to read. Kind: L -/
theorem Represents.queue {s : BufferedTree} (h : Represents s t) : s.queue = t.queue := by
  rw [h.tree]
  rfl

/-- Nothing is left of the bytes just when no events are. Kind: L -/
theorem Represents.isEmpty_iff {s : BufferedTree} (h : Represents s t) :
    s.bytes.isEmpty = t.buffer.isEmpty := by
  obtain ⟨fillings, hwritable, hbytes⟩ := h.bytes
  rw [hbytes, Bool.eq_iff_iff, List.isEmpty_iff, List.isEmpty_iff]
  exact written_eq_nil hwritable

/-- A step that leaves the buffer alone is one step on both sides. Kind: L -/
theorem Represents.other {s : BufferedTree} (h : Represents s t) (a : WatchedTree.Event)
    (hpoll : ∀ count, a ≠ .poll count) (hread : a ≠ .read) (hflush : a ≠ .flush) :
    Option.Rel Represents ((s.toWatchedTree.step a).map fun t => ⟨t, s.bytes⟩) (t.step a) := by
  have hsame : t.step a = (t.step a).map fun t' => t'.setBuffer t.buffer :=
    t.step_setBuffer t.buffer a hpoll hread hflush
  rw [h.tree, t.step_setBuffer [] a hpoll hread hflush]
  cases hstep : t.step a with
  | none => exact .none
  | some t' =>
      rw [hstep] at hsame
      have hkept : t' = t'.setBuffer t.buffer := Option.some.inj hsame
      have hbuffer : t'.buffer = t.buffer := by rw [hkept, WatchedTree.buffer_setBuffer]
      exact .some ⟨rfl, hbuffer ▸ h.bytes⟩

/-- A read takes the same events on both sides. Kind: L -/
theorem Represents.poll {s : BufferedTree} (h : Represents s t) (count : ℕ)
    (fillings : List Filling) :
    Option.Rel Represents (s.step (.poll count, fillings))
      (if Fits (t.queue.take count) fillings then t.step (.poll count) else none) := by
  simp only [BufferedTree.step, WatchedTree.step, h.started, h.frames, h.queue, h.isEmpty_iff]
  by_cases hfits : Fits (t.queue.take count) fillings
  · by_cases hready : t.started ∧ t.frames.isEmpty ∧ t.buffer.isEmpty
    · rw [if_pos hfits, if_pos hready, if_pos ⟨hready.1, hready.2.1, hready.2.2, hfits⟩]
      refine .some ⟨?_, fillings, hfits.writable, rfl⟩
      rw [h.tree]
      rfl
    · rw [if_pos hfits, if_neg hready, if_neg fun hall => hready ⟨hall.1, hall.2.1, hall.2.2.1⟩]
      exact .none
  · rw [if_neg hfits, if_neg fun hall => hfits hall.2.2.2]
    exact .none

/-- Both sides handle the same event. Kind: L -/
theorem Represents.read {s : BufferedTree} (h : Represents s t) (fillings : List Filling) :
    Option.Rel Represents (s.step (.read, fillings)) (t.step .read) := by
  obtain ⟨left, hwritable, hbytes⟩ := h.bytes
  cases hframes : t.frames with
  | cons f frames =>
      simp only [BufferedTree.step, WatchedTree.step, h.frames, hframes]
      exact .none
  | nil =>
      cases hbuffer : t.buffer with
      | nil =>
          simp only [BufferedTree.step, WatchedTree.step, h.frames, h.isEmpty_iff, hframes, hbuffer]
          exact .none
      | cons e events =>
          rw [hbuffer] at hwritable hbytes
          cases hwritable with
          | cons hfirst hrest =>
              have hready : s.frames.isEmpty ∧ ¬ s.bytes.isEmpty := by
                rw [h.frames, h.isEmpty_iff, hframes, hbuffer]
                exact ⟨rfl, Bool.false_ne_true⟩
              have hstep : s.step (.read, fillings) = some s.handleNext := if_pos hready
              rw [hstep, WatchedTree.step_read hframes hbuffer, handleNext_record hfirst hbytes]
              have htree : s.toWatchedTree.handleEvent e =
                  ((t.setBuffer events).handleEvent e).setBuffer [] := by
                rw [h.tree]
                exact (t.setBuffer events).handleEvent_setBuffer [] e
              have hkept : ((t.setBuffer events).handleEvent e).buffer = events := by
                rw [WatchedTree.handleEvent_setBuffer, WatchedTree.buffer_setBuffer]
              rw [htree]
              exact .some ⟨rfl, _, hkept.symm ▸ hrest, congrArg (written · _) hkept.symm⟩

/-- A delivery is one on both sides. Kind: L -/
theorem Represents.flush {s : BufferedTree} (h : Represents s t) (fillings : List Filling) :
    Option.Rel Represents (s.step (.flush, fillings)) (t.step .flush) := by
  simp only [BufferedTree.step, WatchedTree.step, h.started, h.frames, h.isEmpty_iff]
  by_cases hready : t.started ∧ t.frames.isEmpty ∧ t.buffer.isEmpty
  · rw [if_pos hready, if_pos hready]
    refine .some ⟨?_, h.bytes⟩
    rw [h.tree]
    rfl
  · rw [if_neg hready, if_neg hready]
    exact .none

/-- Both sides take the same step, or none. Kind: L -/
theorem Represents.step {s : BufferedTree} (h : Represents s t)
    (e : WatchedTree.Event × List Filling) : Option.Rel Represents (s.step e)
      (if readFits t e then t.step e.1 else none) := by
  obtain ⟨a, fillings⟩ := e
  cases a with
  | make kind path => exact h.other (.make kind path) nofun nofun nofun
  | delete path => exact h.other (.delete path) nofun nofun nofun
  | close path => exact h.other (.close path) nofun nofun nofun
  | closeRemoved d n => exact h.other (.closeRemoved d n) nofun nofun nofun
  | rename old new => exact h.other (.rename old new) nofun nofun nofun
  | evict i => exact h.other (.evict i) nofun nofun nofun
  | poll count =>
      simp only [readFits, decide_eq_true_eq]
      exact h.poll count fillings
  | read => exact h.read fillings
  | addWatch => exact h.other .addWatch nofun nofun nofun
  | openDir => exact h.other .openDir nofun nofun nofun
  | entry name found => exact h.other (.entry name found) nofun nofun nofun
  | leave => exact h.other .leave nofun nofun nofun
  | startReturns => exact h.other .startReturns nofun nofun nofun
  | flush => exact h.flush fillings

/-- **Bytes and events have the same runs.** Wherever the watcher that reads bytes gets, the watcher
that reads events gets by the same events, all of its reads fitting the buffer; and wherever that
one gets by reads that fit, the watcher that reads bytes gets too. What they get to differs in
nothing but the form of what was read and not handled yet. Kind: P -/
theorem runs_alike (root : AbsPath) (tree : FileTree)
    (es : List (WatchedTree.Event × List Filling)) :
    (∀ s, Runs.run step (atStart root tree) es = some s → ∃ t, Represents s t ∧
      Runs.run WatchedTree.step (WatchedTree.atStart root tree) (es.map Prod.fst) = some t ∧
      Runs.Meets (fun t e => WatchedTree.step t e.1) (fun t e => readFits t e = true)
        (WatchedTree.atStart root tree) es) ∧
    (∀ t, Runs.run WatchedTree.step (WatchedTree.atStart root tree) (es.map Prod.fst) = some t →
      Runs.Meets (fun t e => WatchedTree.step t e.1) (fun t e => readFits t e = true)
        (WatchedTree.atStart root tree) es →
      ∃ s, Represents s t ∧ Runs.run step (atStart root tree) es = some s) := by
  have hstart : Represents (atStart root tree) (WatchedTree.atStart root tree) :=
    ⟨rfl, [], .nil, rfl⟩
  have hrel : Option.Rel Represents (Runs.run step (atStart root tree) es)
      (Runs.run (fun t e => if readFits t e then WatchedTree.step t e.1 else none)
        (WatchedTree.atStart root tree) es) :=
    Runs.rel_of_run step (fun s t e h => h.step e) hstart es
  have hguarded : ∀ t, Runs.run (fun t e => if readFits t e then WatchedTree.step t e.1 else none)
      (WatchedTree.atStart root tree) es = some t ↔ _ := fun t => Runs.run_guarded _
  simp only [Runs.run_comp] at hguarded
  constructor
  · intro s hrun
    rw [hrun] at hrel
    obtain ⟨t, ht, h⟩ := Runs.exists_of_rel_left hrel
    obtain ⟨hplain, hfits⟩ := (hguarded t).mp ht
    exact ⟨t, h, hplain, hfits⟩
  · intro t hplain hfits
    rw [(hguarded t).mpr ⟨hplain, hfits⟩] at hrel
    obtain ⟨s, hs, h⟩ := Runs.exists_of_rel_right hrel
    exact ⟨s, h, hs⟩

end BufferedTree

end CloudNode
