import CloudNode.Wire.Text

/-!
# Sending files

The sender remembers every offer until it is answered; an accepted file's path goes to the queue
of the data channel that is registered for its peer and room, and the channel's worker sends one
file after the other, a buffer of `maxMessageSize` bytes at a time.

* `takePendingOffer`, `onFileAccept`, `onFileReject` — an offer is answered.
* `sendTurn` — a turn of the worker's read-and-send loop.
* `chunks` — the messages that the loop makes of a file.
-/

namespace CloudNode

/-- Source: `WebRTCClient.hpp`, `PendingOffer`. Kind: D -/
structure PendingOffer where
  key : PeerRoomKey
  path : Str

/-- The identity of a data channel and of the file queue that goes with it. Kind: D -/
abbrev Channel := ℕ

/-- The sender's tables. Source: `WebRTCClient.hpp`, `m_pendingOffers`, `m_dataChannels`, and the
`fileQ` of each channel. Kind: D -/
structure Outgoing where
  pendingOffers : Std.ExtTreeMap Str PendingOffer := ∅
  dataChannels : Std.ExtTreeMap PeerRoomKey Channel := ∅
  fileQ : Channel → List Str := fun _ => []

namespace Outgoing

/-- Remember an offer.
Source: `WebRTCClient.cpp`, `SendFileOffer`, `m_pendingOffers[uuid] = ..`
Kind: D -/
def register (s : Outgoing) (uuid : Str) (offer : PendingOffer) : Outgoing :=
  { s with pendingOffers := s.pendingOffers.insert uuid offer }

/-- The offer that a response answers, which is forgotten; `none` for a response without a uuid or
with an unknown one.
Source: `WebRTCClient.cpp`, `TakePendingOffer`
Kind: D -/
def takePendingOffer (s : Outgoing) (uuid : Option Str) : Option (PendingOffer × Outgoing) :=
  match uuid with
  | none => none
  | some uuid =>
    match s.pendingOffers[uuid]? with
    | none => none
    | some offer => some (offer, { s with pendingOffers := s.pendingOffers.erase uuid })

/-- Source: `Queue.cpp`, `AddItem`. Kind: D -/
def addItem (s : Outgoing) (channel : Channel) (path : Str) : Outgoing :=
  { s with fileQ := Function.update s.fileQ channel (s.fileQ channel ++ [path]) }

/-- The tables after a `file_accept`.
Source: `WebRTCClient.cpp`, `OnFileAccept`
Kind: D -/
def onFileAccept (s : Outgoing) (uuid : Option Str) : Outgoing :=
  match s.takePendingOffer uuid with
  | none => s
  | some (offer, s) =>
    match s.dataChannels[offer.key]? with
    | none => s
    | some channel => s.addItem channel offer.path

/-- The tables after a `file_reject`.
Source: `WebRTCClient.cpp`, `OnFileReject`
Kind: D -/
def onFileReject (s : Outgoing) (uuid : Option Str) : Outgoing :=
  match s.takePendingOffer uuid with
  | none => s
  | some (_, s) => s

/-- The next path of a queue; `none` is a worker that waits.
Source: `Queue.cpp`, `GetItem`
Kind: D -/
def getItem (s : Outgoing) (channel : Channel) : Option (Str × Outgoing) :=
  match s.fileQ channel with
  | [] => none
  | path :: paths => some (path, { s with fileQ := Function.update s.fileQ channel paths })

variable {s : Outgoing} {uuid : Str} {offer : PendingOffer} {channel : Channel}

/-- An accepted offer's path goes to the channel registered for it. Kind: L -/
theorem onFileAccept_of_pending (hoffer : s.pendingOffers[uuid]? = some offer)
    (hchannel : s.dataChannels[offer.key]? = some channel) :
    s.onFileAccept (some uuid) =
      addItem { s with pendingOffers := s.pendingOffers.erase uuid } channel offer.path := by
  unfold onFileAccept takePendingOffer
  simp only [hoffer, hchannel]

/-- A rejected offer is forgotten. Kind: L -/
theorem onFileReject_of_pending (hoffer : s.pendingOffers[uuid]? = some offer) :
    s.onFileReject (some uuid) = { s with pendingOffers := s.pendingOffers.erase uuid } := by
  unfold onFileReject takePendingOffer
  simp only [hoffer]

end Outgoing

/-! ## The read-and-send loop -/

section loop

variable {β : Type}

/-- One turn of the loop over a file, from what is left to read: `none` ends the loop, otherwise
the message sent and what is left. A buffer of no bytes is filled by reading nothing, so that the
loop goes on for ever.
Source: `WebRTCClient.cpp`, `MakeDataChannel`, `while (file.read(..) || file.gcount() > 0)`
Kind: D -/
def sendTurn (maxMessageSize : ℕ) (left : List β) : Option (List β × List β) :=
  if left = [] ∧ maxMessageSize ≠ 0 then none
  else some (left.take maxMessageSize, left.drop maxMessageSize)

/-- The messages that the loop makes of a file, for a buffer that holds something. Kind: D -/
def chunks (c : ℕ) (left : List β) : List (List β) :=
  if _h : left = [] ∨ c = 0 then []
  else left.take c :: chunks c (left.drop c)
termination_by left.length
decreasing_by
  obtain ⟨hleft, hc⟩ := not_or.mp _h
  have hlength := List.length_pos_of_ne_nil hleft
  rw [List.length_drop]
  omega

variable {c : ℕ} {left : List β}

/-- An empty file makes no message. Kind: L -/
@[simp] theorem chunks_nil : chunks c ([] : List β) = [] := by
  rw [chunks, dif_pos (.inl rfl)]

/-- A file that is not empty makes a message of its first bytes. Kind: L -/
theorem chunks_of_ne_nil (hc : 0 < c) (hleft : left ≠ []) :
    chunks c left = left.take c :: chunks c (left.drop c) := by
  rw [chunks, dif_neg]
  rw [not_or]
  exact ⟨hleft, by omega⟩

/-- Only an empty file makes no message. Kind: L -/
theorem chunks_eq_nil (hc : 0 < c) : chunks c left = [] ↔ left = [] := by
  constructor
  · intro h
    by_contra hleft
    rw [chunks_of_ne_nil hc hleft] at h
    cases h
  · rintro rfl
    exact chunks_nil

/-- A turn of the loop sends the first of the messages. Kind: L -/
theorem sendTurn_of_pos (hc : 0 < c) : sendTurn c left =
    if left = [] then none else some (left.take c, left.drop c) := by
  unfold sendTurn
  have hne : c ≠ 0 := by omega
  simp only [hne, ne_eq, not_false_eq_true, and_true]

end loop

end CloudNode
