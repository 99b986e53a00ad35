import CloudNode.Lib.Runs
import CloudNode.Transfer.Outgoing
import Mathlib.Logic.Function.Basic

/-!
# Negotiating the data channels

A client that wants to send files makes a connection, registers it in `m_dataChannels` under the
peer and the room, and sends an offer with its description and candidates. The peer makes a
connection of its own for every offer, registers it in `m_incomingChannels` in place of an older
one, and that connection sends an answer and candidates. These carry no name of the offer: the first
client applies them to whatever connection it has registered under the sender and the room when they
come.

A step is a handler or a callback of one client, or what the server and the network do to a message:
it is delivered, in any order, or lost. `OnMessageClose` clears the two tables of a client, and
messages that are on their way then may still come when it is back.

* `Wired` — what holds of connections, tables and messages in every run.
* `Safe` — an answer or candidate that was applied was made for that connection, and what is still
  to come is for the connection that is registered for it, if any is.
* `always_safe_iff` — a run is safe throughout exactly when no connection is made for a peer and
  room while something made for an earlier one of theirs is still to come. Offers in both directions
  at once are no danger.
-/

namespace CloudNode

/-- What is sent for a connection. Kind: D -/
inductive Signal where
  | offer
  | answer
  | candidate
  deriving DecidableEq

/-- A connection: who has it, and for whom it is.
Source: `WebRTCClient.cpp`, `MakePeerConnection`
Kind: D -/
structure PeerConnection where
  owner : Str
  key : PeerRoomKey
  /-- The number of the connection whose offer this is about: its own, or that of the other side. -/
  offer : ℕ

/-- A message on its way; the server has put the sender in place of the peer. Kind: D -/
structure Packet where
  sender : Str
  receiver : Str
  room : Str
  signal : Signal
  connection : ℕ

/-- The clients' connections and tables, and what is on its way.
Source: `WebRTCClient.hpp`, `m_dataChannels` and `m_incomingChannels`
Kind: D -/
structure Negotiation where
  connections : ℕ → PeerConnection := fun _ => ⟨[], ⟨[], []⟩, 0⟩
  /-- How many connections were made. -/
  made : ℕ := 0
  dataChannels : Str × PeerRoomKey → Option ℕ := fun _ => none
  incomingChannels : Str × PeerRoomKey → Option ℕ := fun _ => none
  /-- The connections that are registered, and whose offer was not sent yet. -/
  unsent : List ℕ := []
  inFlight : List Packet := []
  /-- The answers and candidates that were applied: to which connection, and of which. -/
  applied : List (ℕ × ℕ) := []

namespace Negotiation

/-- What can happen. Kind: D -/
inductive Event where
  /-- A client makes a connection and registers it. -/
  | make (client : Str) (key : PeerRoomKey)
  /-- It sends the offer, or cannot. -/
  | sendOffer (connection : ℕ) (ok : Bool)
  /-- A message arrives. -/
  | deliver (i : ℕ)
  /-- A message is not relayed, or lost with a socket. -/
  | lose (i : ℕ)
  /-- A registered incoming connection has a description or a candidate to send. -/
  | describes (client : Str) (key : PeerRoomKey)
  | gathers (client : Str) (key : PeerRoomKey)
  /-- A client loses its connection to the server. -/
  | clear (client : Str)

/-- Source: `WebRTCClient.cpp`, `MakePeerConnection`. Kind: D -/
def makePeerConnection (s : Negotiation) (pc : PeerConnection) : Negotiation :=
  { s with connections := Function.update s.connections s.made pc, made := s.made + 1 }

/-- Source: `WebRTCClient.cpp`, `MakeDataChannel`, `insert_or_assign`. Kind: D -/
def makeDataChannel (s : Negotiation) (client : Str) (key : PeerRoomKey) : Negotiation :=
  { s.makePeerConnection ⟨client, key, s.made⟩ with
    dataChannels := Function.update s.dataChannels (client, key) (some s.made)
    unsent := s.made :: s.unsent }

/-- Without a transport the entry is erased, if it is still this connection.
Source: `WebRTCClient.cpp`, `MakeDataChannel`, `SendMessage`
Kind: D -/
def sendOffer (s : Negotiation) (c : ℕ) (ok : Bool) : Negotiation :=
  let pc := s.connections c
  if ok then
    { s with
      unsent := s.unsent.erase c
      inFlight := s.inFlight ++ [⟨pc.owner, pc.key.1, pc.key.2, .offer, c⟩] }
  else
    { s with
      unsent := s.unsent.erase c
      dataChannels :=
        if s.dataChannels (pc.owner, pc.key) = some c then
          Function.update s.dataChannels (pc.owner, pc.key) none
        else s.dataChannels }

/-- Source: `WebRTCClient.cpp`, `OnOffer`. Kind: D -/
def onOffer (s : Negotiation) (p : Packet) : Negotiation :=
  { s.makePeerConnection ⟨p.receiver, (p.sender, p.room), p.connection⟩ with
    incomingChannels := Function.update s.incomingChannels (p.receiver, ⟨p.sender, p.room⟩)
      (some s.made) }

/-- Source: `WebRTCClient.cpp`, `OnAnswer`, `OnCandidate` and `FindPeerConnection`. Kind: D -/
def apply (s : Negotiation) (p : Packet) : Negotiation :=
  match s.dataChannels (p.receiver, ⟨p.sender, p.room⟩) with
  | none => s
  | some c => { s with applied := s.applied ++ [(c, p.connection)] }

/-- Source: `WebRTCClient.cpp`, `OnOffer`, `OnAnswer` and `OnCandidate`. Kind: D -/
def handle (s : Negotiation) (p : Packet) : Negotiation :=
  match p.signal with
  | .offer => s.onOffer p
  | .answer | .candidate => s.apply p

/-- Source: `WebRTCClient.cpp`, `OnOffer`, `onLocalDescription` and `onLocalCandidate`. Kind: D -/
def respond (s : Negotiation) (client : Str) (key : PeerRoomKey) (signal : Signal) :
    Option Negotiation :=
  (s.incomingChannels (client, key)).map fun d =>
    { s with inFlight := s.inFlight ++ [⟨client, key.1, key.2, signal, d⟩] }

/-- Source: `WebRTCClient.cpp`, `OnMessageClose`. Kind: D -/
def clear (s : Negotiation) (client : Str) : Negotiation :=
  { s with
    dataChannels := fun slot => if slot.1 = client then none else s.dataChannels slot
    incomingChannels := fun slot => if slot.1 = client then none else s.incomingChannels slot }

/-- One step of a client, of the server or of the network.
Source: `WebRTCClient.cpp`
Kind: D -/
def step (s : Negotiation) : Event → Option Negotiation
  | .make client key => some (s.makeDataChannel client key)
  | .sendOffer c ok => if c ∈ s.unsent then some (s.sendOffer c ok) else none
  | .deliver i => s.inFlight[i]?.map fun p =>
      { s with inFlight := s.inFlight.eraseIdx i }.handle p
  | .lose i =>
    if i < s.inFlight.length then some { s with inFlight := s.inFlight.eraseIdx i } else none
  | .describes client key => s.respond client key .answer
  | .gathers client key => s.respond client key .candidate
  | .clear client => some (s.clear client)

/-! ## What is still to come -/

/-- The number of the offering connection that a connection is about. Kind: D -/
def offerOf (s : Negotiation) (d : ℕ) : ℕ := (s.connections d).offer

/-- Something for this offering connection may still come: its offer, or an answer or candidate.
Kind: D -/
def Outstanding (s : Negotiation) (c : ℕ) : Prop :=
  c ∈ s.unsent ∨ (∃ p ∈ s.inFlight, s.offerOf p.connection = c) ∨
    ∃ slot d, s.incomingChannels slot = some d ∧ s.offerOf d = c

/-- Where the owner of an offering connection would have it registered. Kind: D -/
def slotOf (s : Negotiation) (c : ℕ) : Str × PeerRoomKey :=
  ((s.connections c).owner, (s.connections c).key)

/-- What was applied belongs to the connection, and so does what is still to come. Kind: D -/
structure Safe (s : Negotiation) : Prop where
  matched : ∀ m ∈ s.applied, s.offerOf m.2 = m.1
  coherent : ∀ c c', s.Outstanding c → s.dataChannels (s.slotOf c) = some c' → c' = c

/-- No connection is made for a peer and room while something for an earlier one may still come.
Kind: D -/
def Fresh (s : Negotiation) : Event → Prop
  | .make client key => ∀ c, s.Outstanding c → s.slotOf c ≠ (client, key)
  | _ => True

/-! ## Connections, tables and messages -/

/-- A message is about an offering connection of its sender or of its receiver. Kind: D -/
def Packet.Wired (p : Packet) (s : Negotiation) : Prop :=
  match p.signal with
  | .offer => s.offerOf p.connection = p.connection ∧
      s.slotOf p.connection = (p.sender, ⟨p.receiver, p.room⟩)
  | .answer | .candidate =>
      s.slotOf (s.offerOf p.connection) = (p.receiver, ⟨p.sender, p.room⟩)

/-- The invariant. Kind: D -/
structure Wired (s : Negotiation) : Prop where
  offer_lt : ∀ d < s.made, s.offerOf d < s.made
  registered : ∀ slot c, s.dataChannels slot = some c →
    c < s.made ∧ s.offerOf c = c ∧ s.slotOf c = slot
  incoming : ∀ slot d, s.incomingChannels slot = some d → d < s.made ∧
    s.slotOf (s.offerOf d) = (slot.2.1, ⟨slot.1, slot.2.2⟩)
  unsent : ∀ c ∈ s.unsent, c < s.made ∧ s.offerOf c = c
  packets : ∀ p ∈ s.inFlight, p.connection < s.made ∧ Packet.Wired p s
  applied : ∀ m ∈ s.applied, m.2 < s.made

variable {s s' : Negotiation} {e : Event} {c d : ℕ} {p : Packet} {pc : PeerConnection}

/-- Nothing is there at first. Kind: L -/
theorem wired_init : Wired {} where
  offer_lt := by simp
  registered := by simp
  incoming := by simp
  unsent := by simp
  packets := by simp
  applied := by simp

/-- Nothing was applied at first. Kind: L -/
theorem safe_init : Safe {} where
  matched := by simp
  coherent := by simp

/-- A new connection, and the others. Kind: L -/
theorem connections_makePeerConnection (h : d ≠ s.made) :
    (s.makePeerConnection pc).connections d = s.connections d := Function.update_of_ne h ..

/-- The new one. Kind: L -/
theorem connections_made (s : Negotiation) (pc : PeerConnection) :
    (s.makePeerConnection pc).connections s.made = pc :=
  (Function.update_apply s.connections s.made pc s.made).trans (if_pos rfl)

/-- The entries of offering connections, with the new one. Kind: L -/
theorem dataChannels_makeDataChannel {client : Str} {key : PeerRoomKey} (slot : Str × PeerRoomKey) :
    (s.makeDataChannel client key).dataChannels slot =
      if slot = (client, key) then some s.made else s.dataChannels slot :=
  Function.update_apply s.dataChannels (client, key) (some s.made) slot

/-- The entries of answering connections, with the new one. Kind: L -/
theorem incomingChannels_onOffer (slot : Str × PeerRoomKey) :
    (s.onOffer p).incomingChannels slot =
      if slot = (p.receiver, (p.sender, p.room)) then some s.made else s.incomingChannels slot :=
  Function.update_apply s.incomingChannels (p.receiver, (p.sender, p.room)) (some s.made) slot

/-- What the others are about. Kind: L -/
theorem offerOf_makePeerConnection (h : d < s.made) :
    (s.makePeerConnection pc).offerOf d = s.offerOf d :=
  congrArg PeerConnection.offer (connections_makePeerConnection h.ne)

/-- Where the others are registered. Kind: L -/
theorem slotOf_makePeerConnection (h : c < s.made) :
    (s.makePeerConnection pc).slotOf c = s.slotOf c := by
  unfold slotOf
  rw [connections_makePeerConnection h.ne]

/-- A new connection leaves messages alone. Kind: L -/
theorem Wired.packet_makePeerConnection (h : Wired s) (hp : p ∈ s.inFlight) :
    Packet.Wired p (s.makePeerConnection pc) := by
  obtain ⟨hlt, hwired⟩ := h.packets p hp
  have hoffer := h.offer_lt p.connection hlt
  unfold Packet.Wired at hwired ⊢
  rw [offerOf_makePeerConnection hlt, slotOf_makePeerConnection hlt,
    slotOf_makePeerConnection hoffer]
  exact hwired

/-- **A new connection keeps the invariant.** Kind: P -/
theorem Wired.makePeerConnection (h : Wired s) (pc : PeerConnection) (hoffer : pc.offer ≤ s.made) :
    Wired (s.makePeerConnection pc) := by
  have hlt : ∀ {d}, d < s.made → d < s.made + 1 := fun hd => Nat.lt_succ_of_lt hd
  refine ⟨fun d hd => ?_, fun slot c hc => ?_, fun slot d hd => ?_, fun c hc => ?_, fun p hp => ?_,
    fun m hm => hlt (h.applied m hm)⟩
  · by_cases hnew : d = s.made
    · subst hnew
      have hpc : (s.makePeerConnection pc).offerOf s.made = pc.offer :=
        congrArg PeerConnection.offer (connections_made s pc)
      rw [hpc]
      exact Nat.lt_succ_of_le hoffer
    · have hold : d < s.made := Nat.lt_of_le_of_ne (Nat.le_of_lt_succ hd) hnew
      rw [offerOf_makePeerConnection hold]
      exact hlt (h.offer_lt d hold)
  · obtain ⟨hold, hself, hslot⟩ := h.registered slot c hc
    exact ⟨hlt hold, (offerOf_makePeerConnection hold).trans hself,
      (slotOf_makePeerConnection hold).trans hslot⟩
  · obtain ⟨hold, hslot⟩ := h.incoming slot d hd
    refine ⟨hlt hold, ?_⟩
    rw [offerOf_makePeerConnection hold, slotOf_makePeerConnection (h.offer_lt d hold)]
    exact hslot
  · obtain ⟨hold, hself⟩ := h.unsent c hc
    exact ⟨hlt hold, (offerOf_makePeerConnection hold).trans hself⟩
  · exact ⟨hlt (h.packets p hp).1, h.packet_makePeerConnection hp⟩

/-- What is still to come for was made. Kind: L -/
theorem Wired.outstanding_lt (h : Wired s) (hc : s.Outstanding c) : c < s.made := by
  rcases hc with hc | ⟨p, hp, rfl⟩ | ⟨slot, d, hd, rfl⟩
  · exact (h.unsent c hc).1
  · exact h.offer_lt _ (h.packets p hp).1
  · exact h.offer_lt _ (h.incoming slot d hd).1

/-- A new connection brings nothing by itself. Kind: L -/
theorem Wired.outstanding_makePeerConnection (h : Wired s) (pc : PeerConnection) (c : ℕ) :
    (s.makePeerConnection pc).Outstanding c ↔ s.Outstanding c := by
  unfold Outstanding
  refine or_congr Iff.rfl (or_congr ?_ ?_)
  · refine exists_congr fun p => and_congr_right fun hp => ?_
    rw [offerOf_makePeerConnection (h.packets p hp).1]
  · refine exists_congr fun slot => exists_congr fun d => and_congr_right fun hd => ?_
    rw [offerOf_makePeerConnection (h.incoming slot d hd).1]

/-- A new connection is no danger by itself. Kind: L -/
theorem Safe.makePeerConnection (h : Safe s) (hw : Wired s) (pc : PeerConnection) :
    Safe (s.makePeerConnection pc) where
  matched := fun m hm => (offerOf_makePeerConnection (hw.applied m hm)).trans (h.matched m hm)
  coherent := by
    intro c c' hc hslot
    have hold := (hw.outstanding_makePeerConnection pc c).mp hc
    rw [slotOf_makePeerConnection (hw.outstanding_lt hold)] at hslot
    exact h.coherent c c' hold hslot

/-! ## What a step keeps -/

/-- A client makes a connection to offer. Kind: L -/
theorem Wired.makeDataChannel (h : Wired s) (client : Str) (key : PeerRoomKey) :
    Wired (s.makeDataChannel client key) := by
  have hnew := h.makePeerConnection ⟨client, key, s.made⟩ (Nat.le_refl _)
  have hoffer : (s.makePeerConnection ⟨client, key, s.made⟩).offerOf s.made = s.made :=
    congrArg PeerConnection.offer (connections_made s _)
  refine { hnew with registered := fun slot c hc => ?_, unsent := fun c hc => ?_ }
  · rw [dataChannels_makeDataChannel] at hc
    split at hc
    · rename_i hslot
      obtain rfl := Option.some.inj hc
      refine ⟨Nat.lt_succ_self _, hoffer, ?_⟩
      rw [hslot]
      exact congrArg (fun pc => (PeerConnection.owner pc, PeerConnection.key pc)) (connections_made s _)
    · exact hnew.registered slot c hc
  · rcases List.mem_cons.mp hc with rfl | hc
    · exact ⟨Nat.lt_succ_self _, hoffer⟩
    · exact hnew.unsent c hc

/-- An offer is sent, or cannot be. Kind: L -/
theorem Wired.sendOffer (h : Wired s) (hc : c ∈ s.unsent) (ok : Bool) :
    Wired (s.sendOffer c ok) := by
  obtain ⟨hlt, hself⟩ := h.unsent c hc
  have hunsent : ∀ c' ∈ s.unsent.erase c, c' < s.made ∧ s.offerOf c' = c' :=
    fun c' hc' => h.unsent c' (List.mem_of_mem_erase hc')
  unfold Negotiation.sendOffer
  cases ok with
  | true =>
      refine { h with unsent := hunsent, packets := fun p hp => ?_ }
      rcases List.mem_append.mp hp with hp | hp
      · exact h.packets p hp
      · rw [List.mem_singleton.mp hp]
        exact ⟨hlt, hself, rfl⟩
  | false =>
      refine { h with unsent := hunsent, registered := fun slot c' hc' => h.registered slot c' ?_ }
      simp only [Bool.false_eq_true, if_false] at hc'
      split at hc'
      · rw [Function.update_apply] at hc'
        split at hc'
        · cases hc'
        · exact hc'
      · exact hc'

/-- A message that arrives is gone from the network. Kind: L -/
theorem Wired.erase (h : Wired s) (i : ℕ) : Wired { s with inFlight := s.inFlight.eraseIdx i } :=
  { h with packets := fun p hp => h.packets p (List.mem_of_mem_eraseIdx hp) }

/-- An offer is answered by a new connection. Kind: L -/
theorem Wired.onOffer (h : Wired s) (hlt : p.connection < s.made)
    (hslot : s.slotOf p.connection = (p.sender, ⟨p.receiver, p.room⟩)) : Wired (s.onOffer p) := by
  have hnew := h.makePeerConnection ⟨p.receiver, (p.sender, p.room), p.connection⟩ hlt.le
  refine { hnew with incoming := fun slot d hd => ?_ }
  have hoffer : (s.onOffer p).offerOf s.made = p.connection :=
    congrArg PeerConnection.offer (connections_made s ⟨_, _, p.connection⟩)
  rw [incomingChannels_onOffer] at hd
  split at hd
  · rename_i hentry
    obtain rfl := Option.some.inj hd
    refine ⟨Nat.lt_succ_self _, ?_⟩
    rw [hoffer, hentry]
    exact (slotOf_makePeerConnection hlt).trans hslot
  · exact hnew.incoming slot d hd

/-- An answer or a candidate is applied, or nothing is registered. Kind: L -/
theorem Wired.apply (h : Wired s) (hlt : p.connection < s.made) : Wired (s.apply p) := by
  unfold Negotiation.apply
  split
  · exact h
  · refine { h with applied := fun m hm => ?_ }
    rcases List.mem_append.mp hm with hm | hm
    · exact h.applied m hm
    · rw [List.mem_singleton.mp hm]
      exact hlt

/-- A registered incoming connection sends something. Kind: L -/
theorem Wired.respond (h : Wired s) {client : Str} {key : PeerRoomKey} {signal : Signal}
    (hsignal : signal ≠ .offer) (he : s.respond client key signal = some s') : Wired s' := by
  obtain ⟨d, hd, rfl⟩ := Option.map_eq_some_iff.mp he
  obtain ⟨hlt, hslot⟩ := h.incoming _ d hd
  refine { h with packets := fun p hp => ?_ }
  rcases List.mem_append.mp hp with hp | hp
  · exact h.packets p hp
  · rw [List.mem_singleton.mp hp]
    refine ⟨hlt, ?_⟩
    cases signal with
    | offer => exact absurd rfl hsignal
    | answer => exact hslot
    | candidate => exact hslot

/-- A client clears its tables. Kind: L -/
theorem Wired.clear (h : Wired s) (client : Str) : Wired (s.clear client) := by
  refine { h with registered := fun slot c hc => ?_, incoming := fun slot d hd => ?_ }
  · obtain ⟨-, hc⟩ := Option.ite_none_left_eq_some.mp hc
    exact h.registered slot c hc
  · obtain ⟨-, hd⟩ := Option.ite_none_left_eq_some.mp hd
    exact h.incoming slot d hd

/-- **Connections, tables and messages fit together**: what one step keeps. Kind: P -/
theorem wired_step (h : Wired s) (he : s.step e = some s') : Wired s' := by
  cases e with
  | make client key => exact Option.some.inj he ▸ h.makeDataChannel client key
  | sendOffer c ok =>
      obtain ⟨hc, he⟩ := Option.ite_none_right_eq_some.mp he
      exact Option.some.inj he ▸ h.sendOffer hc ok
  | deliver i =>
      obtain ⟨p, hp, rfl⟩ := Option.map_eq_some_iff.mp he
      obtain ⟨hlt, hwired⟩ := h.packets p (List.mem_of_getElem? hp)
      unfold handle
      cases hsignal : p.signal with
      | offer =>
          simp only [Packet.Wired, hsignal] at hwired
          exact (h.erase i).onOffer hlt hwired.2
      | answer | candidate => exact (h.erase i).apply hlt
  | lose i =>
      obtain ⟨-, he⟩ := Option.ite_none_right_eq_some.mp he
      exact Option.some.inj he ▸ h.erase i
  | describes client key => exact h.respond (by simp) he
  | gathers client key => exact h.respond (by simp) he
  | clear client => exact Option.some.inj he ▸ h.clear client

/-! ## When what comes is for the connection that is registered -/

/-- Where nothing new is registered, applied or to come, there is no danger. Kind: L -/
theorem Safe.mono (h : Safe s) (hconnections : s'.connections = s.connections)
    (happlied : s'.applied = s.applied) (hcome : ∀ c, s'.Outstanding c → s.Outstanding c)
    (hdata : ∀ slot c, s'.dataChannels slot = some c → s.dataChannels slot = some c) : Safe s' where
  matched := by
    intro m hm
    rw [happlied] at hm
    unfold offerOf
    rw [hconnections]
    exact h.matched m hm
  coherent := by
    intro c c' hc hslot
    unfold slotOf at hslot
    rw [hconnections] at hslot
    exact h.coherent c c' (hcome c hc) (hdata _ c' hslot)

/-- What is to come when a connection to offer is made: its offer, and what was before. Kind: L -/
theorem Wired.outstanding_makeDataChannel (h : Wired s) {client : Str} {key : PeerRoomKey} :
    (s.makeDataChannel client key).Outstanding c ↔ c = s.made ∨ s.Outstanding c := by
  have hold := h.outstanding_makePeerConnection ⟨client, key, s.made⟩ c
  constructor
  · rintro (hc | hc)
    · rcases List.mem_cons.mp hc with hc | hc
      · exact .inl hc
      · exact .inr (.inl hc)
    · exact .inr (hold.mp (.inr hc))
  · rintro (rfl | hc)
    · exact .inl (List.mem_cons_self ..)
    · rcases hold.mpr hc with hc | hc
      · exact .inl (List.mem_cons_of_mem _ hc)
      · exact .inr hc

/-- A connection is made for a peer and room that nothing is to come for. Kind: L -/
theorem Safe.makeDataChannel (h : Safe s) (hw : Wired s) {client : Str} {key : PeerRoomKey}
    (hfresh : s.Fresh (.make client key)) : Safe (s.makeDataChannel client key) := by
  have hnew := h.makePeerConnection hw ⟨client, key, s.made⟩
  refine ⟨hnew.matched, fun c c' hc hslot => ?_⟩
  have hmade : (s.makeDataChannel client key).slotOf s.made = (client, key) :=
    congrArg (fun pc => (PeerConnection.owner pc, PeerConnection.key pc)) (connections_made s _)
  rw [dataChannels_makeDataChannel] at hslot
  split at hslot
  · rename_i hentry
    obtain rfl := Option.some.inj hslot
    rcases hw.outstanding_makeDataChannel.mp hc with rfl | hold
    · rfl
    · refine absurd ?_ (hfresh c hold)
      exact (slotOf_makePeerConnection (hw.outstanding_lt hold)).symm.trans hentry
  · rename_i hentry
    rcases hw.outstanding_makeDataChannel.mp hc with rfl | hold
    · exact absurd hmade hentry
    · have hsame : (s.makeDataChannel client key).slotOf c = s.slotOf c :=
        slotOf_makePeerConnection (hw.outstanding_lt hold)
      rw [hsame] at hslot
      exact h.coherent c c' hold hslot

/-- A connection is made for a peer and room that something is to come for. Kind: L -/
theorem not_safe_makeDataChannel (hw : Wired s) {client : Str} {key : PeerRoomKey}
    (hstale : ¬ s.Fresh (.make client key)) : ¬ Safe (s.makeDataChannel client key) := by
  intro h
  apply hstale
  intro c hc hslot
  have hlt := hw.outstanding_lt hc
  have hentry : (s.makeDataChannel client key).dataChannels
      ((s.makeDataChannel client key).slotOf c) = some s.made := by
    rw [dataChannels_makeDataChannel]
    exact if_pos ((slotOf_makePeerConnection hlt).trans hslot)
  exact hlt.ne' (h.coherent c s.made (hw.outstanding_makeDataChannel.mpr (.inr hc)) hentry)

/-- An offer is sent, or cannot be. Kind: L -/
theorem Safe.sendOffer (h : Safe s) (hw : Wired s) (hc : c ∈ s.unsent) (ok : Bool) :
    Safe (s.sendOffer c ok) := by
  have hself := (hw.unsent c hc).2
  unfold Negotiation.sendOffer
  cases ok with
  | true =>
      refine h.mono rfl rfl ?_ (fun _ _ hslot => hslot)
      rintro c' (hc' | ⟨p, hp, hoffer⟩ | hc')
      · exact .inl (List.mem_of_mem_erase hc')
      · rcases List.mem_append.mp hp with hp | hp
        · exact .inr (.inl ⟨p, hp, hoffer⟩)
        · rw [List.mem_singleton.mp hp] at hoffer
          exact .inl (hself.symm.trans hoffer ▸ hc)
      · exact .inr (.inr hc')
  | false =>
      refine h.mono rfl rfl ?_ (fun slot c' hslot => ?_)
      · rintro c' (hc' | hc')
        · exact .inl (List.mem_of_mem_erase hc')
        · exact .inr hc'
      · simp only [Bool.false_eq_true, if_false] at hslot
        split at hslot
        · rw [Function.update_apply] at hslot
          split at hslot
          · cases hslot
          · exact hslot
        · exact hslot

/-- What is to come when a message is gone. Kind: L -/
theorem outstanding_erase {i : ℕ}
    (hc : Outstanding { s with inFlight := s.inFlight.eraseIdx i } c) : s.Outstanding c := by
  rcases hc with hc | ⟨p, hp, hoffer⟩ | hc
  · exact .inl hc
  · exact .inr (.inl ⟨p, List.mem_of_mem_eraseIdx hp, hoffer⟩)
  · exact .inr (.inr hc)

/-- A message that is gone is no danger. Kind: L -/
theorem Safe.erase (h : Safe s) (i : ℕ) : Safe { s with inFlight := s.inFlight.eraseIdx i } :=
  h.mono rfl rfl (fun _ => outstanding_erase) fun _ _ hslot => hslot

/-- An offer arrives. Kind: L -/
theorem Safe.onOffer (h : Safe s) (hw : Wired s) (hcome : s.Outstanding p.connection)
    (i : ℕ) : Safe ({ s with inFlight := s.inFlight.eraseIdx i }.onOffer p) := by
  have hnew := h.makePeerConnection hw ⟨p.receiver, (p.sender, p.room), p.connection⟩
  refine hnew.mono rfl rfl (fun c hc => ?_) fun _ _ hslot => hslot
  have hwe := hw.erase i
  rcases hc with hc | ⟨q, hq, hoffer⟩ | ⟨slot, d, hd, hoffer⟩
  · exact .inl hc
  · exact .inr (.inl ⟨q, List.mem_of_mem_eraseIdx hq, hoffer⟩)
  · rw [incomingChannels_onOffer] at hd
    split at hd
    · obtain rfl := Option.some.inj hd
      have hself : p.connection = c :=
        (congrArg PeerConnection.offer (connections_made s ⟨_, _, p.connection⟩)).symm.trans
          hoffer
      exact (hw.outstanding_makePeerConnection _ c).mpr (hself ▸ hcome)
    · exact .inr (.inr ⟨slot, d, hd, hoffer⟩)

/-- An answer or a candidate arrives. Kind: L -/
theorem Safe.apply (h : Safe s) (hcome : s.Outstanding (s.offerOf p.connection))
    (hslot : s.slotOf (s.offerOf p.connection) = (p.receiver, ⟨p.sender, p.room⟩)) (i : ℕ) :
    Safe ({ s with inFlight := s.inFlight.eraseIdx i }.apply p) := by
  unfold Negotiation.apply
  cases hentry : s.dataChannels (p.receiver, ⟨p.sender, p.room⟩) with
  | none => exact h.erase i
  | some c =>
      refine ⟨fun m hm => ?_, (h.erase i).coherent⟩
      rcases List.mem_append.mp hm with hm | hm
      · exact h.matched m hm
      · rw [List.mem_singleton.mp hm]
        rw [← hslot] at hentry
        exact (h.coherent _ c hcome hentry).symm

/-- A registered incoming connection sends something. Kind: L -/
theorem Safe.respond (h : Safe s) {client : Str} {key : PeerRoomKey} {signal : Signal}
    (he : s.respond client key signal = some s') : Safe s' := by
  obtain ⟨d, hd, rfl⟩ := Option.map_eq_some_iff.mp he
  refine h.mono rfl rfl ?_ fun _ _ hslot => hslot
  rintro c (hc | ⟨p, hp, hoffer⟩ | hc)
  · exact .inl hc
  · rcases List.mem_append.mp hp with hp | hp
    · exact .inr (.inl ⟨p, hp, hoffer⟩)
    · rw [List.mem_singleton.mp hp] at hoffer
      exact .inr (.inr ⟨_, d, hd, hoffer⟩)
  · exact .inr (.inr hc)

/-- A client clears its tables. Kind: L -/
theorem Safe.clear (h : Safe s) (client : Str) : Safe (s.clear client) := by
  refine h.mono rfl rfl ?_ fun slot c hslot => (Option.ite_none_left_eq_some.mp hslot).2
  rintro c (hc | hc | ⟨slot, d, hd, hoffer⟩)
  · exact .inl hc
  · exact .inr (.inl hc)
  · exact .inr (.inr ⟨slot, d, (Option.ite_none_left_eq_some.mp hd).2, hoffer⟩)

/-- A step that makes no connection too early is no danger. Kind: L -/
theorem safe_step (hw : Wired s) (h : Safe s) (hfresh : s.Fresh e) (he : s.step e = some s') :
    Safe s' := by
  cases e with
  | make client key => exact Option.some.inj he ▸ h.makeDataChannel hw hfresh
  | sendOffer c ok =>
      obtain ⟨hc, he⟩ := Option.ite_none_right_eq_some.mp he
      exact Option.some.inj he ▸ h.sendOffer hw hc ok
  | deliver i =>
      obtain ⟨p, hp, rfl⟩ := Option.map_eq_some_iff.mp he
      have hmem := List.mem_of_getElem? hp
      have hcome : s.Outstanding (s.offerOf p.connection) := .inr (.inl ⟨p, hmem, rfl⟩)
      have hwired := (hw.packets p hmem).2
      unfold handle
      cases hsignal : p.signal with
      | offer =>
          simp only [Packet.Wired, hsignal] at hwired
          rw [hwired.1] at hcome
          exact h.onOffer hw hcome i
      | answer | candidate =>
          simp only [Packet.Wired, hsignal] at hwired
          exact h.apply hcome hwired i
  | lose i =>
      obtain ⟨-, he⟩ := Option.ite_none_right_eq_some.mp he
      exact Option.some.inj he ▸ h.erase i
  | describes client key => exact h.respond he
  | gathers client key => exact h.respond he
  | clear client => exact Option.some.inj he ▸ h.clear client

/-- **When answers and candidates meet their connection**: in every state of a run, whatever was
applied to a connection was made for it, and whatever is still to come is for the connection that is
registered for it, exactly when no client of the run makes a connection for a peer and room while
something made for an earlier one of theirs may still come. Kind: P -/
theorem always_safe_iff (es : List Event) :
    Runs.Always step Safe {} es ↔ Runs.Meets step Fresh {} es := by
  refine Runs.always_iff_meets step (I := Wired) (fun _ _ _ => wired_step)
    (fun _ _ _ hw h hfresh => safe_step hw h hfresh) (fun s e s' hw _ hstale he => ?_) wired_init
    safe_init
  cases e with
  | make client key => exact Option.some.inj he ▸ not_safe_makeDataChannel hw hstale
  | sendOffer | deliver | lose | describes | gathers | clear => exact absurd trivial hstale

/-- A client loses the server after its offer was answered, and offers again before the answer
comes.
Kind: D -/
def crossedAnswer : List Event :=
  [.make (str "a") (str "b", str "r"), .sendOffer 0 true, .deliver 0,
    .describes (str "b") (str "a", str "r"), .clear (str "a"),
    .make (str "a") (str "b", str "r"), .deliver 0]

/-- The second connection gets the first one's answer. Kind: L -/
theorem matched_fails_for_crossedAnswer :
    ¬ ∀ es, Runs.Always step (fun s => ∀ m ∈ s.applied, s.offerOf m.2 = m.1) {} es := by
  intro h
  have hend : (Runs.run step {} crossedAnswer).any
      (fun s => s.applied.any fun m => s.offerOf m.2 ≠ m.1) = true := by decide
  obtain ⟨s, htest, hs⟩ := (h crossedAnswer).at_end step hend
  obtain ⟨m, hm, hne⟩ := List.any_eq_true.mp htest
  exact of_decide_eq_true hne (hs m hm)

end Negotiation

end CloudNode
