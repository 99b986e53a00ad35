import CloudNode.Wire.Router

/-!
# Dispatch by type

The router knows thirteen types. It compares hashes of 32 bits in place of the types, and hashes no
more of a type than `GetString()` copies, so a type that it does not know reaches a handler when its
bytes before the first NUL have the hash of a type it knows.

* `nodup_hashes` — the types it knows have different hashes, so each reaches its own handler.
* `dispatch_eq_none_iff` — what falls into the default branch.
* `routed_exactly_iff` — which types are routed as their names say.
-/

namespace CloudNode

/-- The types that have a `case`. Source: `WebRTC.hpp`, `MessageRouter`. Kind: D -/
def typeNames : List Str :=
  [str "join", str "peer_joined", str "peer_left", str "leave", str "file_accept",
   str "file_reject", str "offer", str "answer", str "candidate", str "file_offer",
   str "file_complete", str "ping", str "pong"]

/-- The handler that a type names: what the `switch` is for. Kind: D -/
def handlerNamed (type : Str) : Option Handler :=
  if type = str "join" ∨ type = str "peer_joined" then some .onJoin
  else if type = str "peer_left" ∨ type = str "leave" then some .onLeave
  else if type = str "file_accept" then some .onFileAccept
  else if type = str "file_reject" then some .onFileReject
  else if type = str "offer" then some .onOffer
  else if type = str "answer" then some .onAnswer
  else if type = str "candidate" then some .onCandidate
  else if type = str "file_offer" then some .onFileOffer
  else if type = str "file_complete" then some .onFileComplete
  else if type = str "ping" ∨ type = str "pong" then some .onPingPong
  else none

variable {type : Str}

/-- **No two of the types have one hash.** Kind: P -/
theorem nodup_hashes : (typeNames.map stringHash).Nodup := by decide +kernel

/-- A type that it knows reaches the handler it names. Kind: L -/
theorem dispatch_of_mem (h : type ∈ typeNames) :
    dispatch (cstr type) = handlerNamed type ∧ handlerNamed type ≠ none := by
  have hall : ∀ name ∈ typeNames,
      dispatch (cstr name) = handlerNamed name ∧ handlerNamed name ≠ none := by decide +kernel
  exact hall type h

/-- A type that it does not know names no handler. Kind: L -/
theorem handlerNamed_of_not_mem (h : type ∉ typeNames) : handlerNamed type = none := by
  simp only [typeNames, List.mem_cons, List.not_mem_nil, or_false, not_or] at h
  obtain ⟨h1, h2, h3, h4, h5, h6, h7, h8, h9, h10, h11, h12, h13⟩ := h
  unfold handlerNamed
  rw [if_neg (not_or.mpr ⟨h1, h2⟩), if_neg (not_or.mpr ⟨h3, h4⟩), if_neg h5, if_neg h6, if_neg h7,
    if_neg h8, if_neg h9, if_neg h10, if_neg h11, if_neg (not_or.mpr ⟨h12, h13⟩)]

/-- **What falls into the default branch**: a type whose hash is none of the types'. Kind: P -/
theorem dispatch_eq_none_iff :
    dispatch type = none ↔ ∀ name ∈ typeNames, stringHash type ≠ stringHash name := by
  simp only [typeNames, List.forall_mem_cons, List.not_mem_nil, false_imp_iff, implies_true,
    and_true]
  unfold dispatch
  constructor
  · intro h
    simp only at h
    split_ifs at h with h1 h2 h3 h4 h5 h6 h7 h8 h9 h10
    obtain ⟨hjoin, hjoined⟩ := not_or.mp h1
    obtain ⟨hleft, hleave⟩ := not_or.mp h2
    obtain ⟨hping, hpong⟩ := not_or.mp h10
    exact ⟨hjoin, hjoined, hleft, hleave, h3, h4, h5, h6, h7, h8, h9, hping, hpong⟩
  · rintro ⟨h1, h2, h3, h4, h5, h6, h7, h8, h9, h10, h11, h12, h13⟩
    simp only
    rw [if_neg (not_or.mpr ⟨h1, h2⟩), if_neg (not_or.mpr ⟨h3, h4⟩), if_neg h5, if_neg h6,
      if_neg h7, if_neg h8, if_neg h9, if_neg h10, if_neg h11, if_neg (not_or.mpr ⟨h12, h13⟩)]

/-- **Which types are routed by name**: those that the router knows, and those whose bytes before
the first NUL have the hash of none that it knows. Kind: P -/
theorem routed_exactly_iff {members : List (Str × Json)}
    (h : Json.find? members (str "type") = some (.str type)) :
    messageRouter (.obj members) = .ok (handlerNamed type) ↔
      type ∈ typeNames ∨ ∀ name ∈ typeNames, stringHash (cstr type) ≠ stringHash name := by
  rw [messageRouter_of_find h, Except.ok.injEq]
  by_cases hmem : type ∈ typeNames
  · exact ⟨fun _ => .inl hmem, fun _ => (dispatch_of_mem hmem).1⟩
  · rw [handlerNamed_of_not_mem hmem, dispatch_eq_none_iff]
    exact ⟨.inr, fun hnone => hnone.resolve_left hmem⟩

/-- An unknown type that is left alone. Kind: P -/
theorem routed_exactly_unknown :
    messageRouter (.obj [(str "type", .str (str "hello"))]) = .ok (handlerNamed (str "hello")) :=
  (routed_exactly_iff rfl).mpr (.inr (by decide +kernel))

/-- The type `altoxyc` has the hash of `pong`: it is nobody's, and it is handled. Kind: P -/
theorem routed_by_collision : ¬ ∀ (members : List (Str × Json)) (type : Str),
    Json.find? members (str "type") = some (.str type) →
      messageRouter (.obj members) = .ok (handlerNamed type) := by
  intro hall
  have hfind : Json.find? [(str "type", .str (str "altoxyc"))] (str "type") =
      some (.str (str "altoxyc")) := rfl
  have hrouted := hall _ _ hfind
  rw [messageRouter_of_find hfind, Except.ok.injEq] at hrouted
  exact absurd hrouted (by decide +kernel)

end CloudNode
