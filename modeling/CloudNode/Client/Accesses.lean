import CloudNode.Client.Handlers

/-!
# What a relayed document can make a client access

All but two of the client's handlers test what they read. `OnLeave` reads `peers` without a look
whether there is an array of that name, where `OnJoin` tests it; `OnOffer` reads the first of the
`descriptions` and all `candidates` as strings without a look whether they are, or whether there is
a first one.

* `safe_iff_readable` — a document breaks no precondition, in any state, exactly if none of these
  reads goes wrong.
-/

namespace CloudNode

namespace Client

open Json

variable (env : Surroundings) {β : Type}

/-! ## Which documents can be read -/

/-- Every candidate up to the first that makes the peer connection throw is a string. Kind: D -/
def candidatesReadable (key : PeerRoomKey) : List Json → Bool
  | [] => true
  | .str text :: rest =>
    match base64Decode env (cstr text) with
    | none => candidatesReadable key rest
    | some candidate =>
      !env.returns (.addRemoteCandidate key candidate (str "0")) || candidatesReadable key rest
  | _ :: _ => false

/-- The first description, if there is an array for it, is a string. Kind: D -/
def descriptionReadable (members : List (Str × Json)) : Bool :=
  match find? members (str "descriptions") with
  | some (.arr elems) => elems.head?.any isString
  | _ => true

/-- The first description does not make the peer connection throw. Kind: D -/
def described (key : PeerRoomKey) (members : List (Str × Json)) : Bool :=
  match find? members (str "descriptions") with
  | some (.arr (.str text :: _)) =>
    match base64Decode env (cstr text) with
    | none => true
    | some sdp =>
      [Call.setRemoteDescription key sdp (str "offer"), .createAnswer key].all env.returns
  | _ => true

/-- An offer's description can be read, and so can its candidates if it comes to them. Kind: D -/
def offerReadable (key : PeerRoomKey) (members : List (Str × Json)) : Bool :=
  !env.returns (.connect key) || (descriptionReadable members &&
    (!described env key members ||
      match find? members (str "candidates") with
      | some (.arr elems) => candidatesReadable env key elems
      | _ => true))

/-- What `OnLeave` and `OnOffer` read without a test can be read. Kind: D -/
def readable (members : List (Str × Json)) : Bool :=
  match messageRouter (.obj members) with
  | .ok (some .onLeave) =>
    !(find? members (str "room")).any isString || !(find? members (str "peerId")).any isString ||
      (find? members (str "peers")).any isArray
  | .ok (some .onOffer) =>
    match find? members (str "peer"), find? members (str "room") with
    | some (.str peer), some (.str room) => offerReadable env (cstr peer, cstr room) members
    | _, _ => true
  | _ => true

/-! ## The handlers that test what they read -/

variable {members : List (Str × Json)} {rooms : Rooms}

/-- An array member that was tested is read. Kind: L -/
theorem safe_getArray_iff {α : Type} {k : Str} {f : List Json → Except Fault α}
    (hf : ∀ elems, Safe (f elems)) :
    Safe (do f (← (← (obj members).member k).getArray)) ↔
      (find? members k).any isArray = true := by
  rw [safe_bind]
  constructor
  · rintro ⟨v, hv, h⟩
    obtain ⟨elems, helems, -⟩ := safe_bind.mp h
    rw [find?_of_getArray hv helems]
    rfl
  · intro h
    cases hk : find? members k with
    | none => simp [hk] at h
    | some v =>
        cases v with
        | arr elems => exact ⟨_, member_of_find hk, safe_bind.mpr ⟨elems, rfl, hf elems⟩⟩
        | _ => simp [hk, isArray] at h

/-- `OnJoin` tests what it reads. Kind: L -/
theorem safe_onJoin : Safe (onJoin (.obj members) rooms) := by
  unfold onJoin
  simp only [hasSuch_obj, ok_bind, safe_guard, Bool.not_eq_false']
  intro hroom hpeer hpeers
  refine safe_stringAt_bind hroom fun room => safe_stringAt_bind hpeer fun peer => ?_
  rw [safe_getArray_iff]
  · exact hpeers
  · intro elems
    split
    · exact safe_pure _
    · exact safe_pure _

/-- `TakePendingOffer` tests what it reads. Kind: L -/
theorem safe_responseUuid : Safe (responseUuid (.obj members)) := by
  unfold responseUuid
  simp only [hasSuch_obj, ok_bind, safe_guard, Bool.not_eq_false']
  exact fun huuid => safe_stringAt_bind huuid fun _ => safe_pure _

/-- A string that may be missing is tested. Kind: L -/
theorem exists_stringOr (members : List (Str × Json)) (k other : Str) :
    ∃ s, stringOr (.obj members) k other = .ok s := by
  unfold stringOr
  rw [hasSuch_obj, ok_bind]
  split
  · rename_i hk
    exact safe_stringAt.mpr hk
  · exact ⟨other, rfl⟩

/-- `OnAnswer` tests what it reads. Kind: L -/
theorem safe_onAnswer : Safe (onAnswer env (.obj members)) := by
  obtain ⟨peer, hpeer⟩ := exists_stringOr members (str "peer") []
  obtain ⟨room, hroom⟩ := exists_stringOr members (str "room") env.room
  unfold onAnswer
  simp only [hpeer, hroom, hasSuch_obj, ok_bind, safe_guard, Bool.not_eq_false']
  intro _ hsdp
  refine safe_stringAt_bind hsdp fun sdp => ?_
  split
  · exact safe_pure _
  · exact safe_pure _

/-- `OnCandidate` tests what it reads. Kind: L -/
theorem safe_onCandidate : Safe (onCandidate env (.obj members)) := by
  obtain ⟨peer, hpeer⟩ := exists_stringOr members (str "peer") []
  obtain ⟨room, hroom⟩ := exists_stringOr members (str "room") env.room
  unfold onCandidate
  simp only [hpeer, hroom, hasSuch_obj, ok_bind, safe_guard, Bool.not_eq_false',
    Bool.or_eq_false_iff]
  rintro _ ⟨hcandidate, hmid⟩
  exact safe_stringAt_bind hcandidate fun _ => safe_stringAt_bind hmid fun _ => safe_pure _

/-- `OnFileComplete` tests what it reads. Kind: L -/
theorem safe_onFileComplete : Safe (onFileComplete (.obj members)) := by
  unfold onFileComplete
  simp only [hasSuch_obj, ok_bind, safe_guard, Bool.not_eq_false', Bool.or_eq_false_iff]
  rintro ⟨hpeer, hroom⟩
  exact safe_stringAt_bind hpeer fun _ => safe_stringAt_bind hroom fun _ => safe_pure _

/-- `OnPingPong` tests what it reads. Kind: L -/
theorem safe_onPingPong : Safe (onPingPong env (.obj members)) := by
  unfold onPingPong
  simp only [hasSuch_obj, ok_bind, safe_guard, Bool.not_eq_false']
  intro htype
  refine safe_stringAt_bind htype fun type => ?_
  rw [safe_guard]
  intro hguard
  simp only [Bool.or_eq_false_iff, Bool.not_eq_false'] at hguard
  exact safe_stringAt_bind hguard.2 fun _ => safe_pure _

/-! ## File offers -/

/-- A number that may be missing is tested. Kind: L -/
theorem exists_optionalUint64 (file : List (Str × Json)) (k : Str) :
    ∃ n, optionalUint64 (.obj file) k = .ok n := by
  unfold optionalUint64
  rw [hasSuch_obj, ok_bind]
  split
  · rename_i hk
    cases hf : find? file k with
    | none => simp [hf] at hk
    | some v =>
        cases v with
        | int n =>
            simp only [hf, Option.any_some, isUint64, decide_eq_true_eq] at hk
            simp only [member_of_find hf, ok_bind, getUint64, if_pos hk]
            exact ⟨_, rfl⟩
        | _ => simp [hf, isUint64] at hk
  · exact ⟨none, rfl⟩

/-- `OnFileOffer` tests what it reads of the offer. Kind: L -/
theorem safe_readOffer : Safe (readOffer (.obj members)) := by
  unfold readOffer
  simp only [hasSuch_obj, ok_bind, safe_guard, Bool.or_eq_false_iff, Bool.not_eq_false']
  rintro ⟨⟨hpeer, hroom⟩, hfile⟩
  obtain hnone | ⟨file, hfind⟩ := any_isObject members (str "file")
  · simp [hnone] at hfile
  · simp only [member_of_find hfind, hasSuch_obj, ok_bind, safe_guard, Bool.or_eq_false_iff,
      Bool.not_eq_false']
    rintro ⟨⟨hname, hsize⟩, hmime⟩
    obtain ⟨crc, hcrc⟩ := exists_optionalUint64 file (str "crc")
    obtain ⟨v, size, hv, hsize⟩ := getInt64_of_any hsize
    simp only [hcrc, hv, hsize, ok_bind]
    refine safe_stringAt_bind hpeer fun _ => safe_stringAt_bind hroom fun _ => ?_
    exact safe_stringAt_bind hname fun _ => safe_stringAt_bind hmime fun _ => safe_pure _

/-- `SendFileAccept` tests what it reads, and the router has read the type it overwrites.
Kind: L -/
theorem safe_sendFileAccept {v : Json} (htype : find? members (str "type") = some v) :
    Safe (sendFileAccept (.obj members)) := by
  unfold sendFileAccept
  simp only [hasSuch_obj, ok_bind, safe_guard, Bool.not_eq_false']
  intro hpeer
  refine safe_stringAt_bind hpeer fun peer => ?_
  simp only [setString_of_find htype, eraseMember, addMember, ok_bind]
  exact safe_pure _

/-- `SendFileReject` tests what it reads, and the router has read the type it overwrites.
Kind: L -/
theorem safe_sendFileReject {v : Json} (htype : find? members (str "type") = some v) :
    Safe (sendFileReject (.obj members)) := by
  unfold sendFileReject
  simp only [hasSuch_obj, ok_bind, safe_guard, Bool.or_eq_false_iff, Bool.not_eq_false']
  rintro ⟨hpeer, -⟩
  refine safe_stringAt_bind hpeer fun peer => ?_
  simp only [setString_of_find htype, eraseMember, addMember, ok_bind]
  exact safe_pure _

/-- `OnFileOffer` tests what it reads. Kind: L -/
theorem safe_onFileOffer {v : Json} (htype : find? members (str "type") = some v)
    (s : Incoming OfferedFile β) : Safe (onFileOffer env (.obj members) s) := by
  have hread : Safe (readOffer (.obj members)) := safe_readOffer
  obtain ⟨offer, hoffer⟩ := hread
  obtain ⟨accept, haccept⟩ := safe_sendFileAccept htype
  obtain ⟨reject, hreject⟩ := safe_sendFileReject htype
  unfold onFileOffer
  rw [hoffer, ok_bind]
  cases offer with
  | none => exact safe_pure _
  | some offer =>
      simp only [haccept, hreject, ok_bind]
      split
      · exact safe_pure _
      · exact safe_pure _
      · exact safe_pure _

/-! ## The handlers that do not -/

/-- **`OnLeave`** breaks a precondition exactly when there is no array of `peers` to read.
Kind: P -/
theorem safe_onLeave_iff : Safe (onLeave (.obj members) rooms) ↔
    ((find? members (str "room")).any isString = true →
      (find? members (str "peerId")).any isString = true →
        (find? members (str "peers")).any isArray = true) := by
  unfold onLeave
  simp only [hasSuch_obj, ok_bind, safe_guard, Bool.not_eq_false']
  refine forall_congr' fun hroom => forall_congr' fun hpeer => ?_
  obtain ⟨room, hroom⟩ := exists_string_of_any hroom
  obtain ⟨peer, hpeer⟩ := exists_string_of_any hpeer
  simp only [stringAt_of_find hroom, stringAt_of_find hpeer, ok_bind]
  apply safe_getArray_iff
  intro elems
  split
  · exact safe_pure _
  · exact safe_pure _

/-- The loop over the candidates breaks a precondition exactly when it comes to one that is no
string. Kind: P -/
theorem safe_takeCandidates_iff (key : PeerRoomKey) (elems : List Json) :
    Safe (takeCandidates env key elems) ↔ candidatesReadable env key elems = true := by
  induction elems with
  | nil => simp [takeCandidates, candidatesReadable]
  | cons first rest ih =>
      cases first with
      | str text =>
          simp only [takeCandidates, candidatesReadable, getString, ok_bind]
          cases base64Decode env (cstr text) with
          | none => exact ih
          | some candidate =>
              simp only [Bool.or_eq_true, Bool.not_eq_true']
              split
              · rename_i hreturns
                rw [safe_bind_of_forall fun _ => safe_pure _, ih, hreturns]
                simp
              · rename_i hreturns
                simp [hreturns]
      | _ => simp [takeCandidates, candidatesReadable, getString, Safe, bind, Except.bind]

/-- A description that can be read is taken. Kind: L -/
theorem exists_takeDescription (key : PeerRoomKey) (h : descriptionReadable members = true) :
    ∃ calls, takeDescription env key (.obj members) = .ok (calls, described env key members) := by
  unfold takeDescription described
  rw [hasSuch_obj, ok_bind]
  unfold descriptionReadable at h
  cases hfind : find? members (str "descriptions") with
  | none => exact ⟨[], rfl⟩
  | some v =>
      rw [hfind] at h
      cases v with
      | arr elems =>
          simp only [member_of_find hfind, Option.any_some, isArray, getArray, ok_bind]
          cases elems with
          | nil => simp at h
          | cons first rest =>
              cases first with
              | str text =>
                  simp only [element, List.getElem?_cons_zero, getString, ok_bind]
                  cases base64Decode env (cstr text) with
                  | none => exact ⟨_, rfl⟩
                  | some sdp => exact ⟨_, rfl⟩
              | _ => simp [isString] at h
      | _ => exact ⟨[], rfl⟩

/-- A description that cannot be read breaks a precondition. Kind: L -/
theorem readable_of_takeDescription {key : PeerRoomKey}
    (h : Safe (takeDescription env key (.obj members))) : descriptionReadable members = true := by
  unfold takeDescription at h
  rw [hasSuch_obj, ok_bind, safe_guard] at h
  unfold descriptionReadable
  cases hfind : find? members (str "descriptions") with
  | none => rfl
  | some v =>
      cases v with
      | arr elems =>
          simp only [hfind, Option.any_some, isArray, member_of_find hfind, getArray, ok_bind,
            Bool.not_true, forall_const] at h
          obtain ⟨first, hfirst, h⟩ := safe_bind.mp h
          obtain ⟨text, htext, -⟩ := safe_bind.mp h
          cases elems with
          | nil => simp [element] at hfirst
          | cons first' rest =>
              simp only [element, List.getElem?_cons_zero, Except.ok.injEq] at hfirst
              subst hfirst
              cases first' with
              | str text => rfl
              | _ => simp [getString] at htext
      | _ => rfl

/-- With a readable description, what is left of an offer is its candidates. Kind: L -/
theorem safe_takeOffer_of_readable {key : PeerRoomKey} (hreturns : env.returns (.connect key) = true)
    (hreadable : descriptionReadable members = true) :
    Safe (takeOffer env key (.obj members)) ↔ (described env key members = true →
      ∀ elems, find? members (str "candidates") = some (.arr elems) →
        candidatesReadable env key elems = true) := by
  obtain ⟨calls, hcalls⟩ := exists_takeDescription env key hreadable
  unfold takeOffer
  simp only [hreturns, hcalls, ok_bind, hasSuch_obj, safe_guard, Bool.not_eq_false', Bool.not_true,
    Bool.false_eq_true, if_false]
  refine forall_congr' fun _ => ?_
  cases hfind : find? members (str "candidates") with
  | none => simp
  | some v =>
      cases v with
      | arr elems =>
          simp only [Option.any_some, isArray, member_of_find hfind, getArray, ok_bind,
            Option.some.injEq, arr.injEq, forall_const, forall_eq']
          rw [safe_bind_of_forall fun _ => safe_pure _]
          exact safe_takeCandidates_iff env key elems
      | _ => simp [isArray]

/-- From `MakePeerConnection` on, an offer breaks a precondition exactly when its description or a
candidate it comes to cannot be read. Kind: P -/
theorem safe_takeOffer_iff (key : PeerRoomKey) :
    Safe (takeOffer env key (.obj members)) ↔ offerReadable env key members = true := by
  unfold offerReadable
  by_cases hreturns : env.returns (.connect key) = true
  · by_cases hreadable : descriptionReadable members = true
    · rw [safe_takeOffer_of_readable env hreturns hreadable, hreturns, hreadable]
      cases described env key members with
      | false => simp
      | true =>
          cases find? members (str "candidates") with
          | none => simp
          | some v => cases v <;> simp
    · rw [hreturns]
      simp only [Bool.not_true, Bool.false_or, hreadable, Bool.false_and, Bool.false_eq_true,
        iff_false]
      intro hsafe
      unfold takeOffer at hsafe
      simp only [hreturns, Bool.not_true, Bool.false_eq_true, if_false] at hsafe
      obtain ⟨out, hout, -⟩ := safe_bind.mp hsafe
      exact hreadable (readable_of_takeDescription env ⟨out, hout⟩)
  · unfold takeOffer
    simp [hreturns]

/-- **`OnOffer`** breaks a precondition exactly when its description or a candidate it comes to
cannot be read. Kind: P -/
theorem safe_onOffer_iff : Safe (onOffer env (.obj members)) ↔
    (match find? members (str "peer"), find? members (str "room") with
      | some (.str peer), some (.str room) => offerReadable env (cstr peer, cstr room) members
      | _, _ => true) = true := by
  unfold onOffer
  simp only [hasSuch_obj, ok_bind, safe_guard, Bool.or_eq_false_iff, Bool.not_eq_false']
  split
  · rename_i peer room hpeer hroom
    simp only [stringAt_of_find hpeer, stringAt_of_find hroom, ok_bind, hpeer, hroom,
      Option.any_some, isString, and_self, forall_const]
    exact safe_takeOffer_iff env _
  · rename_i hnot
    refine iff_of_true ?_ rfl
    rintro ⟨hpeer, hroom⟩
    obtain ⟨peer, hpeer⟩ := exists_string_of_any hpeer
    obtain ⟨room, hroom⟩ := exists_string_of_any hroom
    exact absurd hroom (hnot peer room hpeer)

/-! ## A document -/

/-- The other handlers test what they read. Kind: L -/
theorem safe_handle_of_tested {v : Json} (htype : find? members (str "type") = some v) {h : Handler}
    (hleave : h ≠ .onLeave) (hoffer : h ≠ .onOffer) (t : Tables β) :
    Safe (handle env h (.obj members) t) := by
  unfold handle
  cases h with
  | onLeave => exact absurd rfl hleave
  | onOffer => exact absurd rfl hoffer
  | onJoin =>
      apply (safe_bind_of_forall fun _ => safe_pure _).mpr
      exact safe_onJoin
  | onFileAccept | onFileReject =>
      apply (safe_bind_of_forall fun _ => safe_pure _).mpr
      exact safe_responseUuid
  | onAnswer =>
      apply (safe_bind_of_forall fun _ => safe_pure _).mpr
      exact safe_onAnswer env
  | onCandidate =>
      apply (safe_bind_of_forall fun _ => safe_pure _).mpr
      exact safe_onCandidate env
  | onFileOffer =>
      apply (safe_bind_of_forall fun _ => safe_pure _).mpr
      exact safe_onFileOffer env htype t.incoming
  | onFileComplete =>
      apply (safe_bind_of_forall fun _ => safe_pure _).mpr
      exact safe_onFileComplete
  | onPingPong =>
      apply (safe_bind_of_forall fun _ => safe_pure _).mpr
      exact safe_onPingPong env

/-- Nothing is asked of their documents. Kind: L -/
theorem readable_of_tested {h : Handler} (hroute : messageRouter (.obj members) = .ok (some h))
    (hleave : h ≠ .onLeave) (hoffer : h ≠ .onOffer) : readable env members = true := by
  unfold readable
  rw [hroute]
  cases h with
  | onLeave => exact absurd rfl hleave
  | onOffer => exact absurd rfl hoffer
  | _ => rfl

/-- A handler breaks a precondition exactly when it reads something that it does not test and that
is not there. Kind: P -/
theorem safe_handle_iff {v : Json} (htype : find? members (str "type") = some v) (h : Handler)
    (hroute : messageRouter (.obj members) = .ok (some h)) (t : Tables β) :
    Safe (handle env h (.obj members) t) ↔ readable env members = true := by
  by_cases hleave : h = .onLeave
  · subst hleave
    unfold readable handle
    rw [hroute, safe_bind_of_forall fun _ => safe_pure _, safe_onLeave_iff]
    cases (find? members (str "room")).any isString with
    | false => simp
    | true =>
        cases (find? members (str "peerId")).any isString with
        | false => simp
        | true => simp
  by_cases hoffer : h = .onOffer
  · subst hoffer
    unfold readable handle
    rw [hroute, safe_bind_of_forall fun _ => safe_pure _]
    exact safe_onOffer_iff env
  · exact iff_of_true (safe_handle_of_tested env htype hleave hoffer t)
      (readable_of_tested env hroute hleave hoffer)

/-- **What a relayed document can make a client access.** For every object and every state of the
client, no RapidJSON precondition is broken exactly if a leave notification has an array of `peers`,
and an offer's first description and the candidates it comes to are strings. Kind: P -/
theorem safe_iff_readable (members : List (Str × Json)) (t : Tables β) :
    Safe (onMessage env (.obj members) t) ↔ readable env members = true := by
  obtain ⟨route, hroute⟩ := safe_messageRouter members
  unfold onMessage
  rw [hroute, ok_bind]
  cases route with
  | none => exact iff_of_true (safe_pure _) (by simp only [readable, hroute])
  | some h =>
      obtain ⟨members', type, hobj, htype, -⟩ := exists_members_of_messageRouter hroute
      obtain rfl := obj.inj hobj
      exact safe_handle_iff env htype h hroute t

/-- A leave notification without `peers`. Kind: D -/
def leaveWithoutPeers : List (Str × Json) :=
  [(str "type", .str (str "leave")), (str "room", .str (str "r")), (str "peerId", .str (str "b"))]

/-- A client that nothing throws at. Kind: D -/
def calmClient : Surroundings where
  name := str "a"
  room := str "r"
  connected := fun _ => true
  decoder := id
  returns := fun _ => true
  sends := true
  cwd := atRoot
  directory := []
  creates := fun _ => true
  crcOf := fun _ => none
  prepare := fun _ => .ready

/-- A document that makes a client read a member that is not there. Kind: P -/
theorem peers_read_unchecked :
    ¬ ∀ (env : Surroundings) (members : List (Str × Json)) (t : Tables UInt8),
      (find? members (str "type")).any isString = true → Safe (onMessage env (.obj members) t) := by
  intro hsafe
  have hfault : ¬ Safe (onMessage calmClient (.obj leaveWithoutPeers) (⟨∅, {}⟩ : Tables UInt8)) := by
    decide +kernel
  exact hfault (hsafe calmClient leaveWithoutPeers ⟨∅, {}⟩ (by decide))

end Client

end CloudNode
