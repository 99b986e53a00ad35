import CloudNode.Signalling.Server
import CloudNode.Wire.Accesses

/-!
# What each server handler can do

One lemma per handler says everything a call can have done; the results about runs use these
lemmas and never unfold a handler.

* `onJoin_result`, `onLeave_result`, `mem_members_onMessageClose` — the membership handlers.
* `Relay` — the two outcomes of a relay: refused (no message, no membership changed), or one
  message to the socket registered for the document's `peer`; a checked relay in addition only
  between two members of one room. `handle_relay` gives it for all seven relay types.
* `unchecked` — the recipient of a document that is relayed without looking at any room
  (`answer`, `candidate`); `handle_unchecked` says that such a relay is never refused while the
  recipient is registered.
* `MessageResult`, `onMessage_result` — everything a text message can do, over all types.
-/

namespace CloudNode

namespace Server

open Json

/-! ## Notifying -/

/-- A notification goes to the socket registered for the client it is meant for. Kind: L -/
theorem mem_sendNotification {type whoToNotify whose room : Str} {peers : Peers} {s : Server}
    {m : Send} : m ∈ s.sendNotification type whoToNotify whose room peers ↔
      s.clientDB[whoToNotify]? = some m.target ∧ m.addressee = whoToNotify ∧
        m.message = .document (rosterDocument type whose room peers) := by
  unfold sendNotification
  obtain ⟨target, addressee, message⟩ := m
  cases s.clientDB[whoToNotify]? with
  | none => simp
  | some ws => simp [eq_comm]

/-! ## Joining -/

/-- What joining a room can do: nothing, to who is in it already, or one new member who is
registered and everyone in the room told. Kind: D -/
inductive JoinResult (ws : Ws) (s : Server) (room : Str) : Server × List Send → Prop
  | refused {s' : Server} (hmem : ws.clientId ∈ s.rooms.members room)
      (hdb : s'.clientDB = s.clientDB)
      (hrooms : ∀ r, s'.rooms.members r = s.rooms.members r) : JoinResult ws s room (s', [])
  | joined {s' : Server} (hnew : ws.clientId ∉ s.rooms.members room)
      (hdb : s'.clientDB = s.clientDB.insert ws.clientId ws.socket)
      (hrooms : ∀ r, s'.rooms.members r =
        if room = r then (s.rooms.members room).insert ws.clientId else s.rooms.members r) :
      JoinResult ws s room (s', (s'.rooms.members room).toList.flatMap fun u =>
        s'.sendJoinNotification u ws.clientId room (s'.rooms.members room))

/-- A join that names a room. Kind: L -/
theorem onJoin_of_room {ws : Ws} {members : List (Str × Json)} {room : Str} (s : Server)
    (h : find? members (str "room") = some (.str room)) :
    onJoin ws (.obj members) s =
      match WebRTC.join s.rooms ws.clientId (cstr room) with
      | (false, rooms) => .ok ({ s with rooms := rooms }, [])
      | (true, rooms) =>
        let s' : Server := { rooms := rooms, clientDB := s.clientDB.insert ws.clientId ws.socket }
        .ok (s', (rooms.members (cstr room)).toList.flatMap fun u =>
          s'.sendJoinNotification u ws.clientId (cstr room) (rooms.members (cstr room))) := by
  unfold onJoin
  simp only [hasSuch_obj, ok_bind, h, Option.any_some, isString, Bool.not_true, Bool.false_eq_true,
    if_false, stringAt_of_find h]
  rfl

/-- A join that names no room does nothing. Kind: L -/
theorem onJoin_of_no_room {ws : Ws} {members : List (Str × Json)} (s : Server)
    (h : (find? members (str "room")).any isString = false) :
    onJoin ws (.obj members) s = .ok (s, []) := by
  unfold onJoin
  simp only [hasSuch_obj, ok_bind, h]
  rfl

/-- Everything `OnJoin` can do. Kind: P -/
theorem onJoin_result {ws : Ws} {members : List (Str × Json)} {s : Server}
    {out : Server × List Send} (h : onJoin ws (.obj members) s = .ok out) :
    ((find? members (str "room")).any isString = false ∧ out = (s, [])) ∨
      ∃ room, find? members (str "room") = some (.str room) ∧ JoinResult ws s (cstr room) out := by
  cases hany : (find? members (str "room")).any isString with
  | false =>
      rw [onJoin_of_no_room s hany, Except.ok.injEq] at h
      exact .inl ⟨rfl, h.symm⟩
  | true =>
      obtain ⟨room, hroom⟩ := exists_string_of_any hany
      refine .inr ⟨room, hroom, ?_⟩
      rw [onJoin_of_room s hroom] at h
      by_cases hmem : ws.clientId ∈ s.rooms.members (cstr room)
      · rw [WebRTC.join_of_mem _ _ _ hmem] at h
        cases h
        exact .refused hmem rfl fun r => Rooms.members_touch _ _ _
      · rw [WebRTC.join_of_not_mem _ _ _ hmem] at h
        cases h
        exact @JoinResult.joined ws s (cstr room) { rooms := _, clientDB := _ } hmem rfl
          fun r => Rooms.members_insert _ _ _ _

/-! ## Leaving -/

section leaving

variable (s : Server) (peer room : Str)

/-- Who is in which room after `Leave`. Kind: L -/
theorem mem_members_leave {r q : Str} : q ∈ (s.leave peer room).1.rooms.members r ↔
    q ∈ s.rooms.members r ∧ ¬ (room = r ∧ q = peer) := by
  unfold leave
  rw [Rooms.members_touch]
  exact WebRTC.mem_members_leave

/-- Leaving a room changes no other room. Kind: L -/
theorem members_leave_ne {r : Str} (h : room ≠ r) :
    (s.leave peer room).1.rooms.members r = s.rooms.members r := by
  unfold leave
  rw [Rooms.members_touch, WebRTC.members_leave, if_neg h]

/-- The notifications of `Leave`: the room's new roster, to everyone on it. Kind: L -/
theorem leave_sends : (s.leave peer room).2 =
    ((s.leave peer room).1.rooms.members room).toList.flatMap fun u =>
      (s.leave peer room).1.sendLeaveNotification u peer room
        ((s.leave peer room).1.rooms.members room) := rfl

/-- Whom `Leave` tells: the members that stay. Kind: L -/
theorem mem_leave_sends {m : Send} (hm : m ∈ (s.leave peer room).2) :
    m.addressee ∈ s.rooms.members room ∧ m.addressee ≠ peer ∧
      s.clientDB[m.addressee]? = some m.target := by
  rw [leave_sends, List.mem_flatMap] at hm
  obtain ⟨u, hu, hm⟩ := hm
  obtain ⟨hsocket, rfl, -⟩ := mem_sendNotification.mp hm
  rw [Std.ExtTreeSet.mem_toList, mem_members_leave] at hu
  exact ⟨hu.1, fun heq => hu.2 ⟨rfl, heq⟩, hsocket⟩

/-- Leaving room after room. Kind: D -/
def leaveRooms (peer : Str) : List Str → Server → Server × List Send
  | [], s => (s, [])
  | room :: rest, s =>
    let out := s.leave peer room
    let outs := leaveRooms peer rest out.1
    (outs.1, out.2 ++ outs.2)

/-- The loop of `OnMessageClose`, from any point of it. Kind: L -/
theorem foldl_closeRoom (entries : List (Str × Peers)) (acc : Server × List Send) :
    entries.foldl (closeRoom peer) acc =
      let outs := leaveRooms peer ((entries.filter fun e => peer ∈ e.2).map Prod.fst) acc.1
      (outs.1, acc.2 ++ outs.2) := by
  induction entries generalizing acc with
  | nil => simp [leaveRooms]
  | cons e entries ih =>
      rw [List.foldl_cons, ih]
      by_cases h : peer ∈ e.2
      · simp [closeRoom, h, leaveRooms]
      · simp [closeRoom, h]

/-- A closing client leaves the rooms it is in, in the order of their names. Kind: L -/
theorem onMessageClose_eq (ws : Ws) : onMessageClose ws s = leaveRooms ws.clientId
    ((s.rooms.toList.filter fun e => ws.clientId ∈ e.2).map Prod.fst) s := by
  unfold onMessageClose
  rw [foldl_closeRoom]
  simp

/-- Leaving rooms registers nobody. Kind: L -/
@[simp] theorem leaveRooms_clientDB (rooms : List Str) :
    (leaveRooms peer rooms s).1.clientDB = s.clientDB := by
  induction rooms generalizing s with
  | nil => rfl
  | cons r rooms ih => exact ih (s.leave peer r).1

/-- Who is in which room after leaving some. Kind: L -/
theorem mem_members_leaveRooms {rooms : List Str} {r q : Str} :
    q ∈ (leaveRooms peer rooms s).1.rooms.members r ↔
      q ∈ s.rooms.members r ∧ ¬ (r ∈ rooms ∧ q = peer) := by
  induction rooms generalizing s with
  | nil => simp [leaveRooms]
  | cons r' rooms ih =>
      show q ∈ (leaveRooms peer rooms (s.leave peer r').1).1.rooms.members r ↔ _
      rw [ih, mem_members_leave, List.mem_cons]
      constructor
      · rintro ⟨⟨hq, h1⟩, h2⟩
        refine ⟨hq, ?_⟩
        rintro ⟨rfl | hr, heq⟩
        · exact h1 ⟨rfl, heq⟩
        · exact h2 ⟨hr, heq⟩
      · rintro ⟨hq, h⟩
        exact ⟨⟨hq, fun hc => h ⟨.inl hc.1.symm, hc.2⟩⟩, fun hc => h ⟨.inr hc.1, hc.2⟩⟩

/-- Whom leaving some rooms tells. Kind: L -/
theorem mem_leaveRooms_sends {rooms : List Str} {m : Send}
    (hm : m ∈ (leaveRooms peer rooms s).2) :
    (∃ r, m.addressee ∈ s.rooms.members r) ∧ m.addressee ≠ peer ∧
      s.clientDB[m.addressee]? = some m.target := by
  induction rooms generalizing s with
  | nil => cases hm
  | cons r rooms ih =>
      obtain hm | hm := List.mem_append.mp hm
      · obtain ⟨hmem, hne, hsocket⟩ := mem_leave_sends _ _ _ hm
        exact ⟨⟨r, hmem⟩, hne, hsocket⟩
      · obtain ⟨⟨r', hmem⟩, hne, hsocket⟩ := ih (s.leave peer r).1 hm
        exact ⟨⟨r', ((mem_members_leave _ _ _).mp hmem).1⟩, hne, hsocket⟩

/-- **A close evicts exactly**: afterwards the client is in no room, and every other membership is
what it was. Kind: P -/
theorem mem_members_onMessageClose {ws : Ws} {r q : Str} :
    q ∈ (onMessageClose ws s).1.rooms.members r ↔
      q ∈ s.rooms.members r ∧ q ≠ ws.clientId := by
  rw [onMessageClose_eq, mem_members_leaveRooms]
  constructor
  · rintro ⟨hq, h⟩
    refine ⟨hq, ?_⟩
    rintro rfl
    refine h ⟨?_, rfl⟩
    have hroom := Rooms.getElem?_of_mem_members hq
    rw [List.mem_map]
    refine ⟨(r, s.rooms.members r), ?_, rfl⟩
    rw [List.mem_filter, Std.ExtTreeMap.mem_toList_iff_getElem?_eq_some]
    exact ⟨hroom, by simpa using hq⟩
  · exact fun h => ⟨h.1, fun hc => h.2 hc.2⟩

/-- A close registers nobody. Kind: L -/
@[simp] theorem onMessageClose_clientDB (ws : Ws) :
    (onMessageClose ws s).1.clientDB = s.clientDB := by
  rw [onMessageClose_eq, leaveRooms_clientDB]

end leaving

/-- A leave that names a room. Kind: L -/
theorem onLeave_of_room {ws : Ws} {members : List (Str × Json)} {room : Str} (s : Server)
    (h : find? members (str "room") = some (.str room)) :
    onLeave ws (.obj members) s = .ok (s.leave ws.clientId (cstr room)) := by
  unfold onLeave
  simp only [hasSuch_obj, ok_bind, h, Option.any_some, isString, Bool.not_true, Bool.false_eq_true,
    if_false, stringAt_of_find h]
  rfl

/-- Everything `OnLeave` can do. Kind: P -/
theorem onLeave_result {ws : Ws} {members : List (Str × Json)} {s : Server}
    {out : Server × List Send} (h : onLeave ws (.obj members) s = .ok out) :
    ((find? members (str "room")).any isString = false ∧ out = (s, [])) ∨
      ∃ room, find? members (str "room") = some (.str room) ∧
        out = s.leave ws.clientId (cstr room) := by
  cases hany : (find? members (str "room")).any isString with
  | false =>
      unfold onLeave at h
      simp only [hasSuch_obj, ok_bind, hany] at h
      exact .inl ⟨rfl, (Except.ok.inj h).symm⟩
  | true =>
      obtain ⟨room, hroom⟩ := exists_string_of_any hany
      rw [onLeave_of_room s hroom] at h
      exact .inr ⟨room, hroom, (Except.ok.inj h).symm⟩

/-! ## Relaying -/

/-- What a relay can do: refuse, or send the document with the sender's id in its `peer` to the
socket registered for the client it named. A checked relay sends only between two members of one
room. Kind: D -/
inductive Relay (checked : Bool) (ws : Ws) (members : List (Str × Json)) (s : Server) :
    Server × List Send → Prop
  | refused {s' : Server} (hdb : s'.clientDB = s.clientDB)
      (hrooms : ∀ r, s'.rooms.members r = s.rooms.members r) : Relay checked ws members s (s', [])
  | sent {s' : Server} {peer : Str} {k : Socket} (hdb : s'.clientDB = s.clientDB)
      (hrooms : ∀ r, s'.rooms.members r = s.rooms.members r)
      (hpeer : find? members (str "peer") = some (.str peer))
      (hsocket : s.clientDB[cstr peer]? = some k)
      (hroom : checked = true →
        ∃ room, ws.clientId ∈ s.rooms.members room ∧ cstr peer ∈ s.rooms.members room) :
      Relay checked ws members s
        (s', [⟨k, cstr peer, .document (.obj (setFirst (str "peer") (.str ws.clientId) members))⟩])

/-- The end of a relay, to a registered recipient. Kind: L -/
theorem forward_of_registered {s : Server} (from_ : Str) {peer : Str}
    {members : List (Str × Json)} {k : Socket} (hpeer : find? members (str "peer") = some (.str peer))
    (hsocket : s.clientDB[cstr peer]? = some k) :
    s.forward from_ (cstr peer) (.obj members) =
      .ok (s, [⟨k, cstr peer, .document (.obj (setFirst (str "peer") (.str from_) members))⟩]) := by
  unfold forward
  rw [hsocket]
  simp only [setString_of_find hpeer]
  rfl

/-- The end of a relay, to a recipient that is not registered. Kind: L -/
theorem forward_of_unregistered {s : Server} {from_ peer : Str} {doc : Json}
    (h : s.clientDB[peer]? = none) : s.forward from_ peer doc = .ok (s, []) := by
  unfold forward
  rw [h]
  rfl

/-- The end of a relay is a relay. Kind: L -/
theorem relay_of_forward {checked : Bool} {ws : Ws} {s s' : Server} {peer : Str}
    {members : List (Str × Json)} {out : Server × List Send} (hdb : s'.clientDB = s.clientDB)
    (hrooms : ∀ r, s'.rooms.members r = s.rooms.members r)
    (hpeer : find? members (str "peer") = some (.str peer))
    (hroom : checked = true →
      ∃ room, ws.clientId ∈ s.rooms.members room ∧ cstr peer ∈ s.rooms.members room)
    (h : s'.forward ws.clientId (cstr peer) (.obj members) = .ok out) :
    Relay checked ws members s out := by
  cases hsocket : s'.clientDB[cstr peer]? with
  | none =>
      rw [forward_of_unregistered hsocket, Except.ok.injEq] at h
      subst h
      exact .refused hdb hrooms
  | some k =>
      rw [forward_of_registered _ hpeer hsocket, Except.ok.injEq] at h
      subst h
      exact .sent hdb hrooms hpeer (hdb ▸ hsocket) hroom

/-- The room test of a checked relay. Kind: L -/
theorem bothIn_eq_true {s : Server} {from_ peer room : Str} : s.bothIn from_ peer room = true ↔
    from_ ∈ s.rooms.members room ∧ peer ∈ s.rooms.members room := by
  simp [bothIn]

/-- A relay past its room test. Kind: L -/
theorem relay_of_bothIn {ws : Ws} {s s' : Server} {v room : Str} {members : List (Str × Json)}
    {out : Server × List Send} (hdb : s'.clientDB = s.clientDB)
    (hrooms : ∀ r, s'.rooms.members r = s.rooms.members r)
    (hpeer : find? members (str "peer") = some (.str v))
    (h : (if (!s'.bothIn ws.clientId (cstr v) room) = true then (pure (s', []) : Outcome)
      else s'.forward ws.clientId (cstr v) (.obj members)) = .ok out) :
    Relay true ws members s out := by
  obtain ⟨-, rfl⟩ | ⟨hboth, hfwd⟩ := guard_eq_ok.mp h
  · exact .refused hdb hrooms
  · rw [Bool.not_eq_false', bothIn_eq_true, hrooms] at hboth
    exact relay_of_forward hdb hrooms hpeer (fun _ => ⟨room, hboth⟩) hfwd

variable {ws : Ws} {members : List (Str × Json)} {s : Server} {out : Server × List Send}

/-- `HandleFile` is a checked relay. Kind: L -/
theorem relay_handleFile {file : FileDetails} (h : handleFile ws (.obj members) file s = .ok out) :
    Relay true ws members s out := by
  unfold handleFile at h
  simp only [hasSuch_obj, ok_bind] at h
  obtain ⟨-, rfl⟩ | ⟨-, h⟩ := guard_eq_ok.mp h
  · exact .refused rfl fun _ => rfl
  · obtain ⟨peer, hpeer, h⟩ := bind_eq_ok.mp h
    obtain ⟨room, -, h⟩ := bind_eq_ok.mp h
    obtain ⟨v, hv, rfl⟩ := stringAt_eq_ok.mp hpeer
    have hrooms : ∀ r, (s.rooms.touch room).members r = s.rooms.members r :=
      fun r => Rooms.members_touch _ _ _
    exact @relay_of_bothIn ws s { s with rooms := s.rooms.touch room } _ _ _ _ rfl hrooms hv h

/-- `OnFileOffer` is a checked relay. Kind: L -/
theorem relay_onFileOffer (h : onFileOffer ws (.obj members) s = .ok out) :
    Relay true ws members s out := by
  unfold onFileOffer at h
  simp only [hasSuch_obj, ok_bind] at h
  obtain ⟨-, rfl⟩ | ⟨-, h⟩ := guard_eq_ok.mp h
  · exact .refused rfl fun _ => rfl
  · obtain ⟨_, -, h⟩ := bind_eq_ok.mp h
    obtain ⟨_, -, h⟩ := bind_eq_ok.mp h
    obtain ⟨_, -, h⟩ := bind_eq_ok.mp h
    obtain ⟨-, rfl⟩ | ⟨-, h⟩ := guard_eq_ok.mp h
    · exact .refused rfl fun _ => rfl
    · obtain ⟨_, -, h⟩ := bind_eq_ok.mp h
      obtain ⟨_, -, h⟩ := bind_eq_ok.mp h
      obtain ⟨_, -, h⟩ := bind_eq_ok.mp h
      obtain ⟨_, -, h⟩ := bind_eq_ok.mp h
      obtain ⟨_, -, h⟩ := bind_eq_ok.mp h
      obtain ⟨_, -, h⟩ := bind_eq_ok.mp h
      exact relay_handleFile h

/-- `OnFileAccept` is a checked relay. Kind: L -/
theorem relay_onFileAccept (h : onFileAccept ws (.obj members) s = .ok out) :
    Relay true ws members s out := by
  unfold onFileAccept at h
  simp only [hasSuch_obj, ok_bind] at h
  obtain ⟨-, rfl⟩ | ⟨-, h⟩ := guard_eq_ok.mp h
  · exact .refused rfl fun _ => rfl
  · obtain ⟨_, -, h⟩ := bind_eq_ok.mp h
    obtain ⟨-, rfl⟩ | ⟨-, h⟩ := guard_eq_ok.mp h
    · exact .refused rfl fun _ => rfl
    · obtain ⟨_, -, h⟩ := bind_eq_ok.mp h
      obtain ⟨_, -, h⟩ := bind_eq_ok.mp h
      obtain ⟨_, -, h⟩ := bind_eq_ok.mp h
      exact relay_handleFile h

/-- `OnFileReject` is a checked relay. Kind: L -/
theorem relay_onFileReject (h : onFileReject ws (.obj members) s = .ok out) :
    Relay true ws members s out := by
  unfold onFileReject at h
  simp only [hasSuch_obj, ok_bind] at h
  obtain ⟨-, rfl⟩ | ⟨-, h⟩ := guard_eq_ok.mp h
  · exact .refused rfl fun _ => rfl
  · obtain ⟨_, -, h⟩ := bind_eq_ok.mp h
    obtain ⟨-, rfl⟩ | ⟨-, h⟩ := guard_eq_ok.mp h
    · exact .refused rfl fun _ => rfl
    · obtain ⟨_, -, h⟩ := bind_eq_ok.mp h
      obtain ⟨_, -, h⟩ := bind_eq_ok.mp h
      exact relay_handleFile h

/-- `OnFileComplete` is a checked relay. Kind: L -/
theorem relay_onFileComplete (h : onFileComplete ws (.obj members) s = .ok out) :
    Relay true ws members s out := by
  unfold onFileComplete at h
  simp only [hasSuch_obj, ok_bind] at h
  obtain ⟨-, rfl⟩ | ⟨-, h⟩ := guard_eq_ok.mp h
  · exact .refused rfl fun _ => rfl
  · obtain ⟨peer, hpeer, h⟩ := bind_eq_ok.mp h
    obtain ⟨room, -, h⟩ := bind_eq_ok.mp h
    obtain ⟨v, hv, rfl⟩ := stringAt_eq_ok.mp hpeer
    exact relay_of_bothIn rfl (fun _ => rfl) hv h

/-- `OnOffer` is a checked relay. Kind: L -/
theorem relay_onOffer (h : onOffer ws (.obj members) s = .ok out) :
    Relay true ws members s out := by
  unfold onOffer at h
  simp only [hasSuch_obj, ok_bind] at h
  obtain ⟨-, rfl⟩ | ⟨-, h⟩ := guard_eq_ok.mp h
  · exact .refused rfl fun _ => rfl
  · obtain ⟨peer, hpeer, h⟩ := bind_eq_ok.mp h
    obtain ⟨room, -, h⟩ := bind_eq_ok.mp h
    obtain ⟨v, hv, rfl⟩ := stringAt_eq_ok.mp hpeer
    exact relay_of_bothIn rfl (fun _ => rfl) hv h

/-! ## Relays that look at no room -/

/-- The client a document is relayed to without a look at any room: the `peer` of an `answer` or a
`candidate` whose fields are as its handler requires. Kind: D -/
def unchecked (h : Handler) (members : List (Str × Json)) : Option Str :=
  match h, find? members (str "peer") with
  | .onAnswer, some (.str peer) =>
    if (find? members (str "sdp")).any isString then some (cstr peer) else none
  | .onCandidate, some (.str peer) =>
    if (find? members (str "candidate")).any isString && (find? members (str "mid")).any isString
    then some (cstr peer) else none
  | _, _ => none

/-- A document relayed without a look at any room names its recipient. Kind: L -/
theorem exists_peer_of_unchecked {h : Handler} {peer : Str}
    (hpeer : unchecked h members = some peer) :
    ∃ v, find? members (str "peer") = some (.str v) ∧ peer = cstr v := by
  unfold unchecked at hpeer
  split at hpeer
  · rename_i v hv
    split at hpeer
    · exact ⟨v, hv, (Option.some.inj hpeer).symm⟩
    · cases hpeer
  · rename_i v hv
    split at hpeer
    · exact ⟨v, hv, (Option.some.inj hpeer).symm⟩
    · cases hpeer
  · cases hpeer

/-- `OnAnswer`, as a function of the recipient it found. Kind: L -/
theorem onAnswer_eq : onAnswer ws (.obj members) s =
    match unchecked .onAnswer members with
    | none => .ok (s, [])
    | some peer => s.forward ws.clientId peer (.obj members) := by
  unfold onAnswer unchecked
  simp only [hasSuch_obj, ok_bind]
  cases hp : find? members (str "peer") with
  | none => rfl
  | some v =>
      cases v with
      | str peer =>
          simp only [stringAt_of_find hp, ok_bind, Option.any_some, isString, Bool.not_true,
            Bool.false_or]
          cases (find? members (str "sdp")).any isString <;> rfl
      | _ => rfl

/-- `OnCandidate`, as a function of the recipient it found. Kind: L -/
theorem onCandidate_eq : onCandidate ws (.obj members) s =
    match unchecked .onCandidate members with
    | none => .ok (s, [])
    | some peer => s.forward ws.clientId peer (.obj members) := by
  unfold onCandidate unchecked
  simp only [hasSuch_obj, ok_bind]
  cases hp : find? members (str "peer") with
  | none => rfl
  | some v =>
      cases v with
      | str peer =>
          simp only [stringAt_of_find hp, ok_bind, Option.any_some, isString, Bool.not_true,
            Bool.false_or]
          cases (find? members (str "candidate")).any isString <;>
            cases (find? members (str "mid")).any isString <;> rfl
      | _ => rfl

/-- An unchecked relay is a relay. Kind: L -/
theorem relay_of_unchecked {h : Handler}
    (hout : (match unchecked h members with
      | none => (.ok (s, []) : Outcome)
      | some peer => s.forward ws.clientId peer (.obj members)) = .ok out) :
    Relay false ws members s out := by
  cases hu : unchecked h members with
  | none =>
      rw [hu, Except.ok.injEq] at hout
      subst hout
      exact .refused rfl fun _ => rfl
  | some peer =>
      rw [hu] at hout
      obtain ⟨v, hv, rfl⟩ := exists_peer_of_unchecked hu
      exact relay_of_forward rfl (fun _ => rfl) hv (fun hc => by cases hc) hout

/-! ## The seven relay types -/

/-- The handlers that relay. Kind: D -/
def relays : Handler → Bool
  | .onFileAccept | .onFileReject | .onOffer | .onAnswer | .onCandidate | .onFileOffer
  | .onFileComplete => true
  | .onJoin | .onLeave | .onPingPong => false

/-- The relays that look at a room. Kind: D -/
def checksRoom : Handler → Bool
  | .onAnswer | .onCandidate => false
  | _ => true

/-- **Every relay type**: refused, or one message to the registered recipient, between two members
of one room where the type checks that. Kind: P -/
theorem handle_relay {h : Handler} (hrelay : relays h = true)
    (hout : handle h ws (.obj members) s = .ok out) : Relay (checksRoom h) ws members s out := by
  cases h with
  | onFileAccept => exact relay_onFileAccept hout
  | onFileReject => exact relay_onFileReject hout
  | onOffer => exact relay_onOffer hout
  | onAnswer => exact relay_of_unchecked (h := .onAnswer) (onAnswer_eq ▸ hout)
  | onCandidate => exact relay_of_unchecked (h := .onCandidate) (onCandidate_eq ▸ hout)
  | onFileOffer => exact relay_onFileOffer hout
  | onFileComplete => exact relay_onFileComplete hout
  | onJoin => cases hrelay
  | onLeave => cases hrelay
  | onPingPong => cases hrelay

/-- An unchecked relay to a registered client is never refused. Kind: P -/
theorem handle_unchecked (ws : Ws) {h : Handler} {peer : Str} {k : Socket}
    (hu : unchecked h members = some peer) (hsocket : s.clientDB[peer]? = some k) :
    ∃ msg, handle h ws (.obj members) s = .ok (s, [⟨k, peer, msg⟩]) := by
  obtain ⟨v, hv, rfl⟩ := exists_peer_of_unchecked hu
  have hfwd := forward_of_registered ws.clientId hv hsocket
  cases h with
  | onAnswer => exact ⟨_, by rw [← hfwd]; show onAnswer ws _ s = _; rw [onAnswer_eq, hu]⟩
  | onCandidate => exact ⟨_, by rw [← hfwd]; show onCandidate ws _ s = _; rw [onCandidate_eq, hu]⟩
  | _ => simp [unchecked] at hu

/-- The message types that are relayed without a look at any room. Kind: L -/
theorem relays_of_unchecked {h : Handler} {peer : Str} (hu : unchecked h members = some peer) :
    relays h = true ∧ checksRoom h = false := by
  cases h <;> simp [unchecked] at hu <;> exact ⟨rfl, rfl⟩

/-- An unchecked relay that sent something found its recipient by `unchecked`. Kind: L -/
theorem unchecked_of_sent {h : Handler} {msg : Send} {msgs : List Send} {s' : Server}
    (hrelay : relays h = true) (hcheck : checksRoom h = false)
    (hout : handle h ws (.obj members) s = .ok (s', msg :: msgs)) :
    ∃ peer, unchecked h members = some peer := by
  cases hu : unchecked h members with
  | some peer => exact ⟨peer, rfl⟩
  | none =>
      cases h with
      | onAnswer =>
          change onAnswer ws _ s = _ at hout
          rw [onAnswer_eq, hu] at hout
          cases hout
      | onCandidate =>
          change onCandidate ws _ s = _ at hout
          rw [onCandidate_eq, hu] at hout
          cases hout
      | _ => simp [relays, checksRoom] at hrelay hcheck

/-! ## A message -/

/-- The room that a document of that type names: of interest for joining and leaving. Kind: D -/
def roomOf (h : Handler) (doc : Json) : Option Str :=
  match doc, messageRouter doc with
  | .obj members, .ok (some h') =>
    if h' = h then
      match find? members (str "room") with
      | some (.str room) => some (cstr room)
      | _ => none
    else none
  | _, _ => none

/-- The client that a document is relayed to without a look at any room. Kind: D -/
def uncheckedPeer (doc : Json) : Option Str :=
  match doc, messageRouter doc with
  | .obj members, .ok (some h) => unchecked h members
  | _, _ => none

/-- What a message can do. Kind: D -/
inductive MessageResult (ws : Ws) (doc : Json) (s : Server) : Server × List Send → Prop
  | ignored (hjoin : roomOf .onJoin doc = none) (hleave : roomOf .onLeave doc = none) :
      MessageResult ws doc s (s, [])
  | join {room : Str} {out : Server × List Send} (hjoin : roomOf .onJoin doc = some room)
      (hleave : roomOf .onLeave doc = none) (hresult : JoinResult ws s room out) :
      MessageResult ws doc s out
  | leave {room : Str} (hjoin : roomOf .onJoin doc = none)
      (hleave : roomOf .onLeave doc = some room) :
      MessageResult ws doc s (s.leave ws.clientId room)
  | relay {members : List (Str × Json)} {h : Handler} {out : Server × List Send}
      (hjoin : roomOf .onJoin doc = none) (hleave : roomOf .onLeave doc = none)
      (hdoc : doc = .obj members) (hroute : messageRouter doc = .ok (some h))
      (hrelay : relays h = true) (hhandle : handle h ws (.obj members) s = .ok out)
      (hresult : Relay (checksRoom h) ws members s out) : MessageResult ws doc s out
  | pong (hjoin : roomOf .onJoin doc = none) (hleave : roomOf .onLeave doc = none) :
      MessageResult ws doc s (s, [⟨ws.socket, ws.clientId, .pong ws.clientId⟩])

/-- A document routed to one handler names no room for another. Kind: L -/
theorem roomOf_of_route_ne {members : List (Str × Json)} {h h' : Handler}
    (hroute : messageRouter (.obj members) = .ok (some h')) (hne : h' ≠ h) :
    roomOf h (.obj members) = none := by
  simp only [roomOf, hroute, if_neg hne]

/-- The room that a document routed to a handler names. Kind: L -/
theorem roomOf_of_find {members : List (Str × Json)} {h : Handler} {room : Str}
    (hroute : messageRouter (.obj members) = .ok (some h))
    (hroom : find? members (str "room") = some (.str room)) :
    roomOf h (.obj members) = some (cstr room) := by
  simp only [roomOf, hroute, if_true, hroom]

/-- A document without a room names none. Kind: L -/
theorem roomOf_of_no_room {members : List (Str × Json)} {h : Handler}
    (hroom : (find? members (str "room")).any isString = false) :
    roomOf h (.obj members) = none := by
  have hfind : (match find? members (str "room") with
      | some (.str room) => some (cstr room)
      | _ => none) = none := by
    cases hf : find? members (str "room") with
    | none => rfl
    | some v => cases v <;> simp [hf, isString] at hroom ⊢
  cases hroute : messageRouter (.obj members) with
  | error e => simp only [roomOf, hroute]
  | ok route =>
      cases route with
      | none => simp only [roomOf, hroute]
      | some h' =>
          simp only [roomOf, hroute]
          split
          · exact hfind
          · rfl

/-- Everything a message can do. Kind: P -/
theorem onMessage_result {doc : Json} (h : onMessage ws doc s = .ok out) :
    MessageResult ws doc s out := by
  unfold onMessage at h
  obtain ⟨route, hroute, h⟩ := bind_eq_ok.mp h
  cases route with
  | none =>
      cases (Except.ok.inj h)
      have hnone : ∀ h', roomOf h' doc = none := by
        intro h'
        unfold roomOf
        rw [hroute]
        cases doc <;> rfl
      exact .ignored (hnone _) (hnone _)
  | some hd =>
      obtain ⟨members, type, rfl, -, -⟩ := exists_members_of_messageRouter hroute
      by_cases hrelay : relays hd = true
      · refine .relay (roomOf_of_route_ne hroute ?_) (roomOf_of_route_ne hroute ?_) rfl hroute
          hrelay h (handle_relay hrelay h)
        · rintro rfl
          cases hrelay
        · rintro rfl
          cases hrelay
      · cases hd with
        | onJoin =>
            have hleave : roomOf .onLeave (.obj members) = none :=
              roomOf_of_route_ne hroute (by decide)
            obtain ⟨hroom, rfl⟩ | ⟨room, hroom, hresult⟩ := onJoin_result h
            · exact .ignored (roomOf_of_no_room hroom) hleave
            · exact .join (roomOf_of_find hroute hroom) hleave hresult
        | onLeave =>
            have hjoin : roomOf .onJoin (.obj members) = none :=
              roomOf_of_route_ne hroute (by decide)
            obtain ⟨hroom, rfl⟩ | ⟨room, hroom, rfl⟩ := onLeave_result h
            · exact .ignored hjoin (roomOf_of_no_room hroom)
            · exact .leave hjoin (roomOf_of_find hroute hroom)
        | onPingPong =>
            cases (Except.ok.inj h)
            exact .pong (roomOf_of_route_ne hroute (by decide))
              (roomOf_of_route_ne hroute (by decide))
        | _ => exact absurd rfl hrelay

/-- An unchecked relay to a registered client is never refused. Kind: L -/
theorem onMessage_of_unchecked (ws : Ws) {doc : Json} {peer : Str} {k : Socket}
    (hu : uncheckedPeer doc = some peer) (hsocket : s.clientDB[peer]? = some k) :
    ∃ h msg, messageRouter doc = .ok (some h) ∧ relays h = true ∧
      onMessage ws doc s = .ok (s, [⟨k, peer, msg⟩]) := by
  unfold uncheckedPeer at hu
  split at hu
  · rename_i members h hroute
    obtain ⟨msg, hmsg⟩ := handle_unchecked ws hu hsocket
    refine ⟨h, msg, hroute, (relays_of_unchecked hu).1, ?_⟩
    unfold onMessage
    rw [hroute, ok_bind]
    exact hmsg
  · cases hu

/-- The recipient of an unchecked relay that sent something. Kind: L -/
theorem uncheckedPeer_of_sent {h : Handler} {m : Send} {msgs : List Send} {s' : Server}
    (hroute : messageRouter (.obj members) = .ok (some h)) (hrelay : relays h = true)
    (hcheck : checksRoom h = false)
    (hout : handle h ws (.obj members) s = .ok (s', m :: msgs)) :
    uncheckedPeer (.obj members) = some m.addressee := by
  obtain ⟨peer, hpeer⟩ := unchecked_of_sent hrelay hcheck hout
  have hu : uncheckedPeer (.obj members) = some peer := by
    simp only [uncheckedPeer, hroute, hpeer]
  obtain hnone | ⟨k, hsocket⟩ : s.clientDB[peer]? = none ∨ ∃ k, s.clientDB[peer]? = some k := by
    cases s.clientDB[peer]? with
    | none => exact .inl rfl
    | some k => exact .inr ⟨k, rfl⟩
  · cases handle_relay hrelay hout with
    | sent _ _ hpeer' hsocket _ =>
        obtain ⟨v, hv, rfl⟩ := exists_peer_of_unchecked hpeer
        cases hv.symm.trans hpeer'
        rw [hnone] at hsocket
        cases hsocket
  · obtain ⟨msg, hmsg⟩ := handle_unchecked ws hpeer hsocket
    rw [hmsg] at hout
    cases hout
    exact hu

end Server

end CloudNode
