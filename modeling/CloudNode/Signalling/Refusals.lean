import CloudNode.Signalling.Decisions

/-!
# Refused requests

A request that the server does not carry out should leave the tables as they are and send nothing.
Two of the handlers do more than that. `WebRTCServer::Leave` ignores what the base class says of
the leave: it creates the room and tells everyone in it that the client left. `HandleFile` looks
the room up with `m_rooms[room]`, which creates it.

* `carriesOut` — the requests that the server carries out.
* `Harmless` — the refused ones that leave no trace.
* `refused_iff_harmless` — a refused request has no effect exactly if it is harmless.
-/

namespace CloudNode

namespace Rooms

variable {rooms : Rooms} {peer room : Str}

/-- Looking up a room that is there changes nothing. Kind: L -/
theorem touch_eq_self_iff : rooms.touch room = rooms ↔ room ∈ rooms := by
  constructor
  · intro h
    rw [← h]
    unfold touch
    exact Std.ExtTreeMap.mem_insert_self
  · intro h
    apply Std.ExtTreeMap.ext_getElem?
    intro r
    unfold touch
    rw [getElem?_insert_eq]
    split
    · rename_i hr
      subst hr
      rw [Std.ExtTreeMap.getElem?_eq_some_getElem h]
      simp only [members, Std.ExtTreeMap.getElem?_eq_some_getElem h, Option.getD_some]
    · rfl

/-- A room with a member is in the table. Kind: L -/
theorem mem_of_mem_members (h : peer ∈ rooms.members room) : room ∈ rooms := by
  rw [Std.ExtTreeMap.mem_iff_isSome_getElem?, getElem?_of_mem_members h]
  rfl

end Rooms

namespace Server

open Json

/-! ## Which requests are carried out -/

/-- The room of a `join` or `leave`. Kind: D -/
def namedRoom (members : List (Str × Json)) : Option Str :=
  match find? members (str "room") with
  | some (.str room) => some (cstr room)
  | _ => none

/-- The server carries a request out: a join of a room that the client is not in, a leave of a room
that it is in, a relay with a recipient, an answer to a ping. Kind: D -/
def carriesOut (ws : Ws) (h : Handler) (members : List (Str × Json)) (s : Server) : Bool :=
  match h with
  | .onJoin => (namedRoom members).any fun room => ws.clientId ∉ s.rooms.members room
  | .onLeave => (namedRoom members).any fun room => ws.clientId ∈ s.rooms.members room
  | .onPingPong => true
  | h => (recipient cstr s ws.clientId h members).isSome

/-- A message is refused: it reaches no handler, or a handler that does not carry it out. Kind: D -/
def Refused (ws : Ws) (doc : Json) (s : Server) : Prop :=
  ∀ members h, doc = .obj members → messageRouter doc = .ok (some h) →
    carriesOut ws h members s = false

/-- A leave finds the room in the table, and nobody in it who could be told. Kind: D -/
def quietRoom (s : Server) (room : Str) : Prop :=
  room ∈ s.rooms ∧ ∀ u ∈ s.rooms.members room, s.clientDB[u]? = none

/-- A refused request that leaves no trace: it breaks no RapidJSON precondition; a leave names a
room that exists and has nobody registered in it; a file message with the fields it needs names a
room that exists. Kind: D -/
def Harmless (doc : Json) (s : Server) : Prop :=
  accessible doc = true ∧ ∀ members h, doc = .obj members → messageRouter doc = .ok (some h) →
    (h = .onLeave → ∀ room, namedRoom members = some room → s.quietRoom room) ∧
    (looksUp h = true → wellFormed h members = true → cstr (textOf members (str "room")) ∈ s.rooms)

/-! ## What comes of a refused request -/

variable {s : Server} {ws : Ws} {h : Handler} {members : List (Str × Json)} {peer room : Str}

/-- The room of a request that names one. Kind: L -/
theorem namedRoom_of_find (hroom : find? members (str "room") = some (.str room)) :
    namedRoom members = some (cstr room) := by
  unfold namedRoom
  rw [hroom]

/-- A request without a string `room` names none. Kind: L -/
theorem namedRoom_of_no_room (hroom : (find? members (str "room")).any isString = false) :
    namedRoom members = none := by
  unfold namedRoom
  split
  · rename_i hfind
    rw [hfind] at hroom
    exact (Bool.false_ne_true hroom.symm).elim
  · rfl

/-- The tables are the same when the rooms are. Kind: L -/
theorem with_rooms_eq_self {rooms : Rooms} : ({ s with rooms := rooms } : Server) = s ↔
    rooms = s.rooms := by
  constructor
  · exact fun h => congrArg Server.rooms h
  · rintro rfl
    rfl

/-- A repeated join changes nothing. Kind: L -/
theorem onJoin_of_member (hroom : find? members (str "room") = some (.str room))
    (hmem : ws.clientId ∈ s.rooms.members (cstr room)) :
    onJoin ws (.obj members) s = .ok (s, []) := by
  have htouch := Rooms.touch_eq_self_iff.mpr (Rooms.mem_of_mem_members hmem)
  rw [onJoin_of_room s hroom, WebRTC.join_of_mem _ _ _ hmem, htouch]

/-- The base class refuses the leave of a client that is not in the room. Kind: L -/
theorem webrtcLeave_of_not_mem (hmem : peer ∉ s.rooms.members room) :
    WebRTC.leave s.rooms peer room = (false, s.rooms) := by
  unfold WebRTC.leave
  split
  · rfl
  · rename_i peers hpeers
    have hsame : s.rooms.members room = peers := by
      unfold Rooms.members
      rw [hpeers]
      rfl
    rw [if_neg (hsame ▸ hmem)]

/-- A leave of a client that is not in the room is without effect exactly in a quiet room.
Kind: L -/
theorem leave_eq_self_iff (hmem : peer ∉ s.rooms.members room) :
    s.leave peer room = (s, []) ↔ s.quietRoom room := by
  have hsends : (s.leave peer room).2 = [] ↔
      ∀ u ∈ s.rooms.members room, s.clientDB[u]? = none := by
    unfold leave
    simp only [webrtcLeave_of_not_mem hmem, Rooms.members_touch, List.flatMap_eq_nil_iff,
      Std.ExtTreeSet.mem_toList]
    refine forall₂_congr fun u _ => ?_
    unfold sendLeaveNotification sendNotification
    cases s.clientDB[u]? with
    | none => exact iff_of_true rfl rfl
    | some k => exact iff_of_false (List.cons_ne_nil _ _) (Option.some_ne_none k)
  have htables : (s.leave peer room).1 = s ↔ room ∈ s.rooms := by
    unfold leave
    simp only [webrtcLeave_of_not_mem hmem]
    rw [with_rooms_eq_self, Rooms.touch_eq_self_iff]
  rw [Prod.ext_iff, htables, hsends]
  rfl

/-- A leave that is refused is without effect exactly if it names no room or a quiet one. Kind: L -/
theorem onLeave_eq_self_iff (hrefused : carriesOut ws .onLeave members s = false) :
    onLeave ws (.obj members) s = .ok (s, []) ↔
      ∀ room, namedRoom members = some room → s.quietRoom room := by
  cases hany : (find? members (str "room")).any isString with
  | false =>
      have hignored : onLeave ws (.obj members) s = .ok (s, []) := by
        unfold onLeave
        simp only [hasSuch_obj, ok_bind, hany]
        rfl
      refine iff_of_true hignored fun room hroom => ?_
      rw [namedRoom_of_no_room hany] at hroom
      exact (Option.some_ne_none _ hroom.symm).elim
  | true =>
      obtain ⟨room, hroom⟩ := exists_string_of_any hany
      have hnamed := namedRoom_of_find hroom
      have hmem : ws.clientId ∉ s.rooms.members (cstr room) := by
        intro hmem
        simp only [carriesOut, hnamed, Option.any_some, hmem, decide_true] at hrefused
        exact Bool.false_ne_true hrefused.symm
      rw [onLeave_of_room s hroom, Except.ok.injEq, leave_eq_self_iff hmem, hnamed]
      constructor
      · intro hquiet r hr
        exact Option.some.inj hr ▸ hquiet
      · exact fun hall => hall _ rfl

/-- A relay without a recipient is without effect exactly if its lookup creates no room. Kind: L -/
theorem handle_relay_eq_self_iff (hrelay : relays h = true)
    (hlogs : logsPeer h members = true → (find? members (str "peer")).any isString = true)
    (hnone : recipient cstr s ws.clientId h members = none) :
    handle h ws (.obj members) s = .ok (s, []) ↔
      (looksUp h = true → wellFormed h members = true →
        cstr (textOf members (str "room")) ∈ s.rooms) := by
  cases hwell : wellFormed h members with
  | false =>
      refine iff_of_true (handle_of_malformed hrelay hwell hlogs) fun _ hc => ?_
      exact (Bool.false_ne_true hc).elim
  | true =>
      rw [handle_of_wellFormed hwell, hnone, Except.ok.injEq, Prod.ext_iff]
      show (s.afterLookup h members = s ∧ [] = []) ↔ _
      simp only [and_true, true_implies]
      unfold afterLookup
      split
      · rename_i hlooks
        rw [with_rooms_eq_self, Rooms.touch_eq_self_iff]
        exact ⟨fun hroom _ => hroom, fun hroom => hroom hlooks⟩
      · rename_i hlooks
        exact iff_of_true rfl fun hc => (hlooks hc).elim

/-- A handler that does not carry a request out leaves no trace exactly in these cases. Kind: L -/
theorem handle_eq_self_iff (hrefused : carriesOut ws h members s = false)
    (hlogs : logsPeer h members = true → (find? members (str "peer")).any isString = true) :
    handle h ws (.obj members) s = .ok (s, []) ↔
      (h = .onLeave → ∀ room, namedRoom members = some room → s.quietRoom room) ∧
      (looksUp h = true → wellFormed h members = true →
        cstr (textOf members (str "room")) ∈ s.rooms) := by
  have hrelayed (hrelay : relays h = true) (hne : h ≠ .onLeave)
      (hnone : (recipient cstr s ws.clientId h members).isSome = false) :
      handle h ws (.obj members) s = .ok (s, []) ↔
        (h = .onLeave → ∀ room, namedRoom members = some room → s.quietRoom room) ∧
        (looksUp h = true → wellFormed h members = true →
          cstr (textOf members (str "room")) ∈ s.rooms) := by
    rw [Option.isSome_eq_false_iff, Option.isNone_iff_eq_none] at hnone
    rw [handle_relay_eq_self_iff hrelay hlogs hnone]
    exact ⟨fun hlook => ⟨fun hc => (hne hc).elim, hlook⟩, fun hall => hall.2⟩
  cases h with
  | onJoin =>
      refine iff_of_true ?_ ⟨fun hc => Handler.noConfusion hc, fun hc => ?_⟩
      · cases hany : (find? members (str "room")).any isString with
        | false => exact onJoin_of_no_room s hany
        | true =>
            obtain ⟨room, hroom⟩ := exists_string_of_any hany
            refine onJoin_of_member hroom ?_
            simpa only [carriesOut, namedRoom_of_find hroom, Option.any_some,
              decide_eq_false_iff_not, not_not] using hrefused
      · exact (Bool.false_ne_true hc).elim
  | onLeave =>
      show onLeave ws (.obj members) s = .ok (s, []) ↔ _
      rw [onLeave_eq_self_iff hrefused]
      constructor
      · exact fun hquiet => ⟨fun _ => hquiet, fun hc => (Bool.false_ne_true hc).elim⟩
      · exact fun hall => hall.1 rfl
  | onPingPong => exact (Bool.false_ne_true hrefused.symm).elim
  | onFileAccept => exact hrelayed rfl Handler.noConfusion hrefused
  | onFileReject => exact hrelayed rfl Handler.noConfusion hrefused
  | onOffer => exact hrelayed rfl Handler.noConfusion hrefused
  | onAnswer => exact hrelayed rfl Handler.noConfusion hrefused
  | onCandidate => exact hrelayed rfl Handler.noConfusion hrefused
  | onFileOffer => exact hrelayed rfl Handler.noConfusion hrefused
  | onFileComplete => exact hrelayed rfl Handler.noConfusion hrefused

/-- **Refused requests**: for every state and every message that the server does not carry out, the
tables are as before (the set of rooms included) and nothing is sent, exactly if the message is
harmless. Kind: P -/
theorem refused_iff_harmless (ws : Ws) (doc : Json) (s : Server) (hrefused : Refused ws doc s) :
    onMessage ws doc s = .ok (s, []) ↔ Harmless doc s := by
  by_cases haccess : accessible doc = true
  · have hdrop : Harmless doc s ↔ ∀ members h, doc = .obj members →
        messageRouter doc = .ok (some h) →
        (h = .onLeave → ∀ room, namedRoom members = some room → s.quietRoom room) ∧
        (looksUp h = true → wellFormed h members = true →
          cstr (textOf members (str "room")) ∈ s.rooms) :=
      and_iff_right haccess
    rw [hdrop]
    cases doc with
    | obj members =>
        obtain ⟨route, hroute⟩ := safe_messageRouter members
        cases route with
        | none =>
            refine iff_of_true ?_ fun _ h _ hc => ?_
            · unfold onMessage
              rw [hroute, ok_bind]
              rfl
            · rw [hroute, Except.ok.injEq] at hc
              exact (Option.some_ne_none h hc.symm).elim
        | some h =>
            have hlogs : logsPeer h members = true →
                (find? members (str "peer")).any isString = true := by
              intro hl
              simpa only [accessible, hroute, hl, Bool.not_true, Bool.false_or] using haccess
            have hhandle : onMessage ws (.obj members) s = handle h ws (.obj members) s := by
              unfold onMessage
              rw [hroute, ok_bind]
            rw [hhandle, handle_eq_self_iff (hrefused members h rfl hroute) hlogs]
            constructor
            · intro hharm members' h' hobj hroute'
              obtain rfl := Json.obj.inj hobj
              obtain rfl := Option.some.inj (Except.ok.inj (hroute.symm.trans hroute'))
              exact hharm
            · exact fun hall => hall members h rfl hroute
    | _ => exact (Bool.false_ne_true haccess).elim
  · refine iff_of_false (fun hok => haccess ?_) fun hharm => haccess hharm.1
    exact (safe_onMessage_iff ws doc s).mp ⟨_, hok⟩

/-- A routed message is refused if its handler does not carry it out. Kind: L -/
theorem refused_of_route (hroute : messageRouter (.obj members) = .ok (some h))
    (hrefused : carriesOut ws h members s = false) : Refused ws (.obj members) s := by
  intro members' h' hobj hroute'
  obtain rfl := Json.obj.inj hobj
  obtain rfl := Option.some.inj (Except.ok.inj (hroute.symm.trans hroute'))
  exact hrefused

/-- Client `a` in room `r`. Kind: D -/
def aloneInRoom : Server where
  rooms := (∅ : Rooms).insert (str "r") ((∅ : Peers).insert (str "a"))
  clientDB := (∅ : Std.ExtTreeMap Str Socket).insert (str "a") 1

/-- A request about room `r`. Kind: D -/
def aboutRoom (type : Str) : List (Str × Json) :=
  [(str "type", .str type), (str "room", .str (str "r"))]

/-- The exact condition at a repeated join. Kind: L -/
theorem refused_iff_harmless_rejoin :
    onMessage ⟨1, str "a"⟩ (.obj (aboutRoom (str "join"))) aloneInRoom = .ok (aloneInRoom, []) ↔
      Harmless (.obj (aboutRoom (str "join"))) aloneInRoom :=
  refused_iff_harmless ⟨1, str "a"⟩ (.obj (aboutRoom (str "join"))) aloneInRoom
    (refused_of_route (h := .onJoin) (by decide +kernel) (by decide +kernel))

/-- A client that is in no room makes the server tell `a` that it left. Kind: P -/
theorem stranger_leaves : ¬ ∀ (ws : Ws) (doc : Json) (s : Server), Refused ws doc s →
    onMessage ws doc s = .ok (s, []) := by
  intro hall
  have hrefused : Refused ⟨2, str "m"⟩ (.obj (aboutRoom (str "leave"))) aloneInRoom :=
    refused_of_route (h := .onLeave) (by decide +kernel) (by decide +kernel)
  have hsends : (onMessage ⟨2, str "m"⟩ (.obj (aboutRoom (str "leave")))
      aloneInRoom).toOption.any (fun out => !out.2.isEmpty) = true := by decide +kernel
  rw [hall _ _ _ hrefused] at hsends
  simp only [Except.toOption, Option.any_some, List.isEmpty_nil, Bool.not_true,
    Bool.false_eq_true] at hsends

end Server

end CloudNode
