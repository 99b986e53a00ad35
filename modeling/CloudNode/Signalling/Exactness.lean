import CloudNode.Signalling.Decisions

/-!
# Relay exactness

A relayed document is the received one with the sender's id in its first `peer` member, and it goes
to the client that member named. The handlers read `peer` and `room` with `GetString()`, which
drops what follows a NUL, while they write `peer` with its length; so a document that names a
client no one has, `b` and a NUL and more, goes to client `b`.

* `Readdressed` — one document is another with its first `peer` replaced.
* `Exact` — what the server should do with a relay message.
* `exact_iff_uncut` — it does, for every state and document, exactly where reading the two names
  up to their first NUL comes to the same recipient as reading them whole.
-/

namespace CloudNode

namespace Server

open Json

/-- A document with the value of its first `peer` member replaced by an id. Kind: D -/
def Readdressed (from_ : Str) (members members' : List (Str × Json)) : Prop :=
  ∃ before value after, members = before ++ (str "peer", value) :: after ∧
    (∀ m ∈ before, m.1 ≠ str "peer") ∧ members' = before ++ (str "peer", .str from_) :: after

/-- What a relay message should come to, in terms of its whole `peer` and `room`: at most one
message, to the socket of the client that `peer` names; for the types that test the room, one
exactly if the fields are there, both clients are in the room and the recipient is registered; and
no registration and no membership changes. Kind: D -/
structure Exact (ws : Ws) (h : Handler) (members : List (Str × Json)) (s : Server)
    (out : Server × List Send) : Prop where
  registrations : out.1.clientDB = s.clientDB
  memberships : ∀ room, out.1.rooms.members room = s.rooms.members room
  sent : out.2 = [] ∨ ∃ k addressee members', Readdressed ws.clientId members members' ∧
    s.clientDB[textOf members (str "peer")]? = some k ∧
      out.2 = [⟨k, addressee, .document (.obj members')⟩]
  decided : checksRoom h = true → (out.2 ≠ [] ↔ wellFormed h members = true ∧
    ws.clientId ∈ s.rooms.members (textOf members (str "room")) ∧
    textOf members (str "peer") ∈ s.rooms.members (textOf members (str "room")) ∧
    (s.clientDB[textOf members (str "peer")]?).isSome = true)

/-- Reading `peer` and `room` up to their first NUL comes to the same recipient as reading them
whole, or to none for the types that test no room. Kind: D -/
def Uncut (ws : Ws) (h : Handler) (members : List (Str × Json)) (s : Server) : Prop :=
  recipient cstr s ws.clientId h members = recipient id s ws.clientId h members ∨
    (checksRoom h = false ∧ recipient cstr s ws.clientId h members = none)

/-! ## What comes of a relay -/

variable {s : Server} {ws : Ws} {h : Handler} {members : List (Str × Json)} {k : Socket}

/-- Replacing the first member of a name leaves the rest of the document. Kind: L -/
theorem readdressed_setFirst {v : Json} (hpeer : find? members (str "peer") = some v) (from_ : Str) :
    Readdressed from_ members (setFirst (str "peer") (.str from_) members) := by
  induction members with
  | nil => exact (Option.some_ne_none _ hpeer.symm).elim
  | cons m members ih =>
      obtain ⟨name, w⟩ := m
      unfold setFirst
      by_cases hname : name = str "peer"
      · rw [if_pos hname, hname]
        exact ⟨[], w, members, rfl, fun _ hm => (List.not_mem_nil hm).elim, rfl⟩
      · rw [if_neg hname]
        rw [find?, if_neg hname] at hpeer
        obtain ⟨before, value, after, hmembers, hbefore, hset⟩ := ih hpeer
        refine ⟨(name, w) :: before, value, after, by rw [hmembers]; rfl, ?_, by rw [hset]; rfl⟩
        intro m hm
        obtain rfl | hm := List.mem_cons.mp hm
        · exact hname
        · exact hbefore m hm

/-- A lookup that creates a room registers nobody and changes no membership. Kind: L -/
theorem afterLookup_same : (s.afterLookup h members).clientDB = s.clientDB ∧
    ∀ room, (s.afterLookup h members).rooms.members room = s.rooms.members room := by
  unfold afterLookup
  split
  · exact ⟨rfl, fun room => Rooms.members_touch _ _ _⟩
  · exact ⟨rfl, fun _ => rfl⟩

/-- A relay with a string `peer` goes to its recipient, if there is one. Kind: L -/
theorem onMessage_of_relay (s : Server) (ws : Ws)
    (hroute : messageRouter (.obj members) = .ok (some h))
    (hrelay : relays h = true) (hpeer : (find? members (str "peer")).any isString = true) :
    ∃ s', onMessage ws (.obj members) s =
        .ok (s', (recipient cstr s ws.clientId h members).toList.map (relayed ws.clientId members)) ∧
      s'.clientDB = s.clientDB ∧ ∀ room, s'.rooms.members room = s.rooms.members room := by
  have hhandle : onMessage ws (.obj members) s = handle h ws (.obj members) s := by
    unfold onMessage
    rw [hroute, ok_bind]
  rw [hhandle]
  cases hwell : wellFormed h members with
  | true => exact ⟨_, handle_of_wellFormed hwell, afterLookup_same⟩
  | false =>
      refine ⟨s, ?_, rfl, fun _ => rfl⟩
      rw [handle_of_malformed hrelay hwell fun _ => hpeer, recipient_of_malformed hwell]
      rfl

/-- The recipient of a document whose names are read whole, for the types that test the room.
Kind: L -/
theorem recipient_id_isSome (hcheck : checksRoom h = true) :
    (recipient id s ws.clientId h members).isSome = true ↔ wellFormed h members = true ∧
      ws.clientId ∈ s.rooms.members (textOf members (str "room")) ∧
      textOf members (str "peer") ∈ s.rooms.members (textOf members (str "room")) ∧
      (s.clientDB[textOf members (str "peer")]?).isSome = true := by
  cases hwell : wellFormed h members with
  | false =>
      rw [recipient_of_malformed hwell]
      simp only [Option.isSome_none, Bool.false_eq_true, false_and]
  | true =>
      rw [recipient_of_checked hwell hcheck]
      simp only [id_eq]
      by_cases hin : s.bothIn ws.clientId (textOf members (str "peer"))
          (textOf members (str "room")) = true
      · rw [if_pos hin]
        obtain ⟨hfrom, hto⟩ := bothIn_eq_true.mp hin
        simp only [hfrom, hto, true_and]
      · rw [if_neg hin]
        simp only [Option.isSome_none, Bool.false_eq_true, true_and, false_iff]
        rintro ⟨hfrom, hto, -⟩
        exact hin (bothIn_eq_true.mpr ⟨hfrom, hto⟩)

/-- A recipient is the client's registered socket. Kind: L -/
theorem registered_of_recipient {read : Str → Str}
    (hk : recipient read s ws.clientId h members = some k) :
    s.clientDB[read (textOf members (str "peer"))]? = some k := by
  unfold recipient at hk
  split at hk
  · exact hk
  · exact (Option.some_ne_none _ hk.symm).elim

/-- Of a type that tests no room, a document that is relayed at all goes to whoever is registered.
Kind: L -/
theorem recipient_id_of_unchecked (hcheck : checksRoom h = false)
    (hk : recipient cstr s ws.clientId h members = some k) :
    recipient id s ws.clientId h members = s.clientDB[textOf members (str "peer")]? := by
  cases hwell : wellFormed h members with
  | true => exact recipient_of_unchecked hwell hcheck
  | false =>
      rw [recipient_of_malformed hwell] at hk
      exact (Option.some_ne_none _ hk.symm).elim

/-! ## When it is what it should be -/

/-- **Relay exactness**: for every server state, sender and document of a relay type with a string
`peer`, what the server does is what it should be exactly where reading `peer` and `room` up to
their first NUL makes no difference to the recipient. Kind: P -/
theorem exact_iff_uncut (s : Server) (ws : Ws)
    (hroute : messageRouter (.obj members) = .ok (some h)) (hrelay : relays h = true)
    (hpeer : (find? members (str "peer")).any isString = true) :
    (∃ out, onMessage ws (.obj members) s = .ok out ∧ Exact ws h members s out) ↔
      Uncut ws h members s := by
  obtain ⟨s', hout, hdb, hrooms⟩ := onMessage_of_relay s ws hroute hrelay hpeer
  rw [hout]
  cases hcut : recipient cstr s ws.clientId h members with
  | none =>
      constructor
      · rintro ⟨out, heq, hexact⟩
        obtain rfl := Except.ok.inj heq
        cases hcheck : checksRoom h with
        | false => exact .inr ⟨hcheck, hcut⟩
        | true =>
            refine .inl ?_
            cases hwhole : recipient id s ws.clientId h members with
            | none => exact hcut
            | some k =>
                have hsome := (recipient_id_isSome hcheck).mp (congrArg Option.isSome hwhole)
                exact ((hexact.decided hcheck).mpr hsome rfl).elim
      · intro huncut
        refine ⟨_, rfl, hdb, hrooms, .inl rfl, fun hcheck => ?_⟩
        rw [← recipient_id_isSome hcheck]
        obtain heq | ⟨hno, -⟩ := huncut
        · rw [← heq, hcut]
          exact ⟨fun hne => (hne rfl).elim, fun hs => (Bool.false_ne_true hs).elim⟩
        · exact (Bool.false_ne_true (hno.symm.trans hcheck)).elim
  | some k =>
      constructor
      · rintro ⟨out, heq, hexact⟩
        obtain rfl := Except.ok.inj heq
        have hwhole : s.clientDB[textOf members (str "peer")]? = some k := by
          obtain hnil | ⟨j, _, _, -, hj, hsends⟩ := hexact.sent
          · exact (List.cons_ne_nil _ _ hnil).elim
          · have hjk : k = j := congrArg Send.target (List.cons.inj hsends).1
            rw [hj, hjk]
        refine .inl (hcut.trans ?_)
        cases hcheck : checksRoom h with
        | false => rw [recipient_id_of_unchecked hcheck hcut, hwhole]
        | true =>
            have hsome := (recipient_id_isSome hcheck).mpr
              ((hexact.decided hcheck).mp (List.cons_ne_nil _ _))
            obtain ⟨j, hj⟩ := Option.isSome_iff_exists.mp hsome
            rw [hj, ← hwhole]
            have hregistered := registered_of_recipient hj
            rwa [id_eq] at hregistered
      · intro huncut
        obtain heq | ⟨-, hnone⟩ := huncut
        · have hid : recipient id s ws.clientId h members = some k := heq.symm.trans hcut
          refine ⟨_, rfl, hdb, hrooms, .inr ⟨k, _, _, ?_, registered_of_recipient hid, rfl⟩, ?_⟩
          · exact readdressed_setFirst (find?_of_any hpeer) ws.clientId
          · intro hcheck
            rw [← recipient_id_isSome hcheck, hid]
            exact ⟨fun _ => rfl, fun _ => List.cons_ne_nil _ _⟩
        · exact (Option.some_ne_none _ (hcut.symm.trans hnone)).elim

/-- Clients `a` and `b` in room `r`. Kind: D -/
def twoInRoom : Server where
  rooms := (∅ : Rooms).insert (str "r") (((∅ : Peers).insert (str "a")).insert (str "b"))
  clientDB := ((∅ : Std.ExtTreeMap Str Socket).insert (str "a") 1).insert (str "b") 2

/-- A file is complete, says `a` to a client of the room. Kind: D -/
def completeFor (peer : Str) : List (Str × Json) :=
  [(str "type", .str (str "file_complete")), (str "peer", .str peer), (str "room", .str (str "r"))]

/-- The exact condition at a message from `a` to `b`. Kind: L -/
theorem exact_iff_uncut_members :
    (∃ out, onMessage ⟨1, str "a"⟩ (.obj (completeFor (str "b"))) twoInRoom = .ok out ∧
      Exact ⟨1, str "a"⟩ .onFileComplete (completeFor (str "b")) twoInRoom out) ↔
      Uncut ⟨1, str "a"⟩ .onFileComplete (completeFor (str "b")) twoInRoom :=
  exact_iff_uncut twoInRoom ⟨1, str "a"⟩ (by decide +kernel) rfl (by decide +kernel)

/-- A message for `b` and a NUL and more, which is nobody's id, is relayed to `b`. Kind: P -/
theorem sent_past_nul : ¬ ∃ out,
    onMessage ⟨1, str "a"⟩ (.obj (completeFor (str "b" ++ 0 :: str "x"))) twoInRoom = .ok out ∧
      Exact ⟨1, str "a"⟩ .onFileComplete (completeFor (str "b" ++ 0 :: str "x")) twoInRoom out := by
  rintro ⟨out, hout, hexact⟩
  have hsome : (onMessage ⟨1, str "a"⟩ (.obj (completeFor (str "b" ++ 0 :: str "x")))
      twoInRoom).toOption.any (fun out => !out.2.isEmpty) = true := by decide +kernel
  rw [hout] at hsome
  have hnone : twoInRoom.clientDB[textOf (completeFor (str "b" ++ 0 :: str "x")) (str "peer")]? =
      none := by decide +kernel
  obtain hnil | ⟨k, _, _, -, hk, -⟩ := hexact.sent
  · simp only [Except.toOption, Option.any_some, hnil, List.isEmpty_nil, Bool.not_true,
      Bool.false_eq_true] at hsome
  · rw [hnone] at hk
    exact Option.some_ne_none _ hk.symm

end Server

end CloudNode
