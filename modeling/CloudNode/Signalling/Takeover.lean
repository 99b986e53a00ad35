import CloudNode.Signalling.World

/-!
# Session takeover

A reconnecting client opens its new socket with the id of the old one, often before the server has
seen the old one close. `Sessions` is the server's world with two histories beside it: the newest
socket of each id, and the joins that stand, a join standing from when it was processed until its
client leaves the room on the same socket or that socket closes.

* `Served` — whoever has a standing join on its newest socket is in the room, is registered with
  that socket, and was told of the room's roster on it.
* `Undisturbed` — the step does nothing to a standing join from an older socket, and no join from
  a newest socket finds its client in the room already.
* `served_iff_undisturbed` — `Served` holds throughout exactly the runs whose steps are all
  `Undisturbed`. The others exist: `Join` refuses a client that its old socket left in the room,
  and the old socket's close evicts by id.
-/

namespace CloudNode

/-- The server's world, the newest socket of each id, and the standing joins. Kind: D -/
structure Sessions where
  world : World := {}
  newest : Std.ExtTreeMap Str Socket := ∅
  standing : List (Socket × Str) := []

namespace Sessions

open Server World

/-- The standing joins after a join on the socket, `none` for no join. Kind: D -/
def withJoin (k : Socket) : Option Str → List (Socket × Str) → List (Socket × Str)
  | none, standing => standing
  | some room, standing => (k, room) :: standing

/-- The standing joins after a leave on the socket, `none` for no leave. Kind: D -/
def withoutLeave (k : Socket) : Option Str → List (Socket × Str) → List (Socket × Str)
  | none, standing => standing
  | some room, standing => standing.filter (· ≠ (k, room))

/-- The standing joins after an event. Kind: D -/
def standingAfter (standing : List (Socket × Str)) : Event → List (Socket × Str)
  | .opened _ _ => standing
  | .message k doc =>
    withJoin k (roomOf .onJoin doc) (withoutLeave k (roomOf .onLeave doc) standing)
  | .closed k => standing.filter (·.1 ≠ k)

/-- The newest socket of each id after an event. Kind: D -/
def newestAfter (newest : Std.ExtTreeMap Str Socket) : Event → Std.ExtTreeMap Str Socket
  | .opened k id => newest.insert id k
  | _ => newest

/-- One turn of the event loop, with the histories kept. Kind: D -/
def step (t : Sessions) (e : Event) : Option Sessions :=
  (t.world.step e).map fun w => ⟨w, newestAfter t.newest e, standingAfter t.standing e⟩

/-- The client's newest socket has a standing join of the room. Kind: D -/
def Holds (t : Sessions) (peer : Str) (k : Socket) (room : Str) : Prop :=
  t.newest[peer]? = some k ∧ (k, room) ∈ t.standing

/-- A `peer_joined` for the room was sent to the socket. Kind: D -/
def Told (w : World) (k : Socket) (room : Str) : Prop :=
  ∃ r ∈ w.sent, r.send.target = k ∧
    ∃ whose peers, r.send.message = .document (rosterDocument (str "peer_joined") whose room peers)

/-- What a standing join on a newest socket is worth. Kind: D -/
def Served (t : Sessions) : Prop :=
  ∀ peer k room, t.Holds peer k room → peer ∈ t.world.server.rooms.members room ∧
    t.world.server.clientDB[peer]? = some k ∧ Told t.world k room

/-- The step leaves alone what standing joins are worth: a join on a newest socket finds its
client outside the room (or already served); a join on an older socket, if it is not refused, and
a leave or a close of an older socket find no standing join in their way. Kind: D -/
def Undisturbed (t : Sessions) : Event → Prop
  | .opened _ _ => True
  | .message k doc => ∀ ws, t.world.websocket k = some ws →
    (∀ room, roomOf .onJoin doc = some room →
      (t.newest[ws.clientId]? = some k → ws.clientId ∉ t.world.server.rooms.members room ∨
        (t.world.server.clientDB[ws.clientId]? = some k ∧ Told t.world k room)) ∧
      (t.newest[ws.clientId]? ≠ some k → ws.clientId ∈ t.world.server.rooms.members room ∨
        ∀ j r, ¬ t.Holds ws.clientId j r)) ∧
    (∀ room, roomOf .onLeave doc = some room → t.newest[ws.clientId]? ≠ some k →
      ∀ j, ¬ t.Holds ws.clientId j room)
  | .closed k => ∀ ws, t.world.websocket k = some ws → t.newest[ws.clientId]? ≠ some k →
    ∀ j r, ¬ t.Holds ws.clientId j r

/-! ## The histories -/

variable {t t' : Sessions} {e : Event}

/-- A step of the sessions is a step of the world. Kind: L -/
theorem step_eq_some : t.step e = some t' ↔ ∃ w, t.world.step e = some w ∧
    t' = ⟨w, newestAfter t.newest e, standingAfter t.standing e⟩ := by
  unfold step
  rw [Option.map_eq_some_iff]
  simp only [eq_comm]

/-- What every run keeps: the world's invariant, and that the histories are about the sockets that
carry the ids. Kind: D -/
structure Kept (t : Sessions) : Prop where
  world : t.world.Invariant
  newest : ∀ (peer : Str) (k : Socket), t.newest[peer]? = some k → t.world.ids[k]? = some peer
  standing : ∀ (k : Socket) (room : Str), (k, room) ∈ t.standing →
    ∃ id : Str, t.world.ids[k]? = some id

/-- At first nothing stands. Kind: L -/
theorem kept_init : Kept {} where
  world := inv_init
  newest := by intro peer k hk; simp at hk
  standing := by intro k room hk; cases hk

/-- The joins that stand after a message: those from before, and the one it asks for. Kind: L -/
theorem mem_standingAfter_message {standing : List (Socket × Str)} {k j : Socket} {doc : Json}
    {room : Str} : (j, room) ∈ standingAfter standing (.message k doc) ↔
      (j = k ∧ roomOf .onJoin doc = some room) ∨
        ((j, room) ∈ standing ∧ ¬ (j = k ∧ roomOf .onLeave doc = some room)) := by
  have hleft : ∀ left : Option Str, (j, room) ∈ withoutLeave k left standing ↔
      (j, room) ∈ standing ∧ ¬ (j = k ∧ left = some room) := by
    intro left
    cases left with
    | none => simp [withoutLeave]
    | some left =>
        unfold withoutLeave
        rw [List.mem_filter, decide_eq_true_eq, ne_eq, Prod.mk.injEq, Option.some.injEq,
          eq_comm (a := room)]
  rw [← hleft]
  show (j, room) ∈ withJoin k (roomOf .onJoin doc) _ ↔ _
  cases roomOf .onJoin doc with
  | none => simp [withJoin]
  | some joined =>
      unfold withJoin
      rw [List.mem_cons, Prod.mk.injEq, Option.some.injEq, eq_comm (a := room)]

/-- Every step keeps the invariant. Kind: L -/
theorem kept_step (h : Kept t) (hstep : t.step e = some t') : Kept t' := by
  obtain ⟨w, hw, rfl⟩ := step_eq_some.mp hstep
  have hI := inv_step h.world hw
  cases e with
  | opened k id =>
      obtain ⟨⟨hfresh, -⟩, rfl⟩ := step_opened.mp hw
      have hids : ∀ (j : Socket) (v : Str), t.world.ids[j]? = some v →
          (t.world.ids.insert k id)[j]? = some v := by
        intro j v hj
        rw [getElem?_insert_ne]
        · exact hj
        · rintro rfl
          rw [hfresh] at hj
          cases hj
      refine ⟨hI, ?_, ?_⟩
      · intro peer j hj
        simp only [newestAfter] at hj
        rw [getElem?_insert_eq] at hj
        split at hj
        · rename_i heq
          cases hj
          subst heq
          exact getElem?_insert_same _ _ _
        · exact hids j peer (h.newest peer j hj)
      · intro j room hj
        obtain ⟨v, hv⟩ := h.standing j room hj
        exact ⟨v, hids j v hv⟩
  | message k doc =>
      obtain ⟨ws, out, hws, -, rfl⟩ := step_message.mp hw
      refine ⟨hI, h.newest, ?_⟩
      intro j room hj
      obtain ⟨rfl, -⟩ | ⟨hj, -⟩ := mem_standingAfter_message.mp hj
      · exact ⟨_, (websocket_eq_some.mp hws).2.1⟩
      · exact h.standing j room hj
  | closed k =>
      obtain ⟨ws, -, rfl⟩ := step_closed.mp hw
      exact ⟨hI, h.newest, fun j room hj => h.standing j room (List.mem_of_mem_filter hj)⟩

/-- A socket is the newest of no id but its own. Kind: L -/
theorem newest_of_id (h : Kept t) {k : Socket} {peer id : Str} (hid : t.world.ids[k]? = some id)
    (hnewest : t.newest[peer]? = some k) : peer = id :=
  Option.some.inj ((h.newest peer k hnewest).symm.trans hid)

/-! ## Undisturbed steps -/

/-- What was told stays told. Kind: L -/
theorem told_settle {w : World} {out : Server × List Send} {k : Socket} {room : Str}
    (h : Told w k room) : Told (w.settle out) k room := by
  obtain ⟨r, hr, hrest⟩ := h
  exact ⟨r, List.mem_append_left _ hr, hrest⟩

/-- Whoever joins a room is told on the socket it joined on. Kind: L -/
theorem told_of_joined {w : World} {ws : Ws} {room : Str} {s' : Server}
    (hsocket : s'.clientDB[ws.clientId]? = some ws.socket)
    (hmem : ws.clientId ∈ s'.rooms.members room) :
    Told (w.settle (s', (s'.rooms.members room).toList.flatMap fun u =>
      s'.sendJoinNotification u ws.clientId room (s'.rooms.members room))) ws.socket room := by
  let m : Send := ⟨ws.socket, ws.clientId,
    .document (rosterDocument (str "peer_joined") ws.clientId room (s'.rooms.members room))⟩
  refine ⟨w.record m, List.mem_append_right _ (List.mem_map_of_mem ?_), rfl, _, _, rfl⟩
  rw [List.mem_flatMap]
  exact ⟨ws.clientId, Std.ExtTreeSet.mem_toList.mpr hmem, mem_sendNotification.mpr ⟨hsocket, rfl, rfl⟩⟩

/-- Leaving a room keeps a client in every other room. Kind: L -/
theorem mem_leave_of_ne {s : Server} {peer q room r : Str} (hq : q ∈ s.rooms.members r)
    (hne : ¬ (q = peer ∧ r = room)) : q ∈ (s.leave peer room).1.rooms.members r :=
  (mem_members_leave _ _ _).mpr ⟨hq, fun hc => hne ⟨hc.2, hc.1.symm⟩⟩

section message

variable {doc : Json} {ws : Ws} {out : Server × List Send} {peer room : Str} {j : Socket}

/-- A join on a newest socket is worth what it should be, if its client was outside the room or
served already. Kind: L -/
theorem served_of_join (hresult : MessageResult ws doc t.world.server out)
    (hroom : roomOf .onJoin doc = some room)
    (hclear : ws.clientId ∉ t.world.server.rooms.members room ∨
      (t.world.server.clientDB[ws.clientId]? = some ws.socket ∧ Told t.world ws.socket room)) :
    ws.clientId ∈ out.1.rooms.members room ∧ out.1.clientDB[ws.clientId]? = some ws.socket ∧
      Told (t.world.settle out) ws.socket room := by
  cases hresult with
  | join hjoin _ hresult =>
      cases hjoin.symm.trans hroom
      cases hresult with
      | refused hmem hdb hrooms =>
          obtain hnot | ⟨hsocket, htold⟩ := hclear
          · exact (hnot hmem).elim
          · exact ⟨(hrooms room).symm ▸ hmem, hdb.symm ▸ hsocket, told_settle htold⟩
      | @joined s' hnew hdb hrooms =>
          have hmem : ws.clientId ∈ s'.rooms.members room := by
            rw [hrooms, if_pos rfl]
            exact (mem_insert_iff _ _ _).mpr (.inl rfl)
          have hsocket : s'.clientDB[ws.clientId]? = some ws.socket := by
            rw [hdb, getElem?_insert_same]
          exact ⟨hmem, hsocket, told_of_joined hsocket hmem⟩
  | ignored hjoin => cases hjoin.symm.trans hroom
  | leave hjoin => cases hjoin.symm.trans hroom
  | relay hjoin => cases hjoin.symm.trans hroom
  | pong hjoin => cases hjoin.symm.trans hroom

/-- An undisturbed message leaves alone what another standing join is worth. Kind: L -/
theorem served_of_stood (hresult : MessageResult ws doc t.world.server out)
    (hC : ∀ room, roomOf .onJoin doc = some room → t.newest[ws.clientId]? ≠ some ws.socket →
      ws.clientId ∈ t.world.server.rooms.members room ∨ ∀ j r, ¬ t.Holds ws.clientId j r)
    (hL : ∀ room, roomOf .onLeave doc = some room → t.newest[ws.clientId]? ≠ some ws.socket →
      ∀ j, ¬ t.Holds ws.clientId j room)
    (hholds : t.Holds peer j room) (hleft : ¬ (j = ws.socket ∧ roomOf .onLeave doc = some room))
    (hmem : peer ∈ t.world.server.rooms.members room)
    (hsocket : t.world.server.clientDB[peer]? = some j) :
    peer ∈ out.1.rooms.members room ∧ out.1.clientDB[peer]? = some j := by
  cases hresult with
  | ignored => exact ⟨hmem, hsocket⟩
  | pong => exact ⟨hmem, hsocket⟩
  | relay _ _ _ _ _ _ hresult =>
      cases hresult with
      | refused hdb hrooms => exact ⟨(hrooms room).symm ▸ hmem, hdb.symm ▸ hsocket⟩
      | sent hdb hrooms => exact ⟨(hrooms room).symm ▸ hmem, hdb.symm ▸ hsocket⟩
  | @leave left _ hleave =>
      refine ⟨mem_leave_of_ne hmem ?_, hsocket⟩
      rintro ⟨rfl, rfl⟩
      by_cases hj : j = ws.socket
      · exact hleft ⟨hj, hleave⟩
      · refine hL room hleave ?_ j hholds
        rw [hholds.1]
        exact fun heq => hj (Option.some.inj heq)
  | @join joined _ hjoin _ hresult =>
      cases hresult with
      | refused _ hdb hrooms => exact ⟨(hrooms room).symm ▸ hmem, hdb.symm ▸ hsocket⟩
      | joined hnew hdb hrooms =>
          constructor
          · rw [hrooms]
            split
            · rename_i heq
              exact (mem_insert_iff _ _ _).mpr (.inr (heq ▸ hmem))
            · exact hmem
          · rw [hdb]
            by_cases hpeer : ws.clientId = peer
            · subst hpeer
              rw [getElem?_insert_same]
              by_contra hj
              -- the join came on an older socket and took the registration away
              have hold : t.newest[ws.clientId]? ≠ some ws.socket := by
                rw [hholds.1]
                exact fun heq => hj heq.symm
              obtain hin | hnone := hC joined hjoin hold
              · exact hnew hin
              · exact hnone j room hholds
            · rw [getElem?_insert_ne _ _ hpeer]
              exact hsocket

end message

/-- An undisturbed step keeps what standing joins are worth. Kind: L -/
theorem served_step (hK : Kept t) (hS : t.Served) (hC : t.Undisturbed e)
    (hstep : t.step e = some t') : t'.Served := by
  obtain ⟨w, hw, rfl⟩ := step_eq_some.mp hstep
  cases e with
  | opened k id =>
      obtain ⟨⟨hfresh, -⟩, rfl⟩ := step_opened.mp hw
      rintro peer j room ⟨hnewest, hstands⟩
      simp only [newestAfter] at hnewest
      rw [getElem?_insert_eq] at hnewest
      split at hnewest
      · -- nothing was joined on the socket that just opened
        cases hnewest
        obtain ⟨v, hv⟩ := hK.standing k room hstands
        rw [hfresh] at hv
        cases hv
      · exact hS peer j room ⟨hnewest, hstands⟩
  | message k doc =>
      obtain ⟨ws, out, hws, hout, rfl⟩ := step_message.mp hw
      have hresult := onMessage_result hout
      obtain ⟨hjoins, hleaves⟩ : _ ∧ _ := hC ws hws
      obtain ⟨-, hid, rfl⟩ := websocket_eq_some.mp hws
      rintro peer j room ⟨hnewest, hstands⟩
      obtain ⟨rfl, hroom⟩ | ⟨hstood, hleft⟩ := mem_standingAfter_message.mp hstands
      · cases newest_of_id hK hid hnewest
        exact served_of_join hresult hroom ((hjoins room hroom).1 hnewest)
      · obtain ⟨hmem, hsocket, htold⟩ := hS peer j room ⟨hnewest, hstood⟩
        obtain ⟨hmem', hsocket'⟩ := served_of_stood hresult (fun r hr => (hjoins r hr).2) hleaves
          ⟨hnewest, hstood⟩ hleft hmem hsocket
        exact ⟨hmem', hsocket', told_settle htold⟩
  | closed k =>
      obtain ⟨ws, hws, rfl⟩ := step_closed.mp hw
      rintro peer j room ⟨(hnewest : t.newest[peer]? = some j), hstands⟩
      obtain ⟨hstood, hne⟩ := List.mem_filter.mp hstands
      obtain ⟨hmem, hsocket, htold⟩ := hS peer j room ⟨hnewest, hstood⟩
      refine ⟨(mem_members_onMessageClose _).mpr ⟨hmem, ?_⟩, ?_, told_settle htold⟩
      · rintro rfl
        -- the closing socket is an older one of a client with a standing join
        refine hC ws hws ?_ j room ⟨hnewest, hstood⟩
        rw [hnewest]
        intro heq
        simp [Option.some.inj heq] at hne
      · exact (onMessageClose_clientDB _ ws).symm ▸ hsocket

/-- A standing join of a client's newest socket survives a message on an older one. Kind: L -/
theorem holds_of_older {w : World} {k j : Socket} {doc : Json} {peer room : Str}
    (hholds : t.Holds peer j room) (hold : t.newest[peer]? ≠ some k) :
    Holds ⟨w, t.newest, standingAfter t.standing (.message k doc)⟩ peer j room := by
  refine ⟨hholds.1, mem_standingAfter_message.mpr (.inr ⟨hholds.2, ?_⟩)⟩
  rintro ⟨rfl, -⟩
  exact hold hholds.1

/-- A step that is not undisturbed leaves a standing join without its worth. Kind: L -/
theorem not_served_step (hC : ¬ t.Undisturbed e) (hstep : t.step e = some t') : ¬ t'.Served := by
  obtain ⟨w, hw, rfl⟩ := step_eq_some.mp hstep
  intro hS
  refine hC ?_
  cases e with
  | opened k id => trivial
  | message k doc =>
      obtain ⟨ws, out, hws, hout, rfl⟩ := step_message.mp hw
      have hresult := onMessage_result hout
      rintro ws' hws'
      obtain rfl : ws = ws' := Option.some.inj (hws.symm.trans hws')
      obtain ⟨-, hid, rfl⟩ := websocket_eq_some.mp hws
      refine ⟨fun room hroom => ⟨?_, ?_⟩, ?_⟩
      · intro hnewest
        by_contra hnot
        rw [not_or, not_not] at hnot
        obtain ⟨hmem, hunserved⟩ := hnot
        obtain ⟨-, hsocket, r, hr, htold⟩ := hS ws.clientId ws.socket room
          ⟨hnewest, mem_standingAfter_message.mpr (.inl ⟨rfl, hroom⟩)⟩
        cases hresult with
        | join hjoin _ hresult =>
            cases hjoin.symm.trans hroom
            cases hresult with
            | refused _ hdb _ =>
                have hr' : r ∈ t.world.sent := by simpa [settle] using hr
                exact hunserved ⟨hdb ▸ hsocket, r, hr', htold⟩
            | joined hnew => exact hnew hmem
        | ignored hjoin => cases hjoin.symm.trans hroom
        | leave hjoin => cases hjoin.symm.trans hroom
        | relay hjoin => cases hjoin.symm.trans hroom
        | pong hjoin => cases hjoin.symm.trans hroom
      · intro hold
        by_contra hnot
        simp only [not_or, not_forall, not_not] at hnot
        obtain ⟨hnew, j, r, hholds⟩ := hnot
        obtain ⟨-, hsocket, -⟩ := hS ws.clientId j r (holds_of_older hholds hold)
        cases hresult with
        | join hjoin _ hresult =>
            cases hjoin.symm.trans hroom
            cases hresult with
            | refused hmem => exact hnew hmem
            | joined _ hdb _ =>
                simp only [settle, hdb] at hsocket
                rw [getElem?_insert_same] at hsocket
                exact hold (hsocket ▸ hholds.1)
        | ignored hjoin => cases hjoin.symm.trans hroom
        | leave hjoin => cases hjoin.symm.trans hroom
        | relay hjoin => cases hjoin.symm.trans hroom
        | pong hjoin => cases hjoin.symm.trans hroom
      · intro room hroom hold j hholds
        obtain ⟨hmem, -⟩ := hS ws.clientId j room (holds_of_older hholds hold)
        cases hresult with
        | leave _ hleave =>
            cases hleave.symm.trans hroom
            exact ((mem_members_leave _ _ _).mp hmem).2 ⟨rfl, rfl⟩
        | ignored _ hleave => cases hleave.symm.trans hroom
        | join _ hleave => cases hleave.symm.trans hroom
        | relay _ hleave => cases hleave.symm.trans hroom
        | pong _ hleave => cases hleave.symm.trans hroom
  | closed k =>
      obtain ⟨ws, hws, rfl⟩ := step_closed.mp hw
      rintro ws' hws' hold j r hholds
      obtain rfl : ws = ws' := Option.some.inj (hws.symm.trans hws')
      have hstands : (j, r) ∈ t.standing.filter (·.1 ≠ k) := by
        refine List.mem_filter.mpr ⟨hholds.2, ?_⟩
        simp only [decide_eq_true_eq]
        rintro rfl
        exact hold hholds.1
      obtain ⟨hmem, -⟩ := hS ws.clientId j r ⟨hholds.1, hstands⟩
      exact ((mem_members_onMessageClose _).mp hmem).2 rfl

/-- **Takeover works exactly** in the runs in which no step disturbs a standing join. Kind: P -/
theorem served_iff_undisturbed (es : List Event) :
    Runs.Always step Served {} es ↔ Runs.Meets step Undisturbed {} es := by
  refine Runs.always_iff_meets step (I := Kept) (fun _ _ _ hK hs => kept_step hK hs)
    (fun _ _ _ hK hS hC hs => served_step hK hS hC hs)
    (fun _ _ _ _ _ hC hs => not_served_step hC hs) kept_init ?_
  rintro peer k room ⟨-, hstands⟩
  cases hstands

/-- A client reconnects and joins its room again before its old socket closes. Kind: D -/
def reconnect : List Event :=
  let join := Json.obj [(str "type", .str (str "join")), (str "room", .str (str "r"))]
  [.opened 0 (str "p"), .message 0 join, .opened 1 (str "p"), .message 1 join, .closed 0]

/-- The old socket's close evicts a client that rejoined on its new one. Kind: P -/
theorem evicted_by_old_close : ¬ ∀ es, Runs.Always step Served {} es := by
  intro h
  have hany : ((Runs.run step {} reconnect).any fun t =>
      decide (t.newest[str "p"]? = some 1 ∧ (1, str "r") ∈ t.standing ∧
        str "p" ∉ t.world.server.rooms.members (str "r"))) = true := by decide
  obtain ⟨t, ht, hserved⟩ := (h reconnect).at_end _ hany
  obtain ⟨hnewest, hstands, hmem⟩ := of_decide_eq_true ht
  exact hmem (hserved _ _ _ ⟨hnewest, hstands⟩).1

end Sessions

end CloudNode
