import CloudNode.Client.Reconnecting

/-!
# The worker, the transport and `Stop`

`SendMessage` first waits until the transport runs (`WaitUntilRunning`). `JoinRooms` calls it while
it owns `m_clientStateMutex`. What can end the wait is a new connection, or `Stop`: the reconnect
thread makes a new socket when the old one's running callback has returned, the callback of a close
is `OnMessageClose`, which needs `m_clientStateMutex`, and so does `Stop`.

A step is what one of the threads does under one mutex. The sections of the other threads under
`m_clientStateMutex` are one step each, so that between steps only the worker can own it.

* `deadlocked_of_step` — a deadlocked client stays deadlocked, whatever its threads do.
* `free_iff_careful` — no deadlock is reached in exactly the runs in which `JoinRooms` does not ask
  for a room between the two sections of a close.
-/

namespace CloudNode

/-- Where the reconnect thread is. Source: `MessagePortClient.cpp`, `Start`. Kind: D -/
inductive Reconnect where
  /-- At the head of the loop: before a fresh socket. -/
  | attempting
  /-- Waiting for `m_disconnected || m_stopRequested`. -/
  | watching
  /-- In `m_socket->stop()`, which waits for the running callback to return. -/
  | stopping
  /-- Waiting for the delay to pass. -/
  | pausing
  | finished
  deriving DecidableEq

/-- The socket's connection. Kind: D -/
inductive Connection where
  | down
  | attempting
  | up
  deriving DecidableEq

/-- Where the socket's thread is in a callback.
Source: `MessagePortClient.cpp`, `MakeSocket`, and the callbacks that `WebRTC` registers
Kind: D -/
inductive SocketCallback where
  | idle
  /-- `Open`: before `OnMessageOpen`. -/
  | opening
  /-- `Message`: before the handler. -/
  | handling (m : ClientEvent)
  /-- `Message`: in the handler, past its first section. -/
  | handled
  /-- `Close`: before `OnMessageClose`. -/
  | closing
  /-- `Close`: in `OnMessageClose`, past its first section. -/
  | closed

/-- Where the caller of `Stop` is. Source: `WebRTCClient.cpp`, `Stop`. Kind: D -/
inductive StopCall where
  /-- Not called, or before its section under `m_clientStateMutex`. -/
  | idle
  /-- Before `MessagePortClient::Stop`. -/
  | stopping
  /-- Joining the reconnect thread and the worker. -/
  | joining
  | returned
  deriving DecidableEq

/-- Where the worker is in `SendMessage`, and whether it owns `m_clientStateMutex` there.
Source: `WebRTC.hpp`, `SendMessage`
Kind: D -/
inductive Sending where
  | outside
  /-- In `WaitUntilRunning`. -/
  | waiting (owned : Bool)
  /-- Before `Send`, with what `WaitUntilRunning` returned. -/
  | transmitting (owned ok : Bool)
  deriving DecidableEq

/-- The client with its threads. Source: `MessagePort.hpp`, `m_isRunning`, `m_disconnected`,
`m_stopRequested`. Kind: D -/
structure Threads where
  client : WebRTCClient := {}
  sending : Sending := .outside
  isRunning : Bool := false
  disconnected : Bool := false
  stopRequested : Bool := false
  connection : Connection := .down
  socket : SocketCallback := .idle
  reconnect : Reconnect := .attempting
  stop : StopCall := .idle

/-- What can happen. Kind: D -/
inductive ThreadEvent where
  | worker (a : Answers)
  | reconnect
  /-- The socket's thread begins a callback. -/
  | opens
  | closes
  | fails
  | message (m : ClientEvent)
  /-- The socket's thread goes on with its callback. -/
  | socket
  /-- The caller of `Stop` goes on. -/
  | stop
  /-- A step of another thread: a call of `QueueFile` or `QueueFileToAll`, or a chunk. -/
  | other (e : ClientEvent)

namespace Threads

open WebRTCClient

variable (cfg : Config)

/-- The worker owns `m_clientStateMutex`. Kind: D -/
def owns (t : Threads) : Bool :=
  t.client.worker.locked || match t.sending with
    | .waiting owned | .transmitting owned _ => owned
    | .outside => false

/-- The next section of another thread is one under `m_clientStateMutex`. Kind: D -/
def needsMutex (c : WebRTCClient) : ClientEvent → Bool
  | .messageOpen | .messageClose | .pong | .transferComplete | .queueFile _ | .queueNext _ | .stop =>
    true
  | .callback =>
    match c.callback with
    | .confirming _ _ | .responding => true
    | _ => false
  | _ => false

/-- A step of the client by another thread than the worker. Kind: D -/
def clientStep (t : Threads) (e : ClientEvent) : Option WebRTCClient :=
  if t.owns && needsMutex t.client e then none else t.client.step cfg e

/-- `WaitUntilRunning`'s look at its condition. Source: `MessagePort.hpp`, `WaitUntilRunning`.
Kind: D -/
def waitUntilRunning (t : Threads) (owned : Bool) : Sending :=
  if t.isRunning || t.stopRequested then .transmitting owned t.isRunning else .waiting owned

/-- The worker is about to call `SendMessage` without a mutex. Kind: D -/
def sendsFree (c : WebRTCClient) : Bool :=
  match c.worker with
  | .announceChannel _ _ _ | .sendOffer _ _ | .sendPing => true
  | _ => false

/-- The worker's next step. `JoinRooms` writes the room and the state before it calls
`SendMessage`, and `CLIENT_EXIT` when that fails.
Source: `WebRTCClient.cpp`, `JoinRooms` and the other callers; `WebRTC.hpp`, `SendMessage`;
`MessagePortClient.cpp`, `Send`
Kind: D -/
def workerStep (a : Answers) (t : Threads) : Option Threads :=
  match t.sending with
  | .outside =>
    if t.client.asks cfg then
      (t.client.step cfg (.worker { a with sent := true })).map fun c =>
        { t with client := c, sending := t.waitUntilRunning true }
    else if sendsFree t.client then some { t with sending := t.waitUntilRunning false }
    else (t.client.step cfg (.worker a)).map fun c => { t with client := c }
  | .waiting owned =>
    if t.isRunning || t.stopRequested then some { t with sending := t.waitUntilRunning owned }
    else none
  | .transmitting true ok => some { t with
      client :=
        if ok && t.isRunning && a.sent then t.client
        else { t.client with clientState := .exit, worker := .returned false }
      sending := .outside }
  | .transmitting false ok =>
    (t.client.step cfg (.worker { a with sent := ok && t.isRunning && a.sent })).map fun c =>
      { t with client := c, sending := .outside }

/-- The reconnect thread's next step. Source: `MessagePortClient.cpp`, `Start`. Kind: D -/
def reconnectStep (t : Threads) : Option Threads :=
  match t.reconnect with
  | .attempting =>
    if t.stopRequested then some { t with reconnect := .finished }
    else some { t with disconnected := false, connection := .attempting, reconnect := .watching }
  | .watching =>
    if t.disconnected || t.stopRequested then some { t with reconnect := .stopping } else none
  | .stopping =>
    match t.socket, t.connection with
    | .idle, .down | .idle, .attempting => some { t with
        connection := .down
        reconnect := if t.stopRequested then .finished else .pausing }
    | _, _ => none
  | .pausing =>
    some { t with reconnect := if t.stopRequested then .finished else .attempting }
  | .finished => none

/-- The socket's thread goes on with its callback.
Source: `WebRTC.cpp`, the callbacks; `WebRTCClient.cpp`, `OnMessageOpen`, `OnMessageClose` and the
handlers
Kind: D -/
def socketStep (t : Threads) : Option Threads :=
  match t.socket with
  | .idle => none
  | .opening =>
    (t.clientStep cfg .messageOpen).map fun c => { t with client := c, socket := .idle }
  | .handling m => (t.clientStep cfg m).map fun c => { t with client := c, socket := .handled }
  | .handled =>
    if t.client.callback = .idle then some { t with socket := .idle }
    else (t.clientStep cfg .callback).map fun c => { t with client := c }
  | .closing =>
    (t.clientStep cfg .messageClose).map fun c => { t with client := c, socket := .closed }
  | .closed =>
    if t.client.callback = .idle then some { t with socket := .idle }
    else (t.clientStep cfg .callback).map fun c => { t with client := c }

/-- The caller of `Stop` goes on.
Source: `WebRTCClient.cpp`, `Stop`; `MessagePortClient.cpp`, `Stop`
Kind: D -/
def stopStep (t : Threads) : Option Threads :=
  match t.stop with
  | .idle => (t.clientStep cfg .stop).map fun c => { t with client := c, stop := .stopping }
  | .stopping => some { t with isRunning := false, stopRequested := true, stop := .joining }
  | .joining =>
    match t.reconnect, t.client.worker with
    | .finished, .finished => some { t with stop := .returned }
    | _, _ => none
  | .returned => none

/-- The event is one of a message that is routed to a handler. Kind: D -/
def isMessage : ClientEvent → Bool
  | .join _ | .leave _ | .fileAccept _ | .fileReject _ | .pong => true
  | _ => false

/-- The event is one of the remaining threads. Kind: D -/
def isOther : ClientEvent → Bool
  | .transferComplete | .queueFile _ | .queueFileToAll _ | .queueNext _ => true
  | _ => false

/-- The socket's thread begins a callback.
Source: `MessagePortClient.cpp`, `MakeSocket`
Kind: D -/
def callbackStep (t : Threads) (e : ThreadEvent) : Option Threads :=
  match t.socket, t.connection, e with
  | .idle, .attempting, .opens =>
    some { t with isRunning := !t.stopRequested, connection := .up, socket := .opening }
  | .idle, .up, .closes => some { t with
      isRunning := false, disconnected := true, connection := .down, socket := .closing }
  | .idle, .attempting, .fails | .idle, .up, .fails =>
    some { t with isRunning := false, disconnected := true, connection := .down }
  | .idle, .up, .message m => if isMessage m then some { t with socket := .handling m } else none
  | _, _, _ => none

/-- One step of one of the threads. Kind: D -/
def step (t : Threads) : ThreadEvent → Option Threads
  | .worker a => workerStep cfg a t
  | .reconnect => reconnectStep t
  | .socket => socketStep cfg t
  | .stop => stopStep cfg t
  | .other e =>
    if isOther e then (t.clientStep cfg e).map fun c => { t with client := c } else none
  | e => callbackStep t e

/-! ## Deadlock -/

/-- The socket's callback waits for `m_clientStateMutex`, if somebody owns it. Kind: D -/
def socketNeedsMutex (t : Threads) : Bool :=
  match t.socket with
  | .idle | .closed => false
  | .opening | .closing => true
  | .handling m => needsMutex t.client m
  | .handled => needsMutex t.client .callback

/-- The worker waits for the transport and owns `m_clientStateMutex`; the reconnect thread makes no
new connection before the socket's callback has returned, the callback waits for the mutex, and so
does `Stop` when it is called. Kind: D -/
structure Deadlocked (t : Threads) : Prop where
  waits : t.sending = .waiting true
  runs : t.isRunning = false
  requested : t.stopRequested = false
  reconnect : t.reconnect = .watching ∨ t.reconnect = .stopping
  socket : t.socketNeedsMutex = true
  stop : t.stop = .idle

/-- `JoinRooms` does not ask for a room between the two sections of a close, unless `Stop` is past
its own section. Kind: D -/
def careful (t : Threads) : ThreadEvent → Bool
  | .worker _ =>
    !(t.sending = .outside && t.client.asks cfg && t.stop = .idle && match t.socket with
      | .closing => true
      | _ => false)
  | _ => true

variable {cfg} {t t' : Threads} {a : Answers} {e : ThreadEvent}

/-- A deadlocked worker owns the mutex. Kind: L -/
theorem owns_of_waits (h : t.sending = .waiting true) : t.owns = true := by
  simp [owns, h]

/-- While the worker owns the mutex, nobody else enters a section under it. Kind: L -/
theorem clientStep_of_owns {e : ClientEvent} (howns : t.owns = true)
    (hneeds : needsMutex t.client e = true) : clientStep cfg t e = none := by
  unfold clientStep
  rw [howns, hneeds]
  rfl

/-- A callback that waits for the mutex does not go on while the worker owns it. Kind: L -/
theorem socketStep_of_owns (howns : t.owns = true) (hneeds : t.socketNeedsMutex = true) :
    socketStep cfg t = none := by
  unfold socketNeedsMutex at hneeds
  unfold socketStep
  cases hsocket : t.socket with
  | idle => simp [hsocket] at hneeds
  | closed => simp [hsocket] at hneeds
  | opening =>
      have hopen : needsMutex t.client .messageOpen = true := rfl
      simp only [clientStep_of_owns howns hopen, Option.map_none]
  | closing =>
      have hclose : needsMutex t.client .messageClose = true := rfl
      simp only [clientStep_of_owns howns hclose, Option.map_none]
  | handling m =>
      simp only [hsocket] at hneeds
      simp only [clientStep_of_owns howns hneeds, Option.map_none]
  | handled =>
      simp only [hsocket] at hneeds
      have hbusy : t.client.callback ≠ .idle := by
        intro hidle
        simp [needsMutex, hidle] at hneeds
      simp only [if_neg hbusy, clientStep_of_owns howns hneeds, Option.map_none]

/-- A callback that waits for the mutex is running. Kind: L -/
theorem callbackStep_of_needs (hneeds : t.socketNeedsMutex = true) : callbackStep t e = none := by
  unfold socketNeedsMutex at hneeds
  unfold callbackStep
  split
  all_goals simp_all

/-- The other threads' remaining sections. Kind: L -/
theorem other_of_owns {e : ClientEvent} {c : WebRTCClient} (howns : t.owns = true)
    (hother : isOther e = true) (hc : clientStep cfg t e = some c) :
    c.callback = t.client.callback := by
  cases e with
  | queueFileToAll path =>
      simp only [clientStep, needsMutex, Bool.and_false, Bool.false_eq_true, if_false] at hc
      obtain rfl := Option.some.inj hc
      rfl
  | transferComplete | queueFile spec | queueNext i =>
      rw [clientStep_of_owns howns rfl] at hc
      simp at hc
  | _ => simp [isOther] at hother

/-- **A deadlocked client stays deadlocked.** Kind: P -/
theorem deadlocked_of_step (h : Deadlocked t) (he : step cfg t e = some t') : Deadlocked t' := by
  have howns := owns_of_waits h.waits
  cases e with
  | worker a => simp [step, workerStep, h.waits, h.runs, h.requested] at he
  | reconnect =>
      simp only [step, reconnectStep] at he
      rcases h.reconnect with hwatching | hstopping
      · simp only [hwatching, h.requested, Bool.or_false] at he
        split at he
        · obtain rfl := Option.some.inj he
          exact ⟨h.waits, h.runs, rfl, .inr rfl, h.socket, h.stop⟩
        · simp at he
      · simp only [hstopping] at he
        have hsocket := h.socket
        unfold socketNeedsMutex at hsocket
        split at he
        all_goals simp_all
  | socket =>
      simp only [step, socketStep_of_owns howns h.socket] at he
      simp at he
  | stop =>
      simp only [step, stopStep, h.stop, clientStep_of_owns howns
        (show needsMutex t.client .stop = true from rfl)] at he
      simp at he
  | other e =>
      simp only [step] at he
      split at he
      · rename_i hother
        obtain ⟨c, hc, rfl⟩ := Option.map_eq_some_iff.mp he
        have hcallback := other_of_owns howns hother hc
        have hsocket := h.socket
        refine ⟨h.waits, h.runs, h.requested, h.reconnect, ?_, h.stop⟩
        unfold socketNeedsMutex at hsocket ⊢
        dsimp only
        split at hsocket
        all_goals simp_all [needsMutex]
      · simp at he
  | _ =>
      simp only [step, callbackStep_of_needs h.socket] at he
      simp at he

/-- A wait in a deadlock never ends. Kind: P -/
theorem waits_of_run {es : List ThreadEvent} (h : Deadlocked t)
    (hrun : Runs.run (step cfg) t es = some t') : Deadlocked t' :=
  Runs.invariant_of_run _ (fun _ _ _ h he => deadlocked_of_step h he) h hrun

/-! ## What can be running at the same time -/

/-- The socket's thread is in a callback of an open connection. Kind: D -/
def SocketCallback.inCall : SocketCallback → Bool
  | .opening | .handling _ | .handled => true
  | _ => false

/-- What holds of the transport's flags in every state that is reached. Kind: D -/
structure Sound (t : Threads) : Prop where
  up : t.connection = .up → t.isRunning = true ∨ t.stopRequested = true
  inCall : SocketCallback.inCall t.socket = true → t.connection = .up
  closing : t.socket = .closing → t.isRunning = false
  live : t.connection ≠ .down ∨ t.socket = .closing →
    t.reconnect = .watching ∨ t.reconnect = .stopping
  requested : t.stop = .idle ∨ t.stop = .stopping → t.stopRequested = false
  woken : t.sending = .waiting true → t.isRunning = true →
    t.stopRequested = true ∨ t.socket = .opening

/-- The transport's flags and threads are as they were. Kind: D -/
structure SamePort (t t' : Threads) : Prop where
  isRunning : t'.isRunning = t.isRunning
  disconnected : t'.disconnected = t.disconnected
  stopRequested : t'.stopRequested = t.stopRequested
  connection : t'.connection = t.connection
  socket : t'.socket = t.socket
  reconnect : t'.reconnect = t.reconnect
  stop : t'.stop = t.stop

/-- A step of the worker leaves the transport alone, and begins to wait with the mutex only in
`JoinRooms` and with the transport down. Kind: L -/
theorem workerStep_port (h : workerStep cfg a t = some t') : SamePort t t' ∧
    (t'.sending = .waiting true → t.sending = .outside ∧ t.client.asks cfg = true ∧
      t.isRunning = false ∧ t.stopRequested = false) := by
  unfold workerStep at h
  split at h
  · rename_i hsending
    split at h
    · rename_i hasks
      obtain ⟨c, -, rfl⟩ := Option.map_eq_some_iff.mp h
      refine ⟨⟨rfl, rfl, rfl, rfl, rfl, rfl, rfl⟩, fun hwaits => ?_⟩
      simp only [waitUntilRunning] at hwaits
      split at hwaits
      · simp at hwaits
      · rename_i hdown
        rw [Bool.or_eq_true, not_or, Bool.not_eq_true, Bool.not_eq_true] at hdown
        exact ⟨hsending, hasks, hdown⟩
    · split at h
      · obtain rfl := Option.some.inj h
        refine ⟨⟨rfl, rfl, rfl, rfl, rfl, rfl, rfl⟩, fun hwaits => ?_⟩
        simp only [waitUntilRunning] at hwaits
        split at hwaits
        all_goals simp at hwaits
      · obtain ⟨c, -, rfl⟩ := Option.map_eq_some_iff.mp h
        refine ⟨⟨rfl, rfl, rfl, rfl, rfl, rfl, rfl⟩, fun hwaits => ?_⟩
        rw [hsending] at hwaits
        simp at hwaits
  · split at h
    · rename_i hup
      obtain rfl := Option.some.inj h
      refine ⟨⟨rfl, rfl, rfl, rfl, rfl, rfl, rfl⟩, fun hwaits => ?_⟩
      simp [waitUntilRunning, hup] at hwaits
    · simp at h
  · obtain rfl := Option.some.inj h
    exact ⟨⟨rfl, rfl, rfl, rfl, rfl, rfl, rfl⟩, by simp⟩
  · obtain ⟨c, -, rfl⟩ := Option.map_eq_some_iff.mp h
    exact ⟨⟨rfl, rfl, rfl, rfl, rfl, rfl, rfl⟩, by simp⟩

/-- A step that leaves the transport alone and begins no wait. Kind: L -/
theorem sound_of_samePort (hsound : Sound t) (hport : SamePort t t')
    (hsending : t'.sending = .waiting true → t.sending = .waiting true ∨ t.isRunning = false) :
    Sound t' := by
  obtain ⟨hrunning, -, hrequested, hconnection, hsocket, hreconnect, hstop⟩ := hport
  refine ⟨?_, ?_, ?_, ?_, ?_, ?_⟩
  · rw [hconnection, hrunning, hrequested]
    exact hsound.up
  · rw [hsocket, hconnection]
    exact hsound.inCall
  · rw [hsocket, hrunning]
    exact hsound.closing
  · rw [hconnection, hsocket, hreconnect]
    exact hsound.live
  · rw [hstop, hrequested]
    exact hsound.requested
  · rw [hrunning, hrequested, hsocket]
    intro hwaits hup
    rcases hsending hwaits with hbefore | hdown
    · exact hsound.woken hbefore hup
    · simp [hdown] at hup

/-- Where the reconnect thread does not watch, nothing is up and no close is being handled.
Kind: L -/
theorem Sound.down_of_reconnecting (hsound : Sound t) (hwatching : t.reconnect ≠ .watching)
    (hstopping : t.reconnect ≠ .stopping) : t.connection = .down ∧ t.socket ≠ .closing := by
  have hnot : ¬ (t.connection ≠ .down ∨ t.socket = .closing) := by
    intro hlive
    obtain h | h := hsound.live hlive
    · exact hwatching h
    · exact hstopping h
  rw [not_or, not_not] at hnot
  exact hnot

/-- The reconnect thread keeps the flags sound. Kind: L -/
theorem sound_reconnect (hsound : Sound t) (h : reconnectStep t = some t') : Sound t' := by
  have hdown := hsound.down_of_reconnecting
  obtain ⟨hup, hcall, hclosing, -, hrequested, hwoken⟩ := hsound
  unfold reconnectStep at h
  split at h
  · rename_i hreconnect
    obtain ⟨hconnection, hsocket⟩ := hdown (by simp [hreconnect]) (by simp [hreconnect])
    split at h
    · obtain rfl := Option.some.inj h
      exact ⟨hup, hcall, hclosing, by simp [hconnection, hsocket], hrequested, hwoken⟩
    · obtain rfl := Option.some.inj h
      refine ⟨by simp, fun hincall => ?_, hclosing, by simp, hrequested, hwoken⟩
      simpa [hconnection] using hcall hincall
  · split at h
    · obtain rfl := Option.some.inj h
      exact ⟨hup, hcall, hclosing, by simp, hrequested, hwoken⟩
    · simp at h
  · split at h
    · rename_i hsocket hconnection
      obtain rfl := Option.some.inj h
      exact ⟨by simp, by simp [hsocket, SocketCallback.inCall], hclosing, by simp [hsocket],
        hrequested, hwoken⟩
    · rename_i hsocket hconnection
      obtain rfl := Option.some.inj h
      exact ⟨by simp, by simp [hsocket, SocketCallback.inCall], hclosing, by simp [hsocket],
        hrequested, hwoken⟩
    · simp at h
  · rename_i hreconnect
    obtain ⟨hconnection, hsocket⟩ := hdown (by simp [hreconnect]) (by simp [hreconnect])
    obtain rfl := Option.some.inj h
    exact ⟨hup, hcall, hclosing, by simp [hconnection, hsocket], hrequested, hwoken⟩
  · simp at h

/-- **What a callback that begins does to the transport**: it opens or is closed, it fails, or a
message has come. Kind: P -/
theorem callbackStep_cases (h : callbackStep t e = some t') : t.socket = .idle ∧
    (t' = { t with isRunning := !t.stopRequested, connection := .up, socket := .opening } ∨
      (t.connection = .up ∧ t' = { t with
        isRunning := false, disconnected := true, connection := .down, socket := .closing }) ∨
      t' = { t with isRunning := false, disconnected := true, connection := .down } ∨
      (t.connection = .up ∧ ∃ m, t' = { t with socket := .handling m })) ∧
    t.connection ≠ .down := by
  unfold callbackStep at h
  split at h
  · rename_i hsocket hconnection
    exact ⟨hsocket, .inl (Option.some.inj h).symm, by simp [hconnection]⟩
  · rename_i hsocket hconnection
    exact ⟨hsocket, .inr (.inl ⟨hconnection, (Option.some.inj h).symm⟩), by simp [hconnection]⟩
  · rename_i hsocket hconnection
    exact ⟨hsocket, .inr (.inr (.inl (Option.some.inj h).symm)), by simp [hconnection]⟩
  · rename_i hsocket hconnection
    exact ⟨hsocket, .inr (.inr (.inl (Option.some.inj h).symm)), by simp [hconnection]⟩
  · rename_i m hsocket hconnection
    obtain ⟨-, h⟩ := Option.ite_none_right_eq_some.mp h
    exact ⟨hsocket, .inr (.inr (.inr ⟨hconnection, m, (Option.some.inj h).symm⟩)),
      by simp [hconnection]⟩
  · exact (Option.some_ne_none _ h.symm).elim

/-- A callback that begins keeps the flags sound. Kind: L -/
theorem sound_callback (hsound : Sound t) (h : callbackStep t e = some t') : Sound t' := by
  obtain ⟨hsocket, hcases, hup⟩ := callbackStep_cases h
  have hlive := hsound.live (.inl hup)
  obtain rfl | ⟨-, rfl⟩ | rfl | ⟨hconnection, m, rfl⟩ := hcases
  · refine ⟨fun _ => ?_, by simp, by simp, fun _ => hlive, hsound.requested, by simp⟩
    dsimp only
    cases t.stopRequested with
    | true => exact .inr rfl
    | false => exact .inl rfl
  · exact ⟨by simp, by simp [SocketCallback.inCall], by simp, fun _ => hlive, hsound.requested,
      by simp⟩
  · exact ⟨by simp, by simp [hsocket, SocketCallback.inCall], by simp, by simp [hsocket],
      hsound.requested, by simp⟩
  · refine ⟨hsound.up, fun _ => hconnection, by simp, fun _ => hlive, hsound.requested,
      fun hwaits hrunning => ?_⟩
    rcases hsound.woken hwaits hrunning with hstop | hopening
    · exact .inl hstop
    · simp [hsocket] at hopening

/-- A callback that goes on, other than to `OnMessageOpen`, keeps the flags sound. Kind: L -/
theorem sound_of_socket (hsound : Sound t) (hopening : t.socket ≠ .opening)
    (client : WebRTCClient) {socket : SocketCallback} (hclosing : socket ≠ .closing)
    (hcall : SocketCallback.inCall socket = true → SocketCallback.inCall t.socket = true) :
    Sound { t with client := client, socket := socket } := by
  refine ⟨hsound.up, fun h => hsound.inCall (hcall h), fun h => absurd h hclosing, fun h => ?_,
    hsound.requested, fun hwaits hrunning => ?_⟩
  · exact hsound.live (.inl (h.resolve_right hclosing))
  · exact .inl ((hsound.woken hwaits hrunning).resolve_right hopening)

/-- **What a callback that goes on does**: `OnMessageOpen` returns, or a step of another leaves the
transport alone and begins no close. Kind: P -/
theorem socketStep_cases (h : socketStep cfg t = some t') :
    (t.socket = .opening ∧ ∃ c, clientStep cfg t .messageOpen = some c ∧
      t' = { t with client := c, socket := .idle }) ∨
    (t.socket ≠ .opening ∧ ∃ c socket, t' = { t with client := c, socket := socket } ∧
      socket ≠ .closing ∧
      (SocketCallback.inCall socket = true → SocketCallback.inCall t.socket = true)) := by
  unfold socketStep at h
  split at h
  · exact (Option.some_ne_none _ h.symm).elim
  all_goals rename_i hsocket
  · obtain ⟨c, hc, rfl⟩ := Option.map_eq_some_iff.mp h
    exact .inl ⟨hsocket, c, hc, rfl⟩
  · obtain ⟨c, -, rfl⟩ := Option.map_eq_some_iff.mp h
    exact .inr ⟨by simp [hsocket], c, .handled, rfl, by simp,
      by simp [hsocket, SocketCallback.inCall]⟩
  · split at h
    · obtain rfl := Option.some.inj h
      exact .inr ⟨by simp [hsocket], t.client, .idle, rfl, by simp, by simp [SocketCallback.inCall]⟩
    · obtain ⟨c, -, rfl⟩ := Option.map_eq_some_iff.mp h
      exact .inr ⟨by simp [hsocket], c, t.socket, rfl, by simp [hsocket], fun h => h⟩
  · obtain ⟨c, -, rfl⟩ := Option.map_eq_some_iff.mp h
    exact .inr ⟨by simp [hsocket], c, .closed, rfl, by simp, by simp [SocketCallback.inCall]⟩
  · split at h
    · obtain rfl := Option.some.inj h
      exact .inr ⟨by simp [hsocket], t.client, .idle, rfl, by simp, by simp [SocketCallback.inCall]⟩
    · obtain ⟨c, -, rfl⟩ := Option.map_eq_some_iff.mp h
      exact .inr ⟨by simp [hsocket], c, t.socket, rfl, by simp [hsocket], fun h => h⟩

/-- A callback that goes on keeps the flags sound. Kind: L -/
theorem sound_socket (hsound : Sound t) (h : socketStep cfg t = some t') : Sound t' := by
  obtain ⟨-, c, hc, rfl⟩ | ⟨hopening, c, socket, rfl, hclosing, hcall⟩ := socketStep_cases h
  · refine ⟨hsound.up, by simp [SocketCallback.inCall], by simp, fun hlive => ?_, hsound.requested,
      fun hwaits _ => ?_⟩
    · exact hsound.live (.inl (by simpa using hlive))
    · -- a worker that waits with the mutex has it still
      have howns : t.owns = true := owns_of_waits hwaits
      rw [clientStep_of_owns howns rfl] at hc
      simp at hc
  · exact sound_of_socket hsound hopening c hclosing hcall

/-- **Every step keeps the flags sound.** Kind: P -/
theorem sound_step (hsound : Sound t) (h : step cfg t e = some t') : Sound t' := by
  cases e with
  | worker a =>
      obtain ⟨hport, hwaits⟩ := workerStep_port h
      exact sound_of_samePort hsound hport fun hsending => .inr (hwaits hsending).2.2.1
  | reconnect => exact sound_reconnect hsound h
  | socket => exact sound_socket hsound h
  | stop =>
      simp only [step, stopStep] at h
      split at h
      · rename_i hstop
        obtain ⟨c, -, rfl⟩ := Option.map_eq_some_iff.mp h
        exact ⟨hsound.up, hsound.inCall, hsound.closing, hsound.live,
          fun _ => hsound.requested (.inl hstop), hsound.woken⟩
      · obtain rfl := Option.some.inj h
        exact ⟨fun _ => .inr rfl, hsound.inCall, fun _ => rfl, hsound.live, by simp, by simp⟩
      · split at h
        · obtain rfl := Option.some.inj h
          exact ⟨hsound.up, hsound.inCall, hsound.closing, hsound.live, by simp, hsound.woken⟩
        · simp at h
      · simp at h
  | other e =>
      simp only [step] at h
      split at h
      · obtain ⟨c, -, rfl⟩ := Option.map_eq_some_iff.mp h
        exact sound_of_samePort hsound ⟨rfl, rfl, rfl, rfl, rfl, rfl, rfl⟩ fun hwaits => .inl hwaits
      · simp at h
  | _ => exact sound_callback hsound h

/-- With the transport down and nobody stopping the client, the callback that waits for the mutex
is that of a close. Kind: L -/
theorem closing_of_needs (hsound : Sound t) (hruns : t.isRunning = false)
    (hrequested : t.stopRequested = false) (hneeds : t.socketNeedsMutex = true) :
    t.socket = .closing := by
  have hcall : SocketCallback.inCall t.socket = false := by
    by_contra hcall
    rw [Bool.not_eq_false] at hcall
    rcases hsound.up (hsound.inCall hcall) with hup | hstop
    · simp [hruns] at hup
    · simp [hrequested] at hstop
  cases hsocket : t.socket with
  | closing => rfl
  | idle => simp [socketNeedsMutex, hsocket] at hneeds
  | closed => simp [socketNeedsMutex, hsocket] at hneeds
  | _ => simp [hsocket, SocketCallback.inCall] at hcall

/-- **A step that is not careful deadlocks.** Kind: P -/
theorem deadlocked_of_careless (hsound : Sound t) (hcareful : ¬ careful cfg t e = true)
    (he : step cfg t e = some t') : Deadlocked t' := by
  cases e with
  | worker a =>
      simp only [careful, Bool.not_eq_true', Bool.not_eq_false, Bool.and_eq_true,
        decide_eq_true_eq] at hcareful
      obtain ⟨⟨⟨hsending, hasks⟩, hstop⟩, hsocket⟩ := hcareful
      have hclosing : t.socket = .closing := by
        split at hsocket
        · assumption
        · simp at hsocket
      have hruns := hsound.closing hclosing
      have hrequested := hsound.requested (.inl hstop)
      simp only [step, workerStep, hsending, hasks, if_true] at he
      obtain ⟨c, -, rfl⟩ := Option.map_eq_some_iff.mp he
      refine ⟨?_, hruns, hrequested, hsound.live (.inr hclosing), ?_, hstop⟩
      · simp [waitUntilRunning, hruns, hrequested]
      · simp [socketNeedsMutex, hclosing]
  | _ => exact absurd rfl hcareful

/-- A callback that goes on is not before the second section of a close. Kind: L -/
theorem not_closing_of_socket (h : socketStep cfg t = some t') : t'.socket ≠ .closing := by
  obtain ⟨-, c, -, rfl⟩ | ⟨-, c, socket, rfl, hclosing, -⟩ := socketStep_cases h
  · simp
  · exact hclosing

/-- A callback that begins does not deadlock. A close finds the worker waiting with the transport up
only while `OnMessageOpen` is running. Kind: L -/
theorem not_deadlocked_of_callback (hsound : Sound t) (h : callbackStep t e = some t') :
    ¬ Deadlocked t' := by
  intro hdead
  have hrequested := hdead.requested
  have hwaits := hdead.waits
  have hclosing := closing_of_needs (sound_callback hsound h) hdead.runs hrequested hdead.socket
  obtain ⟨hsocket, rfl | ⟨hconnection, rfl⟩ | rfl | ⟨-, m, rfl⟩, -⟩ := callbackStep_cases h
  · simp at hclosing
  · have hstanding : ¬ t.stopRequested = true := by simpa using hrequested
    have hup := (hsound.up hconnection).resolve_right hstanding
    have hopening := (hsound.woken hwaits hup).resolve_left hstanding
    simp [hsocket] at hopening
  · simp [hsocket] at hclosing
  · simp at hclosing

/-- **A careful step does not deadlock a client that was not deadlocked.** Kind: P -/
theorem free_of_careful (hsound : Sound t) (hfree : ¬ Deadlocked t)
    (hcareful : careful cfg t e = true) (he : step cfg t e = some t') : ¬ Deadlocked t' := by
  intro hdead
  have hsound' := sound_step hsound he
  have hclosing := closing_of_needs hsound' hdead.runs hdead.requested hdead.socket
  have hwaits := hdead.waits
  have hstop := hdead.stop
  have hruns := hdead.runs
  -- where the flags and the call are as before, the client was deadlocked already
  have hbefore : t.sending = .waiting true → t.isRunning = false → t.socket = .closing →
      t.stop = .idle → False := by
    intro hsending hdown hsocket hidle
    apply hfree
    exact ⟨hsending, hdown, hsound.requested (.inl hidle), hsound.live (.inr hsocket),
      by simp [socketNeedsMutex, hsocket], hidle⟩
  cases e with
  | worker a =>
      obtain ⟨hport, hbegins⟩ := workerStep_port he
      obtain ⟨hsending, hasks, -, -⟩ := hbegins hwaits
      have hsocket : t.socket = .closing := by rw [← hport.socket, hclosing]
      have hidle : t.stop = .idle := by rw [← hport.stop, hstop]
      simp [careful, hsending, hasks, hidle, hsocket] at hcareful
  | reconnect =>
      simp only [step, reconnectStep] at he
      repeat' split at he
      all_goals cases he
      all_goals exact hbefore hwaits hruns hclosing hstop
  | socket => exact not_closing_of_socket he hclosing
  | stop =>
      simp only [step, stopStep] at he
      split at he
      · obtain ⟨c, -, rfl⟩ := Option.map_eq_some_iff.mp he
        simp at hstop
      · obtain rfl := Option.some.inj he
        simp at hstop
      · split at he
        · obtain rfl := Option.some.inj he
          simp at hstop
        · simp at he
      · simp at he
  | other e =>
      simp only [step] at he
      split at he
      · obtain ⟨c, -, rfl⟩ := Option.map_eq_some_iff.mp he
        exact hbefore hwaits hruns hclosing hstop
      · simp at he
  | _ =>
      exact not_deadlocked_of_callback hsound he hdead

/-- **No deadlock is reached in exactly the runs in which `JoinRooms` does not ask for a room
between the two sections of a close.** Kind: P -/
theorem free_iff_careful (cfg : Config) (es : List ThreadEvent) :
    Runs.Always (step cfg) (fun t => ¬ Deadlocked t) {} es ↔
      Runs.Meets (step cfg) (fun t e => careful cfg t e = true) {} es := by
  apply Runs.always_iff_meets (I := Sound)
  · exact fun t e t' hsound he => sound_step hsound he
  · exact fun t e t' hsound hfree hcareful he => free_of_careful hsound hfree hcareful he
  · exact fun t e t' hsound _ hcareful he hfree =>
      hfree (deadlocked_of_careless hsound hcareful he)
  · exact ⟨by simp, by simp [SocketCallback.inCall], by simp, by simp, by simp, by simp⟩
  · intro hdead
    simpa using hdead.waits

/-- The transport opens; the worker has seen it open when the connection is lost, and asks for its
room before `OnMessageClose` has run. Kind: D -/
def closeBeforeJoin : List ThreadEvent :=
  [.worker {}, .reconnect, .opens, .socket, .worker {}, .closes, .worker {}]

/-- The worker waits for a connection that only the callback it keeps from running could bring.
Kind: P -/
theorem deadlock_of_close : ¬ ∀ cfg es, Runs.Always (step cfg) (fun t => ¬ Deadlocked t) {} es := by
  intro h
  have hany : ((Runs.run (step Ledger.clientA) {} closeBeforeJoin).any fun t =>
      decide (t.sending = .waiting true) && !t.isRunning && !t.stopRequested &&
        decide (t.reconnect = .watching) && t.socketNeedsMutex && decide (t.stop = .idle)) = true := by
    decide
  obtain ⟨t, ht, hfree⟩ := (h Ledger.clientA closeBeforeJoin).at_end _ hany
  simp only [Bool.and_eq_true, decide_eq_true_eq, Bool.not_eq_true'] at ht
  obtain ⟨⟨⟨⟨⟨hwaits, hruns⟩, hrequested⟩, hreconnect⟩, hsocket⟩, hstop⟩ := ht
  exact hfree ⟨hwaits, hruns, hrequested, .inl hreconnect, hsocket, hstop⟩

end Threads

end CloudNode
