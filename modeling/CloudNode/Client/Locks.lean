import CloudNode.Lib.Mutexes

/-!
# The client's mutexes

The client's threads share some dozen mutexes: the state of the worker, the tables of channels,
offers and incoming files, the rooms, the port, the watcher's callback, the log, and those of each
channel's queue, decision, transfer and gathering. Many functions take one while they hold another,
directly or in a function that they call.

Each function is put down as what it does with mutexes. What decides a branch, and how often a loop
runs, is left open; a wait on a condition variable lets go of its mutex and takes it again any
number of times. What a thread waits for otherwise (a condition that does not come true, another
thread's end, a file's lock, the libraries) is not in here.

* `Mutex.rank` — the order in which they are taken.
* `Role` — what a thread of the client runs.
* `ordered_code` — all of it keeps to the order.
* `no_circle` — in no run do threads of the client wait for each other's mutexes in a circle.
-/

namespace CloudNode

/-- The mutexes of a client; a channel's objects are numbered. Kind: D -/
inductive Mutex where
  /-- Source: `WebRTCClient.hpp`, `m_clientStateMutex` -/
  | clientState
  /-- Source: `WebRTCClient.hpp`, `m_dataChannelsMutex` -/
  | dataChannels
  /-- Source: `WebRTCClient.hpp`, `m_pendingMutex` -/
  | pending
  /-- Source: `WebRTCClient.hpp`, `m_incomingMutex` -/
  | incoming
  /-- Source: `WebRTC.hpp`, `m_roomMutex` -/
  | rooms
  /-- Source: `MessagePort.hpp`, `m_mtx` -/
  | port
  /-- Source: `FileWatcher.hpp`, `m_callbackMutex` -/
  | callback
  /-- Source: `Queue.cpp`, `m_Mutex` -/
  | queue (k : ℕ)
  /-- Source: `LocalDescription.hpp`, `FileTransferDecision` -/
  | decision (k : ℕ)
  /-- Source: `WebRTCClient.cpp`, `MakeDataChannel`, `TransferState` -/
  | transfer (k : ℕ)
  /-- Source: `LocalDescription.cpp`, `GatheredDescription` -/
  | gathered (k : ℕ)
  /-- Source: `Logger.hpp`, `get_mutex` -/
  | log
  deriving DecidableEq

/-- The order: the tables and the worker's state first, the log last. Kind: D -/
def Mutex.rank : Mutex → ℕ
  | .clientState | .dataChannels | .pending | .incoming => 0
  | .log => 2
  | _ => 1

/-- Code of the client, as far as it locks. Kind: D -/
abbrev LockCode := Mutexes.Code Mutex

namespace LockCode

open Mutexes (block Ordered ordered_block)

/-! ## Common forms -/

/-- A log line. Source: `Logger.hpp`, `~LogStream`. Kind: D -/
def logs : LockCode := .hold .log .skip

/-- A guard around code that takes no other mutex. Kind: D -/
def guarded (m : Mutex) : LockCode := .hold m .skip

/-- It may be done. Kind: D -/
def maybe (c : LockCode) : LockCode := .choice .skip c

/-- It is done and the function returns, or the function goes on. Kind: D -/
def early (c rest : LockCode) : LockCode := .choice c rest

/-- One of these is done. Kind: D -/
def oneOf (cs : List LockCode) : LockCode := cs.foldr .choice .skip

/-- `wait` and `wait_for`, with what the predicate takes.
Source: `std::condition_variable`
Kind: D -/
def waits (m : Mutex) (test : LockCode) : LockCode :=
  .seq test (.loop (.seq (.release m .skip) test))

/-! ## Rooms and messages -/

/-- Source: `WebRTC.cpp`, `GetPeers`. Kind: D -/
def getPeers : LockCode := guarded .rooms

/-- Source: `WebRTC.cpp`, `ClearRooms`. Kind: D -/
def clearRooms : LockCode := guarded .rooms

/-- Source: `WebRTC.cpp`, `UpdatePeers`. Kind: D -/
def updatePeers : LockCode := guarded .rooms

/-- Source: `WebRTC.cpp`, `Leave`. Kind: D -/
def leave : LockCode := .hold .rooms logs

/-- Source: `MessagePort.hpp`, `WaitUntilRunning`. Kind: D -/
def waitUntilRunning : LockCode := .hold .port (waits .port .skip)

/-- Source: `MessagePortClient.cpp`, `Send`. Kind: D -/
def send : LockCode := guarded .port

/-- Source: `WebRTC.hpp`, `SendMessage`. Kind: D -/
def sendMessage : LockCode := .seq waitUntilRunning (early logs send)

/-- A message is sent, and it is logged if that fails.
Source: `WebRTCClient.cpp`, `SendPing`, `SendFileComplete` and others
Kind: D -/
def sendOrLog : LockCode := .seq sendMessage (maybe logs)

/-! ## The port -/

/-- Source: `MessagePortClient.cpp`, `Start`. Kind: D -/
def portStart : LockCode := guarded .port

/-- Source: `MessagePortClient.cpp`, `Stop`. Kind: D -/
def portStop : LockCode := guarded .port

/-- Source: `MessagePortClient.cpp`, `Start`, the thread. Kind: D -/
def reconnectThread : LockCode :=
  .loop (block [guarded .port, early .skip (.hold .port (block
    [waits .port .skip, .release .port .skip, waits .port .skip]))])

/-! ## Channels -/

/-- Source: `WebRTCClient.cpp`, `FindPeerConnection`. Kind: D -/
def findPeerConnection : LockCode := guarded .dataChannels

/-- Source: `WebRTCClient.cpp`, `MakePeerConnection`. Kind: D -/
def makePeerConnection : LockCode := .seq logs logs

/-- Source: `LocalDescription.cpp`, `obtainInitialDescription`. Kind: D -/
def obtainInitialDescription : LockCode :=
  early .skip (.any fun k => .hold (.gathered k) (waits (.gathered k) .skip))

/-- Source: `LocalDescription.cpp`, `obtainInitialDescription`, the callbacks. Kind: D -/
def gathering : LockCode := .any fun k => guarded (.gathered k)

/-- Source: `WebRTCClient.cpp`, `MakeDataChannel`. Kind: D -/
def makeDataChannel : LockCode :=
  block [makePeerConnection, obtainInitialDescription, early logs (block
    [guarded .dataChannels, sendMessage, maybe (.seq logs (guarded .dataChannels))])]

/-- Source: `Queue.cpp`, `GetItem`. Kind: D -/
def getItem (k : ℕ) : LockCode := .hold (.queue k) (waits (.queue k) .skip)

/-- Source: `Queue.cpp`, `AddItem`. Kind: D -/
def addItem (k : ℕ) : LockCode := guarded (.queue k)

/-- Source: `WebRTCClient.cpp`, `MakeDataChannel`, `waitForCapacity`. Kind: D -/
def waitForCapacity (k : ℕ) : LockCode := .hold (.transfer k) (waits (.transfer k) .skip)

/-- Source: `WebRTCClient.cpp`, `SendFileComplete`. Kind: D -/
def sendFileComplete : LockCode := .seq logs sendOrLog

/-- Source: `WebRTCClient.cpp`, `MakeDataChannel`, the thread that `onOpen` starts. Kind: D -/
def transferThread (k : ℕ) : LockCode :=
  .loop (block [getItem k, early logs (block
    [.loop (block [.loop (.seq (waitForCapacity k) (maybe logs)), logs,
      maybe (.seq (waitForCapacity k) (maybe logs))]),
    maybe logs, maybe (.seq logs sendFileComplete)])])

/-- Source: `WebRTCClient.cpp`, `MakeDataChannel`, `onOpen`, `onClosed` and `onMessage`. Kind: D -/
def channelCallback : LockCode :=
  oneOf [.seq logs (maybe logs),
    .any fun k => .seq (guarded (.transfer k)) (guarded (.decision k)),
    maybe logs]

/-- Source: `WebRTCClient.cpp`, `WakeFileTransferWorkers`. Kind: D -/
def wakeFileTransferWorkers : LockCode :=
  .seq (guarded .dataChannels) (.loop (.any fun k => guarded (.decision k)))

/-! ## Incoming files -/

/-- Source: `WebRTCClient.cpp`, `StartNextIncoming`. Kind: D -/
def startNextIncoming : LockCode := .loop (maybe logs)

/-- Source: `WebRTCClient.cpp`, `TakeReceivedFile`. Kind: D -/
def takeReceivedFile : LockCode := guarded .incoming

/-- Source: `WebRTCClient.cpp`, `OnIncomingChunk`. Kind: D -/
def onIncomingChunk : LockCode :=
  .seq (.hold .incoming (.seq (maybe logs) (maybe startNextIncoming)))
    (maybe (guarded .clientState))

/-- Source: `WebRTCClient.cpp`, `OnOffer`, `onDataChannel`. Kind: D -/
def onDataChannel : LockCode := guarded .dataChannels

/-- Source: `WebRTCClient.cpp`, `OnOffer`, `onOpen`, `onClosed` and `onMessage`. Kind: D -/
def incomingCallback : LockCode :=
  oneOf [.seq logs (maybe (.seq logs logs)), logs, early logs (.seq logs onIncomingChunk)]

/-- Source: `WebRTCClient.cpp`, `OnOffer`, `onLocalCandidate` and `onLocalDescription`. Kind: D -/
def localCallback : LockCode := oneOf [sendOrLog, early logs (.seq logs sendOrLog)]

/-! ## Messages from the server -/

/-- Source: `WebRTCClient.cpp`, `OnJoin`. Kind: D -/
def onJoin : LockCode := .seq logs (early logs (.seq updatePeers (guarded .clientState)))

/-- Source: `WebRTCClient.cpp`, `OnLeave`. Kind: D -/
def onLeave : LockCode := early logs (.seq leave (early logs updatePeers))

/-- Source: `WebRTCClient.cpp`, `TakePendingOffer`. Kind: D -/
def takePendingOffer : LockCode := early logs (.hold .pending (maybe logs))

/-- Source: `WebRTCClient.cpp`, `OnFileAccept`. Kind: D -/
def onFileAccept : LockCode :=
  block [logs, takePendingOffer, early .skip (block [guarded .dataChannels, early logs (block
    [.any addItem, guarded .clientState])])]

/-- Source: `WebRTCClient.cpp`, `OnFileReject`. Kind: D -/
def onFileReject : LockCode :=
  .seq takePendingOffer (early .skip (.seq logs (guarded .clientState)))

/-- Source: `WebRTCClient.cpp`, `OnAnswer`. Kind: D -/
def onAnswer : LockCode := block [logs, findPeerConnection, early logs logs]

/-- Source: `WebRTCClient.cpp`, `OnCandidate`. Kind: D -/
def onCandidate : LockCode := block [logs, findPeerConnection, early logs logs]

/-- Source: `WebRTCClient.cpp`, `OnOffer`. Kind: D -/
def onOffer : LockCode :=
  .seq logs (early logs (block [makePeerConnection, guarded .dataChannels, logs, .loop logs]))

/-- Source: `WebRTCClient.cpp`, `OnFileComplete`. Kind: D -/
def onFileComplete : LockCode := logs

/-- Source: `WebRTCClient.cpp`, `OnPingPong`. Kind: D -/
def onPingPong : LockCode := early .skip (.seq (guarded .clientState) (maybe logs))

/-- Source: `WebRTCClient.cpp`, `SendFileAccept`. Kind: D -/
def sendFileAccept : LockCode := early logs sendOrLog

/-- Source: `WebRTCClient.cpp`, `SendFileReject`. Kind: D -/
def sendFileReject : LockCode := early logs sendOrLog

/-- Source: `WebRTCClient.cpp`, `OnFileOffer`. Kind: D -/
def onFileOffer : LockCode :=
  early logs (.seq logs (early logs (early (.seq logs sendFileReject) (block
    [maybe logs, .hold .incoming (maybe startNextIncoming), logs, sendFileAccept]))))

/-- Source: `WebRTC.hpp`, `MessageRouter`. Kind: D -/
def messageRouter : LockCode :=
  early .skip (oneOf [onJoin, onLeave, onFileAccept, onFileReject, onOffer, onAnswer, onCandidate,
    onFileOffer, onFileComplete, onPingPong, logs])

/-- Source: `WebRTCClient.cpp`, `OnMessageOpen`. Kind: D -/
def onMessageOpen : LockCode := .seq logs (guarded .clientState)

/-- Source: `WebRTCClient.cpp`, `OnMessageClose`. Kind: D -/
def onMessageClose : LockCode :=
  block [logs, guarded .clientState, wakeFileTransferWorkers,
    maybe (.seq logs (.hold .dataChannels clearRooms))]

/-- Source: `MessagePortClient.cpp`, `MakeSocket`. Kind: D -/
def socketCallback : LockCode :=
  oneOf [block [logs, guarded .port, onMessageOpen], messageRouter,
    block [logs, guarded .port, onMessageClose], .seq logs (guarded .port)]

/-! ## The worker -/

/-- Source: `WebRTCClient.cpp`, `InRoom`. Kind: D -/
def inRoom : LockCode := getPeers

/-- Source: `WebRTCClient.cpp`, `JoinRoom`. Kind: D -/
def joinRoom : LockCode := .seq sendMessage logs

/-- Source: `WebRTCClient.cpp`, `JoinRooms`. Kind: D -/
def joinRooms : LockCode :=
  .hold .clientState (.loop (.seq (maybe inRoom) (maybe (.seq joinRoom (early logs (.seq
    (waits .clientState .skip) (maybe logs)))))))

/-- Source: `WebRTCClient.cpp`, `ConnectPeer`. Kind: D -/
def connectPeer : LockCode :=
  .seq (.hold .clientState (.seq logs (waits .clientState getPeers)))
    (early .skip (.seq (guarded .dataChannels)
      (maybe (.seq makeDataChannel (maybe (guarded .clientState))))))

/-- Source: `WebRTCClient.cpp`, `SendFileOffer`. Kind: D -/
def sendFileOffer : LockCode :=
  .seq logs (early logs (.seq (.hold .dataChannels (maybe logs)) (early .skip (block
    [guarded .clientState, guarded .pending, logs, sendMessage, maybe (block
      [logs, guarded .pending, guarded .clientState])]))))

/-- Source: `WebRTCClient.cpp`, `OfferFiles`. Kind: D -/
def offerFiles : LockCode :=
  .loop (.seq joinRooms (early .skip (.hold .clientState (block
    [waits .clientState getPeers, maybe logs, early .skip (.release .clientState (block
      [guarded .dataChannels, maybe makeDataChannel, maybe sendFileOffer]))]))))

/-- Source: `WebRTCClient.cpp`, `SendPing`. Kind: D -/
def sendPing : LockCode := sendOrLog

/-- Source: `WebRTCClient.cpp`, `StartClient`. Kind: D -/
def startClient : LockCode :=
  .hold .clientState (.loop (oneOf
    [.seq (waits .clientState .skip) (early .skip (early logs (.release .clientState
      (.seq joinRooms (early .skip (.seq (maybe connectPeer) (early .skip offerFiles))))))),
    waits .clientState .skip,
    .release .clientState offerFiles,
    .release .clientState sendPing,
    .seq (waits .clientState .skip) (maybe logs)]))

/-! ## What others call -/

/-- Source: `WebRTCClient.cpp`, `QueueFile`. Kind: D -/
def queueFile : LockCode := early logs (guarded .clientState)

/-- Source: `WebRTCClient.cpp`, `QueueFileToAll`. Kind: D -/
def queueFileToAll : LockCode := .seq (guarded .dataChannels) (.loop queueFile)

/-- Source: `WebRTCClient.cpp`, `IsRunning`. Kind: D -/
def isRunning : LockCode := guarded .clientState

/-- Source: `WebRTCClient.cpp`, `Start`. Kind: D -/
def start : LockCode := .seq (guarded .clientState) portStart

/-- Source: `WebRTCClient.cpp`, `Stop`. Kind: D -/
def stop : LockCode := block [guarded .clientState, wakeFileTransferWorkers, portStop]

/-- Source: `FileWatcher.cpp`, `OnFile`. Kind: D -/
def onFile : LockCode := guarded .callback

/-- Source: `FileWatcher.cpp`, `Notify`. Kind: D -/
def notify : LockCode := guarded .callback

/-- Source: `CloudNode.cpp`, the callback. Kind: D -/
def changeCallback : LockCode :=
  early .skip (.seq takeReceivedFile (maybe (.seq logs queueFileToAll)))

/-- Source: `FileWatcher.cpp`, `FlushIfQuiet`. Kind: D -/
def flushIfQuiet : LockCode := early .skip (.seq (guarded .callback) (.loop changeCallback))

/-- Source: `FileWatcher.cpp`, `Run`, with `HandleEvents` and `AddWatchTree`. Kind: D -/
def watcherThread : LockCode :=
  .loop (.seq (.loop (oneOf [logs, notify])) (maybe flushIfQuiet))

/-- The watcher's `Start` writes any number of log lines, its `Stop` at most one.
Source: `CloudNode.cpp`, `main`
Kind: D -/
def mainThread : LockCode :=
  block [logs, logs, onFile, start, .loop logs, .loop isRunning, maybe logs, stop]

/-! ## The threads -/

/-- What a thread runs; the channels' callbacks come from the library's threads. Kind: D -/
inductive Role where
  /-- Source: `CloudNode.cpp`, `main` -/
  | main
  /-- Any other thread that calls the client's functions. -/
  | user
  /-- Source: `WebRTCClient.cpp`, `StartClient` -/
  | worker
  /-- Source: `MessagePortClient.cpp`, `Start` -/
  | reconnect
  /-- Source: `MessagePortClient.cpp`, `MakeSocket` -/
  | socket
  /-- Source: `WebRTCClient.cpp`, `MakeDataChannel`, `OnOffer` -/
  | callbacks
  /-- Source: `WebRTCClient.cpp`, `MakeDataChannel` -/
  | transfer (k : ℕ)
  /-- Source: `FileWatcher.cpp`, `Run` -/
  | watcher
  deriving DecidableEq

/-- What the client offers to the thread that has it. Kind: D -/
def userCalls : List LockCode :=
  [queueFile, queueFileToAll, takeReceivedFile, isRunning, start, stop, onFile, logs]

/-- What the library's threads call. Kind: D -/
def libraryCalls : List LockCode :=
  [gathering, channelCallback, onDataChannel, incomingCallback, localCallback]

/-- Kind: D -/
def Role.code : Role → LockCode
  | .main => mainThread
  | .user => .loop (oneOf userCalls)
  | .worker => startClient
  | .reconnect => reconnectThread
  | .socket => .loop socketCallback
  | .callbacks => .loop (oneOf libraryCalls)
  | .transfer k => transferThread k
  | .watcher => watcherThread

/-! ## All of it keeps to the order -/

variable {held : List Mutex} {c d test : LockCode} {m : Mutex}

/-- Kind: L -/
@[simp] theorem ordered_logs :
    Ordered Mutex.rank held logs ↔ ∀ x ∈ held, x.rank < 2 := by
  simp [logs, Mutex.rank]

/-- Kind: L -/
@[simp] theorem ordered_guarded :
    Ordered Mutex.rank held (guarded m) ↔ ∀ x ∈ held, x.rank < m.rank := by
  simp [guarded]

/-- Kind: L -/
@[simp] theorem ordered_maybe :
    Ordered Mutex.rank held (maybe c) ↔ Ordered Mutex.rank held c := by
  simp [maybe]

/-- Kind: L -/
@[simp] theorem ordered_early :
    Ordered Mutex.rank held (early c d) ↔
      Ordered Mutex.rank held c ∧ Ordered Mutex.rank held d := by
  simp [early]

/-- Kind: L -/
@[simp] theorem ordered_oneOf {cs : List LockCode} :
    Ordered Mutex.rank held (oneOf cs) ↔ ∀ c ∈ cs, Ordered Mutex.rank held c := by
  induction cs with
  | nil => simp [oneOf]
  | cons c cs ih => rw [oneOf, List.foldr_cons, Mutexes.ordered_choice, List.forall_mem_cons,
      ← oneOf, ih]

/-- A wait takes its mutex as the code around it did. Kind: L -/
@[simp] theorem ordered_waits :
    Ordered Mutex.rank (m :: held) (waits m test) ↔
      (∀ x ∈ held, x.rank < m.rank) ∧ Ordered Mutex.rank (m :: held) test := by
  simp only [waits, Mutexes.ordered_seq, Mutexes.ordered_loop, Mutexes.ordered_release,
    Mutexes.ordered_skip, true_and, and_true]
  constructor
  · rintro ⟨htest, hranks, -⟩
    exact ⟨hranks, htest⟩
  · rintro ⟨hranks, htest⟩
    exact ⟨htest, hranks, htest⟩

/-- A message can be sent with the tables and the worker's state in hand. Kind: L -/
@[simp] theorem ordered_sendMessage :
    Ordered Mutex.rank held sendMessage ↔ ∀ x ∈ held, x.rank < 1 := by
  simp only [sendMessage, waitUntilRunning, send, Mutexes.ordered_seq, Mutexes.ordered_hold,
    Mutexes.ordered_skip, ordered_waits, ordered_early, ordered_logs, ordered_guarded, and_true]
  constructor
  · rintro ⟨-, -, hport⟩
    exact hport
  · intro hport
    exact ⟨⟨hport, hport⟩, fun x hx => Nat.lt_succ_of_lt (hport x hx), hport⟩

/-- Kind: L -/
theorem ordered_sendOrLog : Ordered Mutex.rank [] sendOrLog := by
  simp [sendOrLog]

/-- A channel is made with no mutex in hand. Kind: L -/
theorem ordered_makeDataChannel : Ordered Mutex.rank [] makeDataChannel := by
  simp [makeDataChannel, makePeerConnection, obtainInitialDescription]

/-- Kind: L -/
theorem ordered_wakeFileTransferWorkers : Ordered Mutex.rank [] wakeFileTransferWorkers := by
  simp [wakeFileTransferWorkers]

/-- Kind: L -/
theorem ordered_transferThread (k : ℕ) : Ordered Mutex.rank [] (transferThread k) := by
  simp [transferThread, getItem, waitForCapacity, sendFileComplete, ordered_sendOrLog]

/-- The next incoming file is begun with the table in hand. Kind: L -/
theorem ordered_startNextIncoming : Ordered Mutex.rank [.incoming] startNextIncoming := by
  simp [startNextIncoming, Mutex.rank]

/-- Whatever message comes. Kind: L -/
theorem ordered_messageRouter : Ordered Mutex.rank [] messageRouter := by
  have hsend := ordered_sendOrLog
  have hnext := ordered_startNextIncoming
  have hroom : Ordered Mutex.rank [] leave := by simp [leave, Mutex.rank]
  simp [messageRouter, onJoin, onLeave, onFileAccept, onFileReject, onOffer, onAnswer, onCandidate,
    onFileOffer, onFileComplete, onPingPong, updatePeers, takePendingOffer, makePeerConnection,
    findPeerConnection, addItem, sendFileAccept, sendFileReject, Mutex.rank, hsend, hnext, hroom]

/-- Kind: L -/
theorem ordered_socketCallback : Ordered Mutex.rank [] socketCallback := by
  simp [socketCallback, onMessageOpen, onMessageClose, clearRooms, Mutex.rank,
    ordered_messageRouter, ordered_wakeFileTransferWorkers]

/-- Rooms are joined with no mutex in hand; the worker lets go of its own before. Kind: L -/
theorem ordered_joinRooms : Ordered Mutex.rank [] joinRooms := by
  simp [joinRooms, inRoom, getPeers, joinRoom, Mutex.rank]

/-- Kind: L -/
theorem ordered_connectPeer : Ordered Mutex.rank [] connectPeer := by
  simp [connectPeer, getPeers, ordered_makeDataChannel, Mutex.rank]

/-- Kind: L -/
theorem ordered_sendFileOffer : Ordered Mutex.rank [] sendFileOffer := by
  simp [sendFileOffer, Mutex.rank]

/-- Kind: L -/
theorem ordered_offerFiles : Ordered Mutex.rank [] offerFiles := by
  simp [offerFiles, getPeers, ordered_joinRooms, ordered_makeDataChannel, ordered_sendFileOffer,
    Mutex.rank]

/-- Whatever the worker's state is, it does its work with its mutex let go. Kind: L -/
theorem ordered_startClient : Ordered Mutex.rank [] startClient := by
  simp [startClient, sendPing, ordered_sendOrLog, ordered_joinRooms, ordered_connectPeer,
    ordered_offerFiles, Mutex.rank]

/-- Kind: L -/
theorem ordered_queueFileToAll : Ordered Mutex.rank [] queueFileToAll := by
  simp [queueFileToAll, queueFile]

/-- Kind: L -/
theorem ordered_stop : Ordered Mutex.rank [] stop := by
  simp [stop, portStop, ordered_wakeFileTransferWorkers]

/-- Kind: L -/
theorem ordered_mem_userCalls (hc : c ∈ userCalls) : Ordered Mutex.rank [] c := by
  suffices hall : ∀ c ∈ userCalls, Ordered Mutex.rank [] c from hall c hc
  simp [userCalls, queueFile, takeReceivedFile, isRunning, start, portStart, onFile,
    ordered_queueFileToAll, ordered_stop]

/-- Kind: L -/
theorem ordered_mem_libraryCalls (hc : c ∈ libraryCalls) : Ordered Mutex.rank [] c := by
  suffices hall : ∀ c ∈ libraryCalls, Ordered Mutex.rank [] c from hall c hc
  simp [libraryCalls, gathering, channelCallback, onDataChannel, incomingCallback, onIncomingChunk,
    localCallback, ordered_sendOrLog, ordered_startNextIncoming, Mutex.rank]

/-- Kind: L -/
theorem ordered_watcherThread : Ordered Mutex.rank [] watcherThread := by
  simp [watcherThread, notify, flushIfQuiet, changeCallback, takeReceivedFile,
    ordered_queueFileToAll]

/-- **Every thread of the client takes its mutexes in order.** Kind: P -/
theorem ordered_code (r : Role) : Ordered Mutex.rank [] r.code := by
  cases r with
  | main => simp [Role.code, mainThread, onFile, start, portStart, isRunning, ordered_stop]
  | user => simpa [Role.code] using fun _ => ordered_mem_userCalls
  | worker => exact ordered_startClient
  | reconnect => simp [Role.code, reconnectThread]
  | socket => simpa [Role.code] using ordered_socketCallback
  | callbacks => simpa [Role.code] using fun _ => ordered_mem_libraryCalls
  | transfer k => exact ordered_transferThread k
  | watcher => exact ordered_watcherThread

/-- Kind: L -/
theorem rank_le (m : Mutex) : m.rank ≤ 2 := by
  cases m <;> simp [Mutex.rank]

variable {ι : Type*} [DecidableEq ι]

/-- **The client's threads never wait for each other's mutexes in a circle**, however many there are
and whatever they run: a thread that has not finished can take its next step, or waits for a mutex
that another one has, and that one, or the one it waits for in turn, can take a step. Kind: P -/
theorem no_circle (roles : ι → Role) {es : List (ι × ℕ)} {s : Mutexes.Pool ι Mutex} {i : ι}
    (hrun : Runs.run Mutexes.step (Mutexes.start fun i => (roles i).code) es = some s)
    (hrest : s.rest i ≠ []) :
    ∃ j, Relation.ReflTransGen (Mutexes.WaitsFor s) i j ∧
      (Mutexes.step s (j, 0)).isSome = true :=
  Mutexes.exists_mover rank_le (fun i => ordered_code (roles i)) hrun hrest

/-- Two threads queue a file; the first one has the worker's mutex, the second one wants it.
Kind: D -/
def bothQueue : List (Fin 2 × ℕ) :=
  [(0, 1), (0, 0), (0, 1), (0, 0), (0, 0), (1, 1), (1, 0), (1, 1), (1, 0)]

/-- The second one waits for a thread that can go on. Kind: P -/
theorem no_circle_bothQueue :
    ∃ s, Runs.run Mutexes.step (Mutexes.start fun _ => Role.user.code) bothQueue = some s ∧
      s.owner .clientState = some 0 ∧
      ∃ j, Relation.ReflTransGen (Mutexes.WaitsFor s) 1 j ∧
        (Mutexes.step s (j, 0)).isSome = true := by
  let mid := Runs.run Mutexes.step (Mutexes.start fun _ : Fin 2 => Role.user.code) bothQueue
  have howner : mid.map (fun s => s.owner .clientState) = some (some 0) := rfl
  have hleft : mid.map (fun s => (s.rest 1).length) = some 4 := rfl
  obtain ⟨s, hrun, howns⟩ := Option.map_eq_some_iff.mp howner
  have hrest : s.rest 1 ≠ [] := by
    intro hnil
    rw [hrun, Option.map_some, hnil] at hleft
    cases hleft
  exact ⟨s, hrun, howns, no_circle (fun _ => .user) hrun hrest⟩

end LockCode

end CloudNode
