import TcpFrame.Conn
import TcpFrame.MinHeap

/-!
# A worker

The model of the reactor of one process: the timer functions and the batch loop
of `reactor.c`, with the functions of `socket_util.c` that make and destroy
connections. A `Worker` is an `EventBase` together with the memory its pointers
lead to: the timer nodes (in the heap) and the connections.

Where a connection is used that is not there any more, or a function pointer
that is `NULL` or was never written is called, what happens is not defined, and
the worker stops with `ProcessFate.undefined`. Nor is it where an access of a
callback leaves the memory it is for, and may hit other objects: the worker
stops with `ProcessFate.overrun`. A worker also stops where the code calls
`exit`, and where it is caught in a loop.

What `accept`, `read`, `write`, `malloc` and `realloc` do is an argument of the
functions that call them.
-/

/-- What has become of the process. -/
inductive ProcessFate where
  | running
  | exited
  | hung
  | undefined
  | overrun
  deriving DecidableEq, Repr

/-- A callback the batch loop makes: the descriptor, the function and its
argument, and the serial number of the connection that is alive there. -/
structure Invocation where
  iFd : ℤ
  proc : EventCallbackProc
  pstArg : Option ConnPtr
  serial : Option ℕ
  deriving DecidableEq, Repr

/-- `EventBase`, and the memory behind it. -/
structure Worker where
  table : EventTable
  pstHeapHeader : MinHeap
  pstTimeCache : TimeVal
  iEpType : ℤ
  iListenFd : ℤ
  iClientCount : ℤ
  /-- What `getpid` returns. -/
  iPid : ℤ
  /-- The memory of the connections. -/
  conns : ConnPtr → Option ConnFd
  /-- The serial number of the next connection. -/
  nextSerial : ℕ
  /-- The timeout callbacks so far, each with the serial number of the
  connection whose timer it was, if that was alive. -/
  timeouts : List (Option ℕ)
  /-- The event callbacks so far. -/
  invoked : List Invocation
  fate : ProcessFate

/-- `exit`. -/
def Worker.exit (w : Worker) : Worker := { w with fate := .exited }

/-- `EventBaseCreate`, over zero slots and any memory of nodes, where nothing
fails. -/
def eventBaseCreate (table : EventTable) (event : NodePtr → TimeoutEvent)
    (pstTimeCache : TimeVal) (t_iFd iPid : ℤ) : Worker where
  table := (eventAdd table t_iFd eventReadable (some .processAcceptCallback) none).2
  pstHeapHeader := minheapCreate event
  pstTimeCache := pstTimeCache
  iEpType := epollLtType
  iListenFd := t_iFd
  iClientCount := 0
  iPid := iPid
  conns := fun _ => none
  nextSerial := 0
  timeouts := []
  invoked := []
  fate := .running

/-! ## Timers -/

/-- The interval `RegisterTimerOutEvent` makes of a number of milliseconds. What
is left of the last second is taken for microseconds. -/
def timerInterval (t_uSec : ℤ) : TimeVal := ⟨t_uSec.tdiv 1000, t_uSec.tmod 1000⟩

/-- The heap once `RegisterTimerOutEvent` has given the node its interval and its
deadline, wherever the node is. -/
def Worker.rearmed (w : Worker) (t_pstTimeoutEvent : NodePtr) (t_uSec : ℤ) : MinHeap :=
  (w.pstHeapHeader.setInterval t_pstTimeoutEvent (timerInterval t_uSec)).setTimeout
    t_pstTimeoutEvent (minheapTimeradd w.pstTimeCache (timerInterval t_uSec))

/-- `RegisterTimerOutEvent`. It looks at neither of the two results. -/
def registerTimerOutEvent (w : Worker) (t_pstTimeoutEvent : NodePtr) (t_uSec : ℤ)
    (realloc : Bool) : Worker :=
  let h := w.rearmed t_pstTimeoutEvent t_uSec
  let h := (minheapErase h t_pstTimeoutEvent).2
  let h := (minHeapPush h t_pstTimeoutEvent realloc).2
  { w with pstHeapHeader := h }

/-- `UnregisterTimerOutEvent`. -/
def unregisterTimerOutEvent (w : Worker) (t_pstTimeoutEvent : NodePtr) : Ret × Worker :=
  let (iRet, h) := minheapErase w.pstHeapHeader t_pstTimeoutEvent
  (iRet, { w with pstHeapHeader := h })

/-! ## Connections -/

/-- `__DestroyConn`. -/
def destroyConn (w : Worker) (t_pstConnFd : ConnPtr) : Worker :=
  match w.conns t_pstConnFd with
  | none => { w with fate := .undefined }
  | some conn =>
    let w := { w with iClientCount := w.iClientCount - 1 }
    match eventDel w.table conn.iFd (eventWritable ||| eventReadable) with
    | (Ret.fail, table) => Worker.exit { w with table := table }
    | (Ret.succ, table) =>
      let w := { w with table := { table with epoll := table.epoll.close conn.iFd } }
      let w := (unregisterTimerOutEvent w conn.pstTimeoutEvent).2
      { w with
        table := fdFileEventInit w.table conn.iFd
        conns := Function.update w.conns t_pstConnFd none }

/-- `ConnectionTimeoutCallback`. -/
def connectionTimeoutCallback (w : Worker) (t_pstArg : Option ConnPtr) : Worker :=
  match t_pstArg with
  | none => w
  | some c => destroyConn w c

/-- A descriptor that `accept` returns, with the memory `__CreateNewConn` gets
for it, and whether the calls behind it succeed: `PynServerSetNonblock`, the
four calls to `malloc`, and the `realloc` of the heap. -/
structure Accepted where
  iClientFd : ℤ
  pstNewConnFd : ConnPtr
  pstTimeoutEvent : NodePtr
  pszRecvBuf : ℤ → UInt8
  pszSendBuf : ℤ → UInt8
  nonblock : Bool
  malloc : Bool
  realloc : Bool

/-- What `accept` does, once it is not interrupted. -/
inductive AcceptOutcome where
  | conn (a : Accepted)
  | eagain
  | error

/-- `__CreateNewConn`, where there is memory. -/
def createNewConn (w : Worker) (a : Accepted) : Worker :=
  { w with
    pstHeapHeader := minheapTimeoutEventInit w.pstHeapHeader a.pstTimeoutEvent none none
      w.iPid a.iClientFd
    table := fdFileEventInit w.table a.iClientFd
    conns := Function.update w.conns a.pstNewConnFd
      (some (.create a.iClientFd a.pstTimeoutEvent a.pszRecvBuf a.pszSendBuf w.nextSerial))
    nextSerial := w.nextSerial + 1 }

/-- `ProcessAcceptCallback`. -/
def processAcceptCallback (w : Worker) (t_iFd : ℤ) (accept : AcceptOutcome) : Worker :=
  if t_iFd < 0 then w
  else if w.iEpType = epollEtType then w
  else if w.iEpType = epollLtType then
    match accept with
    | .eagain => w
    | .error => w.exit
    | .conn a =>
      let w := { w with
        table := { w.table with epoll := w.table.epoll.accept a.iClientFd }
        iClientCount := w.iClientCount + 1 }
      if !a.nonblock || !a.malloc then w.exit
      else
        let w := createNewConn w a
        let w := { w with
          pstHeapHeader := minheapTimeoutEventInit w.pstHeapHeader a.pstTimeoutEvent
            (some .connectionTimeoutCallback) (some a.pstNewConnFd) w.iPid a.iClientFd }
        let w := registerTimerOutEvent w a.pstTimeoutEvent maxConnTimeout a.realloc
        match eventAdd w.table a.iClientFd eventReadable (some .processRecvCallback)
          (some a.pstNewConnFd) with
        | (Ret.fail, table) => Worker.exit { w with table := table }
        | (Ret.succ, table) => { w with table := table }
  else w.exit

/-! ## Timeouts -/

/-- The serial number of the connection at `c`, if `p` is its timer. -/
def Worker.timerOwner (w : Worker) (p : NodePtr) (c : Option ConnPtr) : Option ℕ :=
  ((c.bind w.conns).filter (fun conn => conn.pstTimeoutEvent = p)).map ConnFd.serial

/-- The loop of `ReactorProcessTimeoutEvent`. -/
def processTimeoutLoop : ℕ → Worker → Worker
  | 0, w => w
  | fuel + 1, w =>
    match minheapGetTopElement w.pstHeapHeader with
    | none => w
    | some pstHeapTopNode =>
      if minheapTimercmp (fun x y => decide (x > y))
          (w.pstHeapHeader.timeout pstHeapTopNode) w.pstTimeCache then w
      else
        let w := { w with pstHeapHeader := (minheapPop w.pstHeapHeader).2 }
        let stNode := w.pstHeapHeader.event pstHeapTopNode
        match stNode.pFunTimeoutProcCallback with
        | none => processTimeoutLoop fuel w
        | some .connectionTimeoutCallback =>
          let w := { w with
            timeouts := w.timeouts ++ [w.timerOwner pstHeapTopNode stNode.pstCallbackArg] }
          let w := connectionTimeoutCallback w stNode.pstCallbackArg
          if w.fate = .running then processTimeoutLoop fuel w else w

/-- `ReactorProcessTimeoutEvent`. Every round pops a node, so it ends after as
many rounds as there are nodes at most. -/
def reactorProcessTimeoutEvent (w : Worker) : Worker :=
  processTimeoutLoop w.pstHeapHeader.iNodeUsed w

/-! ## The wait -/

/-- `GetEPollwaitTimeoutValue`: what it returns, what it leaves in
`*t_pstTimeoutEvSave`, and the worker, whose clock it may read. -/
def getEPollwaitTimeoutValue (w : Worker) (gettimeofday t_pstTimeoutEvSave : TimeVal) :
    ℤ × TimeVal × Worker :=
  match minheapGetTopElement w.pstHeapHeader with
  | none => (-1, t_pstTimeoutEvSave, w)
  | some pstHeapTopTimeout =>
    let w := if w.pstTimeCache.tv_sec = 0 then { w with pstTimeCache := gettimeofday } else w
    let stTimeout := w.pstHeapHeader.timeout pstHeapTopTimeout
    if minheapTimercmp (fun x y => decide (x ≤ y)) w.pstTimeCache stTimeout then
      (0, minheapTimersub stTimeout w.pstTimeCache, w)
    else (0, ⟨0, 0⟩, w)

/-- The right-hand sides `ReactorEventDispatchLoop` assigns to
`iEpollwaitTimeout`. The second one is a `long`. -/
def epollwaitMillis (w : Worker) (gettimeofday stTimeSave : TimeVal) : ℤ :=
  let (iRet, stTimeSave, _) := getEPollwaitTimeoutValue w gettimeofday stTimeSave
  if iRet < 0 then -1
  else stTimeSave.tv_sec * 1000 + (stTimeSave.tv_usec + 999).tdiv 1000

/-- The timeout `ReactorEventDispatchLoop` hands to `epoll_wait`, an `int`. -/
def iEpollwaitTimeout (w : Worker) (gettimeofday stTimeSave : TimeVal) : ℤ :=
  int32 (epollwaitMillis w gettimeofday stTimeSave)

/-! ## The batch loop -/

/-- A call to the reactor for the connection `conn` at `c`. Where a registration
fails, the process exits. -/
def Worker.serve (w : Worker) (c : ConnPtr) (conn : ConnFd) (realloc : Bool) :
    ReactorCall → Worker
  | .eventAdd iEventMask pEventCallbackProc =>
    match eventAdd w.table conn.iFd iEventMask (some pEventCallbackProc) (some c) with
    | (Ret.fail, table) => Worker.exit { w with table := table }
    | (Ret.succ, table) => { w with table := table }
  | .eventDel iEventMask =>
    match eventDel w.table conn.iFd iEventMask with
    | (Ret.fail, table) => Worker.exit { w with table := table }
    | (Ret.succ, table) => { w with table := table }
  | .registerTimerOutEvent t_uSec => registerTimerOutEvent w conn.pstTimeoutEvent t_uSec realloc
  | .destroyConn => destroyConn w c

/-- A call to the reactor from a callback of the connection at `c`. A process
that has ended makes none. -/
def reactorCall (c : ConnPtr) (realloc : Bool) (w : Worker) (call : ReactorCall) : Worker :=
  if w.fate = .running then
    match w.conns c with
    | none => { w with fate := .undefined }
    | some conn => w.serve c conn realloc call
  else w

theorem reactorCall_live {w : Worker} {c : ConnPtr} {conn : ConnFd} {realloc : Bool}
    {call : ReactorCall} (hrun : w.fate = .running) (hc : w.conns c = some conn) :
    reactorCall c realloc w call = w.serve c conn realloc call := by
  unfold reactorCall
  rw [if_pos hrun, hc]

/-- What the callbacks of one event find: what `accept` does, what there is to
read and what `read` does, what `malloc` and `realloc` find, and what `write`
does. -/
structure EventInput where
  accept : AcceptOutcome
  rx : List UInt8
  head : List ReadOutcome
  body : List ReadOutcome
  malloc : Malloc
  realloc : Bool
  writes : List WriteOutcome

/-- An event callback, with the argument `t_pData` of the slot. -/
def eventCallback (w : Worker) (input : EventInput) (t_iFd : ℤ) (t_pData : Option ConnPtr) :
    EventCallbackProc → Worker
  | .processAcceptCallback => processAcceptCallback w t_iFd input.accept
  | .processRecvCallback =>
    match t_pData with
    | none => w
    | some c =>
      match w.conns c with
      | none => { w with fate := .undefined }
      | some conn =>
        let r := processRecvCallback conn t_iFd input.malloc input.head input.body input.rx
        let w := { w with conns := Function.update w.conns c (some r.conn) }
        if r.conn.overran then { w with fate := .overrun }
        else
          let w := r.calls.foldl (reactorCall c input.realloc) w
          if r.returns then w else { w with fate := .hung }
  | .processSendCallback =>
    match t_pData with
    | none => w
    | some c =>
      match w.conns c with
      | none => { w with fate := .undefined }
      | some conn =>
        let r := processSendCallback conn t_iFd input.writes
        let w := { w with conns := Function.update w.conns c (some r.conn) }
        r.calls.foldl (reactorCall c input.realloc) w
  | .wild _ => { w with fate := .undefined }

/-- The batch loop calls a function of a slot. -/
def Worker.call (w : Worker) (input : EventInput) (iTriggerFd : ℤ)
    (pFunEventCallback : Option EventCallbackProc) : Worker :=
  match pFunEventCallback with
  | none => { w with fate := .undefined }
  | some proc =>
    let pstArg := (w.table.slot iTriggerFd).pstArg
    let w := { w with
      invoked := w.invoked ++ [⟨iTriggerFd, proc, pstArg, (pstArg.bind w.conns).map ConnFd.serial⟩] }
    eventCallback w input iTriggerFd pstArg proc

/-- `struct epoll_event`, as `epoll_wait` returns it. -/
structure EpollEvent where
  fd : ℤ
  epollin : Bool
  epollout : Bool
  epollhup : Bool
  epollerr : Bool
  deriving DecidableEq, Repr

/-- The mask of a triggered event. -/
def EpollEvent.iMask (ev : EpollEvent) : BitVec 32 :=
  (if ev.epollin then eventReadable else 0)
    ||| (if ev.epollout || ev.epollhup || ev.epollerr then eventWritable else 0)

/-- **One round of the batch loop of `ReactorEventDispatchLoop`.** The slot is
read anew for the second callback. -/
def dispatchEvent (w : Worker) (ev : EpollEvent) (input : EventInput) : Worker :=
  let w := { w with table := w.table.access ev.fd }
  let pstFdEventNode := w.table.slot ev.fd
  let w :=
    if pstFdEventNode.iMask &&& ev.iMask &&& eventReadable ≠ 0 then
      w.call input ev.fd pstFdEventNode.pFunEventCallbackRead
    else w
  if w.fate ≠ .running then w
  else
    let pstFdEventNode := w.table.slot ev.fd
    if pstFdEventNode.iMask &&& ev.iMask &&& eventWritable ≠ 0 then
      w.call input ev.fd pstFdEventNode.pFunEventCallbackWrite
    else w
