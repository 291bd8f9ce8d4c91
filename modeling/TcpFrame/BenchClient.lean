import TcpFrame.Worker

/-!
# The benchmark client

The model of `client/http/worker.c`: one process that keeps `needClientNum`
connections to a server, sends one request on each and waits for the response,
and opens another connection for one that is gone.

A client is looked up by its descriptor modulo `needClientNum`, in an array of
that many slots. The kernel is that of the event table; in addition `socket`
returns the lowest free descriptor, if the process may have it
(`Epoll.lowestFree`).

The process is a machine (`Benchmark.step`) whose control points are the rounds
of the two loops that create clients, the return of `epoll_wait`, the event that
is handled next, and the check for timeouts at the end of a batch. What is
received is left out, and so are the rates the report computes from the times at
which the loop begins and ends.

A `Tally` is kept beside the process, of the requests that are under way and of
the responses that were counted. Nothing the process does depends on it.
-/

/-! ## Data -/

/-- `ENONE`, `READABLE` and `WRITEABLE`. -/
def enone : BitVec 32 := 0

@[inherit_doc enone] def readable : BitVec 32 := 1

@[inherit_doc enone] def writeable : BitVec 32 := 2

/-- `FDARRAY_INDEX_INIT`, in the descriptor of an empty slot. -/
def fdarrayIndexInit : ℤ := -1

def maxRecvBufLen : ℕ := 4096

def maxSendBufLen : ℕ := 4096

def maxFailCount : ℤ := 1000

/-- `CONNECT_TIMEOUT`, in seconds. -/
def connectTimeout : ℕ := 3

def timeoutUsecTimeval : ℕ := 200000

/-- `PROTOCOL`. -/
inductive Protocol where
  | tcp
  | udp
  deriving DecidableEq, Repr

/-- The callbacks of a client. -/
inductive FuncProcCallback where
  | sendToServerCallback
  | recvFromServerCallback
  deriving DecidableEq, Repr

/-- `ClientFD`. The two pointers, which are the same for all clients, the receive
buffer and what no function reads are left out. -/
structure ClientFD where
  fd : ℤ
  mask : BitVec 32
  latency : ℤ
  startTime : ℕ
  touchTime : ℕ
  recvBufLen : ℕ
  sendedLen : ℕ
  sendBufLen : ℕ
  /-- What `EncodeRequest` has put into the buffer. -/
  sendBuf : List UInt8
  rFuncProc : Option FuncProcCallback
  wFuncProc : Option FuncProcCallback
  deriving DecidableEq, Repr

/-- The options and the counters of `StatisticsStruct`. -/
structure StatisticsStruct where
  resetClientNum : ℕ
  timeoutClientNum : ℕ
  totalRequests : ℕ
  needRequestNum : ℕ
  doneRequests : ℕ
  keepalive : ℤ
  liveClientNum : ℕ
  createClientNum : ℕ
  needClientNum : ℕ
  randomFlag : ℤ
  protocol : Protocol

/-- `InitConfig`, with the options that are given. -/
def initConfig (needClientNum needRequestNum : ℕ) (keepalive randomFlag : ℤ)
    (protocol : Protocol) : StatisticsStruct where
  resetClientNum := 0
  timeoutClientNum := 0
  totalRequests := 0
  needRequestNum := needRequestNum
  doneRequests := 0
  keepalive := keepalive
  liveClientNum := 0
  createClientNum := 0
  needClientNum := needClientNum
  randomFlag := randomFlag
  protocol := protocol

/-- **The `unsigned` a computation leaves** for the exact result `x`. -/
def uint32 (x : ℤ) : ℕ := (x % 2 ^ 32).toNat

/-- **The `uint64_t` a computation leaves** for the exact result `x`. -/
def uint64 (x : ℤ) : ℕ := (x % 2 ^ 64).toNat

/-- Where the process is. -/
inductive BenchPhase where
  /-- In the loop of `InitSingleReactor`, before `ReactorClientInit`. -/
  | creating
  /-- In `epoll_wait`. -/
  | waiting
  /-- In the batch loop, with the events that are not handled yet. -/
  | handling (events : List EpollEvent)
  /-- In the loop at the end of `ReactorBenchmarkLoop`, before
  `ReactorClientInit`. -/
  | refilling
  | finished
  | exited
  /-- A `NULL` pointer was used. -/
  | undefined
  deriving DecidableEq, Repr

/-- A connection that `ReactorClientInit` has opened. -/
structure Opened where
  /-- What `GetusecTime` returned when it was opened, or when a callback was last
  called for it. -/
  since : ℕ
  /-- Whether a callback was called for it. -/
  served : Bool
  /-- The bytes that were written on it. -/
  sent : List UInt8
  deriving DecidableEq, Repr

/-- A request that is under way, in a slot. -/
structure Asked where
  /-- What `GetusecTime` returned when its first byte was to be written. -/
  began : ℕ
  /-- What it returned when the connection was first read from after that. -/
  heard : Option ℕ
  deriving DecidableEq, Repr

/-- **What is kept beside the process.** -/
structure Tally where
  /-- Whether the array of latencies was written outside its bounds. -/
  overrun : Bool
  asked : ℕ → Option Asked
  /-- For each response that was counted, how long it took, as far as there was a
  request for it. -/
  answered : List (Option ℤ)

/-- The process: the configuration, what its pointers lead to, and the kernel. -/
structure Benchmark where
  config : StatisticsStruct
  clientsPtr : ℕ → ClientFD
  latency : ℕ → ℕ
  /-- The descriptors of the process, and the instance behind `epfd`. -/
  epoll : Epoll
  /-- How many descriptors the process may have. -/
  limit : ℕ
  /-- `stop` of the `EpollLoop`: `0` ends the loop. -/
  stop : ℤ
  /-- What `GetusecTime` returns. -/
  usec : ℕ
  lastCheckUstime : ℕ
  epollFail : ℤ
  /-- Whether `ReactorClientInit` has found a slot taken. -/
  collided : Bool
  /-- Whether `liveClientNum` has been decremented from zero. -/
  underflowed : Bool
  /-- The connection in a slot. -/
  held : ℕ → Option Opened
  tally : Tally
  phase : BenchPhase

/-- The lowest free descriptor, if the process may have it. -/
def Epoll.lowestFree (e : Epoll) (limit : ℕ) : Option ℕ :=
  (List.range limit).find? (fun fd => decide (e.fd fd = .closed))

namespace Benchmark

/-- The slot of a descriptor. -/
def slotIndex (b : Benchmark) (fd : ℤ) : ℕ := (fd % b.config.needClientNum).toNat

/-- Write a slot. -/
def setClient (b : Benchmark) (i : ℕ) (pclient : ClientFD) : Benchmark :=
  { b with clientsPtr := Function.update b.clientsPtr i pclient }

/-- `close`. -/
def close (b : Benchmark) (fd : ℤ) : Benchmark := { b with epoll := b.epoll.close fd }

/-- `epoll_ctl`. -/
def ctl (b : Benchmark) (op : EpollOper) (fd : ℤ) (events : EpollEvents) : Ret × Benchmark :=
  let (ret, epoll) := b.epoll.ctl op fd events
  (ret, { b with epoll := epoll })

/-- `liveClientNum--`. -/
def dropLive (b : Benchmark) : Benchmark :=
  { b with
    config := { b.config with liveClientNum := uint32 (b.config.liveClientNum - 1) }
    underflowed := b.underflowed || decide (b.config.liveClientNum = 0) }

/-- The connection in the slot `i` is another one, or changes. -/
def hold (b : Benchmark) (i : ℕ) (o : Option Opened) : Benchmark :=
  { b with held := Function.update b.held i o }

/-- A callback is called for the connection in the slot `i`. -/
def serve (b : Benchmark) (i : ℕ) : Benchmark :=
  b.hold i ((b.held i).map (fun o => { o with since := b.usec, served := true }))

/-- Bytes are written on the connection in the slot `i`. -/
def send (b : Benchmark) (i : ℕ) (bytes : List UInt8) : Benchmark :=
  b.hold i ((b.held i).map (fun o => { o with sent := o.sent ++ bytes }))

/-- A request begins in the slot `i`, unless it is written in part. -/
def ask (b : Benchmark) (i : ℕ) : Benchmark :=
  { b with tally := { b.tally with
      asked := if (b.clientsPtr i).sendedLen = 0 then
          Function.update b.tally.asked i (some ⟨b.usec, none⟩)
        else b.tally.asked } }

/-- The client in the slot `i` is read from. -/
def hear (b : Benchmark) (i : ℕ) : Benchmark :=
  { b with tally := { b.tally with
      asked := Function.update b.tally.asked i ((b.tally.asked i).map
        (fun q => { q with heard := some (q.heard.getD b.usec) })) } }

/-- The request in the slot `i` is given up. -/
def forget (b : Benchmark) (i : ℕ) : Benchmark :=
  { b with tally := { b.tally with asked := Function.update b.tally.asked i none } }

/-- A response to the client in the slot `i` is counted, and its latency kept. -/
def count (b : Benchmark) (i : ℕ) (latency : ℤ) : Benchmark :=
  { b with
    config := { b.config with doneRequests := b.config.doneRequests + 1 }
    latency := Function.update b.latency b.config.doneRequests (uint64 latency)
    tally := {
      overrun := b.tally.overrun || decide (b.config.needRequestNum ≤ b.config.doneRequests)
      asked := Function.update b.tally.asked i none
      answered := b.tally.answered ++ [(b.tally.asked i).bind
        (fun q => q.heard.map (fun heard : ℕ => (heard : ℤ) - q.began))] } }

/-- `exit`. -/
def exit (b : Benchmark) : Benchmark := { b with phase := .exited }

end Benchmark

/-! ## Requests and responses -/

/-- The lines `EncodeRequest` prints into `buf`. -/
def requestLines : List String :=
  ["GET / HTTP/1.1\r\n", "Host: xx.com\r\n", "Connection: keep-alive\r\n",
    "User-Agent: Mozilla/5.0 (Windows NT 5.1) AppleWebKit/535.11 (KHTML, like Gecko) "
      ++ "Chrome/17.0.963.56 Safari/535.11\r\n",
    "Referer: http://sbdji.com/\r\n", "Accept: */*\r\n", "Accept-Encoding: gzip,deflate,sdch\r\n",
    "Accept-Language: zh-CN,zh;q=0.8,en;q=0.6\r\n",
    "Accept-Charset: gb18030,utf-8;q=0.7,*;q=0.3\r\n", "\r\n"]

/-- The bytes of the request. -/
def request : List UInt8 :=
  requestLines.flatMap (fun line => line.toList.map (fun c => c.toNat.toUInt8))

/-- What `EncodeRequest` returns. The request has `334` bytes. -/
def encodeRequest (maxLen : ℤ) : ℤ := if 334 > maxLen then -1 else 334

theorem length_request : request.length = 334 := by decide +kernel

/-- What `EncodeRequest` leaves in `data`. -/
def encodedRequest (data : List UInt8) (maxLen : ℤ) : List UInt8 :=
  if 334 > maxLen then data else request

/-- `DecodeResponse`. -/
def decodeResponse : ℤ := 0

/-! ## The reactor -/

/-- The events a mask of a client stands for. -/
def clientEvents (mask : BitVec 32) : EpollEvents where
  epollin := mask &&& readable != 0
  epollout := mask &&& writeable != 0

/-- `ReactorAddEvent`, for the client in the slot `i`. -/
def reactorAddEvent (b : Benchmark) (i : ℕ) (t_imask : BitVec 32) (func : FuncProcCallback) :
    Ret × Benchmark :=
  let pclient := b.clientsPtr i
  let op := if pclient.mask = enone then EpollOper.add else EpollOper.mod
  let pclient := { pclient with mask := pclient.mask ||| t_imask }
  if t_imask &&& writeable ≠ 0 then
    (b.setClient i { pclient with wFuncProc := some func }).ctl op pclient.fd
      (clientEvents pclient.mask)
  else if t_imask &&& readable ≠ 0 then
    (b.setClient i { pclient with rFuncProc := some func }).ctl op pclient.fd
      (clientEvents pclient.mask)
  else (Ret.fail, b.setClient i pclient)

/-- `ReactorDelEvent`. -/
def reactorDelEvent (b : Benchmark) (i : ℕ) (t_imask : BitVec 32) : Ret × Benchmark :=
  let pclient := b.clientsPtr i
  let pclient := { pclient with mask := pclient.mask &&& ~~~t_imask }
  let op := if pclient.mask = enone then EpollOper.del else EpollOper.mod
  (b.setClient i pclient).ctl op pclient.fd (clientEvents pclient.mask)

/-- What `ReactorClientInit` finds: whether `socket` succeeds where a descriptor is
free, whether `SetNonBlock` and `SetTcpNoDelay` do, and whether `connect` succeeds
or is in progress. -/
structure ClientAttempt where
  socket : Bool
  nonblock : Bool
  connect : Bool
  nodelay : Bool
  deriving DecidableEq, Repr

/-- `ReactorClientInit`, where `encode` is what `EncodeRequest` returns and leaves in
the buffer it is given. The index it is given itself is not looked at. -/
def reactorClientInitWith (encode : List UInt8 → ℤ × List UInt8) (b : Benchmark)
    (a : ClientAttempt) : Ret × Benchmark :=
  match if a.socket then b.epoll.lowestFree b.limit else none with
  | none => (Ret.fail, b)
  | some fd =>
    let b := { b with epoll := b.epoll.accept fd }
    if !a.nonblock then (Ret.fail, b.close fd)
    else if !a.connect then (Ret.fail, b.close fd)
    else if b.config.protocol = .tcp ∧ !a.nodelay then (Ret.fail, b.close fd)
    else
      let i := b.slotIndex fd
      if (b.clientsPtr i).fd ≠ fdarrayIndexInit then
        (Ret.fail, { b.close fd with collided := true })
      else
        let encoded := encode (b.clientsPtr i).sendBuf
        let pclient := { b.clientsPtr i with
          fd := fd
          mask := enone
          sendBufLen := uint32 encoded.1
          sendBuf := encoded.2 }
        -- the length is unsigned, so that the test never holds
        if pclient.sendBufLen < 0 then (Ret.fail, (b.setClient i pclient).close fd)
        else
          match reactorAddEvent (b.setClient i { pclient with sendedLen := 0, recvBufLen := 0 }) i
            writeable .sendToServerCallback with
          | (Ret.fail, b) => (Ret.fail, b.close fd)
          | (Ret.succ, b) =>
            (Ret.succ, { b.hold i (some ⟨b.usec, false, []⟩) with config := { b.config with
              liveClientNum := uint32 (b.config.liveClientNum + 1)
              createClientNum := uint32 (b.config.createClientNum + 1) } })

/-- `ReactorClientInit`. -/
def reactorClientInit (b : Benchmark) (a : ClientAttempt) : Ret × Benchmark :=
  reactorClientInitWith (fun data =>
    (encodeRequest (maxSendBufLen + 1), encodedRequest data (maxSendBufLen + 1))) b a

/-- `ReactorCloseConnection`. -/
def reactorCloseConnection (b : Benchmark) (i : ℕ) : Benchmark :=
  let pclient := b.clientsPtr i
  let b := (b.ctl .del pclient.fd ⟨false, false⟩).2
  let b := b.close pclient.fd
  (((b.setClient i { pclient with fd := fdarrayIndexInit }).hold i none).forget i).dropLive

/-- `ReactorResetClient`. -/
def reactorResetClient (b : Benchmark) (i : ℕ) : Benchmark :=
  let b := (reactorDelEvent b i readable).2
  let b := (reactorAddEvent b i writeable .sendToServerCallback).2
  let b := b.setClient i { b.clientsPtr i with recvBufLen := 0, sendedLen := 0 }
  let resetClientNum := uint32 (b.config.resetClientNum + 1)
  if b.config.randomFlag = 1 then
    let pclient := { b.clientsPtr i with
      sendBufLen := uint32 (encodeRequest (maxSendBufLen + 1))
      sendBuf := encodedRequest (b.clientsPtr i).sendBuf (maxSendBufLen + 1) }
    let b := b.setClient i pclient
    -- as above
    if pclient.sendBufLen < 0 then b.dropLive.close pclient.fd
    else { b with config := { b.config with resetClientNum := resetClientNum } }
  else { b with config := { b.config with resetClientNum := resetClientNum } }

/-- `ReactorCloseConnectionNormal`. -/
def reactorCloseConnectionNormal (b : Benchmark) (i : ℕ) (a : ClientAttempt) : Benchmark :=
  if b.config.doneRequests ≥ b.config.needRequestNum then { b with stop := 0 }
  else if b.config.keepalive ≠ 0 ∨ b.config.protocol = .udp then reactorResetClient b i
  else (reactorClientInit (reactorCloseConnection b i) a).2

/-- One round of `ClearTimeoutConnection`. -/
def clearTimeoutClient (curTime : ℕ) (b : Benchmark) (i : ℕ) : Benchmark :=
  let pclient := b.clientsPtr i
  if pclient.fd > 0 ∧ uint64 (pclient.touchTime + connectTimeout * 1000000) ≤ curTime then
    reactorResetClient { b with config := { b.config with
      timeoutClientNum := uint32 (b.config.timeoutClientNum + 1) } } i
  else b

/-- `ClearTimeoutConnection`. -/
def clearTimeoutConnection (b : Benchmark) (curTime : ℕ) : Benchmark :=
  (List.range b.config.needClientNum).foldl (clearTimeoutClient curTime) b

/-! ## The callbacks -/

/-- What a loop of reads or writes comes to: `n` bytes, nothing for now, or the end
of the connection. -/
inductive Transfer where
  | bytes (n : ℕ)
  | again
  | gone
  deriving DecidableEq, Repr

/-- The loop of `SendToServerCallback`, over what `write` does with `left` bytes. It
looks at `errno` where nothing was written, too. -/
def clientWrite (left : ℕ) : List WriteOutcome → Transfer
  | [] => .again
  | .eintr :: outcomes => clientWrite left outcomes
  | .eagain :: _ => .again
  | .error :: _ => .gone
  | .data k :: _ => if min k left = 0 then .gone else .bytes (min k left)

/-- The loop of `RecvFromServerCallback`, over what `read` does with room for `room`
bytes. -/
def clientRead (room : ℕ) : List ReadOutcome → Transfer
  | [] => .again
  | .eintr :: outcomes => clientRead room outcomes
  | .eagain :: _ => .again
  | .error :: _ => .gone
  | .eof :: _ => .gone
  | .data k :: _ => if min k room = 0 then .gone else .bytes (min k room)

/-- The connection in the slot `i` is gone, and another one is opened. -/
def reconnect (b : Benchmark) (i : ℕ) (a : ClientAttempt) : Benchmark :=
  (reactorClientInit (reactorCloseConnection b i) a).2

/-- `SendToServerCallback`. -/
def sendToServerCallback (b : Benchmark) (i : ℕ) (writes : List WriteOutcome)
    (a : ClientAttempt) : Benchmark :=
  let b := b.ask i
  let pclient := b.clientsPtr i
  let pclient :=
    if pclient.sendedLen = 0 then { pclient with startTime := b.usec, latency := -1 } else pclient
  let pclient := { pclient with touchTime := b.usec }
  let b := (b.setClient i pclient).serve i
  match clientWrite (pclient.sendBufLen - pclient.sendedLen) writes with
  | .again => b
  | .gone => reconnect b i a
  | .bytes sended =>
    let b := { b with config := { b.config with
      totalRequests := uint32 (b.config.totalRequests + 1) } }
    let b := b.send i ((pclient.sendBuf.drop pclient.sendedLen).take sended)
    let pclient := { pclient with sendedLen := pclient.sendedLen + sended }
    let b := b.setClient i pclient
    if pclient.sendedLen = pclient.sendBufLen then
      (reactorAddEvent (reactorDelEvent b i writeable).2 i readable .recvFromServerCallback).2
    else b

/-- `RecvFromServerCallback`. -/
def recvFromServerCallback (b : Benchmark) (i : ℕ) (reads : List ReadOutcome)
    (a : ClientAttempt) : Benchmark :=
  let b := b.hear i
  let pclient := { b.clientsPtr i with touchTime := b.usec }
  let pclient :=
    if pclient.latency < 0 then
      { pclient with latency := Int.bmod (b.usec - pclient.startTime) (2 ^ 64) }
    else pclient
  let b := (b.setClient i pclient).serve i
  match clientRead (maxRecvBufLen + 1 - pclient.recvBufLen) reads with
  | .again => b
  | .gone => reconnect b i a
  | .bytes received =>
    let pclient := { pclient with recvBufLen := pclient.recvBufLen + received }
    let b := b.setClient i pclient
    if pclient.recvBufLen > maxRecvBufLen then b.exit
    else if decodeResponse < 0 then reconnect b i a
    else if decodeResponse = 1 then b
    else
      let b :=
        if b.config.doneRequests < b.config.needRequestNum then b.count i pclient.latency else b
      reactorCloseConnectionNormal b i a

/-! ## The loops -/

/-- What the callbacks of an event find, the one for reading and the one for
writing. -/
structure ClientIO where
  reads : List ReadOutcome
  readInit : ClientAttempt
  writes : List WriteOutcome
  writeInit : ClientAttempt

/-- The batch loop calls a function of the slot `i`. -/
def Benchmark.call (b : Benchmark) (i : ℕ) (func : Option FuncProcCallback)
    (reads : List ReadOutcome) (writes : List WriteOutcome) (a : ClientAttempt) : Benchmark :=
  match func with
  | none => { b with phase := .undefined }
  | some .sendToServerCallback => sendToServerCallback b i writes a
  | some .recvFromServerCallback => recvFromServerCallback b i reads a

/-- **One round of the batch loop of `ReactorBenchmarkLoop`**, where the rest of the
batch is `rest`. -/
def handleEvent (b : Benchmark) (e : EpollEvent) (rest : List EpollEvent) (io : ClientIO) :
    Benchmark :=
  let b := { b with phase := .handling rest }
  let i := b.slotIndex e.fd
  if e.epollerr || e.epollhup then
    let b := { b with epollFail := b.epollFail + 1 }
    if b.epollFail > maxFailCount then b.exit
    else reconnect b i io.readInit
  else
    let b :=
      if e.epollin then b.call i (b.clientsPtr i).rFuncProc io.reads io.writes io.readInit else b
    if b.phase ≠ .handling rest then b
    else if e.epollout then b.call i (b.clientsPtr i).wFuncProc io.reads io.writes io.writeInit
    else b

namespace Benchmark

/-- The head of the loop of `ReactorBenchmarkLoop`. -/
def loop (b : Benchmark) : Benchmark :=
  if b.stop ≠ 0 then { b with phase := .waiting } else { b with phase := .finished }

/-- The head of the loop of `InitSingleReactor`, and what follows it. -/
def create (b : Benchmark) : Benchmark :=
  if b.config.liveClientNum < b.config.needClientNum then { b with phase := .creating }
  else { b with lastCheckUstime := b.usec }.loop

/-- The head of the loop that opens further clients, and what follows it. -/
def refill (b : Benchmark) : Benchmark :=
  if b.config.liveClientNum < b.config.needClientNum then { b with phase := .refilling }
  else { b with lastCheckUstime := b.usec }.loop

/-- The check for timeouts at the end of a batch. -/
def check (b : Benchmark) : Benchmark :=
  if uint64 (b.usec - b.lastCheckUstime) > timeoutUsecTimeval then
    (clearTimeoutConnection b b.usec).refill
  else b.loop

end Benchmark

/-- `InitSingleReactor` up to its loop. `malloc` says whether there is memory for
everything, and `epoll` is the instance that is created, with the descriptors of
the process. What it returns is not looked at by `main`, so that the loop uses a
`NULL` pointer where it fails. -/
def initSingleReactor (config : StatisticsStruct) (epoll : Epoll) (limit usec : ℕ)
    (malloc : Bool) : Benchmark :=
  let b : Benchmark :=
    { config := config
      clientsPtr := fun _ =>
        { fd := fdarrayIndexInit, mask := enone, latency := 0, startTime := 0, touchTime := 0,
          recvBufLen := 0, sendedLen := 0, sendBufLen := 0, sendBuf := [], rFuncProc := none,
          wFuncProc := none }
      latency := fun _ => 0
      epoll := epoll
      limit := limit
      stop := 1
      usec := usec
      lastCheckUstime := 0
      epollFail := 0
      collided := false
      underflowed := false
      held := fun _ => none
      tally := { overrun := false, asked := fun _ => none, answered := [] }
      phase := .creating }
  if !malloc ∨ int32 (config.needClientNum + 1) ≤ 0 then { b with phase := .undefined }
  else b.create

/-- What `ShowReport` prints, but for the times and the rates. -/
structure Report where
  parallelClients : ℕ
  requestsCompleted : ℕ
  averageLatency : ℕ
  requestsNeeded : ℕ
  requestsSended : ℕ
  clientsTimeout : ℕ
  clientsReset : ℕ
  clientsCreated : ℕ
  deriving DecidableEq, Repr

/-- `ShowReport`, which ends in a division by `doneRequests`. The order `qsort`
leaves does not matter to the sum. -/
def showReport (b : Benchmark) : Option Report :=
  let total_lat := (List.range b.config.doneRequests).foldl
    (fun total_lat i => uint64 (total_lat + b.latency i / 1000)) 0
  if b.config.doneRequests = 0 then none
  else some
    { parallelClients := b.config.needClientNum
      requestsCompleted := b.config.doneRequests
      averageLatency := total_lat / b.config.doneRequests
      requestsNeeded := b.config.needRequestNum
      requestsSended := b.config.totalRequests
      clientsTimeout := b.config.timeoutClientNum
      clientsReset := b.config.resetClientNum
      clientsCreated := b.config.createClientNum }

/-- What happens to the process next. -/
inductive BenchInput where
  /-- `ReactorClientInit` in one of the two loops that create clients. -/
  | client (a : ClientAttempt)
  /-- `epoll_wait` returns, and `TouchTime` reads the clock. -/
  | wait (usec : ℕ) (events : List EpollEvent)
  /-- The next event of the batch is handled. -/
  | event (io : ClientIO)
  /-- The batch is handled. -/
  | check

/-- **A step of `InitSingleReactor` and `ReactorBenchmarkLoop`.** -/
def Benchmark.step (b : Benchmark) : BenchInput → Option Benchmark
  | .client a =>
    match b.phase with
    | .creating =>
      match reactorClientInit b a with
      | (Ret.fail, b) => some b.exit
      | (Ret.succ, b) => some b.create
    | .refilling =>
      match reactorClientInit b a with
      | (Ret.fail, b) => some b.exit
      | (Ret.succ, b) => some b.refill
    | _ => none
  | .wait usec events =>
    match b.phase with
    | .waiting => some { b with usec := usec, phase := .handling events }
    | _ => none
  | .event io =>
    match b.phase with
    | .handling (e :: rest) => some (handleEvent b e rest io)
    | _ => none
  | .check =>
    match b.phase with
    | .handling [] => some b.check
    | _ => none
