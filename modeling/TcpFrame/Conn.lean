import TcpFrame.BinProto
import TcpFrame.EventTable

/-!
# A connection

The model of the connection callbacks in `socket_util.c`, of the packet
handlers in `bin_proto.c` they call, and of the read and write loops in
`socket_api.c`.

A callback takes the connection, what `read` or `write` will return, and what
`malloc` will return, and gives back the connection and the calls it makes to
the reactor, in order. Those calls act on the event table and on the timer
heap, not on the connection; if one of them ends the process, nothing
afterwards is observed, so it is enough to list them. The doubling loops of the
two resize functions may run for ever; `RecvResult.returns` says whether a
callback gets out of them.
-/

/-- `ConnFd`. The address of the peer and the fields that no function reads are
left out. -/
structure ConnFd where
  pstTimeoutEvent : NodePtr
  iFd : ℤ
  iPacketLen : ℤ
  pszRecvBuf : Block
  pszSendBuf : Block
  iRecvTotalLen : ℤ
  iRecvCurLen : ℤ
  iSendTotalLen : ℤ
  iSendCurLen : ℤ
  iSendPacketLen : ℤ
  /-- Whether a reply was built with an access that leaves its pack, or the literal
  that is copied. -/
  strayed : Bool
  /-- Which connection this is: no two connections of a process share it, while
  their addresses may be the same one after the other. -/
  serial : ℕ

/-- **Some access of a callback of the connection has left its memory**: a buffer, a
pack or a literal. -/
def ConnFd.overran (conn : ConnFd) : Bool :=
  conn.pszRecvBuf.overrun || conn.pszSendBuf.overrun || conn.strayed

/-- The calls a callback makes to the reactor, for its own connection. -/
inductive ReactorCall where
  /-- `EventAdd` with the connection as argument. -/
  | eventAdd (t_iEventMask : BitVec 32) (t_pEventCallbackProc : EventCallbackProc)
  | eventDel (t_iEventMask : BitVec 32)
  | registerTimerOutEvent (t_uSec : ℤ)
  | destroyConn
  deriving DecidableEq, Repr

/-- What the allocations of one callback find: the contents of a larger receive
or send buffer, if there is one, and whether there is memory for the packs; and
the bytes behind the string literal that `AddAllData2Packet` reads past. -/
structure Malloc where
  pszRecvBuf : Option (ℤ → UInt8)
  pszSendBuf : Option (ℤ → UInt8)
  pstPacketPackRecv : Bool
  pstPacketPackSend : Bool
  rodata : ℕ → UInt8

/-- The connection `__CreateNewConn` makes, over the memory it is given. -/
def ConnFd.create (t_iClientfd : ℤ) (pstTimeoutEvent : NodePtr)
    (pszRecvBuf pszSendBuf : ℤ → UInt8) (serial : ℕ) : ConnFd where
  pstTimeoutEvent := pstTimeoutEvent
  iFd := t_iClientfd
  iPacketLen := 0
  pszRecvBuf := ⟨maxTcpBufSize, pszRecvBuf, false⟩
  pszSendBuf := ⟨maxTcpBufSize, pszSendBuf, false⟩
  iRecvTotalLen := maxTcpBufSize
  iRecvCurLen := 0
  iSendTotalLen := maxTcpBufSize
  iSendCurLen := 0
  iSendPacketLen := 0
  strayed := false
  serial := serial

/-! ## The buffers -/

/-- The doubling loop of both resize functions, on the total length: `used` is
what the buffer holds. After `32` doublings an `int` is `0` for good, so a loop
that is still running then never ends. -/
def resizeLoop (used iNeedLen : ℤ) : ℕ → ℤ → Option ℤ
  | 0, _ => none
  | fuel + 1, iTotalLen =>
    if int32 (iTotalLen - used) < iNeedLen then
      resizeLoop used iNeedLen fuel (int32 (iTotalLen * 2))
    else some iTotalLen

/-- Enough fuel for every loop that ends. -/
def resizeFuel : ℕ := 33

/-- `ResizeRecvBufferPtr`: the offset it returns, or `NULL`. -/
def resizeRecvBufferPtr (conn : ConnFd) (t_iNeedRecvLen : ℤ) (malloc : Option (ℤ → UInt8)) :
    Option (Option ℤ × ConnFd) :=
  if t_iNeedRecvLen ≤ 0 then some (none, conn)
  else if int32 (conn.iRecvTotalLen - conn.iRecvCurLen) ≥ t_iNeedRecvLen then
    some (some conn.iRecvCurLen, conn)
  else
    (resizeLoop conn.iRecvCurLen t_iNeedRecvLen resizeFuel conn.iRecvTotalLen).map
      fun iRecvTotalLen =>
        let conn := { conn with iRecvTotalLen := iRecvTotalLen }
        match malloc with
        | none => (none, conn)
        | some mem =>
          let pNewRecvBuffer : Block := ⟨sizeT iRecvTotalLen, mem, conn.pszRecvBuf.overrun⟩
          (some conn.iRecvCurLen, { conn with
            pszRecvBuf := pNewRecvBuffer.move 0 conn.pszRecvBuf 0 (sizeT conn.iRecvCurLen) })

/-- `ResizeSendBufferPtr`: the pointer it returns, as an offset into the send
buffer. The new buffer has the size of an `int`. Where `malloc` fails it is
`NULL`: a move of unsent bytes to it goes astray, and without any the pointer
that is returned is `NULL` as well (`Block.IsNull`). -/
def resizeSendBufferPtr (conn : ConnFd) (t_iNeedSendLen : ℤ) (malloc : Option (ℤ → UInt8)) :
    Option (ℤ × ConnFd) :=
  if int32 (conn.iSendTotalLen - conn.iSendPacketLen) ≥ t_iNeedSendLen then
    some (conn.iSendPacketLen, conn)
  else if int32 (int32 (conn.iSendTotalLen - conn.iSendPacketLen) + conn.iSendCurLen)
      > t_iNeedSendLen then
    let conn := { conn with
      pszSendBuf := conn.pszSendBuf.move 0 conn.pszSendBuf conn.iSendCurLen
        (sizeT (conn.iSendPacketLen - conn.iSendCurLen))
      iSendPacketLen := conn.iSendPacketLen - conn.iSendCurLen
      iSendCurLen := 0 }
    some (conn.iSendPacketLen, conn)
  else
    (resizeLoop conn.iSendPacketLen t_iNeedSendLen resizeFuel conn.iSendTotalLen).map
      fun iSendTotalLen =>
        let pNewSendBuffer : Block := match malloc with
          | none => { Block.null with overrun := conn.pszSendBuf.overrun }
          | some mem => ⟨4, mem, conn.pszSendBuf.overrun⟩
        let conn := { conn with
          iSendTotalLen := iSendTotalLen
          pszSendBuf := pNewSendBuffer.move 0 conn.pszSendBuf conn.iSendCurLen
            (sizeT (conn.iSendPacketLen - conn.iSendCurLen))
          iSendPacketLen := conn.iSendPacketLen - conn.iSendCurLen
          iSendCurLen := 0 }
        (conn.iSendPacketLen, conn)

/-! ## Reading and writing -/

/-- What one call to `read` does: it returns at most `k` bytes, or fails, or
finds the end of the stream. -/
inductive ReadOutcome where
  | data (k : ℕ)
  | eagain
  | eintr
  | eof
  | error
  deriving DecidableEq, Repr

/-- What one call to `write` does: it takes at most `k` bytes, or fails. -/
inductive WriteOutcome where
  | data (k : ℕ)
  | eagain
  | eintr
  | error
  deriving DecidableEq, Repr

/-- The outcome of a read loop: what it returns, the bytes it has read, and
what is left of the stream. -/
structure RecvData where
  iRet : ℤ
  got : List UInt8
  rx : List UInt8

/-- The loop of `PynServerRecvData`, over the outcomes of `read`. A read finds
no more than is there: without a byte it fails with `EAGAIN`, and when the
outcomes run out the reads take what is there. -/
def recvLoop (t_iNeed : ℕ) : List ReadOutcome → (got rx : List UInt8) → RecvData
  | [], got, rx =>
    let n := t_iNeed - got.length
    ⟨(got ++ rx.take n).length, got ++ rx.take n, rx.drop n⟩
  | outcome :: outcomes, got, rx =>
    if got.length < t_iNeed then
      match outcome with
      | .data k =>
        let n := min k (min (t_iNeed - got.length) rx.length)
        if n = 0 then ⟨got.length, got, rx⟩
        else recvLoop t_iNeed outcomes (got ++ rx.take n) (rx.drop n)
      | .eagain => ⟨got.length, got, rx⟩
      | .eintr => recvLoop t_iNeed outcomes got rx
      | .eof => ⟨0, got, rx⟩
      | .error => ⟨-1, got, rx⟩
    else ⟨got.length, got, rx⟩

/-- `PynServerRecvData` into the receive buffer at `off`. -/
def pynServerRecvData (t_iFd : ℤ) (pszRecvBuf : Block) (off t_iNeedRecvTotalBytes : ℤ)
    (outcomes : List ReadOutcome) (rx : List UInt8) : ℤ × Block × List UInt8 :=
  if t_iFd < 0 then (0, pszRecvBuf, rx)
  else if t_iNeedRecvTotalBytes ≤ 0 then (0, pszRecvBuf, rx)
  else
    let r := recvLoop t_iNeedRecvTotalBytes.toNat outcomes [] rx
    (r.iRet, (pszRecvBuf.touch off t_iNeedRecvTotalBytes).store off r.got, r.rx)

/-- The loop of `PynServerSendData`, over the outcomes of `write`: what it
returns and how many bytes were written. When the outcomes run out the socket
takes no more. -/
def sendLoop (t_iSendTotalBytes : ℕ) : List WriteOutcome → ℕ → ℤ × ℕ
  | [], iSendCount => (iSendCount, iSendCount)
  | outcome :: outcomes, iSendCount =>
    if iSendCount < t_iSendTotalBytes then
      match outcome with
      | .data k =>
        sendLoop t_iSendTotalBytes outcomes (iSendCount + min k (t_iSendTotalBytes - iSendCount))
      | .eagain => (iSendCount, iSendCount)
      | .eintr => sendLoop t_iSendTotalBytes outcomes iSendCount
      | .error => (-1, iSendCount)
    else (iSendCount, iSendCount)

/-- `PynServerSendData` from the send buffer at `off`: what it returns and the
bytes that were written. -/
def pynServerSendData (t_iFd : ℤ) (pszSendBuf : Block) (off t_iSendTotalBytes : ℤ)
    (outcomes : List WriteOutcome) : ℤ × List UInt8 :=
  if t_iFd ≤ 0 ∨ t_iSendTotalBytes < 0 then (-1, [])
  else
    let (iRet, n) := sendLoop t_iSendTotalBytes.toNat outcomes 0
    (iRet, pszSendBuf.slice off n)

/-! ## Packets -/

/-- `AppendPktToBuff`, where `NULL` stands for the send buffer itself. -/
def appendPktToBuff (conn : ConnFd) (t_pszBuff : Option Block) (t_iLen : ℤ) :
    ConnFd × List ReactorCall :=
  let src := t_pszBuff.getD conn.pszSendBuf
  ({ conn with
      pszSendBuf := conn.pszSendBuf.move conn.iSendPacketLen src 0 (sizeT t_iLen)
      iSendPacketLen := conn.iSendPacketLen + t_iLen },
    [.eventAdd eventWritable .processSendCallback])

/-- `SendBackEcho`. -/
def sendBackEcho (conn : ConnFd) : ConnFd × List ReactorCall :=
  ({ conn with
      pszSendBuf := conn.pszSendBuf.move 0 conn.pszRecvBuf 0 (sizeT conn.iPacketLen)
      iSendPacketLen := conn.iPacketLen },
    [.eventAdd eventWritable .processSendCallback])

/-- The literal `"aaaaaaaaaaaaaaaaaaaaa"` with its end, and the memory behind
it. -/
def fillByte (rodata : ℕ → UInt8) (k : ℕ) : UInt8 :=
  if k < 21 then 97 else if k = 21 then 0 else rodata (k - 22)

/-- `AddAllData2Packet`. It fills the body with two literals and does not look
at the data. The second one has `22` bytes, its end included. -/
def addAllData2Packet (p : PacketPack) (t_uBuffLen : ℤ) (rodata : ℕ → UInt8) :
    Ret × PacketPack :=
  if t_uBuffLen ≤ 0 then (Ret.fail, p)
  else
    let iOriLen : ℤ := 7
    let block := p.block.store (p.pBuffer + p.iTailer) [102, 102, 108, 108, 111, 115, 98]
    let block :=
      if t_uBuffLen - iOriLen < 0 then { block with overrun := true }
      else block.store (p.pBuffer + (p.iTailer + iOriLen - 1))
        ((List.range (t_uBuffLen - iOriLen).toNat).map (fillByte rodata))
    let iTailer := p.iTailer + t_uBuffLen
    let block := block.store (p.pBuffer + iTailer) [protoEot]
    (Ret.succ, { p with
      block := block, iTailer := iTailer
      overrun := p.overrun || decide (22 < t_uBuffLen - iOriLen) })

/-- `SendPacket2Client`, for a pack over the send buffer. -/
def sendPacket2Client (conn : ConnFd) (p : PacketPack) : ConnFd × List ReactorCall :=
  let p := packetPack2String p
  appendPktToBuff { conn with pszSendBuf := p.block } none (getPacketLen p).toInt

/-- `ProcessTestBinProtocol`. -/
def processTestBinProtocol (conn : ConnFd) (pstPacketPackRecv : PacketPack) (malloc : Malloc) :
    Option (ConnFd × List ReactorCall) :=
  let iDataLen := getDataSize pstPacketPackRecv
  let iLength := int32 (iDataLen + 128)
  (resizeSendBufferPtr conn iLength malloc.pszSendBuf).map fun (pSendBuffer, conn) =>
    match createPackFromBuffer malloc.pstPacketPackSend conn.pszSendBuf pSendBuffer iLength with
    | none => (conn, [])
    | some p =>
      let p := setPacketCmd p (getPacketCmd pstPacketPackRecv)
      let p := setPacketSeq p (getPacketSeq pstPacketPackRecv)
      let (iRet, p) := addAllData2Packet p iLength malloc.rodata
      let conn := { conn with strayed := conn.strayed || p.overrun }
      match iRet with
      | Ret.fail => ({ conn with pszSendBuf := p.block }, [])
      | Ret.succ => sendPacket2Client conn p

/-- `ProcessEntirePacket`. What it returns is not looked at. -/
def processEntirePacket (conn : ConnFd) (malloc : Malloc) :
    Option (ConnFd × List ReactorCall) :=
  match string2PacketPack malloc.pstPacketPackRecv conn.pszRecvBuf 0 conn.iRecvCurLen with
  | none => some (conn, [])
  | some p =>
    if getPacketCmd p = cmdTestValue then processTestBinProtocol conn p malloc
    else if getPacketCmd p = cmdTestEcho then some (sendBackEcho conn)
    else some (conn, [])

/-! ## The callbacks -/

/-- What a receive callback leaves: the connection, the calls to the reactor,
the connection as `ProcessEntirePacket` was given it, if it was called, and the
rest of the stream; and whether the callback comes to an end at all. -/
structure RecvResult where
  conn : ConnFd
  calls : List ReactorCall
  packet : Option ConnFd
  rx : List UInt8
  returns : Bool

/-- A callback that ends with `__DestroyConn`. -/
def RecvResult.destroyed (conn : ConnFd) (rx : List UInt8) : RecvResult :=
  ⟨conn, [.destroyConn], none, rx, true⟩

/-- A callback that waits for the next event. -/
def RecvResult.waiting (conn : ConnFd) (rx : List UInt8) : RecvResult :=
  ⟨conn, [], none, rx, true⟩

/-- The second part of `ProcessRecvCallback`, which reads the rest of a packet,
at most `4096` bytes at a time. -/
def recvBody (conn : ConnFd) (malloc : Malloc) (outcomes : List ReadOutcome)
    (rx : List UInt8) : RecvResult :=
  if conn.iPacketLen ≤ 0 then .destroyed conn rx
  else
    let iRemainLen := conn.iPacketLen - conn.iRecvCurLen
    let iNeedRecvLen := if iRemainLen > 4096 then 4096 else iRemainLen
    let (iRet, pszRecvBuf, rx) := pynServerRecvData conn.iFd conn.pszRecvBuf conn.iRecvCurLen
      iNeedRecvLen outcomes rx
    let conn := { conn with pszRecvBuf := pszRecvBuf }
    if iRet ≤ 0 then .destroyed conn rx
    else
      let conn := { conn with iRecvCurLen := conn.iRecvCurLen + iRet }
      if conn.iRecvCurLen < conn.iPacketLen then .waiting conn rx
      else
        match processEntirePacket conn malloc with
        | none => ⟨conn, [], some conn, rx, false⟩
        | some (conn', calls) =>
          ⟨{ conn' with iRecvCurLen := 0, iPacketLen := 0 },
            calls ++ [.registerTimerOutEvent maxConnTimeout], some conn, rx, true⟩

/-- `ProcessRecvCallback`. `head` and `body` are what `read` does in the first
and in the second read loop. -/
def processRecvCallback (conn : ConnFd) (t_iFd : ℤ) (malloc : Malloc)
    (head body : List ReadOutcome) (rx : List UInt8) : RecvResult :=
  if t_iFd < 0 then .waiting conn rx
  else if conn.iRecvCurLen < packetHeadLen then
    let (iRet, pszRecvBuf, rx) := pynServerRecvData conn.iFd conn.pszRecvBuf conn.iRecvCurLen
      (packetHeadLen - conn.iRecvCurLen) head rx
    let conn := { conn with pszRecvBuf := pszRecvBuf }
    if iRet ≤ 0 then .destroyed conn rx
    else
      let conn := { conn with iRecvCurLen := conn.iRecvCurLen + iRet }
      if conn.iRecvCurLen < packetHeadLen then .waiting conn rx
      else
        match recvHead conn.pszRecvBuf with
        | none => .destroyed conn rx
        | some iPacketLen =>
          let conn := { conn with iPacketLen := iPacketLen }
          match resizeRecvBufferPtr conn (iPacketLen - packetHeadLen) malloc.pszRecvBuf with
          | none => ⟨conn, [], none, rx, false⟩
          | some (none, conn) => .destroyed conn rx
          | some (some _, conn) => recvBody conn malloc body rx
  else recvBody conn malloc body rx

/-- What a send callback leaves: the connection, the calls to the reactor and
the bytes it has written. -/
structure SendResult where
  conn : ConnFd
  calls : List ReactorCall
  tx : List UInt8

/-- `ProcessSendCallback`. -/
def processSendCallback (conn : ConnFd) (t_iFd : ℤ) (outcomes : List WriteOutcome) :
    SendResult :=
  if t_iFd < 0 then ⟨conn, [], []⟩
  else if 0 ≥ conn.iSendPacketLen then ⟨conn, [], []⟩
  else
    let (iRet, tx) := pynServerSendData conn.iFd conn.pszSendBuf conn.iSendCurLen
      (conn.iSendPacketLen - conn.iSendCurLen) outcomes
    if iRet < 0 then ⟨conn, [.destroyConn], tx⟩
    else
      let conn := { conn with iSendCurLen := conn.iSendCurLen + iRet }
      if conn.iSendPacketLen = conn.iSendCurLen then
        ⟨{ conn with iSendPacketLen := 0, iSendCurLen := 0 }, [.eventDel eventWritable], tx⟩
      else ⟨conn, [], tx⟩
