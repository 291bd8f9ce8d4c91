import TcpFrame.ConnRecvRuns
import TcpFrame.ConnSend

/-!
# Replying to a stream

Runs of both callbacks of a connection over the stream of its peer. Replies are
queued in the one send buffer, and two properties of it are looked at: that the
bytes written to the socket are the echo replies in order
(`echo_always_in_order`), and that nothing is written outside the buffer
(`sendBuffer_always_ok_iff`).

Neither holds without a condition. An echo reply is put at the front of the
buffer whatever is queued there, so the first needs that nothing is; and a reply
is written whatever room there is, so the second needs that it fits, which
`ConnFd.ReplyFits` says for both kinds of reply.
-/

open Block

/-- A connection with the stream of its peer, and what has been written to its
socket. `echoed` are the packets that were handed to `SendBackEcho`. -/
structure Endpoint where
  recv : Receiver
  /-- Whether writable events are asked for. -/
  writable : Bool
  echoed : List (List UInt8)
  tx : List UInt8
  /-- Whether a send callback has destroyed the connection. -/
  sendDestroyed : Bool

/-- What the dispatch loop calls for a connection. An epoll event that reports
both directions is a readable one and then a writable one. -/
inductive ConnEvent where
  | readable (e : Readable)
  | writable (outcomes : List WriteOutcome)

/-- Whether writable events are asked for after the calls of a callback. -/
def writableAfter (writable : Bool) (calls : List ReactorCall) : Bool :=
  calls.foldl (fun w call => match call with
    | .eventAdd mask _ => w || decide (mask &&& eventWritable ≠ 0)
    | .eventDel mask => w && decide (mask &&& eventWritable = 0)
    | _ => w) writable

/-- The packet in the buffer goes to `SendBackEcho`. -/
def ConnFd.handsEcho (conn : ConnFd) (malloc : Malloc) : Bool :=
  (string2PacketPack malloc.pstPacketPackRecv conn.pszRecvBuf 0 conn.iRecvCurLen).any
    (fun p => getPacketCmd p = cmdTestEcho)

/-- What is queued and not sent. -/
def ConnFd.unsent (conn : ConnFd) : List UInt8 :=
  conn.pszSendBuf.slice conn.iSendCurLen (conn.iSendPacketLen - conn.iSendCurLen).toNat

/-- **An echo request** that fits the send buffer. -/
structure IsEchoRequest (f : List UInt8) : Prop where
  frame : protoFraming.IsFrame f
  cmd : (f.take 9).drop 5 = wordBytes cmdTestEcho
  short : (f.length : ℤ) ≤ maxTcpBufSize

instance (f : List UInt8) : Decidable (IsEchoRequest f) :=
  decidable_of_iff (protoFraming.IsFrame f ∧ (f.take 9).drop 5 = wordBytes cmdTestEcho
      ∧ (f.length : ℤ) ≤ maxTcpBufSize)
    ⟨fun ⟨h₁, h₂, h₃⟩ => ⟨h₁, h₂, h₃⟩, fun ⟨h₁, h₂, h₃⟩ => ⟨h₁, h₂, h₃⟩⟩

namespace Endpoint

/-- A new connection, and the stream `stream` of its peer. -/
def start (iFd : ℤ) (node : NodePtr) (recvMem sendMem : ℤ → UInt8) (serial : ℕ)
    (stream : List UInt8) : Endpoint where
  recv := .start iFd node recvMem sendMem serial stream
  writable := false
  echoed := []
  tx := []
  sendDestroyed := false

/-- The packets a receive callback hands to `SendBackEcho`. -/
def echoes (malloc : Malloc) (r : RecvResult) : List (List UInt8) :=
  ((r.packet.filter (fun c => c.handsEcho malloc)).map (fun c => (Handover.of c).bytes)).toList

/-- **One callback.** A connection that is gone has none, and there is no send
callback while writable events are not asked for. -/
def step (s : Endpoint) : ConnEvent → Option Endpoint
  | .readable e =>
    (s.recv.step e).map fun recv =>
      let r := s.recv.result e
      { s with
        recv := recv
        writable := writableAfter s.writable r.calls
        echoed := s.echoed ++ echoes e.malloc r }
  | .writable outcomes =>
    if s.recv.fate = .live then
      if s.writable then
        let r := processSendCallback s.recv.conn s.recv.conn.iFd outcomes
        let gone := decide (.destroyConn ∈ r.calls)
        some
          { s with
            recv := { s.recv with
              conn := r.conn, fate := if gone then .destroyed else .live }
            writable := writableAfter s.writable r.calls
            tx := s.tx ++ r.tx
            sendDestroyed := gone }
      else some s
    else none

variable {s s' : Endpoint} {e : Readable} {outcomes : List WriteOutcome}
  {stream : List UInt8} {callbacks : List ConnEvent} {fs : List (List UInt8)}

/-- What a receive callback makes of an endpoint. -/
theorem step_readable (hstep : s.step (.readable e) = some s') :
    s.recv.fate = .live ∧ s.recv.step e = some s'.recv
      ∧ s'.recv.conn = (s.recv.result e).conn ∧ s'.tx = s.tx
      ∧ s'.echoed = s.echoed ++ echoes e.malloc (s.recv.result e)
      ∧ s'.sendDestroyed = s.sendDestroyed := by
  obtain ⟨recv, hrecv, rfl⟩ := Option.map_eq_some_iff.mp hstep
  have hlive : s.recv.fate = .live := by
    by_contra hgone
    rw [Receiver.step, if_neg hgone] at hrecv
    exact absurd hrecv (by simp)
  refine ⟨hlive, hrecv, ?_, rfl, rfl, rfl⟩
  rw [Receiver.step, if_pos hlive] at hrecv
  obtain rfl := Option.some.inj hrecv
  rfl

/-- A live connection has a receive callback. -/
theorem exists_step_readable (hlive : s.recv.fate = .live) :
    ∃ s', s.step (.readable e) = some s' := by
  unfold step
  dsimp only
  rw [Receiver.step, if_pos hlive]
  exact ⟨_, rfl⟩

/-- **A send callback leaves the receiving side alone.** -/
theorem step_writable (hle : s.recv.conn.iSendCurLen ≤ s.recv.conn.iSendPacketLen)
    (hstep : s.step (.writable outcomes) = some s') :
    s' = s ∨ s.recv.fate = .live ∧ ∃ r, Sent s.recv.conn outcomes r
      ∧ s'.recv = { s.recv with
          conn := r.conn, fate := if .destroyConn ∈ r.calls then .destroyed else .live }
      ∧ s'.tx = s.tx ++ r.tx ∧ s'.echoed = s.echoed
      ∧ s'.sendDestroyed = decide (.destroyConn ∈ r.calls) := by
  unfold step at hstep
  dsimp only at hstep
  by_cases hlive : s.recv.fate = .live
  · rw [if_pos hlive] at hstep
    by_cases hwritable : s.writable = true
    · rw [if_pos hwritable] at hstep
      obtain rfl := Option.some.inj hstep
      refine Or.inr ⟨hlive, _, processSendCallback_spec hle, ?_, rfl, rfl, rfl⟩
      simp only [decide_eq_true_eq]
    · rw [if_neg hwritable] at hstep
      exact Or.inl (Option.some.inj hstep).symm
  · rw [if_neg hlive] at hstep
    exact absurd hstep (by simp)

/-- **The receiving side of a run is that of a receiver**, and the sending side
is in order. -/
structure Ready (stream : List UInt8) (s : Endpoint) : Prop where
  inv : s.recv.Inv stream
  send : s.recv.conn.SendFirst

theorem start_ready {iFd : ℤ} {node : NodePtr} {recvMem sendMem : ℤ → UInt8} {serial : ℕ} :
    (start iFd node recvMem sendMem serial stream).Ready stream :=
  ⟨Receiver.start_inv, ConnFd.create_sendFirst⟩

/-- A send callback keeps both. -/
theorem Ready.writable (h : s.Ready stream) (hstep : s.step (.writable outcomes) = some s') :
    s'.Ready stream := by
  rcases step_writable h.send.cur_le hstep with rfl | ⟨hlive, r, hsent, hrecv, -⟩
  · exact h
  obtain ⟨iSendCurLen, iSendPacketLen, hconn⟩ := hsent.conn_eq
  have hframes : s'.recv.frames = s.recv.frames := by rw [hrecv, Receiver.frames]; rfl
  refine ⟨⟨?_, ?_, fun _ => ?_⟩, ?_⟩
  · rw [hrecv]
    exact h.inv.handed
  · rw [hframes]
    exact h.inv.front
  · obtain ⟨p, hp, hstream⟩ := h.inv.live hlive
    refine ⟨p, ?_, ?_⟩
    · rw [hrecv]
      show r.conn.Receiving p
      rw [hconn]
      exact ⟨hp.cur, hp.buf, hp.size, hp.total, hp.inside, hp.pending⟩
    · rw [hframes, hrecv]
      exact hstream
  · rw [hrecv]
    exact hsent.sendFirst h.send

/-- **What `ProcessEntirePacket` is given**: a connection `c` with the frame `f`
in its receive buffer. -/
structure Given (c : ConnFd) (f : List UInt8) : Prop where
  frame : protoFraming.IsFrame f
  buf : c.pszRecvBuf.slice 0 f.length = f
  cur : c.iRecvCurLen = f.length
  len : c.iPacketLen = f.length
  size : c.iPacketLen ≤ c.pszRecvBuf.size

theorem Given.bounds {c : ConnFd} {f : List UInt8} (h : Given c f) :
    packetBodyPos < c.iPacketLen ∧ c.iPacketLen ≤ packetMaxLen := by
  rw [h.len]
  exact frameLen_bounds h.frame

/-- **A receive callback** leaves the sending side as it was, or as
`ProcessEntirePacket` leaves it when it is given the next frame. -/
theorem Ready.readable (h : s.Ready stream) (hstep : s.step (.readable e) = some s') :
    s'.recv.Inv stream
      ∧ ((s.recv.result e).packet = none ∧ s.recv.conn.SameSend s'.recv.conn
        ∨ ∃ c f, (s.recv.result e).packet = some c ∧ s.recv.conn.SameSend c ∧ Given c f
          ∧ s'.recv.frames = s.recv.frames ++ [f]
          ∧ (processEntirePacket c e.malloc = none
            ∨ ∃ conn' calls, processEntirePacket c e.malloc = some (conn', calls)
              ∧ conn'.SameSend s'.recv.conn)) := by
  obtain ⟨hlive, hrecv, hconn, -⟩ := step_readable hstep
  refine ⟨Receiver.step_inv h.inv hrecv, ?_⟩
  obtain ⟨p, hp, -⟩ := h.inv.live hlive
  have hends : RecvEnds s.recv.conn e.malloc (s.recv.result e) :=
    processRecvCallback_ends _ _ _ _ _ _
  have hspec : Received p (s.recv.rx ++ s.recv.wire.take e.arrives) (s.recv.result e) :=
    processRecvCallback_spec hp _ _ _ _ _
  have hframes : s'.recv.frames
      = s.recv.frames ++ ((s.recv.result e).packet.map Handover.of).toList.map Handover.bytes := by
    rw [Receiver.step, if_pos hlive] at hrecv
    rw [← Option.some.inj hrecv]
    exact List.map_append
  rw [hconn]
  generalize s.recv.result e = r at hends hspec hframes
  cases hspec with
  | destroyed taken hrx hcalls hpacket hreturns =>
    exact Or.inl ⟨hpacket, (hends.of_packet_none hpacket).1⟩
  | waiting taken hrx hcalls hpacket hreturns hrecv' =>
    exact Or.inl ⟨hpacket, (hends.of_packet_none hpacket).1⟩
  | handed taken c hrx hpacket hframe hbuf hcur hlen hsize hcalls hrecv' =>
    obtain ⟨hsame, hentire⟩ := hends.of_packet_some hpacket
    have hbuf' : c.pszRecvBuf.slice 0 (p ++ taken).length = p ++ taken := by
      rw [hcur, Int.toNat_natCast] at hbuf
      exact hbuf
    refine Or.inr ⟨c, p ++ taken, hpacket, hsame, ⟨hframe, hbuf', hcur, hlen, hsize⟩, ?_, ?_⟩
    · rw [hframes, hpacket, Option.map_some, Option.toList_some, List.map_singleton, Handover.of,
        hbuf]
    · rcases hentire with ⟨hnone, -⟩ | ⟨conn', calls, hsome, -, hsend, -⟩
      · exact Or.inl hnone
      · exact Or.inr ⟨conn', calls, hsome, hsend⟩

/-! ## The bounds of the send buffer -/

/-- **The reply to the packet that an event completes fits.** -/
def RepliesFit (s : Endpoint) : ConnEvent → Prop
  | .readable e => s.recv.fate = .live → ∀ c ∈ (s.recv.result e).packet, c.ReplyFits
  | .writable _ => True

instance : ∀ (s : Endpoint) (a : ConnEvent), Decidable (s.RepliesFit a)
  | _, .readable _ => inferInstanceAs (Decidable (_ → ∀ c ∈ _, _))
  | _, .writable _ => inferInstanceAs (Decidable True)

/-- All allocations of an event succeed. -/
def Allocates : ConnEvent → Prop
  | .readable e => e.malloc.Succeeds
  | .writable _ => True

/-- **A receive callback keeps the sending side in order exactly if the reply
fits.** -/
theorem Ready.readable_sendOk (h : s.Ready stream) (hmalloc : e.malloc.Succeeds)
    (hstep : s.step (.readable e) = some s') :
    (s'.recv.conn.SendOk → s.RepliesFit (.readable e))
      ∧ (s.RepliesFit (.readable e) → s'.Ready stream) := by
  have hlive := (step_readable hstep).1
  obtain ⟨hinv, ⟨hpacket, hsame⟩ | ⟨c, f, hpacket, hsame, hc, -, hentire⟩⟩ := h.readable hstep
  · refine ⟨fun _ _ c hc => ?_, fun _ => ⟨hinv, h.send.sameSend hsame⟩⟩
    rw [hpacket] at hc
    exact absurd hc (by simp)
  · obtain ⟨conn₁, calls₁, hrun, hfits, hfirst⟩ := processEntirePacket_sendOk
      (h.send.sameSend hsame) hmalloc (hc.cur.trans hc.len.symm) hc.bounds.1 hc.bounds.2 hc.size
    rcases hentire with hnone | ⟨conn', calls, hsome, hsend⟩
    · rw [hrun] at hnone
      exact absurd hnone (by simp)
    · rw [hrun] at hsome
      obtain ⟨rfl, -⟩ := Prod.mk.inj (Option.some.inj hsome)
      refine ⟨fun hok _ c' hc' => ?_, fun hreply => ⟨hinv, ?_⟩⟩
      · rw [hpacket] at hc'
        obtain rfl := Option.some.inj (Option.mem_def.mp hc')
        exact hfits (hok.sameSend hsend.symm)
      · exact (hfirst (hreply hlive c hpacket)).sameSend hsend

/-! ## The order of echo replies -/

/-- The command of the echo request in a buffer. -/
theorem Given.cmd {c : ConnFd} {f : List UInt8} (h : Given c f) (hf : IsEchoRequest f)
    {ok : Bool} {p : PacketPack}
    (hp : string2PacketPack ok c.pszRecvBuf 0 c.iRecvCurLen = some p) :
    getPacketCmd p = cmdTestEcho := by
  have h13 : packetBodyPos = 13 := rfl
  have hmin := h.bounds.1
  rw [h.len] at hmin
  have hslice : c.pszRecvBuf.slice 5 4 = wordBytes cmdTestEcho := by
    rw [← hf.cmd, ← h.buf, take_slice (by omega), show (9 : ℕ) = 5 + 4 from rfl, slice_add,
      List.drop_left' length_slice]
    rfl
  have hword : c.pszRecvBuf.word 5 = cmdTestEcho := by
    have hself : (c.pszRecvBuf.write 5 (wordBytes cmdTestEcho)).word 5 = cmdTestEcho :=
      word_write_self _
    rw [← hself]
    exact word_of_slice_eq (hslice.trans (slice_write_self rfl).symm)
  obtain ⟨hblock, hbase⟩ := (string2PacketPack_eq_some hp).2.2
  unfold getPacketCmd
  rw [hblock, hbase]
  exact hword

/-- An echo request goes to `SendBackEcho` or is dropped. -/
theorem Given.entire {c : ConnFd} {f : List UInt8} (h : Given c f) (hf : IsEchoRequest f)
    {malloc : Malloc} : processEntirePacket c malloc
      = some (if c.handsEcho malloc then sendBackEcho c else (c, [])) := by
  unfold processEntirePacket ConnFd.handsEcho
  cases hpack : string2PacketPack malloc.pstPacketPackRecv c.pszRecvBuf 0 c.iRecvCurLen with
  | none => rfl
  | some p =>
    dsimp only
    rw [h.cmd hf hpack, if_neg (by decide), if_pos rfl, Option.any_some, h.cmd hf hpack,
      decide_eq_true rfl, if_pos rfl]

/-- **An echo reply in an empty buffer** is the packet, and nothing else. -/
theorem Given.echo {c : ConnFd} {f : List UInt8} (h : Given c f) (hf : IsEchoRequest f)
    (hok : c.SendFirst) (hempty : c.iSendPacketLen = 0) :
    (sendBackEcho c).1.SendFirst ∧ (sendBackEcho c).1.unsent = f := by
  have h13 : packetBodyPos = 13 := rfl
  have hmaxLen : packetMaxLen = 1024 * 1024 := rfl
  obtain ⟨hmin, hmax⟩ := h.bounds
  have hcur : c.iSendCurLen = 0 := le_antisymm (hempty ▸ hok.cur_le) hok.cur_nonneg
  have hshort : c.iPacketLen ≤ c.iSendTotalLen := by
    rw [h.len, hok.total]
    exact hf.short
  have hfirst := (sendBackEcho_spec hok (by omega) hmax h.size).2 ⟨hshort, by omega⟩
  refine ⟨hfirst, ?_⟩
  have hlen : sizeT c.iPacketLen = f.length := by
    rw [h.len]
    exact sizeT_eq_self (by omega) (by have := h.len; omega)
  show (c.pszSendBuf.move 0 c.pszRecvBuf 0 (sizeT c.iPacketLen)).slice c.iSendCurLen
    (c.iPacketLen - c.iSendCurLen).toNat = f
  have htotal := hok.total_le
  have hsize := h.size
  rw [hlen, hcur, sub_zero, h.len, Int.toNat_natCast, move_of_holds, Int.toNat_natCast,
    slice_write_self length_slice, h.buf]
  · exact ⟨le_rfl, by omega, by have := h.len; omega⟩
  · exact ⟨le_rfl, by omega, by have := h.len; omega⟩

/-- **Nothing is queued when a packet goes to `SendBackEcho`.** -/
def EchoesAlone (s : Endpoint) : ConnEvent → Prop
  | .readable e => ∀ c ∈ (s.recv.result e).packet, c.handsEcho e.malloc →
      s.recv.conn.iSendPacketLen = 0
  | .writable _ => True

instance : ∀ (s : Endpoint) (a : ConnEvent), Decidable (s.EchoesAlone a)
  | _, .readable _ => inferInstanceAs (Decidable (∀ c ∈ _, _ → _))
  | _, .writable _ => inferInstanceAs (Decidable True)

/-- No `write` of an event fails. -/
def Writes : ConnEvent → Prop
  | .readable _ => True
  | .writable outcomes => .error ∉ outcomes

/-- **The invariant of echoing**: what was written and what is queued are the
packets handed to `SendBackEcho`, one after the other. -/
structure Echoing (fs : List (List UInt8)) (s : Endpoint) : Prop
    extends s.Ready fs.flatten where
  fd : 0 < s.recv.conn.iFd
  sent : s.tx ++ s.recv.conn.unsent = s.echoed.flatten
  kept : s.sendDestroyed = false

/-- A receive callback keeps the invariant. -/
theorem Echoing.readable (h : s.Echoing fs) (hfs : ∀ f ∈ fs, IsEchoRequest f)
    (halone : s.EchoesAlone (.readable e)) (hstep : s.step (.readable e) = some s') :
    s'.Echoing fs := by
  obtain ⟨-, -, -, htx, hechoed, hdestroyed⟩ := step_readable hstep
  obtain ⟨hinv, hcases⟩ := h.toReady.readable hstep
  have hunsent : ∀ conn conn' : ConnFd, conn.SameSend conn' → conn'.unsent = conn.unsent := by
    rintro conn conn' ⟨-, hbuf, -, hcur, hpacket⟩
    unfold ConnFd.unsent
    rw [hbuf, hcur, hpacket]
  rcases hcases with ⟨hpacket, hsame⟩ | ⟨c, f, hpacket, hsame, hc, hframes, hentire⟩
  · refine ⟨⟨hinv, h.send.sameSend hsame⟩, ?_, ?_, hdestroyed.trans h.kept⟩
    · rw [hsame.iFd]
      exact h.fd
    · rw [htx, hunsent _ _ hsame, h.sent, hechoed, echoes, hpacket]
      simp only [Option.filter_none, Option.map_none, Option.toList_none, List.append_nil]
  · -- the packet is one of the echo requests
    have hf : IsEchoRequest f := by
      obtain ⟨rest, hrest⟩ := hinv.front
      have hfront := Framing.prefix_parse hinv.isFrame hrest
      rw [Framing.parse_flatten (fun g hg => (hfs g hg).frame), hframes] at hfront
      exact hfs f (hfront.subset (List.mem_append_right _ (List.mem_singleton_self f)))
    have hof : (Handover.of c).bytes = f := by
      rw [Handover.of, hc.cur, Int.toNat_natCast]
      exact hc.buf
    rw [hc.entire hf] at hentire
    obtain ⟨conn', calls, hsome, hsend⟩ := hentire.resolve_left (by simp)
    have hconn : (if c.handsEcho e.malloc then sendBackEcho c else (c, [])).1 = conn' :=
      congrArg Prod.fst (Option.some.inj hsome)
    by_cases hecho : c.handsEcho e.malloc = true
    · -- it goes to the front of an empty buffer
      rw [if_pos hecho] at hconn
      have hpacketLen := halone c hpacket hecho
      have hcur : s.recv.conn.iSendCurLen = 0 :=
        le_antisymm (hpacketLen ▸ h.send.cur_le) h.send.cur_nonneg
      have hnothing : s.recv.conn.unsent = [] := by
        rw [ConnFd.unsent, hpacketLen, hcur]
        rfl
      obtain ⟨hfirst, hreply⟩ := hc.echo hf (h.send.sameSend hsame)
        (hsame.iSendPacketLen.trans hpacketLen)
      have hsent := h.sent
      rw [hnothing, List.append_nil] at hsent
      rw [hconn] at hfirst hreply
      refine ⟨⟨hinv, hfirst.sameSend hsend⟩, ?_, ?_, hdestroyed.trans h.kept⟩
      · rw [hsend.iFd, ← hconn]
        show 0 < c.iFd
        rw [hsame.iFd]
        exact h.fd
      · rw [htx, hunsent _ _ hsend, hreply, hsent, hechoed, echoes, hpacket,
          Option.filter_some, if_pos hecho, Option.map_some, hof, Option.toList_some,
          List.flatten_append, List.flatten_singleton]
    · -- it is dropped
      rw [if_neg hecho] at hconn
      have hsame' : s.recv.conn.SameSend s'.recv.conn := by
        rw [← hconn] at hsend
        exact hsame.trans hsend
      refine ⟨⟨hinv, h.send.sameSend hsame'⟩, ?_, ?_, hdestroyed.trans h.kept⟩
      · rw [hsame'.iFd]
        exact h.fd
      · rw [htx, hunsent _ _ hsame', h.sent, hechoed, echoes, hpacket, Option.filter_some,
          if_neg hecho, Option.map_none, Option.toList_none, List.append_nil]

/-- What a send callback writes is the front of what is queued. -/
theorem unsent_of_slice {c : ConnFd} {k : ℕ}
    (hk : c.iSendCurLen + k ≤ c.iSendPacketLen) :
    c.unsent = c.pszSendBuf.slice c.iSendCurLen k
      ++ { c with iSendCurLen := c.iSendCurLen + k }.unsent := by
  have hlen : (c.iSendPacketLen - c.iSendCurLen).toNat
      = k + (c.iSendPacketLen - (c.iSendCurLen + k)).toNat := by
    omega
  unfold ConnFd.unsent
  rw [hlen, slice_add]

/-- A send callback keeps the invariant. -/
theorem Echoing.writable (h : s.Echoing fs) (hwrites : Writes (.writable outcomes))
    (hstep : s.step (.writable outcomes) = some s') : s'.Echoing fs := by
  have hready := h.toReady.writable hstep
  rcases step_writable h.send.cur_le hstep with rfl | ⟨-, r, hsent, hrecv, htx, hechoed, hgone⟩
  · exact h
  have hfd : 0 < s'.recv.conn.iFd := by
    rw [hrecv]
    show 0 < r.conn.iFd
    rw [hsent.sameConn.iFd]
    exact h.fd
  have hconn : s'.recv.conn = r.conn := by rw [hrecv]
  refine ⟨hready, hfd, ?_, ?_⟩
  · rw [htx, hechoed, ← h.sent, hconn, List.append_assoc]
    congr 1
    cases hsent with
    | idle => rfl
    | destroyed k hk hwhy =>
      exact absurd hwhy (not_or.mpr ⟨not_le.mpr h.fd, hwrites⟩)
    | some k hk => exact (unsent_of_slice hk.le).symm
    | all k hk =>
      rw [unsent_of_slice hk.le, ConnFd.unsent, ConnFd.unsent]
      show _ ++ [] = _ ++ s.recv.conn.pszSendBuf.slice (s.recv.conn.iSendCurLen + k)
        (s.recv.conn.iSendPacketLen - (s.recv.conn.iSendCurLen + k)).toNat
      rw [hk, sub_self]
      rfl
  · rw [hgone, decide_eq_false_iff_not]
    cases hsent with
    | idle => exact List.not_mem_nil
    | destroyed k hk hwhy =>
      exact absurd hwhy (not_or.mpr ⟨not_le.mpr h.fd, hwrites⟩)
    | some k hk => exact List.not_mem_nil
    | all k hk => exact fun hmem => absurd (List.mem_singleton.mp hmem) (by simp)

end Endpoint

/-- **Echo replies are written in order, where no reply is queued behind
another.** Whatever arrives in an event and whatever `read` does, and however
little `write` takes, the bytes written are the front of the packets handed to
`SendBackEcho`, all of them when nothing is queued, and no send callback
destroys the connection. -/
theorem echo_always_in_order {iFd : ℤ} (hfd : 0 < iFd) (node : NodePtr)
    (recvMem sendMem : ℤ → UInt8) (serial : ℕ) {fs : List (List UInt8)}
    (hfs : ∀ f ∈ fs, IsEchoRequest f) {callbacks : List ConnEvent}
    (hwrites : ∀ a ∈ callbacks, Endpoint.Writes a)
    (halone : Run.Along Endpoint.step Endpoint.EchoesAlone
      (Endpoint.start iFd node recvMem sendMem serial fs.flatten) callbacks) :
    Run.Always Endpoint.step
      (fun s => s.tx <+: s.echoed.flatten
        ∧ (s.recv.conn.iSendPacketLen = s.recv.conn.iSendCurLen → s.tx = s.echoed.flatten)
        ∧ s.sendDestroyed = false)
      (Endpoint.start iFd node recvMem sendMem serial fs.flatten) callbacks := by
  have hstart : (Endpoint.start iFd node recvMem sendMem serial fs.flatten).Echoing fs :=
    ⟨Endpoint.start_ready, hfd, rfl, rfl⟩
  have halways := Run.always_of_along (P := Endpoint.Echoing fs)
    (G := fun s a => Endpoint.Writes a ∧ s.EchoesAlone a) ?_ hstart
    ((Run.along_of_forall_mem (fun a ha _ => hwrites a ha) _).and halone)
  · refine halways.mono (fun s h => ⟨⟨_, h.sent⟩, fun hsent => ?_, h.kept⟩)
    have hnothing : s.recv.conn.unsent = [] := by
      rw [ConnFd.unsent, hsent, sub_self]
      rfl
    rw [← h.sent, hnothing, List.append_nil]
  · intro s a s' h hG hstep
    cases a with
    | readable e => exact h.readable hfs hG.2 hstep
    | writable outcomes => exact h.writable hG.1 hstep

/-- One echo request, its reply in two pieces, and then another one. -/
theorem echo_always_in_order_sample :
    Run.Always Endpoint.step
      (fun s => s.tx <+: s.echoed.flatten
        ∧ (s.recv.conn.iSendPacketLen = s.recv.conn.iSendCurLen → s.tx = s.echoed.flatten)
        ∧ s.sendDestroyed = false)
      (Endpoint.start 5 1 (fun _ => 0) (fun _ => 0) 0 [echoFrame, echoFrame].flatten)
      [.readable ⟨14, [], [], zeroMalloc⟩, .writable [.data 9], .writable [.data 9],
        .readable ⟨14, [], [], zeroMalloc⟩] :=
  echo_always_in_order (by decide) 1 (fun _ => 0) (fun _ => 0) 0
    (by decide +kernel)
    (by
      intro a ha
      simp only [List.mem_cons, List.not_mem_nil, or_false] at ha
      obtain rfl | rfl | rfl | rfl := ha
      · trivial
      · show WriteOutcome.error ∉ [WriteOutcome.data 9]
        decide
      · show WriteOutcome.error ∉ [WriteOutcome.data 9]
        decide
      · trivial)
    (by decide +kernel)

/-- **The reply to a pipelined request replaces the one before it**: of two echo
requests that are read before any reply is written, only one is answered. -/
theorem echo_not_always_in_order :
    (∀ f ∈ [echoFrame, echoFrame], IsEchoRequest f)
      ∧ (∀ a ∈ [ConnEvent.readable ⟨28, [], [], zeroMalloc⟩, .readable ⟨0, [], [], zeroMalloc⟩,
        .writable [.data 28]], Endpoint.Writes a)
      ∧ ¬ Run.Always Endpoint.step
        (fun s => s.tx <+: s.echoed.flatten
          ∧ (s.recv.conn.iSendPacketLen = s.recv.conn.iSendCurLen → s.tx = s.echoed.flatten)
          ∧ s.sendDestroyed = false)
        (Endpoint.start 5 1 (fun _ => 0) (fun _ => 0) 0 [echoFrame, echoFrame].flatten)
        [.readable ⟨28, [], [], zeroMalloc⟩, .readable ⟨0, [], [], zeroMalloc⟩,
          .writable [.data 28]] := by
  refine ⟨by decide +kernel, fun a ha => ?_, fun halways => ?_⟩
  · simp only [List.mem_cons, List.not_mem_nil, or_false] at ha
    obtain rfl | rfl | rfl := ha
    · trivial
    · trivial
    · show WriteOutcome.error ∉ [WriteOutcome.data 28]
      decide
  · have hrun : (Run.exec Endpoint.step
        (Endpoint.start 5 1 (fun _ => 0) (fun _ => 0) 0 [echoFrame, echoFrame].flatten)
        [.readable ⟨28, [], [], zeroMalloc⟩, .readable ⟨0, [], [], zeroMalloc⟩,
          .writable [.data 28]]).map (fun s => (s.tx, s.echoed, s.recv.conn.iSendPacketLen,
            s.recv.conn.iSendCurLen)) = some (echoFrame, [echoFrame, echoFrame], 0, 0) := by
      decide +kernel
    obtain ⟨s, hexec, hs⟩ := Option.map_eq_some_iff.mp hrun
    obtain ⟨htx, hs⟩ := Prod.mk.inj hs
    obtain ⟨hechoed, hs⟩ := Prod.mk.inj hs
    obtain ⟨hpacket, hcur⟩ := Prod.mk.inj hs
    have hall := (halways.exec hexec).2.1 (hpacket.trans hcur.symm)
    rw [htx, hechoed] at hall
    exact absurd hall (by decide +kernel)

/-- **The send buffer is kept in order exactly if every reply fits.** Whatever
the peer sends and whatever `read` and `write` do, the counters fit together,
the block is as long as it is taken to be, and all is written inside, after
every callback. -/
theorem sendBuffer_always_ok_iff (iFd : ℤ) (node : NodePtr) (recvMem sendMem : ℤ → UInt8)
    (serial : ℕ) (stream : List UInt8) {callbacks : List ConnEvent}
    (hmalloc : ∀ a ∈ callbacks, Endpoint.Allocates a) :
    Run.Always Endpoint.step (fun s => s.recv.conn.SendOk)
        (Endpoint.start iFd node recvMem sendMem serial stream) callbacks
      ↔ Run.Along Endpoint.step Endpoint.RepliesFit
        (Endpoint.start iFd node recvMem sendMem serial stream) callbacks := by
  refine Run.always_iff_along (P := Endpoint.Ready stream) (H := fun _ a => Endpoint.Allocates a)
    (fun _ h => h.send.toSendOk) ?_ ?_ Endpoint.start_ready
    (Run.along_of_forall_mem (fun a ha _ => hmalloc a ha) _)
  · intro s a s' h halloc hfits hstep
    cases a with
    | readable e => exact (h.readable_sendOk halloc hstep).2 hfits
    | writable outcomes => exact h.writable hstep
  · intro s a h halloc hbad
    cases a with
    | readable e =>
      have hlive : s.recv.fate = .live := by
        by_contra hgone
        exact hbad (fun hlive => absurd hlive hgone)
      obtain ⟨s', hstep⟩ := Endpoint.exists_step_readable (e := e) hlive
      exact ⟨s', hstep, fun hok => hbad ((h.readable_sendOk halloc hstep).1 hok)⟩
    | writable outcomes => exact absurd trivial hbad

/-- Two echo requests in one piece, and their replies in two. -/
theorem sendBuffer_always_ok_sample :
    Run.Always Endpoint.step (fun s => s.recv.conn.SendOk)
      (Endpoint.start 5 1 (fun _ => 0) (fun _ => 0) 0 [echoFrame, echoFrame].flatten)
      [.readable ⟨28, [], [], zeroMalloc⟩, .writable [.data 9], .readable ⟨0, [], [], zeroMalloc⟩,
        .writable [.data 9]] :=
  (sendBuffer_always_ok_iff 5 1 (fun _ => 0) (fun _ => 0) 0 [echoFrame, echoFrame].flatten
    (by
      intro a ha
      simp only [List.mem_cons, List.not_mem_nil, or_false] at ha
      obtain rfl | rfl | rfl | rfl := ha
      · show zeroMalloc.Succeeds
        decide
      · trivial
      · show zeroMalloc.Succeeds
        decide
      · trivial)).mpr (by decide +kernel)

/-- An echo request of `4097` bytes. -/
def longEchoFrame : List UInt8 :=
  [0x28, 0, 0, 0x10, 0x01, 0, 0, 0x30, 0, 0, 0, 0, 7] ++ List.replicate 4083 0 ++ [0x29]

/-- **The reply to a long echo request is written past the send buffer.** -/
theorem sendBuffer_not_always_ok :
    (∀ a ∈ [ConnEvent.readable ⟨4097, [], [], zeroMalloc⟩], Endpoint.Allocates a)
      ∧ ¬ Run.Always Endpoint.step (fun s => s.recv.conn.SendOk)
        (Endpoint.start 5 1 (fun _ => 0) (fun _ => 0) 0 longEchoFrame)
        [.readable ⟨4097, [], [], zeroMalloc⟩] := by
  refine ⟨fun a ha => ?_, fun hok => ?_⟩
  · obtain rfl := List.mem_singleton.mp ha
    show zeroMalloc.Succeeds
    decide
  · have hfirst : ((Endpoint.start 5 1 (fun _ => 0) (fun _ => 0) 0 longEchoFrame).step
        (.readable ⟨4097, [], [], zeroMalloc⟩)).map (fun s => s.recv.conn.pszSendBuf.overrun)
          = some true := by
      decide +kernel
    obtain ⟨s, hstep, hover⟩ := Option.map_eq_some_iff.mp hfirst
    have hinside : s.recv.conn.pszSendBuf.overrun = false := (hok.2 s hstep).head.inside
    rw [hover] at hinside
    exact absurd hinside (by decide)
