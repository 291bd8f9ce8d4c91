import TcpFrame.ConnSendBuffer

/-!
# A stream of packets

Of a stream that consists of packets, all packets should be handed over however
the stream is cut, and the connection should outlive it. One readable event is
enough to prevent this: where it finds just the missing bytes of a head, the
second read loop finds nothing and returns `0`, which the callback takes for the
end of the stream. `receiver_complete_iff` is the exact statement.

The other two ways an event can fail have nothing to do with the cuts. There may
be no memory for a packet that is longer than the receive buffer. And the reply
to a packet may be written past the send buffer, whose bytes are not counted
before: the copy of an echo reply is as long as the request, a new buffer for the
reply to a test request has the size of an `int`. What the callback does after
that is not defined. `ConnFd.ReplyInside` tells by the counters and the buffer
before the event.
-/

open Block

variable {conn c : ConnFd} {b : Block} {f : List UInt8} {malloc : Malloc} {p : PacketPack}

/-! ## The fields of a packet -/

/-- The four bytes of the field at `pos` of a packet. -/
def packetField (f : List UInt8) (pos : ℕ) : List UInt8 := (f.take (pos + 4)).drop pos

/-- **A packet that is replied to**: it ends in `EOT`, and its command is one of the
two that have a handler. -/
def AsksReply (f : List UInt8) : Prop :=
  f.getLast? = some protoEot
    ∧ (packetField f 5 = wordBytes cmdTestEcho ∨ packetField f 5 = wordBytes cmdTestValue)

instance (f : List UInt8) : Decidable (AsksReply f) := inferInstanceAs (Decidable (_ ∧ (_ ∨ _)))

/-- The field of a packet in a block. -/
theorem packetField_slice {pos n : ℕ} (hle : pos + 4 ≤ n) :
    packetField (b.slice 0 n) pos = wordBytes (b.word pos) := by
  rw [packetField, take_slice hle, slice_add, List.drop_left' length_slice, zero_add,
    slice_eq_wordBytes]

/-- The last byte of a packet in a block. -/
theorem getLast?_slice {off : ℤ} {n : ℕ} :
    (b.slice off (n + 1)).getLast? = some (b.byte (off + n)) := by
  rw [slice_add]
  show (b.slice off n ++ [b.byte (off + n + (0 : ℕ))]).getLast? = _
  rw [Nat.cast_zero, add_zero]
  exact List.getLast?_concat

/-- A request is at least `14` bytes long. -/
theorem Given.length_ge (h : Endpoint.Given c f) : 14 ≤ f.length := by
  have hmin := h.bounds.1
  rw [h.len, show packetBodyPos = 13 from rfl] at hmin
  omega

/-- The fields of a request are those in the receive buffer. -/
theorem Given.field (h : Endpoint.Given c f) {pos : ℕ} (hle : pos ≤ 10) :
    packetField f pos = wordBytes (c.pszRecvBuf.word pos) := by
  have hmin := Given.length_ge h
  rw [← h.buf]
  exact packetField_slice (by omega)

/-- **A command is found in the request** where the pack says it is. -/
theorem Given.cmd_iff (h : Endpoint.Given c f)
    (hp : string2PacketPack true c.pszRecvBuf 0 c.iRecvCurLen = some p) {cmd : BitVec 32} :
    getPacketCmd p = cmd ↔ packetField f 5 = wordBytes cmd := by
  obtain ⟨-, -, hblock, hbase⟩ := string2PacketPack_eq_some hp
  have hcmd : getPacketCmd p = c.pszRecvBuf.word (5 : ℕ) := by
    unfold getPacketCmd
    rw [hblock, hbase]
    rfl
  rw [Given.field h (by decide), hcmd]
  exact ⟨fun heq => congrArg wordBytes heq, wordBytes_inj⟩

/-- **A packet is taken exactly if it ends in `EOT`.** -/
theorem Given.pack_iff (h : Endpoint.Given c f) :
    (∃ p, string2PacketPack true c.pszRecvBuf 0 c.iRecvCurLen = some p)
      ↔ f.getLast? = some protoEot := by
  have hmin := Given.length_ge h
  have hlast : f.getLast? = some (c.pszRecvBuf.byte (c.iRecvCurLen - 1)) := by
    rw [← h.buf, show f.length = f.length - 1 + 1 by omega, getLast?_slice, h.cur]
    congr 2
    omega
  have hsoh : c.pszRecvBuf.byte packetSohPos = protoSoh := by
    have hhead := h.frame
    unfold Framing.IsFrame at hhead
    rw [← h.buf, length_slice, show protoFraming.headLen = 5 from rfl,
      take_slice (by omega)] at hhead
    obtain ⟨iPacketLen, hrecv, -⟩ := Option.map_eq_some_iff.mp ((frameLen_slice _).symm.trans hhead)
    unfold recvHead at hrecv
    dsimp only at hrecv
    by_contra hne
    rw [if_pos (Or.inl hne)] at hrecv
    exact absurd hrecv (by simp)
  rw [hlast, Option.some_inj]
  unfold string2PacketPack
  rw [if_neg (by rw [h.cur]; omega), if_pos rfl]
  dsimp only
  rw [zero_add, zero_add, hsoh]
  by_cases heot : c.pszRecvBuf.byte (c.iRecvCurLen - 1) = protoEot
  · rw [if_neg (by simp [heot])]
    exact ⟨fun _ => heot, fun _ => ⟨_, rfl⟩⟩
  · rw [if_pos (Or.inr heot)]
    exact ⟨fun ⟨_, hsome⟩ => absurd hsome (by simp), fun heq => absurd heq heot⟩

/-- **What `ProcessEntirePacket` does with a packet**: nothing, unless there is a pack for
it and it asks for a reply; then it calls the handler of its command. -/
theorem Given.entire_cases (h : Endpoint.Given c f) (malloc : Malloc) :
    processEntirePacket c malloc = some (c, [])
        ∧ (malloc.pstPacketPackRecv = true → ¬ AsksReply f)
      ∨ malloc.pstPacketPackRecv = true ∧ AsksReply f
        ∧ ((∃ p, string2PacketPack true c.pszRecvBuf 0 c.iRecvCurLen = some p
            ∧ getDataSize p = f.length - 14 ∧ packetField f 5 = wordBytes cmdTestValue
            ∧ processEntirePacket c malloc = processTestBinProtocol c p malloc)
          ∨ packetField f 5 ≠ wordBytes cmdTestValue
            ∧ processEntirePacket c malloc = some (sendBackEcho c)) := by
  have hmin := Given.length_ge h
  unfold processEntirePacket
  cases hpack : string2PacketPack malloc.pstPacketPackRecv c.pszRecvBuf 0 c.iRecvCurLen with
  | none =>
    refine Or.inl ⟨rfl, fun hmem hasks => ?_⟩
    obtain ⟨p, hp⟩ := (Given.pack_iff h).mpr hasks.1
    rw [hmem, hp] at hpack
    exact absurd hpack (by simp)
  | some p =>
    have hmem : malloc.pstPacketPackRecv = true := by
      by_contra hmem
      unfold string2PacketPack at hpack
      rw [if_neg (by rw [h.cur]; omega), if_neg hmem] at hpack
      exact absurd hpack (by simp)
    rw [hmem] at hpack
    have heot := (Given.pack_iff h).mp ⟨p, hpack⟩
    have htest : getPacketCmd p = cmdTestValue ↔ packetField f 5 = wordBytes cmdTestValue :=
      Given.cmd_iff h hpack
    have hecho : getPacketCmd p = cmdTestEcho ↔ packetField f 5 = wordBytes cmdTestEcho :=
      Given.cmd_iff h hpack
    dsimp only
    by_cases hcmd : getPacketCmd p = cmdTestValue
    · rw [if_pos hcmd]
      obtain ⟨htail, hpos, -⟩ := string2PacketPack_eq_some hpack
      refine Or.inr ⟨hmem, ⟨heot, Or.inr (htest.mp hcmd)⟩,
        Or.inl ⟨p, hpack, ?_, htest.mp hcmd, rfl⟩⟩
      unfold getDataSize
      rw [htail, hpos, h.cur, show packetBodyPos = 13 from rfl]
      omega
    have hother : packetField f 5 ≠ wordBytes cmdTestValue := fun hfield => hcmd (htest.mpr hfield)
    rw [if_neg hcmd]
    by_cases hcmd' : getPacketCmd p = cmdTestEcho
    · rw [if_pos hcmd']
      exact Or.inr ⟨hmem, ⟨heot, Or.inl (hecho.mp hcmd')⟩, Or.inr ⟨hother, rfl⟩⟩
    · rw [if_neg hcmd']
      exact Or.inl ⟨rfl, fun _ hasks =>
        hasks.2.elim (fun hfield => hcmd' (hecho.mpr hfield)) hother⟩

/-! ## Replies that stay inside the buffer -/

/-- **The reply to a test request of `n` bytes stays inside**, where nothing has been
sent: what `ResizeSendBufferPtr` is asked for is there, and the `14` bytes more that
are written as well; or no reply is built, for lack of a pack or of the new buffer. -/
def ConnFd.TestInside (conn : ConnFd) (malloc : Malloc) (n : ℕ) : Prop :=
  if conn.iSendPacketLen + (n + 114) ≤ conn.iSendTotalLen then
    malloc.pstPacketPackSend = true → 0 < conn.pszSendBuf.size →
      conn.iSendPacketLen + (n + 128) ≤ conn.pszSendBuf.size
  else conn.iSendPacketLen = 0
    ∧ (malloc.pszSendBuf.isNone = true ∨ malloc.pstPacketPackSend = false)

instance (n : ℕ) : Decidable (conn.TestInside malloc n) := by
  unfold ConnFd.TestInside
  infer_instance

/-- **The reply to a packet stays inside the send buffer**, where nothing has been
sent. -/
def ConnFd.ReplyInside (conn : ConnFd) (malloc : Malloc) (f : List UInt8) : Prop :=
  malloc.pstPacketPackRecv = true → AsksReply f →
    if packetField f 5 = wordBytes cmdTestValue then conn.TestInside malloc f.length
    else (f.length : ℤ) ≤ conn.pszSendBuf.size

instance (f : List UInt8) : Decidable (conn.ReplyInside malloc f) := by
  unfold ConnFd.ReplyInside
  infer_instance

/-- **The sending side of a connection that has sent nothing**: the replies that are
queued are inside the block, and each of them has a length of a packet. -/
structure ConnFd.Queueing (conn : ConnFd) : Prop where
  cur : conn.iSendCurLen = 0
  packet : conn.iSendPacketLen = 0 ∨ 14 ≤ conn.iSendPacketLen
  packet_le : conn.iSendPacketLen ≤ conn.pszSendBuf.size
  size_le : conn.pszSendBuf.size ≤ 4096
  total : BufSize 9 conn.iSendTotalLen
  inside : conn.pszSendBuf.overrun = false

theorem ConnFd.Queueing.packet_nonneg (h : conn.Queueing) : 0 ≤ conn.iSendPacketLen := by
  rcases h.packet with hzero | hmin
  · exact hzero.ge
  · omega

theorem ConnFd.create_queueing {iFd : ℤ} {node : NodePtr} {recvMem sendMem : ℤ → UInt8}
    {serial : ℕ} : (ConnFd.create iFd node recvMem sendMem serial).Queueing where
  cur := rfl
  packet := Or.inl rfl
  packet_le := by
    show (0 : ℤ) ≤ maxTcpBufSize
    decide
  size_le := le_rfl
  total := ⟨0, by decide, rfl⟩
  inside := rfl

theorem ConnFd.Queueing.sameSend (h : conn.Queueing) (hsame : conn.SameSend c) : c.Queueing := by
  obtain ⟨-, hbuf, htotal, hcur, hpacket, -⟩ := hsame
  refine ⟨hcur.trans h.cur, ?_, ?_, ?_, ?_, ?_⟩
  · rw [hpacket]
    exact h.packet
  · rw [hpacket, hbuf]
    exact h.packet_le
  · rw [hbuf]
    exact h.size_le
  · rw [htotal]
    exact h.total
  · rw [hbuf]
    exact h.inside

/-- Whether a reply stays inside is up to the sending side. -/
theorem ConnFd.ReplyInside.congr (hsame : conn.SameSend c) :
    c.ReplyInside malloc f ↔ conn.ReplyInside malloc f := by
  obtain ⟨-, hbuf, htotal, -, hpacket, -⟩ := hsame
  unfold ReplyInside TestInside
  rw [hbuf, htotal, hpacket]

/-- **`ResizeSendBufferPtr` where nothing has been sent**: there is room behind what is
queued, or a new block takes its place. -/
theorem ConnFd.Queueing.resize (h : conn.Queueing) {need : ℤ} (hneed : 0 ≤ need)
    (hmax : need ≤ 2 ^ 20 + 4096) (mem : Option (ℤ → UInt8)) :
    conn.iSendPacketLen + need ≤ conn.iSendTotalLen
        ∧ resizeSendBufferPtr conn need mem = some (conn.iSendPacketLen, conn)
      ∨ conn.iSendTotalLen < conn.iSendPacketLen + need
        ∧ ∃ n, BufSize 9 n ∧ resizeSendBufferPtr conn need mem
          = some (conn.iSendPacketLen, conn.dropSent (conn.newBlock mem) n) := by
  have hcur := h.cur
  have hpos := h.packet_nonneg
  have hle := h.packet_le.trans h.size_le
  obtain ⟨hlo, hhi⟩ := h.total.le
  have hroom : int32 (conn.iSendTotalLen - conn.iSendPacketLen)
      = conn.iSendTotalLen - conn.iSendPacketLen := int32_eq_self (by omega) (by omega)
  unfold resizeSendBufferPtr
  rw [hcur, hroom, add_zero, hroom]
  by_cases hfree : conn.iSendTotalLen - conn.iSendPacketLen ≥ need
  · rw [if_pos hfree]
    exact Or.inl ⟨by omega, rfl⟩
  rw [if_neg hfree, if_neg (by omega)]
  obtain ⟨n, hloop, hn, -⟩ := resizeLoop_spec resizeFuel (by decide) h.total hpos hneed
    (by omega) (by unfold resizeFuel; omega)
  refine Or.inr ⟨by omega, n, hn, ?_⟩
  rw [hloop, sub_zero, sizeT_eq_self hpos (by omega), ConnFd.dropSent, hcur, sub_zero]
  cases mem with
  | none => rfl
  | some bytes => rfl

/-- **In a new block** there is no room for what is queued: it has the size of an `int`
at most. -/
theorem ConnFd.Queueing.dropSent (h : conn.Queueing) (mem : Option (ℤ → UInt8)) {n : ℤ}
    (hn : BufSize 9 n) :
    ((conn.dropSent (conn.newBlock mem) n).pszSendBuf.overrun = false ↔ conn.iSendPacketLen = 0)
      ∧ (conn.dropSent (conn.newBlock mem) n).pszSendBuf.size = (if mem.isNone then 0 else 4)
      ∧ (conn.iSendPacketLen = 0 → (conn.dropSent (conn.newBlock mem) n).Queueing) := by
  have hcur := h.cur
  have hpos := h.packet_nonneg
  have hle := h.packet_le
  have hblock : (conn.newBlock mem).overrun = false
      ∧ (conn.newBlock mem).size = (if mem.isNone then 0 else 4) := by
    cases mem with
    | none => exact ⟨h.inside, rfl⟩
    | some bytes => exact ⟨h.inside, rfl⟩
  obtain ⟨hinside, hsize⟩ := hblock
  have hfour : 0 ≤ (conn.newBlock mem).size ∧ (conn.newBlock mem).size ≤ 4 := by
    rw [hsize]
    split <;> decide
  have hover : (conn.dropSent (conn.newBlock mem) n).pszSendBuf.overrun = false
      ↔ conn.iSendPacketLen = 0 := by
    show ((conn.newBlock mem).move 0 _ _ _).overrun = false ↔ _
    rw [overrun_move, hcur, sub_zero]
    constructor
    · rintro ⟨-, ⟨-, -, hfits⟩, -⟩
      rcases h.packet with hzero | hmin
      · exact hzero
      · omega
    · intro hzero
      exact ⟨hinside, ⟨le_rfl, hpos, by omega⟩, ⟨le_rfl, hpos, by omega⟩⟩
  have hsize' : (conn.dropSent (conn.newBlock mem) n).pszSendBuf.size = (conn.newBlock mem).size :=
    size_move
  have hpacket : (conn.dropSent (conn.newBlock mem) n).iSendPacketLen = conn.iSendPacketLen := by
    show conn.iSendPacketLen - conn.iSendCurLen = _
    rw [hcur, sub_zero]
  refine ⟨hover, hsize'.trans hsize, fun hzero => ⟨rfl, ?_, ?_, ?_, hn, hover.mpr hzero⟩⟩
  · exact Or.inl (hpacket.trans hzero)
  · rw [hpacket, hsize']
    omega
  · rw [hsize']
    omega

/-- **The handler of test requests** stays inside the buffer exactly if its reply does. -/
theorem ConnFd.Queueing.testReply (h : conn.Queueing) (malloc : Malloc) {n : ℕ} (hmin : 14 ≤ n)
    (hmax : (n : ℤ) ≤ packetMaxLen) (hsize : getDataSize p = n - 14) :
    ∃ conn' calls, processTestBinProtocol conn p malloc = some (conn', calls)
      ∧ (conn'.pszSendBuf.overrun = false ↔ conn.TestInside malloc n)
      ∧ (conn.TestInside malloc n → conn'.Queueing) := by
  have hmax' : packetMaxLen = 1024 * 1024 := rfl
  have hpos := h.packet_nonneg
  have hneed : int32 (getDataSize p + 128) = n + 114 := by
    rw [hsize, int32_eq_self] <;> omega
  unfold ConnFd.TestInside
  rcases h.resize (show 0 ≤ (n : ℤ) + 114 by omega) (by omega) malloc.pszSendBuf
    with ⟨hfree, hr⟩ | ⟨hfull, size, hsize, hr⟩
  · -- the reply goes behind what is queued
    rw [if_pos hfree]
    obtain ⟨hnone, hrun⟩ | ⟨hsome, b, hrun, hb, hinside⟩ :=
      processTestBinProtocol_of_resize (by omega) (by omega) hneed hpos hr
    · refine ⟨conn, [], hrun, iff_of_true h.inside fun hpack hnull => ?_, fun _ => h⟩
      rcases hnone with hnone | hfalse
      · exact absurd hnone (not_isNull hnull)
      · exact absurd (hpack.symm.trans hfalse) (by decide)
    · have hpack : malloc.pstPacketPackSend = true :=
        Bool.eq_true_of_not_eq_false fun hfalse => hsome (Or.inr hfalse)
      have hnull : 0 < conn.pszSendBuf.size := by
        have hle := h.packet_le
        by_contra hzero
        exact hsome (Or.inl ⟨by omega, by omega⟩)
      have hlen : conn.iSendPacketLen + ((n : ℤ) + 114 + 14) = conn.iSendPacketLen + (n + 128) := by
        omega
      rw [hlen] at hrun hinside
      refine ⟨_, _, hrun, ?_, fun hfits => ⟨h.cur, Or.inr ?_, ?_, ?_, h.total, ?_⟩⟩
      · exact hinside.trans ⟨fun hok _ _ => hok.2, fun hfits => ⟨h.inside, hfits hpack hnull⟩⟩
      · show 14 ≤ conn.iSendPacketLen + ((n : ℤ) + 128)
        omega
      · show conn.iSendPacketLen + ((n : ℤ) + 128) ≤ b.size
        rw [hb]
        exact hfits hpack hnull
      · show b.size ≤ 4096
        rw [hb]
        exact h.size_le
      · exact hinside.mpr ⟨h.inside, hfits hpack hnull⟩
  · -- there is a new block
    rw [if_neg (by omega)]
    obtain ⟨hover, hnew, hqueue⟩ := h.dropSent malloc.pszSendBuf hsize
    have hpacket : (conn.dropSent (conn.newBlock malloc.pszSendBuf) size).iSendPacketLen
        = conn.iSendPacketLen := by
      show conn.iSendPacketLen - conn.iSendCurLen = _
      rw [h.cur, sub_zero]
    rw [← hpacket] at hr
    obtain ⟨hnone, hrun⟩ | ⟨hsome, b, hrun, hb, hinside⟩ :=
      processTestBinProtocol_of_resize (by omega) (by omega) hneed (hpacket ▸ hpos) hr
    · refine ⟨_, _, hrun, ?_, fun hfits => hqueue hfits.1⟩
      rw [hover]
      refine ⟨fun hzero => ⟨hzero, ?_⟩, fun hfits => hfits.1⟩
      rcases hnone with ⟨hnull, -⟩ | hfalse
      · rw [hnew] at hnull
        refine Or.inl ?_
        by_contra hmem
        rw [if_neg hmem] at hnull
        exact absurd hnull (by decide)
      · exact Or.inr hfalse
    · -- which is too small for any reply
      have hshort : ¬ (conn.dropSent (conn.newBlock malloc.pszSendBuf) size).iSendPacketLen
          + ((n : ℤ) + 114 + 14)
          ≤ (conn.dropSent (conn.newBlock malloc.pszSendBuf) size).pszSendBuf.size := by
        rw [hnew, hpacket]
        split <;> omega
      have hnot : ¬ (conn.iSendPacketLen = 0
          ∧ (malloc.pszSendBuf.isNone = true ∨ malloc.pstPacketPackSend = false)) := by
        rintro ⟨hzero, hmem | hfalse⟩
        · exact hsome (Or.inl ⟨by rw [hnew, if_pos hmem], hpacket.trans hzero⟩)
        · exact hsome (Or.inr hfalse)
      exact ⟨_, _, hrun, iff_of_false (fun hok => hshort (hinside.mp hok).2) hnot,
        fun hfits => absurd hfits hnot⟩

/-- **The handler of echo requests** stays inside the buffer exactly if its reply does. -/
theorem ConnFd.Queueing.echoReply (h : conn.Queueing) (hlen : conn.iPacketLen = f.length)
    (hmin : 14 ≤ f.length) (hmax : (f.length : ℤ) ≤ packetMaxLen)
    (hrecv : conn.iPacketLen ≤ conn.pszRecvBuf.size) :
    ((sendBackEcho conn).1.pszSendBuf.overrun = false ↔ (f.length : ℤ) ≤ conn.pszSendBuf.size)
      ∧ ((f.length : ℤ) ≤ conn.pszSendBuf.size → (sendBackEcho conn).1.Queueing) := by
  have hmax' : packetMaxLen = 1024 * 1024 := rfl
  have hinside : (conn.pszSendBuf.move 0 conn.pszRecvBuf 0 (sizeT conn.iPacketLen)).overrun = false
      ↔ (f.length : ℤ) ≤ conn.pszSendBuf.size := by
    rw [hlen, sizeT_eq_self (by omega) (by omega), overrun_move]
    constructor
    · rintro ⟨-, ⟨-, -, hfits⟩, -⟩
      omega
    · intro hfits
      exact ⟨h.inside, ⟨le_rfl, by omega, by omega⟩, ⟨le_rfl, by omega, by omega⟩⟩
  refine ⟨hinside, fun hfits => ⟨h.cur, Or.inr ?_, ?_, ?_, h.total, hinside.mpr hfits⟩⟩
  · show 14 ≤ conn.iPacketLen
    omega
  · show conn.iPacketLen ≤ (Block.move _ _ _ _ _).size
    rw [size_move]
    omega
  · show (Block.move _ _ _ _ _).size ≤ 4096
    rw [size_move]
    exact h.size_le

/-- **`ProcessEntirePacket` stays inside the send buffer exactly if the reply does**,
and it comes to an end, where nothing has been sent. -/
theorem Given.entire_inside (hc : Endpoint.Given c f) (h : c.Queueing) (malloc : Malloc) :
    ∃ conn' calls, processEntirePacket c malloc = some (conn', calls)
      ∧ (conn'.pszSendBuf.overrun = false ↔ c.ReplyInside malloc f)
      ∧ (c.ReplyInside malloc f → conn'.Queueing) := by
  have hmin := Given.length_ge hc
  have hmax := hc.bounds.2
  rw [hc.len] at hmax
  unfold ConnFd.ReplyInside
  obtain ⟨hrun, hnot⟩ | ⟨hmem, hasks, ⟨p, -, hsize, hfield, hrun⟩ | ⟨hother, hrun⟩⟩ :=
    Given.entire_cases hc malloc
  · exact ⟨c, [], hrun, iff_of_true h.inside fun hmem hasks => absurd hasks (hnot hmem), fun _ => h⟩
  · obtain ⟨conn', calls, hrun', hinside, hqueue⟩ := h.testReply malloc hmin hmax hsize
    rw [if_pos hfield]
    exact ⟨conn', calls, hrun.trans hrun',
      hinside.trans ⟨fun hin _ _ => hin, fun hin => hin hmem hasks⟩,
      fun hin => hqueue (hin hmem hasks)⟩
  · obtain ⟨hinside, hqueue⟩ := h.echoReply hc.len hmin hmax hc.size
    rw [if_neg hother]
    exact ⟨_, _, hrun, hinside.trans ⟨fun hin _ _ => hin, fun hin => hin hmem hasks⟩,
      fun hin => hqueue (hin hmem hasks)⟩

/-! ## Streams of packets -/

/-- A readable event of an undisturbed stream: how many bytes have arrived, and
what `malloc` finds. -/
structure Arrival where
  arrives : ℕ
  malloc : Malloc

namespace Receiver

variable {s t : Receiver} {a : Arrival} {fs : List (List UInt8)} {events : List Arrival}

/-- What can be read once the bytes have arrived. -/
def readable (s : Receiver) (a : Arrival) : List UInt8 := s.rx ++ s.wire.take a.arrives

/-- **One level-triggered event**: there is none where nothing can be read. -/
def levelStep (s : Receiver) (a : Arrival) : Option Receiver :=
  if s.readable a = [] then some s else s.step ⟨a.arrives, [], [], a.malloc⟩

/-- **The event can be served**: it does not find just the rest of a head, it
finds the memory a long packet needs, and the reply to the packet it completes
stays inside the send buffer. -/
def Served (s : Receiver) (a : Arrival) : Prop :=
  s.readable a ≠ [] →
    ¬ s.conn.StopsAtHead (s.readable a) ∧ ¬ s.conn.LacksMemory a.malloc (s.readable a)
      ∧ ∀ f ∈ s.conn.completes (s.readable a), s.conn.ReplyInside a.malloc f

instance (s : Receiver) (a : Arrival) : Decidable (s.Served a) :=
  inferInstanceAs (Decidable (_ → _ ∧ _ ∧ ∀ f ∈ _, _))

/-- **The connection is kept**: it lives, and no access has left its buffers. -/
def Kept (s : Receiver) : Prop :=
  s.fate = .live ∧ s.conn.pszRecvBuf.overrun = false ∧ s.conn.pszSendBuf.overrun = false

instance (s : Receiver) : Decidable s.Kept := inferInstanceAs (Decidable (_ ∧ _ ∧ _))

/-- **While a stream of packets is read**: the connection lives, and the
invariant of receiving holds. -/
structure Reading (fs : List (List UInt8)) (s : Receiver) : Prop where
  inv : s.Inv fs.flatten
  live : s.fate = .live
  fd : 0 ≤ s.conn.iFd

/-- **While a stream of packets is served**: what is queued is inside the send
buffer as well. -/
structure Serving (fs : List (List UInt8)) (s : Receiver) : Prop extends s.Reading fs where
  queue : s.conn.Queueing

theorem Serving.kept (h : s.Serving fs) : s.Kept := by
  obtain ⟨p, hrecv, -⟩ := h.inv.live h.live
  exact ⟨h.live, hrecv.inside, h.queue.inside⟩

/-- The head an event completes is a good one. -/
theorem Reading.head (h : s.Reading fs) (hfs : ∀ f ∈ fs, protoFraming.IsFrame f)
    {p : List UInt8} (hstream : s.frames.flatten ++ (p ++ (s.rx ++ s.wire)) = fs.flatten)
    (hlen : 5 ≤ (p ++ s.readable a).length) :
    ∃ L, frameLen ((p ++ s.readable a).take 5) = some L := by
  have hne : p ++ (s.rx ++ s.wire) ≠ [] := by
    intro hnil
    have hzero := congrArg List.length hnil
    rw [readable, List.length_append, List.length_append, List.length_take] at hlen
    rw [List.length_append, List.length_append, List.length_nil] at hzero
    omega
  obtain ⟨L, hL⟩ := Framing.frameLen_of_flatten_append_eq hfs h.inv.isFrame hne hstream
  refine ⟨L, ?_⟩
  have hsplit : p ++ (s.rx ++ s.wire) = (p ++ s.readable a) ++ s.wire.drop a.arrives := by
    rw [readable, List.append_assoc, List.append_assoc, List.take_append_drop]
  rw [hsplit] at hL
  rwa [show protoFraming.headLen = 5 from rfl, List.take_append_of_le_length hlen] at hL

/-- **An event that is read** leaves the connection alive exactly if it neither stops at
a head nor lacks memory, and the callback comes to an end. -/
theorem Reading.step_spec (h : s.Reading fs) (hfs : ∀ f ∈ fs, protoFraming.IsFrame f)
    (hne : s.readable a ≠ []) :
    ∃ s', s.levelStep a = some s'
      ∧ s'.conn = (s.result ⟨a.arrives, [], [], a.malloc⟩).conn
      ∧ (s'.fate = .live ↔ ¬ s.conn.StopsAtHead (s.readable a)
        ∧ ¬ s.conn.LacksMemory a.malloc (s.readable a)
        ∧ (s.result ⟨a.arrives, [], [], a.malloc⟩).returns = true)
      ∧ (s'.fate = .live → s'.Reading fs ∧ s'.wire = s.wire.drop a.arrives
          ∧ s'.rx.length < (s.readable a).length) := by
  obtain ⟨p, hrecv, hstream⟩ := h.inv.live h.live
  obtain ⟨hdestroy, hread⟩ := processRecvCallback_nil hrecv a.malloc h.fd hne
    (h.head hfs hstream)
  change (.destroyConn ∈ (s.result ⟨a.arrives, [], [], a.malloc⟩).calls ↔ _) at hdestroy
  change (.destroyConn ∉ (s.result ⟨a.arrives, [], [], a.malloc⟩).calls →
    (s.result ⟨a.arrives, [], [], a.malloc⟩).rx.length < _ ∧ _) at hread
  have hfd : (s.result ⟨a.arrives, [], [], a.malloc⟩).conn.iFd = s.conn.iFd :=
    processRecvCallback_sameConn.iFd
  have hstep : s.step ⟨a.arrives, [], [], a.malloc⟩ = some
      { conn := (s.result ⟨a.arrives, [], [], a.malloc⟩).conn
        wire := s.wire.drop a.arrives
        rx := (s.result ⟨a.arrives, [], [], a.malloc⟩).rx
        handed := s.handed
          ++ ((s.result ⟨a.arrives, [], [], a.malloc⟩).packet.map Handover.of).toList
        fate := (s.result ⟨a.arrives, [], [], a.malloc⟩).fate } := if_pos h.live
  generalize s.result ⟨a.arrives, [], [], a.malloc⟩ = r at hdestroy hread hfd hstep
  refine ⟨_, (if_neg hne).trans hstep, rfl, ?_, fun hlive => ⟨⟨step_inv h.inv hstep, hlive, ?_⟩,
    rfl, ?_⟩⟩
  · rw [RecvResult.fate_eq_live, hdestroy, not_or, and_comm, and_assoc]
  · exact hfd ▸ h.fd
  · exact (hread (RecvResult.fate_eq_live.mp hlive).2).1

/-- **What an event does to the sending side**: it hands over the packet it completes,
whose reply is written inside the send buffer or not, and comes to an end. -/
theorem Serving.result_spec (h : s.Serving fs) (hfs : ∀ f ∈ fs, protoFraming.IsFrame f)
    (hne : s.readable a ≠ [])
    (hkept : ¬ (s.conn.StopsAtHead (s.readable a)
      ∨ s.conn.LacksMemory a.malloc (s.readable a))) :
    (s.result ⟨a.arrives, [], [], a.malloc⟩).returns = true
      ∧ ((s.result ⟨a.arrives, [], [], a.malloc⟩).conn.pszSendBuf.overrun = false
        ↔ ∀ f ∈ s.conn.completes (s.readable a), s.conn.ReplyInside a.malloc f)
      ∧ ((∀ f ∈ s.conn.completes (s.readable a), s.conn.ReplyInside a.malloc f) →
        (s.result ⟨a.arrives, [], [], a.malloc⟩).conn.Queueing) := by
  obtain ⟨p, hrecv, hstream⟩ := h.inv.live h.live
  obtain ⟨hdestroy, hread⟩ := processRecvCallback_nil hrecv a.malloc h.fd hne
    (h.head hfs hstream)
  have hspec := processRecvCallback_spec hrecv s.conn.iFd a.malloc [] [] (s.readable a)
  have hends := processRecvCallback_ends s.conn s.conn.iFd a.malloc [] [] (s.readable a)
  have hgone := fun hmem => hkept (hdestroy.mp hmem)
  have hpacket := (hread hgone).2
  change Received p (s.readable a) (s.result ⟨a.arrives, [], [], a.malloc⟩) at hspec
  change RecvEnds s.conn a.malloc (s.result ⟨a.arrives, [], [], a.malloc⟩) at hends
  change .destroyConn ∈ (s.result ⟨a.arrives, [], [], a.malloc⟩).calls → False at hgone
  change ((s.result ⟨a.arrives, [], [], a.malloc⟩).packet.isSome ↔ _) at hpacket
  generalize s.result ⟨a.arrives, [], [], a.malloc⟩ = r at hspec hends hgone hpacket
  cases hspec with
  | destroyed taken hrx hcalls _ _ =>
    rw [hcalls] at hgone
    exact (hgone (List.mem_singleton_self _)).elim
  | waiting taken hrx hcalls hnone hreturns _ =>
    have hcompletes : s.conn.completes (s.readable a) = none := by
      rw [hnone] at hpacket
      exact Option.not_isSome_iff_eq_none.mp (fun hsome => absurd (hpacket.mpr hsome) (by simp))
    have hqueue := h.queue.sameSend (hends.of_packet_none hnone).1
    have hall : ∀ f ∈ s.conn.completes (s.readable a), s.conn.ReplyInside a.malloc f := by
      rw [hcompletes]
      exact fun f hf => absurd hf (by simp)
    exact ⟨hreturns, iff_of_true hqueue.inside hall, fun _ => hqueue⟩
  | handed taken c hrx hsome hframe hbuf hcur hlen hsize _ _ =>
    have hcompletes : s.conn.completes (s.readable a) = some (p ++ taken) := by
      rw [hsome] at hpacket
      have hsplit : p ++ taken ++ r.rx = p ++ s.readable a := by rw [List.append_assoc, hrx]
      exact hrecv.completes_of_isFrame hframe hsplit (hpacket.mp rfl)
    rw [hcur, Int.toNat_natCast] at hbuf
    have hc : Endpoint.Given c (p ++ taken) := ⟨hframe, hbuf, hcur, hlen, hsize⟩
    obtain ⟨hsame, hentire⟩ := hends.of_packet_some hsome
    obtain ⟨conn', calls, hrun, hinside, hqueue⟩ :=
      Given.entire_inside hc (h.queue.sameSend hsame) a.malloc
    obtain ⟨conn₁, calls₁, hrun₁, hreturns, hsend, -⟩ := hentire.resolve_left
      (fun hnone => absurd (hrun.symm.trans hnone.1) (by simp))
    obtain ⟨rfl, -⟩ := Prod.mk.inj (Option.some.inj (hrun.symm.trans hrun₁))
    rw [ConnFd.ReplyInside.congr hsame] at hinside hqueue
    rw [hcompletes, hsend.pszSendBuf]
    simp only [Option.mem_some_iff, forall_eq']
    exact ⟨hreturns, hinside, fun hin => (hqueue hin).sameSend hsend⟩

/-- **A served event** reads something and keeps the connection; any other one does
not. -/
theorem Serving.step_spec (h : s.Serving fs) (hfs : ∀ f ∈ fs, protoFraming.IsFrame f)
    (hne : s.readable a ≠ []) :
    ∃ s', s.levelStep a = some s' ∧ (s'.Kept → s.Served a)
      ∧ (s.Served a → s'.Serving fs ∧ s'.wire = s.wire.drop a.arrives
          ∧ s'.rx.length < (s.readable a).length) := by
  obtain ⟨s', hstep, hconn, hlive, hreads⟩ := h.toReading.step_spec hfs hne
  refine ⟨s', hstep, fun ⟨hfate, _, hinside⟩ _ => ?_, fun hserved => ?_⟩
  · obtain ⟨hstop, hlack, -⟩ := hlive.mp hfate
    obtain ⟨-, hiff, -⟩ := h.result_spec hfs hne (not_or.mpr ⟨hstop, hlack⟩)
    rw [hconn] at hinside
    exact ⟨hstop, hlack, hiff.mp hinside⟩
  · obtain ⟨hstop, hlack, hall⟩ := hserved hne
    obtain ⟨hreturns, -, hqueue⟩ := h.result_spec hfs hne (not_or.mpr ⟨hstop, hlack⟩)
    obtain ⟨hreading, hwire, hlt⟩ := hreads (hlive.mpr ⟨hstop, hlack, hreturns⟩)
    exact ⟨⟨hreading, hconn ▸ hqueue hall⟩, hwire, hlt⟩

/-- Where nothing can be read, nothing has arrived. -/
theorem drop_of_readable_nil (hnil : s.readable a = []) :
    s.rx = [] ∧ s.wire.drop a.arrives = s.wire := by
  obtain ⟨hrx, htake⟩ := List.append_eq_nil_iff.mp hnil
  refine ⟨hrx, ?_⟩
  conv_rhs => rw [← List.take_append_drop a.arrives s.wire, htake]
  rfl

/-- **A served run** delivers the bytes that arrive in it, and ends with the
connection alive. -/
theorem Serving.exec (h : s.Serving fs) (hfs : ∀ f ∈ fs, protoFraming.IsFrame f)
    (hserved : Run.Along levelStep Served s events) :
    ∃ t, Run.exec levelStep s events = some t ∧ t.Serving fs
      ∧ t.wire = s.wire.drop (events.map Arrival.arrives).sum
      ∧ (s.wire = [] → s.rx.length ≤ events.length → t.rx = []) := by
  induction events generalizing s with
  | nil => exact ⟨s, rfl, h, rfl, fun _ hlen => List.length_eq_zero_iff.mp (Nat.le_zero.mp hlen)⟩
  | cons a events ih =>
    by_cases hnil : s.readable a = []
    · -- no event
      obtain ⟨hrx, hdrop⟩ := drop_of_readable_nil hnil
      have hstep : s.levelStep a = some s := if_pos hnil
      obtain ⟨t, hexec, ht, hwire, hdone⟩ := ih h (hserved.2 s hstep)
      refine ⟨t, ?_, ht, ?_, fun hw _ => hdone hw (by rw [hrx]; exact Nat.zero_le _)⟩
      · show (s.levelStep a).bind _ = some t
        rw [hstep]
        exact hexec
      · rw [hwire, List.map_cons, List.sum_cons, ← List.drop_drop, hdrop]
    · obtain ⟨s', hstep, -, hok⟩ := h.step_spec hfs hnil
      obtain ⟨hs', hwire', hlt⟩ := hok hserved.1
      obtain ⟨t, hexec, ht, hwire, hdone⟩ := ih hs' (hserved.2 s' hstep)
      refine ⟨t, ?_, ht, ?_, fun hw hlen => ?_⟩
      · show (s.levelStep a).bind _ = some t
        rw [hstep]
        exact hexec
      · rw [hwire, hwire', List.map_cons, List.sum_cons, List.drop_drop]
      · refine hdone (by rw [hwire', hw, List.drop_nil]) ?_
        rw [readable, hw, List.take_nil, List.append_nil] at hlt
        rw [List.length_cons] at hlen
        omega

end Receiver

/-- **A stream of packets is received completely, however it is cut, exactly if
every event can be served.** The stream arrives in `events`, and `more` events
follow until everything is read. -/
theorem receiver_complete_iff {iFd : ℤ} (hfd : 0 ≤ iFd) (node : NodePtr)
    (recvMem sendMem : ℤ → UInt8) (serial : ℕ) {fs : List (List UInt8)}
    (hfs : ∀ f ∈ fs, protoFraming.IsFrame f) {events more : List Arrival}
    (hall : fs.flatten.length ≤ (events.map Arrival.arrives).sum)
    (hmore : fs.flatten.length ≤ more.length) :
    (Run.Always Receiver.levelStep Receiver.Kept
        (Receiver.start iFd node recvMem sendMem serial fs.flatten) (events ++ more)
      ∧ ∃ t, Run.exec Receiver.levelStep
          (Receiver.start iFd node recvMem sendMem serial fs.flatten) (events ++ more) = some t
        ∧ t.rx = [] ∧ t.wire = [] ∧ t.frames = fs)
      ↔ Run.Along Receiver.levelStep Receiver.Served
          (Receiver.start iFd node recvMem sendMem serial fs.flatten) (events ++ more) := by
  set s := Receiver.start iFd node recvMem sendMem serial fs.flatten with hs
  have hstart : s.Serving fs := ⟨⟨Receiver.start_inv, rfl, hfd⟩, ConnFd.create_queueing⟩
  have hlives : Run.Always Receiver.levelStep Receiver.Kept s (events ++ more)
      ↔ Run.Along Receiver.levelStep Receiver.Served s (events ++ more) := by
    refine Run.always_iff_along (P := Receiver.Serving fs) (fun _ h => h.kept) ?_ ?_ hstart
      (Run.along_true _ _)
    · intro s a s' h _ hserved hstep
      by_cases hnil : s.readable a = []
      · obtain rfl : s = s' := Option.some.inj ((if_pos hnil).symm.trans hstep)
        exact h
      · obtain ⟨s₁, hstep₁, -, hok⟩ := h.step_spec hfs hnil
        obtain rfl := Option.some.inj (hstep₁.symm.trans hstep)
        exact (hok hserved).1
    · intro s a h _ hbad
      by_cases hnil : s.readable a = []
      · exact absurd (fun hne => absurd hnil hne) hbad
      · obtain ⟨s', hstep, hkept, -⟩ := h.step_spec hfs hnil
        exact ⟨s', hstep, fun hk => hbad (hkept hk)⟩
  refine ⟨fun h => hlives.mp h.1, fun hserved => ⟨hlives.mpr hserved, ?_⟩⟩
  -- first everything arrives, then everything is read
  obtain ⟨hserved₁, hserved₂⟩ := hserved.append
  obtain ⟨t₁, hexec₁, ht₁, hwire₁, -⟩ := hstart.exec hfs hserved₁
  obtain ⟨t, hexec, ht, hwire, hdone⟩ := ht₁.exec hfs (hserved₂ t₁ hexec₁)
  have hempty : t₁.wire = [] := by
    rw [hwire₁]
    exact List.drop_eq_nil_of_le hall
  have hrx : t.rx = [] := by
    refine hdone hempty (le_trans ?_ hmore)
    obtain ⟨p, -, hstream⟩ := ht₁.inv.live ht₁.live
    have hlen := congrArg List.length hstream
    rw [List.length_append, List.length_append, List.length_append] at hlen
    omega
  have hwire' : t.wire = [] := by rw [hwire, hempty, List.drop_nil]
  obtain ⟨p, hrecv, hstream⟩ := ht.inv.live ht.live
  rw [hrx, hwire', List.append_nil, List.append_nil] at hstream
  refine ⟨t, ?_, hrx, hwire', ?_⟩
  · rw [Run.exec_append, hexec₁]
    exact hexec
  · exact (Framing.eq_of_flatten_append_eq hfs ht.inv.isFrame hrecv.isPartial hstream).1

/-- Two echo requests, cut inside the head of the second. -/
theorem receiver_complete_sample :
    ∃ t, Run.exec Receiver.levelStep
        (Receiver.start 5 1 (fun _ => 0) (fun _ => 0) 0 [echoFrame, echoFrame].flatten)
        ([⟨16, zeroMalloc⟩, ⟨12, zeroMalloc⟩] ++ List.replicate 28 ⟨0, zeroMalloc⟩) = some t
      ∧ t.rx = [] ∧ t.wire = [] ∧ t.frames = [echoFrame, echoFrame] :=
  ((receiver_complete_iff (by decide) 1 (fun _ => 0) (fun _ => 0) 0 (by decide +kernel)
    (by decide) (by decide)).mpr
      (by decide +kernel)).2

/-- **A cut behind the head loses the connection**: where one echo request
arrives as its `5` bytes of head and then the other `9`, the first event
destroys the connection. -/
theorem receiver_not_complete :
    (∀ f ∈ [echoFrame], protoFraming.IsFrame f) ∧ [5, 9].sum = [echoFrame].flatten.length
      ∧ ¬ Run.Always Receiver.levelStep (fun s => s.fate = .live)
          (Receiver.start 5 1 (fun _ => 0) (fun _ => 0) 0 [echoFrame].flatten)
          ([5, 9].map (fun n => ⟨n, zeroMalloc⟩)) := by
  refine ⟨by decide +kernel, rfl, fun hlives => ?_⟩
  have hfirst : (Receiver.levelStep
      (Receiver.start 5 1 (fun _ => 0) (fun _ => 0) 0 [echoFrame].flatten)
      ⟨5, zeroMalloc⟩).map (fun s => s.fate) = some .destroyed := by
    decide +kernel
  obtain ⟨s, hstep, hfate⟩ := Option.map_eq_some_iff.mp hfirst
  have hlive : s.fate = .live := (hlives.2 s hstep).head
  rw [hfate] at hlive
  exact absurd hlive (by decide)
