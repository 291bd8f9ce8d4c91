import TcpFrame.ConnRecv

/-!
# What is queued and sent

The sending side of a connection: `ConnFd.SendOk` says that its counters and
its block fit together. A send callback keeps this (`processSendCallback_spec`);
the packet handlers keep it exactly if the reply fits (`processEntirePacket_sendOk`),
for neither of them looks at the room there is before it writes.
-/

open Block

variable {conn c : ConnFd} {b : Block} {p : PacketPack} {malloc : Malloc}
  {outcomes : List WriteOutcome} {L n : ℕ}

/-- **The sending side fits together**: what is sent is no more than what is
queued, what is queued fits the buffer, the block is as long as the buffer is
taken to be, and every byte was written inside it. -/
structure ConnFd.SendOk (conn : ConnFd) : Prop where
  cur_nonneg : 0 ≤ conn.iSendCurLen
  cur_le : conn.iSendCurLen ≤ conn.iSendPacketLen
  packet_le : conn.iSendPacketLen ≤ conn.iSendTotalLen
  total_le : conn.iSendTotalLen ≤ conn.pszSendBuf.size
  inside : conn.pszSendBuf.overrun = false

/-- The same, of a buffer that has its first length. -/
structure ConnFd.SendFirst (conn : ConnFd) : Prop extends conn.SendOk where
  total : conn.iSendTotalLen = maxTcpBufSize
  size : conn.pszSendBuf.size = maxTcpBufSize

theorem ConnFd.create_sendFirst {iFd : ℤ} {node : NodePtr} {recvMem sendMem : ℤ → UInt8}
    {serial : ℕ} : (ConnFd.create iFd node recvMem sendMem serial).SendFirst :=
  ⟨⟨le_rfl, le_rfl, by show (0 : ℤ) ≤ maxTcpBufSize; decide, le_rfl, rfl⟩, rfl, rfl⟩

theorem ConnFd.SendOk.sameSend (h : conn.SendOk) (hsame : conn.SameSend c) : c.SendOk := by
  obtain ⟨-, hbuf, htotal, hcur, hpacket⟩ := hsame
  refine ⟨?_, ?_, ?_, ?_, ?_⟩
  · exact hcur ▸ h.cur_nonneg
  · rw [hcur, hpacket]
    exact h.cur_le
  · rw [htotal, hpacket]
    exact h.packet_le
  · rw [htotal, hbuf]
    exact h.total_le
  · exact hbuf ▸ h.inside

theorem ConnFd.SendFirst.sameSend (h : conn.SendFirst) (hsame : conn.SameSend c) :
    c.SendFirst where
  toSendOk := h.toSendOk.sameSend hsame
  total := hsame.iSendTotalLen ▸ h.total
  size := hsame.pszSendBuf ▸ h.size

/-! ## Sending -/

/-- **The write loop** writes no more than it is asked to, and returns how much
it has written unless a write fails. -/
theorem sendLoop_spec (outcomes : List WriteOutcome) {sent : ℕ} (hsent : sent ≤ n) :
    (sendLoop n outcomes sent).2 ≤ n
      ∧ ((sendLoop n outcomes sent).1 = -1 ∧ .error ∈ outcomes
        ∨ (sendLoop n outcomes sent).1 = (sendLoop n outcomes sent).2) := by
  induction outcomes generalizing sent with
  | nil => exact ⟨hsent, Or.inr rfl⟩
  | cons outcome outcomes ih =>
    have hrest : ∀ sent', sent' ≤ n → (sendLoop n outcomes sent').2 ≤ n
        ∧ ((sendLoop n outcomes sent').1 = -1 ∧ .error ∈ outcome :: outcomes
          ∨ (sendLoop n outcomes sent').1 = (sendLoop n outcomes sent').2) := by
      intro sent' hle
      obtain ⟨hle', herr | hret⟩ := ih hle
      · exact ⟨hle', Or.inl ⟨herr.1, List.mem_cons_of_mem _ herr.2⟩⟩
      · exact ⟨hle', Or.inr hret⟩
    unfold sendLoop
    by_cases hmore : sent < n
    · rw [if_pos hmore]
      cases outcome with
      | data k => exact hrest _ (by omega)
      | eagain => exact ⟨hsent, Or.inr rfl⟩
      | eintr => exact hrest _ hsent
      | error => exact ⟨hsent, Or.inl ⟨rfl, List.mem_cons_self ..⟩⟩
    · rw [if_neg hmore]
      exact ⟨hsent, Or.inr rfl⟩

/-- **How a send callback may end**, with `tx` written: there was nothing to
send or no descriptor, the connection is destroyed, or `k` more bytes were
sent, all that was queued or not. -/
inductive Sent (conn : ConnFd) (outcomes : List WriteOutcome) : SendResult → Prop
  | idle : Sent conn outcomes ⟨conn, [], []⟩
  | destroyed (k : ℕ) (hk : conn.iSendCurLen + k ≤ conn.iSendPacketLen)
    (hwhy : conn.iFd ≤ 0 ∨ .error ∈ outcomes) :
    Sent conn outcomes
      ⟨conn, [.destroyConn], conn.pszSendBuf.slice conn.iSendCurLen k⟩
  | some (k : ℕ) (hk : conn.iSendCurLen + k < conn.iSendPacketLen) :
    Sent conn outcomes
      ⟨{ conn with iSendCurLen := conn.iSendCurLen + k }, [],
        conn.pszSendBuf.slice conn.iSendCurLen k⟩
  | all (k : ℕ) (hk : conn.iSendCurLen + k = conn.iSendPacketLen) :
    Sent conn outcomes
      ⟨{ conn with iSendCurLen := 0, iSendPacketLen := 0 }, [.eventDel eventWritable],
        conn.pszSendBuf.slice conn.iSendCurLen k⟩

/-- **A send callback**, on a connection whose counters fit together. -/
theorem processSendCallback_spec {t_iFd : ℤ} (hle : conn.iSendCurLen ≤ conn.iSendPacketLen) :
    Sent conn outcomes (processSendCallback conn t_iFd outcomes) := by
  unfold processSendCallback
  split
  · exact .idle
  · split
    · exact .idle
    · unfold pynServerSendData
      by_cases hfd : conn.iFd ≤ 0
      · rw [if_pos (Or.inl hfd)]
        exact .destroyed 0 (by rw [Nat.cast_zero, add_zero]; exact hle) (Or.inl hfd)
      · rw [if_neg (by omega)]
        obtain ⟨hk, hret⟩ := sendLoop_spec outcomes
          (n := (conn.iSendPacketLen - conn.iSendCurLen).toNat) (Nat.zero_le _)
        generalize sendLoop (conn.iSendPacketLen - conn.iSendCurLen).toNat outcomes 0 = r
          at hk hret
        obtain ⟨iRet, k⟩ := r
        dsimp only at hk hret ⊢
        rcases hret with ⟨rfl, herr⟩ | rfl
        · rw [if_pos (by decide)]
          exact .destroyed k (by omega) (Or.inr herr)
        · rw [if_neg (by omega)]
          by_cases hall : conn.iSendPacketLen = conn.iSendCurLen + k
          · rw [if_pos hall]
            exact .all k hall.symm
          · rw [if_neg hall]
            exact .some k (by omega)

/-- A send callback leaves the connection the one it is. -/
theorem Sent.sameConn {r : SendResult} (h : Sent conn outcomes r) : conn.SameConn r.conn := by
  cases h <;> exact ⟨rfl, rfl, rfl⟩

/-- It changes only the two counters of sending. -/
theorem Sent.conn_eq {r : SendResult} (h : Sent conn outcomes r) :
    ∃ iSendCurLen iSendPacketLen, r.conn = { conn with
      iSendCurLen := iSendCurLen, iSendPacketLen := iSendPacketLen } := by
  cases h with
  | idle => exact ⟨_, _, rfl⟩
  | destroyed k hk => exact ⟨_, _, rfl⟩
  | some k hk => exact ⟨_, _, rfl⟩
  | all k hk => exact ⟨_, _, rfl⟩

/-- **A send callback keeps the sending side in order.** -/
theorem Sent.sendFirst {r : SendResult} (h : Sent conn outcomes r) (hok : conn.SendFirst) :
    r.conn.SendFirst := by
  cases h with
  | idle => exact hok
  | destroyed k hk => exact hok
  | some k hk =>
    have hcur := hok.cur_nonneg
    exact ⟨⟨by show 0 ≤ conn.iSendCurLen + k; omega, hk.le, hok.packet_le, hok.total_le,
      hok.inside⟩, hok.total, hok.size⟩
  | all k hk =>
    have htotal := hok.total
    exact ⟨⟨le_rfl, le_rfl, by show 0 ≤ conn.iSendTotalLen; rw [htotal]; decide, hok.total_le,
      hok.inside⟩, hok.total, hok.size⟩

/-! ## The reply to a test request

The reply is written through a pack over the send buffer, behind what is
queued. No function on the way compares what it writes with the room there is,
so the last byte written decides whether all of it was inside. -/

/-- **A pack that was written up to `tail`**, at `pos` in the block `buf`:
everything was inside exactly if the byte at `tail` is. -/
structure PacketPack.Reaches (buf : Block) (pos tail : ℤ) (p : PacketPack) : Prop where
  pBuffer : p.pBuffer = pos
  iTailer : p.iTailer = tail
  size : p.block.size = buf.size
  inside : p.block.overrun = false ↔ buf.overrun = false ∧ pos + tail + 1 ≤ buf.size

variable {buf : Block} {pos tail iLength : ℤ}

/-- A further copy that stays in front of the tail changes nothing. -/
theorem PacketPack.Reaches.store (h : p.Reaches buf pos tail) (hpos : 0 ≤ pos) (off : ℤ)
    (src : List UInt8) (hoff : 0 ≤ off) (hle : off + src.length ≤ tail + 1) :
    PacketPack.Reaches buf pos tail { p with block := p.block.store (p.pBuffer + off) src } where
  pBuffer := h.pBuffer
  iTailer := h.iTailer
  size := size_store.trans h.size
  inside := by
    rw [overrun_store, h.inside, Holds, h.size, h.pBuffer]
    constructor
    · exact fun hall => hall.1
    · exact fun hall => ⟨hall, by omega, by omega, by omega⟩

theorem createPackFromBuffer_reaches (hpos : 0 ≤ pos) (hnull : ¬ buf.IsNull pos) :
    ∃ p, createPackFromBuffer true buf pos iLength = some p
      ∧ p.Reaches buf pos packetBodyPos := by
  refine ⟨_, (if_neg hnull).trans (if_pos rfl), ⟨rfl, rfl, ?_, ?_⟩⟩
  · rw [size_store, size_store, size_store]
  · rw [overrun_store, overrun_store, overrun_store, and_assoc, and_assoc]
    simp only [Holds, size_store, packetSohPos, packetBodyPos, packetLenPos, length_wordBytes,
      List.length_singleton]
    exact and_congr_right (fun _ => by omega)

theorem PacketPack.Reaches.cmd (h : p.Reaches buf pos tail) {cmd : BitVec 32} :
    (setPacketCmd p cmd).Reaches buf pos tail :=
  ⟨h.pBuffer, h.iTailer, h.size, h.inside⟩

theorem PacketPack.Reaches.seq (h : p.Reaches buf pos tail) (hpos : 0 ≤ pos)
    (htail : packetBodyPos ≤ tail) {seq : BitVec 32} :
    (setPacketSeq p seq).Reaches buf pos tail := by
  have h13 : packetBodyPos = 13 := rfl
  have h9 : packetSeqPos = 9 := rfl
  exact h.store hpos _ _ (by omega) (by rw [length_wordBytes]; omega)

theorem PacketPack.Reaches.string (h : p.Reaches buf pos tail) (hpos : 0 ≤ pos)
    (htail : packetBodyPos ≤ tail) : (packetPack2String p).Reaches buf pos tail := by
  have h13 : packetBodyPos = 13 := rfl
  have hsoh := h.store hpos 0 [protoSoh] le_rfl (by show (0 : ℤ) + 1 ≤ tail + 1; omega)
  have heot := hsoh.store hpos p.iTailer [protoEot] (by rw [h.iTailer]; omega)
    (by rw [h.iTailer]; exact le_rfl)
  exact heot.store hpos packetLenPos _ (by decide) (by show (1 : ℤ) + 4 ≤ tail + 1; omega)

/-- **Filling the body** moves the tail by the length asked for. -/
theorem addAllData2Packet_reaches {rodata : ℕ → UInt8} (h : p.Reaches buf pos tail)
    (hpos : 0 ≤ pos) (htail : packetBodyPos ≤ tail) (hlen : 7 ≤ iLength) :
    ∃ p', addAllData2Packet p iLength rodata = (Ret.succ, p')
      ∧ p'.Reaches buf pos (tail + iLength) := by
  have h13 : packetBodyPos = 13 := rfl
  unfold addAllData2Packet
  rw [if_neg (by omega)]
  dsimp only
  rw [if_neg (by omega), h.pBuffer, h.iTailer]
  refine ⟨_, rfl, ⟨rfl, rfl, ?_, ?_⟩⟩
  · show (((p.block.store _ _).store _ _).store _ _).size = buf.size
    rw [size_store, size_store, size_store]
    exact h.size
  · show (((p.block.store _ _).store _ _).store _ _).overrun = false ↔ _
    rw [overrun_store, overrun_store, overrun_store, h.inside, and_assoc, and_assoc, and_assoc]
    simp only [Holds, size_store, h.size, List.length_cons, List.length_nil, List.length_map,
      List.length_range]
    -- the last byte decides
    exact and_congr_right (fun _ => by omega)

/-- **Queueing the reply** that was built behind what is queued. -/
theorem sendPacket2Client_reaches (hpos : 0 ≤ c.iSendPacketLen)
    (hp : p.Reaches c.pszSendBuf c.iSendPacketLen tail) (htail : packetBodyPos ≤ tail)
    (hmax : tail < 2 ^ 30) :
    ∃ b, sendPacket2Client c p = ({ c with
          pszSendBuf := b, iSendPacketLen := c.iSendPacketLen + (tail + 1) },
        [.eventAdd eventWritable .processSendCallback])
      ∧ b.size = c.pszSendBuf.size
      ∧ (b.overrun = false ↔ c.pszSendBuf.overrun = false
        ∧ c.iSendPacketLen + tail + 1 ≤ c.pszSendBuf.size) := by
  have h13 : packetBodyPos = 13 := rfl
  have hp' := hp.string hpos htail
  have hlen : (getPacketLen (packetPack2String p)).toInt = tail + 1 := by
    unfold getPacketLen
    rw [hp'.iTailer, BitVec.toInt_ofInt]
    exact Int.bmod_eq_of_le (by omega) (by omega)
  unfold sendPacket2Client
  dsimp only
  rw [hlen]
  refine ⟨_, rfl, ?_, ?_⟩
  · exact size_move.trans hp'.size
  · show ((packetPack2String p).block.move c.iSendPacketLen _ 0 _).overrun = false ↔ _
    rw [Option.getD_none, sizeT_eq_self (by omega) (by omega), overrun_move, hp'.inside, Holds,
      Holds, hp'.size, and_assoc]
    exact and_congr_right (fun _ => by omega)

/-- **A pack that was missed** stays so. -/
theorem addAllData2Packet_strays {rodata : ℕ → UInt8} (h : p.overrun = true) :
    (addAllData2Packet p iLength rodata).2.overrun = true := by
  unfold addAllData2Packet
  split
  · exact h
  · show (p.overrun || _) = true
    rw [h, Bool.true_or]

/-- **A test request of `L` bytes**: where the reply begins at what is queued in
`c`, it ends `L + 128` bytes behind, and is inside exactly if that is. The copy
of the command misses the pack. -/
theorem testReply_spec {cmd seq : BitVec 32} {rodata : ℕ → UInt8} (hpos : 0 ≤ c.iSendPacketLen)
    (hnull : ¬ c.pszSendBuf.IsNull c.iSendPacketLen) (hlen : 7 ≤ iLength)
    (hmax : iLength < 2 ^ 29) :
    ∃ p p' b, createPackFromBuffer true c.pszSendBuf c.iSendPacketLen iLength = some p
      ∧ addAllData2Packet (setPacketSeq (setPacketCmd p cmd) seq) iLength rodata
        = (Ret.succ, p')
      ∧ sendPacket2Client { c with strayed := c.strayed || p'.overrun } p' = ({ c with
          pszSendBuf := b, iSendPacketLen := c.iSendPacketLen + (iLength + 14), strayed := true },
        [.eventAdd eventWritable .processSendCallback])
      ∧ b.size = c.pszSendBuf.size
      ∧ (b.overrun = false ↔ c.pszSendBuf.overrun = false
        ∧ c.iSendPacketLen + (iLength + 14) ≤ c.pszSendBuf.size) := by
  have h13 : packetBodyPos = 13 := rfl
  obtain ⟨p, hcreate, hp⟩ := createPackFromBuffer_reaches hpos hnull
  obtain ⟨p', hadd, hp'⟩ := addAllData2Packet_reaches
    (hp.cmd.seq hpos le_rfl) hpos le_rfl hlen
  have hstrays : p'.overrun = true := by
    have h : (addAllData2Packet (setPacketSeq (setPacketCmd p cmd) seq) iLength rodata).2.overrun
      = true := addAllData2Packet_strays rfl
    rwa [hadd] at h
  obtain ⟨b, hsend, hsize, hinside⟩ := sendPacket2Client_reaches
    (c := { c with strayed := c.strayed || p'.overrun }) hpos hp' (by omega) (by omega)
  refine ⟨p, p', b, hcreate, hadd, ?_, hsize, ?_⟩
  · rw [hsend, show packetBodyPos + iLength + 1 = iLength + 14 by omega]
    rw [hstrays, Bool.or_true]
  · rw [hinside, show c.iSendPacketLen + (packetBodyPos + iLength) + 1
      = c.iSendPacketLen + (iLength + 14) by omega]

/-! ## When a reply fits -/

/-- **All allocations succeed.** -/
structure Malloc.Succeeds (malloc : Malloc) : Prop where
  pszRecvBuf : malloc.pszRecvBuf.isSome
  pszSendBuf : malloc.pszSendBuf.isSome
  pstPacketPackRecv : malloc.pstPacketPackRecv = true
  pstPacketPackSend : malloc.pstPacketPackSend = true

instance : Decidable malloc.Succeeds :=
  decidable_of_iff (malloc.pszRecvBuf.isSome ∧ malloc.pszSendBuf.isSome
      ∧ malloc.pstPacketPackRecv = true ∧ malloc.pstPacketPackSend = true)
    ⟨fun ⟨h₁, h₂, h₃, h₄⟩ => ⟨h₁, h₂, h₃, h₄⟩, fun ⟨h₁, h₂, h₃, h₄⟩ => ⟨h₁, h₂, h₃, h₄⟩⟩

/-- **An echo reply fits**: the packet is no longer than the send buffer, and no
shorter than what was sent of the reply it replaces. -/
def ConnFd.EchoFits (conn : ConnFd) : Prop :=
  conn.iPacketLen ≤ conn.iSendTotalLen ∧ conn.iSendCurLen ≤ conn.iPacketLen

/-- **The reply to a test request fits**: it is `128` bytes longer than the
request, while `ResizeSendBufferPtr` makes sure of `114` only. There is room for
all of it behind what is queued; or there is not even room for the `114`, and
what was sent is dropped first, which makes enough. -/
def ConnFd.TestFits (conn : ConnFd) : Prop :=
  conn.iSendPacketLen + (conn.iPacketLen + 128) ≤ conn.iSendTotalLen
    ∨ conn.iSendTotalLen < conn.iSendPacketLen + (conn.iPacketLen + 114)
      ∧ conn.iSendPacketLen - conn.iSendCurLen + (conn.iPacketLen + 128) ≤ conn.iSendTotalLen

/-- **The reply to the packet in the buffer fits**, whatever its command. -/
def ConnFd.ReplyFits (conn : ConnFd) : Prop :=
  ∀ p ∈ string2PacketPack true conn.pszRecvBuf 0 conn.iRecvCurLen,
    (getPacketCmd p = cmdTestValue → conn.TestFits)
      ∧ (getPacketCmd p = cmdTestEcho → conn.EchoFits)

instance : Decidable conn.EchoFits := inferInstanceAs (Decidable (_ ∧ _))

instance : Decidable conn.TestFits := inferInstanceAs (Decidable (_ ∨ _ ∧ _))

instance : Decidable conn.ReplyFits :=
  inferInstanceAs (Decidable (∀ p ∈ _, (_ → _) ∧ (_ → _)))

/-- A connection with `iSendLen` more bytes queued. -/
theorem ConnFd.SendFirst.queue (h : c.SendFirst) {iSendLen : ℤ} (hpos : 0 ≤ iSendLen)
    (hsize : b.size = c.pszSendBuf.size)
    (hinside : b.overrun = false ↔ c.pszSendBuf.overrun = false
      ∧ c.iSendPacketLen + iSendLen ≤ c.pszSendBuf.size) {strayed : Bool} {c' : ConnFd}
    (hc' : c' = { c with
      pszSendBuf := b, iSendPacketLen := c.iSendPacketLen + iSendLen, strayed := strayed }) :
    (c'.SendOk → c.iSendPacketLen + iSendLen ≤ c.iSendTotalLen)
      ∧ (c.iSendPacketLen + iSendLen ≤ c.iSendTotalLen → c'.SendFirst) := by
  have hcur := h.cur_le
  subst hc'
  refine ⟨fun hok => hok.packet_le, fun hle => ⟨⟨h.cur_nonneg, ?_, hle, ?_, ?_⟩, h.total, ?_⟩⟩
  · show c.iSendCurLen ≤ c.iSendPacketLen + iSendLen
    omega
  · show c.iSendTotalLen ≤ b.size
    rw [hsize]
    exact h.total_le
  · exact hinside.mpr ⟨h.inside, le_trans hle h.total_le⟩
  · exact hsize.trans h.size

/-- **`ResizeSendBufferPtr` on a buffer of the first length**: there is room
behind what is queued, or there is once what was sent is dropped; otherwise the
new buffer has the size of an `int`. -/
theorem resizeSendBufferPtr_spec (h : conn.SendFirst) {iNeed : ℤ} (hneed : 0 ≤ iNeed)
    (hmax : iNeed ≤ 2 ^ 20 + 4096) {mem : Option (ℤ → UInt8)} (hmem : mem.isSome) :
    ∃ c, resizeSendBufferPtr conn iNeed mem = some (c.iSendPacketLen, c)
      ∧ 0 ≤ c.iSendPacketLen ∧ 0 < c.pszSendBuf.size
      ∧ (conn.iSendPacketLen + iNeed ≤ conn.iSendTotalLen ∧ c = conn
        ∨ conn.iSendTotalLen < conn.iSendPacketLen + iNeed
          ∧ (conn.iSendPacketLen - conn.iSendCurLen + iNeed < conn.iSendTotalLen
              ∧ c.SendFirst ∧ c.iSendPacketLen = conn.iSendPacketLen - conn.iSendCurLen
            ∨ conn.iSendTotalLen ≤ conn.iSendPacketLen - conn.iSendCurLen + iNeed
              ∧ c.pszSendBuf.size < c.iSendTotalLen)) := by
  have h4096 : maxTcpBufSize = 4096 := rfl
  obtain ⟨⟨hcur, hcurle, hpacket, htotal, hinside⟩, hfirst, hblock⟩ := h
  have hroom : int32 (conn.iSendTotalLen - conn.iSendPacketLen)
      = conn.iSendTotalLen - conn.iSendPacketLen := int32_eq_self (by omega) (by omega)
  have hroom' : int32 (conn.iSendTotalLen - conn.iSendPacketLen + conn.iSendCurLen)
      = conn.iSendTotalLen - conn.iSendPacketLen + conn.iSendCurLen :=
    int32_eq_self (by omega) (by omega)
  have hunsent : sizeT (conn.iSendPacketLen - conn.iSendCurLen)
      = conn.iSendPacketLen - conn.iSendCurLen := sizeT_eq_self (by omega) (by omega)
  unfold resizeSendBufferPtr
  rw [hroom, hroom']
  by_cases hfree : conn.iSendTotalLen - conn.iSendPacketLen ≥ iNeed
  · rw [if_pos hfree]
    exact ⟨conn, rfl, by omega, by omega, Or.inl ⟨by omega, rfl⟩⟩
  rw [if_neg hfree]
  by_cases hdrop : conn.iSendTotalLen - conn.iSendPacketLen + conn.iSendCurLen > iNeed
  · -- what was sent is dropped
    rw [if_pos hdrop]
    refine ⟨_, rfl, ?_, ?_,
      Or.inr ⟨by omega, Or.inl ⟨by omega, ⟨⟨le_rfl, ?_, ?_, ?_, ?_⟩, ?_, ?_⟩, rfl⟩⟩⟩
    · show 0 ≤ conn.iSendPacketLen - conn.iSendCurLen
      omega
    · show 0 < (Block.move _ _ _ _ _).size
      rw [size_move]
      omega
    · show 0 ≤ conn.iSendPacketLen - conn.iSendCurLen
      omega
    · show conn.iSendPacketLen - conn.iSendCurLen ≤ conn.iSendTotalLen
      omega
    · show conn.iSendTotalLen ≤ (Block.move _ _ _ _ _).size
      rw [size_move]
      exact htotal
    · show (conn.pszSendBuf.move _ _ _ _).overrun = false
      rw [hunsent, overrun_move]
      exact ⟨hinside, ⟨le_rfl, by omega, by omega⟩, ⟨hcur, by omega, by omega⟩⟩
    · exact hfirst
    · exact size_move.trans hblock
  · -- there is a new buffer
    rw [if_neg hdrop]
    have hbuf : BufSize 9 conn.iSendTotalLen := ⟨0, by decide, by rw [hfirst]; rfl⟩
    obtain ⟨n, hloop, hn, -⟩ := resizeLoop_spec resizeFuel (by decide) hbuf
      (show 0 ≤ conn.iSendPacketLen by omega) hneed (by omega) (by rw [hfirst]; decide)
    obtain ⟨hlo, -⟩ := hn.le
    obtain ⟨bytes, rfl⟩ := Option.isSome_iff_exists.mp hmem
    rw [hloop]
    refine ⟨_, rfl, ?_, ?_, Or.inr ⟨by omega, Or.inr ⟨by omega, ?_⟩⟩⟩
    · show 0 ≤ conn.iSendPacketLen - conn.iSendCurLen
      omega
    · show 0 < (Block.move _ _ _ _ _).size
      rw [size_move]
      exact (by decide : (0 : ℤ) < 4)
    · show (Block.move _ _ _ _ _).size < n
      rw [size_move]
      show (4 : ℤ) < n
      omega

/-- **The handler of test requests, once there is room**: it queues a reply of
`iLength + 14` bytes, or nothing where there is no pack to build it in. -/
theorem processTestBinProtocol_of_resize {iLength : ℤ} (hlen : 7 ≤ iLength) (hmax : iLength < 2 ^ 29)
    (hneed : int32 (getDataSize p + 128) = iLength) (hpos : 0 ≤ c.iSendPacketLen)
    (hresize : resizeSendBufferPtr conn iLength malloc.pszSendBuf = some (c.iSendPacketLen, c)) :
    (c.pszSendBuf.IsNull c.iSendPacketLen ∨ malloc.pstPacketPackSend = false)
        ∧ processTestBinProtocol conn p malloc = some (c, [])
      ∨ ¬ (c.pszSendBuf.IsNull c.iSendPacketLen ∨ malloc.pstPacketPackSend = false)
        ∧ ∃ b, processTestBinProtocol conn p malloc = some ({ c with
            pszSendBuf := b, iSendPacketLen := c.iSendPacketLen + (iLength + 14), strayed := true },
            [.eventAdd eventWritable .processSendCallback])
          ∧ b.size = c.pszSendBuf.size
          ∧ (b.overrun = false ↔ c.pszSendBuf.overrun = false
            ∧ c.iSendPacketLen + (iLength + 14) ≤ c.pszSendBuf.size) := by
  by_cases hnone : c.pszSendBuf.IsNull c.iSendPacketLen ∨ malloc.pstPacketPackSend = false
  · refine Or.inl ⟨hnone, ?_⟩
    have hcreate : createPackFromBuffer malloc.pstPacketPackSend c.pszSendBuf c.iSendPacketLen
        iLength = none := by
      unfold createPackFromBuffer
      rcases hnone with hnull | hfalse
      · exact if_pos hnull
      · rw [hfalse]
        exact ite_eq_left_iff.mpr fun _ => rfl
    unfold processTestBinProtocol
    dsimp only
    rw [hneed, hresize, Option.map_some, hcreate]
  · obtain ⟨hnull, hpack⟩ := not_or.mp hnone
    obtain ⟨q, q', b, hcreate, hadd, hsend, hsize, hinside⟩ :=
      testReply_spec (c := c) hpos hnull hlen hmax
    refine Or.inr ⟨hnone, b, ?_, hsize, hinside⟩
    rw [← hsend]
    unfold processTestBinProtocol
    dsimp only
    rw [hneed, hresize, Option.map_some, Bool.eq_true_of_not_eq_false hpack, hcreate]
    dsimp only
    rw [hadd]

/-- **The handler of test requests** keeps the sending side in order exactly if
the reply fits. -/
theorem processTestBinProtocol_spec (hok : conn.SendFirst) (hmalloc : malloc.Succeeds)
    (hsize : getDataSize p = conn.iPacketLen - 14) (hmin : packetBodyPos < conn.iPacketLen)
    (hmax : conn.iPacketLen ≤ packetMaxLen) :
    ∃ conn' calls, processTestBinProtocol conn p malloc = some (conn', calls)
      ∧ (conn'.SendOk → conn.TestFits) ∧ (conn.TestFits → conn'.SendFirst) := by
  have h13 : packetBodyPos = 13 := rfl
  have hmaxLen : packetMaxLen = 1024 * 1024 := rfl
  have hneed : int32 (getDataSize p + 128) = conn.iPacketLen + 114 := by
    rw [hsize, int32_eq_self] <;> omega
  obtain ⟨c, hresize, hpos, hnull, hcases⟩ := resizeSendBufferPtr_spec hok
    (show 0 ≤ conn.iPacketLen + 114 by omega) (by omega) hmalloc.pszSendBuf
  obtain ⟨hnone, -⟩ | ⟨-, b, hresult, hsize', hinside⟩ := processTestBinProtocol_of_resize
    (show 7 ≤ conn.iPacketLen + 114 by omega) (by omega) hneed hpos hresize
  · exact hnone.elim (absurd · (not_isNull hnull))
      (fun hfalse => absurd (hmalloc.pstPacketPackSend.symm.trans hfalse) (by decide))
  refine ⟨_, _, hresult, ?_⟩
  rw [show c.iSendPacketLen + (conn.iPacketLen + 114 + 14)
    = c.iSendPacketLen + (conn.iPacketLen + 128) by omega] at hinside ⊢
  unfold ConnFd.TestFits
  rcases hcases with ⟨hfree, rfl⟩ | ⟨hfull, ⟨hdrop, hc, hpacket⟩ | ⟨hgrow, hshort⟩⟩
  · -- the reply goes behind what is queued
    obtain ⟨hfits, hfirst⟩ := hok.queue (by omega) hsize' hinside rfl
    exact ⟨fun h => Or.inl (hfits h), fun h => hfirst (by omega)⟩
  · -- it goes behind what is not sent
    obtain ⟨hfits, hfirst⟩ := hc.queue (by omega) hsize' hinside rfl
    have htotal : c.iSendTotalLen = conn.iSendTotalLen := hc.total.trans hok.total.symm
    exact ⟨fun h => Or.inr ⟨hfull, by have := hfits h; omega⟩, fun h => hfirst (by omega)⟩
  · -- it goes nowhere
    refine ⟨fun h => absurd h.total_le (not_le.mpr ?_), fun h => ?_⟩
    · show b.size < c.iSendTotalLen
      rwa [hsize']
    · omega

/-- **The handler of echo requests** keeps the sending side in order exactly if
the reply fits. -/
theorem sendBackEcho_spec (hok : conn.SendFirst) (hmin : 0 ≤ conn.iPacketLen)
    (hmax : conn.iPacketLen ≤ packetMaxLen) (hrecv : conn.iPacketLen ≤ conn.pszRecvBuf.size) :
    ((sendBackEcho conn).1.SendOk → conn.EchoFits)
      ∧ (conn.EchoFits → (sendBackEcho conn).1.SendFirst) := by
  have hmaxLen : packetMaxLen = 1024 * 1024 := rfl
  have hinside : (conn.pszSendBuf.move 0 conn.pszRecvBuf 0 (sizeT conn.iPacketLen)).overrun
      = false ↔ conn.iPacketLen ≤ conn.pszSendBuf.size := by
    rw [sizeT_eq_self hmin (by omega), overrun_move]
    refine ⟨fun h => ?_, fun h => ⟨hok.inside, ⟨le_rfl, hmin, ?_⟩, ⟨le_rfl, hmin, ?_⟩⟩⟩
    · have := h.2.1.2.2
      omega
    · rwa [zero_add]
    · rwa [zero_add]
  refine ⟨fun h => ⟨h.packet_le, h.cur_le⟩, fun h => ⟨⟨hok.cur_nonneg, h.2, h.1, ?_, ?_⟩, ?_, ?_⟩⟩
  · show conn.iSendTotalLen ≤ (Block.move _ _ _ _ _).size
    rw [size_move]
    exact hok.total_le
  · exact hinside.mpr (le_trans h.1 hok.total_le)
  · exact hok.total
  · exact size_move.trans hok.size

/-- The pack `String2PacketPack` makes over a buffer. -/
theorem string2PacketPack_eq_some {iLen : ℤ} {ok : Bool}
    (h : string2PacketPack ok b 0 iLen = some p) :
    p.iTailer = iLen - 1 ∧ p.iPos = packetBodyPos ∧ p.block = b ∧ p.pBuffer = 0 := by
  unfold string2PacketPack at h
  split at h
  · exact absurd h (by simp)
  · split at h
    · dsimp only at h
      split at h
      · exact absurd h (by simp)
      · obtain rfl := Option.some.inj h
        exact ⟨rfl, rfl, rfl, rfl⟩
    · exact absurd h (by simp)

/-- **A packet handed over keeps the sending side in order exactly if the reply
to it fits.** -/
theorem processEntirePacket_sendOk (hok : conn.SendFirst) (hmalloc : malloc.Succeeds)
    (hcur : conn.iRecvCurLen = conn.iPacketLen) (hmin : packetBodyPos < conn.iPacketLen)
    (hmax : conn.iPacketLen ≤ packetMaxLen) (hrecv : conn.iPacketLen ≤ conn.pszRecvBuf.size) :
    ∃ conn' calls, processEntirePacket conn malloc = some (conn', calls)
      ∧ (conn'.SendOk → conn.ReplyFits) ∧ (conn.ReplyFits → conn'.SendFirst) := by
  have h13 : packetBodyPos = 13 := rfl
  unfold processEntirePacket ConnFd.ReplyFits
  rw [hmalloc.pstPacketPackRecv]
  cases hpack : string2PacketPack true conn.pszRecvBuf 0 conn.iRecvCurLen with
  | none => exact ⟨conn, [], rfl, fun _ _ h => absurd h (by simp), fun _ => hok⟩
  | some p =>
    obtain ⟨htail, hpos, -⟩ := string2PacketPack_eq_some hpack
    have hsize : getDataSize p = conn.iPacketLen - 14 := by
      unfold getDataSize
      omega
    simp only [Option.mem_some_iff, forall_eq']
    by_cases htest : getPacketCmd p = cmdTestValue
    · rw [if_pos htest]
      obtain ⟨conn', calls, hrun, hfits, hfirst⟩ :=
        processTestBinProtocol_spec hok hmalloc hsize hmin hmax
      refine ⟨conn', calls, hrun, fun h => ⟨fun _ => hfits h, fun hecho => ?_⟩,
        fun h => hfirst (h.1 htest)⟩
      exact absurd (htest.symm.trans hecho) (by decide)
    · rw [if_neg htest]
      by_cases hecho : getPacketCmd p = cmdTestEcho
      · rw [if_pos hecho]
        obtain ⟨hfits, hfirst⟩ := sendBackEcho_spec hok (by omega) hmax hrecv
        exact ⟨_, _, rfl, fun h => ⟨fun h' => absurd h' htest, fun _ => hfits h⟩,
          fun h => hfirst (h.2 hecho)⟩
      · rw [if_neg hecho]
        exact ⟨conn, [], rfl, fun _ => ⟨fun h => absurd h htest, fun h => absurd h hecho⟩,
          fun _ => hok⟩
