import TcpFrame.BinProtoSpec
import TcpFrame.ConnSendBuffer

/-!
# The reply to a test request

`ProcessTestBinProtocol` builds its reply in the send buffer and queues it. Where
nothing is queued before, what is queued afterwards is one packet, as long as
it says and with the sequence number of the request (`testReply_framed`).

It is the answer to the request only by chance (`processTestBinProtocol_answers_iff`).
`SetPacketCmd` does not write into the buffer, so that the command is what the
buffer held before; `AddAllData2Packet` writes two literals and what follows
them in memory, whatever the request holds; and the packet is longer than what
was reserved for it.
-/

open Block

variable {conn c : ConnFd} {b buf recv : Block} {p p' : PacketPack} {iLength : ℤ} {cmd seq : BitVec 32}
  {rodata : ℕ → UInt8} {body : List UInt8} {malloc : Malloc} {m : ℕ}

/-- What `AddAllData2Packet` fills the body with, up to the last byte. -/
def testFiller (rodata : ℕ → UInt8) (n : ℕ) : List UInt8 :=
  [102, 102, 108, 108, 111, 115] ++ (List.range n).map (fillByte rodata)

/-- **The bytes of the reply**, in a buffer that it fits: one packet of
`iLength + 14` bytes at the start of the buffer, with the given sequence number,
the command the buffer held before, and the filler in the body. -/
structure TestReply (buf : Block) (iLength : ℤ) (seq : BitVec 32) (rodata : ℕ → UInt8)
    (b : Block) : Prop where
  soh : b.byte packetSohPos = protoSoh
  len : b.word packetLenPos = BitVec.ofInt 32 (iLength + 14)
  cmd : b.word packetCmdPos = buf.word packetCmdPos
  seq : b.word packetSeqPos = seq
  data : b.slice packetBodyPos (6 + (iLength - 7).toNat) = testFiller rodata (iLength - 7).toNat
  eot : b.byte (iLength + 13) = protoEot

/-- **The body that `AddAllData2Packet` writes** behind the head. -/
theorem addAllData2Packet_filler {B : Block} (hlen : 7 ≤ iLength) (hroom : iLength + 14 ≤ B.size) :
    ((B.store 13 [102, 102, 108, 108, 111, 115, 98]).store 19
      ((List.range (iLength - 7).toNat).map (fillByte rodata))).slice 13 (6 + (iLength - 7).toNat)
      = testFiller rodata (iLength - 7).toNat := by
  set head : List UInt8 := [102, 102, 108, 108, 111, 115, 98] with hhead
  set fill := (List.range (iLength - 7).toNat).map (fillByte rodata) with hfill
  have hfillLen : fill.length = (iLength - 7).toNat := by
    rw [hfill, List.length_map, List.length_range]
  have hheadLen : head.length = 7 := rfl
  -- the second literal begins on the last byte of the first one
  have hfirst : ((B.store 13 head).store 19 fill).slice 13 6 = [102, 102, 108, 108, 111, 115] := by
    rw [slice_store_of_disjoint (Or.inl (by decide)), ← take_slice (show 6 ≤ 7 by decide)]
    have hself : (B.store 13 head).slice 13 head.length = head :=
      slice_store_self ⟨by decide, by omega, by omega⟩
    rw [hheadLen] at hself
    rw [hself]
    rfl
  have hsecond : ((B.store 13 head).store 19 fill).slice 19 (iLength - 7).toNat = fill := by
    have hself : ((B.store 13 head).store 19 fill).slice 19 fill.length = fill :=
      slice_store_self ⟨by decide, by omega, by rw [size_store]; omega⟩
    rwa [hfillLen] at hself
  rw [slice_add, hfirst]
  show _ ++ ((B.store 13 head).store 19 fill).slice 19 _ = _
  rw [hsecond]
  rfl

/-- **The head of the reply**, before the body: `SetPacketSeq` has written the
sequence number, and nothing the command. -/
theorem setPacketSeq_head (hroom : 14 ≤ buf.size)
    (hcreate : createPackFromBuffer true buf 0 iLength = some p) :
    (setPacketSeq (setPacketCmd p cmd) seq).pBuffer = 0
      ∧ (setPacketSeq (setPacketCmd p cmd) seq).iTailer = 13
      ∧ (setPacketSeq (setPacketCmd p cmd) seq).block.size = buf.size
      ∧ (setPacketSeq (setPacketCmd p cmd) seq).block.word 5 = buf.word 5
      ∧ (setPacketSeq (setPacketCmd p cmd) seq).block.word 9 = seq := by
  obtain ⟨-, hcreate⟩ := Option.ite_none_left_eq_some.mp hcreate
  obtain rfl := Option.some.inj ((if_pos rfl).symm.trans hcreate)
  show (0 : ℤ) = 0 ∧ (13 : ℤ) = 13
    ∧ ((((buf.store 0 [protoSoh]).store 13 [protoEot]).store 1 (wordBytes _)).store 9
      (wordBytes seq)).size = _
    ∧ ((((buf.store 0 [protoSoh]).store 13 [protoEot]).store 1 (wordBytes _)).store 9
      (wordBytes seq)).word 5 = _
    ∧ ((((buf.store 0 [protoSoh]).store 13 [protoEot]).store 1 (wordBytes _)).store 9
      (wordBytes seq)).word 9 = _
  refine ⟨rfl, rfl, by rw [size_store, size_store, size_store, size_store], ?_, word_store_self ?_⟩
  · rw [word_store_of_disjoint (Or.inl (by decide)),
      word_store_of_disjoint (Or.inr (by rw [length_wordBytes]; decide)),
      word_store_of_disjoint (Or.inl (by decide)),
      word_store_of_disjoint (Or.inr (by rw [List.length_singleton]; decide))]
  · refine ⟨by decide, by decide, ?_⟩
    rw [size_store, size_store, size_store]
    omega

/-- `AddAllData2Packet` on a packet without a body at the start of its block. -/
theorem addAllData2Packet_eq (hp : p.pBuffer = 0) (htail : p.iTailer = 13) (hlen : 7 ≤ iLength) :
    addAllData2Packet p iLength rodata = (Ret.succ, { p with
      block := ((p.block.store 13 [102, 102, 108, 108, 111, 115, 98]).store 19
        ((List.range (iLength - 7).toNat).map (fillByte rodata))).store (iLength + 13) [protoEot]
      iTailer := iLength + 13
      overrun := p.overrun || decide (22 < iLength - 7) }) := by
  unfold addAllData2Packet
  rw [if_neg (by omega)]
  dsimp only
  rw [if_neg (by omega), hp, htail, zero_add, zero_add, zero_add, add_comm 13 iLength]
  rfl

/-- `PacketPack2String` on a packet at the start of its block. -/
theorem packetPack2String_block (hp : p.pBuffer = 0) :
    (packetPack2String p).block = ((p.block.store 0 [protoSoh]).store p.iTailer [protoEot]).store 1
      (wordBytes (BitVec.ofInt 32 (p.iTailer + 1))) := by
  unfold packetPack2String
  dsimp only
  rw [hp, zero_add, zero_add, zero_add]
  rfl

/-- **The reply, as `PacketPack2String` completes it.** -/
theorem testReply_framed (hlen : 7 ≤ iLength) (hroom : iLength + 14 ≤ buf.size)
    (hcreate : createPackFromBuffer true buf 0 iLength = some p)
    (hadd : addAllData2Packet (setPacketSeq (setPacketCmd p cmd) seq) iLength rodata
      = (Ret.succ, p')) :
    TestReply buf iLength seq rodata (packetPack2String p').block := by
  obtain ⟨hp, htail, hsize, hcmd, hseq⟩ :=
    setPacketSeq_head (by omega) hcreate
  rw [addAllData2Packet_eq hp htail hlen] at hadd
  set B := (setPacketSeq (setPacketCmd p cmd) seq).block with hB
  set fill := (List.range (iLength - 7).toNat).map (fillByte rodata) with hfill
  have hfillLen : (fill.length : ℤ) = iLength - 7 := by
    rw [hfill, List.length_map, List.length_range]
    omega
  set q := (B.store 13 [102, 102, 108, 108, 111, 115, 98]).store 19 fill with hq
  have hp' := (Prod.mk.inj hadd).2
  have hpBuffer : p'.pBuffer = 0 := by
    rw [← hp']
    exact hp
  have hiTailer : p'.iTailer = iLength + 13 := by rw [← hp']
  have hblock : p'.block = q.store (iLength + 13) [protoEot] := by rw [← hp']
  rw [packetPack2String_block hpBuffer, hiTailer, hblock]
  have hqsize : q.size = buf.size := by rw [hq, size_store, size_store, hsize]
  have hone : ∀ x : UInt8, (([x] : List UInt8).length : ℤ) = 1 := fun _ => rfl
  have hfour : ∀ v : BitVec 32, ((wordBytes v).length : ℤ) = 4 := fun _ => rfl
  have hseven : (([102, 102, 108, 108, 111, 115, 98] : List UInt8).length : ℤ) = 7 := rfl
  -- the fields between the length and the body are those of `B`
  have hword : ∀ off : ℤ, 5 ≤ off → off + 4 ≤ 13 → ((((q.store (iLength + 13) [protoEot]).store 0
      [protoSoh]).store (iLength + 13) [protoEot]).store 1
        (wordBytes (BitVec.ofInt 32 (iLength + 13 + 1)))).word off = B.word off := by
    intro off hlo hhi
    rw [word_store_of_disjoint (Or.inr (by rw [hfour]; omega)),
      word_store_of_disjoint (Or.inl (by omega)),
      word_store_of_disjoint (Or.inr (by rw [hone]; omega)),
      word_store_of_disjoint (Or.inl (by omega)), hq,
      word_store_of_disjoint (Or.inl (by omega)), word_store_of_disjoint (Or.inl hhi)]
  refine ⟨?_, ?_, ?_, ?_, ?_, ?_⟩
  · show Block.byte _ 0 = protoSoh
    rw [byte_store_of_lt (by decide), byte_store_of_lt (by omega)]
    exact byte_store_self ⟨le_rfl, by decide, by rw [size_store, hqsize]; omega⟩
  · rw [show iLength + 14 = iLength + 13 + 1 by omega]
    refine word_store_self ⟨by decide, by decide, ?_⟩
    rw [size_store, size_store, size_store, hqsize]
    show (1 : ℤ) + 4 ≤ buf.size
    omega
  · exact (hword 5 (by decide) (by decide)).trans hcmd
  · exact (hword 9 (by decide) (by decide)).trans hseq
  · show Block.slice _ 13 _ = _
    rw [slice_store_of_disjoint (Or.inr (by rw [hfour]; omega)),
      slice_store_of_disjoint (Or.inl (by omega)),
      slice_store_of_disjoint (Or.inr (by rw [hone]; omega)),
      slice_store_of_disjoint (Or.inl (by omega)), hq, hfill]
    exact addAllData2Packet_filler hlen (by rw [hsize]; exact hroom)
  · rw [byte_store_of_ge (by rw [hfour]; omega), add_comm iLength 13]
    refine byte_store_self ⟨by omega, by decide, ?_⟩
    rw [size_store, size_store, hqsize]
    omega

/-- **The reply begins with what the filler begins with.** -/
theorem TestReply.prefix_iff {k : ℕ} (h : TestReply buf iLength seq rodata b)
    (hbody : body.length ≤ 6 + (iLength - 7).toNat) (hk : 6 + (iLength - 7).toNat ≤ k) :
    body <+: b.slice packetBodyPos k ↔ body <+: testFiller rodata (iLength - 7).toNat := by
  rw [← h.data, List.prefix_iff_eq_take, List.prefix_iff_eq_take, take_slice (hbody.trans hk),
    take_slice hbody]

/-- The reply is a packet. -/
theorem TestReply.framed (h : TestReply buf iLength seq rodata b) (hlen : 0 ≤ iLength) :
    PacketPack.Framed b 0 seq (b.slice packetBodyPos iLength.toNat) where
  soh := h.soh
  len := by
    rw [length_slice, Int.toNat_of_nonneg hlen, show packetBodyPos + iLength + 1 = iLength + 14 from
      by rw [show packetBodyPos = 13 from rfl]; omega]
    exact h.len
  seq := h.seq
  data := by
    rw [length_slice]
    rfl
  eot := by
    rw [length_slice, Int.toNat_of_nonneg hlen, show 0 + packetBodyPos + iLength = iLength + 13 from
      by rw [show packetBodyPos = 13 from rfl]; omega]
    exact h.eot

/-! ## Answering a request -/

/-- **What is queued on a connection answers a request**: it is one packet that is
as long as it says, with the command and the sequence number of the request,
and its body begins with that of the request. -/
structure ConnFd.Answers (c : ConnFd) (cmd seq : BitVec 32) (body : List UInt8) : Prop where
  cur : c.iSendCurLen = 0
  inside : c.pszSendBuf.overrun = false
  frame : ∃ (q : PacketPack) (reply : List UInt8),
    string2PacketPack true c.pszSendBuf 0 c.iSendPacketLen = some q
      ∧ (q.block.word (q.pBuffer + packetLenPos)).toInt = c.iSendPacketLen
      ∧ c.iSendPacketLen = 14 + reply.length
      ∧ getPacketCmd q = cmd ∧ getPacketSeq q = seq
      ∧ q.block.slice (getDataPos q) reply.length = reply ∧ body <+: reply

/-- **The reply is an answer by chance**: there is memory for the pack, the buffer
has room for all of the reply, it holds the command already where the command
goes, and the body of the request is what the reply is filled with anyway. -/
def ConnFd.AnswersByChance (conn : ConnFd) (malloc : Malloc) (body : List UInt8) : Prop :=
  malloc.pstPacketPackSend = true
    ∧ (body.length : ℤ) + 142 ≤ conn.iSendTotalLen
    ∧ conn.pszSendBuf.word packetCmdPos = cmdTestValue
    ∧ body <+: testFiller malloc.rodata (body.length + 121)

/-- **A reply in the buffer** is an answer exactly if the buffer held the command
and the filler begins with the body. -/
theorem TestReply.answers_iff (h : TestReply buf (body.length + 128) seq rodata b)
    (hc : c.pszSendBuf = b) (hcur : c.iSendCurLen = 0) (hinside : b.overrun = false)
    (hpacket : c.iSendPacketLen = body.length + 142) (hmax : 14 + (body.length : ℤ) ≤ packetMaxLen) :
    c.Answers cmd seq body
      ↔ buf.word packetCmdPos = cmd ∧ body <+: testFiller rodata (body.length + 121) := by
  have hmax' : packetMaxLen = 1024 * 1024 := rfl
  have hk : ((body.length : ℤ) + 128 - 7).toNat = body.length + 121 := by omega
  have hprefix : body <+: b.slice packetBodyPos (body.length + 128)
      ↔ body <+: testFiller rodata ((body.length : ℤ) + 128 - 7).toNat :=
    h.prefix_iff (by omega) (by omega)
  rw [hk] at hprefix
  have hword : (b.word packetLenPos).toInt = body.length + 142 := by
    rw [h.len, BitVec.toInt_ofInt, Int.bmod_eq_of_le (by omega) (by omega)]
    omega
  constructor
  · rintro ⟨-, -, q, reply, hq, -, hlen, hcmd, -, hdata, hbody⟩
    obtain ⟨-, -, hblock, hbuffer⟩ := string2PacketPack_eq_some hq
    rw [hc] at hblock
    have hreply : reply.length = body.length + 128 := by omega
    unfold getPacketCmd at hcmd
    unfold getDataPos at hdata
    rw [hblock, hbuffer, zero_add] at hcmd hdata
    rw [hreply] at hdata
    rw [← hdata] at hbody
    exact ⟨h.cmd.symm.trans hcmd, hprefix.mp hbody⟩
  · rintro ⟨hcmd, hbody⟩
    obtain ⟨q, hq, -, hdata, hseq⟩ := (h.framed (by omega)).string2PacketPack_eq
    obtain ⟨-, -, hblock, hbuffer⟩ := string2PacketPack_eq_some hq
    rw [length_slice, show ((body.length : ℤ) + 128).toNat = body.length + 128 by omega] at hq hdata
    have hover : c.pszSendBuf.overrun = false := by
      rw [hc]
      exact hinside
    refine ⟨hcur, hover, q, b.slice packetBodyPos (body.length + 128), ?_, ?_, ?_, ?_, hseq, ?_,
      hprefix.mpr hbody⟩
    · rw [hc, hpacket, show (body.length : ℤ) + 142 = 14 + ((body.length + 128 : ℕ) : ℤ) by omega]
      exact hq
    · rw [hblock, hbuffer, zero_add, hword, hpacket]
    · rw [hpacket, length_slice]
      omega
    · unfold getPacketCmd
      rw [hblock, hbuffer, zero_add, h.cmd, hcmd]
    · rw [length_slice, hdata]

/-- **What `ProcessTestBinProtocol` queues** at the start of the buffer: a packet of
`m + 142` bytes for a request of `m` bytes, inside the block if there is room for
that many. -/
theorem processTestBinProtocol_queues (hsize : getDataSize p = m)
    (hmax : 14 + (m : ℤ) ≤ packetMaxLen) (hpack : malloc.pstPacketPackSend = true)
    (hr : resizeSendBufferPtr conn (m + 128) malloc.pszSendBuf = some (0, c))
    (hpacket : c.iSendPacketLen = 0) (hnull : ¬ c.pszSendBuf.IsNull 0)
    (hlt : c.pszSendBuf.size < 2 ^ 31) :
    ∃ b, processTestBinProtocol conn p malloc = some ({ c with
          pszSendBuf := b, iSendPacketLen := m + 142, strayed := true },
        [.eventAdd eventWritable .processSendCallback])
      ∧ (b.overrun = false ↔ c.pszSendBuf.overrun = false ∧ (m : ℤ) + 142 ≤ c.pszSendBuf.size)
      ∧ ((m : ℤ) + 142 ≤ c.pszSendBuf.size →
        TestReply c.pszSendBuf (m + 128) (getPacketSeq p) malloc.rodata b) := by
  have hmax' : packetMaxLen = 1024 * 1024 := rfl
  have hneed : int32 (getDataSize p + 128) = m + 128 := by
    rw [hsize, int32_eq_self (by omega) (by omega)]
  obtain ⟨q, q', b, hcreate, hadd, hsend, -, hinside⟩ := testReply_spec (c := c)
    hpacket.ge (by rwa [hpacket]) (show 7 ≤ (m : ℤ) + 128 by omega) (by omega)
  rw [hpacket] at hcreate
  have hresult : processTestBinProtocol conn p malloc
      = some (sendPacket2Client { c with strayed := c.strayed || q'.overrun } q') := by
    unfold processTestBinProtocol
    dsimp only
    rw [hneed, hr, hpack, Option.map_some, hcreate]
    dsimp only
    rw [hadd]
  have hlen : c.iSendPacketLen + ((m : ℤ) + 128 + 14) = m + 142 := by omega
  rw [hlen] at hsend hinside
  refine ⟨b, hresult.trans (congrArg some hsend), hinside, fun hroom => ?_⟩
  have hframed := testReply_framed (by omega) (by omega) hcreate hadd
  -- a packet at the start of the buffer is copied to where it is
  set c' : ConnFd := { c with strayed := c.strayed || q'.overrun } with hc'
  have hbuilt : q'.BuiltAt c'.pszSendBuf c'.iSendPacketLen := by
    show q'.BuiltAt c.pszSendBuf c.iSendPacketLen
    rw [hpacket]
    exact testReply_builtAt hcreate hadd
  have htail : q'.iTailer = m + 128 + 13 := by
    obtain ⟨hp, ht, -⟩ := setPacketSeq_head (by omega) hcreate
    rw [addAllData2Packet_eq hp ht (by omega)] at hadd
    rw [← (Prod.mk.inj hadd).2]
  rw [sendPacket2Client_eq hbuilt hpacket.ge
      (by show c.iSendPacketLen + (q'.iTailer + 1) ≤ c.pszSendBuf.size; omega) hlt,
    show c'.iSendPacketLen = 0 from hpacket, write_slice_self] at hsend
  have hb : (packetPack2String q').block = b := congrArg (fun r => r.1.pszSendBuf) hsend
  rwa [hb] at hframed

/-- **The reply to a test request answers it by chance only.** On a connection with
nothing queued, and for any request that `String2PacketPack` accepts, what
`ProcessTestBinProtocol` queues is the answer exactly under the conditions of
`ConnFd.AnswersByChance`. -/
theorem processTestBinProtocol_answers_iff {ok : Bool} (h : conn.SendExact)
    (hinside : conn.pszSendBuf.overrun = false) (hcur : conn.iSendCurLen = 0)
    (hpacket : conn.iSendPacketLen = 0) (hframe : PacketPack.Framed recv 0 seq body)
    (hcmd : recv.word packetCmdPos = cmdTestValue)
    (hmax : 14 + (body.length : ℤ) ≤ packetMaxLen)
    (hp : string2PacketPack ok recv 0 (14 + body.length) = some p) (malloc : Malloc) :
    (∃ c calls, processTestBinProtocol conn p malloc = some (c, calls)
        ∧ c.Answers (getPacketCmd p) (getPacketSeq p) body)
      ↔ conn.AnswersByChance malloc body := by
  have hmax' : packetMaxLen = 1024 * 1024 := rfl
  have htotal := h.total_lt
  obtain ⟨hiTailer, hiPos, hblock, hbuffer⟩ := string2PacketPack_eq_some hp
  have hpcmd : getPacketCmd p = cmdTestValue := by
    unfold getPacketCmd
    rw [hblock, hbuffer, zero_add, hcmd]
  have hpseq : getPacketSeq p = seq := by
    unfold getPacketSeq
    rw [hblock, hbuffer]
    exact hframe.seq
  have hsize : getDataSize p = body.length := by
    unfold getDataSize
    rw [hiTailer, hiPos, show packetBodyPos = 13 from rfl]
    omega
  have hneed : int32 (getDataSize p + 128) = body.length + 128 := by
    rw [hsize, int32_eq_self (by omega) (by omega)]
  constructor
  · rintro ⟨c, calls, hrun, hans⟩
    obtain ⟨⟨ptr, c₁⟩, hr, hc⟩ := Option.map_eq_some_iff.mp hrun
    rw [hneed] at hr
    obtain ⟨rfl, hzero, hcases⟩ := h.resize_empty hcur hpacket hr
    dsimp only at hc
    -- without a pack nothing is queued
    have hcreates : createPackFromBuffer malloc.pstPacketPackSend c₁.pszSendBuf 0
        (int32 (getDataSize p + 128)) ≠ none := by
      intro hnone
      rw [hnone] at hc
      obtain rfl : c₁ = c := congrArg Prod.fst hc
      obtain ⟨q, reply, -, -, hlen, -⟩ := hans.frame
      omega
    have hnull : ¬ c₁.pszSendBuf.IsNull 0 := fun hnull => hcreates (if_pos hnull)
    have hpack : malloc.pstPacketPackSend = true := by
      by_contra hpack
      exact hcreates ((if_neg hnull).trans (if_neg hpack))
    have hlt : c₁.pszSendBuf.size < 2 ^ 31 := by
      rcases hcases with ⟨rfl, -⟩ | ⟨-, hfour⟩
      · rw [h.size]
        exact htotal
      · omega
    obtain ⟨b, hrun', hinside', hreply⟩ :=
      processTestBinProtocol_queues hsize hmax hpack hr hzero hnull hlt
    obtain ⟨rfl, -⟩ := Prod.mk.inj (Option.some.inj (hrun.symm.trans hrun'))
    have hroom := (hinside'.mp hans.inside).2
    rcases hcases with ⟨rfl, -⟩ | ⟨-, hfour⟩
    · obtain ⟨hword, hbody⟩ := ((hreply hroom).answers_iff (c := { c₁ with
        pszSendBuf := b, iSendPacketLen := (body.length : ℤ) + 142, strayed := true }) rfl hcur
          hans.inside rfl hmax).mp hans
      rw [hpcmd] at hword
      exact ⟨hpack, h.size ▸ hroom, hword, hbody⟩
    · omega
  · rintro ⟨hpack, hroom, hword, hbody⟩
    have hr : resizeSendBufferPtr conn (body.length + 128) malloc.pszSendBuf = some (0, conn) := by
      rcases h.resize_cases (body.length + 128) malloc.pszSendBuf with ⟨-, hr⟩ | ⟨hfull, -⟩ | ⟨hfull, -⟩
      · rwa [hpacket] at hr
      · omega
      · omega
    obtain ⟨b, hrun, hinside', hreply⟩ :=
      processTestBinProtocol_queues hsize hmax hpack hr hpacket (not_isNull (by rw [h.size]; omega))
        (by rw [h.size]; exact htotal)
    rw [h.size] at hinside' hreply
    exact ⟨_, _, hrun, ((hreply hroom).answers_iff (c := { conn with
      pszSendBuf := b, iSendPacketLen := (body.length : ℤ) + 142, strayed := true }) rfl hcur
        (hinside'.mpr ⟨hinside, hroom⟩) rfl hmax).mpr ⟨hword.trans hpcmd.symm, hbody⟩⟩

/-- A block that holds a test request with the sequence number `7` and a body of
two bytes. -/
def testRequest (x y : UInt8) : Block :=
  ⟨16, fun i => [0x28, 0, 0, 0, 16, 0, 0, 0x29, 0, 0, 0, 0, 7, x, y, 0x29].getD i.toNat 0, false⟩

theorem testRequest_framed (x y : UInt8) : PacketPack.Framed (testRequest x y) 0 7 [x, y] where
  soh := rfl
  len := by
    show bytesWord 0 0 0 16 = BitVec.ofInt 32 (13 + ((2 : ℕ) : ℤ) + 1)
    decide +kernel
  seq := by
    show bytesWord 0 0 0 7 = 7
    decide +kernel
  data := rfl
  eot := rfl

/-- What `String2PacketPack` makes of it. -/
def testRequestPack (x y : UInt8) : PacketPack :=
  { block := testRequest x y, pBuffer := 0, iPos := 13, iTailer := 15, iHeader := 0, iTotal := 16,
    overrun := false }

/-- A request with the body `ff`, where the send buffer holds the command. -/
theorem processTestBinProtocol_answers_sample :
    ∃ c calls, processTestBinProtocol
        (.create 5 1 (fun _ => 0) (fun i => if i = 7 then 0x29 else 0) 0) (testRequestPack 102 102)
        zeroMalloc = some (c, calls)
      ∧ c.Answers (getPacketCmd (testRequestPack 102 102))
        (getPacketSeq (testRequestPack 102 102)) [102, 102] :=
  (processTestBinProtocol_answers_iff (by decide) rfl rfl rfl (testRequest_framed 102 102)
    (by decide +kernel) (by decide)
    (show string2PacketPack true (testRequest 102 102) 0 16 = some (testRequestPack 102 102)
      from rfl)
    zeroMalloc).mpr ⟨rfl, by decide, by decide +kernel, by decide +kernel⟩

/-- **The reply to a request with the body `hi`** has the command `0`. -/
theorem processTestBinProtocol_not_answers :
    freshConn.SendExact ∧ PacketPack.Framed (testRequest 104 105) 0 7 [104, 105]
      ∧ (testRequest 104 105).word packetCmdPos = cmdTestValue
      ∧ string2PacketPack true (testRequest 104 105) 0 16 = some (testRequestPack 104 105)
      ∧ ¬ ∃ c calls, processTestBinProtocol freshConn (testRequestPack 104 105) zeroMalloc
          = some (c, calls)
        ∧ c.Answers (getPacketCmd (testRequestPack 104 105))
          (getPacketSeq (testRequestPack 104 105)) [104, 105] := by
  refine ⟨by decide, testRequest_framed 104 105, by decide +kernel, rfl, ?_⟩
  rintro ⟨c, calls, hrun, hans⟩
  obtain ⟨q, reply, hq, -, -, hcmd, -⟩ := hans.frame
  obtain ⟨-, -, hblock, hbuffer⟩ := string2PacketPack_eq_some hq
  have hword : (processTestBinProtocol freshConn (testRequestPack 104 105) zeroMalloc).map
      (fun r => r.1.pszSendBuf.word (0 + packetCmdPos)) = some 0 := by
    decide +kernel
  rw [hrun, Option.map_some] at hword
  have hzero : c.pszSendBuf.word (0 + packetCmdPos) = 0 := Option.some.inj hword
  unfold getPacketCmd at hcmd
  rw [hblock, hbuffer, hzero] at hcmd
  exact absurd hcmd (by decide +kernel)
