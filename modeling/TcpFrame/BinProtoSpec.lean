import TcpFrame.BinProto

/-!
# Encoding and decoding packets

A packet under construction is described by the body it holds so far
(`PacketPack.Holding`): `createPackFromBuffer` begins with the empty body,
`setDataBody` appends one chunk (`setDataBody_holding`), and `packetPack2String`
completes the packet (`packetPack2String_framed`). What is completed is a frame
that the header test lets through and that `string2PacketPack` takes apart
again (`packet_roundtrip`).
-/

open Block

variable {buf b : Block} {p : PacketPack} {base n : ℤ} {body chunk : List UInt8}
  {seq : BitVec 32}

namespace PacketPack

/-- **A packet under construction** at offset `base` of the block `buf`, with
the body `body` and the sequence number `seq`: nothing outside the first `14`
bytes and the body is changed. -/
structure Holding (buf : Block) (base n : ℤ) (seq : BitVec 32) (body : List UInt8)
    (p : PacketPack) : Prop where
  pBuffer : p.pBuffer = base
  iPos : p.iPos = packetBodyPos
  iTotal : p.iTotal = n
  iTailer : p.iTailer = packetBodyPos + body.length
  fits : packetBodyPos + body.length + 1 ≤ n
  size : p.block.size = buf.size
  overrun : p.block.overrun = buf.overrun
  seq : getPacketSeq p = seq
  data : p.block.slice (getDataPos p) body.length = body
  outside : ∀ i, i < base ∨ base + packetBodyPos + body.length + 1 ≤ i →
    p.block.byte i = buf.byte i

/-- **A completed packet** of `n` bytes at offset `base`, with its length
field, its two delimiters, the sequence number `seq` and the body `body`. -/
structure Framed (b : Block) (base : ℤ) (seq : BitVec 32) (body : List UInt8) : Prop where
  soh : b.byte (base + packetSohPos) = protoSoh
  len : b.word (base + packetLenPos) = BitVec.ofInt 32 (packetBodyPos + body.length + 1)
  seq : b.word (base + packetSeqPos) = seq
  data : b.slice (base + packetBodyPos) body.length = body
  eot : b.byte (base + packetBodyPos + body.length) = protoEot

end PacketPack

/-- **Beginning a packet**: the pack `__CreatePackFromBuffer` makes of room for
`n ≥ 14` bytes holds the empty body, with the end mark behind it. -/
theorem createPackFromBuffer_begin (hn : 14 ≤ n) (hbuf : buf.Holds base n) :
    ∃ p, createPackFromBuffer true buf base n = some p
      ∧ p.Holding buf base n (getPacketSeq p) []
      ∧ p.block.byte (base + packetBodyPos) = protoEot := by
  obtain ⟨hbase, -, hsize⟩ := hbuf
  refine ⟨_, (if_neg (not_isNull (by omega))).trans (if_pos rfl), ?_⟩
  set b₁ := buf.store (base + packetSohPos) [protoSoh] with hb₁
  set b₂ := b₁.store (base + packetBodyPos) [protoEot] with hb₂
  set b₃ := b₂.store (base + packetLenPos) (wordBytes (BitVec.ofInt 32 packetMinLen)) with hb₃
  -- the three stores are inside, one after the other
  have h₁ : b₁ = buf.write (base + 0) [protoSoh] :=
    store_of_holds ⟨by simp; omega, by simp, by simp; omega⟩
  have h₂ : b₂ = b₁.write (base + 13) [protoEot] :=
    store_of_holds ⟨by simp; omega, by simp, by simp [h₁]; omega⟩
  have h₃ : b₃ = b₂.write (base + 1) (wordBytes (BitVec.ofInt 32 packetMinLen)) :=
    store_of_holds ⟨by simp; omega, by simp, by simp [h₁, h₂]; omega⟩
  refine ⟨⟨rfl, rfl, rfl, rfl, by simp; omega, ?_, ?_, rfl, rfl, ?_⟩, ?_⟩
  · show b₃.size = buf.size
    rw [h₃, h₂, h₁]
    rfl
  · show b₃.overrun = buf.overrun
    rw [h₃, h₂, h₁]
    rfl
  · intro i hi
    show b₃.byte i = buf.byte i
    have hout : i < base ∨ base + 14 ≤ i := by
      simp at hi
      omega
    rw [h₃, h₂, h₁]
    rcases hout with hlt | hge
    · rw [byte_write_of_lt (by omega), byte_write_of_lt (by omega), byte_write_of_lt (by omega)]
    · rw [byte_write_of_ge (by simp; omega), byte_write_of_ge (by simp; omega),
        byte_write_of_ge (by simp; omega)]
  · show b₃.byte (base + 13) = protoEot
    rw [h₃, byte_write_of_ge (by simp; omega), h₂]
    exact byte_write_single

/-- **Setting the sequence number** changes nothing else. -/
theorem PacketPack.Holding.setSeq {seq' : BitVec 32} (hp : p.Holding buf base n seq body)
    (hbuf : buf.Holds base n) : (setPacketSeq p seq').Holding buf base n seq' body := by
  obtain ⟨hbase, -, hsize⟩ := hbuf
  have hb13 : packetBodyPos = 13 := rfl
  have hb9 : packetSeqPos = 9 := rfl
  have hfits := hp.fits
  have hstore : p.block.store (p.pBuffer + packetSeqPos) (wordBytes seq')
      = p.block.write (base + packetSeqPos) (wordBytes seq') := by
    rw [hp.pBuffer]
    exact store_of_holds ⟨by omega, by omega, by rw [length_wordBytes, hp.size]; omega⟩
  unfold setPacketSeq
  rw [hstore]
  refine ⟨hp.pBuffer, hp.iPos, hp.iTotal, hp.iTailer, hp.fits, hp.size, hp.overrun, ?_, ?_,
    fun i hi => ?_⟩
  · show (p.block.write (base + packetSeqPos) (wordBytes seq')).word (p.pBuffer + packetSeqPos)
      = seq'
    rw [hp.pBuffer]
    exact word_write_self seq'
  · have hdata := hp.data
    rw [getDataPos, hp.pBuffer] at hdata
    show (p.block.write (base + packetSeqPos) (wordBytes seq')).slice
      (p.pBuffer + packetBodyPos) body.length = body
    rw [hp.pBuffer, slice_write_of_disjoint (Or.inr (by rw [length_wordBytes]; omega)), hdata]
  · show (p.block.write (base + packetSeqPos) (wordBytes seq')).byte i = buf.byte i
    rw [← hp.outside i hi]
    rcases hi with hlt | hge
    · exact byte_write_of_lt (by omega)
    · exact byte_write_of_ge (by rw [length_wordBytes]; omega)

/-- A packet that has begun, once `SetPacketSeq` has set the sequence number. -/
theorem createPackFromBuffer_holding (hn : 14 ≤ n) (hbuf : buf.Holds base n) :
    ∃ p, createPackFromBuffer true buf base n = some p
      ∧ (setPacketSeq p seq).Holding buf base n seq [] := by
  obtain ⟨p, hcreate, hp, -⟩ := createPackFromBuffer_begin hn hbuf
  exact ⟨p, hcreate, hp.setSeq hbuf⟩

/-- The bytes `memcpy` takes from a chunk are the chunk. -/
theorem map_getD_range (l : List UInt8) :
    (List.range l.length).map (fun k => l.getD k 0) = l := by
  refine List.ext_getElem (by rw [List.length_map, List.length_range]) (fun k hk hk' => ?_)
  rw [List.getElem_map, List.getElem_range]
  exact List.getD_eq_getElem _ _ hk'

/-- **Appending a chunk** to the body. It is accepted wherever it fits, and the
provisional end mark moves behind it. -/
theorem setDataBody_holding (hp : p.Holding buf base n seq body) (hne : chunk ≠ [])
    (hfits : packetBodyPos + (body ++ chunk).length + 1 ≤ n) (hn : n < 2 ^ 31)
    (hbuf : buf.Holds base n) :
    ∃ p', setDataBody p (fun k => chunk.getD k 0) chunk.length = (Ret.succ, p')
      ∧ p'.Holding buf base n seq (body ++ chunk)
      ∧ p'.block.byte (base + p'.iTailer) = protoEot := by
  obtain ⟨hbase, -, hsize⟩ := hbuf
  have hlen : (body ++ chunk).length = body.length + chunk.length := List.length_append
  have hpos : 0 < chunk.length := List.length_pos_iff.mpr hne
  have hb13 : packetBodyPos = 13 := rfl
  rw [hlen, hb13] at hfits
  have htail : int32 (p.iTailer + chunk.length) = p.iTailer + chunk.length := by
    rw [hp.iTailer, hb13]
    exact int32_eq_self (by omega) (by omega)
  have htotal : int32 (p.iTotal - 1) = n - 1 := by
    rw [hp.iTotal]
    exact int32_eq_self (by omega) (by omega)
  have hok : ¬ int32 (p.iTailer + chunk.length) > int32 (p.iTotal - 1) := by
    rw [htail, htotal, hp.iTailer, hb13]
    omega
  have hseq : p.block.word (base + packetSeqPos) = seq := by
    have hseq := hp.seq
    rwa [getPacketSeq, hp.pBuffer] at hseq
  have hdata : p.block.slice (base + packetBodyPos) body.length = body := by
    have hdata := hp.data
    rwa [getDataPos, hp.pBuffer] at hdata
  unfold setDataBody
  rw [if_neg (by omega), if_neg hok, Int.toNat_natCast, map_getD_range, htail, hp.pBuffer,
    hp.iTailer]
  refine ⟨_, rfl, ?_⟩
  set off := base + (packetBodyPos + body.length) with hoff
  set b₁ := p.block.store off chunk with hb₁
  set b₂ := b₁.store (base + (packetBodyPos + body.length + chunk.length)) [protoEot] with hb₂
  have h₁ : b₁ = p.block.write off chunk :=
    store_of_holds ⟨by omega, by omega, by rw [hp.size]; omega⟩
  have h₂ : b₂ = b₁.write (off + chunk.length) [protoEot] := by
    rw [hb₂, show base + (packetBodyPos + body.length + chunk.length) = off + chunk.length by
      omega]
    refine store_of_holds ⟨by omega, by omega, ?_⟩
    rw [h₁, size_write, hp.size, List.length_singleton]
    omega
  refine ⟨⟨rfl, hp.iPos, hp.iTotal, ?_, ?_, ?_, ?_, ?_, ?_, ?_⟩, ?_⟩
  · show packetBodyPos + body.length + chunk.length = _
    rw [hlen]
    omega
  · rw [hlen, hb13]
    exact hfits
  · show b₂.size = buf.size
    rw [h₂, h₁]
    exact hp.size
  · show b₂.overrun = buf.overrun
    rw [h₂, h₁]
    exact hp.overrun
  · show b₂.word (base + packetSeqPos) = seq
    have h9 : packetSeqPos = 9 := rfl
    rw [h₂, h₁, word_write_of_disjoint (Or.inl (by omega)),
      word_write_of_disjoint (Or.inl (by omega))]
    exact hseq
  · show b₂.slice (base + packetBodyPos) (body ++ chunk).length = body ++ chunk
    rw [h₂, h₁, slice_write_of_disjoint (Or.inl (by rw [hlen]; omega)), hlen,
      show off = base + packetBodyPos + body.length by omega, slice_write_append rfl, hdata]
  · intro i hi
    show b₂.byte i = buf.byte i
    rw [hlen, hb13] at hi
    rw [h₂, h₁]
    rcases hi with hlt | hge
    · rw [byte_write_of_lt (by omega), byte_write_of_lt (by omega)]
      exact hp.outside i (Or.inl hlt)
    · rw [byte_write_of_ge (by rw [List.length_singleton]; omega),
        byte_write_of_ge (by omega)]
      exact hp.outside i (Or.inr (by rw [hb13]; omega))
  · show b₂.byte (base + (packetBodyPos + body.length + chunk.length)) = protoEot
    rw [h₂, show base + (packetBodyPos + body.length + chunk.length) = off + chunk.length by
      omega]
    exact byte_write_single

/-- Appending one chunk after the other. -/
theorem foldl_setDataBody_holding {chunks : List (List UInt8)}
    (hp : p.Holding buf base n seq body) (hne : ∀ c ∈ chunks, c ≠ [])
    (hfits : packetBodyPos + (body ++ chunks.flatten).length + 1 ≤ n) (hn : n < 2 ^ 31)
    (hbuf : buf.Holds base n) :
    (chunks.foldl (fun p c => (setDataBody p (fun k => c.getD k 0) c.length).2) p).Holding
      buf base n seq (body ++ chunks.flatten) := by
  induction chunks generalizing p body with
  | nil =>
    rw [List.flatten_nil, List.append_nil]
    exact hp
  | cons c cs ih =>
    rw [List.flatten_cons, ← List.append_assoc] at hfits ⊢
    have hle : packetBodyPos + (body ++ c).length + 1 ≤ n := by
      rw [List.length_append] at hfits
      omega
    obtain ⟨p', hset, hp', -⟩ := setDataBody_holding hp (hne c (List.mem_cons_self ..)) hle hn hbuf
    rw [List.foldl_cons, hset]
    exact ih hp' (fun d hd => hne d (List.mem_cons_of_mem _ hd)) hfits

/-- **Completing a packet**, in place and without a change behind it. -/
theorem packetPack2String_framed (hp : p.Holding buf base n seq body)
    (hbuf : buf.Holds base n) :
    PacketPack.Framed (packetPack2String p).block base seq body
      ∧ (packetPack2String p).block.overrun = buf.overrun
      ∧ ∀ i, i < base ∨ base + packetBodyPos + body.length + 1 ≤ i →
          (packetPack2String p).block.byte i = buf.byte i := by
  obtain ⟨hbase, -, hsize⟩ := hbuf
  have hfits := hp.fits
  have hb13 : packetBodyPos = 13 := rfl
  rw [hb13] at hfits
  have hseq : p.block.word (base + packetSeqPos) = seq := by
    have hseq := hp.seq
    rwa [getPacketSeq, hp.pBuffer] at hseq
  have hdata : p.block.slice (base + packetBodyPos) body.length = body := by
    have hdata := hp.data
    rwa [getDataPos, hp.pBuffer] at hdata
  unfold packetPack2String
  rw [hp.pBuffer, hp.iTailer, show base + packetSohPos = base from add_zero base, ← add_assoc]
  dsimp only
  set eot := base + packetBodyPos + body.length with heot
  set b₁ := p.block.store base [protoSoh] with hb₁
  set b₂ := b₁.store eot [protoEot] with hb₂
  set lenBytes := wordBytes (BitVec.ofInt 32 (packetBodyPos + body.length + 1)) with hlen
  set b₃ := b₂.store (base + packetLenPos) lenBytes with hb₃
  have hb1 : packetLenPos = 1 := rfl
  have hb9 : packetSeqPos = 9 := rfl
  have hlen4 : lenBytes.length = 4 := rfl
  have hone : ∀ c : UInt8, [c].length = 1 := fun _ => rfl
  have h₁ : b₁ = p.block.write base [protoSoh] :=
    store_of_holds ⟨hbase, by omega, by rw [hp.size, hone]; omega⟩
  have h₂ : b₂ = b₁.write eot [protoEot] :=
    store_of_holds ⟨by omega, by omega, by rw [h₁, size_write, hp.size, hone]; omega⟩
  have h₃ : b₃ = b₂.write (base + packetLenPos) lenBytes :=
    store_of_holds ⟨by omega, by omega, by
      rw [h₂, h₁, size_write, size_write, hp.size, hlen4]
      omega⟩
  refine ⟨⟨?_, ?_, ?_, ?_, ?_⟩, ?_, ?_⟩
  · rw [show base + packetSohPos = base from add_zero base, h₃, byte_write_of_lt (by omega), h₂,
      byte_write_of_lt (by omega), h₁]
    exact byte_write_single
  · rw [h₃]
    exact word_write_self _
  · rw [h₃, word_write_of_disjoint (Or.inr (by rw [hlen4]; omega)), h₂,
      word_write_of_disjoint (Or.inl (by omega)), h₁,
      word_write_of_disjoint (Or.inr (by rw [hone]; omega))]
    exact hseq
  · rw [h₃, slice_write_of_disjoint (Or.inr (by rw [hlen4]; omega)), h₂,
      slice_write_of_disjoint (Or.inl le_rfl), h₁,
      slice_write_of_disjoint (Or.inr (by rw [hone]; omega))]
    exact hdata
  · rw [h₃, byte_write_of_ge (by rw [hlen4]; omega), h₂]
    exact byte_write_single
  · rw [h₃, h₂, h₁]
    exact hp.overrun
  · intro i hi
    rw [h₃, h₂, h₁]
    rcases hi with hlt | hge
    · rw [byte_write_of_lt (by omega), byte_write_of_lt (by omega),
        byte_write_of_lt (by omega)]
      exact hp.outside i (Or.inl hlt)
    · rw [byte_write_of_ge (by rw [hlen4]; omega), byte_write_of_ge (by rw [hone]; omega),
        byte_write_of_ge (by rw [hone]; omega)]
      exact hp.outside i (Or.inr hge)

/-! ## Decoding -/

namespace PacketPack.Framed

/-- A packet depends on its bytes only. -/
theorem of_slice_eq {b' : Block} {base' : ℤ} (h : Framed b base seq body)
    (heq : b'.slice base' (14 + body.length) = b.slice base (14 + body.length)) :
    Framed b' base' seq body := by
  have hbyte : ∀ j : ℕ, j < 14 + body.length → b'.byte (base' + j) = b.byte (base + j) :=
    fun j hj => byte_of_slice_eq heq hj
  have hslice : ∀ j k : ℕ, j + k ≤ 14 + body.length →
      b'.slice (base' + j) k = b.slice (base + j) k := by
    intro j k hjk
    refine slice_congr (fun m hm => ?_)
    rw [add_assoc, add_assoc, ← Nat.cast_add]
    exact hbyte (j + m) (by omega)
  refine ⟨?_, ?_, ?_, ?_, ?_⟩
  · exact (hbyte 0 (by omega)).trans h.soh
  · exact (word_of_slice_eq (hslice 1 4 (by omega))).trans h.len
  · exact (word_of_slice_eq (hslice 9 4 (by omega))).trans h.seq
  · exact (hslice 13 body.length (by omega)).trans h.data
  · have heot := hbyte (13 + body.length) (by omega)
    rw [Nat.cast_add, ← add_assoc, ← add_assoc] at heot
    exact heot.trans h.eot

/-- The length field reads as the length of the packet. -/
theorem len_toInt (h : Framed b base seq body) (hmax : 14 + (body.length : ℤ) ≤ packetMaxLen) :
    (b.word (base + packetLenPos)).toInt = 14 + body.length := by
  have hb13 : packetBodyPos = 13 := rfl
  have hmax' : packetMaxLen = 1024 * 1024 := rfl
  rw [h.len, BitVec.toInt_ofInt, hb13, Int.bmod_eq_of_le (by omega) (by omega)]
  omega

/-- **A packet passes the header test** with its own length. -/
theorem recvHead_eq (h : Framed b 0 seq body) (hmax : 14 + (body.length : ℤ) ≤ packetMaxLen) :
    recvHead b = some (14 + (body.length : ℤ)) := by
  have hsoh : b.byte packetSohPos = protoSoh := h.soh
  have hlen : (b.word packetLenPos).toInt = 14 + body.length := h.len_toInt hmax
  have hb13 : packetBodyPos = 13 := rfl
  unfold recvHead
  dsimp only
  rw [hsoh, hlen, if_neg (not_or.mpr ⟨not_not.mpr rfl, by omega⟩), if_neg (not_lt.mpr hmax)]

/-- **A packet is taken apart again.** -/
theorem string2PacketPack_eq (h : Framed b base seq body) :
    ∃ q, string2PacketPack true b base (14 + body.length) = some q
      ∧ getDataSize q = body.length
      ∧ q.block.slice (getDataPos q) body.length = body
      ∧ getPacketSeq q = seq := by
  have hb13 : packetBodyPos = 13 := rfl
  have heot : b.byte (base + (14 + body.length - 1)) = protoEot := by
    rw [show base + (14 + (body.length : ℤ) - 1) = base + packetBodyPos + body.length by omega]
    exact h.eot
  unfold string2PacketPack
  rw [if_neg (by omega), if_pos rfl]
  dsimp only
  rw [h.soh, heot, if_neg (not_or.mpr ⟨not_not.mpr rfl, not_not.mpr rfl⟩)]
  refine ⟨_, rfl, ?_, h.data, h.seq⟩
  show 14 + (body.length : ℤ) - 1 - packetBodyPos = body.length
  omega

end PacketPack.Framed

/-- **Encoding and decoding are inverse.** Over any buffer of `n ≥ 14` bytes, a
packet built with `__CreatePackFromBuffer`, `SetPacketSeq`, one `SetDataBody`
for each chunk and `PacketPack2String` has the length `14 + m` for `m` bytes of
body and changes no byte behind it; wherever exactly these bytes are received,
the header test lets them through with this length and `String2PacketPack`
gives back the body and the sequence number. -/
theorem packet_roundtrip {buf : Block} {n : ℤ} (hn : 14 ≤ n) (hint : n < 2 ^ 31)
    (hsize : buf.size = n) (seq : BitVec 32) {chunks : List (List UInt8)}
    (hne : ∀ c ∈ chunks, c ≠ []) (hfits : 14 + (chunks.flatten.length : ℤ) ≤ n)
    (hmax : 14 + (chunks.flatten.length : ℤ) ≤ packetMaxLen) :
    ∃ p, createPackFromBuffer true buf 0 n = some p ∧
      let out := packetPack2String (chunks.foldl
        (fun p c => (setDataBody p (fun k => c.getD k 0) c.length).2) (setPacketSeq p seq))
      (getPacketLen out).toInt = 14 + chunks.flatten.length
        ∧ (∀ i, 14 + (chunks.flatten.length : ℤ) ≤ i → out.block.byte i = buf.byte i)
        ∧ ∀ recv : Block, recv.slice 0 (14 + chunks.flatten.length)
              = out.block.slice 0 (14 + chunks.flatten.length) →
            recvHead recv = some (14 + (chunks.flatten.length : ℤ))
              ∧ ∃ q, string2PacketPack true recv 0 (14 + chunks.flatten.length) = some q
                ∧ getDataSize q = chunks.flatten.length
                ∧ q.block.slice (getDataPos q) chunks.flatten.length = chunks.flatten
                ∧ getPacketSeq q = seq := by
  have hbuf : buf.Holds 0 n := ⟨le_rfl, by omega, by rw [hsize, zero_add]⟩
  have hb13 : packetBodyPos = 13 := rfl
  have hmax' : packetMaxLen = 1024 * 1024 := rfl
  obtain ⟨p, hcreate, hp⟩ := createPackFromBuffer_holding hn hbuf
  have hbuilt := foldl_setDataBody_holding hp hne
    (by rw [List.nil_append]; omega) hint hbuf
  rw [List.nil_append] at hbuilt
  obtain ⟨hframed, -, hout⟩ := packetPack2String_framed hbuilt hbuf
  refine ⟨p, hcreate, ?_, fun i hi => hout i (Or.inr (by omega)), fun recv hrecv => ?_⟩
  · show (BitVec.ofInt 32 (_ + 1)).toInt = _
    rw [show (packetPack2String _).iTailer = _ from hbuilt.iTailer, BitVec.toInt_ofInt, hb13,
      Int.bmod_eq_of_le (by omega) (by omega)]
    omega
  · have hrecv' := hframed.of_slice_eq hrecv
    exact ⟨hrecv'.recvHead_eq hmax, hrecv'.string2PacketPack_eq⟩

/-- Two chunks over a buffer of twenty bytes. -/
theorem packet_roundtrip_sample :
    ∃ p, createPackFromBuffer true ⟨20, fun _ => 7, false⟩ 0 20 = some p ∧
      let out := packetPack2String ([[1, 2], [3]].foldl
        (fun p (c : List UInt8) => (setDataBody p (fun k => c.getD k 0) c.length).2)
        (setPacketSeq p 9))
      (getPacketLen out).toInt = 17 ∧ out.block.byte 17 = 7 := by
  obtain ⟨p, hcreate, hlen, hout, -⟩ := packet_roundtrip (by decide) (by decide)
    (show (⟨20, fun _ => 7, false⟩ : Block).size = 20 from rfl) 9
    (show ∀ c ∈ ([[1, 2], [3]] : List (List UInt8)), c ≠ [] by decide) (by decide) (by decide)
  exact ⟨p, hcreate, hlen, hout 17 (by decide)⟩
