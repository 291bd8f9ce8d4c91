import TcpFrame.ConnSendRuns

/-!
# Room in the send buffer

The two functions every reply but an echo goes through: `ResizeSendBufferPtr`
makes room for a packet behind what is queued, and `SendPacket2Client` queues
the packet that was built there.

`ResizeSendBufferPtr` has three ways of making room, and the third one asks
`malloc` for the size of an `int`. It is therefore right exactly where it needs
no new buffer, up to buffers of one or two bytes (`resizeSendBufferPtr_room_iff`).
`SendPacket2Client` copies from the start of the send buffer in place of the
packet, so that what it queues is the packet exactly if the buffer begins with
the packet (`sendPacket2Client_appends_iff`).
-/

open Block

variable {conn c : ConnFd} {b buf : Block} {p : PacketPack} {need pos used n n' : ℤ} {fuel : ℕ}

/-- **The sending side of a connection**, with a block of exactly the bytes the
send buffer is taken to have. -/
structure ConnFd.SendExact (conn : ConnFd) : Prop where
  cur_nonneg : 0 ≤ conn.iSendCurLen
  cur_le : conn.iSendCurLen ≤ conn.iSendPacketLen
  packet_le : conn.iSendPacketLen ≤ conn.iSendTotalLen
  total_lt : conn.iSendTotalLen < 2 ^ 31
  size : conn.pszSendBuf.size = conn.iSendTotalLen

instance : Decidable conn.SendExact :=
  decidable_of_iff (0 ≤ conn.iSendCurLen ∧ conn.iSendCurLen ≤ conn.iSendPacketLen
      ∧ conn.iSendPacketLen ≤ conn.iSendTotalLen ∧ conn.iSendTotalLen < 2 ^ 31
      ∧ conn.pszSendBuf.size = conn.iSendTotalLen)
    ⟨fun ⟨h₁, h₂, h₃, h₄, h₅⟩ => ⟨h₁, h₂, h₃, h₄, h₅⟩,
      fun ⟨h₁, h₂, h₃, h₄, h₅⟩ => ⟨h₁, h₂, h₃, h₄, h₅⟩⟩

/-! ## The doubling loop -/

/-- One round of the doubling loop, where nothing overflows. -/
theorem resizeLoop_succ (hn : 0 ≤ n) (hmax : n < 2 ^ 30) (hused : 0 ≤ used) (hle : used < 2 ^ 30) :
    resizeLoop used need (fuel + 1) n
      = if n - used < need then resizeLoop used need fuel (n * 2) else some n := by
  rw [resizeLoop, int32_eq_self (by omega) (by omega), int32_eq_self (by omega) (by omega)]

/-- **The doubling loop never ends on an empty buffer.** -/
theorem resizeLoop_zero (hneed : 0 < need) : resizeLoop 0 need fuel 0 = none := by
  induction fuel with
  | zero => rfl
  | succ fuel ih =>
    rw [resizeLoop_succ le_rfl (by decide) le_rfl (by decide), sub_zero, if_pos hneed, zero_mul, ih]

/-- What the doubling loop ends with leaves room for what is needed. -/
theorem le_of_resizeLoop (h : resizeLoop used need fuel n = some n') :
    need ≤ int32 (n' - used) := by
  induction fuel generalizing n with
  | zero => exact absurd h (by simp [resizeLoop])
  | succ fuel ih =>
    rw [resizeLoop] at h
    split at h
    · exact ih h
    · next hroom =>
      obtain rfl := Option.some.inj h
      exact not_lt.mp hroom

/-- **A buffer of one or two bytes** may grow to four. -/
theorem resizeLoop_small (hpos : 0 < n) (hlt : n < 3) (hused : 0 ≤ used) (hneed : 0 ≤ need)
    (hle : used + need ≤ 4) :
    ∃ n', resizeLoop used need (fuel + 3) n = some n' ∧ n' ≤ 4 ∧ need ≤ n' - used := by
  have hround : ∀ (fuel : ℕ) (m : ℤ), 0 ≤ m → m ≤ 4 → resizeLoop used need (fuel + 1) m
      = if m - used < need then resizeLoop used need fuel (m * 2) else some m :=
    fun fuel m hm hm' => resizeLoop_succ hm (by omega) hused (by omega)
  rw [hround (fuel + 2) n hpos.le (by omega)]
  by_cases h₁ : n - used < need
  swap
  · rw [if_neg h₁]
    exact ⟨n, rfl, by omega, not_lt.mp h₁⟩
  rw [if_pos h₁, hround (fuel + 1) (n * 2) (by omega) (by omega)]
  by_cases h₂ : n * 2 - used < need
  swap
  · rw [if_neg h₂]
    exact ⟨n * 2, rfl, by omega, not_lt.mp h₂⟩
  -- two bytes that are not enough after one doubling were one at first
  rw [if_pos h₂, hround fuel (n * 2 * 2) (by omega) (by omega), if_neg (by omega)]
  exact ⟨n * 2 * 2, rfl, by omega, by omega⟩

/-! ## Making room -/

/-- What was sent is dropped: the unsent bytes go to the start of `buf`, which
is taken to have `iSendTotalLen` bytes. -/
def ConnFd.dropSent (conn : ConnFd) (buf : Block) (iSendTotalLen : ℤ) : ConnFd :=
  { conn with
    iSendTotalLen := iSendTotalLen
    pszSendBuf := buf.move 0 conn.pszSendBuf conn.iSendCurLen
      (conn.iSendPacketLen - conn.iSendCurLen)
    iSendPacketLen := conn.iSendPacketLen - conn.iSendCurLen
    iSendCurLen := 0 }

/-- The block `ResizeSendBufferPtr` gets from `malloc`. -/
def ConnFd.newBlock (conn : ConnFd) : Option (ℤ → UInt8) → Block
  | none => ⟨0, fun _ => 0, conn.pszSendBuf.overrun⟩
  | some mem => ⟨4, mem, conn.pszSendBuf.overrun⟩

/-- **Dropping what was sent keeps what is unsent**, where that fits. -/
theorem ConnFd.SendExact.unsent_dropSent (h : conn.SendExact)
    (hfits : conn.iSendPacketLen - conn.iSendCurLen ≤ buf.size) :
    (conn.dropSent buf n).unsent = conn.unsent := by
  have hcur := h.cur_nonneg
  have hle := h.cur_le
  have hpacket := h.packet_le
  have hsize := h.size
  show (buf.move 0 conn.pszSendBuf conn.iSendCurLen _).slice 0
    (conn.iSendPacketLen - conn.iSendCurLen - 0).toNat = conn.unsent
  rw [sub_zero, move_of_holds ⟨le_rfl, by omega, by omega⟩ ⟨hcur, by omega, by omega⟩]
  exact slice_write_self length_slice

/-- **The three branches of `ResizeSendBufferPtr`**: there is room behind what is
queued, there is once what was sent is dropped, or there is a new block. -/
theorem ConnFd.SendExact.resize_cases (h : conn.SendExact) (need : ℤ)
    (malloc : Option (ℤ → UInt8)) :
    need ≤ conn.iSendTotalLen - conn.iSendPacketLen
        ∧ resizeSendBufferPtr conn need malloc = some (conn.iSendPacketLen, conn)
      ∨ conn.iSendTotalLen - conn.iSendPacketLen < need
        ∧ need < conn.iSendTotalLen - conn.iSendPacketLen + conn.iSendCurLen
        ∧ resizeSendBufferPtr conn need malloc
          = some (conn.iSendPacketLen - conn.iSendCurLen,
              conn.dropSent conn.pszSendBuf conn.iSendTotalLen)
      ∨ conn.iSendTotalLen - conn.iSendPacketLen < need
        ∧ conn.iSendTotalLen - conn.iSendPacketLen + conn.iSendCurLen ≤ need
        ∧ resizeSendBufferPtr conn need malloc
          = (resizeLoop conn.iSendPacketLen need resizeFuel conn.iSendTotalLen).map
              fun iSendTotalLen => (conn.iSendPacketLen - conn.iSendCurLen,
                conn.dropSent (conn.newBlock malloc) iSendTotalLen) := by
  obtain ⟨hcur, hle, hpacket, htotal, -⟩ := h
  unfold resizeSendBufferPtr
  rw [int32_eq_self (by omega) (by omega), int32_eq_self (by omega) (by omega),
    sizeT_eq_self (by omega) (by omega)]
  by_cases hfree : conn.iSendTotalLen - conn.iSendPacketLen ≥ need
  · exact Or.inl ⟨hfree, if_pos hfree⟩
  rw [if_neg hfree]
  by_cases hdrop : conn.iSendTotalLen - conn.iSendPacketLen + conn.iSendCurLen > need
  · exact Or.inr (Or.inl ⟨not_le.mp hfree, hdrop, if_pos hdrop⟩)
  · rw [if_neg hdrop]
    refine Or.inr (Or.inr ⟨not_le.mp hfree, not_lt.mp hdrop, ?_⟩)
    cases malloc with
    | none => rfl
    | some mem => rfl

/-- **With nothing queued**, the connection is left as it is, or there is a block
of four bytes at most. -/
theorem ConnFd.SendExact.resize_empty (h : conn.SendExact) (hcur : conn.iSendCurLen = 0)
    (hpacket : conn.iSendPacketLen = 0) {ptr : ℤ} {malloc : Option (ℤ → UInt8)}
    (hr : resizeSendBufferPtr conn need malloc = some (ptr, c)) :
    ptr = 0 ∧ c.iSendPacketLen = 0
      ∧ (c = conn ∧ need ≤ conn.iSendTotalLen
        ∨ conn.iSendTotalLen < need ∧ c.pszSendBuf.size ≤ 4) := by
  have hdrop : conn.iSendPacketLen - conn.iSendCurLen = 0 := by rw [hcur, hpacket, sub_zero]
  rcases h.resize_cases need malloc with ⟨hfree, hr'⟩ | ⟨hfull, hsent, -⟩ | ⟨hfull, -, hr'⟩
  · obtain ⟨rfl, rfl⟩ := Prod.mk.inj (Option.some.inj (hr'.symm.trans hr))
    exact ⟨hpacket, hpacket, Or.inl ⟨rfl, by omega⟩⟩
  · omega
  · obtain ⟨n, -, hc⟩ := Option.map_eq_some_iff.mp (hr'.symm.trans hr)
    obtain ⟨rfl, rfl⟩ := Prod.mk.inj hc
    refine ⟨hdrop, hdrop, Or.inr ⟨by omega, ?_⟩⟩
    show (Block.move _ _ _ _ _).size ≤ 4
    rw [size_move]
    cases malloc with
    | none => exact (by decide : (0 : ℤ) ≤ 4)
    | some mem => exact le_rfl

/-- **There is room for `need` bytes** behind what was queued in `conn`: `ptr` is
where it begins in `c`. -/
structure ConnFd.RoomFor (conn : ConnFd) (need ptr : ℤ) (c : ConnFd) : Prop where
  ptr : ptr = c.iSendPacketLen
  unsent : c.unsent = conn.unsent
  block : c.iSendTotalLen ≤ c.pszSendBuf.size
  room : need ≤ c.iSendTotalLen - c.iSendPacketLen

/-- **No new block is needed**, or one of four bytes does. -/
def ConnFd.SparesBlock (conn : ConnFd) (need : ℤ) : Prop :=
  need ≤ conn.iSendTotalLen - conn.iSendPacketLen
    ∨ need < conn.iSendTotalLen - conn.iSendPacketLen + conn.iSendCurLen
    ∨ 0 < conn.iSendTotalLen ∧ conn.iSendTotalLen < 3 ∧ conn.iSendPacketLen + need ≤ 4

/-- **`ResizeSendBufferPtr` makes room exactly where it can do without a new
block**, but for buffers that four bytes are enough for. -/
theorem resizeSendBufferPtr_room_iff (h : conn.SendExact) (hneed : 0 ≤ need)
    (mem : ℤ → UInt8) :
    (∃ ptr c, resizeSendBufferPtr conn need (some mem) = some (ptr, c)
        ∧ conn.RoomFor need ptr c)
      ↔ conn.SparesBlock need := by
  have hcur := h.cur_nonneg
  have hle := h.cur_le
  have hpacket := h.packet_le
  have htotal := h.total_lt
  unfold ConnFd.SparesBlock
  rcases h.resize_cases need (some mem) with ⟨hfree, hr⟩ | ⟨hfull, hdrop, hr⟩ | ⟨hfull, hgrow, hr⟩
  · exact iff_of_true ⟨_, _, hr, rfl, rfl, h.size.ge, hfree⟩ (Or.inl hfree)
  · refine iff_of_true ⟨_, _, hr, rfl, h.unsent_dropSent ?_, ?_, ?_⟩ (Or.inr (Or.inl hdrop))
    · rw [h.size]
      omega
    · exact (size_move.trans h.size).ge
    · show need ≤ conn.iSendTotalLen - (conn.iSendPacketLen - conn.iSendCurLen)
      omega
  rw [hr]
  constructor
  · rintro ⟨ptr, c, hmap, hroom⟩
    obtain ⟨n, hloop, hc⟩ := Option.map_eq_some_iff.mp hmap
    obtain ⟨-, rfl⟩ := Prod.mk.inj hc
    have hblock : n ≤ 4 := hroom.block.trans size_move.le
    have hlast : need ≤ n - (conn.iSendPacketLen - conn.iSendCurLen) := hroom.room
    have hend := le_of_resizeLoop hloop
    rw [int32_eq_self (by omega) (by omega)] at hend
    refine Or.inr (Or.inr ⟨?_, ?_, by omega⟩)
    · -- an empty buffer never gets out of the loop
      refine lt_of_le_of_ne (by omega) (fun hzero => ?_)
      rw [← hzero, show conn.iSendPacketLen = 0 by omega, resizeLoop_zero (by omega)] at hloop
      exact absurd hloop (by simp)
    · -- and one of three bytes grows to six
      refine lt_of_le_of_ne (b := 3) (by omega) (fun hthree => ?_)
      rw [hthree, show resizeFuel = 31 + 1 + 1 from rfl,
        resizeLoop_succ (by omega) (by omega) (by omega) (by omega), if_pos (by omega),
        resizeLoop_succ (by omega) (by omega) (by omega) (by omega), if_neg (by omega)] at hloop
      have hsix : 3 * 2 = n := Option.some.inj hloop
      omega
  · rintro (hfree | hdrop | ⟨hpos, hlt, hfour⟩)
    · exact absurd hfree (not_le.mpr hfull)
    · exact absurd hdrop (not_lt.mpr hgrow)
    · obtain ⟨n, hloop, hn, hlast⟩ := resizeLoop_small hpos hlt
        (by omega : 0 ≤ conn.iSendPacketLen) hneed hfour
      rw [show resizeFuel = 30 + 3 from rfl, hloop]
      refine ⟨_, _, rfl, rfl, h.unsent_dropSent ?_, ?_, ?_⟩
      · show conn.iSendPacketLen - conn.iSendCurLen ≤ 4
        omega
      · exact hn.trans size_move.ge
      · show need ≤ n - (conn.iSendPacketLen - conn.iSendCurLen)
        omega

/-- A new connection. -/
def freshConn : ConnFd := .create 5 1 (fun _ => 0) (fun _ => 0) 0

/-- Room for `100` bytes. -/
theorem resizeSendBufferPtr_room_sample :
    ∃ ptr c, resizeSendBufferPtr freshConn 100 (some fun _ => 0) = some (ptr, c)
      ∧ freshConn.RoomFor 100 ptr c :=
  (resizeSendBufferPtr_room_iff (by decide) (by decide) fun _ => 0).mpr
    (Or.inl (by decide))

/-- **No room for `5000` bytes**: the send buffer of a new connection becomes a
block of `4` bytes, taken for one of `8192`. -/
theorem resizeSendBufferPtr_no_room :
    freshConn.SendExact ∧ ¬ ∃ ptr c, resizeSendBufferPtr freshConn 5000 (some fun _ => 0)
      = some (ptr, c) ∧ freshConn.RoomFor 5000 ptr c := by
  refine ⟨by decide, ?_⟩
  rintro ⟨ptr, c, hr, hroom⟩
  have hrun : (resizeSendBufferPtr freshConn 5000 (some fun _ => 0)).map
      (fun r => (r.2.iSendTotalLen, r.2.pszSendBuf.size)) = some (8192, 4) := by
    decide +kernel
  rw [hr, Option.map_some] at hrun
  obtain ⟨htotal, hsize⟩ := Prod.mk.inj (Option.some.inj hrun)
  have hblock : c.iSendTotalLen ≤ c.pszSendBuf.size := hroom.block
  rw [show c.iSendTotalLen = 8192 from htotal, show c.pszSendBuf.size = 4 from hsize] at hblock
  exact absurd hblock (by decide)

/-! ## Building in place -/

/-- **A packet built in place** at `pos` of the block `buf`: nothing in front of
it has changed. -/
structure PacketPack.BuiltAt (buf : Block) (pos : ℤ) (p : PacketPack) : Prop where
  pBuffer : p.pBuffer = pos
  size : p.block.size = buf.size
  tail : packetBodyPos ≤ p.iTailer
  before : ∀ i < pos, p.block.byte i = buf.byte i

/-- The bytes of a packet, as `PacketPack2String` leaves them. -/
def PacketPack.bytes (p : PacketPack) : List UInt8 :=
  (packetPack2String p).block.slice p.pBuffer (p.iTailer + 1).toNat

/-- A further copy into the packet leaves it built in place, with any tail. -/
theorem PacketPack.BuiltAt.store (h : p.BuiltAt buf pos) (off : ℤ) (src : List UInt8) {tail : ℤ}
    (hoff : 0 ≤ off) (htail : packetBodyPos ≤ tail) :
    PacketPack.BuiltAt buf pos
      { p with block := p.block.store (p.pBuffer + off) src, iTailer := tail } where
  pBuffer := h.pBuffer
  size := size_store.trans h.size
  tail := htail
  before i hi := by
    have hpos := h.pBuffer
    exact (byte_store_of_lt (by omega)).trans (h.before i hi)

/-- **`__CreatePackFromBuffer`** begins a packet in place. -/
theorem createPackFromBuffer_builtAt {t_iLen : ℤ}
    (hp : createPackFromBuffer true buf pos t_iLen = some p) : p.BuiltAt buf pos := by
  obtain ⟨-, hp⟩ := Option.ite_none_left_eq_some.mp hp
  obtain rfl := Option.some.inj ((if_pos rfl).symm.trans hp)
  refine ⟨rfl, ?_, le_rfl, fun i hi => ?_⟩
  · show (((buf.store _ _).store _ _).store _ _).size = buf.size
    rw [size_store, size_store, size_store]
  · show (((buf.store (pos + 0) _).store (pos + 13) _).store (pos + 1) _).byte i = buf.byte i
    rw [byte_store_of_lt (by omega), byte_store_of_lt (by omega), byte_store_of_lt (by omega)]

/-- **`SetPacketCmd`** does not touch the packet. -/
theorem PacketPack.BuiltAt.cmd (h : p.BuiltAt buf pos) (cmd : BitVec 32) :
    (setPacketCmd p cmd).BuiltAt buf pos :=
  ⟨h.pBuffer, h.size, h.tail, h.before⟩

/-- **`SetPacketSeq`** writes into the packet. -/
theorem PacketPack.BuiltAt.seq (h : p.BuiltAt buf pos) (seq : BitVec 32) :
    (setPacketSeq p seq).BuiltAt buf pos :=
  h.store _ _ (by decide) h.tail

/-- **`SetDataBody`** writes behind what is there, and moves the tail. -/
theorem PacketPack.BuiltAt.body (h : p.BuiltAt buf pos) {t_pData : ℕ → UInt8}
    {t_iDataLen : ℤ} (hmax : p.iTailer + t_iDataLen < 2 ^ 31) :
    (setDataBody p t_pData t_iDataLen).2.BuiltAt buf pos := by
  have h13 : packetBodyPos = 13 := rfl
  have htail := h.tail
  unfold setDataBody
  split
  · exact h
  · split
    · exact h
    · dsimp only
      rw [int32_eq_self (by omega) (by omega)]
      exact (h.store _ _ (by omega) htail).store _ _ (by omega) (by omega)

/-- The flag of a pack says nothing about the packet. -/
theorem PacketPack.BuiltAt.withOverrun (h : p.BuiltAt buf pos) (overrun : Bool) :
    PacketPack.BuiltAt buf pos { p with overrun := overrun } :=
  ⟨h.pBuffer, h.size, h.tail, h.before⟩

/-- **`AddAllData2Packet`** does the same. -/
theorem PacketPack.BuiltAt.allData (h : p.BuiltAt buf pos) (t_uBuffLen : ℤ)
    (rodata : ℕ → UInt8) : (addAllData2Packet p t_uBuffLen rodata).2.BuiltAt buf pos := by
  have h13 : packetBodyPos = 13 := rfl
  have htail := h.tail
  unfold addAllData2Packet
  split
  · exact h
  · dsimp only
    split
    · have hover : PacketPack.BuiltAt buf pos { p with block :=
          { p.block.store (p.pBuffer + p.iTailer) [102, 102, 108, 108, 111, 115, 98] with
            overrun := true } } :=
        have hs := h.store p.iTailer [102, 102, 108, 108, 111, 115, 98] (by omega) htail
        ⟨hs.pBuffer, hs.size, hs.tail, hs.before⟩
      exact (hover.store (p.iTailer + t_uBuffLen) [protoEot] (by omega) (by omega)).withOverrun _
    · have hfirst := h.store p.iTailer [102, 102, 108, 108, 111, 115, 98] (by omega) htail
      have hfill := hfirst.store (p.iTailer + 7 - 1)
        ((List.range (t_uBuffLen - 7).toNat).map (fillByte rodata)) (by omega) htail
      exact (hfill.store (p.iTailer + t_uBuffLen) [protoEot] (by omega) (by omega)).withOverrun _

/-- **The reply to a test request is built in place.** -/
theorem testReply_builtAt {iLength : ℤ} {cmd seq : BitVec 32} {rodata : ℕ → UInt8}
    {iRet : Ret} {p' : PacketPack} (hcreate : createPackFromBuffer true buf pos iLength = some p)
    (hadd : addAllData2Packet (setPacketSeq (setPacketCmd p cmd) seq) iLength rodata
      = (iRet, p')) : p'.BuiltAt buf pos := by
  have h := (((createPackFromBuffer_builtAt hcreate).cmd cmd).seq seq).allData iLength rodata
  rwa [hadd] at h

/-- **`PacketPack2String`** leaves the packet where it is. -/
theorem PacketPack.BuiltAt.string (h : p.BuiltAt buf pos) :
    (packetPack2String p).BuiltAt buf pos := by
  have h13 : packetBodyPos = 13 := rfl
  have htail := h.tail
  exact ((h.store _ _ (by decide) htail).store _ _ (by omega) htail).store _ _ (by decide) htail

/-! ## Queueing -/

/-- **What `ResizeSendBufferPtr` hands on**, where its block reaches as far as what
is queued. -/
theorem ConnFd.SendExact.resize_unsent (h : conn.SendExact) {ptr : ℤ}
    {malloc : Option (ℤ → UInt8)} (hr : resizeSendBufferPtr conn need malloc = some (ptr, c))
    (hfits : ptr ≤ c.pszSendBuf.size) :
    ptr = c.iSendPacketLen ∧ 0 ≤ c.iSendCurLen ∧ c.iSendCurLen ≤ c.iSendPacketLen
      ∧ c.pszSendBuf.size < 2 ^ 31 ∧ c.unsent = conn.unsent := by
  have hcur := h.cur_nonneg
  have hle := h.cur_le
  have hpacket := h.packet_le
  have htotal := h.total_lt
  have hsize := h.size
  -- what was sent is dropped, in one of two blocks
  have hdrop : ∀ (buf : Block) (n : ℤ), buf.size < 2 ^ 31 → c = conn.dropSent buf n →
      ptr = conn.iSendPacketLen - conn.iSendCurLen →
      ptr = c.iSendPacketLen ∧ 0 ≤ c.iSendCurLen ∧ c.iSendCurLen ≤ c.iSendPacketLen
        ∧ c.pszSendBuf.size < 2 ^ 31 ∧ c.unsent = conn.unsent := by
    rintro buf n hbuf rfl rfl
    have hmove : (conn.dropSent buf n).pszSendBuf.size = buf.size := size_move
    refine ⟨rfl, le_rfl, ?_, by rwa [hmove], h.unsent_dropSent (by rwa [hmove] at hfits)⟩
    show 0 ≤ conn.iSendPacketLen - conn.iSendCurLen
    omega
  rcases h.resize_cases need malloc with ⟨-, hr'⟩ | ⟨-, -, hr'⟩ | ⟨-, -, hr'⟩
  · obtain ⟨rfl, rfl⟩ := Prod.mk.inj (Option.some.inj (hr'.symm.trans hr))
    exact ⟨rfl, hcur, hle, by omega, rfl⟩
  · obtain ⟨hptr, hc⟩ := Prod.mk.inj (Option.some.inj (hr'.symm.trans hr))
    exact hdrop _ _ (by omega) hc.symm hptr.symm
  · obtain ⟨n, -, hc⟩ := Option.map_eq_some_iff.mp (hr'.symm.trans hr)
    obtain ⟨hptr, hc⟩ := Prod.mk.inj hc
    refine hdrop (conn.newBlock malloc) n ?_ hc.symm hptr.symm
    cases malloc with
    | none => exact (by decide : (0 : ℤ) < 2 ^ 31)
    | some mem => exact (by decide : (4 : ℤ) < 2 ^ 31)

/-- **`SendPacket2Client` copies the start of the send buffer** behind what is
queued, as many bytes as the packet has. -/
theorem sendPacket2Client_eq (hp : p.BuiltAt c.pszSendBuf c.iSendPacketLen)
    (hpos : 0 ≤ c.iSendPacketLen)
    (hroom : c.iSendPacketLen + (p.iTailer + 1) ≤ c.pszSendBuf.size)
    (hmax : c.pszSendBuf.size < 2 ^ 31) :
    sendPacket2Client c p = ({ c with
        pszSendBuf := (packetPack2String p).block.write c.iSendPacketLen
          ((packetPack2String p).block.slice 0 (p.iTailer + 1).toNat)
        iSendPacketLen := c.iSendPacketLen + (p.iTailer + 1) },
      [.eventAdd eventWritable .processSendCallback]) := by
  have h13 : packetBodyPos = 13 := rfl
  have htail := hp.tail
  have hsize : (packetPack2String p).block.size = c.pszSendBuf.size := hp.string.size
  have hlen : (getPacketLen (packetPack2String p)).toInt = p.iTailer + 1 := by
    show (BitVec.ofInt 32 (p.iTailer + 1)).toInt = p.iTailer + 1
    rw [BitVec.toInt_ofInt]
    exact Int.bmod_eq_of_le (by omega) (by omega)
  unfold sendPacket2Client appendPktToBuff
  dsimp only
  rw [hlen, Option.getD_none, sizeT_eq_self (by omega) (by omega),
    move_of_holds ⟨hpos, by omega, by omega⟩ ⟨le_rfl, by omega, by omega⟩]

/-- So these bytes are what is queued in addition. -/
theorem sendPacket2Client_unsent (hp : p.BuiltAt c.pszSendBuf c.iSendPacketLen)
    (hcur : 0 ≤ c.iSendCurLen) (hle : c.iSendCurLen ≤ c.iSendPacketLen)
    (hroom : c.iSendPacketLen + (p.iTailer + 1) ≤ c.pszSendBuf.size)
    (hmax : c.pszSendBuf.size < 2 ^ 31) :
    (sendPacket2Client c p).1.unsent
      = c.unsent ++ (packetPack2String p).block.slice 0 (p.iTailer + 1).toNat := by
  have h13 : packetBodyPos = 13 := rfl
  have htail := hp.tail
  have hcount : (c.iSendPacketLen + (p.iTailer + 1) - c.iSendCurLen).toNat
      = (c.iSendPacketLen - c.iSendCurLen).toNat + (p.iTailer + 1).toNat := by
    omega
  rw [sendPacket2Client_eq hp (by omega) hroom hmax]
  set b := (packetPack2String p).block with hb
  show (b.write c.iSendPacketLen _).slice c.iSendCurLen
    (c.iSendPacketLen + (p.iTailer + 1) - c.iSendCurLen).toNat = _
  rw [hcount, show c.iSendPacketLen
    = c.iSendCurLen + ((c.iSendPacketLen - c.iSendCurLen).toNat : ℤ) by omega,
    add_sub_cancel_left, Int.toNat_natCast, slice_write_append length_slice]
  congr 1
  refine slice_congr (fun j hj => hp.string.before _ ?_)
  omega

/-- **What is queued is the packet exactly if the buffer begins with it**: the
packet is a prefix of what stands in front of it in the buffer, followed by
itself. So it is where nothing stands in front of it. -/
theorem sendPacket2Client_appends_iff (h : conn.SendExact) {ptr : ℤ}
    {malloc : Option (ℤ → UInt8)} (hr : resizeSendBufferPtr conn need malloc = some (ptr, c))
    (hp : p.BuiltAt c.pszSendBuf ptr) (hroom : c.pszSendBuf.Holds ptr (p.iTailer + 1)) :
    (sendPacket2Client c p).1.unsent = conn.unsent ++ p.bytes
      ↔ p.bytes <+: c.pszSendBuf.slice 0 ptr.toNat ++ p.bytes := by
  obtain ⟨hptr, -, hend⟩ := hroom
  have h13 : packetBodyPos = 13 := rfl
  have htail := hp.tail
  obtain ⟨rfl, hcur, hle, hmax, hunsent⟩ := h.resize_unsent hr (by omega)
  rw [sendPacket2Client_unsent hp hcur hle hend hmax, hunsent, List.append_cancel_left_eq]
  have hbytes : p.bytes
      = (packetPack2String p).block.slice (c.iSendPacketLen) (p.iTailer + 1).toNat := by
    unfold PacketPack.bytes
    rw [hp.pBuffer]
  have hfront : c.pszSendBuf.slice 0 c.iSendPacketLen.toNat
      = (packetPack2String p).block.slice 0 c.iSendPacketLen.toNat :=
    slice_congr (fun j hj => (hp.string.before _ (by omega)).symm)
  have hall : c.pszSendBuf.slice 0 c.iSendPacketLen.toNat ++ p.bytes
      = (packetPack2String p).block.slice 0
        (c.iSendPacketLen.toNat + (p.iTailer + 1).toNat) := by
    rw [hfront, hbytes, slice_add, zero_add, Int.toNat_of_nonneg hptr]
  have hlength : p.bytes.length = (p.iTailer + 1).toNat := by rw [hbytes, length_slice]
  rw [hall, List.prefix_iff_eq_take, hlength, take_slice (Nat.le_add_left ..)]
  exact eq_comm

/-- The first packet of a new connection. -/
theorem sendPacket2Client_appends_sample :
    ∃ p, (createPackFromBuffer true freshConn.pszSendBuf 0 100).map
        (fun p => (setDataBody (setPacketSeq p 9) (fun _ => 7) 3).2) = some p
      ∧ (sendPacket2Client freshConn p).1.unsent = freshConn.unsent ++ p.bytes :=
  ⟨_, rfl, (sendPacket2Client_appends_iff (by decide)
    (show resizeSendBufferPtr freshConn 100 none = some (0, freshConn) from if_pos (by decide))
    (((createPackFromBuffer_builtAt rfl).seq _).body (by decide)) (by decide)).mpr List.prefix_rfl⟩

/-- A connection with three bytes queued. -/
def queuedConn : ConnFd := { freshConn with iSendPacketLen := 3 }

/-- **A packet behind three bytes** that are not sent yet: what is queued is not
the packet. -/
theorem sendPacket2Client_not_appends :
    queuedConn.SendExact ∧ resizeSendBufferPtr queuedConn 100 none = some (3, queuedConn)
      ∧ ∃ p, (createPackFromBuffer true queuedConn.pszSendBuf 3 100).map
          (fun p => (setDataBody (setPacketSeq p 9) (fun _ => 7) 3).2) = some p
        ∧ p.BuiltAt queuedConn.pszSendBuf 3
        ∧ queuedConn.pszSendBuf.Holds 3 (p.iTailer + 1)
        ∧ (sendPacket2Client queuedConn p).1.unsent ≠ queuedConn.unsent ++ p.bytes := by
  refine ⟨by decide, if_pos (by decide), _, rfl,
    ((createPackFromBuffer_builtAt rfl).seq _).body (by decide), by decide, ?_⟩
  decide +kernel
