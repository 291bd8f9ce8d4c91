import TcpFrame.BinProtoSpec
import TcpFrame.Lib.Run

/-!
# Filling a body

Runs of `SetDataBody` calls on a pack, with the data of the successful ones.
The test for room adds the length to `iTailer` as an `int`: while the sum is
one, a call takes exactly what fits, and a sum out of range becomes negative
and passes. `setDataBody_exact_iff` says that this is the only way a run can go
wrong.
-/

open Block

variable {buf : Block} {p : PacketPack} {base n : ℤ} {body : List UInt8} {seq : BitVec 32}

/-- The arguments of a call to `SetDataBody`. -/
structure BodyCall where
  t_pData : ℕ → UInt8
  t_iDataLen : ℤ

/-- The length is an `int`. -/
def BodyCall.IsInt (c : BodyCall) : Prop := -2 ^ 31 ≤ c.t_iDataLen ∧ c.t_iDataLen < 2 ^ 31

instance (c : BodyCall) : Decidable c.IsInt := inferInstanceAs (Decidable (_ ∧ _))

/-- The data of a call. -/
def BodyCall.data (c : BodyCall) : List UInt8 := (List.range c.t_iDataLen.toNat).map c.t_pData

/-- A pack, and the data of the calls that were successful. -/
structure BodyRun where
  pack : PacketPack
  body : List UInt8

namespace BodyRun

/-- What a call returns, and the pack it leaves. -/
def result (s : BodyRun) (c : BodyCall) : Ret × PacketPack :=
  setDataBody s.pack c.t_pData c.t_iDataLen

/-- **One call.** -/
def step (s : BodyRun) (c : BodyCall) : Option BodyRun :=
  some ⟨(s.result c).2, if (s.result c).1 = .succ then s.body ++ c.data else s.body⟩

/-- **The pack is in order**: the end mark is behind the data of the successful
calls, and inside the buffer. -/
structure Sound (s : BodyRun) : Prop where
  low : packetBodyPos ≤ s.pack.iTailer
  high : s.pack.iTailer ≤ s.pack.iTotal - 1
  eot : s.pack.block.byte (s.pack.pBuffer + s.pack.iTailer) = protoEot
  data : s.pack.block.slice (s.pack.pBuffer + packetBodyPos)
    (s.pack.iTailer - packetBodyPos).toNat = s.body

/-- **A call tells the truth**: it is successful if and only if the data fits,
and changes nothing if it is not. -/
structure Exact (s : BodyRun) (c : BodyCall) : Prop where
  succ_iff : 0 < c.t_iDataLen →
    ((s.result c).1 = .succ ↔ s.pack.iTailer + c.t_iDataLen ≤ s.pack.iTotal - 1)
  fail : (s.result c).1 = .fail → (s.result c).2 = s.pack

/-- The sum of the test for room is an `int`. -/
def NoWrap (s : BodyRun) (c : BodyCall) : Prop := s.pack.iTailer + c.t_iDataLen < 2 ^ 31

instance (s : BodyRun) (c : BodyCall) : Decidable (s.NoWrap c) :=
  inferInstanceAs (Decidable (_ < _))

end BodyRun

/-! ## One call -/

theorem setDataBody_nonpos {t_pData : ℕ → UInt8} {iLen : ℤ} (h : iLen ≤ 0) :
    setDataBody p t_pData iLen = (Ret.fail, p) := if_pos h

/-- The test for room, once the pack holds a body. -/
theorem PacketPack.Holding.room_test (hp : p.Holding buf base n seq body) (hn : n < 2 ^ 31)
    {iLen : ℤ} (hpos : 0 < iLen) (hwrap : p.iTailer + iLen < 2 ^ 31) :
    int32 (p.iTailer + iLen) > int32 (p.iTotal - 1) ↔ n - 1 < p.iTailer + iLen := by
  have hb13 : packetBodyPos = 13 := rfl
  have hfits := hp.fits
  have htail := hp.iTailer
  rw [hp.iTotal, int32_eq_self (x := p.iTailer + iLen) (by omega) hwrap,
    int32_eq_self (x := n - 1) (by omega) (by omega)]

/-- What does not fit is refused. -/
theorem setDataBody_full (hp : p.Holding buf base n seq body) (hn : n < 2 ^ 31)
    {t_pData : ℕ → UInt8} {iLen : ℤ} (hpos : 0 < iLen) (hwrap : p.iTailer + iLen < 2 ^ 31)
    (hfull : n - 1 < p.iTailer + iLen) : setDataBody p t_pData iLen = (Ret.fail, p) := by
  unfold setDataBody
  rw [if_neg (not_le.mpr hpos), if_pos ((hp.room_test hn hpos hwrap).mpr hfull)]

/-- What fits is appended. -/
theorem setDataBody_fits (hp : p.Holding buf base n seq body) (hn : n < 2 ^ 31)
    (hbuf : buf.Holds base n) {c : BodyCall} (hpos : 0 < c.t_iDataLen)
    (hfits : p.iTailer + c.t_iDataLen ≤ n - 1) :
    ∃ p', setDataBody p c.t_pData c.t_iDataLen = (Ret.succ, p')
      ∧ p'.Holding buf base n seq (body ++ c.data)
      ∧ p'.block.byte (base + p'.iTailer) = protoEot := by
  have hlen : (c.data.length : ℤ) = c.t_iDataLen := by
    rw [BodyCall.data, List.length_map, List.length_range]
    exact Int.toNat_of_nonneg hpos.le
  have hbytes : (List.range c.t_iDataLen.toNat).map (fun k => c.data.getD k 0) = c.data := by
    rw [show c.t_iDataLen.toNat = c.data.length by omega]
    exact map_getD_range c.data
  have hset : setDataBody p c.t_pData c.t_iDataLen
      = setDataBody p (fun k => c.data.getD k 0) c.data.length := by
    rw [hlen]
    unfold setDataBody
    rw [hbytes]
    rfl
  rw [hset]
  refine setDataBody_holding hp ?_ ?_ hn hbuf
  · rintro hnil
    rw [hnil, List.length_nil] at hlen
    omega
  · have htail := hp.iTailer
    rw [List.length_append]
    omega

/-- **A sum out of range passes the test**, and the end mark is in front of the
buffer. -/
theorem setDataBody_wraps (hp : p.Holding buf base n seq body) (hn : n < 2 ^ 31)
    (t_pData : ℕ → UInt8) {iLen : ℤ} (hint : iLen < 2 ^ 31) (hwrap : 2 ^ 31 ≤ p.iTailer + iLen) :
    ∃ p', setDataBody p t_pData iLen = (Ret.succ, p') ∧ p'.iTailer < 0 := by
  have hb13 : packetBodyPos = 13 := rfl
  have hfits := hp.fits
  have htail := hp.iTailer
  have hneg : int32 (p.iTailer + iLen) = p.iTailer + iLen - 2 ^ 32 :=
    int32_eq_sub hwrap (by omega)
  have htotal : int32 (p.iTotal - 1) = n - 1 := by
    rw [hp.iTotal]
    exact int32_eq_self (by omega) (by omega)
  unfold setDataBody
  rw [if_neg (by omega), if_neg (by omega)]
  refine ⟨_, rfl, ?_⟩
  show int32 (p.iTailer + iLen) < 0
  omega

/-! ## Runs -/

namespace BodyRun

variable {s s' : BodyRun} {c : BodyCall}

/-- **The invariant of filling a body** in `n` bytes of `buf` at `base`. -/
structure Inv (buf : Block) (base n : ℤ) (seq : BitVec 32) (s : BodyRun) : Prop where
  holding : s.pack.Holding buf base n seq s.body
  eot : s.pack.block.byte (base + s.pack.iTailer) = protoEot

theorem Inv.sound (h : s.Inv buf base n seq) : s.Sound := by
  have hfits := h.holding.fits
  have htail := h.holding.iTailer
  refine ⟨by omega, by rw [h.holding.iTotal]; omega, ?_, ?_⟩
  · rw [h.holding.pBuffer]
    exact h.eot
  · rw [show (s.pack.iTailer - packetBodyPos).toNat = s.body.length by omega]
    exact h.holding.data

/-- **A call whose sum is an `int`** tells the truth. -/
theorem Inv.exact (h : s.Inv buf base n seq) (hn : n < 2 ^ 31) (hbuf : buf.Holds base n)
    (hwrap : s.NoWrap c) : s.Exact c := by
  have htotal := h.holding.iTotal
  by_cases hpos : 0 < c.t_iDataLen
  swap
  · have hres : s.result c = (Ret.fail, s.pack) := setDataBody_nonpos (not_lt.mp hpos)
    exact ⟨fun hpos' => absurd hpos' hpos, fun _ => by rw [hres]⟩
  by_cases hfits : s.pack.iTailer + c.t_iDataLen ≤ n - 1
  · obtain ⟨p', hres, -, -⟩ := setDataBody_fits h.holding hn hbuf hpos hfits
    have hsucc : (s.result c).1 = .succ := congrArg Prod.fst hres
    refine ⟨fun _ => ⟨fun _ => by rwa [htotal], fun _ => hsucc⟩, fun hfail => ?_⟩
    rw [hsucc] at hfail
    exact absurd hfail (by decide)
  · have hres : s.result c = (Ret.fail, s.pack) :=
      setDataBody_full h.holding hn hpos hwrap (not_le.mp hfits)
    rw [← htotal] at hfits
    refine ⟨fun _ => ⟨fun hsucc => ?_, fun hle => absurd hle hfits⟩, fun _ => by rw [hres]⟩
    rw [hres] at hsucc
    exact absurd hsucc (by simp)

/-- **A call whose sum is an `int`** keeps the invariant. -/
theorem Inv.step (h : s.Inv buf base n seq) (hn : n < 2 ^ 31) (hbuf : buf.Holds base n)
    (hwrap : s.NoWrap c) (hstep : s.step c = some s') : s'.Inv buf base n seq := by
  obtain rfl := Option.some.inj hstep
  by_cases hfits : 0 < c.t_iDataLen ∧ s.pack.iTailer + c.t_iDataLen ≤ n - 1
  · obtain ⟨p', hres, hp', heot⟩ := setDataBody_fits h.holding hn hbuf hfits.1 hfits.2
    rw [show s.result c = (Ret.succ, p') from hres]
    exact ⟨hp', heot⟩
  · have hres : s.result c = (Ret.fail, s.pack) := by
      by_cases hpos : 0 < c.t_iDataLen
      · exact setDataBody_full h.holding hn hpos hwrap (not_le.mp fun hle => hfits ⟨hpos, hle⟩)
      · exact setDataBody_nonpos (not_lt.mp hpos)
    rw [hres]
    exact ⟨h.holding, h.eot⟩

/-- **A call whose sum is not an `int`** spoils the pack. -/
theorem Inv.not_sound (h : s.Inv buf base n seq) (hn : n < 2 ^ 31) (hint : c.IsInt)
    (hwrap : ¬ s.NoWrap c) : ∃ s', s.step c = some s' ∧ ¬ s'.Sound := by
  obtain ⟨p', hres, hneg⟩ :=
    setDataBody_wraps h.holding hn c.t_pData hint.2 (not_lt.mp hwrap)
  refine ⟨_, rfl, fun hsound => ?_⟩
  have hlow : packetBodyPos ≤ (s.result c).2.iTailer := hsound.low
  rw [show (s.result c).2 = p' from congrArg Prod.snd hres] at hlow
  have hb13 : packetBodyPos = 13 := rfl
  exact absurd hlow (not_le.mpr (by omega))

end BodyRun

/-- **`SetDataBody` accepts exactly what fits**, in every call of a run, and
the pack is in order all along, if and only if no call makes the sum of the
test for room too large for an `int`. -/
theorem setDataBody_exact_iff {malloc : Bool} {calls : List BodyCall}
    (hcreate : createPackFromBuffer malloc buf base n = some p) (hn : 14 ≤ n)
    (hint : n < 2 ^ 31) (hbuf : buf.Holds base n) (hcalls : ∀ c ∈ calls, c.IsInt) :
    Run.Always BodyRun.step BodyRun.Sound ⟨p, []⟩ calls
        ∧ Run.Along BodyRun.step BodyRun.Exact ⟨p, []⟩ calls
      ↔ Run.Along BodyRun.step BodyRun.NoWrap ⟨p, []⟩ calls := by
  obtain rfl : malloc = true := by
    cases malloc with
    | true => rfl
    | false => exact absurd hcreate (by simp [createPackFromBuffer])
  obtain ⟨q, hq, hhold, heot⟩ := createPackFromBuffer_begin hn hbuf
  obtain rfl : q = p := Option.some.inj (hq.symm.trans hcreate)
  have hinv : BodyRun.Inv buf base n (getPacketSeq q) ⟨q, []⟩ :=
    ⟨hhold, by rw [hhold.iTailer]; exact heot⟩
  have halong : Run.Along BodyRun.step (fun _ c => c.IsInt) ⟨q, []⟩ calls :=
    Run.along_of_forall_mem (fun c hc _ => hcalls c hc) _
  have hiff : Run.Always BodyRun.step BodyRun.Sound ⟨q, []⟩ calls
      ↔ Run.Along BodyRun.step BodyRun.NoWrap ⟨q, []⟩ calls :=
    Run.always_iff_along (fun s h => BodyRun.Inv.sound h)
      (fun s c s' h _ hwrap hstep => h.step hint hbuf hwrap hstep)
      (fun s c h hc hwrap => h.not_sound hint hc hwrap) hinv halong
  constructor
  · exact fun h => hiff.mp h.1
  · intro h
    refine ⟨hiff.mpr h, ?_⟩
    have hkeep : Run.Always BodyRun.step (BodyRun.Inv buf base n (getPacketSeq q)) ⟨q, []⟩ calls :=
      Run.always_of_along (fun s c s' hs hwrap hstep => hs.step hint hbuf hwrap hstep) hinv h
    exact hkeep.along h (fun s c hs hwrap => hs.exact hint hbuf hwrap)

/-- The pack `__CreatePackFromBuffer` makes of `20` zero bytes. -/
def emptyPack (n : ℤ) : PacketPack :=
  ⟨(((Block.mk n (fun _ => 0) false).store 0 [protoSoh]).store 13 [protoEot]).store 1
    (Block.wordBytes 18), 0, 13, 13, 0, n, false⟩

/-- A chunk that fits, one that does not, and a length that is no length. -/
theorem setDataBody_exact_sample :
    Run.Always BodyRun.step BodyRun.Sound ⟨emptyPack 20, []⟩
      [⟨fun _ => 1, 6⟩, ⟨fun _ => 2, 1⟩, ⟨fun _ => 3, -1⟩] :=
  have hcreate : createPackFromBuffer true ⟨20, fun _ => 0, false⟩ 0 20 = some (emptyPack 20) := rfl
  ((setDataBody_exact_iff hcreate (by decide) (by decide) (by decide)
    (by simp [BodyCall.IsInt])).mpr (by decide)).1

/-- **The largest `int` is accepted** where only the head and the end mark have
room. -/
theorem setDataBody_accepts_largest :
    ¬ ∀ (buf : Block) (n : ℤ) (p : PacketPack) (calls : List BodyCall),
      createPackFromBuffer true buf 0 n = some p → 14 ≤ n → n < 2 ^ 31 → buf.Holds 0 n →
      (∀ c ∈ calls, c.IsInt) →
      Run.Along BodyRun.step BodyRun.Exact ⟨p, []⟩ calls := by
  intro h
  have hbuf : (Block.mk 14 (fun _ => 0) false).Holds 0 14 := by decide
  obtain ⟨p, hcreate, hhold, -⟩ := createPackFromBuffer_begin (by decide) hbuf
  have htail : p.iTailer = 13 := hhold.iTailer
  have hexact := (h _ 14 p [⟨fun _ => 0, 2 ^ 31 - 1⟩] hcreate (by decide) (by decide) hbuf
    (by simp [BodyCall.IsInt])).1
  have hwraps : (2 : ℤ) ^ 31 ≤ p.iTailer + (2 ^ 31 - 1) := by omega
  obtain ⟨p', hres, -⟩ := setDataBody_wraps hhold (by decide) (fun _ => 0) (by decide) hwraps
  have hle := (hexact.succ_iff (by decide)).mp (congrArg Prod.fst hres)
  have htotal : p.iTotal = 14 := hhold.iTotal
  exact absurd hle (by show ¬ p.iTailer + (2 ^ 31 - 1) ≤ p.iTotal - 1; omega)
