import TcpFrame.BinProto
import TcpFrame.Lib.WriteLog
import Mathlib.Data.List.Induction

/-!
# Setting the fields of the head

A sequence of calls to the three setters of the head, as a log of writes to its
fields. Of the three only `SetPacketSeq` indexes the buffer; `SetPacketLen` and
`SetPacketCmd` index the pack, and what they copy goes behind it.
`setFields_eq` says what any log does, and `setters_lawful_iff` that the laws
of a record hold exactly for the logs that never call the other two.
-/

open Block WriteLog

/-- The fields of the head that have a setter. -/
inductive HeadField where
  | len
  | cmd
  | seq
  deriving DecidableEq, Repr

/-- Where a field lies in a packet. -/
def HeadField.pos : HeadField → ℤ
  | .len => packetLenPos
  | .cmd => packetCmdPos
  | .seq => packetSeqPos

/-- One call to the setter of a field. -/
def setHeadField (p : PacketPack) : HeadField × BitVec 32 → PacketPack
  | (.len, t_uPacketLen) => setPacketLen p t_uPacketLen
  | (.cmd, t_uPacketCmd) => setPacketCmd p t_uPacketCmd
  | (.seq, t_uPacketSeq) => setPacketSeq p t_uPacketSeq

/-- The calls of a log, one after the other. -/
def setHeadFields (p : PacketPack) (log : List (HeadField × BitVec 32)) : PacketPack :=
  log.foldl setHeadField p

variable {p : PacketPack} {log : List (HeadField × BitVec 32)}

/-- **What a sequence of calls does**: the last sequence number set is in the
buffer, and a call to one of the other two has written behind the pack. -/
theorem setHeadFields_eq : setHeadFields p log =
    { p with
      block := (last log .seq).elim p.block fun v =>
        p.block.store (p.pBuffer + packetSeqPos) (wordBytes v)
      overrun := p.overrun || (last log .len).isSome || (last log .cmd).isSome } := by
  induction log using List.reverseRecOn with
  | nil =>
    show p = _
    rw [last_nil, last_nil, last_nil]
    simp
  | append_singleton log w ih =>
    obtain ⟨f, v⟩ := w
    rw [show setHeadFields p (log ++ [(f, v)]) = setHeadField (setHeadFields p log) (f, v) from
      List.foldl_concat .., ih]
    cases f with
    | len =>
      rw [last_append_self, last_append_of_ne (by decide), last_append_of_ne (by decide)]
      simp [setHeadField, setPacketLen]
    | cmd =>
      rw [last_append_self, last_append_of_ne (by decide), last_append_of_ne (by decide)]
      simp [setHeadField, setPacketCmd]
    | seq =>
      rw [last_append_self, last_append_of_ne (by decide), last_append_of_ne (by decide)]
      cases last log .seq with
      | none => rfl
      | some u =>
        have hcover : (p.block.store (p.pBuffer + packetSeqPos) (wordBytes u)).store
            (p.pBuffer + packetSeqPos) (wordBytes v)
            = p.block.store (p.pBuffer + packetSeqPos) (wordBytes v) := store_store_self rfl
        exact congrArg (fun b : Block => { p with
          block := b
          overrun := p.overrun || (last log .len).isSome || (last log .cmd).isSome }) hcover

/-- **The laws of the setters**, for one sequence of calls. -/
structure SetterLaws (p : PacketPack) (log : List (HeadField × BitVec 32)) : Prop where
  /-- The buffer holds the last value set in each field, big-endian. -/
  held : ∀ f v, last log f = some v →
    (setHeadFields p log).block.slice (p.pBuffer + f.pos) 4 = wordBytes v
  cmd : ∀ v, last log .cmd = some v → getPacketCmd (setHeadFields p log) = v
  seq : ∀ v, last log .seq = some v → getPacketSeq (setHeadFields p log) = v
  /-- All other bytes of the buffer are as before. -/
  frame : ∀ i, (∀ f, last log f ≠ none → i < p.pBuffer + f.pos ∨ p.pBuffer + f.pos + 4 ≤ i) →
    (setHeadFields p log).block.byte i = p.block.byte i
  size : (setHeadFields p log).block.size = p.block.size
  inside : (setHeadFields p log).block.overrun = p.block.overrun
  /-- The pack itself is as before, and nothing was written behind it. -/
  pack : setHeadFields p log = { p with block := (setHeadFields p log).block }
  /-- Setters of different fields commute. -/
  commute : ∀ log', Shuffle log log' → setHeadFields p log' = setHeadFields p log

/-- **The setters obey their laws exactly where `SetPacketSeq` is the only one
called**, on any pack over a buffer with room for a head. -/
theorem setters_lawful_iff (hbuf : p.block.Holds p.pBuffer 14) (hpack : p.overrun = false) :
    SetterLaws p log ↔ ∀ w ∈ log, w.1 = .seq := by
  constructor
  · intro h w hw
    have hover : (setHeadFields p log).overrun = p.overrun :=
      (congrArg PacketPack.overrun h.pack :)
    rw [setHeadFields_eq, hpack] at hover
    have hnone : last log .len = none ∧ last log .cmd = none := by
      simpa [Option.isSome_eq_false_iff] using hover
    cases hf : w.1 with
    | len => exact absurd hf (last_eq_none.mp hnone.1 w hw)
    | cmd => exact absurd hf (last_eq_none.mp hnone.2 w hw)
    | seq => rfl
  · intro h
    have hlen : last log .len = none := last_eq_none.mpr fun w hw hf => by simp [h w hw] at hf
    have hcmd : last log .cmd = none := last_eq_none.mpr fun w hw hf => by simp [h w hw] at hf
    have hseq : packetSeqPos = 9 := rfl
    obtain ⟨hlo, -, hhi⟩ := hbuf
    have hroom : ∀ v : BitVec 32,
        p.block.Holds (p.pBuffer + packetSeqPos) (wordBytes v).length :=
      fun v => ⟨by omega, by omega, by rw [length_wordBytes]; omega⟩
    refine ⟨?_, ?_, ?_, ?_, ?_, ?_, ?_, fun log' hlog' => ?_⟩
    · intro f v hv
      cases f with
      | len => exact absurd hv (by simp [hlen])
      | cmd => exact absurd hv (by simp [hcmd])
      | seq =>
        rw [setHeadFields_eq, hv]
        exact slice_store_self (hroom v)
    · exact fun v hv => absurd hv (by simp [hcmd])
    · intro v hv
      rw [setHeadFields_eq, hv]
      exact word_store_self (hroom v)
    · intro i hi
      rw [setHeadFields_eq]
      cases hv : last log .seq with
      | none => rfl
      | some v =>
        rcases hi .seq (by simp [hv]) with hlt | hge
        · exact byte_store_of_lt hlt
        · exact byte_store_of_ge hge
    · rw [setHeadFields_eq]
      cases last log .seq with
      | none => rfl
      | some v => exact size_store
    · rw [setHeadFields_eq]
      cases last log .seq with
      | none => rfl
      | some v =>
        show (p.block.store _ _).overrun = _
        rw [store_of_holds (hroom v)]
        rfl
    · rw [setHeadFields_eq, hlen, hcmd]
      simp
    · rw [setHeadFields_eq, setHeadFields_eq, hlog'.last_eq, hlog'.last_eq, hlog'.last_eq]

/-- A pack over a buffer of a head, and two sequence numbers. -/
theorem setters_lawful_sample :
    SetterLaws ⟨⟨14, fun _ => 0, false⟩, 0, 13, 13, 0, 14, false⟩ [(.seq, 7), (.seq, 9)]
      ∧ ¬ SetterLaws ⟨⟨14, fun _ => 0, false⟩, 0, 13, 13, 0, 14, false⟩ [(.len, 14)] :=
  ⟨(setters_lawful_iff (by decide) rfl).mpr (by decide),
    fun h => absurd ((setters_lawful_iff (by decide) rfl).mp h) (by decide)⟩

/-- **A command that is set is not in the packet**: `GetPacketCmd` does not find
it there. -/
theorem setPacketCmd_not_held :
    ¬ ∀ (p : PacketPack) (log : List (HeadField × BitVec 32)),
      p.block.Holds p.pBuffer 14 → p.overrun = false → SetterLaws p log := by
  intro h
  have hcmd := (h ⟨⟨14, fun _ => 0, false⟩, 0, 13, 13, 0, 14, false⟩ [(.cmd, cmdTestValue)]
    (by decide) rfl).cmd cmdTestValue rfl
  exact absurd hcmd (by decide)
