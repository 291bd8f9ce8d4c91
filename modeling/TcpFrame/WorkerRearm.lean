import TcpFrame.WorkerTimers
import TcpFrame.MinHeapQueue

/-!
# Registering a timer again

`RegisterTimerOutEvent` overwrites the deadline of its node before it erases
the node, so the erase runs on an array that is not in order at that node. In
all but one place this does no harm: whatever exit the erase takes, it takes
just the node away, and the push puts it back.

The place is the last slot. A node there that has got a deadline earlier than
its parent's is sifted up by its own erase and stays in the array, and the slot
given up is the one its parent has come down to. The push then adds the node a
second time, and the parent is lost (`registerTimerOutEvent_keeps_iff`).
-/

open HeapOrder MinHeap

namespace Worker

variable {w : Worker} {p : NodePtr} {t : ℤ} {realloc : Bool} {nodes : Set NodePtr}

/-- The deadline a node gets when it is registered for `t_uSec` milliseconds. -/
def deadline (w : Worker) (t_uSec : ℤ) : TimeVal :=
  minheapTimeradd w.pstTimeCache (timerInterval t_uSec)

/-- **What registering a timer is for**: the entries are those from before and
the node, none of them twice, in the order of the deadlines, of which the node's
is the new one and no other has changed. -/
structure Registers (w : Worker) (p : NodePtr) (t_uSec : ℤ) (h : MinHeap) : Prop where
  entries : h.entries = p ::ₘ w.pstHeapHeader.entries.erase p
  nodup : h.entries.Nodup
  order : Ordered h.iNodeUsed h.key
  timeout : h.timeout = Function.update w.pstHeapHeader.timeout p (w.deadline t_uSec)

/-- **When no timer is lost**: a node that is not in the heap finds room there,
and a node in the last slot, unless that is the root, gets no deadline earlier
than its parent's. -/
structure Registrable (w : Worker) (p : NodePtr) (t_uSec : ℤ) (realloc : Bool) : Prop where
  room : w.pstHeapHeader.index p = -1 → realloc = false →
    w.pstHeapHeader.iNodeUsed < w.pstHeapHeader.iNodeCapacity
  last : 0 < w.pstHeapHeader.index p →
    w.pstHeapHeader.index p = w.pstHeapHeader.iNodeUsed - 1 →
    w.pstHeapHeader.key (parent (w.pstHeapHeader.iNodeUsed - 1)) ≤ w.deadline t_uSec

/-! ## The heap with the new deadline -/

theorem timeout_rearmed : (w.rearmed p t).timeout
    = Function.update w.pstHeapHeader.timeout p (w.deadline t) := by
  unfold rearmed deadline
  rw [timeout_setTimeout, timeout_setInterval]

/-- The key of a slot that does not hold the node is what it was. -/
theorem key_rearmed {i : ℕ} (hi : w.pstHeapHeader.slot i ≠ p) :
    (w.rearmed p t).key i = w.pstHeapHeader.key i := by
  show (w.rearmed p t).timeout (w.pstHeapHeader.slot i) = _
  rw [timeout_rearmed, Function.update_of_ne hi]
  rfl

/-- A node outside the heap may get any deadline. -/
theorem rearmed_wellFormed (hw : WellFormed nodes w.pstHeapHeader)
    (hp : p ∉ w.pstHeapHeader.held) : WellFormed nodes (w.rearmed p t) :=
  (hw.setInterval (timerInterval t)).setTimeout hp

/-- The array is in order around the slot of the node. -/
theorem rearmed_orderedBut (hw : WellFormed nodes w.pstHeapHeader)
    (hp : p ∈ w.pstHeapHeader.held) :
    OrderedBut w.pstHeapHeader.iNodeUsed (w.rearmed p t).key (w.pstHeapHeader.index p).toNat := by
  have hord := (hw.setInterval (p := p) (timerInterval t)).orderedBut_setTimeout hp
    (minheapTimeradd w.pstTimeCache (timerInterval t))
  rw [index_setInterval] at hord
  exact hord

/-! ## The erase and the push -/

theorem pstHeapHeader_registerTimerOutEvent :
    (registerTimerOutEvent w p t realloc).pstHeapHeader
      = (minHeapPush (minheapErase (w.rearmed p t) p).2 p realloc).2 := rfl

/-- Where the erase leaves the other timers, and the push finds room, the timer
is registered. -/
theorem registers_of_erased {h h' : MinHeap} (hw : WellFormed nodes w.pstHeapHeader)
    (herase : h.entries = w.pstHeapHeader.entries.erase p)
    (hbody : h.body = (w.rearmed p t).body) (hadd : Added p h h') : w.Registers p t h' := by
  have hnodup := hw.toBacked.nodup_entries
  refine ⟨?_, ?_, hadd.order, ?_⟩
  · rw [hadd.entries, herase]
  · rw [hadd.entries, herase, Multiset.nodup_cons]
    exact ⟨hnodup.notMem_erase, hnodup.erase p⟩
  · rw [timeout_of_body hadd.body, timeout_of_body hbody, timeout_rearmed]

/-- A timer that is not in the heap is registered exactly if there is room. -/
theorem registers_absent_iff (hw : WellFormed nodes w.pstHeapHeader)
    (hp : w.pstHeapHeader.index p = -1) :
    w.Registers p t (registerTimerOutEvent w p t realloc).pstHeapHeader
      ↔ (realloc = false → w.pstHeapHeader.iNodeUsed < w.pstHeapHeader.iNodeCapacity) := by
  have hnot : p ∉ w.pstHeapHeader.held := by
    rintro ⟨i, hi, rfl⟩
    have := hw.index i hi
    omega
  have hnot' : p ∉ w.pstHeapHeader.entries := fun hmem => hnot (mem_entries.mp hmem)
  have hw' := rearmed_wellFormed (t := t) hw hnot
  rw [pstHeapHeader_registerTimerOutEvent, minheapErase_absent (by rw [index_rearmed]; exact hp)]
  obtain ⟨hpush, hfail, hfull⟩ | ⟨hroom, h', hpush, hadd⟩ :=
    minHeapPush_array hw'.order hw'.used_le p realloc
  · rw [hpush]
    constructor
    · intro hreg
      have hmem : p ∈ w.pstHeapHeader.entries := by
        have hall : (w.rearmed p t).entries = _ := hreg.entries
        have hself := Multiset.mem_cons_self p (w.pstHeapHeader.entries.erase p)
        rw [← hall] at hself
        exact hself
      exact absurd hmem hnot'
    · intro hroom
      exact absurd hfull (hroom hfail).ne
  · rw [hpush]
    exact ⟨fun _ => hroom, fun _ => registers_of_erased (h := w.rearmed p t) hw
      (Multiset.erase_of_notMem hnot').symm rfl hadd⟩

/-- **The node is moved before its parent** while it is in the last slot. -/
def Displaced (w : Worker) (p : NodePtr) (t : ℤ) : Prop :=
  0 < w.pstHeapHeader.index p ∧ w.pstHeapHeader.index p = w.pstHeapHeader.iNodeUsed - 1
    ∧ w.deadline t < w.pstHeapHeader.key (parent (w.pstHeapHeader.iNodeUsed - 1))

/-- The slot of a node that has got its new deadline, and the keys the erase
compares. -/
theorem slot_rearmed (hw : WellFormed nodes w.pstHeapHeader) (hp : p ∈ w.pstHeapHeader.held) :
    ∃ j < w.pstHeapHeader.iNodeUsed, w.pstHeapHeader.slot j = p ∧ w.pstHeapHeader.index p = j
      ∧ OrderedBut w.pstHeapHeader.iNodeUsed (w.rearmed p t).key j
      ∧ (w.rearmed p t).timeout p = w.deadline t
      ∧ (j ≠ 0 → (w.rearmed p t).key (parent j) = w.pstHeapHeader.key (parent j)) := by
  obtain ⟨hlt, hslot, hidx⟩ := hw.toBacked.slot_index hp
  refine ⟨_, hlt, hslot, hidx, rearmed_orderedBut hw hp, ?_, fun h0 => ?_⟩
  · rw [timeout_rearmed, Function.update_self]
  · have hpar := parent_lt h0
    refine key_rearmed (fun hpj => ?_)
    exact hpar.ne (hw.toBacked.slot_inj (hpar.trans hlt) hlt (hpj.trans hslot.symm))

/-- The erase of a node that has been moved before its parent takes away the
parent. -/
theorem removed_of_displaced (hw : WellFormed nodes w.pstHeapHeader)
    (hp : p ∈ w.pstHeapHeader.held) (hbad : w.Displaced p t) :
    Removed (w.pstHeapHeader.slot (parent (w.pstHeapHeader.iNodeUsed - 1))) (w.rearmed p t)
      (minheapErase (w.rearmed p t) p).2 := by
  obtain ⟨j, hlt, hslot, hidx, hord, hown, hpkey⟩ := slot_rearmed (t := t) hw hp
  obtain ⟨hpos, hlast, hearly⟩ := hbad
  have hle : w.pstHeapHeader.iNodeUsed ≤ w.pstHeapHeader.iNodeCapacity := hw.used_le
  have hj : w.pstHeapHeader.iNodeUsed - 1 = j := by omega
  have h0 : j ≠ 0 := by omega
  rw [hj] at hearly ⊢
  exact minheapErase_last (h := w.rearmed p t) hle
    (by show w.pstHeapHeader.iNodeUsed = j + 1; omega) hslot (by rw [index_rearmed, hidx]) hord h0
    (by rw [hown, hpkey h0]; exact hearly)

/-- Any other erase takes away the node. -/
theorem removed_of_not_displaced (hw : WellFormed nodes w.pstHeapHeader)
    (hp : p ∈ w.pstHeapHeader.held) (hok : ¬ w.Displaced p t) :
    Removed p (w.rearmed p t) (minheapErase (w.rearmed p t) p).2 := by
  obtain ⟨j, hlt, hslot, hidx, hord, hown, hpkey⟩ := slot_rearmed (t := t) hw hp
  have hidx' : (w.rearmed p t).index p = j := by rw [index_rearmed, hidx]
  obtain ⟨h, herase, hrem⟩ := minheapErase_array (h := w.rearmed p t) hw.used_le hlt hslot hidx'
    hord (by
      intro hshift hlast
      obtain ⟨h0, hkey⟩ := (minheapEraseShiftsUp_iff hidx').mp hshift
      have hused : w.pstHeapHeader.iNodeUsed - 1 = j := hlast.symm
      have hself : (w.rearmed p t).key j = w.deadline t := by
        show (w.rearmed p t).timeout (w.pstHeapHeader.slot j) = _
        rw [hslot, hown]
      have hearly : (w.rearmed p t).key (w.pstHeapHeader.iNodeUsed - 1)
        < (w.rearmed p t).key (parent j) := hkey
      rw [hused, hpkey h0, hself] at hearly
      exact hok ⟨by omega, by omega, by rw [hused]; exact hearly⟩)
  rw [herase]
  exact hrem

/-- After the erase the push finds room, whatever `realloc` does. -/
theorem added_of_removed {q : NodePtr} {h : MinHeap} (hw : WellFormed nodes w.pstHeapHeader)
    (hrem : Removed q (w.rearmed p t) h) (realloc : Bool) :
    ∃ h', minHeapPush h p realloc = (Ret.succ, h') ∧ Added p h h' := by
  have hle : w.pstHeapHeader.iNodeUsed ≤ w.pstHeapHeader.iNodeCapacity := hw.used_le
  have hused : h.iNodeUsed + 1 = w.pstHeapHeader.iNodeUsed := hrem.used
  have hcap : h.iNodeCapacity = w.pstHeapHeader.iNodeCapacity := hrem.cap
  obtain ⟨-, -, hfull⟩ | ⟨-, hpush⟩ := minHeapPush_array hrem.order (by omega) p realloc
  · omega
  · exact hpush

/-- A timer in the heap is registered again exactly if it is not in the last slot
with a deadline earlier than its parent's. -/
theorem registers_held_iff (hw : WellFormed nodes w.pstHeapHeader)
    (hp : p ∈ w.pstHeapHeader.held) :
    w.Registers p t (registerTimerOutEvent w p t realloc).pstHeapHeader
      ↔ (0 < w.pstHeapHeader.index p →
        w.pstHeapHeader.index p = w.pstHeapHeader.iNodeUsed - 1 →
        w.pstHeapHeader.key (parent (w.pstHeapHeader.iNodeUsed - 1)) ≤ w.deadline t) := by
  rw [pstHeapHeader_registerTimerOutEvent]
  by_cases hbad : w.Displaced p t
  · -- the node goes up and stays, and its parent is lost
    have hrem := removed_of_displaced hw hp hbad
    obtain ⟨h', hpush, hadd⟩ := added_of_removed hw hrem realloc
    obtain ⟨hpos, hlast, hearly⟩ := hbad
    rw [hpush]
    refine ⟨fun hreg => ?_, fun hlate => absurd (hlate hpos hlast) (not_le.mpr hearly)⟩
    have hsame : (minheapErase (w.rearmed p t) p).2.entries = w.pstHeapHeader.entries.erase p :=
      (Multiset.cons_inj_right p).mp (hadd.entries.symm.trans hreg.entries)
    have hmem : p ∈ w.pstHeapHeader.slot (parent (w.pstHeapHeader.iNodeUsed - 1))
        ::ₘ (minheapErase (w.rearmed p t) p).2.entries := by
      rw [hrem.entries]
      exact mem_entries.mpr hp
    rcases Multiset.mem_cons.mp hmem with hpar | hmem
    · obtain ⟨hlt, hslot, hidx⟩ := hw.toBacked.slot_index hp
      have := parent_lt (show w.pstHeapHeader.iNodeUsed - 1 ≠ 0 by omega)
      have := hw.toBacked.slot_inj hlt (by omega) (hslot.trans hpar)
      omega
    · rw [hsame] at hmem
      exact absurd hmem hw.toBacked.nodup_entries.notMem_erase
  · -- any other node is taken out and put back
    have hrem := removed_of_not_displaced hw hp hbad
    obtain ⟨h', hpush, hadd⟩ := added_of_removed hw hrem realloc
    rw [hpush]
    refine ⟨fun _ hpos hlast => not_lt.mp fun hearly => hbad ⟨hpos, hlast, hearly⟩,
      fun _ => registers_of_erased hw ?_ hrem.body hadd⟩
    have hall : p ::ₘ (minheapErase (w.rearmed p t) p).2.entries = w.pstHeapHeader.entries :=
      hrem.entries
    rw [← hall, Multiset.erase_cons_head]

/-- **Registering a timer loses none, exactly if** the node finds room and is not
moved before its parent while it is in the last slot. -/
theorem registerTimerOutEvent_keeps_iff (hw : WellFormed nodes w.pstHeapHeader)
    (hp : p ∈ w.pstHeapHeader.held ∨ w.pstHeapHeader.index p = -1) :
    w.Registers p t (registerTimerOutEvent w p t realloc).pstHeapHeader
      ↔ w.Registrable p t realloc := by
  by_cases hidx : w.pstHeapHeader.index p = -1
  · rw [registers_absent_iff hw hidx]
    exact ⟨fun hroom => ⟨fun _ => hroom, fun hpos => absurd hpos (by omega)⟩,
      fun hreg => hreg.room hidx⟩
  · rw [registers_held_iff hw (hp.resolve_right hidx)]
    exact ⟨fun hlast => ⟨fun hneg => absurd hneg hidx, hlast⟩, fun hreg => hreg.last⟩

/-- A worker whose clock has been set back to second `10` after two connections
were accepted at the seconds `100` and `101`. -/
def steppedWorker : Worker :=
  { eventBaseCreate emptyTable blankEvent ⟨10, 0⟩ 3 1 with
    pstHeapHeader := heapOf [(1, 160), (2, 161)] }

theorem steppedWorker_wellFormed :
    WellFormed steppedWorker.pstHeapHeader.held steppedWorker.pstHeapHeader :=
  wellFormed_held (by decide +kernel) (by decide +kernel) (by decide +kernel)

/-- The first of the two timers, which is at the root, is registered again. -/
theorem registerTimerOutEvent_keeps_first :
    steppedWorker.Registers 1 60000
      (registerTimerOutEvent steppedWorker 1 60000 true).pstHeapHeader :=
  (registerTimerOutEvent_keeps_iff steppedWorker_wellFormed
    (Or.inl (mem_entries.mp (by decide +kernel)))).mpr
    ⟨fun _ h => absurd h (by decide), fun h => absurd h (by decide +kernel)⟩

/-- **The second of them is registered twice, and the first is lost.** -/
theorem registerTimerOutEvent_loses :
    WellFormed steppedWorker.pstHeapHeader.held steppedWorker.pstHeapHeader
      ∧ 2 ∈ steppedWorker.pstHeapHeader.held
      ∧ (registerTimerOutEvent steppedWorker 2 60000 true).pstHeapHeader.entries = {2, 2}
      ∧ ¬ steppedWorker.Registers 2 60000
        (registerTimerOutEvent steppedWorker 2 60000 true).pstHeapHeader := by
  have hentries : (registerTimerOutEvent steppedWorker 2 60000 true).pstHeapHeader.entries
      = {2, 2} := by decide +kernel
  refine ⟨steppedWorker_wellFormed, mem_entries.mp (by decide +kernel), hentries, fun hreg => ?_⟩
  have hnodup := hreg.nodup
  rw [hentries] at hnodup
  exact absurd hnodup (by decide)

/-! ## What the call returns

`RegisterTimerOutEvent` returns `RET_SUCC` whatever `MinheapErase` and
`MinHeapPush` return. -/

/-- `RegisterTimerOutEvent`, with what it returns. -/
def registerTimerOutEventResult (w : Worker) (t_pstTimeoutEvent : NodePtr) (t_uSec : ℤ)
    (realloc : Bool) : Ret × Worker :=
  (Ret.succ, registerTimerOutEvent w t_pstTimeoutEvent t_uSec realloc)

/-- **The call tells the truth**: it was successful if and only if afterwards the
node is in the heap with its index there, and if it was not, the heap holds what
it held. -/
structure TellsTruth (w : Worker) (p : NodePtr) (r : Ret × Worker) : Prop where
  succ_iff : r.1 = .succ ↔ ∃ i < r.2.pstHeapHeader.iNodeUsed,
    r.2.pstHeapHeader.slot i = p ∧ r.2.pstHeapHeader.index p = i
  fail : r.1 = .fail → r.2.pstHeapHeader.entries = w.pstHeapHeader.entries

/-- **Registering a timer tells the truth, exactly if** a node that is not in the
heap finds room there: the call does not say so where `realloc` fails. -/
theorem registerTimerOutEvent_truthful_iff (hw : WellFormed nodes w.pstHeapHeader)
    (hp : p ∈ nodes) :
    w.TellsTruth p (registerTimerOutEventResult w p t realloc)
      ↔ (w.pstHeapHeader.index p = -1 → realloc = false →
        w.pstHeapHeader.iNodeUsed < w.pstHeapHeader.iNodeCapacity) := by
  have hheap : (registerTimerOutEventResult w p t realloc).2.pstHeapHeader
      = (minHeapPush (minheapErase (w.rearmed p t) p).2 p realloc).2 := rfl
  have hplaced : ∀ h', minHeapPush (minheapErase (w.rearmed p t) p).2 p realloc = (Ret.succ, h') →
      w.TellsTruth p (registerTimerOutEventResult w p t realloc) := by
    intro h' hpush
    refine ⟨⟨fun _ => ?_, fun _ => rfl⟩,
      fun hfail => absurd hfail (by simp [registerTimerOutEventResult])⟩
    rw [hheap, hpush]
    exact minHeapPush_places hpush
  by_cases hidx : w.pstHeapHeader.index p = -1
  · have hnot : p ∉ w.pstHeapHeader.held := (hw.toBacked.index_eq_neg_one_iff hp).mp hidx
    have hw' := rearmed_wellFormed (t := t) hw hnot
    have herase : minheapErase (w.rearmed p t) p = (Ret.fail, w.rearmed p t) :=
      minheapErase_absent (by rw [index_rearmed]; exact hidx)
    rw [herase] at hheap hplaced
    obtain ⟨hpush, hfail, hfull⟩ | ⟨hroom, h', hpush, -⟩ :=
      minHeapPush_array hw'.order hw'.used_le p realloc
    · -- the push finds no room, and the node is where it was: nowhere
      refine ⟨fun htrue => ?_, fun hroom => absurd hfull (hroom hidx hfail).ne⟩
      obtain ⟨i, -, -, hi⟩ := htrue.succ_iff.mp rfl
      have hnone : (w.rearmed p t).index p = -1 := by rw [index_rearmed, hidx]
      have hsome : (w.rearmed p t).index p = i := by
        rw [hheap, hpush] at hi
        exact hi
      omega
    · exact ⟨fun _ _ => hroom, fun _ => hplaced h' hpush⟩
  · have hheld : p ∈ w.pstHeapHeader.held := by
      by_contra hnot
      exact hidx ((hw.toBacked.index_eq_neg_one_iff hp).mpr hnot)
    refine ⟨fun _ h => absurd h hidx, fun _ => ?_⟩
    by_cases hbad : w.Displaced p t
    · obtain ⟨h', hpush, -⟩ := added_of_removed hw
        (removed_of_displaced hw hheld hbad) realloc
      exact hplaced h' hpush
    · obtain ⟨h', hpush, -⟩ := added_of_removed hw
        (removed_of_not_displaced hw hheld hbad) realloc
      exact hplaced h' hpush

/-- The call for a timer that is in the heap tells the truth, even if `realloc`
were to fail. -/
theorem registerTimerOutEvent_truthful_first :
    steppedWorker.TellsTruth 1 (registerTimerOutEventResult steppedWorker 1 60000 false) :=
  (registerTimerOutEvent_truthful_iff steppedWorker_wellFormed
    (mem_entries.mp (by decide +kernel))).mpr (fun h => absurd h (by decide +kernel))

/-- **The first timer of a worker is not registered** where `realloc` fails, and
the call says that it is. -/
theorem registerTimerOutEvent_not_truthful :
    ¬ ∀ (w : Worker) (nodes : Set NodePtr) (p : NodePtr) (t : ℤ) (realloc : Bool),
      WellFormed nodes w.pstHeapHeader → p ∈ nodes →
      w.TellsTruth p (registerTimerOutEventResult w p t realloc) := by
  intro h
  obtain ⟨i, hi, -⟩ := (h (eventBaseCreate emptyTable blankEvent ⟨10, 0⟩ 3 1) Set.univ 1 60000
    false (minheapCreate_wellFormed (fun _ _ => rfl)) (Set.mem_univ 1)).succ_iff.mp rfl
  have hempty : (registerTimerOutEventResult (eventBaseCreate emptyTable blankEvent ⟨10, 0⟩ 3 1)
      1 60000 false).2.pstHeapHeader.iNodeUsed = 0 := by decide +kernel
  omega

end Worker
