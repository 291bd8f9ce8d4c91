import TcpFrame.WorkerRearm
import Mathlib.Data.Set.Card
import Mathlib.Order.Interval.Finset.Nat

/-!
# Small heaps

`MinheapErase` goes wrong where the last node is earlier than the parent of the
erased one. A heap of up to five nodes has no such pair: a parent is the root there,
or it is the parent of the last slot too. Neither has a heap of six, as long as the
last slot has the latest deadline; and there it is where a node with the latest
deadline is pushed, since the sift up does not move it.

Timers are set for the same time from a clock that does not go back, so the one that
is registered has always the latest deadline. `MinHeap.Compact` is what can then be
said of a heap that never grows beyond six.
-/

open HeapOrder MinHeap

namespace MinHeap

variable {h : MinHeap} {p : NodePtr} {nodes : Set NodePtr}

theorem finite_held (h : MinHeap) : h.held.Finite := (Set.finite_Iio h.iNodeUsed).image h.slot

/-- A heap holds as many nodes as it counts. -/
theorem Backed.ncard_held (hb : Backed nodes h) : h.held.ncard = h.iNodeUsed := by
  have himage : h.held = h.slot '' Set.Iio h.iNodeUsed := rfl
  have hinj : Set.InjOn h.slot (Set.Iio h.iNodeUsed) :=
    fun i hi j hj hij => hb.slot_inj hi hj hij
  rw [himage, hinj.ncard_image, ← Finset.coe_Iio, Set.ncard_coe_finset, Nat.card_Iio]

/-- **At most six nodes**, and if it is six, the last one is the latest. -/
structure Compact (h : MinHeap) : Prop where
  le : h.iNodeUsed ≤ 6
  latest : h.iNodeUsed = 6 → ∀ q ∈ h.held, h.timeout q ≤ h.key (h.iNodeUsed - 1)

/-- No slot of a compact heap has a parent that is later than the last slot. -/
theorem Compact.key_parent_le (hc : h.Compact) (hw : WellFormed nodes h) {j : ℕ} (h0 : j ≠ 0)
    (hj : j < h.iNodeUsed) : h.key (parent j) ≤ h.key (h.iNodeUsed - 1) := by
  have hpar := parent_lt h0
  rcases eq_or_ne h.iNodeUsed 6 with hsix | hsix
  · exact hc.latest hsix _ ⟨parent j, hpar.trans hj, rfl⟩
  have hle := hc.le
  by_cases hroot : parent j = 0
  · rw [hroot]
    exact hw.order.root_le (by omega)
  · -- slots `3` and `4` are the only ones with another parent, and they share it
    have hsame : parent (h.iNodeUsed - 1) = parent j := by
      unfold parent at hroot ⊢
      omega
    rw [← hsame]
    exact hw.order _ (by omega) (by omega)

/-- **In a compact heap every erase sifts down.** -/
theorem Compact.not_shiftsUp (hc : h.Compact) (hw : WellFormed nodes h) (hp : p ∈ nodes) :
    minheapEraseShiftsUp h p = false := by
  by_cases hheld : p ∈ h.held
  · obtain ⟨hlt, hslot, hidx⟩ := hw.toBacked.slot_index hheld
    rw [← Bool.not_eq_true, minheapEraseShiftsUp_iff hidx]
    rintro ⟨h0, hgt⟩
    exact absurd hgt (not_lt.mpr (hc.key_parent_le hw h0 hlt))
  · exact not_shiftsUp_of_index ((hw.toBacked.index_eq_neg_one_iff hp).mpr hheld)

/-- **A node with the latest deadline is pushed to the end**, and stays there. -/
theorem minHeapPush_latest (hlate : ∀ q ∈ h.held, h.timeout q ≤ h.timeout p) :
    (minHeapPush h p true).2.iNodeUsed = h.iNodeUsed + 1
      ∧ (minHeapPush h p true).2.slot h.iNodeUsed = p := by
  unfold minHeapPush
  dsimp only
  obtain ⟨-, hbad, -⟩ | ⟨-, cap, hcap, hr⟩ := minheapReserveSize_spec h (h.iNodeUsed + 1) true
  · exact absurd hbad (by decide)
  rw [hr]
  set g : MinHeap := { h with iNodeCapacity := cap } with hg
  refine minheapShiftUpLoop_rule (h := g) (P := fun g' i => g' = g ∧ i = h.iNodeUsed)
    (Q := fun g' => g'.iNodeUsed + 1 = h.iNodeUsed + 1 ∧ g'.slot h.iNodeUsed = p) ?_ ?_
    le_rfl hcap ⟨rfl, rfl⟩
  · rintro g' i ⟨rfl, rfl⟩ h0 hlt
    have hle := hlate _ ⟨parent h.iNodeUsed, parent_lt h0, rfl⟩
    exact absurd hlt (not_lt.mpr hle)
  · rintro g' i ⟨rfl, rfl⟩ -
    refine ⟨rfl, ?_⟩
    rw [slot_place, Function.update_self]

end MinHeap

namespace Worker

variable {w : Worker} {p q : NodePtr} {t : ℤ} {nodes : Set NodePtr}

/-- With the latest deadline, an erase of the node sifts down if it did without it. -/
theorem not_shiftsUp_rearmed (hw : WellFormed nodes w.pstHeapHeader) (hp : p ∈ nodes)
    (hlate : ∀ q ∈ w.pstHeapHeader.held, w.pstHeapHeader.timeout q ≤ w.deadline t)
    (hdown : minheapEraseShiftsUp w.pstHeapHeader p = false) :
    minheapEraseShiftsUp (w.rearmed p t) p = false := by
  by_cases hheld : p ∈ w.pstHeapHeader.held
  · obtain ⟨j, hlt, hslot, hidx, -, hself, hpar⟩ := slot_rearmed (t := t) hw hheld
    have hidx' : (w.rearmed p t).index p = j := by
      rw [index_rearmed]
      exact hidx
    rw [← Bool.not_eq_true, minheapEraseShiftsUp_iff hidx']
    rintro ⟨h0, hgt⟩
    rw [hpar h0] at hgt
    have hheldpar : w.pstHeapHeader.slot (parent j) ∈ w.pstHeapHeader.held :=
      ⟨parent j, (parent_lt h0).trans hlt, rfl⟩
    by_cases hlast : w.pstHeapHeader.slot (w.pstHeapHeader.iNodeUsed - 1) = p
    · have hkey : (w.rearmed p t).key ((w.rearmed p t).iNodeUsed - 1) = w.deadline t := by
        show (w.rearmed p t).timeout (w.pstHeapHeader.slot (w.pstHeapHeader.iNodeUsed - 1)) = _
        rw [hlast, hself]
      rw [hkey] at hgt
      exact absurd hgt (not_lt.mpr (hlate _ hheldpar))
    · rw [show (w.rearmed p t).iNodeUsed = w.pstHeapHeader.iNodeUsed from rfl,
        key_rearmed hlast] at hgt
      exact absurd hgt (not_lt.mpr (le_of_not_shiftsUp hidx hdown h0))
  · refine not_shiftsUp_of_index ?_
    rw [index_rearmed]
    exact (hw.toBacked.index_eq_neg_one_iff hp).mpr hheld

/-- **A registration with the latest deadline leaves it in the last slot.** -/
theorem registerTimerOutEvent_latest
    (hlate : ∀ q ∈ w.pstHeapHeader.held, w.pstHeapHeader.timeout q ≤ w.deadline t)
    (hq : q ∈ (registerTimerOutEvent w p t true).pstHeapHeader.held) :
    (registerTimerOutEvent w p t true).pstHeapHeader.timeout q
      ≤ (registerTimerOutEvent w p t true).pstHeapHeader.key
        ((registerTimerOutEvent w p t true).pstHeapHeader.iNodeUsed - 1) := by
  rw [pstHeapHeader_registerTimerOutEvent] at hq ⊢
  have hfewer := minheapErase_fewer (w.rearmed p t) p
  set g := (minheapErase (w.rearmed p t) p).2
  have htimeout : g.timeout = Function.update w.pstHeapHeader.timeout p (w.deadline t) :=
    (timeout_of_body hfewer.body).trans timeout_rearmed
  have hself : g.timeout p = w.deadline t := by
    rw [htimeout, Function.update_self]
  have hle : ∀ r ∈ g.held, g.timeout r ≤ w.deadline t := by
    intro r hr
    by_cases hrp : r = p
    · rw [hrp, hself]
    · rw [htimeout, Function.update_of_ne hrp]
      exact hlate r (hfewer.held hr)
  obtain ⟨hused, hslot⟩ := minHeapPush_latest (fun r hr => (hle r hr).trans hself.ge)
  obtain ⟨hheld, hbody⟩ := minHeapPush_within g p true
  have hkey : (minHeapPush g p true).2.key ((minHeapPush g p true).2.iNodeUsed - 1)
      = w.deadline t := by
    show (minHeapPush g p true).2.timeout ((minHeapPush g p true).2.slot _) = _
    rw [hused, Nat.add_sub_cancel, hslot, timeout_of_body hbody, hself]
  rw [hkey, timeout_of_body hbody]
  obtain rfl | hq := hheld hq
  · exact hself.le
  · exact hle q hq

end Worker
