import TcpFrame.MinHeapSpec
import TcpFrame.Lib.Run

/-!
# Runs of the timer heap

Whole runs of `MinHeapPush`, `MinheapPop` and `MinheapErase` from the heap
`MinheapCreate` makes. One operation keeps the representation invariant unless
it is an erase that sifts up (`MinHeapOp.step_wellFormed`), and such an erase
breaks it at once (`MinHeapOp.step_not_wellFormed`). Over a run, the invariant
therefore holds throughout exactly if no erase ever sifts up.
-/

open MinHeap

/-- The operations on the heap. A push gives its node a deadline first;
`realloc` says whether memory would be found for a larger array. -/
inductive MinHeapOp where
  | push (pstTimeoutEvent : NodePtr) (stTimeout : TimeVal) (realloc : Bool)
  | pop
  | erase (pstTimeoutEventDel : NodePtr)
  deriving DecidableEq, Repr

namespace MinHeapOp

/-- What an operation leaves of the heap. None of them stops. -/
def step (h : MinHeap) : MinHeapOp → Option MinHeap
  | push p stTimeout realloc => some (minHeapPush (h.setTimeout p stTimeout) p realloc).2
  | pop => some (minheapPop h).2
  | erase p => some (minheapErase h p).2

/-- **The calls the heap is made for**: a node is pushed only while its index
is `-1`. Any node may be erased. -/
def Admissible (h : MinHeap) : MinHeapOp → Prop
  | push p _ _ => h.index p = -1
  | _ => True

/-- **Not an erase that sifts up**, whose exit resets the wrong index. -/
def SiftsDown (h : MinHeap) : MinHeapOp → Prop
  | erase p => minheapEraseShiftsUp h p = false
  | _ => True

instance (h : MinHeap) : ∀ op, Decidable (Admissible h op)
  | push p _ _ => inferInstanceAs (Decidable (h.index p = -1))
  | pop => inferInstanceAs (Decidable True)
  | erase _ => inferInstanceAs (Decidable True)

instance (h : MinHeap) : ∀ op, Decidable (SiftsDown h op)
  | push _ _ _ => inferInstanceAs (Decidable True)
  | pop => inferInstanceAs (Decidable True)
  | erase p => inferInstanceAs (Decidable (minheapEraseShiftsUp h p = false))

variable {h h' : MinHeap} {op : MinHeapOp} {nodes : Set NodePtr}

/-- The nodes an operation is about. -/
def On (nodes : Set NodePtr) : MinHeapOp → Prop
  | push p _ _ => p ∈ nodes
  | pop => True
  | erase p => p ∈ nodes

/-- **One operation keeps the invariant**, unless it is an erase that sifts
up. -/
theorem step_wellFormed (hw : WellFormed nodes h) (hon : op.On nodes) (hadm : op.Admissible h)
    (hdown : op.SiftsDown h) (hstep : step h op = some h') : WellFormed nodes h' := by
  cases op with
  | push p stTimeout realloc =>
    obtain rfl := Option.some.inj hstep
    have hnot : p ∉ h.held := (hw.toBacked.index_eq_neg_one_iff hon).mp hadm
    have hw' : WellFormed nodes (h.setTimeout p stTimeout) := hw.setTimeout hnot
    have hidx : (h.setTimeout p stTimeout).index p = -1 := by
      rw [index_setTimeout]
      exact hadm
    rcases minHeapPush_spec hw' hon hidx realloc with ⟨hpush, -⟩ | ⟨g, hpush, hg, -⟩
    · rw [hpush]
      exact hw'
    · rw [hpush]
      exact hg
  | pop =>
    obtain rfl := Option.some.inj hstep
    by_cases h0 : h.iNodeUsed = 0
    · rw [minheapPop_empty h0]
      exact hw
    · obtain ⟨g, hpop, hg, -⟩ := minheapPop_spec hw h0
      rw [hpop]
      exact hg
  | erase p =>
    obtain rfl := Option.some.inj hstep
    by_cases hp : p ∈ h.held
    · obtain ⟨g, herase, hg, -⟩ := minheapErase_spec hw.toBacked hp hw.order.but hdown
      rw [herase]
      exact hg
    · rw [minheapErase_absent ((hw.toBacked.index_eq_neg_one_iff hon).mpr hp)]
      exact hw

/-- **An erase that sifts up breaks the invariant.** -/
theorem step_not_wellFormed (hw : WellFormed nodes h) (hon : op.On nodes)
    (hup : ¬ op.SiftsDown h) : ∃ h', step h op = some h' ∧ ¬ WellFormed nodes h' := by
  cases op with
  | push p stTimeout realloc => exact absurd trivial hup
  | pop => exact absurd trivial hup
  | erase p =>
    have hshift : minheapEraseShiftsUp h p = true := by
      rw [← Bool.not_eq_false]
      exact hup
    -- an erased node outside the heap has index `-1` and is not sifted for
    have hp : p ∈ h.held := by
      by_contra hp
      have hidx := (hw.toBacked.index_eq_neg_one_iff hon).mpr hp
      have hpos := of_decide_eq_true (Bool.and_eq_true_iff.mp hshift).1
      rw [hidx] at hpos
      exact absurd hpos (by decide)
    exact ⟨_, rfl, minheapErase_not_wellFormed hw hp hshift⟩

end MinHeapOp

/-- The heap `MinheapCreate` makes is well formed, if no node has an index
yet. -/
theorem minheapCreate_wellFormed {nodes : Set NodePtr} {event : NodePtr → TimeoutEvent}
    (hevent : ∀ p ∈ nodes, (event p).iHeapIndex = -1) :
    WellFormed nodes (minheapCreate event) where
  used_le := le_rfl
  index _ hi := absurd hi (Nat.not_lt_zero _)
  mem _ hi := absurd hi (Nat.not_lt_zero _)
  out p hp _ := hevent p hp
  order _ _ hi := absurd hi (Nat.not_lt_zero _)

/-- **The heap stays well formed over a run exactly if no erase sifts up.** -/
theorem minheap_always_wellFormed_iff {event : NodePtr → TimeoutEvent}
    (hevent : ∀ p, (event p).iHeapIndex = -1) {ops : List MinHeapOp}
    (hadm : Run.Along MinHeapOp.step MinHeapOp.Admissible (minheapCreate event) ops) :
    Run.Always MinHeapOp.step (WellFormed Set.univ) (minheapCreate event) ops
      ↔ Run.Along MinHeapOp.step MinHeapOp.SiftsDown (minheapCreate event) ops := by
  have hon : ∀ op : MinHeapOp, op.On Set.univ := by
    rintro (⟨p, t, r⟩ | _ | p) <;> trivial
  refine Run.always_iff_along (P := WellFormed Set.univ) (fun _ hw => hw) ?_ ?_
    (minheapCreate_wellFormed (fun p _ => hevent p)) hadm
  · intro h op h' hw hadm hdown hstep
    exact MinHeapOp.step_wellFormed hw (hon op) hadm hdown hstep
  · intro h op hw _ hup
    exact MinHeapOp.step_not_wellFormed hw (hon op) hup

/-- Nodes as `MinheapTimeoutEventInit` leaves them, without a callback. -/
def blankEvent : NodePtr → TimeoutEvent := fun _ =>
  { iPid := 0
    iFd := 0
    iHeapIndex := -1
    stTimeout := ⟨0, 0⟩
    stInterval := ⟨0, 0⟩
    pFunTimeoutProcCallback := none
    pstCallbackArg := none }

/-- A run on which every erase sifts down. -/
theorem minheap_always_wellFormed_sample :
    Run.Always MinHeapOp.step (WellFormed Set.univ) (minheapCreate blankEvent)
      [.push 1 ⟨5, 0⟩ true, .push 2 ⟨3, 0⟩ true, .push 3 ⟨4, 0⟩ true, .erase 1, .pop] :=
  (minheap_always_wellFormed_iff (fun _ => rfl) (by decide)).mpr (by decide)

/-- Seven pushes, with the deadlines `1, 10, 2, 11, 12, 3, 4` in this order,
and an erase of the node of deadline `11`. -/
def siftUpRun : List MinHeapOp :=
  [1, 10, 2, 11, 12, 3, 4].map (fun p => .push p ⟨p, 0⟩ true) ++ [.erase 11]

/-- **A run that loses a back-pointer.** The erase sifts the last node up to
slot `1` and then resets that node's index. -/
theorem siftUpRun_not_always_wellFormed :
    (∀ p, (blankEvent p).iHeapIndex = -1)
      ∧ Run.Along MinHeapOp.step MinHeapOp.Admissible (minheapCreate blankEvent) siftUpRun
      ∧ ¬ Run.Always MinHeapOp.step (WellFormed Set.univ) (minheapCreate blankEvent)
          siftUpRun := by
  refine ⟨fun _ => rfl, by decide +kernel, fun halways => ?_⟩
  have hread : (Run.exec MinHeapOp.step (minheapCreate blankEvent) siftUpRun).map
      (fun h => (h.iNodeUsed, h.index (h.slot 1))) = some (6, -1) := by
    decide +kernel
  obtain ⟨h, hrun, hpair⟩ := Option.map_eq_some_iff.mp hread
  obtain ⟨hused, hidx⟩ := Prod.mk.inj hpair
  have hslot := (halways.exec hrun).index 1 (by rw [hused]; decide)
  rw [hidx] at hslot
  exact absurd hslot (by decide)
