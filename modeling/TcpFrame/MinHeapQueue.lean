import TcpFrame.MinHeapArray
import TcpFrame.MinHeapRuns

/-!
# The timer heap as a priority queue

What the heap is for, read off its entries. An erase takes away exactly the node
it is given (`minheapErase_exact`), also in the exit that leaves a wrong index
behind. Over runs of pushes and pops from the heap `MinheapCreate` makes, a push
adds its node and a pop returns an entry of least deadline
(`minheap_priorityQueue`), so popping until `NULL` sorts what the heap holds.

A push does not look whether its node is in the heap, so a node may be pushed
twice and is then returned twice. All that is asked of the caller is to leave
the deadline of a held node alone.
-/

open HeapOrder MinHeap Slots

namespace MinHeap

variable {h h' : MinHeap} {p q : NodePtr} {nodes : Set NodePtr} {fuel : ℕ}

/-- **`MinheapErase` removes exactly the node it is given**, or fails and
changes nothing where the node says it is not in the heap. -/
theorem minheapErase_exact (hw : WellFormed nodes h) :
    (p ∈ h.held → (minheapErase h p).1 = Ret.succ
        ∧ (minheapErase h p).2.iNodeUsed + 1 = h.iNodeUsed
        ∧ (minheapErase h p).2.entries = h.entries.erase p
        ∧ Ordered (minheapErase h p).2.iNodeUsed (minheapErase h p).2.key
        ∧ (minheapErase h p).2.timeout = h.timeout)
      ∧ (h.index p = -1 → minheapErase h p = (Ret.fail, h)) := by
  refine ⟨fun hp => ?_, minheapErase_absent⟩
  obtain ⟨hlt, hslot, hidx⟩ := hw.toBacked.slot_index hp
  obtain ⟨h', herase, hrem⟩ := minheapErase_array hw.used_le hlt hslot hidx hw.order.but
    (hw.index_ne_last hp)
  rw [herase]
  refine ⟨rfl, hrem.used, ?_, hrem.order, timeout_of_body hrem.body⟩
  rw [← hrem.entries, Multiset.erase_cons_head]

/-- A heap whose nodes know their slots is well formed over what it holds. -/
theorem wellFormed_held (hcap : h.iNodeUsed ≤ h.iNodeCapacity)
    (hidx : ∀ i < h.iNodeUsed, h.index (h.slot i) = i) (hord : Ordered h.iNodeUsed h.key) :
    WellFormed h.held h where
  used_le := hcap
  index := hidx
  mem i hi := ⟨i, hi, rfl⟩
  out _ := fun ⟨i, hi, hip⟩ hne => absurd hip (hne i hi)
  order := hord

/-- The heap that pushes of nodes with a deadline each, in seconds, make of an
empty one. -/
def heapOf (nodes : List (NodePtr × ℤ)) : MinHeap :=
  nodes.foldl (fun h e => (minHeapPush (h.setTimeout e.1 ⟨e.2, 0⟩) e.1 true).2)
    (minheapCreate blankEvent)

/-- Seven nodes, each named by its deadline. -/
def sevenHeap : MinHeap :=
  heapOf [(1, 1), (10, 10), (2, 2), (11, 11), (12, 12), (3, 3), (4, 4)]

theorem sevenHeap_wellFormed : WellFormed sevenHeap.held sevenHeap :=
  wellFormed_held (by decide +kernel) (by decide +kernel) (by decide +kernel)

/-- The node of deadline `11` is erased by a sift up, and a node that was never
pushed is not erased. -/
theorem minheapErase_exact_seven :
    ((minheapErase sevenHeap 11).1 = Ret.succ
        ∧ (minheapErase sevenHeap 11).2.iNodeUsed + 1 = sevenHeap.iNodeUsed
        ∧ (minheapErase sevenHeap 11).2.entries = sevenHeap.entries.erase 11
        ∧ Ordered (minheapErase sevenHeap 11).2.iNodeUsed (minheapErase sevenHeap 11).2.key
        ∧ (minheapErase sevenHeap 11).2.timeout = sevenHeap.timeout)
      ∧ minheapErase sevenHeap 99 = (Ret.fail, sevenHeap) :=
  ⟨(minheapErase_exact sevenHeap_wellFormed).1 (mem_entries.mp (by decide +kernel)),
    (minheapErase_exact sevenHeap_wellFormed).2 (by decide +kernel)⟩

/-! ## Runs of pushes and pops -/

/-- **What pushes and pops need of the heap**: an array in order, and no access
outside it so far. -/
structure Queue (h : MinHeap) : Prop where
  order : Ordered h.iNodeUsed h.key
  used_le : h.iNodeUsed ≤ h.iNodeCapacity
  overrun : h.overrun = false

theorem Added.queue (ha : Added p h h') (hq : Queue h) : Queue h' :=
  ⟨ha.order, ha.used_le, ha.overrun.trans hq.overrun⟩

theorem Removed.queue (hr : Removed p h h') (hq : Queue h) : Queue h' := by
  have hused := hr.used
  have hle := hq.used_le
  refine ⟨hr.order, ?_, hr.overrun.trans hq.overrun⟩
  rw [hr.cap]
  omega

/-- Giving a node the deadline it has, or one that is not held any deadline,
leaves the array in order. -/
theorem Queue.setTimeout (hq : Queue h) {t : TimeVal} (hp : p ∈ h.entries → t = h.timeout p) :
    Queue (h.setTimeout p t) := by
  refine ⟨?_, hq.used_le, hq.overrun⟩
  have hkey : ∀ i < h.iNodeUsed, (h.setTimeout p t).key i = h.key i := by
    intro i hi
    show (h.setTimeout p t).timeout (h.slot i) = h.timeout (h.slot i)
    rw [timeout_setTimeout]
    by_cases hip : h.slot i = p
    · rw [hip, Function.update_self]
      exact hp (mem_entries.mpr ⟨i, hi, hip⟩)
    · rw [Function.update_of_ne hip]
  intro i hpos hi
  show (h.setTimeout p t).key (parent i) ≤ (h.setTimeout p t).key i
  rw [hkey i hi, hkey _ ((parent_lt hpos.ne').trans hi)]
  exact hq.order i hpos hi

/-- The root is an entry of least deadline. -/
theorem Queue.root (hq : Queue h) (h0 : h.iNodeUsed ≠ 0) :
    h.slot 0 ∈ h.entries ∧ ∀ q ∈ h.entries, h.timeout (h.slot 0) ≤ h.timeout q := by
  refine ⟨mem_entries.mpr ⟨0, Nat.pos_of_ne_zero h0, rfl⟩, fun q hq' => ?_⟩
  obtain ⟨i, hi, rfl⟩ := mem_entries.mp hq'
  exact hq.order.root_le hi

/-- **What a pop does** to a heap that is in order: it gives `NULL` where
nothing is held, and else takes away an entry of least deadline. -/
theorem Queue.pop (hq : Queue h) :
    h.entries = 0 ∧ minheapPop h = (none, h)
      ∨ ∃ p h', minheapPop h = (some p, h') ∧ Removed p h h' ∧ p ∈ h.entries
        ∧ ∀ q ∈ h.entries, h.timeout p ≤ h.timeout q := by
  by_cases h0 : h.iNodeUsed = 0
  · refine Or.inl ⟨?_, minheapPop_empty h0⟩
    rw [← Multiset.card_eq_zero, card_entries, h0]
  · obtain ⟨h', hpop, hrem⟩ := minheapPop_array hq.order hq.used_le h0
    exact Or.inr ⟨_, h', hpop, hrem, hq.root h0⟩

/-- Popping until `NULL`: the nodes returned, in this order, and the heap that
is left. The fuel bounds the calls. -/
def popAll : ℕ → MinHeap → List NodePtr × MinHeap
  | 0, h => ([], h)
  | fuel + 1, h =>
    match minheapPop h with
    | (none, h) => ([], h)
    | (some p, h) => ((p :: (popAll fuel h).1), (popAll fuel h).2)

/-- **Popping until `NULL` sorts what the heap holds.** -/
theorem Queue.sorts (hq : Queue h) (hfuel : h.iNodeUsed ≤ fuel) :
    (popAll fuel h).1 = h.entries
      ∧ (popAll fuel h).1.Pairwise (fun p q => h.timeout p ≤ h.timeout q)
      ∧ (popAll fuel h).2.entries = 0
      ∧ (popAll fuel h).2.overrun = false := by
  induction fuel generalizing h with
  | zero =>
    have hempty : h.entries = 0 := by
      rw [← Multiset.card_eq_zero, card_entries]
      exact Nat.le_zero.mp hfuel
    exact ⟨hempty.symm, List.Pairwise.nil, hempty, hq.overrun⟩
  | succ fuel ih =>
    rw [popAll]
    obtain ⟨hempty, hpop⟩ | ⟨p, h', hpop, hrem, -, hleast⟩ := hq.pop
    · rw [hpop]
      exact ⟨hempty.symm, List.Pairwise.nil, hempty, hq.overrun⟩
    · rw [hpop]
      have hused := hrem.used
      have htimeout : h'.timeout = h.timeout := timeout_of_body hrem.body
      obtain ⟨hall, hsorted, hend⟩ := ih (hrem.queue hq) (by omega)
      rw [htimeout] at hsorted
      refine ⟨?_, List.pairwise_cons.mpr ⟨fun q hq' => hleast q ?_, hsorted⟩, hend⟩
      · rw [← Multiset.cons_coe, hall, hrem.entries]
      · rw [← hrem.entries, ← hall]
        exact Multiset.mem_cons_of_mem hq'

end MinHeap

namespace MinHeapOp

variable {h h' : MinHeap} {op : MinHeapOp}

/-- **The calls of a priority queue**: pushes and pops, where a push leaves the
deadline of a node that is held already. -/
def QueueCall (h : MinHeap) : MinHeapOp → Prop
  | push p stTimeout _ => p ∈ h.entries → stTimeout = h.timeout p
  | pop => True
  | erase _ => False

instance (h : MinHeap) : ∀ op, Decidable (QueueCall h op)
  | push p stTimeout _ => inferInstanceAs (Decidable (p ∈ h.entries → stTimeout = h.timeout p))
  | pop => inferInstanceAs (Decidable True)
  | erase _ => inferInstanceAs (Decidable False)

/-- **What a priority queue does.** A push that fails leaves the heap alone, and
any other adds its node. A pop gives `NULL` exactly if nothing is held, and else
an entry of least deadline, which alone leaves. -/
def Queues (h : MinHeap) : MinHeapOp → Prop
  | push p stTimeout realloc =>
    let g := h.setTimeout p stTimeout
    ((minHeapPush g p realloc).1 = Ret.fail → realloc = false ∧ (minHeapPush g p realloc).2 = g)
      ∧ ((minHeapPush g p realloc).1 = Ret.succ →
        (minHeapPush g p realloc).2.entries = p ::ₘ h.entries
          ∧ (minHeapPush g p realloc).2.timeout = g.timeout)
  | pop =>
    ((minheapPop h).1 = none ↔ h.entries = 0)
      ∧ ((minheapPop h).1 = none → (minheapPop h).2 = h)
      ∧ ∀ p, (minheapPop h).1 = some p → p ∈ h.entries
        ∧ (∀ q ∈ h.entries, h.timeout p ≤ h.timeout q)
        ∧ (minheapPop h).2.entries = h.entries.erase p
        ∧ (minheapPop h).2.timeout = h.timeout
  | erase _ => True

/-- **A push or a pop does what a priority queue does**, and leaves the array in
order. -/
theorem step_queues (hq : Queue h) (hcall : op.QueueCall h) :
    op.Queues h ∧ ∀ h', step h op = some h' → Queue h' := by
  cases op with
  | push p stTimeout realloc =>
    have hg : Queue (h.setTimeout p stTimeout) := hq.setTimeout hcall
    unfold Queues step
    dsimp only
    obtain ⟨hpush, hfail, -⟩ | ⟨-, h', hpush, hadd⟩ :=
      minHeapPush_array hg.order hg.used_le p realloc
    · rw [hpush]
      refine ⟨⟨fun _ => ⟨hfail, rfl⟩, fun hsucc => absurd hsucc (by simp)⟩, fun h' hstep => ?_⟩
      rw [← Option.some.inj hstep]
      exact hg
    · rw [hpush]
      refine ⟨⟨fun hfail => absurd hfail (by simp), fun _ => ⟨hadd.entries,
        timeout_of_body hadd.body⟩⟩, fun h' hstep => ?_⟩
      rw [← Option.some.inj hstep]
      exact hadd.queue hg
  | pop =>
    unfold Queues step
    dsimp only
    obtain ⟨hempty, hpop⟩ | ⟨p, h', hpop, hrem, hmem, hleast⟩ := hq.pop
    · rw [hpop]
      refine ⟨⟨⟨fun _ => hempty, fun _ => rfl⟩, fun _ => rfl, fun p hp => absurd hp (by simp)⟩,
        fun h' hstep => ?_⟩
      rw [← Option.some.inj hstep]
      exact hq
    · rw [hpop]
      refine ⟨⟨⟨fun hnone => absurd hnone (by simp), fun hempty => ?_⟩,
        fun hnone => absurd hnone (by simp), fun q hsome => ?_⟩, fun h' hstep => ?_⟩
      · rw [hempty] at hmem
        exact absurd hmem (Multiset.notMem_zero p)
      · obtain rfl := Option.some.inj hsome
        refine ⟨hmem, hleast, ?_, timeout_of_body hrem.body⟩
        rw [← hrem.entries, Multiset.erase_cons_head]
      · rw [← Option.some.inj hstep]
        exact hrem.queue hq
  | erase p => exact absurd hcall id

end MinHeapOp

/-- **Push and pop are a priority queue**, over any run of them from an empty
heap and whatever memory `realloc` finds. No access goes past the array, and
popping until `NULL` gives what is held in the order of the deadlines, each node
as often as it was pushed. -/
theorem minheap_priorityQueue {event : NodePtr → TimeoutEvent} {ops : List MinHeapOp}
    (hcalls : Run.Along MinHeapOp.step MinHeapOp.QueueCall (minheapCreate event) ops) :
    Run.Along MinHeapOp.step MinHeapOp.Queues (minheapCreate event) ops
      ∧ Run.Always MinHeapOp.step (fun h => h.overrun = false
          ∧ ∀ fuel, h.iNodeUsed ≤ fuel →
            (popAll fuel h).1 = h.entries
              ∧ (popAll fuel h).1.Pairwise (fun p q => h.timeout p ≤ h.timeout q)
              ∧ (popAll fuel h).2.entries = 0
              ∧ (popAll fuel h).2.overrun = false) (minheapCreate event) ops := by
  have hcreate : Queue (minheapCreate event) :=
    ⟨fun _ _ hi => absurd hi (Nat.not_lt_zero _), le_rfl, rfl⟩
  have halways : Run.Always MinHeapOp.step Queue (minheapCreate event) ops :=
    Run.always_of_along (fun h op h' hq hcall => (MinHeapOp.step_queues hq hcall).2 h')
      hcreate hcalls
  refine ⟨?_, halways.mono (fun h hq => ⟨hq.overrun, fun fuel hfuel => hq.sorts hfuel⟩)⟩
  exact halways.along hcalls (fun h op hq hcall => (MinHeapOp.step_queues hq hcall).1)

/-- Three pushes, the first without memory and the last of a node that is held,
and two pops. -/
theorem minheap_priorityQueue_sample :
    Run.Along MinHeapOp.step MinHeapOp.Queues (minheapCreate blankEvent)
        [.push 2 ⟨3, 0⟩ false, .push 1 ⟨5, 0⟩ true, .push 1 ⟨5, 0⟩ true, .pop, .pop]
      ∧ Run.Always MinHeapOp.step (fun h => h.overrun = false
          ∧ ∀ fuel, h.iNodeUsed ≤ fuel →
            (popAll fuel h).1 = h.entries
              ∧ (popAll fuel h).1.Pairwise (fun p q => h.timeout p ≤ h.timeout q)
              ∧ (popAll fuel h).2.entries = 0
              ∧ (popAll fuel h).2.overrun = false) (minheapCreate blankEvent)
        [.push 2 ⟨3, 0⟩ false, .push 1 ⟨5, 0⟩ true, .push 1 ⟨5, 0⟩ true, .pop, .pop] :=
  minheap_priorityQueue (by decide +kernel)
