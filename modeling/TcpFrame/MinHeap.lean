import TcpFrame.TimeVal
import TcpFrame.Lib.HeapOrder
import Mathlib.Logic.Function.Basic

/-!
# The timer heap

The model of `min_heap.c`: a binary min-heap of pointers to timer nodes, kept
in the array `ppstTimeoutEventHeader`, where every node records its own slot in
`iHeapIndex` (`-1` outside the heap).

The state is the header together with the memory of the nodes. Slots and nodes
are total functions; `iNodeCapacity` says how many slots are allocated, and an
access to any other one is recorded in `overrun`. Counts and slot numbers are
natural numbers: a worker holds one timer per descriptor, far below the range
of `int`. The header pointer is `NULL` exactly while the capacity is `0`, and a
slot in use never holds `NULL`, so the `NULL` tests on nodes are left out, and
with them the calls to `exit` behind them.

Both sift loops run on fuel. The hole of `minheapShiftUp` strictly falls and
the hole of `minheapShiftDown` strictly rises, so the fuel they start with is
never used up before the loop ends.
-/

/-- The functions the code stores in `pFunTimeoutProcCallback`. -/
inductive TimeoutProcCallback where
  | connectionTimeoutCallback
  deriving DecidableEq, Repr

/-- `TimeoutEvent`, a node of the heap. -/
structure TimeoutEvent where
  iPid : ℤ
  iFd : ℤ
  iHeapIndex : ℤ
  stTimeout : TimeVal
  stInterval : TimeVal
  pFunTimeoutProcCallback : Option TimeoutProcCallback
  pstCallbackArg : Option ConnPtr
  deriving DecidableEq, Repr

/-- `MinHeapHeader` and the memory of the nodes it points to. -/
structure MinHeap where
  ppstTimeoutEventHeader : ℕ → NodePtr
  iNodeCapacity : ℕ
  iNodeUsed : ℕ
  /-- The memory of the timer nodes. -/
  event : NodePtr → TimeoutEvent
  /-- Whether a slot that is not allocated was read or written. -/
  overrun : Bool

namespace MinHeap

/-- The node in slot `i`. -/
def slot (h : MinHeap) (i : ℕ) : NodePtr := h.ppstTimeoutEventHeader i

/-- The slot the node `p` says it is in. -/
def index (h : MinHeap) (p : NodePtr) : ℤ := (h.event p).iHeapIndex

/-- The deadline of the node `p`. -/
def timeout (h : MinHeap) (p : NodePtr) : TimeVal := (h.event p).stTimeout

/-- The deadline of the node in slot `i`. -/
def key (h : MinHeap) (i : ℕ) : TimeVal := h.timeout (h.slot i)

/-- Everything a node holds but its slot. -/
def body (h : MinHeap) (p : NodePtr) : TimeoutEvent := { h.event p with iHeapIndex := -1 }

/-- Record an access to slot `i`, made only if `b`. -/
def accessIf (h : MinHeap) (b : Bool) (i : ℤ) : MinHeap :=
  { h with overrun := h.overrun || (b && !(decide (0 ≤ i) && decide (i < h.iNodeCapacity))) }

/-- Record an access to slot `i`. -/
def access (h : MinHeap) (i : ℤ) : MinHeap := h.accessIf true i

/-- `p->iHeapIndex = i`. -/
def setIndex (h : MinHeap) (p : NodePtr) (i : ℤ) : MinHeap :=
  { h with event := Function.update h.event p { h.event p with iHeapIndex := i } }

/-- `p->stInterval = t`. -/
def setInterval (h : MinHeap) (p : NodePtr) (t : TimeVal) : MinHeap :=
  { h with event := Function.update h.event p { h.event p with stInterval := t } }

/-- `p->stTimeout = t`. -/
def setTimeout (h : MinHeap) (p : NodePtr) (t : TimeVal) : MinHeap :=
  { h with event := Function.update h.event p { h.event p with stTimeout := t } }

/-- `array[i] = p; array[i]->iHeapIndex = i`, the two statements every move
of a node is made of. -/
def place (h : MinHeap) (i : ℕ) (p : NodePtr) : MinHeap :=
  setIndex { h.access i with
    ppstTimeoutEventHeader := Function.update h.ppstTimeoutEventHeader i p } p i

end MinHeap

/-- `MinheapCreate`, over any memory of nodes. -/
def minheapCreate (event : NodePtr → TimeoutEvent) : MinHeap where
  ppstTimeoutEventHeader := fun _ => 0
  iNodeCapacity := 0
  iNodeUsed := 0
  event := event
  overrun := false

/-- `MinheapTimeoutEventInit`. The deadline and the interval are left as they
are. -/
def minheapTimeoutEventInit (h : MinHeap) (p : NodePtr)
    (pfTimeoutProcCallback : Option TimeoutProcCallback) (pArgCallback : Option ConnPtr)
    (iPid iFd : ℤ) : MinHeap :=
  let stEvent := { h.event p with
    iHeapIndex := -1
    pFunTimeoutProcCallback := pfTimeoutProcCallback
    pstCallbackArg := pArgCallback
    iFd := iFd
    iPid := iPid }
  { h with event := Function.update h.event p stEvent }

/-- `__MinheapNodeCmpGreater`. -/
def minheapNodeCmpGreater (h : MinHeap) (first second : NodePtr) : Bool :=
  minheapTimercmp (fun x y => decide (x > y)) (h.timeout first) (h.timeout second)

/-- `MinheapGetTopElement`. -/
def minheapGetTopElement (h : MinHeap) : Option NodePtr :=
  if h.iNodeCapacity = 0 then none
  else if h.iNodeUsed ≠ 0 then some (h.slot 0) else none

/-- `MinheapReserveSize`. `realloc` says whether the call to `realloc`
succeeds, should it be made. -/
def minheapReserveSize (h : MinHeap) (iCurrentSize : ℕ) (realloc : Bool) : Ret × MinHeap :=
  if iCurrentSize ≤ h.iNodeCapacity then (Ret.succ, h)
  else
    let iNewSize := if h.iNodeCapacity ≠ 0 then h.iNodeCapacity * 2 else minheapInitSize
    let iNewSize := if iNewSize < iCurrentSize then iCurrentSize else iNewSize
    if realloc then (Ret.succ, { h with iNodeCapacity := iNewSize })
    else (Ret.fail, h)

/-- The loop of `__MinheapShiftUp`. -/
def minheapShiftUpLoop (pstTimeoutEvent : NodePtr) : ℕ → MinHeap → ℕ → MinHeap
  | 0, h, uHoleIndex => h.place uHoleIndex pstTimeoutEvent
  | fuel + 1, h, uHoleIndex =>
    if uHoleIndex = 0 then h.place uHoleIndex pstTimeoutEvent
    else
      let uParentIndex := HeapOrder.parent uHoleIndex
      let h := h.access uParentIndex
      if minheapNodeCmpGreater h (h.slot uParentIndex) pstTimeoutEvent then
        minheapShiftUpLoop pstTimeoutEvent fuel
          (h.place uHoleIndex (h.slot uParentIndex)) uParentIndex
      else h.place uHoleIndex pstTimeoutEvent

/-- `__MinheapShiftUp`. -/
def minheapShiftUp (h : MinHeap) (uHoleIndex : ℕ) (pstTimeoutEvent : NodePtr) : MinHeap :=
  minheapShiftUpLoop pstTimeoutEvent uHoleIndex h uHoleIndex

/-- The child `__MinheapShiftDown` compares with: the right one, unless it is
one past the last slot or greater than the left one. -/
def minheapMinChild (h : MinHeap) (uHoleIndex : ℕ) : ℕ :=
  let uMinChildIndex := 2 * (uHoleIndex + 1)
  if uMinChildIndex = h.iNodeUsed then uMinChildIndex - 1
  else if minheapNodeCmpGreater h (h.slot uMinChildIndex) (h.slot (uMinChildIndex - 1)) then
    uMinChildIndex - 1
  else uMinChildIndex

/-- The loop of `__MinheapShiftDown`. It runs while `iNodeUsed` still counts
the old last slot. -/
def minheapShiftDownLoop (pstTimeoutEvent : NodePtr) : ℕ → MinHeap → ℕ → MinHeap
  | 0, h, uHoleIndex => h.place uHoleIndex pstTimeoutEvent
  | fuel + 1, h, uHoleIndex =>
    if 2 * (uHoleIndex + 1) ≤ h.iNodeUsed then
      let bBoth := decide (2 * (uHoleIndex + 1) ≠ h.iNodeUsed)
      let h := (h.accessIf bBoth (2 * (uHoleIndex + 1))).accessIf bBoth (2 * uHoleIndex + 1)
      let uMinChildIndex := minheapMinChild h uHoleIndex
      let h := h.access uMinChildIndex
      if !minheapNodeCmpGreater h pstTimeoutEvent (h.slot uMinChildIndex) then
        h.place uHoleIndex pstTimeoutEvent
      else if minheapNodeCmpGreater h (h.slot uMinChildIndex) pstTimeoutEvent then
        h.place uHoleIndex pstTimeoutEvent
      else
        minheapShiftDownLoop pstTimeoutEvent fuel
          (h.place uHoleIndex (h.slot uMinChildIndex)) uMinChildIndex
    else h.place uHoleIndex pstTimeoutEvent

/-- `__MinheapShiftDown`. -/
def minheapShiftDown (h : MinHeap) (uHoleIndex : ℕ) (pstTimeoutEvent : NodePtr) : MinHeap :=
  minheapShiftDownLoop pstTimeoutEvent h.iNodeUsed h uHoleIndex

/-- `MinHeapPush`. -/
def minHeapPush (h : MinHeap) (pstTimeoutEvent : NodePtr) (realloc : Bool) : Ret × MinHeap :=
  let iNewSize := h.iNodeUsed + 1
  match minheapReserveSize h iNewSize realloc with
  | (Ret.fail, h) => (Ret.fail, h)
  | (Ret.succ, h) =>
    let h := minheapShiftUp h h.iNodeUsed pstTimeoutEvent
    (Ret.succ, { h with iNodeUsed := h.iNodeUsed + 1 })

/-- `MinheapPop`. -/
def minheapPop (h : MinHeap) : Option NodePtr × MinHeap :=
  if h.iNodeUsed ≠ 0 then
    let h := (h.access 0).access (h.iNodeUsed - 1)
    let pstTimeoutEventTop := h.slot 0
    let pstTimeoutEventLast := h.slot (h.iNodeUsed - 1)
    let h := minheapShiftDown h 0 pstTimeoutEventLast
    let h := { h with iNodeUsed := h.iNodeUsed - 1 }
    (some pstTimeoutEventTop, h.setIndex pstTimeoutEventTop (-1))
  else (none, h)

/-- **The test `MinheapErase` chooses its sift by**: the erased node is not
the root, and its parent is greater than the last node. -/
def minheapEraseShiftsUp (h : MinHeap) (pstTimeoutEventDel : NodePtr) : Bool :=
  decide (h.index pstTimeoutEventDel > 0) &&
    minheapNodeCmpGreater h (h.slot (HeapOrder.parent (h.index pstTimeoutEventDel).toNat))
      (h.slot (h.iNodeUsed - 1))

/-- `MinheapErase`. After the sift up it is the *last* node whose index the
code resets, and not the node it erases. -/
def minheapErase (h : MinHeap) (pstTimeoutEventDel : NodePtr) : Ret × MinHeap :=
  let iHeapIndex := h.index pstTimeoutEventDel
  if iHeapIndex ≠ -1 then
    let h := h.access (h.iNodeUsed - 1)
    let pstTimeoutEventLast := h.slot (h.iNodeUsed - 1)
    let uHoleIndex := iHeapIndex.toNat
    let h := h.accessIf (iHeapIndex > 0) (HeapOrder.parent uHoleIndex)
    if minheapEraseShiftsUp h pstTimeoutEventDel then
      let h := minheapShiftUp h uHoleIndex pstTimeoutEventLast
      let h := { h with iNodeUsed := h.iNodeUsed - 1 }
      (Ret.succ, h.setIndex pstTimeoutEventLast (-1))
    else
      let h := minheapShiftDown h uHoleIndex pstTimeoutEventLast
      let h := { h with iNodeUsed := h.iNodeUsed - 1 }
      (Ret.succ, h.setIndex pstTimeoutEventDel (-1))
  else (Ret.fail, h)
