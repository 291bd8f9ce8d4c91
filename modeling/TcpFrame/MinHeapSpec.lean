import TcpFrame.MinHeap
import Mathlib.Data.Set.Insert
import Mathlib.Order.BooleanAlgebra.Set

/-!
# What the heap operations do

The abstract reading of the timer heap is a set of held nodes, each with a
deadline. `MinHeap.WellFormed` is the representation invariant that makes the
array such a set, and each operation is described on the set alone: a push adds
its node (`minHeapPush_spec`), a pop removes a node of least deadline
(`minheapPop_spec`), and an erase that sifts down removes the given node
(`minheapErase_spec`). An erase that sifts up breaks the invariant at once
(`minheapErase_not_wellFormed`): it resets the index of the last node, which
stays in the array.

The sifts are described once, for any hole and any set of nodes around it: from
`MinHeap.Sifting` and order around the hole they lead to `MinHeap.Sifted`. The
order part is `HeapOrder`; what is added here is the back-pointers.
-/

open HeapOrder

namespace MinHeap

variable {h h' h'' : MinHeap} {p q e : NodePtr} {b : Bool} {i j n hole fuel : ℕ}
  {nodes S : Set NodePtr} {P : MinHeap → ℕ → Prop} {Q : MinHeap → Prop}

/-! ## Reading a changed heap -/

@[simp] theorem slot_place : (h.place i p).slot = Function.update h.slot i p := rfl

@[simp] theorem used_place : (h.place i p).iNodeUsed = h.iNodeUsed := rfl

@[simp] theorem cap_place : (h.place i p).iNodeCapacity = h.iNodeCapacity := rfl

theorem index_setIndex (a : ℤ) :
    (h.setIndex p a).index = Function.update h.index p a := by
  funext q
  show (Function.update h.event p _ q).iHeapIndex = _
  by_cases hq : q = p
  · rw [hq, Function.update_self, Function.update_self]
  · rw [Function.update_of_ne hq, Function.update_of_ne hq]
    rfl

theorem index_place : (h.place i p).index = Function.update h.index p (i : ℤ) :=
  index_setIndex (h := { h.access i with
    ppstTimeoutEventHeader := Function.update h.ppstTimeoutEventHeader i p }) i

@[simp] theorem body_setIndex (a : ℤ) : (h.setIndex p a).body = h.body := by
  funext q
  show ({ Function.update h.event p _ q with iHeapIndex := -1 } : TimeoutEvent) = _
  by_cases hq : q = p
  · rw [hq, Function.update_self]
    rfl
  · rw [Function.update_of_ne hq]
    rfl

@[simp] theorem body_place : (h.place i p).body = h.body :=
  body_setIndex (h := { h.access i with
    ppstTimeoutEventHeader := Function.update h.ppstTimeoutEventHeader i p }) i

/-- The deadlines are part of the bodies. -/
theorem timeout_of_body (hb : h'.body = h.body) : h'.timeout = h.timeout :=
  funext fun q => by
    have hq : (h'.body q).stTimeout = (h.body q).stTimeout := by rw [hb]
    exact hq

@[simp] theorem timeout_place : (h.place i p).timeout = h.timeout :=
  timeout_of_body body_place

theorem key_place : (h.place i p).key = Function.update h.key i (h.timeout p) := by
  funext j
  show (h.place i p).timeout ((h.place i p).slot j) = _
  rw [timeout_place, slot_place]
  by_cases hj : j = i
  · rw [hj, Function.update_self, Function.update_self]
  · rw [Function.update_of_ne hj, Function.update_of_ne hj]
    rfl

theorem event_setIndex_of_ne (a : ℤ) (hq : q ≠ p) : (h.setIndex p a).event q = h.event q :=
  Function.update_of_ne hq _ _

@[simp] theorem slot_setTimeout (t : TimeVal) : (h.setTimeout p t).slot = h.slot := rfl

@[simp] theorem index_setTimeout (t : TimeVal) : (h.setTimeout p t).index = h.index := by
  funext q
  show (Function.update h.event p _ q).iHeapIndex = _
  by_cases hq : q = p
  · rw [hq, Function.update_self]
    rfl
  · rw [Function.update_of_ne hq]
    rfl

theorem timeout_setTimeout (t : TimeVal) :
    (h.setTimeout p t).timeout = Function.update h.timeout p t := by
  funext q
  show (Function.update h.event p _ q).stTimeout = _
  by_cases hq : q = p
  · rw [hq, Function.update_self, Function.update_self]
  · rw [Function.update_of_ne hq, Function.update_of_ne hq]
    rfl

@[simp] theorem minheapNodeCmpGreater_iff :
    minheapNodeCmpGreater h p q = true ↔ h.timeout q < h.timeout p :=
  minheapTimercmp_gt

/-- An access to a slot that is allocated leaves no mark. -/
theorem accessIf_of_lt {a : ℤ} (h0 : 0 ≤ a) (hcap : a < h.iNodeCapacity) :
    h.accessIf b a = h := by
  unfold accessIf
  rw [decide_eq_true h0, decide_eq_true hcap, Bool.and_self, Bool.not_true, Bool.and_false,
    Bool.or_false]

theorem accessIf_false (a : ℤ) : h.accessIf false a = h := by
  unfold accessIf
  rw [Bool.false_and, Bool.or_false]

theorem access_of_lt {a : ℤ} (h0 : 0 ≤ a) (hcap : a < h.iNodeCapacity) : h.access a = h :=
  accessIf_of_lt h0 hcap

/-! ## The representation invariant -/

/-- **The nodes the heap holds.** -/
def held (h : MinHeap) : Set NodePtr := { p | ∃ i < h.iNodeUsed, h.slot i = p }

/-- **The back-pointers are right**: the array is large enough, a node in the
array knows its slot, and a node of `nodes` outside it has index `-1`. -/
structure Backed (nodes : Set NodePtr) (h : MinHeap) : Prop where
  used_le : h.iNodeUsed ≤ h.iNodeCapacity
  index : ∀ i < h.iNodeUsed, h.index (h.slot i) = i
  mem : ∀ i < h.iNodeUsed, h.slot i ∈ nodes
  out : ∀ p ∈ nodes, (∀ i < h.iNodeUsed, h.slot i ≠ p) → h.index p = -1

/-- **A well-formed heap** over the nodes `nodes`: the back-pointers are right
and no deadline is earlier than the one at the parent slot. -/
structure WellFormed (nodes : Set NodePtr) (h : MinHeap) : Prop extends Backed nodes h where
  order : Ordered h.iNodeUsed h.key

/-- No node is in two slots. -/
theorem Backed.slot_inj (hb : Backed nodes h) (hi : i < h.iNodeUsed) (hj : j < h.iNodeUsed)
    (hij : h.slot i = h.slot j) : i = j := by
  have hi' := hb.index i hi
  have hj' := hb.index j hj
  rw [hij] at hi'
  omega

theorem Backed.held_subset (hb : Backed nodes h) : h.held ⊆ nodes := by
  rintro p ⟨i, hi, rfl⟩
  exact hb.mem i hi

/-- A node of `nodes` is in the heap exactly if its index is not `-1`. -/
theorem Backed.index_eq_neg_one_iff (hb : Backed nodes h) (hp : p ∈ nodes) :
    h.index p = -1 ↔ p ∉ h.held := by
  constructor
  · rintro hidx ⟨i, hi, rfl⟩
    have := hb.index i hi
    omega
  · intro hheld
    exact hb.out p hp (fun i hi hip => hheld ⟨i, hi, hip⟩)

/-- A held node is in the slot it says. -/
theorem Backed.slot_index (hb : Backed nodes h) (hp : p ∈ h.held) :
    (h.index p).toNat < h.iNodeUsed ∧ h.slot (h.index p).toNat = p
      ∧ h.index p = ((h.index p).toNat : ℤ) := by
  obtain ⟨i, hi, rfl⟩ := hp
  have hidx := hb.index i hi
  rw [hidx]
  exact ⟨hi, rfl, rfl⟩

theorem Backed.setTimeout (hb : Backed nodes h) (t : TimeVal) :
    Backed nodes (h.setTimeout p t) where
  used_le := hb.used_le
  index i hi := by
    rw [index_setTimeout, slot_setTimeout]
    exact hb.index i hi
  mem := hb.mem
  out q hq hne := by
    rw [index_setTimeout]
    exact hb.out q hq hne

/-- The deadline of a node outside the heap is free. -/
theorem WellFormed.setTimeout (hw : WellFormed nodes h) {t : TimeVal} (hp : p ∉ h.held) :
    WellFormed nodes (h.setTimeout p t) where
  toBacked := hw.toBacked.setTimeout t
  order := by
    have hkey : ∀ i < h.iNodeUsed, (h.setTimeout p t).key i = h.key i := by
      intro i hi
      show (h.setTimeout p t).timeout (h.slot i) = h.timeout (h.slot i)
      rw [timeout_setTimeout, Function.update_of_ne (fun hip => hp ⟨i, hi, hip⟩)]
    intro i hpos hi
    show (h.setTimeout p t).key (parent i) ≤ (h.setTimeout p t).key i
    rw [hkey i hi, hkey _ ((parent_lt hpos.ne').trans hi)]
    exact hw.order i hpos hi

/-! ## A heap with a hole -/

/-- **While a sift runs**, the first `n` slots but the hole hold the nodes of
`S` other than `e`, with right indices. -/
structure Sifting (h : MinHeap) (n hole : ℕ) (e : NodePtr) (S : Set NodePtr) : Prop where
  index : ∀ i < n, i ≠ hole → h.index (h.slot i) = i
  mem : ∀ i < n, i ≠ hole → h.slot i ∈ S ∧ h.slot i ≠ e
  cover : ∀ p ∈ S, p ≠ e → ∃ i < n, i ≠ hole ∧ h.slot i = p
  self : e ∈ S

/-- **When a sift is over**, the first `n` slots hold the nodes of `S`, with
right indices and in heap order. -/
structure Sifted (h : MinHeap) (n : ℕ) (S : Set NodePtr) : Prop where
  index : ∀ i < n, h.index (h.slot i) = i
  mem : ∀ i < n, h.slot i ∈ S
  cover : ∀ p ∈ S, ∃ i < n, h.slot i = p
  order : Ordered n h.key

/-- What moving nodes of `S` leaves alone. -/
structure Moved (S : Set NodePtr) (h h' : MinHeap) : Prop where
  used : h'.iNodeUsed = h.iNodeUsed
  cap : h'.iNodeCapacity = h.iNodeCapacity
  body : h'.body = h.body
  frame : ∀ q ∉ S, h'.event q = h.event q

theorem Moved.refl : Moved S h h := ⟨rfl, rfl, rfl, fun _ _ => rfl⟩

theorem Moved.trans (h₁ : Moved S h h') (h₂ : Moved S h' h'') : Moved S h h'' where
  used := h₂.used.trans h₁.used
  cap := h₂.cap.trans h₁.cap
  body := h₂.body.trans h₁.body
  frame q hq := (h₂.frame q hq).trans (h₁.frame q hq)

theorem Moved.place (hp : p ∈ S) : Moved S h (h.place i p) where
  used := rfl
  cap := rfl
  body := body_place
  frame _ hq := event_setIndex_of_ne _ (fun hqp => hq (hqp ▸ hp))

/-- **The hole moves** to slot `q` when the node there fills it. -/
theorem Sifting.move (hs : Sifting h n hole e S) (hi : i < n) (hih : i ≠ hole) (hn : hole < n) :
    Sifting (h.place hole (h.slot i)) n i e S where
  index j hj hji := by
    rw [slot_place, index_place]
    by_cases hjh : j = hole
    · rw [hjh, Function.update_self, Function.update_self]
    · rw [Function.update_of_ne hjh]
      have hne : h.slot j ≠ h.slot i := by
        intro heq
        have h₁ := hs.index j hj hjh
        rw [heq, hs.index i hi hih] at h₁
        omega
      rw [Function.update_of_ne hne]
      exact hs.index j hj hjh
  mem j hj hji := by
    rw [slot_place]
    by_cases hjh : j = hole
    · rw [hjh, Function.update_self]
      exact hs.mem i hi hih
    · rw [Function.update_of_ne hjh]
      exact hs.mem j hj hjh
  cover p hp hpe := by
    obtain ⟨j, hj, hjh, hjp⟩ := hs.cover p hp hpe
    rw [slot_place]
    by_cases hji : j = i
    · exact ⟨hole, hn, hih.symm, by rw [Function.update_self, ← hji, hjp]⟩
    · exact ⟨j, hj, hji, by rw [Function.update_of_ne hjh, hjp]⟩
  self := hs.self

/-- **The hole is filled** with the node the sift was about. -/
theorem Sifting.fill (hs : Sifting h n hole e S) (hn : hole < n)
    (hord : OrderedBut n h.key hole)
    (hup : hole ≠ 0 → h.key (parent hole) ≤ h.timeout e)
    (hdown : ∀ c, 0 < c → c < n → parent c = hole → h.timeout e ≤ h.key c) :
    Sifted (h.place hole e) n S where
  index j hj := by
    rw [slot_place, index_place]
    by_cases hjh : j = hole
    · rw [hjh, Function.update_self, Function.update_self]
    · rw [Function.update_of_ne hjh, Function.update_of_ne (hs.mem j hj hjh).2]
      exact hs.index j hj hjh
  mem j hj := by
    rw [slot_place]
    by_cases hjh : j = hole
    · rw [hjh, Function.update_self]
      exact hs.self
    · rw [Function.update_of_ne hjh]
      exact (hs.mem j hj hjh).1
  cover p hp := by
    rw [slot_place]
    by_cases hpe : p = e
    · exact ⟨hole, hn, by rw [Function.update_self, hpe]⟩
    · obtain ⟨j, hj, hjh, hjp⟩ := hs.cover p hp hpe
      exact ⟨j, hj, by rw [Function.update_of_ne hjh, hjp]⟩
  order := by
    rw [key_place]
    exact hord.fill hup hdown

/-! ## The sifts

A sift is described by a rule: what its moves keep, and what filling the hole
then makes of it. The array has room for all slots the sift reads, so no access
leaves a mark. -/

/-- **The rule of the sift up.** What holds before, and still holds when a
greater parent has come down into the hole, leads to what the element put in a
hole without a greater parent makes of it. -/
theorem minheapShiftUpLoop_rule
    (hmove : ∀ g i, P g i → i ≠ 0 → g.timeout e < g.key (parent i) →
      P (g.place i (g.slot (parent i))) (parent i))
    (hfill : ∀ g i, P g i → (i ≠ 0 → g.key (parent i) ≤ g.timeout e) → Q (g.place i e))
    (hfuel : hole ≤ fuel) (hcap : hole < h.iNodeCapacity) (hP : P h hole) :
    Q (minheapShiftUpLoop e fuel h hole) := by
  induction fuel generalizing h hole with
  | zero => exact hfill h hole hP (fun h0 => absurd (Nat.le_zero.mp hfuel) h0)
  | succ fuel ih =>
    rw [minheapShiftUpLoop]
    by_cases h0 : hole = 0
    · rw [if_pos h0]
      exact hfill h hole hP (fun hne => absurd h0 hne)
    · have hpar := parent_lt h0
      have haccess : h.access (parent hole) = h := access_of_lt (by omega) (by omega)
      rw [if_neg h0]
      dsimp only
      rw [haccess]
      by_cases hgt : minheapNodeCmpGreater h (h.slot (parent hole)) e = true
      · rw [if_pos hgt]
        have hlt : h.timeout e < h.key (parent hole) := minheapNodeCmpGreater_iff.mp hgt
        exact ih (by omega) (by rw [cap_place]; omega) (hmove h hole hP h0 hlt)
      · rw [if_neg hgt]
        exact hfill h hole hP
          (fun _ => not_lt.mp (fun hlt => hgt (minheapNodeCmpGreater_iff.mpr hlt)))

/-- **The child the sift down compares with** is a smallest child, among all
slots the heap still counts. -/
theorem minheapMinChild_spec (hlt : 2 * (hole + 1) < h.iNodeUsed) :
    0 < minheapMinChild h hole ∧ minheapMinChild h hole < h.iNodeUsed
      ∧ parent (minheapMinChild h hole) = hole
      ∧ ∀ d, 0 < d → parent d = hole → h.key (minheapMinChild h hole) ≤ h.key d := by
  unfold minheapMinChild
  dsimp only
  rw [if_neg hlt.ne, show 2 * (hole + 1) - 1 = 2 * hole + 1 by omega,
    show 2 * (hole + 1) = 2 * hole + 2 by omega]
  by_cases hgt : minheapNodeCmpGreater h (h.slot (2 * hole + 2)) (h.slot (2 * hole + 1)) = true
  · rw [if_pos hgt]
    have hkey : h.key (2 * hole + 1) < h.key (2 * hole + 2) := minheapNodeCmpGreater_iff.mp hgt
    refine ⟨by omega, by omega, (parent_eq_iff (by omega)).mpr (Or.inl rfl), ?_⟩
    intro d hd hdh
    rcases (parent_eq_iff hd).mp hdh with rfl | rfl
    · exact le_rfl
    · exact hkey.le
  · rw [if_neg hgt]
    have hkey : h.key (2 * hole + 2) ≤ h.key (2 * hole + 1) :=
      not_lt.mp (fun hlt => hgt (minheapNodeCmpGreater_iff.mpr hlt))
    refine ⟨by omega, by omega, (parent_eq_iff (by omega)).mpr (Or.inr rfl), ?_⟩
    intro d hd hdh
    rcases (parent_eq_iff hd).mp hdh with rfl | rfl
    · exact hkey
    · exact le_rfl

/-- One past the last slot, the child compared with is the last slot. -/
theorem minheapMinChild_eq (heq : 2 * (hole + 1) = h.iNodeUsed) :
    minheapMinChild h hole = h.iNodeUsed - 1 := by
  unfold minheapMinChild
  dsimp only
  rw [if_pos heq, heq]

/-- **The rule of the sift down**, in the `n` slots that are left when the last
one is given up. That last slot still holds the moving node `e`, so a comparison
with it compares `e` with itself and ends the loop. -/
theorem minheapShiftDownLoop_rule
    (hmove : ∀ g i c, P g i → i < n → 0 < c → c < n → parent c = i →
      (∀ d, 0 < d → d < n → parent d = i → g.key c ≤ g.key d) → g.key c < g.timeout e →
      P (g.place i (g.slot c)) c)
    (hfill : ∀ g i, P g i → i < n →
      (∀ d, 0 < d → d < n → parent d = i → g.timeout e ≤ g.key d) → Q (g.place i e))
    (hfuel : h.iNodeUsed ≤ hole + fuel) (hused : h.iNodeUsed = n + 1)
    (hcap : n < h.iNodeCapacity) (hstale : h.slot n = e) (hn : hole < n) (hP : P h hole) :
    Q (minheapShiftDownLoop e fuel h hole) := by
  induction fuel generalizing h hole with
  | zero => omega
  | succ fuel ih =>
    rw [minheapShiftDownLoop]
    by_cases hchild : 2 * (hole + 1) ≤ h.iNodeUsed
    · rw [if_pos hchild]
      dsimp only
      set c := minheapMinChild h hole with hc
      have hcn : c ≤ n := by
        by_cases heq : 2 * (hole + 1) = h.iNodeUsed
        · have := minheapMinChild_eq heq
          omega
        · have := (minheapMinChild_spec (show 2 * (hole + 1) < h.iNodeUsed by omega)).2.1
          omega
      have hread : ((h.accessIf (decide (2 * (hole + 1) ≠ h.iNodeUsed)) (2 * (hole + 1))).accessIf
          (decide (2 * (hole + 1) ≠ h.iNodeUsed)) (2 * hole + 1)) = h := by
        by_cases heq : 2 * (hole + 1) = h.iNodeUsed
        · rw [decide_eq_false (not_not.mpr heq), accessIf_false, accessIf_false]
        · rw [accessIf_of_lt (h := h) (by omega) (by omega),
            accessIf_of_lt (h := h) (by omega) (by omega)]
      have hcread : h.access c = h := access_of_lt (by omega) (by omega)
      rw [hread, ← hc, hcread]
      by_cases hgt : minheapNodeCmpGreater h e (h.slot c) = true
      · -- `e` is greater than the child, which therefore is not the stale slot
        have hlt : h.key c < h.timeout e := minheapNodeCmpGreater_iff.mp hgt
        have hne : c ≠ n := by
          intro hcn
          have hkn : h.key n = h.timeout e := congrArg h.timeout hstale
          rw [hcn, hkn] at hlt
          exact lt_irrefl _ hlt
        have hboth : 2 * (hole + 1) ≠ h.iNodeUsed := by
          intro heq
          have := minheapMinChild_eq heq
          omega
        obtain ⟨hcpos, -, hcpar, hcmin⟩ :=
          minheapMinChild_spec (show 2 * (hole + 1) < h.iNodeUsed by omega)
        rw [← hc] at hcpos hcpar hcmin
        have hhc := parent_lt hcpos.ne'
        have hng : minheapNodeCmpGreater h (h.slot c) e = false := by
          rw [Bool.eq_false_iff]
          intro hgt'
          exact lt_asymm hlt (minheapNodeCmpGreater_iff.mp hgt')
        rw [hgt, hng, if_neg (by simp), if_neg (by simp)]
        refine ih (h := h.place hole (h.slot c)) (by rw [used_place]; omega) hused hcap ?_
          (by omega)
          (hmove h hole c hP hn hcpos (by omega) hcpar (fun d hd _ hdh => hcmin d hd hdh) hlt)
        rw [slot_place, Function.update_of_ne (by omega)]
        exact hstale
      · -- `e` is no greater than the smallest child
        have hfalse : minheapNodeCmpGreater h e (h.slot c) = false := by
          rw [Bool.eq_false_iff]
          exact hgt
        rw [hfalse, if_pos (by simp)]
        have hle : h.timeout e ≤ h.key c :=
          not_lt.mp (fun hlt => hgt (minheapNodeCmpGreater_iff.mpr hlt))
        refine hfill h hole hP hn (fun d hd hdn hdh => ?_)
        by_cases hne : 2 * (hole + 1) = h.iNodeUsed
        · have := (parent_eq_iff hd).mp hdh
          omega
        · exact hle.trans ((minheapMinChild_spec (h := h) (by omega)).2.2.2 d hd hdh)
    · rw [if_neg hchild]
      refine hfill h hole hP hn (fun d hd hdn hdh => ?_)
      have := (parent_eq_iff hd).mp hdh
      omega

/-- **Where the sift up may put its hole**: all is in order around it, and the
element is no greater than the children of the hole. -/
structure UpGap (h : MinHeap) (n hole : ℕ) (e : NodePtr) : Prop where
  lt : hole < n
  order : OrderedBut n h.key hole
  below : ∀ c, 0 < c → c < n → parent c = hole → h.timeout e ≤ h.key c

/-- **Where the sift down may put its hole**: all is in order around it, and the
element is no smaller than the parent of the hole. -/
structure DownGap (h : MinHeap) (n hole : ℕ) (e : NodePtr) : Prop where
  lt : hole < n
  order : OrderedBut n h.key hole
  above : hole ≠ 0 → h.key (parent hole) ≤ h.timeout e

theorem UpGap.move (hg : UpGap h n hole e) (h0 : hole ≠ 0)
    (hlt : h.timeout e < h.key (parent hole)) :
    UpGap (h.place hole (h.slot (parent hole))) n (parent hole) e := by
  have hkey : (h.place hole (h.slot (parent hole))).key
      = Function.update h.key hole (h.key (parent hole)) := key_place
  refine ⟨(parent_lt h0).trans hg.lt, ?_, ?_⟩
  · rw [hkey]
    exact hg.order.up h0 hg.lt
  · intro c hpos hc hcp
    rw [hkey, timeout_place]
    exact hg.order.le_of_up hlt.le h0 hpos hc hcp

theorem DownGap.move (hg : DownGap h n hole e) (hpos : 0 < i) (hi : i < n)
    (hpar : parent i = hole) (hmin : ∀ d, 0 < d → d < n → parent d = hole → h.key i ≤ h.key d)
    (hlt : h.key i < h.timeout e) : DownGap (h.place hole (h.slot i)) n i e := by
  have hkey : (h.place hole (h.slot i)).key = Function.update h.key hole (h.key i) := key_place
  refine ⟨hi, ?_, fun _ => ?_⟩
  · rw [hkey]
    exact hg.order.down hpos hi hpar hmin
  · rw [hkey, hpar, Function.update_self, timeout_place]
    exact hlt.le

/-- A hole after the last slot is where a push starts. -/
theorem upGap_last (hord : Ordered n h.key) : UpGap h (n + 1) n e := by
  have hchild : ∀ c, 0 < c → c < n + 1 → parent c ≠ n := by
    intro c hpos hc hch
    have := parent_lt hpos.ne'
    omega
  exact ⟨Nat.lt_succ_self n,
    ⟨fun i hpos hi hin _ => hord i hpos (by omega),
      fun _ c hpos hc hch => absurd hch (hchild c hpos hc)⟩,
    fun c hpos hc hch => absurd hch (hchild c hpos hc)⟩

/-- An element smaller than the parent of a hole may be sifted up from there. -/
theorem upGap_of_lt (hord : OrderedBut (n + 1) h.key hole) (hn : hole < n) (h0 : hole ≠ 0)
    (hlt : h.timeout e < h.key (parent hole)) : UpGap h n hole e :=
  ⟨hn, hord.anti (Nat.le_succ n), fun c hpos hc hch =>
    hlt.le.trans (hord.across h0 c hpos (Nat.lt_succ_of_lt hc) hch)⟩

/-- **The sift up** fills the hole and restores the order. -/
theorem minheapShiftUpLoop_spec (hfuel : hole ≤ fuel) (hcap : hole < h.iNodeCapacity)
    (hs : Sifting h n hole e S) (hg : UpGap h n hole e) :
    Sifted (minheapShiftUpLoop e fuel h hole) n S
      ∧ Moved S h (minheapShiftUpLoop e fuel h hole) := by
  refine minheapShiftUpLoop_rule (Q := fun g => Sifted g n S ∧ Moved S h g)
    (P := fun g i => Sifting g n i e S ∧ UpGap g n i e ∧ Moved S h g) ?_ ?_ hfuel hcap
    ⟨hs, hg, Moved.refl⟩
  · intro g i ⟨hs, hg, hmoved⟩ h0 hlt
    have hpar := parent_lt h0
    have hmem := (hs.mem _ (hpar.trans hg.lt) hpar.ne).1
    exact ⟨hs.move (hpar.trans hg.lt) hpar.ne hg.lt, hg.move h0 hlt,
      hmoved.trans (Moved.place hmem)⟩
  · intro g i ⟨hs, hg, hmoved⟩ hup
    exact ⟨hs.fill hg.lt hg.order hup hg.below, hmoved.trans (Moved.place hs.self)⟩

/-- **The sift down** fills the hole and restores the order, in the slots that
are left. -/
theorem minheapShiftDownLoop_spec (hfuel : h.iNodeUsed ≤ hole + fuel)
    (hused : h.iNodeUsed = n + 1) (hcap : n < h.iNodeCapacity) (hstale : h.slot n = e)
    (hs : Sifting h n hole e S) (hg : DownGap h n hole e) :
    Sifted (minheapShiftDownLoop e fuel h hole) n S
      ∧ Moved S h (minheapShiftDownLoop e fuel h hole) := by
  refine minheapShiftDownLoop_rule (Q := fun g => Sifted g n S ∧ Moved S h g)
    (P := fun g i => Sifting g n i e S ∧ DownGap g n i e ∧ Moved S h g) ?_ ?_ hfuel hused hcap
    hstale hg.lt ⟨hs, hg, Moved.refl⟩
  · intro g i c ⟨hs, hg, hmoved⟩ hi hpos hc hpar hmin hlt
    have hne : c ≠ i := by
      rintro rfl
      exact (parent_lt hpos.ne').ne hpar
    exact ⟨hs.move hc hne hi, hg.move hpos hc hpar hmin hlt,
      hmoved.trans (Moved.place (hs.mem c hc hne).1)⟩
  · intro g i ⟨hs, hg, hmoved⟩ _ hdown
    exact ⟨hs.fill hg.lt hg.order hg.above hdown, hmoved.trans (Moved.place hs.self)⟩

/-! ## The operations

Each operation ends with a sifted array and a new count, which is a
well-formed heap again. -/

/-- **A sifted array is a well-formed heap** once the count is set to its
length. -/
theorem Sifted.wellFormed (hs : Sifted h n S) (h' : MinHeap) (hused : h'.iNodeUsed = n)
    (hslot : h'.slot = h.slot) (htimeout : h'.timeout = h.timeout)
    (hindex : ∀ q ∈ S, h'.index q = h.index q) (hcap : n ≤ h'.iNodeCapacity)
    (hsub : S ⊆ nodes) (hout : ∀ q ∈ nodes, q ∉ S → h'.index q = -1) :
    WellFormed nodes h' ∧ h'.held = S := by
  have hkey : h'.key = h.key := by
    funext j
    show h'.timeout (h'.slot j) = h.timeout (h.slot j)
    rw [htimeout, hslot]
  have hheld : h'.held = S := by
    ext q
    constructor
    · rintro ⟨i, hi, rfl⟩
      rw [hused] at hi
      rw [hslot]
      exact hs.mem i hi
    · intro hq
      obtain ⟨i, hi, hiq⟩ := hs.cover q hq
      exact ⟨i, by rw [hused]; exact hi, by rw [hslot]; exact hiq⟩
  refine ⟨⟨⟨hused.le.trans hcap, ?_, ?_, ?_⟩, ?_⟩, hheld⟩
  · intro i hi
    rw [hused] at hi
    rw [hslot, hindex _ (hs.mem i hi)]
    exact hs.index i hi
  · intro i hi
    rw [hused] at hi
    rw [hslot]
    exact hsub (hs.mem i hi)
  · intro q hq hne
    refine hout q hq (fun hqS => ?_)
    obtain ⟨i, hi, hiq⟩ := hs.cover q hqS
    exact hne i (by rw [hused]; exact hi) (by rw [hslot]; exact hiq)
  · rw [hused, hkey]
    exact hs.order

/-- **`MinheapReserveSize`** fails only if there is no room and `realloc` fails,
and then changes nothing; otherwise only the capacity changes, and it
suffices. -/
theorem minheapReserveSize_spec (h : MinHeap) (m : ℕ) (realloc : Bool) :
    (minheapReserveSize h m realloc = (Ret.fail, h) ∧ realloc = false
        ∧ h.iNodeCapacity < m)
      ∨ (realloc = false → m ≤ h.iNodeCapacity)
        ∧ ∃ cap, m ≤ cap
          ∧ minheapReserveSize h m realloc = (Ret.succ, { h with iNodeCapacity := cap }) := by
  unfold minheapReserveSize
  by_cases hle : m ≤ h.iNodeCapacity
  · rw [if_pos hle]
    exact Or.inr ⟨fun _ => hle, h.iNodeCapacity, hle, rfl⟩
  · rw [if_neg hle]
    dsimp only
    cases realloc with
    | false => exact Or.inl ⟨rfl, rfl, not_le.mp hle⟩
    | true =>
      refine Or.inr ⟨fun h => absurd h (by decide), _, ?_, rfl⟩
      generalize (if h.iNodeCapacity ≠ 0 then h.iNodeCapacity * 2 else minheapInitSize) = a
      split
      · exact le_rfl
      · omega

/-- **Pushing a node** that is not in the heap adds it, or fails and changes
nothing. -/
theorem minHeapPush_spec (hw : WellFormed nodes h) (hp : p ∈ nodes)
    (hidx : h.index p = -1) (realloc : Bool) :
    (minHeapPush h p realloc = (Ret.fail, h) ∧ realloc = false
        ∧ h.iNodeCapacity < h.iNodeUsed + 1)
      ∨ ∃ h', minHeapPush h p realloc = (Ret.succ, h') ∧ WellFormed nodes h'
        ∧ h'.held = insert p h.held ∧ h'.body = h.body := by
  unfold minHeapPush
  dsimp only
  rcases minheapReserveSize_spec h (h.iNodeUsed + 1) realloc with
    ⟨hr, hfail⟩ | ⟨-, cap, hcap, hr⟩
  · rw [hr]
    exact Or.inl ⟨rfl, hfail⟩
  · rw [hr]
    refine Or.inr ⟨_, rfl, ?_⟩
    dsimp only
    set g : MinHeap := { h with iNodeCapacity := cap } with hg
    have hnot : p ∉ h.held := (hw.toBacked.index_eq_neg_one_iff hp).mp hidx
    have hs : Sifting g (h.iNodeUsed + 1) h.iNodeUsed p (insert p h.held) := by
      refine ⟨fun i hi hih => hw.index i (by omega), fun i hi hih => ?_, fun q hq hqp => ?_,
        Set.mem_insert _ _⟩
      · have hheld : h.slot i ∈ h.held := ⟨i, by omega, rfl⟩
        exact ⟨Or.inr hheld, fun hip => hnot (hip ▸ hheld)⟩
      · obtain ⟨i, hi, hiq⟩ := Set.mem_of_mem_insert_of_ne hq hqp
        exact ⟨i, by omega, by omega, hiq⟩
    obtain ⟨hsifted, hmoved⟩ := minheapShiftUpLoop_spec (h := g) le_rfl
      hcap hs (upGap_last hw.order)
    have hused : (minheapShiftUp g h.iNodeUsed p).iNodeUsed = h.iNodeUsed := hmoved.used
    obtain ⟨hwf, hheld⟩ := hsifted.wellFormed
      { minheapShiftUp g h.iNodeUsed p with
        iNodeUsed := (minheapShiftUp g h.iNodeUsed p).iNodeUsed + 1 }
      (by rw [hused]) rfl rfl (fun _ _ => rfl)
      (by show h.iNodeUsed + 1 ≤ (minheapShiftUp g h.iNodeUsed p).iNodeCapacity
          rw [show (minheapShiftUp g h.iNodeUsed p).iNodeCapacity = cap from hmoved.cap]
          exact hcap)
      (Set.insert_subset hp hw.toBacked.held_subset)
      (by
        intro q hq hqS
        have hevent := congrArg TimeoutEvent.iHeapIndex (hmoved.frame q hqS)
        refine hevent.trans ((hw.toBacked.index_eq_neg_one_iff hq).mpr ?_)
        exact fun hqheld => hqS (Or.inr hqheld))
    exact ⟨hwf, hheld, hmoved.body⟩

/-- Removing the node in slot `j` by sifting the last node down from there,
which is what a pop does at the root and an erase does at its node. -/
def removeDown (h : MinHeap) (j : ℕ) : MinHeap :=
  let g := minheapShiftDown h j (h.slot (h.iNodeUsed - 1))
  setIndex { g with iNodeUsed := g.iNodeUsed - 1 } (h.slot j) (-1)

theorem removeDown_eq (hn : h.iNodeUsed = n + 1) : h.removeDown j
    = setIndex { minheapShiftDown h j (h.slot n) with
        iNodeUsed := (minheapShiftDown h j (h.slot n)).iNodeUsed - 1 } (h.slot j) (-1) := by
  have hlast : h.iNodeUsed - 1 = n := by omega
  unfold removeDown
  rw [hlast]

/-- What is sifted stays, and of the removed node only the index is changed. -/
theorem body_removeDown (hn : h.iNodeUsed = n + 1) :
    (h.removeDown j).body = (minheapShiftDown h j (h.slot n)).body := by
  rw [removeDown_eq hn]
  exact body_setIndex (h := { minheapShiftDown h j (h.slot n) with
    iNodeUsed := (minheapShiftDown h j (h.slot n)).iNodeUsed - 1 }) (-1)

/-- Where the last node itself is removed, it is written back where it was. -/
theorem minheapShiftDown_last (hn : h.iNodeUsed = n + 1) :
    minheapShiftDown h n (h.slot n) = h.place n (h.slot n) := by
  unfold minheapShiftDown
  rw [hn, minheapShiftDownLoop, if_neg (by omega)]

theorem ordered_place_last (hord : OrderedBut (n + 1) h.key n) :
    Ordered n (h.place n (h.slot n)).key := by
  refine OrderedBut.ordered_of_le ?_ le_rfl
  refine (hord.anti (Nat.le_succ n)).congr (fun i _ hin => ?_)
  rw [key_place, Function.update_of_ne hin]

/-- The other slots hold the other nodes. -/
theorem Backed.slot_mem_diff (hb : Backed nodes h) (hj : j < h.iNodeUsed) (hi : i < h.iNodeUsed)
    (hij : i ≠ j) : h.slot i ∈ h.held \ {h.slot j} :=
  ⟨⟨i, hi, rfl⟩, fun hip => hij (hb.slot_inj hi hj hip)⟩

theorem exists_slot_of_mem_diff (hq : q ∈ h.held \ {h.slot j}) :
    ∃ i < h.iNodeUsed, i ≠ j ∧ h.slot i = q := by
  obtain ⟨⟨i, hi, rfl⟩, hqp⟩ := hq
  exact ⟨i, hi, fun hij => hqp (by rw [hij]; rfl), rfl⟩

/-- **What is sifted down in order** is well formed when the removed node is out. -/
theorem Backed.removeDown_of_sifted (hb : Backed nodes h) (hn : h.iNodeUsed = n + 1)
    (hsifted : Sifted (minheapShiftDown h j (h.slot n)) n (h.held \ {h.slot j}))
    (hmoved : Moved (insert (h.slot j) (h.held \ {h.slot j})) h
      (minheapShiftDown h j (h.slot n))) :
    WellFormed nodes (h.removeDown j) ∧ (h.removeDown j).held = h.held \ {h.slot j}
      ∧ (h.removeDown j).body = h.body := by
  have hrem := removeDown_eq (j := j) hn
  have hbody := body_removeDown (j := j) hn
  set g := minheapShiftDown h j (h.slot n) with hg
  set p := h.slot j with hp
  have hindex : (h.removeDown j).index = Function.update g.index p (-1) := by
    rw [hrem]
    exact index_setIndex (h := { g with iNodeUsed := g.iNodeUsed - 1 }) (-1)
  have hused : (h.removeDown j).iNodeUsed = n := by
    rw [hrem]
    show g.iNodeUsed - 1 = n
    rw [hmoved.used, hn, Nat.add_sub_cancel]
  have hcap : n ≤ (h.removeDown j).iNodeCapacity := by
    rw [hrem]
    show n ≤ g.iNodeCapacity
    rw [hmoved.cap]
    have := hb.used_le
    omega
  have hkept : ∀ q ∈ h.held \ {p}, (h.removeDown j).index q = g.index q := by
    rintro q ⟨-, hqp⟩
    rw [hindex, Function.update_of_ne hqp]
  have hout : ∀ q ∈ nodes, q ∉ h.held \ {p} → (h.removeDown j).index q = -1 := by
    intro q hq hqS
    rw [hindex]
    by_cases hqp : q = p
    · rw [hqp, Function.update_self]
    · rw [Function.update_of_ne hqp]
      have hqS' : q ∉ insert p (h.held \ {p}) :=
        fun hmem => hqS (Set.mem_of_mem_insert_of_ne hmem hqp)
      refine (congrArg TimeoutEvent.iHeapIndex (hmoved.frame q hqS')).trans
        ((hb.index_eq_neg_one_iff hq).mpr (fun hheld => hqS ⟨hheld, hqp⟩))
  obtain ⟨hwf, hheld⟩ := hsifted.wellFormed (h.removeDown j) hused (by rw [hrem]; rfl)
    (timeout_of_body hbody) hkept hcap (fun q hq => hb.held_subset hq.1) hout
  exact ⟨hwf, hheld, hbody.trans hmoved.body⟩

/-- The array without its last node is in order, as the others have not moved. -/
theorem Backed.sifted_last (hb : Backed nodes h) (hn : h.iNodeUsed = n + 1)
    (hord : OrderedBut (n + 1) h.key n) :
    Sifted (h.place n (h.slot n)) n (h.held \ {h.slot n}) := by
  have hmem : ∀ i < n, h.slot i ∈ h.held \ {h.slot n} :=
    fun i hi => hb.slot_mem_diff (by omega) (by omega) hi.ne
  have hslot : ∀ i < n, (h.place n (h.slot n)).slot i = h.slot i := by
    intro i hi
    rw [slot_place, Function.update_of_ne hi.ne]
  refine ⟨fun i hi => ?_, fun i hi => ?_, fun q hq => ?_, ordered_place_last hord⟩
  · have hne : h.slot i ≠ h.slot n := (hmem i hi).2
    rw [hslot i hi, index_place, Function.update_of_ne hne]
    exact hb.index i (by omega)
  · rw [hslot i hi]
    exact hmem i hi
  · obtain ⟨i, hi, hin, hiq⟩ := exists_slot_of_mem_diff hq
    exact ⟨i, by omega, by rw [hslot i (by omega)]; exact hiq⟩

/-- The last node can go down from a hole. -/
theorem Backed.sifting_last (hb : Backed nodes h) (hn : h.iNodeUsed = n + 1) (hjn : j < n) :
    Sifting h n j (h.slot n) (h.held \ {h.slot j}) := by
  have hj : j < h.iNodeUsed := by omega
  refine ⟨fun i hi _ => hb.index i (by omega), fun i hi hij => ?_, fun q hq hqn => ?_,
    hb.slot_mem_diff hj (by omega) hjn.ne'⟩
  · refine ⟨hb.slot_mem_diff hj (by omega) hij, fun hin => ?_⟩
    have := hb.slot_inj (by omega) (by omega) hin
    omega
  · obtain ⟨i, hi, hij, hiq⟩ := exists_slot_of_mem_diff hq
    have hin : i ≠ n := fun hin => hqn (by rw [← hiq, hin])
    exact ⟨i, by omega, hij, hiq⟩

/-- **The removed node leaves, and all others stay.** The array need not be in
order at the removed node, whose deadline may have been overwritten. -/
theorem removeDown_spec (hb : Backed nodes h) (hj : j < h.iNodeUsed)
    (hord : OrderedBut h.iNodeUsed h.key j)
    (hup : j ≠ 0 → h.key (parent j) ≤ h.key (h.iNodeUsed - 1)) :
    WellFormed nodes (h.removeDown j) ∧ (h.removeDown j).held = h.held \ {h.slot j}
      ∧ (h.removeDown j).body = h.body := by
  obtain ⟨n, hn⟩ : ∃ n, h.iNodeUsed = n + 1 := ⟨h.iNodeUsed - 1, by omega⟩
  have hlast : h.iNodeUsed - 1 = n := by omega
  rw [hlast] at hup
  obtain rfl | hjn : j = n ∨ j < n := by omega
  · rw [hn] at hord
    have hplace := minheapShiftDown_last hn
    exact hb.removeDown_of_sifted hn (hplace ▸ hb.sifted_last hn hord)
      (hplace ▸ Moved.place (Set.mem_insert _ _))
  · have hcap := hb.used_le
    obtain ⟨hsifted, hmoved⟩ := minheapShiftDownLoop_spec
      (show h.iNodeUsed ≤ j + h.iNodeUsed by omega) hn (by omega) rfl (hb.sifting_last hn hjn)
      ⟨by omega, hord.anti (by omega), hup⟩
    exact hb.removeDown_of_sifted hn hsifted ⟨hmoved.used, hmoved.cap, hmoved.body,
      fun q hq => hmoved.frame q (fun hqS => hq (Or.inr hqS))⟩

/-- A sift down leaves the number of nodes alone. -/
theorem used_minheapShiftDownLoop :
    (minheapShiftDownLoop e fuel h hole).iNodeUsed = h.iNodeUsed := by
  induction fuel generalizing h hole with
  | zero => rfl
  | succ fuel ih =>
    unfold minheapShiftDownLoop
    split
    · dsimp only
      split
      · rfl
      · split
        · rfl
        · rw [ih]
          rfl
    · rfl

/-- A pop counts one node less. -/
theorem used_minheapPop (h0 : h.iNodeUsed ≠ 0) :
    (minheapPop h).2.iNodeUsed = h.iNodeUsed - 1 := by
  unfold minheapPop minheapShiftDown
  rw [if_pos h0]
  show (minheapShiftDownLoop _ _ _ _).iNodeUsed - 1 = _
  rw [used_minheapShiftDownLoop]
  rfl

/-- The top of a heap is the node in slot `0`, if there is one. -/
theorem minheapGetTopElement_spec (hb : Backed nodes h) :
    minheapGetTopElement h = if h.iNodeUsed ≠ 0 then some (h.slot 0) else none := by
  have hle := hb.used_le
  unfold minheapGetTopElement
  by_cases hcap : h.iNodeCapacity = 0
  · rw [if_pos hcap, if_neg (by omega)]
  · rw [if_neg hcap]

/-- **Popping** an empty heap gives `NULL`. -/
theorem minheapPop_empty (h0 : h.iNodeUsed = 0) : minheapPop h = (none, h) := by
  unfold minheapPop
  rw [if_neg (not_not.mpr h0)]

/-- Popping a heap that is not empty sifts the last node down from the root. -/
theorem minheapPop_eq (hcap : h.iNodeUsed ≤ h.iNodeCapacity) (h0 : h.iNodeUsed ≠ 0) :
    minheapPop h = (some (h.slot 0), h.removeDown 0) := by
  have hread : (h.access 0).access (h.iNodeUsed - 1) = h := by
    rw [access_of_lt (h := h) le_rfl (by omega), access_of_lt (by omega) (by omega)]
  unfold minheapPop
  rw [if_pos h0]
  dsimp only
  rw [hread]
  rfl

/-- **Popping** a heap that is not empty removes a node of least deadline. -/
theorem minheapPop_spec (hw : WellFormed nodes h) (h0 : h.iNodeUsed ≠ 0) :
    ∃ h', minheapPop h = (some (h.slot 0), h') ∧ WellFormed nodes h'
      ∧ h'.held = h.held \ {h.slot 0} ∧ h'.body = h.body
      ∧ ∀ q ∈ h.held, h.timeout (h.slot 0) ≤ h.timeout q := by
  obtain ⟨hwf, hheld, hbody⟩ := removeDown_spec hw.toBacked (Nat.pos_of_ne_zero h0)
    hw.order.but (fun hne => absurd rfl hne)
  refine ⟨_, minheapPop_eq hw.used_le h0, hwf, hheld, hbody, ?_⟩
  rintro q ⟨i, hi, rfl⟩
  exact hw.order.root_le hi

/-- **Erasing a node outside the heap** fails and changes nothing. -/
theorem minheapErase_absent (hidx : h.index p = -1) : minheapErase h p = (Ret.fail, h) := by
  unfold minheapErase
  rw [if_neg (not_not.mpr hidx)]

/-- Removing the node in slot `j` by sifting the last node up from there. The
index that is reset is the one of the last node. -/
def removeUp (h : MinHeap) (j : ℕ) : MinHeap :=
  let g := minheapShiftUp h j (h.slot (h.iNodeUsed - 1))
  setIndex { g with iNodeUsed := g.iNodeUsed - 1 } (h.slot (h.iNodeUsed - 1)) (-1)

/-- **The two exits of `MinheapErase`**, for a node that is in the slot it
says. -/
theorem minheapErase_eq (hcap : h.iNodeUsed ≤ h.iNodeCapacity) (hj : j < h.iNodeUsed)
    (hslot : h.slot j = p) (hidx : h.index p = j) :
    minheapErase h p = (Ret.succ,
      if minheapEraseShiftsUp h p then h.removeUp j else h.removeDown j) := by
  have hread : (h.access (h.iNodeUsed - 1)).accessIf (h.index p > 0) (parent j) = h := by
    rw [access_of_lt (h := h) (by omega) (by omega)]
    by_cases h0 : j = 0
    · rw [hidx, h0, decide_eq_false (by decide), accessIf_false]
    · have := parent_lt h0
      rw [accessIf_of_lt (by omega) (by omega)]
  unfold minheapErase removeUp removeDown
  rw [if_pos (by rw [hidx]; omega), hidx, Int.toNat_natCast, ← hidx]
  dsimp only
  rw [hread, hslot]
  split <;> rfl

/-- Whether an erase sifts up, in terms of slots. -/
theorem minheapEraseShiftsUp_iff (hidx : h.index p = j) :
    minheapEraseShiftsUp h p = true
      ↔ j ≠ 0 ∧ h.key (h.iNodeUsed - 1) < h.key (parent j) := by
  unfold minheapEraseShiftsUp
  rw [hidx, Bool.and_eq_true, Int.toNat_natCast, minheapNodeCmpGreater_iff, decide_eq_true_iff]
  exact and_congr (by omega) Iff.rfl

/-- An erase that does not sift up may sift down. -/
theorem le_of_not_shiftsUp (hidx : h.index p = j) (hdown : minheapEraseShiftsUp h p = false)
    (h0 : j ≠ 0) : h.key (parent j) ≤ h.key (h.iNodeUsed - 1) := by
  rw [← Bool.not_eq_true, minheapEraseShiftsUp_iff hidx] at hdown
  exact not_lt.mp (fun hlt => hdown ⟨h0, hlt⟩)

/-- **Erasing a held node** removes it, where the code sifts down. The array
need not be in order at the erased node. -/
theorem minheapErase_spec (hb : Backed nodes h) (hp : p ∈ h.held)
    (hord : OrderedBut h.iNodeUsed h.key (h.index p).toNat)
    (hdown : minheapEraseShiftsUp h p = false) :
    ∃ h', minheapErase h p = (Ret.succ, h') ∧ WellFormed nodes h'
      ∧ h'.held = h.held \ {p} ∧ h'.body = h.body := by
  obtain ⟨hlt, hslot, hidx⟩ := hb.slot_index hp
  set j := (h.index p).toNat with hj
  have herase : minheapErase h p = (Ret.succ, h.removeDown j) := by
    rw [minheapErase_eq hb.used_le hlt hslot hidx, hdown]
    rfl
  obtain ⟨hwf, hheld, hbody⟩ := removeDown_spec hb hlt hord (le_of_not_shiftsUp hidx hdown)
  rw [hslot] at hheld
  exact ⟨_, herase, hwf, hheld, hbody⟩

/-- In a well-formed heap the last node is no smaller than its parent, so the
code never sifts it up to erase it. -/
theorem WellFormed.index_ne_last (hw : WellFormed nodes h) (hp : p ∈ h.held)
    (hshift : minheapEraseShiftsUp h p = true) :
    (h.index p).toNat ≠ h.iNodeUsed - 1 := by
  obtain ⟨hlt, -, hidx⟩ := hw.toBacked.slot_index hp
  obtain ⟨h0, hkey⟩ := (minheapEraseShiftsUp_iff hidx).mp hshift
  intro hlast
  have hle := hw.order _ (Nat.pos_of_ne_zero h0) hlt
  rw [hlast] at hle hkey
  exact absurd hle (not_le.mpr hkey)

/-- **An erase that sifts up leaves the last node with a wrong index.** The
array is sifted and has lost just the erased node, but the index the code
resets is the one of the node it has moved, which stays in the array. -/
theorem minheapErase_shiftsUp (hw : WellFormed nodes h) (hp : p ∈ h.held)
    (hshift : minheapEraseShiftsUp h p = true) :
    (minheapErase h p).2.held = h.held \ {p}
      ∧ h.slot (h.iNodeUsed - 1) ∈ (minheapErase h p).2.held
      ∧ (minheapErase h p).2.index (h.slot (h.iNodeUsed - 1)) = -1 := by
  obtain ⟨hlt, hslot, hidx⟩ := hw.toBacked.slot_index hp
  set n := h.iNodeUsed - 1 with hn
  set j := (h.index p).toNat with hj
  obtain ⟨h0, hkey⟩ := (minheapEraseShiftsUp_iff hidx).mp hshift
  have hjn : j ≠ n := hw.index_ne_last hp hshift
  set g := minheapShiftUp h j (h.slot n) with hg
  have herase : minheapErase h p
      = (Ret.succ, setIndex { g with iNodeUsed := g.iNodeUsed - 1 } (h.slot n) (-1)) := by
    rw [minheapErase_eq hw.used_le hlt hslot hidx, if_pos hshift]
    rfl
  have hs : Sifting h n j (h.slot n) (h.held \ {p}) := by
    refine ⟨fun i hi _ => hw.index i (by omega), fun i hi hij => ?_, fun q hq hqn => ?_, ?_⟩
    · refine ⟨⟨⟨i, by omega, rfl⟩, fun hip => hij ?_⟩, fun hin => ?_⟩
      · exact hw.toBacked.slot_inj (by omega) hlt (hip.trans hslot.symm)
      · have := hw.toBacked.slot_inj (i := i) (j := n) (by omega) (by omega) hin
        omega
    · obtain ⟨⟨i, hi, rfl⟩, hqp⟩ := hq
      have hin : i ≠ n := fun hin => hqn (by rw [hin])
      exact ⟨i, by omega, fun hij => hqp (by rw [hij]; exact hslot), rfl⟩
    · refine ⟨⟨n, by omega, rfl⟩, fun hnp => hjn ?_⟩
      exact hw.toBacked.slot_inj hlt (by omega) (hslot.trans hnp.symm)
  have hord : OrderedBut (n + 1) h.key j := by
    rw [show n + 1 = h.iNodeUsed by omega]
    exact hw.order.but
  have hcap := hw.used_le
  obtain ⟨hsifted, hmoved⟩ := minheapShiftUpLoop_spec le_rfl (by omega) hs
    (upGap_of_lt hord (by omega) h0 hkey)
  rw [herase]
  have hused : g.iNodeUsed - 1 = n := by
    have hmu : g.iNodeUsed = h.iNodeUsed := hmoved.used
    rw [hmu]
  have hheld : held (setIndex { g with iNodeUsed := g.iNodeUsed - 1 } (h.slot n) (-1))
      = h.held \ {p} := by
    ext q
    constructor
    · rintro ⟨i, hi, rfl⟩
      exact hsifted.mem i (by rw [← hused]; exact hi)
    · intro hq
      obtain ⟨i, hi, hiq⟩ := hsifted.cover q hq
      exact ⟨i, by rw [← hused] at hi; exact hi, hiq⟩
  refine ⟨hheld, hheld ▸ hs.self, ?_⟩
  rw [index_setIndex, Function.update_self]

/-- So an erase that sifts up breaks the invariant. -/
theorem minheapErase_not_wellFormed (hw : WellFormed nodes h) (hp : p ∈ h.held)
    (hshift : minheapEraseShiftsUp h p = true) :
    ¬ WellFormed nodes (minheapErase h p).2 := by
  intro hw'
  obtain ⟨-, ⟨i, hi, hslot⟩, hidx⟩ := minheapErase_shiftsUp hw hp hshift
  have := hw'.index i hi
  rw [hslot, hidx] at this
  omega

/-! ## Nodes that are written to

The fields of a node are written outside the heap functions too. A write to a
node outside the heap changes nothing; a write to the deadline of a held one
leaves the order around its slot. -/

/-- **Writing nodes outside the heap**, with the set of nodes grown by such that
have index `-1`, or shrunk to what the heap holds at least. -/
theorem WellFormed.of_event {nodes' : Set NodePtr} {event : NodePtr → TimeoutEvent}
    (hw : WellFormed nodes h) (hheld : ∀ q ∈ h.held, event q = h.event q)
    (hsub : h.held ⊆ nodes') (hout : ∀ q ∈ nodes', q ∉ h.held → (event q).iHeapIndex = -1) :
    WellFormed nodes' { h with event := event } where
  used_le := hw.used_le
  index i hi := by
    show (event (h.slot i)).iHeapIndex = i
    rw [hheld _ ⟨i, hi, rfl⟩]
    exact hw.index i hi
  mem i hi := hsub ⟨i, hi, rfl⟩
  out q hq hne := hout q hq (fun ⟨i, hi, hiq⟩ => hne i hi hiq)
  order i hpos hi := by
    have hkey : ∀ j < h.iNodeUsed, ({ h with event := event } : MinHeap).key j = h.key j :=
      fun j hj => congrArg TimeoutEvent.stTimeout (hheld _ ⟨j, hj, rfl⟩)
    rw [hkey i hi, hkey _ ((parent_lt hpos.ne').trans hi)]
    exact hw.order i hpos hi

/-- A well-formed heap over fewer nodes. -/
theorem WellFormed.restrict {nodes' : Set NodePtr} (hw : WellFormed nodes h)
    (hsub : h.held ⊆ nodes') (hle : nodes' ⊆ nodes) : WellFormed nodes' h :=
  hw.of_event (fun _ _ => rfl) hsub
    (fun _ hq hheld => (hw.toBacked.index_eq_neg_one_iff (hle hq)).mpr hheld)

@[simp] theorem index_setInterval (t : TimeVal) : (h.setInterval p t).index = h.index := by
  funext q
  show (Function.update h.event p _ q).iHeapIndex = _
  by_cases hq : q = p
  · rw [hq, Function.update_self]
    rfl
  · rw [Function.update_of_ne hq]
    rfl

@[simp] theorem timeout_setInterval (t : TimeVal) :
    (h.setInterval p t).timeout = h.timeout := by
  funext q
  show (Function.update h.event p _ q).stTimeout = _
  by_cases hq : q = p
  · rw [hq, Function.update_self]
    rfl
  · rw [Function.update_of_ne hq]
    rfl

/-- The interval is nothing the invariant reads. -/
theorem WellFormed.setInterval (hw : WellFormed nodes h) (t : TimeVal) :
    WellFormed nodes (h.setInterval p t) where
  used_le := hw.used_le
  index i hi := by
    rw [index_setInterval]
    exact hw.index i hi
  mem := hw.mem
  out q hq hne := by
    rw [index_setInterval]
    exact hw.out q hq hne
  order i hpos hi := by
    show (h.setInterval p t).timeout (h.slot (parent i)) ≤ (h.setInterval p t).timeout (h.slot i)
    rw [timeout_setInterval]
    exact hw.order i hpos hi

/-- A new deadline leaves the order around the node's slot. -/
theorem WellFormed.orderedBut_setTimeout (hw : WellFormed nodes h) (hp : p ∈ h.held)
    (t : TimeVal) :
    OrderedBut h.iNodeUsed (h.setTimeout p t).key (h.index p).toNat := by
  obtain ⟨hlt, hslot, -⟩ := hw.toBacked.slot_index hp
  refine hw.order.but.congr (fun i hi hne => ?_)
  show (h.setTimeout p t).timeout (h.slot i) = h.timeout (h.slot i)
  have hip : h.slot i ≠ p :=
    fun hip => hne (hw.toBacked.slot_inj hi hlt (hip.trans hslot.symm))
  rw [timeout_setTimeout, Function.update_of_ne hip]

/-- A node with index `-1` is not sifted for. -/
theorem not_shiftsUp_of_index (hidx : h.index p = -1) : minheapEraseShiftsUp h p = false := by
  unfold minheapEraseShiftsUp
  rw [hidx]
  rfl

/-- **Erasing any node** that sifts down takes it out of the heap, if it was in. -/
theorem minheapErase_held (hw : WellFormed nodes h) (hp : p ∈ nodes)
    (hdown : minheapEraseShiftsUp h p = false) :
    WellFormed nodes (minheapErase h p).2 ∧ (minheapErase h p).2.held = h.held \ {p}
      ∧ (minheapErase h p).2.body = h.body := by
  by_cases hheld : p ∈ h.held
  · obtain ⟨g, herase, hg, hheld', hbody⟩ := minheapErase_spec hw.toBacked hheld hw.order.but hdown
    rw [herase]
    exact ⟨hg, hheld', hbody⟩
  · rw [minheapErase_absent ((hw.toBacked.index_eq_neg_one_iff hp).mpr hheld)]
    exact ⟨hw, (Set.sdiff_singleton_eq_self hheld).symm, rfl⟩

/-- **Giving a node a new deadline and inserting it again**, wherever it was,
where the erase sifts down and there is memory. -/
theorem reinsert_spec (hw : WellFormed nodes h) (hp : p ∈ nodes) {t : TimeVal}
    (hdown : minheapEraseShiftsUp (h.setTimeout p t) p = false) :
    ∃ h', (minHeapPush (minheapErase (h.setTimeout p t) p).2 p true).2 = h'
      ∧ WellFormed nodes h' ∧ h'.held = insert p h.held ∧ h'.body = (h.setTimeout p t).body := by
  have herased : WellFormed nodes (minheapErase (h.setTimeout p t) p).2
      ∧ (minheapErase (h.setTimeout p t) p).2.held = h.held \ {p}
      ∧ (minheapErase (h.setTimeout p t) p).2.body = (h.setTimeout p t).body := by
    by_cases hheld : p ∈ h.held
    · have hord : OrderedBut h.iNodeUsed (h.setTimeout p t).key
          ((h.setTimeout p t).index p).toNat := by
        rw [index_setTimeout]
        exact hw.orderedBut_setTimeout hheld t
      obtain ⟨g, herase, hg, hheld', hbody⟩ :=
        minheapErase_spec (hw.toBacked.setTimeout t) hheld hord hdown
      rw [herase]
      exact ⟨hg, hheld', hbody⟩
    · exact minheapErase_held (hw.setTimeout hheld) hp hdown
  obtain ⟨hw', hheld, hbody⟩ := herased
  have hidx : (minheapErase (h.setTimeout p t) p).2.index p = -1 := by
    refine (hw'.toBacked.index_eq_neg_one_iff hp).mpr ?_
    rw [hheld]
    exact fun hmem => hmem.2 rfl
  obtain ⟨-, hbad, -⟩ | ⟨g, hpush, hg, hheld', hbody'⟩ := minHeapPush_spec hw' hp hidx true
  · exact absurd hbad (by decide)
  · refine ⟨g, by rw [hpush], hg, ?_, hbody'.trans hbody⟩
    rw [hheld', hheld, Set.insert_sdiff_singleton]

end MinHeap
