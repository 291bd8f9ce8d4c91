import Mathlib.Order.Lattice
import Mathlib.Order.Nat
import Mathlib.Logic.Function.Basic
import Mathlib.Tactic.Common

/-!
# Heap order on an array with a hole

An array read as a binary tree has slot `(i - 1) / 2` as the parent of slot
`i`. `HeapOrder.Ordered n k` says that the keys `k` of the first `n` slots never
decrease from parent to child.

Both sifts of a binary heap move a *hole* through the array and put an element
in it at the end. While the hole moves, every pair that does not touch it is in
order, and the children of the hole are no smaller than its parent
(`HeapOrder.OrderedBut`). The rules below say how the hole moves up
(`OrderedBut.up`), how it moves down (`OrderedBut.down`), and when the element
may be put in (`OrderedBut.fill`). They speak of keys alone, so they hold of any
element type and any way of storing it.
-/

namespace HeapOrder

variable {κ : Type*} [LinearOrder κ] {n hole c i : ℕ} {k k' : ℕ → κ} {x : κ}

/-- The slot above slot `i`. Slot `0` is its own parent, and never asked. -/
def parent (i : ℕ) : ℕ := (i - 1) / 2

theorem parent_lt (hi : i ≠ 0) : parent i < i := by
  unfold parent
  omega

/-- Slot `i` has the children `2 i + 1` and `2 i + 2`, and no other. -/
theorem parent_eq_iff (hc : 0 < c) : parent c = i ↔ c = 2 * i + 1 ∨ c = 2 * i + 2 := by
  unfold parent
  omega

/-- **Heap order**: no slot among the first `n` is smaller than its parent. -/
def Ordered (n : ℕ) (k : ℕ → κ) : Prop :=
  ∀ i, 0 < i → i < n → k (parent i) ≤ k i

instance Ordered.instDecidable : Decidable (Ordered n k) :=
  decidable_of_iff (∀ i < n, 0 < i → k (parent i) ≤ k i)
    ⟨fun h i hpos hi => h i hi hpos, fun h i hi hpos => h i hpos hi⟩

/-- **Heap order around a hole**: what is in order whatever the hole holds. -/
structure OrderedBut (n : ℕ) (k : ℕ → κ) (hole : ℕ) : Prop where
  /-- The pairs that do not touch the hole are in order. -/
  off : ∀ i, 0 < i → i < n → i ≠ hole → parent i ≠ hole → k (parent i) ≤ k i
  /-- The children of the hole are no smaller than its parent. -/
  across : hole ≠ 0 → ∀ c, 0 < c → c < n → parent c = hole → k (parent hole) ≤ k c

/-- **The root is a smallest element.** -/
theorem Ordered.root_le (h : Ordered n k) (hi : i < n) : k 0 ≤ k i := by
  induction i using Nat.strong_induction_on with
  | _ i ih =>
    rcases Nat.eq_zero_or_pos i with rfl | hpos
    · exact le_rfl
    · have hlt := parent_lt hpos.ne'
      exact (ih (parent i) hlt (hlt.trans hi)).trans (h i hpos hi)

/-- Fewer slots are in order if more are. -/
theorem Ordered.anti {m : ℕ} (h : Ordered n k) (hmn : m ≤ n) : Ordered m k :=
  fun i hpos hi => h i hpos (hi.trans_le hmn)

/-- Fewer slots are in order around a hole if more are. -/
theorem OrderedBut.anti {m : ℕ} (h : OrderedBut n k hole) (hmn : m ≤ n) :
    OrderedBut m k hole where
  off i hpos hi := h.off i hpos (hi.trans_le hmn)
  across h0 c hpos hc := h.across h0 c hpos (hc.trans_le hmn)

/-- Order around a hole does not read the hole. -/
theorem OrderedBut.congr (h : OrderedBut n k hole)
    (hk : ∀ i < n, i ≠ hole → k' i = k i) : OrderedBut n k' hole where
  off i hpos hi hih hph := by
    have hpi := parent_lt hpos.ne'
    rw [hk i hi hih, hk (parent i) (hpi.trans hi) hph]
    exact h.off i hpos hi hih hph
  across h0 c hpos hc hch := by
    have hpc := parent_lt hpos.ne'
    have hph := parent_lt h0
    rw [hk c hc (by omega), hk (parent hole) (by omega) (by omega)]
    exact h.across h0 c hpos hc hch

/-- An ordered array is ordered around any of its slots. -/
theorem Ordered.but (h : Ordered n k) : OrderedBut n k hole where
  off i hpos hi _ _ := h i hpos hi
  across h0 c hpos hc hch := by
    have hlt := parent_lt hpos.ne'
    have hup := h hole (by omega) (by omega)
    have hdown := h c hpos hc
    rw [hch] at hdown
    exact hup.trans hdown

/-- A hole past the end touches no pair. -/
theorem OrderedBut.ordered_of_le (h : OrderedBut n k hole) (hn : n ≤ hole) :
    Ordered n k := by
  intro i hpos hi
  have hlt := parent_lt hpos.ne'
  exact h.off i hpos hi (by omega) (by omega)

/-- **Filling the hole** restores the order, with an element between the
hole's parent and its children. -/
theorem OrderedBut.fill (h : OrderedBut n k hole)
    (hup : hole ≠ 0 → k (parent hole) ≤ x)
    (hdown : ∀ c, 0 < c → c < n → parent c = hole → x ≤ k c) :
    Ordered n (Function.update k hole x) := by
  intro i hpos hi
  have hlt := parent_lt hpos.ne'
  by_cases hih : i = hole
  · subst hih
    rw [Function.update_self, Function.update_of_ne hlt.ne]
    exact hup hpos.ne'
  · rw [Function.update_of_ne hih]
    by_cases hph : parent i = hole
    · rw [hph, Function.update_self]
      exact hdown i hpos hi hph
    · rw [Function.update_of_ne hph]
      exact h.off i hpos hi hih hph

/-- **The hole moves up**: its parent comes down into it. -/
theorem OrderedBut.up (h : OrderedBut n k hole) (h0 : hole ≠ 0) (hn : hole < n) :
    OrderedBut n (Function.update k hole (k (parent hole))) (parent hole) where
  off i hpos hi hip hpp := by
    have hlt := parent_lt hpos.ne'
    have hplt := parent_lt h0
    have hih : i ≠ hole := fun hih => hpp (hih ▸ rfl)
    rw [Function.update_of_ne hih]
    by_cases hph : parent i = hole
    · rw [hph, Function.update_self]
      exact h.across h0 i hpos hi hph
    · rw [Function.update_of_ne hph]
      exact h.off i hpos hi hih hph
  across hp0 c hpos hc hcp := by
    have hplt := parent_lt h0
    have hpplt := parent_lt hp0
    have htop := h.off (parent hole) (by omega) (by omega) (by omega) (by omega)
    rw [Function.update_of_ne (by omega : parent (parent hole) ≠ hole)]
    by_cases hch : c = hole
    · rw [hch, Function.update_self]
      exact htop
    · rw [Function.update_of_ne hch]
      have hside := h.off c hpos hc hch (by omega)
      rw [hcp] at hside
      exact htop.trans hside

/-- After the hole moved up, an element below the old parent is below all
children of the new hole. -/
theorem OrderedBut.le_of_up (h : OrderedBut n k hole) (hx : x ≤ k (parent hole))
    (h0 : hole ≠ 0) (hpos : 0 < c) (hc : c < n) (hcp : parent c = parent hole) :
    x ≤ Function.update k hole (k (parent hole)) c := by
  by_cases hch : c = hole
  · rw [hch, Function.update_self]
    exact hx
  · rw [Function.update_of_ne hch]
    have hlt := parent_lt h0
    have hside := h.off c hpos hc hch (by omega)
    rw [hcp] at hside
    exact hx.trans hside

/-- **The hole moves down**: the smaller child comes up into it. -/
theorem OrderedBut.down (h : OrderedBut n k hole) (hpos : 0 < c) (hc : c < n)
    (hch : parent c = hole)
    (hmin : ∀ d, 0 < d → d < n → parent d = hole → k c ≤ k d) :
    OrderedBut n (Function.update k hole (k c)) c where
  off i hipos hi hic hpc := by
    have hlt := parent_lt hipos.ne'
    by_cases hih : i = hole
    · subst hih
      rw [Function.update_self, Function.update_of_ne hlt.ne]
      exact h.across hipos.ne' c hpos hc hch
    · rw [Function.update_of_ne hih]
      by_cases hph : parent i = hole
      · rw [hph, Function.update_self]
        exact hmin i hipos hi hph
      · rw [Function.update_of_ne hph]
        exact h.off i hipos hi hih hph
  across _ d hdpos hd hdc := by
    have hclt := parent_lt hpos.ne'
    have hdlt := parent_lt hdpos.ne'
    rw [hch, Function.update_self, Function.update_of_ne (by omega : d ≠ hole)]
    have hedge := h.off d hdpos hd (by omega) (by omega)
    rw [hdc] at hedge
    exact hedge

end HeapOrder
