import Mathlib.Data.Multiset.Range
import Mathlib.Data.Multiset.MapFold
import Mathlib.Algebra.Order.Group.Multiset
import Mathlib.Logic.Function.Basic

/-!
# What an array holds

The first `n` slots of an array hold a multiset of elements (`Slots.contents`).
While a slot is a *hole*, the others still hold one (`Slots.rest`), and it is
the same one after an element was moved into the hole and has left a hole
behind (`Slots.rest_move`). So whatever way a hole goes through an array, the
array holds in the end what the other slots held and the element the hole is
filled with (`Slots.contents_update`).
-/

namespace Slots

variable {α : Type*} {f g : ℕ → α} {n hole i : ℕ} {a e : α}

/-- **What the first `n` slots hold**, with repetitions. -/
def contents (f : ℕ → α) (n : ℕ) : Multiset α := (Multiset.range n).map f

/-- **What the first `n` slots but the hole hold.** -/
def rest (f : ℕ → α) (n hole : ℕ) : Multiset α := ((Multiset.range n).erase hole).map f

theorem mem_contents : a ∈ contents f n ↔ ∃ i < n, f i = a := by
  unfold contents
  rw [Multiset.mem_map]
  simp only [Multiset.mem_range]

/-- The last slot is one of those that hold something. -/
theorem contents_succ : contents f (n + 1) = f n ::ₘ contents f n := by
  unfold contents
  rw [Multiset.range_succ, Multiset.map_cons]

/-- Only the first `n` slots are read. -/
theorem contents_congr (h : ∀ i < n, g i = f i) : contents g n = contents f n :=
  Multiset.map_congr rfl (fun i hi => h i (Multiset.mem_range.mp hi))

/-- The hole is not read. -/
theorem rest_congr (h : ∀ i < n, i ≠ hole → g i = f i) : rest g n hole = rest f n hole := by
  refine Multiset.map_congr rfl (fun i hi => ?_)
  obtain ⟨hne, hmem⟩ := (Multiset.nodup_range n).mem_erase_iff.mp hi
  exact h i (Multiset.mem_range.mp hmem) hne

/-- A slot and the others hold what all of them hold. -/
theorem contents_eq (hn : hole < n) : contents f n = f hole ::ₘ rest f n hole := by
  unfold contents rest
  rw [← Multiset.map_cons, Multiset.cons_erase (Multiset.mem_range.mpr hn)]

/-- **Filling the hole** with an element adds it to what is there. -/
theorem contents_update (hn : hole < n) :
    contents (Function.update f hole e) n = e ::ₘ rest f n hole := by
  rw [contents_eq hn, Function.update_self,
    rest_congr (fun i _ hi => Function.update_of_ne hi _ _)]

/-- **Moving an element into the hole** makes its slot the hole, and all other
elements are still there. -/
theorem rest_move (hn : hole < n) (hi : i < n) (hne : i ≠ hole) :
    rest (Function.update f hole (f i)) n i = rest f n hole := by
  refine (Multiset.cons_inj_right (f i)).mp ?_
  have hupdate : f i ::ₘ rest (Function.update f hole (f i)) n i
      = contents (Function.update f hole (f i)) n := by
    rw [contents_eq hi, Function.update_of_ne hne]
  rw [hupdate, contents_update hn]

/-- No element is in two slots exactly if none is held twice. -/
theorem nodup_contents_iff : (contents f n).Nodup ↔ ∀ i < n, ∀ j < n, f i = f j → i = j := by
  unfold contents
  rw [Multiset.nodup_map_iff_inj_on (Multiset.nodup_range n)]
  simp only [Multiset.mem_range]

end Slots
