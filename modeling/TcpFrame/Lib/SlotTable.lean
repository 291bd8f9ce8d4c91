import TcpFrame.Lib.PartialMap
import Mathlib.Data.Finset.Card
import Mathlib.Data.Finset.Range
import Mathlib.Data.Int.ModEq
import Mathlib.Tactic.Common

/-!
# Slots addressed by residue

A table of `n` slots, each of which is empty or holds an integer, such that
what is held is found in the slot of its residue modulo `n`. That needs no two
of the integers to have one residue, and they have not while all of them are in
one window `base, …, base + n - 1`.

The integers are names that are given out the least free one first. While a
slot is empty, the least name from `base` on that is not held is in the window
(`ByResidue.least_lt`), and its slot is empty (`ByResidue.empty_of_not_holds`):
so a table that gives up names in any order, and takes the least free one
whenever it takes one, never looks for a name in vain.
-/

/-- What each slot holds. -/
abbrev SlotTable := ℕ → Option ℤ

namespace SlotTable

variable {t : SlotTable} {base a b : ℤ} {n i : ℕ}

/-- The slots that hold something. -/
def occupied (t : SlotTable) (n : ℕ) : Finset ℕ := (Finset.range n).filter (fun i => t i ≠ none)

/-- One of the `n` slots holds `a`. -/
def Holds (t : SlotTable) (n : ℕ) (a : ℤ) : Prop := ∃ i < n, t i = some a

/-- **What is held is in the window, in the slot of its residue.** -/
def ByResidue (base : ℤ) (n : ℕ) (t : SlotTable) : Prop :=
  ∀ i < n, ∀ a, t i = some a → base ≤ a ∧ a < base + n ∧ a % n = i

/-! ## The window -/

/-- **In a window, a residue determines the integer.** -/
theorem eq_of_emod_eq (ha : base ≤ a) (ha' : a < base + n) (hb : base ≤ b) (hb' : b < base + n)
    (h : a % n = b % n) : a = b := by
  have hdvd : (n : ℤ) ∣ a - b := Int.ModEq.dvd (show b % n = a % n from h.symm)
  have hzero : a - b = 0 := Int.eq_zero_of_abs_lt_dvd hdvd (by rw [abs_lt]; omega)
  omega

/-- **In a window, every residue occurs.** -/
theorem exists_emod_eq (base : ℤ) (hi : i < n) : ∃ a, base ≤ a ∧ a < base + n ∧ a % n = i := by
  have hn : (0 : ℤ) < n := by omega
  have hlo := Int.emod_nonneg ((i : ℤ) - base) hn.ne'
  have hhi := Int.emod_lt_of_pos ((i : ℤ) - base) hn
  refine ⟨base + (i - base) % n, by omega, by omega, ?_⟩
  rw [Int.add_emod_emod, add_sub_cancel]
  exact Int.emod_eq_of_lt (by omega) (by omega)

/-! ## Looking up -/

theorem ByResidue.index (h : ByResidue base n t) (hi : i < n) (ha : t i = some a) :
    (a % n).toNat = i := by
  rw [(h i hi a ha).2.2]
  exact Int.toNat_natCast i

/-- **What is held is found** by its residue. -/
theorem ByResidue.find (h : ByResidue base n t) (ha : t.Holds n a) :
    (a % n).toNat < n ∧ t (a % n).toNat = some a := by
  obtain ⟨i, hi, ha⟩ := ha
  rw [h.index hi ha]
  exact ⟨hi, ha⟩

/-- **The least free name is in the window**, while a slot is empty. -/
theorem ByResidue.least_lt (h : ByResidue base n t) (hempty : ∃ i < n, t i = none)
    (hleast : ∀ k, base ≤ k → k < a → t.Holds n k) : a < base + n := by
  by_contra hge
  obtain ⟨i, hi, hnone⟩ := hempty
  obtain ⟨k, hlo, hhi, hk⟩ := exists_emod_eq base hi
  -- the name that belongs into the empty slot would be held
  have hfind := (h.find (hleast k hlo (by omega))).2
  rw [hk, Int.toNat_natCast, hnone] at hfind
  exact absurd hfind (by simp)

/-- **The slot of a name in the window is empty**, if the name is not held. -/
theorem ByResidue.empty_of_not_holds (h : ByResidue base n t) (hlo : base ≤ a)
    (hhi : a < base + n) (ha : ¬ t.Holds n a) : t (a % n).toNat = none := by
  have hn : (0 : ℤ) < n := by omega
  have hpos := Int.emod_nonneg a hn.ne'
  have hlt := Int.emod_lt_of_pos a hn
  cases hb : t (a % n).toNat with
  | none => rfl
  | some b =>
    obtain ⟨hlo', hhi', hmod⟩ := h (a % n).toNat (by omega) b hb
    have hab : b = a := eq_of_emod_eq hlo' hhi' hlo hhi (by omega)
    exact absurd ⟨_, by omega, hab ▸ hb⟩ ha

/-! ## Taking and giving up -/

/-- A name of the window is put into its slot. -/
theorem ByResidue.put (h : ByResidue base n t) (hlo : base ≤ a) (hhi : a < base + n) :
    ByResidue base n (Function.update t (a % n).toNat (some a)) := by
  have hpos := Int.emod_nonneg a (show (n : ℤ) ≠ 0 by omega)
  intro i hi b hb
  obtain ⟨heq, rfl⟩ | ⟨-, hb⟩ := PartialMap.update_some_eq_some.mp hb
  · exact ⟨hlo, hhi, by omega⟩
  · exact h i hi b hb

/-- A slot is emptied. -/
theorem ByResidue.drop (h : ByResidue base n t) : ByResidue base n (Function.update t i none) := by
  intro j hj b hb
  exact h j hj b (PartialMap.update_none_eq_some.mp hb).2

/-- What is held stays held when an empty slot is filled, -/
theorem Holds.put (h : t.Holds n b) (hnone : t i = none) :
    Holds (Function.update t i (some a)) n b := by
  obtain ⟨j, hj, hb⟩ := h
  have hne : j ≠ i := fun heq => Option.some_ne_none b (hb.symm.trans (heq ▸ hnone))
  exact ⟨j, hj, PartialMap.update_some_eq_some.mpr (Or.inr ⟨hne, hb⟩)⟩

/-- and when the slot of another name is emptied. -/
theorem Holds.drop (h : t.Holds n b) (ha : t i = some a) (hne : b ≠ a) :
    Holds (Function.update t i none) n b := by
  obtain ⟨j, hj, hb⟩ := h
  have hij : j ≠ i := fun heq => hne (Option.some.inj (hb.symm.trans (heq ▸ ha)))
  exact ⟨j, hj, PartialMap.update_none_eq_some.mpr ⟨hij, hb⟩⟩

theorem mem_occupied : i ∈ t.occupied n ↔ i < n ∧ t i ≠ none := by
  unfold occupied
  rw [Finset.mem_filter, Finset.mem_range]

theorem card_occupied_le : (t.occupied n).card ≤ n := by
  have hle := Finset.card_filter_le (Finset.range n) (fun i => t i ≠ none)
  rwa [Finset.card_range] at hle

/-- A table that is not full has an empty slot. -/
theorem exists_empty (h : (t.occupied n).card < n) : ∃ i < n, t i = none := by
  by_contra hfull
  have hall : t.occupied n = Finset.range n :=
    Finset.filter_true_of_mem (fun i hi hnone => hfull ⟨i, Finset.mem_range.mp hi, hnone⟩)
  rw [hall, Finset.card_range] at h
  exact lt_irrefl n h

theorem occupied_put (hi : i < n) :
    occupied (Function.update t i (some a)) n = insert i (t.occupied n) := by
  ext j
  rw [mem_occupied, Finset.mem_insert, mem_occupied]
  by_cases hj : j = i
  · rw [hj, Function.update_self]
    exact ⟨fun _ => Or.inl rfl, fun _ => ⟨hi, by simp⟩⟩
  · rw [Function.update_of_ne hj]
    exact ⟨Or.inr, fun h => h.resolve_left hj⟩

theorem occupied_drop : occupied (Function.update t i none) n = (t.occupied n).erase i := by
  ext j
  rw [mem_occupied, Finset.mem_erase, mem_occupied]
  by_cases hj : j = i
  · rw [hj, Function.update_self]
    exact ⟨fun h => absurd rfl h.2, fun h => absurd rfl h.1⟩
  · rw [Function.update_of_ne hj]
    exact ⟨fun h => ⟨hj, h⟩, fun h => h.2⟩

/-- **Filling an empty slot** makes one more. -/
theorem card_occupied_put (hi : i < n) (hnone : t i = none) :
    (occupied (Function.update t i (some a)) n).card = (t.occupied n).card + 1 := by
  rw [occupied_put hi]
  exact Finset.card_insert_of_notMem (fun h => (mem_occupied.mp h).2 hnone)

/-- **Emptying a slot** makes one less. -/
theorem card_occupied_drop (hi : i < n) (hsome : t i ≠ none) :
    (occupied (Function.update t i none) n).card + 1 = (t.occupied n).card := by
  rw [occupied_drop]
  exact Finset.card_erase_add_one (mem_occupied.mpr ⟨hi, hsome⟩)

end SlotTable
