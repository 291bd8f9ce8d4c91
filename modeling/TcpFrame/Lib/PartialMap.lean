import Mathlib.Data.Set.Function
import Mathlib.Logic.Function.Basic
import Mathlib.Order.Interval.Set.Basic
import Mathlib.Tactic.Common

/-!
# Updates of a partial map

A partial map is a function into an option type. These are the values of a map
after one key was removed, or was given a value, and after the values along a
chain of keys were moved one key up, the last one first.
-/

namespace PartialMap

variable {α β : Type*} [DecidableEq α] {f : α → Option β} {c d : α} {v e : β}

/-- **A key is removed.** -/
theorem update_none_eq_some : Function.update f c none d = some e ↔ d ≠ c ∧ f d = some e := by
  by_cases hd : d = c
  · rw [hd, Function.update_self]
    exact ⟨fun h => absurd h.symm (Option.some_ne_none e), fun h => absurd rfl h.1⟩
  · rw [Function.update_of_ne hd]
    exact ⟨fun h => ⟨hd, h⟩, fun h => h.2⟩

/-- **A key is given a value.** -/
theorem update_some_eq_some :
    Function.update f c (some v) d = some e ↔ d = c ∧ e = v ∨ d ≠ c ∧ f d = some e := by
  by_cases hd : d = c
  · rw [hd, Function.update_self]
    exact ⟨fun h => Or.inl ⟨rfl, (Option.some.inj h).symm⟩,
      fun h => h.elim (fun h => congrArg some h.2.symm) (fun h => absurd rfl h.1)⟩
  · rw [Function.update_of_ne hd]
    exact ⟨fun h => Or.inr ⟨hd, h⟩, fun h => h.elim (fun h => absurd h.1 hd) (fun h => h.2)⟩

/-! ## Moving values -/

variable [DecidableEq β] {a b : α} {key : ℕ → α} {n i : ℕ}

/-- **The value of `a` is moved to `b`**, where there is one and `b` does not have
it already. -/
def move (f : α → Option β) (a b : α) : α → Option β :=
  if f a = none ∨ f b = f a then f else Function.update (Function.update f b (f a)) a none

/-- Only the two keys change. -/
theorem move_of_ne (ha : c ≠ a) (hb : c ≠ b) : move f a b c = f c := by
  unfold move
  split
  · rfl
  · rw [Function.update_of_ne ha, Function.update_of_ne hb]

/-- **A key that has no value takes over.** -/
theorem move_target (hfree : f b = none) (hab : b ≠ a) : move f a b b = f a := by
  unfold move
  split
  · next h => exact h.elim (fun ha => hfree.trans ha.symm) id
  · rw [Function.update_of_ne hab, Function.update_self]

/-- And the other one has none afterwards. -/
theorem move_source (hfree : f b = none) : move f a b a = none := by
  unfold move
  split
  · next h => exact h.elim id (fun hb => hb.symm.trans hfree)
  · exact Function.update_self ..

/-- There are no new values. -/
theorem eq_some_of_move (h : move f a b c = some v) : ∃ d, f d = some v := by
  unfold move at h
  split at h
  · exact ⟨c, h⟩
  · obtain ⟨-, h⟩ := update_none_eq_some.mp h
    by_cases hc : c = b
    · rw [hc, Function.update_self] at h
      exact ⟨a, h⟩
    · rw [Function.update_of_ne hc] at h
      exact ⟨c, h⟩

/-- **The values of the first `n` keys of a chain are moved one key up**, the last
one first. -/
def shift (key : ℕ → α) : ℕ → (α → Option β) → α → Option β
  | 0, f => f
  | n + 1, f => shift key n (move f (key n) (key (n + 1)))

theorem eq_some_of_shift (h : shift key n f c = some v) : ∃ d, f d = some v := by
  induction n generalizing f with
  | zero => exact ⟨c, h⟩
  | succ n ih =>
    obtain ⟨d, hd⟩ := ih h
    exact eq_some_of_move hd

/-- The first key of the chain comes last. -/
theorem shift_succ : shift key (n + 1) f
    = move (shift (fun i => key (i + 1)) n f) (key 0) (key 1) := by
  induction n generalizing f with
  | zero => rfl
  | succ n ih => exact ih

/-- Only the keys of the chain change. -/
theorem shift_of_ne (hc : ∀ i ≤ n, c ≠ key i) : shift key n f c = f c := by
  induction n generalizing f with
  | zero => rfl
  | succ n ih =>
    exact (ih (fun i hi => hc i (Nat.le_succ_of_le hi))).trans
      (move_of_ne (hc n (Nat.le_succ n)) (hc (n + 1) le_rfl))

/-- **Every value is one key up**, where the last key had none: the key a value is
moved to was freed just before, and no later move touches it. -/
theorem shift_key_succ (hinj : Set.InjOn key (Set.Iic n)) (hfree : f (key n) = none)
    (hi : i < n) : shift key n f (key (i + 1)) = f (key i) := by
  induction n generalizing f with
  | zero => exact absurd hi (Nat.not_lt_zero i)
  | succ n ih =>
    have hne : ∀ {j k}, j ≤ n + 1 → k ≤ n + 1 → j ≠ k → key j ≠ key k :=
      fun hj hk hjk heq => hjk (hinj hj hk heq)
    rcases Nat.lt_succ_iff_lt_or_eq.mp hi with hlt | rfl
    · exact (ih (hinj.mono (Set.Iic_subset_Iic.mpr (Nat.le_succ n))) (move_source hfree) hlt).trans
        (move_of_ne (hne (by omega) (by omega) (by omega)) (hne (by omega) (by omega) (by omega)))
    · have hkept : shift key i (move f (key i) (key (i + 1))) (key (i + 1))
          = move f (key i) (key (i + 1)) (key (i + 1)) :=
        shift_of_ne (fun j hj => hne le_rfl (by omega) (by omega))
      exact hkept.trans (move_target hfree (hne le_rfl (by omega) (by omega)))

/-- **The first key is free**, where the last one was. -/
theorem shift_key_zero (hfree : f (key n) = none) : shift key n f (key 0) = none := by
  induction n generalizing f with
  | zero => exact hfree
  | succ n ih => exact ih (move_source hfree)

end PartialMap
