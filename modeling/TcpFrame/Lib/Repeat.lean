import Mathlib.Data.List.Basic
import Mathlib.Tactic.Common

/-!
# A word said over and over

What a sender says that repeats a word `w` is a prefix of `w` written again and
again (`Repeats`). A sender that keeps the place `k` where it is in the word has
said the word a number of times and then its first `k` letters (`Said`); it stays
so as long as the sender goes on where it is, and starts again only at the end.
Starting again anywhere else is noticed by the number of letters
(`Said.mod_length`).
-/

namespace Repeat

variable {α : Type*} {w s : List α} {k n : ℕ}

/-- **A prefix of the word repeated without end.** -/
def Repeats (w s : List α) : Prop := ∃ n, s <+: (List.replicate n w).flatten

/-- **The word a number of times**, and nothing else. -/
def Whole (w s : List α) : Prop := ∃ n, s = (List.replicate n w).flatten

/-- **The word a number of times, and its first `k` letters.** -/
structure Said (w : List α) (k : ℕ) (s : List α) : Prop where
  le : k ≤ w.length
  eq : ∃ n, s = (List.replicate n w).flatten ++ w.take k

theorem Said.nil : Said w 0 [] := ⟨Nat.zero_le _, 0, rfl⟩

/-- One more time. -/
theorem flatten_replicate_succ :
    (List.replicate (n + 1) w).flatten = (List.replicate n w).flatten ++ w := by
  rw [List.replicate_succ', List.flatten_append, List.flatten_singleton]

theorem Said.repeats (h : Said w k s) : Repeats w s := by
  obtain ⟨n, rfl⟩ := h.eq
  refine ⟨n + 1, ?_⟩
  rw [flatten_replicate_succ]
  exact (List.prefix_append_right_inj _).mpr (List.take_prefix k w)

/-- It begins like the word. -/
theorem Repeats.take_eq (h : Repeats w s) (hs : k ≤ s.length) (hw : k ≤ w.length) :
    s.take k = w.take k := by
  obtain ⟨n, t, ht⟩ := h
  cases n with
  | zero =>
    have hnil : s = [] := (List.append_eq_nil_iff.mp ht).1
    rw [hnil, List.length_nil, Nat.le_zero] at hs
    rw [hs, List.take_zero, List.take_zero]
  | succ n =>
    rw [List.replicate_succ, List.flatten_cons] at ht
    have htake := congrArg (List.take k) ht
    rwa [List.take_append_of_le_length hs, List.take_append_of_le_length hw] at htake

theorem Said.whole (h : Said w 0 s) : Whole w s := by
  obtain ⟨n, hs⟩ := h.eq
  exact ⟨n, by rw [hs, List.take_zero, List.append_nil]⟩

/-- **The sender goes on** where it is. -/
theorem Said.extend (h : Said w k s) (hn : k + n ≤ w.length) :
    Said w (k + n) (s ++ (w.drop k).take n) := by
  obtain ⟨m, rfl⟩ := h.eq
  refine ⟨hn, m, ?_⟩
  rw [List.append_assoc, List.take_add]

/-- **The sender starts again** at the end of the word. -/
theorem Said.restart (h : Said w w.length s) : Said w 0 s := by
  obtain ⟨n, rfl⟩ := h.eq
  refine ⟨Nat.zero_le _, n + 1, ?_⟩
  rw [List.take_length, List.take_zero, List.append_nil, flatten_replicate_succ]

theorem length_flatten_replicate : (List.replicate n w).flatten.length = n * w.length := by
  rw [List.length_flatten, List.map_replicate, List.sum_replicate_nat]

/-- The place in the word is known from the number of letters. -/
theorem Said.mod_length (h : Said w k s) : s.length % w.length = k % w.length := by
  obtain ⟨n, rfl⟩ := h.eq
  rw [List.length_append, length_flatten_replicate, List.length_take_of_le h.le,
    Nat.mul_add_mod_self_right]

/-- **In the middle of the word** it has not been said a whole number of times. -/
theorem Said.not_whole (h : Said w k s) (hpos : 0 < k) (hlt : k < w.length) : ¬ Whole w s := by
  rintro ⟨n, hs⟩
  have hmod := h.mod_length
  rw [hs, length_flatten_replicate, Nat.mul_mod_left, Nat.mod_eq_of_lt hlt] at hmod
  omega

end Repeat
