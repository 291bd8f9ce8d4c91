import TcpFrame.Lib.Run

/-!
# Runs that count down

A **rank** of a machine is a number that every admitted input lowers by one, in the
states with an invariant. Then no admitted run is longer than the rank of the state it
starts in (`Run.CountsDown.exec`); and if there is an admitted input as long as the rank
is not zero, there is a run that is exactly as long, and ends with rank zero
(`Run.CountsDown.exists_exec`).
-/

namespace Run

variable {σ ι : Type*} {step : σ → ι → Option σ} {P : σ → Prop} {G : σ → ι → Prop} {rank : σ → ℕ}
  {s t : σ} {as : List ι}

/-- **Every admitted input lowers the rank by one**, and keeps the invariant. -/
def CountsDown (step : σ → ι → Option σ) (P : σ → Prop) (G : σ → ι → Prop) (rank : σ → ℕ) : Prop :=
  ∀ s a s', P s → G s a → step s a = some s' → P s' ∧ rank s' + 1 = rank s

/-- **A run is as long as the rank it uses up.** -/
theorem CountsDown.exec (h : CountsDown step P G rank) (hs : P s) (hG : Along step G s as)
    (hrun : Run.exec step s as = some t) : P t ∧ rank t + as.length = rank s := by
  induction as generalizing s with
  | nil =>
    obtain rfl : s = t := Option.some.inj hrun
    exact ⟨hs, rfl⟩
  | cons a as ih =>
    obtain ⟨s', hs', hrest⟩ := Option.bind_eq_some_iff.mp hrun
    obtain ⟨hP, hrank⟩ := h s a s' hs hG.1 hs'
    obtain ⟨ht, hlen⟩ := ih hP (hG.2 s' hs') hrest
    refine ⟨ht, ?_⟩
    rw [← hrank, ← hlen, List.length_cons, Nat.add_assoc]

/-- **A run uses up the rank**, if it is not stuck before. -/
theorem CountsDown.exists_exec (h : CountsDown step P G rank)
    (hgo : ∀ s, P s → rank s ≠ 0 → ∃ a s', G s a ∧ step s a = some s') (hs : P s) :
    ∃ as t, Along step G s as ∧ Run.exec step s as = some t ∧ P t ∧ rank t = 0
      ∧ as.length = rank s := by
  induction hr : rank s generalizing s with
  | zero => exact ⟨[], s, trivial, rfl, hs, hr, rfl⟩
  | succ n ih =>
    obtain ⟨a, s', hG, hs'⟩ := hgo s hs (by rw [hr]; exact n.succ_ne_zero)
    obtain ⟨hP, hrank⟩ := h s a s' hs hG hs'
    obtain ⟨as, t, hall, hrun, ht, h0, hlen⟩ := ih hP (by rw [hr] at hrank; exact Nat.succ.inj hrank)
    refine ⟨a :: as, t, ⟨hG, fun s'' hs'' => ?_⟩, ?_, ht, h0, congrArg Nat.succ hlen⟩
    · obtain rfl : s' = s'' := Option.some.inj (hs'.symm.trans hs'')
      exact hall
    · show (step s a).bind (fun s' => Run.exec step s' as) = some t
      rw [hs']
      exact hrun

end Run
