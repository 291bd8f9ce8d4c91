import Mathlib.Tactic.Common

/-!
# Runs of a partial machine

A machine is a function `step : σ → ι → Option σ`: what an input does to a
state, or `none` where the machine stops. A run is a list of inputs taken in
order, and it ends early where the machine stops.

Two readings of a run are used throughout. `Run.Always P` says that `P` holds
in the first state and in every state the run reaches, and `Run.Along G` says
that every input is taken in a state where `G` admits it. The rules relate
them: an invariant kept by every admitted input holds always
(`Run.always_of_along`), and where an input that is not admitted breaks the
property at once, holding always *is* being admitted all along
(`Run.always_iff_along`).
-/

namespace Run

variable {σ ι : Type*} (step : σ → ι → Option σ)

/-- **`P` holds in every state of the run**, the first one included. -/
def Always (P : σ → Prop) : σ → List ι → Prop
  | s, [] => P s
  | s, a :: as => P s ∧ ∀ s', step s a = some s' → Always P s' as

/-- **`G` admits every input of the run** in the state it is taken in. -/
def Along (G : σ → ι → Prop) : σ → List ι → Prop
  | _, [] => True
  | s, a :: as => G s a ∧ ∀ s', step s a = some s' → Along G s' as

/-- The state a run ends in, if the machine does not stop before. -/
def exec : σ → List ι → Option σ
  | s, [] => some s
  | s, a :: as => (step s a).bind (fun s' => exec s' as)

instance Along.instDecidable (G : σ → ι → Prop) [∀ s a, Decidable (G s a)] :
    ∀ (s : σ) (as : List ι), Decidable (Along step G s as)
  | _, [] => inferInstanceAs (Decidable True)
  | s, a :: as =>
    match h : step s a with
    | none => decidable_of_iff (G s a) (by simp [Along, h])
    | some s' =>
      have := Along.instDecidable G s' as
      decidable_of_iff (G s a ∧ Along step G s' as) (by simp [Along, h])

variable {step} {P Q : σ → Prop} {G H : σ → ι → Prop} {s t : σ} {as bs : List ι}

theorem Always.head (h : Always step P s as) : P s := by
  cases as with
  | nil => exact h
  | cons a as => exact h.1

theorem Always.mono (hPQ : ∀ s, P s → Q s) (h : Always step P s as) :
    Always step Q s as := by
  induction as generalizing s with
  | nil => exact hPQ s h
  | cons a as ih => exact ⟨hPQ s h.1, fun s' hs' => ih (h.2 s' hs')⟩

/-- What admits every input of the run in every state admits the run. -/
theorem along_of_forall_mem (h : ∀ a ∈ as, ∀ s, G s a) (s : σ) : Along step G s as := by
  induction as generalizing s with
  | nil => trivial
  | cons a as ih =>
    exact ⟨h a (List.mem_cons_self ..) s,
      fun s' _ => ih (fun b hb => h b (List.mem_cons_of_mem _ hb)) s'⟩

/-- Every run is admitted where there is nothing to admit. -/
theorem along_true (s : σ) (as : List ι) : Along step (fun _ _ => True) s as :=
  along_of_forall_mem (fun _ _ _ => trivial) s

theorem Along.and (hG : Along step G s as) (hH : Along step H s as) :
    Along step (fun s a => G s a ∧ H s a) s as := by
  induction as generalizing s with
  | nil => trivial
  | cons a as ih => exact ⟨⟨hG.1, hH.1⟩, fun s' hs' => ih (hG.2 s' hs') (hH.2 s' hs')⟩

/-- **What always holds holds at the end.** -/
theorem Always.exec (h : Always step P s as) (hrun : Run.exec step s as = some t) :
    P t := by
  induction as generalizing s with
  | nil =>
    obtain rfl : s = t := Option.some.inj hrun
    exact h
  | cons a as ih =>
    obtain ⟨s', hs', hrest⟩ := Option.bind_eq_some_iff.mp hrun
    exact ih (h.2 s' hs') hrest

/-- A run over `as ++ bs` is a run over `as` and then one over `bs`. -/
theorem exec_append : exec step s (as ++ bs)
    = (exec step s as).bind (fun t => exec step t bs) := by
  induction as generalizing s with
  | nil => rfl
  | cons a as ih =>
    show (step s a).bind (fun s' => exec step s' (as ++ bs))
      = ((step s a).bind (fun s' => exec step s' as)).bind _
    rw [Option.bind_assoc]
    exact congrArg _ (funext fun s' => ih)

/-- One input more. -/
theorem exec_concat (a : ι) : exec step s (as ++ [a]) = (exec step s as).bind (step · a) := by
  rw [exec_append]
  exact congrArg _ (funext fun t => Option.bind_fun_some (step t a))

/-- A run over `as ++ bs` that is admitted is admitted over `as`, and over `bs`
from where that ends. -/
theorem Along.append (h : Along step G s (as ++ bs)) :
    Along step G s as ∧ ∀ t, exec step s as = some t → Along step G t bs := by
  induction as generalizing s with
  | nil =>
    refine ⟨trivial, fun t ht => ?_⟩
    obtain rfl : s = t := Option.some.inj ht
    exact h
  | cons a as ih =>
    refine ⟨⟨h.1, fun s' hs' => (ih (h.2 s' hs')).1⟩, fun t ht => ?_⟩
    obtain ⟨s', hs', hrest⟩ := Option.bind_eq_some_iff.mp ht
    exact (ih (h.2 s' hs')).2 t hrest

/-- **The invariant rule.** What every admitted input keeps holds always. -/
theorem always_of_along (hstep : ∀ s a s', P s → G s a → step s a = some s' → P s')
    (hs : P s) (h : Along step G s as) : Always step P s as := by
  induction as generalizing s with
  | nil => exact hs
  | cons a as ih =>
    exact ⟨hs, fun s' hs' => ih (hstep s a s' hs h.1 hs') (h.2 s' hs')⟩

/-- What an invariant makes of an admitted input is made of every input of the
run. -/
theorem Always.along (hP : Always step P s as) (hG : Along step G s as)
    (h : ∀ s a, P s → G s a → H s a) : Along step H s as := by
  induction as generalizing s with
  | nil => trivial
  | cons a as ih => exact ⟨h s a hP.1 hG.1, fun s' hs' => ih (hP.2 s' hs') (hG.2 s' hs')⟩

/-- **Holding always is being admitted all along**, where an admitted input
keeps the invariant `P` and any other one leads to a state without `Q`. The
inputs may be confined by `H` beforehand. -/
theorem always_iff_along (hPQ : ∀ s, P s → Q s)
    (hgood : ∀ s a s', P s → H s a → G s a → step s a = some s' → P s')
    (hbad : ∀ s a, P s → H s a → ¬ G s a → ∃ s', step s a = some s' ∧ ¬ Q s')
    (hs : P s) (hH : Along step H s as) :
    Always step Q s as ↔ Along step G s as := by
  constructor
  · intro h
    induction as generalizing s with
    | nil => trivial
    | cons a as ih =>
      have hG : G s a := by
        by_contra hG
        obtain ⟨s', hs', hQ⟩ := hbad s a hs hH.1 hG
        exact hQ (h.2 s' hs').head
      exact ⟨hG, fun s' hs' => ih (hgood s a s' hs hH.1 hG hs') (hH.2 s' hs') (h.2 s' hs')⟩
  · intro h
    refine Always.mono hPQ (always_of_along (G := fun s a => H s a ∧ G s a) ?_ hs (hH.and h))
    exact fun s a s' hP hHG hs' => hgood s a s' hP hHG.1 hHG.2 hs'

end Run
