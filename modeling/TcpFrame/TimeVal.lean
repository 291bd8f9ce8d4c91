import TcpFrame.Comm
import Mathlib.Data.Prod.Lex

/-!
# Time values

`struct timeval` with the comparison, addition and subtraction macros of
`min_heap.h`. The comparison macros are one lexicographic order on seconds and
microseconds (`minheapTimercmp_gt`, `minheapTimercmp_le`), which is the order
the timer heap is kept in. On normalised values it is the order of the
microseconds they stand for (`TimeVal.le_iff_micros`).
-/

/-- `struct timeval`. -/
@[ext] structure TimeVal where
  tv_sec : ℤ
  tv_usec : ℤ
  deriving DecidableEq, Repr

/-- `minheap_timercmp(a, b, cmp)`. -/
def minheapTimercmp (cmp : ℤ → ℤ → Bool) (a b : TimeVal) : Bool :=
  if a.tv_sec = b.tv_sec then cmp a.tv_usec b.tv_usec else cmp a.tv_sec b.tv_sec

/-- `minheap_timeradd(a, b, &c)`. -/
def minheapTimeradd (a b : TimeVal) : TimeVal :=
  let tv_sec := a.tv_sec + b.tv_sec
  let tv_usec := a.tv_usec + b.tv_usec
  if tv_usec ≥ 1000000 then ⟨tv_sec + 1, tv_usec - 1000000⟩ else ⟨tv_sec, tv_usec⟩

/-- `minheap_timersub(a, b, &c)`. -/
def minheapTimersub (a b : TimeVal) : TimeVal :=
  let tv_sec := a.tv_sec - b.tv_sec
  let tv_usec := a.tv_usec - b.tv_usec
  if tv_usec < 0 then ⟨tv_sec - 1, tv_usec + 1000000⟩ else ⟨tv_sec, tv_usec⟩

namespace TimeVal

/-- The order of time values: seconds first, microseconds second. -/
instance : LinearOrder TimeVal :=
  LinearOrder.lift' (fun t => toLex (t.tv_sec, t.tv_usec)) (fun a b h => by
    have h' := toLex.injective h
    exact TimeVal.ext (congrArg Prod.fst h') (congrArg Prod.snd h'))

theorem le_def {a b : TimeVal} :
    a ≤ b ↔ a.tv_sec < b.tv_sec ∨ a.tv_sec = b.tv_sec ∧ a.tv_usec ≤ b.tv_usec :=
  Prod.Lex.le_iff

theorem lt_def {a b : TimeVal} :
    a < b ↔ a.tv_sec < b.tv_sec ∨ a.tv_sec = b.tv_sec ∧ a.tv_usec < b.tv_usec :=
  Prod.Lex.lt_iff

/-- A value as `gettimeofday` returns it: the microseconds are a fraction of a
second. -/
def Normalised (t : TimeVal) : Prop := 0 ≤ t.tv_usec ∧ t.tv_usec < 1000000

instance : DecidablePred Normalised :=
  fun t => inferInstanceAs (Decidable (0 ≤ t.tv_usec ∧ t.tv_usec < 1000000))

/-- The microseconds a value stands for. -/
def micros (t : TimeVal) : ℤ := t.tv_sec * 1000000 + t.tv_usec

/-- **On normalised values the order is that of the microseconds.** -/
theorem le_iff_micros {a b : TimeVal} (ha : a.Normalised) (hb : b.Normalised) :
    a ≤ b ↔ a.micros ≤ b.micros := by
  obtain ⟨ha0, ha1⟩ := ha
  obtain ⟨hb0, hb1⟩ := hb
  rw [le_def]
  unfold micros
  omega

end TimeVal

/-- The comparison with `>` is the strict order. -/
@[simp] theorem minheapTimercmp_gt {a b : TimeVal} :
    minheapTimercmp (fun x y => decide (x > y)) a b = true ↔ b < a := by
  unfold minheapTimercmp
  rw [TimeVal.lt_def]
  split <;> simp only [decide_eq_true_eq] <;> omega

/-- The comparison with `<=` is the order. -/
@[simp] theorem minheapTimercmp_le {a b : TimeVal} :
    minheapTimercmp (fun x y => decide (x ≤ y)) a b = true ↔ a ≤ b := by
  unfold minheapTimercmp
  rw [TimeVal.le_def]
  split <;> simp only [decide_eq_true_eq] <;> omega

/-- **Adding normalised values** gives the normalised value of the sum. -/
theorem minheapTimeradd_normalised {a b : TimeVal} (ha : a.Normalised) (hb : b.Normalised) :
    (minheapTimeradd a b).Normalised := by
  obtain ⟨ha0, ha1⟩ := ha
  obtain ⟨hb0, hb1⟩ := hb
  unfold minheapTimeradd TimeVal.Normalised
  dsimp only
  split <;> dsimp only <;> omega

/-- The sum stands for the sum of the microseconds, carry or not. -/
theorem micros_minheapTimeradd (a b : TimeVal) :
    (minheapTimeradd a b).micros = a.micros + b.micros := by
  unfold minheapTimeradd TimeVal.micros
  dsimp only
  split <;> dsimp only <;> omega

/-- **Subtracting normalised values** gives the normalised value of the
difference, which may be negative in its seconds. -/
theorem minheapTimersub_normalised {a b : TimeVal} (ha : a.Normalised) (hb : b.Normalised) :
    (minheapTimersub a b).Normalised := by
  obtain ⟨ha0, ha1⟩ := ha
  obtain ⟨hb0, hb1⟩ := hb
  unfold minheapTimersub TimeVal.Normalised
  dsimp only
  split <;> dsimp only <;> omega

/-- The difference stands for the difference of the microseconds, borrow or
not. -/
theorem micros_minheapTimersub (a b : TimeVal) :
    (minheapTimersub a b).micros = a.micros - b.micros := by
  unfold minheapTimersub TimeVal.micros
  dsimp only
  split <;> dsimp only <;> omega
