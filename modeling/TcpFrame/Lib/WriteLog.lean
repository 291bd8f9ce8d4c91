import Mathlib.Data.List.Basic
import Mathlib.Tactic.Common

/-!
# Logs of writes

A log is a list of writes, each of a value to a key. What a store that keeps
the last value of every key has to say about a log is `WriteLog.last`, and two
logs that have the same writes to every key, in the same order, say the same
(`WriteLog.Shuffle.last_eq`): writes to different keys commute.
-/

namespace WriteLog

variable {κ ν : Type*} [DecidableEq κ] {log log' : List (κ × ν)} {k j : κ} {v : ν}

/-- The writes to a key. -/
def writesTo (log : List (κ × ν)) (k : κ) : List (κ × ν) := log.filter (fun w => w.1 = k)

/-- **The last value written** to a key. -/
def last (log : List (κ × ν)) (k : κ) : Option ν := (writesTo log k).getLast?.map Prod.snd

/-- **The same writes to every key**, in the same order. -/
def Shuffle (log log' : List (κ × ν)) : Prop := ∀ k, writesTo log' k = writesTo log k

theorem last_nil : last ([] : List (κ × ν)) k = none := rfl

theorem last_append_self : last (log ++ [(k, v)]) k = some v := by
  have hself : writesTo [(k, v)] k = [(k, v)] := List.filter_cons_of_pos (decide_eq_true rfl)
  unfold last
  rw [show writesTo (log ++ [(k, v)]) k = writesTo log k ++ writesTo [(k, v)] k from
    List.filter_append .., hself, List.getLast?_concat]
  rfl

theorem last_append_of_ne (h : j ≠ k) : last (log ++ [(j, v)]) k = last log k := by
  have hnone : writesTo [(j, v)] k = [] := List.filter_cons_of_neg (by simpa using h)
  unfold last
  rw [show writesTo (log ++ [(j, v)]) k = writesTo log k ++ writesTo [(j, v)] k from
    List.filter_append .., hnone, List.append_nil]

/-- A key was never written to. -/
theorem last_eq_none : last log k = none ↔ ∀ w ∈ log, w.1 ≠ k := by
  unfold last writesTo
  rw [Option.map_eq_none_iff, List.getLast?_eq_none_iff, List.filter_eq_nil_iff]
  exact forall₂_congr (fun w _ => by rw [decide_eq_true_iff])

/-- **Writes to different keys commute.** -/
theorem Shuffle.last_eq (h : Shuffle log log') : last log' k = last log k := by
  unfold last
  rw [h k]

end WriteLog
