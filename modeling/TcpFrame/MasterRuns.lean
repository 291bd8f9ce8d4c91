import TcpFrame.Lib.Rank
import TcpFrame.Master
import Mathlib.Data.Fintype.EquivFin
import Mathlib.Data.List.Nodup

/-!
# The master keeps its workers

The loop of `main` counts in one variable, `iWorkerCount`, how many workers there are to
be forked. It is forked down to zero and up again by `wait`, so that with the children it
makes the number that was asked for (`ProcessGroup.Books`), and the branch in which `wait`
fails is never taken (`master_keeps_count`). Left alone, the master forks and waits until
all of its workers are there, and is not stuck before (`master_restores`).

A `SIGTERM` for the master ends all of them (`master_shutdown`), but those it catches in the
middle of a log call, which are stuck for ever. It comes from outside, or from a child that
handles one before it has its own handler; a failed `fork` ends the master too, but nobody
else. Nothing else does (`master_survives_iff`).
-/

namespace Child

variable {c : Child}

@[simp] theorem pid_signal : c.signal.pid = c.pid := by
  unfold signal
  split <;> rfl

@[simp] theorem phase_signal : c.signal.phase = c.phase := by
  unfold signal
  split <;> rfl

@[simp] theorem pid_exit : c.exit.pid = c.pid := rfl

@[simp] theorem pid_wedge : c.wedge.pid = c.pid := rfl

/-- **A child that goes on**: it has not ended, and it is not stuck. -/
def Alive (c : Child) : Prop := c.phase ≠ .zombie ∧ c.phase ≠ .stuck

instance : Decidable c.Alive := inferInstanceAs (Decidable (_ ∧ _))

/-- The child is told to end, if it goes on. -/
def Told (c : Child) : Prop := c.Alive → c.sigterm = true

theorem told_signal : c.signal.Told := by
  unfold signal
  split
  · next hzombie => exact fun h => absurd hzombie h.1
  · exact fun _ => rfl

theorem told_exit : c.exit.Told := fun h => absurd rfl h.1

theorem told_wedge : c.wedge.Told := fun h => absurd rfl h.2

/-- Where a signal goes to all, as many go on as before. -/
theorem alive_signal : c.signal.Alive ↔ c.Alive := by
  unfold Alive
  rw [phase_signal]

end Child

namespace ProcessGroup

variable {g g' t : ProcessGroup} {input : GroupInput} {pid : ℤ} {c : Child} {f : Child → Child}
  {n W : ℤ}

/-! ## One step -/

/-- The process ids of the children. -/
def pids (g : ProcessGroup) : List ℤ := g.children.map Child.pid

theorem pids_modify (hf : ∀ c, (f c).pid = c.pid) : (g.modify pid f).pids = g.pids := by
  unfold pids modify
  rw [List.map_map]
  refine List.map_congr_left (fun c _ => ?_)
  show (if c.pid = pid then f c else c).pid = c.pid
  split
  · exact hf c
  · rfl

theorem pids_killGroup : g.killGroup.pids = g.pids := by
  unfold pids killGroup
  rw [List.map_map]
  exact List.map_congr_left (fun c _ => Child.pid_signal)

theorem length_pids : g.pids.length = g.children.length := List.length_map _

/-- A child that is modified, and what the others are. -/
theorem mem_modify : c ∈ (g.modify pid f).children
    ↔ ∃ d ∈ g.children, (if d.pid = pid then f d else d) = c := List.mem_map

/-- What is modified to something with `P` has it everywhere. -/
theorem forall_modify {P : Child → Prop} (h : ∀ c ∈ g.children, P c)
    (hf : ∀ c, P c → P (f c)) : ∀ c ∈ (g.modify pid f).children, P c := by
  intro c hc
  obtain ⟨d, hd, rfl⟩ := mem_modify.mp hc
  split
  · exact hf d (h d hd)
  · exact h d hd

/-- **The child that has a process id**: there is one, and it has that. -/
theorem child_eq_some (h : g.child pid = some c) : c ∈ g.children ∧ c.pid = pid :=
  ⟨List.mem_of_find?_eq_some h, of_decide_eq_true (List.find?_some h :)⟩

/-- Where no two children have the same process id, it tells them apart. -/
theorem eq_of_pid (hnodup : g.pids.Nodup) {c d : Child} (hc : c ∈ g.children)
    (hd : d ∈ g.children) (hpid : c.pid = d.pid) : c = d :=
  List.inj_on_of_nodup_map hnodup hc hd hpid

theorem child_of_mem (hnodup : g.pids.Nodup) (hc : c ∈ g.children) : g.child c.pid = some c := by
  cases hfind : g.child c.pid with
  | none =>
    have hnone := List.find?_eq_none.mp hfind c hc
    exact absurd (decide_eq_true rfl) hnone
  | some d =>
    obtain ⟨hd, hpid⟩ := child_eq_some hfind
    rw [eq_of_pid hnodup hd hc hpid]

/-- **Where a `SIGTERM` is delivered to a child**, it has one and goes on. Outside the locked
section it ends; with the handler of the master, it sends the signal on before. Inside, it
is stuck. -/
theorem deliverChild_eq_some {locked : Bool} (h : g.deliverChild locked c = some g') :
    c.sigterm = true ∧ c.Alive
      ∧ (locked = false ∧ c.phase = .starting ∧ g' = g.killGroup.modify c.pid Child.exit
        ∨ locked = false ∧ c.phase = .serving ∧ g' = g.modify c.pid Child.exit
        ∨ locked = true ∧ g' = g.modify c.pid Child.wedge) := by
  unfold deliverChild at h
  split at h
  · next hsig =>
    refine ⟨hsig, ?_⟩
    split at h
    · next hphase =>
      obtain rfl := Option.some.inj h
      refine ⟨⟨by rw [hphase]; decide, by rw [hphase]; decide⟩, ?_⟩
      cases locked with
      | false => exact Or.inl ⟨rfl, hphase, rfl⟩
      | true => exact Or.inr (Or.inr ⟨rfl, rfl⟩)
    · next hphase =>
      obtain rfl := Option.some.inj h
      refine ⟨⟨by rw [hphase]; decide, by rw [hphase]; decide⟩, ?_⟩
      cases locked with
      | false => exact Or.inr (Or.inl ⟨rfl, hphase, rfl⟩)
      | true => exact Or.inr (Or.inr ⟨rfl, rfl⟩)
    · exact absurd h (by simp)
    · exact absurd h (by simp)
  · exact absurd h (by simp)

/-- **Only `fork` and `wait` change the children there are**, and the number to be
forked. The master does not come back. -/
theorem step_frame (hfork : ∀ p, input ≠ .fork (some p)) (hwait : ∀ p, input ≠ .wait (some p))
    (hstep : g.step input = some g') :
    g'.pids = g.pids ∧ g'.iWorkerCount = g.iWorkerCount
      ∧ (g'.master = .running → g.master = .running) := by
  cases input with
  | fork iPid =>
    cases iPid with
    | none =>
      obtain ⟨hrun, hg⟩ := Option.ite_none_right_eq_some.mp hstep
      obtain rfl := Option.some.inj hg
      exact ⟨rfl, rfl, fun _ => hrun.1⟩
    | some p => exact absurd rfl (hfork p)
  | wait iWaitPid =>
    cases iWaitPid with
    | none =>
      obtain ⟨hrun, hg⟩ := Option.ite_none_right_eq_some.mp hstep
      obtain rfl := Option.some.inj hg
      exact ⟨pids_killGroup, rfl, fun _ => hrun.1⟩
    | some p => exact absurd rfl (hwait p)
  | kill pid =>
    cases pid with
    | none =>
      obtain ⟨hrun, hg⟩ := Option.ite_none_right_eq_some.mp hstep
      obtain rfl := Option.some.inj hg
      exact ⟨rfl, rfl, id⟩
    | some pid =>
      obtain rfl := Option.some.inj hstep
      exact ⟨pids_modify (fun _ => Child.pid_signal), rfl, id⟩
  | deliver pid locked =>
    cases pid with
    | none =>
      obtain ⟨hrun, hg⟩ := Option.ite_none_right_eq_some.mp hstep
      obtain rfl := Option.some.inj hg
      cases locked with
      | false => exact ⟨pids_killGroup, rfl, fun _ => hrun.1⟩
      | true => exact ⟨rfl, rfl, fun _ => hrun.1⟩
    | some pid =>
      obtain ⟨c, -, hdeliver⟩ := Option.bind_eq_some_iff.mp hstep
      obtain ⟨-, -, ⟨-, -, rfl⟩ | ⟨-, -, rfl⟩ | ⟨-, rfl⟩⟩ := deliverChild_eq_some hdeliver
      · exact ⟨(pids_modify (fun _ => Child.pid_exit)).trans pids_killGroup, rfl, id⟩
      · exact ⟨pids_modify (fun _ => Child.pid_exit), rfl, id⟩
      · exact ⟨pids_modify (fun _ => Child.pid_wedge), rfl, id⟩
  | install pid =>
    obtain rfl := Option.some.inj hstep
    refine ⟨pids_modify (fun c => ?_), rfl, id⟩
    split <;> rfl
  | exits pid =>
    obtain rfl := Option.some.inj hstep
    exact ⟨pids_modify (fun _ => Child.pid_exit), rfl, id⟩

/-- **A child is forked.** -/
theorem step_fork (hstep : g.step (.fork (some pid)) = some g') :
    g.master = .running ∧ 0 < g.iWorkerCount ∧ g' = g.forkRound (some pid) := by
  obtain ⟨⟨hrun, hpos⟩, hg⟩ := Option.ite_none_right_eq_some.mp hstep
  exact ⟨hrun, hpos, (Option.some.inj hg).symm⟩

/-- **A child is waited for.** -/
theorem step_wait (hstep : g.step (.wait (some pid)) = some g') :
    g.master = .running ∧ g.iWorkerCount ≤ 0 ∧ g' = g.waitRound (some pid) := by
  obtain ⟨⟨hrun, hpos⟩, hg⟩ := Option.ite_none_right_eq_some.mp hstep
  exact ⟨hrun, not_lt.mp hpos, (Option.some.inj hg).symm⟩

/-! ## The count -/

/-- **The books of the master** for `W` workers: those to be forked and the children,
those that have ended included, are `W` while the master is in its loop. -/
structure Books (W : ℤ) (g : ProcessGroup) : Prop where
  count : g.master = .running → 0 ≤ g.iWorkerCount ∧ g.iWorkerCount + g.children.length = W
  most : (g.children.length : ℤ) ≤ W
  nodup : g.pids.Nodup

/-- What `wait` removes. -/
theorem children_waitRound : (g.waitRound (some pid)).children
    = g.children.eraseP (fun c => c.pid = pid ∧ c.phase = .zombie) := rfl

/-- **The step lemma.** -/
theorem Books.step (h : g.Books W) (hkernel : g.Kernel input) (hstep : g.step input = some g') :
    g'.Books W := by
  by_cases hfork : ∃ p, input = .fork (some p)
  · obtain ⟨p, rfl⟩ := hfork
    obtain ⟨hrun, hpos, rfl⟩ := step_fork hstep
    obtain ⟨-, hsum⟩ := h.count hrun
    have hlen : ((g.forkRound (some p)).children.length : ℤ) = g.children.length + 1 := by
      show ((g.children ++ [_]).length : ℤ) = _
      rw [List.length_append, List.length_singleton, Nat.cast_add, Nat.cast_one]
    refine ⟨fun _ => ?_, ?_, ?_⟩
    · rw [hlen]
      show 0 ≤ g.iWorkerCount - 1 ∧ g.iWorkerCount - 1 + _ = W
      omega
    · rw [hlen]
      omega
    · show ((g.children ++ [_]).map Child.pid).Nodup
      rw [List.map_append]
      refine List.nodup_append.mpr ⟨h.nodup, List.nodup_singleton _, fun a ha b hb hab => ?_⟩
      obtain rfl := List.mem_singleton.mp hb
      exact hkernel (hab ▸ ha)
  by_cases hwait : ∃ p, input = .wait (some p)
  · obtain ⟨p, rfl⟩ := hwait
    obtain ⟨hrun, hzero, rfl⟩ := step_wait hstep
    obtain ⟨hnonneg, hsum⟩ := h.count hrun
    obtain ⟨c, hc, hpid, hzombie⟩ := hkernel
    have hlen : (g.waitRound (some p)).children.length = g.children.length - 1 := by
      rw [children_waitRound]
      exact List.length_eraseP_of_mem hc (decide_eq_true ⟨hpid, hzombie⟩)
    have hpos := List.length_pos_of_mem hc
    refine ⟨fun _ => ?_, ?_, ?_⟩
    · rw [hlen]
      show 0 ≤ g.iWorkerCount + 1 ∧ g.iWorkerCount + 1 + _ = W
      omega
    · rw [hlen]
      omega
    · exact h.nodup.sublist (List.eraseP_sublist.map Child.pid)
  · push Not at hfork hwait
    obtain ⟨hpids, hcount, hrun⟩ := step_frame hfork hwait hstep
    have hlen : g'.children.length = g.children.length := by
      rw [← length_pids, hpids, length_pids]
    refine ⟨fun hrun' => ?_, ?_, ?_⟩
    · rw [hcount, hlen]
      exact h.count (hrun hrun')
    · rw [hlen]
      exact h.most
    · rw [hpids]
      exact h.nodup

theorem start_pos : 0 < (start n).iWorkerCount := by
  unfold start
  dsimp only
  split <;> omega

theorem books_start : (start n).Books (start n).iWorkerCount :=
  ⟨fun _ => ⟨le_of_lt start_pos, add_zero _⟩, le_of_lt start_pos, List.nodup_nil⟩

/-- **A master in its loop has a child to wait for.** -/
theorem Books.not_childless (h : g.Books W) (hW : 0 < W) (hkernel : g.Kernel (.wait none)) :
    g.step (.wait none) = none := by
  refine if_neg (fun ⟨hrun, hzero⟩ => ?_)
  obtain ⟨-, hsum⟩ := h.count hrun
  have hlen : g.children.length = 0 := List.length_eq_zero_iff.mpr hkernel
  rw [hlen] at hsum
  omega

/-! ## Restoring the workers -/

/-- The children that have ended and are still to be waited for. -/
def zombies (g : ProcessGroup) : ℕ := g.children.countP (fun c => c.phase = .zombie)

/-- The rounds the master is away from having all its workers: one `fork` for each that is
to be forked, and a `wait` before it for each that has ended. -/
def toRestore (g : ProcessGroup) : ℕ := 2 * g.zombies + g.iWorkerCount.toNat

/-- **The rounds of the master**, where `fork` does not fail. -/
def Own (g : ProcessGroup) (input : GroupInput) : Prop :=
  g.Kernel input ∧ ∃ pid, input = .fork (some pid) ∨ input = .wait (some pid)

/-- **All `W` workers are there**, and the master waits. -/
structure Complete (W : ℤ) (g : ProcessGroup) : Prop where
  running : g.master = .running
  none : g.iWorkerCount = 0
  all : (g.children.length : ℤ) = W
  live : ∀ c ∈ g.children, c.phase ≠ .zombie

/-- What is kept while the master goes on by itself: the children of `g₀` that have not
ended are still there. -/
structure Restoring (W : ℤ) (g₀ g : ProcessGroup) : Prop where
  running : g.master = .running
  books : g.Books W
  kept : ∀ c ∈ g₀.children, c.phase ≠ .zombie → c ∈ g.children

/-- `wait` takes away one child that has ended. -/
theorem waitRound_spec (hkernel : g.Kernel (.wait (some pid))) :
    (g.waitRound (some pid)).zombies + 1 = g.zombies
      ∧ ∀ c ∈ g.children, c.phase ≠ .zombie → c ∈ (g.waitRound (some pid)).children := by
  obtain ⟨c, hc, hpid, hzombie⟩ := hkernel
  obtain ⟨d, l₁, l₂, -, hd, hsplit, herase⟩ := List.exists_of_eraseP
    (p := fun c : Child => c.pid = pid ∧ c.phase = .zombie) hc (decide_eq_true ⟨hpid, hzombie⟩)
  have hdz : d.phase = .zombie := (of_decide_eq_true hd).2
  unfold zombies
  rw [children_waitRound, herase, hsplit]
  refine ⟨?_, fun e he hlive => ?_⟩
  · rw [List.countP_append, List.countP_append,
      List.countP_cons_of_pos (p := fun e : Child => decide (e.phase = .zombie))
        (decide_eq_true hdz)]
    rfl
  · rcases List.mem_append.mp he with he | he
    · exact List.mem_append_left _ he
    · obtain rfl | he := List.mem_cons.mp he
      · exact absurd hdz hlive
      · exact List.mem_append_right _ he

/-- **Every round brings the master one nearer.** -/
theorem restoring_countsDown (W : ℤ) (g₀ : ProcessGroup) :
    Run.CountsDown step (Restoring W g₀) Own toRestore := by
  rintro g input g' h ⟨hkernel, pid, rfl | rfl⟩ hstep
  · have hbooks := h.books.step hkernel hstep
    obtain ⟨hrun, hpos, rfl⟩ := step_fork hstep
    refine ⟨⟨hrun, hbooks, fun c hc hlive => List.mem_append_left _ (h.kept c hc hlive)⟩, ?_⟩
    have hzombies : (g.forkRound (some pid)).zombies = g.zombies := by
      show (g.children ++ [_]).countP _ = _
      rw [List.countP_append]
      rfl
    unfold toRestore
    rw [hzombies]
    show 2 * g.zombies + (g.iWorkerCount - 1).toNat + 1 = _
    omega
  · have hbooks := h.books.step hkernel hstep
    obtain ⟨hrun, hzero, rfl⟩ := step_wait hstep
    obtain ⟨hcount, hkept⟩ := waitRound_spec hkernel
    refine ⟨⟨hrun, hbooks, fun c hc hlive => hkept c (h.kept c hc hlive) hlive⟩, ?_⟩
    have hnonneg := (h.books.count hrun).1
    unfold toRestore
    show 2 * (g.waitRound (some pid)).zombies + (g.iWorkerCount + 1).toNat + 1 = _
    omega

/-- The master is not stuck before its workers are there. -/
theorem Restoring.go {g₀ : ProcessGroup} (h : Restoring W g₀ g) (hrank : g.toRestore ≠ 0) :
    ∃ input g', g.Own input ∧ g.step input = some g' := by
  by_cases hpos : 0 < g.iWorkerCount
  · obtain ⟨pid, hnew⟩ := Infinite.exists_notMem_finset g.pids.toFinset
    rw [List.mem_toFinset] at hnew
    exact ⟨.fork (some pid), _, ⟨hnew, pid, Or.inl rfl⟩, if_pos ⟨h.running, hpos⟩⟩
  · have hzombies : 0 < g.zombies := by
      unfold toRestore at hrank
      omega
    obtain ⟨c, hc, hzombie⟩ := List.countP_pos_iff.mp hzombies
    exact ⟨.wait (some c.pid), _, ⟨⟨c, hc, rfl, of_decide_eq_true hzombie⟩, c.pid, Or.inr rfl⟩,
      if_pos ⟨h.running, hpos⟩⟩

/-- Nothing is left to be restored where all the workers are there. -/
theorem Restoring.complete {g₀ : ProcessGroup} (h : Restoring W g₀ g) (hrank : g.toRestore = 0) :
    g.Complete W := by
  obtain ⟨hnonneg, hsum⟩ := h.books.count h.running
  unfold toRestore at hrank
  refine ⟨h.running, by omega, by omega, fun c hc hzombie => ?_⟩
  have hpos : 0 < g.zombies := List.countP_pos_iff.mpr ⟨c, hc, decide_eq_true hzombie⟩
  omega

/-! ## The end of the group -/

/-- **Every child that goes on is told to end.** -/
def Told (g : ProcessGroup) : Prop := ∀ c ∈ g.children, c.Told

theorem told_killGroup : g.killGroup.Told := by
  intro c hc
  obtain ⟨d, -, rfl⟩ := List.mem_map.mp hc
  exact Child.told_signal

/-- **Where the master has ended regularly**, every child is told. -/
def Ending (g : ProcessGroup) : Prop := g.master = .exited 0 → g.Told

/-- **The step lemma**, for any step. -/
theorem Ending.step (h : g.Ending) (hstep : g.step input = some g') : g'.Ending := by
  have hrunning : g.master = .running → g'.master = g.master → g'.Ending := by
    intro hrun heq hexit
    rw [heq, hrun] at hexit
    exact absurd hexit (by simp)
  cases input with
  | fork iPid =>
    obtain ⟨hrun, hg⟩ := Option.ite_none_right_eq_some.mp hstep
    obtain rfl := Option.some.inj hg
    cases iPid with
    | none => exact fun hexit => absurd (MasterFate.exited.inj hexit) (by decide)
    | some p => exact hrunning hrun.1 rfl
  | wait iWaitPid =>
    obtain ⟨hrun, hg⟩ := Option.ite_none_right_eq_some.mp hstep
    obtain rfl := Option.some.inj hg
    cases iWaitPid with
    | none => exact fun _ => told_killGroup
    | some p => exact hrunning hrun.1 rfl
  | kill pid =>
    cases pid with
    | none =>
      obtain ⟨hrun, hg⟩ := Option.ite_none_right_eq_some.mp hstep
      obtain rfl := Option.some.inj hg
      exact hrunning hrun rfl
    | some pid =>
      obtain rfl := Option.some.inj hstep
      exact fun hexit => forall_modify (h hexit) (fun _ _ => Child.told_signal)
  | deliver pid locked =>
    cases pid with
    | none =>
      obtain ⟨-, hg⟩ := Option.ite_none_right_eq_some.mp hstep
      obtain rfl := Option.some.inj hg
      cases locked with
      | false => exact fun _ => told_killGroup
      | true => exact fun hexit => absurd hexit (by simp [parentSigHandler])
    | some pid =>
      obtain ⟨c, -, hdeliver⟩ := Option.bind_eq_some_iff.mp hstep
      obtain ⟨-, -, ⟨-, -, rfl⟩ | ⟨-, -, rfl⟩ | ⟨-, rfl⟩⟩ := deliverChild_eq_some hdeliver
      · exact fun _ => forall_modify told_killGroup (fun _ _ => Child.told_exit)
      · exact fun hexit => forall_modify (h hexit) (fun _ _ => Child.told_exit)
      · exact fun hexit => forall_modify (h hexit) (fun _ _ => Child.told_wedge)
  | install pid =>
    obtain rfl := Option.some.inj hstep
    refine fun hexit => forall_modify (h hexit) (fun c hc => ?_)
    split
    · next hstarting =>
      exact fun _ => hc ⟨by rw [hstarting]; decide, by rw [hstarting]; decide⟩
    · exact hc
  | exits pid =>
    obtain rfl := Option.some.inj hstep
    exact fun hexit => forall_modify (h hexit) (fun _ _ => Child.told_exit)

/-- **No child is stuck.** -/
def Free (g : ProcessGroup) : Prop := ∀ c ∈ g.children, c.phase ≠ .stuck

theorem Free.killGroup (h : g.Free) : g.killGroup.Free := by
  intro c hc
  obtain ⟨d, hd, rfl⟩ := List.mem_map.mp hc
  rw [Child.phase_signal]
  exact h d hd

/-- **Where no signal is delivered in the locked section**, no child gets stuck. -/
theorem Free.step (h : g.Free) (hopen : ∀ pid, input ≠ .deliver pid true)
    (hstep : g.step input = some g') : g'.Free := by
  have hexit : ∀ c : Child, c.phase ≠ .stuck → c.exit.phase ≠ .stuck := fun _ _ => by
    show ChildPhase.zombie ≠ .stuck
    decide
  cases input with
  | fork iPid =>
    obtain ⟨-, hg⟩ := Option.ite_none_right_eq_some.mp hstep
    obtain rfl := Option.some.inj hg
    cases iPid with
    | none => exact h
    | some p =>
      intro c hc
      obtain hc | hc := List.mem_append.mp hc
      · exact h c hc
      · obtain rfl := List.mem_singleton.mp hc
        show ChildPhase.starting ≠ .stuck
        decide
  | wait iWaitPid =>
    obtain ⟨-, hg⟩ := Option.ite_none_right_eq_some.mp hstep
    obtain rfl := Option.some.inj hg
    cases iWaitPid with
    | none => exact h.killGroup
    | some p => exact fun c hc => h c (List.mem_of_mem_eraseP hc)
  | kill pid =>
    cases pid with
    | none =>
      obtain ⟨-, hg⟩ := Option.ite_none_right_eq_some.mp hstep
      obtain rfl := Option.some.inj hg
      exact h
    | some pid =>
      obtain rfl := Option.some.inj hstep
      refine forall_modify h (fun c hc => ?_)
      rw [Child.phase_signal]
      exact hc
  | deliver pid locked =>
    cases locked with
    | true => exact absurd rfl (hopen pid)
    | false =>
      cases pid with
      | none =>
        obtain ⟨-, hg⟩ := Option.ite_none_right_eq_some.mp hstep
        obtain rfl := Option.some.inj hg
        exact h.killGroup
      | some pid =>
        obtain ⟨c, -, hdeliver⟩ := Option.bind_eq_some_iff.mp hstep
        obtain ⟨-, -, ⟨-, -, rfl⟩ | ⟨-, -, rfl⟩ | ⟨hlocked, -⟩⟩ := deliverChild_eq_some hdeliver
        · exact forall_modify h.killGroup hexit
        · exact forall_modify h hexit
        · exact absurd hlocked (by decide)
  | install pid =>
    obtain rfl := Option.some.inj hstep
    refine forall_modify h (fun c hc => ?_)
    split
    · show ChildPhase.serving ≠ .stuck
      decide
    · exact hc
  | exits pid =>
    obtain rfl := Option.some.inj hstep
    exact forall_modify h hexit

/-- The children that go on. -/
def live (g : ProcessGroup) : ℕ := g.children.countP (fun c => c.Alive)

theorem live_killGroup : g.killGroup.live = g.live := by
  unfold live killGroup
  dsimp only
  rw [List.countP_map]
  refine List.countP_congr (fun c _ => ?_)
  rw [Function.comp_apply, decide_eq_true_iff, decide_eq_true_iff]
  exact Child.alive_signal

/-- One child less, where one ends. -/
theorem live_exit (hnodup : g.pids.Nodup) (hc : c ∈ g.children) (hlive : c.Alive) :
    (g.modify c.pid Child.exit).live + 1 = g.live := by
  obtain ⟨l₁, l₂, hsplit⟩ := List.append_of_mem hc
  have hothers : ∀ d ∈ l₁ ++ l₂, d.pid ≠ c.pid := by
    have hpids : (l₁.map Child.pid ++ c.pid :: l₂.map Child.pid).Nodup := by
      have h := hnodup
      unfold pids at h
      rwa [hsplit, List.map_append, List.map_cons] at h
    have hnot := (List.nodup_middle.mp hpids).notMem
    rw [← List.map_append] at hnot
    exact fun d hd heq => hnot (List.mem_map.mpr ⟨d, hd, heq⟩)
  have hsame : ∀ l : List Child, (∀ d ∈ l, d.pid ≠ c.pid) →
      l.map (fun d => if d.pid = c.pid then d.exit else d) = l := by
    intro l hl
    refine (List.map_congr_left (fun d hd => ?_)).trans (List.map_id l)
    exact if_neg (hl d hd)
  unfold live modify
  rw [hsplit, List.map_append, List.map_cons, if_pos rfl,
    hsame l₁ (fun d hd => hothers d (List.mem_append_left _ hd)),
    hsame l₂ (fun d hd => hothers d (List.mem_append_right _ hd)),
    List.countP_append, List.countP_append,
    List.countP_cons_of_pos (p := fun e : Child => decide e.Alive)
      (decide_eq_true hlive)]
  rfl

/-- What is known once the master has ended regularly. -/
structure Ended (g : ProcessGroup) : Prop where
  exited : g.master = .exited 0
  told : g.Told
  nodup : g.pids.Nodup

/-- A `SIGTERM` is delivered to a child, outside the locked section. -/
def Delivery (_ : ProcessGroup) (input : GroupInput) : Prop :=
  ∃ pid, input = .deliver (some pid) false

/-- **Every delivery ends a child.** -/
theorem ended_countsDown : Run.CountsDown step Ended Delivery live := by
  rintro g input g' h ⟨pid, rfl⟩ hstep
  have hframe := step_frame (by simp) (by simp) hstep
  have hending : g'.Ending := Ending.step (fun _ => h.told) hstep
  obtain ⟨c, hfind, hdeliver⟩ := Option.bind_eq_some_iff.mp hstep
  obtain ⟨hc, -⟩ := child_eq_some hfind
  obtain ⟨-, halive, ⟨-, -, rfl⟩ | ⟨-, -, rfl⟩ | ⟨hlocked, -⟩⟩ := deliverChild_eq_some hdeliver
  · refine ⟨⟨h.exited, hending h.exited, hframe.1 ▸ h.nodup⟩, ?_⟩
    have hmem : c.signal ∈ g.killGroup.children := List.mem_map_of_mem hc
    have hlive := live_exit (pids_killGroup (g := g) ▸ h.nodup) hmem (Child.alive_signal.mpr halive)
    rw [Child.pid_signal, live_killGroup] at hlive
    exact hlive
  · exact ⟨⟨h.exited, hending h.exited, hframe.1 ▸ h.nodup⟩, live_exit h.nodup hc halive⟩
  · exact absurd hlocked (by decide)

/-- A child that goes on has a signal to be delivered. -/
theorem Ended.go (h : g.Ended) (hlive : g.live ≠ 0) :
    ∃ input g', g.Delivery input ∧ g.step input = some g' := by
  obtain ⟨c, hc, halive⟩ := List.countP_pos_iff.mp (Nat.pos_of_ne_zero hlive)
  have halive : c.Alive := of_decide_eq_true halive
  have hstep : g.step (.deliver (some c.pid) false) = g.deliverChild false c := by
    show (g.child c.pid).bind _ = _
    rw [child_of_mem h.nodup hc]
    rfl
  have hsig := h.told c hc halive
  unfold deliverChild at hstep
  rw [if_pos hsig] at hstep
  refine ⟨.deliver (some c.pid) false, ?_⟩
  rw [hstep]
  cases hcase : c.phase with
  | starting => exact ⟨_, ⟨c.pid, rfl⟩, rfl⟩
  | serving => exact ⟨_, ⟨c.pid, rfl⟩, rfl⟩
  | stuck => exact absurd hcase halive.2
  | zombie => exact absurd hcase halive.1

/-! ## What ends the master -/

/-- **The master is unharmed**: in its loop, and without a `SIGTERM`. -/
def Unharmed (g : ProcessGroup) : Prop := g.master = .running ∧ g.sigterm = false

/-- **What does no harm**: all but a `fork` that fails, a `SIGTERM` for the master, and one
that is delivered to a child before it has its own handler, and not in its log. -/
def Harmless (g : ProcessGroup) : GroupInput → Prop
  | .fork none => ¬ g.iWorkerCount > 0
  | .kill none => False
  | .deliver (some pid) false => ∀ c ∈ g.child pid, c.sigterm = true → c.phase ≠ .starting
  | _ => True

instance (g : ProcessGroup) : ∀ input, Decidable (g.Harmless input)
  | .fork none => inferInstanceAs (Decidable (¬ g.iWorkerCount > 0))
  | .fork (some _) => inferInstanceAs (Decidable True)
  | .wait _ => inferInstanceAs (Decidable True)
  | .kill none => inferInstanceAs (Decidable False)
  | .kill (some _) => inferInstanceAs (Decidable True)
  | .deliver none _ => inferInstanceAs (Decidable True)
  | .deliver (some _) true => inferInstanceAs (Decidable True)
  | .deliver (some pid) false =>
    inferInstanceAs (Decidable (∀ c ∈ g.child pid, c.sigterm = true → c.phase ≠ .starting))
  | .install _ => inferInstanceAs (Decidable True)
  | .exits _ => inferInstanceAs (Decidable True)

/-- What does no harm leaves the master unharmed, if it has workers. -/
theorem Unharmed.step (h : g.Unharmed) (hbooks : g.Books W) (hW : 0 < W)
    (hkernel : g.Kernel input) (hharmless : g.Harmless input) (hstep : g.step input = some g') :
    g'.Unharmed := by
  cases input with
  | fork iPid =>
    cases iPid with
    | none =>
      obtain ⟨⟨-, hpos⟩, -⟩ := Option.ite_none_right_eq_some.mp hstep
      exact absurd hpos hharmless
    | some p =>
      obtain ⟨-, -, rfl⟩ := step_fork hstep
      exact h
  | wait iWaitPid =>
    cases iWaitPid with
    | none => exact absurd (hstep.symm.trans (hbooks.not_childless hW hkernel)) (by simp)
    | some p =>
      obtain ⟨-, -, rfl⟩ := step_wait hstep
      exact h
  | kill pid =>
    cases pid with
    | none => exact absurd hharmless not_false
    | some pid =>
      obtain rfl := Option.some.inj hstep
      exact h
  | deliver pid locked =>
    cases pid with
    | none =>
      obtain ⟨⟨-, hsig⟩, -⟩ := Option.ite_none_right_eq_some.mp hstep
      exact absurd (h.2.symm.trans hsig) (by decide)
    | some pid =>
      obtain ⟨c, hfind, hdeliver⟩ := Option.bind_eq_some_iff.mp hstep
      obtain ⟨hsig, -, ⟨rfl, hstarting, -⟩ | ⟨-, -, rfl⟩ | ⟨-, rfl⟩⟩ :=
        deliverChild_eq_some hdeliver
      · exact absurd hstarting (hharmless c hfind hsig)
      · exact h
      · exact h
  | install pid =>
    obtain rfl := Option.some.inj hstep
    exact h
  | exits pid =>
    obtain rfl := Option.some.inj hstep
    exact h

/-- What does harm does it at once. -/
theorem Unharmed.harmed (h : g.Unharmed) (hharm : ¬ g.Harmless input) :
    ∃ g', g.step input = some g' ∧ ¬ g'.Unharmed := by
  cases input with
  | fork iPid =>
    cases iPid with
    | none => exact ⟨_, if_pos ⟨h.1, not_not.mp hharm⟩, fun h' => absurd h'.1 (by simp [forkRound])⟩
    | some p => exact absurd trivial hharm
  | kill pid =>
    cases pid with
    | none => exact ⟨_, if_pos h.1, fun h' => absurd h'.2 Bool.noConfusion⟩
    | some pid => exact absurd trivial hharm
  | deliver pid locked =>
    cases pid with
    | none => exact absurd trivial hharm
    | some pid =>
      cases locked with
      | true => exact absurd trivial hharm
      | false =>
        unfold Harmless at hharm
        push Not at hharm
        obtain ⟨c, hfind, hsig, hstarting⟩ := hharm
        refine ⟨g.parentSigHandlerChild c.pid false, ?_, fun h' => absurd h'.2 Bool.noConfusion⟩
        show (g.child pid).bind (g.deliverChild false) = _
        rw [Option.mem_def.mp hfind]
        show g.deliverChild false c = _
        unfold deliverChild
        rw [if_pos hsig, hstarting]
  | wait iWaitPid => exact absurd trivial hharm
  | install pid => exact absurd trivial hharm
  | exits pid => exact absurd trivial hharm

end ProcessGroup

open ProcessGroup

/-- **The master keeps its workers**, over any run of the group: the workers to be forked
and the children make the number that was asked for as long as the master is in its loop,
there are never more children than that, and no two have the same process id. And the
branch of the loop in which `wait` fails is never taken. -/
theorem master_keeps_count (iWorkerCount : ℤ) {inputs : List GroupInput}
    (hkernel : Run.Along step Kernel (start iWorkerCount) inputs) :
    Run.Always step (Books (start iWorkerCount).iWorkerCount) (start iWorkerCount) inputs
      ∧ Run.Along step (fun g input => input = .wait none → g.step input = none)
        (start iWorkerCount) inputs := by
  have halways := Run.always_of_along (P := Books (start iWorkerCount).iWorkerCount)
    (fun _ _ _ h hkernel hstep => h.step hkernel hstep) books_start hkernel
  refine ⟨halways, halways.along hkernel (fun g input h hkernel heq => ?_)⟩
  subst heq
  exact h.not_childless start_pos hkernel

/-- Two workers. The first one ends and is replaced. -/
def replacedWorker : List GroupInput :=
  [.fork (some 101), .fork (some 102), .install 101, .exits 101, .wait (some 101),
    .fork (some 103), .install 102, .install 103]

theorem master_keeps_count_sample :
    Run.Always step (Books (start 2).iWorkerCount) (start 2) replacedWorker
      ∧ Run.Along step (fun g input => input = .wait none → g.step input = none)
        (start 2) replacedWorker :=
  master_keeps_count 2 (by decide)

/-- **The master restores its workers**, from any state a run has led to. Left alone, it
has them all after one `fork` for each that is to be forked and a `wait` and a `fork` for
each that has ended: it cannot make more rounds than that, it is not stuck before, and the
children that have not ended are left as they are. -/
theorem master_restores (iWorkerCount : ℤ) (inputs : List GroupInput) {g : ProcessGroup}
    (hkernel : Run.Along step Kernel (start iWorkerCount) inputs)
    (hexec : Run.exec step (start iWorkerCount) inputs = some g) (hrun : g.master = .running) :
    (∀ as t, Run.Along step Own g as → Run.exec step g as = some t →
        as.length ≤ g.toRestore
        ∧ (as.length = g.toRestore → t.Complete (start iWorkerCount).iWorkerCount)
        ∧ ∀ c ∈ g.children, c.phase ≠ .zombie → c ∈ t.children)
      ∧ ∃ as t, Run.Along step Own g as ∧ Run.exec step g as = some t
        ∧ as.length = g.toRestore ∧ t.Complete (start iWorkerCount).iWorkerCount := by
  have hbooks : g.Books (start iWorkerCount).iWorkerCount :=
    (Run.always_of_along (fun _ _ _ h hkernel hstep => h.step hkernel hstep) books_start
      hkernel).exec hexec
  have hstart : Restoring (start iWorkerCount).iWorkerCount g g := ⟨hrun, hbooks, fun _ hc _ => hc⟩
  have hdown := restoring_countsDown (start iWorkerCount).iWorkerCount g
  constructor
  · intro as t hown hend
    obtain ⟨ht, hlen⟩ := hdown.exec hstart hown hend
    exact ⟨by omega, fun heq => ht.complete (by omega), ht.kept⟩
  · obtain ⟨as, t, hown, hend, ht, hzero, hlen⟩ :=
      hdown.exists_exec (fun _ h hrank => h.go hrank) hstart
    exact ⟨as, t, hown, hend, hlen, ht.complete hzero⟩

/-- A worker has ended: the master is two rounds away from having both again. -/
theorem master_restores_sample :
    ∃ g, Run.exec step (start 2) (replacedWorker.take 4) = some g ∧ g.toRestore = 2
      ∧ ∃ as t, Run.Along step Own g as ∧ Run.exec step g as = some t
        ∧ as.length = g.toRestore ∧ t.Complete (start 2).iWorkerCount :=
  ⟨_, rfl, rfl, (master_restores 2 (replacedWorker.take 4) (by decide) rfl rfl).2⟩

/-- **The end of the master is the end of the group.** Where the master has ended with
exit code `0`, in any run, every child that goes on has a `SIGTERM` to come. Its delivery
ends the child, unless this is in the middle of a log call: after as many deliveries
outside of these as there are children going on, none does. Where there was no delivery in
the middle of a log call before, the other children have ended; otherwise they may be
stuck. -/
theorem master_shutdown (iWorkerCount : ℤ) (inputs : List GroupInput) {g : ProcessGroup}
    (hkernel : Run.Along step Kernel (start iWorkerCount) inputs)
    (hexec : Run.exec step (start iWorkerCount) inputs = some g) (hexit : g.master = .exited 0) :
    (∀ c ∈ g.children, c.Alive → c.sigterm = true)
      ∧ (∀ as t, Run.Along step Delivery g as → Run.exec step g as = some t →
        t.live + as.length = g.live)
      ∧ (∃ as t, Run.Along step Delivery g as ∧ Run.exec step g as = some t
        ∧ as.length = g.live ∧ ∀ c ∈ t.children, ¬ c.Alive)
      ∧ ((∀ pid, .deliver pid true ∉ inputs) → ∀ c ∈ g.children, c.Alive ∨ c.phase = .zombie) := by
  have hbooks : g.Books (start iWorkerCount).iWorkerCount :=
    (Run.always_of_along (fun _ _ _ h hkernel hstep => h.step hkernel hstep) books_start
      hkernel).exec hexec
  have hending : g.Ending :=
    (Run.always_of_along (fun _ _ _ h _ hstep => h.step hstep)
      (fun _ c hc => absurd hc List.not_mem_nil) (Run.along_true (start iWorkerCount) inputs)).exec
      hexec
  have hended : g.Ended := ⟨hexit, hending hexit, hbooks.nodup⟩
  refine ⟨hended.told, fun as t hdelivery hend =>
    (ended_countsDown.exec hended hdelivery hend).2, ?_, fun hopen c hc => ?_⟩
  · obtain ⟨as, t, hdelivery, hend, -, hzero, hlen⟩ :=
      ended_countsDown.exists_exec (fun _ h hlive => h.go hlive) hended
    exact ⟨as, t, hdelivery, hend, hlen, fun c hc hlive =>
      List.countP_eq_zero.mp hzero c hc (decide_eq_true hlive)⟩
  · have hguard : Run.Along step (fun _ input => ∀ pid, input ≠ .deliver pid true)
        (start iWorkerCount) inputs := by
      refine Run.along_of_forall_mem (fun input hinput _ pid heq => ?_) _
      rw [heq] at hinput
      exact hopen pid hinput
    have hfree : g.Free := (Run.always_of_along (fun _ _ _ h hopen hstep => h.step hopen hstep)
      (fun _ hd => absurd hd List.not_mem_nil) hguard).exec hexec
    by_cases hzombie : c.phase = .zombie
    · exact Or.inr hzombie
    · exact Or.inl ⟨hzombie, hfree c hc⟩

/-- The master is told to end, with one worker serving and the other one starting. -/
theorem master_shutdown_sample :
    ∃ g, Run.exec step (start 2) [.fork (some 101), .fork (some 102), .install 101, .kill none,
        .deliver none false] = some g ∧ g.live = 2
      ∧ (∀ c ∈ g.children, c.Alive → c.sigterm = true)
      ∧ ∃ as t, Run.Along step Delivery g as ∧ Run.exec step g as = some t
        ∧ as.length = g.live ∧ ∀ c ∈ t.children, ¬ c.Alive := by
  have hshutdown := master_shutdown 2 [.fork (some 101), .fork (some 102), .install 101,
    .kill none, .deliver none false] (by decide) rfl rfl
  exact ⟨_, rfl, rfl, hshutdown.1, hshutdown.2.2.1⟩

/-- **The master lives on exactly if nothing does harm**: no `fork` fails, no `SIGTERM` is
sent to it, and none is delivered to a child that has not come to its own handler yet. The
ends of workers, and what is sent to those that serve, are their own. -/
theorem master_survives_iff (iWorkerCount : ℤ) {inputs : List GroupInput}
    (hkernel : Run.Along step Kernel (start iWorkerCount) inputs) :
    Run.Always step Unharmed (start iWorkerCount) inputs
      ↔ Run.Along step Harmless (start iWorkerCount) inputs :=
  Run.always_iff_along (P := fun g => g.Books (start iWorkerCount).iWorkerCount ∧ g.Unharmed)
    (fun _ h => h.2)
    (fun _ _ _ h hkernel hharmless hstep =>
      ⟨h.1.step hkernel hstep, h.2.step h.1 start_pos hkernel hharmless hstep⟩)
    (fun _ _ h _ hharm => h.2.harmed hharm) ⟨books_start, rfl, rfl⟩ hkernel

/-- A worker that ends and is replaced does no harm. -/
theorem master_survives_sample : Run.Always step Unharmed (start 2) replacedWorker :=
  (master_survives_iff 2 (by decide)).mpr (by decide)
