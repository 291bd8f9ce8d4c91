import TcpFrame.WorkerTimers
import TcpFrame.MinHeapRuns

/-!
# Runs of the timers of a worker

A run of a worker, as far as its timers are concerned: connections are accepted,
complete a packet, are destroyed and time out, in any order. Over any run whose
erases sift down, the heap holds the timer of every live connection and nothing
else, and no connection is timed out twice or while it is not there
(`worker_always_one_timer`).

A timer that is set to `t` milliseconds fires on time, whatever happens to the
other connections, exactly if `t` is a number of full seconds
(`timer_fires_on_time_iff`): what is left of the last second is added as
microseconds.
-/

open MinHeap Worker

/-- What happens to the timers of a worker: `ProcessAcceptCallback` with a new
connection, the registration at the end of a completed packet, a connection
that a callback destroys, `ReactorProcessTimeoutEvent`, and a new reading of the
clock. -/
inductive TimerOp where
  | accept (a : Accepted)
  | packet (c : ConnPtr) (realloc : Bool)
  | disconnect (c : ConnPtr)
  | tick
  | clock (t : TimeVal)

namespace TimerOp

/-- What an operation leaves of the worker. -/
def apply (w : Worker) : TimerOp → Worker
  | accept a => processAcceptCallback w w.iListenFd (.conn a)
  | packet c realloc => reactorCall c realloc w (.registerTimerOutEvent maxConnTimeout)
  | disconnect c => destroyConn w c
  | tick => reactorProcessTimeoutEvent w
  | clock t => { w with pstTimeCache := t }

/-- **One operation.** A process that has ended does nothing more, and one that
exits has no state after that. -/
def step (w : Worker) (op : TimerOp) : Option Worker :=
  if w.fate = .running then
    if (op.apply w).fate = .exited then none else some (op.apply w)
  else none

/-- **What can happen**: the memory of a new connection is new, a callback is
for a live connection, and there is memory for the heap. -/
def Admissible (w : Worker) : TimerOp → Prop
  | accept a => w.Fresh a ∧ a.realloc = true
  | packet c realloc => w.conns c ≠ none ∧ realloc = true
  | disconnect c => w.conns c ≠ none
  | _ => True

/-- The clock does not go back. -/
def Forward (w : Worker) : TimerOp → Prop
  | clock t => t.Normalised ∧ w.pstTimeCache ≤ t
  | _ => True

/-- **The erase of the operation sifts down**, if it has one: that of a packet
is made when the node has its new deadline. -/
def SiftsDown (w : Worker) : TimerOp → Prop
  | packet c _ => ∀ conn ∈ w.conns c,
      minheapEraseShiftsUp (w.rearmed conn.pstTimeoutEvent maxConnTimeout) conn.pstTimeoutEvent
        = false
  | disconnect c => ∀ conn ∈ w.conns c,
      minheapEraseShiftsUp w.pstHeapHeader conn.pstTimeoutEvent = false
  | _ => True

variable {w w' : Worker} {op : TimerOp} {c : ConnPtr} {conn : ConnFd} {a : Accepted}

theorem step_eq_some (h : step w op = some w') :
    w.fate = .running ∧ w' = op.apply w ∧ w'.fate ≠ .exited := by
  unfold step at h
  by_cases hrun : w.fate = .running
  · rw [if_pos hrun] at h
    by_cases hexit : (op.apply w).fate = .exited
    · rw [if_pos hexit] at h
      exact absurd h (by simp)
    · rw [if_neg hexit] at h
      obtain rfl := Option.some.inj h
      exact ⟨hrun, rfl, hexit⟩
  · rw [if_neg hrun] at h
    exact absurd h (by simp)

/-- What an operation does, where the process does not end. -/
def Does (w w' : Worker) : TimerOp → Prop
  | accept a => w' = w ∨ w.Joined a w'
      ∧ (w.Tabled → 0 ≤ a.iClientFd → a.iClientFd < w.table.iFdEventArraySize → w'.Tabled)
  | packet c _ => ∃ conn, w.conns c = some conn
      ∧ w' = registerTimerOutEvent w conn.pstTimeoutEvent maxConnTimeout true
  | disconnect c => ∃ conn, w.conns c = some conn ∧ w.Without c conn w' ∧ (w.Tabled → w'.Tabled)
  | tick => w.Ticked w'
  | clock t => w' = { w with pstTimeCache := t }

/-- **What an operation does**, from what its function does. -/
theorem step_does (h : w.Timers) (hadm : op.Admissible w) (hstep : step w op = some w') :
    w'.fate = .running ∧ op.Does w w' := by
  obtain ⟨hrun, rfl, hexit⟩ := step_eq_some hstep
  cases op with
  | accept a =>
    obtain hexit' | hsame | ⟨hjoined, hfate, htabled⟩ :=
      processAcceptCallback_spec h hadm.1 hadm.2
    · exact absurd hexit' hexit
    · exact ⟨(congrArg Worker.fate hsame).trans hrun, Or.inl hsame⟩
    · exact ⟨hfate.trans hrun, Or.inr ⟨hjoined, htabled⟩⟩
  | packet c realloc =>
    obtain ⟨hlive, rfl⟩ := hadm
    obtain ⟨conn, hc⟩ := Option.ne_none_iff_exists'.mp hlive
    have happly : apply w (packet c true)
        = registerTimerOutEvent w conn.pstTimeoutEvent maxConnTimeout true :=
      reactorCall_live hrun hc
    exact ⟨(congrArg Worker.fate happly).trans hrun, conn, hc, happly⟩
  | disconnect c =>
    obtain ⟨conn, hc⟩ := Option.ne_none_iff_exists'.mp hadm
    obtain ⟨hexit', -⟩ | ⟨hfate, hwo, htabled⟩ := destroyConn_without hc
    · exact absurd hexit' hexit
    · exact ⟨hfate.trans hrun, conn, hc, hwo, htabled⟩
  | tick =>
    obtain ⟨hexit', -⟩ | ht := reactorProcessTimeoutEvent_spec h hrun
    · exact absurd hexit' hexit
    · exact ⟨ht.fate.trans hrun, ht⟩
  | clock t => exact ⟨hrun, rfl⟩

end TimerOp

namespace Worker

variable {w w' : Worker} {op : TimerOp}

/-- **What holds of the timers of a worker at all times.** -/
structure Kept (w : Worker) : Prop extends w.Timers, w.Serials

/-- **The step lemma**: an operation whose erase sifts down keeps the timers, and
with them the timer of every live connection in the heap. -/
theorem Kept.step (h : w.Kept) (hadm : op.Admissible w) (hdown : op.SiftsDown w)
    (hstep : op.step w = some w') : w'.Kept ∧ (w.Armed → w'.Armed) := by
  obtain ⟨-, hdoes⟩ := TimerOp.step_does h.toTimers hadm hstep
  cases op with
  | accept a =>
    obtain rfl | ⟨hjoined, -⟩ := hdoes
    · exact ⟨h, id⟩
    · exact ⟨⟨hjoined.timers, hjoined.serials h.toSerials⟩, hjoined.armed⟩
  | packet c realloc =>
    obtain ⟨conn, hc, rfl⟩ := hdoes
    have htimers := registerTimerOutEvent_timers h.toTimers (mem_nodes hc) (hdown conn hc)
    obtain ⟨-, hheld, -⟩ := registerTimerOutEvent_heap h.toTimers (mem_nodes hc) (hdown conn hc)
    refine ⟨⟨htimers, h.lt, h.inj, h.timeouts⟩, fun ha => ?_⟩
    unfold Armed
    rw [hheld]
    exact ha.trans (Set.subset_insert _ _)
  | disconnect c =>
    obtain ⟨conn, hc, hwo, -⟩ := hdoes
    obtain ⟨htimers, hheld, -⟩ := hwo.timers h.toTimers hc (hdown conn hc)
    refine ⟨⟨htimers, hwo.serials h.toSerials⟩, fun ha => ?_⟩
    rintro p ⟨d, e, hd, rfl⟩
    obtain ⟨hdc, hd⟩ := hwo.conns_eq.mp hd
    rw [hheld]
    exact ⟨ha (mem_nodes hd), fun heq => hdc (h.node_inj d c e conn hd hc heq)⟩
  | tick => exact ⟨⟨hdoes.timers, hdoes.serials h.toSerials⟩, hdoes.armed⟩
  | clock t =>
    obtain rfl := hdoes
    exact ⟨⟨⟨h.heap, h.callback, h.node_inj⟩, h.lt, h.inj, h.timeouts⟩, id⟩

end Worker

/-! ## One timer for each connection -/

/-- **One timer for each live connection**: the heap holds it exactly once, and
nothing else; and every timeout so far was for a connection that was alive, and
for no connection twice. -/
structure Worker.OneTimerEach (w : Worker) : Prop where
  once : ∀ c conn, w.conns c = some conn →
    ∃! i, i < w.pstHeapHeader.iNodeUsed ∧ w.pstHeapHeader.slot i = conn.pstTimeoutEvent
  only : ∀ i < w.pstHeapHeader.iNodeUsed,
    ∃ c conn, w.conns c = some conn ∧ conn.pstTimeoutEvent = w.pstHeapHeader.slot i
  timeouts : ∃ serials : List ℕ, w.timeouts = serials.map some ∧ serials.Nodup

theorem Worker.Kept.oneTimerEach {w : Worker} (h : w.Kept) (ha : w.Armed) :
    w.OneTimerEach where
  once c conn hc := by
    obtain ⟨i, hi, hslot⟩ := ha (mem_nodes hc)
    refine ⟨i, ⟨hi, hslot⟩, fun j hj => ?_⟩
    exact h.heap.toBacked.slot_inj hj.1 hi (hj.2.trans hslot.symm)
  only i hi := h.heap.mem i hi
  timeouts := by
    obtain ⟨serials, htimeouts, hnodup, -⟩ := h.timeouts
    exact ⟨serials, htimeouts, hnodup⟩

theorem eventBaseCreate_kept {table : EventTable} {event : NodePtr → TimeoutEvent}
    {t : TimeVal} {iFd iPid : ℤ} : (eventBaseCreate table event t iFd iPid).Kept
      ∧ (eventBaseCreate table event t iFd iPid).Armed := by
  have hnone : ∀ c conn, (eventBaseCreate table event t iFd iPid).conns c ≠ some conn :=
    fun c conn hc => absurd hc (by simp [eventBaseCreate])
  have hempty : (eventBaseCreate table event t iFd iPid).nodes = ∅ :=
    Set.eq_empty_of_forall_notMem (fun p ⟨c, conn, hc, _⟩ => hnone c conn hc)
  refine ⟨⟨⟨?_, fun c conn hc => absurd hc (hnone c conn),
        fun c _ conn _ hc => absurd hc (hnone c conn)⟩,
    ⟨fun c conn hc => absurd hc (hnone c conn), fun c _ conn _ hc => absurd hc (hnone c conn),
      [], rfl, List.nodup_nil, fun s hs => absurd hs List.not_mem_nil⟩⟩, ?_⟩
  · rw [hempty]
    exact
      { used_le := le_rfl
        index := fun _ hi => absurd hi (Nat.not_lt_zero _)
        mem := fun _ hi => absurd hi (Nat.not_lt_zero _)
        out := fun _ hp => absurd hp (Set.notMem_empty _)
        order := fun _ _ hi => absurd hi (Nat.not_lt_zero _) }
  · unfold Armed
    rw [hempty]
    exact Set.empty_subset _

/-- **One timer for each live connection, over every run** whose erases sift
down, whatever `epoll_ctl` does. -/
theorem worker_always_one_timer (table : EventTable) (event : NodePtr → TimeoutEvent)
    (t : TimeVal) (iListenFd iPid : ℤ) {ops : List TimerOp}
    (hadm : Run.Along TimerOp.step TimerOp.Admissible
      (eventBaseCreate table event t iListenFd iPid) ops)
    (hdown : Run.Along TimerOp.step TimerOp.SiftsDown
      (eventBaseCreate table event t iListenFd iPid) ops) :
    Run.Always TimerOp.step OneTimerEach (eventBaseCreate table event t iListenFd iPid) ops := by
  refine (Run.always_of_along (P := fun w => w.Kept ∧ w.Armed)
    (G := fun w op => op.Admissible w ∧ op.SiftsDown w) ?_ eventBaseCreate_kept
    (hadm.and hdown)).mono (fun w h => h.1.oneTimerEach h.2)
  intro w op w' h hG hstep
  obtain ⟨hkept, harmed⟩ := h.1.step hG.1 hG.2 hstep
  exact ⟨hkept, harmed h.2⟩

/-! ## Runs that can be computed -/

namespace TimerOp

variable {w w' : Worker} {op : TimerOp} {n : ℕ} {ops : List TimerOp}

/-- What can happen, where all connections are below `n`. This can be decided. -/
def AdmissibleBelow (n : ℕ) (w : Worker) : TimerOp → Prop
  | accept a => a.pstNewConnFd < n ∧ w.conns a.pstNewConnFd = none
      ∧ (∀ c < n, ∀ conn ∈ w.conns c, conn.pstTimeoutEvent ≠ a.pstTimeoutEvent)
      ∧ a.realloc = true
  | packet c realloc => w.conns c ≠ none ∧ realloc = true
  | disconnect c => w.conns c ≠ none
  | _ => True

instance (n : ℕ) (w : Worker) : ∀ op, Decidable (AdmissibleBelow n w op)
  | accept a => inferInstanceAs (Decidable (a.pstNewConnFd < n ∧ w.conns a.pstNewConnFd = none
      ∧ (∀ c < n, ∀ conn ∈ w.conns c, conn.pstTimeoutEvent ≠ a.pstTimeoutEvent)
      ∧ a.realloc = true))
  | packet c realloc => inferInstanceAs (Decidable (w.conns c ≠ none ∧ realloc = true))
  | disconnect c => inferInstanceAs (Decidable (w.conns c ≠ none))
  | tick => inferInstanceAs (Decidable True)
  | clock _ => inferInstanceAs (Decidable True)

instance (w : Worker) : ∀ op, Decidable (SiftsDown w op)
  | accept _ => inferInstanceAs (Decidable True)
  | packet c _ => inferInstanceAs (Decidable (∀ conn ∈ w.conns c,
      minheapEraseShiftsUp (w.rearmed conn.pstTimeoutEvent maxConnTimeout) conn.pstTimeoutEvent
        = false))
  | disconnect c => inferInstanceAs (Decidable (∀ conn ∈ w.conns c,
      minheapEraseShiftsUp w.pstHeapHeader conn.pstTimeoutEvent = false))
  | tick => inferInstanceAs (Decidable True)
  | clock _ => inferInstanceAs (Decidable True)

instance (w : Worker) : ∀ op, Decidable (Forward w op)
  | accept _ => inferInstanceAs (Decidable True)
  | packet _ _ => inferInstanceAs (Decidable True)
  | disconnect _ => inferInstanceAs (Decidable True)
  | tick => inferInstanceAs (Decidable True)
  | clock t => inferInstanceAs (Decidable (t.Normalised ∧ w.pstTimeCache ≤ t))

/-- `__DestroyConn` makes no connection. -/
theorem conns_destroyConn {c d : ConnPtr} (hd : w.conns d = none) :
    (destroyConn w c).conns d = none := by
  cases hc : w.conns c with
  | none =>
    unfold destroyConn
    rw [hc]
    exact hd
  | some conn =>
    obtain ⟨iClientCount, table, ⟨-, hdestroy⟩ | ⟨table', -, -, hdestroy⟩⟩ := destroyConn_spec hc
    · rw [hdestroy]
      exact hd
    · rw [hdestroy]
      show Function.update w.conns c none d = none
      by_cases hdc : d = c
      · rw [hdc, Function.update_self]
      · rw [Function.update_of_ne hdc]
        exact hd

theorem conns_connectionTimeoutCallback {d : ConnPtr} {arg : Option ConnPtr}
    (hd : w.conns d = none) : (connectionTimeoutCallback w arg).conns d = none := by
  cases arg with
  | none => exact hd
  | some c => exact conns_destroyConn hd

theorem conns_processTimeoutLoop {fuel : ℕ} {d : ConnPtr} (hd : w.conns d = none) :
    (processTimeoutLoop fuel w).conns d = none := by
  induction fuel generalizing w with
  | zero => exact hd
  | succ fuel ih =>
    unfold processTimeoutLoop
    split
    · exact hd
    split
    · exact hd
    dsimp only
    split
    · exact ih hd
    split
    · exact ih (conns_connectionTimeoutCallback hd)
    · exact conns_connectionTimeoutCallback hd

/-- A connection is only ever made at the pointer of an accept. -/
theorem conns_processAcceptCallback {t_iFd : ℤ} {a : Accepted} {d : ConnPtr}
    (hda : d ≠ a.pstNewConnFd) (hd : w.conns d = none) :
    (processAcceptCallback w t_iFd (.conn a)).conns d = none := by
  unfold processAcceptCallback
  split
  · exact hd
  split
  · exact hd
  split
  swap
  · exact hd
  dsimp only
  split
  · exact hd
  have hjoined : Function.update w.conns a.pstNewConnFd
      (some (.create a.iClientFd a.pstTimeoutEvent a.pszRecvBuf a.pszSendBuf w.nextSerial)) d
        = none := by
    rw [Function.update_of_ne hda]
    exact hd
  split
  · exact hjoined
  · exact hjoined

/-- All connections are below `n`. -/
theorem conns_step (hnone : ∀ c, n ≤ c → w.conns c = none) (hop : op.AdmissibleBelow n w)
    (hstep : step w op = some w') : ∀ c, n ≤ c → w'.conns c = none := by
  intro d hd
  have hd' := hnone d hd
  obtain ⟨hrun, rfl, -⟩ := step_eq_some hstep
  cases op with
  | accept a => exact conns_processAcceptCallback (hop.1.trans_le hd).ne' hd'
  | packet c realloc =>
    obtain ⟨conn, hc⟩ := Option.ne_none_iff_exists'.mp hop.1
    rw [show apply w (packet c realloc) = _ from reactorCall_live hrun hc]
    exact hd'
  | disconnect c => exact conns_destroyConn hd'
  | tick => exact conns_processTimeoutLoop hd'
  | clock t => exact hd'

/-- **What is checked below `n` holds of all**, where all connections are there
from the start. -/
theorem along_admissible_of_below (hnone : ∀ c, n ≤ c → w.conns c = none)
    (h : Run.Along step (AdmissibleBelow n) w ops) : Run.Along step Admissible w ops := by
  induction ops generalizing w with
  | nil => trivial
  | cons op ops ih =>
    obtain ⟨hop, hrest⟩ := h
    refine ⟨?_, fun w' hstep => ih (conns_step hnone hop hstep) (hrest w' hstep)⟩
    cases op with
    | accept a =>
      obtain ⟨-, hconn, hnode, hrealloc⟩ := hop
      refine ⟨⟨hconn, ?_⟩, hrealloc⟩
      rintro ⟨c, conn, hc, heq⟩
      have hlt : c < n := by
        by_contra hge
        rw [hnone c (not_lt.mp hge)] at hc
        exact absurd hc (by simp)
      exact hnode c hlt conn hc heq
    | packet c realloc => exact hop
    | disconnect c => exact hop
    | tick => trivial
    | clock t => trivial

end TimerOp

/-- A worker that listens on descriptor `3`. -/
def sampleWorker : Worker :=
  eventBaseCreate
    { emptyTable with iFdEventArraySize := 16, epoll := emptyTable.epoll.accept 3 }
    blankEvent ⟨0, 0⟩ 3 1

/-- The `i`-th connection. -/
def sampleAccepted (i : ℕ) : Accepted where
  iClientFd := i + 4
  pstNewConnFd := i
  pstTimeoutEvent := i
  pszRecvBuf := fun _ => 0
  pszSendBuf := fun _ => 0
  nonblock := true
  malloc := true
  realloc := true

/-- The `i`-th connection is accepted. -/
def sampleAccept (i : ℕ) : TimerOp := .accept (sampleAccepted i)

/-- Two connections, of which one completes a packet and the other one is timed
out. -/
theorem worker_always_one_timer_sample :
    Run.Always TimerOp.step OneTimerEach sampleWorker
      [sampleAccept 1, sampleAccept 2, .clock ⟨30, 0⟩, .packet 1 true, .clock ⟨61, 0⟩, .tick,
        .disconnect 1] :=
  worker_always_one_timer _ _ _ _ _
    (TimerOp.along_admissible_of_below (fun _ _ => rfl) (n := 3) (by decide +kernel))
    (by decide +kernel)

/-- Seven connections, one a second, of which three complete a packet; then
three are destroyed. -/
def lostTimerRun : List TimerOp :=
  [1, 2, 3, 4, 5, 6, 7].flatMap (fun i => [.clock ⟨i, 0⟩, sampleAccept i])
    ++ [.clock ⟨8, 0⟩, .packet 2 true, .clock ⟨9, 0⟩, .packet 4 true, .clock ⟨10, 0⟩,
      .packet 5 true, .disconnect 5, .disconnect 4, .disconnect 6]

/-- **A run that leaves a dead timer in the heap.** The erase for connection `4`
sifts the node of connection `6` up and resets its index, so that the erase for
connection `6` finds nothing to do, and its node stays in slot `1`. -/
theorem worker_not_always_one_timer :
    Run.Along TimerOp.step TimerOp.Admissible sampleWorker lostTimerRun
      ∧ Run.Along TimerOp.step TimerOp.Forward sampleWorker lostTimerRun
      ∧ ¬ Run.Always TimerOp.step OneTimerEach sampleWorker lostTimerRun := by
  have hbelow : Run.Along TimerOp.step (TimerOp.AdmissibleBelow 8) sampleWorker lostTimerRun := by
    decide +kernel
  refine ⟨TimerOp.along_admissible_of_below (fun _ _ => rfl) hbelow, by decide +kernel,
    fun halways => ?_⟩
  have hread : (Run.exec TimerOp.step sampleWorker lostTimerRun).map (fun w =>
      (w.pstHeapHeader.iNodeUsed, w.pstHeapHeader.slot 1,
        decide (∀ c < (8 : ℕ), ∀ conn ∈ w.conns c, conn.pstTimeoutEvent ≠ 6))) = some (5, 6, true) := by
    decide +kernel
  obtain ⟨w, hexec, hw⟩ := Option.map_eq_some_iff.mp hread
  obtain ⟨hused, hslot, hdead⟩ : w.pstHeapHeader.iNodeUsed = 5 ∧ w.pstHeapHeader.slot 1 = 6
      ∧ ∀ c < (8 : ℕ), ∀ conn ∈ w.conns c, conn.pstTimeoutEvent ≠ 6 := by
    simpa only [Prod.mk.injEq, decide_eq_true_eq] using hw
  have hnone := (Run.always_of_along (P := fun w => ∀ c, 8 ≤ c → w.conns c = none)
    (fun _ _ _ h hG hstep => TimerOp.conns_step h hG hstep) (fun _ _ => rfl) hbelow).exec hexec
  -- no live connection has the node in slot `1`
  obtain ⟨c, conn, hc, hnode⟩ := (halways.exec hexec).only 1 (by rw [hused]; decide)
  by_cases hlt : c < 8
  · exact hdead c hlt conn hc (hnode.trans hslot)
  · rw [hnone c (not_lt.mp hlt)] at hc
    exact absurd hc (by simp)

/-! ## When a timer fires -/

/-- Where the process goes on, an operation leaves what it leaves. -/
theorem TimerOp.step_running {w : Worker} {op : TimerOp} (hrun : w.fate = .running)
    (happly : (op.apply w).fate = .running) : op.step w = some (op.apply w) := by
  unfold TimerOp.step
  rw [if_pos hrun, if_neg (by rw [happly]; decide)]

/-- **Nothing that sets the timer of the connection at `c` anew, and no tick once
it is due**; a descriptor that is accepted has a slot. -/
def TimerOp.Before (c : ConnPtr) (due : ℤ) (w : Worker) : TimerOp → Prop
  | accept a => 0 ≤ a.iClientFd ∧ a.iClientFd < w.table.iFdEventArraySize
  | packet d _ => d ≠ c
  | disconnect d => d ≠ c
  | tick => w.pstTimeCache.micros < due
  | clock t => t.Normalised

namespace Worker

variable {w w' : Worker} {op : TimerOp} {c : ConnPtr} {conn : ConnFd} {due : TimeVal} {t : ℤ}

/-- **The timer fires on time**, if it is set to `t_uSec` milliseconds now. The
deadline is a time as `gettimeofday` returns it; as long as no tick finds a time
that late, the timer is in the heap; and the first one that does calls the
callback. -/
structure FiresOnTime (w₀ : Worker) (c : ConnPtr) (conn : ConnFd) (t_uSec : ℤ) : Prop where
  normalised : ((registerTimerOutEvent w₀ conn.pstTimeoutEvent t_uSec true).pstHeapHeader.timeout
    conn.pstTimeoutEvent).Normalised
  run : ∀ ops w',
    Run.Along TimerOp.step (fun w op => (op.Admissible w ∧ op.SiftsDown w)
        ∧ op.Before c (w₀.pstTimeCache.micros + t_uSec * 1000) w)
      (registerTimerOutEvent w₀ conn.pstTimeoutEvent t_uSec true) ops →
    Run.exec TimerOp.step (registerTimerOutEvent w₀ conn.pstTimeoutEvent t_uSec true) ops
      = some w' →
    conn.pstTimeoutEvent ∈ w'.pstHeapHeader.held
      ∧ (w₀.pstTimeCache.micros + t_uSec * 1000 ≤ w'.pstTimeCache.micros →
        some conn.serial ∉ w'.timeouts
          ∧ some conn.serial ∈ (reactorProcessTimeoutEvent w').timeouts)

/-- **A timer that is not due yet**: it is in the heap with the deadline `due`, for
a live connection, and the worker is as it should be. -/
structure Pending (w : Worker) (c : ConnPtr) (conn : ConnFd) (due : TimeVal) : Prop
    extends w.Kept, w.Tabled where
  running : w.fate = .running
  live : w.conns c = some conn
  mem : conn.pstTimeoutEvent ∈ w.pstHeapHeader.held
  deadline : w.pstHeapHeader.timeout conn.pstTimeoutEvent = due
  clock : w.pstTimeCache.Normalised

/-- **The table stays in step**, where accepted descriptors have a slot. -/
theorem Tabled.step (h : w.Tabled) (hk : w.Kept) (hadm : op.Admissible w) {t : ℤ}
    (hbefore : op.Before c t w) (hstep : op.step w = some w') : w'.Tabled := by
  obtain ⟨-, hdoes⟩ := TimerOp.step_does hk.toTimers hadm hstep
  cases op with
  | accept a =>
    obtain rfl | ⟨-, htabled⟩ := hdoes
    · exact h
    · exact htabled h hbefore.1 hbefore.2
  | packet d realloc =>
    obtain ⟨e, hd, rfl⟩ := hdoes
    exact h.same rfl rfl
  | disconnect d =>
    obtain ⟨e, hd, -, htabled⟩ := hdoes
    exact htabled h
  | tick => exact hdoes.tabled h
  | clock t =>
    obtain rfl := hdoes
    exact h.same rfl rfl

/-- **The step lemma**: a timer that is not due yet stays where it is. -/
theorem Pending.step (h : w.Pending c conn due) (hdue : due.Normalised)
    (hadm : op.Admissible w) (hdown : op.SiftsDown w) (hbefore : op.Before c due.micros w)
    (hstep : op.step w = some w') : w'.Pending c conn due := by
  have hkept := (h.toKept.step hadm hdown hstep).1
  have htabled := h.toTabled.step h.toKept hadm hbefore hstep
  obtain ⟨hrun, hdoes⟩ := TimerOp.step_does h.toTimers hadm hstep
  have hne : ∀ d e, w.conns d = some e → d ≠ c → conn.pstTimeoutEvent ≠ e.pstTimeoutEvent :=
    fun d e hd hdc heq => hdc (h.node_inj d c e conn hd h.live heq.symm)
  -- what is left is the connection, its node and the clock
  suffices hrest : w'.conns c = some conn ∧ conn.pstTimeoutEvent ∈ w'.pstHeapHeader.held
      ∧ w'.pstHeapHeader.timeout conn.pstTimeoutEvent = due ∧ w'.pstTimeCache.Normalised from
    ⟨hkept, htabled, hrun, hrest.1, hrest.2.1, hrest.2.2.1, hrest.2.2.2⟩
  cases op with
  | accept a =>
    obtain rfl | ⟨hjoined, -⟩ := hdoes
    · exact ⟨h.live, h.mem, h.deadline, h.clock⟩
    · have hca : c ≠ a.pstNewConnFd := fun heq => by
        have hfree := hadm.1.conn
        rw [← heq, h.live] at hfree
        exact absurd hfree (by simp)
      have hpa : conn.pstTimeoutEvent ≠ a.pstTimeoutEvent :=
        fun heq => hadm.1.node (heq ▸ mem_nodes h.live)
      refine ⟨hjoined.conns_eq.mpr (Or.inr ⟨hca, h.live⟩), ?_, ?_, hjoined.time ▸ h.clock⟩
      · exact hjoined.held ▸ Set.mem_insert_of_mem _ h.mem
      · exact (congrArg TimeoutEvent.stTimeout (hjoined.body _ hpa)).trans h.deadline
  | packet d realloc =>
    obtain ⟨e, hd, rfl⟩ := hdoes
    obtain ⟨-, hheld, hbody⟩ := registerTimerOutEvent_heap h.toTimers (mem_nodes hd) (hdown e hd)
    refine ⟨h.live, hheld ▸ Set.mem_insert_of_mem _ h.mem, ?_, h.clock⟩
    have hother : (registerTimerOutEvent w e.pstTimeoutEvent maxConnTimeout true).pstHeapHeader.body
        conn.pstTimeoutEvent = w.pstHeapHeader.body conn.pstTimeoutEvent := by
      rw [hbody, body_rearmed, Function.update_of_ne (hne d e hd hbefore)]
    exact (congrArg TimeoutEvent.stTimeout hother).trans h.deadline
  | disconnect d =>
    obtain ⟨e, hd, hwo, -⟩ := hdoes
    obtain ⟨-, hheld, hbody⟩ := hwo.timers h.toTimers hd (hdown e hd)
    refine ⟨hwo.conns_eq.mpr ⟨fun hcd => hbefore hcd.symm, h.live⟩, ?_, ?_, hwo.time ▸ h.clock⟩
    · exact hheld ▸ ⟨h.mem, hne d e hd hbefore⟩
    · exact (congrFun (timeout_of_body hbody) _).trans h.deadline
  | tick =>
    have hlate : w.pstTimeCache < w.pstHeapHeader.timeout conn.pstTimeoutEvent := by
      rw [h.deadline, ← not_le, TimeVal.le_iff_micros hdue h.clock]
      exact not_le.mpr hbefore
    refine ⟨(hdoes.conns c conn).mpr ⟨h.live, fun _ => hlate⟩, (hdoes.held _).mpr ⟨h.mem, hlate⟩,
      ?_, hdoes.time ▸ h.clock⟩
    exact (congrFun (timeout_of_body hdoes.body) _).trans h.deadline
  | clock t =>
    obtain rfl := hdoes
    exact ⟨h.live, h.mem, h.deadline, hbefore⟩

/-- **A tick that finds the time come calls the callback**, and it was not called
before. -/
theorem Pending.fires (h : w.Pending c conn due) (hdue : due ≤ w.pstTimeCache) :
    some conn.serial ∉ w.timeouts
      ∧ some conn.serial ∈ (reactorProcessTimeoutEvent w).timeouts
      ∧ conn.pstTimeoutEvent ∉ (reactorProcessTimeoutEvent w).pstHeapHeader.held
      ∧ (reactorProcessTimeoutEvent w).fate = .running := by
  have hle : w.pstHeapHeader.timeout conn.pstTimeoutEvent ≤ w.pstTimeCache := by
    rw [h.deadline]
    exact hdue
  obtain ⟨-, hnot⟩ | ht := reactorProcessTimeoutEvent_spec h.toTimers h.running
  · exact absurd h.toTabled hnot
  · refine ⟨fun hmem => ?_, ht.fired c conn h.live h.mem hle,
      fun hp => absurd ((ht.held _).mp hp).2 (not_lt.mpr hle), ht.fate.trans h.running⟩
    obtain ⟨serials, htimeouts, -, hgone⟩ := h.timeouts
    rw [htimeouts] at hmem
    obtain ⟨s, hs, heq⟩ := List.mem_map.mp hmem
    exact (hgone s hs).2 c conn h.live (Option.some.inj heq).symm

end Worker

/-! ## The deadline -/

theorem timerInterval_normalised {t : ℤ} (ht : 0 ≤ t) : (timerInterval t).Normalised := by
  have hpos := Int.emod_nonneg t (show (1000 : ℤ) ≠ 0 by decide)
  have hlt := Int.emod_lt_of_pos t (show (0 : ℤ) < 1000 by decide)
  unfold timerInterval TimeVal.Normalised
  dsimp only
  rw [Int.tmod_eq_emod_of_nonneg ht]
  omega

/-- **What the interval falls short of**: every millisecond beyond the last full
second counts for a microsecond. -/
theorem micros_timerInterval {t : ℤ} (ht : 0 ≤ t) :
    (timerInterval t).micros = t * 1000 - t % 1000 * 999 := by
  unfold timerInterval TimeVal.micros
  dsimp only
  rw [Int.tmod_eq_emod_of_nonneg ht, Int.tdiv_eq_ediv_of_nonneg ht]
  omega

namespace Worker

variable {w : Worker} {c : ConnPtr} {conn : ConnFd} {t : ℤ}

/-- **The deadline of a timer** that is set to `t` milliseconds: a time that is
early by 999 microseconds for every millisecond beyond the last full second. -/
theorem registerTimerOutEvent_pending (hkept : w.Kept) (htabled : w.Tabled)
    (hrun : w.fate = .running) (hlive : w.conns c = some conn)
    (htime : w.pstTimeCache.Normalised)
    (hdown : minheapEraseShiftsUp (w.rearmed conn.pstTimeoutEvent t) conn.pstTimeoutEvent
      = false) :
    (registerTimerOutEvent w conn.pstTimeoutEvent t true).Pending c conn
      (minheapTimeradd w.pstTimeCache (timerInterval t)) := by
  obtain ⟨-, hheld, hbody⟩ := registerTimerOutEvent_heap hkept.toTimers (mem_nodes hlive) hdown
  have htimers := registerTimerOutEvent_timers hkept.toTimers (mem_nodes hlive) hdown
  refine ⟨⟨htimers, hkept.lt, hkept.inj, hkept.timeouts⟩, htabled.same rfl rfl, hrun, hlive,
    hheld ▸ Set.mem_insert _ _, ?_, htime⟩
  have hself : (registerTimerOutEvent w conn.pstTimeoutEvent t true).pstHeapHeader.body
      conn.pstTimeoutEvent = { w.pstHeapHeader.body conn.pstTimeoutEvent with
        stInterval := timerInterval t
        stTimeout := minheapTimeradd w.pstTimeCache (timerInterval t) } := by
    rw [hbody, body_rearmed, Function.update_self]
  exact congrArg TimeoutEvent.stTimeout hself

/-- The deadline stands for what the interval does. -/
theorem micros_deadline (ht : 0 ≤ t) :
    (minheapTimeradd w.pstTimeCache (timerInterval t)).micros
      = w.pstTimeCache.micros + (t * 1000 - t % 1000 * 999) := by
  rw [micros_minheapTimeradd, micros_timerInterval ht]

/-- **Full seconds are on time.** -/
theorem Pending.firesOnTime (h : (registerTimerOutEvent w conn.pstTimeoutEvent t true).Pending c
      conn (minheapTimeradd w.pstTimeCache (timerInterval t)))
    (htime : w.pstTimeCache.Normalised) (ht : 0 ≤ t) (hfull : t % 1000 = 0) :
    w.FiresOnTime c conn t := by
  have hnorm := minheapTimeradd_normalised htime (timerInterval_normalised ht)
  have hdue : w.pstTimeCache.micros + t * 1000
      = (minheapTimeradd w.pstTimeCache (timerInterval t)).micros := by
    rw [micros_deadline ht, hfull, zero_mul, sub_zero]
  refine ⟨by rw [h.deadline]; exact hnorm, fun ops w' halong hexec => ?_⟩
  rw [hdue] at halong ⊢
  have h' := (Run.always_of_along
    (P := fun w' => w'.Pending c conn (minheapTimeradd w.pstTimeCache (timerInterval t)))
    (fun w op w' h hG hstep => h.step hnorm hG.1.1 hG.1.2 hG.2 hstep) h halong).exec hexec
  refine ⟨h'.mem, fun hreached => ?_⟩
  obtain ⟨hbefore, hafter, -⟩ := h'.fires ((TimeVal.le_iff_micros hnorm h'.clock).mpr hreached)
  exact ⟨hbefore, hafter⟩

/-- **Anything else is early**: the clock shows the deadline before the time has
come, and a tick calls the callback. -/
theorem Pending.not_firesOnTime (h : (registerTimerOutEvent w conn.pstTimeoutEvent t true).Pending
      c conn (minheapTimeradd w.pstTimeCache (timerInterval t)))
    (htime : w.pstTimeCache.Normalised) (ht : 0 ≤ t) (hrest : t % 1000 ≠ 0) :
    ¬ w.FiresOnTime c conn t := by
  intro hfires
  have hpos := Int.emod_nonneg t (show (1000 : ℤ) ≠ 0 by decide)
  have hnorm := minheapTimeradd_normalised htime (timerInterval_normalised ht)
  have hmicros := micros_deadline (w := w) ht
  set due := minheapTimeradd w.pstTimeCache (timerInterval t)
  set w₁ : Worker := { registerTimerOutEvent w conn.pstTimeoutEvent t true with
    pstTimeCache := due }
  have hclock : TimerOp.step (registerTimerOutEvent w conn.pstTimeoutEvent t true) (.clock due)
      = some w₁ :=
    TimerOp.step_running h.running h.running
  have h₁ := h.step hnorm (show (TimerOp.clock due).Admissible _ from trivial)
    trivial hnorm hclock
  obtain ⟨-, -, hgone, hfate⟩ := h₁.fires le_rfl
  have htick : TimerOp.step w₁ .tick = some (reactorProcessTimeoutEvent w₁) :=
    TimerOp.step_running h₁.running hfate
  refine hgone (hfires.run [.clock due, .tick] _ ⟨⟨⟨trivial, trivial⟩, hnorm⟩, fun w' hw' => ?_⟩
    ?_).1
  · obtain rfl := Option.some.inj (hclock.symm.trans hw')
    refine ⟨⟨⟨trivial, trivial⟩, ?_⟩, fun _ _ => trivial⟩
    show due.micros < w.pstTimeCache.micros + t * 1000
    omega
  · show (TimerOp.step _ (.clock due)).bind _ = _
    rw [hclock]
    show (TimerOp.step w₁ .tick).bind _ = _
    rw [htick]
    rfl

/-- **A timer fires on time exactly if it is set to full seconds.** -/
theorem timer_fires_on_time_iff (hkept : w.Kept) (htabled : w.Tabled)
    (hrun : w.fate = .running) (hlive : w.conns c = some conn)
    (htime : w.pstTimeCache.Normalised) (ht : 0 ≤ t)
    (hdown : minheapEraseShiftsUp (w.rearmed conn.pstTimeoutEvent t) conn.pstTimeoutEvent
      = false) : w.FiresOnTime c conn t ↔ t % 1000 = 0 := by
  have hpending := registerTimerOutEvent_pending hkept htabled hrun hlive htime hdown
  constructor
  · intro hfires
    by_contra hrest
    exact hpending.not_firesOnTime htime ht hrest hfires
  · exact hpending.firesOnTime htime ht

/-- A worker starts with its table in step, if it listens on an open descriptor
of the array. -/
theorem eventBaseCreate_tabled {table : EventTable} {event : NodePtr → TimeoutEvent}
    {time : TimeVal} {iFd iPid : ℤ} (h : table.InStep) (hpos : 0 ≤ iFd)
    (hlt : iFd < table.iFdEventArraySize) (hopen : table.epoll.fd iFd ≠ .closed) :
    (eventBaseCreate table event time iFd iPid).Tabled where
  inStep := EventTableOp.step_inStep h
    (show (EventTableOp.add iFd eventReadable (some .processAcceptCallback) none).Admissible table
      from ⟨hpos, hlt, hopen, Or.inl rfl, Option.some_ne_none _⟩) rfl
  range c conn hc := absurd hc (by simp [eventBaseCreate])

end Worker

/-- The worker of the examples with one connection. -/
def servingWorker : Worker := (sampleAccept 1).apply sampleWorker

/-- Its connection. -/
def servedConn : ConnFd := sampleWorker.accepted (sampleAccepted 1)

theorem servingWorker_ok : servingWorker.Kept ∧ servingWorker.Tabled := by
  have hstep : TimerOp.step sampleWorker (sampleAccept 1) = some servingWorker :=
    TimerOp.step_running (by decide) (by decide +kernel)
  have hbelow : Run.Along TimerOp.step (TimerOp.AdmissibleBelow 2) sampleWorker
      [sampleAccept 1] := by
    decide +kernel
  have hadm := TimerOp.along_admissible_of_below (fun _ _ => rfl) hbelow
  have hin : ({ emptyTable with
      iFdEventArraySize := 16, epoll := emptyTable.epoll.accept 3 } : EventTable).InStep := by
    refine ⟨fun _ => rfl, rfl, fun fd _ _ => FdEvent.zero_tracks ?_⟩
    show KernelFd.isRegistered (Function.update emptyTable.epoll.fd 3 .opened fd) = false
    by_cases hfd : fd = 3
    · rw [hfd, Function.update_self]
      rfl
    · rw [Function.update_of_ne hfd]
      rfl
  have htabled : sampleWorker.Tabled :=
    eventBaseCreate_tabled hin (by decide) (by decide) (by decide)
  have hkept : sampleWorker.Kept := eventBaseCreate_kept.1
  exact ⟨(hkept.step hadm.1 trivial hstep).1,
    htabled.step (c := 0) (t := 0) hkept hadm.1 ⟨by decide, by decide⟩ hstep⟩

/-- A minute is a number of full seconds. -/
theorem timer_fires_on_time_minute : servingWorker.FiresOnTime 1 servedConn 60000 :=
  (timer_fires_on_time_iff servingWorker_ok.1 servingWorker_ok.2 (by decide +kernel) rfl
    (by decide +kernel) (by decide) (by decide +kernel)).mpr (by decide)

/-- **A timer of one and a half seconds is early**, by 499.5 milliseconds. -/
theorem timer_not_on_time :
    (servingWorker.Kept ∧ servingWorker.Tabled ∧ servingWorker.fate = .running
      ∧ servingWorker.conns 1 = some servedConn ∧ servingWorker.pstTimeCache.Normalised
      ∧ minheapEraseShiftsUp (servingWorker.rearmed servedConn.pstTimeoutEvent 1500)
        servedConn.pstTimeoutEvent = false)
      ∧ ¬ servingWorker.FiresOnTime 1 servedConn 1500 := by
  obtain ⟨hkept, htabled⟩ := servingWorker_ok
  have hrun : servingWorker.fate = .running := by decide +kernel
  have htime : servingWorker.pstTimeCache.Normalised := by decide +kernel
  have hdown : minheapEraseShiftsUp (servingWorker.rearmed servedConn.pstTimeoutEvent 1500)
      servedConn.pstTimeoutEvent = false := by decide +kernel
  have hlive : servingWorker.conns 1 = some servedConn := rfl
  have hpending := registerTimerOutEvent_pending hkept htabled hrun hlive htime hdown
  exact ⟨⟨hkept, htabled, hrun, hlive, htime, hdown⟩,
    hpending.not_firesOnTime htime (by decide) (by decide)⟩
