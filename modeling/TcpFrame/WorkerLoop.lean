import TcpFrame.MinHeapSmall
import TcpFrame.WorkerBooks

/-!
# The timers in the loop

The operations of `TimerOp` are what the timers see of a worker. Here they are part
of `ReactorEventDispatchLoop` itself, with its batches, its callbacks and its
buffers: every live connection has its timer in the heap, over any run of the loop in
which the erases of the callbacks sift down. So no timeout is for a connection that
is not there, and with the books in order, no connection is used that is gone
(`reactor_always_safe`). As before, a run ends with the first callback that leaves the
memory of its connection.

Every timer is set for a minute, and the loop does not wait before all that is due
has been worked off: after a round, a live connection has something of its minute
left, and the wait ends before the first one has not (`reactor_serves_minute`).
-/

open MinHeap

/-! ## The calls of a callback -/

/-- A call that has nothing to do with the timers. -/
def ReactorCall.Quiet (call : ReactorCall) : Prop :=
  call = .eventAdd eventWritable .processSendCallback ∨ call = .eventDel eventWritable

/-- **The calls a callback makes**: it ends its connection, or it makes quiet calls, and
sets the timer to a minute at the end if it has completed a packet. -/
def Shaped (calls : List ReactorCall) : Prop :=
  calls = [.destroyConn]
    ∨ ∃ quiet, (∀ call ∈ quiet, ReactorCall.Quiet call)
      ∧ (calls = quiet ∨ calls = quiet ++ [.registerTimerOutEvent maxConnTimeout])

theorem processRecvCallback_shaped {conn : ConnFd} {t_iFd : ℤ} {malloc : Malloc}
    {head body : List ReadOutcome} {rx : List UInt8} :
    Shaped (processRecvCallback conn t_iFd malloc head body rx).calls := by
  have hends := processRecvCallback_ends conn t_iFd malloc head body rx
  generalize processRecvCallback conn t_iFd malloc head body rx = r at hends ⊢
  have hnil : ∀ call ∈ ([] : List ReactorCall), call.Quiet :=
    fun call hcall => absurd hcall List.not_mem_nil
  cases hends with
  | destroyed c rx hsame => exact Or.inl rfl
  | waiting c rx hsame => exact Or.inr ⟨[], hnil, Or.inl rfl⟩
  | endless c rx hsame => exact Or.inr ⟨[], hnil, Or.inl rfl⟩
  | unanswered c rx hsame hentire => exact Or.inr ⟨[], hnil, Or.inl rfl⟩
  | answered c rx hsame conn' calls hentire =>
    exact Or.inr ⟨calls, fun call hcall => Or.inl ((processEntirePacket_spec hentire).2 call hcall),
      Or.inr rfl⟩

/-- A receive callback that does not return has made no call. -/
theorem processRecvCallback_endless {conn : ConnFd} {t_iFd : ℤ} {malloc : Malloc}
    {head body : List ReadOutcome} {rx : List UInt8}
    (h : (processRecvCallback conn t_iFd malloc head body rx).returns = false) :
    (processRecvCallback conn t_iFd malloc head body rx).calls = [] := by
  have hends := processRecvCallback_ends conn t_iFd malloc head body rx
  generalize processRecvCallback conn t_iFd malloc head body rx = r at hends h ⊢
  cases hends with
  | destroyed c rx hsame => exact absurd h (by simp [RecvResult.destroyed])
  | waiting c rx hsame => rfl
  | endless c rx hsame => rfl
  | unanswered c rx hsame hentire => rfl
  | answered c rx hsame conn' calls hentire => exact absurd h (by simp)

theorem processSendCallback_shaped {conn : ConnFd} {t_iFd : ℤ} {outcomes : List WriteOutcome} :
    Shaped (processSendCallback conn t_iFd outcomes).calls := by
  have hnil : ∀ call ∈ ([] : List ReactorCall), call.Quiet :=
    fun call hcall => absurd hcall List.not_mem_nil
  unfold processSendCallback
  split
  · exact Or.inr ⟨[], hnil, Or.inl rfl⟩
  split
  · exact Or.inr ⟨[], hnil, Or.inl rfl⟩
  dsimp only
  split
  · exact Or.inl rfl
  split
  · exact Or.inr ⟨_, fun call hcall => Or.inr (List.mem_singleton.mp hcall), Or.inl rfl⟩
  · exact Or.inr ⟨[], hnil, Or.inl rfl⟩

namespace Worker

variable {w w' : Worker} {c d : ConnPtr} {conn conn' e : ConnFd} {a : Accepted} {realloc : Bool}

/-! ## What is kept of the timers -/

/-- **The timers are as they should be**: those of the live connections, all of
them. -/
structure Timed (w : Worker) : Prop extends w.Kept where
  armed : w.Armed

/-- **A minute at most**: the clock is a time as `gettimeofday` returns it, and no
deadline of a live connection is more than a minute away. -/
structure Minute (w : Worker) : Prop where
  clock : w.pstTimeCache.Normalised
  reach : ∀ c conn, w.conns c = some conn →
    (w.pstHeapHeader.timeout conn.pstTimeoutEvent).Normalised
      ∧ (w.pstHeapHeader.timeout conn.pstTimeoutEvent).micros
        ≤ w.pstTimeCache.micros + 60 * 1000000

/-- What an operation keeps of both, without a new reading of the clock. -/
structure Keeps (w w' : Worker) : Prop where
  timed : w'.Timed
  time : w'.pstTimeCache = w.pstTimeCache
  minute : w.Minute → w'.Minute
  compact : w.Minute → w.pstHeapHeader.Compact → w'.pstHeapHeader.iNodeUsed ≤ 6 →
    w'.pstHeapHeader.Compact

/-- First or afterwards something happens that is nothing to the heap. -/
theorem Keeps.trans {w'' : Worker} (h : w.Keeps w') (h' : w'.Keeps w'')
    (heap : w'.pstHeapHeader = w.pstHeapHeader ∨ w''.pstHeapHeader = w'.pstHeapHeader) :
    w.Keeps w'' := by
  refine ⟨h'.timed, h'.time.trans h.time, fun hm => h'.minute (h.minute hm),
    fun hm hc hused => h'.compact (h.minute hm) (h.compact hm hc ?_) hused⟩
  rcases heap with heap | heap
  · rw [heap]
    exact hc.le
  · rw [← heap]
    exact hused

/-- **The data of the connections do not matter**, nor do the slots. -/
theorem Timed.sameConns (h : w.Timed) (hheap : w'.pstHeapHeader = w.pstHeapHeader)
    (htime : w'.pstTimeCache = w.pstTimeCache) (htimeouts : w'.timeouts = w.timeouts)
    (hnext : w'.nextSerial = w.nextSerial)
    (hto : ∀ d e, w'.conns d = some e → ∃ e₀, w.conns d = some e₀ ∧ e₀.SameConn e)
    (hfrom : ∀ d e₀, w.conns d = some e₀ → ∃ e, w'.conns d = some e ∧ e₀.SameConn e) :
    w.Keeps w' := by
  have hnodes : w'.nodes = w.nodes := by
    ext p
    constructor
    · rintro ⟨d, e, hd, rfl⟩
      obtain ⟨e₀, hd₀, hsame⟩ := hto d e hd
      exact ⟨d, e₀, hd₀, hsame.pstTimeoutEvent.symm⟩
    · rintro ⟨d, e₀, hd, rfl⟩
      obtain ⟨e, hd', hsame⟩ := hfrom d e₀ hd
      exact ⟨d, e, hd', hsame.pstTimeoutEvent⟩
  obtain ⟨serials, htimeouts₀, hnodup, hgone⟩ := h.timeouts
  refine ⟨⟨⟨⟨?_, fun d e hd => ?_, fun d d' e e' hd hd' heq => ?_⟩, fun d e hd => ?_,
    fun d d' e e' hd hd' heq => ?_, serials, htimeouts.trans htimeouts₀, hnodup, fun s hs => ?_⟩, ?_⟩,
    htime, fun hm => ⟨?_, fun d e hd => ?_⟩, fun _ hc _ => hheap.symm ▸ hc⟩
  · rw [hnodes, hheap]
    exact h.heap
  · obtain ⟨e₀, hd₀, hsame⟩ := hto d e hd
    rw [hheap, hsame.pstTimeoutEvent]
    exact h.callback d e₀ hd₀
  · obtain ⟨e₀, hd₀, hsame⟩ := hto d e hd
    obtain ⟨e₀', hd₀', hsame'⟩ := hto d' e' hd'
    rw [hsame.pstTimeoutEvent, hsame'.pstTimeoutEvent] at heq
    exact h.node_inj d d' e₀ e₀' hd₀ hd₀' heq
  · obtain ⟨e₀, hd₀, hsame⟩ := hto d e hd
    rw [hnext, hsame.serial]
    exact h.lt d e₀ hd₀
  · obtain ⟨e₀, hd₀, hsame⟩ := hto d e hd
    obtain ⟨e₀', hd₀', hsame'⟩ := hto d' e' hd'
    rw [hsame.serial, hsame'.serial] at heq
    exact h.inj d d' e₀ e₀' hd₀ hd₀' heq
  · rw [hnext]
    refine ⟨(hgone s hs).1, fun d e hd => ?_⟩
    obtain ⟨e₀, hd₀, hsame⟩ := hto d e hd
    rw [hsame.serial]
    exact (hgone s hs).2 d e₀ hd₀
  · unfold Armed
    rw [hnodes, hheap]
    exact h.armed
  · rw [htime]
    exact hm.clock
  · obtain ⟨e₀, hd₀, hsame⟩ := hto d e hd
    rw [hheap, htime, hsame.pstTimeoutEvent]
    exact hm.reach d e₀ hd₀

theorem Timed.refl (h : w.Timed) : w.Keeps w := ⟨h, rfl, id, fun _ hc _ => hc⟩

/-- Only the heap, the connections and the clock matter. -/
theorem Timed.same (h : w.Timed) (hsame : w.SameTimers w') : w.Keeps w' :=
  h.sameConns hsame.heap hsame.time hsame.timeouts hsame.nextSerial
    (fun d e hd => ⟨e, by rw [← hsame.conns]; exact hd, .refl⟩)
    (fun d e hd => ⟨e, by rw [hsame.conns]; exact hd, .refl⟩)

/-- **The clock is read.** -/
theorem Timed.clock (h : w.Timed) (now : TimeVal) : Timed { w with pstTimeCache := now } :=
  ⟨⟨⟨h.heap, h.callback, h.node_inj⟩, h.lt, h.inj, h.timeouts⟩, h.armed⟩

/-- The data of one connection change. -/
theorem Timed.update (h : w.Timed) (hc : w.conns c = some conn) (hsame : conn.SameConn conn') :
    w.Keeps { w with conns := Function.update w.conns c (some conn') } := by
  refine h.sameConns rfl rfl rfl rfl (fun d e hd => ?_) (fun d e hd => ?_)
  · obtain ⟨rfl, rfl⟩ | ⟨-, hd⟩ := PartialMap.update_some_eq_some.mp hd
    · exact ⟨conn, hc, hsame⟩
    · exact ⟨e, hd, .refl⟩
  · by_cases hdc : d = c
    · rw [hdc] at hd ⊢
      obtain rfl := Option.some.inj (hc.symm.trans hd)
      exact ⟨conn', Function.update_self .., hsame⟩
    · exact ⟨e, (Function.update_of_ne hdc _ _).trans hd, .refl⟩

/-! ## The operations -/

/-- The time `RegisterTimerOutEvent` sets for a connection is a minute. -/
theorem timeout_minute (hm : w.Minute) :
    (minheapTimeradd w.pstTimeCache (timerInterval maxConnTimeout)).Normalised
      ∧ (minheapTimeradd w.pstTimeCache (timerInterval maxConnTimeout)).micros
        ≤ w.pstTimeCache.micros + 60 * 1000000 := by
  refine ⟨minheapTimeradd_normalised hm.clock (timerInterval_normalised (by decide)), ?_⟩
  rw [micros_deadline (by decide)]
  simp only [maxConnTimeout]
  omega

/-- **No timer in the heap is later** than one that is set for a minute now. -/
theorem Timed.le_deadline (h : w.Timed) (hm : w.Minute) :
    ∀ q ∈ w.pstHeapHeader.held, w.pstHeapHeader.timeout q ≤ w.deadline maxConnTimeout := by
  intro q hq
  obtain ⟨c, conn, hc, rfl⟩ := h.heap.toBacked.held_subset hq
  obtain ⟨hnorm, hle⟩ := hm.reach c conn hc
  refine (TimeVal.le_iff_micros hnorm (timeout_minute hm).1).mpr (hle.trans ?_)
  rw [micros_deadline (by decide)]
  simp only [maxConnTimeout]
  omega

/-- **A timer is registered again**, where its erase sifts down. -/
theorem Timed.register (h : w.Timed) (hc : w.conns c = some conn)
    (hdown : minheapEraseShiftsUp (w.rearmed conn.pstTimeoutEvent maxConnTimeout)
      conn.pstTimeoutEvent = false) :
    w.Keeps (registerTimerOutEvent w conn.pstTimeoutEvent maxConnTimeout true) := by
  have hp := mem_nodes hc
  obtain ⟨-, hheld, hbody⟩ := registerTimerOutEvent_heap h.toTimers hp hdown
  have htimers := registerTimerOutEvent_timers h.toTimers hp hdown
  refine ⟨⟨⟨htimers, h.lt, h.inj, h.timeouts⟩, ?_⟩, rfl, fun hm => ⟨hm.clock, fun d e hd => ?_⟩,
    fun hm _ hused => ⟨hused, fun _ q hq => registerTimerOutEvent_latest (h.le_deadline hm) hq⟩⟩
  · unfold Armed
    rw [hheld]
    exact h.armed.trans (Set.subset_insert _ _)
  · rw [timeout_of_body hbody, timeout_rearmed]
    by_cases hq : e.pstTimeoutEvent = conn.pstTimeoutEvent
    · rw [hq, Function.update_self]
      exact timeout_minute hm
    · rw [Function.update_of_ne hq]
      exact hm.reach d e hd

/-- **A connection is destroyed**, where the erase of its timer sifts down. -/
theorem Timed.destroy (h : w.Timed) (hc : w.conns c = some conn)
    (hdown : minheapEraseShiftsUp w.pstHeapHeader conn.pstTimeoutEvent = false)
    (hfate : (destroyConn w c).fate ≠ .exited) : w.Keeps (destroyConn w c) := by
  obtain ⟨hexit, -⟩ | ⟨-, hwo, -⟩ := destroyConn_without hc
  · exact absurd hexit hfate
  obtain ⟨htimers, hheld, hbody⟩ := hwo.timers h.toTimers hc hdown
  refine ⟨⟨⟨htimers, hwo.serials h.toSerials⟩, ?_⟩, hwo.time, fun hm => ⟨?_, fun d e hd => ?_⟩,
    fun _ hcompact hused => ⟨hused, fun hsix => ?_⟩⟩
  · rintro p ⟨d, e, hd, rfl⟩
    obtain ⟨hdc, hd⟩ := hwo.conns_eq.mp hd
    rw [hheld]
    exact ⟨h.armed (mem_nodes hd), fun heq => hdc (h.node_inj d c e conn hd hc heq)⟩
  · rw [hwo.time]
    exact hm.clock
  · rw [timeout_of_body hbody, hwo.time]
    exact hm.reach d e (hwo.conns_eq.mp hd).2
  · -- there were six at most, and now there is one less
    have hlt : (destroyConn w c).pstHeapHeader.held.ncard < w.pstHeapHeader.held.ncard := by
      rw [hheld]
      exact Set.ncard_sdiff_singleton_lt_of_mem (h.armed (mem_nodes hc)) (finite_held _)
    rw [htimers.heap.toBacked.ncard_held, h.heap.toBacked.ncard_held, hsix] at hlt
    exact absurd hlt (not_lt.mpr hcompact.le)

/-- The worker after `ProcessAcceptCallback` with a new connection has the timers of the
one that registers it. -/
theorem processAcceptCallback_timers (t_iFd : ℤ) :
    (processAcceptCallback w t_iFd (.conn a)).fate = .exited
      ∨ processAcceptCallback w t_iFd (.conn a) = w
      ∨ (registerTimerOutEvent (w.joining a) a.pstTimeoutEvent maxConnTimeout a.realloc).SameTimers
        (processAcceptCallback w t_iFd (.conn a)) := by
  generalize hg : processAcceptCallback w t_iFd (.conn a) = g
  unfold processAcceptCallback at hg
  split at hg
  · exact Or.inr (Or.inl hg.symm)
  split at hg
  · exact Or.inr (Or.inl hg.symm)
  split at hg
  swap
  · exact Or.inl (by rw [← hg]; rfl)
  dsimp only at hg
  split at hg
  · exact Or.inl (by rw [← hg]; rfl)
  split at hg
  · exact Or.inl (by rw [← hg]; rfl)
  · rw [← hg]
    exact Or.inr (Or.inr ⟨rfl, rfl, rfl, rfl, rfl⟩)

/-- **A connection is accepted**, with a timer that is set to a minute. -/
theorem Timed.join (h : w.Timed) (hfresh : w.Fresh a) :
    w.Keeps (registerTimerOutEvent (w.joining a) a.pstTimeoutEvent maxConnTimeout true) := by
  have hjoined := joined_of_joining h.toTimers hfresh
  refine ⟨⟨⟨hjoined.timers, hjoined.serials h.toSerials⟩, hjoined.armed h.armed⟩, hjoined.time,
    fun hm => ⟨hm.clock, fun d e hd => ?_⟩, fun hm _ hused => ⟨hused, fun _ q hq => ?_⟩⟩
  swap
  · refine registerTimerOutEvent_latest (fun q hq => ?_) hq
    rw [show (w.joining a).pstHeapHeader.timeout = w.pstHeapHeader.timeout from
      timeout_minheapTimeoutEventInit.trans timeout_minheapTimeoutEventInit]
    exact h.le_deadline hm q hq
  show _ ∧ _ ≤ w.pstTimeCache.micros + 60 * 1000000
  obtain ⟨rfl, rfl⟩ | ⟨-, hd⟩ := hjoined.conns_eq.mp hd
  · have hp : a.pstTimeoutEvent ∈ (w.joining a).nodes :=
      mem_nodes (conns_joining.mpr (Or.inl ⟨rfl, rfl⟩))
    have hdown : minheapEraseShiftsUp ((w.joining a).rearmed a.pstTimeoutEvent maxConnTimeout)
        a.pstTimeoutEvent = false :=
      not_shiftsUp_of_index (by rw [index_rearmed]; exact event_joining_self.1)
    obtain ⟨-, -, hbody⟩ := registerTimerOutEvent_heap (joining_timers h.toTimers hfresh) hp hdown
    rw [timeout_of_body hbody, timeout_rearmed,
      show (w.accepted a).pstTimeoutEvent = a.pstTimeoutEvent from rfl, Function.update_self]
    exact timeout_minute (w := w) hm
  · have hne : e.pstTimeoutEvent ≠ a.pstTimeoutEvent :=
      fun heq => hfresh.node (heq ▸ mem_nodes hd)
    have htimeout : (registerTimerOutEvent (w.joining a) a.pstTimeoutEvent maxConnTimeout
        true).pstHeapHeader.timeout e.pstTimeoutEvent = w.pstHeapHeader.timeout e.pstTimeoutEvent :=
      (congrArg TimeoutEvent.stTimeout (hjoined.body _ hne) :)
    rw [htimeout]
    exact hm.reach d e hd

/-- Where nothing is due, nothing happens. -/
theorem reactorProcessTimeoutEvent_idle
    (hlate : ∀ p ∈ w.pstHeapHeader.held, w.pstTimeCache < w.pstHeapHeader.timeout p) :
    reactorProcessTimeoutEvent w = w := by
  unfold reactorProcessTimeoutEvent
  cases w.pstHeapHeader.iNodeUsed with
  | zero => rfl
  | succ fuel =>
    unfold processTimeoutLoop
    split
    · rfl
    next p htop => exact if_pos (minheapTimercmp_gt.mpr (hlate p (top_mem htop).1))

/-- **The timeouts** leave the timers that are not due. -/
theorem Timed.expire (h : w.Timed) (hrun : w.fate = .running) :
    (reactorProcessTimeoutEvent w).fate = .exited
      ∨ (reactorProcessTimeoutEvent w).fate = .running
        ∧ w.Keeps (reactorProcessTimeoutEvent w)
        ∧ ∀ c conn, (reactorProcessTimeoutEvent w).conns c = some conn →
          (reactorProcessTimeoutEvent w).pstTimeCache
            < (reactorProcessTimeoutEvent w).pstHeapHeader.timeout conn.pstTimeoutEvent := by
  obtain ⟨hexit, -⟩ | ht := reactorProcessTimeoutEvent_spec h.toTimers hrun
  · exact Or.inl hexit
  refine Or.inr ⟨ht.fate.trans hrun, ⟨⟨⟨ht.timers, ht.serials h.toSerials⟩, ht.armed h.armed⟩,
    ht.time, fun hm => ⟨?_, fun c conn hc => ?_⟩, ?_⟩, fun c conn hc => ?_⟩
  · rw [ht.time]
    exact hm.clock
  · rw [timeout_of_body ht.body, ht.time]
    exact hm.reach c conn ((ht.conns c conn).mp hc).1
  · -- where six are left of six, nothing was due
    intro _ hcompact hused
    refine ⟨hused, fun hsix => ?_⟩
    have hsub : (reactorProcessTimeoutEvent w).pstHeapHeader.held ⊆ w.pstHeapHeader.held :=
      fun p hp => ((ht.held p).mp hp).1
    have hcard : w.pstHeapHeader.held.ncard
        ≤ (reactorProcessTimeoutEvent w).pstHeapHeader.held.ncard := by
      rw [h.heap.toBacked.ncard_held, ht.timers.heap.toBacked.ncard_held, hsix]
      exact hcompact.le
    have hsame := Set.eq_of_subset_of_ncard_le hsub hcard (finite_held _)
    have hidle := reactorProcessTimeoutEvent_idle (w := w)
      (fun p hp => ((ht.held p).mp (hsame.symm ▸ hp)).2)
    rw [hidle] at hsix ⊢
    exact hcompact.latest hsix
  · obtain ⟨hc, hlate⟩ := (ht.conns c conn).mp hc
    rw [timeout_of_body ht.body, ht.time]
    exact hlate (h.armed (mem_nodes hc))

/-! ## The callbacks -/

/-- **The erase of a call sifts down**, if it has one: the call is for the connection
with the timer `p`. -/
def SiftsDown (w : Worker) (p : NodePtr) : ReactorCall → Prop
  | .registerTimerOutEvent t_uSec => minheapEraseShiftsUp (w.rearmed p t_uSec) p = false
  | .destroyConn => minheapEraseShiftsUp w.pstHeapHeader p = false
  | _ => True

instance (w : Worker) (p : NodePtr) : ∀ call, Decidable (w.SiftsDown p call)
  | .registerTimerOutEvent t_uSec =>
    inferInstanceAs (Decidable (minheapEraseShiftsUp (w.rearmed p t_uSec) p = false))
  | .destroyConn => inferInstanceAs (Decidable (minheapEraseShiftsUp w.pstHeapHeader p = false))
  | .eventAdd _ _ => inferInstanceAs (Decidable True)
  | .eventDel _ => inferInstanceAs (Decidable True)

/-- The calls a callback is to make for its connection. -/
def callsOf (conn : ConnFd) (t_iFd : ℤ) (input : EventInput) : EventCallbackProc → List ReactorCall
  | .processRecvCallback =>
    (processRecvCallback conn t_iFd input.malloc input.head input.body input.rx).calls
  | .processSendCallback => (processSendCallback conn t_iFd input.writes).calls
  | _ => []

/-- A quiet call is nothing to the timers. -/
theorem reactorCall_quiet {call : ReactorCall} (hcall : call.Quiet) :
    w.SameTimers (reactorCall c realloc w call) := by
  unfold reactorCall
  split
  swap
  · exact ⟨rfl, rfl, rfl, rfl, rfl⟩
  split
  · exact ⟨rfl, rfl, rfl, rfl, rfl⟩
  unfold serve
  rcases hcall with rfl | rfl
  · dsimp only
    split <;> exact ⟨rfl, rfl, rfl, rfl, rfl⟩
  · dsimp only
    split <;> exact ⟨rfl, rfl, rfl, rfl, rfl⟩

theorem SameTimers.trans {w'' : Worker} (h : w.SameTimers w') (h' : w'.SameTimers w'') :
    w.SameTimers w'' where
  heap := h'.heap.trans h.heap
  conns := h'.conns.trans h.conns
  timeouts := h'.timeouts.trans h.timeouts
  nextSerial := h'.nextSerial.trans h.nextSerial
  time := h'.time.trans h.time

theorem reactorCalls_quiet {calls : List ReactorCall} (hcalls : ∀ call ∈ calls, call.Quiet) :
    w.SameTimers (calls.foldl (reactorCall c realloc) w) := by
  induction calls generalizing w with
  | nil => exact ⟨rfl, rfl, rfl, rfl, rfl⟩
  | cons call calls ih =>
    exact (reactorCall_quiet (hcalls call List.mem_cons_self)).trans
      (ih (fun call' hmem => hcalls call' (List.mem_cons_of_mem _ hmem)))

/-- **The calls of a callback** keep the timers, where their erase sifts down. -/
theorem Timed.calls (h : w.Timed) (hc : w.conns c = some conn) {calls : List ReactorCall}
    (hshaped : Shaped calls) (hdown : ∀ call ∈ calls, w.SiftsDown conn.pstTimeoutEvent call)
    (hfate : (calls.foldl (reactorCall c true) w).fate ≠ .exited) :
    w.Keeps (calls.foldl (reactorCall c true) w) := by
  rcases hshaped with rfl | ⟨quiet, hquiet, rfl | rfl⟩
  · rw [List.foldl_cons, List.foldl_nil] at hfate ⊢
    unfold reactorCall at hfate ⊢
    split
    · next hrun =>
      rw [if_pos hrun, hc] at hfate
      rw [hc]
      exact h.destroy hc (hdown _ List.mem_cons_self) hfate
    · exact h.refl
  · exact h.same (reactorCalls_quiet hquiet)
  · have hdown' := hdown (.registerTimerOutEvent maxConnTimeout)
      (List.mem_append_right _ List.mem_cons_self)
    have hsame : w.SameTimers (quiet.foldl (reactorCall c true) w) := reactorCalls_quiet hquiet
    rw [List.foldl_append, List.foldl_cons, List.foldl_nil]
    set w₁ := quiet.foldl (reactorCall c true) w
    have h₁ := h.same hsame
    have hc₁ : w₁.conns c = some conn := by rw [hsame.conns, hc]
    have hrearmed : w₁.rearmed conn.pstTimeoutEvent maxConnTimeout
        = w.rearmed conn.pstTimeoutEvent maxConnTimeout := by
      unfold rearmed
      rw [hsame.heap, hsame.time]
    unfold reactorCall
    split
    · rw [hc₁]
      refine h₁.trans (h₁.timed.register hc₁ ?_) (Or.inl hsame.heap)
      rw [hrearmed]
      exact hdown'
    · exact h₁

/-- **A receive or send callback** keeps the timers. -/
theorem Timed.called (h : w.Timed) (hc : w.conns c = some conn) {input : EventInput}
    {t_iFd : ℤ} {proc : EventCallbackProc} (hrealloc : input.realloc = true)
    (hproc : proc = .processRecvCallback ∨ proc = .processSendCallback)
    (hdown : ∀ call ∈ callsOf conn t_iFd input proc, w.SiftsDown conn.pstTimeoutEvent call)
    (hfate : (eventCallback w input t_iFd (some c) proc).fate ≠ .exited) :
    w.Keeps (eventCallback w input t_iFd (some c) proc) := by
  -- the callback has done its reading or writing, and now it makes its calls
  have hcalls : ∀ (conn' : ConnFd) (calls : List ReactorCall), conn.SameConn conn' →
      Shaped calls → (∀ call ∈ calls, w.SiftsDown conn.pstTimeoutEvent call) →
      (calls.foldl (reactorCall c input.realloc)
          { w with conns := Function.update w.conns c (some conn') }).fate ≠ .exited →
      w.Keeps (calls.foldl (reactorCall c input.realloc)
          { w with conns := Function.update w.conns c (some conn') }) := by
    intro conn' calls hsame hshaped hdown hfate
    rw [hrealloc] at hfate ⊢
    have h₁ := h.update hc hsame
    refine h₁.trans (h₁.timed.calls (Function.update_self ..) hshaped (fun call hcall => ?_) hfate)
      (Or.inl rfl)
    rw [hsame.pstTimeoutEvent]
    exact hdown call hcall
  unfold eventCallback at hfate ⊢
  rcases hproc with rfl | rfl
  · dsimp only at hfate ⊢
    rw [hc] at hfate ⊢
    dsimp only at hfate ⊢
    set r := processRecvCallback conn t_iFd input.malloc input.head input.body input.rx with hr
    have h₁ : w.Keeps { w with conns := Function.update w.conns c (some r.conn) } :=
      h.update hc processRecvCallback_sameConn
    by_cases hover : r.conn.overran = true
    · rw [if_pos hover]
      exact h₁.trans (h₁.timed.same ⟨rfl, rfl, rfl, rfl, rfl⟩) (Or.inl rfl)
    rw [if_neg hover] at hfate ⊢
    by_cases hret : r.returns = true
    · rw [if_pos hret] at hfate ⊢
      exact hcalls r.conn r.calls processRecvCallback_sameConn processRecvCallback_shaped hdown
        hfate
    · rw [if_neg hret, hr, processRecvCallback_endless (Bool.eq_false_iff.mpr hret)]
      exact h₁.trans (h₁.timed.same ⟨rfl, rfl, rfl, rfl, rfl⟩) (Or.inl rfl)
  · dsimp only at hfate ⊢
    rw [hc] at hfate ⊢
    exact hcalls _ _ processSendCallback_calls.1 processSendCallback_shaped hdown hfate

/-- **The accept callback** keeps the timers, if it does not exit. -/
theorem Timed.accept (h : w.Timed) {t_iFd : ℤ} {accept : AcceptOutcome}
    (hfresh : ∀ a, accept = .conn a → a.realloc = true ∧ w.Fresh a) :
    (processAcceptCallback w t_iFd accept).fate = .exited
      ∨ w.Keeps (processAcceptCallback w t_iFd accept) := by
  cases accept with
  | conn a =>
    obtain ⟨hrealloc, hfresh⟩ := hfresh a rfl
    obtain hexit | heq | hsame := processAcceptCallback_timers (w := w) (a := a) t_iFd
    · exact Or.inl hexit
    · rw [heq]
      exact Or.inr h.refl
    · rw [hrealloc] at hsame
      have hjoin := h.join hfresh
      exact Or.inr (hjoin.trans (hjoin.timed.same hsame) (Or.inr hsame.heap))
  | eagain | error =>
    unfold processAcceptCallback
    split
    · exact Or.inr h.refl
    split
    · exact Or.inr h.refl
    split
    · first | exact Or.inr h.refl | exact Or.inl rfl
    · exact Or.inl rfl

/-! ## The batch loop -/

/-- **A callback of the batch loop** keeps the timers, if it does not exit: of the books
it needs to know whose callback it is. -/
theorem Timed.trigger {start batch : Set ℤ} {fd : ℤ} (h : w.Timed) (hbooks : w.Books start batch)
    (hrun : w.fate = .running) (hfd : fd ∈ batch) {input : EventInput}
    (hrealloc : input.realloc = true)
    (hfresh : fd = w.iListenFd → ∀ a, input.accept = .conn a → a.realloc = true ∧ w.Fresh a)
    {proc : Option EventCallbackProc}
    (hproc : (w.table.slot fd).iMask &&& eventReadable ≠ 0
        ∧ proc = (w.table.slot fd).pFunEventCallbackRead
      ∨ (w.table.slot fd).iMask &&& eventWritable ≠ 0
        ∧ proc = (w.table.slot fd).pFunEventCallbackWrite)
    (hdown : ∀ proc' ∈ proc, ∀ c ∈ (w.table.slot fd).pstArg, ∀ conn ∈ w.conns c,
      ∀ call ∈ callsOf conn fd input proc', w.SiftsDown conn.pstTimeoutEvent call) :
    (w.call input fd proc).fate = .exited ∨ w.Keeps (w.call input fd proc) := by
  have hlog : ∀ log, w.Keeps { w with invoked := log } :=
    fun log => h.same ⟨rfl, rfl, rfl, rfl, rfl⟩
  unfold Worker.call
  obtain ⟨hlisten, rfl, harg⟩ | ⟨c, conn, proc', hc, rfl, harg, rfl, hproc'⟩ :=
    hbooks.callee hfd hproc
  · dsimp only
    rw [harg]
    set w₁ : Worker := { w with invoked := w.invoked ++ [⟨fd, .processAcceptCallback, none,
      ((none : Option ConnPtr).bind w.conns).map ConnFd.serial⟩] }
    have h₁ : w.Keeps w₁ := hlog _
    have haccept : (processAcceptCallback w₁ fd input.accept).fate = .exited
        ∨ w₁.Keeps (processAcceptCallback w₁ fd input.accept) := h₁.timed.accept
      (fun a ha => ⟨(hfresh hlisten a ha).1, (hfresh hlisten a ha).2.conn,
        (hfresh hlisten a ha).2.node⟩)
    rcases haccept with hexit | haccept
    · exact Or.inl hexit
    · exact Or.inr (h₁.trans haccept (Or.inl rfl))
  · dsimp only
    rw [harg]
    set w₁ : Worker := { w with invoked := w.invoked ++ [⟨conn.iFd, proc', some c,
      ((some c).bind w.conns).map ConnFd.serial⟩] }
    have h₁ : w.Keeps w₁ := hlog _
    have hbooks₁ : w₁.Books start batch := hbooks.same rfl rfl rfl rfl rfl
    have hfate : (eventCallback w₁ input conn.iFd (some c) proc').fate ≠ .exited := by
      rcases (hbooks₁.callback hrun hc hproc').1 with hfate | hfate | hfate
      all_goals exact ne_of_eq_of_ne hfate (by decide)
    have hcalled := h₁.timed.called hc hrealloc hproc'
      (fun call hcall => hdown proc' rfl c harg conn hc call hcall) hfate
    exact Or.inr (h₁.trans hcalled (Or.inl rfl))

end Worker

/-! ## Runs of the loop -/

namespace Reactor

variable {start : Set ℤ} {s s' : Reactor} {input : ReactorInput}

/-- **What the allocator does for a callback**: there is memory for the heap, and that of
a new timer is not that of one in use. -/
def Allocates (s : Reactor) : ReactorInput → Prop
  | .callback input => input.realloc = true ∧ (s.nextCallback = some .processAcceptCallback →
    ∀ a, Worker.client input.accept = some a →
      a.realloc = true ∧ a.pstTimeoutEvent ∉ s.worker.nodes)
  | _ => True

/-- **The erases of a callback sift down.** -/
def SiftsDown (s : Reactor) : ReactorInput → Prop
  | .callback input => ∀ ev ∈ s.pending.head?, ∀ proc ∈ s.nextCallback,
    ∀ c ∈ (s.worker.table.slot ev.fd).pstArg, ∀ conn ∈ s.worker.conns c,
      ∀ call ∈ Worker.callsOf conn ev.fd input proc, s.worker.SiftsDown conn.pstTimeoutEvent call
  | _ => True

instance (s : Reactor) : ∀ input, Decidable (s.SiftsDown input)
  | .callback input => inferInstanceAs (Decidable (∀ ev ∈ s.pending.head?, ∀ proc ∈ s.nextCallback,
    ∀ c ∈ (s.worker.table.slot ev.fd).pstArg, ∀ conn ∈ s.worker.conns c,
      ∀ call ∈ Worker.callsOf conn ev.fd input proc, s.worker.SiftsDown conn.pstTimeoutEvent call))
  | .wait _ _ => inferInstanceAs (Decidable True)
  | .expire => inferInstanceAs (Decidable True)

/-- **The loop is safe**: nothing that has happened is undefined, and a worker that runs has
its books and its timers in order. -/
structure Safe (start : Set ℤ) (s : Reactor) : Prop where
  defined : s.worker.fate ≠ .undefined
  order : s.InOrder start
  timed : s.worker.fate = .running → s.worker.Timed

/-- The callback of a half of a round. -/
theorem Safe.half (h : s.Safe start) (hrun : s.worker.fate = .running) {ev : EpollEvent}
    {events : List EpollEvent} (hpending : s.pending = ev :: events) {input : EventInput}
    (hadm : s.Orderly (.callback input)) (halloc : s.Allocates (.callback input))
    (hdown : s.SiftsDown (.callback input)) {w : Worker} {b : Bool}
    (hw : w = { s.worker with table := { s.worker.table with overrun := b } })
    {proc : Option EventCallbackProc} (hnext : s.nextCallback = proc)
    (hproc : (w.table.slot ev.fd).iMask &&& eventReadable ≠ 0
        ∧ proc = (w.table.slot ev.fd).pFunEventCallbackRead
      ∨ (w.table.slot ev.fd).iMask &&& eventWritable ≠ 0
        ∧ proc = (w.table.slot ev.fd).pFunEventCallbackWrite) :
    (w.call input ev.fd proc).fate = .exited ∨ s.worker.Keeps (w.call input ev.fd proc) := by
  have hbooks : w.Books start (fds (ev :: events)) := by
    rw [hw, ← hpending]
    exact (h.order.books hrun).overrun b
  have hkeeps : s.worker.Keeps w := by
    rw [hw]
    exact (h.timed hrun).same ⟨rfl, rfl, rfl, rfl, rfl⟩
  have hfd : ev.fd ∈ fds (ev :: events) := ⟨ev, List.mem_cons_self, rfl⟩
  have htrigger : (w.call input ev.fd proc).fate = .exited ∨ w.Keeps (w.call input ev.fd proc) := by
    subst hw
    refine hkeeps.timed.trigger hbooks hrun hfd halloc.1 (fun hlisten a ha => ?_) hproc
      (fun proc' hproc' => hdown ev (by rw [hpending]; rfl) proc' (by rw [hnext]; exact hproc'))
    -- what is read from the listening descriptor is a connection
    have haccept : s.nextCallback = some .processAcceptCallback := by
      rw [hnext]
      obtain ⟨-, heq, -⟩ | ⟨c, conn, -, hc, hfd', -⟩ := hbooks.callee hfd hproc
      · exact heq
      · have hnew := hbooks.new ev.fd ⟨c, conn, hc, hfd'⟩
        rw [hlisten] at hnew
        exact absurd hbooks.listenFd hnew
    have hclient : Worker.client input.accept = some a := by rw [ha]; rfl
    obtain ⟨hrealloc, hnode⟩ := halloc.2 haccept a hclient
    exact ⟨hrealloc, (hadm haccept a hclient).2.2.2, hnode⟩
  rcases htrigger with hexit | htrigger
  · exact Or.inl hexit
  · exact Or.inr (hkeeps.trans htrigger (Or.inl (by rw [hw])))

/-- **A step keeps the timers**, but for the clock, which is read after the wait; and a
worker that has been through its timeouts has no timer left that is due. -/
theorem Safe.keeps (h : s.Safe start) (hadm : s.Orderly input) (halloc : s.Allocates input)
    (hdown : s.SiftsDown input) (hstep : s.step input = some s') :
    s'.worker.fate = .exited
      ∨ (∃ now events, input = .wait now events
        ∧ s'.worker = { s.worker with pstTimeCache := now })
      ∨ s.worker.Keeps s'.worker ∧ (s'.phase = .waiting → s'.worker.fate = .running)
        ∧ (input = .expire → ∀ c conn, s'.worker.conns c = some conn →
          s'.worker.pstTimeCache < s'.worker.pstHeapHeader.timeout conn.pstTimeoutEvent) := by
  unfold Reactor.step at hstep
  split at hstep
  swap
  · exact absurd hstep (by simp)
  next hrun =>
  have htimed := h.timed hrun
  have hbooks := h.order.books hrun
  split at hstep
  · next now hphase =>
    obtain rfl := Option.some.inj hstep
    exact Or.inr (Or.inl ⟨now, none, rfl, rfl⟩)
  · next now events hphase =>
    obtain rfl := Option.some.inj hstep
    exact Or.inr (Or.inl ⟨now, some events, rfl, rfl⟩)
  · next ev events input hphase =>
    obtain rfl := Option.some.inj hstep
    have hpending : s.pending = ev :: events := by unfold Reactor.pending; rw [hphase]
    show (s.worker.dispatchRead ev input).fate = .exited ∨ _ ∨ s.worker.Keeps _ ∧ _
    unfold Worker.dispatchRead
    dsimp only
    split
    · next htrigger =>
      have hnext : s.nextCallback = (s.worker.table.slot ev.fd).pFunEventCallbackRead := by
        unfold nextCallback
        rw [if_pos hrun, hphase]
        exact if_pos htrigger
      rcases h.half hrun hpending hadm halloc hdown
        (w := { s.worker with table := s.worker.table.access ev.fd }) rfl hnext
        (Or.inl ⟨Worker.mask_of_triggered htrigger, rfl⟩) with hexit | hkeeps
      · exact Or.inl hexit
      · exact Or.inr (Or.inr ⟨hkeeps, fun hwait => (by cases hwait), fun heq => by cases heq⟩)
    · exact Or.inr (Or.inr ⟨htimed.same ⟨rfl, rfl, rfl, rfl, rfl⟩, fun hwait => (by cases hwait),
        fun heq => by cases heq⟩)
  · next ev events input hphase =>
    obtain rfl := Option.some.inj hstep
    have hpending : s.pending = ev :: events := by unfold Reactor.pending; rw [hphase]
    show (s.worker.dispatchWrite ev input).fate = .exited ∨ _ ∨ s.worker.Keeps _ ∧ _
    unfold Worker.dispatchWrite
    dsimp only
    split
    · next htrigger =>
      have hnext : s.nextCallback = (s.worker.table.slot ev.fd).pFunEventCallbackWrite := by
        unfold nextCallback
        rw [if_pos hrun, hphase]
        exact if_pos htrigger
      rcases h.half hrun hpending hadm halloc hdown (w := s.worker) rfl hnext
        (Or.inr ⟨Worker.mask_of_triggered htrigger, rfl⟩) with hexit | hkeeps
      · exact Or.inl hexit
      · exact Or.inr (Or.inr ⟨hkeeps, fun hwait => (by cases hwait), fun heq => by cases heq⟩)
    · exact Or.inr (Or.inr ⟨htimed.refl, fun hwait => (by cases hwait), fun heq => by cases heq⟩)
  · obtain rfl := Option.some.inj hstep
    obtain hexit | ⟨hrun', hkeeps, hlate⟩ := htimed.expire hrun
    · exact Or.inl hexit
    · exact Or.inr (Or.inr ⟨hkeeps, fun _ => hrun', fun _ => hlate⟩)
  · exact absurd hstep (by simp)

/-- **The step lemma.** -/
theorem Safe.step (h : s.Safe start) (hadm : s.Orderly input) (halloc : s.Allocates input)
    (hdown : s.SiftsDown input) (hstep : s.step input = some s') : s'.Safe start := by
  have horder := h.order.step hadm hstep
  rcases h.keeps hadm halloc hdown hstep with hexit | ⟨now, events, rfl, hw⟩ | ⟨hkeeps, hend, -⟩
  · exact ⟨ne_of_eq_of_ne hexit (by decide), horder,
      fun hrun => absurd (hexit.symm.trans hrun) (by decide)⟩
  · have hfate : s'.worker.fate = s.worker.fate := by rw [hw]
    refine ⟨hfate ▸ h.defined, horder, fun hrun => ?_⟩
    rw [hw]
    exact (h.timed (hfate ▸ hrun)).clock now
  · refine ⟨?_, horder, fun _ => hkeeps.timed⟩
    by_cases hphase : s'.phase = .waiting
    · exact ne_of_eq_of_ne (hend hphase) (by decide)
    · exact horder.defined hphase

/-- The clock of a worker that runs has been read, and no deadline is more than a minute
away from it. -/
def Timely (s : Reactor) : Prop :=
  s.worker.fate = .running → s.worker.Minute ∧ 0 < s.worker.pstTimeCache.tv_sec

/-- **The clock does not go back**, and is what `gettimeofday` returns. -/
def Forward (s : Reactor) : ReactorInput → Prop
  | .wait now _ => now.Normalised ∧ s.worker.pstTimeCache ≤ now
  | _ => True

instance (s : Reactor) : ∀ input, Decidable (s.Forward input)
  | .wait now _ => inferInstanceAs (Decidable (now.Normalised ∧ s.worker.pstTimeCache ≤ now))
  | .callback _ => inferInstanceAs (Decidable True)
  | .expire => inferInstanceAs (Decidable True)

/-- A later clock is nearer to the deadlines. -/
theorem Timely.step (ht : s.Timely) (h : s.Safe start) (hadm : s.Orderly input)
    (halloc : s.Allocates input) (hdown : s.SiftsDown input) (hforward : s.Forward input)
    (hstep : s.step input = some s') : s'.Timely := by
  obtain ⟨hminute, hsec⟩ := ht (running_of_step hstep)
  intro hrun'
  rcases h.keeps hadm halloc hdown hstep with hexit | ⟨now, events, rfl, hw⟩ | ⟨hkeeps, -⟩
  · exact absurd (hexit.symm.trans hrun') (by decide)
  · obtain ⟨hnorm, hle⟩ := hforward
    have hmicros := (TimeVal.le_iff_micros hminute.clock hnorm).mp hle
    rw [hw]
    refine ⟨⟨hnorm, fun c conn hc => ?_⟩, ?_⟩
    · obtain ⟨hnorm', hreach⟩ := hminute.reach c conn hc
      exact ⟨hnorm', by dsimp only; omega⟩
    · obtain hlt | ⟨heq, -⟩ := TimeVal.le_def.mp hle
      · exact hsec.trans hlt
      · exact heq ▸ hsec
  · rw [hkeeps.time]
    exact ⟨hkeeps.minute hminute, hsec⟩

end Reactor

namespace Worker

variable {w : Worker} {start batch : Set ℤ}

/-- A worker without connections and timers. -/
theorem Timed.of_empty {event : NodePtr → TimeoutEvent} (hconns : ∀ c, w.conns c = none)
    (hheap : w.pstHeapHeader = minheapCreate event) (htimeouts : w.timeouts = []) : w.Timed := by
  have hnone : ∀ {c conn}, w.conns c = some conn → False := fun {c conn} hc => by
    rw [hconns c] at hc
    exact absurd hc (by simp)
  have hused : w.pstHeapHeader.iNodeUsed = 0 := by rw [hheap]; rfl
  have hlt : ∀ {i}, i < w.pstHeapHeader.iNodeUsed → False := fun {i} hi => by
    rw [hused] at hi
    exact Nat.not_lt_zero i hi
  refine ⟨⟨⟨⟨⟨by rw [hused]; exact Nat.zero_le _, fun i hi => (hlt hi).elim,
    fun i hi => (hlt hi).elim, fun p ⟨c, conn, hc, _⟩ => (hnone hc).elim⟩,
    fun i _ hi => (hlt hi).elim⟩, fun c conn hc => (hnone hc).elim,
    fun c _ conn _ hc => (hnone hc).elim⟩, fun c conn hc => (hnone hc).elim,
    fun c _ conn _ hc => (hnone hc).elim, [], by rw [htimeouts]; rfl, List.nodup_nil,
    fun s hs => absurd hs List.not_mem_nil⟩, fun p ⟨c, conn, hc, _⟩ => (hnone hc).elim⟩

/-- **As many timers as clients**: the heap holds one for each connection that is
counted. -/
theorem Timed.used (h : w.Timed) (hcount : w.Counted) :
    (w.pstHeapHeader.iNodeUsed : ℤ) = w.iClientCount := by
  obtain ⟨live, hlive, heq⟩ := hcount
  have hheld : w.pstHeapHeader.held = w.nodes :=
    Set.Subset.antisymm h.heap.toBacked.held_subset h.armed
  -- the timer of a live connection
  let node : ConnPtr → NodePtr := fun c => ((w.conns c).map ConnFd.pstTimeoutEvent).getD 0
  have hnode : ∀ {c conn}, w.conns c = some conn → node c = conn.pstTimeoutEvent :=
    fun {c conn} hc => by
      show ((w.conns c).map ConnFd.pstTimeoutEvent).getD 0 = _
      rw [hc]
      rfl
  have himage : w.nodes = node '' (live : Set ConnPtr) := by
    ext p
    constructor
    · rintro ⟨c, conn, hc, rfl⟩
      exact ⟨c, Finset.mem_coe.mpr ((hlive c).mpr (by rw [hc]; simp)), hnode hc⟩
    · rintro ⟨c, hc, rfl⟩
      obtain ⟨conn, hconn⟩ := Option.ne_none_iff_exists'.mp ((hlive c).mp (Finset.mem_coe.mp hc))
      exact ⟨c, conn, hconn, (hnode hconn).symm⟩
  have hinj : Set.InjOn node (live : Set ConnPtr) := by
    intro c hc c' hc' hcc
    obtain ⟨conn, hconn⟩ := Option.ne_none_iff_exists'.mp ((hlive c).mp (Finset.mem_coe.mp hc))
    obtain ⟨conn', hconn'⟩ := Option.ne_none_iff_exists'.mp ((hlive c').mp (Finset.mem_coe.mp hc'))
    rw [hnode hconn, hnode hconn'] at hcc
    exact h.node_inj c c' conn conn' hconn hconn' hcc
  rw [heq, ← h.heap.toBacked.ncard_held, hheld, himage, hinj.ncard_image, Set.ncard_coe_finset]

/-- **The wait of a worker that has nothing due**: for ever, if it has no client, and else
for up to a minute. -/
theorem Timed.wait (h : w.Timed) (hm : w.Minute) (hcount : w.Counted)
    (hsec : 0 < w.pstTimeCache.tv_sec)
    (hlate : ∀ c conn, w.conns c = some conn →
      w.pstTimeCache < w.pstHeapHeader.timeout conn.pstTimeoutEvent) (now save : TimeVal) :
    w.iClientCount = 0 ∧ iEpollwaitTimeout w now save = -1
      ∨ 0 < w.iClientCount ∧ 1 ≤ iEpollwaitTimeout w now save
        ∧ iEpollwaitTimeout w now save ≤ 60000 := by
  have hnode : ∀ p ∈ w.pstHeapHeader.entries, ∃ c conn, w.conns c = some conn
      ∧ conn.pstTimeoutEvent = p :=
    fun p hp => h.heap.toBacked.held_subset (mem_entries.mp hp)
  have hused := h.used hcount
  rw [← card_entries] at hused
  unfold iEpollwaitTimeout
  obtain ⟨hnone, hmillis⟩ | ⟨p, hp, -, hleast⟩ := epollwaitMillis_tight h.heap
    (fun p hp => by obtain ⟨c, conn, hc, rfl⟩ := hnode p hp; exact (hm.reach c conn hc).1)
    hm.clock hsec.ne' now save
  · rw [hmillis]
    rw [hnone] at hused
    exact Or.inl ⟨hused.symm, by decide⟩
  · obtain ⟨c, conn, hc, rfl⟩ := hnode p hp
    obtain ⟨hnorm, hreach⟩ := hm.reach c conn hc
    have hafter : w.pstTimeCache.micros < (w.pstHeapHeader.timeout conn.pstTimeoutEvent).micros :=
      not_le.mp (fun hle => not_le.mpr (hlate c conn hc)
        ((TimeVal.le_iff_micros hnorm hm.clock).mpr hle))
    obtain ⟨⟨h0, hreached⟩, hmin⟩ := hleast
    have hmax := hmin (a := 60000) ⟨by decide, by omega⟩
    have hpos := Multiset.card_pos_iff_exists_mem.mpr ⟨_, hp⟩
    rw [int32_eq_self (by omega) (by omega)]
    exact Or.inr ⟨by omega, by omega, hmax⟩

end Worker

namespace Reactor

variable {start : Set ℤ} {s s' : Reactor} {input : ReactorInput}

/-- **What is expected of a worker**: it does nothing undefined, and while it runs, its
books are right and each of its connections has one timer. -/
structure Sound (start : Set ℤ) (s : Reactor) : Prop where
  defined : s.worker.fate ≠ .undefined
  books : s.worker.fate = .running → s.worker.Books start (fds s.pending)
  timers : s.worker.fate = .running → s.worker.OneTimerEach

theorem Safe.sound (h : s.Safe start) : s.Sound start where
  defined := h.defined
  books := h.order.books
  timers hrun := (h.timed hrun).oneTimerEach (h.timed hrun).armed

/-- **A new worker is safe.** -/
theorem Safe.new {fd N : ℤ} {o : Worker.Creation} {e : Epoll} {w : Worker}
    (hproper : o.Proper fd N e) (hnew : Worker.eventBaseCreateFrom fd N o = some w) :
    Safe e.opened ⟨w, .waiting⟩ := by
  obtain ⟨hrun, -, hheap, htimeouts, -⟩ := Worker.eventBaseCreateFrom_empty hnew
  obtain ⟨-, -, -, -, -, -, -, -, hconns, -⟩ := Worker.eventBaseCreateFrom_eq_some hnew
  exact ⟨ne_of_eq_of_ne hrun (by decide), .new hproper hnew, fun _ => .of_empty hconns hheap htimeouts⟩

/-- The same as `Allocates`, so that it can be decided: the timers in use are those of the
connections in the slots. -/
def AllocatesSlots (s : Reactor) : ReactorInput → Prop
  | .callback input => input.realloc = true ∧ (s.nextCallback = some .processAcceptCallback →
    ∀ a, Worker.client input.accept = some a → a.realloc = true
      ∧ ∀ n < s.worker.table.iFdEventArraySize.toNat, ∀ c ∈ (s.worker.table.slot n).pstArg,
        ∀ conn ∈ s.worker.conns c, conn.pstTimeoutEvent ≠ a.pstTimeoutEvent)
  | _ => True

instance (s : Reactor) : ∀ input, Decidable (s.AllocatesSlots input)
  | .callback input => inferInstanceAs (Decidable (input.realloc = true
    ∧ (s.nextCallback = some .processAcceptCallback → ∀ a ∈ Worker.client input.accept,
      a.realloc = true ∧ ∀ n < s.worker.table.iFdEventArraySize.toNat,
        ∀ c ∈ (s.worker.table.slot n).pstArg, ∀ conn ∈ s.worker.conns c,
          conn.pstTimeoutEvent ≠ a.pstTimeoutEvent)))
  | .wait _ _ => inferInstanceAs (Decidable True)
  | .expire => inferInstanceAs (Decidable True)

/-- Where the books are right, every connection is in a slot. -/
theorem InOrder.allocates (h : s.InOrder start) (halloc : s.AllocatesSlots input) :
    s.Allocates input := by
  cases input with
  | callback input =>
    refine ⟨halloc.1, fun hnext a ha => ⟨(halloc.2 hnext a ha).1, ?_⟩⟩
    rintro ⟨c, conn, hc, hnode⟩
    have hrun : s.worker.fate = .running := by
      by_contra hrun
      unfold nextCallback at hnext
      rw [if_neg hrun] at hnext
      exact absurd hnext (by simp)
    have hserved := (h.books hrun).served c conn hc
    obtain ⟨hpos, hlt⟩ := hserved.range
    have hne := (halloc.2 hnext a ha).2 conn.iFd.toNat (by omega) c
    rw [Int.toNat_of_nonneg hpos] at hne
    exact hne hserved.serves.arg conn hc hnode
  | wait now events => trivial
  | expire => trivial

theorem along_allocates {fd N : ℤ} {o : Worker.Creation} {e : Epoll} {w : Worker}
    (hproper : o.Proper fd N e) (hnew : Worker.eventBaseCreateFrom fd N o = some w)
    {inputs : List ReactorInput} (hadm : Run.Along Reactor.step Orderly ⟨w, .waiting⟩ inputs)
    (halloc : Run.Along Reactor.step AllocatesSlots ⟨w, .waiting⟩ inputs) :
    Run.Along Reactor.step Allocates ⟨w, .waiting⟩ inputs :=
  (Run.always_of_along (fun _ _ _ h hadm hstep => h.step hadm hstep)
    (InOrder.new hproper hnew) hadm).along halloc (fun _ _ h halloc => h.allocates halloc)

theorem Timely.new {fd N : ℤ} {o : Worker.Creation} {w : Worker}
    (hnew : Worker.eventBaseCreateFrom fd N o = some w) (hclock : o.gettimeofday.Normalised)
    (hsec : 0 < o.gettimeofday.tv_sec) : Timely ⟨w, .waiting⟩ := by
  obtain ⟨-, -, -, -, -, htime⟩ := Worker.eventBaseCreateFrom_empty hnew
  obtain ⟨-, -, -, -, -, -, -, -, hconns, -⟩ := Worker.eventBaseCreateFrom_eq_some hnew
  rw [← htime] at hclock hsec
  refine fun _ => ⟨⟨hclock, fun c conn hc => ?_⟩, hsec⟩
  rw [show w.conns c = none from hconns c] at hc
  exact absurd hc (by simp)

end Reactor

/-- **A worker is safe while its erases sift down**, over any run of its loop, up to the
first callback that leaves its memory: it never uses a connection that is gone, neither in
a callback nor in a timeout; its books are always right, and every connection has one timer
in the heap. -/
theorem reactor_always_safe {fd N : ℤ} {o : Worker.Creation} {e : Epoll} {w : Worker}
    (hproper : o.Proper fd N e) (hnew : Worker.eventBaseCreateFrom fd N o = some w)
    {inputs : List ReactorInput}
    (hadm : Run.Along Reactor.step Reactor.Orderly ⟨w, .waiting⟩ inputs)
    (halloc : Run.Along Reactor.step Reactor.Allocates ⟨w, .waiting⟩ inputs)
    (hdown : Run.Along Reactor.step Reactor.SiftsDown ⟨w, .waiting⟩ inputs) :
    Run.Always Reactor.step (Reactor.Sound e.opened) ⟨w, .waiting⟩ inputs :=
  (Run.always_of_along (fun _ _ _ h hG hstep => h.step hG.1.1 hG.1.2 hG.2 hstep)
    (Reactor.Safe.new hproper hnew) ((hadm.and halloc).and hdown)).mono (fun _ h => h.sound)

/-- The two rounds of `twoRounds`, with the timers. -/
theorem reactor_always_safe_sample :
    Run.Always Reactor.step (Reactor.Sound ruledEpoll.opened) ⟨ruledWorker, .waiting⟩ twoRounds :=
  reactor_always_safe ruledCreation_proper ruledWorker_created (by decide +kernel)
    (Reactor.along_allocates ruledCreation_proper ruledWorker_created (by decide +kernel)
      (by decide +kernel)) (by decide +kernel)

/-- **A connection has a minute**, and no more: in a run as above with a clock that does
not go back, a worker that has been through its timeouts has none left that is due, and no
deadline is more than a minute away. So it waits for ever if it has no client, and
otherwise for a millisecond at least and a minute at most. -/
theorem reactor_serves_minute {fd N : ℤ} {o : Worker.Creation} {e : Epoll} {w : Worker}
    (hproper : o.Proper fd N e) (hnew : Worker.eventBaseCreateFrom fd N o = some w)
    (hclock : o.gettimeofday.Normalised) (hsec : 0 < o.gettimeofday.tv_sec)
    (inputs : List ReactorInput) {s : Reactor}
    (hadm : Run.Along Reactor.step Reactor.Orderly ⟨w, .waiting⟩ (inputs ++ [.expire]))
    (halloc : Run.Along Reactor.step Reactor.Allocates ⟨w, .waiting⟩ (inputs ++ [.expire]))
    (hdown : Run.Along Reactor.step Reactor.SiftsDown ⟨w, .waiting⟩ (inputs ++ [.expire]))
    (hforward : Run.Along Reactor.step Reactor.Forward ⟨w, .waiting⟩ (inputs ++ [.expire]))
    (hend : Run.exec Reactor.step ⟨w, .waiting⟩ (inputs ++ [.expire]) = some s)
    (hrun : s.worker.fate = .running) :
    (∀ c conn, s.worker.conns c = some conn →
        s.worker.pstTimeCache < s.worker.pstHeapHeader.timeout conn.pstTimeoutEvent
        ∧ (s.worker.pstHeapHeader.timeout conn.pstTimeoutEvent).micros
          ≤ s.worker.pstTimeCache.micros + 60 * 1000000)
      ∧ ∀ now save,
        s.worker.iClientCount = 0 ∧ iEpollwaitTimeout s.worker now save = -1
        ∨ 0 < s.worker.iClientCount ∧ 1 ≤ iEpollwaitTimeout s.worker now save
          ∧ iEpollwaitTimeout s.worker now save ≤ 60000 := by
  have hall := ((hadm.and halloc).and hdown).and hforward
  -- the state before the timeouts, and the step
  obtain ⟨hbefore, hlast⟩ := hall.append
  rw [Run.exec_append] at hend
  obtain ⟨t, ht, hexec⟩ := Option.bind_eq_some_iff.mp hend
  obtain ⟨s', hstep, hs⟩ := Option.bind_eq_some_iff.mp hexec
  obtain rfl : s' = s := Option.some.inj hs
  have hinv : Run.Always Reactor.step (fun s => s.Safe e.opened ∧ s.Timely) ⟨w, .waiting⟩ inputs :=
    Run.always_of_along (fun _ _ _ h hG hstep =>
      ⟨h.1.step hG.1.1.1 hG.1.1.2 hG.1.2 hstep,
        h.2.step h.1 hG.1.1.1 hG.1.1.2 hG.1.2 hG.2 hstep⟩)
      ⟨.new hproper hnew, .new hnew hclock hsec⟩ hbefore
  obtain ⟨hsafe, htimely⟩ := hinv.exec ht
  obtain ⟨⟨⟨hadm', halloc'⟩, hdown'⟩, hforward'⟩ := (hlast t ht).1
  have htimed := (hsafe.step hadm' halloc' hdown' hstep).timed hrun
  have hbooks := (hsafe.step hadm' halloc' hdown' hstep).order.books hrun
  obtain ⟨hminute, hsec'⟩ := htimely.step hsafe hadm' halloc' hdown' hforward' hstep hrun
  have hlate : ∀ c conn, s'.worker.conns c = some conn →
      s'.worker.pstTimeCache < s'.worker.pstHeapHeader.timeout conn.pstTimeoutEvent := by
    rcases hsafe.keeps hadm' halloc' hdown' hstep with hexit | ⟨now, events, hwait, -⟩ | ⟨-, -, hlate⟩
    · exact absurd (hexit.symm.trans hrun) (by decide)
    · cases hwait
    · exact hlate rfl
  exact ⟨fun c conn hc => ⟨hlate c conn hc, (hminute.reach c conn hc).2⟩,
    fun now save => htimed.wait hminute hbooks.count hsec' hlate now save⟩

/-- A client connects, and has a minute. -/
theorem reactor_serves_minute_sample :
    ∃ s, Run.exec Reactor.step ⟨ruledWorker, .waiting⟩ (acceptingInputs 7) = some s
      ∧ s.worker.fate = .running ∧ s.worker.iClientCount = 1
      ∧ (∀ c conn, s.worker.conns c = some conn →
        s.worker.pstTimeCache < s.worker.pstHeapHeader.timeout conn.pstTimeoutEvent
        ∧ (s.worker.pstHeapHeader.timeout conn.pstTimeoutEvent).micros
          ≤ s.worker.pstTimeCache.micros + 60 * 1000000)
      ∧ ∀ now save,
        s.worker.iClientCount = 0 ∧ iEpollwaitTimeout s.worker now save = -1
        ∨ 0 < s.worker.iClientCount ∧ 1 ≤ iEpollwaitTimeout s.worker now save
          ∧ iEpollwaitTimeout s.worker now save ≤ 60000 := by
  have hread : (Run.exec Reactor.step ⟨ruledWorker, .waiting⟩ (acceptingInputs 7)).map
      (fun s => (s.worker.fate, s.worker.iClientCount)) = some (.running, 1) := by
    decide +kernel
  obtain ⟨s, hexec, hs⟩ := Option.map_eq_some_iff.mp hread
  obtain ⟨hrun, hcount⟩ := Prod.mk.inj hs
  refine ⟨s, hexec, hrun, hcount, ?_⟩
  have hadm : Run.Along Reactor.step Reactor.Orderly ⟨ruledWorker, .waiting⟩
      (acceptingInputs 7) := by decide +kernel
  exact reactor_serves_minute ruledCreation_proper ruledWorker_created (by decide) (by decide)
    (acceptingInputs 7).dropLast hadm
    (Reactor.along_allocates ruledCreation_proper ruledWorker_created hadm (by decide +kernel))
    (by decide +kernel) (by decide +kernel) hexec hrun
