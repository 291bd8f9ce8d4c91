import TcpFrame.WorkerDispatch
import TcpFrame.WorkerTimersRuns
import TcpFrame.WorkerRearm
import Mathlib.Order.Bounds.Basic

/-!
# The wait for the next timer

The timeout the loop hands to `epoll_wait` is tight: in milliseconds, it is the
least number after which the clock has reached the first deadline
(`epollwaitMillis_tight`), where the `int` it is kept in can hold it. A timer is
set for an `int` of milliseconds, so in a run whose clock does not go back the
`int` holds it always, and once `ReactorProcessTimeoutEvent` is through it is
never `0` (`loop_always_waits`).

The part about runs does not need the heap to be well formed, and an erase may
break it: what is left in the array is still nodes that were pushed, each with a
deadline that was in reach when it was set.
-/

open MinHeap Worker

/-! ## Milliseconds -/

/-- The milliseconds `ReactorEventDispatchLoop` makes of a time value. -/
def TimeVal.millis (t : TimeVal) : ℤ := t.tv_sec * 1000 + (t.tv_usec + 999).tdiv 1000

/-- **Rounding up**: the least number of milliseconds that are as long. -/
theorem TimeVal.millis_isLeast {t : TimeVal} (ht : t.Normalised) (hpos : 0 ≤ t.micros) :
    IsLeast {m : ℤ | 0 ≤ m ∧ t.micros ≤ 1000 * m} t.millis := by
  obtain ⟨h0, h1⟩ := ht
  unfold TimeVal.micros at hpos
  have hdiv : t.millis = t.tv_sec * 1000 + (t.tv_usec + 999) / 1000 := by
    unfold TimeVal.millis
    rw [Int.tdiv_eq_ediv_of_nonneg (by omega)]
  rw [hdiv]
  unfold TimeVal.micros
  refine ⟨⟨?_, ?_⟩, ?_⟩
  · omega
  · omega
  · rintro m ⟨hm0, hm⟩
    omega

namespace Worker

variable {w w' : Worker} {now save : TimeVal} {nodes : Set NodePtr} {p : NodePtr}

/-- **What the loop assigns**, with a clock that has been read. -/
theorem epollwaitMillis_eq (hsec : w.pstTimeCache.tv_sec ≠ 0) :
    epollwaitMillis w now save
      = match minheapGetTopElement w.pstHeapHeader with
        | none => -1
        | some p =>
          if w.pstTimeCache ≤ w.pstHeapHeader.timeout p then
            (minheapTimersub (w.pstHeapHeader.timeout p) w.pstTimeCache).millis
          else 0 := by
  unfold epollwaitMillis getEPollwaitTimeoutValue
  cases minheapGetTopElement w.pstHeapHeader with
  | none => rfl
  | some p =>
    dsimp only
    rw [if_neg hsec]
    by_cases hle : w.pstTimeCache ≤ w.pstHeapHeader.timeout p
    · rw [if_pos (minheapTimercmp_le.mpr hle), if_pos hle]
      rfl
    · rw [if_neg (fun h => hle (minheapTimercmp_le.mp h)), if_neg hle]
      rfl

/-- **The wait for one deadline** is the least number of milliseconds after which
the clock has reached it. -/
theorem wait_isLeast {c t : TimeVal} (hc : c.Normalised) (ht : t.Normalised) :
    IsLeast {m : ℤ | 0 ≤ m ∧ t.micros ≤ c.micros + 1000 * m}
      (if c ≤ t then (minheapTimersub t c).millis else 0) := by
  have hmicros := micros_minheapTimersub t c
  by_cases hle : c ≤ t
  · rw [if_pos hle]
    have hpos := (TimeVal.le_iff_micros hc ht).mp hle
    obtain ⟨⟨hm0, hm⟩, hleast⟩ := TimeVal.millis_isLeast (minheapTimersub_normalised ht hc)
      (by omega)
    exact ⟨⟨hm0, by omega⟩, fun m ⟨hm0, hm⟩ => hleast ⟨hm0, by omega⟩⟩
  · rw [if_neg hle]
    have hlt : ¬ c.micros ≤ t.micros := fun h => hle ((TimeVal.le_iff_micros hc ht).mpr h)
    exact ⟨⟨le_rfl, by omega⟩, fun m hm => hm.1⟩

/-- **The wait is tight** for the first of all deadlines. -/
theorem epollwaitMillis_tight (hw : WellFormed nodes w.pstHeapHeader)
    (hnorm : ∀ p ∈ w.pstHeapHeader.entries, (w.pstHeapHeader.timeout p).Normalised)
    (hc : w.pstTimeCache.Normalised) (hsec : w.pstTimeCache.tv_sec ≠ 0) (now save : TimeVal) :
    w.pstHeapHeader.entries = 0 ∧ epollwaitMillis w now save = -1
      ∨ ∃ p ∈ w.pstHeapHeader.entries,
        (∀ q ∈ w.pstHeapHeader.entries, w.pstHeapHeader.timeout p ≤ w.pstHeapHeader.timeout q)
        ∧ IsLeast {m : ℤ | 0 ≤ m
            ∧ (w.pstHeapHeader.timeout p).micros ≤ w.pstTimeCache.micros + 1000 * m}
          (epollwaitMillis w now save) := by
  rw [epollwaitMillis_eq hsec, minheapGetTopElement_spec hw.toBacked]
  by_cases h0 : w.pstHeapHeader.iNodeUsed = 0
  · rw [if_neg (not_not.mpr h0)]
    refine Or.inl ⟨?_, rfl⟩
    rw [← Multiset.card_eq_zero, card_entries, h0]
  · rw [if_pos h0]
    have hmem : w.pstHeapHeader.slot 0 ∈ w.pstHeapHeader.entries :=
      mem_entries.mpr ⟨0, Nat.pos_of_ne_zero h0, rfl⟩
    refine Or.inr ⟨_, hmem, fun q hq => ?_, wait_isLeast hc (hnorm _ hmem)⟩
    obtain ⟨i, hi, rfl⟩ := mem_entries.mp hq
    exact hw.order.root_le hi

/-! ## Deadlines in reach -/

/-- **Every deadline in the heap is in reach** of an `int` of milliseconds. -/
structure Near (w : Worker) : Prop where
  clock : w.pstTimeCache.Normalised
  reach : ∀ p ∈ w.pstHeapHeader.held, (w.pstHeapHeader.timeout p).Normalised
    ∧ (w.pstHeapHeader.timeout p).micros ≤ w.pstTimeCache.micros + 1000 * (2 ^ 31 - 1)

/-- What is left of the heap is in reach if all of it was. -/
theorem Near.subset (h : w.Near) (hheld : w'.pstHeapHeader.held ⊆ w.pstHeapHeader.held)
    (htimeout : w'.pstHeapHeader.timeout = w.pstHeapHeader.timeout)
    (htime : w'.pstTimeCache = w.pstTimeCache) : w'.Near := by
  refine ⟨?_, fun p hp => ?_⟩
  · rw [htime]
    exact h.clock
  · rw [htimeout, htime]
    exact h.reach p (hheld hp)

theorem Near.fewer (h : w.Near) (hfewer : Fewer w.pstHeapHeader w'.pstHeapHeader)
    (htime : w'.pstTimeCache = w.pstTimeCache) : w'.Near :=
  h.subset hfewer.held (timeout_of_body hfewer.body) htime

/-- Only the heap and the clock matter. -/
theorem Near.same (h : w.Near) (hheap : w'.pstHeapHeader = w.pstHeapHeader)
    (htime : w'.pstTimeCache = w.pstTimeCache) : w'.Near :=
  h.fewer (hheap ▸ Fewer.refl) htime

/-- **Registering a timer** for an `int` of milliseconds sets a deadline that is
in reach. -/
theorem Near.register {t : ℤ} {realloc : Bool} (h : w.Near) (ht : 0 ≤ t) (hmax : t < 2 ^ 31) :
    (registerTimerOutEvent w p t realloc).Near := by
  have hfewer := minheapErase_fewer (w.rearmed p t) p
  obtain ⟨hheld, hbody⟩ := minHeapPush_within (minheapErase (w.rearmed p t) p).2 p realloc
  rw [← pstHeapHeader_registerTimerOutEvent] at hheld hbody
  have htimeout : (registerTimerOutEvent w p t realloc).pstHeapHeader.timeout
      = Function.update w.pstHeapHeader.timeout p (w.deadline t) := by
    rw [timeout_of_body hbody, timeout_of_body hfewer.body, timeout_rearmed]
  refine ⟨h.clock, fun q hq => ?_⟩
  rw [htimeout]
  by_cases hqp : q = p
  · rw [hqp, Function.update_self]
    have hmicros : (w.deadline t).micros = w.pstTimeCache.micros + (t * 1000 - t % 1000 * 999) :=
      micros_deadline ht
    refine ⟨minheapTimeradd_normalised h.clock (timerInterval_normalised ht), ?_⟩
    show (w.deadline t).micros ≤ w.pstTimeCache.micros + 1000 * (2 ^ 31 - 1)
    omega
  · rw [Function.update_of_ne hqp]
    exact h.reach q (hfewer.held ((hheld hq).resolve_left hqp))

/-- `__DestroyConn` leaves fewer timers, and the clock. -/
theorem destroyConn_fewer (c : ConnPtr) :
    Fewer w.pstHeapHeader (destroyConn w c).pstHeapHeader
      ∧ (destroyConn w c).pstTimeCache = w.pstTimeCache := by
  cases hc : w.conns c with
  | none =>
    unfold destroyConn
    rw [hc]
    exact ⟨.refl, rfl⟩
  | some conn =>
    obtain ⟨iClientCount, table, ⟨-, hdestroy⟩ | ⟨table', -, -, hdestroy⟩⟩ := destroyConn_spec hc
    · rw [hdestroy]
      exact ⟨.refl, rfl⟩
    · rw [hdestroy]
      exact ⟨minheapErase_fewer _ _, rfl⟩

/-! ## The callbacks -/

/-- The timer a call registers is set for an `int` of milliseconds. -/
def InRange (call : ReactorCall) : Prop :=
  ∀ t, call = .registerTimerOutEvent t → 0 ≤ t ∧ t < 2 ^ 31

theorem Near.call {c : ConnPtr} {realloc : Bool} {call : ReactorCall} (h : w.Near)
    (hcall : InRange call) : (reactorCall c realloc w call).Near := by
  unfold reactorCall
  split
  swap
  · exact h
  split
  · exact h.same rfl rfl
  unfold serve
  cases call with
  | eventAdd m cb =>
    dsimp only
    split
    · exact h.same rfl rfl
    · exact h.same rfl rfl
  | eventDel m =>
    dsimp only
    split
    · exact h.same rfl rfl
    · exact h.same rfl rfl
  | registerTimerOutEvent t => exact h.register (hcall t rfl).1 (hcall t rfl).2
  | destroyConn => exact h.fewer (destroyConn_fewer c).1 (destroyConn_fewer c).2

theorem Near.calls {c : ConnPtr} {realloc : Bool} {calls : List ReactorCall} (h : w.Near)
    (hcalls : ∀ call ∈ calls, InRange call) : (calls.foldl (reactorCall c realloc) w).Near := by
  induction calls generalizing w with
  | nil => exact h
  | cons call calls ih =>
    exact ih (h.call (hcalls call List.mem_cons_self))
      (fun call' hcall' => hcalls call' (List.mem_cons_of_mem _ hcall'))

/-- A receive callback registers its timer for a minute. -/
theorem processRecvCallback_inRange {conn : ConnFd} {t_iFd : ℤ} {malloc : Malloc}
    {head body : List ReadOutcome} {rx : List UInt8} :
    ∀ call ∈ (processRecvCallback conn t_iFd malloc head body rx).calls, InRange call := by
  have hends := processRecvCallback_ends conn t_iFd malloc head body rx
  generalize processRecvCallback conn t_iFd malloc head body rx = r at hends ⊢
  have hnil : ∀ call ∈ ([] : List ReactorCall), InRange call :=
    fun call hcall => absurd hcall List.not_mem_nil
  cases hends with
  | destroyed c rx hsame =>
    intro call hcall t ht
    rw [List.mem_singleton.mp hcall] at ht
    exact absurd ht (by simp)
  | waiting c rx hsame => exact hnil
  | endless c rx hsame => exact hnil
  | unanswered c rx hsame hentire => exact hnil
  | answered c rx hsame conn' calls hentire =>
    intro call hcall t ht
    rcases List.mem_append.mp hcall with hcall | hcall
    · rw [(processEntirePacket_spec hentire).2 call hcall] at ht
      exact absurd ht (by simp)
    · rw [List.mem_singleton.mp hcall] at ht
      obtain rfl := ReactorCall.registerTimerOutEvent.inj ht
      exact ⟨by decide, by decide⟩

/-- A send callback registers no timer. -/
theorem processSendCallback_inRange {conn : ConnFd} {t_iFd : ℤ} {outcomes : List WriteOutcome} :
    ∀ call ∈ (processSendCallback conn t_iFd outcomes).calls, InRange call := by
  have hnil : ∀ call ∈ ([] : List ReactorCall), InRange call :=
    fun call hcall => absurd hcall List.not_mem_nil
  have hone : ∀ call : ReactorCall, (∀ t, call ≠ .registerTimerOutEvent t) →
      ∀ call' ∈ [call], InRange call' := by
    intro call hne call' hcall' t ht
    rw [List.mem_singleton.mp hcall'] at ht
    exact absurd ht (hne t)
  unfold processSendCallback
  split
  · exact hnil
  split
  · exact hnil
  dsimp only
  split
  · exact hone _ (fun t => by simp)
  split
  · exact hone _ (fun t => by simp)
  · exact hnil

/-- The memory of a new connection is not in the heap, or if it is, it keeps its
deadline. -/
theorem timeout_minheapTimeoutEventInit {h : MinHeap} {cb : Option TimeoutProcCallback}
    {arg : Option ConnPtr} {iPid iFd : ℤ} :
    (minheapTimeoutEventInit h p cb arg iPid iFd).timeout = h.timeout := by
  funext q
  show (Function.update h.event p _ q).stTimeout = _
  by_cases hq : q = p
  · rw [hq, Function.update_self]
    rfl
  · rw [Function.update_of_ne hq]
    rfl

theorem Near.accept {fd : ℤ} {accept : AcceptOutcome} (h : w.Near) :
    (processAcceptCallback w fd accept).Near := by
  unfold processAcceptCallback
  split
  · exact h
  split
  · exact h
  split
  swap
  · exact h.same rfl rfl
  cases accept with
  | eagain => exact h
  | error => exact h.same rfl rfl
  | conn a =>
    dsimp only
    split
    · exact h.same rfl rfl
    -- the node is initialised twice, and registered for a minute
    set w₁ : Worker := { w with
      table := { w.table with epoll := w.table.epoll.accept a.iClientFd }
      iClientCount := w.iClientCount + 1 } with hw₁
    have hjoining : (w₁.joining a).Near := by
      refine h.subset (fun q hq => hq) ?_ rfl
      unfold joining createNewConn
      dsimp only
      rw [timeout_minheapTimeoutEventInit, timeout_minheapTimeoutEventInit]
    have hreg : (registerTimerOutEvent (w₁.joining a) a.pstTimeoutEvent maxConnTimeout
        a.realloc).Near := hjoining.register (by decide) (by decide)
    split
    · exact hreg.same rfl rfl
    · exact hreg.same rfl rfl

theorem Near.callback {input : EventInput} {fd : ℤ} {proc : Option EventCallbackProc}
    (h : w.Near) : (w.call input fd proc).Near := by
  unfold Worker.call
  cases proc with
  | none => exact h.same rfl rfl
  | some proc =>
    dsimp only
    set w₁ : Worker := { w with invoked := w.invoked ++ [⟨fd, proc, (w.table.slot fd).pstArg,
      ((w.table.slot fd).pstArg.bind w.conns).map ConnFd.serial⟩] } with hw₁
    have h₁ : w₁.Near := h.same rfl rfl
    have hcalls : ∀ (c : ConnPtr) (conn : ConnFd) (calls : List ReactorCall),
        (∀ call ∈ calls, InRange call) →
        (calls.foldl (reactorCall c input.realloc)
          { w₁ with conns := Function.update w₁.conns c (some conn) }).Near := by
      intro c conn calls hin
      have hconn : Near { w₁ with conns := Function.update w₁.conns c (some conn) } :=
        h₁.same rfl rfl
      exact hconn.calls hin
    unfold eventCallback
    cases proc with
    | processAcceptCallback => exact h₁.accept
    | processRecvCallback =>
      dsimp only
      split
      · exact h₁
      split
      · exact h₁.same rfl rfl
      split
      · exact h₁.same rfl rfl
      split
      · exact hcalls _ _ _ processRecvCallback_inRange
      · exact (hcalls _ _ _ processRecvCallback_inRange).same rfl rfl
    | processSendCallback =>
      dsimp only
      split
      · exact h₁
      split
      · exact h₁.same rfl rfl
      · exact hcalls _ _ _ processSendCallback_inRange
    | wild addr => exact h₁.same rfl rfl

theorem Near.dispatch {ev : EpollEvent} {input : EventInput} (h : w.Near) :
    (dispatchEvent w ev input).Near := by
  have hwrite : ∀ w₂ : Worker, w₂.Near → (if w₂.fate ≠ .running then w₂ else
      if (w₂.table.slot ev.fd).iMask &&& ev.iMask &&& eventWritable ≠ 0 then
        w₂.call input ev.fd (w₂.table.slot ev.fd).pFunEventCallbackWrite
      else w₂).Near := by
    intro w₂ h₂
    split
    · exact h₂
    split
    · exact h₂.callback
    · exact h₂
  have h₁ : Near { w with table := w.table.access ev.fd } := h.same rfl rfl
  unfold dispatchEvent
  refine hwrite _ ?_
  dsimp only
  split
  · exact h₁.callback
  · exact h₁

/-! ## The timeout loop -/

/-- What a node calls leaves fewer timers. -/
theorem connectionTimeoutCallback_fewer (arg : Option ConnPtr) :
    Fewer w.pstHeapHeader (connectionTimeoutCallback w arg).pstHeapHeader
      ∧ (connectionTimeoutCallback w arg).pstTimeCache = w.pstTimeCache := by
  cases arg with
  | none => exact ⟨.refl, rfl⟩
  | some c => exact destroyConn_fewer c

/-- **The top of a heap** is held. -/
theorem top_mem {h : MinHeap} (htop : minheapGetTopElement h = some p) :
    p ∈ h.held ∧ h.iNodeUsed ≠ 0 := by
  unfold minheapGetTopElement at htop
  split at htop
  · exact absurd htop (by simp)
  split at htop
  · rename_i h0
    exact ⟨⟨0, Nat.pos_of_ne_zero h0, Option.some.inj htop⟩, h0⟩
  · exact absurd htop (by simp)

/-- **The timeout loop on any heap**: it leaves fewer timers, and if the process
goes on, no first timer that is due. Every round pops a node, which is what the
fuel is for. -/
theorem processTimeoutLoop_any {fuel : ℕ} (hfuel : w.pstHeapHeader.iNodeUsed ≤ fuel) :
    Fewer w.pstHeapHeader (processTimeoutLoop fuel w).pstHeapHeader
      ∧ (processTimeoutLoop fuel w).pstTimeCache = w.pstTimeCache
      ∧ ((processTimeoutLoop fuel w).fate = .running → ∀ p,
        minheapGetTopElement (processTimeoutLoop fuel w).pstHeapHeader = some p →
        w.pstTimeCache < (processTimeoutLoop fuel w).pstHeapHeader.timeout p) := by
  induction fuel generalizing w with
  | zero =>
    refine ⟨.refl, rfl, fun _ p htop => ?_⟩
    exact absurd (Nat.le_zero.mp hfuel) (top_mem htop).2
  | succ fuel ih =>
    generalize hg : processTimeoutLoop (fuel + 1) w = g
    unfold processTimeoutLoop at hg
    cases htop : minheapGetTopElement w.pstHeapHeader with
    | none =>
      rw [htop] at hg
      subst hg
      refine ⟨.refl, rfl, fun _ p hp => ?_⟩
      rw [htop] at hp
      exact absurd hp (by simp)
    | some top =>
      rw [htop] at hg
      dsimp only at hg
      by_cases hlate : w.pstTimeCache < w.pstHeapHeader.timeout top
      · rw [if_pos (minheapTimercmp_gt.mpr hlate)] at hg
        subst hg
        refine ⟨.refl, rfl, fun _ p hp => ?_⟩
        rw [htop] at hp
        exact Option.some.inj hp ▸ hlate
      rw [if_neg (fun hgt => hlate (minheapTimercmp_gt.mp hgt))] at hg
      have h0 := (top_mem htop).2
      have hpop := minheapPop_fewer w.pstHeapHeader
      have hused := used_minheapPop h0
      -- the rounds that follow, after the callback has left fewer timers still
      have hnext : ∀ w' : Worker, Fewer (minheapPop w.pstHeapHeader).2 w'.pstHeapHeader →
          w'.pstTimeCache = w.pstTimeCache → processTimeoutLoop fuel w' = g →
          Fewer w.pstHeapHeader g.pstHeapHeader ∧ g.pstTimeCache = w.pstTimeCache
            ∧ (g.fate = .running → ∀ p, minheapGetTopElement g.pstHeapHeader = some p →
              w.pstTimeCache < g.pstHeapHeader.timeout p) := by
        intro w' hfewer htime hloop
        have hle := hfewer.used
        obtain ⟨hfewer', htime', hend⟩ := ih (w := w') (by omega)
        rw [hloop] at hfewer' htime' hend
        rw [htime] at hend
        exact ⟨(hpop.trans hfewer).trans hfewer', htime'.trans htime, hend⟩
      split at hg
      · exact hnext { w with pstHeapHeader := (minheapPop w.pstHeapHeader).2 } .refl rfl hg
      · set w₁ : Worker := { w with
          pstHeapHeader := (minheapPop w.pstHeapHeader).2
          timeouts := w.timeouts ++ [Worker.timerOwner { w with
            pstHeapHeader := (minheapPop w.pstHeapHeader).2 } top
            ((minheapPop w.pstHeapHeader).2.event top).pstCallbackArg] } with hw₁
        set arg := ((minheapPop w.pstHeapHeader).2.event top).pstCallbackArg with harg
        obtain ⟨hfewer, htime⟩ := connectionTimeoutCallback_fewer (w := w₁) arg
        change (if (connectionTimeoutCallback w₁ arg).fate = .running then
          processTimeoutLoop fuel (connectionTimeoutCallback w₁ arg)
          else connectionTimeoutCallback w₁ arg) = g at hg
        by_cases hrun : (connectionTimeoutCallback w₁ arg).fate = .running
        · rw [if_pos hrun] at hg
          exact hnext _ hfewer htime hg
        · rw [if_neg hrun] at hg
          subst hg
          exact ⟨hpop.trans hfewer, htime, fun hrun' => absurd hrun' hrun⟩

theorem Near.expire (h : w.Near) : (reactorProcessTimeoutEvent w).Near := by
  obtain ⟨hfewer, htime, -⟩ := processTimeoutLoop_any (w := w) le_rfl
  exact h.fewer hfewer htime

/-! ## Runs of the loop -/

/-- **The wait fits.** What the loop assigns is `-1` or an `int` that is not
negative. -/
theorem Near.fits (h : w.Near) (hsec : w.pstTimeCache.tv_sec ≠ 0) (now save : TimeVal) :
    epollwaitMillis w now save = -1
      ∨ 0 ≤ epollwaitMillis w now save ∧ epollwaitMillis w now save < 2 ^ 31 := by
  rw [epollwaitMillis_eq hsec]
  cases htop : minheapGetTopElement w.pstHeapHeader with
  | none => exact Or.inl rfl
  | some p =>
    obtain ⟨hnorm, hreach⟩ := h.reach p (top_mem htop).1
    obtain ⟨⟨hm0, -⟩, hleast⟩ := wait_isLeast h.clock hnorm
    have hle := hleast (a := 2 ^ 31 - 1) ⟨by decide, hreach⟩
    exact Or.inr ⟨hm0, by dsimp only; omega⟩

/-- Where it fits, nothing is lost in the assignment. -/
theorem Near.iEpollwaitTimeout_eq (h : w.Near) (hsec : w.pstTimeCache.tv_sec ≠ 0) :
    iEpollwaitTimeout w now save = epollwaitMillis w now save := by
  unfold iEpollwaitTimeout
  obtain hnone | ⟨h0, hlt⟩ := h.fits hsec now save
  · rw [hnone]
    decide
  · exact int32_eq_self (by omega) hlt

/-- **No busy loop**: once `ReactorProcessTimeoutEvent` is through, the wait is not
zero. -/
theorem Near.wait_ne_zero (h : w.Near) (hsec : w.pstTimeCache.tv_sec ≠ 0)
    (hrun : (reactorProcessTimeoutEvent w).fate = .running) :
    iEpollwaitTimeout (reactorProcessTimeoutEvent w) now save ≠ 0 := by
  obtain ⟨-, htime, hend⟩ := processTimeoutLoop_any (w := w) le_rfl
  have hsec' : (reactorProcessTimeoutEvent w).pstTimeCache.tv_sec ≠ 0 := by
    rw [show (reactorProcessTimeoutEvent w).pstTimeCache = w.pstTimeCache from htime]
    exact hsec
  rw [h.expire.iEpollwaitTimeout_eq hsec', epollwaitMillis_eq hsec']
  cases htop : minheapGetTopElement (reactorProcessTimeoutEvent w).pstHeapHeader with
  | none =>
    show (-1 : ℤ) ≠ 0
    decide
  | some p =>
    have hlate := hend hrun p htop
    obtain ⟨hnorm, -⟩ := h.expire.reach p (top_mem htop).1
    obtain ⟨⟨hm0, hm⟩, -⟩ := wait_isLeast h.expire.clock hnorm
    intro hzero
    dsimp only at hzero
    rw [hzero, mul_zero, add_zero] at hm
    have hle := (TimeVal.le_iff_micros hnorm h.expire.clock).mpr hm
    rw [show (reactorProcessTimeoutEvent w).pstTimeCache = w.pstTimeCache from htime] at hle
    exact absurd hle (not_le.mpr hlate)

end Worker

/-- What happens to a worker, in any order: `RegisterTimerOutEvent` for any node,
the callbacks of an event, `ReactorProcessTimeoutEvent`, and a new reading of the
clock. -/
inductive LoopOp where
  | register (p : NodePtr) (t_uSec : ℤ) (realloc : Bool)
  | event (ev : EpollEvent) (input : EventInput)
  | expire
  | clock (t : TimeVal)

namespace LoopOp

/-- **One operation.** A process that has ended does nothing more. -/
def step (w : Worker) (op : LoopOp) : Option Worker :=
  if w.fate = .running then
    some (match op with
      | register p t_uSec realloc => registerTimerOutEvent w p t_uSec realloc
      | event ev input => dispatchEvent w ev input
      | expire => reactorProcessTimeoutEvent w
      | clock t => { w with pstTimeCache := t })
  else none

/-- **What can happen**: a timer is set for an `int` that is not negative, and the
clock does not go back. -/
def Admissible (w : Worker) : LoopOp → Prop
  | register _ t_uSec _ => 0 ≤ t_uSec ∧ t_uSec < 2 ^ 31
  | clock t => t.Normalised ∧ w.pstTimeCache ≤ t
  | _ => True

instance (w : Worker) : ∀ op, Decidable (Admissible w op)
  | register _ t_uSec _ => inferInstanceAs (Decidable (0 ≤ t_uSec ∧ t_uSec < 2 ^ 31))
  | clock t => inferInstanceAs (Decidable (t.Normalised ∧ w.pstTimeCache ≤ t))
  | event _ _ => inferInstanceAs (Decidable True)
  | expire => inferInstanceAs (Decidable True)

/-- **Deadlines stay in reach**: a later clock is nearer to them. -/
theorem step_near {w w' : Worker} {op : LoopOp} (h : w.Near) (hadm : op.Admissible w)
    (hstep : step w op = some w') : w'.Near := by
  unfold step at hstep
  split at hstep
  swap
  · exact absurd hstep (by simp)
  obtain rfl := Option.some.inj hstep
  cases op with
  | register p t realloc => exact h.register hadm.1 hadm.2
  | event ev input => exact h.dispatch
  | expire => exact h.expire
  | clock t =>
    obtain ⟨hnorm, hle⟩ := hadm
    have hmicros := (TimeVal.le_iff_micros h.clock hnorm).mp hle
    refine ⟨hnorm, fun p hp => ?_⟩
    obtain ⟨hp, hreach⟩ := h.reach p hp
    exact ⟨hp, by dsimp only; omega⟩

end LoopOp

/-- **The wait handed to `epoll_wait` is tight.** On any well-formed heap, what the
loop assigns is `-1` if the heap is empty, and else the least number of
milliseconds after which the clock has reached the first deadline; the `int` it
is assigned to is that number if it can hold it. In a run it can, and a worker
that has just been through its timeouts does not wait for zero. -/
theorem reactor_wait_tight :
    (∀ (nodes : Set NodePtr) (w : Worker) (now save : TimeVal),
        WellFormed nodes w.pstHeapHeader →
        (∀ p ∈ w.pstHeapHeader.entries, (w.pstHeapHeader.timeout p).Normalised) →
        w.pstTimeCache.Normalised → w.pstTimeCache.tv_sec ≠ 0 →
        (w.pstHeapHeader.entries = 0 ∧ epollwaitMillis w now save = -1
          ∨ ∃ p ∈ w.pstHeapHeader.entries,
            (∀ q ∈ w.pstHeapHeader.entries,
              w.pstHeapHeader.timeout p ≤ w.pstHeapHeader.timeout q)
            ∧ IsLeast {m : ℤ | 0 ≤ m
                ∧ (w.pstHeapHeader.timeout p).micros ≤ w.pstTimeCache.micros + 1000 * m}
              (epollwaitMillis w now save))
          ∧ (epollwaitMillis w now save < 2 ^ 31 →
            iEpollwaitTimeout w now save = epollwaitMillis w now save))
      ∧ ∀ (table : EventTable) (event : NodePtr → TimeoutEvent) (c : TimeVal) (fd pid : ℤ)
          (ops : List LoopOp), c.Normalised →
        Run.Along LoopOp.step LoopOp.Admissible (eventBaseCreate table event c fd pid) ops →
        Run.Always LoopOp.step (fun w => w.pstTimeCache.tv_sec ≠ 0 → ∀ now save,
            epollwaitMillis w now save < 2 ^ 31
            ∧ iEpollwaitTimeout w now save = epollwaitMillis w now save
            ∧ ((reactorProcessTimeoutEvent w).fate = .running →
              iEpollwaitTimeout (reactorProcessTimeoutEvent w) now save ≠ 0))
          (eventBaseCreate table event c fd pid) ops := by
  constructor
  · intro nodes w now save hw hnorm hc hsec
    have htight := epollwaitMillis_tight hw hnorm hc hsec now save
    refine ⟨htight, fun hlt => int32_eq_self ?_ hlt⟩
    obtain ⟨-, hnone⟩ | ⟨p, -, -, hleast⟩ := htight
    · omega
    · have := hleast.1.1
      omega
  · intro table event c fd pid ops hc halong
    have hnear : (eventBaseCreate table event c fd pid).Near :=
      ⟨hc, fun p ⟨i, hi, _⟩ => absurd hi (Nat.not_lt_zero i)⟩
    refine (Run.always_of_along (P := Near) (fun w op w' h hadm => LoopOp.step_near h hadm)
      hnear halong).mono (fun w h hsec now save => ?_)
    have hfits := h.fits hsec now save
    exact ⟨by omega, h.iEpollwaitTimeout_eq hsec, h.wait_ne_zero hsec⟩

/-- A worker at second `1` with a timer that is due in fifty days. -/
def farWorker : Worker :=
  { eventBaseCreate emptyTable blankEvent ⟨1, 0⟩ 3 1 with
    pstHeapHeader := heapOf [(1, 1 + 4294968)] }

theorem farWorker_wellFormed :
    WellFormed farWorker.pstHeapHeader.held farWorker.pstHeapHeader :=
  wellFormed_held (by decide +kernel) (by decide +kernel) (by decide +kernel)

/-- **An `int` does not hold fifty days of milliseconds.** The wait is less than a
second. -/
theorem reactor_wait_truncated :
    WellFormed farWorker.pstHeapHeader.held farWorker.pstHeapHeader
      ∧ (∀ p ∈ farWorker.pstHeapHeader.entries, (farWorker.pstHeapHeader.timeout p).Normalised)
      ∧ farWorker.pstTimeCache.Normalised ∧ farWorker.pstTimeCache.tv_sec ≠ 0
      ∧ farWorker.pstHeapHeader.entries = {1}
      ∧ iEpollwaitTimeout farWorker ⟨0, 0⟩ ⟨0, 0⟩ = 704
      ∧ ¬ IsLeast {m : ℤ | 0 ≤ m ∧ (farWorker.pstHeapHeader.timeout 1).micros
          ≤ farWorker.pstTimeCache.micros + 1000 * m}
        (iEpollwaitTimeout farWorker ⟨0, 0⟩ ⟨0, 0⟩) := by
  have hwait : iEpollwaitTimeout farWorker ⟨0, 0⟩ ⟨0, 0⟩ = 704 := by decide +kernel
  refine ⟨farWorker_wellFormed, by decide +kernel, by decide, by decide, by decide +kernel, hwait,
    fun hleast => ?_⟩
  obtain ⟨⟨-, hreached⟩, -⟩ := hleast
  rw [hwait] at hreached
  exact absurd hreached (by decide +kernel)

/-- The wait of a worker with two timers, and a run in which a timer is set, fires
and is not waited for again. -/
theorem reactor_wait_tight_sample :
    ((steppedWorker.pstHeapHeader.entries = 0 ∧ epollwaitMillis steppedWorker ⟨0, 0⟩ ⟨0, 0⟩ = -1
        ∨ ∃ p ∈ steppedWorker.pstHeapHeader.entries,
          (∀ q ∈ steppedWorker.pstHeapHeader.entries,
            steppedWorker.pstHeapHeader.timeout p ≤ steppedWorker.pstHeapHeader.timeout q)
          ∧ IsLeast {m : ℤ | 0 ≤ m ∧ (steppedWorker.pstHeapHeader.timeout p).micros
              ≤ steppedWorker.pstTimeCache.micros + 1000 * m}
            (epollwaitMillis steppedWorker ⟨0, 0⟩ ⟨0, 0⟩))
      ∧ iEpollwaitTimeout steppedWorker ⟨0, 0⟩ ⟨0, 0⟩
        = epollwaitMillis steppedWorker ⟨0, 0⟩ ⟨0, 0⟩)
      ∧ Run.Always LoopOp.step (fun w => w.pstTimeCache.tv_sec ≠ 0 → ∀ now save,
            epollwaitMillis w now save < 2 ^ 31
            ∧ iEpollwaitTimeout w now save = epollwaitMillis w now save
            ∧ ((reactorProcessTimeoutEvent w).fate = .running →
              iEpollwaitTimeout (reactorProcessTimeoutEvent w) now save ≠ 0))
          (eventBaseCreate emptyTable blankEvent ⟨1, 0⟩ 3 1)
          [.register 1 2147483647 true, .register 2 1500 true, .clock ⟨2, 600⟩, .expire] :=
  have hstate := reactor_wait_tight.1 _ steppedWorker ⟨0, 0⟩ ⟨0, 0⟩ steppedWorker_wellFormed
    (by decide +kernel) (by decide) (by decide)
  ⟨⟨hstate.1, hstate.2 (by decide +kernel)⟩,
    reactor_wait_tight.2 _ _ _ _ _ _ (by decide) (by decide +kernel)⟩
