import TcpFrame.Worker
import TcpFrame.MinHeapSpec
import TcpFrame.EventTableRuns
import TcpFrame.Lib.PartialMap

/-!
# Timers and connections

How the timer heap and the connections of a worker belong together.
`Worker.Timers` says that every live connection has a node of its own, that the
node leads back to it, and that the heap holds such nodes only.
`Worker.Serials` says that no connection has been timed out twice, or while it
was not there. Every function of the reactor keeps both, where its erase sifts
down.
-/

open MinHeap

namespace Worker

/-- **The timers of the live connections.** -/
def nodes (w : Worker) : Set NodePtr :=
  { p | ∃ c conn, w.conns c = some conn ∧ conn.pstTimeoutEvent = p }

/-- **The heap and the connections belong together**: the heap is well formed
over the timers of the live connections, no two of these share one, and the
callback of each is for its own connection. -/
structure Timers (w : Worker) : Prop where
  heap : WellFormed w.nodes w.pstHeapHeader
  callback : ∀ c conn, w.conns c = some conn →
    (w.pstHeapHeader.body conn.pstTimeoutEvent).pFunTimeoutProcCallback
        = some .connectionTimeoutCallback
      ∧ (w.pstHeapHeader.body conn.pstTimeoutEvent).pstCallbackArg = some c
  node_inj : ∀ c c' conn conn', w.conns c = some conn → w.conns c' = some conn' →
    conn.pstTimeoutEvent = conn'.pstTimeoutEvent → c = c'

/-- Every live connection has its timer in the heap. -/
def Armed (w : Worker) : Prop := w.nodes ⊆ w.pstHeapHeader.held

/-- **Connections are told apart by their serial numbers**, and every timeout so
far was for a connection that was alive then and is not any more, each for
another one. -/
structure Serials (w : Worker) : Prop where
  lt : ∀ c conn, w.conns c = some conn → conn.serial < w.nextSerial
  inj : ∀ c c' conn conn', w.conns c = some conn → w.conns c' = some conn' →
    conn.serial = conn'.serial → c = c'
  timeouts : ∃ serials : List ℕ, w.timeouts = serials.map some ∧ serials.Nodup
    ∧ ∀ s ∈ serials, s < w.nextSerial ∧ ∀ c conn, w.conns c = some conn → conn.serial ≠ s

/-- What timers and connections are: all but the event table, the counters and
what has become of the process. -/
structure SameTimers (w w' : Worker) : Prop where
  heap : w'.pstHeapHeader = w.pstHeapHeader
  conns : w'.conns = w.conns
  timeouts : w'.timeouts = w.timeouts
  nextSerial : w'.nextSerial = w.nextSerial
  time : w'.pstTimeCache = w.pstTimeCache

variable {w w' : Worker} {c : ConnPtr} {conn : ConnFd} {p : NodePtr} {a : Accepted} {t : ℤ}

theorem mem_nodes (hc : w.conns c = some conn) : conn.pstTimeoutEvent ∈ w.nodes :=
  ⟨c, conn, hc, rfl⟩

theorem SameTimers.nodes (h : w.SameTimers w') : w'.nodes = w.nodes := by
  unfold Worker.nodes
  rw [h.conns]

theorem Timers.same (h : w.Timers) (hsame : w.SameTimers w') : w'.Timers := by
  refine ⟨?_, ?_, ?_⟩
  · rw [hsame.nodes, hsame.heap]
    exact h.heap
  · rw [hsame.conns, hsame.heap]
    exact h.callback
  · rw [hsame.conns]
    exact h.node_inj

/-! ## Registering a timer -/

/-- What a node is once it is registered. -/
theorem body_rearmed : (w.rearmed p t).body = Function.update w.pstHeapHeader.body p
    { w.pstHeapHeader.body p with
      stInterval := timerInterval t
      stTimeout := minheapTimeradd w.pstTimeCache (timerInterval t) } := by
  funext q
  by_cases hq : q = p
  · rw [hq, Function.update_self]
    unfold rearmed MinHeap.setTimeout MinHeap.setInterval MinHeap.body
    dsimp only
    rw [Function.update_self, Function.update_self]
  · rw [Function.update_of_ne hq]
    unfold rearmed MinHeap.setTimeout MinHeap.setInterval MinHeap.body
    dsimp only
    rw [Function.update_of_ne hq, Function.update_of_ne hq]

/-- **The timer is in the heap** once it is registered, with its new deadline,
and nothing else has changed. -/
theorem registerTimerOutEvent_heap (h : w.Timers) (hp : p ∈ w.nodes)
    (hdown : minheapEraseShiftsUp (w.rearmed p t) p = false) :
    WellFormed w.nodes (registerTimerOutEvent w p t true).pstHeapHeader
      ∧ (registerTimerOutEvent w p t true).pstHeapHeader.held
        = insert p w.pstHeapHeader.held
      ∧ (registerTimerOutEvent w p t true).pstHeapHeader.body = (w.rearmed p t).body := by
  obtain ⟨h', heq, hw', hheld, hbody⟩ := reinsert_spec (h.heap.setInterval (timerInterval t)) hp
    (t := minheapTimeradd w.pstTimeCache (timerInterval t)) hdown
  have hheap : (registerTimerOutEvent w p t true).pstHeapHeader = h' := heq
  rw [hheap]
  exact ⟨hw', hheld, hbody⟩

theorem registerTimerOutEvent_timers (h : w.Timers) (hp : p ∈ w.nodes)
    (hdown : minheapEraseShiftsUp (w.rearmed p t) p = false) :
    (registerTimerOutEvent w p t true).Timers := by
  obtain ⟨hw', -, hbody⟩ := registerTimerOutEvent_heap h hp hdown
  refine ⟨hw', fun c conn hc => ?_, h.node_inj⟩
  rw [hbody, body_rearmed]
  by_cases hq : conn.pstTimeoutEvent = p
  · rw [hq, Function.update_self, ← hq]
    exact h.callback c conn hc
  · rw [Function.update_of_ne hq]
    exact h.callback c conn hc

theorem index_rearmed : (w.rearmed p t).index = w.pstHeapHeader.index := by
  unfold rearmed
  rw [index_setTimeout, index_setInterval]

/-! ## Destroying a connection -/

/-- **What `__DestroyConn` does** to a live connection: the process exits, or the
connection is gone and its timer is erased. -/
theorem destroyConn_spec (hc : w.conns c = some conn) :
    ∃ iClientCount table,
      (eventDel w.table conn.iFd (eventWritable ||| eventReadable) = (Ret.fail, table)
        ∧ destroyConn w c = { w with
          iClientCount := iClientCount, table := table, fate := .exited })
      ∨ ∃ table', eventDel w.table conn.iFd (eventWritable ||| eventReadable) = (Ret.succ, table')
        ∧ table = fdFileEventInit { table' with epoll := table'.epoll.close conn.iFd } conn.iFd
        ∧ destroyConn w c = { w with
          iClientCount := iClientCount
          table := table
          pstHeapHeader := (minheapErase w.pstHeapHeader conn.pstTimeoutEvent).2
          conns := Function.update w.conns c none } := by
  unfold destroyConn
  rw [hc]
  dsimp only
  cases heq : eventDel w.table conn.iFd (eventWritable ||| eventReadable) with
  | mk iRet table =>
    cases iRet with
    | fail => exact ⟨_, table, Or.inl ⟨rfl, rfl⟩⟩
    | succ => exact ⟨_, _, Or.inr ⟨table, rfl, rfl, rfl⟩⟩

/-- The worker without the connection at `c`, whose timer is erased. -/
structure Without (w : Worker) (c : ConnPtr) (conn : ConnFd) (w' : Worker) : Prop where
  heap : w'.pstHeapHeader = (minheapErase w.pstHeapHeader conn.pstTimeoutEvent).2
  conns : w'.conns = Function.update w.conns c none
  timeouts : w'.timeouts = w.timeouts
  nextSerial : w'.nextSerial = w.nextSerial
  time : w'.pstTimeCache = w.pstTimeCache

/-- The other connections are still there, and no new one. -/
theorem Without.conns_eq (h : w.Without c conn w') {d : ConnPtr} {e : ConnFd} :
    w'.conns d = some e ↔ d ≠ c ∧ w.conns d = some e := by
  rw [h.conns]
  exact PartialMap.update_none_eq_some

/-- **Without a connection, the heap and the others still belong together.** -/
theorem Without.timers (hwo : w.Without c conn w') (h : w.Timers) (hc : w.conns c = some conn)
    (hdown : minheapEraseShiftsUp w.pstHeapHeader conn.pstTimeoutEvent = false) :
    w'.Timers ∧ w'.pstHeapHeader.held = w.pstHeapHeader.held \ {conn.pstTimeoutEvent}
      ∧ w'.pstHeapHeader.body = w.pstHeapHeader.body := by
  obtain ⟨hw', hheld, hbody⟩ := minheapErase_held h.heap (mem_nodes hc) hdown
  rw [← hwo.heap] at hw' hheld hbody
  have hnodes : w'.nodes = w.nodes \ {conn.pstTimeoutEvent} := by
    ext q
    constructor
    · rintro ⟨d, e, hd, rfl⟩
      obtain ⟨hne, hd⟩ := hwo.conns_eq.mp hd
      exact ⟨mem_nodes hd, fun heq => hne (h.node_inj d c e conn hd hc heq)⟩
    · rintro ⟨⟨d, e, hd, rfl⟩, hne⟩
      refine ⟨d, e, hwo.conns_eq.mpr ⟨fun hdc => hne ?_, hd⟩, rfl⟩
      rw [hdc, hc] at hd
      rw [Option.some.inj hd]
      rfl
  refine ⟨⟨?_, ?_, ?_⟩, hheld, hbody⟩
  · rw [hnodes]
    refine hw'.restrict ?_ Set.sdiff_subset
    rw [hheld]
    exact Set.sdiff_subset_sdiff_left h.heap.toBacked.held_subset
  · intro d e hd
    rw [hbody]
    exact h.callback d e (hwo.conns_eq.mp hd).2
  · intro d d' e e' hd hd'
    exact h.node_inj d d' e e' (hwo.conns_eq.mp hd).2 (hwo.conns_eq.mp hd').2

theorem Without.serials (hwo : w.Without c conn w') (h : w.Serials) : w'.Serials := by
  obtain ⟨serials, htimeouts, hnodup, hgone⟩ := h.timeouts
  refine ⟨?_, ?_, serials, hwo.timeouts.trans htimeouts, hnodup, ?_⟩
  · intro d e hd
    rw [hwo.nextSerial]
    exact h.lt d e (hwo.conns_eq.mp hd).2
  · intro d d' e e' hd hd'
    exact h.inj d d' e e' (hwo.conns_eq.mp hd).2 (hwo.conns_eq.mp hd').2
  · intro s hs
    rw [hwo.nextSerial]
    exact ⟨(hgone s hs).1, fun d e hd => (hgone s hs).2 d e (hwo.conns_eq.mp hd).2⟩

/-- **The table of a worker** is in step with the kernel, and the descriptors of
the live connections are inside it. -/
structure Tabled (w : Worker) : Prop where
  inStep : w.table.InStep
  range : ∀ c conn, w.conns c = some conn →
    0 ≤ conn.iFd ∧ conn.iFd < w.table.iFdEventArraySize

theorem Tabled.same (h : w.Tabled) (htable : w'.table = w.table) (hconns : w'.conns = w.conns) :
    w'.Tabled := by
  refine ⟨?_, ?_⟩
  · rw [htable]
    exact h.inStep
  · rw [htable, hconns]
    exact h.range

/-- **`__DestroyConn` of a live connection** takes it away or exits, and where
the table is in step, it does not exit. -/
theorem destroyConn_without (hc : w.conns c = some conn) :
    ((destroyConn w c).fate = .exited ∧ ¬ w.Tabled)
      ∨ (destroyConn w c).fate = w.fate ∧ w.Without c conn (destroyConn w c)
        ∧ (w.Tabled → (destroyConn w c).Tabled) := by
  obtain ⟨iClientCount, table, ⟨hdel, hdestroy⟩ | ⟨table', hdel, htable, hdestroy⟩⟩ :=
    destroyConn_spec hc
  · refine Or.inl ⟨by rw [hdestroy], fun h => ?_⟩
    obtain ⟨hpos, hlt⟩ := h.range c conn hc
    obtain ⟨t', hdel', -⟩ := h.inStep.teardown hpos hlt
    rw [hdel] at hdel'
    exact absurd (congrArg Prod.fst hdel') (by simp)
  · refine Or.inr ⟨by rw [hdestroy], ?_, fun h => ?_⟩
    · rw [hdestroy]
      exact ⟨rfl, rfl, rfl, rfl, rfl⟩
    · obtain ⟨hpos, hlt⟩ := h.range c conn hc
      obtain ⟨t', hdel', hin, hsize⟩ := h.inStep.teardown hpos hlt
      rw [hdel] at hdel'
      obtain rfl : table' = t' := congrArg Prod.snd hdel'
      have hwo : w.Without c conn (destroyConn w c) := by
        rw [hdestroy]
        exact ⟨rfl, rfl, rfl, rfl, rfl⟩
      refine ⟨?_, fun d e hd => ?_⟩
      · rw [hdestroy, htable]
        exact hin
      · rw [hdestroy, htable]
        show 0 ≤ e.iFd ∧ e.iFd < table'.iFdEventArraySize
        rw [hsize]
        exact h.range d e (hwo.conns_eq.mp hd).2

/-- **`epoll_ctl` succeeds**, and the descriptors of the live connections are
within the table. -/
structure Granted (w : Worker) : Prop where
  answer : ∀ n, w.table.epoll.answer n = .granted
  range : ∀ c conn, w.conns c = some conn → conn.iFd ≤ w.table.iFdEventArraySize

/-- Where `epoll_ctl` succeeds, `__DestroyConn` does not exit. -/
theorem destroyConn_granted (h : w.Granted) (hc : w.conns c = some conn) :
    (destroyConn w c).fate = w.fate ∧ (destroyConn w c).Granted := by
  obtain ⟨t', hdel', hsame, -⟩ := eventDel_granted (m := eventWritable ||| eventReadable)
    h.answer (h.range c conn hc)
  obtain ⟨iClientCount, table, ⟨hdel, -⟩ | ⟨table', hdel, htable, hdestroy⟩⟩ := destroyConn_spec hc
  · exact absurd (congrArg Prod.fst (hdel.symm.trans hdel')) (by simp)
  · obtain rfl : table' = t' := congrArg Prod.snd (hdel.symm.trans hdel')
    have hwo : w.Without c conn (destroyConn w c) := by
      rw [hdestroy]
      exact ⟨rfl, rfl, rfl, rfl, rfl⟩
    refine ⟨by rw [hdestroy], fun n => ?_, fun d e hd => ?_⟩
    · rw [hdestroy, htable]
      exact (congrFun hsame.answer n).trans (h.answer n)
    · rw [hdestroy, htable]
      show e.iFd ≤ table'.iFdEventArraySize
      rw [hsame.size]
      exact h.range d e (hwo.conns_eq.mp hd).2

/-! ## Accepting a connection -/

/-- **The memory of a new connection is new**: there is no connection there, and
no live one has the node. -/
structure Fresh (w : Worker) (a : Accepted) : Prop where
  conn : w.conns a.pstNewConnFd = none
  node : a.pstTimeoutEvent ∉ w.nodes

/-- The connection an accept makes. -/
def accepted (w : Worker) (a : Accepted) : ConnFd :=
  .create a.iClientFd a.pstTimeoutEvent a.pszRecvBuf a.pszSendBuf w.nextSerial

/-- **A connection was accepted**, and its timer is in the heap. -/
structure Joined (w : Worker) (a : Accepted) (w' : Worker) : Prop where
  timers : w'.Timers
  held : w'.pstHeapHeader.held = insert a.pstTimeoutEvent w.pstHeapHeader.held
  body : ∀ q ≠ a.pstTimeoutEvent, w'.pstHeapHeader.body q = w.pstHeapHeader.body q
  conns : w'.conns = Function.update w.conns a.pstNewConnFd (some (w.accepted a))
  timeouts : w'.timeouts = w.timeouts
  nextSerial : w'.nextSerial = w.nextSerial + 1
  time : w'.pstTimeCache = w.pstTimeCache

/-- The worker of `ProcessAcceptCallback` when it registers the timer. -/
def joining (w : Worker) (a : Accepted) : Worker :=
  { createNewConn w a with
    pstHeapHeader := minheapTimeoutEventInit (createNewConn w a).pstHeapHeader a.pstTimeoutEvent
      (some .connectionTimeoutCallback) (some a.pstNewConnFd) w.iPid a.iClientFd }

theorem conns_joining {d : ConnPtr} {e : ConnFd} : (w.joining a).conns d = some e
    ↔ d = a.pstNewConnFd ∧ e = w.accepted a ∨ d ≠ a.pstNewConnFd ∧ w.conns d = some e := by
  show Function.update w.conns a.pstNewConnFd (some (w.accepted a)) d = some e ↔ _
  exact PartialMap.update_some_eq_some

theorem event_joining {q : NodePtr} (hq : q ≠ a.pstTimeoutEvent) :
    (w.joining a).pstHeapHeader.event q = w.pstHeapHeader.event q := by
  show Function.update (Function.update w.pstHeapHeader.event _ _) _ _ q = _
  rw [Function.update_of_ne hq, Function.update_of_ne hq]

/-- The fields `MinheapTimeoutEventInit` sets. -/
theorem event_joining_self : ((w.joining a).pstHeapHeader.event a.pstTimeoutEvent).iHeapIndex = -1
    ∧ ((w.joining a).pstHeapHeader.event a.pstTimeoutEvent).pFunTimeoutProcCallback
      = some .connectionTimeoutCallback
    ∧ ((w.joining a).pstHeapHeader.event a.pstTimeoutEvent).pstCallbackArg
      = some a.pstNewConnFd := by
  have hself : (w.joining a).pstHeapHeader.event a.pstTimeoutEvent = _ := Function.update_self ..
  rw [hself]
  exact ⟨rfl, rfl, rfl⟩

theorem joining_timers (h : w.Timers) (hfresh : w.Fresh a) : (w.joining a).Timers := by
  have hnodes : (w.joining a).nodes = insert a.pstTimeoutEvent w.nodes := by
    ext q
    constructor
    · rintro ⟨d, e, hd, rfl⟩
      obtain ⟨-, rfl⟩ | ⟨-, hd⟩ := conns_joining.mp hd
      · exact Or.inl rfl
      · exact Or.inr (mem_nodes hd)
    · rintro (rfl | ⟨d, e, hd, rfl⟩)
      · exact mem_nodes (conns_joining.mpr (Or.inl ⟨rfl, rfl⟩))
      · refine mem_nodes (conns_joining.mpr (Or.inr ⟨fun hdc => ?_, hd⟩))
        rw [hdc, hfresh.conn] at hd
        exact absurd hd (by simp)
  have hne : ∀ q ∈ w.nodes, q ≠ a.pstTimeoutEvent := fun q hq heq => hfresh.node (heq ▸ hq)
  refine ⟨?_, fun d e hd => ?_, fun d d' e e' hd hd' heq => ?_⟩
  · rw [hnodes]
    refine h.heap.of_event (fun q hq => event_joining (hne q (h.heap.toBacked.held_subset hq)))
      (h.heap.toBacked.held_subset.trans (Set.subset_insert _ _)) (fun q hq hheld => ?_)
    rcases hq with rfl | hq
    · exact event_joining_self.1
    · show ((w.joining a).pstHeapHeader.event q).iHeapIndex = -1
      rw [event_joining (hne q hq)]
      exact (h.heap.toBacked.index_eq_neg_one_iff hq).mpr hheld
  · obtain ⟨rfl, rfl⟩ | ⟨-, hd⟩ := conns_joining.mp hd
    · exact event_joining_self.2
    · show (TimeoutEvent.pFunTimeoutProcCallback ((w.joining a).pstHeapHeader.event _)) = _ ∧
        (TimeoutEvent.pstCallbackArg ((w.joining a).pstHeapHeader.event _)) = _
      rw [event_joining (hne _ (mem_nodes hd))]
      exact h.callback d e hd
  · obtain ⟨rfl, rfl⟩ | ⟨-, hd⟩ := conns_joining.mp hd
    · obtain ⟨rfl, rfl⟩ | ⟨-, hd'⟩ := conns_joining.mp hd'
      · rfl
      · exact absurd heq.symm (hne _ (mem_nodes hd'))
    · obtain ⟨rfl, rfl⟩ | ⟨-, hd'⟩ := conns_joining.mp hd'
      · exact absurd heq (hne _ (mem_nodes hd))
      · exact h.node_inj d d' e e' hd hd' heq

/-- **The timer of a new connection is registered.** -/
theorem joined_of_joining (h : w.Timers) (hfresh : w.Fresh a) :
    w.Joined a (registerTimerOutEvent (w.joining a) a.pstTimeoutEvent maxConnTimeout true) := by
  have h' := joining_timers h hfresh
  have hp : a.pstTimeoutEvent ∈ (w.joining a).nodes :=
    mem_nodes (conns_joining.mpr (Or.inl ⟨rfl, rfl⟩))
  have hdown : minheapEraseShiftsUp ((w.joining a).rearmed a.pstTimeoutEvent maxConnTimeout)
      a.pstTimeoutEvent = false := by
    refine not_shiftsUp_of_index ?_
    rw [index_rearmed]
    exact event_joining_self.1
  obtain ⟨-, hheld, hbody⟩ := registerTimerOutEvent_heap h' hp hdown
  refine ⟨registerTimerOutEvent_timers h' hp hdown, hheld, fun q hq => ?_, rfl, rfl, rfl, rfl⟩
  rw [hbody, body_rearmed, Function.update_of_ne hq]
  show { (w.joining a).pstHeapHeader.event q with iHeapIndex := -1 } = _
  rw [event_joining hq]
  rfl

/-- **What `ProcessAcceptCallback` does** with a connection that `accept`
returns: nothing, or the connection is there, or the process exits. -/
theorem processAcceptCallback_spec {t_iFd : ℤ} (h : w.Timers) (hfresh : w.Fresh a)
    (hrealloc : a.realloc = true) :
    (processAcceptCallback w t_iFd (.conn a)).fate = .exited
      ∨ processAcceptCallback w t_iFd (.conn a) = w
      ∨ w.Joined a (processAcceptCallback w t_iFd (.conn a))
        ∧ (processAcceptCallback w t_iFd (.conn a)).fate = w.fate
        ∧ (w.Tabled → 0 ≤ a.iClientFd → a.iClientFd < w.table.iFdEventArraySize →
          (processAcceptCallback w t_iFd (.conn a)).Tabled) := by
  generalize hg : processAcceptCallback w t_iFd (.conn a) = g
  unfold processAcceptCallback at hg
  split at hg
  · exact Or.inr (Or.inl hg.symm)
  split at hg
  · exact Or.inr (Or.inl hg.symm)
  split at hg
  swap
  · exact Or.inl (by rw [← hg]; rfl)
  dsimp only at hg
  split at hg
  · exact Or.inl (by rw [← hg]; rfl)
  rw [hrealloc] at hg
  set w₁ : Worker := { w with
    table := { w.table with epoll := w.table.epoll.accept a.iClientFd }
    iClientCount := w.iClientCount + 1 } with hw₁
  have hsame : w.SameTimers w₁ := ⟨rfl, rfl, rfl, rfl, rfl⟩
  set w₂ := registerTimerOutEvent (w₁.joining a) a.pstTimeoutEvent maxConnTimeout true with hw₂
  have hjoined : w₁.Joined a w₂ := joined_of_joining (h.same hsame) ⟨hfresh.conn, hfresh.node⟩
  split at hg
  · exact Or.inl (by rw [← hg]; rfl)
  · next table hadd =>
    have hsame₂ : w₂.SameTimers g := by
      rw [← hg]
      exact ⟨rfl, rfl, rfl, rfl, rfl⟩
    refine Or.inr (Or.inr ⟨?_, by rw [← hg]; rfl, fun htabled hpos hlt => ?_⟩)
    · exact
        { timers := hjoined.timers.same hsame₂
          held := by rw [hsame₂.heap]; exact hjoined.held
          body := by rw [hsame₂.heap]; exact hjoined.body
          conns := hsame₂.conns.trans hjoined.conns
          timeouts := hsame₂.timeouts.trans hjoined.timeouts
          nextSerial := hsame₂.nextSerial.trans hjoined.nextSerial
          time := hsame₂.time.trans hjoined.time }
    · obtain ⟨t', hadd', hin, hsize⟩ := htabled.inStep.accept (le_of_lt hlt)
        a.pstNewConnFd
      have htable : table = t' := congrArg Prod.snd (hadd.symm.trans hadd')
      refine ⟨?_, fun d e hd => ?_⟩
      · rw [← hg, htable]
        exact hin
      · rw [← hg, htable]
        show 0 ≤ e.iFd ∧ e.iFd < t'.iFdEventArraySize
        rw [hsize]
        rw [← hg] at hd
        obtain ⟨-, rfl⟩ | ⟨-, hd⟩ := (conns_joining (w := w₁)).mp hd
        · exact ⟨hpos, hlt⟩
        · exact htabled.range d e hd

theorem Joined.conns_eq (h : w.Joined a w') {d : ConnPtr} {e : ConnFd} :
    w'.conns d = some e
      ↔ d = a.pstNewConnFd ∧ e = w.accepted a ∨ d ≠ a.pstNewConnFd ∧ w.conns d = some e := by
  rw [h.conns]
  exact conns_joining

/-- A new connection has its timer in the heap. -/
theorem Joined.armed (h : w.Joined a w') (ha : w.Armed) : w'.Armed := by
  rintro p ⟨d, e, hd, rfl⟩
  rw [h.held]
  obtain ⟨-, rfl⟩ | ⟨-, hd⟩ := h.conns_eq.mp hd
  · exact Or.inl rfl
  · exact Or.inr (ha (mem_nodes hd))

/-- A new connection has a new serial number. -/
theorem Joined.serials (h : w.Joined a w') (hs : w.Serials) : w'.Serials := by
  obtain ⟨serials, htimeouts, hnodup, hgone⟩ := hs.timeouts
  have hnew : ∀ d e, w.conns d = some e → e.serial ≠ (w.accepted a).serial :=
    fun d e hd => (hs.lt d e hd).ne
  refine ⟨fun d e hd => ?_, fun d d' e e' hd hd' heq => ?_, serials, h.timeouts.trans htimeouts,
    hnodup, fun s hs' => ?_⟩
  · rw [h.nextSerial]
    obtain ⟨-, rfl⟩ | ⟨-, hd⟩ := h.conns_eq.mp hd
    · exact Nat.lt_succ_self _
    · exact Nat.lt_succ_of_lt (hs.lt d e hd)
  · obtain ⟨rfl, rfl⟩ | ⟨-, hd⟩ := h.conns_eq.mp hd
    · obtain ⟨rfl, rfl⟩ | ⟨-, hd'⟩ := h.conns_eq.mp hd'
      · rfl
      · exact absurd heq.symm (hnew d' e' hd')
    · obtain ⟨rfl, rfl⟩ | ⟨-, hd'⟩ := h.conns_eq.mp hd'
      · exact absurd heq (hnew d e hd)
      · exact hs.inj d d' e e' hd hd' heq
  · obtain ⟨hlt, hdead⟩ := hgone s hs'
    rw [h.nextSerial]
    refine ⟨Nat.lt_succ_of_lt hlt, fun d e hd => ?_⟩
    obtain ⟨-, rfl⟩ | ⟨-, hd⟩ := h.conns_eq.mp hd
    · exact hlt.ne'
    · exact hdead d e hd

/-! ## Timeouts -/

/-- **The connection at `c` has been timed out**: its timer was a first one in
the heap and due. -/
structure Fired (w : Worker) (c : ConnPtr) (conn : ConnFd) (w' : Worker) : Prop where
  live : w.conns c = some conn
  mem : conn.pstTimeoutEvent ∈ w.pstHeapHeader.held
  due : w.pstHeapHeader.timeout conn.pstTimeoutEvent ≤ w.pstTimeCache
  held : w'.pstHeapHeader.held = w.pstHeapHeader.held \ {conn.pstTimeoutEvent}
  body : w'.pstHeapHeader.body = w.pstHeapHeader.body
  used : w'.pstHeapHeader.iNodeUsed + 1 = w.pstHeapHeader.iNodeUsed
  conns : w'.conns = Function.update w.conns c none
  timeouts : w'.timeouts = w.timeouts ++ [some conn.serial]
  nextSerial : w'.nextSerial = w.nextSerial
  time : w'.pstTimeCache = w.pstTimeCache
  fate : w'.fate = w.fate

/-- **Every timer in the heap leads to a connection of its own**, which is
alive, and calls `ConnectionTimeoutCallback` for it. -/
structure Owned (w : Worker) : Prop where
  heap : WellFormed w.pstHeapHeader.held w.pstHeapHeader
  owner : ∀ p ∈ w.pstHeapHeader.held,
    (w.pstHeapHeader.body p).pFunTimeoutProcCallback = some .connectionTimeoutCallback
      ∧ ∃ c conn, (w.pstHeapHeader.body p).pstCallbackArg = some c ∧ w.conns c = some conn
        ∧ conn.pstTimeoutEvent = p

theorem Timers.owned (h : w.Timers) : w.Owned := by
  refine ⟨h.heap.restrict (fun _ hp => hp) h.heap.toBacked.held_subset, fun p hp => ?_⟩
  obtain ⟨c, conn, hc, rfl⟩ := h.heap.toBacked.held_subset hp
  obtain ⟨hproc, harg⟩ := h.callback c conn hc
  exact ⟨hproc, c, conn, harg, hc, rfl⟩

/-- What is left once the first of the timers has fired are timers of the other
connections. -/
theorem Fired.owned (hf : w.Fired c conn w') (h : w.Owned)
    (hw' : WellFormed w.pstHeapHeader.held w'.pstHeapHeader) : w'.Owned := by
  have hsub : w'.pstHeapHeader.held ⊆ w.pstHeapHeader.held := by
    rw [hf.held]
    exact Set.sdiff_subset
  refine ⟨hw'.restrict (fun _ hp => hp) hsub, fun p hp => ?_⟩
  obtain ⟨hproc, d, e, harg, hd, hnode⟩ := h.owner p (hsub hp)
  rw [hf.body]
  refine ⟨hproc, d, e, harg, ?_, hnode⟩
  rw [hf.held] at hp
  rw [hf.conns, Function.update_of_ne]
  · exact hd
  · rintro rfl
    obtain rfl := Option.some.inj (hf.live.symm.trans hd)
    exact hp.2 hnode.symm

/-- The worker when the callback of the timer of `conn` is called: the timer is
popped. -/
def popped (w : Worker) (conn : ConnFd) : Worker :=
  { w with
    pstHeapHeader := (minheapPop w.pstHeapHeader).2
    timeouts := w.timeouts ++ [some conn.serial] }

/-- Where no timer is due, the timeout loop is over. -/
theorem processTimeoutLoop_over (h : w.Owned)
    (hnone : ∀ p ∈ w.pstHeapHeader.held, w.pstTimeCache < w.pstHeapHeader.timeout p) (fuel : ℕ) :
    processTimeoutLoop fuel w = w := by
  cases fuel with
  | zero => rfl
  | succ fuel =>
    unfold processTimeoutLoop
    rw [minheapGetTopElement_spec h.heap.toBacked]
    by_cases h0 : w.pstHeapHeader.iNodeUsed = 0
    · rw [if_neg (not_not.mpr h0)]
    · rw [if_pos h0]
      exact if_pos (minheapTimercmp_gt.mpr (hnone _ ⟨0, Nat.pos_of_ne_zero h0, rfl⟩))

/-- **A round of the timeout loop whose first timer is due** pops that timer and
destroys the connection it leads to. -/
theorem processTimeoutLoop_due (h : w.Owned) (h0 : w.pstHeapHeader.iNodeUsed ≠ 0)
    (hdue : ¬ w.pstTimeCache < w.pstHeapHeader.timeout (w.pstHeapHeader.slot 0)) :
    ∃ c conn, w.conns c = some conn ∧ conn.pstTimeoutEvent = w.pstHeapHeader.slot 0
      ∧ (w.pstHeapHeader.body conn.pstTimeoutEvent).pstCallbackArg = some c
      ∧ ∀ fuel, processTimeoutLoop (fuel + 1) w
        = if (destroyConn (w.popped conn) c).fate = .running then
            processTimeoutLoop fuel (destroyConn (w.popped conn) c)
          else destroyConn (w.popped conn) c := by
  obtain ⟨hproc, c, conn, harg, hc, hnode⟩ := h.owner _ ⟨0, Nat.pos_of_ne_zero h0, rfl⟩
  obtain ⟨h', hpop, -, -, hbody, -⟩ := minheapPop_spec h.heap h0
  rw [← hnode] at hproc harg
  refine ⟨c, conn, hc, hnode, harg, fun fuel => ?_⟩
  generalize hg : processTimeoutLoop (fuel + 1) w = g
  unfold processTimeoutLoop at hg
  rw [minheapGetTopElement_spec h.heap.toBacked, if_pos h0] at hg
  dsimp only at hg
  rw [if_neg (fun hgt => hdue (minheapTimercmp_gt.mp hgt)), ← hnode] at hg
  rw [← hbody] at hproc harg
  rw [hpop] at hg
  rw [show (h'.event conn.pstTimeoutEvent).pFunTimeoutProcCallback
      = some .connectionTimeoutCallback from hproc,
    show (h'.event conn.pstTimeoutEvent).pstCallbackArg = some c from harg] at hg
  dsimp only at hg
  have howner : Worker.timerOwner { w with pstHeapHeader := h' } conn.pstTimeoutEvent (some c)
      = some conn.serial := by
    show ((w.conns c).filter _).map ConnFd.serial = _
    rw [hc, Option.filter_some, if_pos (decide_eq_true rfl)]
    rfl
  rw [howner] at hg
  have hpopped : w.popped conn
      = { w with pstHeapHeader := h', timeouts := w.timeouts ++ [some conn.serial] } := by
    unfold popped
    rw [hpop]
  rw [hpopped, ← hg]
  rfl

/-- Destroying the connection whose timer was popped leaves the heap as the pop
has left it. -/
theorem destroyConn_popped (h : w.Owned) (h0 : w.pstHeapHeader.iNodeUsed ≠ 0)
    (hdue : ¬ w.pstTimeCache < w.pstHeapHeader.timeout (w.pstHeapHeader.slot 0))
    (hc : w.conns c = some conn) (hnode : conn.pstTimeoutEvent = w.pstHeapHeader.slot 0)
    (hwo : (w.popped conn).Without c conn w') (hfate : w'.fate = w.fate) :
    w.Fired c conn w' ∧ w'.Owned ∧ (w.Timers → w'.Timers) := by
  have hused : (minheapPop w.pstHeapHeader).2.iNodeUsed = w.pstHeapHeader.iNodeUsed - 1 :=
    used_minheapPop h0
  have hheld : conn.pstTimeoutEvent ∈ w.pstHeapHeader.held :=
    hnode ▸ ⟨0, Nat.pos_of_ne_zero h0, rfl⟩
  obtain ⟨h', hpop, hw', hheld', hbody, -⟩ := minheapPop_spec h.heap h0
  rw [← hnode] at hheld' hdue
  rw [hpop] at hused
  have hidx : h'.index conn.pstTimeoutEvent = -1 := by
    refine (hw'.toBacked.index_eq_neg_one_iff hheld).mpr ?_
    rw [hheld']
    exact fun hmem => hmem.2 rfl
  have hpopped : (w.popped conn).pstHeapHeader = h' := congrArg Prod.snd hpop
  have hheap : w'.pstHeapHeader = h' := by
    rw [hwo.heap, hpopped, minheapErase_absent hidx]
  have hfired : w.Fired c conn w' :=
    { live := hc
      mem := hheld
      due := not_lt.mp hdue
      held := by rw [hheap]; exact hheld'
      body := by rw [hheap]; exact hbody
      used := by
        rw [hheap]
        have hused' : h'.iNodeUsed = w.pstHeapHeader.iNodeUsed - 1 := hused
        omega
      conns := hwo.conns
      timeouts := hwo.timeouts
      nextSerial := hwo.nextSerial
      time := hwo.time
      fate := hfate }
  refine ⟨hfired, hfired.owned h (by rw [hheap]; exact hw'), fun ht => ?_⟩
  -- the heap without the popped node is well formed over the timers of all connections
  obtain ⟨h'', hpop', hw'', -⟩ := minheapPop_spec ht.heap h0
  rw [hpop] at hpop'
  obtain rfl : h' = h'' := congrArg Prod.snd hpop'
  have htimers : (w.popped conn).Timers := by
    refine ⟨?_, fun d e hd => ?_, ht.node_inj⟩
    · rw [hpopped]
      exact hw''
    · rw [hpopped, hbody]
      exact ht.callback d e hd
  exact (hwo.timers htimers hc (not_shiftsUp_of_index (by rw [hpopped]; exact hidx))).1

/-- **One round of the timeout loop**: it is over, or it times out the connection
of a first timer and goes on, or the process exits, and neither where the table
is in step nor where `epoll_ctl` succeeds. -/
theorem processTimeoutLoop_succ (h : w.Owned) (hrun : w.fate = .running) :
    ((∀ fuel, processTimeoutLoop fuel w = w)
        ∧ ∀ p ∈ w.pstHeapHeader.held, w.pstTimeCache < w.pstHeapHeader.timeout p)
      ∨ ((∀ fuel, (processTimeoutLoop (fuel + 1) w).fate = .exited)
        ∧ ¬ w.Tabled ∧ ¬ w.Granted)
      ∨ ∃ c conn w', w.Fired c conn w' ∧ w'.Owned
        ∧ (w.pstHeapHeader.body conn.pstTimeoutEvent).pstCallbackArg = some c
        ∧ (∀ p ∈ w.pstHeapHeader.held,
          w.pstHeapHeader.timeout conn.pstTimeoutEvent ≤ w.pstHeapHeader.timeout p)
        ∧ (w.Timers → w'.Timers) ∧ (w.Tabled → w'.Tabled) ∧ (w.Granted → w'.Granted)
        ∧ ∀ fuel, processTimeoutLoop (fuel + 1) w = processTimeoutLoop fuel w' := by
  by_cases h0 : w.pstHeapHeader.iNodeUsed = 0
  · have hnone : ∀ p ∈ w.pstHeapHeader.held, w.pstTimeCache < w.pstHeapHeader.timeout p :=
      fun p ⟨i, hi, _⟩ => absurd hi (by omega)
    exact Or.inl ⟨processTimeoutLoop_over h hnone, hnone⟩
  obtain ⟨-, -, -, -, -, hleast⟩ := minheapPop_spec h.heap h0
  by_cases hlate : w.pstTimeCache < w.pstHeapHeader.timeout (w.pstHeapHeader.slot 0)
  · have hnone : ∀ p ∈ w.pstHeapHeader.held, w.pstTimeCache < w.pstHeapHeader.timeout p :=
      fun p hp => hlate.trans_le (hleast p hp)
    exact Or.inl ⟨processTimeoutLoop_over h hnone, hnone⟩
  obtain ⟨c, conn, hc, hnode, harg, hloop⟩ := processTimeoutLoop_due h h0 hlate
  have hgr : w.Granted → (w.popped conn).Granted := fun hgr => ⟨hgr.answer, hgr.range⟩
  obtain ⟨hexit, hnot⟩ | ⟨hfate, hwo, htabled⟩ := destroyConn_without (w := w.popped conn) hc
  · refine Or.inr (Or.inl ⟨fun fuel => ?_, fun ht => hnot (ht.same rfl rfl), fun hg => ?_⟩)
    · rw [hloop fuel, if_neg (by rw [hexit]; decide)]
      exact hexit
    · have hfate := (destroyConn_granted (hgr hg) hc).1
      rw [hexit] at hfate
      exact absurd (hfate.trans hrun) (by decide)
  · obtain ⟨hfired, howned, htimers⟩ := destroyConn_popped h h0 hlate hc hnode hwo hfate
    refine Or.inr (Or.inr ⟨c, conn, _, hfired, howned, harg, hnode ▸ hleast, htimers,
      fun ht => htabled (ht.same rfl rfl), fun hg => (destroyConn_granted (hgr hg) hc).2,
      fun fuel => ?_⟩)
    rw [hloop fuel, if_pos (hfate.trans hrun)]

theorem Fired.conns_eq (h : w.Fired c conn w') {d : ConnPtr} {e : ConnFd} :
    w'.conns d = some e ↔ d ≠ c ∧ w.conns d = some e := by
  rw [h.conns]
  exact PartialMap.update_none_eq_some

/-- A timeout is for a connection that had none before, and will have none
again. -/
theorem Fired.serials (h : w.Fired c conn w') (hs : w.Serials) : w'.Serials := by
  obtain ⟨serials, htimeouts, hnodup, hgone⟩ := hs.timeouts
  have hnew : conn.serial ∉ serials := fun hmem => (hgone _ hmem).2 c conn h.live rfl
  refine ⟨fun d e hd => ?_, fun d d' e e' hd hd' => ?_, serials ++ [conn.serial], ?_, ?_, ?_⟩
  · rw [h.nextSerial]
    exact hs.lt d e (h.conns_eq.mp hd).2
  · exact hs.inj d d' e e' (h.conns_eq.mp hd).2 (h.conns_eq.mp hd').2
  · rw [h.timeouts, htimeouts, List.map_append]
    rfl
  · refine List.nodup_append.mpr ⟨hnodup, List.pairwise_singleton _ _, fun s hs s' hs' heq => ?_⟩
    rw [List.mem_singleton.mp hs'] at heq
    exact hnew (heq ▸ hs)
  · intro s hs'
    rw [h.nextSerial]
    rcases List.mem_append.mp hs' with hmem | hmem
    · exact ⟨(hgone s hmem).1, fun d e hd => (hgone s hmem).2 d e (h.conns_eq.mp hd).2⟩
    · rw [List.mem_singleton.mp hmem]
      refine ⟨hs.lt c conn h.live, fun d e hd heq => ?_⟩
      obtain ⟨hne, hd⟩ := h.conns_eq.mp hd
      exact hne (hs.inj d c e conn hd h.live heq)

/-- **What a tick does**: it times out the connections whose timer is in the
heap and due, and no other one. -/
structure Ticked (w w' : Worker) : Prop where
  timers : w'.Timers
  held : ∀ p, p ∈ w'.pstHeapHeader.held
    ↔ p ∈ w.pstHeapHeader.held ∧ w.pstTimeCache < w.pstHeapHeader.timeout p
  conns : ∀ d e, w'.conns d = some e ↔ w.conns d = some e
    ∧ (e.pstTimeoutEvent ∈ w.pstHeapHeader.held →
      w.pstTimeCache < w.pstHeapHeader.timeout e.pstTimeoutEvent)
  body : w'.pstHeapHeader.body = w.pstHeapHeader.body
  fired : ∀ d e, w.conns d = some e → e.pstTimeoutEvent ∈ w.pstHeapHeader.held →
    w.pstHeapHeader.timeout e.pstTimeoutEvent ≤ w.pstTimeCache → some e.serial ∈ w'.timeouts
  kept : w.timeouts ⊆ w'.timeouts
  serials : w.Serials → w'.Serials
  tabled : w.Tabled → w'.Tabled
  time : w'.pstTimeCache = w.pstTimeCache
  fate : w'.fate = w.fate

/-- Where nothing is due, a tick does nothing. -/
theorem Ticked.refl (h : w.Timers)
    (hnone : ∀ p ∈ w.pstHeapHeader.held, w.pstTimeCache < w.pstHeapHeader.timeout p) :
    w.Ticked w where
  timers := h
  held p := ⟨fun hp => ⟨hp, hnone p hp⟩, fun hp => hp.1⟩
  conns _ _ := ⟨fun hd => ⟨hd, hnone _⟩, fun hd => hd.1⟩
  body := rfl
  fired _ _ _ hp hdue := absurd (hnone _ hp) (not_lt.mpr hdue)
  kept := fun _ hs => hs
  serials := id
  tabled := id
  time := rfl
  fate := rfl

/-- One timeout, and then the rest of the tick. -/
theorem Fired.ticked {w'' : Worker} (hf : w.Fired c conn w') (h : w.Timers)
    (htabled : w.Tabled → w'.Tabled) (ht : w'.Ticked w'') : w.Ticked w'' := by
  have htimeout : w'.pstHeapHeader.timeout = w.pstHeapHeader.timeout := timeout_of_body hf.body
  have hne : ∀ d e, w.conns d = some e → d ≠ c → e.pstTimeoutEvent ≠ conn.pstTimeoutEvent :=
    fun d e hd hdc heq => hdc (h.node_inj d c e conn hd hf.live heq)
  refine
    { timers := ht.timers
      held := fun p => ?_
      conns := fun d e => ?_
      body := ht.body.trans hf.body
      fired := fun d e hd hp hdue => ?_
      kept := fun s hs => ht.kept (by rw [hf.timeouts]; exact List.mem_append_left _ hs)
      serials := fun hs => ht.serials (hf.serials hs)
      tabled := fun h => ht.tabled (htabled h)
      time := ht.time.trans hf.time
      fate := ht.fate.trans hf.fate }
  · rw [ht.held, hf.held, hf.time, htimeout]
    constructor
    · exact fun ⟨⟨hp, _⟩, hlt⟩ => ⟨hp, hlt⟩
    · exact fun ⟨hp, hlt⟩ => ⟨⟨hp, fun heq => absurd hf.due (not_le.mpr (heq ▸ hlt))⟩, hlt⟩
  · rw [ht.conns, hf.conns_eq, hf.held, hf.time, htimeout]
    constructor
    · exact fun ⟨⟨hdc, hd⟩, hlate⟩ => ⟨hd, fun hp => hlate ⟨hp, hne d e hd hdc⟩⟩
    · rintro ⟨hd, hlate⟩
      refine ⟨⟨?_, hd⟩, fun hp => hlate hp.1⟩
      rintro rfl
      obtain rfl := Option.some.inj (hf.live.symm.trans hd)
      exact absurd (hlate hf.mem) (not_lt.mpr hf.due)
  · by_cases hdc : d = c
    · rw [hdc] at hd
      obtain rfl := Option.some.inj (hf.live.symm.trans hd)
      exact ht.kept (by rw [hf.timeouts]; exact List.mem_append_right _ (List.mem_singleton_self _))
    · refine ht.fired d e (hf.conns_eq.mpr ⟨hdc, hd⟩) ?_ ?_
      · rw [hf.held]
        exact ⟨hp, hne d e hd hdc⟩
      · rw [htimeout, hf.time]
        exact hdue

/-- **`ReactorProcessTimeoutEvent`**, from the rounds of its loop. -/
theorem processTimeoutLoop_spec {fuel : ℕ} (h : w.Timers) (hrun : w.fate = .running)
    (hfuel : w.pstHeapHeader.iNodeUsed ≤ fuel) :
    ((processTimeoutLoop fuel w).fate = .exited ∧ ¬ w.Tabled)
      ∨ w.Ticked (processTimeoutLoop fuel w) := by
  induction fuel generalizing w with
  | zero => exact Or.inr (.refl h (fun p ⟨i, hi, _⟩ => absurd hi (by omega)))
  | succ fuel ih =>
    obtain ⟨hover, hnone⟩ | ⟨hexit, hnot, -⟩
        | ⟨c, conn, w', hf, -, -, -, htimers, htabled, -, hloop⟩ :=
      processTimeoutLoop_succ h.owned hrun
    · rw [hover]
      exact Or.inr (.refl h hnone)
    · exact Or.inl ⟨hexit fuel, hnot⟩
    · have hused := hf.used
      rw [hloop fuel]
      rcases ih (htimers h) (hf.fate.trans hrun) (by omega) with ⟨hexit, hnot⟩ | ht
      · exact Or.inl ⟨hexit, fun ht => hnot (htabled ht)⟩
      · exact Or.inr (hf.ticked h htabled ht)

theorem reactorProcessTimeoutEvent_spec (h : w.Timers) (hrun : w.fate = .running) :
    ((reactorProcessTimeoutEvent w).fate = .exited ∧ ¬ w.Tabled)
      ∨ w.Ticked (reactorProcessTimeoutEvent w) :=
  processTimeoutLoop_spec h hrun le_rfl

/-- A tick keeps every live connection's timer in the heap. -/
theorem Ticked.armed (ht : w.Ticked w') (h : w.Armed) : w'.Armed := by
  rintro p ⟨d, e, hd, rfl⟩
  obtain ⟨hd, hlate⟩ := (ht.conns d e).mp hd
  have hp := h (mem_nodes hd)
  exact (ht.held _).mpr ⟨hp, hlate hp⟩

end Worker
