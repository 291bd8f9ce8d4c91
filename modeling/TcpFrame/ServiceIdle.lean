import TcpFrame.ServiceRuns

/-!
# Who is timed out

A client has a minute, from the moment it is accepted or its last packet is complete:
`Peer.active` is that moment, by the clock of the worker. In every run of the loop in which
the erases of the callbacks sift down, the timer of each connection is set to a minute
after it, and to nothing else (`Service.Dated`): what arrives of a packet that is never
complete does not put it off, nor does a reply that the client takes, nor anything another
client does.

So the timeouts of a round are for exactly those clients that have not completed a packet
for a minute (`service_drops_idle`). And that is all that a client can lose its connection
by, other than what it sends or what fails for it: the connection is there as long as it
would be if it were the only one (`service_keeps_clients`).
-/

open MinHeap

/-! ## The calls of a callback -/

/-- **The timer is set if a packet is complete**, in a receive callback that returns. -/
theorem processRecvCallback_rearms {conn : ConnFd} {t_iFd : ℤ} {malloc : Malloc}
    {head body : List ReadOutcome} {rx : List UInt8} {r : RecvResult}
    (hr : r = processRecvCallback conn t_iFd malloc head body rx) (hreturns : r.returns = true) :
    r.calls = [.destroyConn] ∧ r.packet = none
      ∨ ∃ quiet, (∀ call ∈ quiet, ReactorCall.Quiet call)
        ∧ (r.calls = quiet ∧ r.packet = none
          ∨ r.calls = quiet ++ [.registerTimerOutEvent maxConnTimeout] ∧ r.packet.isSome) := by
  have hends := processRecvCallback_ends conn t_iFd malloc head body rx
  rw [← hr] at hends
  cases hends with
  | destroyed c rx hsame => exact Or.inl ⟨rfl, rfl⟩
  | waiting c rx hsame =>
    exact Or.inr ⟨[], fun call hcall => absurd hcall List.not_mem_nil, Or.inl ⟨rfl, rfl⟩⟩
  | endless c rx hsame => exact absurd hreturns (by simp)
  | unanswered c rx hsame hentire => exact absurd hreturns (by simp)
  | answered c rx hsame conn' calls hentire =>
    exact Or.inr ⟨calls, fun call hcall => Or.inl ((processEntirePacket_spec hentire).2 call hcall),
      Or.inr ⟨rfl, rfl⟩⟩

/-- A send callback does not set it. -/
theorem processSendCallback_quiet {conn : ConnFd} {t_iFd : ℤ} {outcomes : List WriteOutcome} :
    (processSendCallback conn t_iFd outcomes).calls = [.destroyConn]
      ∨ ∀ call ∈ (processSendCallback conn t_iFd outcomes).calls, call.Quiet := by
  have hnil : ∀ call ∈ ([] : List ReactorCall), call.Quiet :=
    fun call hcall => absurd hcall List.not_mem_nil
  unfold processSendCallback
  split
  · exact Or.inr hnil
  split
  · exact Or.inr hnil
  dsimp only
  split
  · exact Or.inl rfl
  split
  · exact Or.inr (fun call hcall => Or.inr (List.mem_singleton.mp hcall))
  · exact Or.inr hnil

namespace Worker

variable {w w' : Worker} {c d : ConnPtr} {conn conn' e : ConnFd} {a : Accepted}
  {calls quiet : List ReactorCall} {t_iFd : ℤ} {input : EventInput}

/-! ## The deadlines -/

/-- Deadlines after a timer is set. -/
theorem timeout_register (h : w.Timers) (hc : w.conns c = some conn)
    (hdown : minheapEraseShiftsUp (w.rearmed conn.pstTimeoutEvent maxConnTimeout)
      conn.pstTimeoutEvent = false) :
    (registerTimerOutEvent w conn.pstTimeoutEvent maxConnTimeout true).pstHeapHeader.timeout
      = Function.update w.pstHeapHeader.timeout conn.pstTimeoutEvent
        (w.deadline maxConnTimeout) := by
  obtain ⟨-, -, hbody⟩ := registerTimerOutEvent_heap h (mem_nodes hc) hdown
  rw [timeout_of_body hbody, timeout_rearmed]

/-- Deadlines after a connection is accepted. -/
theorem timeout_join (h : w.Timers) (hfresh : w.Fresh a) :
    (registerTimerOutEvent (w.joining a) a.pstTimeoutEvent maxConnTimeout
        true).pstHeapHeader.timeout
      = Function.update w.pstHeapHeader.timeout a.pstTimeoutEvent
        (w.deadline maxConnTimeout) := by
  have hc : (w.joining a).conns a.pstNewConnFd = some (w.accepted a) :=
    conns_joining.mpr (Or.inl ⟨rfl, rfl⟩)
  have hdown : minheapEraseShiftsUp ((w.joining a).rearmed a.pstTimeoutEvent maxConnTimeout)
      a.pstTimeoutEvent = false :=
    not_shiftsUp_of_index (by rw [index_rearmed]; exact event_joining_self.1)
  rw [show a.pstTimeoutEvent = (w.accepted a).pstTimeoutEvent from rfl] at hdown ⊢
  rw [timeout_register (joining_timers h hfresh) hc hdown,
    show (w.joining a).pstHeapHeader.timeout = w.pstHeapHeader.timeout from
      timeout_minheapTimeoutEventInit.trans timeout_minheapTimeoutEventInit]
  rfl

/-- Deadlines after a connection is destroyed. -/
theorem timeout_destroyConn (h : w.Timers) (hc : w.conns c = some conn)
    (hdown : minheapEraseShiftsUp w.pstHeapHeader conn.pstTimeoutEvent = false)
    (hfate : (destroyConn w c).fate ≠ .exited) :
    (destroyConn w c).pstHeapHeader.timeout = w.pstHeapHeader.timeout := by
  obtain ⟨hexit, -⟩ | ⟨-, hwithout, -⟩ := destroyConn_without hc
  · exact absurd hexit hfate
  · exact timeout_of_body (hwithout.timers h hc hdown).2.2

/-- **Calls that do not set the timer** leave the deadlines as they are. -/
theorem timeout_calls (h : w.Timers) (hc : w.conns c = some conn)
    (hcalls : calls = [.destroyConn] ∨ ∀ call ∈ calls, call.Quiet)
    (hdown : ∀ call ∈ calls, w.SiftsDown conn.pstTimeoutEvent call)
    (hend : (calls.foldl (reactorCall c true) w).fate = .running) :
    (calls.foldl (reactorCall c true) w).pstHeapHeader.timeout = w.pstHeapHeader.timeout := by
  rcases hcalls with rfl | hquiet
  · rw [List.foldl_cons, List.foldl_nil] at hend ⊢
    unfold reactorCall at hend ⊢
    split
    · next hrun =>
      rw [if_pos hrun, hc] at hend
      rw [hc]
      refine timeout_destroyConn h hc (hdown _ List.mem_cons_self) ?_
      rw [show (destroyConn w c).fate = .running from hend]
      decide
    · rfl
  · rw [(reactorCalls_quiet hquiet).heap]

/-- **Calls that set it at the end** set the deadline of their connection. -/
theorem timeout_calls_register (h : w.Timers) (hc : w.conns c = some conn)
    (hquiet : ∀ call ∈ quiet, ReactorCall.Quiet call)
    (hdown : w.SiftsDown conn.pstTimeoutEvent (.registerTimerOutEvent maxConnTimeout))
    (hcalls : calls = quiet ++ [.registerTimerOutEvent maxConnTimeout])
    (hend : (calls.foldl (reactorCall c true) w).fate = .running) :
    (calls.foldl (reactorCall c true) w).pstHeapHeader.timeout
      = Function.update w.pstHeapHeader.timeout conn.pstTimeoutEvent
        (w.deadline maxConnTimeout) := by
  rw [hcalls] at hend ⊢
  have hsame : w.SameTimers (quiet.foldl (reactorCall c true) w) := reactorCalls_quiet hquiet
  rw [List.foldl_append, List.foldl_cons, List.foldl_nil] at hend ⊢
  set w₁ := quiet.foldl (reactorCall c true) w
  have hc₁ : w₁.conns c = some conn := by rw [hsame.conns, hc]
  have hrearmed : w₁.rearmed conn.pstTimeoutEvent maxConnTimeout
      = w.rearmed conn.pstTimeoutEvent maxConnTimeout := by
    unfold rearmed
    rw [hsame.heap, hsame.time]
  unfold reactorCall at hend ⊢
  split
  · rw [hc₁]
    refine (timeout_register (h.same hsame) hc₁ ?_).trans ?_
    · rw [hrearmed]
      exact hdown
    · unfold deadline
      rw [hsame.heap, hsame.time]
  · next hrun =>
    rw [if_neg hrun] at hend
    exact absurd hend hrun

/-- **A receive callback** sets the deadline of its connection to a minute from now if it
completes a packet, and none otherwise. -/
theorem Timed.timeout_recv (h : w.Timed) (hc : w.conns c = some conn)
    (hrealloc : input.realloc = true)
    (hdown : ∀ call ∈ callsOf conn t_iFd input .processRecvCallback,
      w.SiftsDown conn.pstTimeoutEvent call)
    (hend : (eventCallback w input t_iFd (some c) .processRecvCallback).fate = .running)
    {r : RecvResult}
    (hr : r = processRecvCallback conn t_iFd input.malloc input.head input.body input.rx) :
    (eventCallback w input t_iFd (some c) .processRecvCallback).pstHeapHeader.timeout
      = if r.packet.isSome then
          Function.update w.pstHeapHeader.timeout conn.pstTimeoutEvent (w.deadline maxConnTimeout)
        else w.pstHeapHeader.timeout := by
  unfold callsOf at hdown
  unfold eventCallback at hend ⊢
  dsimp only at hdown hend ⊢
  rw [hc] at hend ⊢
  dsimp only at hend ⊢
  rw [← hr] at hdown hend ⊢
  by_cases hover : r.conn.overran = true
  · rw [if_pos hover] at hend
    exact absurd hend (by simp)
  rw [if_neg hover] at hend ⊢
  by_cases hreturns : r.returns = true
  swap
  · rw [if_neg hreturns] at hend
    exact absurd hend (by simp)
  rw [if_pos hreturns, hrealloc] at hend ⊢
  have hsame : conn.SameConn r.conn := hr ▸ processRecvCallback_sameConn
  have h₁ := (h.update hc hsame).timed.toTimers
  have hlive : (Function.update w.conns c (some r.conn)) c = some r.conn := Function.update_self ..
  rw [← hsame.pstTimeoutEvent] at hdown ⊢
  rcases processRecvCallback_rearms hr hreturns with
    ⟨hcalls, hnone⟩ | ⟨quiet, hquiet, ⟨hcalls, hnone⟩ | ⟨hcalls, hsome⟩⟩
  · rw [if_neg (by rw [hnone]; simp)]
    exact timeout_calls h₁ hlive (Or.inl hcalls) hdown hend
  · rw [if_neg (by rw [hnone]; simp)]
    exact timeout_calls h₁ hlive (Or.inr (hcalls ▸ hquiet)) hdown hend
  · rw [if_pos hsome]
    have hregister := hdown (.registerTimerOutEvent maxConnTimeout)
      (by rw [hcalls]; exact List.mem_append_right _ List.mem_cons_self)
    exact timeout_calls_register h₁ hlive hquiet hregister hcalls hend

/-- **A send callback** sets none. -/
theorem Timed.timeout_send (h : w.Timed) (hc : w.conns c = some conn)
    (hrealloc : input.realloc = true)
    (hdown : ∀ call ∈ callsOf conn t_iFd input .processSendCallback,
      w.SiftsDown conn.pstTimeoutEvent call)
    (hend : (eventCallback w input t_iFd (some c) .processSendCallback).fate = .running) :
    (eventCallback w input t_iFd (some c) .processSendCallback).pstHeapHeader.timeout
      = w.pstHeapHeader.timeout := by
  unfold callsOf at hdown
  unfold eventCallback at hend ⊢
  dsimp only at hdown hend ⊢
  rw [hc, hrealloc] at hend ⊢
  have hsame : conn.SameConn (processSendCallback conn t_iFd input.writes).conn :=
    processSendCallback_calls.1
  rw [← hsame.pstTimeoutEvent] at hdown
  exact timeout_calls (h.update hc hsame).timed.toTimers (Function.update_self ..)
    processSendCallback_quiet hdown hend

/-- **The accept callback** sets that of a new connection. -/
theorem Timed.timeout_accept (h : w.Timed) (hrun : w.fate = .running) (hrealloc : a.realloc = true)
    (hfresh : w.Fresh a) (hadmitted : w.Admitted a (processAcceptCallback w t_iFd (.conn a))) :
    (processAcceptCallback w t_iFd (.conn a)).pstHeapHeader.timeout
      = Function.update w.pstHeapHeader.timeout a.pstTimeoutEvent (w.deadline maxConnTimeout) := by
  obtain hexit | heq | hsame := processAcceptCallback_timers (w := w) (a := a) t_iFd
  · exact absurd (hadmitted.fate.symm.trans hexit) (by rw [hrun]; decide)
  · -- then there would be no new connection
    have hserial := hadmitted.nextSerial
    rw [heq] at hserial
    exact absurd hserial (Nat.succ_ne_self _).symm
  · rw [hrealloc] at hsame
    rw [hsame.heap]
    exact timeout_join h.toTimers hfresh

/-- To note a call is nothing to the timers. -/
theorem sameTimers_noted {overrun : Bool} {invoked : List Invocation} :
    w.SameTimers (w.noted overrun invoked) := ⟨rfl, rfl, rfl, rfl, rfl⟩

end Worker

/-! ## A minute after its peer was active -/

/-- When a peer is to be timed out. -/
def Peer.deadline (p : Peer) : TimeVal := minheapTimeradd p.active (timerInterval maxConnTimeout)

namespace Worker

variable {w w' : Worker} {start batch : Set ℤ} {peer : ℕ → Option Peer} {p p' : Peer}
  {c d : ConnPtr} {conn conn' e : ConnFd} {a : Accepted}

/-- **The timer of each connection** is set to a minute after its peer was active. -/
def Dated (w : Worker) (peer : ℕ → Option Peer) : Prop :=
  ∀ c conn, w.conns c = some conn → ∃ p, peer conn.serial = some p
    ∧ w.pstHeapHeader.timeout conn.pstTimeoutEvent = p.deadline

/-- What sets no timer. -/
theorem Dated.of_timeout (h : w.Dated peer)
    (hconns : ∀ d e, w'.conns d = some e → w.conns d = some e)
    (htimeout : w'.pstHeapHeader.timeout = w.pstHeapHeader.timeout) : w'.Dated peer := by
  intro c conn hc
  rw [htimeout]
  exact h c conn (hconns c conn hc)

/-- **A new connection.** -/
theorem Dated.admitted (h : w.Dated peer) (hmirrors : w.Mirrors peer)
    (hnode : a.pstTimeoutEvent ∉ w.nodes) (hadmitted : w.Admitted a w') (stream : List UInt8)
    (htimeout : w'.pstHeapHeader.timeout
      = Function.update w.pstHeapHeader.timeout a.pstTimeoutEvent (w.deadline maxConnTimeout)) :
    w'.Dated (Function.update peer w.nextSerial (some (.new a stream w.pstTimeCache))) := by
  intro d e hd
  rw [hadmitted.conns] at hd
  rw [htimeout]
  rcases PartialMap.update_some_eq_some.mp hd with ⟨-, rfl⟩ | ⟨-, hd⟩
  · exact ⟨.new a stream w.pstTimeCache, Function.update_self .., Function.update_self ..⟩
  · obtain ⟨p, hp, hdeadline⟩ := h d e hd
    refine ⟨p, ?_, ?_⟩
    · rw [Function.update_of_ne (ne_of_lt (hmirrors.lt d e hd))]
      exact hp
    · have hne : e.pstTimeoutEvent ≠ a.pstTimeoutEvent := fun heq => hnode (heq ▸ mem_nodes hd)
      rw [Function.update_of_ne hne]
      exact hdeadline

/-- **A callback of one connection.** -/
theorem Dated.callback (h : w.Dated peer) (hmirrors : w.Mirrors peer) (htimers : w.Timers)
    (hc : w.conns c = some conn) (halone : w.LeavesAlone {c}ᶜ w')
    (hown : ∀ e, w'.conns c = some e → conn.SameConn e)
    (hself : w'.pstHeapHeader.timeout conn.pstTimeoutEvent = p'.deadline)
    (hothers : ∀ q ≠ conn.pstTimeoutEvent,
      w'.pstHeapHeader.timeout q = w.pstHeapHeader.timeout q) :
    w'.Dated (Function.update peer conn.serial (some p')) := by
  intro d e hd
  by_cases hdc : d = c
  · rw [hdc] at hd
    have hsame := hown e hd
    rw [hsame.serial, hsame.pstTimeoutEvent]
    exact ⟨p', Function.update_self .., hself⟩
  · have hd₀ := halone.conns d hdc e hd
    obtain ⟨p, hp, hdeadline⟩ := h d e hd₀
    refine ⟨p, ?_, ?_⟩
    · rw [Function.update_of_ne (fun heq => hdc (hmirrors.inj d c e conn hd₀ hc heq))]
      exact hp
    · rw [hothers _ (fun heq => hdc (htimers.node_inj d c e conn hd₀ hc heq))]
      exact hdeadline

end Worker

/-! ## Runs of the loop -/

namespace Service

variable {start : Set ℤ} {s s' : Service} {c : ConnPtr} {conn : ConnFd} {p : Peer}

/-- **What the timers rest on**: there is memory for the heap and for each timer, the
erases of the callbacks sift down, and the clock does not go back. -/
def InTime (s : Service) (input : ServiceInput) : Prop :=
  s.reactor.AllocatesSlots (s.reactorInput input) ∧ s.reactor.SiftsDown (s.reactorInput input)
    ∧ s.reactor.Forward (s.reactorInput input)

instance (s : Service) (input : ServiceInput) : Decidable (s.InTime input) :=
  inferInstanceAs (Decidable (s.reactor.AllocatesSlots (s.reactorInput input)
    ∧ s.reactor.SiftsDown (s.reactorInput input) ∧ s.reactor.Forward (s.reactorInput input)))

/-- **Every client has its minute.** -/
structure Dated (start : Set ℤ) (s : Service) : Prop where
  mirrors : s.Mirrors start
  safe : s.reactor.Safe start
  timely : s.reactor.Timely
  worker : s.reactor.worker.fate = .running → s.reactor.worker.Dated s.peer

/-- A callback with its half of a round. -/
theorem Dated.callback (h : s.Dated start) {input : EventInput} {arrives : ℕ}
    {stream : List UInt8} (hadm : s.Orderly (.callback input arrives stream))
    (htime : s.InTime (.callback input arrives stream)) {reactor : Reactor}
    (hstep : s.reactor.step (.callback { input with rx := s.unread arrives }) = some reactor)
    (hend : reactor.worker.fate = .running) :
    reactor.worker.Dated (s.nextPeers (.callback input arrives stream)) := by
  have hrun := Reactor.running_of_step hstep
  have hbooks := h.mirrors.order.books hrun
  have hmirrors := h.mirrors.worker hrun
  have hdated := h.worker hrun
  obtain ⟨halloc, hdown, -⟩ := htime
  have halloc : s.reactor.Allocates (.callback { input with rx := s.unread arrives }) :=
    h.mirrors.order.allocates halloc
  obtain ⟨ev, hev, overrun, invoked, hhalf⟩ := h.mirrors.order.half hstep
  have hnoted := hbooks.noted overrun invoked
  have hmirrors : (s.reactor.worker.noted overrun invoked).Mirrors s.peer :=
    (h.mirrors.worker hrun).leavesAlone Worker.leavesAlone_noted
  have htimed : (s.reactor.worker.noted overrun invoked).Timed :=
    ((h.safe.timed hrun).same Worker.sameTimers_noted).timed
  have hdated : (s.reactor.worker.noted overrun invoked).Dated s.peer :=
    (h.worker hrun).of_timeout (fun d e hd => hd) rfl
  unfold nextPeers
  cases hhalf with
  | idle hnext heq =>
    simp only [hnext]
    rw [heq]
    exact hdated
  | accept hnext heq =>
    simp only [hnext]
    rcases h.mirrors.order.accepted hadm hrun hev hnext heq hend with
      ⟨hnone, hsame⟩ | ⟨a, ha, hadmitted⟩
    · rw [hnone, hsame]
      exact hdated
    · have hclient : Worker.client input.accept = some a := by rw [ha]; rfl
      obtain ⟨hrealloc, hnode⟩ := halloc.2 hnext a hclient
      have hfresh := (hadm hnext a hclient).2.2.2
      rw [hclient]
      rw [ha] at heq
      rw [heq] at hadmitted ⊢
      exact hdated.admitted hmirrors hnode hadmitted stream
        (htimed.timeout_accept hrun hrealloc ⟨hfresh, hnode⟩ hadmitted)
  | recv c conn hc hfd harg hnext heq =>
    simp only [hnext]
    obtain ⟨p, hp, hdeadline⟩ := hdated c conn hc
    have hconn : s.nextConn = some conn := Reactor.nextConn_eq hev harg hc
    have hdown' := hdown ev hev _ hnext c harg conn hc
    rw [atPeer_eq hconn hp]
    rw [unread_eq hconn hp, ← hfd] at heq hdown'
    rw [heq] at hend ⊢
    set input' : EventInput := { input with rx := p.unread arrives }
    have hrealloc : input'.realloc = true := halloc.1
    have hhandles := hnoted.recv_own hrun hc input' conn.iFd hend rfl
    have htimeout := htimed.timeout_recv hc hrealloc hdown' hend rfl
    refine hdated.callback hmirrors htimed.toTimers hc hhandles.alone (fun e he => ?_) ?_
      (fun q hq => ?_)
    · rw [← Option.some.inj (Option.ite_none_right_eq_some.mp (hhandles.left_eq he)).2]
      exact processRecvCallback_sameConn
    · rw [htimeout]
      show _ = minheapTimeradd (if Option.isSome _ then _ else _) _
      split
      · exact Function.update_self ..
      · exact hdeadline
    · rw [htimeout]
      split
      · exact Function.update_of_ne hq _ _
      · rfl
  | send c conn hc hfd harg hnext hasks heq =>
    simp only [hnext]
    obtain ⟨p, hp, hdeadline⟩ := hdated c conn hc
    have hdown' := hdown ev hev _ hnext c harg conn hc
    rw [← hfd] at heq hdown'
    rw [atPeer_eq (Reactor.nextConn_eq hev harg hc) hp]
    rw [heq] at hend ⊢
    have hhandles := hnoted.send_own hrun hc { input with rx := s.unread arrives } conn.iFd rfl
    have htimeout := htimed.timeout_send hc halloc.1 hdown' hend
    refine hdated.callback hmirrors htimed.toTimers hc hhandles.alone (fun e he => ?_) ?_
      (fun q hq => ?_)
    · rw [← Option.some.inj (Option.ite_none_left_eq_some.mp (hhandles.left_eq he)).2]
      exact processSendCallback_calls.1
    · rw [htimeout]
      exact hdeadline
    · rw [htimeout]

/-- **The step lemma.** -/
theorem Dated.step (h : s.Dated start) {input : ServiceInput} (hadm : s.Orderly input)
    (htime : s.InTime input) (hstep : s.step input = some s') : s'.Dated start := by
  have hmirrors := h.mirrors.step hadm hstep
  obtain ⟨reactor, hreactor, rfl⟩ := Option.map_eq_some_iff.mp hstep
  have hrun := Reactor.running_of_step hreactor
  obtain ⟨hslots, hdown, hforward⟩ := htime
  have halloc := h.mirrors.order.allocates hslots
  refine ⟨hmirrors, h.safe.step hadm halloc hdown hreactor,
    h.timely.step h.safe hadm halloc hdown hforward hreactor, fun hend => ?_⟩
  cases input with
  | wait now events =>
    rw [Reactor.step_wait hreactor]
    exact (h.worker hrun).of_timeout (fun d e hd => hd) rfl
  | callback input arrives stream => exact h.callback hadm ⟨hslots, hdown, hforward⟩ hreactor hend
  | expire =>
    rw [Reactor.step_expire hreactor] at hend ⊢
    obtain ⟨hexit, -⟩ | hticked :=
      Worker.reactorProcessTimeoutEvent_spec (h.safe.timed hrun).toTimers hrun
    · exact absurd (hexit.symm.trans hend) (by decide)
    · exact (h.worker hrun).of_timeout (fun d e hd => ((hticked.conns d e).mp hd).1)
        (timeout_of_body hticked.body)

/-- **A new worker has no peers.** -/
theorem Dated.new {fd N : ℤ} {o : Worker.Creation} {e : Epoll} {w : Worker}
    (hproper : o.Proper fd N e) (hnew : Worker.eventBaseCreateFrom fd N o = some w)
    (hclock : o.gettimeofday.Normalised) (hsec : 0 < o.gettimeofday.tv_sec) :
    (Service.start w).Dated e.opened := by
  obtain ⟨-, -, -, -, -, -, -, -, hconns, -⟩ := Worker.eventBaseCreateFrom_eq_some hnew
  refine ⟨.new hproper hnew, .new hproper hnew, .new hnew hclock hsec, fun _ c conn hc => ?_⟩
  rw [show (start w).reactor.worker.conns c = none from hconns c] at hc
  exact absurd hc (by simp)

end Service

/-- **The idle clients are timed out, and no others**: in every run of the loop of a worker
in which the erases sift down and the clock does not go back, the timeouts of a round leave
a client if it was accepted or completed a packet less than a minute ago, and destroy it
otherwise. -/
theorem service_drops_idle {fd N : ℤ} {o : Worker.Creation} {e : Epoll} {w : Worker}
    (hproper : o.Proper fd N e) (hnew : Worker.eventBaseCreateFrom fd N o = some w)
    (hclock : o.gettimeofday.Normalised) (hsec : 0 < o.gettimeofday.tv_sec)
    {inputs : List ServiceInput} {s s' : Service}
    (hadm : Run.Along Service.step Service.Orderly (Service.start w) inputs)
    (htime : Run.Along Service.step Service.InTime (Service.start w) inputs)
    (hexec : Run.exec Service.step (Service.start w) inputs = some s)
    (hstep : s.step .expire = some s') (hend : s'.reactor.worker.fate = .running) :
    ∀ c conn, s.reactor.worker.conns c = some conn → ∃ p, s.peer conn.serial = some p
      ∧ s'.reactor.worker.conns c
        = if s.reactor.worker.pstTimeCache.micros < p.active.micros + 60 * 1000000 then some conn
          else none := by
  have hdated : s.Dated e.opened := (Run.always_of_along
    (fun _ _ _ h hG hstep => Service.Dated.step h hG.1 hG.2 hstep)
    (.new hproper hnew hclock hsec) (hadm.and htime)).exec hexec
  obtain ⟨reactor, hreactor, rfl⟩ := Option.map_eq_some_iff.mp hstep
  have hrun := Reactor.running_of_step hreactor
  have htimed := hdated.safe.timed hrun
  obtain ⟨hminute, -⟩ := hdated.timely hrun
  rw [Reactor.step_expire hreactor] at hend ⊢
  obtain ⟨hexit, -⟩ | hticked := Worker.reactorProcessTimeoutEvent_spec htimed.toTimers hrun
  · exact absurd (hexit.symm.trans hend) (by decide)
  intro c conn hc
  obtain ⟨p, hp, hdeadline⟩ := hdated.worker hrun c conn hc
  -- what is left of the minute
  have hleft : s.reactor.worker.pstTimeCache
      < s.reactor.worker.pstHeapHeader.timeout conn.pstTimeoutEvent
      ↔ s.reactor.worker.pstTimeCache.micros < p.active.micros + 60 * 1000000 := by
    rw [← not_le, TimeVal.le_iff_micros (hminute.reach c conn hc).1 hminute.clock, not_le,
      hdeadline]
    unfold Peer.deadline
    rw [micros_minheapTimeradd, micros_timerInterval (by decide)]
    simp only [maxConnTimeout]
    omega
  refine ⟨p, hp, ?_⟩
  split
  · next hlt => exact (hticked.conns c conn).mpr ⟨hc, fun _ => hleft.mpr hlt⟩
  · next hge =>
    rw [Option.eq_none_iff_forall_ne_some]
    intro conn' hc'
    obtain ⟨hc₀, hlate⟩ := (hticked.conns c conn').mp hc'
    obtain rfl : conn = conn' := Option.some.inj (hc.symm.trans hc₀)
    exact hge (hleft.mp (hlate (htimed.armed (Worker.mem_nodes hc))))

/-- Two clients that have connected. The first one sends a whole packet at the second `13`,
the second one a part of one at the second `14`, and then nothing comes for a minute. -/
def idleClients : List ServiceInput :=
  clientRound 1 11 3 false 0 echoFrame ++ clientRound 2 12 3 false 0 echoFrame
    ++ clientRound 1 13 4 false 14 [] ++ clientRound 2 14 5 false 6 []
    ++ [.wait ⟨72, 500000⟩ (some [])]

/-- The second of the two is timed out. -/
theorem service_drops_idle_sample :
    ∃ s s', Run.exec Service.step (Service.start ruledWorker) idleClients = some s
      ∧ s.step .expire = some s' ∧ s.reactor.worker.iClientCount = 2
      ∧ s'.reactor.worker.iClientCount = 1
      ∧ ∀ c conn, s.reactor.worker.conns c = some conn → ∃ p, s.peer conn.serial = some p
        ∧ s'.reactor.worker.conns c
          = if s.reactor.worker.pstTimeCache.micros < p.active.micros + 60 * 1000000 then some conn
            else none := by
  have hread : ((Run.exec Service.step (Service.start ruledWorker) idleClients).bind
      (fun s => (s.step .expire).map (fun s' => (s.reactor.worker.iClientCount,
        s'.reactor.worker.iClientCount, s'.reactor.worker.fate)))) = some (2, 1, .running) := by
    decide +kernel
  obtain ⟨s, hexec, hread⟩ := Option.bind_eq_some_iff.mp hread
  obtain ⟨s', hstep, hread⟩ := Option.map_eq_some_iff.mp hread
  obtain ⟨hbefore, hread⟩ := Prod.mk.inj hread
  obtain ⟨hafter, hend⟩ := Prod.mk.inj hread
  exact ⟨s, s', hexec, hstep, hbefore, hafter,
    service_drops_idle ruledCreation_proper ruledWorker_created (by decide) (by decide)
      (by decide +kernel) (by decide +kernel) hexec hstep hend⟩

/-! ## No client is lost -/

namespace Worker

variable {w w' : Worker} {peer : ℕ → Option Peer} {c : ConnPtr} {conn : ConnFd}

/-- **No connection is missing**: one that would be there if it were the only one, and was
not timed out, is there. -/
def Present (w : Worker) (peer : ℕ → Option Peer) : Prop :=
  ∀ n p E, peer n = some p → p.alone n = some E → E.recv.fate = .live → some n ∉ w.timeouts →
    ∃ c conn, w.conns c = some conn ∧ conn.serial = n

/-- **The timeouts** put down whom they destroy. -/
theorem Present.expire (h : w.Present peer) (harmed : w.Armed) (hticked : w.Ticked w') :
    w'.Present peer := by
  intro n p E hp hE hlive hkept
  obtain ⟨c, conn, hc, rfl⟩ := h n p E hp hE hlive (fun hmem => hkept (hticked.kept hmem))
  have hheld := harmed (mem_nodes hc)
  refine ⟨c, conn, (hticked.conns c conn).mpr ⟨hc, fun _ => ?_⟩, rfl⟩
  by_contra hdue
  exact hkept (hticked.fired c conn hc hheld (not_lt.mp hdue))

end Worker

namespace Service

variable {start : Set ℤ} {s s' : Service}

/-- A callback loses none. -/
theorem Turn.present {stream : List UInt8} {w' : Worker} {peer : ℕ → Option Peer}
    (hturn : s.Turn stream w' peer) (h : s.reactor.worker.Present s.peer)
    (hend : w'.fate = .running) :
    w'.Present peer := by
  intro n p E hp hE hlive hkept
  cases hturn with
  | idle overrun invoked heq =>
    rw [heq hend] at hkept ⊢
    exact h n p E hp hE hlive hkept
  | admitted overrun invoked a hcan hadmitted =>
    have hadmitted := hadmitted hend
    rw [hadmitted.conns]
    rw [hadmitted.timeouts] at hkept
    rcases PartialMap.update_some_eq_some.mp hp with ⟨rfl, -⟩ | ⟨-, hp⟩
    · exact ⟨a.pstNewConnFd, _, Function.update_self .., rfl⟩
    · obtain ⟨c, conn, hc, hn⟩ := h n p E hp hE hlive hkept
      -- there was no connection in the memory of the new one
      have hne : c ≠ a.pstNewConnFd := by
        rintro rfl
        exact absurd (hc.symm.trans hcan.2.2.2) (by simp)
      exact ⟨c, conn, (Function.update_of_ne hne _ _).trans hc, hn⟩
  | served c conn p' E' hserved =>
    obtain ⟨calls, hhandles, -⟩ := hserved.handles hend
    rw [hhandles.conns]
    rw [hhandles.timeouts] at hkept
    rcases PartialMap.update_some_eq_some.mp hp with ⟨rfl, rfl⟩ | ⟨hne, hp⟩
    · obtain rfl : E' = E := Option.some.inj (hserved.alone.symm.trans hE)
      rw [if_pos hlive]
      exact ⟨c, E'.recv.conn, Function.update_self .., hserved.serial⟩
    · obtain ⟨d, e, hd, rfl⟩ := h n p E hp hE hlive hkept
      have hdc : d ≠ c := by
        rintro rfl
        rw [hserved.live] at hd
        exact hne (congrArg ConnFd.serial (Option.some.inj hd).symm)
      exact ⟨d, e, (Function.update_of_ne hdc _ _).trans hd, rfl⟩

/-- **Every client is accounted for.** -/
structure Accounted (start : Set ℤ) (s : Service) : Prop where
  dated : s.Dated start
  present : s.reactor.worker.fate = .running → s.reactor.worker.Present s.peer

/-- **The step lemma.** -/
theorem Accounted.step (h : s.Accounted start) {input : ServiceInput} (hadm : s.Orderly input)
    (htime : s.InTime input) (hstep : s.step input = some s') : s'.Accounted start := by
  have hdated := h.dated.step hadm htime hstep
  obtain ⟨reactor, hreactor, rfl⟩ := Option.map_eq_some_iff.mp hstep
  have hrun := Reactor.running_of_step hreactor
  have hpresent := h.present hrun
  refine ⟨hdated, fun hend => ?_⟩
  cases input with
  | wait now events =>
    rw [Reactor.step_wait hreactor]
    exact hpresent
  | callback input arrives stream =>
    exact (h.dated.mirrors.turn hadm hreactor).present hpresent hend
  | expire =>
    have htimed := h.dated.safe.timed hrun
    rw [Reactor.step_expire hreactor] at hend ⊢
    obtain ⟨hexit, -⟩ | hticked := Worker.reactorProcessTimeoutEvent_spec htimed.toTimers hrun
    · exact absurd (hexit.symm.trans hend) (by decide)
    · exact hpresent.expire htimed.armed hticked

theorem accounted_always {fd N : ℤ} {o : Worker.Creation} {e : Epoll} {w : Worker}
    (hproper : o.Proper fd N e) (hnew : Worker.eventBaseCreateFrom fd N o = some w)
    (hclock : o.gettimeofday.Normalised) (hsec : 0 < o.gettimeofday.tv_sec)
    {inputs : List ServiceInput}
    (hadm : Run.Along Service.step Service.Orderly (Service.start w) inputs)
    (htime : Run.Along Service.step Service.InTime (Service.start w) inputs) :
    Run.Always Service.step (Service.Accounted e.opened) (Service.start w) inputs := by
  have hpresent : (Service.start w).reactor.worker.Present (Service.start w).peer :=
    fun n p E hp => absurd hp (by simp [Service.start])
  exact Run.always_of_along (fun _ _ _ h hG hstep => h.step hG.1 hG.2 hstep)
    ⟨.new hproper hnew hclock hsec, fun _ => hpresent⟩ (hadm.and htime)

end Service

/-- **No client is lost**: in a run as above, the connection of a client is there as long
as it would be if it were the only one, and was not timed out, and no longer. -/
theorem service_keeps_clients {fd N : ℤ} {o : Worker.Creation} {e : Epoll} {w : Worker}
    (hproper : o.Proper fd N e) (hnew : Worker.eventBaseCreateFrom fd N o = some w)
    (hclock : o.gettimeofday.Normalised) (hsec : 0 < o.gettimeofday.tv_sec)
    {inputs : List ServiceInput}
    (hadm : Run.Along Service.step Service.Orderly (Service.start w) inputs)
    (htime : Run.Along Service.step Service.InTime (Service.start w) inputs) :
    Run.Always Service.step (fun s => s.reactor.worker.fate = .running →
        ∀ n p, s.peer n = some p →
          ((∃ c conn, s.reactor.worker.conns c = some conn ∧ conn.serial = n)
            ↔ (∃ E, p.alone n = some E ∧ E.recv.fate = .live)
              ∧ some n ∉ s.reactor.worker.timeouts))
      (Service.start w) inputs := by
  refine (Service.accounted_always hproper hnew hclock hsec hadm htime).mono
    (fun s h hrun n p hp => ?_)
  constructor
  · rintro ⟨c, conn, hc, rfl⟩
    obtain ⟨p', E, hp', hE, hshows⟩ := (h.dated.mirrors.worker hrun).live c conn hc
    obtain rfl : p = p' := Option.some.inj (hp.symm.trans hp')
    refine ⟨⟨E, hE, hshows.live⟩, fun hmem => ?_⟩
    obtain ⟨serials, htimeouts, -, hgone⟩ := (h.dated.safe.timed hrun).timeouts
    rw [htimeouts] at hmem
    obtain ⟨m, hm, heq⟩ := List.mem_map.mp hmem
    exact (hgone m hm).2 c conn hc (Option.some.inj heq).symm
  · rintro ⟨⟨E, hE, hlive⟩, hkept⟩
    exact h.present hrun n p E hp hE hlive hkept

/-- The two clients of `idleClients`: the first one is there, the second one timed out. -/
theorem service_keeps_clients_sample :
    Run.Always Service.step (fun s => s.reactor.worker.fate = .running →
        ∀ n p, s.peer n = some p →
          ((∃ c conn, s.reactor.worker.conns c = some conn ∧ conn.serial = n)
            ↔ (∃ E, p.alone n = some E ∧ E.recv.fate = .live)
              ∧ some n ∉ s.reactor.worker.timeouts))
      (Service.start ruledWorker) (idleClients ++ [.expire]) :=
  service_keeps_clients ruledCreation_proper ruledWorker_created (by decide) (by decide)
    (by decide +kernel) (by decide +kernel)

/-- **A client that is served**: a courteous one that sends packets, with callbacks that
find something to be read and can be served. -/
structure Peer.Regular (p : Peer) (n : ℕ) : Prop extends p.Courteous n where
  packets : ∃ fs : List (List UInt8), (∀ f ∈ fs, protoFraming.IsFrame f) ∧ p.stream = fs.flatten
  served : Run.Along Endpoint.step Endpoint.Serves (p.first n) p.callbacks

/-- Taken by itself, its connection is always there. -/
theorem Peer.Regular.live {p : Peer} {n : ℕ} {E : Endpoint} (h : p.Regular n)
    (hfd : 0 ≤ p.accepted.iClientFd) (hE : p.alone n = some E) : E.recv.fate = .live := by
  obtain ⟨fs, hfs, hstream⟩ := h.packets
  have hfits := h.fits
  have hwaits := h.waits
  have hserved := h.served
  unfold Peer.alone at hE
  unfold Peer.first at hE hwaits hserved
  rw [hstream] at hE hwaits hserved hfits
  rw [Framing.parse_flatten hfs] at hfits
  exact (Endpoint.live_always (lt_of_le_of_ne hfd (Ne.symm h.fd)) _ _ _ n hfs hfits h.malloc
    h.writes hwaits hserved).exec hE

/-- **A client that is served keeps its connection for as long as it is active, and has its
replies**, in a run as above and whatever the other clients do while the worker runs. -/
theorem service_serves_regular {fd N : ℤ} {o : Worker.Creation} {e : Epoll} {w : Worker}
    (hproper : o.Proper fd N e) (hnew : Worker.eventBaseCreateFrom fd N o = some w)
    (hclock : o.gettimeofday.Normalised) (hsec : 0 < o.gettimeofday.tv_sec)
    {inputs : List ServiceInput}
    (hadm : Run.Along Service.step Service.Orderly (Service.start w) inputs)
    (htime : Run.Along Service.step Service.InTime (Service.start w) inputs) :
    Run.Always Service.step (fun s => s.reactor.worker.fate = .running →
        ∀ n p, s.peer n = some p → p.Regular n → some n ∉ s.reactor.worker.timeouts →
          ∃ c conn replies, s.reactor.worker.conns c = some conn ∧ conn.serial = n
            ∧ p.tx ++ conn.unsent = replies.flatten
            ∧ List.Forall₂ RepliesTo ((protoFraming.parse p.read).filter AsksReply) replies)
      (Service.start w) inputs := by
  refine (Service.accounted_always hproper hnew hclock hsec hadm htime).mono
    (fun s h hrun n p hp hregular hkept => ?_)
  have hmirrors := h.dated.mirrors
  obtain ⟨E, hE, -⟩ := hmirrors.alike n p hp
  obtain ⟨c, conn, hc, hn⟩ := h.present hrun n p E hp hE
    (hregular.live (hmirrors.fd n p hp) hE) hkept
  obtain ⟨replies, hsent, hall, -⟩ :=
    (hmirrors.answers hp hregular.toCourteous).live hrun c conn hc hn
  exact ⟨c, conn, replies, hc, hn, hsent, hall⟩

/-- The first of the two clients of `idleClients` has kept its connection. -/
theorem service_serves_regular_sample :
    ∃ s p c conn replies,
      Run.exec Service.step (Service.start ruledWorker) (idleClients ++ [.expire]) = some s
      ∧ s.peer 0 = some p ∧ s.reactor.worker.conns c = some conn ∧ conn.serial = 0
      ∧ p.tx ++ conn.unsent = replies.flatten
      ∧ List.Forall₂ RepliesTo ((protoFraming.parse p.read).filter AsksReply) replies := by
  have hread : ((Run.exec Service.step (Service.start ruledWorker) (idleClients ++ [.expire])).bind
      (fun s => (s.peer 0).map (fun p => (s, p)))).any (fun sp => decide (
        sp.1.reactor.worker.fate = .running ∧ some 0 ∉ sp.1.reactor.worker.timeouts
        ∧ sp.2.accepted.iClientFd ≠ 0 ∧ sp.2.stream = [echoFrame].flatten
        ∧ (∀ a ∈ sp.2.callbacks, Endpoint.Allocates a)
        ∧ (∀ a ∈ sp.2.callbacks, Endpoint.Writes a)
        ∧ Run.Along Endpoint.step Endpoint.Waits (sp.2.first 0) sp.2.callbacks
        ∧ Run.Along Endpoint.step Endpoint.Serves (sp.2.first 0) sp.2.callbacks)) = true := by
    decide +kernel
  obtain ⟨⟨s, p⟩, hsp, hread⟩ := (Option.any_eq_true _ _).mp hread
  obtain ⟨s', hexec, hsp⟩ := Option.bind_eq_some_iff.mp hsp
  obtain ⟨p', hp, heq⟩ := Option.map_eq_some_iff.mp hsp
  obtain ⟨rfl, rfl⟩ := Prod.mk.inj heq
  obtain ⟨hrun, hkept, hfd, hstream, hmalloc, hwrites, hwaits, hserves⟩ := of_decide_eq_true hread
  have hframes : ∀ f ∈ [echoFrame], protoFraming.IsFrame f := by decide +kernel
  have hfits : ∀ f ∈ protoFraming.parse p'.stream, AsksReply f →
      (replyLen f : ℤ) ≤ maxTcpBufSize := by
    rw [hstream, Framing.parse_flatten hframes]
    decide +kernel
  obtain ⟨c, conn, replies, hc, hn, hsent, hall⟩ :=
    (service_serves_regular ruledCreation_proper ruledWorker_created (by decide) (by decide)
      (by decide +kernel) (by decide +kernel)).exec hexec hrun 0 p' hp
      ⟨⟨hfd, hfits, hmalloc, hwrites, hwaits⟩, ⟨_, hframes, hstream⟩, hserves⟩ hkept
  exact ⟨s', p', c, conn, replies, hexec, hp, hc, hn, hsent, hall⟩
