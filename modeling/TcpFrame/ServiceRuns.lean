import TcpFrame.ConnReplyRuns
import TcpFrame.Service
import TcpFrame.WorkerSix

/-!
# Each client is served as if it were alone

A worker takes its clients in turn, in one loop, over one table of slots, one interest
list, and descriptors and memory that it uses again. None of this is to be noticed by a
client. `Peer.alone` is its connection taken by itself: one `Endpoint` over the stream of
that peer, given the callbacks that were made for it and no others. In every state of every
run of the loop, what has been read from a peer and written to it is what that connection
alone has read and written, and a connection that is there is in the same state as that
one, buffers and all (`service_serves_alone`).

This is so up to the end of the run, which comes with the first callback that leaves the
memory of its connection, of whichever client it is. So what holds of every run of a lone
connection holds of each client of a worker, and nothing else that the others do matters.
`service_replies_in_order` is that for the replies: a client that waits for its reply gets
one to each request, in order.
-/

variable {start : Set ℤ} {p p' : Peer} {conn e : ConnFd} {E : Endpoint} {n : ℕ}
  {peer : ℕ → Option Peer} {now : TimeVal}

/-! ## One step of a lone connection -/

/-- **What has passed is the same** for a peer and a connection taken by itself. -/
structure Peer.Alike (p : Peer) (E : Endpoint) : Prop where
  wire : E.recv.wire = p.wire
  rx : E.recv.rx = p.rx
  tx : E.tx = p.tx

/-- One callback more. -/
theorem Peer.alone_after (h : p.alone n = some E) (now : TimeVal) (conn : ConnFd)
    (a : ConnEvent) :
    (p.after now conn a).alone n = E.step a := by
  have hconcat : Run.exec Endpoint.step (p.first n) (p.callbacks ++ [a]) = E.step a := by
    rw [Run.exec_concat, show Run.exec Endpoint.step (p.first n) p.callbacks = some E from h]
    rfl
  rw [← hconcat]
  cases a with
  | readable e => rfl
  | writable outcomes => rfl

/-- **A receive callback** of the two. -/
theorem Peer.Alike.readable (h : p.Alike E) (hconn : E.recv.conn = conn)
    (hlive : E.recv.fate = .live) (e : Readable) {r : RecvResult}
    (hr : r = processRecvCallback conn conn.iFd e.malloc e.head e.body (p.unread e.arrives)) :
    ∃ E', E.step (.readable e) = some E' ∧ (p.after now conn (.readable e)).Alike E'
      ∧ E'.recv.conn = r.conn ∧ E'.recv.fate = r.fate
      ∧ E'.writable = writableAfter E.writable r.calls := by
  have hresult : E.recv.result e = r := by
    unfold Receiver.result
    rw [hr, hconn, h.wire, h.rx]
    rfl
  obtain ⟨E', hstep⟩ := Endpoint.exists_step_readable (e := e) hlive
  obtain ⟨-, hrecv, hconn', htx, -, -⟩ := Endpoint.step_readable hstep
  have hwritable := Endpoint.writable_readable hstep
  rw [Receiver.step, if_pos hlive] at hrecv
  rw [hresult] at hconn' hwritable hrecv
  refine ⟨E', hstep, ⟨?_, ?_, htx.trans h.tx⟩, hconn', ?_, hwritable⟩
  · rw [← Option.some.inj hrecv, h.wire]
    rfl
  · rw [← Option.some.inj hrecv, hr]
    rfl
  · rw [← Option.some.inj hrecv]

/-- **A send callback**, where output is asked for. -/
theorem Peer.Alike.writable (h : p.Alike E) (hconn : E.recv.conn = conn)
    (hlive : E.recv.fate = .live) (hasked : E.writable = true) (outcomes : List WriteOutcome)
    {r : SendResult} (hr : r = processSendCallback conn conn.iFd outcomes) :
    ∃ E', E.step (.writable outcomes) = some E' ∧ (p.after now conn (.writable outcomes)).Alike E'
      ∧ E'.recv.conn = r.conn
      ∧ E'.recv.fate = (if decide (.destroyConn ∈ r.calls) then .destroyed else .live)
      ∧ E'.writable = writableAfter E.writable r.calls := by
  rw [← hconn] at hr ⊢
  have hstep : E.step (.writable outcomes) = some
      { E with
        recv := { E.recv with
          conn := r.conn, fate := if decide (.destroyConn ∈ r.calls) then .destroyed else .live }
        writable := writableAfter E.writable r.calls
        tx := E.tx ++ r.tx
        sendDestroyed := decide (.destroyConn ∈ r.calls) } := by
    unfold Endpoint.step
    dsimp only
    rw [if_pos hlive, if_pos hasked, hr]
  refine ⟨_, hstep, ⟨h.wire, h.rx, ?_⟩, rfl, rfl, rfl⟩
  rw [hr]
  exact congrArg (· ++ _) h.tx

/-! ## The connections of a worker -/

namespace Worker

variable {w w' : Worker} {a : Accepted} {c d : ConnPtr} {batch : Set ℤ}

/-- **The connection `conn` is that of `E`.** -/
structure Shows (w : Worker) (conn : ConnFd) (E : Endpoint) : Prop where
  eq : E.recv.conn = conn
  live : E.recv.fate = .live
  writable : E.writable = w.asksWritable conn.iFd

/-- **Each connection is that of its peer taken by itself**, and has a number of its own. -/
structure Mirrors (w : Worker) (peer : ℕ → Option Peer) : Prop where
  lt : ∀ c conn, w.conns c = some conn → conn.serial < w.nextSerial
  inj : ∀ c d conn e, w.conns c = some conn → w.conns d = some e → conn.serial = e.serial → c = d
  live : ∀ c conn, w.conns c = some conn → ∃ p E, peer conn.serial = some p
    ∧ p.alone conn.serial = some E ∧ w.Shows conn E

theorem Shows.same (h : w.Shows conn E) (hasks : w'.asksWritable conn.iFd = w.asksWritable conn.iFd) :
    w'.Shows conn E := ⟨h.eq, h.live, h.writable.trans hasks.symm⟩

/-- What leaves all connections alone. -/
theorem Mirrors.leavesAlone (h : w.Mirrors peer) (halone : w.LeavesAlone Set.univ w') :
    w'.Mirrors peer where
  lt c conn hc := by
    rw [halone.nextSerial]
    exact h.lt c conn (halone.conns c trivial conn hc)
  inj c d conn e hc hd := h.inj c d conn e (halone.conns c trivial conn hc)
    (halone.conns d trivial e hd)
  live c conn hc := by
    obtain ⟨p, E, hp, hE, hshows⟩ := h.live c conn (halone.conns c trivial conn hc)
    exact ⟨p, E, hp, hE, hshows.same (halone.asks c trivial conn hc)⟩

/-- **A new connection.** -/
theorem Mirrors.admitted (h : w.Mirrors peer) (hbooks : w.Books start batch)
    (hcan : w.CanAccept a) (hadmitted : w.Admitted a w') (stream : List UInt8)
    (now : TimeVal) : w'.Mirrors (Function.update peer w.nextSerial (some (.new a stream now))) := by
  obtain ⟨hclosed, -, -, hfree⟩ := hcan
  -- what is there afterwards is the new connection, or was there before
  have hcases : ∀ d e, w'.conns d = some e →
      d = a.pstNewConnFd ∧ e = w.accepted a ∨ d ≠ a.pstNewConnFd ∧ w.conns d = some e := by
    intro d e hd
    rw [hadmitted.conns] at hd
    exact PartialMap.update_some_eq_some.mp hd
  have hold : ∀ d e, w.conns d = some e → e.serial ≠ w.nextSerial :=
    fun d e hd => ne_of_lt (h.lt d e hd)
  refine ⟨fun d e hd => ?_, fun d d' e e' hd hd' heq => ?_, fun d e hd => ?_⟩
  · rw [hadmitted.nextSerial]
    rcases hcases d e hd with ⟨-, rfl⟩ | ⟨-, hd⟩
    · exact Nat.lt_succ_self _
    · exact Nat.lt_succ_of_lt (h.lt d e hd)
  · rcases hcases d e hd with ⟨rfl, rfl⟩ | ⟨-, hd⟩
    · rcases hcases d' e' hd' with ⟨rfl, -⟩ | ⟨-, hd'⟩
      · rfl
      · exact absurd heq.symm (hold d' e' hd')
    · rcases hcases d' e' hd' with ⟨-, rfl⟩ | ⟨-, hd'⟩
      · exact absurd heq (hold d e hd)
      · exact h.inj d d' e e' hd hd' heq
  · rcases hcases d e hd with ⟨-, rfl⟩ | ⟨-, hd⟩
    · refine ⟨.new a stream now, (Peer.new a stream now).first w.nextSerial, Function.update_self ..,
        rfl, rfl, rfl, ?_⟩
      show false = (w'.table.epoll.fd a.iClientFd).events.epollout
      rw [hadmitted.kernel]
      rfl
    · obtain ⟨p, E, hp, hE, hshows⟩ := h.live d e hd
      have hfd : e.iFd ≠ a.iClientFd := fun heq =>
        (hbooks.opened e.iFd).mpr (Or.inr ⟨d, e, hd, rfl⟩) (by rw [heq, hclosed])
      refine ⟨p, E, ?_, hE, hshows.same (asksWritable_of_sameBut hadmitted.others hfd)⟩
      rw [Function.update_of_ne (hold d e hd)]
      exact hp

/-- **A callback of one connection.** -/
theorem Mirrors.callback (h : w.Mirrors peer) (hc : w.conns c = some conn)
    (halone : w.LeavesAlone {c}ᶜ w')
    (hown : ∀ e, w'.conns c = some e → e.serial = conn.serial
      ∧ ∃ E', p'.alone conn.serial = some E' ∧ w'.Shows e E') :
    w'.Mirrors (Function.update peer conn.serial (some p')) := by
  -- the numbers are those of before
  have hserial : ∀ d e, w'.conns d = some e →
      ∃ e₀, w.conns d = some e₀ ∧ e.serial = e₀.serial := by
    intro d e hd
    by_cases hdc : d = c
    · rw [hdc] at hd ⊢
      exact ⟨conn, hc, (hown e hd).1⟩
    · exact ⟨e, halone.conns d hdc e hd, rfl⟩
  refine ⟨fun d e hd => ?_, fun d d' e e' hd hd' heq => ?_, fun d e hd => ?_⟩
  · obtain ⟨e₀, hd₀, heq⟩ := hserial d e hd
    rw [heq, halone.nextSerial]
    exact h.lt d e₀ hd₀
  · obtain ⟨e₀, hd₀, heq₀⟩ := hserial d e hd
    obtain ⟨e₁, hd₁, heq₁⟩ := hserial d' e' hd'
    exact h.inj d d' e₀ e₁ hd₀ hd₁ (heq₀.symm.trans (heq.trans heq₁))
  · by_cases hdc : d = c
    · rw [hdc] at hd
      obtain ⟨heq, E', hE', hshows⟩ := hown e hd
      rw [heq]
      exact ⟨p', E', Function.update_self .., hE', hshows⟩
    · have hd₀ := halone.conns d hdc e hd
      obtain ⟨p, E, hp, hE, hshows⟩ := h.live d e hd₀
      refine ⟨p, E, ?_, hE, hshows.same (halone.asks d hdc e hd)⟩
      rw [Function.update_of_ne (fun heq => hdc (h.inj d c e conn hd₀ hc heq))]
      exact hp

end Worker

/-! ## Runs of the loop -/

namespace Service

variable {s s' : Service} {c : ConnPtr} {ev : EpollEvent}

/-- **Every peer is served as if it were alone.** -/
structure Mirrors (start : Set ℤ) (s : Service) : Prop where
  order : s.reactor.InOrder start
  fd : ∀ n p, s.peer n = some p → 0 ≤ p.accepted.iClientFd
  alike : ∀ n p, s.peer n = some p → ∃ E, p.alone n = some E ∧ p.Alike E
  worker : s.reactor.worker.fate = .running → s.reactor.worker.Mirrors s.peer

theorem unread_eq (hconn : s.nextConn = some conn) (hp : s.peer conn.serial = some p)
    (arrives : ℕ) : s.unread arrives = p.unread arrives := by
  unfold unread
  rw [hconn, Option.bind_some, hp]
  rfl

theorem atPeer_eq (hconn : s.nextConn = some conn) (hp : s.peer conn.serial = some p)
    (a : ConnEvent) :
    s.atPeer a = Function.update s.peer conn.serial
      (some (p.after s.reactor.worker.pstTimeCache conn a)) := by
  unfold atPeer
  rw [hconn]
  dsimp only
  rw [hp, Option.map_some]

/-- A callback does not make another peer of one. -/
theorem accepted_after (a : ConnEvent) : (p.after now conn a).accepted = p.accepted := by
  cases a with
  | readable e => rfl
  | writable outcomes => rfl

/-- **A callback of the connection `conn` at `c`**, after which its peer is `p'`: it does
what it does to `conn` taken by itself. -/
structure Served (s : Service) (c : ConnPtr) (conn : ConnFd) (p' : Peer) (E' : Endpoint)
    (w' : Worker) : Prop where
  live : s.reactor.worker.conns c = some conn
  fd : 0 ≤ p'.accepted.iClientFd
  alone : p'.alone conn.serial = some E'
  alike : p'.Alike E'
  serial : E'.recv.conn.serial = conn.serial
  handles : w'.fate = .running → ∃ calls,
    s.reactor.worker.Handles c conn (if E'.recv.fate = .live then some E'.recv.conn else none)
        calls w'
      ∧ E'.writable = writableAfter (s.reactor.worker.asksWritable conn.iFd) calls

/-- **What a callback can do**: nothing, or there is a new connection, or it is a callback
of a connection. -/
inductive Turn (s : Service) (stream : List UInt8) (w' : Worker) : (ℕ → Option Peer) → Prop
  | idle (overrun : Bool) (invoked : List Invocation)
    (heq : w'.fate = .running → w' = s.reactor.worker.noted overrun invoked) :
    Turn s stream w' s.peer
  | admitted (overrun : Bool) (invoked : List Invocation) (a : Accepted)
    (hcan : s.reactor.worker.CanAccept a)
    (hadmitted : w'.fate = .running → (s.reactor.worker.noted overrun invoked).Admitted a w') :
    Turn s stream w' (Function.update s.peer s.reactor.worker.nextSerial
      (some (.new a stream s.reactor.worker.pstTimeCache)))
  | served (c : ConnPtr) (conn : ConnFd) (p' : Peer) (E' : Endpoint)
    (hserved : s.Served c conn p' E' w') :
    Turn s stream w' (Function.update s.peer conn.serial (some p'))

/-- **What a callback does.** -/
theorem Mirrors.turn (h : s.Mirrors start) {input : EventInput} {arrives : ℕ}
    {stream : List UInt8} (hadm : s.Orderly (.callback input arrives stream))
    {reactor : Reactor} (hstep : s.reactor.step (.callback { input with rx := s.unread arrives })
      = some reactor) :
    s.Turn stream reactor.worker (s.nextPeers (.callback input arrives stream)) := by
  have hrun := Reactor.running_of_step hstep
  obtain ⟨ev, hev, overrun, invoked, hhalf⟩ := h.order.half hstep
  have hnoted := (h.order.books hrun).noted overrun invoked
  unfold nextPeers
  cases hhalf with
  | idle hnext heq =>
    simp only [hnext]
    exact .idle overrun invoked (fun _ => heq)
  | accept hnext heq =>
    simp only [hnext]
    have haccepted := h.order.accepted hadm hrun hev hnext heq
    cases hclient : Worker.client input.accept with
    | none =>
      refine .idle overrun invoked (fun hend => ?_)
      rcases haccepted hend with ⟨-, hsame⟩ | ⟨a, ha, -⟩
      · exact hsame
      · rw [ha] at hclient
        exact absurd hclient (by simp [Worker.client])
    | some a =>
      refine .admitted overrun invoked a (hadm hnext a hclient) (fun hend => ?_)
      rcases haccepted hend with ⟨hnone, -⟩ | ⟨a', ha', hadmitted⟩
      · exact absurd (hnone.symm.trans hclient) (by simp)
      · rw [ha'] at hclient
        obtain rfl : a' = a := Option.some.inj hclient
        exact hadmitted
  | recv c conn hc hfd harg hnext heq =>
    simp only [hnext]
    obtain ⟨p, E, hp, hE, hshows⟩ := (h.worker hrun).live c conn hc
    have hconn : s.nextConn = some conn := Reactor.nextConn_eq hev harg hc
    rw [atPeer_eq hconn hp]
    rw [unread_eq hconn hp, ← hfd] at heq
    obtain ⟨E₀, hE₀, halike⟩ := h.alike conn.serial p hp
    obtain rfl : E₀ = E := Option.some.inj (hE₀.symm.trans hE)
    obtain ⟨E', hstepE, halike', hconn', hfate', hwritable'⟩ := halike.readable hshows.eq
      hshows.live ⟨arrives, input.head, input.body, input.malloc⟩ rfl
    rw [hshows.writable] at hwritable'
    refine .served c conn _ E' ⟨hc, ?_, ?_, halike', ?_, fun hend => ⟨_, ?_, hwritable'⟩⟩
    · rw [accepted_after]
      exact h.fd conn.serial p hp
    · rw [Peer.alone_after hE, hstepE]
    · rw [hconn']
      exact processRecvCallback_sameConn.serial
    · rw [heq] at hend ⊢
      rw [hfate', hconn']
      exact (hnoted.recv_own hrun hc { input with rx := p.unread arrives } conn.iFd hend
        rfl).of_noted
  | send c conn hc hfd harg hnext hasks heq =>
    simp only [hnext]
    obtain ⟨p, E, hp, hE, hshows⟩ := (h.worker hrun).live c conn hc
    rw [atPeer_eq (Reactor.nextConn_eq hev harg hc) hp]
    rw [← hfd] at heq hasks
    obtain ⟨E₀, hE₀, halike⟩ := h.alike conn.serial p hp
    obtain rfl : E₀ = E := Option.some.inj (hE₀.symm.trans hE)
    obtain ⟨E', hstepE, halike', hconn', hfate', hwritable'⟩ := halike.writable hshows.eq
      hshows.live (hshows.writable.trans hasks) input.writes rfl
    have hhandles := hnoted.send_own hrun hc { input with rx := s.unread arrives } conn.iFd rfl
    rw [hshows.writable] at hwritable'
    refine .served c conn _ E' ⟨hc, ?_, ?_, halike', ?_, fun _ => ⟨_, ?_, hwritable'⟩⟩
    · rw [accepted_after]
      exact h.fd conn.serial p hp
    · rw [Peer.alone_after hE, hstepE]
    · rw [hconn']
      exact processSendCallback_calls.1.serial
    · rw [heq, hfate', hconn']
      by_cases hdestroy : .destroyConn ∈ (processSendCallback conn conn.iFd input.writes).calls
      · rw [if_pos hdestroy] at hhandles
        rw [decide_eq_true hdestroy]
        exact hhandles.of_noted
      · rw [if_neg hdestroy] at hhandles
        rw [decide_eq_false hdestroy]
        exact hhandles.of_noted

/-- **What happens to one peer** is nothing to the others. -/
theorem Mirrors.update (h : s.Mirrors start) {reactor : Reactor} (horder : reactor.InOrder start)
    (hfd : 0 ≤ p'.accepted.iClientFd)
    (halike : ∃ E, p'.alone n = some E ∧ p'.Alike E)
    (hworker : reactor.worker.fate = .running →
      reactor.worker.Mirrors (Function.update s.peer n (some p'))) :
    Mirrors start ⟨reactor, Function.update s.peer n (some p')⟩ := by
  refine ⟨horder, fun m p hp => ?_, fun m p hp => ?_, hworker⟩
  all_goals
    rcases PartialMap.update_some_eq_some.mp hp with ⟨rfl, rfl⟩ | ⟨-, hp⟩
  · exact hfd
  · exact h.fd m p hp
  · exact halike
  · exact h.alike m p hp

/-- **The step lemma**, for a callback. -/
theorem Mirrors.callback (h : s.Mirrors start) {stream : List UInt8} {reactor : Reactor}
    (hrun : s.reactor.worker.fate = .running) (horder : reactor.InOrder start)
    (hturn : s.Turn stream reactor.worker peer) : Mirrors start ⟨reactor, peer⟩ := by
  have hmirrors := h.worker hrun
  cases hturn with
  | idle overrun invoked heq =>
    refine ⟨horder, h.fd, h.alike, fun hend => ?_⟩
    rw [heq hend]
    exact hmirrors.leavesAlone Worker.leavesAlone_noted
  | admitted overrun invoked a hcan hadmitted =>
    exact h.update horder hcan.2.1 ⟨_, rfl, rfl, rfl, rfl⟩ (fun hend =>
      (hmirrors.leavesAlone Worker.leavesAlone_noted).admitted
        ((h.order.books hrun).noted overrun invoked) hcan (hadmitted hend) stream _)
  | served c conn p' E' hserved =>
    refine h.update horder hserved.fd ⟨E', hserved.alone, hserved.alike⟩ (fun hend => ?_)
    obtain ⟨calls, hhandles, hwritable⟩ := hserved.handles hend
    refine hmirrors.callback hserved.live hhandles.alone (fun e he => ?_)
    obtain ⟨hfate, heq⟩ := Option.ite_none_right_eq_some.mp (hhandles.left_eq he)
    have heq := Option.some.inj heq
    refine ⟨heq ▸ hserved.serial, E', hserved.alone, heq, hfate, ?_⟩
    rw [hhandles.asks e he, hwritable]

/-- **The step lemma.** -/
theorem Mirrors.step (h : s.Mirrors start) {input : ServiceInput} (hadm : s.Orderly input)
    (hstep : s.step input = some s') : s'.Mirrors start := by
  obtain ⟨reactor, hreactor, rfl⟩ := Option.map_eq_some_iff.mp hstep
  have hrun := Reactor.running_of_step hreactor
  have horder : reactor.InOrder start := h.order.step hadm hreactor
  cases input with
  | wait now events =>
    refine ⟨horder, h.fd, h.alike, fun _ => (h.worker hrun).leavesAlone ?_⟩
    rw [Reactor.step_wait hreactor]
    exact Worker.leavesAlone_of_same rfl rfl rfl
  | callback input arrives stream => exact h.callback hrun horder (h.turn hadm hreactor)
  | expire =>
    refine ⟨horder, h.fd, h.alike, fun hend => (h.worker hrun).leavesAlone ?_⟩
    rw [Reactor.step_expire hreactor] at hend ⊢
    exact (h.order.books hrun).expire_leavesAlone _ hend

/-- **A new worker has no peers.** -/
theorem Mirrors.new {fd N : ℤ} {o : Worker.Creation} {e : Epoll} {w : Worker}
    (hproper : o.Proper fd N e) (hnew : Worker.eventBaseCreateFrom fd N o = some w) :
    (Service.start w).Mirrors e.opened := by
  obtain ⟨-, -, -, -, -, -, -, -, hconns, -⟩ := Worker.eventBaseCreateFrom_eq_some hnew
  have hnone : ∀ {c conn}, w.conns c = some conn → False := fun {c conn} hc => by
    rw [hconns c] at hc
    exact absurd hc (by simp)
  exact
    { order := .new hproper hnew
      fd := fun n p hp => absurd hp (by simp [Service.start])
      alike := fun n p hp => absurd hp (by simp [Service.start])
      worker := fun _ => ⟨fun c conn hc => (hnone hc).elim, fun c d conn e hc => (hnone hc).elim,
        fun c conn hc => (hnone hc).elim⟩ }

/-- **What a service has come to**: what has passed between the worker and each peer is
what has passed in the callbacks of its connection taken by itself, and if the connection
is there, it is in the state of that one. -/
structure ServesAlone (s : Service) : Prop where
  peers : ∀ n p, s.peer n = some p → ∃ E, p.alone n = some E ∧ p.Alike E
  live : s.reactor.worker.fate = .running → ∀ c conn, s.reactor.worker.conns c = some conn →
    ∃ p E, s.peer conn.serial = some p ∧ p.alone conn.serial = some E
      ∧ s.reactor.worker.Shows conn E

theorem mirrors_always {fd N : ℤ} {o : Worker.Creation} {e : Epoll} {w : Worker}
    (hproper : o.Proper fd N e) (hnew : Worker.eventBaseCreateFrom fd N o = some w)
    {inputs : List ServiceInput}
    (hadm : Run.Along Service.step Service.Orderly (Service.start w) inputs) :
    Run.Always Service.step (Service.Mirrors e.opened) (Service.start w) inputs :=
  Run.always_of_along (fun _ _ _ h hadm hstep => h.step hadm hstep) (.new hproper hnew) hadm

end Service

/-- **Each client is served as if it were alone**, in every run of the loop of a worker
that `EventBaseCreate` returned, up to the first callback that leaves its memory: however
the clients come and go, and whatever becomes of their timers. -/
theorem service_serves_alone {fd N : ℤ} {o : Worker.Creation} {e : Epoll} {w : Worker}
    (hproper : o.Proper fd N e) (hnew : Worker.eventBaseCreateFrom fd N o = some w)
    {inputs : List ServiceInput}
    (hadm : Run.Along Service.step Service.Orderly (Service.start w) inputs) :
    Run.Always Service.step Service.ServesAlone (Service.start w) inputs :=
  (Service.mirrors_always hproper hnew hadm).mono
    (fun _ h => ⟨h.alike, fun hrun => (h.worker hrun).live⟩)

/-! ## Replies -/

/-- **A peer that waits for its replies** on a descriptor that is not `0`, with a
connection that finds memory and can write, and requests whose replies fit the send
buffer. It is not asked what the other ones do. -/
structure Peer.Courteous (p : Peer) (n : ℕ) : Prop where
  fd : p.accepted.iClientFd ≠ 0
  fits : ∀ f ∈ protoFraming.parse p.stream, AsksReply f → (replyLen f : ℤ) ≤ maxTcpBufSize
  malloc : ∀ a ∈ p.callbacks, Endpoint.Allocates a
  writes : ∀ a ∈ p.callbacks, Endpoint.Writes a
  waits : Run.Along Endpoint.step Endpoint.Waits (p.first n) p.callbacks

/-- **A peer has its replies.** What was written to it is the front of the replies to the
requests it has sent, in order. If its connection is there, what was written and what is
queued is one reply to each request that was read, and while something is queued the
kernel watches for output. -/
structure Service.Answers (s : Service) (n : ℕ) (p : Peer) : Prop where
  front : ∃ requests replies, requests <+: protoFraming.parse p.stream
    ∧ List.Forall₂ RepliesTo (requests.filter AsksReply) replies ∧ p.tx <+: replies.flatten
  live : s.reactor.worker.fate = .running → ∀ c conn, s.reactor.worker.conns c = some conn →
    conn.serial = n → ∃ replies, p.tx ++ conn.unsent = replies.flatten
      ∧ List.Forall₂ RepliesTo ((protoFraming.parse p.read).filter AsksReply) replies
      ∧ (0 < conn.iSendPacketLen → s.reactor.worker.asksWritable conn.iFd = true)

/-- What was read of the stream of a lone connection. -/
theorem Peer.Alike.parse_read (h : p.Alike E) (hinv : E.recv.Inv p.stream)
    (hlive : E.recv.fate = .live) : protoFraming.parse p.read = E.recv.frames := by
  obtain ⟨q, hq, hstream⟩ := hinv.live hlive
  rw [h.rx, h.wire, ← List.append_assoc] at hstream
  have hread : p.read = E.recv.frames.flatten ++ q := by
    unfold Peer.read
    rw [← hstream, List.length_append, Nat.add_sub_cancel]
    exact List.take_left
  rw [hread, Framing.parse_flatten_append hinv.isFrame, hq.isPartial.parse, List.append_nil]

theorem Service.Mirrors.answers {s : Service} (h : s.Mirrors start) (hp : s.peer n = some p)
    (hcourteous : p.Courteous n) : s.Answers n p := by
  have hfd : 0 < p.accepted.iClientFd :=
    lt_of_le_of_ne (h.fd n p hp) (Ne.symm hcourteous.fd)
  obtain ⟨E, hE, halike⟩ := h.alike n p hp
  have hreplying : E.Replying p.stream :=
    (Endpoint.replying_always hfd _ _ _ n hcourteous.fits hcourteous.malloc hcourteous.writes
      hcourteous.waits).exec hE
  obtain ⟨replies, hsent, hall⟩ := hreplying.sent
  rw [halike.tx] at hsent
  refine ⟨⟨E.recv.frames, replies, ?_, hall, ?_⟩, fun hrun c conn hc hn => ?_⟩
  · obtain ⟨rest, hrest⟩ := hreplying.inv.front
    exact Framing.prefix_parse hreplying.inv.isFrame hrest
  · rw [← hsent]
    exact List.prefix_append _ _
  · -- the connection is that of `E`
    obtain ⟨p', E', hp', hE', hshows⟩ := (h.worker hrun).live c conn hc
    rw [hn] at hp' hE'
    obtain rfl : p = p' := Option.some.inj (hp.symm.trans hp')
    obtain rfl : E = E' := Option.some.inj (hE.symm.trans hE')
    rw [← hshows.eq]
    refine ⟨replies, hsent, ?_, fun hqueued => ?_⟩
    · rw [halike.parse_read hreplying.inv hshows.live]
      exact hall
    · rw [hshows.eq, ← hshows.writable]
      exact hreplying.asked hqueued

/-- **A courteous client gets its replies, in order**, in every run of the loop of a
worker, up to the first callback that leaves its memory, whatever else the other clients
do. -/
theorem service_replies_in_order {fd N : ℤ} {o : Worker.Creation} {e : Epoll} {w : Worker}
    (hproper : o.Proper fd N e) (hnew : Worker.eventBaseCreateFrom fd N o = some w)
    {inputs : List ServiceInput}
    (hadm : Run.Along Service.step Service.Orderly (Service.start w) inputs) :
    Run.Always Service.step (fun s => ∀ n p, s.peer n = some p → p.Courteous n → s.Answers n p)
      (Service.start w) inputs :=
  (Service.mirrors_always hproper hnew hadm).mono
    (fun _ h _ _ hp hcourteous => h.answers hp hcourteous)

/-- A round at the second `t` with input or output on the descriptor `fd`, of the client
`i`. -/
def clientRound (i : ℕ) (t fd : ℤ) (epollout : Bool) (arrives : ℕ) (stream : List UInt8) :
    List ServiceInput :=
  let input : EventInput := { clientInput i with
    head := []
    malloc := zeroMalloc
    writes := [.data 9, .data 9] }
  [.wait ⟨t, 0⟩ (some [⟨fd, !epollout, epollout, false, false⟩]), .callback input arrives stream,
    .callback input arrives stream, .expire]

/-- Two clients. The first one sends an echo request in two pieces and gets it back; in
between the second one sends what is not a packet, and is thrown out. -/
def twoClients : List ServiceInput :=
  clientRound 1 11 3 false 0 echoFrame ++ clientRound 2 12 3 false 0 [1, 2, 3, 4, 5]
    ++ clientRound 1 13 4 false 6 [] ++ clientRound 2 14 5 false 5 []
    ++ clientRound 1 15 4 false 8 [] ++ clientRound 1 16 4 true 0 []

theorem service_serves_alone_sample :
    Run.Always Service.step Service.ServesAlone (Service.start ruledWorker) twoClients :=
  service_serves_alone ruledCreation_proper ruledWorker_created (by decide +kernel)

/-- The first of the two clients has waited, and has its reply. -/
theorem service_replies_in_order_sample :
    ∃ s p, Run.exec Service.step (Service.start ruledWorker) twoClients = some s
      ∧ s.peer 0 = some p ∧ p.tx = echoFrame ∧ s.Answers 0 p := by
  have hread : ((Run.exec Service.step (Service.start ruledWorker) twoClients).bind
      (fun s => s.peer 0)).any (fun p => decide (p.tx = echoFrame
        ∧ p.accepted.iClientFd ≠ 0 ∧ p.stream = [echoFrame].flatten
        ∧ (∀ a ∈ p.callbacks, Endpoint.Allocates a) ∧ (∀ a ∈ p.callbacks, Endpoint.Writes a)
        ∧ Run.Along Endpoint.step Endpoint.Waits (p.first 0) p.callbacks)) = true := by
    decide +kernel
  obtain ⟨p, hp, hcourteous⟩ := (Option.any_eq_true _ _).mp hread
  obtain ⟨s, hexec, hp⟩ := Option.bind_eq_some_iff.mp hp
  obtain ⟨htx, hfd, hstream, hmalloc, hwrites, hwaits⟩ := of_decide_eq_true hcourteous
  refine ⟨s, p, hexec, hp, htx,
    (service_replies_in_order ruledCreation_proper ruledWorker_created
      (by decide +kernel)).exec hexec 0 p hp ⟨hfd, ?_, hmalloc, hwrites, hwaits⟩⟩
  rw [hstream, Framing.parse_flatten (by decide +kernel)]
  decide +kernel
