import TcpFrame.ConnSendRuns
import TcpFrame.WorkerBooks

/-!
# One connection among many

What a worker does for one connection is nothing to the others: their data stay as they
are, and so does what the kernel watches for at their descriptors, as long as they are
there (`Worker.LeavesAlone`). To its own connection it does what the callback says and
what its calls to the reactor say (`Worker.Handles`), although these go through
the slots and the interest list that all connections share.

It is the books that make it so: no two connections share a descriptor, and each slot is
the one of its connection.
-/

namespace Worker

variable {start batch : Set ℤ} {w w' w'' : Worker} {c d : ConnPtr} {conn conn' e : ConnFd}
  {fd : ℤ} {realloc : Bool} {K : Set ConnPtr} {calls : List ReactorCall}

/-- Whether the kernel watches a descriptor for output. -/
def asksWritable (w : Worker) (fd : ℤ) : Bool := (w.table.epoll.fd fd).events.epollout

/-- **The connections in `K` are left alone**: those that are there afterwards were there
before, with the same data, and the kernel watches their descriptors as before. -/
structure LeavesAlone (w : Worker) (K : Set ConnPtr) (w' : Worker) : Prop where
  conns : ∀ d ∈ K, ∀ e, w'.conns d = some e → w.conns d = some e
  asks : ∀ d ∈ K, ∀ e, w'.conns d = some e → w'.asksWritable e.iFd = w.asksWritable e.iFd
  nextSerial : w'.nextSerial = w.nextSerial

theorem leavesAlone_of_same (hconns : w'.conns = w.conns) (hepoll : w'.table.epoll = w.table.epoll)
    (hserial : w'.nextSerial = w.nextSerial) : w.LeavesAlone K w' where
  conns d _ e he := by
    rw [← hconns]
    exact he
  asks d _ e _ := by
    unfold asksWritable
    rw [hepoll]
  nextSerial := hserial

theorem LeavesAlone.refl : w.LeavesAlone K w := leavesAlone_of_same rfl rfl rfl

theorem LeavesAlone.trans (h : w.LeavesAlone K w') (h' : w'.LeavesAlone K w'') :
    w.LeavesAlone K w'' where
  conns d hd e he := h.conns d hd e (h'.conns d hd e he)
  asks d hd e he := (h'.asks d hd e he).trans (h.asks d hd e (h'.conns d hd e he))
  nextSerial := h'.nextSerial.trans h.nextSerial

/-- A descriptor that is not touched is watched as before. -/
theorem asksWritable_of_sameBut (hbut : w.table.SameBut fd w'.table) {g : ℤ} (hg : g ≠ fd) :
    w'.asksWritable g = w.asksWritable g := by
  unfold asksWritable
  rw [hbut.kernel g hg]

/-- **What touches one connection and its descriptor** leaves the other ones alone. -/
theorem Books.leavesAlone (h : w.Books start batch) (hc : w.conns c = some conn)
    (hbut : w.table.SameBut conn.iFd w'.table) (hconns : ∀ d ≠ c, w'.conns d = w.conns d)
    (hserial : w'.nextSerial = w.nextSerial) : w.LeavesAlone {c}ᶜ w' where
  conns d hd _ he := (hconns d hd).symm.trans he
  asks d hd e he := asksWritable_of_sameBut hbut
    ((h.own hc).2 d e ((hconns d hd).symm.trans he) hd)
  nextSerial := hserial

/-! ## The calls of a callback -/

/-- **A mild call** does what it says to the interest in its own descriptor. -/
theorem Books.call_own (h : w.Books start batch) (realloc : Bool) (hrun : w.fate = .running)
    (hc : w.conns c = some conn) {call : ReactorCall} (hcall : call.Mild) :
    w.LeavesAlone {c}ᶜ (reactorCall c realloc w call)
      ∧ (reactorCall c realloc w call).asksWritable conn.iFd
        = writableAfter (w.asksWritable conn.iFd) [call] := by
  rw [reactorCall_live hrun hc]
  have hserved := h.served c conn hc
  have hle : conn.iFd ≤ w.table.iFdEventArraySize := le_of_lt hserved.range.2
  unfold serve
  rcases hcall with rfl | rfl | ⟨t, rfl⟩
  · obtain ⟨table, hadd, hbut, hkernel, -⟩ := @eventAdd_spec w.table conn.iFd eventWritable
      .processSendCallback (some c) h.rules hle hserved.isOpen hserved.tracks (Or.inr rfl)
    dsimp only
    rw [hadd]
    refine ⟨h.leavesAlone hc hbut (fun d _ => rfl) rfl, ?_⟩
    show (table.epoll.fd conn.iFd).events.epollout = (w.asksWritable conn.iFd || true)
    rw [hkernel]
    show (_ || true) = _
    rw [Bool.or_true, Bool.or_true]
  · obtain ⟨table, hdel, hbut, hkernel, -⟩ := eventDel_spec (m := eventWritable) h.rules hle
      hserved.tracks
    dsimp only
    rw [hdel]
    refine ⟨h.leavesAlone hc hbut (fun d _ => rfl) rfl, ?_⟩
    show (table.epoll.fd conn.iFd).events.epollout = (w.asksWritable conn.iFd && false)
    rw [hkernel, Bool.and_false]
    cases w.table.epoll.fd conn.iFd with
    | registered i =>
      unfold KernelFd.without
      dsimp only
      split
      · rfl
      · exact Bool.and_false _
    | _ => rfl
  · exact ⟨h.leavesAlone hc EventTable.sameBut_refl (fun d _ => rfl) rfl, rfl⟩

/-- **The calls of a callback**: mild ones. -/
theorem Books.calls_own (h : w.Books start batch) (realloc : Bool) (hrun : w.fate = .running)
    (hc : w.conns c = some conn) (hmild : ∀ call ∈ calls, call.Mild) :
    w.LeavesAlone {c}ᶜ (calls.foldl (reactorCall c realloc) w)
      ∧ (calls.foldl (reactorCall c realloc) w).conns = w.conns
      ∧ (calls.foldl (reactorCall c realloc) w).asksWritable conn.iFd
        = writableAfter (w.asksWritable conn.iFd) calls := by
  induction calls generalizing w with
  | nil => exact ⟨.refl, rfl, rfl⟩
  | cons call calls ih =>
    have hcall := hmild call List.mem_cons_self
    obtain ⟨hrun', hconns, hbooks⟩ : _ ∧ _ ∧ (reactorCall c realloc w call).Books start batch :=
      h.call hrun hc hcall
    obtain ⟨halone, hasks⟩ := h.call_own realloc hrun hc hcall
    obtain ⟨halone', hconns', hasks'⟩ := ih hbooks hrun' (by rw [hconns, hc])
      (fun call' hmem => hmild call' (List.mem_cons_of_mem _ hmem))
    refine ⟨halone.trans halone', hconns'.trans hconns, hasks'.trans ?_⟩
    rw [hasks]
    rfl

/-- The calls of a callback time nothing out. -/
theorem timeouts_reactorCall {call : ReactorCall} :
    (reactorCall c realloc w call).timeouts = w.timeouts := by
  unfold reactorCall
  split
  swap
  · rfl
  split
  · rfl
  unfold serve
  cases call with
  | eventAdd m cb => dsimp only; split <;> rfl
  | eventDel m => dsimp only; split <;> rfl
  | registerTimerOutEvent t => rfl
  | destroyConn =>
    dsimp only
    unfold destroyConn
    split
    · rfl
    · dsimp only
      split <;> rfl

theorem timeouts_calls : (calls.foldl (reactorCall c realloc) w).timeouts = w.timeouts := by
  induction calls generalizing w with
  | nil => rfl
  | cons call calls ih => exact ih.trans timeouts_reactorCall

/-- **What a callback does** with its connection `conn` at `c`: it leaves `left` of that,
and the kernel watches for output as the calls say. The other connections are left alone,
and all of them are still there; none is timed out. -/
structure Handles (w : Worker) (c : ConnPtr) (conn : ConnFd) (left : Option ConnFd)
    (calls : List ReactorCall) (w' : Worker) : Prop where
  alone : w.LeavesAlone {c}ᶜ w'
  conns : w'.conns = Function.update w.conns c left
  asks : ∀ e, w'.conns c = some e →
    w'.asksWritable e.iFd = writableAfter (w.asksWritable conn.iFd) calls
  timeouts : w'.timeouts = w.timeouts

theorem Handles.left_eq {left : Option ConnFd} (h : w.Handles c conn left calls w')
    (he : w'.conns c = some e) : left = some e := by
  rw [h.conns, Function.update_self] at he
  exact he

/-- **The end of a callback**, which has made `conn'` of its connection and has these
calls to make. -/
theorem Books.end_own (h : w.Books start batch) (hrun : w.fate = .running)
    (hc : w.conns c = some conn) (hsame : conn.SameConn conn')
    (hcalls : calls = [.destroyConn] ∨ ∀ call ∈ calls, call.Mild)
    (hw' : w' = calls.foldl (reactorCall c realloc)
      { w with conns := Function.update w.conns c (some conn') }) :
    w.Handles c conn (if .destroyConn ∈ calls then none else some conn') calls w' := by
  have h₁ := h.update hc hsame
  set w₁ : Worker := { w with conns := Function.update w.conns c (some conn') } with hw₁
  have hrun₁ : w₁.fate = .running := hrun
  have hlive : w₁.conns c = some conn' := Function.update_self ..
  have halone₁ : w.LeavesAlone {c}ᶜ w₁ := h.leavesAlone hc EventTable.sameBut_refl
    (fun d hd => Function.update_of_ne hd _ _) rfl
  have htimeouts : w'.timeouts = w.timeouts := by
    rw [hw']
    exact timeouts_calls
  rcases hcalls with rfl | hmild
  · rw [List.foldl_cons, List.foldl_nil, reactorCall_live hrun₁ hlive] at hw'
    have hdropped := h₁.dropped hlive
    rw [show destroyConn w₁ c = w' from hw'.symm] at hdropped
    rw [if_pos (List.mem_singleton_self _)]
    refine ⟨halone₁.trans (h₁.leavesAlone hlive hdropped.others (fun d hd => ?_)
      hdropped.nextSerial), ?_, fun e he => ?_, htimeouts⟩
    · rw [hdropped.conns, Function.update_of_ne hd]
    · rw [hdropped.conns, hw₁, Function.update_idem]
    · rw [hdropped.conns, Function.update_self] at he
      exact absurd he (by simp)
  · obtain ⟨halone, hconns, hasks⟩ := h₁.calls_own realloc hrun₁ hlive hmild
    rw [← hw'] at halone hconns hasks
    have hkept : .destroyConn ∉ calls := by
      intro hmem
      rcases hmild _ hmem with heq | heq | ⟨t, heq⟩
      all_goals exact absurd heq (by simp)
    rw [if_neg hkept]
    refine ⟨halone₁.trans halone, hconns, fun e he => ?_, htimeouts⟩
    obtain rfl : conn' = e := Option.some.inj (hlive.symm.trans (hconns ▸ he))
    rw [hasks, hsame.iFd]
    rfl

/-! ## The callbacks -/

/-- **A receive callback**, where the process goes on. -/
theorem Books.recv_own (h : w.Books start batch) (hrun : w.fate = .running)
    (hc : w.conns c = some conn) (input : EventInput) (t_iFd : ℤ)
    (hend : (eventCallback w input t_iFd (some c) .processRecvCallback).fate = .running)
    {r : RecvResult}
    (hr : r = processRecvCallback conn t_iFd input.malloc input.head input.body input.rx) :
    w.Handles c conn (if r.fate = .live then some r.conn else none) r.calls
      (eventCallback w input t_iFd (some c) .processRecvCallback) := by
  unfold eventCallback at hend ⊢
  dsimp only at hend ⊢
  rw [hc] at hend ⊢
  dsimp only at hend ⊢
  rw [← hr] at hend ⊢
  by_cases hover : r.conn.overran = true
  · rw [if_pos hover] at hend
    exact absurd hend (by simp)
  rw [if_neg hover] at hend ⊢
  by_cases hreturns : r.returns = true
  swap
  · rw [if_neg hreturns] at hend
    exact absurd hend (by simp)
  rw [if_pos hreturns]
  have hhandles := h.end_own hrun hc (hr ▸ processRecvCallback_sameConn)
    (hr ▸ processRecvCallback_calls) (rfl : _ = r.calls.foldl (reactorCall c input.realloc)
      { w with conns := Function.update w.conns c (some r.conn) })
  by_cases hdestroy : .destroyConn ∈ r.calls
  · rw [if_pos hdestroy] at hhandles
    rw [if_neg (fun hlive => (RecvResult.fate_eq_live.mp hlive).2 hdestroy)]
    exact hhandles
  · rw [if_neg hdestroy] at hhandles
    rw [if_pos (RecvResult.fate_eq_live.mpr ⟨hreturns, hdestroy⟩)]
    exact hhandles

/-- **A send callback.** -/
theorem Books.send_own (h : w.Books start batch) (hrun : w.fate = .running)
    (hc : w.conns c = some conn) (input : EventInput) (t_iFd : ℤ) {r : SendResult}
    (hr : r = processSendCallback conn t_iFd input.writes) :
    w.Handles c conn (if .destroyConn ∈ r.calls then none else some r.conn) r.calls
      (eventCallback w input t_iFd (some c) .processSendCallback) := by
  unfold eventCallback
  dsimp only
  rw [hc]
  dsimp only
  rw [← hr]
  exact h.end_own hrun hc (hr ▸ processSendCallback_calls.1) (hr ▸ processSendCallback_calls.2) rfl

/-- **The timeouts** leave those alone that they do not destroy. -/
theorem Books.expire_leavesAlone (h : w.Books start batch) (fuel : ℕ)
    (hend : (processTimeoutLoop fuel w).fate = .running) :
    w.LeavesAlone Set.univ (processTimeoutLoop fuel w) := by
  refine (processTimeoutLoop_rule (P := fun v => v.Books start batch ∧ w.LeavesAlone Set.univ v)
    (fun v _ _ hv => ⟨hv.1.same rfl rfl rfl rfl rfl, hv.2.trans (leavesAlone_of_same rfl rfl rfl)⟩)
    (fun v c conn hv hc => ⟨(hv.1.destroy hc).2, hv.2.trans ?_⟩) fuel ⟨h, .refl⟩ hend).2
  have hdropped := hv.1.dropped hc
  have halone := hv.1.leavesAlone hc hdropped.others
    (fun d hd => by rw [hdropped.conns, Function.update_of_ne hd]) hdropped.nextSerial
  have hother : ∀ d e, (destroyConn v c).conns d = some e → d ∈ ({c}ᶜ : Set ConnPtr) := by
    rintro d e he rfl
    rw [hdropped.conns, Function.update_self] at he
    exact absurd he (by simp)
  exact ⟨fun d _ e he => halone.conns d (hother d e he) e he,
    fun d _ e he => halone.asks d (hother d e he) e he, hdropped.nextSerial⟩

/-! ## The half of a round -/

/-- A worker that has noted a call. -/
def noted (w : Worker) (overrun : Bool) (invoked : List Invocation) : Worker :=
  { w with table := { w.table with overrun := overrun }, invoked := invoked }

theorem Books.noted (h : w.Books start batch) (overrun : Bool) (invoked : List Invocation) :
    (w.noted overrun invoked).Books start batch :=
  (h.overrun overrun).same rfl rfl rfl rfl rfl

theorem leavesAlone_noted {overrun : Bool} {invoked : List Invocation} :
    w.LeavesAlone K (w.noted overrun invoked) := leavesAlone_of_same rfl rfl rfl

theorem Handles.of_noted {overrun : Bool} {invoked : List Invocation} {left : Option ConnFd}
    (h : (w.noted overrun invoked).Handles c conn left calls w') :
    w.Handles c conn left calls w' where
  alone := leavesAlone_noted.trans h.alone
  conns := h.conns
  asks := h.asks
  timeouts := h.timeouts

/-- **What the half of a round calls**: the accept callback, or one of the two of a live
connection, that for writing only if the kernel watches for output. -/
theorem Books.call_eq (h : w.Books start batch) (hfd : fd ∈ batch) (overrun : Bool)
    (input : EventInput) {proc : Option EventCallbackProc}
    (hproc : (w.table.slot fd).iMask &&& eventReadable ≠ 0
        ∧ proc = (w.table.slot fd).pFunEventCallbackRead
      ∨ (w.table.slot fd).iMask &&& eventWritable ≠ 0
        ∧ proc = (w.table.slot fd).pFunEventCallbackWrite) :
    ∃ invoked,
      proc = some .processAcceptCallback
        ∧ (w.noted overrun w.invoked).call input fd proc
          = processAcceptCallback (w.noted overrun invoked) fd input.accept
      ∨ ∃ c conn proc', w.conns c = some conn ∧ conn.iFd = fd
        ∧ (w.table.slot fd).pstArg = some c ∧ proc = some proc'
        ∧ (proc' = .processRecvCallback
          ∨ proc' = .processSendCallback ∧ w.asksWritable fd = true)
        ∧ (w.noted overrun w.invoked).call input fd proc
          = eventCallback (w.noted overrun invoked) input fd (some c) proc' := by
  obtain ⟨-, rfl, harg⟩ | ⟨c, conn, proc', hc, rfl, harg, rfl, hproc'⟩ := h.callee hfd hproc
  · refine ⟨w.invoked ++ [⟨fd, .processAcceptCallback, none, none⟩], Or.inl ⟨rfl, ?_⟩⟩
    unfold Worker.call
    dsimp only
    rw [show ((w.noted overrun w.invoked).table.slot fd).pstArg = none from harg]
    rfl
  · refine ⟨w.invoked ++ [⟨conn.iFd, proc', some c, (w.conns c).map ConnFd.serial⟩],
      Or.inr ⟨c, conn, proc', hc, rfl, harg, rfl, ?_, ?_⟩⟩
    · refine hproc'.imp id (fun hsend => ⟨hsend, ?_⟩)
      have hserved := h.served c conn hc
      rcases hproc with ⟨hread, heq⟩ | ⟨hwrite, -⟩
      · -- the callback for reading is the other one
        rw [hserved.serves.read hread, hsend] at heq
        exact absurd heq (by simp)
      · rw [hserved.tracks.mask] at hwrite
        exact maskOf_and_writable.mp hwrite
    · unfold Worker.call
      dsimp only
      rw [show ((w.noted overrun w.invoked).table.slot conn.iFd).pstArg = some c from harg]
      rfl

end Worker

namespace Reactor

variable {start : Set ℤ} {s s' : Reactor} {now : TimeVal}

/-- The connection that the event in work is for. -/
def nextConn (s : Reactor) : Option ConnFd :=
  s.pending.head?.bind fun ev => (s.worker.table.slot ev.fd).pstArg.bind s.worker.conns

/-- It is the one its slot leads to. -/
theorem nextConn_eq {ev : EpollEvent} {c : ConnPtr} {conn : ConnFd}
    (hev : s.pending.head? = some ev) (harg : (s.worker.table.slot ev.fd).pstArg = some c)
    (hc : s.worker.conns c = some conn) : s.nextConn = some conn := by
  unfold nextConn
  rw [hev, Option.bind_some, harg, Option.bind_some, hc]

/-- After the wait, the clock is read. -/
theorem step_wait {events : Option (List EpollEvent)} (hstep : s.step (.wait now events) = some s') :
    s'.worker = { s.worker with pstTimeCache := now } := by
  unfold Reactor.step at hstep
  rw [if_pos (running_of_step hstep)] at hstep
  split at hstep
  · next heq =>
    cases heq
    rw [← Option.some.inj hstep]
  · next heq =>
    cases heq
    rw [← Option.some.inj hstep]
  · next heq => cases heq
  · next heq => cases heq
  · next heq => cases heq
  · exact absurd hstep (by simp)

/-- At the end of a round, the timers that are due are worked off. -/
theorem step_expire (hstep : s.step .expire = some s') :
    s'.worker = reactorProcessTimeoutEvent s.worker := by
  unfold Reactor.step at hstep
  rw [if_pos (running_of_step hstep)] at hstep
  split at hstep
  · next heq => cases heq
  · next heq => cases heq
  · next heq => cases heq
  · next heq => cases heq
  · rw [← Option.some.inj hstep]
  · exact absurd hstep (by simp)

/-- **The half of a round** with an event of `fd`: no callback, the accept callback, or one
of the two of the connection of the event. -/
inductive Half (s s' : Reactor) (fd : ℤ) (input : EventInput) (overrun : Bool)
    (invoked : List Invocation) : Prop
  | idle (hnext : s.nextCallback = none) (heq : s'.worker = s.worker.noted overrun invoked)
  | accept (hnext : s.nextCallback = some .processAcceptCallback)
    (heq : s'.worker = processAcceptCallback (s.worker.noted overrun invoked) fd input.accept)
  | recv (c : ConnPtr) (conn : ConnFd) (hc : s.worker.conns c = some conn) (hfd : conn.iFd = fd)
    (harg : (s.worker.table.slot fd).pstArg = some c)
    (hnext : s.nextCallback = some .processRecvCallback)
    (heq : s'.worker
      = eventCallback (s.worker.noted overrun invoked) input fd (some c) .processRecvCallback)
  | send (c : ConnPtr) (conn : ConnFd) (hc : s.worker.conns c = some conn) (hfd : conn.iFd = fd)
    (harg : (s.worker.table.slot fd).pstArg = some c)
    (hnext : s.nextCallback = some .processSendCallback) (hasks : s.worker.asksWritable fd = true)
    (heq : s'.worker
      = eventCallback (s.worker.noted overrun invoked) input fd (some c) .processSendCallback)

/-- What it calls is what it finds in the slot. -/
theorem InOrder.called (h : s.InOrder start) (hrun : s.worker.fate = .running) {ev : EpollEvent}
    (hev : ev ∈ s.pending) {input : EventInput} {overrun : Bool} {proc : Option EventCallbackProc}
    (hnext : s.nextCallback = proc)
    (hworker : s'.worker = (s.worker.noted overrun s.worker.invoked).call input ev.fd proc)
    (hproc : (s.worker.table.slot ev.fd).iMask &&& eventReadable ≠ 0
        ∧ proc = (s.worker.table.slot ev.fd).pFunEventCallbackRead
      ∨ (s.worker.table.slot ev.fd).iMask &&& eventWritable ≠ 0
        ∧ proc = (s.worker.table.slot ev.fd).pFunEventCallbackWrite) :
    ∃ invoked, s.Half s' ev.fd input overrun invoked := by
  obtain ⟨invoked, ⟨rfl, heq⟩ | ⟨c, conn, proc', hc, hfd, harg, rfl, hproc', heq⟩⟩ :=
    (h.books hrun).call_eq ⟨ev, hev, rfl⟩ overrun input hproc
  · exact ⟨invoked, .accept hnext (hworker.trans heq)⟩
  · rcases hproc' with rfl | ⟨rfl, hasks⟩
    · exact ⟨invoked, .recv c conn hc hfd harg hnext (hworker.trans heq)⟩
    · exact ⟨invoked, .send c conn hc hfd harg hnext hasks (hworker.trans heq)⟩

/-- **Each half is one of these.** -/
theorem InOrder.half (h : s.InOrder start) {input : EventInput}
    (hstep : s.step (.callback input) = some s') :
    ∃ ev, s.pending.head? = some ev ∧ ∃ overrun invoked, s.Half s' ev.fd input overrun invoked := by
  have hrun := running_of_step hstep
  unfold Reactor.step at hstep
  rw [if_pos hrun] at hstep
  split at hstep
  · next heq => exact absurd heq (by simp)
  · next heq => exact absurd heq (by simp)
  · next ev events input' hphase heq =>
    obtain rfl : input = input' := ReactorInput.callback.inj heq
    obtain rfl := Option.some.inj hstep
    have hpending : s.pending = ev :: events := by unfold Reactor.pending; rw [hphase]
    refine ⟨ev, by rw [hpending]; rfl, (s.worker.table.access ev.fd).overrun, ?_⟩
    unfold Worker.dispatchRead
    by_cases htrigger : (s.worker.table.slot ev.fd).iMask &&& ev.iMask &&& eventReadable ≠ 0
    · refine h.called hrun (by rw [hpending]; exact List.mem_cons_self) ?_ (if_pos htrigger)
        (Or.inl ⟨Worker.mask_of_triggered htrigger, rfl⟩)
      unfold nextCallback
      rw [if_pos hrun, hphase]
      exact if_pos htrigger
    · refine ⟨s.worker.invoked, .idle ?_ (if_neg htrigger)⟩
      unfold nextCallback
      rw [if_pos hrun, hphase]
      exact if_neg htrigger
  · next ev events input' hphase heq =>
    obtain rfl : input = input' := ReactorInput.callback.inj heq
    obtain rfl := Option.some.inj hstep
    have hpending : s.pending = ev :: events := by unfold Reactor.pending; rw [hphase]
    refine ⟨ev, by rw [hpending]; rfl, s.worker.table.overrun, ?_⟩
    unfold Worker.dispatchWrite
    by_cases htrigger : (s.worker.table.slot ev.fd).iMask &&& ev.iMask &&& eventWritable ≠ 0
    · refine h.called hrun (by rw [hpending]; exact List.mem_cons_self) ?_ (if_pos htrigger)
        (Or.inr ⟨Worker.mask_of_triggered htrigger, rfl⟩)
      unfold nextCallback
      rw [if_pos hrun, hphase]
      exact if_pos htrigger
    · refine ⟨s.worker.invoked, .idle ?_ (if_neg htrigger)⟩
      unfold nextCallback
      rw [if_pos hrun, hphase]
      exact if_neg htrigger
  · next heq => exact absurd heq (by simp)
  · exact absurd hstep (by simp)

/-- **An accept callback** makes a connection of the client it gets, and does nothing if
it gets none, where the process goes on. -/
theorem InOrder.accepted (h : s.InOrder start) {input : EventInput}
    (hadm : s.Orderly (.callback input)) (hrun : s.worker.fate = .running) {ev : EpollEvent}
    (hev : s.pending.head? = some ev) {overrun : Bool} {invoked : List Invocation}
    (hnext : s.nextCallback = some .processAcceptCallback)
    (heq : s'.worker = processAcceptCallback (s.worker.noted overrun invoked) ev.fd input.accept)
    (hend : s'.worker.fate = .running) :
    Worker.client input.accept = none ∧ s'.worker = s.worker.noted overrun invoked
      ∨ ∃ a, input.accept = .conn a
        ∧ (s.worker.noted overrun invoked).Admitted a s'.worker := by
  have hbooks := h.books hrun
  have hpos : 0 ≤ ev.fd := (hbooks.awaited ev.fd ⟨ev, List.mem_of_mem_head? hev, rfl⟩).1
  have hcan : ∀ a, input.accept = .conn a → s.worker.CanAccept a :=
    fun a ha => hadm hnext a (by rw [ha]; rfl)
  have haccept := (hbooks.noted overrun invoked).admitted ev.fd hcan
  rw [← heq] at haccept
  rcases haccept with hexit | ⟨hsame, hnone⟩ | ⟨a, ha, hadmitted⟩
  · exact absurd (hexit.symm.trans hend) (by decide)
  · refine Or.inl ⟨?_, hsame⟩
    unfold Worker.client
    split
    · next a ha => exact absurd ha (hnone hpos a)
    · rfl
  · exact Or.inr ⟨a, ha, hadmitted⟩

end Reactor
