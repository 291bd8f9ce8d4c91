import TcpFrame.WorkerCreate
import TcpFrame.WorkerWait

/-!
# The bounds of the slots

The array of slots has `iFdEventArraySize` of them, a number of clients, and its
index is a descriptor. `EventAdd` and `EventDel` compare the two and let the
descriptor that is equal to the size through; `FdFileEventInit` compares nothing,
and neither does the batch loop.

What the batch loop is handed is a descriptor that was registered, and what
`__DestroyConn` and the callbacks use is the descriptor of their connection, so
that the array is overrun nowhere but where a new descriptor comes in
(`Worker.Inside`). There are two such places, and `reactor_indexed_iff` is about
both: the listening descriptor and the ones that `accept` returns.
-/

/-! ## The table -/

/-- **A table of `N` slots that is used in range**, and in which the kernel watches
no descriptor without a slot. -/
structure EventTable.Inside (N : ℤ) (t : EventTable) : Prop where
  size : t.iFdEventArraySize = N
  within : t.overrun = false
  watched : ∀ fd, (t.epoll.fd fd).isRegistered = true → 0 ≤ fd ∧ fd < N

section Table

variable {N fd : ℤ} {t : EventTable} {c : EventCall} {k : KernelFd}

theorem EventTable.overrun_access : (t.access fd).overrun = false
    ↔ t.overrun = false ∧ 0 ≤ fd ∧ fd < t.iFdEventArraySize := by
  show (t.overrun || !(decide (0 ≤ fd) && decide (fd < t.iFdEventArraySize))) = false ↔ _
  rw [Bool.or_eq_false_iff, Bool.not_eq_false', Bool.and_eq_true, decide_eq_true_eq,
    decide_eq_true_eq]

/-- A slot in range is read or written. -/
theorem EventTable.Inside.access (h : t.Inside N) (hfd : 0 ≤ fd ∧ fd < N) :
    (t.access fd).Inside N where
  size := h.size
  within := EventTable.overrun_access.mpr ⟨h.within, h.size.symm ▸ hfd⟩
  watched := h.watched

/-- A descriptor is opened or closed. -/
theorem EventTable.Inside.setFd (h : t.Inside N) (fd : ℤ) (hk : k.isRegistered = false) :
    EventTable.Inside N { t with epoll := t.epoll.setFd fd k } where
  size := h.size
  within := h.within
  watched g hg := by
    by_cases hgf : g = fd
    · have hreg : (Function.update t.epoll.fd fd k g).isRegistered = true := hg
      rw [hgf, Function.update_self, hk] at hreg
      exact absurd hreg (by decide)
    · have hreg : (Function.update t.epoll.fd fd k g).isRegistered = true := hg
      rw [Function.update_of_ne hgf] at hreg
      exact h.watched g hreg

/-- `FdFileEventInit` in range. -/
theorem EventTable.Inside.init (h : t.Inside N) (hfd : 0 ≤ fd ∧ fd < N) :
    (fdFileEventInit t fd).Inside N :=
  { h.access hfd with }

/-- **A registration in range**, whatever `epoll_ctl` does. -/
theorem EventTable.Inside.result {iRet : Ret} {t' : EventTable} (h : t.Inside N)
    (hfd : 0 ≤ c.iFd ∧ c.iFd < N) (hres : c.result t = (iRet, t')) : t'.Inside N := by
  have hin := h.access hfd
  rw [EventCall.result_eq (by rw [h.size]; exact hfd.2.le)] at hres
  cases hreq : c.request t with
  | none =>
    rw [hreq] at hres
    obtain rfl := (Prod.mk.inj hres).2
    exact hin
  | some r =>
    rw [hreq, Option.elim_some] at hres
    cases hctl : t.epoll.succeeds r.2 c.iFd with
    | false =>
      rw [EventTable.commit_fails hctl] at hres
      obtain rfl := (Prod.mk.inj hres).2
      exact { hin with }
    | true =>
      rw [EventTable.commit_succeeds hctl] at hres
      obtain rfl := (Prod.mk.inj hres).2
      refine ⟨h.size, hin.within, fun g hg => ?_⟩
      by_cases hgf : g = c.iFd
      · exact hgf ▸ hfd
      · rw [EventTable.sameBut_updated.kernel g hgf] at hg
        exact h.watched g hg

/-- A registration up to the bound uses one slot. -/
theorem EventCall.overrun_result (hfd : c.iFd ≤ t.iFdEventArraySize) :
    (c.result t).2.overrun = (t.access c.iFd).overrun := by
  rw [EventCall.result_eq hfd]
  cases hreq : c.request t with
  | none => rfl
  | some r =>
    rw [Option.elim_some]
    cases hctl : t.epoll.succeeds r.2 c.iFd with
    | false =>
      rw [EventTable.commit_fails hctl]
      rfl
    | true =>
      rw [EventTable.commit_succeeds hctl]
      rfl

/-- A registration beyond the bound is refused. -/
theorem EventCall.result_beyond (hfd : t.iFdEventArraySize < c.iFd) :
    c.result t = (Ret.fail, t) := by
  cases c with
  | add fd m cb arg => exact if_pos hfd
  | del fd m => exact if_pos hfd

/-- What was used outside the array stays so. -/
theorem EventCall.overrun_of_overrun {iRet : Ret} {t' : EventTable} (h : t.overrun = true)
    (hres : c.result t = (iRet, t')) : t'.overrun = true := by
  obtain rfl : (c.result t).2 = t' := congrArg Prod.snd hres
  rcases le_or_gt c.iFd t.iFdEventArraySize with hle | hgt
  · rw [EventCall.overrun_result hle]
    show (t.overrun || _) = true
    rw [h, Bool.true_or]
  · rw [EventCall.result_beyond hgt]
    exact h

/-- **The bound of `EventAdd` and `EventDel`** is off by one, and by no more. -/
theorem EventCall.bounded_iff (hsize : t.iFdEventArraySize = N) (hwithin : t.overrun = false)
    (hfd : 0 ≤ c.iFd) :
    ((c.result t).2.overrun = false ∧ (N ≤ c.iFd → c.result t = (Ret.fail, t))) ↔ c.iFd ≠ N := by
  constructor
  · rintro ⟨hin, -⟩ heq
    rw [EventCall.overrun_result (by rw [hsize, heq])] at hin
    have hlt := (EventTable.overrun_access.mp hin).2.2
    rw [hsize, heq] at hlt
    exact lt_irrefl N hlt
  · intro hne
    rcases lt_or_gt_of_ne hne with hlt | hgt
    · refine ⟨?_, fun hle => absurd hlt (not_lt.mpr hle)⟩
      rw [EventCall.overrun_result (by rw [hsize]; exact hlt.le)]
      exact EventTable.overrun_access.mpr ⟨hwithin, hfd, hsize.symm ▸ hlt⟩
    · rw [EventCall.result_beyond (by rw [hsize]; exact hgt)]
      exact ⟨hwithin, fun _ => rfl⟩

end Table

namespace Worker

variable {N fd : ℤ} {w : Worker} {c : ConnPtr} {realloc : Bool} {a : Accepted}

/-- **A worker that uses its slots in range**: so does its table, and every
connection has a slot. -/
structure Inside (N : ℤ) (w : Worker) : Prop where
  table : w.table.Inside N
  lt : w.iEpType = epollLtType
  conns : ∀ c conn, w.conns c = some conn → 0 ≤ conn.iFd ∧ conn.iFd < N

/-! ## Connections and timers -/

/-- A connection on a descriptor in range comes or is changed, or it goes. -/
theorem Inside.update (h : w.Inside N) (c : ConnPtr) {conn : Option ConnFd}
    (hconn : ∀ conn', conn = some conn' → 0 ≤ conn'.iFd ∧ conn'.iFd < N) :
    Inside N { w with conns := Function.update w.conns c conn } where
  table := h.table
  lt := h.lt
  conns d conn' hd := by
    by_cases hdc : d = c
    · have hd' : Function.update w.conns c conn d = some conn' := hd
      rw [hdc, Function.update_self] at hd'
      exact hconn conn' hd'
    · have hd' : Function.update w.conns c conn d = some conn' := hd
      rw [Function.update_of_ne hdc] at hd'
      exact h.conns d conn' hd'

/-- `__DestroyConn`. -/
theorem Inside.destroy (h : w.Inside N) : (destroyConn w c).Inside N := by
  cases hc : w.conns c with
  | none =>
    unfold destroyConn
    rw [hc]
    exact { h with }
  | some conn =>
    have hfd := h.conns c conn hc
    have hdel : ∀ {iRet table}, eventDel w.table conn.iFd (eventWritable ||| eventReadable)
        = (iRet, table) → table.Inside N := fun heq =>
      h.table.result (c := .del conn.iFd (eventWritable ||| eventReadable)) hfd heq
    obtain ⟨iClientCount, table, ⟨heq, hdestroy⟩ | ⟨table', heq, htable, hdestroy⟩⟩ :=
      destroyConn_spec hc
    · rw [hdestroy]
      exact { h with table := hdel heq }
    · have hclosed := (hdel heq).setFd (k := .closed) conn.iFd rfl
      have hgone : Inside N { w with conns := Function.update w.conns c none } :=
        h.update c (fun conn' hconn' => absurd hconn' (by simp))
      rw [hdestroy, htable]
      exact { hgone with table := hclosed.init hfd }

/-- A call for a connection. -/
theorem Inside.call (h : w.Inside N) {call : ReactorCall} :
    (reactorCall c realloc w call).Inside N := by
  unfold reactorCall
  split
  swap
  · exact h
  split
  · exact { h with }
  next conn hc =>
  have hfd := h.conns c conn hc
  unfold serve
  cases call with
  | eventAdd m cb =>
    have hadd : ∀ {iRet table}, eventAdd w.table conn.iFd m (some cb) (some c) = (iRet, table) →
        table.Inside N := fun heq =>
      h.table.result (c := .add conn.iFd m (some cb) (some c)) hfd heq
    dsimp only
    split
    · next heq => exact { h with table := hadd heq }
    · next heq => exact { h with table := hadd heq }
  | eventDel m =>
    have hdel : ∀ {iRet table}, eventDel w.table conn.iFd m = (iRet, table) → table.Inside N :=
      fun heq => h.table.result (c := .del conn.iFd m) hfd heq
    dsimp only
    split
    · next heq => exact { h with table := hdel heq }
    · next heq => exact { h with table := hdel heq }
  | registerTimerOutEvent t => exact { h with }
  | destroyConn => exact h.destroy

theorem Inside.calls {calls : List ReactorCall} (h : w.Inside N) :
    (calls.foldl (reactorCall c realloc) w).Inside N := by
  induction calls generalizing w with
  | nil => exact h
  | cons call calls ih => exact ih h.call

/-- **The timeouts.** -/
theorem Inside.expire (h : w.Inside N) : (reactorProcessTimeoutEvent w).Inside N := by
  unfold reactorProcessTimeoutEvent
  generalize w.pstHeapHeader.iNodeUsed = fuel
  induction fuel generalizing w with
  | zero => exact h
  | succ fuel ih =>
    unfold processTimeoutLoop
    split
    · exact h
    dsimp only
    split
    · exact h
    split
    · exact ih { h with }
    · set w₁ : Worker := { w with
        pstHeapHeader := (minheapPop w.pstHeapHeader).2
        timeouts := w.timeouts ++ [Worker.timerOwner { w with
          pstHeapHeader := (minheapPop w.pstHeapHeader).2 } _ _] }
      have h₁ : w₁.Inside N := { h with }
      have hcallback : ∀ arg, (connectionTimeoutCallback w₁ arg).Inside N := by
        intro arg
        cases arg with
        | none => exact h₁
        | some c => exact h₁.destroy
      split
      · exact ih (hcallback _)
      · exact hcallback _

/-! ## New connections -/

/-- The client that `accept` returns a descriptor for. -/
def client : AcceptOutcome → Option Accepted
  | .conn a => some a
  | _ => none

/-- **A client that gets to `FdFileEventInit`**: nothing fails before. -/
def Joins (a : Accepted) : Prop := a.nonblock = true ∧ a.malloc = true

instance (a : Accepted) : Decidable (Joins a) := inferInstanceAs (Decidable (_ ∧ _))

theorem joins_iff : ¬ (!a.nonblock || !a.malloc) = true ↔ Joins a := by
  unfold Joins
  rw [Bool.not_eq_true, Bool.or_eq_false_iff, Bool.not_eq_false', Bool.not_eq_false']

/-- **A client on a descriptor in range.** -/
theorem Inside.accept (h : w.Inside N) {accept : AcceptOutcome}
    (hfd : ∀ a, client accept = some a → Joins a → 0 ≤ a.iClientFd ∧ a.iClientFd < N) :
    (processAcceptCallback w fd accept).Inside N := by
  unfold processAcceptCallback
  split
  · exact h
  split
  · exact h
  split
  swap
  · exact { h with }
  cases accept with
  | eagain => exact h
  | error => exact { h with }
  | conn a =>
    dsimp only
    have hopened := h.table.setFd (k := .opened) a.iClientFd rfl
    split
    · exact { h with table := hopened }
    next hjoins =>
    have hrange := hfd a rfl (joins_iff.mp hjoins)
    have hjoined : Inside N
        { w with conns := Function.update w.conns a.pstNewConnFd (some (w.accepted a)) } :=
      h.update a.pstNewConnFd (fun conn' hconn' => Option.some.inj hconn' ▸ hrange)
    have hadd : ∀ {iRet table}, eventAdd (fdFileEventInit
        { w.table with epoll := w.table.epoll.accept a.iClientFd } a.iClientFd) a.iClientFd
        eventReadable (some .processRecvCallback) (some a.pstNewConnFd) = (iRet, table) →
        table.Inside N := fun heq =>
      (hopened.init hrange).result (c := .add a.iClientFd eventReadable
        (some .processRecvCallback) (some a.pstNewConnFd)) hrange heq
    split
    · next heq => exact { hjoined with table := hadd heq }
    · next heq => exact { hjoined with table := hadd heq }

/-- **A client on any other descriptor**: `FdFileEventInit` writes outside the
array before `EventAdd` looks at the bound. -/
theorem processAcceptCallback_beyond (hlt : w.iEpType = epollLtType)
    (hsize : w.table.iFdEventArraySize = N) (hfd : 0 ≤ fd) (hjoins : Joins a)
    (hbeyond : N ≤ a.iClientFd) : (processAcceptCallback w fd (.conn a)).table.overrun = true := by
  set t := fdFileEventInit { w.table with epoll := w.table.epoll.accept a.iClientFd } a.iClientFd
    with ht
  have hover : t.overrun = true := by
    refine (Bool.not_eq_false _).mp fun hin => ?_
    have hlt := (EventTable.overrun_access.mp hin).2.2
    exact absurd (hsize ▸ hlt) (not_lt.mpr hbeyond)
  have hadd : ∀ {iRet table}, eventAdd t a.iClientFd eventReadable (some .processRecvCallback)
      (some a.pstNewConnFd) = (iRet, table) → table.overrun = true := fun heq =>
    EventCall.overrun_of_overrun (c := .add a.iClientFd eventReadable
      (some .processRecvCallback) (some a.pstNewConnFd)) hover heq
  unfold processAcceptCallback
  rw [if_neg (not_lt.mpr hfd), hlt, if_neg (by decide), if_pos rfl]
  dsimp only
  rw [if_neg (joins_iff.mpr hjoins)]
  split
  · next heq => exact hadd heq
  · next heq => exact hadd heq

/-! ## The batch loop -/

/-- A callback of a slot. -/
theorem Inside.callback (h : w.Inside N) {input : EventInput} {proc : Option EventCallbackProc}
    (hfd : proc = some .processAcceptCallback → ∀ a, client input.accept = some a → Joins a →
      0 ≤ a.iClientFd ∧ a.iClientFd < N) : (w.call input fd proc).Inside N := by
  unfold Worker.call
  cases proc with
  | none => exact { h with }
  | some proc =>
    dsimp only
    set w₁ : Worker := { w with invoked := w.invoked ++ [⟨fd, proc, (w.table.slot fd).pstArg,
      ((w.table.slot fd).pstArg.bind w.conns).map ConnFd.serial⟩] }
    have h₁ : w₁.Inside N := { h with }
    have hcalls : ∀ (c : ConnPtr) (conn conn' : ConnFd) (calls : List ReactorCall),
        w₁.conns c = some conn → conn.SameConn conn' →
        (calls.foldl (reactorCall c input.realloc)
          { w₁ with conns := Function.update w₁.conns c (some conn') }).Inside N := by
      intro c conn conn' calls hc hsame
      refine (h₁.update _ (fun conn'' hconn'' => ?_)).calls
      rw [← Option.some.inj hconn'', hsame.iFd]
      exact h₁.conns c conn hc
    unfold eventCallback
    cases proc with
    | processAcceptCallback => exact h₁.accept (hfd rfl)
    | processRecvCallback =>
      dsimp only
      split
      · exact h₁
      split
      · exact { h₁ with }
      next conn hc =>
      set r := processRecvCallback conn fd input.malloc input.head input.body input.rx
      have hread := hcalls _ conn r.conn [] hc processRecvCallback_sameConn
      have hrecv := hcalls _ conn r.conn r.calls hc processRecvCallback_sameConn
      split
      · exact { hread with }
      split
      · exact hrecv
      · exact { hrecv with }
    | processSendCallback =>
      dsimp only
      split
      · exact h₁
      split
      · exact { h₁ with }
      next conn hc =>
      exact hcalls _ conn _ _ hc processSendCallback_calls.1
    | wild addr => exact { h₁ with }

theorem call_beyond (h : w.Inside N) (hfd : 0 ≤ fd) {input : EventInput}
    (haccept : client input.accept = some a) (hjoins : Joins a) (hbeyond : N ≤ a.iClientFd) :
    (w.call input fd (some .processAcceptCallback)).table.overrun = true := by
  have hconn : input.accept = .conn a := by
    unfold client at haccept
    split at haccept
    · next heq => rw [heq, Option.some.inj haccept]
    · exact absurd haccept (by simp)
  unfold Worker.call eventCallback
  dsimp only
  rw [hconn]
  exact processAcceptCallback_beyond h.lt h.table.size hfd hjoins hbeyond

/-- The first half of a round: the callback for reading. -/
def dispatchRead (w : Worker) (ev : EpollEvent) (input : EventInput) : Worker :=
  let w := { w with table := w.table.access ev.fd }
  let pstFdEventNode := w.table.slot ev.fd
  if pstFdEventNode.iMask &&& ev.iMask &&& eventReadable ≠ 0 then
    w.call input ev.fd pstFdEventNode.pFunEventCallbackRead
  else w

/-- The second half: the callback for writing. -/
def dispatchWrite (w : Worker) (ev : EpollEvent) (input : EventInput) : Worker :=
  let pstFdEventNode := w.table.slot ev.fd
  if pstFdEventNode.iMask &&& ev.iMask &&& eventWritable ≠ 0 then
    w.call input ev.fd pstFdEventNode.pFunEventCallbackWrite
  else w

/-- **A round has two halves**, and the second one is for a process that goes on. -/
theorem dispatchEvent_eq {ev : EpollEvent} {input : EventInput} :
    dispatchEvent w ev input
      = if (w.dispatchRead ev input).fate ≠ .running then w.dispatchRead ev input
        else (w.dispatchRead ev input).dispatchWrite ev input := rfl

end Worker

/-! ## Runs of the loop -/

/-- Where `ReactorEventDispatchLoop` is: before `epoll_wait`, or in a batch, with
the first of the events that are left or with the second half of one. -/
inductive LoopPhase where
  | waiting
  | reading (events : List EpollEvent)
  | writing (ev : EpollEvent) (events : List EpollEvent)

/-- A process in `ReactorEventDispatchLoop`. -/
structure Reactor where
  worker : Worker
  phase : LoopPhase

/-- What happens next: `epoll_wait` returns, with the time and the events, or with
an error; the half of a round is worked off; the timeouts are. -/
inductive ReactorInput where
  | wait (now : TimeVal) (events : Option (List EpollEvent))
  | callback (input : EventInput)
  | expire

namespace Reactor

/-- **One step of the loop.** A process that has ended makes none. -/
def step (s : Reactor) (input : ReactorInput) : Option Reactor :=
  if s.worker.fate = .running then
    match s.phase, input with
    | .waiting, .wait now none => some ⟨{ s.worker with pstTimeCache := now }, .waiting⟩
    | .waiting, .wait now (some events) =>
      some ⟨{ s.worker with pstTimeCache := now }, .reading events⟩
    | .reading (ev :: events), .callback input =>
      some ⟨s.worker.dispatchRead ev input, .writing ev events⟩
    | .writing ev events, .callback input =>
      some ⟨s.worker.dispatchWrite ev input, .reading events⟩
    | .reading [], .expire => some ⟨reactorProcessTimeoutEvent s.worker, .waiting⟩
    | _, _ => none
  else none

/-- **A batch of whole rounds** is one of the loop, half by half. -/
theorem exec_batch {w w' : Worker} {batch : List Worker.BatchEvent}
    (hexec : Run.exec Worker.dispatchStep w batch = some w') (hrun : w'.fate = .running) :
    Run.exec step ⟨w, .reading (batch.map Prod.fst)⟩
      (batch.flatMap fun e => [.callback e.2, .callback e.2]) = some ⟨w', .reading []⟩ := by
  induction batch generalizing w with
  | nil =>
    obtain rfl := Option.some.inj hexec
    rfl
  | cons e batch ih =>
    obtain ⟨w₁, hstep, hrest⟩ := Option.bind_eq_some_iff.mp hexec
    obtain ⟨hfirst, hround⟩ := Option.ite_none_right_eq_some.mp hstep
    have hgoes : w₁.fate = .running := by
      cases batch with
      | nil => exact Option.some.inj hrest ▸ hrun
      | cons e' batch =>
        obtain ⟨w₂, hnext, -⟩ := Option.bind_eq_some_iff.mp hrest
        exact (Option.ite_none_right_eq_some.mp hnext).1
    obtain rfl := Option.some.inj hround
    rw [Worker.dispatchEvent_eq] at hgoes hrest
    -- the process has not ended in the first half
    have hread : (w.dispatchRead e.1 e.2).fate = .running := by
      by_contra hended
      rw [if_pos hended] at hgoes
      exact hended hgoes
    rw [if_neg (not_not.mpr hread)] at hrest
    calc Run.exec step ⟨w, .reading (e.1 :: batch.map Prod.fst)⟩ (.callback e.2 :: .callback e.2 ::
            batch.flatMap fun e => [.callback e.2, .callback e.2])
        = Run.exec step ⟨w.dispatchRead e.1 e.2, .writing e.1 (batch.map Prod.fst)⟩
            (.callback e.2 :: batch.flatMap fun e => [.callback e.2, .callback e.2]) := by
          rw [Run.exec, show step ⟨w, .reading (e.1 :: batch.map Prod.fst)⟩ (.callback e.2)
            = some ⟨w.dispatchRead e.1 e.2, .writing e.1 (batch.map Prod.fst)⟩ from if_pos hfirst]
          rfl
      _ = Run.exec step ⟨(w.dispatchRead e.1 e.2).dispatchWrite e.1 e.2,
            .reading (batch.map Prod.fst)⟩
            (batch.flatMap fun e => [.callback e.2, .callback e.2]) := by
          rw [Run.exec, show step ⟨w.dispatchRead e.1 e.2, .writing e.1 (batch.map Prod.fst)⟩
            (.callback e.2) = some ⟨(w.dispatchRead e.1 e.2).dispatchWrite e.1 e.2,
              .reading (batch.map Prod.fst)⟩ from if_pos hread]
          rfl
      _ = some ⟨w', .reading []⟩ := ih hrest

/-- **A round of the loop**: what `epoll_wait` returns is worked off event by event, and then
the timeouts are. -/
theorem exec_round {w w' : Worker} {now : TimeVal} {batch : List Worker.BatchEvent}
    (hfate : w.fate = .running)
    (hexec : Run.exec Worker.dispatchStep { w with pstTimeCache := now } batch = some w')
    (hrun : w'.fate = .running) :
    Run.exec step ⟨w, .waiting⟩ (.wait now (some (batch.map Prod.fst)) ::
        (batch.flatMap fun e => [.callback e.2, .callback e.2]) ++ [.expire])
      = some ⟨reactorProcessTimeoutEvent w', .waiting⟩ := by
  rw [List.cons_append, Run.exec, show step ⟨w, .waiting⟩ (.wait now (some (batch.map Prod.fst)))
    = some ⟨{ w with pstTimeCache := now }, .reading (batch.map Prod.fst)⟩ from if_pos hfate]
  show Run.exec step _ _ = _
  rw [Run.exec_concat, exec_batch hexec hrun]
  exact if_pos hrun

/-- The events that are left. -/
def pending (s : Reactor) : List EpollEvent :=
  match s.phase with
  | .waiting => []
  | .reading events => events
  | .writing ev events => ev :: events

/-- **What can happen**: `epoll_wait` returns events of descriptors that are
registered, and `accept` a descriptor that is not negative. -/
def Admits (s : Reactor) : ReactorInput → Prop
  | .wait _ events =>
    ∀ ev ∈ events.getD [], (s.worker.table.epoll.fd ev.fd).isRegistered = true
  | .callback input => ∀ a, Worker.client input.accept = some a → 0 ≤ a.iClientFd
  | .expire => True

/-- The callback that the half of a round makes, if the process goes on. -/
def nextCallback (s : Reactor) : Option EventCallbackProc :=
  if s.worker.fate = .running then
    match s.phase with
    | .reading (ev :: _) =>
      if (s.worker.table.slot ev.fd).iMask &&& ev.iMask &&& eventReadable ≠ 0 then
        (s.worker.table.slot ev.fd).pFunEventCallbackRead
      else none
    | .writing ev _ =>
      if (s.worker.table.slot ev.fd).iMask &&& ev.iMask &&& eventWritable ≠ 0 then
        (s.worker.table.slot ev.fd).pFunEventCallbackWrite
      else none
    | _ => none
  else none

/-- **What fits into `N` slots**: where the accept callback is made, `accept` returns
a descriptor below `N`, or what comes before `FdFileEventInit` fails. -/
def Fits (N : ℤ) (s : Reactor) : ReactorInput → Prop
  | .callback input => s.nextCallback = some .processAcceptCallback →
    ∀ a, Worker.client input.accept = some a → Worker.Joins a → a.iClientFd < N
  | _ => True

/-- **The slots are used in range**, now and for the events that are left. -/
structure Inside (N : ℤ) (s : Reactor) : Prop where
  worker : s.worker.Inside N
  pending : ∀ ev ∈ s.pending, 0 ≤ ev.fd ∧ ev.fd < N

variable {N : ℤ} {s s' : Reactor} {input : ReactorInput}

/-- **A step that fits** keeps to the array. -/
theorem Inside.step (h : s.Inside N) (hadm : s.Admits input) (hfits : s.Fits N input)
    (hstep : s.step input = some s') : s'.Inside N := by
  unfold Reactor.step at hstep
  split at hstep
  swap
  · exact absurd hstep (by simp)
  next hrun =>
  have hpending := h.pending
  unfold Reactor.pending at hpending
  split at hstep
  · obtain rfl := Option.some.inj hstep
    exact ⟨{ h.worker with }, fun ev hev => absurd hev List.not_mem_nil⟩
  · obtain rfl := Option.some.inj hstep
    exact ⟨{ h.worker with }, fun ev hev => h.worker.table.watched ev.fd (hadm ev hev)⟩
  · next ev events input hphase =>
    obtain rfl := Option.some.inj hstep
    rw [hphase] at hpending
    refine ⟨?_, hpending⟩
    have haccess : Worker.Inside N { s.worker with table := s.worker.table.access ev.fd } :=
      { h.worker with table := h.worker.table.access (hpending ev List.mem_cons_self) }
    unfold Worker.dispatchRead
    dsimp only
    split
    · next htrigger =>
      refine haccess.callback (fun hproc a ha hjoins => ⟨hadm a ha, hfits ?_ a ha hjoins⟩)
      unfold nextCallback
      rw [if_pos hrun, hphase]
      exact (if_pos htrigger).trans hproc
    · exact haccess
  · next ev events input hphase =>
    obtain rfl := Option.some.inj hstep
    rw [hphase] at hpending
    refine ⟨?_, fun ev' hev' => hpending ev' (List.mem_cons_of_mem _ hev')⟩
    unfold Worker.dispatchWrite
    dsimp only
    split
    · next htrigger =>
      refine h.worker.callback (fun hproc a ha hjoins => ⟨hadm a ha, hfits ?_ a ha hjoins⟩)
      unfold nextCallback
      rw [if_pos hrun, hphase]
      exact (if_pos htrigger).trans hproc
    · exact h.worker
  · obtain rfl := Option.some.inj hstep
    exact ⟨h.worker.expire, fun ev hev => absurd hev List.not_mem_nil⟩
  · exact absurd hstep (by simp)

/-- **A step that does not fit** overruns the array. -/
theorem Inside.beyond (h : s.Inside N) (hfits : ¬ s.Fits N input) :
    ∃ s', s.step input = some s' ∧ ¬ s'.worker.table.overrun = false := by
  cases input with
  | wait now events => exact absurd trivial hfits
  | expire => exact absurd trivial hfits
  | callback input =>
    unfold Fits at hfits
    push Not at hfits
    obtain ⟨hnext, a, haccept, hjoins, hbeyond⟩ := hfits
    have hpending := h.pending
    unfold Reactor.pending at hpending
    unfold nextCallback at hnext
    unfold Reactor.step
    split at hnext
    swap
    · exact absurd hnext (by simp)
    next hrun =>
    rw [if_pos hrun]
    split at hnext
    · next ev events hphase =>
      rw [hphase] at hpending ⊢
      have hfd := hpending ev List.mem_cons_self
      have haccess : Worker.Inside N { s.worker with table := s.worker.table.access ev.fd } :=
        { h.worker with table := h.worker.table.access hfd }
      split at hnext
      swap
      · exact absurd hnext (by simp)
      next htrigger =>
      refine ⟨_, rfl, ?_⟩
      show ¬ (s.worker.dispatchRead ev input).table.overrun = false
      unfold Worker.dispatchRead
      dsimp only
      rw [show ((s.worker.table.access ev.fd).slot ev.fd) = s.worker.table.slot ev.fd from rfl,
        if_pos htrigger, hnext,
        Worker.call_beyond haccess hfd.1 haccept hjoins hbeyond]
      decide
    · next ev events hphase =>
      rw [hphase] at hpending ⊢
      have hfd := hpending ev List.mem_cons_self
      split at hnext
      swap
      · exact absurd hnext (by simp)
      next htrigger =>
      refine ⟨_, rfl, ?_⟩
      show ¬ (s.worker.dispatchWrite ev input).table.overrun = false
      unfold Worker.dispatchWrite
      dsimp only
      rw [if_pos htrigger, hnext, Worker.call_beyond h.worker hfd.1 haccept hjoins hbeyond]
      decide
    · exact absurd hnext (by simp)

instance (s : Reactor) : ∀ input, Decidable (s.Admits input)
  | .wait _ events => inferInstanceAs (Decidable (∀ ev ∈ events.getD [], _))
  | .callback input => inferInstanceAs (Decidable (∀ a ∈ Worker.client input.accept, _))
  | .expire => inferInstanceAs (Decidable True)

instance (s : Reactor) : ∀ input, Decidable (s.Fits N input)
  | .wait _ _ => inferInstanceAs (Decidable True)
  | .callback input => inferInstanceAs (Decidable (s.nextCallback = some .processAcceptCallback →
    ∀ a ∈ Worker.client input.accept, Worker.Joins a → a.iClientFd < N))
  | .expire => inferInstanceAs (Decidable True)

end Reactor

namespace Worker

variable {N fd : ℤ} {o : Creation} {w : Worker}

/-- **A new worker uses its slots in range exactly if** the listening descriptor is
not the one that the bound lets through. -/
theorem eventBaseCreateFrom_inside_iff
    (hfresh : ∀ e, o.epoll = some e → ∀ g, (e.fd g).isRegistered = false)
    (h : eventBaseCreateFrom fd N o = some w) :
    (fd ≠ N → w.Inside N) ∧ (w.table.overrun = false → fd ≠ N) := by
  obtain ⟨hpos, -, mem, e, -, he, -, hlt, hconns, hadd⟩ := eventBaseCreateFrom_eq_some h
  have hres : (EventCall.add fd eventReadable (some .processAcceptCallback) none).result
      (freshTable N mem e) = (Ret.succ, w.table) := hadd
  have hbounded := EventCall.bounded_iff (t := freshTable N mem e) (N := N)
    (c := .add fd eventReadable (some .processAcceptCallback) none) rfl rfl hpos
  rw [hres] at hbounded
  have hfresh' : (freshTable N mem e).Inside N := by
    refine ⟨rfl, rfl, fun g hg => ?_⟩
    have hreg : (e.fd g).isRegistered = true := hg
    rw [hfresh e he g] at hreg
    exact absurd hreg (by decide)
  refine ⟨fun hne => ?_, fun hin heq => ?_⟩
  · -- a descriptor beyond the bound is refused, and no worker returned
    have hrange : fd < N := by
      by_contra hge
      have hfail := (hbounded.mpr hne).2 (not_lt.mp hge)
      have hret : Ret.succ = Ret.fail := congrArg Prod.fst hfail
      exact absurd hret (by decide)
    refine ⟨hfresh'.result (c := .add fd eventReadable (some .processAcceptCallback) none)
      ⟨hpos, hrange⟩ hres, hlt, fun c conn hc => ?_⟩
    rw [hconns c] at hc
    exact absurd hc (by simp)
  · have hover := EventCall.overrun_result (t := freshTable N mem e)
      (c := .add fd eventReadable (some .processAcceptCallback) none) heq.le
    rw [hres, hin] at hover
    have hlt := (EventTable.overrun_access.mp hover.symm).2.2
    exact absurd hlt (not_lt.mpr heq.ge)

end Worker

/-- **The slots are indexed in range, exactly if no new descriptor is one too
many.** For a table of any size: `EventAdd` and `EventDel` keep to the array, and
refuse what is beyond it, if and only if they are not called for the descriptor
that is equal to the size. And over any run of the loop of a worker that
`EventBaseCreate` returned, the array is never overrun if and only if that is not
the listening descriptor and no client joins on a descriptor from there on. -/
theorem reactor_indexed_iff (N : ℤ) :
    (∀ (t : EventTable) (c : EventCall), t.iFdEventArraySize = N → t.overrun = false →
        0 ≤ c.iFd →
        ((c.result t).2.overrun = false ∧ (N ≤ c.iFd → c.result t = (Ret.fail, t)) ↔ c.iFd ≠ N))
      ∧ ∀ (fd : ℤ) (o : Worker.Creation) (w : Worker) (inputs : List ReactorInput),
        (∀ e, o.epoll = some e → ∀ g, (e.fd g).isRegistered = false) →
        Worker.eventBaseCreateFrom fd N o = some w →
        Run.Along Reactor.step Reactor.Admits ⟨w, .waiting⟩ inputs →
        (Run.Always Reactor.step (fun s => s.worker.table.overrun = false) ⟨w, .waiting⟩ inputs
          ↔ fd ≠ N ∧ Run.Along Reactor.step (Reactor.Fits N) ⟨w, .waiting⟩ inputs) := by
  refine ⟨fun t c hsize hwithin hfd => EventCall.bounded_iff hsize hwithin hfd, ?_⟩
  intro fd o w inputs hfresh hnew hadm
  obtain ⟨hinside, hne⟩ := Worker.eventBaseCreateFrom_inside_iff hfresh hnew
  have hiff : fd ≠ N → (Run.Always Reactor.step (fun s => s.worker.table.overrun = false)
      ⟨w, .waiting⟩ inputs ↔ Run.Along Reactor.step (Reactor.Fits N) ⟨w, .waiting⟩ inputs) := by
    intro hfd
    refine Run.always_iff_along (P := Reactor.Inside N) (H := Reactor.Admits)
      (fun s h => h.worker.table.within) (fun s input s' h hadm hfits => h.step hadm hfits)
      (fun s input h _ hfits => h.beyond hfits) ⟨hinside hfd, ?_⟩ hadm
    exact fun ev hev => absurd hev List.not_mem_nil
  constructor
  · intro h
    have hfd := hne h.head
    exact ⟨hfd, (hiff hfd).mp h⟩
  · rintro ⟨hfd, hfits⟩
    exact (hiff hfd).mpr hfits

/-- A worker of eight slots that listens on descriptor `3`. -/
def eightSlots : Worker :=
  eventBaseCreate (Worker.freshTable 8 (fun _ => FdEvent.zero)
    { fd := Function.update (fun _ => .closed) 3 .opened
      answer := fun _ => .granted
      calls := 0
      failed := false }) (fun _ => ⟨0, 0, 0, ⟨0, 0⟩, ⟨0, 0⟩, none, none⟩) ⟨10, 0⟩ 3 1

theorem eightSlots_created :
    Worker.eventBaseCreateFrom 3 8 (Worker.creation fun _ => FdEvent.zero) = some eightSlots :=
  Worker.eventBaseCreateFrom_zero (by decide) (by decide) (fun _ => rfl)

theorem creation_fresh {mem : ℤ → FdEvent} (e : Epoll)
    (he : (Worker.creation mem).epoll = some e) (g : ℤ) : (e.fd g).isRegistered = false := by
  obtain rfl := Option.some.inj he
  show (Function.update (fun _ : ℤ => KernelFd.closed) 3 .opened g).isRegistered = false
  by_cases hg : g = 3
  · rw [hg, Function.update_self]
    rfl
  · rw [Function.update_of_ne hg]
    rfl

/-- A client connects to descriptor `3` and is given the descriptor `fd`. -/
def acceptingInputs (fd : ℤ) : List ReactorInput :=
  [.wait ⟨10, 0⟩ (some [⟨3, true, false, false, false⟩]),
    .callback (.accepting { reusedAccepted with iClientFd := fd }),
    .callback (.accepting { reusedAccepted with iClientFd := fd }), .expire]

/-- A client on the last of eight slots. -/
theorem reactor_indexed_sample :
    Run.Always Reactor.step (fun s => s.worker.table.overrun = false) ⟨eightSlots, .waiting⟩
      (acceptingInputs 7) :=
  ((reactor_indexed_iff 8).2 3 _ _ _ creation_fresh eightSlots_created (by decide +kernel)).mpr
    ⟨by decide, by decide +kernel⟩

/-- **One client too many**: descriptor `8` has no slot among the eight, and
`EventAdd` does not refuse it. -/
theorem reactor_not_indexed :
    ¬ ∀ (w : Worker) (inputs : List ReactorInput),
      Worker.eventBaseCreateFrom 3 8 (Worker.creation fun _ => FdEvent.zero) = some w →
      Run.Along Reactor.step Reactor.Admits ⟨w, .waiting⟩ inputs →
      Run.Always Reactor.step (fun s => s.worker.table.overrun = false) ⟨w, .waiting⟩ inputs := by
  intro h
  have halways := h eightSlots (acceptingInputs 8) eightSlots_created (by decide +kernel)
  have hjoined := ((halways.2 _ rfl).2 _ rfl).head
  exact absurd hjoined (by decide +kernel)
