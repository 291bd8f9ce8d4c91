import TcpFrame.EventTableRuns

/-!
# Registrations that fail

What `EventAdd` and `EventDel` leave behind where `epoll_ctl` fails. Both change
the slot first and tell the kernel then, and neither takes the change back. So a
call that fails has left the slot alone only if there was nothing to change, and
a mask that was changed for nothing makes the next call return early.

`eventTable_atomic_iff` is about runs of calls with any failures: they are
atomic, and the masks stay what the kernel was told, exactly if every call that
gets to `epoll_ctl` finds it succeed, or has nothing to change.
-/

variable {t t' : EventTable} {fd g : ℤ} {m : BitVec 32} {ev : FdEvent} {oper : EpollOper}

/-! ## Success of a call to `epoll_ctl` -/

/-- Whether the next call to `epoll_ctl` succeeds. -/
def Epoll.succeeds (e : Epoll) (iOper : EpollOper) (fd : ℤ) : Bool :=
  match e.answer e.calls with
  | .byRules => (e.fd fd).admits iOper
  | .refused => false
  | .granted => true

/-- Where the kernel lets nothing through against its rules, what succeeds is
admitted. -/
theorem Epoll.admits_of_succeeds {e : Epoll} (hreal : ∀ n, e.answer n ≠ .granted)
    (h : e.succeeds oper fd = true) : (e.fd fd).admits oper = true := by
  unfold Epoll.succeeds at h
  cases hans : e.answer e.calls with
  | byRules => rwa [hans] at h
  | refused => exact absurd h (by simp [hans])
  | granted => exact absurd hans (hreal _)

theorem Epoll.ctl_succeeds {e : Epoll} {events : EpollEvents} (h : e.succeeds oper fd = true) :
    e.ctl oper fd events
      = (Ret.succ, { e with calls := e.calls + 1 }.setFd fd ((e.fd fd).set oper events)) :=
  if_pos h

theorem Epoll.ctl_fails {e : Epoll} {events : EpollEvents} (h : e.succeeds oper fd = false) :
    e.ctl oper fd events = (Ret.fail, { e with calls := e.calls + 1, failed := true }) :=
  if_neg (Bool.eq_false_iff.mp h)

theorem EventTable.commit_succeeds (h : t.epoll.succeeds oper fd = true) :
    (t.access fd).commit fd ev oper
      = (Ret.succ, t.updated fd ev ((t.epoll.fd fd).set oper (epollEvents ev.iMask))) := by
  have hsame : ((t.access fd).setSlot fd ev).epoll.succeeds oper fd = true := h
  unfold EventTable.commit
  dsimp only
  rw [Epoll.ctl_succeeds hsame]
  rfl

/-- **Where `epoll_ctl` fails**, the slot has been changed all the same. -/
theorem EventTable.commit_fails (h : t.epoll.succeeds oper fd = false) :
    (t.access fd).commit fd ev oper = (Ret.fail, { (t.access fd).setSlot fd ev with
      epoll := { t.epoll with calls := t.epoll.calls + 1, failed := true } }) := by
  have hsame : ((t.access fd).setSlot fd ev).epoll.succeeds oper fd = false := h
  unfold EventTable.commit
  dsimp only
  rw [Epoll.ctl_fails hsame]
  rfl

/-! ## Calls -/

/-- A call to one of the two functions. -/
inductive EventCall where
  | add (t_iFd : ℤ) (t_iEventMask : BitVec 32) (t_pEventCallbackProc : Option EventCallbackProc)
    (t_pstCallbackArg : Option ConnPtr)
  | del (t_iFd : ℤ) (t_iEventMask : BitVec 32)
  deriving DecidableEq, Repr

namespace EventCall

/-- The descriptor a call is about. -/
def iFd : EventCall → ℤ
  | add fd _ _ _ => fd
  | del fd _ => fd

/-- What a call returns, and the table it leaves. -/
def result (t : EventTable) : EventCall → Ret × EventTable
  | add fd m cb arg => eventAdd t fd m cb arg
  | del fd m => eventDel t fd m

/-- **One call.** -/
def step (t : EventTable) (c : EventCall) : Option EventTable := some (c.result t).2

/-- The slot a call writes and the operation it asks of `epoll_ctl`, unless it
returns early. -/
def request (t : EventTable) : EventCall → Option (FdEvent × EpollOper)
  | add fd m cb arg =>
    let ev := t.slot fd
    if ev.iMask &&& m ≠ 0 then none
    else some
      ({ iMask := ev.iMask ||| m
         pFunEventCallbackRead :=
          if m &&& eventReadable ≠ 0 then cb else ev.pFunEventCallbackRead
         pFunEventCallbackWrite :=
          if m &&& eventWritable ≠ 0 then cb else ev.pFunEventCallbackWrite
         pstArg := arg },
        if ev.iMask = eventNone then .add else .mod)
  | del fd m =>
    let ev := t.slot fd
    if ev.iMask = eventNone ∨ ev.iMask &&& m = 0 then none
    else some ({ ev with iMask := ev.iMask &&& ~~~m },
      if ev.iMask &&& ~~~m = eventNone then .del else .mod)

/-- A call in range returns early, or ends with its request. -/
theorem result_eq {c : EventCall} (hfd : c.iFd ≤ t.iFdEventArraySize) :
    c.result t = (c.request t).elim (Ret.succ, t.access c.iFd)
      (fun r => (t.access c.iFd).commit c.iFd r.1 r.2) := by
  cases c with
  | add fd m cb arg =>
    have hle : ¬ fd > t.iFdEventArraySize := not_lt.mpr hfd
    show eventAdd t fd m cb arg = _
    unfold eventAdd request
    rw [if_neg hle]
    dsimp only
    rw [show (t.access fd).slot fd = t.slot fd from rfl]
    split <;> rfl
  | del fd m =>
    have hle : ¬ t.iFdEventArraySize < fd := not_lt.mpr hfd
    show eventDel t fd m = _
    unfold eventDel request
    rw [if_neg hle]
    dsimp only
    rw [show (t.access fd).slot fd = t.slot fd from rfl]
    by_cases hnone : (t.slot fd).iMask = eventNone
    · rw [if_pos hnone, if_pos (Or.inl hnone)]
      rfl
    · rw [if_neg hnone]
      by_cases hdel : (t.slot fd).iMask &&& m = 0
      · rw [if_pos hdel, if_pos (Or.inr hdel)]
        rfl
      · rw [if_neg hdel, if_neg (not_or.mpr ⟨hnone, hdel⟩)]
        rfl

/-- **The call has nothing to change**: no events to add, for the argument the
slot has. -/
def Idle (t : EventTable) : EventCall → Prop
  | add fd m _ arg => m = 0 ∧ arg = (t.slot fd).pstArg
  | del _ _ => False

/-- **The call goes through**: the call to `epoll_ctl`, if it gets to one, succeeds,
or there is nothing to change. -/
def Accepted (t : EventTable) (c : EventCall) : Prop :=
  ∀ r, c.request t = some r → t.epoll.succeeds r.2 c.iFd = true ∨ c.Idle t

/-- What a call has asked for is registered. -/
def Registered (t : EventTable) : EventCall → Prop
  | add fd m _ _ => (m &&& eventReadable ≠ 0 → (t.epoll.fd fd).events.epollin = true)
      ∧ (m &&& eventWritable ≠ 0 → (t.epoll.fd fd).events.epollout = true)
  | del _ _ => True

/-- **The call is atomic**: if it fails, it has left the slot alone; and if it is
then repeated with success, what it asks for is registered. -/
structure Atomic (t : EventTable) (c : EventCall) : Prop where
  slot : (c.result t).1 = .fail → (c.result t).2.slot c.iFd = t.slot c.iFd
  retry : (c.result t).1 = .fail → (c.result (c.result t).2).1 = .succ →
    c.Registered (c.result (c.result t).2).2

variable {c : EventCall} {r : FdEvent × EpollOper}

/-- **A request changes the slot**, unless there was nothing to change. -/
theorem request_slot_iff (hr : c.request t = some r) : r.1 = t.slot c.iFd ↔ c.Idle t := by
  cases c with
  | add fd m cb arg =>
    unfold request at hr
    dsimp only at hr
    split at hr
    · exact absurd hr (by simp)
    · next hfree =>
      obtain rfl := Option.some.inj hr
      constructor
      · intro heq
        have hor : (t.slot fd).iMask ||| m = (t.slot fd).iMask := congrArg FdEvent.iMask heq
        refine ⟨?_, congrArg FdEvent.pstArg heq⟩
        have hfree' : (t.slot fd).iMask &&& m = 0#32 := not_not.mp hfree
        have hself : ((t.slot fd).iMask ||| m) &&& m = m := by
          rw [BitVec.and_or_distrib_right, hfree', BitVec.and_self, BitVec.zero_or]
        rw [hor, hfree'] at hself
        exact hself.symm
      · rintro ⟨rfl, harg⟩
        show FdEvent.mk _ _ _ _ = t.slot fd
        rw [if_neg (by decide), if_neg (by decide), harg,
          show (t.slot fd).iMask ||| 0 = (t.slot fd).iMask from BitVec.or_zero]
  | del fd m =>
    unfold request at hr
    dsimp only at hr
    split at hr
    · exact absurd hr (by simp)
    · next hset =>
      obtain rfl := Option.some.inj hr
      refine ⟨fun heq => ?_, fun hidle => hidle.elim⟩
      have hmask : (t.slot fd).iMask &&& ~~~m = (t.slot fd).iMask := congrArg FdEvent.iMask heq
      refine (not_or.mp hset).2 ?_
      rw [← hmask, BitVec.and_assoc, BitVec.and_comm (~~~m), BitVec.and_not_self]
      exact BitVec.and_zero

/-- What `epoll_ctl` is told are the events of the mask, and a descriptor is
deregistered where there are none. -/
theorem request_del (hr : c.request t = some r) (hoper : r.2 = .del) : r.1.iMask = eventNone := by
  cases c with
  | add fd m cb arg =>
    unfold request at hr
    dsimp only at hr
    split at hr
    · exact absurd hr (by simp)
    · obtain rfl := Option.some.inj hr
      dsimp only at hoper
      split at hoper
      · exact absurd hoper (by decide)
      · exact absurd hoper (by decide)
  | del fd m =>
    unfold request at hr
    dsimp only at hr
    split at hr
    · exact absurd hr (by simp)
    · obtain rfl := Option.some.inj hr
      dsimp only at hoper
      split at hoper
      · next hnone => exact hnone
      · exact absurd hoper (by decide)

theorem result_size_answer (hfd : c.iFd ≤ t.iFdEventArraySize) :
    (c.result t).2.iFdEventArraySize = t.iFdEventArraySize
      ∧ (c.result t).2.epoll.answer = t.epoll.answer := by
  rw [result_eq hfd]
  cases hreq : c.request t with
  | none => exact ⟨rfl, rfl⟩
  | some r =>
    show ((t.access c.iFd).commit c.iFd r.1 r.2).2.iFdEventArraySize = _ ∧ _
    cases hctl : t.epoll.succeeds r.2 c.iFd with
    | true =>
      rw [Option.elim_some, EventTable.commit_succeeds hctl]
      exact ⟨rfl, rfl⟩
    | false =>
      rw [Option.elim_some, EventTable.commit_fails hctl]
      exact ⟨rfl, rfl⟩

/-- **One call is atomic exactly if it goes through**, in any state of the table. -/
theorem atomic_iff (hfd : c.iFd ≤ t.iFdEventArraySize) : c.Atomic t ↔ c.Accepted t := by
  constructor
  · intro h r hr
    by_contra hno
    obtain ⟨hctl, hidle⟩ := not_or.mp hno
    have hres : c.result t = _ := result_eq hfd
    rw [hr, Option.elim_some, EventTable.commit_fails (Bool.eq_false_iff.mpr hctl)] at hres
    have hslot : (c.result t).2.slot c.iFd = r.1 := by
      rw [hres]
      exact Function.update_self ..
    refine hidle ((request_slot_iff hr).mp ?_)
    rw [← hslot]
    exact h.slot (by rw [hres])
  · intro h
    have hres : c.result t = _ := result_eq hfd
    cases hreq : c.request t with
    | none =>
      rw [hreq] at hres
      have hsucc : (c.result t).1 ≠ .fail := by
        rw [hres]
        exact fun hfail => by cases hfail
      exact ⟨fun hfail => absurd hfail hsucc, fun hfail => absurd hfail hsucc⟩
    | some r =>
      rw [hreq, Option.elim_some] at hres
      cases hctl : t.epoll.succeeds r.2 c.iFd with
      | true =>
        rw [EventTable.commit_succeeds hctl] at hres
        have hsucc : (c.result t).1 ≠ .fail := by
          rw [hres]
          exact fun hfail => by cases hfail
        exact ⟨fun hfail => absurd hfail hsucc, fun hfail => absurd hfail hsucc⟩
      | false =>
        have hidle : c.Idle t := (h r hreq).resolve_left (by rw [hctl]; exact Bool.false_ne_true)
        rw [EventTable.commit_fails hctl, (request_slot_iff hreq).mpr hidle] at hres
        refine ⟨fun _ => ?_, fun _ _ => ?_⟩
        · rw [hres]
          exact Function.update_self ..
        · cases c with
          | add fd m cb arg =>
            obtain ⟨rfl, -⟩ := hidle
            exact ⟨fun hm => absurd BitVec.zero_and hm, fun hm => absurd BitVec.zero_and hm⟩
          | del fd m => trivial

end EventCall

/-! ## Runs -/

/-- **The masks are what the kernel was told**: the mask of every slot stands for
the events the kernel watches for. -/
def EventTable.Told (t : EventTable) : Prop :=
  ∀ fd, 0 ≤ fd → fd < t.iFdEventArraySize →
    epollEvents (t.slot fd).iMask = (t.epoll.fd fd).events

/-- What a call that the rules admit makes of a descriptor. -/
theorem KernelFd.events_set {k : KernelFd} {i : EpollEvents} (hadm : k.admits oper = true)
    (hdel : oper = .del → i = ⟨false, false⟩) : (k.set oper i).events = i := by
  cases k with
  | closed => exact absurd hadm (by cases oper <;> decide)
  | opened => cases oper with
    | add => rfl
    | mod => exact absurd hadm (by decide)
    | del => exact absurd hadm (by decide)
  | registered events => cases oper with
    | add => exact absurd hadm (by simp [KernelFd.admits])
    | mod => rfl
    | del => exact (hdel rfl).symm

/-- **A call that goes through** keeps the masks what the kernel was told. -/
theorem EventTable.Told.step {c : EventCall} (h : t.Told)
    (hreal : ∀ n, t.epoll.answer n ≠ .granted) (hfd : c.iFd ≤ t.iFdEventArraySize)
    (hacc : c.Accepted t) : (c.result t).2.Told := by
  have hres : c.result t = _ := EventCall.result_eq hfd
  cases hreq : c.request t with
  | none =>
    rw [hreq, Option.elim_none] at hres
    rw [hres]
    exact h
  | some r =>
    rw [hreq, Option.elim_some] at hres
    cases hctl : t.epoll.succeeds r.2 c.iFd with
    | true =>
      rw [EventTable.commit_succeeds hctl] at hres
      rw [hres]
      intro g hg hlt
      by_cases hgf : g = c.iFd
      · rw [hgf, EventTable.slot_updated, EventTable.fd_updated]
        refine (KernelFd.events_set (Epoll.admits_of_succeeds hreal hctl) fun hdel => ?_).symm
        rw [EventCall.request_del hreq hdel]
        decide
      · rw [EventTable.sameBut_updated.slot g hgf, EventTable.sameBut_updated.kernel g hgf]
        exact h g hg hlt
    | false =>
      -- nothing was to be changed, and nothing was
      have hidle : c.Idle t := (hacc r hreq).resolve_left (by rw [hctl]; exact Bool.false_ne_true)
      rw [EventTable.commit_fails hctl, (EventCall.request_slot_iff hreq).mpr hidle] at hres
      rw [hres]
      intro g hg hlt
      refine (congrArg (fun ev : FdEvent => epollEvents ev.iMask) ?_).trans (h g hg hlt)
      exact congrFun (Function.update_eq_self c.iFd t.pstFdEventsArray) g

/-- **Registration is atomic, exactly if every call goes through.** Over any run of
`EventAdd` and `EventDel` for descriptors in range, from any table and with any
failures of `epoll_ctl`: every call that fails has left its slot alone and can be
repeated, and the masks are at all times what the kernel was told, if and only
if no call that has something to change finds `epoll_ctl` fail. -/
theorem eventTable_atomic_iff {calls : List EventCall}
    (hreal : ∀ n, t.epoll.answer n ≠ .granted)
    (hfds : ∀ c ∈ calls, 0 ≤ c.iFd ∧ c.iFd < t.iFdEventArraySize) :
    Run.Along EventCall.step (fun t c => c.Atomic t) t calls
        ∧ (t.Told → Run.Always EventCall.step EventTable.Told t calls)
      ↔ Run.Along EventCall.step (fun t c => c.Accepted t) t calls := by
  have hinv : Run.Always EventCall.step (fun s => s.iFdEventArraySize = t.iFdEventArraySize
      ∧ s.epoll.answer = t.epoll.answer) t calls := by
    refine Run.always_of_along (G := fun _ c => c.iFd < t.iFdEventArraySize) ?_ ⟨rfl, rfl⟩
      (Run.along_of_forall_mem (fun c hc _ => (hfds c hc).2) t)
    rintro s c s' ⟨hsize, hans⟩ hc hstep
    obtain rfl := Option.some.inj hstep
    obtain ⟨hsize', hans'⟩ :=
      EventCall.result_size_answer (t := s) (c := c) (by rw [hsize]; exact le_of_lt hc)
    exact ⟨hsize'.trans hsize, hans'.trans hans⟩
  have hrange : Run.Along EventCall.step (fun s c => c.iFd ≤ s.iFdEventArraySize
      ∧ ∀ n, s.epoll.answer n ≠ .granted) t calls := by
    refine hinv.along (Run.along_of_forall_mem (G := fun _ c => c.iFd < t.iFdEventArraySize)
      (fun c hc _ => (hfds c hc).2) t) ?_
    rintro s c ⟨hsize, hans⟩ hc
    rw [hsize, hans]
    exact ⟨le_of_lt hc, hreal⟩
  constructor
  · rintro ⟨hatomic, -⟩
    exact hinv.along (hrange.and hatomic) (fun s c _ h => (EventCall.atomic_iff h.1.1).mp h.2)
  · intro hacc
    refine ⟨hinv.along (hrange.and hacc) (fun s c _ h => (EventCall.atomic_iff h.1.1).mpr h.2),
      fun htold => ?_⟩
    refine Run.always_of_along ?_ htold (hrange.and hacc)
    rintro s c s' htold ⟨⟨hfd, hreal⟩, hacc⟩ hstep
    obtain rfl := Option.some.inj hstep
    exact htold.step hreal hfd hacc

instance (t : EventTable) (c : EventCall) : Decidable (c.Idle t) := by
  cases c <;> unfold EventCall.Idle <;> infer_instance

instance (t : EventTable) (c : EventCall) : Decidable (c.Accepted t) :=
  decidable_of_iff (∀ r ∈ c.request t, t.epoll.succeeds r.2 c.iFd = true ∨ c.Idle t) Iff.rfl

/-- An empty table with the descriptor `5` open, whose first call to `epoll_ctl`
finds no memory, or finds some. -/
def openTable (answer : EpollAnswer) : EventTable :=
  { emptyTable with
    epoll := { emptyTable.epoll with
      fd := Function.update emptyTable.epoll.fd 5 .opened
      answer := Function.update (fun _ => .byRules) 0 answer } }

theorem openTable_answer {answer : EpollAnswer} (h : answer ≠ .granted) (n : ℕ) :
    (openTable answer).epoll.answer n ≠ .granted := by
  show Function.update (fun _ => EpollAnswer.byRules) 0 answer n ≠ _
  by_cases hn : n = 0
  · rw [hn, Function.update_self]
    exact h
  · rw [Function.update_of_ne hn]
    decide

theorem openTable_told {answer : EpollAnswer} : (openTable answer).Told := by
  intro fd _ _
  show epollEvents eventNone
    = KernelFd.events (Function.update (fun _ => KernelFd.closed) 5 .opened fd)
  by_cases hfd : fd = 5
  · rw [hfd, Function.update_self]
    decide
  · rw [Function.update_of_ne hfd]
    decide

/-- Both directions are registered and deregistered. -/
theorem eventTable_atomic_sample :
    Run.Along EventCall.step (fun t c => c.Atomic t) (openTable .byRules)
      [.add 5 eventReadable (some .processRecvCallback) (some 1),
        .add 5 eventWritable (some .processSendCallback) (some 1), .del 5 3] :=
  ((eventTable_atomic_iff (openTable_answer (by decide)) (by decide)).mpr (by decide)).1

/-- **A registration that fails is not undone**, and repeated it does nothing
and returns `RET_SUCC`. -/
theorem eventTable_not_atomic :
    ¬ ∀ (t : EventTable) (c : EventCall), (∀ n, t.epoll.answer n ≠ .granted) → t.Told →
      0 ≤ c.iFd → c.iFd < t.iFdEventArraySize →
      ((c.result t).1 = .fail → (c.result t).2.slot c.iFd = t.slot c.iFd)
        ∧ ((c.result t).1 = .fail → (c.result (c.result t).2).1 = .succ →
          c.Registered (c.result (c.result t).2).2) := by
  intro h
  obtain ⟨-, hretry⟩ := h (openTable .refused)
    (.add 5 eventWritable (some .processSendCallback) (some 1))
    (openTable_answer (by decide)) openTable_told (by decide) (by decide)
  exact absurd ((hretry (by decide) (by decide)).2 (by decide)) (by decide)
