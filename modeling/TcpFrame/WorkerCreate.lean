import TcpFrame.Worker
import TcpFrame.EventTableFailures

/-!
# Creating a worker

`EventBaseCreate` with all that may fail on the way, over whatever memory
`malloc` returns for the slots. Nobody writes to the slots before `EventAdd`
reads the one of the listening descriptor, so what it does depends on that
memory: on the mask, by which it returns early or chooses its operation, and on
the callback for writing, which it leaves as it is. `eventBaseCreate_listens_iff`
is a statement about two creations over two memories.
-/

namespace Worker

/-- What a creation finds: the blocks `malloc` returns, or `NULL`, the instance
`epoll_create` makes, the time, and the memory of the timer nodes. -/
structure Creation where
  pstEventBase : Bool
  epoll : Option Epoll
  pstEpollEvents : Bool
  pstFdEventsArray : Option (ℤ → FdEvent)
  pstTimeCache : Bool
  gettimeofday : TimeVal
  pstHeapHeader : Bool
  event : NodePtr → TimeoutEvent
  iPid : ℤ

/-- `__CreateNewEventBase`. What `memset` has cleared and nobody has written to is
`0`. -/
def createNewEventBase (t_iEventSize : ℤ) (o : Creation) : Option Worker :=
  if t_iEventSize ≤ 0 then none
  else if !o.pstEventBase then none
  else
    match o.epoll with
    | none => none
    | some epoll =>
      if !o.pstEpollEvents then none
      else
        match o.pstFdEventsArray with
        | none => none
        | some pstFdEventsArray =>
          if !o.pstTimeCache then none
          else if !o.pstHeapHeader then none
          else
            some
              { table :=
                  { iFdEventArraySize := t_iEventSize
                    pstFdEventsArray := pstFdEventsArray
                    epoll := epoll
                    overrun := false }
                pstHeapHeader := minheapCreate o.event
                pstTimeCache := o.gettimeofday
                iEpType := 0
                iListenFd := 0
                iClientCount := 0
                iPid := o.iPid
                conns := fun _ => none
                nextSerial := 0
                timeouts := []
                invoked := []
                fate := .running }

/-- `EventBaseCreate`, whatever fails, or `NULL`. -/
def eventBaseCreateFrom (t_iFd t_iMaxEventSize : ℤ) (o : Creation) : Option Worker :=
  if t_iFd < 0 ∨ t_iMaxEventSize ≤ 0 then none
  else
    match createNewEventBase t_iMaxEventSize o with
    | none => none
    | some w =>
      let w := { w with iListenFd := t_iFd, iEpType := epollLtType }
      match eventAdd w.table w.iListenFd eventReadable (some .processAcceptCallback) none with
      | (Ret.fail, _) => none
      | (Ret.succ, table) => some { w with table := table }

variable {o : Creation} {mem mem' : ℤ → FdEvent} {e : Epoll} {fd N : ℤ} {w w' : Worker}
  {t t' : EventTable}

/-- The table a new worker has before the listening descriptor is registered. -/
def freshTable (N : ℤ) (mem : ℤ → FdEvent) (e : Epoll) : EventTable where
  iFdEventArraySize := N
  pstFdEventsArray := mem
  epoll := e
  overrun := false

/-- **A creation that returns a worker** has registered the listening descriptor
in the slots as they were. -/
theorem eventBaseCreateFrom_eq_some (h : eventBaseCreateFrom fd N o = some w) :
    0 ≤ fd ∧ 0 < N ∧ ∃ mem e, o.pstFdEventsArray = some mem ∧ o.epoll = some e
      ∧ w.iListenFd = fd ∧ w.iEpType = epollLtType ∧ (∀ c, w.conns c = none)
      ∧ eventAdd (freshTable N mem e) fd eventReadable (some .processAcceptCallback) none
        = (Ret.succ, w.table) := by
  unfold eventBaseCreateFrom at h
  split at h
  · exact absurd h (by simp)
  next hargs =>
  obtain ⟨hfd, hN⟩ := not_or.mp hargs
  split at h
  · exact absurd h (by simp)
  next w₀ hnew =>
  unfold createNewEventBase at hnew
  rw [if_neg hN] at hnew
  split at hnew
  · exact absurd hnew (by simp)
  split at hnew
  · exact absurd hnew (by simp)
  next e he =>
  split at hnew
  · exact absurd hnew (by simp)
  split at hnew
  · exact absurd hnew (by simp)
  next mem hmem =>
  split at hnew
  · exact absurd hnew (by simp)
  split at hnew
  · exact absurd hnew (by simp)
  obtain rfl := Option.some.inj hnew
  dsimp only at h
  split at h
  · exact absurd h (by simp)
  next table hadd =>
  obtain rfl := Option.some.inj h
  exact ⟨not_lt.mp hfd, not_le.mp hN, mem, e, hmem, he, rfl, rfl, fun _ => rfl, hadd⟩

/-- Over zero slots, and where nothing fails, the worker is the one of
`eventBaseCreate`. -/
theorem eventBaseCreateFrom_zero (hfd : 0 ≤ fd) (hlt : fd < N)
    (hgranted : ∀ n, e.answer n = .granted) {event : NodePtr → TimeoutEvent} {now : TimeVal}
    {iPid : ℤ} :
    eventBaseCreateFrom fd N ⟨true, some e, true, some (fun _ => FdEvent.zero), true, now, true,
        event, iPid⟩
      = some (eventBaseCreate (freshTable N (fun _ => FdEvent.zero) e) event now fd iPid) := by
  have hadd : (eventAdd (freshTable N (fun _ => FdEvent.zero) e) fd eventReadable
      (some .processAcceptCallback) none).1 = .succ := by
    have hle : ¬ fd > (freshTable N (fun _ => FdEvent.zero) e).iFdEventArraySize := not_lt.mpr hlt.le
    unfold eventAdd
    rw [if_neg hle]
    dsimp only
    rw [show ((freshTable N (fun _ => FdEvent.zero) e).access fd).slot fd = FdEvent.zero from rfl,
      if_neg (show ¬ FdEvent.zero.iMask &&& eventReadable ≠ 0 by decide),
      EventTable.commit_granted hgranted]
  have hpair : eventAdd (freshTable N (fun _ => FdEvent.zero) e) fd eventReadable
      (some .processAcceptCallback) none = (Ret.succ, (eventAdd (freshTable N
        (fun _ => FdEvent.zero) e) fd eventReadable (some .processAcceptCallback) none).2) :=
    Prod.ext hadd rfl
  have hnew : createNewEventBase N ⟨true, some e, true, some (fun _ => FdEvent.zero), true, now,
      true, event, iPid⟩ = some
        { eventBaseCreate (freshTable N (fun _ => FdEvent.zero) e) event now fd iPid with
          table := freshTable N (fun _ => FdEvent.zero) e
          iEpType := 0
          iListenFd := 0 } := if_neg (not_le.mpr (hfd.trans_lt hlt))
  unfold eventBaseCreateFrom
  rw [if_neg (not_or.mpr ⟨not_lt.mpr hfd, not_le.mpr (hfd.trans_lt hlt)⟩), hnew]
  dsimp only
  rw [hpair]
  rfl

/-! ## What the memory does -/

/-- **Registering the listening descriptor**, where that succeeds: nothing is done
if the mask has the event already, and otherwise it is added to whatever the
slot holds. -/
theorem eventAdd_listen (hfd : fd ≤ t.iFdEventArraySize) (hopen : t.epoll.fd fd = .opened)
    (hadd : eventAdd t fd eventReadable (some .processAcceptCallback) none = (Ret.succ, t')) :
    ((t.slot fd).iMask &&& eventReadable ≠ 0 ∧ t'.epoll.fd fd = .opened)
      ∨ ((t.slot fd).iMask &&& eventReadable = 0
        ∧ t'.slot fd = ⟨(t.slot fd).iMask ||| eventReadable, (t.slot fd).pFunEventCallbackWrite,
          some .processAcceptCallback, none⟩
        ∧ t'.epoll.fd fd = .registered (epollEvents ((t.slot fd).iMask ||| eventReadable))) := by
  have hle : ¬ fd > t.iFdEventArraySize := not_lt.mpr hfd
  unfold eventAdd at hadd
  rw [if_neg hle] at hadd
  dsimp only at hadd
  rw [show (t.access fd).slot fd = t.slot fd from rfl] at hadd
  by_cases hset : (t.slot fd).iMask &&& eventReadable ≠ 0
  · rw [if_pos hset] at hadd
    obtain rfl := (Prod.mk.inj hadd).2
    exact Or.inl ⟨hset, hopen⟩
  · rw [if_neg hset, if_neg (show ¬ eventReadable &&& eventWritable ≠ 0 by decide),
      if_pos (show eventReadable &&& eventReadable ≠ 0 by decide)] at hadd
    have hset' : (t.epoll.fd fd).set (if (t.slot fd).iMask = eventNone then .add else .mod)
        (epollEvents ((t.slot fd).iMask ||| eventReadable))
        = .registered (epollEvents ((t.slot fd).iMask ||| eventReadable)) := by
      rw [hopen]
      split <;> rfl
    cases hctl : t.epoll.succeeds (if (t.slot fd).iMask = eventNone then .add else .mod) fd with
    | false =>
      rw [EventTable.commit_fails hctl] at hadd
      exact absurd (Prod.mk.inj hadd).1 (by decide)
    | true =>
      rw [EventTable.commit_succeeds hctl, hset'] at hadd
      obtain rfl := (Prod.mk.inj hadd).2
      exact Or.inr ⟨not_not.mp hset, EventTable.slot_updated, EventTable.fd_updated⟩

/-- A mask with the reading event alone beside what it had, had nothing. -/
theorem mask_of_or_readable {m : BitVec 32} (hfree : m &&& eventReadable = 0)
    (hor : m ||| eventReadable = eventReadable) : m = 0 := by
  have hself : m &&& (m ||| eventReadable) = m := by
    rw [BitVec.and_or_distrib_left, BitVec.and_self, show m &&& eventReadable = 0#32 from hfree,
      BitVec.or_zero]
  rw [hor, hfree] at hself
  exact hself.symm

/-- **The worker listens**: the listening descriptor is watched for reading, and
for nothing else, and its slot says so and has the accept callback. -/
structure Listening (w : Worker) : Prop where
  mask : (w.table.slot w.iListenFd).iMask = eventReadable
  read : (w.table.slot w.iListenFd).pFunEventCallbackRead = some .processAcceptCallback
  registered : w.table.epoll.fd w.iListenFd = .registered ⟨true, false⟩

/-- **A new worker listens exactly if the mask of its slot was `0`** when `malloc`
returned the memory; its slot then holds what else was there for a callback. -/
theorem listening_iff {fd N : ℤ} (hlt : fd < N) (hmem : o.pstFdEventsArray = some mem)
    (hopen : ∀ e, o.epoll = some e → e.fd fd = .opened)
    (h : eventBaseCreateFrom fd N o = some w) :
    (w.Listening ↔ (mem fd).iMask = 0)
      ∧ ((mem fd).iMask = 0 → w.table.slot fd = ⟨eventReadable, (mem fd).pFunEventCallbackWrite,
          some .processAcceptCallback, none⟩ ∧ w.table.epoll.fd fd = .registered ⟨true, false⟩) := by
  obtain ⟨-, -, mem₀, e, hmem₀, he, hfd, -, -, hadd⟩ := eventBaseCreateFrom_eq_some h
  obtain rfl : mem = mem₀ := Option.some.inj (hmem.symm.trans hmem₀)
  rcases eventAdd_listen (t := freshTable N mem e) hlt.le (hopen e he) hadd with
    ⟨hset, hkernel⟩ | ⟨hfree, hslot, hkernel⟩
  · -- the event was in the mask, so nothing was registered
    have hset' : (mem fd).iMask &&& eventReadable ≠ 0 := hset
    have hnone : (mem fd).iMask ≠ 0 := fun hzero => hset' (by rw [hzero]; exact BitVec.zero_and)
    refine ⟨⟨fun hlisten => ?_, fun hzero => absurd hzero hnone⟩, fun hzero => absurd hzero hnone⟩
    have hreg := hlisten.registered
    rw [hfd, hkernel] at hreg
    exact absurd hreg (by simp)
  · have hslot' : w.table.slot fd = ⟨(mem fd).iMask ||| eventReadable,
      (mem fd).pFunEventCallbackWrite, some .processAcceptCallback, none⟩ := hslot
    have hkernel' : w.table.epoll.fd fd
      = .registered (epollEvents ((mem fd).iMask ||| eventReadable)) := hkernel
    have hdone : (mem fd).iMask = 0 → w.table.slot fd = ⟨eventReadable,
        (mem fd).pFunEventCallbackWrite, some .processAcceptCallback, none⟩
        ∧ w.table.epoll.fd fd = .registered ⟨true, false⟩ := by
      intro hzero
      rw [hzero] at hslot' hkernel'
      exact ⟨hslot', hkernel'⟩
    refine ⟨⟨fun hlisten => ?_, fun hzero => ?_⟩, hdone⟩
    · have hmask := hlisten.mask
      rw [hfd, hslot'] at hmask
      exact mask_of_or_readable hfree hmask
    · obtain ⟨hslot₀, hkernel₀⟩ := hdone hzero
      refine ⟨?_, ?_, ?_⟩
      · rw [hfd, hslot₀]
      · rw [hfd, hslot₀]
      · rw [hfd, hkernel₀]

/-- **A new worker always listens, exactly if** the mask of the slot was `0` and the
callback for writing the same in both memories. Two creations that differ in the
memory of the slots alone, and both return a worker. -/
theorem eventBaseCreate_listens_iff {fd N : ℤ} (hlt : fd < N)
    (hopen : ∀ e, o.epoll = some e → e.fd fd = .opened)
    (h : eventBaseCreateFrom fd N { o with pstFdEventsArray := some mem } = some w)
    (h' : eventBaseCreateFrom fd N { o with pstFdEventsArray := some mem' } = some w') :
    (w.Listening ∧ w'.Listening ∧ w.table.slot fd = w'.table.slot fd
        ∧ w.table.epoll.fd fd = w'.table.epoll.fd fd)
      ↔ (mem fd).iMask = 0 ∧ (mem' fd).iMask = 0
        ∧ (mem fd).pFunEventCallbackWrite = (mem' fd).pFunEventCallbackWrite := by
  obtain ⟨hiff, hdone⟩ := listening_iff (o := { o with pstFdEventsArray := some mem }) hlt rfl hopen h
  obtain ⟨hiff', hdone'⟩ :=
    listening_iff (o := { o with pstFdEventsArray := some mem' }) hlt rfl hopen h'
  rw [hiff, hiff']
  constructor
  · rintro ⟨hzero, hzero', hslot, -⟩
    refine ⟨hzero, hzero', ?_⟩
    rw [(hdone hzero).1, (hdone' hzero').1] at hslot
    exact (congrArg FdEvent.pFunEventCallbackWrite hslot :)
  · rintro ⟨hzero, hzero', hwrite⟩
    refine ⟨hzero, hzero', ?_, ?_⟩
    · rw [(hdone hzero).1, (hdone' hzero').1, hwrite]
    · rw [(hdone hzero).2, (hdone' hzero').2]

/-- A creation for the listening descriptor `3` over `mem`, in which nothing
fails. -/
def creation (mem : ℤ → FdEvent) : Creation where
  pstEventBase := true
  epoll := some
    { fd := Function.update (fun _ => .closed) 3 .opened
      answer := fun _ => .granted
      calls := 0
      failed := false }
  pstEpollEvents := true
  pstFdEventsArray := some mem
  pstTimeCache := true
  gettimeofday := ⟨10, 0⟩
  pstHeapHeader := true
  event := fun _ => ⟨0, 0, 0, ⟨0, 0⟩, ⟨0, 0⟩, none, none⟩
  iPid := 1

theorem creation_opened {mem : ℤ → FdEvent} (e : Epoll) (he : (creation mem).epoll = some e) :
    e.fd 3 = .opened := by
  obtain rfl := Option.some.inj he
  show Function.update (fun _ : ℤ => KernelFd.closed) 3 .opened 3 = .opened
  exact Function.update_self ..

/-- Memory whose slots have no mask, with different words for their arguments. -/
theorem eventBaseCreate_listens_sample :
    ∃ w w', eventBaseCreateFrom 3 8 (creation fun _ => FdEvent.zero) = some w
      ∧ eventBaseCreateFrom 3 8 (creation fun _ => ⟨0, none, some (.wild 7), some 9⟩) = some w'
      ∧ w.Listening ∧ w'.Listening ∧ w.table.slot 3 = w'.table.slot 3 := by
  obtain ⟨w, hw⟩ : ∃ w, eventBaseCreateFrom 3 8 (creation fun _ => FdEvent.zero) = some w :=
    ⟨_, rfl⟩
  obtain ⟨w', hw'⟩ : ∃ w, eventBaseCreateFrom 3 8
      (creation fun _ => ⟨0, none, some (.wild 7), some 9⟩) = some w := ⟨_, rfl⟩
  obtain ⟨hlisten, hlisten', hslot, -⟩ := (eventBaseCreate_listens_iff
    (o := creation fun _ => FdEvent.zero) (by decide) creation_opened hw hw').mpr ⟨rfl, rfl, rfl⟩
  exact ⟨w, w', hw, hw', hlisten, hlisten', hslot⟩

/-- **A worker that does not listen**: the memory of its slots is not zero, and
`EventBaseCreate` returns a base all the same. -/
theorem eventBaseCreate_not_listens :
    ¬ ∀ (mem : ℤ → FdEvent) (w : Worker),
      eventBaseCreateFrom 3 8 (creation mem) = some w → w.Listening := by
  intro h
  have hlisten := h (fun _ => ⟨0xffffffff, none, none, none⟩) _ rfl
  exact absurd hlisten.mask (by decide)

end Worker
