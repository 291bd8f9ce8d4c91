import TcpFrame.EventTable
import TcpFrame.Lib.Run

/-!
# The event table agrees with the kernel

Over any run of accepts, registrations, deregistrations and teardowns, the
masks in the table are the events the kernel watches for, and no call to
`epoll_ctl` fails (`eventTable_always_agrees`).

The mask of a slot is read as a set of events: `maskOf` is the mask of a set,
and a slot tracks a descriptor if its mask is that of the watched events and
the callbacks for them are there (`FdEvent.Tracks`). On the sets, `EventAdd`
adds an event (`eventAdd_spec`) and `EventDel` removes those of its mask
(`eventDel_spec`), whichever operation of `epoll_ctl` they choose.
-/

variable {t t' : EventTable} {fd g : ℤ} {m : BitVec 32} {i : EpollEvents} {ev : FdEvent}
  {k : KernelFd}

/-! ## Masks as sets of events -/

/-- The mask of a set of events. -/
def maskOf (i : EpollEvents) : BitVec 32 :=
  (if i.epollin then eventReadable else 0) ||| (if i.epollout then eventWritable else 0)

/-- The events a mask removes, or adds. -/
def EpollEvents.minus (i : EpollEvents) (m : BitVec 32) : EpollEvents where
  epollin := i.epollin && !m.getLsbD 1
  epollout := i.epollout && !m.getLsbD 0

@[inherit_doc EpollEvents.minus] def EpollEvents.plus (i : EpollEvents) (m : BitVec 32) :
    EpollEvents where
  epollin := i.epollin || m.getLsbD 1
  epollout := i.epollout || m.getLsbD 0

@[simp] theorem epollEvents_maskOf : epollEvents (maskOf i) = i := by
  obtain ⟨r, w⟩ := i
  cases r <;> cases w <;> rfl

@[simp] theorem maskOf_eq_none : maskOf i = eventNone ↔ i = ⟨false, false⟩ := by
  obtain ⟨r, w⟩ := i
  cases r <;> cases w <;> decide

theorem maskOf_and_readable : maskOf i &&& eventReadable ≠ 0 ↔ i.epollin = true := by
  obtain ⟨r, w⟩ := i
  cases r <;> cases w <;> decide

theorem maskOf_and_writable : maskOf i &&& eventWritable ≠ 0 ↔ i.epollout = true := by
  obtain ⟨r, w⟩ := i
  cases r <;> cases w <;> decide

/-- The two bits of a mask that count. -/
theorem maskOf_and : maskOf i &&& m
    = maskOf ⟨i.epollin && m.getLsbD 1, i.epollout && m.getLsbD 0⟩ := by
  have hr : ∀ b : Bool, (if b then eventReadable else 0) &&& m
      = if b && m.getLsbD 1 then eventReadable else 0 := by
    intro b
    cases b with
    | false => exact BitVec.zero_and
    | true => exact BitVec.twoPow_and m 1
  have hw : ∀ b : Bool, (if b then eventWritable else 0) &&& m
      = if b && m.getLsbD 0 then eventWritable else 0 := by
    intro b
    cases b with
    | false => exact BitVec.zero_and
    | true => exact BitVec.twoPow_and m 0
  unfold maskOf
  rw [BitVec.and_or_distrib_right, hr, hw]

/-- Adding the mask of one event is adding the event. -/
theorem maskOf_or (hm : m = eventReadable ∨ m = eventWritable) :
    maskOf i ||| m = maskOf (i.plus m) := by
  obtain ⟨r, w⟩ := i
  rcases hm with rfl | rfl <;> cases r <;> cases w <;> rfl

/-- An event of the mask is not added twice. -/
theorem plus_eq_self (hm : m = eventReadable ∨ m = eventWritable) (h : maskOf i &&& m ≠ 0) :
    i.plus m = i := by
  obtain ⟨r, w⟩ := i
  rcases hm with rfl | rfl
  · have hr : r = true := maskOf_and_readable.mp h
    rw [hr]
    show EpollEvents.mk true (w || false) = _
    rw [Bool.or_false]
  · have hw : w = true := maskOf_and_writable.mp h
    rw [hw]
    show EpollEvents.mk (r || false) true = _
    rw [Bool.or_false]

/-- Removing events that are not there. -/
theorem minus_eq_self (h : maskOf i &&& m = 0) : i.minus m = i := by
  rw [maskOf_and] at h
  have hempty := maskOf_eq_none.mp h
  obtain ⟨r, w⟩ := i
  have hr : (r && m.getLsbD 1) = false := congrArg EpollEvents.epollin hempty
  have hw : (w && m.getLsbD 0) = false := congrArg EpollEvents.epollout hempty
  have hbool : ∀ a b : Bool, (a && b) = false → (a && !b) = a := by decide
  show EpollEvents.mk (r && !m.getLsbD 1) (w && !m.getLsbD 0) = _
  rw [hbool r _ hr, hbool w _ hw]

/-- Masking out is removing events. -/
theorem maskOf_and_not : maskOf i &&& ~~~m = maskOf (i.minus m) := by
  rw [maskOf_and, BitVec.getLsbD_not, BitVec.getLsbD_not]
  rfl

/-! ## Slots and descriptors -/

/-- **The slot tracks the descriptor**: its mask is that of the events the
kernel watches for, a registered descriptor is watched for something, and every
watched event has its callback. -/
structure FdEvent.Tracks (ev : FdEvent) (k : KernelFd) : Prop where
  mask : ev.iMask = maskOf k.events
  watched : k.isRegistered = true → k.events ≠ ⟨false, false⟩
  read : k.events.epollin = true → ev.pFunEventCallbackRead ≠ none
  write : k.events.epollout = true → ev.pFunEventCallbackWrite ≠ none

/-- **The slot agrees with the kernel**, in the terms of the mask. -/
structure FdEvent.Agrees (ev : FdEvent) (k : KernelFd) : Prop where
  epollin : k.events.epollin = true ↔ ev.iMask &&& eventReadable ≠ 0
  epollout : k.events.epollout = true ↔ ev.iMask &&& eventWritable ≠ 0
  unregistered : k.isRegistered = false ↔ ev.iMask = eventNone
  read : ev.iMask &&& eventReadable ≠ 0 → ev.pFunEventCallbackRead ≠ none
  write : ev.iMask &&& eventWritable ≠ 0 → ev.pFunEventCallbackWrite ≠ none

theorem FdEvent.Tracks.agrees (h : ev.Tracks k) : ev.Agrees k where
  epollin := by rw [h.mask, maskOf_and_readable]
  epollout := by rw [h.mask, maskOf_and_writable]
  unregistered := by
    rw [h.mask, maskOf_eq_none]
    constructor
    · intro hk
      cases k with
      | registered events => exact absurd hk (by simp [KernelFd.isRegistered])
      | _ => rfl
    · intro hk
      exact Bool.eq_false_iff.mpr (fun hreg => h.watched hreg hk)
  read := by
    rw [h.mask, maskOf_and_readable]
    exact h.read
  write := by
    rw [h.mask, maskOf_and_writable]
    exact h.write

/-- A zero slot tracks what is not registered. -/
theorem FdEvent.zero_tracks (hk : k.isRegistered = false) : FdEvent.zero.Tracks k := by
  have hevents : k.events = ⟨false, false⟩ := by
    cases k with
    | registered events => exact absurd hk (by simp [KernelFd.isRegistered])
    | _ => rfl
  refine ⟨by rw [hevents]; rfl, ?_, ?_, ?_⟩
  · intro hreg
    rw [hk] at hreg
    exact absurd hreg (by decide)
  · intro hin
    rw [hevents] at hin
    exact absurd hin (by decide)
  · intro hout
    rw [hevents] at hout
    exact absurd hout (by decide)

/-! ## What the functions do -/

/-- Only the slot and the state of `fd` have changed, and no call has failed. -/
structure EventTable.SameBut (fd : ℤ) (t t' : EventTable) : Prop where
  size : t'.iFdEventArraySize = t.iFdEventArraySize
  answer : t'.epoll.answer = t.epoll.answer
  failed : t'.epoll.failed = t.epoll.failed
  slot : ∀ g ≠ fd, t'.slot g = t.slot g
  kernel : ∀ g ≠ fd, t'.epoll.fd g = t.epoll.fd g

theorem EventTable.SameBut.trans {t'' : EventTable} (h : t.SameBut fd t')
    (h' : t'.SameBut fd t'') : t.SameBut fd t'' where
  size := h'.size.trans h.size
  answer := h'.answer.trans h.answer
  failed := h'.failed.trans h.failed
  slot g hg := (h'.slot g hg).trans (h.slot g hg)
  kernel g hg := (h'.kernel g hg).trans (h.kernel g hg)

/-- What is watched for something is registered. -/
theorem KernelFd.eq_registered (h : k.events ≠ ⟨false, false⟩) : k = .registered k.events := by
  cases k with
  | registered events => rfl
  | _ => exact absurd rfl h

/-- The table with the slot `ev` and the kernel state `k` for `fd`, after one
call to `epoll_ctl`. -/
def EventTable.updated (t : EventTable) (fd : ℤ) (ev : FdEvent) (k : KernelFd) : EventTable :=
  { (t.access fd).setSlot fd ev with
    epoll := { t.epoll with calls := t.epoll.calls + 1 }.setFd fd k }

theorem EventTable.slot_updated : (t.updated fd ev k).slot fd = ev := Function.update_self ..

theorem EventTable.fd_updated : (t.updated fd ev k).epoll.fd fd = k := Function.update_self ..

theorem EventTable.sameBut_updated : t.SameBut fd (t.updated fd ev k) where
  size := rfl
  answer := rfl
  failed := rfl
  slot _ hg := Function.update_of_ne hg _ _
  kernel _ hg := Function.update_of_ne hg _ _

/-- A call that the rules admit succeeds. -/
theorem Epoll.ctl_admitted {e : Epoll} {iOper : EpollOper} (hrules : ∀ n, e.answer n = .byRules)
    (hadm : (e.fd fd).admits iOper = true) :
    e.ctl iOper fd i
      = (Ret.succ, { e with calls := e.calls + 1 }.setFd fd ((e.fd fd).set iOper i)) := by
  unfold Epoll.ctl
  rw [hrules]
  exact if_pos hadm

/-- A call that the kernel grants succeeds. -/
theorem Epoll.ctl_granted {e : Epoll} {iOper : EpollOper} (hgranted : ∀ n, e.answer n = .granted) :
    e.ctl iOper fd i
      = (Ret.succ, { e with calls := e.calls + 1 }.setFd fd ((e.fd fd).set iOper i)) := by
  unfold Epoll.ctl
  rw [hgranted]
  rfl

/-- A call that the rules admit succeeds at the end of `EventAdd` and `EventDel`. -/
theorem EventTable.commit_admitted (ev : FdEvent) {iOper : EpollOper}
    (hrules : ∀ n, t.epoll.answer n = .byRules)
    (hadm : (t.epoll.fd fd).admits iOper = true)
    (hset : (t.epoll.fd fd).set iOper (epollEvents ev.iMask) = k) :
    (t.access fd).commit fd ev iOper = (Ret.succ, t.updated fd ev k) := by
  unfold EventTable.commit
  dsimp only
  rw [Epoll.ctl_admitted (e := ((t.access fd).setSlot fd ev).epoll) hrules hadm]
  rw [show (((t.access fd).setSlot fd ev).epoll.fd fd).set iOper (epollEvents ev.iMask) = k
    from hset]
  rfl

theorem EventTable.sameBut_refl : t.SameBut fd t :=
  ⟨rfl, rfl, rfl, fun _ _ => rfl, fun _ _ => rfl⟩

theorem EventTable.sameBut_access : t.SameBut fd (t.access fd) :=
  ⟨rfl, rfl, rfl, fun _ _ => rfl, fun _ _ => rfl⟩

/-- The operation `EventAdd` chooses is one the rules admit, and it leaves the
descriptor registered. -/
theorem FdEvent.Tracks.admits_add (h : ev.Tracks k) (hk : k ≠ .closed) :
    k.admits (if ev.iMask = eventNone then .add else .mod) = true
      ∧ k.set (if ev.iMask = eventNone then .add else .mod) i = .registered i := by
  cases k with
  | closed => exact absurd rfl hk
  | opened =>
    have hnone : ev.iMask = eventNone := h.mask
    rw [if_pos hnone]
    exact ⟨rfl, rfl⟩
  | registered events =>
    rw [if_neg (fun hnone => h.watched rfl (maskOf_eq_none.mp (h.mask.symm.trans hnone)))]
    exact ⟨rfl, rfl⟩

/-- **`EventAdd` adds the event of its mask** to the watched ones. It is called
for one direction of an open descriptor. -/
theorem eventAdd_spec {cb : EventCallbackProc} {arg : Option ConnPtr}
    (hrules : ∀ n, t.epoll.answer n = .byRules) (hfd : fd ≤ t.iFdEventArraySize)
    (hopen : t.epoll.fd fd ≠ .closed) (htracks : (t.slot fd).Tracks (t.epoll.fd fd))
    (hm : m = eventReadable ∨ m = eventWritable) :
    ∃ t', eventAdd t fd m (some cb) arg = (Ret.succ, t') ∧ t.SameBut fd t'
      ∧ t'.epoll.fd fd = .registered ((t.epoll.fd fd).events.plus m)
      ∧ (t'.slot fd).Tracks (t'.epoll.fd fd) := by
  have hmask := htracks.mask
  unfold eventAdd
  rw [if_neg (not_lt.mpr hfd)]
  dsimp only
  rw [show (t.access fd).slot fd = t.slot fd from rfl]
  by_cases hset : (t.slot fd).iMask &&& m ≠ 0
  · -- the event is watched already
    rw [if_pos hset]
    rw [hmask] at hset
    have hreg : (t.epoll.fd fd).events ≠ ⟨false, false⟩ := by
      intro hnone
      rw [hnone] at hset
      exact hset BitVec.zero_and
    refine ⟨_, rfl, EventTable.sameBut_access, ?_, htracks⟩
    rw [plus_eq_self hm hset]
    exact KernelFd.eq_registered hreg
  · rw [if_neg hset]
    obtain ⟨hadm, hafter⟩ := htracks.admits_add (i := (t.epoll.fd fd).events.plus m) hopen
    rw [EventTable.commit_admitted (k := .registered ((t.epoll.fd fd).events.plus m)) _ hrules hadm
      (by rw [hmask, maskOf_or hm, epollEvents_maskOf, ← hmask]; exact hafter)]
    refine ⟨_, rfl, EventTable.sameBut_updated, EventTable.fd_updated, ?_⟩
    rw [EventTable.slot_updated, EventTable.fd_updated]
    refine ⟨?_, fun _ => ?_, fun hin => ?_, fun hout => ?_⟩
    · show (t.slot fd).iMask ||| m = maskOf ((t.epoll.fd fd).events.plus m)
      rw [hmask, maskOf_or hm]
    · rcases hm with rfl | rfl
      · exact fun heq => by
          simpa [EpollEvents.plus, KernelFd.events] using congrArg EpollEvents.epollin heq
      · exact fun heq => by
          simpa [EpollEvents.plus, KernelFd.events] using congrArg EpollEvents.epollout heq
    · rcases hm with rfl | rfl
      · exact Option.some_ne_none cb
      · refine htracks.read ?_
        simpa [EpollEvents.plus, KernelFd.events] using hin
    · rcases hm with rfl | rfl
      · refine htracks.write ?_
        simpa [EpollEvents.plus, KernelFd.events] using hout
      · exact Option.some_ne_none cb

/-- What `EventDel` leaves watched: nothing at all makes the descriptor
unregistered. -/
def KernelFd.without (k : KernelFd) (m : BitVec 32) : KernelFd :=
  match k with
  | registered i => if i.minus m = ⟨false, false⟩ then opened else registered (i.minus m)
  | k => k

/-- The slot whose mask has lost the events tracks the descriptor that is no
longer watched for them. -/
theorem FdEvent.Tracks.without (h : ev.Tracks (.registered i)) {m' : BitVec 32}
    (hm' : m' = maskOf (i.minus m)) :
    FdEvent.Tracks { ev with iMask := m' } ((KernelFd.registered i).without m) := by
  have hevents : ((KernelFd.registered i).without m).events = i.minus m := by
    show KernelFd.events (if i.minus m = ⟨false, false⟩ then _ else _) = _
    by_cases hempty : i.minus m = ⟨false, false⟩
    · rw [if_pos hempty, hempty]
      rfl
    · rw [if_neg hempty]
      rfl
  refine ⟨?_, fun hreg => ?_, fun hin => ?_, fun hout => ?_⟩
  · rw [hevents]
    exact hm'
  · rw [hevents]
    intro hempty
    have hwithout : (KernelFd.registered i).without m = .opened := if_pos hempty
    rw [hwithout] at hreg
    exact absurd hreg (by decide)
  · rw [hevents] at hin
    exact h.read (Bool.and_eq_true_iff.mp hin).1
  · rw [hevents] at hout
    exact h.write (Bool.and_eq_true_iff.mp hout).1

/-- The operation `EventDel` chooses leaves the descriptor watched for the events
that are left. -/
theorem FdEvent.Tracks.set_without (h : ev.Tracks (.registered i)) :
    (KernelFd.registered i).set (if ev.iMask &&& ~~~m = eventNone then .del else .mod)
      (epollEvents (ev.iMask &&& ~~~m)) = (KernelFd.registered i).without m := by
  have hmask : ev.iMask = maskOf i := h.mask
  rw [hmask, maskOf_and_not, epollEvents_maskOf]
  show _ = if i.minus m = ⟨false, false⟩ then _ else _
  by_cases hempty : i.minus m = ⟨false, false⟩
  · rw [if_pos hempty, if_pos (maskOf_eq_none.mpr hempty)]
    rfl
  · rw [if_neg hempty, if_neg (fun hnone => hempty (maskOf_eq_none.mp hnone))]
    rfl

/-- **`EventDel` removes the events of its mask**, any mask, from the watched
ones. -/
theorem eventDel_spec (hrules : ∀ n, t.epoll.answer n = .byRules)
    (hfd : fd ≤ t.iFdEventArraySize) (htracks : (t.slot fd).Tracks (t.epoll.fd fd)) :
    ∃ t', eventDel t fd m = (Ret.succ, t') ∧ t.SameBut fd t'
      ∧ t'.epoll.fd fd = (t.epoll.fd fd).without m
      ∧ (t'.slot fd).Tracks (t'.epoll.fd fd) := by
  have hmask := htracks.mask
  unfold eventDel
  rw [if_neg (not_lt.mpr hfd)]
  dsimp only
  rw [show (t.access fd).slot fd = t.slot fd from rfl]
  cases hk : t.epoll.fd fd with
  | registered i =>
    rw [hk] at hmask htracks
    have hmask' : (t.slot fd).iMask = maskOf i := hmask
    have hne : i ≠ ⟨false, false⟩ := htracks.watched rfl
    rw [if_neg (fun hnone => hne (maskOf_eq_none.mp (hmask'.symm.trans hnone)))]
    by_cases hdel : (t.slot fd).iMask &&& m = 0
    · -- none of the events is watched
      rw [if_pos hdel]
      have hminus : i.minus m = i := by
        rw [hmask'] at hdel
        exact minus_eq_self hdel
      refine ⟨_, rfl, EventTable.sameBut_access, ?_, ?_⟩
      · show t.epoll.fd fd = if i.minus m = ⟨false, false⟩ then _ else _
        rw [hminus, if_neg hne, hk]
      · show (t.slot fd).Tracks (t.epoll.fd fd)
        rw [hk]
        exact htracks
    · rw [if_neg hdel]
      have hnot : (t.slot fd).iMask &&& ~~~m = maskOf (i.minus m) := by
        rw [hmask', maskOf_and_not]
      have hoper : (t.epoll.fd fd).admits
          (if (t.slot fd).iMask &&& ~~~m = eventNone then .del else .mod) = true := by
        rw [hk]
        split <;> rfl
      have hafter : (t.epoll.fd fd).set
          (if (t.slot fd).iMask &&& ~~~m = eventNone then .del else .mod)
          (epollEvents ((t.slot fd).iMask &&& ~~~m)) = (KernelFd.registered i).without m := by
        rw [hk]
        exact htracks.set_without
      rw [EventTable.commit_admitted { t.slot fd with iMask := (t.slot fd).iMask &&& ~~~m } hrules
        hoper hafter]
      refine ⟨_, rfl, EventTable.sameBut_updated, EventTable.fd_updated, ?_⟩
      rw [EventTable.slot_updated, EventTable.fd_updated]
      exact htracks.without hnot
  | _ =>
    rw [hk] at hmask htracks
    have hnone : (t.slot fd).iMask = eventNone := hmask
    rw [if_pos hnone]
    refine ⟨_, rfl, EventTable.sameBut_access, hk, ?_⟩
    show (t.slot fd).Tracks (t.epoll.fd fd)
    rw [hk]
    exact htracks

/-! ## Where `epoll_ctl` succeeds -/

/-- A mask with one more event has the events of either part. -/
theorem and_or_ne_zero {a b r : BitVec 32} (h : (a ||| b) &&& r ≠ 0) :
    a &&& r ≠ 0 ∨ b &&& r ≠ 0 := by
  by_contra hnone
  obtain ⟨ha, hb⟩ := not_or.mp hnone
  refine h ?_
  rw [BitVec.and_comm, BitVec.and_or_distrib_left, BitVec.and_comm, not_not.mp ha,
    BitVec.and_comm, not_not.mp hb]
  rfl

/-- A mask without some events has no new one. -/
theorem and_not_ne_zero {a b r : BitVec 32} (h : (a &&& ~~~b) &&& r ≠ 0) : a &&& r ≠ 0 := by
  intro ha
  refine h ?_
  rw [BitVec.and_assoc, BitVec.and_comm (~~~b), ← BitVec.and_assoc, ha]
  exact BitVec.zero_and

/-- Where a mask has none of some events, taking them away changes nothing. -/
theorem and_not_eq_self {a b : BitVec 32} (h : a &&& b = 0) : a &&& ~~~b = a := by
  have hsplit : a = a &&& (b ||| ~~~b) := by
    rw [BitVec.or_not_self, BitVec.and_allOnes]
  rw [BitVec.and_or_distrib_left, show a &&& b = 0#32 from h, BitVec.zero_or] at hsplit
  exact hsplit.symm

/-- Where `epoll_ctl` succeeds, so does the end of `EventAdd` and `EventDel`. -/
theorem EventTable.commit_granted {iOper : EpollOper}
    (hgranted : ∀ n, t.epoll.answer n = .granted) :
    (t.access fd).commit fd ev iOper
      = (Ret.succ, t.updated fd ev ((t.epoll.fd fd).set iOper (epollEvents ev.iMask))) := by
  unfold EventTable.commit
  dsimp only
  rw [Epoll.ctl_granted (e := ((t.access fd).setSlot fd ev).epoll) hgranted]
  rfl

/-- **`EventDel`**, where `epoll_ctl` succeeds, takes the events of its mask from
the slot, and touches no other one. -/
theorem eventDel_granted (hgranted : ∀ n, t.epoll.answer n = .granted)
    (hfd : fd ≤ t.iFdEventArraySize) :
    ∃ t', eventDel t fd m = (Ret.succ, t') ∧ t.SameBut fd t'
      ∧ t'.slot fd = { t.slot fd with iMask := (t.slot fd).iMask &&& ~~~m } := by
  unfold eventDel
  rw [if_neg (not_lt.mpr hfd)]
  dsimp only
  rw [show (t.access fd).slot fd = t.slot fd from rfl]
  by_cases hnone : (t.slot fd).iMask = eventNone
  · rw [if_pos hnone]
    refine ⟨_, rfl, EventTable.sameBut_access, ?_⟩
    rw [and_not_eq_self (by rw [hnone]; exact BitVec.zero_and)]
    rfl
  rw [if_neg hnone]
  by_cases hdel : (t.slot fd).iMask &&& m = 0
  · rw [if_pos hdel, and_not_eq_self hdel]
    exact ⟨_, rfl, EventTable.sameBut_access, rfl⟩
  rw [if_neg hdel, EventTable.commit_granted hgranted]
  exact ⟨_, rfl, EventTable.sameBut_updated, EventTable.slot_updated⟩

/-- So it takes them from what the kernel watches for. -/
theorem eventDel_granted_kernel (hgranted : ∀ n, t.epoll.answer n = .granted)
    (hfd : fd ≤ t.iFdEventArraySize) (htracks : (t.slot fd).Tracks (t.epoll.fd fd)) :
    (eventDel t fd m).2.epoll.fd fd = (t.epoll.fd fd).without m := by
  have hmask := htracks.mask
  unfold eventDel
  rw [if_neg (not_lt.mpr hfd)]
  dsimp only
  rw [show (t.access fd).slot fd = t.slot fd from rfl]
  cases hk : t.epoll.fd fd with
  | registered i =>
    rw [hk] at hmask htracks
    have hmask' : (t.slot fd).iMask = maskOf i := hmask
    have hne : i ≠ ⟨false, false⟩ := htracks.watched rfl
    rw [if_neg (fun hnone => hne (maskOf_eq_none.mp (hmask'.symm.trans hnone)))]
    by_cases hdel : (t.slot fd).iMask &&& m = 0
    · rw [if_pos hdel]
      rw [hmask'] at hdel
      show t.epoll.fd fd = if i.minus m = ⟨false, false⟩ then _ else _
      rw [minus_eq_self hdel, if_neg hne, hk]
    · rw [if_neg hdel, EventTable.commit_granted hgranted, hk, htracks.set_without]
      exact EventTable.fd_updated
  | _ =>
    rw [hk] at hmask
    rw [if_pos (show (t.slot fd).iMask = eventNone from hmask)]
    exact hk

/-! ## Runs -/

/-- The operations on the table: an accept (`FdFileEventInit`, then `EventAdd`
of the new descriptor), a registration, a deregistration, and the teardown of a
connection (`EventDel` of both directions, `close`, `FdFileEventInit`). -/
inductive EventTableOp where
  | accept (fd : ℤ) (pstNewConnFd : ConnPtr)
  | add (fd : ℤ) (iEventMask : BitVec 32) (cb : Option EventCallbackProc) (arg : Option ConnPtr)
  | del (fd : ℤ) (iEventMask : BitVec 32)
  | teardown (fd : ℤ)
  deriving DecidableEq, Repr

namespace EventTableOp

/-- What an operation leaves of the table. -/
def step (t : EventTable) : EventTableOp → Option EventTable
  | accept fd c =>
    let t := fdFileEventInit { t with epoll := t.epoll.accept fd } fd
    some (eventAdd t fd eventReadable (some .processRecvCallback) (some c)).2
  | add fd m cb arg => some (eventAdd t fd m cb arg).2
  | del fd m => some (eventDel t fd m).2
  | teardown fd =>
    let t := (eventDel t fd (eventWritable ||| eventReadable)).2
    some (fdFileEventInit { t with epoll := t.epoll.close fd } fd)

/-- The descriptor an operation is about. -/
def iFd : EventTableOp → ℤ
  | accept fd _ | add fd _ _ _ | del fd _ | teardown fd => fd

/-- **The operations the code makes**: descriptors are inside the array,
`accept` returns one that is not open and the others are open, and a
registration is for a single direction and has a callback. -/
def Admissible (t : EventTable) (op : EventTableOp) : Prop :=
  0 ≤ op.iFd ∧ op.iFd < t.iFdEventArraySize ∧
    match op with
    | accept fd _ => t.epoll.fd fd = .closed
    | add fd m cb _ =>
      t.epoll.fd fd ≠ .closed ∧ (m = eventReadable ∨ m = eventWritable) ∧ cb ≠ none
    | del fd _ | teardown fd => t.epoll.fd fd ≠ .closed

instance (t : EventTable) (op : EventTableOp) : Decidable (op.Admissible t) := by
  cases op <;> unfold Admissible <;> infer_instance

end EventTableOp

/-- **The table and the kernel are in step**: the kernel goes by its rules, no
call has failed, and every slot of the array tracks its descriptor. -/
structure EventTable.InStep (t : EventTable) : Prop where
  rules : ∀ n, t.epoll.answer n = .byRules
  failed : t.epoll.failed = false
  tracks : ∀ fd, 0 ≤ fd → fd < t.iFdEventArraySize → (t.slot fd).Tracks (t.epoll.fd fd)

/-- A change to one slot keeps the rest in step. -/
theorem EventTable.InStep.sameBut (h : t.InStep) (hsame : t.SameBut fd t')
    (htracks : (t'.slot fd).Tracks (t'.epoll.fd fd)) : t'.InStep where
  rules n := by
    rw [hsame.answer]
    exact h.rules n
  failed := by
    rw [hsame.failed]
    exact h.failed
  tracks g hg hlt := by
    by_cases hgf : g = fd
    · rw [hgf]
      exact htracks
    · rw [hsame.slot g hgf, hsame.kernel g hgf]
      rw [hsame.size] at hlt
      exact h.tracks g hg hlt

/-- Giving a descriptor a zero slot and a state of the kernel's that is not
registered. -/
theorem EventTable.sameBut_init :
    t.SameBut fd (fdFileEventInit { t with epoll := t.epoll.setFd fd k } fd)
      ∧ (fdFileEventInit { t with epoll := t.epoll.setFd fd k } fd).slot fd = FdEvent.zero
      ∧ (fdFileEventInit { t with epoll := t.epoll.setFd fd k } fd).epoll.fd fd = k :=
  ⟨⟨rfl, rfl, rfl, fun _ hg => Function.update_of_ne hg _ _,
      fun _ hg => Function.update_of_ne hg _ _⟩,
    Function.update_self .., Function.update_self ..⟩

/-- **A new descriptor** with a zero slot can be registered, and the table stays
in step. -/
theorem EventTable.InStep.accept (h : t.InStep) (hlt : fd ≤ t.iFdEventArraySize)
    (c : ConnPtr) :
    ∃ t', eventAdd (fdFileEventInit { t with epoll := t.epoll.accept fd } fd) fd eventReadable
          (some .processRecvCallback) (some c) = (Ret.succ, t')
      ∧ t'.InStep ∧ t'.iFdEventArraySize = t.iFdEventArraySize := by
  obtain ⟨hsame, hslot, hfd⟩ := EventTable.sameBut_init (t := t) (k := .opened)
  set t₁ := fdFileEventInit { t with epoll := t.epoll.setFd fd .opened } fd with ht₁
  have htracks : (t₁.slot fd).Tracks (t₁.epoll.fd fd) := by
    rw [hslot, hfd]
    exact FdEvent.zero_tracks rfl
  have h₁ := h.sameBut hsame htracks
  obtain ⟨t₂, hadd, hsame₂, -, htracks₂⟩ := eventAdd_spec h₁.rules (by rwa [hsame.size])
    (by rw [hfd]; exact fun hk => by cases hk) htracks (Or.inl rfl)
  exact ⟨t₂, hadd, h₁.sameBut hsame₂ htracks₂, hsame₂.size.trans hsame.size⟩

/-- **A descriptor is taken down**: it is deregistered, closed and its slot
zeroed, and the table stays in step. -/
theorem EventTable.InStep.teardown (h : t.InStep) (hpos : 0 ≤ fd)
    (hlt : fd < t.iFdEventArraySize) :
    ∃ t', eventDel t fd (eventWritable ||| eventReadable) = (Ret.succ, t')
      ∧ (fdFileEventInit { t' with epoll := t'.epoll.close fd } fd).InStep
      ∧ t'.iFdEventArraySize = t.iFdEventArraySize := by
  obtain ⟨t₁, hdel, hsame, -, htracks⟩ := eventDel_spec
    (m := eventWritable ||| eventReadable) h.rules (le_of_lt hlt) (h.tracks fd hpos hlt)
  obtain ⟨hsame₂, hslot, hfd⟩ := EventTable.sameBut_init (t := t₁) (k := .closed)
  refine ⟨t₁, hdel, (h.sameBut hsame htracks).sameBut hsame₂ ?_, hsame.size⟩
  show FdEvent.Tracks ((fdFileEventInit { t₁ with epoll := t₁.epoll.setFd fd .closed } fd).slot fd)
    ((fdFileEventInit { t₁ with epoll := t₁.epoll.setFd fd .closed } fd).epoll.fd fd)
  rw [hslot, hfd]
  exact FdEvent.zero_tracks rfl

/-- **Every operation keeps the table in step** with the kernel. -/
theorem EventTableOp.step_inStep {op : EventTableOp} (h : t.InStep) (hadm : op.Admissible t)
    (hstep : op.step t = some t') : t'.InStep := by
  obtain ⟨hpos, hlt, hop⟩ := hadm
  cases op with
  | accept fd c =>
    obtain rfl := Option.some.inj hstep
    obtain ⟨t', hadd, h', -⟩ := h.accept (show fd ≤ _ from le_of_lt hlt) c
    rw [hadd]
    exact h'
  | add fd m cb arg =>
    obtain rfl := Option.some.inj hstep
    obtain ⟨hopen, hm, hcb⟩ := hop
    obtain ⟨cb, rfl⟩ := Option.ne_none_iff_exists'.mp hcb
    obtain ⟨t', hadd, hsame, -, htracks⟩ := eventAdd_spec h.rules
      (show fd ≤ _ from le_of_lt hlt) hopen (h.tracks fd hpos hlt) hm
    rw [hadd]
    exact h.sameBut hsame htracks
  | del fd m =>
    obtain rfl := Option.some.inj hstep
    obtain ⟨t', hdel, hsame, -, htracks⟩ := eventDel_spec (m := m) h.rules
      (show fd ≤ _ from le_of_lt hlt) (h.tracks fd hpos hlt)
    rw [hdel]
    exact h.sameBut hsame htracks
  | teardown fd =>
    obtain rfl := Option.some.inj hstep
    obtain ⟨t', hdel, h', -⟩ := h.teardown (show 0 ≤ fd from hpos) hlt
    rw [hdel]
    exact h'

/-- **The event table and the kernel always agree**, and no call to `epoll_ctl`
fails, over any run from zero slots and a kernel with nothing registered. -/
theorem eventTable_always_agrees (hrules : ∀ n, t.epoll.answer n = .byRules)
    (hfailed : t.epoll.failed = false) (hslot : ∀ fd, t.slot fd = FdEvent.zero)
    (hkernel : ∀ fd, (t.epoll.fd fd).isRegistered = false) {ops : List EventTableOp}
    (hadm : Run.Along EventTableOp.step EventTableOp.Admissible t ops) :
    Run.Always EventTableOp.step
      (fun t => t.epoll.failed = false ∧
        ∀ fd, 0 ≤ fd → fd < t.iFdEventArraySize → (t.slot fd).Agrees (t.epoll.fd fd)) t ops := by
  have h : t.InStep := by
    refine ⟨hrules, hfailed, fun fd _ _ => ?_⟩
    rw [hslot fd]
    exact FdEvent.zero_tracks (hkernel fd)
  refine Run.Always.mono (P := EventTable.InStep)
    (fun t h => ⟨h.failed, fun fd hpos hlt => (h.tracks fd hpos hlt).agrees⟩) ?_
  exact Run.always_of_along (fun t op t' h hadm hstep => op.step_inStep h hadm hstep) h hadm

/-- An empty worker of eight slots. -/
def emptyTable : EventTable where
  iFdEventArraySize := 8
  pstFdEventsArray := fun _ => FdEvent.zero
  epoll :=
    { fd := fun _ => .closed
      answer := fun _ => .byRules
      calls := 0
      failed := false }
  overrun := false

/-- A descriptor is accepted, written to, torn down and accepted again. -/
theorem eventTable_always_agrees_sample :
    Run.Always EventTableOp.step
      (fun t => t.epoll.failed = false ∧
        ∀ fd, 0 ≤ fd → fd < t.iFdEventArraySize → (t.slot fd).Agrees (t.epoll.fd fd))
      emptyTable
      [.accept 5 1, .add 5 eventWritable (some .processSendCallback) (some 1), .teardown 5,
        .accept 5 2, .del 5 7] :=
  eventTable_always_agrees (fun _ => rfl) rfl (fun _ => rfl) (fun _ => rfl) (by decide)
