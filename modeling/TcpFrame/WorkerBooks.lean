import TcpFrame.WorkerBounds
import Mathlib.Data.Finset.Card

/-!
# The books of a worker

What a worker keeps of its connections is kept in five places: the count of
clients, the memory of the connections, the slots, the interest list of the kernel
and the open descriptors. `Worker.Books` says that they agree: every descriptor
that is open was open when the worker started, or it is that of one live
connection, whose slot serves it and for whose input the kernel watches; and
`iClientCount` is the number of live connections.

Nothing of this depends on the timers: a timer that is left behind in the heap
makes the worker destroy a connection too early or use one that is gone, and in
the first case the books are still in order. So they are over any run of
`ReactorEventDispatchLoop` (`reactor_always_books`), and no callback of the batch
loop finds a connection that is not there.

A run ends with the first callback that leaves the memory of its connection
(`ProcessFate.overrun`): what comes after it is not defined, and nothing is said of it.
-/

/-! ## Slots, whatever `epoll_ctl` does -/

section Table

variable {t t' : EventTable} {fd : ℤ} {m : BitVec 32} {c : ConnPtr}

/-- The descriptors that are open. -/
def Epoll.opened (e : Epoll) : Set ℤ := { g | e.fd g ≠ .closed }

/-- The slot is written before `epoll_ctl` is called. -/
theorem EventTable.slot_commit {ev : FdEvent} {iOper : EpollOper} :
    (t.commit fd ev iOper).2.slot fd = ev := Function.update_self ..

/-- **`EventAdd` for a connection** makes the slot the one of that connection. -/
theorem eventAdd_serves {cb : EventCallbackProc} (hfd : fd ≤ t.iFdEventArraySize)
    (hcb : IsCallbackOf m cb) (hproper : (t.slot fd).Proper)
    (harg : (t.slot fd).iMask &&& m ≠ 0 → (t.slot fd).pstArg = some c) :
    ((eventAdd t fd m (some cb) (some c)).2.slot fd).Serves c := by
  unfold eventAdd
  rw [if_neg (not_lt.mpr hfd)]
  dsimp only
  rw [show (t.access fd).slot fd = t.slot fd from rfl]
  by_cases hset : (t.slot fd).iMask &&& m ≠ 0
  · rw [if_pos hset]
    exact ⟨hproper, harg hset⟩
  · rw [if_neg hset, EventTable.slot_commit]
    -- a direction is the one that was added, or it was there before
    refine ⟨⟨fun hread => ?_, fun hwrite => ?_⟩, rfl⟩
    · dsimp only at hread ⊢
      obtain ⟨rfl, rfl⟩ | ⟨rfl, rfl⟩ := hcb
      · exact if_pos (by decide)
      · rw [if_neg (by decide)]
        exact hproper.read ((and_or_ne_zero hread).resolve_right (by decide))
    · dsimp only at hwrite ⊢
      obtain ⟨rfl, rfl⟩ | ⟨rfl, rfl⟩ := hcb
      · rw [if_neg (by decide)]
        exact hproper.write ((and_or_ne_zero hwrite).resolve_right (by decide))
      · exact if_pos (by decide)

/-- What is watched for input is so without the output. -/
theorem watched_without {k : KernelFd} (h : k.events.epollin = true) :
    (k.without eventWritable).events.epollin = true := by
  cases k with
  | registered i =>
    have hin : i.epollin = true := h
    have hminus : (i.minus eventWritable).epollin = true := by
      show (i.epollin && !(eventWritable.getLsbD 1)) = true
      rw [hin]
      rfl
    have hne : i.minus eventWritable ≠ ⟨false, false⟩ := by
      intro hnone
      rw [hnone] at hminus
      exact absurd hminus (by decide)
    rw [show (KernelFd.registered i).without eventWritable = .registered (i.minus eventWritable)
      from if_neg hne]
    exact hminus
  | _ => exact absurd h (by decide)

/-- **`EventDel`** takes events from the slot of a connection, and nothing else. -/
theorem eventDel_serves (hserves : (t.slot fd).Serves c) :
    ((eventDel t fd m).2.slot fd).Serves c := by
  unfold eventDel
  split
  · exact hserves
  dsimp only
  split
  · exact hserves
  split
  · exact hserves
  · rw [EventTable.slot_commit]
    exact hserves.without

end Table

namespace Worker

/-! ## The books -/

/-- **A descriptor is served** for the connection at `c`: its slot is the one of
that connection and agrees with the kernel, which watches for input. -/
structure Served (w : Worker) (c : ConnPtr) (fd : ℤ) : Prop where
  range : 0 ≤ fd ∧ fd < w.table.iFdEventArraySize
  serves : (w.table.slot fd).Serves c
  tracks : (w.table.slot fd).Tracks (w.table.epoll.fd fd)
  watched : (w.table.epoll.fd fd).events.epollin = true

/-- **The worker accepts**: the same for the listening descriptor. -/
structure Accepts (w : Worker) : Prop where
  range : 0 ≤ w.iListenFd ∧ w.iListenFd < w.table.iFdEventArraySize
  listens : (w.table.slot w.iListenFd).Listens
  tracks : (w.table.slot w.iListenFd).Tracks (w.table.epoll.fd w.iListenFd)
  watched : (w.table.epoll.fd w.iListenFd).events.epollin = true

/-- **The count of clients** is the number of live connections. -/
def Counted (w : Worker) : Prop :=
  ∃ live : Finset ConnPtr, (∀ c, c ∈ live ↔ w.conns c ≠ none) ∧ w.iClientCount = live.card

/-- **The descriptor `fd` is that of a live connection.** -/
def Client (w : Worker) (fd : ℤ) : Prop := ∃ c conn, w.conns c = some conn ∧ conn.iFd = fd

/-- **The books of a worker** that started with the descriptors of `start` open, in
a batch with events for the descriptors of `batch`. -/
structure Books (start batch : Set ℤ) (w : Worker) : Prop where
  /-- The kernel goes by its rules, and no call to `epoll_ctl` has failed. -/
  rules : ∀ n, w.table.epoll.answer n = .byRules
  failed : w.table.epoll.failed = false
  lt : w.iEpType = epollLtType
  listenFd : w.iListenFd ∈ start
  accepts : w.Accepts
  served : ∀ c conn, w.conns c = some conn → w.Served c conn.iFd
  /-- No two connections share a descriptor. -/
  inj : ∀ c c' conn conn', w.conns c = some conn → w.conns c' = some conn' →
    conn.iFd = conn'.iFd → c = c'
  /-- No descriptor is left open, and none is closed too early. -/
  opened : ∀ fd, w.table.epoll.fd fd ≠ .closed ↔ fd ∈ start ∨ w.Client fd
  new : ∀ fd, w.Client fd → fd ∉ start
  registered : ∀ fd, (w.table.epoll.fd fd).isRegistered = true → fd = w.iListenFd ∨ w.Client fd
  count : w.Counted
  /-- The slot of an event that is still to come is in use, or empty. -/
  awaited : ∀ fd ∈ batch, 0 ≤ fd ∧ fd < w.table.iFdEventArraySize
    ∧ (fd = w.iListenFd ∨ w.Client fd ∨ (w.table.slot fd).iMask = eventNone)

variable {start batch : Set ℤ} {w w' : Worker} {c d : ConnPtr} {conn conn' e : ConnFd} {fd g : ℤ}
  {a : Accepted} {realloc : Bool}

/-- A descriptor that is watched is open. -/
theorem Served.isOpen (h : w.Served c fd) : w.table.epoll.fd fd ≠ .closed := by
  intro hclosed
  have hwatched := h.watched
  rw [hclosed] at hwatched
  exact absurd hwatched (by decide)

/-- What happens to another descriptor is nothing to this one. -/
theorem Served.other (h : w.Served d g) (hbut : w.table.SameBut fd w'.table) (hg : g ≠ fd) :
    w'.Served d g where
  range := by
    rw [hbut.size]
    exact h.range
  serves := by
    rw [hbut.slot g hg]
    exact h.serves
  tracks := by
    rw [hbut.slot g hg, hbut.kernel g hg]
    exact h.tracks
  watched := by
    rw [hbut.kernel g hg]
    exact h.watched

theorem Accepts.other (h : w.Accepts) (hbut : w.table.SameBut fd w'.table)
    (hlisten : w'.iListenFd = w.iListenFd) (hne : w.iListenFd ≠ fd) : w'.Accepts := by
  refine ⟨?_, ?_, ?_, ?_⟩
  · rw [hlisten, hbut.size]
    exact h.range
  · rw [hlisten, hbut.slot _ hne]
    exact h.listens
  · rw [hlisten, hbut.slot _ hne, hbut.kernel _ hne]
    exact h.tracks
  · rw [hlisten, hbut.kernel _ hne]
    exact h.watched

/-- As many connections as before. -/
theorem Counted.same (h : w.Counted) (hconns : ∀ d, w'.conns d ≠ none ↔ w.conns d ≠ none)
    (hcount : w'.iClientCount = w.iClientCount) : w'.Counted := by
  obtain ⟨live, hlive, heq⟩ := h
  exact ⟨live, fun d => (hlive d).trans (hconns d).symm, hcount.trans heq⟩

/-- One connection more. -/
theorem Counted.more (h : w.Counted) (hc : w.conns c = none) (hc' : w'.conns c ≠ none)
    (hconns : ∀ d ≠ c, w'.conns d = w.conns d) (hcount : w'.iClientCount = w.iClientCount + 1) :
    w'.Counted := by
  obtain ⟨live, hlive, heq⟩ := h
  have hnot : c ∉ live := fun hmem => (hlive c).mp hmem hc
  refine ⟨insert c live, fun d => ?_, ?_⟩
  · by_cases hd : d = c
    · rw [hd]
      exact iff_of_true (Finset.mem_insert_self _ _) hc'
    · rw [Finset.mem_insert, or_iff_right hd, hlive d, hconns d hd]
  · rw [hcount, heq, Finset.card_insert_of_notMem hnot]
    rfl

/-- One connection less. -/
theorem Counted.fewer (h : w.Counted) (hc : w.conns c ≠ none) (hc' : w'.conns c = none)
    (hconns : ∀ d ≠ c, w'.conns d = w.conns d) (hcount : w'.iClientCount = w.iClientCount - 1) :
    w'.Counted := by
  obtain ⟨live, hlive, heq⟩ := h
  have hmem : c ∈ live := (hlive c).mpr hc
  refine ⟨live.erase c, fun d => ?_, ?_⟩
  · by_cases hd : d = c
    · rw [hd]
      exact iff_of_false (Finset.notMem_erase _ _) (not_not.mpr hc')
    · rw [Finset.mem_erase, and_iff_right hd, hlive d, hconns d hd]
  · have hpos := Finset.card_pos.mpr ⟨c, hmem⟩
    rw [hcount, heq, Finset.card_erase_of_mem hmem]
    omega

/-- **What has changed is the connection at `c`**, which has the descriptor `fd`, before
and after, if it is there; no other one does. -/
structure Changes (c : ConnPtr) (fd : ℤ) (w w' : Worker) : Prop where
  conns : ∀ d ≠ c, w'.conns d = w.conns d
  before : ∀ e, w.conns c = some e → e.iFd = fd
  others : ∀ d e, w.conns d = some e → d ≠ c → e.iFd ≠ fd
  after : ∀ e, w'.conns c = some e → e.iFd = fd

/-- The descriptor is that of no other connection. -/
theorem Changes.eq_of_fd (h : Changes c fd w w') (hd : w'.conns d = some e) (he : e.iFd = fd) :
    d = c := by
  by_contra hdc
  exact h.others d e ((h.conns d hdc).symm.trans hd) hdc he

/-- A connection with another descriptor is what it was. -/
theorem Changes.conns_iff (h : Changes c fd w w') (he : e.iFd ≠ fd) :
    w'.conns d = some e ↔ w.conns d = some e := by
  by_cases hdc : d = c
  · rw [hdc]
    exact iff_of_false (fun hd => he (h.after e hd)) (fun hd => he (h.before e hd))
  · rw [h.conns d hdc]

theorem Changes.client_iff (h : Changes c fd w w') (hg : g ≠ fd) : w'.Client g ↔ w.Client g := by
  constructor
  · rintro ⟨d, e, hd, rfl⟩
    exact ⟨d, e, (h.conns_iff hg).mp hd, rfl⟩
  · rintro ⟨d, e, hd, rfl⟩
    exact ⟨d, e, (h.conns_iff hg).mpr hd, rfl⟩

/-- **Descriptors stay apart.** -/
theorem Changes.inj (h : Changes c fd w w')
    (hinj : ∀ d d' e e', w.conns d = some e → w.conns d' = some e' → e.iFd = e'.iFd → d = d')
    {d' : ConnPtr} {e' : ConnFd} (hd : w'.conns d = some e) (hd' : w'.conns d' = some e')
    (heq : e.iFd = e'.iFd) : d = d' := by
  by_cases he : e.iFd = fd
  · rw [h.eq_of_fd hd he, h.eq_of_fd hd' (heq.symm.trans he)]
  · exact hinj d d' e e' ((h.conns_iff he).mp hd) ((h.conns_iff (heq ▸ he)).mp hd') heq

/-- **A change to one descriptor and one connection** keeps the books, where the
connection owned the descriptor if it was there, no other one does, and afterwards
the two are there or gone together. -/
theorem Books.change (h : w.Books start batch) (hbut : w.table.SameBut fd w'.table)
    (hfd : fd ∉ start)
    (hconns : ∀ d ≠ c, w'.conns d = w.conns d) (hown : ∀ e, w.conns c = some e → e.iFd = fd)
    (hothers : ∀ d e, w.conns d = some e → d ≠ c → e.iFd ≠ fd)
    (hlt : w'.iEpType = w.iEpType) (hlisten : w'.iListenFd = w.iListenFd)
    (hnew : (w'.conns c = none ∧ w'.table.slot fd = FdEvent.zero)
        ∧ w'.table.epoll.fd fd = .closed
      ∨ ∃ conn', w'.conns c = some conn' ∧ conn'.iFd = fd ∧ w'.Served c fd)
    (hcount : w'.Counted) : w'.Books start batch := by
  have hne : w.iListenFd ≠ fd := fun heq => hfd (heq ▸ h.listenFd)
  have hchanges : Changes c fd w w' := by
    refine ⟨hconns, hown, hothers, fun e he => ?_⟩
    rcases hnew with ⟨⟨hnone, -⟩, -⟩ | ⟨conn', hsome, hfd', -⟩
    · exact absurd (hnone.symm.trans he) (by simp)
    · exact Option.some.inj (hsome.symm.trans he) ▸ hfd'
  refine
    { rules := fun n => by rw [hbut.answer]; exact h.rules n
      failed := by rw [hbut.failed]; exact h.failed
      lt := hlt.trans h.lt
      listenFd := by rw [hlisten]; exact h.listenFd
      accepts := h.accepts.other hbut hlisten hne
      served := fun d e hd => ?_
      inj := fun d d' e e' hd hd' heq => hchanges.inj h.inj hd hd' heq
      opened := fun g => ?_
      new := fun g hg => ?_
      registered := fun g hg => ?_
      count := hcount
      awaited := fun g hg => ?_ }
  · by_cases he : e.iFd = fd
    · obtain rfl := hchanges.eq_of_fd hd he
      rcases hnew with ⟨⟨hnone, -⟩, -⟩ | ⟨conn', -, -, hserved⟩
      · exact absurd (hnone.symm.trans hd) (by simp)
      · exact he ▸ hserved
    · exact (h.served d e ((hchanges.conns_iff he).mp hd)).other hbut he
  · by_cases hg : g = fd
    · rw [hg]
      rcases hnew with ⟨⟨hnone, -⟩, hclosed⟩ | ⟨conn', hsome, hfd', hserved⟩
      · refine iff_of_false (not_not.mpr hclosed) (not_or.mpr ⟨hfd, ?_⟩)
        rintro ⟨d, e, hd, he⟩
        obtain rfl := hchanges.eq_of_fd hd he
        exact absurd (hnone.symm.trans hd) (by simp)
      · exact iff_of_true hserved.isOpen (Or.inr ⟨c, conn', hsome, hfd'⟩)
    · rw [hbut.kernel g hg, h.opened g, hchanges.client_iff hg]
  · by_cases hgf : g = fd
    · exact hgf ▸ hfd
    · exact h.new g ((hchanges.client_iff hgf).mp hg)
  · by_cases hgf : g = fd
    · rw [hgf] at hg ⊢
      rcases hnew with ⟨-, hclosed⟩ | ⟨conn', hsome, hfd', -⟩
      · rw [hclosed] at hg
        exact absurd hg (by decide)
      · exact Or.inr ⟨c, conn', hsome, hfd'⟩
    · rw [hbut.kernel g hgf] at hg
      rw [hlisten, hchanges.client_iff hgf]
      exact h.registered g hg
  · obtain ⟨hpos, hsize, hslot⟩ := h.awaited g hg
    rw [hbut.size, hlisten]
    refine ⟨hpos, hsize, ?_⟩
    by_cases hgf : g = fd
    · rw [hgf]
      rcases hnew with ⟨⟨-, hzero⟩, -⟩ | ⟨conn', hsome, hfd', -⟩
      · exact Or.inr (Or.inr (congrArg FdEvent.iMask hzero))
      · exact Or.inr (Or.inl ⟨c, conn', hsome, hfd'⟩)
    · rw [hchanges.client_iff hgf, hbut.slot g hgf]
      exact hslot

/-! ## What the reactor is called for -/

/-- The descriptor of a live connection is one of those that came after the start,
and no other connection has it. -/
theorem Books.own (h : w.Books start batch) (hc : w.conns c = some conn) :
    conn.iFd ∉ start ∧ ∀ d e, w.conns d = some e → d ≠ c → e.iFd ≠ conn.iFd :=
  ⟨h.new _ ⟨c, conn, hc, rfl⟩, fun d e hd hdc heq => hdc (h.inj d c e conn hd hc heq)⟩

/-- **The data of a connection** may change. -/
theorem Books.update (h : w.Books start batch) (hc : w.conns c = some conn)
    (hsame : conn.SameConn conn') :
    Books start batch { w with conns := Function.update w.conns c (some conn') } := by
  obtain ⟨hfd, hothers⟩ := h.own hc
  have hself : ∀ e, w.conns c = some e → e.iFd = conn.iFd := fun e he => by
    rw [Option.some.inj (hc.symm.trans he)]
  refine h.change (c := c) EventTable.sameBut_refl hfd
    (fun d hd => Function.update_of_ne hd _ _) hself hothers rfl rfl
    (Or.inr ⟨conn', Function.update_self .., hsame.iFd, { h.served c conn hc with }⟩) ?_
  refine h.count.same (fun d => ?_) rfl
  show Function.update w.conns c (some conn') d ≠ none ↔ _
  by_cases hd : d = c
  · rw [hd, Function.update_self]
    exact iff_of_true (by simp) (by rw [hc]; simp)
  · rw [Function.update_of_ne hd]

/-- A change to the slot of a live connection. -/
theorem Books.table (h : w.Books start batch) (hc : w.conns c = some conn) {table : EventTable}
    (hbut : w.table.SameBut conn.iFd table)
    (hserved : Served { w with table := table } c conn.iFd) :
    Books start batch { w with table := table } := by
  obtain ⟨hfd, hothers⟩ := h.own hc
  refine h.change (c := c) hbut hfd (fun d _ => rfl) (fun e he => ?_) hothers rfl rfl
    (Or.inr ⟨conn, hc, rfl, hserved⟩) (h.count.same (fun d => Iff.rfl) rfl)
  rw [Option.some.inj (hc.symm.trans he)]

/-- **A mild call** leaves the process running, the connections as they are, and
the books in order. -/
theorem Books.call (h : w.Books start batch) (hrun : w.fate = .running) (hc : w.conns c = some conn)
    {call : ReactorCall} (hcall : call.Mild) :
    (reactorCall c realloc w call).fate = .running
      ∧ (reactorCall c realloc w call).conns = w.conns
      ∧ (reactorCall c realloc w call).Books start batch := by
  rw [reactorCall_live hrun hc]
  have hserved := h.served c conn hc
  have hle : conn.iFd ≤ w.table.iFdEventArraySize := le_of_lt hserved.range.2
  unfold serve
  rcases hcall with rfl | rfl | ⟨t, rfl⟩
  · obtain ⟨table, hadd, hbut, hkernel, htracks⟩ := @eventAdd_spec w.table conn.iFd eventWritable
      .processSendCallback (some c) h.rules hle hserved.isOpen hserved.tracks (Or.inr rfl)
    have hserves := eventAdd_serves hle (Or.inr ⟨rfl, rfl⟩) hserved.serves.toProper
      (fun _ => hserved.serves.arg)
    dsimp only
    rw [hadd] at hserves ⊢
    refine ⟨hrun, rfl, h.table hc hbut ⟨?_, hserves, htracks, ?_⟩⟩
    · show 0 ≤ conn.iFd ∧ conn.iFd < table.iFdEventArraySize
      rw [hbut.size]
      exact hserved.range
    · show (table.epoll.fd conn.iFd).events.epollin = true
      rw [hkernel]
      show (_ || _) = true
      rw [hserved.watched, Bool.true_or]
  · obtain ⟨table, hdel, hbut, hkernel, htracks⟩ := eventDel_spec (m := eventWritable) h.rules hle
      hserved.tracks
    have hserves := eventDel_serves (m := eventWritable) hserved.serves
    dsimp only
    rw [hdel] at hserves ⊢
    refine ⟨hrun, rfl, h.table hc hbut ⟨?_, hserves, htracks, ?_⟩⟩
    · show 0 ≤ conn.iFd ∧ conn.iFd < table.iFdEventArraySize
      rw [hbut.size]
      exact hserved.range
    · show (table.epoll.fd conn.iFd).events.epollin = true
      rw [hkernel]
      exact watched_without hserved.watched
  · exact ⟨hrun, rfl, { h with
      accepts := { h.accepts with }
      served := fun d e hd => { h.served d e hd with } }⟩

/-- **The connection at `c` is gone**, and its descriptor `fd`, and nothing else. -/
structure Dropped (w : Worker) (c : ConnPtr) (fd : ℤ) (w' : Worker) : Prop where
  conns : w'.conns = Function.update w.conns c none
  others : w.table.SameBut fd w'.table
  slot : w'.table.slot fd = FdEvent.zero
  closed : w'.table.epoll.fd fd = .closed
  fate : w'.fate = w.fate
  iEpType : w'.iEpType = w.iEpType
  iListenFd : w'.iListenFd = w.iListenFd
  iClientCount : w'.iClientCount = w.iClientCount - 1
  nextSerial : w'.nextSerial = w.nextSerial

/-- **`__DestroyConn` of a live connection** does that, and never exits. -/
theorem Books.dropped (h : w.Books start batch) (hc : w.conns c = some conn) :
    w.Dropped c conn.iFd (destroyConn w c) := by
  have hserved := h.served c conn hc
  obtain ⟨table, hdel, hbut, -, -⟩ := eventDel_spec (m := eventWritable ||| eventReadable) h.rules
    (le_of_lt hserved.range.2) hserved.tracks
  obtain ⟨hbut', hzero, hclosed⟩ := @EventTable.sameBut_init table conn.iFd .closed
  have hdestroy : destroyConn w c = { w with
      iClientCount := w.iClientCount - 1
      table := fdFileEventInit { table with epoll := table.epoll.close conn.iFd } conn.iFd
      pstHeapHeader := (minheapErase w.pstHeapHeader conn.pstTimeoutEvent).2
      conns := Function.update w.conns c none } := by
    unfold destroyConn
    rw [hc]
    dsimp only
    rw [hdel]
    rfl
  rw [hdestroy]
  exact
    { conns := rfl
      others := hbut.trans hbut'
      slot := hzero
      closed := hclosed
      fate := rfl
      iEpType := rfl
      iListenFd := rfl
      iClientCount := rfl
      nextSerial := rfl }

/-- So it takes it out of all the books. -/
theorem Books.destroy (h : w.Books start batch) (hc : w.conns c = some conn) :
    (destroyConn w c).fate = w.fate ∧ (destroyConn w c).Books start batch := by
  have hdropped := h.dropped hc
  obtain ⟨hfd, hothers⟩ := h.own hc
  have hconns : ∀ d ≠ c, (destroyConn w c).conns d = w.conns d := fun d hd => by
    rw [hdropped.conns, Function.update_of_ne hd]
  have hnone : (destroyConn w c).conns c = none := by rw [hdropped.conns, Function.update_self]
  refine ⟨hdropped.fate, h.change (c := c) hdropped.others hfd hconns (fun e he => ?_) hothers
    hdropped.iEpType hdropped.iListenFd (Or.inl ⟨⟨hnone, hdropped.slot⟩, hdropped.closed⟩) ?_⟩
  · rw [Option.some.inj (hc.symm.trans he)]
  · exact h.count.fewer (c := c) (by rw [hc]; simp) hnone hconns hdropped.iClientCount

/-- **The calls of a callback**: mild ones. -/
theorem Books.calls (h : w.Books start batch) (hrun : w.fate = .running)
    (hc : w.conns c = some conn) {calls : List ReactorCall} (hmild : ∀ call ∈ calls, call.Mild) :
    (calls.foldl (reactorCall c realloc) w).fate = .running
      ∧ (calls.foldl (reactorCall c realloc) w).Books start batch := by
  induction calls generalizing w with
  | nil => exact ⟨hrun, h⟩
  | cons call calls ih =>
    have hcall := hmild call List.mem_cons_self
    exact ih (h.call hrun hc hcall).2.2 (h.call hrun hc hcall).1
      (by rw [(h.call hrun hc hcall).2.1, hc])
      (fun call' hmem => hmild call' (List.mem_cons_of_mem _ hmem))

/-! ## The callbacks -/

/-- **The end of a callback**, which has done its reading or writing and makes its calls
now, keeps the books and the process running. -/
theorem Books.ends (h : w.Books start batch) (hrun : w.fate = .running)
    (hc : w.conns c = some conn) {calls : List ReactorCall} (hsame : conn.SameConn conn')
    (hcalls : calls = [.destroyConn] ∨ ∀ call ∈ calls, call.Mild) :
    (calls.foldl (reactorCall c realloc)
        { w with conns := Function.update w.conns c (some conn') }).fate = .running
      ∧ (calls.foldl (reactorCall c realloc)
        { w with conns := Function.update w.conns c (some conn') }).Books start batch := by
  have h₁ := h.update hc hsame
  set w₁ : Worker := { w with conns := Function.update w.conns c (some conn') }
  have hrun₁ : w₁.fate = .running := hrun
  have hlive : w₁.conns c = some conn' := Function.update_self ..
  rcases hcalls with rfl | hmild
  · obtain ⟨hfate, hbooks⟩ := h₁.destroy hlive
    rw [List.foldl_cons, List.foldl_nil, reactorCall_live hrun₁ hlive]
    exact ⟨hfate.trans hrun₁, hbooks⟩
  · exact h₁.calls hrun₁ hlive hmild

/-- **A receive or send callback** of a live connection keeps the books, and the
process running, unless it is caught in a loop or an access leaves its memory. -/
theorem Books.callback (h : w.Books start batch) (hrun : w.fate = .running)
    (hc : w.conns c = some conn) {input : EventInput} {t_iFd : ℤ} {proc : EventCallbackProc}
    (hproc : proc = .processRecvCallback ∨ proc = .processSendCallback) :
    ((eventCallback w input t_iFd (some c) proc).fate = .running
        ∨ (eventCallback w input t_iFd (some c) proc).fate = .hung
        ∨ (eventCallback w input t_iFd (some c) proc).fate = .overrun)
      ∧ (eventCallback w input t_iFd (some c) proc).Books start batch := by
  unfold eventCallback
  rcases hproc with rfl | rfl
  · dsimp only
    rw [hc]
    dsimp only
    set r := processRecvCallback conn t_iFd input.malloc input.head input.body input.rx
    have hsame : conn.SameConn r.conn := processRecvCallback_sameConn
    have hread := h.update hc hsame
    obtain ⟨hfate, hbooks⟩ := h.ends hrun hc hsame processRecvCallback_calls
    split
    · exact ⟨Or.inr (Or.inr rfl), { hread with
        accepts := { hread.accepts with }
        served := fun d e hd => { hread.served d e hd with } }⟩
    split
    · exact ⟨Or.inl hfate, hbooks⟩
    · exact ⟨Or.inr (Or.inl rfl), { hbooks with
        accepts := { hbooks.accepts with }
        served := fun d e hd => { hbooks.served d e hd with } }⟩
  · dsimp only
    rw [hc]
    obtain ⟨hfate, hbooks⟩ := h.ends hrun hc processSendCallback_calls.1
      processSendCallback_calls.2
    exact ⟨Or.inl hfate, hbooks⟩

/-- **A client was accepted**: `w'` has its connection, and its descriptor is watched for
input. -/
structure Admitted (w : Worker) (a : Accepted) (w' : Worker) : Prop where
  conns : w'.conns = Function.update w.conns a.pstNewConnFd (some (w.accepted a))
  others : w.table.SameBut a.iClientFd w'.table
  served : w'.Served a.pstNewConnFd a.iClientFd
  kernel : w'.table.epoll.fd a.iClientFd = .registered ⟨true, false⟩
  fate : w'.fate = w.fate
  iEpType : w'.iEpType = w.iEpType
  iListenFd : w'.iListenFd = w.iListenFd
  iClientCount : w'.iClientCount = w.iClientCount + 1
  nextSerial : w'.nextSerial = w.nextSerial + 1
  timeouts : w'.timeouts = w.timeouts

/-- **The accept callback** does that, or nothing, or the process exits: where `accept`
fails, or there is no memory for the connection. -/
theorem Books.admitted (h : w.Books start batch) (t_iFd : ℤ) {accept : AcceptOutcome}
    (hcan : ∀ a, accept = .conn a → w.CanAccept a) :
    (processAcceptCallback w t_iFd accept).fate = .exited
      ∨ processAcceptCallback w t_iFd accept = w ∧ (0 ≤ t_iFd → ∀ a, accept ≠ .conn a)
      ∨ ∃ a, accept = .conn a ∧ w.Admitted a (processAcceptCallback w t_iFd accept) := by
  generalize hg : processAcceptCallback w t_iFd accept = w'
  unfold processAcceptCallback at hg
  split at hg
  · next hneg => exact Or.inr (Or.inl ⟨hg.symm, fun hpos => absurd hneg (not_lt.mpr hpos)⟩)
  split at hg
  · next het => exact absurd (h.lt.symm.trans het) (by decide)
  rw [if_pos h.lt] at hg
  cases accept with
  | eagain => exact Or.inr (Or.inl ⟨hg.symm, fun _ a ha => AcceptOutcome.noConfusion ha⟩)
  | error => exact Or.inl (hg ▸ rfl)
  | conn a =>
    obtain ⟨-, hpos, hlt, -⟩ := hcan a rfl
    dsimp only at hg
    split at hg
    · exact Or.inl (hg ▸ rfl)
    set w₁ : Worker := { w with
      table := { w.table with epoll := w.table.epoll.accept a.iClientFd }
      iClientCount := w.iClientCount + 1 } with hw₁
    set w₂ := registerTimerOutEvent (w₁.joining a) a.pstTimeoutEvent maxConnTimeout a.realloc
      with hw₂
    obtain ⟨hbut, hslot, hkernel⟩ :=
      @EventTable.sameBut_init w.table a.iClientFd .opened
    have htable : w₂.table
      = fdFileEventInit { w.table with epoll := w.table.epoll.setFd a.iClientFd .opened }
        a.iClientFd := rfl
    rw [← htable] at hbut hslot hkernel
    have htracks : (w₂.table.slot a.iClientFd).Tracks (w₂.table.epoll.fd a.iClientFd) := by
      rw [hslot, hkernel]
      exact FdEvent.zero_tracks rfl
    have hle : a.iClientFd ≤ w₂.table.iFdEventArraySize := by
      rw [hbut.size]
      exact le_of_lt hlt
    have hzero : ∀ m, FdEvent.zero.iMask &&& m = 0 := fun m => BitVec.zero_and
    obtain ⟨table, hadd, hbut', hkernel', htracks'⟩ := @eventAdd_spec w₂.table a.iClientFd
      eventReadable .processRecvCallback (some a.pstNewConnFd)
      (fun n => by rw [hbut.answer]; exact h.rules n) hle
      (by rw [hkernel]; exact fun hk => by cases hk) htracks (Or.inl rfl)
    have hserves := @eventAdd_serves w₂.table a.iClientFd eventReadable a.pstNewConnFd
      .processRecvCallback hle (Or.inl ⟨rfl, rfl⟩)
      (by rw [hslot]; exact ⟨fun h => absurd (hzero _) h, fun h => absurd (hzero _) h⟩)
      (by rw [hslot]; exact fun h => absurd (hzero _) h)
    rw [hadd] at hserves
    rw [hkernel] at hkernel'
    split at hg
    · next hfail => exact absurd (congrArg Prod.fst (hadd.symm.trans hfail)) (by simp)
    next table' hsucc =>
    obtain rfl : table = table' := congrArg Prod.snd (hadd.symm.trans hsucc)
    have hwtable : w'.table = table := by rw [← hg]
    refine Or.inr (Or.inr ⟨a, rfl,
      { conns := by rw [← hg]; rfl
        others := by rw [hwtable]; exact hbut.trans hbut'
        served := ⟨?_, ?_, ?_, ?_⟩
        kernel := by rw [hwtable, hkernel']; rfl
        fate := by rw [← hg]; rfl
        iEpType := by rw [← hg]; rfl
        iListenFd := by rw [← hg]; rfl
        iClientCount := by rw [← hg]; rfl
        nextSerial := by rw [← hg]; rfl
        timeouts := by rw [← hg]; rfl }⟩)
    · rw [hwtable, hbut'.size, hbut.size]
      exact ⟨hpos, hlt⟩
    · rw [hwtable]
      exact hserves
    · rw [hwtable]
      exact htracks'
    · rw [hwtable, hkernel']
      rfl

/-- So it keeps the books, or the process exits. -/
theorem Books.accept (h : w.Books start batch) (hrun : w.fate = .running) {t_iFd : ℤ}
    {accept : AcceptOutcome} (hcan : ∀ a, accept = .conn a → w.CanAccept a) :
    (processAcceptCallback w t_iFd accept).fate = .exited
      ∨ (processAcceptCallback w t_iFd accept).fate = .running
        ∧ (processAcceptCallback w t_iFd accept).Books start batch := by
  rcases h.admitted t_iFd hcan with hexit | ⟨hsame, -⟩ | ⟨a, ha, hadmitted⟩
  · exact Or.inl hexit
  · rw [hsame]
    exact Or.inr ⟨hrun, h⟩
  · obtain ⟨hclosed, -, -, hfree⟩ := hcan a ha
    have hnew : a.iClientFd ∉ start ∧ ¬ w.Client a.iClientFd :=
      not_or.mp (fun howned => (h.opened a.iClientFd).mpr howned hclosed)
    have hlive : (processAcceptCallback w t_iFd accept).conns a.pstNewConnFd
        = some (w.accepted a) := by rw [hadmitted.conns, Function.update_self]
    have hconns : ∀ d ≠ a.pstNewConnFd,
        (processAcceptCallback w t_iFd accept).conns d = w.conns d := fun d hd => by
      rw [hadmitted.conns, Function.update_of_ne hd]
    refine Or.inr ⟨hadmitted.fate.trans hrun, h.change (c := a.pstNewConnFd) hadmitted.others
      hnew.1 hconns (fun e he => ?_) (fun d e hd _ heq => hnew.2 ⟨d, e, hd, heq⟩)
      hadmitted.iEpType hadmitted.iListenFd (Or.inr ⟨_, hlive, rfl, hadmitted.served⟩)
      (h.count.more (c := a.pstNewConnFd) hfree (by rw [hlive]; simp) hconns
        hadmitted.iClientCount)⟩
    rw [hfree] at he
    exact absurd he (by simp)

/-! ## The batch loop -/

/-- What the books are about is all that counts. -/
theorem Books.same (h : w.Books start batch) (htable : w'.table = w.table)
    (hconns : w'.conns = w.conns) (hlt : w'.iEpType = w.iEpType)
    (hlisten : w'.iListenFd = w.iListenFd) (hcount : w'.iClientCount = w.iClientCount) :
    w'.Books start batch := by
  cases w
  cases w'
  dsimp only at htable hconns hlt hlisten hcount
  subst htable hconns hlt hlisten hcount
  exact { h with
    accepts := { h.accepts with }
    served := fun d e hd => { h.served d e hd with } }

/-- Events that are worked off are not to come any more. -/
theorem Books.mono {batch' : Set ℤ} (h : w.Books start batch) (hsub : batch' ⊆ batch) :
    w.Books start batch' :=
  { h with awaited := fun fd hfd => h.awaited fd (hsub hfd) }

/-- **A new batch**: what is registered has a slot that is in use. -/
theorem Books.awaiting {batch' : Set ℤ} (h : w.Books start batch)
    (hreg : ∀ fd ∈ batch', (w.table.epoll.fd fd).isRegistered = true) : w.Books start batch' := by
  refine { h with awaited := fun fd hfd => ?_ }
  rcases h.registered fd (hreg fd hfd) with rfl | hclient
  · exact ⟨h.accepts.range.1, h.accepts.range.2, Or.inl rfl⟩
  · obtain ⟨c, conn, hc, rfl⟩ := hclient
    have hrange := (h.served c conn hc).range
    exact ⟨hrange.1, hrange.2, Or.inr (Or.inl ⟨c, conn, hc, rfl⟩)⟩

/-- **The worker is in order**: it has called and used nothing that is not there,
and as long as it runs, its books are right. -/
structure InOrder (start batch : Set ℤ) (w : Worker) : Prop where
  defined : w.fate ≠ .undefined
  books : w.fate = .running → w.Books start batch

theorem Books.inOrder (h : w.Books start batch) (hfate : w.fate ≠ .undefined) :
    w.InOrder start batch := ⟨hfate, fun _ => h⟩

/-- **The batch loop reads the callback from the slot** of an event, for one of the
directions that were triggered and are in its mask: it is the accept callback of the
listening descriptor, or one of the two of a live connection. -/
theorem Books.callee (h : w.Books start batch) (hfd : fd ∈ batch)
    {proc : Option EventCallbackProc}
    (hproc : (w.table.slot fd).iMask &&& eventReadable ≠ 0
        ∧ proc = (w.table.slot fd).pFunEventCallbackRead
      ∨ (w.table.slot fd).iMask &&& eventWritable ≠ 0
        ∧ proc = (w.table.slot fd).pFunEventCallbackWrite) :
    fd = w.iListenFd ∧ proc = some .processAcceptCallback ∧ (w.table.slot fd).pstArg = none
      ∨ ∃ c conn proc', w.conns c = some conn ∧ conn.iFd = fd
        ∧ (w.table.slot fd).pstArg = some c ∧ proc = some proc'
        ∧ (proc' = .processRecvCallback ∨ proc' = .processSendCallback) := by
  obtain ⟨-, -, rfl | ⟨c, conn, hc, rfl⟩ | hnone⟩ := h.awaited fd hfd
  · -- the listening descriptor is watched for input only
    have hlistens := h.accepts.listens
    rcases hproc with ⟨hread, rfl⟩ | ⟨hwrite, rfl⟩
    · exact Or.inl ⟨rfl, hlistens.read hread, hlistens.arg⟩
    · exact absurd hlistens.write hwrite
  · have hserves := (h.served c conn hc).serves
    rcases hproc with ⟨hread, rfl⟩ | ⟨hwrite, rfl⟩
    · exact Or.inr ⟨c, conn, _, hc, rfl, hserves.arg, hserves.read hread, Or.inl rfl⟩
    · exact Or.inr ⟨c, conn, _, hc, rfl, hserves.arg, hserves.write hwrite, Or.inr rfl⟩
  · exact absurd hnone (hproc.elim (fun h => mask_ne_none h.1) (fun h => mask_ne_none h.1))

/-- What it calls keeps the books. -/
theorem Books.trigger (h : w.Books start batch) (hrun : w.fate = .running) (hfd : fd ∈ batch)
    {input : EventInput} (hcan : fd = w.iListenFd → ∀ a, input.accept = .conn a → w.CanAccept a)
    {proc : Option EventCallbackProc}
    (hproc : (w.table.slot fd).iMask &&& eventReadable ≠ 0
        ∧ proc = (w.table.slot fd).pFunEventCallbackRead
      ∨ (w.table.slot fd).iMask &&& eventWritable ≠ 0
        ∧ proc = (w.table.slot fd).pFunEventCallbackWrite) :
    (w.call input fd proc).InOrder start batch := by
  have hlog : ∀ log, Books start batch { w with invoked := log } :=
    fun log => h.same rfl rfl rfl rfl rfl
  unfold Worker.call
  obtain ⟨hlisten, rfl, harg⟩ | ⟨c, conn, proc', hc, rfl, harg, rfl, hproc'⟩ := h.callee hfd hproc
  · dsimp only
    rw [harg]
    have haccept := @Books.accept _ _ _ (hlog (w.invoked ++ [⟨fd, .processAcceptCallback, none,
      ((none : Option ConnPtr).bind w.conns).map ConnFd.serial⟩])) hrun fd _ (hcan hlisten)
    rcases haccept with hfate | ⟨hfate, hbooks⟩
    · exact ⟨ne_of_eq_of_ne hfate (by decide), fun hrun' => absurd (hfate.symm.trans hrun')
        (by decide)⟩
    · exact hbooks.inOrder (ne_of_eq_of_ne hfate (by decide))
  · dsimp only
    rw [harg]
    obtain ⟨hfate, hbooks⟩ := @Books.callback _ _ _ _ _ (hlog (w.invoked ++ [⟨conn.iFd,
      proc', some c, ((some c).bind w.conns).map ConnFd.serial⟩])) hrun hc input conn.iFd _ hproc'
    refine hbooks.inOrder ?_
    rcases hfate with hfate | hfate | hfate
    all_goals exact ne_of_eq_of_ne hfate (by decide)

/-- Whether a slot out of range was used is not in the books. -/
theorem Books.overrun (h : w.Books start batch) (b : Bool) :
    Books start batch { w with table := { w.table with overrun := b } } :=
  { h with
    accepts := { h.accepts with }
    served := fun d e hd => { h.served d e hd with } }

/-- **The first half of a round.** -/
theorem Books.dispatchRead (h : w.Books start batch) (hrun : w.fate = .running)
    {ev : EpollEvent} (hev : ev.fd ∈ batch) {input : EventInput}
    (hcan : (w.table.slot ev.fd).iMask &&& ev.iMask &&& eventReadable ≠ 0 → ev.fd = w.iListenFd →
      ∀ a, input.accept = .conn a → w.CanAccept a) :
    (w.dispatchRead ev input).InOrder start batch := by
  have haccess : Books start batch { w with table := w.table.access ev.fd } := h.overrun _
  unfold Worker.dispatchRead
  dsimp only
  split
  · next htrigger =>
    exact haccess.trigger hrun hev (hcan htrigger) (Or.inl ⟨mask_of_triggered htrigger, rfl⟩)
  · exact haccess.inOrder (ne_of_eq_of_ne hrun (by decide))

/-- **The second half**, which finds the slot as the first one has left it. -/
theorem Books.dispatchWrite (h : w.Books start batch) (hrun : w.fate = .running)
    {ev : EpollEvent} (hev : ev.fd ∈ batch) {input : EventInput} :
    (w.dispatchWrite ev input).InOrder start batch := by
  unfold Worker.dispatchWrite
  dsimp only
  split
  swap
  · exact h.inOrder (ne_of_eq_of_ne hrun (by decide))
  next htrigger =>
  have hmask := mask_of_triggered htrigger
  refine h.trigger hrun hev (fun heq => ?_) (Or.inr ⟨hmask, rfl⟩)
  rw [heq] at hmask
  exact absurd h.accepts.listens.write hmask

/-! ## Timeouts -/

/-- **The rule of the timeouts.** What does not depend on the heap, and is kept when a
connection that is there is destroyed, is kept by them, as long as what the heap leads to
is there. -/
theorem processTimeoutLoop_rule {P : Worker → Prop}
    (hpop : ∀ w heap timeouts, P w → P { w with pstHeapHeader := heap, timeouts := timeouts })
    (hdestroy : ∀ w c conn, P w → w.conns c = some conn → P (destroyConn w c)) (fuel : ℕ)
    (h : P w) (hend : (processTimeoutLoop fuel w).fate = .running) :
    P (processTimeoutLoop fuel w) := by
  induction fuel generalizing w with
  | zero => exact h
  | succ fuel ih =>
    unfold processTimeoutLoop at hend ⊢
    split
    · exact h
    next p htop =>
    rw [htop] at hend
    dsimp only at hend ⊢
    split
    · exact h
    next hdue =>
    rw [if_neg hdue] at hend
    split
    · next hproc =>
      rw [hproc] at hend
      exact ih (hpop w (minheapPop w.pstHeapHeader).2 w.timeouts h) hend
    next hproc =>
    rw [hproc] at hend
    dsimp only at hend
    -- the connection is destroyed, or it is not there, and then the process has ended
    have h₁ := hpop w (minheapPop w.pstHeapHeader).2 (w.timeouts ++ [Worker.timerOwner { w with
      pstHeapHeader := (minheapPop w.pstHeapHeader).2 } p
      ((minheapPop w.pstHeapHeader).2.event p).pstCallbackArg]) h
    have hdestroyed : ∀ (w₁ : Worker) arg, P w₁ →
        (connectionTimeoutCallback w₁ arg).fate = .running →
        P (connectionTimeoutCallback w₁ arg) := by
      intro w₁ arg h₁ hfate
      unfold connectionTimeoutCallback at hfate ⊢
      cases arg with
      | none => exact h₁
      | some c =>
        dsimp only at hfate ⊢
        cases hc : w₁.conns c with
        | none =>
          unfold destroyConn at hfate
          rw [hc] at hfate
          have hundefined : ProcessFate.undefined = .running := hfate
          exact absurd hundefined (by decide)
        | some conn => exact hdestroy w₁ c conn h₁ hc
    split
    · next hfate =>
      rw [if_pos hfate] at hend
      exact ih (hdestroyed _ _ h₁ hfate) hend
    · next hfate =>
      rw [if_neg hfate] at hend
      exact absurd hend hfate

/-- **The timeouts** keep the books, whatever the heap leads to, as long as it leads
to a connection that is there. -/
theorem Books.expire (h : w.Books start batch) (fuel : ℕ)
    (hend : (processTimeoutLoop fuel w).fate = .running) :
    (processTimeoutLoop fuel w).Books start batch :=
  processTimeoutLoop_rule (fun _ _ _ h => h.same rfl rfl rfl rfl rfl)
    (fun _ _ _ h hc => (h.destroy hc).2) fuel h hend

/-! ## A new worker -/

/-- **What a creation finds is as it should be**: a new epoll instance of a kernel
that goes by its rules, the listening descriptor open and with a slot, and that slot
without a mask. -/
structure Creation.Proper (o : Creation) (fd N : ℤ) (e : Epoll) : Prop where
  epoll : o.epoll = some e
  rules : ∀ n, e.answer n = .byRules
  failed : e.failed = false
  registered : ∀ g, (e.fd g).isRegistered = false
  opened : e.fd fd = .opened
  mask : ∀ mem, o.pstFdEventsArray = some mem → (mem fd).iMask = eventNone
  lt : fd < N

/-- A new worker runs, without a connection or a timer. -/
theorem eventBaseCreateFrom_empty {o : Creation} {N : ℤ} (h : eventBaseCreateFrom fd N o = some w) :
    w.fate = .running ∧ w.iClientCount = 0 ∧ w.pstHeapHeader = minheapCreate o.event
      ∧ w.timeouts = [] ∧ w.nextSerial = 0 ∧ w.pstTimeCache = o.gettimeofday := by
  unfold eventBaseCreateFrom at h
  split at h
  · exact absurd h (by simp)
  split at h
  · exact absurd h (by simp)
  next w₀ hnew =>
  dsimp only at h
  split at h
  · exact absurd h (by simp)
  obtain rfl := Option.some.inj h
  unfold createNewEventBase at hnew
  split at hnew
  · exact absurd hnew (by simp)
  split at hnew
  · exact absurd hnew (by simp)
  split at hnew
  · exact absurd hnew (by simp)
  split at hnew
  · exact absurd hnew (by simp)
  split at hnew
  · exact absurd hnew (by simp)
  split at hnew
  · exact absurd hnew (by simp)
  split at hnew
  · exact absurd hnew (by simp)
  obtain rfl := Option.some.inj hnew
  exact ⟨rfl, rfl, rfl, rfl, rfl, rfl⟩

/-- **A new worker has its books in order.** -/
theorem Creation.Proper.books {o : Creation} {e : Epoll} {N : ℤ} (h : o.Proper fd N e)
    (hnew : eventBaseCreateFrom fd N o = some w) : w.Books e.opened ∅ := by
  obtain ⟨hpos, -, mem, e', hmem, he', hlisten, hlt, hconns, hadd⟩ :=
    eventBaseCreateFrom_eq_some hnew
  obtain rfl : e = e' := Option.some.inj (h.epoll.symm.trans he')
  obtain ⟨-, hcount, -⟩ := eventBaseCreateFrom_empty hnew
  have hmask : ((freshTable N mem e).slot fd).iMask = eventNone := h.mask mem hmem
  have htracks : ((freshTable N mem e).slot fd).Tracks ((freshTable N mem e).epoll.fd fd) := by
    rw [show (freshTable N mem e).epoll.fd fd = .opened from h.opened]
    exact ⟨hmask, fun hreg => absurd hreg (by decide), fun hin => absurd hin (by decide),
      fun hout => absurd hout (by decide)⟩
  obtain ⟨table, hadd', hbut, hkernel, htracks'⟩ := @eventAdd_spec (freshTable N mem e) fd
    eventReadable .processAcceptCallback none h.rules (show fd ≤ N from h.lt.le)
    (by rw [show (freshTable N mem e).epoll.fd fd = .opened from h.opened]; simp) htracks
    (Or.inl rfl)
  obtain rfl : w.table = table := congrArg Prod.snd (hadd.symm.trans hadd')
  obtain ⟨-, hslot⟩ := (listening_iff h.lt hmem (fun e₀ he₀ => by
    rw [Option.some.inj (he₀.symm.trans h.epoll)]
    exact h.opened) hnew)
  obtain ⟨hslot, hreg⟩ := hslot hmask
  have hnone : ∀ {c conn}, w.conns c = some conn → False := fun {c conn} hc => by
    rw [hconns c] at hc
    exact absurd hc (by simp)
  have hclient : ∀ g, ¬ w.Client g := fun g ⟨c, conn, hc, _⟩ => hnone hc
  have hopen : ∀ g, w.table.epoll.fd g ≠ .closed ↔ e.fd g ≠ .closed := by
    intro g
    by_cases hg : g = fd
    · rw [hg, hreg, h.opened]
      exact iff_of_true (by simp) (by simp)
    · rw [hbut.kernel g hg]
      rfl
  exact
    { rules := fun n => by rw [hbut.answer]; exact h.rules n
      failed := hbut.failed.trans h.failed
      lt := hlt
      listenFd := by
        rw [hlisten]
        exact (by rw [h.opened]; simp : e.fd fd ≠ .closed)
      accepts :=
        { range := by
            rw [hlisten, hbut.size]
            exact ⟨hpos, h.lt⟩
          listens := by
            rw [hlisten, hslot]
            exact ⟨rfl, fun _ => rfl, by show eventReadable &&& eventWritable = 0; decide⟩
          tracks := by
            rw [hlisten]
            exact htracks'
          watched := by
            rw [hlisten, hreg]
            rfl }
      served := fun c conn hc => (hnone hc).elim
      inj := fun c c' conn conn' hc => (hnone hc).elim
      opened := fun g => (hopen g).trans (or_iff_left (hclient g)).symm
      new := fun g hg => absurd hg (hclient g)
      registered := fun g hg => by
        by_cases hgf : g = fd
        · exact Or.inl (hgf.trans hlisten.symm)
        · rw [hbut.kernel g hgf] at hg
          exact absurd ((h.registered g).symm.trans hg) (by simp)
      count := ⟨∅, fun c => iff_of_false (by simp) (by rw [hconns c]; simp), hcount⟩
      awaited := fun g hg => absurd hg (Set.notMem_empty g) }

end Worker

/-! ## Runs of the loop -/

namespace Reactor

variable {start : Set ℤ} {s s' : Reactor} {input : ReactorInput}

/-- **What the kernel and the allocator do**: `epoll_wait` returns events of
descriptors that are registered, and where the accept callback is made, `accept`
returns a descriptor that is not open and has a slot, and `malloc` memory that is not
in use. -/
def Orderly (s : Reactor) : ReactorInput → Prop
  | .wait _ events =>
    ∀ ev ∈ events.getD [], (s.worker.table.epoll.fd ev.fd).isRegistered = true
  | .callback input => s.nextCallback = some .processAcceptCallback →
    ∀ a, Worker.client input.accept = some a → s.worker.CanAccept a
  | .expire => True

instance (s : Reactor) : ∀ input, Decidable (s.Orderly input)
  | .wait _ events => inferInstanceAs (Decidable (∀ ev ∈ events.getD [], _))
  | .callback input => inferInstanceAs (Decidable (s.nextCallback = some .processAcceptCallback →
    ∀ a ∈ Worker.client input.accept, s.worker.CanAccept a))
  | .expire => inferInstanceAs (Decidable True)

/-- A process that has ended makes no step. -/
theorem running_of_step (hstep : s.step input = some s') : s.worker.fate = .running := by
  unfold Reactor.step at hstep
  split at hstep
  · assumption
  · exact absurd hstep (by simp)

/-- The descriptors of some events. -/
def fds (events : List EpollEvent) : Set ℤ := { fd | ∃ ev ∈ events, ev.fd = fd }

/-- **The loop is in order**: no callback of the batch loop has called or used
anything that is not there (the timeouts, after which the loop waits, may have), and
the books of a worker that runs are right. -/
structure InOrder (start : Set ℤ) (s : Reactor) : Prop where
  defined : s.phase ≠ .waiting → s.worker.fate ≠ .undefined
  books : s.worker.fate = .running → s.worker.Books start (fds s.pending)

/-- **The step lemma.** -/
theorem InOrder.step (h : s.InOrder start) (hadm : s.Orderly input)
    (hstep : s.step input = some s') : s'.InOrder start := by
  unfold Reactor.step at hstep
  split at hstep
  swap
  · exact absurd hstep (by simp)
  next hrun =>
  have hbooks := h.books hrun
  have hnil : fds [] ⊆ fds s.pending := fun fd ⟨ev, hev, _⟩ => absurd hev List.not_mem_nil
  split at hstep
  · obtain rfl := Option.some.inj hstep
    exact ⟨fun hphase => absurd rfl hphase, fun _ =>
      (hbooks.mono hnil).same rfl rfl rfl rfl rfl⟩
  · next now events hphase =>
    obtain rfl := Option.some.inj hstep
    have hreg : ∀ fd ∈ fds events, (s.worker.table.epoll.fd fd).isRegistered = true := by
      rintro fd ⟨ev, hev, rfl⟩
      exact hadm ev hev
    exact ⟨fun _ => ne_of_eq_of_ne hrun (by decide), fun _ =>
      (hbooks.awaiting hreg).same rfl rfl rfl rfl rfl⟩
  · next ev events input hphase =>
    obtain rfl := Option.some.inj hstep
    have hpending : s.pending = ev :: events := by unfold Reactor.pending; rw [hphase]
    rw [hpending] at hbooks
    -- what is read from the listening descriptor is a connection
    have hnext : (s.worker.table.slot ev.fd).iMask &&& ev.iMask &&& eventReadable ≠ 0 →
        ev.fd = s.worker.iListenFd → s.nextCallback = some .processAcceptCallback := by
      intro htrigger hev
      have hread := Worker.mask_of_triggered htrigger
      unfold nextCallback
      rw [if_pos hrun, hphase]
      refine (if_pos htrigger).trans ?_
      rw [hev] at hread ⊢
      exact hbooks.accepts.listens.read hread
    have horder : (s.worker.dispatchRead ev input).InOrder start (fds (ev :: events)) :=
      hbooks.dispatchRead hrun ⟨ev, List.mem_cons_self, rfl⟩
      (fun htrigger hev a ha => hadm (hnext htrigger hev) a (by rw [ha]; rfl))
    exact ⟨fun _ => horder.defined, horder.books⟩
  · next ev events input hphase =>
    obtain rfl := Option.some.inj hstep
    have hpending : s.pending = ev :: events := by unfold Reactor.pending; rw [hphase]
    rw [hpending] at hbooks
    have horder : (s.worker.dispatchWrite ev input).InOrder start (fds (ev :: events)) :=
      hbooks.dispatchWrite hrun ⟨ev, List.mem_cons_self, rfl⟩
    exact ⟨fun _ => horder.defined, fun hrun' => (horder.books hrun').mono
      (fun fd ⟨ev', hev', heq⟩ => ⟨ev', List.mem_cons_of_mem _ hev', heq⟩)⟩
  · obtain rfl := Option.some.inj hstep
    exact ⟨fun hphase => absurd rfl hphase, fun hrun' =>
      (hbooks.expire _ hrun').mono hnil⟩
  · exact absurd hstep (by simp)

/-- **A new worker is in order.** -/
theorem InOrder.new {fd N : ℤ} {o : Worker.Creation} {e : Epoll} {w : Worker}
    (hproper : o.Proper fd N e) (hnew : Worker.eventBaseCreateFrom fd N o = some w) :
    InOrder e.opened ⟨w, .waiting⟩ := by
  refine ⟨fun hphase => absurd rfl hphase, fun _ => ?_⟩
  exact (hproper.books hnew).mono (fun fd ⟨ev, hev, _⟩ => absurd hev List.not_mem_nil)

end Reactor

/-- **The books of a worker are always right**, over any run of the loop of a worker
that `EventBaseCreate` returned, whatever its clients send and whatever becomes of its
timers, up to the first callback that leaves its memory: as many clients are counted as
there are connections, each with one open descriptor that is watched and served for it
alone, and nothing else has been opened and left. And no callback of the batch loop runs
on a connection that is gone. -/
theorem reactor_always_books {fd N : ℤ} {o : Worker.Creation} {e : Epoll} {w : Worker}
    (hproper : o.Proper fd N e) (hnew : Worker.eventBaseCreateFrom fd N o = some w)
    {inputs : List ReactorInput}
    (hadm : Run.Along Reactor.step Reactor.Orderly ⟨w, .waiting⟩ inputs) :
    Run.Always Reactor.step (Reactor.InOrder e.opened) ⟨w, .waiting⟩ inputs := by
  exact Run.always_of_along (fun s input s' h hadm hstep => h.step hadm hstep)
    (.new hproper hnew) hadm

/-- A new epoll instance of a kernel that goes by its rules, with descriptor `3`
open. -/
def ruledEpoll : Epoll where
  fd := Function.update (fun _ => .closed) 3 .opened
  answer := fun _ => .byRules
  calls := 0
  failed := false

/-- A creation with it, over memory whose slots have no mask. -/
def ruledCreation : Worker.Creation :=
  { Worker.creation (fun _ => ⟨0, none, some (.wild 7), some 9⟩) with epoll := some ruledEpoll }

theorem ruledCreation_proper : ruledCreation.Proper 3 8 ruledEpoll where
  epoll := rfl
  rules := fun _ => rfl
  failed := rfl
  registered := fun g => by
    show (Function.update (fun _ : ℤ => KernelFd.closed) 3 .opened g).isRegistered = false
    by_cases hg : g = 3
    · rw [hg, Function.update_self]
      rfl
    · rw [Function.update_of_ne hg]
      rfl
  opened := by
    show Function.update (fun _ : ℤ => KernelFd.closed) 3 .opened 3 = .opened
    exact Function.update_self ..
  mask := fun mem hmem => by
    obtain rfl := Option.some.inj hmem
    rfl
  lt := by decide

/-- The worker it makes. -/
def ruledWorker : Worker :=
  eventBaseCreate (Worker.freshTable 8 (fun _ => ⟨0, none, some (.wild 7), some 9⟩) ruledEpoll)
    ruledCreation.event ⟨10, 0⟩ 3 1

theorem ruledWorker_created : Worker.eventBaseCreateFrom 3 8 ruledCreation = some ruledWorker := rfl

/-- Two rounds: a client connects and is given descriptor `7`; it closes its end, while
the next one connects and gets the same descriptor. -/
def twoRounds : List ReactorInput :=
  acceptingInputs 7 ++ [.wait ⟨11, 0⟩ (some [⟨7, true, false, true, false⟩,
      ⟨3, true, false, false, false⟩])]
    ++ List.replicate 4 (.callback (.accepting { reusedAccepted with iClientFd := 7 })) ++ [.expire]

/-- The books over these rounds. -/
theorem reactor_always_books_sample :
    Run.Always Reactor.step (Reactor.InOrder ruledEpoll.opened) ⟨ruledWorker, .waiting⟩ twoRounds :=
  reactor_always_books ruledCreation_proper ruledWorker_created (by decide +kernel)
