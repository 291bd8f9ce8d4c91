import TcpFrame.BenchClientTimeout

/-!
# The books of the benchmark client

What `RecvFromServerCallback` has counted, and for whom it will. A response is counted
where it is read, with the latency its client has, so that it is counted once if a client
is read from at most once for every request: as long as responses are counted, a client
that is watched for reading has a request under way (`Benchmark.Waits`). This is what
`ReactorResetClient` and a new connection see to, where the kernel does remove the client,
and a reset after a timeout leaves it so even where it does not.

Most of what the process does is done in one slot, to one descriptor
(`Benchmark.Local`), and the books are kept by that.
-/

namespace Benchmark

variable {b b' b'' : Benchmark} {a : ClientAttempt} {n i j : ℕ} {fd : ℤ} {m m' : BitVec 32}
  {func : FuncProcCallback}

/-! ## What is counted -/

/-- **The array of latencies is not overrun**, and no response too many is counted. -/
structure Within (b : Benchmark) : Prop where
  overrun : b.tally.overrun = false
  done_le : b.config.doneRequests ≤ b.config.needRequestNum

/-! ## Requests under way -/

/-- **The client has the times of its request**: the time it began, and once it was read
from, how long that took. -/
structure Times (q : Asked) (pclient : ClientFD) (usec : ℕ) : Prop where
  startTime : pclient.startTime = q.began
  began_le : q.began ≤ usec
  latency : q.heard = none ∧ pclient.latency = -1
    ∨ ∃ heard, q.heard = some heard ∧ q.began ≤ heard ∧ heard ≤ usec
      ∧ pclient.latency = heard - q.began

/-- **A request is under way in the slot `i`.** -/
def Pending (b : Benchmark) (i : ℕ) : Prop :=
  ∃ q, b.tally.asked i = some q ∧ Times q (b.clientsPtr i) b.usec

/-- **It was answered**, at least in part. -/
def Heard (b : Benchmark) (i : ℕ) : Prop :=
  ∃ q, b.tally.asked i = some q ∧ Times q (b.clientsPtr i) b.usec ∧ q.heard ≠ none

theorem Heard.pending (h : b.Heard i) : b.Pending i := by
  obtain ⟨q, hasked, htimes, -⟩ := h
  exact ⟨q, hasked, htimes⟩

/-- **A slot waits for a response** only if its request is under way: where responses are
counted, a client that is watched for reading, or has begun to write, has asked. -/
def Waits (b : Benchmark) (i : ℕ) : Prop :=
  b.config.doneRequests < b.config.needRequestNum → (b.clientsPtr i).fd ≠ fdarrayIndexInit →
    (b.watched i).epollin = true ∨ (b.clientsPtr i).sendedLen ≠ 0 → b.Pending i

/-- The callbacks of a client are for their directions. -/
def Wired (pclient : ClientFD) : Prop :=
  pclient.rFuncProc ≠ some .sendToServerCallback
    ∧ pclient.wFuncProc ≠ some .recvFromServerCallback

/-- **The books**, where `n` responses are needed: what was counted, and that a descriptor that
is registered is found in its slot. -/
structure Books (n : ℕ) (b : Benchmark) : Prop where
  need : b.config.needRequestNum = n
  clock : b.usec < 2 ^ 63
  within : b.Within
  stopped : b.stop = 0 → b.config.needRequestNum ≤ b.config.doneRequests
  answered : b.tally.answered
    = (List.range b.config.doneRequests).map (fun k => some (b.latency k : ℤ))
  nonneg : ∀ j, (b.clientsPtr j).fd ≠ fdarrayIndexInit → 0 ≤ (b.clientsPtr j).fd
  index : ∀ j, (b.clientsPtr j).fd ≠ fdarrayIndexInit → b.slotIndex (b.clientsPtr j).fd = j
  found : ∀ g, (b.epoll.fd g).isRegistered = true →
    0 ≤ g ∧ (b.clientsPtr (b.slotIndex g)).fd = g
  wired : ∀ j, Wired (b.clientsPtr j)
  oneWay : ∀ g, (b.epoll.fd g).events.OneWay

/-- **The invariant** between two calls. -/
structure Booked (n : ℕ) (b : Benchmark) : Prop where
  books : Books n b
  waits : ∀ j, b.Waits j

/-! ## What is done in one slot -/

/-- **Nothing that counts has changed.** -/
structure Same (b b' : Benchmark) : Prop where
  usec : b'.usec = b.usec
  stop : b'.stop = b.stop
  latency : b'.latency = b.latency
  tally : b'.tally = b.tally
  need : b'.config.needRequestNum = b.config.needRequestNum
  done : b'.config.doneRequests = b.config.doneRequests
  clientNum : b'.config.needClientNum = b.config.needClientNum
  clients : b'.clientsPtr = b.clientsPtr
  epoll : b'.epoll = b.epoll

/-- Where the process is does not count. -/
theorem same_phase {p : BenchPhase} {lastCheckUstime : ℕ} {epollFail : ℤ} : Same b { b with
    phase := p, lastCheckUstime := lastCheckUstime, epollFail := epollFail } where
  usec := rfl
  stop := rfl
  latency := rfl
  tally := rfl
  need := rfl
  done := rfl
  clientNum := rfl
  clients := rfl
  epoll := rfl

theorem Same.slotIndex (h : Same b b') (g : ℤ) : b'.slotIndex g = b.slotIndex g := by
  unfold Benchmark.slotIndex
  rw [h.clientNum]

theorem Books.same (h : Books n b) (hs : Same b b') : Books n b' where
  need := hs.need.trans h.need
  clock := hs.usec ▸ h.clock
  within := ⟨hs.tally ▸ h.within.overrun, by rw [hs.done, hs.need]; exact h.within.done_le⟩
  stopped := by
    rw [hs.stop, hs.need, hs.done]
    exact h.stopped
  answered := by
    rw [hs.tally, hs.done, hs.latency]
    exact h.answered
  nonneg := hs.clients ▸ h.nonneg
  index j hj := by
    rw [hs.clients] at hj ⊢
    rw [hs.slotIndex]
    exact h.index j hj
  found g hg := by
    rw [hs.clients, hs.slotIndex]
    exact h.found g (hs.epoll ▸ hg)
  wired := hs.clients ▸ h.wired
  oneWay := hs.epoll ▸ h.oneWay

theorem Waits.same (h : b.Waits j) (hs : Same b b') : b'.Waits j := by
  unfold Waits Pending watched at h ⊢
  rw [hs.done, hs.need, hs.clients, hs.epoll, hs.tally, hs.usec]
  exact h

theorem Booked.same (h : Booked n b) (hs : Same b b') : Booked n b' :=
  ⟨h.books.same hs, fun j => (h.waits j).same hs⟩

/-- **Only the slot `i` and its descriptor have changed**, and not the descriptor it
has. -/
structure Local (i : ℕ) (b b' : Benchmark) : Prop where
  usec : b'.usec = b.usec
  stop : b'.stop = b.stop
  phase : b'.phase = b.phase
  latency : b'.latency = b.latency
  overrun : b'.tally.overrun = b.tally.overrun
  answered : b'.tally.answered = b.tally.answered
  need : b'.config.needRequestNum = b.config.needRequestNum
  done : b'.config.doneRequests = b.config.doneRequests
  clientNum : b'.config.needClientNum = b.config.needClientNum
  clients : ∀ j ≠ i, b'.clientsPtr j = b.clientsPtr j
  asked : ∀ j ≠ i, b'.tally.asked j = b.tally.asked j
  fd : (b'.clientsPtr i).fd = (b.clientsPtr i).fd
  wired : Wired (b.clientsPtr i) → Wired (b'.clientsPtr i)
  kernel : ∀ g ≠ (b.clientsPtr i).fd, b'.epoll.fd g = b.epoll.fd g
  oneWay : (b.watched i).OneWay → (b'.watched i).OneWay

theorem Local.trans (h : Local i b b') (h' : Local i b' b'') : Local i b b'' where
  usec := h'.usec.trans h.usec
  stop := h'.stop.trans h.stop
  phase := h'.phase.trans h.phase
  latency := h'.latency.trans h.latency
  overrun := h'.overrun.trans h.overrun
  answered := h'.answered.trans h.answered
  need := h'.need.trans h.need
  done := h'.done.trans h.done
  clientNum := h'.clientNum.trans h.clientNum
  clients j hj := (h'.clients j hj).trans (h.clients j hj)
  asked j hj := (h'.asked j hj).trans (h.asked j hj)
  fd := h'.fd.trans h.fd
  wired hw := h'.wired (h.wired hw)
  kernel g hg := (h'.kernel g (h.fd ▸ hg)).trans (h.kernel g hg)
  oneWay hw := h'.oneWay (h.oneWay hw)

theorem Local.spares (h : Local i b b') : b.Spares (b.clientsPtr i).fd b' where
  kernel g hg _ := h.kernel g hg
  phase := Or.inl h.phase

theorem Local.slotIndex (h : Local i b b') (g : ℤ) : b'.slotIndex g = b.slotIndex g := by
  unfold Benchmark.slotIndex
  rw [h.clientNum]

/-- No slot gets another descriptor. -/
theorem Local.fds (h : Local i b b') (j : ℕ) : (b'.clientsPtr j).fd = (b.clientsPtr j).fd := by
  by_cases hj : j = i
  · rw [hj, h.fd]
  · rw [h.clients j hj]

/-- **The books** are about the other slots, and about what is in this one. -/
theorem Books.local (h : Books n b) (hl : Local i b b')
    (hfd : (b.clientsPtr i).fd ≠ fdarrayIndexInit) : Books n b' where
  need := hl.need.trans h.need
  clock := hl.usec ▸ h.clock
  within := ⟨hl.overrun.trans h.within.overrun, by
    rw [hl.done, hl.need]
    exact h.within.done_le⟩
  stopped := by
    rw [hl.stop, hl.need, hl.done]
    exact h.stopped
  answered := by
    rw [hl.answered, hl.done, hl.latency]
    exact h.answered
  nonneg j hj := by
    rw [hl.fds] at hj ⊢
    exact h.nonneg j hj
  index j hj := by
    rw [hl.fds] at hj ⊢
    rw [hl.slotIndex]
    exact h.index j hj
  found g hg := by
    rw [hl.fds, hl.slotIndex]
    by_cases heq : g = (b.clientsPtr i).fd
    · rw [heq, h.index i hfd]
      exact ⟨h.nonneg i hfd, rfl⟩
    · exact h.found g (hl.kernel g heq ▸ hg)
  wired j := by
    by_cases hj : j = i
    · rw [hj]
      exact hl.wired (h.wired i)
    · rw [hl.clients j hj]
      exact h.wired j
  oneWay g := by
    by_cases heq : g = (b.clientsPtr i).fd
    · have hone := hl.oneWay (h.oneWay _)
      unfold watched at hone
      rw [heq, ← hl.fd]
      exact hone
    · rw [hl.kernel g heq]
      exact h.oneWay g

/-- Two slots do not have one descriptor. -/
theorem Books.fd_ne (h : Books n b) (hij : j ≠ i) (hfd : (b.clientsPtr j).fd ≠ fdarrayIndexInit) :
    (b.clientsPtr j).fd ≠ (b.clientsPtr i).fd := by
  intro heq
  refine hij ?_
  rw [← h.index j hfd, heq, h.index i (heq ▸ hfd)]

/-- **Another slot** waits as before. -/
theorem Waits.local (hw : b.Waits j) (h : Books n b) (hl : Local i b b') (hij : j ≠ i) :
    b'.Waits j := by
  intro hdone hfd hwait
  rw [hl.done, hl.need] at hdone
  rw [hl.clients j hij] at hfd
  unfold Pending watched at *
  rw [hl.clients j hij, hl.kernel _ (h.fd_ne hij hfd)] at hwait
  rw [hl.clients j hij, hl.asked j hij, hl.usec]
  exact hw hdone hfd hwait

/-! ## What the functions do in a slot -/

theorem local_setClient {pclient : ClientFD} (hfd : pclient.fd = (b.clientsPtr i).fd)
    (hwired : Wired (b.clientsPtr i) → Wired pclient) : Local i b (b.setClient i pclient) where
  usec := rfl
  stop := rfl
  phase := rfl
  latency := rfl
  overrun := rfl
  answered := rfl
  need := rfl
  done := rfl
  clientNum := rfl
  clients _ hj := setClient_of_ne hj
  asked _ _ := rfl
  fd := setClient_fd hfd i
  wired hw := by
    rw [setClient_self]
    exact hwired hw
  kernel _ _ := rfl
  oneWay hw := by
    unfold watched
    rw [setClient_fd hfd]
    exact hw

/-- Of the request in the slot, and of the connection, something else is remembered. -/
theorem local_remember {asked : ℕ → Option Asked} {held : ℕ → Option Opened}
    (hasked : ∀ j ≠ i, asked j = b.tally.asked j) :
    Local i b { b with held := held, tally := { b.tally with asked := asked } } where
  usec := rfl
  stop := rfl
  phase := rfl
  latency := rfl
  overrun := rfl
  answered := rfl
  need := rfl
  done := rfl
  clientNum := rfl
  clients _ _ := rfl
  asked := hasked
  fd := rfl
  wired hw := hw
  kernel _ _ := rfl
  oneWay hw := hw

theorem local_config {config : StatisticsStruct}
    (hneed : config.needRequestNum = b.config.needRequestNum)
    (hdone : config.doneRequests = b.config.doneRequests)
    (hnum : config.needClientNum = b.config.needClientNum) :
    Local i b { b with config := config } where
  usec := rfl
  stop := rfl
  phase := rfl
  latency := rfl
  overrun := rfl
  answered := rfl
  need := hneed
  done := hdone
  clientNum := hnum
  clients _ _ := rfl
  asked _ _ := rfl
  fd := rfl
  wired hw := hw
  kernel _ _ := rfl
  oneWay hw := hw

/-- **A registration** changes what is registered, and nothing else. -/
theorem local_of_rewires (h : Rewires i b b') (hstop : b'.stop = b.stop)
    (hphase : b'.phase = b.phase) (hlatency : b'.latency = b.latency)
    (htally : b'.tally = b.tally) (hwired : Wired (b.clientsPtr i) → Wired (b'.clientsPtr i))
    (honeWay : (b.watched i).OneWay → (b'.watched i).OneWay) : Local i b b' where
  usec := h.usec
  stop := hstop
  phase := hphase
  latency := hlatency
  overrun := by rw [htally]
  answered := by rw [htally]
  need := by rw [h.config]
  done := by rw [h.config]
  clientNum := by rw [h.config]
  clients := h.clients
  asked _ _ := by rw [htally]
  fd := h.fd
  wired := hwired
  kernel := h.kernel
  oneWay := honeWay

/-- A direction, with the callback that is for it. -/
def For (m : BitVec 32) (func : FuncProcCallback) : Prop :=
  m = readable ∧ func = .recvFromServerCallback ∨ m = writeable ∧ func = .sendToServerCallback

/-- **`ReactorAddEvent`** of one direction. -/
theorem local_addEvent (hfor : For m func)
    (honeWay : (clientEvents ((b.clientsPtr i).mask ||| m)).OneWay) :
    Local i b (reactorAddEvent b i m func).2 := by
  have hrewires := reactorAddEvent_rewires b i m func
  have hone := fun h => events_reactorAddEvent (b := b) (i := i) (m := m) func oneWay_none h honeWay
  rcases hfor with ⟨rfl, rfl⟩ | ⟨rfl, rfl⟩
  · have hadd : reactorAddEvent b i readable .recvFromServerCallback
        = (b.setClient i { b.clientsPtr i with
            mask := (b.clientsPtr i).mask ||| readable
            rFuncProc := some .recvFromServerCallback }).ctl
          (if (b.clientsPtr i).mask = enone then .add else .mod) (b.clientsPtr i).fd
          (clientEvents ((b.clientsPtr i).mask ||| readable)) := rfl
    rw [hadd] at hrewires hone ⊢
    refine local_of_rewires hrewires rfl rfl rfl rfl (fun hw => ?_) hone
    show Wired ((b.setClient i _).clientsPtr i)
    rw [setClient_self]
    exact ⟨by simp, hw.2⟩
  · have hadd : reactorAddEvent b i writeable .sendToServerCallback
        = (b.setClient i { b.clientsPtr i with
            mask := (b.clientsPtr i).mask ||| writeable
            wFuncProc := some .sendToServerCallback }).ctl
          (if (b.clientsPtr i).mask = enone then .add else .mod) (b.clientsPtr i).fd
          (clientEvents ((b.clientsPtr i).mask ||| writeable)) := rfl
    rw [hadd] at hrewires hone ⊢
    refine local_of_rewires hrewires rfl rfl rfl rfl (fun hw => ?_) hone
    show Wired ((b.setClient i _).clientsPtr i)
    rw [setClient_self]
    exact ⟨hw.1, by simp⟩

theorem local_delEvent (honeWay : (clientEvents ((b.clientsPtr i).mask &&& ~~~m)).OneWay) :
    Local i b (reactorDelEvent b i m).2 := by
  refine local_of_rewires (reactorDelEvent_rewires b i m) rfl rfl rfl rfl (fun hw => ?_)
    (fun h => events_reactorDelEvent oneWay_none h honeWay)
  show Wired ((b.setClient i _).clientsPtr i)
  rw [setClient_self]
  exact hw

/-- **One direction is exchanged for the other.** -/
theorem local_swap (hm : m = readable ∧ m' = writeable ∨ m = writeable ∧ m' = readable)
    (hfor : For m func) : Local i b (reactorAddEvent (reactorDelEvent b i m').2 i m func).2 := by
  obtain ⟨hdel, hadd⟩ := oneWay_clientEvents (b.clientsPtr i).mask hm
  exact (local_delEvent hdel).trans (local_addEvent hfor (mask_reactorDelEvent ▸ hadd))

/-- **`ReactorResetClient`** begins anew in its slot. -/
theorem local_reset : Local i b (reactorResetClient b i) := by
  unfold reactorResetClient
  extract_lets b₁ b₂ _ b₃ resetClientNum _ pclient b₄
  have h₂ : Local i b b₂ := local_swap (Or.inr ⟨rfl, rfl⟩) (Or.inr ⟨rfl, rfl⟩)
  have h₃ : Local i b b₃ := h₂.trans (local_setClient rfl id)
  split
  · rw [if_neg (Nat.not_lt_zero _)]
    have h₄ : Local i b b₄ := h₃.trans (local_setClient rfl id)
    exact h₄.trans (local_config rfl rfl rfl)
  · exact h₃.trans (local_config rfl rfl rfl)

/-- What the kernel watches for after a reset, is what it does after the exchange. -/
theorem watched_reset : (reactorResetClient b i).watched i
    = (reactorAddEvent (reactorDelEvent b i readable).2 i writeable
        .sendToServerCallback).2.watched i := by
  have hepoll : (reactorResetClient b i).epoll
      = (reactorAddEvent (reactorDelEvent b i readable).2 i writeable
          .sendToServerCallback).2.epoll := by
    unfold reactorResetClient
    extract_lets
    split
    · rw [if_neg (Nat.not_lt_zero _)]
      rfl
    · rfl
  unfold watched
  rw [hepoll, (reactorResetClient_resets b i).fd,
    (swap_rewires b i writeable readable .sendToServerCallback).fd]

end Benchmark

/-- **A descriptor that is registered** can be changed or removed, unless the kernel
refuses it. -/
theorem Epoll.succeeds_of_registered {e : Epoll} {fd : ℤ} {op : EpollOper}
    (hreg : (e.fd fd).isRegistered = true) (hanswer : e.answer e.calls ≠ .refused)
    (hop : op ≠ .add) : e.succeeds op fd = true := by
  have hadmits : (e.fd fd).admits op = true := by
    cases hk : e.fd fd with
    | registered events =>
      cases op with
      | add => exact absurd rfl hop
      | _ => rfl
    | _ => exact absurd hreg (by rw [hk]; decide)
  unfold Epoll.succeeds
  cases hans : e.answer e.calls with
  | byRules => exact hadmits
  | refused => exact absurd hans hanswer
  | granted => rfl

namespace Benchmark

variable {b b' b'' : Benchmark} {a : ClientAttempt} {n i j : ℕ} {fd : ℤ} {m m' : BitVec 32}
  {func : FuncProcCallback}

theorem epollin_of_mask {mask : BitVec 32} (h : mask &&& readable = 0) :
    (clientEvents mask).epollin = false := by
  show (mask &&& readable != 0) = false
  rw [h]
  rfl

/-- **A client is not watched for reading** after a reset, where its removal is not
refused. -/
theorem epollin_reset (hreg : (b.epoll.fd (b.clientsPtr i).fd).isRegistered = true)
    (hanswer : b.epoll.answer b.epoll.calls ≠ .refused) :
    ((reactorResetClient b i).watched i).epollin = false := by
  obtain ⟨hdel, hadd⟩ := mask_swap (b.clientsPtr i).mask (Or.inr ⟨rfl, rfl⟩)
  have hremoved : ((reactorDelEvent b i readable).2.watched i).epollin = false := by
    unfold watched
    rw [(reactorDelEvent_rewires b i readable).fd]
    unfold reactorDelEvent
    extract_lets pclient pclient' op
    have hop : op ≠ .add := by
      unfold op
      split <;> decide
    have hsucceeds : b.epoll.succeeds op pclient.fd = true :=
      Epoll.succeeds_of_registered hreg hanswer hop
    show ((b.epoll.ctl op pclient.fd (clientEvents pclient'.mask)).2.fd pclient.fd).events.epollin
      = false
    rw [Epoll.ctl_succeeds hsucceeds]
    show (Function.update b.epoll.fd pclient.fd _ pclient.fd).events.epollin = false
    rw [Function.update_self]
    exact KernelFd.keeps_set (P := fun events => events.epollin = false) rfl (epollin_of_mask hdel)
  rw [watched_reset]
  exact events_reactorAddEvent (P := fun events => events.epollin = false) .sendToServerCallback
    rfl hremoved (epollin_of_mask (mask_reactorDelEvent ▸ hadd))

/-! ## Giving up a slot, and taking one -/

theorem fd_closeConnection : (reactorCloseConnection b i).epoll.fd
    = Function.update b.epoll.fd (b.clientsPtr i).fd .closed := by
  show Function.update (b.epoll.ctl .del (b.clientsPtr i).fd ⟨false, false⟩).2.fd
    (b.clientsPtr i).fd .closed = _
  cases hctl : b.epoll.succeeds .del (b.clientsPtr i).fd with
  | true =>
    rw [Epoll.ctl_succeeds hctl]
    exact Function.update_idem ..
  | false => rw [Epoll.ctl_fails hctl]

theorem clients_closeConnection (hij : j ≠ i) :
    (reactorCloseConnection b i).clientsPtr j = b.clientsPtr j := setClient_of_ne hij

theorem client_closeConnection : (reactorCloseConnection b i).clientsPtr i
    = { b.clientsPtr i with fd := fdarrayIndexInit } := setClient_self

/-- **`ReactorCloseConnection`** gives up the slot, whatever was under way there. -/
theorem Books.closeConnection (h : Books n b) (hw : ∀ j ≠ i, b.Waits j) :
    Booked n (reactorCloseConnection b i) where
  books := by
    have hfd : ∀ j, ((reactorCloseConnection b i).clientsPtr j).fd ≠ fdarrayIndexInit →
        j ≠ i ∧ (reactorCloseConnection b i).clientsPtr j = b.clientsPtr j := by
      intro j hj
      have hij : j ≠ i := fun hij => hj (by rw [hij, client_closeConnection])
      exact ⟨hij, clients_closeConnection hij⟩
    refine ⟨h.need, h.clock, ⟨h.within.overrun, h.within.done_le⟩, h.stopped, h.answered,
      fun j hj => ?_, fun j hj => ?_, fun g hg => ?_, fun j => ?_, fun g => ?_⟩
    · obtain ⟨-, hclient⟩ := hfd j hj
      rw [hclient] at hj ⊢
      exact h.nonneg j hj
    · obtain ⟨-, hclient⟩ := hfd j hj
      rw [hclient] at hj ⊢
      exact h.index j hj
    · rw [fd_closeConnection] at hg
      have hne : g ≠ (b.clientsPtr i).fd := by
        rintro rfl
        rw [Function.update_self] at hg
        exact absurd hg (by decide)
      rw [Function.update_of_ne hne] at hg
      obtain ⟨hpos, hclient⟩ := h.found g hg
      have hij : b.slotIndex g ≠ i := fun hij => hne (hij ▸ hclient).symm
      exact ⟨hpos, (congrArg ClientFD.fd (clients_closeConnection hij)).trans hclient⟩
    · by_cases hij : j = i
      · rw [hij, client_closeConnection]
        exact h.wired i
      · rw [clients_closeConnection hij]
        exact h.wired j
    · rw [fd_closeConnection]
      by_cases hg : g = (b.clientsPtr i).fd
      · rw [hg, Function.update_self]
        exact oneWay_none
      · rw [Function.update_of_ne hg]
        exact h.oneWay g
  waits j hdone hfd hwait := by
    by_cases hij : j = i
    · rw [hij, client_closeConnection] at hfd
      exact absurd rfl hfd
    have hasked : (reactorCloseConnection b i).tally.asked j = b.tally.asked j :=
      Function.update_of_ne hij _ _
    have husec : (reactorCloseConnection b i).usec = b.usec := rfl
    unfold watched at hwait
    rw [clients_closeConnection hij] at hfd hwait
    rw [fd_closeConnection, Function.update_of_ne (h.fd_ne hij hfd)] at hwait
    unfold Pending
    rw [clients_closeConnection hij, hasked, husec]
    exact hw j hij hdone hfd hwait

theorem spares_closeConnection :
    b.Spares (b.clientsPtr i).fd (reactorCloseConnection b i) where
  kernel g hg _ := by rw [fd_closeConnection, Function.update_of_ne hg]
  phase := Or.inl rfl

/-- A descriptor that is closed is not watched. -/
theorem local_close : Local i b (b.close (b.clientsPtr i).fd) where
  usec := rfl
  stop := rfl
  phase := rfl
  latency := rfl
  overrun := rfl
  answered := rfl
  need := rfl
  done := rfl
  clientNum := rfl
  clients _ _ := rfl
  asked _ _ := rfl
  fd := rfl
  wired hw := hw
  kernel _ hg := Function.update_of_ne hg _ _
  oneWay _ := by
    show (Function.update b.epoll.fd (b.clientsPtr i).fd KernelFd.closed
      (b.clientsPtr i).fd).events.OneWay
    rw [Function.update_self]
    exact oneWay_none

/-- A slot that has not begun to write and is not watched for reading does not wait. -/
theorem waits_of_idle (hin : (b.watched i).epollin = false)
    (hsended : (b.clientsPtr i).sendedLen = 0) : b.Waits i := by
  rintro - - (hwait | hwait)
  · exact absurd (hin.symm.trans hwait) Bool.false_ne_true
  · exact absurd hsended hwait

/-- **A descriptor that was closed is put into a slot** that is empty. -/
theorem Booked.taken (h : Booked n b) {g : ℕ}
    (hempty : (b.clientsPtr (b.slotIndex g)).fd = fdarrayIndexInit) :
    Booked n (b.taken (b.slotIndex g) g) := by
  set j := b.slotIndex g with hj
  have hself : ((b.taken j g).clientsPtr j).fd = g := taken_fd
  have hothers : ∀ k ≠ j, (b.taken j g).clientsPtr k = b.clientsPtr k := fun k hk =>
    setClient_of_ne hk
  have hkernel : (b.taken j g).epoll.fd = Function.update b.epoll.fd g .opened := rfl
  -- no other slot has this descriptor
  have hother : ∀ k ≠ j, (b.clientsPtr k).fd ≠ fdarrayIndexInit → (b.clientsPtr k).fd ≠ g := by
    intro k hk hfd heq
    exact hk ((h.books.index k hfd).symm.trans (heq ▸ hj.symm))
  refine ⟨⟨h.books.need, h.books.clock, ⟨h.books.within.overrun, h.books.within.done_le⟩,
    h.books.stopped, h.books.answered, fun k hk => ?_, fun k hk => ?_, fun f hf => ?_,
    fun k => ?_, fun f => ?_⟩,
    fun k => ?_⟩
  · by_cases hkj : k = j
    · rw [hkj, hself]
      exact Int.natCast_nonneg g
    · rw [hothers k hkj] at hk ⊢
      exact h.books.nonneg k hk
  · by_cases hkj : k = j
    · rw [hkj, hself]
      exact hj.symm
    · rw [hothers k hkj] at hk ⊢
      exact h.books.index k hk
  · rw [hkernel] at hf
    have hfg : f ≠ g := by
      rintro rfl
      rw [Function.update_self] at hf
      exact absurd hf (by decide)
    rw [Function.update_of_ne hfg] at hf
    obtain ⟨hpos, hclient⟩ := h.books.found f hf
    have hne : b.slotIndex f ≠ j := by
      intro heq
      rw [heq, hempty] at hclient
      exact absurd (hclient ▸ hpos) (by decide)
    exact ⟨hpos, (congrArg ClientFD.fd (hothers _ hne)).trans hclient⟩
  · by_cases hkj : k = j
    · rw [hkj, show (b.taken j g).clientsPtr j = _ from setClient_self]
      exact h.books.wired j
    · rw [hothers k hkj]
      exact h.books.wired k
  · rw [hkernel]
    by_cases hfg : f = g
    · rw [hfg, Function.update_self]
      exact oneWay_none
    · rw [Function.update_of_ne hfg]
      exact h.books.oneWay f
  · by_cases hkj : k = j
    · rw [hkj]
      refine waits_of_idle ?_ (congrArg ClientFD.sendedLen setClient_self)
      unfold watched
      rw [hself, hkernel, Function.update_self]
      rfl
    · intro hdone hfd hwait
      unfold watched at hwait
      rw [hothers k hkj] at hfd hwait
      rw [hkernel, Function.update_of_ne (hother k hkj hfd)] at hwait
      unfold Pending
      rw [hothers k hkj]
      exact h.waits k hdone hfd hwait

/-- **`ReactorClientInit`** puts a client into a slot that does not wait. -/
theorem Booked.clientInit (h : Booked n b) : Booked n (reactorClientInit b a).2 := by
  obtain ⟨c, heq⟩ | ⟨g, b', -, hempty, hadd, hcases⟩ := reactorClientInit_states b a
  · rw [heq]
    exact h.same ⟨rfl, rfl, rfl, rfl, rfl, rfl, rfl, rfl, rfl⟩
  have h₀ := h.taken hempty
  set j := b.slotIndex g
  set b₀ := b.taken j g
  have hfd₀ : (b₀.clientsPtr j).fd = g := taken_fd
  have htaken : (b₀.clientsPtr j).fd ≠ fdarrayIndexInit := by
    rw [hfd₀]
    unfold fdarrayIndexInit
    omega
  have hmask : (b₀.clientsPtr j).mask = enone := congrArg ClientFD.mask setClient_self
  have hlocal : Local j b₀ b' := by
    rw [hadd]
    exact local_addEvent (Or.inr ⟨rfl, rfl⟩) (hmask ▸ fun hin => absurd hin (by decide))
  have hrewires := reactorAddEvent_rewires b₀ j writeable .sendToServerCallback
  rw [← hadd] at hrewires
  have hsended : (b'.clientsPtr j).sendedLen = 0 := by
    obtain ⟨mask, rFuncProc, wFuncProc, hclient⟩ := hrewires.client
    rw [hclient]
    exact congrArg ClientFD.sendedLen setClient_self
  have hin : (b'.watched j).epollin = false := by
    rw [hadd]
    refine events_reactorAddEvent (P := fun events => events.epollin = false)
      .sendToServerCallback rfl ?_ (hmask ▸ rfl)
    unfold watched
    rw [hfd₀]
    show (Function.update b.epoll.fd (g : ℤ) KernelFd.opened g).events.epollin = false
    rw [Function.update_self]
    rfl
  have hbooks' := h₀.books.local hlocal htaken
  have h' : Booked n b' := ⟨hbooks', fun k => by
    by_cases hkj : k = j
    · exact hkj ▸ waits_of_idle hin hsended
    · exact (h₀.waits k).local h₀.books hlocal hkj⟩
  obtain heq | heq := hcases
  · -- it is closed again, and keeps the slot
    have hfd' : (b'.clientsPtr j).fd = g := hlocal.fd.trans hfd₀
    have hclose : Local j b' (b'.close g) := hfd' ▸ local_close
    rw [heq]
    refine ⟨hbooks'.local hclose (hlocal.fd ▸ htaken), fun k => ?_⟩
    by_cases hkj : k = j
    · rw [hkj]
      refine waits_of_idle ?_ hsended
      show (Function.update b'.epoll.fd (g : ℤ) KernelFd.closed (b'.clientsPtr j).fd).events.epollin
        = false
      rw [hfd', Function.update_self]
      rfl
    · exact (h'.waits k).local hbooks' hclose hkj
  · rw [heq]
    exact h'.same ⟨rfl, rfl, rfl, rfl, rfl, rfl, rfl, rfl, rfl⟩

/-- It takes a descriptor that was closed. -/
theorem spares_clientInit (fd : ℤ) : b.Spares fd (reactorClientInit b a).2 := by
  obtain ⟨c, heq⟩ | ⟨g, b', hclosed, -, hadd, hcases⟩ := reactorClientInit_states b a
  · rw [heq]
    exact ⟨fun _ _ _ => rfl, Or.inl rfl⟩
  set j := b.slotIndex g
  have hmask : ((b.taken j g).clientsPtr j).mask = enone := congrArg ClientFD.mask setClient_self
  have hlocal : Local j (b.taken j g) b' := by
    rw [hadd]
    exact local_addEvent (Or.inr ⟨rfl, rfl⟩) (hmask ▸ fun hin => absurd hin (by decide))
  have hkernel : ∀ f, b.epoll.fd f ≠ .closed → f ≠ g ∧ b'.epoll.fd f = b.epoll.fd f := by
    intro f hopen
    have hfg : f ≠ g := fun hfg => hopen (hfg ▸ hclosed)
    refine ⟨hfg, (hlocal.kernel f ?_).trans (Function.update_of_ne hfg _ _)⟩
    rwa [taken_fd]
  have hphase : b'.phase = b.phase := hlocal.phase
  obtain heq | heq := hcases
  · rw [heq]
    refine ⟨fun f _ hopen => ?_, Or.inl hphase⟩
    obtain ⟨hfg, hsame⟩ := hkernel f hopen
    exact (Function.update_of_ne hfg _ _).trans hsame
  · rw [heq]
    exact ⟨fun f _ hopen => (hkernel f hopen).2, Or.inl hphase⟩

/-! ## The times of a request -/

/-- **The request in the slot `i` is the one it was**, and has its times. -/
structure Kept (i : ℕ) (b b' : Benchmark) : Prop where
  usec : b'.usec = b.usec
  asked : b'.tally.asked i = b.tally.asked i
  startTime : (b'.clientsPtr i).startTime = (b.clientsPtr i).startTime
  latency : (b'.clientsPtr i).latency = (b.clientsPtr i).latency

theorem Kept.trans (h : Kept i b b') (h' : Kept i b' b'') : Kept i b b'' where
  usec := h'.usec.trans h.usec
  asked := h'.asked.trans h.asked
  startTime := h'.startTime.trans h.startTime
  latency := h'.latency.trans h.latency

theorem Times.kept {q : Asked} (h : Times q (b.clientsPtr i) b.usec) (hk : Kept i b b') :
    Times q (b'.clientsPtr i) b'.usec where
  startTime := hk.startTime.trans h.startTime
  began_le := hk.usec ▸ h.began_le
  latency := by
    rw [hk.latency, hk.usec]
    exact h.latency

theorem Pending.kept (h : b.Pending i) (hk : Kept i b b') : b'.Pending i := by
  obtain ⟨q, hasked, htimes⟩ := h
  exact ⟨q, hk.asked.trans hasked, htimes.kept hk⟩

theorem Heard.kept (h : b.Heard i) (hk : Kept i b b') : b'.Heard i := by
  obtain ⟨q, hasked, htimes, hheard⟩ := h
  exact ⟨q, hk.asked.trans hasked, htimes.kept hk, hheard⟩

theorem kept_setClient {pclient : ClientFD}
    (hstart : pclient.startTime = (b.clientsPtr i).startTime)
    (hlatency : pclient.latency = (b.clientsPtr i).latency) : Kept i b (b.setClient i pclient) where
  usec := rfl
  asked := rfl
  startTime := by rw [setClient_self, hstart]
  latency := by rw [setClient_self, hlatency]

theorem kept_of_rewires (h : Rewires i b b') (htally : b'.tally = b.tally) : Kept i b b' := by
  obtain ⟨mask, rFuncProc, wFuncProc, hclient⟩ := h.client
  exact ⟨h.usec, by rw [htally], by rw [hclient], by rw [hclient]⟩

theorem kept_reset : Kept i b (reactorResetClient b i) := by
  have hswap : Kept i b (reactorAddEvent (reactorDelEvent b i readable).2 i writeable
      .sendToServerCallback).2 := kept_of_rewires (swap_rewires b i writeable readable _) rfl
  unfold reactorResetClient
  extract_lets b₁ b₂ _ b₃ resetClientNum _ pclient b₄
  have h₃ : Kept i b b₃ := hswap.trans (kept_setClient rfl rfl)
  split
  · rw [if_neg (Nat.not_lt_zero _)]
    have h₄ : Kept i b₃ b₄ := kept_setClient rfl rfl
    exact (h₃.trans h₄).trans ⟨rfl, rfl, rfl, rfl⟩
  · exact h₃.trans ⟨rfl, rfl, rfl, rfl⟩

/-- **A reset of a client that waits** leaves it waiting for the request that is under way,
if it is not removed. -/
theorem Waits.reset (h : b.Waits i) : (reactorResetClient b i).Waits i := by
  have hresets := reactorResetClient_resets b i
  have hlocal := local_reset (b := b) (i := i)
  obtain ⟨hdel, hadd⟩ := mask_swap (b.clientsPtr i).mask (Or.inr ⟨rfl, rfl⟩)
  have hwatched : ((reactorResetClient b i).watched i).epollin = true →
      (b.watched i).epollin = true := by
    rw [watched_reset]
    refine events_reactorAddEvent
      (P := fun events => events.epollin = true → (b.watched i).epollin = true) _
      (fun h => absurd h Bool.false_ne_true) (events_reactorDelEvent
        (P := fun events => events.epollin = true → (b.watched i).epollin = true)
        (fun h => absurd h Bool.false_ne_true) id fun h => ?_) fun h => ?_
    · exact absurd ((epollin_of_mask hdel).symm.trans h) Bool.false_ne_true
    · rw [mask_reactorDelEvent] at h
      exact absurd ((epollin_of_mask hadd).symm.trans h) Bool.false_ne_true
  intro hdone hfd hwait
  rw [hlocal.done, hlocal.need] at hdone
  rw [hlocal.fd] at hfd
  refine (h hdone hfd (Or.inl (hwatched ?_))).kept kept_reset
  exact hwait.resolve_right (fun hsended => hsended hresets.sendedLen)

/-! ## Counting a response -/

/-- **A response that was heard is counted**, with its latency. -/
theorem Books.count (h : Books n b) (hheard : b.Heard i)
    (hlt : b.config.doneRequests < b.config.needRequestNum) :
    Books n (b.count i (b.clientsPtr i).latency) where
  need := h.need
  clock := h.clock
  within := by
    refine ⟨?_, hlt⟩
    show (b.tally.overrun || decide (b.config.needRequestNum ≤ b.config.doneRequests)) = false
    rw [h.within.overrun, Bool.false_or]
    exact decide_eq_false (not_le.mpr hlt)
  stopped hstop := absurd (h.stopped hstop) (not_le.mpr hlt)
  answered := by
    obtain ⟨q, hasked, htimes, hne⟩ := hheard
    obtain ⟨hnone, -⟩ | ⟨heard, hsome, hle, hnow, hlatency⟩ := htimes.latency
    · exact absurd hnone hne
    have hclock := h.clock
    have hkept : ((uint64 (b.clientsPtr i).latency : ℕ) : ℤ) = heard - q.began := by
      rw [hlatency]
      unfold uint64
      omega
    have hlast : (b.tally.asked i).bind
          (fun q => q.heard.map (fun heard : ℕ => (heard : ℤ) - q.began))
        = some ((uint64 (b.clientsPtr i).latency : ℕ) : ℤ) := by
      rw [hasked, Option.bind_some, hsome, Option.map_some, hkept]
    show b.tally.answered ++ [_] = (List.range (b.config.doneRequests + 1)).map (fun k =>
      some ((Function.update b.latency b.config.doneRequests
        (uint64 (b.clientsPtr i).latency) k : ℕ) : ℤ))
    rw [hlast, h.answered, List.range_succ, List.map_append, List.map_singleton,
      Function.update_self]
    congr 1
    refine List.map_congr_left (fun k hk => ?_)
    rw [Function.update_of_ne (List.mem_range.mp hk).ne]
  nonneg := h.nonneg
  index := h.index
  found := h.found
  wired := h.wired
  oneWay := h.oneWay

end Benchmark
