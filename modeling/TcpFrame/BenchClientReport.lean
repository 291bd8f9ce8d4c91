import TcpFrame.BenchClientBooks

/-!
# The report

What `ShowReport` divides by, and sums up. The loop ends with the event that finds as
many responses counted as are needed, and what is left of its batch is handled all the
same, but nothing more is counted.

None is counted where none is needed. The loop ends with the first response all the
same, and the report divides by zero (`benchmark_accounts_iff`).
-/

namespace Benchmark

variable {b b' b'' : Benchmark} {a : ClientAttempt} {n i : ℕ} {fd : ℤ}

/-! ## The responses accounted for -/

/-- **The responses are accounted for**: there are as many as are needed, the array has
the latency of each of them once, in their order, and there is a report. -/
structure Accounted (b : Benchmark) : Prop where
  complete : b.config.doneRequests = b.config.needRequestNum
  answered : b.tally.answered
    = (List.range b.config.doneRequests).map (fun k => some (b.latency k : ℤ))
  report : (showReport b).isSome = true

/-- **There is a report** unless nothing was counted. -/
theorem showReport_isSome : (showReport b).isSome = true ↔ b.config.doneRequests ≠ 0 := by
  unfold showReport
  split
  · next hzero => simp [hzero]
  · next hzero => simp [hzero]

/-! ## The callbacks -/

/-- **What has been done for the client in the slot `i`** since the state `b`, in the state
`b'` where the client is still there. All that is not said is whether it waits. -/
structure Serving (n i : ℕ) (fd : ℤ) (b b' : Benchmark) : Prop where
  nonneg : 0 ≤ fd
  client : (b'.clientsPtr i).fd = fd
  books : Books n b'
  others : ∀ j ≠ i, b'.Waits j
  spares : b.Spares fd b'

/-- **What has been done for the descriptor `fd`** since the state `b`, in the state
`b'`. -/
structure Served (n : ℕ) (fd : ℤ) (b b' : Benchmark) : Prop where
  booked : Booked n b'
  spares : b.Spares fd b'

theorem Serving.taken (h : Serving n i fd b b') : (b'.clientsPtr i).fd ≠ fdarrayIndexInit := by
  have hnonneg := h.nonneg
  rw [h.client]
  unfold fdarrayIndexInit
  omega

theorem Serving.local (h : Serving n i fd b b') (hl : Local i b' b'') : Serving n i fd b b'' where
  nonneg := h.nonneg
  client := hl.fd.trans h.client
  books := h.books.local hl h.taken
  others j hj := (h.others j hj).local h.books hl hj
  spares := h.spares.trans (h.client ▸ hl.spares)

theorem Serving.served (h : Serving n i fd b b') (hw : b'.Waits i) : Served n fd b b' where
  booked := ⟨h.books, fun j => by
    by_cases hj : j = i
    · exact hj ▸ hw
    · exact h.others j hj⟩
  spares := h.spares

/-- The process ends. -/
theorem Served.over (h : Served n fd b b') {p : BenchPhase} (hp : p = .exited ∨ p = .undefined) :
    Served n fd b { b' with phase := p } where
  booked := h.booked.same same_phase
  spares := h.spares.trans ⟨fun _ _ _ => rfl, Or.inr hp⟩

/-- **The client is given up, and another one is opened.** -/
theorem Serving.reconnect (h : Serving n i fd b b') : Served n fd b (reconnect b' i a) where
  booked := (h.books.closeConnection h.others).clientInit
  spares := h.spares.trans ((h.client ▸ spares_closeConnection).trans (spares_clientInit fd))

/-- **The client begins anew**, and is not read from before it has. -/
theorem Serving.reset (h : Serving n i fd b b')
    (hreg : (b'.epoll.fd (b'.clientsPtr i).fd).isRegistered = true)
    (hanswer : b'.epoll.answer b'.epoll.calls ≠ .refused) :
    Served n fd b (reactorResetClient b' i) :=
  (h.local local_reset).served
    (waits_of_idle (epollin_reset hreg hanswer) (reactorResetClient_resets b' i).sendedLen)

/-- **The loop is to end**, as no more responses are needed. -/
theorem Serving.stop (h : Serving n i fd b b')
    (hdone : b'.config.needRequestNum ≤ b'.config.doneRequests) :
    Served n fd b { b' with stop := 0 } where
  booked := ⟨⟨h.books.need, h.books.clock, ⟨h.books.within.overrun, h.books.within.done_le⟩,
    fun _ => hdone, h.books.answered, h.books.nonneg, h.books.index, h.books.found, h.books.wired,
    h.books.oneWay⟩,
    fun _ hlt => absurd hlt (not_lt.mpr hdone)⟩
  spares := h.spares.trans ⟨fun _ _ _ => rfl, Or.inl rfl⟩

/-- **A response is counted.** -/
theorem Serving.count (h : Serving n i fd b b') (hheard : b'.Heard i)
    (hlt : b'.config.doneRequests < b'.config.needRequestNum) :
    Serving n i fd b (b'.count i (b'.clientsPtr i).latency) where
  nonneg := h.nonneg
  client := h.client
  books := h.books.count hheard hlt
  others j hj hdone hfd hwait := by
    obtain ⟨q, hasked, htimes⟩ := h.others j hj hlt hfd hwait
    exact ⟨q, (Function.update_of_ne hj _ _).trans hasked, htimes⟩
  spares := h.spares.trans ⟨fun _ _ _ => rfl, Or.inl rfl⟩

/-- **`ReactorCloseConnectionNormal`**, where the removal of the client is not refused. -/
theorem Serving.closeNormal (h : Serving n i fd b b') (hreg : (b'.epoll.fd fd).isRegistered = true)
    (hanswer : b'.epoll.answer b'.epoll.calls ≠ .refused) :
    Served n fd b (reactorCloseConnectionNormal b' i a) := by
  unfold reactorCloseConnectionNormal
  split
  · next hdone => exact h.stop hdone
  split
  · exact h.reset (h.client ▸ hreg) hanswer
  · exact h.reconnect

/-- **The latency** is the time from the beginning of the request to the first read. -/
theorem Times.hear {q : Asked} {pclient : ClientFD} {usec : ℕ} (h : Times q pclient usec)
    (hclock : usec < 2 ^ 63) :
    Times { q with heard := some (q.heard.getD usec) }
      (if pclient.latency < 0 then
        { pclient with latency := Int.bmod (usec - pclient.startTime) (2 ^ 64) }
      else pclient) usec := by
  have hbegan := h.began_le
  obtain ⟨hnone, hlatency⟩ | ⟨heard, hsome, hle, hnow, hlatency⟩ := h.latency
  · rw [if_pos (by omega)]
    refine ⟨h.startTime, hbegan, Or.inr ⟨usec, ?_, hbegan, le_rfl, ?_⟩⟩
    · rw [hnone, Option.getD_none]
    · show Int.bmod (usec - pclient.startTime) (2 ^ 64) = usec - q.began
      rw [h.startTime]
      exact Int.bmod_eq_of_le (by omega) (by omega)
  · rw [if_neg (by omega)]
    refine ⟨h.startTime, hbegan, Or.inr ⟨heard, ?_, hle, hnow, hlatency⟩⟩
    rw [hsome, Option.getD_some]

/-- **A request that is read from is heard**, where `pclient` is what the callback makes of the
client. -/
theorem Pending.hear (h : b.Pending i) (hclock : b.usec < 2 ^ 63) (touched : ClientFD)
    (hstart : touched.startTime = (b.clientsPtr i).startTime)
    (hlatency : touched.latency = (b.clientsPtr i).latency) {pclient : ClientFD}
    (hclient : pclient = if touched.latency < 0 then
        { touched with latency := Int.bmod (b.usec - touched.startTime) (2 ^ 64) }
      else touched) : (((b.hear i).setClient i pclient).serve i).Heard i := by
  obtain ⟨q, hasked, htimes⟩ := h
  have htouched : Times q touched b.usec :=
    ⟨hstart.trans htimes.startTime, htimes.began_le, hlatency ▸ htimes.latency⟩
  have hself : (((b.hear i).setClient i pclient).serve i).clientsPtr i = pclient := setClient_self
  refine ⟨{ q with heard := some (q.heard.getD b.usec) }, ?_, ?_, Option.some_ne_none _⟩
  · show Function.update b.tally.asked i _ i = _
    rw [Function.update_self, hasked, Option.map_some]
  · rw [hself, hclient]
    exact htouched.hear hclock

/-- **A request is under way** when it is written, as it begins or goes on. -/
theorem pending_ask (h : (b.clientsPtr i).sendedLen ≠ 0 → b.Pending i) (timed : ClientFD)
    {touched : ClientFD}
    (hclient : timed = if (b.clientsPtr i).sendedLen = 0 then
        { b.clientsPtr i with startTime := b.usec, latency := -1 }
      else b.clientsPtr i)
    (hstart : touched.startTime = timed.startTime) (hlatency : touched.latency = timed.latency) :
    (((b.ask i).setClient i touched).serve i).Pending i := by
  have hself : (((b.ask i).setClient i touched).serve i).clientsPtr i = touched := setClient_self
  have hasked : (((b.ask i).setClient i touched).serve i).tally.asked
      = if (b.clientsPtr i).sendedLen = 0 then
          Function.update b.tally.asked i (some ⟨b.usec, none⟩)
        else b.tally.asked := rfl
  unfold Pending
  rw [hself, hasked]
  by_cases hsended : (b.clientsPtr i).sendedLen = 0
  · -- it begins
    rw [if_pos hsended] at hclient ⊢
    subst hclient
    exact ⟨_, Function.update_self .., hstart, le_rfl, Or.inl ⟨rfl, hlatency⟩⟩
  · rw [if_neg hsended] at hclient ⊢
    subst hclient
    obtain ⟨q, hq, htimes⟩ := h hsended
    exact ⟨q, hq, hstart.trans htimes.startTime, htimes.began_le, hlatency ▸ htimes.latency⟩

/-- **`RecvFromServerCallback`**, for a client that is watched for reading. -/
theorem Serving.recvFromServer (h : Serving n i fd b b') (hw : b'.Waits i)
    (hin : (b'.watched i).epollin = true) (hreg : (b'.epoll.fd fd).isRegistered = true)
    (hanswer : b'.epoll.answer b'.epoll.calls ≠ .refused) {reads : List ReadOutcome} :
    Served n fd b (recvFromServerCallback b' i reads a) := by
  have hpending : b'.config.doneRequests < b'.config.needRequestNum → b'.Pending i :=
    fun hlt => hw hlt h.taken (Or.inl hin)
  unfold recvFromServerCallback
  extract_lets hearing pclient touched timed b₁
  have hfd : timed.fd = touched.fd := (apply_ite ClientFD.fd ..).trans (ite_self _)
  have hclient₁ : b₁.clientsPtr i = timed := setClient_self
  have hwired : Wired (hearing.clientsPtr i) → Wired timed := by
    intro hw
    unfold timed
    split
    · exact hw
    · exact hw
  have hhearing : Serving n i fd b hearing :=
    h.local (local_remember fun _ hj => Function.update_of_ne hj _ _)
  have h₁ : Serving n i fd b b₁ :=
    (hhearing.local (local_setClient hfd hwired)).local (local_remember fun _ _ => rfl)
  have hheard₁ : b₁.config.doneRequests < b₁.config.needRequestNum → b₁.Heard i :=
    fun hlt => (hpending hlt).hear h.books.clock touched rfl rfl rfl
  split
  · exact h₁.served (fun hlt _ _ => (hheard₁ hlt).pending)
  · exact h₁.reconnect
  next k hbytes =>
  extract_lets received b₂ b₃
  have hclient₂ : b₂.clientsPtr i = received := setClient_self
  have h₂ : Serving n i fd b b₂ := h₁.local (local_setClient (by rw [hclient₁]) (hclient₁ ▸ id))
  have hkept : Kept i b₁ b₂ := kept_setClient (by rw [hclient₁]) (by rw [hclient₁])
  split
  · exact (h₂.served (fun hlt _ _ => ((hheard₁ hlt).kept hkept).pending)).over (Or.inl rfl)
  -- the response is never refused, and always complete
  rw [if_neg (by decide), if_neg (by decide)]
  have h₃ : Serving n i fd b b₃ ∧ b₃.epoll = b'.epoll := by
    unfold b₃
    split
    · next hlt => exact ⟨hclient₂ ▸ h₂.count ((hheard₁ hlt).kept hkept) hlt, rfl⟩
    · exact ⟨h₂, rfl⟩
  obtain ⟨h₃, hepoll⟩ := h₃
  exact h₃.closeNormal (hepoll ▸ hreg) (hepoll ▸ hanswer)

/-- **`SendToServerCallback`** begins a request, or goes on with the one that is under
way. -/
theorem Serving.sendToServer (h : Serving n i fd b b') (hw : b'.Waits i)
    {writes : List WriteOutcome} : Served n fd b (sendToServerCallback b' i writes a) := by
  have hpending : b'.config.doneRequests < b'.config.needRequestNum →
      (b'.clientsPtr i).sendedLen ≠ 0 → b'.Pending i :=
    fun hlt hsended => hw hlt h.taken (Or.inr hsended)
  unfold sendToServerCallback
  extract_lets asking pclient timed touched b₁ _ b₂
  have hfd : touched.fd = pclient.fd := (apply_ite ClientFD.fd ..).trans (ite_self _)
  have hclient₁ : b₁.clientsPtr i = touched := setClient_self
  have hwired : Wired (asking.clientsPtr i) → Wired touched := by
    intro hw
    show Wired timed
    unfold timed
    split
    · exact hw
    · exact hw
  have hasking : Serving n i fd b asking := by
    refine h.local (local_remember fun j hj => ?_)
    split
    · exact Function.update_of_ne hj _ _
    · rfl
  have h₁ : Serving n i fd b b₁ :=
    (hasking.local (local_setClient hfd hwired)).local (local_remember fun _ _ => rfl)
  have hpending₁ : b₁.config.doneRequests < b₁.config.needRequestNum → b₁.Pending i :=
    fun hlt => pending_ask (hpending hlt) timed rfl rfl rfl
  split
  · exact h₁.served (fun hlt _ _ => hpending₁ hlt)
  · exact h₁.reconnect
  next k hbytes =>
  extract_lets b₃ sent b₄
  have h₂ : Serving n i fd b b₂ := h₁.local (local_config rfl rfl rfl)
  have h₃ : Serving n i fd b b₃ := h₂.local (local_remember fun _ _ => rfl)
  have hclient₃ : b₃.clientsPtr i = touched := hclient₁
  have h₄ : Serving n i fd b b₄ := h₃.local (local_setClient (by rw [hclient₃]) (hclient₃ ▸ id))
  have hkept₃ : Kept i b₁ b₃ := ⟨rfl, rfl, rfl, rfl⟩
  have hkept : Kept i b₁ b₄ :=
    hkept₃.trans (kept_setClient (by rw [hclient₃]) (by rw [hclient₃]))
  split
  · -- from now on it waits for the response
    have hswap := swap_rewires b₄ i readable writeable .recvFromServerCallback
    have hlocal : Local i b₄ _ := local_swap (Or.inl ⟨rfl, rfl⟩) (Or.inl ⟨rfl, rfl⟩)
    refine (h₄.local hlocal).served (fun hlt _ _ => ?_)
    rw [hlocal.done, hlocal.need] at hlt
    exact (hpending₁ hlt).kept (hkept.trans (kept_of_rewires hswap rfl))
  · exact h₄.served (fun hlt _ _ => (hpending₁ hlt).kept hkept)

/-! ## The batch -/

/-- The function for reading is `RecvFromServerCallback`, if there is one. -/
theorem Serving.callRead (h : Serving n i fd b b') (hw : b'.Waits i)
    (hin : (b'.watched i).epollin = true) (hreg : (b'.epoll.fd fd).isRegistered = true)
    (hanswer : b'.epoll.answer b'.epoll.calls ≠ .refused) {reads : List ReadOutcome}
    {writes : List WriteOutcome} :
    Served n fd b (b'.call i (b'.clientsPtr i).rFuncProc reads writes a) := by
  unfold Benchmark.call
  split
  · exact (h.served hw).over (Or.inr rfl)
  · next hfunc => exact absurd hfunc (h.books.wired i).1
  · exact h.recvFromServer hw hin hreg hanswer

/-- The one for writing is `SendToServerCallback`. -/
theorem Serving.callWrite (h : Serving n i fd b b') (hw : b'.Waits i) {reads : List ReadOutcome}
    {writes : List WriteOutcome} :
    Served n fd b (b'.call i (b'.clientsPtr i).wFuncProc reads writes a) := by
  unfold Benchmark.call
  split
  · exact (h.served hw).over (Or.inr rfl)
  · exact h.sendToServer hw
  · next hfunc => exact absurd hfunc (h.books.wired i).2

/-- A client that is there can be served. -/
theorem Booked.serving (h : Booked n b) (hfd : 0 ≤ (b.clientsPtr i).fd) :
    Serving n i (b.clientsPtr i).fd b b where
  nonneg := hfd
  client := rfl
  books := h.books
  others j _ := h.waits j
  spares := Spares.refl

/-- **A round of the batch loop** serves the client of its event. -/
theorem Booked.handle (h : Booked n b) {e : EpollEvent} (rest : List EpollEvent) (io : ClientIO)
    (he : b.epoll.Reports e)
    (hanswer : e.epollin = true → b.epoll.answer b.epoll.calls ≠ .refused) :
    Served n e.fd { b with phase := .handling rest } (handleEvent b e rest io) := by
  obtain ⟨hnonneg, hclient⟩ := h.books.found e.fd he.1
  unfold handleEvent
  extract_lets b₁ i b₂ b₃
  have hbooked : Booked n b₁ := h.same same_phase
  have hfd : (b₁.clientsPtr i).fd = e.fd := hclient
  have hwatched : b₁.watched i = (b.epoll.fd e.fd).events :=
    congrArg (fun fd => (b.epoll.fd fd).events) hfd
  have h₁ : Serving n i e.fd b₁ b₁ := hfd ▸ hbooked.serving (hfd.symm ▸ hnonneg)
  have hw : b₁.Waits i := hbooked.waits i
  split
  · have hsame : Same b₁ b₂ := same_phase
    have h₂ : Serving n i e.fd b₁ b₂ :=
      ⟨hnonneg, hfd, h₁.books.same hsame, fun j hj => (h₁.others j hj).same hsame,
        fun _ _ _ => rfl, Or.inl rfl⟩
    split
    · exact (h₂.served (hw.same hsame)).over (Or.inl rfl)
    · exact h₂.reconnect
  · by_cases hin : e.epollin = true
    · have hread : (b₁.watched i).epollin = true := hwatched ▸ he.2.1 hin
      have hcall : Served n e.fd b₁ b₃ := by
        unfold b₃
        rw [if_pos hin]
        exact h₁.callRead hw hread he.1 (hanswer hin)
      -- it is not reported for writing, too
      have hout : e.epollout = false := by
        rw [Bool.eq_false_iff]
        intro hout
        have hone := h.books.oneWay e.fd (he.2.1 hin)
        exact absurd (hone.symm.trans (he.2.2 hout)) Bool.false_ne_true
      split
      · exact hcall
      · rw [hout]
        exact hcall
    · have hsame : b₃ = b₁ := if_neg hin
      have h₃ : Serving n i e.fd b₁ b₃ := hsame.symm ▸ h₁
      have hw₃ : b₃.Waits i := hsame.symm ▸ hw
      split
      · exact h₃.served hw₃
      split
      · exact h₃.callWrite hw₃
      · exact h₃.served hw₃

/-! ## Steps -/

/-- **The invariant, and where the process is**: the rest of a batch is as `epoll_wait`
could report it now, and the loop has ended because it was to end. -/
structure Accounts (n : ℕ) (b : Benchmark) : Prop where
  booked : Booked n b
  batch : ∀ events, b.phase = .handling events → b.epoll.Batch events
  ended : b.phase = .finished → b.stop = 0

theorem Booked.accounts (h : Booked n b) (hphase : ∀ events, b.phase ≠ .handling events)
    (hended : b.phase = .finished → b.stop = 0) : Accounts n b where
  booked := h
  batch events hevents := absurd hevents (hphase events)
  ended := hended

theorem Booked.loop (h : Booked n b) : Accounts n b.loop := by
  unfold Benchmark.loop
  split
  · exact Booked.accounts (h.same same_phase)
      (fun _ => BenchPhase.noConfusion) BenchPhase.noConfusion
  · next hstop =>
    exact Booked.accounts (h.same same_phase)
      (fun _ => BenchPhase.noConfusion) (fun _ => not_not.mp hstop)

theorem Booked.exit (h : Booked n b) : Accounts n b.exit :=
  Booked.accounts (h.same same_phase)
    (fun _ => BenchPhase.noConfusion) BenchPhase.noConfusion

theorem Booked.create (h : Booked n b) : Accounts n b.create := by
  unfold Benchmark.create
  split
  · exact Booked.accounts (h.same same_phase)
      (fun _ => BenchPhase.noConfusion) BenchPhase.noConfusion
  · exact Booked.loop (h.same same_phase)

theorem Booked.refill (h : Booked n b) : Accounts n b.refill := by
  unfold Benchmark.refill
  split
  · exact Booked.accounts (h.same same_phase)
      (fun _ => BenchPhase.noConfusion) BenchPhase.noConfusion
  · exact Booked.loop (h.same same_phase)

/-- **The check for timeouts** resets clients, whether they can be removed or not. -/
theorem Booked.clearTimeout (h : Booked n b) {curTime : ℕ} :
    Booked n (clearTimeoutConnection b curTime) := by
  unfold clearTimeoutConnection
  refine List.foldlRecOn (motive := Booked n) _ _ h (fun b' hb' i _ => ?_)
  unfold clearTimeoutClient
  extract_lets pclient
  split
  · next htimeout =>
    have hcounted : Booked n { b' with config := { b'.config with
        timeoutClientNum := uint32 (b'.config.timeoutClientNum + 1) } } :=
      hb'.same ⟨rfl, rfl, rfl, rfl, rfl, rfl, rfl, rfl, rfl⟩
    have hserving := (hcounted.serving (i := i) (le_of_lt htimeout.1)).local local_reset
    exact (hserving.served (hcounted.waits i).reset).booked
  · exact hb'

theorem Booked.check (h : Booked n b) : Accounts n b.check := by
  unfold Benchmark.check
  split
  · exact h.clearTimeout.refill
  · exact h.loop

/-- **The clock** does not go back, and shows microseconds that fit into an `int64_t`. -/
def Ticks (b : Benchmark) : BenchInput → Prop
  | .wait usec _ => b.usec ≤ usec ∧ usec < 2 ^ 63
  | _ => True

instance (b : Benchmark) : DecidablePred b.Ticks
  | .wait _ _ => inferInstanceAs (Decidable (_ ∧ _))
  | .client _ => inferInstanceAs (Decidable True)
  | .event _ => inferInstanceAs (Decidable True)
  | .check => inferInstanceAs (Decidable True)

/-- The event that is handled next. -/
def nextEvent (b : Benchmark) : Option EpollEvent :=
  match b.phase with
  | .handling (e :: _) => some e
  | _ => none

/-- **The kernel removes a descriptor that is registered**: after an event for reading, it
does not refuse the first call of `epoll_ctl`. -/
def Removes (b : Benchmark) : BenchInput → Prop
  | .event _ => ∀ e ∈ b.nextEvent, e.epollin = true → b.epoll.answer b.epoll.calls ≠ .refused
  | _ => True

instance (b : Benchmark) : DecidablePred b.Removes
  | .event _ => inferInstanceAs (Decidable (∀ e ∈ b.nextEvent, _))
  | .client _ => inferInstanceAs (Decidable True)
  | .wait _ _ => inferInstanceAs (Decidable True)
  | .check => inferInstanceAs (Decidable True)

/-- A request stays under way as time passes. -/
theorem Times.later {q : Asked} {pclient : ClientFD} {usec usec' : ℕ} (h : Times q pclient usec)
    (hle : usec ≤ usec') : Times q pclient usec' where
  startTime := h.startTime
  began_le := h.began_le.trans hle
  latency := by
    obtain hnone | ⟨heard, hsome, hbegan, hnow, hlatency⟩ := h.latency
    · exact Or.inl hnone
    · exact Or.inr ⟨heard, hsome, hbegan, hnow.trans hle, hlatency⟩

/-- **`epoll_wait` returns.** -/
theorem Booked.wait (h : Booked n b) {usec : ℕ} (hle : b.usec ≤ usec) (hclock : usec < 2 ^ 63)
    {p : BenchPhase} : Booked n { b with usec := usec, phase := p } where
  books := ⟨h.books.need, hclock, ⟨h.books.within.overrun, h.books.within.done_le⟩,
    h.books.stopped, h.books.answered, h.books.nonneg, h.books.index, h.books.found,
    h.books.wired, h.books.oneWay⟩
  waits j hdone hfd hwait := by
    obtain ⟨q, hasked, htimes⟩ := h.waits j hdone hfd hwait
    exact ⟨q, hasked, htimes.later hle⟩

/-- **Handling an event** leaves the rest of the batch to be handled, or ends the process. -/
theorem Accounts.event (h : Accounts n b) {e : EpollEvent} {rest : List EpollEvent}
    (hphase : b.phase = .handling (e :: rest)) {io : ClientIO} (hremoves : b.Removes (.event io)) :
    Accounts n (handleEvent b e rest io) := by
  have hbatch := h.batch (e :: rest) hphase
  have hnext : b.nextEvent = some e := by
    unfold nextEvent
    rw [hphase]
  have hserved := h.booked.handle rest io (hbatch.2 e (List.mem_cons_self ..)) (hremoves e hnext)
  refine ⟨hserved.booked, fun events' hevents => ?_, fun hend => ?_⟩
  · rcases hserved.spares.phase with hsame | hover | hover
    · obtain rfl := BenchPhase.handling.inj (hsame.symm.trans hevents)
      exact hserved.spares.batch (b := { b with phase := .handling rest }) hbatch
    · exact BenchPhase.noConfusion (hover.symm.trans hevents)
    · exact BenchPhase.noConfusion (hover.symm.trans hevents)
  · rcases hserved.spares.phase with hsame | hover | hover
    · exact BenchPhase.noConfusion (hsame.symm.trans hend)
    · exact BenchPhase.noConfusion (hover.symm.trans hend)
    · exact BenchPhase.noConfusion (hover.symm.trans hend)

/-- **The step lemma.** -/
theorem Accounts.step (h : Accounts n b) {input : BenchInput} (hadmits : b.Admits input)
    (hticks : b.Ticks input) (hremoves : b.Removes input) (hstep : b.step input = some b') :
    Accounts n b' := by
  cases stepped hstep with
  | notCreated a => exact h.booked.clientInit.exit
  | created a => exact h.booked.clientInit.create
  | notRefilled a => exact h.booked.clientInit.exit
  | refilled a => exact h.booked.clientInit.refill
  | waited usec events =>
    refine ⟨h.booked.wait hticks.1 hticks.2, fun events' hevents => ?_, BenchPhase.noConfusion⟩
    exact BenchPhase.handling.inj hevents ▸ hadmits
  | handled e rest io hphase => exact h.event hphase hremoves
  | checked => exact h.booked.check

/-- **At the end** the responses are accounted for, unless none was needed. -/
theorem Accounts.accounted_iff (h : Accounts n b) (hend : b.phase = .finished) :
    b.Accounted ↔ n ≠ 0 := by
  have hbooks := h.booked.books
  have hneed := hbooks.need
  have hcomplete : b.config.doneRequests = b.config.needRequestNum :=
    le_antisymm hbooks.within.done_le (hbooks.stopped (h.ended hend))
  constructor
  · intro haccounted
    have hreport := showReport_isSome.mp haccounted.report
    rwa [hcomplete, hneed] at hreport
  · intro hn
    refine ⟨hcomplete, hbooks.answered, showReport_isSome.mpr ?_⟩
    rwa [hcomplete, hneed]

end Benchmark

/-! ## The result -/

section Result

variable {epoll : Epoll} {limit usec : ℕ} {malloc : Bool}

/-- The process starts without clients, and has counted nothing. -/
theorem initSingleReactor_accounts (needClientNum needRequestNum : ℕ) (keepalive randomFlag : ℤ)
    (protocol : Protocol) (limit : ℕ) (malloc : Bool)
    (hfresh : ∀ fd, (epoll.fd fd).isRegistered = false) (husec : usec < 2 ^ 63) :
    (initSingleReactor (initConfig needClientNum needRequestNum keepalive randomFlag protocol)
      epoll limit usec malloc).Accounts needRequestNum := by
  unfold initSingleReactor
  extract_lets b
  have hfd : ∀ j, (b.clientsPtr j).fd = fdarrayIndexInit := fun _ => rfl
  have hnone : ∀ g, (epoll.fd g).events = ⟨false, false⟩ := by
    intro g
    have hg := hfresh g
    cases hk : epoll.fd g with
    | registered events =>
      rw [hk] at hg
      exact Bool.noConfusion hg
    | _ => rfl
  have hbooks : b.Books needRequestNum := by
    refine ⟨rfl, husec, ⟨rfl, Nat.zero_le _⟩, fun hstop => ?_, rfl, fun j hj => absurd (hfd j) hj,
      fun j hj => absurd (hfd j) hj, fun g hg => ?_, fun j => ?_, fun g => ?_⟩
    · exact absurd hstop one_ne_zero
    · exact absurd ((hfresh g).symm.trans hg) Bool.false_ne_true
    · exact ⟨(Option.some_ne_none _).symm, (Option.some_ne_none _).symm⟩
    · show (epoll.fd g).events.OneWay
      rw [hnone g]
      exact oneWay_none
  have hbooked : b.Booked needRequestNum := ⟨hbooks, fun j _ hj => absurd (hfd j) hj⟩
  split
  · exact Benchmark.Booked.accounts
      (hbooked.same Benchmark.same_phase)
      (fun _ => BenchPhase.noConfusion) BenchPhase.noConfusion
  · exact hbooked.create

/-- **The responses are accounted for, exactly if** some are needed. The array of latencies is
not overrun in any run, and where the loop ends, as many responses were counted as are needed,
each of them once and with its latency, so that the report can be made unless none is needed.
The process starts with a new instance of `epoll`, `epoll_wait` reports what is registered,
and no descriptor twice, and what is registered can be removed. -/
theorem benchmark_accounts_iff {needClientNum needRequestNum : ℕ} {keepalive randomFlag : ℤ}
    {protocol : Protocol} {inputs : List BenchInput}
    (hfresh : ∀ fd, (epoll.fd fd).isRegistered = false) (husec : usec < 2 ^ 63)
    (hadmits : Run.Along Benchmark.step Benchmark.Admits
      (initSingleReactor (initConfig needClientNum needRequestNum keepalive randomFlag protocol)
        epoll limit usec malloc) inputs)
    (hticks : Run.Along Benchmark.step Benchmark.Ticks
      (initSingleReactor (initConfig needClientNum needRequestNum keepalive randomFlag protocol)
        epoll limit usec malloc) inputs)
    (hremoves : Run.Along Benchmark.step Benchmark.Removes
      (initSingleReactor (initConfig needClientNum needRequestNum keepalive randomFlag protocol)
        epoll limit usec malloc) inputs) :
    Run.Always Benchmark.step Benchmark.Within
        (initSingleReactor (initConfig needClientNum needRequestNum keepalive randomFlag protocol)
          epoll limit usec malloc) inputs
      ∧ ∀ b, Run.exec Benchmark.step
          (initSingleReactor (initConfig needClientNum needRequestNum keepalive randomFlag protocol)
            epoll limit usec malloc) inputs = some b →
        b.phase = .finished → (b.Accounted ↔ needRequestNum ≠ 0) := by
  have hstart := initSingleReactor_accounts needClientNum needRequestNum keepalive randomFlag
    protocol limit malloc hfresh husec
  have haccounts := Run.always_of_along
    (fun _ _ _ haccounts hkernel hstep =>
      haccounts.step hkernel.1 hkernel.2.1 hkernel.2.2 hstep)
    hstart (hadmits.and (hticks.and hremoves))
  exact ⟨haccounts.mono (fun _ h => h.booked.books.within),
    fun b hrun hend => (haccounts.exec hrun).accounted_iff hend⟩

end Result

/-! ### A run -/

/-- Two clients, whose requests are written. The response on `3` is not there when it is read
first, and both are there then, in one batch. -/
def reportRun : List BenchInput :=
  [.client (attempt true), .client (attempt true),
    .wait 2000 [⟨3, false, true, false, false⟩, ⟨4, false, true, false, false⟩],
    .event ⟨[], attempt true, [.data 1000], attempt true⟩,
    .event ⟨[], attempt true, [.data 1000], attempt true⟩,
    .check,
    .wait 5000 [⟨3, true, false, false, false⟩],
    .event ⟨[.eagain], attempt true, [], attempt true⟩,
    .check,
    .wait 7000 [⟨4, true, false, false, false⟩, ⟨3, true, false, false, false⟩],
    .event ⟨[.data 10], attempt true, [], attempt true⟩,
    .event ⟨[.data 10], attempt true, [], attempt true⟩,
    .check]

/-- Where two are needed, they took 5 and 3 milliseconds. -/
theorem benchmark_accounts_sample :
    (Run.exec Benchmark.step
        (initSingleReactor (initConfig 2 2 1 0 .tcp) benchEpoll 8 1000 true) reportRun).map
        (fun b => (b.phase, b.latency 0, b.latency 1)) = some (.finished, 5000, 3000)
    ∧ ∀ b, Run.exec Benchmark.step
        (initSingleReactor (initConfig 2 2 1 0 .tcp) benchEpoll 8 1000 true) reportRun = some b →
      b.phase = .finished → b.Accounted :=
  ⟨by decide +kernel, fun b hrun hend =>
    ((benchmark_accounts_iff benchEpoll_fresh.unregistered (by decide) (by decide +kernel)
      (by decide +kernel) (by decide +kernel)).2 b hrun hend).mpr (by decide)⟩

/-- **Where none is needed, there is no report.** The loop ends with the first batch that has a
response, nothing is counted, and `ShowReport` divides by zero. -/
theorem benchmark_not_accounts :
    ¬ ∀ (needClientNum needRequestNum : ℕ) (keepalive randomFlag : ℤ) (protocol : Protocol)
      (epoll : Epoll) (limit usec : ℕ) (malloc : Bool) (inputs : List BenchInput),
      1 ≤ needClientNum → (∀ fd, (epoll.fd fd).isRegistered = false) → usec < 2 ^ 63 →
      Run.Along Benchmark.step
        (fun b input => b.Admits input ∧ b.Ticks input ∧ b.Removes input)
        (initSingleReactor (initConfig needClientNum needRequestNum keepalive randomFlag protocol)
          epoll limit usec malloc) inputs →
      Run.Always Benchmark.step Benchmark.Within
          (initSingleReactor
            (initConfig needClientNum needRequestNum keepalive randomFlag protocol) epoll limit
            usec malloc) inputs
        ∧ ∀ b, Run.exec Benchmark.step
            (initSingleReactor
              (initConfig needClientNum needRequestNum keepalive randomFlag protocol) epoll limit
              usec malloc) inputs = some b →
          b.phase = .finished → b.Accounted := by
  intro h
  obtain ⟨-, hend⟩ := h 2 0 1 0 .tcp benchEpoll 8 1000 true reportRun (by decide)
    benchEpoll_fresh.unregistered (by decide) (by decide +kernel)
  have hstate : (Run.exec Benchmark.step
      (initSingleReactor (initConfig 2 0 1 0 .tcp) benchEpoll 8 1000 true) reportRun).map
      (fun b => (decide (b.phase = .finished), (showReport b).isSome)) = some (true, false) := by
    decide +kernel
  obtain ⟨b, hrun, hb⟩ := Option.map_eq_some_iff.mp hstate
  obtain ⟨hphase, hreport⟩ := Prod.mk.inj hb
  have haccounted := hend b hrun (of_decide_eq_true hphase)
  exact absurd (hreport.symm.trans haccounted.report) Bool.false_ne_true
