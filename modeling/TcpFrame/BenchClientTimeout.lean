import TcpFrame.BenchClientSend

/-!
# Idle clients

Whom `ClearTimeoutConnection` resets, in any run of the benchmark. It goes by the
`touchTime` of a slot, which the two callbacks set and `ReactorClientInit` does not,
and it takes no descriptor that is not positive for one. So a client that no callback
was called for yet is judged by the time of the one that had its slot before, or by
`0`, a client on descriptor `0` is never reset, and a slot that a creation that failed
has left taken may be reset without a client (`Benchmark.Misjudged`).

A client that a callback was called for is judged by the time of the last one, but
for the end of the range of the clock. That the slot has this time is kept by
everything the process does (`Benchmark.Timed`).
-/

/-! ## What the check is for -/

/-- `timeout` of `ClearTimeoutConnection`, in microseconds. -/
def timeoutUsec : ℕ := connectTimeout * 1000000

/-- The end of the time of a client, as `ClearTimeoutConnection` computes it. -/
def ClientFD.deadline (pclient : ClientFD) : ℕ := uint64 (pclient.touchTime + timeoutUsec)

theorem ClientFD.deadline_eq (pclient : ClientFD) :
    pclient.deadline = (pclient.touchTime + timeoutUsec) % 2 ^ 64 := by
  unfold ClientFD.deadline uint64
  omega

theorem ClientFD.timedOut_iff {pclient : ClientFD} {curTime : ℕ} :
    pclient.TimedOut curTime ↔ pclient.fd > 0 ∧ pclient.deadline ≤ curTime := Iff.rfl

namespace Benchmark

variable {b b' : Benchmark} {a : ClientAttempt} {i j curTime : ℕ}

/-- **The slot holds a connection that is idle**: it was opened, and a callback was last
called for it, so long ago. -/
def Overdue (b : Benchmark) (curTime i : ℕ) : Prop :=
  ∃ o ∈ b.held i, o.since + timeoutUsec ≤ curTime

instance : Decidable (b.Overdue curTime i) :=
  inferInstanceAs (Decidable (∃ o ∈ b.held i, _))

/-- A client is counted and reset. -/
def timeOut (b : Benchmark) (i : ℕ) : Benchmark :=
  reactorResetClient { b with config := { b.config with
    timeoutClientNum := uint32 (b.config.timeoutClientNum + 1) } } i

/-- The slots before `i` are checked. -/
def clearedUpTo (b : Benchmark) (curTime i : ℕ) : Benchmark :=
  (List.range i).foldl (clearTimeoutClient curTime) b

/-- **Only idle clients are timed out**, and all of them: every round of
`ClearTimeoutConnection` counts and resets its client if that is idle, and does
nothing otherwise. -/
def ClearsIdle (b : Benchmark) (curTime : ℕ) : Prop :=
  ∀ i < b.config.needClientNum, clearTimeoutClient curTime (b.clearedUpTo curTime i) i
    = if b.Overdue curTime i then (b.clearedUpTo curTime i).timeOut i
      else b.clearedUpTo curTime i

/-- A client that is timed out is counted. -/
theorem timeOut_ne : b.timeOut i ≠ b := by
  intro heq
  have hresets := reactorResetClient_resets { b with config := { b.config with
    timeoutClientNum := uint32 (b.config.timeoutClientNum + 1) } } i
  have hcount : uint32 (b.config.timeoutClientNum + 1) = b.config.timeoutClientNum :=
    hresets.counted.symm.trans (congrArg (fun b => b.config.timeoutClientNum) heq)
  unfold uint32 at hcount
  omega

/-- A round leaves the other slots alone. -/
theorem clearTimeoutClient_other (hij : j ≠ i) :
    (clearTimeoutClient curTime b i).clientsPtr j = b.clientsPtr j := by
  rw [clearTimeoutClient_eq]
  split
  · exact (reactorResetClient_resets _ i).clients j hij
  · rfl

theorem clearedUpTo_other (hij : i ≤ j) :
    (b.clearedUpTo curTime i).clientsPtr j = b.clientsPtr j := by
  induction i with
  | zero => rfl
  | succ i ih =>
    unfold clearedUpTo at ih ⊢
    rw [List.range_succ, List.foldl_append]
    exact (clearTimeoutClient_other (by omega)).trans (ih (by omega))

/-- **A round does what it is for**, exactly if the test of the code agrees with what
the test is for. -/
theorem clearsIdle_iff : b.ClearsIdle curTime ↔ ∀ i < b.config.needClientNum,
    ((b.clientsPtr i).TimedOut curTime ↔ b.Overdue curTime i) := by
  refine forall₂_congr (fun i hi => ?_)
  rw [clearTimeoutClient_eq, clearedUpTo_other le_rfl]
  change (if _ then (b.clearedUpTo curTime i).timeOut i else _) = _ ↔ _
  by_cases htimeout : (b.clientsPtr i).TimedOut curTime
  · rw [if_pos htimeout]
    by_cases hover : b.Overdue curTime i
    · rw [if_pos hover]
      exact ⟨fun _ => ⟨fun _ => hover, fun _ => htimeout⟩, fun _ => rfl⟩
    · rw [if_neg hover]
      exact ⟨fun heq => absurd heq timeOut_ne, fun h => absurd (h.mp htimeout) hover⟩
  · rw [if_neg htimeout]
    by_cases hover : b.Overdue curTime i
    · rw [if_pos hover]
      exact ⟨fun heq => absurd heq.symm timeOut_ne, fun h => absurd (h.mpr hover) htimeout⟩
    · rw [if_neg hover]
      exact ⟨fun _ => ⟨fun h => absurd h htimeout, fun h => absurd h hover⟩, fun _ => rfl⟩

/-! ## Whom the check misjudges -/

/-- A connection on descriptor `0` that is idle. -/
def Unseen (b : Benchmark) (curTime i : ℕ) : Prop :=
  (b.clientsPtr i).fd = 0 ∧ b.Overdue curTime i

/-- A connection that no callback was called for yet, where the check comes between the
end of the time in the slot and the end of its own. -/
def Stale (b : Benchmark) (curTime i : ℕ) : Prop :=
  (b.clientsPtr i).fd ≠ 0 ∧ ∃ o ∈ b.held i, o.served = false
    ∧ min (b.clientsPtr i).deadline (o.since + timeoutUsec) ≤ curTime
    ∧ curTime < max (b.clientsPtr i).deadline (o.since + timeoutUsec)

/-- A connection whose last callback was so late that the end of its time is not in the
range of the clock, and is taken for an early one. -/
def Wrapped (b : Benchmark) (curTime i : ℕ) : Prop :=
  (b.clientsPtr i).fd ≠ 0 ∧ ∃ o ∈ b.held i, o.served = true
    ∧ 2 ^ 64 ≤ o.since + timeoutUsec ∧ o.since + timeoutUsec - 2 ^ 64 ≤ curTime

/-- A slot that a creation that failed has left taken, the end of whose time has come. -/
def Stranded (b : Benchmark) (curTime i : ℕ) : Prop :=
  b.held i = none ∧ (b.clientsPtr i).fd > 0 ∧ (b.clientsPtr i).deadline ≤ curTime

/-- **The slot is misjudged.** -/
inductive Misjudged (b : Benchmark) (curTime i : ℕ) : Prop where
  | unseen (h : b.Unseen curTime i)
  | stale (h : b.Stale curTime i)
  | wrapped (h : b.Wrapped curTime i)
  | stranded (h : b.Stranded curTime i)

instance : Decidable (b.Unseen curTime i) := inferInstanceAs (Decidable (_ ∧ b.Overdue curTime i))

instance : Decidable (b.Stale curTime i) :=
  inferInstanceAs (Decidable (_ ∧ ∃ o ∈ b.held i, _))

instance : Decidable (b.Wrapped curTime i) :=
  inferInstanceAs (Decidable (_ ∧ ∃ o ∈ b.held i, _))

instance : Decidable (b.Stranded curTime i) := inferInstanceAs (Decidable (_ ∧ _ ∧ _))

instance : Decidable (b.Misjudged curTime i) :=
  decidable_of_iff (b.Unseen curTime i ∨ b.Stale curTime i ∨ b.Wrapped curTime i
      ∨ b.Stranded curTime i)
    ⟨fun | .inl h => .unseen h | .inr (.inl h) => .stale h | .inr (.inr (.inl h)) => .wrapped h
         | .inr (.inr (.inr h)) => .stranded h,
      fun | .unseen h => .inl h | .stale h => .inr (.inl h) | .wrapped h => .inr (.inr (.inl h))
          | .stranded h => .inr (.inr (.inr h))⟩

/-- **The time of a slot**, whose connection is `held`: it is the time of the last callback,
if there was one. -/
structure Touched (pclient : ClientFD) (held : Option Opened) : Prop where
  fits : pclient.touchTime < 2 ^ 64
  nonneg : ∀ o ∈ held, 0 ≤ pclient.fd
  served : ∀ o ∈ held, o.served = true → pclient.touchTime = o.since

/-- Without a connection nothing is idle. -/
theorem not_overdue (h : b.held i = none) : ¬ b.Overdue curTime i := by
  rintro ⟨o, ho, -⟩
  rw [h] at ho
  exact Option.not_mem_none o ho

theorem overdue_iff {o : Opened} (h : b.held i = some o) :
    b.Overdue curTime i ↔ o.since + timeoutUsec ≤ curTime := by
  unfold Overdue
  rw [h]
  exact ⟨fun ⟨o', ho', hle⟩ => Option.some.inj ho' ▸ hle, fun hle => ⟨o, rfl, hle⟩⟩

/-- Where the slot has a connection, it is misjudged if that is, in one of three ways. -/
theorem misjudged_iff {o : Opened} (h : b.held i = some o) : b.Misjudged curTime i
    ↔ (b.clientsPtr i).fd = 0 ∧ o.since + timeoutUsec ≤ curTime
      ∨ (b.clientsPtr i).fd ≠ 0 ∧ (o.served = false
            ∧ min (b.clientsPtr i).deadline (o.since + timeoutUsec) ≤ curTime
            ∧ curTime < max (b.clientsPtr i).deadline (o.since + timeoutUsec)
          ∨ o.served = true ∧ 2 ^ 64 ≤ o.since + timeoutUsec
            ∧ o.since + timeoutUsec - 2 ^ 64 ≤ curTime) := by
  constructor
  · intro hmis
    cases hmis with
    | unseen hunseen => exact Or.inl ⟨hunseen.1, (overdue_iff h).mp hunseen.2⟩
    | stale hstale =>
      obtain ⟨hfd, o', ho', hbetween⟩ := hstale
      obtain rfl : o = o' := Option.some.inj (h.symm.trans ho')
      exact Or.inr ⟨hfd, Or.inl hbetween⟩
    | wrapped hwrapped =>
      obtain ⟨hfd, o', ho', hlate⟩ := hwrapped
      obtain rfl : o = o' := Option.some.inj (h.symm.trans ho')
      exact Or.inr ⟨hfd, Or.inr hlate⟩
    | stranded hstranded => exact absurd (h.symm.trans hstranded.1) (Option.some_ne_none o)
  · rintro (⟨hfd, hover⟩ | ⟨hfd, hbetween | hlate⟩)
    · exact .unseen ⟨hfd, (overdue_iff h).mpr hover⟩
    · exact .stale ⟨hfd, o, h, hbetween⟩
    · exact .wrapped ⟨hfd, o, h, hlate⟩

/-- **A slot is judged rightly**, exactly if it is not misjudged. -/
theorem Touched.judged_iff (h : Touched (b.clientsPtr i) (b.held i)) (hcur : curTime < 2 ^ 64) :
    ((b.clientsPtr i).TimedOut curTime ↔ b.Overdue curTime i) ↔ ¬ b.Misjudged curTime i := by
  rw [ClientFD.timedOut_iff]
  cases hheld : b.held i with
  | none =>
    have hno : ¬ b.Overdue curTime i := not_overdue hheld
    rw [iff_false_right hno]
    constructor
    · rintro hnot (⟨-, hover⟩ | ⟨-, o, ho, -⟩ | ⟨-, o, ho, -⟩ | ⟨-, hstranded⟩)
      · exact hno hover
      · exact absurd (hheld.symm.trans ho) (Option.some_ne_none o).symm
      · exact absurd (hheld.symm.trans ho) (Option.some_ne_none o).symm
      · exact hnot hstranded
    · exact fun hnot htimeout => hnot (.stranded ⟨hheld, htimeout⟩)
  | some o =>
    have hnonneg := h.nonneg o hheld
    rw [misjudged_iff hheld, overdue_iff hheld]
    by_cases hzero : (b.clientsPtr i).fd = 0
    · -- descriptor `0` is not reset
      have hnot : ¬ ((b.clientsPtr i).fd > 0 ∧ (b.clientsPtr i).deadline ≤ curTime) :=
        fun htimeout => absurd hzero (ne_of_gt htimeout.1)
      rw [iff_false_left hnot]
      simp only [hzero, ne_eq, not_true_eq_false, true_and, false_and, or_false]
    have hpos : (b.clientsPtr i).fd > 0 := lt_of_le_of_ne hnonneg (Ne.symm hzero)
    rw [and_iff_right hpos]
    simp only [hzero, ne_eq, not_false_eq_true, true_and, false_and, false_or]
    cases hs : o.served with
    | false =>
      simp only [true_and, Bool.false_eq_true, false_and, or_false]
      omega
    | true =>
      -- the time in the slot is the one of the connection
      have hdeadline : (b.clientsPtr i).deadline = (o.since + timeoutUsec) % 2 ^ 64 := by
        rw [ClientFD.deadline_eq, h.served o hheld hs]
      have hfits := h.fits
      rw [h.served o hheld hs] at hfits
      rw [hdeadline]
      simp only [true_and, Bool.true_eq_false, false_and, false_or]
      unfold timeoutUsec connectTimeout
      omega

/-! ## The times of the slots -/

/-- **The invariant**: every slot has its time, and the clock is in its range. -/
structure Timed (b : Benchmark) : Prop where
  clock : b.usec < 2 ^ 64
  touched : ∀ j, Touched (b.clientsPtr j) (b.held j)

/-- What counts is the clock, the clients and the connections. -/
theorem Timed.congr (h : Timed b) (husec : b'.usec = b.usec)
    (hclients : b'.clientsPtr = b.clientsPtr) (hheld : b'.held = b.held) : Timed b' where
  clock := by
    rw [husec]
    exact h.clock
  touched j := by
    rw [hclients, hheld]
    exact h.touched j

/-- **Only the slot `i` has changed**, and it has its time. -/
theorem Timed.slot (h : Timed b) (husec : b'.usec = b.usec)
    (hclients : ∀ j ≠ i, b'.clientsPtr j = b.clientsPtr j) (hheld : ∀ j ≠ i, b'.held j = b.held j)
    (hself : Touched (b'.clientsPtr i) (b'.held i)) : Timed b' where
  clock := by
    rw [husec]
    exact h.clock
  touched j := by
    by_cases hj : j = i
    · rw [hj]
      exact hself
    · rw [hclients j hj, hheld j hj]
      exact h.touched j

/-- Of a client the descriptor and the time count. -/
theorem Touched.congr {pclient pclient' : ClientFD} {held : Option Opened}
    (h : Touched pclient held) (hfd : pclient'.fd = pclient.fd)
    (htouch : pclient'.touchTime = pclient.touchTime) : Touched pclient' held where
  fits := by
    rw [htouch]
    exact h.fits
  nonneg o ho := by
    rw [hfd]
    exact h.nonneg o ho
  served o ho hs := by
    rw [htouch]
    exact h.served o ho hs

theorem Timed.setClient (h : Timed b) {pclient : ClientFD}
    (hfd : pclient.fd = (b.clientsPtr i).fd)
    (htouch : pclient.touchTime = (b.clientsPtr i).touchTime) : Timed (b.setClient i pclient) := by
  refine h.slot rfl (fun _ hj => setClient_of_ne hj) (fun _ _ => rfl) ?_
  rw [setClient_self]
  exact (h.touched i).congr hfd htouch

/-- **Registrations** keep the times. -/
theorem Timed.rewires (h : Timed b) (hrewires : Rewires i b b') : Timed b' := by
  obtain ⟨mask, rFuncProc, wFuncProc, hclient⟩ := hrewires.client
  refine h.slot hrewires.usec hrewires.clients (fun j _ => congrFun hrewires.held j) ?_
  rw [hclient, hrewires.held]
  exact (h.touched i).congr rfl rfl

/-- **A reset** keeps them, too. -/
theorem Timed.reset (h : Timed b) : Timed (reactorResetClient b i) := by
  have hresets := reactorResetClient_resets b i
  refine h.slot hresets.usec hresets.clients (fun j _ => congrFun hresets.held j) ?_
  rw [hresets.held]
  exact (h.touched i).congr hresets.fd hresets.touchTime

/-- **A connection that is closed** leaves its time behind. -/
theorem Timed.closeConnection (h : Timed b) : Timed (reactorCloseConnection b i) := by
  unfold reactorCloseConnection
  extract_lets pclient b₁ b₂
  refine h.slot (i := i) rfl (fun _ hj => setClient_of_ne hj)
    (fun _ hj => Function.update_of_ne hj _ _) ?_
  have hnone : ((b₂.setClient i { pclient with fd := fdarrayIndexInit }).hold i none).held i = none :=
    Function.update_self ..
  have hclient : (b₂.setClient i { pclient with fd := fdarrayIndexInit }).clientsPtr i
    = { pclient with fd := fdarrayIndexInit } := setClient_self
  show Touched ((b₂.setClient i _).clientsPtr i) (((b₂.setClient i _).hold i none).held i)
  rw [hclient, hnone]
  exact ⟨(h.touched i).fits, fun o ho => absurd ho (Option.not_mem_none o),
    fun o ho => absurd ho (Option.not_mem_none o)⟩

/-- **A client that is opened** gets a slot without a connection, and the time that is
there is left as it is. -/
theorem Timed.clientInit (h : Timed b) : Timed (reactorClientInit b a).2 := by
  obtain ⟨c, heq⟩ | ⟨g, b', -, hempty, hadd, hcases⟩ := reactorClientInit_states b a
  · rw [heq]
    exact h.congr rfl rfl rfl
  set j := b.slotIndex g
  set b₀ := b.taken j g
  have hnone : b.held j = none := by
    by_contra hheld
    obtain ⟨o, ho⟩ := Option.ne_none_iff_exists'.mp hheld
    have hnonneg := (h.touched j).nonneg o ho
    rw [hempty] at hnonneg
    exact absurd hnonneg (by decide)
  have hfits : (b₀.clientsPtr j).touchTime < 2 ^ 64 := by
    have hclient : b₀.clientsPtr j = _ := setClient_self
    rw [hclient]
    exact (h.touched j).fits
  have h₀ : Timed b₀ := by
    refine h.slot (i := j) rfl (fun _ hj => setClient_of_ne hj) (fun _ _ => rfl) ?_
    rw [show b₀.held j = none from hnone]
    exact ⟨hfits, fun o ho => absurd ho (Option.not_mem_none o),
      fun o ho => absurd ho (Option.not_mem_none o)⟩
  have hrewires := reactorAddEvent_rewires b₀ j writeable .sendToServerCallback
  rw [← hadd] at hrewires
  have h' : Timed b' := h₀.rewires hrewires
  obtain heq | heq := hcases
  · rw [heq]
    exact h'.congr rfl rfl rfl
  · rw [heq]
    refine h'.slot (i := j) rfl (fun _ _ => rfl) (fun _ hj => Function.update_of_ne hj _ _) ?_
    have hopened : (b'.joined j).held j = some ⟨b'.usec, false, []⟩ := Function.update_self ..
    show Touched (b'.clientsPtr j) ((b'.joined j).held j)
    rw [hopened]
    refine ⟨(h'.touched j).fits, fun o _ => ?_, fun o ho hs => ?_⟩
    · rw [hrewires.fd, show (b₀.clientsPtr j).fd = g from taken_fd]
      exact Int.natCast_nonneg g
    · obtain rfl := Option.some.inj ho
      exact absurd hs Bool.false_ne_true

theorem Timed.reconnect (h : Timed b) : Timed (reconnect b i a) := h.closeConnection.clientInit

/-! ## The callbacks -/

/-- **A callback is called**, and sets the time. -/
theorem Timed.serve (h : Timed b) {pclient : ClientFD} (hfd : pclient.fd = (b.clientsPtr i).fd)
    (htouch : pclient.touchTime = b.usec) : Timed ((b.setClient i pclient).serve i) := by
  refine h.slot (i := i) rfl (fun _ hj => setClient_of_ne hj)
    (fun _ hj => Function.update_of_ne hj _ _) ?_
  have hclient : ((b.setClient i pclient).serve i).clientsPtr i = pclient := setClient_self
  have hheld : ((b.setClient i pclient).serve i).held i
    = (b.held i).map (fun o => { o with since := b.usec, served := true }) :=
    Function.update_self ..
  rw [hclient, hheld]
  refine ⟨htouch ▸ h.clock, fun o' ho' => ?_, fun o' ho' _ => ?_⟩
  · obtain ⟨o, ho, -⟩ := Option.map_eq_some_iff.mp ho'
    rw [hfd]
    exact (h.touched i).nonneg o ho
  · obtain ⟨o, -, rfl⟩ := Option.map_eq_some_iff.mp ho'
    exact htouch

/-- What was written does not count. -/
theorem Timed.send (h : Timed b) {bytes : List UInt8} : Timed (b.send i bytes) := by
  refine h.slot (i := i) rfl (fun _ _ => rfl) (fun _ hj => Function.update_of_ne hj _ _) ?_
  have hheld : (b.send i bytes).held i
    = (b.held i).map (fun o => { o with sent := o.sent ++ bytes }) := Function.update_self ..
  rw [hheld]
  refine ⟨(h.touched i).fits, fun o' ho' => ?_, fun o' ho' hs => ?_⟩
  · obtain ⟨o, ho, -⟩ := Option.map_eq_some_iff.mp ho'
    exact (h.touched i).nonneg o ho
  · obtain ⟨o, ho, rfl⟩ := Option.map_eq_some_iff.mp ho'
    exact (h.touched i).served o ho hs

theorem Timed.sendToServer (h : Timed b) {writes : List WriteOutcome} :
    Timed (sendToServerCallback b i writes a) := by
  unfold sendToServerCallback
  extract_lets asking pclient timed touched b₁ _ b₂
  have hfd : timed.fd = pclient.fd := (apply_ite ClientFD.fd ..).trans (ite_self _)
  have hasking : Timed asking := h.congr rfl rfl rfl
  have h₁ : Timed b₁ := hasking.serve hfd rfl
  have hclient₁ : b₁.clientsPtr i = touched := setClient_self
  split
  · exact h₁
  · exact h₁.reconnect
  next n hbytes =>
  extract_lets b₃ sent b₄
  have h₂ : Timed b₂ := h₁.congr rfl rfl rfl
  have h₃ : Timed b₃ := h₂.send
  have hclient₃ : b₃.clientsPtr i = touched := hclient₁
  have h₄ : Timed b₄ := h₃.setClient (by rw [hclient₃]) (by rw [hclient₃])
  split
  · exact h₄.rewires (swap_rewires b₄ i readable writeable .recvFromServerCallback)
  · exact h₄

theorem Timed.closeNormal (h : Timed b) : Timed (reactorCloseConnectionNormal b i a) := by
  unfold reactorCloseConnectionNormal
  split
  · exact h.congr rfl rfl rfl
  split
  · exact h.reset
  · exact h.reconnect

theorem Timed.recvFromServer (h : Timed b) {reads : List ReadOutcome} :
    Timed (recvFromServerCallback b i reads a) := by
  unfold recvFromServerCallback
  extract_lets hearing touched pclient timed b₁
  have hfd : timed.fd = pclient.fd := (apply_ite ClientFD.fd ..).trans (ite_self _)
  have htouch : timed.touchTime = b.usec := (apply_ite ClientFD.touchTime ..).trans (ite_self _)
  have hhearing : Timed hearing := h.congr rfl rfl rfl
  have h₁ : Timed b₁ := hhearing.serve hfd htouch
  have hclient₁ : b₁.clientsPtr i = timed := setClient_self
  split
  · exact h₁
  · exact h₁.reconnect
  next n hbytes =>
  extract_lets received b₂ b₃
  have h₂ : Timed b₂ := h₁.setClient (by rw [hclient₁]) (by rw [hclient₁])
  split
  · exact h₂.congr rfl rfl rfl
  -- the response is never refused, and always complete
  rw [if_neg (by decide), if_neg (by decide)]
  refine Timed.closeNormal ?_
  unfold b₃
  split
  · exact h₂.congr rfl rfl rfl
  · exact h₂

theorem Timed.call (h : Timed b) {func : Option FuncProcCallback} {reads : List ReadOutcome}
    {writes : List WriteOutcome} : Timed (b.call i func reads writes a) := by
  unfold Benchmark.call
  split
  · exact h.congr rfl rfl rfl
  · exact h.sendToServer
  · exact h.recvFromServer

/-- **A round of the batch loop**, whatever is reported. -/
theorem Timed.handle (h : Timed b) {e : EpollEvent} {rest : List EpollEvent} {io : ClientIO} :
    Timed (handleEvent b e rest io) := by
  unfold handleEvent
  extract_lets b₁ i b₂ b₃
  have h₁ : Timed b₁ := h.congr rfl rfl rfl
  have h₂ : Timed b₂ := h.congr rfl rfl rfl
  have h₃ : Timed b₃ := by
    unfold b₃
    split
    · exact h₁.call
    · exact h₁
  split
  · split
    · exact h₂.congr rfl rfl rfl
    · exact h₂.reconnect
  split
  · exact h₃
  split
  · exact h₃.call
  · exact h₃

/-! ## Steps -/

theorem Timed.loop (h : Timed b) : Timed b.loop := by
  unfold Benchmark.loop
  split
  · exact h.congr rfl rfl rfl
  · exact h.congr rfl rfl rfl

theorem Timed.create (h : Timed b) : Timed b.create := by
  unfold Benchmark.create
  split
  · exact h.congr rfl rfl rfl
  · exact Timed.loop (h.congr rfl rfl rfl)

theorem Timed.refill (h : Timed b) : Timed b.refill := by
  unfold Benchmark.refill
  split
  · exact h.congr rfl rfl rfl
  · exact Timed.loop (h.congr rfl rfl rfl)

theorem Timed.clearTimeout (h : Timed b) : Timed (clearTimeoutConnection b curTime) := by
  unfold clearTimeoutConnection
  refine List.foldlRecOn (motive := Timed) _ _ h (fun b' hb' i _ => ?_)
  rw [clearTimeoutClient_eq]
  split
  · exact Timed.reset (hb'.congr rfl rfl rfl)
  · exact hb'

theorem Timed.check (h : Timed b) : Timed b.check := by
  unfold Benchmark.check
  split
  · exact h.clearTimeout.refill
  · exact h.loop

/-- **What the clock may show**: `GetusecTime` returns a `uint64_t`. -/
def Shows : BenchInput → Prop
  | .wait usec _ => usec < 2 ^ 64
  | _ => True

instance : DecidablePred Shows
  | .wait _ _ => inferInstanceAs (Decidable (_ < _))
  | .client _ => inferInstanceAs (Decidable True)
  | .event _ => inferInstanceAs (Decidable True)
  | .check => inferInstanceAs (Decidable True)

/-- **The step lemma.** -/
theorem Timed.step (h : Timed b) {input : BenchInput} (hshows : Shows input)
    (hstep : b.step input = some b') : Timed b' := by
  cases stepped hstep with
  | notCreated a => exact h.clientInit.congr rfl rfl rfl
  | created a => exact h.clientInit.create
  | notRefilled a => exact h.clientInit.congr rfl rfl rfl
  | refilled a => exact h.clientInit.refill
  | waited usec events => exact ⟨hshows, h.touched⟩
  | handled e rest io => exact h.handle
  | checked => exact h.check

/-- **`ClearTimeoutConnection` is called**, in the check at the end of a batch. -/
def Clears (b : Benchmark) : BenchInput → Prop
  | .check => b.phase = .handling []
      ∧ uint64 (b.usec - b.lastCheckUstime) > timeoutUsecTimeval
  | _ => False

instance (b : Benchmark) : DecidablePred b.Clears
  | .check => inferInstanceAs (Decidable (_ ∧ _))
  | .client _ => inferInstanceAs (Decidable False)
  | .event _ => inferInstanceAs (Decidable False)
  | .wait _ _ => inferInstanceAs (Decidable False)

end Benchmark

/-! ## The result -/

section Result

variable {config : StatisticsStruct} {epoll : Epoll} {limit usec : ℕ} {malloc : Bool}
  {inputs : List BenchInput}

/-- The process starts without connections. -/
theorem initSingleReactor_timed (config : StatisticsStruct) (epoll : Epoll) (limit : ℕ)
    (malloc : Bool) (husec : usec < 2 ^ 64) :
    (initSingleReactor config epoll limit usec malloc).Timed := by
  unfold initSingleReactor
  extract_lets b
  have h : b.Timed := by
    refine ⟨husec, fun j => ⟨Nat.two_pow_pos 64, fun o ho => ?_, fun o ho => ?_⟩⟩
    · exact absurd ho (Option.not_mem_none o)
    · exact absurd ho (Option.not_mem_none o)
  split
  · exact h.congr rfl rfl rfl
  · exact h.create

/-- **Only idle clients are timed out, exactly if** no slot is misjudged. In every run,
whatever `epoll_wait` reports and `epoll_ctl` and the other calls do. -/
theorem benchmark_clears_idle_iff (husec : usec < 2 ^ 64)
    (hshows : Run.Along Benchmark.step (fun _ => Benchmark.Shows)
      (initSingleReactor config epoll limit usec malloc) inputs) :
    Run.Along Benchmark.step (fun b input => b.Clears input → b.ClearsIdle b.usec)
        (initSingleReactor config epoll limit usec malloc) inputs
      ↔ Run.Along Benchmark.step
          (fun b input => b.Clears input → ∀ i < b.config.needClientNum, ¬ b.Misjudged b.usec i)
          (initSingleReactor config epoll limit usec malloc) inputs := by
  have htimed := Run.always_of_along (fun _ _ _ htimed hshows hstep => htimed.step hshows hstep)
    (initSingleReactor_timed config epoll limit malloc husec) hshows
  have hiff : ∀ b : Benchmark, b.Timed →
      (b.ClearsIdle b.usec ↔ ∀ i < b.config.needClientNum, ¬ b.Misjudged b.usec i) := by
    intro b hb
    rw [Benchmark.clearsIdle_iff]
    exact forall₂_congr (fun i _ => (hb.touched i).judged_iff hb.clock)
  constructor
  · exact fun hidle => htimed.along hidle (fun b _ hb h hclears => (hiff b hb).mp (h hclears))
  · exact fun hrightly => htimed.along hrightly
      (fun b _ hb h hclears => (hiff b hb).mpr (h hclears))

end Result

/-! ### A run -/

/-- Two clients, whose requests are written. The response on `3` comes 0.2 seconds later,
and none on `4`, so that only that client is idle at the last check. -/
def idleRun : List BenchInput :=
  [.client (attempt true), .client (attempt true),
    .wait 10100000 [⟨3, false, true, false, false⟩, ⟨4, false, true, false, false⟩],
    .event ⟨[], attempt true, [.data 1000], attempt true⟩,
    .event ⟨[], attempt true, [.data 1000], attempt true⟩,
    .check,
    .wait 10300000 [⟨3, true, false, false, false⟩],
    .event ⟨[.data 10], attempt true, [], attempt true⟩,
    .check,
    .wait 13200000 [],
    .check]

/-- The client on `4` is counted. -/
theorem benchmark_clears_idle_sample :
    (Run.exec Benchmark.step
        (initSingleReactor (initConfig 2 5 1 0 .tcp) benchEpoll 16 10000000 true) idleRun).map
        (fun b => b.config.timeoutClientNum) = some 1
    ∧ Run.Along Benchmark.step (fun b input => b.Clears input → b.ClearsIdle b.usec)
        (initSingleReactor (initConfig 2 5 1 0 .tcp) benchEpoll 16 10000000 true) idleRun :=
  ⟨by decide +kernel,
    (benchmark_clears_idle_iff (by decide) (by decide +kernel)).mpr (by decide +kernel)⟩

/-- **A client is reset at the first check.** It was opened 0.2 seconds ago, its connection
is still in progress, and no callback was called for it. -/
theorem benchmark_not_clears_idle :
    ¬ ∀ (config : StatisticsStruct) (epoll : Epoll) (limit usec : ℕ) (malloc : Bool)
      (inputs : List BenchInput), usec < 2 ^ 64 →
      Run.Along Benchmark.step (fun _ => Benchmark.Shows)
        (initSingleReactor config epoll limit usec malloc) inputs →
      Run.Along Benchmark.step (fun b input => b.Clears input → b.ClearsIdle b.usec)
        (initSingleReactor config epoll limit usec malloc) inputs := by
  intro h
  have halong := h (initConfig 1 5 1 0 .tcp) benchEpoll 16 10000000 true
    ([.client (attempt true), .wait 10200001 []] ++ [.check]) (by decide) (by decide +kernel)
  obtain ⟨b, hb⟩ : ∃ b, Run.exec Benchmark.step
      (initSingleReactor (initConfig 1 5 1 0 .tcp) benchEpoll 16 10000000 true)
      [.client (attempt true), .wait 10200001 []] = some b := ⟨_, rfl⟩
  have hstate : (Run.exec Benchmark.step
      (initSingleReactor (initConfig 1 5 1 0 .tcp) benchEpoll 16 10000000 true)
      [.client (attempt true), .wait 10200001 []]).map (fun b => (decide (b.Clears .check),
        b.config.needClientNum, decide ((b.clientsPtr 0).TimedOut b.usec),
        decide (b.Overdue b.usec 0))) = some (true, 1, true, false) := by
    decide +kernel
  rw [hb] at hstate
  obtain ⟨hclears, hneed, htimeout, hover⟩ : b.Clears .check ∧ b.config.needClientNum = 1
      ∧ (b.clientsPtr 0).TimedOut b.usec ∧ ¬ b.Overdue b.usec 0 := by
    simpa using hstate
  have hidle := (halong.append.2 b hb).1 hclears
  rw [Benchmark.clearsIdle_iff, hneed] at hidle
  exact hover ((hidle 0 (by decide)).mp htimeout)
