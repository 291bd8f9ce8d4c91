import TcpFrame.BenchClientInit
import TcpFrame.Lib.Repeat

/-!
# Whole requests

What a client writes on a connection, over any run of its slot: the callbacks with
any partial writes and reads, resets after a response or a timeout, reconnects, and
whatever happens to the other slots in between. The place in the request is
`sendedLen`, and `Benchmark.Requesting` says that it is the place in what was
written, too.

A response is read only where the request was written completely, since the kernel
watches a client for one direction at a time. A timeout can come in between, and the
reset starts the request again on the same connection
(`Benchmark.client_requests_iff`).
-/

open Repeat

/-! ## One direction at a time -/

/-- **One direction** at most. -/
def EpollEvents.OneWay (events : EpollEvents) : Prop :=
  events.epollin = true → events.epollout = false

/-- What holds of no events and of those that are asked for, holds after the call. -/
theorem KernelFd.keeps_set {P : EpollEvents → Prop} (hnone : P ⟨false, false⟩) {k : KernelFd}
    {op : EpollOper} {events : EpollEvents} (h : P events) : P (k.set op events).events := by
  cases k with
  | closed => exact hnone
  | _ =>
    cases op with
    | del => exact hnone
    | _ => exact h

/-- A mask without one direction, and with the other one. -/
theorem mask_swap (mask : BitVec 32) {m m' : BitVec 32}
    (hm : m = readable ∧ m' = writeable ∨ m = writeable ∧ m' = readable) :
    mask &&& ~~~m' &&& m' = 0 ∧ (mask &&& ~~~m' ||| m) &&& m' = 0 := by
  have hdel : mask &&& ~~~m' &&& m' = 0 := by
    rw [BitVec.and_assoc, BitVec.and_comm (~~~m'), BitVec.and_not_self]
    exact BitVec.and_zero
  have hno : m &&& m' = 0#32 := by
    rcases hm with ⟨rfl, rfl⟩ | ⟨rfl, rfl⟩ <;> rfl
  refine ⟨hdel, ?_⟩
  rw [BitVec.and_or_distrib_right, hdel, hno]
  exact BitVec.or_zero

/-- Its events are in the other direction. -/
theorem oneWay_clientEvents (mask : BitVec 32) {m m' : BitVec 32}
    (hm : m = readable ∧ m' = writeable ∨ m = writeable ∧ m' = readable) :
    (clientEvents (mask &&& ~~~m')).OneWay ∧ (clientEvents (mask &&& ~~~m' ||| m)).OneWay := by
  obtain ⟨hdel, hadd⟩ := mask_swap mask hm
  unfold EpollEvents.OneWay clientEvents
  rcases hm with ⟨rfl, rfl⟩ | ⟨rfl, rfl⟩
  · rw [hdel, hadd]
    exact ⟨fun _ => rfl, fun _ => rfl⟩
  · rw [hdel, hadd]
    exact ⟨fun h => absurd h Bool.false_ne_true, fun h => absurd h Bool.false_ne_true⟩

/-- No events are one direction. -/
theorem oneWay_none : EpollEvents.OneWay ⟨false, false⟩ := fun hin => absurd hin (by decide)

namespace Benchmark

variable {b b' : Benchmark} {a : ClientAttempt} {i : ℕ} {m m' : BitVec 32}
  {func : FuncProcCallback} {P : EpollEvents → Prop}

/-- A call of `epoll_ctl` keeps what holds of the events, whether it succeeds or not. -/
theorem events_ctl (hnone : P ⟨false, false⟩) {fd : ℤ} {op : EpollOper} {events : EpollEvents}
    (hk : P (b.epoll.fd fd).events) (h : P events) :
    P ((b.ctl op fd events).2.epoll.fd fd).events := by
  show P ((b.epoll.ctl op fd events).2.fd fd).events
  cases hctl : b.epoll.succeeds op fd with
  | true =>
    rw [Epoll.ctl_succeeds hctl]
    show P (Function.update b.epoll.fd fd _ fd).events
    rw [Function.update_self]
    exact KernelFd.keeps_set hnone h
  | false =>
    rw [Epoll.ctl_fails hctl]
    exact hk

/-- What the kernel watches the client in the slot `i` for. -/
def watched (b : Benchmark) (i : ℕ) : EpollEvents := (b.epoll.fd (b.clientsPtr i).fd).events

/-- **`ReactorAddEvent` and `ReactorDelEvent`** keep it, too. -/
theorem events_reactorAddEvent (func : FuncProcCallback) (hnone : P ⟨false, false⟩)
    (h : P (b.watched i)) (hadd : P (clientEvents ((b.clientsPtr i).mask ||| m))) :
    P ((reactorAddEvent b i m func).2.watched i) := by
  unfold watched
  rw [(reactorAddEvent_rewires b i m func).fd]
  unfold reactorAddEvent
  extract_lets pclient op pclient'
  split
  · exact events_ctl (b := b.setClient i _) hnone h hadd
  split
  · exact events_ctl (b := b.setClient i _) hnone h hadd
  · exact h

theorem events_reactorDelEvent (hnone : P ⟨false, false⟩) (h : P (b.watched i))
    (hdel : P (clientEvents ((b.clientsPtr i).mask &&& ~~~m))) :
    P ((reactorDelEvent b i m).2.watched i) := by
  unfold watched
  rw [(reactorDelEvent_rewires b i m).fd]
  unfold reactorDelEvent
  extract_lets pclient pclient' op
  exact events_ctl (b := b.setClient i pclient') hnone h hdel

/-- A mask that loses a direction. -/
theorem mask_reactorDelEvent :
    ((reactorDelEvent b i m).2.clientsPtr i).mask = (b.clientsPtr i).mask &&& ~~~m :=
  congrArg ClientFD.mask setClient_self

/-- **One direction is exchanged for the other.** -/
theorem swap_rewires (b : Benchmark) (i : ℕ) (m m' : BitVec 32) (func : FuncProcCallback) :
    Rewires i b (reactorAddEvent (reactorDelEvent b i m').2 i m func).2 :=
  (reactorDelEvent_rewires b i m').trans (reactorAddEvent_rewires _ i m func)

theorem swap_oneWay (func : FuncProcCallback) (h : (b.watched i).OneWay)
    (hm : m = readable ∧ m' = writeable ∨ m = writeable ∧ m' = readable) :
    ((reactorAddEvent (reactorDelEvent b i m').2 i m func).2.watched i).OneWay := by
  obtain ⟨hdel, hadd⟩ := oneWay_clientEvents (b.clientsPtr i).mask hm
  exact events_reactorAddEvent func oneWay_none (events_reactorDelEvent oneWay_none h hdel)
    (mask_reactorDelEvent ▸ hadd)

/-! ## The place in the request -/

/-- The buffer has room for the request. -/
theorem encodedRequest_eq (data : List UInt8) :
    encodedRequest data (maxSendBufLen + 1) = request := if_neg (by decide)

theorem uint32_encodeRequest : uint32 (encodeRequest (maxSendBufLen + 1)) = request.length := by
  rw [length_request]
  rfl

/-- **The request is written in part.** -/
def Midway (pclient : ClientFD) : Prop :=
  0 < pclient.sendedLen ∧ pclient.sendedLen < pclient.sendBufLen

/-- **The client `pclient` has written `sent`**, is at `sendedLen` in the request, and is
not read from in the middle of it. -/
structure Sends (pclient : ClientFD) (watched : EpollEvents) (sent : List UInt8) : Prop where
  len : pclient.sendBufLen = request.length
  buf : pclient.sendBuf = request
  said : Said request pclient.sendedLen sent
  oneWay : watched.OneWay
  unread : Midway pclient → watched.epollin = false

/-- **The connection in the slot `i`**, if there is one, keeps its place. -/
def Requesting (i : ℕ) (b : Benchmark) : Prop :=
  ∀ o, b.held i = some o → Sends (b.clientsPtr i) (b.watched i) o.sent

/-- Nothing is said of a slot without a connection. -/
theorem Requesting.of_none (h : b.held i = none) : Requesting i b :=
  fun o ho => absurd (h.symm.trans ho) (by simp)

/-- What counts is the client, what is watched and what was sent. -/
theorem Requesting.congr (h : Requesting i b) (hlen : (b'.clientsPtr i).sendBufLen
      = (b.clientsPtr i).sendBufLen) (hbuf : (b'.clientsPtr i).sendBuf = (b.clientsPtr i).sendBuf)
    (hsended : (b'.clientsPtr i).sendedLen = (b.clientsPtr i).sendedLen)
    (hwatched : b'.watched i = b.watched i)
    (hheld : (b'.held i).map Opened.sent = (b.held i).map Opened.sent) : Requesting i b' := by
  intro o' ho'
  rw [ho'] at hheld
  obtain ⟨o, ho, hsent⟩ := Option.map_eq_some_iff.mp hheld.symm
  obtain ⟨h₁, h₂, h₃, h₄, h₅⟩ := h o ho
  refine ⟨hlen.trans h₁, hbuf.trans h₂, ?_, hwatched ▸ h₄, fun hmid => ?_⟩
  · rw [hsended, ← hsent]
    exact h₃
  · unfold Midway at hmid
    rw [hlen, hsended] at hmid
    rw [hwatched]
    exact h₅ hmid

/-- **A client that is opened** has its place at the beginning. -/
theorem requesting_clientInit (hnone : b.held i = none) :
    Requesting i (reactorClientInit b a).2 := by
  obtain ⟨c, heq⟩ | ⟨g, b', -, -, hadd, hcases⟩ := reactorClientInit_states b a
  · rw [heq]
    exact .of_none hnone
  set j := b.slotIndex g
  set b₀ := b.taken j g
  have hrewires := reactorAddEvent_rewires b₀ j writeable .sendToServerCallback
  rw [← hadd] at hrewires
  have hheld : b'.held i = none := (congrFun hrewires.held i).trans hnone
  obtain heq | heq := hcases
  · rw [heq]
    exact .of_none hheld
  rw [heq]
  by_cases hij : i = j
  swap
  · exact .of_none ((Function.update_of_ne hij _ _).trans hheld)
  rw [hij]
  intro o ho
  have ho : Function.update b'.held j (some ⟨b'.usec, false, []⟩) j = some o := ho
  rw [Function.update_self] at ho
  obtain rfl := Option.some.inj ho
  -- the client is the one that was put into the slot, but for what is registered
  obtain ⟨mask, rFuncProc, wFuncProc, hclient⟩ := hrewires.client
  have hclient' : (b'.joined j).clientsPtr j = { b₀.clientsPtr j with
    mask := mask, rFuncProc := rFuncProc, wFuncProc := wFuncProc } := hclient
  have hclient₀ : b₀.clientsPtr j = _ := setClient_self
  have hmask₀ : (b₀.clientsPtr j).mask = enone := congrArg ClientFD.mask hclient₀
  have hopened : b₀.watched j = ⟨false, false⟩ := by
    unfold watched
    rw [show (b₀.clientsPtr j).fd = g from taken_fd,
      show b₀.epoll.fd g = .opened from Function.update_self ..]
    rfl
  have honeWay := events_reactorAddEvent (b := b₀) (i := j) (m := writeable)
    .sendToServerCallback oneWay_none (by rw [hopened]; exact oneWay_none)
    (by rw [hmask₀]; exact fun h => absurd h (by decide))
  rw [← hadd] at honeWay
  rw [hclient', hclient₀]
  exact ⟨uint32_encodeRequest, encodedRequest_eq (b.clientsPtr j).sendBuf, .nil, honeWay,
    fun hmid => absurd hmid.1 (lt_irrefl 0)⟩

/-! ## The callbacks -/

/-- A loop of writes writes something, and no more than is left. -/
theorem clientWrite_bytes {left n : ℕ} {outcomes : List WriteOutcome}
    (h : clientWrite left outcomes = .bytes n) : n ≤ left := by
  induction outcomes with
  | nil => exact absurd h (by simp [clientWrite])
  | cons outcome outcomes ih =>
    cases outcome with
    | eintr => exact ih h
    | eagain => exact absurd h (by simp [clientWrite])
    | error => exact absurd h (by simp [clientWrite])
    | data k =>
      unfold clientWrite at h
      split at h
      · exact absurd h (by simp)
      · obtain rfl := Transfer.bytes.inj h
        exact min_le_right k left

/-- The connection is gone, and perhaps there is another one. -/
theorem requesting_reconnect : Requesting i (reconnect b i a) := by
  refine requesting_clientInit ?_
  exact Function.update_self ..

theorem held_of_serve (h : (b.serve i).held i ≠ none) : b.held i ≠ none := by
  intro hnone
  refine h ?_
  show Function.update b.held i ((b.held i).map _) i = none
  rw [Function.update_self, hnone]
  rfl

/-- A callback is called, and has changed nothing of the request. -/
theorem Requesting.touch (h : Requesting i b) {pclient : ClientFD}
    (hfd : pclient.fd = (b.clientsPtr i).fd)
    (hlen : pclient.sendBufLen = (b.clientsPtr i).sendBufLen)
    (hbuf : pclient.sendBuf = (b.clientsPtr i).sendBuf)
    (hsended : pclient.sendedLen = (b.clientsPtr i).sendedLen) :
    Requesting i ((b.setClient i pclient).serve i) := by
  have hclient : ((b.setClient i pclient).serve i).clientsPtr i = pclient := setClient_self
  refine h.congr (by rw [hclient, hlen]) (by rw [hclient, hbuf]) (by rw [hclient, hsended]) ?_ ?_
  · unfold watched
    rw [hclient, hfd]
    rfl
  · show Option.map Opened.sent (Function.update b.held i _ i) = _
    rw [Function.update_self, Option.map_map]
    rfl

/-- **What `ReactorResetClient` does**: the client begins anew, on the same
connection. -/
structure Resets (i : ℕ) (b b' : Benchmark) : Prop where
  held : b'.held = b.held
  usec : b'.usec = b.usec
  clients : ∀ j ≠ i, b'.clientsPtr j = b.clientsPtr j
  fd : (b'.clientsPtr i).fd = (b.clientsPtr i).fd
  touchTime : (b'.clientsPtr i).touchTime = (b.clientsPtr i).touchTime
  sendedLen : (b'.clientsPtr i).sendedLen = 0
  encoded : (b'.clientsPtr i).sendBufLen = (b.clientsPtr i).sendBufLen
      ∧ (b'.clientsPtr i).sendBuf = (b.clientsPtr i).sendBuf
    ∨ (b'.clientsPtr i).sendBufLen = request.length
      ∧ (b'.clientsPtr i).sendBuf = request
  oneWay : (b.watched i).OneWay → (b'.watched i).OneWay
  counted : b'.config.timeoutClientNum = b.config.timeoutClientNum

theorem reactorResetClient_resets (b : Benchmark) (i : ℕ) :
    Resets i b (reactorResetClient b i) := by
  have hswap := swap_rewires b i writeable readable .sendToServerCallback
  have honeWay := fun h => swap_oneWay (b := b) (i := i) .sendToServerCallback h
    (Or.inr ⟨rfl, rfl⟩)
  obtain ⟨mask, rFuncProc, wFuncProc, hclient⟩ := hswap.client
  unfold reactorResetClient
  extract_lets b₁ b₂ pclient₀ b₃ resetClientNum pclient₁ pclient b₄
  -- the place is the beginning, and the request may be encoded anew
  have hresets : ∀ (pclient' : ClientFD) (config : StatisticsStruct),
      pclient'.fd = pclient₀.fd → pclient'.touchTime = pclient₀.touchTime →
      pclient'.sendedLen = 0 →
      (pclient'.sendBufLen = pclient₀.sendBufLen ∧ pclient'.sendBuf = pclient₀.sendBuf
        ∨ pclient'.sendBufLen = request.length ∧ pclient'.sendBuf = request) →
      config.timeoutClientNum = b.config.timeoutClientNum →
      Resets i b { b₂.setClient i pclient' with config := config } := by
    intro pclient' config hfd htouch hsended hencoded hcount
    have hself : ({ b₂.setClient i pclient' with config := config } : Benchmark).clientsPtr i
      = pclient' := setClient_self
    have hpclient₀ : pclient₀ = { b.clientsPtr i with
      mask := mask, rFuncProc := rFuncProc, wFuncProc := wFuncProc } := hclient
    refine ⟨hswap.held, hswap.usec, fun j hj => ?_, ?_, ?_, ?_, ?_, fun h => ?_, hcount⟩
    · exact (setClient_of_ne hj).trans (hswap.clients j hj)
    · rw [hself, hfd, hpclient₀]
    · rw [hself, htouch, hpclient₀]
    · rw [hself, hsended]
    · rw [hself]
      rw [hpclient₀] at hencoded
      exact hencoded
    · unfold watched
      rw [hself, hfd]
      exact honeWay h
  have hcount := congrArg StatisticsStruct.timeoutClientNum hswap.config
  split
  · rw [if_neg (Nat.not_lt_zero _)]
    have hpclient₁ : pclient₁ = { pclient₀ with recvBufLen := 0, sendedLen := 0 } := setClient_self
    have hfd : pclient.fd = pclient₀.fd := (congrArg ClientFD.fd hpclient₁ :)
    have htouch : pclient.touchTime = pclient₀.touchTime :=
      (congrArg ClientFD.touchTime hpclient₁ :)
    have hsended : pclient.sendedLen = 0 := (congrArg ClientFD.sendedLen hpclient₁ :)
    have h := hresets pclient { b₄.config with resetClientNum := resetClientNum } hfd htouch hsended
      (Or.inr ⟨uint32_encodeRequest, encodedRequest_eq pclient₁.sendBuf⟩) hcount
    have hb₄ : b₄ = b₂.setClient i pclient := by
      show (b₂.setClient i _).setClient i pclient = _
      unfold setClient
      rw [Function.update_idem]
    rw [hb₄]
    exact h
  · exact hresets { pclient₀ with recvBufLen := 0, sendedLen := 0 } _ rfl rfl rfl
      (Or.inl ⟨rfl, rfl⟩) hcount

/-- **Beginning anew** is in order where the request is not written in part. -/
theorem Requesting.reset (h : Requesting i b)
    (hmid : b.held i ≠ none → ¬ Midway (b.clientsPtr i)) :
    Requesting i (reactorResetClient b i) := by
  have hresets := reactorResetClient_resets b i
  intro o ho
  rw [hresets.held] at ho
  have hsends := h o ho
  have hnot : ¬ Midway (b.clientsPtr i) := hmid (by rw [ho]; exact Option.some_ne_none o)
  have hle := hsends.said.le
  have hencoded : ((reactorResetClient b i).clientsPtr i).sendBufLen = request.length
      ∧ ((reactorResetClient b i).clientsPtr i).sendBuf = request := by
    obtain ⟨hlen, hbuf⟩ | hencoded := hresets.encoded
    · exact ⟨hlen.trans hsends.len, hbuf.trans hsends.buf⟩
    · exact hencoded
  refine ⟨hencoded.1, hencoded.2, ?_, hresets.oneWay hsends.oneWay, fun hm => ?_⟩
  · rw [hresets.sendedLen]
    rcases Nat.eq_zero_or_pos (b.clientsPtr i).sendedLen with hzero | hpos
    · rw [← hzero]
      exact hsends.said
    · have hend : (b.clientsPtr i).sendedLen = request.length := by
        have hge : ¬ (b.clientsPtr i).sendedLen < (b.clientsPtr i).sendBufLen :=
          fun hlt => hnot ⟨hpos, hlt⟩
        rw [hsends.len] at hge
        omega
      exact (hend ▸ hsends.said).restart
  · exact absurd hresets.sendedLen (Nat.pos_iff_ne_zero.mp hm.1)

/-- **The other direction is watched**, where the request is not written in part. -/
theorem Requesting.swap (h : Requesting i b) (hmid : ¬ Midway (b.clientsPtr i))
    (hm : m = readable ∧ m' = writeable ∨ m = writeable ∧ m' = readable) :
    Requesting i (reactorAddEvent (reactorDelEvent b i m').2 i m func).2 := by
  have hswap := swap_rewires b i m m' func
  obtain ⟨mask, rFuncProc, wFuncProc, hclient⟩ := hswap.client
  intro o ho
  rw [hswap.held] at ho
  have hsends := h o ho
  rw [hclient]
  exact ⟨hsends.len, hsends.buf, hsends.said, swap_oneWay func hsends.oneWay hm,
    fun hm => absurd hm hmid⟩

/-- **`SendToServerCallback`**, where the kernel reports that the client can be written
to. -/
theorem Requesting.sendToServer (h : Requesting i b) {writes : List WriteOutcome}
    (hwatched : b.held i ≠ none → (b.watched i).epollout = true) :
    Requesting i (sendToServerCallback b i writes a) := by
  unfold sendToServerCallback
  extract_lets asking pclient timed touched b₁ _ b₂
  have hfd : timed.fd = pclient.fd := (apply_ite ClientFD.fd ..).trans (ite_self _)
  have hlen : timed.sendBufLen = pclient.sendBufLen :=
    (apply_ite ClientFD.sendBufLen ..).trans (ite_self _)
  have hbuf : timed.sendBuf = pclient.sendBuf := (apply_ite ClientFD.sendBuf ..).trans (ite_self _)
  have hsended : timed.sendedLen = pclient.sendedLen :=
    (apply_ite ClientFD.sendedLen ..).trans (ite_self _)
  have hasking : Requesting i asking := h.congr rfl rfl rfl rfl rfl
  have h₁ : Requesting i b₁ := hasking.touch hfd hlen hbuf hsended
  split
  · exact h₁
  · exact requesting_reconnect
  next n hbytes =>
  extract_lets b₃ sent b₄
  have hclient₁ : b₁.clientsPtr i = touched := setClient_self
  have hclient₄ : b₄.clientsPtr i = sent := setClient_self
  have hwatched₁ : b₁.watched i = b.watched i := by
    unfold watched
    rw [hclient₁]
    exact congrArg (fun fd => (b.epoll.fd fd).events) hfd
  have hwatched₄ : b₄.watched i = b.watched i := by
    unfold watched
    rw [hclient₄]
    exact congrArg (fun fd => (b.epoll.fd fd).events) hfd
  have h₄ : Requesting i b₄ := by
    intro o ho
    have ho : Function.update b₂.held i ((b₂.held i).map
      (fun o => { o with sent := o.sent ++ (touched.sendBuf.drop touched.sendedLen).take n })) i
      = some o := ho
    rw [Function.update_self] at ho
    obtain ⟨o₁, ho₁, rfl⟩ := Option.map_eq_some_iff.mp ho
    have hheld : b.held i ≠ none :=
      held_of_serve (b := asking.setClient i touched) (ne_of_eq_of_ne ho₁ (Option.some_ne_none o₁))
    have hsends := h₁ o₁ ho₁
    rw [hclient₁, hwatched₁] at hsends
    have hroom := clientWrite_bytes hbytes
    have hle := hsends.said.le
    have hlen := hsends.len
    rw [hclient₄, hwatched₄]
    refine ⟨hlen, hsends.buf, ?_, hsends.oneWay, fun _ => ?_⟩
    · show Said request (touched.sendedLen + n)
        (o₁.sent ++ (touched.sendBuf.drop touched.sendedLen).take n)
      rw [hsends.buf]
      exact hsends.said.extend (by omega)
    · -- it is written to, so it is not read from
      refine Bool.eq_false_iff.mpr (fun hin => ?_)
      have hout := hsends.oneWay hin
      rw [hwatched hheld] at hout
      exact absurd hout (by decide)
  split
  · next hend =>
    refine h₄.swap ?_ (Or.inl ⟨rfl, rfl⟩)
    rw [hclient₄]
    exact fun hmid => absurd hend (ne_of_lt hmid.2)
  · exact h₄

/-- **`RecvFromServerCallback`**, where the kernel reports that the client can be read
from. -/
theorem Requesting.recvFromServer (h : Requesting i b) {reads : List ReadOutcome}
    (hwatched : b.held i ≠ none → (b.watched i).epollin = true) :
    Requesting i (recvFromServerCallback b i reads a) := by
  unfold recvFromServerCallback
  extract_lets hearing touched pclient timed b₁
  have hfd : timed.fd = pclient.fd := (apply_ite ClientFD.fd ..).trans (ite_self _)
  have hlen : timed.sendBufLen = pclient.sendBufLen :=
    (apply_ite ClientFD.sendBufLen ..).trans (ite_self _)
  have hbuf : timed.sendBuf = pclient.sendBuf := (apply_ite ClientFD.sendBuf ..).trans (ite_self _)
  have hsended : timed.sendedLen = pclient.sendedLen :=
    (apply_ite ClientFD.sendedLen ..).trans (ite_self _)
  have hhearing : Requesting i hearing := h.congr rfl rfl rfl rfl rfl
  have h₁ : Requesting i b₁ := hhearing.touch hfd hlen hbuf hsended
  have hclient₁ : b₁.clientsPtr i = timed := setClient_self
  split
  · exact h₁
  · exact requesting_reconnect
  next n hbytes =>
  extract_lets received b₂ b₃
  have hclient₂ : b₂.clientsPtr i = received := setClient_self
  have h₂ : Requesting i b₂ := by
    refine h₁.congr ?_ ?_ ?_ ?_ rfl
    · rw [hclient₂, hclient₁]
    · rw [hclient₂, hclient₁]
    · rw [hclient₂, hclient₁]
    · unfold watched
      rw [hclient₂, hclient₁]
      rfl
  -- it is read from, so the request was written completely
  have hnot : b₂.held i ≠ none → ¬ Midway (b₂.clientsPtr i) := by
    intro hheld hmid
    obtain ⟨o, ho⟩ := Option.ne_none_iff_exists'.mp hheld
    have hunread := (h₂ o ho).unread hmid
    have hin := hwatched (held_of_serve (b := hearing.setClient i timed) hheld)
    have hsame : b₂.watched i = b.watched i := by
      unfold watched
      rw [hclient₂]
      exact congrArg (fun fd => (b.epoll.fd fd).events) hfd
    rw [hsame, hin] at hunread
    exact absurd hunread (by decide)
  have h₃ : Requesting i b₃ := by
    unfold b₃
    split
    · exact h₂.congr rfl rfl rfl rfl rfl
    · exact h₂
  have hnot₃ : b₃.held i ≠ none → ¬ Midway (b₃.clientsPtr i) := by
    unfold b₃
    split
    · exact hnot
    · exact hnot
  split
  · exact h₂.congr rfl rfl rfl rfl rfl
  -- the response is never refused, and always complete
  rw [if_neg (by decide), if_neg (by decide)]
  unfold reactorCloseConnectionNormal
  split
  · exact h₃.congr rfl rfl rfl rfl rfl
  split
  · exact h₃.reset hnot₃
  · exact requesting_reconnect

end Benchmark

open Benchmark

/-! ## Runs of a slot -/

/-- **The check for timeouts resets the client.** -/
def ClientFD.TimedOut (pclient : ClientFD) (curTime : ℕ) : Prop :=
  pclient.fd > 0 ∧ uint64 (pclient.touchTime + connectTimeout * 1000000) ≤ curTime

instance (pclient : ClientFD) (curTime : ℕ) : Decidable (pclient.TimedOut curTime) :=
  inferInstanceAs (Decidable (_ ∧ _))

theorem clearTimeoutClient_eq (curTime : ℕ) (b : Benchmark) (i : ℕ) :
    clearTimeoutClient curTime b i = if (b.clientsPtr i).TimedOut curTime then
      reactorResetClient { b with config := { b.config with
        timeoutClientNum := uint32 (b.config.timeoutClientNum + 1) } } i else b := rfl

/-- What happens to a slot: a client is opened while it has none, one of the two
callbacks is called, an error or a hang-up is reported, timeouts are checked, or
something is done that is not about its client. -/
inductive ClientOp where
  | create (a : ClientAttempt)
  | send (writes : List WriteOutcome) (a : ClientAttempt)
  | recv (reads : List ReadOutcome) (a : ClientAttempt)
  | hangup (a : ClientAttempt)
  | timeout (curTime : ℕ)
  | elsewhere (b' : Benchmark)

namespace ClientOp

/-- **One step.** -/
def step (i : ℕ) (b : Benchmark) : ClientOp → Option Benchmark
  | create a => some (reactorClientInit b a).2
  | send writes a => some (sendToServerCallback b i writes a)
  | recv reads a => some (recvFromServerCallback b i reads a)
  | hangup a => some (reconnect b i a)
  | timeout curTime => some (clearTimeoutClient curTime b i)
  | elsewhere b' => some b'

/-- **What can happen**: a callback is called if the kernel watches the client for that
direction, and what is done elsewhere leaves the client and its descriptor alone. -/
def Admits (i : ℕ) (b : Benchmark) : ClientOp → Prop
  | create _ => b.held i = none
  | send _ _ => (b.watched i).epollout = true
  | recv _ _ => (b.watched i).epollin = true
  | hangup _ => True
  | timeout _ => True
  | elsewhere b' => b'.clientsPtr i = b.clientsPtr i ∧ b'.held i = b.held i
      ∧ b'.epoll.fd (b.clientsPtr i).fd = b.epoll.fd (b.clientsPtr i).fd

instance (i : ℕ) (b : Benchmark) : ∀ op, Decidable (Admits i b op)
  | create _ => inferInstanceAs (Decidable (_ = _))
  | send _ _ => inferInstanceAs (Decidable (_ = _))
  | recv _ _ => inferInstanceAs (Decidable (_ = _))
  | hangup _ => inferInstanceAs (Decidable True)
  | timeout _ => inferInstanceAs (Decidable True)
  | elsewhere _ => inferInstanceAs (Decidable (_ ∧ _ ∧ _))

/-- **No timeout in the middle of a request.** -/
def Patient (i : ℕ) (b : Benchmark) : ClientOp → Prop
  | timeout curTime => b.held i ≠ none → Midway (b.clientsPtr i) →
      ¬ (b.clientsPtr i).TimedOut curTime
  | _ => True

instance (pclient : ClientFD) : Decidable (Midway pclient) := inferInstanceAs (Decidable (_ ∧ _))

instance (i : ℕ) (b : Benchmark) : ∀ op, Decidable (Patient i b op)
  | create _ => inferInstanceAs (Decidable True)
  | send _ _ => inferInstanceAs (Decidable True)
  | recv _ _ => inferInstanceAs (Decidable True)
  | hangup _ => inferInstanceAs (Decidable True)
  | timeout _ => inferInstanceAs (Decidable (_ → _ → ¬ _))
  | elsewhere _ => inferInstanceAs (Decidable True)

end ClientOp

namespace Benchmark

variable {b b' : Benchmark} {i : ℕ} {op : ClientOp}

/-- **The client sends whole requests**: what was written on its connection is a prefix
of the request repeated without end, and where the client begins a request, the one
before was written completely. -/
def WholeRequests (i : ℕ) (b : Benchmark) : Prop :=
  ∀ o, b.held i = some o → Repeats request o.sent
    ∧ ((b.clientsPtr i).sendedLen = 0 → Whole request o.sent)

theorem Requesting.wholeRequests (h : Requesting i b) : WholeRequests i b := by
  intro o ho
  have hsaid := (h o ho).said
  refine ⟨hsaid.repeats, fun hzero => ?_⟩
  rw [hzero] at hsaid
  exact hsaid.whole

/-- **A step without a timeout in the middle** keeps the place. -/
theorem Requesting.step (h : Requesting i b) (hadm : op.Admits i b) (hpatient : op.Patient i b)
    (hstep : op.step i b = some b') : Requesting i b' := by
  unfold ClientOp.step at hstep
  cases op with
  | create a => exact Option.some.inj hstep ▸ requesting_clientInit hadm
  | send writes a => exact Option.some.inj hstep ▸ h.sendToServer (fun _ => hadm)
  | recv reads a => exact Option.some.inj hstep ▸ h.recvFromServer (fun _ => hadm)
  | hangup a => exact Option.some.inj hstep ▸ requesting_reconnect
  | timeout curTime =>
    obtain rfl := Option.some.inj hstep
    rw [clearTimeoutClient_eq]
    split
    · next htimeout =>
      have hcounted : Requesting i { b with config := { b.config with
          timeoutClientNum := uint32 (b.config.timeoutClientNum + 1) } } :=
        h.congr rfl rfl rfl rfl rfl
      exact hcounted.reset (fun hheld hmid => hpatient hheld hmid htimeout)
    · exact h
  | elsewhere b₁ =>
    obtain rfl := Option.some.inj hstep
    obtain ⟨hclient, hheld, hkernel⟩ := hadm
    refine h.congr (by rw [hclient]) (by rw [hclient]) (by rw [hclient]) ?_ (by rw [hheld])
    unfold watched
    rw [hclient, hkernel]

/-- **A timeout in the middle** begins a request that the last one is not the end of. -/
theorem Requesting.impatient (h : Requesting i b) (hpatient : ¬ op.Patient i b) :
    ∃ b', op.step i b = some b' ∧ ¬ WholeRequests i b' := by
  cases op with
  | timeout curTime =>
    unfold ClientOp.Patient at hpatient
    push Not at hpatient
    obtain ⟨hheld, hmid, htimeout⟩ := hpatient
    obtain ⟨o, ho⟩ := Option.ne_none_iff_exists'.mp hheld
    refine ⟨_, rfl, fun hwhole => ?_⟩
    rw [clearTimeoutClient_eq, if_pos htimeout] at hwhole
    have hresets := reactorResetClient_resets { b with config := { b.config with
      timeoutClientNum := uint32 (b.config.timeoutClientNum + 1) } } i
    have hsends := h o ho
    refine hsends.said.not_whole hmid.1 (hsends.len ▸ hmid.2) ?_
    exact (hwhole o ((congrFun hresets.held i).trans ho)).2 hresets.sendedLen
  | _ => exact absurd trivial hpatient

/-- **A client sends whole requests, exactly if** no timeout comes in the middle of
one. Over any run of a slot that has no connection at first, on each of its
connections, whatever `epoll_ctl` does. -/
theorem client_requests_iff {ops : List ClientOp} (hnone : b.held i = none)
    (hadm : Run.Along (ClientOp.step i) (ClientOp.Admits i) b ops) :
    Run.Always (ClientOp.step i) (WholeRequests i) b ops
      ↔ Run.Along (ClientOp.step i) (ClientOp.Patient i) b ops :=
  Run.always_iff_along (P := Requesting i) (fun _ h => h.wholeRequests)
    (fun _ _ _ h hadm hpatient hstep => h.step hadm hpatient hstep)
    (fun _ _ h _ hpatient => h.impatient hpatient) (.of_none hnone) hadm

/-- Two requests, of which the first one takes two writes. -/
theorem client_requests_sample :
    Run.Always (ClientOp.step 1) (WholeRequests 1) (openingBenchmark .byRules)
      [.create (attempt true), .send [.data 100] (attempt true), .timeout 0,
        .send [.eintr, .data 1000] (attempt true), .recv [.data 10] (attempt true),
        .send [.data 1000] (attempt true)] :=
  (client_requests_iff rfl (by decide +kernel)).mpr (by decide +kernel)

/-- **Half a request, and another one.** The first byte is written, a timeout comes, and
the whole request is written on the same connection. -/
theorem client_requests_broken :
    ¬ ∀ (b : Benchmark) (i : ℕ) (ops : List ClientOp), b.held i = none →
      Run.Along (ClientOp.step i) (ClientOp.Admits i) b ops →
      Run.Always (ClientOp.step i)
        (fun b => ∀ o, b.held i = some o → Repeats request o.sent) b ops := by
  intro h
  set ops : List ClientOp := [.create (attempt true), .send [.data 1] (attempt true),
    .timeout 3000000, .send [.data 1000] (attempt true)]
  have halways := h (openingBenchmark .byRules) 1 ops rfl (by decide +kernel)
  obtain ⟨t, ht⟩ : ∃ t, Run.exec (ClientOp.step 1) (openingBenchmark .byRules) ops = some t :=
    ⟨_, rfl⟩
  have hsent : (Run.exec (ClientOp.step 1) (openingBenchmark .byRules) ops).bind
      (fun t => (t.held 1).map (fun o => o.sent.take 2)) = some [71, 71] := by
    decide +kernel
  rw [ht] at hsent
  obtain ⟨o, ho, htake⟩ := Option.map_eq_some_iff.mp hsent
  have hlong : 2 ≤ o.sent.length := by
    have hlength := congrArg List.length htake
    rw [List.length_take] at hlength
    exact min_eq_left_iff.mp hlength
  have hsame := (halways.exec ht o ho).take_eq hlong (by rw [length_request]; decide)
  rw [htake] at hsame
  exact absurd hsame (by decide +kernel)

end Benchmark
