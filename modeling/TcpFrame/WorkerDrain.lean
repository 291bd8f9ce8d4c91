import TcpFrame.WorkerDispatch
import TcpFrame.ConnSendRuns

/-!
# Draining the send buffer

What is queued on a connection reaches the socket in several writes, over
several send callbacks. A `Drain` is a worker that makes send callbacks for one
connection, with what has been written to the socket since the first of them.

Each byte is written once and in order: a call goes on where the last one
stopped, the one that writes the last byte stops asking for writable events, and
a failed write destroys the connection (`drain_always_exact_iff`). The
descriptor has to be another one than `0`, which `PynServerSendData` takes for
an error; no connection of a worker has that one, where its standard input or its
own log is open.
-/

open Block

/-! ## One callback -/

/-- Whether a `write` fails for good, where there are `left` bytes to be
written. -/
def failsWithin : (left : ℕ) → List WriteOutcome → Bool
  | _, [] => false
  | left, outcome :: outcomes =>
    decide (0 < left) && match outcome with
      | .data k => failsWithin (left - k) outcomes
      | .eagain => false
      | .eintr => failsWithin left outcomes
      | .error => true

/-- **Whether a `write` of a send callback fails for good.** None is made on the
descriptor `0`. -/
def ConnFd.writeFails (conn : ConnFd) (outcomes : List WriteOutcome) : Bool :=
  decide (0 < conn.iFd) && failsWithin (conn.iSendPacketLen - conn.iSendCurLen).toNat outcomes

variable {conn : ConnFd} {outcomes : List WriteOutcome}

/-- **The write loop** returns `-1` exactly if a `write` fails for good, and how
much it has written otherwise. -/
theorem sendLoop_eq (outcomes : List WriteOutcome) {n sent : ℕ} (hsent : sent ≤ n) :
    (sendLoop n outcomes sent).1
      = if failsWithin (n - sent) outcomes then -1 else ((sendLoop n outcomes sent).2 : ℤ) := by
  induction outcomes generalizing sent with
  | nil => rfl
  | cons outcome outcomes ih =>
    unfold sendLoop failsWithin
    by_cases hmore : sent < n
    · rw [if_pos hmore, decide_eq_true (show 0 < n - sent by omega), Bool.true_and]
      cases outcome with
      | data k =>
        rw [ih (by omega),
          show n - (sent + min k (n - sent)) = n - sent - k by omega]
      | eagain => rfl
      | eintr => exact ih hsent
      | error => rfl
    · rw [if_neg hmore, decide_eq_false (show ¬ 0 < n - sent by omega), Bool.false_and]
      rfl

/-- **A send callback** writes the next `k` bytes. It destroys the connection if
a `write` fails, and stops asking for writable events if these were the last
ones. -/
theorem processSendCallback_eq (conn : ConnFd) (hfd : 0 < conn.iFd)
    (hle : conn.iSendCurLen < conn.iSendPacketLen) (hpos : 0 < conn.iSendPacketLen) :
    ∃ k : ℕ, conn.iSendCurLen + k ≤ conn.iSendPacketLen
      ∧ processSendCallback conn conn.iFd outcomes
        = if conn.writeFails outcomes then
            ⟨conn, [.destroyConn], conn.pszSendBuf.slice conn.iSendCurLen k⟩
          else if conn.iSendPacketLen = conn.iSendCurLen + k then
            ⟨{ conn with iSendPacketLen := 0, iSendCurLen := 0 }, [.eventDel eventWritable],
              conn.pszSendBuf.slice conn.iSendCurLen k⟩
          else
            ⟨{ conn with iSendCurLen := conn.iSendCurLen + k }, [],
              conn.pszSendBuf.slice conn.iSendCurLen k⟩ := by
  have hk := (sendLoop_spec outcomes
    (n := (conn.iSendPacketLen - conn.iSendCurLen).toNat) (Nat.zero_le _)).1
  have hret := sendLoop_eq outcomes
    (n := (conn.iSendPacketLen - conn.iSendCurLen).toNat) (Nat.zero_le _)
  unfold processSendCallback pynServerSendData ConnFd.writeFails
  rw [if_neg (by omega), if_neg (by omega), if_neg (by omega), decide_eq_true hfd, Bool.true_and]
  rw [Nat.sub_zero] at hret
  generalize sendLoop (conn.iSendPacketLen - conn.iSendCurLen).toNat outcomes 0 = r at hk hret
  obtain ⟨iRet, k⟩ := r
  dsimp only at hk hret ⊢
  refine ⟨k, by omega, ?_⟩
  by_cases hfails : failsWithin (conn.iSendPacketLen - conn.iSendCurLen).toNat outcomes
  · rw [if_pos hfails] at hret ⊢
    rw [if_pos (by omega)]
  · rw [if_neg hfails] at hret ⊢
    rw [if_neg (by omega), hret]

/-- A send callback with nothing queued does nothing. -/
theorem processSendCallback_idle {t_iFd : ℤ} (h : conn.iSendPacketLen ≤ 0) :
    processSendCallback conn t_iFd outcomes = ⟨conn, [], []⟩ := by
  unfold processSendCallback
  rw [if_pos h, ite_self]

/-- A send callback with the descriptor `0` destroys the connection without a
write. -/
theorem processSendCallback_zero (hfd : conn.iFd = 0) (hpos : 0 < conn.iSendPacketLen) :
    processSendCallback conn conn.iFd outcomes = ⟨conn, [.destroyConn], []⟩ := by
  unfold processSendCallback pynServerSendData
  rw [if_neg (by omega), if_neg (by omega), if_pos (Or.inl hfd.le)]
  rfl

/-! ## Runs -/

/-- A worker that makes send callbacks for one connection. -/
structure Drain where
  worker : Worker
  /-- What has been written to the socket. -/
  tx : List UInt8
  /-- Whether a `write` has failed for good. -/
  failed : Bool

namespace Drain

/-- A send callback of the connection at `c`, if it is still there. -/
def step (c : ConnPtr) (s : Drain) (input : EventInput) : Option Drain :=
  match s.worker.conns c with
  | none => none
  | some conn =>
    if s.worker.fate = .running then
      some
        { worker := eventCallback s.worker input conn.iFd (some c) .processSendCallback
          tx := s.tx ++ (processSendCallback conn conn.iFd input.writes).tx
          failed := s.failed || conn.writeFails input.writes }
    else none

variable {c : ConnPtr} {w : Worker} {s s' : Drain} {input : EventInput} {k : ℕ}

/-- **Bytes are left**: the first `k` of those that were unsent in `conn` have
been written, and writable events are still asked for. -/
structure Draining (c : ConnPtr) (conn : ConnFd) (w : Worker) (k : ℕ) (s : Drain) : Prop where
  more : conn.iSendCurLen + k < conn.iSendPacketLen
  live : s.worker.conns c = some { conn with iSendCurLen := conn.iSendCurLen + k }
  tx : s.tx = conn.unsent.take k
  failed : s.failed = false
  slot : s.worker.table.slot conn.iFd = w.table.slot conn.iFd
  kernel : s.worker.table.epoll.fd conn.iFd = w.table.epoll.fd conn.iFd
  writable : (s.worker.table.slot conn.iFd).iMask &&& eventWritable ≠ 0

/-- **All bytes have been written**: both counters are `0`, and writable events
are no longer asked for, while readable ones are as before. -/
structure Drained (c : ConnPtr) (conn : ConnFd) (w : Worker) (s : Drain) : Prop where
  live : s.worker.conns c = some { conn with iSendPacketLen := 0, iSendCurLen := 0 }
  tx : s.tx = conn.unsent
  failed : s.failed = false
  writable : (s.worker.table.slot conn.iFd).iMask &&& eventWritable = 0
  readable : (s.worker.table.slot conn.iFd).iMask &&& eventReadable
    = (w.table.slot conn.iFd).iMask &&& eventReadable
  kernel : s.worker.table.epoll.fd conn.iFd
    = (w.table.epoll.fd conn.iFd).without eventWritable

/-- **The connection is destroyed**, and a `write` had failed after the first `k`
bytes. -/
structure Destroyed (c : ConnPtr) (conn : ConnFd) (k : ℕ) (s : Drain) : Prop where
  within : conn.iSendCurLen + k ≤ conn.iSendPacketLen
  dead : s.worker.conns c = none
  tx : s.tx = conn.unsent.take k
  failed : s.failed = true

/-- **Each unsent byte of `conn` is written once and in order**, whatever has
become of the connection. -/
def Exact (c : ConnPtr) (conn : ConnFd) (w : Worker) (s : Drain) : Prop :=
  (∃ k, Draining c conn w k s) ∨ Drained c conn w s ∨ ∃ k, Destroyed c conn k s

/-! ## Steps -/

/-- The first unsent bytes. -/
theorem take_unsent (h : conn.iSendCurLen + k ≤ conn.iSendPacketLen) :
    conn.unsent.take k = conn.pszSendBuf.slice conn.iSendCurLen k :=
  take_slice (by omega)

/-- What is written next follows what was written before. -/
theorem take_unsent_add {k' : ℕ} (h : conn.iSendCurLen + k + k' ≤ conn.iSendPacketLen) :
    conn.unsent.take k ++ conn.pszSendBuf.slice (conn.iSendCurLen + k) k'
      = conn.unsent.take (k + k') := by
  rw [take_unsent (by omega), take_unsent (by omega), slice_add]

/-- A callback that leaves its connection its descriptor leaves all in range. -/
theorem granted_update (h : w.Granted) (conn' : ConnFd) (hc : w.conns c = some conn)
    (hfd : conn'.iFd = conn.iFd) :
    Worker.Granted { w with conns := Function.update w.conns c (some conn') } where
  answer := h.answer
  range d e he := by
    obtain ⟨-, rfl⟩ | ⟨-, hd⟩ := PartialMap.update_some_eq_some.mp he
    · rw [hfd]
      exact h.range c conn hc
    · exact h.range d e hd

/-- So does a table in which only one slot is another. -/
theorem granted_table {table : EventTable} {fd : ℤ} (h : w.Granted)
    (hsame : w.table.SameBut fd table) : Worker.Granted { w with table := table } where
  answer n := (congrFun hsame.answer n).trans (h.answer n)
  range d e he := (h.range d e he).trans hsame.size.ge

/-- **A send callback of the worker**: the callback itself, and then its calls. -/
theorem step_eq (hc : s.worker.conns c = some conn) (hrun : s.worker.fate = .running) :
    step c s input = some
      { worker := (processSendCallback conn conn.iFd input.writes).calls.foldl
          (reactorCall c input.realloc) { s.worker with
            conns := Function.update s.worker.conns c
              (some (processSendCallback conn conn.iFd input.writes).conn) }
        tx := s.tx ++ (processSendCallback conn conn.iFd input.writes).tx
        failed := s.failed || conn.writeFails input.writes } := by
  unfold step eventCallback
  rw [hc]
  dsimp only
  rw [if_pos hrun, hc]

/-- **The reactor still runs**, and `epoll_ctl` still succeeds. -/
structure Going (s : Drain) : Prop where
  running : s.worker.fate = .running
  granted : s.worker.Granted

/-- **A callback that destroys the connection.** -/
theorem Going.destroyed (h : s.Going) (hc : s.worker.conns c = some conn) :
    Worker.conns (destroyConn s.worker c) c = none
      ∧ (destroyConn s.worker c).fate = .running ∧ (destroyConn s.worker c).Granted := by
  obtain ⟨hfate, hgranted⟩ := Worker.destroyConn_granted h.granted hc
  rw [h.running] at hfate
  refine ⟨?_, hfate, hgranted⟩
  obtain ⟨iClientCount, table, ⟨-, hexit⟩ | ⟨table', -, -, hdestroy⟩⟩ :=
    Worker.destroyConn_spec hc
  · rw [hexit] at hfate
    exact absurd hfate (by simp)
  · rw [hdestroy]
    exact Function.update_self ..

/-- **A callback with bytes left** writes some more, or all, or fails. -/
theorem Draining.step (h : Draining c conn w k s) (hgoing : s.Going) (hfd : 0 < conn.iFd)
    (hcur : 0 ≤ conn.iSendCurLen)
    (htracks : (w.table.slot conn.iFd).Tracks (w.table.epoll.fd conn.iFd))
    (hstep : Drain.step c s input = some s') : s'.Going ∧ Exact c conn w s' := by
  have hmore := h.more
  have hrange := hgoing.granted.range c _ h.live
  obtain ⟨k', hk', heq⟩ := processSendCallback_eq
    { conn with iSendCurLen := conn.iSendCurLen + k } hfd hmore
    (show 0 < conn.iSendPacketLen by omega)
  have hk : conn.iSendCurLen + k + k' ≤ conn.iSendPacketLen := hk'
  have htx := take_unsent_add hk
  rw [step_eq h.live hgoing.running, heq] at hstep
  split at hstep
  · -- a write fails
    next hfails =>
    obtain rfl := Option.some.inj hstep
    dsimp only [List.foldl_cons, List.foldl_nil]
    rw [show Function.update s.worker.conns c _ = s.worker.conns from
        Function.update_eq_self_iff.mpr h.live.symm, hfails, Bool.or_true, h.tx, htx,
      reactorCall_live hgoing.running h.live]
    obtain ⟨hdead, hrun, hgranted⟩ := hgoing.destroyed h.live
    exact ⟨⟨hrun, hgranted⟩, Or.inr (Or.inr ⟨k + k', by push_cast; omega, hdead, rfl, rfl⟩)⟩
  · next hok =>
    rw [Bool.eq_false_iff.mpr hok, h.failed] at hstep
    split at hstep
    · -- the last byte is written
      next hall =>
      have hall' : conn.iSendPacketLen = conn.iSendCurLen + k + k' := hall
      obtain rfl := Option.some.inj hstep
      obtain ⟨table, hdel, hsame, hslot⟩ := eventDel_granted
        (m := eventWritable) hgoing.granted.answer hrange
      have hkernel := eventDel_granted_kernel (m := eventWritable)
        hgoing.granted.answer hrange (by rw [h.slot, h.kernel]; exact htracks)
      have hgranted := granted_table (granted_update hgoing.granted
        { conn with iSendPacketLen := 0, iSendCurLen := 0 } h.live rfl) hsame
      dsimp only [List.foldl_cons, List.foldl_nil]
      rw [reactorCall_live (w := { s.worker with conns := Function.update s.worker.conns c _ })
        hgoing.running (Function.update_self ..)]
      unfold Worker.serve
      dsimp only
      rw [hdel] at hkernel ⊢
      refine ⟨⟨hgoing.running, hgranted⟩,
        Or.inr (Or.inl ⟨Function.update_self .., ?_, rfl, ?_, ?_, ?_⟩)⟩
      · show s.tx ++ _ = conn.unsent
        rw [h.tx, htx, List.take_of_length_le]
        unfold ConnFd.unsent
        rw [length_slice]
        omega
      · show (table.slot conn.iFd).iMask &&& eventWritable = 0
        rw [hslot]
        show ((s.worker.table.slot conn.iFd).iMask &&& ~~~eventWritable) &&& eventWritable = 0
        rw [BitVec.and_assoc, show ~~~eventWritable &&& eventWritable = 0#32 by decide,
          BitVec.and_zero]
        rfl
      · show (table.slot conn.iFd).iMask &&& eventReadable = _
        rw [hslot]
        show ((s.worker.table.slot conn.iFd).iMask &&& ~~~eventWritable) &&& eventReadable = _
        rw [h.slot, BitVec.and_assoc, show ~~~eventWritable &&& eventReadable = eventReadable
          by decide]
      · exact hkernel.trans (by rw [h.kernel])
    · -- bytes are left
      next hsome =>
      have hlt : conn.iSendCurLen + k + k' < conn.iSendPacketLen :=
        lt_of_le_of_ne hk (Ne.symm hsome)
      obtain rfl := Option.some.inj hstep
      refine ⟨⟨hgoing.running, granted_update hgoing.granted _ h.live rfl⟩,
        Or.inl ⟨k + k', ⟨by push_cast; omega, ?_, ?_, rfl, h.slot, h.kernel, h.writable⟩⟩⟩
      · show Function.update s.worker.conns c _ c = _
        rw [Function.update_self, Nat.cast_add, ← add_assoc]
      · show s.tx ++ _ = _
        rw [h.tx, htx]

/-- **A callback with nothing left** changes nothing. -/
theorem Drained.step (h : Drained c conn w s) (hgoing : s.Going)
    (hstep : Drain.step c s input = some s') : s' = s := by
  rw [step_eq h.live hgoing.running, processSendCallback_idle le_rfl] at hstep
  obtain rfl := Option.some.inj hstep
  have hfails : ConnFd.writeFails { conn with iSendPacketLen := 0, iSendCurLen := 0 }
      input.writes = false := by
    unfold ConnFd.writeFails
    cases input.writes with
    | nil => exact Bool.and_false _
    | cons outcome outcomes => exact Bool.and_false _
  rw [hfails, Bool.or_false, List.append_nil]
  show Drain.mk { s.worker with conns := Function.update s.worker.conns c _ } _ _ = s
  rw [Function.update_eq_self_iff.mpr h.live.symm]

end Drain

/-- What the callbacks of an event find where there is only something to write. -/
def EventInput.writing (writes : List WriteOutcome) : EventInput where
  accept := .eagain
  rx := []
  head := []
  body := []
  malloc := zeroMalloc
  realloc := true
  writes := writes

variable {c : ConnPtr} {w : Worker}

/-- **On the descriptor `0`** the first callback destroys the connection, without
a write that failed. -/
theorem Drain.not_exact_zero {input : EventInput} (hgoing : Drain.Going ⟨w, [], false⟩)
    (hc : w.conns c = some conn) (hfd : conn.iFd = 0) (hpos : 0 < conn.iSendPacketLen) :
    ∃ s, Drain.step c ⟨w, [], false⟩ input = some s ∧ ¬ Drain.Exact c conn w s := by
  refine ⟨_, Drain.step_eq hc hgoing.running, ?_⟩
  rw [processSendCallback_zero hfd hpos]
  dsimp only [List.foldl_cons, List.foldl_nil]
  rw [show Function.update w.conns c (some conn) = w.conns from
    Function.update_eq_self_iff.mpr hc.symm, reactorCall_live hgoing.running hc]
  have hdead : Worker.conns (destroyConn w c) c = none := (hgoing.destroyed hc).1
  rintro (⟨k, h⟩ | h | ⟨k, h⟩)
  · exact absurd (hdead.symm.trans h.live) (by simp)
  · exact absurd (hdead.symm.trans h.live) (by simp)
  · have hnone : conn.writeFails input.writes = false := by
      unfold ConnFd.writeFails
      rw [decide_eq_false (by omega), Bool.false_and]
    have hfailed := h.failed
    dsimp only at hfailed
    rw [hnone] at hfailed
    exact absurd hfailed (by decide)

/-- **Draining writes each byte once, on every descriptor above `0`**, and on `0` it does
not. Whatever
`write` does in any number of send callbacks, the bytes written are the unsent
ones in order; while some are left, writable events are asked for; the callback
that writes the last one resets the counters and gives up writable events, not
readable ones; and the connection is destroyed exactly when a `write` fails,
after which nothing is written. -/
theorem drain_always_exact_iff (hrun : w.fate = .running) (hgranted : w.Granted)
    (hc : w.conns c = some conn) (hfd : 0 ≤ conn.iFd) (hcur : 0 ≤ conn.iSendCurLen)
    (hmore : conn.iSendCurLen < conn.iSendPacketLen)
    (hwritable : (w.table.slot conn.iFd).iMask &&& eventWritable ≠ 0)
    (htracks : (w.table.slot conn.iFd).Tracks (w.table.epoll.fd conn.iFd)) :
    (∀ inputs, Run.Always (Drain.step c) (Drain.Exact c conn w) ⟨w, [], false⟩ inputs)
      ↔ conn.iFd ≠ 0 := by
  have hgoing : Drain.Going ⟨w, [], false⟩ := ⟨hrun, hgranted⟩
  constructor
  · intro halways hzero
    obtain ⟨s, hstep, hnot⟩ :=
      Drain.not_exact_zero hgoing hc hzero (hcur.trans_lt hmore)
    exact hnot ((halways [.writing []]).2 s hstep)
  · intro hne inputs
    have hpos : 0 < conn.iFd := lt_of_le_of_ne hfd (Ne.symm hne)
    have hfirst : Drain.Draining c conn w 0 ⟨w, [], false⟩ :=
      { more := by rwa [Nat.cast_zero, add_zero]
        live := by rwa [Nat.cast_zero, add_zero]
        tx := rfl
        failed := rfl
        slot := rfl
        kernel := rfl
        writable := hwritable }
    refine (Run.always_of_along (P := fun s => s.Going ∧ Drain.Exact c conn w s)
      (G := fun _ _ => True) ?_ ⟨hgoing, Or.inl ⟨0, hfirst⟩⟩ (Run.along_true _ _)).mono
      (fun _ h => h.2)
    rintro s input s' ⟨hgoing, ⟨k, h⟩ | h | ⟨k, h⟩⟩ - hstep
    · exact h.step hgoing hpos hcur htracks hstep
    · obtain rfl := h.step hgoing hstep
      exact ⟨hgoing, Or.inr (Or.inl h)⟩
    · -- nothing is called any more
      unfold Drain.step at hstep
      rw [h.dead] at hstep
      exact absurd hstep (by simp)

/-- A connection on `iFd` with three bytes to be sent. -/
def drainingConn (iFd : ℤ) : ConnFd :=
  { ConnFd.create iFd 1 (fun _ => 0) (fun k => UInt8.ofNat k.toNat) 0 with iSendPacketLen := 3 }

/-- Its worker. -/
def drainingWorker (iFd : ℤ) : Worker :=
  let table := { grantedWorker.table with epoll := grantedWorker.table.epoll.accept iFd }
  let table := (eventAdd table iFd eventReadable (some .processRecvCallback) (some 1)).2
  let table := (eventAdd table iFd eventWritable (some .processSendCallback) (some 1)).2
  { grantedWorker with
    table := table
    conns := fun c => if c = 1 then some (drainingConn iFd) else none }

theorem drainingWorker_granted : (drainingWorker 5).Granted := by
  have hanswer : ∀ n, (drainingWorker 5).table.epoll.answer n = .granted := fun _ => rfl
  refine ⟨hanswer, fun d e he => ?_⟩
  have he' : (if d = 1 then some (drainingConn 5) else none) = some e := he
  split at he'
  · rw [← Option.some.inj he']
    decide +kernel
  · exact absurd he' (by simp)

theorem drainingWorker_tracks :
    ((drainingWorker 5).table.slot 5).Tracks ((drainingWorker 5).table.epoll.fd 5) :=
  ⟨by decide +kernel, fun _ => by decide +kernel, fun _ => by decide +kernel,
    fun _ => by decide +kernel⟩

/-- Three bytes in two callbacks, and a third callback after that. -/
theorem drain_always_exact_sample :
    Run.Always (Drain.step 1) (Drain.Exact 1 (drainingConn 5) (drainingWorker 5))
      ⟨drainingWorker 5, [], false⟩
      [.writing [.data 1, .eagain], .writing [.eintr, .data 5], .writing [.error]] :=
  (drain_always_exact_iff (by decide +kernel)
    drainingWorker_granted rfl (by decide) (by decide) (by decide)
    (by decide +kernel) drainingWorker_tracks).mpr (by decide) _
