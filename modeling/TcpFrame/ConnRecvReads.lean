import TcpFrame.ConnRecvRuns

/-!
# Where the receive callback reads to

The calls to `read` of one receive callback, with the place in the receive
buffer they are given, and the call to `ResizeRecvBufferPtr` with its doubling
loop. The length that sizes the buffer is announced by the peer;
`receiver_always_inside` says that no stream and no outcome of `read` makes a
read leave the buffer, or the loop run on or leave the range of `int`.

The trace is written along the branches of `processRecvCallback`.
`processRecvCallbackTrace_callback` says that it is one of this function: the
reads take what it takes off the stream, and it goes on from the call to
`ResizeRecvBufferPtr` that is in the trace.
-/

open Block

variable {conn : ConnFd} {p rx got : List UInt8} {need : ℕ} {outcomes : List ReadOutcome}

/-! ## The reads of one callback -/

/-- A call to `read` in the loop of `PynServerRecvData`: how many bytes are there
before, how many it asks for, and those it takes. -/
structure LoopRead where
  got : ℕ
  need : ℕ
  taken : List UInt8
  deriving DecidableEq, Repr

/-- The calls to `read` in the loop of `PynServerRecvData`. A loop that has taken what is
there and needs more goes on to a read that finds nothing. -/
def recvLoopReads (t_iNeed : ℕ) : List ReadOutcome → (got rx : List UInt8) → List LoopRead
  | [], got, rx =>
    if got.length < t_iNeed then
      let n := min (t_iNeed - got.length) rx.length
      ⟨got.length, t_iNeed - got.length, rx.take n⟩ ::
        if 0 < n ∧ got.length + n < t_iNeed then
          [⟨got.length + n, t_iNeed - (got.length + n), []⟩]
        else []
    else []
  | outcome :: outcomes, got, rx =>
    if got.length < t_iNeed then
      match outcome with
      | .data k =>
        let n := min k (min (t_iNeed - got.length) rx.length)
        ⟨got.length, t_iNeed - got.length, rx.take n⟩ ::
          if n = 0 then [] else recvLoopReads t_iNeed outcomes (got ++ rx.take n) (rx.drop n)
      | .eintr =>
        ⟨got.length, t_iNeed - got.length, []⟩ :: recvLoopReads t_iNeed outcomes got rx
      | .eagain => [⟨got.length, t_iNeed - got.length, []⟩]
      | .eof => [⟨got.length, t_iNeed - got.length, []⟩]
      | .error => [⟨got.length, t_iNeed - got.length, []⟩]
    else []

/-- A call to `read` on a connection: where in `pszRecvBuf` it begins, how many
bytes it asks for and which it takes, and what the buffer is at that time. -/
structure RecvRead where
  off : ℤ
  len : ℤ
  taken : List UInt8
  size : ℤ
  iRecvTotalLen : ℤ
  deriving DecidableEq, Repr

/-- The reads of one `PynServerRecvData` behind what was received. -/
def recvReads (conn : ConnFd) (iNeedRecvLen : ℤ) (outcomes : List ReadOutcome)
    (rx : List UInt8) : List RecvRead :=
  if conn.iFd < 0 then []
  else
    (recvLoopReads iNeedRecvLen.toNat outcomes [] rx).map fun r =>
      ⟨conn.iRecvCurLen + r.got, r.need, r.taken, conn.pszRecvBuf.size, conn.iRecvTotalLen⟩

/-- What a receive callback does with its buffer: the reads, and the connection
and the length `ResizeRecvBufferPtr` is given, if it is called. -/
structure RecvTrace where
  reads : List RecvRead
  resize : Option (ConnFd × ℤ)

/-- The reads of the second part of `ProcessRecvCallback`. -/
def recvBodyReads (conn : ConnFd) (outcomes : List ReadOutcome) (rx : List UInt8) :
    List RecvRead :=
  if conn.iPacketLen ≤ 0 then []
  else
    let iRemainLen := conn.iPacketLen - conn.iRecvCurLen
    recvReads conn (if iRemainLen > 4096 then 4096 else iRemainLen) outcomes rx

/-- What `ProcessRecvCallback` does with the buffer, along the branches of
`processRecvCallback`. -/
def processRecvCallbackTrace (conn : ConnFd) (t_iFd : ℤ) (malloc : Malloc)
    (head body : List ReadOutcome) (rx : List UInt8) : RecvTrace :=
  if t_iFd < 0 then ⟨[], none⟩
  else if conn.iRecvCurLen < packetHeadLen then
    let reads := recvReads conn (packetHeadLen - conn.iRecvCurLen) head rx
    let (iRet, pszRecvBuf, rx) := pynServerRecvData conn.iFd conn.pszRecvBuf conn.iRecvCurLen
      (packetHeadLen - conn.iRecvCurLen) head rx
    let conn := { conn with pszRecvBuf := pszRecvBuf }
    if iRet ≤ 0 then ⟨reads, none⟩
    else
      let conn := { conn with iRecvCurLen := conn.iRecvCurLen + iRet }
      if conn.iRecvCurLen < packetHeadLen then ⟨reads, none⟩
      else
        match recvHead conn.pszRecvBuf with
        | none => ⟨reads, none⟩
        | some iPacketLen =>
          let conn := { conn with iPacketLen := iPacketLen }
          match resizeRecvBufferPtr conn (iPacketLen - packetHeadLen) malloc.pszRecvBuf with
          | some (some _, conn') =>
            ⟨reads ++ recvBodyReads conn' body rx, some (conn, iPacketLen - packetHeadLen)⟩
          | _ => ⟨reads, some (conn, iPacketLen - packetHeadLen)⟩
  else ⟨recvBodyReads conn body rx, none⟩

/-! ## The trace is one of the callback -/

/-- **The reads of the loop take what the loop takes.** -/
theorem recvLoopReads_taken :
    got ++ (recvLoopReads need outcomes got rx).flatMap LoopRead.taken
        = (recvLoop need outcomes got rx).got
      ∧ (recvLoopReads need outcomes got rx).flatMap LoopRead.taken
          ++ (recvLoop need outcomes got rx).rx = rx := by
  induction outcomes generalizing got rx with
  | nil =>
    unfold recvLoopReads recvLoop
    by_cases hmore : got.length < need
    · have hlast : ∀ c : Prop, ∀ _ : Decidable c, ∀ n m : ℕ,
          (if c then [(⟨n, m, []⟩ : LoopRead)] else []).flatMap LoopRead.taken = [] := by
        intro c _ n m
        split <;> rfl
      rw [if_pos hmore, List.flatMap_cons, hlast, List.append_nil]
      dsimp only
      rw [← List.take_eq_take_min]
      exact ⟨rfl, List.take_append_drop _ _⟩
    · rw [if_neg hmore, Nat.sub_eq_zero_of_le (not_lt.mp hmore)]
      exact ⟨rfl, rfl⟩
  | cons outcome outcomes ih =>
    unfold recvLoopReads recvLoop
    by_cases hmore : got.length < need
    · rw [if_pos hmore, if_pos hmore]
      cases outcome with
      | data k =>
        dsimp only
        generalize min k (min (need - got.length) rx.length) = n
        by_cases hnone : n = 0
        · rw [if_pos hnone, if_pos hnone, hnone]
          exact ⟨List.append_nil _, rfl⟩
        · rw [if_neg hnone, if_neg hnone, List.flatMap_cons]
          obtain ⟨hgot, hrx⟩ := @ih (rx.drop n) (got ++ rx.take n)
          dsimp only
          rw [← List.append_assoc, hgot, List.append_assoc, hrx]
          exact ⟨rfl, List.take_append_drop _ _⟩
      | eintr => exact ih
      | eagain => exact ⟨List.append_nil _, rfl⟩
      | eof => exact ⟨List.append_nil _, rfl⟩
      | error => exact ⟨List.append_nil _, rfl⟩
    · rw [if_neg hmore, if_neg hmore]
      exact ⟨List.append_nil _, rfl⟩

/-- The reads of one `PynServerRecvData` take what it takes off the stream. -/
theorem recvReads_taken (conn : ConnFd) (b : Block) (off iNeed : ℤ)
    (outcomes : List ReadOutcome) (rx : List UInt8) :
    (recvReads conn iNeed outcomes rx).flatMap RecvRead.taken
      ++ (pynServerRecvData conn.iFd b off iNeed outcomes rx).2.2 = rx := by
  unfold recvReads pynServerRecvData
  by_cases hfd : conn.iFd < 0
  · rw [if_pos hfd, if_pos hfd]
    rfl
  rw [if_neg hfd, if_neg hfd, List.flatMap_map]
  by_cases hneed : iNeed ≤ 0
  · have hnone : recvLoopReads iNeed.toNat outcomes [] rx = [] := by
      rw [Int.toNat_of_nonpos hneed]
      cases outcomes <;> exact if_neg (Nat.not_lt_zero _)
    rw [if_pos hneed, hnone]
    rfl
  · rw [if_neg hneed]
    exact recvLoopReads_taken.2

/-- The reads of the second part take what it takes off the stream. -/
theorem recvBodyReads_taken (conn : ConnFd) (malloc : Malloc) (outcomes : List ReadOutcome)
    (rx : List UInt8) :
    (recvBodyReads conn outcomes rx).flatMap RecvRead.taken
      ++ (recvBody conn malloc outcomes rx).rx = rx := by
  unfold recvBodyReads recvBody
  by_cases hlen : conn.iPacketLen ≤ 0
  · rw [if_pos hlen, if_pos hlen]
    rfl
  rw [if_neg hlen, if_neg hlen]
  dsimp only
  generalize (if conn.iPacketLen - conn.iRecvCurLen > 4096 then 4096
    else conn.iPacketLen - conn.iRecvCurLen) = iNeed
  have htaken := recvReads_taken conn conn.pszRecvBuf conn.iRecvCurLen iNeed outcomes rx
  generalize pynServerRecvData conn.iFd conn.pszRecvBuf conn.iRecvCurLen iNeed outcomes rx = r
    at htaken
  obtain ⟨iRet, b, rx'⟩ := r
  refine Eq.trans (congrArg _ ?_) htaken
  dsimp only
  split
  · rfl
  split
  · rfl
  · cases processEntirePacket _ malloc with
    | none => rfl
    | some r => rfl

/-- How `ProcessRecvCallback` goes on from what `ResizeRecvBufferPtr` returns. -/
def recvResized (conn : ConnFd) (malloc : Malloc) (body : List ReadOutcome) (rx : List UInt8) :
    Option (Option ℤ × ConnFd) → RecvResult
  | none => ⟨conn, [], none, rx, false⟩
  | some (none, conn) => .destroyed conn rx
  | some (some _, conn) => recvBody conn malloc body rx

/-- **A trace is one of a receive callback** that gives `r`: the reads take the bytes that
the callback takes off the stream; where there is a call to `ResizeRecvBufferPtr`, the
callback goes on from what this returns; and where there is none, it does not matter to
the callback whether there is memory for a buffer. -/
structure RecvTrace.Of (t : RecvTrace) (callback : Malloc → RecvResult) (malloc : Malloc)
    (body : List ReadOutcome) (rx : List UInt8) : Prop where
  taken : t.reads.flatMap RecvRead.taken ++ (callback malloc).rx = rx
  resized : ∀ c iNeed, t.resize = some (c, iNeed) → ∃ rx',
    callback malloc
      = recvResized c malloc body rx' (resizeRecvBufferPtr c iNeed malloc.pszRecvBuf)
  unresized : t.resize = none → ∀ mem,
    callback { malloc with pszRecvBuf := mem } = callback malloc

/-- The trace of a callback that comes to an end without the call. -/
theorem RecvTrace.Of.of_none {reads : List RecvRead} {r : RecvResult} {malloc : Malloc}
    {body : List ReadOutcome} (htaken : reads.flatMap RecvRead.taken ++ r.rx = rx) :
    RecvTrace.Of ⟨reads, none⟩ (fun _ => r) malloc body rx :=
  ⟨htaken, fun c iNeed hsome => absurd hsome (by simp), fun _ _ => rfl⟩

/-- The trace of a callback that makes the call. -/
theorem RecvTrace.Of.of_resize {reads : List RecvRead} {c : ConnFd} {iNeed : ℤ}
    {malloc : Malloc} {body : List ReadOutcome} {rx' : List UInt8}
    (htaken : reads.flatMap RecvRead.taken ++ (recvResized c malloc body rx'
      (resizeRecvBufferPtr c iNeed malloc.pszRecvBuf)).rx = rx) :
    RecvTrace.Of ⟨reads, some (c, iNeed)⟩ (fun malloc => recvResized c malloc body rx'
      (resizeRecvBufferPtr c iNeed malloc.pszRecvBuf)) malloc body rx := by
  refine ⟨htaken, fun c' iNeed' hsome => ⟨rx', ?_⟩, fun hnone => absurd hnone (by simp)⟩
  obtain ⟨rfl, rfl⟩ := Prod.mk.inj (Option.some.inj hsome)
  rfl

/-- **The trace of a callback is one of it.** -/
theorem processRecvCallbackTrace_callback (conn : ConnFd) (t_iFd : ℤ) (malloc : Malloc)
    (head body : List ReadOutcome) (rx : List UInt8) :
    (processRecvCallbackTrace conn t_iFd malloc head body rx).Of
      (fun malloc => processRecvCallback conn t_iFd malloc head body rx) malloc body rx := by
  unfold processRecvCallbackTrace processRecvCallback
  by_cases hfd : t_iFd < 0
  · simp only [if_pos hfd]
    exact .of_none rfl
  simp only [if_neg hfd]
  by_cases hshort : conn.iRecvCurLen < packetHeadLen
  swap
  · simp only [if_neg hshort]
    exact ⟨recvBodyReads_taken conn malloc body rx, fun c iNeed hnone => absurd hnone (by simp),
      fun _ _ => rfl⟩
  simp only [if_pos hshort]
  have htaken := recvReads_taken conn conn.pszRecvBuf conn.iRecvCurLen
    (packetHeadLen - conn.iRecvCurLen) head rx
  generalize pynServerRecvData conn.iFd conn.pszRecvBuf conn.iRecvCurLen
    (packetHeadLen - conn.iRecvCurLen) head rx = r at htaken ⊢
  obtain ⟨iRet, b, rx'⟩ := r
  dsimp only at htaken ⊢
  by_cases hbad : iRet ≤ 0
  · simp only [if_pos hbad]
    exact .of_none htaken
  simp only [if_neg hbad]
  by_cases hmore : conn.iRecvCurLen + iRet < packetHeadLen
  · simp only [if_pos hmore]
    exact .of_none htaken
  simp only [if_neg hmore]
  cases hhead : recvHead b with
  | none => exact .of_none htaken
  | some iPacketLen =>
    dsimp only
    generalize ({ conn with
      pszRecvBuf := b, iRecvCurLen := conn.iRecvCurLen + iRet,
      iPacketLen := iPacketLen } : ConnFd) = c
    show RecvTrace.Of _ (fun malloc => recvResized c malloc body rx' (resizeRecvBufferPtr c
      (iPacketLen - packetHeadLen) malloc.pszRecvBuf)) malloc body rx
    rcases hresize : resizeRecvBufferPtr c (iPacketLen - packetHeadLen) malloc.pszRecvBuf
      with _ | ⟨_ | off, conn'⟩
    · exact .of_resize (by rw [hresize]; exact htaken)
    · exact .of_resize (by rw [hresize]; exact htaken)
    · refine .of_resize ?_
      rw [hresize, List.flatMap_append, List.append_assoc]
      show _ ++ (_ ++ (recvBody conn' malloc body rx').rx) = rx
      rw [recvBodyReads_taken, htaken]

/-! ## The reads stay inside -/

/-- Every read of the loop asks for just the rest of what is needed. -/
theorem recvLoopReads_spec {r : LoopRead} (hr : r ∈ recvLoopReads need outcomes got rx) :
    0 < r.need ∧ r.got + r.need = need := by
  induction outcomes generalizing got rx with
  | nil =>
    unfold recvLoopReads at hr
    by_cases hmore : got.length < need
    · rw [if_pos hmore] at hr
      rcases List.mem_cons.mp hr with rfl | hr
      · exact ⟨by dsimp only; omega, by dsimp only; omega⟩
      · split at hr
        · next hagain =>
          obtain rfl := List.mem_singleton.mp hr
          exact ⟨by dsimp only; omega, by dsimp only; omega⟩
        · exact absurd hr List.not_mem_nil
    · rw [if_neg hmore] at hr
      exact absurd hr List.not_mem_nil
  | cons outcome outcomes ih =>
    unfold recvLoopReads at hr
    by_cases hmore : got.length < need
    · rw [if_pos hmore] at hr
      have hfirst : 0 < need - got.length ∧ got.length + (need - got.length) = need := by omega
      cases outcome with
      | data k =>
        rcases List.mem_cons.mp hr with rfl | hr
        · exact hfirst
        · split at hr
          · exact absurd hr List.not_mem_nil
          · exact ih hr
      | eintr =>
        rcases List.mem_cons.mp hr with rfl | hr
        · exact hfirst
        · exact ih hr
      | eagain => exact List.mem_singleton.mp hr ▸ hfirst
      | eof => exact List.mem_singleton.mp hr ▸ hfirst
      | error => exact List.mem_singleton.mp hr ▸ hfirst
    · rw [if_neg hmore] at hr
      exact absurd hr List.not_mem_nil

/-- **A read is in order**: it asks for something, all of it is to lie inside
the block, and the block is as long as the connection says. -/
structure RecvRead.Inside (r : RecvRead) : Prop where
  pos : 0 < r.len
  start : 0 ≤ r.off
  stop : r.off + r.len ≤ r.size
  size : r.size = r.iRecvTotalLen

/-- The reads behind what was received are in order where there is room. -/
theorem recvReads_inside {iNeed : ℤ} (hcur : 0 ≤ conn.iRecvCurLen)
    (hroom : conn.iRecvCurLen + iNeed ≤ conn.pszRecvBuf.size)
    (hsize : conn.pszRecvBuf.size = conn.iRecvTotalLen) :
    ∀ r ∈ recvReads conn iNeed outcomes rx, r.Inside := by
  intro r hr
  unfold recvReads at hr
  split at hr
  · exact absurd hr List.not_mem_nil
  · obtain ⟨x, hx, rfl⟩ := List.mem_map.mp hr
    obtain ⟨hpos, hsum⟩ := recvLoopReads_spec hx
    exact ⟨by dsimp only; omega, by dsimp only; omega, by dsimp only; omega, hsize⟩

/-- The reads of the second part are in order where the buffer has room for the
packet. -/
theorem recvBodyReads_inside (hcur : 0 ≤ conn.iRecvCurLen)
    (hroom : conn.iPacketLen ≤ conn.iRecvTotalLen)
    (hsize : conn.pszRecvBuf.size = conn.iRecvTotalLen) :
    ∀ r ∈ recvBodyReads conn outcomes rx, r.Inside := by
  intro r hr
  unfold recvBodyReads at hr
  split at hr
  · exact absurd hr List.not_mem_nil
  · refine recvReads_inside hcur ?_ hsize r hr
    split <;> omega

/-! ## The doubling loop -/

/-- **The doubling loop comes to an end**: with `used` bytes in the buffer it
leaves the total length `n'` for `n`, and no difference and no product it
computes leaves the range of `int`. -/
inductive ResizeEnds (used iNeedLen : ℤ) : ℤ → ℤ → Prop
  | stop (n : ℤ) (hlo : -2 ^ 31 ≤ n - used) (hhi : n - used < 2 ^ 31)
      (henough : iNeedLen ≤ n - used) : ResizeEnds used iNeedLen n n
  | double (n n' : ℤ) (hlo : -2 ^ 31 ≤ n - used) (hhi : n - used < 2 ^ 31)
      (hshort : n - used < iNeedLen) (hdouble : -2 ^ 31 ≤ n * 2 ∧ n * 2 < 2 ^ 31)
      (hrest : ResizeEnds used iNeedLen (n * 2) n') : ResizeEnds used iNeedLen n n'

/-- A loop over the lengths of a buffer computes nothing out of range on its
way to the end. -/
theorem ResizeEnds.of_loop {K : ℕ} {used iNeed n n' : ℤ} {fuel : ℕ}
    (hK : 4096 * 2 ^ K ≤ (2 : ℤ) ^ 30) (hn : BufSize K n) (hused : 0 ≤ used)
    (hpos : 0 ≤ iNeed) (hneed : used + iNeed ≤ 4096 * 2 ^ K)
    (hloop : resizeLoop used iNeed fuel n = some n') : ResizeEnds used iNeed n n' := by
  induction fuel generalizing n with
  | zero => exact absurd hloop (by simp [resizeLoop])
  | succ fuel ih =>
    obtain ⟨hlo, hhi⟩ := hn.le
    unfold resizeLoop at hloop
    rw [int32_eq_self (x := n - used) (by omega) (by omega)] at hloop
    by_cases hshort : n - used < iNeed
    · rw [if_pos hshort, int32_eq_self (by omega) (by omega)] at hloop
      exact .double n n' (by omega) (by omega) hshort (by omega)
        (ih (hn.double (by omega)) hloop)
    · rw [if_neg hshort] at hloop
      obtain rfl := Option.some.inj hloop
      exact .stop n (by omega) (by omega) (not_lt.mp hshort)

/-- **`ResizeRecvBufferPtr` is in order** on `conn`: its loop comes to an end,
with a total length of at most twice `PACKET_MAX_LEN`. -/
def ConnFd.ResizesTo (conn : ConnFd) (iNeed : ℤ) (malloc : Option (ℤ → UInt8)) : Prop :=
  ∃ n, ResizeEnds conn.iRecvCurLen iNeed conn.iRecvTotalLen n ∧ n ≤ 2 * packetMaxLen
    ∧ (resizeRecvBufferPtr conn iNeed malloc).map (fun r => r.2.iRecvTotalLen) = some n

/-- A packet that is not too long makes the buffer grow in order. -/
theorem ConnFd.resizesTo (conn : ConnFd) {iNeed : ℤ} {malloc : Option (ℤ → UInt8)}
    (hcur : 0 ≤ conn.iRecvCurLen) (htotal : RecvSize conn.iRecvTotalLen)
    (hpos : 0 < iNeed) (hneed : conn.iRecvCurLen + iNeed ≤ packetMaxLen) :
    conn.ResizesTo iNeed malloc := by
  have hmax : packetMaxLen = 1024 * 1024 := rfl
  obtain ⟨hlo, hhi⟩ := htotal.le
  have hsub : int32 (conn.iRecvTotalLen - conn.iRecvCurLen)
      = conn.iRecvTotalLen - conn.iRecvCurLen := int32_eq_self (by omega) (by omega)
  unfold ConnFd.ResizesTo resizeRecvBufferPtr
  rw [if_neg (not_le.mpr hpos), hsub]
  by_cases hroom : conn.iRecvTotalLen - conn.iRecvCurLen ≥ iNeed
  · rw [if_pos hroom]
    exact ⟨_, .stop _ (by omega) (by omega) hroom, by omega, rfl⟩
  · rw [if_neg hroom]
    obtain ⟨n, hloop, hn, -⟩ := resizeLoop_spec resizeFuel (by decide) htotal hcur hpos.le
      (by omega) (by unfold resizeFuel; omega)
    obtain ⟨-, hnhi⟩ := hn.le
    refine ⟨n, .of_loop (by decide) htotal hcur hpos.le (by omega) hloop, by omega, ?_⟩
    rw [hloop]
    cases malloc <;> rfl

/-! ## One event -/

/-- What a callback does with its buffer is in order. -/
structure RecvTrace.InOrder (t : RecvTrace) (malloc : Option (ℤ → UInt8)) : Prop where
  reads : ∀ r ∈ t.reads, r.Inside
  resize : ∀ c iNeed, t.resize = some (c, iNeed) → c.ResizesTo iNeed malloc

/-- **One event reads inside the buffer**, whatever `read` and `malloc` do. -/
theorem processRecvCallbackTrace_inOrder (h : conn.Receiving p) (t_iFd : ℤ) (malloc : Malloc)
    (head body : List ReadOutcome) (rx : List UInt8) :
    (processRecvCallbackTrace conn t_iFd malloc head body rx).InOrder malloc.pszRecvBuf := by
  have h5 : packetHeadLen = 5 := rfl
  have hcur := h.cur
  have hnone : ∀ c iNeed, (none : Option (ConnFd × ℤ)) = some (c, iNeed) →
      c.ResizesTo iNeed malloc.pszRecvBuf := fun c iNeed hn => absurd hn (by simp)
  unfold processRecvCallbackTrace
  by_cases hfd : t_iFd < 0
  · rw [if_pos hfd]
    exact ⟨fun r hr => absurd hr List.not_mem_nil, hnone⟩
  rw [if_neg hfd]
  rcases h.pending with hshort | ⟨hhead, hframe, hlt, hroom⟩
  swap
  · rw [if_neg (by omega)]
    exact ⟨recvBodyReads_inside (by omega) hroom h.size, hnone⟩
  -- the head is not complete
  obtain ⟨hlo, hhi⟩ := h.total.le
  have hreads : ∀ r ∈ recvReads conn (packetHeadLen - conn.iRecvCurLen) head rx, r.Inside :=
    recvReads_inside (by omega) (by rw [h.size]; omega) h.size
  rw [if_pos (by omega)]
  generalize recvReads conn (packetHeadLen - conn.iRecvCurLen) head rx = reads at hreads ⊢
  rw [hcur]
  obtain ⟨iRet, b', rx', taken, hrecv, hrx, htaken, hsize', -, hslice, hret⟩ :=
    h.readHead hshort head rx
  rw [hrecv]
  dsimp only
  by_cases hbad : iRet ≤ 0
  · rw [if_pos hbad]
    exact ⟨hreads, hnone⟩
  rw [if_neg hbad]
  have hcur' := hret (not_le.mp hbad)
  by_cases hmore : p.length + iRet < packetHeadLen
  · rw [if_pos hmore]
    exact ⟨hreads, hnone⟩
  rw [if_neg hmore]
  have hfull : (p ++ taken).length = 5 := by omega
  split
  · exact ⟨hreads, hnone⟩
  · next iPacketLen hok =>
    obtain ⟨hmin, hmax⟩ := recvHead_bounds hok
    have h13 : packetBodyPos = 13 := rfl
    have hresizes : ∀ c iNeed, some (({ conn with
          pszRecvBuf := b', iRecvCurLen := p.length + iRet, iPacketLen := iPacketLen } : ConnFd),
          iPacketLen - packetHeadLen) = some (c, iNeed) →
        c.ResizesTo iNeed malloc.pszRecvBuf := by
      intro c iNeed hc
      obtain ⟨rfl, rfl⟩ := Prod.mk.inj (Option.some.inj hc)
      refine ConnFd.resizesTo _ ?_ h.total (by omega) ?_
      · show 0 ≤ p.length + iRet
        omega
      · show p.length + iRet + _ ≤ _
        omega
    rcases resizeRecvBufferPtr_head h.total hcur' hfull hslice hsize' hok
      with ⟨-, -, conn', hresize⟩ | ⟨n, b'', hresize, hn, hsize'', hover'', hslice'', hroom, -⟩
    · rw [hresize]
      exact ⟨hreads, hresizes⟩
    · rw [hresize]
      refine ⟨fun r hr => ?_, hresizes⟩
      rcases List.mem_append.mp hr with hr | hr
      · exact hreads r hr
      · refine recvBodyReads_inside ?_ hroom hsize'' r hr
        show 0 ≤ p.length + iRet
        omega

/-! ## Runs -/

/-- **The receive buffer between two events**: it has the length the connection
says, and either the head is not complete or the packet has begun to follow and
there is room for all of it. -/
structure ConnFd.RecvBufOk (conn : ConnFd) : Prop where
  size : conn.pszRecvBuf.size = conn.iRecvTotalLen
  pending : conn.iRecvCurLen < packetHeadLen
    ∨ packetHeadLen < conn.iRecvCurLen ∧ conn.iRecvCurLen < conn.iPacketLen
      ∧ conn.iPacketLen ≤ conn.iRecvTotalLen

theorem ConnFd.Receiving.recvBufOk (h : conn.Receiving p) : conn.RecvBufOk where
  size := h.size
  pending := by
    have h5 : packetHeadLen = 5 := rfl
    have hcur := h.cur
    rcases h.pending with hshort | ⟨hhead, -, hlt, hroom⟩
    · exact Or.inl (by omega)
    · exact Or.inr ⟨by omega, by omega, hroom⟩

namespace Receiver

/-- What the receive callback does with its buffer in a readable event. -/
def trace (s : Receiver) (e : Readable) : RecvTrace :=
  processRecvCallbackTrace s.conn s.conn.iFd e.malloc e.head e.body (s.rx ++ s.wire.take e.arrives)

end Receiver

/-- **The receive buffer holds.** Whatever the peer sends and whatever `read`
and `malloc` do: a connection that lives has a buffer of the length it says and
room in it for the packet it waits for; every read asks for at least one byte
and lies inside the block; and the buffer grows in a loop that ends, with at
most twice `PACKET_MAX_LEN` bytes, and stays in the range of `int`. -/
theorem receiver_always_inside (iFd : ℤ) (node : NodePtr) (recvMem sendMem : ℤ → UInt8)
    (serial : ℕ) (stream : List UInt8) (events : List Readable) :
    Run.Always Receiver.step (fun s => s.fate = .live → s.conn.RecvBufOk)
        (Receiver.start iFd node recvMem sendMem serial stream) events
      ∧ Run.Along Receiver.step
        (fun s e => s.fate = .live → (s.trace e).InOrder e.malloc.pszRecvBuf)
        (Receiver.start iFd node recvMem sendMem serial stream) events := by
  have halways : Run.Always Receiver.step (Receiver.Inv stream)
      (Receiver.start iFd node recvMem sendMem serial stream) events :=
    Run.always_of_along (G := fun _ _ => True) (fun s e s' h _ hstep => Receiver.step_inv h hstep)
      Receiver.start_inv (Run.along_true _ _)
  constructor
  · refine halways.mono (fun s h hlive => ?_)
    obtain ⟨p, hrecv, -⟩ := h.live hlive
    exact hrecv.recvBufOk
  · refine halways.along (Run.along_true _ _) (fun s e h _ hlive => ?_)
    obtain ⟨p, hrecv, -⟩ := h.live hlive
    exact processRecvCallbackTrace_inOrder hrecv _ _ _ _ _
