import TcpFrame.Conn
import Mathlib.Algebra.Order.Ring.Int
import Mathlib.Algebra.Order.GroupWithZero.Basic

/-!
# What the receive callback does

Between two events a connection holds the bytes of a packet that has begun and
is not complete. `ConnFd.Receiving` says so of a list of bytes, which is all
there is to know about the receiving side; `processRecvCallback_spec` says that
one event takes a further piece of the stream, and ends with the connection
destroyed, with a longer incomplete packet, or with one packet handed to
`ProcessEntirePacket`. Nothing is assumed about what `read` and `malloc` do.
-/

open Block

variable {conn : ConnFd} {b : Block} {p rx got : List UInt8} {off : ℤ} {need L : ℕ}
  {outcomes : List ReadOutcome}

/-! ## The read loop -/

/-- **The read loop** takes a piece of the stream, no longer than asked for,
and returns its length if what it returns is positive. -/
theorem recvLoop_spec (hgot : got.length ≤ need) :
    ∃ taken, (recvLoop need outcomes got rx).got = got ++ taken
      ∧ taken ++ (recvLoop need outcomes got rx).rx = rx
      ∧ (got ++ taken).length ≤ need
      ∧ (0 < (recvLoop need outcomes got rx).iRet →
          (recvLoop need outcomes got rx).iRet = (got ++ taken).length) := by
  induction outcomes generalizing got rx with
  | nil =>
    refine ⟨rx.take (need - got.length), rfl, List.take_append_drop _ _, ?_, fun _ => rfl⟩
    rw [List.length_append, List.length_take]
    omega
  | cons outcome outcomes ih =>
    have hstop : ∀ iRet : ℤ, (0 < iRet → iRet = (got.length : ℤ)) →
        ∃ taken, got = got ++ taken ∧ taken ++ rx = rx ∧ (got ++ taken).length ≤ need
          ∧ (0 < iRet → iRet = ((got ++ taken).length : ℤ)) := by
      intro iRet hret
      refine ⟨[], (List.append_nil _).symm, rfl, ?_, ?_⟩
      · rwa [List.append_nil]
      · rwa [List.append_nil]
    unfold recvLoop
    by_cases hmore : got.length < need
    · rw [if_pos hmore]
      cases outcome with
      | data k =>
        dsimp only
        by_cases hzero : min k (min (need - got.length) rx.length) = 0
        · rw [if_pos hzero]
          exact hstop _ (fun _ => rfl)
        · rw [if_neg hzero]
          set n := min k (min (need - got.length) rx.length) with hn
          have hlen : (got ++ rx.take n).length ≤ need := by
            rw [List.length_append, List.length_take]
            omega
          obtain ⟨taken, hgot', hrx, hle, hret⟩ := ih hlen
          refine ⟨rx.take n ++ taken, ?_, ?_, ?_, ?_⟩
          · rw [hgot', List.append_assoc]
          · rw [List.append_assoc, hrx, List.take_append_drop]
          · rwa [← List.append_assoc]
          · rwa [← List.append_assoc]
      | eagain => exact hstop _ (fun _ => rfl)
      | eintr => exact ih hgot
      | eof => exact hstop 0 (fun h => absurd h (lt_irrefl _))
      | error => exact hstop (-1) (fun h => absurd h (by decide))
    · rw [if_neg hmore]
      exact hstop _ (fun _ => rfl)

/-- **Receiving into the buffer** behind `k` bytes appends the piece of the
stream that was read. -/
theorem pynServerRecvData_spec {iFd iNeed : ℤ} {k : ℕ} (hneed : 0 < iNeed)
    (hfits : k + iNeed ≤ b.size) :
    ∃ iRet b' rx' taken, pynServerRecvData iFd b k iNeed outcomes rx = (iRet, b', rx')
      ∧ taken ++ rx' = rx ∧ (taken.length : ℤ) ≤ iNeed
      ∧ b'.size = b.size ∧ b'.overrun = b.overrun
      ∧ b'.slice 0 (k + taken.length) = b.slice 0 k ++ taken
      ∧ (0 < iRet → iRet = taken.length) := by
  unfold pynServerRecvData
  by_cases hfd : iFd < 0
  · rw [if_pos hfd]
    exact ⟨_, _, _, [], rfl, rfl, by rw [List.length_nil]; omega, rfl, rfl,
      (List.append_nil _).symm, fun h => absurd h (lt_irrefl _)⟩
  · rw [if_neg hfd, if_neg (not_le.mpr hneed)]
    obtain ⟨taken, hgot, hrx, hle, hret⟩ :=
      recvLoop_spec (show ([] : List UInt8).length ≤ iNeed.toNat from Nat.zero_le _)
    rw [List.nil_append] at hgot hle hret
    have hle' : (taken.length : ℤ) ≤ iNeed := by omega
    have hstore : (b.touch k iNeed).store k (recvLoop iNeed.toNat outcomes [] rx).got
        = (b.touch k iNeed).write k taken := by
      rw [hgot]
      refine store_of_holds ⟨by omega, by omega, ?_⟩
      rw [size_touch]
      omega
    refine ⟨_, _, _, taken, rfl, hrx, hle', ?_, ?_, ?_, hret⟩
    · rw [hstore]
      rfl
    · rw [hstore]
      show (b.touch k iNeed).overrun = b.overrun
      show (b.overrun || !decide (b.Holds k iNeed)) = b.overrun
      rw [decide_eq_true (show b.Holds k iNeed from ⟨by omega, hneed.le, hfits⟩)]
      exact Bool.or_false _
    · rw [hstore]
      have hwrite : ((b.touch k iNeed).write (0 + k) taken).slice 0 (k + taken.length)
          = (b.touch k iNeed).slice 0 k ++ taken := slice_write_append rfl
      rwa [zero_add] at hwrite

/-! ## Growing a buffer -/

/-- A length a buffer grows to: `MAX_TCP_BUF_SIZE`, doubled at most `K` times. -/
def BufSize (K : ℕ) (n : ℤ) : Prop := ∃ k : ℕ, k ≤ K ∧ n = 4096 * 2 ^ k

variable {K : ℕ}

theorem BufSize.le {n : ℤ} (h : BufSize K n) : 4096 ≤ n ∧ n ≤ 4096 * 2 ^ K := by
  obtain ⟨k, hk, rfl⟩ := h
  have hlo : (1 : ℤ) ≤ 2 ^ k := one_le_pow₀ (by decide)
  have hhi : (2 : ℤ) ^ k ≤ 2 ^ K := pow_le_pow_right₀ (by decide) hk
  omega

/-- A length that is not the largest is doubled. -/
theorem BufSize.double {n : ℤ} (h : BufSize K n) (hlt : n < 4096 * 2 ^ K) :
    BufSize K (n * 2) := by
  obtain ⟨k, hk, rfl⟩ := h
  refine ⟨k + 1, ?_, by rw [pow_succ, mul_assoc]⟩
  rcases Nat.lt_or_eq_of_le hk with hlt' | rfl
  · exact hlt'
  · exact absurd hlt (lt_irrefl _)

/-- **The doubling loop ends** with a length that leaves room for what is
needed, where one of the lengths does and none is out of the range of `int`. -/
theorem resizeLoop_spec {n used iNeed : ℤ} (fuel : ℕ) (hK : 4096 * 2 ^ K ≤ (2 : ℤ) ^ 30)
    (hn : BufSize K n) (hused : 0 ≤ used) (hpos : 0 ≤ iNeed)
    (hneed : used + iNeed ≤ 4096 * 2 ^ K) (hfuel : 4096 * 2 ^ K < n * 2 ^ fuel) :
    ∃ n', resizeLoop used iNeed fuel n = some n' ∧ BufSize K n' ∧ iNeed ≤ n' - used := by
  induction fuel generalizing n with
  | zero => exact absurd hn.le.2 (by omega)
  | succ fuel ih =>
    obtain ⟨hlo, hhi⟩ := hn.le
    have hsub : int32 (n - used) = n - used := int32_eq_self (by omega) (by omega)
    unfold resizeLoop
    rw [hsub]
    by_cases hshort : n - used < iNeed
    · rw [if_pos hshort, int32_eq_self (by omega) (by omega)]
      refine ih (hn.double (by omega)) ?_
      rwa [mul_assoc, ← pow_succ']
    · rw [if_neg hshort]
      exact ⟨n, rfl, hn, not_lt.mp hshort⟩

/-! ## The receive buffer -/

/-- A length the receive buffer grows to, up to `PACKET_MAX_LEN`. -/
abbrev RecvSize (n : ℤ) : Prop := BufSize 8 n

/-- **`ResizeRecvBufferPtr` makes room** for a packet and keeps what was
received, or finds no memory. -/
theorem resizeRecvBufferPtr_spec (conn : ConnFd) {iNeed : ℤ} {malloc : Option (ℤ → UInt8)}
    (hcur : conn.iRecvCurLen = p.length) (hbuf : conn.pszRecvBuf.slice 0 p.length = p)
    (hsize : conn.pszRecvBuf.size = conn.iRecvTotalLen) (htotal : RecvSize conn.iRecvTotalLen)
    (hle : (p.length : ℤ) ≤ conn.iRecvTotalLen) (hpos : 0 < iNeed)
    (hneed : p.length + iNeed ≤ packetMaxLen) :
    (malloc = none ∧ conn.iRecvTotalLen - p.length < iNeed
        ∧ ∃ n, resizeRecvBufferPtr conn iNeed malloc
          = some (none, { conn with iRecvTotalLen := n }))
      ∨ ∃ iRecvTotalLen pszRecvBuf,
        resizeRecvBufferPtr conn iNeed malloc = some (some conn.iRecvCurLen,
            { conn with iRecvTotalLen := iRecvTotalLen, pszRecvBuf := pszRecvBuf })
          ∧ RecvSize iRecvTotalLen ∧ pszRecvBuf.size = iRecvTotalLen
          ∧ pszRecvBuf.overrun = conn.pszRecvBuf.overrun
          ∧ pszRecvBuf.slice 0 p.length = p ∧ p.length + iNeed ≤ iRecvTotalLen
          ∧ (malloc = none → iNeed ≤ conn.iRecvTotalLen - p.length) := by
  have hmax : packetMaxLen = 1024 * 1024 := rfl
  obtain ⟨hlo, hhi⟩ := htotal.le
  have hsub : int32 (conn.iRecvTotalLen - conn.iRecvCurLen) = conn.iRecvTotalLen - p.length := by
    rw [hcur]
    exact int32_eq_self (by omega) (by omega)
  unfold resizeRecvBufferPtr
  rw [if_neg (not_le.mpr hpos), hsub]
  by_cases hroom : conn.iRecvTotalLen - p.length ≥ iNeed
  · rw [if_pos hroom]
    exact Or.inr ⟨_, _, rfl, htotal, hsize, rfl, hbuf, by omega, fun _ => hroom⟩
  · rw [if_neg hroom, hcur]
    obtain ⟨n, hloop, hn, hn'⟩ := resizeLoop_spec resizeFuel (by decide) htotal
      (Int.natCast_nonneg p.length) hpos.le (by omega) (by unfold resizeFuel; omega)
    obtain ⟨hnlo, hnhi⟩ := hn.le
    rw [hloop]
    cases malloc with
    | none => exact Or.inl ⟨rfl, not_le.mp hroom, _, rfl⟩
    | some mem =>
      refine Or.inr ⟨n, _, rfl, hn, ?_, ?_, ?_, by omega, fun h => absurd h (by simp)⟩
      · rw [size_move]
        exact sizeT_eq_self (by omega) (by omega)
      all_goals
        rw [sizeT_eq_self (x := (p.length : ℤ)) (by omega) (by omega),
          sizeT_eq_self (x := n) (by omega) (by omega),
          move_of_holds ⟨le_rfl, by omega, by show 0 + (p.length : ℤ) ≤ n; omega⟩
            ⟨le_rfl, by omega, by show 0 + (p.length : ℤ) ≤ conn.pszRecvBuf.size; omega⟩]
      · rfl
      · rw [Int.toNat_natCast, slice_write_self length_slice, hbuf]

/-! ## The packet handlers leave the receiving side alone -/

/-- What makes a connection the one it is. -/
structure ConnFd.SameConn (conn conn' : ConnFd) : Prop where
  pstTimeoutEvent : conn'.pstTimeoutEvent = conn.pstTimeoutEvent
  iFd : conn'.iFd = conn.iFd
  serial : conn'.serial = conn.serial

/-- Only what concerns sending may differ. -/
structure ConnFd.SameRecv (conn conn' : ConnFd) : Prop extends conn.SameConn conn' where
  pszRecvBuf : conn'.pszRecvBuf = conn.pszRecvBuf
  iRecvTotalLen : conn'.iRecvTotalLen = conn.iRecvTotalLen

theorem ConnFd.SameConn.refl : conn.SameConn conn := ⟨rfl, rfl, rfl⟩

theorem ConnFd.SameRecv.refl : conn.SameRecv conn := ⟨.refl, rfl, rfl⟩

theorem resizeSendBufferPtr_sameRecv {iNeed pSendBuffer : ℤ} {malloc : Option (ℤ → UInt8)}
    {conn' : ConnFd} (h : resizeSendBufferPtr conn iNeed malloc = some (pSendBuffer, conn')) :
    conn.SameRecv conn' := by
  unfold resizeSendBufferPtr at h
  split at h
  · cases h
    exact .refl
  · split at h
    · cases h
      exact ⟨⟨rfl, rfl, rfl⟩, rfl, rfl⟩
    · obtain ⟨n, -, hn⟩ := Option.map_eq_some_iff.mp h
      cases hn
      exact ⟨⟨rfl, rfl, rfl⟩, rfl, rfl⟩

/-- What a packet handler does to the reactor: at most, it asks for writable
events. -/
def OnlyAddsWritable (calls : List ReactorCall) : Prop :=
  ∀ call ∈ calls, call = .eventAdd eventWritable .processSendCallback

theorem onlyAddsWritable_nil : OnlyAddsWritable [] := fun _ h => absurd h List.not_mem_nil

theorem onlyAddsWritable_single :
    OnlyAddsWritable [.eventAdd eventWritable .processSendCallback] :=
  fun _ h => List.mem_singleton.mp h

/-- **`ProcessEntirePacket`** touches only the sending side, and asks the
reactor for writable events at most. -/
theorem processEntirePacket_spec {malloc : Malloc} {conn' : ConnFd} {calls : List ReactorCall}
    (h : processEntirePacket conn malloc = some (conn', calls)) :
    conn.SameRecv conn' ∧ OnlyAddsWritable calls := by
  unfold processEntirePacket at h
  split at h
  · cases h
    exact ⟨.refl, onlyAddsWritable_nil⟩
  · split at h
    · unfold processTestBinProtocol at h
      obtain ⟨⟨pSendBuffer, conn₁⟩, hresize, htest⟩ := Option.map_eq_some_iff.mp h
      obtain ⟨⟨h₁, h₂, h₃⟩, h₄, h₅⟩ := resizeSendBufferPtr_sameRecv hresize
      dsimp only at htest
      split at htest
      · cases htest
        exact ⟨⟨⟨h₁, h₂, h₃⟩, h₄, h₅⟩, onlyAddsWritable_nil⟩
      · split at htest
        · cases htest
          exact ⟨⟨⟨h₁, h₂, h₃⟩, h₄, h₅⟩, onlyAddsWritable_nil⟩
        · cases htest
          exact ⟨⟨⟨h₁, h₂, h₃⟩, h₄, h₅⟩, onlyAddsWritable_single⟩
    · split at h
      · cases h
        exact ⟨⟨⟨rfl, rfl, rfl⟩, rfl, rfl⟩, onlyAddsWritable_single⟩
      · cases h
        exact ⟨.refl, onlyAddsWritable_nil⟩

/-- Only what concerns receiving may differ. -/
structure ConnFd.SameSend (conn conn' : ConnFd) : Prop extends conn.SameConn conn' where
  pszSendBuf : conn'.pszSendBuf = conn.pszSendBuf
  iSendTotalLen : conn'.iSendTotalLen = conn.iSendTotalLen
  iSendCurLen : conn'.iSendCurLen = conn.iSendCurLen
  iSendPacketLen : conn'.iSendPacketLen = conn.iSendPacketLen
  strayed : conn'.strayed = conn.strayed

theorem ConnFd.SameSend.refl : conn.SameSend conn := ⟨.refl, rfl, rfl, rfl, rfl, rfl⟩

theorem ConnFd.SameSend.symm {conn' : ConnFd} (h : conn.SameSend conn') : conn'.SameSend conn :=
  ⟨⟨h.pstTimeoutEvent.symm, h.iFd.symm, h.serial.symm⟩, h.pszSendBuf.symm, h.iSendTotalLen.symm,
    h.iSendCurLen.symm, h.iSendPacketLen.symm, h.strayed.symm⟩

theorem ConnFd.SameSend.trans {conn₁ conn₂ : ConnFd} (h : conn.SameSend conn₁)
    (h' : conn₁.SameSend conn₂) : conn.SameSend conn₂ where
  pstTimeoutEvent := h'.pstTimeoutEvent.trans h.pstTimeoutEvent
  iFd := h'.iFd.trans h.iFd
  serial := h'.serial.trans h.serial
  pszSendBuf := h'.pszSendBuf.trans h.pszSendBuf
  iSendTotalLen := h'.iSendTotalLen.trans h.iSendTotalLen
  iSendCurLen := h'.iSendCurLen.trans h.iSendCurLen
  iSendPacketLen := h'.iSendPacketLen.trans h.iSendPacketLen
  strayed := h'.strayed.trans h.strayed

/-- Whatever happens to the fields of receiving, the sending side is the same. -/
theorem ConnFd.sameSend_of_recv {iPacketLen iRecvTotalLen iRecvCurLen : ℤ}
    {pszRecvBuf : Block} :
    conn.SameSend { conn with
      iPacketLen := iPacketLen, pszRecvBuf := pszRecvBuf, iRecvTotalLen := iRecvTotalLen,
      iRecvCurLen := iRecvCurLen } :=
  ⟨⟨rfl, rfl, rfl⟩, rfl, rfl, rfl, rfl, rfl⟩

/-- **What a receive callback can do**: end without a packet, in one of three
ways, or hand one over, in a connection `c` with the sending side it found, and
leave what `ProcessEntirePacket` makes of that. -/
inductive RecvEnds (conn : ConnFd) (malloc : Malloc) : RecvResult → Prop
  | destroyed (c : ConnFd) (rx : List UInt8) (hsame : conn.SameSend c) :
    RecvEnds conn malloc (.destroyed c rx)
  | waiting (c : ConnFd) (rx : List UInt8) (hsame : conn.SameSend c) :
    RecvEnds conn malloc (.waiting c rx)
  | endless (c : ConnFd) (rx : List UInt8) (hsame : conn.SameSend c) :
    RecvEnds conn malloc ⟨c, [], none, rx, false⟩
  | unanswered (c : ConnFd) (rx : List UInt8) (hsame : conn.SameSend c)
    (hentire : processEntirePacket c malloc = none) :
    RecvEnds conn malloc ⟨c, [], some c, rx, false⟩
  | answered (c : ConnFd) (rx : List UInt8) (hsame : conn.SameSend c) (conn' : ConnFd)
    (calls : List ReactorCall) (hentire : processEntirePacket c malloc = some (conn', calls)) :
    RecvEnds conn malloc ⟨{ conn' with iRecvCurLen := 0, iPacketLen := 0 },
      calls ++ [.registerTimerOutEvent maxConnTimeout], some c, rx, true⟩

theorem resizeRecvBufferPtr_sameSend {iNeed : ℤ} {ptr : Option ℤ}
    {malloc : Option (ℤ → UInt8)} {conn' : ConnFd}
    (h : resizeRecvBufferPtr conn iNeed malloc = some (ptr, conn')) : conn.SameSend conn' := by
  unfold resizeRecvBufferPtr at h
  split at h
  · cases h
    exact .refl
  · split at h
    · cases h
      exact .refl
    · obtain ⟨n, -, hn⟩ := Option.map_eq_some_iff.mp h
      cases malloc with
      | none =>
        cases hn
        exact ConnFd.sameSend_of_recv
      | some mem =>
        cases hn
        exact ConnFd.sameSend_of_recv

theorem recvBody_ends {malloc : Malloc} {c : ConnFd} (hsame : conn.SameSend c) :
    RecvEnds conn malloc (recvBody c malloc outcomes rx) := by
  unfold recvBody
  split
  · exact .destroyed _ _ hsame
  · dsimp only
    generalize pynServerRecvData _ _ _ _ _ _ = d
    have hsame' : conn.SameSend { c with
        iRecvCurLen := c.iRecvCurLen + d.1, pszRecvBuf := d.2.1 } :=
      hsame.trans ConnFd.sameSend_of_recv
    split
    · exact .destroyed _ _ (hsame.trans ConnFd.sameSend_of_recv)
    · split
      · exact .waiting _ _ hsame'
      · split
        · next hentire => exact .unanswered _ _ hsame' hentire
        · next hentire => exact .answered _ _ hsame' _ _ hentire

/-- **A receive callback**, on any connection. -/
theorem processRecvCallback_ends (conn : ConnFd) (t_iFd : ℤ) (malloc : Malloc)
    (head body : List ReadOutcome) (rx : List UInt8) :
    RecvEnds conn malloc (processRecvCallback conn t_iFd malloc head body rx) := by
  unfold processRecvCallback
  split
  · exact .waiting _ _ .refl
  · split
    · dsimp only
      generalize pynServerRecvData _ _ _ _ _ _ = d
      split
      · exact .destroyed _ _ ConnFd.sameSend_of_recv
      · split
        · exact .waiting _ _ ConnFd.sameSend_of_recv
        · split
          · exact .destroyed _ _ ConnFd.sameSend_of_recv
          · split
            · exact .endless _ _ ConnFd.sameSend_of_recv
            · next hresize =>
              exact .destroyed _ _
                (ConnFd.sameSend_of_recv.trans (resizeRecvBufferPtr_sameSend hresize))
            · next hresize =>
              exact recvBody_ends
                (ConnFd.sameSend_of_recv.trans (resizeRecvBufferPtr_sameSend hresize))
    · exact recvBody_ends .refl

/-- Without a packet, a receive callback leaves the sending side alone. -/
theorem RecvEnds.of_packet_none {malloc : Malloc} {r : RecvResult} (h : RecvEnds conn malloc r)
    (hpacket : r.packet = none) :
    conn.SameSend r.conn ∧ (r.calls = [] ∨ r.calls = [.destroyConn]) := by
  cases h with
  | destroyed c rx hsame => exact ⟨hsame, Or.inr rfl⟩
  | waiting c rx hsame => exact ⟨hsame, Or.inl rfl⟩
  | endless c rx hsame => exact ⟨hsame, Or.inl rfl⟩
  | unanswered c rx hsame hentire => exact absurd hpacket (by simp)
  | answered c rx hsame conn' calls hentire => exact absurd hpacket (by simp)

/-- With a packet, it leaves what `ProcessEntirePacket` makes of the
connection, if that comes to an end. -/
theorem RecvEnds.of_packet_some {malloc : Malloc} {r : RecvResult} {c : ConnFd}
    (h : RecvEnds conn malloc r) (hpacket : r.packet = some c) :
    conn.SameSend c
      ∧ (processEntirePacket c malloc = none ∧ r.returns = false ∧ r.calls = []
        ∨ ∃ conn' calls, processEntirePacket c malloc = some (conn', calls)
          ∧ r.returns = true ∧ conn'.SameSend r.conn
          ∧ r.calls = calls ++ [.registerTimerOutEvent maxConnTimeout]) := by
  cases h with
  | destroyed c rx hsame => exact absurd hpacket (by simp [RecvResult.destroyed])
  | waiting c rx hsame => exact absurd hpacket (by simp [RecvResult.waiting])
  | endless c rx hsame => exact absurd hpacket (by simp)
  | unanswered c rx hsame hentire =>
    obtain rfl := Option.some.inj hpacket
    exact ⟨hsame, Or.inl ⟨hentire, rfl, rfl⟩⟩
  | answered c rx hsame conn' calls hentire =>
    obtain rfl := Option.some.inj hpacket
    exact ⟨hsame, Or.inr ⟨conn', calls, hentire, rfl, ConnFd.sameSend_of_recv, rfl⟩⟩

/-- A receive callback leaves the connection the one it is. -/
theorem processRecvCallback_sameConn {malloc : Malloc} {t_iFd : ℤ}
    {head body : List ReadOutcome} :
    conn.SameConn (processRecvCallback conn t_iFd malloc head body rx).conn := by
  have hends := processRecvCallback_ends conn t_iFd malloc head body rx
  generalize processRecvCallback conn t_iFd malloc head body rx = r at hends ⊢
  cases hends with
  | answered c rx hsame conn' calls hentire =>
    obtain ⟨hnode, hfd, hserial⟩ := (processEntirePacket_spec hentire).1.toSameConn
    exact ⟨hnode.trans hsame.pstTimeoutEvent, hfd.trans hsame.iFd, hserial.trans hsame.serial⟩
  | destroyed c rx hsame => exact hsame.toSameConn
  | waiting c rx hsame => exact hsame.toSameConn
  | endless c rx hsame => exact hsame.toSameConn
  | unanswered c rx hsame => exact hsame.toSameConn

/-! ## One event -/

/-- **Between two events**: the connection holds the bytes `p` of a packet that
is not complete. Either the head is not complete, or it was accepted, the
packet has begun to follow, and there is room for all of it. -/
structure ConnFd.Receiving (conn : ConnFd) (p : List UInt8) : Prop where
  cur : conn.iRecvCurLen = p.length
  buf : conn.pszRecvBuf.slice 0 p.length = p
  size : conn.pszRecvBuf.size = conn.iRecvTotalLen
  total : RecvSize conn.iRecvTotalLen
  inside : conn.pszRecvBuf.overrun = false
  pending : p.length < 5 ∨ 5 < p.length ∧ frameLen (p.take 5) = some conn.iPacketLen.toNat
    ∧ p.length < conn.iPacketLen ∧ conn.iPacketLen ≤ conn.iRecvTotalLen

/-- What is held between two events is a part of one packet. -/
theorem ConnFd.Receiving.isPartial (h : conn.Receiving p) : protoFraming.IsPartial p := by
  rcases h.pending with hshort | ⟨-, hlen, hlt, -⟩
  · exact Or.inl hshort
  · exact Or.inr ⟨_, hlen, by omega⟩

/-- A new connection holds nothing. -/
theorem ConnFd.create_receiving {iFd : ℤ} {node : NodePtr} {recvMem sendMem : ℤ → UInt8}
    {serial : ℕ} : (ConnFd.create iFd node recvMem sendMem serial).Receiving [] where
  cur := rfl
  buf := rfl
  size := rfl
  total := ⟨0, Nat.zero_le _, rfl⟩
  inside := rfl
  pending := Or.inl (by decide)

/-- **How an event on a connection that holds `p` may end**, when the stream
goes on with `rx`. -/
inductive Received (p rx : List UInt8) : RecvResult → Prop
  /-- The connection is destroyed, or the process is caught in a loop before a
  packet is complete. -/
  | destroyed (r : RecvResult) (taken : List UInt8) (hrx : taken ++ r.rx = rx)
      (hcalls : r.calls = [.destroyConn]) (hpacket : r.packet = none)
      (hreturns : r.returns = true) (hinside : r.conn.pszRecvBuf.overrun = false) :
      Received p rx r
  /-- The packet is still not complete. -/
  | waiting (r : RecvResult) (taken : List UInt8) (hrx : taken ++ r.rx = rx)
      (hcalls : r.calls = []) (hpacket : r.packet = none) (hreturns : r.returns = true)
      (hrecv : r.conn.Receiving (p ++ taken)) : Received p rx r
  /-- The packet is complete and was handed over. -/
  | handed (r : RecvResult) (taken : List UInt8) (c : ConnFd) (hrx : taken ++ r.rx = rx)
      (hpacket : r.packet = some c) (hframe : protoFraming.IsFrame (p ++ taken))
      (hbuf : c.pszRecvBuf.slice 0 c.iRecvCurLen.toNat = p ++ taken)
      (hcur : c.iRecvCurLen = (p ++ taken).length) (hlen : c.iPacketLen = (p ++ taken).length)
      (hsize : c.iPacketLen ≤ c.pszRecvBuf.size)
      (hcalls : ReactorCall.destroyConn ∉ r.calls)
      (hrecv : r.returns = true → r.conn.Receiving []) : Received p rx r

/-- What is asked for in one read: something, and no more than there is to come. -/
theorem need_bounds {used len : ℤ} (hlt : used < len) :
    0 < (if len - used > 4096 then 4096 else len - used)
      ∧ used + (if len - used > 4096 then 4096 else len - used) ≤ len := by
  split
  · omega
  · omega

/-- The second part of an event, on a connection whose head was accepted. -/
theorem recvBody_spec {malloc : Malloc} (hcur : conn.iRecvCurLen = p.length)
    (hbuf : conn.pszRecvBuf.slice 0 p.length = p)
    (hsize : conn.pszRecvBuf.size = conn.iRecvTotalLen) (htotal : RecvSize conn.iRecvTotalLen)
    (hinside : conn.pszRecvBuf.overrun = false) (hhead : 5 ≤ p.length)
    (hframe : frameLen (p.take 5) = some conn.iPacketLen.toNat)
    (hlt : p.length < conn.iPacketLen) (hroom : conn.iPacketLen ≤ conn.iRecvTotalLen) :
    Received p rx (recvBody conn malloc outcomes rx) := by
  unfold recvBody
  rw [if_neg (by omega)]
  dsimp only
  obtain ⟨hpos, hle⟩ := need_bounds (hcur.trans_lt hlt)
  set iNeed : ℤ := if conn.iPacketLen - conn.iRecvCurLen > 4096 then 4096
    else conn.iPacketLen - conn.iRecvCurLen
  obtain ⟨iRet, b', rx', taken, hrecv, hrx, htaken, hsize', hover', hslice, hret⟩ :=
    pynServerRecvData_spec (b := conn.pszRecvBuf) (k := p.length) hpos (by omega)
  rw [hcur, hrecv]
  dsimp only
  by_cases hbad : iRet ≤ 0
  · rw [if_pos hbad]
    exact .destroyed _ taken hrx rfl rfl rfl (hover'.trans hinside)
  · rw [if_neg hbad]
    have hret' := hret (not_le.mp hbad)
    have hlen : (p ++ taken).length = p.length + taken.length := List.length_append
    have htake : (p ++ taken).take 5 = p.take 5 := List.take_append_of_le_length hhead
    rw [hbuf] at hslice
    by_cases hmore : p.length + iRet < conn.iPacketLen
    · rw [if_pos hmore]
      refine .waiting _ taken hrx rfl rfl rfl ⟨?_, ?_, ?_, htotal, ?_, Or.inr ⟨?_, ?_, ?_, ?_⟩⟩
      · show p.length + iRet = _
        omega
      · show b'.slice 0 (p ++ taken).length = _
        rw [hlen]
        exact hslice
      · exact hsize'.trans hsize
      · exact hover'.trans hinside
      · omega
      · rw [htake]
        exact hframe
      · show ((p ++ taken).length : ℤ) < conn.iPacketLen
        omega
      · exact hroom
    · rw [if_neg hmore]
      have hdone : conn.iPacketLen = (p ++ taken).length := by omega
      have hframe' : protoFraming.IsFrame (p ++ taken) := by
        show frameLen ((p ++ taken).take 5) = some (p ++ taken).length
        rw [htake, hframe, hdone, Int.toNat_natCast]
      set conn₁ : ConnFd :=
        { conn with pszRecvBuf := b', iRecvCurLen := p.length + iRet } with hconn₁
      have hcur₁ : conn₁.iRecvCurLen = (p ++ taken).length := by
        show p.length + iRet = _
        omega
      have hbuf₁ : conn₁.pszRecvBuf.slice 0 conn₁.iRecvCurLen.toNat = p ++ taken := by
        rw [hcur₁, Int.toNat_natCast, hlen]
        exact hslice
      have hsize₁ : conn₁.iPacketLen ≤ conn₁.pszRecvBuf.size := by
        show conn.iPacketLen ≤ b'.size
        rwa [hsize', hsize]
      split
      · refine .handed _ taken conn₁ hrx rfl hframe' hbuf₁ hcur₁ hdone hsize₁ List.not_mem_nil ?_
        exact fun h => absurd h Bool.false_ne_true
      · next conn' calls hentire =>
        obtain ⟨hsame, honly⟩ := processEntirePacket_spec hentire
        refine .handed _ taken conn₁ hrx rfl hframe' hbuf₁ hcur₁ hdone hsize₁ ?_ fun _ => ?_
        · intro hmem
          rcases List.mem_append.mp hmem with hmem | hmem
          · exact absurd (honly _ hmem) (by simp)
          · exact absurd (List.mem_singleton.mp hmem) (by simp)
        · refine ⟨rfl, rfl, ?_, ?_, ?_, Or.inl (by decide)⟩
          · show conn'.pszRecvBuf.size = conn'.iRecvTotalLen
            rw [hsame.pszRecvBuf, hsame.iRecvTotalLen]
            exact hsize'.trans hsize
          · show RecvSize conn'.iRecvTotalLen
            rw [hsame.iRecvTotalLen]
            exact htotal
          · show conn'.pszRecvBuf.overrun = false
            rw [hsame.pszRecvBuf]
            exact hover'.trans hinside

/-- An event comes to an end if `ProcessEntirePacket` does. -/
theorem Received.returns {malloc : Malloc} {r : RecvResult} (h : Received p rx r)
    (hends : RecvEnds conn malloc r)
    (hentire : ∀ c ∈ r.packet, processEntirePacket c malloc ≠ none) : r.returns = true := by
  cases h with
  | destroyed taken hrx hcalls hpacket hreturns => exact hreturns
  | waiting taken hrx hcalls hpacket hreturns hrecv => exact hreturns
  | handed taken c hrx hpacket =>
    obtain ⟨-, ⟨hnone, -⟩ | ⟨conn', calls, -, hreturns, -⟩⟩ := hends.of_packet_some hpacket
    · exact absurd hnone (hentire c hpacket)
    · exact hreturns

/-- An event that goes on where another one ended has taken both pieces. -/
theorem Received.of_append {taken rx' : List UInt8} {r : RecvResult} (hrx : taken ++ rx' = rx)
    (h : Received (p ++ taken) rx' r) : Received p rx r := by
  cases h with
  | destroyed taken' hrx' hcalls hpacket hreturns hinside =>
    refine .destroyed _ (taken ++ taken') ?_ hcalls hpacket hreturns hinside
    rw [List.append_assoc, hrx', hrx]
  | waiting taken' hrx' hcalls hpacket hreturns hrecv =>
    refine .waiting _ (taken ++ taken') ?_ hcalls hpacket hreturns ?_
    · rw [List.append_assoc, hrx', hrx]
    · rwa [← List.append_assoc]
  | handed taken' c hrx' hpacket hframe hbuf hcur hlen hsize hcalls hrecv =>
    rw [List.append_assoc] at hframe hbuf hcur hlen
    refine .handed _ (taken ++ taken') c ?_ hpacket hframe hbuf hcur hlen hsize hcalls hrecv
    rw [List.append_assoc, hrx', hrx]

/-- **Reading the head** appends what was read to what is held, in a buffer of the same
size. -/
theorem ConnFd.Receiving.readHead (h : conn.Receiving p) (hshort : p.length < 5)
    (head : List ReadOutcome) (rx : List UInt8) :
    ∃ iRet b' rx' taken, pynServerRecvData conn.iFd conn.pszRecvBuf p.length
          (packetHeadLen - p.length) head rx = (iRet, b', rx')
      ∧ taken ++ rx' = rx ∧ (p ++ taken).length ≤ 5
      ∧ b'.size = conn.iRecvTotalLen ∧ b'.overrun = false
      ∧ b'.slice 0 (p ++ taken).length = p ++ taken
      ∧ (0 < iRet → p.length + iRet = (p ++ taken).length) := by
  have h5 : packetHeadLen = 5 := rfl
  obtain ⟨hlo, hhi⟩ := h.total.le
  obtain ⟨iRet, b', rx', taken, hrecv, hrx, htaken, hsize, hover, hslice, hret⟩ :=
    pynServerRecvData_spec (b := conn.pszRecvBuf) (k := p.length)
      (show 0 < packetHeadLen - (p.length : ℤ) by omega) (by rw [h.size]; omega)
  have hlen : (p ++ taken).length = p.length + taken.length := List.length_append
  rw [h.buf, ← hlen] at hslice
  refine ⟨iRet, b', rx', taken, hrecv, hrx, by omega, hsize.trans h.size, hover.trans h.inside,
    hslice, fun hpos => ?_⟩
  rw [hlen, hret hpos, Nat.cast_add]

/-- **A head that is accepted** makes room for its packet, unless it lacks the memory. -/
theorem resizeRecvBufferPtr_head {q : List UInt8} {b' : Block} {cur iPacketLen : ℤ}
    {malloc : Option (ℤ → UInt8)} (htotal : RecvSize conn.iRecvTotalLen) (hcur : cur = q.length)
    (hfull : q.length = 5) (hslice : b'.slice 0 q.length = q)
    (hsize : b'.size = conn.iRecvTotalLen) (hok : recvHead b' = some iPacketLen) :
    (malloc = none ∧ conn.iRecvTotalLen < iPacketLen
        ∧ ∃ n, resizeRecvBufferPtr
            { conn with pszRecvBuf := b', iRecvCurLen := cur, iPacketLen := iPacketLen }
            (iPacketLen - packetHeadLen) malloc = some (none,
              { conn with
                pszRecvBuf := b', iRecvCurLen := cur, iPacketLen := iPacketLen,
                iRecvTotalLen := n }))
      ∨ ∃ n b'', resizeRecvBufferPtr
            { conn with pszRecvBuf := b', iRecvCurLen := cur, iPacketLen := iPacketLen }
            (iPacketLen - packetHeadLen) malloc = some (some cur,
              { conn with
                pszRecvBuf := b'', iRecvCurLen := cur, iPacketLen := iPacketLen,
                iRecvTotalLen := n })
          ∧ RecvSize n ∧ b''.size = n ∧ b''.overrun = b'.overrun ∧ b''.slice 0 q.length = q
          ∧ iPacketLen ≤ n ∧ (malloc = none → iPacketLen ≤ conn.iRecvTotalLen) := by
  have h5 : packetHeadLen = 5 := rfl
  have h13 : packetBodyPos = 13 := rfl
  obtain ⟨hmin, hmax⟩ := recvHead_bounds hok
  obtain ⟨hlo, hhi⟩ := htotal.le
  obtain ⟨hnone, hlack, n, hresize⟩ | ⟨n, b'', hresize, hn, hsize', hover, hslice', hroom, hmem⟩
    := resizeRecvBufferPtr_spec
      { conn with pszRecvBuf := b', iRecvCurLen := cur, iPacketLen := iPacketLen }
      hcur hslice hsize htotal (by show (q.length : ℤ) ≤ conn.iRecvTotalLen; omega)
      (show 0 < iPacketLen - packetHeadLen by omega) (by omega)
  · have hlack' : conn.iRecvTotalLen - (q.length : ℤ) < iPacketLen - packetHeadLen := hlack
    exact Or.inl ⟨hnone, by omega, n, hresize⟩
  · refine Or.inr ⟨n, b'', hresize, hn, hsize', hover, hslice', by omega, fun hnone => ?_⟩
    have henough : iPacketLen - packetHeadLen ≤ conn.iRecvTotalLen - (q.length : ℤ) := hmem hnone
    omega

/-- **One event**, whatever `read` and `malloc` do. -/
theorem processRecvCallback_spec (h : conn.Receiving p) (t_iFd : ℤ) (malloc : Malloc)
    (head body : List ReadOutcome) (rx : List UInt8) :
    Received p rx (processRecvCallback conn t_iFd malloc head body rx) := by
  have h5 : packetHeadLen = 5 := rfl
  unfold processRecvCallback
  by_cases hfd : t_iFd < 0
  · rw [if_pos hfd]
    refine .waiting _ [] rfl rfl rfl rfl ?_
    rw [List.append_nil]
    exact h
  rw [if_neg hfd, h.cur]
  rcases h.pending with hshort | ⟨hhead, hframe, hlt, hroom⟩
  · -- the head is not complete
    rw [if_pos (by omega)]
    obtain ⟨iRet, b', rx', taken, hrecv, hrx, htaken, hsize', hover', hslice, hret⟩ :=
      h.readHead hshort head rx
    rw [hrecv]
    dsimp only
    by_cases hbad : iRet ≤ 0
    · rw [if_pos hbad]
      exact .destroyed _ taken hrx rfl rfl rfl hover'
    rw [if_neg hbad]
    have hcur := hret (not_le.mp hbad)
    by_cases hmore : p.length + iRet < packetHeadLen
    · rw [if_pos hmore]
      exact .waiting _ taken hrx rfl rfl rfl
        ⟨hcur, hslice, hsize', h.total, hover', Or.inl (by omega)⟩
    rw [if_neg hmore]
    have hfull : (p ++ taken).length = 5 := by omega
    have hframe := frameLen_slice b'
    rw [show b'.slice 0 5 = p ++ taken by rw [← hfull]; exact hslice] at hframe
    split
    · exact .destroyed _ taken hrx rfl rfl rfl hover'
    · next iPacketLen hok =>
      obtain ⟨hmin, hmax⟩ := recvHead_bounds hok
      rw [hok] at hframe
      have h13 : packetBodyPos = 13 := rfl
      refine Received.of_append hrx ?_
      -- the head is accepted: make room for the packet and go on with it
      rcases resizeRecvBufferPtr_head h.total hcur hfull hslice hsize' hok
        with ⟨-, -, n, hresize⟩ | ⟨n, b'', hresize, hn, hsize'', hover'', hslice'', hroom, -⟩
      · rw [hresize]
        exact .destroyed _ [] rfl rfl rfl rfl hover'
      · rw [hresize]
        refine recvBody_spec (p := p ++ taken) hcur hslice'' hsize'' hn ?_ (by omega) ?_ ?_ hroom
        · exact hover''.trans hover'
        · rw [List.take_of_length_le (by omega)]
          exact hframe
        · show ((p ++ taken).length : ℤ) < iPacketLen
          omega
  · rw [if_neg (by omega)]
    exact recvBody_spec h.cur h.buf h.size h.total h.inside (by omega) hframe hlt hroom

/-! ## One event of an undisturbed stream

Where `read` is never interrupted, it takes what has arrived, as far as it is
asked for, and then finds nothing. An event then destroys the connection for
one of three reasons, which are all visible beforehand. -/

/-- **The event finds just the rest of a head**: the callback reads it, and the
second read loop finds nothing. -/
def ConnFd.StopsAtHead (conn : ConnFd) (rx : List UInt8) : Prop :=
  conn.iRecvCurLen < packetHeadLen ∧ conn.iRecvCurLen + rx.length = packetHeadLen

/-- **The event completes a head, and there is no memory** for the packet it
announces, which is longer than the receive buffer. -/
def ConnFd.LacksMemory (conn : ConnFd) (malloc : Malloc) (rx : List UInt8) : Prop :=
  malloc.pszRecvBuf = none ∧ conn.iRecvCurLen < packetHeadLen
    ∧ packetHeadLen ≤ conn.iRecvCurLen + rx.length
    ∧ ∃ L ∈ frameLen ((conn.pszRecvBuf.slice 0 conn.iRecvCurLen.toNat ++ rx).take 5),
      conn.iRecvTotalLen < (L : ℤ)

/-- **The packet in front of what is held and has arrived**, if all of it is there. -/
def ConnFd.arrived (conn : ConnFd) (rx : List UInt8) : Option (List UInt8) :=
  let all := conn.pszRecvBuf.slice 0 conn.iRecvCurLen.toNat ++ rx
  (frameLen (all.take 5)).bind fun L => if L ≤ all.length then some (all.take L) else none

/-- **The packet an event completes**: no more than `4096` bytes of it are behind its
head and what is held. -/
def ConnFd.completes (conn : ConnFd) (rx : List UInt8) : Option (List UInt8) :=
  (conn.arrived rx).filter fun f =>
    decide ((f.length : ℤ) ≤ max packetHeadLen conn.iRecvCurLen + 4096)

instance (rx : List UInt8) : Decidable (conn.StopsAtHead rx) :=
  inferInstanceAs (Decidable (_ ∧ _))

instance (malloc : Malloc) (rx : List UInt8) : Decidable (conn.LacksMemory malloc rx) :=
  have : Decidable (malloc.pszRecvBuf = none) := decidable_of_iff _ Option.isNone_iff_eq_none
  inferInstanceAs (Decidable (_ ∧ _ ∧ _ ∧ ∃ L ∈ _, _))

/-- **A packet taken from the front** is the one that has arrived. -/
theorem ConnFd.Receiving.arrived_of_isFrame (h : conn.Receiving p) {f rest : List UInt8}
    (hf : protoFraming.IsFrame f) (hsplit : f ++ rest = p ++ rx) : conn.arrived rx = some f := by
  have hhead : 5 ≤ f.length := (protoFraming.headLen_lt hf).le
  have hL : frameLen ((p ++ rx).take 5) = some f.length := by
    rw [← hsplit, List.take_append_of_le_length hhead]
    exact hf
  have hle : f.length ≤ (p ++ rx).length := by
    rw [← hsplit, List.length_append]
    omega
  unfold arrived
  rw [h.cur, Int.toNat_natCast, h.buf]
  dsimp only
  rw [hL, Option.bind_some, if_pos hle, ← hsplit, List.take_left' rfl]

/-- Whether a packet is completed, once its length is known. -/
theorem ConnFd.Receiving.completes_isSome (h : conn.Receiving p)
    (hL : frameLen ((p ++ rx).take 5) = some L) :
    (conn.completes rx).isSome
      ↔ (L : ℤ) ≤ max packetHeadLen p.length + 4096 ∧ L ≤ (p ++ rx).length := by
  unfold completes arrived
  rw [h.cur, Int.toNat_natCast, h.buf]
  dsimp only
  rw [hL, Option.bind_some]
  by_cases hle : L ≤ (p ++ rx).length
  · rw [if_pos hle, Option.isSome_filter, Option.any_some, decide_eq_true_eq, List.length_take,
      min_eq_left hle, and_iff_left hle]
  · rw [if_neg hle]
    exact iff_of_false (by simp) fun hall => hle hall.2

/-- No packet is completed before its head. -/
theorem ConnFd.Receiving.completes_short (h : conn.Receiving p) (hshort : (p ++ rx).length < 5) :
    conn.completes rx = none := by
  have hnone : conn.arrived rx = none := by
    unfold arrived
    rw [h.cur, Int.toNat_natCast, h.buf]
    refine Option.bind_eq_none_iff.mpr fun L hL => if_neg fun hle => ?_
    have hmin : 5 < L := protoFraming.headLen_lt hL
    omega
  rw [completes, hnone, Option.filter_none]

/-- **A packet taken from the front** is the one the event completes, if it completes one. -/
theorem ConnFd.Receiving.completes_of_isFrame (h : conn.Receiving p) {f rest : List UInt8}
    (hf : protoFraming.IsFrame f) (hsplit : f ++ rest = p ++ rx)
    (hsome : (conn.completes rx).isSome) : conn.completes rx = some f := by
  unfold completes at hsome ⊢
  rw [h.arrived_of_isFrame hf hsplit] at hsome ⊢
  rw [Option.isSome_filter, Option.any_some] at hsome
  rw [Option.filter_some, if_pos hsome]

/-- An undisturbed read loop takes all that has arrived. -/
theorem pynServerRecvData_nil {iFd iNeed : ℤ} (hfd : 0 ≤ iFd) (hneed : 0 < iNeed) :
    ∃ b', pynServerRecvData iFd b off iNeed [] rx
      = (min iNeed rx.length, b', rx.drop iNeed.toNat) := by
  unfold pynServerRecvData
  rw [if_neg (not_lt.mpr hfd), if_neg (not_le.mpr hneed)]
  refine ⟨_, Prod.ext ?_ rfl⟩
  show ((([] : List UInt8) ++ rx.take (iNeed.toNat - 0)).length : ℤ) = _
  rw [List.nil_append, Nat.sub_zero, List.length_take]
  omega

/-- The second part of an event destroys the connection exactly if nothing is
left of what has arrived, and otherwise reads some of it. It completes the packet
if the rest of it has arrived, and is no longer than what is asked for. -/
theorem recvBody_nil (conn : ConnFd) (malloc : Malloc) (rx : List UInt8) (hfd : 0 ≤ conn.iFd)
    (hcur : 0 ≤ conn.iRecvCurLen) (hlt : conn.iRecvCurLen < conn.iPacketLen) :
    (.destroyConn ∈ (recvBody conn malloc [] rx).calls ↔ rx = [])
      ∧ (rx ≠ [] → (recvBody conn malloc [] rx).rx.length < rx.length)
      ∧ ((recvBody conn malloc [] rx).packet.isSome
        ↔ conn.iPacketLen ≤ conn.iRecvCurLen + 4096
          ∧ conn.iPacketLen ≤ conn.iRecvCurLen + rx.length) := by
  unfold recvBody
  rw [if_neg (by omega)]
  dsimp only
  obtain ⟨hpos, -⟩ := need_bounds hlt
  have hneed : conn.iPacketLen ≤ conn.iRecvCurLen
        + (if conn.iPacketLen - conn.iRecvCurLen > 4096 then 4096
          else conn.iPacketLen - conn.iRecvCurLen)
      ↔ conn.iPacketLen ≤ conn.iRecvCurLen + 4096 := by
    split
    · omega
    · omega
  set iNeed : ℤ := if conn.iPacketLen - conn.iRecvCurLen > 4096 then 4096
    else conn.iPacketLen - conn.iRecvCurLen
  obtain ⟨b', hrecv⟩ := pynServerRecvData_nil (b := conn.pszRecvBuf) hfd hpos
  rw [hrecv]
  dsimp only
  by_cases hrx : rx = []
  · rw [hrx, if_pos (by rw [List.length_nil]; omega)]
    refine ⟨⟨fun _ => rfl, fun _ => List.mem_singleton_self _⟩, fun h => absurd rfl h, ?_⟩
    exact iff_of_false (by simp [RecvResult.destroyed]) (by rw [List.length_nil]; omega)
  have hlen : 0 < rx.length := List.length_pos_iff.mpr hrx
  have hdrop : (rx.drop iNeed.toNat).length < rx.length := by
    rw [List.length_drop]
    omega
  rw [if_neg (by omega)]
  split
  · next hmore =>
    refine ⟨⟨fun h => absurd h List.not_mem_nil, fun h => absurd h hrx⟩, fun _ => hdrop, ?_⟩
    exact iff_of_false (by simp [RecvResult.waiting]) (by omega)
  · next hdone =>
    have hdone' : conn.iPacketLen ≤ conn.iRecvCurLen + 4096
        ∧ conn.iPacketLen ≤ conn.iRecvCurLen + rx.length := by omega
    split
    · exact ⟨⟨fun h => absurd h List.not_mem_nil, fun h => absurd h hrx⟩, fun _ => hdrop,
        iff_of_true rfl hdone'⟩
    · next conn' calls hentire =>
      refine ⟨⟨fun h => ?_, fun h => absurd h hrx⟩, fun _ => hdrop, iff_of_true rfl hdone'⟩
      rcases List.mem_append.mp h with h | h
      · exact absurd ((processEntirePacket_spec hentire).2 _ h) (by simp)
      · exact absurd (List.mem_singleton.mp h) (by simp)

/-- **An undisturbed event** with a good head destroys the connection exactly
if it stops at the head or lacks memory, and otherwise reads something. It hands
over a packet exactly if it completes one. -/
theorem processRecvCallback_nil (h : conn.Receiving p) (malloc : Malloc) (hfd : 0 ≤ conn.iFd)
    (hrx : rx ≠ [])
    (hgood : 5 ≤ (p ++ rx).length → ∃ L, frameLen ((p ++ rx).take 5) = some L) :
    (.destroyConn ∈ (processRecvCallback conn conn.iFd malloc [] [] rx).calls
        ↔ conn.StopsAtHead rx ∨ conn.LacksMemory malloc rx)
      ∧ (.destroyConn ∉ (processRecvCallback conn conn.iFd malloc [] [] rx).calls →
          (processRecvCallback conn conn.iFd malloc [] [] rx).rx.length < rx.length
            ∧ ((processRecvCallback conn conn.iFd malloc [] [] rx).packet.isSome
              ↔ (conn.completes rx).isSome)) := by
  have h5 : packetHeadLen = 5 := rfl
  have hpos : 0 < rx.length := List.length_pos_iff.mpr hrx
  have hcur := h.cur
  unfold processRecvCallback
  rw [if_neg (not_lt.mpr hfd)]
  have hall : (p ++ rx).length = p.length + rx.length := List.length_append
  rcases h.pending with hshort | ⟨hhead, hframe, hlt, -⟩
  swap
  · -- the head was accepted before
    rw [if_neg (by omega)]
    obtain ⟨hdestroy, hread, hpacket⟩ := recvBody_nil conn malloc rx hfd
      (by rw [hcur]; omega) (by rw [hcur]; exact hlt)
    refine ⟨?_, fun _ => ⟨hread hrx, ?_⟩⟩
    · rw [hdestroy]
      refine ⟨fun h => absurd h hrx, ?_⟩
      rintro (⟨hlt', -⟩ | ⟨-, hlt', -⟩) <;> omega
    · have htake : (p ++ rx).take 5 = p.take 5 :=
        List.take_append_of_le_length hhead.le
      rw [← htake] at hframe
      rw [hpacket, h.completes_isSome hframe]
      omega
  · rw [if_pos (by omega)]
    obtain ⟨iRet, b', rx', taken, hrecv, htaken, hle, hsize', -, hslice, hret'⟩ :=
      h.readHead hshort [] rx
    obtain ⟨b'', hnil⟩ := pynServerRecvData_nil (b := conn.pszRecvBuf) hfd
      (show 0 < packetHeadLen - (p.length : ℤ) by omega)
    rw [hrecv] at hnil
    obtain ⟨hret, hnil'⟩ := Prod.mk.inj hnil
    obtain ⟨-, hrx'⟩ := Prod.mk.inj hnil'
    rw [hcur, hrecv]
    dsimp only
    have hlen' : rx'.length = rx.length - (5 - p.length) := by
      rw [hrx', List.length_drop]
      omega
    have hsum : taken.length + rx'.length = rx.length := by
      rw [← htaken, List.length_append]
    rw [if_neg (by omega)]
    by_cases hmore : p.length + iRet < packetHeadLen
    · -- the head is still not complete
      rw [if_pos hmore]
      refine ⟨⟨fun h => absurd h List.not_mem_nil, ?_⟩, fun _ => ⟨?_, ?_⟩⟩
      · rintro (⟨-, hstop⟩ | ⟨-, -, hstop, -⟩) <;> omega
      · show rx'.length < rx.length
        omega
      · refine iff_of_false (by simp [RecvResult.waiting]) fun hsome => ?_
        rw [h.completes_short (by omega)] at hsome
        exact absurd hsome (by simp)
    · rw [if_neg hmore]
      have hcur' := hret' (by omega)
      have hfull : (p ++ taken).length = 5 := by omega
      have htake : (p ++ rx).take 5 = p ++ taken := by
        rw [← htaken, ← List.append_assoc]
        exact List.take_left' hfull
      obtain ⟨L, hL⟩ := hgood (by rw [List.length_append]; omega)
      have hhead := frameLen_slice b'
      rw [show b'.slice 0 5 = p ++ taken by rw [← hfull]; exact hslice, ← htake, hL] at hhead
      obtain ⟨iPacketLen, hok, hL'⟩ := Option.map_eq_some_iff.mp hhead.symm
      obtain ⟨hmin, hmax⟩ := recvHead_bounds hok
      have h13 : packetBodyPos = 13 := rfl
      rw [hok]
      dsimp only
      rcases resizeRecvBufferPtr_head h.total hcur' hfull hslice hsize' hok
        with ⟨hnone, hlack, n, hresize⟩ | ⟨n, b₂, hresize, hn, -, -, -, hroom, henough⟩
      · rw [hresize]
        refine ⟨⟨fun _ => Or.inr ⟨hnone, by omega, by omega, L, ?_, ?_⟩,
          fun _ => List.mem_singleton_self _⟩, fun h => absurd (List.mem_singleton_self _) h⟩
        · rw [hcur, Int.toNat_natCast, h.buf]
          exact hL
        · omega
      · rw [hresize]
        dsimp only
        obtain ⟨hdestroy, hread, hpacket⟩ := recvBody_nil
          { conn with
            pszRecvBuf := b₂, iRecvCurLen := p.length + iRet, iPacketLen := iPacketLen,
            iRecvTotalLen := n }
          malloc rx' hfd (by show 0 ≤ (p.length : ℤ) + iRet; omega)
          (by show (p.length : ℤ) + iRet < iPacketLen; omega)
        rw [hdestroy]
        refine ⟨⟨fun hnil => Or.inl ⟨by omega, ?_⟩, ?_⟩, fun hne => ⟨?_, ?_⟩⟩
        · rw [hnil, List.length_nil] at hsum hlen'
          omega
        · rintro (⟨-, hstop⟩ | ⟨hnone, -, -, L', hL', hlack⟩)
          · exact List.length_eq_zero_iff.mp (by omega)
          · rw [hcur, Int.toNat_natCast, h.buf, hL] at hL'
            obtain rfl := Option.some.inj (Option.mem_def.mp hL')
            have := henough hnone
            omega
        · exact (hread hne).trans_le (by omega)
        · rw [hpacket, h.completes_isSome hL]
          show iPacketLen ≤ p.length + iRet + 4096 ∧ iPacketLen ≤ p.length + iRet + rx'.length
            ↔ _
          omega
