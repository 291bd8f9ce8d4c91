import TcpFrame.ConnSendBuffer

/-!
# The doubling loop of the send buffer

Nothing bounds what is queued for a slow reader, so the loop of
`ResizeSendBufferPtr` is entered with any length the buffer has grown to, up to
`2³⁰`, the last one an `int` holds. It ends with room for what is needed as long
as one of the lengths has that room. Otherwise it doubles `2³⁰` to `-2³¹`: with
something queued the difference wraps as well, and the loop stops on the negative
length (`resizeLoop_negative`); with nothing queued the length is `0` after one
more round, and the loop spins (`resizeLoop_spins`).
-/

variable {conn : ConnFd} {need used n n' : ℤ} {fuel : ℕ}

/-! ## Past the last length -/

/-- One round of the loop with `used` bytes queued, up to the last length. -/
theorem resizeLoop_round (hn : 0 ≤ n) (hmax : n ≤ 2 ^ 30) (hused : 0 ≤ used) (hle : used ≤ 2 ^ 30) :
    resizeLoop used need (fuel + 1) n
      = if n - used < need then resizeLoop used need fuel (int32 (n * 2)) else some n := by
  rw [resizeLoop, int32_eq_self (by omega) (by omega)]

/-- **The negative length ends the loop**, with something queued: the difference
wraps to a positive one. -/
theorem resizeLoop_negative (hused : 0 < used) (hle : used ≤ 2 ^ 30)
    (hneed : used + need ≤ 2 ^ 31 - 1) :
    resizeLoop used need (fuel + 1) (-2 ^ 31) = some (-2 ^ 31) := by
  have hwrap : int32 (-2 ^ 31 - used) = 2 ^ 31 - used := by
    unfold int32
    have hadd : Int.bmod (-2 ^ 31 - used + (2 ^ 32 : ℕ)) (2 ^ 32)
        = Int.bmod (-2 ^ 31 - used) (2 ^ 32) := Int.add_bmod_right _ _
    rw [← hadd, Int.bmod_eq_of_le] <;> push_cast <;> omega
  rw [resizeLoop, hwrap, if_neg (by omega)]

/-- **The loop spins** on the negative length, with nothing queued: the next
length is `0`, and so are all that follow. -/
theorem resizeLoop_spins (hneed : 0 < need) : resizeLoop 0 need fuel (-2 ^ 31) = none := by
  cases fuel with
  | zero => rfl
  | succ fuel =>
    have hsub : int32 (-2 ^ 31 - 0) = -2 ^ 31 := by decide
    have hdouble : int32 (-2 ^ 31 * 2) = 0 := by decide
    rw [resizeLoop, hsub, if_pos (by omega), hdouble, resizeLoop_zero hneed]

/-- **No length has the room**: the loop ends on the negative one, if it ends. -/
theorem eq_of_resizeLoop_full (hn : BufSize 18 n) (hused : 0 ≤ used) (hle : used ≤ 2 ^ 30)
    (hfull : 2 ^ 30 < used + need) (hneed : used + need ≤ 2 ^ 31 - 1)
    (hloop : resizeLoop used need fuel n = some n') : n' = -2 ^ 31 := by
  induction fuel generalizing n with
  | zero => exact absurd hloop (by simp [resizeLoop])
  | succ fuel ih =>
    obtain ⟨hlo, hhi⟩ := hn.le
    rw [resizeLoop_round (by omega) (by omega) hused hle, if_pos (by omega)] at hloop
    rcases lt_or_eq_of_le hhi with hlt | hlast
    · rw [int32_eq_self (by omega) (by omega)] at hloop
      exact ih (hn.double hlt) hloop
    -- the last length is doubled
    have hdouble : int32 (n * 2) = -2 ^ 31 := by
      rw [hlast]
      decide
    rw [hdouble] at hloop
    rcases hused.eq_or_lt with rfl | hpos
    · rw [resizeLoop_spins (by omega)] at hloop
      exact absurd hloop (by simp)
    · cases fuel with
      | zero => exact absurd hloop (by simp [resizeLoop])
      | succ fuel =>
        rw [resizeLoop_negative hpos hle hneed] at hloop
        exact (Option.some.inj hloop).symm

/-! ## The loop of a connection -/

/-- **The loop is entered**: there is no room for `need` bytes behind what is
queued, and dropping what was sent does not make it. -/
def ConnFd.EntersLoop (conn : ConnFd) (need : ℤ) : Prop :=
  conn.iSendTotalLen - conn.iSendPacketLen < need
    ∧ conn.iSendTotalLen - conn.iSendPacketLen + conn.iSendCurLen ≤ need

instance : Decidable (conn.EntersLoop need) := inferInstanceAs (Decidable (_ ∧ _))

/-- **The loop ends** with a positive length that has room for `need` bytes, and
`ResizeSendBufferPtr` with it. -/
def ConnFd.LoopEnds (conn : ConnFd) (need : ℤ) : Prop :=
  ∃ fuel n, resizeLoop conn.iSendPacketLen need fuel conn.iSendTotalLen = some n
    ∧ 0 < n ∧ need ≤ n - conn.iSendPacketLen
    ∧ ∀ malloc, (resizeSendBufferPtr conn need malloc).map (fun r => r.2.iSendTotalLen) = some n

/-- A length of an `int` is doubled at most `18` times. -/
theorem bufSize_of_lt (hsize : ∃ k : ℕ, n = maxTcpBufSize * 2 ^ k) (hmax : n < 2 ^ 31) :
    BufSize 18 n := by
  obtain ⟨k, rfl⟩ := hsize
  refine ⟨k, ?_, rfl⟩
  by_contra hk
  have hpow : (2 : ℤ) ^ 19 ≤ 2 ^ k := pow_le_pow_right₀ (by decide) (by omega)
  have hlt : (4096 : ℤ) * 2 ^ k < 2 ^ 31 := hmax
  omega

/-- **What the loop ends with** is what `ResizeSendBufferPtr` leaves in
`iSendTotalLen`. -/
theorem ConnFd.EntersLoop.iSendTotalLen (h : conn.EntersLoop need)
    (htotal : conn.iSendTotalLen < 2 ^ 31) (hcur : 0 ≤ conn.iSendCurLen)
    (hle : conn.iSendCurLen ≤ conn.iSendPacketLen)
    (hpacket : conn.iSendPacketLen ≤ conn.iSendTotalLen) (malloc : Option (ℤ → UInt8)) :
    (resizeSendBufferPtr conn need malloc).map (fun r => r.2.iSendTotalLen)
      = resizeLoop conn.iSendPacketLen need resizeFuel conn.iSendTotalLen := by
  obtain ⟨hfull, hgrow⟩ := h
  unfold resizeSendBufferPtr
  rw [int32_eq_self (by omega) (by omega), int32_eq_self (by omega) (by omega),
    if_neg (not_le.mpr hfull), if_neg (not_lt.mpr hgrow), Option.map_map]
  exact Option.map_id'

/-- **The doubling loop ends exactly** where the last length has the room, or
where it is not entered. -/
theorem resizeLoop_ends_iff
    (hsize : ∃ k : ℕ, conn.iSendTotalLen = maxTcpBufSize * 2 ^ k)
    (htotal : conn.iSendTotalLen < 2 ^ 31) (hcur : 0 ≤ conn.iSendCurLen)
    (hle : conn.iSendCurLen ≤ conn.iSendPacketLen)
    (hpacket : conn.iSendPacketLen ≤ conn.iSendTotalLen) (hneed : 0 ≤ need)
    (hmax : conn.iSendPacketLen + need ≤ 2 ^ 31 - 1) :
    (conn.EntersLoop need → conn.LoopEnds need)
      ↔ conn.iSendPacketLen + need ≤ 2 ^ 30
        ∨ need < conn.iSendTotalLen - conn.iSendPacketLen + conn.iSendCurLen := by
  have hbuf := bufSize_of_lt hsize htotal
  obtain ⟨hlo, hhi⟩ := hbuf.le
  constructor
  · intro hends
    by_contra hcond
    obtain ⟨hfull, hdrop⟩ := not_or.mp hcond
    obtain ⟨fuel, n, hloop, hpos, -⟩ := hends ⟨by omega, not_lt.mp hdrop⟩
    have hneg := eq_of_resizeLoop_full hbuf (by omega) (by omega) (not_le.mp hfull) hmax hloop
    omega
  · rintro (hfits | hdrop) henters
    · obtain ⟨n, hloop, hn, hroom⟩ := resizeLoop_spec resizeFuel (by decide) hbuf
        (hcur.trans hle) hneed (by omega) (by unfold resizeFuel; omega)
      have hfirst := hn.le.1
      exact ⟨resizeFuel, n, hloop, by omega, hroom, fun malloc =>
        (henters.iSendTotalLen htotal hcur hle hpacket malloc).trans hloop⟩
    · exact absurd hdrop (not_lt.mpr henters.2)

/-- A connection with `iSendPacketLen` bytes queued and nothing sent, in a buffer
of `iSendTotalLen` bytes. -/
def slowConn (iSendTotalLen iSendPacketLen : ℤ) : ConnFd :=
  { freshConn with iSendTotalLen := iSendTotalLen, iSendPacketLen := iSendPacketLen }

/-- A full buffer of `2²⁹` bytes grows for `128` more. -/
theorem resizeLoop_ends_sample :
    (slowConn (2 ^ 29) (2 ^ 29)).EntersLoop 128 ∧ (slowConn (2 ^ 29) (2 ^ 29)).LoopEnds 128 :=
  have henters : (slowConn (2 ^ 29) (2 ^ 29)).EntersLoop 128 := by decide
  ⟨henters, (resizeLoop_ends_iff ⟨17, by decide⟩ (by decide) (by decide) (by decide) (by decide)
    (by decide) (by decide)).mpr (Or.inl (by decide)) henters⟩

/-- **A buffer of `2³⁰` bytes does not grow**: with `100` bytes left in it, the
`128` bytes an empty test request asks for leave a negative length; and with
nothing queued the loop never ends on more than there is. -/
theorem resizeLoop_wraps :
    (2 ^ 30 = maxTcpBufSize * 2 ^ 18)
      ∧ (slowConn (2 ^ 30) (2 ^ 30 - 100)).EntersLoop 128
      ∧ ¬ (slowConn (2 ^ 30) (2 ^ 30 - 100)).LoopEnds 128
      ∧ resizeLoop (2 ^ 30 - 100) 128 resizeFuel (2 ^ 30) = some (-2 ^ 31)
      ∧ ∀ fuel, resizeLoop 0 (2 ^ 30 + 1) fuel (2 ^ 30) = none := by
  refine ⟨by decide, by decide, ?_, by decide +kernel, fun fuel => ?_⟩
  · rintro ⟨fuel, n, hloop, hpos, -⟩
    have hneg := eq_of_resizeLoop_full ⟨18, le_rfl, by decide⟩ (by decide) (by decide) (by decide)
      (by decide) hloop
    omega
  · cases fuel with
    | zero => rfl
    | succ fuel =>
      rw [resizeLoop_round (by decide) (by decide) (by decide) (by decide), if_pos (by decide)]
      exact resizeLoop_spins (by decide)
