import TcpFrame.Lib.Run
import TcpFrame.ServerLogRoll

/-!
# The size of the log file

`__print_log` is to roll the files before it writes to a log file that has
reached `iLogSize` bytes, so that no log file gets longer than that by more than
one line. `CheckFileSize` looks at the file only if it is given no handle, though,
and returns `0` for any handle there is: the files are never rolled
(`printLog_eq_write`), and the log file grows by every line. What was meant holds
exactly as long as no line finds the file at its limit (`printLog_bounded_iff`).
-/

variable {s s' : LogState} {t : ServerLogHandle} {call : LogCall} {calls : List LogCall}

/-- **The handle `t` logs to its file**, which is there and open. -/
structure LogState.LogsTo (s : LogState) (t : ServerLogHandle) : Prop where
  handle : s.handle = some t
  iLogStd : t.iLogStd = .file
  iLogFd : 0 ≤ t.iLogFd
  opens : s.fs.Opens t.szLogFilename t.iLogFd.toNat

/-- The size of the log file, `0` where there is none. -/
def LogState.logSize (s : LogState) (t : ServerLogHandle) : ℕ :=
  (s.fs.stat t.szLogFilename).getD 0

/-- **A new handle logs to its file.** -/
theorem createLogfileHandle_logsTo {fs fs' : Files} {t_pFilename : PathName}
    {t_iLogLevel t_iLogSize t_iRollCount : ℤ} {iLogFd : Option ℕ}
    (h : createLogfileHandle fs t_pFilename t_iLogLevel t_iLogSize t_iRollCount iLogFd
      = some (fs', some t)) (hfile : t.iLogStd = .file) (printed : List UInt8) :
    LogState.LogsTo ⟨fs', some t, printed⟩ t := by
  unfold createLogfileHandle at h
  split at h
  · dsimp only at h
    split at h
    · obtain ⟨-, ht⟩ := Prod.mk.inj (Option.some.inj h)
      obtain rfl := Option.some.inj ht
      exact absurd hfile (by simp)
    split at h
    · obtain ⟨-, ht⟩ := Prod.mk.inj (Option.some.inj h)
      obtain rfl := Option.some.inj ht
      exact absurd hfile (by simp)
    cases iLogFd with
    | none => exact absurd (Prod.mk.inj (Option.some.inj h)).2 (by simp)
    | some iLogFd =>
      obtain ⟨rfl, ht⟩ := Prod.mk.inj (Option.some.inj h)
      obtain rfl := Option.some.inj ht
      exact ⟨rfl, rfl, Int.natCast_nonneg _, FileSystem.opens_openAppend⟩
  · exact absurd h (by simp)

/-! ## One line -/

/-- A line is shorter than `MAX_LOGMSG_LEN` bytes. -/
theorem LogCall.length_szMsg_lt : call.szMsg.length < maxLogmsgLen := by
  have hle : call.szMsg.length ≤ maxLogmsgLen - 1 := List.length_take_le ..
  simp only [maxLogmsgLen] at hle ⊢
  omega

/-- **The check never triggers**: no handle is `NULL`. -/
theorem checkFileSize_some (fs : Files) (t : ServerLogHandle) :
    checkFileSize fs (some t) = some 0 :=
  if_pos (Option.some_ne_none t)

/-- **A line is written without a roll**, however large the file is. -/
theorem LogState.LogsTo.printLog_eq_write (h : s.LogsTo t) (hfd : t.iLogFd ≠ 0) (call : LogCall) :
    printLog s call = s.write call.szMsg := by
  have hpos : t.iLogFd > 0 := lt_of_le_of_ne h.iLogFd hfd.symm
  unfold printLog
  rw [h.handle]
  dsimp only
  rw [if_pos ⟨hpos, h.iLogStd⟩, checkFileSize_some, Option.bind_some, if_neg (lt_irrefl 0)]

/-- The descriptor `0` is never written to. -/
theorem LogState.LogsTo.printLog_eq_self (h : s.LogsTo t) (hfd : t.iLogFd = 0) (call : LogCall) :
    printLog s call = some s := by
  have hstd : ¬ (t.iLogStd = .stdout ∨ t.iLogStd = .stderr) := by
    rw [h.iLogStd]
    decide
  unfold printLog
  rw [h.handle]
  dsimp only
  rw [if_neg (fun hpos => hpos.1.ne' hfd), if_neg hstd]

/-- **The line goes to the end of the log file.** -/
theorem LogState.LogsTo.write (h : s.LogsTo t) (szMsg : List UInt8) :
    ∃ s', s.write szMsg = some s' ∧ s'.LogsTo t ∧ s'.logSize t = s.logSize t + szMsg.length := by
  refine ⟨{ s with fs := s.fs.write t.iLogFd.toNat szMsg }, ?_, ?_, ?_⟩
  · unfold LogState.write
    rw [h.handle, Option.map_some]
  · exact ⟨h.handle, h.iLogStd, h.iLogFd, h.opens⟩
  · obtain ⟨ino, hdir, -⟩ := h.opens
    have hcontent : s.fs.content t.szLogFilename = some (s.fs.data ino) := by
      unfold FileSystem.content
      rw [hdir, Option.map_some]
    show ((FileSystem.content _ _).map List.length).getD 0
      = ((FileSystem.content _ _).map List.length).getD 0 + szMsg.length
    rw [FileSystem.content_write h.opens, hcontent]
    simp

/-- After a roll, a line is all there is in the log file. -/
theorem LogState.LogsTo.roll_write (h : s.LogsTo t) {iLogFd : Option ℕ} {szMsg : List UInt8}
    (hroll : (s.roll iLogFd).write szMsg = some s') : s'.logSize t = szMsg.length := by
  unfold LogState.roll at hroll
  rw [h.handle] at hroll
  cases iLogFd with
  | none => exact absurd hroll (by simp [rollOldfile2new, LogState.write])
  | some fd =>
    obtain ⟨fs', heq, hrolled⟩ := rollOldfile2new_eq_rolled s.fs t fd
    rw [heq] at hroll
    obtain rfl := Option.some.inj hroll
    show ((FileSystem.content (fs'.write fd szMsg) t.szLogFilename).map List.length).getD 0
      = szMsg.length
    rw [FileSystem.content_write hrolled.opened, hrolled.empty]
    simp

/-! ## A sequence of lines -/

/-- **A line leaves the log file in bounds**, in that it is shorter than `iLogSize`
and one line more, and one that finds the file at `iLogSize` bytes or more goes
to a new one: the files are rolled before it is written. -/
def LogState.WriteBounded (s : LogState) (call : LogCall) : Prop :=
  ∀ t, s.handle = some t → t.iLogStd = .file → t.iLogFd > 0 →
    ∃ s', printLog s call = some s' ∧ (s'.logSize t : ℤ) < t.iLogSize + maxLogmsgLen
      ∧ (t.iLogSize ≤ s.logSize t → (s.roll call.iLogFd).write call.szMsg = some s')

/-- **So it does exactly if it finds the file below the limit.** -/
theorem LogState.LogsTo.writeBounded_iff (h : s.LogsTo t) (hfd : t.iLogFd ≠ 0) :
    s.WriteBounded call ↔ (s.logSize t : ℤ) < t.iLogSize := by
  have hpos : t.iLogFd > 0 := lt_of_le_of_ne h.iLogFd hfd.symm
  have hline : call.szMsg.length < maxLogmsgLen := LogCall.length_szMsg_lt
  obtain ⟨s', hwrite, -, hsize⟩ := h.write call.szMsg
  have hprint : printLog s call = some s' := (h.printLog_eq_write hfd call).trans hwrite
  constructor
  · intro hbounded
    by_contra hlimit
    obtain ⟨r, hr, -, hroll⟩ := hbounded t h.handle h.iLogStd hpos
    obtain rfl : s' = r := Option.some.inj (hprint.symm.trans hr)
    have hnew := h.roll_write (hroll (not_lt.mp hlimit))
    have hmin := t.size_ge
    simp only [minLogfileSize, maxLogmsgLen] at hmin hline
    omega
  · rintro hlimit t' ht' - -
    obtain rfl : t = t' := Option.some.inj (h.handle.symm.trans ht')
    refine ⟨s', hprint, ?_, fun hfull => absurd hlimit (not_lt.mpr hfull)⟩
    rw [hsize]
    omega

/-- The bytes a sequence of calls writes. -/
def loggedBytes (calls : List LogCall) : ℕ := (calls.map fun call => call.szMsg.length).sum

/-- With the descriptor `0`, nothing is written in any call. -/
theorem LogState.LogsTo.along_of_zero (h : s.LogsTo t) (hfd : t.iLogFd = 0)
    (calls : List LogCall) : Run.Along printLog LogState.WriteBounded s calls := by
  induction calls with
  | nil => trivial
  | cons call rest ih =>
    refine ⟨fun t' ht' _ hpos => ?_, fun s' hs' => ?_⟩
    · obtain rfl : t = t' := Option.some.inj (h.handle.symm.trans ht')
      exact absurd hfd hpos.ne'
    · obtain rfl : s = s' := Option.some.inj ((h.printLog_eq_self hfd call).symm.trans hs')
      exact ih

/-- **The log file stays in bounds exactly** where no line finds it at its limit:
what was in it is shorter than that, with all lines but the last one. -/
theorem printLog_bounded_iff (h : s.LogsTo t) (calls : List LogCall) :
    Run.Along printLog LogState.WriteBounded s calls
      ↔ t.iLogFd = 0 ∨ calls = []
        ∨ (s.logSize t + loggedBytes calls.dropLast : ℤ) < t.iLogSize := by
  by_cases hfd : t.iLogFd = 0
  · exact iff_of_true (h.along_of_zero hfd calls) (Or.inl hfd)
  rw [or_iff_right hfd]
  induction calls generalizing s with
  | nil => exact iff_of_true trivial (Or.inl rfl)
  | cons call rest ih =>
    obtain ⟨s', hwrite, h', hsize⟩ := h.write call.szMsg
    have hprint : printLog s call = some s' := (h.printLog_eq_write hfd call).trans hwrite
    have hrest : Run.Along printLog LogState.WriteBounded s (call :: rest)
        ↔ (s.logSize t : ℤ) < t.iLogSize
          ∧ (rest = [] ∨ (s'.logSize t + loggedBytes rest.dropLast : ℤ) < t.iLogSize) := by
      have hhead : s.WriteBounded call ↔ (s.logSize t : ℤ) < t.iLogSize := h.writeBounded_iff hfd
      rw [← hhead, ← ih h']
      exact and_congr_right fun _ => ⟨fun hall => hall s' hprint,
        fun hall r hr => (Option.some.inj (hprint.symm.trans hr)) ▸ hall⟩
    rw [hrest, hsize]
    cases rest with
    | nil => simp [loggedBytes]
    | cons next rest =>
      rw [List.dropLast_cons_of_ne_nil (List.cons_ne_nil next rest)]
      simp only [loggedBytes, List.map_cons, List.sum_cons, reduceCtorEq, false_or,
        Nat.cast_add]
      omega

/-- A handle for log files of `1048576` bytes. -/
def smallHandle : ServerLogHandle where
  iLogFd := 3
  iLogSize := 1048576
  iLogLevel := 5
  iLogFileCount := 3
  iLogStd := .file
  szLogFilename := ['l', 'o', 'g']
  size_ge := by decide
  count_ge := by decide
  count_lt := by decide
  filename_lt := by decide

/-- It logs to a file of `n` bytes. -/
def smallLog (n : ℕ) : LogState where
  fs := {
    dir := fun p => if p = ['l', 'o', 'g'] then some 0 else none
    data := fun _ => List.replicate n 0
    fds := fun fd => if fd = 3 then some 0 else none
    next := 1
    dir_lt := fun h => by split at h <;> simp_all
    fds_lt := fun h => by split at h <;> simp_all }
  handle := some smallHandle
  printed := []

theorem smallLog_logsTo (n : ℕ) : (smallLog n).LogsTo smallHandle :=
  ⟨rfl, rfl, by decide, 0, rfl, rfl⟩

theorem logSize_smallLog (n : ℕ) : (smallLog n).logSize smallHandle = n :=
  List.length_replicate

/-- An empty message. -/
def emptyCall : LogCall := ⟨.error, [], [], none⟩

/-- Two lines in an empty log file. -/
theorem printLog_bounded_sample :
    Run.Along printLog LogState.WriteBounded (smallLog 0) [emptyCall, emptyCall] :=
  (printLog_bounded_iff (smallLog_logsTo 0) [emptyCall, emptyCall]).mpr
    (Or.inr (Or.inr (by rw [logSize_smallLog]; decide)))

/-- **A log file that has the size of its limit and one line more** is not rolled:
the next line makes it longer. -/
theorem printLog_not_bounded :
    (smallLog (1048576 + 8192)).LogsTo smallHandle
      ∧ ¬ Run.Along printLog LogState.WriteBounded (smallLog (1048576 + 8192)) [emptyCall]
      ∧ ∃ s', printLog (smallLog (1048576 + 8192)) emptyCall = some s'
        ∧ smallHandle.iLogSize + maxLogmsgLen < s'.logSize smallHandle := by
  have hlogs := smallLog_logsTo (1048576 + 8192)
  have hlimit : smallHandle.iLogSize = 1048576 := rfl
  refine ⟨hlogs, fun hall => ?_, ?_⟩
  · have hbelow := (hlogs.writeBounded_iff (by decide)).mp hall.1
    rw [logSize_smallLog, hlimit] at hbelow
    omega
  · obtain ⟨s', hwrite, -, hsize⟩ := hlogs.write emptyCall.szMsg
    have hline : emptyCall.szMsg.length = 9 := by decide
    refine ⟨s', (hlogs.printLog_eq_write (by decide) _).trans hwrite, ?_⟩
    rw [hsize, logSize_smallLog, hline, hlimit, maxLogmsgLen]
    decide
