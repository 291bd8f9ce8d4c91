import TcpFrame.ServerLog

/-!
# Rolling the log files

`__roll_oldfile2new` removes the oldest backup, moves every other one up by one
number and the log file to `.1`, and creates a new log file. The names of a handle
are one chain, with the log file as its first (`ServerLogHandle.logName`), and the
roll is one shift along it (`rollOldfile2new_eq`). The loop runs downwards, so
that each name is free when a file is moved to it, whether or not there was one.
-/

variable {t : ServerLogHandle} {fs fs' : Files} {fd i : ℕ}

/-! ## The names of a handle -/

/-- **The log file and its backups**, the newest first. -/
def ServerLogHandle.logName (t : ServerLogHandle) : ℕ → PathName
  | 0 => t.szLogFilename
  | i + 1 => t.szLogFilename ++ '.' :: Nat.toDigits 10 (i + 1)

/-- **Different numbers, different names.** -/
theorem ServerLogHandle.logName_injective (t : ServerLogHandle) :
    Function.Injective t.logName := by
  intro i j h
  cases i with
  | zero =>
    cases j with
    | zero => rfl
    | succ j => exact absurd (congrArg List.length h) (by simp [logName])
  | succ i =>
    cases j with
    | zero => exact absurd (congrArg List.length h) (by simp [logName])
    | succ j =>
      have hdigits : Nat.toDigits 10 (i + 1) = Nat.toDigits 10 (j + 1) :=
        (List.cons.inj (List.append_cancel_left h)).2
      calc i + 1 = Nat.ofDigitChars 10 (Nat.toDigits 10 (i + 1)) 0 :=
            Nat.ofDigitChars_ten_toDigits.symm
        _ = Nat.ofDigitChars 10 (Nat.toDigits 10 (j + 1)) 0 := by rw [hdigits]
        _ = j + 1 := Nat.ofDigitChars_ten_toDigits

/-- **No name is cut off**: a number has at most ten digits. -/
theorem ServerLogHandle.numbered_eq (t : ServerLogHandle) (hi : i + 1 < 2 ^ 31) :
    t.numbered (i + 1) = t.logName (i + 1) := by
  have hdigits : (Nat.toDigits 10 (i + 1)).length ≤ 10 :=
    (Nat.length_toDigits_le_iff (by decide) (by decide)).mpr (hi.trans (by decide))
  have hname := t.filename_lt
  have hlen : (t.szLogFilename ++ '.' :: Nat.toDigits 10 (i + 1)).length ≤ maxPathLen - 1 - 1 := by
    simp only [List.length_append, List.length_cons, logPathLen, maxPathLen] at hname ⊢
    omega
  exact List.take_of_length_le hlen

/-! ## The chain -/

/-- **The loop moves every backup up.** -/
theorem rollBackups_eq (hi : i < t.iLogFileCount) :
    rollBackups t i fs = fs.shift (fun j => t.logName (j + 1)) i := by
  have hcount := t.count_lt
  induction i generalizing fs with
  | zero => rfl
  | succ i ih =>
    rw [rollBackups, t.numbered_eq (by omega), t.numbered_eq (by omega), FileSystem.ite_rename,
      ih (by omega)]
    rfl

/-- The files with the descriptor of the handle closed. -/
def ServerLogHandle.closed (t : ServerLogHandle) (fs : Files) : Files :=
  if t.iLogFd ≥ 0 then fs.close t.iLogFd.toNat else fs

/-- **The roll is one shift along the chain**, with the oldest backup removed. -/
theorem rollOldfile2new_eq : rollOldfile2new fs (some t) (some fd)
    = ((((t.closed fs).remove (t.logName t.iLogFileCount)).shift t.logName
        t.iLogFileCount).openAppend t.szLogFilename fd, some { t with iLogFd := fd }) := by
  have hcount := t.count_lt
  obtain ⟨n, hn⟩ : ∃ n, t.iLogFileCount = n + 1 :=
    Nat.exists_eq_succ_of_ne_zero (Nat.pos_iff_ne_zero.mp (by have := t.count_ge; omega))
  have hlast : t.numbered t.iLogFileCount = t.logName t.iLogFileCount := by
    rw [hn]
    exact t.numbered_eq (hn ▸ hcount)
  have hfirst : snprintf (maxPathLen - 1) (t.szLogFilename ++ ['.', '1']) = t.logName 1 :=
    t.numbered_eq (i := 0) (by decide)
  have hloop : ∀ fs : Files, rollBackups t (t.iLogFileCount - 1) fs
      = fs.shift (fun j => t.logName (j + 1)) n := by
    intro fs
    rw [hn]
    exact rollBackups_eq (by omega)
  have hchain : ∀ fs : Files, (fs.shift (fun j => t.logName (j + 1)) n).rename t.szLogFilename
      (t.logName 1) = fs.shift t.logName t.iLogFileCount := by
    intro fs
    rw [hn]
    exact FileSystem.rename_shift
  unfold rollOldfile2new ServerLogHandle.closed
  simp only [FileSystem.ite_remove, hlast, hloop, hfirst, FileSystem.ite_rename]
  rw [hchain]

/-! ## What a roll leaves -/

/-- **The files are rolled** from `fs` to `fs'`: every backup is one number up, the
log file is the first of them, and there is a new one, open as `fd`. -/
structure ServerLogHandle.Rolled (t : ServerLogHandle) (fs fs' : Files) (fd : ℕ) : Prop where
  /-- A backup is there exactly if it was under the number before, with its content. -/
  backups : ∀ i, 1 ≤ i → i < t.iLogFileCount →
    fs'.content (t.logName (i + 1)) = fs.content (t.logName i)
  first : fs'.content (t.logName 1) = fs.content t.szLogFilename
  empty : fs'.content t.szLogFilename = some []
  opened : fs'.Opens t.szLogFilename fd
  /-- It is a file that was not there, under no name and no descriptor. -/
  new : ∀ ino, fs'.dir t.szLogFilename = some ino →
    (∀ p, fs.dir p ≠ some ino) ∧ ∀ fd', fs.fds fd' ≠ some ino
  others : ∀ p, (∀ i ≤ t.iLogFileCount, p ≠ t.logName i) → fs'.content p = fs.content p
  /-- Nothing else is opened, closed or written to. -/
  fds : ∀ fd' : ℕ, fd' ≠ fd → (fd' : ℤ) ≠ t.iLogFd → fs'.fds fd' = fs.fds fd'
  data : ∀ ino < fs.next, fs'.data ino = fs.data ino

/-- Closing the descriptor of the handle leaves every other one. -/
theorem ServerLogHandle.fds_closed {fd' : ℕ} (h : (fd' : ℤ) ≠ t.iLogFd) :
    (t.closed fs).fds fd' = fs.fds fd' := by
  unfold ServerLogHandle.closed
  split
  · exact Function.update_of_ne (by omega) _ _
  · rfl

@[simp] theorem ServerLogHandle.dir_closed : (t.closed fs).dir = fs.dir := by
  unfold ServerLogHandle.closed
  split <;> rfl

@[simp] theorem ServerLogHandle.data_closed : (t.closed fs).data = fs.data := by
  unfold ServerLogHandle.closed
  split <;> rfl

@[simp] theorem ServerLogHandle.next_closed : (t.closed fs).next = fs.next := by
  unfold ServerLogHandle.closed
  split <;> rfl

@[simp] theorem ServerLogHandle.content_closed (p : PathName) :
    (t.closed fs).content p = fs.content p := by
  simp [FileSystem.content]

/-- The files after the renaming, before there is a new log file. -/
def ServerLogHandle.shifted (t : ServerLogHandle) (fs : Files) : Files :=
  ((t.closed fs).remove (t.logName t.iLogFileCount)).shift t.logName t.iLogFileCount

/-- The oldest backup is gone. -/
theorem ServerLogHandle.dir_last :
    ((t.closed fs).remove (t.logName t.iLogFileCount)).dir (t.logName t.iLogFileCount) = none :=
  Function.update_self ..

/-- **There is no log file** after the renaming. -/
theorem ServerLogHandle.dir_shifted : (t.shifted fs).dir t.szLogFilename = none := by
  show PartialMap.shift t.logName t.iLogFileCount
    ((t.closed fs).remove (t.logName t.iLogFileCount)).dir (t.logName 0) = none
  exact PartialMap.shift_key_zero dir_last

/-- **Every file is one name up** after it. -/
theorem ServerLogHandle.content_shifted (hi : i < t.iLogFileCount) :
    (t.shifted fs).content (t.logName (i + 1)) = fs.content (t.logName i) := by
  have hne : t.logName i ≠ t.logName t.iLogFileCount := t.logName_injective.ne hi.ne
  calc (t.shifted fs).content (t.logName (i + 1))
      = ((t.closed fs).remove (t.logName t.iLogFileCount)).content (t.logName i) :=
        FileSystem.content_shift_succ t.logName_injective.injOn dir_last hi
    _ = (t.closed fs).content (t.logName i) := FileSystem.content_remove_of_ne hne
    _ = fs.content (t.logName i) := content_closed _

/-- Every name that is not of the handle is left alone. -/
theorem ServerLogHandle.content_shifted_of_ne {p : PathName}
    (hp : ∀ i ≤ t.iLogFileCount, p ≠ t.logName i) :
    (t.shifted fs).content p = fs.content p := by
  calc (t.shifted fs).content p
      = ((t.closed fs).remove (t.logName t.iLogFileCount)).content p :=
        FileSystem.content_shift_of_ne hp
    _ = (t.closed fs).content p := FileSystem.content_remove_of_ne (hp _ le_rfl)
    _ = fs.content p := content_closed _

/-- **A new log file** on top of the renaming makes a roll. -/
theorem ServerLogHandle.rolled_create :
    t.Rolled fs ((t.shifted fs).create t.szLogFilename fd) fd := by
  have hbackup : ∀ i < t.iLogFileCount,
      ((t.shifted fs).create t.szLogFilename fd).content (t.logName (i + 1))
        = fs.content (t.logName i) := fun i hi =>
    (FileSystem.content_create_of_ne (t.logName_injective.ne (Nat.succ_ne_zero i))).trans
      (content_shifted hi)
  have hnext : (t.shifted fs).next = fs.next := next_closed
  have hcount := t.count_ge
  exact {
    backups := fun i _ hi => hbackup i hi
    first := hbackup 0 (by omega)
    empty := FileSystem.content_create
    opened := FileSystem.opens_create
    new := by
      intro ino hino
      obtain rfl : (t.shifted fs).next = ino :=
        Option.some.inj (FileSystem.dir_create.symm.trans hino)
      rw [hnext]
      exact ⟨fun p hp => lt_irrefl _ (fs.dir_lt hp), fun fd' hfd => lt_irrefl _ (fs.fds_lt hfd)⟩
    others := fun p hp =>
      (FileSystem.content_create_of_ne (hp 0 (Nat.zero_le _))).trans (content_shifted_of_ne hp)
    fds := fun fd' hne hold => (Function.update_of_ne hne _ _).trans (fds_closed hold)
    data := fun ino hino => (FileSystem.data_create (hino.trans_eq hnext.symm)).trans
      (congrFun data_closed ino) }

/-- **A roll of the files**, where `open` returns `fd`. -/
theorem rollOldfile2new_eq_rolled (fs : Files) (t : ServerLogHandle) (fd : ℕ) :
    ∃ fs', rollOldfile2new fs (some t) (some fd) = (fs', some { t with iLogFd := fd })
      ∧ t.Rolled fs fs' fd := by
  refine ⟨(t.shifted fs).create t.szLogFilename fd, ?_, ServerLogHandle.rolled_create⟩
  rw [← FileSystem.openAppend_of_none ServerLogHandle.dir_shifted]
  exact rollOldfile2new_eq

/-- **`__roll_oldfile2new` shifts the backups** and loses nothing but the oldest,
whichever of the files are there: the handle goes on in a new log file. -/
theorem rollOldfile2new_shifts (fs : Files) (t : ServerLogHandle) (fd : ℕ) :
    (rollOldfile2new fs (some t) (some fd)).2 = some { t with iLogFd := fd }
      ∧ t.Rolled fs (rollOldfile2new fs (some t) (some fd)).1 fd := by
  obtain ⟨fs', heq, hrolled⟩ := rollOldfile2new_eq_rolled fs t fd
  rw [heq]
  exact ⟨rfl, hrolled⟩
