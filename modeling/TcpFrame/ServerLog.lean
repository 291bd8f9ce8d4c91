import Mathlib.Data.Nat.Digits.Defs
import TcpFrame.Comm
import TcpFrame.Lib.FileSystem

/-!
# The log files

`server_log.c`: a handle writes its lines to the file `szLogFilename`, and a file
that has grown too large is to become the first of `iLogFileCount` backups,
`szLogFilename.1`, each older one moving one number up.

The file system is a library of its own (`FileSystem`); a name is the list of its
characters and a line the list of its bytes, neither with the closing `NUL`. The
names of one handle differ in their last component only, so that they are
different files. What `open` returns, `none` for a failure, the time of day and
the message are inputs. A run that uses a handle after it was freed has no result.
-/

/-- A path name. -/
abbrev PathName := List Char

/-- The files of the server. -/
abbrev Files := FileSystem PathName UInt8

/-! ## Constants of `server_log.h` and `comm.h` -/

@[simp] def minLogfileSize : ℤ := 1024 * 1024

@[simp] def maxPathLen : ℕ := 512

@[simp] def maxLogmsgLen : ℕ := 8192

@[simp] def logPathLen : ℕ := 80

/-- `LOG_LEVEL`, as far as there are names for it. -/
inductive LogLevel where
  | error
  | warning
  | info
  | debug
  deriving DecidableEq, Repr

/-- The value of a level. -/
def LogLevel.value : LogLevel → ℤ
  | .error => 0
  | .warning => 1
  | .info => 2
  | .debug => 3

/-- What `COMM_SYSTEM_VARS` says about where the lines go. -/
inductive LogStd where
  | stdout
  | stdin
  | stderr
  | devnull
  | file
  deriving DecidableEq, Repr

/-! ## The handle -/

/-- **`ServerLogHandle`**, with what `CreateLogfileHandle` sees to. -/
structure ServerLogHandle where
  iLogFd : ℤ
  iLogSize : ℤ
  iLogLevel : ℤ
  iLogFileCount : ℕ
  iLogStd : LogStd
  szLogFilename : PathName
  size_ge : minLogfileSize ≤ iLogSize
  count_ge : 3 ≤ iLogFileCount
  count_lt : iLogFileCount < 2 ^ 31
  filename_lt : szLogFilename.length < logPathLen

/-- The bytes of a text in ASCII. -/
def ascii (text : String) : List UInt8 :=
  text.toList.map fun c => UInt8.ofNat c.toNat

/-- `szLogOut`. -/
def szLogOut : LogLevel → List UInt8
  | .error => ascii "ERROR"
  | .warning => ascii "WARN"
  | .info => ascii "INFO"
  | .debug => ascii "DEBUG"

/-- What `snprintf` leaves of a text in `size` bytes, the last of them `NUL`. -/
def snprintf {α : Type} (size : ℕ) (text : List α) : List α := text.take (size - 1)

/-- `"%s.%d"`, the name of a backup. -/
def ServerLogHandle.numbered (t : ServerLogHandle) (i : ℕ) : PathName :=
  snprintf (maxPathLen - 1) (t.szLogFilename ++ '.' :: Nat.toDigits 10 i)

/-! ## Rolling -/

/-- `CheckFileSize`. It looks at the file of no handle but `NULL`. -/
def checkFileSize (fs : Files) (t_pstServerLogHandle : Option ServerLogHandle) : Option ℤ :=
  if t_pstServerLogHandle ≠ none then some 0
  else
    -- the name is read through `NULL`
    t_pstServerLogHandle.bind fun t =>
      match fs.stat t.szLogFilename with
      | none => some 0
      | some st_size => some (if (st_size : ℤ) ≥ t.iLogSize then 1 else 0)

/-- The loop of `__roll_oldfile2new`, on the numbers up to `i`. -/
def rollBackups (t : ServerLogHandle) : ℕ → Files → Files
  | 0, fs => fs
  | i + 1, fs =>
    let szOldFile := t.numbered (i + 1)
    let szNewFile := t.numbered (i + 1 + 1)
    rollBackups t i (if (fs.stat szOldFile).isSome then fs.rename szOldFile szNewFile else fs)

/-- `__roll_oldfile2new`: the files and the handle it leaves, which is freed
where `open` fails. -/
def rollOldfile2new (fs : Files) (t_pstServerLogHandle : Option ServerLogHandle)
    (iLogFd : Option ℕ) : Files × Option ServerLogHandle :=
  match t_pstServerLogHandle with
  | none => (fs, none)
  | some t =>
    let fs := if t.iLogFd ≥ 0 then fs.close t.iLogFd.toNat else fs
    let szOldFile := t.numbered t.iLogFileCount
    let fs := if (fs.stat szOldFile).isSome then fs.remove szOldFile else fs
    let fs := rollBackups t (t.iLogFileCount - 1) fs
    let szNewFile := snprintf (maxPathLen - 1) (t.szLogFilename ++ ['.', '1'])
    let fs := if (fs.stat t.szLogFilename).isSome then fs.rename t.szLogFilename szNewFile else fs
    match iLogFd with
    | none => (fs, none)
    | some iLogFd => (fs.openAppend t.szLogFilename iLogFd, some { t with iLogFd := iLogFd })

/-! ## Writing a line -/

/-- The handle, the files, and what was printed. -/
structure LogState where
  fs : Files
  handle : Option ServerLogHandle
  printed : List UInt8

/-- A call of `__print_log`: its level and its message, the date it finds, and
what `open` returns if it is called. -/
structure LogCall where
  t_iLogLevel : LogLevel
  t_pszMsg : List UInt8
  date : List UInt8
  iLogFd : Option ℕ

/-- The line of a call, `szMsg`. -/
def LogCall.szMsg (call : LogCall) : List UInt8 :=
  snprintf maxLogmsgLen (ascii "[" ++ szLogOut call.t_iLogLevel ++ ascii "]" ++ call.date
    ++ ascii ":" ++ call.t_pszMsg ++ ascii "\n")

/-- `write` through the handle, unless that was freed. -/
def LogState.write (s : LogState) (szMsg : List UInt8) : Option LogState :=
  s.handle.map fun t => { s with fs := s.fs.write t.iLogFd.toNat szMsg }

/-- The files are rolled. -/
def LogState.roll (s : LogState) (iLogFd : Option ℕ) : LogState :=
  let (fs, handle) := rollOldfile2new s.fs s.handle iLogFd
  { s with fs := fs, handle := handle }

/-- `__print_log`. -/
def printLog (s : LogState) (call : LogCall) : Option LogState :=
  match s.handle with
  | none => some s
  | some t =>
    if t.iLogFd > 0 ∧ t.iLogStd = .file then
      (checkFileSize s.fs (some t)).bind fun size =>
        (if size > 0 then s.roll call.iLogFd else s).write call.szMsg
    else if t.iLogStd = .stdout ∨ t.iLogStd = .stderr then
      some { s with printed := s.printed ++ call.szMsg ++ ascii "\n" }
    else some s

/-- `__LogMsg`: a message below the level of the handle is dropped, and any other
goes on with its place in the source. -/
def logMsg (s : LogState) (t_pFilename : List UInt8) (t_iLinePos : ℕ) (call : LogCall) :
    Option LogState :=
  match s.handle with
  | none => some s
  | some t =>
    if t.iLogLevel < call.t_iLogLevel.value then some s
    else
      let szMsg := snprintf maxLogmsgLen call.t_pszMsg
      let szMsg1 := snprintf (maxPathLen - 1) (ascii "<" ++ t_pFilename ++ ascii ":"
        ++ ascii (toString t_iLinePos) ++ ascii ">:" ++ szMsg)
      printLog s { call with t_pszMsg := szMsg1 }

/-! ## A new handle -/

/-- `CreateLogfileHandle`, where `malloc` finds memory. A name that does not fit
into the handle is written past its end. A file that is there is opened without
`O_CREAT`, which comes to the same. -/
def createLogfileHandle (fs : Files) (t_pFilename : PathName)
    (t_iLogLevel t_iLogSize t_iRollCount : ℤ) (iLogFd : Option ℕ) :
    Option (Files × Option ServerLogHandle) :=
  if hname : t_pFilename.length < logPathLen ∧ t_iRollCount < 2 ^ 31 then
    let t : ServerLogHandle := {
      iLogFd := 0
      iLogSize := if t_iLogSize < minLogfileSize then minLogfileSize else t_iLogSize
      iLogLevel := if t_iLogLevel < 0 then 0 else t_iLogLevel
      iLogFileCount := if t_iRollCount < 3 then 3 else t_iRollCount.toNat
      iLogStd := .file
      szLogFilename := t_pFilename
      size_ge := by split <;> omega
      count_ge := by split <;> omega
      count_lt := by split <;> omega
      filename_lt := hname.1 }
    if "/dev/null".toList.isPrefixOf t_pFilename then
      some (fs, some { t with iLogStd := .devnull })
    else if "stdout".toList.isPrefixOf t_pFilename then
      some (fs, some { t with iLogStd := .stdout })
    else
      match iLogFd with
      | none => some (fs, none)
      | some iLogFd => some (fs.openAppend t_pFilename iLogFd, some { t with iLogFd := iLogFd })
  else none

/-- `DestroyLogfileHandle`. -/
def destroyLogfileHandle (fs : Files) (t_pstServerLogHandle : Option ServerLogHandle) :
    Files × Option ServerLogHandle :=
  match t_pstServerLogHandle with
  | none => (fs, none)
  | some t => (if t.iLogFd ≥ 0 then fs.close t.iLogFd.toNat else fs, none)
