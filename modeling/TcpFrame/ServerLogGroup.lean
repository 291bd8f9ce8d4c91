import Mathlib.Data.List.Basic
import TcpFrame.Lib.ProcessFiles
import TcpFrame.ServerLogSize

/-!
# The logs of the process group

The master opens `./log/connsvr.log` before it forks, and a child begins with the
handle of the master. It destroys that one and creates another, for a file with
its process number in the name, before it goes on. Every process logs through
`g_pstServerLogHandle`, whatever that is at the time.

So a line of a child is in the log of the master as long as the child has not
destroyed the handle, nowhere while there is no handle, and in its own log from
then on. In any order of the steps of any number of processes, each log is what it
was before, and then the lines that belong into it, whole, in order, and with no
other line among them (`logs_always_separate`). No lock is taken between processes: it
is appending that keeps the lines whole, and the names that keep them apart.

What is not looked at is a signal inside one of the calls.
-/

variable {s : LogState} {t : ServerLogHandle} {pid : ℕ}

/-! ## One line -/

/-- The line of a message. -/
def logLine (t_pFilename : List UInt8) (t_iLinePos : ℕ) (call : LogCall) : List UInt8 :=
  LogCall.szMsg { call with
    t_pszMsg := snprintf (maxPathLen - 1) (ascii "<" ++ t_pFilename ++ ascii ":"
      ++ ascii (toString t_iLinePos) ++ ascii ">:" ++ snprintf maxLogmsgLen call.t_pszMsg) }

/-- **A message whose level is let through is written**, as its line. -/
theorem LogState.LogsTo.logMsg_eq_write (h : s.LogsTo t) (hfd : t.iLogFd ≠ 0)
    {call : LogCall} (hlevel : call.t_iLogLevel.value ≤ t.iLogLevel)
    (t_pFilename : List UInt8) (t_iLinePos : ℕ) :
    logMsg s t_pFilename t_iLinePos call = s.write (logLine t_pFilename t_iLinePos call) := by
  unfold logMsg
  rw [h.handle]
  dsimp only
  rw [if_neg (not_lt.mpr hlevel)]
  exact h.printLog_eq_write hfd _

/-- No level is above `LOG_DEBUG_LEVEL`. -/
theorem LogLevel.value_le (level : LogLevel) : level.value ≤ 3 := by
  cases level <;> decide

/-! ## The processes -/

/-- `./log/connsvr.log`. -/
def masterLog : PathName := "./log/connsvr.log".toList

/-- `szLogNameNew`: `./log/connsvr-worker-%d`, with the process number. -/
def szLogNameNew (pid : ℕ) : PathName :=
  snprintf (1024 - 1) ("./log/connsvr-worker-".toList ++ Nat.toDigits 10 pid)

/-- **A process**, as far as its log goes: its `g_pstServerLogHandle`, what it has
printed, and whether it is a child that has a handle of its own. -/
structure LogProcess where
  handle : Option ServerLogHandle
  printed : List UInt8
  own : Bool

/-- A line that a process had a handle for. -/
structure LogRecord where
  pid : ℕ
  own : Bool
  line : List UInt8

/-- **The processes and their files.** `recorded` are the lines, in order. -/
structure LogGroup where
  files : ProcessFiles ℕ PathName UInt8
  master : ℕ
  process : ℕ → Option LogProcess
  recorded : List LogRecord

/-- What a process does. -/
inductive LogEvent where
  /-- The master forks a child. -/
  | fork (pid : ℕ)
  /-- A child destroys the handle it has from the master. -/
  | destroy (pid : ℕ)
  /-- A child creates its own handle; `open` returns `iLogFd`. -/
  | create (pid : ℕ) (iLogFd : Option ℕ)
  /-- A process logs a message. -/
  | log (pid : ℕ) (t_pFilename : List UInt8) (t_iLinePos : ℕ) (call : LogCall)
  /-- A process ends. -/
  | exit (pid : ℕ)

namespace LogGroup

/-- A process puts what it sees and what it is. -/
def put (g : LogGroup) (pid : ℕ) (fs : Files) (p : LogProcess) : LogGroup :=
  { g with
    files := g.files.update pid fs
    process := Function.update g.process pid (some p) }

/-- A process is gone. -/
def remove (g : LogGroup) (pid : ℕ) : LogGroup :=
  { g with
    files := g.files.exit pid
    process := Function.update g.process pid none }

/-- The master with its handle, over the files that were there. -/
def start (fs : Files) (master : ℕ) (iLogFd : Option ℕ) : Option LogGroup :=
  (createLogfileHandle fs masterLog 5 (1024 * 10240) 10 iLogFd).bind fun (fs, handle) =>
    handle.map fun t =>
      { files := .single master fs
        master := master
        process := Function.update (fun _ => none) master (some ⟨some t, [], false⟩)
        recorded := [] }

/-- **One step of one process.** -/
def step (g : LogGroup) : LogEvent → Option LogGroup
  | .fork pid =>
    if (g.process pid).isSome then none
    else (g.process g.master).map fun p =>
      { g with
        files := g.files.fork g.master pid
        process := Function.update g.process pid (some p) }
  | .destroy pid =>
    if pid = g.master then none
    else (g.process pid).bind fun p =>
      if p.own then none
      else
        let (fs, handle) := destroyLogfileHandle (g.files.view pid) p.handle
        some (g.put pid fs { p with handle := handle })
  | .create pid iLogFd =>
    if pid = g.master then none
    else (g.process pid).bind fun p =>
      if p.handle.isSome then none
      else
        (createLogfileHandle (g.files.view pid) (szLogNameNew pid) 5 (1024 * 1024 * 10) 5
            iLogFd).map fun (fs, handle) =>
          -- without a handle, the child returns from `main`
          if handle.isSome then g.put pid fs { p with handle := handle, own := true }
          else g.remove pid
  | .log pid t_pFilename t_iLinePos call =>
    (g.process pid).bind fun p =>
      (logMsg ⟨g.files.view pid, p.handle, p.printed⟩ t_pFilename t_iLinePos call).map fun s =>
        { g.put pid s.fs { p with handle := s.handle, printed := s.printed } with
          recorded := g.recorded ++ if p.handle.isSome then
            [⟨pid, p.own, logLine t_pFilename t_iLinePos call⟩] else [] }
  | .exit pid =>
    (g.process pid).map fun _ => g.remove pid

end LogGroup

/-! ## The names of the logs -/

/-- The file a process logs to: its own, or that of the master. -/
def logName (pid : ℕ) (own : Bool) : PathName := if own then szLogNameNew pid else masterLog

/-- **Different workers, different names**, where the names fit into a handle. -/
theorem szLogNameNew_inj {pid' : ℕ} (hlen : (szLogNameNew pid).length < logPathLen)
    (h : szLogNameNew pid = szLogNameNew pid') : pid = pid' := by
  have hfull : ∀ n : ℕ, (szLogNameNew n).length < logPathLen →
      szLogNameNew n = "./log/connsvr-worker-".toList ++ Nat.toDigits 10 n := by
    intro n hn
    refine List.take_of_length_le ?_
    unfold szLogNameNew snprintf at hn
    rw [List.length_take] at hn
    have h80 : logPathLen = 80 := rfl
    omega
  have hdigits : Nat.toDigits 10 pid = Nat.toDigits 10 pid' :=
    List.append_cancel_left ((hfull pid hlen).symm.trans (h.trans (hfull pid' (h ▸ hlen))))
  calc pid = Nat.ofDigitChars 10 (Nat.toDigits 10 pid) 0 := Nat.ofDigitChars_ten_toDigits.symm
    _ = Nat.ofDigitChars 10 (Nat.toDigits 10 pid') 0 := by rw [hdigits]
    _ = pid' := Nat.ofDigitChars_ten_toDigits

/-- The log of the master is not that of a worker. -/
theorem masterLog_ne : masterLog ≠ szLogNameNew pid := by
  intro h
  have hchar : masterLog[13]? = (szLogNameNew pid)[13]? := by rw [h]
  exact absurd (show some '.' = some '-' from hchar) (by decide)

/-- **A handle for a file**, or none: what `CreateLogfileHandle` leaves, for the two
names there are. -/
theorem createLogfileHandle_cases (pid : ℕ) (own : Bool) {fs fs' : Files}
    {handle : Option ServerLogHandle} {t_iLogSize t_iRollCount : ℤ} {iLogFd : Option ℕ}
    (h : createLogfileHandle fs (logName pid own) 5 t_iLogSize t_iRollCount iLogFd
      = some (fs', handle)) :
    (logName pid own).length < logPathLen
      ∧ (iLogFd = none ∧ fs' = fs ∧ handle = none
        ∨ ∃ fd t, iLogFd = some fd ∧ fs' = fs.openAppend (logName pid own) fd ∧ handle = some t
          ∧ t.szLogFilename = logName pid own ∧ t.iLogLevel = 5 ∧ t.iLogFd = fd
          ∧ t.iLogStd = .file) := by
  have hnull : "/dev/null".toList.isPrefixOf (logName pid own) = false := by cases own <;> rfl
  have hstdout : "stdout".toList.isPrefixOf (logName pid own) = false := by cases own <;> rfl
  unfold createLogfileHandle at h
  split at h
  · next hname =>
    refine ⟨hname.1, ?_⟩
    rw [hnull, hstdout, if_neg (by decide), if_neg (by decide)] at h
    cases iLogFd with
    | none =>
      obtain ⟨rfl, rfl⟩ := Prod.mk.inj (Option.some.inj h)
      exact Or.inl ⟨rfl, rfl, rfl⟩
    | some fd =>
      obtain ⟨rfl, rfl⟩ := Prod.mk.inj (Option.some.inj h)
      exact Or.inr ⟨fd, _, rfl, rfl, rfl, rfl, rfl, rfl, rfl⟩
  · exact absurd h (by simp)

namespace LogGroup

variable {g g' : LogGroup} {fs : Files} {p : LogProcess} {q : PathName}

/-! ## What a process needs -/

/-- **A process logs to its file**: its handle is for the file with its name, all
levels are let through, and there is a descriptor. -/
structure Logging (files : ProcessFiles ℕ PathName UInt8) (pid : ℕ) (p : LogProcess)
    (t : ServerLogHandle) : Prop where
  name : t.szLogFilename = logName pid p.own
  level : 3 ≤ t.iLogLevel
  iLogFd : t.iLogFd ≠ 0
  logsTo : LogState.LogsTo ⟨files.view pid, some t, p.printed⟩ t

/-- **Another process does not disturb it** as long as it keeps the names. -/
theorem Logging.update_of_ne {files : ProcessFiles ℕ PathName UInt8} {child : ℕ}
    (h : Logging files child p t) (hne : child ≠ pid) (hkeep : (files.view pid).Extends fs) :
    Logging (files.update pid fs) child p t :=
  ⟨h.name, h.level, h.iLogFd, rfl, h.logsTo.iLogStd, h.logsTo.iLogFd,
    ProcessFiles.opens_update_of_ne hne hkeep h.logsTo.opens⟩

/-- The lines that belong to a file. -/
def linesOf (recorded : List LogRecord) (q : PathName) : List UInt8 :=
  (recorded.filter (fun r => logName r.pid r.own = q)).flatMap LogRecord.line

theorem linesOf_append_single (recorded : List LogRecord) (r : LogRecord) :
    linesOf (recorded ++ [r]) q
      = linesOf recorded q ++ if logName r.pid r.own = q then r.line else [] := by
  unfold linesOf
  rw [List.filter_append, List.flatMap_append, List.filter_singleton]
  by_cases hq : logName r.pid r.own = q
  · rw [if_pos hq, decide_eq_true hq, cond_true, List.flatMap_singleton]
  · rw [if_neg hq, decide_eq_false hq, cond_false, List.flatMap_nil]

/-- **The logs are exact**: each file is what it was, and then its lines. -/
structure Exact (fs₀ : Files) (g : LogGroup) : Prop where
  unlinked : (g.files.view g.master).Unlinked
  master : ∀ p, g.process g.master = some p → p.own = false
  logging : ∀ {pid p t}, g.process pid = some p → p.handle = some t → Logging g.files pid p t
  content : ∀ q, (g.files.content q).getD [] = (fs₀.content q).getD [] ++ linesOf g.recorded q
  short : ∀ r ∈ g.recorded, r.own = true → (szLogNameNew r.pid).length < logPathLen

/-! ## The steps -/

variable {fs₀ : Files}

/-- **What one process does keeps the logs exact**, if what it adds to the files is what
it records. -/
theorem Exact.put (more : List LogRecord) (h : g.Exact fs₀) (hone : fs.Unlinked)
    (hkeep : (g.files.view pid).Extends fs) (hmaster : pid = g.master → p.own = false)
    (hself : ∀ t, p.handle = some t → Logging (g.files.update pid fs) pid p t)
    (hcontent : ∀ q, (fs.content q).getD [] = (g.files.content q).getD [] ++ linesOf more q)
    (hshort : ∀ r ∈ more, r.own = true → (szLogNameNew r.pid).length < logPathLen) :
    { g.put pid fs p with recorded := g.recorded ++ more }.Exact fs₀ := by
  refine ⟨hone, ?_, ?_, fun q => ?_, ?_⟩
  · intro p' hp'
    rcases PartialMap.update_some_eq_some.mp hp' with ⟨heq, rfl⟩ | ⟨-, hold⟩
    · exact hmaster heq.symm
    · exact h.master p' hold
  · intro child p' t hp' ht
    rcases PartialMap.update_some_eq_some.mp hp' with ⟨rfl, rfl⟩ | ⟨hne, hold⟩
    · exact hself t ht
    · exact (h.logging hold ht).update_of_ne hne hkeep
  · show (fs.content q).getD [] = _ ++ linesOf (g.recorded ++ more) q
    rw [hcontent, h.content, List.append_assoc]
    unfold linesOf
    rw [List.filter_append, List.flatMap_append]
  · intro r hr
    rcases List.mem_append.mp hr with hr | hr
    · exact h.short r hr
    · exact hshort r hr

/-- The same, where nothing is recorded. -/
theorem Exact.put_quiet (h : g.Exact fs₀) (hone : fs.Unlinked)
    (hkeep : (g.files.view pid).Extends fs) (hmaster : pid = g.master → p.own = false)
    (hself : ∀ t, p.handle = some t → Logging (g.files.update pid fs) pid p t)
    (hcontent : ∀ q, (fs.content q).getD [] = (g.files.content q).getD []) :
    (g.put pid fs p).Exact fs₀ := by
  have hput := h.put [] hone hkeep hmaster hself
    (fun q => (hcontent q).trans (List.append_nil _).symm) (fun r hr => absurd hr List.not_mem_nil)
  rw [List.append_nil] at hput
  exact hput

/-- **A process that ends takes nothing with it.** -/
theorem Exact.remove (h : g.Exact fs₀) : (g.remove pid).Exact fs₀ := by
  refine ⟨h.unlinked, ?_, ?_, h.content, h.short⟩
  · intro p hp
    exact h.master p (PartialMap.update_none_eq_some.mp hp).2
  · intro child p t hp ht
    obtain ⟨hne, hold⟩ := PartialMap.update_none_eq_some.mp hp
    exact (h.logging hold ht).update_of_ne hne (fun _ _ hdir => hdir)

/-- **A child begins with the log of the master.** -/
theorem Exact.fork (h : g.Exact fs₀) (hstep : g.step (.fork pid) = some g') : g'.Exact fs₀ := by
  unfold step at hstep
  dsimp only at hstep
  split at hstep
  · exact absurd hstep (by simp)
  · next hnew =>
    obtain ⟨p, hp, rfl⟩ := Option.map_eq_some_iff.mp hstep
    have hne : pid ≠ g.master := fun heq => hnew (by rw [heq, hp]; rfl)
    have hown := h.master p hp
    refine h.put_quiet h.unlinked (fun _ _ hdir => hdir) (fun _ => hown) (fun t ht => ?_)
      (fun q => rfl)
    have hlog := h.logging hp ht
    refine ⟨?_, hlog.level, hlog.iLogFd, rfl, hlog.logsTo.iLogStd, hlog.logsTo.iLogFd,
      ProcessFiles.opens_update_self.mpr hlog.logsTo.opens⟩
    rw [hlog.name, hown]
    rfl

/-- **A child is without a handle** once it has destroyed that of the master. -/
theorem Exact.destroy (h : g.Exact fs₀) (hstep : g.step (.destroy pid) = some g') :
    g'.Exact fs₀ := by
  unfold step at hstep
  dsimp only at hstep
  split at hstep
  · exact absurd hstep (by simp)
  · next hne =>
    obtain ⟨p, hp, hstep⟩ := Option.bind_eq_some_iff.mp hstep
    split at hstep
    · exact absurd hstep (by simp)
    · obtain rfl := Option.some.inj hstep
      have hfiles : (destroyLogfileHandle (g.files.view pid) p.handle).1.dir = g.files.dir
          ∧ (destroyLogfileHandle (g.files.view pid) p.handle).1.data = g.files.data
          ∧ (destroyLogfileHandle (g.files.view pid) p.handle).2 = none := by
        unfold destroyLogfileHandle
        split
        · exact ⟨rfl, rfl, rfl⟩
        · refine ⟨?_, ?_, rfl⟩
          · split <;> rfl
          · split <;> rfl
      obtain ⟨hdir, hdata, hnone⟩ := hfiles
      refine h.put_quiet ?_ ?_ (fun heq => absurd heq hne) ?_ (fun q => ?_)
      · intro q q' ino hq hq'
        rw [hdir] at hq hq'
        exact h.unlinked hq hq'
      · intro q ino hq
        rw [hdir]
        exact hq
      · intro t ht
        rw [hnone] at ht
        exact absurd ht (by simp)
      · unfold FileSystem.content
        rw [hdir, hdata]
        rfl

/-- **A child logs to a file of its own** once it has created a handle. -/
theorem Exact.create (h : g.Exact fs₀) {iLogFd : Option ℕ} (hfd : iLogFd ≠ some 0)
    (hstep : g.step (.create pid iLogFd) = some g') : g'.Exact fs₀ := by
  unfold step at hstep
  dsimp only at hstep
  split at hstep
  · exact absurd hstep (by simp)
  next hne =>
  obtain ⟨p, hp, hstep⟩ := Option.bind_eq_some_iff.mp hstep
  split at hstep
  · exact absurd hstep (by simp)
  obtain ⟨⟨fs, handle⟩, hnew, hput⟩ := Option.map_eq_some_iff.mp hstep
  obtain ⟨-, ⟨-, -, rfl⟩ | ⟨fd, t, rfl, rfl, rfl, hname, hlevel, hiLogFd, hstd⟩⟩ :=
    createLogfileHandle_cases pid true hnew
  · -- there is no file, and the child ends
    rw [Option.isSome_none, if_neg (by decide)] at hput
    exact hput ▸ h.remove
  · rw [Option.isSome_some, if_pos rfl] at hput
    subst hput
    refine h.put_quiet (FileSystem.Unlinked.openAppend h.unlinked) FileSystem.extends_openAppend
      (fun heq => absurd heq hne) ?_ (fun q => FileSystem.content_openAppend)
    intro t' ht'
    obtain rfl := Option.some.inj ht'
    have hpos : fd ≠ 0 := fun heq => hfd (by rw [heq])
    have hlogs := createLogfileHandle_logsTo hnew hstd p.printed
    exact ⟨hname, by rw [hlevel]; decide, by rw [hiLogFd]; omega, rfl, hstd, hlogs.iLogFd,
      ProcessFiles.opens_update_self.mpr hlogs.opens⟩

/-- **A line goes to the end of the log of its process**, and nowhere else. -/
theorem Exact.log (h : g.Exact fs₀) {t_pFilename : List UInt8} {t_iLinePos : ℕ} {call : LogCall}
    (hstep : g.step (.log pid t_pFilename t_iLinePos call) = some g') : g'.Exact fs₀ := by
  unfold step at hstep
  dsimp only at hstep
  obtain ⟨p, hp, hstep⟩ := Option.bind_eq_some_iff.mp hstep
  obtain ⟨s, hs, rfl⟩ := Option.map_eq_some_iff.mp hstep
  have hmaster : pid = g.master → p.own = false := fun heq => h.master p (heq ▸ hp)
  cases ht : p.handle with
  | none =>
    rw [ht] at hs
    obtain rfl := Option.some.inj hs
    refine h.put _ h.unlinked (fun _ _ hdir => hdir) hmaster (fun t ht => absurd ht (by simp))
      (fun q => (List.append_nil _).symm) (fun r hr => absurd hr List.not_mem_nil)
  | some t =>
    have hlog := h.logging hp ht
    rw [ht, hlog.logsTo.logMsg_eq_write hlog.iLogFd (call.t_iLogLevel.value_le.trans hlog.level)]
      at hs
    obtain rfl := Option.some.inj hs
    have hopens : (g.files.view pid).Opens (logName pid p.own) t.iLogFd.toNat :=
      hlog.name ▸ hlog.logsTo.opens
    refine h.put _ h.unlinked (fun _ _ hdir => hdir) hmaster ?_ (fun q => ?_) ?_
    · intro t' ht'
      obtain rfl := Option.some.inj ht'
      refine ⟨hlog.name, hlog.level, hlog.iLogFd, rfl, hlog.logsTo.iLogStd, hlog.logsTo.iLogFd, ?_⟩
      rw [hlog.name]
      exact ProcessFiles.opens_update_self.mpr hopens
    · rw [Option.isSome_some, if_pos rfl, ← List.nil_append [_], linesOf_append_single]
      exact FileSystem.content_write_getD h.unlinked hopens
    · intro r hr hown
      rw [Option.isSome_some, if_pos rfl] at hr
      obtain rfl := List.mem_singleton.mp hr
      have hname : t.szLogFilename = szLogNameNew pid := by
        rw [hlog.name, show p.own = true from hown]
        rfl
      exact hname ▸ t.filename_lt

/-- **A step keeps the logs exact**, unless `open` returns the descriptor `0`. -/
theorem Exact.step (h : g.Exact fs₀) {event : LogEvent}
    (hfd : ∀ pid, event ≠ .create pid (some 0)) (hstep : g.step event = some g') :
    g'.Exact fs₀ := by
  cases event with
  | fork pid => exact h.fork hstep
  | destroy pid => exact h.destroy hstep
  | create pid iLogFd => exact h.create (fun heq => hfd pid (by rw [heq])) hstep
  | log pid t_pFilename t_iLinePos call => exact h.log hstep
  | exit pid =>
    obtain ⟨-, -, rfl⟩ := Option.map_eq_some_iff.mp hstep
    exact h.remove

end LogGroup

namespace LogGroup

variable {g : LogGroup} {fs₀ : Files}

/-- What is in a log, nothing where there is none. -/
def logBytes (g : LogGroup) (q : PathName) : List UInt8 := (g.files.content q).getD []

/-- **The logs are kept apart**: that of the master has the lines of the master and of
children without a handle of their own, that of a worker the lines of that worker, each
behind what was there before, and no other file is touched. -/
structure Separate (fs₀ : Files) (g : LogGroup) : Prop where
  master : g.logBytes masterLog = (fs₀.content masterLog).getD []
    ++ (g.recorded.filter (fun r => r.own = false)).flatMap LogRecord.line
  worker : ∀ pid, g.logBytes (szLogNameNew pid) = (fs₀.content (szLogNameNew pid)).getD []
    ++ (g.recorded.filter (fun r => r.own = true ∧ r.pid = pid)).flatMap LogRecord.line
  other : ∀ q, q ≠ masterLog → (∀ pid, q ≠ szLogNameNew pid) →
    g.logBytes q = (fs₀.content q).getD []

/-- **By its name, a file has the lines it should have.** -/
theorem Exact.separate (h : g.Exact fs₀) : g.Separate fs₀ := by
  refine ⟨?_, fun pid => ?_, fun q hq hq' => ?_⟩
  · rw [logBytes, h.content, linesOf]
    congr 2
    refine List.filter_congr (fun r _ => decide_eq_decide.mpr ?_)
    unfold logName
    cases r.own with
    | false => exact ⟨fun _ => rfl, fun _ => rfl⟩
    | true => exact ⟨fun heq => absurd heq.symm masterLog_ne, fun heq => absurd heq (by decide)⟩
  · rw [logBytes, h.content, linesOf]
    congr 2
    refine List.filter_congr (fun r hr => decide_eq_decide.mpr ?_)
    have hshort := h.short r hr
    unfold logName
    cases hown : r.own with
    | false => exact ⟨fun heq => absurd heq masterLog_ne, fun heq => absurd heq.1 (by decide)⟩
    | true =>
      exact ⟨fun heq => ⟨rfl, szLogNameNew_inj (hshort hown) heq⟩,
        fun heq => congrArg szLogNameNew heq.2⟩
  · refine (h.content q).trans ?_
    have hnone : g.recorded.filter (fun r => logName r.pid r.own = q) = [] := by
      refine List.filter_eq_nil_iff.mpr (fun r _ => ?_)
      rw [decide_eq_true_eq]
      unfold logName
      cases r.own with
      | false => exact Ne.symm hq
      | true => exact Ne.symm (hq' r.pid)
    rw [linesOf, hnone, List.flatMap_nil, List.append_nil]

/-- **The master begins with its log.** -/
theorem start_exact {fs : Files} (hone : fs.Unlinked) {master fd : ℕ} (hfd : fd ≠ 0)
    (hstart : start fs master (some fd) = some g) : g.Exact fs := by
  unfold start at hstart
  obtain ⟨⟨fs', handle⟩, hnew, hstart⟩ := Option.bind_eq_some_iff.mp hstart
  obtain ⟨t, ht, rfl⟩ := Option.map_eq_some_iff.mp hstart
  obtain ⟨-, ⟨-, -, hnone⟩ | ⟨fd', t', hfd', rfl, ht', hname, hlevel, hiLogFd, hstd⟩⟩ :=
    createLogfileHandle_cases master false hnew
  · rw [ht] at hnone
    exact absurd hnone (by simp)
  obtain rfl := Option.some.inj hfd'
  obtain rfl := Option.some.inj (ht.symm.trans ht')
  rw [ht] at hnew
  -- there is no other process
  have honly : ∀ {pid : ℕ} {p : LogProcess},
      Function.update (fun _ : ℕ => (none : Option LogProcess)) master
        (some ⟨some t, [], false⟩) pid = some p → pid = master ∧ p = ⟨some t, [], false⟩ := by
    intro pid p hp
    rcases PartialMap.update_some_eq_some.mp hp with h | ⟨-, hold⟩
    · exact h
    · exact absurd hold (by simp)
  refine ⟨hone.openAppend, ?_, ?_, fun q => ?_, fun r hr => absurd hr List.not_mem_nil⟩
  · intro p hp
    rw [(honly hp).2]
  · intro pid p t' hp ht'
    obtain ⟨rfl, rfl⟩ := honly hp
    obtain rfl := Option.some.inj ht'
    have hlogs := createLogfileHandle_logsTo hnew hstd []
    exact ⟨hname, by rw [hlevel]; decide, by rw [hiLogFd]; omega, rfl, hstd, hlogs.iLogFd,
      ProcessFiles.opens_single.mpr hlogs.opens⟩
  · exact FileSystem.content_openAppend.trans (List.append_nil _).symm

end LogGroup

/-- **Every log has its own lines, whole and in order**, whatever the processes do and in
whatever order they do it, as long as no log is opened as the descriptor `0`. -/
theorem logs_always_separate {fs : Files} (hone : fs.Unlinked) {master fd : ℕ} (hfd : fd ≠ 0)
    {g : LogGroup} (hstart : LogGroup.start fs master (some fd) = some g) {events : List LogEvent}
    (hopen : ∀ event ∈ events, ∀ pid, event ≠ .create pid (some 0)) :
    Run.Always LogGroup.step (LogGroup.Separate fs) g events :=
  (Run.always_of_along (P := LogGroup.Exact fs) (fun _ _ _ h hevent hstep => h.step hevent hstep)
    (LogGroup.start_exact hone hfd hstart)
    (Run.along_of_forall_mem (fun event hevent _ => hopen event hevent) g)).mono
    (fun _ h => h.separate)

/-- A file system without files. -/
def noFiles : Files where
  dir := fun _ => none
  data := fun _ => []
  fds := fun _ => none
  next := 0
  dir_lt h := absurd h (by simp)
  fds_lt h := absurd h (by simp)

/-- Two workers, the second of which logs before it has a handle of its own. -/
def twoWorkers : List LogEvent :=
  [.fork 101, .destroy 101, .fork 102, .log 102 [] 124 ⟨.error, [1], [], none⟩,
    .create 101 (some 4), .log 101 [] 500 ⟨.info, [2], [], none⟩,
    .log 100 [] 200 ⟨.info, [3], [], none⟩, .destroy 102, .create 102 (some 4),
    .log 102 [] 500 ⟨.info, [4], [], none⟩, .exit 101]

/-- A master without children, in a directory without files. -/
def newMaster : LogGroup := (LogGroup.start noFiles 100 (some 3)).get (by decide +kernel)

theorem logs_always_separate_sample :
    Run.Always LogGroup.step (LogGroup.Separate noFiles) newMaster twoWorkers :=
  logs_always_separate (fun _ _ _ h => absurd h (by simp [noFiles])) (show 3 ≠ 0 by decide)
    (show LogGroup.start noFiles 100 (some 3) = some newMaster from (Option.some_get _).symm)
    (by
      intro event hevent pid
      unfold twoWorkers at hevent
      simp only [List.mem_cons, List.not_mem_nil, or_false] at hevent
      rcases hevent with rfl | rfl | rfl | rfl | rfl | rfl | rfl | rfl | rfl | rfl | rfl <;> simp)
