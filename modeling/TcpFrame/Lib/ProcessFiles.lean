import TcpFrame.Lib.FileSystem

/-!
# The files of several processes

Processes share the names and the data of a file system, and each has descriptors
of its own. What one of them does is a call of `FileSystem` on what it sees
(`view`), which is then put back (`update`); a child begins with the descriptors
of its parent, and a process that ends has none.

No process changes where the descriptors of another one lead. So a name and a
descriptor that lead to one file still do as long as the name is kept, which
appending and opening to append see to (`FileSystem.Extends`).
-/

variable {Pid Path Byte : Type*}

/-- **The names and the files, and the descriptors of every process.** -/
structure ProcessFiles (Pid Path Byte : Type*) where
  dir : Path → Option ℕ
  data : ℕ → List Byte
  fds : Pid → ℕ → Option ℕ
  next : ℕ
  dir_lt : ∀ {p ino}, dir p = some ino → ino < next
  fds_lt : ∀ {pid fd ino}, fds pid fd = some ino → ino < next

namespace ProcessFiles

variable {s : ProcessFiles Pid Path Byte} {fs : FileSystem Path Byte} {pid parent child : Pid}
  {p : Path} {fd : ℕ}

/-- What a name leads to, if it leads to a file. -/
def content (s : ProcessFiles Pid Path Byte) (p : Path) : Option (List Byte) :=
  (s.dir p).map s.data

/-- **What one process sees.** -/
def view (s : ProcessFiles Pid Path Byte) (pid : Pid) : FileSystem Path Byte where
  dir := s.dir
  data := s.data
  fds := s.fds pid
  next := s.next
  dir_lt := s.dir_lt
  fds_lt := s.fds_lt

variable [DecidableEq Pid]

/-- The files of a process that is the only one. -/
def single (pid : Pid) (fs : FileSystem Path Byte) : ProcessFiles Pid Path Byte where
  dir := fs.dir
  data := fs.data
  fds := Function.update (fun _ _ => none) pid fs.fds
  next := fs.next
  dir_lt := fs.dir_lt
  fds_lt {pid'} _ _ h := by
    by_cases heq : pid' = pid
    · subst heq
      rw [Function.update_self] at h
      exact fs.fds_lt h
    · rw [Function.update_of_ne heq] at h
      exact absurd h (by simp)

/-- **What one process has done**, seen by all. -/
def update (s : ProcessFiles Pid Path Byte) (pid : Pid) (fs : FileSystem Path Byte) :
    ProcessFiles Pid Path Byte where
  dir := fs.dir
  data := fs.data
  fds := Function.update s.fds pid fs.fds
  next := max s.next fs.next
  dir_lt h := (fs.dir_lt h).trans_le (Nat.le_max_right ..)
  fds_lt {pid'} _ _ h := by
    by_cases heq : pid' = pid
    · subst heq
      rw [Function.update_self] at h
      exact (fs.fds_lt h).trans_le (Nat.le_max_right ..)
    · rw [Function.update_of_ne heq] at h
      exact (s.fds_lt h).trans_le (Nat.le_max_left ..)

/-- `fork`: the child has the descriptors of its parent. -/
def fork (s : ProcessFiles Pid Path Byte) (parent child : Pid) : ProcessFiles Pid Path Byte :=
  s.update child (s.view parent)

/-- The end of a process, which closes its descriptors. -/
def exit (s : ProcessFiles Pid Path Byte) (pid : Pid) : ProcessFiles Pid Path Byte :=
  s.update pid { s.view pid with fds := fun _ => none, fds_lt := fun h => absurd h (by simp) }

theorem opens_single : ((single pid fs).view pid).Opens p fd ↔ fs.Opens p fd := by
  unfold FileSystem.Opens
  show (∃ ino, fs.dir p = some ino
    ∧ Function.update (fun _ _ => none) pid fs.fds pid fd = some ino) ↔ _
  rw [Function.update_self]

/-- The process itself sees what it has done. -/
theorem opens_update_self : ((s.update pid fs).view pid).Opens p fd ↔ fs.Opens p fd := by
  unfold FileSystem.Opens
  show (∃ ino, fs.dir p = some ino ∧ Function.update s.fds pid fs.fds pid fd = some ino) ↔ _
  rw [Function.update_self]

/-- **Another process keeps its files** as long as their names are kept. -/
theorem opens_update_of_ne (hne : child ≠ pid) (hkeep : (s.view pid).Extends fs)
    (h : (s.view child).Opens p fd) : ((s.update pid fs).view child).Opens p fd := by
  obtain ⟨ino, hp, hfd⟩ := h
  refine ⟨ino, hkeep hp, ?_⟩
  show Function.update s.fds pid fs.fds child fd = some ino
  rw [Function.update_of_ne hne]
  exact hfd

end ProcessFiles
