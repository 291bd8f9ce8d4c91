import TcpFrame.Lib.PartialMap

/-!
# A file system of regular files

Names lead to files, and so do the descriptors that are open. A name is one entry
of a directory, however its path is written. A file is a number, and its data
outlives its name as long as it is open; the numbers from `next` on are not in
use, so that a file that is created is a new one.

The calls are those of POSIX on regular files. A call that fails does nothing,
and which descriptor `open` returns is up to the caller of the model.
-/

variable {Path Byte : Type*}

/-- **The names, the files and the open descriptors.** -/
@[ext]
structure FileSystem (Path Byte : Type*) where
  dir : Path → Option ℕ
  data : ℕ → List Byte
  fds : ℕ → Option ℕ
  next : ℕ
  dir_lt : ∀ {p ino}, dir p = some ino → ino < next
  fds_lt : ∀ {fd ino}, fds fd = some ino → ino < next

namespace FileSystem

variable {fs : FileSystem Path Byte} {p q : Path} {key : ℕ → Path} {fd ino n : ℕ}
  {bytes : List Byte}

/-- What a name leads to, if it leads to a file. -/
def content (fs : FileSystem Path Byte) (p : Path) : Option (List Byte) :=
  (fs.dir p).map fs.data

/-- `stat`: the size of a file that is there. -/
def stat (fs : FileSystem Path Byte) (p : Path) : Option ℕ :=
  (fs.content p).map List.length

/-- `close`. -/
def close (fs : FileSystem Path Byte) (fd : ℕ) : FileSystem Path Byte :=
  { fs with
    fds := Function.update fs.fds fd none
    fds_lt := fun h => fs.fds_lt (PartialMap.update_none_eq_some.mp h).2 }

/-- `write`, on a descriptor that was opened to append. -/
def write (fs : FileSystem Path Byte) (fd : ℕ) (bytes : List Byte) : FileSystem Path Byte :=
  { fs with data := fun ino => if fs.fds fd = some ino then fs.data ino ++ bytes else fs.data ino }

variable [DecidableEq Path]

/-- `remove`. -/
def remove (fs : FileSystem Path Byte) (p : Path) : FileSystem Path Byte :=
  { fs with
    dir := Function.update fs.dir p none
    dir_lt := fun h => fs.dir_lt (PartialMap.update_none_eq_some.mp h).2 }

/-- `rename`, which does nothing where both names lead to one file. -/
def rename (fs : FileSystem Path Byte) (oldName newName : Path) : FileSystem Path Byte :=
  { fs with
    dir := PartialMap.move fs.dir oldName newName
    dir_lt := fun h => (PartialMap.eq_some_of_move h).elim fun _ hd => fs.dir_lt hd }

/-- **A new file** under the name `p`, open as `fd`. -/
def create (fs : FileSystem Path Byte) (p : Path) (fd : ℕ) : FileSystem Path Byte where
  dir := Function.update fs.dir p (some fs.next)
  data := Function.update fs.data fs.next []
  fds := Function.update fs.fds fd (some fs.next)
  next := fs.next + 1
  dir_lt h := (PartialMap.update_some_eq_some.mp h).elim (fun h => Nat.lt_succ_of_le h.2.le)
    fun h => Nat.lt_succ_of_lt (fs.dir_lt h.2)
  fds_lt h := (PartialMap.update_some_eq_some.mp h).elim (fun h => Nat.lt_succ_of_le h.2.le)
    fun h => Nat.lt_succ_of_lt (fs.fds_lt h.2)

/-- `open` with `O_CREAT | O_RDWR | O_APPEND`, where it returns `fd`. -/
def openAppend (fs : FileSystem Path Byte) (p : Path) (fd : ℕ) : FileSystem Path Byte :=
  match h : fs.dir p with
  | none => fs.create p fd
  | some ino =>
    { fs with
      fds := Function.update fs.fds fd (some ino)
      fds_lt := fun hfd => (PartialMap.update_some_eq_some.mp hfd).elim
        (fun hfd => hfd.2 ▸ fs.dir_lt h) fun hfd => fs.fds_lt hfd.2 }

/-- **Files renamed along a chain of names**, the last one first. -/
def shift (fs : FileSystem Path Byte) (key : ℕ → Path) (n : ℕ) : FileSystem Path Byte :=
  { fs with
    dir := PartialMap.shift key n fs.dir
    dir_lt := fun h => (PartialMap.eq_some_of_shift h).elim fun _ hd => fs.dir_lt hd }

/-! ## What the calls do to the files -/

/-- A name and a descriptor that lead to one file. -/
def Opens (fs : FileSystem Path Byte) (p : Path) (fd : ℕ) : Prop :=
  ∃ ino, fs.dir p = some ino ∧ fs.fds fd = some ino

omit [DecidableEq Path] in
/-- **A file that is there has a size.** -/
theorem stat_isSome : (fs.stat p).isSome = (fs.dir p).isSome := by
  unfold stat content
  rw [Option.isSome_map, Option.isSome_map]

/-- Every other name leads to what it led to. -/
theorem content_remove_of_ne (hq : q ≠ p) : (fs.remove p).content q = fs.content q :=
  congrArg (Option.map fs.data) (Function.update_of_ne hq _ _)

/-- **Removing a file that is there**, and nothing otherwise, is removing it. -/
theorem ite_remove : (if (fs.stat p).isSome then fs.remove p else fs) = fs.remove p := by
  rw [stat_isSome]
  split
  · rfl
  · next h =>
    have hnone : fs.dir p = none := by simpa using h
    ext1
    · exact (Function.update_eq_self_iff.mpr hnone.symm).symm
    all_goals rfl

/-- **Renaming a file that is there**, and nothing otherwise, is renaming it. -/
theorem ite_rename : (if (fs.stat p).isSome then fs.rename p q else fs) = fs.rename p q := by
  rw [stat_isSome]
  split
  · rfl
  · next h =>
    have hnone : fs.dir p = none := by simpa using h
    ext1
    · exact (if_pos (Or.inl hnone)).symm
    all_goals rfl

/-- The first name of the chain comes last. -/
theorem rename_shift : (fs.shift (fun i => key (i + 1)) n).rename (key 0) (key 1)
    = fs.shift key (n + 1) := by
  ext1
  · exact PartialMap.shift_succ.symm
  all_goals rfl

/-- **Every file is one name up**, where the last name led to none. -/
theorem content_shift_succ (hinj : Set.InjOn key (Set.Iic n)) (hfree : fs.dir (key n) = none)
    {i : ℕ} (hi : i < n) : (fs.shift key n).content (key (i + 1)) = fs.content (key i) :=
  congrArg (Option.map fs.data) (PartialMap.shift_key_succ hinj hfree hi)

/-- Only the names of the chain lead to another file. -/
theorem content_shift_of_ne (hp : ∀ i ≤ n, p ≠ key i) :
    (fs.shift key n).content p = fs.content p :=
  congrArg (Option.map fs.data) (PartialMap.shift_of_ne hp)

omit [DecidableEq Path] in
/-- **What is written goes to the end of the file.** -/
theorem content_write (h : fs.Opens p fd) :
    (fs.write fd bytes).content p = (fs.content p).map (· ++ bytes) := by
  obtain ⟨ino, hp, hfd⟩ := h
  show (fs.dir p).map (fs.write fd bytes).data = ((fs.dir p).map fs.data).map (· ++ bytes)
  rw [hp]
  exact congrArg some (if_pos hfd)

/-- **A file that is created is a new one.** -/
theorem dir_create : (fs.create p fd).dir p = some fs.next := Function.update_self ..

/-- It is empty. -/
theorem content_create : (fs.create p fd).content p = some [] := by
  show (Function.update fs.dir p (some fs.next) p).map (Function.update fs.data fs.next []) = _
  rw [Function.update_self, Option.map_some, Function.update_self]

/-- A file that was there is not the one that is created. -/
theorem data_create (h : ino < fs.next) : (fs.create p fd).data ino = fs.data ino :=
  Function.update_of_ne h.ne _ _

/-- **Every other name** leads to what it led to. -/
theorem content_create_of_ne (hq : q ≠ p) : (fs.create p fd).content q = fs.content q := by
  show (Function.update fs.dir p (some fs.next) q).map (fs.create p fd).data = _
  rw [Function.update_of_ne hq]
  cases h : fs.dir q with
  | none => simp [content, h]
  | some ino => simp [content, h, data_create (fs.dir_lt h)]

/-- The name that is opened and the descriptor lead to one file. -/
theorem opens_create : (fs.create p fd).Opens p fd :=
  ⟨fs.next, dir_create, Function.update_self ..⟩

theorem openAppend_of_none (h : fs.dir p = none) : fs.openAppend p fd = fs.create p fd := by
  unfold openAppend
  split
  · rfl
  · next hp => exact absurd (h.symm.trans hp) (by simp)

theorem opens_openAppend : (fs.openAppend p fd).Opens p fd := by
  unfold openAppend
  split
  · exact opens_create
  · next hp => exact ⟨_, hp, Function.update_self ..⟩

/-! ## Other names and other processes -/

/-- **No file has two names.** -/
def Unlinked (fs : FileSystem Path Byte) : Prop :=
  ∀ ⦃p q ino⦄, fs.dir p = some ino → fs.dir q = some ino → p = q

/-- **Every name is kept.** -/
def Extends (fs fs' : FileSystem Path Byte) : Prop :=
  ∀ ⦃p ino⦄, fs.dir p = some ino → fs'.dir p = some ino

omit [DecidableEq Path] in
/-- **What is written goes to one file only.** -/
theorem content_write_of_ne (hone : fs.Unlinked) (h : fs.Opens p fd) (hq : q ≠ p) :
    (fs.write fd bytes).content q = fs.content q := by
  obtain ⟨ino, hp, hfd⟩ := h
  show (fs.dir q).map (fs.write fd bytes).data = (fs.dir q).map fs.data
  cases hdir : fs.dir q with
  | none => rfl
  | some ino' =>
    refine congrArg some (if_neg (fun heq => hq (hone hdir ?_)))
    rw [hp, ← hfd, heq]

/-- **A write adds to the one file that is open**, name by name. -/
theorem content_write_getD (hone : fs.Unlinked) (h : fs.Opens p fd) :
    ((fs.write fd bytes).content q).getD []
      = (fs.content q).getD [] ++ if p = q then bytes else [] := by
  by_cases hq : p = q
  · subst hq
    rw [if_pos rfl, content_write h]
    obtain ⟨ino, hp, -⟩ := h
    unfold content
    rw [hp]
    rfl
  · rw [if_neg hq, List.append_nil, content_write_of_ne hone h (Ne.symm hq)]

theorem extends_openAppend : fs.Extends (fs.openAppend p fd) := by
  intro q ino hq
  unfold openAppend
  split
  · next hp =>
    have hne : q ≠ p := fun heq => absurd (hq.symm.trans (heq ▸ hp)) (by simp)
    exact (Function.update_of_ne hne _ _).trans hq
  · exact hq

/-- **Opening a file changes no content**, but for a file that is new and empty. -/
theorem content_openAppend : ((fs.openAppend p fd).content q).getD [] = (fs.content q).getD [] := by
  unfold openAppend
  split
  · next hp =>
    by_cases hq : q = p
    · have hnone : fs.content p = none := by
        unfold content
        rw [hp]
        rfl
      rw [hq, content_create, hnone]
      rfl
    · rw [content_create_of_ne hq]
  · rfl

/-- A file that is opened gets no second name. -/
theorem Unlinked.openAppend (h : fs.Unlinked) : (fs.openAppend p fd).Unlinked := by
  unfold FileSystem.openAppend
  split
  · intro q q' ino hq hq'
    rcases PartialMap.update_some_eq_some.mp hq with ⟨rfl, hino⟩ | ⟨-, hold⟩
    · rcases PartialMap.update_some_eq_some.mp hq' with ⟨rfl, -⟩ | ⟨-, hold'⟩
      · rfl
      · exact absurd (fs.dir_lt hold') (by omega)
    · rcases PartialMap.update_some_eq_some.mp hq' with ⟨rfl, hino⟩ | ⟨-, hold'⟩
      · exact absurd (fs.dir_lt hold) (by omega)
      · exact h hold hold'
  · exact h

end FileSystem
