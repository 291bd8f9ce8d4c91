import Mathlib.Algebra.Group.Nat.Defs
import Mathlib.Algebra.Ring.Int.Defs
import Mathlib.Data.Int.Order.Basic
import Mathlib.Tactic.Common

/-!
# The shared vocabulary of the framework

The constants and return codes of `comm.h` and `bin_proto.h`, and the readings
of C this model fixes once.

An `int` is an integer; where a computation can leave the 32-bit range and the
code depends on what happens then, the result goes through `int32`, two's
complement. A pointer is a number, and a pointer that may be `NULL` is an
`Option`. A `NULL` that no caller passes is not modelled.
-/

/-- A pointer to a timer node (`TimeoutEvent *`). -/
abbrev NodePtr := ℕ

/-- A pointer to a connection (`ConnFd *`). -/
abbrev ConnPtr := ℕ

/-- `RET_FAIL` and `RET_SUCC`. -/
inductive Ret where
  | fail
  | succ
  deriving DecidableEq, Repr

/-- **Two's complement**: the `int` a 32-bit computation leaves for the exact
result `x`. -/
def int32 (x : ℤ) : ℤ := Int.bmod x (2 ^ 32)

/-- In range, a 32-bit computation is exact. -/
theorem int32_eq_self {x : ℤ} (hlo : -2 ^ 31 ≤ x) (hhi : x < 2 ^ 31) : int32 x = x := by
  unfold int32
  rw [Int.bmod_eq_of_le] <;> omega

/-- Just above the range, it is negative. -/
theorem int32_eq_sub {x : ℤ} (hlo : 2 ^ 31 ≤ x) (hhi : x < 2 ^ 31 + 2 ^ 32) :
    int32 x = x - 2 ^ 32 := by
  have hsub : Int.bmod (x - (2 ^ 32 : ℕ)) (2 ^ 32) = Int.bmod x (2 ^ 32) := Int.sub_bmod_right x _
  unfold int32
  rw [← hsub, Int.bmod_eq_of_le] <;> push_cast <;> omega

/-- **The `size_t` a C length becomes** when it is handed to `malloc` or
`memcpy`: a negative one turns into a huge one. -/
def sizeT (x : ℤ) : ℤ := x % 2 ^ 64

theorem sizeT_eq_self {x : ℤ} (hlo : 0 ≤ x) (hhi : x < 2 ^ 64) : sizeT x = x :=
  Int.emod_eq_of_lt hlo hhi

/-! ## Constants of `comm.h` -/

@[simp] def maxTcpBufSize : ℤ := 4096

@[simp] def maxConnTimeout : ℤ := 60000

@[simp] def epollEtType : ℤ := 1

@[simp] def epollLtType : ℤ := 2

@[simp] def minheapInitSize : ℕ := 16

/-! ## Constants of `bin_proto.h` -/

@[simp] def protoSoh : UInt8 := 0x28

@[simp] def protoEot : UInt8 := 0x29

@[simp] def packetSohPos : ℤ := 0

@[simp] def packetLenPos : ℤ := 1

@[simp] def packetCmdPos : ℤ := 5

@[simp] def packetSeqPos : ℤ := 9

@[simp] def packetBodyPos : ℤ := 13

@[simp] def packetMinLen : ℤ := 18

@[simp] def packetMaxLen : ℤ := 1024 * 1024

@[simp] def packetHeadLen : ℤ := 5

@[simp] def cmdTestValue : BitVec 32 := 0x2900

@[simp] def cmdTestEcho : BitVec 32 := 0x3000
