import Mathlib.Data.List.GetD
import Mathlib.Data.Nat.Cast.Basic
import Mathlib.Algebra.Ring.Int.Defs
import Mathlib.Data.Int.Order.Basic
import Mathlib.Tactic.Common

/-!
# Blocks of memory

A block is what `malloc` returns: a size and bytes at integer offsets. A copy
that stays inside the block writes its bytes; any other one writes nothing and
is recorded in `overrun`, since there is nothing to say about the memory around
the block. Reading back is described by slices (`Block.slice_write_self`,
`Block.slice_write_of_disjoint`), and 32-bit words in network order by
`Block.word`.
-/

/-- Memory as `malloc` returns it. -/
structure Block where
  size : ℤ
  byte : ℤ → UInt8
  /-- Whether a copy left the block. -/
  overrun : Bool

namespace Block

/-- **The `n` bytes from `off` on lie inside the block.** -/
def Holds (b : Block) (off n : ℤ) : Prop := 0 ≤ off ∧ 0 ≤ n ∧ off + n ≤ b.size

instance (b : Block) (off n : ℤ) : Decidable (b.Holds off n) :=
  inferInstanceAs (Decidable (0 ≤ off ∧ 0 ≤ n ∧ off + n ≤ b.size))

/-- What `malloc` returns where there is no memory. Memory that is asked for has bytes, so
a block without any stands for `NULL`. -/
def null : Block := ⟨0, fun _ => 0, false⟩

/-- **The address `off` bytes into the block is `NULL`.** -/
def IsNull (b : Block) (off : ℤ) : Prop := b.size = 0 ∧ off = 0

instance (b : Block) (off : ℤ) : Decidable (b.IsNull off) :=
  inferInstanceAs (Decidable (_ ∧ _))

/-- Record an access to the `n` bytes from `off` on. -/
def touch (b : Block) (off n : ℤ) : Block :=
  { b with overrun := b.overrun || !decide (b.Holds off n) }

/-- The block with the bytes `src` from `off` on. -/
def write (b : Block) (off : ℤ) (src : List UInt8) : Block :=
  { b with byte := fun i =>
      if off ≤ i ∧ i < off + src.length then src.getD (i - off).toNat 0 else b.byte i }

/-- **A checked copy** of `src` to `off`. -/
def store (b : Block) (off : ℤ) (src : List UInt8) : Block :=
  if b.Holds off src.length then b.write off src else { b with overrun := true }

/-- The `n` bytes from `off` on. -/
def slice (b : Block) (off : ℤ) (n : ℕ) : List UInt8 :=
  (List.range n).map (fun k : ℕ => b.byte (off + k))

/-- **`memmove` of `n` bytes** from `srcOff` in `src` to `off`, checked on both
sides. -/
def move (b : Block) (off : ℤ) (src : Block) (srcOff n : ℤ) : Block :=
  if b.Holds off n ∧ src.Holds srcOff n then b.write off (src.slice srcOff n.toNat)
  else { b with overrun := true }

variable {b b' : Block} {off off' i n : ℤ} {src src' : List UInt8} {k m : ℕ}

theorem not_isNull (h : 0 < b.size) : ¬ b.IsNull off := fun hnull => absurd hnull.1 (ne_of_gt h)

@[simp] theorem size_touch : (b.touch off n).size = b.size := rfl

@[simp] theorem size_write : (b.write off src).size = b.size := rfl

@[simp] theorem size_store : (b.store off src).size = b.size := by
  unfold store
  split <;> rfl

theorem store_of_holds (h : b.Holds off src.length) : b.store off src = b.write off src :=
  if_pos h

@[simp] theorem size_move {s : ℤ} : (b.move off b' s n).size = b.size := by
  unfold move
  split <;> rfl

theorem move_of_holds {s : ℤ} (h : b.Holds off n) (h' : b'.Holds s n) :
    b.move off b' s n = b.write off (b'.slice s n.toNat) :=
  if_pos ⟨h, h'⟩

/-- A block is marked by a move exactly if the move leaves one of the two. -/
theorem overrun_move {s : ℤ} : (b.move off b' s n).overrun = false
    ↔ b.overrun = false ∧ b.Holds off n ∧ b'.Holds s n := by
  unfold move
  by_cases h : b.Holds off n ∧ b'.Holds s n
  · rw [if_pos h]
    exact ⟨fun hb => ⟨hb, h⟩, fun hb => hb.1⟩
  · rw [if_neg h]
    exact ⟨fun hb => absurd hb (by simp), fun hb => absurd hb.2 h⟩

/-- A block is marked by a copy exactly if the copy leaves it. -/
theorem overrun_store : (b.store off src).overrun = false
    ↔ b.overrun = false ∧ b.Holds off src.length := by
  unfold store
  by_cases h : b.Holds off src.length
  · rw [if_pos h]
    exact ⟨fun hb => ⟨hb, h⟩, fun hb => hb.1⟩
  · rw [if_neg h]
    exact ⟨fun hb => absurd hb (by simp), fun hb => absurd hb.2 h⟩

theorem byte_write_of_lt (h : i < off) : (b.write off src).byte i = b.byte i :=
  if_neg (fun hi => absurd hi.1 (not_le.mpr h))

theorem byte_write_of_ge (h : off + src.length ≤ i) : (b.write off src).byte i = b.byte i :=
  if_neg (fun hi => absurd hi.2 (not_lt.mpr h))

theorem byte_write_add (h : k < src.length) : (b.write off src).byte (off + k) = src[k] := by
  show (if off ≤ off + k ∧ off + k < off + src.length then
    src.getD (off + k - off).toNat 0 else b.byte (off + k)) = src[k]
  rw [if_pos ⟨by omega, by omega⟩, show (off + k - off).toNat = k by omega]
  exact List.getD_eq_getElem _ _ h

theorem byte_write_single {x : UInt8} : (b.write off [x]).byte off = x := by
  have hbyte : (b.write off [x]).byte (off + (0 : ℕ)) = x := byte_write_add Nat.zero_lt_one
  rwa [Nat.cast_zero, add_zero] at hbyte

@[simp] theorem length_slice : (b.slice off k).length = k := by
  unfold slice
  rw [List.length_map, List.length_range]

@[simp] theorem getElem_slice (h : m < (b.slice off k).length) :
    (b.slice off k)[m] = b.byte (off + m) := by
  simp only [slice, List.getElem_map, List.getElem_range]

/-- Slices are equal if the bytes are. -/
theorem slice_congr (h : ∀ j < k, b.byte (off + (j : ℕ)) = b'.byte (off' + j)) :
    b.slice off k = b'.slice off' k := by
  refine List.ext_getElem (by rw [length_slice, length_slice]) (fun j hj hj' => ?_)
  rw [getElem_slice, getElem_slice]
  exact h j (by rwa [length_slice] at hj)

/-- The bytes are equal if the slices are. -/
theorem byte_of_slice_eq (h : b.slice off k = b'.slice off' k) (hm : m < k) :
    b.byte (off + m) = b'.byte (off' + m) := by
  have hlen : m < (b.slice off k).length := by rwa [length_slice]
  have hlen' : m < (b'.slice off' k).length := by rwa [length_slice]
  rw [← getElem_slice hlen, ← getElem_slice hlen']
  exact List.getElem_of_eq h hlen

theorem slice_add : b.slice off (k + m) = b.slice off k ++ b.slice (off + k) m := by
  unfold slice
  rw [List.range_add, List.map_append, List.map_map]
  congr 1
  refine List.map_congr_left (fun j _ => ?_)
  show b.byte (off + ((k + j : ℕ) : ℤ)) = b.byte (off + k + j)
  rw [Nat.cast_add, add_assoc]

theorem take_slice (h : m ≤ k) : (b.slice off k).take m = b.slice off m := by
  rw [show k = m + (k - m) by omega, slice_add, List.take_left' length_slice]

/-- **What was written is read back.** -/
theorem slice_write_self (hk : src.length = k) : (b.write off src).slice off k = src := by
  refine List.ext_getElem (by rw [length_slice, hk]) (fun j hj hj' => ?_)
  rw [getElem_slice, byte_write_add hj']

/-- **A slice apart from the copy is unchanged.** -/
theorem slice_write_of_disjoint (h : off' + k ≤ off ∨ off + src.length ≤ off') :
    (b.write off src).slice off' k = b.slice off' k := by
  refine slice_congr (fun j hj => ?_)
  rcases h with h | h
  · exact byte_write_of_lt (by omega)
  · exact byte_write_of_ge (by omega)

/-- Writing right behind a slice extends it. -/
theorem slice_write_append (hk : src.length = m) :
    (b.write (off + k) src).slice off (k + m) = b.slice off k ++ src := by
  rw [slice_add, slice_write_of_disjoint (Or.inl le_rfl), slice_write_self hk]

/-! ## Words in network order -/

/-- The four bytes of a word, most significant first: `htonl`, then `memcpy`
of the word. -/
def wordBytes (v : BitVec 32) : List UInt8 :=
  [UInt8.ofNat (v.toNat / 2 ^ 24), UInt8.ofNat (v.toNat / 2 ^ 16),
    UInt8.ofNat (v.toNat / 2 ^ 8), UInt8.ofNat v.toNat]

/-- The word four bytes stand for, most significant first. -/
def bytesWord (b₀ b₁ b₂ b₃ : UInt8) : BitVec 32 :=
  BitVec.ofNat 32 (b₀.toNat * 2 ^ 24 + b₁.toNat * 2 ^ 16 + b₂.toNat * 2 ^ 8 + b₃.toNat)

/-- The word at `off`: `memcpy` of the word, then `ntohl`. -/
def word (b : Block) (off : ℤ) : BitVec 32 :=
  bytesWord (b.byte off) (b.byte (off + 1)) (b.byte (off + 2)) (b.byte (off + 3))

@[simp] theorem length_wordBytes (v : BitVec 32) : (wordBytes v).length = 4 := rfl

/-- **A word is read back** from its bytes. -/
theorem bytesWord_wordBytes (v : BitVec 32) :
    bytesWord (UInt8.ofNat (v.toNat / 2 ^ 24)) (UInt8.ofNat (v.toNat / 2 ^ 16))
      (UInt8.ofNat (v.toNat / 2 ^ 8)) (UInt8.ofNat v.toNat) = v := by
  have hv := v.isLt
  refine BitVec.eq_of_toNat_eq ?_
  unfold bytesWord
  rw [BitVec.toNat_ofNat, UInt8.toNat_ofNat', UInt8.toNat_ofNat', UInt8.toNat_ofNat',
    UInt8.toNat_ofNat']
  omega

/-- **Four bytes are those of their word.** -/
theorem wordBytes_bytesWord (b₀ b₁ b₂ b₃ : UInt8) :
    wordBytes (bytesWord b₀ b₁ b₂ b₃) = [b₀, b₁, b₂, b₃] := by
  have h₀ := b₀.toNat_lt
  have h₁ := b₁.toNat_lt
  have h₂ := b₂.toNat_lt
  have h₃ := b₃.toNat_lt
  have hbyte : ∀ (n : ℕ) (x : UInt8), n % 256 = x.toNat → UInt8.ofNat n = x := by
    intro n x hn
    refine UInt8.toNat_inj.mp ?_
    rw [UInt8.toNat_ofNat', hn]
  unfold wordBytes bytesWord
  rw [BitVec.toNat_ofNat, hbyte _ b₀ (by omega), hbyte _ b₁ (by omega), hbyte _ b₂ (by omega),
    hbyte _ b₃ (by omega)]

/-- The four bytes at `off` are those of the word there. -/
theorem slice_eq_wordBytes : b.slice off 4 = wordBytes (b.word off) := by
  rw [word, wordBytes_bytesWord]
  show [b.byte (off + (0 : ℕ)), _, _, _] = _
  rw [Nat.cast_zero, add_zero]
  rfl

/-- Two words with the same bytes are the same. -/
theorem wordBytes_inj {v w : BitVec 32} (h : wordBytes v = wordBytes w) : v = w := by
  have hv := bytesWord_wordBytes v
  have hw := bytesWord_wordBytes w
  unfold wordBytes at h
  injection h with h₀ h
  injection h with h₁ h
  injection h with h₂ h
  injection h with h₃ h
  rw [← hv, h₀, h₁, h₂, h₃, hw]

/-- The word at `off` depends on its four bytes only. -/
theorem word_of_slice_eq (h : b.slice off 4 = b'.slice off' 4) : b.word off = b'.word off' := by
  have h₀ : b.byte off = b'.byte off' := by
    have h₀ := byte_of_slice_eq (m := 0) h (by decide)
    rwa [Nat.cast_zero, add_zero, add_zero] at h₀
  have h₁ : b.byte (off + 1) = b'.byte (off' + 1) := byte_of_slice_eq (m := 1) h (by decide)
  have h₂ : b.byte (off + 2) = b'.byte (off' + 2) := byte_of_slice_eq (m := 2) h (by decide)
  have h₃ : b.byte (off + 3) = b'.byte (off' + 3) := byte_of_slice_eq (m := 3) h (by decide)
  unfold word
  rw [h₀, h₁, h₂, h₃]

/-- **A written word is read back.** -/
theorem word_write_self (v : BitVec 32) : (b.write off (wordBytes v)).word off = v := by
  have hbyte : ∀ j : ℕ, ∀ hj : j < 4,
      (b.write off (wordBytes v)).byte (off + j) = (wordBytes v)[j] :=
    fun j hj => byte_write_add hj
  have h₀ := hbyte 0 (by decide)
  have h₁ : (b.write off (wordBytes v)).byte (off + 1) = _ := hbyte 1 (by decide)
  have h₂ : (b.write off (wordBytes v)).byte (off + 2) = _ := hbyte 2 (by decide)
  have h₃ : (b.write off (wordBytes v)).byte (off + 3) = _ := hbyte 3 (by decide)
  rw [Nat.cast_zero, add_zero] at h₀
  unfold word
  rw [h₀, h₁, h₂, h₃]
  exact bytesWord_wordBytes v

/-- A word apart from the copy is unchanged. -/
theorem word_write_of_disjoint (h : off' + 4 ≤ off ∨ off + src.length ≤ off') :
    (b.write off src).word off' = b.word off' :=
  word_of_slice_eq (slice_write_of_disjoint (k := 4) (by exact_mod_cast h))

/-! ## Reading after a checked copy -/

/-- A copy changes nothing in front of it. -/
theorem byte_store_of_lt (h : i < off) : (b.store off src).byte i = b.byte i := by
  unfold store
  split
  · exact byte_write_of_lt h
  · rfl

/-- Nor behind it. -/
theorem byte_store_of_ge (h : off + src.length ≤ i) : (b.store off src).byte i = b.byte i := by
  unfold store
  split
  · exact byte_write_of_ge h
  · rfl

theorem slice_store_of_disjoint (h : off' + k ≤ off ∨ off + src.length ≤ off') :
    (b.store off src).slice off' k = b.slice off' k := by
  unfold store
  split
  · exact slice_write_of_disjoint h
  · rfl

theorem word_store_of_disjoint (h : off' + 4 ≤ off ∨ off + src.length ≤ off') :
    (b.store off src).word off' = b.word off' :=
  word_of_slice_eq (slice_store_of_disjoint (k := 4) (by exact_mod_cast h))

/-- **What was copied inside is read back.** -/
theorem slice_store_self (hb : b.Holds off src.length) :
    (b.store off src).slice off src.length = src := by
  rw [store_of_holds hb]
  exact slice_write_self rfl

theorem word_store_self {v : BitVec 32} (hb : b.Holds off 4) :
    (b.store off (wordBytes v)).word off = v := by
  rw [store_of_holds hb]
  exact word_write_self v

theorem byte_store_self {x : UInt8} (hb : b.Holds off 1) : (b.store off [x]).byte off = x := by
  rw [store_of_holds hb]
  exact byte_write_single

/-- **A copy covers the one before it** at the same place. -/
theorem store_store_self (h : src'.length = src.length) :
    (b.store off src).store off src' = b.store off src' := by
  by_cases hb : b.Holds off src.length
  · have hb' : b.Holds off src'.length := by rwa [h]
    rw [store_of_holds hb, store_of_holds hb', store_of_holds (b := b.write off src) hb']
    refine congrArg (Block.mk b.size · b.overrun) (funext fun i => ?_)
    show (if off ≤ i ∧ i < off + src'.length then _ else (b.write off src).byte i) = _
    by_cases hi : off ≤ i ∧ i < off + src'.length
    · rw [if_pos hi, if_pos hi]
    · rw [if_neg hi, if_neg hi]
      exact if_neg (by rwa [h] at hi)
  · have hb' : ¬ b.Holds off src'.length := by rwa [h]
    unfold store
    rw [if_neg hb, if_neg hb']
    exact if_neg hb'

/-- **Moving bytes to where they are** changes nothing. -/
theorem write_slice_self : b.write off (b.slice off k) = b := by
  have hbyte : (b.write off (b.slice off k)).byte = b.byte := by
    funext i
    rcases lt_or_ge i off with hlt | hge
    · exact byte_write_of_lt hlt
    rcases lt_or_ge i (off + k) with hlt | hout
    · have hidx : i = off + ((i - off).toNat : ℕ) := by omega
      have hlen : (i - off).toNat < (b.slice off k).length := by
        rw [length_slice]
        omega
      rw [hidx, byte_write_add hlen, getElem_slice]
    · exact byte_write_of_ge (by rwa [length_slice])
  show Block.mk b.size (b.write off (b.slice off k)).byte b.overrun = b
  rw [hbyte]

end Block
