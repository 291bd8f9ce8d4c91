import Mathlib.Data.List.Basic
import Mathlib.Order.Nat
import Mathlib.Tactic.Common

/-!
# Length-prefixed framing

A stream of items is cut into frames by a head of fixed length that announces
the length of the frame it begins. `Framing.parse` is the reference parse of a
finite stream: it reads one head after the other and stops at a head that
announces nothing or at a frame that is not complete. A sequence of frames is
what the parse finds at the beginning of any stream that continues it
(`Framing.parse_flatten_append`), which is all a receiver needs to know about
the stream it has taken its frames from (`Framing.prefix_parse`).
-/

/-- **A way to cut a stream into frames**: the length of the head, and the
length of the whole frame a head announces, if it is a good one. A frame is
longer than its head. -/
structure Framing (α : Type*) where
  headLen : ℕ
  frameLen : List α → Option ℕ
  headLen_lt : ∀ {h L}, frameLen h = some L → headLen < L

namespace Framing

variable {α : Type*} (F : Framing α) {f p s : List α} {fs : List (List α)} {L : ℕ}

/-- `f` is one frame: its head announces just its length. -/
def IsFrame (f : List α) : Prop := F.frameLen (f.take F.headLen) = some f.length

instance (f : List α) : Decidable (F.IsFrame f) :=
  inferInstanceAs (Decidable (F.frameLen (f.take F.headLen) = some f.length))

/-- `p` begins a frame without completing it. -/
def IsPartial (p : List α) : Prop :=
  p.length < F.headLen ∨ ∃ L, F.frameLen (p.take F.headLen) = some L ∧ p.length < L

/-- **The reference parse.** -/
def parse (s : List α) : List (List α) :=
  if s.length < F.headLen then []
  else
    match _h : F.frameLen (s.take F.headLen) with
    | none => []
    | some L => if L ≤ s.length then s.take L :: parse (s.drop L) else []
termination_by s.length
decreasing_by
  have := F.headLen_lt _h
  rw [List.length_drop]
  omega

variable {F}

/-- The parse finds a frame at the beginning of the stream. -/
theorem parse_append (hf : F.IsFrame f) : F.parse (f ++ s) = f :: F.parse s := by
  have hhead : F.headLen ≤ f.length := (F.headLen_lt hf).le
  have htake : (f ++ s).take F.headLen = f.take F.headLen :=
    List.take_append_of_le_length hhead
  have hlen : (f ++ s).length = f.length + s.length := List.length_append
  rw [parse, if_neg (by omega)]
  split
  · next hnone =>
    rw [htake, show F.frameLen (f.take F.headLen) = _ from hf] at hnone
    exact absurd hnone (by simp)
  · next L hsome =>
    rw [htake, show F.frameLen (f.take F.headLen) = _ from hf] at hsome
    obtain rfl : f.length = L := Option.some.inj hsome
    rw [if_pos (by omega), List.take_left' rfl, List.drop_left' rfl]

/-- **Frames are found again**, one by one, at the beginning of any stream that
continues them. -/
theorem parse_flatten_append (hfs : ∀ f ∈ fs, F.IsFrame f) :
    F.parse (fs.flatten ++ s) = fs ++ F.parse s := by
  induction fs with
  | nil => rfl
  | cons f fs ih =>
    rw [List.flatten_cons, List.append_assoc, parse_append (hfs f (List.mem_cons_self ..)),
      ih (fun g hg => hfs g (List.mem_cons_of_mem _ hg))]
    rfl

/-- **Frames taken from the front** of a stream are a prefix of its reference
parse. -/
theorem prefix_parse (hfs : ∀ f ∈ fs, F.IsFrame f) (hs : fs.flatten ++ p = s) :
    fs <+: F.parse s := by
  rw [← hs, parse_flatten_append hfs]
  exact List.prefix_append _ _

/-- An incomplete frame parses to nothing. -/
theorem IsPartial.parse (hp : F.IsPartial p) : F.parse p = [] := by
  rw [Framing.parse]
  rcases hp with hlt | ⟨L, hL, hlt⟩
  · rw [if_pos hlt]
  · have hhead := F.headLen_lt hL
    by_cases hshort : p.length < F.headLen
    · rw [if_pos hshort]
    · rw [if_neg hshort]
      split
      · rfl
      · next L' hL' =>
        rw [hL] at hL'
        obtain rfl : L = L' := Option.some.inj hL'
        rw [if_neg (not_le.mpr hlt)]

/-- Nothing parses to nothing. -/
theorem parse_nil : F.parse [] = [] := by
  rw [Framing.parse]
  split
  · rfl
  · split
    · rfl
    · next L hL =>
      have := F.headLen_lt hL
      rw [if_neg (by rw [List.length_nil]; omega)]

/-- The parse of a stream of frames is the frames. -/
theorem parse_flatten (hfs : ∀ f ∈ fs, F.IsFrame f) : F.parse fs.flatten = fs := by
  have hparse := parse_flatten_append (s := []) hfs
  rwa [List.append_nil, parse_nil, List.append_nil] at hparse

/-- An incomplete frame is not a frame. -/
theorem IsPartial.not_isFrame (hp : F.IsPartial p) : ¬ F.IsFrame p := by
  intro hframe
  have hone := F.parse_append (s := []) hframe
  rw [List.append_nil, hp.parse] at hone
  exact absurd hone (by simp)

/-- **Between two frames of a stream there is a good head**: what follows some
of the frames begins with one, if anything follows. -/
theorem frameLen_of_flatten_append_eq {gs : List (List α)} (hfs : ∀ f ∈ fs, F.IsFrame f)
    (hgs : ∀ g ∈ gs, F.IsFrame g) (hs : s ≠ []) (h : gs.flatten ++ s = fs.flatten) :
    ∃ L, F.frameLen (s.take F.headLen) = some L := by
  have hparse := congrArg F.parse h
  rw [parse_flatten_append hgs, parse_flatten hfs] at hparse
  rw [← hparse, List.flatten_append] at h
  have hall : s = (F.parse s).flatten := List.append_cancel_left h
  rw [Framing.parse] at hall
  split at hall
  · exact absurd hall hs
  · split at hall
    · exact absurd hall hs
    · next L hL => exact ⟨L, hL⟩

/-- **Only one way to cut**: where a stream of frames has been taken apart into
frames and an incomplete rest, the frames are the same and there is no rest. -/
theorem eq_of_flatten_append_eq {gs : List (List α)} (hfs : ∀ f ∈ fs, F.IsFrame f)
    (hgs : ∀ g ∈ gs, F.IsFrame g) (hp : F.IsPartial p) (h : gs.flatten ++ p = fs.flatten) :
    gs = fs ∧ p = [] := by
  have hparse := congrArg F.parse h
  rw [parse_flatten_append hgs, hp.parse, parse_flatten hfs, List.append_nil] at hparse
  refine ⟨hparse, ?_⟩
  rw [hparse] at h
  exact List.append_right_eq_self.mp h

end Framing
