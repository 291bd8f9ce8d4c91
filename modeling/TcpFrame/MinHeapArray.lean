import TcpFrame.MinHeapSpec
import TcpFrame.Lib.Slots

/-!
# The array of the timer heap

What the heap operations do to the first `iNodeUsed` slots of the array, read as
a multiset of nodes (`MinHeap.entries`). None of this needs the back-pointers:
the sifts read nodes and deadlines only, so the specifications hold of an array
in which a node says the wrong slot or stands twice.

A push adds its node or fails and changes nothing (`minHeapPush_array`), a pop
takes the root away (`minheapPop_array`), and an erase takes its node away in
both of its exits (`minheapErase_array`), unless the code sifts up the very node
it erases.
-/

open HeapOrder Slots

namespace MinHeap

variable {h h' h'' : MinHeap} {p q e : NodePtr} {i j n hole fuel : ℕ} {nodes : Set NodePtr}

/-- **The entries of the heap**: what the first `iNodeUsed` slots hold. -/
def entries (h : MinHeap) : Multiset NodePtr := contents h.slot h.iNodeUsed

theorem mem_entries : p ∈ h.entries ↔ p ∈ h.held := mem_contents

theorem card_entries : Multiset.card h.entries = h.iNodeUsed := by
  unfold entries contents
  rw [Multiset.card_map, Multiset.card_range]

/-- Where the back-pointers are right, no node is in the array twice. -/
theorem Backed.nodup_entries (hb : Backed nodes h) : h.entries.Nodup :=
  nodup_contents_iff.mpr (fun _ hi _ hj hij => hb.slot_inj hi hj hij)

theorem key_congr (hslot : h'.slot = h.slot) (htimeout : h'.timeout = h.timeout) :
    h'.key = h.key := by
  funext i
  show h'.timeout (h'.slot i) = h.timeout (h.slot i)
  rw [htimeout, hslot]

/-! ## The sifts -/

/-- **What a sift leaves alone**: all but the array and the indices. -/
structure Rearranged (h h' : MinHeap) : Prop where
  used : h'.iNodeUsed = h.iNodeUsed
  cap : h'.iNodeCapacity = h.iNodeCapacity
  body : h'.body = h.body
  overrun : h'.overrun = h.overrun

theorem Rearranged.refl : Rearranged h h := ⟨rfl, rfl, rfl, rfl⟩

theorem Rearranged.trans (h₁ : Rearranged h h') (h₂ : Rearranged h' h'') : Rearranged h h'' :=
  ⟨h₂.used.trans h₁.used, h₂.cap.trans h₁.cap, h₂.body.trans h₁.body,
    h₂.overrun.trans h₁.overrun⟩

theorem Rearranged.place (hi : i < h.iNodeCapacity) : Rearranged h (h.place i p) where
  used := rfl
  cap := rfl
  body := body_place
  overrun := by
    show (h.access i).overrun = h.overrun
    rw [access_of_lt (by omega) (by omega)]

/-- **A sift has filled its hole**: the slots hold what they held beside the
hole, and the element the sift was about, in order. -/
structure Filled (h : MinHeap) (n hole : ℕ) (e : NodePtr) (h' : MinHeap) : Prop
    extends Rearranged h h' where
  contents : contents h'.slot n = e ::ₘ rest h.slot n hole
  order : Ordered n h'.key

theorem minheapShiftUpLoop_array (hfuel : hole ≤ fuel) (hn : n ≤ h.iNodeCapacity)
    (hg : UpGap h n hole e) : Filled h n hole e (minheapShiftUpLoop e fuel h hole) := by
  refine minheapShiftUpLoop_rule (Q := fun g => Filled h n hole e g)
    (P := fun g i => UpGap g n i e ∧ Rearranged h g ∧ rest g.slot n i = rest h.slot n hole)
    ?_ ?_ hfuel (hg.lt.trans_le hn) ⟨hg, Rearranged.refl, rfl⟩
  · intro g i ⟨hg, hre, hrest⟩ h0 hlt
    have hpar := parent_lt h0
    have hi : i < g.iNodeCapacity := hre.cap ▸ hg.lt.trans_le hn
    refine ⟨hg.move h0 hlt, hre.trans (Rearranged.place hi), ?_⟩
    rw [slot_place, rest_move hg.lt (hpar.trans hg.lt) hpar.ne, hrest]
  · intro g i ⟨hg, hre, hrest⟩ hup
    have hi : i < g.iNodeCapacity := hre.cap ▸ hg.lt.trans_le hn
    refine ⟨hre.trans (Rearranged.place hi), ?_, ?_⟩
    · rw [slot_place, contents_update hg.lt, hrest]
    · rw [key_place]
      exact hg.order.fill hup hg.below

theorem minheapShiftDownLoop_array (hfuel : h.iNodeUsed ≤ hole + fuel)
    (hused : h.iNodeUsed = n + 1) (hcap : n < h.iNodeCapacity) (hstale : h.slot n = e)
    (hg : DownGap h n hole e) : Filled h n hole e (minheapShiftDownLoop e fuel h hole) := by
  refine minheapShiftDownLoop_rule (Q := fun g => Filled h n hole e g)
    (P := fun g i => DownGap g n i e ∧ Rearranged h g ∧ rest g.slot n i = rest h.slot n hole)
    ?_ ?_ hfuel hused hcap hstale hg.lt ⟨hg, Rearranged.refl, rfl⟩
  · intro g i c ⟨hg, hre, hrest⟩ hi hpos hc hpar hmin hlt
    have hne : c ≠ i := by
      rintro rfl
      exact (parent_lt hpos.ne').ne hpar
    have hi' : i < g.iNodeCapacity := hre.cap ▸ hi.trans hcap
    refine ⟨hg.move hpos hc hpar hmin hlt, hre.trans (Rearranged.place hi'), ?_⟩
    rw [slot_place, rest_move hi hc hne, hrest]
  · intro g i ⟨hg, hre, hrest⟩ hi hdown
    have hi' : i < g.iNodeCapacity := hre.cap ▸ hi.trans hcap
    refine ⟨hre.trans (Rearranged.place hi'), ?_, ?_⟩
    · rw [slot_place, contents_update hi, hrest]
    · rw [key_place]
      exact hg.order.fill hg.above hdown

/-! ## The operations -/

/-- **The node `p` has been added** to the array. -/
structure Added (p : NodePtr) (h h' : MinHeap) : Prop where
  entries : h'.entries = p ::ₘ h.entries
  order : Ordered h'.iNodeUsed h'.key
  used_le : h'.iNodeUsed ≤ h'.iNodeCapacity
  body : h'.body = h.body
  overrun : h'.overrun = h.overrun

/-- **The node `p` has been taken away** from the array. -/
structure Removed (p : NodePtr) (h h' : MinHeap) : Prop where
  used : h'.iNodeUsed + 1 = h.iNodeUsed
  entries : p ::ₘ h'.entries = h.entries
  order : Ordered h'.iNodeUsed h'.key
  cap : h'.iNodeCapacity = h.iNodeCapacity
  body : h'.body = h.body
  overrun : h'.overrun = h.overrun

/-- **Pushing** adds the node to the array, or fails for want of memory and
changes nothing. -/
theorem minHeapPush_array (hord : Ordered h.iNodeUsed h.key) (hcap : h.iNodeUsed ≤ h.iNodeCapacity)
    (p : NodePtr) (realloc : Bool) :
    (minHeapPush h p realloc = (Ret.fail, h) ∧ realloc = false
        ∧ h.iNodeUsed = h.iNodeCapacity)
      ∨ (realloc = false → h.iNodeUsed < h.iNodeCapacity)
        ∧ ∃ h', minHeapPush h p realloc = (Ret.succ, h') ∧ Added p h h' := by
  unfold minHeapPush
  dsimp only
  rcases minheapReserveSize_spec h (h.iNodeUsed + 1) realloc with
    ⟨hr, hfail, hfull⟩ | ⟨hroom, cap, hle, hr⟩
  · rw [hr]
    exact Or.inl ⟨rfl, hfail, by omega⟩
  · rw [hr]
    refine Or.inr ⟨hroom, _, rfl, ?_⟩
    dsimp only
    set g : MinHeap := { h with iNodeCapacity := cap } with hg
    have hfilled : Filled g (h.iNodeUsed + 1) h.iNodeUsed p (minheapShiftUp g h.iNodeUsed p) :=
      minheapShiftUpLoop_array le_rfl hle (upGap_last hord)
    set g' := minheapShiftUp g h.iNodeUsed p with hg'
    have hused : g'.iNodeUsed = h.iNodeUsed := hfilled.used
    have hrest : rest h.slot (h.iNodeUsed + 1) h.iNodeUsed = h.entries := by
      refine (Multiset.cons_inj_right (h.slot h.iNodeUsed)).mp ?_
      rw [← contents_eq (Nat.lt_succ_self _), contents_succ]
      rfl
    refine ⟨?_, ?_, ?_, hfilled.body, hfilled.overrun⟩
    · show contents g'.slot (g'.iNodeUsed + 1) = _
      rw [hused, hfilled.contents, ← hrest]
      rfl
    · show Ordered (g'.iNodeUsed + 1) g'.key
      rw [hused]
      exact hfilled.order
    · show g'.iNodeUsed + 1 ≤ g'.iNodeCapacity
      rw [hused, hfilled.cap]
      exact hle

/-- Removing the node in slot `j` by a sift down takes it away from the array,
also where it is the last one. -/
theorem removeDown_array (hj : j < h.iNodeUsed) (hcap : h.iNodeUsed ≤ h.iNodeCapacity)
    (hord : OrderedBut h.iNodeUsed h.key j)
    (hup : j ≠ 0 → h.key (parent j) ≤ h.key (h.iNodeUsed - 1)) :
    Removed (h.slot j) h (h.removeDown j) := by
  obtain ⟨n, hn⟩ : ∃ n, h.iNodeUsed = n + 1 := ⟨h.iNodeUsed - 1, by omega⟩
  have hlast : h.iNodeUsed - 1 = n := by omega
  rw [hn] at hord hj
  rw [hlast] at hup
  have hrem := removeDown_eq (j := j) hn
  have hbody := body_removeDown (j := j) hn
  set g := minheapShiftDown h j (h.slot n) with hg
  -- what is left to see is what the sift makes of the first `n` slots
  suffices hsift : Rearranged h g ∧ h.slot j ::ₘ contents g.slot n = h.entries
      ∧ Ordered n g.key by
    obtain ⟨hre, hcontents, horder⟩ := hsift
    have hused : (h.removeDown j).iNodeUsed = n := by
      rw [hrem]
      show g.iNodeUsed - 1 = n
      rw [hre.used, hlast]
    have hslot : (h.removeDown j).slot = g.slot := by rw [hrem]; rfl
    refine ⟨?_, ?_, ?_, ?_, hbody.trans hre.body, ?_⟩
    · rw [hused, hn]
    · unfold entries
      rw [hused, hslot]
      exact hcontents
    · rw [hused, key_congr hslot (timeout_of_body hbody)]
      exact horder
    · rw [hrem]
      exact hre.cap
    · rw [hrem]
      exact hre.overrun
  have hentries : h.entries = h.slot n ::ₘ contents h.slot n := by
    unfold entries
    rw [hn, contents_succ]
  by_cases hjn : j = n
  · -- the last node itself is removed: it is written back where it was
    have hplace : g = h.place n (h.slot n) := by
      rw [hg, hjn]
      exact minheapShiftDown_last hn
    have hslot : ∀ i < n, g.slot i = h.slot i := by
      intro i hi
      rw [hplace, slot_place, Function.update_of_ne hi.ne]
    refine ⟨?_, ?_, ?_⟩
    · rw [hplace]
      exact Rearranged.place (by omega)
    · rw [hentries, contents_congr hslot, hjn]
    · rw [hplace]
      exact ordered_place_last (hjn ▸ hord)
  · -- the last node goes down from the hole
    have hjlt : j < n := by omega
    have hfilled : Filled h n j (h.slot n) g :=
      minheapShiftDownLoop_array (by omega) hn (by omega) rfl
        ⟨hjlt, hord.anti (Nat.le_succ n), hup⟩
    refine ⟨hfilled.toRearranged, ?_, hfilled.order⟩
    rw [hfilled.contents, hentries, contents_eq hjlt, Multiset.cons_swap]

/-- **Popping** takes the root away from the array. -/
theorem minheapPop_array (hord : Ordered h.iNodeUsed h.key) (hcap : h.iNodeUsed ≤ h.iNodeCapacity)
    (h0 : h.iNodeUsed ≠ 0) :
    ∃ h', minheapPop h = (some (h.slot 0), h') ∧ Removed (h.slot 0) h h' :=
  ⟨_, minheapPop_eq hcap h0, removeDown_array (Nat.pos_of_ne_zero h0) hcap hord.but
    (fun hne => absurd rfl hne)⟩

/-- **Removing by a sift up gives up one slot more** than the sift has filled:
the last one, whatever it holds then. -/
theorem removeUp_array {m : ℕ} (hn : h.iNodeUsed = n + 1) (hnm : n ≤ m) (hm : m ≤ h.iNodeCapacity)
    (hg : UpGap h m j (h.slot n))
    (hentries : Filled h m j (h.slot n) (minheapShiftUp h j (h.slot n)) →
      p ::ₘ contents (minheapShiftUp h j (h.slot n)).slot n = h.entries) :
    Removed p h (h.removeUp j) := by
  set g := minheapShiftUp h j (h.slot n) with hg'
  have hrem : h.removeUp j
      = setIndex { g with iNodeUsed := g.iNodeUsed - 1 } (h.slot n) (-1) := by
    unfold removeUp
    rw [show h.iNodeUsed - 1 = n by omega]
  have hfilled : Filled h m j (h.slot n) g := minheapShiftUpLoop_array le_rfl hm hg
  have hused : (h.removeUp j).iNodeUsed = n := by
    rw [hrem]
    show g.iNodeUsed - 1 = n
    rw [hfilled.used]
    omega
  have hslot : (h.removeUp j).slot = g.slot := by rw [hrem]; rfl
  have hbody : (h.removeUp j).body = g.body := by
    rw [hrem]
    exact body_setIndex (h := { g with iNodeUsed := g.iNodeUsed - 1 }) (-1)
  refine ⟨?_, ?_, ?_, ?_, hbody.trans hfilled.body, ?_⟩
  · rw [hused, hn]
  · unfold entries
    rw [hused, hslot]
    exact hentries hfilled
  · rw [hused, key_congr hslot (timeout_of_body hbody)]
    exact hfilled.order.anti hnm
  · rw [hrem]
    exact hfilled.cap
  · rw [hrem]
    exact hfilled.overrun

/-- **Erasing a node** takes it away from the array in both exits of the code,
unless the node is in the last slot and is sifted up from there itself. The
array need not be in order at the erased node. -/
theorem minheapErase_array (hcap : h.iNodeUsed ≤ h.iNodeCapacity) (hj : j < h.iNodeUsed)
    (hslot : h.slot j = p) (hidx : h.index p = j) (hord : OrderedBut h.iNodeUsed h.key j)
    (hlast : minheapEraseShiftsUp h p = true → j ≠ h.iNodeUsed - 1) :
    ∃ h', minheapErase h p = (Ret.succ, h') ∧ Removed p h h' := by
  refine ⟨_, minheapErase_eq hcap hj hslot hidx, ?_⟩
  by_cases hshift : minheapEraseShiftsUp h p = true
  · rw [if_pos hshift]
    obtain ⟨h0, hlt⟩ := (minheapEraseShiftsUp_iff hidx).mp hshift
    obtain ⟨n, hn⟩ : ∃ n, h.iNodeUsed = n + 1 := ⟨h.iNodeUsed - 1, by omega⟩
    have hjn := hlast hshift
    rw [show h.iNodeUsed - 1 = n by omega] at hlt hjn
    rw [hn] at hord
    have hjlt : j < n := by omega
    refine removeUp_array hn le_rfl (by omega) (upGap_of_lt hord hjlt h0 hlt) (fun hfilled => ?_)
    unfold entries
    rw [hn, hfilled.contents, contents_succ, contents_eq hjlt, hslot, Multiset.cons_swap]
  · rw [if_neg hshift, ← hslot]
    exact removeDown_array hj hcap hord
      (le_of_not_shiftsUp hidx (Bool.eq_false_iff.mpr hshift))

/-! ## Erasing the last node by a sift up

In a well-formed heap this cannot happen. It does where the deadline of the node
was overwritten by an earlier one before the erase. -/

/-- A sift up changes no slot past its hole. -/
theorem slot_minheapShiftUpLoop (hfuel : hole ≤ fuel) (hcap : hole < h.iNodeCapacity)
    (hi : hole < i) : (minheapShiftUpLoop e fuel h hole).slot i = h.slot i := by
  refine minheapShiftUpLoop_rule (P := fun g k => k < i ∧ g.slot i = h.slot i)
    (Q := fun g => g.slot i = h.slot i) ?_ ?_ hfuel hcap ⟨hi, rfl⟩
  · intro g k ⟨hk, hslot⟩ h0 _
    refine ⟨(parent_lt h0).trans hk, ?_⟩
    rw [slot_place, Function.update_of_ne hk.ne']
    exact hslot
  · intro g k ⟨hk, hslot⟩ _
    rw [slot_place, Function.update_of_ne hk.ne']
    exact hslot

/-- A sift up that has a greater parent leaves it in the slot it started from. -/
theorem slot_minheapShiftUp (h0 : hole ≠ 0) (hcap : hole < h.iNodeCapacity)
    (hlt : h.timeout e < h.key (parent hole)) :
    (minheapShiftUp h hole e).slot hole = h.slot (parent hole) := by
  obtain ⟨k, rfl⟩ : ∃ k, hole = k + 1 := ⟨hole - 1, by omega⟩
  have hpar := parent_lt h0
  have hread : h.access (parent (k + 1)) = h := access_of_lt (by omega) (by omega)
  unfold minheapShiftUp
  rw [minheapShiftUpLoop, if_neg h0]
  dsimp only
  rw [hread, if_pos (minheapNodeCmpGreater_iff.mpr hlt),
    slot_minheapShiftUpLoop (by omega) (by rw [cap_place]; omega) hpar, slot_place,
    Function.update_self]

/-- **An erase that sifts up the very node it erases takes away the parent of
that node instead.** The node goes up and stays, and the slot given up is the
one its parent has come down to. -/
theorem minheapErase_last (hcap : h.iNodeUsed ≤ h.iNodeCapacity) (hn : h.iNodeUsed = n + 1)
    (hslot : h.slot n = p) (hidx : h.index p = n) (hord : OrderedBut h.iNodeUsed h.key n)
    (h0 : n ≠ 0) (hlt : h.timeout p < h.key (parent n)) :
    Removed (h.slot (parent n)) h (minheapErase h p).2 := by
  subst hslot
  have hshift : minheapEraseShiftsUp h (h.slot n) = true := by
    refine (minheapEraseShiftsUp_iff hidx).mpr ⟨h0, ?_⟩
    rw [show h.iNodeUsed - 1 = n by omega]
    exact hlt
  rw [minheapErase_eq hcap (by omega) rfl hidx, if_pos hshift]
  rw [hn] at hord
  refine removeUp_array (m := n + 1) hn (Nat.le_succ n) (by omega) ⟨Nat.lt_succ_self n, hord, ?_⟩
    (fun hfilled => ?_)
  · intro c hpos hc hch
    have := parent_lt hpos.ne'
    omega
  · -- the sift leaves the parent in the slot that is given up
    have hown := slot_minheapShiftUp h0 (by omega) hlt
    unfold entries
    rw [← hown, ← contents_succ, hfilled.contents, hn, contents_eq (Nat.lt_succ_self n)]

/-! ## Heaps of any kind

What the operations do to a heap of which nothing is known: they take in no node
but the one that is pushed, and write to no node but its index. -/

variable {S : Set NodePtr}

/-- **The first `n` slots but the hole hold nodes of `S`**, and the nodes are
what they were in `h`. -/
structure WithinBut (S : Set NodePtr) (n hole : ℕ) (h h' : MinHeap) : Prop where
  used : h'.iNodeUsed = h.iNodeUsed
  body : h'.body = h.body
  mem : ∀ i < n, i ≠ hole → h'.slot i ∈ S

/-- **The first `n` slots hold nodes of `S`**, and the nodes are what they were
in `h`. -/
structure Within (S : Set NodePtr) (n : ℕ) (h h' : MinHeap) : Prop where
  used : h'.iNodeUsed = h.iNodeUsed
  body : h'.body = h.body
  mem : ∀ i < n, h'.slot i ∈ S

theorem WithinBut.access {b : Bool} {a : ℤ} (hw : WithinBut S n hole h h') :
    WithinBut S n hole h (h'.accessIf b a) :=
  ⟨hw.used, hw.body, hw.mem⟩

theorem WithinBut.fill (hw : WithinBut S n hole h h') (he : e ∈ S) :
    Within S n h (h'.place hole e) where
  used := hw.used
  body := body_place.trans hw.body
  mem i hi := by
    rw [slot_place]
    by_cases hih : i = hole
    · rw [hih, Function.update_self]
      exact he
    · rw [Function.update_of_ne hih]
      exact hw.mem i hi hih

theorem WithinBut.move (hw : WithinBut S n hole h h') (hj : hole < n → h'.slot j ∈ S) :
    WithinBut S n j h (h'.place hole (h'.slot j)) where
  used := hw.used
  body := body_place.trans hw.body
  mem i hi hij := by
    rw [slot_place]
    by_cases hih : i = hole
    · rw [hih, Function.update_self]
      exact hj (hih ▸ hi)
    · rw [Function.update_of_ne hih]
      exact hw.mem i hi hih

theorem minheapShiftUpLoop_within (hw : WithinBut S n hole h h') (he : e ∈ S) :
    Within S n h (minheapShiftUpLoop e fuel h' hole) := by
  induction fuel generalizing h' hole with
  | zero => exact hw.fill he
  | succ fuel ih =>
    rw [minheapShiftUpLoop]
    by_cases h0 : hole = 0
    · rw [if_pos h0]
      exact hw.fill he
    · rw [if_neg h0]
      dsimp only
      have hread : WithinBut S n hole h (h'.access (parent hole)) := hw.access
      have hpar := parent_lt h0
      split
      · exact ih (hread.move (fun hhole => hw.mem _ (hpar.trans hhole) hpar.ne))
      · exact hread.fill he

/-- The child a sift down compares with is in use. -/
theorem minheapMinChild_lt (hle : 2 * (hole + 1) ≤ h.iNodeUsed) :
    hole < minheapMinChild h hole ∧ minheapMinChild h hole < h.iNodeUsed := by
  by_cases heq : 2 * (hole + 1) = h.iNodeUsed
  · rw [minheapMinChild_eq heq]
    omega
  · obtain ⟨hpos, hlt, hpar, -⟩ := minheapMinChild_spec
      (show 2 * (hole + 1) < h.iNodeUsed by omega)
    have := parent_lt hpos.ne'
    omega

theorem minheapShiftDownLoop_within (hw : WithinBut S n hole h h') (hn : n = h.iNodeUsed)
    (he : e ∈ S) : Within S n h (minheapShiftDownLoop e fuel h' hole) := by
  induction fuel generalizing h' hole with
  | zero => exact hw.fill he
  | succ fuel ih =>
    rw [minheapShiftDownLoop]
    by_cases hchild : 2 * (hole + 1) ≤ h'.iNodeUsed
    · rw [if_pos hchild]
      dsimp only
      set g := ((h'.accessIf (decide (2 * (hole + 1) ≠ h'.iNodeUsed)) (2 * (hole + 1))).accessIf
        (decide (2 * (hole + 1) ≠ h'.iNodeUsed)) (2 * hole + 1)).access
          (minheapMinChild h' hole) with hg
      have hread : WithinBut S n hole h g := hw.access.access.access
      obtain ⟨hgt, hlt⟩ := minheapMinChild_lt hchild
      rw [hw.used, ← hn] at hlt
      split
      · exact hread.fill he
      split
      · exact hread.fill he
      · exact ih (hread.move (fun _ => hread.mem _ hlt hgt.ne'))
    · rw [if_neg hchild]
      exact hw.fill he

theorem withinBut_held (h : MinHeap) (hole : ℕ) :
    WithinBut h.held h.iNodeUsed hole h h :=
  ⟨rfl, rfl, fun i hi _ => ⟨i, hi, rfl⟩⟩

/-- **What is left of a heap** that has lost nodes: no node that was not there,
and no more slots in use. -/
structure Fewer (h h' : MinHeap) : Prop where
  held : h'.held ⊆ h.held
  body : h'.body = h.body
  used : h'.iNodeUsed ≤ h.iNodeUsed

theorem Fewer.refl : Fewer h h := ⟨fun _ hp => hp, rfl, le_rfl⟩

theorem Fewer.trans (h₁ : Fewer h h') (h₂ : Fewer h' h'') : Fewer h h'' :=
  ⟨h₂.held.trans h₁.held, h₂.body.trans h₁.body, h₂.used.trans h₁.used⟩

/-- Giving up the last slot after a sift leaves fewer nodes. An empty heap has no
last node, but then no slot is left either. -/
theorem Within.fewer {g : MinHeap} (hw : Within S h.iNodeUsed h g)
    (hS : h.iNodeUsed ≠ 0 → S ⊆ h.held) :
    Fewer h (setIndex { g with iNodeUsed := g.iNodeUsed - 1 } p (-1)) where
  held := by
    rintro q ⟨i, hi, rfl⟩
    have hi' : i < g.iNodeUsed - 1 := hi
    rw [hw.used] at hi'
    exact hS (by omega) (hw.mem i (by omega))
  body := (body_setIndex (h := { g with iNodeUsed := g.iNodeUsed - 1 }) (-1)).trans hw.body
  used := by
    show g.iNodeUsed - 1 ≤ h.iNodeUsed
    rw [hw.used]
    omega

theorem WithinBut.mono {T : Set NodePtr} (hw : WithinBut S n hole h h') (hST : S ⊆ T) :
    WithinBut T n hole h h' :=
  ⟨hw.used, hw.body, fun i hi hih => hST (hw.mem i hi hih)⟩

/-- What is held, and the last node, which is held unless there is none. -/
theorem held_insert_last (h0 : h.iNodeUsed ≠ 0) :
    insert (h.slot (h.iNodeUsed - 1)) h.held ⊆ h.held :=
  Set.insert_subset ⟨_, Nat.sub_lt (Nat.pos_of_ne_zero h0) Nat.one_pos, rfl⟩ (fun _ hp => hp)

theorem withinBut_last (h : MinHeap) (hole : ℕ) :
    WithinBut (insert (h.slot (h.iNodeUsed - 1)) h.held) h.iNodeUsed hole h h :=
  (withinBut_held h hole).mono (Set.subset_insert _ _)

/-- **Popping** leaves fewer nodes, whatever heap it is done to. -/
theorem minheapPop_fewer (h : MinHeap) : Fewer h (minheapPop h).2 := by
  unfold minheapPop
  split
  · exact (minheapShiftDownLoop_within (withinBut_last h 0).access.access rfl
      (Set.mem_insert _ _)).fewer held_insert_last
  · exact .refl

/-- **Erasing** leaves fewer nodes, whatever heap it is done to. -/
theorem minheapErase_fewer (h : MinHeap) (p : NodePtr) : Fewer h (minheapErase h p).2 := by
  unfold minheapErase
  dsimp only
  split
  · split
    · exact (minheapShiftUpLoop_within (withinBut_last h _).access.access
        (Set.mem_insert _ _)).fewer held_insert_last
    · exact (minheapShiftDownLoop_within (withinBut_last h _).access.access rfl
        (Set.mem_insert _ _)).fewer held_insert_last
  · exact .refl

/-- **Pushing** takes in the node that is pushed at most, whatever heap it is done
to. -/
theorem minHeapPush_within (h : MinHeap) (p : NodePtr) (realloc : Bool) :
    (minHeapPush h p realloc).2.held ⊆ insert p h.held
      ∧ (minHeapPush h p realloc).2.body = h.body := by
  unfold minHeapPush
  dsimp only
  rcases minheapReserveSize_spec h (h.iNodeUsed + 1) realloc with ⟨hr, -⟩ | ⟨-, cap, -, hr⟩
  · rw [hr]
    exact ⟨Set.subset_insert _ _, rfl⟩
  · rw [hr]
    dsimp only
    set g : MinHeap := { h with iNodeCapacity := cap } with hg
    have hbut : WithinBut (insert p h.held) (h.iNodeUsed + 1) h.iNodeUsed g g :=
      ⟨rfl, rfl, fun i hi hne => Or.inr ⟨i, by omega, rfl⟩⟩
    have hw : Within (insert p h.held) (h.iNodeUsed + 1) g (minheapShiftUp g h.iNodeUsed p) :=
      minheapShiftUpLoop_within hbut (Set.mem_insert _ _)
    refine ⟨?_, hw.body⟩
    rintro q ⟨i, hi, rfl⟩
    have hi' : i < (minheapShiftUp g h.iNodeUsed p).iNodeUsed + 1 := hi
    rw [hw.used] at hi'
    exact hw.mem i hi'

/-- A sift up ends with the node in some slot, and its index there. -/
theorem minheapShiftUpLoop_places (e : NodePtr) (fuel : ℕ) (h : MinHeap) (hole : ℕ) :
    ∃ j ≤ hole, (minheapShiftUpLoop e fuel h hole).slot j = e
      ∧ (minheapShiftUpLoop e fuel h hole).index e = j := by
  have hplace : ∀ (g : MinHeap) (i : ℕ), ∃ j ≤ i, (g.place i e).slot j = e
      ∧ (g.place i e).index e = j := by
    intro g i
    refine ⟨i, le_rfl, ?_, ?_⟩
    · rw [slot_place, Function.update_self]
    · rw [index_place, Function.update_self]
  induction fuel generalizing h hole with
  | zero => exact hplace h hole
  | succ fuel ih =>
    rw [minheapShiftUpLoop]
    by_cases h0 : hole = 0
    · rw [if_pos h0]
      exact hplace h hole
    · rw [if_neg h0]
      dsimp only
      split
      · obtain ⟨j, hj, hslot, hidx⟩ := ih _ _
        exact ⟨j, hj.trans (parent_lt h0).le, hslot, hidx⟩
      · exact hplace _ hole

/-- **A push that succeeds** ends with the node in the heap, and its index there. -/
theorem minHeapPush_places {realloc : Bool} (hpush : minHeapPush h p realloc = (Ret.succ, h')) :
    ∃ j < h'.iNodeUsed, h'.slot j = p ∧ h'.index p = j := by
  unfold minHeapPush at hpush
  dsimp only at hpush
  split at hpush
  · exact absurd (congrArg Prod.fst hpush) (by simp)
  · next g hreserve =>
    obtain rfl := (Prod.mk.inj hpush).2
    have hw : Within (insert p g.held) g.iNodeUsed g (minheapShiftUp g g.iNodeUsed p) :=
      minheapShiftUpLoop_within ((withinBut_held g g.iNodeUsed).mono (Set.subset_insert _ _))
        (Set.mem_insert _ _)
    obtain ⟨j, hj, hslot, hidx⟩ := minheapShiftUpLoop_places p g.iNodeUsed g g.iNodeUsed
    refine ⟨j, ?_, hslot, hidx⟩
    show j < (minheapShiftUp g g.iNodeUsed p).iNodeUsed + 1
    rw [hw.used]
    omega

end MinHeap
