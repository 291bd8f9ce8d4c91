import TcpFrame.WorkerTimers
import TcpFrame.MinHeapQueue

/-!
# Expiry is exact

What `ReactorProcessTimeoutEvent` does to a heap whose timers each lead to a
connection of their own (`Worker.Owned`), where `epoll_ctl` succeeds. The
callback of a timer comes back to the heap: `__DestroyConn` erases the node that
was just popped. The erase finds the index `-1` that the pop has left there, so
it does nothing, and the loop goes on with what the pop made of the heap.

So the rounds of the loop pop the timers that are due, in the order of their
deadlines, and stop at the first that is not (`reactorProcessTimeoutEvent_exact`).
-/

open HeapOrder MinHeap

namespace Worker

variable {w w' w'' : Worker} {c : ConnPtr} {conn : ConnFd} {p : NodePtr}

/-- The serial number of the connection the node `p` is the timer of. -/
def owner (w : Worker) (p : NodePtr) : Option ℕ :=
  w.timerOwner p (w.pstHeapHeader.body p).pstCallbackArg

/-- **What the expiry of the timers `ps` is.** They are the ones that are due,
each once and in the order of their deadlines; each callback was for the
connection of its timer, which was alive, and exactly these connections are gone;
the other timers are still in the heap, unchanged, and the heap is well formed. -/
structure Expired (w : Worker) (ps : List NodePtr) (w' : Worker) : Prop where
  due : (ps : Multiset NodePtr)
    = w.pstHeapHeader.entries.filter (fun p => w.pstHeapHeader.timeout p ≤ w.pstTimeCache)
  sorted : ps.Pairwise (fun p q => w.pstHeapHeader.timeout p ≤ w.pstHeapHeader.timeout q)
  alive : ∀ p ∈ ps, w.owner p ≠ none
  timeouts : w'.timeouts = w.timeouts ++ ps.map w.owner
  conns : ∀ c, w'.conns c
    = if ∃ p ∈ ps, (w.pstHeapHeader.body p).pstCallbackArg = some c then none else w.conns c
  heap : WellFormed w'.pstHeapHeader.held w'.pstHeapHeader
  entries : w'.pstHeapHeader.entries
    = w.pstHeapHeader.entries.filter (fun p => w.pstTimeCache < w.pstHeapHeader.timeout p)
  body : w'.pstHeapHeader.body = w.pstHeapHeader.body
  fate : w'.fate = w.fate

/-- Where nothing is due, nothing expires. -/
theorem Expired.refl (h : w.Owned)
    (hnone : ∀ p ∈ w.pstHeapHeader.held, w.pstTimeCache < w.pstHeapHeader.timeout p) :
    w.Expired [] w where
  due := by
    symm
    exact Multiset.filter_eq_nil.mpr
      (fun p hp => not_le.mpr (hnone p (mem_entries.mp hp)))
  sorted := List.Pairwise.nil
  alive _ hp := absurd hp List.not_mem_nil
  timeouts := (List.append_nil _).symm
  conns c := by simp
  heap := h.heap
  entries := by
    symm
    exact Multiset.filter_eq_self.mpr (fun p hp => hnone p (mem_entries.mp hp))
  body := rfl
  fate := rfl

/-- The entries that are left when a timer has fired. -/
theorem Fired.entries (hf : w.Fired c conn w') (h : w.Owned) (h' : w'.Owned) :
    conn.pstTimeoutEvent ::ₘ w'.pstHeapHeader.entries = w.pstHeapHeader.entries := by
  have herase : w'.pstHeapHeader.entries
      = w.pstHeapHeader.entries.erase conn.pstTimeoutEvent := by
    refine (Multiset.Nodup.ext h'.heap.toBacked.nodup_entries
      (h.heap.toBacked.nodup_entries.erase _)).mpr (fun q => ?_)
    rw [h.heap.toBacked.nodup_entries.mem_erase_iff, mem_entries, mem_entries, hf.held]
    exact ⟨fun hq => ⟨hq.2, hq.1⟩, fun hq => ⟨hq.2, hq.1⟩⟩
  rw [herase, Multiset.cons_erase (mem_entries.mpr hf.mem)]

/-- The owner of a timer that is still in the heap is who it was. -/
theorem Fired.owner_eq (hf : w.Fired c conn w') (h' : w'.Owned)
    (hp : p ∈ w'.pstHeapHeader.held) : w'.owner p = w.owner p := by
  obtain ⟨-, d, e, harg, hd, -⟩ := h'.owner p hp
  unfold owner
  rw [← hf.body, harg]
  show ((w'.conns d).filter _).map _ = ((w.conns d).filter _).map _
  rw [hd]
  rw [hf.conns] at hd
  by_cases hdc : d = c
  · rw [hdc, Function.update_self] at hd
    exact absurd hd (by simp)
  · rw [Function.update_of_ne hdc] at hd
    rw [hd]

/-- **One timer fires, and then the others that are due.** -/
theorem Fired.expired {ps : List NodePtr} (hf : w.Fired c conn w') (h : w.Owned) (h' : w'.Owned)
    (harg : (w.pstHeapHeader.body conn.pstTimeoutEvent).pstCallbackArg = some c)
    (hleast : ∀ p ∈ w.pstHeapHeader.held,
      w.pstHeapHeader.timeout conn.pstTimeoutEvent ≤ w.pstHeapHeader.timeout p)
    (he : w'.Expired ps w'') : w.Expired (conn.pstTimeoutEvent :: ps) w'' := by
  have hentries := hf.entries h h'
  have htimeout : w'.pstHeapHeader.timeout = w.pstHeapHeader.timeout := timeout_of_body hf.body
  have hdue := he.due
  rw [htimeout, hf.time] at hdue
  have hmem : ∀ q ∈ ps, q ∈ w'.pstHeapHeader.held := by
    intro q hq
    have hq' : q ∈ (ps : Multiset NodePtr) := hq
    rw [hdue] at hq'
    exact mem_entries.mp (Multiset.mem_of_mem_filter hq')
  have howner : ∀ q ∈ ps, w'.owner q = w.owner q := fun q hq => hf.owner_eq h' (hmem q hq)
  have hself : w.owner conn.pstTimeoutEvent = some conn.serial := by
    unfold owner
    rw [harg]
    show ((w.conns c).filter _).map _ = _
    rw [hf.live, Option.filter_some, if_pos (decide_eq_true rfl)]
    rfl
  refine
    { due := ?_
      sorted := List.pairwise_cons.mpr ⟨fun q hq => ?_, htimeout ▸ he.sorted⟩
      alive := fun q hq => ?_
      timeouts := ?_
      conns := fun d => ?_
      heap := he.heap
      entries := ?_
      body := he.body.trans hf.body
      fate := he.fate.trans hf.fate }
  · rw [← Multiset.cons_coe, hdue, ← hentries]
    exact (Multiset.filter_cons_of_pos (p := fun q => w.pstHeapHeader.timeout q ≤ w.pstTimeCache)
      _ hf.due).symm
  · have hheld := hmem q hq
    rw [hf.held] at hheld
    exact hleast q hheld.1
  · rcases List.mem_cons.mp hq with rfl | hq
    · rw [hself]
      exact Option.some_ne_none _
    · rw [← howner q hq]
      exact he.alive q hq
  · rw [he.timeouts, hf.timeouts, List.map_cons, hself, List.append_assoc]
    exact congrArg (fun l => w.timeouts ++ some conn.serial :: l) (List.map_congr_left howner)
  · rw [he.conns d, hf.body, hf.conns]
    by_cases hdc : d = c
    · rw [hdc, Function.update_self, ite_self, if_pos]
      exact ⟨_, List.mem_cons_self, harg⟩
    · rw [Function.update_of_ne hdc]
      refine if_congr ?_ rfl rfl
      constructor
      · rintro ⟨q, hq, hqd⟩
        exact ⟨q, List.mem_cons_of_mem _ hq, hqd⟩
      · rintro ⟨q, hq, hqd⟩
        rcases List.mem_cons.mp hq with rfl | hq
        · exact absurd (Option.some.inj (hqd.symm.trans harg)) hdc
        · exact ⟨q, hq, hqd⟩
  · rw [he.entries, htimeout, hf.time, ← hentries]
    exact (Multiset.filter_cons_of_neg (p := fun q => w.pstTimeCache < w.pstHeapHeader.timeout q)
      _ (not_lt.mpr hf.due)).symm

/-- **The timeout loop is exact**, and with fuel for every timer it does not
depend on the fuel. The induction is on the number of timers, of which every
round takes one. -/
theorem processTimeoutLoop_exact (n : ℕ) (h : w.Owned) (hgranted : w.Granted)
    (hrun : w.fate = .running) (hused : w.pstHeapHeader.iNodeUsed = n) :
    ∃ w' ps, w.Expired ps w' ∧ ∀ fuel, n ≤ fuel → processTimeoutLoop fuel w = w' := by
  induction n generalizing w with
  | zero =>
    have hnone : ∀ p ∈ w.pstHeapHeader.held, w.pstTimeCache < w.pstHeapHeader.timeout p :=
      fun p ⟨i, hi, _⟩ => absurd hi (by omega)
    exact ⟨w, [], .refl h hnone, fun fuel _ => processTimeoutLoop_over h hnone fuel⟩
  | succ n ih =>
    obtain ⟨hover, hnone⟩ | ⟨-, -, hnot⟩ | ⟨c, conn, w', hf, h', harg, hleast, -, -, hgr, hloop⟩ :=
      processTimeoutLoop_succ h hrun
    · exact ⟨w, [], .refl h hnone, fun fuel _ => hover fuel⟩
    · exact absurd hgranted hnot
    · have hused' := hf.used
      obtain ⟨w'', ps, he, hfuel⟩ := ih h' (hgr hgranted) (hf.fate.trans hrun) (by omega)
      refine ⟨w'', _, hf.expired h h' harg hleast he, fun fuel hle => ?_⟩
      obtain ⟨k, rfl⟩ : ∃ k, fuel = k + 1 := ⟨fuel - 1, by omega⟩
      rw [hloop k]
      exact hfuel k (by omega)

/-- **`ReactorProcessTimeoutEvent` is exact**, and its loop ends: more rounds than
there were timers make no difference. -/
theorem reactorProcessTimeoutEvent_exact (h : w.Owned) (hgranted : w.Granted)
    (hrun : w.fate = .running) :
    (∀ fuel, w.pstHeapHeader.iNodeUsed ≤ fuel →
        processTimeoutLoop fuel w = reactorProcessTimeoutEvent w)
      ∧ ∃ ps, ps.length ≤ w.pstHeapHeader.iNodeUsed
        ∧ w.Expired ps (reactorProcessTimeoutEvent w) := by
  obtain ⟨w', ps, he, hfuel⟩ := processTimeoutLoop_exact _ h hgranted hrun rfl
  have hend : reactorProcessTimeoutEvent w = w' := hfuel _ le_rfl
  rw [hend]
  refine ⟨hfuel, ps, ?_, he⟩
  rw [← Multiset.coe_card, he.due, ← card_entries]
  exact Multiset.card_le_card (Multiset.filter_le _ _)

/-- Timers lead to connections of their own if each leads to one whose timer it
is. -/
theorem owned_of_slots (hw : WellFormed w.pstHeapHeader.held w.pstHeapHeader)
    (hslots : ∀ i < w.pstHeapHeader.iNodeUsed,
      (w.pstHeapHeader.body (w.pstHeapHeader.slot i)).pFunTimeoutProcCallback
          = some .connectionTimeoutCallback
        ∧ ((w.pstHeapHeader.body (w.pstHeapHeader.slot i)).pstCallbackArg.bind w.conns).map
            ConnFd.pstTimeoutEvent = some (w.pstHeapHeader.slot i)) : w.Owned := by
  refine ⟨hw, ?_⟩
  rintro p ⟨i, hi, rfl⟩
  obtain ⟨hproc, hnode⟩ := hslots i hi
  obtain ⟨conn, hconn, hnode⟩ := Option.map_eq_some_iff.mp hnode
  obtain ⟨c, harg, hc⟩ := Option.bind_eq_some_iff.mp hconn
  exact ⟨hproc, c, conn, harg, hc, hnode⟩

/-- A worker at second `66` with three connections, whose timers are due at the
seconds `65`, `63` and `69`. -/
def expiringWorker : Worker :=
  { eventBaseCreate { emptyTable with epoll := { emptyTable.epoll with answer := fun _ => .granted } }
      blankEvent ⟨66, 0⟩ 3 1 with
    pstHeapHeader := [(1, 65), (2, 63), (3, 69)].foldl
      (fun h e => (minHeapPush (h.setTimeout e.1 ⟨e.2, 0⟩) e.1 true).2)
      (minheapCreate (fun p => { blankEvent p with
        pFunTimeoutProcCallback := some .connectionTimeoutCallback
        pstCallbackArg := some p }))
    conns := fun c => if c = 1 ∨ c = 2 ∨ c = 3 then
        some (.create (c + 3) c (fun _ => 0) (fun _ => 0) c)
      else none }

theorem expiringWorker_ok : expiringWorker.Owned ∧ expiringWorker.Granted := by
  refine ⟨owned_of_slots (wellFormed_held (by decide +kernel) (by decide +kernel)
    (by decide +kernel)) (by decide +kernel), fun _ => rfl, fun c conn hc => ?_⟩
  have hc' : (if c = 1 ∨ c = 2 ∨ c = 3 then
      some (ConnFd.create (c + 3) c (fun _ => 0) (fun _ => 0) c) else none) = some conn := hc
  by_cases hlive : c = 1 ∨ c = 2 ∨ c = 3
  · rw [if_pos hlive] at hc'
    rw [← Option.some.inj hc']
    rcases hlive with rfl | rfl | rfl <;> decide
  · rw [if_neg hlive] at hc'
    exact absurd hc' (by simp)

/-- Two of its three timers are due. -/
theorem reactorProcessTimeoutEvent_exact_sample :
    (∀ fuel, expiringWorker.pstHeapHeader.iNodeUsed ≤ fuel →
        processTimeoutLoop fuel expiringWorker = reactorProcessTimeoutEvent expiringWorker)
      ∧ ∃ ps, ps.length ≤ expiringWorker.pstHeapHeader.iNodeUsed
        ∧ expiringWorker.Expired ps (reactorProcessTimeoutEvent expiringWorker) :=
  reactorProcessTimeoutEvent_exact expiringWorker_ok.1 expiringWorker_ok.2 (by decide +kernel)

end Worker
