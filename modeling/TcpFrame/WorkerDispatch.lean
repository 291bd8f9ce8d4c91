import TcpFrame.Worker
import TcpFrame.WorkerTimers
import TcpFrame.ConnRecv
import TcpFrame.MinHeapRuns

/-!
# The batch loop

A batch of events, each on a descriptor of its own, is worked off one event
after the other, and the callbacks of one event destroy their connection, close
its descriptor and let an accept use the number again. As long as every slot
with an event belongs to the live connection that owns its descriptor
(`Worker.SlotsOwned`), every callback is for a connection that is alive and has
owned the descriptor since the batch was returned, and the slots are owned again
afterwards (`dispatch_always_owned`).

A callback of a connection touches only its own slot and its own descriptor
(`Worker.Touches`), and so the slots of the events that are still to come stay
what they are.
-/

/-! ## The slot of a connection -/

/-- **The callbacks of a slot are the ones of a connection**, for every direction
in its mask. -/
structure FdEvent.Proper (ev : FdEvent) : Prop where
  read : ev.iMask &&& eventReadable ≠ 0 → ev.pFunEventCallbackRead = some .processRecvCallback
  write : ev.iMask &&& eventWritable ≠ 0 → ev.pFunEventCallbackWrite = some .processSendCallback

/-- **The slot of the connection at `c`.** -/
structure FdEvent.Serves (ev : FdEvent) (c : ConnPtr) : Prop extends ev.Proper where
  arg : ev.pstArg = some c

/-- **The slot of the listening descriptor**: it has no argument and is read from
only. -/
structure FdEvent.Listens (ev : FdEvent) : Prop where
  arg : ev.pstArg = none
  read : ev.iMask &&& eventReadable ≠ 0 → ev.pFunEventCallbackRead = some .processAcceptCallback
  write : ev.iMask &&& eventWritable = 0

/-- A direction and its callback. -/
def IsCallbackOf (m : BitVec 32) (cb : EventCallbackProc) : Prop :=
  m = eventReadable ∧ cb = .processRecvCallback ∨ m = eventWritable ∧ cb = .processSendCallback

section Slots

variable {t : EventTable} {fd : ℤ} {ev : FdEvent} {m : BitVec 32} {c : ConnPtr}

/-- The slot with fewer events is still the one of the connection. -/
theorem FdEvent.Serves.without (h : ev.Serves c) :
    FdEvent.Serves { ev with iMask := ev.iMask &&& ~~~m } c :=
  ⟨⟨fun hread => h.read (and_not_ne_zero hread), fun hwrite => h.write (and_not_ne_zero hwrite)⟩,
    h.arg⟩

/-- **`EventAdd` for a connection**, where `epoll_ctl` succeeds, makes the slot
the one of that connection, and touches no other slot. -/
theorem eventAdd_granted {cb : EventCallbackProc} (hgranted : ∀ n, t.epoll.answer n = .granted)
    (hfd : fd ≤ t.iFdEventArraySize) (hcb : IsCallbackOf m cb) (hproper : (t.slot fd).Proper)
    (harg : (t.slot fd).iMask &&& m ≠ 0 → (t.slot fd).pstArg = some c) :
    ∃ t', eventAdd t fd m (some cb) (some c) = (Ret.succ, t') ∧ t.SameBut fd t'
      ∧ (t'.slot fd).Serves c := by
  unfold eventAdd
  rw [if_neg (not_lt.mpr hfd)]
  dsimp only
  rw [show (t.access fd).slot fd = t.slot fd from rfl]
  by_cases hset : (t.slot fd).iMask &&& m ≠ 0
  · rw [if_pos hset]
    exact ⟨_, rfl, EventTable.sameBut_access, hproper, harg hset⟩
  · rw [if_neg hset, EventTable.commit_granted hgranted]
    refine ⟨_, rfl, EventTable.sameBut_updated, ?_⟩
    rw [EventTable.slot_updated]
    -- a direction is the one that was added, or it was there before
    refine ⟨⟨fun hread => ?_, fun hwrite => ?_⟩, rfl⟩
    · dsimp only at hread ⊢
      obtain ⟨rfl, rfl⟩ | ⟨rfl, rfl⟩ := hcb
      · exact if_pos (by decide)
      · rw [if_neg (by decide)]
        exact hproper.read ((and_or_ne_zero hread).resolve_right (by decide))
    · dsimp only at hwrite ⊢
      obtain ⟨rfl, rfl⟩ | ⟨rfl, rfl⟩ := hcb
      · rw [if_neg (by decide)]
        exact hproper.write ((and_or_ne_zero hwrite).resolve_right (by decide))
      · exact if_pos (by decide)

end Slots

/-! ## The calls of a callback -/

/-- The calls a callback makes while its connection lives. -/
def ReactorCall.Mild (call : ReactorCall) : Prop :=
  call = .eventAdd eventWritable .processSendCallback ∨ call = .eventDel eventWritable
    ∨ ∃ t, call = .registerTimerOutEvent t

/-- **A receive callback** makes mild calls, or ends its connection. -/
theorem processRecvCallback_calls {conn : ConnFd} {t_iFd : ℤ} {malloc : Malloc}
    {head body : List ReadOutcome} {rx : List UInt8} :
    (processRecvCallback conn t_iFd malloc head body rx).calls = [.destroyConn]
      ∨ ∀ call ∈ (processRecvCallback conn t_iFd malloc head body rx).calls, call.Mild := by
  have hends := processRecvCallback_ends conn t_iFd malloc head body rx
  generalize processRecvCallback conn t_iFd malloc head body rx = r at hends ⊢
  have hnil : ∀ call ∈ ([] : List ReactorCall), call.Mild :=
    fun call hcall => absurd hcall List.not_mem_nil
  cases hends with
  | destroyed c rx hsame => exact Or.inl rfl
  | waiting c rx hsame => exact Or.inr hnil
  | endless c rx hsame => exact Or.inr hnil
  | unanswered c rx hsame hentire => exact Or.inr hnil
  | answered c rx hsame conn' calls hentire =>
    refine Or.inr (fun call hcall => ?_)
    rcases List.mem_append.mp hcall with hcall | hcall
    · exact Or.inl ((processEntirePacket_spec hentire).2 call hcall)
    · exact Or.inr (Or.inr ⟨_, List.mem_singleton.mp hcall⟩)

/-- **A send callback** makes mild calls, or ends its connection, and leaves it
the one it is. -/
theorem processSendCallback_calls {conn : ConnFd} {t_iFd : ℤ} {outcomes : List WriteOutcome} :
    conn.SameConn (processSendCallback conn t_iFd outcomes).conn
      ∧ ((processSendCallback conn t_iFd outcomes).calls = [.destroyConn]
        ∨ ∀ call ∈ (processSendCallback conn t_iFd outcomes).calls, call.Mild) := by
  have hnil : ∀ call ∈ ([] : List ReactorCall), call.Mild :=
    fun call hcall => absurd hcall List.not_mem_nil
  unfold processSendCallback
  split
  · exact ⟨.refl, Or.inr hnil⟩
  split
  · exact ⟨.refl, Or.inr hnil⟩
  dsimp only
  split
  · exact ⟨.refl, Or.inl rfl⟩
  split
  · refine ⟨⟨rfl, rfl, rfl⟩, Or.inr (fun call hcall => ?_)⟩
    exact Or.inr (Or.inl (List.mem_singleton.mp hcall))
  · exact ⟨⟨rfl, rfl, rfl⟩, Or.inr hnil⟩

namespace Worker

variable {w w' w'' : Worker} {fd : ℤ} {c : ConnPtr} {conn : ConnFd} {realloc : Bool}

/-! ## What a callback of a connection touches -/

/-- **Only the slot and the descriptor `fd` and the connection at `c` may have
changed.** -/
structure Touches (w : Worker) (fd : ℤ) (c : ConnPtr) (w' : Worker) : Prop where
  table : w.table.SameBut fd w'.table
  conns : ∀ d ≠ c, w'.conns d = w.conns d
  listen : w'.iListenFd = w.iListenFd

theorem Touches.trans (h : w.Touches fd c w') (h' : w'.Touches fd c w'') :
    w.Touches fd c w'' where
  table := h.table.trans h'.table
  conns d hd := (h'.conns d hd).trans (h.conns d hd)
  listen := h'.listen.trans h.listen

/-- **The connection is still there**, and its slot is its own. -/
structure Alive (w : Worker) (c : ConnPtr) (conn : ConnFd) (w' : Worker) : Prop
    extends w.Touches conn.iFd c w' where
  defined : w'.fate ≠ .undefined
  live : ∃ conn', w'.conns c = some conn' ∧ conn.SameConn conn'
  serves : (w'.table.slot conn.iFd).Serves c

/-- **The connection is gone**, and so are the events of its slot. -/
structure Gone (w : Worker) (c : ConnPtr) (conn : ConnFd) (w' : Worker) : Prop
    extends w.Touches conn.iFd c w' where
  defined : w'.fate ≠ .undefined
  dead : w'.conns c = none
  empty : (w'.table.slot conn.iFd).iMask = eventNone

/-- What is left alone in `w` is as good as in `w` afterwards. -/
theorem Touches.granted (h : w.Touches fd c w') (hgranted : ∀ n, w.table.epoll.answer n = .granted)
    (hfd : fd ≤ w.table.iFdEventArraySize) :
    (∀ n, w'.table.epoll.answer n = .granted) ∧ fd ≤ w'.table.iFdEventArraySize := by
  rw [h.table.answer, h.table.size]
  exact ⟨hgranted, hfd⟩

/-- **A mild call** leaves the connection alive. -/
theorem Alive.call (h : w.Alive c conn w') (hgranted : ∀ n, w.table.epoll.answer n = .granted)
    (hfd : conn.iFd ≤ w.table.iFdEventArraySize) {call : ReactorCall} (hcall : call.Mild) :
    w.Alive c conn (reactorCall c realloc w' call) := by
  by_cases hrun : w'.fate = .running
  swap
  · unfold reactorCall
    rw [if_neg hrun]
    exact h
  obtain ⟨hgranted', hfd'⟩ := h.toTouches.granted hgranted hfd
  obtain ⟨conn', hlive, hsame⟩ := h.live
  rw [reactorCall_live hrun hlive]
  unfold serve
  -- the table is another one, and the rest of the worker is what it was
  have hnext : ∀ table', w'.table.SameBut conn.iFd table' → (table'.slot conn.iFd).Serves c →
      w.Alive c conn { w' with table := table' } := fun table' hbut hserves =>
    { table := h.table.trans hbut
      conns := h.conns
      listen := h.listen
      defined := h.defined
      live := h.live
      serves := hserves }
  rcases hcall with rfl | rfl | ⟨t, rfl⟩
  · obtain ⟨table', hadd, hbut, hserves⟩ := eventAdd_granted hgranted' hfd' (Or.inr ⟨rfl, rfl⟩)
      h.serves.toProper (fun _ => h.serves.arg)
    dsimp only
    rw [hsame.iFd, hadd]
    exact hnext table' hbut hserves
  · obtain ⟨table', hdel, hbut, hslot⟩ := eventDel_granted (m := eventWritable) hgranted' hfd'
    dsimp only
    rw [hsame.iFd, hdel]
    exact hnext table' hbut (hslot ▸ h.serves.without)
  · exact { h with }

/-- **`__DestroyConn`** takes the connection away. -/
theorem Alive.destroy (h : w.Alive c conn w') (hgranted : ∀ n, w.table.epoll.answer n = .granted)
    (hfd : conn.iFd ≤ w.table.iFdEventArraySize) (hrun : w'.fate = .running) :
    w.Gone c conn (reactorCall c realloc w' .destroyConn) := by
  obtain ⟨hgranted', hfd'⟩ := h.toTouches.granted hgranted hfd
  obtain ⟨conn', hlive, hsame⟩ := h.live
  rw [reactorCall_live hrun hlive]
  show w.Gone c conn (destroyConn w' c)
  obtain ⟨table₁, hdel₁, hbut₁, -⟩ := eventDel_granted
    (m := eventWritable ||| eventReadable) hgranted' hfd'
  rw [← hsame.iFd] at hdel₁
  obtain ⟨iClientCount, table, ⟨hdel, -⟩ | ⟨table', hdel, htable, hdestroy⟩⟩ :=
    destroyConn_spec hlive
  · rw [hdel₁] at hdel
    exact absurd (congrArg Prod.fst hdel) (by simp)
  · rw [hdel₁] at hdel
    obtain rfl : table₁ = table' := congrArg Prod.snd hdel
    rw [hsame.iFd] at htable
    obtain ⟨hbut₂, hslot, -⟩ := EventTable.sameBut_init (t := table₁)
      (k := .closed)
    rw [hdestroy, htable]
    exact
      { table := h.table.trans (hbut₁.trans hbut₂)
        conns := fun d hd => (Function.update_of_ne hd _ _).trans (h.conns d hd)
        listen := h.listen
        defined := h.defined
        dead := Function.update_self ..
        empty := congrArg FdEvent.iMask hslot }

/-- **The calls of a callback**: mild ones, or the end of the connection. -/
theorem Alive.calls (h : w.Alive c conn w') (hgranted : ∀ n, w.table.epoll.answer n = .granted)
    (hfd : conn.iFd ≤ w.table.iFdEventArraySize) {calls : List ReactorCall}
    (hmild : ∀ call ∈ calls, call.Mild) :
    w.Alive c conn (calls.foldl (reactorCall c realloc) w') := by
  induction calls generalizing w' with
  | nil => exact h
  | cons call calls ih =>
    exact ih (h.call hgranted hfd (hmild call (List.mem_cons_self ..)))
      (fun call' hcall' => hmild call' (List.mem_cons_of_mem _ hcall'))

/-! ## A callback of a connection -/

/-- **What a callback leaves of its connection**: it is alive, or it is gone. -/
def Settled (w : Worker) (c : ConnPtr) (conn : ConnFd) (w' : Worker) : Prop :=
  w.Alive c conn w' ∨ w.Gone c conn w'

theorem Settled.toTouches (h : w.Settled c conn w') : w.Touches conn.iFd c w' :=
  h.elim Alive.toTouches Gone.toTouches

theorem Settled.defined (h : w.Settled c conn w') : w'.fate ≠ .undefined :=
  h.elim Alive.defined Gone.defined

/-- **A receive or send callback** settles its connection. -/
theorem eventCallback_settled {input : EventInput} {t_iFd : ℤ} {proc : EventCallbackProc}
    (hrun : w.fate = .running) (hc : w.conns c = some conn)
    (hserves : (w.table.slot conn.iFd).Serves c)
    (hgranted : ∀ n, w.table.epoll.answer n = .granted)
    (hfd : conn.iFd ≤ w.table.iFdEventArraySize)
    (hproc : proc = .processRecvCallback ∨ proc = .processSendCallback) :
    w.Settled c conn (eventCallback w input t_iFd (some c) proc) := by
  have hdefined : w.fate ≠ .undefined := by
    rw [hrun]
    decide
  -- the callback has done its reading or writing, and now it makes its calls
  have hcalls : ∀ (conn' : ConnFd) (calls : List ReactorCall), conn.SameConn conn' →
      (calls = [.destroyConn] ∨ ∀ call ∈ calls, call.Mild) →
      w.Settled c conn (calls.foldl (reactorCall c input.realloc)
        { w with conns := Function.update w.conns c (some conn') }) := by
    intro conn' calls hsame hcalls
    have halive : w.Alive c conn { w with conns := Function.update w.conns c (some conn') } :=
      { table := EventTable.sameBut_refl
        conns := fun d hd => Function.update_of_ne hd _ _
        listen := rfl
        defined := hdefined
        live := ⟨conn', Function.update_self .., hsame⟩
        serves := hserves }
    rcases hcalls with rfl | hmild
    · exact Or.inr (halive.destroy hgranted hfd hrun)
    · exact Or.inl (halive.calls hgranted hfd hmild)
  unfold eventCallback
  rcases hproc with rfl | rfl
  · dsimp only
    rw [hc]
    dsimp only
    set r := processRecvCallback conn t_iFd input.malloc input.head input.body input.rx
    have h := hcalls r.conn r.calls processRecvCallback_sameConn processRecvCallback_calls
    have hread := hcalls r.conn [] processRecvCallback_sameConn
      (Or.inr (fun call hcall => absurd hcall List.not_mem_nil))
    split
    · have hoverrun : ProcessFate.overrun ≠ .undefined := by decide
      exact hread.imp (fun h => { h with defined := hoverrun })
        (fun h => { h with defined := hoverrun })
    split
    · exact h
    · have hhung : ProcessFate.hung ≠ .undefined := by decide
      exact h.imp (fun h => { h with defined := hhung }) (fun h => { h with defined := hhung })
  · dsimp only
    rw [hc]
    exact hcalls _ _ processSendCallback_calls.1 processSendCallback_calls.2

/-- The calls of a callback leave no trace in the log of callbacks. -/
theorem invoked_reactorCall {call : ReactorCall} :
    (reactorCall c realloc w call).invoked = w.invoked := by
  unfold reactorCall
  split
  swap
  · rfl
  split
  · rfl
  unfold serve
  cases call with
  | eventAdd m cb => dsimp only; split <;> rfl
  | eventDel m => dsimp only; split <;> rfl
  | registerTimerOutEvent t => rfl
  | destroyConn =>
    dsimp only
    unfold destroyConn
    split
    · rfl
    · dsimp only
      split <;> rfl

theorem invoked_calls {calls : List ReactorCall} :
    (calls.foldl (reactorCall c realloc) w).invoked = w.invoked := by
  induction calls generalizing w with
  | nil => rfl
  | cons call calls ih => exact ih.trans invoked_reactorCall

theorem invoked_processAcceptCallback {t_iFd : ℤ} {accept : AcceptOutcome} :
    (processAcceptCallback w t_iFd accept).invoked = w.invoked := by
  unfold processAcceptCallback
  split
  · rfl
  split
  · rfl
  split
  swap
  · rfl
  split
  · rfl
  · rfl
  dsimp only
  split
  · rfl
  split <;> rfl

theorem invoked_eventCallback {input : EventInput} {t_iFd : ℤ} {pstArg : Option ConnPtr}
    {proc : EventCallbackProc} :
    (eventCallback w input t_iFd pstArg proc).invoked = w.invoked := by
  unfold eventCallback
  cases proc with
  | processAcceptCallback => exact invoked_processAcceptCallback
  | processRecvCallback =>
    dsimp only
    split
    · rfl
    split
    · rfl
    split
    · rfl
    split
    · exact invoked_calls
    · exact invoked_calls
  | processSendCallback =>
    dsimp only
    split
    · rfl
    split
    · rfl
    · exact invoked_calls
  | wild addr => rfl

/-- **The batch loop calls a callback of a connection**, and it settles it. -/
theorem call_settled {input : EventInput} (proc : EventCallbackProc)
    (hrun : w.fate = .running) (hc : w.conns c = some conn)
    (hserves : (w.table.slot conn.iFd).Serves c)
    (hgranted : ∀ n, w.table.epoll.answer n = .granted)
    (hfd : conn.iFd ≤ w.table.iFdEventArraySize)
    (hproc : proc = .processRecvCallback ∨ proc = .processSendCallback) :
    w.Settled c conn (w.call input conn.iFd (some proc))
      ∧ (w.call input conn.iFd (some proc)).invoked
        = w.invoked ++ [⟨conn.iFd, proc, some c, some conn.serial⟩] := by
  unfold Worker.call
  dsimp only
  rw [hserves.arg]
  have hserial : ((some c).bind w.conns).map ConnFd.serial = some conn.serial := by
    rw [Option.bind_some, hc]
    rfl
  rw [hserial]
  set w₁ : Worker := { w with
    invoked := w.invoked ++ [⟨conn.iFd, proc, some c, some conn.serial⟩] }
  have h : w₁.Settled c conn (eventCallback w₁ input conn.iFd (some c) proc) :=
    eventCallback_settled hrun hc hserves hgranted hfd hproc
  exact ⟨h.imp (fun h => { h with }) (fun h => { h with }), invoked_eventCallback⟩

/-! ## Slots and their owners -/

/-- **The slot of `fd` has an owner**: it is the one of the listening descriptor,
or of a live connection that owns `fd`. -/
def SlotOwned (w : Worker) (fd : ℤ) : Prop :=
  fd = w.iListenFd ∧ (w.table.slot fd).Listens
    ∨ ∃ c conn, w.conns c = some conn ∧ conn.iFd = fd ∧ (w.table.slot fd).Serves c

/-- **Every slot with an event has an owner.** -/
def SlotsOwned (w : Worker) : Prop :=
  ∀ fd, 0 ≤ fd → fd < w.table.iFdEventArraySize →
    (w.table.slot fd).iMask ≠ eventNone → w.SlotOwned fd

/-- **What belongs to the descriptors in `S` is as it was**: their slots, as long
as they are open, and their connections. -/
structure Spares (S : Set ℤ) (w w' : Worker) : Prop where
  size : w'.table.iFdEventArraySize = w.table.iFdEventArraySize
  answer : w'.table.epoll.answer = w.table.epoll.answer
  listen : w'.iListenFd = w.iListenFd
  slots : ∀ g ∈ S, w.table.epoll.fd g ≠ .closed →
    w'.table.slot g = w.table.slot g ∧ w'.table.epoll.fd g = w.table.epoll.fd g
  conns : ∀ d e, w.conns d = some e → e.iFd ∈ S → w'.conns d = some e

variable {S S' : Set ℤ} {a : Accepted}

theorem Spares.refl : Spares S w w :=
  ⟨rfl, rfl, rfl, fun _ _ _ => ⟨rfl, rfl⟩, fun _ _ hd _ => hd⟩

theorem Spares.mono (h : Spares S w w') (hS : S' ⊆ S) : Spares S' w w' :=
  ⟨h.size, h.answer, h.listen, fun g hg => h.slots g (hS hg),
    fun d e hd he => h.conns d e hd (hS he)⟩

theorem Spares.trans (h : Spares S w w') (h' : Spares S w' w'') : Spares S w w'' where
  size := h'.size.trans h.size
  answer := h'.answer.trans h.answer
  listen := h'.listen.trans h.listen
  slots g hg hopen := by
    obtain ⟨hslot, hfd⟩ := h.slots g hg hopen
    obtain ⟨hslot', hfd'⟩ := h'.slots g hg (by rw [hfd]; exact hopen)
    exact ⟨hslot'.trans hslot, hfd'.trans hfd⟩
  conns d e hd he := h'.conns d e (h.conns d e hd he) he

/-- What a connection touches spares all descriptors but its own. -/
theorem Touches.spares (h : w.Touches fd c w') (hc : ∀ e, w.conns c = some e → e.iFd ∉ S)
    (hfd : fd ∈ S → w.table.epoll.fd fd = .closed) : Spares S w w' where
  size := h.table.size
  answer := h.table.answer
  listen := h.listen
  slots g hg hopen := by
    have hne : g ≠ fd := by
      rintro rfl
      exact hopen (hfd hg)
    exact ⟨h.table.slot g hne, h.table.kernel g hne⟩
  conns d e hd he := by
    have hne : d ≠ c := by
      rintro rfl
      exact hc e hd he
    exact (h.conns d hne).trans hd

/-- **The other slots keep their owners.** -/
theorem Touches.slotsOwned (h : w.Touches fd c w') (hw : w.SlotsOwned)
    (hc : ∀ e, w.conns c = some e → e.iFd = fd)
    (hfd : (w'.table.slot fd).iMask ≠ eventNone → w'.SlotOwned fd) : w'.SlotsOwned := by
  intro g hpos hlt hmask
  by_cases hg : g = fd
  · rw [hg] at hmask ⊢
    exact hfd hmask
  have hslot := h.table.slot g hg
  rw [h.table.size] at hlt
  rw [hslot] at hmask
  unfold SlotOwned
  rw [hslot, h.listen]
  refine (hw g hpos hlt hmask).imp id ?_
  rintro ⟨d, e, hd, he, hserves⟩
  have hne : d ≠ c := by
    rintro rfl
    exact hg (he.symm.trans (hc e hd))
  exact ⟨d, e, (h.conns d hne).trans hd, he, hserves⟩

/-- A callback of a connection leaves every slot with an owner. -/
theorem Settled.slotsOwned (h : w.Settled c conn w') (hw : w.SlotsOwned)
    (hc : w.conns c = some conn) : w'.SlotsOwned := by
  refine h.toTouches.slotsOwned hw (fun e he => ?_) (fun hmask => ?_)
  · obtain rfl := Option.some.inj (hc.symm.trans he)
    rfl
  · rcases h with h | h
    · obtain ⟨conn', hlive, hsame⟩ := h.live
      exact Or.inr ⟨c, conn', hlive, hsame.iFd, h.serves⟩
    · exact absurd h.empty hmask

/-! ## Accepting a connection -/

/-- **What can be accepted**: a descriptor that is not open and has a slot, in
memory that no connection uses. -/
def CanAccept (w : Worker) (a : Accepted) : Prop :=
  w.table.epoll.fd a.iClientFd = .closed ∧ 0 ≤ a.iClientFd
    ∧ a.iClientFd < w.table.iFdEventArraySize ∧ w.conns a.pstNewConnFd = none

/-- **The accept callback** spares everything that is there, and leaves every
slot with an owner. -/
theorem processAcceptCallback_spares {t_iFd : ℤ} {accept : AcceptOutcome}
    (hrun : w.fate = .running) (hgranted : ∀ n, w.table.epoll.answer n = .granted)
    (hw : w.SlotsOwned) (hcan : ∀ a, accept = .conn a → w.CanAccept a) :
    (processAcceptCallback w t_iFd accept).fate ≠ .undefined
      ∧ Spares Set.univ w (processAcceptCallback w t_iFd accept)
      ∧ (processAcceptCallback w t_iFd accept).SlotsOwned := by
  have hdefined : w.fate ≠ .undefined := by
    rw [hrun]
    decide
  have hexited : ProcessFate.exited ≠ .undefined := by decide
  have hexit : Spares Set.univ w w.exit :=
    ⟨rfl, rfl, rfl, fun _ _ _ => ⟨rfl, rfl⟩, fun _ _ hd _ => hd⟩
  generalize hg : processAcceptCallback w t_iFd accept = g
  unfold processAcceptCallback at hg
  split at hg
  · exact hg ▸ ⟨hdefined, .refl, hw⟩
  split at hg
  · exact hg ▸ ⟨hdefined, .refl, hw⟩
  split at hg
  swap
  · exact hg ▸ ⟨hexited, hexit, hw⟩
  cases accept with
  | eagain => exact hg ▸ ⟨hdefined, .refl, hw⟩
  | error => exact hg ▸ ⟨hexited, hexit, hw⟩
  | conn a =>
    obtain ⟨hclosed, hpos, hlt, hfree⟩ := hcan a rfl
    have hnone : ∀ e, w.conns a.pstNewConnFd = some e → False := fun e he => by
      rw [hfree] at he
      exact absurd he (by simp)
    have hspares : ∀ {w'}, w.Touches a.iClientFd a.pstNewConnFd w' → Spares Set.univ w w' :=
      fun h => h.spares (fun e he => (hnone e he).elim) (fun _ => hclosed)
    dsimp only at hg
    -- the descriptor is open, and there is nothing else yet
    set w₁ : Worker := { w with
      table := { w.table with epoll := w.table.epoll.accept a.iClientFd }
      iClientCount := w.iClientCount + 1 } with hw₁
    have htouch₁ : w.Touches a.iClientFd a.pstNewConnFd w₁ :=
      ⟨⟨rfl, rfl, rfl, fun _ _ => rfl, fun g hg => Function.update_of_ne hg _ _⟩,
        fun _ _ => rfl, rfl⟩
    split at hg
    · have hexit₁ : w.Touches a.iClientFd a.pstNewConnFd w₁.exit := { htouch₁ with }
      exact hg ▸ ⟨hexited, hspares hexit₁, hw⟩
    -- now there is a connection, with an empty slot
    set w₂ := registerTimerOutEvent (w₁.joining a) a.pstTimeoutEvent maxConnTimeout a.realloc
      with hw₂
    have htouch₂ : w₁.Touches a.iClientFd a.pstNewConnFd w₂ :=
      ⟨⟨rfl, rfl, rfl, fun g hg => Function.update_of_ne hg _ _, fun _ _ => rfl⟩,
        fun d hd => Function.update_of_ne hd _ _, rfl⟩
    have hslot₂ : w₂.table.slot a.iClientFd = FdEvent.zero := Function.update_self ..
    have hlive₂ : w₂.conns a.pstNewConnFd = some (w₁.accepted a) := Function.update_self ..
    have hzero : ∀ m, FdEvent.zero.iMask &&& m = 0 := fun m => BitVec.zero_and
    obtain ⟨table, hadd, hbut, hserves⟩ := eventAdd_granted (t := w₂.table)
      (m := eventReadable) (c := a.pstNewConnFd) hgranted
      (le_of_lt hlt) (Or.inl ⟨rfl, rfl⟩)
      (by rw [hslot₂]; exact ⟨fun h => absurd (hzero _) h, fun h => absurd (hzero _) h⟩)
      (by rw [hslot₂]; exact fun h => absurd (hzero _) h)
    split at hg
    · next hfail =>
      have hret : Ret.succ = Ret.fail := congrArg Prod.fst (hadd.symm.trans hfail)
      exact absurd hret (by decide)
    next table' hsucc =>
    obtain rfl : table = table' := congrArg Prod.snd (hadd.symm.trans hsucc)
    have htouch₃ : w₂.Touches a.iClientFd a.pstNewConnFd { w₂ with table := table } :=
      ⟨hbut, fun _ _ => rfl, rfl⟩
    have htouch := htouch₁.trans (htouch₂.trans htouch₃)
    exact hg ▸ ⟨hdefined, hspares htouch, htouch.slotsOwned hw (fun e he => (hnone e he).elim)
      (fun _ => Or.inr ⟨a.pstNewConnFd, w₁.accepted a, hlive₂, rfl, hserves⟩)⟩

/-! ## One event -/

/-- **A callback is for the owner of its descriptor**: it is the accept callback
of the listening descriptor, without an argument, or its argument is the
connection of the slot, which owns the descriptor and is alive when it is
called. -/
def Entitled (w : Worker) (inv : Invocation) : Prop :=
  inv.proc = .processAcceptCallback ∧ inv.iFd = w.iListenFd ∧ inv.pstArg = none
    ∨ inv.proc ≠ .processAcceptCallback ∧ ∃ c conn, (w.table.slot inv.iFd).pstArg = some c
      ∧ w.conns c = some conn ∧ conn.iFd = inv.iFd ∧ inv.pstArg = some c
      ∧ inv.serial = some conn.serial

/-- The callbacks made since `w` are for the owner of the descriptor `fd` in
`w`. -/
def Calls (w : Worker) (fd : ℤ) (w' : Worker) : Prop :=
  ∃ new, w'.invoked = w.invoked ++ new
    ∧ ∀ inv ∈ new, inv.iFd = fd ∧ (w.table.slot fd).iMask ≠ eventNone ∧ w.Entitled inv

/-- No callback has been made. -/
theorem Calls.none (h : w'.invoked = w.invoked) : w.Calls fd w' :=
  ⟨[], h.trans (List.append_nil _).symm, fun _ hinv => absurd hinv List.not_mem_nil⟩

/-- One more callback. -/
theorem Calls.snoc (h : w.Calls fd w') {inv : Invocation}
    (hinv : w''.invoked = w'.invoked ++ [inv]) (hfd : inv.iFd = fd)
    (hmask : (w.table.slot fd).iMask ≠ eventNone) (hent : w.Entitled inv) : w.Calls fd w'' := by
  obtain ⟨new, heq, hnew⟩ := h
  refine ⟨new ++ [inv], by rw [hinv, heq, List.append_assoc], fun inv' hmem => ?_⟩
  rcases List.mem_append.mp hmem with hmem | hmem
  · exact hnew inv' hmem
  · rw [List.mem_singleton.mp hmem]
    exact ⟨hfd, hmask, hent⟩

/-- A direction that has been triggered is in the mask. -/
theorem mask_of_triggered {a b m : BitVec 32} (h : a &&& b &&& m ≠ 0) : a &&& m ≠ 0 := by
  intro ha
  refine h ?_
  rw [BitVec.and_assoc, BitVec.and_comm b, ← BitVec.and_assoc, ha]
  exact BitVec.zero_and

theorem mask_ne_none {a m : BitVec 32} (h : a &&& m ≠ 0) : a ≠ eventNone := by
  rintro rfl
  exact h BitVec.zero_and

/-- A callback after another one that left the connection alive. -/
theorem Alive.trans_settled {conn' : ConnFd} (h : w.Alive c conn w')
    (hsame : conn.SameConn conn') (h' : w'.Settled c conn' w'') : w.Settled c conn w'' := by
  have htouch : w'.Touches conn.iFd c w'' := hsame.iFd ▸ h'.toTouches
  have htouches : w.Touches conn.iFd c w'' := h.toTouches.trans htouch
  rcases h' with h' | h'
  · obtain ⟨conn'', hlive, hsame'⟩ := h'.live
    refine Or.inl { htouches with defined := h'.defined, live := ⟨conn'', hlive, ?_⟩, serves := ?_ }
    · exact ⟨hsame'.pstTimeoutEvent.trans hsame.pstTimeoutEvent, hsame'.iFd.trans hsame.iFd,
        hsame'.serial.trans hsame.serial⟩
    · exact hsame.iFd ▸ h'.serves
  · exact Or.inr { htouches with
      defined := h'.defined, dead := h'.dead, empty := hsame.iFd ▸ h'.empty }

/-- **An event on the descriptor of a connection** settles it, with the read
callback first and the write callback after that. -/
theorem dispatchEvent_settled {ev : EpollEvent} {input : EventInput}
    (hrun : w.fate = .running) (hc : w.conns c = some conn) (hev : conn.iFd = ev.fd)
    (hserves : (w.table.slot ev.fd).Serves c) (hnone : (w.table.slot ev.fd).iMask ≠ eventNone)
    (hgranted : ∀ n, w.table.epoll.answer n = .granted)
    (hfd : ev.fd ≤ w.table.iFdEventArraySize) :
    w.Settled c conn (dispatchEvent w ev input) ∧ w.Calls ev.fd (dispatchEvent w ev input) := by
  rw [← hev] at hserves hnone hfd ⊢
  have hdefined : w.fate ≠ .undefined := by
    rw [hrun]
    decide
  -- every callback of this event is for the connection
  have hent : ∀ proc, proc ≠ EventCallbackProc.processAcceptCallback →
      w.Entitled ⟨conn.iFd, proc, some c, some conn.serial⟩ :=
    fun proc hproc => Or.inr ⟨hproc, c, conn, hserves.arg, hc, rfl, rfl, rfl⟩
  unfold dispatchEvent
  rw [← hev]
  dsimp only
  set w₀ : Worker := { w with table := w.table.access conn.iFd }
  have halive₀ : w.Alive c conn w₀ :=
    { table := EventTable.sameBut_access
      conns := fun _ _ => rfl
      listen := rfl
      defined := hdefined
      live := ⟨conn, hc, .refl⟩
      serves := hserves }
  set w₁ : Worker := if (w₀.table.slot conn.iFd).iMask &&& ev.iMask &&& eventReadable ≠ 0 then
    w₀.call input conn.iFd (w₀.table.slot conn.iFd).pFunEventCallbackRead else w₀ with hw₁
  have hread : w.Settled c conn w₁ ∧ w.Calls conn.iFd w₁ := by
    rw [hw₁]
    split
    · next htrigger =>
      have hmask := mask_of_triggered htrigger
      obtain ⟨hsettled, hinvoked⟩ := call_settled (w := w₀)
        .processRecvCallback hrun hc hserves hgranted hfd (Or.inl rfl)
      rw [show (w₀.table.slot conn.iFd).pFunEventCallbackRead = _ from hserves.read hmask]
      refine ⟨halive₀.trans_settled .refl hsettled, ?_⟩
      exact (Calls.none rfl).snoc hinvoked rfl hnone (hent _ (by decide))
    · exact ⟨Or.inl halive₀, .none rfl⟩
  obtain ⟨hsettled, hcalls⟩ := hread
  by_cases hrun₁ : w₁.fate = .running
  swap
  · rw [if_pos hrun₁]
    exact ⟨hsettled, hcalls⟩
  rw [if_neg (not_not.mpr hrun₁)]
  split
  swap
  · exact ⟨hsettled, hcalls⟩
  next htrigger =>
  have hmask := mask_of_triggered htrigger
  -- the slot is read anew: it has no events if the connection is gone
  rcases hsettled with halive | hgone
  swap
  · exact absurd hgone.empty (mask_ne_none hmask)
  obtain ⟨conn₁, hlive₁, hsame₁⟩ := halive.live
  obtain ⟨hgranted₁, hfd₁⟩ := halive.toTouches.granted hgranted hfd
  have hserves₁ := halive.serves
  rw [hserves₁.write hmask]
  rw [← hsame₁.iFd] at hserves₁ hfd₁
  obtain ⟨hsettled, hinvoked⟩ := call_settled .processSendCallback
    hrun₁ hlive₁ hserves₁ hgranted₁ hfd₁ (Or.inr rfl)
  rw [hsame₁.serial, hsame₁.iFd] at hinvoked
  rw [hsame₁.iFd] at hsettled
  exact ⟨halive.trans_settled hsame₁ hsettled, hcalls.snoc hinvoked rfl hnone (hent _ (by decide))⟩

/-- **An event on the listening descriptor** spares everything that is there. -/
theorem dispatchEvent_accepts {ev : EpollEvent} {input : EventInput}
    (hrun : w.fate = .running) (hw : w.SlotsOwned) (hev : ev.fd = w.iListenFd)
    (hlisten : (w.table.slot ev.fd).Listens) (hnone : (w.table.slot ev.fd).iMask ≠ eventNone)
    (hopen : w.table.epoll.fd ev.fd ≠ .closed)
    (hgranted : ∀ n, w.table.epoll.answer n = .granted)
    (hcan : ∀ a, input.accept = .conn a → w.CanAccept a) :
    (dispatchEvent w ev input).fate ≠ .undefined
      ∧ Spares Set.univ w (dispatchEvent w ev input)
      ∧ (dispatchEvent w ev input).SlotsOwned ∧ w.Calls ev.fd (dispatchEvent w ev input) := by
  have hdefined : w.fate ≠ .undefined := by
    rw [hrun]
    decide
  unfold dispatchEvent
  dsimp only
  set w₀ : Worker := { w with table := w.table.access ev.fd }
  have hspares₀ : Spares Set.univ w w₀ :=
    ⟨rfl, rfl, rfl, fun _ _ _ => ⟨rfl, rfl⟩, fun _ _ hd _ => hd⟩
  set w₁ : Worker := if (w₀.table.slot ev.fd).iMask &&& ev.iMask &&& eventReadable ≠ 0 then
    w₀.call input ev.fd (w₀.table.slot ev.fd).pFunEventCallbackRead else w₀ with hw₁
  have hread : w₁.fate ≠ .undefined ∧ Spares Set.univ w w₁ ∧ w₁.SlotsOwned
      ∧ w.Calls ev.fd w₁ := by
    rw [hw₁]
    split
    · next htrigger =>
      rw [show (w₀.table.slot ev.fd).pFunEventCallbackRead = _ from
        hlisten.read (mask_of_triggered htrigger)]
      unfold Worker.call
      dsimp only
      rw [show (w₀.table.slot ev.fd).pstArg = _ from hlisten.arg]
      set w₂ : Worker := { w₀ with
        invoked := w₀.invoked ++ [⟨ev.fd, .processAcceptCallback, none,
          (none.bind w₀.conns).map ConnFd.serial⟩] }
      obtain ⟨hdefined', hspares, howned⟩ :=
        processAcceptCallback_spares (w := w₂) hrun hgranted hw hcan
      refine ⟨hdefined', hspares₀.trans { hspares with }, howned, ?_⟩
      exact (Calls.none rfl).snoc invoked_processAcceptCallback rfl hnone
        (Or.inl ⟨rfl, hev, rfl⟩)
    · exact ⟨hdefined, hspares₀, hw, .none rfl⟩
  -- the slot is what it was, and it is not written to
  have hslot : (w₁.table.slot ev.fd).iMask &&& ev.iMask &&& eventWritable = 0 := by
    rw [(hread.2.1.slots ev.fd (Set.mem_univ _) hopen).1]
    by_contra htrigger
    exact mask_of_triggered htrigger hlisten.write
  rw [if_neg (c := _ ≠ _) (not_not.mpr hslot), ite_self]
  exact hread

/-- **One event**: no callback is called that is not for an owner, everything
that belongs to other descriptors is spared, and every slot has an owner
afterwards. -/
theorem dispatchEvent_spec {ev : EpollEvent} {input : EventInput}
    (hrun : w.fate = .running) (hw : w.SlotsOwned)
    (hpos : 0 ≤ ev.fd) (hlt : ev.fd < w.table.iFdEventArraySize)
    (hopen : w.table.epoll.fd ev.fd ≠ .closed)
    (hgranted : ∀ n, w.table.epoll.answer n = .granted)
    (hcan : ev.fd = w.iListenFd → ∀ a, input.accept = .conn a → w.CanAccept a) :
    (dispatchEvent w ev input).fate ≠ .undefined
      ∧ Spares {ev.fd}ᶜ w (dispatchEvent w ev input)
      ∧ (dispatchEvent w ev input).SlotsOwned ∧ w.Calls ev.fd (dispatchEvent w ev input) := by
  by_cases hnone : (w.table.slot ev.fd).iMask = eventNone
  · -- nothing is registered any more
    have hnot : ∀ m, ¬ ((w.table.access ev.fd).slot ev.fd).iMask &&& ev.iMask &&& m ≠ 0 :=
      fun m htrigger => mask_ne_none (mask_of_triggered htrigger) hnone
    have hevent : dispatchEvent w ev input = { w with table := w.table.access ev.fd } := by
      unfold dispatchEvent
      dsimp only
      rw [if_neg (hnot eventReadable)]
      dsimp only
      rw [if_neg (hnot eventWritable), ite_self]
    rw [hevent]
    exact ⟨by rw [hrun]; decide,
      ⟨rfl, rfl, rfl, fun _ _ _ => ⟨rfl, rfl⟩, fun _ _ hd _ => hd⟩, hw, .none rfl⟩
  rcases hw ev.fd hpos hlt hnone with ⟨hev, hlisten⟩ | ⟨c, conn, hc, hev, hserves⟩
  · obtain ⟨hdefined, hspares, howned, hcalls⟩ := dispatchEvent_accepts hrun hw hev hlisten hnone
      hopen hgranted (hcan hev)
    exact ⟨hdefined, hspares.mono (Set.subset_univ _), howned, hcalls⟩
  · obtain ⟨hsettled, hcalls⟩ := dispatchEvent_settled hrun hc hev hserves hnone
      hgranted (le_of_lt hlt)
    refine ⟨hsettled.defined, hsettled.toTouches.spares (fun e he => ?_) (fun hmem => ?_),
      hsettled.slotsOwned hw hc, hcalls⟩
    · obtain rfl := Option.some.inj (hc.symm.trans he)
      exact fun hmem => hmem hev
    · exact absurd hev hmem

/-! ## A batch -/

/-- An event of a batch, with what its callbacks find. -/
abbrev BatchEvent := EpollEvent × EventInput

/-- One event of the batch. A process that has ended works off none. -/
def dispatchStep (w : Worker) (e : BatchEvent) : Option Worker :=
  if w.fate = .running then some (dispatchEvent w e.1 e.2) else none

/-- What an event on the listening descriptor accepts can be accepted then. -/
def AcceptsClosed (w : Worker) (e : BatchEvent) : Prop :=
  e.1.fd = w.iListenFd → ∀ a, e.2.accept = .conn a → w.CanAccept a

instance (w : Worker) (a : Accepted) : Decidable (w.CanAccept a) :=
  inferInstanceAs (Decidable (_ ∧ _ ∧ _ ∧ _))

instance (w : Worker) (e : BatchEvent) : Decidable (w.AcceptsClosed e) :=
  match h : e.2.accept with
  | .conn a => decidable_of_iff (e.1.fd = w.iListenFd → w.CanAccept a) (by simp [AcceptsClosed, h])
  | .eagain => .isTrue (fun _ a ha => by simp [h] at ha)
  | .error => .isTrue (fun _ a ha => by simp [h] at ha)

/-- **What holds in a batch that began in `w₀`**: no callback was called that is
not there, those that were called were entitled to their argument in `w₀`, and
every slot has an owner. -/
structure InBatch (w₀ w : Worker) : Prop where
  defined : w.fate ≠ .undefined
  owned : w.SlotsOwned
  invoked : ∃ new, w.invoked = w₀.invoked ++ new ∧ ∀ inv ∈ new, w₀.Entitled inv

/-- A callback that is for an owner now is for the one of before, if the
descriptor was spared. -/
theorem Spares.entitled {w₀ : Worker} (h : Spares S w₀ w) (hw : w₀.SlotsOwned)
    {inv : Invocation} (hmem : inv.iFd ∈ S) (hpos : 0 ≤ inv.iFd)
    (hlt : inv.iFd < w₀.table.iFdEventArraySize) (hopen : w₀.table.epoll.fd inv.iFd ≠ .closed)
    (hmask : (w.table.slot inv.iFd).iMask ≠ eventNone) (hent : w.Entitled inv) :
    w₀.Entitled inv := by
  obtain ⟨hslot, -⟩ := h.slots inv.iFd hmem hopen
  rcases hent with ⟨hproc, hfd, harg⟩ | ⟨hproc, c, conn, hslotarg, hc, hfd, harg, hserial⟩
  · exact Or.inl ⟨hproc, hfd.trans h.listen, harg⟩
  · rw [hslot] at hslotarg hmask
    rcases hw inv.iFd hpos hlt hmask with ⟨-, hlisten⟩ | ⟨c₀, conn₀, hc₀, hfd₀, hserves⟩
    · exact absurd (hlisten.arg.symm.trans hslotarg) (by simp)
    · obtain rfl := Option.some.inj (hserves.arg.symm.trans hslotarg)
      -- the owner of then is still there
      have hkept := h.conns c₀ conn₀ hc₀ (hfd₀ ▸ hmem)
      obtain rfl := Option.some.inj (hkept.symm.trans hc)
      exact Or.inr ⟨hproc, c₀, conn₀, hserves.arg, hc₀, hfd₀, harg, hserial⟩

/-- The rest of a batch, from a state in it: the descriptors of the events that
are still to come are spared. -/
theorem InBatch.always {w₀ : Worker} (hw₀ : w₀.SlotsOwned)
    (hgranted : ∀ n, w₀.table.epoll.answer n = .granted) {batch : List BatchEvent}
    (hin : w₀.InBatch w) (hspares : Spares { fd | fd ∈ batch.map (fun e => e.1.fd) } w₀ w)
    (hdistinct : (batch.map (fun e => e.1.fd)).Nodup)
    (hreg : ∀ e ∈ batch, 0 ≤ e.1.fd ∧ e.1.fd < w₀.table.iFdEventArraySize
      ∧ (w₀.table.epoll.fd e.1.fd).isRegistered = true)
    (haccept : Run.Along dispatchStep AcceptsClosed w batch) :
    Run.Always dispatchStep (w₀.InBatch) w batch := by
  induction batch generalizing w with
  | nil => exact hin
  | cons e batch ih =>
    refine ⟨hin, fun w' hstep => ?_⟩
    obtain ⟨hcan, hrest⟩ := haccept
    by_cases hrun : w.fate = .running
    swap
    · unfold dispatchStep at hstep
      rw [if_neg hrun] at hstep
      exact absurd hstep (by simp)
    have hevent : w' = dispatchEvent w e.1 e.2 := by
      unfold dispatchStep at hstep
      rw [if_pos hrun] at hstep
      exact (Option.some.inj hstep).symm
    obtain ⟨hpos, hlt, hregistered⟩ := hreg e (List.mem_cons_self ..)
    have hmem : e.1.fd ∈ { fd | fd ∈ (e :: batch).map (fun e => e.1.fd) } := List.mem_cons_self ..
    have hopen₀ : w₀.table.epoll.fd e.1.fd ≠ .closed := fun hclosed => by
      rw [hclosed] at hregistered
      exact absurd hregistered (by decide)
    obtain ⟨hnotin, hdistinct'⟩ := List.nodup_cons.mp hdistinct
    obtain ⟨hdefined, hspares', howned, new', hinvoked', hnew'⟩ :=
      dispatchEvent_spec hrun hin.owned hpos (by rw [hspares.size]; exact hlt)
      (by rw [(hspares.slots _ hmem hopen₀).2]; exact hopen₀)
      (by rw [hspares.answer]; exact hgranted) hcan
    rw [← hevent] at hdefined hspares' howned hinvoked'
    have hsub : { fd | fd ∈ batch.map (fun e => e.1.fd) }
        ⊆ { fd | fd ∈ (e :: batch).map (fun e => e.1.fd) } :=
      fun fd hfd => List.mem_cons_of_mem _ hfd
    have hsub' : { fd | fd ∈ batch.map (fun e => e.1.fd) } ⊆ {e.1.fd}ᶜ := by
      rintro fd hfd rfl
      exact hnotin hfd
    refine ih ⟨hdefined, howned, ?_⟩ ((hspares.mono hsub).trans (hspares'.mono hsub')) hdistinct'
      (fun e' he' => hreg e' (List.mem_cons_of_mem _ he')) (hrest w' hstep)
    obtain ⟨new, hinvoked, hnew⟩ := hin.invoked
    refine ⟨new ++ new', by rw [hinvoked', hinvoked, List.append_assoc], fun inv hinv => ?_⟩
    rcases List.mem_append.mp hinv with hinv | hinv
    · exact hnew inv hinv
    · obtain ⟨hfd, hmask, hent⟩ := hnew' inv hinv
      rw [← hfd] at hmem hpos hlt hopen₀ hmask
      exact hspares.entitled hw₀ hmem hpos hlt hopen₀ hmask hent

/-- **Dispatch never calls a callback on a dead connection**, over any batch of
events on registered descriptors, each another one, whatever the callbacks do. -/
theorem dispatch_always_owned {batch : List BatchEvent} (hrun : w.fate = .running)
    (hw : w.SlotsOwned) (hgranted : ∀ n, w.table.epoll.answer n = .granted)
    (hdistinct : (batch.map (fun e => e.1.fd)).Nodup)
    (hreg : ∀ e ∈ batch, 0 ≤ e.1.fd ∧ e.1.fd < w.table.iFdEventArraySize
      ∧ (w.table.epoll.fd e.1.fd).isRegistered = true)
    (haccept : Run.Along dispatchStep AcceptsClosed w batch) :
    Run.Always dispatchStep w.InBatch w batch :=
  InBatch.always hw hgranted
    ⟨by rw [hrun]; decide, hw, [], (List.append_nil _).symm,
      fun _ hinv => absurd hinv List.not_mem_nil⟩
    .refl hdistinct hreg haccept

/-- **A worker starts with an owner for every slot.** -/
theorem eventBaseCreate_slotsOwned {table : EventTable} {event : NodePtr → TimeoutEvent}
    {time : TimeVal} {iFd iPid : ℤ} (hslot : ∀ fd, table.slot fd = FdEvent.zero)
    (hfd : iFd ≤ table.iFdEventArraySize) :
    (eventBaseCreate table event time iFd iPid).SlotsOwned := by
  have hadd : (eventAdd table iFd eventReadable (some .processAcceptCallback) none).2.slot
      = Function.update table.slot iFd ⟨eventReadable, none, some .processAcceptCallback, none⟩ := by
    unfold eventAdd
    rw [if_neg (not_lt.mpr hfd)]
    dsimp only
    rw [show (table.access iFd).slot iFd = FdEvent.zero from hslot iFd, if_neg (by decide)]
    rfl
  intro fd hpos hlt hmask
  change ((eventAdd table iFd eventReadable (some .processAcceptCallback) none).2.slot fd).iMask ≠ _
    at hmask
  rw [hadd] at hmask
  by_cases hlisten : fd = iFd
  · refine Or.inl ⟨hlisten, ?_⟩
    show FdEvent.Listens
      ((eventAdd table iFd eventReadable (some .processAcceptCallback) none).2.slot fd)
    rw [hadd, hlisten, Function.update_self]
    exact ⟨rfl, fun _ => rfl, by decide⟩
  · rw [Function.update_of_ne hlisten, hslot fd] at hmask
    exact absurd rfl hmask

end Worker

/-- What the callbacks of an event find where there is nothing to read or write,
and `accept` returns `a`. -/
def EventInput.accepting (a : Accepted) : EventInput where
  accept := .conn a
  rx := []
  head := [.eof]
  body := []
  malloc := ⟨none, none, false, false, fun _ => 0⟩
  realloc := true
  writes := []

/-- A new connection on descriptor `5`. -/
def reusedAccepted : Accepted where
  iClientFd := 5
  pstNewConnFd := 1
  pstTimeoutEvent := 1
  pszRecvBuf := fun _ => 0
  pszSendBuf := fun _ => 0
  nonblock := true
  malloc := true
  realloc := true

/-- A worker that listens on descriptor `3`, and for which `epoll_ctl` always
succeeds. -/
def grantedWorker : Worker :=
  eventBaseCreate
    { emptyTable with
      iFdEventArraySize := 16
      epoll := { emptyTable.epoll.accept 3 with answer := fun _ => .granted } }
    blankEvent ⟨0, 0⟩ 3 1

/-- All flags of an event. -/
def EpollEvent.all (fd : ℤ) : EpollEvent := ⟨fd, true, true, true, true⟩

/-- The same worker with a connection on descriptor `5`. -/
def busyWorker : Worker := dispatchEvent grantedWorker (.all 3) (.accepting reusedAccepted)

theorem busyWorker_ok : busyWorker.SlotsOwned
    ∧ ∀ n, busyWorker.table.epoll.answer n = .granted := by
  have hcan : grantedWorker.AcceptsClosed (.all 3, .accepting reusedAccepted) := by
    decide +kernel
  obtain ⟨-, hspares, howned, -⟩ := Worker.dispatchEvent_spec (w := grantedWorker) rfl
    (Worker.eventBaseCreate_slotsOwned (fun _ => rfl) (by decide)) (by decide) (by decide)
    (by decide) (fun _ => rfl) hcan
  refine ⟨howned, fun n => ?_⟩
  show (dispatchEvent grantedWorker (.all 3) (.accepting reusedAccepted)).table.epoll.answer n = _
  rw [hspares.answer]
  rfl

/-- A batch in which the connection on descriptor `5` finds the end of its
stream, and a new one is accepted on the same descriptor, at the same address. -/
theorem dispatch_always_owned_sample :
    Run.Always Worker.dispatchStep busyWorker.InBatch busyWorker
      [(.all 5, .accepting reusedAccepted), (.all 3, .accepting reusedAccepted)] :=
  Worker.dispatch_always_owned (by decide +kernel) busyWorker_ok.1 busyWorker_ok.2 (by decide)
    (by decide +kernel) (by decide +kernel)
