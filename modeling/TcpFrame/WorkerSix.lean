import TcpFrame.WorkerInside
import TcpFrame.WorkerLoop

/-!
# Six clients

Whether the erases of a run sift down is nothing that its clients or the kernel can be
asked for. It is a matter of numbers: a worker never has trouble with its timers as long
as it never has more than six clients at a time, in whatever order these come and go.
With seven there is a run in which a timer is left behind, and leads to a connection that
is gone (`reactor_safe_six`). What the requests can do to the memory of a connection is
another matter, and has nothing to do with the number of clients (`AllModest`).

The heap of a worker with six clients is `Compact`: the last registration is the latest
one, and stays in the last slot until one of the six is erased.
-/

open MinHeap

namespace Reactor

variable {start : Set ℤ} {s s' : Reactor} {input : ReactorInput} {limit : ℤ}

/-- **No more than `limit` clients** after a step. -/
def Few (limit : ℤ) (s : Reactor) (input : ReactorInput) : Prop :=
  ∀ s' ∈ s.step input, s'.worker.iClientCount ≤ limit

instance (s : Reactor) (input : ReactorInput) : Decidable (s.Few limit input) :=
  inferInstanceAs (Decidable (∀ s' ∈ s.step input, _))

/-- **A worker with six clients at most**: its timers are safe, and the heap is compact. -/
structure Six (start : Set ℤ) (s : Reactor) : Prop where
  safe : s.Safe start
  timely : s.Timely
  compact : s.worker.fate = .running → s.worker.pstHeapHeader.Compact

/-- **Every erase of a compact heap sifts down**, that of a timer set for a minute too. -/
theorem Six.siftsDown (h : s.Six start) : s.SiftsDown input := by
  cases input with
  | wait now events => trivial
  | expire => trivial
  | callback input =>
    intro ev _ proc hnext c _ conn hc call hcall
    have hrun : s.worker.fate = .running := by
      by_contra hrun
      have hnone : s.nextCallback = none := if_neg hrun
      rw [hnone] at hnext
      exact absurd hnext (by simp)
    have htimed := h.safe.timed hrun
    have hp := Worker.mem_nodes hc
    have hdown := (h.compact hrun).not_shiftsUp htimed.heap hp
    -- a callback destroys its connection, or it sets the timer to a minute
    have hshaped : Shaped (Worker.callsOf conn ev.fd input proc) := by
      cases proc with
      | processRecvCallback => exact processRecvCallback_shaped
      | processSendCallback => exact processSendCallback_shaped
      | processAcceptCallback => exact Or.inr ⟨[], by simp, Or.inl rfl⟩
      | wild addr => exact Or.inr ⟨[], by simp, Or.inl rfl⟩
    have hquiet : ∀ call : ReactorCall, call.Quiet →
        s.worker.SiftsDown conn.pstTimeoutEvent call := by
      rintro call (rfl | rfl)
      · trivial
      · trivial
    obtain hdestroy | ⟨quiet, hall, heq | heq⟩ := hshaped
    · rw [hdestroy, List.mem_singleton] at hcall
      rw [hcall]
      exact hdown
    · rw [heq] at hcall
      exact hquiet call (hall call hcall)
    · rw [heq, List.mem_append, List.mem_singleton] at hcall
      rcases hcall with hcall | rfl
      · exact hquiet call (hall call hcall)
      · exact Worker.not_shiftsUp_rearmed htimed.heap hp
          (htimed.le_deadline (h.timely hrun).1) hdown

/-- **The step lemma**: six clients stay safe if they stay six. -/
theorem Six.step (h : s.Six start) (hadm : s.Orderly input) (halloc : s.Allocates input)
    (hforward : s.Forward input) (hfew : s.Few 6 input) (hstep : s.step input = some s') :
    s'.Six start := by
  have hrun := running_of_step hstep
  have hdown : s.SiftsDown input := h.siftsDown
  have hsafe := h.safe.step hadm halloc hdown hstep
  refine ⟨hsafe, h.timely.step h.safe hadm halloc hdown hforward hstep, fun hrun' => ?_⟩
  rcases h.safe.keeps hadm halloc hdown hstep with hexit | ⟨now, events, -, hw⟩ | ⟨hkeeps, -⟩
  · exact absurd (hexit.symm.trans hrun') (by decide)
  · rw [hw]
    exact h.compact hrun
  · refine hkeeps.compact (h.timely hrun).1 (h.compact hrun) ?_
    have hused := (hsafe.timed hrun').used (hsafe.order.books hrun').count
    have hcount : s'.worker.iClientCount ≤ 6 := hfew s' hstep
    omega

/-- **What a run is that has no more than `limit` clients**: the kernel, the allocator and
the clock do what they are there for. -/
structure Crowd (limit : ℤ) (s : Reactor) (inputs : List ReactorInput) : Prop where
  orderly : Run.Along Reactor.step Orderly s inputs
  allocates : Run.Along Reactor.step Allocates s inputs
  forward : Run.Along Reactor.step Forward s inputs
  few : Run.Along Reactor.step (Few limit) s inputs

/-- **A worker copes with `limit` clients**: any one that `EventBaseCreate` returned, over
any such run. It never uses a connection that is gone; and it never leaves its memory, if
the requests are modest. -/
def CopesWith (limit : ℤ) : Prop :=
  ∀ (fd N : ℤ) (o : Worker.Creation) (e : Epoll) (w : Worker) (inputs : List ReactorInput),
    o.Proper fd N e → Worker.eventBaseCreateFrom fd N o = some w →
    o.gettimeofday.Normalised → 0 < o.gettimeofday.tv_sec →
    Crowd limit ⟨w, .waiting⟩ inputs →
    Run.Always Reactor.step (Sound e.opened) ⟨w, .waiting⟩ inputs
      ∧ (Run.Along Reactor.step AllModest ⟨w, .waiting⟩ inputs →
        Run.Always Reactor.step WithinMemory ⟨w, .waiting⟩ inputs)

theorem Six.new {fd N : ℤ} {o : Worker.Creation} {e : Epoll} {w : Worker}
    (hproper : o.Proper fd N e) (hnew : Worker.eventBaseCreateFrom fd N o = some w)
    (hclock : o.gettimeofday.Normalised) (hsec : 0 < o.gettimeofday.tv_sec) :
    Six e.opened ⟨w, .waiting⟩ := by
  refine ⟨.new hproper hnew, .new hnew hclock hsec, fun _ => ?_⟩
  obtain ⟨-, -, hheap, -⟩ := Worker.eventBaseCreateFrom_empty hnew
  have hused : w.pstHeapHeader.iNodeUsed = 0 := by rw [hheap]; rfl
  exact ⟨by rw [hused]; decide, fun hsix => absurd (hused.symm.trans hsix) (by decide)⟩

theorem copesWith_six : CopesWith 6 := by
  intro fd N o e w inputs hproper hnew hclock hsec hcrowd
  have hall := (hcrowd.orderly.and hcrowd.allocates).and (hcrowd.forward.and hcrowd.few)
  refine ⟨?_, withinMemory_always hproper hnew hcrowd.orderly⟩
  exact (Run.always_of_along (P := Six e.opened)
    (fun _ _ _ h hG hstep => h.step hG.1.1 hG.1.2 hG.2.1 hG.2.2 hstep)
    (.new hproper hnew hclock hsec) hall).mono (fun _ h => h.safe.sound)

/-! ## Seven clients -/

end Reactor

/-- A worker with sixteen slots. -/
def sixteenSlots : Worker :=
  eventBaseCreate (Worker.freshTable 16 (fun _ => ⟨0, none, some (.wild 7), some 9⟩) ruledEpoll)
    ruledCreation.event ⟨10, 0⟩ 3 1

theorem sixteenSlots_proper : ruledCreation.Proper 3 16 ruledEpoll :=
  { ruledCreation_proper with lt := by decide }

theorem sixteenSlots_created :
    Worker.eventBaseCreateFrom 3 16 ruledCreation = some sixteenSlots := rfl

/-- What the callbacks find in a round of the client `i`: it connects, or has closed its
end. -/
def clientInput (i : ℕ) : EventInput :=
  .accepting { reusedAccepted with
    iClientFd := 3 + i
    pstNewConnFd := i
    pstTimeoutEvent := i }

/-- The client `i` sends an echo request. -/
def echoInput (i : ℕ) : EventInput :=
  { clientInput i with
    rx := echoFrame
    head := [.data 5]
    body := [.data 9]
    malloc := zeroMalloc }

/-- A round at the second `t` with input on the descriptor `fd`. -/
def inputRound (t fd : ℤ) (input : EventInput) : List ReactorInput :=
  [.wait ⟨t, 0⟩ (some [⟨fd, true, false, false, false⟩]), .callback input, .callback input,
    .expire]

/-- The clients of `is` connect, one a second. -/
def joiningRounds (is : List ℕ) : List ReactorInput :=
  is.flatMap (fun (i : ℕ) => inputRound (10 + i) 3 (clientInput i))

/-- Seven clients connect. Two of them send a request, then three disconnect; and a
minute later, the timers are due. -/
def sevenRounds : List ReactorInput :=
  joiningRounds [1, 2, 3, 4, 5, 6, 7]
    ++ inputRound 18 4 (echoInput 1) ++ inputRound 19 7 (echoInput 4)
    ++ inputRound 20 8 (clientInput 5) ++ inputRound 21 7 (clientInput 4)
    ++ inputRound 22 9 (clientInput 6) ++ [.wait ⟨80, 0⟩ (some []), .expire]

set_option maxRecDepth 4000 in
/-- **Seven clients are too many.** The last one to disconnect leaves its timer, which is
due a minute later. -/
theorem Reactor.not_copesWith_seven : ¬ Reactor.CopesWith 7 := by
  intro hcopes
  have hadm : Run.Along Reactor.step Reactor.Orderly ⟨sixteenSlots, .waiting⟩ sevenRounds := by
    decide +kernel
  obtain ⟨hsound, -⟩ := hcopes 3 16 _ _ _ sevenRounds sixteenSlots_proper sixteenSlots_created
    (by decide) (by decide)
    ⟨hadm, along_allocates sixteenSlots_proper sixteenSlots_created hadm (by decide +kernel),
      by decide +kernel, by decide +kernel⟩
  have hread : (Run.exec Reactor.step ⟨sixteenSlots, .waiting⟩ sevenRounds).map
      (fun s => s.worker.fate) = some .undefined := by decide +kernel
  obtain ⟨s, hexec, hfate⟩ := Option.map_eq_some_iff.mp hread
  exact (hsound.exec hexec).defined hfate

/-- **Six clients, and no more.** A worker copes with up to six clients at a time: in any
run of its loop, in whatever order they come and go, and up to the first callback that
leaves its memory, it uses no connection that is gone, the books are always right, and each
connection has one timer in the heap; and it never leaves its memory, if all requests are
modest. With seven, a timer can be left that uses a connection that is gone. -/
theorem reactor_safe_six : Reactor.CopesWith 6 ∧ ¬ Reactor.CopesWith 7 :=
  ⟨Reactor.copesWith_six, Reactor.not_copesWith_seven⟩

set_option maxRecDepth 4000 in
/-- Six clients connect, and the first sends a request. -/
theorem reactor_safe_six_sample :
    Run.Always Reactor.step (Reactor.Sound ruledEpoll.opened) ⟨sixteenSlots, .waiting⟩
        (joiningRounds [1, 2, 3, 4, 5, 6] ++ inputRound 18 4 (echoInput 1))
      ∧ Run.Always Reactor.step Reactor.WithinMemory ⟨sixteenSlots, .waiting⟩
        (joiningRounds [1, 2, 3, 4, 5, 6] ++ inputRound 18 4 (echoInput 1)) := by
  have hadm : Run.Along Reactor.step Reactor.Orderly ⟨sixteenSlots, .waiting⟩
      (joiningRounds [1, 2, 3, 4, 5, 6] ++ inputRound 18 4 (echoInput 1)) := by
    decide +kernel
  obtain ⟨hsound, hwithin⟩ := reactor_safe_six.1 3 16 _ _ _ _ sixteenSlots_proper
    sixteenSlots_created (by decide) (by decide)
    ⟨hadm, Reactor.along_allocates sixteenSlots_proper sixteenSlots_created hadm
      (by decide +kernel), by decide +kernel, by decide +kernel⟩
  exact ⟨hsound, hwithin (by decide +kernel)⟩
