import TcpFrame.ConnRecvComplete
import TcpFrame.WorkerAlone

/-!
# Callbacks that stay inside their memory

A run of a worker ends where a callback of a connection leaves a buffer, a pack or a
literal, for what it does after that is not defined. It takes a request for this. The copy
of an echo reply is as long as the request, whatever the length of the send buffer; and
the command of a test request is copied to a place behind the pack of its reply, whatever
its length.

Any other request is `Modest`. Where only modest ones arrive, every connection stays
inside its memory in every run (`Reactor.withinMemory_always`), whatever else its client sends,
since the receive buffer is never left.
-/

open Block

/-- **A request whose reply stays inside the memory of its connection**: it asks for none,
or it is an echo request that is no longer than the send buffer. -/
def Modest (f : List UInt8) : Prop :=
  AsksReply f → packetField f 5 = wordBytes cmdTestEcho ∧ (f.length : ℤ) ≤ maxTcpBufSize

instance (f : List UInt8) : Decidable (Modest f) := inferInstanceAs (Decidable (_ → _ ∧ _))

variable {conn c : ConnFd} {f rx : List UInt8}

/-! ## One connection -/

/-- **The sending side is inside its memory**: the buffer has its first length, what is
queued lies in it, and no access has left it, a pack or a literal. -/
structure ConnFd.SendInside (conn : ConnFd) : Prop where
  cur_nonneg : 0 ≤ conn.iSendCurLen
  packet_le : conn.iSendPacketLen ≤ maxTcpBufSize
  size : conn.pszSendBuf.size = maxTcpBufSize
  inside : conn.pszSendBuf.overrun = false
  strayed : conn.strayed = false

theorem ConnFd.SendInside.sameSend (h : conn.SendInside) (hsame : conn.SameSend c) :
    c.SendInside := by
  obtain ⟨-, hbuf, -, hcur, hpacket, hstrayed⟩ := hsame
  refine ⟨?_, ?_, ?_, ?_, hstrayed.trans h.strayed⟩
  · rw [hcur]
    exact h.cur_nonneg
  · rw [hpacket]
    exact h.packet_le
  · rw [hbuf]
    exact h.size
  · rw [hbuf]
    exact h.inside

/-- **A connection inside its memory**: so is its sending side, and what was received of a
packet lies in the receive buffer. -/
structure ConnFd.Inside (conn : ConnFd) : Prop extends conn.SendInside where
  recv : ∃ p, conn.Receiving p

theorem ConnFd.create_inside {iFd : ℤ} {node : NodePtr} {recvMem sendMem : ℤ → UInt8}
    {serial : ℕ} : (ConnFd.create iFd node recvMem sendMem serial).Inside where
  cur_nonneg := le_rfl
  packet_le := by
    show (0 : ℤ) ≤ maxTcpBufSize
    decide
  size := rfl
  inside := rfl
  strayed := rfl
  recv := ⟨[], ConnFd.create_receiving⟩

/-- **The reply to a modest request** stays inside. -/
theorem Given.entire_modest (hc : Endpoint.Given c f) (hmodest : Modest f) (h : c.SendInside)
    (malloc : Malloc) :
    ∃ conn' calls, processEntirePacket c malloc = some (conn', calls) ∧ conn'.SendInside := by
  have hmin := Given.length_ge hc
  have hmax := hc.bounds.2
  have hmaxLen : packetMaxLen = 1024 * 1024 := rfl
  rw [hc.len] at hmax
  obtain ⟨hrun, -⟩ | ⟨-, hasks, ⟨p, -, -, hfield, -⟩ | ⟨-, hrun⟩⟩ := Given.entire_cases hc malloc
  · exact ⟨c, [], hrun, h⟩
  · exact absurd (wordBytes_inj ((hmodest hasks).1.symm.trans hfield)) (by decide)
  · have hshort := (hmodest hasks).2
    have hrecv := hc.size
    have hsize := h.size
    refine ⟨_, _, hrun, h.cur_nonneg, ?_, size_move.trans hsize, ?_, h.strayed⟩
    · show c.iPacketLen ≤ maxTcpBufSize
      rw [hc.len]
      exact hshort
    · show (c.pszSendBuf.move 0 c.pszRecvBuf 0 (sizeT c.iPacketLen)).overrun = false
      rw [hc.len] at hrecv
      rw [hc.len, sizeT_eq_self (by omega) (by omega), overrun_move]
      exact ⟨h.inside, ⟨le_rfl, by omega, by omega⟩, ⟨le_rfl, by omega, by omega⟩⟩

/-- **A receive callback stays inside**, whatever `read` and `malloc` do, where the packet
in front is modest. -/
theorem ConnFd.Inside.recv_spec (h : conn.Inside) (hmodest : ∀ f ∈ conn.arrived rx, Modest f)
    (t_iFd : ℤ) (malloc : Malloc) (head body : List ReadOutcome) {r : RecvResult}
    (hr : r = processRecvCallback conn t_iFd malloc head body rx) :
    r.conn.overran = false ∧ (r.fate = .live → r.conn.Inside) := by
  obtain ⟨p, hrecv⟩ := h.recv
  have hspec := processRecvCallback_spec hrecv t_iFd malloc head body rx
  have hends := processRecvCallback_ends conn t_iFd malloc head body rx
  rw [← hr] at hspec hends
  have hover : r.conn.pszRecvBuf.overrun = false → r.conn.SendInside → r.conn.overran = false := by
    intro hinside hsend
    rw [ConnFd.overran, hinside, hsend.inside, hsend.strayed]
    rfl
  cases hspec with
  | destroyed taken hrx hcalls hnone hreturns hinside =>
    refine ⟨hover hinside (h.sameSend (hends.of_packet_none hnone).1), fun hlive => ?_⟩
    exact absurd (hcalls ▸ List.mem_singleton_self _) (RecvResult.fate_eq_live.mp hlive).2
  | waiting taken hrx hcalls hnone hreturns hrecv' =>
    have hsend := h.sameSend (hends.of_packet_none hnone).1
    exact ⟨hover hrecv'.inside hsend, fun _ => ⟨hsend, _, hrecv'⟩⟩
  | handed taken c hrx hsome hframe hbuf hcur hlen hsize hcalls hrecv' =>
    have hsplit : p ++ taken ++ r.rx = p ++ rx := by rw [List.append_assoc, hrx]
    rw [hcur, Int.toNat_natCast] at hbuf
    obtain ⟨hsame, hentire⟩ := hends.of_packet_some hsome
    obtain ⟨conn', calls, hrun, hinside⟩ :=
      Given.entire_modest ⟨hframe, hbuf, hcur, hlen, hsize⟩
        (hmodest _ (hrecv.arrived_of_isFrame hframe hsplit)) (h.sameSend hsame) malloc
    obtain ⟨conn₁, calls₁, hrun₁, hreturns, hsend, -⟩ := hentire.resolve_left
      (fun hnone => absurd (hrun.symm.trans hnone.1) (by simp))
    obtain ⟨rfl, -⟩ := Prod.mk.inj (Option.some.inj (hrun.symm.trans hrun₁))
    have hreceiving := hrecv' hreturns
    have hinside' := hinside.sameSend hsend
    exact ⟨hover hreceiving.inside hinside', fun _ => ⟨hinside', [], hreceiving⟩⟩

/-- **A send callback stays inside.** Where less is queued than was sent already, it sends
nothing. -/
theorem ConnFd.Inside.send_spec (h : conn.Inside) (t_iFd : ℤ) (outcomes : List WriteOutcome) :
    (processSendCallback conn t_iFd outcomes).conn.Inside := by
  obtain ⟨p, hp⟩ := h.recv
  have hkeeps : ∀ iSendCurLen iSendPacketLen : ℤ, 0 ≤ iSendCurLen →
      iSendPacketLen ≤ maxTcpBufSize → ConnFd.Inside { conn with
        iSendCurLen := iSendCurLen, iSendPacketLen := iSendPacketLen } :=
    fun _ _ hcur hpacket => ⟨⟨hcur, hpacket, h.size, h.inside, h.strayed⟩, p, hp.cur, hp.buf,
      hp.size, hp.total, hp.inside, hp.pending⟩
  by_cases hle : conn.iSendCurLen ≤ conn.iSendPacketLen
  · have hsent : Sent conn outcomes (processSendCallback conn t_iFd outcomes) :=
      processSendCallback_spec hle
    generalize processSendCallback conn t_iFd outcomes = r at hsent ⊢
    have hcur := h.cur_nonneg
    cases hsent with
    | idle => exact h
    | destroyed k hk hwhy => exact h
    | some k hk => exact hkeeps _ _ (by omega) h.packet_le
    | all k hk => exact hkeeps 0 0 le_rfl (by decide)
  · have hsame : (processSendCallback conn t_iFd outcomes).conn = conn := by
      unfold processSendCallback pynServerSendData
      split
      · rfl
      split
      · rfl
      rw [if_pos (Or.inr (by omega))]
      rfl
    rw [hsame]
    exact h

/-! ## The connections of a worker -/

namespace Worker

variable {start batch : Set ℤ} {w w' : Worker} {cp : ConnPtr}

/-- **Every connection is inside its memory.** -/
def AllInside (w : Worker) : Prop := ∀ c conn, w.conns c = some conn → conn.Inside

/-- What leaves all connections alone. -/
theorem AllInside.leavesAlone (h : w.AllInside) (halone : w.LeavesAlone Set.univ w') :
    w'.AllInside :=
  fun c conn hc => h c conn (halone.conns c trivial conn hc)

/-- **A callback of one connection.** -/
theorem AllInside.handles {left : Option ConnFd} {calls : List ReactorCall} (h : w.AllInside)
    (hhandles : w.Handles cp conn left calls w') (hleft : ∀ e ∈ left, e.Inside) :
    w'.AllInside := by
  intro d e he
  by_cases hd : d = cp
  · rw [hd] at he
    exact hleft e (hhandles.left_eq he)
  · exact h d e (hhandles.alone.conns d hd e he)

/-- **A new connection.** -/
theorem AllInside.admitted {a : Accepted} (h : w.AllInside) (hadmitted : w.Admitted a w') :
    w'.AllInside := by
  intro d e he
  rw [hadmitted.conns] at he
  rcases PartialMap.update_some_eq_some.mp he with ⟨-, rfl⟩ | ⟨-, he⟩
  · exact ConnFd.create_inside
  · exact h d e he

/-- Destroying a connection does not leave any memory. -/
theorem destroyConn_fate (w : Worker) (c : ConnPtr) :
    (destroyConn w c).fate = w.fate ∨ (destroyConn w c).fate = .undefined
      ∨ (destroyConn w c).fate = .exited := by
  unfold destroyConn
  split
  · exact Or.inr (Or.inl rfl)
  dsimp only
  split
  · exact Or.inr (Or.inr rfl)
  · exact Or.inl rfl

/-- Nor do the timeouts. -/
theorem processTimeoutLoop_fate (fuel : ℕ) (h : w.fate ≠ .overrun) :
    (processTimeoutLoop fuel w).fate ≠ .overrun := by
  induction fuel generalizing w with
  | zero => exact h
  | succ fuel ih =>
    have hcallback : ∀ (w₁ : Worker) arg, w₁.fate ≠ .overrun →
        (connectionTimeoutCallback w₁ arg).fate ≠ .overrun := by
      intro w₁ arg h₁
      cases arg with
      | none => exact h₁
      | some c =>
        show (destroyConn w₁ c).fate ≠ .overrun
        rcases destroyConn_fate w₁ c with hfate | hfate | hfate
        · rw [hfate]
          exact h₁
        · rw [hfate]
          decide
        · rw [hfate]
          decide
    unfold processTimeoutLoop
    split
    · exact h
    next p htop =>
    split
    · exact h
    dsimp only
    split
    · exact ih h
    · have hnext := hcallback { w with
          pstHeapHeader := (minheapPop w.pstHeapHeader).2
          timeouts := w.timeouts ++ [Worker.timerOwner { w with
            pstHeapHeader := (minheapPop w.pstHeapHeader).2 } p
            ((minheapPop w.pstHeapHeader).2.event p).pstCallbackArg] }
        ((minheapPop w.pstHeapHeader).2.event p).pstCallbackArg h
      split
      · exact ih hnext
      · exact hnext

/-- **A receive callback of a connection inside its memory** does not leave it. -/
theorem Books.recv_inside (h : w.Books start batch) (hrun : w.fate = .running)
    (hc : w.conns cp = some conn) (hin : w.AllInside) {input : EventInput} {t_iFd : ℤ}
    (hmodest : ∀ f ∈ conn.arrived input.rx, Modest f)
    (hw' : w' = eventCallback w input t_iFd (some cp) .processRecvCallback) :
    w'.fate ≠ .overrun ∧ (w'.fate = .running → w'.AllInside) := by
  obtain ⟨hover, hlive⟩ := (hin cp conn hc).recv_spec hmodest t_iFd input.malloc input.head
    input.body rfl
  subst hw'
  refine ⟨?_, fun hend => hin.handles (h.recv_own hrun hc input t_iFd hend rfl) fun e he => ?_⟩
  · unfold eventCallback
    dsimp only
    rw [hc]
    dsimp only
    rw [if_neg (by rw [hover]; decide)]
    split
    · exact ne_of_eq_of_ne
        (h.ends hrun hc processRecvCallback_sameConn processRecvCallback_calls).1 (by decide)
    · exact (by decide : ProcessFate.hung ≠ .overrun)
  · split at he
    · next hfate => exact Option.some.inj (Option.mem_def.mp he) ▸ hlive hfate
    · exact absurd he (by simp)

/-- Nor does a send callback. -/
theorem Books.send_inside (h : w.Books start batch) (hrun : w.fate = .running)
    (hc : w.conns cp = some conn) (hin : w.AllInside) {input : EventInput} {t_iFd : ℤ}
    (hw' : w' = eventCallback w input t_iFd (some cp) .processSendCallback) :
    w'.fate ≠ .overrun ∧ (w'.fate = .running → w'.AllInside) := by
  subst hw'
  refine ⟨?_, fun _ => hin.handles (h.send_own hrun hc input t_iFd rfl) fun e he => ?_⟩
  · unfold eventCallback
    dsimp only
    rw [hc]
    exact ne_of_eq_of_ne
      (h.ends hrun hc processSendCallback_calls.1 processSendCallback_calls.2).1 (by decide)
  · split at he
    · exact absurd he (by simp)
    · exact Option.some.inj (Option.mem_def.mp he) ▸ (hin cp conn hc).send_spec t_iFd input.writes

end Worker

namespace Reactor

variable {start : Set ℤ} {s s' : Reactor} {input : ReactorInput}

/-- **The packet in front of what a receive callback finds is modest.** -/
def AllModest (s : Reactor) : ReactorInput → Prop
  | .callback input => s.nextCallback = some .processRecvCallback →
      ∀ conn ∈ s.nextConn, ∀ f ∈ conn.arrived input.rx, Modest f
  | _ => True

instance (s : Reactor) : ∀ input : ReactorInput, Decidable (s.AllModest input)
  | .callback _ => inferInstanceAs (Decidable (_ → ∀ conn ∈ _, ∀ f ∈ _, _))
  | .wait _ _ => inferInstanceAs (Decidable True)
  | .expire => inferInstanceAs (Decidable True)

/-- **A worker whose connections are inside their memory**: no callback has left it. -/
structure WithinMemory (s : Reactor) : Prop where
  fate : s.worker.fate ≠ .overrun
  conns : s.worker.fate = .running → s.worker.AllInside

/-- **The step lemma.** -/
theorem WithinMemory.step (h : s.WithinMemory) (horder : s.InOrder start) (hadm : s.Orderly input)
    (hmodest : s.AllModest input) (hstep : s.step input = some s') : s'.WithinMemory := by
  have hrun := running_of_step hstep
  have hin := h.conns hrun
  cases input with
  | wait now events =>
    have heq := step_wait hstep
    refine ⟨?_, fun _ => ?_⟩
    · rw [heq]
      exact h.fate
    · rw [heq]
      exact hin
  | expire =>
    have heq := step_expire hstep
    refine ⟨?_, fun hend => ?_⟩
    · rw [heq]
      exact Worker.processTimeoutLoop_fate _ h.fate
    · rw [heq] at hend ⊢
      exact hin.leavesAlone ((horder.books hrun).expire_leavesAlone _ hend)
  | callback input =>
    obtain ⟨ev, hev, overrun, invoked, hhalf⟩ := horder.half hstep
    have hnoted := (horder.books hrun).noted overrun invoked
    have hin' : (s.worker.noted overrun invoked).AllInside := hin
    cases hhalf with
    | idle hnext heq =>
      refine ⟨?_, fun _ => ?_⟩
      · rw [heq]
        exact h.fate
      · rw [heq]
        exact hin
    | accept hnext heq =>
      have hcan : ∀ a, input.accept = .conn a → (s.worker.noted overrun invoked).CanAccept a :=
        fun a ha => hadm hnext a (by rw [ha]; rfl)
      rcases hnoted.admitted ev.fd hcan with hexit | ⟨hsame, -⟩ | ⟨a, -, hadmitted⟩
      · rw [← heq] at hexit
        exact ⟨ne_of_eq_of_ne hexit (by decide),
          fun hend => absurd (hexit.symm.trans hend) (by decide)⟩
      · rw [hsame] at heq
        refine ⟨?_, fun _ => ?_⟩
        · rw [heq]
          exact h.fate
        · rw [heq]
          exact hin
      · rw [← heq] at hadmitted
        exact ⟨ne_of_eq_of_ne (hadmitted.fate.trans hrun) (by decide),
          fun _ => hin'.admitted hadmitted⟩
    | recv c conn hc hfd harg hnext heq =>
      obtain ⟨hfate, hconns⟩ := hnoted.recv_inside hrun hc hin'
        (hmodest hnext conn (nextConn_eq hev harg hc)) heq
      exact ⟨hfate, hconns⟩
    | send c conn hc hfd harg hnext hasks heq =>
      obtain ⟨hfate, hconns⟩ := hnoted.send_inside hrun hc hin' heq
      exact ⟨hfate, hconns⟩

/-- A new worker has no connections. -/
theorem WithinMemory.new {fd N : ℤ} {o : Worker.Creation} {w : Worker}
    (hnew : Worker.eventBaseCreateFrom fd N o = some w) : WithinMemory ⟨w, .waiting⟩ := by
  obtain ⟨hfate, -⟩ := Worker.eventBaseCreateFrom_empty hnew
  obtain ⟨-, -, -, -, -, -, -, -, hconns, -⟩ := Worker.eventBaseCreateFrom_eq_some hnew
  exact ⟨ne_of_eq_of_ne hfate (by decide), fun _ c conn hc => absurd hc (by simp [hconns])⟩

/-- **A worker that is asked modestly stays inside its memory**, in every run of its loop. -/
theorem withinMemory_always {fd N : ℤ} {o : Worker.Creation} {e : Epoll} {w : Worker}
    (hproper : o.Proper fd N e) (hnew : Worker.eventBaseCreateFrom fd N o = some w)
    {inputs : List ReactorInput} (hadm : Run.Along Reactor.step Orderly ⟨w, .waiting⟩ inputs)
    (hmodest : Run.Along Reactor.step AllModest ⟨w, .waiting⟩ inputs) :
    Run.Always Reactor.step WithinMemory ⟨w, .waiting⟩ inputs :=
  (Run.always_of_along (P := fun s => s.InOrder e.opened ∧ s.WithinMemory)
    (fun _ _ _ h hG hstep => ⟨h.1.step hG.1 hstep, h.2.step h.1 hG.1 hG.2 hstep⟩)
    ⟨.new hproper hnew, .new hnew⟩ (hadm.and hmodest)).mono (fun _ h => h.2)

end Reactor
