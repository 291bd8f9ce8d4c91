import TcpFrame.ConnReply
import TcpFrame.ConnRecvComplete
import Mathlib.Data.List.Forall2

/-!
# Requests and replies

A whole conversation: a stream of requests with any commands goes in, and what
comes out is read by the framing of the protocol again. Where the peer waits
for its reply before it goes on, and every reply fits the send buffer, the
output is one packet for each request that asks for a reply, in order
(`replies_always_in_order`). An echo request gets itself back, and a test
request a packet of its sequence number that is `128` bytes longer. A packet
without `EOT` at its end, or with any other command, gets nothing.

No access leaves the send buffer. But the command of a test reply is written behind
its pack (`strayed`), and here that write is taken to hit nothing of the connection.

A reply does not get stuck: while one is queued writable events are asked for,
and one send callback that `write` does not hold up sends the rest of it.
-/

open Block

variable {c : ConnFd} {b : Block} {f r stream : List UInt8} {malloc : Malloc}
  {p : PacketPack} {calls : List ReactorCall}

/-! ## The replies -/

/-- How long the reply to a request is. -/
def replyLen (f : List UInt8) : ℕ :=
  if packetField f 5 = wordBytes cmdTestValue then f.length + 128 else f.length

/-- **The reply to a request**. An echo request is its own reply. The reply to a
test request is a packet with the same sequence number, and a body that does not
depend on that of the request. -/
inductive RepliesTo (f : List UInt8) : List UInt8 → Prop
  | echo (hcmd : packetField f 5 = wordBytes cmdTestEcho) : RepliesTo f f
  | test (r : List UInt8) (hcmd : packetField f 5 = wordBytes cmdTestValue)
    (hframe : protoFraming.IsFrame r) (hlen : r.length = f.length + 128)
    (hseq : packetField r 9 = packetField f 9) (heot : r.getLast? = some protoEot)
    (hbody : ∃ rodata, testFiller rodata (f.length + 107) <+: r.drop 13) : RepliesTo f r

/-! ## The handlers -/

/-- **A reply in the buffer** replies to the test request. -/
theorem TestReply.repliesTo {m : ℕ} {buf : Block} {rodata : ℕ → UInt8}
    (h : TestReply buf (m + 128) (c.pszRecvBuf.word 9) rodata b) (hc : Endpoint.Given c f)
    (hm : f.length = m + 14) (hfits : (m : ℤ) + 142 ≤ maxTcpBufSize)
    (hcmd : packetField f 5 = wordBytes cmdTestValue) :
    RepliesTo f (b.slice 0 (m + 142)) := by
  have h4096 : maxTcpBufSize = 4096 := rfl
  have h13 : packetBodyPos = 13 := rfl
  have hmax : packetMaxLen = 1024 * 1024 := rfl
  refine .test _ hcmd ?_ ?_ ?_ ?_ ⟨rodata, ?_⟩
  · -- the head
    have hword : (b.word packetLenPos).toInt = m + 142 := by
      rw [h.len, BitVec.toInt_ofInt, Int.bmod_eq_of_le (by omega) (by omega)]
      omega
    have hhead : recvHead b = some ((m : ℤ) + 142) := by
      unfold recvHead
      rw [h.soh, hword]
      dsimp only
      rw [if_neg (not_or.mpr ⟨not_not.mpr rfl, by omega⟩), if_neg (by omega)]
    show frameLen ((b.slice 0 (m + 142)).take 5) = some (b.slice 0 (m + 142)).length
    rw [take_slice (by omega), length_slice, frameLen_slice, hhead]
    rfl
  · rw [length_slice, hm]
  · rw [packetField_slice (by omega), Given.field hc (by decide)]
    exact congrArg wordBytes h.seq
  · have heot := h.eot
    rw [getLast?_slice, ← heot]
    congr 2
    push_cast
    omega
  · have hk : 6 + (((m : ℤ) + 128) - 7).toNat ≤ m + 129 := by omega
    rw [show m + 142 = 13 + (m + 129) by omega, slice_add, List.drop_left' length_slice,
      List.prefix_iff_eq_take]
    have hdata := h.data
    rw [show ((m : ℤ) + 128 - 7).toNat = f.length + 107 by omega] at hdata hk
    rw [← hdata, length_slice, take_slice hk]
    rfl

/-- **A reply that is no longer than the send buffer fits**, where nothing is queued. -/
theorem Given.replyFits (hc : Endpoint.Given c f) (hok : c.SendFirst)
    (hempty : c.iSendPacketLen = 0)
    (hfits : AsksReply f → (replyLen f : ℤ) ≤ maxTcpBufSize) : c.ReplyFits := by
  have hcur : c.iSendCurLen = 0 := le_antisymm (hempty ▸ hok.cur_le) hok.cur_nonneg
  have hlen := hc.len
  intro p hp
  have heot := (Given.pack_iff hc).mp ⟨p, hp⟩
  constructor
  · intro htest
    have hfield := (Given.cmd_iff hc hp).mp htest
    have hshort := hfits ⟨heot, Or.inr hfield⟩
    rw [replyLen, if_pos hfield, ← hok.total] at hshort
    refine Or.inl ?_
    rw [hempty, hlen]
    push_cast at hshort
    omega
  · intro hecho
    have hfield := (Given.cmd_iff hc hp).mp hecho
    have hshort := hfits ⟨heot, Or.inl hfield⟩
    have hother : packetField f 5 ≠ wordBytes cmdTestValue := fun htest =>
      absurd (wordBytes_inj (hfield.symm.trans htest)) (by decide)
    rw [replyLen, if_neg hother, ← hok.total] at hshort
    exact ⟨by rw [hlen]; exact hshort, by rw [hcur, hlen]; exact Int.natCast_nonneg _⟩

/-- **The reply to a test request**, in an empty buffer. -/
theorem Given.test (hc : Endpoint.Given c f) (hok : c.SendFirst) (hempty : c.iSendPacketLen = 0)
    (hmalloc : malloc.Succeeds) (hshort : (replyLen f : ℤ) ≤ maxTcpBufSize)
    (hp : string2PacketPack true c.pszRecvBuf 0 c.iRecvCurLen = some p)
    (hlen : getDataSize p = f.length - 14) (hfield : packetField f 5 = wordBytes cmdTestValue) :
    ∃ conn', processTestBinProtocol c p malloc
        = some (conn', [.eventAdd eventWritable .processSendCallback])
      ∧ RepliesTo f conn'.unsent := by
  have h4096 : maxTcpBufSize = 4096 := rfl
  rw [replyLen, if_pos hfield] at hshort
  have hcur : c.iSendCurLen = 0 := le_antisymm (hempty ▸ hok.cur_le) hok.cur_nonneg
  have hmax := hc.bounds.2
  rw [hc.len] at hmax
  obtain ⟨-, -, hblock, hbase⟩ := string2PacketPack_eq_some hp
  obtain ⟨m, hm⟩ := Nat.exists_eq_add_of_le' (Given.length_ge hc)
  rw [hm] at hmax hshort
  push_cast at hmax hshort
  have hsize : getDataSize p = m := by
    rw [hlen, hm]
    push_cast
    omega
  have hresize : resizeSendBufferPtr c (m + 128) malloc.pszSendBuf = some (0, c) := by
    unfold resizeSendBufferPtr
    rw [hempty, sub_zero, hok.total, int32_eq_self (by omega) (by omega), if_pos (by omega)]
  obtain ⟨b, hrun, -, hreply⟩ := processTestBinProtocol_queues hsize (by omega)
    hmalloc.pstPacketPackSend hresize hempty (not_isNull (by rw [hok.size]; decide))
    (by rw [hok.size]; decide)
  refine ⟨_, hrun, ?_⟩
  have hseq : getPacketSeq p = c.pszRecvBuf.word 9 := by
    unfold getPacketSeq
    rw [hblock, hbase]
    rfl
  have hbytes := (hreply (by rw [hok.size]; omega))
  rw [hseq] at hbytes
  show RepliesTo f (b.slice c.iSendCurLen ((m : ℤ) + 142 - c.iSendCurLen).toNat)
  rw [hcur, sub_zero, show ((m : ℤ) + 142).toNat = m + 142 by omega]
  exact hbytes.repliesTo hc hm (by omega) hfield

/-- **What a packet is replied with**, in an empty buffer: its reply and nothing else,
or nothing. Only the reply to a test request is built with an access that strays. -/
theorem Given.answer (hc : Endpoint.Given c f) (hok : c.SendFirst) (hempty : c.iSendPacketLen = 0)
    (hmalloc : malloc.Succeeds) (hfits : AsksReply f → (replyLen f : ℤ) ≤ maxTcpBufSize) :
    ∃ conn' calls, processEntirePacket c malloc = some (conn', calls) ∧ conn'.SendFirst
      ∧ (¬ AsksReply f ∧ conn' = c ∧ calls = []
        ∨ AsksReply f ∧ RepliesTo f conn'.unsent
          ∧ calls = [.eventAdd eventWritable .processSendCallback]
          ∧ (packetField f 5 = wordBytes cmdTestValue ∨ conn'.strayed = c.strayed)) := by
  obtain ⟨conn', calls, hrun, -, hfirst⟩ := processEntirePacket_sendOk hok hmalloc
    (hc.cur.trans hc.len.symm) hc.bounds.1 hc.bounds.2 hc.size
  refine ⟨conn', calls, hrun, hfirst (Given.replyFits hc hok hempty hfits), ?_⟩
  obtain ⟨hrun', hnot⟩ | ⟨-, hasks, ⟨p, hp, hlen, hfield, hrun'⟩ | ⟨hother, hrun'⟩⟩ :=
    Given.entire_cases hc malloc
  · obtain ⟨rfl, rfl⟩ := Prod.mk.inj (Option.some.inj (hrun.symm.trans hrun'))
    exact Or.inl ⟨hnot hmalloc.pstPacketPackRecv, rfl, rfl⟩
  · obtain ⟨conn₁, hrun₁, hreply⟩ :=
      Given.test hc hok hempty hmalloc (hfits hasks) hp hlen hfield
    obtain ⟨rfl, rfl⟩ := Prod.mk.inj (Option.some.inj (hrun.symm.trans (hrun'.trans hrun₁)))
    exact Or.inr ⟨hasks, hreply, rfl, Or.inl hfield⟩
  · have hfield : packetField f 5 = wordBytes cmdTestEcho := hasks.2.resolve_right hother
    have hshort := hfits hasks
    rw [replyLen, if_neg hother] at hshort
    have hreply : RepliesTo f (sendBackEcho c).1.unsent := by
      rw [(hc.echo ⟨hc.frame, hfield, hshort⟩ hok hempty).2]
      exact .echo hfield
    obtain ⟨rfl, rfl⟩ := Prod.mk.inj (Option.some.inj (hrun.symm.trans hrun'))
    exact Or.inr ⟨hasks, hreply, rfl, Or.inr rfl⟩

namespace Endpoint

variable {s s' : Endpoint} {e : Readable} {outcomes : List WriteOutcome}

/-- **The peer waits for its reply**: while one is queued there is nothing to be read. -/
def Waits (s : Endpoint) : ConnEvent → Prop
  | .readable e => 0 < s.recv.conn.iSendPacketLen → s.recv.rx ++ s.recv.wire.take e.arrives = []
  | .writable _ => True

instance : ∀ (s : Endpoint) (a : ConnEvent), Decidable (s.Waits a)
  | _, .readable _ => inferInstanceAs (Decidable (_ → _ = _))
  | _, .writable _ => inferInstanceAs (Decidable True)

instance : DecidablePred Allocates
  | .readable e => inferInstanceAs (Decidable e.malloc.Succeeds)
  | .writable _ => inferInstanceAs (Decidable True)

instance : DecidablePred Writes
  | .readable _ => inferInstanceAs (Decidable True)
  | .writable outcomes => inferInstanceAs (Decidable (.error ∉ outcomes))

/-- Without anything to be read, no packet becomes complete. -/
theorem Ready.packet_eq_none (h : s.Ready stream) (hlive : s.recv.fate = .live)
    (hnil : s.recv.rx ++ s.recv.wire.take e.arrives = []) : (s.recv.result e).packet = none := by
  obtain ⟨p, hp, -⟩ := h.inv.live hlive
  have hspec : Received p (s.recv.rx ++ s.recv.wire.take e.arrives) (s.recv.result e) :=
    processRecvCallback_spec hp _ _ _ _ _
  rw [hnil] at hspec
  generalize s.recv.result e = r at hspec
  cases hspec with
  | destroyed taken hrx hcalls hpacket hreturns => exact hpacket
  | waiting taken hrx hcalls hpacket hreturns hrecv => exact hpacket
  | handed taken c hrx hpacket hframe =>
    rw [(List.append_eq_nil_iff.mp hrx).1, List.append_nil] at hframe
    exact absurd hframe hp.isPartial.not_isFrame

/-- **The invariant of replying**: what was written and what is queued are the replies to
the packets that ask for one, in order, and while something is queued writable events
are asked for. -/
structure Replying (stream : List UInt8) (s : Endpoint) : Prop extends s.Ready stream where
  fd : 0 < s.recv.conn.iFd
  sent : ∃ replies, s.tx ++ s.recv.conn.unsent = replies.flatten
    ∧ List.Forall₂ RepliesTo (s.recv.frames.filter AsksReply) replies
  asked : 0 < s.recv.conn.iSendPacketLen → s.writable = true
  kept : s.sendDestroyed = false
  strays : s.recv.conn.strayed = true →
    ∃ f ∈ s.recv.frames, AsksReply f ∧ packetField f 5 = wordBytes cmdTestValue

/-- What a receive callback leaves of writable events. -/
theorem writable_readable (hstep : s.step (.readable e) = some s') :
    s'.writable = writableAfter s.writable (s.recv.result e).calls := by
  obtain ⟨recv, -, rfl⟩ := Option.map_eq_some_iff.mp hstep
  rfl

/-- A connection with nothing queued has nothing unsent. -/
theorem unsent_nil {conn : ConnFd} (hok : conn.SendOk) (hempty : conn.iSendPacketLen = 0) :
    conn.unsent = [] := by
  have hcur : conn.iSendCurLen = 0 := le_antisymm (hempty ▸ hok.cur_le) hok.cur_nonneg
  rw [ConnFd.unsent, hempty, hcur]
  rfl

theorem unsent_congr {conn conn' : ConnFd} (h : conn.SameSend conn') :
    conn'.unsent = conn.unsent := by
  obtain ⟨-, hbuf, -, hcur, hpacket⟩ := h
  unfold ConnFd.unsent
  rw [hbuf, hcur, hpacket]

/-- Without a packet, a receive callback hands over nothing and sends nothing. -/
theorem Replying.readable_none (h : s.Replying stream) (hpacket : (s.recv.result e).packet = none)
    (hstep : s.step (.readable e) = some s') : s'.Replying stream := by
  obtain ⟨hlive, hrecv, hconn, htx, -, hdestroyed⟩ := step_readable hstep
  have hends : RecvEnds s.recv.conn e.malloc (s.recv.result e) :=
    processRecvCallback_ends _ _ _ _ _ _
  obtain ⟨hsame, hcalls⟩ := hends.of_packet_none hpacket
  rw [← hconn] at hsame
  have hframes : s'.recv.frames = s.recv.frames := by
    rw [Receiver.step, if_pos hlive] at hrecv
    rw [← Option.some.inj hrecv, Receiver.frames, hpacket]
    exact congrArg (List.map Handover.bytes) (List.append_nil _)
  have hwritable : s'.writable = s.writable := by
    rw [writable_readable hstep]
    rcases hcalls with hcalls | hcalls
    · rw [hcalls]
      rfl
    · rw [hcalls]
      rfl
  refine ⟨⟨Receiver.step_inv h.inv hrecv, h.send.sameSend hsame⟩, ?_, ?_, ?_,
    hdestroyed.trans h.kept, ?_⟩
  · rw [hsame.iFd]
    exact h.fd
  · rw [htx, unsent_congr hsame, hframes]
    exact h.sent
  · rw [hsame.iSendPacketLen, hwritable]
    exact h.asked
  · rw [hsame.strayed, hframes]
    exact h.strays

/-- **A receive callback keeps the invariant.** -/
theorem Replying.readable (h : s.Replying stream)
    (hfits : ∀ f ∈ protoFraming.parse stream, AsksReply f → (replyLen f : ℤ) ≤ maxTcpBufSize)
    (hmalloc : e.malloc.Succeeds) (hwaits : s.Waits (.readable e))
    (hstep : s.step (.readable e) = some s') : s'.Replying stream := by
  obtain ⟨hlive, -, hconn, htx, -, hdestroyed⟩ := step_readable hstep
  obtain ⟨hinv, ⟨hpacket, -⟩ | ⟨c, f, hpacket, hsame, hc, hframes, -⟩⟩ := h.toReady.readable hstep
  · exact h.readable_none hpacket hstep
  -- nothing is queued when the packet is handed over
  have hempty : s.recv.conn.iSendPacketLen = 0 := by
    by_contra hne
    have hnone := h.toReady.packet_eq_none hlive
      (hwaits (lt_of_le_of_ne (le_trans h.send.cur_nonneg h.send.cur_le) (Ne.symm hne)))
    exact absurd (hnone.symm.trans hpacket) (by simp)
  have hf : f ∈ protoFraming.parse stream := by
    obtain ⟨rest, hrest⟩ := hinv.front
    have hfront := Framing.prefix_parse hinv.isFrame hrest
    rw [hframes] at hfront
    exact hfront.subset (List.mem_append_right _ (List.mem_singleton_self f))
  obtain ⟨conn', calls, hrun, hfirst, hreply⟩ := Given.answer hc (h.send.sameSend hsame)
    (hsame.iSendPacketLen.trans hempty) hmalloc (hfits f hf)
  have hends : RecvEnds s.recv.conn e.malloc (s.recv.result e) :=
    processRecvCallback_ends _ _ _ _ _ _
  obtain ⟨-, ⟨hnone, -⟩ | ⟨conn₁, calls₁, hrun₁, -, hsend, hcalls⟩⟩ := hends.of_packet_some hpacket
  · exact absurd (hnone.symm.trans hrun) (by simp)
  obtain ⟨rfl, rfl⟩ := Prod.mk.inj (Option.some.inj (hrun.symm.trans hrun₁))
  rw [← hconn] at hsend
  have hfd : 0 < s'.recv.conn.iFd := by
    rw [hsend.iFd, (processEntirePacket_spec hrun).1.iFd, hsame.iFd]
    exact h.fd
  obtain ⟨replies, hsent, hall⟩ := h.sent
  rw [unsent_nil h.send.toSendOk hempty, List.append_nil] at hsent
  refine ⟨⟨hinv, hfirst.sameSend hsend⟩, hfd, ?_, ?_, hdestroyed.trans h.kept, ?_⟩
  · rw [htx, hframes, List.filter_append, unsent_congr hsend, hsent]
    rcases hreply with ⟨hasks, rfl, -⟩ | ⟨hasks, hreply, -⟩
    · refine ⟨replies, ?_, ?_⟩
      · rw [unsent_congr hsame, unsent_nil h.send.toSendOk hempty, List.append_nil]
      · rw [List.filter_singleton, decide_eq_false hasks, cond_false, List.append_nil]
        exact hall
    · refine ⟨replies ++ [conn'.unsent], ?_, ?_⟩
      · rw [List.flatten_append, List.flatten_singleton]
      · rw [List.filter_singleton, decide_eq_true hasks, cond_true]
        exact List.rel_append hall (.cons hreply .nil)
  · intro hqueued
    rw [writable_readable hstep, hcalls]
    rcases hreply with ⟨-, rfl, -⟩ | ⟨-, -, rfl, -⟩
    · rw [hsend.iSendPacketLen, hsame.iSendPacketLen, hempty] at hqueued
      exact absurd hqueued (lt_irrefl 0)
    · show (s.writable || true) = true
      exact Bool.or_true _
  · intro hstrayed
    rw [hsend.strayed] at hstrayed
    have hbefore : s.recv.conn.strayed = true → ∃ g ∈ s'.recv.frames,
        AsksReply g ∧ packetField g 5 = wordBytes cmdTestValue := by
      intro hstrayed
      obtain ⟨g, hg, hg'⟩ := h.strays hstrayed
      rw [hframes]
      exact ⟨g, List.mem_append_left _ hg, hg'⟩
    rcases hreply with ⟨-, rfl, -⟩ | ⟨hasks, -, -, hfield | hsame'⟩
    · exact hbefore (hsame.strayed ▸ hstrayed)
    · rw [hframes]
      exact ⟨f, List.mem_append_right _ (List.mem_singleton_self f), hasks, hfield⟩
    · rw [hsame', hsame.strayed] at hstrayed
      exact hbefore hstrayed

/-- What a send callback makes of an endpoint, writable events included. -/
theorem step_writable_eq (outcomes : List WriteOutcome)
    (hle : s.recv.conn.iSendCurLen ≤ s.recv.conn.iSendPacketLen)
    (hlive : s.recv.fate = .live) (hasked : s.writable = true) :
    ∃ r, Sent s.recv.conn outcomes r
      ∧ r = processSendCallback s.recv.conn s.recv.conn.iFd outcomes
      ∧ s.step (.writable outcomes) = some
        { s with
          recv := { s.recv with
            conn := r.conn, fate := if .destroyConn ∈ r.calls then .destroyed else .live }
          writable := writableAfter s.writable r.calls
          tx := s.tx ++ r.tx
          sendDestroyed := decide (.destroyConn ∈ r.calls) } := by
  refine ⟨_, processSendCallback_spec hle, rfl, ?_⟩
  unfold step
  dsimp only
  rw [if_pos hlive, if_pos hasked]
  simp only [decide_eq_true_eq]

/-- **Where no write fails**, what a send callback writes and what it leaves is what was
unsent, the connection is kept, and writable events are given up only when all is sent. -/
theorem sent_unsent {conn : ConnFd} {r : SendResult} (h : Sent conn outcomes r)
    (hfd : 0 < conn.iFd) (herr : .error ∉ outcomes) :
    conn.unsent = r.tx ++ r.conn.unsent ∧ .destroyConn ∉ r.calls
      ∧ (r.calls = [] ∨ r.conn.iSendPacketLen = 0) := by
  cases h with
  | idle => exact ⟨rfl, List.not_mem_nil, Or.inl rfl⟩
  | destroyed k hk hwhy => exact absurd hwhy (not_or.mpr ⟨not_le.mpr hfd, herr⟩)
  | some k hk => exact ⟨unsent_of_slice hk.le, List.not_mem_nil, Or.inl rfl⟩
  | all k hk =>
    refine ⟨?_, fun hmem => absurd (List.mem_singleton.mp hmem) (by simp), Or.inr rfl⟩
    rw [unsent_of_slice hk.le]
    show _ ++ conn.pszSendBuf.slice (conn.iSendCurLen + k)
      (conn.iSendPacketLen - (conn.iSendCurLen + k)).toNat = _ ++ []
    rw [hk, sub_self]
    rfl

/-- **A send callback keeps the invariant.** -/
theorem Replying.writable (h : s.Replying stream) (hwrites : Writes (.writable outcomes))
    (hstep : s.step (.writable outcomes) = some s') : s'.Replying stream := by
  have hready := h.toReady.writable hstep
  by_cases hasked : s.writable = true
  swap
  · unfold step at hstep
    dsimp only at hstep
    rw [if_neg hasked] at hstep
    split at hstep
    · exact Option.some.inj hstep ▸ h
    · exact absurd hstep (by simp)
  by_cases hlive : s.recv.fate = .live
  swap
  · unfold step at hstep
    dsimp only at hstep
    rw [if_neg hlive] at hstep
    exact absurd hstep (by simp)
  obtain ⟨r, hsent, -, heq⟩ := step_writable_eq outcomes h.send.cur_le hlive hasked
  obtain rfl := Option.some.inj (heq.symm.trans hstep)
  obtain ⟨hunsent, hgone, hcalls⟩ := sent_unsent hsent h.fd hwrites
  refine ⟨hready, ?_, ?_, ?_, decide_eq_false hgone, ?_⟩
  · show 0 < r.conn.iFd
    rw [hsent.sameConn.iFd]
    exact h.fd
  · obtain ⟨replies, hall, hreplies⟩ := h.sent
    refine ⟨replies, ?_, hreplies⟩
    show s.tx ++ r.tx ++ r.conn.unsent = _
    rw [List.append_assoc, ← hunsent, hall]
  · show 0 < r.conn.iSendPacketLen → writableAfter s.writable r.calls = true
    intro hqueued
    rcases hcalls with hnone | hzero
    · rw [hnone]
      exact hasked
    · rw [hzero] at hqueued
      exact absurd hqueued (lt_irrefl 0)
  · obtain ⟨_, _, hconn⟩ := hsent.conn_eq
    show r.conn.strayed = true → _
    rw [hconn]
    exact h.strays

/-- A `write` that takes all there is. -/
theorem processSendCallback_all {conn : ConnFd} (hok : conn.SendOk) (hfd : 0 < conn.iFd)
    (hqueued : 0 < conn.iSendPacketLen) {k : ℕ} (hk : conn.unsent.length ≤ k) :
    processSendCallback conn conn.iFd [.data k]
      = ⟨{ conn with iSendPacketLen := 0, iSendCurLen := 0 }, [.eventDel eventWritable],
          conn.unsent⟩ := by
  have hle := hok.cur_le
  set n := (conn.iSendPacketLen - conn.iSendCurLen).toNat with hn
  have hlen : conn.unsent.length = n := length_slice
  have hloop : sendLoop n [.data k] 0 = ((n : ℤ), n) := by
    unfold sendLoop
    by_cases hpos : 0 < n
    · rw [if_pos hpos]
      dsimp only
      rw [show 0 + min k (n - 0) = n by omega]
      rfl
    · rw [if_neg hpos, show n = 0 by omega]
  unfold processSendCallback pynServerSendData
  rw [if_neg (by omega), if_neg (by omega), if_neg (by omega), ← hn, hloop]
  dsimp only
  rw [if_neg (by omega), if_pos (by omega)]
  rfl

/-- **A send callback that nothing holds up** writes all that is queued. -/
theorem Replying.drain (h : s.Replying stream) (hlive : s.recv.fate = .live) {k : ℕ}
    (hk : s.recv.conn.unsent.length ≤ k) :
    ∃ t, s.step (.writable [.data k]) = some t ∧ t.recv.frames = s.recv.frames
      ∧ t.recv.fate = .live ∧ t.tx = s.tx ++ s.recv.conn.unsent
      ∧ t.recv.conn.iSendPacketLen = 0 := by
  by_cases hempty : s.recv.conn.iSendPacketLen = 0
  · -- there is nothing to write
    have hidle : processSendCallback s.recv.conn s.recv.conn.iFd [.data k]
        = ⟨s.recv.conn, [], []⟩ := by
      unfold processSendCallback
      rw [if_pos (show 0 ≥ s.recv.conn.iSendPacketLen by omega), ite_self]
    rw [unsent_nil h.send.toSendOk hempty, List.append_nil]
    by_cases hasked : s.writable = true
    · obtain ⟨r, -, rfl, heq⟩ :=
        step_writable_eq [.data k] h.send.cur_le hlive hasked
      rw [hidle] at heq
      exact ⟨_, heq, rfl, rfl, List.append_nil _, hempty⟩
    · refine ⟨s, ?_, rfl, hlive, rfl, hempty⟩
      unfold step
      dsimp only
      rw [if_pos hlive, if_neg hasked]
  · have hqueued : 0 < s.recv.conn.iSendPacketLen :=
      lt_of_le_of_ne (le_trans h.send.cur_nonneg h.send.cur_le) (Ne.symm hempty)
    obtain ⟨r, -, rfl, heq⟩ :=
      step_writable_eq [.data k] h.send.cur_le hlive (h.asked hqueued)
    rw [processSendCallback_all h.send.toSendOk h.fd hqueued hk] at heq
    exact ⟨_, heq, rfl, rfl, rfl, rfl⟩

/-- **What a conversation has come to.** The framing of the protocol reads the output as
the replies to the requests handed over that ask for one, one after the other, with
nothing besides; no send callback has destroyed the connection, and one that nothing
holds up writes the rest. No access has left the send buffer, and an access has missed
a pack only if there was a test request among these. -/
structure Replied (s : Endpoint) : Prop where
  replies : List.Forall₂ RepliesTo (s.recv.frames.filter AsksReply)
    (protoFraming.parse (s.tx ++ s.recv.conn.unsent))
  nothing_else : (protoFraming.parse (s.tx ++ s.recv.conn.unsent)).flatten
    = s.tx ++ s.recv.conn.unsent
  kept : s.sendDestroyed = false
  drains : s.recv.fate = .live → ∀ k, s.recv.conn.unsent.length ≤ k →
    ∃ t, s.step (.writable [.data k]) = some t ∧ t.recv.frames = s.recv.frames
      ∧ t.recv.fate = .live ∧ t.tx = s.tx ++ s.recv.conn.unsent
      ∧ t.recv.conn.iSendPacketLen = 0
  inside : s.recv.conn.pszSendBuf.overrun = false
  strays : s.recv.conn.strayed = true →
    ∃ f ∈ s.recv.frames, AsksReply f ∧ packetField f 5 = wordBytes cmdTestValue

/-- The replies to packets are packets. -/
theorem isFrame_of_repliesTo {fs rs : List (List UInt8)} (h : List.Forall₂ RepliesTo fs rs)
    (hfs : ∀ f ∈ fs, protoFraming.IsFrame f) : ∀ r ∈ rs, protoFraming.IsFrame r := by
  induction h with
  | nil => exact hfs
  | @cons f r fs rs hreply hall ih =>
    rw [List.forall_mem_cons] at hfs ⊢
    refine ⟨?_, ih hfs.2⟩
    cases hreply with
    | echo hcmd => exact hfs.1
    | test r hcmd hframe hlen hseq heot hbody => exact hframe

theorem Replying.replied (h : s.Replying stream) : s.Replied := by
  obtain ⟨replies, hsent, hall⟩ := h.sent
  have hparse : protoFraming.parse (s.tx ++ s.recv.conn.unsent) = replies := by
    rw [hsent]
    exact Framing.parse_flatten (isFrame_of_repliesTo hall
      (fun f hf => h.inv.isFrame f (List.mem_of_mem_filter hf)))
  refine ⟨?_, ?_, h.kept, fun hlive k hk => h.drain hlive hk, h.send.inside, h.strays⟩
  · rw [hparse]
    exact hall
  · rw [hparse, hsent]

theorem Replying.start {iFd : ℤ} (hfd : 0 < iFd) {node : NodePtr} {recvMem sendMem : ℤ → UInt8}
    {serial : ℕ} {stream : List UInt8} :
    (start iFd node recvMem sendMem serial stream).Replying stream :=
  ⟨start_ready, hfd, ⟨[], rfl, .nil⟩, fun h => absurd h (lt_irrefl 0), rfl,
    fun h => absurd h Bool.false_ne_true⟩

/-- **A callback keeps the invariant.** -/
theorem Replying.step (h : s.Replying stream)
    (hfits : ∀ f ∈ protoFraming.parse stream, AsksReply f → (replyLen f : ℤ) ≤ maxTcpBufSize)
    {a : ConnEvent} (hmalloc : Allocates a) (hwrites : Writes a) (hwaits : s.Waits a)
    (hstep : s.step a = some s') : s'.Replying stream := by
  cases a with
  | readable e => exact h.readable hfits hmalloc hwaits hstep
  | writable outcomes => exact h.writable hwrites hstep

/-- **A conversation keeps the invariant.** -/
theorem replying_always {iFd : ℤ} (hfd : 0 < iFd) (node : NodePtr) (recvMem sendMem : ℤ → UInt8)
    (serial : ℕ) {stream : List UInt8}
    (hfits : ∀ f ∈ protoFraming.parse stream, AsksReply f → (replyLen f : ℤ) ≤ maxTcpBufSize)
    {callbacks : List ConnEvent} (hmalloc : ∀ a ∈ callbacks, Allocates a)
    (hwrites : ∀ a ∈ callbacks, Writes a)
    (hwaits : Run.Along step Waits (start iFd node recvMem sendMem serial stream) callbacks) :
    Run.Always step (Replying stream) (start iFd node recvMem sendMem serial stream) callbacks := by
  have hguard := (Run.along_of_forall_mem (fun a ha _ => And.intro (hmalloc a ha) (hwrites a ha))
    (Endpoint.start iFd node recvMem sendMem serial stream)).and hwaits
  exact Run.always_of_along (fun s a s' h hG hstep => h.step hfits hG.1.1 hG.1.2 hG.2 hstep)
    (Replying.start hfd) hguard

/-- **The event can be served**: there is something to be read, which is not just the
rest of a head, and nothing comes in between. -/
def Serves (s : Endpoint) : ConnEvent → Prop
  | .readable e => e.head = [] ∧ e.body = [] ∧ s.recv.readable ⟨e.arrives, e.malloc⟩ ≠ []
    ∧ ¬ s.recv.conn.StopsAtHead (s.recv.readable ⟨e.arrives, e.malloc⟩)
  | .writable _ => True

instance : ∀ (s : Endpoint) (a : ConnEvent), Decidable (s.Serves a)
  | s, .readable e => inferInstanceAs (Decidable (e.head = [] ∧ e.body = []
    ∧ s.recv.readable ⟨e.arrives, e.malloc⟩ ≠ []
    ∧ ¬ s.recv.conn.StopsAtHead (s.recv.readable ⟨e.arrives, e.malloc⟩)))
  | _, .writable _ => inferInstanceAs (Decidable True)

/-- **Where memory is found, a receive callback comes to an end.** -/
theorem Ready.returns (h : s.Ready stream) (hmalloc : e.malloc.Succeeds)
    (hstep : s.step (.readable e) = some s') : (s.recv.result e).returns = true := by
  obtain ⟨p, hp, -⟩ := h.inv.live (step_readable hstep).1
  have hspec : Received p (s.recv.rx ++ s.recv.wire.take e.arrives) (s.recv.result e) :=
    processRecvCallback_spec hp _ _ _ _ _
  refine hspec.returns (processRecvCallback_ends _ _ _ _ _ _) fun c hc => ?_
  obtain ⟨-, ⟨hnone, -⟩ | ⟨c', f, hpacket, hsame, hgiven, -⟩⟩ := h.readable hstep
  · rw [hnone] at hc
    exact absurd hc (by simp)
  · obtain rfl := Option.some.inj (hpacket.symm.trans hc)
    obtain ⟨conn', calls, hrun, -⟩ := processEntirePacket_sendOk (h.send.sameSend hsame) hmalloc
      (hgiven.cur.trans hgiven.len.symm) hgiven.bounds.1 hgiven.bounds.2 hgiven.size
    rw [hrun]
    simp

/-- A receive callback that can be served leaves the connection alive, in a stream of
packets. -/
theorem Replying.live_readable {fs : List (List UInt8)} (h : s.Replying fs.flatten)
    (hfs : ∀ f ∈ fs, protoFraming.IsFrame f) (hmalloc : e.malloc.Succeeds)
    (hserves : s.Serves (.readable e)) (hstep : s.step (.readable e) = some s') :
    s'.recv.fate = .live := by
  obtain ⟨hlive, hrecv, -⟩ := step_readable hstep
  have hreturns := h.toReady.returns hmalloc hstep
  obtain ⟨arrives, head, body, malloc⟩ := e
  obtain ⟨rfl, rfl, hne, hstop⟩ := hserves
  have hreading : s.recv.Reading fs := ⟨h.inv, hlive, h.fd.le⟩
  obtain ⟨t, ht, -, hfate, -⟩ := hreading.step_spec hfs hne
  rw [Receiver.levelStep, if_neg hne] at ht
  rw [Option.some.inj (hrecv.symm.trans ht)]
  refine hfate.mpr ⟨hstop, fun hlack => ?_, hreturns⟩
  exact absurd hmalloc.pszRecvBuf (by rw [hlack.1]; decide)

/-- A send callback leaves it alive, if it does not destroy it. -/
theorem live_writable (hlive : s.recv.fate = .live) (hstep : s.step (.writable outcomes) = some s')
    (hkept : s'.sendDestroyed = false) : s'.recv.fate = .live := by
  unfold step at hstep
  dsimp only at hstep
  rw [if_pos hlive] at hstep
  split at hstep
  · obtain rfl := Option.some.inj hstep
    exact if_neg (fun hgone => absurd (hgone.symm.trans hkept) (by decide))
  · exact Option.some.inj hstep ▸ hlive

/-- **A conversation that is served goes on.** -/
theorem live_always {iFd : ℤ} (hfd : 0 < iFd) (node : NodePtr) (recvMem sendMem : ℤ → UInt8)
    (serial : ℕ) {fs : List (List UInt8)} (hfs : ∀ f ∈ fs, protoFraming.IsFrame f)
    (hfits : ∀ f ∈ fs, AsksReply f → (replyLen f : ℤ) ≤ maxTcpBufSize)
    {callbacks : List ConnEvent} (hmalloc : ∀ a ∈ callbacks, Allocates a)
    (hwrites : ∀ a ∈ callbacks, Writes a)
    (hwaits : Run.Along step Waits (start iFd node recvMem sendMem serial fs.flatten) callbacks)
    (hserves : Run.Along step Serves (start iFd node recvMem sendMem serial fs.flatten) callbacks) :
    Run.Always step (fun s => s.recv.fate = .live)
      (start iFd node recvMem sendMem serial fs.flatten) callbacks := by
  have hfits' : ∀ f ∈ protoFraming.parse fs.flatten, AsksReply f →
      (replyLen f : ℤ) ≤ maxTcpBufSize := by
    rw [Framing.parse_flatten hfs]
    exact hfits
  have hguard := ((Run.along_of_forall_mem (fun a ha _ => And.intro (hmalloc a ha) (hwrites a ha))
    (Endpoint.start iFd node recvMem sendMem serial fs.flatten)).and hwaits).and hserves
  refine (Run.always_of_along (P := fun s => s.Replying fs.flatten ∧ s.recv.fate = .live) ?_
    ⟨Replying.start hfd, rfl⟩ hguard).mono (fun s h => h.2)
  rintro s a s' ⟨h, hlive⟩ ⟨⟨⟨hmalloc, hwrites⟩, hwaits⟩, hserves⟩ hstep
  have hreplying := h.step hfits' hmalloc hwrites hwaits hstep
  refine ⟨hreplying, ?_⟩
  cases a with
  | readable e => exact h.live_readable hfs hmalloc hserves hstep
  | writable outcomes => exact live_writable hlive hstep hreplying.kept

end Endpoint

/-- **Each request gets its reply, in order.** Whatever the peer sends, however it
arrives and however little `write` takes, if the peer waits for its reply and every
reply fits the send buffer, the output is the replies. -/
theorem replies_always_in_order {iFd : ℤ} (hfd : 0 < iFd) (node : NodePtr)
    (recvMem sendMem : ℤ → UInt8) (serial : ℕ) {stream : List UInt8}
    (hfits : ∀ f ∈ protoFraming.parse stream, AsksReply f → (replyLen f : ℤ) ≤ maxTcpBufSize)
    {callbacks : List ConnEvent} (hmalloc : ∀ a ∈ callbacks, Endpoint.Allocates a)
    (hwrites : ∀ a ∈ callbacks, Endpoint.Writes a)
    (hwaits : Run.Along Endpoint.step Endpoint.Waits
      (Endpoint.start iFd node recvMem sendMem serial stream) callbacks) :
    Run.Always Endpoint.step Endpoint.Replied
      (Endpoint.start iFd node recvMem sendMem serial stream) callbacks :=
  (Endpoint.replying_always hfd node recvMem sendMem serial hfits hmalloc hwrites hwaits).mono
    (fun _ h => h.replied)

/-- A test request of two bytes. -/
def testFrame : List UInt8 := [0x28, 0, 0, 0, 16, 0, 0, 0x29, 0, 0, 0, 0, 7, 104, 105, 0x29]

/-- An echo request, its reply in two pieces, a test request in two pieces, and half
of its reply. -/
def conversation : List ConnEvent :=
  [.readable ⟨14, [], [], zeroMalloc⟩, .writable [.data 9], .writable [.data 9],
    .readable ⟨6, [], [], zeroMalloc⟩, .readable ⟨10, [], [], zeroMalloc⟩, .writable [.data 70]]

theorem replies_always_in_order_sample :
    Run.Always Endpoint.step Endpoint.Replied
      (Endpoint.start 5 1 (fun _ => 0) (fun _ => 0) 0 [echoFrame, testFrame].flatten)
      conversation :=
  replies_always_in_order (by decide) 1 (fun _ => 0) (fun _ => 0) 0
    (by
      rw [Framing.parse_flatten (by decide +kernel)]
      decide +kernel)
    (by decide) (by decide) (by decide +kernel)
