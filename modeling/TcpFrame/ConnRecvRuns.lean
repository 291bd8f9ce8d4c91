import TcpFrame.ConnRecv
import TcpFrame.Lib.Run

/-!
# Receiving a stream

Runs of the receive callback over a stream of bytes. Whatever the stream is and
whatever `read` and `malloc` do, the packets handed over are a prefix of the
reference parse of the stream (`receiver_always_prefix`). A packet is handed over
when its last byte is read, so that nothing of the stream is lost between two of
them; whether the connection lives to hand over all is another question.
-/

/-- How far a connection has come. -/
inductive Fate where
  | live
  | destroyed
  | hung
  deriving DecidableEq, Repr

/-- What `ProcessEntirePacket` is given: the bytes in the buffer, and the two
lengths of the connection. -/
structure Handover where
  bytes : List UInt8
  iRecvCurLen : ℤ
  iPacketLen : ℤ
  deriving DecidableEq, Repr

/-- A connection together with the stream its peer sends: the bytes that have
not arrived, and those that have arrived and are not read. -/
structure Receiver where
  conn : ConnFd
  wire : List UInt8
  rx : List UInt8
  handed : List Handover
  fate : Fate

/-- A readable event: how many bytes have arrived since the last one, what
`read` does in the two read loops, and what `malloc` finds. -/
structure Readable where
  arrives : ℕ
  head : List ReadOutcome
  body : List ReadOutcome
  malloc : Malloc

/-- What a receive callback makes of its connection. -/
def RecvResult.fate (r : RecvResult) : Fate :=
  if r.returns = false then .hung
  else if .destroyConn ∈ r.calls then .destroyed else .live

theorem RecvResult.fate_eq_live {r : RecvResult} :
    r.fate = .live ↔ r.returns = true ∧ .destroyConn ∉ r.calls := by
  unfold RecvResult.fate
  cases r.returns with
  | false => simp
  | true =>
    by_cases hmem : .destroyConn ∈ r.calls
    · simp [hmem]
    · simp [hmem]

/-- What `ProcessEntirePacket` is given in `c`. -/
def Handover.of (c : ConnFd) : Handover where
  bytes := c.pszRecvBuf.slice 0 c.iRecvCurLen.toNat
  iRecvCurLen := c.iRecvCurLen
  iPacketLen := c.iPacketLen

namespace Receiver

/-- A new connection, and the stream `stream` of its peer. -/
def start (iFd : ℤ) (node : NodePtr) (recvMem sendMem : ℤ → UInt8) (serial : ℕ)
    (stream : List UInt8) : Receiver where
  conn := ConnFd.create iFd node recvMem sendMem serial
  wire := stream
  rx := []
  handed := []
  fate := .live

/-- The receive callback in a readable event. -/
def result (s : Receiver) (e : Readable) : RecvResult :=
  processRecvCallback s.conn s.conn.iFd e.malloc e.head e.body (s.rx ++ s.wire.take e.arrives)

/-- **One readable event.** A connection that is gone has none. -/
def step (s : Receiver) (e : Readable) : Option Receiver :=
  if s.fate = .live then
    let r := s.result e
    some
      { conn := r.conn
        wire := s.wire.drop e.arrives
        rx := r.rx
        handed := s.handed ++ (r.packet.map Handover.of).toList
        fate := r.fate }
  else none

/-- The bytes of the packets handed over. -/
def frames (s : Receiver) : List (List UInt8) := s.handed.map Handover.bytes

/-- **The invariant of receiving**: what was handed over are frames from the
front of the stream, and while the connection lives, what follows them is the
incomplete packet in its buffer, and then the rest of the stream. -/
structure Inv (stream : List UInt8) (s : Receiver) : Prop where
  handed : ∀ d ∈ s.handed, protoFraming.IsFrame d.bytes ∧ d.iRecvCurLen = d.bytes.length
    ∧ d.iPacketLen = d.bytes.length
  front : ∃ rest, s.frames.flatten ++ rest = stream
  live : s.fate = .live → ∃ p, s.conn.Receiving p ∧
    s.frames.flatten ++ (p ++ (s.rx ++ s.wire)) = stream

variable {s s' : Receiver} {e : Readable} {stream : List UInt8} {events : List Readable}

theorem start_inv {iFd : ℤ} {node : NodePtr} {recvMem sendMem : ℤ → UInt8} {serial : ℕ} :
    (start iFd node recvMem sendMem serial stream).Inv stream where
  handed _ hd := absurd hd List.not_mem_nil
  front := ⟨stream, rfl⟩
  live _ := ⟨[], ConnFd.create_receiving, rfl⟩

theorem Inv.isFrame (h : s.Inv stream) : ∀ f ∈ s.frames, protoFraming.IsFrame f := by
  intro f hf
  obtain ⟨d, hd, rfl⟩ := List.mem_map.mp hf
  exact (h.handed d hd).1

/-- **One event keeps the invariant.** -/
theorem step_inv (h : s.Inv stream) (hstep : s.step e = some s') : s'.Inv stream := by
  unfold step at hstep
  by_cases hlive : s.fate = .live
  swap
  · rw [if_neg hlive] at hstep
    exact absurd hstep (by simp)
  rw [if_pos hlive] at hstep
  obtain ⟨p, hrecv, hstream⟩ := h.live hlive
  have hspec := processRecvCallback_spec hrecv s.conn.iFd e.malloc e.head e.body
    (s.rx ++ s.wire.take e.arrives)
  obtain rfl := Option.some.inj hstep
  unfold result
  generalize processRecvCallback s.conn s.conn.iFd e.malloc e.head e.body
    (s.rx ++ s.wire.take e.arrives) = r at hspec ⊢
  have hwire : s.rx ++ s.wire.take e.arrives ++ s.wire.drop e.arrives = s.rx ++ s.wire := by
    rw [List.append_assoc, List.take_append_drop]
  cases hspec with
  | destroyed taken hrx hcalls hpacket hreturns =>
    refine ⟨?_, ?_, fun hfate => ?_⟩
    · rw [hpacket]
      exact fun d hd => h.handed d (by simpa using hd)
    · show ∃ rest, ((s.handed ++ _).map Handover.bytes).flatten ++ rest = stream
      rw [hpacket, Option.map_none, Option.toList_none, List.append_nil]
      exact h.front
    · refine absurd ?_ (RecvResult.fate_eq_live.mp hfate).2
      rw [hcalls]
      exact List.mem_singleton_self _
  | waiting taken hrx hcalls hpacket hreturns hrecv' =>
    have hframes : (s.handed ++ (r.packet.map Handover.of).toList) = s.handed := by
      rw [hpacket, Option.map_none, Option.toList_none, List.append_nil]
    refine ⟨?_, ?_, fun _ => ⟨p ++ taken, hrecv', ?_⟩⟩
    · rw [hframes]
      exact h.handed
    · show ∃ rest, ((s.handed ++ _).map Handover.bytes).flatten ++ rest = stream
      rw [hframes]
      exact h.front
    · show ((s.handed ++ _).map Handover.bytes).flatten ++ _ = stream
      rw [hframes, ← hstream, ← hwire, ← hrx]
      simp only [List.append_assoc]
      rfl
  | handed taken c hrx hpacket hframe hbuf hcur hlen hsize hcalls hrecv' =>
    have hof : (Handover.of c).bytes = p ++ taken := hbuf
    have hframes : (s.handed ++ (r.packet.map Handover.of).toList).map Handover.bytes
        = s.frames ++ [p ++ taken] := by
      rw [hpacket, Option.map_some, Option.toList_some, List.map_append, List.map_singleton, hof]
      rfl
    have hall : (s.frames ++ [p ++ taken]).flatten ++ (r.rx ++ s.wire.drop e.arrives)
        = stream := by
      rw [← hstream, ← hwire, ← hrx, List.flatten_append, List.flatten_singleton]
      simp only [List.append_assoc]
    refine ⟨?_, ?_, fun hfate => ?_⟩
    · rw [hpacket]
      intro d hd
      rcases List.mem_append.mp hd with hd | hd
      · exact h.handed d hd
      · obtain rfl : d = Handover.of c := by simpa using hd
        rw [hof]
        exact ⟨hframe, hcur, hlen⟩
    · show ∃ rest, ((s.handed ++ _).map Handover.bytes).flatten ++ rest = stream
      rw [hframes]
      exact ⟨_, hall⟩
    · refine ⟨[], hrecv' (RecvResult.fate_eq_live.mp hfate).1, ?_⟩
      show ((s.handed ++ _).map Handover.bytes).flatten ++ _ = stream
      rw [hframes]
      exact hall

end Receiver

open Receiver

/-- **Framing is safe.** Whatever the peer sends and whatever `read` and
`malloc` do, the packets handed over are at all times a prefix of the reference
parse of the stream, each with all its bytes and its length. -/
theorem receiver_always_prefix (iFd : ℤ) (node : NodePtr) (recvMem sendMem : ℤ → UInt8)
    (serial : ℕ) (stream : List UInt8) (events : List Readable) :
    Run.Always Receiver.step
      (fun s => s.frames <+: protoFraming.parse stream
        ∧ ∀ d ∈ s.handed, d.iRecvCurLen = d.iPacketLen ∧ d.iPacketLen = d.bytes.length)
      (Receiver.start iFd node recvMem sendMem serial stream) events := by
  have halways : Run.Always Receiver.step (Inv stream)
      (Receiver.start iFd node recvMem sendMem serial stream) events :=
    Run.always_of_along (G := fun _ _ => True) (fun s e s' h _ hstep => step_inv h hstep)
      start_inv (Run.along_true _ _)
  refine halways.mono (fun s h => ⟨?_, fun d hd => ?_⟩)
  · obtain ⟨rest, hrest⟩ := h.front
    exact Framing.prefix_parse h.isFrame hrest
  · obtain ⟨-, hcur, hlen⟩ := h.handed d hd
    exact ⟨hcur.trans hlen.symm, hlen⟩

/-- An echo request of `14` bytes. -/
def echoFrame : List UInt8 :=
  [0x28, 0, 0, 0, 14, 0, 0, 0x30, 0, 0, 0, 0, 7, 0x29]

/-- Memory is always found, with zeros in it. -/
def zeroMalloc : Malloc where
  pszRecvBuf := some (fun _ => 0)
  pszSendBuf := some (fun _ => 0)
  pstPacketPackRecv := true
  pstPacketPackSend := true
  rodata := fun _ => 0
