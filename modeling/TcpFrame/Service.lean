import TcpFrame.WorkerAlone

/-!
# A worker and its peers

The loop of a worker (`Reactor`) together with the other ends of its connections. A
`Peer` has all the bytes it is going to send, and the socket between it and the worker
holds what has arrived of them. What a receive callback finds to be read is what is in the
socket of its connection, and what a send callback writes goes there too, so that the
callbacks of a connection are no longer each for itself: what one of them leaves, the next
one finds.

A peer is told by the serial number of its connection, since descriptors are used again,
and it is kept when the connection is gone. What `accept`, `read`, `write` and the
allocator do is still an argument of the step, and so is what a new peer is going to send.

As in `Reactor`, a run ends with the first callback that leaves the memory of its
connection. No peer is told apart from that: it ends for all of them.
-/

/-- **The peer of a connection**, and what has passed between it and the worker. -/
structure Peer where
  /-- What `accept` returned for it, and the memory its connection was given. -/
  accepted : Accepted
  /-- All it sends. -/
  stream : List UInt8
  /-- What of that has not arrived. -/
  wire : List UInt8
  /-- What has arrived and is not read. -/
  rx : List UInt8
  /-- What has been written to it. -/
  tx : List UInt8
  /-- The callbacks of its connection so far. -/
  callbacks : List ConnEvent
  /-- The clock of the worker when its connection was accepted, or when a packet of it was
  last complete. -/
  active : TimeVal

namespace Peer

/-- A peer whose connection is accepted. -/
def new (a : Accepted) (stream : List UInt8) (now : TimeVal) : Peer where
  accepted := a
  stream := stream
  wire := stream
  rx := []
  tx := []
  callbacks := []
  active := now

/-- What there is to be read once `arrives` more bytes have arrived. -/
def unread (p : Peer) (arrives : ℕ) : List UInt8 := p.rx ++ p.wire.take arrives

/-- What a callback of its connection `conn` leaves of it. -/
def after (p : Peer) (now : TimeVal) (conn : ConnFd) : ConnEvent → Peer
  | .readable e =>
    let r := processRecvCallback conn conn.iFd e.malloc e.head e.body (p.unread e.arrives)
    { p with
      wire := p.wire.drop e.arrives
      rx := r.rx
      callbacks := p.callbacks ++ [.readable e]
      active := if r.packet.isSome then now else p.active }
  | .writable outcomes =>
    let r := processSendCallback conn conn.iFd outcomes
    { p with
      tx := p.tx ++ r.tx
      callbacks := p.callbacks ++ [.writable outcomes] }

/-- Its connection when it is new, if it were the only one. -/
def first (p : Peer) (serial : ℕ) : Endpoint :=
  .start p.accepted.iClientFd p.accepted.pstTimeoutEvent p.accepted.pszRecvBuf
    p.accepted.pszSendBuf serial p.stream

/-- **Its connection if it were the only one**: what the same callbacks make of that. -/
def alone (p : Peer) (serial : ℕ) : Option Endpoint :=
  Run.exec Endpoint.step (p.first serial) p.callbacks

/-- What the worker has read of its stream. -/
def read (p : Peer) : List UInt8 :=
  p.stream.take (p.stream.length - (p.rx ++ p.wire).length)

end Peer

/-- **A worker in its loop, and the peers** it has or had a connection to. -/
structure Service where
  reactor : Reactor
  peer : ℕ → Option Peer

/-- What happens next in the loop, as in `ReactorInput`. For a callback there is also how
many bytes have arrived, if it reads, and what the peer is going to send, if there is a
new one. What there is to be read is not looked at in the `EventInput`. -/
inductive ServiceInput where
  | wait (now : TimeVal) (events : Option (List EpollEvent))
  | callback (input : EventInput) (arrives : ℕ) (stream : List UInt8)
  | expire

namespace Service

/-- The worker enters its loop. -/
def start (w : Worker) : Service := ⟨⟨w, .waiting⟩, fun _ => none⟩

/-- The connection that the event in work is for. -/
def nextConn (s : Service) : Option ConnFd := s.reactor.nextConn

/-- What there is to be read there. -/
def unread (s : Service) (arrives : ℕ) : List UInt8 :=
  ((s.nextConn.bind fun conn => s.peer conn.serial).map (fun p => p.unread arrives)).getD []

/-- What happens next in the loop alone. -/
def reactorInput (s : Service) : ServiceInput → ReactorInput
  | .wait now events => .wait now events
  | .callback input arrives _ => .callback { input with rx := s.unread arrives }
  | .expire => .expire

/-- A callback of the connection of the event in work. -/
def atPeer (s : Service) (a : ConnEvent) : ℕ → Option Peer :=
  match s.nextConn with
  | none => s.peer
  | some conn =>
    Function.update s.peer conn.serial
      ((s.peer conn.serial).map (fun p => p.after s.reactor.worker.pstTimeCache conn a))

/-- The peers after what happens next. -/
def nextPeers (s : Service) : ServiceInput → ℕ → Option Peer
  | .callback input arrives stream =>
    match s.reactor.nextCallback with
    | some .processAcceptCallback =>
      match Worker.client input.accept with
      | none => s.peer
      | some a =>
        Function.update s.peer s.reactor.worker.nextSerial
          (some (.new a stream s.reactor.worker.pstTimeCache))
    | some .processRecvCallback =>
      s.atPeer (.readable ⟨arrives, input.head, input.body, input.malloc⟩)
    | some .processSendCallback => s.atPeer (.writable input.writes)
    | _ => s.peer
  | _ => s.peer

/-- **One step of the loop.** -/
def step (s : Service) (input : ServiceInput) : Option Service :=
  (s.reactor.step (s.reactorInput input)).map fun reactor => ⟨reactor, s.nextPeers input⟩

/-- **What the kernel and the allocator do**, as in `Reactor.Orderly`. -/
def Orderly (s : Service) (input : ServiceInput) : Prop := s.reactor.Orderly (s.reactorInput input)

instance (s : Service) (input : ServiceInput) : Decidable (s.Orderly input) :=
  inferInstanceAs (Decidable (s.reactor.Orderly (s.reactorInput input)))

end Service
