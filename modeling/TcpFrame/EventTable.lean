import TcpFrame.Comm
import Mathlib.Logic.Function.Basic

/-!
# The event table and epoll

The model of the registration functions of `reactor.c`. An `EventTable` is the
part of an `EventBase` they work on: the array of slots, one for each
descriptor, and the epoll instance behind `iEpfd`.

The kernel is modelled by its rules: a descriptor is closed, open, or open and
registered with the events the kernel watches for; `EPOLL_CTL_ADD` is for
descriptors that are not registered, `EPOLL_CTL_MOD` and `EPOLL_CTL_DEL` for
those that are. Whether a call follows the rules, is refused all the same or is
let through all the same is left to `answer`, one for each call.

Slots are a total function of the descriptor; an access outside the array is
recorded in `overrun`.
-/

/-- The callbacks the code registers for descriptors, and what else may stand in
memory that nothing was written to. -/
inductive EventCallbackProc where
  | processAcceptCallback
  | processRecvCallback
  | processSendCallback
  | wild (addr : ℕ)
  deriving DecidableEq, Repr

@[simp] def eventNone : BitVec 32 := 0

@[simp] def eventWritable : BitVec 32 := 1

@[simp] def eventReadable : BitVec 32 := 2

/-- `FdEvent`, the slot of a descriptor. -/
structure FdEvent where
  iMask : BitVec 32
  pFunEventCallbackWrite : Option EventCallbackProc
  pFunEventCallbackRead : Option EventCallbackProc
  pstArg : Option ConnPtr
  deriving DecidableEq, Repr

/-- A slot with nothing registered. -/
def FdEvent.zero : FdEvent := ⟨eventNone, none, none, none⟩

/-! ## The kernel -/

/-- The events of a `struct epoll_event` the code sets. -/
structure EpollEvents where
  epollin : Bool
  epollout : Bool
  deriving DecidableEq, Repr

/-- What the kernel knows of a descriptor. -/
inductive KernelFd where
  | closed
  | opened
  | registered (events : EpollEvents)
  deriving DecidableEq, Repr

/-- The operations of `epoll_ctl`. -/
inductive EpollOper where
  | add
  | mod
  | del
  deriving DecidableEq, Repr

/-- What becomes of a call: it follows the rules, fails for a reason of the
kernel's own, or is taken to succeed. -/
inductive EpollAnswer where
  | byRules
  | refused
  | granted
  deriving DecidableEq, Repr

/-- The descriptors and the epoll instance of a process. -/
structure Epoll where
  fd : ℤ → KernelFd
  answer : ℕ → EpollAnswer
  calls : ℕ
  /-- Whether a call has failed. -/
  failed : Bool

namespace KernelFd

/-- The rules of `epoll_ctl`. -/
def admits (k : KernelFd) : EpollOper → Bool
  | .add => k = opened
  | .mod | .del => match k with
    | registered _ => true
    | _ => false

/-- What a successful call makes of a descriptor. A closed one stays closed. -/
def set (k : KernelFd) (iOper : EpollOper) (events : EpollEvents) : KernelFd :=
  match k, iOper with
  | closed, _ => closed
  | _, .add | _, .mod => registered events
  | _, .del => opened

/-- The events the kernel watches for. -/
def events : KernelFd → EpollEvents
  | registered events => events
  | _ => ⟨false, false⟩

/-- Whether the descriptor is registered. -/
def isRegistered : KernelFd → Bool
  | registered _ => true
  | _ => false

end KernelFd

namespace Epoll

/-- The descriptor `fd` in the state `k`. -/
def setFd (e : Epoll) (fd : ℤ) (k : KernelFd) : Epoll :=
  { e with fd := Function.update e.fd fd k }

/-- `epoll_ctl`. -/
def ctl (e : Epoll) (iOper : EpollOper) (fd : ℤ) (events : EpollEvents) : Ret × Epoll :=
  let ok := match e.answer e.calls with
    | .byRules => (e.fd fd).admits iOper
    | .refused => false
    | .granted => true
  let e := { e with calls := e.calls + 1 }
  if ok then (Ret.succ, e.setFd fd ((e.fd fd).set iOper events))
  else (Ret.fail, { e with failed := true })

/-- A new open descriptor, as `accept` returns it. -/
def accept (e : Epoll) (fd : ℤ) : Epoll := e.setFd fd .opened

/-- `close`. -/
def close (e : Epoll) (fd : ℤ) : Epoll := e.setFd fd .closed

end Epoll

/-! ## The table -/

/-- The part of an `EventBase` that says which descriptors are watched. -/
structure EventTable where
  iFdEventArraySize : ℤ
  pstFdEventsArray : ℤ → FdEvent
  /-- The instance behind `iEpfd`. -/
  epoll : Epoll
  /-- Whether a slot outside the array was read or written. -/
  overrun : Bool

namespace EventTable

/-- The slot of `fd`. -/
def slot (t : EventTable) (fd : ℤ) : FdEvent := t.pstFdEventsArray fd

/-- Record an access to the slot of `fd`. -/
def access (t : EventTable) (fd : ℤ) : EventTable :=
  { t with overrun := t.overrun || !(decide (0 ≤ fd) && decide (fd < t.iFdEventArraySize)) }

/-- Write the slot of `fd`. -/
def setSlot (t : EventTable) (fd : ℤ) (ev : FdEvent) : EventTable :=
  { t with pstFdEventsArray := Function.update t.pstFdEventsArray fd ev }

end EventTable

/-- The events a mask stands for. -/
def epollEvents (iMask : BitVec 32) : EpollEvents where
  epollin := iMask &&& eventReadable != 0
  epollout := iMask &&& eventWritable != 0

/-- The end of `EventAdd` and `EventDel`: the slot of `fd` becomes `ev`, and the
kernel is told the events of its mask. -/
def EventTable.commit (t : EventTable) (fd : ℤ) (ev : FdEvent) (iOper : EpollOper) :
    Ret × EventTable :=
  let t := t.setSlot fd ev
  let (iRet, epoll) := t.epoll.ctl iOper fd (epollEvents ev.iMask)
  (iRet, { t with epoll := epoll })

/-- `FdFileEventInit`. It does not look at the size of the array. -/
def fdFileEventInit (t : EventTable) (t_iFd : ℤ) : EventTable :=
  (t.access t_iFd).setSlot t_iFd FdEvent.zero

/-- `EventAdd`. The bound lets one descriptor too many through. -/
def eventAdd (t : EventTable) (t_iFd : ℤ) (t_iEventMask : BitVec 32)
    (t_pEventCallbackProc : Option EventCallbackProc) (t_pstCallbackArg : Option ConnPtr) :
    Ret × EventTable :=
  if t_iFd > t.iFdEventArraySize then (Ret.fail, t)
  else
    let t := t.access t_iFd
    let pstFdEvent := t.slot t_iFd
    if pstFdEvent.iMask &&& t_iEventMask ≠ 0 then (Ret.succ, t)
    else
      let iOper := if pstFdEvent.iMask = eventNone then EpollOper.add else EpollOper.mod
      t.commit t_iFd
        { iMask := pstFdEvent.iMask ||| t_iEventMask
          pFunEventCallbackRead :=
            if t_iEventMask &&& eventReadable ≠ 0 then t_pEventCallbackProc
            else pstFdEvent.pFunEventCallbackRead
          pFunEventCallbackWrite :=
            if t_iEventMask &&& eventWritable ≠ 0 then t_pEventCallbackProc
            else pstFdEvent.pFunEventCallbackWrite
          pstArg := t_pstCallbackArg }
        iOper

/-- `EventDel`. It has the bound of `EventAdd`. -/
def eventDel (t : EventTable) (t_iFd : ℤ) (t_iEventMask : BitVec 32) : Ret × EventTable :=
  if t.iFdEventArraySize < t_iFd then (Ret.fail, t)
  else
    let t := t.access t_iFd
    let pstFdEvent := t.slot t_iFd
    if pstFdEvent.iMask = eventNone then (Ret.succ, t)
    else if pstFdEvent.iMask &&& t_iEventMask = 0 then (Ret.succ, t)
    else
      let iMask := pstFdEvent.iMask &&& ~~~t_iEventMask
      let iOper := if iMask = eventNone then EpollOper.del else EpollOper.mod
      t.commit t_iFd { pstFdEvent with iMask := iMask } iOper
