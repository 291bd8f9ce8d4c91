import TcpFrame.Comm

/-!
# The master and its workers

The process group of `main`: the master, which runs the loop that forks the workers and
waits for them, and its children, from the `fork` up to the `wait` that returns them. The
group is taken step by step, in any order the scheduler may choose: the master makes a
round of its loop, a child installs its own signal handler or ends, a `SIGTERM` is sent
from outside, or one that has been sent is delivered.

A child is born with the handler of the master, `ParentSigHandler`, and has it until
`main` gets to `signal(SIGTERM, ChildSigHandler)`: a `SIGTERM` that it handles before is
sent on to the whole group.

Both handlers call `LOG_ERROR` first. Where the signal interrupts `__print_log` between
the lock and the unlock of its mutex, this call waits for a lock that its own process
holds, and the handler never gets any further. Whether it does is a part of the input.

What `fork` and `wait` return is an input of a step. The process id of a child is not
`0`, which `fork` returns to the child itself.
-/

/-- Where a child is. -/
inductive ChildPhase where
  /-- From `fork` to `signal(SIGTERM, ChildSigHandler)`. -/
  | starting
  /-- From there on, in `ReactorEventDispatchLoop` for the most part. -/
  | serving
  /-- In a handler that waits for the mutex of its own log. -/
  | stuck
  /-- It has ended, and `wait` has not returned it yet. -/
  | zombie
  deriving DecidableEq, Repr

/-- A child of the master. -/
structure Child where
  pid : ℤ
  phase : ChildPhase
  /-- A `SIGTERM` was sent to it and has not been delivered. -/
  sigterm : Bool
  deriving DecidableEq, Repr

/-- What has become of the master. -/
inductive MasterFate where
  | running
  /-- In a handler that waits for the mutex of its own log. -/
  | stuck
  | exited (code : ℤ)
  deriving DecidableEq, Repr

/-- **The process group**: the master in its loop, with the variable of that, and the
children. -/
structure ProcessGroup where
  master : MasterFate
  /-- The number of workers that are yet to be forked. -/
  iWorkerCount : ℤ
  /-- A `SIGTERM` was sent to the master and has not been delivered. -/
  sigterm : Bool
  children : List Child
  deriving DecidableEq, Repr

/-- Where `main` enters the loop, with `atoi(argv[3])` for the number of workers. -/
def ProcessGroup.start (iWorkerCount : ℤ) : ProcessGroup where
  master := .running
  iWorkerCount := if iWorkerCount ≤ 0 then 1 else iWorkerCount
  sigterm := false
  children := []

/-- A signal is sent to a child. One that has ended does not notice. -/
def Child.signal (c : Child) : Child :=
  if c.phase = .zombie then c else { c with sigterm := true }

/-- A child ends. -/
def Child.exit (c : Child) : Child := { c with phase := .zombie }

/-- A child whose handler does not get past its log call. -/
def Child.wedge (c : Child) : Child := { c with phase := .stuck, sigterm := false }

namespace ProcessGroup

/-- What happens to the child `pid`. -/
def modify (g : ProcessGroup) (pid : ℤ) (f : Child → Child) : ProcessGroup :=
  { g with children := g.children.map (fun c => if c.pid = pid then f c else c) }

/-- The child `pid`. -/
def child (g : ProcessGroup) (pid : ℤ) : Option Child := g.children.find? (fun c => c.pid = pid)

/-- `kill(0, SIGTERM)`: the signal goes to every process of the group, the one that sends
it included. -/
def killGroup (g : ProcessGroup) : ProcessGroup :=
  { g with sigterm := true, children := g.children.map Child.signal }

/-- `ParentSigHandler` in the master, which may be `locked` in its log. -/
def parentSigHandler (g : ProcessGroup) (locked : Bool) : ProcessGroup :=
  if locked then { g with master := .stuck, sigterm := false }
  else { g.killGroup with master := .exited 0 }

/-- `ParentSigHandler` in a child. -/
def parentSigHandlerChild (g : ProcessGroup) (pid : ℤ) (locked : Bool) : ProcessGroup :=
  if locked then g.modify pid Child.wedge else g.killGroup.modify pid Child.exit

/-- `ChildSigHandler`. -/
def childSigHandler (g : ProcessGroup) (pid : ℤ) (locked : Bool) : ProcessGroup :=
  if locked then g.modify pid Child.wedge else g.modify pid Child.exit

/-- **A round of the loop in which a worker is forked**, by what `fork` returns to the
master: nothing, where it fails. -/
def forkRound (g : ProcessGroup) : Option ℤ → ProcessGroup
  | none => { g with master := .exited (-1) }
  | some iPid =>
    { g with
      iWorkerCount := g.iWorkerCount - 1
      children := g.children ++ [⟨iPid, .starting, false⟩] }

/-- **A round of the loop in which the master waits**, by what `wait` returns: a child
that has ended, or an error, with which the loop ends. -/
def waitRound (g : ProcessGroup) : Option ℤ → ProcessGroup
  | none => { g.killGroup with master := .exited 0 }
  | some iWaitPid =>
    { g with
      iWorkerCount := g.iWorkerCount + 1
      children := g.children.eraseP (fun c => c.pid = iWaitPid ∧ c.phase = .zombie) }

end ProcessGroup

/-- What happens in the group. -/
inductive GroupInput where
  /-- `fork` returns in the master. -/
  | fork (iPid : Option ℤ)
  /-- `wait` returns in the master. -/
  | wait (iWaitPid : Option ℤ)
  /-- Someone sends a `SIGTERM`, to a child or to the master. -/
  | kill (pid : Option ℤ)
  /-- A `SIGTERM` is delivered, to a child or to the master, which may be in the `locked`
  section of `__print_log`. -/
  | deliver (pid : Option ℤ) (locked : Bool)
  /-- A child comes to `signal(SIGTERM, ChildSigHandler)`. -/
  | install (pid : ℤ)
  /-- A child ends for a reason of its own. -/
  | exits (pid : ℤ)
  deriving DecidableEq, Repr

namespace ProcessGroup

/-- A `SIGTERM` is delivered to the child `c`. -/
def deliverChild (g : ProcessGroup) (locked : Bool) (c : Child) : Option ProcessGroup :=
  if c.sigterm then
    match c.phase with
    | .starting => some (g.parentSigHandlerChild c.pid locked)
    | .serving => some (g.childSigHandler c.pid locked)
    -- the signal is blocked in its own handler
    | .stuck => none
    | .zombie => none
  else none

/-- **One step of the group.** The master is where its loop is: it forks as long as
there are workers to be forked, and waits otherwise. -/
def step (g : ProcessGroup) : GroupInput → Option ProcessGroup
  | .fork iPid =>
    if g.master = .running ∧ g.iWorkerCount > 0 then some (g.forkRound iPid) else none
  | .wait iWaitPid =>
    if g.master = .running ∧ ¬ g.iWorkerCount > 0 then some (g.waitRound iWaitPid) else none
  | .kill none => if g.master = .running then some { g with sigterm := true } else none
  | .kill (some pid) => some (g.modify pid Child.signal)
  | .deliver none locked =>
    if g.master = .running ∧ g.sigterm = true then some (g.parentSigHandler locked) else none
  | .deliver (some pid) locked => (g.child pid).bind (g.deliverChild locked)
  | .install pid => some (g.modify pid (fun c =>
    if c.phase = .starting then { c with phase := .serving } else c))
  | .exits pid => some (g.modify pid Child.exit)

/-- **What the kernel does**: `fork` returns a process id that no child has, and `wait` a
child that has ended, or an error if there is no child. -/
def Kernel (g : ProcessGroup) : GroupInput → Prop
  | .fork (some iPid) => iPid ∉ g.children.map Child.pid
  | .wait none => g.children = []
  | .wait (some iWaitPid) => ∃ c ∈ g.children, c.pid = iWaitPid ∧ c.phase = .zombie
  | _ => True

instance (g : ProcessGroup) : ∀ input, Decidable (g.Kernel input)
  | .fork (some iPid) => inferInstanceAs (Decidable (iPid ∉ g.children.map Child.pid))
  | .fork none => inferInstanceAs (Decidable True)
  | .wait none => inferInstanceAs (Decidable (g.children = []))
  | .wait (some iWaitPid) =>
    inferInstanceAs (Decidable (∃ c ∈ g.children, c.pid = iWaitPid ∧ c.phase = .zombie))
  | .kill _ => inferInstanceAs (Decidable True)
  | .deliver _ _ => inferInstanceAs (Decidable True)
  | .install _ => inferInstanceAs (Decidable True)
  | .exits _ => inferInstanceAs (Decidable True)

end ProcessGroup
