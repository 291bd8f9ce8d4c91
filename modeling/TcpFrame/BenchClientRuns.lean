import TcpFrame.BenchClient
import TcpFrame.EventTableRuns
import TcpFrame.Lib.Run
import TcpFrame.Lib.SlotTable

/-!
# The benchmark client finds its clients

A client sits in the slot of its descriptor modulo the number of slots, and
nothing keeps two descriptors from having one slot, but the kernel: it gives
the lowest free descriptor, so that the descriptors of the clients, of which
there are never more than slots, stay in one window of that length.

The invariant is `Benchmark.Ok`. That the descriptors from the first one of the
clients on are open only if they are in a slot is what makes the lowest free one
the least that no slot holds, and the rest is the slot table's
(`SlotTable.ByResidue`). What the functions do to a client they keep is one
relation (`Benchmark.Sets`), since the slots, the counters and the other
descriptors stay as they are; the two functions that change the slots have a
rule each (`Benchmark.Ok.close` and `Benchmark.Ok.clientInit`).

The events of a batch are reported for descriptors that are registered when
`epoll_wait` returns. That they still are when they are handled is because
nothing that is done for one descriptor changes another one that is open
(`Benchmark.Spares`).
-/

variable {b b' b'' : Benchmark} {base fd : ℤ} {n i : ℕ} {m m' : BitVec 32} {k k' : KernelFd}
  {a : ClientAttempt}

namespace Benchmark

/-! ## Sound slots, and what the kernel may do -/

/-- The descriptors in the slots. -/
def slots (b : Benchmark) : SlotTable := fun i =>
  if (b.clientsPtr i).fd = fdarrayIndexInit then none else some (b.clientsPtr i).fd

/-- **The slots are sound**: no slot was found taken, `liveClientNum` is the number
of slots in use and was never decremented from zero, and the event that is handled
next is for the client in its slot. -/
structure Sound (b : Benchmark) : Prop where
  distinct : b.collided = false
  live : b.config.liveClientNum = ((Finset.range b.config.needClientNum).filter
    (fun i => (b.clientsPtr i).fd ≠ fdarrayIndexInit)).card
  bounded : b.config.liveClientNum ≤ b.config.needClientNum
  counted : b.underflowed = false
  found : ∀ e rest, b.phase = .handling (e :: rest) →
    (b.clientsPtr (b.slotIndex e.fd)).fd = e.fd

end Benchmark

/-- **What `epoll_wait` may report**: a descriptor that is registered, and the events
it is registered for. An error or a hang-up is reported in any case. -/
def Epoll.Reports (epoll : Epoll) (e : EpollEvent) : Prop :=
  (epoll.fd e.fd).isRegistered = true
    ∧ (e.epollin = true → (epoll.fd e.fd).events.epollin = true)
    ∧ (e.epollout = true → (epoll.fd e.fd).events.epollout = true)

instance (epoll : Epoll) (e : EpollEvent) : Decidable (epoll.Reports e) :=
  inferInstanceAs (Decidable (_ ∧ _ ∧ _))

/-- **A batch**: no descriptor is reported twice. -/
def Epoll.Batch (epoll : Epoll) (events : List EpollEvent) : Prop :=
  events.Pairwise (fun e e' => e.fd ≠ e'.fd) ∧ ∀ e ∈ events, epoll.Reports e

instance (epoll : Epoll) (events : List EpollEvent) : Decidable (epoll.Batch events) :=
  inferInstanceAs (Decidable (_ ∧ _))

/-- **What the kernel may do next.** -/
def Benchmark.Admits (b : Benchmark) : BenchInput → Prop
  | .wait _ events => b.epoll.Batch events
  | _ => True

instance (b : Benchmark) (input : BenchInput) : Decidable (b.Admits input) :=
  match input with
  | .wait _ events => inferInstanceAs (Decidable (b.epoll.Batch events))
  | .client _ => inferInstanceAs (Decidable True)
  | .event _ => inferInstanceAs (Decidable True)
  | .check => inferInstanceAs (Decidable True)

namespace Benchmark

/-! ## What is done to one client -/

/-- **What is done for `fd` spares the other descriptors** that are open, and leaves
the process where it is, or ends it. -/
structure Spares (fd : ℤ) (b b' : Benchmark) : Prop where
  kernel : ∀ g ≠ fd, b.epoll.fd g ≠ .closed → b'.epoll.fd g = b.epoll.fd g
  phase : b'.phase = b.phase ∨ b'.phase = .exited ∨ b'.phase = .undefined

theorem Spares.refl : b.Spares fd b := ⟨fun _ _ _ => rfl, Or.inl rfl⟩

theorem Spares.trans (h : b.Spares fd b') (h' : b'.Spares fd b'') : b.Spares fd b'' where
  kernel g hg hopen := by
    have hsame := h.kernel g hg hopen
    rw [h'.kernel g hg (hsame.symm ▸ hopen), hsame]
  phase := by
    rcases h'.phase with hphase | hover
    · rw [hphase]
      exact h.phase
    · exact Or.inr hover

/-- **Of all that counts, only the mask of the client in the slot `i` has changed**,
to `m`, and what the kernel knows of its descriptor, to `k`. -/
structure Sets (i : ℕ) (m : BitVec 32) (k : KernelFd) (b b' : Benchmark) : Prop where
  need : b'.config.needClientNum = b.config.needClientNum
  live : b'.config.liveClientNum = b.config.liveClientNum
  collided : b'.collided = b.collided
  underflowed : b'.underflowed = b.underflowed
  answer : b'.epoll.answer = b.epoll.answer
  phase : b'.phase = b.phase
  fds : ∀ j, (b'.clientsPtr j).fd = (b.clientsPtr j).fd
  mask : (b'.clientsPtr i).mask = m
  masks : ∀ j ≠ i, (b'.clientsPtr j).mask = (b.clientsPtr j).mask
  kernel : b'.epoll.fd = Function.update b.epoll.fd (b.clientsPtr i).fd k

theorem Sets.trans (h : Sets i m k b b') (h' : Sets i m' k' b' b'') : Sets i m' k' b b'' where
  need := h'.need.trans h.need
  live := h'.live.trans h.live
  collided := h'.collided.trans h.collided
  underflowed := h'.underflowed.trans h.underflowed
  answer := h'.answer.trans h.answer
  phase := h'.phase.trans h.phase
  fds j := (h'.fds j).trans (h.fds j)
  mask := h'.mask
  masks j hj := (h'.masks j hj).trans (h.masks j hj)
  kernel := by rw [h'.kernel, h.fds, h.kernel, Function.update_idem]

theorem Sets.spares (h : Sets i m k b b') : b.Spares (b.clientsPtr i).fd b' where
  kernel g hg _ := by rw [h.kernel, Function.update_of_ne hg]
  phase := Or.inl h.phase

/-- **Nothing that counts has changed.** -/
abbrev Like (i : ℕ) (b b' : Benchmark) : Prop :=
  Sets i (b.clientsPtr i).mask (b.epoll.fd (b.clientsPtr i).fd) b b'

theorem setClient_self {pclient : ClientFD} : (b.setClient i pclient).clientsPtr i = pclient :=
  Function.update_self ..

theorem setClient_of_ne {pclient : ClientFD} {j : ℕ} (hj : j ≠ i) :
    (b.setClient i pclient).clientsPtr j = b.clientsPtr j :=
  Function.update_of_ne hj ..

theorem setClient_fd {pclient : ClientFD} (hfd : pclient.fd = (b.clientsPtr i).fd) (j : ℕ) :
    ((b.setClient i pclient).clientsPtr j).fd = (b.clientsPtr j).fd := by
  by_cases hj : j = i
  · rw [hj, setClient_self, hfd]
  · rw [setClient_of_ne hj]

/-- The client in the slot `i` is another one but for its descriptor and its mask. -/
theorem like_setClient {pclient : ClientFD} (hfd : pclient.fd = (b.clientsPtr i).fd)
    (hmask : pclient.mask = (b.clientsPtr i).mask) : Like i b (b.setClient i pclient) where
  need := rfl
  live := rfl
  collided := rfl
  underflowed := rfl
  answer := rfl
  phase := rfl
  fds := setClient_fd hfd
  mask := by rw [setClient_self, hmask]
  masks j hj := by rw [setClient_of_ne hj]
  kernel := (Function.update_eq_self _ _).symm

theorem like_config {config : StatisticsStruct}
    (hneed : config.needClientNum = b.config.needClientNum)
    (hlive : config.liveClientNum = b.config.liveClientNum) :
    Like i b { b with config := config } where
  need := hneed
  live := hlive
  collided := rfl
  underflowed := rfl
  answer := rfl
  phase := rfl
  fds _ := rfl
  mask := rfl
  masks _ _ := rfl
  kernel := (Function.update_eq_self _ _).symm

/-- What is kept of the requests does not count. -/
theorem like_tally {latency : ℕ → ℕ} {tally : Tally} :
    Like i b { b with latency := latency, tally := tally } where
  need := rfl
  live := rfl
  collided := rfl
  underflowed := rfl
  answer := rfl
  phase := rfl
  fds _ := rfl
  mask := rfl
  masks _ _ := rfl
  kernel := (Function.update_eq_self _ _).symm

/-- Nor does what is remembered of the connections. -/
theorem like_hold {j : ℕ} {o : Option Opened} : Like i b (b.hold j o) where
  need := rfl
  live := rfl
  collided := rfl
  underflowed := rfl
  answer := rfl
  phase := rfl
  fds _ := rfl
  mask := rfl
  masks _ _ := rfl
  kernel := (Function.update_eq_self _ _).symm

/-- The call succeeds, where the kernel grants it. -/
theorem ctl_granted {op : EpollOper} {events : EpollEvents}
    (h : ∀ j, b.epoll.answer j = .granted) : b.ctl op fd events
      = (Ret.succ, { b with
          epoll := { b.epoll with
            calls := b.epoll.calls + 1
            fd := Function.update b.epoll.fd fd ((b.epoll.fd fd).set op events) } }) := by
  unfold ctl
  rw [Epoll.ctl_granted h]
  rfl

/-- The client in the slot `i` gets the mask `m`, and the kernel is told its events. -/
theorem sets_ctl (pclient : ClientFD) {op : EpollOper}
    (hanswer : ∀ j, b.epoll.answer j = .granted)
    (hfd : pclient.fd = (b.clientsPtr i).fd) (hmask : pclient.mask = m)
    (hk : (b.epoll.fd (b.clientsPtr i).fd).set op (clientEvents m) = k) :
    ((b.setClient i pclient).ctl op pclient.fd (clientEvents pclient.mask)).1 = Ret.succ
      ∧ Sets i m k b ((b.setClient i pclient).ctl op pclient.fd (clientEvents pclient.mask)).2 := by
  rw [ctl_granted (b := b.setClient i pclient) hanswer]
  refine ⟨rfl, rfl, rfl, rfl, rfl, rfl, rfl, setClient_fd hfd, ?_, fun j hj => ?_, ?_⟩
  · show ((b.setClient i pclient).clientsPtr i).mask = m
    rw [setClient_self, hmask]
  · show ((b.setClient i pclient).clientsPtr j).mask = (b.clientsPtr j).mask
    rw [setClient_of_ne hj]
  · rw [hfd, hmask, ← hk]
    rfl

end Benchmark

open Benchmark

/-- An open descriptor is registered after any call but a removal. -/
theorem KernelFd.set_of_ne_closed (h : k ≠ .closed) {op : EpollOper} {events : EpollEvents} :
    k.set op events = if op = .del then .opened else .registered events := by
  cases k with
  | closed => exact absurd rfl h
  | _ =>
    cases op with
    | _ => rfl

/-- **`ReactorAddEvent`** of one event adds it to the mask, and the kernel watches for
what the mask says. -/
theorem reactorAddEvent_sets (func : FuncProcCallback)
    (hanswer : ∀ j, b.epoll.answer j = .granted)
    (hopen : b.epoll.fd (b.clientsPtr i).fd ≠ .closed) (hm : m = readable ∨ m = writeable) :
    (reactorAddEvent b i m func).1 = Ret.succ
      ∧ Sets i ((b.clientsPtr i).mask ||| m)
          (.registered (clientEvents ((b.clientsPtr i).mask ||| m))) b
          (reactorAddEvent b i m func).2 := by
  have hset : ∀ events, (b.epoll.fd (b.clientsPtr i).fd).set
      (if (b.clientsPtr i).mask = enone then EpollOper.add else EpollOper.mod) events
      = .registered events := by
    intro events
    rw [KernelFd.set_of_ne_closed hopen]
    split
    · rfl
    · rfl
  unfold reactorAddEvent
  rcases hm with rfl | rfl
  · rw [if_neg (by decide), if_pos (by decide)]
    exact sets_ctl _ hanswer rfl rfl (hset _)
  · rw [if_pos (by decide)]
    exact sets_ctl _ hanswer rfl rfl (hset _)

/-- **`ReactorDelEvent`** removes an event from the mask, and the kernel watches for what
is left. -/
theorem reactorDelEvent_sets (hanswer : ∀ j, b.epoll.answer j = .granted)
    (hopen : b.epoll.fd (b.clientsPtr i).fd ≠ .closed) :
    Sets i ((b.clientsPtr i).mask &&& ~~~m)
      (if (b.clientsPtr i).mask &&& ~~~m = enone then .opened
        else .registered (clientEvents ((b.clientsPtr i).mask &&& ~~~m))) b
      (reactorDelEvent b i m).2 := by
  unfold reactorDelEvent
  refine (sets_ctl { b.clientsPtr i with mask := (b.clientsPtr i).mask &&& ~~~m } hanswer rfl rfl
    ?_).2
  show (b.epoll.fd (b.clientsPtr i).fd).set
    (if (b.clientsPtr i).mask &&& ~~~m = enone then EpollOper.del else EpollOper.mod) _ = _
  rw [KernelFd.set_of_ne_closed hopen]
  split
  · rfl
  · rfl

/-! ## The invariant -/

/-- **The client is watched**, for reading or for writing, as its mask says. -/
structure ClientFD.Watched (pclient : ClientFD) (k : KernelFd) : Prop where
  mask : pclient.mask = readable ∨ pclient.mask = writeable
  kernel : k = .registered (clientEvents pclient.mask)

namespace Benchmark

/-- **The invariant**, where the clients have `n` slots and their descriptors begin at
`base`: those below are open and not registered, those from there on are open only in
a slot, and what is in a slot is watched and has its residue. -/
structure Ok (base : ℤ) (n : ℕ) (b : Benchmark) : Prop where
  nonneg : 0 ≤ base
  need : b.config.needClientNum = n
  small : n < 2 ^ 32
  answer : ∀ j, b.epoll.answer j = .granted
  opened : ∀ g, 0 ≤ g → g < base → b.epoll.fd g ≠ .closed
  foreign : ∀ g < base, (b.epoll.fd g).isRegistered = false
  owned : ∀ g, base ≤ g → b.epoll.fd g ≠ .closed → b.slots.Holds n g
  residue : b.slots.ByResidue base n
  watched : ∀ j < n, ∀ g, b.slots j = some g → (b.clientsPtr j).Watched (b.epoll.fd g)
  live : b.config.liveClientNum = (b.slots.occupied n).card
  distinct : b.collided = false
  counted : b.underflowed = false

theorem slots_eq_some : b.slots i = some fd ↔ (b.clientsPtr i).fd = fd ∧ fd ≠ fdarrayIndexInit := by
  unfold slots
  split
  · next h =>
    rw [h]
    exact ⟨fun hsome => absurd hsome (by simp), fun hne => absurd hne.1.symm hne.2⟩
  · next h => exact ⟨fun hsome => ⟨Option.some.inj hsome, Option.some.inj hsome ▸ h⟩,
      fun hfd => congrArg some hfd.1⟩

theorem slots_eq_none : b.slots i = none ↔ (b.clientsPtr i).fd = fdarrayIndexInit := by
  unfold slots
  split
  · next h => exact ⟨fun _ => h, fun _ => rfl⟩
  · next h => exact ⟨fun hnone => absurd hnone (by simp), fun hfd => absurd hfd h⟩

theorem slots_congr (h : ∀ j, (b'.clientsPtr j).fd = (b.clientsPtr j).fd) : b'.slots = b.slots := by
  funext j
  unfold slots
  rw [h]

theorem slots_setClient {pclient : ClientFD} : (b.setClient i pclient).slots
    = Function.update b.slots i
        (if pclient.fd = fdarrayIndexInit then none else some pclient.fd) := by
  funext j
  unfold slots
  by_cases hj : j = i
  · rw [hj, Function.update_self, setClient_self]
  · rw [Function.update_of_ne hj, setClient_of_ne hj]

/-- A descriptor is in one slot. -/
theorem Ok.index_eq (h : Ok base n b) {j : ℕ} (hi : i < n) (hj : j < n)
    (hfd : b.slots i = some fd) (hfd' : b.slots j = some fd) : i = j := by
  rw [← h.residue.index hi hfd, h.residue.index hj hfd']

/-- What is in a slot is open. -/
theorem Ok.open_of_slot (h : Ok base n b) (hi : i < n) (hfd : b.slots i = some fd) :
    b.epoll.fd fd ≠ .closed := by
  rw [(h.watched i hi fd hfd).kernel]
  exact KernelFd.noConfusion

/-- The invariant is about what the process and the kernel remember of the clients. -/
theorem Ok.congr (h : Ok base n b) (hclients : b'.clientsPtr = b.clientsPtr)
    (hepoll : b'.epoll = b.epoll) (hneed : b'.config.needClientNum = b.config.needClientNum)
    (hlive : b'.config.liveClientNum = b.config.liveClientNum)
    (hcollided : b'.collided = b.collided) (hunderflowed : b'.underflowed = b.underflowed) :
    Ok base n b' := by
  have hslots : b'.slots = b.slots := slots_congr (fun j => by rw [hclients])
  refine ⟨h.nonneg, hneed.trans h.need, h.small, hepoll ▸ h.answer, hepoll ▸ h.opened,
    hepoll ▸ h.foreign, ?_, hslots ▸ h.residue, ?_, ?_, hcollided.trans h.distinct,
    hunderflowed.trans h.counted⟩
  · rw [hslots, hepoll]
    exact h.owned
  · rw [hslots, hclients, hepoll]
    exact h.watched
  · rw [hlive, hslots]
    exact h.live

/-- **A client gets another mask**, and the kernel watches for it. -/
theorem Ok.sets (h : Ok base n b) (hi : i < n) (hfd : b.slots i = some fd)
    (hm : m = readable ∨ m = writeable)
    (hs : Sets i m (.registered (clientEvents m)) b b') : Ok base n b' := by
  have hslots : b'.slots = b.slots := slots_congr hs.fds
  obtain ⟨hlo, -, -⟩ := h.residue i hi fd hfd
  have hkernel := hs.kernel
  rw [(slots_eq_some.mp hfd).1] at hkernel
  refine ⟨h.nonneg, hs.need.trans h.need, h.small, hs.answer ▸ h.answer, fun g hg hbase => ?_,
    fun g hg => ?_, fun g hg hopen => ?_, hslots ▸ h.residue, fun j hj g hg => ?_, ?_,
    hs.collided.trans h.distinct, hs.underflowed.trans h.counted⟩
  · rw [hkernel, Function.update_of_ne (by omega)]
    exact h.opened g hg hbase
  · rw [hkernel, Function.update_of_ne (by omega)]
    exact h.foreign g hg
  · rw [hslots]
    by_cases heq : g = fd
    · exact ⟨i, hi, heq ▸ hfd⟩
    · rw [hkernel, Function.update_of_ne heq] at hopen
      exact h.owned g hg hopen
  · rw [hslots] at hg
    by_cases heq : j = i
    · obtain rfl : fd = g := Option.some.inj (hfd.symm.trans (heq ▸ hg))
      rw [heq, hkernel, Function.update_self]
      exact ⟨hs.mask.symm ▸ hm, by rw [hs.mask]⟩
    · have hne : g ≠ fd := fun hgfd => heq (h.index_eq hj hi (hgfd ▸ hg) hfd)
      have hwatched := h.watched j hj g hg
      rw [hkernel, Function.update_of_ne hne]
      exact ⟨(hs.masks j heq).symm ▸ hwatched.mask, (hs.masks j heq).symm ▸ hwatched.kernel⟩
  · rw [hs.live, hslots]
    exact h.live

/-! ## Giving up a slot, and taking one -/

theorem uint32_of_lt {x : ℤ} (hlo : 0 ≤ x) (hhi : x < 2 ^ 32) : uint32 x = x.toNat := by
  unfold uint32
  rw [Int.emod_eq_of_lt hlo hhi]

/-- **`ReactorCloseConnection`** empties the slot, and closes the descriptor. -/
theorem reactorCloseConnection_eq (hanswer : ∀ j, b.epoll.answer j = .granted)
    (hfd : (b.clientsPtr i).fd = fd) : reactorCloseConnection b i
      = ({ ((b.setClient i { b.clientsPtr i with fd := fdarrayIndexInit }).hold i none).forget i
          with epoll := { b.epoll with
            calls := b.epoll.calls + 1
            fd := Function.update b.epoll.fd fd .closed } }).dropLive := by
  show (((((b.ctl .del (b.clientsPtr i).fd ⟨false, false⟩).2.close (b.clientsPtr i).fd).setClient i
    { b.clientsPtr i with fd := fdarrayIndexInit }).hold i none).forget i).dropLive = _
  rw [hfd, ctl_granted hanswer]
  unfold close Epoll.close Epoll.setFd
  rw [Function.update_idem]
  rfl

/-- **Giving up a slot** keeps the invariant, and leaves one slot empty. -/
theorem Ok.close (h : Ok base n b) (hi : i < n) (hfd : b.slots i = some fd) :
    Ok base n (reactorCloseConnection b i)
      ∧ (reactorCloseConnection b i).config.liveClientNum < n
      ∧ b.Spares fd (reactorCloseConnection b i) := by
  obtain ⟨hlo, -, -⟩ := h.residue i hi fd hfd
  have hcard := SlotTable.card_occupied_drop (t := b.slots) hi
    (by rw [hfd]; exact Option.some_ne_none fd)
  have hle := SlotTable.card_occupied_le (t := b.slots) (n := n)
  have hlive := h.live
  have hsmall := h.small
  rw [reactorCloseConnection_eq h.answer (slots_eq_some.mp hfd).1]
  set b' := dropLive _ with hb'
  have hslots : b'.slots = Function.update b.slots i none := slots_setClient
  have hkernel : b'.epoll.fd = Function.update b.epoll.fd fd .closed := rfl
  have hlive' : b'.config.liveClientNum = (b'.slots.occupied n).card := by
    show uint32 (b.config.liveClientNum - 1) = _
    rw [uint32_of_lt (by omega) (by omega), hslots]
    omega
  refine ⟨⟨h.nonneg, h.need, hsmall, h.answer, fun g hg hbase => ?_, fun g hg => ?_,
    fun g hg hopen => ?_, ?_, fun j hj g hg => ?_, hlive', h.distinct, ?_⟩, ?_,
    fun g hg _ => ?_, Or.inl rfl⟩
  · rw [hkernel, Function.update_of_ne (by omega)]
    exact h.opened g hg hbase
  · rw [hkernel, Function.update_of_ne (by omega)]
    exact h.foreign g hg
  · have hne : g ≠ fd := fun heq => hopen (by rw [hkernel, heq, Function.update_self])
    rw [hkernel, Function.update_of_ne hne] at hopen
    rw [hslots]
    exact (h.owned g hg hopen).drop hfd hne
  · rw [hslots]
    exact h.residue.drop
  · rw [hslots] at hg
    obtain ⟨hij, hg⟩ := PartialMap.update_none_eq_some.mp hg
    have hne : g ≠ fd := fun heq => hij (h.index_eq hj hi (heq ▸ hg) hfd)
    have hclient : b'.clientsPtr j = b.clientsPtr j := setClient_of_ne hij
    rw [hkernel, Function.update_of_ne hne, hclient]
    exact h.watched j hj g hg
  · show (b.underflowed || decide (b.config.liveClientNum = 0)) = false
    rw [h.counted, Bool.false_or, decide_eq_false_iff_not]
    omega
  · rw [hlive', hslots]
    omega
  · rw [hkernel, Function.update_of_ne hg]

theorem lowestFree_eq_some {epoll : Epoll} {limit g : ℕ} (h : epoll.lowestFree limit = some g) :
    epoll.fd g = .closed ∧ ∀ j : ℕ, j < g → epoll.fd j ≠ .closed := by
  obtain ⟨hclosed, -, hopen⟩ := List.find?_range_eq_some.mp h
  refine ⟨of_decide_eq_true hclosed, fun j hj hfree => ?_⟩
  have hno := hopen j hj
  rw [decide_eq_true hfree] at hno
  exact absurd hno (by decide)

/-- A descriptor that is given back is as if it had not been taken. -/
theorem close_accept (h : b.epoll.fd fd = .closed) :
    ({ b with epoll := b.epoll.accept fd } : Benchmark).close fd = b := by
  have hepoll : (b.epoll.accept fd).close fd = b.epoll := by
    unfold Epoll.accept Epoll.close Epoll.setFd
    rw [Function.update_idem, Function.update_eq_self_iff.mpr h.symm]
  unfold close
  rw [hepoll]

/-- **The lowest free descriptor fits**: it is in the window of the clients, no slot holds
it, and its slot is empty. -/
theorem Ok.lowestFree (h : Ok base n b) (hlive : b.config.liveClientNum < n) {g : ℕ}
    (hg : b.epoll.lowestFree b.limit = some g) :
    b.epoll.fd g = .closed ∧ base ≤ g ∧ (g : ℤ) < base + n ∧ b.slots (b.slotIndex g) = none := by
  obtain ⟨hclosed, hleast⟩ := lowestFree_eq_some hg
  have hlo : base ≤ g := by
    by_contra hlt
    exact h.opened g (by omega) (by omega) hclosed
  have hhi : (g : ℤ) < base + n := by
    refine h.residue.least_lt (SlotTable.exists_empty (h.live ▸ hlive)) (fun k hk hkg => ?_)
    obtain ⟨j, rfl⟩ := Int.eq_ofNat_of_zero_le (h.nonneg.trans hk)
    exact h.owned j hk (hleast j (by omega))
  have hnot : ¬ b.slots.Holds n g := by
    rintro ⟨j, hj, hjg⟩
    exact h.open_of_slot hj hjg hclosed
  have hempty := h.residue.empty_of_not_holds hlo hhi hnot
  unfold slotIndex
  rw [h.need]
  exact ⟨hclosed, hlo, hhi, hempty⟩

/-- The state `ReactorClientInit` registers the descriptor `g` in: it is open, and in the
slot `i`. -/
def takenWith (encode : List UInt8 → ℤ × List UInt8) (b : Benchmark) (i g : ℕ) : Benchmark :=
  { b with epoll := b.epoll.accept g }.setClient i
    { b.clientsPtr i with
      fd := g
      mask := enone
      sendBufLen := uint32 (encode (b.clientsPtr i).sendBuf).1
      sendBuf := (encode (b.clientsPtr i).sendBuf).2
      sendedLen := 0
      recvBufLen := 0 }

/-- The same with `EncodeRequest`. -/
def taken (b : Benchmark) (i g : ℕ) : Benchmark :=
  b.takenWith (fun data =>
    (encodeRequest (maxSendBufLen + 1), encodedRequest data (maxSendBufLen + 1))) i g

/-- The state after that, where the descriptor was registered. -/
def joined (b : Benchmark) (i : ℕ) : Benchmark :=
  { b.hold i (some ⟨b.usec, false, []⟩) with config := { b.config with
    liveClientNum := uint32 (b.config.liveClientNum + 1)
    createClientNum := uint32 (b.config.createClientNum + 1) } }

/-- **The attempt gets to the slots**, with the descriptor `g`. -/
structure Reaches (b : Benchmark) (a : ClientAttempt) (g : ℕ) : Prop where
  socket : a.socket = true
  free : b.epoll.lowestFree b.limit = some g
  nonblock : a.nonblock = true
  connect : a.connect = true
  nodelay : b.config.protocol = .tcp → a.nodelay = true

/-- **What `ReactorClientInit` comes to**: it fails and leaves nothing, it finds the slot
taken, or it takes the slot and registers the descriptor, or tries to. -/
theorem reactorClientInitWith_cases (encode : List UInt8 → ℤ × List UInt8) (b : Benchmark)
    (a : ClientAttempt) :
    reactorClientInitWith encode b a = (Ret.fail, b) ∧ (∀ g, ¬ b.Reaches a g)
      ∨ ∃ g, b.Reaches a g
        ∧ ((b.clientsPtr (b.slotIndex g)).fd ≠ fdarrayIndexInit
            ∧ reactorClientInitWith encode b a = (Ret.fail, { b with collided := true })
          ∨ (b.clientsPtr (b.slotIndex g)).fd = fdarrayIndexInit
            ∧ ∃ iRet b', reactorAddEvent (b.takenWith encode (b.slotIndex g) g) (b.slotIndex g)
                writeable .sendToServerCallback = (iRet, b')
              ∧ (iRet = .fail ∧ reactorClientInitWith encode b a = (Ret.fail, b'.close g)
                ∨ iRet = .succ
                  ∧ reactorClientInitWith encode b a = (Ret.succ, b'.joined (b.slotIndex g)))) := by
  generalize hr : reactorClientInitWith encode b a = r
  unfold reactorClientInitWith at hr
  split at hr
  · next hnone =>
    refine Or.inl ⟨hr.symm, fun g hg => ?_⟩
    rw [if_pos hg.socket, hg.free] at hnone
    exact absurd hnone (by simp)
  · next g hg =>
    have hsocket : a.socket = true ∧ b.epoll.lowestFree b.limit = some g := by
      split at hg
      · next hsocket => exact ⟨hsocket, hg⟩
      · exact absurd hg (by simp)
    obtain ⟨hsocket, hfree⟩ := hsocket
    extract_lets b₁ i back _ _ pclient at hr
    have hback : b₁.close g = b := close_accept (lowestFree_eq_some hfree).1
    have hback' : back = b := hback
    rw [hback] at hr
    split at hr
    · next hnonblock =>
      refine Or.inl ⟨hr.symm, fun g' hg' => ?_⟩
      rw [hg'.nonblock] at hnonblock
      exact absurd hnonblock (by decide)
    next hnonblock =>
    split at hr
    · next hconnect =>
      refine Or.inl ⟨hr.symm, fun g' hg' => ?_⟩
      rw [hg'.connect] at hconnect
      exact absurd hconnect (by decide)
    next hconnect =>
    split at hr
    · next hnodelay =>
      refine Or.inl ⟨hr.symm, fun g' hg' => ?_⟩
      rw [hg'.nodelay hnodelay.1] at hnodelay
      exact absurd hnodelay.2 (by decide)
    next hnodelay =>
    have hreaches : b.Reaches a g := by
      refine ⟨hsocket, hfree, ?_, ?_, fun htcp => ?_⟩
      · simpa using hnonblock
      · simpa using hconnect
      · simpa using fun h => hnodelay ⟨htcp, h⟩
    refine Or.inr ⟨g, hreaches, ?_⟩
    split at hr
    · next htaken =>
      rw [hback'] at hr
      exact Or.inl ⟨htaken, hr.symm⟩
    next hempty =>
    refine Or.inr ⟨not_not.mp hempty, ?_⟩
    rw [if_neg (Nat.not_lt_zero _)] at hr
    split at hr
    · next b' hadd => exact ⟨.fail, b', hadd, Or.inl ⟨rfl, hr.symm⟩⟩
    · next b' hadd => exact ⟨.succ, b', hadd, Or.inr ⟨rfl, hr.symm⟩⟩

theorem taken_fd {g : ℕ} : ((b.taken i g).clientsPtr i).fd = g :=
  congrArg ClientFD.fd setClient_self

theorem slots_taken {g : ℕ} :
    (b.taken i g).slots = Function.update b.slots i (some (g : ℤ)) := by
  refine slots_setClient.trans ?_
  rw [if_neg (show ¬ (g : ℤ) = fdarrayIndexInit by unfold fdarrayIndexInit; omega)]
  rfl

/-- **`ReactorClientInit` changes nothing, or puts the lowest free descriptor into its
slot**, which it finds empty. -/
theorem reactorClientInit_cases (h : Ok base n b) (hlive : b.config.liveClientNum < n) :
    (reactorClientInit b a).2 = b
      ∨ ∃ g b', b.epoll.lowestFree b.limit = some g
        ∧ Sets (b.slotIndex g) writeable (.registered (clientEvents writeable))
            (b.taken (b.slotIndex g) g) b'
        ∧ (reactorClientInit b a).2 = b'.joined (b.slotIndex g) := by
  obtain ⟨hfail, -⟩ | ⟨g, hreaches, ⟨htaken, -⟩ | ⟨-, iRet, b', hadd, hcases⟩⟩ :=
    reactorClientInitWith_cases (fun data =>
      (encodeRequest (maxSendBufLen + 1), encodedRequest data (maxSendBufLen + 1))) b a
  · exact Or.inl (congrArg Prod.snd hfail)
  · obtain ⟨-, -, -, hempty⟩ := h.lowestFree hlive hreaches.free
    exact absurd (slots_eq_none.mp hempty) htaken
  · -- from here on nothing fails
    set i := b.slotIndex g
    have hkernel : (b.taken i g).epoll.fd g = .opened := Function.update_self ..
    obtain ⟨hret, hsets⟩ := reactorAddEvent_sets (b := b.taken i g) (i := i)
      .sendToServerCallback h.answer
      (by rw [taken_fd, hkernel]; exact KernelFd.noConfusion) (Or.inr rfl)
    have hmask : ((b.taken i g).clientsPtr i).mask = enone :=
      congrArg ClientFD.mask setClient_self
    rw [hmask] at hsets
    have hadd' : reactorAddEvent (b.taken i g) i writeable .sendToServerCallback = (iRet, b') := hadd
    rw [hadd'] at hret hsets
    refine Or.inr ⟨g, b', hreaches.free, hsets, ?_⟩
    obtain ⟨hfail, -⟩ | ⟨-, heq⟩ := hcases
    · exact absurd (hret.symm.trans hfail) (by decide)
    · exact congrArg Prod.snd heq

/-- **Taking a slot** keeps the invariant. -/
theorem Ok.clientInit (h : Ok base n b) (hlive : b.config.liveClientNum < n) (fd : ℤ) :
    Ok base n (reactorClientInit b a).2 ∧ b.Spares fd (reactorClientInit b a).2 := by
  obtain heq | ⟨g, b', hg, hs, heq⟩ := reactorClientInit_cases (a := a) h hlive
  · rw [heq]
    exact ⟨h, Spares.refl⟩
  obtain ⟨hclosed, hlo, hhi, hempty⟩ := h.lowestFree hlive hg
  rw [heq]
  set i := b.slotIndex g with hi
  have hindex : i = ((g : ℤ) % n).toNat := by
    rw [hi, ← h.need]
    rfl
  have hin : i < n := by
    have hmod := Int.emod_lt_of_pos (g : ℤ) (show (0 : ℤ) < n by omega)
    omega
  have hslots : b'.slots = Function.update b.slots i (some (g : ℤ)) := by
    rw [slots_congr hs.fds, slots_taken]
  have hkernel : b'.epoll.fd
      = Function.update b.epoll.fd g (.registered (clientEvents writeable)) := by
    rw [hs.kernel, taken_fd]
    exact Function.update_idem ..
  have hcard := SlotTable.card_occupied_put (a := g) hin hempty
  have hlive' : uint32 (b'.config.liveClientNum + 1) = (b'.slots.occupied n).card := by
    have hsame : b'.config.liveClientNum = b.config.liveClientNum := hs.live
    have hcount := h.live
    have hsmall := h.small
    rw [hsame, uint32_of_lt (by omega) (by omega), hslots]
    omega
  refine ⟨⟨h.nonneg, hs.need.trans h.need, h.small, hs.answer ▸ h.answer, fun f hf hbase => ?_,
    fun f hf => ?_, fun f hf hopen => ?_, ?_, fun j hj f hf => ?_, hlive',
    hs.collided.trans h.distinct, hs.underflowed.trans h.counted⟩, fun f _ hopen => ?_,
    Or.inl hs.phase⟩
  · show b'.epoll.fd f ≠ .closed
    rw [hkernel, Function.update_of_ne (by omega)]
    exact h.opened f hf hbase
  · show (b'.epoll.fd f).isRegistered = false
    rw [hkernel, Function.update_of_ne (by omega)]
    exact h.foreign f hf
  · show b'.slots.Holds n f
    rw [hslots]
    by_cases hfg : f = g
    · exact ⟨i, hin, by rw [hfg, Function.update_self]⟩
    · have hopen : b'.epoll.fd f ≠ .closed := hopen
      rw [hkernel, Function.update_of_ne hfg] at hopen
      exact (h.owned f hf hopen).put hempty
  · show b'.slots.ByResidue base n
    rw [hslots, hindex]
    exact h.residue.put hlo hhi
  · show (b'.clientsPtr j).Watched (b'.epoll.fd f)
    have hf : b'.slots j = some f := hf
    rw [hslots] at hf
    obtain ⟨rfl, rfl⟩ | ⟨hij, hf⟩ := PartialMap.update_some_eq_some.mp hf
    · rw [hkernel, Function.update_self]
      exact ⟨Or.inr hs.mask, by rw [hs.mask]⟩
    · have hne : f ≠ g := fun hfg => h.open_of_slot hj hf (hfg ▸ hclosed)
      have hclient : (b.taken i g).clientsPtr j = b.clientsPtr j := setClient_of_ne hij
      have hwatched := h.watched j hj f hf
      have hmask := hs.masks j hij
      rw [hclient] at hmask
      rw [hkernel, Function.update_of_ne hne]
      exact ⟨hmask.symm ▸ hwatched.mask, hmask.symm ▸ hwatched.kernel⟩
  · have hne : f ≠ g := fun hfg => hopen (hfg ▸ hclosed)
    show b'.epoll.fd f = b.epoll.fd f
    rw [hkernel, Function.update_of_ne hne]

/-! ## The callbacks -/

/-- **What has been done for the client in the slot `i`** since the state `b`, in the
state `b'` where the client is still there. -/
structure Holding (base : ℤ) (n i : ℕ) (fd : ℤ) (b b' : Benchmark) : Prop where
  index : i < n
  ok : Ok base n b'
  client : b'.slots i = some fd
  spares : b.Spares fd b'

theorem Holding.refl (h : Ok base n b) (hi : i < n) (hfd : b.slots i = some fd) :
    Holding base n i fd b b :=
  ⟨hi, h, hfd, Spares.refl⟩

theorem Holding.sets (h : Holding base n i fd b b') (hm : m = readable ∨ m = writeable)
    (hs : Sets i m (.registered (clientEvents m)) b' b'') : Holding base n i fd b b'' where
  index := h.index
  ok := h.ok.sets h.index h.client hm hs
  client := by rw [slots_congr hs.fds, h.client]
  spares := by
    have hspares := hs.spares
    rw [(slots_eq_some.mp h.client).1] at hspares
    exact h.spares.trans hspares

theorem Holding.like (h : Holding base n i fd b b') (hs : Like i b' b'') :
    Holding base n i fd b b'' := by
  have hwatched := h.ok.watched i h.index fd h.client
  unfold Like at hs
  rw [(slots_eq_some.mp h.client).1, hwatched.kernel] at hs
  exact h.sets hwatched.mask hs

/-- **The client is watched for the other event**: one is removed, then one is added. -/
theorem Holding.swap (h : Holding base n i fd b b') (func : FuncProcCallback)
    (hm : m = readable ∧ m' = writeable ∨ m = writeable ∧ m' = readable) :
    Holding base n i fd b (reactorAddEvent (reactorDelEvent b' i m').2 i m func).2 := by
  have hfd := (slots_eq_some.mp h.client).1
  have hmask : (b'.clientsPtr i).mask &&& ~~~m' ||| m = m := by
    rcases (h.ok.watched i h.index fd h.client).mask with hold | hold <;>
      rcases hm with ⟨rfl, rfl⟩ | ⟨rfl, rfl⟩ <;> rw [hold] <;> rfl
  have hm : m = readable ∨ m = writeable := hm.imp And.left And.left
  have hdel := reactorDelEvent_sets (m := m') h.ok.answer
    (by rw [hfd]; exact h.ok.open_of_slot h.index h.client)
  have hopen : (reactorDelEvent b' i m').2.epoll.fd
      ((reactorDelEvent b' i m').2.clientsPtr i).fd ≠ .closed := by
    rw [hdel.fds, hdel.kernel, Function.update_self]
    split
    · exact KernelFd.noConfusion
    · exact KernelFd.noConfusion
  have hadd := (reactorAddEvent_sets func (hdel.answer ▸ h.ok.answer) hopen hm).2
  rw [hdel.mask, hmask] at hadd
  exact h.sets hm (hdel.trans hadd)

/-- **`ReactorResetClient`** keeps the client. -/
theorem Holding.reset (h : Holding base n i fd b b') :
    Holding base n i fd b (reactorResetClient b' i) := by
  have hswap := h.swap .sendToServerCallback (Or.inr ⟨rfl, rfl⟩)
  unfold reactorResetClient
  extract_lets b₁ b₂ _ b₃ resetClientNum _ pclient b₄
  have h₃ : Holding base n i fd b b₃ := hswap.like (like_setClient rfl rfl)
  have h₄ : Holding base n i fd b b₄ := h₃.like (like_setClient rfl rfl)
  split
  · rw [if_neg (Nat.not_lt_zero _)]
    exact h₄.like (like_config rfl rfl)
  · exact h₃.like (like_config rfl rfl)

/-- **What has been done for the descriptor `fd`** since the state `b`, in the state
`b'`. -/
structure Keeps (base : ℤ) (n : ℕ) (fd : ℤ) (b b' : Benchmark) : Prop where
  ok : Ok base n b'
  spares : b.Spares fd b'

theorem Holding.keeps (h : Holding base n i fd b b') : Keeps base n fd b b' := ⟨h.ok, h.spares⟩

/-- The process ends. -/
theorem Holding.over (h : Holding base n i fd b b') {p : BenchPhase}
    (hp : p = .exited ∨ p = .undefined) : Keeps base n fd b { b' with phase := p } where
  ok := h.ok.congr rfl rfl rfl rfl rfl rfl
  spares := h.spares.trans ⟨fun _ _ _ => rfl, Or.inr hp⟩

/-- **The client is given up, and another one is opened.** -/
theorem Holding.reconnect (h : Holding base n i fd b b') :
    Keeps base n fd b (reconnect b' i a) := by
  obtain ⟨hok, hlive, hclose⟩ := h.ok.close h.index h.client
  obtain ⟨hok', hinit⟩ := hok.clientInit (a := a) hlive fd
  exact ⟨hok', h.spares.trans (hclose.trans hinit)⟩

theorem Holding.closeNormal (h : Holding base n i fd b b') :
    Keeps base n fd b (reactorCloseConnectionNormal b' i a) := by
  unfold reactorCloseConnectionNormal
  split
  · exact ⟨h.ok.congr rfl rfl rfl rfl rfl rfl,
      h.spares.trans ⟨fun _ _ _ => rfl, Or.inl rfl⟩⟩
  split
  · exact h.reset.keeps
  · exact h.reconnect

/-- **`SendToServerCallback`.** -/
theorem Holding.sendToServer (h : Holding base n i fd b b') {writes : List WriteOutcome} :
    Keeps base n fd b (sendToServerCallback b' i writes a) := by
  unfold sendToServerCallback
  extract_lets asking pclient timed touched b₁ _ b₂
  have hfd : timed.fd = pclient.fd := (apply_ite ClientFD.fd ..).trans (ite_self _)
  have hmask : timed.mask = pclient.mask := (apply_ite ClientFD.mask ..).trans (ite_self _)
  have hasking : Holding base n i fd b asking := h.like like_tally
  have h₀ : Holding base n i fd b (asking.setClient i touched) :=
    hasking.like (like_setClient hfd hmask)
  have h₁ : Holding base n i fd b b₁ := h₀.like like_hold
  split
  · exact h₁.keeps
  · exact h₁.reconnect
  · have h₂ : Holding base n i fd b b₂ := h₁.like (like_config rfl rfl)
    have hclient : b₂.clientsPtr i = touched := setClient_self
    extract_lets b₃ sent b₄
    have h₃ : Holding base n i fd b b₃ := h₂.like like_hold
    have h₄ : Holding base n i fd b b₄ :=
      h₃.like (like_setClient (congrArg ClientFD.fd hclient).symm
        (congrArg ClientFD.mask hclient).symm)
    split
    · exact (h₄.swap .recvFromServerCallback (Or.inl ⟨rfl, rfl⟩)).keeps
    · exact h₄.keeps

/-- **`RecvFromServerCallback`.** -/
theorem Holding.recvFromServer (h : Holding base n i fd b b') {reads : List ReadOutcome} :
    Keeps base n fd b (recvFromServerCallback b' i reads a) := by
  unfold recvFromServerCallback
  extract_lets hearing touched pclient timed b₁
  have hfd : timed.fd = pclient.fd := (apply_ite ClientFD.fd ..).trans (ite_self _)
  have hmask : timed.mask = pclient.mask := (apply_ite ClientFD.mask ..).trans (ite_self _)
  have hhearing : Holding base n i fd b hearing := h.like like_tally
  have h₀ : Holding base n i fd b (hearing.setClient i timed) :=
    hhearing.like (like_setClient hfd hmask)
  have h₁ : Holding base n i fd b b₁ := h₀.like like_hold
  have hclient : b₁.clientsPtr i = timed := setClient_self
  split
  · exact h₁.keeps
  · exact h₁.reconnect
  · extract_lets received b₂ b₃
    have h₂ : Holding base n i fd b b₂ :=
      h₁.like (like_setClient (congrArg ClientFD.fd hclient).symm
        (congrArg ClientFD.mask hclient).symm)
    split
    · exact h₂.over (Or.inl rfl)
    -- the response is never refused, and always complete
    rw [if_neg (by decide), if_neg (by decide)]
    refine Holding.closeNormal ?_
    unfold b₃
    split
    · have hcount : Like i b₂ { b₂ with config := { b₂.config with
          doneRequests := b₂.config.doneRequests + 1 } } := like_config rfl rfl
      exact (h₂.like hcount).like like_tally
    · exact h₂

/-- **A call from the batch loop.** -/
theorem Holding.call (h : Holding base n i fd b b') {func : Option FuncProcCallback}
    {reads : List ReadOutcome} {writes : List WriteOutcome} :
    Keeps base n fd b (b'.call i func reads writes a) := by
  unfold Benchmark.call
  split
  · exact h.over (Or.inr rfl)
  · exact h.sendToServer
  · exact h.recvFromServer

/-! ## The batch -/

section Batch

variable {e : EpollEvent} {rest : List EpollEvent}

/-- **A reported event is for the client in its slot.** -/
theorem Ok.find (h : Ok base n b) (he : b.epoll.Reports e) :
    b.slotIndex e.fd < n ∧ b.slots (b.slotIndex e.fd) = some e.fd := by
  have hlo : base ≤ e.fd := by
    by_contra hlt
    rw [Epoll.Reports, h.foreign e.fd (by omega)] at he
    exact absurd he.1 (by decide)
  have hopen : b.epoll.fd e.fd ≠ .closed := by
    intro hclosed
    rw [Epoll.Reports, hclosed] at he
    exact absurd he.1 (by decide)
  unfold slotIndex
  rw [h.need]
  exact h.residue.find (h.owned e.fd hlo hopen)

/-- **An event is for reading or for writing**, as the client is watched for one of them. -/
theorem Ok.one_direction (h : Ok base n b) (he : b.epoll.Reports e) (hin : e.epollin = true) :
    e.epollout = false := by
  obtain ⟨hi, hfd⟩ := h.find he
  have hwatched := h.watched _ hi e.fd hfd
  rw [Bool.eq_false_iff]
  intro hout
  have hread := he.2.1 hin
  have hwrite := he.2.2 hout
  rw [hwatched.kernel] at hread hwrite
  rcases hwatched.mask with hmask | hmask
  · rw [hmask] at hwrite
    exact absurd hwrite (by decide)
  · rw [hmask] at hread
    exact absurd hread (by decide)

/-- **The rest of a batch is still to be reported** after what was done for one event. -/
theorem Spares.batch (h : b.Spares e.fd b') (hbatch : b.epoll.Batch (e :: rest)) :
    b'.epoll.Batch rest := by
  obtain ⟨hpair, hall⟩ := hbatch
  obtain ⟨hne, hpair⟩ := List.pairwise_cons.mp hpair
  refine ⟨hpair, fun e' he' => ?_⟩
  have hreports := hall e' (List.mem_cons_of_mem e he')
  have hopen : b.epoll.fd e'.fd ≠ .closed := by
    intro hclosed
    rw [Epoll.Reports, hclosed] at hreports
    exact absurd hreports.1 (by decide)
  unfold Epoll.Reports
  rw [h.kernel e'.fd (hne e' he').symm hopen]
  exact hreports

/-- **A round of the batch loop** does something for the descriptor of its event. -/
theorem Ok.handle (h : Ok base n b) (rest : List EpollEvent) (io : ClientIO)
    (he : b.epoll.Reports e) :
    Keeps base n e.fd { b with phase := .handling rest } (handleEvent b e rest io) := by
  have hone := h.one_direction he
  unfold handleEvent
  extract_lets b₁ i b₂ b₃
  have hok : Ok base n b₁ := h.congr rfl rfl rfl rfl rfl rfl
  obtain ⟨hi, hfd⟩ := hok.find (e := e) he
  have h₁ : Holding base n i e.fd b₁ b₁ := Holding.refl hok hi hfd
  split
  · have h₂ : Holding base n i e.fd b₁ b₂ :=
      ⟨hi, hok.congr rfl rfl rfl rfl rfl rfl, hfd, fun _ _ _ => rfl, Or.inl rfl⟩
    split
    · exact h₂.over (Or.inl rfl)
    · exact h₂.reconnect
  · by_cases hin : e.epollin = true
    · have hcall : Keeps base n e.fd b₁ b₃ := by
        unfold b₃
        rw [if_pos hin]
        exact h₁.call
      split
      · exact hcall
      · rw [hone hin]
        exact hcall
    · have hsame : b₃ = b₁ := if_neg hin
      have h₃ : Holding base n i e.fd b₁ b₃ := hsame.symm ▸ h₁
      split
      · exact h₃.keeps
      split
      · exact h₃.call
      · exact h₃.keeps

end Batch

/-! ## Steps -/

/-- **The invariant, and where the process is**: a client is only opened while a slot is
empty, and the rest of a batch is as `epoll_wait` could report it now. -/
structure Runs (base : ℤ) (n : ℕ) (b : Benchmark) : Prop where
  ok : Ok base n b
  live : b.phase = .creating ∨ b.phase = .refilling → b.config.liveClientNum < n
  batch : ∀ events, b.phase = .handling events → b.epoll.Batch events

/-- The invariant does not depend on where the process is. -/
theorem Ok.runs (h : Ok base n b) {p : BenchPhase} (hphase : b.phase = p)
    (hp : p = .waiting ∨ p = .finished ∨ p = .exited ∨ p = .undefined) : Runs base n b where
  ok := h
  live hopening := by
    rw [hphase] at hopening
    rcases hp with rfl | rfl | rfl | rfl <;> exact absurd hopening (by decide)
  batch events hhandling := by
    rw [hphase] at hhandling
    rcases hp with rfl | rfl | rfl | rfl <;> exact absurd hhandling BenchPhase.noConfusion

theorem Ok.loop (h : Ok base n b) : Runs base n b.loop := by
  unfold Benchmark.loop
  split
  · exact Ok.runs (h.congr rfl rfl rfl rfl rfl rfl) rfl (Or.inl rfl)
  · exact Ok.runs (h.congr rfl rfl rfl rfl rfl rfl) rfl (Or.inr (Or.inl rfl))

theorem Ok.exit (h : Ok base n b) : Runs base n b.exit :=
  Ok.runs (h.congr rfl rfl rfl rfl rfl rfl) rfl (Or.inr (Or.inr (Or.inl rfl)))

theorem Ok.create (h : Ok base n b) : Runs base n b.create := by
  unfold Benchmark.create
  split
  · next hlive =>
    rw [h.need] at hlive
    exact ⟨h.congr rfl rfl rfl rfl rfl rfl, fun _ => hlive, fun _ hp => BenchPhase.noConfusion hp⟩
  · exact Ok.loop (h.congr rfl rfl rfl rfl rfl rfl)

theorem Ok.refill (h : Ok base n b) : Runs base n b.refill := by
  unfold Benchmark.refill
  split
  · next hlive =>
    rw [h.need] at hlive
    exact ⟨h.congr rfl rfl rfl rfl rfl rfl, fun _ => hlive, fun _ hp => BenchPhase.noConfusion hp⟩
  · exact Ok.loop (h.congr rfl rfl rfl rfl rfl rfl)

/-- **The check for timeouts** resets clients. -/
theorem Ok.clearTimeout (h : Ok base n b) {curTime : ℕ} :
    Ok base n (clearTimeoutConnection b curTime) := by
  unfold clearTimeoutConnection
  rw [h.need]
  refine List.foldlRecOn (motive := Ok base n) _ _ h (fun b' hb' i hi => ?_)
  unfold clearTimeoutClient
  extract_lets pclient
  split
  · next htimeout =>
    have hpos : (b'.clientsPtr i).fd > 0 := htimeout.1
    have hfd : b'.slots i = some (b'.clientsPtr i).fd :=
      slots_eq_some.mpr ⟨rfl, by unfold fdarrayIndexInit; omega⟩
    have hcounted : Holding base n i (b'.clientsPtr i).fd b' { b' with config := { b'.config with
        timeoutClientNum := uint32 (b'.config.timeoutClientNum + 1) } } :=
      (Holding.refl hb' (List.mem_range.mp hi) hfd).like (like_config rfl rfl)
    exact hcounted.reset.ok
  · exact hb'

theorem Ok.check (h : Ok base n b) : Runs base n b.check := by
  unfold Benchmark.check
  split
  · exact h.clearTimeout.refill
  · exact h.loop

/-- **Handling an event** leaves the rest of the batch to be handled, or ends the process. -/
theorem Runs.event (h : Runs base n b) {e : EpollEvent} {rest : List EpollEvent}
    (hphase : b.phase = .handling (e :: rest)) {io : ClientIO} :
    Runs base n (handleEvent b e rest io) := by
  have hbatch := h.batch (e :: rest) hphase
  have hkeeps := h.ok.handle rest io (hbatch.2 e (List.mem_cons_self ..))
  rcases hkeeps.spares.phase with hsame | hover
  · refine ⟨hkeeps.ok, fun hopening => ?_, fun events' hevents => ?_⟩
    · rw [hsame] at hopening
      exact absurd hopening (by simp)
    · obtain rfl := BenchPhase.handling.inj (hsame.symm.trans hevents)
      exact hkeeps.spares.batch (b := { b with phase := .handling rest }) hbatch
  · exact hkeeps.ok.runs rfl (Or.inr (Or.inr hover))

/-- **What a step does**, at each control point. -/
inductive Stepped (b : Benchmark) : BenchInput → Benchmark → Prop where
  | notCreated (a : ClientAttempt) (hphase : b.phase = .creating)
      (hret : (reactorClientInit b a).1 = .fail) :
      Stepped b (.client a) (reactorClientInit b a).2.exit
  | created (a : ClientAttempt) (hphase : b.phase = .creating)
      (hret : (reactorClientInit b a).1 = .succ) :
      Stepped b (.client a) (reactorClientInit b a).2.create
  | notRefilled (a : ClientAttempt) (hphase : b.phase = .refilling)
      (hret : (reactorClientInit b a).1 = .fail) :
      Stepped b (.client a) (reactorClientInit b a).2.exit
  | refilled (a : ClientAttempt) (hphase : b.phase = .refilling)
      (hret : (reactorClientInit b a).1 = .succ) :
      Stepped b (.client a) (reactorClientInit b a).2.refill
  | waited (usec : ℕ) (events : List EpollEvent) (hphase : b.phase = .waiting) :
      Stepped b (.wait usec events) { b with usec := usec, phase := .handling events }
  | handled (e : EpollEvent) (rest : List EpollEvent) (io : ClientIO)
      (hphase : b.phase = .handling (e :: rest)) : Stepped b (.event io) (handleEvent b e rest io)
  | checked (hphase : b.phase = .handling []) : Stepped b .check b.check

theorem stepped {input : BenchInput} (hstep : b.step input = some b') : b.Stepped input b' := by
  unfold Benchmark.step at hstep
  cases input with
  | client a =>
    cases hphase : b.phase with
    | creating =>
      simp only [hphase] at hstep
      split at hstep
      · next c hinit =>
        obtain rfl : (reactorClientInit b a).2 = c := congrArg Prod.snd hinit
        exact Option.some.inj hstep ▸ .notCreated a hphase (congrArg Prod.fst hinit)
      · next c hinit =>
        obtain rfl : (reactorClientInit b a).2 = c := congrArg Prod.snd hinit
        exact Option.some.inj hstep ▸ .created a hphase (congrArg Prod.fst hinit)
    | refilling =>
      simp only [hphase] at hstep
      split at hstep
      · next c hinit =>
        obtain rfl : (reactorClientInit b a).2 = c := congrArg Prod.snd hinit
        exact Option.some.inj hstep ▸ .notRefilled a hphase (congrArg Prod.fst hinit)
      · next c hinit =>
        obtain rfl : (reactorClientInit b a).2 = c := congrArg Prod.snd hinit
        exact Option.some.inj hstep ▸ .refilled a hphase (congrArg Prod.fst hinit)
    | _ => simp [hphase] at hstep
  | wait usec events =>
    cases hphase : b.phase with
    | waiting =>
      simp only [hphase] at hstep
      exact Option.some.inj hstep ▸ .waited usec events hphase
    | _ => simp [hphase] at hstep
  | event io =>
    cases hphase : b.phase with
    | handling events =>
      cases events with
      | nil => simp [hphase] at hstep
      | cons e rest =>
        simp only [hphase] at hstep
        exact Option.some.inj hstep ▸ .handled e rest io hphase
    | _ => simp [hphase] at hstep
  | check =>
    cases hphase : b.phase with
    | handling events =>
      cases events with
      | nil =>
        simp only [hphase] at hstep
        exact Option.some.inj hstep ▸ .checked hphase
      | cons e rest => simp [hphase] at hstep
    | _ => simp [hphase] at hstep

/-- **The step lemma.** -/
theorem Runs.step (h : Runs base n b) {input : BenchInput} (hadmits : b.Admits input)
    (hstep : b.step input = some b') : Runs base n b' := by
  -- a client is opened while a slot is empty
  have hopened (a : ClientAttempt) (hphase : b.phase = .creating ∨ b.phase = .refilling) :
      Ok base n (reactorClientInit b a).2 := (h.ok.clientInit (h.live hphase) base).1
  cases stepped hstep with
  | notCreated a hphase => exact (hopened a (Or.inl hphase)).exit
  | created a hphase => exact (hopened a (Or.inl hphase)).create
  | notRefilled a hphase => exact (hopened a (Or.inr hphase)).exit
  | refilled a hphase => exact (hopened a (Or.inr hphase)).refill
  | waited usec events =>
    refine ⟨h.ok.congr rfl rfl rfl rfl rfl rfl, fun hopening => ?_, fun events' hevents => ?_⟩
    · exact absurd hopening (by simp)
    · exact BenchPhase.handling.inj hevents ▸ hadmits
  | handled e rest io hphase => exact h.event hphase
  | checked => exact h.ok.check

/-- **Under the invariant the slots are sound.** -/
theorem Runs.sound (h : Runs base n b) : Sound b where
  distinct := h.ok.distinct
  live := by
    rw [h.ok.live, h.ok.need]
    unfold SlotTable.occupied
    refine congrArg Finset.card (Finset.filter_congr (fun i _ => ?_))
    exact not_congr slots_eq_none
  bounded := by
    rw [h.ok.live, h.ok.need]
    exact SlotTable.card_occupied_le
  counted := h.ok.counted
  found e rest hphase := by
    have hbatch := h.batch (e :: rest) hphase
    exact (slots_eq_some.mp (h.ok.find (hbatch.2 e (List.mem_cons_self ..))).2).1

end Benchmark

/-! ## The result -/

/-- **The descriptors of the process before its first client**: those below `base` are
open, those from there on are free, none is registered, and `epoll_ctl` will
succeed. -/
structure Epoll.Fresh (base : ℤ) (epoll : Epoll) : Prop where
  nonneg : 0 ≤ base
  opened : ∀ fd, 0 ≤ fd → fd < base → epoll.fd fd ≠ .closed
  free : ∀ fd, base ≤ fd → epoll.fd fd = .closed
  unregistered : ∀ fd, (epoll.fd fd).isRegistered = false
  answer : ∀ j, epoll.answer j = .granted

/-- The process starts with the invariant. -/
theorem initSingleReactor_runs (config : StatisticsStruct) {epoll : Epoll} (limit usec : ℕ)
    (malloc : Bool) (hneed : config.needClientNum < 2 ^ 32) (hlive : config.liveClientNum = 0)
    (h : epoll.Fresh base) :
    Runs base config.needClientNum (initSingleReactor config epoll limit usec malloc) := by
  unfold initSingleReactor
  extract_lets b
  have hslots : b.slots = fun _ => none := funext fun _ => if_pos rfl
  have hok : Ok base config.needClientNum b := by
    refine ⟨h.nonneg, rfl, hneed, h.answer, h.opened, fun g _ => h.unregistered g,
      fun g hg hopen => absurd (h.free g hg) hopen, fun i _ g hg => ?_, fun j _ g hg => ?_, ?_,
      rfl, rfl⟩
    · rw [hslots] at hg
      exact absurd hg (by simp)
    · rw [hslots] at hg
      exact absurd hg (by simp)
    · rw [hslots]
      unfold SlotTable.occupied
      exact hlive.trans (by simp)
  split
  · exact Ok.runs (hok.congr rfl rfl rfl rfl rfl rfl) rfl (Or.inr (Or.inr (Or.inr rfl)))
  · exact hok.create

/-- **The benchmark client finds its clients.** Where the descriptors below that of the
first client stay open, `epoll_ctl` succeeds, and `epoll_wait` reports what is
registered, and no descriptor twice, the slots are sound in every state of every
run. -/
theorem benchmark_always_sound {needClientNum needRequestNum : ℕ} {keepalive randomFlag : ℤ}
    {protocol : Protocol} {epoll : Epoll} {limit usec : ℕ} {malloc : Bool}
    {inputs : List BenchInput} (hneed : needClientNum < 2 ^ 32) (h : epoll.Fresh base)
    (hadmits : Run.Along Benchmark.step Benchmark.Admits
      (initSingleReactor (initConfig needClientNum needRequestNum keepalive randomFlag protocol)
        epoll limit usec malloc) inputs) :
    Run.Always Benchmark.step Benchmark.Sound
      (initSingleReactor (initConfig needClientNum needRequestNum keepalive randomFlag protocol)
        epoll limit usec malloc) inputs := by
  have hstart := initSingleReactor_runs
    (initConfig needClientNum needRequestNum keepalive randomFlag protocol) limit usec malloc
    hneed rfl h
  have hruns := Run.always_of_along (fun _ _ _ hruns hadmits hstep => hruns.step hadmits hstep)
    hstart hadmits
  exact hruns.mono (fun _ hruns => hruns.sound)

/-! ### A run -/

/-- A process with three open descriptors. -/
def benchEpoll : Epoll where
  fd fd := if 0 ≤ fd ∧ fd < 3 then .opened else .closed
  answer _ := .granted
  calls := 0
  failed := false

theorem benchEpoll_fresh : benchEpoll.Fresh 3 where
  nonneg := by decide
  opened fd hlo hhi := by
    have hopen : benchEpoll.fd fd = .opened := if_pos ⟨hlo, hhi⟩
    rw [hopen]
    exact KernelFd.noConfusion
  free fd hfd := if_neg (by omega)
  unregistered fd := by
    show (if 0 ≤ fd ∧ fd < 3 then KernelFd.opened else .closed).isRegistered = false
    split
    · rfl
    · rfl
  answer _ := rfl

/-- An attempt that succeeds, and one that is refused. -/
def attempt (connect : Bool) : ClientAttempt := ⟨true, true, connect, true⟩

/-- Two clients. In the first batch the one on `3` hangs up and is not replaced, and the one
on `4` fails to write and is replaced by one on `3`. In the second batch that one has sent
its request, and after it the second slot is filled again, with `4`. In the third batch
the response on `3` is there, and it is closed and opened again. -/
def benchRun : List BenchInput :=
  [.client (attempt true), .client (attempt true),
    .wait 1000 [⟨3, false, false, true, false⟩, ⟨4, false, true, false, false⟩],
    .event ⟨[], attempt false, [], attempt false⟩,
    .event ⟨[], attempt true, [.error], attempt true⟩,
    .check,
    .wait 300000 [⟨3, false, true, false, false⟩],
    .event ⟨[], attempt true, [.eintr, .data 400], attempt true⟩,
    .check,
    .client (attempt true),
    .wait 400000 [⟨4, false, true, false, false⟩, ⟨3, true, false, false, false⟩],
    .event ⟨[], attempt true, [.data 100], attempt true⟩,
    .event ⟨[.data 40], attempt true, [], attempt true⟩,
    .check]

/-- The slots at the end: `4` is in the slot `0`, and `3` in the slot `1`. -/
theorem benchmark_always_sound_sample :
    (Run.exec Benchmark.step
        (initSingleReactor (initConfig 2 10 0 0 .tcp) benchEpoll 8 1000 true) benchRun).map
        (fun b => (b.slots 0, b.slots 1, b.config.liveClientNum, b.config.doneRequests))
      = some (some 4, some 3, 2, 1)
    ∧ Run.Always Benchmark.step Benchmark.Sound
        (initSingleReactor (initConfig 2 10 0 0 .tcp) benchEpoll 8 1000 true) benchRun :=
  ⟨by decide +kernel,
    benchmark_always_sound (by decide) benchEpoll_fresh (by decide +kernel)⟩
