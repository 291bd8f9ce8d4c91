import TcpFrame.BenchClientRuns
import TcpFrame.EventTableFailures

/-!
# A client that is not created

`ReactorClientInit` can fail in seven places. In all of them it closes the
descriptor, and in the first five it has done nothing else. The sixth is never
reached, since the length `EncodeRequest` returns is kept in an `unsigned`. In the
last one the slot has its new descriptor already, and keeps it: it is taken for
good by a descriptor that is closed, and the next client with that number is
refused as a collision.
-/

namespace Benchmark

variable {b b' b'' : Benchmark} {a : ClientAttempt} {encode : List UInt8 → ℤ × List UInt8}
  {g i : ℕ} {m : BitVec 32} {func : FuncProcCallback}

/-! ## Registrations, whatever `epoll_ctl` does -/

/-- **Of the client in the slot `i`, only what is registered may have changed**, and for
its descriptor, what the kernel knows. -/
structure Rewires (i : ℕ) (b b' : Benchmark) : Prop where
  config : b'.config = b.config
  usec : b'.usec = b.usec
  limit : b'.limit = b.limit
  collided : b'.collided = b.collided
  held : b'.held = b.held
  clients : ∀ j ≠ i, b'.clientsPtr j = b.clientsPtr j
  client : ∃ mask rFuncProc wFuncProc, b'.clientsPtr i
    = { b.clientsPtr i with mask := mask, rFuncProc := rFuncProc, wFuncProc := wFuncProc }
  kernel : ∀ g ≠ (b.clientsPtr i).fd, b'.epoll.fd g = b.epoll.fd g

theorem Rewires.fd (h : Rewires i b b') : (b'.clientsPtr i).fd = (b.clientsPtr i).fd := by
  obtain ⟨mask, rFuncProc, wFuncProc, hclient⟩ := h.client
  rw [hclient]

theorem Rewires.trans (h : Rewires i b b') (h' : Rewires i b' b'') : Rewires i b b'' where
  config := h'.config.trans h.config
  usec := h'.usec.trans h.usec
  limit := h'.limit.trans h.limit
  collided := h'.collided.trans h.collided
  held := h'.held.trans h.held
  clients j hj := (h'.clients j hj).trans (h.clients j hj)
  client := by
    obtain ⟨_, _, _, hclient⟩ := h.client
    obtain ⟨mask, rFuncProc, wFuncProc, hclient'⟩ := h'.client
    exact ⟨mask, rFuncProc, wFuncProc, by rw [hclient', hclient]⟩
  kernel g hg := (h'.kernel g (h.fd ▸ hg)).trans (h.kernel g hg)

/-- The client is registered anew, and `epoll_ctl` is called or not. -/
theorem rewires_setClient {mask : BitVec 32} {r w : Option FuncProcCallback} :
    Rewires i b (b.setClient i
      { b.clientsPtr i with mask := mask, rFuncProc := r, wFuncProc := w }) where
  config := rfl
  usec := rfl
  limit := rfl
  collided := rfl
  held := rfl
  clients _ hj := setClient_of_ne hj
  client := ⟨mask, r, w, setClient_self⟩
  kernel _ _ := rfl

theorem rewires_ctl (b : Benchmark) (i : ℕ) (op : EpollOper) (events : EpollEvents) :
    Rewires i b (b.ctl op (b.clientsPtr i).fd events).2 where
  config := rfl
  usec := rfl
  limit := rfl
  collided := rfl
  held := rfl
  clients _ _ := rfl
  client := ⟨_, _, _, rfl⟩
  kernel g hg := by
    show (b.epoll.ctl op (b.clientsPtr i).fd events).2.fd g = b.epoll.fd g
    cases hctl : b.epoll.succeeds op (b.clientsPtr i).fd with
    | true =>
      rw [Epoll.ctl_succeeds hctl]
      exact Function.update_of_ne hg _ _
    | false => rw [Epoll.ctl_fails hctl]

theorem reactorAddEvent_rewires (b : Benchmark) (i : ℕ) (m : BitVec 32)
    (func : FuncProcCallback) : Rewires i b (reactorAddEvent b i m func).2 := by
  have hctl : ∀ (pclient : ClientFD) {op : EpollOper} {events : EpollEvents},
      pclient.fd = (b.clientsPtr i).fd → Rewires i b (b.setClient i pclient) →
      Rewires i b ((b.setClient i pclient).ctl op pclient.fd events).2 := by
    intro pclient op events hfd h
    have hset := rewires_ctl (b.setClient i pclient) i op events
    rw [setClient_self] at hset
    exact h.trans hset
  unfold reactorAddEvent
  extract_lets pclient op pclient'
  split
  · exact hctl _ rfl rewires_setClient
  split
  · exact hctl _ rfl rewires_setClient
  · exact rewires_setClient

theorem reactorDelEvent_rewires (b : Benchmark) (i : ℕ) (m : BitVec 32) :
    Rewires i b (reactorDelEvent b i m).2 := by
  unfold reactorDelEvent
  extract_lets pclient pclient' op
  have hset := rewires_ctl (b.setClient i pclient') i op (clientEvents pclient'.mask)
  rw [setClient_self] at hset
  exact rewires_setClient.trans hset

/-- **What `ReactorClientInit` comes to, whatever `epoll_ctl` does**: it changes no client, or
it puts one into an empty slot, whose descriptor it closes or keeps. -/
theorem reactorClientInit_states (b : Benchmark) (a : ClientAttempt) :
    (∃ c, (reactorClientInit b a).2 = { b with collided := c })
      ∨ ∃ (g : ℕ) (b' : Benchmark), b.epoll.fd g = .closed
        ∧ (b.clientsPtr (b.slotIndex g)).fd = fdarrayIndexInit
        ∧ b' = (reactorAddEvent (b.taken (b.slotIndex g) g) (b.slotIndex g) writeable
            .sendToServerCallback).2
        ∧ ((reactorClientInit b a).2 = b'.close g
          ∨ (reactorClientInit b a).2 = b'.joined (b.slotIndex g)) := by
  obtain ⟨heq, -⟩ | ⟨g, hreaches, ⟨-, heq⟩ | ⟨hempty, iRet, b', hadd, hcases⟩⟩ :=
    reactorClientInitWith_cases (fun data =>
      (encodeRequest (maxSendBufLen + 1), encodedRequest data (maxSendBufLen + 1))) b a
  · exact Or.inl ⟨b.collided, congrArg Prod.snd heq⟩
  · exact Or.inl ⟨true, congrArg Prod.snd heq⟩
  · have hclosed := (lowestFree_eq_some hreaches.free).1
    refine Or.inr ⟨g, b', hclosed, hempty, (congrArg Prod.snd hadd).symm, ?_⟩
    obtain ⟨-, heq⟩ | ⟨-, heq⟩ := hcases
    · exact Or.inl (congrArg Prod.snd heq)
    · exact Or.inr (congrArg Prod.snd heq)

/-! ## What is left behind -/

/-- **Nothing is left of a client that was not created**: the slots and the two
counters are as before, the descriptor it was to have is closed, and if it had a
slot free, so has the next client that gets the descriptor. -/
structure Traceless (b b' : Benchmark) : Prop where
  clients : b'.clientsPtr = b.clientsPtr
  live : b'.config.liveClientNum = b.config.liveClientNum
  created : b'.config.createClientNum = b.config.createClientNum
  closed : ∀ g, b.epoll.lowestFree b.limit = some g → b'.epoll.fd g = .closed
  again : ∀ g, b.epoll.lowestFree b.limit = some g →
    (b.clientsPtr (b.slotIndex g)).fd = fdarrayIndexInit → ∀ encode a, b'.Reaches a g →
    (reactorClientInitWith encode { b' with collided := false } a).2.collided = false

/-- **The registration of a new client is refused**: the attempt gets to the slots, the
slot is empty, and `epoll_ctl` fails. -/
def Strands (b : Benchmark) (a : ClientAttempt) : Prop :=
  ∃ g, b.Reaches a g ∧ (b.clientsPtr (b.slotIndex g)).fd = fdarrayIndexInit
    ∧ b.epoll.answer b.epoll.calls = .refused

theorem Reaches.unique (h : b.Reaches a g) {g' : ℕ} (h' : b.Reaches a g') : g = g' :=
  Option.some.inj (h.free.symm.trans h'.free)

theorem takenWith_fd : ((b.takenWith encode i g).clientsPtr i).fd = g :=
  congrArg ClientFD.fd setClient_self

/-- **The registration of a new client** fails exactly if the kernel refuses it, since
its descriptor is open and not registered. -/
theorem reactorAddEvent_takenWith {iRet : Ret}
    (h : reactorAddEvent (b.takenWith encode i g) i writeable .sendToServerCallback = (iRet, b')) :
    iRet = .fail ↔ b.epoll.answer b.epoll.calls = .refused := by
  have hopen : (b.takenWith encode i g).epoll.fd g = .opened := Function.update_self ..
  have hmask : ((b.takenWith encode i g).clientsPtr i).mask = enone :=
    congrArg ClientFD.mask setClient_self
  have hctl : ((b.takenWith encode i g).epoll.ctl .add g (clientEvents writeable)).1 = iRet := by
    unfold reactorAddEvent at h
    rw [if_pos (by decide), hmask, if_pos rfl] at h
    dsimp only at h
    rw [takenWith_fd] at h
    exact congrArg Prod.fst h
  have hsucceeds : (b.takenWith encode i g).epoll.succeeds .add g
      = decide (b.epoll.answer b.epoll.calls ≠ .refused) := by
    have hanswer : (b.takenWith encode i g).epoll.answer (b.takenWith encode i g).epoll.calls
      = b.epoll.answer b.epoll.calls := rfl
    unfold Epoll.succeeds
    rw [hanswer, hopen]
    cases b.epoll.answer b.epoll.calls with
    | byRules => rfl
    | refused => rfl
    | granted => rfl
  by_cases hrefused : b.epoll.answer b.epoll.calls = .refused
  · rw [Epoll.ctl_fails (hsucceeds.trans (decide_eq_false (not_not.mpr hrefused)))] at hctl
    exact ⟨fun _ => hrefused, fun _ => hctl.symm⟩
  · rw [Epoll.ctl_succeeds (hsucceeds.trans (decide_eq_true hrefused))] at hctl
    obtain rfl : Ret.succ = iRet := hctl
    exact ⟨fun hfail => absurd hfail (by decide), fun h => absurd h hrefused⟩

/-- A client that comes to a slot that is empty does not find it taken. -/
theorem collided_reactorClientInitWith (hcollided : b.collided = false)
    (hempty : ∀ g, b.Reaches a g → (b.clientsPtr (b.slotIndex g)).fd = fdarrayIndexInit) :
    (reactorClientInitWith encode b a).2.collided = false := by
  obtain ⟨hfail, -⟩ | ⟨g, hreaches, ⟨htaken, -⟩ | ⟨-, iRet, b', hadd, hcases⟩⟩ :=
    reactorClientInitWith_cases encode b a
  · rw [hfail]
    exact hcollided
  · exact absurd (hempty g hreaches) htaken
  · have hrewires := reactorAddEvent_rewires (b.takenWith encode (b.slotIndex g) g)
      (b.slotIndex g) writeable .sendToServerCallback
    rw [hadd] at hrewires
    have hsame : b'.collided = false := hrewires.collided.trans hcollided
    obtain ⟨-, heq⟩ | ⟨-, heq⟩ := hcases
    · rw [heq]
      exact hsame
    · rw [heq]
      exact hsame

/-- **Where the slots and the descriptors are the same**, the next client is not refused. -/
theorem traceless_of_same (hconfig : b'.config = b.config) (hclients : b'.clientsPtr = b.clientsPtr)
    (hepoll : b'.epoll = b.epoll) : b.Traceless b' where
  clients := hclients
  live := by rw [hconfig]
  created := by rw [hconfig]
  closed g hg := by
    rw [hepoll]
    exact (lowestFree_eq_some hg).1
  again g hg hempty encode a hreaches := by
    refine collided_reactorClientInitWith rfl (fun g' hg' => ?_)
    obtain rfl : g = g' := Option.some.inj (hreaches.free.symm.trans hg'.free)
    show (b'.clientsPtr (b'.slotIndex g)).fd = fdarrayIndexInit
    unfold slotIndex
    rw [hconfig, hclients]
    exact hempty

/-- **A creation that fails leaves no trace, exactly if** it does not fail because the
registration is refused. In any state, and whatever `socket`, `connect` and the
other calls do. -/
theorem reactorClientInit_traceless_iff (encode : List UInt8 → ℤ × List UInt8) (b : Benchmark)
    (a : ClientAttempt) :
    ((reactorClientInitWith encode b a).1 = .fail →
        b.Traceless (reactorClientInitWith encode b a).2) ↔ ¬ b.Strands a := by
  obtain ⟨hfail, hnot⟩ | ⟨g, hreaches, ⟨htaken, hfail⟩ | ⟨hempty, iRet, b', hadd, hcases⟩⟩ :=
    reactorClientInitWith_cases encode b a
  · rw [hfail]
    exact ⟨fun _ ⟨g, hg, _⟩ => hnot g hg, fun _ _ => traceless_of_same rfl rfl rfl⟩
  · rw [hfail]
    refine ⟨fun _ ⟨g', hg', hempty, _⟩ => ?_, fun _ _ => traceless_of_same rfl rfl rfl⟩
    obtain rfl := hreaches.unique hg'
    exact htaken hempty
  · have hrefused := reactorAddEvent_takenWith hadd
    have hrewires := reactorAddEvent_rewires (b.takenWith encode (b.slotIndex g) g)
      (b.slotIndex g) writeable .sendToServerCallback
    rw [hadd] at hrewires
    obtain ⟨hret, heq⟩ | ⟨hret, heq⟩ := hcases
    · -- the slot has its descriptor, and keeps it
      rw [heq]
      have hstrands : b.Strands a := ⟨g, hreaches, hempty, hrefused.mp hret⟩
      refine ⟨fun h => ?_, fun h => absurd hstrands h⟩
      have hclient : (b'.clientsPtr (b.slotIndex g)).fd = g := hrewires.fd.trans takenWith_fd
      have hclients := (h rfl).clients
      rw [show (b'.close g).clientsPtr = b'.clientsPtr from rfl] at hclients
      rw [hclients, hempty] at hclient
      exact absurd hclient.symm (by unfold fdarrayIndexInit; omega)
    · rw [heq]
      have hsucc : Ret.succ ≠ Ret.fail := by decide
      refine ⟨fun _ ⟨g', hg', _, hno⟩ => ?_, fun _ hfail => absurd hfail hsucc⟩
      rw [hrefused.mpr hno] at hret
      exact absurd hret (by decide)

instance (b : Benchmark) (a : ClientAttempt) (g : ℕ) : Decidable (b.Reaches a g) :=
  decidable_of_iff (a.socket = true ∧ b.epoll.lowestFree b.limit = some g ∧ a.nonblock = true
      ∧ a.connect = true ∧ (b.config.protocol = .tcp → a.nodelay = true))
    ⟨fun ⟨h₁, h₂, h₃, h₄, h₅⟩ => ⟨h₁, h₂, h₃, h₄, h₅⟩,
      fun h => ⟨h.socket, h.free, h.nonblock, h.connect, h.nodelay⟩⟩

/-- A benchmark of two clients that is to open its first one on descriptor `3`, and what
becomes of the first call to `epoll_ctl`. -/
def openingBenchmark (answer : EpollAnswer) : Benchmark :=
  initSingleReactor (initConfig 2 5 1 0 .tcp)
    { benchEpoll with answer := Function.update (fun _ => .byRules) 0 answer } 16 0 true

/-- An attempt that is refused by the server, where the kernel would register it. -/
theorem reactorClientInit_traceless_sample :
    (openingBenchmark .byRules).Traceless (reactorClientInit (openingBenchmark .byRules)
      (attempt false)).2 := by
  refine (reactorClientInit_traceless_iff _ (openingBenchmark .byRules) (attempt false)).mpr ?_
    (by decide +kernel)
  rintro ⟨g, hreaches, -⟩
  exact absurd hreaches.connect (by decide)

/-- **A slot is lost**: the registration of the first client is refused, and the next
attempt with the same descriptor is refused as a collision. -/
theorem reactorClientInit_not_traceless :
    ¬ ∀ (b : Benchmark) (a : ClientAttempt), (reactorClientInit b a).1 = .fail →
      b.Traceless (reactorClientInit b a).2 := by
  intro h
  have htraceless := h (openingBenchmark .refused) (attempt true) (by decide +kernel)
  have hagain := htraceless.again 3 (by decide +kernel) (by decide +kernel)
    (fun data => (encodeRequest (maxSendBufLen + 1), encodedRequest data (maxSendBufLen + 1)))
    (attempt true) (by decide +kernel)
  exact absurd hagain (by decide +kernel)

end Benchmark
