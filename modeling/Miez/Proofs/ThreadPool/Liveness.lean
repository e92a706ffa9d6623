import Miez.Proofs.ThreadPool.Fair

/-!
# `Miez.Proofs.ThreadPool.Liveness`: what the pool does in the end

Three results about fair executions (`FairPool`), in which every called function returns:

* `shutdown_returns`: `thread_pool_shutdown` returns, and all dispatchers have exited then.
* `task_returns`: a pool that is not shut down runs every task that was enqueued.
* `wait_returns`: when no more tasks come, every `thread_pool_wait` returns.

A measure of the program point (`stepsLeft`, `dequeueLeft`, `busyLeft`, `waitLeft`) falls with each
step of the thread. `Fair.eventually_disabled` makes of it that the thread comes to rest, and the
invariants of the pool tell where.
-/

set_option autoImplicit false

namespace Miez.Proofs.ThreadPool

open Filter
open Miez.Lib
open Miez.ThreadPool

section
variable {n : Nat} {τ : Type}

/-! ### After the broadcast of a shutdown -/

/-- The pool is off, and no dispatcher is parked on `_new_task` or about to be. -/
structure Closed (s : State n τ) : Prop where
  off : s.shared.off = true
  on : s.shared.on = false
  newTask : s.shared.newTask = ∅
  condWait : ∀ d, s.dispatcher d ≠ .condWait

/-- A bound on the steps that a dispatcher still takes when the pool is off. -/
def stepsLeft : DispatcherPc τ → Nat
  | .exited => 0
  | .unlockExit => 1
  | .testOff => 2
  | .testOn => 3
  | .testEmpty => 4
  | .lock | .parked => 5
  | .unlockDone | .condWait => 6
  | .broadcastDone => 7
  | .lockDone => 8
  | .decrInFlight => 9
  | .running _ => 10
  | .callFunction _ => 11
  | .incrInFlight _ => 12
  | .dequeue => 13
  | .unlock => 14
  | .testEmptyExit => 15
  | .testOnExit => 16

/-- When the pool is off, a dispatcher that is not parked comes closer to its exit. -/
theorem stepsLeft_lt {d : Fin n} {sh sh' : Shared n τ} {pc pc' : DispatcherPc τ}
    {e : Option (Event n τ)} (h : dispatcherFunction d sh pc = some (sh', pc', e))
    (hoff : sh.off = true) (hon : sh.on = false) (hpark : d ∉ sh.newTask) :
    stepsLeft pc' < stepsLeft pc := by
  cases pc with
  | dequeue => cases hq : sh.queue <;> grind [dispatcherFunction, stepsLeft]
  | _ => grind [dispatcherFunction, stepsLeft, Shared.lock]

/-- What a step of `thread_pool_shutdown` does. -/
inductive ShutdownStep (c : Nat) (exited : Fin n → Bool) (sh : Shared n τ) :
    ShutdownPc → Shared n τ → ClientPc τ → Option (Event n τ) → Prop where
  | storeOn : ShutdownStep c exited sh .storeOn { sh with on := false } (.shutdown .storeOff) none
  | storeOff : ShutdownStep c exited sh .storeOff { sh with off := true } (.shutdown .lock) none
  | lock (hfree : sh.mutex = none) :
      ShutdownStep c exited sh .lock { sh with mutex := some (.client c) } (.shutdown .broadcast) none
  | broadcast :
      ShutdownStep c exited sh .broadcast { sh with newTask := ∅ } (.shutdown .unlock) none
  | unlock : ShutdownStep c exited sh .unlock sh.unlock (.shutdown (.join 0)) none
  | join (i : Nat) (hi : i < n) (hexited : exited ⟨i, hi⟩ = true) :
      ShutdownStep c exited sh (.join i) sh (.shutdown (.join (i + 1))) none
  | ret (i : Nat) (hi : n ≤ i) :
      ShutdownStep c exited sh (.join i) sh .idle (some (.shutdownRet c))

/-- A step of a client in `thread_pool_shutdown` is one of these. -/
theorem clientFunction_shutdown {c : Nat} {exited : Fin n → Bool} {sh sh' : Shared n τ}
    {q : ShutdownPc} {pc' : ClientPc τ} {move : ClientMove n τ} {e : Option (Event n τ)}
    (h : clientFunction c exited sh (.shutdown q) move = some (sh', pc', e)) :
    ShutdownStep c exited sh q sh' pc' e := by
  cases move with
  | go =>
      change threadPoolShutdown c exited sh q = some (sh', pc', e) at h
      cases q with
      | storeOn => cases h; exact .storeOn
      | storeOff => cases h; exact .storeOff
      | lock =>
          by_cases hfree : sh.mutex = none
          · simp only [threadPoolShutdown, Shared.lock, if_pos hfree, Option.map_some] at h
            cases h
            exact .lock hfree
          · simp only [threadPoolShutdown, Shared.lock, if_neg hfree, Option.map_none] at h
            cases h
      | broadcast => cases h; exact .broadcast
      | unlock => cases h; exact .unlock
      | join i =>
          by_cases hi : i < n
          · by_cases hexited : exited ⟨i, hi⟩ = true
            · simp only [threadPoolShutdown, dif_pos hi, if_pos hexited] at h
              cases h
              exact .join i hi hexited
            · simp only [threadPoolShutdown, dif_pos hi, if_neg hexited] at h
              cases h
          · simp only [threadPoolShutdown, dif_neg hi] at h
            cases h
            exact .ret i (Nat.le_of_not_lt hi)
  | _ => cases h

/-- A client does not switch the pool on again, and it has switched it off before its broadcast. -/
theorem clientFunction_off {c : Nat} {exited : Fin n → Bool} {sh sh' : Shared n τ}
    {pc pc' : ClientPc τ} {move : ClientMove n τ} {e : Option (Event n τ)}
    (h : clientFunction c exited sh pc move = some (sh', pc', e)) :
    (sh.off = true → sh'.off = true) ∧
    (∀ q, pc' = .shutdown q → q ≠ .storeOn → q ≠ .storeOff →
      sh'.off = true ∨ ∃ q', pc = .shutdown q' ∧ q' ≠ .storeOn ∧ q' ≠ .storeOff) := by
  by_cases hpc : ∃ q, pc = .shutdown q
  · obtain ⟨q, rfl⟩ := hpc
    cases clientFunction_shutdown h with
    | storeOn =>
        refine ⟨id, fun q hq _ hne => ?_⟩
        cases hq
        exact absurd rfl hne
    | storeOff => exact ⟨fun _ => rfl, fun _ _ _ _ => Or.inl rfl⟩
    | lock | broadcast | unlock | join | ret =>
        exact ⟨id, fun _ _ _ _ => Or.inr ⟨_, rfl, by simp, by simp⟩⟩
  · have hne : ∀ q, pc ≠ .shutdown q := fun q hq => hpc ⟨q, hq⟩
    obtain ⟨-, hoff, hnew⟩ := clientFunction_flags_of_ne h hne
    exact ⟨fun h => hoff.trans h, fun q hq hon _ => absurd (hnew q hq) hon⟩

/-- The last part of a shutdown starts with its broadcast. -/
theorem clientFunction_broadcast {c : Nat} {exited : Fin n → Bool} {sh sh' : Shared n τ}
    {pc pc' : ClientPc τ} {move : ClientMove n τ} {e : Option (Event n τ)}
    (h : clientFunction c exited sh pc move = some (sh', pc', e))
    (hpc' : pc' = .shutdown .unlock ∨ ∃ i, pc' = .shutdown (.join i)) :
    (pc = .shutdown .broadcast ∧ sh' = { sh with newTask := ∅ }) ∨
    pc = .shutdown .unlock ∨ ∃ i, pc = .shutdown (.join i) := by
  by_cases hpc : ∃ q, pc = .shutdown q
  · obtain ⟨q, rfl⟩ := hpc
    cases clientFunction_shutdown h with
    | storeOn | storeOff | lock | ret => rcases hpc' with hpc' | ⟨i, hpc'⟩ <;> cases hpc'
    | broadcast => exact Or.inl ⟨rfl, rfl⟩
    | unlock => exact Or.inr (Or.inl rfl)
    | join i => exact Or.inr (Or.inr ⟨i, rfl⟩)
  · have hne : ∀ q, pc ≠ .shutdown q := fun q hq => hpc ⟨q, hq⟩
    obtain ⟨-, -, hnew⟩ := clientFunction_flags_of_ne h hne
    rcases hpc' with hpc' | ⟨i, hpc'⟩
    · cases hnew _ hpc'
    · cases hnew _ hpc'

/-- A step of the pool keeps `Closed`. -/
theorem Closed.next {s s' : State n τ} {a : Action n τ} {e : Option (Event n τ)} (h : Closed s)
    (hnext : ThreadPool.next s a = some (s', e)) : Closed s' := by
  rcases next_cases hnext with ⟨d, sh, pc, -, hf, rfl⟩ | ⟨c, move, sh, pc, -, hf, rfl⟩
  · obtain ⟨hon, hoff, -, hcond, -⟩ := dispatcherFunction_flags hf
    refine ⟨hoff.trans h.off, hon.trans h.on, ?_, ?_⟩
    · refine Finset.eq_empty_of_forall_notMem fun d' hd' => ?_
      rcases dispatcherFunction_newTask hf d' hd' with ⟨-, hpc, -⟩ | ⟨hmem, -⟩
      · exact h.condWait d hpc
      · rw [h.newTask] at hmem
        exact absurd hmem (Finset.notMem_empty d')
    · refine forall_update (P := fun (_ : Fin n) (pc : DispatcherPc τ) => pc ≠ .condWait) ?_ fun d' _ => h.condWait d'
      intro hpc
      rw [h.on] at hcond
      cases hcond hpc
  · refine ⟨(clientFunction_off hf).1 h.off, (clientFunction_flags hf).1 h.on, ?_, h.condWait⟩
    exact Finset.subset_empty.mp (h.newTask ▸ clientFunction_newTask hf)

/-- A shutdown that has stored both flags has switched the pool off. -/
theorem off_of_run {K : State n τ → Action n τ → Prop} {tr : List (Event n τ)} {s : State n τ}
    (h : (machine n τ).RunIf K tr s) : ∀ c q, s.client c = .shutdown q → q ≠ .storeOn →
      q ≠ .storeOff → s.shared.off = true := by
  refine h.induction (I := fun _ s => ∀ c q, s.client c = .shutdown q → q ≠ .storeOn →
    q ≠ .storeOff → s.shared.off = true) ?_ ?_
  · intro c q hq
    cases hq
  · intro tr s a s' e _ hinv _ hnext
    rcases next_cases hnext with ⟨d, sh, pc, -, hf, rfl⟩ | ⟨c, move, sh, pc, -, hf, rfl⟩
    · intro c q hq hon hoff
      exact (dispatcherFunction_flags hf).2.1.trans (hinv c q hq hon hoff)
    · obtain ⟨hmono, hnew⟩ := clientFunction_off hf
      refine forall_update (P := fun (_ : Nat) (pc : ClientPc τ) => ∀ q, pc = .shutdown q →
        q ≠ .storeOn → q ≠ .storeOff → sh.off = true) ?_ ?_
      · intro q hq hon hoff
        rcases hnew q hq hon hoff with hset | ⟨q', hq', hon', hoff'⟩
        · exact hset
        · exact hmono (hinv c q' hq' hon' hoff')
      · intro c' _ q hq hon hoff
        exact hmono (hinv c' q hq hon hoff)

/-- After the broadcast of a shutdown the pool is closed. -/
theorem closed_of_run {K : State n τ → Action n τ → Prop} {tr : List (Event n τ)} {s : State n τ}
    (h : (machine n τ).RunIf K tr s) : ∀ c,
      (s.client c = .shutdown .unlock ∨ ∃ i, s.client c = .shutdown (.join i)) → Closed s := by
  refine h.induction (I := fun _ s => ∀ c,
    (s.client c = .shutdown .unlock ∨ ∃ i, s.client c = .shutdown (.join i)) → Closed s) ?_ ?_
  · rintro c (hc | ⟨i, hc⟩) <;> cases hc
  · intro tr s a s' e hrun hinv _ hnext
    rcases next_cases hnext with ⟨d, sh, pc, -, hf, rfl⟩ | ⟨c, move, sh, pc, -, hf, rfl⟩
    · exact fun c hc => (hinv c hc).next hnext
    · refine forall_update (P := fun (_ : Nat) (pc' : ClientPc τ) =>
        (pc' = .shutdown .unlock ∨ ∃ i, pc' = .shutdown (.join i)) →
          Closed ⟨sh, s.dispatcher, Function.update s.client c pc⟩) ?_ ?_
      · intro hpc
        rcases clientFunction_broadcast hf hpc with ⟨hbroadcast, rfl⟩ | hold
        · -- No dispatcher is about to park while the client is in its critical section.
          have hin : inside s (.client c) := by
            show clientHolds (s.client c)
            rw [hbroadcast]
            trivial
          have hoff : s.shared.off = true :=
            off_of_run hrun c .broadcast hbroadcast (by simp) (by simp)
          refine ⟨hoff, (flagInv_of_run hrun).off hoff, rfl, ?_⟩
          intro d hd
          have hin' : inside s (.dispatcher d) := by
            show holds (s.dispatcher d)
            rw [hd]
            trivial
          cases (mutexInv_of_run hrun).unique hin hin'
        · exact (hinv c hold).next hnext
      · exact fun c' _ hc' => (hinv c' hc').next hnext

/-! ### The return of a shutdown -/

/-- From the broadcast of a shutdown on, all dispatchers exit. -/
theorem eventually_exited {E : (machine n τ).Execution} (hfair : FairPool E) {N : Nat}
    (hclosed : Closed (E.state N)) : ∀ᶠ k in atTop, ∀ d, (E.state k).dispatcher d = .exited := by
  have hclosed : ∀ k, N ≤ k → Closed (E.state k) := by
    refine Machine.Execution.forall_of_keep (P := fun k => Closed (E.state k)) hclosed ?_
    intro k _ hk
    rcases E.tick_cases k with ⟨a, -, hnext⟩ | ⟨-, hstate, -⟩
    · exact hk.next hnext
    · rwa [hstate]
  refine eventually_all.mpr fun d => ?_
  have hlt : ∀ k, N ≤ k → E.Takes (OwnStep (.dispatcher d)) k →
      stepsLeft ((E.state (k + 1)).dispatcher d) < stepsLeft ((E.state k).dispatcher d) := by
    intro k hk htakes
    refine stepsLeft_lt (dispatcherFunction_of_takes E htakes) (hclosed k hk).off (hclosed k hk).on ?_
    rw [(hclosed k hk).newTask]
    exact Finset.notMem_empty d
  have hdisabled := (hfair (.dispatcher d)).eventually_disabled
    (fun s => stepsLeft (s.dispatcher d)) (N := N)
    (fun k hk => (em (E.Takes (OwnStep (.dispatcher d)) k)).elim (fun h => (hlt k hk h).le)
      fun h => (congrArg stepsLeft (dispatcher_kept E h).1).le) hlt
  obtain ⟨N', hN'⟩ := eventually_atTop.mp hdisabled
  filter_upwards [eventually_ge_atTop N, eventually_ge_atTop N'] with k hk hk'
  refine (dispatcher_settles hfair hN' hk').resolve_right ?_
  rintro ⟨-, hmem⟩
  rw [(hclosed k hk).newTask] at hmem
  exact absurd hmem (Finset.notMem_empty d)

/-- A bound on the steps that a shutdown still takes. -/
def shutdownLeft (n : Nat) : ShutdownPc → Nat
  | .storeOn => n + 6
  | .storeOff => n + 5
  | .lock => n + 4
  | .broadcast => n + 3
  | .unlock => n + 2
  | .join i => n + 1 - i

/-- The call of a shutdown leads to its first program point. -/
theorem next_shutdownCall {s s' : State n τ} {a : Action n τ} {c : Nat}
    (h : next s a = some (s', some (.shutdownCall c))) : s'.client c = .shutdown .storeOn := by
  rcases next_cases h with ⟨d, sh, pc, -, hf, rfl⟩ | ⟨c', move, sh, pc, -, hf, rfl⟩
  · rcases dispatcherFunction_event hf _ rfl with ⟨_, hx⟩ | ⟨_, hx⟩ <;> cases hx
  · obtain ⟨rfl, rfl⟩ : c' = c ∧ pc = .shutdown .storeOn := by
      generalize s.client c' = pc₀ at hf
      cases pc₀ with
      | idle => cases move <;> grind [clientFunction]
      | submit pc₀ =>
          cases pc₀ <;> cases move <;>
            grind [clientFunction, threadPoolSubmit, Shared.lock, Shared.signalNewTask]
      | wait pc₀ => cases pc₀ <;> cases move <;> grind [clientFunction, threadPoolWait, Shared.lock]
      | shutdown pc₀ =>
          cases pc₀ <;> cases move <;> grind [clientFunction, threadPoolShutdown, Shared.lock]
    exact Function.update_self ..

/-- In a fair execution `thread_pool_shutdown` returns, and every dispatcher has exited then. -/
theorem shutdown_returns {E : (machine n τ).Execution} (hfair : FairPool E) {c k : Nat}
    {q : ShutdownPc} (h : (E.state k).client c = .shutdown q) :
    ∃ j, k ≤ j ∧ E.event j = some (.shutdownRet c) ∧
      ∀ d, (E.state (j + 1)).dispatcher d = .exited := by
  induction hm : shutdownLeft n q using Nat.strong_induction_on generalizing k q with
  | _ m ih =>
      -- The threads that it joins exit.
      have hjoin : ∀ᶠ j in atTop, (E.state j).client c = (E.state k).client c →
          joinable (E.state j) c := by
        by_cases hq : ∃ i, q = .join i
        · obtain ⟨i, rfl⟩ := hq
          have hclosed := closed_of_run (E.run k) c (Or.inr ⟨i, h⟩)
          refine (eventually_exited hfair hclosed).mono fun j hj _ i hi _ => ?_
          rw [hj]
          rfl
        · refine Eventually.of_forall fun j hsame i hi hj => ?_
          rw [hsame, h] at hj
          exact absurd ⟨i, ClientPc.shutdown.inj hj⟩ hq
      obtain ⟨j, hj, hsame, htakes⟩ := client_takes hfair (by rw [h]; simp)
        (fun hpark => (by rw [parkedOnTaskDone, h] at hpark; cases hpark.1)) hjoin
      obtain ⟨move, hf⟩ := clientFunction_of_takes E htakes
      rw [hsame, h] at hf
      -- The shutdown goes on from its next program point.
      have hgo : ∀ q', (E.state (j + 1)).client c = .shutdown q' →
          shutdownLeft n q' < m → ∃ j, k ≤ j ∧ E.event j = some (.shutdownRet c) ∧
            ∀ d, (E.state (j + 1)).dispatcher d = .exited := by
        intro q' hq' hlt
        obtain ⟨i, hi, hret⟩ := ih _ hlt hq' rfl
        exact ⟨i, by omega, hret⟩
      subst hm
      generalize hsh : (E.state (j + 1)).shared = sh' at hf
      generalize hpc : (E.state (j + 1)).client c = pc' at hf
      generalize he : E.event j = e at hf
      cases clientFunction_shutdown hf with
      | storeOn => exact hgo _ hpc (Nat.lt_succ_self _)
      | storeOff => exact hgo _ hpc (Nat.lt_succ_self _)
      | lock => exact hgo _ hpc (Nat.lt_succ_self _)
      | broadcast => exact hgo _ hpc (Nat.lt_succ_self _)
      | unlock => exact hgo _ hpc (Nat.lt_succ_self _)
      | join i hi =>
          refine hgo _ hpc ?_
          simp only [shutdownLeft]
          omega
      | ret i =>
          refine ⟨j, hj, he, fun d => ?_⟩
          have hexited := (joinInv_of_run (E.run (j + 1))).ret c
            (E.mem_trace he (Nat.lt_succ_self j)) d
          generalize (E.state (j + 1)).dispatcher d = pc at hexited
          cases pc <;> first | rfl | cases hexited

/-- A pool with one dispatcher is shut down. -/
theorem shutdown_returns_one : ∃ E : (machine 1 Nat).Execution, FairPool E ∧
    ∃ k, (E.state k).client 0 = .shutdown .storeOn ∧
      ∃ j, k ≤ j ∧ E.event j = some (.shutdownRet 0) ∧
        ∀ d, (E.state (j + 1)).dispatcher d = .exited := by
  let d : Action 1 Nat := .dispatcher 0
  let go : Action 1 Nat := .client 0 .go
  obtain ⟨tr, s, hrun, htest⟩ := Machine.runIf_of_exec (M := machine 1 Nat)
    (K := fun _ a => byFirstClient a = true ∧ True)
    ([.client 0 .callShutdown, go, go, go, go, go] ++ List.replicate 5 d ++ [go, go])
    (fun tr s => tr == [.shutdownCall 0, .shutdownRet 0] && s.client 0 == .idle
      && s.dispatcher 0 == .exited) (by decide)
  simp only [Bool.and_eq_true, beq_iff_eq] at htest
  obtain ⟨⟨htr, hidle⟩, hexited⟩ := htest
  obtain ⟨E, N, hfair, htrace, -, -⟩ := exists_fairPool (K := fun _ _ => True) hrun hidle
    fun d => Or.inl (by rwa [Subsingleton.elim d 0])
  have hcall : .shutdownCall 0 ∈ E.trace N := by
    rw [htrace, htr]
    exact List.mem_cons_self
  obtain ⟨k, -, hevent⟩ := E.exists_event hcall
  have hpc : (E.state (k + 1)).client 0 = .shutdown .storeOn := by
    rcases E.tick_cases k with ⟨a, -, hnext⟩ | ⟨-, -, hnone⟩
    · rw [hevent] at hnext
      exact next_shutdownCall hnext
    · rw [hevent] at hnone
      cases hnone
  exact ⟨E, hfair, k + 1, hpc, shutdown_returns hfair hpc⟩

/-! ### A pool that is not shut down -/

/-- The step is not the call of a shutdown. -/
def NoShutdown (_ : State n τ) : Action n τ → Prop
  | .client _ .callShutdown => False
  | _ => True

instance (s : State n τ) (a : Action n τ) : Decidable (NoShutdown s a) :=
  match a with
  | .dispatcher _ => isTrue trivial
  | .client _ .callShutdown => isFalse id
  | .client _ (.callSubmit _) => isTrue trivial
  | .client _ .callWait => isTrue trivial
  | .client _ .go => isTrue trivial
  | .client _ .fail => isTrue trivial
  | .client _ (.wake _) => isTrue trivial

/-- The pool has not been shut down. -/
structure Running (s : State n τ) : Prop where
  on : s.shared.on = true
  off : s.shared.off = false
  dispatcher : ∀ d, s.dispatcher d ≠ .testEmptyExit ∧ s.dispatcher d ≠ .unlockExit ∧
    s.dispatcher d ≠ .exited
  client : ∀ c q, s.client c ≠ .shutdown q

/-- A client enters a shutdown by the call of it. -/
theorem clientFunction_enters {c : Nat} {exited : Fin n → Bool} {sh sh' : Shared n τ}
    {pc pc' : ClientPc τ} {move : ClientMove n τ} {e : Option (Event n τ)}
    (h : clientFunction c exited sh pc move = some (sh', pc', e)) (hpc : ∀ q, pc ≠ .shutdown q)
    {q : ShutdownPc} (hq : pc' = .shutdown q) : move = .callShutdown := by
  cases pc with
  | idle => cases move <;> grind [clientFunction]
  | submit pc =>
      cases pc <;> cases move <;>
        grind [clientFunction, threadPoolSubmit, Shared.lock, Shared.signalNewTask]
  | wait pc => cases pc <;> cases move <;> grind [clientFunction, threadPoolWait, Shared.lock]
  | shutdown q' => exact absurd rfl (hpc q')

/-- `Running` holds in every state of a run without a shutdown. -/
theorem running_of_run {tr : List (Event n τ)} {s : State n τ}
    (h : (machine n τ).RunIf NoShutdown tr s) : Running s := by
  refine h.induction (I := fun _ s => Running s) ?_ ?_
  · exact ⟨rfl, rfl, fun d => ⟨by simp [machine, init], by simp [machine, init],
      by simp [machine, init]⟩, fun c q => by simp [machine, init]⟩
  · intro tr s a s' e _ hinv hK hnext
    rcases next_cases hnext with ⟨d, sh, pc, -, hf, rfl⟩ | ⟨c, move, sh, pc, rfl, hf, rfl⟩
    · obtain ⟨hon, hoff, hexit, -, hexited⟩ := dispatcherFunction_flags hf
      refine ⟨hon.trans hinv.on, hoff.trans hinv.off, ?_, hinv.client⟩
      refine forall_update (P := fun (_ : Fin n) (pc : DispatcherPc τ) => pc ≠ .testEmptyExit ∧
        pc ≠ .unlockExit ∧ pc ≠ .exited) ?_ fun d' _ => hinv.dispatcher d'
      have hnot : ¬ (pc = .testEmptyExit ∨ pc = .unlockExit) := by
        intro hpc
        rcases hexit hpc with hold | hset | hset
        · exact (hinv.dispatcher d).1 hold
        · rw [hinv.off] at hset
          cases hset
        · rw [hinv.on] at hset
          cases hset
      exact ⟨fun hpc => hnot (Or.inl hpc), fun hpc => hnot (Or.inr hpc),
        fun hpc => (hinv.dispatcher d).2.1 (hexited hpc)⟩
    · obtain ⟨hon, hoff, -⟩ := clientFunction_flags_of_ne hf (hinv.client c)
      refine ⟨hon.trans hinv.on, hoff.trans hinv.off, hinv.dispatcher, ?_⟩
      refine forall_update (P := fun (_ : Nat) (pc : ClientPc τ) => ∀ q, pc ≠ .shutdown q) ?_
        fun c' _ => hinv.client c'
      intro q hq
      rw [clientFunction_enters hf (hinv.client c) hq] at hK
      exact hK

/-- The dispatcher `d` does the dequeue of `_dispatcher_function` at the time `k`. -/
def DequeuesAt (E : (machine n τ).Execution) (d : Fin n) (k : Nat) : Prop :=
  E.action k = some (.dispatcher d) ∧ (E.state k).dispatcher d = .dequeue

/-- What a step does to the queue: a dequeue takes its first task into the hand of a dispatcher, and
the other steps only append to it. -/
theorem next_queue {s s' : State n τ} {a : Action n τ} {e : Option (Event n τ)}
    (h : next s a = some (s', e)) :
    (∃ d, a = .dispatcher d ∧ s.dispatcher d = .dequeue ∧ s'.shared.queue = s.shared.queue.tail ∧
      ∀ task, s.shared.queue.head? = some task → s'.dispatcher d = .incrInFlight task) ∨
    ((∀ d, a = .dispatcher d → s.dispatcher d ≠ .dequeue) ∧
      s'.shared.queue = s.shared.queue ++ (e.bind enqueuedTask).toList) := by
  rcases next_cases h with ⟨d, sh, pc, rfl, hf, rfl⟩ | ⟨c, move, sh, pc, rfl, hf, rfl⟩
  · by_cases hpc : s.dispatcher d = .dequeue
    · refine Or.inl ⟨d, rfl, hpc, ?_⟩
      rw [hpc] at hf
      cases hq : s.shared.queue with
      | nil =>
          simp only [dispatcherFunction, hq, GenericQueueSyn.dequeue, Option.some.injEq,
            Prod.mk.injEq] at hf
          obtain ⟨rfl, -, -⟩ := hf
          exact ⟨rfl, fun task htask => (by cases htask)⟩
      | cons task rest =>
          simp only [dispatcherFunction, hq, GenericQueueSyn.dequeue, Option.some.injEq,
            Prod.mk.injEq] at hf
          obtain ⟨rfl, rfl, -⟩ := hf
          refine ⟨rfl, fun task' htask => ?_⟩
          obtain rfl : task = task' := by simpa using htask
          exact Function.update_self ..
    · refine Or.inr ⟨fun d' hd' => ?_, ?_⟩
      · obtain rfl := Action.dispatcher.inj hd'
        exact hpc
      have hsame : sh.queue = s.shared.queue := by
        generalize s.dispatcher d = pc₀ at hf hpc
        cases pc₀ with
        | dequeue => exact absurd rfl hpc
        | _ => grind [dispatcherFunction, Shared.lock, Shared.unlock]
      rw [dispatcherFunction_enqueued hf]
      simpa using hsame
  · exact Or.inr ⟨fun d hd => (by cases hd), (clientFunction_tasks hf).1⟩

/-- A bound on the steps to the next dequeue or park, when the queue is not empty. -/
def dequeueLeft : DispatcherPc τ → Nat
  | .exited => 0
  | .dequeue | .unlockExit => 1
  | .unlock => 2
  | .testEmptyExit => 3
  | .testOnExit => 4
  | .testOff => 5
  | .testEmpty => 6
  | .lock | .parked => 7
  | .unlockDone | .condWait => 8
  | .broadcastDone | .testOn => 9
  | .lockDone => 10
  | .decrInFlight => 11
  | .running _ => 12
  | .callFunction _ => 13
  | .incrInFlight _ => 14

/-- While the queue is not empty, a dispatcher that is not parked comes closer to its dequeue. -/
theorem dequeueLeft_lt {d : Fin n} {sh sh' : Shared n τ} {pc pc' : DispatcherPc τ}
    {e : Option (Event n τ)} (h : dispatcherFunction d sh pc = some (sh', pc', e))
    (hqueue : sh.queue ≠ []) (hpc : pc ≠ .dequeue) (hpark : ¬ (pc = .parked ∧ d ∈ sh.newTask)) :
    dequeueLeft pc' < dequeueLeft pc := by
  have hempty : sh.queue.isEmpty = false := by
    rw [Bool.eq_false_iff]
    exact fun h => hqueue ((GenericQueueSyn.isEmpty_iff _).mp h)
  cases pc with
  | dequeue => exact absurd rfl hpc
  | _ => grind [dispatcherFunction, dequeueLeft, Shared.lock]

/-- A queue that is not empty comes to a dequeue. -/
theorem exists_dequeue {E : (machine n τ).Execution} (hn : 0 < n) (hfair : FairPool E)
    (hrunning : ∀ k a, E.action k = some a → NoShutdown (E.state k) a) {N : Nat}
    (hqueue : (E.state N).shared.queue ≠ []) :
    ∃ k, N ≤ k ∧ ∃ d, DequeuesAt E d k := by
  by_contra hnever
  have hnot : ∀ k, N ≤ k → ∀ d, ¬ DequeuesAt E d k := fun k hk d hd => hnever ⟨k, hk, d, hd⟩
  -- Without a dequeue the queue stays non-empty.
  have hqueue : ∀ k, N ≤ k → (E.state k).shared.queue ≠ [] := by
    refine Machine.Execution.forall_of_keep (P := fun k => (E.state k).shared.queue ≠ []) hqueue ?_
    intro k hk hne
    rcases E.tick_cases k with ⟨a, ha, hnext⟩ | ⟨-, hstate, -⟩
    · rcases next_queue hnext with ⟨d, rfl, hpc, -⟩ | ⟨-, hgrow⟩
      · exact absurd ⟨ha, hpc⟩ (hnot k hk d)
      · rw [hgrow]
        exact List.append_ne_nil_of_left_ne_nil hne _
    · rwa [hstate]
  -- So every dispatcher comes to rest, and that is in `pthread_cond_wait`.
  have hdisabled : ∀ d, ∀ᶠ k in atTop,
      ¬ (machine n τ).Enabled (OwnStep (.dispatcher d)) (E.state k) := by
    intro d
    have hlt : ∀ k, N ≤ k → E.Takes (OwnStep (.dispatcher d)) k →
        dequeueLeft ((E.state (k + 1)).dispatcher d) < dequeueLeft ((E.state k).dispatcher d) := by
      intro k hk htakes
      refine dequeueLeft_lt (dispatcherFunction_of_takes E htakes) (hqueue k hk) ?_ ?_
      · obtain ⟨a, ha, hown⟩ := htakes
        cases a with
        | dispatcher d' =>
            obtain rfl : d = d' := Tid.dispatcher.inj hown.1
            exact fun hpc => hnot k hk d ⟨ha, hpc⟩
        | client c move => cases hown.1
      · obtain ⟨a, -, hown⟩ := htakes
        cases a with
        | dispatcher d' =>
            obtain rfl : d = d' := Tid.dispatcher.inj hown.1
            exact hown.2
        | client c move => cases hown.1
    exact (hfair (.dispatcher d)).eventually_disabled (fun s => dequeueLeft (s.dispatcher d))
      (fun k hk => (em (E.Takes (OwnStep (.dispatcher d)) k)).elim (fun h => (hlt k hk h).le)
        fun h => (congrArg dequeueLeft (dispatcher_kept E h).1).le) hlt
  obtain ⟨N₁, hN₁⟩ := eventually_atTop.mp (eventually_all.mpr hdisabled)
  have hrun : ∀ k, Running (E.state k) := fun k => running_of_run (E.runIf hrunning k)
  have hparked : ∀ k, N₁ ≤ k → ∀ d, parkedOnNewTask (E.state k) d := fun k hk d =>
    (dispatcher_settles hfair (fun j hj => hN₁ j hj d) hk).resolve_left ((hrun k).dispatcher d).2.2
  -- A wake-up is on its way, and the client that has to send it will do so.
  let N₂ := max N N₁
  have hasleep : Asleep (E.state N₂) := by
    refine ⟨⟨⟨0, hn⟩, ((hrun N₂).dispatcher _).2.2⟩, fun d _ => ?_⟩
    exact hparked N₂ (le_max_right N N₁) d
  have hpending : ∃ c, signalPending ((E.state N₂).client c) := by
    rcases no_lost_wakeup ⟨_, E.run N₂⟩ hasleep (Or.inl (hqueue N₂ (le_max_left N N₁))) with
      hsignal | ⟨c, hbroadcast⟩
    · exact hsignal
    · generalize hpc : (E.state N₂).client c = pc at hbroadcast
      cases pc with
      | shutdown q => exact absurd hpc ((hrun N₂).client c q)
      | _ => exact hbroadcast.elim
  have hjoin : ∀ c (k : Nat), ∀ᶠ j in atTop,
      (E.state j).client c = (E.state k).client c → joinable (E.state j) c :=
    fun c k => Eventually.of_forall fun j _ i hi hpc => absurd hpc ((hrun j).client c _)
  have hsignals : ∀ c (task : PoolTask τ) (k : Nat), N₁ ≤ k →
      (E.state k).client c ≠ .submit (.signal task) := by
    intro c task k hk hpc
    obtain ⟨j, hj, hsame, htakes⟩ := client_takes hfair (by rw [hpc]; simp)
      (fun hpark => (by rw [parkedOnTaskDone, hpc] at hpark; cases hpark.1)) (hjoin c k)
    obtain ⟨move, hf⟩ := clientFunction_of_takes E htakes
    rw [hsame, hpc] at hf
    -- The signal takes a dispatcher out of `pthread_cond_wait`.
    have hnow := hparked j (hk.trans hj)
    have hthen := hparked (j + 1) ((hk.trans hj).trans (Nat.le_succ j))
    simp only [clientFunction, threadPoolSubmit, Option.map_eq_some_iff, Prod.mk.injEq] at hf
    obtain ⟨sh, hsignal, hsh, -, -⟩ := hf
    cases move with
    | wake d =>
        simp only [Shared.signalNewTask, if_pos (hnow d).2, Option.some.injEq] at hsignal
        have hmem := (hthen d).2
        rw [← hsh, ← hsignal] at hmem
        exact Finset.notMem_erase d _ hmem
    | go =>
        have hmem := (hnow ⟨0, hn⟩).2
        simp only [Shared.signalNewTask, Option.ite_none_right_eq_some] at hsignal
        rw [hsignal.1] at hmem
        exact Finset.notMem_empty _ hmem
    | _ => cases hsignal
  obtain ⟨c, hc⟩ := hpending
  generalize hpc : (E.state N₂).client c = pc at hc
  unfold signalPending at hc
  split at hc
  · rename_i task
    -- The client has still to lock the mutex.
    obtain ⟨j, hj, hsame, htakes⟩ := client_takes hfair (by rw [hpc]; simp)
      (fun hpark => (by rw [parkedOnTaskDone, hpc] at hpark; cases hpark.1)) (hjoin c N₂)
    obtain ⟨move, hf⟩ := clientFunction_of_takes E htakes
    rw [hsame, hpc] at hf
    have hthen : (E.state (j + 1)).client c = .submit (.signal task) := by
      cases move with
      | go =>
          simp only [clientFunction, threadPoolSubmit, Option.map_eq_some_iff,
            Prod.mk.injEq] at hf
          obtain ⟨sh, -, -, hclient, -⟩ := hf
          exact hclient.symm
      | _ => cases hf
    exact hsignals c task (j + 1) (((le_max_right N N₁).trans hj).trans (Nat.le_succ j)) hthen
  · rename_i task
    exact hsignals c task N₂ (le_max_right N N₁) hpc
  · exact hc

/-- Until the first dequeue the queue only grows at its end, and that dequeue takes its first
task. -/
theorem exists_first_dequeue {E : (machine n τ).Execution} (hn : 0 < n) (hfair : FairPool E)
    (hrunning : ∀ k a, E.action k = some a → NoShutdown (E.state k) a) {N : Nat}
    {first : PoolTask τ} {rest : List (PoolTask τ)}
    (hqueue : (E.state N).shared.queue = first :: rest) :
    ∃ k, N ≤ k ∧ (∃ d, (E.state k).dispatcher d = .incrInFlight first) ∧
      ∃ more, (E.state k).shared.queue = rest ++ more := by
  classical
  have hex := exists_dequeue hn hfair hrunning (N := N) (by rw [hqueue]; simp)
  obtain ⟨hk, d, haction, hpc⟩ := Nat.find_spec hex
  have hgrow : ∀ k, N ≤ k → k ≤ Nat.find hex →
      ∃ more, (E.state k).shared.queue = first :: (rest ++ more) := by
    intro k hNk
    induction k, hNk using Nat.le_induction with
    | base => exact fun _ => ⟨[], by simpa using hqueue⟩
    | succ k hNk ih =>
        intro hle
        obtain ⟨more, hmore⟩ := ih (Nat.le_of_succ_le hle)
        have hnot : ∀ d, ¬ DequeuesAt E d k :=
          fun d hd => Nat.find_min hex (Nat.lt_of_succ_le hle) ⟨hNk, d, hd⟩
        rcases E.tick_cases k with ⟨a, ha, hnext⟩ | ⟨-, hstate, -⟩
        · rcases next_queue hnext with ⟨d, rfl, hd, -⟩ | ⟨-, happend⟩
          · exact absurd ⟨ha, hd⟩ (hnot d)
          · refine ⟨more ++ ((E.event k).bind enqueuedTask).toList, ?_⟩
            rw [happend, hmore, List.cons_append, List.append_assoc]
        · rw [hstate]
          exact ⟨more, hmore⟩
  obtain ⟨more, hmore⟩ := hgrow _ hk le_rfl
  generalize Nat.find hex = k at hk haction hpc hmore
  rcases E.tick_cases k with ⟨a, ha, hnext⟩ | ⟨hnone, -, -⟩
  · obtain rfl : a = .dispatcher d := Option.some.inj (ha.symm.trans haction)
    change next (E.state k) (.dispatcher d) = some (E.state (k + 1), E.event k) at hnext
    rcases next_queue hnext with ⟨d', hd', -, htail, hhand⟩ | ⟨hnot, -⟩
    · rw [hmore] at htail hhand
      exact ⟨k + 1, Nat.le_succ_of_le hk, ⟨d', hhand first rfl⟩, more, htail⟩
    · exact absurd hpc (hnot d rfl)
  · rw [haction] at hnone
    cases hnone

/-- A task in the queue comes into the hand of a dispatcher. -/
theorem exists_taken {E : (machine n τ).Execution} (hn : 0 < n) (hfair : FairPool E)
    (hrunning : ∀ k a, E.action k = some a → NoShutdown (E.state k) a) {N : Nat}
    {task : PoolTask τ} {pre post : List (PoolTask τ)}
    (hqueue : (E.state N).shared.queue = pre ++ task :: post) :
    ∃ k, N ≤ k ∧ ∃ d, (E.state k).dispatcher d = .incrInFlight task := by
  induction pre generalizing N post with
  | nil =>
      obtain ⟨k, hk, htaken, -⟩ := exists_first_dequeue hn hfair hrunning hqueue
      exact ⟨k, hk, htaken⟩
  | cons first pre ih =>
      obtain ⟨k, hk, -, more, hmore⟩ := exists_first_dequeue hn hfair hrunning hqueue
      obtain ⟨j, hj, htaken⟩ := ih (hmore.trans (List.append_assoc pre (task :: post) more))
      exact ⟨j, hk.trans hj, htaken⟩

/-- A dispatcher with a task in its hand goes on to the next program point. -/
theorem dispatcher_next {E : (machine n τ).Execution} (hfair : FairPool E) {d : Fin n} {k : Nat}
    {pc : DispatcherPc τ} (hpc : (E.state k).dispatcher d = pc) (hexit : pc ≠ .exited)
    (hpark : pc ≠ .parked) :
    ∃ j, k ≤ j ∧ dispatcherFunction d (E.state j).shared pc
      = some ((E.state (j + 1)).shared, (E.state (j + 1)).dispatcher d, E.event j) := by
  obtain ⟨j, hj, hsame, htakes⟩ := dispatcher_takes hfair (by rw [hpc]; exact hexit)
    (fun h => hpark (hpc.symm.trans h.1))
  have hf := dispatcherFunction_of_takes E htakes
  rw [hsame, hpc] at hf
  exact ⟨j, hj, hf⟩

/-- A task in the hand of a dispatcher is called, and its function returns. -/
theorem held_returns {E : (machine n τ).Execution} (hfair : FairPool E) {d : Fin n} {k : Nat}
    {task : PoolTask τ} (h : held ((E.state k).dispatcher d) = {task}) :
    ∃ j, k ≤ j ∧ E.event j = some (.returned d task) := by
  -- From the call on, from the count of the task on, and from the dequeue on.
  have hrunning : ∀ k, (E.state k).dispatcher d = .running task →
      ∃ j, k ≤ j ∧ E.event j = some (.returned d task) := by
    intro k hpc
    obtain ⟨j, hj, hf⟩ := dispatcher_next hfair hpc (by simp) (by simp)
    simp only [dispatcherFunction, Option.some.injEq, Prod.mk.injEq] at hf
    exact ⟨j, hj, hf.2.2.symm⟩
  have hcall : ∀ k, (E.state k).dispatcher d = .callFunction task →
      ∃ j, k ≤ j ∧ E.event j = some (.returned d task) := by
    intro k hpc
    obtain ⟨j, hj, hf⟩ := dispatcher_next hfair hpc (by simp) (by simp)
    simp only [dispatcherFunction, Option.some.injEq, Prod.mk.injEq] at hf
    obtain ⟨i, hi, hret⟩ := hrunning (j + 1) hf.2.1.symm
    exact ⟨i, by omega, hret⟩
  generalize hpc : (E.state k).dispatcher d = pc at h
  cases pc with
  | incrInFlight task' =>
      obtain rfl : task' = task := by simpa [held] using h
      obtain ⟨j, hj, hf⟩ := dispatcher_next hfair hpc (by simp) (by simp)
      simp only [dispatcherFunction, Option.some.injEq, Prod.mk.injEq] at hf
      obtain ⟨i, hi, hret⟩ := hcall (j + 1) hf.2.1.symm
      exact ⟨i, by omega, hret⟩
  | callFunction task' =>
      obtain rfl : task' = task := by simpa [held] using h
      exact hcall k hpc
  | running task' =>
      obtain rfl : task' = task := by simpa [held] using h
      exact hrunning k hpc
  | _ => simp [held] at h

/-- In a fair execution of a pool with a dispatcher that is not shut down, the function of every
task that is enqueued is called and returns. -/
theorem task_returns {E : (machine n τ).Execution} (hn : 0 < n) (hfair : FairPool E)
    (hrunning : ∀ k a, E.action k = some a → NoShutdown (E.state k) a) {k : Nat}
    {task : PoolTask τ} (h : E.event k = some (.enqueued task)) :
    ∃ j, k ≤ j ∧ ∃ d, E.event j = some (.returned d task) := by
  have hmem : task ∈ (enqueuedTasks (E.trace (k + 1)) : Multiset (PoolTask τ)) :=
    List.mem_filterMap.mpr ⟨_, E.mem_trace h (Nat.lt_succ_self k), rfl⟩
  rw [(tasksInv_of_run (E.run (k + 1))).tasks, Multiset.mem_add, Multiset.mem_add] at hmem
  rcases hmem with (hqueue | hheld) | hreturned
  · obtain ⟨pre, post, hqueue⟩ := List.append_of_mem (Multiset.mem_coe.mp hqueue)
    obtain ⟨i, hi, d, hpc⟩ := exists_taken hn hfair hrunning hqueue
    have hheld : held ((E.state i).dispatcher d) = {task} := by
      rw [hpc]
      rfl
    obtain ⟨j, hj, hret⟩ := held_returns hfair hheld
    exact ⟨j, by omega, d, hret⟩
  · obtain ⟨d, -, hd⟩ := Multiset.mem_sum.mp hheld
    have hone : held ((E.state (k + 1)).dispatcher d) = {task} := by
      generalize (E.state (k + 1)).dispatcher d = pc at hd
      cases pc <;> simp_all [held]
    obtain ⟨j, hj, hret⟩ := held_returns hfair hone
    exact ⟨j, by omega, d, hret⟩
  · -- The task is enqueued at the time `k`, so it has not returned before.
    have hnodup := enqueuedTasks_nodup (E.run (k + 1))
    rw [E.trace_succ, h] at hreturned hnodup
    rw [enqueuedTasks, List.filterMap_append] at hnodup
    have hbefore : task ∈ returnedTasks (E.trace k) := by
      simpa [returnedTasks, returnedTask] using hreturned
    have hold := mem_enqueuedTasks_of_returned (E.run k) hbefore
    exact (List.disjoint_of_nodup_append hnodup hold (by simp [enqueuedTask])).elim

/-- A dispatcher goes to sleep, and a task is submitted then. The signal wakes the dispatcher. -/
theorem task_returns_signalled : ∃ (E : (machine 1 Nat).Execution) (k : Nat), FairPool E ∧
    E.event k = some (.enqueued ⟨0, 7⟩) ∧
    ∃ j, k ≤ j ∧ ∃ d, E.event j = some (.returned d ⟨0, 7⟩) := by
  let d : Action 1 Nat := .dispatcher 0
  let go : Action 1 Nat := .client 0 .go
  let task : PoolTask Nat := ⟨0, 7⟩
  obtain ⟨tr, s, hrun, htest⟩ := Machine.runIf_of_exec (M := machine 1 Nat)
    (K := fun s a => byFirstClient a = true ∧ NoShutdown s a)
    (List.replicate 4 d ++ [.client 0 (.callSubmit 7), go, go, go, go, .client 0 (.wake 0), go]
      ++ List.replicate 17 d)
    (fun tr s => tr == [.submitCall 0 7, .enqueued task, .submitted 0 task, .called 0 task,
      .returned 0 task] && s.client 0 == .idle && s.dispatcher 0 == .parked
      && (0 ∈ s.shared.newTask)) (by decide)
  simp only [Bool.and_eq_true, beq_iff_eq, decide_eq_true_eq] at htest
  obtain ⟨⟨⟨htr, hidle⟩, hparked⟩, hmem⟩ := htest
  obtain ⟨E, N, hfair, htrace, -, hK⟩ := exists_fairPool hrun hidle
    fun d => Or.inr (by rw [Subsingleton.elim d 0]; exact ⟨hparked, hmem⟩)
  have henqueued : .enqueued task ∈ E.trace N := by
    rw [htrace, htr]
    simp
  obtain ⟨k, -, hevent⟩ := E.exists_event henqueued
  exact ⟨E, k, hfair, hevent, task_returns Nat.one_pos hfair hK hevent⟩

/-! ### The return of a wait -/

/-- When no more tasks come, the queue is empty from some time on. -/
theorem eventually_queue_empty {E : (machine n τ).Execution} (hn : 0 < n) (hfair : FairPool E)
    (hrunning : ∀ k a, E.action k = some a → NoShutdown (E.state k) a)
    (hlast : ∀ᶠ k in atTop, ∀ task, E.event k ≠ some (.enqueued task)) :
    ∀ᶠ k in atTop, (E.state k).shared.queue = [] := by
  obtain ⟨N, hN⟩ := eventually_atTop.mp hlast
  have hnone : ∀ k, N ≤ k → (E.event k).bind enqueuedTask = none := by
    intro k hk
    have hevent := hN k hk
    generalize E.event k = e at hevent
    cases e with
    | none => rfl
    | some x =>
        cases x with
        | enqueued task => exact absurd rfl (hevent task)
        | _ => rfl
  have hle : ∀ k, N ≤ k →
      (E.state (k + 1)).shared.queue.length ≤ (E.state k).shared.queue.length := by
    intro k hk
    rcases E.tick_cases k with ⟨a, -, hnext⟩ | ⟨-, hstate, -⟩
    · rcases next_queue hnext with ⟨d, -, -, htail, -⟩ | ⟨-, hgrow⟩
      · rw [htail, List.length_tail]
        exact Nat.sub_le _ 1
      · rw [hgrow, hnone k hk, Option.toList_none, List.append_nil]
    · rw [hstate]
  obtain ⟨N', hN', hconst⟩ := Machine.Execution.eventually_eq_of_antitone
    (f := fun k => (E.state k).shared.queue.length) hle
  refine eventually_atTop.mpr ⟨N', fun k hk => ?_⟩
  by_contra hne
  -- A dequeue would make the queue shorter.
  have hlength : ∀ j, k ≤ j →
      (E.state j).shared.queue.length = (E.state k).shared.queue.length := by
    refine Machine.Execution.forall_of_keep
      (P := fun j => (E.state j).shared.queue.length = (E.state k).shared.queue.length) rfl ?_
    exact fun j hj hsame => (hconst j (hk.trans hj)).trans hsame
  obtain ⟨j, hj, d, haction, hpc⟩ := exists_dequeue hn hfair hrunning hne
  have hpos : 0 < (E.state j).shared.queue.length := by
    rw [hlength j hj]
    exact List.length_pos_iff.mpr hne
  rcases E.tick_cases j with ⟨a, ha, hnext⟩ | ⟨hrest, -, -⟩
  · obtain rfl : a = .dispatcher d := Option.some.inj (ha.symm.trans haction)
    change next (E.state j) (.dispatcher d) = some (E.state (j + 1), E.event j) at hnext
    rcases next_queue hnext with ⟨d', -, -, htail, -⟩ | ⟨hnot, -⟩
    · have hshort := hconst j (hk.trans hj)
      simp only [htail, List.length_tail] at hshort
      omega
    · exact hnot d rfl hpc
  · rw [haction] at hrest
    cases hrest

/-- The steps that a dispatcher takes before it is no longer busy. -/
def busyLeft : DispatcherPc τ → Nat
  | .incrInFlight _ => 6
  | .callFunction _ => 5
  | .running _ => 4
  | .decrInFlight => 3
  | .lockDone => 2
  | .broadcastDone => 1
  | _ => 0

/-- A busy dispatcher comes closer to its broadcast, and with an empty queue no dispatcher gets
busy. -/
theorem busyLeft_step {d : Fin n} {sh sh' : Shared n τ} {pc pc' : DispatcherPc τ}
    {e : Option (Event n τ)} (h : dispatcherFunction d sh pc = some (sh', pc', e))
    (hqueue : sh.queue = []) :
    busyLeft pc' ≤ busyLeft pc ∧ (busy pc → busyLeft pc' < busyLeft pc) := by
  cases pc with
  | dequeue => grind [dispatcherFunction, GenericQueueSyn.dequeue_nil, busyLeft, busy]
  | _ => grind [dispatcherFunction, busyLeft, busy, Shared.lock]

/-- When the queue stays empty, no dispatcher is busy from some time on. -/
theorem eventually_not_busy {E : (machine n τ).Execution} (hfair : FairPool E)
    (hempty : ∀ᶠ k in atTop, (E.state k).shared.queue = []) :
    ∀ᶠ k in atTop, ∀ d, ¬ busy ((E.state k).dispatcher d) := by
  obtain ⟨N, hN⟩ := eventually_atTop.mp hempty
  refine eventually_all.mpr fun d => ?_
  have hle : ∀ k, N ≤ k →
      busyLeft ((E.state (k + 1)).dispatcher d) ≤ busyLeft ((E.state k).dispatcher d) := by
    intro k hk
    by_cases htakes : E.Takes (OwnStep (.dispatcher d)) k
    · exact (busyLeft_step (dispatcherFunction_of_takes E htakes) (hN k hk)).1
    · exact (congrArg busyLeft (dispatcher_kept E htakes).1).le
  obtain ⟨N', hN', hconst⟩ := Machine.Execution.eventually_eq_of_antitone
    (f := fun k => busyLeft ((E.state k).dispatcher d)) hle
  refine eventually_atTop.mpr ⟨N', fun k hk hbusy => ?_⟩
  obtain ⟨j, hj, hsame, htakes⟩ := dispatcher_takes hfair (d := d) (k := k)
    (fun hexit => (by rw [hexit] at hbusy; exact hbusy))
    (fun hpark => (by rw [hpark.1] at hbusy; exact hbusy))
  have hlt := (busyLeft_step (dispatcherFunction_of_takes E htakes)
    (hN j (by omega))).2 (hsame ▸ hbusy)
  exact absurd (hconst j (hk.trans hj)) hlt.ne

/-- A client stays in `thread_pool_wait` until the return from it. -/
theorem clientFunction_stays {c : Nat} {exited : Fin n → Bool} {sh sh' : Shared n τ} {pc : WaitPc}
    {pc' : ClientPc τ} {move : ClientMove n τ} {e : Option (Event n τ)}
    (h : clientFunction c exited sh (.wait pc) move = some (sh', pc', e)) :
    (∃ pc₁, pc' = .wait pc₁) ∨ e = some (.waitRet c) := by
  cases pc <;> cases move <;> grind [clientFunction, threadPoolWait, Shared.lock]

/-- A bound on the steps that a waiter still takes when there is nothing to wait for. -/
def waitLeft : WaitPc → Nat
  | .condWait => 5
  | .lock | .parked => 4
  | .testEmpty => 3
  | .testInFlight => 2
  | .unlock => 1

/-- When there is nothing to wait for, a waiter comes closer to its return. -/
theorem waitLeft_lt {c : Nat} {exited : Fin n → Bool} {sh sh' : Shared n τ} {pc : WaitPc}
    {pc' : ClientPc τ} {move : ClientMove n τ} {e : Option (Event n τ)}
    (h : clientFunction c exited sh (.wait pc) move = some (sh', pc', e)) (hqueue : sh.queue = [])
    (hzero : sh.inFlight = 0) (hpark : c ∉ sh.taskDone) :
    (∃ pc₁, pc' = .wait pc₁ ∧ waitLeft pc₁ < waitLeft pc) ∨ e = some (.waitRet c) := by
  have hempty : sh.queue.isEmpty = true := (GenericQueueSyn.isEmpty_iff _).mpr hqueue
  cases pc <;> cases move <;> grind [clientFunction, threadPoolWait, Shared.lock, waitLeft]

/-- The call of a wait leads to its first program point. -/
theorem next_waitCall {s s' : State n τ} {a : Action n τ} {c : Nat}
    (h : next s a = some (s', some (.waitCall c))) : s'.client c = .wait .lock := by
  rcases next_cases h with ⟨d, sh, pc, -, hf, rfl⟩ | ⟨c', move, sh, pc, -, hf, rfl⟩
  · rcases dispatcherFunction_event hf _ rfl with ⟨_, hx⟩ | ⟨_, hx⟩ <;> cases hx
  · obtain ⟨rfl, rfl⟩ := (clientFunction_wait hf).2.2.1 c rfl
    exact Function.update_self ..

/-- In a fair execution of a pool with a dispatcher that is not shut down, every `thread_pool_wait`
returns when no more tasks come. -/
theorem wait_returns {E : (machine n τ).Execution} (hn : 0 < n) (hn' : n < 2 ^ 64)
    (hfair : FairPool E) (hrunning : ∀ k a, E.action k = some a → NoShutdown (E.state k) a)
    (hlast : ∀ᶠ k in atTop, ∀ task, E.event k ≠ some (.enqueued task)) {c k : Nat} {pc : WaitPc}
    (h : (E.state k).client c = .wait pc) :
    ∃ j, k ≤ j ∧ E.event j = some (.waitRet c) := by
  by_contra hnever
  have hnot : ∀ j, k ≤ j → E.event j ≠ some (.waitRet c) := fun j hj he => hnever ⟨j, hj, he⟩
  -- The waiter stays in the function for ever.
  have hstays : ∀ j, k ≤ j → ∃ pc, (E.state j).client c = .wait pc := by
    refine Machine.Execution.forall_of_keep (P := fun j => ∃ pc, (E.state j).client c = .wait pc)
      ⟨pc, h⟩ ?_
    rintro j hj ⟨pc, hpc⟩
    by_cases htakes : E.Takes (OwnStep (.client c)) j
    · obtain ⟨move, hf⟩ := clientFunction_of_takes E htakes
      rw [hpc] at hf
      exact (clientFunction_stays hf).resolve_right (hnot j hj)
    · exact ⟨pc, (client_kept E htakes (by rw [hpc]; simp)).1.trans hpc⟩
  -- From some time on there is nothing to wait for.
  have hempty := eventually_queue_empty hn hfair hrunning hlast
  obtain ⟨N, hN⟩ := eventually_atTop.mp (hempty.and (eventually_not_busy hfair hempty))
  have hdrained : ∀ j a, E.action j = some a → QueueDrained (E.state j) a := by
    intro j a _
    have hrun := running_of_run (E.runIf hrunning j)
    cases a with
    | dispatcher d => exact fun hpc => absurd hpc (hrun.dispatcher d).2.1
    | client c move =>
        cases move with
        | go => exact fun _ => ⟨⟨0, hn⟩, (hrun.dispatcher _).2.2⟩
        | _ => trivial
  have hnothing : ∀ j, N ≤ j → (E.state j).shared.inFlight = 0 ∧ c ∉ (E.state j).shared.taskDone := by
    intro j hj
    obtain ⟨hqueue, hbusy⟩ := hN j hj
    constructor
    · by_contra hpos
      obtain ⟨d, hd⟩ := exists_busy hn' (E.run j) hpos
      exact hbusy d hd
    · intro hmem
      rcases (waiterInv_of_run hn' (E.runIf hdrained j)).waiting c (Or.inr hmem) with hne | ⟨d, hd⟩
      · exact hne hqueue
      · exact hbusy d hd
  -- So each step of the waiter comes closer to its return.
  have hreturn : ∀ m j pc, N ≤ j → k ≤ j → (E.state j).client c = .wait pc → waitLeft pc = m →
      False := by
    intro m
    induction m using Nat.strong_induction_on with
    | _ m ih =>
        intro j pc hNj hkj hpc hm
        obtain ⟨i, hi, hsame, htakes⟩ := client_takes hfair (c := c) (k := j) (by rw [hpc]; simp)
          (fun hpark => (hnothing j hNj).2 hpark.2)
          (Eventually.of_forall fun i hsame _ _ hjoin => (by rw [hsame, hpc] at hjoin; cases hjoin))
        obtain ⟨move, hf⟩ := clientFunction_of_takes E htakes
        rw [hsame, hpc] at hf
        obtain ⟨hzero, hpark⟩ := hnothing i (hNj.trans hi)
        rcases waitLeft_lt hf (hN i (hNj.trans hi)).1 hzero hpark with ⟨pc₁, hpc₁, hlt⟩ | hret
        · exact ih _ (hm ▸ hlt) (i + 1) pc₁ (by omega) (by omega) hpc₁ rfl
        · exact hnot i (by omega) hret
  obtain ⟨pc', hpc'⟩ := hstays (max N k) (le_max_right N k)
  exact hreturn _ _ pc' (le_max_left N k) (le_max_right N k) hpc' rfl

/-- A wait is called while a task is in the queue. It parks, and the broadcast after the task wakes
it. -/
theorem wait_returns_broadcast : ∃ (E : (machine 1 Nat).Execution) (k : Nat), FairPool E ∧
    (E.state k).client 0 = .wait .lock ∧ ∃ j, k ≤ j ∧ E.event j = some (.waitRet 0) := by
  let d : Action 1 Nat := .dispatcher 0
  let go : Action 1 Nat := .client 0 .go
  obtain ⟨tr, s, hrun, htest⟩ := Machine.runIf_of_exec (M := machine 1 Nat)
    (K := fun s a => byFirstClient a = true ∧ NoShutdown s a)
    ([.client 0 (.callSubmit 7), go, go, go, go, go, go]
      ++ [.client 0 .callWait, go, go, go] ++ List.replicate 17 d ++ [go, go, go, go])
    (fun tr s => (.waitCall 0 ∈ tr) && s.client 0 == .idle && s.dispatcher 0 == .parked
      && (0 ∈ s.shared.newTask)) (by decide)
  simp only [Bool.and_eq_true, beq_iff_eq, decide_eq_true_eq] at htest
  obtain ⟨⟨⟨hcall, hidle⟩, hparked⟩, hmem⟩ := htest
  obtain ⟨E, N, hfair, htrace, hquiet, hK⟩ := exists_fairPool hrun hidle
    fun d => Or.inr (by rw [Subsingleton.elim d 0]; exact ⟨hparked, hmem⟩)
  obtain ⟨k, -, hevent⟩ := E.exists_event (htrace.symm ▸ hcall)
  have hpc : (E.state (k + 1)).client 0 = .wait .lock := by
    rcases E.tick_cases k with ⟨a, -, hnext⟩ | ⟨-, -, hnone⟩
    · rw [hevent] at hnext
      exact next_waitCall hnext
    · rw [hevent] at hnone
      cases hnone
  have hlast : ∀ᶠ j in atTop, ∀ task, E.event j ≠ some (.enqueued task) :=
    eventually_atTop.mpr ⟨N, fun j hj task => (by rw [hquiet j hj]; simp)⟩
  exact ⟨E, k + 1, hfair, hpc, wait_returns Nat.one_pos (by decide) hfair hK hlast hpc⟩

end

end Miez.Proofs.ThreadPool
