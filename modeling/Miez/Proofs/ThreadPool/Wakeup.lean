import Miez.Proofs.ThreadPool.Conservation

/-!
# `Miez.Proofs.ThreadPool.Wakeup`: no dispatcher sleeps through work

`thread_pool_submit` enqueues before it takes `_mutex`, and `thread_pool_shutdown` clears
`_on` before it takes `_mutex`. So a dispatcher can find the queue empty, or `_on` set, and
the answer can be stale by the time it parks. The dispatcher holds `_mutex` from the test to
the park, so whoever made the answer stale has not sent its signal yet (`sawEmpty` and
`quiet` of `WakeInv`). From there the invariant follows the last awake dispatcher:
`no_lost_wakeup` says that the dispatchers are never all parked while there is work or a
shutdown to see, unless a signal or the broadcast is still to come.
-/

set_option autoImplicit false

namespace Miez.Proofs.ThreadPool

open Miez.Lib
open Miez.ThreadPool

section
variable {n : Nat} {τ : Type}

/-- The dispatcher `d` is parked on `_new_task`: it is inside `pthread_cond_wait` and no
signal or broadcast has reached it. -/
def parkedOnNewTask (s : State n τ) (d : Fin n) : Prop :=
  s.dispatcher d = .parked ∧ d ∈ s.shared.newTask

/-- There is a dispatcher that has not exited, and all of them are parked on `_new_task`. -/
def Asleep (s : State n τ) : Prop :=
  (∃ d, s.dispatcher d ≠ .exited) ∧ ∀ d, s.dispatcher d ≠ .exited → parkedOnNewTask s d

/-- A submit that has enqueued its task and has still to execute its signal. -/
def signalPending : ClientPc τ → Prop
  | .submit (.lock _) | .submit (.signal _) => True
  | _ => False

/-- A shutdown that has cleared `_on` and has still to execute its broadcast. -/
def broadcastPending : ClientPc τ → Prop
  | .shutdown .storeOff | .shutdown .lock | .shutdown .broadcast => True
  | _ => False

/-! ### What a step does to the parked dispatchers, the flags and the queue -/

/-- A step of a dispatcher parks or wakes that dispatcher only. -/
theorem dispatcherFunction_newTask {d : Fin n} {sh sh' : Shared n τ} {pc pc' : DispatcherPc τ}
    {e : Option (Event n τ)} (h : dispatcherFunction d sh pc = some (sh', pc', e)) :
    ∀ d' ∈ sh'.newTask, (d' = d ∧ pc = .condWait ∧ pc' = .parked) ∨
      (d' ∈ sh.newTask ∧ (d' = d → pc ≠ .parked)) := by
  cases pc <;>
    grind [dispatcherFunction, Shared.lock, Shared.unlock, GenericQueueSyn.dequeue]

/-- A dispatcher does not write the flags. It decides to exit only after it has read `_off`
set or `_on` cleared. -/
theorem dispatcherFunction_flags {d : Fin n} {sh sh' : Shared n τ} {pc pc' : DispatcherPc τ}
    {e : Option (Event n τ)} (h : dispatcherFunction d sh pc = some (sh', pc', e)) :
    sh'.on = sh.on ∧ sh'.off = sh.off ∧
    (pc' = .testEmptyExit ∨ pc' = .unlockExit →
      pc = .testEmptyExit ∨ sh.off = true ∨ sh.on = false) ∧
    (pc' = .condWait → sh.on = true) ∧ (pc' = .exited → pc = .unlockExit) := by
  cases pc <;>
    grind [dispatcherFunction, Shared.lock, Shared.unlock, GenericQueueSyn.dequeue]

/-- A dispatcher only takes tasks out of the queue, and it goes on to the test of `_on` only
after it has found the queue empty. -/
theorem dispatcherFunction_queue {d : Fin n} {sh sh' : Shared n τ} {pc pc' : DispatcherPc τ}
    {e : Option (Event n τ)} (h : dispatcherFunction d sh pc = some (sh', pc', e)) :
    sh'.queue ⊆ sh.queue ∧ (pc' = .testOn → sh'.queue = []) ∧
    (pc' = .condWait → pc = .testOn) := by
  cases pc with
  | dequeue =>
      cases hq : sh.queue with
      | nil => grind [dispatcherFunction, GenericQueueSyn.dequeue_nil]
      | cons task rest => grind [dispatcherFunction, GenericQueueSyn.dequeue_cons]
  | _ => grind [dispatcherFunction, Shared.lock, Shared.unlock, GenericQueueSyn.isEmpty_iff]

/-- The steps of a client that matter to the dispatchers. It enqueues and owes a signal, it
pays the signal, it clears `_on` and owes the broadcast, or it pays the broadcast. Every
other step keeps the queue, the parked dispatchers and what the client owes. -/
theorem clientFunction_wake {c : Nat} {exited : Fin n → Bool} {sh sh' : Shared n τ}
    {pc pc' : ClientPc τ} {move : ClientMove n τ} {e : Option (Event n τ)}
    (h : clientFunction c exited sh pc move = some (sh', pc', e)) :
    (signalPending pc' ∧ sh'.newTask = sh.newTask ∧ sh'.on = sh.on ∧ ¬ broadcastPending pc) ∨
    (clientHolds pc ∧ sh'.on = sh.on ∧ ¬ broadcastPending pc ∧
      ((∃ d ∈ sh.newTask, sh'.newTask = sh.newTask.erase d) ∨ sh.newTask = ∅ ∧ sh'.newTask = ∅)) ∨
    (broadcastPending pc' ∧ sh'.queue = sh.queue ∧ sh'.newTask = sh.newTask ∧
      ¬ signalPending pc) ∨
    (clientHolds pc ∧ sh'.newTask = ∅ ∧ sh'.on = sh.on) ∨
    (sh'.queue = sh.queue ∧ sh'.newTask = sh.newTask ∧ sh'.on = sh.on ∧ ¬ signalPending pc ∧
      ¬ broadcastPending pc) := by
  cases pc with
  | idle => cases move <;> grind [clientFunction, signalPending, broadcastPending]
  | submit pc =>
      cases pc <;> cases move <;>
        grind [clientFunction, threadPoolSubmit, Shared.lock, Shared.unlock,
          Shared.signalNewTask, signalPending, broadcastPending, clientHolds]
  | wait pc =>
      cases pc <;> cases move <;>
        grind [clientFunction, threadPoolWait, Shared.lock, Shared.unlock, signalPending,
          broadcastPending]
  | shutdown pc =>
      cases pc <;> cases move <;>
        grind [clientFunction, threadPoolShutdown, Shared.lock, Shared.unlock, signalPending,
          broadcastPending, clientHolds]

/-- A submit and a wait write neither flag and stay out of the shutdown. -/
theorem clientFunction_flags_of_ne {c : Nat} {exited : Fin n → Bool} {sh sh' : Shared n τ}
    {pc pc' : ClientPc τ} {move : ClientMove n τ} {e : Option (Event n τ)}
    (h : clientFunction c exited sh pc move = some (sh', pc', e))
    (hpc : ∀ q, pc ≠ .shutdown q) :
    sh'.on = sh.on ∧ sh'.off = sh.off ∧ (∀ q, pc' = .shutdown q → q = .storeOn) := by
  cases pc with
  | idle => cases move <;> grind [clientFunction]
  | submit pc =>
      cases pc with
      | signal task =>
          simp only [clientFunction, threadPoolSubmit, Option.map_eq_some_iff, Prod.mk.injEq] at h
          obtain ⟨sh₁, hsig, rfl, rfl, rfl⟩ := h
          cases move <;> grind [Shared.signalNewTask]
      | _ =>
          cases move <;> grind [clientFunction, threadPoolSubmit, Shared.lock, Shared.unlock]
  | wait pc =>
      cases move with
      | go => cases pc <;> grind [clientFunction, threadPoolWait, Shared.lock, Shared.unlock]
      | _ => simp [clientFunction] at h
  | shutdown pc => exact absurd rfl (hpc pc)

/-- The shutdown clears `_on` first and sets `_off` next, and it writes no other flag. -/
theorem threadPoolShutdown_flags {c : Nat} {exited : Fin n → Bool} {sh sh' : Shared n τ}
    {pc : ShutdownPc} {pc' : ClientPc τ} {e : Option (Event n τ)}
    (h : threadPoolShutdown c exited sh pc = some (sh', pc', e)) :
    (pc = .storeOn ∧ sh'.on = false ∧ sh'.off = sh.off) ∨
    (pc ≠ .storeOn ∧ sh'.on = sh.on ∧ (sh'.off = sh.off ∨ pc = .storeOff)) := by
  cases pc <;> grind [threadPoolShutdown, Shared.lock, Shared.unlock]

/-- `_on` is only cleared, `_off` is set by a shutdown that has cleared `_on`, and a client is
past the first store of its shutdown only if `_on` is cleared. -/
theorem clientFunction_flags {c : Nat} {exited : Fin n → Bool} {sh sh' : Shared n τ}
    {pc pc' : ClientPc τ} {move : ClientMove n τ} {e : Option (Event n τ)}
    (h : clientFunction c exited sh pc move = some (sh', pc', e)) :
    (sh.on = false → sh'.on = false) ∧
    (sh'.off = sh.off ∨ pc = .shutdown .storeOff) ∧
    (∀ q, pc' = .shutdown q → q ≠ .storeOn →
      sh'.on = false ∨ ∃ q', pc = .shutdown q' ∧ q' ≠ .storeOn) := by
  by_cases hpc : ∀ q, pc ≠ .shutdown q
  · obtain ⟨hon, hoff, hstart⟩ := clientFunction_flags_of_ne h hpc
    exact ⟨fun hcleared => hon ▸ hcleared, Or.inl hoff,
      fun q hq hne => absurd (hstart q hq) hne⟩
  · push Not at hpc
    obtain ⟨pc, rfl⟩ := hpc
    have hgo : threadPoolShutdown c exited sh pc = some (sh', pc', e) := by
      cases move <;> simp_all [clientFunction]
    rcases threadPoolShutdown_flags hgo with ⟨-, hon, hoff⟩ | ⟨hne, hon, hoff⟩
    · exact ⟨fun _ => hon, Or.inl hoff, fun _ _ _ => Or.inl hon⟩
    · refine ⟨fun hcleared => hon ▸ hcleared, ?_, fun _ _ _ => Or.inr ⟨pc, rfl, hne⟩⟩
      exact hoff.imp_right fun (hpc : pc = .storeOff) => by rw [hpc]

/-- What a cleared `_on` or a set `_off` can be read from. -/
structure FlagInv (s : State n τ) : Prop where
  shutdown : ∀ c pc, s.client c = .shutdown pc → pc ≠ .storeOn → s.shared.on = false
  off : s.shared.off = true → s.shared.on = false
  exit : ∀ d, s.dispatcher d = .testEmptyExit ∨ s.dispatcher d = .unlockExit →
    s.shared.on = false

/-- `FlagInv` holds in every state of a run. -/
theorem flagInv_of_run {K : State n τ → Action n τ → Prop} {tr : List (Event n τ)}
    {s : State n τ} (h : (machine n τ).RunIf K tr s) : FlagInv s := by
  refine h.induction (I := fun _ s => FlagInv s) ?_ ?_
  · constructor <;> simp [machine, init]
  · intro tr s a s' e _ hinv _ hnext
    rcases next_cases hnext with ⟨d, sh, pc, -, hf, rfl⟩ | ⟨c, move, sh, pc, -, hf, rfl⟩
    · obtain ⟨hon, hoff, hexit, -, -⟩ := dispatcherFunction_flags hf
      refine ⟨?_, ?_, ?_⟩ <;> simp only [hon, hoff]
      · exact hinv.shutdown
      · exact hinv.off
      · refine forall_update
          (P := fun _ pc => pc = DispatcherPc.testEmptyExit ∨ pc = DispatcherPc.unlockExit →
            s.shared.on = false) ?_ ?_
        · intro hpc
          rcases hexit hpc with hold | hoff | hon
          · exact hinv.exit d (Or.inl hold)
          · exact hinv.off hoff
          · exact hon
        · intro d' _
          exact hinv.exit d'
    · obtain ⟨hon, hoff, hshut⟩ := clientFunction_flags hf
      refine ⟨?_, ?_, ?_⟩
      · refine forall_update
          (P := fun _ pc => ∀ q, pc = ClientPc.shutdown q → q ≠ ShutdownPc.storeOn → sh.on = false) ?_ ?_
        · intro q hq hne
          rcases hshut q hq hne with hcleared | ⟨q', hq', hne'⟩
          · exact hcleared
          · exact hon (hinv.shutdown c q' hq' hne')
        · intro c' _ q hq hne
          exact hon (hinv.shutdown c' q hq hne)
      · intro hset
        rcases hoff with hsame | hstore
        · exact hon (hinv.off (hsame ▸ hset))
        · exact hon (hinv.shutdown c _ hstore (by simp))
      · intro d hd
        exact hon (hinv.exit d hd)

/-! ### The invariant -/

/-- The invariant behind `no_lost_wakeup`.

- `parked`: only a dispatcher inside `pthread_cond_wait` is in the set of `_new_task`;
- `quiet`: once `_on` is cleared, the broadcast is still to come, or nobody is parked on
  `_new_task` and nobody is about to park;
- `sawEmpty`: a dispatcher that has found the queue empty and is about to test `_on` or to
  park still sees an empty queue, or a signal is still to come;
- `asleep`: when all dispatchers are parked and the queue is not empty, a signal or the
  broadcast is still to come. -/
structure WakeInv (s : State n τ) : Prop where
  parked : ∀ d ∈ s.shared.newTask, s.dispatcher d = .parked
  quiet : s.shared.on = false → (∃ c, broadcastPending (s.client c)) ∨
    (s.shared.newTask = ∅ ∧ ∀ d, s.dispatcher d ≠ .condWait)
  sawEmpty : ∀ d, s.dispatcher d = .testOn ∨ s.dispatcher d = .condWait →
    s.shared.queue ≠ [] → ∃ c, signalPending (s.client c)
  asleep : Asleep s → s.shared.queue ≠ [] →
    (∃ c, signalPending (s.client c)) ∨ ∃ c, broadcastPending (s.client c)

/-- A step of a dispatcher keeps `WakeInv`. For `asleep` the dispatcher that moved must be
parked or gone afterwards. If it parked, `sawEmpty` has the signal. If it exited, `_on` is
cleared, and the others can only be parked because the broadcast is still to come. -/
theorem wakeInv_dispatcher {s : State n τ} {d : Fin n} {sh : Shared n τ} {pc : DispatcherPc τ}
    {e : Option (Event n τ)} (hinv : WakeInv s) (hflag : FlagInv s)
    (hf : dispatcherFunction d s.shared (s.dispatcher d) = some (sh, pc, e)) :
    WakeInv ⟨sh, Function.update s.dispatcher d pc, s.client⟩ := by
  have hpark := dispatcherFunction_newTask hf
  obtain ⟨hon, -, -, hcond, hexit⟩ := dispatcherFunction_flags hf
  obtain ⟨hsub, htest, hfrom⟩ := dispatcherFunction_queue hf
  have hqueue : s.shared.queue = [] → sh.queue = [] := fun hq =>
    List.eq_nil_of_subset_nil (hq ▸ hsub)
  refine ⟨?_, ?_, ?_, ?_⟩
  · intro d' hd'
    rcases hpark d' hd' with ⟨rfl, -, hpc⟩ | ⟨hold, hne⟩
    · simpa using hpc
    · have hp := hinv.parked d' hold
      by_cases hd : d' = d
      · subst hd
        exact absurd hp (hne rfl)
      · simpa [Function.update_of_ne hd] using hp
  · intro hoff
    simp only [hon] at hoff
    rcases hinv.quiet hoff with hpend | ⟨hempty, hnone⟩
    · exact Or.inl hpend
    · refine Or.inr ⟨?_, ?_⟩
      · refine Finset.eq_empty_of_forall_notMem fun d' hd' => ?_
        rcases hpark d' hd' with ⟨-, hcw, -⟩ | ⟨hold, -⟩
        · exact hnone d hcw
        · simp [hempty] at hold
      · refine forall_update (P := fun _ pc => pc ≠ DispatcherPc.condWait) ?_ fun d' _ => hnone d'
        intro hpc
        simp [hcond hpc] at hoff
  · refine forall_update (P := fun _ pc => pc = DispatcherPc.testOn ∨ pc = DispatcherPc.condWait →
      sh.queue ≠ [] → ∃ c, signalPending (s.client c)) ?_ ?_
    · rintro (hpc | hpc) hne
      · exact absurd (htest hpc) hne
      · exact hinv.sawEmpty d (Or.inl (hfrom hpc)) fun hq => hne (hqueue hq)
    · intro d' _ hpc hne
      exact hinv.sawEmpty d' hpc fun hq => hne (hqueue hq)
  · rintro ⟨⟨d₀, hd₀⟩, hall⟩ hne
    have hne' : s.shared.queue ≠ [] := fun hq => hne (hqueue hq)
    by_cases hpc : pc = .exited
    · -- The dispatcher exited, so another one is parked although `_on` is cleared.
      have hoff := hflag.exit d (Or.inr (hexit hpc))
      obtain ⟨-, hmem⟩ := hall d₀ hd₀
      rcases hinv.quiet hoff with hpend | ⟨hempty, hnone⟩
      · exact Or.inr hpend
      · rcases hpark d₀ hmem with ⟨-, hcw, -⟩ | ⟨hold, -⟩
        · exact absurd hcw (hnone d)
        · simp [hempty] at hold
    · -- The dispatcher is parked now, so it had just found the queue empty.
      obtain ⟨hp, hmem⟩ := hall d (by simpa using hpc)
      rcases hpark d hmem with ⟨-, hcw, -⟩ | ⟨hold, hnp⟩
      · exact Or.inl (hinv.sawEmpty d (Or.inr hcw) hne')
      · exact absurd (hinv.parked d hold) (hnp rfl)

/-- What a client owes after a step of another client. -/
theorem exists_update_of_ne {P : ClientPc τ → Prop} {s : State n τ} {c : Nat} {pc : ClientPc τ}
    (hpc : ¬ P (s.client c)) (h : ∃ c', P (s.client c')) :
    ∃ c', P (Function.update s.client c pc c') := by
  obtain ⟨c', hc'⟩ := h
  have hne : c' ≠ c := fun heq => hpc (heq ▸ hc')
  exact ⟨c', by rwa [Function.update_of_ne hne]⟩

/-- A step of a client keeps `WakeInv`. A client that pays a signal or the broadcast holds
`_mutex`, so no dispatcher is between its test and its park, and the dispatcher it wakes is
no longer parked. -/
theorem wakeInv_client {s : State n τ} {c : Nat} {exited : Fin n → Bool} {move : ClientMove n τ}
    {sh : Shared n τ} {pc : ClientPc τ} {e : Option (Event n τ)} (hinv : WakeInv s)
    (hmutex : MutexInv s)
    (hf : clientFunction c exited s.shared (s.client c) move = some (sh, pc, e)) :
    WakeInv ⟨sh, s.dispatcher, Function.update s.client c pc⟩ := by
  -- Mutual exclusion: no dispatcher is between its test and its park while the client is
  -- inside.
  have hexcl : clientHolds (s.client c) →
      ∀ d, ¬ (s.dispatcher d = .testOn ∨ s.dispatcher d = .condWait) := by
    intro hc d hd
    have hin : holds (s.dispatcher d) := by
      rcases hd with hd | hd <;> rw [hd] <;> trivial
    have heq : Tid.client c = Tid.dispatcher d := hmutex.unique hc hin
    cases heq
  have hmine : ∀ {P : ClientPc τ → Prop}, P pc → ∃ c', P (Function.update s.client c pc c') :=
    fun hP => ⟨c, by rwa [Function.update_self]⟩
  rcases clientFunction_wake hf with ⟨hsig, hnew, hon, hnb⟩ | ⟨hheld, hon, hnb, hwake⟩ |
      ⟨hbro, hqueue, hnew, hns⟩ | ⟨hheld, hnew, hon⟩ | ⟨hqueue, hnew, hon, hns, hnb⟩
  · refine ⟨?_, ?_, fun _ _ _ => hmine hsig, fun _ _ => Or.inl (hmine hsig)⟩
    · simpa only [hnew] using hinv.parked
    · intro hoff
      simp only [hon] at hoff
      simp only [hnew]
      exact (hinv.quiet hoff).imp_left (exists_update_of_ne hnb)
  · -- The signal: one parked dispatcher wakes up, if there is any.
    have hnot := hexcl hheld
    have hsub : sh.newTask ⊆ s.shared.newTask := by
      rcases hwake with ⟨d, -, hd⟩ | ⟨-, hd⟩ <;> rw [hd]
      · exact Finset.erase_subset _ _
      · exact Finset.empty_subset _
    refine ⟨fun d hd => hinv.parked d (hsub hd), ?_, ?_, ?_⟩
    · intro hoff
      simp only [hon] at hoff
      rcases hinv.quiet hoff with hpend | ⟨hempty, hnone⟩
      · exact Or.inl (exists_update_of_ne hnb hpend)
      · exact Or.inr ⟨Finset.subset_empty.mp (hempty ▸ hsub), hnone⟩
    · intro d hd
      exact absurd hd (hnot d)
    · rintro ⟨⟨d₀, hd₀⟩, hall⟩ -
      exfalso
      rcases hwake with ⟨d, hd, hnew⟩ | ⟨-, hnew⟩
      · have hd' : s.dispatcher d ≠ .exited := by simp [hinv.parked d hd]
        have := (hall d hd').2
        simp [hnew] at this
      · have := (hall d₀ hd₀).2
        simp [hnew] at this
  · refine ⟨?_, fun _ => Or.inl (hmine hbro), ?_, fun _ _ => Or.inr (hmine hbro)⟩
    · simpa only [hnew] using hinv.parked
    · intro d hd hne
      simp only [hqueue] at hne
      exact exists_update_of_ne hns (hinv.sawEmpty d hd hne)
  · -- The broadcast: nobody is parked afterwards.
    have hnot := hexcl hheld
    refine ⟨by simp [hnew], fun _ => Or.inr ⟨hnew, ?_⟩, ?_, ?_⟩
    · intro d hd
      exact hnot d (Or.inr hd)
    · intro d hd
      exact absurd hd (hnot d)
    · rintro ⟨⟨d₀, hd₀⟩, hall⟩ -
      have := (hall d₀ hd₀).2
      simp [hnew] at this
  · refine ⟨?_, ?_, ?_, ?_⟩
    · simpa only [hnew] using hinv.parked
    · intro hoff
      simp only [hon] at hoff
      simp only [hnew]
      exact (hinv.quiet hoff).imp_left (exists_update_of_ne hnb)
    · intro d hd hne
      simp only [hqueue] at hne
      exact exists_update_of_ne hns (hinv.sawEmpty d hd hne)
    · intro hasleep hne
      simp only [hqueue] at hne
      have hasleep' : Asleep s := by
        simpa only [Asleep, parkedOnNewTask, hnew] using hasleep
      exact (hinv.asleep hasleep' hne).imp (exists_update_of_ne hns) (exists_update_of_ne hnb)

/-- `WakeInv` holds in every state of a run. -/
theorem wakeInv_of_run {K : State n τ → Action n τ → Prop} {tr : List (Event n τ)}
    {s : State n τ} (h : (machine n τ).RunIf K tr s) : WakeInv s := by
  refine h.induction (I := fun _ s => WakeInv s) ?_ ?_
  · constructor <;> simp [machine, init]
  · intro tr s a s' e hrun hinv _ hnext
    rcases next_cases hnext with ⟨d, sh, pc, -, hf, rfl⟩ | ⟨c, move, sh, pc, -, hf, rfl⟩
    · exact wakeInv_dispatcher hinv (flagInv_of_run hrun) hf
    · exact wakeInv_client hinv (mutexInv_of_run hrun) hf

/-- No lost wake-up. In every reachable state where the dispatchers that have not exited are
all parked on `_new_task`, and the queue is not empty or `_on` is cleared, some submit has
still to execute its signal, or the shutdown its broadcast. -/
theorem no_lost_wakeup {s : State n τ} (h : (machine n τ).Reachable s) (hasleep : Asleep s)
    (hwork : s.shared.queue ≠ [] ∨ s.shared.on = false) :
    (∃ c, signalPending (s.client c)) ∨ ∃ c, broadcastPending (s.client c) := by
  obtain ⟨tr, hrun⟩ := h
  have hinv := wakeInv_of_run hrun
  rcases hwork with hqueue | hoff
  · exact hinv.asleep hasleep hqueue
  · obtain ⟨⟨d, hd⟩, hall⟩ := hasleep
    rcases hinv.quiet hoff with hpend | ⟨hempty, -⟩
    · exact Or.inr hpend
    · have := (hall d hd).2
      simp [hempty] at this

/-- The one dispatcher parks after a submit has passed its enqueue and before it has taken
`_mutex`. -/
theorem no_lost_wakeup_stale_test :
    ∃ s, (machine 1 Nat).Reachable s ∧ Asleep s ∧ s.shared.queue ≠ [] ∧
      ((∃ c, signalPending (s.client c)) ∨ ∃ c, broadcastPending (s.client c)) := by
  let d : Action 1 Nat := .dispatcher 0
  let go : Action 1 Nat := .client 0 .go
  obtain ⟨tr, s, hrun, htest⟩ := Machine.run_of_exec (M := machine 1 Nat)
    [d, d, .client 0 (.callSubmit 7), go, go, go, d, d]
    (fun _ s => s.dispatcher 0 == .parked && (0 ∈ s.shared.newTask) && !s.shared.queue.isEmpty)
    (by decide)
  simp only [Bool.and_eq_true, beq_iff_eq, decide_eq_true_eq, Bool.not_eq_true',
    GenericQueueSyn.isEmpty_eq_false_iff] at htest
  obtain ⟨⟨hpc, hmem⟩, hqueue⟩ := htest
  have hasleep : Asleep s := by
    refine ⟨⟨0, by rw [hpc]; decide⟩, ?_⟩
    intro d _
    rw [Subsingleton.elim d 0]
    exact ⟨hpc, hmem⟩
  exact ⟨s, ⟨tr, hrun⟩, hasleep, hqueue, no_lost_wakeup ⟨tr, hrun⟩ hasleep (Or.inl hqueue)⟩

end

end Miez.Proofs.ThreadPool
