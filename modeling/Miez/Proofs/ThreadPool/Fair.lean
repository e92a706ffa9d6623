import Miez.Lib.Fairness
import Miez.Proofs.ThreadPool.Wait

/-!
# `Miez.Proofs.ThreadPool.Fair`: fair executions of the pool

An execution of the pool is fair when no thread that can go on infinitely often stands still for
ever (`FairPool`). Calls by idle clients and spurious wake-ups need not happen. A function of a
task that has been called returns, since its return is a step of its dispatcher.

* `mutex_frequently_free`: nobody keeps `_mutex` for ever.
* `dispatcher_takes` and `client_takes`: a thread that is not parked takes its next step.
* `dispatcher_settles`: a dispatcher that is disabled from some time on has exited or is parked.
-/

set_option autoImplicit false

namespace Miez.Proofs.ThreadPool

open Filter
open Miez.Lib
open Miez.ThreadPool

section
variable {n : Nat} {τ : Type}

/-- The client is parked on `_task_done`. -/
def parkedOnTaskDone (s : State n τ) (c : Nat) : Prop :=
  s.client c = .wait .parked ∧ c ∈ s.shared.taskDone

/-- A step of the thread `t` inside its function, which is no spurious wake-up. -/
def OwnStep (t : Tid n) (s : State n τ) : Action n τ → Prop
  | .dispatcher d => t = .dispatcher d ∧ ¬ parkedOnNewTask s d
  | .client c _ => t = .client c ∧ s.client c ≠ .idle ∧ ¬ parkedOnTaskDone s c

/-- The execution is fair to every thread. -/
def FairPool (E : (machine n τ).Execution) : Prop := ∀ t, E.Fair (OwnStep t)

/-! ### What a step leaves alone -/

/-- A client does not park a dispatcher. -/
theorem clientFunction_newTask {c : Nat} {exited : Fin n → Bool} {sh sh' : Shared n τ}
    {pc pc' : ClientPc τ} {move : ClientMove n τ} {e : Option (Event n τ)}
    (h : clientFunction c exited sh pc move = some (sh', pc', e)) : sh'.newTask ⊆ sh.newTask := by
  rcases clientFunction_wake h with ⟨-, hsame, -⟩ | ⟨-, -, -, ⟨d, -, hwake⟩ | ⟨-, hnone⟩⟩ |
    ⟨-, -, hsame, -⟩ | hrest
  · rw [hsame]
  · rw [hwake]
    exact Finset.erase_subset d _
  · rw [hnone]
    exact Finset.empty_subset _
  · rw [hsame]
  · grind

/-- A dispatcher stays where it is, and is not parked, as long as it takes no step of its own. -/
theorem dispatcher_kept (E : (machine n τ).Execution) {d : Fin n} {k : Nat}
    (h : ¬ E.Takes (OwnStep (.dispatcher d)) k) :
    (E.state (k + 1)).dispatcher d = (E.state k).dispatcher d ∧
      (parkedOnNewTask (E.state (k + 1)) d → parkedOnNewTask (E.state k) d) := by
  rcases E.tick_cases k with ⟨a, ha, hnext⟩ | ⟨-, hstate, -⟩
  · rcases next_cases hnext with ⟨d', sh, pc, rfl, hf, hs⟩ | ⟨c, move, sh, pc, rfl, hf, hs⟩
    · rw [hs]
      by_cases hd : d' = d
      · subst hd
        -- The step is a spurious wake-up.
        have hparked : parkedOnNewTask (E.state k) d' := by
          by_contra hnot
          exact h ⟨_, ha, rfl, hnot⟩
        have hpc : pc = .parked := by
          rw [hparked.1] at hf
          simp only [dispatcherFunction, if_pos hparked.2, Option.some.injEq, Prod.mk.injEq] at hf
          exact hf.2.1.symm
        exact ⟨by rw [hparked.1, ← hpc]; exact Function.update_self .., fun _ => hparked⟩
      · have hpc : Function.update (E.state k).dispatcher d' pc d = (E.state k).dispatcher d :=
          Function.update_of_ne (Ne.symm hd) _ _
        refine ⟨hpc, ?_⟩
        rintro ⟨hparked, hmem⟩
        refine ⟨hpc.symm.trans hparked, ?_⟩
        rcases dispatcherFunction_newTask hf d hmem with ⟨rfl, -⟩ | ⟨hold, -⟩
        · exact absurd rfl hd
        · exact hold
    · rw [hs]
      exact ⟨rfl, fun hparked => ⟨hparked.1, clientFunction_newTask hf hparked.2⟩⟩
  · rw [hstate]
    exact ⟨rfl, id⟩

/-- A client inside a function stays where it is, and is not parked, as long as it takes no step of
its own. -/
theorem client_kept (E : (machine n τ).Execution) {c k : Nat}
    (h : ¬ E.Takes (OwnStep (.client c)) k) (hidle : (E.state k).client c ≠ .idle) :
    (E.state (k + 1)).client c = (E.state k).client c ∧
      (parkedOnTaskDone (E.state (k + 1)) c → parkedOnTaskDone (E.state k) c) := by
  rcases E.tick_cases k with ⟨a, ha, hnext⟩ | ⟨-, hstate, -⟩
  · rcases next_cases hnext with ⟨d, sh, pc, rfl, hf, hs⟩ | ⟨c', move, sh, pc, rfl, hf, hs⟩
    · rw [hs]
      exact ⟨rfl, fun hparked => ⟨hparked.1, (dispatcherFunction_busy hf).2.2 hparked.2⟩⟩
    · rw [hs]
      by_cases hc : c' = c
      · subst hc
        have hparked : parkedOnTaskDone (E.state k) c' := by
          by_contra hnot
          exact h ⟨_, ha, rfl, hidle, hnot⟩
        have hpc : pc = .wait .parked := by
          rw [hparked.1] at hf
          cases move with
          | go =>
              simp only [clientFunction, threadPoolWait, if_pos hparked.2, Option.some.injEq,
                Prod.mk.injEq] at hf
              exact hf.2.1.symm
          | _ => cases hf
        exact ⟨by rw [hparked.1, ← hpc]; exact Function.update_self .., fun _ => hparked⟩
      · have hpc : Function.update (E.state k).client c' pc c = (E.state k).client c :=
          Function.update_of_ne (Ne.symm hc) _ _
        refine ⟨hpc, ?_⟩
        rintro ⟨hparked, hmem⟩
        refine ⟨hpc.symm.trans hparked, ?_⟩
        rcases (clientFunction_taskDone hf).2 c hmem with hold | ⟨rfl, -⟩
        · exact hold
        · exact absurd rfl hc
  · rw [hstate]
    exact ⟨rfl, id⟩

/-- A step of a dispatcher's own in an execution. -/
theorem dispatcherFunction_of_takes (E : (machine n τ).Execution) {d : Fin n} {k : Nat}
    (h : E.Takes (OwnStep (.dispatcher d)) k) :
    dispatcherFunction d (E.state k).shared ((E.state k).dispatcher d)
      = some ((E.state (k + 1)).shared, (E.state (k + 1)).dispatcher d, E.event k) := by
  obtain ⟨a, ha, hown⟩ := h
  rcases E.tick_cases k with ⟨a', ha', hnext⟩ | ⟨hnone, -, -⟩
  · obtain rfl : a' = a := Option.some.inj (ha'.symm.trans ha)
    rcases next_cases hnext with ⟨d', sh, pc, rfl, hf, hs⟩ | ⟨c, move, sh, pc, rfl, hf, hs⟩
    · obtain rfl : d = d' := Tid.dispatcher.inj hown.1
      rw [hs, hf]
      simp
    · cases hown.1
  · rw [ha] at hnone
    cases hnone

/-- A step of a client's own in an execution. -/
theorem clientFunction_of_takes (E : (machine n τ).Execution) {c k : Nat}
    (h : E.Takes (OwnStep (.client c)) k) :
    ∃ move, clientFunction c (fun d => ((E.state k).dispatcher d).isExited) (E.state k).shared
      ((E.state k).client c) move
        = some ((E.state (k + 1)).shared, (E.state (k + 1)).client c, E.event k) := by
  obtain ⟨a, ha, hown⟩ := h
  rcases E.tick_cases k with ⟨a', ha', hnext⟩ | ⟨hnone, -, -⟩
  · obtain rfl : a' = a := Option.some.inj (ha'.symm.trans ha)
    rcases next_cases hnext with ⟨d, sh, pc, rfl, hf, hs⟩ | ⟨c', move, sh, pc, rfl, hf, hs⟩
    · cases hown.1
    · obtain rfl : c = c' := Tid.client.inj hown.1
      refine ⟨move, ?_⟩
      rw [hs, hf]
      simp
  · rw [ha] at hnone
    cases hnone

/-! ### What is enabled -/

/-- The dispatcher waits for `_mutex` there. -/
def waitsForMutex : DispatcherPc τ → Prop
  | .lock | .parked | .lockDone => True
  | _ => False

/-- The client waits for `_mutex` there. -/
def clientWaitsForMutex : ClientPc τ → Prop
  | .submit (.lock _) | .wait .lock | .wait .parked | .shutdown .lock => True
  | _ => False

/-- The next thread that the client joins has exited, if it is about to join one. -/
def joinable (s : State n τ) (c : Nat) : Prop :=
  ∀ i (h : i < n), s.client c = .shutdown (.join i) → (s.dispatcher ⟨i, h⟩).isExited = true

/-- A dispatcher that has not exited and is not parked can go on when it does not have to wait for
`_mutex`. -/
theorem dispatcher_enabled {s : State n τ} {d : Fin n} (hexit : s.dispatcher d ≠ .exited)
    (hpark : ¬ parkedOnNewTask s d)
    (hfree : waitsForMutex (s.dispatcher d) → s.shared.mutex = none) :
    (machine n τ).Enabled (OwnStep (.dispatcher d)) s := by
  have hstep : (dispatcherFunction d s.shared (s.dispatcher d)).isSome = true := by
    cases hpc : s.dispatcher d with
    | exited => exact absurd hpc hexit
    | lock | lockDone =>
        have hmutex : s.shared.mutex = none := hfree (by rw [hpc]; trivial)
        simp [dispatcherFunction, Shared.lock, hmutex]
    | parked =>
        have hmutex : s.shared.mutex = none := hfree (by rw [hpc]; trivial)
        have hmem : d ∉ s.shared.newTask := fun hmem => hpark ⟨hpc, hmem⟩
        simp [dispatcherFunction, Shared.lock, hmutex, hmem]
    | dequeue => cases hqueue : s.shared.queue <;> simp [dispatcherFunction, hqueue]
    | _ => rfl
  obtain ⟨⟨sh, pc, e⟩, hr⟩ := Option.isSome_iff_exists.mp hstep
  have hnext : next s (.dispatcher d)
      = some ({ s with shared := sh, dispatcher := Function.update s.dispatcher d pc }, e) := by
    rw [next, hr]
    rfl
  exact ⟨.dispatcher d, _, e, ⟨rfl, hpark⟩, hnext⟩

/-- A client inside a function that is not parked can go on when it does not have to wait for
`_mutex` or for a thread. -/
theorem client_enabled {s : State n τ} {c : Nat} (hidle : s.client c ≠ .idle)
    (hpark : ¬ parkedOnTaskDone s c) (hjoin : joinable s c)
    (hfree : clientWaitsForMutex (s.client c) → s.shared.mutex = none) :
    (machine n τ).Enabled (OwnStep (.client c)) s := by
  have hstep : ∃ move, (clientFunction c (fun d => (s.dispatcher d).isExited) s.shared
      (s.client c) move).isSome = true := by
    cases hpc : s.client c with
    | idle => exact absurd hpc hidle
    | submit pc =>
        rw [hpc] at hfree
        cases pc with
        | lock task =>
            exact ⟨.go, by simp [clientFunction, threadPoolSubmit, Shared.lock, hfree trivial]⟩
        | signal task =>
            -- The signal wakes one of the parked dispatchers, if there is any.
            rcases s.shared.newTask.eq_empty_or_nonempty with hempty | ⟨d, hd⟩
            · exact ⟨.go, by simp [clientFunction, threadPoolSubmit, Shared.signalNewTask, hempty]⟩
            · exact ⟨.wake d, by simp [clientFunction, threadPoolSubmit, Shared.signalNewTask, hd]⟩
        | _ => exact ⟨.go, rfl⟩
    | wait pc =>
        rw [hpc] at hfree
        cases pc with
        | lock => exact ⟨.go, by simp [clientFunction, threadPoolWait, Shared.lock, hfree trivial]⟩
        | parked =>
            have hmem : c ∉ s.shared.taskDone := fun hmem => hpark ⟨hpc, hmem⟩
            exact ⟨.go, by simp [clientFunction, threadPoolWait, Shared.lock, hfree trivial, hmem]⟩
        | _ => exact ⟨.go, rfl⟩
    | shutdown pc =>
        rw [hpc] at hfree
        cases pc with
        | lock =>
            exact ⟨.go, by simp [clientFunction, threadPoolShutdown, Shared.lock, hfree trivial]⟩
        | join i =>
            by_cases hi : i < n
            · have hexited := hjoin i hi hpc
              exact ⟨.go, by simp [clientFunction, threadPoolShutdown, hi, hexited]⟩
            · exact ⟨.go, by simp [clientFunction, threadPoolShutdown, hi]⟩
        | _ => exact ⟨.go, rfl⟩
  obtain ⟨move, hsome⟩ := hstep
  obtain ⟨⟨sh, pc, e⟩, hr⟩ := Option.isSome_iff_exists.mp hsome
  have hnext : next s (.client c move)
      = some ({ s with shared := sh, client := Function.update s.client c pc }, e) := by
    rw [next, hr]
    rfl
  exact ⟨.client c move, _, e, ⟨rfl, hidle, hpark⟩, hnext⟩

/-! ### The mutex -/

/-- A bound on the steps that the dispatcher takes before it gives `_mutex` back. -/
def sectionLeft : DispatcherPc τ → Nat
  | .testEmpty => 6
  | .testOn => 5
  | .testOff => 4
  | .testOnExit => 3
  | .testEmptyExit | .broadcastDone => 2
  | .condWait | .unlockExit | .unlock | .unlockDone => 1
  | _ => 0

/-- A bound on the steps that the client takes before it gives `_mutex` back. -/
def clientSectionLeft : ClientPc τ → Nat
  | .wait .testEmpty => 3
  | .wait .testInFlight | .submit (.signal _) | .shutdown .broadcast => 2
  | .wait .condWait | .wait .unlock | .submit (.unlock _) | .shutdown .unlock => 1
  | _ => 0

/-- Inside a critical section each step of a dispatcher comes closer to its end. -/
theorem sectionLeft_lt {d : Fin n} {sh sh' : Shared n τ} {pc pc' : DispatcherPc τ}
    {e : Option (Event n τ)} (h : dispatcherFunction d sh pc = some (sh', pc', e))
    (hpc : holds pc) : sectionLeft pc' < sectionLeft pc := by
  cases pc <;> grind [dispatcherFunction, holds, sectionLeft, Shared.lock]

/-- Inside a critical section each step of a client comes closer to its end. -/
theorem clientSectionLeft_lt {c : Nat} {exited : Fin n → Bool} {sh sh' : Shared n τ}
    {pc pc' : ClientPc τ} {move : ClientMove n τ} {e : Option (Event n τ)}
    (h : clientFunction c exited sh pc move = some (sh', pc', e)) (hpc : clientHolds pc) :
    clientSectionLeft pc' < clientSectionLeft pc := by
  cases pc with
  | idle => cases hpc
  | submit pc =>
      cases pc <;> cases move <;>
        grind [clientFunction, threadPoolSubmit, Shared.signalNewTask, clientHolds, clientSectionLeft]
  | wait pc =>
      cases pc <;> cases move <;>
        grind [clientFunction, threadPoolWait, clientHolds, clientSectionLeft]
  | shutdown pc =>
      cases pc <;> cases move <;>
        grind [clientFunction, threadPoolShutdown, clientHolds, clientSectionLeft]

/-- A bound on the steps that a thread takes before it gives `_mutex` back. -/
def mutexLeft (t : Tid n) (s : State n τ) : Nat :=
  match t with
  | .dispatcher d => sectionLeft (s.dispatcher d)
  | .client c => clientSectionLeft (s.client c)

/-- A step of the pool does not hand `_mutex` over from one thread to another. -/
theorem next_mutex {s s' : State n τ} {a : Action n τ} {e : Option (Event n τ)}
    (h : next s a = some (s', e)) {t t' : Tid n} (hheld : s.shared.mutex = some t)
    (hheld' : s'.shared.mutex = some t') : t' = t := by
  have hlock : ∀ {me : Tid n} {old new : Prop},
      LockStep me old new s.shared.mutex s'.shared.mutex → t' = t := by
    intro me old new hstep
    cases hstep with
    | keep hholder hpc =>
        rw [hholder, hheld] at hheld'
        exact (Option.some.inj hheld').symm
    | acquire hfree hholder hold hnew =>
        rw [hheld] at hfree
        cases hfree
    | release hholder hold hnew =>
        rw [hholder] at hheld'
        cases hheld'
  rcases next_cases h with ⟨d, sh, pc, rfl, hf, rfl⟩ | ⟨c, move, sh, pc, rfl, hf, rfl⟩
  · exact hlock (dispatcherFunction_lockStep hf)
  · exact hlock (clientFunction_lockStep hf)

/-- A thread that holds `_mutex` is not blocked. -/
theorem holder_enabled {s : State n τ} (hmutex : MutexInv s) {t : Tid n}
    (ht : s.shared.mutex = some t) : (machine n τ).Enabled (OwnStep t) s := by
  have hinside := (hmutex t).mpr ht
  cases t with
  | dispatcher d =>
      have hpc : holds (s.dispatcher d) := hinside
      refine dispatcher_enabled ?_ ?_ ?_
      · intro heq
        rw [heq] at hpc
        exact hpc
      · rintro ⟨heq, -⟩
        rw [heq] at hpc
        exact hpc
      · intro hwaits
        generalize s.dispatcher d = pc at hpc hwaits
        cases pc <;> first | exact hpc.elim | exact hwaits.elim
  | client c =>
      have hpc : clientHolds (s.client c) := hinside
      refine client_enabled ?_ ?_ ?_ ?_
      · intro heq
        rw [heq] at hpc
        exact hpc
      · rintro ⟨heq, -⟩
        rw [heq] at hpc
        exact hpc
      · intro i hi heq
        rw [heq] at hpc
        exact hpc.elim
      · intro hwaits
        generalize s.client c = pc at hpc hwaits
        unfold clientWaitsForMutex at hwaits
        split at hwaits <;> first | exact hpc.elim | exact hwaits.elim

/-- In a fair execution nobody keeps `_mutex` for ever. -/
theorem mutex_frequently_free {E : (machine n τ).Execution} (hfair : FairPool E) :
    ∃ᶠ k in atTop, (E.state k).shared.mutex = none := by
  have hinside : ∀ k t, (E.state k).shared.mutex = some t → inside (E.state k) t :=
    fun k t ht => (mutexInv_of_run (E.run k) t).mpr ht
  have hlt : ∀ k t, (E.state k).shared.mutex = some t → E.Takes (OwnStep t) k →
      mutexLeft t (E.state (k + 1)) < mutexLeft t (E.state k) := by
    intro k t ht htakes
    cases t with
    | dispatcher d => exact sectionLeft_lt (dispatcherFunction_of_takes E htakes) (hinside k _ ht)
    | client c =>
        obtain ⟨move, hf⟩ := clientFunction_of_takes E htakes
        exact clientSectionLeft_lt hf (hinside k _ ht)
  refine Machine.Execution.holder_frequently_none hfair (fun s => s.shared.mutex) mutexLeft
    ?_ ?_ ?_ fun k t ht _ htakes => hlt k t ht htakes
  · intro k t t' ht ht'
    rcases E.tick_cases k with ⟨a, -, hnext⟩ | ⟨-, hstate, -⟩
    · exact next_mutex hnext ht ht'
    · rw [hstate, ht] at ht'
      exact (Option.some.inj ht').symm
  · exact fun k t ht => holder_enabled (mutexInv_of_run (E.run k)) ht
  · intro k t ht _
    by_cases htakes : E.Takes (OwnStep t) k
    · exact (hlt k t ht htakes).le
    · cases t with
      | dispatcher d => exact (congrArg sectionLeft (dispatcher_kept E htakes).1).le
      | client c =>
          have hidle : (E.state k).client c ≠ .idle := by
            intro hidle
            have hin : clientHolds ((E.state k).client c) := hinside k _ ht
            rw [hidle] at hin
            exact hin
          exact (congrArg clientSectionLeft (client_kept E htakes hidle).1).le

/-! ### The next step of a thread -/

/-- A dispatcher that has not exited and is not parked takes its next step, from where it is. -/
theorem dispatcher_takes {E : (machine n τ).Execution} (hfair : FairPool E) {d : Fin n} {k : Nat}
    (hexit : (E.state k).dispatcher d ≠ .exited) (hpark : ¬ parkedOnNewTask (E.state k) d) :
    ∃ j, k ≤ j ∧ (E.state j).dispatcher d = (E.state k).dispatcher d ∧
      E.Takes (OwnStep (.dispatcher d)) j := by
  suffices hnext : ∃ j, k ≤ j ∧ ((E.state j).dispatcher d = (E.state k).dispatcher d ∧
      ¬ parkedOnNewTask (E.state j) d) ∧ E.Takes (OwnStep (.dispatcher d)) j by
    obtain ⟨j, hj, ⟨hpc, -⟩, htakes⟩ := hnext
    exact ⟨j, hj, hpc, htakes⟩
  refine (hfair (.dispatcher d)).takes
    (P := fun s => s.dispatcher d = (E.state k).dispatcher d ∧ ¬ parkedOnNewTask s d)
    ⟨rfl, hpark⟩ ?_ ?_
  · rintro j - ⟨hpc, hnot⟩ htakes
    obtain ⟨hsame, hkeep⟩ := dispatcher_kept E htakes
    exact ⟨hsame.trans hpc, fun hparked => hnot (hkeep hparked)⟩
  · intro hall
    refine ((mutex_frequently_free hfair).and_eventually (eventually_ge_atTop k)).mono ?_
    rintro j ⟨hfree, hj⟩
    obtain ⟨hpc, hnot⟩ := hall j hj
    exact dispatcher_enabled (by rw [hpc]; exact hexit) hnot fun _ => hfree

/-- A client inside a function that is not parked takes its next step, from where it is, if it does
not wait for ever for a thread to exit. -/
theorem client_takes {E : (machine n τ).Execution} (hfair : FairPool E) {c k : Nat}
    (hidle : (E.state k).client c ≠ .idle) (hpark : ¬ parkedOnTaskDone (E.state k) c)
    (hjoin : ∀ᶠ j in atTop, (E.state j).client c = (E.state k).client c → joinable (E.state j) c) :
    ∃ j, k ≤ j ∧ (E.state j).client c = (E.state k).client c ∧
      E.Takes (OwnStep (.client c)) j := by
  suffices hnext : ∃ j, k ≤ j ∧ ((E.state j).client c = (E.state k).client c ∧
      ¬ parkedOnTaskDone (E.state j) c) ∧ E.Takes (OwnStep (.client c)) j by
    obtain ⟨j, hj, ⟨hpc, -⟩, htakes⟩ := hnext
    exact ⟨j, hj, hpc, htakes⟩
  refine (hfair (.client c)).takes
    (P := fun s => s.client c = (E.state k).client c ∧ ¬ parkedOnTaskDone s c)
    ⟨rfl, hpark⟩ ?_ ?_
  · rintro j - ⟨hpc, hnot⟩ htakes
    obtain ⟨hsame, hkeep⟩ := client_kept E htakes (by rw [hpc]; exact hidle)
    exact ⟨hsame.trans hpc, fun hparked => hnot (hkeep hparked)⟩
  · intro hall
    refine ((mutex_frequently_free hfair).and_eventually
      ((eventually_ge_atTop k).and hjoin)).mono ?_
    rintro j ⟨hfree, hj, hjoinable⟩
    obtain ⟨hpc, hnot⟩ := hall j hj
    exact client_enabled (by rw [hpc]; exact hidle) hnot (hjoinable hpc) fun _ => hfree

/-- A dispatcher that takes no step of its own from some time on has exited or is parked. -/
theorem dispatcher_settles {E : (machine n τ).Execution} (hfair : FairPool E) {d : Fin n} {N : Nat}
    (h : ∀ k, N ≤ k → ¬ (machine n τ).Enabled (OwnStep (.dispatcher d)) (E.state k)) {k : Nat}
    (hk : N ≤ k) : (E.state k).dispatcher d = .exited ∨ parkedOnNewTask (E.state k) d := by
  by_contra hnot
  obtain ⟨hexit, hpark⟩ := not_or.mp hnot
  obtain ⟨j, hj, -, htakes⟩ := dispatcher_takes hfair hexit hpark
  exact h j (hk.trans hj) htakes.enabled

/-! ### Executions that come to rest -/

/-- The step is one of a dispatcher or of the client 0. -/
def byFirstClient : Action n τ → Bool
  | .dispatcher _ => true
  | .client c _ => c == 0

/-- The other clients stay idle when only the client 0 takes steps. -/
theorem idle_of_byFirstClient {K : State n τ → Action n τ → Prop} {tr : List (Event n τ)}
    {s : State n τ} (h : (machine n τ).RunIf (fun s a => byFirstClient a = true ∧ K s a) tr s) :
    ∀ c, c ≠ 0 → s.client c = .idle := by
  refine h.induction (I := fun _ s => ∀ c, c ≠ 0 → s.client c = .idle) (fun _ _ => rfl) ?_
  intro tr s a s' e _ hinv hK hnext
  rcases next_cases hnext with ⟨d, sh, pc, -, -, rfl⟩ | ⟨c, move, sh, pc, rfl, -, rfl⟩
  · exact hinv
  · obtain rfl : c = 0 := beq_iff_eq.mp hK.1
    intro c' hc'
    show Function.update s.client 0 pc c' = .idle
    rw [Function.update_of_ne hc']
    exact hinv c' hc'

/-- A run in which only the client 0 takes steps, and which ends outside every function and with no
dispatcher that could go on, is the beginning of a fair execution. -/
theorem exists_fairPool {K : State n τ → Action n τ → Prop} {tr : List (Event n τ)} {s : State n τ}
    (h : (machine n τ).RunIf (fun s a => byFirstClient a = true ∧ K s a) tr s)
    (hidle : s.client 0 = .idle)
    (hrest : ∀ d, s.dispatcher d = .exited ∨ parkedOnNewTask s d) :
    ∃ (E : (machine n τ).Execution) (N : Nat), FairPool E ∧ E.trace N = tr ∧
      (∀ k, N ≤ k → E.event k = none) ∧ ∀ k a, E.action k = some a → K (E.state k) a := by
  obtain ⟨E, N, htrace, hafter, hK⟩ := h.execution
  have hclient : ∀ c, s.client c = .idle := by
    intro c
    by_cases hc : c = 0
    · rw [hc, hidle]
    · exact idle_of_byFirstClient h c hc
  refine ⟨E, N, fun t => ?_, htrace, fun k hk => (hafter k hk).2.2,
    fun k a ha => (hK k a ha).2⟩
  refine Machine.Execution.fair_of_rest (fun k hk => (hafter k hk).1) ?_
  -- No step of `t` is enabled in the last state.
  rintro ⟨a, s', e, hown, hnext⟩
  rcases next_cases hnext with ⟨d, sh, pc, rfl, hf, -⟩ | ⟨c, move, sh, pc, rfl, -, -⟩
  · rcases hrest d with hexited | hparked
    · rw [hexited] at hf
      cases hf
    · exact hown.2 hparked
  · exact hown.2.1 (hclient c)

end

end Miez.Proofs.ThreadPool
