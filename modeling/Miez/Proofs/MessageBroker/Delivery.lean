import Miez.Proofs.MessageBroker.Fanout

/-!
# `Miez.Proofs.MessageBroker.Delivery`: who gets a published message

`DoneInv` says that the fan-out of a message has put it into the inbox of every proxy it has
passed, unless that proxy is being unsubscribed. `FinishedInv` carries this over the end of the
task: a proxy that was subscribed before the call of the publish is in the list of the channel
during the whole fan-out. `broker_delivery` puts this together with the order of the fan-outs
and the numbering of the publishes.
-/

set_option autoImplicit false

namespace Miez.Proofs.MessageBroker

open Miez.Lib
open Miez.MessageBroker
open Miez.ThreadPool (Tid PoolTask)
open Miez.Proofs.ThreadPool

section
variable {n : Nat} {capacity : UInt64} {hcap : capacity ≠ 0}

/-! ### The proxies that a fan-out has passed -/

/-- A fan-out under way has put its message into the inboxes at the positions it has passed. -/
def DoneInv (tr : List (Event n)) (s : State n) : Prop :=
  ∀ t arg ch h, loopOf (s.pc t) = some (arg, ch, h) →
    ∀ j x, (s.shared.channel ch).subscriberProxies[j]? = some x →
      (∀ i, h = some i → j < i) → ¬ Unsubscribing tr x → arg.message ∈ puts tr x

/-- A step of a thread keeps `DoneInv`. The fan-out passes an inbox without a put only when the
proxy is inactive, and a proxy that is not being unsubscribed is active. -/
theorem doneInv_thread {tr : List (Event n)} {s : State n} (hinv : DoneInv tr s)
    (hpresent : Present tr s) (hlist : ListInv s) (hcurrent : CurrentInv s)
    (hlock : ∀ ch, LockInv (fun t => channelHeld (s.pc t) = some ch) (s.shared.channel ch).mutex)
    {t : Tid n} {sh : Shared n} {pc : Pc} {e : Option (Event n)}
    (hobject : ObjectStep t s.shared (s.pc t) sh pc e)
    (hstep : FanStep t s.shared (s.pc t) sh pc e) :
    DoneInv (tr ++ e.toList) ⟨s.pool, sh, Function.update s.pc t pc, s.faulted⟩ := by
  -- What was done before the step is done after it.
  have hkeep : ∀ t' arg ch h, loopOf (s.pc t') = some (arg, ch, h) →
      (sh.channel ch).subscriberProxies = (s.shared.channel ch).subscriberProxies ∧
      ∀ j x, (s.shared.channel ch).subscriberProxies[j]? = some x →
        (∀ i, h = some i → j < i) → ¬ Unsubscribing (tr ++ e.toList) x →
        arg.message ∈ puts (tr ++ e.toList) x := by
    intro t' arg ch h hloop
    refine ⟨list_of_task_held hlock hobject (channelHeld_of_loop hloop).1
      (channelHeld_of_loop hloop).2, ?_⟩
    intro j x hx hj hnot
    exact mem_puts_append (hinv t' arg ch h hloop j x hx hj fun h => hnot h.append)
  refine forall_update (P := fun (_ : Tid n) pc => ∀ arg ch h, loopOf pc = some (arg, ch, h) →
    ∀ j x, (sh.channel ch).subscriberProxies[j]? = some x →
      (∀ i, h = some i → j < i) → ¬ Unsubscribing (tr ++ e.toList) x →
      arg.message ∈ puts (tr ++ e.toList) x) ?_ ?_
  · intro arg ch h hloop j x hx hj hnot
    cases hstep with
    | fanout arg' ch' hpc hfree hpc' he =>
        rw [hpc'] at hloop
        obtain ⟨rfl, rfl, rfl⟩ : arg' = arg ∧ ch' = ch ∧ some 0 = h := by
          simpa [loopOf] using hloop
        exact absurd (hj 0 rfl) (Nat.not_lt_zero j)
    | put arg' ch' i y hpc hpc' he =>
        rw [hpc'] at hloop
        obtain ⟨rfl, rfl, rfl⟩ : arg' = arg ∧ ch' = ch ∧ some (i + 1) = h := by
          simpa [loopOf] using hloop
        have hold : loopOf (s.pc t) = some (arg', ch', some i) := by rw [hpc]; rfl
        obtain ⟨hsame, hdone⟩ := hkeep t arg' ch' (some i) hold
        rw [hsame] at hx
        rcases Nat.lt_succ_iff_lt_or_eq.mp (hj (i + 1) rfl) with hji | rfl
        · exact hdone j x hx (by rintro k ⟨⟩; exact hji) hnot
        · -- The position that was reached with this step.
          have hy := hcurrent t ch' j y (by rw [hpc]; rfl)
          obtain rfl : x = y := Option.some.inj (hx.symm.trans hy)
          rw [he, puts_append_put, if_pos rfl]
          exact List.mem_append_right _ (List.mem_singleton_self _)
    | advance arg' ch' i h' hpc hpc' hle hskip hfan he =>
        rw [hpc'] at hloop
        obtain ⟨rfl, rfl, rfl⟩ : arg' = arg ∧ ch' = ch ∧ h' = h := by simpa using hloop
        obtain ⟨hsame, hdone⟩ := hkeep t arg' ch' (some i) hpc
        rw [hsame] at hx
        by_cases hji : j < i
        · exact hdone j x hx (by rintro k ⟨⟩; exact hji) hnot
        · have hinactive := hskip j x (Nat.le_of_not_lt hji) hx hj
          have hactive := (hpresent x (hlist.bound ch' x (List.mem_of_getElem? hx))
            fun h => hnot h.append).1
          rw [hinactive] at hactive
          cases hactive
    | other hloop' hfan hfanout hput =>
        obtain ⟨hsame, hdone⟩ := hkeep t arg ch h (hloop' _ hloop)
        rw [hsame] at hx
        exact hdone j x hx hj hnot
  · intro t' _ arg ch h hloop j x hx hj hnot
    obtain ⟨hsame, hdone⟩ := hkeep t' arg ch h hloop
    rw [hsame] at hx
    exact hdone j x hx hj hnot

/-- `DoneInv` holds in every state of a run with fewer than 2^64 subscribes. -/
theorem doneInv_of_run {tr : List (Event n)} {s : State n}
    (h : (machine n capacity hcap).RunIf AllocationsSucceed tr s)
    (hbound : s.shared.nextSubscribe < 2 ^ 64) : DoneInv tr s := by
  refine invariant_of_run (I := fun tr s => s.shared.nextSubscribe < 2 ^ 64 → DoneInv tr s)
    ?_ ?_ ?_ (fun _ _ _ hinv => hinv) h hbound
  · rintro _ t arg ch h ⟨⟩
  · intro tr s b pool t pc e _ hinv _ _ hpc hbound
    refine forall_update (P := fun (_ : Tid n) pc => ∀ arg ch h,
      loopOf pc = some (arg, ch, h) →
      ∀ j x, (s.shared.channel ch).subscriberProxies[j]? = some x →
        (∀ i, h = some i → j < i) → ¬ Unsubscribing (tr ++ (e.map Event.pool).toList) x →
        arg.message ∈ puts (tr ++ (e.map Event.pool).toList) x) ?_ ?_
    · intro arg ch h hloop
      rw [loopOf_of_inCall hpc] at hloop
      cases hloop
    · intro t' _ arg ch h hloop j x hx hj hnot
      exact mem_puts_append (hinv hbound t' arg ch h hloop j x hx hj fun h => hnot h.append)
  · intro tr s t sh pc e hrun hinv hstep hbound
    have hbound' := Nat.lt_of_le_of_lt hstep.nextSubscribe_le hbound
    have hcurrent := currentInv_of_run hrun
    exact doneInv_thread (hinv hbound') (present_of_run hrun hbound') (listInv_of_run hrun)
      hcurrent (channelLock_of_run hrun) (hstep.objectStep (fresh_of_run hrun _ le_rfl).2)
      (hstep.fanStep (hcurrent t))

/-! ### The end of the task -/

/-- A dispatcher inside a broker function is in `_publisher_task`. -/
def DispatcherInv (s : State n) : Prop :=
  ∀ d, s.pc (.dispatcher d) = .idle ∨ ∃ arg, taskArg (s.pc (.dispatcher d)) = some arg

/-- A dispatcher does not call broker functions. -/
theorem ThreadStep.dispatcher_ne_idle {d : Fin n} {sh sh' : Shared n} {pc pc' : Pc}
    {e : Option (Event n)} (h : ThreadStep (.dispatcher d) sh pc sh' pc' e) : pc ≠ .idle := by
  cases h with
  | callPublish c ht name content => cases ht
  | callSubscribe c ht name => cases ht
  | callUnsubscribe c ht k thenFree hk => cases ht
  | callFree c ht k => cases ht
  | callReceive c ht k tryReceive hk => cases ht
  | callPendingCount c ht k => cases ht
  | _ => simp

/-- A task stays in `_publisher_task` until it has unlocked its channel. -/
theorem ThreadStep.task_end {t : Tid n} {sh sh' : Shared n} {pc pc' : Pc} {e : Option (Event n)}
    (h : ThreadStep t sh pc sh' pc' e) {arg : PublisherTaskArg} (hpc : taskArg pc = some arg) :
    taskArg pc' = some arg ∨
    (∃ ch, loopOf pc = some (arg, ch, none) ∧
      MessageBroker.channelOf pc = some (arg.channelName, ch) ∧ pc' = .idle ∧ e = none) := by
  cases h with
  | taskUnlock ch =>
      obtain rfl := Option.some.inj hpc
      exact Or.inr ⟨ch, rfl, rfl, rfl, rfl⟩
  | unsubscribeInactive hret => cases hpc
  | clearProxy hret => cases hpc
  | receiveRead hret => cases hpc
  | receiveInbox x p hp hinbox hret => cases hpc
  | pendingRead hret => cases hpc
  | _ => exact Or.inl hpc

/-- `DispatcherInv` holds in every state of a run. -/
theorem dispatcherInv_of_run {tr : List (Event n)} {s : State n}
    (h : (machine n capacity hcap).RunIf AllocationsSucceed tr s) : DispatcherInv s := by
  refine invariant_of_run (I := fun _ s => DispatcherInv s) ?_ ?_ ?_ (fun _ _ _ hinv => hinv) h
  · intro d
    exact Or.inl rfl
  · intro tr s b pool t pc e _ hinv hstep _ _
    cases hstep with
    | @dispatcher d sh pc e hidle hf =>
        have hpc : dispatcherPc e = .idle ∨ ∃ arg, taskArg (dispatcherPc e) = some arg := by
          unfold dispatcherPc
          split
          · exact Or.inr ⟨_, rfl⟩
          · exact Or.inl rfl
        intro d'
        show Function.update s.pc (.dispatcher d) (dispatcherPc e) (.dispatcher d') = .idle ∨ _
        by_cases hd : d' = d
        · subst hd
          simpa only [Function.update_self] using hpc
        · have hne : (Tid.dispatcher d' : Tid n) ≠ .dispatcher d := by simpa using hd
          simpa only [Function.update_of_ne hne] using hinv d'
    | @client c move sh pc e pc₀ hf hpc =>
        intro d
        have hne : (Tid.dispatcher d : Tid n) ≠ .client c := by simp
        simpa only [Function.update_of_ne hne] using hinv d
  · intro tr s t sh pc e _ hinv hstep d
    show Function.update s.pc t pc (.dispatcher d) = .idle ∨
      ∃ arg, taskArg (Function.update s.pc t pc (.dispatcher d)) = some arg
    by_cases hd : .dispatcher d = t
    · subst hd
      rw [Function.update_self]
      rcases hinv d with hidle | ⟨arg, harg⟩
      · exact absurd hidle hstep.dispatcher_ne_idle
      · rcases hstep.task_end harg with hold | ⟨ch, -, -, hidle, -⟩
        · exact Or.inr ⟨arg, hold⟩
        · exact Or.inl hidle
    · rw [Function.update_of_ne hd]
      exact hinv d

/-- The subscription with the proxy `x` is to the channel of the publish, and its subscribe
returned before the publish was called. -/
def SubscribedBefore (tr : List (Event n)) (x : Nat) (arg : PublisherTaskArg) : Prop :=
  ∃ t k c, Before tr (.subscribed t k x arg.channelName) (.publishCall c arg)

/-- What is subscribed before a publish is settled with the call of the publish. -/
theorem SubscribedBefore.of_append {tr : List (Event n)} {e : Option (Event n)}
    {x : Nat} {arg : PublisherTaskArg} (h : SubscribedBefore (tr ++ e.toList) x arg)
    (hcalled : arg ∈ publishCalls tr)
    (hnodup : ((publishCalls (tr ++ e.toList)).map PublisherTaskArg.publish).Nodup) :
    SubscribedBefore tr x arg := by
  obtain ⟨t, k, c, hb⟩ := h
  rcases before_append_toList.mp hb with hb | ⟨-, he⟩
  · exact ⟨t, k, c, hb⟩
  · -- The publish would be called a second time.
    have hcalls : publishCalls (tr ++ e.toList) = publishCalls tr ++ [arg] :=
      filterMap_append_of_some (by rw [he]; rfl) tr
    rw [hcalls, List.map_append] at hnodup
    exact absurd rfl ((List.nodup_append.mp hnodup).2.2 arg.publish
      (List.mem_map_of_mem hcalled) arg.publish (List.mem_singleton_self _))

/-- A task that is through with `_publisher_task` has put its message into the inbox of every
proxy that was subscribed before and is not being unsubscribed. -/
def FinishedInv (tr : List (Event n)) (s : State n) : Prop :=
  ∀ d task, s.pool.dispatcher d = .running task → s.pc (.dispatcher d) = .idle →
    ∀ x, SubscribedBefore tr x task.arg → ¬ Unsubscribing tr x →
      task.arg.message ∈ puts tr x

/-- A proxy that was subscribed before the publish is in the list of the channel that the task
has found. -/
theorem mem_list_of_subscribedBefore {tr : List (Event n)} {s : State n}
    (hpresent : Present tr s) (howner : OwnerInv tr s) (htable : TableInv s) {t : Tid n}
    {arg : PublisherTaskArg} {ch x : Nat}
    (hpc : channelOf (s.pc t) = some (arg.channelName, ch)) (hx : SubscribedBefore tr x arg)
    (hnot : ¬ Unsubscribing tr x) : x ∈ (s.shared.channel ch).subscriberProxies := by
  obtain ⟨t', k, c, hb⟩ := hx
  obtain ⟨-, hlt, -, hget⟩ := howner.owned t' k x _ hb.mem_left
  obtain rfl : (s.shared.proxy x).channel = ch :=
    Option.some.inj (hget.symm.trans (htable.found t _ ch hpc))
  rcases (hpresent x hlt hnot).2 with hmem | ⟨t₁, hhand⟩
  · exact hmem
  · -- A proxy that has been handed out is in nobody's hand.
    obtain ⟨name, id, hhand⟩ := handOf_of_notListed hhand
    exact absurd ⟨t', arg.channelName, hb.mem_left⟩ ((howner.hand t₁ name id x hhand).2.2 k)

/-- The publish of a running task has been called. -/
theorem publish_called_of_running {tr : List (Event n)} {s : State n}
    (h : (machine n capacity hcap).RunIf AllocationsSucceed tr s) {d : Fin n}
    {task : PoolTask PublisherTaskArg} (hd : s.pool.dispatcher d = .running task) :
    task.arg ∈ publishCalls tr :=
  (publishInv_of_run h).enqueued task
    (mem_enqueuedTasks_of_called (poolRun_of_run h) (mem_calledTasks_of_running (poolRun_of_run h) hd))

/-- `FinishedInv` holds in every state of a run with fewer than 2^64 subscribes. -/
theorem finishedInv_of_run {tr : List (Event n)} {s : State n}
    (h : (machine n capacity hcap).RunIf AllocationsSucceed tr s)
    (hbound : s.shared.nextSubscribe < 2 ^ 64) : FinishedInv tr s := by
  refine invariant_of_run (I := fun tr s => s.shared.nextSubscribe < 2 ^ 64 → FinishedInv tr s)
    ?_ ?_ ?_ (fun _ _ _ hinv => hinv) h hbound
  · rintro _ d task ⟨⟩
  · intro tr s b pool t pc e hrun hinv hstep _ _ hbound d task hd hidle x hx hnot
    have hcalls := publishCalls_nodup (publishInv_pool (publishInv_of_run hrun) hstep)
    -- The dispatcher was running the task and idle in the broker before the step.
    have hold : s.pool.dispatcher d = .running task ∧ s.pc (.dispatcher d) = .idle := by
      cases hstep with
      | @dispatcher d' sh pc e hidle' hf =>
          by_cases hdd : d = d'
          · subst hdd
            have hd : Function.update s.pool.dispatcher d pc d = .running task := hd
            rw [Function.update_self] at hd
            rw [((dispatcherFunction_running hf).1 task).mp hd] at hidle
            have hidle : Function.update s.pc (.dispatcher d)
              (dispatcherPc (some (.called d task))) (.dispatcher d) = .idle := hidle
            rw [Function.update_self] at hidle
            cases hidle
          · have hne : (Tid.dispatcher d : Tid n) ≠ .dispatcher d' := by simpa using hdd
            exact ⟨by simpa only [Function.update_of_ne hdd] using hd,
              by simpa only [Function.update_of_ne hne] using hidle⟩
      | @client c move sh pc e pc₀ hf hpc =>
          have hne : (Tid.dispatcher d : Tid n) ≠ .client c := by simp
          exact ⟨hd, by simpa only [Function.update_of_ne hne] using hidle⟩
    refine mem_puts_append (hinv hbound d task hold.1 hold.2 x ?_ fun h => hnot h.append)
    exact hx.of_append (publish_called_of_running hrun hold.1) hcalls
  · intro tr s t sh pc e hrun hinv hstep hbound d task hd hidle x hx hnot
    have hbound' := Nat.lt_of_le_of_lt hstep.nextSubscribe_le hbound
    have hcalls := publishCalls_nodup (publishInv_thread (publishInv_of_run hrun)
      hstep.publishStep)
    have hx := hx.of_append (publish_called_of_running hrun hd) hcalls
    have hnot : ¬ Unsubscribing tr x := fun h => hnot h.append
    have hidle : Function.update s.pc t pc (.dispatcher d) = .idle := hidle
    refine mem_puts_append ?_
    by_cases ht : .dispatcher d = t
    · subst ht
      rw [Function.update_self] at hidle
      rcases dispatcherInv_of_run hrun d with hold | ⟨arg, harg⟩
      · exact absurd hold hstep.dispatcher_ne_idle
      · rcases hstep.task_end harg with hnew | ⟨ch, hloop, hchannel, -, -⟩
        · rw [hidle] at hnew
          cases hnew
        · -- The task unlocks its channel, so it has passed the whole list.
          obtain ⟨d', task', heq, hd', rfl⟩ := taskInv_of_run hrun _ arg harg
          obtain rfl : d = d' := by simpa using heq
          obtain rfl : task = task' := by simpa [hd'] using hd.symm
          obtain ⟨j, hj⟩ := List.mem_iff_getElem?.mp (mem_list_of_subscribedBefore
            (present_of_run hrun hbound') (ownerInv_of_run hrun) (tableInv_of_run hrun)
            hchannel hx hnot)
          exact doneInv_of_run hrun hbound' _ _ ch none hloop j x hj (by rintro i ⟨⟩) hnot
    · rw [Function.update_of_ne ht] at hidle
      exact hinv hbound' d task hd hidle x hx hnot

/-- The publish of a finished task has been called. -/
theorem publish_called_of_returned {tr : List (Event n)} {s : State n}
    (h : (machine n capacity hcap).RunIf AllocationsSucceed tr s) {d : Fin n}
    {task : PoolTask PublisherTaskArg} (hret : .pool (.returned d task) ∈ tr) :
    task.arg ∈ publishCalls tr := by
  have hmem : .returned d task ∈ poolTrace tr := List.mem_filterMap.mpr ⟨_, hret, rfl⟩
  have htask : task ∈ returnedTasks (poolTrace tr) := List.mem_filterMap.mpr ⟨_, hmem, rfl⟩
  exact (publishInv_of_run h).enqueued task (mem_enqueuedTasks_of_returned (poolRun_of_run h) htask)

/-- A finished task has put its message into the inbox of every proxy that was subscribed before
the call of the publish and whose unsubscribe had not begun when the task finished. -/
theorem put_of_returned {tr : List (Event n)} {s : State n}
    (h : (machine n capacity hcap).RunIf AllocationsSucceed tr s)
    (hbound : s.shared.nextSubscribe < 2 ^ 64) :
    ∀ pre d task post, tr = pre ++ .pool (.returned d task) :: post →
      ∀ x, SubscribedBefore tr x task.arg → ¬ Unsubscribing pre x →
        task.arg.message ∈ puts tr x := by
  refine invariant_of_run (I := fun tr s => s.shared.nextSubscribe < 2 ^ 64 →
    ∀ pre d task post, tr = pre ++ .pool (.returned d task) :: post →
      ∀ x, SubscribedBefore tr x task.arg → ¬ Unsubscribing pre x →
        task.arg.message ∈ puts tr x) ?_ ?_ ?_ (fun _ _ _ hinv => hinv) h hbound
  · intro _ pre d task post htr
    simp at htr
  · intro tr s b pool t pc e hrun hinv hstep _ _ hbound pre d task post htr x hx hnot
    have hcalls := publishCalls_nodup (publishInv_pool (publishInv_of_run hrun) hstep)
    refine mem_puts_append ?_
    rcases append_toList_eq_append_cons htr with ⟨post', hold, rfl⟩ | ⟨he, rfl, rfl⟩
    · have hret : .pool (.returned d task) ∈ tr := by simp [hold]
      exact hinv hbound pre d task post' hold x
        (hx.of_append (publish_called_of_returned hrun hret) hcalls) hnot
    · -- The step is the return of the task.
      obtain rfl : e = some (.returned d task) := by
        cases e with
        | none => cases he
        | some y => simpa using he
      cases hstep with
      | @dispatcher d' sh pc e hidle hf =>
          obtain ⟨rfl, hd⟩ := (dispatcherFunction_running hf).2.2 d task rfl
          exact finishedInv_of_run hrun hbound d task hd hidle x
            (hx.of_append (publish_called_of_running hrun hd) hcalls) hnot
      | @client c move sh pc e pc₀ hf hpc =>
          have hret := (clientFunction_tasks hf).2.2.2
          simp [returnedTask] at hret
  · intro tr s t sh pc e hrun hinv hstep hbound pre d task post htr x hx hnot
    have hbound' := Nat.lt_of_le_of_lt hstep.nextSubscribe_le hbound
    have hcalls := publishCalls_nodup (publishInv_thread (publishInv_of_run hrun)
      hstep.publishStep)
    rcases append_toList_eq_append_cons htr with ⟨post', hold, rfl⟩ | ⟨he, rfl, rfl⟩
    · have hret : .pool (.returned d task) ∈ tr := by simp [hold]
      exact mem_puts_append (hinv hbound' pre d task post' hold x
        (hx.of_append (publish_called_of_returned hrun hret) hcalls) hnot)
    · have hnone := hstep.publishStep.poolEvent_eq_none
      rw [he] at hnone
      cases hnone

/-- A proxy is not being unsubscribed as long as its own subscription is not. -/
theorem not_unsubscribing {tr pre : List (Event n)} {s : State n}
    (h : (machine n capacity hcap).RunIf AllocationsSucceed tr s) (hpre : pre ⊆ tr) {t : Tid n}
    {k x : Nat} {name : CString} (hx : .subscribed t k x name ∈ tr)
    (hnot : ∀ t', .unsubscribeCall t' k ∉ pre) : ¬ Unsubscribing pre x := by
  rintro ⟨t', k', hcall, t₁, name₁, howned⟩
  -- The proxy belongs to one subscription only.
  obtain rfl := ((ownerInv_of_run h).unique k k' x x ⟨t, name, hx⟩
    ⟨t₁, name₁, hpre howned⟩).mpr rfl
  exact hnot t' hcall

/-! ### Names and ids -/

/-- A fan-out was on the channel object of its name. -/
theorem fanout_channel {tr : List (Event n)} {s : State n}
    (h : (machine n capacity hcap).RunIf AllocationsSucceed tr s) :
    ∀ f ∈ fanouts tr, s.shared.channels.get f.2.channelName = some f.1 := by
  refine invariant_of_run (I := fun tr s =>
    ∀ f ∈ fanouts tr, s.shared.channels.get f.2.channelName = some f.1) ?_ ?_ ?_
    (fun _ _ _ hinv => hinv) h
  · rintro f ⟨⟩
  · intro tr s b pool t pc e _ hinv _ _ _
    have hfan : fanouts (tr ++ (e.map Event.pool).toList) = fanouts tr :=
      filterMap_append_of_none (fanoutOf_map e) tr
    rw [hfan]
    exact hinv
  · intro tr s t sh pc e hrun hinv hstep f hf
    have htable := tableInv_of_run hrun
    show sh.channels.get f.2.channelName = some f.1
    refine hstep.get_mono htable ?_
    rw [fanouts, filterMap_append_toList, List.mem_append] at hf
    rcases hf with hf | hf
    · exact hinv f hf
    · -- The task that locks the channel has found it under its name.
      cases hstep.fanStep (currentInv_of_run hrun t) with
      | fanout arg ch hpc hfree hpc' he =>
          obtain rfl : f = (ch, arg) := by simpa [he, fanoutOf] using hf
          exact htable.found t arg.channelName ch (by rw [hpc]; rfl)
      | put arg ch i x hpc hpc' he => simp [he, fanoutOf] at hf
      | advance arg ch i h' hpc hpc' hle hskip hfan he => simp [he] at hf
      | other hloop hfan hfanout hput => simp [hfanout] at hf

/-- Every message of an inbox comes from a fan-out of its channel. -/
theorem fanout_of_mem_puts {tr : List (Event n)} {s : State n}
    (h : (machine n capacity hcap).RunIf AllocationsSucceed tr s) {x : Nat} {msg : Message}
    (hmsg : msg ∈ puts tr x) :
    ∃ arg, ((s.shared.proxy x).channel, arg) ∈ fanouts tr ∧ arg.message = msg := by
  have hmem := ((orderInv_of_run h).order x).subset hmsg
  obtain ⟨⟨ch, arg⟩, hf, rfl⟩ := List.mem_map.mp hmem
  obtain ⟨hf, hch⟩ := List.mem_filter.mp hf
  obtain rfl : ch = (s.shared.proxy x).channel := of_decide_eq_true hch
  exact ⟨arg, hf, rfl⟩

/-- A message is put only into inboxes of its own channel name. -/
theorem channelName_of_mem_puts {tr : List (Event n)} {s : State n}
    (h : (machine n capacity hcap).RunIf AllocationsSucceed tr s) {t : Tid n} {k x : Nat}
    {name : CString} (hx : .subscribed t k x name ∈ tr) {msg : Message}
    (hmsg : msg ∈ puts tr x) : msg.channelName = name := by
  obtain ⟨arg, hf, rfl⟩ := fanout_of_mem_puts h hmsg
  obtain ⟨-, -, -, hget⟩ := (ownerInv_of_run h).owned t k x name hx
  exact (tableInv_of_run h).name_unique (fanout_channel h _ hf) hget

/-- The publish of a fan-out has been called. -/
theorem publish_called_of_fanout {tr : List (Event n)} {s : State n}
    (h : (machine n capacity hcap).RunIf AllocationsSucceed tr s)
    {f : Nat × PublisherTaskArg} (hf : f ∈ fanouts tr) : f.2 ∈ publishCalls tr := by
  obtain ⟨task, htask, harg⟩ := (fanInv_of_run h).called f hf
  rw [← harg]
  exact (publishInv_of_run h).enqueued task (mem_enqueuedTasks_of_called (poolRun_of_run h) htask)

/-- With fewer than 2^64 publishes, two publishes with the same id are the same publish. -/
theorem PublishInv.publish_eq_of_id {tr : List (Event n)} {s : State n} (hinv : PublishInv tr s)
    (hbound : s.shared.nextPublish < 2 ^ 64) {arg arg' : PublisherTaskArg}
    (h : arg ∈ publishCalls tr) (h' : arg' ∈ publishCalls tr)
    (heq : arg.messageId = arg'.messageId) : arg.publish = arg'.publish := by
  have hlt : ∀ a ∈ publishCalls tr, a.publish < s.shared.nextPublish := by
    intro a ha
    have hmem := List.mem_map_of_mem (f := PublisherTaskArg.publish) ha
    rw [hinv.calls] at hmem
    exact List.mem_range.mp hmem
  have hvalue : ∀ a ∈ publishCalls tr, a.messageId.toNat = a.publish + 1 := by
    intro a ha
    have hle := hlt a ha
    rw [hinv.ids a ha, UInt64.toNat_ofNat', Nat.mod_eq_of_lt]
    omega
  have hids := hvalue arg h
  rw [heq, hvalue arg' h'] at hids
  omega

/-- The messages of an inbox have different publishes. -/
theorem puts_publish_nodup {tr : List (Event n)} {s : State n}
    (h : (machine n capacity hcap).RunIf AllocationsSucceed tr s) (x : Nat) :
    ((puts tr x).map Message.publish).Nodup := by
  have hsub : List.Sublist ((channelFanouts tr (s.shared.proxy x).channel).map Message.publish)
      ((fanouts tr).map fun f => f.2.publish) := by
    rw [channelFanouts, List.map_map]
    exact List.filter_sublist.map _
  exact ((fanInv_of_run h).nodup.sublist hsub).sublist (((orderInv_of_run h).order x).map _)

/-- With fewer than 2^64 publishes, the messages of an inbox have different ids. -/
theorem puts_id_nodup {tr : List (Event n)} {s : State n}
    (h : (machine n capacity hcap).RunIf AllocationsSucceed tr s)
    (hbound : s.shared.nextPublish < 2 ^ 64) (x : Nat) :
    ((puts tr x).map Message.id).Nodup := by
  have hnodup := puts_publish_nodup h x
  rw [List.nodup_map_iff_inj_on hnodup.of_map]
  intro m hm m' hm' heq
  refine List.inj_on_of_nodup_map hnodup hm hm' ?_
  obtain ⟨arg, hf, rfl⟩ := fanout_of_mem_puts h hm
  obtain ⟨arg', hf', rfl⟩ := fanout_of_mem_puts h hm'
  exact (publishInv_of_run h).publish_eq_of_id hbound (publish_called_of_fanout h hf)
    (publish_called_of_fanout h hf') heq

/-- Broker delivery, for every run with fewer than 2^64 publishes and fewer than 2^64
subscribes. A subscription to the channel of a publish whose subscribe returned before the call
of the publish, and whose unsubscribe had not begun when the task of the publish finished, has
had exactly one message with the id of the publish put into its inbox, with the channel and the
content of the publish. Only subscriptions to that channel name get it, no inbox gets an id
twice, and the ids of the publishes are different. -/
theorem broker_delivery {tr : List (Event n)} {s : State n}
    (h : (machine n capacity hcap).RunIf AllocationsSucceed tr s)
    (hpublish : s.shared.nextPublish < 2 ^ 64) (hsubscribe : s.shared.nextSubscribe < 2 ^ 64) :
    (∀ pre d task post t k x c, tr = pre ++ .pool (.returned d task) :: post →
      Before tr (.subscribed t k x task.arg.channelName) (.publishCall c task.arg) →
      (∀ t', .unsubscribeCall t' k ∉ pre) →
      (puts tr x).filter (fun msg => msg.id = task.arg.messageId) = [task.arg.message]) ∧
    (∀ t k x name, .subscribed t k x name ∈ tr → ∀ msg ∈ puts tr x, msg.channelName = name) ∧
    (∀ x, ((puts tr x).map Message.id).Nodup) ∧
    ((publishCalls tr).map PublisherTaskArg.messageId).Nodup := by
  have hids := puts_id_nodup h hpublish
  refine ⟨?_, ?_, hids, ?_⟩
  · intro pre d task post t k x c htr hb hnot
    have hpre : pre ⊆ tr := by
      rw [htr]
      exact List.subset_append_left _ _
    have hunsub := not_unsubscribing h hpre hb.mem_left hnot
    have hmem := put_of_returned h hsubscribe pre d task post htr x ⟨t, k, c, hb⟩ hunsub
    have hfilter : List.filter (fun msg => msg.id = task.arg.messageId) (puts tr x)
        = List.filter (fun msg => msg = task.arg.message) (puts tr x) := by
      refine List.filter_congr ?_
      intro m hm
      refine decide_eq_decide.mpr ⟨fun heq => ?_, fun heq => by rw [heq]; rfl⟩
      exact List.inj_on_of_nodup_map (hids x) hm hmem heq
    rw [hfilter, List.filter_eq, List.count_eq_one_of_mem (hids x).of_map hmem]
    rfl
  · intro t k x name hx msg hmsg
    exact channelName_of_mem_puts h hx hmsg
  · have hinv := publishInv_of_run h
    have hnodup := publishCalls_nodup hinv
    rw [List.nodup_map_iff_inj_on hnodup.of_map]
    intro arg harg arg' harg' heq
    exact List.inj_on_of_nodup_map hnodup harg harg'
      (hinv.publish_eq_of_id hpublish harg harg' heq)

/-- A client subscribes to the channel `c`, another one publishes there, and the task of the
publish runs. -/
theorem broker_delivery_one_subscriber :
    ∃ (tr : List (Event 1)) (s : State 1) (msg : Message),
      (machine 1 1 (by decide)).RunIf AllocationsSucceed tr s ∧
      (puts tr 0).filter (fun m => m.id = 1) = [msg] ∧ msg.content.bytes = [49] := by
  let name : CString := ⟨[99], by decide⟩
  let arg : PublisherTaskArg := ⟨1, name, ⟨[49], by decide⟩, 0⟩
  let pre : List (Event 1) :=
    [.subscribeCall (.client 0) 1 name, .subscribed (.client 0) 0 0 name, .publishCall 1 arg,
      .pool (.submitCall 1 arg), .pool (.enqueued ⟨0, arg⟩), .pool (.submitted 1 ⟨0, arg⟩),
      .pool (.called 0 ⟨0, arg⟩), .fanout (.dispatcher 0) 0 arg,
      .put (.dispatcher 0) 0 arg.message]
  obtain ⟨tr, s, hrun, htest⟩ := Machine.runIf_of_exec (M := machine 1 1 (by decide))
    (K := AllocationsSucceed)
    (subscribeSchedule 0 name true ++ publishSchedule 1 name arg.content ++ taskSchedule 0 1)
    (fun tr s => decide (tr = pre ++ .pool (.returned 0 ⟨0, arg⟩) :: [] ∧
      s.shared.nextPublish = 1 ∧ s.shared.nextSubscribe = 1)) (by decide +kernel)
  obtain ⟨htr, hpublish, hsubscribe⟩ := of_decide_eq_true htest
  have hdelivery := broker_delivery hrun (by rw [hpublish]; decide) (by rw [hsubscribe]; decide)
  refine ⟨tr, s, arg.message, hrun, ?_, rfl⟩
  have hb : Before pre (.subscribed (.client 0) 0 0 name) (.publishCall 1 arg) := by
    decide +kernel
  have hb : Before tr (.subscribed (.client 0) 0 0 name) (.publishCall 1 arg) := by
    rw [htr]
    exact hb.of_sublist (List.sublist_append_left _ _)
  exact hdelivery.1 pre 0 ⟨0, arg⟩ [] (.client 0) 0 0 1 htr hb (by intro t'; simp [pre])

/-! ### The subscriber ids wrap around -/

/-- The state in which the first `m` clients have called `message_broker_subscribe` and have
their ids, and nothing else has happened. -/
def manySubscribes (capacity : UInt64) (hcap : capacity ≠ 0) (name : CString) (m : Nat) :
    State n :=
  { init capacity hcap with
    shared := { (init capacity hcap : State n).shared with
      nextSubscriberId := UInt64.ofNat (m + 1), nextSubscribe := m }
    pc := fun
      | .client c =>
          if c < m then .subscribe name (UInt64.ofNat (c + 1)) (.getChannel .lock) else .idle
      | .dispatcher _ => .idle }

/-- Any number of clients can call `message_broker_subscribe` before any of them goes on. -/
theorem run_manySubscribes (name : CString) (m : Nat) :
    (machine n capacity hcap).RunIf AllocationsSucceed
      ((List.range m).map fun c => .subscribeCall (.client c) (UInt64.ofNat (c + 1)) name)
      (manySubscribes capacity hcap name m) := by
  induction m with
  | zero =>
      have hinit : (manySubscribes capacity hcap name 0 : State n) = init capacity hcap := by
        simp only [manySubscribes, init, Nat.not_lt_zero, if_false]
        congr 1
        funext t
        cases t <;> rfl
      rw [hinit]
      exact .nil
  | succ m ih =>
      have hnext : next (manySubscribes capacity hcap name m : State n)
          (.thread (.client m) (.callSubscribe name))
          = some (manySubscribes capacity hcap name (m + 1),
            some (.subscribeCall (.client m) (UInt64.ofNat (m + 1)) name)) := by
        have hpc : Function.update (manySubscribes capacity hcap name m : State n).pc (.client m)
            (.subscribe name (UInt64.ofNat (m + 1)) (.getChannel .lock))
            = (manySubscribes capacity hcap name (m + 1) : State n).pc := by
          funext t
          cases t with
          | client c =>
              by_cases hc : c = m
              · subst hc
                simp [manySubscribes]
              · have hle : c ≤ m ↔ c < m := by omega
                simp [manySubscribes, hc, hle]
          | dispatcher d => simp [manySubscribes]
        have hidle : (manySubscribes capacity hcap name m : State n).pc (.client m) = .idle := by
          simp [manySubscribes]
        simp only [next, hidle, threadFunction, call, Option.map_some]
        rw [if_neg (by simp [manySubscribes, init])]
        refine congrArg some (Prod.ext ?_ rfl)
        show State.mk _ _ _ _ = State.mk _ _ _ _
        congr 1
        · show Shared.mk _ _ _ _ _ _ _ _ _ _ _ _ = Shared.mk _ _ _ _ _ _ _ _ _ _ _ _
          congr 1
          show UInt64.ofNat (m + 1) + 1 = UInt64.ofNat (m + 1 + 1)
          simp
      have hK : AllocationsSucceed (manySubscribes capacity hcap name m : State n)
          (.thread (.client m) (.callSubscribe name)) := trivial
      rw [List.range_succ, List.map_append]
      exact ih.snoc hK hnext

/-- 2^64 + 1 clients take subscriber ids, so the first and the last of them have the same id.
Both finish their subscribes to the channel `c`, and the last one unsubscribes: it finds the
proxy of the first one by the id, frees it and takes it out of the list. A message that is
published afterwards does not reach the first subscription, which nobody has unsubscribed. -/
theorem message_lost_by_id_wrap :
    ∃ (tr : List (Event 1)) (s : State 1),
      (machine 1 1 (by decide)).RunIf AllocationsSucceed tr s ∧ s.shared.nextPublish = 1 ∧
      ∃ pre d task post t k x c, tr = pre ++ .pool (.returned d task) :: post ∧
        .pool (.submitted c task) ∈ pre ∧
        Before tr (.subscribed t k x task.arg.channelName) (.publishCall c task.arg) ∧
        (∀ t', .unsubscribeCall t' k ∉ pre) ∧ puts tr x = [] := by
  let name : CString := ⟨[99], by decide⟩
  let arg : PublisherTaskArg := ⟨1, name, ⟨[49], by decide⟩, 0⟩
  let last : Nat := 2 ^ 64
  let pre : List (Event 1) :=
    [.subscribed (.client 0) 0 0 name, .subscribed (.client last) 1 1 name,
      .unsubscribeCall (.client last) 1, .unsubscribed (.client last) 1 0, .publishCall 0 arg,
      .pool (.submitCall 0 arg), .pool (.enqueued ⟨0, arg⟩), .pool (.submitted 0 ⟨0, arg⟩),
      .pool (.called 0 ⟨0, arg⟩), .fanout (.dispatcher 0) 0 arg]
  have hcalls : (machine 1 1 (by decide)).RunIf AllocationsSucceed _ _ :=
    run_manySubscribes name (last + 1)
  obtain ⟨tr, s, hrun, htest⟩ := hcalls.exec_any
    (List.replicate 10 (.thread (.client 0) .go) ++ List.replicate 8 (.thread (.client last) .go)
      ++ .thread (.client last) (.callUnsubscribe 1)
        :: List.replicate 20 (.thread (.client last) .go)
      ++ publishSchedule 0 name arg.content
      ++ List.replicate 8 (.dispatcher 0) ++ List.replicate 8 (.thread (.dispatcher 0) .go)
      ++ [.dispatcher 0])
    (fun tr s => decide (tr = pre ++ .pool (.returned 0 ⟨0, arg⟩) :: [] ∧
      s.shared.nextPublish = 1)) (by decide +kernel)
  obtain ⟨rfl, hpublish⟩ := of_decide_eq_true htest
  refine ⟨_, s, hrun, hpublish, _ ++ pre, 0, ⟨0, arg⟩, [], .client 0, 0, 0, 0,
    (List.append_assoc _ _ _).symm, List.mem_append_right _ (by simp [pre]), ?_, ?_, ?_⟩
  · have hb : Before pre (.subscribed (.client 0) 0 0 name) (.publishCall 0 arg) := by
      decide +kernel
    exact hb.of_sublist ((List.sublist_append_left _ _).trans (List.sublist_append_right _ _))
  · intro t' hmem
    rcases List.mem_append.mp hmem with hmem | hmem
    · simp at hmem
    · simp [pre] at hmem
  · -- The calls of the subscribes put nothing into an inbox.
    rw [puts, List.filterMap_append, List.filterMap_map]
    have hnone : (putOf 0 ∘ fun c => (.subscribeCall (.client c) (UInt64.ofNat (c + 1)) name :
        Event 1)) = fun _ => none := rfl
    rw [hnone, List.filterMap_none, List.nil_append]
    decide +kernel

end

end Miez.Proofs.MessageBroker
