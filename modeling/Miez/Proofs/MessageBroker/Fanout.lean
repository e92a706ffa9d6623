import Miez.Proofs.MessageBroker.Present
import Miez.Proofs.MessageBroker.Publishes

/-!
# `Miez.Proofs.MessageBroker.Fanout`: what the fan-outs of a channel put into the inboxes

The task of a publish locks its channel, walks over the list of the channel and puts a copy of
the message into the inbox of each active proxy. `FanInv` says that no publish is fanned out
twice. `OrderInv` says that the messages put into an inbox are a sublist of the fan-outs of its
channel, in the order in which the tasks locked the channel. The whole fan-out is one critical
section of the channel's mutex, and every name has one channel object, so two inboxes of the
same channel name agree on the order (`enqueue_order_agreement`).
-/

set_option autoImplicit false

namespace Miez.Proofs.MessageBroker

open Miez.Lib
open Miez.MessageBroker
open Miez.ThreadPool (Tid PoolTask)
open Miez.Proofs.ThreadPool

section
variable {n : Nat} {capacity : UInt64} {hcap : capacity ≠ 0}

/-! ### Fan-outs and puts -/

/-- The channel object and the argument of the task that locks it for its fan-out. -/
def fanoutOf : Event n → Option (Nat × PublisherTaskArg)
  | .fanout _ ch arg => some (ch, arg)
  | _ => none

/-- The fan-outs so far, in the order of their locks. -/
def fanouts (tr : List (Event n)) : List (Nat × PublisherTaskArg) := tr.filterMap fanoutOf

/-- The messages fanned out on the channel object `ch`. -/
def channelFanouts (tr : List (Event n)) (ch : Nat) : List Message :=
  ((fanouts tr).filter fun f => f.1 = ch).map fun f => f.2.message

/-- The message that the event puts into the inbox of the proxy `x`. -/
def putOf (x : Nat) : Event n → Option Message
  | .put _ y msg => if y = x then some msg else none
  | _ => none

/-- The messages put into the inbox of the proxy `x`, in this order. -/
def puts (tr : List (Event n)) (x : Nat) : List Message := tr.filterMap (putOf x)

/-- A step that shows no fan-out. -/
theorem channelFanouts_append_of_none {tr : List (Event n)} {e : Option (Event n)}
    (he : e.bind fanoutOf = none) (ch : Nat) :
    channelFanouts (tr ++ e.toList) ch = channelFanouts tr ch := by
  rw [channelFanouts, fanouts, filterMap_append_of_none he]
  rfl

/-- A step that shows a fan-out. -/
theorem channelFanouts_append_fanout (tr : List (Event n)) (t : Tid n) (ch : Nat)
    (arg : PublisherTaskArg) (ch' : Nat) :
    channelFanouts (tr ++ (some (Event.fanout t ch arg)).toList) ch'
      = if ch' = ch then channelFanouts tr ch' ++ [arg.message] else channelFanouts tr ch' := by
  rw [channelFanouts, fanouts, filterMap_append_of_some (x := (ch, arg)) rfl, List.filter_append,
    List.map_append]
  by_cases hch : ch' = ch
  · subst hch
    rw [if_pos rfl]
    simp [channelFanouts, fanouts]
  · rw [if_neg hch]
    simp [channelFanouts, fanouts, Ne.symm hch]

/-- A step that puts nothing into the inbox of `x`. -/
theorem puts_append_of_none {tr : List (Event n)} {e : Option (Event n)} {x : Nat}
    (he : e.bind (putOf x) = none) : puts (tr ++ e.toList) x = puts tr x :=
  filterMap_append_of_none he tr

/-- A step that puts a message into an inbox. -/
theorem puts_append_put (tr : List (Event n)) (t : Tid n) (y : Nat) (msg : Message) (x : Nat) :
    puts (tr ++ (some (Event.put t y msg)).toList) x
      = if y = x then puts tr x ++ [msg] else puts tr x := by
  by_cases hx : y = x
  · rw [if_pos hx]
    exact filterMap_append_of_some (by simp [putOf, hx]) tr
  · rw [if_neg hx]
    exact filterMap_append_of_none (by simp [putOf, hx]) tr

/-- Messages are not taken back. -/
theorem mem_puts_append {tr tr' : List (Event n)} {x : Nat} {msg : Message}
    (h : msg ∈ puts tr x) : msg ∈ puts (tr ++ tr') x := by
  rw [puts, List.filterMap_append]
  exact List.mem_append_left _ h

/-! ### The walk over the list -/

/-- The publish that a task has still to fan out. -/
def toFan : Pc → Option PublisherTaskArg
  | .publisherTask arg (.getChannel _) | .publisherTask arg (.lockChannel _) => some arg
  | _ => none

/-- The publish and the channel of a fan-out under way, and the first position of the list that
is not done yet. At the end of the walk all positions are done. -/
def loopOf : Pc → Option (PublisherTaskArg × Nat × Option Nat)
  | .publisherTask arg pc =>
      match pc with
      | .begin ch => some (arg, ch, some 0)
      | .next ch i | .testActive ch i _ | .enqueue ch i _ => some (arg, ch, some i)
      | .lockInbox ch i _ | .signal ch i _ | .unlockInbox ch i _ => some (arg, ch, some (i + 1))
      | .unlockChannel ch => some (arg, ch, none)
      | _ => none
  | _ => none

/-- The channel, the position and the proxy that a fan-out has in hand. -/
def currentOf : Pc → Option (Nat × Nat × Nat)
  | .publisherTask _ pc =>
      match pc with
      | .testActive ch i x | .enqueue ch i x | .lockInbox ch i x | .signal ch i x
      | .unlockInbox ch i x => some (ch, i, x)
      | _ => none
  | _ => none

/-- A fan-out under way holds the mutex of its channel. -/
theorem channelHeld_of_loop {pc : Pc} {arg : PublisherTaskArg} {ch : Nat} {h : Option Nat}
    (hpc : loopOf pc = some (arg, ch, h)) : channelHeld pc = some ch ∧ taskArg pc = some arg := by
  unfold loopOf at hpc
  split at hpc
  · split at hpc <;> simp_all [channelHeld, taskArg]
  · cases hpc

/-- A fan-out with a proxy in hand is under way. -/
theorem channelHeld_of_current {pc : Pc} {ch i x : Nat} (hpc : currentOf pc = some (ch, i, x)) :
    channelHeld pc = some ch ∧ ∃ arg, taskArg pc = some arg := by
  unfold currentOf at hpc
  split at hpc
  · split at hpc <;> simp_all [channelHeld, taskArg]
  · cases hpc

/-- A step of a task does not touch the lists. -/
theorem ObjectStep.same_of_task {t : Tid n} {sh sh' : Shared n} {pc pc' : Pc}
    {e : Option (Event n)} (h : ObjectStep t sh pc sh' pc' e) {arg : PublisherTaskArg}
    (hpc : taskArg pc = some arg) : SameObjects sh sh' := by
  cases h with
  | newProxy name id ch hpc₀ hsh hpc' he => rw [hpc₀] at hpc; cases hpc
  | insertLast name id ch x hpc₀ hsh hpc' he => rw [hpc₀] at hpc; cases hpc
  | unlink k thenFree ch i hpc₀ hsh hpc' he => rw [hpc₀] at hpc; cases hpc
  | newSubscription name id x hpc₀ hsh hpc' he => rw [hpc₀] at hpc; cases hpc
  | other hsame hhand hlisted he => exact hsame

/-- The list of a channel whose mutex a task holds does not change: its own steps leave the
lists alone, and the other threads do not have the mutex. -/
theorem list_of_task_held {s : State n} {t : Tid n} {sh : Shared n} {pc : Pc}
    {e : Option (Event n)}
    (hlock : ∀ ch, LockInv (fun t => channelHeld (s.pc t) = some ch) (s.shared.channel ch).mutex)
    (hobject : ObjectStep t s.shared (s.pc t) sh pc e) {t' : Tid n} {ch : Nat}
    {arg : PublisherTaskArg} (hheld : channelHeld (s.pc t') = some ch)
    (htask : taskArg (s.pc t') = some arg) :
    (sh.channel ch).subscriberProxies = (s.shared.channel ch).subscriberProxies := by
  by_cases ht : t' = t
  · subst ht
    exact (hobject.same_of_task htask).lists ch
  · exact hobject.frame.1 ch fun hme => ht ((hlock ch).unique hheld hme)

/-- The proxy in hand is the one at the position in hand. -/
def CurrentInv (s : State n) : Prop :=
  ∀ t ch i x, currentOf (s.pc t) = some (ch, i, x) →
    (s.shared.channel ch).subscriberProxies[i]? = some x

/-- A fan-out has had the proxy in hand before, or it has just read it from the list. -/
theorem ThreadStep.current {t : Tid n} {sh sh' : Shared n} {pc pc' : Pc} {e : Option (Event n)}
    (h : ThreadStep t sh pc sh' pc' e) {ch i x : Nat} (hx : currentOf pc' = some (ch, i, x)) :
    currentOf pc = some (ch, i, x) ∨
    ((sh.channel ch).subscriberProxies[i]? = some x ∧ sh' = sh) := by
  cases h with
  | nextActive ch' i' x' hx' =>
      obtain ⟨rfl, rfl, rfl⟩ : ch' = ch ∧ i' = i ∧ x' = x := by simpa [currentOf] using hx
      exact Or.inr ⟨hx', rfl⟩
  | taskUnlockInbox ch' i' x' => cases hx
  | testInactive ch' i' x' hactive => cases hx
  | unsubscribeInactive hret => rcases hret with ⟨rfl, -⟩ | ⟨rfl, -⟩ <;> cases hx
  | clearProxy hret => rcases hret with ⟨rfl, -⟩ | ⟨rfl, -⟩ <;> cases hx
  | receiveRead hret => rcases hret with ⟨r', rfl, -⟩ | ⟨rfl, -⟩ <;> cases hx
  | receiveInbox x p hp hinbox hret => rcases hret with ⟨r', rfl, -⟩ | ⟨rfl, -⟩ <;> cases hx
  | pendingRead hret => rcases hret with ⟨rfl, -⟩ | ⟨rfl, -⟩ <;> cases hx
  | _ => exact Or.inl hx

/-- `CurrentInv` holds in every state of a run. -/
theorem currentInv_of_run {tr : List (Event n)} {s : State n}
    (h : (machine n capacity hcap).RunIf AllocationsSucceed tr s) : CurrentInv s := by
  refine invariant_of_run (I := fun _ s => CurrentInv s) ?_ ?_ ?_ (fun _ _ _ hinv => hinv) h
  · intro t ch i x hx
    cases hx
  · intro tr s b pool t pc e _ hinv _ _ hpc
    refine forall_update (P := fun (_ : Tid n) pc => ∀ ch i x, currentOf pc = some (ch, i, x) →
      (s.shared.channel ch).subscriberProxies[i]? = some x) ?_ fun t' _ => hinv t'
    intro ch i x hx
    rcases inCall_cases hpc with rfl | ⟨arg, rfl⟩ | rfl | ⟨arg, rfl⟩ <;> cases hx
  · intro tr s t sh pc e hrun hinv hstep
    have hobject := hstep.objectStep (fresh_of_run hrun _ le_rfl).2
    have hkeep : ∀ t' ch i x, currentOf (s.pc t') = some (ch, i, x) →
        (sh.channel ch).subscriberProxies[i]? = some x := by
      intro t' ch i x hx
      obtain ⟨hheld, arg, htask⟩ := channelHeld_of_current hx
      rw [list_of_task_held (channelLock_of_run hrun) hobject hheld htask]
      exact hinv t' ch i x hx
    refine forall_update (P := fun (_ : Tid n) pc => ∀ ch i x, currentOf pc = some (ch, i, x) →
      (sh.channel ch).subscriberProxies[i]? = some x) ?_ fun t' _ => hkeep t'
    intro ch i x hx
    rcases hstep.current hx with hold | ⟨hread, rfl⟩
    · exact hkeep t ch i x hold
    · exact hread

/-- What a step of a thread does to the fan-outs. A step of the walk that puts nothing passes
only inactive proxies. -/
inductive FanStep (t : Tid n) (sh : Shared n) (pc : Pc) (sh' : Shared n) (pc' : Pc)
    (e : Option (Event n)) : Prop where
  | fanout (arg : PublisherTaskArg) (ch : Nat)
      (hpc : pc = .publisherTask arg (.lockChannel ch)) (hfree : (sh.channel ch).mutex = none)
      (hpc' : pc' = .publisherTask arg (.begin ch)) (he : e = some (.fanout t ch arg))
  | put (arg : PublisherTaskArg) (ch i x : Nat)
      (hpc : pc = .publisherTask arg (.enqueue ch i x))
      (hpc' : pc' = .publisherTask arg (.lockInbox ch i x))
      (he : e = some (.put t x arg.message))
  | advance (arg : PublisherTaskArg) (ch i : Nat) (h' : Option Nat)
      (hpc : loopOf pc = some (arg, ch, some i)) (hpc' : loopOf pc' = some (arg, ch, h'))
      (hle : ∀ k, h' = some k → i ≤ k)
      (hskip : ∀ j x, i ≤ j → (sh.channel ch).subscriberProxies[j]? = some x →
        (∀ k, h' = some k → j < k) → (sh.proxy x).active = false)
      (hfan : toFan pc' = none) (he : e = none)
  | other (hloop : ∀ r, loopOf pc' = some r → loopOf pc = some r)
      (hfan : ∀ arg, toFan pc' = some arg → toFan pc = some arg)
      (hfanout : e.bind fanoutOf = none) (hput : ∀ x, e.bind (putOf x) = none)

/-- A step of a thread is one of the steps of `FanStep`. -/
theorem ThreadStep.fanStep {t : Tid n} {sh sh' : Shared n} {pc pc' : Pc} {e : Option (Event n)}
    (h : ThreadStep t sh pc sh' pc' e)
    (hcurrent : ∀ ch i x, currentOf pc = some (ch, i, x) →
      (sh.channel ch).subscriberProxies[i]? = some x) : FanStep t sh pc sh' pc' e := by
  -- The walk goes past the position `i`, where an inactive proxy is.
  have hpass : ∀ {ch i x : Nat}, (sh.channel ch).subscriberProxies[i]? = some x →
      (sh.proxy x).active = false → ∀ j y, i ≤ j →
      (sh.channel ch).subscriberProxies[j]? = some y →
      (∀ k, some (i + 1) = some k → j < k) → (sh.proxy y).active = false := by
    intro ch i x hx hactive j y hij hy hlt
    have hj : j < i + 1 := hlt (i + 1) rfl
    obtain rfl : j = i := by omega
    rw [hx] at hy
    rw [← Option.some.inj hy]
    exact hactive
  -- The walk stays at its position.
  have hstay : ∀ {ch i : Nat}, ∀ j y, i ≤ j →
      (sh.channel ch).subscriberProxies[j]? = some y →
      (∀ k, some i = some k → j < k) → (sh.proxy y).active = false := by
    intro ch i j y hij hy hlt
    exact absurd (hlt i rfl) (Nat.not_lt.mpr hij)
  cases h with
  | fanout ch hfree => exact .fanout _ ch rfl hfree rfl rfl
  | put ch i x => exact .put _ ch i x rfl rfl rfl
  | beginEmpty ch hempty =>
      refine .advance _ ch 0 none rfl rfl (by rintro k ⟨⟩) ?_ rfl rfl
      intro j x _ hx
      simp [hempty] at hx
  | begin ch => exact .advance _ ch 0 (some 0) rfl rfl (by rintro k ⟨⟩; exact le_rfl) hstay rfl rfl
  | nextEnd ch i hend =>
      refine .advance _ ch i none rfl rfl (by rintro k ⟨⟩) ?_ rfl rfl
      intro j x hij hx
      -- There is no position behind the end of the list.
      have hj := (List.getElem?_eq_some_iff.mp hx).1
      have hi := List.getElem?_eq_none_iff.mp hend
      omega
  | nextActive ch i x hx =>
      exact .advance _ ch i (some i) rfl rfl (by rintro k ⟨⟩; exact le_rfl) hstay rfl rfl
  | nextInactive ch i x hx hactive =>
      exact .advance _ ch i (some (i + 1)) rfl rfl (by rintro k ⟨⟩; exact Nat.le_succ i)
        (hpass hx hactive) rfl rfl
  | testActive ch i x =>
      exact .advance _ ch i (some i) rfl rfl (by rintro k ⟨⟩; exact le_rfl) hstay rfl rfl
  | testInactive ch i x hactive =>
      exact .advance _ ch i (some (i + 1)) rfl rfl (by rintro k ⟨⟩; exact Nat.le_succ i)
        (hpass (hcurrent ch i x rfl) hactive) rfl rfl
  | taskUnlock ch =>
      exact .other (by rintro r ⟨⟩) (by rintro arg ⟨⟩) rfl fun _ => rfl
  | taskFound hg => exact .other (by rintro r ⟨⟩) (fun _ h => h) rfl fun _ => rfl
  | unsubscribeInactive hret =>
      rcases hret with ⟨rfl, rfl⟩ | ⟨rfl, rfl⟩ <;>
        exact .other (fun _ h => h) (fun _ h => h) rfl fun _ => rfl
  | clearProxy hret =>
      rcases hret with ⟨rfl, rfl⟩ | ⟨rfl, rfl⟩ <;>
        exact .other (fun _ h => h) (fun _ h => h) rfl fun _ => rfl
  | receiveRead hret =>
      rcases hret with ⟨r', rfl, rfl⟩ | ⟨rfl, rfl⟩ <;>
        exact .other (fun _ h => h) (fun _ h => h) rfl fun _ => rfl
  | receiveInbox x p hp hinbox hret =>
      rcases hret with ⟨r', rfl, rfl⟩ | ⟨rfl, rfl⟩ <;>
        exact .other (fun _ h => h) (fun _ h => h) rfl fun _ => rfl
  | pendingRead hret =>
      rcases hret with ⟨rfl, rfl⟩ | ⟨rfl, count, rfl⟩ <;>
        exact .other (fun _ h => h) (fun _ h => h) rfl fun _ => rfl
  | _ => exact .other (fun _ h => h) (fun _ h => h) rfl fun _ => rfl

/-- A program point of `inCall` is not in a fan-out. -/
theorem loopOf_of_inCall {pc : Pc} (h : inCall pc = true) : loopOf pc = none := by
  rcases inCall_cases h with rfl | ⟨arg, rfl⟩ | rfl | ⟨arg, rfl⟩ <;> rfl

/-- The event of a step of the pool is neither a fan-out nor a put. -/
theorem fanoutOf_map (e : Option (ThreadPool.Event n PublisherTaskArg)) :
    (e.map Event.pool).bind fanoutOf = none := by
  cases e <;> rfl

/-- The event of a step of the pool is not a put. -/
theorem putOf_map (e : Option (ThreadPool.Event n PublisherTaskArg)) (x : Nat) :
    (e.map Event.pool).bind (putOf x) = none := by
  cases e <;> rfl

/-! ### No publish is fanned out twice -/

/-- A publish is fanned out at most once, by a task that has been called. -/
structure FanInv (tr : List (Event n)) (s : State n) : Prop where
  nodup : ((fanouts tr).map fun f => f.2.publish).Nodup
  called : ∀ f ∈ fanouts tr, ∃ task ∈ calledTasks (poolTrace tr), task.arg = f.2
  before : ∀ t arg, toFan (s.pc t) = some arg → ∀ f ∈ fanouts tr, f.2.publish ≠ arg.publish

/-- A publish that a task has still to fan out is the publish of the task. -/
theorem taskArg_of_toFan {pc : Pc} {arg : PublisherTaskArg} (h : toFan pc = some arg) :
    taskArg pc = some arg := by
  unfold toFan at h
  split at h
  · exact h
  · exact h
  · cases h

/-- A step of the pool keeps `FanInv`: a task that is called was not called before. -/
theorem fanInv_pool {tr : List (Event n)} {s : State n}
    (hrun : (machine n capacity hcap).RunIf AllocationsSucceed tr s) (hinv : FanInv tr s)
    {b : ThreadPool.Action n PublisherTaskArg} {pool : ThreadPool.State n PublisherTaskArg}
    {t : Tid n} {pc : Pc} {e : Option (ThreadPool.Event n PublisherTaskArg)}
    (hstep : PoolStep s b pool t pc e) :
    FanInv (tr ++ (e.map Event.pool).toList)
      ⟨pool, s.shared, Function.update s.pc t pc, s.faulted⟩ := by
  have hfan : fanouts (tr ++ (e.map Event.pool).toList) = fanouts tr :=
    filterMap_append_of_none (fanoutOf_map e) tr
  have hcalled : calledTasks (poolTrace (tr ++ (e.map Event.pool).toList))
      = calledTasks (poolTrace tr) ++ (e.bind calledTask).toList := by
    rw [poolTrace_append_pool]
    exact filterMap_append_toList calledTask _ e
  have hpool' := (poolRun_of_run hrun).snoc trivial hstep.next
  have hnodup : (calledTasks (poolTrace tr) ++ (e.bind calledTask).toList).Nodup := by
    rw [← hcalled, poolTrace_append_pool]
    exact calledTasks_nodup hpool'
  refine ⟨?_, ?_, ?_⟩
  · rw [hfan]
    exact hinv.nodup
  · intro f hf
    rw [hfan] at hf
    obtain ⟨task, htask, harg⟩ := hinv.called f hf
    exact ⟨task, by rw [hcalled]; exact List.mem_append_left _ htask, harg⟩
  · rw [hfan]
    refine forall_update (P := fun (_ : Tid n) pc => ∀ arg, toFan pc = some arg →
      ∀ f ∈ fanouts tr, f.2.publish ≠ arg.publish) ?_ fun t' _ => hinv.before t'
    intro arg harg f hf heq
    cases hstep with
    | @dispatcher d sh pc e hidle hf' =>
        obtain ⟨d', task, rfl, rfl⟩ := called_of_dispatcherPc (taskArg_of_toFan harg)
        obtain ⟨task', htask', harg'⟩ := hinv.called f hf
        -- Both tasks have been called, and they carry the same publish.
        have hmem : task ∈ calledTasks (poolTrace tr ++ [.called d' task]) := by
          simp [calledTasks, calledTask]
        have hmem' : task' ∈ calledTasks (poolTrace tr ++ [.called d' task]) := by
          rw [calledTasks, List.filterMap_append]
          exact List.mem_append_left _ htask'
        have hnew := publishInv_pool (publishInv_of_run hrun) (.dispatcher hidle hf')
        have henq := mem_enqueuedTasks_of_called hpool' hmem
        have henq' := mem_enqueuedTasks_of_called hpool' hmem'
        obtain rfl := hnew.task_unique (by rw [poolTrace_append_pool]; exact henq')
          (by rw [poolTrace_append_pool]; exact henq) (by rw [harg', heq])
        exact (List.nodup_append.mp hnodup).2.2 task' htask' task' (by simp [calledTask]) rfl
    | @client c move sh pc e pc₀ hf' hpc =>
        rcases hpc with ⟨_, -, -, rfl⟩ | ⟨-, -, rfl⟩ | ⟨-, rfl⟩
        · cases harg
        · cases harg
        · split at harg <;> cases harg

/-- A step of a thread keeps `FanInv`. -/
theorem fanInv_thread {tr : List (Event n)} {s : State n}
    (hrun : (machine n capacity hcap).RunIf AllocationsSucceed tr s) (hinv : FanInv tr s)
    {t : Tid n} {sh : Shared n} {pc : Pc} {e : Option (Event n)}
    (hevent : e.bind poolEvent = none) (hstep : FanStep t s.shared (s.pc t) sh pc e) :
    FanInv (tr ++ e.toList) ⟨s.pool, sh, Function.update s.pc t pc, s.faulted⟩ := by
  have hpool : poolTrace (tr ++ e.toList) = poolTrace tr := poolTrace_append_thread hevent
  -- The steps that show no fan-out and start none.
  have hkeep : e.bind fanoutOf = none →
      (∀ arg, toFan pc = some arg → toFan (s.pc t) = some arg) →
      FanInv (tr ++ e.toList) ⟨s.pool, sh, Function.update s.pc t pc, s.faulted⟩ := by
    intro he hfan
    have hfanouts : fanouts (tr ++ e.toList) = fanouts tr := filterMap_append_of_none he tr
    refine ⟨by rw [hfanouts]; exact hinv.nodup, ?_, ?_⟩
    · rw [hfanouts, hpool]
      exact hinv.called
    · rw [hfanouts]
      exact forall_update (P := fun (_ : Tid n) pc => ∀ arg, toFan pc = some arg →
        ∀ f ∈ fanouts tr, f.2.publish ≠ arg.publish)
        (fun arg harg => hinv.before t arg (hfan arg harg)) fun t' _ => hinv.before t'
  cases hstep with
  | fanout arg ch hpc hfree hpc' he =>
      subst hpc'
      have htofan : toFan (s.pc t) = some arg := by rw [hpc]; rfl
      have hfanouts : fanouts (tr ++ e.toList) = fanouts tr ++ [(ch, arg)] :=
        filterMap_append_of_some (by rw [he]; rfl) tr
      obtain ⟨d, task, rfl, hd, rfl⟩ := taskInv_of_run hrun t arg (taskArg_of_toFan htofan)
      refine ⟨?_, ?_, ?_⟩
      · rw [hfanouts, List.map_append]
        refine List.nodup_append.mpr ⟨hinv.nodup, by simp, ?_⟩
        intro p hp q hq heq
        obtain ⟨f, hf, rfl⟩ := List.mem_map.mp hp
        obtain rfl : q = task.arg.publish := by simpa using hq
        exact hinv.before _ _ htofan f hf heq
      · intro f hf
        rw [hfanouts, List.mem_append, List.mem_singleton] at hf
        rw [hpool]
        rcases hf with hf | rfl
        · exact hinv.called f hf
        · exact ⟨task, mem_calledTasks_of_running (poolRun_of_run hrun) hd, rfl⟩
      · rw [hfanouts]
        refine forall_update (P := fun (_ : Tid n) pc => ∀ arg, toFan pc = some arg →
          ∀ f ∈ fanouts tr ++ [(ch, task.arg)], f.2.publish ≠ arg.publish) ?_ ?_
        · intro arg harg
          cases harg
        · intro t' ht' arg harg f hf heq
          rw [List.mem_append, List.mem_singleton] at hf
          rcases hf with hf | rfl
          · exact hinv.before t' arg harg f hf heq
          · exact ht' (task_thread_unique hrun (taskArg_of_toFan harg)
              (taskArg_of_toFan htofan) heq.symm)
  | put arg ch i x hpc hpc' he =>
      subst hpc'
      exact hkeep (by rw [he]; rfl) (by rintro arg ⟨⟩)
  | advance arg ch i h' hpc hpc' hle hskip hfan he =>
      refine hkeep (by rw [he]; rfl) ?_
      intro arg harg
      rw [hfan] at harg
      cases harg
  | other hloop hfan hfanout hput => exact hkeep hfanout hfan

/-- `FanInv` holds in every state of a run. -/
theorem fanInv_of_run {tr : List (Event n)} {s : State n}
    (h : (machine n capacity hcap).RunIf AllocationsSucceed tr s) : FanInv tr s := by
  refine invariant_of_run (I := FanInv) ?_ ?_ ?_ ?_ h
  · exact ⟨List.nodup_nil, by rintro f ⟨⟩, by rintro t arg ⟨⟩⟩
  · intro tr s b pool t pc e hrun hinv hstep _ _
    exact fanInv_pool hrun hinv hstep
  · intro tr s t sh pc e hrun hinv hstep
    exact fanInv_thread hrun hinv hstep.publishStep.poolEvent_eq_none
      (hstep.fanStep (currentInv_of_run hrun t))
  · intro tr s t hinv
    exact ⟨hinv.1, hinv.2, hinv.3⟩

/-! ### The order of the messages of an inbox -/

/-- The messages put into an inbox are a sublist of the fan-outs of its channel. A fan-out under
way is the last one of its channel, and the inboxes at the positions it has not reached do not
have its message. -/
structure OrderInv (tr : List (Event n)) (s : State n) : Prop where
  fresh : ∀ x, s.shared.nextProxy ≤ x → puts tr x = []
  order : ∀ x, List.Sublist (puts tr x) (channelFanouts tr (s.shared.proxy x).channel)
  loop : ∀ t arg ch h, loopOf (s.pc t) = some (arg, ch, h) →
    ∃ l, channelFanouts tr ch = l ++ [arg.message] ∧
      ∀ i j x, h = some i → i ≤ j → (s.shared.channel ch).subscriberProxies[j]? = some x →
        List.Sublist (puts tr x) l

/-- `OrderInv` is kept by a step that shows neither a fan-out nor a put. -/
theorem OrderInv.same {tr : List (Event n)} {s s' : State n} {e : Option (Event n)}
    (hinv : OrderInv tr s) (hfanout : e.bind fanoutOf = none)
    (hput : ∀ x, e.bind (putOf x) = none) (hproxies : s.shared.nextProxy ≤ s'.shared.nextProxy)
    (hchannel : ∀ x, x < s.shared.nextProxy →
      (s'.shared.proxy x).channel = (s.shared.proxy x).channel)
    (hloop : ∀ t arg ch h, loopOf (s'.pc t) = some (arg, ch, h) →
      ∃ h₀, loopOf (s.pc t) = some (arg, ch, h₀) ∧
        (s'.shared.channel ch).subscriberProxies = (s.shared.channel ch).subscriberProxies ∧
        ∀ i, h = some i → ∃ i₀, h₀ = some i₀ ∧ i₀ ≤ i) :
    OrderInv (tr ++ e.toList) s' := by
  have hputs : ∀ x, puts (tr ++ e.toList) x = puts tr x := fun x => puts_append_of_none (hput x)
  refine ⟨?_, ?_, ?_⟩
  · intro x hx
    rw [hputs]
    exact hinv.fresh x (hproxies.trans hx)
  · intro x
    rw [hputs, channelFanouts_append_of_none hfanout]
    by_cases hx : x < s.shared.nextProxy
    · rw [hchannel x hx]
      exact hinv.order x
    · rw [hinv.fresh x (Nat.le_of_not_lt hx)]
      exact List.nil_sublist _
  · intro t arg ch h ht
    obtain ⟨h₀, hold, hlist, hle⟩ := hloop t arg ch h ht
    obtain ⟨l, hl, hrest⟩ := hinv.loop t arg ch h₀ hold
    refine ⟨l, by rw [channelFanouts_append_of_none hfanout]; exact hl, ?_⟩
    intro i j x hi hij hx
    obtain ⟨i₀, hi₀, hle₀⟩ := hle i hi
    rw [hlist] at hx
    rw [hputs]
    exact hrest i₀ j x hi₀ (hle₀.trans hij) hx

/-- A task that locks its channel starts the last fan-out of the channel. -/
theorem orderInv_fanout {tr : List (Event n)} {s : State n} (hinv : OrderInv tr s)
    (hlist : ListInv s)
    (hlock : ∀ ch, LockInv (fun t => channelHeld (s.pc t) = some ch) (s.shared.channel ch).mutex)
    {t : Tid n} {sh : Shared n} {arg : PublisherTaskArg} {ch : Nat}
    (hsame : SameObjects s.shared sh) (hfree : (s.shared.channel ch).mutex = none) :
    OrderInv (tr ++ (some (Event.fanout t ch arg)).toList)
      ⟨s.pool, sh, Function.update s.pc t (.publisherTask arg (.begin ch)), s.faulted⟩ := by
  have hputs : ∀ x, puts (tr ++ (some (Event.fanout t ch arg)).toList) x = puts tr x :=
    fun x => puts_append_of_none rfl
  refine ⟨?_, ?_, ?_⟩
  · intro x hx
    rw [hputs]
    exact hinv.fresh x (hsame.nextProxy ▸ hx)
  · intro x
    show List.Sublist _ (channelFanouts _ (sh.proxy x).channel)
    rw [hputs, channelFanouts_append_fanout, hsame.proxyChannel]
    split
    · exact (hinv.order x).trans (List.sublist_append_left _ _)
    · exact hinv.order x
  · refine forall_update (P := fun (_ : Tid n) pc => ∀ arg' ch' h,
      loopOf pc = some (arg', ch', h) →
      ∃ l, channelFanouts (tr ++ (some (Event.fanout t ch arg)).toList) ch'
          = l ++ [arg'.message] ∧
        ∀ i j x, h = some i → i ≤ j → (sh.channel ch').subscriberProxies[j]? = some x →
          List.Sublist (puts (tr ++ (some (Event.fanout t ch arg)).toList) x) l) ?_ ?_
    · intro arg' ch' h hloop
      obtain ⟨rfl, rfl, -⟩ : arg = arg' ∧ ch = ch' ∧ some 0 = h := by simpa [loopOf] using hloop
      refine ⟨channelFanouts tr ch, by rw [channelFanouts_append_fanout, if_pos rfl], ?_⟩
      intro i j x _ _ hx
      rw [hsame.lists] at hx
      -- The inboxes of the list have messages of the earlier fan-outs only.
      have horder := hinv.order x
      rw [hlist.home ch x (List.mem_of_getElem? hx)] at horder
      rw [hputs]
      exact horder
    · intro t' _ arg' ch' h hloop
      -- Nobody else is in a fan-out of this channel, since its mutex is free.
      have hne : ch' ≠ ch := by
        rintro rfl
        have hheld := (hlock ch' t').mp (channelHeld_of_loop hloop).1
        rw [hfree] at hheld
        cases hheld
      obtain ⟨l, hl, hrest⟩ := hinv.loop t' arg' ch' h hloop
      refine ⟨l, by rw [channelFanouts_append_fanout, if_neg hne]; exact hl, ?_⟩
      intro i j x hi hij hx
      rw [hsame.lists] at hx
      rw [hputs]
      exact hrest i j x hi hij hx

/-- A put adds the message of the last fan-out of the channel. -/
theorem orderInv_put {tr : List (Event n)} {s : State n} (hinv : OrderInv tr s)
    (hlist : ListInv s) (hcurrent : CurrentInv s)
    (hlock : ∀ ch, LockInv (fun t => channelHeld (s.pc t) = some ch) (s.shared.channel ch).mutex)
    {t : Tid n} {sh : Shared n} {arg : PublisherTaskArg} {ch i x : Nat}
    (hsame : SameObjects s.shared sh) (hpc : s.pc t = .publisherTask arg (.enqueue ch i x)) :
    OrderInv (tr ++ (some (Event.put t x arg.message)).toList)
      ⟨s.pool, sh, Function.update s.pc t (.publisherTask arg (.lockInbox ch i x)),
        s.faulted⟩ := by
  have hx := hcurrent t ch i x (by rw [hpc]; rfl)
  have hmem := List.mem_of_getElem? hx
  have hfan : ∀ ch', channelFanouts (tr ++ (some (Event.put t x arg.message)).toList) ch'
      = channelFanouts tr ch' := fun ch' => channelFanouts_append_of_none rfl ch'
  have hputs : ∀ y, y ≠ x → puts (tr ++ (some (Event.put t x arg.message)).toList) y
      = puts tr y := by
    intro y hy
    rw [puts_append_put, if_neg (Ne.symm hy)]
  obtain ⟨l, hl, hrest⟩ := hinv.loop t arg ch (some i) (by rw [hpc]; rfl)
  refine ⟨?_, ?_, ?_⟩
  · intro y hy
    have hle : s.shared.nextProxy ≤ y := hsame.nextProxy ▸ hy
    have hne : y ≠ x := by
      rintro rfl
      exact absurd (hlist.bound ch y hmem) (Nat.not_lt.mpr hle)
    rw [hputs y hne]
    exact hinv.fresh y hle
  · intro y
    show List.Sublist _ (channelFanouts _ (sh.proxy y).channel)
    rw [hfan, hsame.proxyChannel]
    by_cases hy : y = x
    · subst hy
      rw [puts_append_put, if_pos rfl, hlist.home ch y hmem, hl]
      exact (hrest i i y rfl le_rfl hx).append (List.Sublist.refl _)
    · rw [hputs y hy]
      exact hinv.order y
  · refine forall_update (P := fun (_ : Tid n) pc => ∀ arg' ch' h,
      loopOf pc = some (arg', ch', h) →
      ∃ l, channelFanouts (tr ++ (some (Event.put t x arg.message)).toList) ch'
          = l ++ [arg'.message] ∧
        ∀ i j y, h = some i → i ≤ j → (sh.channel ch').subscriberProxies[j]? = some y →
          List.Sublist (puts (tr ++ (some (Event.put t x arg.message)).toList) y) l) ?_ ?_
    · intro arg' ch' h hloop
      obtain ⟨rfl, rfl, rfl⟩ : arg = arg' ∧ ch = ch' ∧ some (i + 1) = h := by
        simpa [loopOf] using hloop
      refine ⟨l, (hfan ch).trans hl, ?_⟩
      intro i' j y hi' hij hy
      obtain rfl : i + 1 = i' := by simpa using hi'
      rw [hsame.lists] at hy
      -- A proxy is in the list once, so a later position holds another one.
      have hne : y ≠ x := by
        rintro rfl
        have heq := (List.getElem?_inj (List.getElem?_eq_some_iff.mp hy).1
          (hlist.nodup ch)).mp (hy.trans hx.symm)
        omega
      rw [hputs y hne]
      exact hrest i j y rfl (by omega) hy
    · intro t' ht' arg' ch' h hloop
      have hne : ch' ≠ ch := by
        rintro rfl
        exact ht' ((hlock ch').unique (channelHeld_of_loop hloop).1 (by rw [hpc]; rfl))
      obtain ⟨l', hl', hrest'⟩ := hinv.loop t' arg' ch' h hloop
      refine ⟨l', (hfan ch').trans hl', ?_⟩
      intro i' j y hi' hij hy
      rw [hsame.lists] at hy
      -- The proxies of another channel's list have that channel as their home.
      have hyx : y ≠ x := by
        rintro rfl
        exact hne ((hlist.home ch' y (List.mem_of_getElem? hy)).symm.trans
          (hlist.home ch y hmem))
      rw [hputs y hyx]
      exact hrest' i' j y hi' hij hy

/-- A step of a thread keeps `OrderInv`. -/
theorem orderInv_thread {tr : List (Event n)} {s : State n} (hinv : OrderInv tr s)
    (hlist : ListInv s) (hcurrent : CurrentInv s)
    (hlock : ∀ ch, LockInv (fun t => channelHeld (s.pc t) = some ch) (s.shared.channel ch).mutex)
    {t : Tid n} {sh : Shared n} {pc : Pc} {e : Option (Event n)}
    (hobject : ObjectStep t s.shared (s.pc t) sh pc e)
    (hstep : FanStep t s.shared (s.pc t) sh pc e) :
    OrderInv (tr ++ e.toList) ⟨s.pool, sh, Function.update s.pc t pc, s.faulted⟩ := by
  obtain ⟨-, ⟨hproxies, hids⟩, -⟩ := hobject.frame
  have hkeep : ∀ t' arg ch h, loopOf (s.pc t') = some (arg, ch, h) →
      (sh.channel ch).subscriberProxies = (s.shared.channel ch).subscriberProxies := by
    intro t' arg ch h hloop
    exact list_of_task_held hlock hobject (channelHeld_of_loop hloop).1
      (channelHeld_of_loop hloop).2
  cases hstep with
  | fanout arg ch hpc hfree hpc' he =>
      subst hpc' he
      have htask : taskArg (s.pc t) = some arg := by rw [hpc]; rfl
      exact orderInv_fanout hinv hlist hlock (hobject.same_of_task htask) hfree
  | put arg ch i x hpc hpc' he =>
      subst hpc' he
      have htask : taskArg (s.pc t) = some arg := by rw [hpc]; rfl
      exact orderInv_put hinv hlist hcurrent hlock (hobject.same_of_task htask) hpc
  | advance arg ch i h' hpc hpc' hle hskip hfan he =>
      subst he
      refine hinv.same rfl (fun _ => rfl) hproxies (fun x hx => (hids x hx).2) ?_
      refine forall_update (P := fun t' pc => ∀ arg ch h, loopOf pc = some (arg, ch, h) →
        ∃ h₀, loopOf (s.pc t') = some (arg, ch, h₀) ∧
          (sh.channel ch).subscriberProxies = (s.shared.channel ch).subscriberProxies ∧
          ∀ i, h = some i → ∃ i₀, h₀ = some i₀ ∧ i₀ ≤ i) ?_ ?_
      · intro arg₁ ch₁ h₁ hloop
        rw [hpc'] at hloop
        obtain ⟨rfl, rfl, rfl⟩ : arg = arg₁ ∧ ch = ch₁ ∧ h' = h₁ := by simpa using hloop
        exact ⟨some i, hpc, hkeep t arg ch _ hpc, fun k hk => ⟨i, rfl, hle k hk⟩⟩
      · intro t' _ arg₁ ch₁ h₁ hloop
        exact ⟨h₁, hloop, hkeep t' arg₁ ch₁ h₁ hloop, fun k hk => ⟨k, hk, le_rfl⟩⟩
  | other hloop hfan hfanout hput =>
      refine hinv.same hfanout hput hproxies (fun x hx => (hids x hx).2) ?_
      have hback : ∀ t' r, loopOf (Function.update s.pc t pc t') = some r →
          loopOf (s.pc t') = some r :=
        forall_update (P := fun t' pc => ∀ r, loopOf pc = some r → loopOf (s.pc t') = some r)
          hloop fun _ _ _ h => h
      intro t' arg₁ ch₁ h₁ h
      exact ⟨h₁, hback t' _ h, hkeep t' arg₁ ch₁ h₁ (hback t' _ h),
        fun k hk => ⟨k, hk, le_rfl⟩⟩

/-- `OrderInv` holds in every state of a run. -/
theorem orderInv_of_run {tr : List (Event n)} {s : State n}
    (h : (machine n capacity hcap).RunIf AllocationsSucceed tr s) : OrderInv tr s := by
  refine invariant_of_run (I := OrderInv) ?_ ?_ ?_ ?_ h
  · exact ⟨fun _ _ => rfl, fun _ => List.nil_sublist _, by rintro t arg ch h ⟨⟩⟩
  · intro tr s b pool t pc e _ hinv _ _ hpc
    refine hinv.same (fanoutOf_map e) (putOf_map e) le_rfl (fun _ _ => rfl) ?_
    refine forall_update (P := fun t' pc => ∀ arg ch h, loopOf pc = some (arg, ch, h) →
      ∃ h₀, loopOf (s.pc t') = some (arg, ch, h₀) ∧
        (s.shared.channel ch).subscriberProxies = (s.shared.channel ch).subscriberProxies ∧
        ∀ i, h = some i → ∃ i₀, h₀ = some i₀ ∧ i₀ ≤ i) ?_ ?_
    · intro arg ch h hloop
      rw [loopOf_of_inCall hpc] at hloop
      cases hloop
    · intro t' _ arg ch h hloop
      exact ⟨h, hloop, rfl, fun i hi => ⟨i, hi, le_rfl⟩⟩
  · intro tr s t sh pc e hrun hinv hstep
    have hcurrent := currentInv_of_run hrun
    exact orderInv_thread hinv (listInv_of_run hrun) hcurrent (channelLock_of_run hrun)
      (hstep.objectStep (fresh_of_run hrun _ le_rfl).2) (hstep.fanStep (hcurrent t))
  · intro tr s t hinv
    exact ⟨hinv.1, hinv.2, hinv.3⟩

/-- The fan-outs of a channel are different messages. -/
theorem channelFanouts_nodup {tr : List (Event n)} {s : State n} (hinv : FanInv tr s)
    (ch : Nat) : (channelFanouts tr ch).Nodup := by
  have hsub : List.Sublist ((channelFanouts tr ch).map Message.publish)
      ((fanouts tr).map fun f => f.2.publish) := by
    rw [channelFanouts, List.map_map]
    exact List.filter_sublist.map _
  exact (hinv.nodup.sublist hsub).of_map _

/-- Per-channel order agreement, for every interleaving: two messages that were both put into
the inboxes of two subscriptions to the same channel name are in the same order in both. -/
theorem enqueue_order_agreement {tr : List (Event n)} {s : State n}
    (h : (machine n capacity hcap).RunIf AllocationsSucceed tr s) {t t' : Tid n}
    {k k' x y : Nat} {name : CString} (hx : .subscribed t k x name ∈ tr)
    (hy : .subscribed t' k' y name ∈ tr) {m₁ m₂ : Message} (hx₁ : m₁ ∈ puts tr x)
    (hx₂ : m₂ ∈ puts tr x) (hy₁ : m₁ ∈ puts tr y) (hy₂ : m₂ ∈ puts tr y) :
    Before (puts tr x) m₁ m₂ ↔ Before (puts tr y) m₁ m₂ := by
  have hinv := orderInv_of_run h
  have howner := ownerInv_of_run h
  obtain ⟨-, -, -, hgetx⟩ := howner.owned t k x name hx
  obtain ⟨-, -, -, hgety⟩ := howner.owned t' k' y name hy
  have hchannel : (s.shared.proxy x).channel = (s.shared.proxy y).channel :=
    Option.some.inj (hgetx.symm.trans hgety)
  have hnodup := channelFanouts_nodup (fanInv_of_run h) (s.shared.proxy y).channel
  have hsubx := hinv.order x
  rw [hchannel] at hsubx
  have hsuby := hinv.order y
  -- Both inboxes follow the one order of the fan-outs of their channel.
  have hagree : ∀ {l l' : List Message},
      List.Sublist l (channelFanouts tr (s.shared.proxy y).channel) →
      List.Sublist l' (channelFanouts tr (s.shared.proxy y).channel) → m₁ ∈ l' → m₂ ∈ l' →
      Before l m₁ m₂ → Before l' m₁ m₂ := by
    intro l l' hl hl' h₁ h₂ hb
    have hb := hb.of_sublist hl
    rcases before_or_before h₁ h₂ (hb.ne hnodup) with hb' | hb'
    · exact hb'
    · exact absurd (hb'.of_sublist hl') (hb.asymm hnodup)
  exact ⟨hagree hsubx hsuby hy₁ hy₂, hagree hsuby hsubx hx₁ hx₂⟩

/-! ### Schedules -/

/-- The client `c` runs a subscribe to its end. The channel is new, or it is in the table. -/
def subscribeSchedule (c : Nat) (name : CString) (isNew : Bool) : List (Action n) :=
  .thread (.client c) (.callSubscribe name)
    :: List.replicate (if isNew then 10 else 8) (.thread (.client c) .go)

/-- The client `c` runs a publish to its end, while no dispatcher is parked. -/
def publishSchedule (c : Nat) (name content : CString) : List (Action n) :=
  .thread (.client c) (.callPublish name content) :: .submit c :: List.replicate 6 (.pool c .go)

/-- The dispatcher `d` takes a task from the queue and runs it over a list of `k` active
proxies of a channel in the table. -/
def taskSchedule (d : Fin n) (k : Nat) : List (Action n) :=
  List.replicate 8 (.dispatcher d) ++ List.replicate (7 + 6 * k) (.thread (.dispatcher d) .go)
    ++ List.replicate 5 (.dispatcher d)

/-- Two clients subscribe to the channel `c`, and two messages are published there. -/
theorem enqueue_order_agreement_two_messages :
    ∃ (tr : List (Event 1)) (s : State 1) (m₁ m₂ : Message),
      (machine 1 1 (by decide)).RunIf AllocationsSucceed tr s ∧ puts tr 0 = [m₁, m₂] ∧
      Before (puts tr 1) m₁ m₂ := by
  let name : CString := ⟨[99], by decide⟩
  let m₁ : Message := ⟨1, name, ⟨[49], by decide⟩, 0⟩
  let m₂ : Message := ⟨2, name, ⟨[50], by decide⟩, 1⟩
  obtain ⟨tr, s, hrun, htest⟩ := Machine.runIf_of_exec (M := machine 1 1 (by decide))
    (K := AllocationsSucceed)
    (subscribeSchedule 0 name true ++ subscribeSchedule 1 name false
      ++ publishSchedule 0 name m₁.content ++ publishSchedule 1 name m₂.content
      ++ taskSchedule 0 2 ++ taskSchedule 0 2)
    (fun tr _ => decide (.subscribed (.client 0) 0 0 name ∈ tr ∧
      .subscribed (.client 1) 1 1 name ∈ tr ∧ puts tr 0 = [m₁, m₂] ∧ m₁ ∈ puts tr 1 ∧
      m₂ ∈ puts tr 1)) (by decide +kernel)
  obtain ⟨h₀, h₁, hputs, hm₁, hm₂⟩ := of_decide_eq_true htest
  refine ⟨tr, s, m₁, m₂, hrun, hputs, ?_⟩
  have hagree := enqueue_order_agreement hrun h₀ h₁ (by rw [hputs]; simp) (by rw [hputs]; simp)
    hm₁ hm₂
  exact hagree.mp (by rw [hputs]; exact List.Sublist.refl _)

end

end Miez.Proofs.MessageBroker
