import Miez.Proofs.MessageBroker.Delivery
import Miez.Proofs.MessageBroker.Receive
import Miez.Proofs.ThreadPool.Order

/-!
# `Miez.Proofs.MessageBroker.SingleWorker`: a broker with one worker keeps the order of publishes

With one dispatcher the tasks are called in the order of the queue, and the dispatcher is in one
task at a time. So the fan-outs follow the order in which the publishes were put into the queue
(`FanOrderInv`), the inboxes follow the fan-outs, and what is handed out of an inbox follows the
inbox.

`single_worker_order`: a message whose publish returned before another publish was called is before
the other one in every inbox that gets both, and it is handed out first.
-/

set_option autoImplicit false

namespace Miez.Proofs.MessageBroker

open Miez.Lib
open Miez.MessageBroker
open Miez.ThreadPool (Tid PoolTask)
open Miez.Proofs.ThreadPool

section
variable {capacity : UInt64} {hcap : capacity ≠ 0}

/-- The fan-outs are in the order of the calls of their tasks, and a task that has not fanned out
yet is the last one that was called. -/
structure FanOrderInv (tr : List (Event 1)) (s : State 1) : Prop where
  order : List.Sublist ((fanouts tr).map Prod.snd) ((calledTasks (poolTrace tr)).map PoolTask.arg)
  last : ∀ t arg, toFan (s.pc t) = some arg →
    ∃ l, (calledTasks (poolTrace tr)).map PoolTask.arg = l ++ [arg] ∧
      List.Sublist ((fanouts tr).map Prod.snd) l

/-- There is one thread that runs tasks. -/
theorem toFan_thread {tr : List (Event 1)} {s : State 1}
    (h : (machine 1 capacity hcap).RunIf AllocationsSucceed tr s) {t : Tid 1}
    {arg : PublisherTaskArg} (ht : toFan (s.pc t) = some arg) : t = .dispatcher 0 := by
  obtain ⟨d, task, rfl, -, -⟩ := taskInv_of_run h t arg (taskArg_of_toFan ht)
  rw [Subsingleton.elim d 0]

/-- A step of the pool keeps `FanOrderInv`: a task that is called is the last one. -/
theorem fanOrderInv_pool {tr : List (Event 1)} {s : State 1}
    (hrun : (machine 1 capacity hcap).RunIf AllocationsSucceed tr s) (hinv : FanOrderInv tr s)
    {b : ThreadPool.Action 1 PublisherTaskArg} {pool : ThreadPool.State 1 PublisherTaskArg}
    {t : Tid 1} {pc : Pc} {e : Option (ThreadPool.Event 1 PublisherTaskArg)}
    (hstep : PoolStep s b pool t pc e) :
    FanOrderInv (tr ++ (e.map Event.pool).toList)
      ⟨pool, s.shared, Function.update s.pc t pc, s.faulted⟩ := by
  have hfan : fanouts (tr ++ (e.map Event.pool).toList) = fanouts tr :=
    filterMap_append_of_none (fanoutOf_map e) tr
  have hcalled : calledTasks (poolTrace (tr ++ (e.map Event.pool).toList))
      = calledTasks (poolTrace tr) ++ (e.bind calledTask).toList := by
    rw [poolTrace_append_pool]
    exact filterMap_append_toList calledTask _ e
  constructor
  · rw [hfan, hcalled, List.map_append]
    exact hinv.order.trans (List.sublist_append_left _ _)
  · rw [hfan, hcalled]
    cases hstep with
    | @dispatcher d sh pc e hidle hf =>
        obtain rfl : d = 0 := Subsingleton.elim d 0
        refine forall_update (P := fun (_ : Tid 1) pc => ∀ arg, toFan pc = some arg →
          ∃ l, (calledTasks (poolTrace tr) ++ (e.bind calledTask).toList).map PoolTask.arg
            = l ++ [arg] ∧ List.Sublist ((fanouts tr).map Prod.snd) l) ?_ ?_
        · intro arg harg
          obtain ⟨d', task, rfl, rfl⟩ := called_of_dispatcherPc (taskArg_of_toFan harg)
          refine ⟨(calledTasks (poolTrace tr)).map PoolTask.arg, ?_, hinv.order⟩
          rw [List.map_append]
          rfl
        · intro t' ht' arg harg
          exact absurd (toFan_thread hrun harg) ht'
    | @client c move sh pc e pc₀ hf hpc =>
        rw [(clientFunction_tasks hf).2.2.1, Option.toList_none, List.append_nil]
        refine forall_update (P := fun (_ : Tid 1) pc => ∀ arg, toFan pc = some arg →
          ∃ l, (calledTasks (poolTrace tr)).map PoolTask.arg = l ++ [arg] ∧
            List.Sublist ((fanouts tr).map Prod.snd) l) ?_ fun t' _ => hinv.last t'
        intro arg harg
        rcases hpc with ⟨_, -, -, rfl⟩ | ⟨-, -, rfl⟩ | ⟨-, rfl⟩
        · cases harg
        · cases harg
        · split at harg <;> cases harg

/-- A step of a thread keeps `FanOrderInv`. -/
theorem fanOrderInv_thread {tr : List (Event 1)} {s : State 1}
    (hrun : (machine 1 capacity hcap).RunIf AllocationsSucceed tr s) (hinv : FanOrderInv tr s)
    {t : Tid 1} {sh : Shared 1} {pc : Pc} {e : Option (Event 1)}
    (hevent : e.bind poolEvent = none) (hstep : FanStep t s.shared (s.pc t) sh pc e) :
    FanOrderInv (tr ++ e.toList) ⟨s.pool, sh, Function.update s.pc t pc, s.faulted⟩ := by
  have hpool : poolTrace (tr ++ e.toList) = poolTrace tr := poolTrace_append_thread hevent
  -- The steps that show no fan-out and start none.
  have hkeep : e.bind fanoutOf = none →
      (∀ arg, toFan pc = some arg → toFan (s.pc t) = some arg) →
      FanOrderInv (tr ++ e.toList) ⟨s.pool, sh, Function.update s.pc t pc, s.faulted⟩ := by
    intro he hfan
    have hfanouts : fanouts (tr ++ e.toList) = fanouts tr := filterMap_append_of_none he tr
    constructor
    · rw [hfanouts, hpool]
      exact hinv.order
    · rw [hfanouts, hpool]
      exact forall_update (P := fun (_ : Tid 1) pc => ∀ arg, toFan pc = some arg →
        ∃ l, (calledTasks (poolTrace tr)).map PoolTask.arg = l ++ [arg] ∧
          List.Sublist ((fanouts tr).map Prod.snd) l)
        (fun arg harg => hinv.last t arg (hfan arg harg)) fun t' _ => hinv.last t'
  cases hstep with
  | fanout arg ch hpc hfree hpc' he =>
      subst hpc'
      have htofan : toFan (s.pc t) = some arg := by rw [hpc]; rfl
      have hfanouts : fanouts (tr ++ e.toList) = fanouts tr ++ [(ch, arg)] :=
        filterMap_append_of_some (by rw [he]; rfl) tr
      obtain ⟨l, hl, hsub⟩ := hinv.last t arg htofan
      constructor
      · rw [hfanouts, hpool, hl, List.map_append]
        exact hsub.append (List.Sublist.refl _)
      · -- The only dispatcher has fanned out now.
        intro t' arg' harg'
        have hnone : ∀ arg', toFan (Function.update s.pc t (.publisherTask arg (.begin ch)) t')
            ≠ some arg' := by
          refine forall_update (P := fun (_ : Tid 1) pc => ∀ arg', toFan pc ≠ some arg') ?_ ?_ t'
          · intro arg' harg'
            cases harg'
          · intro t' ht arg' harg'
            exact ht ((toFan_thread hrun harg').trans (toFan_thread hrun htofan).symm)
        exact absurd harg' (hnone arg')
  | put arg ch i x hpc hpc' he =>
      subst hpc'
      refine hkeep (by rw [he]; rfl) ?_
      intro arg harg
      cases harg
  | advance arg ch i h' hpc hpc' hle hskip hfan he =>
      refine hkeep (by rw [he]; rfl) ?_
      intro arg harg
      rw [hfan] at harg
      cases harg
  | other hloop hfan hfanout hput => exact hkeep hfanout hfan

/-- `FanOrderInv` holds in every state of a run. -/
theorem fanOrderInv_of_run {tr : List (Event 1)} {s : State 1}
    (h : (machine 1 capacity hcap).RunIf AllocationsSucceed tr s) : FanOrderInv tr s := by
  refine invariant_of_run (I := FanOrderInv) ?_ ?_ ?_ ?_ h
  · constructor
    · exact List.nil_sublist _
    · intro t arg harg
      cases harg
  · intro tr s b pool t pc e hrun hinv hstep _ _
    exact fanOrderInv_pool hrun hinv hstep
  · intro tr s t sh pc e hrun hinv hstep
    exact fanOrderInv_thread hrun hinv hstep.publishStep.poolEvent_eq_none
      (hstep.fanStep (currentInv_of_run hrun t))
  · intro tr s t hinv
    exact ⟨hinv.order, hinv.last⟩

/-! ### From the queue of the pool to the inboxes -/

/-- The messages of the tasks that went into the queue of the pool, in this order. -/
def enqueuedMessages (tr : List (Event 1)) : List Message :=
  (enqueuedTasks (poolTrace tr)).map fun task => task.arg.message

/-- The messages put into an inbox are in the order in which their tasks went into the queue. -/
theorem puts_sublist {tr : List (Event 1)} {s : State 1}
    (h : (machine 1 capacity hcap).RunIf AllocationsSucceed tr s) (x : Nat) :
    List.Sublist (puts tr x) (enqueuedMessages tr) := by
  have hfan : List.Sublist (channelFanouts tr (s.shared.proxy x).channel)
      (((fanouts tr).map Prod.snd).map PublisherTaskArg.message) := by
    rw [channelFanouts, List.map_map]
    exact List.filter_sublist.map _
  have hcalled := (fanOrderInv_of_run h).order.map PublisherTaskArg.message
  have hqueue := (calledTasks_sublist (poolRun_of_run h)).map fun task => task.arg.message
  rw [List.map_map, List.map_map] at hcalled
  rw [List.map_map] at hfan
  exact ((orderInv_of_run h).order x).trans (hfan.trans (hcalled.trans hqueue))

/-- Every message goes into the queue once. -/
theorem enqueuedMessages_nodup {tr : List (Event 1)} {s : State 1}
    (h : (machine 1 capacity hcap).RunIf AllocationsSucceed tr s) : (enqueuedMessages tr).Nodup := by
  have hnodup := (publishInv_of_run h).nodup
  refine List.Nodup.of_map Message.publish ?_
  rw [enqueuedMessages, List.map_map]
  exact hnodup

/-- The fields of a task are the fields of its message. -/
theorem message_inj {arg arg' : PublisherTaskArg} (h : arg.message = arg'.message) : arg = arg' := by
  obtain ⟨hid, hname, hcontent, hpublish⟩ := Message.mk.inj h
  cases arg
  cases arg'
  simp_all

/-- A publish that returned before another one was called is before it in the queue. -/
theorem enqueued_before {tr : List (Event 1)} {s : State 1}
    (h : (machine 1 capacity hcap).RunIf AllocationsSucceed tr s) {c c' : Nat}
    {task : PoolTask PublisherTaskArg} {arg : PublisherTaskArg}
    (hb : Before tr (.pool (.submitted c task)) (.publishCall c' arg))
    (harg : arg.message ∈ enqueuedMessages tr) :
    Before (enqueuedMessages tr) task.arg.message arg.message := by
  obtain ⟨pre, post, rfl, hsubmitted⟩ : ∃ pre post, tr = pre ++ .publishCall c' arg :: post ∧
      .pool (.submitted c task) ∈ pre := by
    obtain ⟨l₁, l₂, rfl, h₁, h₂⟩ := List.cons_sublist_iff.mp hb
    obtain ⟨pre, post, rfl⟩ := List.append_of_mem (List.singleton_sublist.mp h₂)
    exact ⟨l₁ ++ pre, post, by simp, List.mem_append_left _ h₁⟩
  obtain ⟨s₁, a, s₂, hpre, hK, hnext⟩ := h.step_of_event
  have htask : task ∈ enqueuedTasks (poolTrace pre) :=
    enqueued_of_submitted (poolRun_of_run hpre)
      (List.mem_filterMap.mpr ⟨_, hsubmitted, rfl⟩)
  have hsplit : enqueuedMessages (pre ++ .publishCall c' arg :: post) =
      enqueuedMessages pre ++ enqueuedMessages (.publishCall c' arg :: post) := by
    simp only [enqueuedMessages, poolTrace, enqueuedTasks, List.filterMap_append, List.map_append]
  -- The task of the second publish is not in the queue before the publish is called.
  have hnot : arg.message ∉ enqueuedMessages pre := by
    intro hmem
    obtain ⟨task', htask', heq⟩ := List.mem_map.mp hmem
    have hcall := (publishInv_of_run hpre).enqueued task' htask'
    rw [message_inj heq] at hcall
    have hnodup := publishCalls_nodup (publishInv_of_run (hpre.snoc hK hnext))
    rw [publishCalls, filterMap_append_of_some (x := arg) rfl, List.map_append] at hnodup
    exact (List.nodup_append.mp hnodup).2.2 arg.publish (List.mem_map_of_mem hcall) arg.publish
      (by simp) rfl
  rw [hsplit] at harg ⊢
  have hfirst : task.arg.message ∈ enqueuedMessages pre := List.mem_map.mpr ⟨task, htask, rfl⟩
  have hsecond := (List.mem_append.mp harg).resolve_left hnot
  exact (List.singleton_sublist.mpr hfirst).append (List.singleton_sublist.mpr hsecond)

/-- Two members of a part of a list without duplicates are in the order of the list. -/
theorem before_of_sublist {l l' : List Message} {m m' : Message} (hl : List.Sublist l l')
    (hnodup : l'.Nodup) (hb : Before l' m m') (hm : m ∈ l) (hm' : m' ∈ l) : Before l m m' := by
  rcases before_or_before hm hm' (hb.ne hnodup) with hb' | hb'
  · exact hb'
  · exact absurd (hb'.of_sublist hl) (hb.asymm hnodup)

/-- A broker with one worker keeps the order of publishes. When a publish returned 0 before another
one was called, the first message is before the second one in every inbox that gets both, and it is
handed out before the second one. -/
theorem single_worker_order {tr : List (Event 1)} {s : State 1}
    (h : (machine 1 capacity hcap).RunIf AllocationsSucceed tr s) {c c' x : Nat}
    {task : PoolTask PublisherTaskArg} {arg : PublisherTaskArg}
    (hb : Before tr (.pool (.submitted c task)) (.publishCall c' arg))
    (hfirst : task.arg.message ∈ puts tr x) (hsecond : arg.message ∈ puts tr x) :
    Before (puts tr x) task.arg.message arg.message ∧
    ∀ t t' k k', .got t k x (some task.arg.message) ∈ tr →
      .got t' k' x (some arg.message) ∈ tr →
      Before tr (.got t k x (some task.arg.message)) (.got t' k' x (some arg.message)) := by
  have hsub := puts_sublist h x
  have hqueue := enqueued_before h hb (hsub.subset hsecond)
  have horder := before_of_sublist hsub (enqueuedMessages_nodup h) hqueue hfirst hsecond
  refine ⟨horder, ?_⟩
  intro t t' k k' hgot hgot'
  have hnodup : (puts tr x).Nodup := (enqueuedMessages_nodup h).sublist hsub
  have hout : List.Sublist (handedOut tr x) (puts tr x) := by
    rw [← (inboxInv_of_run h).balance x]
    exact List.sublist_append_left _ _
  have hne : task.arg.message ≠ arg.message := horder.ne hnodup
  rcases before_or_before hgot hgot' (by simpa using fun _ _ => hne) with hbefore | hbefore
  · exact hbefore
  · -- The other order of the two receives would be the other order of the messages.
    have hmessages : Before (handedOut tr x) arg.message task.arg.message := by
      have hfilter := List.Sublist.filterMap (fun e => (gotOf x e).join) hbefore
      have hpair : [Event.got t' k' x (some arg.message), .got t k x (some task.arg.message)].filterMap
          (fun e => (gotOf x e).join) = [arg.message, task.arg.message] := by
        simp [gotOf]
      rwa [hpair] at hfilter
    exact absurd (hmessages.of_sublist hout) (horder.asymm hnodup)

/-- Two publishes one after the other and two receives by one thread. -/
theorem single_worker_order_two_publishes :
    ∃ (tr : List (Event 1)) (s : State 1) (m₁ m₂ : Message),
      (machine 1 1 (by decide)).RunIf AllocationsSucceed tr s ∧ m₁ ≠ m₂ ∧
      Before (puts tr 0) m₁ m₂ ∧
      Before tr (.got (.client 0) 0 0 (some m₁)) (.got (.client 0) 0 0 (some m₂)) := by
  let name : CString := ⟨[99], by decide⟩
  let arg₁ : PublisherTaskArg := ⟨1, name, ⟨[49], by decide⟩, 0⟩
  let arg₂ : PublisherTaskArg := ⟨2, name, ⟨[50], by decide⟩, 1⟩
  obtain ⟨tr, s, hrun, htest⟩ := Machine.runIf_of_exec (M := machine 1 1 (by decide))
    (K := AllocationsSucceed)
    (subscribeSchedule 0 name true ++ publishSchedule 1 name arg₁.content
      ++ publishSchedule 2 name arg₂.content ++ taskSchedule 0 1 ++ taskSchedule 0 1
      ++ .thread (.client 0) (.callReceive 0 false) :: List.replicate 9 (.thread (.client 0) .go)
      ++ .thread (.client 0) (.callReceive 0 true) :: List.replicate 6 (.thread (.client 0) .go))
    (fun tr _ => decide (Before tr (.pool (.submitted 1 ⟨0, arg₁⟩)) (.publishCall 2 arg₂) ∧
      arg₁.message ∈ puts tr 0 ∧ arg₂.message ∈ puts tr 0 ∧
      .got (.client 0) 0 0 (some arg₁.message) ∈ tr ∧
      .got (.client 0) 0 0 (some arg₂.message) ∈ tr)) (by decide +kernel)
  obtain ⟨hb, h₁, h₂, hgot₁, hgot₂⟩ := of_decide_eq_true htest
  obtain ⟨horder, hreceives⟩ := single_worker_order hrun hb h₁ h₂
  exact ⟨tr, s, arg₁.message, arg₂.message, hrun, by decide, horder,
    hreceives _ _ _ _ hgot₁ hgot₂⟩

end

end Miez.Proofs.MessageBroker
