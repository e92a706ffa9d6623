import Miez.Proofs.MessageBroker.Pointers

/-!
# `Miez.Proofs.MessageBroker.Names`: a subscription gets the messages of its own channel

A channel object keeps its name, a proxy stays with the channel object that it was made for, and
the table leads from a name to an object with this name only. So a message that a task puts into
the inbox of a proxy has the name for which the proxy was made.

This holds in every run, with or without failing allocations. After a failed lookup there may be
two channel objects with one name, so `TableInv` does not hold there. `NameInv` is what is left
of it.
-/

set_option autoImplicit false

namespace Miez.Proofs.MessageBroker

open Miez.Lib
open Miez.MessageBroker
open Miez.ThreadPool (Tid)

section
variable {n : Nat} {capacity : UInt64} {hcap : capacity ≠ 0}

/-- The channel object has the name. -/
def Named (sh : Shared n) (ch : Nat) (name : CString) : Prop :=
  ch < sh.nextChannel ∧ (sh.channel ch).channelName = name

/-- The proxy was made for a channel object with the name. -/
def ProxyNamed (sh : Shared n) (x : Nat) (name : CString) : Prop :=
  x < sh.nextProxy ∧ Named sh (sh.proxy x).channel name

/-- The channel name of a task and the proxy into whose inbox it is about to put its message. -/
def deliveringTo : Pc → Option (CString × Nat)
  | .publisherTask arg (.testActive _ _ x) | .publisherTask arg (.enqueue _ _ x) =>
      some (arg.channelName, x)
  | _ => none

/-- What a step of a thread does to names. -/
structure NameStep (sh : Shared n) (pc : Pc) (sh' : Shared n) (pc' : Pc)
    (e : Option (Event n)) : Prop where
  named : ∀ ch name, Named sh ch name → Named sh' ch name
  proxy : ∀ x, x < sh.nextProxy →
    x < sh'.nextProxy ∧ (sh'.proxy x).channel = (sh.proxy x).channel
  compare : sh'.channels.compareKeyFunction = sh.channels.compareKeyFunction
  entry : (∀ a b, sh.channels.compareKeyFunction a b = 0 ↔ a = b) → ∀ name ch,
    sh'.channels.get name = some ch →
      sh.channels.get name = some ch ∨ getting pc = some (name, .insert ch)
  inserting : ∀ name ch, getting pc' = some (name, .insert ch) → Named sh' ch name
  found : ∀ name ch, channelOf pc' = some (name, ch) → channelOf pc = some (name, ch) ∨
    sh.channels.get name = some ch ∨ getting pc = some (name, .insert ch)
  hand : ∀ name id x, handOf pc' = some (name, id, x) → handOf pc = some (name, id, x) ∨
    ∃ ch, channelOf pc = some (name, ch) ∧ (sh'.proxy x).channel = ch
  listed : ∀ ch x, x ∈ (sh'.channel ch).subscriberProxies →
    x ∈ (sh.channel ch).subscriberProxies ∨ ∃ name, channelOf pc = some (name, ch)
  delivering : ∀ name x, deliveringTo pc' = some (name, x) →
    deliveringTo pc = some (name, x) ∨
      ∃ ch, channelOf pc = some (name, ch) ∧ x ∈ (sh.channel ch).subscriberProxies
  subscribed : ∀ t k x name, e = some (.subscribed t k x name) →
    ∃ id, handOf pc = some (name, id, x)
  put : ∀ t x msg, e = some (.put t x msg) → deliveringTo pc = some (msg.channelName, x)

section
variable {t : Tid n} {sh sh' : Shared n} {pc pc' : Pc} {e : Option (Event n)}

/-- A task takes the proxies from the list of its channel, and puts its message into the inboxes
of these. -/
theorem ThreadStep.delivering (h : ThreadStep t sh pc sh' pc' e) :
    (∀ name x, deliveringTo pc' = some (name, x) → deliveringTo pc = some (name, x) ∨
      ∃ ch, MessageBroker.channelOf pc = some (name, ch) ∧
        x ∈ (sh.channel ch).subscriberProxies) ∧
    ∀ t' x msg, e = some (.put t' x msg) → deliveringTo pc = some (msg.channelName, x) := by
  cases h with
  | nextActive ch i x hx =>
      refine ⟨?_, fun _ _ _ he => (by cases he)⟩
      intro name y hy
      obtain ⟨rfl, rfl⟩ := Prod.mk.inj (Option.some.inj hy)
      exact Or.inr ⟨ch, rfl, List.mem_of_getElem? hx⟩
  | testActive ch i x =>
      exact ⟨fun name y hy => Or.inl hy, fun _ _ _ he => (by cases he)⟩
  | put ch i x =>
      refine ⟨fun name y hy => (by cases hy), ?_⟩
      intro t' y msg he
      obtain ⟨-, rfl, rfl⟩ := Event.put.inj (Option.some.inj he)
      rfl
  | unsubscribeInactive hret | clearProxy hret =>
      rcases hret with ⟨rfl, rfl⟩ | ⟨rfl, rfl⟩ <;>
        exact ⟨fun _ _ hy => (by cases hy), fun _ _ _ he => (by cases he)⟩
  | receiveRead hret | receiveInbox _ _ _ _ hret =>
      rcases hret with ⟨r', rfl, rfl⟩ | ⟨rfl, rfl⟩ <;>
        exact ⟨fun _ _ hy => (by cases hy), fun _ _ _ he => (by cases he)⟩
  | pendingRead hret =>
      rcases hret with ⟨rfl, rfl⟩ | ⟨rfl, count, rfl⟩ <;>
        exact ⟨fun _ _ hy => (by cases hy), fun _ _ _ he => (by cases he)⟩
  | _ => exact ⟨fun _ _ hy => (by cases hy), fun _ _ _ he => (by cases he)⟩

/-- What a step without a failing allocation does to names. -/
theorem ThreadStep.nameStep (h : ThreadStep t sh pc sh' pc' e)
    (hfresh : (sh.channel sh.nextChannel).subscriberProxies = []) :
    NameStep sh pc sh' pc' e := by
  have hobject := h.objectStep hfresh
  obtain ⟨hnext, hname⟩ := h.channelName
  obtain ⟨-, ⟨hnextProxy, hproxy⟩, -⟩ := hobject.frame
  refine ⟨?_, ?_, ?_, ?_, ?_, ?_, ?_, ?_, h.delivering.1, ?_, h.delivering.2⟩
  · rintro ch name ⟨hlt, rfl⟩
    exact ⟨Nat.lt_of_lt_of_le hlt hnext, hname ch hlt⟩
  · intro x hx
    exact ⟨Nat.lt_of_lt_of_le hx hnextProxy, (hproxy x hx).2⟩
  · rcases h.table with hsame | ⟨name, ch, -, htable⟩
    · rw [hsame]
    · rw [htable]
      rfl
  · intro hcmp name ch hget
    rcases h.table with hsame | ⟨name₀, ch₀, hins, htable⟩
    · rw [hsame] at hget
      exact Or.inl hget
    · rw [htable, GenericHashTable.get_insert _ hcmp] at hget
      by_cases heq : name = name₀
      · rw [if_pos heq] at hget
        obtain rfl := Option.some.inj hget
        rw [heq]
        exact Or.inr hins
      · rw [if_neg heq] at hget
        exact Or.inl hget
  · intro name ch hgetting
    obtain ⟨-, rfl, rfl⟩ := (h.getting hgetting).2 ch rfl
    exact ⟨Nat.lt_succ_self _, by simp [Shared.newChannel, Shared.setChannel]⟩
  · intro name ch hch
    rcases h.channelOf hch with hold | hget | ⟨hins, -⟩
    · exact Or.inl hold
    · exact Or.inr (Or.inl hget)
    · exact Or.inr (Or.inr hins)
  · intro name id x hhand
    cases hobject with
    | newProxy name' id' ch hpc hsh hpc' he =>
        subst hpc hsh hpc'
        obtain ⟨rfl, rfl, rfl⟩ : name' = name ∧ id' = id ∧ sh.nextProxy = x := by
          simpa [handOf] using hhand
        refine Or.inr ⟨ch, rfl, ?_⟩
        show ((sh.setProxy sh.nextProxy _).proxy sh.nextProxy).channel = ch
        rw [setProxy_proxy, if_pos rfl]
    | insertLast name' id' ch y hpc hsh hpc' he =>
        subst hpc hpc'
        exact Or.inl hhand
    | unlink k thenFree ch i hpc hsh hpc' he =>
        subst hpc'
        cases hhand
    | newSubscription name' id' y hpc hsh hpc' he =>
        subst hpc'
        cases hhand
    | other hsame hhand' hlisted he =>
        rw [hhand'] at hhand
        exact Or.inl hhand
  · intro ch x hx
    cases hobject with
    | newProxy name' id' ch' hpc hsh hpc' he =>
        subst hsh
        exact Or.inl hx
    | insertLast name' id' ch' y hpc hsh hpc' he =>
        subst hpc hsh
        rw [setChannel_channel] at hx
        by_cases hch : ch = ch'
        · rw [hch]
          exact Or.inr ⟨name', rfl⟩
        · rw [if_neg hch] at hx
          exact Or.inl hx
    | unlink k thenFree ch' i hpc hsh hpc' he =>
        subst hsh
        rw [setChannel_channel] at hx
        by_cases hch : ch = ch'
        · rw [if_pos hch] at hx
          rw [hch]
          exact Or.inl (List.mem_of_mem_eraseIdx hx)
        · rw [if_neg hch] at hx
          exact Or.inl hx
    | newSubscription name' id' y hpc hsh hpc' he =>
        subst hsh
        exact Or.inl hx
    | other hsame hhand' hlisted he =>
        rw [hsame.lists] at hx
        exact Or.inl hx
  · intro t' k x name he
    cases hobject with
    | newSubscription name' id' y hpc hsh hpc' he' =>
        rw [he'] at he
        obtain ⟨-, -, rfl, rfl⟩ := Event.subscribed.inj (Option.some.inj he)
        rw [hpc]
        exact ⟨id', rfl⟩
    | newProxy name' id' ch' hpc hsh hpc' he' | insertLast name' id' ch' y hpc hsh hpc' he' =>
        rw [he'] at he
        cases he
    | unlink k thenFree ch' i hpc hsh hpc' he' =>
        rw [he'] at he
        cases he
    | other hsame hhand' hlisted he' => cases he' _ he

/-- A write that leaves names, lists and what the table has alone. -/
structure NamesSame (sh sh' : Shared n) : Prop where
  objects : SameObjects sh sh'
  nextChannel : sh'.nextChannel = sh.nextChannel
  channelName : ∀ ch, (sh'.channel ch).channelName = (sh.channel ch).channelName
  compare : sh'.channels.compareKeyFunction = sh.channels.compareKeyFunction
  get : ∀ name, sh'.channels.get name = sh.channels.get name

/-- A quiet write. -/
theorem QuietWrite.namesSame (h : QuietWrite sh sh') : NamesSame sh sh' :=
  ⟨h.objects, h.nextChannel, h.channelName, by rw [h.table], fun _ => by rw [h.table]⟩

/-- A get-or-create that fails. The failure of a list node locks a bucket and leaves the pairs of
the table alone. -/
theorem GetChannelFail.namesSame {name : CString} {freeFirst : Bool} {g : GetChannelPc}
    {r : GetChannelResult} (h : GetChannelFail name freeFirst sh g sh' r) : NamesSame sh sh' := by
  have hquiet : sh'.channels = sh.channels → NamesSame sh sh' :=
    fun htable => (h.quietWrite htable).namesSame
  cases h with
  | insertNode ch =>
      have hrelease : QuietWrite sh (sh.setChannel ch { sh.channel ch with released := true }) :=
        .setChannel (by rfl) (by rfl) fun h => h
      obtain ⟨hobj, -, -, hnext, hname, -, -, -⟩ := hrelease
      exact ⟨⟨hobj.1, hobj.2, hobj.3, hobj.4, hobj.5, hobj.6, hobj.7⟩, hnext, hname, rfl,
        fun _ => rfl⟩
  | _ => exact hquiet rfl

/-- A step of a failing call writes no name and takes nothing new into its hands. -/
structure FailNames (sh : Shared n) (pc : Pc) (sh' : Shared n) (pc' : Pc)
    (e : Option (Event n)) : Prop where
  same : NamesSame sh sh'
  hand : HandLe pc' pc
  inserting : ∀ name ch, getting pc' ≠ some (name, .insert ch)
  found : ∀ r, channelOf pc' = some r → channelOf pc = some r
  delivering : deliveringTo pc' = none
  subscribed : ∀ t k x name, e ≠ some (.subscribed t k x name)
  put : ∀ t x msg, e ≠ some (.put t x msg)

/-- What a step of a failing call does to names. -/
theorem FailStep.failNames (h : FailStep t sh pc sh' pc' e) : FailNames sh pc sh' pc' e := by
  have hrefl : NamesSame sh sh := (QuietWrite.refl sh).namesSame
  cases h with
  | taskMore hg | subscribeMore hg =>
      refine ⟨hg.namesSame, .of_none rfl rfl, ?_, ?_, rfl, ?_, ?_⟩
      · intro name ch hins
        simp only [getting, Option.some.injEq, Prod.mk.injEq] at hins
        exact hg.more.2.1 ch hins.2
      · intro r hr
        simp [MessageBroker.channelOf, hg.more.2.2] at hr
      · rintro t k x name ⟨⟩
      · rintro t x msg ⟨⟩
  | taskFailed hg | subscribeFailed hg =>
      exact ⟨hg.namesSame, .of_none rfl rfl, fun _ _ h => (by cases h), fun _ h => (by cases h),
        rfl, fun _ _ _ _ h => (by cases h), fun _ _ _ h => (by cases h)⟩
  | unlockFailed ch x =>
      exact ⟨(QuietWrite.setChannel (by rfl) (by rfl) fun _ => rfl).namesSame, .of_none rfl rfl,
        fun _ _ h => (by cases h), fun _ h => (by cases h), rfl,
        fun _ _ _ _ h => (by cases h), fun _ _ _ h => (by cases h)⟩
  | freeDeactivate x =>
      exact ⟨(QuietWrite.setProxy (by rfl) (by rfl)).namesSame, .of_none rfl rfl,
        fun _ _ h => (by cases h), fun _ h => (by cases h), rfl,
        fun _ _ _ _ h => (by cases h), fun _ _ _ h => (by cases h)⟩
  | freeInbox x p f f' hp hinbox hf =>
      exact ⟨(QuietWrite.setProxy hp.id hp.channel).namesSame, .of_none rfl rfl,
        fun _ _ h => (by cases h), fun _ h => (by cases h), rfl,
        fun _ _ _ _ h => (by cases h), fun _ _ _ h => (by cases h)⟩
  | freeRelease x =>
      exact ⟨(QuietWrite.setProxy (by rfl) (by rfl)).namesSame, .of_none rfl rfl,
        fun _ _ h => (by cases h), fun _ h => (by cases h), rfl,
        fun _ _ _ _ h => (by cases h), fun _ _ _ h => (by cases h)⟩
  | skip ch i x pc hpc =>
      refine ⟨hrefl, .of_none rfl rfl, fun _ _ h => (by cases h), ?_, rfl,
        fun _ _ _ _ h => (by cases h), fun _ _ _ h => (by cases h)⟩
      intro r hr
      rcases hpc with rfl | rfl <;> exact hr
  | _ =>
      exact ⟨hrefl, .of_none rfl rfl, fun _ _ h => (by cases h),
        fun _ h => (by first | exact h | cases h), rfl, fun _ _ _ _ h => (by cases h),
        fun _ _ _ h => (by cases h)⟩

/-- A step of the pool leaves the names alone. -/
theorem failNames_of_inCall (h : inCall pc' = true)
    (e' : Option (ThreadPool.Event n PublisherTaskArg)) :
    FailNames sh pc sh pc' (e'.map .pool) := by
  have hsubscribed : ∀ t k x name, e'.map Event.pool ≠ some (.subscribed t k x name) := by
    intro t k x name he
    cases e' <;> cases he
  have hput : ∀ t x msg, e'.map Event.pool ≠ some (.put t x msg) := by
    intro t x msg he
    cases e' <;> cases he
  rcases inCall_cases h with rfl | ⟨arg, rfl⟩ | rfl | ⟨arg, rfl⟩ <;>
    exact ⟨(QuietWrite.refl sh).namesSame, .of_none rfl rfl, fun _ _ h => (by cases h),
      fun _ h => (by cases h), rfl, hsubscribed, hput⟩

/-- A failing call takes a step of `NameStep`. -/
theorem FailNames.nameStep (h : FailNames sh pc sh' pc' e) : NameStep sh pc sh' pc' e where
  named ch name hch := by
    rw [Named, h.same.nextChannel, h.same.channelName]
    exact hch
  proxy x hx := by
    rw [h.same.objects.nextProxy]
    exact ⟨hx, h.same.objects.proxyChannel x⟩
  compare := h.same.compare
  entry _ name ch hget := Or.inl (by rwa [h.same.get] at hget)
  inserting name ch hins := absurd hins (h.inserting name ch)
  found name ch hch := Or.inl (h.found _ hch)
  hand name id x hhand := Or.inl (h.hand.hand _ hhand)
  listed ch x hx := Or.inl (by rwa [h.same.objects.lists] at hx)
  delivering name x hx := by rw [h.delivering] at hx; cases hx
  subscribed t k x name he := absurd he (h.subscribed t k x name)
  put t x msg he := absurd he (h.put t x msg)

end

/-! ### The names in a run -/

/-- The names of channel objects, and of the proxies and messages that belong to them. -/
structure NameInv (tr : List (Event n)) (s : State n) : Prop where
  lists : ListInv s
  listed : ∀ ch x, x ∈ (s.shared.channel ch).subscriberProxies → ch < s.shared.nextChannel
  compare : s.shared.channels.compareKeyFunction = CString.strcmp
  entry : ∀ name ch, s.shared.channels.get name = some ch → Named s.shared ch name
  inserting : ∀ t name ch, getting (s.pc t) = some (name, .insert ch) → Named s.shared ch name
  found : ∀ t name ch, channelOf (s.pc t) = some (name, ch) → Named s.shared ch name
  hand : ∀ t name id x, handOf (s.pc t) = some (name, id, x) →
    Named s.shared (s.shared.proxy x).channel name
  delivering : ∀ t name x, deliveringTo (s.pc t) = some (name, x) → ProxyNamed s.shared x name
  subscribed : ∀ t k x name, .subscribed t k x name ∈ tr → ProxyNamed s.shared x name
  put : ∀ t x msg, .put t x msg ∈ tr → ProxyNamed s.shared x msg.channelName

/-- A step of a thread keeps `NameInv`. -/
theorem NameStep.nameInv {tr : List (Event n)} {s : State n} (hinv : NameInv tr s) {t : Tid n}
    {sh : Shared n} {pc : Pc} {e : Option (Event n)} (h : NameStep s.shared (s.pc t) sh pc e)
    {pool : ThreadPool.State n PublisherTaskArg}
    (hlists : ListInv ⟨pool, sh, Function.update s.pc t pc, s.faulted⟩) :
    NameInv (tr ++ e.toList) ⟨pool, sh, Function.update s.pc t pc, s.faulted⟩ := by
  have hcmp : ∀ a b, s.shared.channels.compareKeyFunction a b = 0 ↔ a = b := by
    simp [hinv.compare]
  have hproxy : ∀ x name, ProxyNamed s.shared x name → ProxyNamed sh x name := by
    rintro x name ⟨hlt, hnamed⟩
    obtain ⟨hlt', hchannel⟩ := h.proxy x hlt
    refine ⟨hlt', ?_⟩
    rw [hchannel]
    exact h.named _ _ hnamed
  have hfoundStep : ∀ name ch, channelOf pc = some (name, ch) → Named sh ch name := by
    intro name ch hch
    rcases h.found name ch hch with hold | hget | hins
    · exact h.named _ _ (hinv.found t name ch hold)
    · exact h.named _ _ (hinv.entry name ch hget)
    · exact h.named _ _ (hinv.inserting t name ch hins)
  -- a proxy of a list of a channel with the name
  have hlistedNamed : ∀ name ch x, channelOf (s.pc t) = some (name, ch) →
      x ∈ (s.shared.channel ch).subscriberProxies → ProxyNamed s.shared x name := by
    intro name ch x hch hx
    refine ⟨hinv.lists.bound ch x hx, ?_⟩
    rw [hinv.lists.home ch x hx]
    exact hinv.found t name ch hch
  refine ⟨hlists, ?_, ?_, ?_, ?_, ?_, ?_, ?_, ?_, ?_⟩
  · intro ch x hx
    rcases h.listed ch x hx with hold | ⟨name, hch⟩
    · exact (h.named ch _ ⟨hinv.listed ch x hold, rfl⟩).1
    · exact (h.named ch name (hinv.found t name ch hch)).1
  · exact h.compare.trans hinv.compare
  · intro name ch hget
    rcases h.entry hcmp name ch hget with hold | hins
    · exact h.named _ _ (hinv.entry name ch hold)
    · exact h.named _ _ (hinv.inserting t name ch hins)
  · exact forall_update (P := fun _ pc => ∀ name ch, getting pc = some (name, .insert ch) →
      Named sh ch name) h.inserting
        fun t' _ name ch hins => h.named _ _ (hinv.inserting t' name ch hins)
  · exact forall_update (P := fun _ pc => ∀ name ch, channelOf pc = some (name, ch) →
      Named sh ch name) hfoundStep fun t' _ name ch hch => h.named _ _ (hinv.found t' name ch hch)
  · have hkeep : ∀ t' name id x, handOf (s.pc t') = some (name, id, x) →
        Named sh (sh.proxy x).channel name := by
      intro t' name id x hx
      rw [(h.proxy x (hinv.lists.hand t' name id x hx)).2]
      exact h.named _ _ (hinv.hand t' name id x hx)
    refine forall_update (P := fun _ pc => ∀ name id x, handOf pc = some (name, id, x) →
      Named sh (sh.proxy x).channel name) ?_ fun t' _ => hkeep t'
    intro name id x hx
    rcases h.hand name id x hx with hold | ⟨ch, hch, hchannel⟩
    · exact hkeep t name id x hold
    · rw [hchannel]
      exact h.named _ _ (hinv.found t name ch hch)
  · refine forall_update (P := fun _ pc => ∀ name x, deliveringTo pc = some (name, x) →
      ProxyNamed sh x name) ?_ fun t' _ name x hx => hproxy x name (hinv.delivering t' name x hx)
    intro name x hx
    rcases h.delivering name x hx with hold | ⟨ch, hch, hmem⟩
    · exact hproxy x name (hinv.delivering t name x hold)
    · exact hproxy x name (hlistedNamed name ch x hch hmem)
  · intro t' k x name hmem
    rcases List.mem_append.mp hmem with hmem | hmem
    · exact hproxy x name (hinv.subscribed t' k x name hmem)
    · obtain ⟨id, hhand⟩ := h.subscribed t' k x name (Option.mem_toList.mp hmem)
      exact hproxy x name ⟨hinv.lists.hand t name id x hhand, hinv.hand t name id x hhand⟩
  · intro t' x msg hmem
    rcases List.mem_append.mp hmem with hmem | hmem
    · exact hproxy x _ (hinv.put t' x msg hmem)
    · exact hproxy x _ (hinv.delivering t _ x (h.put t' x msg (Option.mem_toList.mp hmem)))

/-- A step of a failing call, or a step of the pool, keeps `NameInv`. -/
theorem FailNames.nameInv {tr : List (Event n)} {s : State n} (hinv : NameInv tr s) {t : Tid n}
    {sh : Shared n} {pc : Pc} {e : Option (Event n)} (h : FailNames s.shared (s.pc t) sh pc e)
    {pool : ThreadPool.State n PublisherTaskArg} :
    NameInv (tr ++ e.toList) ⟨pool, sh, Function.update s.pc t pc, s.faulted⟩ := by
  refine h.nameStep.nameInv hinv (hinv.lists.shrink ?_ h.same.objects.nextProxy
    h.same.objects.proxyChannel ?_)
  · intro ch
    rw [h.same.objects.lists]
  · exact forall_update (P := fun t' pc => HandLe pc (s.pc t')) h.hand fun _ _ => .refl _

/-- `NameInv` holds in every state of a run. -/
theorem nameInv_of_run {K : State n → Action n → Prop} {tr : List (Event n)} {s : State n}
    (h : (machine n capacity hcap).RunIf K tr s) : NameInv tr s := by
  refine h.induction (I := NameInv) ?_ ?_
  · refine ⟨by constructor <;> simp [machine, init, handOf, notListed],
      fun ch x hx => (by cases hx), rfl, fun name ch hget => ?_,
      fun t name ch hg => (by cases hg), fun t name ch hg => (by cases hg),
      fun t name id x hx => (by cases hx), fun t name x hx => (by cases hx),
      fun t k x name hx => (by cases hx), fun t x msg hx => (by cases hx)⟩
    simp [machine, init] at hget
  · intro tr s a s' e _ hinv _ hnext
    rcases next_cases hnext with ⟨b, pool, t, pc, e', -, -, rfl, -, hpc, rfl⟩ |
        ⟨t, move, sh, pc, rfl, hf, rfl⟩ | ⟨t, rfl, rfl⟩
    · exact (failNames_of_inCall hpc e').nameInv hinv
    · have hfresh : (s.shared.channel s.shared.nextChannel).subscriberProxies = [] := by
        rw [List.eq_nil_iff_forall_not_mem]
        exact fun x hx => Nat.lt_irrefl _ (hinv.listed _ x hx)
      rcases threadFunction_cases hf with hstep | ⟨hstep, -⟩
      · exact (hstep.nameStep hfresh).nameInv hinv
          (listInv_thread hinv.lists (hstep.objectStep hfresh))
      · exact hstep.failNames.nameInv hinv
    · rw [Option.toList_none, List.append_nil]
      have hlists := hinv.lists
      exact ⟨⟨hlists.1, hlists.2, hlists.3, hlists.4, hlists.5, hlists.6⟩, hinv.listed,
        hinv.compare, hinv.entry, hinv.inserting, hinv.found, hinv.hand, hinv.delivering,
        hinv.subscribed, hinv.put⟩

/-! ### The names of subscriptions -/

/-- The name that a subscribe was called with. -/
def subscribeName : Pc → Option CString
  | .subscribe name _ _ => some name
  | _ => none

/-- A thread inside a subscribe keeps the name that it was called with, and returns it. -/
theorem threadFunction_subscribeName {t : Tid n} {sh sh' : Shared n} {pc pc' : Pc}
    {move : Move n} {e : Option (Event n)}
    (h : threadFunction t sh pc move = some (.step sh' pc' e)) :
    (∀ name, subscribeName pc' = some name →
      subscribeName pc = some name ∨ ∃ id, e = some (.subscribeCall t id name)) ∧
    ∀ t' k x name, e = some (.subscribed t' k x name) → subscribeName pc = some name := by
  rcases threadFunction_cases h with hstep | ⟨hstep, -⟩
  · cases hstep with
    | callSubscribe c ht name =>
        refine ⟨?_, fun _ _ _ _ he => (by cases he)⟩
        intro name' hname
        obtain rfl := Option.some.inj hname
        exact Or.inr ⟨_, rfl⟩
    | newSubscription x =>
        refine ⟨fun _ hname => (by cases hname), ?_⟩
        intro t' k y name he
        obtain ⟨-, -, -, rfl⟩ := Event.subscribed.inj (Option.some.inj he)
        rfl
    | unsubscribeInactive hret | clearProxy hret =>
        rcases hret with ⟨rfl, rfl⟩ | ⟨rfl, rfl⟩ <;>
          exact ⟨fun _ hname => (by cases hname), fun _ _ _ _ he => (by cases he)⟩
    | receiveRead hret | receiveInbox _ _ _ _ hret =>
        rcases hret with ⟨r', rfl, rfl⟩ | ⟨rfl, rfl⟩ <;>
          exact ⟨fun _ hname => (by cases hname), fun _ _ _ _ he => (by cases he)⟩
    | pendingRead hret =>
        rcases hret with ⟨rfl, rfl⟩ | ⟨rfl, count, rfl⟩ <;>
          exact ⟨fun _ hname => (by cases hname), fun _ _ _ _ he => (by cases he)⟩
    | _ =>
        exact ⟨fun _ hname => Or.inl hname,
          fun _ _ _ _ he => (by cases he)⟩
  · cases hstep <;>
      exact ⟨fun _ hname => (by first | exact Or.inl hname | cases hname),
        fun _ _ _ _ he => (by cases he)⟩

/-- A subscribe was called with the name. -/
def SubscribeCalled (tr : List (Event n)) (name : CString) : Prop :=
  ∃ t id, .subscribeCall t id name ∈ tr

/-- A subscribe that was called stays so. -/
theorem SubscribeCalled.append {tr tr' : List (Event n)} {name : CString}
    (h : SubscribeCalled tr name) : SubscribeCalled (tr ++ tr') name := by
  obtain ⟨t, id, hmem⟩ := h
  exact ⟨t, id, List.mem_append_left _ hmem⟩

/-- The names of the subscribes that run and of the subscriptions come from calls. -/
structure SubscribeInv (tr : List (Event n)) (s : State n) : Prop where
  pc : ∀ t name, subscribeName (s.pc t) = some name → SubscribeCalled tr name
  subscribed : ∀ t k x name, .subscribed t k x name ∈ tr → SubscribeCalled tr name

/-- `SubscribeInv` holds in every state of a run. -/
theorem subscribeInv_of_run {K : State n → Action n → Prop} {tr : List (Event n)} {s : State n}
    (h : (machine n capacity hcap).RunIf K tr s) : SubscribeInv tr s := by
  refine h.induction (I := SubscribeInv)
    ⟨fun t name hname => (by cases hname), fun t k x name hx => (by cases hx)⟩ ?_
  intro tr s a s' e _ hinv _ hnext
  rcases next_cases hnext with ⟨b, pool, t, pc, e', -, -, rfl, -, hpc, rfl⟩ |
      ⟨t, move, sh, pc, rfl, hf, rfl⟩ | ⟨t, rfl, rfl⟩
  · constructor
    · refine forall_update (P := fun _ pc => ∀ name, subscribeName pc = some name →
        SubscribeCalled _ name) ?_ fun t' _ name hname => (hinv.pc t' name hname).append
      intro name hname
      rcases inCall_cases hpc with rfl | ⟨arg, rfl⟩ | rfl | ⟨arg, rfl⟩ <;> cases hname
    · intro t' k x name hx
      rcases List.mem_append.mp hx with hx | hx
      · exact (hinv.subscribed t' k x name hx).append
      · cases e' <;> simp at hx
  · obtain ⟨hstay, hreturn⟩ := threadFunction_subscribeName hf
    constructor
    · refine forall_update (P := fun _ pc => ∀ name, subscribeName pc = some name →
        SubscribeCalled _ name) ?_ fun t' _ name hname => (hinv.pc t' name hname).append
      intro name hname
      rcases hstay name hname with hold | ⟨id, rfl⟩
      · exact (hinv.pc t name hold).append
      · exact ⟨t, id, List.mem_append_right _ (List.mem_singleton_self _)⟩
    · intro t' k x name hx
      rcases List.mem_append.mp hx with hx | hx
      · exact (hinv.subscribed t' k x name hx).append
      · exact (hinv.pc t name (hreturn t' k x name (Option.mem_toList.mp hx))).append
  · rw [Option.toList_none, List.append_nil]
    exact ⟨hinv.pc, hinv.subscribed⟩

/-- The call that shows `subscribeCall`. -/
theorem call_subscribe {c : Nat} {sh sh' : Shared n} {move : Move n} {pc' : Pc} {t : Tid n}
    {id : UInt64} {name : CString}
    (h : call c sh move = some (.step sh' pc' (some (.subscribeCall t id name)))) :
    move = .callSubscribe name ∧ t = .client c := by
  cases move with
  | callSubscribe name' =>
      obtain ⟨-, -, he⟩ := Outcome.step.inj (Option.some.inj h)
      obtain ⟨rfl, -, rfl⟩ := Event.subscribeCall.inj (Option.some.inj he)
      exact ⟨rfl, rfl⟩
  | callFree k =>
      simp only [call] at h
      split_ifs at h <;> cases h
  | callUnsubscribe k | callReceive k | callPendingCount k =>
      simp only [call] at h
      split_ifs at h
      cases h
  | _ => cases h

/-- A subscribe is called by an idle client. -/
theorem next_subscribeCall {b b' : State n} {a : Action n} {t : Tid n} {id : UInt64}
    {name : CString} (h : next b a = some (b', some (.subscribeCall t id name))) :
    a = .thread t (.callSubscribe name) ∧ b.pc t = .idle := by
  obtain ⟨t', move, sh, pc, rfl, hf, -⟩ := next_thread h rfl
  have hidle : b.pc t' = .idle ∧ ∃ c, t' = .client c := by
    rcases threadFunction_cases hf with hstep | ⟨hstep, -⟩
    · generalize b.pc t' = pc₀ at hstep
      cases hstep with
      | callSubscribe c ht name => exact ⟨rfl, c, ht⟩
      | unsubscribeInactive hret => rcases hret with ⟨-, he⟩ | ⟨-, he⟩ <;> cases he
      | clearProxy hret => rcases hret with ⟨-, he⟩ | ⟨-, he⟩ <;> cases he
      | receiveRead hret => rcases hret with ⟨_, -, he⟩ | ⟨-, he⟩ <;> cases he
      | receiveInbox _ _ _ _ hret => rcases hret with ⟨_, -, he⟩ | ⟨-, he⟩ <;> cases he
      | pendingRead hret => rcases hret with ⟨-, he⟩ | ⟨-, _, he⟩ <;> cases he
    · generalize b.pc t' = pc₀ at hstep
      cases hstep
  obtain ⟨hpc, c, rfl⟩ := hidle
  rw [hpc] at hf
  obtain ⟨rfl, rfl⟩ := call_subscribe hf
  exact ⟨rfl, hpc⟩

/-- A message that is handed out has the name for which its subscription was made. -/
theorem channelName_of_got {K : State n → Action n → Prop} {tr : List (Event n)} {s : State n}
    (h : (machine n capacity hcap).RunIf K tr s) {t : Tid n} {k x : Nat} {msg : Message}
    (hgot : .got t k x (some msg) ∈ tr) : ∃ t', .subscribed t' k x msg.channelName ∈ tr := by
  obtain ⟨t', name, hsubscribed⟩ := owned_of_got h hgot
  have hout : msg ∈ handedOut tr x := List.mem_filterMap.mpr ⟨_, hgot, by simp [gotOf]⟩
  have hmem : msg ∈ puts tr x := by
    rw [← (inboxInv_of_run h).balance x]
    exact List.mem_append_left _ hout
  obtain ⟨e, he, hput⟩ := List.mem_filterMap.mp hmem
  have hinv := nameInv_of_run h
  have hname : msg.channelName = name := by
    cases e with
    | put t₁ y m =>
        obtain ⟨rfl, rfl⟩ : y = x ∧ m = msg := by simpa [putOf] using hput
        exact (hinv.put t₁ y m he).2.2.symm.trans (hinv.subscribed t' k y name hsubscribed).2.2
    | _ => cases hput
  rw [hname]
  exact ⟨t', hsubscribed⟩

end

end Miez.Proofs.MessageBroker
