import Miez.Proofs.MessageBroker.Steps

/-!
# `Miez.Proofs.MessageBroker.Channels`: one channel object for each name

Both `message_broker_subscribe` and `_publisher_task` look a channel up and create it when it
is absent. The whole get-or-create is one critical section of `_channels_mutex`
(`channelsLock_of_run`), so a name that was absent at the lookup is still absent at the
insertion, and no channel object is ever shadowed by a second one with the same name.
`TableInv` says so: an entry of the table never changes, it leads to an object of its own name,
and every thread that works on a channel has the object that the table holds for the name.

`channelLock_of_run` is the invariant of the mutexes of the channel objects.
-/

set_option autoImplicit false

namespace Miez.Proofs.MessageBroker

open Miez.Lib
open Miez.MessageBroker
open Miez.ThreadPool (Tid)

section
variable {n : Nat} {capacity : UInt64} {hcap : capacity ≠ 0}

/-! ### `_channels_mutex` -/

/-- The get-or-create is inside its critical section. -/
def getChannelHolds : GetChannelPc → Prop
  | .lock | .free _ => False
  | _ => True

/-- The thread is between the lock and the unlock of `_channels_mutex`. -/
def holdsChannels : Pc → Prop
  | .publisherTask _ (.getChannel g) | .subscribe _ _ (.getChannel g) => getChannelHolds g
  | .unsubscribe _ _ u =>
      match u with
      | .get | .lockChannel _ | .search _ | .freeProxy _ _ _ _ | .unlink _ _
      | .unlockChannel _ | .unlockChannels => True
      | _ => False
  | _ => False

/-- What the get-or-create does to `_channels_mutex`. -/
theorem GetChannelStep.lockStep {t : Tid n} {name : CString} {sh sh' : Shared n}
    {g : GetChannelPc} {r : GetChannelResult} (h : GetChannelStep t name sh g sh' r) :
    LockStep t (getChannelHolds g) (∃ g', r = .more g' ∧ getChannelHolds g')
      sh.channelsMutex sh'.channelsMutex := by
  cases h with
  | lock hfree => exact .acquire hfree rfl (fun h => h) ⟨_, rfl, trivial⟩
  | hit hget => exact .keep rfl (iff_of_true ⟨_, rfl, trivial⟩ trivial)
  | miss hget => exact .keep rfl (iff_of_true ⟨_, rfl, trivial⟩ trivial)
  | new => exact .keep rfl (iff_of_true ⟨_, rfl, trivial⟩ trivial)
  | insert ch => exact .keep rfl (iff_of_true ⟨_, rfl, trivial⟩ trivial)
  | unlock ch => exact .release rfl trivial (by rintro ⟨g', hg', -⟩; cases hg')

/-- What a step of a thread does to `_channels_mutex`. -/
theorem ThreadStep.channelsLockStep {t : Tid n} {sh sh' : Shared n} {pc pc' : Pc}
    {e : Option (Event n)} (h : ThreadStep t sh pc sh' pc' e) :
    LockStep t (holdsChannels pc) (holdsChannels pc') sh.channelsMutex sh'.channelsMutex := by
  cases h with
  | taskMore hg | subscribeMore hg => simpa [holdsChannels] using hg.lockStep
  | taskFound hg | subscribeFound hg => simpa [holdsChannels] using hg.lockStep
  | unsubscribeTest u u' hu =>
      rcases hu with ⟨rfl, rfl⟩ | ⟨rfl, rfl | rfl⟩ <;> exact .keep rfl Iff.rfl
  | unsubscribeInactive hret => rcases hret with ⟨rfl, -⟩ | ⟨rfl, -⟩ <;> exact .keep rfl Iff.rfl
  | unsubscribeInbox x p u u' hp hinbox hu =>
      rcases hu with ⟨rfl, rfl⟩ | ⟨rfl, rfl⟩ | ⟨rfl, rfl⟩ <;> exact .keep rfl Iff.rfl
  | unsubscribeLockChannels hfree => exact .acquire hfree rfl (fun h => h) trivial
  | unsubscribeUnlockChannels => exact .release rfl trivial (fun h => h)
  | clearProxy hret => rcases hret with ⟨rfl, -⟩ | ⟨rfl, -⟩ <;> exact .keep rfl Iff.rfl
  | receiveRead hret => rcases hret with ⟨r', rfl, -⟩ | ⟨rfl, -⟩ <;> exact .keep rfl Iff.rfl
  | receiveInbox x p hp hinbox hret =>
      rcases hret with ⟨r', rfl, -⟩ | ⟨rfl, -⟩ <;> exact .keep rfl Iff.rfl
  | pendingRead hret => rcases hret with ⟨rfl, -⟩ | ⟨rfl, -⟩ <;> exact .keep rfl Iff.rfl
  | _ => exact .keep rfl Iff.rfl

/-- A program point of `inCall` is outside the critical sections. -/
theorem not_holdsChannels_of_inCall {pc : Pc} (h : inCall pc = true) : ¬ holdsChannels pc := by
  rcases inCall_cases h with rfl | ⟨arg, rfl⟩ | rfl | ⟨arg, rfl⟩ <;> exact fun h => h

/-- `_channels_mutex` is held by exactly the thread inside its critical section. -/
theorem channelsLock_of_run {tr : List (Event n)} {s : State n}
    (h : (machine n capacity hcap).RunIf AllocationsSucceed tr s) :
    LockInv (fun t => holdsChannels (s.pc t)) s.shared.channelsMutex := by
  refine invariant_of_run
    (I := fun _ s => LockInv (fun t => holdsChannels (s.pc t)) s.shared.channelsMutex)
    ?_ ?_ ?_ (fun _ _ _ hinv => hinv) h
  · intro t
    simp [init, holdsChannels]
  · intro tr s b pool t pc e _ hinv _ hold hnew
    exact hinv.update t pc (.keep rfl
      (iff_of_false (not_holdsChannels_of_inCall hnew) (not_holdsChannels_of_inCall hold)))
  · intro tr s t sh pc e _ hinv hstep
    exact hinv.update t pc hstep.channelsLockStep

/-! ### The table -/

/-- The name and the program point of a get-or-create. -/
def getting : Pc → Option (CString × GetChannelPc)
  | .publisherTask arg (.getChannel g) => some (arg.channelName, g)
  | .subscribe name _ (.getChannel g) => some (name, g)
  | _ => none

/-- The channel object that a get-or-create has in hand. -/
def getChannelFound : GetChannelPc → Option Nat
  | .unlock ch => some ch
  | _ => none

/-- The name that the thread works on and the channel object it has for it. -/
def channelOf : Pc → Option (CString × Nat)
  | .publisherTask arg pc =>
      match pc with
      | .getChannel g => (getChannelFound g).map (arg.channelName, ·)
      | .lockChannel ch | .begin ch | .next ch _ | .testActive ch _ _ | .enqueue ch _ _
      | .lockInbox ch _ _ | .signal ch _ _ | .unlockInbox ch _ _ | .unlockChannel ch =>
          some (arg.channelName, ch)
  | .subscribe name _ pc =>
      match pc with
      | .getChannel g => (getChannelFound g).map (name, ·)
      | .newProxy ch | .lockChannel ch _ | .insertLast ch _ | .unlockChannel ch _
      | .unlockFailed ch _ => some (name, ch)
      | _ => none
  | _ => none

/-- The channel object that an unsubscribe works on. -/
def unsubscribeChannel : Pc → Option Nat
  | .unsubscribe _ _ u =>
      match u with
      | .lockChannel ch | .search ch | .freeProxy ch _ _ _ | .unlink ch _
      | .unlockChannel ch => some ch
      | _ => none
  | _ => none

/-- The table holds one channel object for each name. -/
structure TableInv (s : State n) : Prop where
  compare : s.shared.channels.compareKeyFunction = CString.strcmp
  entry : ∀ name ch, s.shared.channels.get name = some ch →
    ch < s.shared.nextChannel ∧ (s.shared.channel ch).channelName = name
  absent : ∀ t name g, getting (s.pc t) = some (name, g) →
    (g = .new ∨ ∃ ch, g = .insert ch) → s.shared.channels.get name = none
  inserting : ∀ t name ch, getting (s.pc t) = some (name, .insert ch) →
    ch < s.shared.nextChannel ∧ (s.shared.channel ch).channelName = name
  found : ∀ t name ch, channelOf (s.pc t) = some (name, ch) →
    s.shared.channels.get name = some ch
  unsubscribe : ∀ t ch, unsubscribeChannel (s.pc t) = some ch →
    ∃ name, s.shared.channels.get name = some ch

/-- Two names with the same channel object are the same name. -/
theorem TableInv.name_unique {s : State n} (h : TableInv s) {name name' : CString} {ch : Nat}
    (hname : s.shared.channels.get name = some ch)
    (hname' : s.shared.channels.get name' = some ch) : name = name' :=
  (h.entry name ch hname).2.symm.trans (h.entry name' ch hname').2

/-- Only the insertion of a get-or-create writes the table. -/
theorem ThreadStep.table {t : Tid n} {sh sh' : Shared n} {pc pc' : Pc} {e : Option (Event n)}
    (h : ThreadStep t sh pc sh' pc' e) :
    sh'.channels = sh.channels ∨
    ∃ name ch, getting pc = some (name, .insert ch) ∧
      sh'.channels = sh.channels.insert name ch := by
  cases h with
  | taskMore hg | subscribeMore hg =>
      cases hg with
      | insert ch => exact Or.inr ⟨_, ch, rfl, rfl⟩
      | _ => exact Or.inl rfl
  | taskFound hg | subscribeFound hg => cases hg; exact Or.inl rfl
  | _ => exact Or.inl rfl

/-- A channel object keeps its name. -/
theorem ThreadStep.channelName {t : Tid n} {sh sh' : Shared n} {pc pc' : Pc}
    {e : Option (Event n)} (h : ThreadStep t sh pc sh' pc' e) :
    sh.nextChannel ≤ sh'.nextChannel ∧ ∀ ch, ch < sh.nextChannel →
      (sh'.channel ch).channelName = (sh.channel ch).channelName := by
  have hset : ∀ (ch' : Nat) (c : Channel n), c.channelName = (sh.channel ch').channelName →
      ∀ ch, ((sh.setChannel ch' c).channel ch).channelName = (sh.channel ch).channelName := by
    intro ch' c hc ch
    by_cases hch : ch = ch'
    · subst hch
      simpa [Shared.setChannel] using hc
    · simp [Shared.setChannel, Function.update_of_ne hch]
  cases h with
  | taskMore hg | subscribeMore hg =>
      cases hg with
      | new =>
          refine ⟨Nat.le_succ _, fun ch hch => ?_⟩
          simp [Shared.newChannel, Shared.setChannel, Function.update_of_ne (Nat.ne_of_lt hch)]
      | _ => exact ⟨le_rfl, fun _ _ => rfl⟩
  | taskFound hg | subscribeFound hg => cases hg; exact ⟨le_rfl, fun _ _ => rfl⟩
  | fanout ch' hfree => exact ⟨le_rfl, fun ch _ => hset ch' _ (by rfl) ch⟩
  | taskUnlock ch' => exact ⟨le_rfl, fun ch _ => hset ch' _ (by rfl) ch⟩
  | subscribeLock ch' x hfree => exact ⟨le_rfl, fun ch _ => hset ch' _ (by rfl) ch⟩
  | insertLast ch' x => exact ⟨le_rfl, fun ch _ => hset ch' _ (by rfl) ch⟩
  | subscribeUnlock ch' x => exact ⟨le_rfl, fun ch _ => hset ch' _ (by rfl) ch⟩
  | unsubscribeLockChannel ch' hfree => exact ⟨le_rfl, fun ch _ => hset ch' _ (by rfl) ch⟩
  | unlink ch' i => exact ⟨le_rfl, fun ch _ => hset ch' _ (by rfl) ch⟩
  | unsubscribeUnlockChannel ch' => exact ⟨le_rfl, fun ch _ => hset ch' _ (by rfl) ch⟩
  | _ => exact ⟨le_rfl, fun _ _ => rfl⟩

/-- How a thread comes to create a channel: the lookup found nothing, or it has just made the
new object. -/
theorem ThreadStep.getting {t : Tid n} {sh sh' : Shared n} {pc pc' : Pc}
    {e : Option (Event n)} (h : ThreadStep t sh pc sh' pc' e) {name : CString}
    {g : GetChannelPc} (hg : getting pc' = some (name, g)) :
    (g = .new → sh.channels.get name = none ∧ sh'.channels = sh.channels) ∧
    (∀ ch, g = .insert ch → MessageBroker.getting pc = some (name, .new) ∧
      sh' = sh.newChannel name ∧ ch = sh.nextChannel) := by
  cases h with
  | taskMore hstep | subscribeMore hstep =>
      simp only [MessageBroker.getting, Option.some.injEq, Prod.mk.injEq] at hg ⊢
      obtain ⟨rfl, rfl⟩ := hg
      cases hstep with
      | miss hget => exact ⟨fun _ => ⟨hget, rfl⟩, by simp⟩
      | new => exact ⟨by simp, by rintro ch ⟨⟩; simp⟩
      | _ => simp
  | callSubscribe c ht name' =>
      simp only [MessageBroker.getting, Option.some.injEq, Prod.mk.injEq] at hg
      obtain ⟨-, rfl⟩ := hg
      simp
  | unsubscribeInactive hret => rcases hret with ⟨rfl, -⟩ | ⟨rfl, -⟩ <;> cases hg
  | clearProxy hret => rcases hret with ⟨rfl, -⟩ | ⟨rfl, -⟩ <;> cases hg
  | receiveRead hret => rcases hret with ⟨r', rfl, -⟩ | ⟨rfl, -⟩ <;> cases hg
  | receiveInbox x p hp hinbox hret => rcases hret with ⟨r', rfl, -⟩ | ⟨rfl, -⟩ <;> cases hg
  | pendingRead hret => rcases hret with ⟨rfl, -⟩ | ⟨rfl, -⟩ <;> cases hg
  | _ => cases hg

/-- How a thread comes to have a channel object: it had it, it found it, or it has just
inserted it. -/
theorem ThreadStep.channelOf {t : Tid n} {sh sh' : Shared n} {pc pc' : Pc}
    {e : Option (Event n)} (h : ThreadStep t sh pc sh' pc' e) {name : CString} {ch : Nat}
    (hch : channelOf pc' = some (name, ch)) :
    MessageBroker.channelOf pc = some (name, ch) ∨ sh.channels.get name = some ch ∨
    (MessageBroker.getting pc = some (name, .insert ch) ∧
      sh'.channels = sh.channels.insert name ch) := by
  cases h with
  | taskMore hstep | subscribeMore hstep =>
      cases hstep with
      | hit hget =>
          simp only [MessageBroker.channelOf, getChannelFound, Option.map_some,
            Option.some.injEq, Prod.mk.injEq] at hch
          obtain ⟨rfl, rfl⟩ := hch
          exact Or.inr (Or.inl hget)
      | insert ch' =>
          simp only [MessageBroker.channelOf, getChannelFound, Option.map_some,
            Option.some.injEq, Prod.mk.injEq] at hch
          obtain ⟨rfl, rfl⟩ := hch
          exact Or.inr (Or.inr ⟨rfl, rfl⟩)
      | _ => simp [MessageBroker.channelOf, getChannelFound] at hch
  | taskFound hstep | subscribeFound hstep =>
      cases hstep
      exact Or.inl hch
  | unsubscribeInactive hret => rcases hret with ⟨rfl, -⟩ | ⟨rfl, -⟩ <;> cases hch
  | clearProxy hret => rcases hret with ⟨rfl, -⟩ | ⟨rfl, -⟩ <;> cases hch
  | receiveRead hret => rcases hret with ⟨r', rfl, -⟩ | ⟨rfl, -⟩ <;> cases hch
  | receiveInbox x p hp hinbox hret => rcases hret with ⟨r', rfl, -⟩ | ⟨rfl, -⟩ <;> cases hch
  | pendingRead hret => rcases hret with ⟨rfl, -⟩ | ⟨rfl, -⟩ <;> cases hch
  | _ => first | exact Or.inl hch | cases hch

/-- An unsubscribe works on a channel object that it has found in the table. -/
theorem ThreadStep.unsubscribeChannel {t : Tid n} {sh sh' : Shared n} {pc pc' : Pc}
    {e : Option (Event n)} (h : ThreadStep t sh pc sh' pc' e) {ch : Nat}
    (hch : unsubscribeChannel pc' = some ch) :
    MessageBroker.unsubscribeChannel pc = some ch ∨ ∃ name, sh.channels.get name = some ch := by
  cases h with
  | unsubscribeHit ch' hget =>
      obtain rfl : ch' = ch := by simpa [MessageBroker.unsubscribeChannel] using hch
      exact Or.inr ⟨_, hget⟩
  | unsubscribeTest u u' hu => rcases hu with ⟨rfl, rfl⟩ | ⟨rfl, rfl | rfl⟩ <;> cases hch
  | unsubscribeInactive hret => rcases hret with ⟨rfl, -⟩ | ⟨rfl, -⟩ <;> cases hch
  | unsubscribeInbox x p u u' hp hinbox hu =>
      rcases hu with ⟨rfl, rfl⟩ | ⟨rfl, rfl⟩ | ⟨rfl, rfl⟩ <;> cases hch
  | clearProxy hret => rcases hret with ⟨rfl, -⟩ | ⟨rfl, -⟩ <;> cases hch
  | receiveRead hret => rcases hret with ⟨r', rfl, -⟩ | ⟨rfl, -⟩ <;> cases hch
  | receiveInbox x p hp hinbox hret => rcases hret with ⟨r', rfl, -⟩ | ⟨rfl, -⟩ <;> cases hch
  | pendingRead hret => rcases hret with ⟨rfl, -⟩ | ⟨rfl, -⟩ <;> cases hch
  | _ => first | exact Or.inl hch | cases hch

/-- A thread that creates a channel is inside the critical section of `_channels_mutex`. -/
theorem holdsChannels_of_creating {pc : Pc} {name : CString} {g : GetChannelPc}
    (h : getting pc = some (name, g)) (hg : g = .new ∨ ∃ ch, g = .insert ch) :
    holdsChannels pc := by
  have hholds : getChannelHolds g := by rcases hg with rfl | ⟨ch, rfl⟩ <;> trivial
  cases pc with
  | publisherTask arg pc => cases pc <;> simp_all [getting, holdsChannels]
  | subscribe name' id pc => cases pc <;> simp_all [getting, holdsChannels]
  | _ => simp [getting] at h

/-- An entry of the table stays. The only write is the insertion of a name that the inserting
thread has found absent. -/
theorem ThreadStep.get_mono {s : State n} (hinv : TableInv s) {t : Tid n} {sh : Shared n}
    {pc : Pc} {e : Option (Event n)} (hstep : ThreadStep t s.shared (s.pc t) sh pc e)
    {name : CString} {ch : Nat} (h : s.shared.channels.get name = some ch) :
    sh.channels.get name = some ch := by
  rcases hstep.table with hsame | ⟨name₀, ch₀, hins, htable⟩
  · rw [hsame]
    exact h
  · have habsent := hinv.absent t name₀ _ hins (Or.inr ⟨ch₀, rfl⟩)
    have hne : name ≠ name₀ := by
      rintro rfl
      rw [habsent] at h
      cases h
    rw [htable, GenericHashTable.get_insert _ (by simp [hinv.compare]), if_neg hne]
    exact h

/-- A step of a thread keeps `TableInv`. -/
theorem tableInv_thread {s : State n} (hinv : TableInv s)
    (hlock : LockInv (fun t => holdsChannels (s.pc t)) s.shared.channelsMutex) {t : Tid n}
    {sh : Shared n} {pc : Pc} {e : Option (Event n)}
    (hstep : ThreadStep t s.shared (s.pc t) sh pc e) :
    TableInv ⟨s.pool, sh, Function.update s.pc t pc, s.faulted⟩ := by
  obtain ⟨hnext, hname⟩ := hstep.channelName
  have hcompare : sh.channels.compareKeyFunction = CString.strcmp := by
    rcases hstep.table with hsame | ⟨name₀, ch₀, -, htable⟩
    · rw [hsame]
      exact hinv.compare
    · rw [htable]
      exact hinv.compare
  have hcmp : ∀ a b, s.shared.channels.compareKeyFunction a b = 0 ↔ a = b := by
    simp [hinv.compare]
  have hentry : ∀ name ch, ch < s.shared.nextChannel ∧ (s.shared.channel ch).channelName = name →
      ch < sh.nextChannel ∧ (sh.channel ch).channelName = name := by
    rintro name ch ⟨hlt, rfl⟩
    exact ⟨Nat.lt_of_lt_of_le hlt hnext, hname ch hlt⟩
  refine ⟨hcompare, ?_, ?_, ?_, ?_, ?_⟩
  · intro name ch hget
    rcases hstep.table with hsame | ⟨name₀, ch₀, hins, htable⟩
    · exact hentry name ch (hinv.entry name ch (hsame ▸ hget))
    · have hget' : (s.shared.channels.insert name₀ ch₀).get name = some ch := htable ▸ hget
      rw [GenericHashTable.get_insert _ hcmp] at hget'
      by_cases heq : name = name₀
      · subst heq
        obtain rfl : ch₀ = ch := by simpa using hget'
        exact hentry name ch₀ (hinv.inserting t name ch₀ hins)
      · rw [if_neg heq] at hget'
        exact hentry name ch (hinv.entry name ch hget')
  · refine forall_update (P := fun _ pc => ∀ name g, getting pc = some (name, g) →
      (g = .new ∨ ∃ ch, g = .insert ch) → sh.channels.get name = none) ?_ ?_
    · intro name g hgetting hg
      obtain ⟨hnew, hins⟩ := hstep.getting hgetting
      rcases hg with rfl | ⟨ch, rfl⟩
      · obtain ⟨habsent, hsame⟩ := hnew rfl
        rw [hsame]
        exact habsent
      · obtain ⟨hold, hsh, -⟩ := hins ch rfl
        have habsent := hinv.absent t name _ hold (Or.inl rfl)
        rw [hsh]
        exact habsent
    · intro t' ht' name g hgetting hg
      rcases hstep.table with hsame | ⟨name₀, ch₀, hins, -⟩
      · rw [hsame]
        exact hinv.absent t' name g hgetting hg
      · -- Both threads would be inside the critical section.
        have hme := holdsChannels_of_creating hins (Or.inr ⟨ch₀, rfl⟩)
        have hother := holdsChannels_of_creating hgetting hg
        exact absurd (hlock.unique hother hme) ht'
  · refine forall_update (P := fun _ pc => ∀ name ch, getting pc = some (name, .insert ch) →
      ch < sh.nextChannel ∧ (sh.channel ch).channelName = name) ?_ ?_
    · intro name ch hgetting
      obtain ⟨-, rfl, rfl⟩ := (hstep.getting hgetting).2 ch rfl
      exact ⟨Nat.lt_succ_self _, by simp [Shared.newChannel, Shared.setChannel]⟩
    · intro t' _ name ch hgetting
      exact hentry name ch (hinv.inserting t' name ch hgetting)
  · refine forall_update (P := fun _ pc => ∀ name ch, channelOf pc = some (name, ch) →
      sh.channels.get name = some ch) ?_ ?_
    · intro name ch hch
      rcases hstep.channelOf hch with hold | hget | ⟨-, htable⟩
      · exact hstep.get_mono hinv (hinv.found t name ch hold)
      · exact hstep.get_mono hinv hget
      · rw [htable, GenericHashTable.get_insert _ hcmp, if_pos rfl]
    · intro t' _ name ch hch
      exact hstep.get_mono hinv (hinv.found t' name ch hch)
  · refine forall_update (P := fun _ pc => ∀ ch, unsubscribeChannel pc = some ch →
      ∃ name, sh.channels.get name = some ch) ?_ ?_
    · intro ch hch
      rcases hstep.unsubscribeChannel hch with hold | ⟨name, hget⟩
      · obtain ⟨name, hget⟩ := hinv.unsubscribe t ch hold
        exact ⟨name, hstep.get_mono hinv hget⟩
      · exact ⟨name, hstep.get_mono hinv hget⟩
    · intro t' _ ch hch
      obtain ⟨name, hget⟩ := hinv.unsubscribe t' ch hch
      exact ⟨name, hstep.get_mono hinv hget⟩

/-- `TableInv` holds in every state of a run. -/
theorem tableInv_of_run {tr : List (Event n)} {s : State n}
    (h : (machine n capacity hcap).RunIf AllocationsSucceed tr s) : TableInv s := by
  refine invariant_of_run (I := fun _ s => TableInv s) ?_ ?_ ?_
    (fun _ _ _ hinv => ⟨hinv.1, hinv.2, hinv.3, hinv.4, hinv.5, hinv.6⟩) h
  · refine ⟨rfl, ?_, ?_, ?_, ?_, ?_⟩
    · intro name ch hget
      simp [init] at hget
    · intro t name g hgetting
      simp [init, getting] at hgetting
    · intro t name ch hgetting
      simp [init, getting] at hgetting
    · intro t name ch hch
      simp [init, channelOf] at hch
    · intro t ch hch
      simp [init, unsubscribeChannel] at hch
  · intro tr s b pool t pc e _ hinv _ _ hpc
    refine ⟨hinv.compare, hinv.entry, ?_, ?_, ?_, ?_⟩
    · refine forall_update (P := fun _ pc => ∀ name g, getting pc = some (name, g) →
        (g = .new ∨ ∃ ch, g = .insert ch) → s.shared.channels.get name = none) ?_
        fun t' _ => hinv.absent t'
      intro name g hgetting hg
      exact absurd (holdsChannels_of_creating hgetting hg) (not_holdsChannels_of_inCall hpc)
    · refine forall_update (P := fun _ pc => ∀ name ch, getting pc = some (name, .insert ch) →
        ch < s.shared.nextChannel ∧ (s.shared.channel ch).channelName = name) ?_
        fun t' _ => hinv.inserting t'
      intro name ch hgetting
      exact absurd (holdsChannels_of_creating hgetting (Or.inr ⟨ch, rfl⟩))
        (not_holdsChannels_of_inCall hpc)
    · refine forall_update (P := fun _ pc => ∀ name ch, channelOf pc = some (name, ch) →
        s.shared.channels.get name = some ch) ?_ fun t' _ => hinv.found t'
      intro name ch hch
      rcases inCall_cases hpc with rfl | ⟨arg, rfl⟩ | rfl | ⟨arg, rfl⟩ <;> cases hch
    · refine forall_update (P := fun _ pc => ∀ ch, unsubscribeChannel pc = some ch →
        ∃ name, s.shared.channels.get name = some ch) ?_ fun t' _ => hinv.unsubscribe t'
      intro ch hch
      rcases inCall_cases hpc with rfl | ⟨arg, rfl⟩ | rfl | ⟨arg, rfl⟩ <;> cases hch
  · intro tr s t sh pc e hrun hinv hstep
    exact tableInv_thread hinv (channelsLock_of_run hrun) hstep

/-! ### The mutexes of the channel objects -/

/-- The channel whose mutex the thread holds. -/
def channelHeld : Pc → Option Nat
  | .publisherTask _ pc =>
      match pc with
      | .begin ch | .next ch _ | .testActive ch _ _ | .enqueue ch _ _ | .lockInbox ch _ _
      | .signal ch _ _ | .unlockInbox ch _ _ | .unlockChannel ch => some ch
      | _ => none
  | .subscribe _ _ pc =>
      match pc with
      | .insertLast ch _ | .unlockChannel ch _ | .unlockFailed ch _ => some ch
      | _ => none
  | .unsubscribe _ _ pc =>
      match pc with
      | .search ch | .freeProxy ch _ _ _ | .unlink ch _ | .unlockChannel ch => some ch
      | _ => none
  | _ => none

/-- A step writes only the channel object it works on, or a new one. -/
theorem ThreadStep.channel_of_ne {t : Tid n} {sh sh' : Shared n} {pc pc' : Pc}
    {e : Option (Event n)} (h : ThreadStep t sh pc sh' pc' e) {ch : Nat}
    (hne : sh'.channel ch ≠ sh.channel ch) :
    (∃ name, MessageBroker.channelOf pc = some (name, ch)) ∨
    MessageBroker.unsubscribeChannel pc = some ch ∨
    (ch = sh.nextChannel ∧ sh'.nextChannel = sh.nextChannel + 1) := by
  have hset : ∀ (ch' : Nat) (c : Channel n), (sh.setChannel ch' c).channel ch ≠ sh.channel ch →
      ch' = ch := by
    intro ch' c hne'
    by_contra hch
    exact hne' (Function.update_of_ne (Ne.symm hch) _ _)
  cases h with
  | taskMore hg | subscribeMore hg =>
      cases hg with
      | new => exact Or.inr (Or.inr ⟨(hset _ _ hne).symm, rfl⟩)
      | _ => exact absurd rfl hne
  | taskFound hg | subscribeFound hg => cases hg; exact absurd rfl hne
  | fanout ch' hfree => exact Or.inl ⟨_, by rw [← hset ch' _ hne]; rfl⟩
  | taskUnlock ch' => exact Or.inl ⟨_, by rw [← hset ch' _ hne]; rfl⟩
  | subscribeLock ch' x hfree => exact Or.inl ⟨_, by rw [← hset ch' _ hne]; rfl⟩
  | insertLast ch' x => exact Or.inl ⟨_, by rw [← hset ch' _ hne]; rfl⟩
  | subscribeUnlock ch' x => exact Or.inl ⟨_, by rw [← hset ch' _ hne]; rfl⟩
  | unsubscribeLockChannel ch' hfree => exact Or.inr (Or.inl (by rw [← hset ch' _ hne]; rfl))
  | unlink ch' i => exact Or.inr (Or.inl (by rw [← hset ch' _ hne]; rfl))
  | unsubscribeUnlockChannel ch' => exact Or.inr (Or.inl (by rw [← hset ch' _ hne]; rfl))
  | _ => exact absurd rfl hne

/-- A thread works on channel objects that exist. -/
theorem TableInv.channel_lt {s : State n} (h : TableInv s) {t : Tid n} {ch : Nat}
    (hch : (∃ name, channelOf (s.pc t) = some (name, ch)) ∨
      unsubscribeChannel (s.pc t) = some ch) : ch < s.shared.nextChannel := by
  rcases hch with ⟨name, hch⟩ | hch
  · exact (h.entry name ch (h.found t name ch hch)).1
  · obtain ⟨name, hget⟩ := h.unsubscribe t ch hch
    exact (h.entry name ch hget).1

/-- A step of a thread leaves the channel objects alone that do not exist yet. -/
theorem fresh_thread {s : State n} (htable : TableInv s)
    (hinv : ∀ ch, s.shared.nextChannel ≤ ch →
      (s.shared.channel ch).mutex = none ∧ (s.shared.channel ch).subscriberProxies = [])
    {t : Tid n} {sh : Shared n} {pc : Pc} {e : Option (Event n)}
    (hstep : ThreadStep t s.shared (s.pc t) sh pc e) :
    ∀ ch, sh.nextChannel ≤ ch →
      (sh.channel ch).mutex = none ∧ (sh.channel ch).subscriberProxies = [] := by
  intro ch hch
  have hnext := hstep.channelName.1
  have hsame : sh.channel ch = s.shared.channel ch := by
    by_contra hne
    rcases hstep.channel_of_ne hne with hname | hun | ⟨rfl, hsucc⟩
    · have hlt := htable.channel_lt (Or.inl hname)
      omega
    · have hlt := htable.channel_lt (Or.inr hun)
      omega
    · omega
  rw [hsame]
  exact hinv ch (le_trans hnext hch)

/-- A channel object that does not exist yet is unlocked and empty. -/
theorem fresh_of_run {tr : List (Event n)} {s : State n}
    (h : (machine n capacity hcap).RunIf AllocationsSucceed tr s) :
    ∀ ch, s.shared.nextChannel ≤ ch →
      (s.shared.channel ch).mutex = none ∧ (s.shared.channel ch).subscriberProxies = [] := by
  refine invariant_of_run
    (I := fun _ s => ∀ ch, s.shared.nextChannel ≤ ch →
      (s.shared.channel ch).mutex = none ∧ (s.shared.channel ch).subscriberProxies = [])
    ?_ (fun _ _ _ _ _ _ _ _ hinv _ _ _ => hinv) ?_ (fun _ _ _ hinv => hinv) h
  · intro ch _
    exact ⟨rfl, rfl⟩
  · intro tr s t sh pc e hrun hinv hstep
    exact fresh_thread (tableInv_of_run hrun) hinv hstep

section
variable {t : Tid n} {sh : Shared n} {pc pc' : Pc}

/-- A step that takes the mutex of one channel. -/
theorem lockStep_of_acquire {ch' : Nat} (hold : channelHeld pc = none)
    (hnew : channelHeld pc' = some ch') (hfree : (sh.channel ch').mutex = none) (ch : Nat) :
    LockStep t (channelHeld pc = some ch) (channelHeld pc' = some ch) (sh.channel ch).mutex
      ((sh.setChannel ch' { sh.channel ch' with mutex := some t }).channel ch).mutex := by
  by_cases hch : ch = ch'
  · subst hch
    exact .acquire hfree (by simp [Shared.setChannel]) (by simp [hold]) hnew
  · refine .keep (by simp [Shared.setChannel, Function.update_of_ne hch]) ?_
    simp [hold, hnew, Ne.symm hch]

/-- A step that gives the mutex of one channel back. -/
theorem lockStep_of_release {ch' : Nat} (hold : channelHeld pc = some ch')
    (hnew : channelHeld pc' = none) (ch : Nat) :
    LockStep t (channelHeld pc = some ch) (channelHeld pc' = some ch) (sh.channel ch).mutex
      ((sh.unlockChannel ch').channel ch).mutex := by
  by_cases hch : ch = ch'
  · subst hch
    exact .release (by simp [Shared.unlockChannel, Shared.setChannel]) hold (by simp [hnew])
  · refine .keep (by simp [Shared.unlockChannel, Shared.setChannel, Function.update_of_ne hch]) ?_
    simp [hold, hnew, Ne.symm hch]

/-- A step that writes one channel and leaves its mutex alone. -/
theorem lockStep_of_write {ch' : Nat} {c : Channel n} (hpc : channelHeld pc' = channelHeld pc)
    (hmutex : c.mutex = (sh.channel ch').mutex) (ch : Nat) :
    LockStep t (channelHeld pc = some ch) (channelHeld pc' = some ch) (sh.channel ch).mutex
      ((sh.setChannel ch' c).channel ch).mutex := by
  refine .keep ?_ (by rw [hpc])
  by_cases hch : ch = ch'
  · subst hch
    simpa [Shared.setChannel] using hmutex
  · simp [Shared.setChannel, Function.update_of_ne hch]

end

/-- What a step of a thread does to the mutex of a channel. -/
theorem ThreadStep.channelLockStep {t : Tid n} {sh sh' : Shared n} {pc pc' : Pc}
    {e : Option (Event n)} (h : ThreadStep t sh pc sh' pc' e)
    (hfresh : (sh.channel sh.nextChannel).mutex = none) (ch : Nat) :
    LockStep t (channelHeld pc = some ch) (channelHeld pc' = some ch) (sh.channel ch).mutex
      (sh'.channel ch).mutex := by
  cases h with
  | taskMore hg | subscribeMore hg =>
      cases hg with
      | new => exact lockStep_of_write rfl hfresh.symm ch
      | _ => exact .keep rfl Iff.rfl
  | taskFound hg | subscribeFound hg => cases hg; exact .keep rfl Iff.rfl
  | fanout ch' hfree => exact lockStep_of_acquire rfl rfl hfree ch
  | taskUnlock ch' => exact lockStep_of_release rfl rfl ch
  | subscribeLock ch' x hfree => exact lockStep_of_acquire rfl rfl hfree ch
  | insertLast ch' x => exact lockStep_of_write (by rfl) (by rfl) ch
  | subscribeUnlock ch' x => exact lockStep_of_release rfl rfl ch
  | unsubscribeLockChannel ch' hfree => exact lockStep_of_acquire rfl rfl hfree ch
  | unlink ch' i => exact lockStep_of_write (by rfl) (by rfl) ch
  | unsubscribeUnlockChannel ch' => exact lockStep_of_release rfl rfl ch
  | unsubscribeTest u u' hu =>
      rcases hu with ⟨rfl, rfl⟩ | ⟨rfl, rfl | rfl⟩ <;> exact .keep rfl Iff.rfl
  | unsubscribeInactive hret => rcases hret with ⟨rfl, -⟩ | ⟨rfl, -⟩ <;> exact .keep rfl Iff.rfl
  | unsubscribeInbox x p u u' hp hinbox hu =>
      rcases hu with ⟨rfl, rfl⟩ | ⟨rfl, rfl⟩ | ⟨rfl, rfl⟩ <;> exact .keep rfl Iff.rfl
  | clearProxy hret => rcases hret with ⟨rfl, -⟩ | ⟨rfl, -⟩ <;> exact .keep rfl Iff.rfl
  | receiveRead hret => rcases hret with ⟨r', rfl, -⟩ | ⟨rfl, -⟩ <;> exact .keep rfl Iff.rfl
  | receiveInbox x p hp hinbox hret =>
      rcases hret with ⟨r', rfl, -⟩ | ⟨rfl, -⟩ <;> exact .keep rfl Iff.rfl
  | pendingRead hret => rcases hret with ⟨rfl, -⟩ | ⟨rfl, -⟩ <;> exact .keep rfl Iff.rfl
  | _ => exact .keep rfl Iff.rfl

/-- A program point of `inCall` holds no channel. -/
theorem channelHeld_of_inCall {pc : Pc} (h : inCall pc = true) : channelHeld pc = none := by
  rcases inCall_cases h with rfl | ⟨arg, rfl⟩ | rfl | ⟨arg, rfl⟩ <;> rfl

/-- The mutex of a channel is held by exactly the thread inside its critical section. -/
theorem channelLock_of_run {tr : List (Event n)} {s : State n}
    (h : (machine n capacity hcap).RunIf AllocationsSucceed tr s) (ch : Nat) :
    LockInv (fun t => channelHeld (s.pc t) = some ch) (s.shared.channel ch).mutex := by
  refine invariant_of_run
    (I := fun _ s => LockInv (fun t => channelHeld (s.pc t) = some ch)
      (s.shared.channel ch).mutex) ?_ ?_ ?_ (fun _ _ _ hinv => hinv) h
  · intro t
    simp [init, channelHeld]
  · intro tr s b pool t pc e _ hinv _ hold hnew
    refine hinv.update (P := fun pc => channelHeld pc = some ch) t pc (.keep rfl ?_)
    rw [channelHeld_of_inCall hold, channelHeld_of_inCall hnew]
  · intro tr s t sh pc e hrun hinv hstep
    have hfresh := (fresh_of_run hrun _ le_rfl).1
    exact hinv.update (P := fun pc => channelHeld pc = some ch) t pc
      (hstep.channelLockStep hfresh ch)

end

end Miez.Proofs.MessageBroker
