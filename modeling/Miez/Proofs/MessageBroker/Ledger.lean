import Miez.Proofs.MessageBroker.Released

/-!
# `Miez.Proofs.MessageBroker.Ledger`: where the channels and the proxies of a broker are

Each channel that has not been freed is in the table once or in the hand of the thread that creates
it (`ChannelLedger`), and each proxy that has not been freed is in the list of its channel or in the
hand of its subscribe (`ProxyLedger`).
-/

set_option autoImplicit false

namespace Miez.Proofs.MessageBroker

open Miez.Lib
open Miez.MessageBroker
open Miez.ThreadPool (Tid)

section
variable {n : Nat} {capacity : UInt64} {hcap : capacity ≠ 0}

/-! ### The channels in the table -/

/-- The channels that the buckets of the table lead to. -/
def tableChannels (table : GenericHashTable CString Nat) : Multiset Nat :=
  ∑ i ∈ Finset.range table.capacity.toNat,
    (((table.buckets (UInt64.ofNat i)).map Prod.snd : List Nat) : Multiset Nat)

/-- The bucket of a name is one of the buckets. -/
theorem bucketIndex_lt (table : GenericHashTable CString Nat) (name : CString) :
    (table.bucketIndex name).toNat < table.capacity.toNat := by
  have hpos : 0 < table.capacity.toNat := by
    rw [Nat.pos_iff_ne_zero]
    intro hzero
    exact table.capacity_ne_zero (UInt64.toNat_inj.mp hzero)
  rw [GenericHashTable.bucketIndex, UInt64.toNat_mod]
  exact Nat.mod_lt _ hpos

/-- An insert adds its channel. -/
theorem tableChannels_insert (table : GenericHashTable CString Nat) (name : CString) (ch : Nat) :
    tableChannels (table.insert name ch) = ch ::ₘ tableChannels table := by
  have hmem : (table.bucketIndex name).toNat ∈ Finset.range table.capacity.toNat :=
    Finset.mem_range.mpr (bucketIndex_lt table name)
  have hothers : ∀ i ∈ (Finset.range table.capacity.toNat).erase (table.bucketIndex name).toNat,
      ((((table.insert name ch).buckets (UInt64.ofNat i)).map Prod.snd : List Nat) :
        Multiset Nat) = (((table.buckets (UInt64.ofNat i)).map Prod.snd : List Nat) :
          Multiset Nat) := by
    intro i hi
    have hlt : i < table.capacity.toNat := Finset.mem_range.mp (Finset.mem_of_mem_erase hi)
    have hne : UInt64.ofNat i ≠ table.bucketIndex name := by
      intro heq
      refine Finset.ne_of_mem_erase hi ?_
      rw [← heq, UInt64.toNat_ofNat_of_lt' (hlt.trans (UInt64.toNat_lt _))]
    have hbucket : (table.insert name ch).buckets (UInt64.ofNat i) =
        table.buckets (UInt64.ofNat i) := Function.update_of_ne hne _ _
    rw [hbucket]
  have hself : (((table.insert name ch).buckets (UInt64.ofNat (table.bucketIndex name).toNat)).map
      Prod.snd : List Nat) = ch :: (table.buckets (table.bucketIndex name)).map Prod.snd := by
    have hbucket : (table.insert name ch).buckets (table.bucketIndex name) =
        (name, ch) :: table.buckets (table.bucketIndex name) := Function.update_self _ _ _
    rw [UInt64.ofNat_toNat, hbucket, List.map_cons]
  have hcapacity : (table.insert name ch).capacity = table.capacity := rfl
  rw [tableChannels, tableChannels, hcapacity, ← Finset.add_sum_erase _ _ hmem,
    ← Finset.add_sum_erase _ (fun i => (((table.buckets (UInt64.ofNat i)).map Prod.snd :
      List Nat) : Multiset Nat)) hmem, Finset.sum_congr rfl hothers, hself, UInt64.ofNat_toNat,
    ← Multiset.cons_coe, Multiset.cons_add]

/-- A channel that a lookup finds is in the table. -/
theorem mem_tableChannels_of_get {table : GenericHashTable CString Nat} {name : CString} {ch : Nat}
    (h : table.get name = some ch) : ch ∈ tableChannels table := by
  obtain ⟨pair, hfind, rfl⟩ := Option.map_eq_some_iff.mp h
  refine Multiset.mem_sum.mpr ⟨(table.bucketIndex name).toNat,
    Finset.mem_range.mpr (bucketIndex_lt table name), ?_⟩
  rw [UInt64.ofNat_toNat]
  exact Multiset.mem_coe.mpr (List.mem_map_of_mem (List.mem_of_find?_eq_some hfind))

/-! ### What a step does to the channel objects -/

/-- The channel that a get-or-create has made and has not put into the table. -/
def handChannel : GetChannelPc → Option Nat
  | .insert ch | .freeUnlock ch | .unlockFree ch | .free ch => some ch
  | _ => none

/-- The channel that a thread has in hand. -/
def inHand (pc : Pc) : Option Nat := (getting pc).bind fun r => handChannel r.2

/-- What a step of a thread does to the channel objects and to the table. -/
inductive ChannelStep (sh : Shared n) (pc : Pc) (sh' : Shared n) (pc' : Pc) : Prop where
  | new (name : CString) (hpc : inHand pc = none) (hsh : sh' = sh.newChannel name)
      (hpc' : inHand pc' = some sh.nextChannel) (hfound : channelOf pc' = none)
  | insert (name : CString) (ch : Nat) (hpc : inHand pc = some ch)
      (hsh : sh' = { sh with channels := sh.channels.insert name ch })
      (hpc' : inHand pc' = none) (hfound : channelOf pc' = some (name, ch))
  | release (ch : Nat) (hpc : inHand pc = some ch)
      (hsh : sh' = sh.setChannel ch { sh.channel ch with released := true })
      (hpc' : inHand pc' = none) (hfound : channelOf pc' = none)
  | other (htable : sh'.channels = sh.channels) (hnext : sh'.nextChannel = sh.nextChannel)
      (hreleased : ∀ ch, (sh'.channel ch).released = (sh.channel ch).released)
      (hlisted : ∀ ch x, x ∈ (sh'.channel ch).subscriberProxies →
        x ∈ (sh.channel ch).subscriberProxies ∨ ∃ name, channelOf pc = some (name, ch))
      (hhand : inHand pc' = inHand pc)
      (hfound : ∀ name ch, channelOf pc' = some (name, ch) →
        channelOf pc = some (name, ch) ∨ sh.channels.get name = some ch)

section
variable {t : Tid n} {sh sh' : Shared n} {pc pc' : Pc} {e : Option (Event n)}

/-- A step that leaves the channel objects and the table alone. -/
theorem channelStep_of_same (htable : sh'.channels = sh.channels)
    (hchannel : sh'.channel = sh.channel) (hnext : sh'.nextChannel = sh.nextChannel)
    (hhand : inHand pc' = inHand pc) (hfound : ∀ name ch, channelOf pc' = some (name, ch) →
      channelOf pc = some (name, ch) ∨ sh.channels.get name = some ch) :
    ChannelStep sh pc sh' pc' := by
  refine .other htable hnext (fun ch => by rw [hchannel]) (fun ch x hx => Or.inl ?_) hhand hfound
  rwa [hchannel] at hx

/-- A step that writes to a channel object and does not release it. -/
theorem channelStep_of_setChannel {ch : Nat} {c : Channel n}
    (hreleased : c.released = (sh.channel ch).released)
    (hlisted : ∀ x ∈ c.subscriberProxies, x ∈ (sh.channel ch).subscriberProxies ∨
      ∃ name, channelOf pc = some (name, ch))
    (hhand : inHand pc' = inHand pc) (hfound : ∀ name ch, channelOf pc' = some (name, ch) →
      channelOf pc = some (name, ch) ∨ sh.channels.get name = some ch) :
    ChannelStep sh pc (sh.setChannel ch c) pc' := by
  refine .other rfl rfl (fun ch' => ?_) (fun ch' x hx => ?_) hhand hfound
  · rw [setChannel_channel]
    split_ifs with hch
    · rw [hch, hreleased]
    · rfl
  · rw [setChannel_channel] at hx
    split_ifs at hx with hch
    · rw [hch]
      exact hlisted x hx
    · exact Or.inl hx

/-- A step of a get-or-create that is done by a thread at `pc`. -/
theorem getChannel_channelStep {name : CString} {freeFirst : Bool} {g : GetChannelPc}
    {move : Move n} {r : GetChannelResult}
    (h : getChannel t name freeFirst sh g move = some (sh', r)) (hnode : move ≠ .failNode)
    (hpc : inHand pc = handChannel g) (hold : channelOf pc = (getChannelFound g).map (name, ·))
    (hmore : ∀ g', r = .more g' → inHand pc' = handChannel g' ∧
      channelOf pc' = (getChannelFound g').map (name, ·))
    (hfound : ∀ ch, r = .found ch → inHand pc' = none ∧ channelOf pc' = some (name, ch))
    (hfailed : r = .failed → inHand pc' = none ∧ channelOf pc' = none) (hfault : r ≠ .fault) :
    ChannelStep sh pc sh' pc' := by
  -- the steps that go on and leave the channel objects and the table alone
  have hstay : ∀ g', r = .more g' → sh'.channels = sh.channels → sh'.channel = sh.channel →
      sh'.nextChannel = sh.nextChannel → handChannel g' = handChannel g →
      (∀ ch, getChannelFound g' = some ch → sh.channels.get name = some ch) →
      ChannelStep sh pc sh' pc' := by
    intro g' hr htable hchannel hnext hhand hget
    obtain ⟨hhand', hfound'⟩ := hmore g' hr
    refine channelStep_of_same htable hchannel hnext (by rw [hhand', hpc, hhand]) ?_
    intro name' ch hch
    rw [hfound'] at hch
    obtain ⟨ch', hch', heq⟩ := Option.map_eq_some_iff.mp hch
    obtain ⟨rfl, rfl⟩ := Prod.mk.inj heq
    exact Or.inr (hget ch' hch')
  cases g with
  | lock =>
      cases move <;> simp only [getChannel] at h <;> try cases h
      simp only [Shared.lockChannels, Option.map_map, Option.map_eq_some_iff] at h
      obtain ⟨m, -, heq⟩ := h
      obtain ⟨rfl, rfl⟩ := Prod.mk.inj heq
      exact hstay .get rfl rfl rfl rfl rfl fun ch hch => (by cases hch)
  | get =>
      cases move <;> simp only [getChannel, Option.ite_none_left_eq_some, Option.some.injEq,
        Prod.mk.injEq, reduceCtorEq] at h
      · obtain ⟨-, rfl, rfl⟩ := h
        refine hstay _ rfl rfl rfl rfl ?_ ?_
        · cases sh.channels.get name <;> rfl
        · intro ch hch
          cases hget : sh.channels.get name with
          | none => rw [hget] at hch; cases hch
          | some ch' => rw [hget] at hch; exact hch
      · obtain ⟨-, rfl, rfl⟩ := h
        exact hstay .new rfl rfl rfl rfl rfl fun ch hch => (by cases hch)
  | new =>
      cases move <;> simp only [getChannel] at h <;> try cases h
      · obtain ⟨hhand, hfound'⟩ := hmore _ rfl
        exact .new name hpc rfl hhand hfound'
      · exact hstay .unlockFailed rfl rfl rfl rfl rfl fun ch hch => (by cases hch)
  | insert ch =>
      cases move with
      | go =>
          simp only [getChannel, Option.ite_none_left_eq_some, Option.some.injEq,
            Prod.mk.injEq] at h
          obtain ⟨-, rfl, rfl⟩ := h
          obtain ⟨hhand, hfound'⟩ := hmore _ rfl
          exact .insert name ch hpc rfl hhand hfound'
      | fail =>
          obtain ⟨rfl, rfl⟩ := Prod.mk.inj (Option.some.inj h)
          refine hstay _ rfl rfl rfl rfl (by cases freeFirst <;> rfl) ?_
          intro ch' hch
          cases freeFirst <;> cases hch
      | failNode => exact absurd rfl hnode
      | _ => cases h
  | unlock ch =>
      cases move <;> simp only [getChannel] at h <;> try cases h
      obtain ⟨hhand, hfound'⟩ := hfound ch rfl
      refine channelStep_of_same rfl rfl rfl (hhand.trans hpc.symm) fun name' ch' hch => Or.inl ?_
      rw [hold, ← hch, hfound']
      rfl
  | freeUnlock ch =>
      cases move <;> simp only [getChannel] at h <;> try cases h
      split_ifs at h with hreleased
      · exact absurd (Prod.mk.inj (Option.some.inj h)).2.symm hfault
      · obtain ⟨rfl, rfl⟩ := Prod.mk.inj (Option.some.inj h)
        obtain ⟨hhand, hfound'⟩ := hmore _ rfl
        exact .release ch hpc rfl hhand hfound'
  | unlockFree ch =>
      cases move <;> simp only [getChannel] at h <;> try cases h
      exact hstay (.free ch) rfl rfl rfl rfl rfl fun ch' hch => (by cases hch)
  | free ch =>
      cases move <;> simp only [getChannel] at h <;> try cases h
      split_ifs at h with hreleased
      · exact absurd (Prod.mk.inj (Option.some.inj h)).2.symm hfault
      · obtain ⟨rfl, rfl⟩ := Prod.mk.inj (Option.some.inj h)
        obtain ⟨hhand, hfound'⟩ := hfailed rfl
        exact .release ch hpc rfl hhand hfound'
  | unlockFailed =>
      cases move <;> simp only [getChannel] at h <;> try cases h
      obtain ⟨hhand, hfound'⟩ := hfailed rfl
      refine channelStep_of_same rfl rfl rfl (hhand.trans hpc.symm) fun name' ch' hch => ?_
      rw [hfound'] at hch
      cases hch

/-- A step of a thread does to the channel objects what `ChannelStep` says, unless a list node of
the table could not be allocated. -/
theorem threadFunction_channelStep {move : Move n}
    (h : threadFunction t sh pc move = some (.step sh' pc' e)) (hnode : move ≠ .failNode) :
    ChannelStep sh pc sh' pc' := by
  cases hg : getting pc with
  | some g =>
      cases pc with
      | publisherTask arg p =>
          cases p with
          | getChannel g =>
              simp only [threadFunction, publisherTask, Option.map_eq_some_iff] at h
              obtain ⟨⟨sh₁, r⟩, hr, heq⟩ := h
              cases r with
              | more g' =>
                  obtain ⟨rfl, rfl, -⟩ := Outcome.step.inj heq
                  exact getChannel_channelStep hr hnode rfl rfl
                    (by rintro _ ⟨⟩; exact ⟨rfl, rfl⟩) (by rintro _ ⟨⟩) (by rintro ⟨⟩)
                    (by rintro ⟨⟩)
              | found ch =>
                  obtain ⟨rfl, rfl, -⟩ := Outcome.step.inj heq
                  exact getChannel_channelStep hr hnode rfl rfl (by rintro _ ⟨⟩)
                    (by rintro _ ⟨⟩; exact ⟨rfl, rfl⟩) (by rintro ⟨⟩) (by rintro ⟨⟩)
              | failed =>
                  obtain ⟨rfl, rfl, -⟩ := Outcome.step.inj heq
                  exact getChannel_channelStep hr hnode rfl rfl (by rintro _ ⟨⟩) (by rintro _ ⟨⟩)
                    (fun _ => ⟨rfl, rfl⟩) (by rintro ⟨⟩)
              | fault => cases heq
          | _ => cases hg
      | subscribe name id p =>
          cases p with
          | getChannel g =>
              simp only [threadFunction, messageBrokerSubscribe, Option.map_eq_some_iff] at h
              obtain ⟨⟨sh₁, r⟩, hr, heq⟩ := h
              cases r with
              | more g' =>
                  obtain ⟨rfl, rfl, -⟩ := Outcome.step.inj heq
                  exact getChannel_channelStep hr hnode rfl rfl
                    (by rintro _ ⟨⟩; exact ⟨rfl, rfl⟩) (by rintro _ ⟨⟩) (by rintro ⟨⟩)
                    (by rintro ⟨⟩)
              | found ch =>
                  obtain ⟨rfl, rfl, -⟩ := Outcome.step.inj heq
                  exact getChannel_channelStep hr hnode rfl rfl (by rintro _ ⟨⟩)
                    (by rintro _ ⟨⟩; exact ⟨rfl, rfl⟩) (by rintro ⟨⟩) (by rintro ⟨⟩)
              | failed =>
                  obtain ⟨rfl, rfl, -⟩ := Outcome.step.inj heq
                  exact getChannel_channelStep hr hnode rfl rfl (by rintro _ ⟨⟩) (by rintro _ ⟨⟩)
                    (fun _ => ⟨rfl, rfl⟩) (by rintro ⟨⟩)
              | fault => cases heq
          | _ => cases hg
      | _ => cases hg
  | none =>
      have hhand : inHand pc = none := by rw [inHand, hg]; rfl
      rcases threadFunction_cases h with hstep | ⟨hstep, -⟩
      · have hfound : ∀ name ch, channelOf pc' = some (name, ch) →
            channelOf pc = some (name, ch) ∨ sh.channels.get name = some ch := by
          intro name ch hch
          rcases hstep.channelOf hch with hold | hget | ⟨hins, -⟩
          · exact Or.inl hold
          · exact Or.inr hget
          · rw [hg] at hins
            cases hins
        cases hstep with
        | taskMore _ | taskFound _ | subscribeMore _ | subscribeFound _ => cases hg
        | fanout _ _ | taskUnlock _ | subscribeLock _ _ _ | subscribeUnlock _ _
        | unsubscribeLockChannel _ _ | unsubscribeUnlockChannel _ =>
            exact channelStep_of_setChannel (by rfl) (fun x hx => Or.inl hx) rfl hfound
        | insertLast ch x =>
            exact channelStep_of_setChannel (by rfl) (fun y _ => Or.inr ⟨_, rfl⟩) rfl hfound
        | unlink ch i =>
            exact channelStep_of_setChannel (by rfl)
              (fun x hx => Or.inl (List.mem_of_mem_eraseIdx hx)) rfl hfound
        | unsubscribeInactive hret | clearProxy hret =>
            rcases hret with ⟨rfl, -⟩ | ⟨rfl, -⟩ <;>
              exact channelStep_of_same rfl rfl rfl rfl hfound
        | receiveRead hret | receiveInbox _ _ _ _ hret =>
            rcases hret with ⟨r', rfl, -⟩ | ⟨rfl, -⟩ <;>
              exact channelStep_of_same rfl rfl rfl rfl hfound
        | pendingRead hret =>
            rcases hret with ⟨rfl, -⟩ | ⟨rfl, -⟩ <;>
              exact channelStep_of_same rfl rfl rfl rfl hfound
        | _ => exact channelStep_of_same rfl rfl rfl rfl hfound
      · have hfound : ∀ name ch, channelOf pc' = some (name, ch) →
            channelOf pc = some (name, ch) ∨ sh.channels.get name = some ch :=
          fun name ch hch => Or.inl (hstep.failNames.found _ hch)
        cases hstep with
        | taskMore _ | taskFailed _ | subscribeMore _ | subscribeFailed _ => cases hg
        | skip ch i x p hp =>
            rcases hp with rfl | rfl <;> exact channelStep_of_same rfl rfl rfl rfl hfound
        | unlockFailed ch x =>
            exact channelStep_of_setChannel (by rfl) (fun x hx => Or.inl hx) rfl hfound
        | _ => exact channelStep_of_same rfl rfl rfl rfl hfound

end

/-! ### The ledger of the channels -/

/-- Each channel that has not been freed is in the table once or in one hand, and what threads have
found, and the channels with proxies, are in the table. -/
structure ChannelLedger (s : State n) : Prop where
  table : ∀ ch ∈ tableChannels s.shared.channels,
    ch < s.shared.nextChannel ∧ (s.shared.channel ch).released = false
  nodup : (tableChannels s.shared.channels).Nodup
  hand : ∀ t ch, inHand (s.pc t) = some ch → ch < s.shared.nextChannel ∧
    (s.shared.channel ch).released = false ∧ ch ∉ tableChannels s.shared.channels
  handUnique : ∀ t t' ch, inHand (s.pc t) = some ch → inHand (s.pc t') = some ch → t = t'
  covered : ∀ ch, ch < s.shared.nextChannel → (s.shared.channel ch).released = false →
    ch ∈ tableChannels s.shared.channels ∨ ∃ t, inHand (s.pc t) = some ch
  found : ∀ t name ch, channelOf (s.pc t) = some (name, ch) →
    ch ∈ tableChannels s.shared.channels
  listed : ∀ ch x, x ∈ (s.shared.channel ch).subscriberProxies →
    ch ∈ tableChannels s.shared.channels

section
variable {s : State n} {t : Tid n} {pc : Pc}

/-- A new channel is in the hand of its thread. -/
theorem ChannelLedger.new (hinv : ChannelLedger s) (name : CString) (hpc : inHand (s.pc t) = none)
    (hpc' : inHand pc = some s.shared.nextChannel) (hfound : channelOf pc = none)
    (pool : ThreadPool.State n PublisherTaskArg) (faulted : Tid n → Bool) :
    ChannelLedger ⟨pool, s.shared.newChannel name, Function.update s.pc t pc, faulted⟩ := by
  have hold : ∀ ch, ch ≠ s.shared.nextChannel →
      (s.shared.newChannel name).channel ch = s.shared.channel ch :=
    fun ch hch => Function.update_of_ne hch _ _
  have hself : (s.shared.newChannel name).channel s.shared.nextChannel =
      ⟨name, [], none, false⟩ := Function.update_self _ _ _
  constructor
  · intro ch hch
    obtain ⟨hlt, hlive⟩ := hinv.table ch hch
    exact ⟨hlt.trans (Nat.lt_succ_self _), by rw [hold ch hlt.ne]; exact hlive⟩
  · exact hinv.nodup
  · refine forall_update (P := fun (_ : Tid n) (pc : Pc) => ∀ ch, inHand pc = some ch →
      ch < s.shared.nextChannel + 1 ∧
        ((s.shared.newChannel name).channel ch).released = false ∧
          ch ∉ tableChannels s.shared.channels) ?_ ?_
    · intro ch hch
      obtain rfl := Option.some.inj (hpc'.symm.trans hch)
      refine ⟨Nat.lt_succ_self _, by rw [hself], fun hmem => ?_⟩
      exact lt_irrefl _ (hinv.table _ hmem).1
    · intro t' _ ch hch
      obtain ⟨hlt, hlive, hnot⟩ := hinv.hand t' ch hch
      exact ⟨hlt.trans (Nat.lt_succ_self _), by rw [hold ch hlt.ne]; exact hlive, hnot⟩
  · intro t₁ t₂ ch h₁ h₂
    simp only [Function.update_apply] at h₁ h₂
    split_ifs at h₁ h₂ with ht₁ ht₂ ht₂
    · rw [ht₁, ht₂]
    · obtain rfl := Option.some.inj (hpc'.symm.trans h₁)
      exact absurd (hinv.hand t₂ _ h₂).1 (lt_irrefl _)
    · obtain rfl := Option.some.inj (hpc'.symm.trans h₂)
      exact absurd (hinv.hand t₁ _ h₁).1 (lt_irrefl _)
    · exact hinv.handUnique t₁ t₂ ch h₁ h₂
  · intro ch hlt hlive
    by_cases hch : ch = s.shared.nextChannel
    · refine Or.inr ⟨t, ?_⟩
      show inHand (Function.update s.pc t pc t) = some ch
      rw [Function.update_self, hpc', hch]
    · have hlt' : ch < s.shared.nextChannel := by
        have : ch < s.shared.nextChannel + 1 := hlt
        omega
      rw [hold ch hch] at hlive
      refine (hinv.covered ch hlt' hlive).imp_right ?_
      rintro ⟨t', ht'⟩
      refine ⟨t', ?_⟩
      show inHand (Function.update s.pc t pc t') = some ch
      rw [Function.update_of_ne fun heq => (by rw [heq, hpc] at ht'; cases ht')]
      exact ht'
  · refine forall_update (P := fun (_ : Tid n) (pc : Pc) => ∀ name ch,
      channelOf pc = some (name, ch) →
        ch ∈ tableChannels s.shared.channels) ?_ fun t' _ => hinv.found t'
    intro name' ch hch
    rw [hfound] at hch
    cases hch
  · intro ch x hx
    by_cases hch : ch = s.shared.nextChannel
    · rw [hch, hself] at hx
      cases hx
    · rw [hold ch hch] at hx
      exact hinv.listed ch x hx

/-- An insert moves the channel from the hand of its thread into the table. -/
theorem ChannelLedger.insert (hinv : ChannelLedger s) {name₀ : CString} {ch₀ : Nat}
    (hpc : inHand (s.pc t) = some ch₀) (hpc' : inHand pc = none)
    (hfound : channelOf pc = some (name₀, ch₀)) (pool : ThreadPool.State n PublisherTaskArg)
    (faulted : Tid n → Bool) :
    ChannelLedger ⟨pool, { s.shared with channels := s.shared.channels.insert name₀ ch₀ },
      Function.update s.pc t pc, faulted⟩ := by
  obtain ⟨hlt₀, hlive₀, hnot₀⟩ := hinv.hand t ch₀ hpc
  have htable : tableChannels (s.shared.channels.insert name₀ ch₀) =
      ch₀ ::ₘ tableChannels s.shared.channels := tableChannels_insert _ _ _
  constructor
  · intro ch hch
    rw [htable, Multiset.mem_cons] at hch
    rcases hch with rfl | hch
    · exact ⟨hlt₀, hlive₀⟩
    · exact hinv.table ch hch
  · rw [htable]
    exact Multiset.nodup_cons.mpr ⟨hnot₀, hinv.nodup⟩
  · refine forall_update (P := fun (_ : Tid n) (pc : Pc) => ∀ ch, inHand pc = some ch →
      ch < s.shared.nextChannel ∧ (s.shared.channel ch).released = false ∧
        ch ∉ tableChannels (s.shared.channels.insert name₀ ch₀)) ?_ ?_
    · intro ch hch
      rw [hpc'] at hch
      cases hch
    · intro t' ht' ch hch
      obtain ⟨hlt, hlive, hnot⟩ := hinv.hand t' ch hch
      refine ⟨hlt, hlive, ?_⟩
      rw [htable, Multiset.mem_cons, not_or]
      refine ⟨fun heq => ht' ?_, hnot⟩
      rw [heq] at hch
      exact hinv.handUnique t' t ch₀ hch hpc
  · intro t₁ t₂ ch h₁ h₂
    simp only [Function.update_apply] at h₁ h₂
    split_ifs at h₁ h₂ with ht₁ ht₂ ht₂
    · rw [ht₁, ht₂]
    · rw [hpc'] at h₁
      cases h₁
    · rw [hpc'] at h₂
      cases h₂
    · exact hinv.handUnique t₁ t₂ ch h₁ h₂
  · intro ch hlt hlive
    rw [htable]
    rcases hinv.covered ch hlt hlive with hmem | ⟨t', ht'⟩
    · exact Or.inl (Multiset.mem_cons_of_mem hmem)
    · by_cases heq : t' = t
      · rw [heq, hpc] at ht'
        obtain rfl := Option.some.inj ht'
        exact Or.inl (Multiset.mem_cons_self _ _)
      · refine Or.inr ⟨t', ?_⟩
        show inHand (Function.update s.pc t pc t') = some ch
        rw [Function.update_of_ne heq]
        exact ht'
  · refine forall_update (P := fun (_ : Tid n) (pc : Pc) => ∀ name ch,
      channelOf pc = some (name, ch) →
        ch ∈ tableChannels (s.shared.channels.insert name₀ ch₀)) ?_ ?_
    · intro name' ch hch
      obtain ⟨-, rfl⟩ := Prod.mk.inj (Option.some.inj (hfound.symm.trans hch))
      rw [htable]
      exact Multiset.mem_cons_self _ _
    · intro t' _ name' ch hch
      rw [htable]
      exact Multiset.mem_cons_of_mem (hinv.found t' name' ch hch)
  · intro ch x hx
    rw [htable]
    exact Multiset.mem_cons_of_mem (hinv.listed ch x hx)

/-- A channel that cannot be inserted is freed. -/
theorem ChannelLedger.release (hinv : ChannelLedger s) {ch₀ : Nat}
    (hpc : inHand (s.pc t) = some ch₀) (hpc' : inHand pc = none) (hfound : channelOf pc = none)
    (pool : ThreadPool.State n PublisherTaskArg) (faulted : Tid n → Bool) :
    ChannelLedger ⟨pool, s.shared.setChannel ch₀ { s.shared.channel ch₀ with released := true },
      Function.update s.pc t pc, faulted⟩ := by
  obtain ⟨hlt₀, hlive₀, hnot₀⟩ := hinv.hand t ch₀ hpc
  have hold : ∀ ch, ch ≠ ch₀ → (s.shared.setChannel ch₀
      { s.shared.channel ch₀ with released := true }).channel ch = s.shared.channel ch :=
    fun ch hch => Function.update_of_ne hch _ _
  have hself : (s.shared.setChannel ch₀
      { s.shared.channel ch₀ with released := true }).channel ch₀ =
        { s.shared.channel ch₀ with released := true } := Function.update_self _ _ _
  constructor
  · intro ch hch
    obtain ⟨hlt, hlive⟩ := hinv.table ch hch
    refine ⟨hlt, ?_⟩
    rw [hold ch fun heq => hnot₀ (heq ▸ hch)]
    exact hlive
  · exact hinv.nodup
  · refine forall_update (P := fun (_ : Tid n) (pc : Pc) => ∀ ch, inHand pc = some ch →
      ch < s.shared.nextChannel ∧ ((s.shared.setChannel ch₀
        { s.shared.channel ch₀ with released := true }).channel ch).released = false ∧
          ch ∉ tableChannels s.shared.channels) ?_ ?_
    · intro ch hch
      rw [hpc'] at hch
      cases hch
    · intro t' ht' ch hch
      obtain ⟨hlt, hlive, hnot⟩ := hinv.hand t' ch hch
      refine ⟨hlt, ?_, hnot⟩
      rw [hold ch fun heq => ht' (hinv.handUnique t' t ch₀ (heq ▸ hch) hpc)]
      exact hlive
  · intro t₁ t₂ ch h₁ h₂
    simp only [Function.update_apply] at h₁ h₂
    split_ifs at h₁ h₂ with ht₁ ht₂ ht₂
    · rw [ht₁, ht₂]
    · rw [hpc'] at h₁
      cases h₁
    · rw [hpc'] at h₂
      cases h₂
    · exact hinv.handUnique t₁ t₂ ch h₁ h₂
  · intro ch hlt hlive
    have hch : ch ≠ ch₀ := by
      rintro rfl
      rw [hself] at hlive
      cases hlive
    rw [hold ch hch] at hlive
    refine (hinv.covered ch hlt hlive).imp_right ?_
    rintro ⟨t', ht'⟩
    refine ⟨t', ?_⟩
    show inHand (Function.update s.pc t pc t') = some ch
    rw [Function.update_of_ne]
    · exact ht'
    · rintro rfl
      exact hch (Option.some.inj (ht'.symm.trans hpc))
  · refine forall_update (P := fun (_ : Tid n) (pc : Pc) => ∀ name ch,
      channelOf pc = some (name, ch) →
        ch ∈ tableChannels s.shared.channels) ?_ fun t' _ => hinv.found t'
    intro name' ch hch
    rw [hfound] at hch
    cases hch
  · intro ch x hx
    by_cases hch : ch = ch₀
    · rw [hch, hself] at hx
      rw [hch]
      exact hinv.listed ch₀ x hx
    · rw [hold ch hch] at hx
      exact hinv.listed ch x hx

/-- A step that makes, inserts and frees no channel. -/
theorem ChannelLedger.frame (hinv : ChannelLedger s) {sh : Shared n}
    (htable : sh.channels = s.shared.channels) (hnext : sh.nextChannel = s.shared.nextChannel)
    (hreleased : ∀ ch, (sh.channel ch).released = (s.shared.channel ch).released)
    (hlisted : ∀ ch x, x ∈ (sh.channel ch).subscriberProxies →
      x ∈ (s.shared.channel ch).subscriberProxies ∨ ∃ name, channelOf (s.pc t) = some (name, ch))
    (hhand : inHand pc = inHand (s.pc t))
    (hfound : ∀ name ch, channelOf pc = some (name, ch) →
      channelOf (s.pc t) = some (name, ch) ∨ s.shared.channels.get name = some ch)
    (pool : ThreadPool.State n PublisherTaskArg) (faulted : Tid n → Bool) :
    ChannelLedger ⟨pool, sh, Function.update s.pc t pc, faulted⟩ := by
  have hhands : ∀ t', inHand (Function.update s.pc t pc t') = inHand (s.pc t') := by
    refine forall_update (P := fun (t' : Tid n) (pc : Pc) => inHand pc = inHand (s.pc t'))
      hhand fun _ _ => rfl
  constructor
  · intro ch hch
    rw [show (_ : State n).shared.channels = s.shared.channels from htable] at hch
    obtain ⟨hlt, hlive⟩ := hinv.table ch hch
    exact ⟨hnext ▸ hlt, (hreleased ch).trans hlive⟩
  · show (tableChannels sh.channels).Nodup
    rw [htable]
    exact hinv.nodup
  · intro t' ch hch
    obtain ⟨hlt, hlive, hnot⟩ := hinv.hand t' ch ((hhands t').symm.trans hch)
    refine ⟨hnext ▸ hlt, (hreleased ch).trans hlive, ?_⟩
    show ch ∉ tableChannels sh.channels
    rw [htable]
    exact hnot
  · intro t₁ t₂ ch h₁ h₂
    exact hinv.handUnique t₁ t₂ ch ((hhands t₁).symm.trans h₁) ((hhands t₂).symm.trans h₂)
  · intro ch hlt hlive
    show ch ∈ tableChannels sh.channels ∨ ∃ t', inHand (Function.update s.pc t pc t') = some ch
    rw [htable]
    simp only [hhands]
    exact hinv.covered ch (hnext ▸ hlt) ((hreleased ch).symm.trans hlive)
  · show ∀ t' name ch, channelOf (Function.update s.pc t pc t') = some (name, ch) →
      ch ∈ tableChannels sh.channels
    rw [htable]
    refine forall_update (P := fun (_ : Tid n) (pc : Pc) => ∀ name ch,
      channelOf pc = some (name, ch) →
        ch ∈ tableChannels s.shared.channels) ?_ fun t' _ => hinv.found t'
    intro name ch hch
    rcases hfound name ch hch with hold | hget
    · exact hinv.found t name ch hold
    · exact mem_tableChannels_of_get hget
  · intro ch x hx
    show ch ∈ tableChannels sh.channels
    rw [htable]
    rcases hlisted ch x hx with hold | ⟨name, hname⟩
    · exact hinv.listed ch x hold
    · exact hinv.found t name ch hname

end

/-- A step of one thread keeps the ledger. -/
theorem ChannelStep.ledger {s : State n} (hinv : ChannelLedger s) {t : Tid n} {sh : Shared n}
    {pc : Pc} (h : ChannelStep s.shared (s.pc t) sh pc) (pool : ThreadPool.State n PublisherTaskArg)
    (faulted : Tid n → Bool) : ChannelLedger ⟨pool, sh, Function.update s.pc t pc, faulted⟩ := by
  cases h with
  | new name hpc hsh hpc' hfound =>
      rw [hsh]
      exact hinv.new name hpc hpc' hfound pool faulted
  | insert name ch hpc hsh hpc' hfound =>
      rw [hsh]
      exact hinv.insert hpc hpc' hfound pool faulted
  | release ch hpc hsh hpc' hfound =>
      rw [hsh]
      exact hinv.release hpc hpc' hfound pool faulted
  | other htable hnext hreleased hlisted hhand hfound =>
      exact hinv.frame htable hnext hreleased hlisted hhand hfound pool faulted

/-- A step of the pool keeps the ledger. -/
theorem ChannelLedger.pool {s : State n} (hinv : ChannelLedger s) {t : Tid n} {pc : Pc}
    (hold : inCall (s.pc t) = true) (hnew : inCall pc = true)
    (pool : ThreadPool.State n PublisherTaskArg) (faulted : Tid n → Bool) :
    ChannelLedger ⟨pool, s.shared, Function.update s.pc t pc, faulted⟩ := by
  have hnone : ∀ {pc : Pc}, inCall pc = true → inHand pc = none ∧ channelOf pc = none := by
    intro pc hpc
    rcases inCall_cases hpc with rfl | ⟨arg, rfl⟩ | rfl | ⟨arg, rfl⟩ <;> exact ⟨rfl, rfl⟩
  have hstep : ChannelStep s.shared (s.pc t) s.shared pc :=
    channelStep_of_same rfl rfl rfl ((hnone hnew).1.trans (hnone hold).1.symm)
      fun name ch hch => (by rw [(hnone hnew).2] at hch; cases hch)
  exact hstep.ledger hinv pool faulted

/-- A step of the broker keeps the ledger, unless a list node of the table could not be
allocated. -/
theorem ChannelLedger.next {s s' : State n} (hinv : ChannelLedger s) {a : Action n}
    {e : Option (Event n)} (h : MessageBroker.next s a = some (s', e))
    (hnode : ∀ t, a ≠ .thread t .failNode) : ChannelLedger s' := by
  rcases next_cases h with ⟨b, pool, t, pc, e', -, -, rfl, hold, hnew, rfl⟩ |
      ⟨t, move, sh, pc, rfl, hf, rfl⟩ | ⟨t, rfl, rfl⟩
  · exact hinv.pool hold hnew pool s.faulted
  · refine (threadFunction_channelStep hf ?_).ledger hinv s.pool s.faulted
    rintro rfl
    exact hnode t rfl
  · exact ⟨hinv.table, hinv.nodup, hinv.hand, hinv.handUnique, hinv.covered, hinv.found,
      hinv.listed⟩

/-! ### The ledger of the proxies -/

/-- What a step of a thread does to the proxy objects. -/
structure ProxyObjects (sh : Shared n) (pc : Pc) (sh' : Shared n) (pc' : Pc) : Prop where
  released : ∀ x, x < sh.nextProxy → (sh.proxy x).released = true →
    (sh'.proxy x).released = true
  next : sh'.nextProxy = sh.nextProxy ∨
    (sh'.nextProxy = sh.nextProxy + 1 ∧ outsideProxy pc' = some sh.nextProxy)
  outside : ∀ x, outsideProxy pc = some x → outsideProxy pc' = some x ∨
    (∃ ch, x ∈ (sh'.channel ch).subscriberProxies) ∨ (sh'.proxy x).released = true
  unlinking : ∀ ch i, unlinking pc' = some (ch, i) → ∃ x, position pc = some (ch, i, x) ∧
    sh'.channel = sh.channel ∧ (sh'.proxy x).released = true

section
variable {t : Tid n} {sh sh' : Shared n} {pc pc' : Pc} {e : Option (Event n)}

/-- A step that writes to no field `released` and makes no proxy. -/
theorem proxyObjects_of_same (hnext : sh'.nextProxy = sh.nextProxy)
    (hreleased : ∀ x, (sh'.proxy x).released = (sh.proxy x).released)
    (houtside : ∀ x, outsideProxy pc = some x → outsideProxy pc' = some x ∨
      ∃ ch, x ∈ (sh'.channel ch).subscriberProxies)
    (hunlinking : unlinking pc' = none) : ProxyObjects sh pc sh' pc' := by
  refine ⟨fun x _ hx => (hreleased x).trans hx, Or.inl hnext, ?_, ?_⟩
  · intro x hx
    exact (houtside x hx).imp_right Or.inl
  · intro ch i hi
    rw [hunlinking] at hi
    cases hi

/-- A write to the other fields of a proxy. -/
theorem setProxy_same_released {x : Nat} {p : SubscriberProxy n}
    (hp : p.released = (sh.proxy x).released) (y : Nat) :
    ((sh.setProxy x p).proxy y).released = (sh.proxy y).released := by
  rw [setProxy_proxy]
  split_ifs with hy
  · rw [hy, hp]
  · rfl

/-- A step without a failing allocation. -/
theorem ThreadStep.proxyObjects (h : ThreadStep t sh pc sh' pc' e) : ProxyObjects sh pc sh' pc' := by
  have hnone : ∀ x : Nat, none = some x → outsideProxy pc' = some x ∨
      ∃ ch, x ∈ (sh'.channel ch).subscriberProxies := fun x hx => (by cases hx)
  cases h with
  | taskMore hg | taskFound hg | subscribeMore hg | subscribeFound hg =>
      exact proxyObjects_of_same (by cases hg <;> rfl) (fun x => by rw [hg.proxy.1]) hnone rfl
  | put ch i x | taskLockInbox ch i x hfree | taskSignal ch i x waiting | taskUnlockInbox ch i x
  | freeDeactivate ch i x =>
      exact proxyObjects_of_same rfl (setProxy_same_released (by rfl)) hnone rfl
  | deactivate x hx => exact proxyObjects_of_same rfl (setProxy_same_released (by rfl)) hnone rfl
  | got x => exact proxyObjects_of_same rfl (setProxy_same_released (by rfl)) hnone rfl
  | unsubscribeInbox x p u u' hp hinbox hu =>
      rcases hu with ⟨rfl, rfl⟩ | ⟨rfl, rfl⟩ | ⟨rfl, rfl⟩ <;>
        exact proxyObjects_of_same rfl (setProxy_same_released hp.released) hnone rfl
  | freeInbox ch i x p f f' hp hinbox hf =>
      exact proxyObjects_of_same rfl (setProxy_same_released hp.released) hnone rfl
  | freeRelease ch i x =>
      refine ⟨?_, Or.inl rfl, fun y hy => (by cases hy), ?_⟩
      · intro y _ hy
        rw [setProxy_proxy]
        split_ifs
        · rfl
        · exact hy
      · intro ch' i' hi
        obtain ⟨rfl, rfl⟩ := Prod.mk.inj (Option.some.inj hi)
        exact ⟨x, rfl, rfl, by rw [setProxy_proxy, if_pos rfl]⟩
  | newProxy ch =>
      refine ⟨?_, Or.inr ⟨rfl, rfl⟩, fun y hy => (by cases hy), fun _ _ hi => (by cases hi)⟩
      intro x hlt hx
      rw [show (sh.newProxy _ ch).proxy x = _ from setProxy_proxy _ _ _ _, if_neg hlt.ne]
      exact hx
  | insertLast ch x =>
      refine proxyObjects_of_same rfl (fun _ => rfl) ?_ rfl
      intro y hy
      obtain rfl : x = y := Option.some.inj hy
      refine Or.inr ⟨ch, ?_⟩
      rw [setChannel_channel, if_pos rfl]
      exact List.mem_append_right _ (List.mem_singleton_self x)
  | subscribeLock ch x hfree =>
      exact proxyObjects_of_same rfl (fun _ => rfl) (fun y hy => Or.inl hy) rfl
  | unsubscribeTest u u' hu =>
      rcases hu with ⟨rfl, rfl⟩ | ⟨rfl, rfl | rfl⟩ <;>
        exact proxyObjects_of_same rfl (fun _ => rfl) hnone rfl
  | unsubscribeInactive hret | clearProxy hret =>
      rcases hret with ⟨rfl, -⟩ | ⟨rfl, -⟩ <;>
        exact proxyObjects_of_same rfl (fun _ => rfl) (fun _ hx => (by cases hx)) rfl
  | receiveRead hret =>
      rcases hret with ⟨r', rfl, -⟩ | ⟨rfl, -⟩ <;>
        exact proxyObjects_of_same rfl (fun _ => rfl) (fun _ hx => (by cases hx)) rfl
  | receiveInbox x p hp hinbox hret =>
      rcases hret with ⟨r', rfl, -⟩ | ⟨rfl, -⟩ <;>
        exact proxyObjects_of_same rfl (setProxy_same_released hp.released)
          (fun _ hx => (by cases hx)) rfl
  | pendingRead hret =>
      rcases hret with ⟨rfl, -⟩ | ⟨rfl, -⟩ <;>
        exact proxyObjects_of_same rfl (fun _ => rfl) (fun _ hx => (by cases hx)) rfl
  | _ => exact proxyObjects_of_same rfl (fun _ => rfl) (fun _ hx => (by cases hx)) rfl

/-- A step of a failing call. -/
theorem FailStep.proxyObjects (h : FailStep t sh pc sh' pc' e) : ProxyObjects sh pc sh' pc' := by
  cases h with
  | taskMore hg | taskFailed hg | subscribeMore hg | subscribeFailed hg =>
      exact proxyObjects_of_same (by cases hg <;> rfl) (fun x => by rw [hg.proxy.1])
        (fun _ hx => (by cases hx)) rfl
  | insertLast ch x | unlockFailed ch x =>
      exact proxyObjects_of_same rfl (fun _ => rfl) (fun y hy => Or.inl hy) rfl
  | freeDeactivate x =>
      exact proxyObjects_of_same rfl (setProxy_same_released (by rfl)) (fun y hy => Or.inl hy) rfl
  | freeInbox x p f f' hp hinbox hf =>
      exact proxyObjects_of_same rfl (setProxy_same_released hp.released) (fun y hy => Or.inl hy) rfl
  | freeRelease x =>
      refine ⟨?_, Or.inl rfl, ?_, fun _ _ hi => (by cases hi)⟩
      · intro y _ hy
        rw [setProxy_proxy]
        split_ifs
        · rfl
        · exact hy
      · intro y hy
        obtain rfl : x = y := Option.some.inj hy
        exact Or.inr (Or.inr (by rw [setProxy_proxy, if_pos rfl]))
  | _ => exact proxyObjects_of_same rfl (fun _ => rfl) (fun _ hx => (by cases hx)) rfl

/-- A step of a thread inside a broker function. -/
theorem threadFunction_proxyObjects {move : Move n}
    (h : threadFunction t sh pc move = some (.step sh' pc' e)) : ProxyObjects sh pc sh' pc' := by
  rcases threadFunction_cases h with hstep | ⟨hstep, -⟩
  · exact hstep.proxyObjects
  · exact hstep.proxyObjects

end

/-- Each proxy that has not been freed is in a list or in the hand of its subscribe, and a thread
that unlinks a proxy has freed it. -/
structure ProxyLedger (s : State n) : Prop where
  covered : ∀ x, x < s.shared.nextProxy → (s.shared.proxy x).released = false →
    (∃ ch, x ∈ (s.shared.channel ch).subscriberProxies) ∨ ∃ t, outsideProxy (s.pc t) = some x
  unlinked : ∀ t ch i, unlinking (s.pc t) = some (ch, i) → ∃ x,
    (s.shared.channel ch).subscriberProxies[i]? = some x ∧ (s.shared.proxy x).released = true

section
variable {tr : List (Event n)} {s : State n} {t : Tid n} {move : Move n} {sh : Shared n} {pc : Pc}
  {e : Option (Event n)}

/-- The lists are those of `ListChange` in a run. -/
theorem NameInv.listChange (hname : NameInv tr s)
    (h : threadFunction t s.shared (s.pc t) move = some (.step sh pc e)) :
    ListChange s.shared (s.pc t) sh pc := by
  refine threadFunction_listChange h ?_
  rw [List.eq_nil_iff_forall_not_mem]
  exact fun x hx => lt_irrefl _ (hname.listed _ x hx)

/-- After a step of a thread each proxy that has not been freed is in a list or in a hand. -/
theorem ProxyLedger.thread_covered (hinv : ProxyLedger s) (hname : NameInv tr s)
    (h : threadFunction t s.shared (s.pc t) move = some (.step sh pc e)) (x : Nat)
    (hlt : x < sh.nextProxy) (hlive : (sh.proxy x).released = false) :
    (∃ ch, x ∈ (sh.channel ch).subscriberProxies) ∨
      ∃ t', outsideProxy (Function.update s.pc t pc t') = some x := by
  have hproxy := threadFunction_proxyObjects h
  by_cases hnew : x < s.shared.nextProxy
  swap
  · -- the proxy is new, and the thread has it in hand
    rcases hproxy.next with hsame | ⟨hsucc, hhand⟩
    · omega
    · have hx : x = s.shared.nextProxy := by omega
      refine Or.inr ⟨t, ?_⟩
      rw [Function.update_self, hhand, hx]
  have hlive' : (s.shared.proxy x).released = false := by
    cases hx : (s.shared.proxy x).released with
    | false => rfl
    | true =>
        rw [hproxy.released x hnew hx] at hlive
        cases hlive
  rcases hinv.covered x hnew hlive' with ⟨ch, hx⟩ | ⟨t', ht'⟩
  · left
    cases hname.listChange h with
    | same hlists hpc =>
        refine ⟨ch, ?_⟩
        rw [hlists]
        exact hx
    | insertLast name id ch₀ y hpc hpc' hsh =>
        refine ⟨ch, ?_⟩
        rw [hsh, setChannel_channel]
        split_ifs with hch
        · rw [hch] at hx
          exact List.mem_append_left _ hx
        · exact hx
    | unlink k thenFree ch₀ i hpc hpc' hsh =>
        refine ⟨ch, ?_⟩
        rw [hsh, setChannel_channel]
        split_ifs with hch
        · -- the proxy that goes is another one, since it has been freed
          rw [hch] at hx
          obtain ⟨y, hy, hyreleased⟩ := hinv.unlinked t ch₀ i (by rw [hpc]; rfl)
          obtain ⟨j, hj⟩ := List.mem_iff_getElem?.mp hx
          refine List.mem_eraseIdx_iff_getElem?.mpr ⟨j, ?_, hj⟩
          rintro rfl
          obtain rfl := Option.some.inj (hj.symm.trans hy)
          rw [hlive'] at hyreleased
          cases hyreleased
        · exact hx
  · by_cases heq : t' = t
    · rw [heq] at ht'
      rcases hproxy.outside x ht' with hhand | hin | hfreed
      · refine Or.inr ⟨t, ?_⟩
        rw [Function.update_self, hhand]
      · exact Or.inl hin
      · rw [hfreed] at hlive
        cases hlive
    · refine Or.inr ⟨t', ?_⟩
      rw [Function.update_of_ne heq, ht']

/-- After a step of a thread the proxies that are about to be unlinked have been freed. -/
theorem ProxyLedger.thread_unlinked (hinv : ProxyLedger s) (hname : NameInv tr s)
    (hreleased : ReleasedInv s) (hchannel : ChannelInv s)
    (h : threadFunction t s.shared (s.pc t) move = some (.step sh pc e)) :
    ∀ t' ch i, unlinking (Function.update s.pc t pc t') = some (ch, i) →
      ∃ x, (sh.channel ch).subscriberProxies[i]? = some x ∧ (sh.proxy x).released = true := by
  have hproxy := threadFunction_proxyObjects h
  refine forall_update (P := fun (_ : Tid n) (pc : Pc) => ∀ ch i, unlinking pc = some (ch, i) →
    ∃ x, (sh.channel ch).subscriberProxies[i]? = some x ∧ (sh.proxy x).released = true) ?_ ?_
  · intro ch i hi
    obtain ⟨x, hposition, hsame, hfreed⟩ := hproxy.unlinking ch i hi
    refine ⟨x, ?_, hfreed⟩
    rw [hsame]
    exact hreleased.position t ch i x hposition
  · intro t' ht' ch i hi
    obtain ⟨x, hx, hfreed⟩ := hinv.unlinked t' ch i hi
    have hlt : x < s.shared.nextProxy :=
      hname.lists.bound ch x (List.mem_of_getElem? hx)
    refine ⟨x, ?_, hproxy.released x hlt hfreed⟩
    -- the other thread holds the mutex of the channel, so its list stays
    have hheld' := channelHeld_of_unlinking hi
    have hother : ∀ ch₀, channelHeld (s.pc t) = some ch₀ → ch ≠ ch₀ := by
      rintro ch₀ hheld rfl
      exact ht' ((hchannel.lock ch).unique hheld' hheld)
    cases hname.listChange h with
    | same hlists hpc =>
        rw [hlists]
        exact hx
    | insertLast name id ch₀ y hpc hpc' hsh =>
        rw [hsh, setChannel_channel, if_neg (hother ch₀ (by rw [hpc]; rfl))]
        exact hx
    | unlink k thenFree ch₀ j hpc hpc' hsh =>
        rw [hsh, setChannel_channel, if_neg (hother ch₀ (by rw [hpc]; rfl))]
        exact hx

/-- A step of a thread keeps the ledger of the proxies. -/
theorem ProxyLedger.thread (hinv : ProxyLedger s) (hname : NameInv tr s)
    (hreleased : ReleasedInv s) (hchannel : ChannelInv s)
    (h : threadFunction t s.shared (s.pc t) move = some (.step sh pc e)) :
    ProxyLedger ⟨s.pool, sh, Function.update s.pc t pc, s.faulted⟩ :=
  ⟨hinv.thread_covered hname h, hinv.thread_unlinked hname hreleased hchannel h⟩

end

/-- The ledger of the proxies holds in every state of a run. -/
theorem proxyLedger_of_run {K : State n → Action n → Prop} {tr : List (Event n)} {s : State n}
    (h : (machine n capacity hcap).RunIf K tr s) : ProxyLedger s := by
  refine h.induction (I := fun _ s => ProxyLedger s) ?_ ?_
  · exact ⟨fun x hlt _ => absurd hlt (Nat.not_lt_zero x), fun t ch i hi => (by cases hi)⟩
  · intro tr s a s' e hrun hinv _ hnext
    rcases next_cases hnext with ⟨b, pool, t, pc, e', -, -, rfl, hold, hnew, rfl⟩ |
        ⟨t, move, sh, pc, rfl, hf, rfl⟩ | ⟨t, rfl, rfl⟩
    · have hnone : ∀ {pc : Pc}, inCall pc = true →
          outsideProxy pc = none ∧ unlinking pc = none := by
        intro pc hpc
        rcases inCall_cases hpc with rfl | ⟨arg, rfl⟩ | rfl | ⟨arg, rfl⟩ <;> exact ⟨rfl, rfl⟩
      have houtside : ∀ t', outsideProxy (Function.update s.pc t pc t') =
          outsideProxy (s.pc t') :=
        forall_update (P := fun (t' : Tid n) (pc : Pc) => outsideProxy pc = outsideProxy (s.pc t'))
          ((hnone hnew).1.trans (hnone hold).1.symm) fun _ _ => rfl
      refine ⟨fun x hlt hlive => ?_, ?_⟩
      · simp only [houtside]
        exact hinv.covered x hlt hlive
      · refine forall_update (P := fun (_ : Tid n) (pc : Pc) => ∀ ch i,
          unlinking pc = some (ch, i) → ∃ x, (s.shared.channel ch).subscriberProxies[i]? = some x ∧
            (s.shared.proxy x).released = true) ?_ fun t' _ => hinv.unlinked t'
        intro ch i hi
        rw [(hnone hnew).2] at hi
        cases hi
    · exact hinv.thread (nameInv_of_run hrun) (releasedInv_of_run hrun) (channelInv_of_run hrun) hf
    · exact ⟨hinv.covered, hinv.unlinked⟩

end

end Miez.Proofs.MessageBroker
