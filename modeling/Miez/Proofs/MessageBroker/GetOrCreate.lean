import Miez.MessageBroker
import Miez.Proofs.GenericHashTable.Calls

/-!
# `Miez.Proofs.MessageBroker.GetOrCreate`: the get-or-create of a channel under failures

The get-or-create runs with `_channels_mutex` locked, so no other thread changes the table
meanwhile. `getOrCreate` runs it to its end with a given pattern of failures. The code takes a
failed lookup for an absent channel, and frees a channel that the table has freed already.

`getOrCreate_atomic` says which patterns are harmless: the run ends with one entry for the name,
or fails with the table as it was, and frees its channel at most once, if and only if
`Harmless` holds of the pattern and of the entries before it.
-/

set_option autoImplicit false

namespace Miez.Proofs.MessageBroker

open Miez.MessageBroker
open Miez.ThreadPool (Tid)

section
variable {n : Nat}

/-- What fails in `generic_hash_table_insert`: nothing, the pair or the copy of its key, or the
list node. -/
inductive InsertFailure where
  | none
  | pair
  | node
deriving DecidableEq

/-- A pattern of allocation failures in the get-or-create: the iterator of
`generic_hash_table_get`, an allocation of `_channel_new`, and the allocations of
`generic_hash_table_insert`. -/
structure AllocationFailures where
  get : Bool
  new : Bool
  insert : InsertFailure
deriving DecidableEq

/-- The move at a program point under a pattern of failures. -/
def AllocationFailures.move (f : AllocationFailures) : GetChannelPc → Move n
  | .get => if f.get then .fail else .go
  | .new => if f.new then .fail else .go
  | .insert _ => match f.insert with
      | .none => .go
      | .pair => .fail
      | .node => .failNode
  | _ => .go

/-- The get-or-create from a program point to its end. It has at most six steps. -/
def getOrCreate (t : Tid n) (name : CString) (freeFirst : Bool) (f : AllocationFailures) :
    Nat → Shared n → GetChannelPc → Option (Shared n × GetChannelResult)
  | 0, _, _ => none
  | fuel + 1, sh, pc =>
      (getChannel t name freeFirst sh pc (f.move pc)).bind fun
        | (sh, .more pc) => getOrCreate t name freeFirst f fuel sh pc
        | r => some r

/-- The channels that the table has under a name, the one that a lookup finds first. -/
def entries (sh : Shared n) (name : CString) : List Nat :=
  ((sh.channels.buckets (sh.channels.bucketIndex name)).filter
    (sh.channels.matchesKey name)).map Prod.snd

/-- The run ends with exactly one entry for the name, which is the one from before if there was
any, or it fails with the table as it was. A second release of a channel is a fault. -/
def Atomic (sh : Shared n) (name : CString) (sh' : Shared n) (r : GetChannelResult) : Prop :=
  (∃ ch, r = .found ch ∧ entries sh' name = [ch] ∧
    (entries sh name = [] ∨ entries sh name = [ch])) ∨
  (r = .failed ∧ sh'.channels.buckets = sh.channels.buckets)

/-- A lookup that succeeds finds a single entry. Without one, or without a lookup, the channel or
its pair cannot be allocated, or nothing more fails and the table has no entry for the name. -/
def Harmless (f : AllocationFailures) (old : List Nat) : Prop :=
  if f.get = false ∧ old ≠ [] then old.length = 1
  else f.new = true ∨ f.insert = .pair ∨ (f.insert = .none ∧ old = [])

/-- A lookup finds the first entry. -/
theorem get_eq_head (sh : Shared n) (name : CString) :
    sh.channels.get name = (entries sh name).head? := by
  show ((sh.channels.buckets _).find? (sh.channels.matchesKey name)).map Prod.snd = _
  rw [entries, List.head?_map, List.head?_filter]

/-- How the creation of a channel ends, from a table whose bucket for the name is not locked. -/
theorem getOrCreate_new (t : Tid n) {name : CString} (freeFirst : Bool) (f : AllocationFailures)
    {sh : Shared n} (hfree : sh.channels.locked (sh.channels.bucketIndex name) = false) :
    ∃ sh' r, getOrCreate t name freeFirst f 4 sh .new = some (sh', r) ∧
      ((f.new = true ∨ f.insert = .pair) → r = .failed ∧ sh'.channels = sh.channels) ∧
      (f.new = false → f.insert = .node → r = .fault) ∧
      (f.new = false → f.insert = .none →
        ∃ ch, r = .found ch ∧ sh'.channels = sh.channels.insert name ch) := by
  obtain ⟨get, new, insert⟩ := f
  have hbucket : (sh.newChannel name).channels.locked
      ((sh.newChannel name).channels.bucketIndex name) = false := hfree
  have hlive : ((sh.newChannel name).channel sh.nextChannel).released = false := by
    show (Function.update sh.channel sh.nextChannel _ sh.nextChannel).released = false
    rw [Function.update_self]
  cases new with
  | true =>
      -- `_channel_new` fails.
      simp [getOrCreate, getChannel, AllocationFailures.move, Shared.unlockChannels]
  | false =>
      cases insert with
      | none =>
          simp [getOrCreate, getChannel, AllocationFailures.move, hbucket, Shared.unlockChannels]
          rfl
      | pair =>
          -- The channel is freed once, before or after the unlock.
          cases freeFirst <;>
            simp [getOrCreate, getChannel, AllocationFailures.move, hlive, Shared.unlockChannels,
              Shared.setChannel] <;> rfl
      | node =>
          -- The table frees the channel, and the get-or-create frees it again.
          cases freeFirst <;>
            simp [getOrCreate, getChannel, AllocationFailures.move, hbucket, Shared.unlockChannels,
              Shared.setChannel]

/-- The entries are a function of the table. -/
theorem entries_congr {sh sh' : Shared n} (h : sh'.channels = sh.channels) (name : CString) :
    entries sh' name = entries sh name := by
  rw [entries, entries, h]

/-- A new entry comes before the others. -/
theorem entries_insert {sh sh' : Shared n} {name : CString} {ch : Nat}
    (hcmp : sh.channels.compareKeyFunction = CString.strcmp)
    (h : sh'.channels = sh.channels.insert name ch) :
    entries sh' name = ch :: entries sh name := by
  have hbucket : sh'.channels.buckets (sh'.channels.bucketIndex name)
      = (name, ch) :: sh.channels.buckets (sh.channels.bucketIndex name) := by
    rw [h]
    exact Function.update_self _ _ _
  have hmatch : sh'.channels.matchesKey name = sh.channels.matchesKey name := by
    rw [h]
    rfl
  have hself : sh.channels.matchesKey name (name, ch) = true := by
    show (sh.channels.compareKeyFunction name name == 0) = true
    rw [hcmp]
    simp
  rw [entries, hbucket, hmatch, List.filter_cons_of_pos hself]
  rfl

/-- A run that found the channel without a new entry is atomic when there was one entry. -/
theorem atomic_found {sh sh' : Shared n} {name : CString} {ch : Nat} {rest : List Nat}
    (hold : entries sh name = ch :: rest) (hsame : sh'.channels = sh.channels) :
    Atomic sh name sh' (.found ch) ↔ (entries sh name).length = 1 := by
  constructor
  · rintro (⟨ch', hch, hnew, -⟩ | ⟨hr, -⟩)
    · rw [entries_congr hsame] at hnew
      rw [hnew]
      rfl
    · cases hr
  · intro hlen
    have hnil : rest = [] := by
      rw [hold, List.length_cons] at hlen
      exact List.length_eq_zero_iff.mp (by omega)
    rw [hnil] at hold
    exact Or.inl ⟨ch, rfl, by rw [entries_congr hsame, hold], Or.inr hold⟩

/-- A run that made a new entry is atomic when there was none. -/
theorem atomic_created {sh sh' : Shared n} {name : CString} {ch : Nat}
    (hcmp : sh.channels.compareKeyFunction = CString.strcmp)
    (h : sh'.channels = sh.channels.insert name ch) :
    Atomic sh name sh' (.found ch) ↔ entries sh name = [] := by
  have hnew := entries_insert hcmp h
  constructor
  · rintro (⟨ch', -, hone, -⟩ | ⟨hr, -⟩)
    · rw [hnew] at hone
      exact (List.cons.inj hone).2
    · cases hr
  · intro hnil
    exact Or.inl ⟨ch, rfl, by rw [hnew, hnil], Or.inl hnil⟩

/-- The get-or-create of a channel under every pattern of allocation failures. It ends, and it is
atomic if and only if the pattern is harmless for the entries that the table has. -/
theorem getOrCreate_atomic (t : Tid n) (name : CString) (freeFirst : Bool)
    (f : AllocationFailures) {sh : Shared n}
    (hcmp : sh.channels.compareKeyFunction = CString.strcmp) (hmutex : sh.channelsMutex = none)
    (hbucket : sh.channels.locked (sh.channels.bucketIndex name) = false) :
    ∃ sh' r, getOrCreate t name freeFirst f 6 sh .lock = some (sh', r) ∧
      (Atomic sh name sh' r ↔ Harmless f (entries sh name)) := by
  -- The first step locks `_channels_mutex`, which leaves the table alone.
  have hlock : getOrCreate t name freeFirst f 6 sh .lock
      = getOrCreate t name freeFirst f 5 { sh with channelsMutex := some t } .get := by
    simp [getOrCreate, getChannel, AllocationFailures.move, Shared.lockChannels, lockMutex, hmutex]
  rw [hlock]
  by_cases hfound : f.get = false ∧ entries sh name ≠ []
  · obtain ⟨ch, rest, hold⟩ := List.exists_cons_of_ne_nil hfound.2
    have hget : ({ sh with channelsMutex := some t } : Shared n).channels.get name = some ch := by
      show sh.channels.get name = some ch
      rw [get_eq_head, hold]
      rfl
    refine ⟨({ sh with channelsMutex := some t } : Shared n).unlockChannels, .found ch, ?_, ?_⟩
    · simp [getOrCreate, getChannel, AllocationFailures.move, hfound.1, hget, hbucket]
    · rw [Harmless, if_pos hfound]
      exact atomic_found hold rfl
  · -- The code goes on as if there were no entry.
    have hnew : getOrCreate t name freeFirst f 5 { sh with channelsMutex := some t } .get
        = getOrCreate t name freeFirst f 4 { sh with channelsMutex := some t } .new := by
      cases hfail : f.get with
      | true => simp [getOrCreate, getChannel, AllocationFailures.move, hfail, hbucket]
      | false =>
          have hnil : entries sh name = [] := by
            by_contra hne
            exact hfound ⟨hfail, hne⟩
          have hget : ({ sh with channelsMutex := some t } : Shared n).channels.get name = none := by
            show sh.channels.get name = none
            rw [get_eq_head, hnil]
            rfl
          simp [getOrCreate, getChannel, AllocationFailures.move, hfail, hget, hbucket]
    rw [hnew]
    obtain ⟨sh', r, hrun, hfailed, hfault, hdone⟩ :=
      getOrCreate_new t freeFirst f
        (show ({ sh with channelsMutex := some t } : Shared n).channels.locked
          (sh.channels.bucketIndex name) = false from hbucket)
    refine ⟨sh', r, hrun, ?_⟩
    rw [Harmless, if_neg hfound]
    by_cases hclean : f.new = true ∨ f.insert = .pair
    · obtain ⟨rfl, hsame⟩ := hfailed hclean
      refine iff_of_true (Or.inr ⟨rfl, by rw [hsame]⟩) ?_
      exact hclean.imp_right Or.inl
    · have hnewFalse : f.new = false := by
        cases hn : f.new with
        | false => rfl
        | true => exact absurd (Or.inl hn) hclean
      cases hinsert : f.insert with
      | pair => exact absurd (Or.inr hinsert) hclean
      | node =>
          rw [hfault hnewFalse hinsert]
          refine iff_of_false ?_ (by simp [hnewFalse])
          rintro (⟨ch, hr, -⟩ | ⟨hr, -⟩) <;> cases hr
      | none =>
          obtain ⟨ch, rfl, hchannels⟩ := hdone hnewFalse hinsert
          rw [atomic_created hcmp hchannels]
          simp [hnewFalse]

end

/-- The channel `c` of the witnesses. -/
def channelC : CString := .ofBuffer [99]

/-- A table with the channel 0 under the name `c`. -/
def oneChannel : Shared 1 :=
  { (init 4 (by decide)).shared with
    channels := (init (n := 1) 4 (by decide)).shared.channels.insert channelC 0
    nextChannel := 1 }

/-- No thread is in that table. -/
theorem oneChannel_ready : oneChannel.channels.compareKeyFunction = CString.strcmp ∧
    oneChannel.channelsMutex = none ∧
    oneChannel.channels.locked (oneChannel.channels.bucketIndex channelC) = false :=
  ⟨rfl, rfl, rfl⟩

/-- Without a failure, the lookup finds the one entry. -/
theorem getOrCreate_atomic_found :
    ∃ sh' r, getOrCreate (.client 0) channelC true ⟨false, false, .none⟩ 6 oneChannel .lock
      = some (sh', r) ∧ Atomic oneChannel channelC sh' r := by
  obtain ⟨sh', r, hrun, hiff⟩ := getOrCreate_atomic (.client 0) channelC true
    ⟨false, false, .none⟩ oneChannel_ready.1 oneChannel_ready.2.1 oneChannel_ready.2.2
  exact ⟨sh', r, hrun, hiff.mpr (by simp only [Harmless]; decide +kernel)⟩

/-- A failed lookup makes a second entry for `c` that hides the first one, and a failed list node
makes the get-or-create free its channel twice. -/
theorem getOrCreate_shadows :
    (∃ sh' r, getOrCreate (.client 0) channelC true ⟨true, false, .none⟩ 6 oneChannel .lock
      = some (sh', r) ∧ r = .found 1 ∧ entries sh' channelC = [1, 0] ∧
      ¬ Atomic oneChannel channelC sh' r) ∧
    ∃ sh', getOrCreate (.client 0) channelC true ⟨false, false, .node⟩ 6
      (init (n := 1) 4 (by decide)).shared .lock = some (sh', .fault) := by
  refine ⟨?_, ?_⟩
  · obtain ⟨sh', r, hrun, hiff⟩ := getOrCreate_atomic (.client 0) channelC true
      ⟨true, false, .none⟩ oneChannel_ready.1 oneChannel_ready.2.1 oneChannel_ready.2.2
    have hresult : (getOrCreate (.client 0) channelC true ⟨true, false, .none⟩ 6 oneChannel
        .lock).map (fun x => (x.2, entries x.1 channelC)) = some (.found 1, [1, 0]) := by
      decide +kernel
    rw [hrun] at hresult
    obtain ⟨hr, hentries⟩ := Prod.mk.inj (Option.some.inj hresult)
    refine ⟨sh', r, hrun, hr, hentries, fun h => ?_⟩
    have hharm := hiff.mp h
    revert hharm
    simp only [Harmless]
    decide +kernel
  · have hresult : (getOrCreate (.client 0) channelC true ⟨false, false, .node⟩ 6
        (init (n := 1) 4 (by decide)).shared .lock).map (fun x => x.2) = some .fault := by
      decide +kernel
    obtain ⟨⟨sh', r⟩, hrun, hr⟩ := Option.map_eq_some_iff.mp hresult
    exact ⟨sh', by rw [hrun]; exact congrArg (fun r => some (sh', r)) hr⟩

end Miez.Proofs.MessageBroker
