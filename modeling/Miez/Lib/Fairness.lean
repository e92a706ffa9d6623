import Miez.Lib.Machine

/-!
# `Miez.Lib.Fairness`: what happens in the end in a fair execution

A `Machine.Execution` is an infinite behaviour of a machine: at every time it takes a step, or it
rests. `F s a` picks steps out, such as the steps of one thread. The execution is fair to `F` when
it takes a step of `F` infinitely often, provided that one is enabled infinitely often (strong
fairness). "Infinitely often" and "from some time on" are `∃ᶠ` and `∀ᶠ` over `atTop`.

* `Fair.takes` is the rule for one step: a condition that only a step of `F` can end, and under
  which `F` is enabled infinitely often, ends with a step of `F`.
* `Fair.eventually_disabled`: a measure that the steps of `F` make smaller, and no other step
  larger, leads to a time from which on `F` is disabled.
* `holder_frequently_none`: a lock whose holder is never blocked, and stays in its critical section
  for a bounded number of its steps, is free infinitely often.
* `RunIf.execution` makes an execution of a run, and `fair_of_rest` tells when it is fair.
-/

set_option autoImplicit false

namespace Miez.Lib

open Filter

namespace Machine

variable {σ α ε : Type}

/-- What can happen at one time: a step, or nothing. -/
inductive Tick (M : Machine σ α ε) (s : σ) : Option α → σ → Option ε → Prop where
  | step {a : α} {s' : σ} {e : Option ε} (h : M.next s a = some (s', e)) : Tick M s (some a) s' e
  | rest : Tick M s none s none

/-- An infinite behaviour from the initial state. -/
structure Execution (M : Machine σ α ε) where
  state : Nat → σ
  action : Nat → Option α
  event : Nat → Option ε
  init : state 0 = M.init
  tick : ∀ k, M.Tick (state k) (action k) (state (k + 1)) (event k)

/-- A step of `F` can be taken in `s`. -/
def Enabled (M : Machine σ α ε) (F : σ → α → Prop) (s : σ) : Prop :=
  ∃ a s' e, F s a ∧ M.next s a = some (s', e)

namespace Execution

variable {M : Machine σ α ε} (E : M.Execution)

/-- The events before the time `k`. -/
def trace (k : Nat) : List ε := (List.range k).filterMap E.event

/-- The events before the next time. -/
theorem trace_succ (k : Nat) : E.trace (k + 1) = E.trace k ++ (E.event k).toList := by
  rw [trace, List.range_succ, List.filterMap_append, trace]
  cases h : E.event k <;> simp [h]

/-- An event that is shown is among the events from then on. -/
theorem mem_trace {k j : Nat} {x : ε} (h : E.event k = some x) (hj : k < j) : x ∈ E.trace j :=
  List.mem_filterMap.mpr ⟨k, List.mem_range.mpr hj, h⟩

/-- The events before a time were shown at earlier times. -/
theorem exists_event {j : Nat} {x : ε} (h : x ∈ E.trace j) : ∃ k, k < j ∧ E.event k = some x := by
  obtain ⟨k, hk, hevent⟩ := List.mem_filterMap.mp h
  exact ⟨k, List.mem_range.mp hk, hevent⟩

/-- A step of an execution is taken by the machine, or nothing changes. -/
theorem tick_cases (k : Nat) :
    (∃ a, E.action k = some a ∧ M.next (E.state k) a = some (E.state (k + 1), E.event k)) ∨
    (E.action k = none ∧ E.state (k + 1) = E.state k ∧ E.event k = none) := by
  have h := E.tick k
  generalize E.state k = s at h
  generalize E.state (k + 1) = s' at h
  generalize E.action k = a at h
  generalize E.event k = e at h
  cases h with
  | step h => exact Or.inl ⟨_, rfl, h⟩
  | rest => exact Or.inr ⟨rfl, rfl, rfl⟩

/-- An execution up to a time is a run. -/
theorem run (k : Nat) : M.Run (E.trace k) (E.state k) := by
  induction k with
  | zero =>
      rw [E.init]
      exact .nil
  | succ k ih =>
      rw [trace_succ]
      rcases E.tick_cases k with ⟨a, -, hnext⟩ | ⟨-, hstate, hevent⟩
      · exact ih.snoc trivial hnext
      · rw [hstate, hevent, Option.toList_none, List.append_nil]
        exact ih

/-- A run whose steps satisfy `K`, when the steps of the execution do. -/
theorem runIf {K : σ → α → Prop} (h : ∀ k a, E.action k = some a → K (E.state k) a) (k : Nat) :
    M.RunIf K (E.trace k) (E.state k) := by
  induction k with
  | zero =>
      rw [E.init]
      exact .nil
  | succ k ih =>
      rw [trace_succ]
      rcases E.tick_cases k with ⟨a, ha, hnext⟩ | ⟨-, hstate, hevent⟩
      · exact ih.snoc (h k a ha) hnext
      · rw [hstate, hevent, Option.toList_none, List.append_nil]
        exact ih

/-- A step of `F` is taken at the time `k`. -/
def Takes (F : σ → α → Prop) (k : Nat) : Prop := ∃ a, E.action k = some a ∧ F (E.state k) a

/-- A step that is taken is enabled. -/
theorem Takes.enabled {E : M.Execution} {F : σ → α → Prop} {k : Nat} (h : E.Takes F k) :
    M.Enabled F (E.state k) := by
  obtain ⟨a, ha, hF⟩ := h
  rcases E.tick_cases k with ⟨a', ha', hnext⟩ | ⟨hnone, -, -⟩
  · obtain rfl : a' = a := Option.some.inj (ha'.symm.trans ha)
    exact ⟨a', _, _, hF, hnext⟩
  · rw [ha] at hnone
    cases hnone

/-- Strong fairness. -/
def Fair (F : σ → α → Prop) : Prop :=
  (∃ᶠ k in atTop, M.Enabled F (E.state k)) → ∃ᶠ k in atTop, E.Takes F k

variable {E} {F : σ → α → Prop}

/-- A condition that every step keeps stays for ever. -/
theorem forall_of_keep {P : Nat → Prop} {k : Nat} (hk : P k) (hkeep : ∀ j, k ≤ j → P j → P (j + 1)) :
    ∀ j, k ≤ j → P j :=
  fun j hj => Nat.le_induction hk (fun i hi hP => hkeep i hi hP) j hj

/-- The rule for one step. `P` holds, a step that is not of `F` keeps it, and `F` is enabled
infinitely often if `P` never ends. Then a step of `F` is taken while `P` holds. -/
theorem Fair.takes (hfair : E.Fair F) {P : σ → Prop} {k : Nat} (hk : P (E.state k))
    (hkeep : ∀ j, k ≤ j → P (E.state j) → ¬ E.Takes F j → P (E.state (j + 1)))
    (henabled : (∀ j, k ≤ j → P (E.state j)) → ∃ᶠ j in atTop, M.Enabled F (E.state j)) :
    ∃ j, k ≤ j ∧ P (E.state j) ∧ E.Takes F j := by
  by_contra hnever
  have hnot : ∀ j, k ≤ j → P (E.state j) → ¬ E.Takes F j :=
    fun j hj hP htakes => hnever ⟨j, hj, hP, htakes⟩
  have hall : ∀ j, k ≤ j → P (E.state j) :=
    forall_of_keep (P := fun j => P (E.state j)) hk fun j hj hP => hkeep j hj hP (hnot j hj hP)
  obtain ⟨j, hj, htakes⟩ := (frequently_atTop.mp (hfair (henabled hall))) k
  exact hnot j hj (hall j hj) htakes

/-- A sequence of numbers that does not grow gets smaller only finitely often. -/
theorem eventually_eq_of_antitone {f : Nat → Nat} {N : Nat} (h : ∀ k, N ≤ k → f (k + 1) ≤ f k) :
    ∃ N', N ≤ N' ∧ ∀ k, N' ≤ k → f (k + 1) = f k := by
  classical
  -- The least value that the sequence takes from `N` on.
  have hex : ∃ m, ∃ k, N ≤ k ∧ f k = m := ⟨f N, N, le_rfl, rfl⟩
  obtain ⟨N', hN', hmin⟩ := Nat.find_spec hex
  have hle : ∀ k, N' ≤ k → f k ≤ f N' := by
    intro k hk
    induction k, hk using Nat.le_induction with
    | base => exact le_rfl
    | succ k hk ih => exact (h k (hN'.trans hk)).trans ih
  have hge : ∀ k, N' ≤ k → f N' ≤ f k := by
    intro k hk
    rw [hmin]
    exact Nat.find_min' hex ⟨k, hN'.trans hk, rfl⟩
  refine ⟨N', hN', fun k hk => ?_⟩
  rw [le_antisymm (hle k hk) (hge k hk),
    le_antisymm (hle (k + 1) (Nat.le_succ_of_le hk)) (hge (k + 1) (Nat.le_succ_of_le hk))]

/-- The measure rule. From some time on, a step of `F` makes the measure smaller and no step makes it
larger. Then `F` is disabled from some time on. -/
theorem Fair.eventually_disabled (hfair : E.Fair F) (μ : σ → Nat) {N : Nat}
    (hle : ∀ k, N ≤ k → μ (E.state (k + 1)) ≤ μ (E.state k))
    (hlt : ∀ k, N ≤ k → E.Takes F k → μ (E.state (k + 1)) < μ (E.state k)) :
    ∀ᶠ k in atTop, ¬ M.Enabled F (E.state k) := by
  obtain ⟨N', hN', hconst⟩ := eventually_eq_of_antitone (f := fun k => μ (E.state k)) hle
  have hnot : ¬ ∃ᶠ k in atTop, E.Takes F k := by
    intro htakes
    obtain ⟨k, hk, hstep⟩ := frequently_atTop.mp htakes N'
    exact absurd (hconst k hk) (hlt k (hN'.trans hk) hstep).ne
  exact not_frequently.mp fun henabled => hnot (hfair henabled)

/-- The lock rule. `holder` is the thread that holds a lock, `F t` the steps of the thread `t` and
`left t` a bound on the steps that `t` takes before it gives the lock back. Then the lock is free
infinitely often. -/
theorem holder_frequently_none {T : Type} {F : T → σ → α → Prop} (hfair : ∀ t, E.Fair (F t))
    (holder : σ → Option T) (left : T → σ → Nat)
    (hhand : ∀ k t t', holder (E.state k) = some t → holder (E.state (k + 1)) = some t' → t' = t)
    (henabled : ∀ k t, holder (E.state k) = some t → M.Enabled (F t) (E.state k))
    (hle : ∀ k t, holder (E.state k) = some t → holder (E.state (k + 1)) = some t →
      left t (E.state (k + 1)) ≤ left t (E.state k))
    (hlt : ∀ k t, holder (E.state k) = some t → holder (E.state (k + 1)) = some t →
      E.Takes (F t) k → left t (E.state (k + 1)) < left t (E.state k)) :
    ∃ᶠ k in atTop, holder (E.state k) = none := by
  intro hnever
  obtain ⟨N, hN⟩ := eventually_atTop.mp hnever
  obtain ⟨t, ht⟩ := Option.ne_none_iff_exists'.mp (hN N le_rfl)
  -- The lock is not handed over, so it has one holder from `N` on.
  have hheld : ∀ k, N ≤ k → holder (E.state k) = some t := by
    refine forall_of_keep (P := fun k => holder (E.state k) = some t) ht ?_
    intro k hk hholds
    obtain ⟨t', ht'⟩ := Option.ne_none_iff_exists'.mp (hN (k + 1) (Nat.le_succ_of_le hk))
    rw [ht', hhand k t t' hholds ht']
  have hdisabled := (hfair t).eventually_disabled (left t)
    (fun k hk => hle k t (hheld k hk) (hheld (k + 1) (Nat.le_succ_of_le hk)))
    (fun k hk => hlt k t (hheld k hk) (hheld (k + 1) (Nat.le_succ_of_le hk)))
  obtain ⟨N', hN'⟩ := eventually_atTop.mp hdisabled
  exact hN' (max N N') (le_max_right N N') (henabled _ t (hheld _ (le_max_left N N')))

/-- An execution that rests for ever in a state in which no step of `F` is enabled is fair to `F`. -/
theorem fair_of_rest {s : σ} {N : Nat} (hrest : ∀ k, N ≤ k → E.state k = s)
    (h : ¬ M.Enabled F s) : E.Fair F := by
  intro henabled
  obtain ⟨k, hk, hs⟩ := frequently_atTop.mp henabled N
  rw [hrest k hk] at hs
  exact absurd hs h

end Execution

/-- A run is the beginning of an execution that rests for ever afterwards. -/
theorem RunIf.execution {M : Machine σ α ε} {K : σ → α → Prop} {tr : List ε} {s : σ}
    (h : M.RunIf K tr s) :
    ∃ (E : M.Execution) (N : Nat), E.trace N = tr ∧
      (∀ k, N ≤ k → E.state k = s ∧ E.action k = none ∧ E.event k = none) ∧
      ∀ k a, E.action k = some a → K (E.state k) a := by
  induction h with
  | nil =>
      refine ⟨⟨fun _ => M.init, fun _ => none, fun _ => none, rfl, fun _ => .rest⟩, 0, rfl,
        fun _ _ => ⟨rfl, rfl, rfl⟩, ?_⟩
      intro k a ha
      cases ha
  | @snoc tr s s' a e _ hK hnext ih =>
      obtain ⟨E, N, htrace, hrest, hsteps⟩ := ih
      obtain ⟨hstate, -, -⟩ := hrest N le_rfl
      -- The step is taken at the time `N`.
      have htick : ∀ k, M.Tick (if k ≤ N then E.state k else s')
          (if k = N then some a else E.action k) (if k + 1 ≤ N then E.state (k + 1) else s')
          (if k = N then e else E.event k) := by
        intro k
        rcases lt_trichotomy k N with hk | hk | hk
        · rw [if_pos hk.le, if_pos (Nat.succ_le_of_lt hk), if_neg hk.ne, if_neg hk.ne]
          exact E.tick k
        · have hnot : ¬ k + 1 ≤ N := by omega
          rw [if_pos hk.le, if_pos hk, if_neg hnot, if_pos hk, hk, hstate]
          exact .step hnext
        · obtain ⟨-, haction, hevent⟩ := hrest k hk.le
          rw [if_neg (by omega), if_neg (by omega), if_neg (by omega), if_neg (by omega), haction,
            hevent]
          exact .rest
      refine ⟨⟨fun k => if k ≤ N then E.state k else s', fun k => if k = N then some a
        else E.action k, fun k => if k = N then e else E.event k, ?_, htick⟩, N + 1, ?_, ?_, ?_⟩
      · show (if 0 ≤ N then E.state 0 else s') = M.init
        rw [if_pos (Nat.zero_le N), E.init]
      · rw [Execution.trace_succ, Execution.trace]
        show (List.range N).filterMap (fun k => if k = N then e else E.event k)
          ++ (if N = N then e else E.event N).toList = tr ++ e.toList
        rw [if_pos rfl, ← htrace, Execution.trace]
        congr 1
        refine List.filterMap_congr fun k hk => ?_
        rw [if_neg (List.mem_range.mp hk).ne]
      · intro k hk
        obtain ⟨-, haction, hevent⟩ := hrest k (by omega)
        exact ⟨if_neg (by omega), (if_neg (by omega)).trans haction,
          (if_neg (by omega)).trans hevent⟩
      · intro k b hb
        show K (if k ≤ N then E.state k else s') b
        change (if k = N then some a else E.action k) = some b at hb
        by_cases hk : k = N
        · rw [if_pos hk] at hb
          obtain rfl := Option.some.inj hb
          rw [if_pos hk.le, hk, hstate]
          exact hK
        · rw [if_neg hk] at hb
          by_cases hle : k ≤ N
          · rw [if_pos hle]
            exact hsteps k b hb
          · rw [(hrest k (by omega)).2.1] at hb
            cases hb

end Machine

end Miez.Lib
