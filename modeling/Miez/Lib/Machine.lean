import Mathlib

/-!
# `Miez.Lib.Machine`: runs of an executable state machine

A `Machine` is a state type with one executable transition function. `next s a` is the state
after the action `a` in the state `s`, together with the event that the step shows to an
observer. It is `none` when `a` is not enabled in `s`. An interleaving of threads is a list
of actions: an action names the thread that moves and the choice it makes.

* `Machine.Run tr s`: some list of actions leads from the initial state to `s` and shows the
  events `tr`, in this order.
* `Machine.RunIf K tr s`: the same, and every step taken in a state `s` by an action `a`
  satisfies `K s a`.
* `RunIf.induction` is the invariant rule. An invariant can speak about the events shown so
  far as well as about the state.
* `startAt` is the machine started in another state, and `RunIf.trans` joins a run and a run from
  its end.
* `RunIf.map` is the projection rule: a machine whose steps are steps of another machine, or
  leave that machine's part of the state alone, has runs of that machine inside its own runs.
* `Path` is a part of a run, from any state. In a machine with one action all paths from a state
  to a halted state agree (`Path.continue`), and `exists_halted` gives one.
* `exec` replays a list of actions, and `runIf_of_exec` turns a replay into a run.
-/

set_option autoImplicit false

namespace Miez.Lib

/-! ### The events shown so far -/

section
variable {ε : Type}

/-- What a filter reads from the events after one more step. -/
theorem filterMap_append_toList {ε' : Type} (g : ε → Option ε') (tr : List ε) (e : Option ε) :
    (tr ++ e.toList).filterMap g = tr.filterMap g ++ (e.bind g).toList := by
  cases e with
  | none => simp
  | some x => cases hg : g x <;> simp [List.filterMap_append, hg]

/-- A step whose event the filter drops. -/
theorem filterMap_append_of_none {ε' : Type} {g : ε → Option ε'} {e : Option ε}
    (he : e.bind g = none) (tr : List ε) : (tr ++ e.toList).filterMap g = tr.filterMap g := by
  rw [filterMap_append_toList, he, Option.toList_none, List.append_nil]

/-- A step whose event the filter reads. -/
theorem filterMap_append_of_some {ε' : Type} {g : ε → Option ε'} {e : Option ε} {x : ε'}
    (he : e.bind g = some x) (tr : List ε) :
    (tr ++ e.toList).filterMap g = tr.filterMap g ++ [x] := by
  rw [filterMap_append_toList, he, Option.toList_some]

/-- An event of a run is the event of the last step, or it was there before the last step. -/
theorem append_toList_eq_append_cons {tr pre post : List ε} {e : Option ε} {x : ε}
    (h : tr ++ e.toList = pre ++ x :: post) :
    (∃ post', tr = pre ++ x :: post' ∧ post = post' ++ e.toList) ∨
    (e = some x ∧ tr = pre ∧ post = []) := by
  cases e with
  | none => exact Or.inl ⟨post, by simpa using h, by simp⟩
  | some y =>
      cases post using List.reverseRecOn with
      | nil =>
          obtain ⟨htr, hy⟩ := List.append_inj' h rfl
          exact Or.inr ⟨by simpa using hy, htr, rfl⟩
      | append_singleton post' z =>
          have h' : tr ++ [y] = (pre ++ x :: post') ++ [z] := by simpa using h
          obtain ⟨htr, hy⟩ := List.append_inj' h' rfl
          refine Or.inl ⟨post', htr, ?_⟩
          rw [Option.toList_some, hy]

/-- `a` is shown before `b`. -/
def Before (tr : List ε) (a b : ε) : Prop := List.Sublist [a, b] tr

instance [DecidableEq ε] (tr : List ε) (a b : ε) : Decidable (Before tr a b) :=
  inferInstanceAs (Decidable (List.Sublist [a, b] tr))

/-- The earlier event is among the events. -/
theorem Before.mem_left {tr : List ε} {a b : ε} (h : Before tr a b) : a ∈ tr :=
  h.subset (by simp)

/-- The later event is among the events. -/
theorem Before.mem_right {tr : List ε} {a b : ε} (h : Before tr a b) : b ∈ tr :=
  h.subset (by simp)

/-- An order between two events of a run was there before the last step, or the last step
shows the later event. -/
theorem before_append_toList {tr : List ε} {e : Option ε} {a b : ε} :
    Before (tr ++ e.toList) a b ↔ Before tr a b ∨ (a ∈ tr ∧ e = some b) := by
  constructor
  · intro h
    obtain ⟨l₁, l₂, heq, h₁, h₂⟩ := List.sublist_append_iff.mp h
    match l₁, heq with
    | [], heq =>
        -- Both events would have to be in the last step, which shows at most one.
        have hlen := h₂.length_le
        rw [List.nil_append] at heq
        rw [← heq] at hlen
        cases e <;> simp at hlen
    | [x], heq =>
        simp only [List.singleton_append, List.cons.injEq] at heq
        obtain ⟨rfl, rfl⟩ := heq
        have hb : b ∈ e.toList := List.singleton_sublist.mp h₂
        exact Or.inr ⟨List.singleton_sublist.mp h₁, by simpa using hb⟩
    | [x, y], heq =>
        simp only [List.cons_append, List.nil_append, List.cons.injEq] at heq
        obtain ⟨rfl, rfl, -⟩ := heq
        exact Or.inl h₁
    | x :: y :: z :: l, heq => simp at heq
  · rintro (h | ⟨ha, rfl⟩)
    · exact h.trans (List.sublist_append_left _ _)
    · have ha' : List.Sublist [a] tr := List.singleton_sublist.mpr ha
      exact ha'.append (List.Sublist.refl [b])

/-- An order in a part of a list is an order in the list. -/
theorem Before.of_sublist {l l' : List ε} {a b : ε} (h : Before l a b) (hl : List.Sublist l l') :
    Before l' a b :=
  h.trans hl

/-- Two different members of a list are in one order or the other. -/
theorem before_or_before {l : List ε} {a b : ε} (ha : a ∈ l) (hb : b ∈ l) (hne : a ≠ b) :
    Before l a b ∨ Before l b a := by
  induction l with
  | nil => cases ha
  | cons x l ih =>
      rw [List.mem_cons] at ha hb
      rcases ha with rfl | ha <;> rcases hb with rfl | hb
      · exact absurd rfl hne
      · exact Or.inl ((List.singleton_sublist.mpr hb).cons_cons a)
      · exact Or.inr ((List.singleton_sublist.mpr ha).cons_cons b)
      · exact (ih ha hb).imp (fun h => h.cons x) fun h => h.cons x

/-- In a list without duplicates no member stands before itself. -/
theorem Before.ne {l : List ε} {a b : ε} (h : Before l a b) (hl : l.Nodup) : a ≠ b := by
  have hab := hl.sublist h
  rintro rfl
  simp at hab

/-- In a list without duplicates two members are not in both orders. -/
theorem Before.asymm {l : List ε} {a b : ε} (h : Before l a b) (hl : l.Nodup) :
    ¬ Before l b a := by
  induction l with
  | nil => cases h
  | cons x l ih =>
      obtain ⟨hx, hl'⟩ := List.nodup_cons.mp hl
      intro h'
      cases h with
      | cons _ h =>
          cases h' with
          | cons _ h' => exact ih h hl' h'
          | cons_cons _ h' => exact hx (Before.mem_right h)
      | cons_cons _ h =>
          cases h' with
          | cons _ h' => exact hx (Before.mem_right h')
          | cons_cons _ h' => exact hx (List.singleton_sublist.mp h)

end

/-! ### Machines and runs -/

/-- A state machine with states `σ`, actions `α` and observable events `ε`. -/
structure Machine (σ α ε : Type) where
  init : σ
  next : σ → α → Option (σ × Option ε)

namespace Machine

variable {σ α ε : Type}

/-- A run whose steps all satisfy `K`, with the events it shows and its last state. -/
inductive RunIf (M : Machine σ α ε) (K : σ → α → Prop) : List ε → σ → Prop where
  | nil : RunIf M K [] M.init
  | snoc {tr : List ε} {s s' : σ} {a : α} {e : Option ε} :
      RunIf M K tr s → K s a → M.next s a = some (s', e) → RunIf M K (tr ++ e.toList) s'

/-- A run without a condition on its steps. -/
abbrev Run (M : Machine σ α ε) : List ε → σ → Prop :=
  M.RunIf fun _ _ => True

/-- `s` is the last state of some run. -/
def Reachable (M : Machine σ α ε) (s : σ) : Prop :=
  ∃ tr, M.Run tr s

variable {M : Machine σ α ε} {K : σ → α → Prop}

/-- The condition of the steps can be weakened. -/
theorem RunIf.mono {K' : σ → α → Prop} (hK : ∀ s a, K s a → K' s a) {tr : List ε} {s : σ}
    (h : M.RunIf K tr s) : M.RunIf K' tr s := by
  induction h with
  | nil => exact .nil
  | snoc _ hstep hnext ih => exact ih.snoc (hK _ _ hstep) hnext

/-- A condition that holds of every step of a run can take the place of the condition of its
steps. -/
theorem RunIf.mono_of_run {K' : σ → α → Prop}
    (hK : ∀ tr s a s' e, M.RunIf K tr s → K s a → M.next s a = some (s', e) → K' s a)
    {tr : List ε} {s : σ} (h : M.RunIf K tr s) : M.RunIf K' tr s := by
  induction h with
  | nil => exact .nil
  | snoc hrun hstep hnext ih => exact ih.snoc (hK _ _ _ _ _ hrun hstep hnext) hnext

/-- The invariant rule. `I` holds of the initial state with no events, and every step of a
run keeps it. -/
theorem RunIf.induction {I : List ε → σ → Prop} (hinit : I [] M.init)
    (hstep : ∀ tr s a s' e, M.RunIf K tr s → I tr s → K s a → M.next s a = some (s', e) →
      I (tr ++ e.toList) s')
    {tr : List ε} {s : σ} (h : M.RunIf K tr s) : I tr s := by
  induction h with
  | nil => exact hinit
  | snoc hrun hK hnext ih => exact hstep _ _ _ _ _ hrun ih hK hnext

/-- The machine, started in another state. -/
def startAt (M : Machine σ α ε) (s : σ) : Machine σ α ε := { M with init := s }

/-- A run from the end of a run continues that run. -/
theorem RunIf.trans {tr tr' : List ε} {s s' : σ} (h : M.RunIf K tr s)
    (h' : (M.startAt s).RunIf K tr' s') : M.RunIf K (tr ++ tr') s' := by
  induction h' with
  | nil => rwa [List.append_nil]
  | snoc _ hK hnext ih =>
      rw [← List.append_assoc]
      exact ih.snoc hK hnext

/-- A run that shows an event has a step that shows it. -/
theorem RunIf.step_of_event {tr tr' : List ε} {x : ε} {s : σ} (h : M.RunIf K (tr ++ x :: tr') s) :
    ∃ s₁ a s₂, M.RunIf K tr s₁ ∧ K s₁ a ∧ M.next s₁ a = some (s₂, some x) := by
  generalize htr : tr ++ x :: tr' = full at h
  induction h generalizing tr' with
  | nil => simp at htr
  | @snoc tr₀ s₁ s₂ a e hrun hK hnext ih =>
      rcases append_toList_eq_append_cons htr.symm with ⟨post, hpost, -⟩ | ⟨rfl, rfl, -⟩
      · exact ih hpost.symm
      · exact ⟨s₁, a, s₂, hrun, hK, hnext⟩

/-- The projection rule. `f` reads the state of `M'` out of a state of `M`, and `g` reads the
events of `M'` out of the events of `M`. Each step of `M` is a step of `M'` with the same
event that satisfies `K'`, or a step that `M'` does not see. -/
theorem RunIf.map {σ' α' ε' : Type} {M' : Machine σ' α' ε'} {K' : σ' → α' → Prop} (f : σ → σ')
    (g : ε → Option ε') (hinit : f M.init = M'.init)
    (hstep : ∀ tr s a s' e, M.RunIf K tr s → K s a → M.next s a = some (s', e) →
      (∃ a', K' (f s) a' ∧ M'.next (f s) a' = some (f s', e.bind g)) ∨
        (f s' = f s ∧ e.bind g = none))
    {tr : List ε} {s : σ} (h : M.RunIf K tr s) : M'.RunIf K' (tr.filterMap g) (f s) := by
  induction h with
  | nil => rw [hinit]; exact .nil
  | @snoc tr s s' a e hrun hK hnext ih =>
      rw [filterMap_append_toList]
      rcases hstep tr s a s' e hrun hK hnext with ⟨a', hK', ha'⟩ | ⟨hs, he⟩
      · exact ih.snoc hK' ha'
      · rw [hs, he]
        simpa using ih

/-- Some list of actions leads from `s` to the last state and shows the events. -/
inductive Path (M : Machine σ α ε) : σ → List ε → σ → Prop where
  | nil {s : σ} : Path M s [] s
  | cons {s s' s'' : σ} {a : α} {e : Option ε} {tr : List ε} :
      M.next s a = some (s', e) → Path M s' tr s'' → Path M s (e.toList ++ tr) s''

/-- No action is enabled in `s`. -/
def Halted (M : Machine σ α ε) (s : σ) : Prop := ∀ a, M.next s a = none

/-- One step is a path. -/
theorem Path.step {s s' : σ} {a : α} {e : Option ε} (h : M.next s a = some (s', e)) :
    M.Path s e.toList s' := by
  have hpath : M.Path s (e.toList ++ []) s' := .cons h .nil
  rwa [List.append_nil] at hpath

/-- Two paths in a row. -/
theorem Path.trans {s s' s'' : σ} {tr tr' : List ε} (h : M.Path s tr s')
    (h' : M.Path s' tr' s'') : M.Path s (tr ++ tr') s'' := by
  induction h with
  | nil => exact h'
  | cons hnext _ ih =>
      rw [List.append_assoc]
      exact .cons hnext (ih h')

/-- A path from the end of a run continues the run. -/
theorem Path.run {s s' : σ} {tr tr' : List ε} (h : M.Path s tr' s') (hrun : M.Run tr s) :
    M.Run (tr ++ tr') s' := by
  induction h generalizing tr with
  | nil => rwa [List.append_nil]
  | cons hnext _ ih =>
      rw [← List.append_assoc]
      exact ih (hrun.snoc trivial hnext)

/-- A run is a path from the initial state. -/
theorem Run.path {s : σ} {tr : List ε} (h : M.Run tr s) : M.Path M.init tr s := by
  induction h with
  | nil => exact .nil
  | snoc _ _ hnext ih => exact ih.trans (.step hnext)

/-- A machine with one action is deterministic: a path to a halted state goes through every
state that another path from the same state reaches. -/
theorem Path.continue [Subsingleton α] {s s₁ s₂ : σ} {tr₁ tr₂ : List ε}
    (h₁ : M.Path s tr₁ s₁) (h₂ : M.Path s tr₂ s₂) (hhalt : M.Halted s₂) :
    ∃ tr, tr₂ = tr₁ ++ tr ∧ M.Path s₁ tr s₂ := by
  induction h₁ generalizing tr₂ with
  | nil => exact ⟨tr₂, rfl, h₂⟩
  | @cons s s' s₁ a e tr hnext _ ih =>
      cases h₂ with
      | nil =>
          rw [hhalt a] at hnext
          cases hnext
      | @cons _ t' _ b e' tr' hnext' hrest =>
          obtain rfl : a = b := Subsingleton.elim a b
          rw [hnext] at hnext'
          obtain ⟨rfl, rfl⟩ : s' = t' ∧ e = e' := by simpa using hnext'
          obtain ⟨tr'', htr, hpath⟩ := ih hrest
          exact ⟨tr'', by rw [htr, List.append_assoc], hpath⟩

/-- A measure that every step makes smaller leads every state to a halted one. -/
theorem exists_halted (μ : σ → Nat)
    (hμ : ∀ s a s' e, M.next s a = some (s', e) → μ s' < μ s) (s : σ) :
    ∃ tr s', M.Path s tr s' ∧ M.Halted s' := by
  induction h : μ s using Nat.strong_induction_on generalizing s with
  | _ m ih =>
      by_cases hhalt : M.Halted s
      · exact ⟨[], s, .nil, hhalt⟩
      · simp only [Halted, not_forall] at hhalt
        obtain ⟨a, ha⟩ := hhalt
        obtain ⟨⟨s', e⟩, hnext⟩ := Option.ne_none_iff_exists'.mp ha
        have hlt := hμ s a s' e hnext
        obtain ⟨tr, s'', hpath, hhalt'⟩ := ih (μ s') (h ▸ hlt) s' rfl
        exact ⟨e.toList ++ tr, s'', .cons hnext hpath, hhalt'⟩

/-- Replay of a list of actions, which stops at a step that does not satisfy `K`. -/
def exec (M : Machine σ α ε) (K : σ → α → Prop) [∀ s a, Decidable (K s a)] :
    σ → List α → Option (List ε × σ)
  | s, [] => some ([], s)
  | s, a :: as =>
      if K s a then
        (M.next s a).bind fun r => (M.exec K r.1 as).map fun q => (r.2.toList ++ q.1, q.2)
      else none

/-- A replay that starts at the end of a run continues that run. -/
theorem RunIf.exec [∀ s a, Decidable (K s a)] {tr : List ε} {s : σ} (h : M.RunIf K tr s)
    {as : List α} {tr' : List ε} {s' : σ} (hexec : M.exec K s as = some (tr', s')) :
    M.RunIf K (tr ++ tr') s' := by
  induction as generalizing tr s tr' with
  | nil =>
      obtain ⟨rfl, rfl⟩ : [] = tr' ∧ s = s' := by simpa [Machine.exec] using hexec
      simpa using h
  | cons a as ih =>
      simp only [Machine.exec, Option.ite_none_right_eq_some, Option.bind_eq_some_iff,
        Option.map_eq_some_iff] at hexec
      obtain ⟨hK, ⟨s₁, e⟩, hnext, ⟨tr₁, s₂⟩, hrest, heq⟩ := hexec
      obtain ⟨rfl, rfl⟩ : e.toList ++ tr₁ = tr' ∧ s₂ = s' := by simpa using heq
      have hrun := ih (h.snoc hK hnext) hrest
      rwa [List.append_assoc] at hrun

/-- A replay from the end of a run whose result passes a test continues the run to a state that
passes it. -/
theorem RunIf.exec_any [∀ s a, Decidable (K s a)] {tr : List ε} {s : σ} (h : M.RunIf K tr s)
    (as : List α) (p : List ε → σ → Bool)
    (hexec : (M.exec K s as).any (fun r => p r.1 r.2) = true) :
    ∃ tr' s', M.RunIf K (tr ++ tr') s' ∧ p tr' s' = true := by
  cases hr : M.exec K s as with
  | none => simp [hr] at hexec
  | some r => exact ⟨r.1, r.2, h.exec hr, by simpa [hr] using hexec⟩

/-- A replay from the initial state whose result passes a test gives a run to a state that
passes it. -/
theorem runIf_of_exec [∀ s a, Decidable (K s a)] (as : List α) (p : List ε → σ → Bool)
    (h : (M.exec K M.init as).any (fun r => p r.1 r.2) = true) :
    ∃ tr s, M.RunIf K tr s ∧ p tr s = true := by
  simpa only [List.nil_append] using RunIf.nil.exec_any as p h

/-- A replay without a condition on the steps. -/
theorem run_of_exec (as : List α) (p : List ε → σ → Bool)
    (h : (M.exec (fun _ _ => True) M.init as).any (fun r => p r.1 r.2) = true) :
    ∃ tr s, M.Run tr s ∧ p tr s = true :=
  runIf_of_exec as p h

/-- A replay, one more step and a replay from there, whose results together pass a test. The steps
of the second replay may satisfy another condition. -/
theorem runIf_step_of_exec {C : σ → α → Prop} [∀ s a, Decidable (K s a)]
    [∀ s a, Decidable (C s a)] (as : List α) (a : α) (as' : List α)
    (p : List ε → σ → Option ε → List ε → σ → Bool)
    (h : (M.exec K M.init as).any (fun r => decide (K r.2 a) && (M.next r.2 a).any fun q =>
      ((M.startAt q.1).exec C q.1 as').any fun w => p r.1 r.2 q.2 w.1 w.2) = true) :
    ∃ tr s s₁ e tr' s₂, M.RunIf K tr s ∧ K s a ∧ M.next s a = some (s₁, e) ∧
      (M.startAt s₁).RunIf C tr' s₂ ∧ p tr s e tr' s₂ = true := by
  obtain ⟨⟨tr, s⟩, hexec, h⟩ := (Option.any_eq_true _ _).mp h
  obtain ⟨hK, h⟩ := Bool.and_eq_true_iff.mp h
  obtain ⟨⟨s₁, e⟩, hnext, h⟩ := (Option.any_eq_true _ _).mp h
  obtain ⟨⟨tr', s₂⟩, hexec', h⟩ := (Option.any_eq_true _ _).mp h
  exact ⟨tr, s, s₁, e, tr', s₂, RunIf.nil.exec hexec, of_decide_eq_true hK, hnext,
    RunIf.nil.exec (M := M.startAt s₁) hexec', h⟩

end Machine

end Miez.Lib
