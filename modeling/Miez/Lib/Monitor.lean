import Miez.Lib.Machine

/-!
# `Miez.Lib.Monitor`: monitors of the events of a machine

A `Monitor` reads a list of events and gives up at the first event that it does not allow. It is a
way to write down a protocol: a list of events follows the protocol when the monitor reads it to
the end. A monitor can be run on a log.

`accepts_of_simulation` is the rule for a machine. A relation between the states of the monitor and
of the machine that every step keeps shows that the monitor reads the view of every run.
-/

set_option autoImplicit false

namespace Miez.Lib

/-- A monitor of events. -/
structure Monitor (χ ε : Type) where
  init : χ
  step : χ → ε → Option χ

namespace Monitor

variable {χ ε : Type}

/-- The state of the monitor after a list of events, if it allows all of them. -/
def run (W : Monitor χ ε) (tr : List ε) : Option χ := tr.foldlM W.step W.init

/-- Before the first event. -/
@[simp] theorem run_nil (W : Monitor χ ε) : W.run [] = some W.init := rfl

/-- One more event. -/
theorem run_snoc (W : Monitor χ ε) (tr : List ε) (x : ε) :
    W.run (tr ++ [x]) = (W.run tr).bind fun y => W.step y x := by
  rw [run, List.foldlM_append, run]
  cases tr.foldlM W.step W.init with
  | none => rfl
  | some y =>
      show (List.foldlM W.step y [x]) = W.step y x
      rw [List.foldlM_cons]
      cases W.step y x <;> rfl

/-- What the monitor has read so far it has allowed. -/
theorem run_prefix {W : Monitor χ ε} {tr tr' : List ε} {y : χ} (h : W.run (tr ++ tr') = some y) :
    ∃ x, W.run tr = some x ∧ tr'.foldlM W.step x = some y := by
  rw [run, List.foldlM_append] at h
  exact Option.bind_eq_some_iff.mp h

/-- What holds at the start and is kept by every allowed event holds after every list that the
monitor reads. -/
theorem run_induction {W : Monitor χ ε} {I : List ε → χ → Prop} (hinit : I [] W.init)
    (hstep : ∀ tr x e y, W.run tr = some x → I tr x → W.step x e = some y → I (tr ++ [e]) y)
    {tr : List ε} {x : χ} (h : W.run tr = some x) : I tr x := by
  induction tr using List.reverseRecOn generalizing x with
  | nil =>
      obtain rfl := Option.some.inj h
      exact hinit
  | append_singleton tr e ih =>
      rw [run_snoc] at h
      obtain ⟨y, hy, hx⟩ := Option.bind_eq_some_iff.mp h
      exact hstep tr y e x hy (ih hy) hx

/-- The state of the monitor after an event that it may not see. -/
def stepView (W : Monitor χ ε) (x : χ) : Option ε → Option χ
  | none => some x
  | some e => W.step x e

/-- One more event of a machine. -/
theorem run_filterMap_append {ε' : Type} (W : Monitor χ ε) (view : ε' → Option ε) (tr : List ε')
    (e : Option ε') : W.run ((tr ++ e.toList).filterMap view) =
      (W.run (tr.filterMap view)).bind fun x => W.stepView x (e.bind view) := by
  rw [filterMap_append_toList]
  cases e.bind view with
  | none =>
      rw [Option.toList_none, List.append_nil]
      cases W.run (tr.filterMap view) <;> rfl
  | some x => exact run_snoc W _ x

/-- A monitor reads the view of every run of a machine when a relation between their states is kept
by every step. -/
theorem accepts_of_simulation {σ α ε' : Type} {M : Machine σ α ε'} {K : σ → α → Prop}
    {W : Monitor χ ε} {view : ε' → Option ε} (R : χ → σ → Prop) (hinit : R W.init M.init)
    (hstep : ∀ tr s a s' e x, M.RunIf K tr s → K s a → M.next s a = some (s', e) → R x s →
      ∃ y, W.stepView x (e.bind view) = some y ∧ R y s')
    {tr : List ε'} {s : σ} (h : M.RunIf K tr s) :
    ∃ x, W.run (tr.filterMap view) = some x ∧ R x s := by
  refine h.induction (I := fun tr s => ∃ x, W.run (tr.filterMap view) = some x ∧ R x s)
    ⟨W.init, rfl, hinit⟩ ?_
  rintro tr s a s' e hrun ⟨x, hx, hR⟩ hK hnext
  obtain ⟨y, hy, hR'⟩ := hstep tr s a s' e x hrun hK hnext hR
  refine ⟨y, ?_, hR'⟩
  rw [run_filterMap_append, hx]
  exact hy

end Monitor

end Miez.Lib
