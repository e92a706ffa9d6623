import Mathlib.Algebra.BigOperators.Group.Finset.Basic
import Mathlib.Algebra.Order.Group.Multiset

/-!
# `Miez.Lib.Resources`: programs that acquire and release resources

A `Script` is a program of which only the resources are of interest: blocks of memory, mutexes,
threads, descriptors. A call that acquires a resource may fail, and gives a code that is 0 when it
has not; `call` is a call that acquires nothing. `run` runs a script under a pattern of failures. It
gets stuck when the script releases or uses a resource that it does not hold.

`Safe` is the specification of a script: under every pattern of failures it does not get stuck, and
its result and the resources that it holds then are as stated. There is one rule for each operation,
a rule for `bind`, and `Safe.relabel` for a script that is a part of a larger one: what the other
parts hold stays as it is. A constructor is `AllOrNothing`, and a destructor `Clears` what the
constructor has made.
-/

set_option autoImplicit false

namespace Miez.Lib

/-- A program that acquires, uses and releases resources. -/
inductive Script (ρ α : Type) : Type where
  | done (a : α)
  | acquireThen (r : ρ) (k : Int → Script ρ α)
  | releaseThen (r : ρ) (k : Script ρ α)
  | useThen (r : ρ) (k : Script ρ α)
  | callThen (k : Int → Script ρ α)

namespace Script

variable {ρ ρ' α β : Type}

/-- One script after the other. -/
def bind : Script ρ α → (α → Script ρ β) → Script ρ β
  | .done a, f => f a
  | .acquireThen r k, f => .acquireThen r fun code => (k code).bind f
  | .releaseThen r k, f => .releaseThen r (k.bind f)
  | .useThen r k, f => .useThen r (k.bind f)
  | .callThen k, f => .callThen fun code => (k code).bind f

instance : Monad (Script ρ) where
  pure := .done
  bind := .bind

/-- A call that acquires `r`, and its code. -/
def acquire (r : ρ) : Script ρ Int := .acquireThen r .done

/-- A call that releases `r`. -/
def release (r : ρ) : Script ρ Unit := .releaseThen r (.done ())

/-- An access to `r`. -/
def use (r : ρ) : Script ρ Unit := .useThen r (.done ())

/-- A call that acquires nothing and may fail, and its code. -/
def call : Script ρ Int := .callThen .done

/-- The resources of a list are released one after the other. -/
def releaseAll : List ρ → Script ρ Unit
  | [] => .done ()
  | r :: rest => .releaseThen r (releaseAll rest)

/-- A script for a part of a larger object. -/
def relabel (f : ρ → ρ') : Script ρ α → Script ρ' α
  | .done a => .done a
  | .acquireThen r k => .acquireThen (f r) fun code => (k code).relabel f
  | .releaseThen r k => .releaseThen (f r) (k.relabel f)
  | .useThen r k => .useThen (f r) (k.relabel f)
  | .callThen k => .callThen fun code => (k code).relabel f

variable [DecidableEq ρ] [DecidableEq ρ']

/-- Runs a script that holds `held` when the next calls give the codes `codes`. -/
def run : Script ρ α → Multiset ρ → (Nat → Int) → Option (α × Multiset ρ × (Nat → Int))
  | .done a, held, codes => some (a, held, codes)
  | .acquireThen r k, held, codes =>
      (k (codes 0)).run (if codes 0 = 0 then r ::ₘ held else held) fun i => codes (i + 1)
  | .releaseThen r k, held, codes => if r ∈ held then k.run (held.erase r) codes else none
  | .useThen r k, held, codes => if r ∈ held then k.run held codes else none
  | .callThen k, held, codes => (k (codes 0)).run held fun i => codes (i + 1)

/-- Under every pattern of failures the script does not get stuck, and its result and what it holds
are as `post` says. -/
def Safe (s : Script ρ α) (held : Multiset ρ) (post : α → Multiset ρ → Prop) : Prop :=
  ∀ codes, ∃ a held' codes', s.run held codes = some (a, held', codes') ∧ post a held'

/-! ### The rules -/

section
variable {s : Script ρ α} {f : α → Script ρ β} {held : Multiset ρ} {r : ρ}

/-- A script that is done. -/
theorem Safe.pure {post : α → Multiset ρ → Prop} {a : α} (h : post a held) :
    Safe (Pure.pure a) held post :=
  fun codes => ⟨a, held, codes, rfl, h⟩

/-- A weaker specification. -/
theorem Safe.mono {post post' : α → Multiset ρ → Prop} (h : Safe s held post)
    (hpost : ∀ a held', post a held' → post' a held') : Safe s held post' := by
  intro codes
  obtain ⟨a, held', codes', hrun, ha⟩ := h codes
  exact ⟨a, held', codes', hrun, hpost a held' ha⟩

/-- The run of two scripts. -/
theorem run_bind (s : Script ρ α) (f : α → Script ρ β) (held : Multiset ρ) (codes : Nat → Int) :
    (s.bind f).run held codes =
      (s.run held codes).bind fun r => (f r.1).run r.2.1 r.2.2 := by
  induction s generalizing held codes with
  | done a => rfl
  | acquireThen r k ih => exact ih _ _ _
  | releaseThen r k ih =>
      by_cases hr : r ∈ held
      · simp only [Script.bind, run, if_pos hr]
        exact ih _ _
      · simp only [Script.bind, run, if_neg hr]
        rfl
  | useThen r k ih =>
      by_cases hr : r ∈ held
      · simp only [Script.bind, run, if_pos hr]
        exact ih _ _
      · simp only [Script.bind, run, if_neg hr]
        rfl
  | callThen k ih => exact ih _ _ _

/-- The run of a call that may fail. -/
theorem run_acquire (r : ρ) (f : Int → Script ρ β) (held : Multiset ρ) (codes : Nat → Int) :
    (Script.acquire r >>= f).run held codes =
      (f (codes 0)).run (if codes 0 = 0 then r ::ₘ held else held) fun i => codes (i + 1) := rfl

/-- The rule of sequence. -/
theorem Safe.bind {mid : α → Multiset ρ → Prop} {post : β → Multiset ρ → Prop}
    (h : Safe s held mid) (hf : ∀ a held', mid a held' → Safe (f a) held' post) :
    Safe (s >>= f) held post := by
  intro codes
  obtain ⟨a, held', codes', hrun, ha⟩ := h codes
  obtain ⟨b, held'', codes'', hrun', hb⟩ := hf a held' ha codes'
  refine ⟨b, held'', codes'', ?_, hb⟩
  show (s.bind f).run held codes = _
  rw [run_bind, hrun]
  exact hrun'

/-- The rule of a call that may fail. -/
theorem Safe.acquire {f : Int → Script ρ β} {post : β → Multiset ρ → Prop}
    (hdone : Safe (f 0) ({r} + held) post) (hfail : ∀ code, code ≠ 0 → Safe (f code) held post) :
    Safe (acquire r >>= f) held post := by
  rw [Multiset.singleton_add] at hdone
  intro codes
  show ∃ b held' codes', (f (codes 0)).run (if codes 0 = 0 then r ::ₘ held else held)
    (fun i => codes (i + 1)) = _ ∧ _
  by_cases hcode : codes 0 = 0
  · rw [if_pos hcode, hcode]
    exact hdone _
  · rw [if_neg hcode]
    exact hfail _ hcode _

/-- The rule of a call whose failure is tested at once. -/
theorem Safe.acquire_if {fail : Int → Script ρ β} {next : Script ρ β}
    {post : β → Multiset ρ → Prop} (hdone : Safe next ({r} + held) post)
    (hfail : ∀ code, code ≠ 0 → Safe (fail code) held post) :
    Safe (Script.acquire r >>= fun code => if code ≠ 0 then fail code else next) held post := by
  refine Safe.acquire hdone fun code hcode => ?_
  rw [if_pos hcode]
  exact hfail code hcode

/-- The rule of a release. -/
theorem Safe.release {f : Unit → Script ρ β} {post : β → Multiset ρ → Prop} {k : Multiset ρ}
    (hheld : held = {r} + k) (h : Safe (f ()) k post) : Safe (release r >>= f) held post := by
  intro codes
  show ∃ b held' codes', (if r ∈ held then (f ()).run (held.erase r) codes else none) = _ ∧ _
  rw [hheld, Multiset.singleton_add, if_pos (Multiset.mem_cons_self r k),
    Multiset.erase_cons_head]
  exact h codes

/-- The rule of an access. -/
theorem Safe.use {f : Unit → Script ρ β} {post : β → Multiset ρ → Prop} (hr : r ∈ held)
    (h : Safe (f ()) held post) : Safe (use r >>= f) held post := by
  intro codes
  show ∃ b k codes', (if r ∈ held then (f ()).run held codes else none) = _ ∧ _
  rw [if_pos hr]
  exact h codes

/-- An access leaves the resources alone. -/
theorem safe_use (hr : r ∈ held) : Safe (use r) held fun _ held' => held' = held := by
  intro codes
  exact ⟨(), held, codes, if_pos hr, rfl⟩

/-- The rule of a call that acquires nothing. -/
theorem Safe.call {f : Int → Script ρ β} {post : β → Multiset ρ → Prop}
    (h : ∀ code, Safe (f code) held post) : Safe (call >>= f) held post :=
  fun codes => h (codes 0) fun i => codes (i + 1)

end

/-! ### Parts of a larger object -/

/-- The run of a part. The resources of the other parts stay. -/
theorem run_relabel {f : ρ → ρ'} (hf : Function.Injective f) (s : Script ρ α) (held : Multiset ρ)
    (frame : Multiset ρ') (codes : Nat → Int) {a : α} {held' : Multiset ρ} {codes' : Nat → Int}
    (h : s.run held codes = some (a, held', codes')) :
    (s.relabel f).run (held.map f + frame) codes = some (a, held'.map f + frame, codes') := by
  induction s generalizing held codes with
  | done b =>
      obtain ⟨rfl, rfl, rfl⟩ : b = a ∧ held = held' ∧ codes = codes' := by
        simpa [run] using h
      rfl
  | acquireThen r k ih =>
      simp only [relabel, run] at h ⊢
      have hheld : (if codes 0 = 0 then f r ::ₘ (held.map f + frame) else held.map f + frame)
          = (if codes 0 = 0 then r ::ₘ held else held).map f + frame := by
        split_ifs
        · rw [Multiset.map_cons, Multiset.cons_add]
        · rfl
      rw [hheld]
      exact ih _ _ _ h
  | releaseThen r k ih =>
      simp only [relabel, run] at h ⊢
      by_cases hr : r ∈ held
      · rw [if_pos hr] at h
        have hmem : f r ∈ held.map f := Multiset.mem_map_of_mem f hr
        rw [if_pos (Multiset.mem_add.mpr (Or.inl hmem)), Multiset.erase_add_left_pos _ hmem,
          ← Multiset.map_erase f hf]
        exact ih _ _ h
      · rw [if_neg hr] at h
        cases h
  | useThen r k ih =>
      simp only [relabel, run] at h ⊢
      by_cases hr : r ∈ held
      · rw [if_pos hr] at h
        rw [if_pos (Multiset.mem_add.mpr (Or.inl (Multiset.mem_map_of_mem f hr)))]
        exact ih _ _ h
      · rw [if_neg hr] at h
        cases h
  | callThen k ih => exact ih _ _ _ h

/-- The rule of a part. -/
theorem Safe.relabel {s : Script ρ α} {held : Multiset ρ} {post : α → Multiset ρ → Prop}
    (h : Safe s held post) {f : ρ → ρ'} (hf : Function.Injective f) (frame : Multiset ρ') :
    Safe (s.relabel f) (held.map f + frame) fun a held' =>
      ∃ own, held' = own.map f + frame ∧ post a own := by
  intro codes
  obtain ⟨a, own, codes', hrun, ha⟩ := h codes
  exact ⟨a, own.map f + frame, codes', run_relabel hf s held frame codes hrun, own, rfl, ha⟩

/-- The rule of a frame. -/
theorem Safe.frame {s : Script ρ α} {held : Multiset ρ} {post : α → Multiset ρ → Prop}
    (h : Safe s held post) (frame : Multiset ρ) :
    Safe s (held + frame) fun a held' => ∃ own, held' = own + frame ∧ post a own := by
  have hsame : ∀ s : Script ρ α, s.relabel id = s := by
    intro s
    induction s with
    | done a => rfl
    | acquireThen r k ih => exact congrArg _ (funext ih)
    | releaseThen r k ih | useThen r k ih => exact congrArg _ ih
    | callThen k ih => exact congrArg _ (funext ih)
  have hframe := h.relabel Function.injective_id frame
  rw [hsame, Multiset.map_id] at hframe
  refine hframe.mono ?_
  rintro a held' ⟨own, rfl, ha⟩
  exact ⟨own, by rw [Multiset.map_id], ha⟩

/-! ### Constructors and destructors -/

/-- The constructor gives the code 0 and holds the blocks of a new object, or it gives an error and
holds nothing. -/
def AllOrNothing (s : Script ρ Int) (blocks : Multiset ρ) : Prop :=
  Safe s 0 fun code held => (code = 0 ∧ held = blocks) ∨ (code ≠ 0 ∧ held = 0)

/-- The destructor releases the blocks of an object, and nothing else. -/
def Clears (s : Script ρ α) (blocks : Multiset ρ) : Prop :=
  ∀ frame, Safe s (blocks + frame) fun _ held => held = frame

/-- The rule of a part that is constructed. -/
theorem Safe.construct_if {s : Script ρ Int} {blocks : Multiset ρ} (h : AllOrNothing s blocks)
    {f : ρ → ρ'} (hf : Function.Injective f) {fail : Int → Script ρ' β} {next : Script ρ' β}
    {held : Multiset ρ'} {post : β → Multiset ρ' → Prop}
    (hdone : Safe next (blocks.map f + held) post)
    (hfail : ∀ code, code ≠ 0 → Safe (fail code) held post) :
    Safe (s.relabel f >>= fun code => if code ≠ 0 then fail code else next) held post := by
  have hpart := Safe.relabel h hf held
  rw [Multiset.map_zero, zero_add] at hpart
  refine hpart.bind ?_
  rintro code held' ⟨own, rfl, ⟨rfl, rfl⟩ | ⟨hcode, rfl⟩⟩
  · exact hdone
  · rw [Multiset.map_zero, zero_add, if_pos hcode]
    exact hfail code hcode

/-- The rule of an object that is constructed beside what is held. -/
theorem Safe.make_if {s : Script ρ Int} {blocks : Multiset ρ} (h : AllOrNothing s blocks)
    {fail : Int → Script ρ β} {next : Script ρ β} {held : Multiset ρ}
    {post : β → Multiset ρ → Prop} (hdone : Safe next (blocks + held) post)
    (hfail : ∀ code, code ≠ 0 → Safe (fail code) held post) :
    Safe (s >>= fun code => if code ≠ 0 then fail code else next) held post := by
  have hpart := Safe.frame h held
  rw [zero_add] at hpart
  refine hpart.bind ?_
  rintro code held' ⟨own, rfl, ⟨rfl, rfl⟩ | ⟨hcode, rfl⟩⟩
  · exact hdone
  · rw [zero_add, if_pos hcode]
    exact hfail code hcode

/-- The rule of a destructor. -/
theorem Safe.clear {s : Script ρ α} {blocks : Multiset ρ} (h : Clears s blocks)
    {g : α → Script ρ β} {held k : Multiset ρ} {post : β → Multiset ρ → Prop}
    (hheld : held = blocks + k) (hnext : ∀ a, Safe (g a) k post) : Safe (s >>= g) held post := by
  rw [hheld]
  refine (h k).bind ?_
  rintro a held' rfl
  exact hnext a

/-- The same blocks in another order. -/
theorem Clears.congr {s : Script ρ α} {blocks blocks' : Multiset ρ} (h : Clears s blocks)
    (heq : blocks = blocks') : Clears s blocks' := heq ▸ h

/-- A destructor that does nothing. -/
theorem Clears.pure (a : α) : Clears (Pure.pure a : Script ρ α) 0 :=
  fun frame => Safe.pure (zero_add frame)

/-- One destructor after the other. -/
theorem Clears.seq {s : Script ρ α} {t : Script ρ β} {blocks blocks' : Multiset ρ}
    (h : Clears s blocks) (h' : Clears t blocks') :
    Clears (s >>= fun _ => t) (blocks + blocks') := by
  intro frame
  exact Safe.clear h (add_assoc blocks blocks' frame) fun _ => h' frame

/-- A destructor of a part. -/
theorem Clears.relabel {s : Script ρ α} {blocks : Multiset ρ} (h : Clears s blocks) {f : ρ → ρ'}
    (hf : Function.Injective f) : Clears (s.relabel f) (blocks.map f) := by
  intro frame
  have hpart := Safe.relabel (h 0) hf frame
  rw [add_zero] at hpart
  refine hpart.mono ?_
  rintro a held ⟨own, rfl, rfl⟩
  rw [Multiset.map_zero, zero_add]

/-- A destructor that accesses a block first. -/
theorem Clears.access {s : Script ρ α} {blocks : Multiset ρ} {r : ρ} (hr : r ∈ blocks)
    (h : Clears s blocks) : Clears (Script.use r >>= fun _ => s) blocks :=
  fun frame => Safe.use (Multiset.mem_add.mpr (Or.inl hr)) (h frame)

/-- The rule of an error path that releases all that is held. -/
theorem Safe.undo {s : Script ρ α} {held own blocks : Multiset ρ} (h : Clears s own) {code : Int}
    (hheld : held = own) (hcode : code ≠ 0) :
    Safe (s >>= fun _ => Pure.pure code) held fun code held' =>
      (code = 0 ∧ held' = blocks) ∨ (code ≠ 0 ∧ held' = 0) := by
  rw [hheld]
  exact Safe.clear h (add_zero own).symm fun _ => Safe.pure (Or.inr ⟨hcode, rfl⟩)

/-- Several releases. -/
theorem clears_releaseAll (l : List ρ) : Clears (releaseAll l) (l : Multiset ρ) := by
  induction l with
  | nil => exact Clears.pure ()
  | cons r rest ih =>
      intro frame
      show Safe (release r >>= fun _ => releaseAll rest) _ _
      refine Safe.release ?_ (ih frame)
      rw [← Multiset.cons_coe, Multiset.singleton_add, Multiset.cons_add]

/-- One release. -/
theorem clears_release (r : ρ) : Clears (release r) {r} := clears_releaseAll [r]

end Script

/-! ### Numbered blocks -/

section
variable {ρ ρ' : Type}

/-- The blocks of the parts `i`, ..., `i + count - 1`. -/
def numbered (f : Nat → Multiset ρ) (i count : Nat) : Multiset ρ :=
  ((List.range' i count).map f).sum

@[simp] theorem numbered_zero (f : Nat → Multiset ρ) (i : Nat) : numbered f i 0 = 0 := rfl

/-- The first part, and the others. -/
theorem numbered_succ (f : Nat → Multiset ρ) (i count : Nat) :
    numbered f i (count + 1) = f i + numbered f (i + 1) count := by
  rw [numbered, List.range'_succ, List.map_cons, List.sum_cons]
  rfl

/-- The last part, and the others. -/
theorem numbered_snoc (f : Nat → Multiset ρ) (i count : Nat) :
    numbered f i (count + 1) = numbered f i count + f (i + count) := by
  rw [numbered, List.range'_concat, List.map_append, List.sum_append, Nat.one_mul]
  simp [numbered]

/-- Parts that have parts of two kinds. -/
theorem numbered_add (f g : Nat → Multiset ρ) (i count : Nat) :
    numbered (fun j => f j + g j) i count = numbered f i count + numbered g i count :=
  List.sum_map_add

/-- The parts, as a sum over a finite set. -/
theorem numbered_eq_sum (f : Nat → Multiset ρ) (count : Nat) :
    numbered f 0 count = ∑ j ∈ Finset.range count, f j := by
  induction count with
  | zero => rfl
  | succ count ih => rw [numbered_snoc, ih, Finset.sum_range_succ, Nat.zero_add]

/-- Parts that agree. -/
theorem numbered_congr {f g : Nat → Multiset ρ} {i count : Nat}
    (h : ∀ j, i ≤ j → j < i + count → f j = g j) : numbered f i count = numbered g i count := by
  induction count generalizing i with
  | zero => rfl
  | succ count ih =>
      have hfirst : f i = g i := h i le_rfl (by omega)
      have hrest := ih (i := i + 1) fun j hle hlt => h j (by omega) (by omega)
      rw [numbered_succ, numbered_succ, hfirst, hrest]

/-- Parts without blocks. -/
theorem numbered_eq_zero {f : Nat → Multiset ρ} (h : ∀ j, f j = 0) (i count : Nat) :
    numbered f i count = 0 := by
  induction count generalizing i with
  | zero => rfl
  | succ count ih => rw [numbered_succ, h, ih, zero_add]

/-- The parts of an object that is a part itself. -/
@[simp] theorem map_numbered (g : ρ → ρ') (f : Nat → Multiset ρ) (i count : Nat) :
    (numbered f i count).map g = numbered (fun j => (f j).map g) i count := by
  induction count generalizing i with
  | zero => rfl
  | succ count ih => rw [numbered_succ, numbered_succ, Multiset.map_add, ih]

/-- Numbered single blocks. -/
theorem coe_map_range (f : Nat → ρ) (count : Nat) :
    ((List.range count).map f : Multiset ρ) = numbered (fun j => {f j}) 0 count := by
  induction count with
  | zero => rfl
  | succ count ih =>
      rw [List.range_succ, List.map_append, ← Multiset.coe_add, ih, numbered_snoc, Nat.zero_add]
      rfl

/-- Numbered parts, as a sum over a range. -/
theorem sum_map_range (f : Nat → Multiset ρ) (count : Nat) :
    ((List.range count).map f).sum = numbered f 0 count := by
  rw [numbered, List.range_eq_range']

/-- A list of blocks, as a sum. -/
theorem coe_cons (r : ρ) (l : List ρ) : ((r :: l : List ρ) : Multiset ρ) = {r} + (l : Multiset ρ) :=
  (Multiset.singleton_add r l).symm

end

end Miez.Lib
