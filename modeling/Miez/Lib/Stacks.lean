import Mathlib

/-!
# `Miez.Lib.Stacks`: a family of stacks

A family of stacks over an index type `ι`, of which finitely many are not empty. `push` and `pop`
change one of them. `depth` is the number of items in all stacks together: `depth_push` and
`depth_pop` say how it changes. `finsum_update_add` is the sum of a finitely supported function
after a change of one value.
-/

set_option autoImplicit false

namespace Miez.Lib

open scoped Classical

/-- A sum over finitely many values that are not 0, after one value changed. The old value stands
on the left, so the equation needs no subtraction. -/
theorem finsum_update_add {ι : Type} {f : ι → Nat} (hf : f.support.Finite) (i : ι) (b : Nat) :
    ∑ᶠ j, Function.update f i b j + f i = ∑ᶠ j, f j + b := by
  have hsupport : f.support ⊆ ↑(insert i hf.toFinset) := by
    intro j hj
    simp [show f j ≠ 0 from hj]
  have hsupport' : (Function.update f i b).support ⊆ ↑(insert i hf.toFinset) := by
    intro j hj
    by_cases hji : j = i
    · simp [hji]
    · have hfj : f j ≠ 0 := by
        intro h0
        exact hj (by rw [Function.update_of_ne hji, h0])
      simp [hfj]
  rw [finsum_eq_sum_of_support_subset _ hsupport, finsum_eq_sum_of_support_subset _ hsupport']
  have hmem : i ∈ insert i hf.toFinset := Finset.mem_insert_self _ _
  have hrest : ∑ j ∈ (insert i hf.toFinset).erase i, Function.update f i b j
      = ∑ j ∈ (insert i hf.toFinset).erase i, f j :=
    Finset.sum_congr rfl fun j hj => Function.update_of_ne (Finset.ne_of_mem_erase hj) _ _
  rw [← Finset.sum_erase_add _ _ hmem, ← Finset.sum_erase_add _ f hmem, hrest,
    Function.update_self]
  omega

/-- A family of stacks, each with its top first. -/
abbrev Stacks (ι ν : Type) : Type := ι → List ν

namespace Stacks

variable {ι ν : Type}

/-- One item more on the stack `i`. -/
noncomputable def push (st : Stacks ι ν) (i : ι) (v : ν) : Stacks ι ν :=
  Function.update st i (v :: st i)

/-- The stack `i` without its top. -/
noncomputable def pop (st : Stacks ι ν) (i : ι) : Stacks ι ν :=
  Function.update st i (st i).tail

/-- The number of items in all stacks. -/
noncomputable def depth (st : Stacks ι ν) : Nat := ∑ᶠ i, (st i).length

/-- Finitely many stacks have items. -/
def Finite (st : Stacks ι ν) : Prop := (Function.support fun i => (st i).length).Finite

@[simp] theorem push_self (st : Stacks ι ν) (i : ι) (v : ν) : st.push i v i = v :: st i :=
  Function.update_self _ _ _

@[simp] theorem pop_self (st : Stacks ι ν) (i : ι) : st.pop i i = (st i).tail :=
  Function.update_self _ _ _

theorem push_of_ne (st : Stacks ι ν) {i j : ι} (v : ν) (h : j ≠ i) : st.push i v j = st j :=
  Function.update_of_ne h _ _

theorem pop_of_ne (st : Stacks ι ν) {i j : ι} (h : j ≠ i) : st.pop i j = st j :=
  Function.update_of_ne h _ _

/-- No items at all. -/
theorem finite_nil : Finite fun _ : ι => ([] : List ν) := by
  simp [Finite]

/-- No items at all. -/
theorem depth_nil : depth (fun _ : ι => ([] : List ν)) = 0 := by
  simp [depth]

/-- A change of one stack leaves finitely many stacks with items. -/
theorem Finite.update {st : Stacks ι ν} (h : st.Finite) (i : ι) (l : List ν) :
    Finite (Function.update st i l) := by
  refine (h.insert i).subset ?_
  intro j hj
  by_cases hji : j = i
  · exact Or.inl hji
  · right
    intro h0
    refine hj ?_
    show (Function.update st i l j).length = 0
    rw [Function.update_of_ne hji]
    exact h0

theorem Finite.push {st : Stacks ι ν} (h : st.Finite) (i : ι) (v : ν) : (st.push i v).Finite :=
  h.update i _

theorem Finite.pop {st : Stacks ι ν} (h : st.Finite) (i : ι) : (st.pop i).Finite :=
  h.update i _

/-- The number of items after a change of one stack. -/
theorem depth_update {st : Stacks ι ν} (h : st.Finite) (i : ι) (l : List ν) :
    depth (Function.update st i l) + (st i).length = st.depth + l.length := by
  have hlength : (fun j => (Function.update st i l j).length)
      = Function.update (fun j => (st j).length) i l.length := by
    funext j
    by_cases hji : j = i
    · rw [hji, Function.update_self, Function.update_self]
    · rw [Function.update_of_ne hji, Function.update_of_ne hji]
  show ∑ᶠ j, (Function.update st i l j).length + _ = _
  rw [hlength]
  exact finsum_update_add h i l.length

/-- A push adds one item. -/
theorem depth_push {st : Stacks ι ν} (h : st.Finite) (i : ι) (v : ν) :
    (st.push i v).depth = st.depth + 1 := by
  have hupdate := depth_update h i (v :: st i)
  rw [List.length_cons] at hupdate
  show depth (Function.update st i (v :: st i)) = _
  omega

/-- A pop of a stack with items removes one. -/
theorem depth_pop {st : Stacks ι ν} (h : st.Finite) {i : ι} (hi : st i ≠ []) :
    (st.pop i).depth + 1 = st.depth := by
  have hupdate := depth_update h i (st i).tail
  have hlength := List.length_pos_of_ne_nil hi
  rw [List.length_tail] at hupdate
  show depth (Function.update st i (st i).tail) + 1 = _
  omega

end Stacks

end Miez.Lib
