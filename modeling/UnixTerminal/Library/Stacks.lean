import Mathlib.Data.List.Basic
import Mathlib.Logic.Function.Basic

set_option autoImplicit false

/-! # Families of call stacks

A stack is the list of the running calls, the innermost first. `Linked parent root l` says that every
call records the call below it as its parent, and the outermost one records `root`. `Separate stk`
says that the stacks of a family share no call and repeat none. Both are kept by a push of a fresh
call and by a pop. -/

namespace UnixTerminal

variable {α ι : Type}

/-! ## Parent links -/

/-- Each element records the next one as its parent, the last one records `root`. -/
def Linked (parent : α → α) (root : α) : List α → Prop
  | [] => True
  | p :: l => parent p = l.headD root ∧ Linked parent root l

theorem Linked.congr {parent parent' : α → α} {root : α} {l : List α} (h : Linked parent root l)
    (heq : ∀ p ∈ l, parent' p = parent p) : Linked parent' root l := by
  induction l with
  | nil => trivial
  | cons p l ih =>
      refine ⟨?_, ih h.2 (fun q hq => heq q (List.mem_cons_of_mem _ hq))⟩
      rw [heq p List.mem_cons_self]
      exact h.1

theorem Linked.tail {parent : α → α} {root : α} {l : List α} (h : Linked parent root l) :
    Linked parent root l.tail := by
  cases l with
  | nil => trivial
  | cons p l => exact h.2

/-- The call below the innermost one, if that does not record `root`. -/
theorem Linked.below {parent : α → α} {root p : α} {l : List α} (h : Linked parent root (p :: l))
    (hp : parent p ≠ root) : ∃ l', l = parent p :: l' := by
  cases l with
  | nil => exact absurd h.1 hp
  | cons q l' =>
      have hq : parent p = q := h.1
      exact ⟨l', hq ▸ rfl⟩

/-- The parent of a call is on the stack, or it is `root`. -/
theorem Linked.parent_mem {parent : α → α} {root p : α} {l : List α} (h : Linked parent root l)
    (hp : p ∈ l) : parent p = root ∨ parent p ∈ l := by
  induction l with
  | nil => exact absurd hp List.not_mem_nil
  | cons q l ih =>
      rcases List.mem_cons.1 hp with rfl | hp
      · cases l with
        | nil => exact Or.inl h.1
        | cons q' l' =>
            have hq : parent p = q' := h.1
            exact Or.inr (hq ▸ List.mem_cons_of_mem _ List.mem_cons_self)
      · exact (ih h.2 hp).imp id (List.mem_cons_of_mem _)

/-- An innermost call that records `root`, which is no call, is the only one. -/
theorem Linked.eq_singleton {parent : α → α} {root p : α} {l : List α}
    (h : Linked parent root (p :: l)) (hp : parent p = root) (hroot : root ∉ l) : l = [] := by
  cases l with
  | nil => rfl
  | cons q l' =>
      have hq : parent p = q := h.1
      exact absurd (hp ▸ hq ▸ List.mem_cons_self) hroot

/-! ## Separate stacks -/

/-- No element is on two stacks, or twice on one. -/
structure Separate (stk : ι → List α) : Prop where
  nodup : ∀ i, (stk i).Nodup
  eq_of_mem : ∀ i j p, p ∈ stk i → p ∈ stk j → i = j

namespace Separate

variable {stk : ι → List α}

theorem empty : Separate (fun _ : ι => ([] : List α)) :=
  ⟨fun _ => List.nodup_nil, fun _ _ _ h => absurd h List.not_mem_nil⟩

variable [DecidableEq ι]

/-- Push an element that is on no stack. -/
theorem push (h : Separate stk) (i : ι) {p : α} (hp : ∀ j, p ∉ stk j) :
    Separate (Function.update stk i (p :: stk i)) := by
  have hmem : ∀ j q, q ∈ Function.update stk i (p :: stk i) j → (q = p ∧ j = i) ∨ q ∈ stk j := by
    intro j q hq
    by_cases hj : j = i
    · subst hj
      rw [Function.update_self] at hq
      exact (List.mem_cons.1 hq).imp (fun h => ⟨h, rfl⟩) id
    · rw [Function.update_of_ne hj] at hq
      exact Or.inr hq
  constructor
  · intro j
    by_cases hj : j = i
    · subst hj
      rw [Function.update_self]
      exact List.nodup_cons.2 ⟨hp j, h.nodup j⟩
    · rw [Function.update_of_ne hj]
      exact h.nodup j
  · intro j j' q hq hq'
    rcases hmem j q hq with ⟨rfl, rfl⟩ | hold
    · rcases hmem j' q hq' with ⟨-, rfl⟩ | hold'
      · rfl
      · exact absurd hold' (hp j')
    · rcases hmem j' q hq' with ⟨rfl, -⟩ | hold'
      · exact absurd hold (hp j)
      · exact h.eq_of_mem j j' q hold hold'

theorem mem_of_mem_pop {i j : ι} {p : α} (hp : p ∈ Function.update stk i (stk i).tail j) :
    p ∈ stk j := by
  by_cases hj : j = i
  · subst hj
    rw [Function.update_self] at hp
    exact List.mem_of_mem_tail hp
  · rwa [Function.update_of_ne hj] at hp

theorem pop (h : Separate stk) (i : ι) : Separate (Function.update stk i (stk i).tail) := by
  refine ⟨fun j => ?_, fun j j' p hp hp' =>
    h.eq_of_mem j j' p (mem_of_mem_pop hp) (mem_of_mem_pop hp')⟩
  by_cases hj : j = i
  · subst hj
    rw [Function.update_self]
    exact (h.nodup j).tail
  · rw [Function.update_of_ne hj]
    exact h.nodup j

/-- The element that a pop takes away is on no stack any more. -/
theorem not_mem_pop (h : Separate stk) {i j : ι} {p : α} {l : List α} (hi : stk i = p :: l) :
    p ∉ Function.update stk i (stk i).tail j := by
  intro hp
  have hj : j = i := h.eq_of_mem j i p (mem_of_mem_pop hp) (hi ▸ List.mem_cons_self)
  subst hj
  rw [Function.update_self, hi] at hp
  exact (List.nodup_cons.1 (hi ▸ h.nodup j)).1 hp

end Separate

end UnixTerminal
