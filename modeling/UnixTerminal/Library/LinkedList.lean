import Mathlib.Data.List.Nodup
import Mathlib.Logic.Function.Basic
import UnixTerminal.Library.Fuel

set_option autoImplicit false

/-! # Singly linked lists

Cells with a link to the next cell, or to none. `Chained next p l`: from the link `p` on, the links lead
through the cells `l` and end there. The list `l` is determined by the links (`Chained.unique`), and the
links being a function, no cell is in it twice (`Chained.nodup`).

The loop rules are for loops of the form `while (p) p = p->next`: one that does something at every cell
(`Chained.breaks_visit`), one that looks for a cell (`Chained.breaks_search`), and one that looks for the link
to a cell (`Chained.breaks_prev`). `foreverRun_eq_none` is the rule for a loop that never ends. -/

namespace UnixTerminal

variable {ι σ ρ : Type}

/-- The cells that the links lead through, from `p` on. -/
def Chained (next : ι → Option ι) : Option ι → List ι → Prop
  | p, [] => p = none
  | p, i :: l => p = some i ∧ Chained next (next i) l

section Links

variable {next next' : ι → Option ι} {p : Option ι} {l l' : List ι} {i : ι}

theorem chained_nil (next : ι → Option ι) : Chained next none [] := rfl

theorem Chained.unique (h : Chained next p l) (h' : Chained next p l') : l = l' := by
  induction l generalizing p l' with
  | nil =>
      cases l' with
      | nil => rfl
      | cons j l' => exact absurd (h.symm.trans h'.1) (by simp)
  | cons i l ih =>
      cases l' with
      | nil => exact absurd (h'.symm.trans h.1) (by simp)
      | cons j l' =>
          obtain rfl : i = j := Option.some_inj.1 (h.1.symm.trans h'.1)
          rw [ih h.2 h'.2]

/-- What comes behind a cell is a list of its own. -/
theorem Chained.behind {before after : List ι} (h : Chained next p (before ++ i :: after)) :
    Chained next (some i) (i :: after) ∧ Chained next (next i) after := by
  induction before generalizing p with
  | nil => exact ⟨⟨rfl, h.2⟩, h.2⟩
  | cons j before ih => exact ih h.2

theorem Chained.nodup (h : Chained next p l) : l.Nodup := by
  induction l generalizing p with
  | nil => exact List.nodup_nil
  | cons i l ih =>
      refine List.nodup_cons.2 ⟨fun hmem => ?_, ih h.2⟩
      -- the list behind the second visit would be the whole list again
      obtain ⟨before, after, hl⟩ := List.append_of_mem hmem
      obtain ⟨hself, -⟩ := Chained.behind (hl ▸ h.2)
      have hlen := congrArg List.length (hself.unique (h.1 ▸ h))
      rw [hl] at hlen
      simp only [List.length_cons, List.length_append] at hlen
      omega

/-- Only the links of the cells in the list matter. -/
theorem Chained.congr (h : Chained next p l) (heq : ∀ i ∈ l, next' i = next i) : Chained next' p l := by
  induction l generalizing p with
  | nil => exact h
  | cons i l ih =>
      refine ⟨h.1, ?_⟩
      rw [heq i List.mem_cons_self]
      exact ih h.2 (fun j hj => heq j (List.mem_cons_of_mem i hj))

/-- A new cell in front. -/
theorem Chained.insert [DecidableEq ι] (h : Chained next p l) (hi : i ∉ l) :
    Chained (Function.update next i p) (some i) (i :: l) := by
  refine ⟨rfl, ?_⟩
  rw [Function.update_self]
  exact h.congr (fun j hj => Function.update_of_ne (ne_of_mem_of_not_mem hj hi) _ _)

/-! ## Cutting a cell out

`prev` is the place of a link: `none` is the one that the list starts from, `some j` that of cell `j`. -/

/-- The link at a place. -/
def linkAt (head : Option ι) (next : ι → Option ι) : Option ι → Option ι
  | none => head
  | some j => next j

/-- The place of the link to the cell behind `before`. -/
def placeBehind (before : List ι) : Option ι := before.getLast?

theorem linkAt_placeBehind {before after : List ι} (h : Chained next p (before ++ i :: after)) :
    linkAt p next (placeBehind before) = some i := by
  induction before generalizing p with
  | nil => exact h.1
  | cons j before ih =>
      have hnext := ih h.2
      cases before with
      | nil => exact hnext
      | cons j' before => exact hnext

/-- The cell behind `before` is cut out where the list has started before it. -/
theorem Chained.cut [DecidableEq ι] {before after : List ι} {j : ι} (h : Chained next p (before ++ j :: i :: after)) :
    Chained (Function.update next j (next i)) p (before ++ j :: after) := by
  have hnodup := h.nodup
  induction before generalizing p with
  | nil =>
      refine ⟨h.1, ?_⟩
      rw [Function.update_self]
      have hj : j ∉ i :: after := (List.nodup_cons.1 hnodup).1
      exact h.2.2.congr (fun x hx =>
        Function.update_of_ne (ne_of_mem_of_not_mem (List.mem_cons_of_mem i hx) hj) _ _)
  | cons x before ih =>
      refine ⟨h.1, ?_⟩
      obtain ⟨hx, hnodup⟩ := List.nodup_cons.1 hnodup
      rw [Function.update_of_ne (fun heq => hx (by simp [heq]))]
      exact ih h.2 hnodup

end Links

/-! ## Loops along the links -/

section Loops

variable {next : ι → Option ι} {p : Option ι} {l : List ι}

/-- **A loop over the list.** At every cell it does `visit`, which keeps the links. -/
theorem Chained.breaks_visit {body : σ × Option ι → Option (ρ ⊕ σ × Option ι)} (link : σ → ι → Option ι)
    (visit : σ → ι → σ) (result : σ → ρ) (hend : ∀ s, body (s, none) = some (.inl (result s)))
    (hcell : ∀ s i, body (s, some i) = some (.inr (visit s i, link (visit s i) i)))
    (hlink : ∀ s i, link (visit s i) = link s) {s : σ} (h : Chained (link s) p l) :
    Breaks (fun _ => body) (s, p) (result (l.foldl visit s)) := by
  induction l generalizing s p with
  | nil =>
      obtain rfl : p = none := h
      refine Breaks.here ?_
      simp only [hend]
      exact yields_some _
  | cons i l ih =>
      obtain ⟨rfl, hl⟩ := h
      have hpass : Yields (fun _ => body (s, some i)) (.inr (visit s i, link (visit s i) i)) := by
        simp only [hcell]
        exact yields_some _
      rw [← hlink s i] at hl
      exact Breaks.pass hpass (ih hl)

/-- **A search in the list.** -/
theorem Chained.breaks_search {body : Option ι → Option (Option ι ⊕ Option ι)} {wanted : ι → Bool}
    (hend : body none = some (.inl none))
    (hcell : ∀ i, body (some i) = some (if wanted i then .inl (some i) else .inr (next i)))
    (h : Chained next p l) : Breaks (fun _ => body) p (l.find? wanted) := by
  induction l generalizing p with
  | nil =>
      obtain rfl : p = none := h
      refine Breaks.here ?_
      simp only [hend]
      exact yields_some _
  | cons i l ih =>
      obtain ⟨rfl, hl⟩ := h
      cases hw : wanted i with
      | true =>
          rw [List.find?_cons_of_pos hw]
          refine Breaks.here ?_
          simp only [hcell, hw, if_true]
          exact yields_some _
      | false =>
          rw [List.find?_cons_of_neg (by simp [hw])]
          have hpass : Yields (fun _ => body (some i)) (.inr (next i)) := by
            simp only [hcell, hw, Bool.false_eq_true, if_false]
            exact yields_some _
          exact Breaks.pass hpass (ih hl)

/-- **A search for the link to a cell.** -/
theorem Chained.breaks_prev {head : Option ι} {body : Option ι → Option (Option ι ⊕ Option ι)} {i : ι}
    {after : List ι} (hhere : ∀ prev, linkAt head next prev = some i → body prev = some (.inl prev))
    (hcell : ∀ prev j, linkAt head next prev = some j → j ≠ i → body prev = some (.inr (some j))) :
    ∀ (before passed : List ι), Chained next head (passed ++ (before ++ i :: after)) →
      Breaks (fun _ => body) (placeBehind passed) (placeBehind (passed ++ before)) := by
  intro before
  induction before with
  | nil =>
      intro passed h
      rw [List.append_nil]
      refine Breaks.here ?_
      simp only [hhere _ (linkAt_placeBehind h)]
      exact yields_some _
  | cons j before ih =>
      intro passed h
      have hj : j ≠ i := by
        rintro rfl
        have hnodup := (List.nodup_append.1 h.nodup).2.1
        exact (List.nodup_cons.1 hnodup).1 (by simp)
      have hnext := ih (passed ++ [j]) (by simpa using h)
      rw [show placeBehind (passed ++ [j]) = some j from by simp [placeBehind],
        List.append_assoc, List.singleton_append] at hnext
      have hpass : Yields (fun _ => body (placeBehind passed)) (.inr (some j)) := by
        simp only [hcell _ j (linkAt_placeBehind h) hj]
        exact yields_some _
      exact Breaks.pass hpass hnext

end Loops

/-- **A loop that never ends.** Every pass goes round again, and the next one is such a pass too. -/
theorem foreverRun_eq_none {body : σ → Option (ρ ⊕ σ)} {I : σ → Prop}
    (hpass : ∀ s, I s → ∃ s', body s = some (.inr s') ∧ I s') : ∀ (fuel : Nat) {s : σ}, I s →
      foreverRun body fuel s = none := by
  intro fuel
  induction fuel with
  | zero => exact fun _ => rfl
  | succ fuel ih =>
      intro s hs
      obtain ⟨s', hbody, hs'⟩ := hpass s hs
      rw [foreverRun, hbody, Option.bind_some]
      exact ih hs'

end UnixTerminal
