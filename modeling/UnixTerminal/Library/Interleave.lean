import Mathlib.Logic.Basic

set_option autoImplicit false

/-! # A thread among others

A thread is given by what one statement does: `exec p s` runs the statement at control point `p` (with
the local variables in `p`) on the shared state `s` and yields the next point, or the result. Before
each statement others may change the shared state, as `gap p` allows at that point. `Interleaved` is the
set of complete executions, and `Interleaved.post` the proof rule for them: an assertion at every
point that is stable under the gaps and leads from each statement to the next.

`soloRun` is the thread alone, with a list of what its statements access. -/

namespace UnixTerminal

variable {π σ β : Type}

/-- The thread at point `p` in state `s` ends with result `b` in state `s'`. -/
inductive Interleaved (exec : π → σ → (π ⊕ β) × σ) (gap : π → σ → σ → Prop) :
    π → σ → β → σ → Prop
  | step {p p' : π} {s s₁ s₂ s' : σ} {b : β} (hgap : gap p s s₁) (hexec : exec p s₁ = (.inl p', s₂))
      (hrest : Interleaved exec gap p' s₂ b s') : Interleaved exec gap p s b s'
  | done {p : π} {s s₁ s' : σ} {b : β} (hgap : gap p s s₁) (hexec : exec p s₁ = (.inr b, s')) :
      Interleaved exec gap p s b s'

variable {exec : π → σ → (π ⊕ β) × σ} {gap : π → σ → σ → Prop}

/-- **Stable assertions.** What holds at the first point, is stable under the gaps and is carried on by
    the statements leads to the postcondition. -/
theorem Interleaved.post {A : π → σ → Prop} {Q : β → σ → Prop} {p : π} {s s' : σ} {b : β}
    (h : Interleaved exec gap p s b s') (hstart : A p s)
    (hstable : ∀ p s s', A p s → gap p s s' → A p s')
    (hstep : ∀ p s p' s', A p s → exec p s = (.inl p', s') → A p' s')
    (hdone : ∀ p s b s', A p s → exec p s = (.inr b, s') → Q b s') : Q b s' := by
  induction h with
  | step hgap hexec _ ih => exact ih (hstep _ _ _ _ (hstable _ _ _ hstart hgap) hexec)
  | done hgap hexec => exact hdone _ _ _ _ (hstable _ _ _ hstart hgap) hexec

/-- **Completion.** A thread whose statements decrease a rank ends, whatever the others choose to do in
    the gaps. -/
theorem Interleaved.exists_of_rank (rank : π → Nat)
    (hrank : ∀ p s p' s', exec p s = (.inl p', s') → rank p' < rank p) (others : π → σ → σ)
    (hothers : ∀ p s, gap p s (others p s)) (p : π) (s : σ) : ∃ b s', Interleaved exec gap p s b s' := by
  induction hn : rank p using Nat.strongRecOn generalizing p s with
  | ind n ih =>
      rcases he : exec p (others p s) with ⟨p' | b, s'⟩
      · obtain ⟨b, t, h⟩ := ih (rank p') (hn ▸ hrank _ _ _ _ he) p' s' rfl
        exact ⟨b, t, .step (hothers p s) he h⟩
      · exact ⟨b, s', .done (hothers p s) he⟩

/-! ## A thread alone -/

variable {ι : Type}

/-- The thread without others, for at most `fuel` statements: its result, the state it leaves and what
    its statements access, in their order; `none`: the fuel ran out. -/
def soloRun (exec : π → σ → (π ⊕ β) × σ) (accesses : π → σ → List ι) :
    Nat → π → σ → Option (β × σ × List ι)
  | 0, _, _ => none
  | fuel + 1, p, s =>
      match exec p s with
      | (.inl p', s') =>
          (soloRun exec accesses fuel p' s').map (fun r => (r.1, r.2.1, accesses p s ++ r.2.2))
      | (.inr b, s') => some (b, s', accesses p s)

/-- `n` statements are enough. -/
def SoloEnds (exec : π → σ → (π ⊕ β) × σ) (accesses : π → σ → List ι) (n : Nat) (p : π) (s : σ)
    (r : β × σ × List ι) : Prop :=
  ∀ fuel, n ≤ fuel → soloRun exec accesses fuel p s = some r

variable {accesses : π → σ → List ι} {n : Nat} {p p' : π} {s s' t : σ} {b : β} {l : List ι}

theorem SoloEnds.step (hexec : exec p s = (.inl p', s')) (h : SoloEnds exec accesses n p' s' (b, t, l)) :
    SoloEnds exec accesses (n + 1) p s (b, t, accesses p s ++ l) := by
  intro fuel hfuel
  cases fuel with
  | zero => exact absurd hfuel (Nat.not_succ_le_zero n)
  | succ fuel =>
      rw [soloRun, hexec]
      dsimp only
      rw [h fuel (Nat.le_of_succ_le_succ hfuel), Option.map_some]

theorem SoloEnds.done (hexec : exec p s = (.inr b, s')) :
    SoloEnds exec accesses 1 p s (b, s', accesses p s) := by
  intro fuel hfuel
  cases fuel with
  | zero => exact absurd hfuel (Nat.not_succ_le_zero 0)
  | succ fuel => rw [soloRun, hexec]

/-- There is one result. -/
theorem SoloEnds.unique {n' : Nat} {r r' : β × σ × List ι} (h : SoloEnds exec accesses n p s r)
    (h' : SoloEnds exec accesses n' p s r') : r' = r := by
  have hr := h (n + n') (Nat.le_add_right n n')
  have hr' := h' (n + n') (Nat.le_add_left n' n)
  exact Option.some.inj (hr'.symm.trans hr)

end UnixTerminal
