import Mathlib.Logic.Basic

set_option autoImplicit false

/-! # `while` loops by their number of passes

A loop has a test and a body; the body ends a pass, or returns from the function (`.inl`). `loopRun`
runs it for at most `fuel` passes and counts them. The rule for it takes what is true of the state
behind each pass, and gives the exact number of passes: the loop ends, for every fuel that is enough,
and always in the same way. -/

namespace UnixTerminal

variable {σ ρ : Type}

/-- The passes made and the state in which the test failed, or what the body returned; `none`: the
    fuel ran out. -/
def loopRun (test : σ → Bool) (body : σ → ρ ⊕ σ) : Nat → σ → Option (Nat × (ρ ⊕ σ))
  | fuel, s =>
      if test s then
        match fuel with
        | 0 => none
        | fuel + 1 =>
            match body s with
            | .inl r => some (0, .inl r)
            | .inr s' => (loopRun test body fuel s').map (fun r => (r.1 + 1, r.2))
      else some (0, .inr s)

variable {test : σ → Bool} {body : σ → ρ ⊕ σ}

theorem loopRun_stop {s : σ} (h : test s = false) (fuel : Nat) :
    loopRun test body fuel s = some (0, .inr s) := by
  cases fuel <;> simp [loopRun, h]

theorem loopRun_pass {s s' : σ} (htest : test s = true) (hbody : body s = .inr s') (fuel : Nat) :
    loopRun test body (fuel + 1) s = (loopRun test body fuel s').map (fun r => (r.1 + 1, r.2)) := by
  simp [loopRun, htest, hbody]

/-- **Counted loops.** `At n` is true of the state behind pass `n`; every pass up to the `m`-th is made,
    and there the test fails. -/
theorem loopRun_counted {At : Nat → σ → Prop} {m : Nat}
    (hpass : ∀ n s, n < m → At n s → test s = true ∧ ∃ s', body s = .inr s' ∧ At (n + 1) s')
    (hstop : ∀ s, At m s → test s = false) {s : σ} (h : At 0 s) :
    ∃ s', At m s' ∧ ∀ fuel, m ≤ fuel → loopRun test body fuel s = some (m, .inr s') := by
  -- by induction on the passes that are left
  have hleft : ∀ k n s, n + k = m → At n s →
      ∃ s', At m s' ∧ ∀ fuel, k ≤ fuel → loopRun test body fuel s = some (k, .inr s') := by
    intro k
    induction k with
    | zero =>
        intro n s hn hs
        obtain rfl : n = m := hn
        exact ⟨s, hs, fun fuel _ => loopRun_stop (hstop s hs) fuel⟩
    | succ k ih =>
        intro n s hn hs
        obtain ⟨htest, s₁, hbody, hs₁⟩ := hpass n s (by omega) hs
        obtain ⟨s', hs', hrun⟩ := ih (n + 1) s₁ (by omega) hs₁
        refine ⟨s', hs', fun fuel hfuel => ?_⟩
        cases fuel with
        | zero => exact absurd hfuel (by omega)
        | succ fuel =>
            rw [loopRun_pass htest hbody, hrun fuel (by omega)]
            rfl
  exact hleft m 0 s (Nat.zero_add m) h

/-! ## Loops that never return -/

/-- `while (test) body` for at most `fuel` passes; `none`: the fuel ran out. -/
def whileRun (test : σ → Bool) (body : σ → σ) : Nat → σ → Option σ
  | fuel, s =>
      if test s then
        match fuel with
        | 0 => none
        | fuel + 1 => whileRun test body fuel (body s)
      else some s

/-- **Traced loops.** `after n` is the state behind pass `n`; every pass up to the `m`-th is made, and there
    the test fails. -/
theorem whileRun_eq {test : σ → Bool} {body : σ → σ} {after : Nat → σ} {m : Nat}
    (hpass : ∀ n, n < m → test (after n) = true ∧ body (after n) = after (n + 1))
    (hstop : test (after m) = false) {fuel : Nat} (hfuel : m ≤ fuel) :
    whileRun test body fuel (after 0) = some (after m) := by
  have hleft : ∀ fuel n, n ≤ m → m ≤ n + fuel → whileRun test body fuel (after n) = some (after m) := by
    intro fuel
    induction fuel with
    | zero =>
        intro n hn hm
        obtain rfl : n = m := Nat.le_antisymm hn hm
        simp [whileRun, hstop]
    | succ fuel ih =>
        intro n hn hm
        rcases Nat.lt_or_eq_of_le hn with hlt | rfl
        · obtain ⟨htest, hbody⟩ := hpass n hlt
          rw [whileRun, if_pos htest, hbody]
          exact ih (n + 1) hlt (by omega)
        · simp [whileRun, hstop]
  exact hleft fuel 0 (Nat.zero_le m) (by omega)

/-- What every pass keeps holds behind the loop. -/
theorem whileRun_invariant {test : σ → Bool} {body : σ → σ} {I : σ → Prop}
    (hbody : ∀ s, I s → I (body s)) : ∀ {fuel : Nat} {s s' : σ},
      whileRun test body fuel s = some s' → I s → I s' := by
  intro fuel
  induction fuel with
  | zero =>
      intro s s' h hs
      rw [whileRun] at h
      split at h
      · exact absurd h (by simp)
      · cases h
        exact hs
  | succ fuel ih =>
      intro s s' h hs
      rw [whileRun] at h
      split at h
      · exact ih h (hbody s hs)
      · cases h
        exact hs

theorem whileRun_stop {test : σ → Bool} {body : σ → σ} {s : σ} (h : test s = false) (fuel : Nat) :
    whileRun test body fuel s = some s := by
  cases fuel <;> simp [whileRun, h]

/-- **The `while` rule.** Passes that keep the invariant and decrease a rank end, for every fuel that is
    enough and in the same state, with the test false. -/
theorem whileRun_total {test : σ → Bool} {body : σ → σ} {I : σ → Prop} (rank : σ → Nat)
    (hbody : ∀ s, I s → test s = true → I (body s) ∧ rank (body s) < rank s) :
    ∀ {n : Nat} {s : σ}, I s → rank s ≤ n →
      ∃ s', (∀ fuel, n ≤ fuel → whileRun test body fuel s = some s') ∧ I s' ∧ test s' = false := by
  intro n
  induction n with
  | zero =>
      intro s hs hrank
      have htest : test s = false := by
        refine Bool.eq_false_iff.2 (fun htrue => ?_)
        have hlt := (hbody s hs htrue).2
        omega
      exact ⟨s, fun fuel _ => whileRun_stop htest fuel, hs, htest⟩
  | succ n ih =>
      intro s hs hrank
      cases htest : test s with
      | false => exact ⟨s, fun fuel _ => whileRun_stop htest fuel, hs, htest⟩
      | true =>
          obtain ⟨hs₁, hlt⟩ := hbody s hs htest
          obtain ⟨s', hrun, hs', hstop⟩ := ih hs₁ (by omega)
          refine ⟨s', fun fuel hfuel => ?_, hs', hstop⟩
          cases fuel with
          | zero => exact absurd hfuel (Nat.not_succ_le_zero n)
          | succ fuel =>
              rw [whileRun, if_pos htest]
              exact hrun fuel (Nat.le_of_succ_le_succ hfuel)

end UnixTerminal
