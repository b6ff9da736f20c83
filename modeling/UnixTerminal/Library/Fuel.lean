import Mathlib.Logic.Basic

set_option autoImplicit false

/-! # Programs with enough fuel

A program whose loops have a bound on their passes is a function of that bound, the fuel, and `none` where
it runs out. `Yields` says what such a program returns once there is enough of it, and how much that is
is left open: programs are put together (`Yields.bind`) and loops unrolled without counting.

`foreverRun` is `while (1)`, the loop that a `break` ends. `Breaks` is its run, pass by pass, with bodies
that need fuel of their own. -/

namespace UnixTerminal

variable {σ ρ α β : Type}

/-! ## Results -/

/-- The program returns `a` for every fuel that is enough. -/
def Yields (f : Nat → Option α) (a : α) : Prop := ∃ n, ∀ fuel, n ≤ fuel → f fuel = some a

theorem yields_some (a : α) : Yields (fun _ => some a) a := ⟨0, fun _ _ => rfl⟩

/-- A program that is another one for every fuel. -/
theorem Yields.congr {f g : Nat → Option α} {a : α} (hg : Yields g a) (h : ∀ fuel, f fuel = g fuel) :
    Yields f a := by
  have heq : f = g := funext h
  rwa [heq]

theorem Yields.bind {f : Nat → Option α} {g : Nat → α → Option β} {a : α} {b : β} (hf : Yields f a)
    (hg : Yields (fun fuel => g fuel a) b) : Yields (fun fuel => (f fuel).bind (g fuel)) b := by
  obtain ⟨n, hn⟩ := hf
  obtain ⟨m, hm⟩ := hg
  refine ⟨max n m, fun fuel hfuel => ?_⟩
  simp only
  rw [hn fuel (Nat.le_trans (Nat.le_max_left n m) hfuel), Option.bind_some]
  exact hm fuel (Nat.le_trans (Nat.le_max_right n m) hfuel)

theorem Yields.map {f : Nat → Option α} {a : α} (hf : Yields f a) (g : α → β) :
    Yields (fun fuel => (f fuel).map g) (g a) := by
  obtain ⟨n, hn⟩ := hf
  refine ⟨n, fun fuel hfuel => ?_⟩
  simp only
  rw [hn fuel hfuel, Option.map_some]

/-! ## `while (1)` -/

/-- The body goes round again with `.inr`, and leaves the loop with `.inl`. -/
def foreverRun (body : σ → Option (ρ ⊕ σ)) : Nat → σ → Option ρ
  | 0, _ => none
  | fuel + 1, s =>
      (body s).bind fun
        | .inl r => some r
        | .inr s' => foreverRun body fuel s'

/-- From `s` the loop breaks with `r`, after some number of passes. -/
inductive Breaks (body : Nat → σ → Option (ρ ⊕ σ)) : σ → ρ → Prop
  | here {s : σ} {r : ρ} : Yields (fun fuel => body fuel s) (.inl r) → Breaks body s r
  | pass {s s' : σ} {r : ρ} :
      Yields (fun fuel => body fuel s) (.inr s') → Breaks body s' r → Breaks body s r

/-- **The loop rule.** The loop returns what its run breaks with. -/
theorem Breaks.yields {body : Nat → σ → Option (ρ ⊕ σ)} {s : σ} {r : ρ} (h : Breaks body s r) :
    Yields (fun fuel => foreverRun (body fuel) fuel s) r := by
  -- the passes use up fuel, the bodies do not
  have hrun : ∃ n, ∀ fuel, n ≤ fuel → ∀ passes, n ≤ passes → foreverRun (body fuel) passes s = some r := by
    induction h with
    | here hbody =>
        obtain ⟨n, hn⟩ := hbody
        refine ⟨n + 1, fun fuel hfuel passes hpasses => ?_⟩
        obtain ⟨m, rfl⟩ := Nat.exists_eq_add_of_le' hpasses
        have hfirst := hn fuel (Nat.le_of_succ_le hfuel)
        simp only at hfirst
        rw [← Nat.add_assoc, foreverRun, hfirst, Option.bind_some]
    | pass hbody _ ih =>
        obtain ⟨n, hn⟩ := hbody
        obtain ⟨m, hm⟩ := ih
        refine ⟨max n m + 1, fun fuel hfuel passes hpasses => ?_⟩
        obtain ⟨k, rfl⟩ := Nat.exists_eq_add_of_le' hpasses
        have hfirst := hn fuel (by omega)
        simp only at hfirst
        rw [← Nat.add_assoc, foreverRun, hfirst, Option.bind_some]
        exact hm fuel (by omega) _ (by omega)
  obtain ⟨n, hn⟩ := hrun
  exact ⟨n, fun fuel hfuel => hn fuel hfuel fuel hfuel⟩

end UnixTerminal
