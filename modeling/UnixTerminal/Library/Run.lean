import Mathlib.Logic.Basic
import Mathlib.Data.List.Induction

set_option autoImplicit false

/-! # Runs of a partial step function

A system is a step function `step : σ → ε → Option σ` over states `σ` and events `ε` (`none`: the
event does not complete in that state). `Reaches step ok s₀` is the set of states that a run from
`s₀` reaches when every step of it meets the side condition `ok` on the state before the step. A
safety result is then an invariant (`Reaches.invariant`): true at `s₀`, kept by one step.

`withGhost` pairs a system with a history variable that the steps never read. `runEvents` is the run of
a given list of events, for properties of what happened between two of them. -/

namespace UnixTerminal

variable {σ ε γ : Type}

/-- The states reached from `s₀` by steps that all meet `ok`. -/
inductive Reaches (step : σ → ε → Option σ) (ok : σ → ε → Prop) (s₀ : σ) : σ → Prop
  | refl : Reaches step ok s₀ s₀
  | tail {s s' : σ} {e : ε} :
      Reaches step ok s₀ s → ok s e → step s e = some s' → Reaches step ok s₀ s'

/-- Add a history variable: `upd s e s' g` is its value after the step from `s` to `s'` on `e`. -/
def withGhost (step : σ → ε → Option σ) (upd : σ → ε → σ → γ → γ) (s : σ × γ) (e : ε) :
    Option (σ × γ) :=
  (step s.1 e).map (fun s' => (s', upd s.1 e s' s.2))

variable {step : σ → ε → Option σ} {ok : σ → ε → Prop} {s₀ : σ}

/-- **Invariant rule.** What holds at the start and is kept by every admitted step holds in every
    state reached. -/
theorem Reaches.invariant {I : σ → Prop} {s : σ} (h : Reaches step ok s₀ s) (h0 : I s₀)
    (hstep : ∀ s e s', I s → ok s e → step s e = some s' → I s') : I s := by
  induction h with
  | refl => exact h0
  | tail _ hok hs ih => exact hstep _ _ _ ih hok hs

theorem withGhost_of_step {upd : σ → ε → σ → γ → γ} {s s' : σ} {e : ε} (h : step s e = some s')
    (g : γ) : withGhost step upd (s, g) e = some (s', upd s e s' g) := by
  rw [withGhost, h, Option.map_some]

/-- A run is a run of the system with the history variable. -/
theorem Reaches.exists_withGhost {s : σ} (h : Reaches step ok s₀ s) (upd : σ → ε → σ → γ → γ) (g : γ) :
    ∃ g', Reaches (withGhost step upd) (fun s e => ok s.1 e) (s₀, g) (s, g') := by
  induction h with
  | refl => exact ⟨g, Reaches.refl⟩
  | tail _ hok hs ih =>
      obtain ⟨g', ih⟩ := ih
      exact ⟨_, ih.tail hok (withGhost_of_step hs g')⟩

theorem withGhost_eq_some {upd : σ → ε → σ → γ → γ} {s s' : σ × γ} {e : ε}
    (h : withGhost step upd s e = some s') :
    step s.1 e = some s'.1 ∧ s'.2 = upd s.1 e s'.1 s.2 := by
  obtain ⟨t, ht, rfl⟩ := Option.map_eq_some_iff.1 h
  exact ⟨ht, rfl⟩

/-- A run goes on by a step that completes. -/
theorem Reaches.tail_getD {s : σ} (h : Reaches step ok s₀ s) (e : ε) (hok : ok s e)
    (hsome : (step s e).isSome = true) : Reaches step ok s₀ ((step s e).getD s) := by
  obtain ⟨s', hs'⟩ := Option.isSome_iff_exists.1 hsome
  rw [hs']
  exact h.tail hok hs'

theorem isSome_withGhost (upd : σ → ε → σ → γ → γ) (s : σ × γ) (e : ε) :
    (withGhost step upd s e).isSome = (step s.1 e).isSome := by
  rw [withGhost, Option.isSome_map]

/-! ## Lists of events -/

/-- The state behind the events, one step for each; `none`: one of them does not complete. -/
def runEvents (step : σ → ε → Option σ) (s : σ) (es : List ε) : Option σ := es.foldlM step s

/-- Every step that the events make meets `ok`. -/
def EachStep (step : σ → ε → Option σ) (ok : σ → ε → Prop) (s₀ : σ) (es : List ε) : Prop :=
  ∀ before e, before ++ [e] <+: es → ∀ s, runEvents step s₀ before = some s → ok s e

theorem runEvents_append (s : σ) (es es' : List ε) :
    runEvents step s (es ++ es') = (runEvents step s es).bind (fun s' => runEvents step s' es') :=
  List.foldlM_append

theorem runEvents_concat {s s' : σ} {es : List ε} {e : ε} :
    runEvents step s (es ++ [e]) = some s' ↔ ∃ t, runEvents step s es = some t ∧ step t e = some s' := by
  rw [runEvents_append, Option.bind_eq_some_iff]
  refine exists_congr (fun t => and_congr_right (fun _ => ?_))
  simp [runEvents]

/-- A run goes through a state behind each of its prefixes. -/
theorem exists_runEvents_of_prefix {s s' : σ} {before es : List ε} (hpre : before <+: es)
    (h : runEvents step s es = some s') : ∃ t, runEvents step s before = some t := by
  obtain ⟨after, rfl⟩ := hpre
  rw [runEvents_append] at h
  obtain ⟨t, ht, -⟩ := Option.bind_eq_some_iff.1 h
  exact ⟨t, ht⟩

theorem EachStep.of_prefix {before es : List ε} (h : EachStep step ok s₀ es) (hpre : before <+: es) :
    EachStep step ok s₀ before :=
  fun _ _ hb => h _ _ (hb.trans hpre)

theorem eachStep_nil : EachStep step ok s₀ [] := by
  intro before e hpre
  exact absurd (List.prefix_nil.1 hpre) (by simp)

/-- One more step. -/
theorem EachStep.concat {es : List ε} {e : ε} (h : EachStep step ok s₀ es)
    (he : ∀ s, runEvents step s₀ es = some s → ok s e) : EachStep step ok s₀ (es ++ [e]) := by
  intro before e' hpre s hs
  rcases List.prefix_concat_iff.1 hpre with heq | hpre
  · obtain ⟨rfl, he'⟩ := List.append_inj' heq rfl
    cases he'
    exact he s hs
  · exact h before e' hpre s hs

/-- **Invariants of events and state.** -/
theorem runEvents_invariant {I : List ε → σ → Prop} (h0 : I [] s₀)
    (hstep : ∀ es e s s', I es s → ok s e → step s e = some s' → I (es ++ [e]) s') :
    ∀ {es : List ε} {s : σ}, EachStep step ok s₀ es → runEvents step s₀ es = some s → I es s := by
  intro es
  induction es using List.reverseRecOn with
  | nil =>
      intro s _ h
      cases h
      exact h0
  | append_singleton es e ih =>
      intro s' hok h
      obtain ⟨s, hs, hse⟩ := runEvents_concat.1 h
      exact hstep es e s s' (ih (hok.of_prefix (List.prefix_append _ _)) hs)
        (hok es e (List.prefix_refl _) s hs) hse

end UnixTerminal
