import Mathlib.Data.List.Basic

set_option autoImplicit false

/-! # What a piece of code accesses of an array

A state has an array among its parts. `Touches l f s` says that the array's elements outside the list `l` are
neither read nor written by `f` in state `s`: with other values there, `f` does the same and leaves these
values. Code that runs one piece after the other touches what the pieces touch, and code that is `Blind` to the
array touches nothing. -/

namespace UnixTerminal

/-- An array as a part of a state. -/
structure ArrayPart (σ ι β : Type) where
  get : σ → ι → β
  put : σ → (ι → β) → σ
  get_put : ∀ s b, get (put s b) = b
  put_get : ∀ s, put s (get s) = s

namespace ArrayPart

variable {σ ι β α γ : Type} (A : ArrayPart σ ι β)

/-! ## Code that does not know the array -/

/-- `f` neither reads nor writes the array. -/
def Blind (f : σ → σ) : Prop := ∀ s b, f (A.put s b) = A.put (f s) b

variable {A} {f g : σ → σ} {s : σ}

theorem Blind.comp (hg : A.Blind g) (hf : A.Blind f) : A.Blind (fun s => g (f s)) :=
  fun s b => (congrArg g (hf s b)).trans (hg (f s) b)

/-- What the condition of a branch says does not depend on the array. -/
theorem Blind.ite {c : σ → Prop} [DecidablePred c] (hc : ∀ s b, c (A.put s b) ↔ c s) (hf : A.Blind f)
    (hg : A.Blind g) : A.Blind (fun s => if c s then f s else g s) := by
  intro s b
  by_cases h : c s
  · simp only [hc, if_pos h]
    exact hf s b
  · simp only [hc, if_neg h]
    exact hg s b

theorem Blind.foldl {f : σ → γ → σ} (hf : ∀ c, A.Blind (fun s => f s c)) (l : List γ) :
    A.Blind (fun s => l.foldl f s) :=
  fun _ b => List.foldl_hom (fun s => A.put s b) (fun s c => hf c s b)

/-- Functions that agree whatever the array is agree on the state itself. -/
theorem eq_of_put {f g : σ → γ} (h : ∀ b, f (A.put s b) = g (A.put s b)) : f s = g s := by
  have hself := h (A.get s)
  rwa [A.put_get] at hself

/-! ## Code that knows some elements -/

variable [DecidableEq ι]

/-- The array that `a` leaves, with the elements outside the list as in `b`. -/
def patch (l : List ι) (a b : ι → β) : ι → β := fun i => if i ∈ l then a i else b i

variable (A) in
/-- `f` reads and writes nothing outside the list. -/
def Touches (l : List ι) (f : σ → σ) (s : σ) : Prop :=
  ∀ b, (∀ i ∈ l, b i = A.get s i) → f (A.put s b) = A.put (f s) (patch l (A.get (f s)) b)

variable (A) in
/-- The same of code with a result. -/
def TouchesWith (l : List ι) (f : σ → α × σ) (s : σ) : Prop :=
  ∀ b, (∀ i ∈ l, b i = A.get s i) →
    f (A.put s b) = ((f s).1, A.put (f s).2 (patch l (A.get (f s).2) b))

variable {l l' : List ι}

/-- Code that reads the elements of the list and writes none. -/
theorem touches_of_put (h : ∀ b, (∀ i ∈ l, b i = A.get s i) → f (A.put s b) = A.put (f s) b) :
    A.Touches l f s := by
  intro b hb
  have hkeeps : A.get (f s) = A.get s := by
    have hself := h (A.get s) (fun _ _ => rfl)
    rw [A.put_get] at hself
    rw [hself, A.get_put]
  have hpatch : patch l (A.get (f s)) b = b := by
    funext i
    by_cases hi : i ∈ l
    · rw [hkeeps]
      exact (if_pos hi).trans (hb i hi).symm
    · exact if_neg hi
  rw [hpatch, h b hb]

theorem Blind.touches (hf : A.Blind f) (l : List ι) (s : σ) : A.Touches l f s :=
  touches_of_put (fun b _ => hf s b)

theorem touches_id : A.Touches l (fun s => s) s := touches_of_put (fun _ _ => rfl)

/-- The elements outside the list stay. -/
theorem Touches.frame (h : A.Touches l f s) {i : ι} (hi : i ∉ l) : A.get (f s) i = A.get s i := by
  have hself := h (A.get s) (fun _ _ => rfl)
  rw [A.put_get] at hself
  rw [hself, A.get_put]
  exact if_neg hi

/-- Further elements in the list do no harm. -/
theorem Touches.mono (h : A.Touches l f s) (hl : ∀ i ∈ l, i ∈ l') : A.Touches l' f s := by
  intro b hb
  rw [h b (fun i hi => hb i (hl i hi))]
  congr 1
  funext i
  by_cases hi : i ∈ l
  · exact (if_pos hi).trans (if_pos (hl i hi)).symm
  · by_cases hi' : i ∈ l'
    · exact (if_neg hi).trans ((hb i hi').trans ((h.frame hi).symm.trans (if_pos hi').symm))
    · exact (if_neg hi).trans (if_neg hi').symm

/-- **One piece after the other.** -/
theorem Touches.comp (hf : A.Touches l f s) (hg : A.Touches l' g (f s)) :
    A.Touches (l ++ l') (fun s => g (f s)) s := by
  intro b hb
  have hfirst := hf b (fun i hi => hb i (List.mem_append_left _ hi))
  -- behind the first piece the elements of the second list are those it leaves
  have hagree : ∀ i ∈ l', patch l (A.get (f s)) b i = A.get (f s) i := by
    intro i hi
    by_cases hl : i ∈ l
    · exact if_pos hl
    · exact (if_neg hl).trans ((hb i (List.mem_append_right _ hi)).trans (hf.frame hl).symm)
  dsimp only
  rw [hfirst, hg _ hagree]
  congr 1
  funext i
  by_cases hi' : i ∈ l'
  · exact (if_pos hi').trans (if_pos (List.mem_append_right _ hi')).symm
  · by_cases hi : i ∈ l
    · exact (if_neg hi').trans ((if_pos hi).trans
        ((hg.frame hi').symm.trans (if_pos (List.mem_append_left _ hi)).symm))
    · have hnone : i ∉ l ++ l' := fun h => (List.mem_append.1 h).elim hi hi'
      exact (if_neg hi').trans ((if_neg hi).trans (if_neg hnone).symm)

theorem Touches.comp_blind (hg : A.Touches l g (f s)) (hf : A.Blind f) :
    A.Touches l (fun s => g (f s)) s := (hf.touches [] s).comp hg

theorem Blind.comp_touches (hg : A.Blind g) (hf : A.Touches l f s) : A.Touches l (fun s => g (f s)) s := by
  have h := hf.comp (hg.touches [] (f s))
  rwa [List.append_nil] at h

/-- Two pieces that agree whatever the array is, as on a branch that does not depend on it. -/
theorem Touches.congr (h : A.Touches l g s) (heq : ∀ b, f (A.put s b) = g (A.put s b)) :
    A.Touches l f s := by
  intro b hb
  rw [heq, eq_of_put heq]
  exact h b hb

/-- A branch that does not depend on the array. -/
theorem Touches.ite {c : σ → Prop} [DecidablePred c] (hc : ∀ b, c (A.put s b) ↔ c s)
    (hf : c s → A.Touches l f s) (hg : ¬ c s → A.Touches l' g s) :
    A.Touches (if c s then l else l') (fun s => if c s then f s else g s) s := by
  by_cases h : c s
  · rw [if_pos h]
    exact (hf h).congr (fun b => if_pos ((hc b).2 h))
  · rw [if_neg h]
    exact (hg h).congr (fun b => if_neg (fun hb => h ((hc b).1 hb)))

/-! ## Results -/

theorem Touches.withResult (h : A.Touches l f s) (a : α) : A.TouchesWith l (fun s => (a, f s)) s :=
  fun b hb => congrArg (Prod.mk a) (h b hb)

theorem touchesWith_done (a : α) : A.TouchesWith l (fun s => (a, s)) s := touches_id.withResult a

theorem touchesWith_of_put {f : σ → α × σ}
    (h : ∀ b, (∀ i ∈ l, b i = A.get s i) → f (A.put s b) = ((f s).1, A.put (f s).2 b)) :
    A.TouchesWith l f s := by
  intro b hb
  have hstate := touches_of_put (A := A) (f := fun s => (f s).2) (l := l)
    (fun b hb => congrArg Prod.snd (h b hb)) b hb
  have hresult : (f (A.put s b)).1 = (f s).1 := by rw [h b hb]
  exact Prod.ext hresult hstate

theorem TouchesWith.congr {f g : σ → α × σ} (h : A.TouchesWith l g s)
    (heq : ∀ b, f (A.put s b) = g (A.put s b)) : A.TouchesWith l f s := by
  intro b hb
  rw [heq, eq_of_put heq]
  exact h b hb

theorem TouchesWith.ite {f g : σ → α × σ} {c : σ → Prop} [DecidablePred c] (hc : ∀ b, c (A.put s b) ↔ c s)
    (hf : c s → A.TouchesWith l f s) (hg : ¬ c s → A.TouchesWith l' g s) :
    A.TouchesWith (if c s then l else l') (fun s => if c s then f s else g s) s := by
  by_cases h : c s
  · rw [if_pos h]
    exact (hf h).congr (fun b => if_pos ((hc b).2 h))
  · rw [if_neg h]
    exact (hg h).congr (fun b => if_neg (fun hb => h ((hc b).1 hb)))

/-- The same list on both sides. -/
theorem TouchesWith.branch {f g : σ → α × σ} {c : σ → Prop} [DecidablePred c]
    (hc : ∀ b, c (A.put s b) ↔ c s) (hf : c s → A.TouchesWith l f s) (hg : ¬ c s → A.TouchesWith l g s) :
    A.TouchesWith l (fun s => if c s then f s else g s) s := by
  have h := TouchesWith.ite hc hf hg
  rwa [ite_self] at h

end ArrayPart

end UnixTerminal
