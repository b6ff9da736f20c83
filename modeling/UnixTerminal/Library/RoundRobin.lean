import Mathlib.Tactic.SplitIfs
import Mathlib.Logic.ExistsUnique

set_option autoImplicit false

/-! # Round robin over `n` places

`ahead n p t` says how many places a pointer that leaves `p` passes before it stands on `t`, going round
`0, …, n - 1`. Round robin selects the active place that is the nearest ahead (`FirstAfter`).

**Fairness** (`selected_once`): between two consecutive selections of a place `t` every other place that
stays active is selected exactly once. Seen from `t`, each selection lies further ahead than the one
before it, since the pointer cannot jump over `t`, which is active itself; and it cannot jump over a place
that is active. The sets of active places may change from tick to tick. -/

namespace UnixTerminal

/-- The places passed on the way from `p` to `t`; all the others when `t = p`. -/
def ahead (n p t : Nat) : Nat := if p < t then t - (p + 1) else t + n - (p + 1)

/-- `t` is the first active place behind `p`, in cyclic order. -/
def FirstAfter (n : Nat) (active : Nat → Prop) (p t : Nat) : Prop :=
  t < n ∧ active t ∧ ∀ u, u < n → active u → ahead n p t ≤ ahead n p u

variable {n : Nat} {active : Nat → Prop} {p s t u : Nat}

/-- Where `t` is active, the pointer does not pass it: from another place it moves on, seen from `t`. -/
theorem FirstAfter.forward (h : FirstAfter n active p s) (hp : p < n) (ht : t < n) (hact : active t)
    (hpt : p ≠ t) (hst : s ≠ t) : ahead n t p < ahead n t s := by
  obtain ⟨hs, -, hfirst⟩ := h
  have hle := hfirst t ht hact
  unfold ahead at hle ⊢
  split_ifs at hle ⊢ <;> omega

/-- The pointer does not pass an active place `u` that it has not reached yet, seen from `t`. -/
theorem FirstAfter.not_past (h : FirstAfter n active p s) (hp : p < n) (ht : t < n) (hu : u < n)
    (hact : active u) (hut : u ≠ t) (hsu : s ≠ u) (hahead : p = t ∨ ahead n t p < ahead n t u) :
    s ≠ t ∧ ahead n t s < ahead n t u := by
  obtain ⟨hs, -, hfirst⟩ := h
  have hle := hfirst u hu hact
  unfold ahead at hle hahead ⊢
  constructor
  · rintro rfl
    rcases hahead with rfl | hahead
    · split_ifs at hle <;> omega
    · split_ifs at hle hahead <;> omega
  · rcases hahead with rfl | hahead
    · split_ifs at hle ⊢ <;> omega
    · split_ifs at hle hahead ⊢ <;> omega

/-! ## Runs -/

section Fairness

variable {sel : Nat → Nat} {act : Nat → Nat → Prop} {i m : Nat}

/-- A place that is active and not reached yet is selected before `t` is. -/
theorem exists_selected (hsel : ∀ j, i ≤ j → j < m → FirstAfter n (act j) (sel j) (sel (j + 1)))
    (hrange : ∀ j, i ≤ j → j < m → sel j < n) (ht : t < n) (hend : sel m = t) (hu : u < n) (hut : u ≠ t)
    (hact : ∀ j, i ≤ j → j < m → act j u) :
    ∀ d j, d = m - j → i ≤ j → j < m → (sel j = t ∨ ahead n t (sel j) < ahead n t u) →
      ∃ j', j < j' ∧ j' < m ∧ sel j' = u := by
  -- on the number of ticks that are left
  intro d
  induction d with
  | zero =>
      intro j hd _ hj
      omega
  | succ d ih =>
      intro j hd hij hj hpos
      by_cases hsu : sel (j + 1) = u
      · refine ⟨j + 1, Nat.lt_succ_self j, ?_, hsu⟩
        rcases Nat.lt_or_ge (j + 1) m with hlt | hge
        · exact hlt
        · have hjm : j + 1 = m := by omega
          exact absurd (hsu.symm.trans (hjm ▸ hend)) hut
      · obtain ⟨hst, hlt⟩ := (hsel j hij hj).not_past (hrange j hij hj) ht hu (hact j hij hj) hut hsu hpos
        have hjm : j + 1 ≠ m := fun he => hst (he ▸ hend)
        obtain ⟨j', h1, h2, h3⟩ := ih (j + 1) (by omega) (by omega) (by omega) (Or.inr hlt)
        exact ⟨j', by omega, h2, h3⟩

/-- Between two selections of `t` the selections lie further and further ahead of it. -/
theorem selected_forward (hsel : ∀ j, i ≤ j → j < m → FirstAfter n (act j) (sel j) (sel (j + 1)))
    (hrange : ∀ j, i ≤ j → j < m → sel j < n) (ht : t < n) (hactive : ∀ j, i ≤ j → j < m → act j t)
    (hbetween : ∀ j, i < j → j < m → sel j ≠ t) :
    ∀ d j, i < j → j + d + 1 < m → ahead n t (sel j) < ahead n t (sel (j + d + 1)) := by
  intro d
  induction d with
  | zero =>
      intro j hij hjm
      exact (hsel j (by omega) (by omega)).forward (hrange j (by omega) (by omega)) ht
        (hactive j (by omega) (by omega)) (hbetween j hij (by omega)) (hbetween (j + 1) (by omega) hjm)
  | succ d ih =>
      intro j hij hjm
      have hstep := (hsel (j + d + 1) (by omega) (by omega)).forward
        (hrange _ (by omega) (by omega)) ht (hactive _ (by omega) (by omega)) (hbetween _ (by omega) (by omega))
        (hbetween (j + d + 2) (by omega) hjm)
      exact Nat.lt_trans (ih j hij (by omega)) hstep

/-- **Round robin is fair.** -/
theorem selected_once (hsel : ∀ j, i ≤ j → j < m → FirstAfter n (act j) (sel j) (sel (j + 1)))
    (ht : t < n) (him : i < m) (hstart : sel i = t) (hend : sel m = t)
    (hactive : ∀ j, i ≤ j → j < m → act j t) (hbetween : ∀ j, i < j → j < m → sel j ≠ t)
    (hu : u < n) (hut : u ≠ t) (hact : ∀ j, i ≤ j → j < m → act j u) :
    ∃! j, i < j ∧ j < m ∧ sel j = u := by
  have hrange : ∀ j, i ≤ j → j < m → sel j < n := by
    intro j hij hjm
    rcases Nat.eq_or_lt_of_le hij with rfl | hlt
    · exact hstart ▸ ht
    · have h := (hsel (j - 1) (by omega) (by omega)).1
      rwa [Nat.sub_add_cancel (by omega)] at h
  obtain ⟨j, hij, hjm, hj⟩ := exists_selected hsel hrange ht hend hu hut hact (m - i) i rfl
    (Nat.le_refl i) him (Or.inl hstart)
  refine ⟨j, ⟨hij, hjm, hj⟩, ?_⟩
  rintro j' ⟨hij', hjm', hj'⟩
  have hforward := selected_forward hsel hrange ht hactive hbetween
  rcases Nat.lt_trichotomy j' j with hlt | heq | hlt
  · have h := hforward (j - j' - 1) j' hij' (by omega)
    rw [show j' + (j - j' - 1) + 1 = j by omega, hj, hj'] at h
    exact absurd h (Nat.lt_irrefl _)
  · exact heq
  · have h := hforward (j' - j - 1) j hij (by omega)
    rw [show j + (j' - j - 1) + 1 = j' by omega, hj, hj'] at h
    exact absurd h (Nat.lt_irrefl _)

end Fairness

end UnixTerminal
