import Mathlib.Order.Bounds.Basic
import Mathlib.Order.WellFounded
import Mathlib.Data.List.Nodup

set_option autoImplicit false

/-! # Pools that hand out the lowest free slot

A pool has a set `S` of slots in a linear order and a set `U` of slots in use. A request takes the
lowest free slot, or is refused when there is none; a slot of the pool that is in use can be given
back. `handlesAfter` keeps the slots handed out and not given back: each is held once
(`PoolStep.holds`), none is handed out twice (`PoolStep.fresh`), and one that came back is there for
the next request (`PoolStep.reusable`). -/

namespace UnixTerminal

variable {α : Type}

/-- A request to a pool. -/
inductive PoolCall (α : Type)
  | alloc
  | free (a : α)

/-- One request: the set in use before, the request, the slot granted or taken back, the set after. -/
inductive PoolStep [LinearOrder α] (S U : Set α) : PoolCall α → Option α → Set α → Prop
  | granted {a : α} (h : IsLeast (S \ U) a) : PoolStep S U .alloc (some a) (insert a U)
  | full (h : S ⊆ U) : PoolStep S U .alloc none U
  | freed {a : α} (h : a ∈ S ∩ U) : PoolStep S U (.free a) (some a) (U \ {a})
  | refused {a : α} (h : a ∉ S ∩ U) : PoolStep S U (.free a) none U

/-- The slots handed out and not given back, after one more request. -/
def handlesAfter [DecidableEq α] : PoolCall α → Option α → List α → List α
  | .alloc, some a, held => a :: held
  | .free _, some a, held => held.erase a
  | _, none, held => held

/-- The slots held are those of the pool that are in use, each once. -/
structure HoldsPool (S U : Set α) (held : List α) : Prop where
  nodup : held.Nodup
  mem : ∀ a, a ∈ held ↔ a ∈ S ∩ U

/-- Searching an ascending list from the front finds the least element. -/
theorem find?_eq_some_iff_isLeast [LinearOrder α] {p : α → Bool} {a : α} {l : List α}
    (hl : l.Pairwise (· < ·)) : l.find? p = some a ↔ IsLeast {b | b ∈ l ∧ p b = true} a := by
  induction l with
  | nil => simp [IsLeast]
  | cons b l ih =>
      obtain ⟨hb, hl⟩ := List.pairwise_cons.1 hl
      cases hp : p b with
      | true =>
          -- the head is below the rest
          have hleast : IsLeast {c | c ∈ b :: l ∧ p c = true} b := by
            refine ⟨⟨List.mem_cons_self, hp⟩, fun c hc => ?_⟩
            rcases List.mem_cons.1 hc.1 with rfl | hmem
            · exact le_refl c
            · exact (hb c hmem).le
          rw [List.find?_cons_of_pos hp, Option.some_inj]
          exact ⟨fun h => h ▸ hleast, fun h => hleast.unique h⟩
      | false =>
          have hset : {c | c ∈ b :: l ∧ p c = true} = {c | c ∈ l ∧ p c = true} := by
            ext c
            refine ⟨fun ⟨hmem, hc⟩ => ⟨(List.mem_cons.1 hmem).resolve_left ?_, hc⟩,
              fun ⟨hmem, hc⟩ => ⟨List.mem_cons_of_mem b hmem, hc⟩⟩
            rintro rfl
            rw [hp] at hc
            cases hc
          rw [List.find?_cons_of_neg (by simp [hp]), hset, ih hl]

variable [LinearOrder α] {S U V : Set α} {c : PoolCall α} {r : Option α} {held : List α}

/-- **One request keeps the account of the slots held.** -/
theorem PoolStep.holds (h : PoolStep S U c r V) (hheld : HoldsPool S U held) :
    HoldsPool S V (handlesAfter c r held) := by
  cases h with
  | @granted a ha =>
      obtain ⟨⟨haS, haU⟩, -⟩ := ha
      refine ⟨List.nodup_cons.2 ⟨fun hmem => haU ((hheld.mem a).1 hmem).2, hheld.nodup⟩, fun b => ?_⟩
      rw [handlesAfter, List.mem_cons, hheld.mem]
      constructor
      · rintro (rfl | ⟨hS, hU⟩)
        · exact ⟨haS, Or.inl rfl⟩
        · exact ⟨hS, Or.inr hU⟩
      · rintro ⟨hS, rfl | hU⟩
        · exact Or.inl rfl
        · exact Or.inr ⟨hS, hU⟩
  | full => exact hheld
  | @freed a ha =>
      refine ⟨hheld.nodup.erase a, fun b => ?_⟩
      rw [handlesAfter, hheld.nodup.mem_erase_iff, hheld.mem]
      exact ⟨fun ⟨hne, hS, hU⟩ => ⟨hS, hU, hne⟩, fun ⟨hS, hU, hne⟩ => ⟨hne, hS, hU⟩⟩
  | refused => exact hheld

/-- A slot handed out is held by nobody. -/
theorem PoolStep.fresh {a : α} (h : PoolStep S U .alloc (some a) V) (hheld : HoldsPool S U held) :
    a ∉ held := by
  cases h with
  | granted ha => exact fun hmem => ha.1.2 ((hheld.mem a).1 hmem).2

/-- Behind a slot given back the pool is not full: the next request gets that slot, or a lower one. -/
theorem PoolStep.reusable [WellFoundedLT α] {a : α} (h : PoolStep S U (.free a) r V) (hr : r ≠ none) :
    ∃ b, b ≤ a ∧ IsLeast (S \ V) b := by
  cases h with
  | refused => exact absurd rfl hr
  | freed ha =>
      have hmem : a ∈ S \ (U \ {a}) := ⟨ha.1, fun hin => hin.2 rfl⟩
      obtain ⟨b, hb, hmin⟩ := wellFounded_lt.has_min (S \ (U \ {a})) ⟨a, hmem⟩
      exact ⟨b, not_lt.1 (hmin a hmem), hb, fun c hc => not_lt.1 (hmin c hc)⟩

end UnixTerminal
