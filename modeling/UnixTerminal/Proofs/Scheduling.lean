import UnixTerminal.Library.RoundRobin
import UnixTerminal.Proofs.ProcessTable

set_option autoImplicit false

/-! # Round robin over the terminals

`switch_task` advances `curr_term` and tests `terminals[curr_term].active` before it wraps the index: a
tick taken from terminal 2 tests the memory behind the array. Where that byte reads 0 the selection is
round robin all the same; where it does not, `switch_task` selects "terminal 3". -/

namespace UnixTerminal

namespace Kernel

variable (k : Kernel)

/-- The terminal is active. -/
def IsActive (t : Nat) : Prop := (k.terminals t).active ≠ 0

instance (t : Nat) : Decidable (k.IsActive t) := inferInstanceAs (Decidable (_ ≠ _))

/-- The indices into `terminals` that the search loop of `switch_task` tests. -/
def tested : Nat → Nat → List Nat
  | 0, _ => []
  | fuel + 1, currTerm =>
      if (k.terminals currTerm).active = 0 then
        let next := (currTerm + 1) % 256
        currTerm :: tested fuel (if next > 2 then 0 else next)
      else [currTerm]

/-- All indices into `terminals` that `switch_task` uses: those of the search loop, the selected
    terminal and `last_term`. -/
def taskIndices : List Nat :=
  k.tested 5 ((k.currTerm + 1) % 256) ++ k.nextTerm.toList ++ [k.currTerm]

/-! ## One tick -/

section Tick

variable {k}

/-- The search loop, started at one of the three, ends at the active terminal that it meets first. -/
theorem findActive_first (fuel : Nat) : ∀ {start t : Nat}, start < 3 →
    k.findActive fuel start = some t → ∀ u, u < 3 → k.IsActive u →
      (if start ≤ t then t - start else t + 3 - start)
        ≤ (if start ≤ u then u - start else u + 3 - start) := by
  induction fuel with
  | zero => intro start t _ h; cases h
  | succ fuel ih =>
      intro start t hstart h u hu hact
      rw [findActive] at h
      split at h
      · next hidle =>
          have hlt : t < 3 := by
            obtain ⟨-, hlt | heq⟩ := k.findActive_spec fuel h
            · exact hlt
            · split_ifs at heq <;> omega
          have hne : u ≠ start := fun he => hact (he ▸ hidle)
          have hne' : t ≠ start := fun he => (k.findActive_spec fuel h).1 (he ▸ hidle)
          have hrest := ih (by split_ifs <;> omega) h u hu hact
          split_ifs at hrest ⊢ <;> omega
      · cases h
        simp

/-- Where the byte behind the array reads 0, a tick selects the first active terminal in cyclic
    order. -/
theorem nextTerm_firstAfter (hterm : k.currTerm < 3) (hact : ∃ t, t < 3 ∧ k.IsActive t)
    (hpast : k.currTerm = 2 → (k.terminals 3).active = 0) :
    ∃ t, k.nextTerm = some t ∧ FirstAfter 3 k.IsActive k.currTerm t := by
  obtain ⟨a, ha, hact⟩ := hact
  obtain ⟨t, ht⟩ := k.nextTerm_isSome ha hact
  have hlt := k.nextTerm_lt ht hterm hpast
  refine ⟨t, ht, hlt, (k.nextTerm_spec ht).1, fun u hu huact => ?_⟩
  unfold nextTerm at ht
  by_cases h2 : k.currTerm = 2
  · -- the test behind the array, then from terminal 0 on
    rw [h2, findActive, if_pos (hpast h2)] at ht
    have hfirst := findActive_first 4 (by decide) ht u hu huact
    rw [h2]
    unfold ahead
    simp only [show ((2 + 1) % 256 + 1) % 256 > 2 by decide, if_true, Nat.zero_le] at hfirst
    split_ifs <;> omega
  · have hfirst := findActive_first 5 (by omega) ht u hu huact
    unfold ahead
    split_ifs at hfirst ⊢ <;> omega

/-- A tick from terminal 2 with an active byte behind the array selects no terminal. -/
theorem nextTerm_past (h2 : k.currTerm = 2) (hpast : (k.terminals 3).active ≠ 0) :
    k.nextTerm = some 3 := by
  unfold nextTerm
  rw [h2]
  exact if_neg hpast

/-- The selection is right exactly when no byte behind the array is taken for a terminal. -/
theorem firstAfter_iff (hterm : k.currTerm < 3) (hact : ∃ t, t < 3 ∧ k.IsActive t) :
    (∃ t, k.nextTerm = some t ∧ FirstAfter 3 k.IsActive k.currTerm t)
      ↔ (k.currTerm = 2 → (k.terminals 3).active = 0) := by
  refine ⟨?_, nextTerm_firstAfter hterm hact⟩
  rintro ⟨t, ht, hfirst⟩ h2
  by_contra hpast
  obtain rfl : t = 3 := Option.some.inj (ht.symm.trans (nextTerm_past h2 hpast))
  exact absurd hfirst.1 (by decide)

theorem tested_lt (fuel : Nat) : ∀ {start : Nat}, start < 3 → ∀ i ∈ k.tested fuel start, i < 3 := by
  induction fuel with
  | zero => intro start _ i hi; exact absurd hi List.not_mem_nil
  | succ fuel ih =>
      intro start hstart i hi
      rw [tested] at hi
      split_ifs at hi
      · rcases List.mem_cons.1 hi with rfl | hi
        · exact hstart
        · exact ih (by split_ifs <;> omega) i hi
      · exact List.mem_singleton.1 hi ▸ hstart

/-- The indices are in range exactly when the tick is not taken from terminal 2. -/
theorem taskIndices_iff (hterm : k.currTerm < 3) :
    (∀ i ∈ k.taskIndices, i < 3) ↔ k.currTerm ≠ 2 := by
  constructor
  · intro h h2
    have hmem : 3 ∈ k.tested 5 ((k.currTerm + 1) % 256) := by
      rw [h2, tested]
      split_ifs <;> exact List.mem_cons_self
    exact absurd (h 3 (List.mem_append_left _ (List.mem_append_left _ hmem))) (by decide)
  · intro h2 i hi
    rcases List.mem_append.1 hi with hi | hi
    · rcases List.mem_append.1 hi with hi | hi
      · exact tested_lt 5 (by omega) i hi
      · exact k.nextTerm_lt (Option.mem_toList.1 hi) hterm (fun he => absurd he h2)
    · exact List.mem_singleton.1 hi ▸ hterm

end Tick

end Kernel

/-! ## Runs of ticks -/

/-- What may happen between two ticks: terminals become active, and `switch_terminal` may make another
    terminal the executing one. Everything else is free. -/
structure BetweenTicks (k k' : Kernel) : Prop where
  active : ∀ t, t < 3 → k.IsActive t → k'.IsActive t
  currTerm : k'.currTerm = k.currTerm ∨ k'.currTerm < 3

/-- `n` ticks, tick `i` in state `s i`, with at least one of the three terminals active at each. -/
structure TickRun (lay : Layout) (n : Nat) (s : Nat → Kernel) : Prop where
  start : (s 0).currTerm < 3
  tick : ∀ i, i < n → ∃ frame r, (s i).switchTask lay frame = some r ∧ BetweenTicks r.2 (s (i + 1))
  someActive : ∀ i, i < n → ∃ t, t < 3 ∧ (s i).IsActive t

/-- Terminal `t` is selected by tick `i` and next by tick `m`, and from the one to the other only ticks
    change the executing terminal. -/
structure NextSelection (s : Nat → Kernel) (i m t : Nat) : Prop where
  lt : i < m
  first : (s i).nextTerm = some t
  last : (s m).nextTerm = some t
  between : ∀ j, i < j → j < m → (s j).nextTerm ≠ some t
  ticksAlone : ∀ j, i < j → j ≤ m → (s (j - 1)).nextTerm = some (s j).currTerm

/-- Each other terminal that is active at all these ticks is selected by exactly one of them. -/
def Fair (s : Nat → Kernel) (i m t : Nat) : Prop :=
  ∀ u, u < 3 → u ≠ t → (∀ j, i < j → j ≤ m → (s j).IsActive u) →
    ∃! j, i < j ∧ j < m ∧ (s j).nextTerm = some u

/-- The byte behind `terminals` reads 0 where the search loop tests it. -/
def PastIdle (k : Kernel) : Prop := k.currTerm = 2 → (k.terminals 3).active = 0

section Runs

variable {lay : Layout} {n : Nat} {s : Nat → Kernel}

/-- A tick makes the selected terminal the executing one and keeps the active ones. -/
theorem TickRun.after (h : TickRun lay n s) {i t : Nat} (hi : i < n) (ht : (s i).nextTerm = some t) :
    ((s (i + 1)).currTerm = t ∨ (s (i + 1)).currTerm < 3)
      ∧ ∀ u, u < 3 → (s i).IsActive u → (s (i + 1)).IsActive u := by
  obtain ⟨frame, r, hr, hbetween⟩ := h.tick i hi
  rw [(s i).switchTask_eq lay ht frame, Option.some.injEq] at hr
  have hcore : r.2.core = _ := hr ▸ ((s i).core_switchTo lay t frame).1
  constructor
  · exact hbetween.currTerm.imp (fun he => he.trans (congrArg Core.currTerm hcore)) id
  · intro u hu hact
    refine hbetween.active u hu ?_
    have hsame : (r.2.terminals u).active = ((s i).terminals u).active :=
      congrArg (fun c : Core => c.active u) hcore
    exact hsame.trans_ne hact

/-- `curr_term` is one of the three at every tick. -/
theorem TickRun.currTerm_lt (h : TickRun lay n s) (hpast : ∀ i, i < n → PastIdle (s i)) :
    ∀ i, i ≤ n → (s i).currTerm < 3 := by
  intro i
  induction i with
  | zero => intro _; exact h.start
  | succ i ih =>
      intro hi
      obtain ⟨t, ht, hfirst⟩ := Kernel.nextTerm_firstAfter (ih (by omega)) (h.someActive i hi)
        (hpast i hi)
      rcases (h.after hi ht).1 with he | hlt
      · exact he ▸ hfirst.1
      · exact hlt

/-- Terminals that are active stay so. -/
theorem TickRun.isActive (h : TickRun lay n s) {i t : Nat} (ht : t < 3) (hact : (s i).IsActive t) :
    ∀ d, i + d < n → (s (i + d)).IsActive t := by
  intro d
  induction d with
  | zero => intro _; exact hact
  | succ d ih =>
      intro hlt
      obtain ⟨a, ha, haact⟩ := h.someActive (i + d) (by omega)
      obtain ⟨sel, hsel⟩ := (s (i + d)).nextTerm_isSome ha haact
      exact (h.after (by omega) hsel).2 t ht (ih (by omega))

/-- The terminals that the ticks behind tick `i` leave, and at last the one that tick `m` selects. -/
def selections (s : Nat → Kernel) (m t j : Nat) : Nat := if j = m + 1 then t else (s j).currTerm

theorem selections_of_le {m t j : Nat} (hjm : j ≤ m) :
    selections s m t j = (s j).currTerm :=
  if_neg (by omega)

/-- The terminal that a tick leaves was selected by the tick before it. -/
theorem NextSelection.nextTerm_iff {i m t : Nat} (h : NextSelection s i m t) {j u : Nat} (hij : i ≤ j)
    (hjm : j < m) : (s j).nextTerm = some u ↔ selections s m t (j + 1) = u := by
  have hcur := h.ticksAlone (j + 1) (by omega) (by omega)
  rw [Nat.add_sub_cancel] at hcur
  rw [selections_of_le (by omega), hcur, Option.some.injEq]

/-- Each of these ticks selects round robin. -/
theorem TickRun.firstAfter (h : TickRun lay n s) (hpast : ∀ i, i < n → PastIdle (s i)) {i m t : Nat}
    (hm : m < n) (hsel : NextSelection s i m t) {j : Nat} (hij : i < j) (hjm : j ≤ m) :
    FirstAfter 3 (s j).IsActive (selections s m t j) (selections s m t (j + 1)) := by
  obtain ⟨t', ht', hfirst⟩ := Kernel.nextTerm_firstAfter (h.currTerm_lt hpast j (by omega))
    (h.someActive j (by omega)) (hpast j (by omega))
  rw [selections_of_le hjm]
  rcases Nat.eq_or_lt_of_le hjm with rfl | hlt
  · obtain rfl : t = t' := Option.some.inj (hsel.last.symm.trans ht')
    rw [selections, if_pos rfl]
    exact hfirst
  · rw [(hsel.nextTerm_iff (by omega) hlt).1 ht']
    exact hfirst

/-- Between two selections of a terminal the others have their turn. -/
theorem TickRun.fair (h : TickRun lay n s) (hpast : ∀ i, i < n → PastIdle (s i)) {i m t : Nat}
    (hm : m < n) (hsel : NextSelection s i m t) : Fair s i m t := by
  intro u hu hut hact
  have him := hsel.lt
  have ht3 : t < 3 :=
    (s i).nextTerm_lt hsel.first (h.currTerm_lt hpast i (by omega)) (hpast i (by omega))
  have htact : (s i).IsActive t := ((s i).nextTerm_spec hsel.first).1
  obtain ⟨j, ⟨hij, hjm, hj⟩, huniq⟩ := @selected_once 3 t u (selections s m t)
    (fun j => (s j).IsActive) (i + 1) (m + 1)
    (fun j hij hjm => h.firstAfter hpast hm hsel (by omega) (by omega)) ht3 (by omega)
    ((hsel.nextTerm_iff (Nat.le_refl i) him).1 hsel.first) (if_pos rfl)
    (fun j hij hjm => by
      have hd : i + (j - i) = j := by omega
      exact hd ▸ h.isActive ht3 htact (j - i) (by omega))
    (fun j hij hjm hcur => by
      refine hsel.between (j - 1) (by omega) (by omega) ?_
      rw [hsel.nextTerm_iff (by omega) (by omega), Nat.sub_add_cancel (by omega)]
      exact hcur)
    hu hut (fun j hij hjm => hact j (by omega) (by omega))
  -- tick `j` leaves `u`, so tick `j - 1` selected it
  refine ⟨j - 1, ⟨by omega, by omega, ?_⟩, ?_⟩
  · rw [hsel.nextTerm_iff (by omega) (by omega), Nat.sub_add_cancel (by omega)]
    exact hj
  · rintro j' ⟨hij', hjm', hj'⟩
    have hsame := huniq (j' + 1) ⟨by omega, by omega, (hsel.nextTerm_iff (by omega) hjm').1 hj'⟩
    omega

end Runs

/-- **The scheduler is round robin.** For the indices: a tick uses 0, 1 and 2 only exactly when it is not
    taken from terminal 2. For the selection: it is the first active terminal in cyclic order exactly
    when the byte behind the array, where it is tested, reads 0. In every run of ticks at which that byte
    reads 0 the executing terminal is always one of the three, and the scheduler is fair. -/
theorem round_robin_iff (lay : Layout) (n : Nat) (s : Nat → Kernel) (h : TickRun lay n s) :
    (∀ i, i < n → (s i).currTerm < 3 →
      ((∀ j ∈ (s i).taskIndices, j < 3) ↔ (s i).currTerm ≠ 2)
      ∧ ((∃ t, (s i).nextTerm = some t ∧ FirstAfter 3 (s i).IsActive (s i).currTerm t)
          ↔ PastIdle (s i)))
    ∧ ((∀ i, i < n → PastIdle (s i)) →
      (∀ i, i ≤ n → (s i).currTerm < 3)
      ∧ ∀ i m t, m < n → NextSelection s i m t → Fair s i m t) :=
  ⟨fun i hi hterm => ⟨Kernel.taskIndices_iff hterm, Kernel.firstAfter_iff hterm (h.someActive i hi)⟩,
    fun hpast => ⟨h.currTerm_lt hpast, fun _ _ _ hm hsel => h.fair hpast hm hsel⟩⟩

/-- Ticks, one after another. -/
def tickFrom (k : Kernel) : Nat → Kernel
  | 0 => k
  | i + 1 => (((tickFrom k i).switchTask sampleLayout ⟨400, 401⟩).map (·.2)).getD (tickFrom k i)

theorem tickRun_tickFrom {k : Kernel} {n : Nat} (hstart : k.currTerm < 3)
    (hact : ∀ i, i < n → ∃ t, t < 3 ∧ (tickFrom k i).IsActive t) :
    TickRun sampleLayout n (tickFrom k) := by
  refine ⟨hstart, fun i hi => ?_, hact⟩
  obtain ⟨a, ha, haact⟩ := hact i hi
  obtain ⟨t, ht⟩ := (tickFrom k i).nextTerm_isSome ha haact
  have hswitch := (tickFrom k i).switchTask_eq sampleLayout ht ⟨400, 401⟩
  refine ⟨_, _, hswitch, ?_⟩
  rw [tickFrom, hswitch]
  exact ⟨fun _ _ hact => hact, Or.inl rfl⟩

/-- Terminals 0 and 1 take turns: between two selections of terminal 1 there is one of terminal 0. -/
theorem round_robin_two :
    ∃! j, 0 < j ∧ j < 2 ∧ (tickFrom sampleTwo j).nextTerm = some 0 := by
  have hrun : TickRun sampleLayout 3 (tickFrom sampleTwo) := by
    refine tickRun_tickFrom (by decide +kernel) (fun i hi => ⟨0, by decide, ?_⟩)
    have hcases : i = 0 ∨ i = 1 ∨ i = 2 := by omega
    rcases hcases with rfl | rfl | rfl <;> decide +kernel
  have hpast : ∀ i, i < 3 → PastIdle (tickFrom sampleTwo i) := by
    intro i hi
    have hcases : i = 0 ∨ i = 1 ∨ i = 2 := by omega
    rcases hcases with rfl | rfl | rfl <;> exact fun h2 => absurd h2 (by decide +kernel)
  refine ((round_robin_iff sampleLayout 3 (tickFrom sampleTwo) hrun).2 hpast).2 0 2 1 (by decide)
    ⟨by decide, by decide +kernel, by decide +kernel, fun j h1 h2 => ?_, fun j h1 h2 => ?_⟩ 0
    (by decide) (by decide) (fun j h1 h2 => ?_)
  · obtain rfl : j = 1 := by omega
    decide +kernel
  · have hcases : j = 1 ∨ j = 2 := by omega
    rcases hcases with rfl | rfl <;> decide +kernel
  · have hcases : j = 1 ∨ j = 2 := by omega
    rcases hcases with rfl | rfl <;> decide +kernel

/-- Terminal 2 is opened beside the two others. -/
def sampleThree : Kernel :=
  sampleTwo.switchTerminal sampleLayout sampleFs 2 ⟨400, 401⟩ (sampleEnv 104 105)

/-- With terminal 2 executing, a tick tests index 3. -/
theorem tick_tests_past_terminals :
    ¬ ∀ (lay : Layout) (n : Nat) (s : Nat → Kernel), TickRun lay n s →
      (∀ i, i < n → (∀ j ∈ (s i).taskIndices, j < 3)
        ∧ ∃ t, (s i).nextTerm = some t ∧ FirstAfter 3 (s i).IsActive (s i).currTerm t)
      ∧ ∀ i m t, m < n → NextSelection s i m t → Fair s i m t := by
  intro h
  have hrun : TickRun sampleLayout 1 (tickFrom sampleThree) := by
    refine tickRun_tickFrom (by decide +kernel) (fun i hi => ⟨0, by decide, ?_⟩)
    obtain rfl : i = 0 := by omega
    decide +kernel
  have hlt := ((h sampleLayout 1 _ hrun).1 0 (by decide)).1 3 (by decide +kernel)
  exact absurd hlt (by decide)

end UnixTerminal
