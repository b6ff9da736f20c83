import UnixTerminal.Library.Run
import UnixTerminal.Proofs.BlinkTicks

set_option autoImplicit false

/-! # What the screen shows of the blinks

Bit 0 of a blink's status says whether it is on, and the cell of the blink should show so. `add` and the
tasklet see to it. `sync` copies the status and then always shows the character for off: the `cmovl` that is
to choose the other one comes behind a `testb` and never moves. -/

namespace UnixTerminal

/-- Bit 0 of the status. -/
def Blink.isOn (b : Blink) : Bool := b.status &&& 1 != 0

/-- The character for the status. -/
def Blink.statusChar (b : Blink) : UInt8 := if b.isOn then b.onChar else b.offChar

/-- No two blinks are at one location, and each cell shows the status of its blink. -/
structure Displayed (s : BlinkBoard) : Prop where
  distinct : (s.blinks.map Blink.location).Nodup
  shown : ∀ b ∈ s.blinks, s.vmem b.offset = b.statusChar

/-- The call keeps that: a new blink is at a new location, and what `sync` copies is off, or looks the same. -/
def FishCall.Displays (s : BlinkBoard) : FishCall → Prop
  | .mp1IoctlAdd user => ∀ a ∈ s.blinks, a.location ≠ user.location
  | .mp1IoctlSync arg =>
      ∀ source b, s.blinks.find? (Blink.isAt (arg >>> 16).toUInt16) = some source →
        s.blinks.find? (Blink.isAt arg.toUInt16) = some b → source.isOn = true → b.onChar = b.offChar
  | _ => True

/-- The board as a system. -/
def BlinkBoard.step (s : BlinkBoard) (c : FishCall) : Option BlinkBoard := some (s.call c).2

theorem runEvents_blinkBoard (calls : List FishCall) (s : BlinkBoard) :
    runEvents BlinkBoard.step s calls = some (s.run calls).2 := by
  induction calls generalizing s with
  | nil => rfl
  | cons c calls ih => exact ih (s.call c).2

theorem and_one_ne_zero_iff (x : UInt16) : (x &&& 1 != 0) = decide (x.toNat % 2 = 1) := by
  have hmod : (x &&& 1).toNat = x.toNat % 2 := by
    rw [UInt16.toNat_and]
    exact Nat.and_one_is_mod _
  rcases Nat.mod_two_eq_zero_or_one x.toNat with hzero | hone
  · rw [show x &&& 1 = 0 from UInt16.toNat_inj.1 (hmod.trans hzero), hzero]
    decide
  · rw [show x &&& 1 = 1 from UInt16.toNat_inj.1 (hmod.trans hone), hone]
    decide

theorem Blink.isOn_xor (x : UInt16) : ((x ^^^ 1) &&& 1 != 0) = !(x &&& 1 != 0) := by
  have hxor : (x ^^^ 1).toNat % 2 = 1 ↔ ¬ x.toNat % 2 = 1 := by
    rw [UInt16.toNat_xor, Nat.xor_mod_two_eq_one]
    simp
  rw [and_one_ne_zero_iff, and_one_ne_zero_iff, ← decide_not]
  exact decide_eq_decide.2 hxor

/-- What the tasklet shows is the new status. -/
theorem Blink.statusChar_tick (b : Blink) : b.tick.1.statusChar = b.tick.2.getD b.statusChar := by
  by_cases hpos : 0 < (b.countdown - 1).toInt16.toInt
  · rw [Blink.tick_of_pos hpos]
    rfl
  · rw [Blink.tick_of_over hpos]
    split
    next hon => simp [Blink.statusChar, Blink.isOn, isOn_xor, hon]
    next hoff =>
      simp only [ne_eq, Decidable.not_not] at hoff
      simp [Blink.statusChar, Blink.isOn, isOn_xor, hoff]

theorem Blink.statusChar_fresh (b : Blink) : b.fresh.statusChar = b.onChar :=
  if_pos (show ((1 : UInt16) &&& 1 != 0) = true by decide)

section Steps

variable {s : BlinkBoard}

/-- A blink is the only one at its location. -/
theorem filter_isAt {l : List Blink} (h : (l.map Blink.location).Nodup) {b : Blink} (hb : b ∈ l) :
    l.filter (Blink.isAt b.location) = [b] := by
  induction l with
  | nil => exact absurd hb List.not_mem_nil
  | cons a l ih =>
      obtain ⟨ha, hl⟩ := List.nodup_cons.1 h
      rcases List.mem_cons.1 hb with rfl | hb
      · rw [List.filter_cons_of_pos (by simp [Blink.isAt]), List.filter_eq_nil_iff.2 (fun c hc => ?_)]
        simpa [Blink.isAt] using ne_of_mem_of_not_mem (List.mem_map_of_mem hc) ha
      · have hne := ne_of_mem_of_not_mem (List.mem_map_of_mem hb) ha
        rw [List.filter_cons_of_neg (by simpa [Blink.isAt] using hne.symm)]
        exact ih hl hb

theorem Displayed.tasklet (h : Displayed s) : Displayed (s.call .mp1RtcTasklet).2 := by
  refine ⟨?_, fun b hb => ?_⟩
  · rw [show (s.call .mp1RtcTasklet).2.blinks.map Blink.location = s.blinks.map Blink.location from by
      simp [BlinkBoard.call, Blink.location_tick]]
    exact h.distinct
  · obtain ⟨a, ha, rfl⟩ := List.mem_map.1 hb
    have hcell := foldl_pokeTick a.location s.blinks s.vmem
    rw [filter_isAt h.distinct ha, ← Blink.offset, h.shown a ha] at hcell
    rw [Blink.statusChar_tick, Blink.offset, Blink.location_tick, ← Blink.offset]
    exact hcell

theorem Displayed.add (h : Displayed s) {user : BlinkStruct}
    (hnew : ∀ a ∈ s.blinks, a.location ≠ user.location) : Displayed (s.call (.mp1IoctlAdd user)).2 := by
  simp only [BlinkBoard.call]
  split
  · refine ⟨List.nodup_cons.2 ⟨fun hmem => ?_, h.distinct⟩, fun b hb => ?_⟩
    · obtain ⟨a, ha, hloc⟩ := List.mem_map.1 hmem
      exact hnew a ha hloc
    · rcases List.mem_cons.1 hb with rfl | hb
      · rw [Blink.statusChar_fresh]
        exact Function.update_self user.toBlink.offset user.onChar s.vmem
      · refine (Function.update_of_ne (Blink.offset_ne (hnew b hb).symm) _ _).trans (h.shown b hb)
  · exact h

theorem Displayed.remove (h : Displayed s) (arg : UInt32) : Displayed (s.call (.mp1IoctlRemove arg)).2 := by
  simp only [BlinkBoard.call]
  split
  · exact ⟨h.distinct.sublist (List.Sublist.map _ List.eraseP_sublist), fun b hb => h.shown b (List.mem_of_mem_eraseP hb)⟩
  · exact h

theorem updateFirst_append {α : Type} {p : α → Bool} (g : α → α) {before after : List α} {a : α}
    (hbefore : ∀ x ∈ before, ¬ p x = true) (ha : p a = true) :
    updateFirst p g (before ++ a :: after) = before ++ g a :: after := by
  induction before with
  | nil => simp [updateFirst, ha]
  | cons x before ih =>
      rw [List.cons_append, updateFirst, if_neg (hbefore x List.mem_cons_self),
        ih (fun y hy => hbefore y (List.mem_cons_of_mem x hy)), List.cons_append]

theorem Blink.statusChar_syncFrom (b source : Blink) :
    (b.syncFrom source).statusChar = if source.isOn then b.onChar else b.offChar := rfl

/-- **`sync` and the screen.** -/
theorem Displayed.sync_iff (h : Displayed s) {arg : UInt32} {source b : Blink}
    (hsource : s.blinks.find? (Blink.isAt (arg >>> 16).toUInt16) = some source)
    (hb : s.blinks.find? (Blink.isAt arg.toUInt16) = some b) :
    Displayed (s.call (.mp1IoctlSync arg)).2 ↔ (source.isOn = true → b.onChar = b.offChar) := by
  obtain ⟨before, after, hblinks, hbefore, hat, -⟩ := exists_split_of_find? hb
  have hcall : (s.call (.mp1IoctlSync arg)).2 = ⟨before ++ b.syncFrom source :: after,
      Function.update s.vmem b.offset b.offChar⟩ := by
    simp only [BlinkBoard.call, hsource, hb]
    rw [hblinks, updateFirst_append _ hbefore hat]
  rw [hcall]
  have hmem : b.syncFrom source ∈ before ++ b.syncFrom source :: after := by simp
  constructor
  · intro hdisplayed hon
    have hcell := hdisplayed.shown _ hmem
    rw [Blink.statusChar_syncFrom, if_pos hon] at hcell
    exact (hcell.symm.trans (Function.update_self _ _ _)).symm ▸ rfl
  · intro hchars
    have hdistinct := h.distinct
    rw [hblinks] at hdistinct
    refine ⟨by simpa [Blink.syncFrom] using hdistinct, fun a ha => ?_⟩
    by_cases hloc : a.location = b.location
    · -- the blink itself
      have hself : (before ++ b.syncFrom source :: after).filter (Blink.isAt b.location) = [b.syncFrom source] :=
        filter_isAt (by simpa [Blink.syncFrom] using hdistinct) hmem
      have ha : a ∈ [b.syncFrom source] := hself ▸ List.mem_filter.2 ⟨ha, by simp [Blink.isAt, hloc]⟩
      obtain rfl := List.mem_singleton.1 ha
      refine (Function.update_self b.offset b.offChar s.vmem).trans ?_
      rw [Blink.statusChar_syncFrom]
      split
      next hon => exact (hchars hon).symm
      next => rfl
    · have hold : a ∈ s.blinks := by
        rw [hblinks]
        have hne : a ≠ b.syncFrom source := fun heq => hloc (heq ▸ rfl)
        simpa [hne] using (List.mem_append.1 ha).imp_right fun hmem => Or.inr ((List.mem_cons.1 hmem).resolve_left hne)
      exact (Function.update_of_ne (Blink.offset_ne (Ne.symm hloc)) _ _).trans (h.shown a hold)

theorem Displayed.call (h : Displayed s) {c : FishCall} (hc : c.Displays s) : Displayed (s.call c).2 := by
  cases c with
  | mp1IoctlAdd user => exact h.add hc
  | mp1IoctlRemove arg => exact h.remove arg
  | mp1IoctlFind location =>
      simp only [BlinkBoard.call]
      split <;> exact h
  | mp1IoctlSync arg =>
      cases hsource : s.blinks.find? (Blink.isAt (arg >>> 16).toUInt16) with
      | none => simpa only [BlinkBoard.call, hsource] using h
      | some source =>
          cases hb : s.blinks.find? (Blink.isAt arg.toUInt16) with
          | none => simpa only [BlinkBoard.call, hsource, hb] using h
          | some b => exact (h.sync_iff hsource hb).2 (hc source b hsource hb)
  | mp1RtcTasklet => exact h.tasklet

end Steps

/-- **The screen shows which blinks are on.** It does in every state of a run, not adding at location 0, whose
    calls meet `Displays`: the cell of every blink in the list has its character for on where bit 0 of its
    status is set, and the one for off where it is not. From such a state a `sync` that finds both its blinks
    keeps this only if the copied status is off, or both characters are the same. -/
theorem screen_shows_blinks (vmem : Nat → UInt8) (calls : List FishCall) (hcalls : ∀ c ∈ calls, c.Located)
    (hok : EachStep BlinkBoard.step (fun s c => c.Displays s) ⟨[], vmem⟩ calls) :
    ∃ replies f nodes, Yields (fun fuel => Fish.run fuel calls (Fish.start vmem)) (replies, f) ∧
      Represents f (BlinkBoard.run calls ⟨[], vmem⟩).2 nodes ∧
      (∀ i ∈ nodes, f.vmem (f.blinkArray i).toBlink.offset = (f.blinkArray i).toBlink.statusChar) ∧
      ∀ (arg : UInt32) (source b : Blink),
        (BlinkBoard.run calls ⟨[], vmem⟩).2.blinks.find? (Blink.isAt (arg >>> 16).toUInt16) = some source →
        (BlinkBoard.run calls ⟨[], vmem⟩).2.blinks.find? (Blink.isAt arg.toUInt16) = some b →
        (Displayed ((BlinkBoard.run calls ⟨[], vmem⟩).2.call (.mp1IoctlSync arg)).2 ↔
          (source.isOn = true → b.onChar = b.offChar)) := by
  have hdisplayed : Displayed (BlinkBoard.run calls ⟨[], vmem⟩).2 := by
    have hstart : Displayed ⟨[], vmem⟩ := ⟨List.nodup_nil, fun b hb => absurd hb List.not_mem_nil⟩
    refine runEvents_invariant (I := fun _ s => Displayed s) hstart ?_ hok (runEvents_blinkBoard calls _)
    intro es c s s' hs hc hstep
    cases hstep
    exact hs.call hc
  obtain ⟨f, nodes, hrun, hrep⟩ := (represents_start vmem).run hcalls
  refine ⟨_, f, nodes, hrun, hrep, fun i hi => ?_, fun arg source b hsource hb => ?_⟩
  · rw [← hrep.vmem]
    refine hdisplayed.shown _ ?_
    rw [hrep.blinks]
    exact List.mem_map_of_mem hi
  · exact hdisplayed.sync_iff hsource hb

/-- A blink that is off is copied to one that is on. -/
def sampleScreenCalls : List FishCall :=
  [.mp1IoctlAdd (sampleBlink 5), .mp1RtcTasklet, .mp1RtcTasklet, .mp1IoctlAdd (sampleBlink 9),
    .mp1IoctlSync 0x50009]

theorem EachStep.addCall {s₀ : BlinkBoard} {calls : List FishCall}
    (h : EachStep BlinkBoard.step (fun s c => c.Displays s) s₀ calls) (c : FishCall)
    (hc : c.Displays (s₀.run calls).2) :
    EachStep BlinkBoard.step (fun s c => c.Displays s) s₀ (calls ++ [c]) := by
  refine h.concat (fun s hs => ?_)
  rw [runEvents_blinkBoard] at hs
  obtain rfl := Option.some_inj.1 hs
  exact hc

theorem sampleScreenCalls_displays :
    EachStep BlinkBoard.step (fun s c => c.Displays s) ⟨[], fun _ => 32⟩ sampleScreenCalls := by
  have h1 : EachStep BlinkBoard.step (fun s c => c.Displays s) ⟨[], fun _ => 32⟩
      [.mp1IoctlAdd (sampleBlink 5)] :=
    eachStep_nil.addCall _ (fun a ha => absurd ha List.not_mem_nil)
  have h3 := (h1.addCall .mp1RtcTasklet trivial).addCall .mp1RtcTasklet trivial
  have h4 := h3.addCall (.mp1IoctlAdd (sampleBlink 9)) (show ∀ a ∈ _, _ by decide +kernel)
  refine h4.addCall _ (fun source b hsource _ hon => ?_)
  -- the blink at 5 has gone off
  have hoff := congrArg (Option.map Blink.isOn) hsource
  rw [Option.map_some, hon] at hoff
  exact absurd hoff (by decide +kernel)

theorem screen_shows_blinks_sample :
    ∃ replies f nodes, Yields (fun fuel => Fish.run fuel sampleScreenCalls (Fish.start fun _ => 32)) (replies, f) ∧
      Represents f (BlinkBoard.run sampleScreenCalls ⟨[], fun _ => 32⟩).2 nodes ∧
      (∀ i ∈ nodes, f.vmem (f.blinkArray i).toBlink.offset = (f.blinkArray i).toBlink.statusChar) ∧
      ∀ (arg : UInt32) (source b : Blink),
        (BlinkBoard.run sampleScreenCalls ⟨[], fun _ => 32⟩).2.blinks.find? (Blink.isAt (arg >>> 16).toUInt16)
          = some source →
        (BlinkBoard.run sampleScreenCalls ⟨[], fun _ => 32⟩).2.blinks.find? (Blink.isAt arg.toUInt16) = some b →
        (Displayed ((BlinkBoard.run sampleScreenCalls ⟨[], fun _ => 32⟩).2.call (.mp1IoctlSync arg)).2 ↔
          (source.isOn = true → b.onChar = b.offChar)) :=
  screen_shows_blinks (fun _ => 32) sampleScreenCalls
    (by
      intro c hc
      simp only [sampleScreenCalls, List.mem_cons, List.not_mem_nil, or_false] at hc
      rcases hc with rfl | rfl | rfl | rfl | rfl <;> simp [FishCall.Located, sampleBlink])
    sampleScreenCalls_displays

end UnixTerminal
