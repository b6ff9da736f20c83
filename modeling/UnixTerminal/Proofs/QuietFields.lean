import UnixTerminal.Kernel.Keyboard
import UnixTerminal.Proofs.Core

set_option autoImplicit false

/-! # What output leaves alone

Output writes to video memory and the cursor, or to the saved screen of the executing terminal. A
reading of the kernel that shows neither is the same before and after everything that prints; one that
shows the saved screens is still the same after everything that prints to the viewed terminal. -/

namespace UnixTerminal

variable {β : Type} {field : Kernel → β}

/-- A reading of the kernel in which the screen and its cursor do not show. -/
structure ScreenField (field : Kernel → β) : Prop where
  video : ∀ (k : Kernel) mem x y cursor,
    field { k with videoMem := mem, screenX := x, screenY := y, cursor := cursor } = field k

namespace ScreenField

/-- A reading of what a store leaves, for a store that neither reads nor writes the screen. -/
theorem comp (hf : ScreenField field) {f : Kernel → Kernel}
    (hcomm : ∀ (k : Kernel) mem x y cursor,
      f { k with videoMem := mem, screenX := x, screenY := y, cursor := cursor } =
        { f k with videoMem := mem, screenX := x, screenY := y, cursor := cursor }) :
    ScreenField (fun k => field (f k)) where
  video k mem x y cursor := (congrArg field (hcomm k mem x y cursor)).trans (hf.video (f k) mem x y cursor)

theorem vertScroll (hf : ScreenField field) (k : Kernel) : field k.vertScroll = field k :=
  hf.video k _ _ _ _

theorem putc (hf : ScreenField field) (k : Kernel) (c : UInt8) : field (k.putc c) = field k := by
  unfold Kernel.putc
  dsimp only
  split_ifs
  · exact hf.vertScroll k
  · exact hf.video k _ _ _ _
  · exact hf.video k _ _ _ _
  · exact hf.video k _ _ _ _
  · exact hf.video k _ _ _ _

theorem puts (hf : ScreenField field) (k : Kernel) (s : List UInt8) : field (k.puts s) = field k :=
  Kernel.field_foldl field hf.putc s k

theorem keyboardWrite (hf : ScreenField field) (k : Kernel) (buf : List UInt8) :
    field (k.keyboardWrite buf).2 = field k := by
  unfold Kernel.keyboardWrite
  split_ifs
  · exact Kernel.field_foldl field (fun k i => hf.putc k _) _ k
  · rfl

/-- A character goes to the end of the line, unless the line is full. -/
theorem typeChar (hf : ScreenField field) (k : Kernel) (c : UInt8) :
    field (k.typeChar c) =
      if k.keyboardIdx = 128 then field k
      else field { k with
        keyboardBuf := Function.update k.keyboardBuf k.keyboardIdx.toNat c
        keyboardIdx := k.keyboardIdx + 1
        lastIdx := k.lastIdx + 1 } := by
  unfold Kernel.typeChar
  by_cases hfull : k.keyboardIdx = 128
  · rw [if_pos hfull, if_pos hfull]
  rw [if_neg hfull, if_neg hfull]
  dsimp only
  -- the echo prints in front of the last store, and the scroll in front of all three
  have hlast : ScreenField (fun k : Kernel => field { k with lastIdx := k.lastIdx + 1 }) :=
    hf.comp (fun _ _ _ _ _ => rfl)
  have hstores : ScreenField (fun k : Kernel => field { k with
      keyboardBuf := Function.update k.keyboardBuf k.keyboardIdx.toNat c
      keyboardIdx := k.keyboardIdx + 1
      lastIdx := k.lastIdx + 1 }) := hf.comp (fun _ _ _ _ _ => rfl)
  refine (hlast.keyboardWrite _ _).trans ?_
  split_ifs
  · exact hstores.vertScroll k
  · rfl

/-- Enter puts a newline behind the line and sets the flag of the viewed terminal. -/
theorem enterLine (hf : ScreenField field) (k : Kernel) :
    field k.enterLine =
      field ((k.setLine k.keyboardIdx.toNat 10).setTerminal k.currTerminalNumber
        (fun t => { t with termEnter := 1 })) := by
  have hstores : ScreenField (fun k : Kernel =>
      field ((k.setLine k.keyboardIdx.toNat 10).setTerminal k.currTerminalNumber
        (fun t => { t with termEnter := 1 }))) := hf.comp (fun _ _ _ _ _ => rfl)
  unfold Kernel.enterLine
  dsimp only
  refine (hstores.video _ _ _ _ _).trans ?_
  split_ifs
  · exact hstores.video k _ _ _ _
  · exact hstores.vertScroll k

/-- Backspace takes the last character off the line; at the start of a screen row behind an empty one
    it takes none. -/
theorem handleBackspace (hf : ScreenField field) (k : Kernel) :
    field k.handleBackspace =
      if k.keyboardIdx = 0 ∨ (k.screenX = 0 ∧ k.screenY ≠ 0) ∧ k.findLastChar (k.screenY - 1) = -1 then
        field k
      else field { k with
        keyboardBuf := Function.update k.keyboardBuf (k.keyboardIdx.toNat - 1) 0
        lastIdx := k.lastIdx - 1
        keyboardIdx := k.keyboardIdx - 1 } := by
  unfold Kernel.handleBackspace
  by_cases h0 : k.keyboardIdx = 0
  · rw [if_neg (not_not.2 h0), if_pos (Or.inl h0)]
    exact hf.video k _ _ _ _
  rw [if_pos h0]
  dsimp only
  by_cases hrow : (k.screenX = 0 ∧ k.screenY ≠ 0) ∧ k.findLastChar (k.screenY - 1) = -1
  · rw [if_pos hrow, if_pos (Or.inr hrow)]
    exact hf.video k _ _ _ _
  · rw [if_neg hrow, if_neg (not_or.2 ⟨h0, hrow⟩)]
    -- the cursor moves in front of the stores, and behind the echo
    have hidx : ScreenField (fun k : Kernel => field { k with keyboardIdx := k.keyboardIdx - 1 }) :=
      hf.comp (fun _ _ _ _ _ => rfl)
    have hstores : ScreenField (fun k : Kernel => field { k with
        keyboardBuf := Function.update k.keyboardBuf (k.keyboardIdx.toNat - 1) 0
        lastIdx := k.lastIdx - 1
        keyboardIdx := k.keyboardIdx - 1 }) := hf.comp (fun _ _ _ _ _ => rfl)
    refine (hidx.video _ _ _ _ _).trans ((hidx.keyboardWrite _ _).trans ?_)
    exact hstores.video k _ _ _ _

end ScreenField

/-- A reading of the kernel in which neither the screen nor a saved screen shows. -/
structure QuietField (field : Kernel → β) : Prop where
  video : ∀ (k : Kernel) mem x y cursor,
    field { k with videoMem := mem, screenX := x, screenY := y, cursor := cursor } = field k
  saved : ∀ (k : Kernel) (t : Nat) (mem : Terminal → Nat → UInt8) (x y : Terminal → Int),
    field (k.setTerminal t (fun s => { s with screen := mem s, x := x s, y := y s })) = field k

namespace QuietField

theorem screen (hf : QuietField field) : ScreenField field := ⟨hf.video⟩

theorem putcNodisplay (hf : QuietField field) (k : Kernel) (c : UInt8) :
    field (k.putcNodisplay c) = field k := by
  unfold Kernel.putcNodisplay Kernel.vertScrollNodisplay
  dsimp only
  have hput : field (k.setTerminal k.currTerm
      (fun t => { t with screen := putCell t.screen t.x t.y c })) = field k :=
    hf.saved k _ _ _ _
  split_ifs
  · exact hf.saved k _ _ _ _
  · exact hf.saved k _ _ _ _
  · exact (hf.saved _ _ _ _ _).trans hput
  · exact (hf.saved _ _ _ _ _).trans hput

theorem terminalWrite (hf : QuietField field) (k : Kernel) (buf : List UInt8) (n : Nat) :
    field (k.terminalWrite buf n).2 = field k := by
  refine Kernel.field_foldl field (fun k i => ?_) _ k
  split_ifs
  · exact hf.screen.putc k _
  · exact hf.putcNodisplay k _

theorem clear (hf : QuietField field) (k : Kernel) : field k.clear = field k := by
  unfold Kernel.clear Kernel.clearNodisplay
  split_ifs
  · exact hf.saved k _ _ _ _
  · exact hf.video k _ _ _ _

/-- `write` prints, or sets the rate of the clock. -/
theorem write (hf : QuietField field) (hclock : ∀ (k : Kernel) a, field { k with rtcRegisterA := a } = field k)
    {k : Kernel} {fd : Int} {buf : UInt32} {bytes : List UInt8} {nbytes : Int} {r : Int × Kernel}
    (h : k.write fd buf bytes nbytes = some r) : field r.2 = field k := by
  unfold Kernel.write at h
  split at h
  · obtain rfl := Option.some.inj h
    rfl
  · split at h
    · obtain rfl := Option.some.inj h
      rfl
    · obtain rfl := Option.some.inj h
      exact hf.screen.keyboardWrite k _
    · obtain rfl := Option.some.inj h
      exact hf.terminalWrite k _ _
    · obtain rfl := Option.some.inj h
      unfold Kernel.rtcWrite Kernel.setRate
      split
      · rfl
      · split
        · exact hclock k _
        · rfl
    · obtain rfl := Option.some.inj h
      rfl
    · obtain rfl := Option.some.inj h
      rfl
    · exact absurd h (by simp)

end QuietField

end UnixTerminal
