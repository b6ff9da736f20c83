import UnixTerminal.Proofs.Isolation
import UnixTerminal.Proofs.ProcessTable

set_option autoImplicit false

/-! # The user video page

`switch_task` and `switch_terminal` map the page at `USER_VID_MEM` for the executing terminal: to video
memory, or for a terminal in the background to its saved screen. A page-table entry keeps only the upper
20 bits of an address, and `screen` starts 161 bytes behind the start of a struct that is aligned to
four: it is never at a page boundary. So the page shows the executing terminal's screen exactly when
that terminal is the viewed one and the page is mapped to video memory. -/

namespace UnixTerminal

/-- User-mode accesses to the video page reach the 4000 bytes from `phys` on. -/
def PageShows (lay : Layout) (k : Kernel) (phys : UInt32) : Prop :=
  ∀ (off : UInt32) (write : Bool), off < 4000 →
    k.userTranslate lay (userVidMem + off) write = some (phys + off)

/-- The video page shows the screen of the executing terminal. -/
def ShowsExecuting (lay : Layout) (k : Kernel) : Prop :=
  PageShows lay k
    (if k.currTerm = k.currTerminalNumber then video else Kernel.screenAddr lay k.currTerm)

/-- The PIT interrupt and `switch_terminal`. -/
def Event.switches : Event → Bool
  | .switchTask _ => true
  | .switchTerminal _ _ _ => true
  | _ => false

/-- When the page is right behind a switch: a tick selects the viewed terminal; the view goes to the
    executing terminal; and where `switch_terminal` maps nothing, the page is mapped to video memory
    already, and a call that does nothing finds the executing terminal viewed. -/
def ShowsAfter (lay : Layout) (k : Kernel) : Event → Prop
  | .switchTask _ => k.nextTerm = some k.currTerminalNumber
  | .switchTerminal newt _ _ =>
      if newt = k.currTerminalNumber ∨ 2 < newt then
        k.currTerm = k.currTerminalNumber ∧ PageShows lay k video
      else if (k.terminals newt).active = 0 then PageShows lay k video
      else newt = k.currTerm
  | _ => True

/-! ## Addresses -/

/-- An offset below 4000, and its place in the video page. -/
theorem userVidMem_add {off : UInt32} (h : off < 4000) :
    ((userVidMem + off) >>> 22).toNat = 36 ∧ (((userVidMem + off) >>> 12) &&& 0x3FF).toNat = 0
      ∧ (userVidMem + off) &&& 0xFFF = off := by
  have hlt : off.toNat < 4000 := UInt32.lt_iff_toNat_lt.1 h
  have hbase : userVidMem.toNat = 150994944 := rfl
  have hadd : (userVidMem + off).toNat = 150994944 + off.toNat := by
    rw [UInt32.toNat_add, hbase]
    omega
  refine ⟨?_, ?_, ?_⟩
  · rw [toNat_shiftRight_22, hadd]
    omega
  · rw [toNat_tableIndex, hadd]
    omega
  · apply UInt32.toNat_inj.1
    rw [toNat_and_low (n := 12) (by decide), hadd]
    omega

/-- The frame number and the offset of an access to video memory. -/
theorem video_or {off : UInt32} (h : off < 4000) : video ||| off = video + off := by
  have hlt : off.toNat < 4000 := UInt32.lt_iff_toNat_lt.1 h
  have hvideo : video.toNat = 2 ^ 12 * 184 := rfl
  apply UInt32.toNat_inj.1
  rw [UInt32.toNat_or, UInt32.toNat_add, hvideo, ← Nat.two_pow_add_eq_or_of_lt (by omega)]
  omega

/-- The saved screen of a terminal is at no page boundary. -/
theorem screenAddr_unaligned {lay : Layout} (hlay : lay.terminals &&& 3 = 0) (t : Nat) :
    Kernel.screenAddr lay t &&& 0xFFF ≠ 0 := by
  have hbase : lay.terminals.toNat % 4 = 0 := by
    have h := congrArg UInt32.toNat hlay
    rwa [toNat_and_low (n := 2) (by decide)] at h
  intro hzero
  have h := congrArg UInt32.toNat hzero
  rw [toNat_and_low (n := 12) (by decide), Kernel.screenAddr, UInt32.toNat_add, UInt32.toNat_add,
    UInt32.toNat_mul, show (4168 : UInt32).toNat = 4168 from rfl,
    show (161 : UInt32).toNat = 161 from rfl, show (0 : UInt32).toNat = 0 from rfl] at h
  omega

namespace Kernel

variable {lay : Layout} {fs : FileSys} {k : Kernel}

/-- Whatever the tables are, the start of the video page is at a page boundary. -/
theorem userTranslate_aligned {write : Bool} {pa : UInt32}
    (h : k.userTranslate lay userVidMem write = some pa) : pa &&& 0xFFF = 0 := by
  have hframe : ∀ x : UInt32, (x &&& 0xFFFFF000) &&& 0xFFF = 0 := fun x => by
    rw [UInt32.and_assoc, show (0xFFFFF000 : UInt32) &&& 0xFFF = 0 by decide, UInt32.and_zero]
  have hpage : ∀ x : UInt32, (x &&& 0xFFC00000) &&& 0xFFF = 0 := fun x => by
    rw [UInt32.and_assoc, show (0xFFC00000 : UInt32) &&& 0xFFF = 0 by decide, UInt32.and_zero]
  have hlow : userVidMem &&& 0x3FFFFF = 0 := by decide
  have hlow' : userVidMem &&& 0xFFF = 0 := by decide
  unfold userTranslate at h
  dsimp only at h
  rw [hlow, hlow', UInt32.or_zero, UInt32.or_zero] at h
  split_ifs at h
  · rw [← Option.some.inj h]
    exact hpage _
  · rw [← Option.some.inj h]
    exact hframe _

/-- The translation of the video page reads these entries only. -/
theorem userTranslate_congr {k' : Kernel} (hdir : k'.pageDirectory 36 = k.pageDirectory 36)
    (htable : k'.pageTable = k.pageTable) (hvideo : k'.userVideoPageTable = k.userVideoPageTable)
    {off : UInt32} (hoff : off < 4000) (write : Bool) :
    k'.userTranslate lay (userVidMem + off) write = k.userTranslate lay (userVidMem + off) write := by
  unfold userTranslate tableAt
  rw [(userVidMem_add hoff).1, hdir, htable, hvideo]

/-- The page behind `map_w_pt(USER_VID_MEM, VIDEO)`. -/
theorem pageShows_video (hdir : k.pageDirectory 36 = lay.userVideoPageTable ||| 0x7)
    (hentry : k.userVideoPageTable 0 = video ||| 0x7) : PageShows lay k video := by
  intro off write hoff
  obtain ⟨h22, h12, hlow⟩ := userVidMem_add hoff
  have hflags : ∀ m : UInt32, 0xFFF &&& m = m →
      (lay.userVideoPageTable ||| 0x7) &&& m = 0x7 &&& m :=
    fun m hm => or_and_flags lay.userVideoPageTable_aligned hm
  have hpermit : userPermits (lay.userVideoPageTable ||| 0x7) write = true := by
    unfold userPermits
    rw [hflags 1 (by decide), hflags 2 (by decide), hflags 4 (by decide)]
    cases write <;> decide
  have hbase : (lay.userVideoPageTable ||| 0x7) &&& 0xFFFFF000 = lay.userVideoPageTable :=
    or_and_field lay.userVideoPageTable_aligned (by decide) (by decide)
  have htable : k.tableAt lay lay.userVideoPageTable = k.userVideoPageTable := if_pos rfl
  have hpermit' : userPermits (video ||| 0x7) write = true := by cases write <;> decide
  unfold userTranslate
  dsimp only
  rw [h22, hdir, hpermit, hflags 0x80 (by decide), hbase, htable, h12, hentry, hpermit', hlow]
  exact congrArg some (video_or hoff)

end Kernel

/-! ## The executing terminal -/

section Switches

variable {lay : Layout} {fs : FileSys} {k : Kernel}

/-- **The page shows the executing terminal exactly when** that is the viewed one and the page is video
    memory. -/
theorem showsExecuting_iff (hlay : lay.terminals &&& 3 = 0) :
    ShowsExecuting lay k ↔ k.currTerm = k.currTerminalNumber ∧ PageShows lay k video := by
  unfold ShowsExecuting
  split_ifs with hterm
  · exact ⟨fun h => ⟨hterm, h⟩, And.right⟩
  · refine ⟨fun h => ?_, fun h => absurd h.1 hterm⟩
    have hstart := h 0 false (by decide)
    rw [UInt32.add_zero, UInt32.add_zero] at hstart
    exact absurd (Kernel.userTranslate_aligned hstart) (screenAddr_unaligned hlay _)

/-- The page behind a mapping of the core to video memory. -/
theorem pageShows_of_mapVideo {c : Core} (h : k.core = c.mapVideo lay video) :
    PageShows lay k video := by
  refine Kernel.pageShows_video ?_ ?_
  · refine (congrArg (fun c : Core => c.pageDirectory 36) h).trans ?_
    rw [Core.mapVideo_pageDirectory, Function.update_self]
  · refine (congrArg (fun c : Core => c.userVideoPageTable 0) h).trans ?_
    rw [Core.mapVideo_userVideoPageTable, Function.update_self]

/-- `switch_task`. -/
theorem showsExecuting_switchTo (hlay : lay.terminals &&& 3 = 0) (t : Nat) (frame : Frame) :
    ShowsExecuting lay (k.switchTo lay t frame).2 ↔ t = k.currTerminalNumber := by
  have hcore := (k.core_switchTo lay t frame).1
  have hterm : (k.switchTo lay t frame).2.currTerm = t := congrArg Core.currTerm hcore
  have hview : (k.switchTo lay t frame).2.currTerminalNumber = k.currTerminalNumber :=
    congrArg Core.currTerminalNumber hcore
  rw [showsExecuting_iff hlay, hterm, hview]
  refine ⟨And.left, fun ht => ⟨ht, ?_⟩⟩
  have hphys : k.core.videoFor lay t = video := if_neg (not_not.2 ht)
  rw [hphys] at hcore
  exact pageShows_of_mapVideo hcore

/-- `switch_terminal` to an active terminal. -/
theorem showsExecuting_viewTerminal (hlay : lay.terminals &&& 3 = 0) (newt : Nat) :
    ShowsExecuting lay (k.viewTerminal lay newt) ↔ newt = k.currTerm := by
  have hcore := k.core_viewTerminal lay newt
  have hterm : (k.viewTerminal lay newt).currTerm = k.currTerm := congrArg Core.currTerm hcore
  have hview : (k.viewTerminal lay newt).currTerminalNumber = newt :=
    congrArg Core.currTerminalNumber hcore
  rw [showsExecuting_iff hlay, hterm, hview]
  refine ⟨fun h => h.1.symm, fun ht => ⟨ht.symm, ?_⟩⟩
  have hphys : (if k.core.currTerm ≠ newt then Kernel.screenAddr lay newt else video) = video :=
    if_neg (not_not.2 ht.symm)
  rw [Core.viewTo, hphys] at hcore
  exact pageShows_of_mapVideo hcore

/-- `switch_terminal` to an inactive terminal, whether its shell is started or not. -/
theorem showsExecuting_openTerminal (hlay : lay.terminals &&& 3 = 0) (newt : Nat) (frame : Frame)
    (env : ExecEnv) :
    ShowsExecuting lay (k.openTerminal fs newt frame env).2 ↔ PageShows lay k video := by
  obtain ⟨hterm, hview, hdir, htable, hvideo⟩ := (k.core_openTerminal fs newt frame env).video
  have hsame : PageShows lay (k.openTerminal fs newt frame env).2 video ↔ PageShows lay k video := by
    unfold PageShows
    refine forall₃_congr (fun off write hoff => ?_)
    rw [Kernel.userTranslate_congr (k := k) hdir htable hvideo hoff write]
  have hboth : (k.openTerminal fs newt frame env).2.currTerm
      = (k.openTerminal fs newt frame env).2.currTerminalNumber :=
    hterm.trans hview.symm
  rw [showsExecuting_iff hlay, hsame]
  exact ⟨And.right, fun h => ⟨hboth, h⟩⟩

/-- **One switch**: the page is right behind it exactly when `ShowsAfter` holds before it. -/
theorem showsExecuting_step (hlay : lay.terminals &&& 3 = 0) {e : Event} (hswitch : e.switches = true)
    {k' : Kernel} (hstep : k.step lay fs e = some k') :
    ShowsExecuting lay k' ↔ ShowsAfter lay k e := by
  cases e with
  | switchTask frame =>
      obtain ⟨r, hr, rfl⟩ := Option.map_eq_some_iff.1 hstep
      obtain ⟨t, ht, rfl⟩ := Option.map_eq_some_iff.1 hr
      rw [showsExecuting_switchTo hlay, ShowsAfter, ht, Option.some.injEq]
  | switchTerminal newt frame env =>
      cases hstep
      rw [ShowsAfter, Kernel.switchTerminal]
      by_cases hview : newt = k.currTerminalNumber
      · rw [if_pos hview, if_pos (Or.inl hview)]
        exact showsExecuting_iff hlay
      · by_cases hrange : newt > 2
        · rw [if_neg hview, if_pos hrange, if_pos (Or.inr hrange)]
          exact showsExecuting_iff hlay
        · rw [if_neg hview, if_neg hrange, if_neg (not_or.2 ⟨hview, hrange⟩)]
          split_ifs
          · exact showsExecuting_openTerminal hlay newt frame env
          · exact showsExecuting_viewTerminal hlay newt
  | _ => exact Bool.noConfusion hswitch

end Switches

/-- The last event was a switch. -/
def justSwitched (_ : Kernel) (e : Event) (_ : Kernel) (_ : Bool) : Bool := e.switches

/-- **The user video page shows the executing terminal's screen** behind a tick or a `switch_terminal`
    exactly when `ShowsAfter` holds before it, in every state; so it does behind every switch of a run
    from boot whose events all meet that condition. -/
theorem user_video_page_iff (lay : Layout) (fs : FileSys) (hlay : lay.terminals &&& 3 = 0) :
    (∀ (k : Kernel) (e : Event) (k' : Kernel), e.switches = true → k.step lay fs e = some k' →
      (ShowsExecuting lay k' ↔ ShowsAfter lay k e))
    ∧ ∀ (mem : BootMemory) (s : Kernel × Bool),
      Reaches (withGhost (Kernel.step lay fs) justSwitched) (fun s e => ShowsAfter lay s.1 e)
        (Kernel.boot lay mem, false) s → s.2 = true → ShowsExecuting lay s.1 := by
  refine ⟨fun k e k' hswitch hstep => showsExecuting_step hlay hswitch hstep,
    fun mem s hrun => ?_⟩
  cases hrun with
  | refl => exact fun h => Bool.noConfusion h
  | tail _ hok hstep =>
      intro hlast
      obtain ⟨hk, hg⟩ := withGhost_eq_some hstep
      rw [hg] at hlast
      exact (showsExecuting_step hlay hlast hk).2 hok

/-- A tick with one active terminal: it is the viewed one, and the page shows the screen. -/
theorem user_video_page_one_terminal :
    ShowsExecuting sampleLayout (sampleShell.switchTo sampleLayout 0 ⟨300, 301⟩).2 :=
  ((user_video_page_iff sampleLayout sampleFs (by decide)).1 sampleShell (.switchTask ⟨300, 301⟩) _
    rfl (Kernel.step_switchTask _ _ _ (by decide +kernel) _)).2
    (show sampleShell.nextTerm = some sampleShell.currTerminalNumber by decide +kernel)

/-- Terminal 1 is opened and viewed; the tick that resumes terminal 0 maps a page that starts inside
    its struct, before the screen. -/
theorem background_page_off_screen :
    ¬ ∀ (lay : Layout) (fs : FileSys) (mem : BootMemory) (k : Kernel), lay.terminals &&& 3 = 0 →
      Reaches (Kernel.step lay fs) (fun _ _ => True) (Kernel.boot lay mem) k →
      ∀ e k', e.switches = true → k.step lay fs e = some k' → ShowsExecuting lay k' := by
  intro h
  have hshell : Reaches (Kernel.step sampleLayout sampleFs) (fun _ _ => True)
      (Kernel.boot sampleLayout sampleMemory) sampleShell :=
    Reaches.refl.tail (e := .execute shellName (sampleEnv 100 101)) trivial rfl
  have hrun : Reaches (Kernel.step sampleLayout sampleFs) (fun _ _ => True)
      (Kernel.boot sampleLayout sampleMemory)
      (sampleShell.switchTerminal sampleLayout sampleFs 1 ⟨200, 201⟩ (sampleEnv 102 103)) :=
    hshell.tail (e := .switchTerminal 1 ⟨200, 201⟩ (sampleEnv 102 103)) trivial rfl
  have hshows := h sampleLayout sampleFs sampleMemory _ (by decide) hrun (.switchTask ⟨300, 301⟩)
    sampleTwo rfl (Kernel.step_switchTask _ _ _ (by decide +kernel) _)
  have hpage := hshows 0 false (by decide)
  exact absurd hpage (by decide +kernel)

end UnixTerminal
