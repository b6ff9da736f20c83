import Mathlib.Data.List.GetD
import UnixTerminal.Proofs.Allocation
import UnixTerminal.Proofs.FileStream
import UnixTerminal.Proofs.PcbFields

set_option autoImplicit false

/-! # What `open` writes

`open` stores the name of a file or directory with `strcpy` into its slot of 32 bytes. A name of 32
characters puts its NUL into the byte behind: the first byte of the next slot, or, for slot 7, the
lowest byte of `ESP0`. `open_frame` says when this byte is left as it was, when a name survives the
later calls of `open`, and when `ESP0` does, in every run of the whole system.

The names `stdin` and `stdout` write the descriptor that is numbered by the flag, 1 or 2. -/

namespace UnixTerminal

/-- Everything in the PCB but `FDs_array[fd]` and `file_name[fd]` is the same; for `fd = -1`,
    everything. -/
structure OwnSlotOnly (p q : Pcb) (fd : Int) : Prop where
  pid : q.pid = p.pid
  args : q.args = p.args
  fds : ∀ j : Nat, (j : Int) ≠ fd → q.fdsArray j = p.fdsArray j
  bytes : ∀ off : Nat, off < 280 → ((off / 32 : Nat) : Int) ≠ fd → q.loadByte off = p.loadByte off

/-- `open` stores the name in slot `i`: the name is looked up and found, for a directory or a file, and
    `i` is the lowest free slot. -/
structure Stores (fs : FileSys) (p : Pcb) (filename : List UInt8) (i : Nat) : Prop where
  lookedUp : LookedUp filename
  slot : IsLeast (fileSlots \ p.taken) i
  entry : ∃ d, fs.readDentryByName filename = some d ∧ (d.fileType = dirType ∨ d.fileType = fileType)

/-- The calls of `open` that write nothing but their slot. -/
structure FrameOk (fs : FileSys) (p : Pcb) (filename : List UInt8) : Prop where
  stdin : strncmp filename stdinName 5 = 0 → (p.fdsArray 1).flags = stdinFlag
  stdout : strncmp filename stdinName 5 ≠ 0 → strncmp filename stdoutName 6 = 0 →
    (p.fdsArray 2).flags = stdoutFlag
  stored : ∀ i, Stores fs p filename i → strlen filename = 32 → p.loadByte (32 * i + 32) = 0

/-! ## The slot -/

section Slot

variable {fs : FileSys} {p q : Pcb} {i : Nat} {filename : List UInt8} {d : Dentry}

theorem not_rtc_iff (hq : Kernel.openSlot p i filename d = some q) :
    d.fileType ≠ rtcType ↔ d.fileType = dirType ∨ d.fileType = fileType := by
  constructor
  · intro hne
    rcases (Kernel.fdsArray_openSlot hq).2 with ⟨h, -⟩ | ⟨h, -⟩ | ⟨h, -⟩
    · exact absurd h hne
    · exact Or.inl h
    · exact Or.inr h
  · rintro (h | h) <;> rw [h] <;> decide

/-- The bytes behind `open` of a directory or a file. -/
theorem loadByte_openSlot (hq : Kernel.openSlot p i filename d = some q) (htype : d.fileType ≠ rtcType)
    (hi : i < 8) (hlen : strlen filename ≤ 32) (off : Nat) :
    q.loadByte off = if 32 * i ≤ off ∧ off ≤ 32 * i + strlen filename
      then (cstr filename).getD (off - 32 * i) 0 else p.loadByte off := by
  have hfit : maxFileChar * i + strlen filename ≤ 256 := by
    simp only [maxFileChar]
    omega
  unfold Kernel.openSlot at hq
  rw [if_neg htype] at hq
  split_ifs at hq <;> cases hq
  · exact loadByte_strcpy filename (p.setFds i _) _ hfit off
  · exact loadByte_strcpy filename (p.setFds i _) _ hfit off

theorem loadByte_openSlot_rtc (hq : Kernel.openSlot p i filename d = some q)
    (htype : d.fileType = rtcType) (off : Nat) : q.loadByte off = p.loadByte off := by
  unfold Kernel.openSlot at hq
  rw [if_pos htype] at hq
  cases hq
  rfl

/-- The NUL of a name that fills the slot. -/
theorem loadByte_nul (hq : Kernel.openSlot p i filename d = some q) (htype : d.fileType ≠ rtcType)
    (hi : i < 8) (h32 : strlen filename = 32) : q.loadByte (32 * i + 32) = 0 := by
  rw [loadByte_openSlot hq htype hi (Nat.le_of_eq h32), if_pos (by omega), List.getD_eq_default]
  rw [← strlen_eq_length_cstr]
  omega

/-- The bytes behind slot `i` are the same if the one behind its last is 0, or the name is shorter. -/
theorem loadByte_behind (hq : Kernel.openSlot p i filename d = some q) (hi : i < 8)
    (hlen : strlen filename ≤ 32)
    (hok : d.fileType ≠ rtcType → strlen filename = 32 → p.loadByte (32 * i + 32) = 0) {off : Nat}
    (hoff : off / 32 ≠ i) : q.loadByte off = p.loadByte off := by
  by_cases htype : d.fileType = rtcType
  · exact loadByte_openSlot_rtc hq htype off
  · by_cases hin : 32 * i ≤ off ∧ off ≤ 32 * i + strlen filename
    · obtain rfl : off = 32 * i + 32 := by omega
      have h32 : strlen filename = 32 := by omega
      rw [loadByte_nul hq htype hi h32, hok htype h32]
    · rw [loadByte_openSlot hq htype hi hlen off, if_neg hin]

/-- Filling in a slot writes nothing else, or the byte behind the slot was not 0. -/
theorem ownSlotOnly_openSlot (hq : Kernel.openSlot p i filename d = some q) (hi : i < 8)
    (hlen : strlen filename ≤ 32) :
    OwnSlotOnly p q i ↔
      (d.fileType ≠ rtcType → strlen filename = 32 → p.loadByte (32 * i + 32) = 0) := by
  have hedit := Kernel.fdEdit_openSlot hi hlen hq
  constructor
  · intro h htype h32
    have hout : ((((32 * i + 32) / 32 : Nat) : Int)) ≠ (i : Int) := by omega
    rw [← h.bytes (32 * i + 32) (by omega) hout, loadByte_nul hq htype hi h32]
  · intro h
    refine ⟨hedit.pid, hedit.args, fun j hj => ?_, fun off _ hoff => ?_⟩
    · exact (Kernel.fdsArray_openSlot hq).1 j (fun he => hj (by rw [he]))
    · exact loadByte_behind hq hi hlen h (fun he => hoff (by rw [he]))

end Slot

/-! ## One call -/

theorem OwnSlotOnly.refl (p : Pcb) (fd : Int) : OwnSlotOnly p p fd :=
  ⟨rfl, rfl, fun _ _ => rfl, fun _ _ _ => rfl⟩

/-- A write of the flags of one descriptor, where another one is returned. -/
theorem ownSlotOnly_setFlags (p : Pcb) {i : Nat} (hi : i ≠ 0) (v : UInt32) :
    OwnSlotOnly p (p.setFds i (fun f => { f with flags := v })) 0 ↔ (p.fdsArray i).flags = v := by
  constructor
  · intro h
    have hfds := h.fds i (by omega)
    rw [Pcb.fdsArray_setFds, if_pos rfl] at hfds
    rw [← hfds]
  · rintro rfl
    have hsame : p.setFds i (fun f => { f with flags := (p.fdsArray i).flags }) = p := by
      simp [Pcb.setFds]
    rw [hsame]
    exact .refl p 0

variable {fs : FileSys} {k : Kernel} {filename : List UInt8}

/-- `open` of a looked-up name fills in a slot, or changes nothing. -/
theorem openFile_fills (fs : FileSys) (k : Kernel) (hname : LookedUp filename) :
    (∃ i d q, IsLeast (fileSlots \ k.callerPcb.taken) i ∧ fs.readDentryByName filename = some d ∧
      Kernel.openSlot k.callerPcb i filename d = some q ∧
      k.openFile fs filename = (↑i, k.setPcb (getPcbPointer k.currProcess) (fun _ => q))) ∨
    ((k.openFile fs filename).2 = k ∧ ∀ i, ¬ Stores fs k.callerPcb filename i) := by
  unfold Kernel.openFile
  dsimp only
  rw [if_neg hname.1, if_neg hname.2]
  cases hd : fs.readDentryByName filename with
  | none =>
      refine Or.inr ⟨rfl, fun i hi => ?_⟩
      obtain ⟨d, hd', -⟩ := hi.entry
      rw [hd] at hd'
      cases hd'
  | some d =>
      cases hi : Kernel.freeSlot (k.pcb (getPcbPointer k.currProcess)) with
      | none =>
          have hfull := (Kernel.freeSlot_eq_none_iff _).1 hi
          exact Or.inr ⟨rfl, fun i hs => hs.slot.1.2 (hfull hs.slot.1.1)⟩
      | some i =>
          have hslot := (Kernel.freeSlot_eq_some_iff _ i).1 hi
          dsimp only
          cases hq : Kernel.openSlot (k.pcb (getPcbPointer k.currProcess)) i filename d with
          | some q => exact Or.inl ⟨i, d, q, hslot, rfl, hq, rfl⟩
          | none =>
              refine Or.inr ⟨rfl, fun j hs => ?_⟩
              obtain ⟨d', hd', htype⟩ := hs.entry
              obtain rfl : d = d' := Option.some.inj (hd.symm.trans hd')
              obtain ⟨q, hq', -⟩ :=
                Kernel.openSlot_known (k.pcb (getPcbPointer k.currProcess)) i filename (Or.inr htype)
              rw [hq] at hq'
              cases hq'

/-- **When `open` writes nothing but its own descriptor.** -/
theorem ownSlotOnly_openFile (fs : FileSys) (k : Kernel) (filename : List UInt8) :
    OwnSlotOnly k.callerPcb (k.openFile fs filename).2.callerPcb (k.openFile fs filename).1 ↔
      FrameOk fs k.callerPcb filename := by
  by_cases hin : strncmp filename stdinName 5 = 0
  · have hopen : k.openFile fs filename = (0, k.setPcb (getPcbPointer k.currProcess)
        (·.setFds 1 (fun f => { f with flags := stdinFlag }))) := if_pos hin
    rw [hopen, Kernel.callerPcb_setPcb, ownSlotOnly_setFlags _ (by decide)]
    exact ⟨fun h => ⟨fun _ => h, fun hne => absurd hin hne, fun i hi => absurd hin hi.lookedUp.1⟩,
      fun h => h.stdin hin⟩
  by_cases hout : strncmp filename stdoutName 6 = 0
  · have hopen : k.openFile fs filename = (0, k.setPcb (getPcbPointer k.currProcess)
        (·.setFds 2 (fun f => { f with flags := stdoutFlag }))) :=
      (if_neg hin).trans (if_pos hout)
    rw [hopen, Kernel.callerPcb_setPcb, ownSlotOnly_setFlags _ (by decide)]
    exact ⟨fun h => ⟨fun h0 => absurd h0 hin, fun _ _ => h, fun i hi => absurd hout hi.lookedUp.2⟩,
      fun h => h.stdout hin hout⟩
  have hname : LookedUp filename := ⟨hin, hout⟩
  have hreserved : (∀ i, Stores fs k.callerPcb filename i → strlen filename = 32 →
      k.callerPcb.loadByte (32 * i + 32) = 0) ↔ FrameOk fs k.callerPcb filename :=
    ⟨fun h => ⟨fun h0 => absurd h0 hin, fun _ h0 => absurd h0 hout, h⟩, fun h => h.stored⟩
  rw [← hreserved]
  rcases openFile_fills fs k hname with ⟨i, d, q, hi, hd, hq, hopen⟩ | ⟨hsame, hnot⟩
  · have hlt : i < 8 := hi.1.1.2
    rw [hopen, Kernel.callerPcb_setPcb,
      ownSlotOnly_openSlot hq hlt (fs.strlen_of_readDentryByName hd).2, not_rtc_iff hq]
    constructor
    · intro h j hj h32
      obtain rfl : i = j := hi.unique hj.slot
      obtain ⟨d', hd', htype⟩ := hj.entry
      obtain rfl : d = d' := Option.some.inj (hd.symm.trans hd')
      exact h htype h32
    · exact fun h htype h32 => h i ⟨hname, hi, d, hd, htype⟩ h32
  · rw [hsame]
    exact ⟨fun _ i hi => absurd hi (hnot i), fun _ => .refl _ _⟩

/-- A returned slot means that the name was looked up. -/
theorem lookedUp_of_openFile {i : Nat} (hi : 2 ≤ i) (h : (k.openFile fs filename).1 = i) :
    LookedUp filename := by
  unfold Kernel.openFile at h
  dsimp only at h
  split_ifs at h with hin hout
  · exact absurd h (by omega)
  · exact absurd h (by omega)
  · exact ⟨hin, hout⟩

/-- What `open` did when it returned slot `i`. -/
theorem openFile_returned {i : Nat} (hi : 2 ≤ i) (h : (k.openFile fs filename).1 = i) :
    ∃ d q, IsLeast (fileSlots \ k.callerPcb.taken) i ∧ fs.readDentryByName filename = some d ∧
      Kernel.openSlot k.callerPcb i filename d = some q ∧
      (k.openFile fs filename).2.pcbOf k.currProcess = q := by
  have hcase := k.openFile_cases fs filename
  generalize k.openFile fs filename = r at hcase h ⊢
  obtain ⟨v, k'⟩ := r
  dsimp only at hcase h ⊢
  cases hcase with
  | stdin => exact absurd h (by omega)
  | stdout => exact absurd h (by omega)
  | failed => exact absurd h (by omega)
  | otherType => exact absurd h (by omega)
  | @opened j d q hd hj hq =>
      obtain rfl : j = i := Int.ofNat.inj h
      exact ⟨d, q, (Kernel.freeSlot_eq_some_iff _ j).1 hj, hd, hq, Function.update_self _ _ _⟩

/-! ## Names over a run -/

/-- Slot `j` of process `q` is in use. -/
def SlotInUse (q : UInt32) (j : Nat) (k : Kernel) : Prop :=
  ((k.pcbOf q).fdsArray j).flags ≠ notSet

/-- The event keeps `name` in slot `j` of process `q`: no name is stored in the slot behind when `name`
    fills slot `j`, and no name that fills its slot is stored in the slot in front. -/
def KeepsName (fs : FileSys) (q : UInt32) (j : Nat) (name : List UInt8) (k : Kernel) (e : Event) : Prop :=
  ∀ filename i, e = .openFile filename → getPcbPointer q = getPcbPointer k.currProcess →
    Stores fs k.callerPcb filename i →
    (i = j + 1 → name.length < 32) ∧ (i + 1 = j → strlen filename < 32)

/-- A name in a slot is no part of the table, of the arguments or of the scheduler's frame. -/
theorem keptField_hasName {j : Nat} {name : List UInt8} (hj : j < 8) (hlen : name.length ≤ 32) :
    KeptField (fun p => HasName p j name) := by
  refine ⟨fun _ _ => rfl, fun _ => rfl, fun frame x => ?_, fun _ _ _ => rfl⟩
  have hbyte : ∀ off, off < 260 → (Core.saveFrame frame x).loadByte off = x.loadByte off := by
    intro off hoff
    simp only [Pcb.loadByte, Core.saveFrame, if_pos hoff]
  refine propext ⟨fun h i hi => ?_, fun h i hi => ?_⟩
  · rw [← hbyte _ (by omega)]
    exact h i hi
  · rw [hbyte _ (by omega)]
    exact h i hi

variable {lay : Layout} {q : UInt32} {j : Nat} {name : List UInt8}

/-- The name goes into another slot of the same PCB, and the two do not run into each other. -/
theorem hasName_openSlot_of_keeps (hlen : name.length ≤ 32)
    (h : HasName (k.pcbOf q) j name) (huse : SlotInUse q j k)
    (hok : KeepsName fs q j name k (.openFile filename)) {i : Nat} {d : Dentry} {p : Pcb}
    (hptr : getPcbPointer q = getPcbPointer k.currProcess) (hd : fs.readDentryByName filename = some d)
    (hi : Kernel.freeSlot k.callerPcb = some i)
    (hp : Kernel.openSlot k.callerPcb i filename d = some p)
    (hret : (k.openFile fs filename).1 = i) : HasName p j name = HasName k.callerPcb j name := by
  have hcaller : k.pcbOf q = k.callerPcb := congrArg k.pcb hptr
  rw [hcaller] at h
  obtain ⟨h2, h8, hfree⟩ := Kernel.freeSlot_mem hi
  have hne : j ≠ i := by
    rintro rfl
    rw [SlotInUse, hcaller] at huse
    exact huse hfree
  have hapart : d.fileType ≠ rtcType →
      (j + 1 = i → name.length < 32) ∧ (i + 1 = j → strlen filename < 32) := by
    intro htype
    have hs : Stores fs k.callerPcb filename i := ⟨lookedUp_of_openFile h2 hret,
      (Kernel.freeSlot_eq_some_iff _ i).1 hi, d, hd, (not_rtc_iff hp).1 htype⟩
    obtain ⟨hbehind, hfront⟩ := hok filename i rfl hptr hs
    exact ⟨fun he => hbehind he.symm, hfront⟩
  have hnew : HasName p j name :=
    h.openSlot hp h8 hne hlen (fs.strlen_of_readDentryByName hd).2 hapart
  exact propext ⟨fun _ => h, fun _ => hnew⟩

/-- One event, while the slot stays in use. -/
theorem hasName_step {k k' : Kernel} {e : Event} (hj : 2 ≤ j) (hj' : j < 8) (hlen : name.length ≤ 32)
    (h : HasName (k.pcbOf q) j name) (huse : SlotInUse q j k) (huse' : SlotInUse q j k')
    (hok : KeepsName fs q j name k e) (hstep : k.step lay fs e = some k') :
    HasName (k'.pcbOf q) j name := by
  have hkept : HasName (k'.pcbOf q) j name = HasName (k.pcbOf q) j name := by
    refine (keptField_hasName hj' hlen).step hstep ?_ (Or.inr (fun hl hptr => ?_))
    · rintro filename i d p rfl hptr hd hi hp hret
      exact hasName_openSlot_of_keeps hlen h huse hok hptr hd hi hp hret
    · -- a program that starts has no files
      have hfds := (Kernel.fresh_of_launches hstep hl).initFds j hj'
      have hsame : k'.pcbOf q = k'.core.pcbOf k'.core.currProcess := congrArg k'.pcb hptr
      rw [SlotInUse, hsame, hfds] at huse'
      exact huse' (by simp [Kernel.initFds, (by omega : j ≠ 0 ∧ j ≠ 1)])
  rw [hkept]
  exact h

/-- The states of a run in which the slot stays in use. -/
theorem hasName_run {k k' : Kernel} (hj : 2 ≤ j) (hj' : j < 8) (hlen : name.length ≤ 32)
    (h : HasName (k.pcbOf q) j name)
    (hrun : Reaches (Kernel.step lay fs) (fun s e => SlotInUse q j s ∧ KeepsName fs q j name s e) k k')
    (huse : SlotInUse q j k') : HasName (k'.pcbOf q) j name := by
  refine hrun.invariant (I := fun s => SlotInUse q j s → HasName (s.pcbOf q) j name) (fun _ => h) ?_ huse
  intro s e s' hs hok hstep huse'
  exact hasName_step hj hj' hlen (hs hok.1) hok.1 huse' hok.2 hstep

/-- The name that `open` leaves in the slot it returns. -/
theorem hasName_openFile (hj : 2 ≤ j) (h : (k.openFile fs filename).1 = j)
    (hname : Stores fs k.callerPcb filename j ∨ cstr (k.callerPcb.nameAt j) = cstr filename) :
    j < 8 ∧ strlen filename ≤ 32 ∧
      HasName ((k.openFile fs filename).2.pcbOf k.currProcess) j (cstr filename) := by
  obtain ⟨d, p, hslot, hd, hp, hpcb⟩ := openFile_returned hj h
  have hlt : j < 8 := hslot.1.1.2
  have hlen := (fs.strlen_of_readDentryByName hd).2
  refine ⟨hlt, hlen, ?_⟩
  rw [hpcb]
  by_cases htype : d.fileType = rtcType
  · -- the slot is left as it is
    have hread : cstr (k.callerPcb.nameAt j) = cstr filename := by
      refine hname.resolve_left (fun hs => ?_)
      obtain ⟨d', hd', htype'⟩ := hs.entry
      obtain rfl : d = d' := Option.some.inj (hd.symm.trans hd')
      exact (not_rtc_iff hp).2 htype' htype
    have hold := hasName_of_cstr_nameAt hlt (by rwa [strlen_eq_length_cstr] at hlen) hread
    exact fun i hi => (loadByte_openSlot_rtc hp htype _).trans (hold i hi)
  · exact hasName_openSlot hp htype hlt hlen

/-- What `open` does when it stores the name. -/
theorem openFile_stores {i : Nat} (hs : Stores fs k.callerPcb filename i) :
    ∃ d p, Kernel.openSlot k.callerPcb i filename d = some p ∧ d.fileType ≠ rtcType ∧
      (k.openFile fs filename).2 = k.setPcb (getPcbPointer k.currProcess) (fun _ => p) ∧
      1 ≤ strlen filename ∧ strlen filename ≤ 32 := by
  obtain ⟨d, hd, htype⟩ := hs.entry
  rcases openFile_fills fs k hs.lookedUp with ⟨i', d', p, hi', hd', hp, hopen⟩ | ⟨-, hnot⟩
  · obtain rfl : i' = i := hi'.unique hs.slot
    obtain rfl : d = d' := Option.some.inj (hd.symm.trans hd')
    exact ⟨d, p, hp, (not_rtc_iff hp).2 htype, by rw [hopen], fs.strlen_of_readDentryByName hd⟩
  · exact absurd hs (hnot i)

/-- Each call of `open` keeps the name of a slot in use exactly when it meets the condition. -/
theorem hasName_openFile_iff (hj' : j < 8) (hpos : 0 < name.length) (hlen : name.length ≤ 32)
    (hnul : ∀ c ∈ name, c ≠ 0) (h : HasName (k.pcbOf q) j name) (huse : SlotInUse q j k)
    (filename : List UInt8) :
    HasName ((k.openFile fs filename).2.pcbOf q) j name ↔
      KeepsName fs q j name k (.openFile filename) := by
  constructor
  · intro hafter filename' i he hptr hs
    cases he
    obtain ⟨d, p, hp, htype, hopen, hlo, hhi⟩ := openFile_stores hs
    have hi : i < 8 := hs.slot.1.1.2
    have hpcb : (k.openFile fs filename).2.pcbOf q = p := by
      rw [hopen, Kernel.pcbOf, hptr]
      exact Function.update_self _ _ _
    rw [hpcb] at hafter
    refine ⟨fun he => ?_, fun he => ?_⟩
    · -- the first character stored is where the name had its NUL
      by_contra hfull
      have hnulAt := hafter 32 (by omega)
      have hstored := loadByte_openSlot hp htype hi hhi (32 * i)
      rw [if_pos (by omega), Nat.sub_self] at hstored
      have hfirst : (cstr filename).getD 0 0 ≠ 0 := by
        rw [strlen_eq_length_cstr] at hlo
        rw [List.getD_eq_getElem _ _ hlo]
        exact ne_zero_of_mem_cstr (List.getElem_mem hlo)
      have hat : 32 * j + 32 = 32 * i := by omega
      have hend : name.getD 32 0 = 0 := List.getD_eq_default _ _ (by omega)
      rw [hat, hstored, hend] at hnulAt
      exact hfirst hnulAt
    · -- the NUL stored is where the name had its first character
      by_contra hfull
      have hfirst := hafter 0 (Nat.zero_le _)
      have hat : 32 * j + 0 = 32 * i + 32 := by omega
      rw [hat, loadByte_nul hp htype hi (by omega), List.getD_eq_getElem _ _ hpos] at hfirst
      exact hnul _ (List.getElem_mem hpos) hfirst.symm
  · intro hok
    have hkept : HasName ((k.openFile fs filename).2.pcbOf q) j name = HasName (k.pcbOf q) j name :=
      (keptField_hasName hj' hlen).openFile (fun i d p hptr hd hi hp hret =>
        hasName_openSlot_of_keeps hlen h huse hok hptr hd hi hp hret)
    rw [hkept]
    exact h

/-! ## `ESP0` -/

theorem toNat_byteOf (w : UInt32) {i : Nat} (hi : i < 4) :
    (byteOf w i).toNat = w.toNat / 2 ^ (8 * i) % 256 := by
  have hsh : (UInt32.ofNat (8 * i)).toNat % 32 = 8 * i := by
    rw [UInt32.toNat_ofNat']
    omega
  rw [byteOf, UInt32.toNat_toUInt8, UInt32.toNat_shiftRight, hsh, Nat.shiftRight_eq_div_pow]

/-- A word is its four bytes. -/
theorem eq_of_byteOf {w v : UInt32} (h : ∀ i, i < 4 → byteOf w i = byteOf v i) : w = v := by
  have hbyte : ∀ i, i < 4 → w.toNat / 2 ^ (8 * i) % 256 = v.toNat / 2 ^ (8 * i) % 256 := by
    intro i hi
    rw [← toNat_byteOf w hi, ← toNat_byteOf v hi, h i hi]
  have h0 := hbyte 0 (by decide)
  have h1 := hbyte 1 (by decide)
  have h2 := hbyte 2 (by decide)
  have h3 := hbyte 3 (by decide)
  have hw := w.toNat_lt
  have hv := v.toNat_lt
  rw [← UInt32.toNat_inj]
  omega

/-- The call of `open` keeps `ESP0` of process `q`: it does not store a name of 32 characters in the
    last slot, or the lowest byte of `ESP0` is 0. -/
def KeepsEsp0 (fs : FileSys) (q : UInt32) (k : Kernel) (filename : List UInt8) : Prop :=
  getPcbPointer q = getPcbPointer k.currProcess → Stores fs k.callerPcb filename 7 →
    strlen filename = 32 → byteOf k.callerPcb.esp0 0 = 0

/-- `ESP0` is the word behind the last slot. -/
theorem loadByte_esp0 (p : Pcb) {i : Nat} (hi : i < 4) : p.loadByte (256 + i) = byteOf p.esp0 i := by
  have hin : ¬ 256 + i < 256 ∧ 256 + i < 260 := by omega
  rw [Pcb.loadByte, if_neg hin.1, if_pos hin.2, Nat.add_sub_cancel_left]

theorem esp0_openFile_iff (fs : FileSys) (k : Kernel) (q : UInt32) (filename : List UInt8) :
    ((k.openFile fs filename).2.pcbOf q).esp0 = (k.pcbOf q).esp0 ↔ KeepsEsp0 fs q k filename := by
  constructor
  · intro hafter hptr hs h32
    obtain ⟨d, p, hp, htype, hopen, -, -⟩ := openFile_stores hs
    have hpcb : (k.openFile fs filename).2.pcbOf q = p := by
      rw [hopen, Kernel.pcbOf, hptr]
      exact Function.update_self _ _ _
    have hcaller : k.pcbOf q = k.callerPcb := congrArg k.pcb hptr
    rw [hpcb, hcaller] at hafter
    rw [← hafter, ← loadByte_esp0 p (by decide)]
    exact loadByte_nul hp htype (by decide) h32
  · intro hok
    have hf : KeptField Pcb.esp0 := ⟨fun _ _ => rfl, fun _ => rfl, fun _ _ => rfl, fun _ _ _ => rfl⟩
    refine hf.openFile (fun i d p hptr hd hi hp hret => eq_of_byteOf (fun m hm => ?_))
    obtain ⟨h2, h8, -⟩ := Kernel.freeSlot_mem hi
    have hlen := (fs.strlen_of_readDentryByName hd).2
    rw [← loadByte_esp0 _ hm, ← loadByte_esp0 _ hm]
    by_cases htype : d.fileType = rtcType
    · exact loadByte_openSlot_rtc hp htype _
    · by_cases hnul : 256 + m = 32 * i + 32 ∧ strlen filename = 32
      · -- the NUL of the name in the last slot
        obtain ⟨hlast, h32⟩ := hnul
        obtain ⟨rfl, rfl⟩ : i = 7 ∧ m = 0 := by omega
        have hs : Stores fs k.callerPcb filename 7 := ⟨lookedUp_of_openFile h2 hret,
          (Kernel.freeSlot_eq_some_iff _ 7).1 hi, d, hd, (not_rtc_iff hp).1 htype⟩
        have hzero : k.callerPcb.loadByte (256 + 0) = 0 :=
          (loadByte_esp0 _ hm).trans (hok hptr hs h32)
        rw [hzero]
        exact loadByte_nul hp htype (by decide) h32
      · rw [loadByte_openSlot hp htype h8 hlen, if_neg (by omega)]

/-- The event starts a program in the PCB of process `q`. -/
def StartsIn (lay : Layout) (fs : FileSys) (q : UInt32) (k : Kernel) (e : Event) : Prop :=
  k.launches fs e = true ∧
    ∃ k', k.step lay fs e = some k' ∧ getPcbPointer q = getPcbPointer k'.currProcess

/-- One event. -/
theorem esp0_step {k k' : Kernel} {e : Event} (hstart : ¬ StartsIn lay fs q k e)
    (hok : ∀ filename, e = .openFile filename → KeepsEsp0 fs q k filename)
    (hstep : k.step lay fs e = some k') : (k'.pcbOf q).esp0 = (k.pcbOf q).esp0 := by
  cases e with
  | openFile filename =>
      cases hstep
      exact (esp0_openFile_iff fs k q filename).2 (hok filename rfl)
  | _ =>
      have hf : KeptField Pcb.esp0 := ⟨fun _ _ => rfl, fun _ => rfl, fun _ _ => rfl, fun _ _ _ => rfl⟩
      refine hf.step hstep (fun filename i d p he => ?_) (Or.inr (fun hl hptr => ?_))
      · cases he
      · exact hstart ⟨hl, k', hstep, hptr⟩

/-! ## The three results -/

/-- **What `open` writes, and what later calls of it leave.** A call writes nothing but its own
    descriptor exactly when it is one of `FrameOk`. A descriptor that `open` returned reads as its name
    in every later state of a run in which the slot stays in use, as long as the calls of `open` are
    ones of `KeepsName`; each call that is not destroys the name. `ESP0` of a process is the same
    throughout a run that starts no other program in its PCB and in which the calls of `open` are ones
    of `KeepsEsp0`; each call that is not changes it. -/
theorem open_frame (lay : Layout) (fs : FileSys) :
    (∀ (k : Kernel) (filename : List UInt8),
      OwnSlotOnly k.callerPcb (k.openFile fs filename).2.callerPcb (k.openFile fs filename).1 ↔
        FrameOk fs k.callerPcb filename) ∧
    ((∀ (k k' : Kernel) (filename : List UInt8) (j : Nat), 2 ≤ j → (k.openFile fs filename).1 = j →
      (Stores fs k.callerPcb filename j ∨ cstr (k.callerPcb.nameAt j) = cstr filename) →
      Reaches (Kernel.step lay fs)
        (fun s e => SlotInUse k.currProcess j s ∧ KeepsName fs k.currProcess j (cstr filename) s e)
        (k.openFile fs filename).2 k' →
      SlotInUse k.currProcess j k' → cstr ((k'.pcbOf k.currProcess).nameAt j) = cstr filename) ∧
    ∀ (k : Kernel) (q : UInt32) (j : Nat) (name filename : List UInt8), j < 8 → 0 < name.length →
      name.length ≤ 32 → cstr ((k.pcbOf q).nameAt j) = name → SlotInUse q j k →
      (cstr (((k.openFile fs filename).2.pcbOf q).nameAt j) = name ↔
        KeepsName fs q j name k (.openFile filename))) ∧
    (∀ (k k' : Kernel) (q : UInt32),
      Reaches (Kernel.step lay fs) (fun s e => ¬ StartsIn lay fs q s e ∧
        ∀ filename, e = .openFile filename → KeepsEsp0 fs q s filename) k k' →
      (k'.pcbOf q).esp0 = (k.pcbOf q).esp0) ∧
    ∀ (k : Kernel) (q : UInt32) (filename : List UInt8),
      ((k.openFile fs filename).2.pcbOf q).esp0 = (k.pcbOf q).esp0 ↔ KeepsEsp0 fs q k filename := by
  refine ⟨ownSlotOnly_openFile fs, ⟨?_, ?_⟩, ?_, esp0_openFile_iff fs⟩
  · intro k k' filename j hj hret hname hrun huse
    obtain ⟨hj', hlen, hfirst⟩ := hasName_openFile hj hret hname
    rw [strlen_eq_length_cstr] at hlen
    have hlast := hasName_run hj hj' hlen (q := k.currProcess) hfirst hrun huse
    exact hlast.cstr_nameAt hj' hlen (fun _ hc => ne_zero_of_mem_cstr hc)
  · intro k q j name filename hj' hpos hlen hname huse
    have hnul : ∀ c ∈ name, c ≠ 0 := fun c hc => ne_zero_of_mem_cstr (hname.symm ▸ hc)
    rw [← hasName_openFile_iff hj' hpos hlen hnul (hasName_of_cstr_nameAt hj' hlen hname) huse]
    exact ⟨fun h => hasName_of_cstr_nameAt hj' hlen h, fun h => h.cstr_nameAt hj' hlen hnul⟩
  · intro k k' q hrun
    refine hrun.invariant (I := fun s => (s.pcbOf q).esp0 = (k.pcbOf q).esp0) rfl ?_
    intro s e s' hs hok hstep
    rw [esp0_step hok.1 hok.2 hstep, hs]

/-- The shell opens `note`: nothing but slot 2 changes, and the slot reads as `note`. -/
theorem open_frame_note :
    OwnSlotOnly sampleShell.callerPcb (sampleShell.openFile sampleFs noteName).2.callerPcb
      (sampleShell.openFile sampleFs noteName).1 ∧
    cstr (((sampleShell.openFile sampleFs noteName).2.pcbOf sampleShell.currProcess).nameAt 2)
      = cstr noteName := by
  have hslot : Kernel.freeSlot sampleShell.callerPcb = some 2 := by decide +kernel
  have hname : LookedUp noteName := by
    unfold LookedUp
    decide +kernel
  have hentry : (sampleFs.readDentryByName noteName).map (fun d => d.fileType) = some fileType := by
    decide +kernel
  obtain ⟨d, hd, htype⟩ := Option.map_eq_some_iff.1 hentry
  have hstores : Stores sampleFs sampleShell.callerPcb noteName 2 :=
    ⟨hname, (Kernel.freeSlot_eq_some_iff _ 2).1 hslot, d, hd, Or.inr htype⟩
  have hshort : strlen noteName ≠ 32 := by decide
  refine ⟨((open_frame sampleLayout sampleFs).1 sampleShell noteName).2
    ⟨fun h => absurd h hname.1, fun _ h => absurd h hname.2, fun _ _ h => absurd h hshort⟩, ?_⟩
  exact (open_frame sampleLayout sampleFs).2.1.1 sampleShell _ noteName 2 (by decide)
    (by decide +kernel) (Or.inl hstores) Reaches.refl (by unfold SlotInUse; decide +kernel)

/-! ## The last slot -/

/-- An image in which `note` has a name of 32 characters, and the shell with `data` open five times: the
    last slot is the only one free. -/
def longName : List UInt8 := List.replicate 32 110
def longNameFs : FileSys := fileInit (place 256 (entryBytes longName 2 2) sampleImage)
def shellWithFive : Kernel :=
  (List.replicate 5 dataName).foldl (fun k filename => (k.openFile longNameFs filename).2) sampleShell

/-- The name is stored in the last slot, and its NUL in the lowest byte of `ESP0`. -/
theorem open_writes_esp0 :
    ¬ ∀ (fs : FileSys) (k : Kernel) (filename : List UInt8), LookedUp filename →
      (fs.readDentryByName filename).isSome = true →
      OwnSlotOnly k.callerPcb (k.openFile fs filename).2.callerPcb (k.openFile fs filename).1 := by
  intro h
  have hslot : (shellWithFive.openFile longNameFs longName).1 = 7 := by decide +kernel
  have hbefore : shellWithFive.callerPcb.loadByte 256 = 100 := by decide +kernel
  have hafter : (shellWithFive.openFile longNameFs longName).2.callerPcb.loadByte 256 = 0 := by
    decide +kernel
  have hname : LookedUp longName := by
    unfold LookedUp
    decide +kernel
  have hbytes := (h longNameFs shellWithFive longName hname (by decide +kernel)).bytes 256 (by decide)
    (by rw [hslot]; decide)
  rw [hbefore, hafter] at hbytes
  exact absurd hbytes (by decide)

end UnixTerminal
