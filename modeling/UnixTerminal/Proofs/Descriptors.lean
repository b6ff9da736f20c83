import UnixTerminal.Proofs.Core

set_option autoImplicit false

/-! # The system calls on descriptors

What `open`, `close`, `read` and `write` can do: the ways `open` can end (`OpenCase`), the two ways
`read` touches a descriptor table, and the part of a PCB that none of them changes (`FdEdit`). -/

namespace UnixTerminal

/-! ## Writes to the table and to the name slots -/

namespace Pcb

variable (p : Pcb)

@[simp] theorem fdsArray_setFds (i j : Nat) (f : Fds → Fds) :
    (p.setFds i f).fdsArray j = if j = i then f (p.fdsArray i) else p.fdsArray j := by
  simp only [setFds, Function.update_apply]

@[simp] theorem fdsArray_storeByte (off : Nat) (b : UInt8) :
    (p.storeByte off b).fdsArray = p.fdsArray := by
  unfold storeByte
  split_ifs <;> rfl

/-- Names are stored outside the table. -/
@[simp] theorem fdsArray_setName (i : Nat) (name : List UInt8) :
    (p.setName i name).fdsArray = p.fdsArray :=
  strcpy_preserves (P := fun d : Pcb => d.fdsArray = p.fdsArray) name p _
    (fun d j b _ _ hd => (fdsArray_storeByte d j b).trans hd) rfl

end Pcb

/-- What the system calls on descriptors can do to a PCB: the descriptors, the name slots and, for a
    32-character name in the last slot, `ESP0` may change. -/
structure FdEdit (p q : Pcb) : Prop where
  pid : q.pid = p.pid
  args : q.args = p.args
  espSwitch : q.espSwitch = p.espSwitch
  ebpSwitch : q.ebpSwitch = p.ebpSwitch
  ppid : q.ppid = p.ppid
  ebp0 : q.ebp0 = p.ebp0
  flags : ∀ i, (p.fdsArray i).flags < 6 → (q.fdsArray i).flags < 6

namespace FdEdit

theorem refl (p : Pcb) : FdEdit p p := ⟨rfl, rfl, rfl, rfl, rfl, rfl, fun _ h => h⟩

theorem trans {p q r : Pcb} (h1 : FdEdit p q) (h2 : FdEdit q r) : FdEdit p r where
  pid := h2.pid.trans h1.pid
  args := h2.args.trans h1.args
  espSwitch := h2.espSwitch.trans h1.espSwitch
  ebpSwitch := h2.ebpSwitch.trans h1.ebpSwitch
  ppid := h2.ppid.trans h1.ppid
  ebp0 := h2.ebp0.trans h1.ebp0
  flags i h := h2.flags i (h1.flags i h)

theorem setFds (p : Pcb) (i : Nat) (f : Fds → Fds)
    (hf : (p.fdsArray i).flags < 6 → (f (p.fdsArray i)).flags < 6) : FdEdit p (p.setFds i f) where
  pid := rfl
  args := rfl
  espSwitch := rfl
  ebpSwitch := rfl
  ppid := rfl
  ebp0 := rfl
  flags j h := by
    rw [Pcb.fdsArray_setFds]
    split_ifs with hj
    · exact hf (hj ▸ h)
    · exact h

/-- A byte stored into the name slots, or the first byte behind them. -/
theorem storeByte (p : Pcb) (off : Nat) (b : UInt8) (h : off < 260) : FdEdit p (p.storeByte off b) := by
  unfold Pcb.storeByte
  split_ifs <;> exact ⟨rfl, rfl, rfl, rfl, rfl, rfl, fun _ h => h⟩

theorem setName (p : Pcb) (i : Nat) (name : List UInt8) (hi : i < 8) (hlen : strlen name ≤ 32) :
    FdEdit p (p.setName i name) := by
  refine strcpy_preserves (P := FdEdit p) name p _ (fun d j b _ hj hd => ?_) (refl p)
  refine hd.trans (storeByte d j b ?_)
  simp only [maxFileChar] at hj
  omega

end FdEdit

namespace Kernel

variable (fs : FileSys) (k : Kernel)

/-- The PCB of the process that makes the call. -/
def callerPcb : Pcb := k.pcbOf k.currProcess

@[simp] theorem callerPcb_setPcb (f : Pcb → Pcb) :
    (k.setPcb (getPcbPointer k.currProcess) f).callerPcb = f k.callerPcb :=
  Function.update_self _ _ _

theorem callerPcb_congr {k k' : Kernel} (h : k'.core = k.core) : k'.callerPcb = k.callerPcb :=
  congrArg (fun c : Core => c.pcbOf c.currProcess) h

/-! ## `open` -/

theorem freeSlot_mem {p : Pcb} {i : Nat} (h : freeSlot p = some i) :
    2 ≤ i ∧ i < 8 ∧ (p.fdsArray i).flags = notSet := by
  have hmem : i ∈ [2, 3, 4, 5, 6, 7] := List.mem_of_find?_eq_some h
  have hfree : (p.fdsArray i).flags = notSet := by simpa using List.find?_some h
  simp only [List.mem_cons, List.not_mem_nil, or_false] at hmem
  exact ⟨by omega, by omega, hfree⟩

/-- The ways `open` can end: one of the two reserved names; a failure; an entry of an unknown type; or
    slot `i` filled in for the entry `d`. -/
inductive OpenCase (filename : List UInt8) : Int → Kernel → Prop
  | stdin (hin : strncmp filename stdinName 5 = 0) :
      OpenCase filename 0
        (k.setPcb (getPcbPointer k.currProcess) (·.setFds 1 (fun f => { f with flags := stdinFlag })))
  | stdout (hin : strncmp filename stdinName 5 ≠ 0) (hout : strncmp filename stdoutName 6 = 0) :
      OpenCase filename 0
        (k.setPcb (getPcbPointer k.currProcess) (·.setFds 2 (fun f => { f with flags := stdoutFlag })))
  | failed : OpenCase filename (-1) k
  | otherType : OpenCase filename 0 k
  | opened {i : Nat} {d : Dentry} {q : Pcb} (hd : fs.readDentryByName filename = some d)
      (hi : freeSlot k.callerPcb = some i) (hq : openSlot k.callerPcb i filename d = some q) :
      OpenCase filename i (k.setPcb (getPcbPointer k.currProcess) (fun _ => q))

theorem openFile_cases (filename : List UInt8) :
    k.OpenCase fs filename (k.openFile fs filename).1 (k.openFile fs filename).2 := by
  unfold openFile
  dsimp only
  split_ifs with hin hout
  · exact .stdin hin
  · exact .stdout hin hout
  · cases hd : fs.readDentryByName filename with
    | none => exact .failed
    | some d =>
        cases hi : freeSlot (k.pcb (getPcbPointer k.currProcess)) with
        | none => exact .failed
        | some i =>
            dsimp only
            cases hq : openSlot (k.pcb (getPcbPointer k.currProcess)) i filename d with
            | none => exact .otherType
            | some q => exact .opened hd hi hq

/-- The table `open` leaves: the slot is in use, with a driver by the type of the entry. -/
theorem fdsArray_openSlot {p q : Pcb} {i : Nat} {filename : List UInt8} {d : Dentry}
    (h : openSlot p i filename d = some q) :
    (∀ j, j ≠ i → q.fdsArray j = p.fdsArray j)
      ∧ ((d.fileType = rtcType ∧ (q.fdsArray i).flags = rtcFlag)
        ∨ (d.fileType = dirType ∧ q.fdsArray i = ⟨d.inode, 0, dirFlag⟩)
        ∨ (d.fileType = fileType ∧ q.fdsArray i = ⟨d.inode, 0, fileFlag⟩)) := by
  unfold openSlot at h
  split_ifs at h with h0 h1 h2 <;> cases h
  · refine ⟨fun j hj => ?_, Or.inl ⟨h0, ?_⟩⟩
    · simp [hj]
    · simp
  · refine ⟨fun j hj => ?_, Or.inr (Or.inl ⟨h1, ?_⟩)⟩
    · simp [hj]
    · simp
  · refine ⟨fun j hj => ?_, Or.inr (Or.inr ⟨h2, ?_⟩)⟩
    · simp [hj]
    · simp

theorem fdEdit_openSlot {p q : Pcb} {i : Nat} {filename : List UInt8} {d : Dentry} (hi : i < 8)
    (hlen : strlen filename ≤ 32) (h : openSlot p i filename d = some q) : FdEdit p q := by
  have hflag : ∀ f : Fds, f.flags < 6 → FdEdit p (p.setFds i (fun _ => f)) :=
    fun f hf => .setFds p i _ (fun _ => hf)
  unfold openSlot at h
  split_ifs at h <;> cases h
  · exact .setFds p i _ (fun _ => show rtcFlag < 6 by decide)
  · exact (hflag _ (show dirFlag < 6 by decide)).trans (.setName _ i filename hi hlen)
  · exact (hflag _ (show fileFlag < 6 by decide)).trans (.setName _ i filename hi hlen)

/-- `open` edits the descriptor table of the current process. -/
theorem core_openFile (filename : List UInt8) :
    ∃ q, FdEdit (k.core.pcbOf k.core.currProcess) q
      ∧ (k.openFile fs filename).2.core = k.core.setPcb k.core.currProcess (fun _ => q) := by
  have h := k.openFile_cases fs filename
  generalize k.openFile fs filename = r at h ⊢
  obtain ⟨v, k'⟩ := r
  dsimp only at h
  cases h with
  | stdin =>
      exact ⟨_, .setFds _ 1 (fun f => { f with flags := stdinFlag })
        (fun _ => show stdinFlag < 6 by decide), rfl⟩
  | stdout =>
      exact ⟨_, .setFds _ 2 (fun f => { f with flags := stdoutFlag })
        (fun _ => show stdoutFlag < 6 by decide), rfl⟩
  | failed => exact ⟨_, .refl _, (Core.setPcb_self _ _).symm⟩
  | otherType => exact ⟨_, .refl _, (Core.setPcb_self _ _).symm⟩
  | opened hd hi hq =>
      have hlen := (fs.strlen_of_readDentryByName hd).2
      exact ⟨_, fdEdit_openSlot (freeSlot_mem hi).2.1 hlen hq, rfl⟩

/-! ## `close` -/

/-- The ways `close` can end. -/
inductive CloseCase (fd : Int) : Int → Kernel → Prop
  | failed : CloseCase fd (-1) k
  | closed (hlo : 2 ≤ fd) (hhi : fd < 8) (hset : (k.callerPcb.fdsArray fd.toNat).flags ≠ notSet) :
      CloseCase fd 0
        (k.setPcb (getPcbPointer k.currProcess) (·.setFds fd.toNat (fun _ => ⟨0, 0, notSet⟩)))

theorem close_cases (fd : Int) : k.CloseCase fd (k.close fd).1 (k.close fd).2 := by
  unfold close
  dsimp only
  split_ifs with hrange hset
  · exact .failed
  · exact .failed
  · simp only [maxFile] at hrange
    exact .closed (by omega) (by omega) hset

/-- `close` edits the descriptor table of the current process. -/
theorem core_close (fd : Int) :
    ∃ q, FdEdit (k.core.pcbOf k.core.currProcess) q
      ∧ (k.close fd).2.core = k.core.setPcb k.core.currProcess (fun _ => q) := by
  have h := k.close_cases fd
  generalize k.close fd = r at h ⊢
  obtain ⟨v, k'⟩ := r
  dsimp only at h
  cases h with
  | failed => exact ⟨_, .refl _, (Core.setPcb_self _ _).symm⟩
  | closed =>
      exact ⟨_, .setFds _ fd.toNat (fun _ => ⟨0, 0, notSet⟩) (fun _ => show notSet < 6 by decide), rfl⟩

/-! ## `read` and `write` -/

theorem core_fileReadSetup (fd nbytes : Nat) :
    ∃ q, FdEdit (k.core.pcbOf k.core.currProcess) q
      ∧ (k.fileReadSetup fs fd nbytes).2.core = k.core.setPcb k.core.currProcess (fun _ => q) := by
  refine ⟨_, .setFds _ fd (fun f => { f with filePosition := f.filePosition + UInt32.ofInt _ })
    (fun h => h), rfl⟩

theorem core_dirReadnew : (k.dirReadnew fs).2.core = k.core := by
  unfold dirReadnew
  split_ifs <;> rfl

/-- `read` leaves the core alone, unless it goes to the file driver. -/
theorem read_cases {fd : Int} {buf : UInt32} {nbytes : Int} {r : Transfer × Kernel}
    (h : k.read fs fd buf nbytes = some r) :
    r.2.core = k.core
    ∨ (0 ≤ fd ∧ fd < 8 ∧ ((k.pcb k.currentPcb).fdsArray fd.toNat).flags = fileFlag
      ∧ r = k.fileReadSetup fs fd.toNat nbytes.toNat) := by
  unfold read at h
  split_ifs at h with hrange
  · cases h
    exact Or.inl rfl
  · split at h
    · cases h
      exact Or.inl rfl
    · exact Or.inl (k.core_keyboardRead h)
    · cases h
      exact Or.inl rfl
    · exact Or.inl (k.core_rtcRead h)
    · next hflag =>
        cases h
        simp only [maxFile] at hrange
        exact Or.inr ⟨by omega, by omega, UInt32.toNat_inj.1 hflag, rfl⟩
    · cases h
      exact Or.inl (k.core_dirReadnew fs)
    · cases h

/-- `read` edits at most the descriptor table of the current process. -/
theorem core_read {fd : Int} {buf : UInt32} {nbytes : Int} {r : Transfer × Kernel}
    (h : k.read fs fd buf nbytes = some r) :
    ∃ q, FdEdit (k.core.pcbOf k.core.currProcess) q
      ∧ r.2.core = k.core.setPcb k.core.currProcess (fun _ => q) := by
  rcases k.read_cases fs h with hsame | ⟨-, -, -, rfl⟩
  · exact ⟨_, .refl _, hsame.trans (k.core.setPcb_self _).symm⟩
  · exact k.core_fileReadSetup fs fd.toNat nbytes.toNat

/-- `write` leaves the core alone. -/
theorem core_write {fd : Int} {buf : UInt32} {bytes : List UInt8} {nbytes : Int} {r : Int × Kernel}
    (h : k.write fd buf bytes nbytes = some r) : r.2.core = k.core := by
  unfold write at h
  split_ifs at h
  · cases h
    rfl
  · split at h
    · cases h
      rfl
    · cases h
      exact k.core_keyboardWrite bytes
    · cases h
      exact k.core_terminalWrite bytes nbytes.toNat
    · cases h
      exact k.core_rtcWrite bytes nbytes.toNat
    · cases h
      rfl
    · cases h
      rfl
    · cases h

end Kernel

end UnixTerminal
