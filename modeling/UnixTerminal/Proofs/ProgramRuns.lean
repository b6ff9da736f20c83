import UnixTerminal.Programs.Calls
import UnixTerminal.Proofs.Allocation
import UnixTerminal.Proofs.ChildFiles
import UnixTerminal.Proofs.CommandArgs
import UnixTerminal.Proofs.PrivateScreens

set_option autoImplicit false

/-! # What a program does to the kernel

A program that prints and works on its own descriptors leaves a mark of two kinds: the characters on the
screen of its terminal, and an edit of its own PCB (with the index of the directory reader, which is one for
all). `Kernel.Ran` says that this was all. The two kinds do not meet, so that runs are put together by
putting their texts together (`Ran.trans`). -/

namespace UnixTerminal

/-! ## Bytes in memory -/

theorem length_memBytes (n : Nat) (mem : Nat → UInt8) : (memBytes n mem).length = n := by
  simp [memBytes]

theorem take_memBytes {m n : Nat} (h : m ≤ n) (mem : Nat → UInt8) : (memBytes n mem).take m = memBytes m mem := by
  rw [memBytes, memBytes, ← List.map_take, List.take_range, Nat.min_eq_left h]

theorem memBytes_literal (text : List UInt8) : memBytes text.length (literal text) = text := by
  refine List.ext_getElem (length_memBytes _ _) (fun i _ hi => ?_)
  rw [← List.getD_eq_getElem _ 0 hi]
  simp [memBytes, literal]

/-- The string in a part of a memory. -/
theorem take_cstr_memBytes {m n : Nat} (h : m ≤ n) (mem : Nat → UInt8) :
    (cstr (memBytes n mem)).take m = cstr (memBytes m mem) := by
  rw [cstr, List.take_takeWhile, take_memBytes h]
  rfl

/-- What a call stored is in the buffer. -/
theorem memBytes_store (ret : Int) (bytes : List UInt8) (buf : Nat → UInt8) :
    memBytes bytes.length (Transfer.store ⟨ret, 0, bytes⟩ buf) = bytes := by
  refine List.ext_getElem (length_memBytes _ _) (fun i _ hi => ?_)
  rw [← List.getD_eq_getElem _ (buf i) hi]
  simp [memBytes, Transfer.store]

/-- A string in memory, seen from its start. -/
theorem cstr_memBytes {n : Nat} {mem : Nat → UInt8} {text : List UInt8} (hnul : ∀ c ∈ text, c ≠ 0)
    (hn : text.length < n) (htext : memBytes text.length mem = text) (hend : mem text.length = 0) :
    cstr (memBytes n mem) = text := by
  have hfirst : memBytes (text.length + 1) mem = text ++ [0] := by
    rw [memBytes, List.range_succ, List.map_append, ← memBytes, htext, List.map_singleton, hend]
  rw [← List.take_append_drop (text.length + 1) (memBytes n mem), take_memBytes hn, hfirst, List.append_assoc]
  exact cstr_append_nul hnul _

/-- A string that a call stored with its NUL. -/
theorem cstr_memBytes_store (ret : Int) {text : List UInt8} (hnul : ∀ c ∈ text, c ≠ 0) (buf : Nat → UInt8)
    {n : Nat} (hn : text.length < n) :
    cstr (memBytes n (Transfer.store ⟨ret, 0, text ++ [0]⟩ buf)) = text := by
  have hstored := memBytes_store ret (text ++ [0]) buf
  have hle : text.length ≤ (text ++ [0]).length := by simp
  refine cstr_memBytes hnul hn ?_ ?_
  · rw [← take_memBytes hle, hstored, List.take_left]
  · simp [Transfer.store]

/-- The text of a string literal that fits every buffer. -/
structure LiteralText (text : List UInt8) : Prop where
  length_lt : text.length < 1024
  ne_zero : ∀ c ∈ text, c ≠ 0

theorem LiteralText.length_lt_span {text : List UInt8} (h : LiteralText text) (us : UserSpace) :
    text.length < us.span := Nat.lt_of_lt_of_le h.length_lt us.le_span

theorem LiteralText.cstr_memBytes {text : List UInt8} (h : LiteralText text) (us : UserSpace) :
    cstr (memBytes us.span (literal text)) = text :=
  UnixTerminal.cstr_memBytes h.ne_zero (h.length_lt_span us) (memBytes_literal text) (by simp [literal])

/-! ## Edits -/

/-- A process works on its own descriptors: 0 and 1 stay, and so does what `halt` reads of the PCB. -/
structure OwnEdit (p q : Pcb) : Prop extends FdEdit p q where
  esp0 : q.esp0 = p.esp0
  stdin : q.fdsArray 0 = p.fdsArray 0
  stdout : q.fdsArray 1 = p.fdsArray 1

namespace OwnEdit

theorem refl (p : Pcb) : OwnEdit p p := ⟨.refl p, rfl, rfl, rfl⟩

theorem trans {p q r : Pcb} (h : OwnEdit p q) (h' : OwnEdit q r) : OwnEdit p r :=
  ⟨h.toFdEdit.trans h'.toFdEdit, h'.esp0.trans h.esp0, h'.stdin.trans h.stdin, h'.stdout.trans h.stdout⟩

/-- An edit of one of the slots behind them. -/
theorem setFds (p : Pcb) {i : Nat} (hi : 2 ≤ i) (f : Fds → Fds)
    (hf : (p.fdsArray i).flags < 6 → (f (p.fdsArray i)).flags < 6) : OwnEdit p (p.setFds i f) where
  toFdEdit := .setFds p i f hf
  esp0 := rfl
  stdin := by rw [Pcb.fdsArray_setFds, if_neg (by omega)]
  stdout := by rw [Pcb.fdsArray_setFds, if_neg (by omega)]

/-- A name that ends inside the name slots. -/
theorem setName (p : Pcb) {i : Nat} {name : List UInt8} (hi : i < 7) (hlen : strlen name ≤ 32) :
    OwnEdit p (p.setName i name) where
  toFdEdit := .setName p i name (by omega) hlen
  esp0 := by
    refine strcpy_preserves (P := fun q : Pcb => q.esp0 = p.esp0) name p _ (fun d j b _ hj hd => ?_) rfl
    have hlt : j < 256 := by
      simp only [maxFileChar] at hj
      omega
    rw [← hd, Pcb.storeByte, if_pos hlt]
  stdin := by rw [Pcb.fdsArray_setName]
  stdout := by rw [Pcb.fdsArray_setName]

end OwnEdit

namespace Kernel

/-- Another PCB for the running process, and another index for the directory reader. -/
def edited (k : Kernel) (p : Pcb) (idx : Nat) : Kernel :=
  { k.setPcb (getPcbPointer k.currProcess) (fun _ => p) with dirReadIdxNew := idx }

variable {k k₁ k₂ : Kernel} {text text' : List UInt8} {p q : Pcb}

@[simp] theorem callerPcb_edited (k : Kernel) (p : Pcb) (idx : Nat) : (k.edited p idx).callerPcb = p :=
  callerPcb_setPcb k (fun _ => p)

theorem edited_edited (k : Kernel) (p q : Pcb) (i j : Nat) : (k.edited p i).edited q j = k.edited q j := by
  simp only [edited, setPcb, Function.update_idem]

theorem edited_callerPcb (k : Kernel) (idx : Nat) : k.edited k.callerPcb idx = { k with dirReadIdxNew := idx } := by
  simp only [edited, setPcb, callerPcb, pcbOf, Function.update_eq_self]

theorem edited_self (k : Kernel) : k.edited k.callerPcb k.dirReadIdxNew = k := k.edited_callerPcb _

theorem putc_edited (k : Kernel) (p : Pcb) (idx : Nat) (c : UInt8) :
    (k.edited p idx).putc c = (k.putc c).edited p idx := by
  unfold putc
  dsimp only
  rw [apply_ite (edited · p idx), apply_ite (edited · p idx), apply_ite (edited · p idx)]
  rfl

theorem putcNodisplay_edited (k : Kernel) (p : Pcb) (idx : Nat) (c : UInt8) :
    (k.edited p idx).putcNodisplay c = (k.putcNodisplay c).edited p idx := by
  unfold putcNodisplay
  dsimp only
  rw [apply_ite (edited · p idx), apply_ite (edited · p idx), apply_ite (edited · p idx)]
  rfl

/-- The screen and the table do not meet. -/
theorem emit_edited (k : Kernel) (p : Pcb) (idx : Nat) (c : UInt8) :
    (k.edited p idx).emit c = (k.emit c).edited p idx := by
  unfold emit
  rw [apply_ite (edited · p idx), ← putc_edited, ← putcNodisplay_edited]
  rfl

theorem foldl_emit_edited (text : List UInt8) : ∀ (k : Kernel) (p : Pcb) (idx : Nat),
    text.foldl emit (k.edited p idx) = (text.foldl emit k).edited p idx := by
  induction text with
  | nil => intro k p idx; rfl
  | cons c text ih =>
      intro k p idx
      rw [List.foldl_cons, List.foldl_cons, emit_edited, ih]

theorem core_foldl_emit (text : List UInt8) (k : Kernel) : (text.foldl emit k).core = k.core :=
  field_foldl core (fun k c => k.core_emit c) text k

theorem dirReadIdxNew_emit (k : Kernel) (c : UInt8) : (k.emit c).dirReadIdxNew = k.dirReadIdxNew := by
  unfold emit putc putcNodisplay vertScrollNodisplay
  dsimp only
  split_ifs <;> rfl

theorem dirReadIdxNew_foldl_emit (text : List UInt8) (k : Kernel) :
    (text.foldl emit k).dirReadIdxNew = k.dirReadIdxNew :=
  field_foldl dirReadIdxNew dirReadIdxNew_emit text k

theorem callerPcb_foldl_emit (text : List UInt8) (k : Kernel) :
    (text.foldl emit k).callerPcb = k.callerPcb :=
  callerPcb_congr (k.core_foldl_emit text)

/-! ## Runs -/

/-- From `k` to `k'` the running process printed `text` and worked on its own descriptors. -/
def Ran (k : Kernel) (text : List UInt8) (k' : Kernel) : Prop :=
  ∃ p idx, OwnEdit k.callerPcb p ∧ k' = (text.foldl emit k).edited p idx

theorem Ran.print (k : Kernel) (text : List UInt8) : Ran k text (text.foldl emit k) := by
  refine ⟨_, (text.foldl emit k).dirReadIdxNew, .refl _, ?_⟩
  rw [← callerPcb_foldl_emit text k]
  exact (edited_self _).symm

theorem Ran.edit {idx : Nat} (h : OwnEdit k.callerPcb p) : Ran k [] (k.edited p idx) := ⟨p, idx, h, rfl⟩

/-- **Runs are put together with their texts.** -/
theorem Ran.trans (h : Ran k text k₁) (h' : Ran k₁ text' k₂) : Ran k (text ++ text') k₂ := by
  obtain ⟨p, i, hp, rfl⟩ := h
  obtain ⟨q, j, hq, rfl⟩ := h'
  rw [callerPcb_edited] at hq
  refine ⟨q, j, hp.trans hq, ?_⟩
  rw [foldl_emit_edited, edited_edited, List.foldl_append]

theorem Ran.core (h : Ran k text k₁) : k₁.core = k.core.setPcb k.currProcess (fun _ => k₁.callerPcb) := by
  obtain ⟨p, i, -, rfl⟩ := h
  rw [callerPcb_edited]
  have hcore := k.core_foldl_emit text
  calc ((text.foldl emit k).edited p i).core
      = (text.foldl emit k).core.setPcb (text.foldl emit k).core.currProcess (fun _ => p) := rfl
    _ = k.core.setPcb k.currProcess (fun _ => p) := by rw [hcore]; rfl

theorem Ran.ownEdit (h : Ran k text k₁) : OwnEdit k.callerPcb k₁.callerPcb := by
  obtain ⟨p, i, hp, rfl⟩ := h
  rwa [callerPcb_edited]

theorem Ran.currProcess (h : Ran k text k₁) : k₁.currProcess = k.currProcess :=
  congrArg Core.currProcess h.core

/-- The screens behind a run: what was printed is on that of the executing terminal. -/
theorem Ran.cells (h : Ran k text k₁) (t : Nat) :
    k₁.cells t = if t = k.currTerm then text.foldl Cells.putc (k.cells t) else k.cells t := by
  obtain ⟨p, i, -, rfl⟩ := h
  exact k.cells_foldl_emit text t

end Kernel

/-! ## Calls -/

/-- The running process is found by both routes, and its descriptors 0 and 1 are the terminal. -/
structure Kernel.Running (k : Kernel) : Prop where
  currentPcb : k.currentPcb = getPcbPointer k.currProcess
  stdin : (k.callerPcb.fdsArray 0).flags = stdinFlag
  stdout : (k.callerPcb.fdsArray 1).flags = stdoutFlag

theorem Kernel.Running.flags {k : Kernel} (h : k.Running) :
    ((k.pcb k.currentPcb).fdsArray 1).flags = stdoutFlag := h.currentPcb ▸ h.stdout

theorem Kernel.Running.ran {k k₁ : Kernel} {text : List UInt8} (h : k.Running) (hran : k.Ran text k₁) :
    k₁.Running where
  currentPcb := by
    rw [hran.currProcess, ← h.currentPcb]
    exact congrArg Core.currentPcb hran.core
  stdin := by rw [hran.ownEdit.stdin, h.stdin]
  stdout := by rw [hran.ownEdit.stdout, h.stdout]

/-- `open` looks the name up. -/
def Unreserved (name : List UInt8) : Prop := strncmp name stdinName 5 ≠ 0 ∧ strncmp name stdoutName 6 ≠ 0

instance (name : List UInt8) : Decidable (Unreserved name) := inferInstanceAs (Decidable (_ ∧ _))

theorem Unreserved.congr {name name' : List UInt8} (h : Unreserved name) (heq : cstr name' = cstr name) :
    Unreserved name' := by
  constructor
  · rw [ne_eq, strncmp_eq_zero, heq, ← strncmp_eq_zero]
    exact h.1
  · rw [ne_eq, strncmp_eq_zero, heq, ← strncmp_eq_zero]
    exact h.2

namespace Kernel

variable (fs : FileSys) (us : UserSpace) {k : Kernel}

/-- **A write to descriptor 1** prints the bytes in front of the first NUL. -/
theorem write_stdout (hout : ((k.pcb k.currentPcb).fdsArray 1).flags = stdoutFlag) (buf : Nat → UInt8)
    {n : Nat} (hn : n ≤ us.span) :
    (kernelCalls fs us).ece391Write 1 buf n k
      = some (((cstr (memBytes n buf)).length : Int), (cstr (memBytes n buf)).foldl emit k) := by
  have hrange : ¬ ((n : Int) < 0 ∨ us.ptr = 0 ∨ (1 : Int) < 0 ∨ (1 : Int) > (maxFile : Int) - 1) := by
    simp only [us.ptr_ne, maxFile, false_or]
    omega
  have hflags : ((k.pcb k.currentPcb).fdsArray (1 : Int).toNat).flags.toNat = 2 :=
    congrArg UInt32.toNat hout
  have hbytes := take_cstr_memBytes hn buf
  have hret : (k.terminalWrite (memBytes us.span buf) n).1 = ((cstr (memBytes n buf)).length : Int) := by
    rw [← hbytes, List.length_take, ← strlen_eq_length_cstr]
    unfold terminalWrite
    dsimp only
    split_ifs <;> omega
  have hstate : (k.terminalWrite (memBytes us.span buf) n).2 = (cstr (memBytes n buf)).foldl emit k := by
    rw [terminalWrite_eq_foldl, hbytes]
  simp only [kernelCalls, write]
  rw [if_neg hrange, hflags]
  simp only [Int.toNat_natCast]
  rw [← hret, ← hstate]

theorem putLiteral_stdout {text : List UInt8} (htext : LiteralText text)
    (hout : ((k.pcb k.currentPcb).fdsArray 1).flags = stdoutFlag) :
    (kernelCalls fs us).putLiteral text k = some (text.foldl emit k) := by
  have hlen : text.length ≤ us.span := Nat.le_of_lt (htext.length_lt_span us)
  rw [UserCalls.putLiteral, write_stdout fs us hout _ hlen, memBytes_literal, cstr_of_no_nul htext.ne_zero]
  rfl

variable {fs}

theorem openFile_missing {name : List UInt8} (hname : Unreserved name) (hd : fs.readDentryByName name = none) :
    k.openFile fs name = (-1, k) := by
  simp only [openFile, if_neg hname.1, if_neg hname.2, hd]

/-- **The first file** of a process gets slot 2. -/
theorem openFile_first {name : List UInt8} {d : Dentry} (hfiles : NoFiles k.callerPcb) (hname : Unreserved name)
    (hd : fs.readDentryByName name = some d) (htype : d.fileType = dirType ∨ d.fileType = fileType) :
    ∃ q, openSlot k.callerPcb 2 name d = some q ∧ OwnEdit k.callerPcb q ∧
      k.openFile fs name = (2, k.edited q k.dirReadIdxNew) := by
  have hfree : freeSlot k.callerPcb = some 2 := by
    have h2 : ((k.callerPcb.fdsArray 2).flags == notSet) = true := beq_iff_eq.2 (hfiles 2 le_rfl (by decide))
    exact List.find?_cons_of_pos h2
  have hlen := (fs.strlen_of_readDentryByName hd).2
  have hrtc : d.fileType ≠ rtcType := by
    rcases htype with h | h <;> (rw [h]; decide)
  obtain ⟨q, hq, -⟩ := openSlot_known k.callerPcb 2 name (Or.inr htype)
  refine ⟨q, hq, ?_, ?_⟩
  · unfold openSlot at hq
    rw [if_neg hrtc] at hq
    split_ifs at hq <;> cases hq
    · exact .trans (.setFds _ le_rfl _ (fun _ => show dirFlag < 6 by decide)) (.setName _ (by decide) hlen)
    · exact .trans (.setFds _ le_rfl _ (fun _ => show fileFlag < 6 by decide)) (.setName _ (by decide) hlen)
  · simp only [openFile, if_neg hname.1, if_neg hname.2, hd]
    rw [show k.pcb (getPcbPointer k.currProcess) = k.callerPcb from rfl, hfree]
    simp only [hq]
    rfl

end Kernel

/-! ## Programs -/

/-- A program that was just started: nothing is open, and the arguments are in its PCB. No directory is
    being listed. -/
structure Kernel.Fresh (k : Kernel) (args : List UInt8) : Prop extends k.Running where
  files : NoFiles k.callerPcb
  args : k.callerPcb.HasArgs args
  listing : k.dirReadIdxNew = 0

/-- With these arguments the program prints `text`, returns `status` and does nothing else that is seen
    from outside, in whatever state it is started. -/
def Prints (main : Kernel → Nat → Option (Int × Kernel)) (args text : List UInt8) (status : Int) : Prop :=
  ∀ k : Kernel, k.Fresh args →
    ∃ k', Yields (main k) (status, k') ∧ k.Ran text k' ∧ k'.dirReadIdxNew = 0

theorem Pcb.HasArgs.ne_zero {p : Pcb} {args : List UInt8} (h : p.HasArgs args) : ∀ c ∈ args, c ≠ 0 := by
  intro c hc
  rw [← h.eq] at hc
  exact ne_zero_of_mem_cstr hc

/-- The buffers of a program in its page. -/
def sampleSpace : UserSpace := ⟨0x8048000, 1024, [], by decide, by decide⟩

end UnixTerminal
