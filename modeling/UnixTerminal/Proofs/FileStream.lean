import UnixTerminal.Library.Run
import UnixTerminal.Proofs.FileNames
import UnixTerminal.Proofs.DescriptorTable

set_option autoImplicit false

/-! # Reading a file through a descriptor

Each descriptor that `open` returned for a regular file delivers the bytes of that file in order, over
any chunking and any interleaving with other descriptors of the process. Three slips of the code break
this and are the three conditions of `StreamStepOk`: `read_data` goes back to the first block at
position 4096; a 32-character name and the name in the slot behind it overwrite each other's ends; and
`open("stdout")` writes the flags of slot 2. -/

namespace UnixTerminal

/-- What a descriptor has delivered so far, of the file of inode `inode`. -/
structure Delivery where
  inode : Nat
  delivered : List UInt8
deriving DecidableEq

/-- A read delivers as many bytes as it returns. -/
def Delivery.deliver (s : Delivery) (r : Transfer) : Delivery :=
  { s with delivered := s.delivered ++ r.bytes.take r.ret.toNat }

/-- The history behind a call of `open` for `filename` that returned `fd`. -/
def noteOpen (fs : FileSys) (filename : List UInt8) (fd : Int) (g : Nat → Option Delivery) :
    Nat → Option Delivery :=
  match fs.readDentryByName filename with
  | some d =>
      if 2 ≤ fd then
        Function.update g fd.toNat (if d.fileType = fileType then some ⟨d.inode.toNat, []⟩ else none)
      else g
  | none => g

/-- The descriptors that `open` returned for a regular file and that were not closed since, with what
    they delivered, after one more call. -/
def deliveriesAfter (fs : FileSys) (k : Kernel) (e : Event) (_ : Kernel)
    (g : Nat → Option Delivery) : Nat → Option Delivery :=
  match e with
  | .openFile filename => noteOpen fs filename (k.openFile fs filename).1 g
  | .close fd => if (k.close fd).1 = 0 then Function.update g fd.toNat none else g
  | .read fd buf nbytes =>
      match k.read fs fd buf nbytes with
      | some r => Function.update g fd.toNat ((g fd.toNat).map (fun s => s.deliver r.1))
      | none => g
  | _ => g

/-- Every open file streams: what was delivered is the prefix of the file up to `file_position`, and
    the next read of some bytes answers 0 exactly when everything was delivered. -/
def Streaming (fs : FileSys) (k : Kernel) (g : Nat → Option Delivery) : Prop :=
  ∀ (fd : Nat) (s : Delivery), g fd = some s →
    s.delivered = (fs.contents s.inode).take (k.callerPcb.fdsArray fd).filePosition.toNat
    ∧ s.delivered.length = (k.callerPcb.fdsArray fd).filePosition.toNat
    ∧ ∀ (buf : UInt32) (nbytes : Int), buf ≠ 0 → 0 < nbytes →
        ∃ r, k.read fs fd buf nbytes = some r
          ∧ (r.1.ret = 0 ↔ s.delivered = fs.contents s.inode)

/-- The calls of a process on its files. -/
def FileCall : Event → Prop
  | .openFile _ => True
  | .close _ => True
  | .read _ _ _ => True
  | _ => False

/-- The calls that stay clear of the three slips. -/
def StreamStepOk (fs : FileSys) (k : Kernel) : Event → Prop
  | .openFile filename =>
      -- `stdout` is opened only while slot 2 is no open file
      (strncmp filename stdoutName 6 = 0 → (k.callerPcb.fdsArray 2).flags ≠ fileFlag)
      -- a name is stored only where it does not run over the name of an open file, or one over it
      ∧ ∀ i d, Kernel.freeSlot k.callerPcb = some i → fs.readDentryByName filename = some d →
          d.fileType ≠ rtcType →
          ((k.callerPcb.fdsArray (i - 1)).flags = fileFlag → strlen (k.callerPcb.nameAt (i - 1)) < 32)
          ∧ (i < 7 → (k.callerPcb.fdsArray (i + 1)).flags = fileFlag → strlen filename < 32)
  | .read fd _ nbytes =>
      -- a file longer than one block is not read from position 4096
      (k.callerPcb.fdsArray fd.toNat).flags = fileFlag → 0 < nbytes →
        (k.callerPcb.fdsArray fd.toNat).filePosition = 4096 →
        fs.fileLength (k.callerPcb.fdsArray fd.toNat).inode.toNat ≤ 4096
  | _ => True

/-! ## The invariant -/

/-- A descriptor in use for a file: its flags, inode and position, and its name in the name slot. -/
structure OpenStream (fs : FileSys) (p : Pcb) (fd : Nat) (s : Delivery) : Prop where
  lo : 2 ≤ fd
  hi : fd < 8
  flags : (p.fdsArray fd).flags = fileFlag
  inode : (p.fdsArray fd).inode.toNat = s.inode
  position : (p.fdsArray fd).filePosition.toNat = s.delivered.length
  stored : s.delivered = (fs.contents s.inode).take s.delivered.length
  named : ∃ name d, HasName p fd name ∧ (∀ c ∈ name, c ≠ 0) ∧ fs.readDentryByName name = some d
    ∧ d.fileType = fileType ∧ d.inode.toNat = s.inode

/-- Every descriptor of the history is in use for its file, and the system calls see one table. -/
structure StreamInv (fs : FileSys) (k : Kernel) (g : Nat → Option Delivery) : Prop where
  currentPcb : k.currentPcb = getPcbPointer k.currProcess
  streams : ∀ fd s, g fd = some s → OpenStream fs k.callerPcb fd s

namespace OpenStream

variable {fs : FileSys} {p : Pcb} {fd : Nat} {s : Delivery}

/-- A stored name has at most 32 characters. -/
theorem name_le {name : List UInt8} {d : Dentry} (hnul : ∀ c ∈ name, c ≠ 0)
    (hd : fs.readDentryByName name = some d) : name.length ≤ 32 := by
  have h := (fs.strlen_of_readDentryByName hd).2
  rwa [strlen_eq_length_cstr, cstr_of_no_nul hnul] at h

/-- The lookup of the stored name finds the file. -/
theorem lookup (h : OpenStream fs p fd s) :
    ∃ d, fs.readDentryByName (p.nameAt fd) = some d ∧ d.fileType = fileType
      ∧ d.inode.toNat = s.inode := by
  obtain ⟨name, d, hname, hnul, hd, htype, hino⟩ := h.named
  have hcstr := hname.cstr_nameAt h.hi (name_le hnul hd) hnul
  refine ⟨d, ?_, htype, hino⟩
  rw [← hd]
  refine fs.readDentryByName_congr ?_
  rw [hcstr, cstr_of_no_nul hnul]

theorem goodInode (h : OpenStream fs p fd s) (hwf : fs.WellFormed) : fs.GoodInode s.inode := by
  obtain ⟨d, hd, htype, hino⟩ := h.lookup
  exact hino ▸ hwf.goodInode hd htype

theorem position_le (h : OpenStream fs p fd s) : s.delivered.length ≤ fs.fileLength s.inode := by
  have hlen := congrArg List.length h.stored
  rw [List.length_take, FileSys.length_contents] at hlen
  omega

/-- An edit elsewhere in the table keeps the stream. -/
theorem of_eq {q : Pcb} (h : OpenStream fs p fd s) (hfds : q.fdsArray fd = p.fdsArray fd)
    (hname : ∀ name, (∀ c ∈ name, c ≠ 0) → name.length ≤ 32 → HasName p fd name → HasName q fd name) :
    OpenStream fs q fd s := by
  obtain ⟨name, d, hn, hnul, hd, htype, hino⟩ := h.named
  exact ⟨h.lo, h.hi, hfds ▸ h.flags, hfds ▸ h.inode, hfds ▸ h.position, h.stored,
    name, d, hname name hnul (name_le hnul hd) hn, hnul, hd, htype, hino⟩

end OpenStream

/-! ## One call -/

/-- A call of `open` that returns 0 or -1 opens no file. -/
theorem noteOpen_of_lt {fs : FileSys} {filename : List UInt8} {fd : Int} {g : Nat → Option Delivery}
    (h : fd < 2) : noteOpen fs filename fd g = g := by
  unfold noteOpen
  split
  · rw [if_neg (by omega)]
  · rfl

theorem noteOpen_of_some {fs : FileSys} {filename : List UInt8} {fd : Int}
    {g : Nat → Option Delivery} {d : Dentry} (hd : fs.readDentryByName filename = some d)
    (h : 2 ≤ fd) :
    noteOpen fs filename fd g = Function.update g fd.toNat
      (if d.fileType = fileType then some ⟨d.inode.toNat, []⟩ else none) := by
  unfold noteOpen
  rw [hd]
  exact if_pos h

/-- A position moved forward inside a file does not wrap. -/
theorem toNat_add_ofInt {a : UInt32} {n : Nat} (h : a.toNat + n < 2 ^ 32) :
    (a + UInt32.ofInt (n : Int)).toNat = a.toNat + n := by
  have hn : UInt32.ofInt (n : Int) = UInt32.ofNat n := by
    unfold UInt32.ofInt
    congr 1
    omega
  rw [hn, UInt32.toNat_add, UInt32.toNat_ofNat_of_lt' (Nat.lt_of_le_of_lt (Nat.le_add_left n _) h)]
  exact Nat.mod_eq_of_lt h

section Read

variable {fs : FileSys} {k : Kernel} {fd : Nat} {s : Delivery}

/-- `read` of an open file goes to `file_read_setup`. -/
theorem read_eq_fileReadSetup (hfd : fd < 8)
    (hflags : ((k.pcb k.currentPcb).fdsArray fd).flags = fileFlag) {buf : UInt32} {nbytes : Int}
    (hbuf : buf ≠ 0) (hn : 0 ≤ nbytes) :
    k.read fs fd buf nbytes = some (k.fileReadSetup fs fd nbytes.toNat) := by
  have hrange : ¬ (nbytes < 0 ∨ buf = 0 ∨ (fd : Int) > (maxFile : Int) - 1 ∨ (fd : Int) < 0) := by
    simp only [maxFile, hbuf, false_or]
    omega
  have hflags' : ((k.pcb k.currentPcb).fdsArray (fd : Int).toNat).flags.toNat = 4 :=
    congrArg UInt32.toNat hflags
  unfold Kernel.read
  rw [if_neg hrange, hflags']
  rfl

theorem OpenStream.read_eq (hpcb : k.currentPcb = getPcbPointer k.currProcess)
    (h : OpenStream fs k.callerPcb fd s) {buf : UInt32} {nbytes : Int} (hbuf : buf ≠ 0)
    (hn : 0 ≤ nbytes) :
    k.read fs fd buf nbytes = some (k.fileReadSetup fs fd nbytes.toNat) :=
  read_eq_fileReadSetup h.hi (hpcb ▸ h.flags) hbuf hn

theorem fileReadSetup_fst (k : Kernel) (n : Nat) :
    (k.fileReadSetup fs fd n).1
      = ⟨(fs.fileRead (k.callerPcb.nameAt fd) (k.callerPcb.fdsArray fd).filePosition.toNat n).1, 0,
        (fs.fileRead (k.callerPcb.nameAt fd) (k.callerPcb.fdsArray fd).filePosition.toNat n).2⟩ := rfl

theorem fdsArray_fileReadSetup (k : Kernel) (n : Nat) :
    ((k.fileReadSetup fs fd n).2.callerPcb.fdsArray fd).filePosition
      = (k.callerPcb.fdsArray fd).filePosition + UInt32.ofInt (k.fileReadSetup fs fd n).1.ret := by
  rw [Kernel.fileReadSetup, Kernel.callerPcb_setPcb, Pcb.fdsArray_setFds, if_pos rfl]

theorem nameAt_fileReadSetup (k : Kernel) (n i : Nat) :
    (k.fileReadSetup fs fd n).2.callerPcb.nameAt i = k.callerPcb.nameAt i := by
  rw [Kernel.fileReadSetup, Kernel.callerPcb_setPcb]
  rfl

/-- What `file_read_setup` reads of an open file. -/
theorem fileRead_eq_readData (h : OpenStream fs k.callerPcb fd s) (n : Nat) :
    fs.fileRead (k.callerPcb.nameAt fd) (k.callerPcb.fdsArray fd).filePosition.toNat n
      = fs.readData s.inode s.delivered.length n := by
  obtain ⟨d, hd, -, hino⟩ := h.lookup
  rw [FileSys.fileRead, hd, h.position, ← hino]

/-- A read of an open file answers 0 exactly at the end of the file. -/
theorem ret_eq_zero_iff (hwf : fs.WellFormed) (h : OpenStream fs k.callerPcb fd s) {n : Nat}
    (hn : 0 < n) :
    (fs.readData s.inode s.delivered.length n).1 = 0 ↔ s.delivered = fs.contents s.inode := by
  have hgood := h.goodInode hwf
  constructor
  · intro hret
    have hge : fs.fileLength s.inode ≤ s.delivered.length := by
      by_contra hlt
      exact fs.readData_ne_zero (Nat.lt_of_not_le hlt) hn hret
    have hstored := h.stored
    rwa [List.take_of_length_le (by simpa using hge)] at hstored
  · intro hall
    have hlen : s.delivered.length = fs.inodeWord s.inode 0 := by
      rw [hall]
      exact fs.length_contents s.inode
    unfold FileSys.readData
    rw [if_neg (Nat.not_le.2 hgood.lt), if_neg (by omega), if_pos hlen]

/-- The stream behind a read that stays clear of position 4096. -/
theorem OpenStream.advance (hwf : fs.WellFormed) (h : OpenStream fs k.callerPcb fd s) (n : Nat)
    (hok : n = 0 ∨ s.delivered.length ≠ 4096 ∨ fs.fileLength s.inode = 4096) :
    OpenStream fs (k.fileReadSetup fs fd n).2.callerPcb fd (s.deliver (k.fileReadSetup fs fd n).1) := by
  have hgood := h.goodInode hwf
  have hle := h.position_le
  have hread : fs.fileRead ((k.pcb (getPcbPointer k.currProcess)).nameAt fd)
      ((k.pcb (getPcbPointer k.currProcess)).fdsArray fd).filePosition.toNat n = _ :=
    (fileRead_eq_readData h n).trans (fs.readData_eq hgood hle hok)
  unfold Kernel.fileReadSetup Delivery.deliver
  dsimp only
  rw [hread]
  generalize hchunk : ((fs.contents s.inode).drop s.delivered.length).take n = chunk
  have hchunkLen : s.delivered.length + chunk.length ≤ fs.fileLength s.inode := by
    rw [← hchunk, List.length_take, List.length_drop, FileSys.length_contents]
    omega
  have htake : chunk.take ((chunk.length : Int)).toNat = chunk := by simp
  rw [htake, Kernel.callerPcb_setPcb]
  obtain ⟨name, d, hname, hnul, hd, htype, hino⟩ := h.named
  refine ⟨h.lo, h.hi, ?_, ?_, ?_, ?_, name, d, hname.setFds fd _, hnul, hd, htype, hino⟩
  · rw [Pcb.fdsArray_setFds, if_pos rfl]
    exact h.flags
  · rw [Pcb.fdsArray_setFds, if_pos rfl]
    exact h.inode
  · rw [Pcb.fdsArray_setFds, if_pos rfl]
    have hlt : (k.callerPcb.fdsArray fd).filePosition.toNat + chunk.length < 2 ^ 32 := by
      have := hgood.length_le
      rw [h.position]
      omega
    rw [toNat_add_ofInt hlt, h.position, List.length_append]
  · -- the next part of the file follows the part delivered so far
    have hprefix : chunk = ((fs.contents s.inode).drop s.delivered.length).take chunk.length :=
      List.prefix_iff_eq_take.1 (hchunk ▸ List.take_prefix _ _)
    rw [List.length_append, List.take_add, ← h.stored, ← hprefix]

end Read

section Open

variable {p q : Pcb} {i : Nat} {filename : List UInt8} {d : Dentry}

/-- An entry that is no clock stores its name. -/
theorem hasName_openSlot (hq : Kernel.openSlot p i filename d = some q) (htype : d.fileType ≠ rtcType)
    (hi : i < 8) (hlen : strlen filename ≤ 32) : HasName q i (cstr filename) := by
  unfold Kernel.openSlot at hq
  rw [if_neg htype] at hq
  split_ifs at hq <;> cases hq
  · exact hasName_setName (p.setFds i (fun _ => ⟨d.inode, 0, dirFlag⟩)) hi hlen
  · exact hasName_setName (p.setFds i (fun _ => ⟨d.inode, 0, fileFlag⟩)) hi hlen

/-- `open` keeps the name of another slot if the two do not run into each other. -/
theorem HasName.openSlot {fd : Nat} {name : List UInt8} (h : HasName p fd name)
    (hq : Kernel.openSlot p i filename d = some q) (hi : i < 8) (hne : fd ≠ i)
    (hname : name.length ≤ 32) (hlen : strlen filename ≤ 32)
    (hapart : d.fileType ≠ rtcType →
      (fd + 1 = i → name.length < 32) ∧ (i + 1 = fd → strlen filename < 32)) : HasName q fd name := by
  unfold Kernel.openSlot at hq
  split_ifs at hq with h0 h1 h2 <;> cases hq
  · exact h.setFds i _
  · exact (h.setFds i _).setName hi hne hname hlen (hapart h0).1 (hapart h0).2
  · exact (h.setFds i _).setName hi hne hname hlen (hapart h0).1 (hapart h0).2

/-- The slot of an `open` on a file is a stream of which nothing is delivered. -/
theorem OpenStream.of_openSlot {fs : FileSys} (hd : fs.readDentryByName filename = some d)
    (hq : Kernel.openSlot p i filename d = some q) (h2 : 2 ≤ i) (h8 : i < 8)
    (htype : d.fileType = fileType) : OpenStream fs q i ⟨d.inode.toNat, []⟩ := by
  have hlen := (fs.strlen_of_readDentryByName hd).2
  have hne : d.fileType ≠ rtcType := by
    rw [htype]
    decide
  have hfds : q.fdsArray i = ⟨d.inode, 0, fileFlag⟩ := by
    rcases (Kernel.fdsArray_openSlot hq).2 with ⟨ht, -⟩ | ⟨ht, -⟩ | ⟨-, hf⟩
    · exact absurd ht hne
    · exact absurd (htype.symm.trans ht) (by decide)
    · exact hf
  refine ⟨h2, h8, by rw [hfds], by rw [hfds], by rw [hfds]; rfl, rfl, cstr filename, d,
    hasName_openSlot hq hne h8 hlen, fun _ hc => ne_zero_of_mem_cstr hc, ?_, htype, rfl⟩
  rw [← hd]
  exact fs.readDentryByName_congr (cstr_cstr filename)

/-- The other streams stay, where the new name and theirs do not run into each other. -/
theorem OpenStream.openSlot {fs : FileSys} {fd : Nat} {s : Delivery} (h : OpenStream fs p fd s)
    (hd : fs.readDentryByName filename = some d) (hq : Kernel.openSlot p i filename d = some q)
    (h8 : i < 8) (hne : fd ≠ i)
    (hapart : d.fileType ≠ rtcType → (fd + 1 = i → strlen (p.nameAt fd) < 32) ∧
      (i + 1 = fd → strlen filename < 32)) : OpenStream fs q fd s := by
  have hlen := (fs.strlen_of_readDentryByName hd).2
  refine h.of_eq ((Kernel.fdsArray_openSlot hq).1 fd hne) (fun name hnul hname hn => ?_)
  refine hn.openSlot hq h8 hne hname hlen (fun htype => ?_)
  obtain ⟨hbefore, hbehind⟩ := hapart htype
  refine ⟨fun hnext => ?_, hbehind⟩
  have hlt := hbefore hnext
  rwa [strlen_eq_length_cstr, hn.cstr_nameAt h.hi hname hnul] at hlt

end Open

namespace StreamInv

variable {fs : FileSys} {k : Kernel} {g : Nat → Option Delivery}

theorem openFile (h : StreamInv fs k g) (filename : List UInt8)
    (hok : StreamStepOk fs k (.openFile filename)) :
    StreamInv fs (k.openFile fs filename).2
      (deliveriesAfter fs k (.openFile filename) (k.openFile fs filename).2 g) := by
  obtain ⟨hstdout, hapart⟩ := hok
  have hcase := k.openFile_cases fs filename
  dsimp only [deliveriesAfter]
  generalize k.openFile fs filename = r at hcase ⊢
  obtain ⟨v, k'⟩ := r
  dsimp only at hcase ⊢
  cases hcase with
  | stdin hin =>
      rw [noteOpen_of_lt (by decide)]
      refine ⟨h.currentPcb, fun fd s hs => ?_⟩
      have hstream := h.streams fd s hs
      have hne : fd ≠ 1 := by have := hstream.lo; omega
      rw [Kernel.callerPcb_setPcb]
      exact hstream.of_eq (by simp [hne]) (fun _ _ _ hn => hn.setFds 1 _)
  | stdout hin hout =>
      rw [noteOpen_of_lt (by decide)]
      refine ⟨h.currentPcb, fun fd s hs => ?_⟩
      have hstream := h.streams fd s hs
      have hne : fd ≠ 2 := by
        rintro rfl
        exact hstdout hout hstream.flags
      rw [Kernel.callerPcb_setPcb]
      exact hstream.of_eq (by simp [hne]) (fun _ _ _ hn => hn.setFds 2 _)
  | failed =>
      rw [noteOpen_of_lt (by decide)]
      exact h
  | otherType =>
      rw [noteOpen_of_lt (by decide)]
      exact h
  | @opened i d q hd hi hq =>
      obtain ⟨h2, h8, -⟩ := Kernel.freeSlot_mem hi
      have hv : (2 : Int) ≤ (i : Int) := by omega
      rw [noteOpen_of_some hd hv, Int.toNat_natCast]
      refine ⟨h.currentPcb, fun fd s hs => ?_⟩
      rw [Kernel.callerPcb_setPcb]
      by_cases hfd : fd = i
      · -- the new descriptor
        subst hfd
        rw [Function.update_self] at hs
        split_ifs at hs with htype
        cases hs
        exact .of_openSlot hd hq h2 h8 htype
      · rw [Function.update_of_ne hfd] at hs
        have hstream := h.streams fd s hs
        refine hstream.openSlot hd hq h8 hfd (fun htype => ?_)
        obtain ⟨hbefore, hbehind⟩ := hapart i d hi hd htype
        constructor
        · intro hnext
          have hprev : i - 1 = fd := by omega
          rw [hprev] at hbefore
          exact hbefore hstream.flags
        · intro hnext
          have hflags := hstream.flags
          rw [← hnext] at hflags
          exact hbehind (by have := hstream.hi; omega) hflags

theorem close (h : StreamInv fs k g) (fd : Int) :
    StreamInv fs (k.close fd).2 (deliveriesAfter fs k (.close fd) (k.close fd).2 g) := by
  have hcase := k.close_cases fd
  dsimp only [deliveriesAfter]
  generalize k.close fd = r at hcase ⊢
  obtain ⟨v, k'⟩ := r
  dsimp only at hcase
  cases hcase with
  | failed => exact h
  | closed hlo hhi hset =>
      refine ⟨h.currentPcb, fun j s hs => ?_⟩
      rw [if_pos rfl] at hs
      have hne : j ≠ fd.toNat := by
        rintro rfl
        rw [Function.update_self] at hs
        cases hs
      rw [Function.update_of_ne hne] at hs
      rw [Kernel.callerPcb_setPcb]
      exact (h.streams j s hs).of_eq (by simp [hne]) (fun _ _ _ hn => hn.setFds _ _)

/-- A read with a bad argument stores nothing. -/
theorem read_of_bad_args {fd : Int} {buf : UInt32} {nbytes : Int} (hbad : nbytes < 0 ∨ buf = 0) :
    k.read fs fd buf nbytes = some (Transfer.fail (-1), k) := by
  unfold Kernel.read
  rw [if_pos]
  rcases hbad with h | h
  · exact Or.inl h
  · exact Or.inr (Or.inl h)

/-- A read through a descriptor that is no open file moves no stream. -/
theorem read_other (h : StreamInv fs k g) {fd : Int} {buf : UInt32} {nbytes : Int}
    {r : Transfer × Kernel} (hr : k.read fs fd buf nbytes = some r) (hfd : g fd.toNat = none) :
    StreamInv fs r.2 g := by
  rcases k.read_cases fs hr with hsame | ⟨-, -, -, rfl⟩
  · have hpcb : r.2.currentPcb = k.currentPcb := congrArg Core.currentPcb hsame
    have hcur : r.2.currProcess = k.currProcess := congrArg Core.currProcess hsame
    refine ⟨by rw [hpcb, hcur]; exact h.currentPcb, fun j s hs => ?_⟩
    rw [Kernel.callerPcb_congr hsame]
    exact h.streams j s hs
  · refine ⟨h.currentPcb, fun j s hs => ?_⟩
    have hne : j ≠ fd.toNat := by
      rintro rfl
      rw [hfd] at hs
      cases hs
    rw [Kernel.fileReadSetup, Kernel.callerPcb_setPcb]
    exact (h.streams j s hs).of_eq (by simp [hne]) (fun _ _ _ hn => hn.setFds _ _)

theorem read (hwf : fs.WellFormed) (h : StreamInv fs k g) {fd : Int} {buf : UInt32} {nbytes : Int}
    {r : Transfer × Kernel} (hr : k.read fs fd buf nbytes = some r)
    (hok : StreamStepOk fs k (.read fd buf nbytes)) :
    StreamInv fs r.2 (deliveriesAfter fs k (.read fd buf nbytes) r.2 g) := by
  dsimp only [deliveriesAfter]
  rw [hr]
  dsimp only
  cases hg : g fd.toNat with
  | none =>
      rw [Option.map_none, ← hg, Function.update_eq_self]
      exact h.read_other hr hg
  | some s =>
      have hstream := h.streams _ s hg
      have hfd : fd = (fd.toNat : Int) := by have := hstream.lo; omega
      rw [Option.map_some]
      by_cases hbad : nbytes < 0 ∨ buf = 0
      · -- nothing is read and nothing delivered
        rw [read_of_bad_args hbad, Option.some.injEq] at hr
        subst hr
        have hsame : s.deliver (Transfer.fail (-1)) = s := by simp [Delivery.deliver, Transfer.fail]
        rw [hsame, ← hg, Function.update_eq_self]
        exact h
      · rw [not_or] at hbad
        obtain ⟨hn, hbuf⟩ := hbad
        have hn0 : 0 ≤ nbytes := Int.not_lt.1 hn
        rw [hfd, hstream.read_eq h.currentPcb hbuf hn0, Option.some.injEq] at hr
        subst hr
        have hclear : nbytes.toNat = 0 ∨ s.delivered.length ≠ 4096 ∨ fs.fileLength s.inode = 4096 := by
          by_cases hpos : 0 < nbytes
          · by_cases h4096 : s.delivered.length = 4096
            · have hposition : (k.callerPcb.fdsArray fd.toNat).filePosition = 4096 :=
                UInt32.toNat_inj.1 (hstream.position.trans h4096)
              have hle := hok hstream.flags hpos hposition
              rw [hstream.inode] at hle
              have hge := hstream.position_le
              right
              right
              omega
            · exact Or.inr (Or.inl h4096)
          · left
            omega
        refine ⟨h.currentPcb, fun j t ht => ?_⟩
        by_cases hj : j = fd.toNat
        · subst hj
          rw [Function.update_self, Option.some.injEq] at ht
          subst ht
          exact hstream.advance hwf nbytes.toNat hclear
        · rw [Function.update_of_ne hj] at ht
          rw [Kernel.fileReadSetup, Kernel.callerPcb_setPcb]
          exact (h.streams j t ht).of_eq (by simp [hj]) (fun _ _ _ hn => hn.setFds _ _)

/-- What the invariant says about the streams. -/
theorem streaming (hwf : fs.WellFormed) (h : StreamInv fs k g) : Streaming fs k g := by
  intro fd s hs
  have hstream := h.streams fd s hs
  refine ⟨by rw [hstream.position]; exact hstream.stored, hstream.position.symm,
    fun buf nbytes hbuf hn => ?_⟩
  refine ⟨_, hstream.read_eq h.currentPcb hbuf (Int.le_of_lt hn), ?_⟩
  rw [← ret_eq_zero_iff hwf hstream (n := nbytes.toNat) (by omega), ← fileRead_eq_readData hstream]
  rfl

end StreamInv

/-- A read as a step of the system with its history. -/
theorem withGhost_read {lay : Layout} {fs : FileSys} {k : Kernel} {g : Nat → Option Delivery}
    {fd : Nat} {buf : UInt32} {nbytes : Int} {r : Transfer × Kernel}
    (h : k.read fs fd buf nbytes = some r) :
    withGhost (Kernel.step lay fs) (deliveriesAfter fs) (k, g) (.read fd buf nbytes)
      = some (r.2, Function.update g fd ((g fd).map (fun s => s.deliver r.1))) := by
  simp only [withGhost, Kernel.step, deliveriesAfter, h, Option.map_some, Int.toNat_natCast]

/-- **Files stream.** From the start of a program, over every sequence of calls on files that stays
    clear of the three slips: every descriptor that `open` returned for a regular file delivers that
    file, in order and from its first byte. -/
theorem file_reads_stream (lay : Layout) (fs : FileSys) (hwf : fs.WellFormed) (k : Kernel)
    (command : List UInt8) (env : ExecEnv) (entry : UInt32)
    (hstart : (k.execute fs command env).1 = .started entry)
    (s : Kernel × (Nat → Option Delivery))
    (hrun : Reaches (withGhost (Kernel.step lay fs) (deliveriesAfter fs))
      (fun s e => FileCall e ∧ StreamStepOk fs s.1 e) ((k.execute fs command env).2, fun _ => none) s) :
    Streaming fs s.1 s.2 := by
  refine StreamInv.streaming hwf (hrun.invariant (I := fun s => StreamInv fs s.1 s.2) ?_ ?_)
  · refine ⟨(callerPcb_of_started hstart).2, fun fd s hs => ?_⟩
    cases hs
  · intro s e s' hs hok hstep
    obtain ⟨hk, hg⟩ := withGhost_eq_some hstep
    rw [hg]
    obtain ⟨hcall, hok⟩ := hok
    cases e with
    | openFile filename =>
        rw [← Option.some.inj hk]
        exact hs.openFile filename hok
    | close fd =>
        rw [← Option.some.inj hk]
        exact hs.close fd
    | read fd buf nbytes =>
        obtain ⟨r, hr, hk'⟩ := Option.map_eq_some_iff.1 hk
        rw [← hk']
        exact hs.read hwf hr hok
    | _ => exact hcall.elim

/-- The shell opens `note` and reads two bytes from it. -/
theorem file_reads_stream_note :
    ∃ g s, g 2 = some s ∧ s.inode = 2 ∧ s.delivered = [104, 105] ∧
      Streaming sampleFs (shellWithNote.fileReadSetup sampleFs 2 2).2 g := by
  have hslot : Kernel.freeSlot sampleShell.callerPcb = some 2 := by decide +kernel
  have hflags : ∀ i < 8, (sampleShell.callerPcb.fdsArray i).flags ≠ fileFlag := by decide +kernel
  have hopen : Reaches (withGhost (Kernel.step sampleLayout sampleFs) (deliveriesAfter sampleFs))
      (fun s e => FileCall e ∧ StreamStepOk sampleFs s.1 e) (sampleShell, fun _ => none)
      (shellWithNote, noteOpen sampleFs noteName (sampleShell.openFile sampleFs noteName).1 (fun _ => none)) := by
    refine Reaches.refl.tail (e := .openFile noteName)
      ⟨trivial, fun h => absurd h (by decide +kernel), fun i d hi _ _ => ?_⟩ rfl
    have hi2 : i = 2 := Option.some.inj (hi.symm.trans hslot)
    subst hi2
    exact ⟨fun h => absurd h (hflags 1 (by decide)), fun _ h => absurd h (hflags 3 (by decide))⟩
  generalize hg : noteOpen sampleFs noteName (sampleShell.openFile sampleFs noteName).1 (fun _ => none) = g at hopen
  have hg2 : g 2 = some ⟨2, []⟩ := by
    rw [← hg]
    decide +kernel
  have hread : shellWithNote.read sampleFs (2 : Nat) 1 2 = some (shellWithNote.fileReadSetup sampleFs 2 2) :=
    read_eq_fileReadSetup (by decide) (by decide +kernel) (by decide) (by decide)
  have hstart : (shellWithNote.callerPcb.fdsArray 2).filePosition = 0 := by decide +kernel
  have hrun : Reaches (withGhost (Kernel.step sampleLayout sampleFs) (deliveriesAfter sampleFs))
      (fun s e => FileCall e ∧ StreamStepOk sampleFs s.1 e) (sampleShell, fun _ => none)
      ((shellWithNote.fileReadSetup sampleFs 2 2).2, _) :=
    hopen.tail (e := .read (2 : Nat) 1 2) ⟨trivial, fun _ _ h => absurd (hstart.symm.trans h) (by decide)⟩
      (withGhost_read hread)
  refine ⟨_, _, (Function.update_self _ _ _).trans (congrArg (Option.map _) hg2), rfl, ?_,
    file_reads_stream sampleLayout sampleFs sampleFs_wellFormed (Kernel.boot sampleLayout sampleMemory) shellName
      (sampleEnv 100 101) 0x8048000 sampleShell_started _ hrun⟩
  decide +kernel

/-! ## Position 4096 -/

/-- The shell with `data` open in slot 2, and behind a read of its first 4096 bytes. -/
def shellWithData : Kernel := (sampleShell.openFile sampleFs dataName).2
def shellAtBlockEnd : Kernel := (shellWithData.fileReadSetup sampleFs 2 4096).2

theorem shellAtBlockEnd_position : (shellAtBlockEnd.callerPcb.fdsArray 2).filePosition = 4096 := by
  have hinode : (sampleFs.readDentryByName (shellWithData.callerPcb.nameAt 2)).map
      (fun d => d.inode.toNat) = some 1 := by decide +kernel
  obtain ⟨d, hd, hd1⟩ := Option.map_eq_some_iff.1 hinode
  have hlen : sampleFs.fileLength 1 = 4097 := by decide +kernel
  have hread : (sampleFs.fileRead (shellWithData.callerPcb.nameAt 2) 0 4096).1 = 4096 := by
    rw [FileSys.fileRead, hd]
    dsimp only
    rw [hd1, sampleFs.readData_eq (sampleFs_goodInode (by decide)) (Nat.zero_le _)
      (Or.inr (Or.inl (by decide)))]
    simp [hlen]
  have hstart : (shellWithData.callerPcb.fdsArray 2).filePosition = 0 := by decide +kernel
  rw [shellAtBlockEnd, fdsArray_fileReadSetup, fileReadSetup_fst, hstart]
  dsimp only
  rw [show (0 : UInt32).toNat = 0 from rfl, hread]
  decide

/-- The next read of one byte goes back to the first block. -/
theorem shellAtBlockEnd_read : (shellAtBlockEnd.fileReadSetup sampleFs 2 1).1 = ⟨1, 0, [97]⟩ := by
  have hname : shellAtBlockEnd.callerPcb.nameAt 2 = shellWithData.callerPcb.nameAt 2 := by
    rw [shellAtBlockEnd, nameAt_fileReadSetup]
  have hread : sampleFs.fileRead (shellWithData.callerPcb.nameAt 2) 4096 1 = (1, [97]) := by
    decide +kernel
  rw [fileReadSetup_fst, shellAtBlockEnd_position, hname, show (4096 : UInt32).toNat = 4096 from rfl,
    hread]

/-- `data` is read in two calls, of 4096 bytes and of one: the second delivers the first byte of the
    file again. -/
theorem read_repeats_first_block :
    ¬ ∀ (lay : Layout) (fs : FileSys), fs.WellFormed → ∀ (k : Kernel) (command : List UInt8)
      (env : ExecEnv) (entry : UInt32), (k.execute fs command env).1 = .started entry →
      ∀ s, Reaches (withGhost (Kernel.step lay fs) (deliveriesAfter fs)) (fun _ e => FileCall e)
        ((k.execute fs command env).2, fun _ => none) s → Streaming fs s.1 s.2 := by
  intro h
  have hall := h sampleLayout sampleFs sampleFs_wellFormed (Kernel.boot sampleLayout sampleMemory)
    shellName (sampleEnv 100 101) 0x8048000 sampleShell_started
  -- the two reads, and the history along the run
  have hread1 : shellWithData.read sampleFs (2 : Nat) 1 4096
      = some (shellWithData.fileReadSetup sampleFs 2 4096) :=
    read_eq_fileReadSetup (by decide) (by decide +kernel) (by decide) (by decide)
  have hread2 : shellAtBlockEnd.read sampleFs (2 : Nat) 1 1
      = some (shellAtBlockEnd.fileReadSetup sampleFs 2 1) :=
    read_eq_fileReadSetup (by decide) (by decide +kernel) (by decide) (by decide)
  have hrun1 : Reaches (withGhost (Kernel.step sampleLayout sampleFs) (deliveriesAfter sampleFs))
      (fun _ e => FileCall e) (sampleShell, fun _ => none)
      (shellWithData, noteOpen sampleFs dataName (sampleShell.openFile sampleFs dataName).1
        (fun _ => none)) :=
    Reaches.refl.tail (e := .openFile dataName) trivial rfl
  generalize hg1 : noteOpen sampleFs dataName (sampleShell.openFile sampleFs dataName).1
    (fun _ => none) = g1 at hrun1
  have hg1at : g1 2 = some ⟨1, []⟩ := by
    rw [← hg1]
    decide +kernel
  have hrun2 : Reaches (withGhost (Kernel.step sampleLayout sampleFs) (deliveriesAfter sampleFs))
      (fun _ e => FileCall e) (sampleShell, fun _ => none)
      (shellAtBlockEnd, Function.update g1 2 ((g1 2).map
        (fun s => s.deliver (shellWithData.fileReadSetup sampleFs 2 4096).1))) :=
    hrun1.tail (e := .read (2 : Nat) 1 4096) trivial (withGhost_read hread1)
  rw [hg1at, Option.map_some] at hrun2
  generalize hd2 : Delivery.deliver ⟨1, []⟩ (shellWithData.fileReadSetup sampleFs 2 4096).1 = d2 at hrun2
  have hino : d2.inode = 1 := by rw [← hd2]; rfl
  have hrun3 : Reaches (withGhost (Kernel.step sampleLayout sampleFs) (deliveriesAfter sampleFs))
      (fun _ e => FileCall e) (sampleShell, fun _ => none)
      ((shellAtBlockEnd.fileReadSetup sampleFs 2 1).2,
        Function.update (Function.update g1 2 (some d2)) 2 ((Function.update g1 2 (some d2) 2).map
          (fun s => s.deliver (shellAtBlockEnd.fileReadSetup sampleFs 2 1).1))) :=
    hrun2.tail (e := .read (2 : Nat) 1 1) trivial (withGhost_read hread2)
  rw [Function.update_self, Option.map_some, shellAtBlockEnd_read] at hrun3
  -- 4096 bytes are delivered by the first read; the next one is `a` where the file has `b`
  have hlen : d2.delivered.length = 4096 := by
    have hat : Function.update g1 2 (some d2) 2 = some d2 := Function.update_self _ _ _
    have h2 := (hall _ hrun2 2 d2 hat).2.1
    rw [h2]
    exact congrArg UInt32.toNat shellAtBlockEnd_position
  have hat : Function.update (Function.update g1 2 (some d2)) 2 (some (d2.deliver ⟨1, 0, [97]⟩)) 2
      = some (d2.deliver ⟨1, 0, [97]⟩) := Function.update_self _ _ _
  have h3 := (hall _ hrun3 2 _ hat).1
  have hgot : (d2.deliver ⟨1, 0, [97]⟩).delivered[4096]? = some 97 := by
    simp [Delivery.deliver, hlen]
  rw [h3, List.getElem?_take] at hgot
  split_ifs at hgot
  have hfile : (sampleFs.contents 1)[4096]? = some 98 := by
    have hflen : sampleFs.fileLength 1 = 4097 := by decide +kernel
    have hbyte : sampleFs.fileByte 1 4096 = 98 := by decide +kernel
    simp [FileSys.contents, hflen, hbyte]
  rw [show (d2.deliver ⟨1, 0, [97]⟩).inode = 1 from hino, hfile] at hgot
  exact absurd hgot (by decide)

end UnixTerminal
