import Mathlib.Order.Interval.Set.Defs
import UnixTerminal.Library.LowestFree
import UnixTerminal.Proofs.DescriptorTable
import UnixTerminal.Proofs.NameLookup

set_option autoImplicit false

/-! # Allocation of descriptors

For the names that reach the directory, the slots 2 to 7 of a descriptor table are a pool that hands
out the lowest free slot (`Library.LowestFree`): `open` of a name in the directory is a request to the
pool, `close` gives a slot back, and every other call on descriptors leaves the pool alone. -/

namespace UnixTerminal

/-- The slots `open` chooses from. -/
def fileSlots : Set Nat := Set.Ico 2 8

/-- The slots in use. -/
def Pcb.taken (p : Pcb) : Set Nat := {i | (p.fdsArray i).flags ≠ notSet}

/-- The names that `open` looks up: those that begin with neither reserved name. -/
def LookedUp (filename : List UInt8) : Prop :=
  strncmp filename stdinName 5 ≠ 0 ∧ strncmp filename stdoutName 6 ≠ 0

/-- Entry `e` stands for `name`: it is the first of that name. -/
structure EntryOf (image : Nat → UInt8) (name : List UInt8) (e : Nat) : Prop where
  lt : e < (fileInit image).numDentries
  sameName : fieldName image e = cstr name
  first : ∀ i, i < e → fieldName image i ≠ cstr name

/-- The directory has the name. A field that starts with a NUL names nothing. -/
def InDirectory (image : Nat → UInt8) (name : List UInt8) : Prop :=
  cstr name ≠ [] ∧ ∃ e, e < (fileInit image).numDentries ∧ fieldName image e = cstr name

/-- Every entry is an rtc, a directory or a regular file. -/
def KnownTypes (image : Nat → UInt8) : Prop :=
  ∀ e, e < (fileInit image).numDentries → (dentryAt image e).fileType = rtcType ∨
    (dentryAt image e).fileType = dirType ∨ (dentryAt image e).fileType = fileType

/-- The driver for a type. -/
def flagOfType (type : UInt32) : UInt32 :=
  if type = rtcType then rtcFlag else if type = dirType then dirFlag else fileFlag

theorem flagOfType_ne_notSet (type : UInt32) : flagOfType type ≠ notSet := by
  unfold flagOfType
  split_ifs
  · exact show rtcFlag ≠ notSet by decide
  · exact show dirFlag ≠ notSet by decide
  · exact show fileFlag ≠ notSet by decide

/-! ## The lookup and the slot -/

theorem inDirectory_iff (image : Nat → UInt8) (name : List UInt8) :
    InDirectory image name ↔ ((fileInit image).readDentryByName name).isSome = true := by
  rw [(fileInit image).isSome_readDentryByName, strlen_eq_length_cstr]
  simp only [entryName_fileInit]
  constructor
  · rintro ⟨hne, e, he, hname⟩
    refine ⟨List.length_pos_iff.2 hne, ?_, e, he, hname⟩
    rw [← hname]
    exact length_fieldName_le image e
  · rintro ⟨hpos, -, e, he, hname⟩
    exact ⟨List.length_pos_iff.1 hpos, e, he, hname⟩

theorem entryOf_of_readDentryByName {image : Nat → UInt8} {name : List UInt8} {d : Dentry}
    (h : (fileInit image).readDentryByName name = some d) :
    ∃ e, EntryOf image name e ∧ d.fileType = (dentryAt image e).fileType := by
  obtain ⟨e, he, hname, hfirst, htype, -⟩ := (fileInit image).readDentryByName_first h
  simp only [entryName_fileInit] at hname hfirst
  exact ⟨e, ⟨he, hname, hfirst⟩, htype⟩

namespace Kernel

/-- The search loop of `open` finds the lowest free slot. -/
theorem freeSlot_eq_some_iff (p : Pcb) (i : Nat) :
    freeSlot p = some i ↔ IsLeast (fileSlots \ p.taken) i := by
  have hset : fileSlots \ p.taken
      = {j | j ∈ [2, 3, 4, 5, 6, 7] ∧ ((p.fdsArray j).flags == notSet) = true} := by
    ext j
    have hrange : j ∈ fileSlots ↔ j ∈ [2, 3, 4, 5, 6, 7] := by
      simp only [fileSlots, Set.mem_Ico, List.mem_cons, List.not_mem_nil, or_false]
      omega
    rw [Set.mem_sdiff, hrange]
    simp [Pcb.taken]
  rw [hset, freeSlot]
  exact find?_eq_some_iff_isLeast (by decide)

theorem freeSlot_eq_none_iff (p : Pcb) : freeSlot p = none ↔ fileSlots ⊆ p.taken := by
  rw [freeSlot, List.find?_eq_none]
  simp only [fileSlots, Pcb.taken, Set.subset_def, Set.mem_Ico, List.mem_cons, List.not_mem_nil,
    or_false, beq_iff_eq]
  exact ⟨fun h i hi => h i (by omega), fun h i hi => h i (by omega)⟩

/-- What `open` makes of the slot, for the three types. -/
theorem openSlot_known (p : Pcb) (i : Nat) (filename : List UInt8) {d : Dentry}
    (hd : d.fileType = rtcType ∨ d.fileType = dirType ∨ d.fileType = fileType) :
    ∃ q, openSlot p i filename d = some q ∧ (q.fdsArray i).flags = flagOfType d.fileType ∧
      (q.fdsArray i).filePosition = 0 ∧ ∀ j, j ≠ i → q.fdsArray j = p.fdsArray j := by
  unfold openSlot flagOfType
  split_ifs with h0 h1 h2
  · exact ⟨_, rfl, by simp, by simp, fun j hj => by simp [hj]⟩
  · exact ⟨_, rfl, by simp, by simp, fun j hj => by simp [hj]⟩
  · exact ⟨_, rfl, by simp, by simp, fun j hj => by simp [hj]⟩
  · rcases hd with h | h | h
    · exact absurd h h0
    · exact absurd h h1
    · exact absurd h h2

variable {image : Nat → UInt8} {k : Kernel} {filename : List UInt8}

/-- The three ways `open` of a looked-up name can end. -/
inductive LookupCase (image : Nat → UInt8) (k : Kernel) (filename : List UInt8) : Int → Kernel → Prop
  | missing (h : ¬ InDirectory image filename) : LookupCase image k filename (-1) k
  | full (h : InDirectory image filename) (hfull : fileSlots ⊆ k.callerPcb.taken) :
      LookupCase image k filename (-1) k
  | granted {i e : Nat} {k' : Kernel} (h : InDirectory image filename) (he : EntryOf image filename e)
      (hi : IsLeast (fileSlots \ k.callerPcb.taken) i)
      (hflags : (k'.callerPcb.fdsArray i).flags = flagOfType (dentryAt image e).fileType)
      (hpos : (k'.callerPcb.fdsArray i).filePosition = 0)
      (hother : ∀ j, j ≠ i → k'.callerPcb.fdsArray j = k.callerPcb.fdsArray j) :
      LookupCase image k filename i k'

theorem openFile_lookupCase (htypes : KnownTypes image) (hname : LookedUp filename) :
    LookupCase image k filename (k.openFile (fileInit image) filename).1
      (k.openFile (fileInit image) filename).2 := by
  have hdir := inDirectory_iff image filename
  unfold openFile
  dsimp only
  rw [if_neg hname.1, if_neg hname.2]
  cases hd : (fileInit image).readDentryByName filename with
  | none =>
      rw [hd] at hdir
      exact .missing (fun h => absurd (hdir.1 h) (by simp))
  | some d =>
      rw [hd] at hdir
      obtain ⟨e, he, htype⟩ := entryOf_of_readDentryByName hd
      have hin := hdir.2 rfl
      cases hi : freeSlot (k.pcb (getPcbPointer k.currProcess)) with
      | none => exact .full hin ((freeSlot_eq_none_iff _).1 hi)
      | some i =>
          have hknown := htypes e he.lt
          rw [← htype] at hknown
          obtain ⟨q, hq, hflags, hpos, hother⟩ :=
            openSlot_known (k.pcb (getPcbPointer k.currProcess)) i filename hknown
          dsimp only
          rw [hq]
          refine .granted hin he ((freeSlot_eq_some_iff _ i).1 hi) ?_ ?_ ?_
          · rw [callerPcb_setPcb, hflags, htype]
          · rw [callerPcb_setPcb, hpos]
          · intro j hj
            rw [callerPcb_setPcb]
            exact hother j hj

/-! ## `open` and `close` as requests to the pool -/

/-- What a value returned by `open` grants. -/
def grantOf (fd : Int) : Option Nat := if fd = -1 then none else some fd.toNat

theorem grantOf_natCast (i : Nat) : grantOf i = some i := by
  rw [grantOf, if_neg (by omega), Int.toNat_natCast]

/-- **`open` is a request to the pool** for a name in the directory, and changes nothing for another. -/
theorem openFile_poolStep (htypes : KnownTypes image) (hname : LookedUp filename) :
    (InDirectory image filename → PoolStep fileSlots k.callerPcb.taken .alloc
      (grantOf (k.openFile (fileInit image) filename).1)
      (k.openFile (fileInit image) filename).2.callerPcb.taken) ∧
    (¬ InDirectory image filename → k.openFile (fileInit image) filename = (-1, k)) := by
  have hcase := openFile_lookupCase (k := k) htypes hname
  generalize k.openFile (fileInit image) filename = r at hcase ⊢
  obtain ⟨v, k'⟩ := r
  dsimp only at hcase ⊢
  cases hcase with
  | missing h => exact ⟨fun hin => absurd hin h, fun _ => rfl⟩
  | full h hfull => exact ⟨fun _ => .full hfull, fun hnot => absurd h hnot⟩
  | @granted i e _ h he hi hflags hpos hother =>
      refine ⟨fun _ => ?_, fun hnot => absurd h hnot⟩
      have htaken : k'.callerPcb.taken = insert i k.callerPcb.taken := by
        ext j
        by_cases hj : j = i
        · subst hj
          simp [Pcb.taken, hflags, flagOfType_ne_notSet]
        · simp [Pcb.taken, hother j hj, hj]
      rw [htaken, grantOf_natCast]
      exact .granted hi

/-- The descriptors that `close` accepts. -/
def Closable (k : Kernel) (fd : Int) : Prop :=
  2 ≤ fd ∧ fd ≤ 7 ∧ (k.callerPcb.fdsArray fd.toNat).flags ≠ notSet

theorem close_of_closable {fd : Int} (h : Closable k fd) :
    k.close fd = (0, k.setPcb (getPcbPointer k.currProcess)
      (·.setFds fd.toNat (fun _ => ⟨0, 0, notSet⟩))) := by
  obtain ⟨hlo, hhi, hset⟩ := h
  unfold close
  dsimp only
  rw [if_neg (by simp only [maxFile]; omega)]
  exact if_neg hset

theorem close_of_not_closable {fd : Int} (h : ¬ Closable k fd) : k.close fd = (-1, k) := by
  unfold close
  dsimp only
  split_ifs with hrange hset
  · rfl
  · rfl
  · simp only [maxFile] at hrange
    exact absurd ⟨by omega, by omega, hset⟩ h

/-- **`close` gives a slot back**, or changes nothing. -/
theorem close_poolStep (k : Kernel) (fd : Int) :
    (Closable k fd → PoolStep fileSlots k.callerPcb.taken (.free fd.toNat) (some fd.toNat)
      (k.close fd).2.callerPcb.taken) ∧
    (¬ Closable k fd → k.close fd = (-1, k)) := by
  refine ⟨fun h => ?_, close_of_not_closable⟩
  have htaken : (k.close fd).2.callerPcb.taken = k.callerPcb.taken \ {fd.toNat} := by
    rw [close_of_closable h, callerPcb_setPcb]
    ext j
    by_cases hj : j = fd.toNat
    · subst hj
      simp [Pcb.taken]
    · simp [Pcb.taken, hj]
  obtain ⟨hlo, hhi, hset⟩ := h
  rw [htaken]
  refine .freed ⟨?_, hset⟩
  rw [fileSlots, Set.mem_Ico]
  omega

/-! ## Runs -/

/-- The calls of the two kinds: `close` of any descriptor, `open` of a name that is looked up. -/
def AllocEvent : Event → Prop
  | .openFile filename => LookedUp filename
  | .close _ => True
  | _ => False

/-- The descriptors that `open` returned and no `close` took back, after one more call. -/
def heldAfter (fs : FileSys) (k : Kernel) (e : Event) (_ : Kernel) (held : List Nat) : List Nat :=
  match e with
  | .openFile filename => handlesAfter .alloc (grantOf (k.openFile fs filename).1) held
  | .close fd => if (k.close fd).1 = 0 then held.erase fd.toNat else held
  | _ => held

/-- The descriptors 2 to 7 that are in use. -/
def openDescriptors (k : Kernel) : List Nat :=
  [2, 3, 4, 5, 6, 7].filter (fun i => (k.callerPcb.fdsArray i).flags != notSet)

theorem holdsPool_openDescriptors (k : Kernel) :
    HoldsPool fileSlots k.callerPcb.taken k.openDescriptors := by
  refine ⟨List.Nodup.filter _ (by decide), fun i => ?_⟩
  simp only [openDescriptors, List.mem_filter, List.mem_cons, List.not_mem_nil, or_false, bne_iff_ne,
    fileSlots, Pcb.taken, Set.mem_inter_iff, Set.mem_Ico]
  exact and_congr_left' (by omega)

/-- One call keeps the account. -/
theorem holdsPool_step {lay : Layout} {k' : Kernel} {e : Event} {held : List Nat}
    (htypes : KnownTypes image) (hheld : HoldsPool fileSlots k.callerPcb.taken held)
    (he : AllocEvent e) (hstep : k.step lay (fileInit image) e = some k') :
    HoldsPool fileSlots k'.callerPcb.taken (heldAfter (fileInit image) k e k' held) := by
  cases e with
  | openFile filename =>
      cases hstep
      obtain ⟨hin, hnot⟩ := openFile_poolStep (k := k) htypes he
      by_cases h : InDirectory image filename
      · exact (hin h).holds hheld
      · dsimp only [heldAfter]
        rw [hnot h]
        exact hheld
  | close fd =>
      cases hstep
      obtain ⟨hin, hnot⟩ := close_poolStep k fd
      by_cases h : Closable k fd
      · have hzero : (k.close fd).1 = 0 := by rw [close_of_closable h]
        dsimp only [heldAfter]
        rw [if_pos hzero]
        exact (hin h).holds hheld
      · dsimp only [heldAfter]
        rw [hnot h]
        exact hheld
  | _ => exact he.elim

end Kernel

/-! ## The calls, exactly -/

open Kernel

/-- `open`, in state `k`: when it fails, and what it returns and changes when it does not. -/
structure OpenExact (image : Nat → UInt8) (k : Kernel) (filename : List UInt8) : Prop where
  fails_iff : (k.openFile (fileInit image) filename).1 = -1 ↔
    ¬ InDirectory image filename ∨ ∀ i, 2 ≤ i → i ≤ 7 → (k.callerPcb.fdsArray i).flags ≠ notSet
  failed : (k.openFile (fileInit image) filename).1 = -1 →
    ∀ j, (k.openFile (fileInit image) filename).2.callerPcb.fdsArray j = k.callerPcb.fdsArray j
  opened : (k.openFile (fileInit image) filename).1 ≠ -1 →
    ∃ i e : Nat, (k.openFile (fileInit image) filename).1 = i ∧
      IsLeast {j | 2 ≤ j ∧ j ≤ 7 ∧ (k.callerPcb.fdsArray j).flags = notSet} i ∧
      EntryOf image filename e ∧
      ((k.openFile (fileInit image) filename).2.callerPcb.fdsArray i).flags
        = flagOfType (dentryAt image e).fileType ∧
      ((k.openFile (fileInit image) filename).2.callerPcb.fdsArray i).filePosition = 0 ∧
      ∀ j, j ≠ i →
        (k.openFile (fileInit image) filename).2.callerPcb.fdsArray j = k.callerPcb.fdsArray j

/-- `close`, in state `k`. -/
structure CloseExact (k : Kernel) (fd : Int) : Prop where
  succeeds_iff : (k.close fd).1 = 0 ↔
    2 ≤ fd ∧ fd ≤ 7 ∧ (k.callerPcb.fdsArray fd.toNat).flags ≠ notSet
  closed : (k.close fd).1 = 0 → ((k.close fd).2.callerPcb.fdsArray fd.toNat).flags = notSet ∧
    ∀ j, j ≠ fd.toNat → (k.close fd).2.callerPcb.fdsArray j = k.callerPcb.fdsArray j
  failed : (k.close fd).1 ≠ 0 → (k.close fd).1 = -1 ∧
    ∀ j, (k.close fd).2.callerPcb.fdsArray j = k.callerPcb.fdsArray j

theorem fileSlots_diff_taken (p : Pcb) :
    fileSlots \ p.taken = {j | 2 ≤ j ∧ j ≤ 7 ∧ (p.fdsArray j).flags = notSet} := by
  ext j
  have hrange : j ∈ fileSlots ↔ 2 ≤ j ∧ j ≤ 7 := by
    rw [fileSlots, Set.mem_Ico]
    omega
  rw [Set.mem_sdiff, hrange]
  simp [Pcb.taken, and_assoc]

theorem openExact {image : Nat → UInt8} (htypes : KnownTypes image) (k : Kernel)
    {filename : List UInt8} (hname : LookedUp filename) : OpenExact image k filename := by
  have hcase := openFile_lookupCase (k := k) htypes hname
  have hfree : ∀ {i}, IsLeast (fileSlots \ k.callerPcb.taken) i →
      ¬ ∀ i, 2 ≤ i → i ≤ 7 → (k.callerPcb.fdsArray i).flags ≠ notSet := by
    rintro i ⟨hi, -⟩ hall
    rw [fileSlots_diff_taken] at hi
    exact hall i hi.1 hi.2.1 hi.2.2
  constructor
  all_goals
    generalize k.openFile (fileInit image) filename = r at hcase ⊢
    obtain ⟨v, k'⟩ := r
    dsimp only at hcase ⊢
  · cases hcase with
    | missing h => exact ⟨fun _ => Or.inl h, fun _ => rfl⟩
    | full h hfull => exact ⟨fun _ => Or.inr (fun i h2 h7 => hfull ⟨h2, by omega⟩), fun _ => rfl⟩
    | granted h _ hi =>
        refine ⟨fun hv => absurd hv (by omega), ?_⟩
        rintro (hnot | hall)
        · exact absurd h hnot
        · exact absurd hall (hfree hi)
  · intro hv
    cases hcase with
    | missing => exact fun _ => rfl
    | full => exact fun _ => rfl
    | granted => exact absurd hv (by omega)
  · intro hv
    cases hcase with
    | missing => exact absurd rfl hv
    | full => exact absurd rfl hv
    | @granted i e _ _ he hi hflags hpos hother =>
        rw [fileSlots_diff_taken] at hi
        exact ⟨i, e, rfl, hi, he, hflags, hpos, hother⟩

theorem closeExact (k : Kernel) (fd : Int) : CloseExact k fd := by
  by_cases h : Closable k fd
  · have hclose := close_of_closable h
    refine ⟨by rw [hclose]; exact ⟨fun _ => h, fun _ => rfl⟩, fun _ => ⟨?_, fun j hj => ?_⟩, ?_⟩
    · rw [hclose]
      simp
    · rw [hclose]
      simp [hj]
    · rw [hclose]
      exact fun hne => absurd rfl hne
  · have hclose := close_of_not_closable h
    have hne : (-1 : Int) ≠ 0 := by decide
    refine ⟨by rw [hclose]; exact ⟨fun hv => absurd hv hne, fun hc => absurd hc h⟩, ?_, ?_⟩
    · rw [hclose]
      exact fun hv => absurd hv hne
    · rw [hclose]
      exact fun _ => ⟨rfl, fun _ => rfl⟩

section Pool

variable {image : Nat → UInt8} {k : Kernel} {filename : List UInt8}

/-- What `open` returns is held by nobody. -/
theorem openFile_fresh (htypes : KnownTypes image) {held : List Nat}
    (hheld : HoldsPool fileSlots k.callerPcb.taken held) (hname : LookedUp filename) {i : Nat}
    (hi : (k.openFile (fileInit image) filename).1 = i) : i ∉ held := by
  obtain ⟨hin, hnot⟩ := openFile_poolStep (k := k) htypes hname
  by_cases h : InDirectory image filename
  · have hstep := hin h
    rw [hi, grantOf_natCast] at hstep
    exact hstep.fresh hheld
  · rw [hnot h] at hi
    exact absurd hi (by omega)

/-- Behind a `close` that succeeds there is a slot for the next `open`: that one or a lower one. -/
theorem openFile_after_close (htypes : KnownTypes image) {fd : Int} (hclose : (k.close fd).1 = 0)
    (hname : LookedUp filename) (hin : InDirectory image filename) :
    ∃ i : Nat, ((k.close fd).2.openFile (fileInit image) filename).1 = i ∧ (i : Int) ≤ fd := by
  have hclosable : Closable k fd := (closeExact k fd).succeeds_iff.1 hclose
  obtain ⟨b, hb, hleast⟩ := ((close_poolStep k fd).1 hclosable).reusable (Option.some_ne_none _)
  have hlo := hclosable.1
  have hcase := openFile_lookupCase (k := (k.close fd).2) htypes hname
  generalize (k.close fd).2.openFile (fileInit image) filename = r at hcase ⊢
  obtain ⟨v, k'⟩ := r
  dsimp only at hcase ⊢
  cases hcase with
  | missing h => exact absurd hin h
  | full _ hfull => exact absurd (hfull hleast.1.1) hleast.1.2
  | @granted i _ _ _ _ hi =>
      obtain rfl : i = b := hi.unique hleast
      exact ⟨i, rfl, by omega⟩

end Pool

/-- **Allocation of descriptors is lowest-free and exact**, in every state that calls of `open` and
    `close` lead to, from any state. The descriptors held (those in use at the start, and those that
    `open` returned since, less those that `close` took back) are distinct and are the slots in use. -/
theorem descriptor_allocation_exact (lay : Layout) (image : Nat → UInt8) (htypes : KnownTypes image)
    (k : Kernel) (s : Kernel × List Nat)
    (hrun : Reaches (withGhost (Kernel.step lay (fileInit image)) (heldAfter (fileInit image)))
      (fun _ e => AllocEvent e) (k, k.openDescriptors) s) :
    (∀ filename, LookedUp filename → OpenExact image s.1 filename) ∧
    (∀ fd, CloseExact s.1 fd) ∧
    s.2.Nodup ∧
    (∀ i, i ∈ s.2 ↔ 2 ≤ i ∧ i ≤ 7 ∧ (s.1.callerPcb.fdsArray i).flags ≠ notSet) ∧
    (∀ filename (i : Nat), LookedUp filename → (s.1.openFile (fileInit image) filename).1 = i →
      i ∉ s.2) ∧
    ∀ fd filename, (s.1.close fd).1 = 0 → LookedUp filename → InDirectory image filename →
      ∃ i : Nat, ((s.1.close fd).2.openFile (fileInit image) filename).1 = i ∧ (i : Int) ≤ fd := by
  have hheld : HoldsPool fileSlots s.1.callerPcb.taken s.2 := by
    refine hrun.invariant (I := fun s => HoldsPool fileSlots s.1.callerPcb.taken s.2)
      (holdsPool_openDescriptors k) ?_
    intro s e s' hs he hstep
    obtain ⟨hk, hg⟩ := withGhost_eq_some hstep
    rw [hg]
    exact holdsPool_step htypes hs he hk
  refine ⟨fun filename hname => openExact htypes s.1 hname, closeExact s.1, hheld.nodup, fun i => ?_,
    fun filename i hname hi => openFile_fresh htypes hheld hname hi,
    fun fd filename hclose hname hin => openFile_after_close htypes hclose hname hin⟩
  rw [hheld.mem, fileSlots, Pcb.taken, Set.mem_inter_iff, Set.mem_Ico, and_assoc]
  exact and_congr_right fun _ => and_congr_left' (by omega)

/-- The shell opens `note` and closes it. -/
theorem descriptor_allocation_note :
    CloseExact (sampleShell.openFile sampleFs noteName).2 2 ∧
      ∃ i : Nat, (((sampleShell.openFile sampleFs noteName).2.close 2).2.openFile sampleFs noteName).1 = i ∧
        (i : Int) ≤ 2 := by
  have hnum : (fileInit sampleImage).numDentries = 4 := by decide +kernel
  have htypes : ∀ e < 4, (dentryAt sampleImage e).fileType = rtcType ∨
      (dentryAt sampleImage e).fileType = dirType ∨ (dentryAt sampleImage e).fileType = fileType := by
    decide +kernel
  have hname : LookedUp noteName := by
    unfold LookedUp
    decide +kernel
  have hin : InDirectory sampleImage noteName :=
    (inDirectory_iff sampleImage noteName).2 (by decide +kernel)
  have h := descriptor_allocation_exact sampleLayout sampleImage
    (fun e he => htypes e (hnum ▸ he)) sampleShell ((sampleShell.openFile sampleFs noteName).2, _)
    (Reaches.refl.tail (e := .openFile noteName) hname rfl)
  exact ⟨h.2.1 2, h.2.2.2.2.2 2 noteName (by decide +kernel) hname hin⟩

end UnixTerminal
