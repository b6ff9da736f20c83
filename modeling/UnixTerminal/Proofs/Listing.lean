import UnixTerminal.Library.Run
import UnixTerminal.Proofs.Boot
import UnixTerminal.Proofs.Devices

set_option autoImplicit false

/-! # Listing a directory

`dir_readnew` keeps its place in one global variable, `dir_read_idx_new`, for every descriptor of every
process, and only a read behind the last entry sets it back. The history of a run keeps, for each open
directory descriptor, what its reads have delivered since its `open`. A descriptor lists the directory
from the first entry to the last and then reads 0 as long as nobody left the index inside a listing
before its first read, and nobody else reads a directory between its reads. -/

namespace UnixTerminal

/-- What read number `n` on a directory descriptor should deliver: the name of entry `n`, and 0 behind
    the last one. -/
def FileSys.listed (fs : FileSys) (n : Nat) : Transfer :=
  if n < fs.numDentries then
    ⟨strlen (fs.myDentry n).fileName, 0, fs.entryName n ++ [0]⟩
  else Transfer.fail 0

/-- A descriptor: the address of the PCB and the number. -/
abbrev Descriptor := UInt32 × Nat

/-- The history: what the reads on each open directory descriptor delivered since its `open`, and the
    descriptor of the last directory read of the system. -/
structure Listings where
  results : Descriptor → Option (List Transfer)
  last : Option Descriptor

/-- The read goes to `dir_readnew`. -/
def Kernel.ReadsDir (k : Kernel) (fd : Int) (buf : UInt32) (nbytes : Int) : Prop :=
  0 ≤ nbytes ∧ buf ≠ 0 ∧ 0 ≤ fd ∧ fd < 8 ∧ ((k.pcb k.currentPcb).fdsArray fd.toNat).flags = dirFlag

instance (k : Kernel) (fd : Int) (buf : UInt32) (nbytes : Int) :
    Decidable (k.ReadsDir fd buf nbytes) :=
  inferInstanceAs (Decidable (_ ∧ _ ∧ _ ∧ _ ∧ _))

/-- The history behind a call of `open`: a slot that was filled in for a directory starts with nothing
    read, one for another file is no directory. -/
def noteListing (fs : FileSys) (k : Kernel) (filename : List UInt8) (g : Listings) : Listings :=
  match fs.readDentryByName filename with
  | some d =>
      if 2 ≤ (k.openFile fs filename).1 then
        { g with
          results := Function.update g.results
            (getPcbPointer k.currProcess, (k.openFile fs filename).1.toNat)
            (if d.fileType = dirType then some [] else none) }
      else g
  | none => g

/-- The history after one more event. -/
def listingsAfter (fs : FileSys) (k : Kernel) (e : Event) (_ : Kernel) (g : Listings) : Listings :=
  match e with
  | .openFile filename => noteListing fs k filename g
  | .close fd =>
      if (k.close fd).1 = 0 then
        { g with results := Function.update g.results (getPcbPointer k.currProcess, fd.toNat) none }
      else g
  | .read fd buf nbytes =>
      if k.ReadsDir fd buf nbytes then
        { results := Function.update g.results (k.currentPcb, fd.toNat)
            ((g.results (k.currentPcb, fd.toNat)).map (· ++ [(k.dirReadnew fs).1]))
          last := some (k.currentPcb, fd.toNat) }
      else g
  | _ => g

/-- Every open directory descriptor has delivered the names from the first entry on, in order. -/
def Listed (fs : FileSys) (g : Listings) : Prop :=
  ∀ d l, g.results d = some l → l = (List.range l.length).map fs.listed

/-- The reads that stay clear of other listings: the first one on a descriptor is made while the index
    is 0; a later one follows a read on the same descriptor, which has not read 0 yet. -/
def ListStepOk (fs : FileSys) (s : Kernel × Listings) : Event → Prop
  | .read fd buf nbytes =>
      s.1.ReadsDir fd buf nbytes → ∀ l, s.2.results (s.1.currentPcb, fd.toNat) = some l →
        (l = [] ∧ s.1.dirReadIdxNew = 0)
          ∨ (l ≠ [] ∧ s.2.last = some (s.1.currentPcb, fd.toNat) ∧ l.length ≤ fs.numDentries)
  | _ => True

/-! ## One read -/

section Read

variable {fs : FileSys} {k : Kernel}

theorem read_eq_dirReadnew {fd : Int} {buf : UInt32} {nbytes : Int}
    (h : k.ReadsDir fd buf nbytes) : k.read fs fd buf nbytes = some (k.dirReadnew fs) := by
  obtain ⟨hn, hbuf, hlo, hhi, hflags⟩ := h
  have hrange : ¬ (nbytes < 0 ∨ buf = 0 ∨ fd > (maxFile : Int) - 1 ∨ fd < 0) := by
    simp only [maxFile, hbuf, false_or]
    omega
  have hflags' : ((k.pcb k.currentPcb).fdsArray fd.toNat).flags.toNat = 5 :=
    congrArg UInt32.toNat hflags
  unfold Kernel.read
  rw [if_neg hrange, hflags']
  rfl

/-- A read delivers the entry at the index, and moves the index on or back to 0. -/
theorem dirReadnew_eq (fs : FileSys) (k : Kernel) :
    (k.dirReadnew fs).1 = fs.listed k.dirReadIdxNew
      ∧ (k.dirReadnew fs).2.dirReadIdxNew
        = if k.dirReadIdxNew < fs.numDentries then k.dirReadIdxNew + 1 else 0 := by
  unfold Kernel.dirReadnew FileSys.listed
  by_cases h : k.dirReadIdxNew < fs.numDentries
  · rw [if_neg (Nat.not_le.2 h), if_pos h, if_pos h]
    exact ⟨rfl, rfl⟩
  · rw [if_pos (Nat.not_lt.1 h), if_neg h, if_neg h]
    exact ⟨rfl, rfl⟩

/-- The names tell the entries apart. -/
theorem listed_eq_iff (hwf : fs.WellFormed) (m n : Nat) :
    fs.listed m = fs.listed n
      ↔ m < fs.numDentries ∧ m = n ∨ fs.numDentries ≤ m ∧ fs.numDentries ≤ n := by
  unfold FileSys.listed
  by_cases hm : m < fs.numDentries
  · by_cases hn : n < fs.numDentries
    · rw [if_pos hm, if_pos hn]
      constructor
      · intro h
        have hname : fs.entryName m = fs.entryName n :=
          (List.append_inj' (congrArg Transfer.bytes h) rfl).1
        exact Or.inl ⟨hm, hwf.name_inj m n hm hn hname⟩
      · rintro (⟨-, rfl⟩ | ⟨hge, -⟩)
        · rfl
        · exact absurd hm (Nat.not_lt.2 hge)
    · rw [if_pos hm, if_neg hn]
      constructor
      · intro h
        exact absurd (congrArg Transfer.bytes h) (List.concat_ne_nil _ _)
      · rintro (⟨-, rfl⟩ | ⟨hge, -⟩)
        · exact absurd hm hn
        · exact absurd hm (Nat.not_lt.2 hge)
  · by_cases hn : n < fs.numDentries
    · rw [if_neg hm, if_pos hn]
      constructor
      · intro h
        exact absurd (congrArg Transfer.bytes h).symm (List.concat_ne_nil _ _)
      · rintro (⟨hlt, -⟩ | ⟨-, hge⟩)
        · exact absurd hlt hm
        · exact absurd hn (Nat.not_lt.2 hge)
    · rw [if_neg hm, if_neg hn]
      exact ⟨fun _ => Or.inr ⟨Nat.not_lt.1 hm, Nat.not_lt.1 hn⟩, fun _ => rfl⟩

end Read

/-! ## The other events leave the index alone -/

section Index

variable {lay : Layout} {fs : FileSys}

theorem dirReadIdxNew_putc (k : Kernel) (c : UInt8) : (k.putc c).dirReadIdxNew = k.dirReadIdxNew := by
  unfold Kernel.putc
  dsimp only
  split_ifs <;> rfl

theorem dirReadIdxNew_puts (k : Kernel) (s : List UInt8) :
    (k.puts s).dirReadIdxNew = k.dirReadIdxNew :=
  Kernel.field_foldl (·.dirReadIdxNew) dirReadIdxNew_putc s k

theorem dirReadIdxNew_execute (k : Kernel) (command : List UInt8) (env : ExecEnv) :
    (k.execute fs command env).2.dirReadIdxNew = k.dirReadIdxNew := by
  rcases k.devices_execute fs command env with ⟨-, hd⟩ | ⟨-, hfull⟩
  · exact congrArg Devices.dirReadIdxNew hd
  · rw [hfull]
    exact dirReadIdxNew_puts k _

theorem dirReadIdxNew_haltWith (k : Kernel) (eax : UInt32) (env : ExecEnv) :
    (k.haltWith fs eax env).2.dirReadIdxNew = k.dirReadIdxNew := by
  rcases k.devices_haltWith fs eax env with hd | ⟨m, hm, hd⟩
  · exact congrArg Devices.dirReadIdxNew hd
  · refine (congrArg Devices.dirReadIdxNew hd).trans ?_
    exact (dirReadIdxNew_puts m _).trans (congrArg Devices.dirReadIdxNew hm)

theorem dirReadIdxNew_write {k : Kernel} {fd : Int} {buf : UInt32} {bytes : List UInt8} {nbytes : Int}
    {r : Int × Kernel} (h : k.write fd buf bytes nbytes = some r) :
    r.2.dirReadIdxNew = k.dirReadIdxNew := by
  have hterm : (k.terminalWrite bytes nbytes.toNat).2.dirReadIdxNew = k.dirReadIdxNew := by
    refine Kernel.field_foldl (·.dirReadIdxNew) (fun k i => ?_) _ k
    split_ifs
    · exact dirReadIdxNew_putc k _
    · unfold Kernel.putcNodisplay
      dsimp only
      split_ifs <;> rfl
  unfold Kernel.write at h
  split_ifs at h
  · cases h
    rfl
  · split at h <;> cases h
    · rfl
    · unfold Kernel.keyboardWrite
      split_ifs
      · exact Kernel.field_foldl (·.dirReadIdxNew) (fun k i => dirReadIdxNew_putc k _) _ k
      · rfl
    · exact hterm
    · unfold Kernel.rtcWrite Kernel.setRate
      split_ifs
      · rfl
      · split <;> rfl
    · rfl
    · rfl

theorem dirReadIdxNew_read {k : Kernel} {fd : Int} {buf : UInt32} {nbytes : Int}
    {r : Transfer × Kernel} (hnot : ¬ k.ReadsDir fd buf nbytes)
    (h : k.read fs fd buf nbytes = some r) : r.2.dirReadIdxNew = k.dirReadIdxNew := by
  unfold Kernel.read at h
  split_ifs at h with hrange
  · cases h
    rfl
  · split at h
    · cases h
      rfl
    · unfold Kernel.keyboardRead at h
      split_ifs at h
      cases h
      rfl
    · cases h
      rfl
    · unfold Kernel.rtcRead at h
      split_ifs at h
      cases h
      rfl
    · cases h
      rfl
    · next hflags =>
        simp only [maxFile, not_or] at hrange
        exact absurd ⟨by omega, hrange.2.1, by omega, by omega, UInt32.toNat_inj.1 hflags⟩ hnot
    · cases h

theorem dirReadIdxNew_openTerminal (k : Kernel) (newt : Nat) (frame : Frame) (env : ExecEnv) :
    (k.openTerminal fs newt frame env).2.dirReadIdxNew = k.dirReadIdxNew := by
  unfold Kernel.openTerminal
  dsimp only
  rw [dirReadIdxNew_execute]
  unfold Kernel.clear
  split_ifs <;> rfl

/-- **Only a directory read moves the index.** -/
theorem dirReadIdxNew_step {k k' : Kernel} {e : Event} (hstep : k.step lay fs e = some k')
    (hnot : ∀ fd buf nbytes, e = .read fd buf nbytes → ¬ k.ReadsDir fd buf nbytes) :
    k'.dirReadIdxNew = k.dirReadIdxNew := by
  cases e with
  | execute command env =>
      cases hstep
      exact dirReadIdxNew_execute k command env
  | halt status env =>
      cases hstep
      exact dirReadIdxNew_haltWith k _ env
  | haltFromExc env =>
      cases hstep
      exact dirReadIdxNew_haltWith k _ env
  | openFile filename =>
      cases hstep
      exact congrArg Devices.dirReadIdxNew (k.devices_openFile fs filename)
  | close fd =>
      cases hstep
      exact congrArg Devices.dirReadIdxNew (k.devices_close fd)
  | read fd buf nbytes =>
      obtain ⟨r, hr, rfl⟩ := Option.map_eq_some_iff.1 hstep
      exact dirReadIdxNew_read (hnot fd buf nbytes rfl) hr
  | write fd buf bytes nbytes =>
      obtain ⟨r, hr, rfl⟩ := Option.map_eq_some_iff.1 hstep
      exact dirReadIdxNew_write hr
  | vidmap screenStart =>
      cases hstep
      unfold Kernel.vidmap
      split_ifs <;> rfl
  | switchTask frame =>
      obtain ⟨r, hr, rfl⟩ := Option.map_eq_some_iff.1 hstep
      obtain ⟨t, -, rfl⟩ := Option.map_eq_some_iff.1 hr
      exact congrArg Devices.dirReadIdxNew (k.devices_switchTo lay t frame)
  | switchTerminal newt frame env =>
      cases hstep
      unfold Kernel.switchTerminal Kernel.viewTerminal Kernel.backgroundVideo
      dsimp only
      split_ifs
      · rfl
      · rfl
      · exact dirReadIdxNew_openTerminal k newt frame env
      · rfl
      · rfl
  | neighbours past =>
      cases hstep
      rfl

end Index

/-! ## Runs -/

/-- The invariant: what was delivered is in order, and where the last directory read of the system was
    on a descriptor that is still in its listing, the index is behind what that delivered. -/
structure ListingInv (fs : FileSys) (s : Kernel × Listings) : Prop where
  listed : Listed fs s.2
  index : ∀ d l, s.2.last = some d → s.2.results d = some l → l ≠ [] → l.length ≤ fs.numDentries →
    s.1.dirReadIdxNew = l.length

namespace ListingInv

variable {lay : Layout} {fs : FileSys} {k k' : Kernel} {g : Listings}

/-- A descriptor starts with nothing read, or is no directory any more. -/
theorem reset (h : ListingInv fs (k, g)) (hidx : k'.dirReadIdxNew = k.dirReadIdxNew) (d : Descriptor)
    {o : Option (List Transfer)} (ho : ∀ l, o = some l → l = []) :
    ListingInv fs (k', { g with results := Function.update g.results d o }) := by
  constructor
  · intro d' l hl
    dsimp only at hl
    rw [Function.update_apply] at hl
    split_ifs at hl with hd
    · rw [ho l hl]
      rfl
    · exact h.listed d' l hl
  · intro d' l hlast hl hne hle
    dsimp only at hlast hl ⊢
    rw [Function.update_apply] at hl
    split_ifs at hl with hd
    · exact absurd (ho l hl) hne
    · rw [hidx]
      exact h.index d' l hlast hl hne hle

/-- A read on a directory descriptor. -/
theorem read (h : ListingInv fs (k, g)) {fd : Int} {buf : UInt32} {nbytes : Int}
    (hdir : k.ReadsDir fd buf nbytes) (hok : ListStepOk fs (k, g) (.read fd buf nbytes)) :
    ListingInv fs ((k.dirReadnew fs).2, listingsAfter fs k (.read fd buf nbytes) k' g) := by
  obtain ⟨hres, hidx⟩ := dirReadnew_eq fs k
  -- the index is the number of reads since the `open`
  have hat : ∀ l, g.results (k.currentPcb, fd.toNat) = some l →
      k.dirReadIdxNew = l.length ∧ l.length ≤ fs.numDentries := by
    intro l hl
    rcases hok hdir l hl with ⟨rfl, hzero⟩ | ⟨hne, hlast, hle⟩
    · exact ⟨hzero, Nat.zero_le _⟩
    · exact ⟨h.index _ l hlast hl hne hle, hle⟩
  rw [listingsAfter, if_pos hdir]
  constructor
  · intro d l hl
    dsimp only at hl
    rw [Function.update_apply] at hl
    split_ifs at hl with hd
    · obtain ⟨l', hl', rfl⟩ := Option.map_eq_some_iff.1 hl
      have hlen : (l' ++ [(k.dirReadnew fs).1]).length = l'.length + 1 := by simp
      rw [hlen, List.range_succ, List.map_append, ← h.listed _ l' hl', hres, (hat l' hl').1]
      rfl
    · exact h.listed d l hl
  · intro d l hlast hl hne hle
    dsimp only at hlast hl ⊢
    obtain rfl : (k.currentPcb, fd.toNat) = d := Option.some.inj hlast
    rw [Function.update_self] at hl
    obtain ⟨l', hl', rfl⟩ := Option.map_eq_some_iff.1 hl
    rw [List.length_append, List.length_singleton] at hle ⊢
    rw [hidx, (hat l' hl').1, if_pos (by omega)]

theorem openFile (h : ListingInv fs (k, g)) (filename : List UInt8)
    (hidx : k'.dirReadIdxNew = k.dirReadIdxNew) :
    ListingInv fs (k', noteListing fs k filename g) := by
  have hsame : ListingInv fs (k', g) := ⟨h.listed, fun d l h1 h2 h3 h4 => hidx ▸ h.index d l h1 h2 h3 h4⟩
  unfold noteListing
  split
  · split_ifs with hfd hdir
    · exact h.reset hidx _ (fun l hl => (Option.some.inj hl).symm)
    · exact h.reset hidx _ (fun l hl => absurd hl.symm (Option.some_ne_none l))
    · exact hsame
  · exact hsame

/-- One event. -/
theorem step (h : ListingInv fs (k, g)) {e : Event} (hok : ListStepOk fs (k, g) e)
    (hstep : k.step lay fs e = some k') : ListingInv fs (k', listingsAfter fs k e k' g) := by
  have hkeep : k'.dirReadIdxNew = k.dirReadIdxNew → ListingInv fs (k', g) :=
    fun hidx => ⟨h.listed, fun d l h1 h2 h3 h4 => hidx ▸ h.index d l h1 h2 h3 h4⟩
  cases e with
  | openFile filename =>
      exact h.openFile filename (dirReadIdxNew_step hstep (fun _ _ _ he => Event.noConfusion he))
  | close fd =>
      have hidx := dirReadIdxNew_step hstep (fun _ _ _ he => Event.noConfusion he)
      rw [listingsAfter]
      split_ifs
      · exact h.reset hidx _ (fun l hl => absurd hl.symm (Option.some_ne_none l))
      · exact hkeep hidx
  | read fd buf nbytes =>
      by_cases hdir : k.ReadsDir fd buf nbytes
      · obtain ⟨r, hr, rfl⟩ := Option.map_eq_some_iff.1 hstep
        obtain rfl := Option.some.inj ((read_eq_dirReadnew hdir).symm.trans hr)
        exact h.read hdir hok
      · rw [listingsAfter, if_neg hdir]
        refine hkeep (dirReadIdxNew_step hstep (fun fd' buf' nbytes' he => ?_))
        cases he
        exact hdir
  | _ => exact hkeep (dirReadIdxNew_step hstep (fun _ _ _ he => Event.noConfusion he))

end ListingInv

/-- A state with its history, after one more event. -/
def listStep (s : Kernel × Listings) (e : Event) : Kernel × Listings :=
  (withGhost (Kernel.step sampleLayout sampleFs) (listingsAfter sampleFs) s e).getD s

theorem reaches_listStep {ok : Kernel × Listings → Event → Prop} {s₀ s : Kernel × Listings}
    (h : Reaches (withGhost (Kernel.step sampleLayout sampleFs) (listingsAfter sampleFs)) ok s₀ s)
    (e : Event) (hok : ok s e) (hsome : (s.1.step sampleLayout sampleFs e).isSome = true) :
    Reaches (withGhost (Kernel.step sampleLayout sampleFs) (listingsAfter sampleFs)) ok s₀
      (listStep s e) := by
  exact h.tail_getD e hok (by rw [isSome_withGhost]; exact hsome)

/-- The first shell opens the directory. -/
def sampleOpened : Kernel × Listings :=
  listStep (listStep (Kernel.boot sampleLayout sampleMemory, ⟨fun _ => none, none⟩)
    (.execute shellName (sampleEnv 100 101))) (.openFile [46])

theorem reaches_sampleOpened {ok : Kernel × Listings → Event → Prop}
    (hexec : ∀ s command env, ok s (.execute command env)) (hopen : ∀ s name, ok s (.openFile name)) :
    Reaches (withGhost (Kernel.step sampleLayout sampleFs) (listingsAfter sampleFs)) ok
      (Kernel.boot sampleLayout sampleMemory, ⟨fun _ => none, none⟩) sampleOpened :=
  reaches_listStep (reaches_listStep Reaches.refl _ (hexec _ _ _) rfl) _ (hopen _ _) rfl

end UnixTerminal
