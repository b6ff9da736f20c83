import Mathlib.Algebra.Group.Nat.Defs
import Mathlib.Logic.Function.Basic

set_option autoImplicit false

/-! # The string instructions of a 32-bit machine

Memory is bytes by address, and addresses wrap. The string instructions move or store at `edi` and
`esi` and advance both in the direction of the flag `df`; `rep` repeats one of them `ecx` times.

`written m a f lo hi` is the memory that a copy or a fill leaves on its way: `m` with the values `f` at
the offsets `lo, …, hi - 1` from `a`. Stores at either end extend it. -/

namespace UnixTerminal

/-! ## Memory -/

/-- The bytes `l` are stored from `a` on, all at once. -/
def storeBytes (m : UInt32 → UInt8) (a : UInt32) (l : List UInt8) : UInt32 → UInt8 :=
  fun x => if (x - a).toNat < l.length then l.getD (x - a).toNat 0 else m x

/-- The `w` bytes from `a` on. -/
def loadBytes (m : UInt32 → UInt8) (a : UInt32) (w : Nat) : List UInt8 :=
  (List.range w).map (fun i => m (a + UInt32.ofNat i))

/-- The memory `m` with the values `f` at the offsets from `lo` up to `hi` behind `a`. -/
def written (m : UInt32 → UInt8) (a : UInt32) (f : Nat → UInt8) (lo hi : Nat) : UInt32 → UInt8 :=
  fun x => if lo ≤ (x - a).toNat ∧ (x - a).toNat < hi then f (x - a).toNat else m x

variable {m : UInt32 → UInt8} {a : UInt32} {f : Nat → UInt8} {lo hi : Nat}

theorem offset_add (a x : UInt32) {k : Nat} (hk : k < 2 ^ 32) :
    (x - (a + UInt32.ofNat k)).toNat =
      if k ≤ (x - a).toNat then (x - a).toNat - k else (x - a).toNat + 2 ^ 32 - k := by
  have hx := x.toNat_lt
  have ha := a.toNat_lt
  simp only [UInt32.toNat_sub, UInt32.toNat_add, UInt32.toNat_ofNat']
  split <;> omega

theorem offset_self_add (a : UInt32) {k : Nat} (hk : k < 2 ^ 32) : (a + UInt32.ofNat k - a).toNat = k := by
  have ha := a.toNat_lt
  simp only [UInt32.toNat_sub, UInt32.toNat_add, UInt32.toNat_ofNat']
  omega

theorem add_offset (a x : UInt32) : a + UInt32.ofNat (x - a).toNat = x := by
  rw [UInt32.ofNat_toNat, UInt32.add_comm, UInt32.sub_add_cancel]

theorem written_empty (m : UInt32 → UInt8) (a : UInt32) (f : Nat → UInt8) (lo : Nat) :
    written m a f lo lo = m := by
  funext x
  rw [written, if_neg (by omega)]

/-- The bytes that are there. -/
theorem written_at {k : Nat} (hlo : lo ≤ k) (hhi : k < hi) (hk : k < 2 ^ 32) :
    written m a f lo hi (a + UInt32.ofNat k) = f k := by
  rw [written, offset_self_add a hk, if_pos ⟨hlo, hhi⟩]

/-- All other bytes. -/
theorem written_frame {x : UInt32} (h : ∀ k, lo ≤ k → k < hi → x ≠ a + UInt32.ofNat k) :
    written m a f lo hi x = m x := by
  rw [written, if_neg]
  rintro ⟨hlo, hhi⟩
  exact h _ hlo hhi (add_offset a x).symm

/-- Stores behind what is there. -/
theorem storeBytes_written_up {l : List UInt8} (hl : ∀ i < l.length, l.getD i 0 = f (hi + i))
    (hlo : lo ≤ hi) (hroom : hi + l.length ≤ 2 ^ 32) :
    storeBytes (written m a f lo hi) (a + UInt32.ofNat hi) l = written m a f lo (hi + l.length) := by
  by_cases hnil : l.length = 0
  · funext x
    simp [storeBytes, hnil]
  funext x
  have hx := (x - a).toNat_lt
  simp only [storeBytes, written, offset_add a x (by omega : hi < 2 ^ 32)]
  generalize (x - a).toNat = d at hx ⊢
  by_cases hd : hi ≤ d
  · rw [if_pos hd]
    by_cases hin : d - hi < l.length
    · rw [if_pos hin, if_pos (by omega), hl _ hin, Nat.add_sub_cancel' hd]
    · rw [if_neg hin, if_neg (by omega), if_neg (by omega)]
  · have hiff : (lo ≤ d ∧ d < hi) ↔ (lo ≤ d ∧ d < hi + l.length) := by omega
    rw [if_neg hd, if_neg (by omega)]
    simp only [hiff]

/-- Stores in front of what is there. -/
theorem storeBytes_written_down {l : List UInt8} (hl : ∀ i < l.length, l.getD i 0 = f (lo + i))
    (hlo : lo + l.length ≤ hi) (hroom : hi ≤ 2 ^ 32) :
    storeBytes (written m a f (lo + l.length) hi) (a + UInt32.ofNat lo) l = written m a f lo hi := by
  by_cases hnil : l.length = 0
  · funext x
    simp [storeBytes, hnil]
  funext x
  have hx := (x - a).toNat_lt
  simp only [storeBytes, written, offset_add a x (by omega : lo < 2 ^ 32)]
  generalize (x - a).toNat = d at hx ⊢
  by_cases hd : lo ≤ d
  · rw [if_pos hd]
    by_cases hin : d - lo < l.length
    · rw [if_pos hin, if_pos (by omega), hl _ hin, Nat.add_sub_cancel' hd]
    · have hiff : (lo + l.length ≤ d ∧ d < hi) ↔ (lo ≤ d ∧ d < hi) := by omega
      rw [if_neg hin]
      simp only [hiff]
  · rw [if_neg hd, if_neg (by omega), if_neg (by omega), if_neg (by omega)]

/-- Loads of bytes that the stores did not reach. -/
theorem loadBytes_written {src : UInt32} {w : Nat}
    (h : ∀ i < w, ∀ k, lo ≤ k → k < hi → src + UInt32.ofNat i ≠ a + UInt32.ofNat k) :
    loadBytes (written m a f lo hi) src w = loadBytes m src w :=
  List.map_congr_left (fun i hi => written_frame (h i (List.mem_range.1 hi)))

theorem getD_loadBytes (m : UInt32 → UInt8) (a : UInt32) {w i : Nat} (hi : i < w) :
    (loadBytes m a w).getD i 0 = m (a + UInt32.ofNat i) := by
  simp [loadBytes, List.getD_eq_getElem?_getD, hi]

theorem length_loadBytes (m : UInt32 → UInt8) (a : UInt32) (w : Nat) : (loadBytes m a w).length = w := by
  simp [loadBytes]

/-! ## The machine -/

/-- The registers that the string instructions use, and memory. -/
structure StringMachine where
  mem : UInt32 → UInt8
  eax : UInt32
  ecx : UInt32
  edx : UInt32
  esi : UInt32
  edi : UInt32
  df : Bool

/-- The bytes of a doubleword, the lowest first. -/
def dwordBytes (v : UInt32) : List UInt8 :=
  [v.toUInt8, (v >>> 8).toUInt8, (v >>> 16).toUInt8, (v >>> 24).toUInt8]

namespace StringMachine

/-- A pointer behind a string instruction on `w` bytes. -/
def advance (s : StringMachine) (w p : UInt32) : UInt32 := if s.df then p - w else p + w

/-- `stosl`. -/
def stosl (s : StringMachine) : StringMachine :=
  { s with mem := storeBytes s.mem s.edi (dwordBytes s.eax), edi := s.advance 4 s.edi }

/-- `movsl` and `movsb`. -/
def movs (w : Nat) (s : StringMachine) : StringMachine :=
  { s with
    mem := storeBytes s.mem s.edi (loadBytes s.mem s.esi w)
    esi := s.advance (UInt32.ofNat w) s.esi
    edi := s.advance (UInt32.ofNat w) s.edi }

/-- `n` times, counted down in `ecx`. -/
def repeatTimes (op : StringMachine → StringMachine) : Nat → StringMachine → StringMachine
  | 0, s => s
  | n + 1, s => repeatTimes op n { op s with ecx := (op s).ecx - 1 }

/-- The prefix `rep`. -/
def rep (op : StringMachine → StringMachine) (s : StringMachine) : StringMachine := repeatTimes op s.ecx.toNat s

/-- What each repetition carries on. -/
theorem repeatTimes_invariant {op : StringMachine → StringMachine} {I : Nat → StringMachine → Prop} {n : Nat}
    (hstep : ∀ k s, k < n → I k s → I (k + 1) { op s with ecx := (op s).ecx - 1 }) {s : StringMachine}
    (h : I 0 s) : I n (repeatTimes op n s) := by
  -- by induction on the repetitions that are left
  have hleft : ∀ j k s, k + j = n → I k s → I n (repeatTimes op j s) := by
    intro j
    induction j with
    | zero =>
        intro k s hk hs
        obtain rfl : k = n := hk
        exact hs
    | succ j ih =>
        intro k s hk hs
        exact ih (k + 1) _ (by omega) (hstep k s (by omega) hs)
  exact hleft n 0 s (Nat.zero_add n) h

/-- A register that the instruction does not touch. -/
theorem rep_edx (op : StringMachine → StringMachine) (hop : ∀ s, (op s).edx = s.edx) (s : StringMachine) :
    (rep op s).edx = s.edx :=
  repeatTimes_invariant (I := fun _ t => t.edx = s.edx) (fun _ t _ ht => (hop t).trans ht) rfl

theorem rep_df (op : StringMachine → StringMachine) (hop : ∀ s, (op s).df = s.df) (s : StringMachine) :
    (rep op s).df = s.df :=
  repeatTimes_invariant (I := fun _ t => t.df = s.df) (fun _ t _ ht => (hop t).trans ht) rfl

/-- What each repetition carries on while the direction stays `d`. -/
theorem rep_invariant (op : StringMachine → StringMachine) (hop : ∀ s, (op s).df = s.df)
    {I : Nat → StringMachine → Prop} {s : StringMachine} {d : Bool}
    (hstep : ∀ j t, j < s.ecx.toNat → I j t → t.df = d → I (j + 1) { op t with ecx := (op t).ecx - 1 })
    (h : I 0 s) (hdf : s.df = d) : I s.ecx.toNat (rep op s) := by
  have hrun : I s.ecx.toNat (rep op s) ∧ (rep op s).df = d :=
    repeatTimes_invariant (I := fun j t => I j t ∧ t.df = d)
      (fun j t hj ht => ⟨hstep j t hj ht.1 ht.2, (hop t).trans ht.2⟩) ⟨h, hdf⟩
  exact hrun.1

end StringMachine

/-! ## Copies -/

/-- Copying upwards, no byte is read that was written before. -/
def ForwardSafe (dest src : UInt32) (n : Nat) : Prop :=
  ∀ i j, j < i → i < n → src + UInt32.ofNat i ≠ dest + UInt32.ofNat j

/-- Copying downwards, no byte is read that was written before. -/
def BackwardSafe (dest src : UInt32) (n : Nat) : Prop :=
  ∀ i j, i < j → j < n → src + UInt32.ofNat i ≠ dest + UInt32.ofNat j

variable {dest src : UInt32} {n k : Nat} {s : StringMachine}

/-- The machine behind the first `k` bytes of a copy upwards. -/
structure CopiedTo (m : UInt32 → UInt8) (dest src : UInt32) (k : Nat) (s : StringMachine) : Prop where
  mem : s.mem = written m dest (fun i => m (src + UInt32.ofNat i)) 0 k
  esi : s.esi = src + UInt32.ofNat k
  edi : s.edi = dest + UInt32.ofNat k

/-- Load `w` bytes and store them. -/
theorem CopiedTo.store (h : CopiedTo m dest src k s) (hsafe : ForwardSafe dest src n) {w : Nat}
    (hk : k + w ≤ n) (hn : n ≤ 2 ^ 32) :
    storeBytes s.mem s.edi (loadBytes s.mem s.esi w)
      = written m dest (fun i => m (src + UInt32.ofNat i)) 0 (k + w) := by
  have hload : loadBytes s.mem s.esi w = loadBytes m (src + UInt32.ofNat k) w := by
    rw [h.mem, h.esi]
    refine loadBytes_written (fun i hi j _ hj => ?_)
    rw [UInt32.add_assoc, ← UInt32.ofNat_add]
    exact hsafe (k + i) j (by omega) (by omega)
  have hlen : (loadBytes m (src + UInt32.ofNat k) w).length = w := length_loadBytes _ _ _
  rw [hload, h.mem, h.edi]
  refine (storeBytes_written_up (fun i hi => ?_) (Nat.zero_le k) (by omega)).trans (by rw [hlen])
  rw [hlen] at hi
  rw [getD_loadBytes _ _ hi, UInt32.add_assoc, ← UInt32.ofNat_add]

theorem CopiedTo.movs (h : CopiedTo m dest src k s) (hdf : s.df = false) (hsafe : ForwardSafe dest src n)
    {w : Nat} (hk : k + w ≤ n) (hn : n ≤ 2 ^ 32) : CopiedTo m dest src (k + w) (s.movs w) := by
  refine ⟨h.store hsafe hk hn, ?_, ?_⟩
  · simp only [StringMachine.movs, StringMachine.advance, hdf, h.esi, UInt32.ofNat_add, UInt32.add_assoc]
    rfl
  · simp only [StringMachine.movs, StringMachine.advance, hdf, h.edi, UInt32.ofNat_add, UInt32.add_assoc]
    rfl

/-- **A repeated move upwards.** -/
theorem CopiedTo.rep (h : CopiedTo m dest src k s) (hdf : s.df = false) (hsafe : ForwardSafe dest src n)
    {w : Nat} (hk : k + s.ecx.toNat * w ≤ n) (hn : n ≤ 2 ^ 32) :
    CopiedTo m dest src (k + s.ecx.toNat * w) (StringMachine.rep (StringMachine.movs w) s) := by
  refine StringMachine.rep_invariant (StringMachine.movs w) (fun _ => rfl)
    (I := fun j t => CopiedTo m dest src (k + j * w) t) (fun j t hj ht htdf => ?_) ?_ hdf
  · have hle : (j + 1) * w ≤ s.ecx.toNat * w := Nat.mul_le_mul_right w hj
    rw [Nat.succ_mul] at hle
    have hmove := ht.movs htdf hsafe (w := w) (by omega) hn
    rw [Nat.add_assoc, ← Nat.succ_mul] at hmove
    exact ⟨hmove.mem, hmove.esi, hmove.edi⟩
  · rw [Nat.zero_mul, Nat.add_zero]
    exact h

/-- The machine behind a copy downwards of the bytes from `lo` on. -/
structure CopiedFrom (m : UInt32 → UInt8) (dest src : UInt32) (lo hi : Nat) (s : StringMachine) : Prop where
  mem : s.mem = written m dest (fun i => m (src + UInt32.ofNat i)) lo hi
  esi : s.esi = src + UInt32.ofNat lo - 1
  edi : s.edi = dest + UInt32.ofNat lo - 1

theorem CopiedFrom.movsb {lo : Nat} (h : CopiedFrom m dest src (lo + 1) n s) (hdf : s.df = true)
    (hsafe : BackwardSafe dest src n) (hlo : lo < n) (hn : n ≤ 2 ^ 32) :
    CopiedFrom m dest src lo n (s.movs 1) := by
  have hpointer : ∀ p : UInt32, p + UInt32.ofNat (lo + 1) - 1 = p + UInt32.ofNat lo := by
    intro p
    rw [UInt32.ofNat_add, ← UInt32.add_assoc]
    exact UInt32.add_sub_cancel _ _
  have hesi : s.esi = src + UInt32.ofNat lo := h.esi.trans (hpointer src)
  have hedi : s.edi = dest + UInt32.ofNat lo := h.edi.trans (hpointer dest)
  refine ⟨?_, ?_, ?_⟩
  · have hload : loadBytes s.mem s.esi 1 = loadBytes m (src + UInt32.ofNat lo) 1 := by
      rw [h.mem, hesi]
      refine loadBytes_written (fun i hi j hj hjn => ?_)
      rw [UInt32.add_assoc, ← UInt32.ofNat_add]
      exact hsafe (lo + i) j (by omega) hjn
    have hlen : (loadBytes m (src + UInt32.ofNat lo) 1).length = 1 := length_loadBytes _ _ _
    simp only [StringMachine.movs]
    rw [hload, h.mem, hedi]
    refine storeBytes_written_down (fun i hi => ?_) (by omega) hn
    rw [hlen] at hi
    rw [getD_loadBytes _ _ hi, UInt32.add_assoc, ← UInt32.ofNat_add]
  · simp only [StringMachine.movs, StringMachine.advance, hdf, hesi, if_true]
    rfl
  · simp only [StringMachine.movs, StringMachine.advance, hdf, hedi, if_true]
    rfl

/-- **A repeated move downwards.** -/
theorem CopiedFrom.rep (h : CopiedFrom m dest src s.ecx.toNat s.ecx.toNat s) (hdf : s.df = true)
    (hsafe : BackwardSafe dest src s.ecx.toNat) :
    CopiedFrom m dest src 0 s.ecx.toNat (StringMachine.rep (StringMachine.movs 1) s) := by
  have hn := s.ecx.toNat_lt
  have hrun := StringMachine.rep_invariant (StringMachine.movs 1) (fun _ => rfl)
    (I := fun j t => CopiedFrom m dest src (s.ecx.toNat - j) s.ecx.toNat t) (fun j t hj ht htdf => ?_) h hdf
  · rwa [Nat.sub_self] at hrun
  · have hlo : s.ecx.toNat - j = s.ecx.toNat - (j + 1) + 1 := by omega
    rw [hlo] at ht
    have hmove := ht.movsb htdf hsafe (by omega) (by omega)
    exact ⟨hmove.mem, hmove.esi, hmove.edi⟩

/-! ## Fills -/

/-- The machine behind the first `k` bytes of a fill with `c`, which `eax` holds four times. -/
structure FilledTo (m : UInt32 → UInt8) (dest : UInt32) (c : UInt8) (k : Nat) (s : StringMachine) : Prop where
  mem : s.mem = written m dest (fun _ => c) 0 k
  edi : s.edi = dest + UInt32.ofNat k
  eax : dwordBytes s.eax = List.replicate 4 c

theorem FilledTo.stosl {c : UInt8} (h : FilledTo m dest c k s) (hdf : s.df = false) (hk : k + 4 ≤ 2 ^ 32) :
    FilledTo m dest c (k + 4) s.stosl := by
  refine ⟨?_, ?_, h.eax⟩
  · simp only [StringMachine.stosl]
    rw [h.mem, h.edi, h.eax]
    refine (storeBytes_written_up (fun i hi => ?_) (Nat.zero_le k) (by simpa using hk)).trans (by simp)
    rw [List.length_replicate] at hi
    rw [List.getD_eq_getElem?_getD, List.getElem?_replicate, if_pos hi, Option.getD_some]
  · simp only [StringMachine.stosl, StringMachine.advance, hdf, h.edi, UInt32.ofNat_add, UInt32.add_assoc]
    rfl

/-- **A repeated store upwards.** -/
theorem FilledTo.rep {c : UInt8} (h : FilledTo m dest c k s) (hdf : s.df = false)
    (hk : k + s.ecx.toNat * 4 ≤ 2 ^ 32) :
    FilledTo m dest c (k + s.ecx.toNat * 4) (StringMachine.rep StringMachine.stosl s) := by
  refine StringMachine.rep_invariant StringMachine.stosl (fun _ => rfl)
    (I := fun j t => FilledTo m dest c (k + j * 4) t) (fun j t hj ht htdf => ?_) h hdf
  have hstore := ht.stosl htdf (by omega)
  rw [Nat.add_assoc, ← Nat.succ_mul] at hstore
  exact ⟨hstore.mem, hstore.edi, hstore.eax⟩

end UnixTerminal
