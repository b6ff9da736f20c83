import UnixTerminal.Library.LinkedList
import UnixTerminal.Programs.Blink
import Mathlib.Data.List.Perm.Subperm

set_option autoImplicit false

/-! # The list of blinks

`BlinkBoard` is what `blink.S` is for: a list of blinks and a screen. A command works on the first blink at a
location, and the tasklet on all of them. `Represents` says how the linked list in `blink_array` holds such a
list: the slots that are linked are those with a location other than 0, which is how `mp1_malloc` tells that
a slot is in use. Every command then does what it does on the board, and every loop ends.

A blink at location 0 is linked in a slot that counts as free. The next one goes into the same slot, and its
link leads back to itself. -/

namespace UnixTerminal

/-! ## The board -/

/-- The blinks, the newest first, and the screen. -/
structure BlinkBoard where
  blinks : List Blink
  vmem : Nat → UInt8

/-- Apply `g` to the first element with `p`. -/
def updateFirst {α : Type} (p : α → Bool) (g : α → α) : List α → List α
  | [] => []
  | a :: l => if p a then g a :: l else a :: updateFirst p g l

/-- The blink is at the location. -/
def Blink.isAt (location : UInt16) (b : Blink) : Bool := b.location == location

/-- What the tasklet shows of one blink. -/
def pokeTick (vmem : Nat → UInt8) (b : Blink) : Nat → UInt8 :=
  match b.tick.2 with
  | some c => Function.update vmem b.offset c
  | none => vmem

namespace BlinkBoard

variable (s : BlinkBoard)

/-- The commands on a board. -/
def call : FishCall → FishReply × BlinkBoard
  | .mp1IoctlAdd user =>
      if user.location.toNat < blinkSlots ∧ s.blinks.length < blinkSlots then
        (.plain 0, ⟨user.fresh :: s.blinks, Function.update s.vmem user.toBlink.offset user.onChar⟩)
      else (.plain (-1), s)
  | .mp1IoctlRemove arg =>
      match s.blinks.find? (Blink.isAt arg.toUInt16) with
      | some _ => (.plain 0, { s with blinks := s.blinks.eraseP (Blink.isAt arg.toUInt16) })
      | none => (.plain (-1), s)
  | .mp1IoctlFind location =>
      match s.blinks.find? (Blink.isAt location) with
      | some b => (⟨0, some b⟩, s)
      | none => (.plain (-1), s)
  | .mp1IoctlSync arg =>
      match s.blinks.find? (Blink.isAt (arg >>> 16).toUInt16), s.blinks.find? (Blink.isAt arg.toUInt16) with
      | some source, some b =>
          (.plain 0,
            ⟨updateFirst (Blink.isAt arg.toUInt16) (·.syncFrom source) s.blinks,
              Function.update s.vmem b.offset b.offChar⟩)
      | _, _ => (.plain (-1), s)
  | .mp1RtcTasklet => (.plain 0, ⟨s.blinks.map (·.tick.1), s.blinks.foldl pokeTick s.vmem⟩)

/-- The calls of a program, one after the other. -/
def run : List FishCall → BlinkBoard → List FishReply × BlinkBoard
  | [], s => ([], s)
  | c :: calls, s => ((s.call c).1 :: (run calls (s.call c).2).1, (run calls (s.call c).2).2)

end BlinkBoard

/-- The call adds no blink at location 0. -/
def FishCall.Located : FishCall → Prop
  | .mp1IoctlAdd user => user.location ≠ 0
  | _ => True

/-! ## Representation -/

/-- The member `next` of every slot. -/
def Fish.next (f : Fish) (i : Nat) : Option Nat := (f.blinkArray i).next

/-- The list of the board lies in the slots `nodes`, which are those in use. -/
structure Represents (f : Fish) (s : BlinkBoard) (nodes : List Nat) : Prop where
  chained : Chained f.next f.mp1ListHead nodes
  blinks : s.blinks = nodes.map (fun i => (f.blinkArray i).toBlink)
  vmem : s.vmem = f.vmem
  slots : ∀ i, i ∈ nodes ↔ i < blinkSlots ∧ (f.blinkArray i).location ≠ 0

theorem represents_start (vmem : Nat → UInt8) : Represents (Fish.start vmem) ⟨[], vmem⟩ [] := by
  refine ⟨chained_nil _, rfl, rfl, fun i => ?_⟩
  simp [Fish.start, BlinkStruct.zero]

section Calls

variable {f : Fish} {s : BlinkBoard} {nodes : List Nat}

/-! ### `mp1_find_helper` -/

/-- The search returns the slot of the first blink at the location. -/
theorem Represents.yields_find (h : Represents f s nodes) (ax : UInt16) :
    Yields (fun fuel => f.mp1FindHelper fuel ax)
      (nodes.find? (fun i => (f.blinkArray i).toBlink.isAt ax)) := by
  refine (h.chained.breaks_search rfl (fun i => ?_)).yields
  simp only [Fish.findPass, Blink.isAt, beq_iff_eq, Fish.next]

theorem Represents.find?_blinks (h : Represents f s nodes) (p : Blink → Bool) :
    s.blinks.find? p = (nodes.find? (fun i => p (f.blinkArray i).toBlink)).map
      (fun i => (f.blinkArray i).toBlink) := by
  rw [h.blinks, List.find?_map]
  rfl

/-! ### `mp1_malloc` -/

theorem Represents.length_le (h : Represents f s nodes) : nodes.length ≤ blinkSlots := by
  have hsub : nodes ⊆ List.range blinkSlots := fun i hi => List.mem_range.2 ((h.slots i).1 hi).1
  simpa using (h.chained.nodup.subperm hsub).length_le

theorem Represents.mp1Malloc_some (h : Represents f s nodes) {i : Nat} (hi : f.mp1Malloc = some i) :
    i < blinkSlots ∧ i ∉ nodes ∧ nodes.length < blinkSlots := by
  have hlt := List.mem_range.1 (List.mem_of_find?_eq_some hi)
  have hfree : (f.blinkArray i).location = 0 := by simpa using List.find?_some hi
  have hmem : i ∉ nodes := fun hmem => ((h.slots i).1 hmem).2 hfree
  refine ⟨hlt, hmem, ?_⟩
  -- with `i` in front they are still different slots
  have hsub : i :: nodes ⊆ List.range blinkSlots := by
    intro j hj
    rcases List.mem_cons.1 hj with rfl | hj
    · exact List.mem_range.2 hlt
    · exact List.mem_range.2 ((h.slots j).1 hj).1
  have hle := ((List.nodup_cons.2 ⟨hmem, h.chained.nodup⟩).subperm hsub).length_le
  rw [List.length_cons, List.length_range] at hle
  exact hle

theorem Represents.mp1Malloc_none (h : Represents f s nodes) (hnone : f.mp1Malloc = none) :
    nodes.length = blinkSlots := by
  refine Nat.le_antisymm h.length_le ?_
  have hsub : List.range blinkSlots ⊆ nodes := by
    intro i hi
    refine (h.slots i).2 ⟨List.mem_range.1 hi, fun hzero => ?_⟩
    exact List.find?_eq_none.1 hnone i hi (by simp [hzero])
  simpa using (List.nodup_range.subperm hsub).length_le

/-! ### Stores that keep the links -/

@[simp] theorem next_setBlink (f : Fish) (i : Nat) (b : Blink) : (f.setBlink i b).next = f.next := by
  funext j
  simp only [Fish.next, Fish.setBlink, Function.update_apply]
  split
  next hj => rw [hj]
  next => rfl

@[simp] theorem next_mp1Poke (f : Fish) (offset : Nat) (c : UInt8) : (f.mp1Poke offset c).next = f.next := rfl

theorem toBlink_setBlink (f : Fish) (i j : Nat) (b : Blink) :
    ((f.setBlink i b).blinkArray j).toBlink = if j = i then b else (f.blinkArray j).toBlink := by
  simp only [Fish.setBlink, Function.update_apply]
  split <;> rfl

/-- A store to a structure of the list that keeps its location. -/
theorem Represents.setBlink (h : Represents f s nodes) {i : Nat} {b : Blink}
    (hloc : b.location = (f.blinkArray i).location) :
    Represents (f.setBlink i b) ⟨nodes.map (fun j => if j = i then b else (f.blinkArray j).toBlink), s.vmem⟩
      nodes := by
  refine ⟨?_, ?_, h.vmem, fun j => ?_⟩
  · rw [next_setBlink]
    exact h.chained
  · simp only [toBlink_setBlink]
  · rw [h.slots j, show ((f.setBlink i b).blinkArray j).location = (f.blinkArray j).location from ?_]
    rw [toBlink_setBlink]
    split
    next hj => rw [hj, hloc]
    next => rfl

theorem Represents.mp1Poke (h : Represents f s nodes) (offset : Nat) (c : UInt8) :
    Represents (f.mp1Poke offset c) ⟨s.blinks, Function.update s.vmem offset c⟩ nodes :=
  ⟨h.chained, h.blinks, by rw [h.vmem]; rfl, h.slots⟩

/-! ### The tasklet -/

theorem Blink.location_tick (b : Blink) : b.tick.1.location = b.location := by
  simp only [Blink.tick]
  split_ifs <;> rfl

@[simp] theorem next_blinkAt (f : Fish) (i : Nat) : (f.blinkAt i).next = f.next := by
  simp only [Fish.blinkAt]
  split <;> simp

theorem vmem_blinkAt (f : Fish) (i : Nat) :
    (f.blinkAt i).vmem = pokeTick f.vmem (f.blinkArray i).toBlink := by
  have hoffset : (f.blinkArray i).tick.1.offset = (f.blinkArray i).offset := by
    rw [Blink.offset, Blink.location_tick, Blink.offset]
  simp only [Fish.blinkAt, pokeTick]
  cases hc : (f.blinkArray i).tick.2 with
  | some c => exact congrArg (Function.update f.vmem · c) hoffset
  | none => rfl

theorem toBlink_blinkAt (f : Fish) (i j : Nat) : ((f.blinkAt i).blinkArray j).toBlink
    = if j = i then (f.blinkArray i).toBlink.tick.1 else (f.blinkArray j).toBlink := by
  rw [← toBlink_setBlink]
  simp only [Fish.blinkAt]
  split <;> rfl

theorem mp1ListHead_blinkAt (f : Fish) (i : Nat) : (f.blinkAt i).mp1ListHead = f.mp1ListHead := by
  simp only [Fish.blinkAt]
  split <;> rfl

/-- All structures of a list, one after the other. -/
theorem foldl_blinkAt (l : List Nat) : ∀ (f : Fish), l.Nodup →
    (l.foldl Fish.blinkAt f).next = f.next ∧ (l.foldl Fish.blinkAt f).mp1ListHead = f.mp1ListHead ∧
    (l.foldl Fish.blinkAt f).vmem = (l.map (fun i => (f.blinkArray i).toBlink)).foldl pokeTick f.vmem ∧
    ∀ j, ((l.foldl Fish.blinkAt f).blinkArray j).toBlink
      = if j ∈ l then (f.blinkArray j).toBlink.tick.1 else (f.blinkArray j).toBlink := by
  induction l with
  | nil => exact fun f _ => ⟨rfl, rfl, rfl, fun j => by simp⟩
  | cons i l ih =>
      intro f hl
      obtain ⟨hi, hl⟩ := List.nodup_cons.1 hl
      obtain ⟨hnext, hhead, hvmem, hblinks⟩ := ih (f.blinkAt i) hl
      simp only [List.foldl_cons, List.map_cons]
      refine ⟨by rw [hnext, next_blinkAt], by rw [hhead, mp1ListHead_blinkAt], ?_, fun j => ?_⟩
      · rw [hvmem, vmem_blinkAt]
        congr 1
        refine List.map_congr_left (fun j hj => ?_)
        rw [toBlink_blinkAt, if_neg (ne_of_mem_of_not_mem hj hi)]
      · rw [hblinks, toBlink_blinkAt]
        by_cases hj : j = i
        · subst hj
          rw [if_neg hi, if_pos rfl, if_pos List.mem_cons_self]
        · rw [if_neg hj]
          simp only [List.mem_cons, hj, false_or]

theorem Represents.tasklet (h : Represents f s nodes) :
    ∃ f', Yields (fun fuel => f.mp1RtcTasklet fuel) f' ∧
      Represents f' (s.call .mp1RtcTasklet).2 nodes := by
  obtain ⟨hnext, hhead, hvmem, hblinks⟩ := foldl_blinkAt nodes f h.chained.nodup
  refine ⟨nodes.foldl Fish.blinkAt f, ?_, ?_, ?_, ?_, fun i => ?_⟩
  · exact (Chained.breaks_visit Fish.next Fish.blinkAt id (fun _ => rfl) (fun _ _ => rfl) next_blinkAt
      h.chained).yields
  · rw [hnext, hhead]
    exact h.chained
  · simp only [BlinkBoard.call, h.blinks, List.map_map]
    refine List.map_congr_left (fun i hi => ?_)
    rw [hblinks, if_pos hi]
    rfl
  · simp only [BlinkBoard.call, h.blinks, hvmem, h.vmem]
  · rw [h.slots, hblinks]
    split
    next => rw [Blink.location_tick]
    next => rfl

/-! ### `mp1_ioctl_add` -/

/-- A blink in a free slot becomes the first of the list. -/
theorem Represents.insertFront (h : Represents f s nodes) {i : Nat} (hi : i < blinkSlots) (hmem : i ∉ nodes)
    {b : Blink} (hloc : b.location ≠ 0) :
    Represents ⟨Function.update f.blinkArray i ⟨b, f.mp1ListHead⟩, some i, f.vmem⟩ ⟨b :: s.blinks, s.vmem⟩
      (i :: nodes) := by
  refine ⟨?_, ?_, h.vmem, fun j => ?_⟩
  · have hnext : Fish.next ⟨Function.update f.blinkArray i ⟨b, f.mp1ListHead⟩, some i, f.vmem⟩
        = Function.update f.next i f.mp1ListHead := by
      funext j
      simp only [Fish.next, Function.update_apply]
      split <;> rfl
    rw [hnext]
    exact h.chained.insert hmem
  · simp only [List.map_cons, Function.update_self, h.blinks]
    congr 1
    refine List.map_congr_left (fun j hj => ?_)
    rw [Function.update_of_ne (ne_of_mem_of_not_mem hj hmem)]
  · simp only [List.mem_cons, h.slots, Function.update_apply]
    by_cases hj : j = i
    · subst hj
      simp [hi, hloc]
    · simp [hj]

theorem Represents.add (h : Represents f s nodes) {user : BlinkStruct} (hloc : user.location ≠ 0) :
    ∃ nodes', (s.call (.mp1IoctlAdd user)).1 = .plain (f.mp1IoctlAdd user).1 ∧
      Represents (f.mp1IoctlAdd user).2 (s.call (.mp1IoctlAdd user)).2 nodes' := by
  have hlen : s.blinks.length = nodes.length := by rw [h.blinks, List.length_map]
  simp only [BlinkBoard.call, Fish.mp1IoctlAdd]
  by_cases hlt : user.location.toNat < blinkSlots
  · rw [if_neg (show ¬ 80 * 25 ≤ user.location.toNat from Nat.not_le.2 hlt)]
    cases hmalloc : f.mp1Malloc with
    | none =>
        rw [if_neg (by rw [hlen, h.mp1Malloc_none hmalloc]; omega)]
        exact ⟨nodes, rfl, h⟩
    | some i =>
        obtain ⟨hi, hmem, hroom⟩ := h.mp1Malloc_some hmalloc
        rw [if_pos ⟨hlt, hlen ▸ hroom⟩]
        exact ⟨i :: nodes, rfl, (h.insertFront (b := user.fresh) hi hmem hloc).mp1Poke _ _⟩
  · rw [if_pos (show 80 * 25 ≤ user.location.toNat from Nat.not_lt.1 hlt), if_neg (fun hboth => hlt hboth.1)]
    exact ⟨nodes, rfl, h⟩

/-! ### `mp1_ioctl_remove` -/

theorem link_eq_linkAt (f : Fish) (place : Option Nat) : f.link place = linkAt f.mp1ListHead f.next place := by
  cases place <;> rfl

/-- The structure `i` is cut out of the list and freed. -/
theorem Represents.cutOut (h : Represents f s nodes) {before after : List Nat} {i : Nat}
    (hnodes : nodes = before ++ i :: after) :
    Represents ((f.setLink (placeBehind before) (f.blinkArray i).next).mp1Free i)
      ⟨(before ++ after).map (fun j => (f.blinkArray j).toBlink), s.vmem⟩ (before ++ after) := by
  subst hnodes
  have hnodup := h.chained.nodup
  have hi : i ∉ before ++ after := fun hmem => by
    have hperm : (before ++ i :: after).Perm (i :: (before ++ after)) := List.perm_middle
    exact (List.nodup_cons.1 (hperm.nodup_iff.1 hnodup)).1 hmem
  have hblink : ∀ j, j ≠ i →
      (((f.setLink (placeBehind before) (f.blinkArray i).next).mp1Free i).blinkArray j).toBlink
        = (f.blinkArray j).toBlink := by
    intro j hj
    simp only [Fish.mp1Free, Function.update_of_ne hj]
    cases placeBehind before with
    | none => rfl
    | some x =>
        simp only [Fish.setLink, Function.update_apply]
        split
        next hx => rw [hx]
        next => rfl
  refine ⟨?_, ?_, ?_, fun j => ?_⟩
  · rcases List.eq_nil_or_concat before with rfl | ⟨front, x, rfl⟩
    · -- the first of the list
      refine (h.chained.2).congr (fun j hj => ?_)
      simp only [Fish.next, Fish.mp1Free, Function.update_of_ne (ne_of_mem_of_not_mem hj hi)]
      rfl
    · rw [List.concat_eq_append] at *
      have hlast : placeBehind (front ++ [x]) = some x := by simp [placeBehind]
      have hchained := h.chained
      rw [List.append_assoc, List.singleton_append] at hchained ⊢
      rw [hlast]
      refine hchained.cut.congr (fun j hj => ?_)
      have hj : j ≠ i := ne_of_mem_of_not_mem (by simpa using hj) hi
      simp only [Fish.next, Fish.mp1Free, Fish.setLink, Function.update_of_ne hj, Function.update_apply]
      split <;> rfl
  · refine List.map_congr_left (fun j hj => ?_)
    rw [hblink j (ne_of_mem_of_not_mem hj hi)]
  · rw [h.vmem]
    cases placeBehind before <;> rfl
  · have hslots := h.slots j
    by_cases hj : j = i
    · subst hj
      simp [Fish.mp1Free, BlinkStruct.zero, hi]
    · rw [hblink j hj, ← hslots]
      simp [hj]

/-- The first hit of a search, and the list without it. -/
theorem exists_split_of_find? {α : Type} {p : α → Bool} {l : List α} {a : α} (h : l.find? p = some a) :
    ∃ before after, l = before ++ a :: after ∧ (∀ x ∈ before, ¬ p x = true) ∧ p a = true ∧
      l.eraseP p = before ++ after := by
  obtain ⟨hp, before, after, rfl, hbefore⟩ := List.find?_eq_some_iff_append.1 h
  have hnot : ∀ x ∈ before, ¬ p x = true := fun x hx => by simpa using hbefore x hx
  exact ⟨before, after, rfl, hnot, hp, by rw [List.eraseP_append_right _ hnot, List.eraseP_cons_of_pos hp]⟩

theorem Represents.remove (h : Represents f s nodes) (arg : UInt32) :
    ∃ r nodes', Yields (fun fuel => f.mp1IoctlRemove fuel arg) r ∧
      (s.call (.mp1IoctlRemove arg)).1 = .plain r.1 ∧
      Represents r.2 (s.call (.mp1IoctlRemove arg)).2 nodes' := by
  have hsearch := h.yields_find arg.toUInt16
  simp only [BlinkBoard.call, h.find?_blinks]
  cases hfind : nodes.find? (fun i => (f.blinkArray i).toBlink.isAt arg.toUInt16) with
  | none =>
      rw [hfind] at hsearch
      exact ⟨(-1, f), nodes, hsearch.bind (yields_some _), rfl, h⟩
  | some i =>
      rw [hfind] at hsearch
      obtain ⟨before, after, hnodes, -, -, herase⟩ := exists_split_of_find? hfind
      have hprev : Breaks (fun _ => f.findPrevPass i) none (placeBehind before) := by
        refine Chained.breaks_prev (fun place hplace => ?_) (fun place j hplace hj => ?_) before []
          (hnodes ▸ h.chained)
        · rw [Fish.findPrevPass, link_eq_linkAt, if_pos hplace]
        · rw [Fish.findPrevPass, link_eq_linkAt, hplace, if_neg (by simpa using hj)]
          rfl
      have hcut := h.cutOut hnodes
      refine ⟨_, before ++ after, hsearch.bind (hprev.yields.map _), rfl, ?_⟩
      simp only [h.blinks, List.eraseP_map]
      rw [show nodes.eraseP (Blink.isAt arg.toUInt16 ∘ fun i => (f.blinkArray i).toBlink) = before ++ after
        from herase]
      exact hcut

/-! ### `mp1_ioctl_sync` -/

/-- No result of `testb $0x1` is negative. -/
theorem Blink.syncChar_eq (b : Blink) : b.syncChar = b.offChar := by
  have hbit : b.status.toUInt8 &&& 1 = 0 ∨ b.status.toUInt8 &&& 1 = 1 := by
    have hmod : (b.status.toUInt8 &&& 1).toNat = b.status.toUInt8.toNat % 2 := by
      rw [UInt8.toNat_and]
      exact Nat.and_one_is_mod _
    rcases Nat.mod_two_eq_zero_or_one b.status.toUInt8.toNat with hzero | hone
    · exact Or.inl (UInt8.toNat_inj.1 (hmod.trans hzero))
    · exact Or.inr (UInt8.toNat_inj.1 (hmod.trans hone))
  refine if_neg ?_
  rcases hbit with hzero | hone
  · rw [hzero]
    decide
  · rw [hone]
    decide

/-- A store to the slot of the first hit changes the first hit. -/
theorem updateFirst_map {ι α : Type} [DecidableEq ι] {p : α → Bool} (g : α → α) {v : ι → α} {l : List ι}
    {i : ι} (hl : l.Nodup) (h : l.find? (fun j => p (v j)) = some i) :
    updateFirst p g (l.map v) = l.map (fun j => if j = i then g (v i) else v j) := by
  induction l with
  | nil => rfl
  | cons x l ih =>
      obtain ⟨hx, hl⟩ := List.nodup_cons.1 hl
      rw [List.map_cons, updateFirst, List.map_cons]
      rw [List.find?_cons] at h
      cases hp : p (v x) with
      | true =>
          rw [hp] at h
          obtain rfl : x = i := Option.some_inj.1 h
          rw [if_pos rfl, if_pos rfl]
          congr 1
          refine List.map_congr_left (fun j hj => ?_)
          rw [if_neg (ne_of_mem_of_not_mem hj hx)]
      | false =>
          rw [hp] at h
          rw [if_neg (by simp), ih hl h, if_neg (ne_of_mem_of_not_mem (List.mem_of_find?_eq_some h) hx).symm]

theorem Represents.sync (h : Represents f s nodes) (arg : UInt32) :
    ∃ r, Yields (fun fuel => f.mp1IoctlSync fuel arg) r ∧ (s.call (.mp1IoctlSync arg)).1 = .plain r.1 ∧
      Represents r.2 (s.call (.mp1IoctlSync arg)).2 nodes := by
  have hfirst := h.yields_find (arg >>> 16).toUInt16
  have hsecond := h.yields_find arg.toUInt16
  simp only [BlinkBoard.call, h.find?_blinks]
  cases hesi : nodes.find? (fun i => (f.blinkArray i).toBlink.isAt (arg >>> 16).toUInt16) with
  | none =>
      rw [hesi] at hfirst
      exact ⟨(-1, f), hfirst.bind (yields_some _), rfl, h⟩
  | some esi =>
      rw [hesi] at hfirst
      cases hedi : nodes.find? (fun i => (f.blinkArray i).toBlink.isAt arg.toUInt16) with
      | none =>
          rw [hedi] at hsecond
          exact ⟨_, hfirst.bind (hsecond.map _), rfl, h⟩
      | some edi =>
          rw [hedi] at hsecond
          have hset := h.setBlink (i := edi) (b := (f.blinkArray edi).toBlink.syncFrom (f.blinkArray esi).toBlink)
            rfl
          rw [← updateFirst_map (·.syncFrom (f.blinkArray esi).toBlink) h.chained.nodup hedi,
            ← h.blinks] at hset
          refine ⟨_, hfirst.bind (hsecond.map _), rfl, ?_⟩
          have hpoke := hset.mp1Poke (f.blinkArray edi).toBlink.offset (f.blinkArray edi).toBlink.offChar
          simp only [Option.map_some, Blink.syncChar_eq]
          exact hpoke

/-! ### Runs -/

/-- **One call.** It ends, answers what the board answers, and leaves the board represented. -/
theorem Represents.call (h : Represents f s nodes) {c : FishCall} (hc : c.Located) :
    ∃ f' nodes', Yields (fun fuel => f.call fuel c) ((s.call c).1, f') ∧
      Represents f' (s.call c).2 nodes' := by
  cases c with
  | mp1IoctlAdd user =>
      obtain ⟨nodes', hvalue, hadd⟩ := h.add hc
      exact ⟨_, nodes', hvalue ▸ yields_some _, hadd⟩
  | mp1IoctlRemove arg =>
      obtain ⟨r, nodes', hrun, hvalue, hrep⟩ := h.remove arg
      exact ⟨r.2, nodes', hvalue ▸ hrun.map _, hrep⟩
  | mp1IoctlFind location =>
      have hsearch := h.yields_find location
      simp only [BlinkBoard.call, h.find?_blinks]
      cases hfind : nodes.find? (fun i => (f.blinkArray i).toBlink.isAt location) with
      | none =>
          rw [hfind] at hsearch
          exact ⟨f, nodes, (hsearch.map _).map _, h⟩
      | some i =>
          rw [hfind] at hsearch
          exact ⟨f, nodes, (hsearch.map _).map _, h⟩
  | mp1IoctlSync arg =>
      obtain ⟨r, hrun, hvalue, hrep⟩ := h.sync arg
      exact ⟨r.2, nodes, hvalue ▸ hrun.map _, hrep⟩
  | mp1RtcTasklet =>
      obtain ⟨f', hrun, hrep⟩ := h.tasklet
      exact ⟨f', nodes, hrun.map _, hrep⟩

theorem Fish.run_append (fuel : Nat) (calls calls' : List FishCall) (f : Fish) :
    Fish.run fuel (calls ++ calls') f = (Fish.run fuel calls f).bind fun r =>
      (Fish.run fuel calls' r.2).map fun rs => (r.1 ++ rs.1, rs.2) := by
  induction calls generalizing f with
  | nil => simp [Fish.run]
  | cons c calls ih =>
      simp only [List.cons_append, Fish.run, ih]
      cases f.call fuel c with
      | none => rfl
      | some r =>
          simp only [Option.bind_some]
          cases Fish.run fuel calls r.2 with
          | none => rfl
          | some r' => simp [Function.comp_def]

/-- The calls of a run, one by one. -/
theorem Represents.run {calls : List FishCall} (hcalls : ∀ c ∈ calls, c.Located) (h : Represents f s nodes) :
    ∃ f' nodes', Yields (fun fuel => Fish.run fuel calls f) ((s.run calls).1, f') ∧
      Represents f' (s.run calls).2 nodes' := by
  induction calls generalizing f s nodes with
  | nil => exact ⟨f, nodes, yields_some _, h⟩
  | cons c calls ih =>
      obtain ⟨f₁, nodes₁, hcall, h₁⟩ := h.call (hcalls c List.mem_cons_self)
      obtain ⟨f', nodes', hrun, h'⟩ := ih (fun c' hc' => hcalls c' (List.mem_cons_of_mem c hc')) h₁
      exact ⟨f', nodes', hcall.bind (hrun.map _), h'⟩

end Calls

/-- **The linked list does what the board does.** In a run of `add`, `remove`, `find`, `sync` and the tasklet,
    in any order, that adds no blink at location 0, every loop ends, the replies are those of the board, and
    the list and the screen are the board's. -/
theorem blink_calls_refine (vmem : Nat → UInt8) (calls : List FishCall) (hcalls : ∀ c ∈ calls, c.Located) :
    ∃ f nodes, Yields (fun fuel => Fish.run fuel calls (Fish.start vmem))
        ((BlinkBoard.run calls ⟨[], vmem⟩).1, f) ∧
      Represents f (BlinkBoard.run calls ⟨[], vmem⟩).2 nodes :=
  (represents_start vmem).run hcalls

/-- A blink for the cell `location`, `+` and `-` in turn. -/
def sampleBlink (location : UInt16) : BlinkStruct := ⟨⟨location, 43, 45, 2, 3, 0, 0⟩, none⟩

/-- Two blinks, of which one is copied to the other and then removed. -/
def sampleCalls : List FishCall :=
  [.mp1IoctlAdd (sampleBlink 5), .mp1IoctlAdd (sampleBlink 9), .mp1RtcTasklet, .mp1IoctlSync 0x50009,
    .mp1IoctlRemove 5, .mp1IoctlFind 5, .mp1IoctlAdd (sampleBlink 2000)]

theorem blink_calls_refine_sample :
    (BlinkBoard.run sampleCalls ⟨[], fun _ => 32⟩).1.map FishReply.value = [0, 0, 0, 0, 0, -1, -1] ∧
    ∃ f nodes, Yields (fun fuel => Fish.run fuel sampleCalls (Fish.start fun _ => 32))
        ((BlinkBoard.run sampleCalls ⟨[], fun _ => 32⟩).1, f) ∧
      Represents f (BlinkBoard.run sampleCalls ⟨[], fun _ => 32⟩).2 nodes :=
  ⟨by decide +kernel, blink_calls_refine (fun _ => 32) sampleCalls (by
    intro c hc
    simp only [sampleCalls, List.mem_cons, List.not_mem_nil, or_false] at hc
    rcases hc with rfl | rfl | rfl | rfl | rfl | rfl | rfl <;>
      simp [FishCall.Located, sampleBlink])⟩

/-! ## Location 0 -/

/-- The only link is from the first structure to itself. -/
structure Looped (f : Fish) (i : Nat) : Prop where
  head : f.mp1ListHead = some i
  next : f.next i = some i

/-- The call goes along the list and does not stop at a blink at `location`. -/
def FishCall.Passes (location : UInt16) : FishCall → Prop
  | .mp1IoctlAdd _ => False
  | .mp1IoctlRemove arg => arg.toUInt16 ≠ location
  | .mp1IoctlFind ax => ax ≠ location
  | .mp1IoctlSync arg => (arg >>> 16).toUInt16 ≠ location ∨ arg.toUInt16 ≠ location
  | .mp1RtcTasklet => True

section LocationZero

variable {f : Fish} {i : Nat} {location : UInt16}

theorem Looped.mp1RtcTasklet (h : Looped f i) (fuel : Nat) : f.mp1RtcTasklet fuel = none := by
  refine foreverRun_eq_none (I := fun r => r.2 = some i ∧ r.1.next i = some i) ?_ fuel ⟨h.head, h.next⟩
  rintro ⟨g, p⟩ ⟨rfl, hnext⟩
  refine ⟨_, rfl, ?_, ?_⟩
  · rw [← next_blinkAt g i] at hnext
    exact hnext
  · rw [next_blinkAt]
    exact hnext

theorem Looped.mp1FindHelper (h : Looped f i) {ax : UInt16} (hax : ax ≠ (f.blinkArray i).location)
    (fuel : Nat) : f.mp1FindHelper fuel ax = none := by
  refine foreverRun_eq_none (I := fun p => p = some i) ?_ fuel h.head
  rintro p rfl
  refine ⟨f.next i, ?_, h.next⟩
  rw [Fish.findPass, if_neg hax.symm]
  rfl

theorem Looped.mp1FindHelper_self (h : Looped f i) (fuel : Nat) :
    f.mp1FindHelper fuel (f.blinkArray i).location = none ∨
    f.mp1FindHelper fuel (f.blinkArray i).location = some (some i) := by
  cases fuel with
  | zero => exact Or.inl rfl
  | succ fuel =>
      refine Or.inr ?_
      rw [Fish.mp1FindHelper, h.head, foreverRun, Fish.findPass, if_pos rfl]
      rfl

theorem Looped.call (h : Looped f i) {c : FishCall} (hc : c.Passes (f.blinkArray i).location) (fuel : Nat) :
    f.call fuel c = none := by
  cases c with
  | mp1IoctlAdd user => exact hc.elim
  | mp1IoctlRemove arg =>
      rw [Fish.call, Fish.mp1IoctlRemove, h.mp1FindHelper hc]
      rfl
  | mp1IoctlFind ax =>
      rw [Fish.call, Fish.mp1IoctlFind, h.mp1FindHelper hc]
      rfl
  | mp1IoctlSync arg =>
      rw [Fish.call, Fish.mp1IoctlSync]
      by_cases hfirst : (arg >>> 16).toUInt16 = (f.blinkArray i).location
      · rw [h.mp1FindHelper (hc.resolve_left (fun hne => hne hfirst)), hfirst]
        rcases h.mp1FindHelper_self fuel with hnone | hself
        · rw [hnone]
          rfl
        · rw [hself]
          rfl
      · rw [h.mp1FindHelper hfirst]
        rfl
  | mp1RtcTasklet =>
      rw [Fish.call, h.mp1RtcTasklet]
      rfl

theorem mp1IoctlAdd_of_free {user : BlinkStruct} (hlt : user.location.toNat < blinkSlots)
    (hi : f.mp1Malloc = some i) :
    f.mp1IoctlAdd user = (0, (⟨Function.update f.blinkArray i ⟨user.fresh, f.mp1ListHead⟩, some i,
      f.vmem⟩ : Fish).mp1Poke user.fresh.offset user.fresh.onChar) := by
  rw [Fish.mp1IoctlAdd, if_neg (show ¬ 80 * 25 ≤ user.location.toNat from Nat.not_le.2 hlt), hi]

/-- The structure that `mp1_malloc` finds, filled with a blink at location 0, is the one that it finds next. -/
theorem Represents.looped {s : BlinkBoard} {nodes : List Nat} (h : Represents f s nodes)
    (hroom : s.blinks.length < blinkSlots) {b₀ b₁ : BlinkStruct} (h₀ : b₀.location = 0)
    (h₁ : b₁.location.toNat < blinkSlots) :
    ∃ f₀ f₁ j, f.mp1IoctlAdd b₀ = (0, f₀) ∧ f₀.mp1ListHead = some j ∧ (f₀.blinkArray j).toBlink = b₀.fresh ∧
      f₀.mp1IoctlAdd b₁ = (0, f₁) ∧ Looped f₁ j ∧ (f₁.blinkArray j).toBlink = b₁.fresh := by
  obtain ⟨j, hj⟩ : ∃ j, f.mp1Malloc = some j := by
    refine Option.ne_none_iff_exists'.1 (fun hnone => ?_)
    rw [h.blinks, List.length_map, h.mp1Malloc_none hnone] at hroom
    omega
  have hfree : (f.blinkArray j).location = 0 := by simpa using List.find?_some hj
  have hlt₀ : b₀.location.toNat < blinkSlots := by rw [h₀]; decide
  have hadd₀ := mp1IoctlAdd_of_free hlt₀ hj
  -- no slot looks different to `mp1_malloc`
  have hsame : (fun x => ((f.mp1IoctlAdd b₀).2.blinkArray x).location == 0)
      = fun x => (f.blinkArray x).location == 0 := by
    funext x
    rw [hadd₀]
    by_cases hx : x = j
    · subst hx
      simp [Fish.mp1Poke, hfree, h₀, Blink.fresh]
    · simp only [Fish.mp1Poke, Function.update_of_ne hx]
  have hj' : (f.mp1IoctlAdd b₀).2.mp1Malloc = some j := by
    rw [Fish.mp1Malloc, hsame]
    exact hj
  rw [hadd₀] at hj'
  refine ⟨_, _, j, hadd₀, rfl, ?_, mp1IoctlAdd_of_free h₁ hj', ⟨rfl, ?_⟩, ?_⟩
  · simp [Fish.mp1Poke]
  · simp [Fish.next, Fish.mp1Poke]
  · simp [Fish.mp1Poke]

end LocationZero

/-- **A blink at location 0 makes the list endless.** After any run without one, where a slot is free: a blink
    at location 0 is accepted, and so is the next one. That goes into the same slot, and its link leads back
    to it. Then the tasklet does not return, and no search for another location does. -/
theorem blink_at_zero_hangs (vmem : Nat → UInt8) (calls : List FishCall) (hcalls : ∀ c ∈ calls, c.Located)
    (hroom : (BlinkBoard.run calls ⟨[], vmem⟩).2.blinks.length < blinkSlots) (b₀ b₁ : BlinkStruct)
    (h₀ : b₀.location = 0) (h₁ : b₁.location.toNat < blinkSlots) :
    ∃ f₀ f₁ j,
      Yields (fun fuel => Fish.run fuel (calls ++ [.mp1IoctlAdd b₀]) (Fish.start vmem))
        ((BlinkBoard.run calls ⟨[], vmem⟩).1 ++ [.plain 0], f₀) ∧
      f₀.mp1ListHead = some j ∧ (f₀.blinkArray j).toBlink = b₀.fresh ∧
      Yields (fun fuel => Fish.run fuel (calls ++ [.mp1IoctlAdd b₀, .mp1IoctlAdd b₁]) (Fish.start vmem))
        ((BlinkBoard.run calls ⟨[], vmem⟩).1 ++ [.plain 0, .plain 0], f₁) ∧
      Looped f₁ j ∧ (f₁.blinkArray j).toBlink = b₁.fresh ∧
      ∀ c : FishCall, c.Passes b₁.location → ∀ fuel, f₁.call fuel c = none := by
  obtain ⟨f, nodes, hrun, hrep⟩ := (represents_start vmem).run hcalls
  obtain ⟨f₀, f₁, j, hadd₀, hhead, hslot₀, hadd₁, hlooped, hslot₁⟩ := hrep.looped hroom h₀ h₁
  have hloc : (f₁.blinkArray j).location = b₁.location := by
    rw [hslot₁]
    rfl
  obtain ⟨n, hn⟩ := hrun
  refine ⟨f₀, f₁, j, ⟨n, fun fuel hfuel => ?_⟩, hhead, hslot₀, ⟨n, fun fuel hfuel => ?_⟩, hlooped, hslot₁,
    fun c hc fuel => hlooped.call (hloc ▸ hc) fuel⟩
  all_goals
    have hfirst := hn fuel hfuel
    simp only at hfirst ⊢
    rw [Fish.run_append, hfirst]
    simp [Fish.run, Fish.call, hadd₀, hadd₁]

theorem blink_at_zero_hangs_sample :
    ∃ f₁ j, Looped f₁ j ∧ (f₁.blinkArray j).toBlink = (sampleBlink 5).fresh ∧
      ∀ c : FishCall, c.Passes 5 → ∀ fuel, f₁.call fuel c = none := by
  obtain ⟨-, f₁, j, -, -, -, -, hlooped, hslot, hhangs⟩ := blink_at_zero_hangs (fun _ => 32)
    [.mp1IoctlAdd (sampleBlink 7)] (by simp [FishCall.Located, sampleBlink]) (by decide +kernel) (sampleBlink 0)
    (sampleBlink 5) rfl (by decide)
  exact ⟨f₁, j, hlooped, hslot, hhangs⟩

end UnixTerminal
