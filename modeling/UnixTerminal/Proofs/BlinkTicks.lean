import UnixTerminal.Proofs.BlinkList

set_option autoImplicit false

/-! # The duty cycle of a blink

The tasklet counts a blink down and turns it over. How long a length lasts follows from the test, which is
signed and comes behind the decrement: from 2 to 2^15 as many ticks as it says, otherwise one. A blink that
nothing else touches is on for its on-length and off for its off-length in turn, whatever happens to the
other blinks (`Blinking`), and the screen shows it. -/

namespace UnixTerminal

/-! ## One blink -/

namespace Blink

/-- The ticks that a length lasts. -/
def ticks (length : UInt16) : Nat := if 2 ≤ length.toNat ∧ length.toNat ≤ 0x8000 then length.toNat else 1

/-- The ticks from on to on. -/
def period (b : Blink) : Nat := ticks b.onLength + ticks b.offLength

/-- The blink `n` ticks after it was added. -/
def atTick (b : Blink) (n : Nat) : Blink :=
  let r := n % b.period
  if r < ticks b.onLength then { b with status := 1, countdown := b.onLength - UInt16.ofNat r }
  else { b with status := 0, countdown := b.offLength - UInt16.ofNat (r - ticks b.onLength) }

/-- What is on the screen then. -/
def charAt (b : Blink) (n : Nat) : UInt8 :=
  if n % b.period < ticks b.onLength then b.onChar else b.offChar

theorem ticks_pos (length : UInt16) : 0 < ticks length := by
  rw [ticks]
  split <;> omega

/-- The test of the tasklet. -/
theorem countdown_pos_iff (c : UInt16) : 0 < (c - 1).toInt16.toInt ↔ 2 ≤ c.toNat ∧ c.toNat ≤ 0x8000 := by
  have hlt := c.toNat_lt
  have hsub : (c - 1).toBitVec.toNat = (65535 + c.toNat) % 65536 := UInt16.toNat_sub _ _
  rw [show (c - 1).toInt16.toInt = (c - 1).toBitVec.toInt from rfl, BitVec.toInt_eq_toNat_cond, hsub]
  split <;> omega

/-- A length is not over before its last tick. -/
theorem count_pos_iff {length : UInt16} {r : Nat} (hr : r < ticks length) :
    0 < (length - UInt16.ofNat r - 1).toInt16.toInt ↔ r + 1 < ticks length := by
  have hlt := length.toNat_lt
  have hsub : r ≤ length.toNat → (length - UInt16.ofNat r).toNat = length.toNat - r := by
    intro hle
    have hr' : (UInt16.ofNat r).toNat = r := UInt16.toNat_ofNat_of_lt' (by rw [UInt16.size]; omega)
    rw [UInt16.toNat_sub_of_le _ _ (UInt16.le_iff_toNat_le.2 (by omega)), hr']
  rw [countdown_pos_iff]
  rw [ticks] at hr ⊢
  split at hr
  next hlen =>
    rw [hsub (by omega), if_pos hlen]
    omega
  next hlen =>
    obtain rfl : r = 0 := by omega
    rw [if_neg hlen, hsub (by omega)]
    omega

theorem count_succ (length : UInt16) (r : Nat) :
    length - UInt16.ofNat r - 1 = length - UInt16.ofNat (r + 1) := by
  rw [UInt16.ofNat_add]
  grind

theorem mod_period_succ (b : Blink) (n : Nat) :
    (n + 1) % b.period = if n % b.period + 1 = b.period then 0 else n % b.period + 1 := by
  have hpos : 0 < b.period := Nat.add_pos_left (ticks_pos _) _
  have hlt := Nat.mod_lt n hpos
  rw [← Nat.mod_add_mod]
  split
  next heq => rw [heq, Nat.mod_self]
  next hne => exact Nat.mod_eq_of_lt (by omega)

/-- A tick within an on-length or an off-length. -/
theorem tick_of_pos {b : Blink} (h : 0 < (b.countdown - 1).toInt16.toInt) :
    b.tick = ({ b with countdown := b.countdown - 1 }, none) := by
  rw [tick]
  exact if_pos h

/-- The tick that ends one. -/
theorem tick_of_over {b : Blink} (h : ¬ 0 < (b.countdown - 1).toInt16.toInt) :
    b.tick = if b.status &&& 1 ≠ 0 then
      ({ b with countdown := b.offLength, status := b.status ^^^ 1 }, some b.offChar)
    else ({ b with countdown := b.onLength, status := b.status ^^^ 1 }, some b.onChar) := by
  rw [tick]
  exact if_neg h

/-- **One tick.** -/
theorem tick_atTick (b : Blink) (n : Nat) :
    (b.atTick n).tick.1 = b.atTick (n + 1) ∧
    ((b.atTick n).tick.2 = none ∧ b.charAt (n + 1) = b.charAt n ∨
      (b.atTick n).tick.2 = some (b.charAt (n + 1))) := by
  have hon := ticks_pos b.onLength
  have hoff := ticks_pos b.offLength
  have hlt : n % b.period < b.period := Nat.mod_lt n (Nat.add_pos_left hon _)
  simp only [atTick, charAt, mod_period_succ]
  generalize n % b.period = r at hlt
  have hperiod : b.period = ticks b.onLength + ticks b.offLength := rfl
  by_cases hphase : r < ticks b.onLength
  · have hcount := count_pos_iff hphase
    rw [if_pos hphase, if_pos hphase, if_neg (show ¬ r + 1 = b.period by omega)]
    by_cases hnext : r + 1 < ticks b.onLength
    · rw [tick_of_pos (b := { b with status := 1, countdown := b.onLength - UInt16.ofNat r })
        (hcount.2 hnext)]
      simp [hnext, count_succ]
    · -- the last tick on
      rw [tick_of_over (b := { b with status := 1, countdown := b.onLength - UInt16.ofNat r })
        (fun hpos => hnext (hcount.1 hpos)), if_pos (show (1 : UInt16) &&& 1 ≠ 0 by decide)]
      obtain heq : r + 1 = ticks b.onLength := by omega
      simp [heq]
  · have hcount : 0 < (b.offLength - UInt16.ofNat (r - ticks b.onLength) - 1).toInt16.toInt
        ↔ r - ticks b.onLength + 1 < ticks b.offLength := count_pos_iff (by omega)
    rw [if_neg hphase, if_neg hphase]
    by_cases hnext : r + 1 = b.period
    · -- the last tick off
      rw [tick_of_over (b := { b with status := 0, countdown := b.offLength - UInt16.ofNat (r - ticks b.onLength) })
        (fun hpos => by have hless := hcount.1 hpos; omega),
        if_neg (show ¬ (0 : UInt16) &&& 1 ≠ 0 by decide)]
      simp [hnext, hon]
    · rw [tick_of_pos (b := { b with status := 0, countdown := b.offLength - UInt16.ofNat (r - ticks b.onLength) })
        (hcount.2 (by omega)), if_neg hnext]
      have hstays : ¬ r + 1 < ticks b.onLength := by omega
      have hsucc : r + 1 - ticks b.onLength = r - ticks b.onLength + 1 := by omega
      simp [hstays, hsucc, count_succ]

theorem fresh_eq_atTick (b : Blink) : b.fresh = b.atTick 0 := by
  simp [fresh, atTick, ticks_pos]

end Blink

/-! ## One blink among others -/

/-- The call is about other locations. -/
def FishCall.Spares (location : UInt16) : FishCall → Prop
  | .mp1IoctlAdd user => user.location ≠ location
  | .mp1IoctlRemove arg => arg.toUInt16 ≠ location
  | .mp1IoctlFind _ => True
  | .mp1IoctlSync arg => arg.toUInt16 ≠ location
  | .mp1RtcTasklet => True

/-- The ticks in a run. -/
def tickCount : List FishCall → Nat
  | [] => 0
  | .mp1RtcTasklet :: calls => tickCount calls + 1
  | _ :: calls => tickCount calls

/-- The only blink at its location is `b`, and its character is the one on the screen. -/
structure Blinking (b : Blink) (n : Nat) (s : BlinkBoard) : Prop where
  only : s.blinks.filter (Blink.isAt b.location) = [b.atTick n]
  shown : s.vmem b.offset = b.charAt n

theorem Blink.offset_ne {a b : Blink} (h : a.location ≠ b.location) : b.offset ≠ a.offset := by
  intro heq
  refine h (UInt16.toNat_inj.1 ?_)
  simp only [Blink.offset] at heq
  omega

/-- What is done to blinks at another location. -/
theorem filter_eraseP_of_disjoint {α : Type} {p q : α → Bool} (h : ∀ a, q a = true → p a = false) (l : List α) :
    (l.eraseP q).filter p = l.filter p := by
  induction l with
  | nil => rfl
  | cons a l ih =>
      cases hq : q a with
      | true => rw [List.eraseP_cons_of_pos hq, List.filter_cons_of_neg (by simp [h a hq])]
      | false => rw [List.eraseP_cons_of_neg (by simp [hq]), List.filter_cons, List.filter_cons, ih]

theorem filter_updateFirst {α : Type} {p q : α → Bool} {g : α → α} (h : ∀ a, q a = true → p a = false)
    (hg : ∀ a, q a = true → p (g a) = false) (l : List α) : (updateFirst q g l).filter p = l.filter p := by
  induction l with
  | nil => rfl
  | cons a l ih =>
      rw [updateFirst]
      cases hq : q a with
      | true => simp [h a hq, hg a hq]
      | false => simp [List.filter_cons, ih]

theorem pokeTick_cell (location : UInt16) (vmem : Nat → UInt8) (b : Blink) :
    pokeTick vmem b (2 * location.toNat) = if b.isAt location then b.tick.2.getD (vmem (2 * location.toNat))
      else vmem (2 * location.toNat) := by
  rw [pokeTick]
  cases htick : b.tick.2 with
  | none => simp
  | some c =>
      by_cases hloc : b.location = location
      · subst hloc
        simp [Blink.isAt, Blink.offset]
      · have hcell : 2 * location.toNat ≠ b.offset := by
          refine fun heq => hloc (UInt16.toNat_inj.1 ?_)
          rw [Blink.offset] at heq
          omega
        simp [Blink.isAt, hloc, Function.update_of_ne hcell]

/-- Of all that the tasklet shows, only the blinks at the location change its cell. -/
theorem foldl_pokeTick (location : UInt16) (l : List Blink) (vmem : Nat → UInt8) :
    l.foldl pokeTick vmem (2 * location.toNat)
      = (l.filter (Blink.isAt location)).foldl (fun c b => b.tick.2.getD c) (vmem (2 * location.toNat)) := by
  induction l generalizing vmem with
  | nil => rfl
  | cons b l ih =>
      rw [List.foldl_cons, ih, pokeTick_cell, List.filter_cons]
      split <;> rfl

variable {b : Blink} {n : Nat} {s : BlinkBoard}

theorem Blinking.tasklet (h : Blinking b n s) : Blinking b (n + 1) (s.call .mp1RtcTasklet).2 := by
  obtain ⟨htick, hpoke⟩ := b.tick_atTick n
  refine ⟨?_, ?_⟩
  · simp only [BlinkBoard.call]
    rw [List.filter_map, show Blink.isAt b.location ∘ (fun x : Blink => x.tick.1) = Blink.isAt b.location from
      funext (fun x => by simp [Blink.isAt, Blink.location_tick]), h.only, List.map_singleton, htick]
  · simp only [BlinkBoard.call]
    rw [Blink.offset, foldl_pokeTick, h.only, ← Blink.offset, h.shown]
    rcases hpoke with ⟨hnone, hsame⟩ | hsome
    · simp [hnone, hsame]
    · simp [hsome]

/-- A call about other locations leaves the blink and its cell. -/
theorem Blinking.spared (h : Blinking b n s) {c : FishCall} (hc : c.Spares b.location)
    (htick : c ≠ .mp1RtcTasklet) : Blinking b n (s.call c).2 := by
  have hother : ∀ {location : UInt16}, location ≠ b.location → ∀ a : Blink, a.isAt location = true →
      a.isAt b.location = false := by
    intro location hne a ha
    simp only [Blink.isAt, beq_iff_eq] at ha
    simpa [Blink.isAt, ha] using hne
  cases c with
  | mp1IoctlAdd user =>
      simp only [BlinkBoard.call]
      split
      · have hne : user.location ≠ b.location := hc
        have hnot : ¬ Blink.isAt b.location user.toBlink.fresh = true := by
          simpa [Blink.isAt, Blink.fresh] using hne
        exact ⟨(List.filter_cons_of_neg hnot).trans h.only,
          (Function.update_of_ne (Blink.offset_ne hne) _ _).trans h.shown⟩
      · exact h
  | mp1IoctlRemove arg =>
      simp only [BlinkBoard.call]
      split
      · exact ⟨(filter_eraseP_of_disjoint (hother hc) _).trans h.only, h.shown⟩
      · exact h
  | mp1IoctlFind location =>
      simp only [BlinkBoard.call]
      split <;> exact h
  | mp1IoctlSync arg =>
      simp only [BlinkBoard.call]
      split
      next source a hsource ha =>
        have hat : a.location = arg.toUInt16 := by simpa [Blink.isAt] using List.find?_some ha
        have hne : a.location ≠ b.location := fun heq => hc (hat.symm.trans heq)
        have hkept : ∀ a : Blink, a.isAt arg.toUInt16 = true → (a.syncFrom source).isAt b.location = false :=
          fun a ha => hother hc a ha
        exact ⟨(filter_updateFirst (hother hc) hkept _).trans h.only,
          (Function.update_of_ne (Blink.offset_ne hne) _ _).trans h.shown⟩
      next => exact h
  | mp1RtcTasklet => exact absurd rfl htick

theorem Blinking.run {calls : List FishCall} (h : Blinking b n s) (hcalls : ∀ c ∈ calls, c.Spares b.location) :
    Blinking b (n + tickCount calls) (s.run calls).2 := by
  induction calls generalizing n s with
  | nil => exact h
  | cons c calls ih =>
      have hrest : ∀ c' ∈ calls, c'.Spares b.location := fun c' hc' => hcalls c' (List.mem_cons_of_mem c hc')
      by_cases htick : c = .mp1RtcTasklet
      · subst htick
        have hrun := ih h.tasklet hrest
        rw [Nat.add_assoc, Nat.add_comm 1] at hrun
        exact hrun
      · have hrun := ih (h.spared (hcalls c List.mem_cons_self) htick) hrest
        rw [show tickCount (c :: calls) = tickCount calls from by cases c <;> first | rfl | exact absurd rfl htick]
        exact hrun

/-- A blink that is accepted at a location without one. -/
theorem blinking_add {user : BlinkStruct} (hloc : user.location.toNat < blinkSlots)
    (hroom : s.blinks.length < blinkSlots) (hnew : ∀ a ∈ s.blinks, a.location ≠ user.location) :
    Blinking user.toBlink 0 (s.call (.mp1IoctlAdd user)).2 := by
  simp only [BlinkBoard.call]
  rw [if_pos ⟨hloc, hroom⟩]
  refine ⟨?_, ?_⟩
  · rw [List.filter_cons_of_pos (by simp [Blink.isAt, Blink.fresh]),
      List.filter_eq_nil_iff.2 (fun a ha => by simpa [Blink.isAt] using hnew a ha), Blink.fresh_eq_atTick]
  · refine (Function.update_self _ _ _).trans ?_
    rw [Blink.charAt, Nat.zero_mod, if_pos (Blink.ticks_pos _)]

theorem BlinkBoard.run_append (calls calls' : List FishCall) (s : BlinkBoard) :
    s.run (calls ++ calls') = ((s.run calls).1 ++ ((s.run calls).2.run calls').1,
      ((s.run calls).2.run calls').2) := by
  induction calls generalizing s with
  | nil => rfl
  | cons c calls ih => simp [BlinkBoard.run, ih]

/-- **The duty cycle.** A blink is added at a location that has none, where a slot is free. Behind any further
    calls that are about other locations, the tasklet among them, the screen shows it on for the ticks of its
    on-length and off for those of its off-length, in turn from when it was added. -/
theorem blink_duty_cycle (vmem : Nat → UInt8) (before calls : List FishCall) (user : BlinkStruct)
    (hbefore : ∀ c ∈ before, c.Located) (hcalls : ∀ c ∈ calls, c.Located ∧ c.Spares user.location)
    (hloc : user.location.toNat < blinkSlots) (hzero : user.location ≠ 0)
    (hroom : (BlinkBoard.run before ⟨[], vmem⟩).2.blinks.length < blinkSlots)
    (hnew : ∀ a ∈ (BlinkBoard.run before ⟨[], vmem⟩).2.blinks, a.location ≠ user.location) :
    ∃ replies f,
      Yields (fun fuel => Fish.run fuel (before ++ .mp1IoctlAdd user :: calls) (Fish.start vmem)) (replies, f) ∧
      f.vmem user.toBlink.offset
        = if tickCount calls % user.toBlink.period < Blink.ticks user.onLength then user.onChar
          else user.offChar := by
  have hall : ∀ c ∈ before ++ FishCall.mp1IoctlAdd user :: calls, c.Located := by
    intro c hc
    rcases List.mem_append.1 hc with hc | hc
    · exact hbefore c hc
    · rcases List.mem_cons.1 hc with rfl | hc
      · exact hzero
      · exact (hcalls c hc).1
  obtain ⟨f, nodes, hrun, hrep⟩ := (represents_start vmem).run hall
  refine ⟨_, f, hrun, ?_⟩
  have hblinking := (blinking_add hloc hroom hnew).run (fun c hc => (hcalls c hc).2)
  rw [Nat.zero_add] at hblinking
  rw [← hrep.vmem, BlinkBoard.run_append]
  exact hblinking.shown

/-- Two ticks on and three off; the fourth tick finds it off. -/
theorem blink_duty_cycle_sample :
    ∃ replies f, Yields (fun fuel => Fish.run fuel ([.mp1IoctlAdd (sampleBlink 5)] ++
          .mp1IoctlAdd (sampleBlink 9) :: .mp1IoctlRemove 5 :: List.replicate 4 .mp1RtcTasklet)
          (Fish.start fun _ => 32)) (replies, f) ∧ f.vmem 18 = 45 :=
  blink_duty_cycle (fun _ => 32) [.mp1IoctlAdd (sampleBlink 5)]
    (.mp1IoctlRemove 5 :: List.replicate 4 .mp1RtcTasklet) (sampleBlink 9)
    (by simp [FishCall.Located, sampleBlink])
    (by simp [FishCall.Located, FishCall.Spares, sampleBlink, List.replicate_succ]) (by decide) (by decide)
    (by decide +kernel) (by decide +kernel)

end UnixTerminal
