import UnixTerminal.Kernel.Rtc

set_option autoImplicit false

/-! # Ticks and readers

A read of the clock should wait for a tick, and a tick should release whoever waits. With one flag for
all processes both hold only as long as no read begins while the flag is set, and no read takes the flag
from under another one that still waits. -/

namespace UnixTerminal

namespace RtcSystem

/-! ## What is expected -/

/-- The events since the last call of process `p`. -/
def sinceCall (p : Nat) (es : List RtcEvent) : List RtcEvent := es.reverse.takeWhile (· ≠ .call p)

/-- Every read returns behind an interrupt that was handled since its call. -/
def ReturnsAfterTick (es : List RtcEvent) : Prop :=
  ∀ before p, before ++ [.ret p] <+: es → .interrupt ∈ sinceCall p before

/-- Every interrupt that is handled releases each process that waits at that time: its next test of the
    flag lets it out of the loop. -/
def ReleasesWaiting (s₀ : RtcSystem) (es : List RtcEvent) : Prop :=
  ∀ before during p, (before ++ .interrupt :: during) ++ [.test p] <+: es → .test p ∉ during →
    ∀ s s', s₀.run before = some s → s.reader p = .waiting →
      s₀.run ((before ++ .interrupt :: during) ++ [.test p]) = some s' → s'.reader p = .leaving

/-- No read begins while the flag is set, and none clears a flag that another one waits for. -/
def Undisturbed (s : RtcSystem) : RtcEvent → Prop
  | .call _ => s.rtcInterrupt = false
  | .ret _ => s.rtcInterrupt = true → ∀ q, s.reader q ≠ .waiting
  | _ => True

theorem sinceCall_concat (p : Nat) (es : List RtcEvent) (e : RtcEvent) :
    sinceCall p (es ++ [e]) = if e = .call p then [] else e :: sinceCall p es := by
  unfold sinceCall
  rw [List.reverse_append, List.reverse_singleton, List.singleton_append, List.takeWhile_cons]
  by_cases h : e = .call p <;> simp [h]

/-! ## What an event does -/

/-- The events that happen in a state, and what they leave. -/
inductive Step (s : RtcSystem) : RtcEvent → RtcSystem → Prop
  | interrupt (hlock : s.rtcLock = false) : Step s .interrupt
      { s with rtcLock := true, rtcInterrupt := true, inHandler := Function.update s.inHandler s.running true }
  | ignored (hlock : s.rtcLock = true) : Step s .ignored s
  | unlock (hin : s.inHandler s.running = true) : Step s .unlock
      { s with rtcLock := false, inHandler := Function.update s.inHandler s.running false }
  | switchTask (p : Nat) : Step s (.switchTask p) { s with running := p }
  | call {p : Nat} (hexec : s.Executes p) (hat : s.reader p = .outside) :
      Step s (.call p) (s.setReader p .waiting)
  | spin {p : Nat} (hexec : s.Executes p) (hat : s.reader p = .waiting) (hflag : s.rtcInterrupt = false) :
      Step s (.test p) s
  | pass {p : Nat} (hexec : s.Executes p) (hat : s.reader p = .waiting) (hflag : s.rtcInterrupt = true) :
      Step s (.test p) (s.setReader p .leaving)
  | ret {p : Nat} (hexec : s.Executes p) (hat : s.reader p = .leaving) :
      Step s (.ret p) { s.setReader p .outside with rtcInterrupt := false }

theorem step_cases {s s' : RtcSystem} {e : RtcEvent} (h : s.step e = some s') : Step s e s' := by
  cases e <;> simp only [step] at h
  case interrupt =>
    split_ifs at h with hlock
    cases h
    exact .interrupt (Bool.eq_false_iff.2 hlock)
  case ignored =>
    split_ifs at h with hlock
    cases h
    exact .ignored hlock
  case unlock =>
    split_ifs at h with hin
    cases h
    exact .unlock hin
  case switchTask p =>
    cases h
    exact .switchTask p
  case call p =>
    split_ifs at h with hp
    cases h
    exact .call hp.1 hp.2
  case test p =>
    split_ifs at h with hp hflag
    · cases h
      exact .pass hp.1 hp.2 hflag
    · cases h
      exact .spin hp.1 hp.2 (Bool.eq_false_iff.2 hflag)
  case ret p =>
    split_ifs at h with hp
    cases h
    exact .ret hp.1 hp.2

variable {s s' : RtcSystem} {e : RtcEvent}

theorem Step.step_eq (h : Step s e s') : s.step e = some s' := by
  cases h with
  | interrupt hlock => simp [step, hlock]
  | ignored hlock => simp [step, hlock]
  | unlock hin => simp [step, hin]
  | switchTask => rfl
  | call hexec hat => simp [step, hexec, hat]
  | spin hexec hat hflag => simp [step, hexec, hat, hflag]
  | pass hexec hat hflag => simp [step, hexec, hat, hflag]
  | ret hexec hat => simp [step, hexec, hat]

/-! ## Runs without disturbance -/

/-- A process sees the flag, or has seen it, only when an interrupt came since its call. -/
def TickSeen (es : List RtcEvent) (s : RtcSystem) : Prop :=
  ∀ p, s.reader p = .leaving ∨ s.reader p = .waiting ∧ s.rtcInterrupt = true → .interrupt ∈ sinceCall p es

/-- An event that is not a call of `p`. -/
theorem mem_sinceCall_concat {p : Nat} {es : List RtcEvent} (h : .interrupt ∈ sinceCall p es)
    (he : e ≠ .call p) : .interrupt ∈ sinceCall p (es ++ [e]) := by
  rw [sinceCall_concat, if_neg he]
  exact List.mem_cons_of_mem _ h

theorem TickSeen.step {es : List RtcEvent} (h : TickSeen es s) (hok : s.Undisturbed e) (hstep : Step s e s') :
    TickSeen (es ++ [e]) s' := by
  intro p hp
  cases hstep with
  | interrupt =>
      rw [sinceCall_concat, if_neg (by simp)]
      exact List.mem_cons_self
  | ignored => exact mem_sinceCall_concat (h p hp) (by simp)
  | unlock => exact mem_sinceCall_concat (h p hp) (by simp)
  | switchTask => exact mem_sinceCall_concat (h p hp) (by simp)
  | spin => exact mem_sinceCall_concat (h p hp) (by simp)
  | @call q hexec hat =>
      by_cases hq : p = q
      · -- the call finds the flag clear
        subst hq
        simp only [setReader, Function.update_self] at hp
        rcases hp with hp | ⟨-, hp⟩
        · exact absurd hp (by decide)
        · exact absurd (hok.symm.trans hp) (by decide)
      · simp only [setReader, Function.update_of_ne hq] at hp
        exact mem_sinceCall_concat (h p hp) (by simpa using Ne.symm hq)
  | @pass q hexec hat hflag =>
      refine mem_sinceCall_concat (h p ?_) (by simp)
      by_cases hq : p = q
      · exact Or.inr ⟨hq ▸ hat, hflag⟩
      · simpa only [setReader, Function.update_of_ne hq] using hp
  | @ret q hexec hat =>
      refine mem_sinceCall_concat (h p (Or.inl ?_)) (by simp)
      rcases hp with hp | ⟨-, hp⟩
      · by_cases hq : p = q
        · exact hq ▸ hat
        · simpa only [setReader, Function.update_of_ne hq] using hp
      · exact Bool.noConfusion hp

/-- A process that waits while the flag is set waited already when the flag was set. -/
def Owed (s₀ : RtcSystem) (es : List RtcEvent) (s : RtcSystem) : Prop :=
  ∀ p, s.reader p = .waiting → s.rtcInterrupt = true →
    ∃ before during t, es = before ++ .interrupt :: during ∧ .test p ∉ during
      ∧ s₀.run before = some t ∧ t.reader p = .waiting

theorem Owed.step {s₀ : RtcSystem} {es : List RtcEvent} (h : Owed s₀ es s) (hrun : s₀.run es = some s)
    (hok : s.Undisturbed e) (hstep : Step s e s') : Owed s₀ (es ++ [e]) s' := by
  intro p hwait hflag
  have hkeep : e ≠ .test p → s.reader p = .waiting → s.rtcInterrupt = true →
      ∃ before during t, es ++ [e] = before ++ .interrupt :: during ∧ .test p ∉ during
        ∧ s₀.run before = some t ∧ t.reader p = .waiting := by
    intro he hwait hflag
    obtain ⟨before, during, t, rfl, hno, ht, htwait⟩ := h p hwait hflag
    refine ⟨before, during ++ [e], t, by simp, ?_, ht, htwait⟩
    simpa using ⟨hno, Ne.symm he⟩
  cases hstep with
  | interrupt => exact ⟨es, [], s, rfl, List.not_mem_nil, hrun, hwait⟩
  | ignored => exact hkeep (by simp) hwait hflag
  | unlock => exact hkeep (by simp) hwait hflag
  | switchTask => exact hkeep (by simp) hwait hflag
  | spin hexec hat hclear => exact absurd (hclear.symm.trans hflag) (by decide)
  | @call q hexec hat => exact absurd (hok.symm.trans hflag) (by decide)
  | @pass q hexec hat _ =>
      by_cases hq : p = q
      · subst hq
        simp [setReader] at hwait
      · simp only [setReader, Function.update_of_ne hq] at hwait
        exact hkeep (by simpa using Ne.symm hq) hwait hflag
  | @ret q hexec hat => exact Bool.noConfusion hflag

/-- A process that waits for a tick still waits, with the flag set, until its next test. -/
theorem waiting_until_test {s₀ : RtcSystem} {before : List RtcEvent} {p : Nat} {t : RtcSystem}
    (ht : s₀.run before = some t) (hwait : t.reader p = .waiting) :
    ∀ {during : List RtcEvent} {s : RtcSystem}, .test p ∉ during →
      EachStep RtcSystem.step Undisturbed s₀ (before ++ .interrupt :: during) →
      s₀.run (before ++ .interrupt :: during) = some s →
      s.reader p = .waiting ∧ s.rtcInterrupt = true := by
  intro during
  induction during using List.reverseRecOn with
  | nil =>
      intro s _ _ hs
      obtain ⟨t', ht', hstep⟩ := runEvents_concat.1 hs
      obtain rfl : t = t' := Option.some.inj (ht.symm.trans ht')
      cases step_cases hstep with
      | interrupt => exact ⟨hwait, rfl⟩
  | append_singleton during e ih =>
      intro s' hno hok hs'
      have hlist : before ++ .interrupt :: (during ++ [e]) = (before ++ .interrupt :: during) ++ [e] := by simp
      rw [hlist] at hok hs'
      simp only [List.mem_append, List.mem_singleton, not_or] at hno
      obtain ⟨s, hs, hstep⟩ := runEvents_concat.1 hs'
      obtain ⟨hp, hflag⟩ := ih hno.1 (hok.of_prefix (List.prefix_append _ _)) hs
      have hund : s.Undisturbed e := hok _ _ (List.prefix_refl _) s hs
      cases step_cases hstep with
      | interrupt => exact ⟨hp, rfl⟩
      | ignored => exact ⟨hp, hflag⟩
      | unlock => exact ⟨hp, hflag⟩
      | switchTask => exact ⟨hp, hflag⟩
      | spin => exact ⟨hp, hflag⟩
      | @call q hexec hat => exact absurd (hund.symm.trans hflag) (by decide)
      | @pass q hexec hat _ =>
          have hq : p ≠ q := fun he => hno.2 (congrArg RtcEvent.test he)
          refine ⟨?_, hflag⟩
          simpa only [setReader, Function.update_of_ne hq] using hp
      | @ret q hexec hat => exact absurd hp (hund hflag p)

/-! ## What a disturbance leads to -/

theorem run_concat {s₀ s s' : RtcSystem} {es : List RtcEvent} {e : RtcEvent} (h : s₀.run es = some s)
    (hstep : Step s e s') : s₀.run (es ++ [e]) = some s' :=
  runEvents_concat.2 ⟨s, h, hstep.step_eq⟩

/-- A call that finds the flag set can return without a tick. -/
theorem stale_tick {s₀ : RtcSystem} {es : List RtcEvent} {p : Nat} (h : s₀.run es = some s)
    (hcall : Step s (.call p) s') (hflag : s.rtcInterrupt = true) :
    ∃ rest t, s₀.run (es ++ .call p :: rest) = some t ∧ ¬ ReturnsAfterTick (es ++ .call p :: rest) := by
  cases hcall with
  | call hexec hat =>
      have htest : Step (s.setReader p .waiting) (.test p) ((s.setReader p .waiting).setReader p .leaving) :=
        .pass hexec (Function.update_self _ _ _) hflag
      have hret := Step.ret (s := (s.setReader p .waiting).setReader p .leaving) (p := p) hexec
        (Function.update_self _ _ _)
      have hrun := run_concat (run_concat (run_concat h (.call hexec hat)) htest) hret
      have hlist : es ++ [.call p] ++ [.test p] ++ [.ret p] = es ++ .call p :: [.test p, .ret p] := by simp
      rw [hlist] at hrun
      refine ⟨[.test p, .ret p], _, hrun, fun hreturns => ?_⟩
      have hseen := hreturns (es ++ [.call p] ++ [.test p]) p (by simp)
      rw [sinceCall_concat, sinceCall_concat, if_neg (by simp), if_pos rfl] at hseen
      simp at hseen

/-- A read that clears the flag another one waits for can leave that one waiting. -/
theorem tick_taken {s₀ : RtcSystem} {es : List RtcEvent} {p q : Nat} (h : s₀.run es = some s)
    (howed : Owed s₀ es s) (hret : Step s (.ret p) s') (hflag : s.rtcInterrupt = true)
    (hwait : s.reader q = .waiting) :
    ∃ rest t, s₀.run (es ++ .ret p :: rest) = some t ∧ ¬ ReleasesWaiting s₀ (es ++ .ret p :: rest) := by
  obtain ⟨before, during, t, rfl, hno, ht, htwait⟩ := howed q hwait hflag
  have hrun := run_concat h hret
  obtain ⟨hclear, hwait'⟩ : s'.rtcInterrupt = false ∧ s'.reader q = .waiting := by
    cases hret with
    | ret _ hat =>
        have hq : q ≠ p := fun he => absurd ((he ▸ hwait).symm.trans hat) (by decide)
        exact ⟨rfl, (Function.update_of_ne hq _ _).trans hwait⟩
  -- the waiting process is switched to, and its handler ends if it is in one
  have hturn : ∃ pause u, RtcEvent.test q ∉ pause
      ∧ s₀.run (before ++ .interrupt :: during ++ [.ret p] ++ pause) = some u
      ∧ u.Executes q ∧ u.reader q = .waiting ∧ u.rtcInterrupt = false := by
    have hswitch := run_concat hrun (.switchTask q)
    by_cases hin : s'.inHandler q = true
    · have hunlock := run_concat hswitch (.unlock hin)
      rw [List.append_assoc] at hunlock
      exact ⟨[.switchTask q, .unlock], _, by simp, hunlock, ⟨rfl, Function.update_self _ _ _⟩, hwait', hclear⟩
    · exact ⟨[.switchTask q], _, by simp, hswitch, ⟨rfl, Bool.eq_false_iff.2 hin⟩, hwait', hclear⟩
  obtain ⟨pause, u, hpause, hu, hexec, huwait, huclear⟩ := hturn
  have hfinal := run_concat hu (.spin hexec huwait huclear)
  refine ⟨pause ++ [.test q], u, by simpa using hfinal, fun hreleases => ?_⟩
  have hout := hreleases before (during ++ [.ret p] ++ pause) q (by simp) (by simp [hno, hpause]) t u ht htwait
    (by simpa using hfinal)
  exact absurd (huwait.symm.trans hout) (by decide)

/-! ## Every interleaving -/

theorem owed_run {s₀ s : RtcSystem} (hstart : s₀.rtcInterrupt = false) {es : List RtcEvent}
    (hok : EachStep RtcSystem.step Undisturbed s₀ es) (hrun : s₀.run es = some s) : Owed s₀ es s := by
  have hboth : s₀.run es = some s ∧ Owed s₀ es s := by
    refine runEvents_invariant (I := fun es s => s₀.run es = some s ∧ Owed s₀ es s) ?_ ?_ hok hrun
    · exact ⟨rfl, fun p _ hflag => absurd (hstart.symm.trans hflag) (by decide)⟩
    · intro es e s s' h hund hstep
      exact ⟨runEvents_concat.2 ⟨s, h.1, hstep⟩, h.2.step h.1 hund (step_cases hstep)⟩
  exact hboth.2

theorem returnsAfterTick_run {p₀ : Nat} {es : List RtcEvent} {s : RtcSystem}
    (hok : EachStep RtcSystem.step Undisturbed (boot p₀) es) (hrun : (boot p₀).run es = some s) :
    ReturnsAfterTick es := by
  intro before p hpre
  obtain ⟨t', ht'⟩ := exists_runEvents_of_prefix hpre hrun
  obtain ⟨t, ht, hstep⟩ := runEvents_concat.1 ht'
  have hseen : TickSeen before t := by
    refine runEvents_invariant (I := TickSeen) ?_ (fun es e s s' h hund hs => h.step hund (step_cases hs))
      (hok.of_prefix ((List.prefix_append _ _).trans hpre)) ht
    intro q hq
    rcases hq with hq | ⟨hq, -⟩ <;> exact absurd hq (by simp [boot])
  cases step_cases hstep with
  | ret hexec hat => exact hseen p (Or.inl hat)

theorem releasesWaiting_run {s₀ : RtcSystem} {es : List RtcEvent}
    (hok : EachStep RtcSystem.step Undisturbed s₀ es) : ReleasesWaiting s₀ es := by
  intro before during p hpre hno t s' ht hwait hs'
  obtain ⟨s, hs, hstep⟩ := runEvents_concat.1 hs'
  have hok' := hok.of_prefix ((List.prefix_append _ _).trans hpre)
  obtain ⟨-, hflag⟩ := waiting_until_test ht hwait hno hok' hs
  cases step_cases hstep with
  | spin hexec hat hclear => exact absurd (hclear.symm.trans hflag) (by decide)
  | pass => exact Function.update_self _ _ _

end RtcSystem

open RtcSystem

/-- **A read waits for the next tick, and a tick releases all readers, as long as nothing disturbs the
    flag.** After any run without disturbance both hold; and whatever event then disturbs the flag can be
    continued so that one of them fails. -/
theorem rtc_read_waits_for_tick {p₀ : Nat} {es : List RtcEvent} {s : RtcSystem}
    (hrun : (boot p₀).run es = some s) (hok : EachStep RtcSystem.step Undisturbed (boot p₀) es) :
    (ReturnsAfterTick es ∧ ReleasesWaiting (boot p₀) es)
    ∧ ∀ e, (s.step e).isSome → ¬ s.Undisturbed e →
      ∃ rest t, (boot p₀).run (es ++ e :: rest) = some t
        ∧ ¬ (ReturnsAfterTick (es ++ e :: rest) ∧ ReleasesWaiting (boot p₀) (es ++ e :: rest)) := by
  refine ⟨⟨returnsAfterTick_run hok hrun, releasesWaiting_run hok⟩, fun e hsome hdist => ?_⟩
  obtain ⟨s', hstep⟩ := Option.isSome_iff_exists.1 hsome
  cases e with
  | call p =>
      obtain ⟨rest, t, ht, hbad⟩ := stale_tick hrun (step_cases hstep) (by simpa [Undisturbed] using hdist)
      exact ⟨rest, t, ht, fun h => hbad h.1⟩
  | ret p =>
      simp only [Undisturbed, Classical.not_imp, not_forall, not_not] at hdist
      obtain ⟨hflag, q, hq⟩ := hdist
      obtain ⟨rest, t, ht, hbad⟩ := tick_taken hrun (owed_run rfl hok hrun) (step_cases hstep) hflag hq
      exact ⟨rest, t, ht, fun h => hbad h.2⟩
  | _ => exact absurd trivial hdist

/-- One process waits, is interrupted by the clock and returns. -/
theorem rtc_read_waits_for_tick_alone :
    ReturnsAfterTick [.call 0, .test 0, .interrupt, .unlock, .test 0, .ret 0]
    ∧ ReleasesWaiting (boot 0) [.call 0, .test 0, .interrupt, .unlock, .test 0, .ret 0] := by
  have hrun : ∃ s, (boot 0).run [.call 0, .test 0, .interrupt, .unlock, .test 0, .ret 0] = some s :=
    ⟨_, rfl⟩
  have hok : EachStep RtcSystem.step Undisturbed (boot 0)
      ([] ++ [.call 0] ++ [.test 0] ++ [.interrupt] ++ [.unlock] ++ [.test 0] ++ [.ret 0]) := by
    refine (((((eachStep_nil.concat ?_).concat ?_).concat ?_).concat ?_).concat ?_).concat ?_
    · rintro s ⟨⟩
      rfl
    · exact fun s _ => trivial
    · exact fun s _ => trivial
    · exact fun s _ => trivial
    · exact fun s _ => trivial
    · rintro s ⟨⟩ - q
      by_cases hq : q = 0 <;> simp [setReader, hq, boot]
  obtain ⟨s, hs⟩ := hrun
  exact (rtc_read_waits_for_tick hs hok).1

/-- A tick from before the call lets a read return at once; and of two reads that wait for one tick, the
    second one waits on. -/
theorem rtc_read_misses_tick :
    ((boot 0).run [.interrupt, .unlock, .call 0, .test 0, .ret 0]).isSome
    ∧ ¬ ReturnsAfterTick [.interrupt, .unlock, .call 0, .test 0, .ret 0]
    ∧ ((boot 0).run [.call 0, .test 0, .switchTask 1, .call 1, .test 1, .interrupt, .unlock, .test 1, .ret 1,
        .switchTask 0, .test 0]).isSome
    ∧ ¬ ReleasesWaiting (boot 0) [.call 0, .test 0, .switchTask 1, .call 1, .test 1, .interrupt, .unlock,
        .test 1, .ret 1, .switchTask 0, .test 0] := by
  refine ⟨by decide, fun h => ?_, by decide, fun h => ?_⟩
  · exact absurd (h [.interrupt, .unlock, .call 0, .test 0] 0 (by decide)) (by decide)
  · have hout := h [.call 0, .test 0, .switchTask 1, .call 1, .test 1]
      [.unlock, .test 1, .ret 1, .switchTask 0] 0 (by decide) (by decide) _ _ rfl (by decide) rfl
    exact absurd hout (by decide)

/-- Without others, the statements of `rtc_read` do what the kernel's driver does. -/
theorem rtcRead_alone (k : Kernel) {s : RtcSystem} {p : Nat} (hflag : s.rtcInterrupt = k.rtcInterrupt)
    (hexec : s.Executes p) (hat : s.reader p = .outside) :
    (s.run [.call p, .test p, .ret p]).map (fun s => s.rtcInterrupt)
      = k.rtcRead.map (fun r => r.2.rtcInterrupt) := by
  have hcall := (Step.call hexec hat).step_eq
  have hwait : (s.setReader p .waiting).reader p = .waiting := Function.update_self _ _ _
  unfold Kernel.rtcRead
  cases hset : k.rtcInterrupt with
  | true =>
      have htest := (Step.pass (s := s.setReader p .waiting) hexec hwait (hflag.trans hset)).step_eq
      have hret := (Step.ret (s := (s.setReader p .waiting).setReader p .leaving) (p := p) hexec
        (Function.update_self _ _ _)).step_eq
      simp [run, runEvents, hcall, htest, hret]
  | false =>
      have htest := (Step.spin (s := s.setReader p .waiting) hexec hwait (hflag.trans hset)).step_eq
      have hret : (s.setReader p .waiting).step (.ret p) = none := by simp [step, hwait]
      simp [run, runEvents, hcall, htest, hret]

end UnixTerminal
