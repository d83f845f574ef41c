import Baffle.ControlSocket

namespace Baffle.Proofs

variable {s s' : ControlPath} {d : Nat} {daemon : ControlDaemon} {entry : Option BoundSocket}
  {held : Option Nat} {closed closed' : Prop}

/-- A bind gets a number that no guard remembers, at a moment when no guard is
between its check and its removal. -/
def Undisturbed : ControlLabel → ControlPath → Prop
  | .bind _ identity, s =>
    ∀ r < s.count, (s.daemons r).guard ≠ some identity ∧ s.stage r ≠ .dropping
  | _, _ => True

instance (label : ControlLabel) (s : ControlPath) : Decidable (Undisturbed label s) :=
  match label with
  | .bind _ identity => inferInstanceAs (Decidable
      (∀ r < s.count, (s.daemons r).guard ≠ some identity ∧ s.stage r ≠ .dropping))
  | .start | .acquire _ | .look _ | .inspect _ | .probe _ | .recheck _ | .unlinkStale _
  | .record _ | .finishBind _ | .giveUp _ | .close _ | .checkGuard _ | .removeGuarded _ =>
    .isTrue trivial

/-- The stages in which the path names the own socket. -/
def holdsPath : DaemonStage → Bool
  | .bound | .guarded | .serving => true
  | _ => false

/-- The stages after a probe that found nobody listening. -/
def foundStale : DaemonStage → Bool
  | .stale _ | .unlinking => true
  | _ => false

/-- Nobody listens on the socket at the path. -/
def Deserted (s : ControlPath) : Prop :=
  ∀ e, s.entry = some e → (s.daemons e.owner).listener = none

/-- What a daemon has to do with the path. -/
structure InPlace (entry : Option BoundSocket) (held : Option Nat) (closed : Prop) (d : Nat)
    (daemon : ControlDaemon) : Prop where
  guard : ∀ e, entry = some e → daemon.guard = some e.identity → e.owner = d
  holds : holdsPath daemon.stage = true → ∃ i, entry = some ⟨d, i⟩ ∧ daemon.listener = some i
  dropping : daemon.stage = .dropping → ∀ e, entry = some e → e.owner = d
  locked : daemon.stage.binds = true → held = some d
  stale : foundStale daemon.stage = true → closed

structure OwnControl (s : ControlPath) : Prop where
  each : ∀ d, InPlace s.entry s.lock (Deserted s) d (s.daemons d)
  later : ∀ d, s.count ≤ d → s.daemons d = .absent
  own : ∀ removal ∈ s.removals, removal.2 = removal.1

theorem InPlace.mono (h : InPlace entry held closed d daemon) (hc : closed → closed') :
    InPlace entry held closed' d daemon :=
  ⟨h.guard, h.holds, h.dropping, h.locked, fun hs => hc (h.stale hs)⟩

/-- A daemon that has no part in the path. -/
theorem fits_apart (entry : Option BoundSocket) (held : Option Nat) (closed : Prop) (d : Nat)
    (hg : daemon.guard = none) (ho : holdsPath daemon.stage = false)
    (hd : daemon.stage ≠ .dropping) (hb : daemon.stage.binds = false)
    (hs : foundStale daemon.stage = false) : InPlace entry held closed d daemon where
  guard _ _ h := by
    rw [hg] at h
    cases h
  holds h := by
    rw [ho] at h
    cases h
  dropping h := absurd h hd
  locked h := by
    rw [hb] at h
    cases h
  stale h := by
    rw [hs] at h
    cases h

theorem control_start : OwnControl ControlPath.init where
  each d := fits_apart none none _ d rfl rfl (fun h => nomatch h) rfl rfl
  later _ _ := rfl
  own _ h := absurd h List.not_mem_nil

theorem daemon_self (s : ControlPath) (d : Nat) (daemon : ControlDaemon) :
    (s.set d daemon).daemons d = daemon := Function.update_self ..

theorem daemon_other {r : Nat} (h : r ≠ d) : (s.set d daemon).daemons r = s.daemons r :=
  Function.update_of_ne h ..

theorem deserted_set (h : Deserted s)
    (hl : daemon.listener = none ∨ daemon.listener = (s.daemons d).listener) :
    Deserted (s.set d daemon) := by
  intro e he
  have hnone := h e he
  by_cases hd : e.owner = d
  · rw [hd, daemon_self]
    rw [hd] at hnone
    rcases hl with hl | hl
    · exact hl
    · exact hl.trans hnone
  · rw [daemon_other hd]
    exact hnone

theorem deserted_goto (h : Deserted s) (d : Nat) (stage : DaemonStage) :
    Deserted (s.goto d stage) :=
  deserted_set h (Or.inr rfl)

/-- A daemon moves by itself, and opens no listener. -/
theorem OwnControl.set (h : OwnControl s) (hd : s.stage d ≠ .absent)
    (hl : daemon.listener = none ∨ daemon.listener = (s.daemons d).listener)
    (hfits : InPlace s.entry s.lock (Deserted s) d daemon) : OwnControl (s.set d daemon) where
  each r := by
    by_cases hr : r = d
    · rw [hr, daemon_self]
      exact hfits.mono (fun hc => deserted_set hc hl)
    · rw [daemon_other hr]
      exact (h.each r).mono (fun hc => deserted_set hc hl)
  later r hle := by
    by_cases hr : r = d
    · rw [hr] at hle
      exact absurd (congrArg ControlDaemon.stage (h.later d hle)) hd
    · rw [daemon_other hr]
      exact h.later r hle
  own := h.own

theorem OwnControl.goto {stage : DaemonStage} (h : OwnControl s) (hd : s.stage d ≠ .absent)
    (hfits : InPlace s.entry s.lock (Deserted s) d { s.daemons d with stage }) :
    OwnControl (s.goto d stage) :=
  h.set hd (Or.inr rfl) hfits

/-- The lock goes to somebody else, or to nobody, when no other daemon binds. -/
theorem OwnControl.relock (h : OwnControl s) (hlock : ∀ r, (s.stage r).binds = true → held = some r) :
    OwnControl { s with lock := held } where
  each r := ⟨(h.each r).guard, (h.each r).holds, (h.each r).dropping, hlock r, (h.each r).stale⟩
  later := h.later
  own := h.own

theorem OwnControl.finish (h : OwnControl s) (hd : s.stage d ≠ .absent) :
    OwnControl (s.finish d) := by
  have hset : OwnControl (s.set d { stage := .stopped, listener := none, guard := none }) :=
    h.set hd (Or.inl rfl) (fits_apart _ _ _ d rfl rfl (fun h => nomatch h) rfl rfl)
  apply hset.relock
  intro r hr
  have hlock := (hset.each r).locked hr
  have hne : r ≠ d := by
    intro he
    rw [he, ControlPath.stage, daemon_self] at hr
    cases hr
  have hheld : s.lock = some r := hlock
  rw [hheld, if_neg]
  intro he
  exact hne (Option.some.inj he)

/-- The path is emptied when it names nobody's socket but the one's that moves. -/
theorem OwnControl.emptied (h : OwnControl s)
    (hothers : ∀ r, holdsPath (s.stage r) = false) : OwnControl { s with entry := none } where
  each r := by
    refine ⟨(fun _ he => nomatch he), ?_, (fun _ _ he => nomatch he), (h.each r).locked, ?_⟩
    · intro hr
      have hno : holdsPath (s.daemons r).stage = false := hothers r
      rw [hno] at hr
      cases hr
    · intro _ e he
      cases he
  later := h.later
  own := h.own

theorem absent_of_stage {stage : DaemonStage} (h : s.stage d = stage) (hne : stage ≠ .absent) :
    s.stage d ≠ .absent := by
  rw [h]
  exact hne

theorem control_begin (h : OwnControl s) :
    OwnControl { s.set s.count { ControlDaemon.absent with stage := .waiting } with
      count := s.count + 1 } where
  each r := by
    have hnone : (s.daemons s.count).listener = none := by
      rw [h.later s.count le_rfl]
      rfl
    by_cases hr : r = s.count
    · subst hr
      show InPlace s.entry s.lock _ s.count ((s.set s.count _).daemons s.count)
      rw [daemon_self]
      exact fits_apart _ _ _ _ rfl rfl (fun h => nomatch h) rfl rfl
    · show InPlace s.entry s.lock _ r ((s.set s.count _).daemons r)
      rw [daemon_other hr]
      exact (h.each r).mono (fun hc => deserted_set hc (Or.inl rfl))
  later r hle := by
    have hlt : s.count < r := hle
    show (s.set s.count _).daemons r = .absent
    rw [daemon_other (by omega)]
    exact h.later r (by omega)
  own := h.own

theorem OwnControl.binder (h : OwnControl s) {stage : DaemonStage} (hstage : s.stage d = stage)
    (hb : stage.binds = true) : s.lock = some d :=
  (h.each d).locked ((congrArg DaemonStage.binds hstage).trans hb)

/-- A daemon goes on to a stage in which the path is not its own. -/
theorem OwnControl.advance {stage : DaemonStage} (h : OwnControl s) (hd : s.stage d ≠ .absent)
    (hb : stage.binds = true → s.lock = some d) (hh : holdsPath stage = false)
    (hdrop : stage ≠ .dropping) (hstale : foundStale stage = true → Deserted s) :
    OwnControl (s.goto d stage) := by
  apply h.goto hd
  refine ⟨(h.each d).guard, ?_, fun hs => absurd hs hdrop, hb, hstale⟩
  intro hs
  rw [hh] at hs
  cases hs

theorem control_acquire (h : OwnControl s) (hs : s.acquire d = some s') : OwnControl s' := by
  unfold ControlPath.acquire at hs
  split at hs
  · rename_i hstage
    cases hs
    have hrelocked : OwnControl { s with lock := some d } := by
      apply h.relock
      intro r hr
      have hlock := (h.each r).locked hr
      rw [hstage.2] at hlock
      cases hlock
    show OwnControl (({ s with lock := some d } : ControlPath).goto d .locked)
    exact hrelocked.advance (absent_of_stage hstage.1 (fun h => nomatch h))
      (fun _ => rfl) rfl (fun h => nomatch h) (fun h => nomatch h)
  · cases hs

theorem control_look (h : OwnControl s) (hs : s.look d = some s') : OwnControl s' := by
  unfold ControlPath.look at hs
  split at hs
  · rename_i hstage
    cases hs
    have hlock := h.binder hstage rfl
    have hd := absent_of_stage hstage (fun h => nomatch h)
    split
    · exact h.advance hd (fun _ => hlock) rfl (fun h => nomatch h) (fun h => nomatch h)
    · exact h.advance hd (fun _ => hlock) rfl (fun h => nomatch h) (fun h => nomatch h)
  · cases hs

theorem control_inspect (h : OwnControl s) (hs : s.inspect d = some s') : OwnControl s' := by
  unfold ControlPath.inspect at hs
  split at hs
  · rename_i hstage
    have hd := absent_of_stage hstage (fun h => nomatch h)
    split at hs
    · cases hs
      exact h.finish hd
    · cases hs
      have hlock := h.binder hstage rfl
      exact h.advance hd (fun _ => hlock) rfl (fun h => nomatch h) (fun h => nomatch h)
  · cases hs

/-- A probe that finds nobody listening is right, and stays right. -/
theorem control_probe (h : OwnControl s) (hs : s.probe d = some s') : OwnControl s' := by
  unfold ControlPath.probe at hs
  split at hs
  · rename_i identity hstage
    have hd := absent_of_stage hstage (fun h => nomatch h)
    split at hs
    · cases hs
      exact h.finish hd
    · rename_i hsilent
      cases hs
      have hlock := h.binder hstage rfl
      refine h.advance hd (fun _ => hlock) rfl (fun h => nomatch h) ?_
      intro _ e he
      rw [he, Option.any_some, ControlPath.listening] at hsilent
      exact Option.not_isSome_iff_eq_none.mp hsilent
  · cases hs

theorem control_recheck (h : OwnControl s) (hs : s.recheck d = some s') : OwnControl s' := by
  unfold ControlPath.recheck at hs
  split at hs
  · rename_i identity hstage
    have hd := absent_of_stage hstage (fun h => nomatch h)
    split at hs
    · cases hs
      have hlock := h.binder hstage rfl
      refine h.advance hd (fun _ => hlock) rfl (fun h => nomatch h) ?_
      intro _
      exact (h.each d).stale (congrArg foundStale hstage)
    · cases hs
      exact h.finish hd
  · cases hs

theorem control_unlink (h : OwnControl s) (hs : s.unlinkStale d = some s') : OwnControl s' := by
  unfold ControlPath.unlinkStale at hs
  split at hs
  · rename_i hstage
    have hd := absent_of_stage hstage (fun h => nomatch h)
    split at hs
    · cases hs
      have hlock := h.binder hstage rfl
      have hdeserted : Deserted s := (h.each d).stale (congrArg foundStale hstage)
      have hclear : OwnControl (s.goto d .clear) :=
        h.advance hd (fun _ => hlock) rfl (fun h => nomatch h) (fun h => nomatch h)
      apply hclear.emptied
      intro r
      by_contra hr
      have hholds : holdsPath ((s.goto d .clear).daemons r).stage = true := eq_true_of_ne_false hr
      obtain ⟨i, hi, hl⟩ := (hclear.each r).holds hholds
      have hnone : ((s.goto d .clear).daemons r).listener = none :=
        deserted_goto hdeserted d .clear ⟨r, i⟩ hi
      rw [hnone] at hl
      cases hl
    · cases hs
      exact h.finish hd
  · cases hs

theorem control_bind {identity : FileIdentity} (h : OwnControl s)
    (ha : ∀ r < s.count, (s.daemons r).guard ≠ some identity ∧ s.stage r ≠ .dropping)
    (hs : s.bind d identity = some s') : OwnControl s' := by
  unfold ControlPath.bind at hs
  split at hs
  · rename_i hfree
    obtain ⟨hstage, hfree, -⟩ := hfree
    cases hs
    have hnone : s.entry = none := Option.isNone_iff_eq_none.mp hfree
    have hlock := h.binder hstage rfl
    refine ⟨?_, ?_, h.own⟩
    · intro r
      by_cases hr : r = d
      · subst hr
        show InPlace (some ⟨r, identity⟩) s.lock _ r ((s.set r _).daemons r)
        rw [daemon_self]
        refine ⟨?_, fun _ => ⟨identity, rfl, rfl⟩, (fun h => nomatch h), fun _ => hlock,
          (fun h => nomatch h)⟩
        intro e he _
        cases he
        rfl
      · have hold := h.each r
        have hquiet : (s.daemons r).guard ≠ some identity ∧ (s.daemons r).stage ≠ .dropping := by
          rcases Nat.lt_or_ge r s.count with hlt | hge
          · exact ha r hlt
          · rw [h.later r hge]
            exact ⟨(fun h => nomatch h), (fun h => nomatch h)⟩
        show InPlace (some ⟨d, identity⟩) s.lock _ r ((s.set d _).daemons r)
        rw [daemon_other hr]
        refine ⟨?_, ?_, fun hdrop => absurd hdrop hquiet.2, hold.locked, ?_⟩
        · intro e he hguard
          cases he
          exact absurd hguard hquiet.1
        · intro hholds
          obtain ⟨i, hi, -⟩ := hold.holds hholds
          rw [hnone] at hi
          cases hi
        · intro hstale
          have hbinds : (s.daemons r).stage.binds = true := by
            generalize (s.daemons r).stage = stage at hstale
            cases stage <;> first | rfl | cases hstale
          have hother := hold.locked hbinds
          rw [hlock] at hother
          exact absurd (Option.some.inj hother).symm hr
    · intro r hle
      have hr : r ≠ d := by
        intro he
        have habsent := h.later r hle
        rw [he] at habsent
        rw [ControlPath.stage, habsent] at hstage
        cases hstage
      show (s.set d _).daemons r = .absent
      rw [daemon_other hr]
      exact h.later r hle
  · cases hs

theorem control_record (h : OwnControl s) (hs : s.record d = some s') : OwnControl s' := by
  unfold ControlPath.record at hs
  split at hs
  · rename_i hstage
    have hd := absent_of_stage hstage (fun h => nomatch h)
    obtain ⟨i, hi, hl⟩ := (h.each d).holds (congrArg holdsPath hstage)
    rw [hi] at hs
    cases hs
    have hlock := h.binder hstage rfl
    refine h.set hd ?_ ⟨?_, fun _ => ⟨i, hi, hl⟩, (fun h => nomatch h), fun _ => hlock,
      (fun h => nomatch h)⟩
    · exact Or.inr rfl
    · intro e he _
      rw [hi] at he
      cases he
      rfl
  · cases hs

theorem control_finish_bind (h : OwnControl s) (hs : s.finishBind d = some s') :
    OwnControl s' := by
  unfold ControlPath.finishBind at hs
  split at hs
  · rename_i hstage
    cases hs
    have hd := absent_of_stage hstage (fun h => nomatch h)
    have hlock := h.binder hstage rfl
    have hholds := (h.each d).holds (congrArg holdsPath hstage)
    have hserving : OwnControl (s.goto d .serving) := by
      apply h.goto hd
      exact ⟨(h.each d).guard, fun _ => hholds, (fun h => nomatch h), (fun h => nomatch h),
        (fun h => nomatch h)⟩
    apply hserving.relock
    intro r hr
    have hother : s.lock = some r := (hserving.each r).locked hr
    rw [hlock] at hother
    obtain rfl := Option.some.inj hother
    rw [ControlPath.stage, ControlPath.goto, daemon_self] at hr
    cases hr
  · cases hs

theorem control_give_up (h : OwnControl s) (hs : s.giveUp d = some s') : OwnControl s' := by
  unfold ControlPath.giveUp at hs
  split at hs
  · rename_i hstage
    cases hs
    have hd := absent_of_stage hstage (fun h => nomatch h)
    exact h.advance hd (fun h => nomatch h) rfl (fun h => nomatch h) (fun h => nomatch h)
  · split at hs
    · rename_i hbinds
      cases hs
      apply h.finish
      intro habsent
      rw [habsent] at hbinds
      rcases hbinds with h | h <;> cases h
    · cases hs

theorem control_close (h : OwnControl s) (hs : s.close d = some s') : OwnControl s' := by
  unfold ControlPath.close at hs
  split at hs
  · rename_i hstage
    cases hs
    have hd := absent_of_stage hstage (fun h => nomatch h)
    apply h.set hd (Or.inl rfl)
    exact ⟨(h.each d).guard, (fun h => nomatch h), (fun h => nomatch h), (fun h => nomatch h),
      (fun h => nomatch h)⟩
  · cases hs

theorem control_check (h : OwnControl s) (hs : s.checkGuard d = some s') : OwnControl s' := by
  unfold ControlPath.checkGuard at hs
  split at hs
  · rename_i hstage
    have hd := absent_of_stage hstage (fun h => nomatch h)
    split at hs
    · rename_i hfound
      cases hs
      apply h.goto hd
      refine ⟨(h.each d).guard, (fun h => nomatch h), ?_, (fun h => nomatch h),
        (fun h => nomatch h)⟩
      intro _ e he
      have hsame := hfound.2
      rw [he] at hsame
      exact (h.each d).guard e he hsame.symm
    · cases hs
      exact h.finish hd
  · cases hs

theorem control_remove (h : OwnControl s) (hs : s.removeGuarded d = some s') :
    OwnControl s' := by
  unfold ControlPath.removeGuarded at hs
  split at hs
  · rename_i hstage
    have hd := absent_of_stage hstage (fun h => nomatch h)
    have hfinish := h.finish hd
    split at hs
    · cases hs
      exact hfinish
    · rename_i e he
      cases hs
      have howner : e.owner = d := (h.each d).dropping hstage e he
      have hempty : OwnControl { s.finish d with entry := none } := by
        apply hfinish.emptied
        intro r
        by_contra hr
        have hholds : holdsPath ((s.finish d).daemons r).stage = true := eq_true_of_ne_false hr
        obtain ⟨i, hi, -⟩ := (hfinish.each r).holds hholds
        have hentry : s.entry = some ⟨r, i⟩ := hi
        rw [he] at hentry
        cases hentry
        obtain rfl : r = d := howner
        have hstopped : ((s.finish r).daemons r).stage = .stopped :=
          congrArg ControlDaemon.stage (daemon_self s r _)
        rw [hstopped] at hholds
        cases hholds
      refine ⟨hempty.each, hempty.later, ?_⟩
      intro removal hm
      rcases List.mem_append.mp hm with hm | hm
      · exact h.own removal hm
      · rw [List.mem_singleton.mp hm]
        exact howner
  · cases hs

theorem control_step {label : ControlLabel} (h : OwnControl s) (ha : Undisturbed label s)
    (hs : ControlPath.step label s = some s') : OwnControl s' := by
  cases label with
  | start =>
    cases hs
    exact control_begin h
  | acquire d => exact control_acquire h hs
  | look d => exact control_look h hs
  | inspect d => exact control_inspect h hs
  | probe d => exact control_probe h hs
  | recheck d => exact control_recheck h hs
  | unlinkStale d => exact control_unlink h hs
  | bind d identity => exact control_bind h ha hs
  | record d => exact control_record h hs
  | finishBind d => exact control_finish_bind h hs
  | giveUp d => exact control_give_up h hs
  | close d => exact control_close h hs
  | checkGuard d => exact control_check h hs
  | removeGuarded d => exact control_remove h hs

/-- No guard removes the socket of another daemon, and the control path names the
socket of each daemon that serves. -/
def OwnSockets (s : ControlPath) : Prop :=
  (∀ removal ∈ s.removals, removal.2 = removal.1) ∧
    ∀ d, s.stage d = .serving →
      ∃ i, s.entry = some ⟨d, i⟩ ∧ (s.daemons d).listener = some i

/-- As long as a bind gets a number that no guard remembers, and no guard is between
its check and its removal then, every daemon keeps its control socket. -/
theorem sockets_kept (h : ReachBy ControlPath.step Undisturbed ControlPath.init s) :
    OwnSockets s := by
  have hown : OwnControl s :=
    ReachBy.invariant control_start (fun _ hi ha hs => control_step hi ha hs) h
  refine ⟨hown.own, ?_⟩
  intro d hd
  exact (hown.each d).holds (congrArg holdsPath hd)

/-- A daemon stops while its successor starts, with a number of its own. -/
def orderlySuccession : List ControlLabel :=
  [.start, .acquire 0, .look 0, .bind 0 ⟨1, 5⟩, .record 0, .finishBind 0, .start, .close 0,
    .acquire 1, .look 1, .inspect 1, .probe 1, .recheck 1, .unlinkStale 1, .bind 1 ⟨1, 6⟩,
    .record 1, .finishBind 1, .checkGuard 0]

theorem sockets_kept_orderly : ∃ s : ControlPath, s.stage 0 = .stopped ∧ s.stage 1 = .serving ∧
    OwnSockets s := by
  have hrun : (runSteps (fun label s => if decide (Undisturbed label s) then
      ControlPath.step label s else none) orderlySuccession ControlPath.init).any
      (fun s => decide (s.stage 0 = .stopped) && decide (s.stage 1 = .serving)) = true := by
    decide +kernel
  obtain ⟨s, hs, htest⟩ := run_any hrun
  rw [Bool.and_eq_true] at htest
  exact ⟨s, of_decide_eq_true htest.1, of_decide_eq_true htest.2,
    sockets_kept (reach_by_run (fun _ hc => of_decide_eq_true hc) .start hs)⟩

/-- The successor finds the socket stale, removes it and gets its number, and then
the first daemon drops its guard. -/
def successionReused : List ControlLabel :=
  [.start, .acquire 0, .look 0, .bind 0 ⟨1, 5⟩, .record 0, .finishBind 0, .start, .close 0,
    .acquire 1, .look 1, .inspect 1, .probe 1, .recheck 1, .unlinkStale 1, .bind 1 ⟨1, 5⟩,
    .record 1, .finishBind 1, .checkGuard 0, .removeGuarded 0]

/-- The successor does all that between the check of the guard and its removal; its
number is a new one. -/
def successionOvertaken : List ControlLabel :=
  [.start, .acquire 0, .look 0, .bind 0 ⟨1, 5⟩, .record 0, .finishBind 0, .start, .close 0,
    .checkGuard 0, .acquire 1, .look 1, .inspect 1, .probe 1, .recheck 1, .unlinkStale 1,
    .bind 1 ⟨1, 6⟩, .record 1, .finishBind 1, .removeGuarded 0]

theorem removed_successor (labels : List ControlLabel)
    (hrun : (runSteps ControlPath.step labels ControlPath.init).any
      (fun s => decide (s.stage 1 = .serving) && s.entry.isNone) = true) :
    ∃ s, Reach ControlPath.step ControlPath.init s ∧ ¬ OwnSockets s := by
  obtain ⟨s, hs, htest⟩ := run_any hrun
  rw [Bool.and_eq_true] at htest
  refine ⟨s, reach_run .start hs, ?_⟩
  intro hown
  obtain ⟨i, hi, -⟩ := hown.2 1 (of_decide_eq_true htest.1)
  rw [hi] at htest
  cases htest.2

/-- The first daemon removes the control socket of the second. -/
theorem successor_removed : ¬ ∀ s, Reach ControlPath.step ControlPath.init s → OwnSockets s := by
  intro h
  obtain ⟨s, hreach, hno⟩ := removed_successor successionReused (by decide +kernel)
  exact hno (h s hreach)

/-- It does so with no number used twice, too. -/
theorem successor_overtaken : ∃ s, Reach ControlPath.step ControlPath.init s ∧ ¬ OwnSockets s :=
  removed_successor successionOvertaken (by decide +kernel)

end Baffle.Proofs
