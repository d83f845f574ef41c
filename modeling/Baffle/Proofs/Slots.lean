import Baffle.Proofs.Completion

namespace Baffle

/-- The provisioning permits that a connection task holds. -/
def Handler.permits : Handler → Nat
  | .creating _ | .responding _ _ true => 1
  | _ => 0

namespace Proofs

variable {P : Type} {c : ControlServer P} {s s' : ServerState P} {t : TaskId}

/-- A session is leased only to a task that has given its permit back. -/
def Unburdened (handler : Handler) : Prop :=
  ∀ response id permit, handler = .responding response (some id) permit → permit = false

/-- The effect of a step on the permits. -/
inductive Trades (s : ServerState P) : ServerState P → Prop where
  | connected : Trades s
      { s.setHandler s.nextHandler .reading with nextHandler := s.nextHandler + 1 }
  | moved (k : Nat) (handler : Handler) (slots : Nat) (core : State P)
      (hk : s.handlers k ≠ .absent)
      (h : slots + handler.permits = s.provisioningSlots + (s.handlers k).permits)
      (hl : Unburdened handler) :
      Trades s { s.setHandler k handler with core, provisioningSlots := slots }
  | kept (core : State P) (cleanups : List TaskId) (phase : ServerPhase) :
      Trades s { s with core, cleanups, phase }

theorem unburdened_plain {response : Response} {permit : Bool} :
    Unburdened (.responding response none permit) := by
  rintro _ _ _ ⟨⟩

/-- A task moves on and its permit stays where it is. -/
theorem Trades.same {k : Nat} {old handler : Handler} {core : State P} (hk : s.handlers k = old)
    (hne : old ≠ .absent) (h : handler.permits = old.permits) (hl : Unburdened handler) :
    Trades s { s.setHandler k handler with core } :=
  .moved k handler s.provisioningSlots core (hk ▸ hne) (by rw [h, hk]) hl

/-- A task gives up the permit that it holds. -/
theorem Trades.released {k : Nat} {old handler : Handler} (permit : Bool)
    (hk : s.handlers k = old) (hne : old ≠ .absent) (ho : old.permits = if permit then 1 else 0)
    (h : handler.permits = 0) (hl : Unburdened handler) :
    Trades s ((s.release permit).setHandler k handler) := by
  cases permit with
  | true =>
    refine .moved k handler (s.provisioningSlots + 1) s.core (hk ▸ hne) ?_ hl
    rw [h, hk, ho]
    rfl
  | false =>
    refine .moved k handler s.provisioningSlots s.core (hk ▸ hne) ?_ hl
    rw [h, hk, ho]
    rfl

/-- A task takes a permit while there is one. -/
theorem Trades.acquired {k : Nat} {handler : Handler} {core : State P}
    (hk : s.handlers k = .reading) (hs : s.provisioningSlots ≠ 0) (h : handler.permits = 1)
    (hl : Unburdened handler) :
    Trades s { s.acquire.setHandler k handler with core } := by
  refine .moved k handler (s.provisioningSlots - 1) core (by rw [hk]; rintro ⟨⟩) ?_ hl
  rw [h, hk]
  show s.provisioningSlots - 1 + 1 = s.provisioningSlots + 0
  omega

section

variable [DecidableEq P]

theorem call_trades {k : Nat} {old : Handler} {a : Action P} {next : TaskId → Handler}
    (hs : c.call s k a next = some s') (hk : s.handlers k = old) (hne : old ≠ .absent)
    (h : ∀ t, (next t).permits = old.permits) (hl : ∀ t, Unburdened (next t)) : Trades s s' := by
  obtain ⟨core, -, rfl⟩ := call_some hs
  exact .same hk hne (h _) (hl _)

theorem create_session_trades {k : Nat} {session : SessionConfig} {configSource : Option Text}
    {draw : Draw} {env : Environment P} (hk : s.handlers k = .reading)
    (hslots : s.provisioningSlots ≠ 0)
    (hs : c.createSession k session configSource draw env s = some s') : Trades s s' := by
  unfold ControlServer.createSession at hs
  split at hs
  · rw [← Option.some.inj hs]
    exact .same hk (by rintro ⟨⟩) rfl unburdened_plain
  · obtain ⟨core, -, rfl⟩ := call_some hs
    exact .acquired hk hslots rfl (by rintro _ _ _ ⟨⟩)

theorem request_trades {k : Nat} {request : ControlRequest} {draw : Draw} {env : Environment P}
    (hk : s.handlers k = .reading) (hs : c.handleRequest k request draw env s = some s') :
    Trades s s' := by
  have hrefused : ∀ response, Trades s (s.respond k response) :=
    fun response => .same hk (by rintro ⟨⟩) rfl unburdened_plain
  have hcall : ∀ {a : Action P}, c.call s k a (.calling request) = some s' → Trades s s' :=
    fun hs => call_trades hs hk (by rintro ⟨⟩) (fun _ => rfl) (fun _ => by rintro _ _ _ ⟨⟩)
  cases request with
  | create session =>
    simp only [ControlServer.handleRequest] at hs
    split at hs
    · rw [← Option.some.inj hs]
      exact hrefused _
    · split at hs
      · rw [← Option.some.inj hs]
        exact hrefused _
      · rename_i hslots
        exact create_session_trades hk hslots hs
  | createFromFile name requireEphemeral =>
    simp only [ControlServer.handleRequest] at hs
    split at hs
    · rw [← Option.some.inj hs]
      exact hrefused _
    · split at hs
      · rw [← Option.some.inj hs]
        exact hrefused _
      · rename_i hslots
        unfold ControlServer.createFromFile at hs
        split at hs
        · rw [← Option.some.inj hs]
          exact .acquired hk hslots rfl unburdened_plain
        · split at hs
          · rw [← Option.some.inj hs]
            exact .acquired hk hslots rfl unburdened_plain
          · split at hs
            · rw [← Option.some.inj hs]
              exact hrefused _
            · exact create_session_trades hk hslots hs
  | stop id => exact hcall hs
  | reload id => exact hcall hs
  | reloadAll => exact hcall hs
  | list => exact hcall hs

omit [DecidableEq P] in
theorem proceed_trades {k : Nat} (hs : ControlServer.proceed k s = some s') : Trades s s' := by
  unfold ControlServer.proceed at hs
  split at hs
  · rename_i t hk
    split at hs
    · rw [← Option.some.inj hs]
      refine .released true hk (by rintro ⟨⟩) rfl rfl ?_
      intro _ _ _ h
      injection h with _ _ h
      exact h.symm
    · cases hs
  · rename_i request t hk
    obtain ⟨response, -, rfl⟩ := Option.map_eq_some_iff.mp hs
    exact .same hk (by rintro ⟨⟩) rfl unburdened_plain
  · rename_i t id hk
    split at hs
    · rw [← Option.some.inj hs]
      exact .same hk (by rintro ⟨⟩) rfl (by rintro _ _ _ ⟨⟩)
    · cases hs
  · cases hs

theorem responding_permits (response : Response) (lease : Option SessionId) (permit : Bool) :
    (Handler.responding response lease permit).permits = if permit then 1 else 0 := by
  cases permit <;> rfl

theorem written_trades (h : ∀ k, Unburdened (s.handlers k)) {k : Nat} {ok : Bool}
    (hs : c.written k ok s = some s') : Trades s s' := by
  unfold ControlServer.written at hs
  split at hs
  · rename_i response id permit hk
    obtain rfl := h k response id permit hk
    split at hs
    · rw [← Option.some.inj hs]
      exact .same hk (by rintro ⟨⟩) rfl (by rintro _ _ _ ⟨⟩)
    · exact call_trades hs hk (by rintro ⟨⟩) (fun _ => rfl) (fun _ => by rintro _ _ _ ⟨⟩)
  · rename_i response permit hk
    rw [← Option.some.inj hs]
    exact .released permit hk (by rintro ⟨⟩) (responding_permits _ _ _) rfl (by rintro _ _ _ ⟨⟩)
  · cases hs

theorem abort_trades {k : Nat} (hs : c.abortHandler k s = some s') : Trades s s' := by
  have hplain : Unburdened .aborted := by rintro _ _ _ ⟨⟩
  unfold ControlServer.abortHandler at hs
  split at hs
  · rename_i hk
    rw [← Option.some.inj hs]
    exact .same hk (by rintro ⟨⟩) rfl hplain
  · rename_i id hk
    rw [← Option.some.inj hs]
    exact .same hk (by rintro ⟨⟩) rfl hplain
  · rename_i response lease permit hk
    rw [← Option.some.inj hs]
    exact .released permit hk (by rintro ⟨⟩) (responding_permits _ _ _) rfl hplain
  · rename_i t hk
    obtain ⟨s1, hs1, rfl⟩ := Option.map_eq_some_iff.mp hs
    obtain ⟨core, -, rfl⟩ := on_core_some hs1
    refine .moved k .aborted (s.provisioningSlots + 1) core (by rw [hk]; rintro ⟨⟩) ?_ hplain
    rw [hk]
    rfl
  · rename_i request t hk
    obtain ⟨s1, hs1, rfl⟩ := Option.map_eq_some_iff.mp hs
    obtain ⟨core, -, rfl⟩ := on_core_some hs1
    exact .same hk (by rintro ⟨⟩) rfl hplain
  · rename_i t id hk
    obtain ⟨s1, hs1, rfl⟩ := Option.map_eq_some_iff.mp hs
    obtain ⟨core, -, rfl⟩ := on_core_some hs1
    exact .same hk (by rintro ⟨⟩) rfl hplain
  · cases hs

theorem core_trades {a : Action P} (hs : c.onCore s a = some s') : Trades s s' := by
  obtain ⟨core, -, rfl⟩ := on_core_some hs
  exact .kept core s.cleanups s.phase

theorem shutdown_trades {a : ServerAction P} (hs : c.proceedShutdown s a = some s') :
    Trades s s' := by
  cases a with
  | shutdown =>
    simp only [ControlServer.proceedShutdown] at hs
    split at hs
    · obtain ⟨s1, hs1, rfl⟩ := Option.map_eq_some_iff.mp hs
      obtain ⟨core, -, rfl⟩ := on_core_some hs1
      exact .kept core s.cleanups _
    · cases hs
  | abortAll =>
    simp only [ControlServer.proceedShutdown] at hs
    split at hs
    · split at hs
      · rw [← Option.some.inj hs]
        exact .kept s.core s.cleanups _
      · cases hs
    · cases hs
  | joinConnections =>
    simp only [ControlServer.proceedShutdown] at hs
    split at hs
    · rw [← Option.some.inj hs]
      exact .kept s.core s.cleanups _
    · cases hs
  | joinCleanups =>
    simp only [ControlServer.proceedShutdown] at hs
    split at hs
    · obtain ⟨s1, hs1, rfl⟩ := Option.map_eq_some_iff.mp hs
      obtain ⟨core, -, rfl⟩ := on_core_some hs1
      exact .kept core s.cleanups _
    · cases hs
  | finish =>
    simp only [ControlServer.proceedShutdown] at hs
    split at hs
    · split at hs
      · rw [← Option.some.inj hs]
        exact .kept s.core s.cleanups _
      · cases hs
    · cases hs
  | _ => cases hs

theorem step_trades (h : ∀ k, Unburdened (s.handlers k)) {a : ServerAction P}
    (hs : c.step a s = some s') : Trades s s' := by
  cases a with
  | connect =>
    simp only [ControlServer.step] at hs
    split at hs
    · rw [← Option.some.inj hs]
      exact .connected
    · cases hs
  | reject k error =>
    simp only [ControlServer.step] at hs
    split at hs
    · rename_i hk
      rw [← Option.some.inj hs]
      exact .same hk (by rintro ⟨⟩) rfl unburdened_plain
    · cases hs
  | hangUp k =>
    simp only [ControlServer.step] at hs
    split at hs
    · rename_i hk
      rw [← Option.some.inj hs]
      exact .same hk (by rintro ⟨⟩) rfl (by rintro _ _ _ ⟨⟩)
    · cases hs
  | request k raw draw env =>
    simp only [ControlServer.step] at hs
    split at hs
    · rename_i hk
      split at hs
      · exact request_trades hk hs
      · rw [← Option.some.inj hs]
        exact .same hk (by rintro ⟨⟩) rfl unburdened_plain
    · cases hs
  | proceed k => exact proceed_trades hs
  | written k ok => exact written_trades h hs
  | readReturns k =>
    simp only [ControlServer.step, ControlServer.readReturns] at hs
    split at hs
    · rename_i id hk
      exact call_trades hs hk (by rintro ⟨⟩) (fun _ => rfl) (fun _ => by rintro _ _ _ ⟨⟩)
    · cases hs
  | abort k =>
    simp only [ControlServer.step] at hs
    split at hs
    · exact abort_trades hs
    · cases hs
  | deliver =>
    simp only [ControlServer.step] at hs
    split at hs
    · obtain ⟨s1, hs1, rfl⟩ := Option.map_eq_some_iff.mp hs
      obtain ⟨core, -, rfl⟩ := on_core_some hs1
      exact .kept core _ s.phase
    · cases hs
  | advance t env => exact core_trades hs
  | expire t => exact core_trades hs
  | runtime r move => exact core_trades hs
  | shutdown => exact shutdown_trades (c := c) (a := .shutdown) hs
  | abortAll => exact shutdown_trades (c := c) (a := .abortAll) hs
  | joinConnections => exact shutdown_trades (c := c) (a := .joinConnections) hs
  | joinCleanups => exact shutdown_trades (c := c) (a := .joinCleanups) hs
  | finish => exact shutdown_trades (c := c) (a := .finish) hs

end

/-- Every permit is free or held by a connection task. -/
structure Spent (c : ControlServer P) (s : ServerState P) : Prop where
  slots : s.provisioningSlots + overHandlers Handler.permits s = c.maxProvisioningRequests
  unburdened : ∀ k, Unburdened (s.handlers k)

theorem unburdened_set (h : ∀ k, Unburdened (s.handlers k)) (k : Nat) {handler : Handler}
    (hl : Unburdened handler) (j : Nat) : Unburdened ((s.setHandler k handler).handlers j) := by
  by_cases hj : j = k
  · subst hj
    simp only [ServerState.setHandler, Function.update_self]
    exact hl
  · simp only [ServerState.setHandler, Function.update_of_ne hj]
    exact h j

theorem Spent.trades (hj : Joined s) (h : Spent c s) (ht : Trades s s') : Spent c s' := by
  cases ht with
  | connected =>
    refine ⟨?_, unburdened_set h.unburdened _ (by rintro _ _ _ ⟨⟩)⟩
    have hold : ∀ k ∈ Finset.range s.nextHandler,
        ((s.setHandler s.nextHandler .reading).handlers k).permits = (s.handlers k).permits := by
      intro k hk
      simp only [ServerState.setHandler,
        Function.update_of_ne (Nat.ne_of_lt (Finset.mem_range.mp hk))]
    have hnew : ((s.setHandler s.nextHandler .reading).handlers s.nextHandler).permits = 0 := by
      simp only [ServerState.setHandler, Function.update_self, Handler.permits]
    rw [← h.slots]
    refine congrArg (s.provisioningSlots + ·) ?_
    show ∑ k ∈ Finset.range (s.nextHandler + 1), _ = _
    rw [Finset.sum_range_succ, hnew, Finset.sum_congr rfl hold]
    rfl
  | moved k handler slots core hk htrade hl =>
    refine ⟨?_, unburdened_set h.unburdened k hl⟩
    have hlive : k < s.nextHandler := handler_live hj rfl hk
    have hsum := over_handler Handler.permits hlive handler
    have hspent := h.slots
    show slots + overHandlers Handler.permits (s.setHandler k handler) = _
    omega
  | kept core cleanups phase => exact ⟨h.slots, h.unburdened⟩

/-- The calls of `create` in progress each have a connection task of their own. -/
theorem creating_few (hd : Joined s) (hg : Granted s) (ts : Finset TaskId)
    (hts : ∀ t ∈ ts, (s.core.tasks t).over = false ∧ ∃ call stage,
      s.core.tasks t = .create call stage) : ts.card ≤ overHandlers Handler.permits s := by
  have hhandler : ∀ t ∈ ts, ∃ k, s.handlers k = .creating t := by
    intro t ht
    obtain ⟨hover, call, stage, hpc⟩ := hts t ht
    exact hg.awaited t call stage hpc hover
  choose! k hk using hhandler
  have hlive : ts.image k ⊆ Finset.range s.nextHandler := by
    intro j hj
    obtain ⟨t, ht, rfl⟩ := Finset.mem_image.mp hj
    exact Finset.mem_range.mpr (handler_live hd (hk t ht) (by rintro ⟨⟩))
  have hinj : Set.InjOn k ts := by
    intro t ht u hu hsame
    have h1 := hk t ht
    rw [hsame, hk u hu] at h1
    cases h1
    rfl
  have hone : ∀ j ∈ ts.image k, (s.handlers j).permits = 1 := by
    intro j hj
    obtain ⟨t, ht, rfl⟩ := Finset.mem_image.mp hj
    rw [hk t ht]
    rfl
  calc ts.card = (ts.image k).card := (Finset.card_image_of_injOn hinj).symm
    _ = ∑ j ∈ ts.image k, (s.handlers j).permits := by
        rw [Finset.sum_congr rfl hone, Finset.sum_const, smul_eq_mul, Nat.mul_one]
    _ ≤ overHandlers Handler.permits s := Finset.sum_le_sum_of_subset hlive

variable [DecidableEq P]

theorem spent_reach (h : Reach c.step c.init s) : Spent c s := by
  have h0 : Spent c c.init := ⟨rfl, by rintro _ _ _ _ ⟨⟩⟩
  exact h.invariant h0 (fun hr hi hs =>
    hi.trades (orderly_reach hr).joined (step_trades hi.unburdened hs))

/-- No provisioning permit is lost or made: in every state of every run each is free or
held by exactly one connection task, so no more sessions are being created at a time than
the daemon allows, and after a shutdown all permits are free again. -/
theorem provisioning_bounded (c : ControlServer P) (h : Reach c.step c.init s) :
    s.provisioningSlots + overHandlers Handler.permits s = c.maxProvisioningRequests ∧
      (∀ ts : Finset TaskId, (∀ t ∈ ts, (s.core.tasks t).over = false ∧ ∃ call stage,
        s.core.tasks t = .create call stage) → ts.card ≤ c.maxProvisioningRequests) ∧
      (s.phase = .stopped → s.provisioningSlots = c.maxProvisioningRequests) := by
  have hspent := (spent_reach h).slots
  have hjoined := (orderly_reach h).joined
  refine ⟨hspent, fun ts hts => ?_, fun hp => ?_⟩
  · have hfew := creating_few hjoined (granted_reach h) ts hts
    omega
  · have hnone : overHandlers Handler.permits s = 0 := by
      refine Finset.sum_eq_zero (fun k hk => ?_)
      have hover := hjoined.connections (by rw [hp]; rfl) k (Finset.mem_range.mp hk)
      cases hhandler : s.handlers k with
      | ended => rfl
      | aborted => rfl
      | _ =>
        rw [hhandler] at hover
        cases hover
    omega

/-- While the one permit of the sample server is taken, one session is being created. -/
theorem provisioning_bounded_sample :
    ∃ s, Reach sampleServer.step sampleServer.init s ∧ s.provisioningSlots = 0 ∧
      overHandlers Handler.permits s = 1 ∧ s.core.acceptingSessions = true := by
  have hrun : (runSteps sampleServer.step (sampleLease.take 3) sampleServer.init).any
      (fun s => s.provisioningSlots == 0 && s.core.acceptingSessions == true) = true := by
    decide +kernel
  obtain ⟨s, hs, htest⟩ := run_any hrun
  simp only [Bool.and_eq_true, beq_iff_eq] at htest
  have hreach : Reach sampleServer.step sampleServer.init s := reach_run .start hs
  have hslots := (provisioning_bounded sampleServer hreach).1
  rw [htest.1, Nat.zero_add] at hslots
  exact ⟨s, hreach, htest.1, hslots, htest.2⟩

end Proofs

end Baffle
