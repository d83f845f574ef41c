import Baffle.Proofs.Constants
import Baffle.Proofs.Shutdown

namespace Baffle

/-- The session that a `remove` call is about is gone. -/
def TeardownStage.gone {P : Type} : TeardownStage P → Bool
  | .decrement | .done _ => true
  | _ => false

/-- The session whose lease the connection holds. -/
def Handler.lease : Handler → Option SessionId
  | .responding _ lease _ => lease
  | .leasing id | .removing _ id => some id
  | _ => none

namespace Proofs

variable {P : Type} {m : SessionManager P} {t : TaskId} {id : SessionId}

section

variable {s s' : State P} {pc pc' : Pc P} {call : CreateCall}

/-- A call on the way to refusing new sessions. -/
def closing : Pc P → Bool
  | .rejectNewSessions | .shutdownAll _ => true
  | _ => false

theorem between_call (h : Between pc) : pc ≠ .aborted ∧ pc ≠ .rejectNewSessions := by
  cases h <;> exact ⟨by rintro ⟨⟩, by rintro ⟨⟩⟩

/-- No move leads to where only an abort or a new call can be. -/
theorem move_entered (hm : Move m t s pc s' pc') :
    pc' ≠ .aborted ∧ pc' ≠ .rejectNewSessions := by
  cases hm with
  | unknown j batch hs => exact between_call (reload_lookup_between batch hs)
  | reloadReturned j batch result => exact between_call (after_reload_between batch result)
  | reloadAll => exact between_call reload_all_between
  | _ => exact ⟨by rintro ⟨⟩, by rintro ⟨⟩⟩

theorem move_closing (hm : Move m t s pc s' pc') (h : closing pc' = true) : closing pc = true := by
  cases pc' with
  | shutdownAll stage' =>
    obtain ⟨stage, rfl, -⟩ := (move_back hm).2.2 rfl
    rfl
  | rejectNewSessions => exact absurd rfl (move_entered hm).2
  | _ => cases h

/-- A step moves a call that is there, leaves it alone or aborts it. -/
theorem task_step [DecidableEq P] {a : Action P} (hs : m.step a s = some s')
    (hlt : t < s.nextTask) :
    s'.tasks t = s.tasks t ∨ (∃ u pc, Move m t s (s.tasks t) u pc ∧ s' = u.goto t pc) ∨
      a = .abort t := by
  have hspawn : ∀ {u : State P} {pc : Pc P}, u.tasks = s.tasks → u.nextTask = s.nextTask →
      (u.spawn pc).tasks t = s.tasks t := by
    intro u pc htasks hnext
    have hne : t ≠ u.nextTask := by
      rw [hnext]
      exact Nat.ne_of_lt hlt
    simp only [State.spawn, State.goto, Function.update_of_ne hne, htasks]
  cases a with
  | create call =>
    simp only [SessionManager.step] at hs
    split at hs
    · cases hs
    · rw [← Option.some.inj hs]
      exact Or.inl (hspawn rfl rfl)
  | deliver =>
    simp only [SessionManager.step] at hs
    split at hs
    · cases hs
    · rw [← Option.some.inj hs]
      exact Or.inl (hspawn rfl rfl)
  | advance u env =>
    obtain ⟨⟨v, pc⟩, ha, rfl⟩ := Option.map_eq_some_iff.mp hs
    have hm := advance_move ha
    by_cases htu : t = u
    · subst htu
      exact Or.inr (Or.inl ⟨v, pc, hm, rfl⟩)
    · left
      simp only [State.goto, Function.update_of_ne htu, (move_calls hm).1]
  | abort u =>
    by_cases htu : t = u
    · exact Or.inr (Or.inr (by rw [htu]))
    · left
      simp only [SessionManager.step] at hs
      split at hs
      · rw [← Option.some.inj hs]
        exact Function.update_of_ne htu _ _
      · cases hs
  | runtime r move =>
    simp only [SessionManager.step] at hs
    split at hs
    · obtain ⟨cell, permits, sent, rfl, -⟩ := runtime_move hs
      exact Or.inl rfl
    · cases hs
  | expire u =>
    rw [← Option.some.inj hs]
    exact Or.inl rfl
  | _ =>
    rw [← Option.some.inj hs]
    exact Or.inl (hspawn rfl rfl)

theorem step_next (ho : Outcome m s s') : s.nextTask ≤ s'.nextTask := by
  cases ho with
  | create | call | delivered => exact Nat.le_succ _
  | moved u hm => exact Nat.le_of_eq (move_calls hm).2.1.symm
  | expired | aborted | runtime => exact Nat.le_refl _

/-- A `create` call that is not aborted stays one for the same id. -/
theorem create_step [DecidableEq P] {a : Action P} {stage : CreateStage P}
    (hs : m.step a s = some s') (hlt : t < s.nextTask) (hn : a ≠ .abort t)
    (hpc : s.tasks t = .create call stage) : ∃ stage', s'.tasks t = .create call stage' := by
  rcases task_step hs hlt with he | ⟨u, pc, hm, rfl⟩ | ha
  · exact ⟨stage, he.trans hpc⟩
  · have hself : (u.goto t pc).tasks t = pc := Function.update_self ..
    rw [hself]
    rw [hpc] at hm
    cases hm with
    | create call hm => exact ⟨_, rfl⟩
  · exact absurd ha hn

/-- Calls are aborted after shutdown has begun. -/
def AbortedLate (s : State P) : Prop := ∀ t, s.tasks t = .aborted → s.acceptingSessions = false

theorem AbortedLate.step [DecidableEq P] {a : Action P} (h : AbortedLate s)
    (hs : m.step a s = some s') : AbortedLate s' := by
  have hkeep : s.acceptingSessions = false → s'.acceptingSessions = false :=
    fun ha => (shut_step hs ha).1
  have ho : Outcome m s s' := step_outcome hs
  intro t ht
  cases ho with
  | create call hid =>
    rcases spawn_tasks t with hg | hg <;> rw [hg] at ht
    · exact hkeep (h t ht)
    · cases ht
  | call hpc =>
    rcases spawn_tasks t with hg | hg <;> rw [hg] at ht
    · exact hkeep (h t ht)
    · subst ht
      cases hpc
  | delivered event events he =>
    rcases spawn_tasks t with hg | hg <;> rw [hg] at ht
    · exact hkeep (h t ht)
    · cases ht
  | moved u hm =>
    by_cases htu : t = u
    · subst htu
      simp only [State.goto, Function.update_self] at ht
      exact absurd ht (move_entered hm).1
    · simp only [State.goto, Function.update_of_ne htu, (move_calls hm).1] at ht
      exact hkeep (h t ht)
  | expired u => exact hkeep (h t ht)
  | aborted u ha hb => exact ha
  | runtime r hr cell permits sent hc hb => exact hkeep (h t ht)

theorem aborted_late [DecidableEq P] (h : Reach m.step State.init s) : AbortedLate s := by
  have h0 : AbortedLate (State.init : State P) := fun t ht => by cases ht
  exact h.invariant h0 (fun _ hi hs => hi.step hs)

/-- Before shutdown a session that is stopping is in the hands of the tear-down that
has claimed it. -/
theorem stopping_held [DecidableEq P] (hreach : Reach m.step State.init s)
    (hacc : s.acceptingSessions = true) {session : ManagedSession P}
    (hs : s.sessions.get id = some session) (hstate : session.info.state = .stopping) :
    ∃ u, (s.tasks u).removing = some id := by
  have hclaimed := (claimed_reach hreach id).stopping (by rw [lifecycle_some hs, hstate])
  obtain ⟨u, hu⟩ := Option.isSome_iff_exists.mp hclaimed
  have hcl := answered_reach hreach id u hu
  refine ⟨u, ?_⟩
  cases hpc : s.tasks u with
  | teardown kind j stage =>
    rw [hpc] at hcl
    obtain ⟨rfl, hcl⟩ := hcl
    cases stage with
    | shutdown | draining | finish => rfl
    | lookup | lock | claim => exact hcl.elim
    | decrement | done =>
      rw [show s.sessions.get j = none from hcl] at hs
      cases hs
  | shutdownAll stage =>
    cases hrest : stage.rest with
    | none =>
      rw [hpc] at hcl
      cases stage <;> first | exact hcl.elim | cases hrest
    | some ids =>
      rw [(swept_reach hreach u stage ids hpc hrest).1] at hacc
      cases hacc
  | aborted =>
    rw [aborted_late hreach u hpc] at hacc
    cases hacc
  | _ =>
    rw [hpc] at hcl
    exact hcl.elim

/-- Before shutdown a `remove` call does not return while its session is registered. -/
theorem remove_move [DecidableEq P] (hreach : Reach m.step State.init s)
    (hacc : s.acceptingSessions = true) {stage : TeardownStage P}
    (hpc : s.tasks t = .teardown .remove id stage)
    (hgone : stage.gone = true → s.sessions.get id = none)
    (hm : Move m t s (s.tasks t) s' pc') :
    ∃ stage', pc' = .teardown .remove id stage' ∧
      (stage'.gone = true → s'.sessions.get id = none) := by
  rw [hpc] at hm
  cases hm with
  | teardown kind j hm =>
    refine ⟨_, rfl, fun hstage => ?_⟩
    cases hm with
    | unknown hs | gone hs | entryGone hs => exact hs
    | late session hs hstate =>
      -- the claimant would hold the lock that this call holds
      obtain ⟨u, hu⟩ := stopping_held hreach hacc hs hstate
      have hsu := Pc.holds_of_serial (removing_serial hu)
      obtain rfl := (exclusive_reach hreach).unique u t id hsu
        (Pc.holds_of_serial (by rw [hpc]; rfl))
      rw [hpc] at hu
      cases hu
    | forgotten g hk => cases hk
    | removed session hs => simp [SessionManager.removeEntry]
    | counted => exact hgone rfl
    | found | locked | claimed | stopping | drained => cases hstage

/-- The persistence of a session is the one its `create` call asked for. -/
theorem persistent_call [DecidableEq P] (hreach : Reach m.step State.init s)
    {stage : CreateStage P} (hpc : s.tasks t = .create call stage)
    {session : ManagedSession P} (hs : s.sessions.get call.id = some session) :
    session.info.persistent = call.session.persistent := by
  have hused := (creations_reach hreach).used t call stage hpc
  obtain ⟨call', s0, s1, hid, -, h0, hcreate, hrun⟩ := creation_of hreach hused
  obtain rfl := creation_only h0 hcreate hrun hpc hid.symm
  have hres : Resolves (fun _ _ => True) m := fun _ _ _ _ _ _ _ _ _ _ => trivial
  exact ((constant_reach trivial hres h0 hcreate hrun).2.1.record session hs).persistent

/-- No reload changes the persistence of a session. -/
theorem persistent_stays [DecidableEq P] (hreach : Reach m.step State.init s)
    (hrun : Reach m.step s s') {session session' : ManagedSession P}
    (hs : s.sessions.get id = some session) (hs' : s'.sessions.get id = some session') :
    session'.info.persistent = session.info.persistent := by
  have hused := ((exclusive_reach hreach).registered id (by rw [hs]; rfl)).1
  obtain ⟨call, s0, s1, rfl, -, h0, hcreate, hrun0⟩ := creation_of hreach hused
  have hres : Resolves (fun _ _ => True) m := fun _ _ _ _ _ _ _ _ _ _ => trivial
  have hold := ((constant_reach trivial hres h0 hcreate hrun0).2.1.record session hs).persistent
  have hnew := ((constant_reach trivial hres h0 hcreate
    (hrun0.trans hrun)).2.1.record session' hs').persistent
  rw [hold, hnew]

/-- A session is registered by the last move of its `create` call. -/
theorem register_step (ho : Outcome m s s') (hn : s.sessions.get id = none)
    {session : ManagedSession P} (hs : s'.sessions.get id = some session) :
    ∃ t call stage created, s.tasks t = .create call stage ∧ (s.tasks t).over = false ∧
      s'.tasks t = .create call (.done (.ok created)) ∧ created.info = session.info ∧
        call.id = id := by
  cases ho with
  | moved t hm =>
    rename_i u pc
    have hget : u.sessions.get id = some session := hs
    have hself : (u.goto t pc).tasks t = pc := Function.update_self ..
    cases move_change hm id with
    | still hl hc hr =>
      rw [lifecycle_some hget, lifecycle_none.mpr hn] at hl
      cases hl
    | registered call runtime hpc hid hl hc hr =>
      rw [hpc] at hm
      cases hm with
      | create call hm =>
        cases hm with
        | late runtime ha =>
          exact absurd (hn.symm.trans hget) (by simp)
        | registered runtime ha =>
          subst hid
          simp only [State.setSession, SortedMap.get_insert_self] at hget
          cases hget
          exact ⟨t, call, _, _, hpc, by rw [hpc]; rfl, hself, rfl, rfl⟩
    | taken old hold hpc hl hc hr =>
      rw [hn] at hold
      cases hold
    | removed hsome hl hpc hc hr =>
      rw [hn] at hsome
      cases hsome
  | create call hid => exact absurd (hn.symm.trans hs) (by simp)
  | call hpc => exact absurd (hn.symm.trans hs) (by simp)
  | delivered event events he => exact absurd (hn.symm.trans hs) (by simp)
  | expired u => exact absurd (hn.symm.trans hs) (by simp)
  | aborted u ha hb => exact absurd (hn.symm.trans hs) (by simp)
  | runtime r hr cell permits sent hc hb => exact absurd (hn.symm.trans hs) (by simp)

end

section

variable {c : ControlServer P} {s s' : ServerState P} {core core' : State P} {handler : Handler}

/-- The connection has created the ephemeral session and not yet removed it. -/
inductive Leases (core : State P) : Handler → SessionId → Prop where
  | created (t : TaskId) (call : CreateCall) (created : CreatedSession)
      (hpc : core.tasks t = .create call (.done (.ok created)))
      (hp : created.info.persistent = false) : Leases core (.creating t) created.info.id
  | responding (response : Response) (id : SessionId) (permit : Bool) :
      Leases core (.responding response (some id) permit) id
  | leasing (id : SessionId) : Leases core (.leasing id) id
  | removing (t : TaskId) (id : SessionId)
      (hpc : ∀ found, core.tasks t ≠ .teardown .remove id (.done found)) :
      Leases core (.removing t id) id

/-- The connection is creating a session with this id or holds its lease. -/
inductive Binds (core : State P) (handler : Handler) (id : SessionId) : Prop where
  | creating (t : TaskId) (call : CreateCall) (stage : CreateStage P)
      (hh : handler = .creating t) (hpc : core.tasks t = .create call stage) (hid : call.id = id)
  | lease (hl : handler.lease = some id)

/-- The session with this id was created as an ephemeral one. -/
def Ephemeral (core : State P) (id : SessionId) : Prop :=
  ∃ t call created, core.tasks t = .create call (.done (.ok created)) ∧ call.id = id ∧
    call.session.persistent = false

/-- The `remove` call of a lease, and what it has achieved before shutdown. -/
def Removes (core : State P) (t : TaskId) (id : SessionId) : Prop :=
  ∃ stage, core.tasks t = .teardown .remove id stage ∧
    (core.acceptingSessions = true → stage.gone = true → core.sessions.get id = none)

/-- How the connections stand to the calls of the session manager. -/
structure Holdings (s : ServerState P) : Prop where
  live : ∀ k t, (s.handlers k).waits = some t → t < s.core.nextTask
  single : ∀ k k' t, (s.handlers k).waits = some t → (s.handlers k').waits = some t → k = k'
  creating : ∀ k t, s.handlers k = .creating t → ∃ call stage, s.core.tasks t = .create call stage
  unique : ∀ k k' id, Binds s.core (s.handlers k) id → Binds s.core (s.handlers k') id → k = k'
  origin : ∀ k id, (s.handlers k).lease = some id → Ephemeral s.core id
  removing : ∀ k t id, s.handlers k = .removing t id → Removes s.core t id

/-- Every `create` call that is in progress has a connection that waits for it. -/
def Awaited (s : ServerState P) : Prop :=
  ∀ t call stage, s.core.tasks t = .create call stage → (s.core.tasks t).over = false →
    ∃ k, s.handlers k = .creating t

theorem Ephemeral.used (hc : Creations m core) (h : Ephemeral core id) : id ∈ core.used := by
  obtain ⟨t, call, created, hpc, rfl, -⟩ := h
  exact hc.used t call _ hpc

theorem Ephemeral.born (hc : Creations m core) (h : Ephemeral core id) : Born core id := by
  refine ⟨h.used hc, fun u hu => ?_⟩
  obtain ⟨t, call, created, hpc, rfl, -⟩ := h
  obtain ⟨call', stage', hu'⟩ := creating_create hu
  have hid : call'.id = call.id := by
    rw [hu'] at hu
    exact Pc.holds_create (Pc.holds_of_creating hu)
  obtain rfl := hc.unique u t call' call stage' _ hu' hpc hid
  rw [hpc] at hu
  cases hu

theorem Binds.used (hc : Creations m core)
    (ho : ∀ id, handler.lease = some id → Ephemeral core id) (h : Binds core handler id) :
    id ∈ core.used := by
  cases h with
  | creating t call stage hh hpc hid => exact hid ▸ hc.used t call stage hpc
  | lease hl => exact (ho id hl).used hc

theorem Leases.binds (hc : Creations m core) (h : Leases core handler id) :
    Binds core handler id := by
  cases h with
  | created t call created hpc hp =>
    exact .creating t call _ rfl hpc (hc.answers t call created hpc).id.symm
  | responding | leasing | removing => exact .lease rfl

theorem Leases.ephemeral (hc : Creations m core) (h : Leases core handler id)
    (ho : ∀ id, handler.lease = some id → Ephemeral core id) : Ephemeral core id := by
  cases h with
  | created t call created hpc hp =>
    have hans := hc.answers t call created hpc
    exact ⟨t, call, created, hpc, hans.id.symm, hans.persistent ▸ hp⟩
  | responding | leasing | removing => exact ho id rfl

/-- A finished call stays, and so does what is known from it. -/
theorem Ephemeral.step (hx : Exclusive core) (ho : Outcome m core core')
    (h : Ephemeral core id) : Ephemeral core' id := by
  obtain ⟨t, call, created, hpc, hid, hp⟩ := h
  have hne : t ≠ core.nextTask := by
    rintro rfl
    rw [hx.absent _ (Nat.le_refl _)] at hpc
    cases hpc
  refine ⟨t, call, created, ?_, hid, hp⟩
  rw [over_stays ho hne (by rw [hpc]; rfl), hpc]

section

variable [DecidableEq P]

theorem Removes.step {a : Action P} (hreach : Reach m.step State.init core)
    (hs : m.step a core = some core') (hlt : t < core.nextTask) (hn : a ≠ .abort t)
    (hb : Born core id) (h : Removes core t id) : Removes core' t id := by
  obtain ⟨stage, hpc, hgone⟩ := h
  have hacc : core'.acceptingSessions = true → core.acceptingSessions = true := by
    intro ha
    cases hold : core.acceptingSessions with
    | true => rfl
    | false =>
      rw [(shut_step hs hold).1] at ha
      cases ha
  by_cases ha : core.acceptingSessions = true
  · rcases task_step hs hlt with he | ⟨u, pc, hm, rfl⟩ | hab
    · exact ⟨stage, he.trans hpc, fun _ hg => gone_stays (step_outcome hs) hb (hgone ha hg)⟩
    · obtain ⟨stage', rfl, hgone'⟩ := remove_move hreach ha hpc (hgone ha) hm
      exact ⟨stage', Function.update_self .., fun _ hg => hgone' hg⟩
    · exact absurd hab hn
  · rcases task_step hs hlt with he | ⟨u, pc, hm, rfl⟩ | hab
    · exact ⟨stage, he.trans hpc, fun ha' => absurd (hacc ha') ha⟩
    · rw [hpc] at hm
      cases hm with
      | teardown kind j hm =>
        exact ⟨_, Function.update_self .., fun ha' => absurd (hacc ha') ha⟩
    · exact absurd hab hn

/-- A connection that binds an id after a step of the session manager did so before. -/
theorem Binds.before {a : Action P} (hs : m.step a core = some core')
    (hlive : ∀ t, handler.waits = some t → t < core.nextTask)
    (h : Binds core' handler id) : Binds core handler id := by
  cases h with
  | creating t call stage hh hpc hid =>
    subst hh
    have hlt := hlive t rfl
    rcases create_before (step_outcome hs) hpc with hb | ⟨stage0, _, hb, -⟩ | ⟨-, -, hn, -⟩
    · exact .creating t call stage rfl hb hid
    · exact .creating t call stage0 rfl hb hid
    · exact absurd hn (Nat.ne_of_lt hlt)
  | lease hl => exact .lease hl

/-- A step of the session manager that aborts no call that a connection waits for. -/
theorem Holdings.core_step {a : Action P} (hreach : Reach c.sessions.step State.init s.core)
    (h : Holdings s) (hs : c.sessions.step a s.core = some core)
    (hn : ∀ k t, (s.handlers k).waits = some t → a ≠ .abort t) : Holdings { s with core } where
  live k t hw := Nat.lt_of_lt_of_le (h.live k t hw) (step_next (step_outcome hs))
  single := h.single
  creating k t hk := by
    have hw : (s.handlers k).waits = some t := by
      rw [show s.handlers k = .creating t from hk]
      rfl
    obtain ⟨call, stage, hpc⟩ := h.creating k t hk
    obtain ⟨stage', hpc'⟩ := create_step hs (h.live k t hw) (hn k t hw) hpc
    exact ⟨call, stage', hpc'⟩
  unique k k' id hb hb' :=
    h.unique k k' id (hb.before hs (h.live k)) (hb'.before hs (h.live k'))
  origin k id hl := (h.origin k id hl).step (exclusive_reach hreach) (step_outcome hs)
  removing k t id hk := by
    have hw : (s.handlers k).waits = some t := by
      rw [show s.handlers k = .removing t id from hk]
      rfl
    have hl : (s.handlers k).lease = some id := by
      rw [show s.handlers k = .removing t id from hk]
      rfl
    have hb := (h.origin k id hl).born (creations_reach hreach)
    exact (h.removing k t id hk).step hreach hs (h.live k t hw) (hn k t hw) hb

end

/-- A connection moves on. -/
theorem Holdings.set (h : Holdings s) {k : Nat} (slots : Nat)
    (hlive : ∀ t, handler.waits = some t → t < s.core.nextTask)
    (hsingle : ∀ k' t, handler.waits = some t → (s.handlers k').waits = some t → k' = k)
    (hcreating : ∀ t, handler = .creating t → ∃ call stage, s.core.tasks t = .create call stage)
    (hbinds : ∀ id k', Binds s.core handler id → Binds s.core (s.handlers k') id → k' = k)
    (horigin : ∀ id, handler.lease = some id → Ephemeral s.core id)
    (hremoving : ∀ t id, handler = .removing t id → Removes s.core t id) :
    Holdings { s.setHandler k handler with provisioningSlots := slots } := by
  have hset : ∀ k1, (s.setHandler k handler).handlers k1 = handler ∧ k1 = k ∨
      (s.setHandler k handler).handlers k1 = s.handlers k1 := by
    intro k1
    by_cases hk : k1 = k
    · subst hk
      exact Or.inl ⟨Function.update_self .., rfl⟩
    · exact Or.inr (Function.update_of_ne hk _ _)
  have hnew : Holdings (s.setHandler k handler) := by
    refine ⟨fun k1 t hw => ?_, fun k1 k2 t hw hw' => ?_, fun k1 t hk => ?_,
      fun k1 k2 id hb hb' => ?_, fun k1 id hl => ?_, fun k1 t id hk => ?_⟩
    · rcases hset k1 with ⟨h1, -⟩ | h1 <;> rw [h1] at hw
      · exact hlive t hw
      · exact h.live k1 t hw
    · rcases hset k1 with ⟨h1, e1⟩ | h1 <;> rcases hset k2 with ⟨h2, e2⟩ | h2 <;>
        rw [h1] at hw <;> rw [h2] at hw'
      · rw [e1, e2]
      · exact e1.trans (hsingle k2 t hw hw').symm
      · exact (hsingle k1 t hw' hw).trans e2.symm
      · exact h.single k1 k2 t hw hw'
    · rcases hset k1 with ⟨h1, -⟩ | h1 <;> rw [h1] at hk
      · exact hcreating t hk
      · exact h.creating k1 t hk
    · rcases hset k1 with ⟨h1, e1⟩ | h1 <;> rcases hset k2 with ⟨h2, e2⟩ | h2 <;>
        rw [h1] at hb <;> rw [h2] at hb'
      · rw [e1, e2]
      · exact e1.trans (hbinds id k2 hb hb').symm
      · exact (hbinds id k1 hb' hb).trans e2.symm
      · exact h.unique k1 k2 id hb hb'
    · rcases hset k1 with ⟨h1, -⟩ | h1 <;> rw [h1] at hl
      · exact horigin id hl
      · exact h.origin k1 id hl
    · rcases hset k1 with ⟨h1, -⟩ | h1 <;> rw [h1] at hk
      · exact hremoving t id hk
      · exact h.removing k1 t id hk
  exact ⟨hnew.live, hnew.single, hnew.creating, hnew.unique, hnew.origin, hnew.removing⟩

theorem internal_abort {a : Action P} (ha : Internal a) (u : TaskId) : a ≠ .abort u := by
  cases ha <;> rintro ⟨⟩

/-- A connection that waits for no call and holds no lease. -/
theorem Holdings.plain (h : Holdings s) (k slots : Nat) (hw : handler.waits = none)
    (hl : handler.lease = none) :
    Holdings { s.setHandler k handler with provisioningSlots := slots } := by
  refine h.set slots (fun t ht => ?_) (fun _ t ht => ?_) (fun t ht => ?_) (fun id k' hb => ?_)
    (fun id ht => ?_) (fun t id ht => ?_)
  · rw [hw] at ht
    cases ht
  · rw [hw] at ht
    cases ht
  · rw [ht] at hw
    cases hw
  · cases hb with
    | creating t call stage hh hpc hid =>
      rw [hh] at hw
      cases hw
    | lease hl' =>
      rw [hl] at hl'
      cases hl'
  · rw [hl] at ht
    cases ht
  · rw [ht] at hw
    cases hw

theorem Holdings.same (h : Holdings s) (hc : s'.core = s.core) (hh : s'.handlers = s.handlers) :
    Holdings s' := by
  refine ⟨?_, ?_, ?_, ?_, ?_, ?_⟩ <;> rw [hh]
  · rw [hc]
    exact h.live
  · exact h.single
  · rw [hc]
    exact h.creating
  · rw [hc]
    exact h.unique
  · rw [hc]
    exact h.origin
  · rw [hc]
    exact h.removing

theorem create_response_lease {result : Except SessionError CreatedSession}
    (h : (createResponse result).2 = some id) :
    ∃ created, result = .ok created ∧ created.info.persistent = false ∧ created.info.id = id := by
  cases result with
  | error error => cases error <;> cases h
  | ok created =>
    refine ⟨created, rfl, ?_⟩
    simp only [createResponse] at h
    split at h
    · cases h
    · rename_i hp
      exact ⟨by simpa using hp, Option.some.inj h⟩

/-- What a connection does without the session manager. -/
theorem Holdings.handled (hc : Creations m s.core) (h : Holdings s) {k : Nat} (slots : Nat)
    (hm : HandlerMove s.core (s.handlers k) handler) :
    Holdings { s.setHandler k handler with provisioningSlots := slots } := by
  generalize hk : s.handlers k = old at hm
  cases hm with
  | refused | hungUp | answered | removed | written => exact h.plain k slots rfl rfl
  | created t call result hpc =>
    have heph : ∀ id, (createResponse result).2 = some id → Ephemeral s.core id ∧
        Binds s.core (s.handlers k) id := by
      intro id hl
      obtain ⟨created, rfl, hp, rfl⟩ := create_response_lease hl
      have hans := hc.answers t call created hpc
      exact ⟨⟨t, call, created, hpc, hans.id.symm, hans.persistent ▸ hp⟩,
        .creating t call _ hk hpc hans.id.symm⟩
    refine h.set slots (fun _ ht => by cases ht) (fun _ _ ht => by cases ht)
      (fun _ ht => by cases ht) (fun id k' hb hb' => ?_) (fun id hl => (heph id hl).1)
      (fun _ _ ht => by cases ht)
    cases hb with
    | creating t' call' stage hh => cases hh
    | lease hl => exact h.unique k' k id hb' (heph id hl).2
  | granted response id permit =>
    have hlease : (s.handlers k).lease = some id := by
      rw [hk]
      rfl
    refine h.set slots (fun _ ht => by cases ht) (fun _ _ ht => by cases ht)
      (fun _ ht => by cases ht) (fun id' k' hb hb' => ?_) (fun id' hl => ?_)
      (fun _ _ ht => by cases ht)
    · cases hb with
      | creating t' call' stage hh => cases hh
      | lease hl =>
        cases hl
        exact h.unique k' k id hb' (.lease hlease)
    · cases hl
      exact h.origin k id hlease

section

variable [DecidableEq P]

theorem create_spawned {call : CreateCall} (hs : m.step (.create call) core = some core') :
    core'.tasks core.nextTask = .create call .reserve ∧ call.id ∉ core.used := by
  simp only [SessionManager.step] at hs
  split at hs
  · cases hs
  · rename_i hn
    rw [← Option.some.inj hs]
    exact ⟨Function.update_self .., hn⟩

theorem call_next {a : Action P} {handler' : Handler} (hc : HandlerCall m t handler a handler')
    (hs : m.step a core = some core') :
    core'.nextTask = core.nextTask + 1 ∧ ∀ u, a ≠ .abort u := by
  cases hc with
  | create call hp =>
    simp only [SessionManager.step] at hs
    split at hs
    · cases hs
    · rw [← Option.some.inj hs]
      exact ⟨rfl, fun u => by rintro ⟨⟩⟩
  | request request a ho =>
    cases ho <;> (rw [← Option.some.inj hs]; exact ⟨rfl, fun u => by rintro ⟨⟩⟩)
  | unwritten | released =>
    rw [← Option.some.inj hs]
    exact ⟨rfl, fun u => by rintro ⟨⟩⟩

/-- A connection calls the session manager. -/
theorem Holdings.called (hreach : Reach c.sessions.step State.init s.core) (h : Holdings s)
    {k : Nat} (slots : Nat) {a : Action P}
    (hc : HandlerCall c.sessions s.core.nextTask (s.handlers k) a handler)
    (hs : c.sessions.step a s.core = some core) :
    Holdings { s.setHandler k handler with core, provisioningSlots := slots } := by
  obtain ⟨hnext, hn⟩ := call_next hc hs
  have hcore : Holdings { s with core } := h.core_step hreach hs (fun _ t _ => hn t)
  have hlt : s.core.nextTask < core.nextTask := by
    rw [hnext]
    exact Nat.lt_succ_self _
  -- the task is new, so that nobody waits for it
  have hsingle : ∀ k', (s.handlers k').waits ≠ some s.core.nextTask :=
    fun k' hw => Nat.lt_irrefl _ (h.live k' _ hw)
  have hlease : ∀ id', (s.handlers k).lease = some id' →
      Holdings { s.setHandler k (.removing s.core.nextTask id') with
        core, provisioningSlots := slots } ∨ ¬core.tasks s.core.nextTask =
          .teardown .remove id' .lookup := by
    intro id' hl
    by_cases hpc : core.tasks s.core.nextTask = .teardown .remove id' .lookup
    · left
      refine hcore.set (s := { s with core }) slots ?_ ?_ (fun _ ht => by cases ht) ?_ ?_ ?_
      · rintro t ⟨⟩
        exact hlt
      · rintro k' t ⟨⟩ hw
        exact absurd hw (hsingle k')
      · intro id1 k' hb hb'
        cases hb with
        | creating t' call' stage hh => cases hh
        | lease hl' =>
          cases hl'
          exact hcore.unique k' k id' hb' (.lease hl)
      · rintro id1 ⟨⟩
        exact hcore.origin k id' hl
      · rintro t id1 ⟨⟩
        exact ⟨.lookup, hpc, fun _ hg => by cases hg⟩
    · exact Or.inr hpc
  generalize hk : s.handlers k = old at hc
  cases hc with
  | create call hp =>
    obtain ⟨hpc, hused⟩ := create_spawned hs
    refine hcore.set (s := { s with core }) slots ?_ ?_ ?_ ?_ (fun _ ht => by cases ht)
      (fun _ _ ht => by cases ht)
    · rintro t ⟨⟩
      exact hlt
    · rintro k' t ⟨⟩ hw
      exact absurd hw (hsingle k')
    · rintro t ⟨⟩
      exact ⟨call, _, hpc⟩
    · -- the id has just been drawn
      intro id' k' hb hb'
      cases hb with
      | creating t' call' stage hh hpc' hid =>
        cases hh
        rw [hpc] at hpc'
        cases hpc'
        have hold := (hb'.before hs (h.live k')).used (creations_reach hreach) (h.origin k')
        exact absurd (hid ▸ hold) hused
      | lease hl => cases hl
  | request request a ho =>
    refine hcore.set (s := { s with core }) slots ?_ ?_ (fun _ ht => by cases ht) ?_
      (fun _ ht => by cases ht) (fun _ _ ht => by cases ht)
    · rintro t ⟨⟩
      exact hlt
    · rintro k' t ⟨⟩ hw
      exact absurd hw (hsingle k')
    · intro id' k' hb
      cases hb with
      | creating t' call' stage hh => cases hh
      | lease hl => cases hl
  | unwritten response id permit =>
    refine (hlease id (by rw [hk]; rfl)).resolve_right (fun hne => hne ?_)
    rw [← Option.some.inj hs]
    exact Function.update_self ..
  | released id =>
    refine (hlease id (by rw [hk]; rfl)).resolve_right (fun hne => hne ?_)
    rw [← Option.some.inj hs]
    exact Function.update_self ..

theorem holdings_serves (hreach : Reach c.sessions.step State.init s.core) (h : Holdings s)
    (hs : Serves c s s') : Holdings s' := by
  cases hs with
  | connected hp => exact (h.plain s.nextHandler s.provisioningSlots rfl rfl).same rfl rfl
  | handled k handler slots hm => exact h.handled (creations_reach hreach) slots hm
  | called k handler slots a core hc hstep => exact h.called hreach slots hc hstep
  | cancelled k slots hp hi => exact h.plain k slots rfl rfl
  | interrupted k slots u core hp hw hstep =>
    have hset : Holdings { s.setHandler k .aborted with provisioningSlots := slots } :=
      h.plain k slots rfl rfl
    have hothers : ∀ k' t, ((s.setHandler k .aborted).handlers k').waits = some t →
        (Action.abort u : Action P) ≠ .abort t := by
      rintro k' t hw' ⟨⟩
      by_cases hk : k' = k
      · subst hk
        simp only [ServerState.setHandler, Function.update_self] at hw'
        cases hw'
      · simp only [ServerState.setHandler, Function.update_of_ne hk] at hw'
        exact hk (h.single k' k u hw' hw)
    exact Holdings.core_step (s := { s.setHandler k .aborted with provisioningSlots := slots })
      hreach hset hstep hothers
  | delivered core hp hstep =>
    exact (h.core_step hreach hstep (fun _ _ _ => by rintro ⟨⟩)).same rfl rfl
  | moved a core ha hstep => exact h.core_step hreach hstep (fun _ t _ => internal_abort ha t)
  | closed core hp hstep =>
    exact (h.core_step hreach hstep (fun _ _ _ => by rintro ⟨⟩)).same rfl rfl
  | cleaned core hp hall hstep =>
    exact (h.core_step hreach hstep (fun _ _ _ => by rintro ⟨⟩)).same rfl rfl
  | rejected | joined | finished => exact h.same rfl rfl

end

theorem move_open {u u' : State P} {pc pc' : Pc P} (hm : Move m t u pc u' pc')
    (hc : closing pc = false) : u'.acceptingSessions = u.acceptingSessions := by
  cases hm with
  | create call hm => cases hm <;> rfl
  | reload j batch hm => cases hm <;> rfl
  | teardown kind j hm => cases hm <;> rfl
  | sweep hm => cases hc
  | rejected => cases hc
  | _ => rfl

/-- Sessions are accepted, and nobody is about to refuse them. -/
def Open (core : State P) : Prop :=
  core.acceptingSessions = true ∧ ∀ t, closing (core.tasks t) = false

theorem open_step [DecidableEq P] {a : Action P} (hs : m.step a core = some core')
    (hr : a ≠ .rejectNewSessions) (ha : a ≠ .shutdownAll) (h : Open core) : Open core' := by
  refine ⟨?_, fun t => ?_⟩
  · have ho := step_outcome hs
    cases ho with
    | moved t hm => exact (move_open hm (h.2 t)).trans h.1
    | create | call | delivered | expired | aborted | runtime => exact h.1
  · cases hc : closing (core'.tasks t) with
    | false => rfl
    | true =>
      have hold := step_back hs (fun hm => move_closing hm) rfl (fun pc hpc => ?_) hc
      · rw [h.2 t] at hold
        cases hold
      · cases hpc with
        | shutdownAll => exact absurd rfl ha
        | rejectNewSessions => exact absurd rfl hr
        | _ => rfl

theorem handler_call_open {a : Action P} {handler' : Handler}
    (hc : HandlerCall m t handler a handler') : a ≠ .rejectNewSessions ∧ a ≠ .shutdownAll := by
  cases hc with
  | request request a ho => cases ho <;> exact ⟨by rintro ⟨⟩, by rintro ⟨⟩⟩
  | _ => exact ⟨by rintro ⟨⟩, by rintro ⟨⟩⟩

theorem open_serves [DecidableEq P] (h : s.phase = .running → Open s.core)
    (hs : Serves c s s') (hp : s'.phase = .running) : Open s'.core := by
  cases hs with
  | connected | handled | cancelled => exact h hp
  | called k handler slots a core hc hstep =>
    obtain ⟨hr, ha⟩ := handler_call_open hc
    exact open_step hstep hr ha (h hp)
  | interrupted k slots u core hp' hw hstep =>
    exact open_step hstep (by rintro ⟨⟩) (by rintro ⟨⟩) (h hp)
  | delivered core hp' hstep => exact open_step hstep (by rintro ⟨⟩) (by rintro ⟨⟩) (h hp)
  | moved a core ha hstep =>
    have hne : a ≠ .rejectNewSessions ∧ a ≠ .shutdownAll := by
      cases ha <;> exact ⟨by rintro ⟨⟩, by rintro ⟨⟩⟩
    exact open_step hstep hne.1 hne.2 (h hp)
  | closed | rejected | joined | cleaned | finished => cases hp

/-- A `create` call that is in progress was so before, or has just been called. -/
theorem create_live [DecidableEq P] {a : Action P} (hs : m.step a core = some core')
    {call : CreateCall} {stage : CreateStage P} (hpc : core'.tasks t = .create call stage)
    (hover : (core'.tasks t).over = false) :
    (∃ stage, core.tasks t = .create call stage ∧ (core.tasks t).over = false) ∨
      a = .create call ∧ t = core.nextTask := by
  rcases create_before (step_outcome hs) hpc with hb | ⟨stage0, u, hb, hm⟩ | ⟨hn, hu, ht, -⟩
  · exact Or.inl ⟨stage, hb, by rw [hb]; rwa [hpc] at hover⟩
  · refine Or.inl ⟨stage0, hb, ?_⟩
    cases hold : (core.tasks t).over with
    | false => rfl
    | true =>
      rw [hb] at hold
      exact absurd (Move.create (t := t) call hm) (over_ended hold)
  · right
    by_cases hc : ∃ call', a = .create call'
    · obtain ⟨call', rfl⟩ := hc
      rw [ht, (create_spawned hs).1] at hpc
      cases hpc
      exact ⟨rfl, ht⟩
    · rw [step_draws hs (fun call' he => hc ⟨call', he⟩)] at hu
      exact absurd hu hn

theorem awaited_serves [DecidableEq P] (hj : Joined s) (h : Awaited s) (hs : Serves c s s') :
    Awaited s' := by
  have hset : ∀ {t k k' handler}, s.handlers k' = .creating t →
      (s.handlers k).waits ≠ some t → (s.setHandler k handler).handlers k' = .creating t := by
    intro t k k' handler hk' hw
    have hne : k' ≠ k := by
      rintro rfl
      rw [hk'] at hw
      exact hw rfl
    exact (Function.update_of_ne hne _ _).trans hk'
  intro t call stage hpc hover
  cases hs with
  | connected hp =>
    obtain ⟨k', hk'⟩ := h t call stage hpc hover
    refine ⟨k', hset hk' ?_⟩
    rw [hj.absent _ (Nat.le_refl _)]
    rintro ⟨⟩
  | handled k handler slots hm =>
    obtain ⟨k', hk'⟩ := h t call stage hpc hover
    refine ⟨k', hset hk' (fun hw => ?_)⟩
    have hdone := handler_move_waits hm hw
    rw [show (s.core.tasks t).over = false from hover] at hdone
    cases hdone
  | called k handler slots a core hc hstep =>
    rcases create_live hstep hpc hover with ⟨stage0, hold, hlive⟩ | ⟨rfl, rfl⟩
    · obtain ⟨k', hk'⟩ := h t call stage0 hold hlive
      exact ⟨k', hset hk' (by rw [(handler_call_source hc).2.2.1]; rintro ⟨⟩)⟩
    · refine ⟨k, ?_⟩
      simp only [ServerState.setHandler, Function.update_self]
      generalize s.handlers k = old at hc
      cases hc with
      | create call hp => rfl
      | request request a ho => cases ho
  | cancelled k slots hp hi =>
    obtain ⟨k', hk'⟩ := h t call stage hpc hover
    exact ⟨k', hset hk' (by rw [(idle_source hi).2.2]; rintro ⟨⟩)⟩
  | interrupted k slots u core hp hw hstep =>
    rcases create_live hstep hpc hover with ⟨stage0, hold, hlive⟩ | ⟨hc, -⟩
    · obtain ⟨k', hk'⟩ := h t call stage0 hold hlive
      refine ⟨k', hset hk' ?_⟩
      rw [hw]
      rintro he
      have htu : u = t := Option.some.inj he
      rw [← htu, show core.tasks u = .aborted from (abort_step hstep).2.1] at hpc
      cases hpc
    · cases hc
  | delivered core hp hstep =>
    rcases create_live hstep hpc hover with ⟨stage0, hold, hlive⟩ | ⟨hc, -⟩
    · exact h t call stage0 hold hlive
    · cases hc
  | moved a core ha hstep =>
    rcases create_live hstep hpc hover with ⟨stage0, hold, hlive⟩ | ⟨rfl, -⟩
    · exact h t call stage0 hold hlive
    · cases ha
  | closed core hp hstep =>
    rcases create_live hstep hpc hover with ⟨stage0, hold, hlive⟩ | ⟨hc, -⟩
    · exact h t call stage0 hold hlive
    · cases hc
  | cleaned core hp hall hstep =>
    rcases create_live hstep hpc hover with ⟨stage0, hold, hlive⟩ | ⟨hc, -⟩
    · exact h t call stage0 hold hlive
    · cases hc
  | rejected | joined | finished => exact h t call stage hpc hover

/-- The `remove` call of the connection has returned. -/
def Relinquished (core : State P) (handler : Handler) (id : SessionId) : Prop :=
  ∃ t found, handler = .removing t id ∧ core.tasks t = .teardown .remove id (.done found)

theorem lease_core [DecidableEq P] {a : Action P} (hx : Exclusive core)
    (hs : m.step a core = some core') (h : Leases core handler id) :
    Leases core' handler id ∨ Relinquished core' handler id := by
  cases h with
  | created t call created hpc hp =>
    have hne : t ≠ core.nextTask := by
      rintro rfl
      rw [hx.absent _ (Nat.le_refl _)] at hpc
      cases hpc
    refine Or.inl (.created t call created ?_ hp)
    rw [over_stays (step_outcome hs) hne (by rw [hpc]; rfl), hpc]
  | responding response id permit => exact Or.inl (.responding response id permit)
  | leasing id => exact Or.inl (.leasing id)
  | removing t id hpc =>
    by_cases hdone : ∃ found, core'.tasks t = .teardown .remove id (.done found)
    · obtain ⟨found, hdone⟩ := hdone
      exact Or.inr ⟨t, found, rfl, hdone⟩
    · exact Or.inl (.removing t id (fun found hpc' => hdone ⟨found, hpc'⟩))

theorem lease_present (h : Leases core handler id) : handler ≠ .absent := by
  cases h <;> rintro ⟨⟩

/-- What a connection that holds a lease does without the session manager. -/
theorem lease_handled {old : Handler} (hr : ∀ t, old = .removing t id → Removes core t id)
    (hm : HandlerMove core old handler) (h : Leases core old id) : Leases core handler id := by
  cases h with
  | created t call created hpc hp =>
    cases hm with
    | created t' call' result hpc' =>
      rw [hpc] at hpc'
      cases hpc'
      simp only [createResponse, hp, Bool.false_eq_true, if_false]
      exact .responding _ _ _
  | responding response id permit =>
    cases hm with
    | granted => exact .leasing id
  | leasing id => cases hm
  | removing t id hpc =>
    cases hm with
    | removed t' id' j found hpc' =>
      obtain ⟨stage, hstage, -⟩ := hr t rfl
      rw [hstage] at hpc'
      cases hpc'
      exact absurd hstage (hpc found)

theorem lease_called [DecidableEq P] {old : Handler} {a : Action P}
    (hc : HandlerCall m core.nextTask old a handler) (hs : m.step a core = some core')
    (h : Leases core old id) : Leases core' handler id := by
  have hremove : ∀ {j : SessionId}, m.step (.remove j) core = some core' →
      Leases core' (.removing core.nextTask j) j := by
    intro j hj
    refine .removing _ _ (fun found hpc => ?_)
    rw [← Option.some.inj hj] at hpc
    have hself : (core.spawn (.teardown .remove j .lookup)).tasks core.nextTask =
        .teardown .remove j .lookup := Function.update_self ..
    rw [hself] at hpc
    cases hpc
  cases hc with
  | create | request => cases h
  | unwritten response j permit =>
    cases h
    exact hremove hs
  | released j =>
    cases h
    exact hremove hs

/-- Before shutdown a lease goes on until its `remove` call has returned. -/
theorem lease_serves [DecidableEq P] (ho : Orderly c s) (hh : Holdings s) (hs : Serves c s s')
    (hp : s'.phase = .running) {k : Nat} (h : Leases s.core (s.handlers k) id) :
    Leases s'.core (s'.handlers k) id ∨ Relinquished s'.core (s'.handlers k) id := by
  have hx := exclusive_reach ho.core.reach
  have hother : ∀ {k' handler}, k ≠ k' → (s.setHandler k' handler).handlers k = s.handlers k :=
    fun hne => Function.update_of_ne hne _ _
  cases hs with
  | connected hp' =>
    have hne : k ≠ s.nextHandler := by
      rintro rfl
      exact lease_present h (ho.joined.absent _ (Nat.le_refl _))
    left
    show Leases s.core ((s.setHandler s.nextHandler .reading).handlers k) id
    rw [hother hne]
    exact h
  | handled k' handler slots hm =>
    left
    show Leases s.core ((s.setHandler k' handler).handlers k) id
    by_cases hk : k = k'
    · subst hk
      simp only [ServerState.setHandler, Function.update_self]
      exact lease_handled (fun t ht => hh.removing k t id ht) hm h
    · rw [hother hk]
      exact h
  | called k' handler slots a core hc hstep =>
    show Leases core ((s.setHandler k' handler).handlers k) id ∨
      Relinquished core ((s.setHandler k' handler).handlers k) id
    by_cases hk : k = k'
    · subst hk
      simp only [ServerState.setHandler, Function.update_self]
      exact Or.inl (lease_called hc hstep h)
    · rw [hother hk]
      exact lease_core hx hstep h
  | cancelled k' slots hp' hi => exact absurd (hp'.symm.trans hp) (by rintro ⟨⟩)
  | interrupted k' slots u core hp' hw hstep => exact absurd (hp'.symm.trans hp) (by rintro ⟨⟩)
  | delivered core hp' hstep => exact lease_core hx hstep h
  | moved a core ha hstep => exact lease_core hx hstep h
  | closed | rejected | joined | cleaned | finished => cases hp

/-- Before shutdown every registered ephemeral session has its lease. -/
def Held (s : ServerState P) : Prop :=
  ∀ id session, s.core.sessions.get id = some session → session.info.persistent = false →
    ∃ k, Leases s.core (s.handlers k) id

theorem released_gone (hh : Holdings s) (hacc : s.core.acceptingSessions = true) {k : Nat}
    (h : Relinquished s.core (s.handlers k) id) : s.core.sessions.get id = none := by
  obtain ⟨t, found, hk, hpc⟩ := h
  obtain ⟨stage, hstage, hgone⟩ := hh.removing k t id hk
  rw [hstage] at hpc
  cases hpc
  exact hgone hacc rfl

/-- A session that the step registers has a connection that has created it. -/
theorem held_new [DecidableEq P] (hreach : Reach c.sessions.step State.init s.core)
    (hw : Awaited s) (hs : Serves c s s') (hp : s'.phase = .running)
    (hn : s.core.sessions.get id = none) {session : ManagedSession P}
    (hget : s'.core.sessions.get id = some session) (heph : session.info.persistent = false) :
    ∃ k, Leases s'.core (s'.handlers k) id := by
  have hcore : ∀ {a core}, c.sessions.step a s.core = some core →
      core.sessions.get id = some session → ∃ k, (s.handlers k).waits ≠ none ∧
        Leases core (s.handlers k) id := by
    intro a core hstep hget
    obtain ⟨t, call, stage, created, hpc, hover, hdone, hinfo, hid⟩ :=
      register_step (step_outcome hstep) hn hget
    obtain ⟨k, hk⟩ := hw t call stage hpc hover
    have hans := (creations_reach (hreach.next hstep)).answers t call created hdone
    refine ⟨k, by rw [hk]; rintro ⟨⟩, ?_⟩
    rw [hk, ← hid, ← hans.id]
    exact .created t call created hdone (hinfo ▸ heph)
  cases hs with
  | connected | handled => exact absurd (hn.symm.trans hget) (by simp)
  | called k handler slots a core hc hstep =>
    obtain ⟨k', hw', hl⟩ := hcore hstep hget
    have hne : k' ≠ k := by
      rintro rfl
      exact hw' (handler_call_source hc).2.2.1
    refine ⟨k', ?_⟩
    simp only [ServerState.setHandler, Function.update_of_ne hne]
    exact hl
  | cancelled k slots hp' hi => exact absurd (hp'.symm.trans hp) (by rintro ⟨⟩)
  | interrupted k slots u core hp' hw' hstep => exact absurd (hp'.symm.trans hp) (by rintro ⟨⟩)
  | delivered core hp' hstep =>
    obtain ⟨k', -, hl⟩ := hcore hstep hget
    exact ⟨k', hl⟩
  | moved a core ha hstep =>
    obtain ⟨k', -, hl⟩ := hcore hstep hget
    exact ⟨k', hl⟩
  | closed | rejected | joined | cleaned | finished => cases hp

theorem serves_running [DecidableEq P] (hs : Serves c s s') (hp : s'.phase = .running) :
    s.phase = .running := by
  cases hs with
  | closed | rejected | joined | cleaned | finished => cases hp
  | _ => exact hp

theorem serves_core [DecidableEq P] (hs : Serves c s s') :
    Reach c.sessions.step s.core s'.core := by
  cases hs with
  | connected | handled | cancelled | rejected | joined | finished => exact .start
  | called k handler slots a core hc hstep => exact Reach.next .start hstep
  | interrupted k slots u core hp hw hstep => exact Reach.next .start hstep
  | delivered core hp hstep => exact Reach.next .start hstep
  | moved a core ha hstep => exact Reach.next .start hstep
  | closed core hp hstep => exact Reach.next .start hstep
  | cleaned core hp hall hstep => exact Reach.next .start hstep

/-- What holds of the connections in every reachable state. -/
structure Granted (s : ServerState P) : Prop where
  holdings : Holdings s
  awaited : Awaited s
  accepting : s.phase = .running → Open s.core
  held : s.phase = .running → Held s

theorem granted_serves [DecidableEq P] (ho : Orderly c s) (h : Granted s) (hs : Serves c s s') :
    Granted s' := by
  have hreach := ho.core.reach
  have hholdings := holdings_serves hreach h.holdings hs
  have hopen := open_serves h.accepting hs
  refine ⟨hholdings, awaited_serves ho.joined h.awaited hs, hopen, fun hp id session hget heph => ?_⟩
  cases hold : s.core.sessions.get id with
  | none => exact held_new hreach h.awaited hs hp hold hget heph
  | some old =>
    have hsame := persistent_stays hreach (serves_core hs) hold hget
    obtain ⟨k, hk⟩ := h.held (serves_running hs hp) id old hold (hsame ▸ heph)
    rcases lease_serves ho h.holdings hs hp hk with hl | hr
    · exact ⟨k, hl⟩
    · rw [released_gone hholdings (hopen hp).1 hr] at hget
      cases hget

theorem granted_reach [DecidableEq P] (h : Reach c.step c.init s) : Granted s := by
  have h0 : Granted c.init := by
    refine ⟨⟨fun _ _ hw => (by cases hw), fun _ _ _ hw => (by cases hw), fun _ _ hk => (by cases hk),
      fun _ _ _ hb => ?_, fun _ _ hl => (by cases hl), fun _ _ _ hk => (by cases hk)⟩,
      fun _ _ _ hpc => (by cases hpc), fun _ => ⟨rfl, fun _ => rfl⟩,
      fun _ _ _ hget => (by cases hget)⟩
    cases hb with
    | creating t call stage hh hpc => cases hh
    | lease hl => cases hl
  exact h.invariant h0 (fun hr hi hs => granted_serves (orderly_reach hr) hi (step_serves hs))

/-- A session whose connection has removed it. -/
def Removed (core : State P) (id : SessionId) : Prop :=
  core.sessions.get id = none ∧ ∃ t found, core.tasks t = .teardown .remove id (.done found)

/-- A finished call stays. -/
theorem done_reach [DecidableEq P] {pc : Pc P} (hreach : Reach m.step State.init core)
    (hrun : Reach m.step core core') (hpc : core.tasks t = pc) (hover : pc.over = true)
    (hlive : pc ≠ .absent) : core'.tasks t = pc := by
  induction hrun with
  | start => exact hpc
  | @next u u' a before ha hs ih =>
    have hx := exclusive_reach (hreach.trans before)
    have hne : t ≠ u.nextTask := by
      rintro rfl
      exact hlive (ih.symm.trans (hx.absent _ (Nat.le_refl _)))
    rw [over_stays (step_outcome hs) hne (by rw [ih]; exact hover), ih]

theorem born_reach [DecidableEq P] (hrun : Reach m.step core core') (hb : Born core id) :
    Born core' id := by
  induction hrun with
  | start => exact hb
  | next before ha hs ih => exact ih.step (step_outcome hs)

theorem gone_reach [DecidableEq P] (hrun : Reach m.step core core') (hb : Born core id)
    (hn : core.sessions.get id = none) : core'.sessions.get id = none := by
  induction hrun with
  | start => exact hn
  | next before ha hs ih => exact gone_stays (step_outcome hs) (born_reach before hb) ih

theorem cores_reach [DecidableEq P] (h : Reach c.step s s') :
    Reach c.sessions.step s.core s'.core := by
  induction h with
  | start => exact .start
  | next before ha hs ih => exact ih.trans (serves_core (step_serves hs))

/-- Before shutdown a connection that holds a lease holds it until it has removed the session. -/
theorem lease_ends [DecidableEq P] (h : Reach c.step c.init s) {k : Nat}
    (hl : Leases s.core (s.handlers k) id) (hrun : Reach c.step s s') (hp : s'.phase = .running) :
    Leases s'.core (s'.handlers k) id ∨ Removed s'.core id := by
  induction hrun with
  | start => exact Or.inl hl
  | @next s1 s2 a before _ hs ih =>
    have hreach := h.trans before
    have hserves := step_serves hs
    have hgranted := granted_reach (hreach.next hs)
    have hcore := (orderly_reach hreach).core.reach
    rcases ih (serves_running hserves hp) with hl1 | ⟨hgone, t, found, hpc⟩
    · rcases lease_serves (orderly_reach hreach) (granted_reach hreach).holdings hserves hp hl1 with
        hl2 | hr
      · exact Or.inl hl2
      · have hgone := released_gone hgranted.holdings (hgranted.accepting hp).1 hr
        obtain ⟨t, found, -, hpc⟩ := hr
        exact Or.inr ⟨hgone, t, found, hpc⟩
    · have hreach0 := (orderly_reach h).core.reach
      have hborn : Born s.core id :=
        (hl.ephemeral (creations_reach hreach0)
          (fun id => (granted_reach h).holdings.origin k id)).born (creations_reach hreach0)
      have hborn1 : Born s1.core id := born_reach (cores_reach before) hborn
      exact Or.inr ⟨gone_reach (serves_core hserves) hborn1 hgone, t, found,
        done_reach hcore (serves_core hserves) hpc rfl (by rintro ⟨⟩)⟩

/-- The last move of the `create` call that the connection waits for. -/
def Creates (core : State P) (handler : Handler) (core' : State P) (id : SessionId) : Prop :=
  ∃ t call stage created, handler = .creating t ∧ core.tasks t = .create call stage ∧
    (core.tasks t).over = false ∧ call.id = id ∧ core'.tasks t = .create call (.done (.ok created))

theorem lease_core_begins [DecidableEq P] {a : Action P} (hreach : Reach m.step State.init core)
    (hs : m.step a core = some core') (hlive : ∀ t, handler.waits = some t → t < core.nextTask)
    (hn : ¬Leases core handler id) (h : Leases core' handler id) :
    Creates core handler core' id := by
  cases h with
  | created t call created hpc hp =>
    have hans := (creations_reach (hreach.next hs)).answers t call created hpc
    have hlt : t < core.nextTask := hlive t rfl
    rcases create_before (step_outcome hs) hpc with hb | ⟨stage, u, hb, hm⟩ | ⟨-, -, hnew, -⟩
    · exact absurd (.created t call created hb hp) hn
    · refine ⟨t, call, stage, created, rfl, hb, ?_, hans.id.symm, hpc⟩
      rw [hb]
      cases hover : (Pc.create call stage : Pc P).over with
      | false => rfl
      | true => exact absurd (Move.create (t := t) call hm) (over_ended hover)
    · exact absurd hnew (Nat.ne_of_lt hlt)
  | responding response id permit => exact absurd (.responding response id permit) hn
  | leasing id => exact absurd (.leasing id) hn
  | removing t id hpc =>
    refine absurd (.removing t id (fun found hdone => hpc found ?_)) hn
    exact done_reach hreach (Reach.next .start hs) hdone rfl (by rintro ⟨⟩)

/-- Leases come from creation: the step in which a connection comes to hold one is the
last of its own `create` call. -/
theorem lease_begins [DecidableEq P] (ho : Orderly c s) (hh : Holdings s) (hs : Serves c s s')
    {k : Nat} (hn : ¬Leases s.core (s.handlers k) id) (hl : Leases s'.core (s'.handlers k) id) :
    Creates s.core (s.handlers k) s'.core id := by
  have hreach := ho.core.reach
  -- a connection that another one moves is where it was
  have hset : ∀ {k' : Nat} {handler : Handler} {core : State P},
      Leases core ((s.setHandler k' handler).handlers k) id →
      k = k' ∧ Leases core handler id ∨ Leases core (s.handlers k) id := by
    intro k' handler core hl
    by_cases hk : k = k'
    · subst hk
      simp only [ServerState.setHandler, Function.update_self] at hl
      exact Or.inl ⟨rfl, hl⟩
    · simp only [ServerState.setHandler, Function.update_of_ne hk] at hl
      exact Or.inr hl
  cases hs with
  | connected hp =>
    rcases hset hl with ⟨-, hl⟩ | hl
    · cases hl
    · exact absurd hl hn
  | handled k' handler slots hm =>
    rcases hset hl with ⟨rfl, hl⟩ | hl
    · generalize s.handlers k = old at hm hn
      cases hm with
      | refused | hungUp | answered | removed | written => cases hl
      | created t call result hpc =>
        have hid : (createResponse result).2 = some id := by
          generalize (createResponse result).2 = lease at hl
          cases hl
          rfl
        obtain ⟨created, rfl, hp, rfl⟩ := create_response_lease hid
        exact absurd (.created t call created hpc hp) hn
      | granted response j permit =>
        cases hl
        exact absurd (.responding response id permit) hn
    · exact absurd hl hn
  | called k' handler slots a core hc hstep =>
    rcases hset hl with ⟨rfl, hl⟩ | hl
    · generalize s.handlers k = old at hc hn
      cases hc with
      | create call hp =>
        cases hl with
        | created t call' created hpc hp' =>
          rw [(create_spawned hstep).1] at hpc
          cases hpc
      | request => cases hl
      | unwritten response j permit =>
        cases hl
        exact absurd (.responding response id permit) hn
      | released j =>
        cases hl
        exact absurd (.leasing id) hn
    · exact lease_core_begins hreach hstep (hh.live k) hn hl
  | cancelled k' slots hp hi =>
    rcases hset hl with ⟨-, hl⟩ | hl
    · cases hl
    · exact absurd hl hn
  | interrupted k' slots u core hp hw hstep =>
    rcases hset hl with ⟨-, hl⟩ | hl
    · cases hl
    · exact lease_core_begins hreach hstep (hh.live k) hn hl
  | delivered core hp hstep => exact lease_core_begins hreach hstep (hh.live k) hn hl
  | moved a core ha hstep => exact lease_core_begins hreach hstep (hh.live k) hn hl
  | closed core hp hstep => exact lease_core_begins hreach hstep (hh.live k) hn hl
  | cleaned core hp hall hstep => exact lease_core_begins hreach hstep (hh.live k) hn hl
  | rejected | joined | finished => exact absurd hl hn

/-- Before shutdown the ephemeral sessions and the connections that hold a lease belong
together one to one, from the creation of the session by the connection to the return
of its `remove` call, after which the session is gone; persistent sessions have no such
connection, and no reload makes a session change sides. -/
theorem ephemeral_leases [DecidableEq P] {c : ControlServer P} {s : ServerState P}
    (h : Reach c.step c.init s) (hp : s.phase = .running) :
    (∀ id session, s.core.sessions.get id = some session → session.info.persistent = false →
      ∃! k, Leases s.core (s.handlers k) id) ∧
    (∀ id session, s.core.sessions.get id = some session → session.info.persistent = true →
      ∀ k, ¬Leases s.core (s.handlers k) id) ∧
    (∀ k id s', Leases s.core (s.handlers k) id → Reach c.step s s' → s'.phase = .running →
      Leases s'.core (s'.handlers k) id ∨ Removed s'.core id) ∧
    (∀ k id a s', c.step a s = some s' → ¬Leases s.core (s.handlers k) id →
      Leases s'.core (s'.handlers k) id → Creates s.core (s.handlers k) s'.core id) ∧
    (∀ id session s' session', s.core.sessions.get id = some session → Reach c.step s s' →
      s'.core.sessions.get id = some session' →
      session'.info.persistent = session.info.persistent) := by
  have hgranted := granted_reach h
  have hreach := (orderly_reach h).core.reach
  have hcreations := creations_reach hreach
  refine ⟨fun id session hget heph => ?_, fun id session hget hpers k hl => ?_,
    fun k id s' hl hrun hp' => lease_ends h hl hrun hp',
    fun k id a s' hs hn hl => lease_begins (orderly_reach h) hgranted.holdings (step_serves hs) hn hl,
    fun id session s' session' hget hrun hget' =>
      persistent_stays hreach (cores_reach hrun) hget hget'⟩
  · obtain ⟨k, hk⟩ := hgranted.held hp id session hget heph
    refine ⟨k, hk, fun k' hk' => ?_⟩
    exact hgranted.holdings.unique k' k id (hk'.binds hcreations) (hk.binds hcreations)
  · obtain ⟨t, call, created, hpc, rfl, hfalse⟩ :=
      hl.ephemeral hcreations (fun id => hgranted.holdings.origin k id)
    rw [persistent_call hreach hpc hget, hfalse] at hpers
    cases hpers

end

theorem ephemeral_leases_sample :
    ∃ s, Reach sampleServer.step sampleServer.init s ∧
      (∃ session, s.core.sessions.get sampleCall.id = some session) ∧
      ∃! k, Leases s.core (s.handlers k) sampleCall.id := by
  have hrun : (runSteps sampleServer.step sampleLease sampleServer.init).any
      (fun s => s.phase == .running &&
        (s.core.sessions.get sampleCall.id).any (fun session => !session.info.persistent)) =
      true := by decide +kernel
  obtain ⟨s, hs, htest⟩ := run_any hrun
  rw [Bool.and_eq_true, beq_iff_eq, Option.any_eq_true] at htest
  obtain ⟨hp, session, hget, heph⟩ := htest
  have hreach : Reach sampleServer.step sampleServer.init s := reach_run .start hs
  rw [Bool.not_eq_true'] at heph
  exact ⟨s, hreach, ⟨session, hget⟩,
    (ephemeral_leases hreach hp).1 sampleCall.id session hget heph⟩

end Proofs

end Baffle
