import Baffle.Proofs.Capacity

namespace Baffle

/-- The pair that a candidate commits under a credential seed. -/
def SessionManager.pair {P : Type} (m : SessionManager P) (session : SessionConfig)
    (credentialSeed : CredentialSeed) (secrets : ResolvedSecrets) : PolicyPair :=
  ⟨SessionPolicy.compile m.crates session credentialSeed, secrets⟩

/-- The replacement has been started and the gate not been stored to. -/
def ReloadStage.switching {P : Type} : ReloadStage P → Bool
  | .commit .. | .marked .. => true
  | _ => false

namespace Proofs

variable {P : Type} {m : SessionManager P} {t : TaskId} {s s' : State P} {pc pc' : Pc P}
  {id : SessionId}

/-- A runtime of the session. -/
def Of (s : State P) (id : SessionId) (r : RuntimeRef) : Prop :=
  r < s.nextCell ∧ (s.cells r).runtimeId = id

/-- The runtimes of a session are different listeners, and the one that the gate
admits has the committed pair. -/
structure Admitting (id : SessionId) (s : State P) : Prop where
  unique : ∀ r q, Of s id r → Of s id q →
    (s.cells r).listenerGeneration = (s.cells q).listenerGeneration → r = q
  admitted : ∀ r, Of s id r → (s.cells r).listenerGeneration = s.gates id →
    (s.history id).getLast? = some (s.cells r).current.pair

/-- The committed pair of a session, and no listener beyond the one that a reload has started. -/
structure Committed (m : SessionManager P) (id : SessionId) (s : State P) : Prop
    extends Admitting id s where
  pair : ∀ session runtime, s.sessions.get id = some session → session.runtime = some runtime →
    (s.history id).getLast?
        = some (m.pair session.configuration runtime.credentialSeed session.secrets) ∨
      ∃ t, (s.tasks t).marks = some id
  bound : ∀ session r, s.acceptingSessions = true → s.sessions.get id = some session →
    session.info.state = .running → Of s id r →
    (s.cells r).listenerGeneration ≤ session.listenerGeneration ∨
      ∃ t batch target options replacement,
        s.tasks t = .reload id batch (.commit target options replacement) ∧
          replacement.cell = r
  unused : id ∉ s.used → s.history id = []

/-- No listener of the session is newer than its current one. -/
def Newest (s : State P) (id : SessionId) : Prop :=
  ∃ session, s.sessions.get id = some session ∧
    ∀ r, Of s id r → (s.cells r).listenerGeneration ≤ session.listenerGeneration

/-- The session has the candidate and, as its current runtime, one with this seed. -/
def Switched (s : State P) (id : SessionId) (target : ReloadTarget P) (options : Replacement) :
    Prop :=
  ∃ session runtime, s.sessions.get id = some session ∧ session.runtime = some runtime ∧
    session.info.state = .running ∧ session.configuration = target.candidate ∧
    session.secrets = target.secrets ∧ runtime.credentialSeed = options.credentialSeed

/-- What a call knows about the runtimes of the session it works on. -/
def Cutting (m : SessionManager P) (s : State P) : Pc P → Prop
  | .create call stage =>
    match stage with
    | .reserve | .start => (∀ r, ¬Of s call.id r) ∧ s.history call.id = []
    | .register runtime => (∀ r, Of s call.id r → r = runtime.cell) ∧
        runtime.credentialSeed = call.credentialSeed ∧
        s.history call.id = [m.pair call.session call.credentialSeed call.secrets]
    | _ => True
  | .reload id _ stage =>
    match stage with
    | .prepare _ | .compare .. | .commitSame _ | .limits _ => Newest s id
    | .start _ options =>
      ∀ r, Of s id r → (s.cells r).listenerGeneration < options.nextListenerGeneration
    | .commit target options replacement =>
      (∀ r, Of s id r → (s.cells r).listenerGeneration < options.nextListenerGeneration ∨
        r = replacement.cell) ∧
      (s.cells replacement.cell).current.pair
        = m.pair target.candidate options.credentialSeed target.secrets ∧
      replacement.credentialSeed = options.credentialSeed
    | .marked target options _ =>
      (∀ r, Of s id r → (s.cells r).listenerGeneration = options.nextListenerGeneration →
        (s.cells r).current.pair
          = m.pair target.candidate options.credentialSeed target.secrets) ∧
      Switched s id target options
    | .gated target options _ => Switched s id target options ∧
      (s.history id).getLast?
        = some (m.pair target.candidate options.credentialSeed target.secrets)
    | _ => True
  | _ => True

theorem Frame.of (hf : Frame id s s') {r : RuntimeRef} (h : Of s' id r) :
    Of s id r ∧ (s'.cells r).listenerGeneration = (s.cells r).listenerGeneration ∧
      (s'.cells r).current = (s.cells r).current := by
  have hold := hf.fresh r h.1 h.2
  have hid := (hf.heap.runtimeId r hold).symm.trans h.2
  exact ⟨⟨hold, hid⟩, hf.heap.listenerGeneration r hold, (hf.core r hold hid).current⟩

theorem Committed.frame (hf : Frame id s s') (h : Committed m id s) : Committed m id s' where
  unique r q hr hq he := by
    obtain ⟨hr, hgr, -⟩ := hf.of hr
    obtain ⟨hq, hgq, -⟩ := hf.of hq
    exact h.unique r q hr hq (hgr.symm.trans (he.trans hgq))
  admitted r hr hg := by
    obtain ⟨hr, hgr, hcr⟩ := hf.of hr
    rw [hf.history, hcr]
    exact h.admitted r hr (hgr.symm.trans (hg.trans hf.gate))
  pair session' runtime hs' hruntime := by
    obtain ⟨session, hs, hk⟩ := hf.back hs'
    rw [hf.history, hk.configuration, hk.secrets]
    rcases h.pair session runtime hs (hk.runtime ▸ hruntime) with hp | ⟨u, hu⟩
    · exact Or.inl hp
    · exact Or.inr ⟨u, by rw [hf.tasks u (holds_of_marks hu)]; exact hu⟩
  bound session' r ha hs' hrun hr := by
    obtain ⟨session, hs, hk⟩ := hf.back hs'
    obtain ⟨hr, hgr, -⟩ := hf.of hr
    rw [hgr, hk.listenerGeneration]
    rcases h.bound session r (hf.accepting ha) hs (hk.state ▸ hrun) hr with
      hle | ⟨u, batch, target, options, replacement, hu, hcell⟩
    · exact Or.inl hle
    · refine Or.inr ⟨u, batch, target, options, replacement, ?_, hcell⟩
      rw [hf.tasks u (by rw [hu]; rfl)]
      exact hu
  unused hu := by
    rw [hf.history]
    exact h.unused (fun hmem => hu (hf.used hmem))

theorem Newest.frame (hrun : Underway s id (fun _ => True)) (hf : Frame id s s')
    (h : Newest s id) : Newest s' id := by
  obtain ⟨session, hs, hall⟩ := h
  obtain ⟨_, hs1, hstate, -⟩ := hrun
  rw [hs] at hs1
  cases hs1
  obtain ⟨session', hs', hk⟩ := hf.forth hs hstate
  refine ⟨session', hs', fun r hr => ?_⟩
  obtain ⟨hr, hgr, -⟩ := hf.of hr
  rw [hgr, hk.listenerGeneration]
  exact hall r hr

theorem Switched.frame {target : ReloadTarget P} {options : Replacement} (hf : Frame id s s')
    (h : Switched s id target options) : Switched s' id target options := by
  obtain ⟨session, runtime, hs, hruntime, hstate, hc, hsec, hseed⟩ := h
  obtain ⟨session', hs', hk⟩ := hf.forth hs hstate
  exact ⟨session', runtime, hs', hk.runtime.trans hruntime, hk.state.trans hstate,
    hk.configuration.trans hc, hk.secrets.trans hsec, hseed⟩

theorem Cutting.frame (hh : pc.holds = some id) (hl : ∀ id runtime, (id, runtime) ∈ pc.handles →
      LinkedTo s id runtime) (hw : Working s pc) (hf : Frame id s s') (h : Cutting m s pc) :
    Cutting m s' pc := by
  cases pc with
  | create call stage =>
    obtain rfl := Pc.holds_create hh
    cases stage with
    | reserve | start =>
      exact ⟨fun r hr => h.1 r (hf.of hr).1, hf.history.trans h.2⟩
    | register runtime =>
      exact ⟨fun r hr => h.1 r (hf.of hr).1, h.2.1, hf.history.trans h.2.2⟩
    | _ => trivial
  | reload j batch stage =>
    obtain rfl := Pc.holds_reload hh
    cases stage with
    | prepare | compare | commitSame | limits => exact Newest.frame hw hf h
    | start target options =>
      intro r hr
      obtain ⟨hr, hgr, -⟩ := hf.of hr
      rw [hgr]
      exact h r hr
    | commit target options replacement =>
      obtain ⟨hall, hpair, hseed⟩ := h
      have hrep := hl j replacement (List.mem_singleton_self _)
      refine ⟨fun r hr => ?_, ?_, hseed⟩
      · obtain ⟨hr, hgr, -⟩ := hf.of hr
        rw [hgr]
        exact hall r hr
      · rw [(hf.core _ hrep.1 hrep.2.1).current]
        exact hpair
    | marked target options oldRuntime =>
      refine ⟨fun r hr hg => ?_, h.2.frame hf⟩
      obtain ⟨hr, hgr, hcr⟩ := hf.of hr
      rw [hcr]
      exact h.1 r hr (hgr.symm.trans hg)
    | gated target options oldRuntime => exact ⟨h.1.frame hf, hf.history ▸ h.2⟩
    | _ => trivial
  | _ => trivial

/-- The same listeners with the same policies. -/
structure SameCells (s s' : State P) : Prop where
  nextCell : s'.nextCell = s.nextCell
  runtimeId : ∀ r, (s'.cells r).runtimeId = (s.cells r).runtimeId
  listenerGeneration : ∀ r, (s'.cells r).listenerGeneration = (s.cells r).listenerGeneration
  current : ∀ r, (s'.cells r).current = (s.cells r).current

theorem SameCells.trans {u : State P} (h : SameCells s s') (h' : SameCells s' u) :
    SameCells s u where
  nextCell := h'.nextCell.trans h.nextCell
  runtimeId r := (h'.runtimeId r).trans (h.runtimeId r)
  listenerGeneration r := (h'.listenerGeneration r).trans (h.listenerGeneration r)
  current r := (h'.current r).trans (h.current r)

theorem same_install (q : RuntimeRef) : SameCells s (s.setCell q (s.cells q).install) :=
  ⟨rfl, fun _ => set_same RuntimeCell.runtimeId rfl,
    fun _ => set_same RuntimeCell.listenerGeneration rfl, fun _ => set_same RuntimeCell.current rfl⟩

theorem same_mark (q : RuntimeRef) : SameCells s (s.setCell q (s.cells q).markRetiring) :=
  ⟨rfl, fun _ => set_same RuntimeCell.runtimeId rfl,
    fun _ => set_same RuntimeCell.listenerGeneration rfl, fun _ => set_same RuntimeCell.current rfl⟩

theorem SameCells.of (h : SameCells s s') {r : RuntimeRef} (hr : Of s' id r) : Of s id r :=
  ⟨h.nextCell ▸ hr.1, h.runtimeId r ▸ hr.2⟩

theorem SameCells.admitting (h : SameCells s s') (hg : s'.gates id = s.gates id)
    (hh : s'.history id = s.history id) (ha : Admitting id s) : Admitting id s' where
  unique r q hr hq he := by
    rw [h.listenerGeneration, h.listenerGeneration] at he
    exact ha.unique r q (h.of hr) (h.of hq) he
  admitted r hr he := by
    rw [h.listenerGeneration, hg] at he
    rw [hh, h.current]
    exact ha.admitted r (h.of hr) he

/-- The same policy under the same listener generation, if the session still runs. -/
structure Steady (old new : ManagedSession P) : Prop where
  configuration : new.configuration = old.configuration
  secrets : new.secrets = old.secrets
  listenerGeneration : new.listenerGeneration = old.listenerGeneration
  runtime : ∀ runtime, new.runtime = some runtime → old.runtime = some runtime
  state : new.info.state = .running → old.info.state = .running

theorem Steady.refl (session : ManagedSession P) : Steady session session :=
  ⟨rfl, rfl, rfl, fun _ h => h, fun h => h⟩

/-- What is committed while no reload of the session is between its replacement
listener and its gate. -/
structure Plain (m : SessionManager P) (id : SessionId) (s : State P) : Prop where
  pair : ∀ session runtime, s.sessions.get id = some session → session.runtime = some runtime →
    (s.history id).getLast?
      = some (m.pair session.configuration runtime.credentialSeed session.secrets)
  bound : ∀ session r, s.acceptingSessions = true → s.sessions.get id = some session →
    session.info.state = .running → Of s id r →
    (s.cells r).listenerGeneration ≤ session.listenerGeneration

theorem Committed.of_plain (ha : Admitting id s) (hp : Plain m id s) (hu : id ∈ s.used) :
    Committed m id s where
  toAdmitting := ha
  pair session runtime hs hruntime := Or.inl (hp.pair session runtime hs hruntime)
  bound session r hacc hs hrun hr := Or.inl (hp.bound session r hacc hs hrun hr)
  unused hn := absurd hu hn

theorem marks_switching (h : pc.marks = some id) :
    ∃ batch stage, pc = .reload id batch stage ∧ stage.switching = true := by
  cases pc with
  | reload j batch stage =>
    cases stage with
    | marked =>
      cases h
      exact ⟨batch, _, rfl, rfl⟩
    | _ => cases h
  | _ => cases h

theorem Committed.last (h : Committed m id s) (hx : Exclusive s)
    (hh : (s.tasks t).holds = some id) (hm : (s.tasks t).marks ≠ some id)
    {session : ManagedSession P} {runtime : ProxyRuntime P}
    (hs : s.sessions.get id = some session) (hruntime : session.runtime = some runtime) :
    (s.history id).getLast?
      = some (m.pair session.configuration runtime.credentialSeed session.secrets) := by
  rcases h.pair session runtime hs hruntime with hp | ⟨u, hu⟩
  · exact hp
  · rw [hx.unique u t id (holds_of_marks hu) hh] at hu
    exact absurd hu hm

theorem Committed.plain (h : Committed m id s) (hx : Exclusive s)
    (hh : (s.tasks t).holds = some id)
    (hc : ∀ batch stage, s.tasks t = .reload id batch stage → stage.switching = false) :
    Plain m id s where
  pair session runtime hs hruntime := by
    refine h.last hx hh (fun hu => ?_) hs hruntime
    obtain ⟨batch, stage, hpc, hsw⟩ := marks_switching hu
    rw [hc batch stage hpc] at hsw
    cases hsw
  bound session r ha hs hrun hr := by
    rcases h.bound session r ha hs hrun hr with hle | ⟨u, batch, target, options, rep, hu, -⟩
    · exact hle
    · rw [hx.unique u t id (by rw [hu]; rfl) hh] at hu
      cases hc batch _ hu

theorem Plain.steady (hsame : SameCells s s') (hh : s'.history id = s.history id)
    (ha : s'.acceptingSessions = true → s.acceptingSessions = true)
    (hget : ∀ session', s'.sessions.get id = some session' →
      ∃ session, s.sessions.get id = some session ∧ Steady session session')
    (hp : Plain m id s) : Plain m id s' where
  pair session' runtime hs' hruntime := by
    obtain ⟨session, hs, hst⟩ := hget session' hs'
    rw [hh, hst.configuration, hst.secrets]
    exact hp.pair session runtime hs (hst.runtime runtime hruntime)
  bound session' r hacc hs' hrun hr := by
    obtain ⟨session, hs, hst⟩ := hget session' hs'
    rw [hsame.listenerGeneration, hst.listenerGeneration]
    exact hp.bound session r (ha hacc) hs (hst.state hrun) (hsame.of hr)

/-- A session without an entry has no policy to keep. -/
theorem plain_vacant (hs : s.sessions.get id = none) : Plain m id s where
  pair _ _ h := by
    rw [hs] at h
    cases h
  bound _ _ _ h := by
    rw [hs] at h
    cases h

theorem steady_written {session new : ManagedSession P} (hs : s.sessions.get id = some session)
    (hnew : Steady session new) {session' : ManagedSession P}
    (h : (s.sessions.insert id new).get id = some session') :
    ∃ session, s.sessions.get id = some session ∧ Steady session session' := by
  rw [SortedMap.get_insert_self] at h
  cases h
  exact ⟨session, hs, hnew⟩

theorem cutover_create {call : CreateCall} {stage stage' : CreateStage P} (hx : Exclusive s)
    (hl : Linked s) (hpc : s.tasks t = .create call stage)
    (hh : (s.tasks t).holds = some call.id) (hw : Working s (.create call stage))
    (hr : Committed m call.id s) (hc : Cutting m s (.create call stage))
    (hm : CreateMove m s call stage s' stage') :
    Committed m call.id (s'.goto t (.create call stage')) ∧
      Cutting m (s'.goto t (.create call stage')) (.create call stage') := by
  have hu := used_of_holds hx hh
  have hnone := unregistered hx hpc hh
  have hsame : ∀ {u : State P}, SameCells s u → u.gates = s.gates → u.history = s.history →
      u.sessions = s.sessions → u.used = s.used → Committed m call.id u := by
    intro u hcells hg hhist hs hused
    refine .of_plain (hcells.admitting (by rw [hg]) (by rw [hhist]) hr.toAdmitting)
      (plain_vacant ?_) ?_
    · rw [hs]
      exact hnone
    · rw [hused]
      exact hu
  cases hm with
  | refused error => exact ⟨hsame ⟨rfl, fun _ => rfl, fun _ => rfl, fun _ => rfl⟩ rfl rfl rfl rfl, trivial⟩
  | reserved ha hroom hs hp =>
    exact ⟨hsame ⟨rfl, fun _ => rfl, fun _ => rfl, fun _ => rfl⟩ rfl rfl rfl rfl, hc⟩
  | failed error => exact ⟨hsame ⟨rfl, fun _ => rfl, fun _ => rfl, fun _ => rfl⟩ rfl rfl rfl rfl, trivial⟩
  | started socketPath =>
    have honly : ∀ r, Of ((created m s call socketPath).1) call.id r → r = s.nextCell := by
      intro r hrof
      by_contra hne
      have hlt : r < s.nextCell := Nat.lt_of_le_of_ne (Nat.le_of_lt_succ hrof.1) hne
      have hid := hrof.2
      simp only [created, State.startRuntime, Function.update_of_ne hne] at hid
      exact hc.1 r ⟨hlt, hid⟩
    have hcell : (created m s call socketPath).1.cells s.nextCell
        = RuntimeCell.start call.id 1 s.nextCell
          (m.pair call.session call.credentialSeed call.secrets) := Function.update_self ..
    have hhist : (created m s call socketPath).1.history call.id
        = [m.pair call.session call.credentialSeed call.secrets] := Function.update_self ..
    refine ⟨.of_plain ⟨?_, ?_⟩ (plain_vacant hnone) hu, honly, rfl, hhist⟩
    · intro r q hrof hqof _
      rw [honly r hrof, honly q hqof]
    · intro r hrof _
      obtain rfl := honly r hrof
      simp only [State.goto, hcell, hhist]
      rfl
  | released error => exact ⟨hsame ⟨rfl, fun _ => rfl, fun _ => rfl, fun _ => rfl⟩ rfl rfl rfl rfl, trivial⟩
  | late runtime ha => exact ⟨hsame ⟨rfl, fun _ => rfl, fun _ => rfl, fun _ => rfl⟩ rfl rfl rfl rfl, trivial⟩
  | registered runtime ha =>
    obtain ⟨honly, hseed, hhist⟩ := hc
    have hone := (hw.2 runtime rfl).2
    have hlink := hl t call.id runtime (Or.inr (by rw [hpc]; exact List.mem_singleton_self _))
    have hcells := same_install (s := s) runtime.cell
    have hadm := hcells.admitting rfl rfl hr.toAdmitting
    refine ⟨.of_plain ⟨hadm.unique, hadm.admitted⟩ ⟨?_, ?_⟩ hu, trivial⟩
    · intro session runtime' hs hruntime
      simp only [State.goto, State.setSession, SortedMap.get_insert_self] at hs
      cases hs
      cases hruntime
      simp only [State.goto, State.setSession, State.setCell, hhist, SessionManager.createdSession,
        hseed]
      rfl
    · intro session r _ hs _ hrof
      simp only [State.goto, State.setSession, SortedMap.get_insert_self] at hs
      cases hs
      have hrof : Of (s.setCell runtime.cell (s.cells runtime.cell).install) call.id r := hrof
      have heq := honly r (hcells.of hrof)
      subst heq
      have hg := hcells.listenerGeneration runtime.cell
      rw [hlink.2.2, hone] at hg
      exact Nat.le_of_eq hg
  | dropped runtime => exact ⟨hsame ⟨rfl, fun _ => rfl, fun _ => rfl, fun _ => rfl⟩ rfl rfl rfl rfl, trivial⟩

/-- A step that keeps the policies and listeners of the session. -/
theorem Committed.steady (hr : Committed m id s) (hp : Plain m id s) (hu : id ∈ s'.used)
    (hcells : SameCells s s') (hg : s'.gates id = s.gates id)
    (hh : s'.history id = s.history id)
    (ha : s'.acceptingSessions = true → s.acceptingSessions = true)
    (hget : ∀ session', s'.sessions.get id = some session' →
      ∃ session, s.sessions.get id = some session ∧ Steady session session') :
    Committed m id s' :=
  .of_plain (hcells.admitting hg hh hr.toAdmitting) (hp.steady hcells hh ha hget) hu

theorem same_cells (s : State P) : SameCells s s :=
  ⟨rfl, fun _ => rfl, fun _ => rfl, fun _ => rfl⟩

theorem steady_unfinished (session : ManagedSession P) :
    Steady session (SessionManager.unfinished s session) :=
  ⟨rfl, rfl, rfl, fun _ h => h, fun h => h⟩

/-- The first commit path: the current listener gets the new pair. -/
theorem cutover_same {target : ReloadTarget P} {session : ManagedSession P}
    {runtime : ProxyRuntime P} {cell : RuntimeCell} (hr : Committed m id s) (hp : Plain m id s)
    (hs : s.sessions.get id = some session)
    (hruntime : session.runtime = some runtime) (hlink : LinkedTo s id runtime)
    (hgate : runtime.listenerGeneration = s.gates id)
    (hcell : (s.cells runtime.cell).replaceGeneration
      (m.pair target.candidate runtime.credentialSeed target.secrets) = some cell) :
    ∀ u : State P, u = { (s.setCell runtime.cell cell).setSession id
          (SessionManager.refreshed target session) with
        history := Function.update s.history id (s.history id ++
          [m.pair target.candidate runtime.credentialSeed target.secrets]) } →
      Admitting id u ∧ Plain m id u := by
  rintro u rfl
  have hcell' := replaced hcell
  have hid : ∀ r, ((s.setCell runtime.cell cell).cells r).runtimeId = (s.cells r).runtimeId :=
    fun r => set_same RuntimeCell.runtimeId (by rw [hcell'])
  have hg : ∀ r, ((s.setCell runtime.cell cell).cells r).listenerGeneration
      = (s.cells r).listenerGeneration :=
    fun r => set_same RuntimeCell.listenerGeneration (by rw [hcell'])
  refine ⟨⟨?_, ?_⟩, ?_, ?_⟩
  · intro r q hrof hqof he
    exact hr.unique r q ⟨hrof.1, (hid r).symm.trans hrof.2⟩ ⟨hqof.1, (hid q).symm.trans hqof.2⟩
      ((hg r).symm.trans (he.trans (hg q)))
  · intro r hrof he
    -- the admitted listener is the current one
    have hcur : r = runtime.cell := by
      refine hr.unique r runtime.cell ⟨hrof.1, (hid r).symm.trans hrof.2⟩ ⟨hlink.1, hlink.2.1⟩ ?_
      rw [hlink.2.2, hgate]
      exact (hg r).symm.trans he
    subst hcur
    simp only [State.setSession, State.setCell, Function.update_self, List.getLast?_concat, hcell']
  · intro session' runtime' hs' hruntime'
    simp only [State.setSession, SortedMap.get_insert_self] at hs'
    cases hs'
    have he : runtime' = runtime := Option.some.inj (hruntime'.symm.trans hruntime)
    subst he
    simp only [Function.update_self, List.getLast?_concat]
    rfl
  · intro session' r ha hs' hrun hrof
    simp only [State.setSession, SortedMap.get_insert_self] at hs'
    cases hs'
    have hle := hp.bound session r ha hs hrun ⟨hrof.1, (hid r).symm.trans hrof.2⟩
    exact (Nat.le_of_eq (hg r)).trans hle

/-- The runtimes of a session after one more was started. -/
theorem started_cases {u : State P} {cell : RuntimeCell}
    (hcells : u.cells = Function.update s.cells s.nextCell cell)
    (hnext : u.nextCell = s.nextCell + 1) {r : RuntimeRef} (h : Of u id r) :
    r = s.nextCell ∨ Of s id r ∧ u.cells r = s.cells r := by
  by_cases hne : r = s.nextCell
  · exact Or.inl hne
  · have hold : u.cells r = s.cells r := by
      rw [hcells]
      exact Function.update_of_ne hne _ _
    have hlt : r < s.nextCell + 1 := hnext ▸ h.1
    exact Or.inr ⟨⟨Nat.lt_of_le_of_ne (Nat.le_of_lt_succ hlt) hne, hold ▸ h.2⟩, hold⟩

/-- The start of a replacement, which no gate admits yet. -/
theorem cutover_replacing {u : State P} {batch : Option Batch} {target : ReloadTarget P}
    {options : Replacement} {replacement : ProxyRuntime P} {pair : PolicyPair}
    (hr : Committed m id s) (hp : Plain m id s) (hu : id ∈ u.used)
    (hgate : s.gates id < options.nextListenerGeneration)
    (hbelow : ∀ r, Of s id r → (s.cells r).listenerGeneration < options.nextListenerGeneration)
    (hcells : u.cells = Function.update s.cells s.nextCell
      (RuntimeCell.start id options.nextListenerGeneration options.permits pair))
    (hnext : u.nextCell = s.nextCell + 1) (hs : u.sessions = s.sessions)
    (hg : u.gates = s.gates) (hh : u.history = s.history)
    (ha : u.acceptingSessions = s.acceptingSessions)
    (ht : u.tasks t = .reload id batch (.commit target options replacement))
    (hrep : replacement.cell = s.nextCell) : Committed m id u := by
  have hnew : (u.cells s.nextCell).listenerGeneration = options.nextListenerGeneration := by
    rw [hcells, Function.update_self]
    rfl
  refine ⟨⟨?_, ?_⟩, ?_, ?_, fun hn => absurd hu hn⟩
  · intro r q hrof hqof he
    rcases started_cases hcells hnext hrof with rfl | ⟨hro, hre⟩ <;>
      rcases started_cases hcells hnext hqof with rfl | ⟨hqo, hqe⟩
    · rfl
    · rw [hnew, hqe] at he
      exact absurd he.symm (Nat.ne_of_lt (hbelow q hqo))
    · rw [hnew, hre] at he
      exact absurd he (Nat.ne_of_lt (hbelow r hro))
    · rw [hre, hqe] at he
      exact hr.unique r q hro hqo he
  · intro r hrof he
    rw [hg] at he
    rcases started_cases hcells hnext hrof with rfl | ⟨hro, hre⟩
    · rw [hnew] at he
      exact absurd he (Nat.ne_of_gt hgate)
    · rw [hre] at he ⊢
      rw [hh]
      exact hr.admitted r hro he
  · intro session runtime hget hruntime
    rw [hh]
    rw [hs] at hget
    exact Or.inl (hp.pair session runtime hget hruntime)
  · intro session r hacc hget hrun hrof
    rw [hs] at hget
    rw [ha] at hacc
    rcases started_cases hcells hnext hrof with rfl | ⟨hro, hre⟩
    · exact Or.inr ⟨t, batch, target, options, replacement, ht, hrep⟩
    · rw [hre]
      exact Or.inl (hp.bound session r hacc hget hrun hro)

theorem cutover_reload {batch : Option Batch} {stage stage' : ReloadStage P} (hs : Sound s)
    (hrec : Recorded m id s) (hpc : s.tasks t = .reload id batch stage)
    (hw : Working s (.reload id batch stage)) (hr : Committed m id s)
    (hc : Cutting m s (.reload id batch stage)) (hm : ReloadMove m s id stage s' stage') :
    Committed m id (s'.goto t (.reload id batch stage')) ∧
      Cutting m (s'.goto t (.reload id batch stage')) (.reload id batch stage') := by
  have hh : (s.tasks t).holds = some id := by
    rw [hpc]
    cases hm <;> rfl
  have hu := used_of_holds hs.exclusive hh
  have hplain : stage.switching = false → Plain m id s := by
    intro hsw
    refine hr.plain hs.exclusive hh (fun batch' stage1 he => ?_)
    rw [hpc] at he
    cases he
    exact hsw
  have hgate : (s.tasks t).marks ≠ some id → ∀ session, s.sessions.get id = some session →
      s.gates id = session.listenerGeneration :=
    fun hmk session hget => hrec.gated hs.exclusive hh hmk hget
  rw [hpc] at hgate
  -- the steps that leave the session as it is
  have hsame : stage.switching = false →
      ∀ {stage1}, Committed m id (s.goto t (.reload id batch stage1)) :=
    fun hsw => hr.steady (hplain hsw) hu ⟨rfl, fun _ => rfl, fun _ => rfl, fun _ => rfl⟩ rfl rfl
      (fun ha => ha) (fun session' h => ⟨session', h, .refl session'⟩)
  cases hm with
  | missing hnone hres => exact ⟨hsame rfl, trivial⟩
  | turnedDown session hget hres =>
    refine ⟨hr.steady (hplain rfl) hu ⟨rfl, fun _ => rfl, fun _ => rfl, fun _ => rfl⟩ rfl rfl
      (fun ha => ha) (fun _ => steady_written hget ?_), trivial⟩
    exact ⟨rfl, rfl, rfl, fun _ h => h, fun h => h⟩
  | begun session hget hstate ha source hsource =>
    refine ⟨hr.steady (hplain rfl) hu ⟨rfl, fun _ => rfl, fun _ => rfl, fun _ => rfl⟩ rfl rfl
      (fun ha => ha) (fun _ => steady_written hget ?_), _, SortedMap.get_insert_self ..,
      fun r hrof => ?_⟩
    · exact ⟨rfl, rfl, rfl, fun _ h => h, fun h => h⟩
    · exact (hplain rfl).bound session r ha hget hstate hrof
  | unprepared | compareMissing | unchanged | sameFailed | limitsRefused | unbound | drained =>
    exact ⟨hsame rfl, trivial⟩
  | prepared | samePath | otherPath => exact ⟨hsame rfl, hc⟩
  | sameCommitted target ha session hget runtime hruntime cell hcell =>
    have hlink := hs.linked.session hget (mem_runtimes.mpr (Or.inr hruntime))
    obtain ⟨session', hget', hstate, -⟩ := hw
    rw [hget] at hget'
    cases hget'
    obtain ⟨runtime', hsome, hcurrent, -⟩ := (hrec.agrees session hget).running hstate
    rw [hruntime] at hsome
    cases hsome
    have hg : runtime.listenerGeneration = s.gates id := by
      rw [hgate (by rintro ⟨⟩) session hget, hcurrent]
    obtain ⟨hadm, hnew⟩ := cutover_same hr (hplain rfl) hget hruntime hlink hg hcell _ rfl
    exact ⟨.of_plain ⟨hadm.unique, hadm.admitted⟩ ⟨hnew.pair, hnew.bound⟩ hu, trivial⟩
  | limited target session hget hres =>
    exact ⟨hr.steady (hplain rfl) hu ⟨rfl, fun _ => rfl, fun _ => rfl, fun _ => rfl⟩ rfl rfl
      (fun ha => ha) (fun _ => steady_written hget (steady_unfinished session)), trivial⟩
  | withinLimits target ha session hget runtime hruntime hroom =>
    obtain ⟨session', hget', hall⟩ := hc
    rw [hget] at hget'
    cases hget'
    exact ⟨hr.steady (hplain rfl) hu ⟨rfl, fun _ => rfl, fun _ => rfl, fun _ => rfl⟩ rfl rfl
      (fun ha => ha) (fun _ => steady_written hget (steady_unfinished session)),
      fun r hrof => Nat.lt_succ_of_le (hall r hrof)⟩
  | replacing target options =>
    obtain ⟨session, hget, -, hnext, -⟩ := hw
    have hlt : s.gates id < options.nextListenerGeneration := by
      rw [hgate (by rintro ⟨⟩) session hget, ← hnext]
      exact Nat.lt_succ_self _
    refine ⟨cutover_replacing hr (hplain rfl) hu hlt hc rfl rfl rfl rfl rfl rfl
      (Function.update_self ..) rfl, fun r hrof => ?_, ?_, rfl⟩
    · rcases started_cases rfl rfl hrof with rfl | ⟨hro, hre⟩
      · exact Or.inr rfl
      · rw [hre]
        exact Or.inl (hc r hro)
    · simp only [State.goto, State.startRuntime, Function.update_self]
      rfl
  | withdrawn target options replacement hwd hres =>
    refine ⟨.of_plain ⟨hr.unique, hr.admitted⟩ ⟨fun session runtime hget hruntime => ?_, ?_⟩ hu,
      trivial⟩
    · refine hr.last hs.exclusive hh ?_ hget hruntime
      rw [hpc]
      rintro ⟨⟩
    · intro session r ha hget hrun hrof
      rcases hwd with hwd | hwd | ⟨session', hget', hne⟩
      · rw [show s.acceptingSessions = true from ha] at hwd
        cases hwd
      · rw [show s.sessions.get id = some session from hget] at hwd
        cases hwd
      · rw [show s.sessions.get id = some session from hget] at hget'
        cases hget'
        exact absurd hrun hne
  | vacant target options replacement session hget hstate hruntime hres =>
    obtain ⟨runtime, hsome, -⟩ := (hrec.agrees session hget).running hstate
    rw [hruntime] at hsome
    cases hsome
  | switched target options replacement ha session hget hstate oldRuntime hruntime =>
    obtain ⟨hall, hpair, hseed⟩ := hc
    have hlink := hs.linked t id replacement
      (Or.inr (by rw [hpc]; exact List.mem_singleton_self _))
    have hnext : (s.cells replacement.cell).listenerGeneration
        = options.nextListenerGeneration := hlink.2.2.trans hw.2.1
    have hcells := (same_install (s := s) replacement.cell).trans (same_mark oldRuntime.cell)
    have hadm := hcells.admitting rfl rfl hr.toAdmitting
    refine ⟨⟨⟨hadm.unique, hadm.admitted⟩, fun _ _ _ _ => Or.inr ⟨t, ?_⟩, ?_,
      fun hn => absurd hu hn⟩, fun r hrof hg => ?_,
      _, replacement, SortedMap.get_insert_self .., rfl, hstate, rfl, rfl, hseed⟩
    · simp only [State.goto, Function.update_self]
      rfl
    · intro session' r _ hget' _ hrof
      simp only [State.goto, State.setSession, SortedMap.get_insert_self] at hget'
      cases hget'
      refine Or.inl ((Nat.le_of_eq (hcells.listenerGeneration r)).trans ?_)
      rcases hall r (hcells.of hrof) with hlt | rfl
      · exact Nat.le_of_lt hlt
      · exact Nat.le_of_eq hnext
    · have hg' := (hcells.listenerGeneration r).symm.trans hg
      have hcur : r = replacement.cell :=
        (hall r (hcells.of hrof)).resolve_left (fun hlt => Nat.ne_of_lt hlt hg')
      subst hcur
      exact (congrArg ProxyGeneration.pair (hcells.current replacement.cell)).trans hpair
  | gateStored target options oldRuntime =>
    obtain ⟨hnew, hsw⟩ := hc
    obtain ⟨session, runtime, hget, hruntime, hstate, hconf, hsec, hseed⟩ := hsw
    have hlast : ((m.reloadGate id target options s).history id).getLast?
        = some (m.pair target.candidate options.credentialSeed target.secrets) := by
      simp only [SessionManager.reloadGate, Function.update_self, List.getLast?_concat]
      rfl
    refine ⟨⟨⟨hr.unique, fun r hrof hg => ?_⟩, fun session' runtime' hget' hruntime' => ?_,
      fun session' r ha hget' hrun hrof => ?_, fun hn => absurd hu hn⟩,
      ⟨session, runtime, hget, hruntime, hstate, hconf, hsec, hseed⟩, hlast⟩
    · have hg' : (s.cells r).listenerGeneration = options.nextListenerGeneration :=
        hg.trans (Function.update_self ..)
      exact hlast.trans (congrArg some (hnew r hrof hg').symm)
    · have he := hget.symm.trans hget'
      cases he
      have he := hruntime.symm.trans hruntime'
      cases he
      rw [hconf, hsec, hseed]
      exact Or.inl hlast
    · rcases hr.bound session' r ha hget' hrun hrof with
        hle | ⟨u, batch', target', options', replacement', hu', -⟩
      · exact Or.inl hle
      · rw [hs.exclusive.unique u t id (by rw [hu']; rfl) hh, hpc] at hu'
        cases hu'
  | lost target options oldRuntime hnone =>
    obtain ⟨session, hget, -⟩ := hw
    rw [hnone] at hget
    cases hget
  | retired target options oldRuntime session hget =>
    refine ⟨hr.steady (hplain rfl) hu ⟨rfl, fun r => set_same RuntimeCell.runtimeId rfl,
      fun r => set_same RuntimeCell.listenerGeneration rfl,
      fun r => set_same RuntimeCell.current rfl⟩ rfl rfl (fun ha => ha)
      (fun _ => steady_written hget ?_), trivial⟩
    exact ⟨rfl, rfl, rfl, fun _ h => h, fun h => h⟩
  | stopping replacement result =>
    exact ⟨hr.steady (hplain rfl) hu ⟨rfl, fun _ => rfl, fun _ => rfl, fun _ => rfl⟩ rfl rfl
      (fun ha => ha) (fun session' h => ⟨session', h, .refl session'⟩), trivial⟩

theorem steady_stopped (session : ManagedSession P) : Steady session session.stopped :=
  ⟨rfl, rfl, rfl, fun _ h => (by cases h), fun h => (by cases h)⟩

/-- A tear-down commits nothing. -/
theorem teardown_steady {kind : TeardownKind} {stage stage' : TeardownStage P}
    (hm : TeardownMove t s kind id stage s' stage') :
    SameCells s s' ∧ s'.gates = s.gates ∧ s'.history = s.history ∧
      ∀ session', s'.sessions.get id = some session' →
        ∃ session, s.sessions.get id = some session ∧ Steady session session' := by
  have hcells : SameCells s s' := by
    cases hm <;> exact ⟨rfl, fun _ => rfl, fun _ => rfl, fun _ => rfl⟩
  refine ⟨hcells, by cases hm <;> rfl, by cases hm <;> rfl, ?_⟩
  cases hm with
  | forgotten g hk session hget hne =>
    refine fun _ => steady_written hget ?_
    exact ⟨rfl, rfl, rfl, fun _ h => h, fun h => h⟩
  | claimed session hget hk hlive => exact fun _ => steady_written hget (steady_stopped session)
  | removed session hget =>
    intro session' h
    simp [SessionManager.removeEntry] at h
  | _ => exact fun session' h => ⟨session', h, .refl session'⟩

theorem sweep_steady {stage stage' : SweepStage P} (hm : SweepMove t s stage s' stage')
    (hh : (Pc.shutdownAll stage).holds = some id) :
    SameCells s s' ∧ s'.gates = s.gates ∧ s'.history = s.history ∧
      ∀ session', s'.sessions.get id = some session' →
        ∃ session, s.sessions.get id = some session ∧ Steady session session' := by
  cases hm with
  | gone j ids runtimes count hnone =>
    exact ⟨same_cells s, rfl, rfl, fun session' h => ⟨session', h, .refl session'⟩⟩
  | claimed j ids runtimes count session hget =>
    cases hh
    exact ⟨⟨rfl, fun _ => rfl, fun _ => rfl, fun _ => rfl⟩, rfl, rfl,
      fun _ => steady_written hget (steady_stopped session)⟩
  | _ => cases hh

theorem Between.cutting (h : Between pc) : Cutting m s pc := by cases h <;> trivial

theorem cutover_move (hs : Sound s) (hrec : Recorded m id s)
    (hh : (s.tasks t).holds = some id) (hw : Working s (s.tasks t)) (hr : Committed m id s)
    (hc : Cutting m s (s.tasks t)) (hm : Move m t s (s.tasks t) s' pc') :
    Committed m id (s'.goto t pc') ∧ Cutting m (s'.goto t pc') pc' := by
  have hu := used_of_holds hs.exclusive hh
  have hacc := fun ha => move_accepting hm (show s'.acceptingSessions = true from ha)
  have hused := (move_calls hm).2.2
  have hplain : (∀ batch stage, s.tasks t = .reload id batch stage → stage.switching = false) →
      Plain m id s := hr.plain hs.exclusive hh
  generalize hpc : s.tasks t = pc at hm
  rw [hpc] at hw hc hplain
  have hj := hh
  rw [hpc] at hj
  cases hm with
  | create call h =>
    obtain rfl := Pc.holds_create hj
    exact cutover_create hs.exclusive hs.linked hpc hh hw hr hc h
  | reload j batch h =>
    obtain rfl := Pc.holds_reload hj
    exact cutover_reload hs hrec hpc hw hr hc h
  | reloadReturned j batch result =>
    have hp := hplain (fun batch' stage' he => by cases he; rfl)
    refine ⟨hr.steady hp hu ⟨rfl, fun _ => rfl, fun _ => rfl, fun _ => rfl⟩ rfl rfl
      (fun ha => ha) (fun session' h => ⟨session', h, .refl session'⟩),
      (after_reload_between batch result).cutting⟩
  | teardown kind j h =>
    obtain rfl := Pc.holds_teardown hj
    have hp := hplain (fun batch' stage' he => by cases he)
    obtain ⟨hcells, hg, hhist, hget⟩ := teardown_steady h
    exact ⟨hr.steady hp (hused ▸ hu) ⟨hcells.nextCell, hcells.runtimeId, hcells.listenerGeneration,
      hcells.current⟩ (congrFun hg _) (congrFun hhist _) hacc hget, trivial⟩
  | sweep h =>
    have hp := hplain (fun batch' stage' he => by cases he)
    obtain ⟨hcells, hg, hhist, hget⟩ := sweep_steady h hj
    exact ⟨hr.steady hp (hused ▸ hu) ⟨hcells.nextCell, hcells.runtimeId, hcells.listenerGeneration,
      hcells.current⟩ (congrFun hg _) (congrFun hhist _) hacc hget, trivial⟩
  | unknown | found | locked | reloadAll | rejected | listed => cases hj

theorem cutover_upheld [DecidableEq P] (h : Reach m.step State.init s) (id : SessionId) :
    Upheld (Committed m) (fun _ => Cutting m) id s := by
  refine session_rule ?_ ?_ ?_ ?_ ?_ ?_ h id
  · intro id
    exact ⟨⟨fun r _ hr => absurd hr.1 (Nat.not_lt_zero r),
      fun r hr => absurd hr.1 (Nat.not_lt_zero r)⟩, fun _ _ h => (by cases h),
      fun _ _ _ h => (by cases h), fun _ => rfl⟩
  · intro id s s' _ hf hr
    exact hr.frame hf
  · intro id s s' t hreach hh _ hf hc
    exact hc.frame hh (fun j runtime hmem => linked_reach hreach t j runtime (Or.inr hmem))
      (working_reach hreach hh) hf
  · intro id s s' pc hreach hen _ hf hr
    cases hen with
    | create call hid hnew =>
      subst hid
      refine ⟨fun r hrof => ?_, hf.history.trans (hr.unused hnew)⟩
      exact (recorded_reach hreach call.id).unused hnew r (hf.of hrof).1.1 (hf.of hrof).1.2
    | _ => trivial
  · intro id s s' t pc hreach hh hr hc hm
    exact cutover_move (sound_reach hreach) (recorded_reach hreach id) hh
      (working_reach hreach hh) hr hc hm
  · intro id s t hreach hh ha hb hr hc
    have hx := exclusive_reach hreach
    have hu := used_of_holds hx hh
    have hcells : SameCells s ((s.dropRuntimes (s.tasks t).owned).abortCells
        (s.tasks t).draining) :=
      ⟨rfl, fun r => (tended_aborted _ _ r).runtimeId,
        fun r => (tended_aborted _ _ r).listenerGeneration,
        fun r => (core_abort_cells (s := s.dropRuntimes (s.tasks t).owned) _ r).current⟩
    have hadm := hcells.admitting rfl rfl hr.toAdmitting
    refine .of_plain ⟨hadm.unique, hadm.admitted⟩ ⟨fun session runtime hget hruntime => ?_, ?_⟩ hu
    · refine hr.last hx hh ?_ hget hruntime
      rw [marks_of_abortable hb]
      rintro ⟨⟩
    · intro session r hacc
      rw [show s.acceptingSessions = true from hacc] at ha
      cases ha

end Proofs

end Baffle
