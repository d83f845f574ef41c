import Baffle.Proofs.Ownership

namespace Baffle.Proofs

variable {P : Type} {m : SessionManager P} {t : TaskId} {s s' s0 : State P} {pc pc' : Pc P}
  {id : SessionId} {batch : Option Batch} {stage stage' : ReloadStage P}

/-- Handles that are gone, listeners that were current, marks on a runtime and
tasks that have finished stay so. -/
structure Ages (c c' : RuntimeCell) : Prop where
  disposals : c.disposals ≤ c'.disposals
  installed : c.installed = true → c'.installed = true
  cancelled : c.cancelled = true → c'.cancelled = true
  aborted : c.aborted = true → c'.aborted = true
  finished : c.phase = .finished → c'.phase = .finished

theorem Tended.ages {c c' : RuntimeCell} (h : Tended c c') : Ages c c' :=
  ⟨h.disposals, h.installed, h.cancelled, h.aborted, fun hp => h.phase.trans hp⟩

theorem cell_ages {gate now : Nat} {c c' : RuntimeCell} {sent : List ProxyRuntimeEvent}
    (h : CellMove gate now c c' sent) : Ages c c' := by
  have hs := cell_settled h
  refine ⟨Nat.le_of_eq hs.disposals.symm, fun hi => hs.installed.trans hi,
    fun hc => hs.cancelled.trans hc, fun ha => hs.aborted.trans ha, fun hp => ?_⟩
  cases h with
  | accepted hq | left hq | checked hq =>
    rw [hp] at hq
    cases hq
  | finished hq => rfl
  | ended hq =>
    rw [hp] at hq
    rcases hq with hq | hq <;> cases hq
  | reporting retired hq | reported retired hq =>
    rw [hp] at hq
    cases hq
  | silent hq =>
    rw [hp] at hq
    cases hq
  | _ => exact hp

theorem step_ages (ho : Outcome m s s') {r : RuntimeRef} (hr : r < s.nextCell) :
    Ages (s.cells r) (s'.cells r) := by
  cases ho with
  | create | call | delivered => exact (Tended.refl _).ages
  | moved t hm => exact (move_cells hm hr).ages
  | expired t => exact (tended_abort_cells _ r).ages
  | aborted t ha hb => exact (tended_aborted _ _ r).ages
  | runtime q hq cell permits sent hc =>
    by_cases hrq : r = q
    · subst hrq
      simpa only [cellMoved, State.setCell, Function.update_self] using cell_ages hc
    · simpa only [cellMoved, State.setCell, Function.update_of_ne hrq] using
        (Tended.refl _).ages

/-- What a reload without success leaves of its session. Its entry has lost
finished retired runtimes at most; only `shutdown_all` removes it, and only if
it was being stopped already. -/
structure Preserved (id : SessionId) (s s' : State P) : Prop where
  gate : s'.gates id = s.gates id
  history : s'.history id = s.history id
  cells : ∀ r, Of s id r → Of s' id r ∧ Core (s.cells r) (s'.cells r)
  absent : s.sessions.get id = none → s'.sessions.get id = none
  entry : ∀ session, s.sessions.get id = some session →
    (∃ session', s'.sessions.get id = some session' ∧ Kept s' session session') ∨
      session.info.state = .stopping ∧ s'.sessions.get id = none

theorem Preserved.refl (id : SessionId) (s : State P) : Preserved id s s where
  gate := rfl
  history := rfl
  cells _ hr := ⟨hr, .of_eq rfl⟩
  absent h := h
  entry session h := Or.inl ⟨session, h, .refl session⟩

theorem Core.trans {a b c : RuntimeCell} (h : Core a b) (h' : Core b c) : Core a c :=
  ⟨h'.current.trans h.current, h'.retired.trans h.retired, h'.installed.trans h.installed⟩

theorem Kept.later {old new : ManagedSession P} (h : Kept s old new)
    (hfin : ∀ runtime ∈ old.retiredRuntimes, (s.cells runtime.cell).phase = .finished →
      (s'.cells runtime.cell).phase = .finished) : Kept s' old new :=
  ⟨h.id, h.socket, h.persistent, h.state, h.generation, h.configuration, h.secrets,
    h.configSource, h.runtime, h.listenerGeneration, h.retired,
    fun runtime hr hn => hfin runtime hr (h.finished runtime hr hn)⟩

theorem Kept.trans {a b c : ManagedSession P} (h : Kept s a b) (h' : Kept s b c) : Kept s a c where
  id := h'.id.trans h.id
  socket := h'.socket.trans h.socket
  persistent := h'.persistent.trans h.persistent
  state := h'.state.trans h.state
  generation := h'.generation.trans h.generation
  configuration := h'.configuration.trans h.configuration
  secrets := h'.secrets.trans h.secrets
  configSource := h'.configSource.trans h.configSource
  runtime := h'.runtime.trans h.runtime
  listenerGeneration := h'.listenerGeneration.trans h.listenerGeneration
  retired := h'.retired.trans h.retired
  finished runtime hr hn := by
    by_cases hb : runtime ∈ b.retiredRuntimes
    · exact h'.finished runtime hb hn
    · exact h.finished runtime hr hb

/-- The step from `s` to `s'` leaves the session as it was before. -/
structure Keeps (id : SessionId) (s s' : State P) : Prop where
  gate : s'.gates id = s.gates id
  history : s'.history id = s.history id
  cells : ∀ r, Of s id r → Of s' id r ∧ Core (s.cells r) (s'.cells r)
  finished : ∀ r, Of s id r → (s.cells r).phase = .finished → (s'.cells r).phase = .finished
  absent : s.sessions.get id = none → s'.sessions.get id = none
  entry : ∀ session, s.sessions.get id = some session →
    (∃ session', s'.sessions.get id = some session' ∧ Kept s session session') ∨
      session.info.state = .stopping ∧ s'.sessions.get id = none

theorem Preserved.step (h : Preserved id s0 s) (hl0 : Linked s0) (hk : Keeps id s s') :
    Preserved id s0 s' where
  gate := hk.gate.trans h.gate
  history := hk.history.trans h.history
  cells r hr := by
    obtain ⟨hof, hcore⟩ := h.cells r hr
    obtain ⟨hof', hcore'⟩ := hk.cells r hof
    exact ⟨hof', hcore.trans hcore'⟩
  absent h0 := hk.absent (h.absent h0)
  entry session hs := by
    have hfin : ∀ runtime ∈ session.retiredRuntimes,
        (s.cells runtime.cell).phase = .finished → (s'.cells runtime.cell).phase = .finished := by
      intro runtime hr
      have hlink := hl0.session hs (mem_runtimes.mpr (Or.inl hr))
      exact hk.finished _ (h.cells _ ⟨hlink.1, hlink.2.1⟩).1
    rcases h.entry session hs with ⟨session1, hs1, hkept⟩ | ⟨hstop, hnone⟩
    · rcases hk.entry session1 hs1 with ⟨session2, hs2, hkept'⟩ | ⟨hstop, hnone⟩
      · exact Or.inl ⟨session2, hs2, (hkept.trans hkept').later hfin⟩
      · exact Or.inr ⟨hkept.state.symm.trans hstop, hnone⟩
    · exact Or.inr ⟨hstop, hk.absent hnone⟩

theorem Frame.keeps (hf : Frame id s s') (ho : Outcome m s s') : Keeps id s s' where
  gate := hf.gate
  history := hf.history
  cells r hr := ⟨⟨Nat.lt_of_lt_of_le hr.1 hf.heap.nextCell,
    (hf.heap.runtimeId r hr.1).trans hr.2⟩, hf.core r hr.1 hr.2⟩
  finished _ hr := (step_ages ho hr.1).finished
  absent := hf.absent
  entry := hf.kept

theorem Preserved.back (h : Preserved id s s') {session' : ManagedSession P}
    (hs' : s'.sessions.get id = some session') :
    ∃ session, s.sessions.get id = some session ∧ Kept s' session session' := by
  cases hs : s.sessions.get id with
  | none =>
    rw [h.absent hs] at hs'
    cases hs'
  | some session =>
    rcases h.entry session hs with ⟨session1, hs1, hk⟩ | ⟨-, hnone⟩
    · rw [hs'] at hs1
      cases hs1
      exact ⟨session, rfl, hk⟩
    · rw [hs'] at hnone
      cases hnone

/-- The replacement listener is current, or the reload has reported success. -/
def succeeding : ReloadStage P → Bool
  | .marked .. | .gated .. => true
  | .returning result => result.status == .reloaded
  | _ => false

/-- A reload whose section has changed its session succeeds. -/
theorem reload_keeps (ho : Outcome m s s') {u : State P}
    (hm : ReloadMove m s id stage u stage') (hu : s' = u.goto t pc)
    (hstage : succeeding stage' = false) : Keeps id s s' := by
  have hages := fun {r} (hr : Of s id r) => step_ages ho hr.1
  have hext := step_extends ho
  have hof : ∀ r, Of s id r → Of s' id r := fun r hr =>
    ⟨Nat.lt_of_lt_of_le hr.1 hext.nextCell, (hext.runtimeId r hr.1).trans hr.2⟩
  have hwrite : ∀ {session kept : ManagedSession P}, s.sessions.get id = some session →
      s'.sessions = s.sessions.insert id kept → Kept s session kept →
      s'.gates = s.gates → s'.history = s.history →
      (∀ r, Of s id r → Core (s.cells r) (s'.cells r)) → Keeps id s s' := by
    intro session kept hs hget hkept hg hh hcore
    refine ⟨by rw [hg], by rw [hh], fun r hr => ⟨hof r hr, hcore r hr⟩,
      fun r hr => (hages hr).finished, fun hnone => ?_, fun session1 hs1 => Or.inl ?_⟩
    · rw [hs] at hnone
      cases hnone
    · rw [hs] at hs1
      cases hs1
      exact ⟨kept, by rw [hget, SortedMap.get_insert_self], hkept⟩
  have hstill : s'.sessions = s.sessions → s'.gates = s.gates → s'.history = s.history →
      (∀ r, Of s id r → Core (s.cells r) (s'.cells r)) → Keeps id s s' := by
    intro hget hg hh hcore
    refine ⟨by rw [hg], by rw [hh], fun r hr => ⟨hof r hr, hcore r hr⟩,
      fun r hr => (hages hr).finished, fun hnone => by rw [hget, hnone], fun session hs => ?_⟩
    exact Or.inl ⟨session, by rw [hget, hs], .refl session⟩
  subst hu
  cases hm with
  | turnedDown session hs | begun session hs =>
    exact hwrite hs rfl (kept_unfinished session).count rfl rfl (fun r hr => ⟨rfl, rfl, rfl⟩)
  | limited target session hs | withinLimits target ha session hs =>
    exact hwrite hs rfl (kept_unfinished session) rfl rfl (fun r hr => ⟨rfl, rfl, rfl⟩)
  | vacant target options replacement session hs hstate hruntime =>
    refine hwrite hs rfl ?_ rfl rfl (fun r hr => ⟨rfl, rfl, rfl⟩)
    rw [← hruntime]
    exact .refl session
  | replacing target options =>
    exact hstill rfl rfl rfl (fun r hr => .of_eq (Function.update_of_ne (Nat.ne_of_lt hr.1) _ _))
  | stopping replacement result => exact hstill rfl rfl rfl (fun r hr => ⟨rfl, rfl, rfl⟩)
  | sameCommitted | switched | gateStored | lost | retired => cases hstage
  | _ => exact hstill rfl rfl rfl (fun r hr => .of_eq rfl)

/-- What the session takes over from the candidate. -/
structure Adopted (target : ReloadTarget P) (old new : ManagedSession P) : Prop where
  id : new.info.id = old.info.id
  persistent : new.info.persistent = old.info.persistent
  state : new.info.state = .running
  generation : new.info.generation = saturatingSucc old.info.generation
  configuration : new.configuration = target.candidate
  secrets : new.secrets = target.secrets
  configSource : new.configSource = old.configSource

/-- The session serves the candidate, under the seed and the permits that it had. -/
structure Swapped (m : SessionManager P) (id : SessionId) (target : ReloadTarget P)
    (s0 s : State P) (old new : ManagedSession P) (oldRuntime runtime : ProxyRuntime P) :
    Prop where
  before : s0.sessions.get id = some old
  after : s.sessions.get id = some new
  former : old.runtime = some oldRuntime
  current : new.runtime = some runtime
  adopted : Adopted target old new
  seed : runtime.credentialSeed = oldRuntime.credentialSeed
  permits : runtime.permits = oldRuntime.permits
  pair : (s.cells runtime.cell).current.pair
    = m.pair target.candidate runtime.credentialSeed target.secrets

/-- The session listens where it did. -/
structure Stayed (old new : ManagedSession P) : Prop where
  runtime : new.runtime = old.runtime
  listenerGeneration : new.listenerGeneration = old.listenerGeneration
  socket : new.info.socket = old.info.socket

/-- The session listens on a runtime that was started since. -/
structure Rebound (m : SessionManager P) (target : ReloadTarget P) (s0 : State P)
    (old new : ManagedSession P) (runtime : ProxyRuntime P) : Prop where
  fresh : s0.nextCell ≤ runtime.cell
  path : runtime.socketPath = target.path
  socket : new.info.socket = m.paths.toStringLossy target.path
  listenerGeneration : new.listenerGeneration = old.listenerGeneration + 1

/-- What a reload with success leaves. -/
def Reloaded (m : SessionManager P) (id : SessionId) (target : ReloadTarget P) (s0 s : State P) :
    Prop :=
  ∃ old new oldRuntime runtime, Swapped m id target s0 s old new oldRuntime runtime ∧
    s.gates id = new.listenerGeneration ∧
    (Stayed old new ∨
      Rebound m target s0 old new runtime ∧ oldRuntime ∈ new.retiredRuntimes)

/-- The listeners of the session that were started since. -/
def Since (id : SessionId) (s0 s : State P) (property : RuntimeRef → Prop) : Prop :=
  ∀ r, Of s id r → s0.nextCell ≤ r → property r

/-- What a listener that no reload has installed looks like at the end of the call. -/
structure Withdrawn (s : State P) (r : RuntimeRef) : Prop where
  installed : (s.cells r).installed = false
  disposals : (s.cells r).disposals = 1
  finished : (s.cells r).phase = .finished

/-- The first section has read the session as it was. -/
def SourceOf (id : SessionId) (s0 : State P) (source : ReloadSource) : Prop :=
  ∃ session, s0.sessions.get id = some session ∧ session.info.state = .running ∧
    session.configSource = some source.source ∧ source.secrets = session.secrets ∧
    source.socket = session.info.socket ∧ source.persistent = session.configuration.persistent

/-- What the replacement takes over is that of the session as it was. -/
def OptionsOf (id : SessionId) (s0 : State P) (options : Replacement) : Prop :=
  ∃ session runtime, s0.sessions.get id = some session ∧ session.runtime = some runtime ∧
    options = ⟨runtime.permits, runtime.credentialSeed, session.listenerGeneration + 1⟩

/-- The replacement listener before it is current. -/
structure Ready (m : SessionManager P) (target : ReloadTarget P) (options : Replacement)
    (s0 s : State P) (replacement : ProxyRuntime P) : Prop where
  fresh : s0.nextCell ≤ replacement.cell
  path : replacement.socketPath = target.path
  seed : replacement.credentialSeed = options.credentialSeed
  permits : replacement.permits = options.permits
  pair : (s.cells replacement.cell).current.pair
    = m.pair target.candidate options.credentialSeed target.secrets

/-- Where a reload that began in `s0` stands. `T` is what is known of its
candidate; before it is read, that is everything. -/
def Reloading (m : SessionManager P) (id : SessionId) (T : ReloadTarget P → Prop)
    (s0 s : State P) : ReloadStage P → Prop
  | .lookup | .lock => False
  | .begin => Preserved id s0 s ∧ Since id s0 s (fun _ => False) ∧ ∀ target, T target
  | .prepare source => Preserved id s0 s ∧ Since id s0 s (fun _ => False) ∧
      (∀ target, T target) ∧ SourceOf id s0 source
  | .compare _ target | .commitSame target | .limits target =>
    Preserved id s0 s ∧ Since id s0 s (fun _ => False) ∧ T target
  | .start target options =>
    Preserved id s0 s ∧ Since id s0 s (fun _ => False) ∧ T target ∧ OptionsOf id s0 options
  | .commit target options replacement =>
    Preserved id s0 s ∧
      Since id s0 s (fun r => r = replacement.cell ∧ (s.cells r).installed = false) ∧
      T target ∧ OptionsOf id s0 options ∧ Ready m target options s0 s replacement
  | .marked target options oldRuntime =>
    T target ∧ ∃ old new runtime, Swapped m id target s0 s old new oldRuntime runtime ∧
      Rebound m target s0 old new runtime ∧
      options.nextListenerGeneration = new.listenerGeneration
  | .gated target _ oldRuntime =>
    T target ∧ ∃ old new runtime, Swapped m id target s0 s old new oldRuntime runtime ∧
      Rebound m target s0 old new runtime ∧ s.gates id = new.listenerGeneration
  | .shutdown replacement result =>
    result.status = .failed ∧ Preserved id s0 s ∧
      Since id s0 s (fun r => r = replacement.cell ∧ (s.cells r).installed = false)
  | .draining cell result =>
    result.status = .failed ∧ Preserved id s0 s ∧
      Since id s0 s (fun r => r = cell ∧ (s.cells r).installed = false ∧
        (s.cells r).disposals = 1)
  | .returning result =>
    (result.status ≠ .reloaded → Preserved id s0 s ∧ Since id s0 s (Withdrawn s)) ∧
      (result.status = .reloaded → ∃ target, T target ∧ Reloaded m id target s0 s)

theorem Since.mono (hof : ∀ r, Of s' id r → s0.nextCell ≤ r → Of s id r)
    {p p' : RuntimeRef → Prop} (h : Since id s0 s p) (hp : ∀ r, Of s id r → p r → p' r) :
    Since id s0 s' p' := fun r hr hnew =>
  hp r (hof r hr hnew) (h r (hof r hr hnew) hnew)

theorem Since.frame (hf : Frame id s s') {p p' : RuntimeRef → Prop} (h : Since id s0 s p)
    (hp : ∀ r, Of s id r → p r → p' r) : Since id s0 s' p' :=
  h.mono (fun _ hr _ => (hf.of hr).1) hp

theorem Adopted.kept {target : ReloadTarget P} {old new new' : ManagedSession P}
    (h : Adopted target old new) (hk : Kept s new new') : Adopted target old new' :=
  ⟨hk.id.trans h.id, hk.persistent.trans h.persistent, hk.state.trans h.state,
    hk.generation.trans h.generation, hk.configuration.trans h.configuration,
    hk.secrets.trans h.secrets, hk.configSource.trans h.configSource⟩

theorem Swapped.frame (hl : Linked s) (hf : Frame id s s') {target : ReloadTarget P}
    {old new : ManagedSession P} {oldRuntime runtime : ProxyRuntime P}
    (h : Swapped m id target s0 s old new oldRuntime runtime) :
    ∃ new', Swapped m id target s0 s' old new' oldRuntime runtime ∧ Kept s new new' := by
  obtain ⟨new', hs', hk⟩ := hf.forth h.after h.adopted.state
  have hlink := hl.session h.after (mem_runtimes.mpr (Or.inr h.current))
  refine ⟨new', ⟨h.before, hs', h.former, hk.runtime.trans h.current, h.adopted.kept hk, h.seed,
    h.permits, ?_⟩, hk⟩
  rw [(hf.core _ hlink.1 hlink.2.1).current]
  exact h.pair

theorem Rebound.kept {target : ReloadTarget P} {old new new' : ManagedSession P}
    {runtime : ProxyRuntime P} (h : Rebound m target s0 old new runtime) (hk : Kept s new new') :
    Rebound m target s0 old new' runtime :=
  ⟨h.fresh, h.path, hk.socket.trans h.socket, hk.listenerGeneration.trans h.listenerGeneration⟩

theorem Reloading.frame {T : ReloadTarget P → Prop} (hl0 : Linked s0) (hl : Linked s)
    (hc : Conserved s') (hpc : s.tasks t = .reload id batch stage) (ho : Outcome m s s')
    (hf : Frame id s s') (hstage : ∀ result, stage ≠ .returning result)
    (h : Reloading m id T s0 s stage) : Reloading m id T s0 s' stage := by
  have hkeeps := hf.keeps ho
  have hinstalled : ∀ r, Of s id r → (s.cells r).installed = false →
      (s'.cells r).installed = false := fun r hr hi =>
    (hf.core r hr.1 hr.2).installed.trans hi
  cases stage with
  | lookup | lock => exact h
  | begin => exact ⟨h.1.step hl0 hkeeps, h.2.1.frame hf (fun _ _ hp => hp), h.2.2⟩
  | prepare source => exact ⟨h.1.step hl0 hkeeps, h.2.1.frame hf (fun _ _ hp => hp), h.2.2⟩
  | compare | commitSame | limits | start =>
    exact ⟨h.1.step hl0 hkeeps, h.2.1.frame hf (fun _ _ hp => hp), h.2.2⟩
  | commit target options replacement =>
    obtain ⟨hpres, hsince, hT, hoptions, hready⟩ := h
    have hlink := hl t id replacement (Or.inr (by rw [hpc]; exact List.mem_singleton_self _))
    refine ⟨hpres.step hl0 hkeeps, hsince.frame hf (fun r hr hp => ⟨hp.1, hinstalled r hr hp.2⟩),
      hT, hoptions, hready.fresh, hready.path, hready.seed, hready.permits, ?_⟩
    rw [(hf.core _ hlink.1 hlink.2.1).current]
    exact hready.pair
  | marked target options oldRuntime =>
    obtain ⟨hT, old, new, runtime, hsw, hrb, hnext⟩ := h
    obtain ⟨new', hsw', hk⟩ := hsw.frame hl hf
    exact ⟨hT, old, new', runtime, hsw', hrb.kept hk, hnext.trans hk.listenerGeneration.symm⟩
  | gated target options oldRuntime =>
    obtain ⟨hT, old, new, runtime, hsw, hrb, hgate⟩ := h
    obtain ⟨new', hsw', hk⟩ := hsw.frame hl hf
    exact ⟨hT, old, new', runtime, hsw', hrb.kept hk,
      hf.gate.trans (hgate.trans hk.listenerGeneration.symm)⟩
  | shutdown replacement result =>
    exact ⟨h.1, h.2.1.step hl0 hkeeps,
      h.2.2.frame hf (fun r hr hp => ⟨hp.1, hinstalled r hr hp.2⟩)⟩
  | draining cell result =>
    refine ⟨h.1, h.2.1.step hl0 hkeeps, h.2.2.frame hf (fun r hr hp => ?_)⟩
    refine ⟨hp.1, hinstalled r hr hp.2.1, Nat.le_antisymm (hc.once r) ?_⟩
    rw [← hp.2.2]
    exact (step_ages ho hr.1).disposals
  | returning result => exact absurd rfl (hstage result)

theorem reload_of (hm : ReloadMove m s id stage s' stage') (hnext : s'.nextCell = s.nextCell)
    (r : RuntimeRef) (hr : Of s' id r) : Of s id r := by
  have hlt : r < s.nextCell := hnext ▸ hr.1
  have hext := move_extends (.reload id none hm : Move m 0 s _ s' _)
  exact ⟨hlt, (hext.runtimeId r hlt).symm.trans hr.2⟩

/-- A result other than success, with no listener left behind. -/
theorem reloading_failed {T : ReloadTarget P → Prop} {result : SessionReloadResult}
    (hr : result.status ≠ .reloaded) (hp : Preserved id s0 s) (hsince : Since id s0 s (Withdrawn s)) :
    Reloading m id T s0 s (.returning result) :=
  ⟨fun _ => ⟨hp, hsince⟩, fun h => absurd h hr⟩

theorem reloading_same {T : ReloadTarget P → Prop} {target : ReloadTarget P}
    {session : ManagedSession P} {runtime : ProxyRuntime P} {cell : RuntimeCell}
    (hrec : Recorded m id s) (hx : Exclusive s) (hpc : s.tasks t = .reload id batch (.commitSame target))
    (hw : Working s (.reload id batch (.commitSame target)))
    (hs : s.sessions.get id = some session) (hruntime : session.runtime = some runtime)
    (hcell : (s.cells runtime.cell).replaceGeneration
      (m.pair target.candidate runtime.credentialSeed target.secrets) = some cell)
    (hget : s'.sessions.get id = some (SessionManager.refreshed target session))
    (hcells : s'.cells runtime.cell = cell) (hgates : s'.gates = s.gates)
    (h : Preserved id s0 s) (hT : T target) :
    ∃ target, T target ∧ Reloaded m id target s0 s' := by
  obtain ⟨old, hs0, hk⟩ := h.back hs
  obtain ⟨_, hs1, hstate, -⟩ := hw
  rw [hs] at hs1
  cases hs1
  have hgate : s.gates id = session.listenerGeneration := by
    refine hrec.gated hx (t := t) ?_ ?_ hs
    · rw [hpc]
      rfl
    · rw [hpc]
      simp [Pc.marks]
  refine ⟨target, hT, old, SessionManager.refreshed target session, runtime, runtime,
    ⟨hs0, hget, hk.runtime.symm.trans hruntime, hruntime, ?_, rfl, rfl, ?_⟩, ?_,
    Or.inl ⟨hk.runtime, hk.listenerGeneration, hk.socket⟩⟩
  · refine ⟨hk.id, hk.persistent, hstate, ?_, rfl, rfl, hk.configSource⟩
    rw [← hk.generation]
    rfl
  · rw [hcells, replaced hcell]
  · rw [hgates]
    exact hgate

theorem reloading_switched {T : ReloadTarget P → Prop} {target : ReloadTarget P}
    {options : Replacement} {replacement oldRuntime : ProxyRuntime P} {session : ManagedSession P}
    (hs : s.sessions.get id = some session) (hstate : session.info.state = .running)
    (hruntime : session.runtime = some oldRuntime)
    (hget : s'.sessions.get id = some (m.switched target options replacement session))
    (hcell : (s'.cells replacement.cell).current = (s.cells replacement.cell).current)
    (h : Reloading m id T s0 s (.commit target options replacement)) :
    Reloading m id T s0 s' (.marked target options oldRuntime) := by
  obtain ⟨hpres, -, hT, ⟨old, runtime, hs0, hformer, hoptions⟩, hready⟩ := h
  obtain ⟨_, hs1, hk⟩ := hpres.back hs
  rw [hs0] at hs1
  cases hs1
  have hold : runtime = oldRuntime := by
    rw [← hk.runtime, hruntime] at hformer
    exact (Option.some.inj hformer).symm
  subst hold
  have hseed : options.credentialSeed = runtime.credentialSeed := by rw [hoptions]
  have hnext : options.nextListenerGeneration = old.listenerGeneration + 1 := by rw [hoptions]
  have hpermits : options.permits = runtime.permits := by rw [hoptions]
  refine ⟨hT, old, m.switched target options replacement session, replacement,
    ⟨hs0, hget, hformer, rfl, ⟨hk.id, hk.persistent, hstate, ?_, rfl, rfl, hk.configSource⟩,
      hready.seed.trans hseed, hready.permits.trans hpermits, ?_⟩,
    ⟨hready.fresh, hready.path, rfl, hnext⟩, rfl⟩
  · rw [← hk.generation]
    rfl
  · rw [hcell, hready.seed]
    exact hready.pair

theorem reloading_retired {T : ReloadTarget P → Prop} {target : ReloadTarget P}
    {options : Replacement} {oldRuntime : ProxyRuntime P} {session : ManagedSession P}
    {result : SessionReloadResult} (hresult : result.status = .reloaded)
    (hs : s.sessions.get id = some session)
    (hget : s'.sessions.get id = some (SessionManager.withRetired oldRuntime session))
    (hcurrent : ∀ r, (s'.cells r).current = (s.cells r).current) (hgates : s'.gates = s.gates)
    (h : Reloading m id T s0 s (.gated target options oldRuntime)) :
    Reloading m id T s0 s' (.returning result) := by
  obtain ⟨hT, old, new, runtime, hsw, hrb, hgate⟩ := h
  have hnew := hsw.after
  rw [hs] at hnew
  cases hnew
  refine ⟨fun hne => absurd hresult hne, fun _ => ⟨target, hT, old,
    SessionManager.withRetired oldRuntime session, oldRuntime, runtime, ?_, ?_,
    Or.inr ⟨⟨hrb.fresh, hrb.path, hrb.socket, hrb.listenerGeneration⟩, ?_⟩⟩⟩
  · have ha := hsw.adopted
    refine ⟨hsw.before, hget, hsw.former, hsw.current, ⟨ha.id, ha.persistent, ha.state,
      ha.generation, ha.configuration, ha.secrets, ha.configSource⟩, hsw.seed, hsw.permits, ?_⟩
    rw [hcurrent]
    exact hsw.pair
  · rw [hgates]
    exact hgate
  · exact List.mem_append_right _ (List.mem_singleton_self _)

theorem Reloading.move {T : ReloadTarget P → Prop} (hs : Sound s) (hl0 : Linked s0)
    (hle : s0.nextCell ≤ s.nextCell) (hc : Conserved s) (hrec : Recorded m id s)
    (hpc : s.tasks t = .reload id batch stage) (hw : Working s (.reload id batch stage))
    (hm : ReloadMove m s id stage s' stage') (h : Reloading m id T s0 s stage) :
    Reloading m id T s0 (s'.goto t (.reload id batch stage')) stage' := by
  have ho : Outcome m s (s'.goto t (.reload id batch stage')) := by
    refine .moved t ?_
    rw [hpc]
    exact .reload id batch hm
  have hpres : succeeding stage' = false → Preserved id s0 s →
      Preserved id s0 (s'.goto t (.reload id batch stage')) := fun hstage hp =>
    hp.step hl0 (reload_keeps ho hm rfl hstage)
  have hnone : s'.nextCell = s.nextCell → ∀ {p}, Since id s0 s (fun _ => False) →
      Since id s0 (s'.goto t (.reload id batch stage')) p := by
    intro hnext p hsince
    exact hsince.mono (fun r hr _ => reload_of hm hnext r hr) (fun _ _ hf => hf.elim)
  have hfails : ∀ {result : SessionReloadResult}, result.status = .failed →
      succeeding (.returning result : ReloadStage P) = false := by
    intro result hr
    simp [succeeding, hr]
  have hne : ∀ {result : SessionReloadResult}, result.status = .failed →
      result.status ≠ .reloaded := by
    intro result hr
    simp [hr]
  cases hm with
  | missing hget hr | turnedDown session hget hr =>
    exact reloading_failed (hne hr) (hpres (hfails hr) h.1) (hnone rfl h.2.1)
  | begun session hget hstate ha source hsource =>
    obtain ⟨old, hs0, hk⟩ := h.1.back hget
    exact ⟨hpres rfl h.1, hnone rfl h.2.1, h.2.2, old, hs0, hk.state.symm.trans hstate,
      hk.configSource.symm.trans hsource, hk.secrets, hk.socket,
      congrArg SessionConfig.persistent hk.configuration⟩
  | unprepared source hr =>
    exact reloading_failed (hne hr) (hpres (hfails hr) h.1) (hnone rfl h.2.1)
  | prepared source target store files read =>
    exact ⟨hpres rfl h.1, hnone rfl h.2.1, h.2.2.1 target⟩
  | compareMissing source target hget hr =>
    exact reloading_failed (hne hr) (hpres (hfails hr) h.1) (hnone rfl h.2.1)
  | unchanged source target session hget =>
    exact reloading_failed (by simp [SessionReloadResult.unchanged])
      (hpres rfl h.1) (hnone rfl h.2.1)
  | samePath source target | otherPath source target =>
    exact ⟨hpres rfl h.1, hnone rfl h.2.1, h.2.2⟩
  | sameFailed target hr | limitsRefused target hr | limited target session hget hr =>
    exact reloading_failed (hne hr) (hpres (hfails hr) h.1) (hnone rfl h.2.1)
  | sameCommitted target ha session hget runtime hruntime cell hcell =>
    refine ⟨fun hn => absurd rfl hn, fun _ => ?_⟩
    exact reloading_same hrec hs.exclusive hpc hw hget hruntime hcell
      (SortedMap.get_insert_self ..) (Function.update_self ..) rfl h.1 h.2.2
  | withinLimits target ha session hget runtime hruntime hroom =>
    obtain ⟨old, hs0, hk⟩ := h.1.back hget
    refine ⟨hpres rfl h.1, hnone rfl h.2.1, h.2.2, old, runtime, hs0,
      hk.runtime.symm.trans hruntime, ?_⟩
    rw [hk.listenerGeneration]
  | unbound target options hr =>
    exact reloading_failed (hne hr) (hpres (hfails hr) h.1) (hnone rfl h.2.1)
  | replacing target options =>
    refine ⟨hpres rfl h.1, ?_, h.2.2.1, h.2.2.2, hle, rfl, rfl, rfl, ?_⟩
    · intro r hr hnew
      rcases started_cases (s := s) (by rfl) (by rfl) hr with rfl | ⟨hold, -⟩
      · refine ⟨rfl, ?_⟩
        simp [State.goto, State.startRuntime, RuntimeCell.start]
      · exact (h.2.1 r hold hnew).elim
    · simp [State.goto, State.startRuntime, RuntimeCell.start, SessionManager.pair]
  | withdrawn target options replacement hwd hr =>
    exact ⟨hr, hpres rfl h.1, h.2.1⟩
  | vacant target options replacement session hget hstate hruntime hr =>
    obtain ⟨runtime, hsome, -⟩ := (hrec.agrees session hget).running hstate
    rw [hruntime] at hsome
    cases hsome
  | switched target options replacement ha session hget hstate oldRuntime hruntime =>
    refine reloading_switched hget hstate hruntime (SortedMap.get_insert_self ..) ?_ h
    exact ((same_install replacement.cell).trans (same_mark oldRuntime.cell)).current _
  | gateStored target options oldRuntime =>
    obtain ⟨hT, old, new, runtime, hsw, hrb, hnext⟩ := h
    refine ⟨hT, old, new, runtime, ⟨hsw.before, hsw.after, hsw.former, hsw.current, hsw.adopted,
      hsw.seed, hsw.permits, hsw.pair⟩, hrb, ?_⟩
    rw [← hnext]
    exact Function.update_self ..
  | lost target options oldRuntime hgone =>
    obtain ⟨_, hsome, -⟩ := hw
    rw [hgone] at hsome
    cases hsome
  | retired target options oldRuntime session hget =>
    refine reloading_retired (by rfl) hget (SortedMap.get_insert_self ..) (fun r => ?_) (by rfl) h
    exact set_same RuntimeCell.current rfl
  | stopping replacement result =>
    refine ⟨h.1, hpres rfl h.2.1, ?_⟩
    have hmem : replacement ∈ (s.tasks t).owned := by
      rw [hpc]
      exact List.mem_singleton_self _
    have hlive := (hc.call hs.exclusive hmem).1
    refine h.2.2.mono (fun r hr _ => hr) (fun r hr hp => ⟨hp.1, hp.2, ?_⟩)
    rw [hp.1]
    show (s.cells replacement.cell).disposals + [replacement.cell].count replacement.cell = 1
    rw [hlive, List.count_singleton_self]
  | drained cell result hf =>
    refine reloading_failed (hne h.1) (hpres (hfails h.1) h.2.1) ?_
    exact h.2.2.mono (fun r hr _ => hr) (fun r hr hp => ⟨hp.2.1, hp.2.2, hp.1 ▸ hf⟩)

/-- The call is inside `reload_locked` and has no result yet. -/
def InReload (t : TaskId) (id : SessionId) (batch : Option Batch) (s : State P) : Prop :=
  ∃ stage, s.tasks t = .reload id batch stage ∧ stage.locked = true ∧
    ∀ result, stage ≠ .returning result

theorem Reloading.locked {T : ReloadTarget P → Prop} (h : Reloading m id T s0 s stage) :
    stage.locked = true := by
  cases stage with
  | lookup | lock => exact h.elim
  | _ => rfl

/-- A call inside `reload_locked` stays there until it has a result. -/
theorem locked_move (hm : Move m t s (.reload id batch stage) s' pc')
    (hlocked : stage.locked = true) (hstage : ∀ result, stage ≠ .returning result) :
    ∃ stage', pc' = .reload id batch stage' ∧ ReloadMove m s id stage s' stage' := by
  cases hm with
  | unknown | found | locked => cases hlocked
  | reload j batch h => exact ⟨_, rfl, h⟩
  | reloadReturned j batch result => exact absurd rfl (hstage result)

theorem Reloading.step [DecidableEq P] {T : ReloadTarget P → Prop} {a : Action P}
    (h0 : Reach m.step State.init s0) (hreach : Reach m.step State.init s)
    (hle : s0.nextCell ≤ s.nextCell) (hpc : s.tasks t = .reload id batch stage)
    (hstage : ∀ result, stage ≠ .returning result) (h : Reloading m id T s0 s stage)
    (hstep : m.step a s = some s') (hpc' : s'.tasks t = .reload id batch stage') :
    Reloading m id T s0 s' stage' := by
  have hs := sound_reach hreach
  have ho := step_outcome hstep
  have hholds : (s.tasks t).holds = some id := by
    rw [hpc]
    simp [Pc.holds, Pc.creating, Pc.serial, h.locked]
  rcases step_frame hs ho id with hf | hstirs
  · rw [hf.tasks t hholds, hpc] at hpc'
    cases hpc'
    exact h.frame (linked_reach h0) hs.linked (conserved_reach (hreach.next hstep)) hpc ho hf hstage
  · cases hstirs with
    | moved u hu hm =>
      obtain rfl := hs.exclusive.unique u t id hu hholds
      rename_i s1 pc1
      have hself : (s1.goto u pc1).tasks u = pc1 := Function.update_self ..
      rw [hself] at hpc'
      subst hpc'
      rw [hpc] at hm
      obtain ⟨stage1, he, hmove⟩ := locked_move hm h.locked hstage
      cases he
      refine h.move hs (linked_reach h0) hle (conserved_reach hreach) (recorded_reach hreach id)
        hpc ?_ hmove
      rw [← hpc]
      exact working_reach hreach hholds
    | aborted u hu ha hb =>
      obtain rfl := hs.exclusive.unique u t id hu hholds
      simp only [State.goto, Function.update_self] at hpc'
      cases hpc'

/-- Where the call stands, in every state of its run. -/
theorem reloading_run [DecidableEq P] {T : ReloadTarget P → Prop} {u : State P}
    (h0 : Reach m.step State.init s0) (hr : Reach m.step State.init u)
    (hle : s0.nextCell ≤ u.nextCell)
    (hu : ∀ stage, u.tasks t = .reload id batch stage → Reloading m id T s0 u stage)
    (hrun : StepsWhile m.step (InReload t id batch) u s) :
    s0.nextCell ≤ s.nextCell ∧
      ∀ stage, s.tasks t = .reload id batch stage → Reloading m id T s0 s stage := by
  induction hrun with
  | refl => exact ⟨hle, hu⟩
  | tail before hd hstep ih =>
    obtain ⟨hle', hall⟩ := ih
    obtain ⟨stage, hpc, -, hstage⟩ := hd
    have hreach := before.reach hr
    refine ⟨hle'.trans (step_extends (step_outcome hstep)).nextCell, fun stage' hpc' => ?_⟩
    exact Reloading.step h0 hreach hle' hpc hstage (hall stage hpc) hstep hpc'

theorem reloading_begin {T : ReloadTarget P → Prop} (hT : ∀ target, T target)
    (hb : s.tasks t = .reload id batch .begin) (stage : ReloadStage P)
    (hpc : s.tasks t = .reload id batch stage) : Reloading m id T s s stage := by
  rw [hb] at hpc
  cases hpc
  exact ⟨.refl id s, fun r hr hnew => absurd hr.1 (Nat.not_lt_of_le hnew), hT⟩

/-- Nothing of the session has changed. -/
structure Untouched (j : SessionId) (s s' : State P) : Prop where
  entry : s'.sessions.get j = s.sessions.get j
  gate : s'.gates j = s.gates j
  history : s'.history j = s.history j
  cells : ∀ r, Of s j r → s'.cells r = s.cells r

theorem held_none {runtimes : List (ProxyRuntime P)} {r : RuntimeRef}
    (h : ∀ runtime ∈ runtimes, runtime.cell ≠ r) : held runtimes r = 0 := by
  refine List.count_eq_zero.mpr (fun hmem => ?_)
  obtain ⟨runtime, hr, he⟩ := List.mem_map.mp hmem
  exact h runtime hr he

theorem drop_none {runtimes : List (ProxyRuntime P)} {r : RuntimeRef}
    (h : ∀ runtime ∈ runtimes, runtime.cell ≠ r) : (s.dropRuntimes runtimes).cells r = s.cells r := by
  show (s.cells r).drop (held runtimes r) = s.cells r
  rw [held_none h]
  simp [RuntimeCell.drop]

theorem shutdown_none {runtimes : List (ProxyRuntime P)} {r : RuntimeRef}
    (h : ∀ runtime ∈ runtimes, runtime.cell ≠ r) :
    (s.shutdownRuntimes runtimes).cells r = s.cells r := by
  show (s.cells r).shutdown (held runtimes r) = s.cells r
  rw [held_none h]
  simp [RuntimeCell.shutdown]

theorem set_elsewhere {q r : RuntimeRef} {c : RuntimeCell} (h : q ≠ r) :
    (s.setCell q c).cells r = s.cells r := Function.update_of_ne h.symm _ _

theorem reload_untouched (hl : ∀ j runtime, Has s (.reload id batch stage) j runtime →
      LinkedTo s j runtime) (hm : ReloadMove m s id stage s' stage') {j : SessionId}
    (hj : j ≠ id) : Untouched j s s' := by
  -- a handle that the call can reach is one of another session
  have hother : ∀ {runtime r}, Has s (.reload id batch stage) id runtime → Of s j r →
      runtime.cell ≠ r := by
    rintro runtime r hhas hr rfl
    exact hj (hr.2.symm.trans (hl id runtime hhas).2.1)
  have hown : ∀ {session : ManagedSession P}, s.sessions.get id = some session → ∀ {r}, Of s j r →
      ∀ runtime ∈ SessionManager.finishedRuntimes s session, runtime.cell ≠ r := by
    intro session hs r hr runtime hmem
    exact hother (Or.inl ⟨session, hs, mem_runtimes.mpr (Or.inl (List.mem_filter.mp hmem).1)⟩) hr
  cases hm with
  | turnedDown session hs | begun session hs =>
    exact ⟨SortedMap.get_insert_ne _ hj _, rfl, rfl, fun r hr => drop_none (hown hs hr)⟩
  | limited target session hs | withinLimits target ha session hs =>
    exact ⟨SortedMap.get_insert_ne _ hj _, rfl, rfl, fun r hr => drop_none (hown hs hr)⟩
  | sameCommitted target ha session hs runtime hruntime =>
    refine ⟨SortedMap.get_insert_ne _ hj _, rfl, Function.update_of_ne hj _ _, fun r hr => ?_⟩
    exact set_elsewhere (hother (Or.inl ⟨session, hs, mem_runtimes.mpr (Or.inr hruntime)⟩) hr)
  | replacing target options =>
    exact ⟨rfl, rfl, rfl, fun r hr => Function.update_of_ne (Nat.ne_of_lt hr.1) _ _⟩
  | vacant target options replacement session hs =>
    refine ⟨SortedMap.get_insert_ne _ hj _, rfl, rfl, fun r hr => drop_none ?_⟩
    intro runtime hmem
    cases List.mem_singleton.mp hmem
    exact hother (Or.inr (List.mem_singleton_self _)) hr
  | switched target options replacement ha session hs hstate oldRuntime hruntime =>
    refine ⟨SortedMap.get_insert_ne _ hj _, rfl, rfl, fun r hr => ?_⟩
    have hold : oldRuntime.cell ≠ r :=
      hother (Or.inl ⟨session, hs, mem_runtimes.mpr (Or.inr hruntime)⟩) hr
    have hnew : replacement.cell ≠ r := hother (Or.inr (List.mem_singleton_self _)) hr
    exact (set_elsewhere hold).trans (set_elsewhere hnew)
  | gateStored target options oldRuntime =>
    exact ⟨rfl, Function.update_of_ne hj _ _, Function.update_of_ne hj _ _, fun _ _ => rfl⟩
  | lost target options oldRuntime hs =>
    refine ⟨rfl, rfl, rfl, fun r hr => ?_⟩
    have hold : oldRuntime.cell ≠ r := hother (Or.inr (List.mem_singleton_self _)) hr
    refine (drop_none (fun runtime hmem => ?_)).trans (set_elsewhere hold)
    cases List.mem_singleton.mp hmem
    exact hold
  | retired target options oldRuntime session hs =>
    refine ⟨SortedMap.get_insert_ne _ hj _, rfl, rfl, fun r hr => ?_⟩
    exact set_elsewhere (hother (Or.inr (List.mem_singleton_self _)) hr)
  | stopping replacement result =>
    refine ⟨rfl, rfl, rfl, fun r hr => shutdown_none (fun runtime hmem => ?_)⟩
    cases List.mem_singleton.mp hmem
    exact hother (Or.inr (List.mem_singleton_self _)) hr
  | _ => exact ⟨rfl, rfl, rfl, fun _ _ => rfl⟩

/-- A reload removes no entry. -/
theorem reload_present (hm : ReloadMove m s id stage s' stage')
    (h : (s.sessions.get id).isSome = true) : (s'.sessions.get id).isSome = true := by
  cases hm with
  | turnedDown | begun | limited | withinLimits | sameCommitted | vacant | switched | retired =>
    simp [reaped, State.setSession, State.setCell, State.dropRuntimes]
  | _ => exact h

/-- The candidate that the stores hold for the session. -/
def Candidate (m : SessionManager P) (env : Environment P) (id : SessionId)
    (source : ReloadSource) (target : ReloadTarget P) : Prop :=
  ∃ configs read, env.configs = some configs ∧
    readSession m.crates configs source.source = .ok read ∧
    target.candidate = { read with persistent := source.persistent } ∧
    (m.secretStore env.secretFiles).resolve target.candidate = .ok target.secrets ∧
    absoluteSocketPath m.paths env.currentDir
      (m.paths.join m.socketDir (socketName target.candidate id)) = some target.path

theorem prepare_candidate {env : Environment P} {source : ReloadSource}
    {target : ReloadTarget P} (h : m.reloadPrepare id source env = .compare source target) :
    Candidate m env id source target := by
  unfold SessionManager.reloadPrepare at h
  split at h
  · cases h
  · rename_i configs hconfigs
    split at h
    · cases h
    · rename_i read hread
      dsimp only at h
      split at h
      · cases h
      · rename_i secrets hsecrets
        split at h
        · cases h
        · rename_i path hpath
          cases h
          exact ⟨configs, read, hconfigs, hread, rfl, hsecrets, hpath⟩

/-- The call reads its candidate in some step of the run from `s0` to `s`. -/
def Reads [DecidableEq P] (m : SessionManager P) (t : TaskId) (id : SessionId)
    (batch : Option Batch) (s0 s : State P) (source : ReloadSource) (env : Environment P) : Prop :=
  ∃ u v, StepsWhile m.step (InReload t id batch) s0 u ∧
    u.tasks t = .reload id batch (.prepare source) ∧ m.step (.advance t env) u = some v ∧
    StepsWhile m.step (InReload t id batch) v s

/-- A call that may still report success has read its candidate. -/
def hasRead : ReloadStage P → Prop
  | .lookup | .lock | .begin | .prepare _ => False
  | .shutdown _ result | .draining _ result | .returning result => result.status = .reloaded
  | _ => True

theorem move_read (hm : ReloadMove m s id stage s' stage') (h : hasRead stage') :
    hasRead stage ∨ ∃ source, stage = .prepare source := by
  have hfailed : ∀ {result : SessionReloadResult}, result.status = .failed →
      ¬result.status = .reloaded := by
    intro result hr
    simp [hr]
  cases hm with
  | missing hs hr | turnedDown session hs hr => exact absurd h (hfailed hr)
  | begun => exact h.elim
  | unprepared source hr | prepared source => exact Or.inr ⟨source, rfl⟩
  | compareMissing source target hs hr => exact absurd h (hfailed hr)
  | unchanged => cases h
  | sameFailed target hr | limitsRefused target hr => exact absurd h (hfailed hr)
  | limited target session hs hr => exact absurd h (hfailed hr)
  | unbound target options hr => exact absurd h (hfailed hr)
  | withdrawn target options replacement hw hr => exact absurd h (hfailed hr)
  | vacant target options replacement session hs hstate hruntime hr =>
    exact absurd h (hfailed hr)
  | sameCommitted | lost | retired => exact Or.inl trivial
  | _ => exact Or.inl h

theorem step_mover [DecidableEq P] {a : Action P} (hx : Exclusive s)
    (hstep : m.step a s = some s') (hpc : s.tasks t = .reload id batch stage)
    (hpc' : s'.tasks t = .reload id batch stage') (hne : stage' ≠ stage) :
    ∃ env, a = .advance t env := by
  have hsame : s'.tasks t ≠ s.tasks t := by
    rw [hpc, hpc']
    intro he
    cases he
    exact hne rfl
  have hlive : t ≠ s.nextTask := by
    rintro rfl
    rw [hx.absent _ (Nat.le_refl _)] at hpc
    cases hpc
  have hspawn : ∀ {u : State P} {pc : Pc P}, u.tasks = s.tasks → u.nextTask = s.nextTask →
      (u.spawn pc).tasks t = s.tasks t := by
    intro u pc htasks hnext
    simp only [State.spawn, State.goto, htasks, hnext, Function.update_of_ne hlive]
  have hother : ∀ {u : State P} {v : TaskId} {pc : Pc P}, u.tasks = s.tasks → t ≠ v →
      (u.goto v pc).tasks t = s.tasks t := by
    intro u v pc htasks hv
    simp only [State.goto, htasks, Function.update_of_ne hv]
  cases a with
  | create call =>
    simp only [SessionManager.step] at hstep
    split at hstep
    · cases hstep
    · cases hstep
      exact absurd (hspawn rfl rfl) hsame
  | deliver =>
    simp only [SessionManager.step] at hstep
    split at hstep
    · cases hstep
    · cases hstep
      exact absurd (hspawn rfl rfl) hsame
  | advance u env =>
    by_cases hu : t = u
    · exact ⟨env, by rw [hu]⟩
    · obtain ⟨⟨v, pc⟩, ha, rfl⟩ := Option.map_eq_some_iff.mp hstep
      exact absurd (hother (move_calls (advance_move ha)).1 hu) hsame
  | expire u =>
    cases hstep
    exact absurd rfl hsame
  | abort u =>
    simp only [SessionManager.step] at hstep
    split at hstep
    · cases hstep
      by_cases hu : t = u
      · subst hu
        simp only [State.goto, Function.update_self] at hpc'
        cases hpc'
      · exact absurd (hother rfl hu) hsame
    · cases hstep
  | runtime r move =>
    simp only [SessionManager.step] at hstep
    split at hstep
    · obtain ⟨cell, permits, sent, rfl, -⟩ := runtime_move hstep
      exact absurd rfl hsame
    · cases hstep
  | reload | reloadAll | stop | remove | list | rejectNewSessions | shutdownAll =>
    cases hstep
    exact absurd (hspawn rfl rfl) hsame

/-- A step of the run: the call stays where it is, or the step is its own. -/
theorem locked_step [DecidableEq P] {a : Action P} (hx : Exclusive s)
    (hpc : s.tasks t = .reload id batch stage) (hlocked : stage.locked = true)
    (hstage : ∀ result, stage ≠ .returning result) (hstep : m.step a s = some s')
    (hpc' : s'.tasks t = .reload id batch stage') :
    stage' = stage ∨
      ∃ env u, a = .advance t env ∧ ReloadMove m s id stage u stage' ∧
        s' = u.goto t (.reload id batch stage') := by
  by_cases hsame : stage' = stage
  · exact Or.inl hsame
  · obtain ⟨env, rfl⟩ := step_mover hx hstep hpc hpc' hsame
    obtain ⟨⟨u, pc⟩, ha, rfl⟩ := Option.map_eq_some_iff.mp hstep
    have hself : (u.goto t pc).tasks t = pc := Function.update_self ..
    rw [hself] at hpc'
    subst hpc'
    rw [hpc] at ha
    obtain ⟨stage2, he, hmove⟩ := locked_move (advance_move ha) hlocked hstage
    cases he
    exact Or.inr ⟨env, u, rfl, hmove, rfl⟩

/-- A call that reports success has read its candidate during its run. -/
theorem reload_has_read [DecidableEq P] (h0 : Reach m.step State.init s0)
    (hb : s0.tasks t = .reload id batch .begin)
    (hrun : StepsWhile m.step (InReload t id batch) s0 s) (hpc : s.tasks t = .reload id batch stage)
    (hread : hasRead stage) : ∃ source env, Reads m t id batch s0 s source env := by
  induction hrun generalizing stage with
  | refl =>
    rw [hb] at hpc
    cases hpc
    exact hread.elim
  | @tail u v a before hd hstep ih =>
    obtain ⟨stage1, hpc1, hlocked, hstage⟩ := hd
    have hlater : hasRead stage1 → ∃ source env, Reads m t id batch s0 v source env := by
      intro h1
      obtain ⟨source, env, u', v', hu, hprep, hs1, hv⟩ := ih hpc1 h1
      exact ⟨source, env, u', v', hu, hprep, hs1, hv.tail ⟨stage1, hpc1, hlocked, hstage⟩ hstep⟩
    rcases locked_step (exclusive_reach (before.reach h0)) hpc1 hlocked hstage hstep hpc with
      rfl | ⟨env, w, rfl, hmove, -⟩
    · exact hlater hread
    · rcases move_read hmove hread with h1 | ⟨source, rfl⟩
      · exact hlater h1
      · exact ⟨source, env, u, _, before, hpc1, hstep, .refl _⟩

/-- No session has a handle of the runtime. -/
def Unlisted (s : State P) (r : RuntimeRef) : Prop :=
  ∀ j session, s.sessions.get j = some session → ∀ runtime ∈ session.runtimes, runtime.cell ≠ r

theorem unlisted_of (h : registered s r = 0) : Unlisted s r := by
  rintro j session hs runtime hr rfl
  have hpos := registered_pos hs hr
  omega

/-- A listener whose handle is gone is never listed again. -/
theorem disposed_later [DecidableEq P] {r : RuntimeRef} (hreach : Reach m.step State.init s)
    (hr : r < s.nextCell) (hd : (s.cells r).disposals = 1)
    (hrun : StepsWhile m.step (fun _ => True) s s') : Unlisted s' r := by
  have hlater : r < s'.nextCell ∧ 1 ≤ (s'.cells r).disposals := by
    induction hrun with
    | refl => exact ⟨hr, Nat.le_of_eq hd.symm⟩
    | tail before hd hstep ih =>
      have ho := step_outcome hstep
      exact ⟨Nat.lt_of_lt_of_le ih.1 (step_extends ho).nextCell,
        ih.2.trans (step_ages ho ih.1).disposals⟩
  have hc := conserved_reach (hrun.reach hreach)
  exact unlisted_of (hc.gone (Nat.le_antisymm (hc.once r) hlater.2)).1

/-- A call whose session has changed reports success. -/
theorem succeeding_move (hm : ReloadMove m s id stage s' stage') (h : succeeding stage = true)
    (hstage : ∀ result, stage ≠ .returning result) : succeeding stage' = true := by
  cases hm with
  | gateStored | lost | retired => rfl
  | _ => cases h

theorem succeeding_run [DecidableEq P] (hreach : Reach m.step State.init s)
    (hpc : s.tasks t = .reload id batch stage) (hstage : succeeding stage = true)
    (hrun : StepsWhile m.step (InReload t id batch) s s')
    (hret : s'.tasks t = .reload id batch stage') : succeeding stage' = true := by
  induction hrun generalizing stage' with
  | refl =>
    rw [hpc] at hret
    cases hret
    exact hstage
  | tail before hd hstep ih =>
    obtain ⟨stage1, hpc1, hlocked, hnot⟩ := hd
    rcases locked_step (exclusive_reach (before.reach hreach)) hpc1 hlocked hnot hstep hret with
      rfl | ⟨env, w, -, hmove, -⟩
    · exact ih hpc1
    · exact succeeding_move hmove (ih hpc1) hnot

theorem run_extends [DecidableEq P] {during : State P → Prop}
    (h : StepsWhile m.step during s s') : Extends s s' := by
  induction h with
  | refl => exact .refl _
  | tail before hd hstep ih => exact ih.trans (step_extends (step_outcome hstep))

/-- During a call without success no session has a handle of its replacement. -/
theorem replacement_unlisted [DecidableEq P] {u : State P} {r : RuntimeRef}
    {result : SessionReloadResult} (h0 : Reach m.step State.init s0)
    (hb : s0.tasks t = .reload id batch .begin)
    (hu : StepsWhile m.step (InReload t id batch) s0 u)
    (hrun : StepsWhile m.step (InReload t id batch) u s)
    (hret : s.tasks t = .reload id batch (.returning result)) (hres : result.status ≠ .reloaded)
    (hpc : u.tasks t = .reload id batch stage) (hr : Of s id r) (hnew : s0.nextCell ≤ r) :
    Unlisted u r := by
  have hreach := hu.reach h0
  have hc := conserved_reach hreach
  have hx := exclusive_reach hreach
  have hfails : succeeding stage = false := by
    cases hs : succeeding stage with
    | false => rfl
    | true =>
      have hend := succeeding_run hreach hpc hs hrun hret
      simp only [succeeding, beq_iff_eq] at hend
      exact absurd hend hres
  refine unlisted_of ?_
  by_cases hlt : r < u.nextCell
  · have hof : Of u id r := ⟨hlt, ((run_extends hrun).runtimeId r hlt).symm.trans hr.2⟩
    have hstage := (reloading_run (T := fun _ => True) h0 h0 (Nat.le_refl _)
      (reloading_begin (fun _ => trivial) hb) hu).2 stage hpc
    have howned : ∀ {runtime : ProxyRuntime P}, runtime ∈ stage.owned → r = runtime.cell →
        registered u r = 0 := by
      rintro runtime hmem rfl
      refine (hc.call hx (t := t) ?_).2
      rw [hpc]
      exact hmem
    cases stage with
    | lookup | lock => exact hstage.elim
    | begin | prepare | compare | commitSame | limits | start => exact (hstage.2.1 r hof hnew).elim
    | commit target options replacement =>
      exact howned (List.mem_singleton_self _) (hstage.2.1 r hof hnew).1
    | marked | gated => cases hfails
    | shutdown replacement result' =>
      exact howned (List.mem_singleton_self _) (hstage.2.2 r hof hnew).1
    | draining cell result' => exact (hc.gone (hstage.2.2 r hof hnew).2.2).1
    | returning result' =>
      have hw := (hstage.1 (by simpa [succeeding] using hfails)).2 r hof hnew
      exact (hc.gone hw.disposals).1
  · have hone := hc r
    rw [if_neg hlt] at hone
    omega

/-- The candidate that a successful reload has installed is the one it has read. -/
theorem reload_installs [DecidableEq P] {result : SessionReloadResult} {source : ReloadSource}
    {env : Environment P} (h0 : Reach m.step State.init s0)
    (hb : s0.tasks t = .reload id batch .begin)
    (hret : s.tasks t = .reload id batch (.returning result)) (hres : result.status = .reloaded)
    (hreads : Reads m t id batch s0 s source env) :
    SourceOf id s0 source ∧
      ∃ target, Candidate m env id source target ∧ Reloaded m id target s0 s := by
  obtain ⟨u, v, hu, hprep, hstep, hv⟩ := hreads
  have hreach := hu.reach h0
  obtain ⟨hle, hall⟩ := reloading_run (T := fun _ => True) h0 h0 (Nat.le_refl _)
    (reloading_begin (fun _ => trivial) hb) hu
  obtain ⟨hpres, hsince, -, hsource⟩ := hall _ hprep
  refine ⟨hsource, ?_⟩
  -- the second part of the run starts with the candidate that the stores gave
  have hv1 : v = u.goto t (.reload id batch (m.reloadPrepare id source env)) := by
    simp only [SessionManager.step, hprep, SessionManager.advance, SessionManager.advanceReload,
      Option.map_some, Option.some.injEq] at hstep
    exact hstep.symm
  have hpcv : v.tasks t = .reload id batch (m.reloadPrepare id source env) := by
    rw [hv1]
    exact Function.update_self ..
  have hreachv := hreach.next hstep
  have hlev := hle.trans (step_extends (step_outcome hstep)).nextCell
  have hend := (reloading_run (T := Candidate m env id source) h0 hreachv hlev ?_ hv).2 _ hret
  · exact hend.2 hres
  · intro stage hstage
    rw [hpcv] at hstage
    obtain ⟨rfl⟩ : m.reloadPrepare id source env = stage := by
      cases hstage
      rfl
    have hmove : ReloadMove m u id (.prepare source) u (m.reloadPrepare id source env) :=
      reload_prepare_move
    have hkeep : succeeding (m.reloadPrepare id source env) = false →
        Preserved id s0 v := fun hsucc =>
      hpres.step (linked_reach h0) (reload_keeps (step_outcome hstep) hmove hv1 hsucc)
    have hnone : ∀ {p}, Since id s0 v p := by
      rw [hv1]
      exact hsince.mono (fun _ hr _ => hr) (fun _ _ hf => hf.elim)
    generalize hstage : m.reloadPrepare id source env = stage at hmove hkeep
    cases hmove with
    | unprepared _ hr =>
      exact reloading_failed (by simp [hr]) (hkeep (by simp [succeeding, hr])) hnone
    | prepared _ target => exact ⟨hkeep rfl, hnone, prepare_candidate hstage⟩

/-- A reload that does not report success changes nothing in its session but the
list of retired runtimes, from which only finished ones go, and its replacement
listener is shut down and never listed; a reload that does installs exactly the
candidate it has read; and neither touches another session. -/
theorem reload_all_or_nothing [DecidableEq P] {result : SessionReloadResult}
    (h0 : Reach m.step State.init s0) (hb : s0.tasks t = .reload id batch .begin)
    (hrun : StepsWhile m.step (InReload t id batch) s0 s)
    (hret : s.tasks t = .reload id batch (.returning result)) :
    (result.status ≠ .reloaded →
      Preserved id s0 s ∧
      ∀ r, Of s id r → s0.nextCell ≤ r → Withdrawn s r ∧
        (∀ u, StepsWhile m.step (InReload t id batch) s0 u →
          StepsWhile m.step (InReload t id batch) u s → Unlisted u r) ∧
        ∀ u, StepsWhile m.step (fun _ => True) s u → Unlisted u r) ∧
    (result.status = .reloaded →
      (∃ source env, Reads m t id batch s0 s source env) ∧
      ∀ source env, Reads m t id batch s0 s source env →
        SourceOf id s0 source ∧
          ∃ target, Candidate m env id source target ∧ Reloaded m id target s0 s) ∧
    ∀ u v env, StepsWhile m.step (InReload t id batch) s0 u → InReload t id batch u →
      m.step (.advance t env) u = some v →
      (∀ j, j ≠ id → Untouched j u v) ∧
        ((u.sessions.get id).isSome = true → (v.sessions.get id).isSome = true) := by
  have hreach := hrun.reach h0
  have hend := (reloading_run (T := fun _ => True) h0 h0 (Nat.le_refl _)
    (reloading_begin (fun _ => trivial) hb) hrun).2 _ hret
  refine ⟨fun hres => ?_, fun hres => ?_, fun u v env hu hin hstep => ?_⟩
  · obtain ⟨hpres, hsince⟩ := hend.1 hres
    refine ⟨hpres, fun r hr hnew => ⟨hsince r hr hnew, fun u hu hus => ?_, fun u hu => ?_⟩⟩
    · have hstage : ∃ stage, u.tasks t = .reload id batch stage := by
        rcases hus.starts with rfl | ⟨stage, hpc, -⟩
        · exact ⟨_, hret⟩
        · exact ⟨stage, hpc⟩
      obtain ⟨stage, hpc⟩ := hstage
      exact replacement_unlisted h0 hb hu hus hret hres hpc hr hnew
    · exact disposed_later hreach hr.1 (hsince r hr hnew).disposals hu
  · exact ⟨reload_has_read h0 hb hrun hret hres,
      fun source env hreads => reload_installs h0 hb hret hres hreads⟩
  · obtain ⟨stage, hpc, hlocked, hstage⟩ := hin
    obtain ⟨⟨w, pc⟩, ha, rfl⟩ := Option.map_eq_some_iff.mp hstep
    rw [hpc] at ha
    obtain ⟨stage', rfl, hmove⟩ := locked_move (advance_move ha) hlocked hstage
    have hl := linked_reach (hu.reach h0) t
    rw [hpc] at hl
    have hpresent := reload_present hmove
    refine ⟨fun j hj => ?_, fun hsome => hpresent hsome⟩
    have hun := reload_untouched hl hmove hj
    exact ⟨hun.entry, hun.gate, hun.history, hun.cells⟩

/-- A reload of the sample session as task 1, up to its first section. -/
def busyReload : List (Action Text) :=
  .create busyCall :: List.replicate 3 (.advance 0 sampleEnvironment) ++
    .reload busyCall.id :: List.replicate 2 (.advance 1 sampleEnvironment)

def movesPath (moves : Nat) : List (Action Text) :=
  List.replicate moves (.advance 1 (busyEnvironment "two.sock" "tunnel"))

/-- The server begins to shut down between the start of the replacement and its commit. -/
def busyRejected : List (Action Text) :=
  movesPath 5 ++ [.rejectNewSessions, .advance 2 sampleEnvironment] ++ movesPath 2 ++
    [.runtime 1 .leave, .runtime 1 .drained, .runtime 1 .readRetired, .runtime 1 .decideExit,
      .runtime 1 .finish] ++ movesPath 1

def busyStage (s : State Text) : Option (ReloadStage Text) :=
  match s.tasks 1 with
  | .reload id none stage => if id = busyCall.id then some stage else none
  | _ => none

def hasBegun : ReloadStage Text → Bool
  | .begin => true
  | _ => false

def hasResult (result : SessionReloadResult) : ReloadStage Text → Bool
  | .returning r => r == result
  | _ => false

def isPending : ReloadStage Text → Bool
  | .returning _ => false
  | stage => stage.locked

theorem busy_stage {s : State Text} {test : ReloadStage Text → Bool}
    (h : (busyStage s).any test = true) :
    ∃ stage, s.tasks 1 = .reload busyCall.id none stage ∧ test stage = true := by
  obtain ⟨stage, hstage, htest⟩ := (Option.any_eq_true _ _).mp h
  unfold busyStage at hstage
  split at hstage
  · rename_i hpc
    split at hstage
    · rename_i hid
      cases hstage
      exact ⟨_, by rw [hpc, hid], htest⟩
    · cases hstage
  · cases hstage

theorem pending_reload {s : State Text} (h : (busyStage s).any isPending = true) :
    InReload 1 busyCall.id none s := by
  obtain ⟨stage, hpc, htest⟩ := busy_stage h
  cases stage with
  | returning => cases htest
  | _ => exact ⟨_, hpc, htest, fun _ he => by cases he⟩

/-- A run of the sample reload that was evaluated, from its first section to its result. -/
theorem busy_reload (labels : List (Action Text)) (result : SessionReloadResult)
    (h : (runSteps busyManager.step busyReload State.init).any (fun s0 =>
      (busyStage s0).any hasBegun && s0.nextCell == 1 &&
        (runSteps (fun a s => if (busyStage s).any isPending then busyManager.step a s else none)
          labels s0).any (fun s => (busyStage s).any (hasResult result) && s.nextCell == 2 &&
            (s.cells 1).runtimeId == busyCall.id)) = true) :
    ∃ s0 s, Reach busyManager.step State.init s0 ∧ s0.nextCell = 1 ∧
      s0.tasks 1 = .reload busyCall.id none .begin ∧
      StepsWhile busyManager.step (InReload 1 busyCall.id none) s0 s ∧
      s.tasks 1 = .reload busyCall.id none (.returning result) ∧ Of s busyCall.id 1 := by
  obtain ⟨s0, hs0, htest⟩ := run_any h
  simp only [Bool.and_eq_true, beq_iff_eq] at htest
  obtain ⟨⟨hbegin, hone⟩, hend⟩ := htest
  obtain ⟨s, hs, htest⟩ := run_any hend
  simp only [Bool.and_eq_true, beq_iff_eq] at htest
  obtain ⟨⟨hresult, htwo⟩, hid⟩ := htest
  obtain ⟨stage, hb, hstage⟩ := busy_stage hbegin
  obtain ⟨stage', hret, hstage'⟩ := busy_stage hresult
  have hb : s0.tasks 1 = .reload busyCall.id none .begin := by
    cases stage with
    | begin => exact hb
    | _ => cases hstage
  have hret : s.tasks 1 = .reload busyCall.id none (.returning result) := by
    cases stage' with
    | returning r => rw [hret, eq_of_beq hstage']
    | _ => cases hstage'
  have hof : Of s busyCall.id 1 := ⟨by rw [htwo]; decide, hid⟩
  exact ⟨s0, s, reach_run .start hs0, hone, hb, steps_while_run pending_reload (.refl s0) hs, hret,
    hof⟩

/-- A reload to another path that fails after its replacement has started, and one
that succeeds. -/
theorem reload_all_or_nothing_sample :
    (∃ s0 s, s0.nextCell = 1 ∧
      StepsWhile busyManager.step (InReload 1 busyCall.id none) s0 s ∧
      s.tasks 1 = .reload busyCall.id none
        (.returning (.failed busyCall.id "/run/one.sock".toList "session_stopping")) ∧
      Preserved busyCall.id s0 s ∧ Of s busyCall.id 1 ∧ Withdrawn s 1) ∧
    ∃ s0 s source env target, StepsWhile busyManager.step (InReload 1 busyCall.id none) s0 s ∧
      s.tasks 1 = .reload busyCall.id none
        (.returning (.reloaded busyCall.id "/run/two.sock".toList)) ∧
      Reads busyManager 1 busyCall.id none s0 s source env ∧
      Candidate busyManager env busyCall.id source target ∧
      Reloaded busyManager busyCall.id target s0 s := by
  constructor
  · obtain ⟨s0, s, h0, hone, hb, hrun, hret, hof⟩ := busy_reload busyRejected
      (.failed busyCall.id "/run/one.sock".toList "session_stopping") (by decide +kernel)
    obtain ⟨hpres, hnew⟩ := (reload_all_or_nothing h0 hb hrun hret).1
      (by simp [SessionReloadResult.failed])
    exact ⟨s0, s, hone, hrun, hret, hpres, hof, (hnew 1 hof (Nat.le_of_eq hone)).1⟩
  · obtain ⟨s0, s, h0, -, hb, hrun, hret, -⟩ := busy_reload (movesPath 8)
      (.reloaded busyCall.id "/run/two.sock".toList) (by decide +kernel)
    obtain ⟨⟨source, env, hreads⟩, hinstalls⟩ := (reload_all_or_nothing h0 hb hrun hret).2.1 rfl
    obtain ⟨-, target, hcandidate, hreloaded⟩ := hinstalls source env hreads
    exact ⟨s0, s, source, env, target, hrun, hret, hreads, hcandidate, hreloaded⟩

end Baffle.Proofs
