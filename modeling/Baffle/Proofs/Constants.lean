import Baffle.Proofs.Connections
import Baffle.Proofs.Permits
import Baffle.Proofs.Creations

namespace Baffle

namespace Proofs

variable {P : Type} {m : SessionManager P} {t : TaskId} {s s' : State P} {pc pc' : Pc P}
  {id : SessionId} {call : CreateCall} {Q : SessionConfig → ResolvedSecrets → Prop}

/-- The pair was compiled under the seed of the call, from a configuration of the
call's persistence that `Q` admits with these secrets. -/
def Derived (Q : SessionConfig → ResolvedSecrets → Prop) (m : SessionManager P)
    (call : CreateCall) (pair : PolicyPair) : Prop :=
  ∃ config : SessionConfig, Q config pair.secrets ∧
    config.persistent = call.session.persistent ∧
    pair.policy = SessionPolicy.compile m.crates config call.credentialSeed

/-- A runtime of the session draws on this semaphore. -/
def Draws (s : State P) (id : SessionId) (semaphore : SemaphoreRef) : Prop :=
  ∃ r, Of s id r ∧ (s.cells r).permits = semaphore

/-- A handle of the session that the call created. -/
structure Fits (call : CreateCall) (s : State P) (runtime : ProxyRuntime P) : Prop where
  runtimeId : runtime.runtimeId = call.id
  credentialSeed : runtime.credentialSeed = call.credentialSeed
  permits : Draws s call.id runtime.permits

structure Record (call : CreateCall) (s : State P) (session : ManagedSession P) : Prop where
  id : session.info.id = call.id
  persistent : session.info.persistent = call.session.persistent
  configuration : session.configuration.persistent = call.session.persistent
  source : session.configSource = call.configSource
  runtimes : ∀ runtime ∈ session.runtimes, Fits call s runtime

structure Constant (Q : SessionConfig → ResolvedSecrets → Prop) (m : SessionManager P)
    (call : CreateCall) (s : State P) : Prop where
  used : call.id ∈ s.used
  record : ∀ session, s.sessions.get call.id = some session → Record call s session
  permits : ∀ r q, Of s call.id r → Of s call.id q → (s.cells r).permits = (s.cells q).permits
  current : ∀ r, Of s call.id r → Derived Q m call (s.cells r).current.pair
  history : ∀ pair ∈ s.history call.id, Derived Q m call pair

/-- `Q` holds of every candidate that a reload reads and resolves. -/
def Resolves (Q : SessionConfig → ResolvedSecrets → Prop) (m : SessionManager P) : Prop :=
  ∀ store files source read (config : SessionConfig) secrets persistent,
    readSession m.crates store source = .ok read → config = { read with persistent } →
    (m.secretStore files).resolve config = .ok secrets → Q config secrets

/-- The candidate of a reload. -/
def Aims (Q : SessionConfig → ResolvedSecrets → Prop) (call : CreateCall)
    (target : ReloadTarget P) : Prop :=
  target.candidate.persistent = call.session.persistent ∧ Q target.candidate target.secrets

/-- What a reload takes over from the current runtime. -/
def Passed (call : CreateCall) (s : State P) (options : Replacement) : Prop :=
  options.credentialSeed = call.credentialSeed ∧ Draws s call.id options.permits

/-- What a call that works on the session carries. -/
def Agreeing (Q : SessionConfig → ResolvedSecrets → Prop) (call : CreateCall) (s : State P) :
    Pc P → Prop
  | .create call' stage => call' = call ∧
    match stage with
    | .reserve | .start => ∀ r, ¬Of s call.id r
    | .register runtime | .drop runtime => Fits call s runtime
    | _ => True
  | .reload _ _ stage =>
    match stage with
    | .prepare source => source.persistent = call.session.persistent
    | .compare _ target | .commitSame target | .limits target => Aims Q call target
    | .start target options => Aims Q call target ∧ Passed call s options
    | .commit target options replacement =>
      Aims Q call target ∧ Passed call s options ∧ Fits call s replacement
    | .marked target options oldRuntime | .gated target options oldRuntime =>
      Aims Q call target ∧ Passed call s options ∧ Fits call s oldRuntime
    | .shutdown replacement _ => Fits call s replacement
    | _ => True
  | .teardown _ _ (.shutdown runtimes) => ∀ runtime ∈ runtimes, Fits call s runtime
  | _ => True

theorem Between.agreeing (h : Between pc) : Agreeing Q call s pc := by
  cases h <;> trivial

/-- No runtime of the session is new, and each keeps its semaphore. -/
def Inherits (id : SessionId) (s s' : State P) : Prop :=
  ∀ r, Of s' id r → Of s id r ∧ (s'.cells r).permits = (s.cells r).permits

theorem Extends.inherits (h : Extends s s') (hn : s'.nextCell = s.nextCell) :
    Inherits id s s' := by
  intro r hr
  have hlt : r < s.nextCell := hn ▸ hr.1
  exact ⟨⟨hlt, (h.runtimeId r hlt).symm.trans hr.2⟩, h.permits r hlt⟩

theorem Frame.inherits (h : Frame id s s') : Inherits id s s' := by
  intro r hr
  have hof := (h.of hr).1
  exact ⟨hof, h.heap.permits r hof.1⟩

theorem Draws.extends {semaphore : SemaphoreRef} (h : Draws s id semaphore) (he : Extends s s') :
    Draws s' id semaphore := by
  obtain ⟨r, hr, hp⟩ := h
  refine ⟨r, ⟨Nat.lt_of_lt_of_le hr.1 he.nextCell, ?_⟩, ?_⟩
  · rw [he.runtimeId r hr.1]
    exact hr.2
  · rw [he.permits r hr.1]
    exact hp

theorem Fits.extends {runtime : ProxyRuntime P} (h : Fits call s runtime) (he : Extends s s') :
    Fits call s' runtime := ⟨h.runtimeId, h.credentialSeed, h.permits.extends he⟩

theorem Passed.extends {options : Replacement} (h : Passed call s options) (he : Extends s s') :
    Passed call s' options := ⟨h.1, h.2.extends he⟩

/-- The record keeps its constants and gets no runtime. -/
structure Carries (old new : ManagedSession P) : Prop where
  id : new.info.id = old.info.id
  persistent : new.info.persistent = old.info.persistent
  configuration : new.configuration.persistent = old.configuration.persistent
  source : new.configSource = old.configSource
  runtimes : new.runtimes ⊆ old.runtimes

theorem Carries.refl (session : ManagedSession P) : Carries session session :=
  ⟨rfl, rfl, rfl, rfl, fun _ h => h⟩

theorem Kept.carries {old new : ManagedSession P} (h : Kept s old new) : Carries old new := by
  refine ⟨h.id, h.persistent, by rw [h.configuration], h.configSource, ?_⟩
  intro runtime hr
  rw [mem_runtimes] at hr ⊢
  rw [h.runtime] at hr
  exact hr.imp_left (fun hret => h.retired.subset hret)

theorem Record.carries {old new : ManagedSession P} (h : Record call s old)
    (hc : Carries old new) (he : Extends s s') : Record call s' new where
  id := hc.id.trans h.id
  persistent := hc.persistent.trans h.persistent
  configuration := hc.configuration.trans h.configuration
  source := hc.source.trans h.source
  runtimes runtime hr := (h.runtimes runtime (hc.runtimes hr)).extends he

/-- A step that starts no runtime of the session and commits nothing. -/
theorem Constant.carries (h : Constant Q m call s) (hu : s.used ⊆ s'.used) (he : Extends s s')
    (hi : Inherits call.id s s')
    (hcur : ∀ r, Of s call.id r → (s'.cells r).current = (s.cells r).current)
    (hh : s'.history call.id = s.history call.id)
    (hget : ∀ session', s'.sessions.get call.id = some session' →
      ∃ session, s.sessions.get call.id = some session ∧ Carries session session') :
    Constant Q m call s' where
  used := hu h.used
  record session' hs' := by
    obtain ⟨session, hs, hc⟩ := hget session' hs'
    exact (h.record session hs).carries hc he
  permits r q hr hq := by
    rw [(hi r hr).2, (hi q hq).2]
    exact h.permits r q (hi r hr).1 (hi q hq).1
  current r hr := by
    rw [hcur r (hi r hr).1]
    exact h.current r (hi r hr).1
  history := by
    rw [hh]
    exact h.history

theorem Constant.frame (h : Constant Q m call s) (hf : Frame call.id s s') :
    Constant Q m call s' := by
  refine h.carries hf.used hf.heap hf.inherits (fun r hr => (hf.core r hr.1 hr.2).current)
    hf.history ?_
  intro session' hs'
  obtain ⟨session, hs, hk⟩ := hf.back hs'
  exact ⟨session, hs, hk.carries⟩

theorem Agreeing.extends (h : Agreeing Q call s pc) (he : Extends s s')
    (hi : Inherits call.id s s') : Agreeing Q call s' pc := by
  cases pc with
  | create call' stage =>
    refine ⟨h.1, ?_⟩
    cases stage with
    | reserve | start => exact fun r hr => h.2 r (hi r hr).1
    | register runtime | drop runtime => exact h.2.extends he
    | _ => trivial
  | reload j batch stage =>
    cases stage with
    | prepare | compare | commitSame | limits => exact h
    | start target options => exact ⟨h.1, h.2.extends he⟩
    | commit target options runtime | marked target options runtime
    | gated target options runtime => exact ⟨h.1, h.2.1.extends he, h.2.2.extends he⟩
    | shutdown replacement result => exact h.extends he
    | _ => trivial
  | teardown kind j stage =>
    cases stage with
    | shutdown runtimes => exact fun runtime hr => (h runtime hr).extends he
    | _ => trivial
  | _ => trivial

theorem derived_pair {config : SessionConfig} {secrets : ResolvedSecrets} (hq : Q config secrets)
    (hp : config.persistent = call.session.persistent) :
    Derived Q m call (m.pair config call.credentialSeed secrets) := ⟨config, hq, hp, rfl⟩

/-- One more runtime of the session, on the semaphore that the others have. -/
theorem Constant.started (h : Constant Q m call s) {pair : PolicyPair} {generation : Nat}
    {semaphore : SemaphoreRef} {u : State P} (he : Extends s u)
    (hcells : u.cells = Function.update s.cells s.nextCell
      (RuntimeCell.start call.id generation semaphore pair))
    (hnext : u.nextCell = s.nextCell + 1)
    (hsame : ∀ r, Of s call.id r → (s.cells r).permits = semaphore)
    (hpair : Derived Q m call pair) (hhist : ∀ pair ∈ u.history call.id, Derived Q m call pair)
    (hsessions : u.sessions = s.sessions) (hu : u.used = s.used) :
    Constant Q m call u ∧ Of u call.id s.nextCell ∧ (u.cells s.nextCell).permits = semaphore := by
  have hnew : u.cells s.nextCell = RuntimeCell.start call.id generation semaphore pair := by
    rw [hcells, Function.update_self]
  have hcases : ∀ r, Of u call.id r → r = s.nextCell ∨ Of s call.id r ∧ u.cells r = s.cells r := by
    intro r hr
    by_cases hne : r = s.nextCell
    · exact Or.inl hne
    · have hle : r < s.nextCell + 1 := hnext ▸ hr.1
      have hlt : r < s.nextCell := Nat.lt_of_le_of_ne (Nat.le_of_lt_succ hle) hne
      have hcell : u.cells r = s.cells r := by rw [hcells, Function.update_of_ne hne]
      exact Or.inr ⟨⟨hlt, hcell ▸ hr.2⟩, hcell⟩
  have hall : ∀ r, Of u call.id r → (u.cells r).permits = semaphore := by
    intro r hr
    rcases hcases r hr with rfl | ⟨hof, hcell⟩
    · rw [hnew]
      rfl
    · rw [hcell]
      exact hsame r hof
  refine ⟨⟨hu ▸ h.used, ?_, ?_, ?_, hhist⟩, ⟨?_, ?_⟩, ?_⟩
  · intro session hs
    rw [hsessions] at hs
    exact (h.record session hs).carries (.refl _) he
  · intro r q hr hq
    rw [hall r hr, hall q hq]
  · intro r hr
    rcases hcases r hr with rfl | ⟨hof, hcell⟩
    · rw [hnew]
      exact hpair
    · rw [hcell]
      exact h.current r hof
  · rw [hnext]
    exact Nat.lt_succ_self _
  · rw [hnew]
    rfl
  · rw [hnew]
    rfl

/-- A section that writes the entry of the session only. -/
theorem Constant.written (h : Constant Q m call s) {u : State P} {old new : ManagedSession P}
    (hs : s.sessions.get call.id = some old) (hc : Carries old new) (he : Extends s u)
    (hn : u.nextCell = s.nextCell)
    (hcur : ∀ r, Of s call.id r → (u.cells r).current = (s.cells r).current)
    (hh : u.history = s.history) (hu : u.used = s.used)
    (hget : u.sessions = s.sessions.insert call.id new) : Constant Q m call u := by
  refine h.carries (by rw [hu]) he (he.inherits hn) hcur (by rw [hh]) ?_
  intro session' hs'
  rw [hget, SortedMap.get_insert_self] at hs'
  cases hs'
  exact ⟨old, hs, hc⟩

/-- A section that leaves the registry alone. -/
theorem Constant.unwritten (h : Constant Q m call s) {u : State P} (he : Extends s u)
    (hn : u.nextCell = s.nextCell)
    (hcur : ∀ r, Of s call.id r → (u.cells r).current = (s.cells r).current)
    (hh : u.history call.id = s.history call.id) (hu : u.used = s.used)
    (hget : u.sessions = s.sessions) : Constant Q m call u := by
  refine h.carries (by rw [hu]) he (he.inherits hn) hcur hh ?_
  intro session' hs'
  rw [hget] at hs'
  exact ⟨session', hs', .refl _⟩

theorem constant_create {stage stage' : CreateStage P} (hq : Q call.session call.secrets)
    (he : Extends s s') (hr : Constant Q m call s) (ha : Agreeing Q call s (.create call stage))
    (hm : CreateMove m s call stage s' stage') :
    Constant Q m call s' ∧ Agreeing Q call s' (.create call stage') := by
  cases hm with
  | refused error => exact ⟨hr, rfl, trivial⟩
  | reserved hacc hroom hs hp =>
    exact ⟨hr.unwritten he rfl (fun _ _ => rfl) rfl rfl rfl, ha⟩
  | failed error => exact ⟨hr, rfl, trivial⟩
  | started socketPath =>
    have hnone : ∀ r, ¬Of s call.id r := ha.2
    have hpair : Derived Q m call (m.pair call.session call.credentialSeed call.secrets) :=
      derived_pair hq rfl
    have hhist : ∀ pair ∈ (created m s call socketPath).1.history call.id,
        Derived Q m call pair := by
      intro pair hmem
      have hself : (created m s call socketPath).1.history call.id
          = [m.pair call.session call.credentialSeed call.secrets] := Function.update_self ..
      rw [hself, List.mem_singleton] at hmem
      rw [hmem]
      exact hpair
    obtain ⟨hc, hof, hp⟩ := hr.started he rfl rfl (fun r hof => absurd hof (hnone r)) hpair hhist
      rfl rfl
    exact ⟨hc, rfl, rfl, rfl, s.nextCell, hof, hp⟩
  | released error => exact ⟨hr.unwritten he rfl (fun _ _ => rfl) rfl rfl rfl, rfl, trivial⟩
  | late runtime hacc =>
    exact ⟨hr.unwritten he rfl (fun _ _ => rfl) rfl rfl rfl, rfl, ha.2.extends he⟩
  | registered runtime hacc =>
    have hfits : Fits call s runtime := ha.2
    refine ⟨?_, rfl, trivial⟩
    have hi : Inherits call.id s _ := he.inherits rfl
    refine ⟨hr.used, ?_, ?_, ?_, hr.history⟩
    · intro session hs
      simp only [State.setSession, SortedMap.get_insert_self] at hs
      cases hs
      refine ⟨rfl, rfl, rfl, rfl, fun runtime' hmem => ?_⟩
      rcases mem_runtimes.mp hmem with hmem | hmem
      · cases hmem
      · cases hmem
        exact hfits.extends he
    · intro r q hof hoq
      rw [(hi r hof).2, (hi q hoq).2]
      exact hr.permits r q (hi r hof).1 (hi q hoq).1
    · intro r hof
      have hcur : ((s.setCell runtime.cell (s.cells runtime.cell).install).cells r).current
          = (s.cells r).current := set_same RuntimeCell.current rfl
      show Derived Q m call ((s.setCell runtime.cell _).cells r).current.pair
      rw [hcur]
      exact hr.current r (hi r hof).1
  | dropped runtime => exact ⟨hr.unwritten he rfl (fun _ _ => rfl) rfl rfl rfl, rfl, trivial⟩

theorem carries_unfinished (session : ManagedSession P) :
    Carries session (SessionManager.unfinished s session) :=
  ⟨rfl, rfl, rfl, rfl, retain_runtimes _ _⟩

theorem Carries.count {old new : ManagedSession P} (h : Carries old new) :
    Carries old new.countDraining := ⟨h.id, h.persistent, h.configuration, h.source, h.runtimes⟩

/-- The first commit path: the current listener gets the new pair. -/
theorem constant_same {target : ReloadTarget P} {session : ManagedSession P}
    {runtime : ProxyRuntime P} {cell : RuntimeCell} {pair : PolicyPair}
    (hr : Constant Q m call s) (hs : s.sessions.get call.id = some session)
    (hcell : (s.cells runtime.cell).replaceGeneration pair = some cell)
    (ht : target.candidate.persistent = call.session.persistent)
    (hpair : Derived Q m call pair) {u : State P} (he : Extends s u)
    (hu : u = { (s.setCell runtime.cell cell).setSession call.id
          (SessionManager.refreshed target session) with
        history := Function.update s.history call.id (s.history call.id ++ [pair]) }) :
    Constant Q m call u := by
  have hrec := hr.record session hs
  have hi : Inherits call.id s u := he.inherits (by rw [hu]; rfl)
  refine ⟨by rw [hu]; exact hr.used, ?_, ?_, ?_, ?_⟩
  · intro session' hs'
    rw [hu] at hs'
    simp only [State.setSession, SortedMap.get_insert_self] at hs'
    cases hs'
    exact ⟨hrec.id, hrec.persistent, ht, hrec.source, fun rt hmem =>
      (hrec.runtimes rt hmem).extends he⟩
  · intro r q hof hoq
    rw [(hi r hof).2, (hi q hoq).2]
    exact hr.permits r q (hi r hof).1 (hi q hoq).1
  · intro r hof
    rw [hu]
    by_cases hne : r = runtime.cell
    · subst hne
      simp only [State.setSession, State.setCell, Function.update_self, replaced hcell]
      exact hpair
    · simp only [State.setSession, State.setCell, Function.update_of_ne hne]
      exact hr.current r (hi r hof).1
  · intro p hp
    rw [hu] at hp
    simp only [Function.update_self, List.mem_append, List.mem_singleton] at hp
    rcases hp with hp | rfl
    · exact hr.history p hp
    · exact hpair

/-- The second commit path: the replacement becomes the current runtime. -/
theorem constant_switched {target : ReloadTarget P} {options : Replacement}
    {session : ManagedSession P} {replacement oldRuntime : ProxyRuntime P}
    (hr : Constant Q m call s) (hs : s.sessions.get call.id = some session)
    (ht : target.candidate.persistent = call.session.persistent)
    (hfits : Fits call s replacement) {u : State P} (he : Extends s u)
    (hu : u = ((s.setCell replacement.cell (s.cells replacement.cell).install).setCell
      oldRuntime.cell ((s.setCell replacement.cell (s.cells replacement.cell).install).cells
        oldRuntime.cell).markRetiring).setSession call.id
          (m.switched target options replacement session)) :
    Constant Q m call u := by
  have hrec := hr.record session hs
  have hi : Inherits call.id s u := he.inherits (by rw [hu]; rfl)
  have hcur : ∀ r, (u.cells r).current = (s.cells r).current := by
    intro r
    rw [hu]
    have hinstall : ((s.setCell replacement.cell (s.cells replacement.cell).install).cells r).current
        = (s.cells r).current := set_same RuntimeCell.current rfl
    rw [← hinstall]
    exact set_same RuntimeCell.current rfl
  refine ⟨by rw [hu]; exact hr.used, ?_, ?_, ?_, by rw [hu]; exact hr.history⟩
  · intro session' hs'
    rw [hu] at hs'
    simp only [State.setSession, SortedMap.get_insert_self] at hs'
    cases hs'
    refine ⟨hrec.id, hrec.persistent, ht, hrec.source, fun rt hmem => ?_⟩
    rcases mem_runtimes.mp hmem with hmem | hmem
    · exact (hrec.runtimes rt (mem_runtimes.mpr (Or.inl hmem))).extends he
    · cases hmem
      exact hfits.extends he
  · intro r q hof hoq
    rw [(hi r hof).2, (hi q hoq).2]
    exact hr.permits r q (hi r hof).1 (hi q hoq).1
  · intro r hof
    rw [hcur r]
    exact hr.current r (hi r hof).1

theorem constant_reload {batch : Option Batch} {stage stage' : ReloadStage P}
    (hq : Resolves Q m) (he : Extends s s') (hr : Constant Q m call s)
    (ha : Agreeing Q call s (.reload call.id batch stage))
    (hm : ReloadMove m s call.id stage s' stage') :
    Constant Q m call s' ∧ Agreeing Q call s' (.reload call.id batch stage') := by
  have hkeep : ∀ {session kept : ManagedSession P}, s.sessions.get call.id = some session →
      Carries session kept → Extends s (reaped s call.id session kept) →
      Constant Q m call (reaped s call.id session kept) := by
    intro session kept hs hc he
    exact hr.written hs hc he rfl (fun _ _ => rfl) rfl rfl rfl
  cases hm with
  | missing hs hres => exact ⟨hr, trivial⟩
  | turnedDown session hs hres =>
    exact ⟨hkeep hs (carries_unfinished session).count he, trivial⟩
  | begun session hs hstate hacc source hsource =>
    exact ⟨hkeep hs (carries_unfinished session).count he, (hr.record session hs).configuration⟩
  | unprepared source hres => exact ⟨hr, trivial⟩
  | prepared source target store files read hread hc hsecrets hsocket =>
    refine ⟨hr, ?_, hq store files _ read _ _ source.persistent hread hc hsecrets⟩
    rw [hc]
    exact ha
  | compareMissing source target hs hres => exact ⟨hr, trivial⟩
  | unchanged source target session hs hc hv => exact ⟨hr, trivial⟩
  | samePath source target hpath => exact ⟨hr, ha⟩
  | otherPath source target hpath => exact ⟨hr, ha⟩
  | sameFailed target hres => exact ⟨hr, trivial⟩
  | sameCommitted target hacc session hs runtime hruntime cell hcell =>
    obtain ⟨hp, hQ⟩ := ha
    have hfits := (hr.record session hs).runtimes runtime (mem_runtimes.mpr (Or.inr hruntime))
    refine ⟨constant_same hr hs hcell hp ?_ he rfl, trivial⟩
    rw [hfits.credentialSeed]
    exact derived_pair hQ hp
  | limitsRefused target hres => exact ⟨hr, trivial⟩
  | limited target session hs hres => exact ⟨hkeep hs (carries_unfinished session) he, trivial⟩
  | withinLimits target hacc session hs runtime hruntime hroom =>
    have hfits := (hr.record session hs).runtimes runtime (mem_runtimes.mpr (Or.inr hruntime))
    exact ⟨hkeep hs (carries_unfinished session) he, ha, hfits.credentialSeed,
      hfits.permits.extends he⟩
  | unbound target options hres => exact ⟨hr, trivial⟩
  | replacing target options =>
    obtain ⟨⟨hp, hQ⟩, hseed, q, hoq, hpq⟩ := ha
    have hsame : ∀ r, Of s call.id r → (s.cells r).permits = options.permits := by
      intro r hof
      rw [← hpq]
      exact hr.permits r q hof hoq
    have hpair : Derived Q m call (m.pair target.candidate options.credentialSeed
        target.secrets) := by
      rw [hseed]
      exact derived_pair hQ hp
    obtain ⟨hc, hof, hperm⟩ := hr.started he rfl rfl hsame hpair hr.history rfl rfl
    exact ⟨hc, ⟨hp, hQ⟩, ⟨hseed, s.nextCell, hof, hperm⟩, rfl, hseed, s.nextCell, hof, hperm⟩
  | withdrawn target options replacement hw hres => exact ⟨hr, ha.2.2⟩
  | vacant target options replacement session hs hstate hruntime hres =>
    refine ⟨hr.written hs ?_ he rfl (fun _ _ => rfl) rfl rfl rfl, trivial⟩
    refine ⟨rfl, rfl, rfl, rfl, fun rt hmem => ?_⟩
    exact mem_runtimes.mpr (Or.inl ((mem_runtimes.mp hmem).resolve_right (by simp)))
  | switched target options replacement hacc session hs hstate oldRuntime hruntime =>
    obtain ⟨haim, hpass, hfits⟩ := ha
    have hold := (hr.record session hs).runtimes oldRuntime (mem_runtimes.mpr (Or.inr hruntime))
    exact ⟨constant_switched hr hs haim.1 hfits he rfl, haim, hpass.extends he, hold.extends he⟩
  | gateStored target options oldRuntime =>
    obtain ⟨⟨hp, hQ⟩, hpass, hold⟩ := ha
    refine ⟨⟨hr.used, fun session hs => (hr.record session hs).carries (.refl _) he, hr.permits,
      hr.current, ?_⟩, ⟨hp, hQ⟩, hpass.extends he, hold.extends he⟩
    intro pair hmem
    simp only [SessionManager.reloadGate, Function.update_self, List.mem_append,
      List.mem_singleton] at hmem
    rcases hmem with hmem | rfl
    · exact hr.history pair hmem
    · rw [hpass.1]
      exact derived_pair hQ hp
  | lost target options oldRuntime hs =>
    refine ⟨hr.unwritten he rfl (fun r _ => ?_) rfl rfl rfl, trivial⟩
    exact set_same RuntimeCell.current rfl
  | retired target options oldRuntime session hs =>
    obtain ⟨-, -, hold⟩ := ha
    have hrec := hr.record session hs
    have hi : Inherits call.id s _ := he.inherits rfl
    refine ⟨⟨hr.used, ?_, ?_, ?_, hr.history⟩, trivial⟩
    · intro session' hs'
      simp only [State.setSession, SortedMap.get_insert_self] at hs'
      cases hs'
      refine ⟨hrec.id, hrec.persistent, hrec.configuration, hrec.source, fun rt hmem => ?_⟩
      rcases mem_runtimes.mp hmem with hmem | hmem
      · rcases List.mem_append.mp hmem with hmem | hmem
        · exact (hrec.runtimes rt (mem_runtimes.mpr (Or.inl hmem))).extends he
        · rw [List.mem_singleton.mp hmem]
          exact hold.extends he
      · exact (hrec.runtimes rt (mem_runtimes.mpr (Or.inr hmem))).extends he
    · intro r q hof hoq
      rw [(hi r hof).2, (hi q hoq).2]
      exact hr.permits r q (hi r hof).1 (hi q hoq).1
    · intro r hof
      have hcur : ((s.setCell oldRuntime.cell (s.cells oldRuntime.cell).retire).cells r).current
          = (s.cells r).current := set_same RuntimeCell.current rfl
      show Derived Q m call ((s.setCell oldRuntime.cell _).cells r).current.pair
      rw [hcur]
      exact hr.current r (hi r hof).1
  | stopping replacement result =>
    exact ⟨hr.unwritten he rfl (fun _ _ => rfl) rfl rfl rfl, trivial⟩
  | drained cell result hf => exact ⟨hr, trivial⟩

theorem carries_stopped (session : ManagedSession P) : Carries session session.stopped :=
  ⟨rfl, rfl, rfl, rfl, by
    intro runtime h
    simp [ManagedSession.stopped, ManagedSession.runtimes] at h⟩

theorem constant_teardown {kind : TeardownKind} {stage stage' : TeardownStage P}
    (he : Extends s s') (hr : Constant Q m call s)
    (hm : TeardownMove t s kind call.id stage s' stage') :
    Constant Q m call s' ∧ Agreeing Q call s' (.teardown kind call.id stage') := by
  cases hm with
  | unknown | found | locked | gone | late | drained | entryGone => exact ⟨hr, trivial⟩
  | forgotten generation hk session hs hne =>
    refine ⟨hr.written hs ?_ he rfl (fun _ _ => rfl) rfl rfl rfl, trivial⟩
    exact ⟨rfl, rfl, rfl, rfl, retain_runtimes session _⟩
  | claimed session hs hk hlive =>
    refine ⟨hr.written hs (carries_stopped session) he rfl (fun _ _ => rfl) rfl rfl rfl, ?_⟩
    exact fun runtime hmem => ((hr.record session hs).runtimes runtime hmem).extends he
  | stopping runtimes => exact ⟨hr.unwritten he rfl (fun _ _ => rfl) rfl rfl rfl, trivial⟩
  | removed session hs =>
    refine ⟨hr.carries (Finset.Subset.refl _) he (he.inherits rfl) (fun _ _ => rfl) rfl ?_, trivial⟩
    intro session' hs'
    simp [SessionManager.removeEntry] at hs'
  | counted => exact ⟨hr.unwritten he rfl (fun _ _ => rfl) rfl rfl rfl, trivial⟩

theorem constant_move (hq : Q call.session call.secrets) (hres : Resolves Q m)
    (hh : pc.holds = some call.id) (hr : Constant Q m call s) (ha : Agreeing Q call s pc)
    (hm : Move m t s pc s' pc') : Constant Q m call s' ∧ Agreeing Q call s' pc' := by
  have he := move_extends hm
  cases hm with
  | create call' h =>
    obtain rfl := ha.1
    exact constant_create hq he hr ha h
  | reload j batch h =>
    obtain rfl := Pc.holds_reload hh
    exact constant_reload hres he hr ha h
  | reloadReturned j batch result => exact ⟨hr, (after_reload_between batch result).agreeing⟩
  | teardown kind j h =>
    obtain rfl := Pc.holds_teardown hh
    exact constant_teardown he hr h
  | sweep h =>
    cases h with
    | claimed j ids runtimes count session hs =>
      cases hh
      exact ⟨hr.written hs (carries_stopped session) he rfl (fun _ _ => rfl) rfl rfl rfl, trivial⟩
    | gone => exact ⟨hr, trivial⟩
    | _ => cases hh
  | unknown | found | locked | reloadAll | rejected | listed => cases hh

/-- The constants of a session hold from its `create` on. -/
theorem constant_step [DecidableEq P] (hq : Q call.session call.secrets) (hres : Resolves Q m)
    {action : Action P} (hreach : Reach m.step State.init s)
    (h : Upheld (fun _ => Constant Q m call) (fun _ => Agreeing Q call) call.id s)
    (hstep : m.step action s = some s') :
    Upheld (fun _ => Constant Q m call) (fun _ => Agreeing Q call) call.id s' := by
  refine upheld_step ?_ ?_ ?_ ?_ ?_ hreach h hstep
  · intro s s' _ hf hr
    exact hr.frame hf
  · intro s s' t _ _ _ hf ha
    exact ha.extends hf.heap hf.inherits
  · intro s s' pc _ hen _ _ hr
    cases hen with
    | create call' hid hnew => exact absurd hr.used hnew
    | _ => trivial
  · intro s s' t pc _ hh hr ha hm
    obtain ⟨hr', ha'⟩ := constant_move hq hres hh hr ha hm
    have he : Extends s' (s'.goto t pc) :=
      ⟨Nat.le_refl _, fun _ _ => rfl, fun _ _ => rfl, fun _ _ => rfl⟩
    exact ⟨hr'.unwritten he rfl (fun _ _ => rfl) rfl rfl rfl, ha'.extends he (he.inherits rfl)⟩
  · intro s t hreach hh hacc hb hr ha
    have he := step_extends (Outcome.aborted t hacc hb : Outcome m s _)
    refine hr.unwritten he rfl (fun r _ => ?_) rfl rfl rfl
    exact (core_abort_cells (s := s.dropRuntimes (s.tasks t).owned) _ r).current

/-- When `create` is called its id has no trace in the daemon. -/
theorem constant_created [DecidableEq P] (hreach : Reach m.step State.init s)
    (hstep : m.step (.create call) s = some s') :
    Upheld (fun _ => Constant Q m call) (fun _ => Agreeing Q call) call.id s' := by
  simp only [SessionManager.step] at hstep
  split at hstep
  · cases hstep
  · rename_i hnew
    rw [← Option.some.inj hstep]
    have hx := exclusive_reach hreach
    have hnone : ∀ r, ¬Of s call.id r := fun r hr =>
      (recorded_reach hreach call.id).unused hnew r hr.1 hr.2
    have hhist : s.history call.id = [] := (cutover_upheld hreach call.id).1.unused hnew
    refine ⟨⟨Finset.mem_insert_self .., ?_, fun r _ hr => absurd hr (hnone r),
      fun r hr => absurd hr (hnone r), ?_⟩, fun t hh => ?_⟩
    · intro session hs
      have hsome : (s.sessions.get call.id).isSome = true := Option.isSome_iff_exists.mpr ⟨_, hs⟩
      exact absurd (hx.registered call.id hsome).1 hnew
    · intro pair hmem
      have hmem : pair ∈ s.history call.id := hmem
      rw [hhist] at hmem
      cases hmem
    · rcases spawn_tasks t with hs | hs <;> rw [hs] at hh ⊢
      · exact absurd (used_of_holds hx hh) hnew
      · exact ⟨rfl, hnone⟩

theorem constant_reach [DecidableEq P] (hq : Q call.session call.secrets) (hres : Resolves Q m)
    {s0 s1 : State P} (h0 : Reach m.step State.init s0)
    (hcreate : m.step (.create call) s0 = some s1) (hrun : Reach m.step s1 s) :
    Reach m.step State.init s ∧
      Upheld (fun _ => Constant Q m call) (fun _ => Agreeing Q call) call.id s := by
  induction hrun with
  | start => exact ⟨h0.next hcreate, constant_created h0 hcreate⟩
  | next before ha hs ih => exact ⟨ih.1.next hs, constant_step hq hres ih.1 ih.2 hs⟩

theorem handles_held {runtime : ProxyRuntime P} (h : (id, runtime) ∈ pc.handles) :
    pc.holds = some id := by
  cases pc with
  | create call stage =>
    cases stage with
    | register | drop =>
      cases List.mem_singleton.mp h
      rfl
    | _ => cases h
  | reload j batch stage =>
    obtain ⟨r, hr, he⟩ := List.mem_map.mp h
    cases he
    cases stage with
    | commit | marked | gated | shutdown => rfl
    | _ => cases hr
  | teardown kind j stage =>
    cases stage with
    | shutdown runtimes =>
      obtain ⟨r, hr, he⟩ := List.mem_map.mp h
      cases he
      rfl
    | _ => cases h
  | _ => cases h

theorem Agreeing.handles {runtime : ProxyRuntime P} (ha : Agreeing Q call s pc)
    (h : (call.id, runtime) ∈ pc.handles) : Fits call s runtime := by
  cases pc with
  | create call' stage =>
    cases stage with
    | register | drop =>
      obtain ⟨-, rfl⟩ := Prod.mk.inj (List.mem_singleton.mp h)
      exact ha.2
    | _ => cases h
  | reload j batch stage =>
    obtain ⟨r, hr, he⟩ := List.mem_map.mp h
    cases he
    cases stage with
    | commit | marked | gated =>
      rw [List.mem_singleton.mp hr]
      exact ha.2.2
    | shutdown =>
      rw [List.mem_singleton.mp hr]
      exact ha
    | _ => cases hr
  | teardown kind j stage =>
    cases stage with
    | shutdown runtimes =>
      obtain ⟨r, hr, he⟩ := List.mem_map.mp h
      cases he
      exact ha runtime hr
    | _ => cases h
  | _ => cases h

/-- A generation that a runtime selects, or that one of its connections was given. -/
def Generates (c : RuntimeCell) (generation : ProxyGeneration) : Prop :=
  c.current = generation ∨ (∃ since, c.acceptor = .holding since generation) ∨
    ∃ connection ∈ c.connections, connection.generation = generation

theorem generation_derived [DecidableEq P] (hreach : Reach m.step State.init s)
    (h : Constant Q m call s) {r : RuntimeRef} (hr : Of s call.id r)
    {generation : ProxyGeneration} (hg : Generates (s.cells r) generation) :
    Derived Q m call generation.pair := by
  have hmarked : Marked (s.history call.id) (s.cells r) := by
    have := served_reach hreach r hr.1
    rwa [hr.2] at this
  rcases hg with rfl | ⟨since, hacc⟩ | ⟨connection, hmem, rfl⟩
  · exact h.current r hr
  · obtain ⟨k, hk, -⟩ := hmarked.holding since generation hacc
    exact h.history _ (List.mem_of_getElem? hk)
  · obtain ⟨k, hk, -⟩ := hmarked.connections connection hmem
    exact h.history _ (List.mem_of_getElem? hk)

/-- The credentials of a compiled policy and their fake values. -/
theorem compiled_credential {x : Crates} {config : SessionConfig} {seed : CredentialSeed}
    {host : Text} {rule : CompiledRule} {credential : CompiledCredential}
    (hr : (SessionPolicy.compile x config seed).rules.get host = some rule)
    (hc : credential ∈ rule.credentials) :
    ∃ source ∈ config.rules, ∃ injection ∈ source.inject,
      credential = compileCredential x config seed injection := by
  rcases SortedMap.mem_foldl_insert _ _ hr with h | ⟨source, hs, rfl⟩
  · simp [SortedMap.get_empty] at h
  · obtain ⟨injection, hi, rfl⟩ := List.mem_map.mp hc
    exact ⟨source, hs, injection, hi, rfl⟩

/-- The connections open on the runtimes of a session, retired or not. -/
def openConnections (s : State P) (id : SessionId) : Nat :=
  ∑ r ∈ Finset.range s.nextCell,
    if (s.cells r).runtimeId = id then (s.cells r).connections.length else 0

theorem connections_limited (hm : Metered m s) (h : Constant Q m call s) :
    openConnections s call.id ≤ m.maxConnectionsPerSession := by
  by_cases hsome : ∃ r, Of s call.id r
  · obtain ⟨r, hr⟩ := hsome
    have hle : openConnections s call.id ≤ served s (s.cells r).permits := by
      refine Finset.sum_le_sum (fun q hq => ?_)
      by_cases hid : (s.cells q).runtimeId = call.id
      · have hp := h.permits q r ⟨Finset.mem_range.mp hq, hid⟩ hr
        simp [hid, hp]
      · simp [hid]
    have hlaw := hm.law r hr.1
    omega
  · have hzero : openConnections s call.id = 0 := by
      refine Finset.sum_eq_zero (fun q hq => if_neg (fun hid => ?_))
      exact hsome ⟨q, Finset.mem_range.mp hq, hid⟩
    omega

/-- From its `create` on, whatever is reloaded, a session keeps its id, its
persistence, its configuration source, its seed and its semaphore; so its fake
credentials stay the same and one limit holds for all of its connections. -/
theorem session_constants [DecidableEq P] {m : SessionManager P} {call : CreateCall}
    {s0 s1 s : State P} (h0 : Reach m.step State.init s0)
    (hcreate : m.step (.create call) s0 = some s1) (hrun : Reach m.step s1 s) :
    (∀ session, s.sessions.get call.id = some session →
      session.info.id = call.id ∧ session.info.persistent = call.session.persistent ∧
        session.configuration.persistent = call.session.persistent ∧
        session.configSource = call.configSource) ∧
    (∀ t call' created, s.tasks t = .create call' (.done (.ok created)) → call'.id = call.id →
      created.info.id = call.id ∧ created.info.persistent = call.session.persistent ∧
        created.credentialSeedBase64url = call.credentialSeed.asBase64url m.crates) ∧
    (∀ t runtime, Has s (s.tasks t) call.id runtime →
      runtime.runtimeId = call.id ∧ runtime.credentialSeed = call.credentialSeed ∧
        ∀ r, Of s call.id r → (s.cells r).permits = runtime.permits) ∧
    (∀ s', Reach m.step s s' → ∀ r q, Of s call.id r → Of s' call.id q →
      (s'.cells q).permits = (s.cells r).permits) ∧
    (∀ r generation, Of s call.id r → Generates (s.cells r) generation →
      (∃ config : SessionConfig, config.persistent = call.session.persistent ∧
        generation.pair.policy = SessionPolicy.compile m.crates config call.credentialSeed) ∧
      ∀ host rule credential, generation.pair.policy.rules.get host = some rule →
        credential ∈ rule.credentials → credential.mode = .substitute →
        credential.fakeValue = some
          (deriveFakeCredential m.crates call.credentialSeed credential.injection.secret)) ∧
    openConnections s call.id ≤ m.maxConnectionsPerSession := by
  have hres : Resolves (fun _ _ => True) m := fun _ _ _ _ _ _ _ _ _ _ => trivial
  obtain ⟨hreach, hup⟩ := constant_reach trivial hres h0 hcreate hrun
  refine ⟨fun session hs => ?_, fun t call' created hpc hid => ?_, fun t runtime hh => ?_,
    fun s' hs' r q hr hq => ?_, fun r generation hr hg => ?_,
    connections_limited (metered_reach hreach) hup.1⟩
  · have hrec := hup.1.record session hs
    exact ⟨hrec.id, hrec.persistent, hrec.configuration, hrec.source⟩
  · obtain rfl := creation_only h0 hcreate hrun hpc hid
    have hans := (creations_reach hreach).answers t call' created hpc
    exact ⟨hans.id, hans.persistent, hans.seed⟩
  · have hfits : Fits call s runtime := by
      rcases hh with ⟨session, hs, hmem⟩ | hmem
      · exact (hup.1.record session hs).runtimes runtime hmem
      · exact (hup.2 t (handles_held hmem)).handles hmem
    obtain ⟨q, hq, hp⟩ := hfits.permits
    exact ⟨hfits.runtimeId, hfits.credentialSeed, fun r hr => (hup.1.permits r q hr hq).trans hp⟩
  · obtain ⟨-, hup'⟩ := constant_reach trivial hres h0 hcreate (hrun.trans hs')
    have he := reach_extends hs'
    have hr' : Of s' call.id r :=
      ⟨Nat.lt_of_lt_of_le hr.1 he.nextCell, (he.runtimeId r hr.1).trans hr.2⟩
    rw [hup'.1.permits q r hq hr', he.permits r hr.1]
  · obtain ⟨config, -, hp, hpolicy⟩ := generation_derived hreach hup.1 hr hg
    refine ⟨⟨config, hp, hpolicy⟩, fun host rule credential hget hmem hmode => ?_⟩
    rw [hpolicy] at hget
    obtain ⟨source, -, injection, -, rfl⟩ := compiled_credential hget hmem
    simp only [compileCredential] at hmode ⊢
    rw [if_pos hmode]

/-- A session after nine reloads, with ten connections on two listeners. -/
theorem session_constants_sample :
    ∃ s1 s, busyManager.step (.create busyCall) State.init = some s1 ∧
      Reach busyManager.step s1 s ∧ (s.cells 0).connections.length = 8 ∧
      (s.cells 1).connections.length = 2 ∧ openConnections s busyCall.id ≤ 16 ∧
      (∀ r q, Of s busyCall.id r → Of s busyCall.id q →
        (s.cells q).permits = (s.cells r).permits) ∧
      ∃ session, s.sessions.get busyCall.id = some session ∧ session.info.generation = 10 ∧
        session.info.persistent = busyCall.session.persistent ∧
        session.configSource = some "a.toml".toList := by
  have hrun : (runSteps busyManager.step busyRun State.init).any (fun s =>
      (s.cells 0).connections.length == 8 && (s.cells 1).connections.length == 2 &&
        (s.sessions.get busyCall.id).any (fun session => session.info.generation == 10)) =
      true := by decide +kernel
  obtain ⟨s, hs, htest⟩ := run_any hrun
  simp only [Bool.and_eq_true, beq_iff_eq, Option.any_eq_true] at htest
  obtain ⟨⟨height, htwo⟩, session, hget, hten⟩ := htest
  obtain ⟨s1, hs1, hlabels⟩ := Option.bind_eq_some_iff.mp (by exact hs)
  have hrest : Reach busyManager.step s1 s := reach_run .start hlabels
  obtain ⟨hrecord, -, -, hpermits, -, hlimit⟩ := session_constants .start hs1 hrest
  obtain ⟨-, hp, -, hsource⟩ := hrecord session hget
  exact ⟨s1, s, hs1, hrest, height, htwo, hlimit, hpermits s .start, session, hget, hten, hp,
    hsource⟩

end Proofs

end Baffle
