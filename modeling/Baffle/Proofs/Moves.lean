import Baffle.System

namespace Baffle.Proofs

variable {P : Type}

section

variable (m : SessionManager P) (t : TaskId) (s : State P)

/-- The state after `create` has started its runtime. -/
def created (call : CreateCall) (socketPath : P) : State P × ProxyRuntime P :=
  ({ s with
    gates := Function.update s.gates call.id 1
    permits := Function.update s.permits s.nextCell m.maxConnectionsPerSession
    history := Function.update s.history call.id
      [⟨SessionPolicy.compile m.crates call.session call.credentialSeed, call.secrets⟩] }
    : State P).startRuntime m.crates call.id call.session call.secrets call.credentialSeed
      socketPath s.nextCell 1

/-- The state after the finished retired runtimes of a session were dropped. -/
def reaped (id : SessionId) (session kept : ManagedSession P) : State P :=
  (s.dropRuntimes (SessionManager.finishedRuntimes s session)).setSession id kept

/-- The outcomes of a `create` call. -/
inductive CreateMove (call : CreateCall) :
    CreateStage P → State P → CreateStage P → Prop where
  | refused (error : SessionError) : CreateMove call .reserve s (.done (.error error))
  | reserved (ha : s.acceptingSessions = true)
      (hroom : s.sessions.size + s.provisioning.card < m.maxSessions)
      (hs : s.sessions.get call.id = none) (hp : call.id ∉ s.provisioning) :
      CreateMove call .reserve { s with provisioning := insert call.id s.provisioning } .start
  | failed (error : SessionError) : CreateMove call .start s (.release error)
  | started (socketPath : P) :
      CreateMove call .start (created m s call socketPath).1
        (.register (created m s call socketPath).2)
  | released (error : SessionError) :
      CreateMove call (.release error) { s with provisioning := s.provisioning.erase call.id }
        (.done (.error error))
  | late (runtime : ProxyRuntime P) (ha : s.acceptingSessions = false) :
      CreateMove call (.register runtime) { s with provisioning := s.provisioning.erase call.id }
        (.drop runtime)
  | registered (runtime : ProxyRuntime P) (ha : s.acceptingSessions = true) :
      CreateMove call (.register runtime)
        { (s.setCell runtime.cell (s.cells runtime.cell).install).setSession call.id
            (m.createdSession call runtime) with
          provisioning := s.provisioning.erase call.id
          activeSessions := s.activeSessions + 1 }
        (.done (.ok ⟨(m.createdSession call runtime).info, call.credentialSeed.asBase64url m.crates⟩))
  | dropped (runtime : ProxyRuntime P) :
      CreateMove call (.drop runtime) (s.dropRuntimes [runtime])
        (.done (.error .shuttingDown))

/-- The outcomes of a call inside `reload_locked`. -/
inductive ReloadMove (id : SessionId) : ReloadStage P → State P → ReloadStage P → Prop where
  | missing (hs : s.sessions.get id = none) {result : SessionReloadResult}
      (hr : result.status = .failed) : ReloadMove id .begin s (.returning result)
  | turnedDown (session : ManagedSession P) (hs : s.sessions.get id = some session)
      {result : SessionReloadResult} (hr : result.status = .failed) :
      ReloadMove id .begin
        (reaped s id session (SessionManager.unfinished s session).countDraining)
        (.returning result)
  | begun (session : ManagedSession P) (hs : s.sessions.get id = some session)
      (hstate : session.info.state = .running) (ha : s.acceptingSessions = true) (source : Text)
      (hsource : session.configSource = some source) :
      ReloadMove id .begin
        (reaped s id session (SessionManager.unfinished s session).countDraining)
        (.prepare ⟨source, session.secrets, session.info.socket, session.configuration.persistent⟩)
  | unprepared (source : ReloadSource) {result : SessionReloadResult}
      (hr : result.status = .failed) : ReloadMove id (.prepare source) s (.returning result)
  | prepared (source : ReloadSource) (target : ReloadTarget P) (store : SessionConfigStore)
      (files : SecretFiles) (read : SessionConfig)
      (hread : readSession m.crates store source.source = .ok read)
      (hc : target.candidate = { read with persistent := source.persistent })
      (hsecrets : (m.secretStore files).resolve target.candidate = .ok target.secrets)
      (hsocket : target.socket = source.socket) :
      ReloadMove id (.prepare source) s (.compare source target)
  | compareMissing (source : ReloadSource) (target : ReloadTarget P)
      (hs : s.sessions.get id = none) {result : SessionReloadResult}
      (hr : result.status = .failed) : ReloadMove id (.compare source target) s (.returning result)
  | unchanged (source : ReloadSource) (target : ReloadTarget P) (session : ManagedSession P)
      (hs : s.sessions.get id = some session)
      (hc : SessionManager.configurationUnchanged target.candidate session.configuration = true)
      (hv : hasSameValues source.secrets target.secrets = true) :
      ReloadMove id (.compare source target) s (.returning (.unchanged id target.socket))
  | samePath (source : ReloadSource) (target : ReloadTarget P)
      (hpath : target.path = m.paths.fromText source.socket) :
      ReloadMove id (.compare source target) s (.commitSame target)
  | otherPath (source : ReloadSource) (target : ReloadTarget P)
      (hpath : target.path ≠ m.paths.fromText source.socket) :
      ReloadMove id (.compare source target) s (.limits target)
  | sameFailed (target : ReloadTarget P) {result : SessionReloadResult}
      (hr : result.status = .failed) : ReloadMove id (.commitSame target) s (.returning result)
  | sameCommitted (target : ReloadTarget P) (ha : s.acceptingSessions = true)
      (session : ManagedSession P) (hs : s.sessions.get id = some session)
      (runtime : ProxyRuntime P) (hruntime : session.runtime = some runtime) (cell : RuntimeCell)
      (hcell : (s.cells runtime.cell).replaceGeneration
        ⟨SessionPolicy.compile m.crates target.candidate runtime.credentialSeed, target.secrets⟩
          = some cell) :
      ReloadMove id (.commitSame target)
        { (s.setCell runtime.cell cell).setSession id
            (SessionManager.refreshed target session) with
          history := Function.update s.history id (s.history id ++
            [⟨SessionPolicy.compile m.crates target.candidate runtime.credentialSeed,
              target.secrets⟩]) }
        (.returning (.reloaded id target.socket))
  | limitsRefused (target : ReloadTarget P) {result : SessionReloadResult}
      (hr : result.status = .failed) : ReloadMove id (.limits target) s (.returning result)
  | limited (target : ReloadTarget P) (session : ManagedSession P)
      (hs : s.sessions.get id = some session) {result : SessionReloadResult}
      (hr : result.status = .failed) :
      ReloadMove id (.limits target)
        (reaped s id session (SessionManager.unfinished s session)) (.returning result)
  | withinLimits (target : ReloadTarget P) (ha : s.acceptingSessions = true)
      (session : ManagedSession P) (hs : s.sessions.get id = some session)
      (runtime : ProxyRuntime P) (hruntime : session.runtime = some runtime)
      (hroom : (SessionManager.unfinished s session).retiredRuntimes.length < maxRetiredListeners) :
      ReloadMove id (.limits target)
        (reaped s id session (SessionManager.unfinished s session))
        (.start target ⟨runtime.permits, runtime.credentialSeed, session.listenerGeneration + 1⟩)
  | unbound (target : ReloadTarget P) (options : Replacement) {result : SessionReloadResult}
      (hr : result.status = .failed) : ReloadMove id (.start target options) s (.returning result)
  | replacing (target : ReloadTarget P) (options : Replacement) :
      ReloadMove id (.start target options)
        (s.startRuntime m.crates id target.candidate target.secrets options.credentialSeed
          target.path options.permits options.nextListenerGeneration).1
        (.commit target options
          (s.startRuntime m.crates id target.candidate target.secrets options.credentialSeed
            target.path options.permits options.nextListenerGeneration).2)
  | withdrawn (target : ReloadTarget P) (options : Replacement) (replacement : ProxyRuntime P)
      (hw : s.acceptingSessions = false ∨ s.sessions.get id = none ∨
        ∃ session, s.sessions.get id = some session ∧ session.info.state ≠ .running)
      {result : SessionReloadResult} (hr : result.status = .failed) :
      ReloadMove id (.commit target options replacement) s (.shutdown replacement result)
  | vacant (target : ReloadTarget P) (options : Replacement) (replacement : ProxyRuntime P)
      (session : ManagedSession P) (hs : s.sessions.get id = some session)
      (hstate : session.info.state = .running) (hruntime : session.runtime = none)
      {result : SessionReloadResult} (hr : result.status = .failed) :
      ReloadMove id (.commit target options replacement)
        ((s.dropRuntimes [replacement]).setSession id { session with runtime := none })
        (.returning result)
  | switched (target : ReloadTarget P) (options : Replacement) (replacement : ProxyRuntime P)
      (ha : s.acceptingSessions = true) (session : ManagedSession P)
      (hs : s.sessions.get id = some session) (hstate : session.info.state = .running)
      (oldRuntime : ProxyRuntime P) (hruntime : session.runtime = some oldRuntime) :
      ReloadMove id (.commit target options replacement)
        (((s.setCell replacement.cell (s.cells replacement.cell).install).setCell oldRuntime.cell
          ((s.setCell replacement.cell (s.cells replacement.cell).install).cells
            oldRuntime.cell).markRetiring).setSession id
            (m.switched target options replacement session))
        (.marked target options oldRuntime)
  | gateStored (target : ReloadTarget P) (options : Replacement) (oldRuntime : ProxyRuntime P) :
      ReloadMove id (.marked target options oldRuntime) (m.reloadGate id target options s)
        (.gated target options oldRuntime)
  | lost (target : ReloadTarget P) (options : Replacement) (oldRuntime : ProxyRuntime P)
      (hs : s.sessions.get id = none) :
      ReloadMove id (.gated target options oldRuntime)
        ((s.setCell oldRuntime.cell (s.cells oldRuntime.cell).retire).dropRuntimes [oldRuntime])
        (.returning (.reloaded id (m.paths.toStringLossy target.path)))
  | retired (target : ReloadTarget P) (options : Replacement) (oldRuntime : ProxyRuntime P)
      (session : ManagedSession P) (hs : s.sessions.get id = some session) :
      ReloadMove id (.gated target options oldRuntime)
        ((s.setCell oldRuntime.cell (s.cells oldRuntime.cell).retire).setSession id
          (SessionManager.withRetired oldRuntime session))
        (.returning (.reloaded id (m.paths.toStringLossy target.path)))
  | stopping (replacement : ProxyRuntime P) (result : SessionReloadResult) :
      ReloadMove id (.shutdown replacement result) (s.shutdownRuntimes [replacement])
        (.draining replacement.cell result)
  | drained (cell : RuntimeRef) (result : SessionReloadResult)
      (hf : (s.cells cell).phase = .finished) :
      ReloadMove id (.draining cell result) s (.returning result)

/-- The outcomes of `stop`, `remove` and `runtime_exit`. -/
inductive TeardownMove (kind : TeardownKind) (id : SessionId) :
    TeardownStage P → State P → TeardownStage P → Prop where
  | unknown (hs : s.sessions.get id = none) : TeardownMove kind id .lookup s (.done false)
  | found (hs : (s.sessions.get id).isSome = true) : TeardownMove kind id .lookup s .lock
  | locked (hfree : s.serialFree id = true) : TeardownMove kind id .lock s .claim
  | gone (hs : s.sessions.get id = none) : TeardownMove kind id .claim s (.done false)
  | forgotten (listenerGeneration : Nat) (hk : kind = .runtimeExit listenerGeneration)
      (session : ManagedSession P) (hs : s.sessions.get id = some session)
      (hne : session.listenerGeneration ≠ listenerGeneration) :
      TeardownMove kind id .claim
        ((s.dropRuntimes (session.retiredRuntimes.filter
            (fun runtime => runtime.listenerGeneration == listenerGeneration))).setSession id
          (session.retain
            (fun runtime => runtime.listenerGeneration != listenerGeneration)).countDraining)
        (.done true)
  | late (session : ManagedSession P) (hs : s.sessions.get id = some session)
      (hstate : session.info.state = .stopping) : TeardownMove kind id .claim s (.done true)
  | claimed (session : ManagedSession P) (hs : s.sessions.get id = some session)
      (hk : ∀ g, kind = .runtimeExit g → session.listenerGeneration = g)
      (hlive : session.info.state = .stopping → session.runtime ≠ none) :
      TeardownMove kind id .claim (SessionManager.takeRuntimes t id session s)
        (.shutdown session.runtimes)
  | stopping (runtimes : List (ProxyRuntime P)) :
      TeardownMove kind id (.shutdown runtimes) (s.shutdownRuntimes runtimes)
        (.draining (runtimes.map ProxyRuntime.cell))
  | drained (cells : List RuntimeRef) (hf : ∀ r ∈ cells, (s.cells r).phase = .finished) :
      TeardownMove kind id (.draining cells) s .finish
  | entryGone (hs : s.sessions.get id = none) : TeardownMove kind id .finish s (.done true)
  | removed (session : ManagedSession P) (hs : s.sessions.get id = some session) :
      TeardownMove kind id .finish (SessionManager.removeEntry t id session s) .decrement
  | counted : TeardownMove kind id .decrement (SessionManager.sessionStopped s) (.done true)

/-- The outcomes of `shutdown_all`. -/
inductive SweepMove : SweepStage P → State P → SweepStage P → Prop where
  | begun :
      SweepMove .begin { s with acceptingSessions := false, provisioning := ∅ }
        (.next s.sessions.keys [] 0)
  | stopping (runtimes : List (ProxyRuntime P)) (count : Nat) :
      SweepMove (.next [] runtimes count) (s.shutdownRuntimes runtimes)
        (.draining (runtimes.map ProxyRuntime.cell) count)
  | skipped (id : SessionId) (ids : List SessionId) (runtimes : List (ProxyRuntime P))
      (count : Nat) (hs : s.sessions.get id = none) :
      SweepMove (.next (id :: ids) runtimes count) s (.next ids runtimes count)
  | found (id : SessionId) (ids : List SessionId) (runtimes : List (ProxyRuntime P))
      (count : Nat) (hs : (s.sessions.get id).isSome = true) :
      SweepMove (.next (id :: ids) runtimes count) s (.lock id ids runtimes count)
  | locked (id : SessionId) (ids : List SessionId) (runtimes : List (ProxyRuntime P))
      (count : Nat) (hfree : s.serialFree id = true) :
      SweepMove (.lock id ids runtimes count) s (.claim id ids runtimes count)
  | gone (id : SessionId) (ids : List SessionId) (runtimes : List (ProxyRuntime P))
      (count : Nat) (hs : s.sessions.get id = none) :
      SweepMove (.claim id ids runtimes count) s (.next ids runtimes count)
  | claimed (id : SessionId) (ids : List SessionId) (runtimes : List (ProxyRuntime P))
      (count : Nat) (session : ManagedSession P) (hs : s.sessions.get id = some session) :
      SweepMove (.claim id ids runtimes count) (SessionManager.takeRuntimes t id session s)
        (.next ids (runtimes ++ session.runtimes) (count + 1))
  | drained (cells : List RuntimeRef) (count : Nat)
      (hf : ∀ r ∈ cells, (s.cells r).phase = .finished) :
      SweepMove (.draining cells count) s (.clear count)
  | cleared (count : Nat) :
      SweepMove (.clear count) (SessionManager.sweepClear t count s).1 (.decrement count)
  | counted (count : Nat) :
      SweepMove (.decrement (count + 1)) (SessionManager.sessionStopped s) (.decrement count)
  | ended : SweepMove (.decrement 0) s .done

/-- The outcomes of any call. -/
inductive Move : Pc P → State P → Pc P → Prop where
  | create (call : CreateCall) {stage stage' : CreateStage P} {s' : State P}
      (h : CreateMove m s call stage s' stage') :
      Move (.create call stage) s' (.create call stage')
  | unknown (id : SessionId) (batch : Option Batch) (hs : s.sessions.get id = none) :
      Move (.reload id batch .lookup) s (SessionManager.reloadLookup id batch s)
  | found (id : SessionId) (batch : Option Batch) (hs : (s.sessions.get id).isSome = true) :
      Move (.reload id batch .lookup) s (.reload id batch .lock)
  | locked (id : SessionId) (batch : Option Batch) (hfree : s.serialFree id = true) :
      Move (.reload id batch .lock) s (.reload id batch .begin)
  | reload (id : SessionId) (batch : Option Batch) {stage stage' : ReloadStage P} {s' : State P}
      (h : ReloadMove m s id stage s' stage') :
      Move (.reload id batch stage) s' (.reload id batch stage')
  | reloadReturned (id : SessionId) (batch : Option Batch) (result : SessionReloadResult) :
      Move (.reload id batch (.returning result)) s (SessionManager.afterReload batch result)
  | reloadAll : Move .reloadAll s (SessionManager.reloadAllSnapshot s)
  | teardown (kind : TeardownKind) (id : SessionId) {stage stage' : TeardownStage P}
      {s' : State P} (h : TeardownMove t s kind id stage s' stage') :
      Move (.teardown kind id stage) s' (.teardown kind id stage')
  | sweep {stage stage' : SweepStage P} {s' : State P} (h : SweepMove t s stage s' stage') :
      Move (.shutdownAll stage) s' (.shutdownAll stage')
  | rejected : Move .rejectNewSessions { s with acceptingSessions := false } .returned
  | listed (answer : List SessionInfo) :
      Move .list (SessionManager.listSessions s).1 (.listAnswer answer)

end

variable {m : SessionManager P} {t : TaskId} {s s' : State P}

theorem under_lock_some {r r' : State P × Pc P} (h : underLock s r = some r') : r' = r := by
  unfold underLock at h
  split at h
  · exact (Option.some.inj h).symm
  · cases h

theorem contains_false {j : SessionId} (h : ¬s.sessions.contains j = true) :
    s.sessions.get j = none := by
  simpa [SortedMap.contains] using h

theorem advance_create {call : CreateCall} {env : Environment P} {stage : CreateStage P} {pc : Pc P}
    (h : m.advanceCreate call env s stage = some (s', pc)) :
    ∃ stage', pc = .create call stage' ∧ CreateMove m s call stage s' stage' := by
  cases stage with
  | reserve =>
    have h := under_lock_some h
    simp only [inCreate, SessionManager.createReserve] at h
    split at h
    · cases h
      exact ⟨_, rfl, .refused _⟩
    · rename_i ha
      split at h
      · cases h
        exact ⟨_, rfl, .refused _⟩
      · rename_i hroom
        split at h
        · cases h
          exact ⟨_, rfl, .refused _⟩
        · rename_i hid
          cases h
          simp only [Bool.or_eq_true, decide_eq_true_eq, not_or] at hid
          exact ⟨_, rfl, .reserved (by simpa using ha) (by omega) (contains_false hid.1) hid.2⟩
  | start =>
    simp only [SessionManager.advanceCreate, inCreate, SessionManager.createStart,
      Option.some.injEq] at h
    split at h
    · cases h
      exact ⟨_, rfl, .failed _⟩
    · rename_i socketPath _
      split at h
      · cases h
        exact ⟨_, rfl, .failed _⟩
      · cases h
        exact ⟨_, rfl, .started socketPath⟩
  | release error =>
    have h := under_lock_some h
    cases h
    exact ⟨_, rfl, .released error⟩
  | register runtime =>
    have h := under_lock_some h
    simp only [inCreate, SessionManager.createRegister] at h
    split at h
    · rename_i ha
      cases h
      exact ⟨_, rfl, .late runtime (by simpa using ha)⟩
    · rename_i ha
      cases h
      exact ⟨_, rfl, .registered runtime (by simpa using ha)⟩
  | drop runtime =>
    cases h
    exact ⟨_, rfl, .dropped runtime⟩
  | done result => cases h

/-- The claim on a session that is still there, and that is not the exit of another listener. -/
theorem claim_move {kind : TeardownKind} {id : SessionId} {session : ManagedSession P}
    (hs : s.sessions.get id = some session)
    (hk : ∀ g, kind = .runtimeExit g → session.listenerGeneration = g) :
    TeardownMove t s kind id .claim
      (if SessionManager.alreadyStopping kind session then (s, TeardownStage.done true)
        else (SessionManager.takeRuntimes t id session s, .shutdown session.runtimes)).1
      (if SessionManager.alreadyStopping kind session then (s, TeardownStage.done true)
        else (SessionManager.takeRuntimes t id session s, .shutdown session.runtimes)).2 := by
  split
  · rename_i ha
    refine .late session hs ?_
    cases kind <;> simp only [SessionManager.alreadyStopping, Bool.and_eq_true, beq_iff_eq] at ha
    · exact ha
    · exact ha.1
    · exact ha.1
  · rename_i ha
    refine .claimed session hs hk ?_
    rintro hstate hnone
    cases kind <;> simp [SessionManager.alreadyStopping, hstate, hnone] at ha

theorem teardown_claim_move {kind : TeardownKind} {id : SessionId} :
    TeardownMove t s kind id .claim (SessionManager.teardownClaim t kind id s).1
      (SessionManager.teardownClaim t kind id s).2 := by
  unfold SessionManager.teardownClaim
  cases hs : s.sessions.get id with
  | none => exact .gone hs
  | some session =>
    cases kind with
    | stop => exact claim_move hs (by simp)
    | remove => exact claim_move hs (by simp)
    | runtimeExit g =>
      by_cases hg : session.listenerGeneration = g
      · simp only [hg, ne_eq, not_true_eq_false, ↓reduceIte]
        exact claim_move hs (by simp [hg])
      · simp only [ne_eq, hg, not_false_eq_true, ↓reduceIte]
        exact .forgotten g rfl session hs hg

theorem advance_teardown {kind : TeardownKind} {id : SessionId} {stage : TeardownStage P}
    {pc : Pc P} (h : SessionManager.advanceTeardown t kind id s stage = some (s', pc)) :
    ∃ stage', pc = .teardown kind id stage' ∧ TeardownMove t s kind id stage s' stage' := by
  cases stage with
  | lookup =>
    have h := under_lock_some h
    cases h
    split
    · rename_i hs
      exact ⟨_, rfl, .found hs⟩
    · rename_i hs
      exact ⟨_, rfl, .unknown (contains_false hs)⟩
  | lock =>
    simp only [SessionManager.advanceTeardown] at h
    split at h
    · rename_i hfree
      cases h
      exact ⟨_, rfl, .locked hfree⟩
    · cases h
  | claim =>
    have h := under_lock_some h
    obtain ⟨rfl, rfl⟩ := Prod.mk.inj h
    exact ⟨_, rfl, teardown_claim_move⟩
  | shutdown runtimes =>
    cases h
    exact ⟨_, rfl, .stopping runtimes⟩
  | draining cells =>
    simp only [SessionManager.advanceTeardown] at h
    split at h
    · rename_i hf
      cases h
      exact ⟨_, rfl, .drained cells (by simpa [allFinished] using hf)⟩
    · cases h
  | finish =>
    have h := under_lock_some h
    simp only [inTeardown, SessionManager.teardownFinish] at h
    split at h
    · rename_i hs
      cases h
      exact ⟨_, rfl, .entryGone hs⟩
    · rename_i session hs
      cases h
      exact ⟨_, rfl, .removed session hs⟩
  | decrement =>
    cases h
    exact ⟨_, rfl, .counted⟩
  | done found => cases h

theorem advance_sweep {stage : SweepStage P} {pc : Pc P}
    (h : SessionManager.advanceSweep t s stage = some (s', pc)) :
    ∃ stage', pc = .shutdownAll stage' ∧ SweepMove t s stage s' stage' := by
  cases stage with
  | begin =>
    have h := under_lock_some h
    cases h
    exact ⟨_, rfl, .begun⟩
  | next ids runtimes count =>
    have h := under_lock_some h
    cases ids with
    | nil =>
      cases h
      exact ⟨_, rfl, .stopping runtimes count⟩
    | cons id ids =>
      simp only [inSweep, SessionManager.sweepNext] at h
      split at h
      · rename_i hs
        cases h
        exact ⟨_, rfl, .found id ids runtimes count hs⟩
      · rename_i hs
        cases h
        exact ⟨_, rfl, .skipped id ids runtimes count (contains_false hs)⟩
  | lock id ids runtimes count =>
    simp only [SessionManager.advanceSweep] at h
    split at h
    · rename_i hfree
      cases h
      exact ⟨_, rfl, .locked id ids runtimes count hfree⟩
    · cases h
  | claim id ids runtimes count =>
    have h := under_lock_some h
    simp only [inSweep, SessionManager.sweepClaim] at h
    split at h
    · rename_i hs
      cases h
      exact ⟨_, rfl, .gone id ids runtimes count hs⟩
    · rename_i session hs
      cases h
      exact ⟨_, rfl, .claimed id ids runtimes count session hs⟩
  | draining cells count =>
    simp only [SessionManager.advanceSweep] at h
    split at h
    · rename_i hf
      cases h
      exact ⟨_, rfl, .drained cells count (by simpa [allFinished] using hf)⟩
    · cases h
  | clear count =>
    have h := under_lock_some h
    cases h
    exact ⟨_, rfl, .cleared count⟩
  | decrement count =>
    cases count with
    | zero =>
      cases h
      exact ⟨_, rfl, .ended⟩
    | succ count =>
      cases h
      exact ⟨_, rfl, .counted count⟩
  | done => cases h

theorem reload_begin_move {id : SessionId} :
    ReloadMove m s id .begin (SessionManager.reloadBegin id s).1
      (SessionManager.reloadBegin id s).2 := by
  unfold SessionManager.reloadBegin
  cases hs : s.sessions.get id with
  | none => exact .missing hs rfl
  | some session =>
    dsimp only
    split
    · exact .turnedDown session hs rfl
    · rename_i hrun
      simp only [ne_eq, not_or, not_not, Bool.not_eq_false] at hrun
      cases hsource : (SessionManager.unfinished s session).countDraining.configSource with
      | none => exact .turnedDown session hs rfl
      | some source => exact .begun session hs hrun.1 hrun.2 source hsource

theorem reload_prepare_move {id : SessionId} {source : ReloadSource} {env : Environment P} :
    ReloadMove m s id (.prepare source) s (m.reloadPrepare id source env) := by
  unfold SessionManager.reloadPrepare
  split
  · exact .unprepared source rfl
  · rename_i store _
    split
    · exact .unprepared source rfl
    · rename_i read hread
      dsimp only
      split
      · exact .unprepared source rfl
      · rename_i secrets hsecrets
        split
        · exact .unprepared source rfl
        · exact .prepared source _ store env.secretFiles read hread rfl hsecrets rfl

theorem reload_compare_move [DecidableEq P] {id : SessionId} {source : ReloadSource}
    {target : ReloadTarget P} :
    ReloadMove m s id (.compare source target) s (m.reloadCompare id source target s) := by
  unfold SessionManager.reloadCompare
  cases hs : s.sessions.get id with
  | none => exact .compareMissing source target hs rfl
  | some session =>
    dsimp only
    split
    · rename_i hu
      exact .unchanged source target session hs hu.1 hu.2.2
    · split
      · rename_i hpath
        exact .samePath source target hpath
      · rename_i hpath
        exact .otherPath source target hpath

theorem reload_same_move {id : SessionId} {target : ReloadTarget P} :
    ReloadMove m s id (.commitSame target) (m.reloadCommitSame id target s).1
      (m.reloadCommitSame id target s).2 := by
  unfold SessionManager.reloadCommitSame
  split
  · exact .sameFailed target rfl
  · rename_i ha
    cases hs : s.sessions.get id with
    | none => exact .sameFailed target rfl
    | some session =>
      cases hruntime : session.runtime with
      | none =>
        simp only [hruntime]
        exact .sameFailed target rfl
      | some runtime =>
        simp only [hruntime]
        split
        · exact .sameFailed target rfl
        · rename_i cell hcell
          exact .sameCommitted target (by simpa using ha) session hs runtime hruntime cell hcell

theorem reload_limits_move {id : SessionId} {target : ReloadTarget P} :
    ReloadMove m s id (.limits target) (SessionManager.reloadLimits id target s).1
      (SessionManager.reloadLimits id target s).2 := by
  unfold SessionManager.reloadLimits
  split
  · exact .limitsRefused target rfl
  · rename_i ha
    cases hs : s.sessions.get id with
    | none => exact .limitsRefused target rfl
    | some session =>
      have hr : (SessionManager.unfinished s session).runtime = session.runtime := rfl
      cases hruntime : session.runtime with
      | none =>
        simp only [hr, hruntime]
        exact .limited target session hs rfl
      | some runtime =>
        simp only [hr, hruntime]
        split
        · exact .limited target session hs rfl
        · rename_i next hnext
          split
          · rename_i hroom
            unfold checkedSucc at hnext
            split at hnext
            · rw [← Option.some.inj hnext]
              exact .withinLimits target (by simpa using ha) session hs runtime hruntime hroom
            · cases hnext
          · exact .limited target session hs rfl

theorem reload_commit_move {id : SessionId} {target : ReloadTarget P} {options : Replacement}
    {replacement : ProxyRuntime P} :
    ReloadMove m s id (.commit target options replacement)
      (m.reloadCommit id target options replacement s).1
      (m.reloadCommit id target options replacement s).2 := by
  unfold SessionManager.reloadCommit
  split
  · rename_i ha
    exact .withdrawn target options replacement (Or.inl (by simpa using ha)) rfl
  · rename_i ha
    cases hs : s.sessions.get id with
    | none => exact .withdrawn target options replacement (Or.inr (Or.inl hs)) rfl
    | some session =>
      dsimp only
      split
      · rename_i hstate
        exact .withdrawn target options replacement (Or.inr (Or.inr ⟨session, hs, hstate⟩)) rfl
      · rename_i hstate
        simp only [ne_eq, not_not] at hstate
        cases hruntime : session.runtime with
        | none => exact .vacant target options replacement session hs hstate hruntime rfl
        | some oldRuntime =>
          exact .switched target options replacement (by simpa using ha) session hs hstate
            oldRuntime hruntime

theorem reload_retire_move {id : SessionId} {target : ReloadTarget P} {options : Replacement}
    {oldRuntime : ProxyRuntime P} :
    ReloadMove m s id (.gated target options oldRuntime)
      (m.reloadRetire id target oldRuntime s).1 (m.reloadRetire id target oldRuntime s).2 := by
  unfold SessionManager.reloadRetire
  dsimp only
  cases hs : s.sessions.get id with
  | none =>
    have hs' : (s.setCell oldRuntime.cell (s.cells oldRuntime.cell).retire).sessions.get id = none :=
      hs
    simp only [hs']
    exact .lost target options oldRuntime hs
  | some session =>
    have hs' : (s.setCell oldRuntime.cell (s.cells oldRuntime.cell).retire).sessions.get id
        = some session := hs
    simp only [hs']
    exact .retired target options oldRuntime session hs

theorem advance_reload [DecidableEq P] {id : SessionId} {batch : Option Batch}
    {env : Environment P} {stage : ReloadStage P} {pc : Pc P}
    (h : m.advanceReload id batch env s stage = some (s', pc)) :
    Move m t s (.reload id batch stage) s' pc := by
  cases stage with
  | lookup =>
    have h := under_lock_some h
    cases h
    cases hs : s.sessions.contains id with
    | true =>
      unfold SessionManager.reloadLookup
      rw [if_pos hs]
      exact .found id batch hs
    | false => exact .unknown id batch (contains_false (by simp [hs]))
  | lock =>
    simp only [SessionManager.advanceReload] at h
    split at h
    · rename_i hfree
      cases h
      exact .locked id batch hfree
    · cases h
  | begin =>
    obtain ⟨rfl, rfl⟩ := Prod.mk.inj (under_lock_some h)
    exact .reload id batch reload_begin_move
  | prepare source =>
    cases h
    exact .reload id batch reload_prepare_move
  | compare source target =>
    obtain ⟨rfl, rfl⟩ := Prod.mk.inj (under_lock_some h)
    exact .reload id batch reload_compare_move
  | commitSame target =>
    obtain ⟨rfl, rfl⟩ := Prod.mk.inj (under_lock_some h)
    exact .reload id batch reload_same_move
  | limits target =>
    obtain ⟨rfl, rfl⟩ := Prod.mk.inj (under_lock_some h)
    exact .reload id batch reload_limits_move
  | start target options =>
    simp only [SessionManager.advanceReload, inReload, SessionManager.reloadStart,
      Option.some.injEq] at h
    split at h
    · cases h
      exact .reload id batch (.unbound target options rfl)
    · cases h
      exact .reload id batch (.replacing target options)
  | commit target options replacement =>
    obtain ⟨rfl, rfl⟩ := Prod.mk.inj (under_lock_some h)
    exact .reload id batch reload_commit_move
  | marked target options oldRuntime =>
    cases h
    exact .reload id batch (.gateStored target options oldRuntime)
  | gated target options oldRuntime =>
    cases h
    exact .reload id batch reload_retire_move
  | shutdown replacement result =>
    cases h
    exact .reload id batch (.stopping replacement result)
  | draining cell result =>
    simp only [SessionManager.advanceReload] at h
    split at h
    · rename_i hf
      cases h
      exact .reload id batch (.drained cell result (by simpa [allFinished] using hf))
    · cases h
  | returning result =>
    cases h
    exact .reloadReturned id batch result

/-- Every move of a call is one of the outcomes. -/
theorem advance_move [DecidableEq P] {env : Environment P} {pc pc' : Pc P}
    (h : m.advance t env s pc = some (s', pc')) : Move m t s pc s' pc' := by
  cases pc with
  | create call stage =>
    obtain ⟨stage', rfl, hm⟩ := advance_create h
    exact .create call hm
  | reload id batch stage => exact advance_reload h
  | reloadAll =>
    obtain ⟨rfl, rfl⟩ := Prod.mk.inj (under_lock_some h)
    exact .reloadAll
  | teardown kind id stage =>
    obtain ⟨stage', rfl, hm⟩ := advance_teardown h
    exact .teardown kind id hm
  | shutdownAll stage =>
    obtain ⟨stage', rfl, hm⟩ := advance_sweep h
    exact .sweep hm
  | rejectNewSessions =>
    obtain ⟨rfl, rfl⟩ := Prod.mk.inj (under_lock_some h)
    exact .rejected
  | list =>
    obtain ⟨rfl, rfl⟩ := Prod.mk.inj (under_lock_some h)
    exact .listed _
  | absent | reloadAnswer _ | reloadNotFound | listAnswer _ | returned | aborted => cases h

/-- The outcomes of a move of a runtime, with the value of its gate and the
number of committed pairs of its session. -/
inductive CellMove (gate now : Nat) (c : RuntimeCell) :
    RuntimeCell → List ProxyRuntimeEvent → Prop where
  | accepted (hp : c.phase = .serving) (ha : c.acceptor = .idle) :
      CellMove gate now c { c with acceptor := .accepted now } []
  | shutOut (since : Nat) (ha : c.acceptor = .accepted since) (hg : gate ≠ c.listenerGeneration) :
      CellMove gate now c { c with acceptor := .idle } []
  | admitted (since : Nat) (ha : c.acceptor = .accepted since) (hg : gate = c.listenerGeneration) :
      CellMove gate now c { c with acceptor := .admitted since } []
  | borrowed (since : Nat) (ha : c.acceptor = .admitted since) :
      CellMove gate now c { c with acceptor := .holding since c.current } []
  | dispatched (since : Nat) (generation : ProxyGeneration)
      (ha : c.acceptor = .holding since generation) :
      CellMove gate now c
        { c with acceptor := .idle, connections := ⟨generation, since, now⟩ :: c.connections } []
  | turnedAway (since : Nat) (generation : ProxyGeneration)
      (ha : c.acceptor = .holding since generation) :
      CellMove gate now c { c with acceptor := .idle } []
  | closed (i : Nat) : CellMove gate now c { c with connections := c.connections.eraseIdx i } []
  | left (hp : c.phase = .serving) : CellMove gate now c { c with phase := .draining } []
  | ended (hp : c.phase = .serving ∨ c.phase = .draining) :
      CellMove gate now c { c with phase := .ended, connections := [] } []
  | checked (hp : c.phase = .ended) : CellMove gate now c { c with phase := .checked c.retired } []
  | reporting (retired : Bool) (hp : c.phase = .checked retired)
      (hr : retired = true ∨ gate = c.listenerGeneration) :
      CellMove gate now c { c with phase := .sending retired } []
  | silent (hp : c.phase = .checked false) (hg : gate ≠ c.listenerGeneration) :
      CellMove gate now c { c with phase := .exiting } []
  | reported (retired : Bool) (hp : c.phase = .sending retired) :
      CellMove gate now c { c with phase := .exiting }
        [⟨c.runtimeId, c.listenerGeneration, retired⟩]
  | finished (hp : c.phase = .exiting) : CellMove gate now c { c with phase := .finished } []

/-- The state after a move of a runtime. -/
def cellMoved (s : State P) (r : RuntimeRef) (cell : RuntimeCell) (permits : SemaphoreRef → Nat)
    (sent : List ProxyRuntimeEvent) : State P :=
  { s.setCell r cell with permits, events := s.events ++ sent }

theorem on_cell_some {u : State P} {r : RuntimeRef} {o : Option RuntimeCell}
    (h : u.onCell r o = some s') : ∃ cell, o = some cell ∧ s' = u.setCell r cell := by
  obtain ⟨cell, ho, hs⟩ := Option.map_eq_some_iff.mp h
  exact ⟨cell, ho, hs.symm⟩

theorem cell_moved_silent {r : RuntimeRef} {cell : RuntimeCell} {permits : SemaphoreRef → Nat} :
    ({ s with permits } : State P).setCell r cell = cellMoved s r cell permits [] := by
  simp [cellMoved, State.setCell]

theorem runtime_move {r : RuntimeRef} {move : RuntimeMove} (h : s.runtimeMove r move = some s') :
    ∃ cell permits sent, s' = cellMoved s r cell permits sent ∧
      CellMove (s.gates (s.cells r).runtimeId) (s.history (s.cells r).runtimeId).length
        (s.cells r) cell sent := by
  cases move with
  | accept =>
    obtain ⟨cell, hc, rfl⟩ := on_cell_some h
    refine ⟨cell, s.permits, [], cell_moved_silent, ?_⟩
    unfold RuntimeCell.accept at hc
    split at hc
    · rename_i hp
      rw [← Option.some.inj hc]
      exact .accepted hp.1 hp.2
    · cases hc
  | checkGate =>
    obtain ⟨cell, hc, rfl⟩ := on_cell_some h
    refine ⟨cell, s.permits, [], cell_moved_silent, ?_⟩
    unfold RuntimeCell.checkGate at hc
    split at hc
    · rename_i since ha
      split at hc
      · rename_i hg
        rw [← Option.some.inj hc]
        exact .shutOut since ha hg
      · rename_i hg
        rw [← Option.some.inj hc]
        exact .admitted since ha (by simpa using hg)
    · cases hc
  | borrow =>
    obtain ⟨cell, hc, rfl⟩ := on_cell_some h
    refine ⟨cell, s.permits, [], cell_moved_silent, ?_⟩
    unfold RuntimeCell.borrow at hc
    split at hc
    · rename_i since ha
      rw [← Option.some.inj hc]
      exact .borrowed since ha
    · cases hc
  | dispatch =>
    simp only [State.runtimeMove] at h
    split at h
    · obtain ⟨cell, hc, rfl⟩ := on_cell_some h
      refine ⟨cell, _, [], cell_moved_silent, ?_⟩
      unfold RuntimeCell.dispatch at hc
      split at hc
      · rename_i since generation ha
        rw [← Option.some.inj hc]
        exact .dispatched since generation ha
      · cases hc
    · cases h
  | turnAway =>
    simp only [State.runtimeMove] at h
    split at h
    · obtain ⟨cell, hc, rfl⟩ := on_cell_some h
      refine ⟨cell, s.permits, [], cell_moved_silent, ?_⟩
      unfold RuntimeCell.turnAway at hc
      split at hc
      · rename_i since generation ha
        rw [← Option.some.inj hc]
        exact .turnedAway since generation ha
      · cases hc
    · cases h
  | close i =>
    obtain ⟨cell, hc, rfl⟩ := on_cell_some h
    refine ⟨cell, _, [], cell_moved_silent, ?_⟩
    unfold RuntimeCell.close at hc
    split at hc
    · rw [← Option.some.inj hc]
      exact .closed i
    · cases hc
  | leave =>
    obtain ⟨cell, hc, rfl⟩ := on_cell_some h
    refine ⟨cell, s.permits, [], cell_moved_silent, ?_⟩
    unfold RuntimeCell.leave at hc
    split at hc
    · rename_i hp
      rw [← Option.some.inj hc]
      exact .left hp.1
    · cases hc
  | fail =>
    obtain ⟨cell, hc, rfl⟩ := on_cell_some h
    refine ⟨cell, _, [], cell_moved_silent, ?_⟩
    unfold RuntimeCell.fail at hc
    split at hc
    · rename_i hp
      rw [← Option.some.inj hc]
      exact .ended (Or.inl hp.1)
    · cases hc
  | drained =>
    obtain ⟨cell, hc, rfl⟩ := on_cell_some h
    refine ⟨cell, s.permits, [], cell_moved_silent, ?_⟩
    unfold RuntimeCell.drained at hc
    split at hc
    · rename_i hp
      rw [← Option.some.inj hc]
      have hend : CellMove (s.gates (s.cells r).runtimeId)
          (s.history (s.cells r).runtimeId).length (s.cells r)
          { s.cells r with phase := .ended, connections := [] } [] := .ended (Or.inr hp.1)
      rwa [← hp.2] at hend
    · cases hc
  | aborts =>
    obtain ⟨cell, hc, rfl⟩ := on_cell_some h
    refine ⟨cell, _, [], cell_moved_silent, ?_⟩
    unfold RuntimeCell.aborts at hc
    split at hc
    · rename_i hp
      rw [← Option.some.inj hc]
      exact .ended hp.2.1
    · cases hc
  | readRetired =>
    obtain ⟨cell, hc, rfl⟩ := on_cell_some h
    refine ⟨cell, s.permits, [], cell_moved_silent, ?_⟩
    unfold RuntimeCell.readRetired at hc
    split at hc
    · rename_i hp
      rw [← Option.some.inj hc]
      exact .checked hp
    · cases hc
  | decideExit =>
    obtain ⟨cell, hc, rfl⟩ := on_cell_some h
    refine ⟨cell, s.permits, [], cell_moved_silent, ?_⟩
    unfold RuntimeCell.decideExit at hc
    split at hc
    · rename_i retired hp
      split at hc
      · rename_i hr
        rw [← Option.some.inj hc]
        exact .reporting retired hp (by simpa using hr)
      · rename_i hr
        simp only [Bool.or_eq_true, beq_iff_eq, not_or, Bool.not_eq_true] at hr
        rw [← Option.some.inj hc]
        exact .silent (hr.1 ▸ hp) hr.2
    · cases hc
  | sendExit =>
    obtain ⟨⟨cell, event⟩, hc, rfl⟩ := Option.map_eq_some_iff.mp h
    refine ⟨cell, s.permits, [event], rfl, ?_⟩
    unfold RuntimeCell.sendExit at hc
    split at hc
    · rename_i retired hp
      obtain ⟨rfl, rfl⟩ := Prod.mk.inj (Option.some.inj hc)
      exact .reported retired hp
    · cases hc
  | finish =>
    obtain ⟨cell, hc, rfl⟩ := on_cell_some h
    refine ⟨cell, s.permits, [], cell_moved_silent, ?_⟩
    unfold RuntimeCell.finish at hc
    split at hc
    · rename_i hp
      rw [← Option.some.inj hc]
      exact .finished hp
    · cases hc

/-- The connections of a runtime and the free permits of its semaphore add up to
what they were before. -/
structure Balanced (s : State P) (r : RuntimeRef) (s' : State P) : Prop where
  own : s'.permits (s.cells r).permits + (s'.cells r).connections.length
    = s.permits (s.cells r).permits + (s.cells r).connections.length
  others : ∀ q, q ≠ (s.cells r).permits → s'.permits q = s.permits q

theorem balanced_quiet {r : RuntimeRef} {o : Option RuntimeCell} (h : s.onCell r o = some s')
    (ho : ∀ c, o = some c → c.connections = (s.cells r).connections) : Balanced s r s' := by
  obtain ⟨cell, hc, rfl⟩ := on_cell_some h
  refine ⟨?_, fun _ _ => rfl⟩
  simp [State.setCell, ho cell hc]

/-- All connections of the runtime end. -/
theorem balanced_ended {r : RuntimeRef} {o : Option RuntimeCell}
    (h : (s.addPermits (s.cells r).permits (s.cells r).connections.length).onCell r o = some s')
    (ho : ∀ c, o = some c → c.connections = []) : Balanced s r s' := by
  obtain ⟨cell, hc, rfl⟩ := on_cell_some h
  refine ⟨?_, fun q hq => Function.update_of_ne hq _ _⟩
  simp [State.setCell, State.addPermits, ho cell hc]

theorem runtime_balanced {r : RuntimeRef} {move : RuntimeMove}
    (h : s.runtimeMove r move = some s') : Balanced s r s' := by
  cases move with
  | accept | checkGate | borrow | leave | drained | readRetired | decideExit | finish =>
    refine balanced_quiet h (fun c hc => ?_)
    simp only [RuntimeCell.accept, RuntimeCell.checkGate, RuntimeCell.borrow, RuntimeCell.leave,
      RuntimeCell.drained, RuntimeCell.readRetired, RuntimeCell.decideExit,
      RuntimeCell.finish] at hc
    split at hc <;> grind
  | turnAway =>
    simp only [State.runtimeMove] at h
    split at h
    · refine balanced_quiet h (fun c hc => ?_)
      simp only [RuntimeCell.turnAway] at hc
      split at hc <;> grind
    · cases h
  | dispatch =>
    simp only [State.runtimeMove] at h
    split at h
    · rename_i hpos
      obtain ⟨cell, hc, rfl⟩ := on_cell_some h
      refine ⟨?_, fun q hq => Function.update_of_ne hq _ _⟩
      simp only [RuntimeCell.dispatch] at hc
      split at hc
      · rw [← Option.some.inj hc]
        simp only [State.setCell, State.takePermit, Function.update_self, List.length_cons]
        omega
      · cases hc
    · cases h
  | close i =>
    obtain ⟨cell, hc, rfl⟩ := on_cell_some h
    refine ⟨?_, fun q hq => Function.update_of_ne hq _ _⟩
    simp only [RuntimeCell.close] at hc
    split at hc
    · rename_i hi
      rw [← Option.some.inj hc]
      simp only [State.setCell, State.addPermits, Function.update_self, List.length_eraseIdx, hi,
        ↓reduceIte]
      omega
    · cases hc
  | fail =>
    refine balanced_ended h (fun c hc => ?_)
    simp only [RuntimeCell.fail] at hc
    split at hc <;> grind
  | aborts =>
    refine balanced_ended h (fun c hc => ?_)
    simp only [RuntimeCell.aborts] at hc
    split at hc <;> grind
  | sendExit =>
    obtain ⟨⟨cell, event⟩, hc, rfl⟩ := Option.map_eq_some_iff.mp h
    refine ⟨?_, fun _ _ => rfl⟩
    simp only [RuntimeCell.sendExit] at hc
    split at hc
    · obtain ⟨rfl, rfl⟩ := Prod.mk.inj (Option.some.inj hc)
      simp [State.setCell]
    · cases hc

/-- The calls that a control connection starts, other than `create`. -/
inductive Initial : Pc P → Prop where
  | reload (id : SessionId) : Initial (.reload id none .lookup)
  | reloadAll : Initial .reloadAll
  | stop (id : SessionId) : Initial (.teardown .stop id .lookup)
  | remove (id : SessionId) : Initial (.teardown .remove id .lookup)
  | list : Initial .list
  | rejectNewSessions : Initial .rejectNewSessions
  | shutdownAll : Initial (.shutdownAll .begin)

/-- The outcomes of a step. -/
inductive Outcome (m : SessionManager P) (s : State P) : State P → Prop where
  | create (call : CreateCall) (hid : call.id ∉ s.used) :
      Outcome m s (({ s with used := insert call.id s.used } : State P).spawn
        (.create call .reserve))
  | call {pc : Pc P} (hpc : Initial pc) : Outcome m s (s.spawn pc)
  | delivered (event : ProxyRuntimeEvent) (events : List ProxyRuntimeEvent)
      (he : s.events = event :: events) :
      Outcome m s (({ s with events } : State P).spawn
        (.teardown (.runtimeExit event.listenerGeneration) event.runtimeId .lookup))
  | moved (t : TaskId) {s' : State P} {pc : Pc P} (h : Move m t s (s.tasks t) s' pc) :
      Outcome m s (s'.goto t pc)
  | expired (t : TaskId) : Outcome m s (s.abortCells (s.tasks t).draining)
  | aborted (t : TaskId) (ha : s.acceptingSessions = false) (hb : (s.tasks t).abortable = true) :
      Outcome m s
        (((s.dropRuntimes (s.tasks t).owned).abortCells (s.tasks t).draining).goto t .aborted)
  | runtime (r : RuntimeRef) (hr : r < s.nextCell) (cell : RuntimeCell)
      (permits : SemaphoreRef → Nat) (sent : List ProxyRuntimeEvent)
      (h : CellMove (s.gates (s.cells r).runtimeId) (s.history (s.cells r).runtimeId).length
        (s.cells r) cell sent)
      (hb : Balanced s r (cellMoved s r cell permits sent)) :
      Outcome m s (cellMoved s r cell permits sent)

theorem step_outcome [DecidableEq P] {action : Action P} (h : m.step action s = some s') :
    Outcome m s s' := by
  cases action with
  | create call =>
    simp only [SessionManager.step] at h
    split at h
    · cases h
    · rename_i hid
      rw [← Option.some.inj h]
      exact .create call hid
  | deliver =>
    simp only [SessionManager.step] at h
    split at h
    · cases h
    · rename_i event events he
      rw [← Option.some.inj h]
      exact .delivered event events he
  | advance t env =>
    obtain ⟨⟨u, pc⟩, ha, rfl⟩ := Option.map_eq_some_iff.mp h
    exact .moved t (advance_move ha)
  | expire t =>
    rw [← Option.some.inj h]
    exact .expired t
  | abort t =>
    simp only [SessionManager.step] at h
    split at h
    · rename_i ha
      rw [← Option.some.inj h]
      exact .aborted t ha.1 ha.2
    · cases h
  | runtime r move =>
    simp only [SessionManager.step] at h
    split at h
    · rename_i hr
      have hb := runtime_balanced h
      obtain ⟨cell, permits, sent, rfl, hm⟩ := runtime_move h
      exact .runtime r hr cell permits sent hm hb
    · cases h
  | reload id => exact Option.some.inj h ▸ .call (.reload id)
  | reloadAll => exact Option.some.inj h ▸ .call .reloadAll
  | stop id => exact Option.some.inj h ▸ .call (.stop id)
  | remove id => exact Option.some.inj h ▸ .call (.remove id)
  | list => exact Option.some.inj h ▸ .call .list
  | rejectNewSessions => exact Option.some.inj h ▸ .call .rejectNewSessions
  | shutdownAll => exact Option.some.inj h ▸ .call .shutdownAll

end Baffle.Proofs
