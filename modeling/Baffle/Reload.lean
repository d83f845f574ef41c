import Baffle.Session

/-! The lock sections of `reload`, `reload_all` and `reload_locked` (`src/control/reload.rs`). -/

namespace Baffle

variable {P : Type}

def maxRetiredListeners : Nat := 8

def canonicalInjection (injection : HeaderInjection) : HeaderInjection :=
  { injection with header := injection.header.toAsciiLowercase }

/-- Sort the parts of a rule whose order has no effect. -/
def canonicalRule (rule : HostRule) : HostRule :=
  { rule with
    ports := rule.ports.mergeSort (fun a b => decide (a ≤ b))
    paths := rule.paths.mergeSort (fun a b => decide (a ≤ b))
    inject := (rule.inject.map canonicalInjection).mergeSort
      (fun a b => decide (a.header ≤ b.header)) }

def canonicalRules (rules : List HostRule) : List HostRule :=
  (rules.map canonicalRule).mergeSort (fun a b => decide (a.host ≤ b.host))

def sameEffectiveRules (left right : List HostRule) : Bool :=
  canonicalRules left == canonicalRules right

namespace SessionManager

variable (m : SessionManager P)

/-- Where the call goes after one `reload` with this result. -/
def afterReload (batch : Option Batch) (result : SessionReloadResult) : Pc P :=
  match batch with
  | none => .reloadAnswer [result]
  | some batch =>
    match batch.rest with
    | [] => .reloadAnswer (batch.results ++ [result])
    | (id, socket) :: rest =>
      .reload id (some { socket, rest, results := batch.results ++ [result] }) .lookup

def reloadAllSnapshot (s : State P) : Pc P :=
  let running := s.sessions.entries.filter (fun entry =>
    entry.2.configSource.isSome && entry.2.info.state == .running)
  match running.map (fun entry => (entry.2.info.id, entry.2.info.socket)) with
  | [] => .reloadAnswer []
  | (id, socket) :: rest => .reload id (some { socket, rest, results := [] }) .lookup

def reloadLookup (id : SessionId) (batch : Option Batch) (s : State P) : Pc P :=
  if s.sessions.contains id then .reload id batch .lock
  else
    match batch with
    | none => .reloadNotFound
    | some b => afterReload batch (.failed id b.socket "session_unavailable")

/-- The handles that a retain of unfinished runtimes drops. -/
def finishedRuntimes (s : State P) (session : ManagedSession P) : List (ProxyRuntime P) :=
  session.retiredRuntimes.filter s.isFinished

def unfinished (s : State P) (session : ManagedSession P) : ManagedSession P :=
  session.retain (fun runtime => !s.isFinished runtime)

def reloadBegin (id : SessionId) (s : State P) : State P × ReloadStage P :=
  match s.sessions.get id with
  | none => (s, .returning (.failed id [] "session_unavailable"))
  | some session =>
    let kept := (unfinished s session).countDraining
    let after := (s.dropRuntimes (finishedRuntimes s session)).setSession id kept
    if kept.info.state ≠ .running ∨ s.acceptingSessions = false then
      (after, .returning (.failed id kept.info.socket "session_stopping"))
    else
      match kept.configSource with
      | none => (after, .returning (.failed id kept.info.socket "inline_session"))
      | some source =>
        (after, .prepare {
          source
          secrets := kept.secrets
          socket := kept.info.socket
          persistent := kept.configuration.persistent })

/-- Reading and resolving the candidate; no lock is taken. -/
def reloadPrepare (id : SessionId) (source : ReloadSource) (env : Environment P) :
    ReloadStage P :=
  match env.configs with
  | none => .returning (.failed id source.socket "configuration_unavailable")
  | some configs =>
    match readSession m.crates configs source.source with
    | .error error =>
      .returning (.failedWithDetail id source.socket error.reloadReason error.detail)
    | .ok read =>
      let candidate := { read with persistent := source.persistent }
      match (m.secretStore env.secretFiles).resolve candidate with
      | .error _ => .returning (.failed id source.socket "credentials_unavailable")
      | .ok secrets =>
        match absoluteSocketPath m.paths env.currentDir
            (m.paths.join m.socketDir (socketName candidate id)) with
        | none => .returning (.failed id source.socket "listener_unavailable")
        | some path => .compare source { candidate, secrets, path, socket := source.socket }

def configurationUnchanged (candidate current : SessionConfig) : Bool :=
  candidate.unmatched == current.unmatched
    && sameEffectiveRules candidate.rules current.rules
    && candidate.defaultCredentialMode == current.defaultCredentialMode
    && candidate.credentialModes == current.credentialModes

def reloadCompare [DecidableEq P] (id : SessionId) (source : ReloadSource)
    (target : ReloadTarget P) (s : State P) : ReloadStage P :=
  let samePath := target.path = m.paths.fromText source.socket
  match s.sessions.get id with
  | none => .returning (.failed id target.socket "session_unavailable")
  | some session =>
    if configurationUnchanged target.candidate session.configuration ∧ samePath
        ∧ hasSameValues source.secrets target.secrets then
      .returning (.unchanged id target.socket)
    else if samePath then .commitSame target
    else .limits target

/-- The session with the candidate on its current listener. -/
def refreshed (target : ReloadTarget P) (session : ManagedSession P) : ManagedSession P :=
  ManagedSession.countDraining { session with
    configuration := target.candidate
    secrets := target.secrets
    info := { session.info with generation := saturatingSucc session.info.generation } }

def reloadCommitSame (id : SessionId) (target : ReloadTarget P) (s : State P) :
    State P × ReloadStage P :=
  if !s.acceptingSessions then (s, .returning (.failed id target.socket "session_stopping"))
  else
    match s.sessions.get id with
    | none => (s, .returning (.failed id target.socket "session_unavailable"))
    | some session =>
      match session.runtime with
      | none => (s, .returning (.failed id target.socket "session_stopping"))
      | some runtime =>
        let pair : PolicyPair :=
          ⟨SessionPolicy.compile m.crates target.candidate runtime.credentialSeed, target.secrets⟩
        match (s.cells runtime.cell).replaceGeneration pair with
        | none => (s, .returning (.failed id target.socket "generation_limit"))
        | some cell =>
          let s := (s.setCell runtime.cell cell).setSession id (refreshed target session)
          ({ s with history := Function.update s.history id (s.history id ++ [pair]) },
            .returning (.reloaded id target.socket))

def reloadLimits (id : SessionId) (target : ReloadTarget P) (s : State P) :
    State P × ReloadStage P :=
  if !s.acceptingSessions then (s, .returning (.failed id target.socket "session_stopping"))
  else
    match s.sessions.get id with
    | none => (s, .returning (.failed id target.socket "session_unavailable"))
    | some session =>
      let kept := unfinished s session
      let after := (s.dropRuntimes (finishedRuntimes s session)).setSession id kept
      match kept.runtime with
      | none => (after, .returning (.failed id target.socket "session_stopping"))
      | some runtime =>
        match checkedSucc kept.listenerGeneration with
        | none => (after, .returning (.failed id target.socket "generation_limit"))
        | some nextListenerGeneration =>
          if kept.retiredRuntimes.length < maxRetiredListeners then
            (after, .start target {
              permits := runtime.permits
              credentialSeed := runtime.credentialSeed
              nextListenerGeneration })
          else (after, .returning (.failed id target.socket "generation_limit"))

def reloadStart (id : SessionId) (target : ReloadTarget P) (options : Replacement)
    (env : Environment P) (s : State P) : State P × ReloadStage P :=
  if !env.bound then (s, .returning (.failed id target.socket "listener_unavailable"))
  else
    let (s, replacement) := s.startRuntime m.crates id target.candidate target.secrets
      options.credentialSeed target.path options.permits options.nextListenerGeneration
    (s, .commit target options replacement)

/-- The session with the replacement as its current runtime, its former one being put away. -/
def switched (target : ReloadTarget P) (options : Replacement) (replacement : ProxyRuntime P)
    (session : ManagedSession P) : ManagedSession P :=
  { session with
    runtime := some replacement
    configuration := target.candidate
    secrets := target.secrets
    info := { session.info with
      socket := m.paths.toStringLossy target.path
      generation := saturatingSucc session.info.generation }
    listenerGeneration := options.nextListenerGeneration }

/-- The last section, up to `mark_retiring`. The registry lock stays with the
call until the old runtime has been put away. -/
def reloadCommit (id : SessionId) (target : ReloadTarget P) (options : Replacement)
    (replacement : ProxyRuntime P) (s : State P) : State P × ReloadStage P :=
  if !s.acceptingSessions then
    (s, .shutdown replacement (.failed id target.socket "session_stopping"))
  else
    match s.sessions.get id with
    | none => (s, .shutdown replacement (.failed id target.socket "session_unavailable"))
    | some session =>
      if session.info.state ≠ .running then
        (s, .shutdown replacement (.failed id target.socket "session_stopping"))
      else
        match session.runtime with
        | none =>
          ((s.dropRuntimes [replacement]).setSession id { session with runtime := none },
            .returning (.failed id target.socket "session_stopping"))
        | some oldRuntime =>
          let s := s.setCell replacement.cell (s.cells replacement.cell).install
          let s := s.setCell oldRuntime.cell (s.cells oldRuntime.cell).markRetiring
          (s.setSession id (m.switched target options replacement session),
            .marked target options oldRuntime)

/-- The store to the listener gate: the new pair is committed. -/
def reloadGate (id : SessionId) (target : ReloadTarget P) (options : Replacement) (s : State P) :
    State P :=
  { s with
    gates := Function.update s.gates id options.nextListenerGeneration
    history := Function.update s.history id (s.history id ++
      [⟨SessionPolicy.compile m.crates target.candidate options.credentialSeed, target.secrets⟩]) }

def withRetired (oldRuntime : ProxyRuntime P) (session : ManagedSession P) : ManagedSession P :=
  ManagedSession.countDraining
    { session with retiredRuntimes := session.retiredRuntimes ++ [oldRuntime] }

/-- The end of the section. The call has kept the registry lock, so the session is there. -/
def reloadRetire (id : SessionId) (target : ReloadTarget P) (oldRuntime : ProxyRuntime P)
    (s : State P) : State P × ReloadStage P :=
  let result := SessionReloadResult.reloaded id (m.paths.toStringLossy target.path)
  let s := s.setCell oldRuntime.cell (s.cells oldRuntime.cell).retire
  match s.sessions.get id with
  | none => (s.dropRuntimes [oldRuntime], .returning result)
  | some session =>
    (s.setSession id (withRetired oldRuntime session), .returning result)

end SessionManager

end Baffle
