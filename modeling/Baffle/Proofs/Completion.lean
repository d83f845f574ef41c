import Baffle.Proofs.Leases
import Baffle.Proofs.Progress

namespace Baffle

/-- A step of the server that is no new connection, of a control client or on
the socket of a session. -/
def ServerUnasked {P : Type} (a : ServerAction P) (s : ServerState P) : Prop :=
  match a with
  | .connect => False
  | .expire t => ∃ r ∈ (s.core.tasks t).draining, (s.core.cells r).aborted = false
  | .runtime _ move => move ≠ .accept
  | _ => True

/-- A step that the server takes even if its clients do nothing at all. -/
def ServerOwed {P : Type} (a : ServerAction P) (s : ServerState P) : Prop :=
  match a with
  | .proceed _ | .abort _ | .deliver | .advance _ _ | .abortAll | .joinConnections
  | .joinCleanups | .finish => True
  | .expire t => ∃ r ∈ (s.core.tasks t).draining, (s.core.cells r).aborted = false
  | .runtime _ move => move.prompt = true
  | _ => False

/-- A request that was not read yet may be a `reload_all`. -/
def Handler.scans : Handler → Nat
  | .reading => 2
  | _ => 0

/-- A response may be followed by the `remove` call of a lease. -/
def Handler.work : Handler → Nat
  | .creating _ | .calling _ _ => 11
  | .responding _ _ _ => 10
  | .leasing _ => 9
  | .removing _ _ => 1
  | _ => 0

/-- The `shutdown_all` of the shutdown is still to come. -/
def ServerPhase.scans : ServerPhase → Nat
  | .sweeping _ | .stopped => 0
  | _ => 2

def ServerPhase.work : ServerPhase → Nat
  | .running => 6
  | .rejecting _ => 4
  | .aborting => 3
  | .cleaning => 2
  | .sweeping _ => 1
  | .stopped => 0

namespace Proofs

variable {P : Type} {c : ControlServer P} {s s' : ServerState P} {t : TaskId}

/-- A number that every connection contributes to. -/
def overHandlers (f : Handler → Nat) (s : ServerState P) : Nat :=
  ∑ k ∈ Finset.range s.nextHandler, f (s.handlers k)

def serverScans (s : ServerState P) : Nat :=
  overCalls Pc.scans s.core + overHandlers Handler.scans s + s.phase.scans

def serverWork (s : ServerState P) : Nat :=
  workLeft s.core + overHandlers Handler.work s + s.phase.work

def serverBacklog (s : ServerState P) : ℕ ×ₗ ℕ := toLex (serverScans s, serverWork s)

theorem over_handler (f : Handler → Nat) {k : Nat} (hk : k < s.nextHandler) (handler : Handler) :
    overHandlers f (s.setHandler k handler) + f (s.handlers k)
      = overHandlers f s + f handler := by
  have hmem : k ∈ Finset.range s.nextHandler := Finset.mem_range.mpr hk
  have hrest : ∑ j ∈ (Finset.range s.nextHandler).erase k, f ((s.setHandler k handler).handlers j)
      = ∑ j ∈ (Finset.range s.nextHandler).erase k, f (s.handlers j) := by
    refine Finset.sum_congr rfl (fun j hj => ?_)
    simp only [ServerState.setHandler, Function.update_of_ne (Finset.ne_of_mem_erase hj)]
  have hself : (s.setHandler k handler).handlers k = handler := Function.update_self ..
  have hnew : f handler + ∑ j ∈ (Finset.range s.nextHandler).erase k,
      f ((s.setHandler k handler).handlers j) = overHandlers f (s.setHandler k handler) := by
    have hsum := Finset.add_sum_erase _ (fun j => f ((s.setHandler k handler).handlers j)) hmem
    rwa [hself] at hsum
  have hold : f (s.handlers k) + ∑ j ∈ (Finset.range s.nextHandler).erase k, f (s.handlers j)
      = overHandlers f s := Finset.add_sum_erase _ (fun j => f (s.handlers j)) hmem
  omega

/-- One connection moves on, with or without a step of the session manager. -/
theorem handler_lowers {k : Nat} (hk : k < s.nextHandler) {handler : Handler} (core : State P)
    (slots : Nat)
    (h : overCalls Pc.scans core + handler.scans
          < overCalls Pc.scans s.core + (s.handlers k).scans ∨
        overCalls Pc.scans core + handler.scans
          = overCalls Pc.scans s.core + (s.handlers k).scans ∧
        workLeft core + handler.work < workLeft s.core + (s.handlers k).work) :
    serverBacklog { s.setHandler k handler with core, provisioningSlots := slots }
      < serverBacklog s := by
  have hscans := over_handler Handler.scans hk handler
  have hwork := over_handler Handler.work hk handler
  have hsame : ∀ f : Handler → Nat, overHandlers f ({ s.setHandler k handler with
      core, provisioningSlots := slots } : ServerState P)
        = overHandlers f (s.setHandler k handler) := fun _ => rfl
  refine backlog_lt.mpr ?_
  simp only [serverScans, serverWork, hsame]
  show _ + s.phase.scans < _ ∨ _ + s.phase.scans = _ ∧ _ + s.phase.work < _
  omega

/-- The same without a step of the session manager. -/
theorem handler_alone {k : Nat} (hk : k < s.nextHandler) {handler : Handler} {slots : Nat}
    (h : handler.scans < (s.handlers k).scans ∨
      handler.scans = (s.handlers k).scans ∧ handler.work < (s.handlers k).work) :
    serverBacklog { s.setHandler k handler with provisioningSlots := slots }
      < serverBacklog s := by
  refine handler_lowers hk s.core slots ?_
  omega

/-- A step of the session manager alone. -/
theorem core_lowers {core : State P} {cleanups : List TaskId} (h : backlog core < backlog s.core) :
    serverBacklog { s with core, cleanups } < serverBacklog s := by
  have hsame : ∀ f : Handler → Nat, overHandlers f ({ s with core, cleanups } : ServerState P)
      = overHandlers f s := fun _ => rfl
  refine backlog_lt.mpr ?_
  have hcore := backlog_lt.mp h
  simp only [serverScans, serverWork, hsame]
  omega

/-- A new call of the session manager. -/
theorem call_backlog [DecidableEq P] {m : SessionManager P} {a : Action P} {pc : Pc P}
    {core core' : State P} (hpc : Starts a pc) (hd : a ≠ .deliver)
    (hs : m.step a core = some core') :
    overCalls Pc.scans core' = overCalls Pc.scans core + pc.scans ∧
      workLeft core' = workLeft core + pc.work := by
  cases hpc with
  | create call =>
    simp only [SessionManager.step] at hs
    split at hs
    · cases hs
    · rw [← Option.some.inj hs]
      exact ⟨over_spawned _, work_spawned⟩
  | deliver g id => exact absurd rfl hd
  | _ =>
    rw [← Option.some.inj hs]
    exact ⟨over_spawned _, work_spawned⟩

/-- The connection is one of those that were accepted. -/
theorem handler_live (hj : Joined s) {k : Nat} {handler : Handler} (hk : s.handlers k = handler)
    (hne : handler ≠ .absent) : k < s.nextHandler := by
  by_contra hn
  exact hne (hk ▸ hj.absent k (Nat.le_of_not_lt hn))

/-- Whatever comes of a request, it was read. -/
theorem read_lowers (hj : Joined s) {k : Nat} (hk : s.handlers k = .reading) {handler : Handler}
    (core : State P) (slots : Nat) (hh : handler.scans = 0)
    (hc : overCalls Pc.scans core ≤ overCalls Pc.scans s.core + 1) :
    serverBacklog { s.setHandler k handler with core, provisioningSlots := slots }
      < serverBacklog s := by
  refine handler_lowers (handler_live hj hk (by rintro ⟨⟩)) core slots (Or.inl ?_)
  rw [hk, hh]
  show _ < _ + 2
  omega

theorem respond_lowers (hj : Joined s) {k : Nat} (hk : s.handlers k = .reading)
    (response : Response) (lease : Option SessionId) (permit : Bool) (slots : Nat) :
    serverBacklog { s.setHandler k (.responding response lease permit) with
      provisioningSlots := slots } < serverBacklog s :=
  read_lowers hj hk s.core slots rfl (Nat.le_succ _)

theorem release_lowers (hj : Joined s) {k : Nat} {old handler : Handler}
    (hk : s.handlers k = old) (hne : old ≠ .absent) (permit : Bool)
    (h : handler.scans < old.scans ∨ handler.scans = old.scans ∧ handler.work < old.work) :
    serverBacklog ((s.release permit).setHandler k handler) < serverBacklog s := by
  obtain ⟨slots, heq⟩ := release_slots (s := s) permit k handler
  rw [heq]
  refine handler_alone (handler_live hj hk hne) ?_
  rwa [hk]

theorem proceed_lowers (hj : Joined s) {k : Nat} (hs : ControlServer.proceed k s = some s') :
    serverBacklog s' < serverBacklog s := by
  unfold ControlServer.proceed at hs
  split at hs
  · rename_i t hk
    split at hs
    · rw [← Option.some.inj hs]
      exact release_lowers hj hk (by rintro ⟨⟩) true (Or.inr ⟨rfl, by simp [Handler.work]⟩)
    · cases hs
  · rename_i request t hk
    obtain ⟨response, -, rfl⟩ := Option.map_eq_some_iff.mp hs
    exact release_lowers hj hk (by rintro ⟨⟩) false (Or.inr ⟨rfl, by simp [Handler.work]⟩)
  · rename_i t id hk
    split at hs
    · rw [← Option.some.inj hs]
      exact release_lowers hj hk (by rintro ⟨⟩) false (Or.inr ⟨rfl, by simp [Handler.work]⟩)
    · cases hs
  · cases hs

variable [DecidableEq P]

theorem call_lowers (hj : Joined s) {k : Nat} (hk : s.handlers k = .reading) {a : Action P}
    {pc : Pc P} (hpc : Starts a pc) (hd : a ≠ .deliver) {next : TaskId → Handler}
    (hnext : ∀ t, (next t).scans = 0) {u : ServerState P} {slots : Nat}
    (hu : u = { s with provisioningSlots := slots }) (hs : c.call u k a next = some s') :
    serverBacklog s' < serverBacklog s := by
  subst hu
  obtain ⟨core, hcore, rfl⟩ := call_some hs
  have hscans := (call_backlog hpc hd hcore).1
  refine read_lowers hj hk core slots (hnext _) ?_
  rw [hscans]
  refine Nat.add_le_add_left ?_ _
  cases hpc <;> first | exact Nat.le_refl 1 | exact Nat.zero_le 1

theorem create_session_lowers (hj : Joined s) {k : Nat} (hk : s.handlers k = .reading)
    {session : SessionConfig} {configSource : Option Text} {draw : Draw} {env : Environment P}
    (hs : c.createSession k session configSource draw env s = some s') :
    serverBacklog s' < serverBacklog s := by
  unfold ControlServer.createSession at hs
  split at hs
  · rw [← Option.some.inj hs]
    exact respond_lowers hj hk _ none false s.provisioningSlots
  · exact call_lowers hj hk (.create _) (by rintro ⟨⟩) (fun _ => rfl) rfl hs

theorem request_lowers (hj : Joined s) {k : Nat} (hk : s.handlers k = .reading)
    {request : ControlRequest} {draw : Draw} {env : Environment P}
    (hs : c.handleRequest k request draw env s = some s') :
    serverBacklog s' < serverBacklog s := by
  cases request with
  | create session =>
    simp only [ControlServer.handleRequest] at hs
    split at hs
    · rw [← Option.some.inj hs]
      exact respond_lowers hj hk _ none false s.provisioningSlots
    · split at hs
      · rw [← Option.some.inj hs]
        exact respond_lowers hj hk _ none false s.provisioningSlots
      · exact create_session_lowers hj hk hs
  | createFromFile name requireEphemeral =>
    simp only [ControlServer.handleRequest] at hs
    split at hs
    · rw [← Option.some.inj hs]
      exact respond_lowers hj hk _ none false s.provisioningSlots
    · split at hs
      · rw [← Option.some.inj hs]
        exact respond_lowers hj hk _ none false s.provisioningSlots
      · unfold ControlServer.createFromFile at hs
        split at hs
        · rw [← Option.some.inj hs]
          exact respond_lowers hj hk _ none true (s.provisioningSlots - 1)
        · split at hs
          · rw [← Option.some.inj hs]
            exact respond_lowers hj hk _ none true (s.provisioningSlots - 1)
          · split at hs
            · rw [← Option.some.inj hs]
              exact respond_lowers hj hk _ none false s.provisioningSlots
            · exact create_session_lowers hj hk hs
  | stop id => exact call_lowers hj hk (.stop id) (by rintro ⟨⟩) (fun _ => rfl) rfl hs
  | reload id => exact call_lowers hj hk (.reload id) (by rintro ⟨⟩) (fun _ => rfl) rfl hs
  | reloadAll => exact call_lowers hj hk .reloadAll (by rintro ⟨⟩) (fun _ => rfl) rfl hs
  | list => exact call_lowers hj hk .list (by rintro ⟨⟩) (fun _ => rfl) rfl hs

/-- The lease of a session ends: the `remove` call is less work than the lease. -/
theorem lease_lowers (hj : Joined s) {k : Nat} {old : Handler} {id : SessionId}
    (hk : s.handlers k = old) (hne : old ≠ .absent) (hscans : old.scans = 0) (hwork : 8 < old.work)
    (hs : c.call s k (.remove id) (fun t => .removing t id) = some s') :
    serverBacklog s' < serverBacklog s := by
  obtain ⟨core, hcore, rfl⟩ := call_some hs
  obtain ⟨hcalls, hleft⟩ := call_backlog (.remove id) (by rintro ⟨⟩) hcore
  refine handler_lowers (handler_live hj hk hne) core s.provisioningSlots (Or.inr ⟨?_, ?_⟩)
  · rw [hcalls, hk, hscans]
    rfl
  · rw [hleft, hk]
    show workLeft s.core + 7 + 1 < _
    omega

theorem written_lowers (hj : Joined s) {k : Nat} {ok : Bool} (hs : c.written k ok s = some s') :
    serverBacklog s' < serverBacklog s := by
  unfold ControlServer.written at hs
  split at hs
  · rename_i response id permit hk
    split at hs
    · rw [← Option.some.inj hs]
      exact release_lowers hj hk (by rintro ⟨⟩) false (Or.inr ⟨rfl, by simp [Handler.work]⟩)
    · exact lease_lowers hj hk (by rintro ⟨⟩) rfl (by simp [Handler.work]) hs
  · rename_i response permit hk
    rw [← Option.some.inj hs]
    exact release_lowers hj hk (by rintro ⟨⟩) permit (Or.inr ⟨rfl, by simp [Handler.work]⟩)
  · cases hs

/-- An abort of the connection, and of the call that it waits for. -/
theorem interrupt_lowers (hj : Joined s) (hx : Exclusive s.core) {k : Nat} (slots : Nat) {core : State P}
    (hk : s.handlers k ≠ .absent) (hs : c.sessions.step (.abort t) s.core = some core) :
    serverBacklog { s.setHandler k .aborted with core, provisioningSlots := slots }
      < serverBacklog s := by
  simp only [SessionManager.step] at hs
  split at hs
  · rename_i hb
    have hcore := backlog_lt.mp (aborted_lowers hx hb.2)
    rw [Option.some.inj hs] at hcore
    refine handler_lowers (handler_live hj rfl hk) core slots ?_
    show _ + 0 < _ ∨ _ + 0 = _ ∧ _ + 0 < _
    cases hh : s.handlers k with
    | reading =>
      show _ + 0 < _ + 2 ∨ _
      omega
    | _ =>
      show _ + 0 < _ + 0 ∨ _ + 0 = _ + 0 ∧ _
      omega
  · cases hs

theorem abort_lowers (hj : Joined s) (hx : Exclusive s.core) {k : Nat}
    (hs : c.abortHandler k s = some s') : serverBacklog s' < serverBacklog s := by
  unfold ControlServer.abortHandler at hs
  split at hs
  · rename_i hk
    rw [← Option.some.inj hs]
    exact release_lowers hj hk (by rintro ⟨⟩) false (Or.inl (by decide))
  · rename_i id hk
    rw [← Option.some.inj hs]
    exact release_lowers hj hk (by rintro ⟨⟩) false (Or.inr ⟨rfl, by simp [Handler.work]⟩)
  · rename_i response lease permit hk
    rw [← Option.some.inj hs]
    exact release_lowers hj hk (by rintro ⟨⟩) permit (Or.inr ⟨rfl, by simp [Handler.work]⟩)
  · rename_i t hk
    obtain ⟨s1, hs1, rfl⟩ := Option.map_eq_some_iff.mp hs
    obtain ⟨core, hcore, rfl⟩ := on_core_some hs1
    exact interrupt_lowers hj hx (s.provisioningSlots + 1)
      (by rw [hk]; rintro ⟨⟩) hcore
  · rename_i request t hk
    obtain ⟨s1, hs1, rfl⟩ := Option.map_eq_some_iff.mp hs
    obtain ⟨core, hcore, rfl⟩ := on_core_some hs1
    exact interrupt_lowers hj hx s.provisioningSlots (by rw [hk]; rintro ⟨⟩) hcore
  · rename_i t id hk
    obtain ⟨s1, hs1, rfl⟩ := Option.map_eq_some_iff.mp hs
    obtain ⟨core, hcore, rfl⟩ := on_core_some hs1
    exact interrupt_lowers hj hx s.provisioningSlots (by rw [hk]; rintro ⟨⟩) hcore
  · cases hs

/-- The steps of `shutdown`. -/
theorem shutdown_lowers {a : ServerAction P} (hs : c.proceedShutdown s a = some s') :
    serverBacklog s' < serverBacklog s := by
  have hphase : ∀ {phase : ServerPhase}, (phase.scans = s.phase.scans) →
      phase.work < s.phase.work → serverBacklog { s with phase } < serverBacklog s := by
    intro phase hscans hwork
    refine backlog_lt.mpr (Or.inr ⟨congrArg (_ + ·) hscans, Nat.add_lt_add_left hwork _⟩)
  have hcall : ∀ {a : Action P} {pc : Pc P} {core : State P} {phase : ServerPhase},
      Starts a pc → a ≠ .deliver → c.sessions.step a s.core = some core →
      (pc.scans + phase.scans < s.phase.scans ∨ pc.scans + phase.scans = s.phase.scans ∧
        pc.work + phase.work < s.phase.work) →
      serverBacklog { s with core, phase } < serverBacklog s := by
    intro a pc core phase hpc hd hcore hlt
    obtain ⟨hcalls, hleft⟩ := call_backlog hpc hd hcore
    have hsame : ∀ f : Handler → Nat, overHandlers f ({ s with core, phase } : ServerState P)
        = overHandlers f s := fun _ => rfl
    refine backlog_lt.mpr ?_
    simp only [serverScans, serverWork, hsame, hcalls, hleft]
    omega
  cases a with
  | shutdown =>
    simp only [ControlServer.proceedShutdown] at hs
    split at hs
    · rename_i hp
      obtain ⟨s1, hs1, rfl⟩ := Option.map_eq_some_iff.mp hs
      obtain ⟨core, hcore, rfl⟩ := on_core_some hs1
      exact hcall .rejectNewSessions (by rintro ⟨⟩) hcore (by rw [hp]; exact Or.inr ⟨rfl, Nat.lt_succ_self 5⟩)
    · cases hs
  | abortAll =>
    simp only [ControlServer.proceedShutdown] at hs
    split at hs
    · rename_i t hp
      split at hs
      · rw [← Option.some.inj hs]
        exact hphase (by rw [hp]; rfl) (by rw [hp]; simp [ServerPhase.work])
      · cases hs
    · cases hs
  | joinConnections =>
    simp only [ControlServer.proceedShutdown] at hs
    split at hs
    · rename_i hp
      rw [← Option.some.inj hs]
      exact hphase (by rw [hp.1]; rfl) (by rw [hp.1]; decide)
    · cases hs
  | joinCleanups =>
    simp only [ControlServer.proceedShutdown] at hs
    split at hs
    · rename_i hp
      obtain ⟨s1, hs1, rfl⟩ := Option.map_eq_some_iff.mp hs
      obtain ⟨core, hcore, rfl⟩ := on_core_some hs1
      exact hcall .shutdownAll (by rintro ⟨⟩) hcore (by rw [hp.1]; exact Or.inl Nat.one_lt_two)
    · cases hs
  | finish =>
    simp only [ControlServer.proceedShutdown] at hs
    split at hs
    · rename_i t hp
      split at hs
      · rw [← Option.some.inj hs]
        exact hphase (by rw [hp]; rfl) (by rw [hp]; simp [ServerPhase.work])
      · cases hs
    · cases hs
  | _ => cases hs

theorem server_lowers {a : ServerAction P} (h : Orderly c s) (ha : ServerUnasked a s)
    (hs : c.step a s = some s') : serverBacklog s' < serverBacklog s := by
  have hreach := h.core.reach
  have hx := exclusive_reach hreach
  have hcore : ∀ {a : Action P} {core : State P}, Unasked a s.core →
      c.sessions.step a s.core = some core → backlog core < backlog s.core :=
    fun ha hs => unasked_lowers hx (conserved_reach hreach) (dismissed_reach hreach) ha hs
  cases a with
  | connect => exact ha.elim
  | reject k error =>
    simp only [ControlServer.step] at hs
    split at hs
    · rename_i hk
      rw [← Option.some.inj hs]
      exact respond_lowers h.joined hk _ none false s.provisioningSlots
    · cases hs
  | hangUp k =>
    simp only [ControlServer.step] at hs
    split at hs
    · rename_i hk
      rw [← Option.some.inj hs]
      exact release_lowers h.joined hk (by rintro ⟨⟩) false (Or.inl Nat.zero_lt_two)
    · cases hs
  | request k raw draw env =>
    simp only [ControlServer.step] at hs
    split at hs
    · rename_i hk
      split at hs
      · exact request_lowers h.joined hk hs
      · rw [← Option.some.inj hs]
        exact respond_lowers h.joined hk _ none false s.provisioningSlots
    · cases hs
  | proceed k => exact proceed_lowers h.joined hs
  | written k ok => exact written_lowers h.joined hs
  | readReturns k =>
    simp only [ControlServer.step, ControlServer.readReturns] at hs
    split at hs
    · rename_i id hk
      exact lease_lowers h.joined hk (by rintro ⟨⟩) rfl (by simp [Handler.work]) hs
    · cases hs
  | abort k =>
    simp only [ControlServer.step] at hs
    split at hs
    · exact abort_lowers h.joined hx hs
    · cases hs
  | deliver =>
    simp only [ControlServer.step] at hs
    split at hs
    · obtain ⟨s1, hs1, rfl⟩ := Option.map_eq_some_iff.mp hs
      obtain ⟨core, hstep, rfl⟩ := on_core_some hs1
      exact core_lowers (hcore (.deliver _) hstep)
    · cases hs
  | advance t env =>
    obtain ⟨core, hstep, rfl⟩ := on_core_some hs
    exact core_lowers (hcore (.advance t env _) hstep)
  | expire t =>
    obtain ⟨core, hstep, rfl⟩ := on_core_some hs
    obtain ⟨r, hr, haborted⟩ := ha
    exact core_lowers (hcore (.expire t _ r hr haborted) hstep)
  | runtime r move =>
    obtain ⟨core, hstep, rfl⟩ := on_core_some hs
    exact core_lowers (hcore (.runtime r move _ ha) hstep)
  | shutdown => exact shutdown_lowers (c := c) (a := .shutdown) hs
  | abortAll => exact shutdown_lowers (c := c) (a := .abortAll) hs
  | joinConnections => exact shutdown_lowers (c := c) (a := .joinConnections) hs
  | joinCleanups => exact shutdown_lowers (c := c) (a := .joinCleanups) hs
  | finish => exact shutdown_lowers (c := c) (a := .finish) hs

omit [DecidableEq P]

/-- The stages of the call that serves a request. -/
inductive Suits : ControlRequest → Pc P → Prop where
  | stop (id j : SessionId) (stage : TeardownStage P) : Suits (.stop id) (.teardown .stop j stage)
  | reload (id j : SessionId) (stage : ReloadStage P) : Suits (.reload id) (.reload j none stage)
  | reloaded (id : SessionId) (result : SessionReloadResult) :
      Suits (.reload id) (.reloadAnswer [result])
  | notFound (id : SessionId) : Suits (.reload id) .reloadNotFound
  | snapshot : Suits .reloadAll .reloadAll
  | batch (id : SessionId) (batch : Batch) (stage : ReloadStage P) :
      Suits .reloadAll (.reload id (some batch) stage)
  | answered (results : List SessionReloadResult) : Suits .reloadAll (.reloadAnswer results)
  | list : Suits .list .list
  | listed (sessions : List SessionInfo) : Suits .list (.listAnswer sessions)

variable {m : SessionManager P} {u u' : State P} {pc pc' : Pc P} {request : ControlRequest}

theorem suits_after (batch : Batch) (result : SessionReloadResult) :
    Suits .reloadAll (SessionManager.afterReload (some batch) result : Pc P) := by
  unfold SessionManager.afterReload
  dsimp only
  split
  · exact .answered _
  · exact .batch _ _ _

theorem Suits.move (h : Suits request pc) (hm : Move m t u pc u' pc') : Suits request pc' := by
  cases h with
  | stop id j stage =>
    cases hm with
    | teardown kind j hm => exact .stop id j _
  | reload id j stage =>
    cases hm with
    | unknown j batch hs =>
      unfold SessionManager.reloadLookup
      rw [if_neg (by simp [SortedMap.contains, hs])]
      exact .notFound id
    | found j batch hs => exact .reload id j _
    | locked j batch hfree => exact .reload id j _
    | reload j batch hm => exact .reload id j _
    | reloadReturned j batch result => exact .reloaded id result
  | snapshot =>
    cases hm with
    | reloadAll =>
      unfold SessionManager.reloadAllSnapshot
      dsimp only
      split
      · exact .answered _
      · exact .batch _ _ _
  | batch id batch stage =>
    cases hm with
    | unknown j batch hs =>
      unfold SessionManager.reloadLookup
      rw [if_neg (by simp [SortedMap.contains, hs])]
      exact suits_after batch _
    | found j batch hs => exact .batch id batch _
    | locked j batch hfree => exact .batch id batch _
    | reload j batch hm => exact .batch id batch _
    | reloadReturned j batch result => exact suits_after batch result
  | list =>
    cases hm with
    | listed answer => exact .listed answer
  | reloaded | notFound | answered | listed => cases hm

/-- The call of a request that has returned is an answer to it. -/
theorem Suits.answer (h : Suits request pc) (hover : pc.over = true) :
    ∃ response, answer request pc = some response := by
  cases h with
  | stop id j stage =>
    cases stage with
    | done found => exact ⟨_, rfl⟩
    | _ => cases hover
  | reload | snapshot | batch | list => cases hover
  | reloaded | notFound | answered | listed => exact ⟨_, rfl⟩

/-- The stages of a `runtime_exit` call. -/
inductive Exiting : Pc P → Prop where
  | teardown (g : Nat) (id : SessionId) (stage : TeardownStage P) :
      Exiting (.teardown (.runtimeExit g) id stage)

theorem Exiting.move (h : Exiting pc) (hm : Move m t u pc u' pc') : Exiting pc' := by
  cases h with
  | teardown g id stage =>
    cases hm with
    | teardown kind j hm => exact .teardown g id _

/-- The stages of `reject_new_sessions`. -/
inductive Rejecting : Pc P → Prop where
  | waiting : Rejecting .rejectNewSessions
  | returned : Rejecting .returned

theorem Rejecting.move (h : Rejecting pc) (hm : Move m t u pc u' pc') : Rejecting pc' := by
  cases h with
  | waiting =>
    cases hm with
    | rejected => exact .returned
  | returned => cases hm

/-- The stages of `shutdown_all`. -/
inductive Sweeping : Pc P → Prop where
  | stage (stage : SweepStage P) : Sweeping (.shutdownAll stage)

theorem Sweeping.move (h : Sweeping pc) (hm : Move m t u pc u' pc') : Sweeping pc' := by
  cases h with
  | stage stage =>
    cases hm with
    | sweep hm => exact .stage _

/-- Whoever waits for a call, the call is of the kind that is waited for. -/
structure Engaged (s : ServerState P) : Prop where
  present : ∀ k < s.nextHandler, s.handlers k ≠ .absent
  calling : ∀ k request t, s.handlers k = .calling request t → Suits request (s.core.tasks t)
  cleanups : ∀ t ∈ s.cleanups, Exiting (s.core.tasks t)
  rejecting : ∀ t, s.phase = .rejecting t → Rejecting (s.core.tasks t)
  sweeping : ∀ t, s.phase = .sweeping t → Sweeping (s.core.tasks t)

/-- A connection moves on. -/
theorem Engaged.set (h : Engaged s) (k : Nat) (handler : Handler) (slots : Nat) (hne : handler ≠ .absent)
    (hnew : ∀ request t, handler = .calling request t → Suits request (s.core.tasks t)) :
    Engaged { s.setHandler k handler with provisioningSlots := slots } where
  present j hj := by
    by_cases hjk : j = k
    · subst hjk
      simp only [ServerState.setHandler, Function.update_self]
      exact hne
    · simp only [ServerState.setHandler, Function.update_of_ne hjk]
      exact h.present j hj
  calling j request t hj := by
    by_cases hjk : j = k
    · subst hjk
      simp only [ServerState.setHandler, Function.update_self] at hj
      exact hnew request t hj
    · simp only [ServerState.setHandler, Function.update_of_ne hjk] at hj
      exact h.calling j request t hj
  cleanups := h.cleanups
  rejecting := h.rejecting
  sweeping := h.sweeping

theorem handler_move_present {core : State P} {handler handler' : Handler}
    (hm : HandlerMove core handler handler') : handler' ≠ .absent := by
  cases hm <;> rintro ⟨⟩

theorem handler_call_present {a : Action P} {handler handler' : Handler}
    (hc : HandlerCall m t handler a handler') : handler' ≠ .absent := by
  cases hc <;> rintro ⟨⟩

variable [DecidableEq P]

/-- A kind of call that its moves keep. -/
theorem kind_step {K : Pc P → Prop} (hmove : ∀ {t u u' pc pc'}, Move m t u pc u' pc' → K pc → K pc')
    (habsent : ¬K .absent) (hx : Exclusive u) {a : Action P} (hs : m.step a u = some u')
    (hn : a ≠ .abort t) (h : K (u.tasks t)) : K (u'.tasks t) := by
  have hlive : t < u.nextTask := by
    by_contra ht
    rw [hx.absent t (Nat.le_of_not_lt ht)] at h
    exact habsent h
  rcases task_step hs hlive with he | ⟨v, pc, hm, rfl⟩ | ha
  · rw [he]
    exact h
  · have hself : (v.goto t pc).tasks t = pc := Function.update_self ..
    rw [hself]
    exact hmove hm h
  · exact absurd ha hn

/-- An abort of a call that can be aborted. -/
theorem abort_kind {K : Pc P → Prop} (hk : ∀ pc, K pc → pc.abortable = false) {a : Action P}
    (hs : m.step a u = some u') (h : K (u.tasks t)) : a ≠ .abort t := by
  rintro rfl
  simp only [SessionManager.step] at hs
  split at hs
  · rename_i hb
    rw [hk _ h] at hb
    cases hb.2
  · cases hs

theorem Engaged.core_step (h : Engaged s) (hx : Exclusive s.core) {a : Action P} {core : State P}
    (hs : c.sessions.step a s.core = some core)
    (hn : ∀ k t, (s.handlers k).waits = some t → a ≠ .abort t) : Engaged { s with core } where
  present := h.present
  calling k request t hk := by
    have hw : (s.handlers k).waits = some t := by
      rw [show s.handlers k = .calling request t from hk]
      rfl
    exact kind_step (fun hm h => h.move hm) (by rintro ⟨⟩) hx hs (hn k t hw)
      (h.calling k request t hk)
  cleanups t ht := by
    have hkind := h.cleanups t ht
    refine kind_step (fun hm h => h.move hm) (by rintro ⟨⟩) hx hs ?_ hkind
    exact abort_kind (by rintro _ ⟨g, id, stage⟩; rfl) hs hkind
  rejecting t hp := by
    have hkind := h.rejecting t hp
    refine kind_step (fun hm h => h.move hm) (by rintro ⟨⟩) hx hs ?_ hkind
    exact abort_kind (by rintro _ ⟨⟩ <;> rfl) hs hkind
  sweeping t hp := by
    have hkind := h.sweeping t hp
    refine kind_step (fun hm h => h.move hm) (by rintro ⟨⟩) hx hs ?_ hkind
    exact abort_kind (by rintro _ ⟨stage⟩; rfl) hs hkind

/-- The call that a request starts. -/
theorem operation_suits {request : ControlRequest} {a : Action P} (ho : Operation request a)
    (hs : m.step a u = some u') : Suits request (u'.tasks u.nextTask) := by
  cases ho with
  | stop id =>
    rw [← Option.some.inj hs]
    simp only [State.spawn, State.goto, Function.update_self]
    exact .stop id id .lookup
  | reload id =>
    rw [← Option.some.inj hs]
    simp only [State.spawn, State.goto, Function.update_self]
    exact .reload id id .lookup
  | reloadAll =>
    rw [← Option.some.inj hs]
    simp only [State.spawn, State.goto, Function.update_self]
    exact .snapshot
  | list =>
    rw [← Option.some.inj hs]
    simp only [State.spawn, State.goto, Function.update_self]
    exact .list

theorem engaged_serves (hx : Exclusive s.core) (hh : Holdings s) (h : Engaged s)
    (hs : Serves c s s') : Engaged s' := by
  cases hs with
  | connected hp =>
    have hset := h.set s.nextHandler .reading s.provisioningSlots (by rintro ⟨⟩)
      (by rintro _ _ ⟨⟩)
    refine ⟨fun k hk => ?_, hset.calling, hset.cleanups, hset.rejecting, hset.sweeping⟩
    rcases Nat.lt_succ_iff_lt_or_eq.mp hk with hk | rfl
    · exact hset.present k hk
    · simp only [ServerState.setHandler, Function.update_self]
      rintro ⟨⟩
  | handled k handler slots hm =>
    refine h.set k handler slots (handler_move_present hm) (fun request t hr => ?_)
    subst hr
    generalize s.handlers k = old at hm
    cases hm
  | called k handler slots a core hc hstep =>
    have hcore := h.core_step hx hstep (fun _ t _ => (call_next hc hstep).2 t)
    refine hcore.set (s := { s with core }) k handler slots (handler_call_present hc)
      (fun request t hr => ?_)
    subst hr
    generalize s.handlers k = old at hc
    cases hc with
    | request request a ho => exact operation_suits ho hstep
  | cancelled k slots hp hi => exact h.set k .aborted slots (by rintro ⟨⟩) (by rintro _ _ ⟨⟩)
  | interrupted k slots t core hp hw hstep =>
    have hset := h.set k .aborted slots (by rintro ⟨⟩) (by rintro _ _ ⟨⟩)
    refine hset.core_step (s := { s.setHandler k .aborted with provisioningSlots := slots }) hx hstep
      ?_
    rintro j u hu ⟨⟩
    by_cases hjk : j = k
    · subst hjk
      simp only [ServerState.setHandler, Function.update_self] at hu
      cases hu
    · simp only [ServerState.setHandler, Function.update_of_ne hjk] at hu
      exact hjk (hh.single j k t hu hw)
  | delivered core hp hstep =>
    have hcore := h.core_step hx hstep (fun _ _ _ => by rintro ⟨⟩)
    refine ⟨hcore.present, hcore.calling, fun t ht => ?_, hcore.rejecting, hcore.sweeping⟩
    rcases List.mem_cons.mp ht with rfl | ht
    · simp only [SessionManager.step] at hstep
      split at hstep
      · cases hstep
      · rw [← Option.some.inj hstep]
        simp only [State.spawn, State.goto, Function.update_self]
        exact .teardown _ _ _
    · exact hcore.cleanups t ht
  | moved a core ha hstep => exact h.core_step hx hstep (fun _ t _ => internal_abort ha t)
  | closed core hp hstep =>
    have hcore := h.core_step hx hstep (fun _ _ _ => by rintro ⟨⟩)
    refine ⟨hcore.present, hcore.calling, hcore.cleanups, ?_, by rintro _ ⟨⟩⟩
    rintro t ⟨⟩
    rw [← Option.some.inj hstep]
    simp only [State.spawn, State.goto, Function.update_self]
    exact .waiting
  | rejected t hp hpc => exact ⟨h.present, h.calling, h.cleanups, by rintro _ ⟨⟩, by rintro _ ⟨⟩⟩
  | joined hp hj => exact ⟨h.present, h.calling, h.cleanups, by rintro _ ⟨⟩, by rintro _ ⟨⟩⟩
  | cleaned core hp hj hstep =>
    have hcore := h.core_step hx hstep (fun _ _ _ => by rintro ⟨⟩)
    refine ⟨hcore.present, hcore.calling, hcore.cleanups, by rintro _ ⟨⟩, ?_⟩
    rintro t ⟨⟩
    rw [← Option.some.inj hstep]
    simp only [State.spawn, State.goto, Function.update_self]
    exact .stage _
  | finished t hp hpc => exact ⟨h.present, h.calling, h.cleanups, by rintro _ ⟨⟩, by rintro _ ⟨⟩⟩

theorem engaged_reach (h : Reach c.step c.init s) : Engaged s := by
  have h0 : Engaged c.init := by
    refine ⟨?_, ?_, ?_, ?_, ?_⟩
    · rintro k ⟨⟩
    · rintro k request t ⟨⟩
    · rintro t ⟨⟩
    · rintro t ⟨⟩
    · rintro t ⟨⟩
  refine h.invariant h0 (fun hr hi hs => ?_)
  exact engaged_serves (exclusive_reach (orderly_reach hr).core.reach) (granted_reach hr).holdings
    hi (step_serves hs)

/-- Every call has returned, no connection waits for one (its response may still be on the
way to the client), and a shutdown that has begun is complete. -/
structure AtRest (s : ServerState P) : Prop where
  calls : ∀ t, (s.core.tasks t).over = true
  answered : ∀ k, (s.handlers k).waits = none
  phase : s.phase = .running ∨ s.phase = .stopped
  ended : s.phase = .stopped → ∀ k < s.nextHandler, (s.handlers k).over = true
  events : s.phase = .running → s.core.events = []

theorem rest_core (h : Rests c.step ServerOwed s) : Rests c.sessions.step Prompt s.core := by
  intro a ha
  cases ha with
  | advance t env =>
    have hnone : c.onCore s (.advance t env) = none := h (.advance t env) trivial
    exact Option.map_eq_none_iff.mp hnone
  | expire t _ r hr haborted =>
    have hnone : c.onCore s (.expire t) = none := h (.expire t) ⟨_, hr, haborted⟩
    exact Option.map_eq_none_iff.mp hnone
  | runtime r move _ hm =>
    have hnone : c.onCore s (.runtime r move) = none := h (.runtime r move) hm
    exact Option.map_eq_none_iff.mp hnone

theorem rest_answered (hh : Holdings s) (he : Engaged s) (h : Rests c.step ServerOwed s)
    (hover : ∀ t, (s.core.tasks t).over = true) (k : Nat) : (s.handlers k).waits = none := by
  have hnone : ControlServer.proceed k s = none := h (.proceed k) trivial
  unfold ControlServer.proceed at hnone
  cases hk : s.handlers k with
  | creating t =>
    obtain ⟨call, stage, hpc⟩ := hh.creating k t hk
    have hdone := hover t
    rw [hpc] at hdone
    cases stage with
    | done result => simp [hk, hpc] at hnone
    | _ => cases hdone
  | calling request t =>
    obtain ⟨response, hr⟩ := (he.calling k request t hk).answer (hover t)
    simp [hk, hr] at hnone
  | removing t id =>
    obtain ⟨stage, hpc, -⟩ := hh.removing k t id hk
    have hdone := hover t
    rw [hpc] at hdone
    cases stage with
    | done found => simp [hk, hpc] at hnone
    | _ => cases hdone
  | _ => rfl

theorem rest_phase (he : Engaged s) (h : Rests c.step ServerOwed s)
    (hover : ∀ t, (s.core.tasks t).over = true) (hw : ∀ k, (s.handlers k).waits = none) :
    s.phase = .running ∨ s.phase = .stopped := by
  cases hp : s.phase with
  | running => exact Or.inl rfl
  | rejecting t =>
    have hnone : c.proceedShutdown s .abortAll = none := h .abortAll trivial
    have hkind := he.rejecting t hp
    have hdone := hover t
    generalize hpc : s.core.tasks t = pc at hkind hdone
    cases hkind with
    | waiting => cases hdone
    | returned => simp [ControlServer.proceedShutdown, hp, hpc] at hnone
  | aborting =>
    have hnone : c.proceedShutdown s .joinConnections = none := h .joinConnections trivial
    have hall : s.connectionsJoined = true := by
      refine List.all_eq_true.mpr (fun k hk => ?_)
      have hkeep := h (.abort k) trivial
      simp only [ControlServer.step, if_pos hp, ControlServer.abortHandler] at hkeep
      have hwk := hw k
      cases hh : s.handlers k with
      | absent => exact absurd hh (he.present k (List.mem_range.mp hk))
      | ended | aborted => rfl
      | reading | responding | leasing => simp [hh] at hkeep
      | creating | calling | removing =>
        rw [hh] at hwk
        cases hwk
    simp [ControlServer.proceedShutdown, hp, hall] at hnone
  | cleaning =>
    have hnone : c.proceedShutdown s .joinCleanups = none := h .joinCleanups trivial
    have hall : s.cleanupsJoined = true := by
      refine List.all_eq_true.mpr (fun t ht => ?_)
      have hkind := he.cleanups t ht
      have hdone := hover t
      generalize s.core.tasks t = pc at hkind hdone
      cases hkind with
      | teardown g id stage =>
        cases stage with
        | done found => rfl
        | _ => cases hdone
    simp [ControlServer.proceedShutdown, hp, hall, ControlServer.onCore,
      SessionManager.step] at hnone
  | sweeping t =>
    have hnone : c.proceedShutdown s .finish = none := h .finish trivial
    have hkind := he.sweeping t hp
    have hdone := hover t
    generalize hpc : s.core.tasks t = pc at hkind hdone
    cases hkind with
    | stage stage =>
      cases stage with
      | done => simp [ControlServer.proceedShutdown, hp, hpc] at hnone
      | _ => cases hdone
  | stopped => exact Or.inr rfl

theorem server_rest (hreach : Reach c.step c.init s) (h : Rests c.step ServerOwed s) :
    AtRest s := by
  have ho := orderly_reach hreach
  have hcore := ho.core.reach
  have he := engaged_reach hreach
  have hover := resting_over (conserved_reach hcore) (dismissed_reach hcore) (rest_core h)
  have hw := rest_answered (granted_reach hreach).holdings he h hover
  refine ⟨hover, hw, rest_phase he h hover hw, fun hp => ho.joined.connections (by rw [hp]; rfl),
    fun hp => ?_⟩
  have hnone := h .deliver trivial
  simp only [ControlServer.step, if_pos hp] at hnone
  cases hev : s.core.events with
  | nil => rfl
  | cons event events =>
    simp [ControlServer.onCore, SessionManager.step, hev] at hnone

/-- From every reachable state of the server only finitely many steps are possible
that are no new connection, and where it stops taking steps of its own, every
request has been answered and a shutdown that has begun is complete. -/
theorem requests_answered (c : ControlServer P) (h : Reach c.step c.init s) :
    Terminates c.step ServerUnasked s ∧
      ∀ s', ReachBy c.step ServerUnasked s s' → Rests c.step ServerOwed s' → AtRest s' := by
  refine ⟨?_, fun s' hrun hrest => server_rest (h.trans hrun.reach) hrest⟩
  refine Terminates.of_rank (Reach c.step c.init) serverBacklog ?_ h
  intro s s' a hreach ha hs
  exact ⟨hreach.next hs, server_lowers (orderly_reach hreach) ha hs⟩

omit [DecidableEq P] in
theorem owed_unasked {s : ServerState P} {a : ServerAction P} (h : ServerOwed a s) :
    ServerUnasked a s := by
  cases a with
  | connect => cases h
  | runtime r move =>
    rintro rfl
    cases h
  | expire t => exact h
  | _ => trivial

/-- The server shuts down while one client keeps its lease and another sent nothing yet. -/
theorem requests_answered_sample :
    ∃ s, runSteps sampleServer.step (sampleLease ++ [.connect, .shutdown]) sampleServer.init
        = some s ∧
      s.phase = .rejecting 1 ∧ s.core.sessions.size = 1 ∧ (s.handlers 1).over = false ∧
      ∃ s', ReachBy sampleServer.step ServerUnasked s s' ∧ AtRest s' := by
  have hrun : (runSteps sampleServer.step (sampleLease ++ [.connect, .shutdown])
      sampleServer.init).any (fun s => s.phase == .rejecting 1 && s.core.sessions.size == 1 &&
        (s.handlers 1).over == false) = true := by decide +kernel
  obtain ⟨s, hs, htest⟩ := run_any hrun
  simp only [Bool.and_eq_true, beq_iff_eq] at htest
  obtain ⟨⟨hphase, hsize⟩, hread⟩ := htest
  obtain ⟨hends, hrests⟩ := requests_answered sampleServer (reach_run .start hs)
  obtain ⟨s', hreach, hrest⟩ := hends.rest
  exact ⟨s, hs, hphase, hsize, hread, s', hreach,
    hrests s' hreach (fun a ha => hrest a (owed_unasked ha))⟩

end Proofs

end Baffle
