import Baffle.Proofs.Admission
import Baffle.Proofs.Frames

namespace Baffle

/-- The session whose gate the call is about to store to. -/
def Pc.marks {P : Type} : Pc P → Option SessionId
  | .reload id _ (.marked ..) => some id
  | _ => none

namespace Proofs

variable {P : Type} {m : SessionManager P} {t : TaskId} {s s' : State P} {pc pc' : Pc P}
  {id : SessionId}

theorem holds_of_marks (h : pc.marks = some id) : pc.holds = some id := by
  cases pc with
  | reload j batch stage => cases stage <;> first | exact h | cases h
  | _ => cases h

/-- The record of a session agrees with itself. -/
structure Agrees (m : SessionManager P) (id : SessionId) (session : ManagedSession P) : Prop where
  id : session.info.id = id
  stopping : session.info.state = .stopping → session.runtime = none ∧ session.retiredRuntimes = []
  running : session.info.state = .running → ∃ runtime, session.runtime = some runtime ∧
    runtime.listenerGeneration = session.listenerGeneration ∧
    session.info.socket = m.paths.toStringLossy runtime.socketPath
  below : ∀ runtime ∈ session.retiredRuntimes,
    runtime.listenerGeneration < session.listenerGeneration
  distinct : (session.retiredRuntimes.map ProxyRuntime.listenerGeneration).Nodup
  few : session.retiredRuntimes.length ≤ maxRetiredListeners

/-- A record with the same listener that may have lost some of its retired runtimes. -/
structure Slimmed (old new : ManagedSession P) : Prop where
  id : new.info.id = old.info.id
  state : new.info.state = old.info.state
  socket : new.info.socket = old.info.socket
  runtime : new.runtime = old.runtime
  listenerGeneration : new.listenerGeneration = old.listenerGeneration
  retired : new.retiredRuntimes.Sublist old.retiredRuntimes

theorem Kept.slimmed {old new : ManagedSession P} (h : Kept s old new) : Slimmed old new :=
  ⟨h.id, h.state, h.socket, h.runtime, h.listenerGeneration, h.retired⟩

theorem Agrees.slimmed {old new : ManagedSession P} (h : Agrees m id old)
    (hs : Slimmed old new) : Agrees m id new where
  id := hs.id.trans h.id
  stopping hstop := by
    obtain ⟨hr, hn⟩ := h.stopping (hs.state ▸ hstop)
    have hretired := hs.retired
    rw [hn] at hretired
    exact ⟨hs.runtime.trans hr, List.sublist_nil.mp hretired⟩
  running hrun := by
    rw [hs.runtime, hs.listenerGeneration, hs.socket]
    exact h.running (hs.state ▸ hrun)
  below runtime hr := by
    rw [hs.listenerGeneration]
    exact h.below runtime (hs.retired.subset hr)
  distinct := h.distinct.sublist (hs.retired.map _)
  few := hs.retired.length_le.trans h.few

/-- The entry of a session agrees with its gate and with the cells of its runtimes. -/
structure Recorded (m : SessionManager P) (id : SessionId) (s : State P) : Prop where
  agrees : ∀ session, s.sessions.get id = some session → Agrees m id session
  gate : ∀ session, s.sessions.get id = some session →
    s.gates id = session.listenerGeneration ∨ ∃ t, (s.tasks t).marks = some id
  retired : ∀ session r, s.sessions.get id = some session → r < s.nextCell →
    (s.cells r).runtimeId = id → (s.cells r).retired = true →
    (s.cells r).listenerGeneration < session.listenerGeneration
  unused : id ∉ s.used → ∀ r, r < s.nextCell → (s.cells r).runtimeId ≠ id

/-- The session is there and runs while the call works on it. -/
def Underway (s : State P) (id : SessionId) (property : ManagedSession P → Prop) : Prop :=
  ∃ session, s.sessions.get id = some session ∧ session.info.state = .running ∧ property session

/-- There is room for one more retired runtime. -/
def Roomy (options : Replacement) (session : ManagedSession P) : Prop :=
  session.listenerGeneration + 1 = options.nextListenerGeneration ∧
    session.retiredRuntimes.length < maxRetiredListeners

/-- The replacement is current and its predecessor not yet among the retired runtimes. -/
def Replaced (options : Replacement) (oldRuntime : ProxyRuntime P) (session : ManagedSession P) :
    Prop :=
  session.listenerGeneration = options.nextListenerGeneration ∧
    oldRuntime.listenerGeneration < session.listenerGeneration ∧
    (∀ runtime ∈ session.retiredRuntimes,
      runtime.listenerGeneration < oldRuntime.listenerGeneration) ∧
    session.retiredRuntimes.length < maxRetiredListeners

/-- What a call relies on while it works on a session. -/
def Working (s : State P) : Pc P → Prop
  | .create call stage =>
    (∀ r, r < s.nextCell → (s.cells r).runtimeId = call.id → (s.cells r).retired = false) ∧
      ∀ runtime, stage = .register runtime →
        s.gates call.id = 1 ∧ runtime.listenerGeneration = 1
  | .reload id _ stage =>
    match stage with
    | .prepare _ | .compare .. | .commitSame _ | .limits _ => Underway s id (fun _ => True)
    | .start _ options => Underway s id (Roomy options)
    | .commit target options replacement => Underway s id (Roomy options) ∧
        replacement.listenerGeneration = options.nextListenerGeneration ∧
        replacement.socketPath = target.path
    | .marked _ options oldRuntime | .gated _ options oldRuntime =>
      Underway s id (Replaced options oldRuntime)
    | _ => True
  | .teardown _ id stage =>
    match stage with
    | .shutdown _ | .draining _ | .finish =>
      ∀ session, s.sessions.get id = some session → session.info.state = .stopping
    | .decrement => s.sessions.get id = none
    | _ => True
  | _ => True

theorem Frame.back (hf : Frame id s s') {session' : ManagedSession P}
    (h : s'.sessions.get id = some session') :
    ∃ session, s.sessions.get id = some session ∧ Kept s session session' := by
  cases hget : s.sessions.get id with
  | none =>
    rw [hf.absent hget] at h
    cases h
  | some session =>
    rcases hf.kept session hget with ⟨session1, h1, hk⟩ | ⟨-, h1⟩
    · rw [h] at h1
      cases h1
      exact ⟨session, rfl, hk⟩
    · rw [h] at h1
      cases h1

theorem Frame.forth (hf : Frame id s s') {session : ManagedSession P}
    (h : s.sessions.get id = some session) (hrun : session.info.state = .running) :
    ∃ session', s'.sessions.get id = some session' ∧ Kept s session session' := by
  rcases hf.kept session h with hk | ⟨hstop, -⟩
  · exact hk
  · rw [hrun] at hstop
    cases hstop

theorem Underway.frame {property property' : ManagedSession P → Prop} (hf : Frame id s s')
    (h : Underway s id property)
    (hp : ∀ {old new}, Kept s old new → property old → property' new) :
    Underway s' id property' := by
  obtain ⟨session, hs, hrun, hprop⟩ := h
  obtain ⟨session', hs', hk⟩ := hf.forth hs hrun
  exact ⟨session', hs', hk.state.trans hrun, hp hk hprop⟩

theorem Roomy.kept {options : Replacement} {old new : ManagedSession P} (hk : Kept s old new)
    (h : Roomy options old) : Roomy options new :=
  ⟨hk.listenerGeneration ▸ h.1, Nat.lt_of_le_of_lt hk.retired.length_le h.2⟩

theorem Replaced.kept {options : Replacement} {oldRuntime : ProxyRuntime P}
    {old new : ManagedSession P} (hk : Kept s old new) (h : Replaced options oldRuntime old) :
    Replaced options oldRuntime new := by
  obtain ⟨hg, hlt, hall, hroom⟩ := h
  refine ⟨hk.listenerGeneration ▸ hg, hk.listenerGeneration ▸ hlt,
    fun runtime hr => hall runtime (hk.retired.subset hr), ?_⟩
  exact Nat.lt_of_le_of_lt hk.retired.length_le hroom

theorem Recorded.frame (hf : Frame id s s') (h : Recorded m id s) : Recorded m id s' where
  agrees session' hs' := by
    obtain ⟨session, hs, hk⟩ := hf.back hs'
    exact (h.agrees session hs).slimmed hk.slimmed
  gate session' hs' := by
    obtain ⟨session, hs, hk⟩ := hf.back hs'
    rw [hf.gate, hk.listenerGeneration]
    rcases h.gate session hs with hg | ⟨u, hu⟩
    · exact Or.inl hg
    · refine Or.inr ⟨u, ?_⟩
      rw [hf.tasks u (holds_of_marks hu)]
      exact hu
  retired session' r hs' hr hid hret := by
    obtain ⟨session, hs, hk⟩ := hf.back hs'
    have hold := hf.fresh r hr hid
    have hid' : (s.cells r).runtimeId = id := (hf.heap.runtimeId r hold).symm.trans hid
    rw [hf.heap.listenerGeneration r hold, hk.listenerGeneration]
    exact h.retired session r hs hold hid' ((hf.core r hold hid').retired ▸ hret)
  unused hu r hr hid := by
    have hold := hf.fresh r hr hid
    exact h.unused (fun hmem => hu (hf.used hmem)) r hold
      ((hf.heap.runtimeId r hold).symm.trans hid)

theorem Working.frame (hh : pc.holds = some id) (hf : Frame id s s') (h : Working s pc) :
    Working s' pc := by
  cases pc with
  | create call stage =>
    obtain rfl := Pc.holds_create hh
    obtain ⟨hcells, hregister⟩ := h
    refine ⟨fun r hr hid => ?_, fun runtime hstage => ?_⟩
    · have hold := hf.fresh r hr hid
      have hid' := (hf.heap.runtimeId r hold).symm.trans hid
      rw [(hf.core r hold hid').retired]
      exact hcells r hold hid'
    · rw [hf.gate]
      exact hregister runtime hstage
  | reload j batch stage =>
    obtain rfl := Pc.holds_reload hh
    cases stage with
    | prepare | compare | commitSame | limits =>
      exact Underway.frame hf h (fun _ _ => trivial)
    | start => exact Underway.frame hf h Roomy.kept
    | commit => exact ⟨Underway.frame hf h.1 Roomy.kept, h.2⟩
    | marked | gated => exact Underway.frame hf h Replaced.kept
    | _ => trivial
  | teardown kind j stage =>
    obtain rfl := Pc.holds_teardown hh
    cases stage with
    | shutdown | draining | finish =>
      intro session' hs'
      obtain ⟨session, hs, hk⟩ := hf.back hs'
      exact hk.state.trans (h session hs)
    | decrement => exact hf.absent h
    | _ => trivial
  | _ => trivial

theorem used_of_holds (hx : Exclusive s) (hh : (s.tasks t).holds = some id) : id ∈ s.used := by
  rcases Pc.holds_cases hh with hc | hc
  · exact hx.used t id hc
  · exact (hx.seen t id (Pc.seen_of_serial hc)).1

/-- Unless the call is about to store to the gate, the gate is right. -/
theorem Recorded.gated (h : Recorded m id s) (hx : Exclusive s)
    (hh : (s.tasks t).holds = some id) (hm : (s.tasks t).marks ≠ some id)
    {session : ManagedSession P} (hs : s.sessions.get id = some session) :
    s.gates id = session.listenerGeneration := by
  rcases h.gate session hs with hg | ⟨u, hu⟩
  · exact hg
  · have hut := hx.unique u t id (holds_of_marks hu) hh
    rw [hut] at hu
    exact absurd hu hm

theorem recorded_vacant (hu : id ∈ s.used) (hs : s.sessions.get id = none) : Recorded m id s where
  agrees _ h := by
    rw [hs] at h
    cases h
  gate _ h := by
    rw [hs] at h
    cases h
  retired _ _ h := by
    rw [hs] at h
    cases h
  unused h := absurd hu h

/-- The entry of a session that is there. -/
theorem recorded_present (hu : id ∈ s.used) {session : ManagedSession P}
    (hs : s.sessions.get id = some session) (hagrees : Agrees m id session)
    (hgate : s.gates id = session.listenerGeneration ∨ ∃ t, (s.tasks t).marks = some id)
    (hretired : ∀ r, r < s.nextCell → (s.cells r).runtimeId = id → (s.cells r).retired = true →
      (s.cells r).listenerGeneration < session.listenerGeneration) : Recorded m id s where
  agrees _ h := by
    rw [hs] at h
    cases h
    exact hagrees
  gate _ h := by
    rw [hs] at h
    cases h
    exact hgate
  retired _ r h := by
    rw [hs] at h
    cases h
    exact hretired r
  unused h := absurd hu h

/-- A step that keeps the listener of the session. -/
theorem Recorded.slimmed (h : Recorded m id s) (hu : id ∈ s'.used)
    (hgate : ∀ session, s.sessions.get id = some session →
      s'.gates id = session.listenerGeneration)
    (hget : ∀ session', s'.sessions.get id = some session' →
      ∃ session, s.sessions.get id = some session ∧ Slimmed session session')
    (hcells : ∀ r, r < s'.nextCell → (s'.cells r).runtimeId = id → (s'.cells r).retired = true →
      r < s.nextCell ∧ (s.cells r).runtimeId = id ∧ (s.cells r).retired = true ∧
        (s'.cells r).listenerGeneration = (s.cells r).listenerGeneration) :
    Recorded m id s' where
  agrees session' hs' := by
    obtain ⟨session, hs, hk⟩ := hget session' hs'
    exact (h.agrees session hs).slimmed hk
  gate session' hs' := by
    obtain ⟨session, hs, hk⟩ := hget session' hs'
    rw [hk.listenerGeneration]
    exact Or.inl (hgate session hs)
  retired session' r hs' hr hid hret := by
    obtain ⟨session, hs, hk⟩ := hget session' hs'
    obtain ⟨hr, hid, hret, hg⟩ := hcells r hr hid hret
    rw [hk.listenerGeneration, hg]
    exact h.retired session r hs hr hid hret
  unused hn := absurd hu hn

/-- A write to a cell that does not change what `f` reads. -/
theorem set_same {α : Type} (f : RuntimeCell → α) {q r : RuntimeRef} {c : RuntimeCell}
    (h : f c = f (s.cells q)) : f ((s.setCell q c).cells r) = f (s.cells r) := by
  by_cases hr : r = q
  · subst hr
    simpa only [State.setCell, Function.update_self] using h
  · simp only [State.setCell, Function.update_of_ne hr]

theorem install_same (q r : RuntimeRef) :
    ((s.setCell q (s.cells q).install).cells r).runtimeId = (s.cells r).runtimeId ∧
    ((s.setCell q (s.cells q).install).cells r).listenerGeneration
      = (s.cells r).listenerGeneration ∧
    ((s.setCell q (s.cells q).install).cells r).retired = (s.cells r).retired :=
  ⟨set_same RuntimeCell.runtimeId rfl, set_same RuntimeCell.listenerGeneration rfl,
    set_same RuntimeCell.retired rfl⟩

theorem registry_create {call : CreateCall} {stage stage' : CreateStage P} (hx : Exclusive s)
    (hpc : s.tasks t = .create call stage) (hh : (s.tasks t).holds = some call.id)
    (hw : Working s (.create call stage)) (hm : CreateMove m s call stage s' stage') :
    Recorded m call.id (s'.goto t (.create call stage')) ∧
      Working (s'.goto t (.create call stage')) (.create call stage') := by
  have hu := used_of_holds hx hh
  have hnone := unregistered hx hpc hh
  obtain ⟨hcells, hregister⟩ := hw
  cases hm with
  | refused error =>
    exact ⟨recorded_vacant hu hnone, hcells, fun runtime h => by cases h⟩
  | reserved ha hroom hs hp =>
    exact ⟨recorded_vacant hu hnone, hcells, fun runtime h => by cases h⟩
  | failed error =>
    exact ⟨recorded_vacant hu hnone, hcells, fun runtime h => by cases h⟩
  | started socketPath =>
    refine ⟨recorded_vacant hu hnone, fun r hlt hid => ?_, fun runtime h => ?_⟩
    · rcases Nat.lt_succ_iff_lt_or_eq.mp hlt with hlt | rfl
      · simp only [State.goto, created, State.startRuntime,
          Function.update_of_ne (Nat.ne_of_lt hlt)] at hid ⊢
        exact hcells r hlt hid
      · simp [State.goto, created, State.startRuntime, RuntimeCell.start]
    · cases h
      exact ⟨Function.update_self .., rfl⟩
  | released error =>
    exact ⟨recorded_vacant hu hnone, hcells, fun runtime h => by cases h⟩
  | late runtime ha =>
    exact ⟨recorded_vacant hu hnone, hcells, fun runtime h => by cases h⟩
  | registered runtime ha =>
    obtain ⟨hgate, hone⟩ := hregister runtime rfl
    have hfresh : ∀ r, r < s.nextCell →
        ((s.setCell runtime.cell (s.cells runtime.cell).install).cells r).runtimeId = call.id →
        ((s.setCell runtime.cell (s.cells runtime.cell).install).cells r).retired = false := by
      intro r hlt hid
      obtain ⟨hiid, -, hir⟩ := install_same (s := s) runtime.cell r
      rw [hiid] at hid
      rw [hir]
      exact hcells r hlt hid
    refine ⟨recorded_present hu (SortedMap.get_insert_self ..) ?_ (Or.inl hgate) ?_,
      hfresh, fun runtime h => by cases h⟩
    · exact ⟨rfl, fun h => (by cases h), fun _ => ⟨runtime, rfl, hone, rfl⟩,
        fun _ h => (by cases h), List.nodup_nil, Nat.zero_le _⟩
    · intro r hlt hid hret
      have hf := hfresh r hlt hid
      exact Bool.noConfusion (hf.symm.trans hret)
  | dropped runtime =>
    exact ⟨recorded_vacant hu hnone, hcells, fun runtime h => by cases h⟩

theorem slimmed_refl (session : ManagedSession P) : Slimmed session session :=
  ⟨rfl, rfl, rfl, rfl, rfl, List.Sublist.refl _⟩

/-- A step that leaves the entry, its gate and the marks of retirement alone. -/
theorem Recorded.still (h : Recorded m id s) (hu : id ∈ s'.used)
    (hgate : ∀ session, s.sessions.get id = some session →
      s.gates id = session.listenerGeneration)
    (hs : s'.sessions = s.sessions) (hg : s'.gates = s.gates) (hnext : s'.nextCell = s.nextCell)
    (hcells : ∀ r, (s'.cells r).runtimeId = (s.cells r).runtimeId ∧
      (s'.cells r).retired = (s.cells r).retired ∧
      (s'.cells r).listenerGeneration = (s.cells r).listenerGeneration) : Recorded m id s' := by
  refine h.slimmed hu (fun session hget => hg ▸ hgate session hget) (fun session' hget => ?_) ?_
  · rw [hs] at hget
    exact ⟨session', hget, slimmed_refl session'⟩
  · intro r hr hid hret
    obtain ⟨h1, h2, h3⟩ := hcells r
    exact ⟨hnext ▸ hr, h1 ▸ hid, h2 ▸ hret, h3⟩

/-- The entry after a write to it. -/
theorem get_written {session new : ManagedSession P} (hs : s.sessions.get id = some session)
    (hnew : Slimmed session new) {session' : ManagedSession P}
    (h : (s.sessions.insert id new).get id = some session') :
    ∃ session, s.sessions.get id = some session ∧ Slimmed session session' := by
  rw [SortedMap.get_insert_self] at h
  cases h
  exact ⟨session, hs, hnew⟩

/-- A retired runtime is the one just marked or was retired before. -/
theorem set_retired {q r : RuntimeRef} {c : RuntimeCell} (hc : Tended (s.cells q) c)
    (hid : ((s.setCell q c).cells r).runtimeId = id)
    (h : ((s.setCell q c).cells r).retired = true) :
    (s.cells r).runtimeId = id ∧
      ((s.setCell q c).cells r).listenerGeneration = (s.cells r).listenerGeneration ∧
      (r = q ∨ (s.cells r).retired = true) := by
  refine ⟨(set_same RuntimeCell.runtimeId hc.runtimeId).symm.trans hid,
    set_same RuntimeCell.listenerGeneration hc.listenerGeneration, ?_⟩
  by_cases hr : r = q
  · exact Or.inl hr
  · simp only [State.setCell, Function.update_of_ne hr] at h
    exact Or.inr h

/-- The entry once the replacement is its current runtime. -/
theorem Agrees.switched {session : ManagedSession P} {target : ReloadTarget P}
    {options : Replacement} {replacement : ProxyRuntime P} (h : Agrees m id session)
    (hstate : session.info.state = .running)
    (hnext : session.listenerGeneration + 1 = options.nextListenerGeneration)
    (hgeneration : replacement.listenerGeneration = options.nextListenerGeneration)
    (hpath : replacement.socketPath = target.path) :
    Agrees m id (m.switched target options replacement session) := by
  refine ⟨h.id, fun hs => ?_, fun _ => ⟨replacement, rfl, hgeneration, ?_⟩, ?_, h.distinct, h.few⟩
  · exact absurd (hstate.symm.trans hs) (by decide)
  · exact congrArg _ hpath.symm
  · intro runtime hmem
    have hlt := h.below runtime hmem
    exact Nat.lt_of_lt_of_eq (Nat.lt_succ_of_lt hlt) hnext

/-- The entry once its predecessor is among the retired runtimes. -/
theorem Agrees.withRetired {session : ManagedSession P} {oldRuntime : ProxyRuntime P}
    (h : Agrees m id session) (hstate : session.info.state = .running)
    (hlt : oldRuntime.listenerGeneration < session.listenerGeneration)
    (hall : ∀ runtime ∈ session.retiredRuntimes,
      runtime.listenerGeneration < oldRuntime.listenerGeneration)
    (hroom : session.retiredRuntimes.length < maxRetiredListeners) :
    Agrees m id (SessionManager.withRetired oldRuntime session) := by
  refine ⟨h.id, fun hs => ?_, h.running, ?_, ?_, ?_⟩
  · exact absurd (hstate.symm.trans hs) (by decide)
  · intro runtime hmem
    rcases List.mem_append.mp hmem with hmem | hmem
    · exact h.below runtime hmem
    · cases List.mem_singleton.mp hmem
      exact hlt
  · simp only [SessionManager.withRetired, ManagedSession.countDraining, List.map_append,
      List.map_cons, List.map_nil]
    refine List.nodup_append.mpr ⟨h.distinct, List.nodup_singleton _, ?_⟩
    intro g hmem g' hmem'
    obtain ⟨runtime, hretired, rfl⟩ := List.mem_map.mp hmem
    cases List.mem_singleton.mp hmem'
    exact Nat.ne_of_lt (hall runtime hretired)
  · simp only [SessionManager.withRetired, ManagedSession.countDraining, List.length_append,
      List.length_singleton]
    exact hroom

theorem registry_reload {batch : Option Batch} {stage stage' : ReloadStage P} (hs : Sound s)
    (hpc : s.tasks t = .reload id batch stage) (hr : Recorded m id s)
    (hw : Working s (.reload id batch stage)) (hm : ReloadMove m s id stage s' stage') :
    Recorded m id (s'.goto t (.reload id batch stage')) ∧
      Working (s'.goto t (.reload id batch stage')) (.reload id batch stage') := by
  have hh : (s.tasks t).holds = some id := by
    rw [hpc]
    cases hm <;> rfl
  have hu := used_of_holds hs.exclusive hh
  have hg : (s.tasks t).marks ≠ some id → ∀ session, s.sessions.get id = some session →
      s.gates id = session.listenerGeneration :=
    fun hmk session hget => hr.gated hs.exclusive hh hmk hget
  rw [hpc] at hg
  have hstill : (Pc.reload id batch stage).marks ≠ some id → ∀ stage',
      Recorded m id (s.goto t (.reload id batch stage')) :=
    fun hmk _ => hr.still hu (hg hmk) rfl rfl rfl (fun _ => ⟨rfl, rfl, rfl⟩)
  cases hm with
  | missing hnone hres => exact ⟨recorded_vacant hu hnone, trivial⟩
  | turnedDown session hget hres =>
    exact ⟨hr.slimmed hu (hg (by rintro ⟨⟩))
      (fun _ => get_written hget (kept_unfinished session).count.slimmed)
      (fun r hlt hid hret => ⟨hlt, hid, hret, rfl⟩), trivial⟩
  | begun session hget hstate ha source hsource =>
    exact ⟨hr.slimmed hu (hg (by rintro ⟨⟩))
      (fun _ => get_written hget (kept_unfinished session).count.slimmed)
      (fun r hlt hid hret => ⟨hlt, hid, hret, rfl⟩),
      _, SortedMap.get_insert_self .., hstate, trivial⟩
  | unprepared source hres => exact ⟨hstill (by rintro ⟨⟩) _, trivial⟩
  | prepared source target store files read hread hc hsecrets hsocket => exact ⟨hstill (by rintro ⟨⟩) _, hw⟩
  | compareMissing source target hnone hres => exact ⟨recorded_vacant hu hnone, trivial⟩
  | unchanged source target session hget hc hv => exact ⟨hstill (by rintro ⟨⟩) _, trivial⟩
  | samePath source target hpath => exact ⟨hstill (by rintro ⟨⟩) _, hw⟩
  | otherPath source target hpath => exact ⟨hstill (by rintro ⟨⟩) _, hw⟩
  | sameFailed target hres => exact ⟨hstill (by rintro ⟨⟩) _, trivial⟩
  | sameCommitted target ha session hget runtime hruntime cell hcell =>
    have hcell' := replaced hcell
    refine ⟨hr.slimmed hu (hg (by rintro ⟨⟩)) (fun _ => get_written hget ?_) ?_, trivial⟩
    · exact ⟨rfl, rfl, rfl, rfl, rfl, List.Sublist.refl _⟩
    · intro r hlt hid hret
      refine ⟨hlt, ?_, ?_, ?_⟩
      · rw [← hid]
        exact (set_same RuntimeCell.runtimeId (by rw [hcell'])).symm
      · rw [← hret]
        exact (set_same RuntimeCell.retired (by rw [hcell'])).symm
      · exact set_same RuntimeCell.listenerGeneration (by rw [hcell'])
  | limitsRefused target hres => exact ⟨hstill (by rintro ⟨⟩) _, trivial⟩
  | limited target session hget hres =>
    exact ⟨hr.slimmed hu (hg (by rintro ⟨⟩))
      (fun _ => get_written hget (kept_unfinished session).slimmed)
      (fun r hlt hid hret => ⟨hlt, hid, hret, rfl⟩), trivial⟩
  | withinLimits target ha session hget runtime hruntime hroom =>
    obtain ⟨session', hget', hstate, -⟩ := hw
    rw [hget] at hget'
    cases hget'
    exact ⟨hr.slimmed hu (hg (by rintro ⟨⟩))
      (fun _ => get_written hget (kept_unfinished session).slimmed)
      (fun r hlt hid hret => ⟨hlt, hid, hret, rfl⟩),
      _, SortedMap.get_insert_self .., hstate, rfl, hroom⟩
  | unbound target options hres => exact ⟨hstill (by rintro ⟨⟩) _, trivial⟩
  | replacing target options =>
    refine ⟨hr.slimmed hu (hg (by rintro ⟨⟩)) (fun session' h => ⟨session', h, slimmed_refl _⟩) ?_,
      hw, rfl, rfl⟩
    intro r hlt hid hret
    rcases Nat.lt_succ_iff_lt_or_eq.mp hlt with hlt | rfl
    · simp only [State.goto, State.startRuntime, Function.update_of_ne (Nat.ne_of_lt hlt)] at hid hret ⊢
      exact ⟨hlt, hid, hret, trivial⟩
    · simp [State.goto, State.startRuntime, RuntimeCell.start] at hret
  | withdrawn target options replacement hwd hres => exact ⟨hstill (by rintro ⟨⟩) _, trivial⟩
  | vacant target options replacement session hget hstate hruntime hres =>
    obtain ⟨runtime, hsome, -⟩ := (hr.agrees session hget).running hstate
    rw [hruntime] at hsome
    cases hsome
  | switched target options replacement ha session hget hstate oldRuntime hruntime =>
    obtain ⟨⟨session', hget', -, hnext, hroom⟩, hgeneration, hpath⟩ := hw
    rw [hget] at hget'
    cases hget'
    have hagrees := hr.agrees session hget
    obtain ⟨runtime, hsome, hcurrent, -⟩ := hagrees.running hstate
    rw [hruntime] at hsome
    cases hsome
    have hlinked := hs.linked.session hget (mem_runtimes.mpr (Or.inr hruntime))
    refine ⟨recorded_present hu (SortedMap.get_insert_self ..)
      (hagrees.switched hstate hnext hgeneration hpath) (Or.inr ⟨t, ?_⟩) ?_,
      _, SortedMap.get_insert_self .., hstate, rfl, ?_, ?_, hroom⟩
    · simp only [State.goto, Function.update_self]
      rfl
    · intro r hlt hid hret
      obtain ⟨hrid, hrg, hrr⟩ := set_retired (s := s.setCell replacement.cell _)
        (tended_mark _) hid hret
      obtain ⟨hiid, hig, hir⟩ := install_same (s := s) replacement.cell r
      rw [hiid] at hrid
      rw [hig] at hrg
      have hle : (s.cells r).listenerGeneration ≤ session.listenerGeneration := by
        rcases hrr with rfl | hrr
        · rw [hlinked.2.2, hcurrent]
        · rw [hir] at hrr
          exact Nat.le_of_lt (hr.retired session r hget hlt hrid hrr)
      exact Nat.lt_of_lt_of_eq (Nat.lt_succ_of_le (hrg.le.trans hle)) hnext
    · exact Nat.lt_of_lt_of_eq (Nat.lt_succ_of_le (Nat.le_of_eq hcurrent)) hnext
    · intro runtime hmem
      rw [hcurrent]
      exact hagrees.below runtime hmem
  | gateStored target options oldRuntime =>
    obtain ⟨session, hget, hstate, hnext, hrest⟩ := hw
    refine ⟨recorded_present hu hget (hr.agrees session hget) (Or.inl ?_)
      (fun r => hr.retired session r hget), session, hget, hstate, hnext, hrest⟩
    rw [hnext]
    exact Function.update_self ..
  | lost target options oldRuntime hnone =>
    obtain ⟨session, hget, -⟩ := hw
    rw [hnone] at hget
    cases hget
  | retired target options oldRuntime session hget =>
    obtain ⟨session', hget', hstate, hnext, hlt, hall, hroom⟩ := hw
    rw [hget] at hget'
    cases hget'
    have hagrees := hr.agrees session hget
    have hlinked := hs.linked t id oldRuntime
      (Or.inr (by rw [hpc]; exact List.mem_singleton_self _))
    refine ⟨recorded_present hu (SortedMap.get_insert_self ..)
      (hagrees.withRetired hstate hlt hall hroom)
      (Or.inl (hg (by rintro ⟨⟩) session hget)) ?_, trivial⟩
    intro r hlt' hid hret
    obtain ⟨hrid, hrg, hrr⟩ := set_retired (tended_retire _) hid hret
    refine hrg.trans_lt ?_
    rcases hrr with rfl | hrr
    · rw [hlinked.2.2]
      exact hlt
    · exact hr.retired session r hget hlt' hrid hrr
  | stopping replacement result =>
    exact ⟨hr.still hu (hg (by rintro ⟨⟩)) rfl rfl rfl (fun _ => ⟨rfl, rfl, rfl⟩), trivial⟩
  | drained cell result hf => exact ⟨hstill (by rintro ⟨⟩) _, trivial⟩

/-- The entry once a tear-down has taken its runtimes. -/
theorem recorded_taken {session : ManagedSession P} (hr : Recorded m id s) (hu : id ∈ s.used)
    (hget : s.sessions.get id = some session) (hgate : s.gates id = session.listenerGeneration) :
    Recorded m id ((SessionManager.takeRuntimes t id session s).goto t pc') := by
  refine recorded_present hu (SortedMap.get_insert_self ..) ?_ (Or.inl hgate)
    (fun r => hr.retired session r hget)
  exact ⟨(hr.agrees session hget).id, fun _ => ⟨rfl, rfl⟩, fun h => (by cases h),
    fun _ h => (by cases h), List.nodup_nil, Nat.zero_le _⟩

theorem registry_teardown {kind : TeardownKind} {stage stage' : TeardownStage P}
    (hs : Sound s) (hpc : s.tasks t = .teardown kind id stage)
    (hh : (s.tasks t).holds = some id) (hr : Recorded m id s)
    (hw : Working s (.teardown kind id stage)) (hm : TeardownMove t s kind id stage s' stage') :
    Recorded m id (s'.goto t (.teardown kind id stage')) ∧
      Working (s'.goto t (.teardown kind id stage')) (.teardown kind id stage') := by
  have hu := used_of_holds hs.exclusive hh
  have hg : ∀ session, s.sessions.get id = some session →
      s.gates id = session.listenerGeneration := by
    intro session hget
    refine hr.gated hs.exclusive hh ?_ hget
    rw [hpc]
    rintro ⟨⟩
  rw [hpc] at hh
  cases hm with
  | unknown | found | locked => cases hh
  | gone hnone => exact ⟨recorded_vacant hu hnone, trivial⟩
  | forgotten g hk session hget hne =>
    refine ⟨hr.slimmed hu hg (fun _ => get_written hget ?_)
      (fun r hlt hid hret => ⟨hlt, hid, hret, rfl⟩), trivial⟩
    exact ⟨rfl, rfl, rfl, rfl, rfl, List.filter_sublist⟩
  | late session hget hstate =>
    exact ⟨hr.still hu hg rfl rfl rfl (fun _ => ⟨rfl, rfl, rfl⟩), trivial⟩
  | claimed session hget hk hlive =>
    refine ⟨recorded_taken hr hu hget (hg session hget), fun session' hget' => ?_⟩
    simp only [State.goto, SessionManager.takeRuntimes, State.setSession,
      SortedMap.get_insert_self] at hget'
    cases hget'
    rfl
  | stopping runtimes => exact ⟨hr.still hu hg rfl rfl rfl (fun _ => ⟨rfl, rfl, rfl⟩), hw⟩
  | drained cells hf => exact ⟨hr.still hu hg rfl rfl rfl (fun _ => ⟨rfl, rfl, rfl⟩), hw⟩
  | entryGone hnone => exact ⟨recorded_vacant hu hnone, trivial⟩
  | removed session hget =>
    exact ⟨recorded_vacant hu (SortedMap.get_erase_self ..), SortedMap.get_erase_self ..⟩
  | counted =>
    exact ⟨hr.still hu hg rfl rfl rfl (fun _ => ⟨rfl, rfl, rfl⟩), trivial⟩

theorem registry_sweep {stage stage' : SweepStage P} (hs : Sound s)
    (hpc : s.tasks t = .shutdownAll stage) (hh : (s.tasks t).holds = some id)
    (hr : Recorded m id s) (hm : SweepMove t s stage s' stage') :
    Recorded m id (s'.goto t (.shutdownAll stage')) := by
  have hu := used_of_holds hs.exclusive hh
  have hg : ∀ session, s.sessions.get id = some session →
      s.gates id = session.listenerGeneration := by
    intro session hget
    refine hr.gated hs.exclusive hh ?_ hget
    rw [hpc]
    rintro ⟨⟩
  rw [hpc] at hh
  cases hm with
  | gone j ids runtimes count hnone =>
    cases hh
    exact recorded_vacant hu hnone
  | claimed j ids runtimes count session hget =>
    cases hh
    exact recorded_taken hr hu hget (hg session hget)
  | _ => cases hh

theorem Between.working (h : Between pc) : Working s pc := by cases h <;> trivial

/-- The moves of the call that works on a session keep its entry in order. -/
theorem registry_move (hs : Sound s) (hh : (s.tasks t).holds = some id) (hr : Recorded m id s)
    (hw : Working s (s.tasks t)) (hm : Move m t s (s.tasks t) s' pc') :
    Recorded m id (s'.goto t pc') ∧ Working (s'.goto t pc') pc' := by
  generalize hpc : s.tasks t = pc at hm
  rw [hpc] at hw
  cases hm with
  | create call h =>
    rw [hpc] at hh
    obtain rfl := Pc.holds_create hh
    exact registry_create hs.exclusive hpc (by rw [hpc]; exact hh) hw h
  | reload j batch h =>
    rw [hpc] at hh
    obtain rfl := Pc.holds_reload hh
    exact registry_reload hs hpc hr hw h
  | reloadReturned j batch result =>
    have hu := used_of_holds hs.exclusive hh
    refine ⟨hr.still hu (fun session hget => ?_) rfl rfl rfl
      (fun _ => ⟨rfl, rfl, rfl⟩), (after_reload_between batch result).working⟩
    refine hr.gated hs.exclusive hh ?_ hget
    rw [hpc]
    rintro ⟨⟩
  | teardown kind j h =>
    have hj := hh
    rw [hpc] at hj
    obtain rfl := Pc.holds_teardown hj
    exact registry_teardown hs hpc hh hr hw h
  | sweep h => exact ⟨registry_sweep hs hpc hh hr h, trivial⟩
  | unknown | found | locked | reloadAll | rejected | listed =>
    rw [hpc] at hh
    cases hh

theorem marks_of_abortable (h : pc.abortable = true) : pc.marks = none := by
  cases pc with
  | reload j batch stage => cases stage <;> first | rfl | cases h
  | _ => rfl

theorem registry_upheld [DecidableEq P] (h : Reach m.step State.init s) (id : SessionId) :
    Upheld (Recorded m) (fun _ => Working) id s := by
  refine session_rule ?_ ?_ ?_ ?_ ?_ ?_ h id
  · intro id
    exact ⟨fun _ h => (by cases h), fun _ h => (by cases h), fun _ _ h => (by cases h),
      fun _ r hr => absurd hr (Nat.not_lt_zero r)⟩
  · intro id s s' _ hf hr
    exact hr.frame hf
  · intro id s s' t _ hh _ hf hw
    exact hw.frame hh hf
  · intro id s s' pc _ hen _ hf hr
    cases hen with
    | create call hid hnew =>
      subst hid
      refine ⟨fun r hlt hrid => ?_, fun runtime h => by cases h⟩
      have hold := hf.fresh r hlt hrid
      exact absurd ((hf.heap.runtimeId r hold).symm.trans hrid) (hr.unused hnew r hold)
    | _ => trivial
  · intro id s s' t pc hreach hh hr hw hm
    exact registry_move (sound_reach hreach) hh hr hw hm
  · intro id s t hreach hh ha hb hr hw
    have hx := exclusive_reach hreach
    have hu := used_of_holds hx hh
    refine hr.still hu (fun session hget => ?_) rfl rfl rfl (fun r => ?_)
    · refine hr.gated hx hh ?_ hget
      rw [marks_of_abortable hb]
      rintro ⟨⟩
    · have ht := tended_aborted (s := s) (s.tasks t).owned (s.tasks t).draining r
      have hc := core_abort_cells (s := s.dropRuntimes (s.tasks t).owned) (s.tasks t).draining r
      exact ⟨ht.runtimeId, hc.retired, ht.listenerGeneration⟩

theorem recorded_reach [DecidableEq P] (h : Reach m.step State.init s) (id : SessionId) :
    Recorded m id s := (registry_upheld h id).1

theorem working_reach [DecidableEq P] (h : Reach m.step State.init s)
    (hh : (s.tasks t).holds = some id) : Working s (s.tasks t) := (registry_upheld h id).2 t hh

/-- The record of a session, its gate and the runtimes it refers to agree. -/
structure Consistent (m : SessionManager P) (s : State P) (id : SessionId)
    (session : ManagedSession P) : Prop where
  named : session.info.id = id
  running : session.info.state = .running → ∃ runtime, session.runtime = some runtime ∧
    runtime.listenerGeneration = session.listenerGeneration ∧
    s.gates id = session.listenerGeneration ∧
    session.info.socket = m.paths.toStringLossy runtime.socketPath
  stopping : session.info.state = .stopping → session.runtime = none ∧ session.retiredRuntimes = []
  below : ∀ runtime ∈ session.retiredRuntimes,
    runtime.listenerGeneration < session.listenerGeneration
  distinct : (session.retiredRuntimes.map ProxyRuntime.listenerGeneration).Nodup
  few : session.retiredRuntimes.length ≤ 8
  linked : ∀ runtime ∈ session.runtimes, runtime.cell < s.nextCell ∧
    (s.cells runtime.cell).runtimeId = id ∧
    (s.cells runtime.cell).listenerGeneration = runtime.listenerGeneration

theorem guards_of_marks (h : pc.marks = some id) : pc.guards = true := by
  cases pc with
  | reload j batch stage => cases stage <;> first | rfl | cases h
  | _ => cases h

/-- While the registry lock is free nobody is about to store to a gate. -/
theorem marks_free (hx : Exclusive s) (hfree : s.registryFree = true) (u : TaskId) :
    (s.tasks u).marks ≠ some id := by
  intro hu
  by_cases hlt : u < s.nextTask
  · have hall := List.all_eq_true.mp hfree u (List.mem_range.mpr hlt)
    simp [guards_of_marks hu] at hall
  · rw [hx.absent u (Nat.le_of_not_lt hlt)] at hu
    cases hu

theorem consistent_reach [DecidableEq P] (h : Reach m.step State.init s)
    (hfree : s.registryFree = true) {session : ManagedSession P}
    (hs : s.sessions.get id = some session) : Consistent m s id session := by
  have hsound := sound_reach h
  have hr := recorded_reach h id
  have hagrees := hr.agrees session hs
  have hgate : s.gates id = session.listenerGeneration := by
    rcases hr.gate session hs with hg | ⟨u, hu⟩
    · exact hg
    · exact absurd hu (marks_free hsound.exclusive hfree u)
  refine ⟨hagrees.id, fun hrun => ?_, hagrees.stopping, hagrees.below, hagrees.distinct,
    hagrees.few, fun runtime hmem => hsound.linked.session hs hmem⟩
  obtain ⟨runtime, hsome, hcurrent, hsocket⟩ := hagrees.running hrun
  exact ⟨runtime, hsome, hcurrent, hgate, hsocket⟩

/-- The exit call of a retired listener leaves its session running on the current one. -/
theorem retired_exit (hr : Recorded m id s) (hw : (s.tasks t).holds = some id →
      Working s (s.tasks t)) {r : RuntimeRef} (hlt : r < s.nextCell)
    (hid : (s.cells r).runtimeId = id) (hret : (s.cells r).retired = true)
    {session : ManagedSession P} (hs : s.sessions.get id = some session)
    (hrun : session.info.state = .running) {stage stage' : TeardownStage P}
    (hpc : s.tasks t = .teardown (.runtimeExit (s.cells r).listenerGeneration) id stage)
    (hm : TeardownMove t s (.runtimeExit (s.cells r).listenerGeneration) id stage s' stage') :
    ∃ session', s'.sessions.get id = some session' ∧ session'.info.state = .running ∧
      session'.runtime = session.runtime := by
  have hbelow := hr.retired session r hs hlt hid hret
  rw [hpc] at hw
  cases hm with
  | unknown hnone | gone hnone | entryGone hnone =>
    rw [hs] at hnone
    cases hnone
  | found | locked | stopping | drained | counted => exact ⟨session, hs, hrun, rfl⟩
  | forgotten g hk session' hs' hne =>
    rw [hs] at hs'
    cases hs'
    exact ⟨_, SortedMap.get_insert_self .., hrun, rfl⟩
  | late session' hs' hstate =>
    rw [hs] at hs'
    cases hs'
    rw [hrun] at hstate
    cases hstate
  | claimed session' hs' hk hlive =>
    -- the exit names a generation below the current one, so it claims nothing
    rw [hs] at hs'
    cases hs'
    exact absurd (hk _ rfl) (Nat.ne_of_gt hbelow)
  | removed session' hs' =>
    have hstop := hw rfl session hs
    rw [hrun] at hstop
    cases hstop

/-- In every reachable state: the registry is consistent while its lock is free,
a reload never finds a running session without a runtime, and the exit of a
retired listener does not stop its session. -/
theorem registry_invariant [DecidableEq P] (h : Reach m.step State.init s) :
    (s.registryFree = true → ∀ id session, s.sessions.get id = some session →
      Consistent m s id session) ∧
    (∀ t id batch target options replacement,
      s.tasks t = .reload id batch (.commit target options replacement) →
      ∀ result, (m.reloadCommit id target options replacement s).2 ≠ .returning result) ∧
    ∀ r t env id stage s' session, r < s.nextCell → (s.cells r).runtimeId = id →
      (s.cells r).retired = true → s.sessions.get id = some session →
      session.info.state = .running →
      s.tasks t = .teardown (.runtimeExit (s.cells r).listenerGeneration) id stage →
      m.step (.advance t env) s = some s' →
      ∃ session', s'.sessions.get id = some session' ∧ session'.info.state = .running ∧
        session'.runtime = session.runtime := by
  refine ⟨fun hfree id session hs => consistent_reach h hfree hs, ?_, ?_⟩
  · intro t id batch target options replacement hpc result hres
    have hm : ReloadMove m s id (.commit target options replacement) _ _ := reload_commit_move
    rw [hres] at hm
    generalize (m.reloadCommit id target options replacement s).1 = u at hm
    cases hm with
    | vacant _ _ _ session hs hstate hruntime hr =>
      obtain ⟨runtime, hsome, -⟩ := ((recorded_reach h id).agrees session hs).running hstate
      rw [hruntime] at hsome
      cases hsome
  · intro r t env id stage s' session hlt hid hret hs hrun hpc hstep
    obtain ⟨⟨u, pc⟩, ha, rfl⟩ := Option.map_eq_some_iff.mp hstep
    rw [hpc] at ha
    obtain ⟨stage', rfl, hm⟩ := advance_teardown ha
    have hstays := retired_exit (recorded_reach h id) (fun hh => working_reach h hh) hlt hid hret
      hs hrun hpc hm
    exact hstays

def samplePaths : Paths Text where
  join dir name := dir ++ '/' :: name
  joinPath dir path := dir ++ '/' :: path
  isAbsolute path := path.head? == some '/'
  fromText text := text
  toStringLossy path := path

def sampleManager : SessionManager Text where
  crates := sampleCrates
  paths := samplePaths
  socketDir := "/run".toList
  maxSessions := 2
  maxConnectionsPerSession := 1
  trustedOperatorUid := 0
  allowedSecrets := ∅

def sampleCall : CreateCall where
  id := "a".toList
  session := { sampleSession with rules := [] }
  secrets := ∅
  configSource := none
  credentialSeed := zeroSeed

/-- Every socket can be bound, and there is no configuration directory. -/
def sampleEnvironment : Environment Text where
  configs := none
  secretFiles := ⟨none, fun _ => none, fun _ => none, fun _ => none⟩
  currentDir := none
  bound := true

/-- One session is created: the reservation, the start and the registration. -/
def sampleCreation : List (Action Text) :=
  [.create sampleCall, .advance 0 sampleEnvironment, .advance 0 sampleEnvironment,
    .advance 0 sampleEnvironment]

theorem registry_invariant_sample :
    ∃ s, runSteps sampleManager.step sampleCreation State.init = some s ∧
      s.registryFree = true ∧
      ∃ session, s.sessions.get sampleCall.id = some session ∧ session.info.state = .running ∧
        Consistent sampleManager s sampleCall.id session := by
  have hrun : (runSteps sampleManager.step sampleCreation State.init).any (fun s =>
      s.registryFree && (s.sessions.get sampleCall.id).any
        (fun session => session.info.state == .running)) = true := by decide
  obtain ⟨s, hs, htest⟩ := run_any hrun
  simp only [Bool.and_eq_true, Option.any_eq_true_iff_get, beq_iff_eq] at htest
  obtain ⟨hfree, hsome, hstate⟩ := htest
  have hget := (Option.some_get hsome).symm
  exact ⟨s, hs, hfree, _, hget, hstate,
    (registry_invariant (reach_run .start hs)).1 hfree _ _ hget⟩

def busyManager : SessionManager Text := { sampleManager with maxConnectionsPerSession := 16 }

def busyCall : CreateCall :=
  { sampleCall with
    session := { sampleCall.session with socketName := some "one.sock".toList }
    configSource := some "a.toml".toList }

/-- The configuration file names this socket and this treatment of unmatched hosts. -/
def busyEnvironment (socket unmatched : String) : Environment Text :=
  { sampleEnvironment with
    configs := some ⟨fun _ => .ok (.table {
      version := .value 2
      persistent := .absent
      socketName := .value socket.toList
      unmatched := .value unmatched.toList
      rules := none
      credentials := .absent
      imports := .absent
      unsupportedFields := [] })⟩ }

def openConnection (r : RuntimeRef) : List (Action Text) :=
  [.runtime r .accept, .runtime r .checkGate, .runtime r .borrow, .runtime r .dispatch]

/-- A whole reload, as task `t`, and then one more connection. -/
def reloadAndOpen (t : TaskId) (moves : Nat) (socket unmatched : String) (r : RuntimeRef) :
    List (Action Text) :=
  .reload busyCall.id :: List.replicate moves (.advance t (busyEnvironment socket unmatched)) ++
    openConnection r

/-- Seven reloads with the path kept, one that changes it, and one more that keeps it. -/
def busyRun : List (Action Text) :=
  .create busyCall :: List.replicate 3 (.advance 0 sampleEnvironment) ++ openConnection 0 ++
    reloadAndOpen 1 7 "one.sock" "tunnel" 0 ++ reloadAndOpen 2 7 "one.sock" "deny" 0 ++
    reloadAndOpen 3 7 "one.sock" "tunnel" 0 ++ reloadAndOpen 4 7 "one.sock" "deny" 0 ++
    reloadAndOpen 5 7 "one.sock" "tunnel" 0 ++ reloadAndOpen 6 7 "one.sock" "deny" 0 ++
    reloadAndOpen 7 7 "one.sock" "tunnel" 0 ++ reloadAndOpen 8 11 "two.sock" "tunnel" 1 ++
    reloadAndOpen 9 7 "two.sock" "deny" 1

end Proofs

end Baffle
