import Baffle.Proofs.Teardown

namespace Baffle

namespace Pc

variable {P : Type}

/-- The decrements of the gauge that the call has still to make. -/
def owes : Pc P → Nat
  | .teardown _ _ .decrement => 1
  | .shutdownAll (.decrement count) => count
  | _ => 0

/-- The session that a tear-down is going to take out of the registry. -/
def removing : Pc P → Option SessionId
  | .teardown _ id (.shutdown _) | .teardown _ id (.draining _) | .teardown _ id .finish => some id
  | _ => none

/-- A `shutdown_all` that has not returned. -/
def sweeping : Pc P → Bool
  | .shutdownAll .done => false
  | .shutdownAll _ => true
  | _ => false

end Pc

/-- The sessions that the loop of `shutdown_all` has still to visit, and its `session_count`. -/
def SweepStage.tally {P : Type} : SweepStage P → Option (List SessionId × Nat)
  | .next ids _ count => some (ids, count)
  | .lock id ids _ count | .claim id ids _ count => some (id :: ids, count)
  | .draining _ count | .clear count => some ([], count)
  | _ => none

/-- The sweep has cleared the registry. -/
def SweepStage.cleared {P : Type} : SweepStage P → Bool
  | .decrement _ | .done => true
  | _ => false

namespace Proofs

variable {P : Type} {m : SessionManager P} {t : TaskId} {s s' : State P} {pc pc' : Pc P}
  {id : SessionId}

/-- `shutdown_all` has counted the registered sessions that it has passed, and
nobody is going to remove one of them. -/
structure Tally (s : State P) (ids : List SessionId) (count : Nat) : Prop where
  nodup : ids.Nodup
  passed : (s.sessions.keys.toFinset \ ids.toFinset).card = count
  removing : ∀ u id, (s.tasks u).removing = some id → (s.sessions.get id).isSome = true → id ∈ ids

def Tallied (s : State P) : Prop :=
  ∀ t stage ids count, s.tasks t = .shutdownAll stage → stage.tally = some (ids, count) →
    Tally s ids count

theorem mem_registered : id ∈ s.sessions.keys ↔ (s.sessions.get id).isSome = true := by
  rw [SortedMap.mem_keys, Option.isSome_iff_exists]

theorem tally_rest {stage : SweepStage P} {ids : List SessionId} {count : Nat}
    (h : stage.tally = some (ids, count)) : stage.rest = some ids := by
  cases stage <;> cases h <;> rfl

theorem tally_sweeping {stage : SweepStage P} {ids : List SessionId} {count : Nat}
    (h : stage.tally = some (ids, count)) : (Pc.shutdownAll stage).sweeping = true := by
  cases stage <;> cases h <;> rfl

theorem removing_serial (h : pc.removing = some id) : pc.serial = some id := by
  cases pc with
  | teardown kind j stage => cases stage <;> simp_all [Pc.removing, Pc.serial, TeardownStage.locked]
  | _ => cases h

/-- The entries that the sweep has passed stay the same. -/
theorem Tally.kept {ids : List SessionId} {count : Nat} (h : Tally s ids count)
    (hback : ∀ id, (s'.sessions.get id).isSome = true → (s.sessions.get id).isSome = true)
    (hlost : ∀ id, (s.sessions.get id).isSome = true → (s'.sessions.get id).isSome = true ∨ id ∈ ids)
    (hremoving : ∀ u id, (s'.tasks u).removing = some id → (s'.sessions.get id).isSome = true →
      (s.tasks u).removing = some id ∨ id ∈ ids) : Tally s' ids count where
  nodup := h.nodup
  passed := by
    rw [← h.passed]
    congr 1
    ext id
    simp only [Finset.mem_sdiff, List.mem_toFinset, mem_registered]
    refine ⟨fun ⟨hs, hn⟩ => ⟨hback id hs, hn⟩, fun ⟨hs, hn⟩ => ⟨?_, hn⟩⟩
    exact (hlost id hs).resolve_right hn
  removing u id hu hs := by
    rcases hremoving u id hu hs with hu | hmem
    · exact h.removing u id hu (hback id hs)
    · exact hmem

/-- The sweep moves on from a session that is not there any more. -/
theorem Tally.skip {ids : List SessionId} {count : Nat} (h : Tally s (id :: ids) count)
    (hs : s.sessions.get id = none) : Tally s ids count where
  nodup := (List.nodup_cons.mp h.nodup).2
  passed := by
    rw [← h.passed]
    congr 1
    ext j
    simp only [Finset.mem_sdiff, List.mem_toFinset, mem_registered, List.mem_cons]
    refine ⟨fun ⟨hj, hn⟩ => ⟨hj, ?_⟩, fun ⟨hj, hn⟩ => ⟨hj, fun hm => hn (Or.inr hm)⟩⟩
    rintro (rfl | hm)
    · rw [hs] at hj
      cases hj
    · exact hn hm
  removing u j hu hj := by
    rcases List.mem_cons.mp (h.removing u j hu hj) with rfl | hm
    · rw [hs] at hj
      cases hj
    · exact hm

/-- The sweep counts a session that nobody else works on. -/
theorem Tally.count {ids : List SessionId} {count : Nat} (h : Tally s (id :: ids) count)
    (hs : (s.sessions.get id).isSome = true) (hfree : ∀ u, (s.tasks u).removing ≠ some id) :
    Tally s ids (count + 1) where
  nodup := (List.nodup_cons.mp h.nodup).2
  passed := by
    have hnot : id ∉ ids := (List.nodup_cons.mp h.nodup).1
    have hset : s.sessions.keys.toFinset \ ids.toFinset =
        insert id (s.sessions.keys.toFinset \ (id :: ids).toFinset) := by
      ext j
      simp only [Finset.mem_sdiff, Finset.mem_insert, List.mem_toFinset, List.mem_cons,
        mem_registered]
      constructor
      · rintro ⟨hj, hn⟩
        by_cases hid : j = id
        · exact Or.inl hid
        · exact Or.inr ⟨hj, fun hm => hm.elim hid hn⟩
      · rintro (rfl | ⟨hj, hn⟩)
        · exact ⟨hs, hnot⟩
        · exact ⟨hj, fun hm => hn (Or.inr hm)⟩
    rw [hset, Finset.card_insert_of_notMem (by simp), h.passed]
  removing u j hu hj := by
    rcases List.mem_cons.mp (h.removing u j hu hj) with rfl | hm
    · exact absurd hu (hfree u)
    · exact hm

/-- A move of the sweep itself. -/
theorem tally_sweep (m : SessionManager P) {stage stage' : SweepStage P} {ids' : List SessionId} {count' : Nat}
    (hx : Exclusive s) (hpc : s.tasks t = .shutdownAll stage)
    (h : ∀ ids count, stage.tally = some (ids, count) → Tally s ids count)
    (hm : SweepMove t s stage s' stage') (htally : stage'.tally = some (ids', count')) :
    Tally (s'.goto t (.shutdownAll stage')) ids' count' := by
  have htasks : s'.tasks = s.tasks := (move_calls (m := m) (.sweep hm)).1
  have hremoving : ∀ u j, ((s'.goto t (.shutdownAll stage')).tasks u).removing = some j →
      (s.tasks u).removing = some j := by
    intro u j hu
    by_cases hut : u = t
    · subst hut
      simp only [State.goto, Function.update_self] at hu
      cases hu
    · simpa only [State.goto, Function.update_of_ne hut, htasks] using hu
  have hsame : s'.sessions = s.sessions → Tally s ids' count' →
      Tally (s'.goto t (.shutdownAll stage')) ids' count' := by
    intro hs hold
    refine hold.kept (fun id hid => ?_) (fun id hid => Or.inl ?_)
      (fun u j hu _ => Or.inl (hremoving u j hu))
    · rwa [State.goto, hs] at hid
    · rwa [State.goto, hs]
  cases hm with
  | begun =>
    cases htally
    refine ⟨SortedMap.keys_nodup _, ?_, fun u j hu hj => mem_registered.mpr hj⟩
    rw [Finset.card_eq_zero]
    exact Finset.sdiff_self _
  | stopping runtimes count => exact hsame rfl (h _ _ htally)
  | skipped j ids runtimes count hs =>
    cases htally
    exact hsame rfl ((h _ _ rfl).skip hs)
  | found j ids runtimes count hs => exact hsame rfl (h _ _ htally)
  | locked j ids runtimes count hfree => exact hsame rfl (h _ _ htally)
  | gone j ids runtimes count hs =>
    cases htally
    exact hsame rfl ((h _ _ rfl).skip hs)
  | claimed j ids runtimes count session hs =>
    cases htally
    have hfree : ∀ u, (s.tasks u).removing ≠ some j := by
      intro u hu
      have hsu := Pc.holds_of_serial (removing_serial hu)
      obtain rfl := hx.unique u t j hsu (Pc.holds_of_serial (by rw [hpc]; rfl))
      rw [hpc] at hu
      cases hu
    have hcount := (h _ _ rfl).count (by rw [hs]; rfl) hfree
    have hkeys : ∀ k, ((s.sessions.insert j session.stopped).get k).isSome =
        (s.sessions.get k).isSome := by
      intro k
      by_cases hk : k = j
      · rw [hk, SortedMap.get_insert_self, hs]
        rfl
      · rw [SortedMap.get_insert_ne _ hk]
    refine hcount.kept (fun k hk => ?_) (fun k hk => Or.inl ?_)
      (fun u k hu _ => Or.inl (hremoving u k hu))
    · exact (hkeys k).symm.trans hk
    · exact (hkeys k).trans hk
  | drained cells count hf => exact hsame rfl (h _ _ htally)
  | cleared | counted | ended => cases htally

/-- How a tear-down comes to remove a session. -/
theorem move_removing (hm : Move m t s pc s' pc') (h : pc'.removing = some id) :
    pc.removing = some id ∨ ∃ kind session, pc = .teardown kind id .claim ∧
      s.sessions.get id = some session ∧
        (session.info.state = .stopping → session.runtime ≠ none) := by
  cases pc' with
  | teardown kind j stage' =>
    obtain ⟨stage, rfl, hmove⟩ := (move_back hm).2.1 rfl
    cases hmove with
    | claimed session hs hk hlive =>
      cases h
      exact Or.inr ⟨kind, session, rfl, hs, hlive⟩
    | stopping | drained => exact Or.inl h
    | _ => cases h
  | _ => cases h

/-- A move of another call than the sweep. -/
theorem Tally.moved [DecidableEq P] {ids : List SessionId} {count : Nat} {u : TaskId}
    (hreach : Reach m.step State.init s) (h : Tally s ids count)
    (hacc : s.acceptingSessions = false) (hrun : ∀ id, Running s id → id ∈ ids)
    (hm : Move m u s (s.tasks u) s' pc') (hn : (s.tasks u).sweeping = false) :
    Tally (s'.goto u pc') ids count := by
  have hback : ∀ id, (s'.sessions.get id).isSome = true → (s.sessions.get id).isSome = true := by
    intro id hid
    rcases move_registered hm hid with hs | ⟨-, -, ha⟩
    · exact hs
    · rw [hacc] at ha
      cases ha
  refine h.kept hback (fun id hs => ?_) (fun v id hv hs => ?_)
  · cases hs' : s'.sessions.get id with
    | some session =>
      left
      rw [State.goto, hs']
      rfl
    | none =>
      right
      rcases move_change hm id with
        ⟨hl, -, -⟩ | ⟨-, -, -, -, hl, -, -⟩ | ⟨-, -, -, hl, -, -⟩ | ⟨-, -, hpc, -, -⟩
      · rw [lifecycle_none.mpr hs', eq_comm, lifecycle_none] at hl
        rw [hl] at hs
        cases hs
      · rw [lifecycle_none.mpr hs'] at hl
        cases hl
      · rw [lifecycle_none.mpr hs'] at hl
        cases hl
      · rcases hpc with ⟨kind, hpc⟩ | ⟨count', hpc⟩
        · exact h.removing u id (by rw [hpc]; rfl) hs
        · rw [hpc] at hn
          cases hn
  · by_cases hvu : v = u
    · subst hvu
      simp only [State.goto, Function.update_self] at hv
      rcases move_removing hm hv with hold | ⟨kind, session, -, hget, hlive⟩
      · exact Or.inl hold
      · -- the tear-down has found the session running
        right
        refine hrun id ⟨session, hget, ?_⟩
        cases hstate : session.info.state with
        | running => rfl
        | stopping =>
          have hempty := stopping_empty hreach hget hstate
          have hnone : session.runtime = none := by
            simpa [ManagedSession.runtimes] using (List.append_eq_nil_iff.mp hempty).2
          exact absurd hnone (hlive hstate)
    · left
      simpa only [State.goto, Function.update_of_ne hvu, (move_calls hm).1] using hv

/-- `shutdown_all` is not called while another call of it is in progress. -/
def Lone (a : Action P) (s : State P) : Prop :=
  match a with
  | .shutdownAll => ∀ t, (s.tasks t).sweeping = false
  | _ => True

def Sole (s : State P) : Prop :=
  ∀ t u, (s.tasks t).sweeping = true → (s.tasks u).sweeping = true → t = u

theorem move_sweeping (hm : Move m t s pc s' pc') (h : pc'.sweeping = true) :
    pc.sweeping = true := by
  cases pc' with
  | shutdownAll stage' =>
    obtain ⟨stage, rfl, hsweep⟩ := (move_back hm).2.2 rfl
    cases hsweep <;> rfl
  | _ => cases h

/-- Where a new call starts. -/
inductive Starts : Action P → Pc P → Prop where
  | create (call : CreateCall) : Starts (.create call) (.create call .reserve)
  | reload (id : SessionId) : Starts (.reload id) (.reload id none .lookup)
  | reloadAll : Starts .reloadAll .reloadAll
  | stop (id : SessionId) : Starts (.stop id) (.teardown .stop id .lookup)
  | remove (id : SessionId) : Starts (.remove id) (.teardown .remove id .lookup)
  | list : Starts .list .list
  | rejectNewSessions : Starts .rejectNewSessions .rejectNewSessions
  | shutdownAll : Starts .shutdownAll (.shutdownAll .begin)
  | deliver (g : Nat) (id : SessionId) : Starts .deliver (.teardown (.runtimeExit g) id .lookup)

/-- A property of calls that no move and no abort brings about comes from before
the step, unless a new call starts with it. -/
theorem step_back [DecidableEq P] {f : Pc P → Bool} {a : Action P} (hs : m.step a s = some s')
    (hmove : ∀ {t u u' pc pc'}, Move m t u pc u' pc' → f pc' = true → f pc = true)
    (habort : f .aborted = false) (hstart : ∀ pc, Starts a pc → f pc = false) {u : TaskId}
    (h : f (s'.tasks u) = true) : f (s.tasks u) = true := by
  have hspawn : ∀ {v : State P} {pc : Pc P}, v.tasks = s.tasks → Starts a pc →
      f ((v.spawn pc).tasks u) = true → f (s.tasks u) = true := by
    intro v pc hv hpc hu
    rcases spawn_tasks (s := v) u with hg | hg
    · rwa [hg, hv] at hu
    · rw [hg, hstart pc hpc] at hu
      cases hu
  cases a with
  | create call =>
    simp only [SessionManager.step] at hs
    split at hs
    · cases hs
    · rw [← Option.some.inj hs] at h
      exact hspawn rfl (.create call) h
  | deliver =>
    simp only [SessionManager.step] at hs
    split at hs
    · cases hs
    · rename_i event events he
      rw [← Option.some.inj hs] at h
      exact hspawn rfl (.deliver event.listenerGeneration event.runtimeId) h
  | advance t env =>
    obtain ⟨⟨v, pc⟩, ha, rfl⟩ := Option.map_eq_some_iff.mp hs
    have hm := advance_move ha
    by_cases hut : u = t
    · subst hut
      simp only [State.goto, Function.update_self] at h
      exact hmove hm h
    · simpa only [State.goto, Function.update_of_ne hut, (move_calls hm).1] using h
  | abort t =>
    simp only [SessionManager.step] at hs
    split at hs
    · rw [← Option.some.inj hs] at h
      rcases goto_tasks u with hg | hg <;> rw [hg] at h
      · exact h
      · rw [habort] at h
        cases h
    · cases hs
  | runtime r move =>
    simp only [SessionManager.step] at hs
    split at hs
    · obtain ⟨cell, permits, sent, rfl, -⟩ := runtime_move hs
      exact h
    · cases hs
  | expire t =>
    rw [← Option.some.inj hs] at h
    exact h
  | reload id => exact hspawn rfl (.reload id) (Option.some.inj hs ▸ h)
  | reloadAll => exact hspawn rfl .reloadAll (Option.some.inj hs ▸ h)
  | stop id => exact hspawn rfl (.stop id) (Option.some.inj hs ▸ h)
  | remove id => exact hspawn rfl (.remove id) (Option.some.inj hs ▸ h)
  | list => exact hspawn rfl .list (Option.some.inj hs ▸ h)
  | rejectNewSessions => exact hspawn rfl .rejectNewSessions (Option.some.inj hs ▸ h)
  | shutdownAll => exact hspawn rfl .shutdownAll (Option.some.inj hs ▸ h)

/-- Only a call of `shutdown_all` begins a sweep. -/
theorem step_sweeping [DecidableEq P] {a : Action P} (hs : m.step a s = some s')
    (hn : a ≠ .shutdownAll) {u : TaskId} (h : (s'.tasks u).sweeping = true) :
    (s.tasks u).sweeping = true := by
  refine step_back hs (fun hm => move_sweeping hm) rfl (fun pc hpc => ?_) h
  cases hpc with
  | shutdownAll => exact absurd rfl hn
  | _ => rfl

theorem sole_reach [DecidableEq P] (h : ReachBy m.step Lone State.init s) : Sole s := by
  refine h.invariant (fun t u ht => by cases ht) ?_
  intro s s' a _ hi ha hs t u ht hu
  by_cases hn : a = .shutdownAll
  · subst hn
    have hother : ∀ v, v ≠ s.nextTask → (s'.tasks v).sweeping = false := by
      intro v hv
      rw [← Option.some.inj hs]
      simp only [State.spawn, State.goto, Function.update_of_ne hv]
      exact ha v
    have hnew : ∀ v, (s'.tasks v).sweeping = true → v = s.nextTask := by
      intro v hv
      by_contra hne
      rw [hother v hne] at hv
      cases hv
    rw [hnew t ht, hnew u hu]
  · exact hi t u (step_sweeping hs hn ht) (step_sweeping hs hn hu)

theorem Tally.still {ids : List SessionId} {count : Nat} (h : Tally s ids count)
    (hs : s'.sessions = s.sessions)
    (ht : ∀ u, s'.tasks u = s.tasks u ∨ (s'.tasks u).removing = none) : Tally s' ids count := by
  refine h.kept (fun id hid => hs ▸ hid) (fun id hid => Or.inl (hs ▸ hid)) (fun u j hu _ => ?_)
  rcases ht u with hg | hg
  · exact Or.inl (hg ▸ hu)
  · rw [hg] at hu
    cases hu

theorem tallied_step [DecidableEq P] {a : Action P} (hreach : Reach m.step State.init s)
    (hsole : Sole s) (h : Tallied s) (hs : m.step a s = some s') : Tallied s' := by
  intro v stage ids count hv htally
  have ho := step_outcome hs
  cases ho with
  | create call hid =>
    rcases spawn_tasks v with hg | hg <;> rw [hg] at hv
    · refine (h v stage ids count hv htally).still rfl (fun u => ?_)
      rcases spawn_tasks u with hg | hg
      · exact Or.inl hg
      · exact Or.inr (by rw [hg]; rfl)
    · cases hv
  | call hpc =>
    rcases spawn_tasks v with hg | hg <;> rw [hg] at hv
    · refine (h v stage ids count hv htally).still rfl (fun u => ?_)
      rcases spawn_tasks u with hg | hg
      · exact Or.inl hg
      · exact Or.inr (by rw [hg]; cases hpc <;> rfl)
    · subst hv
      cases hpc
      cases htally
  | delivered event events he =>
    rcases spawn_tasks v with hg | hg <;> rw [hg] at hv
    · refine (h v stage ids count hv htally).still rfl (fun u => ?_)
      rcases spawn_tasks u with hg | hg
      · exact Or.inl hg
      · exact Or.inr (by rw [hg]; rfl)
    · cases hv
  | moved t hm =>
    rename_i w pc
    have htasks : w.tasks = s.tasks := (move_calls hm).1
    by_cases hvt : v = t
    · -- the sweep itself moves
      subst hvt
      simp only [State.goto, Function.update_self] at hv
      obtain ⟨stage0, hstage, hsweep⟩ := (move_back hm).2.2 hv
      subst hv
      exact tally_sweep m (exclusive_reach hreach) hstage
        (fun ids count ht => h v stage0 ids count hstage ht) hsweep htally
    · simp only [State.goto, Function.update_of_ne hvt, htasks] at hv
      obtain ⟨hacc, hall⟩ := swept_reach hreach v stage ids hv (tally_rest htally)
      refine (h v stage ids count hv htally).moved hreach hacc hall hm ?_
      by_contra hsw
      refine hvt (hsole v t ?_ (by simpa using hsw))
      rw [hv]
      exact tally_sweeping htally
  | expired t => exact (h v stage ids count hv htally).still rfl (fun u => Or.inl rfl)
  | aborted t ha hb =>
    rcases goto_tasks v with hg | hg <;> rw [hg] at hv
    · refine (h v stage ids count hv htally).still rfl (fun u => ?_)
      rcases goto_tasks u with hg | hg
      · exact Or.inl hg
      · exact Or.inr (by rw [hg]; rfl)
    · cases hv
  | runtime r hr cell permits sent hc hb =>
    exact (h v stage ids count hv htally).still rfl (fun u => Or.inl rfl)

theorem tallied_reach [DecidableEq P] (h : ReachBy m.step Lone State.init s) : Tallied s := by
  refine h.invariant (fun t stage ids count ht => by cases ht) ?_
  intro s s' a hr hi _ hs
  exact tallied_step hr.reach (sole_reach hr) hi hs

/-- The removals whose decrement has not yet been made. -/
def owed (s : State P) : Nat := overCalls Pc.owes s

theorem Between.owes (h : Between pc) : pc.owes = 0 := by cases h <;> rfl

theorem size_written {k : SessionId} {old new : ManagedSession P}
    (hk : s.sessions.get k = some old) (hget : s'.sessions = s.sessions.insert k new) :
    s'.sessions.size = s.sessions.size := by
  rw [hget, SortedMap.size_insert_present hk]

/-- A move of a call keeps the account: what the registry loses, the call owes. -/
theorem move_gauge (hm : Move m t s pc s' pc')
    (hnone : ∀ call runtime, pc = .create call (.register runtime) →
      s.sessions.get call.id = none)
    (hclear : ∀ count, pc = .shutdownAll (.clear count) → s.sessions.size = count)
    (hle : pc.owes ≤ s.activeSessions) :
    s'.activeSessions + s.sessions.size + pc.owes =
      s.activeSessions + s'.sessions.size + pc'.owes := by
  have hstill : s'.activeSessions = s.activeSessions → s'.sessions.size = s.sessions.size →
      pc.owes = 0 → pc'.owes = 0 → s'.activeSessions + s.sessions.size + pc.owes =
        s.activeSessions + s'.sessions.size + pc'.owes := by
    intro ha hs hp hp'
    omega
  cases hm with
  | create call h =>
    cases h with
    | registered runtime ha =>
      have hsize := SortedMap.size_insert_new (hnone call runtime rfl) (m.createdSession call runtime)
      simp only [State.setSession, State.setCell, hsize, Pc.owes]
      omega
    | _ => exact hstill rfl rfl rfl rfl
  | unknown j batch hs => exact hstill rfl rfl rfl (reload_lookup_between batch hs).owes
  | reload j batch h =>
    cases h with
    | turnedDown session hj | begun session hj | sameCommitted target ha session hj
    | limited target session hj | withinLimits target ha session hj
    | vacant target options replacement session hj
    | switched target options replacement ha session hj
    | retired target options oldRuntime session hj =>
      exact hstill rfl (size_written hj rfl) rfl rfl
    | _ => exact hstill rfl rfl rfl rfl
  | reloadReturned j batch result =>
    exact hstill rfl rfl rfl (after_reload_between batch result).owes
  | reloadAll => exact hstill rfl rfl rfl reload_all_between.owes
  | teardown kind j h =>
    cases h with
    | forgotten g hk session hj | claimed session hj => exact hstill rfl (size_written hj rfl) rfl rfl
    | removed session hj =>
      have hsize := SortedMap.size_erase hj
      simp only [SessionManager.removeEntry, State.dropRuntimes, Pc.owes]
      omega
    | counted =>
      have hne : s.activeSessions ≠ 0 := Nat.ne_of_gt hle
      have hpos : 0 < s.activeSessions := hle
      simp only [SessionManager.sessionStopped, if_neg hne, Pc.owes]
      omega
    | _ => exact hstill rfl rfl rfl rfl
  | sweep h =>
    cases h with
    | claimed j ids runtimes count session hj => exact hstill rfl (size_written hj rfl) rfl rfl
    | cleared count =>
      have hsize := hclear count rfl
      have hempty : (∅ : SortedMap SessionId (ManagedSession P)).size = 0 := rfl
      simp only [SessionManager.sweepClear, State.dropRuntimes, Pc.owes, hempty]
      omega
    | counted count =>
      have hpos : count + 1 ≤ s.activeSessions := hle
      have hne : s.activeSessions ≠ 0 := by omega
      simp only [SessionManager.sessionStopped, if_neg hne, Pc.owes]
      omega
    | _ => exact hstill rfl rfl rfl rfl
  | listed answer => exact hstill rfl (SortedMap.size_map_values _ _) rfl rfl
  | _ => exact hstill rfl rfl rfl rfl

/-- When the sweep clears the registry, it has counted all that is left. -/
theorem Tally.total {count : Nat} (h : Tally s [] count) : s.sessions.size = count := by
  rw [← h.passed, List.toFinset_nil, Finset.sdiff_empty,
    List.toFinset_card_of_nodup (SortedMap.keys_nodup _), SortedMap.keys, List.length_map]
  rfl

theorem owes_le (hx : Exclusive s) (t : TaskId) : (s.tasks t).owes ≤ owed s := by
  by_cases ht : t < s.nextTask
  · exact Finset.single_le_sum (f := fun u => (s.tasks u).owes) (fun _ _ => Nat.zero_le _)
      (Finset.mem_range.mpr ht)
  · rw [hx.absent t (Nat.le_of_not_lt ht)]
    exact Nat.zero_le _

/-- A call is not aborted between a removal and its decrement. -/
theorem abortable_owes (h : pc.abortable = true) : pc.owes = 0 := by
  cases pc with
  | teardown kind j stage => cases kind <;> cases stage <;> first | rfl | cases h
  | shutdownAll stage => cases h
  | _ => rfl

def Gauged (s : State P) : Prop := s.activeSessions = s.sessions.size + owed s

theorem Gauged.step [DecidableEq P] {a : Action P} (hreach : Reach m.step State.init s)
    (ht : Tallied s) (h : Gauged s) (hs : m.step a s = some s') : Gauged s' := by
  have hx := exclusive_reach hreach
  have ho := step_outcome hs
  cases ho with
  | create call hid =>
    have hspawn : owed (({ s with used := insert call.id s.used } : State P).spawn
        (.create call .reserve)) = owed s := over_spawn Pc.owes rfl
    rw [Gauged, hspawn]
    exact h
  | call hpc =>
    rw [Gauged, owed, over_spawn Pc.owes (by cases hpc <;> rfl)]
    exact h
  | delivered event events he =>
    have hspawn : owed (({ s with events } : State P).spawn
        (.teardown (.runtimeExit event.listenerGeneration) event.runtimeId .lookup)) = owed s :=
      over_spawn Pc.owes rfl
    rw [Gauged, hspawn]
    exact h
  | moved t hm =>
    rename_i u pc
    obtain ⟨htasks, hnext, -⟩ := move_calls hm
    have hle := (owes_le hx t).trans (Nat.le.intro ((Nat.add_comm _ _).trans h.symm))
    have hmove := move_gauge hm ?_ ?_ hle
    · have hlive : t < u.nextTask := by
        rw [hnext]
        exact move_live hx hm
      have hsum := over_goto Pc.owes pc hlive
      have hsame : overCalls Pc.owes u = owed s := by simp only [overCalls, owed, htasks, hnext]
      rw [htasks] at hsum
      simp only [Gauged] at h ⊢
      show u.activeSessions = u.sessions.size + overCalls Pc.owes (u.goto t pc)
      omega
    · intro call runtime hpc
      exact unregistered hx hpc (by rw [hpc]; rfl)
    · intro count hpc
      exact (ht t _ [] count hpc rfl).total
  | expired t => exact h
  | aborted t ha hb =>
    have hsum := over_goto Pc.owes .aborted (abort_live hx hb)
    rw [abortable_owes hb] at hsum
    show s.activeSessions = s.sessions.size + overCalls Pc.owes (s.goto t .aborted)
    exact h.trans (congrArg _ hsum.symm)
  | runtime r hr cell permits sent hc hb => exact h

theorem gauged_reach [DecidableEq P] (h : ReachBy m.step Lone State.init s) : Gauged s := by
  have h0 : Gauged (State.init : State P) := rfl
  exact h.invariant h0 (fun hr hi _ hs => hi.step hr.reach (tallied_reach hr) hs)

/-- Once the sweep has cleared the registry, it stays empty. -/
def Emptied (s : State P) : Prop :=
  ∀ t stage, s.tasks t = .shutdownAll stage → stage.cleared = true →
    s.acceptingSessions = false ∧ ∀ id, s.sessions.get id = none

theorem Emptied.still (h : Emptied s) (ha : s'.acceptingSessions = s.acceptingSessions)
    (hs : s'.sessions = s.sessions)
    (ht : ∀ u stage, s'.tasks u = .shutdownAll stage → stage.cleared = true →
      s.tasks u = .shutdownAll stage) : Emptied s' := by
  intro u stage hu hc
  rw [ha, hs]
  exact h u stage (ht u stage hu hc) hc

theorem cleared_rest {stage : SweepStage P} (h : stage.cleared = true) : stage.rest = some [] := by
  cases stage <;> first | rfl | cases h

theorem Emptied.moved (hw : Swept (s'.goto t pc')) (h : Emptied s)
    (hm : Move m t s (s.tasks t) s' pc') : Emptied (s'.goto t pc') := by
  have htasks : s'.tasks = s.tasks := (move_calls hm).1
  intro u stage hu hc
  refine ⟨(hw u stage [] hu (cleared_rest hc)).1, fun id => ?_⟩
  -- what was empty is empty after the move
  have hkeep : s.acceptingSessions = false → s.sessions.get id = none →
      s'.sessions.get id = none := by
    intro hacc hn
    by_contra hs'
    rcases move_registered hm (by simpa [Option.isSome_iff_ne_none] using hs') with hr | ⟨-, -, ha⟩
    · rw [hn] at hr
      cases hr
    · rw [hacc] at ha
      cases ha
  by_cases hut : u = t
  · subst hut
    simp only [State.goto, Function.update_self] at hu
    obtain ⟨stage0, hstage, hsweep⟩ := (move_back hm).2.2 hu
    cases hsweep with
    | cleared count => rfl
    | counted count =>
      obtain ⟨hacc, hnone⟩ := h u _ hstage rfl
      exact hkeep hacc (hnone id)
    | ended =>
      obtain ⟨hacc, hnone⟩ := h u _ hstage rfl
      exact hkeep hacc (hnone id)
    | _ => cases hc
  · simp only [State.goto, Function.update_of_ne hut, htasks] at hu
    obtain ⟨hacc, hnone⟩ := h u stage hu hc
    exact hkeep hacc (hnone id)

theorem Emptied.step (hw : Swept s') (h : Emptied s) (ho : Outcome m s s') : Emptied s' := by
  cases ho with
  | create call hid =>
    refine h.still rfl rfl (fun u stage hu hc => ?_)
    rcases spawn_tasks u with hg | hg <;> rw [hg] at hu
    · exact hu
    · cases hu
  | call hpc =>
    refine h.still rfl rfl (fun u stage hu hc => ?_)
    rcases spawn_tasks u with hg | hg <;> rw [hg] at hu
    · exact hu
    · subst hu
      cases hpc
      cases hc
  | delivered event events he =>
    refine h.still rfl rfl (fun u stage hu hc => ?_)
    rcases spawn_tasks u with hg | hg <;> rw [hg] at hu
    · exact hu
    · cases hu
  | moved t hm => exact h.moved hw hm
  | expired t => exact h.still rfl rfl (fun _ _ hu _ => hu)
  | aborted t ha hb =>
    refine h.still rfl rfl (fun u stage hu hc => ?_)
    rcases goto_tasks u with hg | hg <;> rw [hg] at hu
    · exact hu
    · cases hu
  | runtime r hr cell permits sent hc hb => exact h.still rfl rfl (fun _ _ hu _ => hu)

theorem emptied_reach [DecidableEq P] (h : Reach m.step State.init s) : Emptied s := by
  have h0 : Emptied (State.init : State P) := fun t stage ht => by cases ht
  refine h.invariant h0 (fun hr hi hs => ?_)
  have ho := step_outcome hs
  exact hi.step ((swept_reach hr).step ho) ho

end Proofs

end Baffle
