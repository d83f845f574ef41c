import Baffle.Proofs.Exclusion

namespace Baffle

/-- The handles that the call keeps for a session. -/
def Pc.handles {P : Type} : Pc P → List (SessionId × ProxyRuntime P)
  | .create call (.register runtime) | .create call (.drop runtime) => [(call.id, runtime)]
  | .reload id _ stage => stage.owned.map (fun runtime => (id, runtime))
  | .teardown _ id (.shutdown runtimes) => runtimes.map (fun runtime => (id, runtime))
  | _ => []

namespace Proofs

variable {P : Type} {m : SessionManager P} {t : TaskId} {s s' : State P} {pc pc' : Pc P}
  {id : SessionId}

/-- What a call does to a cell: it may end the runtime, retire it, make it
current or give it a policy, and the tasks of the runtime stay where they are. -/
structure Tended (c c' : RuntimeCell) : Prop where
  runtimeId : c'.runtimeId = c.runtimeId
  listenerGeneration : c'.listenerGeneration = c.listenerGeneration
  permits : c'.permits = c.permits
  phase : c'.phase = c.phase
  acceptor : c'.acceptor = c.acceptor
  connections : c'.connections = c.connections
  retired : c.retired = true → c'.retired = true
  installed : c.installed = true → c'.installed = true
  disposals : c.disposals ≤ c'.disposals
  cancelled : c.cancelled = true → c'.cancelled = true
  aborted : c.aborted = true → c'.aborted = true

theorem Tended.refl (c : RuntimeCell) : Tended c c :=
  ⟨rfl, rfl, rfl, rfl, rfl, rfl, id, id, Nat.le_refl _, id, id⟩

theorem Tended.trans {a b c : RuntimeCell} (hab : Tended a b) (hbc : Tended b c) : Tended a c where
  runtimeId := hbc.runtimeId.trans hab.runtimeId
  listenerGeneration := hbc.listenerGeneration.trans hab.listenerGeneration
  permits := hbc.permits.trans hab.permits
  phase := hbc.phase.trans hab.phase
  acceptor := hbc.acceptor.trans hab.acceptor
  connections := hbc.connections.trans hab.connections
  retired h := hbc.retired (hab.retired h)
  installed h := hbc.installed (hab.installed h)
  disposals := hab.disposals.trans hbc.disposals
  cancelled h := hbc.cancelled (hab.cancelled h)
  aborted h := hbc.aborted (hab.aborted h)

theorem tended_shutdown (n : Nat) (c : RuntimeCell) : Tended c (c.shutdown n) :=
  ⟨rfl, rfl, rfl, rfl, rfl, rfl, id, id, Nat.le_add_right _ _,
    fun h => by simp [RuntimeCell.shutdown, h], id⟩

theorem tended_drop (n : Nat) (c : RuntimeCell) : Tended c (c.drop n) :=
  ⟨rfl, rfl, rfl, rfl, rfl, rfl, id, id, Nat.le_add_right _ _,
    fun h => by simp [RuntimeCell.drop, h], fun h => by simp [RuntimeCell.drop, h]⟩

theorem tended_retire (c : RuntimeCell) : Tended c c.retire :=
  ⟨rfl, rfl, rfl, rfl, rfl, rfl, fun _ => rfl, id, Nat.le_refl _, id, id⟩

theorem tended_mark (c : RuntimeCell) : Tended c c.markRetiring :=
  ⟨rfl, rfl, rfl, rfl, rfl, rfl, fun _ => rfl, id, Nat.le_refl _, id, id⟩

theorem tended_install (c : RuntimeCell) : Tended c c.install :=
  ⟨rfl, rfl, rfl, rfl, rfl, rfl, id, fun _ => rfl, Nat.le_refl _, id, id⟩

theorem tended_abort (c : RuntimeCell) : Tended c c.abort :=
  ⟨rfl, rfl, rfl, rfl, rfl, rfl, id, id, Nat.le_refl _, id, fun _ => rfl⟩

/-- `replace_generation` changes the watch channel and the list of references only. -/
theorem replaced {c c' : RuntimeCell} {pair : PolicyPair}
    (h : c.replaceGeneration pair = some c') :
    c' = { c with
      current := ⟨c.nextSerial, pair⟩
      generations := c.generations.filter c.alive ++ [c.nextSerial]
      nextSerial := c.nextSerial + 1 } := by
  unfold RuntimeCell.replaceGeneration at h
  dsimp only at h
  split at h
  · cases h
  · exact (Option.some.inj h).symm

theorem tended_replace {c c' : RuntimeCell} {pair : PolicyPair}
    (h : c.replaceGeneration pair = some c') : Tended c c' := by
  rw [replaced h]
  exact ⟨rfl, rfl, rfl, rfl, rfl, rfl, id, id, Nat.le_refl _, id, id⟩

theorem tended_set {q : RuntimeRef} {c : RuntimeCell} (h : Tended (s.cells q) c) (r : RuntimeRef) :
    Tended (s.cells r) ((s.setCell q c).cells r) := by
  by_cases hr : r = q
  · subst hr
    simpa only [State.setCell, Function.update_self] using h
  · simpa only [State.setCell, Function.update_of_ne hr] using Tended.refl _

theorem tended_started {r : RuntimeRef} {c : RuntimeCell} (hr : r < s.nextCell) :
    Tended (s.cells r) (Function.update s.cells s.nextCell c r) := by
  rw [Function.update_of_ne (Nat.ne_of_lt hr)]
  exact .refl _

/-- What a move of a call does to the cells in use. -/
theorem move_cells (h : Move m t s pc s' pc') {r : RuntimeRef} (hr : r < s.nextCell) :
    Tended (s.cells r) (s'.cells r) := by
  cases h with
  | create call h =>
    cases h with
    | started socketPath => exact tended_started hr
    | registered runtime ha => exact tended_set (tended_install _) r
    | dropped runtime => exact tended_drop _ _
    | _ => exact .refl _
  | reload j batch h =>
    cases h with
    | turnedDown session hj | begun session hj => exact tended_drop _ _
    | sameCommitted target ha session hj runtime hruntime cell hcell =>
      exact tended_set (tended_replace hcell) r
    | limited target session hj | withinLimits target ha session hj => exact tended_drop _ _
    | replacing target options => exact tended_started hr
    | vacant target options replacement session hj => exact tended_drop _ _
    | switched target options replacement ha session hj hstate oldRuntime hruntime =>
      exact (tended_set (tended_install _) r).trans (tended_set (tended_mark _) r)
    | lost target options oldRuntime hj =>
      exact (tended_set (tended_retire _) r).trans (tended_drop _ _)
    | retired target options oldRuntime session hj => exact tended_set (tended_retire _) r
    | stopping replacement result => exact tended_shutdown _ _
    | _ => exact .refl _
  | teardown kind j h =>
    cases h with
    | forgotten g hk session hj => exact tended_drop _ _
    | stopping runtimes => exact tended_shutdown _ _
    | removed session hj => exact tended_drop _ _
    | _ => exact .refl _
  | sweep h =>
    cases h with
    | stopping runtimes count => exact tended_shutdown _ _
    | cleared count => exact tended_drop _ _
    | _ => exact .refl _
  | listed answer => exact tended_drop _ _
  | _ => exact .refl _

/-- A move starts at most one runtime, for the session it works on. -/
theorem move_started (h : Move m t s pc s' pc') :
    s'.nextCell = s.nextCell ∨
    ∃ id generation permits pair, pc.holds = some id ∧ s'.nextCell = s.nextCell + 1 ∧
      s'.cells s.nextCell = RuntimeCell.start id generation permits pair := by
  cases h with
  | create call h =>
    cases h with
    | started socketPath =>
      exact Or.inr ⟨call.id, _, _, _, rfl, rfl, Function.update_self ..⟩
    | _ => exact Or.inl rfl
  | reload j batch h =>
    cases h with
    | replacing target options => exact Or.inr ⟨j, _, _, _, rfl, rfl, Function.update_self ..⟩
    | _ => exact Or.inl rfl
  | teardown kind j h => cases h <;> exact Or.inl rfl
  | sweep h => cases h <;> exact Or.inl rfl
  | _ => exact Or.inl rfl

/-- A handle in the registry or kept by the call. -/
def Has (s : State P) (pc : Pc P) (id : SessionId) (runtime : ProxyRuntime P) : Prop :=
  (∃ session, s.sessions.get id = some session ∧ runtime ∈ session.runtimes) ∨
    (id, runtime) ∈ pc.handles

/-- The handle refers to a runtime of the session. -/
def LinkedTo (s : State P) (id : SessionId) (runtime : ProxyRuntime P) : Prop :=
  runtime.cell < s.nextCell ∧ (s.cells runtime.cell).runtimeId = id ∧
    (s.cells runtime.cell).listenerGeneration = runtime.listenerGeneration

theorem mem_runtimes {session : ManagedSession P} {runtime : ProxyRuntime P} :
    runtime ∈ session.runtimes ↔
      runtime ∈ session.retiredRuntimes ∨ session.runtime = some runtime := by
  simp [ManagedSession.runtimes]

theorem retain_runtimes (session : ManagedSession P) (keep : ProxyRuntime P → Bool) :
    (session.retain keep).runtimes ⊆ session.runtimes := by
  intro runtime h
  rw [mem_runtimes] at h ⊢
  exact h.imp_left (fun hr => (List.mem_filter.mp hr).1)

/-- A write to one entry: its handles must come from somewhere. -/
theorem has_insert {k : SessionId} {new : ManagedSession P} {runtime : ProxyRuntime P}
    (hget : s'.sessions = s.sessions.insert k new) (h : Has s' pc' id runtime)
    (hnew : id = k → runtime ∈ new.runtimes → Has s pc id runtime)
    (hpc : (id, runtime) ∈ pc'.handles → Has s pc id runtime) : Has s pc id runtime := by
  rcases h with ⟨session, hs, hr⟩ | h
  · rw [hget] at hs
    by_cases hid : id = k
    · rw [hid, SortedMap.get_insert_self] at hs
      cases hs
      exact hnew hid hr
    · rw [SortedMap.get_insert_ne _ hid] at hs
      exact Or.inl ⟨session, hs, hr⟩
  · exact hpc h

/-- A write that leaves a session with some of its handles, by a call that keeps none. -/
theorem has_fewer {k : SessionId} {old new : ManagedSession P} {runtime : ProxyRuntime P}
    (hk : s.sessions.get k = some old) (hget : s'.sessions = s.sessions.insert k new)
    (hsub : new.runtimes ⊆ old.runtimes) (hpc : pc'.handles = [])
    (h : Has s' pc' id runtime) : Has s pc id runtime :=
  has_insert hget h (fun hid hr => Or.inl ⟨old, hid ▸ hk, hsub hr⟩)
    (fun hr => by simp [hpc] at hr)

theorem Between.handles (h : Between pc) : pc.handles = [] := by cases h <;> rfl

/-- No call makes up a handle: it was there, or it is the one of the runtime just started. -/
theorem move_handles (h : Move m t s pc s' pc') {runtime : ProxyRuntime P}
    (hh : Has s' pc' id runtime) : Has s pc id runtime ∨
      LinkedTo s' id runtime ∧ (s'.cells runtime.cell).permits = runtime.permits := by
  have hsame : s'.sessions = s.sessions → pc'.handles = [] → Has s pc id runtime := by
    intro hs hp
    rcases hh with hr | hr
    · rw [hs] at hr
      exact Or.inl hr
    · simp [hp] at hr
  cases h with
  | create call h =>
    cases h with
    | started socketPath =>
      rcases hh with hr | hr
      · exact Or.inl (Or.inl hr)
      · cases List.mem_singleton.mp hr
        refine Or.inr ⟨⟨Nat.lt_succ_self _, ?_, ?_⟩, ?_⟩ <;>
          simp [created, State.startRuntime, RuntimeCell.start]
    | late runtime ha => exact Or.inl hh
    | registered runtime ha =>
      refine Or.inl (has_insert rfl hh ?_ (fun hr => by cases hr))
      intro hid hr
      rcases mem_runtimes.mp hr with hr | hr
      · cases hr
      · cases hr
        rw [hid]
        exact Or.inr (List.mem_singleton_self _)
    | _ => exact Or.inl (hsame rfl rfl)
  | unknown j batch hs => exact Or.inl (hsame rfl (reload_lookup_between batch hs).handles)
  | reloadReturned j batch result => exact Or.inl (hsame rfl (after_reload_between _ _).handles)
  | reloadAll => exact Or.inl (hsame rfl reload_all_between.handles)
  | reload j batch h =>
    cases h with
    | replacing target options =>
      rcases hh with hr | hr
      · exact Or.inl (Or.inl hr)
      · cases List.mem_singleton.mp hr
        refine Or.inr ⟨⟨Nat.lt_succ_self _, ?_, ?_⟩, ?_⟩ <;>
          simp [State.startRuntime, RuntimeCell.start]
    | turnedDown session hj =>
      refine Or.inl (has_fewer hj rfl ?_ rfl hh)
      exact retain_runtimes session _
    | begun session hj =>
      refine Or.inl (has_fewer hj rfl ?_ rfl hh)
      exact retain_runtimes session _
    | sameCommitted target ha session hj runtime' hruntime cell hcell =>
      refine Or.inl (has_fewer hj rfl ?_ rfl hh)
      exact List.Subset.refl _
    | limited target session hj =>
      refine Or.inl (has_fewer hj rfl ?_ rfl hh)
      exact retain_runtimes session _
    | withinLimits target ha session hj =>
      refine Or.inl (has_fewer hj rfl ?_ rfl hh)
      exact retain_runtimes session _
    | vacant target options replacement session hj hstate hruntime =>
      refine Or.inl (has_fewer hj rfl ?_ rfl hh)
      intro r hr
      rw [mem_runtimes] at hr ⊢
      exact hr.imp_right (fun h => by cases h)
    | switched target options replacement ha session hj hstate oldRuntime hruntime =>
      refine Or.inl (has_insert rfl hh (fun hid hr => ?_) (fun hr => ?_))
      · rcases mem_runtimes.mp hr with hr | hr
        · exact Or.inl ⟨session, hid ▸ hj, mem_runtimes.mpr (Or.inl hr)⟩
        · cases hr
          rw [hid]
          exact Or.inr (List.mem_singleton_self _)
      · cases List.mem_singleton.mp hr
        exact Or.inl ⟨session, hj, mem_runtimes.mpr (Or.inr hruntime)⟩
    | retired target options oldRuntime session hj =>
      refine Or.inl (has_insert rfl hh (fun hid hr => ?_) (fun hr => by cases hr))
      rcases mem_runtimes.mp hr with hr | hr
      · rcases List.mem_append.mp hr with hr | hr
        · exact Or.inl ⟨session, hid ▸ hj, mem_runtimes.mpr (Or.inl hr)⟩
        · cases List.mem_singleton.mp hr
          rw [hid]
          exact Or.inr (List.mem_singleton_self _)
      · exact Or.inl ⟨session, hid ▸ hj, mem_runtimes.mpr (Or.inr hr)⟩
    | withdrawn | gateStored => exact Or.inl hh
    | _ => exact Or.inl (hsame rfl rfl)
  | teardown kind j h =>
    left
    cases h with
    | forgotten g hk session hj =>
      refine has_fewer hj rfl ?_ rfl hh
      exact retain_runtimes session _
    | claimed session hj =>
      refine has_insert rfl hh (fun _ hr => by cases hr) (fun hr => ?_)
      obtain ⟨r, hr, he⟩ := List.mem_map.mp hr
      cases he
      exact Or.inl ⟨session, hj, hr⟩
    | removed session hj =>
      rcases hh with ⟨session', hs, hr⟩ | hr
      · by_cases hid : id = j
        · simp [SessionManager.removeEntry, hid] at hs
        · simp only [SessionManager.removeEntry, SortedMap.get_erase_ne _ hid] at hs
          exact Or.inl ⟨session', hs, hr⟩
      · cases hr
    | _ => exact hsame rfl rfl
  | sweep h =>
    left
    cases h with
    | claimed j ids runtimes count session hj =>
      exact has_insert rfl hh (fun _ hr => by cases hr) (fun hr => by cases hr)
    | cleared count =>
      rcases hh with ⟨session', hs, hr⟩ | hr
      · cases hs
      · cases hr
    | _ => exact hsame rfl rfl
  | listed answer =>
    left
    rcases hh with ⟨session', hs, hr⟩ | hr
    · simp only [SessionManager.listSessions, SortedMap.get_map_values] at hs
      obtain ⟨session, hold, rfl⟩ := Option.map_eq_some_iff.mp hs
      exact Or.inl ⟨session, hold, retain_runtimes session _ hr⟩
    · cases hr
  | _ => exact Or.inl (hsame rfl rfl)

/-- Runtimes are only added, and each stays the listener that it was started as. -/
structure Extends (s s' : State P) : Prop where
  nextCell : s.nextCell ≤ s'.nextCell
  runtimeId : ∀ r, r < s.nextCell → (s'.cells r).runtimeId = (s.cells r).runtimeId
  listenerGeneration : ∀ r, r < s.nextCell →
    (s'.cells r).listenerGeneration = (s.cells r).listenerGeneration
  permits : ∀ r, r < s.nextCell → (s'.cells r).permits = (s.cells r).permits

theorem Extends.refl (s : State P) : Extends s s :=
  ⟨Nat.le_refl _, fun _ _ => rfl, fun _ _ => rfl, fun _ _ => rfl⟩

theorem Extends.trans {u : State P} (h : Extends s s') (h' : Extends s' u) : Extends s u where
  nextCell := h.nextCell.trans h'.nextCell
  runtimeId r hr := (h'.runtimeId r (Nat.lt_of_lt_of_le hr h.nextCell)).trans (h.runtimeId r hr)
  listenerGeneration r hr :=
    (h'.listenerGeneration r (Nat.lt_of_lt_of_le hr h.nextCell)).trans (h.listenerGeneration r hr)
  permits r hr := (h'.permits r (Nat.lt_of_lt_of_le hr h.nextCell)).trans (h.permits r hr)

theorem move_extends (h : Move m t s pc s' pc') : Extends s s' where
  nextCell := by
    rcases move_started h with hn | ⟨_, _, _, _, _, hn, _⟩
    · exact Nat.le_of_eq hn.symm
    · rw [hn]
      exact Nat.le_succ _
  runtimeId r hr := (move_cells h hr).runtimeId
  listenerGeneration r hr := (move_cells h hr).listenerGeneration
  permits r hr := (move_cells h hr).permits

/-- What the tasks of a runtime leave alone in its cell. -/
structure Settled (c c' : RuntimeCell) : Prop where
  runtimeId : c'.runtimeId = c.runtimeId
  listenerGeneration : c'.listenerGeneration = c.listenerGeneration
  permits : c'.permits = c.permits
  current : c'.current = c.current
  retired : c'.retired = c.retired
  installed : c'.installed = c.installed
  disposals : c'.disposals = c.disposals
  cancelled : c'.cancelled = c.cancelled
  aborted : c'.aborted = c.aborted

theorem Settled.refl (c : RuntimeCell) : Settled c c := ⟨rfl, rfl, rfl, rfl, rfl, rfl, rfl, rfl, rfl⟩

theorem cell_settled {gate now : Nat} {c c' : RuntimeCell} {sent : List ProxyRuntimeEvent}
    (h : CellMove gate now c c' sent) : Settled c c' := by
  cases h <;> exact ⟨rfl, rfl, rfl, rfl, rfl, rfl, rfl, rfl, rfl⟩

theorem settled_cells (permits : SemaphoreRef → Nat) {gate now : Nat} {r : RuntimeRef}
    {cell : RuntimeCell} {sent : List ProxyRuntimeEvent}
    (h : CellMove gate now (s.cells r) cell sent) (q : RuntimeRef) :
    Settled (s.cells q) ((cellMoved s r cell permits sent).cells q) := by
  by_cases hq : q = r
  · subst hq
    simpa only [cellMoved, State.setCell, Function.update_self] using cell_settled h
  · simpa only [cellMoved, State.setCell, Function.update_of_ne hq] using Settled.refl _

theorem tended_abort_cells (cells : List RuntimeRef) (r : RuntimeRef) :
    Tended (s.cells r) ((s.abortCells cells).cells r) := by
  simp only [State.abortCells]
  split
  · exact tended_abort _
  · exact .refl _

theorem tended_aborted (runtimes : List (ProxyRuntime P)) (cells : List RuntimeRef)
    (r : RuntimeRef) :
    Tended (s.cells r) (((s.dropRuntimes runtimes).abortCells cells).cells r) := by
  have hdrop : Tended (s.cells r) ((s.dropRuntimes runtimes).cells r) := tended_drop _ _
  exact hdrop.trans (tended_abort_cells cells r)

theorem step_extends (h : Outcome m s s') : Extends s s' := by
  cases h with
  | create call hid => exact ⟨Nat.le_refl _, fun _ _ => rfl, fun _ _ => rfl, fun _ _ => rfl⟩
  | call hpc => exact ⟨Nat.le_refl _, fun _ _ => rfl, fun _ _ => rfl, fun _ _ => rfl⟩
  | delivered event events he =>
    exact ⟨Nat.le_refl _, fun _ _ => rfl, fun _ _ => rfl, fun _ _ => rfl⟩
  | moved t hm =>
    have he := move_extends hm
    exact ⟨he.nextCell, he.runtimeId, he.listenerGeneration, he.permits⟩
  | expired t =>
    exact ⟨Nat.le_refl _, fun r _ => (tended_abort_cells _ r).runtimeId,
      fun r _ => (tended_abort_cells _ r).listenerGeneration,
      fun r _ => (tended_abort_cells _ r).permits⟩
  | aborted t ha hb =>
    exact ⟨Nat.le_refl _, fun r _ => (tended_aborted _ _ r).runtimeId,
      fun r _ => (tended_aborted _ _ r).listenerGeneration,
      fun r _ => (tended_aborted _ _ r).permits⟩
  | runtime r hr cell permits sent hc =>
    exact ⟨Nat.le_refl _, fun q _ => (settled_cells permits hc q).runtimeId,
      fun q _ => (settled_cells permits hc q).listenerGeneration,
      fun q _ => (settled_cells permits hc q).permits⟩

theorem reach_extends [DecidableEq P] (h : Reach m.step s s') : Extends s s' := by
  induction h with
  | start => exact .refl _
  | next before ha hs ih => exact ih.trans (step_extends (step_outcome hs))

theorem LinkedTo.extends {runtime : ProxyRuntime P} (h : LinkedTo s id runtime)
    (he : Extends s s') : LinkedTo s' id runtime :=
  ⟨Nat.lt_of_lt_of_le h.1 he.nextCell, (he.runtimeId _ h.1).trans h.2.1,
    (he.listenerGeneration _ h.1).trans h.2.2⟩

/-- Every handle refers to a runtime of the session that it is kept for. -/
def Linked (s : State P) : Prop :=
  ∀ t id runtime, Has s (s.tasks t) id runtime → LinkedTo s id runtime

theorem linked_init : Linked (State.init : State P) := by
  rintro t id runtime (⟨session, hs, _⟩ | h)
  · cases hs
  · cases h

theorem Linked.session (h : Linked s) {session : ManagedSession P} {runtime : ProxyRuntime P}
    (hs : s.sessions.get id = some session) (hr : runtime ∈ session.runtimes) :
    LinkedTo s id runtime := h 0 id runtime (Or.inl ⟨session, hs, hr⟩)

/-- A step that moves no handle. -/
theorem Linked.still (h : Linked s) (he : Extends s s') (hs : s'.sessions = s.sessions)
    (ht : ∀ u, s'.tasks u = s.tasks u ∨ (s'.tasks u).handles = []) : Linked s' := by
  rintro u id runtime (⟨session, hget, hr⟩ | hr)
  · rw [hs] at hget
    exact (h.session hget hr).extends he
  · rcases ht u with hu | hu
    · rw [hu] at hr
      exact (h u id runtime (Or.inr hr)).extends he
    · simp [hu] at hr

theorem Linked.moved (h : Linked s) (hm : Move m t s (s.tasks t) s' pc') :
    Linked (s'.goto t pc') := by
  have htasks := (move_calls hm).1
  have hext : Extends s (s'.goto t pc') := step_extends (.moved t hm)
  have hmoved : ∀ {id runtime}, Has s' pc' id runtime → LinkedTo s' id runtime := by
    intro id runtime hh
    rcases move_handles hm hh with hh | hh
    · exact (h t id runtime hh).extends (move_extends hm)
    · exact hh.1
  rintro u id runtime (hr | hr)
  · exact hmoved (Or.inl hr)
  · simp only [State.goto, htasks] at hr
    by_cases hut : u = t
    · subst hut
      rw [Function.update_self] at hr
      exact hmoved (Or.inr hr)
    · rw [Function.update_of_ne hut] at hr
      exact (h u id runtime (Or.inr hr)).extends hext

theorem spawn_tasks (u : TaskId) :
    (s.spawn pc).tasks u = s.tasks u ∨ (s.spawn pc).tasks u = pc := by
  by_cases hu : u = s.nextTask
  · subst hu
    exact Or.inr (Function.update_self ..)
  · exact Or.inl (Function.update_of_ne hu _ _)

theorem goto_tasks (u : TaskId) :
    (s.goto t pc).tasks u = s.tasks u ∨ (s.goto t pc).tasks u = pc := by
  by_cases hu : u = t
  · subst hu
    exact Or.inr (Function.update_self ..)
  · exact Or.inl (Function.update_of_ne hu _ _)

theorem Initial.handles (h : Initial pc) : pc.handles = [] := by cases h <;> rfl

theorem Linked.step (h : Linked s) (ho : Outcome m s s') : Linked s' := by
  have he := step_extends ho
  cases ho with
  | create call hid =>
    exact h.still he rfl (fun u => (spawn_tasks u).imp_right (fun hu => by rw [hu]; rfl))
  | call hpc =>
    exact h.still he rfl (fun u => (spawn_tasks u).imp_right (fun hu => by rw [hu, hpc.handles]))
  | delivered event events hev =>
    exact h.still he rfl (fun u => (spawn_tasks u).imp_right (fun hu => by rw [hu]; rfl))
  | moved t hm => exact h.moved hm
  | expired t => exact h.still he rfl (fun _ => Or.inl rfl)
  | aborted t ha hb =>
    exact h.still he rfl (fun u => (goto_tasks u).imp_right (fun hu => by rw [hu]; rfl))
  | runtime r hr cell permits sent hc => exact h.still he rfl (fun _ => Or.inl rfl)

theorem linked_reach [DecidableEq P] (h : Reach m.step State.init s) : Linked s :=
  h.invariant linked_init (fun _ hi hs => hi.step (step_outcome hs))

end Proofs

end Baffle
