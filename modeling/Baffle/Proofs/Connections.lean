import Baffle.Proofs.Cutover

namespace Baffle.Proofs

variable {P : Type} {m : SessionManager P} {t : TaskId} {s s' : State P} {pc pc' : Pc P}
  {id : SessionId}

/-- The pair was the committed one when there were `k + 1` committed pairs, which
is not before there were `since`. -/
def Dated (history : List PolicyPair) (since : Nat) (pair : PolicyPair) : Prop :=
  ∃ k, history[k]? = some pair ∧ since ≤ k + 1

/-- The marks in a cell are right for the history of its session. -/
structure Marked (history : List PolicyPair) (c : RuntimeCell) : Prop where
  accepted : ∀ since, c.acceptor = .accepted since → since ≤ history.length
  admitted : ∀ since, c.acceptor = .admitted since → Dated history since c.current.pair
  holding : ∀ since generation, c.acceptor = .holding since generation →
    Dated history since generation.pair
  connections : ∀ connection ∈ c.connections, ∃ k,
    history[k]? = some connection.generation.pair ∧
      connection.acceptedAt ≤ k + 1 ∧ k + 1 ≤ connection.dispatchedAt

theorem get_grown {history history' : List PolicyPair} (h : history <+: history') {k : Nat}
    {pair : PolicyPair} (hk : history[k]? = some pair) : history'[k]? = some pair := by
  obtain ⟨more, rfl⟩ := h
  rw [List.getElem?_append_left (List.getElem?_eq_some_iff.mp hk).1]
  exact hk

theorem Dated.mono {history history' : List PolicyPair} (h : history <+: history') {since : Nat}
    {pair : PolicyPair} (hd : Dated history since pair) : Dated history' since pair := by
  obtain ⟨k, hk, hle⟩ := hd
  exact ⟨k, get_grown h hk, hle⟩

/-- The last pair is dated by the length of the history. -/
theorem dated_last {history : List PolicyPair} {since : Nat} {pair : PolicyPair}
    (hlast : history.getLast? = some pair) (hs : since ≤ history.length) :
    Dated history since pair := by
  rw [List.getLast?_eq_getElem?] at hlast
  refine ⟨history.length - 1, hlast, ?_⟩
  omega

theorem Dated.length {history : List PolicyPair} {since : Nat} {pair : PolicyPair}
    (h : Dated history since pair) : since ≤ history.length := by
  obtain ⟨k, hk, hle⟩ := h
  have hlt := (List.getElem?_eq_some_iff.mp hk).1
  omega

/-- More pairs are committed, and the cell takes up none of them or the last. -/
theorem Marked.mono {history history' : List PolicyPair} {c c' : RuntimeCell}
    (hm : Marked history c) (h : history <+: history') (ha : c'.acceptor = c.acceptor)
    (hconn : c'.connections = c.connections)
    (hcur : c'.current = c.current ∨ history'.getLast? = some c'.current.pair) :
    Marked history' c' where
  accepted since hacc := (hm.accepted since (ha ▸ hacc)).trans h.length_le
  admitted since hacc := by
    have hd := hm.admitted since (ha ▸ hacc)
    rcases hcur with hcur | hcur
    · rw [hcur]
      exact hd.mono h
    · exact dated_last hcur (hd.length.trans h.length_le)
  holding since generation hacc := (hm.holding since generation (ha ▸ hacc)).mono h
  connections connection hmem := by
    rw [hconn] at hmem
    obtain ⟨k, hk, hle⟩ := hm.connections connection hmem
    exact ⟨k, get_grown h hk, hle⟩

theorem marked_start {history : List PolicyPair} {generation : Nat} {permits : SemaphoreRef}
    {pair : PolicyPair} : Marked history (RuntimeCell.start id generation permits pair) where
  accepted _ h := by cases h
  admitted _ h := by cases h
  holding _ _ h := by cases h
  connections _ h := by cases h

/-- The accept loop reads a pair only after the gate has admitted the listener. -/
theorem Marked.cell {history : List PolicyPair} {gate : Nat} {c c' : RuntimeCell}
    {sent : List ProxyRuntimeEvent} (hm : Marked history c)
    (hgate : gate = c.listenerGeneration → history.getLast? = some c.current.pair)
    (h : CellMove gate history.length c c' sent) : Marked history c' := by
  cases h with
  | accepted hp ha =>
    refine ⟨fun since h => ?_, fun _ h => (by cases h), fun _ _ h => (by cases h),
      hm.connections⟩
    cases h
    exact Nat.le_refl _
  | shutOut since ha hg =>
    exact ⟨fun _ h => (by cases h), fun _ h => (by cases h), fun _ _ h => (by cases h),
      hm.connections⟩
  | admitted since ha hg =>
    refine ⟨fun _ h => (by cases h), fun since' h => ?_, fun _ _ h => (by cases h),
      hm.connections⟩
    cases h
    exact dated_last (hgate hg) (hm.accepted since ha)
  | borrowed since ha =>
    refine ⟨fun _ h => (by cases h), fun _ h => (by cases h), fun since' g h => ?_,
      hm.connections⟩
    cases h
    exact hm.admitted since ha
  | dispatched since generation ha =>
    refine ⟨fun _ h => (by cases h), fun _ h => (by cases h), fun _ _ h => (by cases h), ?_⟩
    intro connection hmem
    rcases List.mem_cons.mp hmem with rfl | hmem
    · obtain ⟨k, hk, hle⟩ := hm.holding since generation ha
      exact ⟨k, hk, hle, (List.getElem?_eq_some_iff.mp hk).1⟩
    · exact hm.connections connection hmem
  | turnedAway since generation ha =>
    exact ⟨fun _ h => (by cases h), fun _ h => (by cases h), fun _ _ h => (by cases h),
      hm.connections⟩
  | closed i =>
    exact ⟨hm.accepted, hm.admitted, hm.holding,
      fun connection hmem => hm.connections connection (List.mem_of_mem_eraseIdx hmem)⟩
  | ended hp =>
    exact ⟨hm.accepted, hm.admitted, hm.holding, fun _ h => (by cases h)⟩
  | left | checked | reporting | silent | reported | finished =>
    exact ⟨hm.accepted, hm.admitted, hm.holding, hm.connections⟩

/-- The marks of every runtime. -/
def Served (s : State P) : Prop :=
  ∀ r, r < s.nextCell → Marked (s.history (s.cells r).runtimeId) (s.cells r)

theorem served_init : Served (State.init : State P) :=
  fun r hr => absurd hr (Nat.not_lt_zero r)

theorem update_grown {history : SessionId → List PolicyPair} {j : SessionId}
    {pair : PolicyPair} : history id <+: Function.update history j (history j ++ [pair]) id := by
  by_cases hj : id = j
  · subst hj
    rw [Function.update_self]
    exact List.prefix_append _ _
  · rw [Function.update_of_ne hj]

/-- What a move of a call does to the committed pairs of a session with a runtime. -/
theorem move_history (hl : Linked s) (hc : (s.tasks t).holds = some id → Cutting m s (s.tasks t))
    (hm : Move m t s (s.tasks t) s' pc') {r : RuntimeRef} (hr : Of s id r) :
    s.history id <+: s'.history id ∧
      ((s'.cells r).current = (s.cells r).current ∨
        (s'.history id).getLast? = some (s'.cells r).current.pair) := by
  generalize hpc : s.tasks t = pc at hm hc
  have hset : ∀ {q : RuntimeRef} {c : RuntimeCell}, c.current = (s.cells q).current →
      ((s.setCell q c).cells r).current = (s.cells r).current :=
    fun h => set_same RuntimeCell.current h
  cases hm with
  | create call h =>
    cases h with
    | started socketPath =>
      have hne : id ≠ call.id := by
        rintro rfl
        exact (hc rfl).1 r hr
      have hcell : (created m s call socketPath).1.cells r = s.cells r :=
        Function.update_of_ne (Nat.ne_of_lt hr.1) _ _
      have hhist : (created m s call socketPath).1.history id = s.history id :=
        Function.update_of_ne hne _ _
      rw [hhist, hcell]
      exact ⟨List.prefix_refl _, Or.inl rfl⟩
    | registered runtime ha => exact ⟨List.prefix_refl _, Or.inl (hset rfl)⟩
    | _ => exact ⟨List.prefix_refl _, Or.inl rfl⟩
  | reload j batch h =>
    cases h with
    | sameCommitted target ha session hget runtime hruntime cell hcell =>
      have hlink := hl.session hget (mem_runtimes.mpr (Or.inr hruntime))
      by_cases hrc : r = runtime.cell
      · -- the listener that takes up the new pair
        subst hrc
        obtain rfl : j = id := hlink.2.1.symm.trans hr.2
        have hcell' := replaced hcell
        refine ⟨?_, Or.inr ?_⟩ <;>
          simp only [State.setSession, State.setCell, Function.update_self, hcell',
            List.getLast?_concat, List.prefix_append]
      · have hcur : (Function.update s.cells runtime.cell cell r).current = (s.cells r).current := by
          rw [Function.update_of_ne hrc]
        exact ⟨update_grown, Or.inl hcur⟩
    | replacing target options =>
      exact ⟨List.prefix_refl _, Or.inl (congrArg RuntimeCell.current
        (Function.update_of_ne (Nat.ne_of_lt hr.1) _ _))⟩
    | switched target options replacement ha session hget hstate oldRuntime hruntime =>
      have hcells := (same_install (s := s) replacement.cell).trans (same_mark oldRuntime.cell)
      exact ⟨List.prefix_refl _, Or.inl (hcells.current r)⟩
    | gateStored target options oldRuntime => exact ⟨update_grown, Or.inl rfl⟩
    | lost target options oldRuntime hnone => exact ⟨List.prefix_refl _, Or.inl (hset rfl)⟩
    | retired target options oldRuntime session hget =>
      exact ⟨List.prefix_refl _, Or.inl (hset rfl)⟩
    | _ => exact ⟨List.prefix_refl _, Or.inl rfl⟩
  | teardown kind j h => cases h <;> exact ⟨List.prefix_refl _, Or.inl rfl⟩
  | sweep h => cases h <;> exact ⟨List.prefix_refl _, Or.inl rfl⟩
  | _ => exact ⟨List.prefix_refl _, Or.inl rfl⟩

theorem Served.moved (hs : Sound s) (hc : ∀ t id, (s.tasks t).holds = some id →
      Cutting m s (s.tasks t)) (h : Served s) (hm : Move m t s (s.tasks t) s' pc') :
    Served (s'.goto t pc') := by
  intro r hr
  have hold : r < s.nextCell → Marked (s'.history (s'.cells r).runtimeId) (s'.cells r) := by
    intro hlt
    have ht := move_cells hm hlt
    obtain ⟨hgrows, hcur⟩ := move_history hs.linked (fun hh => hc t _ hh) hm ⟨hlt, rfl⟩
    rw [ht.runtimeId]
    exact (h r hlt).mono hgrows ht.acceptor ht.connections hcur
  rcases move_started hm with he | ⟨j, generation, permits, pair, -, he, hcell⟩
  · exact hold (he ▸ hr)
  · have hr' : r < s.nextCell + 1 := he ▸ hr
    rcases Nat.lt_succ_iff_lt_or_eq.mp hr' with hlt | rfl
    · exact hold hlt
    · simp only [State.goto, hcell]
      exact marked_start

/-- A step that leaves the committed pairs and the accept loops alone. -/
theorem Served.still (h : Served s) (hnext : s'.nextCell = s.nextCell)
    (hh : s'.history = s.history) (ht : ∀ r, Tended (s.cells r) (s'.cells r))
    (hcore : ∀ r, Core (s.cells r) (s'.cells r)) : Served s' := by
  intro r hr
  rw [hh, (ht r).runtimeId]
  exact (h r (hnext ▸ hr)).mono (List.prefix_refl _) (ht r).acceptor (ht r).connections
    (Or.inl (hcore r).current)

theorem Served.step [DecidableEq P] (hreach : Reach m.step State.init s) (h : Served s)
    (ho : Outcome m s s') : Served s' := by
  cases ho with
  | create | call | delivered => exact h
  | moved t hm =>
    exact h.moved (sound_reach hreach) (fun t id hh => (cutover_upheld hreach id).2 t hh) hm
  | expired t => exact h.still rfl rfl (tended_abort_cells _) (core_abort_cells _)
  | aborted t ha hb =>
    refine h.still rfl rfl (tended_aborted _ _) (fun r => ?_)
    have hcore := core_abort_cells (s := s.dropRuntimes (s.tasks t).owned) (s.tasks t).draining r
    exact ⟨hcore.current, hcore.retired, hcore.installed⟩
  | runtime q hq cell permits sent hc =>
    intro r hr
    have hid := (settled_cells permits hc r).runtimeId
    rw [hid]
    by_cases hrq : r = q
    · subst hrq
      simp only [cellMoved, State.setCell, Function.update_self]
      refine (h r hr).cell (fun hg => ?_) hc
      exact (cutover_upheld hreach _).1.admitted r ⟨hr, rfl⟩ hg.symm
    · simp only [cellMoved, State.setCell, Function.update_of_ne hrq]
      exact h r hr

theorem served_reach [DecidableEq P] (h : Reach m.step State.init s) : Served s :=
  h.invariant served_init (fun hr hi hs => hi.step hr (step_outcome hs))

/-- How the committed pairs of a session change in one move: with the start of
its first runtime, or with one of the two commits of a reload. -/
inductive Commit (m : SessionManager P) (id : SessionId) (s : State P) (pc pc' : Pc P) :
    List PolicyPair → Prop where
  | none : Commit m id s pc pc' (s.history id)
  | created (call : CreateCall) (hid : call.id = id) (hpc : pc = .create call .start)
      (hnew : s.history id = []) :
      Commit m id s pc pc' [m.pair call.session call.credentialSeed call.secrets]
  | same (batch : Option Batch) (target : ReloadTarget P) (credentialSeed : CredentialSeed)
      (hpc : pc = .reload id batch (.commitSame target))
      (hpc' : pc' = .reload id batch (.returning (.reloaded id target.socket))) :
      Commit m id s pc pc'
        (s.history id ++ [m.pair target.candidate credentialSeed target.secrets])
  | switched (batch : Option Batch) (target : ReloadTarget P) (options : Replacement)
      (oldRuntime : ProxyRuntime P) (hpc : pc = .reload id batch (.marked target options oldRuntime))
      (hpc' : pc' = .reload id batch (.gated target options oldRuntime)) :
      Commit m id s pc pc'
        (s.history id ++ [m.pair target.candidate options.credentialSeed target.secrets])

theorem move_commit (hc : pc.holds = some id → Cutting m s pc) (hm : Move m t s pc s' pc') :
    Commit m id s pc pc' (s'.history id) := by
  cases hm with
  | create call h =>
    cases h with
    | started socketPath =>
      by_cases hid : id = call.id
      · subst hid
        have hhist : (created m s call socketPath).1.history call.id
            = [m.pair call.session call.credentialSeed call.secrets] := Function.update_self ..
        rw [hhist]
        exact .created call rfl rfl (hc rfl).2
      · have hhist : (created m s call socketPath).1.history id = s.history id :=
          Function.update_of_ne hid _ _
        rw [hhist]
        exact .none
    | _ => exact .none
  | reload j batch h =>
    cases h with
    | sameCommitted target ha session hget runtime hruntime cell hcell =>
      by_cases hid : id = j
      · subst hid
        simp only [Function.update_self]
        exact .same batch target runtime.credentialSeed rfl rfl
      · simp only [Function.update_of_ne hid]
        exact .none
    | gateStored target options oldRuntime =>
      by_cases hid : id = j
      · subst hid
        simp only [SessionManager.reloadGate, Function.update_self]
        exact .switched batch target options oldRuntime rfl rfl
      · simp only [SessionManager.reloadGate, Function.update_of_ne hid]
        exact .none
    | _ => exact .none
  | teardown kind j h => cases h <;> exact .none
  | sweep h => cases h <;> exact .none
  | _ => exact .none

theorem Commit.grows {history : List PolicyPair} (h : Commit m id s pc pc' history) :
    s.history id <+: history := by
  cases h with
  | none => exact List.prefix_refl _
  | created call hid hpc hnew =>
    rw [hnew]
    exact ⟨_, rfl⟩
  | same | switched => exact List.prefix_append _ _

/-- A step either commits nothing for a session or is a commit of the call that works on it. -/
theorem step_commit [DecidableEq P] (hreach : Reach m.step State.init s) (ho : Outcome m s s')
    (id : SessionId) :
    s'.history id = s.history id ∨
      ∃ t, Commit m id s (s.tasks t) (s'.tasks t) (s'.history id) := by
  cases ho with
  | moved t hm =>
    rename_i u pc'
    refine Or.inr ⟨t, ?_⟩
    have hself : (u.goto t pc').tasks t = pc' := Function.update_self ..
    have hcommit := move_commit (fun hh => (cutover_upheld hreach id).2 t hh) hm
    rw [hself]
    exact hcommit
  | _ => exact Or.inl rfl

theorem step_grows [DecidableEq P] (hreach : Reach m.step State.init s) (ho : Outcome m s s')
    (id : SessionId) : s.history id <+: s'.history id := by
  rcases step_commit hreach ho id with he | ⟨t, hc⟩
  · rw [he]
  · exact hc.grows

/-- Committed pairs are never taken back. -/
theorem run_grows [DecidableEq P] (hreach : Reach m.step State.init s)
    (h : Reach m.step s s') (id : SessionId) :
    Reach m.step State.init s' ∧ s.history id <+: s'.history id := by
  induction h with
  | start => exact ⟨hreach, List.prefix_refl _⟩
  | next before _ hs ih =>
    have ho := step_outcome hs
    exact ⟨ih.1.next hs, ih.2.trans (step_grows ih.1 ho id)⟩

/-- A connection is spawned once, with the pair that the accept loop holds. -/
theorem cell_connections {gate now : Nat} {c c' : RuntimeCell} {sent : List ProxyRuntimeEvent}
    (h : CellMove gate now c c' sent) {connection : Connection}
    (hmem : connection ∈ c'.connections) :
    connection ∈ c.connections ∨
      c.acceptor = .holding connection.acceptedAt connection.generation ∧
        connection.dispatchedAt = now := by
  cases h with
  | dispatched since generation ha =>
    rcases List.mem_cons.mp hmem with rfl | hmem
    · exact Or.inr ⟨ha, rfl⟩
    · exact Or.inl hmem
  | closed i => exact Or.inl (List.mem_of_mem_eraseIdx hmem)
  | ended => cases hmem
  | _ => exact Or.inl hmem

theorem step_connections (ho : Outcome m s s') {r : RuntimeRef} (hr : r < s.nextCell)
    {connection : Connection} (hmem : connection ∈ (s'.cells r).connections) :
    connection ∈ (s.cells r).connections ∨
      (s.cells r).acceptor = .holding connection.acceptedAt connection.generation ∧
        connection.dispatchedAt = (s.history (s.cells r).runtimeId).length := by
  cases ho with
  | create | call | delivered => exact Or.inl hmem
  | moved t hm =>
    have hconn := (move_cells hm hr).connections
    simp only [State.goto, hconn] at hmem
    exact Or.inl hmem
  | expired t =>
    rw [(tended_abort_cells _ r).connections] at hmem
    exact Or.inl hmem
  | aborted t ha hb =>
    have hconn := (tended_aborted (s := s) (s.tasks t).owned (s.tasks t).draining r).connections
    simp only [State.goto, hconn] at hmem
    exact Or.inl hmem
  | runtime q hq cell permits sent hc =>
    by_cases hrq : r = q
    · subst hrq
      simp only [cellMoved, State.setCell, Function.update_self] at hmem
      exact cell_connections hc hmem
    · simp only [cellMoved, State.setCell, Function.update_of_ne hrq] at hmem
      exact Or.inl hmem

/-- A reload that withdraws its replacement will report a failure. -/
def Withdrawing : Pc P → Prop
  | .reload _ _ (.shutdown _ result) | .reload _ _ (.draining _ result) => result.status = .failed
  | _ => True

theorem Between.withdrawing (h : Between pc) : Withdrawing pc := by cases h <;> trivial

theorem Initial.withdrawing (h : Initial pc) : Withdrawing pc := by cases h <;> trivial

theorem move_withdrawing (h : Move m t s pc s' pc') (hw : Withdrawing pc) : Withdrawing pc' := by
  cases h with
  | reload j batch h =>
    cases h with
    | withdrawn target options replacement hwd hr => exact hr
    | stopping replacement result => exact hw
    | _ => trivial
  | unknown j batch hs => exact (reload_lookup_between batch hs).withdrawing
  | reloadReturned j batch result => exact (after_reload_between batch result).withdrawing
  | reloadAll => exact reload_all_between.withdrawing
  | _ => trivial

def Reporting (s : State P) : Prop := ∀ t, Withdrawing (s.tasks t)

theorem Reporting.step (h : Reporting s) (ho : Outcome m s s') : Reporting s' := by
  intro u
  have hspawn : ∀ {s1 : State P} {pc : Pc P}, s1.tasks = s.tasks → Withdrawing pc →
      Withdrawing ((s1.spawn pc).tasks u) := by
    intro s1 pc ht hpc
    have hcases : (s1.spawn pc).tasks u = s1.tasks u ∨ (s1.spawn pc).tasks u = pc := spawn_tasks u
    rcases hcases with hu | hu <;> rw [hu]
    · rw [ht]
      exact h u
    · exact hpc
  cases ho with
  | create call hid => exact hspawn rfl trivial
  | call hpc => exact hspawn rfl hpc.withdrawing
  | delivered event events he => exact hspawn rfl trivial
  | moved t hm =>
    rcases goto_tasks u with hu | hu <;> rw [hu]
    · rw [(move_calls hm).1]
      exact h u
    · exact move_withdrawing hm (h t)
  | expired t => exact h u
  | aborted t ha hb =>
    rcases goto_tasks u with hu | hu <;> rw [hu]
    · exact h u
    · trivial
  | runtime r hr cell permits sent hc => exact h u

theorem reporting_init : Reporting (State.init : State P) := fun _ => trivial

theorem reporting_reach [DecidableEq P] (h : Reach m.step State.init s) : Reporting s :=
  h.invariant reporting_init (fun _ hi hs => hi.step (step_outcome hs))

/-- A reload that reports comes from `reload_locked`. -/
theorem move_returning {batch : Option Batch} {stage : ReloadStage P}
    {result : SessionReloadResult} (h : Move m t s (.reload id batch stage) s' pc')
    (hp : pc' = .reload id batch (.returning result)) :
    ReloadMove m s id stage s' (.returning result) := by
  have hbetween : ¬Between pc' := by
    rw [hp]
    rintro ⟨⟩
  cases h with
  | reload j batch h =>
    cases hp
    exact h
  | unknown j batch hs => exact absurd (reload_lookup_between batch hs) hbetween
  | reloadReturned j batch result => exact absurd (after_reload_between batch result) hbetween
  | found | locked => cases hp

theorem reload_holds {batch : Option Batch} {stage stage' : ReloadStage P}
    (h : ReloadMove m s id stage s' stage') : (Pc.reload id batch stage).holds = some id := by
  cases h <;> rfl

/-- When a reload comes to report success, its candidate is the committed pair. -/
theorem reload_reports {batch : Option Batch} {stage : ReloadStage P}
    {result : SessionReloadResult} (hw : Withdrawing (.reload id batch stage))
    (hc : Cutting m s (.reload id batch stage))
    (hm : ReloadMove m s id stage s' (.returning result)) (hr : result.status = .reloaded) :
    ∃ target session runtime,
      (stage = .commitSame target ∨ ∃ options oldRuntime, stage = .gated target options oldRuntime) ∧
      s'.sessions.get id = some session ∧ session.runtime = some runtime ∧
      session.configuration = target.candidate ∧ session.secrets = target.secrets ∧
      (s'.history id).getLast?
        = some (m.pair target.candidate runtime.credentialSeed target.secrets) := by
  generalize hstage : ReloadStage.returning result = stage' at hm
  cases hm with
  | sameCommitted target ha session hget runtime hruntime cell hcell =>
    refine ⟨target, _, runtime, Or.inl rfl, SortedMap.get_insert_self .., hruntime, rfl, rfl, ?_⟩
    simp only [Function.update_self, List.getLast?_concat]
    rfl
  | retired target options oldRuntime session hget =>
    obtain ⟨⟨session', runtime, hget', hruntime, -, hconf, hsec, hseed⟩, hlast⟩ := hc
    rw [hget] at hget'
    cases hget'
    refine ⟨target, _, runtime, Or.inr ⟨options, oldRuntime, rfl⟩, SortedMap.get_insert_self ..,
      hruntime, hconf, hsec, ?_⟩
    rw [hseed]
    exact hlast
  | lost target options oldRuntime hnone =>
    obtain ⟨⟨session', runtime, hget', -⟩, -⟩ := hc
    rw [hnone] at hget'
    cases hget'
  | drained cell result' hf =>
    cases hstage
    have hfail : result.status = .failed := hw
    rw [hr] at hfail
    cases hfail
  | missing _ hres | turnedDown _ _ hres | unprepared _ hres | compareMissing _ _ _ hres
  | sameFailed _ hres | limitsRefused _ hres | limited _ _ _ hres | unbound _ _ hres
  | vacant _ _ _ _ _ _ _ hres =>
    cases hstage
    rw [hr] at hres
    cases hres
  | unchanged =>
    cases hstage
    cases hr
  | _ => cases hstage

/-- The cut-over is atomic for every connection. The history of a session lists
its committed pairs, and a mark of a connection counts them at its accept and at
its dispatch. -/
structure AtomicCutover (m : SessionManager P) [DecidableEq P] (s : State P) : Prop where
  /-- a connection has the pair that was committed at an instant between its accept
  and its dispatch -/
  served : ∀ r connection, r < s.nextCell → connection ∈ (s.cells r).connections →
    ∃ k, (s.history (s.cells r).runtimeId)[k]? = some connection.generation.pair ∧
      connection.acceptedAt ≤ k + 1 ∧ k + 1 ≤ connection.dispatchedAt
  /-- the last committed pair is that of the registered configuration -/
  registered : s.registryFree = true → ∀ id session runtime,
    s.sessions.get id = some session → session.runtime = some runtime →
    (s.history id).getLast?
      = some (m.pair session.configuration runtime.credentialSeed session.secrets)
  /-- a connection is dispatched with what the accept loop holds, and keeps it -/
  lifelong : ∀ action s' r connection, m.step action s = some s' → r < s.nextCell →
    connection ∈ (s'.cells r).connections →
    connection ∈ (s.cells r).connections ∨
      (s.cells r).acceptor = .holding connection.acceptedAt connection.generation ∧
        connection.dispatchedAt = (s.history (s.cells r).runtimeId).length
  /-- pairs are committed by `create` and by reloads that report success, and by nothing else -/
  commits : ∀ action s' id, m.step action s = some s' →
    s'.history id = s.history id ∨
      ∃ t, Commit m id s (s.tasks t) (s'.tasks t) (s'.history id)
  /-- a reload that comes to report success has committed its candidate -/
  reported : ∀ t env id batch stage result s',
    s.tasks t = .reload id batch stage → m.step (.advance t env) s = some s' →
    s'.tasks t = .reload id batch (.returning result) → result.status = .reloaded →
    ∃ target session runtime,
      (stage = .commitSame target ∨ ∃ options oldRuntime, stage = .gated target options oldRuntime) ∧
      s'.sessions.get id = some session ∧ session.runtime = some runtime ∧
      session.configuration = target.candidate ∧ session.secrets = target.secrets ∧
      (s'.history id).getLast?
        = some (m.pair target.candidate runtime.credentialSeed target.secrets)
  /-- an accept from now on is marked with at least the pairs committed by now -/
  accepted : ∀ s' s'' r, Reach m.step s s' → m.step (.runtime r .accept) s' = some s'' →
    ∃ now, (s''.cells r).acceptor = .accepted now ∧
      (s.history (s'.cells r).runtimeId).length ≤ now
  /-- a connection accepted from now on has no pair from before the last committed one -/
  later : ∀ s' r connection, Reach m.step s s' → r < s'.nextCell →
    connection ∈ (s'.cells r).connections →
    (s.history (s'.cells r).runtimeId).length ≤ connection.acceptedAt →
    ∃ k, (s.history (s'.cells r).runtimeId).length ≤ k + 1 ∧
      (s'.history (s'.cells r).runtimeId)[k]? = some connection.generation.pair

theorem policy_cutover [DecidableEq P] (h : Reach m.step State.init s) : AtomicCutover m s where
  served r connection hr hmem := (served_reach h r hr).connections connection hmem
  registered hfree id session runtime hs hruntime := by
    rcases (cutover_upheld h id).1.pair session runtime hs hruntime with hp | ⟨u, hu⟩
    · exact hp
    · exact absurd hu (marks_free (exclusive_reach h) hfree u)
  lifelong action s' r connection hs hr hmem := step_connections (step_outcome hs) hr hmem
  commits action s' id hs := step_commit h (step_outcome hs) id
  reported t env id batch stage result s' hpc hs hpc' hr := by
    obtain ⟨⟨u, pc⟩, ha, rfl⟩ := Option.map_eq_some_iff.mp hs
    rw [hpc] at ha
    have hself : (u.goto t pc).tasks t = pc := Function.update_self ..
    have hpc' : pc = .reload id batch (.returning result) := hself.symm.trans hpc'
    have hm : Move m t s (.reload id batch stage) u pc := advance_reload ha
    have hmove := move_returning hm hpc'
    have hw := reporting_reach h t
    have hc := (cutover_upheld h id).2 t (by rw [hpc]; exact reload_holds hmove)
    rw [hpc] at hw hc
    have hreports := reload_reports hw hc hmove hr
    exact hreports
  accepted s' s'' r hreach hs := by
    simp only [SessionManager.step, State.runtimeMove] at hs
    split at hs
    · obtain ⟨cell, hcell, rfl⟩ := on_cell_some hs
      unfold RuntimeCell.accept at hcell
      split at hcell
      · rw [← Option.some.inj hcell]
        refine ⟨(s'.history (s'.cells r).runtimeId).length, ?_, (run_grows h hreach _).2.length_le⟩
        simp only [State.setCell, Function.update_self]
      · cases hcell
    · cases hs
  later s' r connection hreach hr hmem hle := by
    obtain ⟨k, hk, hacc, -⟩ := (served_reach (run_grows h hreach []).1 r hr).connections
      connection hmem
    exact ⟨k, hle.trans hacc, hk⟩

/-- Ten pairs were committed, eight of which the former listener serves. -/
theorem policy_cutover_sample :
    ∃ s, runSteps busyManager.step busyRun State.init = some s ∧ AtomicCutover busyManager s ∧
      (s.history busyCall.id).length = 10 ∧ (s.cells 0).connections.length = 8 ∧
      (s.cells 1).connections.length = 2 := by
  have hrun : (runSteps busyManager.step busyRun State.init).any (fun s =>
      (s.history busyCall.id).length == 10 && (s.cells 0).connections.length == 8 &&
        (s.cells 1).connections.length == 2) = true := by decide +kernel
  obtain ⟨s, hs, htest⟩ := run_any hrun
  simp only [Bool.and_eq_true, beq_iff_eq] at htest
  obtain ⟨⟨hten, height⟩, htwo⟩ := htest
  exact ⟨s, hs, policy_cutover (reach_run .start hs), hten, height, htwo⟩

end Baffle.Proofs
