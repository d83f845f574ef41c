import Baffle.Proofs.Teardown
import Baffle.Proofs.Work

namespace Baffle

/-- What the tasks of a runtime do although no client asks for anything and no
connection ends or fails. -/
def RuntimeMove.prompt : RuntimeMove → Bool
  | .accept | .close _ | .fail => false
  | _ => true

/-- The steps that no client asks for. A timeout counts as long as it has something to abort. -/
inductive Unasked {P : Type} : Action P → State P → Prop where
  | deliver (s : State P) : Unasked .deliver s
  | advance (t : TaskId) (env : Environment P) (s : State P) : Unasked (.advance t env) s
  | expire (t : TaskId) (s : State P) (r : RuntimeRef) (hr : r ∈ (s.tasks t).draining)
      (ha : (s.cells r).aborted = false) : Unasked (.expire t) s
  | abort (t : TaskId) (s : State P) : Unasked (.abort t) s
  | runtime (r : RuntimeRef) (move : RuntimeMove) (s : State P) (hm : move ≠ .accept) :
      Unasked (.runtime r move) s

/-- The steps that calls and runtimes take even if no client does anything at all. -/
inductive Prompt {P : Type} : Action P → State P → Prop where
  | advance (t : TaskId) (env : Environment P) (s : State P) : Prompt (.advance t env) s
  | expire (t : TaskId) (s : State P) (r : RuntimeRef) (hr : r ∈ (s.tasks t).draining)
      (ha : (s.cells r).aborted = false) : Prompt (.expire t) s
  | runtime (r : RuntimeRef) (move : RuntimeMove) (s : State P) (hm : move.prompt = true) :
      Prompt (.runtime r move) s

/-- The same with the delivery of exit events. -/
def Owed {P : Type} (a : Action P) (s : State P) : Prop := a = .deliver ∨ Prompt a s

theorem Owed.unasked {P : Type} {s : State P} {a : Action P} (h : Owed a s) : Unasked a s := by
  rcases h with rfl | h
  · exact .deliver s
  · cases h with
    | advance t env => exact .advance t env s
    | expire t _ r hr ha => exact .expire t s r hr ha
    | runtime r move _ hm =>
      refine .runtime r move s ?_
      rintro rfl
      cases hm

/-- The session whose reload lock the call waits for. -/
def Pc.awaits {P : Type} : Pc P → Option SessionId
  | .reload id _ .lock | .teardown _ id .lock | .shutdownAll (.lock id _ _ _) => some id
  | _ => none

namespace Proofs

variable {P : Type} {m : SessionManager P} {t : TaskId} {s s' : State P} {pc pc' : Pc P}
  {id : SessionId}

/-- A runtime that was disposed of is cancelled, and it is aborted, over, or
somebody waits for its end. -/
structure Dismissed (s : State P) : Prop where
  draining : ∀ t, ∀ r ∈ (s.tasks t).draining, 0 < (s.cells r).disposals
  cancelled : ∀ r, 0 < (s.cells r).disposals → (s.cells r).cancelled = true
  leaving : ∀ r, 0 < (s.cells r).disposals → (s.cells r).aborted = true ∨
    (s.cells r).phase = .finished ∨ ∃ t, r ∈ (s.tasks t).draining

theorem dismissed_init : Dismissed (State.init : State P) where
  draining _ _ h := by cases h
  cancelled _ h := absurd h (Nat.lt_irrefl 0)
  leaving _ h := absurd h (Nat.lt_irrefl 0)

theorem Conserved.used (h : Conserved s) {r : RuntimeRef} (hr : 0 < (s.cells r).disposals) :
    r < s.nextCell := by
  have hone := h r
  split at hone
  · assumption
  · omega

theorem shutdown_waits (runtimes : List (ProxyRuntime P)) {r : RuntimeRef}
    (hr : r ∈ runtimes.map ProxyRuntime.cell) :
    0 < ((s.shutdownRuntimes runtimes).cells r).disposals :=
  Nat.lt_of_lt_of_le (List.count_pos_iff.mpr hr) (Nat.le_add_left _ _)

theorem Between.draining (h : Between pc) : pc.draining = [] := by cases h <;> rfl

theorem Initial.draining (h : Initial pc) : pc.draining = [] := by cases h <;> rfl

/-- A call waits for runtimes that it has just told to end. -/
theorem move_waits (hm : Move m t s pc s' pc') {r : RuntimeRef} (hr : r ∈ pc'.draining) :
    0 < (s'.cells r).disposals := by
  cases hm with
  | unknown j batch hs => simp [(reload_lookup_between batch hs).draining] at hr
  | reload j batch hm =>
    cases hm with
    | stopping replacement result => exact shutdown_waits [replacement] hr
    | _ => cases hr
  | reloadReturned j batch result => simp [(after_reload_between batch result).draining] at hr
  | reloadAll => simp [reload_all_between.draining] at hr
  | teardown kind j hm =>
    cases hm with
    | stopping runtimes => exact shutdown_waits _ hr
    | _ => cases hr
  | sweep hm =>
    cases hm with
    | stopping runtimes count => exact shutdown_waits _ hr
    | _ => cases hr
  | _ => cases hr

/-- What a call does to a runtime that it disposes of. -/
def Dismisses (pc' : Pc P) (r : RuntimeRef) (c : RuntimeCell) : Prop :=
  c.cancelled = true ∧ (c.aborted = true ∨ r ∈ pc'.draining)

theorem drop_dismisses {n : Nat} {r : RuntimeRef} {c : RuntimeCell}
    (h : (c.drop n).disposals ≠ c.disposals) : Dismisses pc' r (c.drop n) :=
  ⟨(drop_marks (held_of_changed h)).1, Or.inl (drop_marks (held_of_changed h)).2⟩

theorem shutdown_dismisses (runtimes : List (ProxyRuntime P)) {r : RuntimeRef}
    (hd : pc'.draining = runtimes.map ProxyRuntime.cell)
    (h : ((s.shutdownRuntimes runtimes).cells r).disposals ≠ (s.cells r).disposals) :
    Dismisses pc' r ((s.shutdownRuntimes runtimes).cells r) := by
  have hne := held_of_changed h
  refine ⟨shutdown_marks hne, Or.inr ?_⟩
  rw [hd]
  exact List.count_pos_iff.mp (Nat.pos_of_ne_zero hne)

theorem move_dismisses (hm : Move m t s pc s' pc') {r : RuntimeRef} (hr : r < s.nextCell)
    (h : (s'.cells r).disposals ≠ (s.cells r).disposals) : Dismisses pc' r (s'.cells r) := by
  cases hm with
  | create call hm =>
    cases hm with
    | started socketPath =>
      exact absurd (congrArg RuntimeCell.disposals (Function.update_of_ne (Nat.ne_of_lt hr) _ _)) h
    | registered runtime ha => exact absurd (set_same RuntimeCell.disposals (by rfl)) h
    | dropped runtime => exact drop_dismisses h
    | _ => exact absurd rfl h
  | reload j batch hm =>
    cases hm with
    | turnedDown session hs | begun session hs => exact drop_dismisses h
    | limited target session hs | withinLimits target ha session hs => exact drop_dismisses h
    | sameCommitted target ha session hs runtime hruntime cell hcell =>
      exact absurd (set_same RuntimeCell.disposals (by rw [replaced hcell])) h
    | replacing target options =>
      exact absurd (congrArg RuntimeCell.disposals (Function.update_of_ne (Nat.ne_of_lt hr) _ _)) h
    | vacant target options replacement session hs => exact drop_dismisses h
    | switched target options replacement ha session hs hstate oldRuntime hruntime =>
      exact absurd (Eq.trans (set_same RuntimeCell.disposals (by rfl))
        (set_same RuntimeCell.disposals (by rfl))) h
    | lost target options oldRuntime hs =>
      have hset : ((s.setCell oldRuntime.cell (s.cells oldRuntime.cell).retire).cells r).disposals
          = (s.cells r).disposals := set_same RuntimeCell.disposals (by rfl)
      rw [← hset] at h
      exact drop_dismisses h
    | retired target options oldRuntime session hs =>
      exact absurd (set_same RuntimeCell.disposals (by rfl)) h
    | stopping replacement result => exact shutdown_dismisses [replacement] rfl h
    | _ => exact absurd rfl h
  | teardown kind j hm =>
    cases hm with
    | forgotten g hk session hs hne => exact drop_dismisses h
    | stopping runtimes => exact shutdown_dismisses _ rfl h
    | removed session hs => exact drop_dismisses h
    | _ => exact absurd rfl h
  | sweep hm =>
    cases hm with
    | stopping runtimes count => exact shutdown_dismisses _ rfl h
    | cleared count => exact drop_dismisses h
    | _ => exact absurd rfl h
  | listed answer => exact drop_dismisses h
  | _ => exact absurd rfl h

/-- A runtime that a call has just started was not disposed of. -/
theorem move_used (hc : Conserved (s'.goto t pc')) (hm : Move m t s pc s' pc') {r : RuntimeRef}
    (hr : 0 < (s'.cells r).disposals) : r < s.nextCell := by
  have hlt : r < s'.nextCell := hc.used hr
  rcases move_started hm with hn | ⟨j, generation, permits, pair, -, hn, hcell⟩
  · rwa [hn] at hlt
  · have hne : r ≠ s.nextCell := by
      rintro rfl
      rw [hcell] at hr
      exact Nat.lt_irrefl 0 hr
    rw [hn] at hlt
    exact Nat.lt_of_le_of_ne (Nat.lt_succ_iff.mp hlt) hne

theorem Dismissed.moved (h : Dismissed s) (hx : Exclusive s) (hc : Conserved s)
    (hm : Move m t s (s.tasks t) s' pc') : Dismissed (s'.goto t pc') := by
  have htasks := (move_calls hm).1
  have hself : (s'.goto t pc').tasks t = pc' := Function.update_self ..
  have hother : ∀ u, u ≠ t → (s'.goto t pc').tasks u = s.tasks u := fun u hu => by
    rw [← htasks]
    exact Function.update_of_ne hu _ _
  have hlt : ∀ {r}, 0 < ((s'.goto t pc').cells r).disposals → r < s.nextCell :=
    fun hr => move_used (hc.moved hx hm) hm hr
  -- what is new among the disposals is the work of this move
  have hnew : ∀ {r}, 0 < ((s'.goto t pc').cells r).disposals →
      0 < (s.cells r).disposals ∨ Dismisses pc' r (s'.cells r) := by
    intro r hr
    by_cases heq : (s'.cells r).disposals = (s.cells r).disposals
    · exact Or.inl (heq ▸ hr)
    · exact Or.inr (move_dismisses hm (hlt hr) heq)
  constructor
  · intro u r hr
    by_cases hu : u = t
    · subst hu
      rw [hself] at hr
      exact move_waits hm hr
    · rw [hother u hu] at hr
      have hd := h.draining u r hr
      exact Nat.lt_of_lt_of_le hd (move_cells hm (hc.used hd)).disposals
  · intro r hr
    rcases hnew hr with hd | hd
    · exact (move_cells hm (hlt hr)).cancelled (h.cancelled r hd)
    · exact hd.1
  · intro r hr
    rcases hnew hr with hd | hd
    · have htended := move_cells hm (hlt hr)
      rcases h.leaving r hd with ha | hf | ⟨u, hu⟩
      · exact Or.inl (htended.aborted ha)
      · exact Or.inr (Or.inl (htended.phase.trans hf))
      · by_cases hut : u = t
        · subst hut
          exact Or.inr (Or.inl (htended.phase.trans (move_drained hm hu)))
        · exact Or.inr (Or.inr ⟨u, by rwa [hother u hut]⟩)
    · rcases hd.2 with ha | hw
      · exact Or.inl ha
      · exact Or.inr (Or.inr ⟨t, by rwa [hself]⟩)

/-- The abort of a call leaves nothing running that it waited for or owned. -/
theorem Dismissed.aborted (h : Dismissed s) :
    Dismissed (((s.dropRuntimes (s.tasks t).owned).abortCells (s.tasks t).draining).goto t
      .aborted) := by
  have htended := fun r => tended_aborted (s := s) (s.tasks t).owned (s.tasks t).draining r
  have hother : ∀ {r u}, r ∈ ((((s.dropRuntimes (s.tasks t).owned).abortCells
      (s.tasks t).draining).goto t .aborted).tasks u).draining → r ∈ (s.tasks u).draining := by
    intro r u hr
    rcases (goto_tasks u : (s.goto t .aborted).tasks u = s.tasks u ∨ _) with hu | hu
    · exact hu ▸ hr
    · have hnone : (((s.dropRuntimes (s.tasks t).owned).abortCells (s.tasks t).draining).goto t
          .aborted).tasks u = .aborted := hu
      rw [hnone] at hr
      cases hr
  have hnew : ∀ {r}, 0 < ((((s.dropRuntimes (s.tasks t).owned).abortCells
      (s.tasks t).draining).goto t .aborted).cells r).disposals →
      0 < (s.cells r).disposals ∨ held (s.tasks t).owned r ≠ 0 := by
    intro r hr
    have hd := abort_cells_disposals (s := s.dropRuntimes (s.tasks t).owned)
      (s.tasks t).draining r
    change 0 < (((s.dropRuntimes (s.tasks t).owned).abortCells
      (s.tasks t).draining).cells r).disposals at hr
    rw [hd] at hr
    change 0 < (s.cells r).disposals + held (s.tasks t).owned r at hr
    omega
  have hdropped : ∀ {r}, held (s.tasks t).owned r ≠ 0 →
      ((s.dropRuntimes (s.tasks t).owned).cells r).cancelled = true ∧
        ((s.dropRuntimes (s.tasks t).owned).cells r).aborted = true := fun hr => drop_marks hr
  constructor
  · intro u r hr
    exact Nat.lt_of_lt_of_le (h.draining u r (hother hr)) (htended r).disposals
  · intro r hr
    rcases hnew hr with hd | hd
    · exact (htended r).cancelled (h.cancelled r hd)
    · exact (tended_abort_cells _ r).cancelled (hdropped hd).1
  · intro r hr
    rcases hnew hr with hd | hd
    · rcases h.leaving r hd with ha | hf | ⟨u, hu⟩
      · exact Or.inl ((htended r).aborted ha)
      · exact Or.inr (Or.inl ((htended r).phase.trans hf))
      · by_cases hut : u = t
        · subst hut
          left
          show (((s.dropRuntimes _).abortCells (s.tasks u).draining).cells r).aborted = true
          simp only [State.abortCells, if_pos hu]
          rfl
        · refine Or.inr (Or.inr ⟨u, ?_⟩)
          show r ∈ (Function.update s.tasks t Pc.aborted u).draining
          rwa [Function.update_of_ne hut]
    · exact Or.inl ((tended_abort_cells _ r).aborted (hdropped hd).2)

/-- A step that disposes of nothing, and after which the same calls wait. -/
theorem Dismissed.still (h : Dismissed s)
    (hcells : ∀ r, (s'.cells r).disposals = (s.cells r).disposals)
    (hcancelled : ∀ r, (s.cells r).cancelled = true → (s'.cells r).cancelled = true)
    (haborted : ∀ r, (s.cells r).aborted = true → (s'.cells r).aborted = true)
    (hphase : ∀ r, (s.cells r).phase = .finished → (s'.cells r).phase = .finished)
    (htasks : ∀ u r, r ∈ (s'.tasks u).draining ↔ r ∈ (s.tasks u).draining) : Dismissed s' := by
  constructor
  · intro u r hr
    rw [hcells]
    exact h.draining u r ((htasks u r).mp hr)
  · intro r hr
    rw [hcells] at hr
    exact hcancelled r (h.cancelled r hr)
  · intro r hr
    rw [hcells] at hr
    rcases h.leaving r hr with ha | hf | ⟨u, hu⟩
    · exact Or.inl (haborted r ha)
    · exact Or.inr (Or.inl (hphase r hf))
    · exact Or.inr (Or.inr ⟨u, (htasks u r).mpr hu⟩)

theorem Dismissed.spawn (h : Dismissed s) (hx : Exclusive s) (hcells : s'.cells = s.cells)
    (htasks : s'.tasks = s.tasks) (hnext : s'.nextTask = s.nextTask) (hpc : pc.draining = []) :
    Dismissed (s'.spawn pc) := by
  refine h.still (fun r => ?_) (fun r => ?_) (fun r => ?_) (fun r => ?_) (fun u r => ?_)
  · exact congrArg (fun cells => (cells r).disposals) hcells
  · exact fun hr => by rw [← hr]; exact congrArg (fun cells => (cells r).cancelled) hcells
  · exact fun hr => by rw [← hr]; exact congrArg (fun cells => (cells r).aborted) hcells
  · exact fun hr => by rw [← hr]; exact congrArg (fun cells => (cells r).phase) hcells
  · by_cases hu : u = s'.nextTask
    · subst hu
      have hself : (s'.spawn pc).tasks s'.nextTask = pc := Function.update_self ..
      rw [hself, hpc, hx.absent s'.nextTask (by rw [hnext])]
      rfl
    · have hother : (s'.spawn pc).tasks u = s'.tasks u := Function.update_of_ne hu _ _
      rw [hother, htasks]

theorem finished_cell {gate now : Nat} {c c' : RuntimeCell} {sent : List ProxyRuntimeEvent}
    (h : CellMove gate now c c' sent) (hf : c.phase = .finished) : c'.phase = .finished := by
  cases h with
  | accepted hp | left hp | checked hp | reporting _ hp | silent hp | reported _ hp =>
    rw [hf] at hp
    cases hp
  | ended hp => rcases hp with hp | hp <;> rw [hf] at hp <;> cases hp
  | finished => rfl
  | _ => exact hf

theorem Dismissed.step (h : Dismissed s) (hx : Exclusive s) (hc : Conserved s)
    (ho : Outcome m s s') : Dismissed s' := by
  cases ho with
  | create call hid => exact h.spawn hx rfl rfl rfl rfl
  | call hpc => exact h.spawn hx rfl rfl rfl hpc.draining
  | delivered event events he => exact h.spawn hx rfl rfl rfl rfl
  | moved t hm => exact h.moved hx hc hm
  | expired t =>
    have htended := fun r => tended_abort_cells (s := s) (s.tasks t).draining r
    exact h.still (abort_cells_disposals _) (fun r => (htended r).cancelled)
      (fun r => (htended r).aborted) (fun r hr => (htended r).phase.trans hr) (fun _ _ => Iff.rfl)
  | aborted t ha hb => exact h.aborted
  | runtime r hr cell permits sent hm hb =>
    have hsettled := fun q => settled_cells permits hm q
    refine h.still (fun q => (hsettled q).disposals)
      (fun q hq => (hsettled q).cancelled.trans hq) (fun q hq => (hsettled q).aborted.trans hq)
      (fun q hq => ?_) (fun _ _ => Iff.rfl)
    by_cases hqr : q = r
    · subst hqr
      simpa only [cellMoved, State.setCell, Function.update_self] using finished_cell hm hq
    · simpa only [cellMoved, State.setCell, Function.update_of_ne hqr] using hq

theorem dismissed_reach [DecidableEq P] (h : Reach m.step State.init s) : Dismissed s :=
  h.invariant dismissed_init (fun hr hi hs => hi.step (exclusive_reach hr) (conserved_reach hr)
    (step_outcome hs))

theorem over_spawned (f : Pc P → Nat) : overCalls f (s.spawn pc) = overCalls f s + f pc := by
  have hself : (s.spawn pc).tasks s.nextTask = pc := Function.update_self ..
  have hsum : overCalls f (s.spawn pc) = ∑ u ∈ Finset.range s.nextTask, f ((s.spawn pc).tasks u)
      + f ((s.spawn pc).tasks s.nextTask) := Finset.sum_range_succ ..
  rw [hsum, hself]
  refine congrArg (· + f pc) (Finset.sum_congr rfl (fun u hu => ?_))
  have hne : u ≠ s.nextTask := Nat.ne_of_lt (Finset.mem_range.mp hu)
  simp only [State.spawn, State.goto, Function.update_of_ne hne]

theorem backlog_lt {a b a' b' : Nat} : (toLex (a', b') : ℕ ×ₗ ℕ) < toLex (a, b) ↔
    a' < a ∨ a' = a ∧ b' < b := Prod.Lex.toLex_lt_toLex

theorem moved_lowers (hx : Exclusive s) (hm : Move m t s (s.tasks t) s' pc') :
    backlog (s'.goto t pc') < backlog s := by
  obtain ⟨htasks, hnext, -⟩ := move_calls hm
  have hlive := move_live hx hm
  have hcalls : ∀ f : Pc P → Nat,
      overCalls f (s'.goto t pc') + f (s.tasks t) = overCalls f s + f pc' := by
    intro f
    rw [← over_goto f pc' hlive]
    simp only [overCalls, State.goto, htasks, hnext]
  have hscans := hcalls Pc.scans
  have hwork := hcalls Pc.work
  have hcells := move_cell_work hm
  change cellWork (s'.goto t pc') ≤ _ at hcells
  have hevents := congrArg List.length (move_events hm)
  change (s'.goto t pc').events.length = _ at hevents
  refine backlog_lt.mpr ?_
  unfold workLeft
  rw [hevents]
  rcases move_work hm with hlt | ⟨heq, hlt⟩
  · exact Or.inl (by omega)
  · exact Or.inr ⟨by omega, by omega⟩

/-- A step that only works on the cells and the events. -/
theorem cells_lower (htasks : s'.tasks = s.tasks) (hnext : s'.nextTask = s.nextTask)
    (hlt : cellWork s' + eventWork * s'.events.length
      < cellWork s + eventWork * s.events.length) : backlog s' < backlog s := by
  have hcalls : ∀ f : Pc P → Nat, overCalls f s' = overCalls f s := fun f => by
    simp only [overCalls, htasks, hnext]
  refine backlog_lt.mpr (Or.inr ⟨hcalls _, ?_⟩)
  unfold workLeft
  rw [hcalls]
  omega

theorem expired_lowers {r : RuntimeRef} (hr : r < s.nextCell) {cells : List RuntimeRef}
    (hmem : r ∈ cells) (ha : (s.cells r).aborted = false) :
    backlog (s.abortCells cells) < backlog s := by
  refine cells_lower rfl rfl (Nat.add_lt_add_right ?_ _)
  refine cell_work_lt (s.abortCells cells) 0 hr rfl ?_
    (fun q _ => (tended_abort_cells cells q).work)
  simp only [State.abortCells, if_pos hmem, RuntimeCell.abort, RuntimeCell.work, ha]
  simp

theorem aborted_lowers (hx : Exclusive s) (hb : (s.tasks t).abortable = true) :
    backlog (((s.dropRuntimes (s.tasks t).owned).abortCells (s.tasks t).draining).goto t
      .aborted) < backlog s := by
  have hscans := over_goto Pc.scans .aborted (abort_live hx hb)
  have hwork := over_goto Pc.work .aborted (abort_live hx hb)
  have hcells : cellWork ((s.dropRuntimes (s.tasks t).owned).abortCells (s.tasks t).draining)
      ≤ cellWork s := cell_work_le rfl (fun r _ => (tended_aborted _ _ r).work)
  have hpos : 0 < (s.tasks t).scans ∨ 0 < (s.tasks t).work := by
    cases hpc : s.tasks t with
    | create call stage =>
      rw [hpc] at hb
      cases stage <;> first | exact Or.inr (Nat.succ_pos _) | cases hb
    | reload id batch stage =>
      refine Or.inr (Nat.lt_of_lt_of_le ?_ (Nat.le_add_right _ _))
      cases stage <;> exact Nat.succ_pos _
    | reloadAll => exact Or.inl Nat.zero_lt_one
    | list => exact Or.inr Nat.zero_lt_one
    | teardown kind id stage =>
      rw [hpc] at hb
      cases kind <;> cases stage <;> first | exact Or.inr (Nat.succ_pos _) | cases hb
    | _ =>
      rw [hpc] at hb
      cases hb
  change overCalls Pc.scans (s.goto t .aborted) + _ = _ + 0 at hscans
  change overCalls Pc.work (s.goto t .aborted) + _ = _ + 0 at hwork
  have hgoto : ∀ f : Pc P → Nat, overCalls f (((s.dropRuntimes (s.tasks t).owned).abortCells
      (s.tasks t).draining).goto t .aborted) = overCalls f (s.goto t .aborted) := fun _ => rfl
  refine backlog_lt.mpr ?_
  unfold workLeft
  rw [hgoto, hgoto]
  show _ ∨ _ ∧ _ + cellWork ((s.dropRuntimes (s.tasks t).owned).abortCells (s.tasks t).draining)
    + eventWork * s.events.length < _
  omega

/-- A move of a runtime that no client asks for. -/
theorem runtime_lowers {r : RuntimeRef} (hr : r < s.nextCell) {move : RuntimeMove}
    (hne : move ≠ .accept) (h : s.runtimeMove r move = some s') : backlog s' < backlog s := by
  -- the cell after a move that reports nothing
  have hquiet : ∀ {u : State P} {o : Option RuntimeCell}, u.onCell r o = some s' →
      u.cells = s.cells → u.nextCell = s.nextCell → u.tasks = s.tasks →
      u.nextTask = s.nextTask → u.events = s.events →
      (∀ c, o = some c → c.work < (s.cells r).work) → backlog s' < backlog s := by
    intro u o h hcells hcell htasks hnext hevents ho
    obtain ⟨cell, hc, rfl⟩ := on_cell_some h
    refine cells_lower htasks hnext ?_
    rw [show (u.setCell r cell).events = s.events from hevents]
    refine Nat.add_lt_add_right
      (cell_work_lt (u.setCell r cell) 0 hr hcell ?_ (fun q hq => ?_)) _
    · simp only [State.setCell, Function.update_self]
      exact ho cell hc
    · simp only [State.setCell, Function.update_of_ne hq, hcells]
      exact Nat.le_refl _
  cases move with
  | accept => exact absurd rfl hne
  | checkGate | borrow | leave | drained | readRetired | decideExit | finish =>
    refine hquiet h rfl rfl rfl rfl rfl (fun c hc => ?_)
    simp only [RuntimeCell.checkGate, RuntimeCell.borrow, RuntimeCell.leave, RuntimeCell.drained,
      RuntimeCell.readRetired, RuntimeCell.decideExit, RuntimeCell.finish] at hc
    split at hc <;> grind [RuntimeCell.work, Phase.work, Acceptor.work]
  | turnAway | dispatch =>
    simp only [State.runtimeMove] at h
    split at h
    · refine hquiet h rfl rfl rfl rfl rfl (fun c hc => ?_)
      simp only [RuntimeCell.turnAway, RuntimeCell.dispatch] at hc
      split at hc <;> grind [RuntimeCell.work, Phase.work, Acceptor.work]
    · cases h
  | close i =>
    refine hquiet h rfl rfl rfl rfl rfl (fun c hc => ?_)
    simp only [RuntimeCell.close] at hc
    split at hc
    · rename_i hi
      rw [← Option.some.inj hc]
      simp only [RuntimeCell.work, List.length_eraseIdx, hi, ↓reduceIte]
      omega
    · cases hc
  | fail | aborts =>
    refine hquiet h rfl rfl rfl rfl rfl (fun c hc => ?_)
    simp only [RuntimeCell.fail, RuntimeCell.aborts] at hc
    split at hc <;> grind [RuntimeCell.work, Phase.work, Acceptor.work]
  | sendExit =>
    obtain ⟨⟨cell, event⟩, hc, rfl⟩ := Option.map_eq_some_iff.mp h
    refine cells_lower rfl rfl ?_
    simp only [List.length_append, List.length_singleton, Nat.mul_add, Nat.mul_one]
    simp only [RuntimeCell.sendExit] at hc
    split at hc
    · rename_i retired hp
      obtain ⟨rfl, rfl⟩ := Prod.mk.inj (Option.some.inj hc)
      have hlt := cell_work_lt (s.setCell r { s.cells r with phase := .exiting }) eventWork hr
        rfl ?_ (fun q hq => ?_)
      · change cellWork _ + _ < cellWork s at hlt
        show cellWork (s.setCell r { s.cells r with phase := .exiting }) + _ < _
        omega
      · simp only [State.setCell, Function.update_self, RuntimeCell.work, hp, Phase.work, eventWork]
        omega
      · simp only [State.setCell, Function.update_of_ne hq]
        exact Nat.le_refl _
    · cases hc

theorem work_spawned : workLeft (s.spawn pc) = workLeft s + pc.work := by
  unfold workLeft
  rw [over_spawned]
  show overCalls Pc.work s + pc.work + cellWork s + eventWork * s.events.length = _
  omega

theorem delivered_lowers {event : ProxyRuntimeEvent} {events : List ProxyRuntimeEvent}
    (he : s.events = event :: events) :
    backlog (({ s with events } : State P).spawn
      (.teardown (.runtimeExit event.listenerGeneration) event.runtimeId .lookup)) < backlog s := by
  refine backlog_lt.mpr (Or.inr ⟨over_spawned _, ?_⟩)
  rw [work_spawned]
  unfold workLeft
  rw [he, List.length_cons]
  show overCalls Pc.work s + cellWork s + 8 * events.length + 7
    < overCalls Pc.work s + cellWork s + 8 * (events.length + 1)
  omega

theorem unasked_lowers [DecidableEq P] {a : Action P} (hx : Exclusive s) (hc : Conserved s)
    (hd : Dismissed s) (ha : Unasked a s) (hs : m.step a s = some s') :
    backlog s' < backlog s := by
  cases ha with
  | deliver =>
    simp only [SessionManager.step] at hs
    split at hs
    · cases hs
    · rename_i event events he
      rw [← Option.some.inj hs]
      exact delivered_lowers he
  | advance t env =>
    obtain ⟨⟨u, pc⟩, hadv, rfl⟩ := Option.map_eq_some_iff.mp hs
    exact moved_lowers hx (advance_move hadv)
  | expire t _ r hr haborted =>
    rw [← Option.some.inj hs]
    exact expired_lowers (hc.used (hd.draining t r hr)) hr haborted
  | abort t =>
    simp only [SessionManager.step] at hs
    split at hs
    · rename_i hb
      rw [← Option.some.inj hs]
      exact aborted_lowers hx hb.2
    · cases hs
  | runtime r move _ hne =>
    simp only [SessionManager.step] at hs
    split at hs
    · rename_i hr
      exact runtime_lowers hr hne hs
    · cases hs

/-- Some environment. -/
def blankEnvironment : Environment P where
  configs := none
  secretFiles := ⟨none, fun _ => none, fun _ => none, fun _ => none⟩
  currentDir := none
  bound := false

theorem resting_call [DecidableEq P] (h : Rests m.step Prompt s) (t : TaskId) :
    m.advance t blankEnvironment s (s.tasks t) = none :=
  Option.map_eq_none_iff.mp (h (.advance t blankEnvironment) (.advance t _ s))

theorem resting_runtime [DecidableEq P] (h : Rests m.step Prompt s) {r : RuntimeRef}
    (hr : r < s.nextCell) (move : RuntimeMove) (hm : move.prompt = true) :
    s.runtimeMove r move = none := by
  have hnone := h (.runtime r move) (.runtime r move s hm)
  simpa only [SessionManager.step, if_pos hr] using hnone

/-- The registry lock is free: the call that holds it between two of its moves can always go on. -/
theorem resting_registry [DecidableEq P] (h : Rests m.step Prompt s) : s.registryFree = true := by
  refine List.all_eq_true.mpr (fun t _ => ?_)
  have hnone := resting_call h t
  cases hpc : s.tasks t with
  | reload id batch stage =>
    rw [hpc] at hnone
    cases stage <;> first | rfl | cases hnone
  | _ => rfl

theorem acceptor_moves [DecidableEq P] (h : Rests m.step Prompt s) {r : RuntimeRef}
    (hr : r < s.nextCell) : (s.cells r).acceptor = .idle := by
  cases ha : (s.cells r).acceptor with
  | idle => rfl
  | accepted since =>
    have hnone := resting_runtime h hr .checkGate rfl
    simp only [State.runtimeMove, State.onCell, RuntimeCell.checkGate, ha] at hnone
    split at hnone <;> cases hnone
  | admitted since =>
    have hnone := resting_runtime h hr .borrow rfl
    simp [State.runtimeMove, State.onCell, RuntimeCell.borrow, ha] at hnone
  | holding since generation =>
    have hturned := resting_runtime h hr .turnAway rfl
    have hdispatched := resting_runtime h hr .dispatch rfl
    simp only [State.runtimeMove, State.onCell, RuntimeCell.turnAway, RuntimeCell.dispatch,
      ha] at hturned hdispatched
    by_cases hp : s.permits (s.cells r).permits = 0
    · simp [hp] at hturned
    · simp [Nat.pos_of_ne_zero hp] at hdispatched

/-- An aborted runtime has come to its end. -/
theorem resting_aborted [DecidableEq P] (h : Rests m.step Prompt s) {r : RuntimeRef}
    (hr : r < s.nextCell) (ha : (s.cells r).aborted = true) : (s.cells r).phase = .finished := by
  have hidle := acceptor_moves h hr
  have haborts := resting_runtime h hr .aborts rfl
  cases hp : (s.cells r).phase with
  | serving | draining =>
    simp [State.runtimeMove, State.onCell, RuntimeCell.aborts, ha, hidle, hp] at haborts
  | ended =>
    have hnone := resting_runtime h hr .readRetired rfl
    simp [State.runtimeMove, State.onCell, RuntimeCell.readRetired, hp] at hnone
  | checked retired =>
    have hnone := resting_runtime h hr .decideExit rfl
    simp only [State.runtimeMove, State.onCell, RuntimeCell.decideExit, hp] at hnone
    split at hnone <;> cases hnone
  | sending retired =>
    have hnone := resting_runtime h hr .sendExit rfl
    simp [State.runtimeMove, RuntimeCell.sendExit, hp] at hnone
  | exiting =>
    have hnone := resting_runtime h hr .finish rfl
    simp [State.runtimeMove, State.onCell, RuntimeCell.finish, hp] at hnone
  | finished => rfl

/-- A runtime that somebody waits for is aborted in the end, and so it ends. -/
theorem resting_drained [DecidableEq P] (hc : Conserved s) (hd : Dismissed s)
    (h : Rests m.step Prompt s) {r : RuntimeRef} (hr : r ∈ (s.tasks t).draining) :
    (s.cells r).phase = .finished := by
  refine resting_aborted h (hc.used (hd.draining t r hr)) ?_
  by_contra ha
  have hnone := h (.expire t) (.expire t s r hr (by simpa using ha))
  cases hnone

theorem under_lock_free (hfree : s.registryFree = true) (r : State P × Pc P) :
    underLock s r = some r := if_pos hfree

/-- A call that is not over can move on, unless it waits for a reload lock. -/
theorem advance_enabled [DecidableEq P] {env : Environment P} (hfree : s.registryFree = true)
    (hdrained : ∀ r ∈ pc.draining, (s.cells r).phase = .finished) (hover : pc.over = false)
    (hlock : ∀ id, pc.awaits = some id → s.serialFree id = true) :
    m.advance t env s pc ≠ none := by
  have hall : allFinished s pc.draining = true := by
    refine List.all_eq_true.mpr (fun r hr => ?_)
    rw [hdrained r hr]
    rfl
  cases pc with
  | create call stage =>
    cases stage <;>
      simp [SessionManager.advance, SessionManager.advanceCreate, under_lock_free hfree]
    cases hover
  | reload id batch stage =>
    cases stage with
    | lock =>
      simp [SessionManager.advance, SessionManager.advanceReload, hlock id rfl]
    | draining cell result =>
      have hcell : allFinished s [cell] = true := hall
      simp [SessionManager.advance, SessionManager.advanceReload, hcell]
    | _ => simp [SessionManager.advance, SessionManager.advanceReload, under_lock_free hfree]
  | reloadAll => simp [SessionManager.advance, under_lock_free hfree]
  | teardown kind id stage =>
    cases stage with
    | lock => simp [SessionManager.advance, SessionManager.advanceTeardown, hlock id rfl]
    | draining cells =>
      have hcells : allFinished s cells = true := hall
      simp [SessionManager.advance, SessionManager.advanceTeardown, hcells]
    | done found => cases hover
    | _ => simp [SessionManager.advance, SessionManager.advanceTeardown, under_lock_free hfree]
  | shutdownAll stage =>
    cases stage with
    | lock id ids runtimes count =>
      simp [SessionManager.advance, SessionManager.advanceSweep, hlock id rfl]
    | draining cells count =>
      have hcells : allFinished s cells = true := hall
      simp [SessionManager.advance, SessionManager.advanceSweep, hcells]
    | decrement count =>
      cases count <;> simp [SessionManager.advance, SessionManager.advanceSweep]
    | done => cases hover
    | _ => simp [SessionManager.advance, SessionManager.advanceSweep, under_lock_free hfree]
  | rejectNewSessions => simp [SessionManager.advance, under_lock_free hfree]
  | list => simp [SessionManager.advance, under_lock_free hfree]
  | _ => cases hover

theorem serial_active (h : pc.serial = some id) : pc.over = false ∧ pc.awaits = none := by
  cases pc with
  | reload j batch stage => cases stage <;> first | exact ⟨rfl, rfl⟩ | cases h
  | teardown kind j stage => cases stage <;> first | exact ⟨rfl, rfl⟩ | cases h
  | shutdownAll stage => cases stage <;> first | exact ⟨rfl, rfl⟩ | cases h
  | _ => cases h

/-- Whoever holds a reload lock waits for no other, so that nobody waits for ever. -/
theorem resting_over [DecidableEq P] (hc : Conserved s) (hd : Dismissed s)
    (h : Rests m.step Prompt s) (t : TaskId) : (s.tasks t).over = true := by
  have henabled : ∀ u, (s.tasks u).over = false →
      ∃ id, (s.tasks u).awaits = some id ∧ s.serialFree id = false := by
    intro u hu
    by_contra hn
    push Not at hn
    refine advance_enabled (resting_registry h) (fun r hr => resting_drained hc hd h hr) hu
      (fun id hid => ?_) (resting_call h u)
    simpa using hn id hid
  by_contra ht
  obtain ⟨id, -, hfree⟩ := henabled t (by simpa using ht)
  -- the call that holds the lock could move
  simp only [State.serialFree, List.all_eq_false, List.mem_range] at hfree
  obtain ⟨u, -, hu⟩ := hfree
  obtain ⟨hover, hnone⟩ := serial_active (show (s.tasks u).serial = some id by simpa using hu)
  obtain ⟨j, hj, -⟩ := henabled u hover
  rw [hnone] at hj
  cases hj

/-- Nothing is left to do: every call has returned, every exit was seen to, and
no runtime outlives its handle. -/
structure Quiescent (s : State P) : Prop where
  calls : ∀ t, (s.tasks t).over = true
  events : s.events = []
  runtimes : ∀ r, 0 < (s.cells r).disposals → (s.cells r).phase = .finished

theorem resting_quiescent [DecidableEq P] (hc : Conserved s) (hd : Dismissed s)
    (h : Rests m.step Owed s) : Quiescent s := by
  have hprompt : Rests m.step Prompt s := fun a ha => h a (Or.inr ha)
  refine ⟨resting_over hc hd hprompt, ?_, fun r hr => ?_⟩
  · cases he : s.events with
    | nil => rfl
    | cons event events =>
      have hnone := h .deliver (Or.inl rfl)
      simp only [SessionManager.step, he] at hnone
      cases hnone
  · rcases hd.leaving r hr with ha | hf | ⟨t, ht⟩
    · exact resting_aborted hprompt (hc.used hr) ha
    · exact hf
    · exact resting_drained hc hd hprompt ht

/-- From every reachable state, only finitely many steps are possible that no
client asks for, and where the daemon stops taking such steps every call has
returned. This needs no connection to end. -/
theorem calls_return [DecidableEq P] (m : SessionManager P) (h : Reach m.step State.init s) :
    Terminates m.step Unasked s ∧
      ∀ s', ReachBy m.step Unasked s s' → Rests m.step Owed s' → Quiescent s' := by
  refine ⟨?_, fun s' hrun hrest => ?_⟩
  · refine Terminates.of_rank (Reach m.step State.init) backlog ?_ h
    intro s s' a hreach ha hs
    exact ⟨hreach.next hs, unasked_lowers (exclusive_reach hreach) (conserved_reach hreach)
      (dismissed_reach hreach) ha hs⟩
  · have hreach := h.trans hrun.reach
    exact resting_quiescent (conserved_reach hreach) (dismissed_reach hreach) hrest

/-- A client is connected to the sample session while the session is stopped. -/
def sampleWaiting : List (Action Text) :=
  sampleCreation ++
    [.runtime 0 .accept, .runtime 0 .checkGate, .runtime 0 .borrow, .runtime 0 .dispatch] ++
    [.stop sampleCall.id] ++ List.replicate 4 (.advance 1 sampleEnvironment)

theorem calls_return_sample :
    ∃ s, runSteps sampleManager.step sampleWaiting State.init = some s ∧
      (s.tasks 1).draining = [0] ∧ (s.cells 0).connections.length = 1 ∧
      ∃ s', ReachBy sampleManager.step Unasked s s' ∧ Quiescent s' := by
  have hrun : (runSteps sampleManager.step sampleWaiting State.init).any (fun s =>
      (s.tasks 1).draining == [0] && (s.cells 0).connections.length == 1) = true := by decide
  obtain ⟨s, hs, htest⟩ := run_any hrun
  simp only [Bool.and_eq_true, beq_iff_eq] at htest
  obtain ⟨hends, hrests⟩ := calls_return sampleManager (reach_run .start hs)
  obtain ⟨s', hreach, hrest⟩ := hends.rest
  exact ⟨s, hs, htest.1, htest.2, s', hreach,
    hrests s' hreach (fun a ha => hrest a ha.unasked)⟩

end Proofs

end Baffle
