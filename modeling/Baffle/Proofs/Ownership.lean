import Baffle.Proofs.Connections

namespace Baffle.Proofs

variable {P : Type} {m : SessionManager P} {t : TaskId} {s s' : State P} {pc pc' : Pc P}
  {id : SessionId}

/-- How many of the handles refer to the runtime. -/
def held (runtimes : List (ProxyRuntime P)) (r : RuntimeRef) : Nat :=
  (runtimes.map ProxyRuntime.cell).count r

@[simp] theorem held_nil (r : RuntimeRef) : held ([] : List (ProxyRuntime P)) r = 0 := rfl

theorem held_append (a b : List (ProxyRuntime P)) (r : RuntimeRef) :
    held (a ++ b) r = held a r + held b r := by
  simp [held]

theorem held_split (keep : ProxyRuntime P → Bool) (runtimes : List (ProxyRuntime P))
    (r : RuntimeRef) :
    held (runtimes.filter keep) r + held (runtimes.filter (fun x => !keep x)) r
      = held runtimes r := by
  induction runtimes with
  | nil => rfl
  | cons x rest ih =>
    cases hk : keep x <;>
      simp only [List.filter_cons, hk, Bool.not_false, Bool.not_true, Bool.false_eq_true, if_true,
        if_false, held, List.map_cons, List.count_cons] at ih ⊢ <;> omega

theorem held_runtimes (session : ManagedSession P) (r : RuntimeRef) :
    held session.runtimes r = held session.retiredRuntimes r + held session.runtime.toList r :=
  held_append _ _ _

theorem held_flat {α : Type} (f : α → List (ProxyRuntime P)) (items : List α) (r : RuntimeRef) :
    held (items.flatMap f) r = (items.map (fun x => held (f x) r)).sum := by
  induction items with
  | nil => rfl
  | cons x rest ih => simp [held_append, ih]

theorem held_pos {runtimes : List (ProxyRuntime P)} {runtime : ProxyRuntime P}
    (h : runtime ∈ runtimes) : 0 < held runtimes runtime.cell :=
  List.count_pos_iff.mpr (List.mem_map.mpr ⟨runtime, h, rfl⟩)

/-- The handles in the registry. -/
def registered (s : State P) (r : RuntimeRef) : Nat :=
  s.sessions.total (fun session => held session.runtimes r)

/-- The handles in the registry and with one call, and those that are gone. -/
def balance (s : State P) (pc : Pc P) (r : RuntimeRef) : Nat :=
  registered s r + held pc.owned r + (s.cells r).disposals

/-- The runtimes that a step has started. -/
def started (s s' : State P) (r : RuntimeRef) : Nat :=
  if s.nextCell ≤ r ∧ r < s'.nextCell then 1 else 0

theorem started_none (h : s'.nextCell = s.nextCell) (r : RuntimeRef) : started s s' r = 0 := by
  unfold started
  rw [h]
  exact if_neg (fun hr => Nat.lt_irrefl _ (Nat.lt_of_le_of_lt hr.1 hr.2))

/-- A write to an entry: what the session loses, the call or the heap gains. -/
theorem balance_write {k : SessionId} {old new : ManagedSession P}
    (hk : s.sessions.get k = some old) (hget : s'.sessions = s.sessions.insert k new)
    {r : RuntimeRef}
    (hbal : held new.runtimes r + held pc'.owned r + (s'.cells r).disposals
      = held old.runtimes r + held pc.owned r + (s.cells r).disposals) :
    balance s' pc' r = balance s pc r := by
  have htotal := SortedMap.total_insert_present hk (fun session => held session.runtimes r) new
  simp only [balance, registered, hget]
  omega

theorem held_reaped (session : ManagedSession P) (r : RuntimeRef) :
    held (SessionManager.unfinished s session).runtimes r
        + held (SessionManager.finishedRuntimes s session) r
      = held session.runtimes r := by
  have hsplit := held_split s.isFinished session.retiredRuntimes r
  rw [held_runtimes, held_runtimes]
  simp only [SessionManager.unfinished, SessionManager.finishedRuntimes, ManagedSession.retain]
  omega

theorem balance_reaped {session : ManagedSession P} {stage stage' : ReloadStage P}
    {batch : Option Batch} (hs : s.sessions.get id = some session) {kept : ManagedSession P}
    (hkept : kept.runtimes = (SessionManager.unfinished s session).runtimes)
    (ho : stage'.owned = stage.owned) (r : RuntimeRef) :
    balance (reaped s id session kept) (.reload id batch stage') r
      = balance s (.reload id batch stage) r := by
  refine balance_write hs rfl ?_
  have hreaped := held_reaped (s := s) session r
  simp only [Pc.owned, ho, hkept]
  show _ + _ + ((s.cells r).disposals + held (SessionManager.finishedRuntimes s session) r) = _
  omega

theorem balance_still (hnext : s'.nextCell = s.nextCell) {r : RuntimeRef}
    (h : balance s' pc' r = balance s pc r) : balance s' pc' r = balance s pc r + started s s' r := by
  rw [started_none hnext, h, Nat.add_zero]

theorem started_new (hnext : s'.nextCell = s.nextCell + 1) (r : RuntimeRef) :
    started s s' r = if r = s.nextCell then 1 else 0 := by
  unfold started
  rw [hnext]
  by_cases hr : r = s.nextCell
  · subst hr
    rw [if_pos ⟨Nat.le_refl _, Nat.lt_succ_self _⟩, if_pos rfl]
  · rw [if_neg hr, if_neg]
    rintro ⟨hle, hlt⟩
    exact hr (Nat.le_antisymm (Nat.le_of_lt_succ hlt) hle)

/-- A runtime starts with one handle. -/
theorem balance_started {cell : RuntimeCell} (runtime : ProxyRuntime P)
    (hfresh : (s.cells s.nextCell).disposals = 0) (hs : s'.sessions = s.sessions)
    (hcells : s'.cells = Function.update s.cells s.nextCell cell) (hcell : cell.disposals = 0)
    (hnext : s'.nextCell = s.nextCell + 1) (hpc : pc.owned = []) (hpc' : pc'.owned = [runtime])
    (hr : runtime.cell = s.nextCell) (r : RuntimeRef) :
    balance s' pc' r = balance s pc r + started s s' r := by
  rw [started_new hnext]
  simp only [balance, registered, hs, hcells, hpc, hpc', held, List.map_cons, List.map_nil,
    List.count_nil, List.count_singleton, hr]
  by_cases he : r = s.nextCell
  · subst he
    simp [hcell, hfresh]
  · have hne : ¬s.nextCell = r := fun h => he h.symm
    simp [he, hne]

theorem balance_create {call : CreateCall} {stage stage' : CreateStage P}
    (hfresh : (s.cells s.nextCell).disposals = 0)
    (hnone : ∀ runtime, stage = .register runtime → s.sessions.get call.id = none)
    (hm : CreateMove m s call stage s' stage') (r : RuntimeRef) :
    balance s' (.create call stage') r = balance s (.create call stage) r + started s s' r := by
  cases hm with
  | started socketPath =>
    exact balance_started (created m s call socketPath).2 hfresh (by rfl) (by rfl) (by rfl)
      (by rfl) (by rfl) (by rfl) (by rfl) r
  | registered runtime ha =>
    refine balance_still (by rfl) ?_
    have htotal := SortedMap.total_insert_new (hnone runtime rfl)
      (fun session => held session.runtimes r) (m.createdSession call runtime)
    have hdisp : ((s.setCell runtime.cell (s.cells runtime.cell).install).cells r).disposals
        = (s.cells r).disposals := set_same RuntimeCell.disposals rfl
    have hone : held (m.createdSession call runtime).runtimes r = held [runtime] r := rfl
    simp only [balance, registered, State.setSession, State.setCell, Pc.owned, held_nil] at *
    omega
  | dropped runtime =>
    refine balance_still (by rfl) ?_
    show registered s r + 0 + ((s.cells r).disposals + held [runtime] r)
      = registered s r + held [runtime] r + (s.cells r).disposals
    omega
  | refused | reserved | failed | released | late =>
    exact balance_still (by rfl) (by rfl)

theorem balance_reload {batch : Option Batch} {stage stage' : ReloadStage P}
    (hfresh : (s.cells s.nextCell).disposals = 0) (hm : ReloadMove m s id stage s' stage')
    (r : RuntimeRef) :
    balance s' (.reload id batch stage') r
      = balance s (.reload id batch stage) r + started s s' r := by
  cases hm with
  | replacing target options =>
    exact balance_started (s.startRuntime m.crates id target.candidate target.secrets
      options.credentialSeed target.path options.permits options.nextListenerGeneration).2
      hfresh (by rfl) (by rfl) (by rfl) (by rfl) (by rfl) (by rfl) (by rfl) r
  | turnedDown session hs | begun session hs =>
    exact balance_still (by rfl) (balance_reaped hs (by rfl) (by rfl) r)
  | limited target session hs | withinLimits target ha session hs =>
    exact balance_still (by rfl) (balance_reaped hs (by rfl) (by rfl) r)
  | sameCommitted target ha session hs runtime hruntime cell hcell =>
    refine balance_still (by rfl) (balance_write hs (by rfl) ?_)
    have hdisp : ((s.setCell runtime.cell cell).cells r).disposals = (s.cells r).disposals :=
      set_same RuntimeCell.disposals (by rw [replaced hcell])
    show held session.runtimes r + 0 + ((s.setCell runtime.cell cell).cells r).disposals = _
    rw [hdisp]
    rfl
  | vacant target options replacement session hs hstate hruntime hres =>
    refine balance_still (by rfl) (balance_write hs (by rfl) ?_)
    rw [held_runtimes, held_runtimes, hruntime]
    show _ + 0 + ((s.cells r).disposals + held [replacement] r) = _
    simp only [Pc.owned, ReloadStage.owned]
    omega
  | switched target options replacement ha session hs hstate oldRuntime hruntime =>
    refine balance_still (by rfl) (balance_write hs (by rfl) ?_)
    have hdisp : (((s.setCell replacement.cell (s.cells replacement.cell).install).setCell
        oldRuntime.cell ((s.setCell replacement.cell (s.cells replacement.cell).install).cells
          oldRuntime.cell).markRetiring).cells r).disposals = (s.cells r).disposals :=
      Eq.trans (set_same RuntimeCell.disposals (by rfl)) (set_same RuntimeCell.disposals (by rfl))
    rw [held_runtimes, held_runtimes, hruntime]
    simp only [SessionManager.switched, Pc.owned, ReloadStage.owned, Option.toList, State.setSession,
      hdisp]
    omega
  | lost target options oldRuntime hnone =>
    refine balance_still (by rfl) ?_
    have hdisp : ((s.setCell oldRuntime.cell (s.cells oldRuntime.cell).retire).cells r).disposals
        = (s.cells r).disposals := set_same RuntimeCell.disposals (by rfl)
    show registered s r + 0 + (((s.setCell oldRuntime.cell
        (s.cells oldRuntime.cell).retire).cells r).disposals + held [oldRuntime] r)
      = registered s r + held [oldRuntime] r + (s.cells r).disposals
    omega
  | retired target options oldRuntime session hs =>
    refine balance_still (by rfl) (balance_write hs (by rfl) ?_)
    have hdisp : ((s.setCell oldRuntime.cell (s.cells oldRuntime.cell).retire).cells r).disposals
        = (s.cells r).disposals := set_same RuntimeCell.disposals (by rfl)
    rw [held_runtimes, held_runtimes]
    simp only [SessionManager.withRetired, ManagedSession.countDraining, held_append, Pc.owned,
      ReloadStage.owned, held_nil, State.setSession, hdisp]
    omega
  | stopping replacement result =>
    refine balance_still (by rfl) ?_
    show registered s r + 0 + ((s.cells r).disposals + held [replacement] r)
      = registered s r + held [replacement] r + (s.cells r).disposals
    omega
  | _ =>
    exact balance_still (by rfl) (by rfl)

theorem balance_teardown {kind : TeardownKind} {stage stage' : TeardownStage P}
    (hm : TeardownMove t s kind id stage s' stage') (r : RuntimeRef) :
    balance s' (.teardown kind id stage') r
      = balance s (.teardown kind id stage) r + started s s' r := by
  cases hm with
  | forgotten g hk session hs hne =>
    refine balance_still (by rfl) (balance_write hs (by rfl) ?_)
    have hsplit := held_split (fun runtime => runtime.listenerGeneration == g)
      session.retiredRuntimes r
    rw [held_runtimes, held_runtimes]
    simp only [ManagedSession.retain, ManagedSession.countDraining, Pc.owned, held_nil]
    show _ + 0 + ((s.cells r).disposals + held (session.retiredRuntimes.filter
      (fun runtime => runtime.listenerGeneration == g)) r) = _
    have hne' : (fun runtime : ProxyRuntime P => runtime.listenerGeneration != g)
        = fun runtime => !(runtime.listenerGeneration == g) := rfl
    rw [hne']
    omega
  | claimed session hs hk hlive =>
    refine balance_still (by rfl) (balance_write hs (by rfl) ?_)
    show 0 + held session.runtimes r + (s.cells r).disposals
      = held session.runtimes r + 0 + (s.cells r).disposals
    omega
  | stopping runtimes =>
    refine balance_still (by rfl) ?_
    show registered s r + 0 + ((s.cells r).disposals + held runtimes r)
      = registered s r + held runtimes r + (s.cells r).disposals
    omega
  | removed session hs =>
    refine balance_still (by rfl) ?_
    have htotal := SortedMap.total_erase hs (fun session => held session.runtimes r)
    show (s.sessions.erase id).total (fun session => held session.runtimes r) + 0
        + ((s.cells r).disposals + held session.runtimes r)
      = s.sessions.total (fun session => held session.runtimes r) + 0 + (s.cells r).disposals
    omega
  | _ => exact balance_still (by rfl) (by rfl)

theorem balance_sweep {stage stage' : SweepStage P} (hm : SweepMove t s stage s' stage')
    (r : RuntimeRef) :
    balance s' (.shutdownAll stage') r = balance s (.shutdownAll stage) r + started s s' r := by
  cases hm with
  | stopping runtimes count =>
    refine balance_still (by rfl) ?_
    show registered s r + 0 + ((s.cells r).disposals + held runtimes r)
      = registered s r + held runtimes r + (s.cells r).disposals
    omega
  | claimed j ids runtimes count session hs =>
    refine balance_still (by rfl) (balance_write hs (by rfl) ?_)
    show 0 + held (runtimes ++ session.runtimes) r + (s.cells r).disposals
      = held session.runtimes r + held runtimes r + (s.cells r).disposals
    rw [held_append]
    omega
  | cleared count =>
    refine balance_still (by rfl) ?_
    have hflat := held_flat ManagedSession.runtimes s.sessions.values r
    show 0 + 0 + ((s.cells r).disposals + held (s.sessions.values.flatMap ManagedSession.runtimes) r)
      = s.sessions.total (fun session => held session.runtimes r) + 0 + (s.cells r).disposals
    rw [hflat, SortedMap.total]
    omega
  | _ => exact balance_still (by rfl) (by rfl)

theorem balance_listed (answer : List SessionInfo) (r : RuntimeRef) :
    balance (SessionManager.listSessions s).1 (.listAnswer answer) r = balance s .list r := by
  have hflat := held_flat (SessionManager.finishedRuntimes s) s.sessions.values r
  have hsplit : s.sessions.total (fun session => held session.runtimes r)
      = s.sessions.total (fun session =>
          held (SessionManager.unfinished s session).countDraining.runtimes r)
        + s.sessions.total (fun session => held (SessionManager.finishedRuntimes s session) r) := by
    rw [← SortedMap.total_add]
    exact congrArg (fun f => s.sessions.total f)
      (funext fun session => (held_reaped session r).symm)
  show (s.sessions.mapValues (fun session =>
        (SessionManager.unfinished s session).countDraining)).total
        (fun session => held session.runtimes r) + 0
      + ((s.cells r).disposals
        + held (s.sessions.values.flatMap (SessionManager.finishedRuntimes s)) r)
    = s.sessions.total (fun session => held session.runtimes r) + 0 + (s.cells r).disposals
  rw [hflat, SortedMap.total_map_values, hsplit]
  simp only [SortedMap.total, Function.comp_def]
  omega

theorem Between.owned (h : Between pc) : pc.owned = [] := by cases h <;> rfl

/-- A move of a call passes handles on; it neither copies nor forgets one. -/
theorem move_balance (hx : Exclusive s) (hfresh : (s.cells s.nextCell).disposals = 0)
    (hm : Move m t s (s.tasks t) s' pc') (r : RuntimeRef) :
    balance s' pc' r = balance s (s.tasks t) r + started s s' r := by
  generalize hpc : s.tasks t = pc at hm
  have hbetween : ∀ {pc1 pc2 : Pc P}, pc1.owned = [] → pc2.owned = [] →
      balance s pc2 r = balance s pc1 r := by
    intro pc1 pc2 h1 h2
    simp only [balance, h1, h2]
  cases hm with
  | create call h =>
    refine balance_create hfresh (fun runtime hstage => ?_) h r
    refine unregistered hx hpc ?_
    rw [hpc, hstage]
    rfl
  | reload j batch h => exact balance_reload hfresh h r
  | teardown kind j h => exact balance_teardown h r
  | sweep h => exact balance_sweep h r
  | unknown j batch hs =>
    exact balance_still rfl (hbetween rfl (reload_lookup_between batch hs).owned)
  | reloadReturned j batch result =>
    exact balance_still rfl (hbetween rfl (after_reload_between batch result).owned)
  | reloadAll => exact balance_still rfl (hbetween rfl reload_all_between.owned)
  | listed answer => exact balance_still (by rfl) (balance_listed answer r)
  | found | locked | rejected => exact balance_still (by rfl) (by rfl)

/-- The handles with all the calls. -/
def carried (s : State P) (r : RuntimeRef) : Nat :=
  ∑ u ∈ Finset.range s.nextTask, held (s.tasks u).owned r

/-- Every runtime that was started has one owner, or its handle is gone. -/
def Conserved (s : State P) : Prop :=
  ∀ r, registered s r + carried s r + (s.cells r).disposals = if r < s.nextCell then 1 else 0

theorem conserved_init : Conserved (State.init : State P) := fun _ => rfl

/-- A number that every call contributes to. -/
def overCalls (f : Pc P → Nat) (s : State P) : Nat :=
  ∑ u ∈ Finset.range s.nextTask, f (s.tasks u)

theorem over_goto (f : Pc P → Nat) (pc : Pc P) (hlive : t < s.nextTask) :
    overCalls f (s.goto t pc) + f (s.tasks t) = overCalls f s + f pc := by
  have ht : t ∈ Finset.range s.nextTask := Finset.mem_range.mpr hlive
  have hrest : ∑ u ∈ (Finset.range s.nextTask).erase t, f ((s.goto t pc).tasks u)
      = ∑ u ∈ (Finset.range s.nextTask).erase t, f (s.tasks u) := by
    refine Finset.sum_congr rfl (fun u hu => ?_)
    simp only [State.goto, Function.update_of_ne (Finset.ne_of_mem_erase hu)]
  have hself : (s.goto t pc).tasks t = pc := Function.update_self ..
  have hnew : f pc + ∑ u ∈ (Finset.range s.nextTask).erase t, f ((s.goto t pc).tasks u)
      = overCalls f (s.goto t pc) := by
    have hsum := Finset.add_sum_erase _ (fun u => f ((s.goto t pc).tasks u)) ht
    rwa [hself] at hsum
  have hold : f (s.tasks t) + ∑ u ∈ (Finset.range s.nextTask).erase t, f (s.tasks u)
      = overCalls f s :=
    Finset.add_sum_erase _ (fun u => f (s.tasks u)) ht
  omega

theorem over_spawn (f : Pc P → Nat) (hpc : f pc = 0) :
    overCalls f (s.spawn pc) = overCalls f s := by
  have hself : (s.spawn pc).tasks s.nextTask = pc := Function.update_self ..
  calc overCalls f (s.spawn pc)
      = ∑ u ∈ Finset.range s.nextTask, f ((s.spawn pc).tasks u)
          + f ((s.spawn pc).tasks s.nextTask) := Finset.sum_range_succ ..
    _ = ∑ u ∈ Finset.range s.nextTask, f ((s.spawn pc).tasks u) := by
        rw [hself, hpc, Nat.add_zero]
    _ = overCalls f s := by
        refine Finset.sum_congr rfl (fun u hu => ?_)
        have hne : u ≠ s.nextTask := Nat.ne_of_lt (Finset.mem_range.mp hu)
        simp only [State.spawn, State.goto, Function.update_of_ne hne]

theorem carried_goto (pc : Pc P) (hlive : t < s.nextTask) (r : RuntimeRef) :
    carried (s.goto t pc) r + held (s.tasks t).owned r = carried s r + held pc.owned r :=
  over_goto (fun pc => held pc.owned r) pc hlive

theorem carried_spawn (hpc : pc.owned = []) (r : RuntimeRef) :
    carried (s.spawn pc) r = carried s r :=
  over_spawn (fun pc => held pc.owned r) (by rw [hpc, held_nil])

theorem Initial.owned (h : Initial pc) : pc.owned = [] := by cases h <;> rfl

theorem started_total (h : s.nextCell ≤ s'.nextCell) (r : RuntimeRef) :
    (if r < s'.nextCell then 1 else 0) = (if r < s.nextCell then 1 else 0) + started s s' r := by
  unfold started
  by_cases hr : r < s.nextCell
  · rw [if_pos (Nat.lt_of_lt_of_le hr h), if_pos hr,
      if_neg (fun hn => Nat.lt_irrefl _ (Nat.lt_of_lt_of_le hr hn.1))]
  · rw [if_neg hr]
    by_cases hr' : r < s'.nextCell
    · rw [if_pos hr', if_pos ⟨Nat.le_of_not_lt hr, hr'⟩]
    · rw [if_neg hr', if_neg (fun hn => hr' hn.2)]

theorem Conserved.moved (h : Conserved s) (hx : Exclusive s)
    (hm : Move m t s (s.tasks t) s' pc') : Conserved (s'.goto t pc') := by
  intro r
  have hfresh : (s.cells s.nextCell).disposals = 0 := by
    have hnext := h s.nextCell
    rw [if_neg (Nat.lt_irrefl _)] at hnext
    omega
  have hbal := move_balance hx hfresh hm r
  have hcarried := carried_goto pc' (move_live hx hm) r
  have htotal := started_total (move_extends hm).nextCell r
  have hr := h r
  have hsame : carried (s'.goto t pc') r = carried (s.goto t pc') r := by
    obtain ⟨htasks, hnext, -⟩ := move_calls hm
    simp only [carried, State.goto, htasks, hnext]
  show registered s' r + carried (s'.goto t pc') r + (s'.cells r).disposals
    = if r < s'.nextCell then 1 else 0
  rw [hsame, htotal]
  unfold balance at hbal
  omega

/-- A step that moves no handle. -/
theorem Conserved.still (h : Conserved s) (hs : s'.sessions = s.sessions)
    (hnext : s'.nextCell = s.nextCell)
    (hcells : ∀ r, (s'.cells r).disposals = (s.cells r).disposals)
    (hcarried : ∀ r, carried s' r = carried s r) : Conserved s' := by
  intro r
  rw [hcells, hcarried, hnext, registered, hs]
  exact h r

theorem abort_cells_disposals (cells : List RuntimeRef) (r : RuntimeRef) :
    ((s.abortCells cells).cells r).disposals = (s.cells r).disposals := by
  simp only [State.abortCells]
  split <;> rfl

theorem Conserved.aborted (h : Conserved s) (hlive : t < s.nextTask) :
    Conserved (((s.dropRuntimes (s.tasks t).owned).abortCells (s.tasks t).draining).goto t
      .aborted) := by
  intro r
  have hcarried := carried_goto (.aborted : Pc P) hlive r
  have hdisp := abort_cells_disposals (s := s.dropRuntimes (s.tasks t).owned)
    (s.tasks t).draining r
  have hdrop : ((s.dropRuntimes (s.tasks t).owned).cells r).disposals
      = (s.cells r).disposals + held (s.tasks t).owned r := rfl
  have hgone : held (Pc.aborted : Pc P).owned r = 0 := rfl
  have hr := h r
  show registered s r + carried (s.goto t .aborted) r
      + (((s.dropRuntimes (s.tasks t).owned).abortCells (s.tasks t).draining).cells r).disposals
    = if r < s.nextCell then 1 else 0
  rw [hdisp, hdrop]
  omega

theorem abort_live (hx : Exclusive s) (hb : (s.tasks t).abortable = true) : t < s.nextTask := by
  by_contra ht
  rw [hx.absent t (Nat.le_of_not_lt ht)] at hb
  cases hb

theorem Conserved.step (h : Conserved s) (hx : Exclusive s) (ho : Outcome m s s') :
    Conserved s' := by
  cases ho with
  | create call hid => exact h.still rfl rfl (fun _ => rfl) (fun r => carried_spawn (by rfl) r)
  | call hpc => exact h.still rfl rfl (fun _ => rfl) (fun r => carried_spawn hpc.owned r)
  | delivered event events he =>
    exact h.still rfl rfl (fun _ => rfl) (fun r => carried_spawn (by rfl) r)
  | moved t hm => exact h.moved hx hm
  | expired t => exact h.still rfl rfl (abort_cells_disposals _) (fun _ => rfl)
  | aborted t ha hb => exact h.aborted (abort_live hx hb)
  | runtime r hr cell permits sent hc =>
    exact h.still rfl rfl (fun q => (settled_cells permits hc q).disposals) (fun _ => rfl)

theorem conserved_reach [DecidableEq P] (h : Reach m.step State.init s) : Conserved s :=
  h.invariant conserved_init (fun hr hi hs => hi.step (exclusive_reach hr) (step_outcome hs))

theorem Conserved.once (h : Conserved s) (r : RuntimeRef) : (s.cells r).disposals ≤ 1 := by
  have hr := h r
  split at hr <;> omega

theorem registered_pos {session : ManagedSession P} {runtime : ProxyRuntime P}
    (hs : s.sessions.get id = some session) (hr : runtime ∈ session.runtimes) :
    0 < registered s runtime.cell :=
  Nat.lt_of_lt_of_le (held_pos hr) (SortedMap.le_total hs (fun x => held x.runtimes runtime.cell))

theorem carried_pos (hx : Exclusive s) {runtime : ProxyRuntime P}
    (hr : runtime ∈ (s.tasks t).owned) : 0 < carried s runtime.cell := by
  have hlive : t < s.nextTask := by
    by_contra ht
    rw [hx.absent t (Nat.le_of_not_lt ht)] at hr
    cases hr
  refine Nat.lt_of_lt_of_le (held_pos hr) ?_
  exact Finset.single_le_sum (f := fun u => held (s.tasks u).owned runtime.cell)
    (fun _ _ => Nat.zero_le _) (Finset.mem_range.mpr hlive)

/-- A handle with a call is the only one, and it is live. -/
theorem Conserved.call (h : Conserved s) (hx : Exclusive s) {runtime : ProxyRuntime P}
    (hr : runtime ∈ (s.tasks t).owned) :
    (s.cells runtime.cell).disposals = 0 ∧ registered s runtime.cell = 0 := by
  have hpos := carried_pos hx hr
  have hone := h runtime.cell
  split at hone <;> omega

/-- A handle that is gone is nowhere else. -/
theorem Conserved.gone (h : Conserved s) {r : RuntimeRef} (hr : (s.cells r).disposals = 1) :
    registered s r = 0 ∧ carried s r = 0 := by
  have hone := h r
  split at hone <;> omega

end Baffle.Proofs
