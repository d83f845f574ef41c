import Baffle.Proofs.Claims

namespace Baffle

/-- The task of the runtime has nothing left to do but to be joined. -/
def RuntimeCell.Over (c : RuntimeCell) : Prop := c.phase = .exiting ∨ c.phase = .finished

/-- The call works on a session that it has found running. -/
def ReloadStage.underway {P : Type} : ReloadStage P → Bool
  | .lookup | .lock | .begin | .returning _ => false
  | _ => true

namespace Pc

variable {P : Type}

/-- The runtimes that the call has started and not yet made current. -/
def pending : Pc P → List (ProxyRuntime P)
  | .create _ (.register runtime) | .create _ (.drop runtime) => [runtime]
  | .reload _ _ (.commit _ _ runtime) | .reload _ _ (.shutdown runtime _) => [runtime]
  | _ => []

/-- The runtimes that a tear-down has taken. -/
def taken : Pc P → List (ProxyRuntime P)
  | .teardown kind id stage => (Pc.teardown kind id stage).owned
  | .shutdownAll stage => (Pc.shutdownAll stage).owned
  | _ => []

end Pc

namespace Proofs

variable {P : Type} {m : SessionManager P} {t : TaskId} {s s' : State P} {pc pc' : Pc P}
  {id : SessionId}

theorem over_cell {gate now : Nat} {c c' : RuntimeCell} {sent : List ProxyRuntimeEvent}
    (h : CellMove gate now c c' sent) (ho : c.Over) : c'.Over := by
  have hne : ∀ {p : Phase}, c.phase = p → p ≠ .exiting → p ≠ .finished → c'.Over := by
    intro p hp h1 h2
    rcases ho with ho | ho <;> rw [hp] at ho
    · exact absurd ho h1
    · exact absurd ho h2
  cases h with
  | accepted hp | left hp | checked hp => exact hne hp (by simp) (by simp)
  | ended hp => rcases hp with hp | hp <;> exact hne hp (by simp) (by simp)
  | reporting retired hp => exact hne hp (by simp) (by simp)
  | silent | reported => exact Or.inl rfl
  | finished => exact Or.inr rfl
  | _ => exact ho

theorem step_over (ho : Outcome m s s') {r : RuntimeRef} (hr : r < s.nextCell)
    (h : (s.cells r).Over) : (s'.cells r).Over := by
  have htended : ∀ {c : RuntimeCell}, Tended (s.cells r) c → c.Over := by
    intro c hc
    unfold RuntimeCell.Over
    rw [hc.phase]
    exact h
  cases ho with
  | create | call | delivered => exact h
  | moved t hm => exact htended (move_cells hm hr)
  | expired t => exact htended (tended_abort_cells _ r)
  | aborted t ha hb => exact htended (tended_aborted _ _ r)
  | runtime q hq cell permits sent hc =>
    by_cases hrq : r = q
    · subst hrq
      simpa only [cellMoved, State.setCell, Function.update_self] using over_cell hc h
    · simpa only [cellMoved, State.setCell, Function.update_of_ne hrq] using h

/-- The runtime that an event is about has ended. -/
def Exited (s : State P) (id : SessionId) (listenerGeneration : Nat) : Prop :=
  ∃ r, Of s id r ∧ (s.cells r).listenerGeneration = listenerGeneration ∧ (s.cells r).Over

theorem Exited.step {g : Nat} (h : Exited s id g) (ho : Outcome m s s') : Exited s' id g := by
  obtain ⟨r, hr, hg, hover⟩ := h
  have hext := step_extends ho
  exact ⟨r, ⟨Nat.lt_of_lt_of_le hr.1 hext.nextCell, (hext.runtimeId r hr.1).trans hr.2⟩,
    (hext.listenerGeneration r hr.1).trans hg, step_over ho hr.1 hover⟩

/-- Exit events, and the calls they lead to, are about runtimes that have ended. -/
structure Informed (s : State P) : Prop where
  events : ∀ event ∈ s.events, Exited s event.runtimeId event.listenerGeneration
  calls : ∀ t g id stage, s.tasks t = .teardown (.runtimeExit g) id stage → Exited s id g

theorem informed_init : Informed (State.init : State P) where
  events _ h := by cases h
  calls _ _ _ _ h := by cases h

theorem move_events (h : Move m t s pc s' pc') : s'.events = s.events := by
  cases h with
  | create call h => cases h <;> rfl
  | reload id batch h => cases h <;> rfl
  | teardown kind id h => cases h <;> rfl
  | sweep h => cases h <;> rfl
  | _ => rfl

theorem cell_sends {gate now : Nat} {c c' : RuntimeCell} {sent : List ProxyRuntimeEvent}
    (h : CellMove gate now c c' sent) {event : ProxyRuntimeEvent} (he : event ∈ sent) :
    event.runtimeId = c.runtimeId ∧ event.listenerGeneration = c.listenerGeneration ∧
      c'.Over := by
  cases h with
  | reported retired hp =>
    cases List.mem_singleton.mp he
    exact ⟨rfl, rfl, Or.inl rfl⟩
  | _ => cases he

theorem Informed.step (h : Informed s) (ho : Outcome m s s') : Informed s' := by
  have hkept : ∀ {id g}, Exited s id g → Exited s' id g := fun he => he.step ho
  cases ho with
  | create call hid =>
    refine ⟨fun event he => hkept (h.events event he), fun u g id stage hu => ?_⟩
    rcases spawn_tasks u with hs | hs <;> rw [hs] at hu
    · exact hkept (h.calls u g id stage hu)
    · cases hu
  | call hpc =>
    refine ⟨fun event he => hkept (h.events event he), fun u g id stage hu => ?_⟩
    rcases spawn_tasks u with hs | hs <;> rw [hs] at hu
    · exact hkept (h.calls u g id stage hu)
    · subst hu
      cases hpc
  | delivered event events hev =>
    refine ⟨fun event' he => ?_, fun u g id stage hu => ?_⟩
    · exact hkept (h.events event' (by rw [hev]; exact List.mem_cons_of_mem _ he))
    · rcases spawn_tasks u with hs | hs <;> rw [hs] at hu
      · exact hkept (h.calls u g id stage hu)
      · cases hu
        exact hkept (h.events event (by rw [hev]; exact List.mem_cons_self))
  | moved t hm =>
    refine ⟨fun event he => ?_, fun u g id stage hu => ?_⟩
    · exact hkept (h.events event (move_events hm ▸ he))
    · rcases goto_tasks u with hs | hs <;> rw [hs] at hu
      · rw [(move_calls hm).1] at hu
        exact hkept (h.calls u g id stage hu)
      · obtain ⟨stage0, hpc, -⟩ := (move_back hm).2.1 hu
        exact hkept (h.calls t g id stage0 hpc)
  | expired t => exact ⟨fun event he => hkept (h.events event he),
      fun u g id stage hu => hkept (h.calls u g id stage hu)⟩
  | aborted t ha hb =>
    refine ⟨fun event he => hkept (h.events event he), fun u g id stage hu => ?_⟩
    rcases goto_tasks u with hs | hs <;> rw [hs] at hu
    · exact hkept (h.calls u g id stage hu)
    · cases hu
  | runtime r hr cell permits sent hc =>
    refine ⟨fun event he => ?_, fun u g id stage hu => hkept (h.calls u g id stage hu)⟩
    rcases List.mem_append.mp he with he | he
    · exact hkept (h.events event he)
    · obtain ⟨hid, hg, hover⟩ := cell_sends hc he
      have hcell : (cellMoved s r cell permits sent).cells r = cell := Function.update_self ..
      have hset := cell_settled hc
      refine ⟨r, ⟨hr, ?_⟩, ?_, ?_⟩ <;> rw [hcell]
      · rw [hset.runtimeId, hid]
      · rw [hset.listenerGeneration, hg]
      · exact hover

theorem informed_reach [DecidableEq P] (h : Reach m.step State.init s) : Informed s :=
  h.invariant informed_init (fun _ hi hs => hi.step (step_outcome hs))

/-- The runtimes of a registered session have all been current. -/
def Listed (id : SessionId) (s : State P) : Prop :=
  ∀ session runtime, s.sessions.get id = some session → runtime ∈ session.runtimes →
    (s.cells runtime.cell).installed = true

/-- What a call knows about the runtimes it has in hand. -/
structure Handling (id : SessionId) (s : State P) (pc : Pc P) : Prop where
  pending : ∀ runtime ∈ pc.pending, (s.cells runtime.cell).installed = false
  former : ∀ batch target options oldRuntime,
    pc = .reload id batch (.marked target options oldRuntime) ∨
      pc = .reload id batch (.gated target options oldRuntime) →
    (s.cells oldRuntime.cell).installed = true
  unclaimed : ∀ batch stage, pc = .reload id batch stage → stage.underway = true →
    s.claimedBy id = none

/-- A call that is not in the middle of a reload. -/
theorem handling_outside (hp : ∀ runtime ∈ pc.pending, (s.cells runtime.cell).installed = false)
    (hr : ∀ batch stage, pc = .reload id batch stage → stage.underway = false) :
    Handling id s pc where
  pending := hp
  former batch target options oldRuntime h := by
    rcases h with h | h <;> cases hr _ _ h
  unclaimed batch stage h hu := by
    rw [hr batch stage h] at hu
    cases hu

theorem handling_none (hp : pc.pending = [])
    (hr : ∀ batch stage, pc = .reload id batch stage → stage.underway = false) :
    Handling id s pc :=
  handling_outside (fun runtime h => by simp [hp] at h) hr

theorem Listed.frame (hl : Linked s) (hf : Frame id s s') (h : Listed id s) : Listed id s' := by
  intro session' runtime hs' hr
  obtain ⟨session, hs, hk⟩ := hf.back hs'
  have hmem : runtime ∈ session.runtimes := by
    rw [mem_runtimes] at hr ⊢
    exact hr.imp (fun h => hk.retired.subset h) (fun h => hk.runtime.symm.trans h)
  have hlink := hl.session hs hmem
  rw [(hf.core _ hlink.1 hlink.2.1).installed]
  exact h session runtime hs hmem

theorem pending_handles {runtime : ProxyRuntime P} (hh : pc.holds = some id)
    (h : runtime ∈ pc.pending) : (id, runtime) ∈ pc.handles := by
  cases pc with
  | create call stage =>
    obtain rfl := Pc.holds_create hh
    cases stage with
    | register | drop =>
      cases List.mem_singleton.mp h
      exact List.mem_singleton_self _
    | _ => cases h
  | reload j batch stage =>
    obtain rfl := Pc.holds_reload hh
    cases stage with
    | commit | shutdown =>
      cases List.mem_singleton.mp h
      exact List.mem_singleton_self _
    | _ => cases h
  | _ => cases h

theorem Handling.frame (hl : Linked s) (hh : (s.tasks t).holds = some id) (hf : Frame id s s')
    (h : Handling id s (s.tasks t)) : Handling id s' (s.tasks t) where
  pending runtime hr := by
    have hlink := hl t id runtime (Or.inr (pending_handles hh hr))
    rw [(hf.core _ hlink.1 hlink.2.1).installed]
    exact h.pending runtime hr
  former batch target options oldRuntime hpc := by
    have hlink : LinkedTo s id oldRuntime := by
      refine hl t id oldRuntime (Or.inr ?_)
      rcases hpc with hpc | hpc <;> rw [hpc] <;> exact List.mem_singleton_self _
    rw [(hf.core _ hlink.1 hlink.2.1).installed]
    exact h.former batch target options oldRuntime hpc
  unclaimed batch stage hpc hu := by
    rw [hf.claimed]
    exact h.unclaimed batch stage hpc hu

/-- A write that leaves the session with some of its runtimes. -/
theorem Listed.fewer (hl : Linked s) (h : Listed id s)
    (hcells : ∀ r, r < s.nextCell → Tended (s.cells r) (s'.cells r))
    (hget : ∀ session', s'.sessions.get id = some session' →
      ∃ session, s.sessions.get id = some session ∧ session'.runtimes ⊆ session.runtimes) :
    Listed id s' := by
  intro session' runtime hs' hr
  obtain ⟨session, hs, hsub⟩ := hget session' hs'
  have hlink := hl.session hs (hsub hr)
  exact (hcells _ hlink.1).installed (h session runtime hs (hsub hr))

theorem fewer_written {session new session' : ManagedSession P}
    (hs : s.sessions.get id = some session) (h : (s.sessions.insert id new).get id = some session')
    (hsub : new.runtimes ⊆ session.runtimes) :
    ∃ session, s.sessions.get id = some session ∧ session'.runtimes ⊆ session.runtimes := by
  rw [SortedMap.get_insert_self] at h
  cases h
  exact ⟨session, hs, hsub⟩

theorem fewer_same {session' : ManagedSession P} (h : s.sessions.get id = some session') :
    ∃ session, s.sessions.get id = some session ∧ session'.runtimes ⊆ session.runtimes :=
  ⟨session', h, List.Subset.refl _⟩

theorem listed_create {call : CreateCall} {stage stage' : CreateStage P} (hl : Linked s)
    (hr : Listed call.id s) (ha : Handling call.id s (.create call stage))
    (hm : CreateMove m s call stage s' stage') :
    Listed call.id s' ∧ Handling call.id s' (.create call stage') := by
  have hcells : ∀ r, r < s.nextCell → Tended (s.cells r) (s'.cells r) := fun r hlt =>
    move_cells (.create call hm : Move m 0 s _ s' _) hlt
  have hout : ∀ {stage' : CreateStage P} (batch : Option Batch) (stage : ReloadStage P),
      Pc.create call stage' = .reload call.id batch stage → stage.underway = false :=
    fun _ _ h => by cases h
  cases hm with
  | started socketPath =>
    refine ⟨hr.fewer hl hcells (fun _ h => fewer_same h), handling_outside ?_ hout⟩
    intro runtime hmem
    cases List.mem_singleton.mp hmem
    simp [created, State.startRuntime, RuntimeCell.start]
  | late runtime hacc =>
    exact ⟨hr.fewer hl hcells (fun _ h => fewer_same h), handling_outside ha.pending hout⟩
  | registered runtime hacc =>
    refine ⟨fun session runtime' hs hmem => ?_, handling_none rfl hout⟩
    simp only [State.setSession, SortedMap.get_insert_self, Option.some.injEq] at hs
    subst hs
    rcases mem_runtimes.mp hmem with hret | hcur
    · cases hret
    · cases hcur
      simp [State.setSession, State.setCell, RuntimeCell.install]
  | _ => exact ⟨hr.fewer hl hcells (fun _ h => fewer_same h), handling_none rfl hout⟩

/-- A call inside a reload that has found the session running. -/
theorem handling_inside {batch : Option Batch} {stage : ReloadStage P}
    (hp : ∀ runtime ∈ (Pc.reload id batch stage).pending,
      (s.cells runtime.cell).installed = false)
    (ho : ∀ runtime ∈ stage.owned, runtime ∉ (Pc.reload id batch stage).pending →
      (s.cells runtime.cell).installed = true)
    (hc : s.claimedBy id = none) : Handling id s (.reload id batch stage) where
  pending := hp
  former batch' target options oldRuntime h := by
    rcases h with h | h <;> cases h <;>
      exact ho oldRuntime (List.mem_singleton_self _) (fun hmem => by cases hmem)
  unclaimed _ _ _ _ := hc

theorem listed_reload {batch : Option Batch} {stage stage' : ReloadStage P} (hl : Linked s)
    (hclaim : Running s id → s.claimedBy id = none) (hr : Listed id s)
    (ha : Handling id s (.reload id batch stage)) (hm : ReloadMove m s id stage s' stage') :
    Listed id s' ∧ Handling id s' (.reload id batch stage') := by
  have hcells : ∀ r, r < s.nextCell → Tended (s.cells r) (s'.cells r) := fun r hlt =>
    move_cells (.reload id batch hm : Move m 0 s _ s' _) hlt
  have hreturn : ∀ {u : State P} {result : SessionReloadResult},
      Handling id u (.reload id batch (.returning result)) := by
    intro u result
    refine handling_none rfl (fun batch stage h => ?_)
    cases h
    rfl
  have hin : ∀ {stage' : ReloadStage P} {u : State P}, (Pc.reload id batch stage').pending = [] →
      stage'.owned = [] → u.claimedBy id = none → Handling id u (.reload id batch stage') := by
    intro stage' u hp ho hc
    exact handling_inside (fun runtime h => by simp [hp] at h) (fun runtime h => by simp [ho] at h)
      hc
  cases hm with
  | missing | unprepared | compareMissing | unchanged | sameFailed | limitsRefused | unbound =>
    exact ⟨hr, hreturn⟩
  | turnedDown session hs =>
    exact ⟨hr.fewer hl hcells (fun _ h => fewer_written hs h (by exact retain_runtimes session _)), hreturn⟩
  | limited target session hs =>
    exact ⟨hr.fewer hl hcells (fun _ h => fewer_written hs h (by exact retain_runtimes session _)), hreturn⟩
  | sameCommitted target hacc session hs =>
    exact ⟨hr.fewer hl hcells (fun _ h => fewer_written hs h (by exact List.Subset.refl _)), hreturn⟩
  | vacant target options replacement session hs hstate hruntime =>
    refine ⟨hr.fewer hl hcells (fun _ h => fewer_written hs h ?_), hreturn⟩
    rw [← hruntime]
    exact List.Subset.refl _
  | lost target options oldRuntime hs => exact ⟨hr.fewer hl hcells (fun _ h => fewer_same h), hreturn⟩
  | drained cell result => exact ⟨hr, hreturn⟩
  | begun session hs hstate =>
    exact ⟨hr.fewer hl hcells (fun _ h => fewer_written hs h (by exact retain_runtimes session _)),
      hin rfl rfl (hclaim ⟨session, hs, hstate⟩)⟩
  | prepared source target =>
    exact ⟨hr, hin rfl rfl (ha.unclaimed batch _ rfl rfl)⟩
  | samePath source target | otherPath source target =>
    exact ⟨hr, hin rfl rfl (ha.unclaimed batch _ rfl rfl)⟩
  | withinLimits target hacc session hs =>
    exact ⟨hr.fewer hl hcells (fun _ h => fewer_written hs h (by exact retain_runtimes session _)),
      hin rfl rfl (ha.unclaimed batch _ rfl rfl)⟩
  | replacing target options =>
    refine ⟨hr.fewer hl hcells (fun _ h => fewer_same h),
      handling_inside (fun runtime hmem => ?_) (fun runtime hmem hn => absurd hmem hn)
        (ha.unclaimed batch _ rfl rfl)⟩
    cases List.mem_singleton.mp hmem
    simp [State.startRuntime, RuntimeCell.start]
  | withdrawn target options replacement hw =>
    exact ⟨hr, handling_inside ha.pending (fun runtime hmem hn => absurd hmem hn)
      (ha.unclaimed batch _ rfl rfl)⟩
  | switched target options replacement hacc session hs hstate oldRuntime hruntime =>
    have hlinked := hl.session hs (mem_runtimes.mpr (Or.inr hruntime))
    have hold := (hcells _ hlinked.1).installed (hr session oldRuntime hs
      (mem_runtimes.mpr (Or.inr hruntime)))
    refine ⟨fun session' runtime hs' hmem => ?_, handling_inside (fun _ h => by cases h)
      (fun runtime hmem _ => ?_) (ha.unclaimed batch _ rfl rfl)⟩
    · simp only [State.setSession, SortedMap.get_insert_self, Option.some.injEq] at hs'
      subst hs'
      rcases mem_runtimes.mp hmem with hret | hcur
      · have hmem' : runtime ∈ session.runtimes := mem_runtimes.mpr (Or.inl hret)
        exact (hcells _ (hl.session hs hmem').1).installed (hr session runtime hs hmem')
      · cases hcur
        have hone : ((s.setCell replacement.cell (s.cells replacement.cell).install).cells
            replacement.cell).installed = true := by
          simp [State.setCell, RuntimeCell.install]
        exact (tended_set (tended_mark _) _).installed hone
    · cases List.mem_singleton.mp hmem
      exact hold
  | gateStored target options oldRuntime =>
    refine ⟨hr, handling_inside (fun _ h => by cases h) (fun runtime hmem _ => ?_)
      (ha.unclaimed batch _ rfl rfl)⟩
    cases List.mem_singleton.mp hmem
    exact ha.former batch target options oldRuntime (Or.inl rfl)
  | retired target options oldRuntime session hs =>
    have hlinked := ha.former batch target options oldRuntime (Or.inr rfl)
    refine ⟨fun session' runtime hs' hmem => ?_, hreturn⟩
    simp only [State.setSession, SortedMap.get_insert_self, Option.some.injEq] at hs'
    subst hs'
    have hmono : ∀ {r : RuntimeRef}, (s.cells r).installed = true →
        ((s.setCell oldRuntime.cell (s.cells oldRuntime.cell).retire).cells r).installed = true :=
      fun h => (tended_set (tended_retire _) _).installed h
    rcases mem_runtimes.mp hmem with hret | hcur
    · rcases List.mem_append.mp hret with hret | hret
      · exact hmono (hr session runtime hs (mem_runtimes.mpr (Or.inl hret)))
      · cases List.mem_singleton.mp hret
        exact hmono hlinked
    · exact hmono (hr session runtime hs (mem_runtimes.mpr (Or.inr hcur)))
  | stopping replacement result =>
    exact ⟨hr.fewer hl hcells (fun _ h => fewer_same h),
      hin rfl rfl (ha.unclaimed batch _ rfl rfl)⟩

theorem fewer_erased {session' : ManagedSession P} {k : SessionId}
    (h : (s.sessions.erase k).get id = some session') :
    ∃ session, s.sessions.get id = some session ∧ session'.runtimes ⊆ session.runtimes := by
  by_cases hid : id = k
  · rw [hid, SortedMap.get_erase_self] at h
    cases h
  · rw [SortedMap.get_erase_ne _ hid] at h
    exact fewer_same h

/-- A tear-down and a sweep leave a session with none or some of its runtimes. -/
theorem fewer_move (hm : Move m t s pc s' pc') (hh : pc.holds = some id)
    (hpc : (∃ kind stage, pc = .teardown kind id stage) ∨ ∃ stage, pc = .shutdownAll stage)
    {session' : ManagedSession P} (hs' : s'.sessions.get id = some session') :
    ∃ session, s.sessions.get id = some session ∧ session'.runtimes ⊆ session.runtimes := by
  cases hm with
  | teardown kind j h =>
    obtain rfl := Pc.holds_teardown hh
    cases h with
    | forgotten g hk session hs => exact fewer_written hs hs' (by exact retain_runtimes session _)
    | claimed session hs => exact fewer_written hs hs' (by exact List.nil_subset _)
    | removed session hs => exact fewer_erased hs'
    | _ => exact fewer_same hs'
  | sweep h =>
    cases h with
    | claimed j ids runtimes count session hs =>
      cases hh
      exact fewer_written hs hs' (by exact List.nil_subset _)
    | cleared => cases hs'
    | _ => exact fewer_same hs'
  | _ => rcases hpc with ⟨_, _, hpc⟩ | ⟨_, hpc⟩ <;> cases hpc

theorem Between.pending (h : Between pc) : pc.pending = [] := by cases h <;> rfl

theorem Between.handling (h : Between pc) : Handling id s pc := by
  refine handling_none h.pending (fun batch stage hpc => ?_)
  cases h with
  | lookup =>
    cases hpc
    rfl
  | _ => cases hpc

theorem listed_move [DecidableEq P] (hreach : Reach m.step State.init s)
    (hh : (s.tasks t).holds = some id) (hr : Listed id s) (ha : Handling id s (s.tasks t))
    (hm : Move m t s (s.tasks t) s' pc') : Listed id s' ∧ Handling id s' pc' := by
  have hl := linked_reach hreach
  have hclaim : Running s id → s.claimedBy id = none := fun hrun =>
    (claimed_reach hreach id).running (running_iff.mp hrun)
  have hcells : ∀ r, r < s.nextCell → Tended (s.cells r) (s'.cells r) := fun r hlt =>
    move_cells hm hlt
  have hfewer := fun hpc => hr.fewer hl hcells (fun _ h => fewer_move hm hh hpc h)
  generalize s.tasks t = pc at *
  cases hm with
  | create call h =>
    obtain rfl := Pc.holds_create hh
    exact listed_create hl hr ha h
  | reload j batch h =>
    obtain rfl := Pc.holds_reload hh
    exact listed_reload hl hclaim hr ha h
  | reloadReturned j batch result => exact ⟨hr, (after_reload_between batch result).handling⟩
  | teardown kind j h =>
    obtain rfl := Pc.holds_teardown hh
    exact ⟨hfewer (Or.inl ⟨kind, _, rfl⟩), handling_none rfl (fun _ _ h => by cases h)⟩
  | sweep h =>
    exact ⟨hfewer (Or.inr ⟨_, rfl⟩), handling_none rfl (fun _ _ h => by cases h)⟩
  | unknown | found | locked | reloadAll | rejected | listed => cases hh

theorem Entry.handling (h : Entry s id pc) : Handling id s' pc := by
  cases h with
  | create | claim | sweep => exact handling_none rfl (fun _ _ h => by cases h)
  | begin batch hb =>
    refine handling_none rfl (fun batch stage h => ?_)
    cases h
    rfl

theorem listed_upheld [DecidableEq P] (h : Reach m.step State.init s) (id : SessionId) :
    Upheld Listed Handling id s := by
  refine session_rule ?_ ?_ ?_ ?_ ?_ ?_ h id
  · intro id session runtime hs
    cases hs
  · intro id s s' hreach hf hr
    exact hr.frame (linked_reach hreach) hf
  · intro id s s' t hreach hh hr hf ha
    exact ha.frame (linked_reach hreach) hh hf
  · intro id s s' pc hreach hen hnone hf hr
    exact hen.handling
  · intro id s s' t pc hreach hh hr ha hm
    obtain ⟨hr', ha'⟩ := listed_move hreach hh hr ha hm
    exact ⟨hr', ha'.pending, ha'.former, ha'.unclaimed⟩
  · intro id s t hreach hh hacc hb hr ha
    refine hr.fewer (linked_reach hreach) (fun r _ => ?_) (fun _ h => fewer_same h)
    exact tended_aborted _ _ r

/-- The runtimes that a tear-down has taken are of sessions that it has claimed. -/
def Took (s : State P) : Prop :=
  ∀ t runtime, runtime ∈ (s.tasks t).taken → runtime.cell < s.nextCell ∧
    s.claimedBy (s.cells runtime.cell).runtimeId = some t

theorem took_init : Took (State.init : State P) := fun _ _ h => by cases h

theorem Between.taken (h : Between pc) : pc.taken = [] := by cases h <;> rfl

theorem Initial.taken (h : Initial pc) : pc.taken = [] := by cases h <;> rfl

/-- What a tear-down takes it takes from the session that it claims. -/
theorem move_taken (hm : Move m t s pc s' pc') {runtime : ProxyRuntime P}
    (h : runtime ∈ pc'.taken) :
    runtime ∈ pc.taken ∨ ∃ id session, s.sessions.get id = some session ∧
      runtime ∈ session.runtimes ∧ s'.claimedBy id = (s.claimedBy id).or (some t) := by
  cases hm with
  | unknown j batch hs => simp [(reload_lookup_between batch hs).taken] at h
  | reloadReturned j batch result => simp [(after_reload_between batch result).taken] at h
  | reloadAll => simp [reload_all_between.taken] at h
  | teardown kind j hm =>
    cases hm with
    | claimed session hs => exact Or.inr ⟨j, session, hs, h, Function.update_self ..⟩
    | _ => cases h
  | sweep hm =>
    cases hm with
    | claimed j ids runtimes count session hs =>
      rcases List.mem_append.mp h with h | h
      · exact Or.inl h
      · exact Or.inr ⟨j, session, hs, h, Function.update_self ..⟩
    | skipped | found | locked | gone => exact Or.inl h
    | _ => cases h
  | _ => cases h

theorem Took.step [DecidableEq P] (hreach : Reach m.step State.init s) (h : Took s)
    (ho : Outcome m s s') : Took s' := by
  have hext := step_extends ho
  have hkept : ∀ {r t}, r < s.nextCell → s.claimedBy (s.cells r).runtimeId = some t →
      r < s'.nextCell ∧ s'.claimedBy (s'.cells r).runtimeId = some t := by
    intro r t hr hc
    rw [hext.runtimeId r hr]
    exact ⟨Nat.lt_of_lt_of_le hr hext.nextCell, claim_stays ho hc⟩
  have hold : ∀ {t runtime}, runtime ∈ (s.tasks t).taken → runtime.cell < s'.nextCell ∧
      s'.claimedBy (s'.cells runtime.cell).runtimeId = some t := fun hmem =>
    hkept (h _ _ hmem).1 (h _ _ hmem).2
  intro u runtime hmem
  cases ho with
  | create call hid =>
    rcases spawn_tasks u with hs | hs <;> rw [hs] at hmem
    · exact hold hmem
    · cases hmem
  | call hpc =>
    rcases spawn_tasks u with hs | hs <;> rw [hs] at hmem
    · exact hold hmem
    · simp [hpc.taken] at hmem
  | delivered event events he =>
    rcases spawn_tasks u with hs | hs <;> rw [hs] at hmem
    · exact hold hmem
    · cases hmem
  | moved t hm =>
    rename_i s1 pc1
    by_cases hut : u = t
    · subst hut
      have hself : (s1.goto u pc1).tasks u = pc1 := Function.update_self ..
      rw [hself] at hmem
      rcases move_taken hm hmem with hmem | ⟨id, session, hs, hr, hc⟩
      · exact hold hmem
      · -- the session still had runtimes, so nobody has claimed it before
        have hlink := (linked_reach hreach).session hs hr
        have hrun : session.info.state = .running := by
          cases hstate : session.info.state with
          | running => rfl
          | stopping =>
            obtain ⟨hnone, hnil⟩ := ((recorded_reach hreach id).agrees session hs).stopping hstate
            simp [ManagedSession.runtimes, hnone, hnil] at hr
        have hnone := (claimed_reach hreach id).running (by rw [lifecycle_some hs, hrun])
        refine ⟨Nat.lt_of_lt_of_le hlink.1 hext.nextCell, ?_⟩
        rw [hext.runtimeId _ hlink.1, hlink.2.1]
        show s1.claimedBy id = some u
        rw [hc, hnone]
        rfl
    · have hother : (s1.goto t pc1).tasks u = s.tasks u := by
        simp only [State.goto, (move_calls hm).1]
        exact Function.update_of_ne hut _ _
      rw [hother] at hmem
      exact hold hmem
  | expired t => exact hold hmem
  | aborted t ha hb =>
    rcases goto_tasks u with hs | hs <;> rw [hs] at hmem
    · exact hold hmem
    · cases hmem
  | runtime r hr cell permits sent hc => exact hold hmem

theorem took_reach [DecidableEq P] (h : Reach m.step State.init s) : Took s :=
  h.invariant took_init (fun hr hi hs => hi.step hr (step_outcome hs))

theorem held_mem {runtimes : List (ProxyRuntime P)} {r : RuntimeRef} (h : held runtimes r ≠ 0) :
    ∃ runtime ∈ runtimes, runtime.cell = r := by
  by_contra hn
  exact h (held_none (fun runtime hr he => hn ⟨runtime, hr, he⟩))

/-- The ways in which a move of a call disposes of a runtime. -/
inductive Disposal (s : State P) (pc : Pc P) (s' : State P) (pc' : Pc P) (r : RuntimeRef) :
    Prop where
  | finished (h : (s.cells r).phase = .finished)
  | forgotten (g : Nat) (id : SessionId) (session : ManagedSession P) (runtime : ProxyRuntime P)
      (hpc : pc = .teardown (.runtimeExit g) id .claim) (hs : s.sessions.get id = some session)
      (hmem : runtime ∈ session.retiredRuntimes) (hg : runtime.listenerGeneration = g)
      (hr : runtime.cell = r)
  | dropped (runtime : ProxyRuntime P) (hmem : runtime ∈ pc.pending) (hr : runtime.cell = r)
      (hi : (s'.cells r).installed = (s.cells r).installed) (hc : (s'.cells r).cancelled = true)
      (ha : (s'.cells r).aborted = true)
  | withdrawn (id : SessionId) (batch : Option Batch) (replacement : ProxyRuntime P)
      (result : SessionReloadResult) (hpc : pc = .reload id batch (.shutdown replacement result))
      (hpc' : pc' = .reload id batch (.draining replacement.cell result))
      (hr : replacement.cell = r) (hi : (s'.cells r).installed = (s.cells r).installed)
      (hc : (s'.cells r).cancelled = true)
  | taken (runtime : ProxyRuntime P) (hmem : runtime ∈ pc.taken) (hr : runtime.cell = r)
      (hd : r ∈ pc'.draining)
  | cleared (id : SessionId) (session : ManagedSession P) (runtime : ProxyRuntime P)
      (hs : s.sessions.get id = some session) (hmem : runtime ∈ session.runtimes)
      (hpc : (∃ kind, pc = .teardown kind id .finish) ∨ ∃ count, pc = .shutdownAll (.clear count))
  | lost (id : SessionId) (batch : Option Batch) (target : ReloadTarget P) (options : Replacement)
      (oldRuntime : ProxyRuntime P) (hpc : pc = .reload id batch (.gated target options oldRuntime))
      (hs : s.sessions.get id = none)

theorem finished_disposal {session : ManagedSession P} {r : RuntimeRef}
    (h : (s.cells r).disposals + held (SessionManager.finishedRuntimes s session) r
      ≠ (s.cells r).disposals) : Disposal s pc s' pc' r := by
  obtain ⟨runtime, hmem, rfl⟩ := held_mem (fun hz => h (by rw [hz, Nat.add_zero]))
  exact .finished (by simpa [State.isFinished] using (List.mem_filter.mp hmem).2)

theorem drop_marks {c : RuntimeCell} {n : Nat} (h : n ≠ 0) :
    (c.drop n).cancelled = true ∧ (c.drop n).aborted = true := by
  have hpos : 0 < n := Nat.pos_of_ne_zero h
  simp [RuntimeCell.drop, hpos]

theorem shutdown_marks {c : RuntimeCell} {n : Nat} (h : n ≠ 0) :
    (c.shutdown n).cancelled = true := by
  have hpos : 0 < n := Nat.pos_of_ne_zero h
  simp [RuntimeCell.shutdown, hpos]

theorem held_of_changed {n : Nat} {c : RuntimeCell} (h : c.disposals + n ≠ c.disposals) : n ≠ 0 :=
  fun hz => h (by rw [hz, Nat.add_zero])

/-- A handle that the call drops before its runtime was current. -/
theorem dropped_disposal {runtime : ProxyRuntime P} {r : RuntimeRef}
    (h : (s.cells r).disposals + held [runtime] r ≠ (s.cells r).disposals)
    (hmem : runtime ∈ pc.pending) (hcell : s'.cells r = (s.cells r).drop (held [runtime] r)) :
    Disposal s pc s' pc' r := by
  have hne := held_of_changed h
  obtain ⟨_, hone, hr⟩ := held_mem hne
  cases List.mem_singleton.mp hone
  have hmarks := drop_marks (c := s.cells r) hne
  refine .dropped runtime hmem hr ?_ ?_ ?_ <;> rw [hcell]
  · rfl
  · exact hmarks.1
  · exact hmarks.2

theorem reload_disposes {batch : Option Batch} {stage stage' : ReloadStage P} {r : RuntimeRef}
    (hr : r < s.nextCell) (hm : ReloadMove m s id stage s' stage')
    (h : (s'.cells r).disposals ≠ (s.cells r).disposals) :
    Disposal s (.reload id batch stage) s' (.reload id batch stage') r := by
  cases hm with
  | turnedDown session hs | begun session hs => exact finished_disposal h
  | limited target session hs | withinLimits target ha session hs => exact finished_disposal h
  | sameCommitted target ha session hs runtime hruntime cell hcell =>
    exact absurd (set_same RuntimeCell.disposals (by rw [replaced hcell])) h
  | replacing target options =>
    exact absurd (congrArg RuntimeCell.disposals (Function.update_of_ne (Nat.ne_of_lt hr) _ _)) h
  | vacant target options replacement session hs =>
    exact dropped_disposal h (List.mem_singleton_self _) rfl
  | switched target options replacement ha session hs hstate oldRuntime hruntime =>
    exact absurd (Eq.trans (set_same RuntimeCell.disposals (by rfl))
      (set_same RuntimeCell.disposals (by rfl))) h
  | lost target options oldRuntime hs => exact .lost id batch target options oldRuntime rfl hs
  | retired target options oldRuntime session hs =>
    exact absurd (set_same RuntimeCell.disposals (by rfl)) h
  | stopping replacement result =>
    have hne := held_of_changed h
    obtain ⟨_, hone, he⟩ := held_mem hne
    cases List.mem_singleton.mp hone
    exact .withdrawn id batch replacement result rfl rfl he rfl (shutdown_marks hne)
  | _ => exact absurd rfl h

theorem move_disposes (hm : Move m t s pc s' pc') {r : RuntimeRef} (hr : r < s.nextCell)
    (h : (s'.cells r).disposals ≠ (s.cells r).disposals) : Disposal s pc s' pc' r := by
  cases hm with
  | create call hm =>
    cases hm with
    | started socketPath =>
      exact absurd (congrArg RuntimeCell.disposals (Function.update_of_ne (Nat.ne_of_lt hr) _ _)) h
    | registered runtime ha => exact absurd (set_same RuntimeCell.disposals (by rfl)) h
    | dropped runtime => exact dropped_disposal h (List.mem_singleton_self _) rfl
    | _ => exact absurd rfl h
  | reload j batch hm => exact reload_disposes hr hm h
  | teardown kind j hm =>
    cases hm with
    | forgotten g hk session hs hne =>
      obtain ⟨runtime, hmem, he⟩ := held_mem (held_of_changed h)
      obtain ⟨hmem, hg⟩ := List.mem_filter.mp hmem
      rw [hk]
      exact .forgotten g j session runtime rfl hs hmem (by simpa using hg) he
    | stopping runtimes =>
      obtain ⟨runtime, hmem, he⟩ := held_mem (held_of_changed h)
      exact .taken runtime hmem he (List.mem_map.mpr ⟨runtime, hmem, he⟩)
    | removed session hs =>
      obtain ⟨runtime, hmem, he⟩ := held_mem (held_of_changed h)
      exact .cleared j session runtime hs hmem (Or.inl ⟨kind, rfl⟩)
    | _ => exact absurd rfl h
  | sweep hm =>
    cases hm with
    | stopping runtimes count =>
      obtain ⟨runtime, hmem, he⟩ := held_mem (held_of_changed h)
      exact .taken runtime hmem he (List.mem_map.mpr ⟨runtime, hmem, he⟩)
    | cleared count =>
      obtain ⟨runtime, hmem, he⟩ := held_mem (held_of_changed h)
      obtain ⟨session, hv, hmem⟩ := List.mem_flatMap.mp hmem
      obtain ⟨j, hs⟩ := SortedMap.mem_values.mp hv
      exact .cleared j session runtime hs hmem (Or.inr ⟨count, rfl⟩)
    | _ => exact absurd rfl h
  | listed answer =>
    obtain ⟨runtime, hmem, rfl⟩ := held_mem (held_of_changed h)
    obtain ⟨session, -, hmem⟩ := List.mem_flatMap.mp hmem
    exact .finished (by simpa [State.isFinished] using (List.mem_filter.mp hmem).2)
  | _ => exact absurd rfl h

/-- What becomes of a runtime whose handle is gone. -/
inductive Ending (s : State P) (r : RuntimeRef) : Prop where
  | ended (h : (s.cells r).Over)
  | dropped (hi : (s.cells r).installed = false) (hc : (s.cells r).cancelled = true)
      (ha : (s.cells r).aborted = true)
  | withdrawn (u : TaskId) (batch : Option Batch) (result : SessionReloadResult)
      (hpc : s.tasks u = .reload (s.cells r).runtimeId batch (.draining r result))
      (hi : (s.cells r).installed = false) (hc : (s.cells r).cancelled = true)
  | draining (u : TaskId) (hr : r ∈ (s.tasks u).draining)
      (hc : s.claimedBy (s.cells r).runtimeId = some u)
  | abandoned (u : TaskId) (hpc : s.tasks u = .aborted)
      (hc : s.claimedBy (s.cells r).runtimeId = some u)

theorem move_drained (hm : Move m t s pc s' pc') {r : RuntimeRef} (hr : r ∈ pc.draining) :
    (s.cells r).phase = .finished := by
  cases hm with
  | reload j batch hm =>
    cases hm with
    | drained cell result hf =>
      cases List.mem_singleton.mp hr
      exact hf
    | _ => cases hr
  | teardown kind j hm =>
    cases hm with
    | drained cells hf => exact hf r hr
    | _ => cases hr
  | sweep hm =>
    cases hm with
    | drained cells count hf => exact hf r hr
    | _ => cases hr
  | _ => cases hr

/-- Only a call that owns the handle makes a runtime current. -/
theorem move_installed (hm : Move m t s pc s' pc') {r : RuntimeRef} (hr : r < s.nextCell) :
    (s'.cells r).installed = (s.cells r).installed ∨
      ∃ runtime ∈ pc.owned, runtime.cell = r := by
  have hset : ∀ {q : RuntimeRef} {c : RuntimeCell}, c.installed = (s.cells q).installed →
      ((s.setCell q c).cells r).installed = (s.cells r).installed := fun h =>
    set_same RuntimeCell.installed h
  have hinstall : ∀ {runtime : ProxyRuntime P}, runtime ∈ pc.owned →
      ((s.setCell runtime.cell (s.cells runtime.cell).install).cells r).installed
          = (s.cells r).installed ∨ ∃ runtime ∈ pc.owned, runtime.cell = r := by
    intro runtime hmem
    by_cases he : runtime.cell = r
    · exact Or.inr ⟨runtime, hmem, he⟩
    · exact Or.inl (congrArg RuntimeCell.installed (set_elsewhere he))
  cases hm with
  | create call hm =>
    cases hm with
    | started socketPath =>
      exact Or.inl (congrArg RuntimeCell.installed
        (Function.update_of_ne (Nat.ne_of_lt hr) _ _))
    | registered runtime ha => exact hinstall (List.mem_singleton_self _)
    | _ => exact Or.inl rfl
  | reload j batch hm =>
    cases hm with
    | sameCommitted target ha session hs runtime hruntime cell hcell =>
      exact Or.inl (hset (by rw [replaced hcell]))
    | replacing target options =>
      exact Or.inl (congrArg RuntimeCell.installed
        (Function.update_of_ne (Nat.ne_of_lt hr) _ _))
    | switched target options replacement ha session hs hstate oldRuntime hruntime =>
      refine (hinstall (List.mem_singleton_self _)).imp_left (fun h => Eq.trans ?_ h)
      exact set_same RuntimeCell.installed (by rfl)
    | lost target options oldRuntime hs => exact Or.inl (hset (by rfl))
    | retired target options oldRuntime session hs => exact Or.inl (hset (by rfl))
    | _ => exact Or.inl rfl
  | teardown kind j hm => cases hm <;> exact Or.inl rfl
  | sweep hm => cases hm <;> exact Or.inl rfl
  | _ => exact Or.inl rfl

theorem step_installed (hc : Conserved s) (hx : Exclusive s) (ho : Outcome m s s')
    {r : RuntimeRef} (hr : r < s.nextCell) (hd : (s.cells r).disposals = 1)
    (hi : (s.cells r).installed = false) : (s'.cells r).installed = false := by
  cases ho with
  | create | call | delivered => exact hi
  | moved t hm =>
    rcases move_installed hm hr with he | ⟨runtime, hmem, rfl⟩
    · exact he.trans hi
    · rw [(hc.call hx hmem).1] at hd
      cases hd
  | expired t => exact (core_abort_cells _ r).installed.trans hi
  | aborted t ha hb =>
    exact (core_abort_cells (s := s.dropRuntimes (s.tasks t).owned) _ r).installed.trans hi
  | runtime q hq cell permits sent hcell => exact (settled_cells permits hcell r).installed.trans hi

theorem Ending.step [DecidableEq P] (hreach : Reach m.step State.init s) (ho : Outcome m s s')
    {r : RuntimeRef} (hr : r < s.nextCell) (hd : (s.cells r).disposals = 1) (h : Ending s r) :
    Ending s' r := by
  have hx := exclusive_reach hreach
  have hages := step_ages ho hr
  have hid := (step_extends ho).runtimeId r hr
  have hinst := step_installed (conserved_reach hreach) hx ho hr hd
  have hclaim : ∀ {u}, s.claimedBy (s.cells r).runtimeId = some u →
      s'.claimedBy (s'.cells r).runtimeId = some u := by
    intro u hc
    rw [hid]
    exact claim_stays ho hc
  have hlive : ∀ {u}, s.tasks u ≠ .absent → u ≠ s.nextTask := by
    rintro u hu rfl
    exact hu (hx.absent _ (Nat.le_refl _))
  -- a call that was draining moves on only when the runtime has finished
  have hmoved : ∀ {u}, r ∈ (s.tasks u).draining →
      s'.tasks u = s.tasks u ∨ (s'.cells r).Over ∨
        s'.tasks u = .aborted ∧ (s'.cells r).aborted = true := by
    intro u hu
    have hne : s.tasks u ≠ .absent := by
      intro he
      rw [he] at hu
      cases hu
    cases ho with
    | create call hid' => exact Or.inl (Function.update_of_ne (hlive hne) _ _)
    | call hpc => exact Or.inl (Function.update_of_ne (hlive hne) _ _)
    | delivered event events he => exact Or.inl (Function.update_of_ne (hlive hne) _ _)
    | moved t hm =>
      by_cases hut : u = t
      · subst hut
        exact Or.inr (Or.inl (Or.inr (hages.finished (move_drained hm hu))))
      · left
        simp only [State.goto, (move_calls hm).1]
        exact Function.update_of_ne hut _ _
    | expired t => exact Or.inl rfl
    | aborted t ha hb =>
      by_cases hut : u = t
      · subst hut
        refine Or.inr (Or.inr ⟨Function.update_self .., ?_⟩)
        simp [State.goto, State.abortCells, hu, RuntimeCell.abort]
      · exact Or.inl (Function.update_of_ne hut _ _)
    | runtime q hq cell permits sent hc => exact Or.inl rfl
  cases h with
  | ended h => exact .ended (step_over ho hr h)
  | dropped hi hc ha => exact .dropped (hinst hi) (hages.cancelled hc) (hages.aborted ha)
  | withdrawn u batch result hpc hi hc =>
    rcases hmoved (u := u) (by rw [hpc]; exact List.mem_singleton_self _) with hs | hover | ⟨-, ha⟩
    · exact .withdrawn u batch result (by rw [hs, hpc, hid]) (hinst hi) (hages.cancelled hc)
    · exact .ended hover
    · exact .dropped (hinst hi) (hages.cancelled hc) ha
  | draining u hu hc =>
    rcases hmoved hu with hs | hover | ⟨ha, -⟩
    · exact .draining u (by rw [hs]; exact hu) (hclaim hc)
    · exact .ended hover
    · exact .abandoned u ha (hclaim hc)
  | abandoned u hpc hc =>
    refine .abandoned u ?_ (hclaim hc)
    have hne : s.tasks u ≠ .absent := by simp [hpc]
    cases ho with
    | create call hid' => exact (Function.update_of_ne (hlive hne) _ _).trans hpc
    | call hpc' => exact (Function.update_of_ne (hlive hne) _ _).trans hpc
    | delivered event events he => exact (Function.update_of_ne (hlive hne) _ _).trans hpc
    | moved t hm =>
      have hut : u ≠ t := by
        rintro rfl
        rw [hpc] at hm
        cases hm
      simp only [State.goto, (move_calls hm).1]
      exact (Function.update_of_ne hut _ _).trans hpc
    | expired t => exact hpc
    | aborted t ha hb =>
      rcases goto_tasks u with hs | hs
      · exact hs.trans hpc
      · exact hs
    | runtime q hq cell permits sent hcell => exact hpc

/-- Every handle that is gone has an ending for its runtime. -/
def Disposed (s : State P) : Prop :=
  ∀ r, r < s.nextCell → (s.cells r).disposals = 1 → Ending s r

theorem disposed_init : Disposed (State.init : State P) := fun _ h => absurd h (Nat.not_lt_zero _)

/-- The exit of a retired listener drops a runtime that has ended. -/
theorem forgotten_over [DecidableEq P] (hreach : Reach m.step State.init s) {g : Nat}
    {session : ManagedSession P} {runtime : ProxyRuntime P}
    {stage : TeardownStage P} (hpc : s.tasks t = .teardown (.runtimeExit g) id stage)
    (hs : s.sessions.get id = some session) (hmem : runtime ∈ session.retiredRuntimes)
    (hg : runtime.listenerGeneration = g) : (s.cells runtime.cell).Over := by
  obtain ⟨r, hr, hgr, hover⟩ := (informed_reach hreach).calls t g id stage hpc
  have hlink := (linked_reach hreach).session hs (mem_runtimes.mpr (Or.inl hmem))
  have hsame := (cutover_upheld hreach id).1.unique r runtime.cell hr ⟨hlink.1, hlink.2.1⟩
    (by rw [hgr, hlink.2.2, hg])
  rw [← hsame]
  exact hover

/-- A session that is stopping has no runtimes left. -/
theorem stopping_empty [DecidableEq P] (hreach : Reach m.step State.init s)
    {session : ManagedSession P} (hs : s.sessions.get id = some session)
    (hstate : session.info.state = .stopping) : session.runtimes = [] := by
  obtain ⟨hnone, hnil⟩ := ((recorded_reach hreach id).agrees session hs).stopping hstate
  simp [ManagedSession.runtimes, hnone, hnil]

theorem pending_owned {runtime : ProxyRuntime P} (h : runtime ∈ pc.pending) :
    runtime ∈ pc.owned ∧ ∃ id, pc.holds = some id := by
  cases pc with
  | create call stage =>
    cases stage with
    | register | drop => exact ⟨h, call.id, rfl⟩
    | _ => cases h
  | reload j batch stage =>
    cases stage with
    | commit | shutdown => exact ⟨h, j, rfl⟩
    | _ => cases h
  | _ => cases h

/-- A call that can be aborted owns only what it has not made current. -/
theorem abortable_pending {runtime : ProxyRuntime P} (hb : pc.abortable = true)
    (h : runtime ∈ pc.owned) : runtime ∈ pc.pending := by
  cases pc with
  | create call stage =>
    cases stage with
    | register | drop => exact h
    | _ => cases h
  | reload j batch stage =>
    cases stage with
    | commit => exact h
    | marked | gated | shutdown => cases hb
    | _ => cases h
  | teardown kind j stage =>
    cases stage with
    | shutdown => cases kind <;> cases hb
    | _ => cases h
  | shutdownAll stage => cases hb
  | _ => cases h

theorem pending_installed [DecidableEq P] (hreach : Reach m.step State.init s)
    {runtime : ProxyRuntime P} (h : runtime ∈ (s.tasks t).pending) :
    (s.cells runtime.cell).installed = false := by
  obtain ⟨-, id, hh⟩ := pending_owned h
  exact ((listed_upheld hreach id).2 t hh).pending runtime h

theorem Disposal.ending [DecidableEq P] (hreach : Reach m.step State.init s)
    (hm : Move m t s (s.tasks t) s' pc') {r : RuntimeRef} (hr : r < s.nextCell)
    (h : Disposal s (s.tasks t) s' pc' r) : Ending (s'.goto t pc') r := by
  have hself : (s'.goto t pc').tasks t = pc' := Function.update_self ..
  have ho : Outcome m s (s'.goto t pc') := .moved t hm
  have hid := (step_extends ho).runtimeId r hr
  cases h with
  | finished h => exact .ended (Or.inr ((step_ages ho hr).finished h))
  | forgotten g id session runtime hpc hs hmem hg he =>
    subst he
    exact .ended (step_over ho hr (forgotten_over hreach hpc hs hmem hg))
  | dropped runtime hmem he hi hc ha =>
    subst he
    exact .dropped (hi.trans (pending_installed hreach hmem)) hc ha
  | withdrawn id batch replacement result hpc hpc' he hi hc =>
    subst he
    have hpending : replacement ∈ (s.tasks t).pending := by
      rw [hpc]
      exact List.mem_singleton_self _
    have hlink := linked_reach hreach t id replacement
      (Or.inr (by rw [hpc]; exact List.mem_singleton_self _))
    refine .withdrawn t batch result ?_ (hi.trans (pending_installed hreach hpending)) hc
    rw [hself, hid, hlink.2.1, hpc']
  | taken runtime hmem he hd =>
    subst he
    refine .draining t (by rw [hself]; exact hd) ?_
    rw [hid]
    exact claim_stays ho (took_reach hreach t runtime hmem).2
  | cleared id session runtime hs hmem hpc =>
    rw [stopping_empty hreach hs (removal_stopping hreach hpc hs)] at hmem
    cases hmem
  | lost id batch target options oldRuntime hpc hs =>
    have hh : (s.tasks t).holds = some id := by
      rw [hpc]
      rfl
    have hw := working_reach hreach hh
    rw [hpc] at hw
    obtain ⟨session, hsome, -⟩ := hw
    rw [hs] at hsome
    cases hsome

theorem Disposed.step [DecidableEq P] (hreach : Reach m.step State.init s) (h : Disposed s)
    (ho : Outcome m s s') : Disposed s' := by
  intro r hr' hd'
  by_cases hr : r < s.nextCell
  · by_cases hd : (s.cells r).disposals = 1
    · exact (h r hr hd).step hreach ho hr hd
    · have hne : (s'.cells r).disposals ≠ (s.cells r).disposals := by
        rw [hd']
        exact fun he => hd he.symm
      cases ho with
      | create | call | delivered => exact absurd rfl hne
      | moved t hm => exact (move_disposes hm hr hne).ending hreach hm hr
      | expired t => exact absurd (abort_cells_disposals _ r) hne
      | aborted t ha hb =>
        have hdisp := abort_cells_disposals (s := s.dropRuntimes (s.tasks t).owned)
          (s.tasks t).draining r
        have hheld : held (s.tasks t).owned r ≠ 0 := by
          intro hz
          refine hne (hdisp.trans ?_)
          show (s.cells r).disposals + held (s.tasks t).owned r = _
          rw [hz, Nat.add_zero]
        obtain ⟨runtime, hmem, rfl⟩ := held_mem hheld
        have hpending : runtime ∈ (s.tasks t).pending := abortable_pending hb hmem
        have hi := pending_installed hreach hpending
        have hmarks := drop_marks (c := s.cells runtime.cell) hheld
        have htended := tended_abort_cells (s := s.dropRuntimes (s.tasks t).owned)
          (s.tasks t).draining runtime.cell
        refine .dropped ?_ (htended.cancelled hmarks.1) (htended.aborted hmarks.2)
        exact (core_abort_cells (s := s.dropRuntimes (s.tasks t).owned) _ _).installed.trans hi
      | runtime q hq cell permits sent hcell =>
        exact absurd (settled_cells permits hcell r).disposals hne
  · -- the runtime was just started
    cases ho with
    | moved t hm =>
      rename_i s1 pc1
      rcases move_started hm with hn | ⟨id, generation, permits, pair, -, hn, hcell⟩
      · exact absurd (show r < s.nextCell from hn ▸ hr') hr
      · have hlt : r < s.nextCell + 1 := hn ▸ hr'
        have he : r = s.nextCell :=
          Nat.le_antisymm (Nat.le_of_lt_succ hlt) (Nat.le_of_not_lt hr)
        subst he
        rw [show (s1.goto t pc1).cells s.nextCell = _ from hcell] at hd'
        cases hd'
    | create | call | delivered | expired | aborted | runtime => exact absurd hr' hr

theorem disposed_reach [DecidableEq P] (h : Reach m.step State.init s) : Disposed s :=
  h.invariant disposed_init (fun hr hi hs => hi.step hr (step_outcome hs))

/-- The tear-down has returned to its caller. -/
def Returned : Pc P → Prop
  | .teardown _ _ (.done _) | .shutdownAll .done => True
  | _ => False

/-- Nothing is left of the session: its id is not registered, one call has removed
its entry, and each of its runtimes was shut down or dropped once and has ended,
or it was never current and has been aborted. -/
structure TornDown (s : State P) (id : SessionId) : Prop where
  unregistered : s.sessions.get id = none
  removed : ∃ u, s.removedBy id = [u]
  runtimes : ∀ r, Of s id r → (s.cells r).disposals = 1 ∧
    ((s.cells r).Over ∨ (s.cells r).installed = false ∧ (s.cells r).cancelled = true ∧
      (s.cells r).aborted = true)

theorem Returned.gone (hret : Returned pc) (h : Claimant s id pc) : s.sessions.get id = none := by
  cases pc with
  | teardown kind j stage =>
    cases stage with
    | done found => exact h.2
    | _ => exact hret.elim
  | shutdownAll stage =>
    cases stage with
    | done => exact h
    | _ => exact hret.elim
  | _ => exact hret.elim

theorem Returned.idle (hret : Returned pc) : pc.owned = [] ∧ pc.draining = [] := by
  cases pc with
  | teardown kind j stage =>
    cases stage with
    | done found => exact ⟨rfl, rfl⟩
    | _ => exact hret.elim
  | shutdownAll stage =>
    cases stage with
    | done => exact ⟨rfl, rfl⟩
    | _ => exact hret.elim
  | _ => exact hret.elim

/-- A session that was claimed has no reload under way. -/
theorem claimed_reload [DecidableEq P] (hreach : Reach m.step State.init s) {u : TaskId}
    (hc : s.claimedBy id = some u) {batch : Option Batch} {stage : ReloadStage P}
    (hpc : s.tasks t = .reload id batch stage) : stage.underway = false := by
  cases hu : stage.underway with
  | false => rfl
  | true =>
    have hh : (s.tasks t).holds = some id := by
      rw [hpc]
      cases stage <;> first | rfl | cases hu
    have hnone := ((listed_upheld hreach id).2 t hh).unclaimed batch stage hpc hu
    rw [hc] at hnone
    cases hnone

/-- The only call that may own a runtime of a claimed session is the one that has claimed it. -/
theorem claimed_owner [DecidableEq P] (hreach : Reach m.step State.init s) {u : TaskId}
    (hc : s.claimedBy id = some u) {runtime : ProxyRuntime P} (hmem : runtime ∈ (s.tasks t).owned)
    (hid : (s.cells runtime.cell).runtimeId = id) : t = u := by
  have hl := linked_reach hreach t
  have htook := took_reach hreach t runtime
  generalize hpc : s.tasks t = pc at *
  cases pc with
  | create call stage =>
    have hcall : (call.id, runtime) ∈ (Pc.create call stage).handles ∧
        (Pc.create call stage).creating = some call.id := by
      cases stage with
      | register | drop =>
        cases List.mem_singleton.mp hmem
        exact ⟨List.mem_singleton_self _, rfl⟩
      | _ => cases hmem
    have hlink := hl call.id runtime (Or.inr hcall.1)
    have hborn := (claimed_reach hreach id).born (by rw [hc]; rfl)
    refine absurd ?_ (hborn.2 t)
    rw [hpc, hcall.2, ← hlink.2.1, hid]
  | reload j batch stage =>
    have hlink := hl j runtime (Or.inr (List.mem_map.mpr ⟨runtime, hmem, rfl⟩))
    have hj : j = id := hlink.2.1.symm.trans hid
    subst hj
    have hidle := claimed_reload hreach hc hpc
    cases stage with
    | lookup | lock | begin | returning => cases hmem
    | _ => cases hidle
  | teardown kind j stage =>
    have hclaim := (htook hmem).2
    rw [hid, hc] at hclaim
    exact (Option.some.inj hclaim).symm
  | shutdownAll stage =>
    have hclaim := (htook hmem).2
    rw [hid, hc] at hclaim
    exact (Option.some.inj hclaim).symm
  | _ => cases hmem

theorem torn_down [DecidableEq P] (hreach : Reach m.step State.init s)
    (hc : s.claimedBy id = some t) (hret : Returned (s.tasks t)) : TornDown s id := by
  have hnone := hret.gone (answered_reach hreach id t hc)
  have hclaimed := claimed_reach hreach id
  refine ⟨hnone, hclaimed.removed (by rw [hc]; rfl) (lifecycle_none.mpr hnone), fun r hr => ?_⟩
  have hregistered : registered s r = 0 := by
    refine SortedMap.total_zero (fun j session hs => held_none (fun runtime hmem he => ?_))
    have hlink := (linked_reach hreach).session hs hmem
    have hj : j = id := by
      rw [← hlink.2.1, he]
      exact hr.2
    rw [hj, hnone] at hs
    cases hs
  have hcarried : carried s r = 0 := by
    refine Finset.sum_eq_zero (fun u _ => held_none (fun runtime hmem he => ?_))
    have hut := claimed_owner hreach hc hmem (by rw [he]; exact hr.2)
    rw [hut, hret.idle.1] at hmem
    cases hmem
  have hdisposed : (s.cells r).disposals = 1 := by
    have hone := conserved_reach hreach r
    rw [hregistered, hcarried, if_pos hr.1] at hone
    omega
  refine ⟨hdisposed, ?_⟩
  cases disposed_reach hreach r hr.1 hdisposed with
  | ended h => exact Or.inl h
  | dropped hi hcan hab => exact Or.inr ⟨hi, hcan, hab⟩
  | withdrawn u batch result hpc hi hcan =>
    rw [hr.2] at hpc
    cases claimed_reload hreach hc hpc
  | draining u hd hcl =>
    rw [hr.2, hc] at hcl
    cases hcl
    rw [hret.idle.2] at hd
    cases hd
  | abandoned u hpc hcl =>
    rw [hr.2, hc] at hcl
    cases hcl
    rw [hpc] at hret
    exact hret.elim

theorem Returned.over (hret : Returned pc) : pc.over = true := by
  cases pc with
  | teardown kind j stage => cases stage <;> first | rfl | exact hret.elim
  | shutdownAll stage => cases stage <;> first | rfl | exact hret.elim
  | _ => exact hret.elim

/-- A call that has returned stays where it is. -/
theorem returned_stays (hx : Exclusive s) (ho : Outcome m s s') (hret : Returned (s.tasks t)) :
    s'.tasks t = s.tasks t := by
  refine over_stays ho ?_ hret.over
  rintro rfl
  rw [hx.absent _ (Nat.le_refl _)] at hret
  exact hret

/-- A stopped session is torn down once and stays so: in every reachable state no
runtime has been shut down or dropped twice and no entry removed twice; a session
that was claimed does not run and no reload of it is under way; and from the
moment on at which the call that has claimed it returns, nothing is left of it. -/
theorem teardown_once [DecidableEq P] (h : Reach m.step State.init s) :
    (∀ r, (s.cells r).disposals ≤ 1) ∧
    (∀ id session runtime, s.sessions.get id = some session → runtime ∈ session.runtimes →
      (s.cells runtime.cell).installed = true) ∧
    (∀ id, (s.removedBy id).length ≤ 1) ∧
    ∀ id t, s.claimedBy id = some t →
      ¬Running s id ∧
      (∀ u batch stage, s.tasks u = .reload id batch stage → stage.underway = false) ∧
      (s.sessions.get id = none → ∃ u, s.removedBy id = [u]) ∧
      (Returned (s.tasks t) → ∀ s', StepsWhile m.step (fun _ => True) s s' → TornDown s' id) := by
  refine ⟨(conserved_reach h).once, fun id session runtime hs hr =>
    (listed_upheld h id).1 session runtime hs hr, fun id => ?_, fun id t hc => ?_⟩
  · have hclaimed := claimed_reach h id
    cases hcl : s.claimedBy id with
    | none =>
      rw [hclaimed.unclaimed hcl]
      exact Nat.zero_le _
    | some t =>
      cases hl : lifecycle s id with
      | some state =>
        rw [hclaimed.present (by rw [hl]; rfl)]
        exact Nat.zero_le _
      | none =>
        obtain ⟨u, hu⟩ := hclaimed.removed (by rw [hcl]; rfl) hl
        rw [hu]
        exact Nat.le_refl _
  · have hclaimed := claimed_reach h id
    refine ⟨fun hrun => ?_, fun u batch stage hpc => claimed_reload h hc hpc, fun hnone => ?_,
      fun hret s' hrun => ?_⟩
    · rw [hclaimed.running (running_iff.mp hrun)] at hc
      cases hc
    · exact hclaimed.removed (by rw [hc]; rfl) (lifecycle_none.mpr hnone)
    · have hlater : s'.claimedBy id = some t ∧ Returned (s'.tasks t) := by
        induction hrun with
        | refl => exact ⟨hc, hret⟩
        | tail before hd hstep ih =>
          have ho := step_outcome hstep
          refine ⟨claim_stays ho ih.1, ?_⟩
          rw [returned_stays (exclusive_reach (before.reach h)) ho ih.2]
          exact ih.2
      exact torn_down (hrun.reach h) hlater.1 hlater.2

/-- The sample session is stopped, and its runtime ends. -/
def sampleStop : List (Action Text) :=
  sampleCreation ++ [.stop sampleCall.id] ++ List.replicate 4 (.advance 1 sampleEnvironment) ++
    [.runtime 0 .leave, .runtime 0 .drained, .runtime 0 .readRetired, .runtime 0 .decideExit,
      .runtime 0 .sendExit, .runtime 0 .finish] ++
    List.replicate 3 (.advance 1 sampleEnvironment)

def sampleReturned (s : State Text) : Bool :=
  match s.tasks 1 with
  | .teardown _ _ (.done _) => true
  | _ => false

theorem sample_returned {s : State Text} (h : sampleReturned s = true) : Returned (s.tasks 1) := by
  unfold sampleReturned at h
  split at h
  · rename_i hpc
    rw [hpc]
    trivial
  · cases h

theorem teardown_once_sample :
    ∃ s, runSteps sampleManager.step sampleStop State.init = some s ∧
      s.claimedBy sampleCall.id = some 1 ∧ Returned (s.tasks 1) ∧ TornDown s sampleCall.id := by
  have hrun : (runSteps sampleManager.step sampleStop State.init).any (fun s =>
      s.claimedBy sampleCall.id == some 1 && sampleReturned s) = true := by decide
  obtain ⟨s, hs, htest⟩ := run_any hrun
  simp only [Bool.and_eq_true, beq_iff_eq] at htest
  have hret := sample_returned htest.2
  exact ⟨s, hs, htest.1, hret,
    ((teardown_once (reach_run .start hs)).2.2.2 _ _ htest.1).2.2.2 hret s (.refl s)⟩

end Proofs

end Baffle
