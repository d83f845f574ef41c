import Baffle.Proofs.Constants
import Baffle.Proofs.Lifetimes

namespace Baffle

namespace Proofs

variable {P : Type} {m : SessionManager P} {t : TaskId} {s s' : State P} {pc pc' : Pc P}
  {id : SessionId}

/-- The generations that open connections of a runtime hold. -/
def pinned (c : RuntimeCell) : Finset Nat :=
  (c.connections.map (fun connection => connection.generation.serial)).toFinset

/-- The weak references of a runtime: every generation in use is among them. -/
structure Referenced (c : RuntimeCell) : Prop where
  few : c.generations.length ≤ maxPolicyGenerations
  current : c.current.serial ∈ c.generations
  holding : ∀ since generation, c.acceptor = .holding since generation →
    generation.serial ∈ c.generations
  connections : ∀ connection ∈ c.connections, connection.generation.serial ∈ c.generations

theorem Referenced.same {c c' : RuntimeCell} (h : Referenced c)
    (hg : c'.generations = c.generations) (hcur : c'.current = c.current)
    (hacc : c'.acceptor = c.acceptor) (hconn : c'.connections = c.connections) :
    Referenced c' where
  few := by
    rw [hg]
    exact h.few
  current := by
    rw [hg, hcur]
    exact h.current
  holding := by
    rw [hg, hacc]
    exact h.holding
  connections := by
    rw [hg, hconn]
    exact h.connections

theorem referenced_start (generation : Nat) (semaphore : SemaphoreRef) (pair : PolicyPair) :
    Referenced (RuntimeCell.start id generation semaphore pair) :=
  ⟨Nat.le_add_left 1 7, List.mem_singleton_self _, fun _ _ h => (by cases h), fun _ h => (by cases h)⟩

/-- What is held stays referenced, and there is room for the new generation. -/
theorem Referenced.replaced {c c' : RuntimeCell} {pair : PolicyPair} (h : Referenced c)
    (hc : c.replaceGeneration pair = some c') : Referenced c' := by
  have heq := Proofs.replaced hc
  have hroom : (c.generations.filter c.alive).length < maxPolicyGenerations := by
    unfold RuntimeCell.replaceGeneration at hc
    dsimp only at hc
    split at hc
    · cases hc
    · rename_i hlt
      exact Nat.lt_of_not_le hlt
  have hkeep : ∀ {serial}, serial ∈ c.generations → c.alive serial = true →
      serial ∈ c'.generations := by
    intro serial hmem halive
    rw [heq]
    exact List.mem_append_left _ (List.mem_filter.mpr ⟨hmem, halive⟩)
  refine ⟨?_, ?_, ?_, ?_⟩
  · rw [heq]
    simp only [List.length_append, List.length_singleton]
    omega
  · rw [heq]
    simp
  · intro since generation hacc
    rw [heq] at hacc
    have hacc : c.acceptor = .holding since generation := hacc
    apply hkeep (h.holding since generation hacc)
    simp [RuntimeCell.alive, hacc]
  · intro connection hmem
    rw [heq] at hmem
    apply hkeep (h.connections connection hmem)
    have hany : c.connections.any
        (fun d => d.generation.serial == connection.generation.serial) = true :=
      List.any_eq_true.mpr ⟨connection, hmem, by simp⟩
    simp [RuntimeCell.alive, hany]

theorem referenced_moved {gate now : Nat} {c c' : RuntimeCell} {sent : List ProxyRuntimeEvent}
    (h : Referenced c) (hm : CellMove gate now c c' sent) : Referenced c' := by
  cases hm with
  | accepted | shutOut | admitted | turnedAway =>
    exact ⟨h.few, h.current, fun _ _ hacc => (by cases hacc), h.connections⟩
  | borrowed since ha =>
    refine ⟨h.few, h.current, fun since' generation hacc => ?_, h.connections⟩
    cases hacc
    exact h.current
  | dispatched since generation ha =>
    refine ⟨h.few, h.current, fun _ _ hacc => (by cases hacc), fun connection hmem => ?_⟩
    rcases List.mem_cons.mp hmem with rfl | hmem
    · exact h.holding since generation ha
    · exact h.connections connection hmem
  | closed i =>
    exact ⟨h.few, h.current, h.holding, fun connection hmem =>
      h.connections connection (List.mem_of_mem_eraseIdx hmem)⟩
  | ended hp => exact ⟨h.few, h.current, h.holding, fun _ hmem => (by cases hmem)⟩
  | left | checked | reporting | silent | reported | finished =>
    exact h.same rfl rfl rfl rfl

/-- In every history of a runtime, the generations in use are referenced. -/
theorem Lived.referenced {c : RuntimeCell} (h : Lived c) : Referenced c := by
  induction h with
  | start id generation semaphore pair => exact referenced_start generation semaphore pair
  | moved _ hm ih => exact referenced_moved ih hm
  | replaced _ hc ih => exact ih.replaced hc
  | handled _ hh ih => cases hh <;> exact ih.same rfl rfl rfl rfl

/-- The references of every runtime. -/
def AllReferenced (s : State P) : Prop := ∀ r, r < s.nextCell → Referenced (s.cells r)

theorem all_referenced_reach [DecidableEq P] (h : Reach m.step State.init s) : AllReferenced s :=
  fun r hr => (all_lived_reach h r hr).referenced

theorem pinned_subset {c : RuntimeCell} (h : Referenced c) : pinned c ⊆ c.generations.toFinset := by
  intro serial hmem
  rw [pinned, List.mem_toFinset] at hmem
  obtain ⟨connection, hc, rfl⟩ := List.mem_map.mp hmem
  exact List.mem_toFinset.mpr (h.connections connection hc)

theorem pinned_few {c : RuntimeCell} (h : Referenced c) :
    (pinned c).card ≤ maxPolicyGenerations :=
  (Finset.card_le_card (pinned_subset h)).trans
    ((List.toFinset_card_le _).trans h.few)

/-- The generation that is selected next is referenced too. -/
theorem pinned_former {c : RuntimeCell} (h : Referenced c) :
    ((pinned c).erase c.current.serial).card + 1 ≤ maxPolicyGenerations := by
  have hsub : (pinned c).erase c.current.serial ⊆ c.generations.toFinset.erase c.current.serial :=
    Finset.erase_subset_erase _ (pinned_subset h)
  have hcard := Finset.card_le_card hsub
  have hmem : c.current.serial ∈ c.generations.toFinset := List.mem_toFinset.mpr h.current
  rw [Finset.card_erase_of_mem hmem] at hcard
  have hpos : 0 < c.generations.toFinset.card := Finset.card_pos.mpr ⟨_, hmem⟩
  have hle := (List.toFinset_card_le c.generations).trans h.few
  omega

/-- The listener that a reload is about to put among the retired ones. -/
def leaving (id : SessionId) : Pc P → List (ProxyRuntime P)
  | .reload j _ (.marked _ _ oldRuntime) | .reload j _ (.gated _ _ oldRuntime) =>
    if j = id then [oldRuntime] else []
  | _ => []

/-- A reload that has found room for one more superseded listener. -/
def superseding : Pc P → Bool
  | .reload _ _ (.start ..) | .reload _ _ (.commit ..) | .reload _ _ (.marked ..)
  | .reload _ _ (.gated ..) => true
  | _ => false

def Spacious (id : SessionId) (s : State P) (pc : Pc P) : Prop :=
  superseding pc = true → ∀ session, s.sessions.get id = some session →
    session.retiredRuntimes.length < maxRetiredListeners

theorem spacious_other (h : superseding pc = false) : Spacious id s pc := by
  intro hs
  rw [h] at hs
  cases hs

def FewRetired (id : SessionId) (s : State P) : Prop :=
  ∀ session, s.sessions.get id = some session →
    session.retiredRuntimes.length ≤ maxRetiredListeners

/-- No session gets more retired listeners. -/
def Shrinks (id : SessionId) (s s' : State P) : Prop :=
  ∀ session', s'.sessions.get id = some session' → ∃ session, s.sessions.get id = some session ∧
    session'.retiredRuntimes.length ≤ session.retiredRuntimes.length

theorem FewRetired.shrinks (h : FewRetired id s) (hs : Shrinks id s s') : FewRetired id s' := by
  intro session' hget
  obtain ⟨session, hold, hle⟩ := hs session' hget
  exact hle.trans (h session hold)

theorem Spacious.shrinks (h : Spacious id s pc) (hs : Shrinks id s s') : Spacious id s' pc := by
  intro hpc session' hget
  obtain ⟨session, hold, hle⟩ := hs session' hget
  exact hle.trans_lt (h hpc session hold)

theorem Frame.shrinks (hf : Frame id s s') : Shrinks id s s' := by
  intro session' hs'
  obtain ⟨session, hs, hk⟩ := hf.back hs'
  exact ⟨session, hs, hk.retired.length_le⟩

theorem shrinks_same (h : s'.sessions = s.sessions) : Shrinks id s s' := by
  intro session hs
  exact ⟨session, h ▸ hs, Nat.le_refl _⟩

theorem shrinks_written {old new : ManagedSession P} (hs : s.sessions.get id = some old)
    (hget : s'.sessions = s.sessions.insert id new)
    (hle : new.retiredRuntimes.length ≤ old.retiredRuntimes.length) : Shrinks id s s' := by
  intro session' hs'
  rw [hget, SortedMap.get_insert_self] at hs'
  cases hs'
  exact ⟨old, hs, hle⟩

theorem Between.spacious (h : Between pc) : Spacious id s pc :=
  spacious_other (by cases h <;> rfl)

theorem retain_length (session : ManagedSession P) (keep : ProxyRuntime P → Bool) :
    (session.retain keep).retiredRuntimes.length ≤ session.retiredRuntimes.length :=
  List.length_filter_le _ _

theorem retired_reload {batch : Option Batch} {stage stage' : ReloadStage P}
    (hr : FewRetired id s) (ha : Spacious id s (.reload id batch stage))
    (hm : ReloadMove m s id stage s' stage') :
    FewRetired id s' ∧ Spacious id s' (.reload id batch stage') := by
  cases hm with
  | turnedDown session hs | begun session hs | limited target session hs =>
    refine ⟨hr.shrinks (shrinks_written hs (by rfl) ?_), spacious_other rfl⟩
    exact retain_length session _
  | withinLimits target hacc session hs runtime hruntime hroom =>
    refine ⟨hr.shrinks (shrinks_written hs (by rfl) (retain_length session _)), ?_⟩
    intro _ session' hs'
    simp only [reaped, State.setSession, SortedMap.get_insert_self] at hs'
    cases hs'
    exact hroom
  | sameCommitted target hacc session hs =>
    have hsh : Shrinks id s (s.setSession id (SessionManager.refreshed target session)) :=
      shrinks_written hs rfl (Nat.le_refl _)
    exact ⟨hr.shrinks hsh, spacious_other rfl⟩
  | replacing target options => exact ⟨hr, ha⟩
  | vacant target options replacement session hs =>
    have hsh : Shrinks id s (s.setSession id { session with runtime := none }) :=
      shrinks_written hs rfl (Nat.le_refl _)
    exact ⟨hr.shrinks hsh, spacious_other rfl⟩
  | switched target options replacement hacc session hs hstate oldRuntime hruntime =>
    have hsh : Shrinks id s (s.setSession id (m.switched target options replacement session)) :=
      shrinks_written hs rfl (Nat.le_refl _)
    have hspace : Spacious id s (.reload id batch (.marked target options oldRuntime)) := ha
    exact ⟨hr.shrinks hsh, hspace.shrinks hsh⟩
  | gateStored target options oldRuntime => exact ⟨hr, ha⟩
  | retired target options oldRuntime session hs =>
    refine ⟨fun session' hs' => ?_, spacious_other rfl⟩
    simp only [State.setSession, SortedMap.get_insert_self] at hs'
    cases hs'
    have hlt := ha rfl session hs
    show (session.retiredRuntimes ++ [oldRuntime]).length ≤ _
    rw [List.length_append]
    exact hlt
  | _ => exact ⟨hr, spacious_other rfl⟩

theorem retired_move (hnone : ∀ call stage, pc = .create call stage → s.sessions.get id = none)
    (hh : pc.holds = some id) (hr : FewRetired id s) (ha : Spacious id s pc)
    (hm : Move m t s pc s' pc') : FewRetired id s' ∧ Spacious id s' pc' := by
  cases hm with
  | create call h =>
    obtain rfl := Pc.holds_create hh
    have hn := hnone call _ rfl
    refine ⟨?_, spacious_other rfl⟩
    cases h with
    | registered runtime hacc =>
      intro session hs
      simp only [State.setSession, SortedMap.get_insert_self] at hs
      cases hs
      exact Nat.zero_le _
    | _ => exact hr
  | reload j batch h =>
    obtain rfl := Pc.holds_reload hh
    exact retired_reload hr ha h
  | reloadReturned j batch result => exact ⟨hr, (after_reload_between batch result).spacious⟩
  | teardown kind j h =>
    obtain rfl := Pc.holds_teardown hh
    refine ⟨hr.shrinks ?_, spacious_other rfl⟩
    cases h with
    | forgotten generation hk session hs =>
      refine shrinks_written hs (by rfl) ?_
      exact retain_length session _
    | claimed session hs => exact shrinks_written hs (by rfl) (Nat.zero_le _)
    | removed session hs =>
      intro session' hs'
      simp [SessionManager.removeEntry] at hs'
    | _ => exact shrinks_same rfl
  | sweep h =>
    cases h with
    | claimed j ids runtimes count session hs =>
      cases hh
      exact ⟨hr.shrinks (shrinks_written hs (by rfl) (Nat.zero_le _)), spacious_other rfl⟩
    | gone => exact ⟨hr, spacious_other rfl⟩
    | _ => cases hh
  | unknown | found | locked | reloadAll | rejected | listed => cases hh

theorem retired_upheld [DecidableEq P] (h : Reach m.step State.init s) (id : SessionId) :
    Upheld FewRetired Spacious id s := by
  refine session_rule ?_ ?_ ?_ ?_ ?_ ?_ h id
  · intro id session hs
    cases hs
  · intro id s s' _ hf hr
    exact hr.shrinks hf.shrinks
  · intro id s s' t _ _ _ hf ha
    exact ha.shrinks hf.shrinks
  · intro id s s' pc _ hen _ _ _
    cases hen <;> exact spacious_other rfl
  · intro id s s' t pc hreach hh hr ha hm
    have hnone : ∀ call stage, s.tasks t = .create call stage → s.sessions.get id = none :=
      fun call stage hpc => unregistered (exclusive_reach hreach) hpc hh
    obtain ⟨hr', ha'⟩ := retired_move hnone hh hr ha hm
    exact ⟨hr', ha'.shrinks (shrinks_same rfl)⟩
  · intro id s t _ _ _ _ hr _
    exact hr.shrinks (shrinks_same rfl)

theorem leaving_length (id : SessionId) (pc : Pc P) : (leaving id pc).length ≤ 1 := by
  unfold leaving
  split <;> (try split) <;> simp

theorem leaving_cases {runtime : ProxyRuntime P} (h : runtime ∈ leaving id pc) :
    ∃ batch target options, pc = .reload id batch (.marked target options runtime) ∨
      pc = .reload id batch (.gated target options runtime) := by
  unfold leaving at h
  split at h
  · split at h
    · rename_i hj
      rw [List.mem_singleton.mp h, ← hj]
      exact ⟨_, _, _, Or.inl rfl⟩
    · cases h
  · split at h
    · rename_i hj
      rw [List.mem_singleton.mp h, ← hj]
      exact ⟨_, _, _, Or.inr rfl⟩
    · cases h
  · cases h

/-- Only the call that holds the session's lock puts a listener away. -/
theorem leaving_holds {runtime : ProxyRuntime P} (h : runtime ∈ leaving id pc) :
    pc.holds = some id ∧ superseding pc = true ∧ (id, runtime) ∈ pc.handles := by
  obtain ⟨batch, target, options, rfl | rfl⟩ := leaving_cases h
  · exact ⟨Pc.holds_of_serial rfl, rfl, List.mem_singleton_self _⟩
  · exact ⟨Pc.holds_of_serial rfl, rfl, List.mem_singleton_self _⟩

/-- The listeners of a session that are no longer current, among them the one
that a reload is putting away. -/
def superseded (s : State P) (id : SessionId) (session : ManagedSession P) :
    List (ProxyRuntime P) :=
  session.retiredRuntimes ++ (List.range s.nextTask).flatMap (fun t => leaving id (s.tasks t))

/-- The generations of the current listener that new connections no longer get. -/
def former (c : RuntimeCell) : Finset Nat := (pinned c).erase c.current.serial

/-- The superseded generations that open connections of the session hold. -/
def heldGenerations (s : State P) (id : SessionId) (session : ManagedSession P) : Nat :=
  (session.runtime.elim 0 (fun runtime => (former (s.cells runtime.cell)).card)) +
    ((superseded s id session).map (fun runtime => (pinned (s.cells runtime.cell)).card)).sum

/-- A sum with at most one summand that is not zero. -/
theorem sum_at_most_one {l : List Nat} (hl : l.Nodup) {f : Nat → Nat} (hf : ∀ a, f a ≤ 1)
    (hu : ∀ a b, 0 < f a → 0 < f b → a = b) : (l.map f).sum ≤ 1 := by
  induction l with
  | nil => exact Nat.zero_le 1
  | cons a l ih =>
    obtain ⟨ha, hl⟩ := List.nodup_cons.mp hl
    rw [List.map_cons, List.sum_cons]
    rcases Nat.eq_zero_or_pos (f a) with hz | hpos
    · have := ih hl
      omega
    · have hrest : (l.map f).sum = 0 := by
        apply List.sum_eq_zero
        intro n hn
        obtain ⟨b, hb, rfl⟩ := List.mem_map.mp hn
        by_contra hne
        have hab := hu a b hpos (Nat.pos_of_ne_zero hne)
        exact ha (hab ▸ hb)
      have := hf a
      omega

theorem one_leaving (hx : Exclusive s) (id : SessionId) :
    ((List.range s.nextTask).flatMap (fun t => leaving id (s.tasks t))).length ≤ 1 := by
  rw [List.length_flatMap]
  refine sum_at_most_one List.nodup_range (fun t => leaving_length id _) (fun t u ht hu => ?_)
  obtain ⟨runtime, hr⟩ := List.exists_mem_of_length_pos ht
  obtain ⟨runtime', hr'⟩ := List.exists_mem_of_length_pos hu
  exact hx.unique t u id (leaving_holds hr).1 (leaving_holds hr').1

theorem superseded_few [DecidableEq P] (h : Reach m.step State.init s)
    {session : ManagedSession P} (hs : s.sessions.get id = some session) :
    (superseded s id session).length ≤ maxRetiredListeners := by
  obtain ⟨hr, ha⟩ := retired_upheld h id
  rw [superseded, List.length_append]
  rcases Nat.eq_zero_or_pos
    ((List.range s.nextTask).flatMap (fun t => leaving id (s.tasks t))).length with hz | hpos
  · rw [hz]
    exact hr session hs
  · obtain ⟨runtime, hmem⟩ := List.exists_mem_of_length_pos hpos
    obtain ⟨t, -, hmem⟩ := List.mem_flatMap.mp hmem
    obtain ⟨hh, hroom, -⟩ := leaving_holds hmem
    have hlt := ha t hh hroom session hs
    have hone := one_leaving (exclusive_reach h) id
    omega

theorem superseded_has {session : ManagedSession P} (hs : s.sessions.get id = some session)
    {runtime : ProxyRuntime P} (hmem : runtime ∈ superseded s id session) :
    ∃ t, Has s (s.tasks t) id runtime := by
  rcases List.mem_append.mp hmem with hr | hl
  · exact ⟨0, Or.inl ⟨session, hs, mem_runtimes.mpr (Or.inl hr)⟩⟩
  · obtain ⟨t, -, hl⟩ := List.mem_flatMap.mp hl
    exact ⟨t, Or.inr (leaving_holds hl).2.2⟩

/-- Each listener keeps at most eight generations, the current one never more
than seven besides the one it selects, and at most eight listeners are superseded. -/
theorem generation_limits [DecidableEq P] {m : SessionManager P} {s : State P} {id : SessionId}
    {session : ManagedSession P} (h : Reach m.step State.init s)
    (hs : s.sessions.get id = some session) :
    (∀ runtime, session.runtime = some runtime →
      (former (s.cells runtime.cell)).card < maxPolicyGenerations) ∧
    (∀ runtime ∈ superseded s id session,
      (pinned (s.cells runtime.cell)).card ≤ maxPolicyGenerations) ∧
    (superseded s id session).length ≤ maxRetiredListeners ∧
    heldGenerations s id session < maxPolicyGenerations * (maxRetiredListeners + 1) := by
  have href := all_referenced_reach h
  have hlink := linked_reach h
  have hcurrent : ∀ runtime, session.runtime = some runtime →
      (former (s.cells runtime.cell)).card < maxPolicyGenerations := by
    intro runtime hruntime
    have hcell := (hlink.session hs (mem_runtimes.mpr (Or.inr hruntime))).1
    exact pinned_former (href runtime.cell hcell)
  have hretired : ∀ runtime ∈ superseded s id session,
      (pinned (s.cells runtime.cell)).card ≤ maxPolicyGenerations := by
    intro runtime hmem
    obtain ⟨t, hh⟩ := superseded_has hs hmem
    exact pinned_few (href runtime.cell (hlink t id runtime hh).1)
  have hfew := superseded_few h hs
  refine ⟨hcurrent, hretired, hfew, ?_⟩
  have hsum : ((superseded s id session).map
      (fun runtime => (pinned (s.cells runtime.cell)).card)).sum ≤
        (superseded s id session).length * maxPolicyGenerations := by
    rw [← List.length_map (fun runtime => (pinned (s.cells runtime.cell)).card),
      ← smul_eq_mul]
    apply List.sum_le_card_nsmul
    intro n hn
    obtain ⟨runtime, hmem, rfl⟩ := List.mem_map.mp hn
    exact hretired runtime hmem
  have hbound := hsum.trans (Nat.mul_le_mul_right maxPolicyGenerations hfew)
  have hfirst : (session.runtime.elim 0
      (fun runtime => (former (s.cells runtime.cell)).card)) < maxPolicyGenerations := by
    cases hruntime : session.runtime with
    | none => exact Nat.zero_lt_succ 7
    | some runtime => exact hcurrent runtime hruntime
  unfold heldGenerations
  simp only [maxPolicyGenerations, maxRetiredListeners] at hbound hfirst ⊢
  omega

/-- The number of superseded generations that the sample session holds. -/
def busyCount (s : State Text) : Nat :=
  (s.sessions.get busyCall.id).elim 0 (heldGenerations s busyCall.id)

/-- Eight generations of the superseded listener and one of the current one. -/
theorem busy_session :
    ∃ s session, Reach busyManager.step State.init s ∧
      s.sessions.get busyCall.id = some session ∧ heldGenerations s busyCall.id session = 9 := by
  have hrun : (runSteps busyManager.step busyRun State.init).any
      (fun s => busyCount s == 9) = true := by decide +kernel
  obtain ⟨s, hs, htest⟩ := run_any hrun
  rw [beq_iff_eq, busyCount] at htest
  cases hget : s.sessions.get busyCall.id with
  | none =>
    rw [hget] at htest
    cases htest
  | some session =>
    rw [hget] at htest
    exact ⟨s, session, reach_run .start hs, hget, htest⟩

/-- A session may hold more than eight superseded generations. -/
theorem generation_limits_exceeded :
    ¬ ∀ s session, Reach busyManager.step State.init s →
      s.sessions.get busyCall.id = some session →
        heldGenerations s busyCall.id session ≤ maxPolicyGenerations := by
  intro hall
  obtain ⟨s, session, hreach, hget, hnine⟩ := busy_session
  have hle := hall s session hreach hget
  rw [hnine] at hle
  exact absurd hle (by decide)

/-- The nine of the sample session are within the limits of its two listeners. -/
theorem generation_limits_busy :
    ∃ (s : State Text) (session : ManagedSession Text),
      s.sessions.get busyCall.id = some session ∧
      heldGenerations s busyCall.id session = 9 ∧
      (superseded s busyCall.id session).length ≤ maxRetiredListeners ∧
      heldGenerations s busyCall.id session < 72 := by
  obtain ⟨s, session, hreach, hget, hnine⟩ := busy_session
  obtain ⟨-, -, hfew, hlt⟩ := generation_limits hreach hget
  exact ⟨s, session, hget, hnine, hfew, hlt⟩

end Proofs

end Baffle
