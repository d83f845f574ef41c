import Baffle.Proofs.Generations

namespace Baffle

namespace Proofs

variable {P : Type} {c c' : RuntimeCell}

/-- The generations that open connections hold, the one being accepted included. -/
def heldByConnections (c : RuntimeCell) : Finset Nat :=
  pinned c ∪ match c.acceptor with
    | .holding _ generation => {generation.serial}
    | _ => ∅

theorem alive_iff {serial : Nat} : c.alive serial = true ↔
    serial ∈ insert c.current.serial (heldByConnections c) := by
  simp only [RuntimeCell.alive, heldByConnections, pinned, Bool.or_eq_true, beq_iff_eq,
    List.any_eq_true, Finset.mem_insert, Finset.mem_union, List.mem_toFinset, List.mem_map]
  cases c.acceptor with
  | holding since generation =>
    simp only [beq_iff_eq, Finset.mem_singleton, eq_comm (a := serial), or_assoc]
  | _ => simp only [Bool.false_eq_true, Finset.notMem_empty, eq_comm (a := serial), or_assoc]

/-- The weak references are to different generations, all of them older than the next one. -/
structure Numbered (c : RuntimeCell) : Prop where
  distinct : c.generations.Nodup
  older : ∀ serial ∈ c.generations, serial < c.nextSerial

theorem Numbered.same (h : Numbered c) (hg : c'.generations = c.generations)
    (hn : c'.nextSerial = c.nextSerial) : Numbered c' where
  distinct := by
    rw [hg]
    exact h.distinct
  older := by
    rw [hg, hn]
    exact h.older

theorem Numbered.replaced (h : Numbered c) {pair : PolicyPair}
    (hc : c.replaceGeneration pair = some c') : Numbered c' := by
  rw [Proofs.replaced hc]
  refine ⟨?_, ?_⟩
  · refine List.nodup_append.mpr ⟨h.distinct.filter _, List.nodup_singleton _, ?_⟩
    intro a ha b hb
    have hlt := h.older a (List.mem_filter.mp ha).1
    rw [List.mem_singleton.mp hb]
    omega
  · intro serial hm
    show serial < c.nextSerial + 1
    rcases List.mem_append.mp hm with hm | hm
    · have hlt := h.older serial (List.mem_filter.mp hm).1
      omega
    · rw [List.mem_singleton.mp hm]
      omega

theorem Lived.numbered (h : Lived c) : Numbered c := by
  induction h with
  | start id generation semaphore pair =>
    refine ⟨List.nodup_singleton 0, fun serial hm => ?_⟩
    rw [List.mem_singleton.mp hm]
    exact Nat.zero_lt_one
  | moved _ hm ih => cases hm <;> exact ih.same rfl rfl
  | replaced _ hc ih => exact ih.replaced hc
  | handled _ hh ih => cases hh <;> exact ih.same rfl rfl

/-- What `replaceGeneration` counts. -/
theorem alive_count (h : Lived c) : (c.generations.filter c.alive).length =
    (insert c.current.serial (heldByConnections c)).card := by
  have hr := h.referenced
  rw [← List.toFinset_card_of_nodup (h.numbered.distinct.filter _)]
  congr 1
  ext serial
  rw [List.mem_toFinset, List.mem_filter, alive_iff]
  refine and_iff_right_of_imp fun hm => ?_
  simp only [heldByConnections, pinned, Finset.mem_insert, Finset.mem_union, List.mem_toFinset,
    List.mem_map] at hm
  rcases hm with rfl | ⟨connection, hmem, rfl⟩ | hm
  · exact hr.current
  · exact hr.connections connection hmem
  · cases ha : c.acceptor with
    | holding since generation =>
      rw [ha, Finset.mem_singleton] at hm
      rw [hm]
      exact hr.holding since generation ha
    | _ =>
      rw [ha] at hm
      exact absurd hm (Finset.notMem_empty serial)

theorem limit_iff (h : Lived c) (pair : PolicyPair) : c.replaceGeneration pair = none ↔
    maxPolicyGenerations ≤ (insert c.current.serial (heldByConnections c)).card := by
  rw [← alive_count h]
  unfold RuntimeCell.replaceGeneration
  dsimp only
  split
  · rename_i hle
    exact ⟨fun _ => hle, fun _ => rfl⟩
  · rename_i hlt
    exact ⟨fun he => (by cases he), fun hle => absurd hle hlt⟩

/-- The generation limit is reported only where installing the new generation
would leave more than eight alive. -/
def NoSpuriousLimit (c : RuntimeCell) : Prop :=
  ∀ pair, c.replaceGeneration pair = none →
    maxPolicyGenerations < (heldByConnections c).card + 1

/-- In every history of a runtime the limit is right exactly if a connection
holds the generation that is superseded, or the connections do not hold seven. -/
theorem spurious_limit (c : RuntimeCell) (h : Lived c) :
    NoSpuriousLimit c ↔
      c.current.serial ∈ heldByConnections c ∨ (heldByConnections c).card + 1 ≠ maxPolicyGenerations := by
  have hlimit := limit_iff h
  by_cases hm : c.current.serial ∈ heldByConnections c
  · rw [Finset.insert_eq_of_mem hm] at hlimit
    refine iff_of_true (fun pair hnone => ?_) (Or.inl hm)
    have hle := (hlimit pair).mp hnone
    omega
  · rw [Finset.card_insert_of_notMem hm] at hlimit
    constructor
    · intro hsound
      refine Or.inr fun hcard => ?_
      have hlt := hsound c.current.pair ((hlimit _).mpr (Nat.le_of_eq hcard.symm))
      omega
    · intro hor pair hnone
      have hle := (hlimit pair).mp hnone
      have hne := hor.resolve_left hm
      omega

/-- One connection in each of seven generations, and an eighth that no connection holds. -/
def seventhRun : List (Action Text) :=
  .create busyCall :: List.replicate 3 (.advance 0 sampleEnvironment) ++ openConnection 0 ++
    reloadAndOpen 1 7 "one.sock" "tunnel" 0 ++ reloadAndOpen 2 7 "one.sock" "deny" 0 ++
    reloadAndOpen 3 7 "one.sock" "tunnel" 0 ++ reloadAndOpen 4 7 "one.sock" "deny" 0 ++
    reloadAndOpen 5 7 "one.sock" "tunnel" 0 ++ reloadAndOpen 6 7 "one.sock" "deny" 0 ++
    .reload busyCall.id :: List.replicate 7 (.advance 7 (busyEnvironment "one.sock" "tunnel"))

/-- The next reload would leave the seven and the new one, and is turned down. -/
theorem spurious_limit_seven :
    ¬∀ s r, Reach busyManager.step State.init s → r < s.nextCell → NoSpuriousLimit (s.cells r) := by
  intro hall
  have hrun : (runSteps busyManager.step seventhRun State.init).any (fun s =>
      decide (0 < s.nextCell) && (heldByConnections (s.cells 0)).card == 7
        && (s.cells 0).replaceGeneration (s.cells 0).current.pair == none) = true := by
    decide +kernel
  obtain ⟨s, hs, htest⟩ := run_any hrun
  simp only [Bool.and_eq_true, decide_eq_true_eq, beq_iff_eq] at htest
  obtain ⟨⟨hlt, hseven⟩, hnone⟩ := htest
  have hbound := hall s 0 (reach_run .start hs) hlt _ hnone
  rw [hseven] at hbound
  exact absurd hbound (by decide)

/-- With a connection in the eighth generation too, eight would stay and the limit is right. -/
theorem spurious_limit_sample :
    (∃ s, Reach busyManager.step State.init s ∧ (heldByConnections (s.cells 0)).card = 7 ∧
      ¬NoSpuriousLimit (s.cells 0)) ∧
    ∃ s, Reach busyManager.step State.init s ∧ (heldByConnections (s.cells 0)).card = 8 ∧
      (s.cells 0).replaceGeneration (s.cells 0).current.pair = none ∧
      NoSpuriousLimit (s.cells 0) := by
  constructor
  · have hrun : (runSteps busyManager.step seventhRun State.init).any (fun s =>
        decide (0 < s.nextCell) && (heldByConnections (s.cells 0)).card == 7
          && decide ((s.cells 0).current.serial ∉ heldByConnections (s.cells 0))) = true := by
      decide +kernel
    obtain ⟨s, hs, htest⟩ := run_any hrun
    simp only [Bool.and_eq_true, decide_eq_true_eq, beq_iff_eq] at htest
    obtain ⟨⟨hlt, hseven⟩, hfree⟩ := htest
    have hreach := reach_run .start hs
    refine ⟨s, hreach, hseven, fun hsound => ?_⟩
    rcases (spurious_limit _ (all_lived_reach hreach 0 hlt)).mp hsound with hm | hne
    · exact hfree hm
    · rw [hseven] at hne
      exact hne rfl
  · have hrun : (runSteps busyManager.step (seventhRun ++ openConnection 0) State.init).any
        (fun s => decide (0 < s.nextCell) && (heldByConnections (s.cells 0)).card == 8
          && decide ((s.cells 0).current.serial ∈ heldByConnections (s.cells 0))
          && (s.cells 0).replaceGeneration (s.cells 0).current.pair == none) = true := by
      decide +kernel
    obtain ⟨s, hs, htest⟩ := run_any hrun
    simp only [Bool.and_eq_true, decide_eq_true_eq, beq_iff_eq] at htest
    obtain ⟨⟨⟨hlt, height⟩, hheld⟩, hnone⟩ := htest
    have hreach := reach_run .start hs
    exact ⟨s, hreach, height, hnone,
      (spurious_limit _ (all_lived_reach hreach 0 hlt)).mpr (Or.inl hheld)⟩

end Proofs

end Baffle
