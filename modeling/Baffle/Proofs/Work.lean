import Mathlib.Data.Prod.Lex
import Baffle.Lib.Termination
import Baffle.Proofs.Ownership

namespace Baffle

def Phase.work : Phase → Nat
  | .serving => 14
  | .draining => 13
  | .ended => 12
  | .checked _ => 11
  | .sending _ => 10
  | .exiting => 1
  | .finished => 0

def Acceptor.work : Acceptor → Nat
  | .idle => 0
  | .accepted _ => 4
  | .admitted _ => 3
  | .holding _ _ => 2

def RuntimeCell.work (cell : RuntimeCell) : Nat :=
  cell.phase.work + cell.acceptor.work + cell.connections.length + if cell.aborted then 0 else 1

/-- A runtime that was just started. -/
def freshWork : Nat := 15

/-- An exit event, which becomes a `runtime_exit` call. -/
def eventWork : Nat := 8

def TeardownStage.work {P : Type} : TeardownStage P → Nat
  | .lookup => 7
  | .lock => 6
  | .claim => 5
  | .shutdown _ => 4
  | .draining _ => 3
  | .finish => 2
  | .decrement => 1
  | .done _ => 0

def CreateStage.work {P : Type} : CreateStage P → Nat
  | .reserve => 4 + freshWork
  | .start => 3 + freshWork
  | .register _ => 2
  | .release _ => 1
  | .drop _ => 1
  | .done _ => 0

/-- The sessions that are left count four each, and those that were counted once. -/
def SweepStage.work {P : Type} : SweepStage P → Nat
  | .begin => 0
  | .next ids _ count => 4 * ids.length + count + 5
  | .lock _ ids _ count => 4 * ids.length + count + 8
  | .claim _ ids _ count => 4 * ids.length + count + 7
  | .draining _ count => count + 4
  | .clear count => count + 3
  | .decrement count => count + 1
  | .done => 0

def ReloadStage.work {P : Type} : ReloadStage P → Nat
  | .lookup => 11 + freshWork
  | .lock => 10 + freshWork
  | .begin => 9 + freshWork
  | .prepare _ => 8 + freshWork
  | .compare _ _ => 7 + freshWork
  | .limits _ => 6 + freshWork
  | .start _ _ => 5 + freshWork
  | .commit .. => 4
  | .marked .. => 3
  | .shutdown _ _ => 3
  | .gated .. => 2
  | .draining _ _ => 2
  | .commitSame _ => 2
  | .returning _ => 1

/-- The reloads that follow the current one. -/
def Batch.work (batch : Option Batch) : Nat :=
  (batch.elim 0 (fun batch => batch.rest.length)) * (11 + freshWork)

namespace Pc

variable {P : Type}

/-- Whether the call has still to look how many sessions there are. -/
def scans : Pc P → Nat
  | .reloadAll | .shutdownAll .begin => 1
  | _ => 0

def work : Pc P → Nat
  | .create _ stage => stage.work
  | .reload _ batch stage => stage.work + Batch.work batch
  | .teardown _ _ stage => stage.work
  | .shutdownAll stage => stage.work
  | .rejectNewSessions | .list => 1
  | _ => 0

end Pc

namespace Proofs

variable {P : Type} {m : SessionManager P} {t : TaskId} {s s' : State P} {pc pc' : Pc P}
  {id : SessionId}

def cellWork (s : State P) : Nat := ∑ r ∈ Finset.range s.nextCell, (s.cells r).work

/-- What is left to do for calls that know their sessions, and for runtimes. -/
def workLeft (s : State P) : Nat :=
  overCalls Pc.work s + cellWork s + eventWork * s.events.length

/-- The calls that have still to look at the registry come first. -/
def backlog (s : State P) : ℕ ×ₗ ℕ := toLex (overCalls Pc.scans s, workLeft s)

theorem create_work {call : CreateCall} {stage stage' : CreateStage P}
    (hm : CreateMove m s call stage s' stage') :
    stage'.work + freshWork * (s'.nextCell - s.nextCell) < stage.work := by
  cases hm <;>
    simp [CreateStage.work, freshWork, created, State.startRuntime, State.setCell,
      State.setSession, State.dropRuntimes]

theorem reload_work {stage stage' : ReloadStage P} (hm : ReloadMove m s id stage s' stage') :
    stage'.work + freshWork * (s'.nextCell - s.nextCell) < stage.work := by
  cases hm <;>
    simp [ReloadStage.work, freshWork, reaped, State.startRuntime, State.setCell,
      State.setSession, State.dropRuntimes, State.shutdownRuntimes, SessionManager.reloadGate]

theorem teardown_work {kind : TeardownKind} {stage stage' : TeardownStage P}
    (hm : TeardownMove t s kind id stage s' stage') :
    stage'.work < stage.work ∧ s'.nextCell = s.nextCell := by
  cases hm <;> exact ⟨by simp [TeardownStage.work], rfl⟩

theorem sweep_work {stage stage' : SweepStage P} (hm : SweepMove t s stage s' stage') :
    (stage = .begin ∨ stage'.work < stage.work) ∧ stage' ≠ .begin ∧ s'.nextCell = s.nextCell := by
  cases hm with
  | begun => exact ⟨Or.inl rfl, by rintro ⟨⟩, rfl⟩
  | _ =>
    refine ⟨Or.inr ?_, by rintro ⟨⟩, rfl⟩
    simp only [SweepStage.work, List.length_cons, List.length_nil]
    omega

theorem after_work (batch : Option Batch) (result : SessionReloadResult) :
    (SessionManager.afterReload batch result : Pc P).work < 1 + Batch.work batch := by
  unfold SessionManager.afterReload
  cases batch with
  | none => exact Nat.zero_lt_succ _
  | some batch =>
    dsimp only
    cases hrest : batch.rest with
    | nil => exact Nat.lt_of_lt_of_le Nat.zero_lt_one (Nat.le_add_right _ _)
    | cons next rest =>
      simp only [Pc.work, ReloadStage.work, Batch.work, Option.elim, hrest, List.length_cons,
        Nat.add_one_mul]
      omega

theorem Between.scans (h : Between pc) : pc.scans = 0 := by cases h <;> rfl

/-- A call looks for its sessions, or it has less to do than before, the runtime
that it may have started included. -/
theorem move_work (hm : Move m t s pc s' pc') :
    pc'.scans < pc.scans ∨
      pc'.scans = pc.scans ∧ pc'.work + freshWork * (s'.nextCell - s.nextCell) < pc.work := by
  cases hm with
  | create call hm => exact Or.inr ⟨rfl, create_work hm⟩
  | unknown j batch hs =>
    refine Or.inr ⟨(reload_lookup_between batch hs).scans, ?_⟩
    unfold SessionManager.reloadLookup
    rw [if_neg (by simp [SortedMap.contains, hs]), Nat.sub_self]
    cases batch with
    | none => exact Nat.zero_lt_succ _
    | some batch =>
      have hafter := after_work (P := P) (some batch)
        (.failed j batch.socket "session_unavailable")
      refine lt_of_lt_of_le hafter (Nat.add_le_add_right ?_ _)
      exact Nat.le_add_left 1 _
  | found j batch hs =>
    refine Or.inr ⟨rfl, ?_⟩
    simp only [Pc.work, ReloadStage.work, Nat.sub_self]
    omega
  | locked j batch hfree =>
    refine Or.inr ⟨rfl, ?_⟩
    simp only [Pc.work, ReloadStage.work, Nat.sub_self]
    omega
  | reload j batch hm =>
    refine Or.inr ⟨rfl, ?_⟩
    have hstage := reload_work hm
    simp only [Pc.work]
    omega
  | reloadReturned j batch result =>
    refine Or.inr ⟨(after_reload_between batch result).scans, ?_⟩
    rw [Nat.sub_self]
    exact after_work batch result
  | reloadAll => exact Or.inl (by rw [reload_all_between.scans]; exact Nat.zero_lt_one)
  | teardown kind j hm =>
    obtain ⟨hlt, hnext⟩ := teardown_work hm
    refine Or.inr ⟨rfl, ?_⟩
    rw [hnext, Nat.sub_self]
    exact hlt
  | sweep hm =>
    obtain ⟨hstage, hne, hnext⟩ := sweep_work hm
    rename_i stage stage'
    have hscans : (Pc.shutdownAll stage' : Pc P).scans = 0 := by
      cases stage' <;> first | rfl | exact absurd rfl hne
    rcases hstage with rfl | hlt
    · exact Or.inl (by rw [hscans]; exact Nat.zero_lt_one)
    · have hbegin : (Pc.shutdownAll stage : Pc P).scans = 0 := by
        cases stage <;> first | rfl | exact absurd hlt (Nat.not_lt_zero _)
      refine Or.inr ⟨hscans.trans hbegin.symm, ?_⟩
      rw [hnext, Nat.sub_self]
      exact hlt
  | rejected => exact Or.inr ⟨rfl, by rw [Nat.sub_self]; exact Nat.zero_lt_one⟩
  | listed answer =>
    refine Or.inr ⟨rfl, ?_⟩
    show 0 + freshWork * (s.nextCell - s.nextCell) < 1
    rw [Nat.sub_self]
    exact Nat.zero_lt_one

theorem Tended.work {c c' : RuntimeCell} (h : Tended c c') : c'.work ≤ c.work := by
  simp only [RuntimeCell.work, h.phase, h.acceptor, h.connections]
  cases ha : c.aborted with
  | false => split <;> simp
  | true => rw [h.aborted ha]

/-- The cells in use did not get more to do. -/
theorem cell_work_le (hn : s'.nextCell = s.nextCell)
    (hc : ∀ r < s.nextCell, (s'.cells r).work ≤ (s.cells r).work) : cellWork s' ≤ cellWork s := by
  unfold cellWork
  rw [hn]
  exact Finset.sum_le_sum (fun r hr => hc r (Finset.mem_range.mp hr))

theorem move_cell_work (hm : Move m t s pc s' pc') :
    cellWork s' ≤ cellWork s + freshWork * (s'.nextCell - s.nextCell) := by
  have htended := fun r (hr : r < s.nextCell) => (move_cells hm hr).work
  rcases move_started hm with hn | ⟨id, generation, permits, pair, -, hn, hcell⟩
  · exact (cell_work_le hn htended).trans (Nat.le_add_right _ _)
  · have hfresh : (s'.cells s.nextCell).work = freshWork := by rw [hcell]; rfl
    unfold cellWork
    rw [hn, Finset.sum_range_succ, hfresh, Nat.add_sub_cancel_left, Nat.mul_one]
    exact Nat.add_le_add_right
      (Finset.sum_le_sum (fun r hr => htended r (Finset.mem_range.mp hr))) _

theorem cell_work_at {r : RuntimeRef} (hr : r < s.nextCell) : cellWork s
    = (s.cells r).work + ∑ q ∈ (Finset.range s.nextCell).erase r, (s.cells q).work :=
  (Finset.add_sum_erase _ _ (Finset.mem_range.mpr hr)).symm

/-- One cell in use got less to do. -/
theorem cell_work_lt (s' : State P) (n : Nat) {r : RuntimeRef} (hr : r < s.nextCell)
    (hn : s'.nextCell = s.nextCell) (hlt : (s'.cells r).work + n < (s.cells r).work)
    (hother : ∀ q, q ≠ r → (s'.cells q).work ≤ (s.cells q).work) :
    cellWork s' + n < cellWork s := by
  have hrest : ∑ q ∈ (Finset.range s.nextCell).erase r, (s'.cells q).work
      ≤ ∑ q ∈ (Finset.range s.nextCell).erase r, (s.cells q).work :=
    Finset.sum_le_sum (fun q hq => hother q (Finset.ne_of_mem_erase hq))
  have hnew := cell_work_at (show r < s'.nextCell from hn ▸ hr)
  rw [hn] at hnew
  have hold := cell_work_at hr
  omega

end Proofs

end Baffle
