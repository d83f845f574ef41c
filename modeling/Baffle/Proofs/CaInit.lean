import Baffle.CaInit

namespace Baffle

/-- Nothing has been made yet. -/
def InitStage.early {D : Type} : InitStage D → Bool
  | .parents _ | .inspect .. | .generate => true
  | _ => false

/-- Inside `initialize_pair`. -/
def InitStage.building {D : Type} : InitStage D → Bool
  | .generate | .create .. | .write .. | .loadStaged | .identify _ | .link .. | .loadInstalled =>
    true
  | _ => false

namespace Proofs

variable {D : Type} {parent : CaTarget → D} {s s' : InitState D} {r q : RunId}
  {run run' other : InitRun D} {f f' : CaPath D → Option CaEntry}

def linkedPaths (linked : List LinkedTarget) : List (CaPath D) :=
  linked.map (fun l => .target l.target)

def temporaries (files : List (TemporaryFile D)) : List (CaPath D) := files.map .temporary

/-- The entries that a run has made and not removed. -/
def madeBy (run : InitRun D) : List (CaPath D) :=
  match run.stage with
  | .cleanUp files => temporaries files ++ linkedPaths run.linkedTargets
  | .rollBack linked => temporaries run.temporaryPaths ++ linkedPaths linked
  | .unlink target linked => temporaries run.temporaryPaths ++ .target target :: linkedPaths linked
  | .discard files => temporaries files
  | .returned true => linkedPaths run.linkedTargets
  | .returned false => []
  | _ => temporaries run.temporaryPaths ++ linkedPaths run.linkedTargets

/-- The links whose identity a run may still check. -/
def checkable (run : InitRun D) : List LinkedTarget :=
  match run.stage with
  | .rollBack linked | .unlink _ linked => linked
  | .cleanUp _ | .discard _ | .returned _ => []
  | _ => run.linkedTargets

def linkTargets (linked : List LinkedTarget) : List CaTarget := linked.map LinkedTarget.target

/-- What is left to take back: the certificate only before the key. -/
inductive TakesBack : List CaTarget → Prop where
  | nothing : TakesBack []
  | key : TakesBack [.privateKey]
  | both : TakesBack [.certificate, .privateKey]

theorem TakesBack.rest {target : CaTarget} {rest : List CaTarget} (h : TakesBack (target :: rest)) :
    TakesBack rest := by
  cases h with
  | key => exact .nothing
  | both => exact .key

/-- The links of a run, in the order in which it makes them. -/
def Shaped (run : InitRun D) : Prop :=
  match run.stage with
  | .parents _ | .inspect .. | .generate => run.temporaryPaths = [] ∧ run.linkedTargets = []
  | .create .. | .write .. | .loadStaged | .identify .privateKey | .link .privateKey _ =>
    run.linkedTargets = []
  | .identify .certificate | .link .certificate _ => linkTargets run.linkedTargets = [.privateKey]
  | .loadInstalled | .cleanUp _ | .returned true =>
    linkTargets run.linkedTargets = [.privateKey, .certificate]
  | .rollBack linked => TakesBack (linkTargets linked)
  | .unlink target linked => TakesBack (target :: linkTargets linked)
  | .discard _ | .returned false => True

/-- The temporary files that a run has named are its own, and what it is about to
link is still the file whose identity it has read. -/
structure Staged (f : CaPath D → Option CaEntry) (run : InitRun D) : Prop where
  named : ∀ target file, run.temporary target = some file → file ∈ run.temporaryPaths
  writing : ∀ target file calls, run.stage = .write target file calls → file ∈ run.temporaryPaths
  linking : ∀ target identity, run.stage = .link target identity → ∃ file entry,
    run.temporary target = some file ∧ f (.temporary file) = some entry ∧
      entry.identity = identity

/-- A run and the directories agree about what the run has made. -/
structure Agree (f : CaPath D → Option CaEntry) (r : RunId) (run : InitRun D) : Prop where
  distinct : (madeBy run).Nodup
  made : ∀ path, path ∈ madeBy run ↔ ∃ entry, f path = some entry ∧ entry.creator = some r
  shaped : Shaped run
  checked : ∀ l ∈ checkable run,
    ∃ entry, f (.target l.target) = some entry ∧ entry.identity = l.identity
  staged : Staged f run

theorem building_made (h : run.stage.building = true) :
    madeBy run = temporaries run.temporaryPaths ++ linkedPaths run.linkedTargets := by
  unfold madeBy
  split <;> simp_all [InitStage.building]

theorem early_made (h : run.stage.early = true) :
    madeBy run = temporaries run.temporaryPaths ++ linkedPaths run.linkedTargets := by
  unfold madeBy
  split <;> simp_all [InitStage.early]

/-- A run checks only links that it has made. -/
theorem checkable_made {l : LinkedTarget} (h : l ∈ checkable run) :
    .target l.target ∈ madeBy run := by
  have hmem : ∀ {linked : List LinkedTarget}, l ∈ linked →
      (.target l.target : CaPath D) ∈ linkedPaths linked :=
    fun hl => List.mem_map.mpr ⟨l, hl, rfl⟩
  unfold checkable at h
  unfold madeBy
  split at h <;> simp_all

theorem Staged.later (h : Staged f run) (ht : run'.temporary = run.temporary)
    (hp : run'.temporaryPaths = run.temporaryPaths)
    (hw : ∀ target path calls, run'.stage ≠ .write target path calls)
    (hl : ∀ target identity, run'.stage ≠ .link target identity) : Staged f' run' where
  named := by
    rw [ht, hp]
    exact h.named
  writing target path calls hstage := absurd hstage (hw target path calls)
  linking target identity hstage := absurd hstage (hl target identity)

theorem early_shaped (h : Shaped run) (he : run.stage.early = true) :
    run.temporaryPaths = [] ∧ run.linkedTargets = [] := by
  unfold Shaped at h
  split at h <;> simp_all [InitStage.early]

theorem shaped_early (hp : run.temporaryPaths = []) (hl : run.linkedTargets = [])
    (he : run.stage.early = true) : Shaped run := by
  unfold Shaped
  split <;> simp_all [InitStage.early]

/-- What a run that fails has to take back. -/
theorem building_takes_back (h : Shaped run) (hb : run.stage.building = true) :
    TakesBack (linkTargets run.linkedTargets.reverse) := by
  have hcases : linkTargets run.linkedTargets = [] ∨ linkTargets run.linkedTargets = [.privateKey] ∨
      linkTargets run.linkedTargets = [.privateKey, .certificate] := by
    unfold Shaped at h
    split at h <;> simp_all [InitStage.building, linkTargets]
  rw [linkTargets, List.map_reverse]
  rcases hcases with hl | hl | hl <;> rw [linkTargets] at hl <;> rw [hl]
  · exact .nothing
  · exact .key
  · exact .both

theorem early_checkable (h : run.stage.early = true) : checkable run = run.linkedTargets := by
  unfold checkable
  split <;> simp_all [InitStage.early]

theorem building_checkable (h : run.stage.building = true) : checkable run = run.linkedTargets := by
  unfold checkable
  split <;> simp_all [InitStage.building]

/-- The targets that a run has linked and not taken back. -/
def linksLeft (run : InitRun D) : List CaTarget :=
  match run.stage with
  | .rollBack linked => linkTargets linked
  | .unlink target linked => target :: linkTargets linked
  | .discard _ | .returned false => []
  | _ => linkTargets run.linkedTargets

theorem mem_linkedPaths {target : CaTarget} {linked : List LinkedTarget} :
    (.target target : CaPath D) ∈ linkedPaths linked ↔ target ∈ linkTargets linked := by
  simp [linkedPaths, linkTargets]

theorem target_not_temporary {target : CaTarget} {files : List (TemporaryFile D)} :
    .target target ∉ temporaries files := by
  simp [temporaries]

theorem target_made {target : CaTarget} : .target target ∈ madeBy run ↔ target ∈ linksLeft run := by
  obtain ⟨process, stage, temporary, temporaryPaths, linkedTargets⟩ := run
  cases stage with
  | returned ok =>
    cases ok with
    | false => exact iff_of_false List.not_mem_nil List.not_mem_nil
    | true => exact mem_linkedPaths
  | unlink => simp [madeBy, linksLeft, target_not_temporary, mem_linkedPaths]
  | discard => simp [madeBy, linksLeft, target_not_temporary]
  | _ => simp [madeBy, linksLeft, target_not_temporary, mem_linkedPaths]

theorem TakesBack.locked {targets : List CaTarget} (h : TakesBack targets)
    (hc : .certificate ∈ targets) : .privateKey ∈ targets := by
  cases h with
  | nothing => cases hc
  | key => exact List.mem_singleton_self _
  | both => exact List.mem_cons_of_mem _ (List.mem_singleton_self _)

theorem links_locked {linked : List LinkedTarget}
    (h : linkTargets linked = [] ∨ linkTargets linked = [.privateKey] ∨
      linkTargets linked = [.privateKey, .certificate])
    (hc : .certificate ∈ linkTargets linked) : .privateKey ∈ linkTargets linked := by
  rcases h with h | h | h <;> rw [h] at hc ⊢
  · cases hc
  · exact List.mem_singleton_self _
  · exact List.mem_cons_self

/-- The certificate is there only with the key. -/
theorem certificate_locked (h : Shaped run) (hc : .certificate ∈ linksLeft run) :
    .privateKey ∈ linksLeft run := by
  obtain ⟨process, stage, temporary, temporaryPaths, linkedTargets⟩ := run
  cases stage with
  | rollBack linked => exact TakesBack.locked h hc
  | unlink target linked => exact TakesBack.locked h hc
  | discard => exact absurd hc List.not_mem_nil
  | returned ok =>
    cases ok with
    | false => exact absurd hc List.not_mem_nil
    | true => exact links_locked (Or.inr (Or.inr h)) hc
  | parents | inspect | generate => exact links_locked (Or.inl (congrArg linkTargets h.2)) hc
  | create | write | loadStaged => exact links_locked (Or.inl (congrArg linkTargets h)) hc
  | identify target | link target =>
    cases target with
    | privateKey => exact links_locked (Or.inl (congrArg linkTargets h)) hc
    | certificate => exact links_locked (Or.inr (Or.inl h)) hc
  | loadInstalled | cleanUp => exact links_locked (Or.inr (Or.inr h)) hc

theorem Agree.quiet (h : Agree f r run) (hmade : (madeBy run').Perm (madeBy run))
    (hshaped : Shaped run') (hcheck : checkable run' ⊆ checkable run) (hstaged : Staged f run') :
    Agree f r run' where
  distinct := hmade.nodup_iff.mpr h.distinct
  made path := by rw [hmade.mem_iff, h.made]
  shaped := hshaped
  checked l hl := h.checked l (hcheck hl)
  staged := hstaged

/-- Runs do not touch what others have made. -/
theorem made_apart (h : Agree f r run) (h' : Agree f q other) (hne : r ≠ q) {path : CaPath D}
    (hp : path ∈ madeBy run) : path ∉ madeBy other := by
  intro hp'
  obtain ⟨entry, he, hc⟩ := (h.made path).mp hp
  obtain ⟨entry', he', hc'⟩ := (h'.made path).mp hp'
  rw [he, Option.some.injEq] at he'
  rw [← he', hc, Option.some.injEq] at hc'
  exact hne hc'

/-- What every reachable state of any number of initializations satisfies. -/
structure Unmixed (s : InitState D) : Prop where
  paired : ∀ certificate key a b, s.entries (.target .certificate) = some certificate →
    s.entries (.target .privateKey) = some key → certificate.creator = some a →
    key.creator = some b → a = b
  single : ∀ a b, (s.runs a).stage = .returned true → (s.runs b).stage = .returned true → a = b
  installed : ∀ r, (s.runs r).stage = .returned true → ∀ target,
    ∃ entry, s.entries (.target target) = some entry ∧ entry.creator = some r
  traceless : ∀ r, (s.runs r).stage = .returned false → ∀ path entry,
    s.entries path = some entry → entry.creator ≠ some r

theorem unmixed (h : ∀ r, Agree s.entries r (s.runs r)) : Unmixed s := by
  have hinstalled : ∀ r, (s.runs r).stage = .returned true → ∀ target,
      ∃ entry, s.entries (.target target) = some entry ∧ entry.creator = some r := by
    intro r hstage target
    rw [← (h r).made, target_made, linksLeft, hstage]
    have hshaped := (h r).shaped
    rw [Shaped, hstage] at hshaped
    dsimp only at hshaped ⊢
    rw [hshaped]
    cases target <;> simp
  refine ⟨?_, ?_, hinstalled, ?_⟩
  · intro certificate key a b hc hk ha hb
    have hmade : .target .certificate ∈ madeBy (s.runs a) := ((h a).made _).mpr ⟨certificate, hc, ha⟩
    have hlocked := certificate_locked (h a).shaped (target_made.mp hmade)
    obtain ⟨key', hk', ha'⟩ := ((h a).made _).mp (target_made.mpr hlocked)
    rw [hk, Option.some.injEq] at hk'
    rw [← hk', hb] at ha'
    exact (Option.some.inj ha').symm
  · intro a b ha hb
    obtain ⟨entry, he, hca⟩ := hinstalled a ha .privateKey
    obtain ⟨entry', he', hcb⟩ := hinstalled b hb .privateKey
    rw [he, Option.some.injEq] at he'
    rw [← he', hca] at hcb
    exact Option.some.inj hcb
  · intro r hstage path entry he hc
    have hmade := ((h r).made path).mpr ⟨entry, he, hc⟩
    rw [madeBy, hstage] at hmade
    exact absurd hmade List.not_mem_nil

theorem agree_start (files : CaPath D → Option FileIdentity) (process : RunId → Nat) (r : RunId) :
    Agree (InitState.start files process).entries r ((InitState.start files process).runs r) where
  distinct := List.nodup_nil
  made path := by
    refine iff_of_false List.not_mem_nil ?_
    rintro ⟨entry, he, hc⟩
    obtain ⟨identity, -, rfl⟩ := Option.map_eq_some_iff.mp he
    cases hc
  shaped := ⟨rfl, rfl⟩
  checked _ hl := absurd hl List.not_mem_nil
  staged := ⟨fun _ _ => nofun, fun _ _ _ => nofun, fun _ _ => nofun⟩

variable [DecidableEq D]

theorem Agree.added (h : Agree f r run) {path : CaPath D} {identity : FileIdentity}
    (hf : f path = none) (hmade : (madeBy run').Perm (path :: madeBy run)) (hshaped : Shaped run')
    (hcheck : ∀ l ∈ checkable run', l ∈ checkable run ∨
      path = .target l.target ∧ identity = l.identity)
    (hstaged : Staged (Function.update f path (some ⟨identity, some r⟩)) run') :
    Agree (Function.update f path (some ⟨identity, some r⟩)) r run' where
  distinct := by
    rw [hmade.nodup_iff, List.nodup_cons]
    refine ⟨fun hm => ?_, h.distinct⟩
    obtain ⟨entry, he, -⟩ := (h.made path).mp hm
    rw [hf] at he
    cases he
  made q := by
    rw [hmade.mem_iff, List.mem_cons, h.made]
    by_cases hq : q = path
    · subst hq
      simp
    · simp [hq]
  shaped := hshaped
  checked l hl := by
    rcases hcheck l hl with hold | ⟨rfl, rfl⟩
    · obtain ⟨entry, he, hid⟩ := h.checked l hold
      refine ⟨entry, ?_, hid⟩
      rw [Function.update_of_ne, he]
      rintro rfl
      rw [hf] at he
      cases he
    · exact ⟨_, Function.update_self .., rfl⟩
  staged := hstaged

theorem Agree.removed (h : Agree f r run) {path : CaPath D}
    (hmade : (madeBy run).Perm (path :: madeBy run')) (hshaped : Shaped run')
    (hcheck : checkable run' ⊆ checkable run)
    (hstaged : Staged (Function.update f path none) run') :
    Agree (Function.update f path none) r run' := by
  have hnodup := hmade.nodup_iff.mp h.distinct
  obtain ⟨hnot, hdistinct⟩ := List.nodup_cons.mp hnodup
  refine ⟨hdistinct, fun q => ?_, hshaped, fun l hl => ?_, hstaged⟩
  · by_cases hq : q = path
    · subst hq
      simp [hnot]
    · rw [Function.update_of_ne hq, ← h.made, hmade.mem_iff, List.mem_cons]
      simp [hq]
  · rw [Function.update_of_ne]
    · exact h.checked l (hcheck hl)
    · rintro rfl
      exact hnot (checkable_made hl)

theorem Agree.beside_added (h : Agree f q other) {path : CaPath D} {entry : CaEntry}
    (hf : f path = none) (hne : entry.creator ≠ some q) :
    Agree (Function.update f path (some entry)) q other := by
  have hkeep : ∀ {p e}, f p = some e → Function.update f path (some entry) p = some e := by
    intro p e he
    rw [Function.update_of_ne, he]
    rintro rfl
    rw [hf] at he
    cases he
  refine ⟨h.distinct, fun p => ?_, h.shaped, fun l hl => ?_, h.staged.named, h.staged.writing,
    fun target identity hstage => ?_⟩
  · rw [h.made]
    by_cases hp : p = path
    · subst hp
      simp [hf, hne]
    · rw [Function.update_of_ne hp]
  · obtain ⟨e, he, hid⟩ := h.checked l hl
    exact ⟨e, hkeep he, hid⟩
  · obtain ⟨p, e, ht, he, hid⟩ := h.staged.linking target identity hstage
    exact ⟨p, e, ht, hkeep he, hid⟩

theorem Agree.beside_removed (h : Agree f q other) {path : CaPath D}
    (hne : path ∉ madeBy other) :
    Agree (Function.update f path none) q other := by
  refine ⟨h.distinct, fun p => ?_, h.shaped, fun l hl => ?_, h.staged.named, h.staged.writing,
    fun target identity hstage => ?_⟩
  · by_cases hp : p = path
    · subst hp
      simp [hne]
    · rw [Function.update_of_ne hp, h.made]
  · rw [Function.update_of_ne]
    · exact h.checked l hl
    · rintro rfl
      exact hne (checkable_made hl)
  · obtain ⟨p, e, ht, he, hid⟩ := h.staged.linking target identity hstage
    refine ⟨p, e, ht, ?_, hid⟩
    rw [Function.update_of_ne, he]
    rintro rfl
    have hbuilding : other.stage.building = true := by
      rw [hstage]
      rfl
    rw [building_made hbuilding] at hne
    exact hne (List.mem_append_left _ (List.mem_map.mpr ⟨_, h.staged.named target _ ht, rfl⟩))

/-- The outcomes of one call of a run, on the entries `f`. -/
inductive RunMove (f : CaPath D → Option CaEntry) (r : RunId) (run : InitRun D) :
    (CaPath D → Option CaEntry) → InitRun D → Prop where
  | refused (h : run.stage.early = true) : RunMove f r run f { run with stage := .returned false }
  | inspected (h : run.stage.early = true) (stage : InitStage D) (h' : stage.early = true) :
      RunMove f r run f { run with stage }
  | generated (h : run.stage = .generate) :
      RunMove f r run f { run with stage := .create .privateKey 0 }
  | failed (h : run.stage.building = true) :
      RunMove f r run f { run with stage := .rollBack run.linkedTargets.reverse }
  | taken (target : CaTarget) (attempts : Nat) (h : run.stage = .create target attempts) :
      RunMove f r run f { run with stage := .create target (attempts + 1) }
  | created (target : CaTarget) (attempts : Nat) (h : run.stage = .create target attempts)
      (file : TemporaryFile D) (hf : f (.temporary file) = none) (identity : FileIdentity) :
      RunMove f r run (Function.update f (.temporary file) (some ⟨identity, some r⟩)) { run with
        stage := .write target file 2
        temporaryPaths := run.temporaryPaths ++ [file] }
  | written (target : CaTarget) (file : TemporaryFile D) (calls : Nat)
      (h : run.stage = .write target file (calls + 1)) :
      RunMove f r run f { run with stage := .write target file calls }
  | synced (target : CaTarget) (file : TemporaryFile D) (h : run.stage = .write target file 0) :
      RunMove f r run f { run with
        temporary := Function.update run.temporary target (some file)
        stage := .afterWrite target }
  | validated (h : run.stage = .loadStaged) :
      RunMove f r run f { run with stage := .identify .privateKey }
  | identified (target : CaTarget) (h : run.stage = .identify target) (file : TemporaryFile D)
      (entry : CaEntry) (ht : run.temporary target = some file)
      (hf : f (.temporary file) = some entry) :
      RunMove f r run f { run with stage := .link target entry.identity }
  | linked (target : CaTarget) (identity : FileIdentity) (h : run.stage = .link target identity)
      (file : TemporaryFile D) (entry : CaEntry) (ht : run.temporary target = some file)
      (hf : f (.temporary file) = some entry) (hfree : f (.target target) = none) :
      RunMove f r run (Function.update f (.target target) (some ⟨entry.identity, some r⟩))
        { run with
          linkedTargets := run.linkedTargets ++ [⟨target, identity⟩]
          stage := .afterLink target }
  | installed (h : run.stage = .loadInstalled) :
      RunMove f r run f { run with stage := .cleanUp run.temporaryPaths }
  | cleaned (file : TemporaryFile D) (rest : List (TemporaryFile D))
      (h : run.stage = .cleanUp (file :: rest)) :
      RunMove f r run (Function.update f (.temporary file) none) { run with stage := .cleanUp rest }
  | succeeded (h : run.stage = .cleanUp []) :
      RunMove f r run f { run with stage := .returned true }
  | passed (l : LinkedTarget) (rest : List LinkedTarget) (h : run.stage = .rollBack (l :: rest))
      (hf : ∀ entry, f (.target l.target) = some entry → entry.identity ≠ l.identity) :
      RunMove f r run f { run with stage := .rollBack rest }
  | recognized (l : LinkedTarget) (rest : List LinkedTarget)
      (h : run.stage = .rollBack (l :: rest)) :
      RunMove f r run f { run with stage := .unlink l.target rest }
  | unlinked (target : CaTarget) (rest : List LinkedTarget) (h : run.stage = .unlink target rest) :
      RunMove f r run (Function.update f (.target target) none) { run with stage := .rollBack rest }
  | rolledBack (h : run.stage = .rollBack []) :
      RunMove f r run f { run with stage := .discard run.temporaryPaths }
  | discarded (file : TemporaryFile D) (rest : List (TemporaryFile D))
      (h : run.stage = .discard (file :: rest)) :
      RunMove f r run (Function.update f (.temporary file) none) { run with stage := .discard rest }
  | gaveUp (h : run.stage = .discard []) :
      RunMove f r run f { run with stage := .returned false }

/-- A step of a run, or a file that somebody else makes. -/
inductive InitOutcome (s : InitState D) : Option RunId → InitState D → Prop where
  | advanced {t : InitState D} (r : RunId) (run : InitRun D)
      (hruns : t.runs = Function.update s.runs r run)
      (h : RunMove s.entries r (s.runs r) t.entries run) : InitOutcome s (some r) t
  | foreign (path : CaPath D) (hf : s.entries path = none) (identity : FileIdentity) :
      InitOutcome s none (s.put path ⟨identity, none⟩)

theorem goto_outcome {stage : InitStage D}
    (h : RunMove s.entries r (s.runs r) s.entries { s.runs r with stage }) :
    InitOutcome s (some r) (s.goto r stage) := .advanced r _ rfl h

theorem fail_outcome (h : (s.runs r).stage.building = true) : InitOutcome s (some r) (s.fail r) :=
  goto_outcome (.failed h)

theorem create_outcome {target : CaTarget} {attempts : Nat} {identity : FileIdentity}
    (h : (s.runs r).stage = .create target attempts) :
    InitOutcome s (some r) (s.create r parent target attempts identity) := by
  unfold InitState.create
  dsimp only
  split
  · split
    · exact .advanced r _ rfl (.taken target attempts h)
    · exact .advanced r _ rfl (.failed (by rw [h]; rfl))
  · rename_i hfree
    rw [Bool.not_eq_true, Option.isSome_eq_false_iff, Option.isNone_iff_eq_none] at hfree
    exact .advanced r _ rfl (.created target attempts h _ hfree identity)

theorem link_outcome {target : CaTarget} {identity : FileIdentity}
    (h : (s.runs r).stage = .link target identity) :
    InitOutcome s (some r) (s.link r target identity) := by
  unfold InitState.link
  dsimp only
  split
  · rename_i entry hentry hfree
    obtain ⟨file, ht, hf⟩ := Option.bind_eq_some_iff.mp hentry
    exact .advanced r _ rfl (.linked target identity h file entry ht hf hfree)
  · exact fail_outcome (by rw [h]; rfl)

theorem advance_outcome {answer : CallAnswer} (h : s.advance parent r answer = some s') :
    InitOutcome s (some r) s' := by
  unfold InitState.advance at h
  split at h
  · rename_i calls hstage
    split at h
    · rw [← Option.some.inj h]
      exact goto_outcome (.refused (by rw [hstage]; rfl))
    · cases calls with
      | succ calls =>
        rw [← Option.some.inj h]
        exact goto_outcome (.inspected (by rw [hstage]; rfl) _ rfl)
      | zero =>
        rw [← Option.some.inj h]
        exact goto_outcome (.inspected (by rw [hstage]; rfl) _ rfl)
  · rename_i target conflicts hstage
    have hearly : (s.runs r).stage.early = true := by rw [hstage]; rfl
    split at h
    · rw [← Option.some.inj h]
      exact goto_outcome (.refused hearly)
    · rw [← Option.some.inj h]
      unfold InitState.inspect
      cases target with
      | certificate => exact goto_outcome (.inspected hearly _ rfl)
      | privateKey =>
        dsimp only
        generalize (if (s.entries (.target .privateKey)).isSome = true then
          conflicts ++ [CaTarget.privateKey] else conflicts) = found
        cases found with
        | nil => exact goto_outcome (.inspected hearly _ rfl)
        | cons _ _ => exact goto_outcome (.refused hearly)
  · rename_i hstage
    split at h <;> rw [← Option.some.inj h]
    · exact fail_outcome (by rw [hstage]; rfl)
    · exact goto_outcome (.generated hstage)
  · rename_i target attempts hstage
    split at h <;> rw [← Option.some.inj h]
    · exact .advanced r _ rfl (.failed (by rw [hstage]; rfl))
    · exact create_outcome hstage
  · rename_i target path calls hstage
    split at h <;> rw [← Option.some.inj h]
    · exact fail_outcome (by rw [hstage]; rfl)
    · cases calls with
      | succ calls => exact goto_outcome (.written target path calls hstage)
      | zero => exact .advanced r _ rfl (.synced target path hstage)
  · rename_i hstage
    split at h <;> rw [← Option.some.inj h]
    · exact fail_outcome (by rw [hstage]; rfl)
    · exact goto_outcome (.validated hstage)
  · rename_i target hstage
    split at h
    · rename_i entry hentry
      obtain ⟨path, ht, hf⟩ := Option.bind_eq_some_iff.mp hentry
      split at h <;> rw [← Option.some.inj h]
      · exact fail_outcome (by rw [hstage]; rfl)
      · exact goto_outcome (.identified target hstage path entry ht hf)
    · rw [← Option.some.inj h]
      exact fail_outcome (by rw [hstage]; rfl)
  · rename_i target identity hstage
    split at h <;> rw [← Option.some.inj h]
    · exact fail_outcome (by rw [hstage]; rfl)
    · exact link_outcome hstage
  · rename_i hstage
    split at h <;> rw [← Option.some.inj h]
    · exact fail_outcome (by rw [hstage]; rfl)
    · exact goto_outcome (.installed hstage)
  · rename_i hstage
    rw [← Option.some.inj h]
    exact goto_outcome (.succeeded hstage)
  · rename_i path paths hstage
    rw [← Option.some.inj h]
    exact .advanced r _ rfl (.cleaned path paths hstage)
  · rename_i hstage
    rw [← Option.some.inj h]
    exact goto_outcome (.rolledBack hstage)
  · rename_i l rest hstage
    split at h <;> rw [← Option.some.inj h]
    · exact goto_outcome (.recognized l rest hstage)
    · rename_i hother
      refine goto_outcome (.passed l rest hstage fun entry he hid => hother ?_)
      rw [he, Option.any_some, hid, beq_self_eq_true]
  · rename_i target rest hstage
    rw [← Option.some.inj h]
    exact .advanced r _ rfl (.unlinked target rest hstage)
  · rename_i hstage
    rw [← Option.some.inj h]
    exact goto_outcome (.gaveUp hstage)
  · rename_i path paths hstage
    rw [← Option.some.inj h]
    exact .advanced r _ rfl (.discarded path paths hstage)
  · cases h

/-- The run that makes a call; `none` for somebody else. -/
def caller : InitAction D → Option RunId
  | .advance r _ => some r
  | .foreign _ _ => none

theorem init_outcome {action : InitAction D} (h : s.step parent action = some s') :
    InitOutcome s (caller action) s' := by
  cases action with
  | advance r answer => exact advance_outcome h
  | foreign path identity =>
    simp only [InitState.step] at h
    split at h
    · cases h
    · rename_i hfree
      rw [Bool.not_eq_true, Option.isSome_eq_false_iff, Option.isNone_iff_eq_none] at hfree
      rw [← Option.some.inj h]
      exact .foreign path hfree identity

theorem Agree.move (h : Agree f r run) (hm : RunMove f r run f' run') : Agree f' r run' := by
  obtain ⟨process, stage, temporary, temporaryPaths, linkedTargets⟩ := run
  have hshaped := h.shaped
  cases hm with
  | refused he =>
    obtain ⟨hp, hl⟩ := early_shaped hshaped he
    refine h.quiet ?_ trivial (List.nil_subset _)
      (h.staged.later rfl rfl (fun _ _ _ => nofun) (fun _ _ => nofun))
    rw [early_made he, hp, hl]
    rfl
  | inspected he stage' he' =>
    obtain ⟨hp, hl⟩ := early_shaped hshaped he
    refine h.quiet ?_ (shaped_early hp hl he') ?_ (h.staged.later rfl rfl ?_ ?_)
    · rw [early_made he, early_made he']
    · rw [early_checkable he', hl]
      exact List.nil_subset _
    · rintro target path calls rfl
      cases he'
    · rintro target identity rfl
      cases he'
  | generated he =>
    subst he
    exact h.quiet (.refl _) hshaped.2 (List.Subset.refl _)
      (h.staged.later rfl rfl (fun _ _ _ => nofun) (fun _ _ => nofun))
  | failed hb =>
    refine h.quiet ?_ (building_takes_back hshaped hb) ?_
      (h.staged.later rfl rfl (fun _ _ _ => nofun) (fun _ _ => nofun))
    · rw [building_made hb]
      exact ((List.reverse_perm linkedTargets).map _).append_left (temporaries temporaryPaths)
    · rw [building_checkable hb]
      exact (List.reverse_perm linkedTargets).subset
  | taken target attempts he =>
    subst he
    exact h.quiet (.refl _) hshaped (List.Subset.refl _)
      (h.staged.later rfl rfl (fun _ _ _ => nofun) (fun _ _ => nofun))
  | created target attempts he file hf identity =>
    subst he
    refine h.added hf ?_ hshaped (fun l hl => Or.inl hl) ⟨?_, ?_, ?_⟩
    · show (temporaries (temporaryPaths ++ [file]) ++ linkedPaths linkedTargets).Perm
        (.temporary file :: (temporaries temporaryPaths ++ linkedPaths linkedTargets))
      rw [temporaries, List.map_append, List.append_assoc]
      exact List.perm_middle
    · exact fun t p ht => List.mem_append_left _ (h.staged.named t p ht)
    · intro t p calls hstage
      cases hstage
      exact List.mem_append_right _ (List.mem_singleton_self file)
    · exact fun _ _ hstage => nomatch hstage
  | written target file calls he =>
    subst he
    refine h.quiet (.refl _) hshaped (List.Subset.refl _) ⟨h.staged.named, ?_, ?_⟩
    · intro t p n hstage
      cases hstage
      exact h.staged.writing target file (calls + 1) rfl
    · exact fun _ _ hstage => nomatch hstage
  | synced target file he =>
    subst he
    have hnamed : ∀ t p, Function.update temporary target (some file) t = some p →
        p ∈ temporaryPaths := by
      intro t p ht
      by_cases htarget : t = target
      · subst htarget
        rw [Function.update_self] at ht
        cases ht
        exact h.staged.writing t file 0 rfl
      · rw [Function.update_of_ne htarget] at ht
        exact h.staged.named t p ht
    cases target with
    | certificate =>
      exact h.quiet (.refl _) hshaped (List.Subset.refl _)
        ⟨hnamed, fun _ _ _ => nofun, fun _ _ => nofun⟩
    | privateKey =>
      exact h.quiet (.refl _) hshaped (List.Subset.refl _)
        ⟨hnamed, fun _ _ _ => nofun, fun _ _ => nofun⟩
  | validated he =>
    subst he
    exact h.quiet (.refl _) hshaped (List.Subset.refl _)
      (h.staged.later rfl rfl (fun _ _ _ => nofun) (fun _ _ => nofun))
  | identified target he file entry ht hf =>
    subst he
    refine h.quiet (.refl _) ?_ (List.Subset.refl _) ⟨h.staged.named, ?_, ?_⟩
    · cases target <;> exact hshaped
    · exact fun _ _ _ hstage => nomatch hstage
    · intro t i hstage
      cases hstage
      exact ⟨file, entry, ht, hf, rfl⟩
  | linked target identity he file entry ht hf hfree =>
    subst he
    have hid : entry.identity = identity := by
      obtain ⟨p, e, hp, he, hid⟩ := h.staged.linking target identity rfl
      rw [ht, Option.some.injEq] at hp
      rw [← hp, hf, Option.some.injEq] at he
      rw [he, hid]
    have hmade : (temporaries temporaryPaths ++
        linkedPaths (linkedTargets ++ [(⟨target, identity⟩ : LinkedTarget)])).Perm
        (.target target :: (temporaries temporaryPaths ++ linkedPaths linkedTargets)) := by
      rw [linkedPaths, List.map_append, ← List.append_assoc]
      exact List.perm_append_singleton _ _
    have hcheck : ∀ l ∈ linkedTargets ++ [(⟨target, identity⟩ : LinkedTarget)], l ∈ linkedTargets ∨
        (.target target : CaPath D) = .target l.target ∧ entry.identity = l.identity := by
      intro l hl
      refine (List.mem_append.mp hl).imp_right fun hl => ?_
      rw [List.mem_singleton.mp hl]
      exact ⟨rfl, hid⟩
    cases target with
    | certificate =>
      refine h.added hfree hmade ?_ hcheck
        (h.staged.later rfl rfl (fun _ _ _ => nofun) (fun _ _ => nofun))
      show linkTargets _ = _
      rw [linkTargets, List.map_append]
      exact congrArg (· ++ [CaTarget.certificate]) hshaped
    | privateKey =>
      refine h.added hfree hmade ?_ hcheck
        (h.staged.later rfl rfl (fun _ _ _ => nofun) (fun _ _ => nofun))
      have hnone : linkedTargets = [] := hshaped
      subst hnone
      rfl
  | installed he =>
    subst he
    exact h.quiet (.refl _) hshaped (List.nil_subset _)
      (h.staged.later rfl rfl (fun _ _ _ => nofun) (fun _ _ => nofun))
  | cleaned file rest he =>
    subst he
    exact h.removed (.refl _) hshaped (List.Subset.refl _)
      (h.staged.later rfl rfl (fun _ _ _ => nofun) (fun _ _ => nofun))
  | succeeded he =>
    subst he
    exact h.quiet (.refl _) hshaped (List.Subset.refl _)
      (h.staged.later rfl rfl (fun _ _ _ => nofun) (fun _ _ => nofun))
  | passed l rest he hf =>
    subst he
    obtain ⟨entry, hentry, hid⟩ := h.checked l List.mem_cons_self
    exact absurd hid (hf entry hentry)
  | recognized l rest he =>
    subst he
    exact h.quiet (.refl _) hshaped (List.subset_cons_self l rest)
      (h.staged.later rfl rfl (fun _ _ _ => nofun) (fun _ _ => nofun))
  | unlinked target rest he =>
    subst he
    refine h.removed List.perm_middle ?_ (List.Subset.refl _)
      (h.staged.later rfl rfl (fun _ _ _ => nofun) (fun _ _ => nofun))
    exact TakesBack.rest hshaped
  | rolledBack he =>
    subst he
    refine h.quiet ?_ trivial (List.nil_subset _)
      (h.staged.later rfl rfl (fun _ _ _ => nofun) (fun _ _ => nofun))
    show (temporaries temporaryPaths).Perm (temporaries temporaryPaths ++ [])
    rw [List.append_nil]
  | discarded file rest he =>
    subst he
    exact h.removed (.refl _) trivial (List.Subset.refl _)
      (h.staged.later rfl rfl (fun _ _ _ => nofun) (fun _ _ => nofun))
  | gaveUp he =>
    subst he
    exact h.quiet (.refl _) trivial (List.Subset.refl _)
      (h.staged.later rfl rfl (fun _ _ _ => nofun) (fun _ _ => nofun))

/-- What one call of a run does to the directories: it adds an entry where there
is none, or removes one that the run has made. -/
theorem move_entries (hm : RunMove f r run f' run') :
    f' = f ∨ (∃ path identity, f path = none ∧
        f' = Function.update f path (some ⟨identity, some r⟩)) ∨
      ∃ path ∈ madeBy run, f' = Function.update f path none := by
  cases hm with
  | created target attempts h file hf identity =>
    exact Or.inr (Or.inl ⟨.temporary file, identity, hf, rfl⟩)
  | linked target identity h file entry ht hf hfree =>
    exact Or.inr (Or.inl ⟨.target target, entry.identity, hfree, rfl⟩)
  | cleaned file rest h =>
    refine Or.inr (Or.inr ⟨.temporary file, ?_, rfl⟩)
    rw [madeBy, h]
    exact List.mem_cons_self
  | unlinked target rest h =>
    refine Or.inr (Or.inr ⟨.target target, ?_, rfl⟩)
    rw [madeBy, h]
    exact List.mem_append_right _ List.mem_cons_self
  | discarded file rest h =>
    refine Or.inr (Or.inr ⟨.temporary file, ?_, rfl⟩)
    rw [madeBy, h]
    exact List.mem_cons_self
  | _ => exact Or.inl rfl

theorem Agree.beside (h : Agree f q other) (hne : r ≠ q) (hr : Agree f r run)
    (hm : RunMove f r run f' run') : Agree f' q other := by
  rcases move_entries hm with rfl | ⟨path, identity, hf, rfl⟩ | ⟨path, hp, rfl⟩
  · exact h
  · refine h.beside_added hf ?_
    intro he
    exact hne (Option.some.inj he)
  · exact h.beside_removed (made_apart hr h hne hp)

theorem agree_step (h : ∀ r, Agree s.entries r (s.runs r)) {r : Option RunId}
    (ho : InitOutcome s r s') (q : RunId) :
    Agree s'.entries q (s'.runs q) := by
  cases ho with
  | advanced r run hruns hm =>
    rw [hruns]
    by_cases hq : q = r
    · subst hq
      rw [Function.update_self]
      exact (h q).move hm
    · rw [Function.update_of_ne hq]
      exact (h q).beside (Ne.symm hq) (h r) hm
  | foreign path hf identity => exact (h q).beside_added hf nofun

theorem installed_kept (h : RunMove f r run f' run') (hstage : run.stage = .returned true) :
    False := by
  cases h <;> simp_all [InitStage.early, InitStage.building]

/-- An entry stays while its maker does not move. -/
theorem entry_kept (h : ∀ r, Agree s.entries r (s.runs r)) {r : Option RunId}
    (ho : InitOutcome s r s') {path : CaPath D} {entry : CaEntry}
    (he : s.entries path = some entry) (hne : ∀ q, r = some q → entry.creator ≠ some q) :
    s'.entries path = some entry := by
  have hadded : ∀ {path' : CaPath D} {e : CaEntry}, s.entries path' = none →
      Function.update s.entries path' (some e) path = some entry := by
    intro path' e hfree
    rw [Function.update_of_ne, he]
    rintro rfl
    rw [hfree] at he
    cases he
  cases ho with
  | advanced q run hruns hm =>
    rcases move_entries hm with hf | ⟨path', identity, hfree, hf⟩ | ⟨path', hp, hf⟩
    · rw [hf, he]
    · rw [hf]
      exact hadded hfree
    · rw [hf, Function.update_of_ne, he]
      rintro rfl
      obtain ⟨entry', he', hc⟩ := ((h q).made path).mp hp
      rw [he, Option.some.injEq] at he'
      subst he'
      exact hne q rfl hc
  | foreign path' hfree identity => exact hadded hfree

/-- What a run has installed stays, and so does its answer. -/
theorem installed_step (h : ∀ r, Agree s.entries r (s.runs r)) {q : Option RunId}
    (ho : InitOutcome s q s') (hstage : (s.runs r).stage = .returned true) :
    (s'.runs r).stage = .returned true ∧
      ∀ target, s'.entries (.target target) = s.entries (.target target) := by
  have hother : ∀ q', q = some q' → q' ≠ r := by
    rintro q' rfl rfl
    cases ho with
    | advanced _ run hruns hm => exact installed_kept hm hstage
  refine ⟨?_, fun target => ?_⟩
  · cases ho with
    | advanced q' run hruns hm =>
      rw [hruns, Function.update_of_ne (Ne.symm (hother q' rfl)), hstage]
    | foreign => exact hstage
  · obtain ⟨entry, he, hc⟩ := (unmixed h).installed r hstage target
    rw [he]
    refine entry_kept h ho he fun q' hq hc' => hother q' hq ?_
    rw [hc] at hc'
    exact (Option.some.inj hc').symm

section Runs

variable {files : CaPath D → Option FileIdentity} {process : RunId → Nat}

theorem agree_reach (h : Reach (InitState.step parent) (InitState.start files process) s)
    (r : RunId) : Agree s.entries r (s.runs r) := by
  have hall : ∀ r, Agree s.entries r (s.runs r) :=
    h.invariant (agree_start files process) (fun _ hi hs => agree_step hi (init_outcome hs))
  exact hall r

theorem agree_later (h : ∀ r, Agree s.entries r (s.runs r)) (h' : Reach (InitState.step parent) s s') :
    ∀ r, Agree s'.entries r (s'.runs r) :=
  h'.invariant h fun _ hi hs => agree_step hi (init_outcome hs)

theorem installed_reach (h : ∀ r, Agree s.entries r (s.runs r))
    (hstage : (s.runs r).stage = .returned true) (h' : Reach (InitState.step parent) s s') :
    (s'.runs r).stage = .returned true ∧
      ∀ target, s'.entries (.target target) = s.entries (.target target) := by
  induction h' with
  | start => exact ⟨hstage, fun _ => rfl⟩
  | next before ha hs ih =>
    obtain ⟨hstage', hsame⟩ := installed_step (agree_later h before) (init_outcome hs) ih.1
    exact ⟨hstage', fun target => (hsame target).trans (ih.2 target)⟩

end Runs

/-- Concurrent initializations never mix key pairs: in every reachable state the
two targets that runs have made come from one run, a run that succeeds is the
only one and keeps both, no run touches a target that it has not made, and a run
that fails leaves nothing. -/
theorem initialize_unmixed (parent : CaTarget → D) (files : CaPath D → Option FileIdentity)
    (process : RunId → Nat) :
    ∀ s, Reach (InitState.step parent) (InitState.start files process) s →
      Unmixed s ∧
      (∀ r answer s', s.step parent (.advance r answer) = some s' →
        ∀ target entry, s.entries (.target target) = some entry → entry.creator ≠ some r →
          s'.entries (.target target) = some entry) ∧
      ∀ r, (s.runs r).stage = .returned true → ∀ s', Reach (InitState.step parent) s s' →
        (s'.runs r).stage = .returned true ∧
          ∀ target, s'.entries (.target target) = s.entries (.target target) := by
  intro s hreach
  have hagree := agree_reach hreach
  refine ⟨unmixed hagree, ?_, fun r hstage s' h' => installed_reach hagree hstage h'⟩
  intro r answer s' hs target entry he hne
  refine entry_kept hagree (init_outcome hs) he ?_
  rintro q hq
  rw [← Option.some.inj hq]
  exact hne

/-- Two runs side by side: the second finds the key taken, takes its files back
and returns first. -/
def rivalInitializations : List (InitAction Unit) :=
  (List.range 18).flatMap (fun n => [.advance 0 ⟨true, ⟨0, n⟩⟩, .advance 1 ⟨true, ⟨0, n + 100⟩⟩]) ++
    List.replicate 4 (.advance 1 ⟨true, ⟨0, 0⟩⟩) ++ List.replicate 6 (.advance 0 ⟨true, ⟨0, 0⟩⟩)

theorem initialize_unmixed_rivals :
    ∃ s : InitState Unit, (s.runs 0).stage = .returned true ∧ (s.runs 1).stage = .returned false ∧
      Unmixed s := by
  have hrun : (runSteps (InitState.step fun _ => ()) rivalInitializations
      (InitState.start (fun _ => none) fun _ => 7)).any (fun s =>
        (s.runs 0).stage == .returned true && (s.runs 1).stage == .returned false) = true := by
    decide +kernel
  obtain ⟨s, hs, htest⟩ := run_any hrun
  simp only [Bool.and_eq_true, beq_iff_eq] at htest
  have hreach := reach_run (ReachBy.start) hs
  exact ⟨s, htest.1, htest.2, (initialize_unmixed (fun _ => ()) (fun _ => none) (fun _ => 7) s hreach).1⟩

end Proofs

end Baffle
