import Baffle.Proofs.Merging

namespace Baffle.Proofs

variable {x : Crates} {store : SessionConfigStore}

theorem resolve_imports_mem {name b : Text} {entries names : List Text}
    (h : resolveImports name entries = .ok names) :
    b ∈ names ↔ ∃ entry ∈ entries, resolveImportName name entry = .ok b := by
  induction entries generalizing names with
  | nil =>
    simp only [resolveImports, pure_ok] at h
    simp [← h]
  | cons entry entries ih =>
    simp only [resolveImports, bind_ok, pure_ok] at h
    obtain ⟨first, hf, rest, hr, rfl⟩ := h
    simp [ih hr, hf, eq_comm]

theorem load_file_ok {name : Text} {file : LoadedFile} :
    loadFile x store name = .ok file ↔
      ∃ entries, readDocument store name = .ok file.document ∧
        importList name file.document.imports = .ok entries ∧
        resolveImports name entries = .ok file.imports ∧
        readPolicy x name file.document = .ok file.policy := by
  simp only [loadFile, bind_ok, pure_ok]
  constructor
  · rintro ⟨document, hd, entries, he, imports, hi, policy, hp, rfl⟩
    exact ⟨entries, hd, he, hi, hp⟩
  · rintro ⟨entries, hd, he, hi, hp⟩
    exact ⟨_, hd, _, he, _, hi, _, hp, rfl⟩

theorem imports_iff {a b : Text} {file : LoadedFile} (h : loadFile x store a = .ok file) :
    Imports store a b ↔ b ∈ file.imports := by
  obtain ⟨entries, hd, he, hi, -⟩ := load_file_ok.mp h
  rw [resolve_imports_mem hi]
  constructor
  · rintro ⟨document, entries', entry, hd', he', hm, hr⟩
    obtain rfl : file.document = document := Except.ok.inj (hd.symm.trans hd')
    obtain rfl : entries = entries' := Except.ok.inj (he.symm.trans he')
    exact ⟨entry, hm, hr⟩
  · rintro ⟨entry, hm, hr⟩
    exact ⟨_, _, entry, hd, he, hm, hr⟩

theorem imports_of_loaded {name : Text} {file : LoadedFile} (h : loadFile x store name = .ok file) :
    importsOf x store name = file.imports := by
  simp [importsOf, h]

theorem rules_of_loaded {name : Text} {file : LoadedFile} (h : loadFile x store name = .ok file) :
    rulesOf x store name = file.policy.rules := by
  simp [rulesOf, h]

theorem edge_imports {a b : Text} (h : Edge (importsOf x store) a b) : Imports store a b := by
  unfold Edge importsOf at h
  split at h
  · rename_i file hf
    exact (imports_iff hf).mpr h
  · cases h

theorem imports_edge {a b : Text} {file : LoadedFile} (ha : loadFile x store a = .ok file)
    (h : Imports store a b) : Edge (importsOf x store) a b := by
  rw [Edge, imports_of_loaded ha]
  exact (imports_iff ha).mp h

theorem load_file_rules {name : Text} {file : LoadedFile} (h : loadFile x store name = .ok file) :
    ValidRules x file.policy.rules := by
  obtain ⟨-, -, -, -, hp⟩ := load_file_ok.mp h
  exact from_toml_rules (map_error_ok.mp hp)

/-- The accumulator holds exactly what the imported files `done` contribute. -/
structure Accum (x : Crates) (store : SessionConfigStore) (done : List Text) (c : Composition) :
    Prop where
  loaded : c.loaded = done.toFinset
  files : ∀ name ∈ done, ∃ file, loadFile x store name = .ok file ∧
    file.document.persistent.present = false ∧ file.document.socketName.present = false
  rules : c.rules = done.flatMap (rulesOf x store)
  hosts : c.hosts = (c.rules.map HostRule.host).toFinset
  distinct : (c.rules.map HostRule.host).Nodup
  unmatched : ∀ v, c.importedUnmatched = some v ↔
    ∃ name ∈ done, ∃ file, loadFile x store name = .ok file ∧ file.explicitUnmatched = some v
  credentialDefault : ∀ v, c.importedCredentialDefault = some v ↔
    ∃ name ∈ done, ∃ file, loadFile x store name = .ok file ∧
      file.policy.defaultCredentialMode = some v
  credentialModes : ∀ secret v, c.credentialModes.get secret = some v ↔
    ∃ name ∈ done, ∃ file, loadFile x store name = .ok file ∧
      file.policy.credentialModes.get secret = some v
  rootUnmatched : c.rootUnmatched = none
  rootCredentialDefault : c.rootCredentialDefault = none

theorem accum_empty : Accum x store [] {} where
  loaded := rfl
  files := by simp
  rules := rfl
  hosts := rfl
  distinct := by simp
  unmatched := by simp
  credentialDefault := by simp
  credentialModes := by
    intro secret v
    simp [SortedMap.get_empty]
  rootUnmatched := rfl
  rootCredentialDefault := rfl

/-- The stack plays no part in what has been accumulated. -/
theorem Accum.with_stack {done : List Text} {c : Composition} (h : Accum x store done c)
    (stack : List Text) : Accum x store done { c with stack } :=
  ⟨h.loaded, h.files, h.rules, h.hosts, h.distinct, h.unmatched, h.credentialDefault,
    h.credentialModes, h.rootUnmatched, h.rootCredentialDefault⟩

/-- A setting read from one more file: the new value, unless there is none. -/
theorem or_some_iff {α : Type} {o p : Option α} {v : α} (h : ∀ v w, o = some v → p = some w → w = v) :
    o.or p = some v ↔ p = some v ∨ o = some v := by
  cases o with
  | none => simp
  | some u =>
    cases p with
    | none => simp
    | some w =>
      have := h u w rfl rfl
      simp [this]

theorem exists_snoc {name : Text} {done : List Text} {file : LoadedFile} {p : LoadedFile → Prop}
    (hf : loadFile x store name = .ok file) :
    (∃ n ∈ done ++ [name], ∃ f, loadFile x store n = .ok f ∧ p f) ↔
      (∃ n ∈ done, ∃ f, loadFile x store n = .ok f ∧ p f) ∨ p file := by
  constructor
  · rintro ⟨n, hn, f, hl, hp⟩
    rcases List.mem_append.mp hn with hn | hn
    · exact Or.inl ⟨n, hn, f, hl, hp⟩
    · rw [List.mem_singleton.mp hn, hf] at hl
      rw [Except.ok.inj hl]
      exact Or.inr hp
  · rintro (⟨n, hn, f, hl, hp⟩ | hp)
    · exact ⟨n, List.mem_append_left _ hn, f, hl, hp⟩
    · exact ⟨name, by simp, file, hf, hp⟩

theorem merged_modes {file : LoadedFile} {isRoot : Bool} {c : Composition}
    (hm : Mergeable file isRoot c) (secret : Text) (v : CredentialMode) :
    (merged file isRoot c).credentialModes.get secret = some v ↔
      c.credentialModes.get secret = some v ∨
        file.policy.credentialModes.get secret = some v := by
  rw [SortedMap.get_eq_some (m := file.policy.credentialModes)]
  exact get_insert_all file.policy.credentialModes.keys_nodup
    (modes_entries.mpr hm.credentialModes) secret v

theorem merged_distinct {done : List Text} {name : Text} {file : LoadedFile} {isRoot : Bool}
    {c : Composition} (h : Accum x store done c) (hf : loadFile x store name = .ok file)
    (hm : Mergeable file isRoot c) :
    ((merged file isRoot c).rules.map HostRule.host).Nodup := by
  show ((c.rules ++ file.policy.rules).map HostRule.host).Nodup
  rw [List.map_append]
  refine List.nodup_append.mpr ⟨h.distinct, (load_file_rules hf).hosts, ?_⟩
  rintro a ha b hb rfl
  obtain ⟨r, hr, rfl⟩ := List.mem_map.mp hb
  refine hm.hosts r hr ?_
  rw [h.hosts]
  exact List.mem_toFinset.mpr ha

theorem Accum.merge {done : List Text} {name : Text} {file : LoadedFile} {c : Composition}
    (h : Accum x store done c) (hf : loadFile x store name = .ok file)
    (hp : file.document.persistent.present = false)
    (hs : file.document.socketName.present = false) (hm : Mergeable file false c) :
    Accum x store (done ++ [name])
      { merged file false c with loaded := insert name (merged file false c).loaded } where
  loaded := by
    show insert name c.loaded = _
    rw [h.loaded, List.toFinset_append, List.toFinset_cons, List.toFinset_nil, Finset.union_comm]
    rfl
  files := by
    intro n hn
    rcases List.mem_append.mp hn with hn | hn
    · exact h.files n hn
    · rw [List.mem_singleton.mp hn]
      exact ⟨file, hf, hp, hs⟩
  rules := by
    show c.rules ++ file.policy.rules = _
    simp [h.rules, rules_of_loaded hf]
  hosts := by
    show c.hosts ∪ _ = _
    rw [h.hosts, ← List.toFinset_append, ← List.map_append]
    rfl
  distinct := merged_distinct h hf hm
  unmatched := by
    intro v
    rw [exists_snoc hf, ← h.unmatched]
    exact or_some_iff hm.unmatched
  credentialDefault := by
    intro v
    rw [exists_snoc hf (p := fun f => f.policy.defaultCredentialMode = some v),
      ← h.credentialDefault]
    exact or_some_iff hm.credentialDefault
  credentialModes := by
    intro secret v
    rw [exists_snoc hf (p := fun f => f.policy.credentialModes.get secret = some v),
      ← h.credentialModes]
    exact merged_modes hm secret v
  rootUnmatched := h.rootUnmatched
  rootCredentialDefault := h.rootCredentialDefault

/-- What a successful walk over `todo` leaves behind. No file on the stack is
finished meanwhile, which is what makes the order a post-order. -/
structure Walked (x : Crates) (store : SessionConfigStore) (done : List Text) (c : Composition)
    (todo done' : List Text) (c' : Composition) : Prop where
  visits : Visits (importsOf x store) done todo done'
  accum : Accum x store done' c'
  stack : c'.stack = c.stack
  fresh : ∀ name ∈ c.stack, name ∈ done' → name ∈ done

theorem Walked.append {done mid done' todo todo' : List Text} {c c' c'' : Composition}
    (h : Walked x store done c todo mid c') (h' : Walked x store mid c' todo' done' c'') :
    Walked x store done c (todo ++ todo') done' c'' where
  visits := h.visits.append h'.visits
  accum := h'.accum
  stack := h'.stack.trans h.stack
  fresh := fun name hs hd => h.fresh name hs (h'.fresh name (by rwa [h.stack]) hd)

/-- The property of the recursive call for an imported file. -/
def Walks (x : Crates) (store : SessionConfigStore)
    (call : Text → Composition → Except SessionConfigFileError Composition) : Prop :=
  ∀ name c c' done, Accum x store done c → call name c = .ok c' →
    ∃ done', Walked x store done c [name] done' c'

section Walk

variable {call : Text → Composition → Except SessionConfigFileError Composition}

theorem compose_imports_ok {name : Text} {entries done : List Text} {c c' : Composition}
    (hw : Walks x store call) (ha : Accum x store done c)
    (h : composeImports call name entries c = .ok c') :
    ∃ names done', resolveImports name entries = .ok names ∧ Walked x store done c names done' c' := by
  induction entries generalizing c done with
  | nil =>
    simp only [composeImports, pure_ok] at h
    subst h
    exact ⟨[], done, rfl, .nil done, ha, rfl, fun _ _ hd => hd⟩
  | cons entry entries ih =>
    simp only [composeImports, bind_ok] at h
    obtain ⟨first, hf, mid, hm, hrest⟩ := h
    obtain ⟨done1, h1⟩ := hw first c mid done ha hm
    obtain ⟨names, done2, hn, h2⟩ := ih h1.accum hrest
    refine ⟨first :: names, done2, ?_, h1.append h2⟩
    simp only [resolveImports, bind_ok, pure_ok]
    exact ⟨first, hf, names, hn, rfl⟩

theorem compose_contents_ok {name : Text} {isRoot : Bool} {done : List Text} {c c' : Composition}
    (hw : Walks x store call) (ha : Accum x store done c)
    (h : composeFileContents x store call name isRoot c = .ok c') :
    ∃ file mid cm, loadFile x store name = .ok file ∧
      (isRoot = false →
        file.document.persistent.present = false ∧ file.document.socketName.present = false) ∧
      Walked x store done c file.imports mid cm ∧ Mergeable file isRoot cm ∧
      (if isRoot then Composition.finishRoot file.policy (merged file isRoot cm)
        else pure (merged file isRoot cm)) = .ok c' := by
  simp only [composeFileContents, bind_ok, refuse_ok] at h
  obtain ⟨document, hd, -, hl, entries, he, cm, hc, policy, hp, hm⟩ := h
  obtain ⟨names, mid, hn, hwalk⟩ := compose_imports_ok hw ha hc
  have hf : loadFile x store name = .ok ⟨document, names, policy⟩ :=
    load_file_ok.mpr ⟨entries, hd, he, hn, hp⟩
  obtain ⟨hmerge, hfin⟩ := (merge_ok ⟨document, names, policy⟩ (load_file_rules hf).hosts).mp hm
  refine ⟨_, mid, cm, hf, ?_, hwalk, hmerge, hfin⟩
  rintro rfl
  simpa using hl

/-- An imported file is visited after its own imports. -/
theorem compose_file_walks (hw : Walks x store call) :
    Walks x store (fun name c => composeFileWith x store call name false c) := by
  intro name c c' done ha h
  simp only [composeFileWith, bind_ok, refuse_ok] at h
  obtain ⟨-, hstack, h⟩ := h
  split at h
  · rename_i hl
    rw [pure_ok] at h
    subst h
    rw [ha.loaded, List.mem_toFinset] at hl
    exact ⟨done, .seen hl (.nil done), ha, rfl, fun _ _ hd => hd⟩
  · rename_i hl
    simp only [bind_ok, refuse_ok, pure_ok] at h
    obtain ⟨-, -, -, -, c1, hc, rfl⟩ := h
    obtain ⟨file, mid, cm, hf, hlife, hwalk, hmerge, hfin⟩ :=
      compose_contents_ok hw (ha.with_stack (c.stack ++ [name])) hc
    simp only [Bool.false_eq_true, ↓reduceIte, pure_ok] at hfin
    subst hfin
    rw [ha.loaded, List.mem_toFinset] at hl
    have hm : name ∉ mid := fun hm => hl (hwalk.fresh name (by simp) hm)
    have hvisits := hwalk.visits
    rw [← imports_of_loaded hf] at hvisits
    have hs : cm.stack = c.stack ++ [name] := hwalk.stack
    refine ⟨mid ++ [name], .single hl hvisits hm, ?_, ?_, ?_⟩
    · obtain ⟨hp, hsock⟩ := hlife rfl
      exact (hwalk.accum.merge hf hp hsock hmerge).with_stack _
    · show cm.stack.dropLast = c.stack
      rw [hs, List.dropLast_concat]
    · intro n hn hd
      rcases List.mem_append.mp hd with hd | hd
      · exact hwalk.fresh n (List.mem_append_left _ hn) hd
      · rw [List.mem_singleton.mp hd] at hn
        simp [hn] at hstack

end Walk

/-- At every depth the recursive call walks the graph. -/
theorem compose_file_eq (x : Crates) (store : SessionConfigStore) (room : Nat) :
    ∃ call, Walks x store call ∧ composeFile x store room = composeFileWith x store call := by
  induction room with
  | zero =>
    refine ⟨_, ?_, rfl⟩
    intro name c c' done ha h
    simp at h
  | succ room ih =>
    obtain ⟨call, hw, he⟩ := ih
    refine ⟨_, ?_, rfl⟩
    rw [he]
    exact compose_file_walks hw

/-- A successful reading of `root`: its imports are walked from nothing, then
the root itself is merged. -/
structure RootRun (x : Crates) (store : SessionConfigStore) (root : Text) (c : SessionConfig)
    (top : LoadedFile) (mid : List Text) (cm : Composition) : Prop where
  load : loadFile x store root = .ok top
  walked : Walked x store [] { stack := [root] } top.imports mid cm
  mergeable : Mergeable top true cm
  unmatched : ∀ w, cm.importedUnmatched = some w → w = top.effectiveUnmatched
  credentialDefault : ∀ w, cm.importedCredentialDefault = some w → w = top.effectiveDefault
  result : c = {
    persistent := top.policy.persistent
    socketName := top.policy.socketName
    unmatched := top.effectiveUnmatched
    defaultCredentialMode := top.policy.defaultCredentialMode
    credentialModes := (merged top true cm).credentialModes
    rules := (merged top true cm).rules }

theorem explicit_get_d (file : LoadedFile) :
    file.explicitUnmatched.getD .deny = file.effectiveUnmatched := by
  unfold LoadedFile.explicitUnmatched LoadedFile.effectiveUnmatched
  split <;> rfl

theorem merged_root_unmatched {done : List Text} {cm : Composition} {top : LoadedFile}
    (ha : Accum x store done cm) :
    (merged top true cm).rootUnmatched = top.explicitUnmatched := by
  show top.explicitUnmatched.or cm.rootUnmatched = _
  rw [ha.rootUnmatched, Option.or_none]

theorem merged_root_default {done : List Text} {cm : Composition} {top : LoadedFile}
    (ha : Accum x store done cm) :
    (merged top true cm).rootCredentialDefault = top.policy.defaultCredentialMode := by
  show top.policy.defaultCredentialMode.or cm.rootCredentialDefault = _
  rw [ha.rootCredentialDefault, Option.or_none]

theorem compose_root_ok {root : Text} {c : Composition}
    (h : composeFile x store maxSessionImportDepth root true {} = .ok c) :
    ∃ top mid cm, loadFile x store root = .ok top ∧
      Walked x store [] { stack := [root] } top.imports mid cm ∧ Mergeable top true cm ∧
      (∀ w, cm.importedUnmatched = some w → w = top.effectiveUnmatched) ∧
      (∀ w, cm.importedCredentialDefault = some w → w = top.effectiveDefault) ∧
      c = { merged top true cm with
        stack := cm.stack.dropLast
        loaded := insert root cm.loaded
        root := some ⟨top.policy.persistent, top.policy.socketName⟩ } := by
  obtain ⟨call, hw, he⟩ := compose_file_eq x store maxSessionImportDepth
  simp only [he, composeFileWith, bind_ok, refuse_ok, Finset.notMem_empty, ↓reduceIte,
    pure_ok] at h
  obtain ⟨-, -, -, -, -, -, c1, hc, rfl⟩ := h
  obtain ⟨top, mid, cm, hf, -, hwalk, hmerge, hfin⟩ :=
    compose_contents_ok hw (accum_empty.with_stack ([] ++ [root])) hc
  simp only [↓reduceIte, finish_root_ok] at hfin
  obtain ⟨hu, hd, rfl⟩ := hfin
  rw [merged_root_unmatched hwalk.accum, explicit_get_d] at hu
  rw [merged_root_default hwalk.accum] at hd
  exact ⟨top, mid, cm, hf, hwalk, hmerge, hu, hd, rfl⟩

theorem composed_root_run {root : Text} {c' : Composition} {c : SessionConfig}
    (hc : composeFile x store maxSessionImportDepth root true {} = .ok c')
    (h : readSession x store root = .ok c) :
    ∃ top mid cm, RootRun x store root c top mid cm ∧ c'.loaded = insert root cm.loaded := by
  obtain ⟨top, mid, cm, hf, hwalk, hmerge, hu, hd, rfl⟩ := compose_root_ok hc
  refine ⟨top, mid, cm, ⟨hf, hwalk, hmerge, hu, hd, ?_⟩, rfl⟩
  simp only [readSession, hc, ok_bind, pure_ok] at h
  rw [← h, merged_root_unmatched hwalk.accum, merged_root_default hwalk.accum, explicit_get_d]

theorem read_session_run {root : Text} {c : SessionConfig} (h : readSession x store root = .ok c) :
    ∃ top mid cm, RootRun x store root c top mid cm := by
  have hc := h
  simp only [readSession, bind_ok] at hc
  obtain ⟨c', hc, -⟩ := hc
  obtain ⟨top, mid, cm, hr, -⟩ := composed_root_run hc h
  exact ⟨top, mid, cm, hr⟩

section Run

variable {root : Text} {c : SessionConfig} {top : LoadedFile} {mid : List Text} {cm : Composition}

theorem RootRun.visits (h : RootRun x store root c top mid cm) :
    Visits (importsOf x store) [] [root] (mid ++ [root]) := by
  have hv := h.walked.visits
  rw [← imports_of_loaded h.load] at hv
  refine .single (by simp) hv ?_
  intro hm
  exact absurd (h.walked.fresh root (by simp) hm) (by simp)

theorem RootRun.loads (h : RootRun x store root c top mid cm) {name : Text}
    (hn : name ∈ mid ++ [root]) : ∃ file, loadFile x store name = .ok file := by
  rcases List.mem_append.mp hn with hn | hn
  · obtain ⟨file, hf, -⟩ := h.walked.accum.files name hn
    exact ⟨file, hf⟩
  · rw [List.mem_singleton.mp hn]
    exact ⟨top, h.load⟩

theorem RootRun.topological (h : RootRun x store root c top mid cm) :
    Topological (importsOf x store) (mid ++ [root]) := h.visits.topological topological_nil

theorem RootRun.imported (h : RootRun x store root c top mid cm) {a b : Text}
    (ha : a ∈ mid ++ [root]) (hi : Imports store a b) :
    Edge (importsOf x store) a b ∧ b ∈ mid ++ [root] := by
  obtain ⟨file, hf⟩ := h.loads ha
  have he := imports_edge hf hi
  exact ⟨he, (h.topological.index_lt ha he).1⟩

theorem RootRun.reaches_iff (h : RootRun x store root c top mid cm) (name : Text) :
    name ∈ mid ++ [root] ↔ Reaches store root name := by
  constructor
  · intro hn
    rcases h.visits.sound name hn with hn | ⟨u, hu, hr⟩
    · cases hn
    · rw [List.mem_singleton.mp hu] at hr
      exact Relation.ReflTransGen.mono (fun _ _ => edge_imports) _ _ hr
  · intro hr
    induction hr with
    | refl => simp
    | tail _ hi ih => exact (h.imported ih hi).2

theorem RootRun.trans_edge (h : RootRun x store root c top mid cm) {a b : Text}
    (ha : a ∈ mid ++ [root]) (ht : Relation.TransGen (Imports store) a b) :
    Relation.TransGen (Edge (importsOf x store)) a b ∧ b ∈ mid ++ [root] := by
  induction ht with
  | single hi => exact ⟨.single (h.imported ha hi).1, (h.imported ha hi).2⟩
  | tail _ hi ih => exact ⟨.tail ih.1 (h.imported ih.2 hi).1, (h.imported ih.2 hi).2⟩

theorem RootRun.acyclic (h : RootRun x store root c top mid cm) {name : Text}
    (hn : name ∈ mid ++ [root]) : ¬Relation.TransGen (Imports store) name name :=
  fun hc => h.topological.acyclic hn (h.trans_edge hn hc).1

theorem RootRun.rules (h : RootRun x store root c top mid cm) :
    c.rules = (mid ++ [root]).flatMap (rulesOf x store) := by
  rw [h.result]
  show cm.rules ++ top.policy.rules = _
  simp [h.walked.accum.rules, rules_of_loaded h.load]

theorem RootRun.distinct (h : RootRun x store root c top mid cm) :
    (c.rules.map HostRule.host).Nodup := by
  rw [h.result]
  exact merged_distinct h.walked.accum h.load h.mergeable

/-- A reached file is an imported one, accumulated before the root, or the root itself. -/
theorem RootRun.part (h : RootRun x store root c top mid cm) {name : Text} {file : LoadedFile}
    (hp : Part x store root name file) : name ∈ mid ∨ file = top := by
  obtain ⟨hr, hf⟩ := hp
  rcases List.mem_append.mp ((h.reaches_iff name).mpr hr) with hn | hn
  · exact Or.inl hn
  · rw [List.mem_singleton.mp hn, h.load] at hf
    exact Or.inr (Except.ok.inj hf).symm

theorem RootRun.modes (h : RootRun x store root c top mid cm) (secret : Text)
    (mode : CredentialMode) :
    c.credentialModes.get secret = some mode ↔
      ∃ name file, Part x store root name file ∧
        file.policy.credentialModes.get secret = some mode := by
  rw [h.result]
  show (merged top true cm).credentialModes.get secret = some mode ↔ _
  rw [merged_modes h.mergeable, h.walked.accum.credentialModes]
  constructor
  · rintro (⟨name, hn, file, hf, hm⟩ | hm)
    · exact ⟨name, file, ⟨(h.reaches_iff name).mp (List.mem_append_left _ hn), hf⟩, hm⟩
    · exact ⟨root, top, ⟨.refl, h.load⟩, hm⟩
  · rintro ⟨name, file, hp, hm⟩
    rcases h.part hp with hn | rfl
    · exact Or.inl ⟨name, hn, file, hp.2, hm⟩
    · exact Or.inr hm

theorem distinct_parts {order : List Text} {f : Text → List HostRule}
    (h : ((order.flatMap f).map HostRule.host).Nodup) {a b : Text} (ha : a ∈ order)
    (hb : b ∈ order) (hab : a ≠ b) : ∀ ra ∈ f a, ∀ rb ∈ f b, ra.host ≠ rb.host := by
  rw [List.map_flatMap, List.nodup_flatMap] at h
  have hs : Std.Symm (Function.onFun List.Disjoint (fun n => (f n).map HostRule.host)) :=
    ⟨fun _ _ hd => hd.symm⟩
  have hd := h.2.forall ha hb hab
  intro ra hra rb hrb he
  exact hd (List.mem_map_of_mem hra) (he ▸ List.mem_map_of_mem hrb)

theorem RootRun.composable (h : RootRun x store root c top mid cm) : Composable x store root where
  valid := fun name hr => h.loads ((h.reaches_iff name).mpr hr)
  acyclic := fun name hr => h.acyclic ((h.reaches_iff name).mpr hr)
  lifecycle := by
    intro name file ht hf
    have hroot : root ∈ mid ++ [root] := by simp
    rcases List.mem_append.mp (h.trans_edge hroot ht).2 with hn | hn
    · obtain ⟨file', hf', hl⟩ := h.walked.accum.files name hn
      rw [hf] at hf'
      rw [Except.ok.inj hf']
      exact hl
    · rw [List.mem_singleton.mp hn] at ht
      exact absurd ht (h.acyclic hroot)
  hosts := by
    intro a b fa fb ha hb hab ra hra rb hrb
    have hd := h.distinct
    rw [h.rules] at hd
    refine distinct_parts hd ((h.reaches_iff a).mpr ha.1) ((h.reaches_iff b).mpr hb.1) hab ra ?_ rb ?_
    · rwa [rules_of_loaded ha.2]
    · rwa [rules_of_loaded hb.2]
  unmatched := by
    intro top' name file ht hp he
    rw [h.load] at ht
    obtain rfl := Except.ok.inj ht
    rcases h.part hp with hn | rfl
    · refine h.unmatched _ ((h.walked.accum.unmatched _).mpr ⟨name, hn, file, hp.2, ?_⟩)
      simp [LoadedFile.explicitUnmatched, he]
    · simp [LoadedFile.effectiveUnmatched, he]
  credentialDefault := by
    intro top' name file mode ht hp he
    rw [h.load] at ht
    obtain rfl := Except.ok.inj ht
    rcases h.part hp with hn | rfl
    · exact h.credentialDefault _
        ((h.walked.accum.credentialDefault _).mpr ⟨name, hn, file, hp.2, he⟩)
    · simp [LoadedFile.effectiveDefault, he]
  credentialModes := by
    intro a b fa fb secret ma mb ha hb hma hmb
    have hca := (h.modes secret ma).mpr ⟨a, fa, ha, hma⟩
    have hcb := (h.modes secret mb).mpr ⟨b, fb, hb, hmb⟩
    exact Option.some.inj (hca.symm.trans hcb)

theorem RootRun.composes (h : RootRun x store root c top mid cm) : Composes x store root c where
  rules := ⟨mid ++ [root], h.visits, h.visits.nodup List.nodup_nil, h.reaches_iff, h.rules⟩
  settings := ⟨top, h.load, by simp [h.result], by simp [h.result], by simp [h.result],
    by simp [h.result]⟩
  credentialModes := h.modes

end Run

/-- A composed session keeps the guarantees of its files. -/
theorem read_session_rules {root : Text} {c : SessionConfig}
    (h : readSession x store root = .ok c) : ValidRules x c.rules := by
  obtain ⟨top, mid, cm, hr⟩ := read_session_run h
  refine ⟨hr.distinct, ?_⟩
  intro rule hm
  rw [hr.rules, List.mem_flatMap] at hm
  obtain ⟨name, hn, hm⟩ := hm
  obtain ⟨file, hf⟩ := hr.loads hn
  rw [rules_of_loaded hf] at hm
  exact (load_file_rules hf).each rule hm

/-- The run ends with a result or at one of the two limits. -/
def Settles (r : Except SessionConfigFileError Composition) : Prop :=
  (∃ c, r = .ok c) ∨ r = .error depthError ∨ r = .error fileCountError

theorem settles_ok {c : Composition} : Settles (pure c) := Or.inl ⟨c, rfl⟩

theorem settles_bind {m : Except SessionConfigFileError Composition}
    {f : Composition → Except SessionConfigFileError Composition} (hm : Settles m)
    (hf : ∀ c, m = .ok c → Settles (f c)) : Settles (m >>= f) := by
  rcases hm with ⟨c, rfl⟩ | rfl | rfl
  · exact hf c rfl
  · exact Or.inr (Or.inl rfl)
  · exact Or.inr (Or.inr rfl)

theorem settles_depth {b : Bool} {m : Except SessionConfigFileError Composition} (hm : Settles m) :
    Settles (refuse b depthError >>= fun _ => m) := by
  cases b with
  | true => exact Or.inr (Or.inl rfl)
  | false => exact hm

theorem settles_count {b : Bool} {m : Except SessionConfigFileError Composition} (hm : Settles m) :
    Settles (refuse b fileCountError >>= fun _ => m) := by
  cases b with
  | true => exact Or.inr (Or.inr rfl)
  | false => exact hm

/-- Files done so far are reached from the root, and every file on the stack
leads to the file about to be read. -/
structure OnPath (store : SessionConfigStore) (root name : Text) (done stack : List Text) :
    Prop where
  reached : ∀ n ∈ done, Relation.TransGen (Imports store) root n
  target : Relation.TransGen (Imports store) root name
  stack : ∀ n ∈ stack, Relation.TransGen (Imports store) n name

def Completes (x : Crates) (store : SessionConfigStore) (root : Text)
    (call : Text → Composition → Except SessionConfigFileError Composition) : Prop :=
  ∀ name c done, Accum x store done c → OnPath store root name done c.stack → Settles (call name c)

section Complete

variable {root : Text} {call : Text → Composition → Except SessionConfigFileError Composition}

theorem explicit_agrees (hg : Composable x store root) {top file : LoadedFile} {name : Text}
    {v : UnmatchedHostPolicy} (htop : loadFile x store root = .ok top)
    (hp : Part x store root name file) (he : file.explicitUnmatched = some v) :
    v = top.effectiveUnmatched := by
  unfold LoadedFile.explicitUnmatched at he
  split at he
  · rename_i hpres
    rw [← Option.some.inj he]
    exact hg.unmatched top name file htop hp hpres
  · cases he

theorem composable_mergeable (hg : Composable x store root) {name : Text} {file : LoadedFile}
    {done : List Text} {c : Composition} (ha : Accum x store done c)
    (hf : loadFile x store name = .ok file) (hp : Reaches store root name)
    (hd : ∀ n ∈ done, Reaches store root n) (hn : name ∉ done) (isRoot : Bool) :
    Mergeable file isRoot c := by
  obtain ⟨top, htop⟩ := hg.valid root .refl
  have hpart : Part x store root name file := ⟨hp, hf⟩
  refine ⟨?_, ?_, ?_, ?_⟩
  · intro v w hv hw
    cases isRoot with
    | true => simp [ha.rootUnmatched] at hw
    | false =>
      obtain ⟨n, hn, f, hfn, he⟩ := (ha.unmatched w).mp hw
      rw [explicit_agrees hg htop ⟨hd n hn, hfn⟩ he, explicit_agrees hg htop hpart hv]
  · intro v w hv hw
    cases isRoot with
    | true => simp [ha.rootCredentialDefault] at hw
    | false =>
      obtain ⟨n, hn, f, hfn, he⟩ := (ha.credentialDefault w).mp hw
      rw [hg.credentialDefault top n f w htop ⟨hd n hn, hfn⟩ he,
        hg.credentialDefault top name file v htop hpart hv]
  · intro secret v w hv hw
    obtain ⟨n, hn, f, hfn, he⟩ := (ha.credentialModes secret w).mp hw
    exact hg.credentialModes n name f file secret w v ⟨hd n hn, hfn⟩ hpart he hv
  · intro r hr hm
    rw [ha.hosts, List.mem_toFinset, List.mem_map] at hm
    obtain ⟨q, hq, he⟩ := hm
    rw [ha.rules, List.mem_flatMap] at hq
    obtain ⟨n, hn', hq⟩ := hq
    obtain ⟨f, hfn, -⟩ := ha.files n hn'
    rw [rules_of_loaded hfn] at hq
    have hne : n ≠ name := fun h => hn (h ▸ hn')
    exact hg.hosts n name f file ⟨hd n hn', hfn⟩ hpart hne q hq r hr he

theorem composable_finish (hg : Composable x store root) {top : LoadedFile} {done : List Text}
    {c : Composition} (ha : Accum x store done c) (hf : loadFile x store root = .ok top)
    (hd : ∀ n ∈ done, Reaches store root n) :
    ∃ c', Composition.finishRoot top.policy (merged top true c) = .ok c' := by
  refine ⟨_, finish_root_ok.mpr ⟨?_, ?_, rfl⟩⟩
  · intro w hw
    obtain ⟨n, hn, f, hfn, he⟩ := (ha.unmatched w).mp hw
    rw [merged_root_unmatched ha, explicit_get_d]
    exact explicit_agrees hg hf ⟨hd n hn, hfn⟩ he
  · intro w hw
    obtain ⟨n, hn, f, hfn, he⟩ := (ha.credentialDefault w).mp hw
    rw [merged_root_default ha]
    exact hg.credentialDefault top n f w hf ⟨hd n hn, hfn⟩ he

/-- Every file newly done below reached files is reached. -/
theorem walked_reached {name : Text} {done todo done' : List Text} {c c' : Composition}
    (h : Walked x store done c todo done' c') (hr : Reaches store root name)
    (ht : ∀ n ∈ todo, Imports store name n)
    (hd : ∀ n ∈ done, Relation.TransGen (Imports store) root n) :
    ∀ n ∈ done', Relation.TransGen (Imports store) root n := by
  intro n hn
  rcases h.visits.sound n hn with hn | ⟨u, hu, he⟩
  · exact hd n hn
  · have hb : Relation.ReflTransGen (Imports store) u n :=
      Relation.ReflTransGen.mono (fun _ _ => edge_imports) _ _ he
    exact (Relation.TransGen.tail' hr (ht u hu)).trans_left hb

theorem compose_imports_settles (hw : Walks x store call) (hc : Completes x store root call)
    {name : Text} {entries names done : List Text} {c : Composition} (ha : Accum x store done c)
    (hn : resolveImports name entries = .ok names) (hi : ∀ n ∈ names, Imports store name n)
    (hr : Reaches store root name) (hd : ∀ n ∈ done, Relation.TransGen (Imports store) root n)
    (hs : ∀ n ∈ c.stack, Relation.ReflTransGen (Imports store) n name) :
    Settles (composeImports call name entries c) := by
  induction entries generalizing names done c with
  | nil => exact settles_ok
  | cons entry entries ih =>
    simp only [resolveImports, bind_ok, pure_ok] at hn
    obtain ⟨first, hf, rest, hrest, rfl⟩ := hn
    have hfirst : Imports store name first := hi first (by simp)
    simp only [composeImports, hf, ok_bind]
    refine settles_bind (hc first c done ha ⟨hd, .tail' hr hfirst, ?_⟩) ?_
    · exact fun n hn => .tail' (hs n hn) hfirst
    · intro c1 h1
      obtain ⟨done1, hwalk⟩ := hw first c c1 done ha h1
      refine ih hwalk.accum hrest (fun n hn => hi n (List.mem_cons_of_mem _ hn)) ?_ ?_
      · exact walked_reached hwalk hr (fun n hn => List.mem_singleton.mp hn ▸ hfirst) hd
      · rw [hwalk.stack]
        exact hs

/-- The contents of one file settle as soon as its imports do. -/
theorem compose_contents_settles (hg : Composable x store root) (hw : Walks x store call)
    (hc : Completes x store root call) {name : Text} {isRoot : Bool} {done : List Text}
    {c : Composition} (ha : Accum x store done c) (hr : Reaches store root name)
    (hroot : isRoot = false → Relation.TransGen (Imports store) root name)
    (htop : isRoot = true → name = root)
    (hd : ∀ n ∈ done, Relation.TransGen (Imports store) root n) (hn : name ∉ done)
    (hname : name ∈ c.stack) (hs : ∀ n ∈ c.stack, Relation.ReflTransGen (Imports store) n name) :
    Settles (composeFileContents x store call name isRoot c) := by
  obtain ⟨file, hf⟩ := hg.valid name hr
  obtain ⟨entries, hdoc, hentries, himports, hpolicy⟩ := load_file_ok.mp hf
  have hl : (!isRoot && (file.document.persistent.present || file.document.socketName.present))
      = false := by
    cases isRoot with
    | true => rfl
    | false =>
      obtain ⟨hp, hsock⟩ := hg.lifecycle name file (hroot rfl) hf
      simp [hp, hsock]
  have hi : ∀ n ∈ file.imports, Imports store name n := fun n hn => (imports_iff hf).mpr hn
  simp only [composeFileContents, hdoc, hl, hentries, ok_bind, refuse_false_bind]
  refine settles_bind (compose_imports_settles hw hc ha himports hi hr hd hs) ?_
  intro cm hcm
  obtain ⟨names, mid, hnames, hwalk⟩ := compose_imports_ok hw ha hcm
  obtain rfl : file.imports = names := Except.ok.inj (himports.symm.trans hnames)
  have hmid : ∀ n ∈ mid, Reaches store root n := fun n hm =>
    (walked_reached hwalk hr hi hd n hm).to_reflTransGen
  have hmerge := composable_mergeable hg hwalk.accum hf hr hmid
    (fun hm => hn (hwalk.fresh name hname hm)) isRoot
  rw [hpolicy]
  show Settles (Composition.merge name isRoot file.document.unmatched.present file.policy cm)
  cases isRoot with
  | false =>
    refine Or.inl ⟨merged file false cm, (merge_ok file (load_file_rules hf).hosts).mpr ⟨hmerge, ?_⟩⟩
    simp
  | true =>
    obtain rfl := htop rfl
    obtain ⟨c', hfin⟩ := composable_finish hg hwalk.accum hf hmid
    exact Or.inl ⟨c', (merge_ok file (load_file_rules hf).hosts).mpr ⟨hmerge, hfin⟩⟩

theorem compose_file_completes (hg : Composable x store root) (hw : Walks x store call)
    (hc : Completes x store root call) :
    Completes x store root (fun name c => composeFileWith x store call name false c) := by
  intro name c done ha hp
  have hreach : Reaches store root name := hp.target.to_reflTransGen
  have hstack : name ∉ c.stack := fun hm => hg.acyclic name hreach (hp.stack name hm)
  simp only [composeFileWith, List.contains_eq_mem, hstack, decide_false, refuse_false_bind]
  split
  · exact settles_ok
  · rename_i hl
    rw [ha.loaded, List.mem_toFinset] at hl
    refine settles_depth (settles_count (settles_bind ?_ fun _ _ => settles_ok))
    refine compose_contents_settles hg hw hc (ha.with_stack _) hreach (fun _ => hp.target)
      (by simp) hp.reached hl (by simp) ?_
    intro n hn
    rcases List.mem_append.mp hn with hn | hn
    · exact (hp.stack n hn).to_reflTransGen
    · rw [List.mem_singleton.mp hn]

theorem compose_file_settles (hg : Composable x store root) (room : Nat) :
    ∃ call, Walks x store call ∧ Completes x store root call ∧
      composeFile x store room = composeFileWith x store call := by
  induction room with
  | zero =>
    refine ⟨_, ?_, ?_, rfl⟩
    · intro name c c' done ha h
      simp at h
    · intro name c done ha hp
      exact Or.inr (Or.inl rfl)
  | succ room ih =>
    obtain ⟨call, hw, hc, he⟩ := ih
    refine ⟨_, ?_, ?_, rfl⟩
    · rw [he]
      exact compose_file_walks hw
    · rw [he]
      exact compose_file_completes hg hw hc

/-- A composable graph is read, or one of the limits is hit. -/
theorem read_session_settles (hg : Composable x store root) :
    (∃ c, readSession x store root = .ok c) ∨ readSession x store root = .error depthError ∨
      readSession x store root = .error fileCountError := by
  obtain ⟨call, hw, hc, he⟩ := compose_file_settles hg maxSessionImportDepth
  have hs : Settles (composeFile x store maxSessionImportDepth root true {}) := by
    rw [he]
    simp only [composeFileWith, List.contains_nil, refuse_false_bind, Finset.notMem_empty,
      ↓reduceIte]
    refine settles_depth (settles_count (settles_bind ?_ fun _ _ => settles_ok))
    refine compose_contents_settles hg hw hc (accum_empty.with_stack _) .refl (by simp)
      (fun _ => rfl) (by simp) (by simp) (by simp) ?_
    intro n hn
    rw [List.mem_singleton.mp hn]
  rcases hs with ⟨c, hok⟩ | herr | herr
  · obtain ⟨top, mid, cm, -, -, -, -, -, rfl⟩ := compose_root_ok hok
    rw [readSession, hok, ok_bind]
    exact Or.inl ⟨_, rfl⟩
  · exact Or.inr (Or.inl (by rw [readSession, herr, error_bind]))
  · exact Or.inr (Or.inr (by rw [readSession, herr, error_bind]))

end Complete

/-- A session is composed exactly when its import graph can be, short of the
limits on depth and file count, and the result is the composition of the graph. -/
theorem read_session_composes (x : Crates) (store : SessionConfigStore) (root : Text) :
    ((∃ c, readSession x store root = .ok c) ↔
      Composable x store root ∧ readSession x store root ≠ .error depthError ∧
        readSession x store root ≠ .error fileCountError) ∧
    ∀ c, readSession x store root = .ok c → Composes x store root c := by
  refine ⟨⟨?_, ?_⟩, ?_⟩
  · rintro ⟨c, h⟩
    obtain ⟨top, mid, cm, hr⟩ := read_session_run h
    exact ⟨hr.composable, by simp [h], by simp [h]⟩
  · rintro ⟨hg, hdepth, hcount⟩
    rcases read_session_settles hg with h | h | h
    · exact h
    · exact absurd h hdepth
    · exact absurd h hcount
  · intro c h
    obtain ⟨top, mid, cm, hr⟩ := read_session_run h
    exact hr.composes

end Baffle.Proofs
