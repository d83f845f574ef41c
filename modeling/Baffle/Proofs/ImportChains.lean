import Baffle.Proofs.Credentials

namespace Baffle.Proofs

variable {x : Crates} {store : SessionConfigStore} {root : Text}

/-- `name` is the last file of a chain of `n + 1` files that starts at the root. -/
inductive Depth (store : SessionConfigStore) (root : Text) : Nat → Text → Prop where
  | root : Depth store root 0 root
  | imported {n : Nat} {a b : Text} (above : Depth store root n a) (hi : Imports store a b) :
      Depth store root (n + 1) b

theorem Depth.reaches {n : Nat} {name : Text} (h : Depth store root n name) :
    Reaches store root name := by
  induction h with
  | root => exact .refl
  | imported above hi ih => exact .tail ih hi

theorem depth_chain {n : Nat} {a : Text} {rest : List Text} (ha : Depth store root n a)
    (h : (a :: rest).IsChain (Imports store)) :
    ∀ b, (a :: rest).getLast? = some b → Depth store root (n + rest.length) b := by
  induction rest generalizing n a with
  | nil =>
    intro b hb
    simp only [List.getLast?_singleton, Option.some.injEq] at hb
    subst hb
    exact ha
  | cons c rest ih =>
    rw [List.isChain_cons_cons] at h
    intro b hb
    have hd := ih (.imported ha h.1) h.2 b (by simpa using hb)
    rw [List.length_cons, Nat.add_comm rest.length, ← Nat.add_assoc]
    exact hd

/-- The walk reached the file on a chain within the limit. -/
def Within (store : SessionConfigStore) (root name : Text) : Prop :=
  ∃ n < maxSessionImportDepth, Depth store root n name

def Shallow (x : Crates) (store : SessionConfigStore) (root : Text)
    (call : Text → Composition → Except SessionConfigFileError Composition) : Prop :=
  ∀ name c c' done, Accum x store done c → Depth store root c.stack.length name →
    (∀ v ∈ c.loaded, Within store root v) → call name c = .ok c' →
    ∀ v ∈ c'.loaded, Within store root v

section Walk

variable {call : Text → Composition → Except SessionConfigFileError Composition}

theorem compose_imports_within (hw : Walks x store call) (hs : Shallow x store root call)
    {name : Text} {entries names done : List Text} {c c' : Composition}
    (ha : Accum x store done c) (hn : resolveImports name entries = .ok names)
    (hi : ∀ b ∈ names, Depth store root c.stack.length b)
    (hl : ∀ v ∈ c.loaded, Within store root v)
    (h : composeImports call name entries c = .ok c') : ∀ v ∈ c'.loaded, Within store root v := by
  induction entries generalizing names done c with
  | nil =>
    simp only [composeImports, pure_ok] at h
    subst h
    exact hl
  | cons entry entries ih =>
    simp only [resolveImports, bind_ok, pure_ok] at hn
    obtain ⟨first, hf, rest, hrest, rfl⟩ := hn
    simp only [composeImports, hf, ok_bind, bind_ok] at h
    obtain ⟨mid, hm, h⟩ := h
    obtain ⟨done1, hwalk⟩ := hw first c mid done ha hm
    have hmid := hs first c mid done ha (hi first (by simp)) hl hm
    apply ih hwalk.accum hrest _ hmid h
    intro b hb
    rw [hwalk.stack]
    exact hi b (by simp [hb])

theorem compose_contents_within (hw : Walks x store call) (hs : Shallow x store root call)
    {name : Text} {isRoot : Bool} {done : List Text} {n : Nat} {c c' : Composition}
    (ha : Accum x store done c) (hd : Depth store root n name) (hn : c.stack.length = n + 1)
    (hl : ∀ v ∈ c.loaded, Within store root v)
    (h : composeFileContents x store call name isRoot c = .ok c') :
    ∀ v ∈ c'.loaded, Within store root v := by
  simp only [composeFileContents, bind_ok, refuse_ok] at h
  obtain ⟨document, hdoc, -, -, entries, he, cm, hc, policy, hp, hm⟩ := h
  obtain ⟨names, mid, hnames, -⟩ := compose_imports_ok hw ha hc
  have hf : loadFile x store name = .ok ⟨document, names, policy⟩ :=
    load_file_ok.mpr ⟨entries, hdoc, he, hnames, hp⟩
  have hmid : ∀ v ∈ cm.loaded, Within store root v := by
    apply compose_imports_within hw hs ha hnames _ hl hc
    intro b hb
    rw [hn]
    exact .imported hd ((imports_iff hf).mpr hb)
  obtain ⟨-, hfin⟩ := (merge_ok ⟨document, names, policy⟩ (load_file_rules hf).hosts).mp hm
  have hsame : c'.loaded = cm.loaded := by
    cases isRoot with
    | false =>
      simp only [Bool.false_eq_true, ↓reduceIte, pure_ok] at hfin
      rw [← hfin]
      rfl
    | true =>
      simp only [↓reduceIte, finish_root_ok] at hfin
      rw [hfin.2.2]
      rfl
  rw [hsame]
  exact hmid

theorem compose_file_within (hw : Walks x store call) (hs : Shallow x store root call)
    {name : Text} {isRoot : Bool} {done : List Text} {c c' : Composition}
    (ha : Accum x store done c) (hd : Depth store root c.stack.length name)
    (hl : ∀ v ∈ c.loaded, Within store root v)
    (h : composeFileWith x store call name isRoot c = .ok c') :
    ∀ v ∈ c'.loaded, Within store root v := by
  simp only [composeFileWith, bind_ok] at h
  obtain ⟨-, -, h⟩ := h
  split at h
  · rw [pure_ok] at h
    subst h
    exact hl
  · simp only [bind_ok, refuse_ok, pure_ok] at h
    obtain ⟨-, hroom, -, -, c1, hc, rfl⟩ := h
    have hbelow := compose_contents_within hw hs (ha.with_stack (c.stack ++ [name])) hd
      (by simp) hl hc
    intro v hv
    rcases Finset.mem_insert.mp hv with rfl | hv
    · exact ⟨c.stack.length, by simpa using hroom, hd⟩
    · exact hbelow v hv

end Walk

theorem compose_file_shallow (x : Crates) (store : SessionConfigStore) (root : Text) (room : Nat) :
    ∃ call, Walks x store call ∧ Shallow x store root call ∧
      composeFile x store room = composeFileWith x store call := by
  induction room with
  | zero =>
    refine ⟨_, ?_, ?_, rfl⟩
    · intro name c c' done ha h
      simp at h
    · intro name c c' done ha hd hl h
      simp at h
  | succ room ih =>
    obtain ⟨call, hw, hs, he⟩ := ih
    refine ⟨_, ?_, ?_, rfl⟩
    · rw [he]
      exact compose_file_walks hw
    · rw [he]
      intro name c c' done ha hd hl h
      exact compose_file_within hw hs ha hd hl h

/-- Every file of an accepted graph is at the end of some chain within the limit. -/
theorem read_session_within {c : SessionConfig} (h : readSession x store root = .ok c) :
    ∀ v, Reaches store root v → Within store root v := by
  have hc := h
  simp only [readSession, bind_ok] at hc
  obtain ⟨c', hc, -⟩ := hc
  obtain ⟨top, mid, cm, hr, hloaded⟩ := composed_root_run hc h
  obtain ⟨call, hw, hs, he⟩ := compose_file_shallow x store root maxSessionImportDepth
  rw [he] at hc
  have hall := compose_file_within hw hs accum_empty .root (by simp) hc
  intro v hv
  apply hall
  have hmem := (hr.reaches_iff v).mpr hv
  rw [hloaded, hr.walked.accum.loaded]
  simpa [or_comm] using hmem

/-- Two different files of the graph import `name`. -/
def Shared (store : SessionConfigStore) (root name : Text) : Prop :=
  ∃ a b, a ≠ b ∧ Reaches store root a ∧ Reaches store root b ∧ Imports store a name ∧
    Imports store b name

/-- A chain without shared files is the only one to its last file. -/
theorem depth_unique (hacyclic : ¬Relation.TransGen (Imports store) root root) {rest : List Text}
    (hc : (root :: rest).IsChain (Imports store)) (hs : ∀ f ∈ rest, ¬Shared store root f) {n : Nat}
    {b : Text} (hb : (root :: rest).getLast? = some b) (hd : Depth store root n b) :
    n = rest.length := by
  induction rest using List.reverseRecOn generalizing n b with
  | nil =>
    simp only [List.getLast?_singleton, Option.some.injEq] at hb
    subst hb
    cases hd with
    | root => rfl
    | imported above hi => exact absurd (Relation.TransGen.tail' above.reaches hi) hacyclic
  | append_singleton rest last ih =>
    rw [← List.cons_append] at hc hb
    rw [List.getLast?_concat, Option.some.injEq] at hb
    subst hb
    obtain ⟨hinit, -, hedge⟩ := List.isChain_append.mp hc
    obtain ⟨a, ha⟩ : ∃ a, (root :: rest).getLast? = some a := by
      cases h : (root :: rest).getLast? with
      | none => simp at h
      | some a => exact ⟨a, rfl⟩
    have hlast : Imports store a last := hedge a (by simp [ha]) last (by simp)
    have hreach : Reaches store root a := by
      have := depth_chain (.root : Depth store root 0 root) hinit a ha
      exact this.reaches
    cases hd with
    | root => exact absurd (Relation.TransGen.tail' hreach hlast) hacyclic
    | @imported m a' _ above hi =>
      have hsame : a' = a := by
        by_contra hne
        exact hs last (by simp) ⟨a', a, hne, above.reaches, hreach, hi, hlast⟩
      subst hsame
      rw [ih hinit (fun f hf => hs f (by simp [hf])) ha above, List.length_append]
      rfl

/-- In an accepted graph every import chain is within the limit exactly when
those that pass through a file with several importers are. -/
theorem import_chain_limit (x : Crates) (store : SessionConfigStore) (root : Text)
    (c : SessionConfig) (h : readSession x store root = .ok c) :
    (∀ rest, (root :: rest).IsChain (Imports store) →
        (root :: rest).length ≤ maxSessionImportDepth) ↔
      ∀ f, Shared store root f → ∀ above below,
        (root :: above ++ [f]).IsChain (Imports store) → (f :: below).IsChain (Imports store) →
          (root :: above).length + (f :: below).length ≤ maxSessionImportDepth := by
  constructor
  · intro hall f _ above below ha hb
    have hjoin : (root :: (above ++ f :: below)).IsChain (Imports store) := by
      obtain ⟨hinit, -, hedge⟩ := List.isChain_append.mp ha
      rw [← List.cons_append]
      exact hinit.append hb (by simpa using hedge)
    have hlen := hall _ hjoin
    simp only [List.length_cons, List.length_append] at hlen ⊢
    omega
  · intro hshared rest hc
    by_cases hs : ∃ f ∈ rest, Shared store root f
    · obtain ⟨f, hf, hs⟩ := hs
      obtain ⟨above, below, rfl⟩ := List.append_of_mem hf
      rw [← List.cons_append, List.isChain_append] at hc
      obtain ⟨hinit, hrest, hedge⟩ := hc
      have hlen := hshared f hs above below
        (hinit.append (by simp) (by simpa using hedge)) hrest
      simpa [Nat.add_assoc, Nat.add_comm, Nat.add_left_comm] using hlen
    · push Not at hs
      obtain ⟨top, mid, cm, hr⟩ := read_session_run h
      obtain ⟨b, hb⟩ : ∃ b, (root :: rest).getLast? = some b := by
        cases hl : (root :: rest).getLast? with
        | none => simp at hl
        | some b => exact ⟨b, rfl⟩
      have hdepth := depth_chain (.root : Depth store root 0 root) hc b hb
      obtain ⟨n, hn, hd⟩ := read_session_within h b hdepth.reaches
      have hacyclic := hr.acyclic (by simp : root ∈ mid ++ [root])
      have hlen := depth_unique hacyclic hc hs hb hd
      simp only [List.length_cons]
      omega

def letterFile (letter : Char) : Text := letter :: ".toml".toList

/-- The files `a` to `z` and `A` to `H`, each importing the next; `a` imports `q` first. -/
def letterImports (letter : Char) : List Char :=
  if letter = 'a' then ['q', 'b']
  else if letter = 'z' then ['A']
  else if letter = 'H' then []
  else [Char.ofNat (letter.toNat + 1)]

def letterStore : SessionConfigStore where
  readSnapshot
    | [] => .error ⟨.notFound, "session configuration was not found"⟩
    | letter :: _ => .ok (.table {
        version := .value 2
        persistent := .absent
        socketName := .absent
        unmatched := .absent
        rules := none
        credentials := .absent
        imports := .value ((letterImports letter).map (fun i => some (letterFile i)))
        unsupportedFields := [] })

def letterChain : List Text :=
  "bcdefghijklmnopqrstuvwxyzABCDEFGH".toList.map letterFile

theorem letters_accepted : ∃ c, readSession sampleCrates letterStore (letterFile 'a') = .ok c := by
  have hok : (readSession sampleCrates letterStore (letterFile 'a')).toBool = true := by
    decide +kernel
  cases h : readSession sampleCrates letterStore (letterFile 'a') with
  | ok c => exact ⟨c, rfl⟩
  | error e =>
    rw [h] at hok
    cases hok

theorem letters_chain : (letterFile 'a' :: letterChain).IsChain (Imports letterStore) := by
  have hedges : (letterFile 'a' :: letterChain).IsChain
      (fun a b => b ∈ importsOf sampleCrates letterStore a) := by decide +kernel
  exact hedges.imp (fun _ _ he => edge_imports he)

/-- A chain of 34 files is accepted because its second half is read first. -/
theorem import_chain_exceeds : ∃ c, readSession sampleCrates letterStore (letterFile 'a') = .ok c ∧
    ∃ rest, (letterFile 'a' :: rest).IsChain (Imports letterStore) ∧
      maxSessionImportDepth < (letterFile 'a' :: rest).length := by
  obtain ⟨c, hc⟩ := letters_accepted
  exact ⟨c, hc, letterChain, letters_chain, by decide⟩

/-- In that graph a file with two importers lies on too long a chain. -/
theorem import_chain_limit_letters :
    ∃ f, Shared letterStore (letterFile 'a') f ∧ ∃ above below,
      (letterFile 'a' :: above ++ [f]).IsChain (Imports letterStore) ∧
      (f :: below).IsChain (Imports letterStore) ∧
        maxSessionImportDepth < (letterFile 'a' :: above).length + (f :: below).length := by
  obtain ⟨c, hc⟩ := letters_accepted
  have hlong : ¬∀ rest, (letterFile 'a' :: rest).IsChain (Imports letterStore) →
      (letterFile 'a' :: rest).length ≤ maxSessionImportDepth := by
    intro hall
    exact absurd (hall letterChain letters_chain) (by decide)
  rw [import_chain_limit sampleCrates letterStore (letterFile 'a') c hc] at hlong
  push Not at hlong
  exact hlong

end Baffle.Proofs
