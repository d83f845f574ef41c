import Baffle.Proofs.ReadSession
import Baffle.Server
import Baffle.Lib.Split

namespace Baffle.Proofs

variable {name importer imported : Text} {components dir : List Text}

/-- A name of a session file below the configuration directory. -/
structure SessionFileName (name : Text) : Prop where
  toml : ".toml".toList <:+ name
  short : name.len ≤ maxSessionConfigNameBytes
  characters : ∀ c ∈ name, Text.isControl c = false ∧ c ≠ '\\' ∧ c ≠ ':'
  components : ∀ component ∈ name.splitOn '/', component ≠ [] ∧ component ≠ ['.'] ∧
    component ≠ ['.', '.'] ∧ Text.len component ≤ maxSessionConfigComponentBytes

theorem validate_name_ok {u : Unit} :
    validateSessionConfigName name = .ok u ↔ SessionFileName name := by
  unfold validateSessionConfigName
  simp only [refuse_ok, Bool.or_eq_false_iff, List.isEmpty_eq_false_iff, decide_eq_false_iff_not,
    not_lt, Bool.not_eq_false', List.isSuffixOf_iff_suffix, List.any_eq_false, beq_iff_eq,
    Bool.or_eq_true, not_or, List.isEmpty_iff, decide_eq_true_eq, Bool.not_eq_true]
  constructor
  · rintro ⟨⟨⟨⟨⟨-, hshort⟩, htoml⟩, hslash⟩, hcontrol⟩, hcomponents⟩
    refine ⟨htoml, hshort, fun c hc => ⟨hcontrol c hc, hslash c hc⟩, fun component hm => ?_⟩
    obtain ⟨⟨⟨hne, hdot⟩, hdots⟩, hlen⟩ := hcomponents component hm
    exact ⟨hne, hdot, hdots, hlen⟩
  · intro h
    refine ⟨⟨⟨⟨⟨?_, h.short⟩, h.toml⟩, fun c hc => (h.characters c hc).2⟩,
      fun c hc => (h.characters c hc).1⟩, fun component hm => ?_⟩
    · rintro rfl
      exact absurd (List.suffix_nil.mp h.toml) (by decide)
    · obtain ⟨hne, hdot, hdots, hlen⟩ := h.components component hm
      exact ⟨⟨⟨hne, hdot⟩, hdots⟩, hlen⟩

/-- The directory of a file, as a list of names. -/
def directoryOf (name : Text) : List Text := (name.splitOn '/').dropLast

/-- One component of a relative path, seen from a directory. -/
def followPath (dir : List Text) (component : Text) : List Text :=
  if component = ['.'] then dir
  else if component = ['.', '.'] then dir.dropLast
  else dir ++ [component]

def lexicalPath (importer imported : Text) : List Text :=
  (imported.splitOn '/').foldl followPath (directoryOf importer)

def lexicalName (importer imported : Text) : Text :=
  List.intercalate ['/'] (lexicalPath importer imported)

/-- How much deeper a component leads. -/
def descent (component : Text) : Int :=
  if component = ['.'] then 0 else if component = ['.', '.'] then -1 else 1

/-- After some of the components the path is above the directory at depth zero. -/
def ClimbsAbove (depth : Int) (components : List Text) : Prop :=
  ∃ walked, walked <+: components ∧ depth + (walked.map descent).sum < 0

/-- Why an import is refused. -/
inductive ImportRefused (importer imported : Text) : Prop where
  | empty (h : imported = [])
  | long (h : maxSessionConfigNameBytes < imported.len)
  | absolute (h : imported.head? = some '/')
  | emptyComponent (h : [] ∈ imported.splitOn '/')
  | character (c : Char) (hm : c ∈ imported) (h : Text.isControl c = true ∨ c = '\\' ∨ c = ':')
  | climbs (h : ClimbsAbove (directoryOf importer).length (imported.splitOn '/'))
  | name (h : ¬SessionFileName (lexicalName importer imported))

theorem climbs_nil {depth : Int} : ClimbsAbove depth [] ↔ depth < 0 := by
  constructor
  · rintro ⟨walked, hw, h⟩
    rw [List.prefix_nil.mp hw, List.map_nil, List.sum_nil, add_zero] at h
    exact h
  · intro h
    exact ⟨[], List.prefix_rfl, by simpa using h⟩

theorem climbs_cons {depth : Int} {component : Text} (hd : 0 ≤ depth) :
    ClimbsAbove depth (component :: components) ↔
      ClimbsAbove (depth + descent component) components := by
  constructor
  · rintro ⟨walked, hw, h⟩
    cases walked with
    | nil =>
      rw [List.map_nil, List.sum_nil, add_zero] at h
      omega
    | cons first walked =>
      obtain ⟨rfl, hrest⟩ := List.cons_prefix_cons.mp hw
      rw [List.map_cons, List.sum_cons, ← add_assoc] at h
      exact ⟨walked, hrest, h⟩
  · rintro ⟨walked, hw, h⟩
    refine ⟨component :: walked, List.cons_prefix_cons.mpr ⟨rfl, hw⟩, ?_⟩
    rw [List.map_cons, List.sum_cons, ← add_assoc]
    exact h

theorem climbs_negative {depth : Int} (hd : depth < 0) : ClimbsAbove depth components :=
  ⟨[], List.nil_prefix, by simpa using hd⟩

/-- The walk over the components fails exactly at an empty one or above the directory. -/
theorem walk_components_ok {path : List Text} : walkComponents dir components = some path ↔
    [] ∉ components ∧ ¬ClimbsAbove dir.length components ∧ path = components.foldl followPath dir := by
  induction components generalizing dir with
  | nil =>
    simp only [walkComponents, Option.some.injEq, List.not_mem_nil, not_false_eq_true, true_and,
      List.foldl_nil, climbs_nil]
    constructor
    · rintro rfl
      exact ⟨by omega, rfl⟩
    · rintro ⟨-, rfl⟩
      rfl
  | cons component components ih =>
    rw [walkComponents, climbs_cons (Int.natCast_nonneg _), List.foldl_cons, List.mem_cons, not_or]
    by_cases hempty : component = []
    · rw [if_pos hempty]
      simp [hempty]
    · rw [if_neg hempty]
      by_cases hdot : component = ['.']
      · rw [if_pos hdot, ih]
        simp [descent, followPath, hdot]
      · rw [if_neg hdot]
        by_cases hdots : component = ['.', '.']
        · rw [if_pos hdots]
          by_cases hdir : dir = []
          · rw [if_pos hdir]
            refine iff_of_false nofun fun ⟨_, hclimbs, _⟩ => hclimbs (climbs_negative ?_)
            simp [descent, hdots, hdir]
          · have hlen : ((dir.dropLast.length : Nat) : Int) = dir.length + descent component := by
              have hpos := List.length_pos_iff.mpr hdir
              rw [List.length_dropLast, descent, if_neg hdot, if_pos hdots]
              omega
            rw [if_neg hdir, ih, hlen, followPath, if_neg hdot, if_pos hdots]
            simp [Ne.symm hempty]
        · have hlen : (((dir ++ [component]).length : Nat) : Int) = dir.length + descent component := by
            rw [List.length_append, descent, if_neg hdot, if_neg hdots]
            rfl
          rw [if_neg hdots, ih, hlen, followPath, if_neg hdot, if_neg hdots]
          simp [Ne.symm hempty]

theorem import_directory_eq (importer : Text) : importDirectory importer = directoryOf importer := by
  unfold importDirectory directoryOf Text.rsplitOnce
  cases hs : Text.splitOnce '/' importer.reverse with
  | none =>
    have hnot : '/' ∉ importer := fun hm =>
      Text.split_once_none.mp hs (List.mem_reverse.mpr hm)
    rw [List.splitOn_eq_singleton hnot]
    rfl
  | some parts =>
    obtain ⟨after, before⟩ := parts
    obtain ⟨he, hnot⟩ := Text.split_once_some hs
    have himporter : importer = before.reverse ++ '/' :: after.reverse := by
      rw [← List.reverse_reverse importer, he]
      simp
    have hafter : '/' ∉ after.reverse := fun hm => hnot (List.mem_reverse.mp hm)
    show before.reverse.splitOn '/' = _
    rw [himporter, List.splitOn_append_cons_self, List.splitOn_eq_singleton hafter,
      List.dropLast_concat]

/-- The checks before the walk pass unless there is a reason to refuse. -/
structure ImportText (imported : Text) : Prop where
  nonempty : imported ≠ []
  short : imported.len ≤ maxSessionConfigNameBytes
  relative : imported.head? ≠ some '/'
  characters : ∀ c ∈ imported, ¬(Text.isControl c = true ∨ c = '\\' ∨ c = ':')

theorem import_text_ok {e : SessionConfigFileError} {u : Unit} :
    refuse (imported.isEmpty || maxSessionConfigNameBytes < imported.len
      || imported.head? == some '/' || imported.any (fun c => c == '\\' || c == ':')
      || imported.any Text.isControl) e = .ok u ↔ ImportText imported := by
  simp only [refuse_ok, Bool.or_eq_false_iff, List.isEmpty_eq_false_iff, decide_eq_false_iff_not,
    not_lt, beq_eq_false_iff_ne, List.any_eq_false, Bool.or_eq_true, beq_iff_eq]
  constructor
  · rintro ⟨⟨⟨⟨hne, hshort⟩, hhead⟩, hslash⟩, hcontrol⟩
    exact ⟨hne, hshort, hhead, fun c hc h => h.elim (hcontrol c hc) (hslash c hc)⟩
  · intro h
    exact ⟨⟨⟨⟨h.nonempty, h.short⟩, h.relative⟩, fun c hc hs => h.characters c hc (Or.inr hs)⟩,
      fun c hc hs => h.characters c hc (Or.inl hs)⟩

theorem import_accepted : ¬ImportRefused importer imported ↔ ImportText imported ∧
    [] ∉ imported.splitOn '/' ∧
    ¬ClimbsAbove (directoryOf importer).length (imported.splitOn '/') ∧
    SessionFileName (lexicalName importer imported) := by
  constructor
  · intro h
    refine ⟨⟨fun he => h (.empty he), ?_, fun he => h (.absolute he), fun c hc hs =>
      h (.character c hc hs)⟩, fun he => h (.emptyComponent he), fun he => h (.climbs he), ?_⟩
    · by_contra hlong
      exact h (.long (Nat.lt_of_not_le hlong))
    · by_contra hname
      exact h (.name hname)
  · rintro ⟨htext, hcomponents, hclimbs, hname⟩ h
    cases h with
    | empty h => exact htext.nonempty h
    | long h => exact absurd htext.short (Nat.not_le.mpr h)
    | absolute h => exact htext.relative h
    | emptyComponent h => exact hcomponents h
    | character c hm h => exact htext.characters c hm h
    | climbs h => exact hclimbs h
    | name h => exact h hname

/-- An import is resolved like a relative path, or refused for one of the reasons. -/
theorem resolve_import_ok : resolveImportName importer imported = .ok name ↔
    ¬ImportRefused importer imported ∧ name = lexicalName importer imported := by
  rw [import_accepted, resolveImportName, bind_ok]
  constructor
  · rintro ⟨u, htext, h⟩
    cases hwalk : walkComponents (importDirectory importer) (imported.splitOn '/') with
    | none =>
      rw [hwalk] at h
      cases h
    | some path =>
      rw [import_directory_eq] at hwalk
      obtain ⟨hcomponents, hclimbs, rfl⟩ := walk_components_ok.mp hwalk
      rw [import_directory_eq, hwalk] at h
      simp only [bind_ok, map_error_ok, validate_name_ok, pure_ok] at h
      obtain ⟨-, hname, rfl⟩ := h
      exact ⟨⟨import_text_ok.mp htext, hcomponents, hclimbs, hname⟩, rfl⟩
  · rintro ⟨⟨htext, hcomponents, hclimbs, hname⟩, rfl⟩
    refine ⟨(), import_text_ok.mpr htext, ?_⟩
    rw [import_directory_eq, walk_components_ok.mpr ⟨hcomponents, hclimbs, rfl⟩]
    simp only [bind_ok, map_error_ok, validate_name_ok, pure_ok]
    exact ⟨(), hname, rfl⟩

/-- A name is determined by its path, and the path by the name. -/
theorem lexical_path_split (h : SessionFileName (lexicalName importer imported)) :
    (lexicalName importer imported).splitOn '/' = lexicalPath importer imported := by
  have hsep : ∀ components dir : List Text, (∀ c ∈ dir, '/' ∉ c) → (∀ c ∈ components, '/' ∉ c) →
      ∀ c ∈ components.foldl followPath dir, '/' ∉ c := by
    intro components
    induction components with
    | nil => exact fun dir hdir _ => hdir
    | cons component components ih =>
      intro dir hdir hcomponents
      refine ih _ (fun c hc => ?_) (fun c hc => hcomponents c (List.mem_cons_of_mem _ hc))
      unfold followPath at hc
      split at hc
      · exact hdir c hc
      · split at hc
        · exact hdir c (List.mem_of_mem_dropLast hc)
        · rcases List.mem_append.mp hc with hc | hc
          · exact hdir c hc
          · rw [List.mem_singleton.mp hc]
            exact hcomponents component List.mem_cons_self
  refine List.splitOn_intercalate '/' ?_ ?_
  · exact hsep _ _ (fun c hc => Split.sep_not_in_part (List.mem_of_mem_dropLast hc))
      (fun c hc => Split.sep_not_in_part hc)
  · intro hnil
    have hne := h.toml
    rw [lexicalName, hnil, List.intercalate_nil, List.suffix_nil] at hne
    exact absurd hne (by decide)

/-- All names that import strings lead to, whatever the files say. -/
inductive ImportChain (root : Text) : Text → Prop where
  | root : ImportChain root root
  | imported {a b : Text} (before : ImportChain root a) (entry : Text)
      (hr : resolveImportName a entry = .ok b) : ImportChain root b

theorem chain_names {root : Text} (hroot : SessionFileName root) (h : ImportChain root name) :
    SessionFileName name := by
  cases h with
  | root => exact hroot
  | imported before entry hr =>
    obtain ⟨hok, rfl⟩ := resolve_import_ok.mp hr
    exact (import_accepted.mp hok).2.2.2

theorem reaches_chain {store : SessionConfigStore} {root : Text} (h : Reaches store root name) :
    ImportChain root name := by
  induction h with
  | refl => exact .root
  | tail _ hi ih =>
    obtain ⟨-, -, entry, -, -, -, hr⟩ := hi
    exact .imported ih entry hr

/-- Imports stay below the configuration directory, and a file has one name. -/
theorem imports_confined :
    (∀ x root ephemeral request,
      ControlRequest.fromToml x (.createFromFile root ephemeral) = .ok request →
      (∀ n, ImportChain root n → SessionFileName n) ∧
      ∀ store s, Reach (ComposeRun.step x store) (ComposeRun.start root) s →
        ∀ n ∈ s.reads, ImportChain root n) ∧
    (∀ importer imported name, resolveImportName importer imported = .ok name ↔
      ¬ImportRefused importer imported ∧ name = lexicalName importer imported) ∧
    ∀ a b i j n m, resolveImportName a i = .ok n → resolveImportName b j = .ok m →
      (lexicalPath a i = lexicalPath b j ↔ n = m) := by
  refine ⟨fun x root ephemeral request h => ?_, fun _ _ _ => resolve_import_ok,
    fun a b i j n m hn hm => ?_⟩
  · simp only [ControlRequest.fromToml, bind_ok, validate_name_ok, pure_ok] at h
    obtain ⟨-, hroot, -⟩ := h
    exact ⟨fun n => chain_names hroot, fun store s hs n hr =>
      reaches_chain ((reach_ongoing hs).1.reached n hr)⟩
  · obtain ⟨hi, rfl⟩ := resolve_import_ok.mp hn
    obtain ⟨hj, rfl⟩ := resolve_import_ok.mp hm
    have hsplit := lexical_path_split (import_accepted.mp hi).2.2.2
    have hsplit' := lexical_path_split (import_accepted.mp hj).2.2.2
    constructor
    · intro h
      rw [lexicalName, lexicalName, h]
    · intro h
      rw [← hsplit, ← hsplit', h]

end Baffle.Proofs
