import Baffle.Lib.Split
import Baffle.TrustedFiles
import Baffle.Proofs.Admission

namespace Baffle.Proofs

open OwnedFiles

variable {I : Type} {rights : Rights} {uid : Nat} {fs fs' : ConfigFiles I} {clock : Clock I}

/-- Every state of the clock keeps what trusted users rely on. -/
def Shielded (uid : Nat) (fs : ConfigFiles I) (clock : Clock I) : Prop :=
  ∀ k, Protected (trustedOwner uid) fs (clock k)

theorem Shielded.after (h : Shielded uid fs clock) (n : Nat) : Shielded uid fs (clock.after n) :=
  fun k => h (n + k)

theorem directory_checked {metadata : ConfigInode} {allow : Bool} :
    validateConfigDirectoryMetadata uid metadata allow = .ok () ↔
      metadata.isDir = true ∧ trustedOwner uid metadata.owner = true ∧
      (metadata.shared = true → allow = true ∧ metadata.sticky = true) ∧
      (if metadata.owner = uid then metadata.mode &&& 0o100 != 0
        else metadata.mode &&& 0o111 != 0) = true := by
  simp only [validateConfigDirectoryMetadata, bind_ok, refuse_ok, exists_const, Inode.shared,
    Inode.sticky]
  simp [and_assoc]

theorem checked_guarded {metadata : ConfigInode}
    (h : validateConfigDirectoryMetadata uid metadata false = .ok ()) :
    metadata.guarded (trustedOwner uid) = true := by
  obtain ⟨-, hown, hst, -⟩ := directory_checked.mp h
  refine Inode.guarded_iff.mpr ⟨hown, ?_⟩
  cases hs : metadata.shared with
  | false => rfl
  | true => cases (hst hs).1

/-- The check looks at what a trusted inode keeps. -/
theorem check_retained {metadata metadata' : ConfigInode} {allow : Bool}
    (h : Retained metadata metadata') :
    validateConfigDirectoryMetadata uid metadata' allow =
      validateConfigDirectoryMetadata uid metadata allow := by
  unfold validateConfigDirectoryMetadata
  rw [h.owner, h.mode, h.directory]

/-- A directory whose entries that trusted users own stay. -/
structure Holds (uid : Nat) (fs : ConfigFiles I) (directory : I) (node : ConfigInode) : Prop where
  inode : fs.inodes directory = some node
  owner : trustedOwner uid node.owner = true
  sticky : node.shared = true → node.sticky = true

theorem lookup_some {directory i : I} {name : Text} :
    lookup rights fs directory name = .ok i ↔ name ≠ [] ∧ ∃ node, fs.inodes directory = some node ∧
      rights.search node.owner node.mode = true ∧ fs.entries directory name = some i := by
  unfold lookup
  split
  · simp_all
  · cases hd : fs.inodes directory with
    | none => simp
    | some node =>
      cases hs : rights.search node.owner node.mode with
      | false => simp [hs]
      | true =>
        cases he : fs.entries directory name with
        | none => simp [hs]
        | some j => simp_all

theorem openat_directory_some {directory i : I} {name : Text} :
    openatDirectory rights fs directory name = .ok i ↔ lookup rights fs directory name = .ok i ∧
      ∃ node, fs.inodes i = some node ∧ node.isDir = true := by
  simp only [openatDirectory, bind_ok]
  constructor
  · rintro ⟨j, hj, h⟩
    cases hi : fs.inodes j with
    | none =>
      rw [hi] at h
      cases h
    | some node =>
      simp only [hi] at h
      split at h
      · rename_i hn
        rw [pure_ok] at h
        subst h
        exact ⟨hj, node, hi, hn⟩
      · cases h
  · rintro ⟨hj, node, hi, hn⟩
    refine ⟨i, hj, ?_⟩
    simp [hi, hn]

/-- The entries of trusted users are found whatever others do. -/
theorem lookup_held {directory i : I} {name : Text} {node target : ConfigInode}
    (hk : Protected (trustedOwner uid) fs fs') (hd : Holds uid fs directory node)
    (h : lookup rights fs directory name = .ok i) (hi : fs.inodes i = some target)
    (ht : trustedOwner uid target.owner = true) :
    lookup rights fs' directory name = .ok i := by
  obtain ⟨hn, node', hd', hs, he⟩ := lookup_some.mp h
  rw [hd.inode, Option.some.injEq] at hd'
  subst hd'
  obtain ⟨node', hd', hr⟩ := hk.inodes directory node hd.inode hd.owner
  refine lookup_some.mpr ⟨hn, node', hd', ?_, ?_⟩
  · rw [hr.owner, hr.mode]
    exact hs
  · cases hsh : node.shared with
    | true =>
      exact hk.sticky directory node name i target hd.inode hd.owner (hd.sticky hsh) he hi ht
    | false =>
      rw [hk.entries directory node hd.inode (Inode.guarded_iff.mpr ⟨hd.owner, hsh⟩)]
      exact he

/-- One turn of the walk -/
theorem walk_cons {component : Text} {rest : List Text} {directory d : I} :
    walkTrusted rights uid clock directory (component :: rest) = .ok d ↔
      component.contains '\x00' = false ∧ ∃ i node,
        openatDirectory rights (clock 0) directory component = .ok i ∧
        (clock 1).inodes i = some node ∧
        validateConfigDirectoryMetadata uid node (!rest.isEmpty) = .ok () ∧
        walkTrusted rights uid (clock.after 2) i rest = .ok d := by
  simp only [walkTrusted, bind_ok, refuse_ok, map_error_ok, exists_const]
  constructor
  · rintro ⟨hc, i, hi, h⟩
    cases hn : (clock 1).inodes i with
    | none =>
      rw [hn] at h
      cases h
    | some node =>
      simp only [hn, bind_ok, map_error_ok] at h
      obtain ⟨⟨⟩, hv, hw⟩ := h
      exact ⟨hc, i, node, hi, hn, hv, hw⟩
  · rintro ⟨hc, i, node, hi, hn, hv, hw⟩
    refine ⟨hc, i, hi, ?_⟩
    simp only [hn, bind_ok, map_error_ok]
    exact ⟨(), hv, hw⟩

/-- A walk that succeeds when nobody interferes ends at the same directory when
untrusted users do. -/
theorem walk_held {names : List Text} {directory d : I} {node : ConfigInode}
    (hk : Shielded uid fs clock) (hd : Holds uid fs directory node)
    (h : walkTrusted rights uid (fun _ => fs) directory names = .ok d) :
    walkTrusted rights uid clock directory names = .ok d := by
  induction names generalizing clock directory node with
  | nil => exact h
  | cons component rest ih =>
    obtain ⟨hc, i, target, hi, hn, hv, hw⟩ := walk_cons.mp h
    obtain ⟨hdir, hown, hst, hx⟩ := directory_checked.mp hv
    obtain ⟨hl, -⟩ := openat_directory_some.mp hi
    obtain ⟨t0, ht0, hr0⟩ := (hk 0).inodes i target hn hown
    obtain ⟨t1, ht1, hr1⟩ := (hk 1).inodes i target hn hown
    refine walk_cons.mpr ⟨hc, i, t1, ?_, ht1, ?_, ?_⟩
    · exact openat_directory_some.mpr
        ⟨lookup_held (hk 0) hd hl hn hown, t0, ht0, hr0.directory.trans hdir⟩
    · rw [check_retained hr1]
      exact hv
    · exact ih (hk.after 2) ⟨hn, hown, fun hs => (hst hs).2⟩ hw

/-- Whatever happened on the way, the directory that is opened is guarded when its
metadata is read. -/
theorem walk_guards {names : List Text} {directory d : I} (hn : names ≠ [])
    (h : walkTrusted rights uid clock directory names = .ok d) :
    ∃ k < 2 * names.length, Guards (trustedOwner uid) (clock k) d := by
  induction names generalizing clock directory with
  | nil => exact absurd rfl hn
  | cons component rest ih =>
    obtain ⟨-, i, node, -, hi, hv, hw⟩ := walk_cons.mp h
    cases rest with
    | nil =>
      -- the last directory may not be writable for others, sticky or not
      rw [walkTrusted, pure_ok] at hw
      subst hw
      exact ⟨1, by simp, node, hi, checked_guarded hv⟩
    | cons next rest =>
      obtain ⟨k, hk, hg⟩ := ih (by simp) hw
      refine ⟨2 + k, ?_, hg⟩
      simp only [List.length_cons] at hk ⊢
      omega

theorem lookup_guarded {directory : I} {name : Text}
    (hk : Protected (trustedOwner uid) fs fs') (hd : Guards (trustedOwner uid) fs directory) :
    lookup rights fs' directory name = lookup rights fs directory name := by
  unfold lookup
  rw [hk.guarded_inode hd, hk.guarded_entries hd]

/-- Bytes that do not change are read to the limit or to their end, however the
reads are cut. -/
theorem read_to_end_constant {bytes before : Bytes} {limit fuel : Nat} {file : I}
    {sizes : Nat → Nat} (hc : ∀ k, content (clock k) file = bytes) (hb : before <+: bytes)
    (hl : before.length ≤ limit) (hf : limit < before.length + fuel) :
    readToEnd limit file fuel sizes clock before = bytes.take limit := by
  induction fuel generalizing clock sizes before with
  | zero => omega
  | succ fuel ih =>
    obtain ⟨rest, rfl⟩ := hb
    rw [readToEnd]
    simp only [hc 0, List.drop_left]
    split
    · rename_i he
      rcases List.take_eq_nil_iff.mp he with hz | rfl
      · -- the limit is reached
        have hlen : before.length = limit := by omega
        rw [← hlen, List.take_left]
      · rw [List.append_nil, List.take_of_length_le hl]
    · rename_i hne
      have hpos := List.length_pos_iff.mpr hne
      refine ih (fun k => hc (1 + k)) ?_ ?_ ?_
      · exact (List.prefix_append_right_inj before).mpr (List.take_prefix ..)
      · rw [List.length_append, List.length_take]
        omega
      · rw [List.length_append]
        omega

/-- Only guarded files are read. -/
theorem unguarded_file {sizes : Nat → Nat} {file : I}
    (hg : ¬ Guards (trustedOwner uid) (clock 0) file) :
    readOpenFile uid clock sizes file = .error .unavailable := by
  rw [readOpenFile]
  split
  · rfl
  · rename_i node hn
    split
    · have hr : (!trustedOwner uid node.owner || node.mode &&& 0o7022 != 0
          || node.mode &&& 0o444 == 0) = true := by
        by_contra h
        simp only [Bool.not_eq_true, Bool.or_eq_false_iff, Bool.not_eq_false', bne_eq_false_iff_eq]
          at h
        apply hg
        refine ⟨node, hn, Inode.guarded_iff.mpr ⟨h.1.1, ?_⟩⟩
        have hm : node.mode &&& 0o022 = (node.mode &&& 0o7022) &&& 0o022 := by
          rw [BitVec.and_assoc]
          rfl
        rw [Inode.shared, hm, h.1.2]
        rfl
      rw [hr]
      rfl
    · rfl

theorem guarded_file {sizes sizes' : Nat → Nat} {file : I} (hk : Shielded uid fs clock)
    (hg : Guards (trustedOwner uid) fs file) :
    readOpenFile uid clock sizes file = readOpenFile uid (fun _ => fs) sizes' file := by
  have hi : ∀ k, (clock k).inodes file = fs.inodes file := fun k => (hk k).guarded_inode hg
  have hread : ∀ (c : Clock I) (cuts : Nat → Nat), (∀ k, (c k).inodes file = fs.inodes file) →
      readToEnd (maxSessionConfigBytes + 1) file (maxSessionConfigBytes + 1 + 1) cuts c [] =
        (content fs file).take (maxSessionConfigBytes + 1) := by
    intro c cuts hc
    apply read_to_end_constant _ List.nil_prefix (Nat.zero_le _)
    · rw [List.length_nil]
      omega
    · intro k
      rw [content, hc k, content]
  rw [readOpenFile, readOpenFile, hi 0]
  simp only [hread (clock.after 1) sizes (fun k => hi (1 + k)),
    hread (Clock.after (fun _ => fs) 1) sizes' (fun _ => rfl)]

theorem openat_file_cases {directory i : I} {name : Text}
    (h : lookup rights fs directory name = .ok i) :
    openatFile rights fs directory name = .ok i ∨
      openatFile rights fs directory name = .error .other := by
  rw [openatFile, h, ok_bind]
  split
  · exact Or.inr rfl
  · split
    · exact Or.inr rfl
    · split
      · exact Or.inl rfl
      · exact Or.inr rfl

theorem openat_file_guarded {directory i : I} {name : Text}
    (hk : Protected (trustedOwner uid) fs fs') (hd : Guards (trustedOwner uid) fs directory)
    (h : lookup rights fs directory name = .ok i) (hg : Guards (trustedOwner uid) fs i) :
    openatFile rights fs' directory name = openatFile rights fs directory name := by
  rw [openatFile, openatFile, lookup_guarded hk hd, h, ok_bind, ok_bind, hk.guarded_inode hg]

theorem openat_directory_guarded {directory i : I} {name : Text}
    (hk : Protected (trustedOwner uid) fs fs') (hd : Guards (trustedOwner uid) fs directory)
    (h : lookup rights fs directory name = .ok i) (hg : Guards (trustedOwner uid) fs i) :
    openatDirectory rights fs' directory name = openatDirectory rights fs directory name := by
  rw [openatDirectory, openatDirectory, lookup_guarded hk hd, h, ok_bind, ok_bind,
    hk.guarded_inode hg]

theorem openat_directory_cases {directory i : I} {name : Text}
    (h : lookup rights fs directory name = .ok i) :
    openatDirectory rights fs directory name = .ok i ∨
      openatDirectory rights fs directory name = .error .other := by
  rw [openatDirectory, h, ok_bind]
  split
  · exact Or.inr rfl
  · split
    · exact Or.inl rfl
    · exact Or.inr rfl

theorem opened_ok {α : Type} {i : I} {next : I → Except SnapshotFailure α} :
    ((Except.ok i : Except FileError I).mapError classifyConfigFileIo >>= next) = next i := rfl

theorem opened_error {α : Type} {e : FileError} {next : I → Except SnapshotFailure α} :
    ((Except.error e : Except FileError I).mapError classifyConfigFileIo >>= next) =
      .error (classifyConfigFileIo e) := rfl

/-- What is found but not guarded is not available, whether or not it opens. -/
theorem unguarded_open {α : Type} {opened : Except FileError I} {i : I}
    {next : I → Except SnapshotFailure α} (h : opened = .ok i ∨ opened = .error .other)
    (hn : next i = .error .unavailable) :
    (opened.mapError classifyConfigFileIo >>= next) = .error .unavailable := by
  rcases h with rfl | rfl
  · exact hn
  · rfl

theorem open_file_same {sizes sizes' : Nat → Nat} {directory : I} {name : Text}
    (hk : Shielded uid fs clock) (hd : Guards (trustedOwner uid) fs directory) :
    ((openatFile rights (clock 0) directory name).mapError classifyConfigFileIo >>=
      readOpenFile uid (clock.after 1) sizes) =
    ((openatFile rights fs directory name).mapError classifyConfigFileIo >>=
      readOpenFile uid (fun _ => fs) sizes') := by
  have hl : lookup rights (clock 0) directory name = lookup rights fs directory name :=
    lookup_guarded (hk 0) hd
  cases h : lookup rights fs directory name with
  | error e =>
    rw [openatFile, openatFile, hl, h, error_bind, error_bind, opened_error, opened_error]
  | ok i =>
    by_cases hg : Guards (trustedOwner uid) fs i
    · rw [openat_file_guarded (hk 0) hd h hg]
      rcases openat_file_cases h with ho | ho
      · rw [ho, opened_ok, opened_ok]
        exact guarded_file (hk.after 1) hg
      · rw [ho, opened_error, opened_error]
    · rw [unguarded_open (openat_file_cases (hl.trans h))
          (unguarded_file (fun hn => hg ((hk 1).guards_iff.mp hn))),
        unguarded_open (openat_file_cases h) (unguarded_file hg)]

/-- A directory of the walk of `read_snapshot` once it is open -/
def enterDirectory (uid : Nat) (fs : ConfigFiles I) (next : I → Except SnapshotFailure Text)
    (directory : I) : Except SnapshotFailure Text :=
  match fs.inodes directory with
  | none => throw .unavailable
  | some metadata => do
    (validateConfigDirectoryMetadata uid metadata false).mapError (fun _ => .unavailable)
    next directory

theorem read_components_cons {sizes : Nat → Nat} {component name : Text} {rest : List Text}
    {directory : I} :
    readComponents rights uid sizes clock directory (component :: name :: rest) = (do
      refuse (component.contains '\x00') .pathComponent
      (openatDirectory rights (clock 0) directory component).mapError classifyConfigFileIo >>=
        enterDirectory uid (clock 1) (fun i =>
          readComponents rights uid sizes (clock.after 2) i (name :: rest))) := rfl

theorem unguarded_directory {directory : I} {next : I → Except SnapshotFailure Text}
    (hg : ¬ Guards (trustedOwner uid) fs directory) :
    enterDirectory uid fs next directory = .error .unavailable := by
  rw [enterDirectory]
  split
  · rfl
  · rename_i node hn
    cases hv : validateConfigDirectoryMetadata uid node false with
    | error e => rfl
    | ok u =>
      exact absurd ⟨node, hn, checked_guarded hv⟩ hg

/-- From a guarded directory every name is read as if nobody did anything. -/
theorem read_components_same {sizes sizes' : Nat → Nat} {names : List Text} {directory : I}
    (hk : Shielded uid fs clock) (hd : Guards (trustedOwner uid) fs directory) :
    readComponents rights uid sizes clock directory names =
      readComponents rights uid sizes' (fun _ => fs) directory names := by
  induction names generalizing clock directory with
  | nil => rfl
  | cons component rest ih =>
    cases rest with
    | nil =>
      rw [readComponents, readComponents]
      exact congrArg _ (funext fun _ => open_file_same hk hd)
    | cons name rest =>
      rw [read_components_cons, read_components_cons]
      refine congrArg _ (funext fun _ => ?_)
      have hl : lookup rights (clock 0) directory component =
          lookup rights fs directory component := lookup_guarded (hk 0) hd
      cases h : lookup rights fs directory component with
      | error e =>
        rw [openatDirectory, openatDirectory, hl, h, error_bind, error_bind, opened_error,
          opened_error]
      | ok i =>
        by_cases hg : Guards (trustedOwner uid) fs i
        · rw [openat_directory_guarded (hk 0) hd h hg]
          rcases openat_directory_cases h with ho | ho
          · rw [ho, opened_ok, opened_ok, enterDirectory, enterDirectory,
              (hk 1).guarded_inode hg, ih (hk.after 2) hg]
            rfl
          · rw [ho, opened_error, opened_error]
        · rw [unguarded_open (openat_directory_cases (hl.trans h))
              (unguarded_directory (fun hn => hg ((hk 1).guards_iff.mp hn))),
            unguarded_open (openat_directory_cases h) (unguarded_directory hg)]

theorem opened_names {path : List Component} {d : I} :
    openTrustedDirectoryTree rights uid clock path = .ok d ↔ path.head? = some .rootDir ∧
      ∃ names, normalNames path = some names ∧ names ≠ [] ∧
        walkTrusted rights uid (clock.after 1) (clock 0).root names = .ok d := by
  simp only [openTrustedDirectoryTree, bind_ok, refuse_ok, exists_const, decide_eq_false_iff_not,
    not_not]
  cases hn : normalNames path with
  | none => simp
  | some names => simp [List.isEmpty_eq_false_iff]

theorem normal_names_length {path : List Component} {names : List Text}
    (h : normalNames path = some names) : names.length ≤ path.length := by
  induction path generalizing names with
  | nil =>
    rw [normalNames, Option.some.injEq] at h
    rw [← h]
    exact Nat.le_refl 0
  | cons component path ih =>
    cases component with
    | rootDir => exact Nat.le_succ_of_le (ih h)
    | normal name =>
      obtain ⟨rest, hr, rfl⟩ := Option.map_eq_some_iff.mp h
      exact Nat.succ_le_succ (ih hr)
    | curDir => cases h
    | parentDir => cases h

theorem normalized_length {conventional : Bool} {path : List Component} :
    (normalizeSystemPath conventional path).length ≤ path.length := by
  rw [normalizeSystemPath.eq_def]
  split
  · split
    · exact Nat.le_succ _
    · exact Nat.le_refl _
  · exact Nat.le_refl _

theorem normal_names_mem {path : List Component}
    (h : ∀ c ∈ path, c = .rootDir ∨ ∃ n, c = .normal n) :
    ∃ names, normalNames path = some names ∧ ∀ name, name ∈ names ↔ .normal name ∈ path := by
  induction path with
  | nil => exact ⟨[], rfl, by simp⟩
  | cons c path ih =>
    obtain ⟨names, hn, hm⟩ := ih (fun c hc => h c (List.mem_cons_of_mem _ hc))
    rcases h c List.mem_cons_self with rfl | ⟨name, rfl⟩
    · refine ⟨names, hn, ?_⟩
      intro name
      simp [hm]
    · refine ⟨name :: names, by rw [normalNames, hn, Option.map_some], ?_⟩
      intro name
      simp [hm]

theorem normal_part {path name : Text} (h : .normal name ∈ components path) :
    name ∈ path.splitOn '/' := by
  have hinner : .normal name ∈ (path.splitOn '/').filterMap innerComponent := by
    unfold components at h
    dsimp only at h
    split at h
    · simpa using h
    · split at h
      · simpa using h
      · exact h
  obtain ⟨part, hp, he⟩ := List.mem_filterMap.mp hinner
  unfold innerComponent at he
  split at he
  · cases he
  · split at he
    · cases he
    · rw [Option.some.injEq, Component.normal.injEq] at he
      exact he ▸ hp

/-- The alias is left out of a path, and nothing else changes. -/
theorem normalized_path {conventional : Bool} {c : Component} {path : List Component} :
    ∃ rest, normalizeSystemPath conventional (.rootDir :: c :: path) = .rootDir :: rest ∧
      rest ≠ [] ∧ ∀ d ∈ rest, d ∈ c :: path := by
  rw [normalizeSystemPath.eq_def]
  split
  · rename_i var run suffix he
    split
    · refine ⟨_, rfl, List.cons_ne_nil _ _, ?_⟩
      simp only [List.cons.injEq, true_and] at he
      rw [he.1, he.2]
      exact fun d hd => List.mem_cons_of_mem _ hd
    · simp only [List.cons.injEq, true_and] at he
      rw [he.1, he.2]
      exact ⟨_, rfl, List.cons_ne_nil _ _, fun d hd => hd⟩
  · exact ⟨_, rfl, List.cons_ne_nil _ _, fun d hd => hd⟩

/-- A path that the configuration accepts is walked: never is the path wrong. -/
theorem configured_walk {conventional : Bool} {path : Text}
    (h : validateSessionConfigDir path = .ok ()) :
    ∃ names, (∀ name ∈ names, name.contains '\x00' = false) ∧
      openConfigDirectory rights uid clock conventional path =
        walkTrusted rights uid (clock.after 1) (clock 0).root names := by
  simp only [validateSessionConfigDir, refuse_ok, Bool.or_eq_false_iff, List.any_eq_false,
    decide_eq_false_iff_not, not_not, Nat.not_lt] at h
  obtain ⟨⟨⟨⟨⟨hroot, -⟩, hnul⟩, -⟩, hplain⟩, hlen⟩ := h
  have hc : components path = .rootDir :: (path.splitOn '/').filterMap innerComponent :=
    if_pos hroot
  have hall : ∀ d ∈ (path.splitOn '/').filterMap innerComponent, ∃ n, d = .normal n := by
    intro d hd
    have hp := hplain d (hc ▸ List.mem_cons_of_mem _ hd)
    obtain ⟨part, -, he⟩ := List.mem_filterMap.mp hd
    unfold innerComponent at he
    cases d with
    | normal name => exact ⟨name, rfl⟩
    | rootDir =>
      split at he
      · cases he
      · split at he <;> cases he
    | curDir => exact absurd rfl hp
    | parentDir => exact absurd rfl hp
  cases hi : (path.splitOn '/').filterMap innerComponent with
  | nil =>
    rw [hc, hi] at hlen
    exact absurd hlen (by simp)
  | cons c rest =>
    rw [hi] at hc hall
    obtain ⟨rest', hnorm, hne, hsub⟩ : ∃ rest', normalizeSystemPath conventional
        (.rootDir :: c :: rest) = .rootDir :: rest' ∧ rest' ≠ [] ∧ ∀ d ∈ rest', d ∈ c :: rest :=
      normalized_path
    have hplain' : ∀ d ∈ Component.rootDir :: rest', d = .rootDir ∨ ∃ n, d = .normal n := by
      intro d hd
      rcases List.mem_cons.mp hd with rfl | hd
      · exact Or.inl rfl
      · exact Or.inr (hall d (hsub d hd))
    obtain ⟨names, hn, hm⟩ := normal_names_mem hplain'
    have hnames : names ≠ [] := by
      obtain ⟨d, hd⟩ := List.exists_mem_of_ne_nil rest' hne
      obtain ⟨name, rfl⟩ := hall d (hsub d hd)
      exact List.ne_nil_of_mem ((hm name).mpr (List.mem_cons_of_mem _ hd))
    refine ⟨names, ?_, ?_⟩
    · intro name hname
      have hmem : Component.normal name ∈ components path := by
        rw [hc]
        rcases List.mem_cons.mp ((hm name).mp hname) with hr | hr
        · cases hr
        · exact List.mem_cons_of_mem _ (hsub _ hr)
      rw [List.contains_eq_mem, decide_eq_false_iff_not] at hnul ⊢
      exact fun hx => hnul (Split.mem_of_split (normal_part hmem) hx)
    · rw [openConfigDirectory, hc, hnorm, openTrustedDirectoryTree, hn]
      simp only [List.head?_cons, ne_eq, not_true_eq_false, decide_false,
        List.isEmpty_eq_false_iff.mpr hnames]
      rfl

/-- The calls that opening the directory takes -/
def openingCalls (path : Text) : Nat := 1 + 2 * (components path).length

variable [DecidableEq I]

theorem opened_guards {conventional : Bool} {path : Text} {directory : I}
    (hc : Tampered (trustedOwner uid) clock)
    (h : openConfigDirectory rights uid clock conventional path = .ok directory) :
    Guards (trustedOwner uid) (clock (openingCalls path)) directory := by
  obtain ⟨-, names, hn, hne, hw⟩ := opened_names.mp h
  obtain ⟨k, hk, hg⟩ := walk_guards hne hw
  have hlen := (normal_names_length hn).trans normalized_length
  have hle : openingCalls path = (1 + k) + (openingCalls path - (1 + k)) := by
    rw [openingCalls]
    omega
  rw [hle]
  exact (hc.protected (1 + k) _).guards_iff.mpr hg

theorem snapshot_same {directory : I} {name : Text} {opened moment : Nat} {sizes : Nat → Nat}
    (hc : Tampered (trustedOwner uid) clock)
    (hd : Guards (trustedOwner uid) (clock opened) directory) (hm : opened ≤ moment) :
    readSnapshot rights uid (clock.after moment) sizes directory name =
      readSnapshot rights uid (fun _ => clock opened) sizes directory name := by
  apply read_components_same _ hd
  intro k
  have hk := hc.protected opened (moment - opened + k)
  rwa [← Nat.add_assoc, Nat.add_sub_cancel' hm] at hk

/-- What untrusted users do between the system calls of the daemon neither keeps it
from its configuration directory nor changes what a session is read from. -/
theorem configuration_tamper_proof (rights : Rights) (x : Crates) (toml : Text → Snapshot)
    (conventional : Bool) (path : Text) (hc : Tampered (trustedOwner uid) clock) :
    (Guards (trustedOwner uid) (clock 0) (clock 0).root → ∀ directory,
      openConfigDirectory rights uid (fun _ => clock 0) conventional path = .ok directory →
        openConfigDirectory rights uid clock conventional path = .ok directory) ∧
    (∀ directory, openConfigDirectory rights uid clock conventional path = .ok directory →
      Guards (trustedOwner uid) (clock (openingCalls path)) directory ∧
      ∀ moments sizes name, (∀ file, openingCalls path ≤ moments file) →
        readSession x (.ofDirectory rights uid toml clock directory moments sizes) name =
          readSession x (.ofDirectory rights uid toml (fun _ => clock (openingCalls path))
            directory moments sizes) name) ∧
    (validateSessionConfigDir path = .ok () →
      ∃ names, (∀ name ∈ names, name.contains '\x00' = false) ∧
        openConfigDirectory rights uid clock conventional path =
          walkTrusted rights uid (clock.after 1) (clock 0).root names) := by
  refine ⟨?_, ?_, configured_walk⟩
  · intro hroot directory h
    obtain ⟨hr, names, hn, hne, hw⟩ := opened_names.mp h
    obtain ⟨node, hi, hg⟩ := hroot
    obtain ⟨ht, hs⟩ := Inode.guarded_iff.mp hg
    refine opened_names.mpr ⟨hr, names, hn, hne, ?_⟩
    apply walk_held _ ⟨hi, ht, _⟩ hw
    · intro k
      have hk := hc.protected 0 (1 + k)
      rwa [Nat.zero_add] at hk
    · intro hs'
      rw [hs] at hs'
      cases hs'
  · intro directory h
    have hd := opened_guards hc h
    refine ⟨hd, ?_⟩
    intro moments sizes name hm
    refine congrArg (readSession x · name) (congrArg SessionConfigStore.ofFiles (funext ?_))
    intro file
    exact congrArg (Except.map toml) (snapshot_same hc hd (hm file))

def sampleEntry (dir : Nat) (name : Text) : Option Nat :=
  if dir = 0 ∧ name = ['t', 'm', 'p'] then some 1
  else if dir = 1 ∧ name = ['c'] then some 2
  else if dir = 2 ∧ name = ['a'] then some 3
  else none

def sampleInode : Nat → Option ConfigInode
  | 0 => some ⟨0, 0o755, .directory⟩
  | 1 => some ⟨0, 0o1777, .directory⟩
  | 2 => some ⟨1000, 0o700, .directory⟩
  | 3 => some ⟨1000, 0o600, .regular []⟩
  | _ => none

def sampleConfigFiles : ConfigFiles Nat where
  inodes := sampleInode
  entries := sampleEntry
  root := 0
  linked dir name i h := by
    unfold sampleEntry at h
    grind [sampleInode]

def otherUserCalls : List (Nat × FileCall Text Nat Bytes) :=
  [(7, .create 4 0o666 (.regular [1])), (7, .link 1 ['x'] 4)]

def sampleClock : Clock Nat
  | 0 => sampleConfigFiles
  | _ => (runSteps step otherUserCalls sampleConfigFiles).getD sampleConfigFiles

theorem sample_tampered : Tampered (trustedOwner 1000) sampleClock := by
  intro k
  cases k with
  | zero =>
    have hcreate : ReachBy step (Untrusted (trustedOwner 1000)) sampleConfigFiles
        (sampleConfigFiles.setInode 4 ⟨7, 0o666, .regular [1]⟩) :=
      .next .start (a := (7, .create 4 0o666 (.regular [1]))) rfl rfl
    exact .next hcreate (a := (7, .link 1 ['x'] 4)) rfl rfl
  | succ k => exact .start

def sampleRights : Rights where
  search _ mode := mode &&& 0o111 != 0
  read _ mode := mode &&& 0o444 != 0

def sampleConfigPath : Text := ['/', 't', 'm', 'p', '/', 'c']

theorem configuration_tamper_proof_sample :
    openConfigDirectory sampleRights 1000 sampleClock false sampleConfigPath = .ok 2 ∧
    readSession sampleCrates (.ofDirectory sampleRights 1000 (fun _ => .nonTable) sampleClock 2
        (fun _ => 7) (fun _ _ => 0)) ['a'] =
      readSession sampleCrates (.ofDirectory sampleRights 1000 (fun _ => .nonTable)
        (fun _ => sampleClock 7) 2 (fun _ => 7) (fun _ _ => 0)) ['a'] ∧
    ∃ names, (∀ name ∈ names, name.contains '\x00' = false) ∧
      walkTrusted sampleRights 1000 (sampleClock.after 1) 0 names = .ok 2 := by
  have hroot : Guards (trustedOwner 1000) (sampleClock 0) (sampleClock 0).root := ⟨_, rfl, rfl⟩
  obtain ⟨hopen, hread, hwalk⟩ := configuration_tamper_proof sampleRights sampleCrates
    (fun _ => .nonTable) false sampleConfigPath sample_tampered
  have ho := hopen hroot 2 rfl
  refine ⟨ho, (hread 2 ho).2 (fun _ => 7) (fun _ _ => 0) ['a'] (fun _ => by decide), ?_⟩
  obtain ⟨names, hnul, hw⟩ := hwalk (by decide)
  exact ⟨names, hnul, hw.symm.trans ho⟩

end Baffle.Proofs
