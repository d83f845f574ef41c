import Baffle.Proofs.ImportChains
import Baffle.ReadSession

namespace Baffle.Proofs

variable {x : Crates} {store : SessionConfigStore} {root name : Text} {isRoot : Bool}
  {s s' t : ComposeRun} {c c' : Composition} {frame : ComposeFrame} {frames : List ComposeFrame}

theorem finish_keeps_files {policy : SessionConfig} (h : c.finishRoot policy = .ok c') :
    c'.stack = c.stack ∧ c'.loaded = c.loaded := by
  simp only [Composition.finishRoot, bind_ok, refuse_ok, pure_ok, exists_const] at h
  obtain ⟨-, -, rfl⟩ := h
  exact ⟨rfl, rfl⟩

theorem modes_keep_files {modes : List (Text × CredentialMode)}
    (h : Composition.addCredentialModes modes c = .ok c') :
    c'.stack = c.stack ∧ c'.loaded = c.loaded := by
  induction modes generalizing c with
  | nil =>
    simp only [Composition.addCredentialModes, pure_ok] at h
    rw [← h]
    exact ⟨rfl, rfl⟩
  | cons entry modes ih =>
    simp only [Composition.addCredentialModes, bind_ok, refuse_ok, exists_const] at h
    obtain ⟨hstack, hloaded⟩ := ih h.2
    exact ⟨hstack, hloaded⟩

theorem merge_keeps_files {explicit : Bool} {policy : SessionConfig}
    (h : c.merge name isRoot explicit policy = .ok c') :
    c'.stack = c.stack ∧ c'.loaded = c.loaded := by
  simp only [Composition.merge, bind_ok] at h
  obtain ⟨c1, h1, c2, h2, c3, h3, c4, h4, h5⟩ := h
  obtain ⟨-, rfl⟩ := add_unmatched_ok.mp h1
  obtain ⟨-, rfl⟩ := add_credential_default_ok.mp h2
  obtain ⟨-, -, rfl⟩ := add_rules_ok.mp h4
  have hset : ∀ o, (setUnmatched isRoot o c).stack = c.stack ∧
      (setUnmatched isRoot o c).loaded = c.loaded := by
    intro o
    cases isRoot <;> exact ⟨rfl, rfl⟩
  have hdefault : ∀ o (c : Composition), (setDefault isRoot o c).stack = c.stack ∧
      (setDefault isRoot o c).loaded = c.loaded := by
    intro o c
    cases isRoot <;> exact ⟨rfl, rfl⟩
  obtain ⟨hstack, hloaded⟩ := modes_keep_files h3
  rw [(hdefault _ _).1, (hset _).1] at hstack
  rw [(hdefault _ _).2, (hset _).2] at hloaded
  cases isRoot with
  | false =>
    simp only [Bool.false_eq_true, ↓reduceIte, pure_ok] at h5
    rw [← h5]
    exact ⟨hstack, hloaded⟩
  | true =>
    obtain ⟨hs, hl⟩ := finish_keeps_files h5
    exact ⟨hs.trans hstack, hl.trans hloaded⟩

theorem merge_file_keeps (h : mergeFile x frame c = .ok c') :
    c'.stack = c.stack ∧ c'.loaded = c.loaded := by
  simp only [mergeFile, bind_ok] at h
  obtain ⟨policy, -, h⟩ := h
  exact merge_keeps_files h

theorem read_imports_ok {document : SessionDocument} {entries : List Text}
    (h : readImports store name isRoot = .ok (document, entries)) :
    readDocument store name = .ok document ∧ importList name document.imports = .ok entries := by
  simp only [readImports, bind_ok, pure_ok, Prod.mk.injEq] at h
  obtain ⟨document', hdoc, -, -, entries', hentries, rfl, rfl⟩ := h
  exact ⟨hdoc, hentries⟩

theorem compose_contents_eq (call : Text → Composition → Except SessionConfigFileError Composition)
    (c : Composition) : composeFileContents x store call name isRoot c =
      (readImports store name isRoot >>= fun (document, imports) =>
        composeImports call name imports c >>=
          mergeFile x ⟨name, isRoot, document, []⟩) := by
  unfold composeFileContents readImports mergeFile
  simp only [bind_assoc, pure_bind]

/-- The run is back in the calls that it came from, with the result of one more. -/
def Returns (frames : List ComposeFrame) (result : Except SessionConfigFileError Composition)
    (t : ComposeRun) : Prop :=
  (∀ c, result = .ok c → t.frames = frames ∧ t.control = .next ∧ t.composition = c) ∧
    ∀ e, result = .error e → t.control = .ended (.error e)

theorem returns_ok (hf : t.frames = frames) (hc : t.control = .next) (he : t.composition = c) :
    Returns frames (.ok c) t :=
  ⟨fun _ h => ⟨hf, hc, he.trans (Except.ok.inj h)⟩, nofun⟩

theorem returns_error {e : SessionConfigFileError} (h : t.control = .ended (.error e)) :
    Returns frames (.error e) t :=
  ⟨nofun, fun _ he => by rw [h, Except.error.inj he]⟩

/-- A call of `compose_file` with this many files on the stack is followed by the run. -/
def Follows (x : Crates) (store : SessionConfigStore)
    (call : Text → Composition → Except SessionConfigFileError Composition) (isRoot : Bool)
    (depth : Nat) : Prop :=
  ∀ s name, s.composition.stack.length = depth → s.control = .enter name isRoot →
    ∃ t, Reach (ComposeRun.step x store) s t ∧ Returns s.frames (call name s.composition) t ∧
      ∀ c, call name s.composition = .ok c → c.stack = s.composition.stack

section Follow

variable {call : Text → Composition → Except SessionConfigFileError Composition} {depth : Nat}

theorem next_step (x : Crates) (store : SessionConfigStore) (h : s.control = .next) :
    ComposeRun.step x store () s = some (s.next x) := by
  unfold ComposeRun.step
  rw [h]

theorem enter_step (x : Crates) (store : SessionConfigStore) (h : s.control = .enter name isRoot) :
    ComposeRun.step x store () s = some (s.enter store name isRoot) := by
  unfold ComposeRun.step
  rw [h]

theorem imports_followed (frame : ComposeFrame) (hcall : Follows x store call false depth) {imports : List Text}
    (hlen : s.composition.stack.length = depth) (hcontrol : s.control = .next)
    (hframes : s.frames = { frame with imports } :: frames) :
    ∃ t, Reach (ComposeRun.step x store) s t ∧
      Returns ({ frame with imports := [] } :: frames)
        (composeImports call frame.name imports s.composition) t ∧
      ∀ c, composeImports call frame.name imports s.composition = .ok c →
        c.stack = s.composition.stack := by
  induction imports generalizing s with
  | nil =>
    refine ⟨s, .start, returns_ok hframes hcontrol rfl, fun c h => ?_⟩
    rw [← Except.ok.inj h]
  | cons imported rest ih =>
    have hstep := next_step x store hcontrol
    simp only [ComposeRun.next, hframes] at hstep
    simp only [composeImports]
    cases hr : resolveImportName frame.name imported with
    | error e =>
      rw [hr] at hstep
      exact ⟨_, .next .start hstep, returns_error rfl, fun c h => by cases h⟩
    | ok importedName =>
      rw [hr] at hstep
      obtain ⟨t, ht, hret, hstack⟩ := hcall { s with
        frames := { frame with imports := rest } :: frames
        control := .enter importedName false } importedName hlen rfl
      have hreach := Reach.trans (.next .start hstep) ht
      simp only [ok_bind]
      cases hmid : call importedName s.composition with
      | error e =>
        exact ⟨t, hreach, returns_error (hret.2 e hmid), fun c h => by cases h⟩
      | ok c =>
        obtain ⟨hf, hc, rfl⟩ := hret.1 c hmid
        have hsame := hstack _ hmid
        obtain ⟨u, hu, hret', hstack'⟩ := ih (by rw [hsame]; exact hlen) hc hf
        exact ⟨u, hreach.trans hu, hret', fun c' h => (hstack' c' h).trans hsame⟩

/-- The state of a call that has pushed and read its file. -/
def pushed (s : ComposeRun) (name : Text) (isRoot : Bool) (document : SessionDocument)
    (imports : List Text) : ComposeRun where
  frames := ⟨name, isRoot, document, imports⟩ :: s.frames
  control := .next
  composition := { s.composition with stack := s.composition.stack ++ [name] }
  reads := s.reads ++ [name]

theorem push_followed (name : Text) (isRoot : Bool)
    (hcall : Follows x store call false (depth + 1))
    (hlen : s.composition.stack.length = depth) :
    ∃ t, Reach (ComposeRun.step x store) (s.push store name isRoot) t ∧
      Returns s.frames (do
        let c ← composeFileContents x store call name isRoot
          { s.composition with stack := s.composition.stack ++ [name] }
        pure { c with stack := c.stack.dropLast, loaded := insert name c.loaded }) t ∧
      ∀ c, (do
        let c ← composeFileContents x store call name isRoot
          { s.composition with stack := s.composition.stack ++ [name] }
        pure { c with stack := c.stack.dropLast, loaded := insert name c.loaded }) = .ok c →
        c.stack = s.composition.stack := by
  rw [compose_contents_eq]
  cases hread : readImports store name isRoot with
  | error e =>
    refine ⟨_, .start, returns_error ?_, nofun⟩
    rw [ComposeRun.push, hread]
    rfl
  | ok read =>
    obtain ⟨document, imports⟩ := read
    have hpush : s.push store name isRoot = pushed s name isRoot document imports := by
      rw [ComposeRun.push, hread]
      rfl
    have hpushed : (pushed s name isRoot document imports).composition.stack.length = depth + 1 := by
      rw [← hlen]
      exact List.length_append
    obtain ⟨t, ht, hret, hstack⟩ := imports_followed ⟨name, isRoot, document, []⟩ hcall hpushed
      rfl rfl
    rw [hpush]
    simp only [ok_bind]
    cases hmid : composeImports call name imports
        { s.composition with stack := s.composition.stack ++ [name] } with
    | error e => exact ⟨t, ht, returns_error (hret.2 e hmid), nofun⟩
    | ok c =>
      obtain ⟨hf, hc, rfl⟩ := hret.1 c hmid
      have hsame := hstack _ hmid
      have hstep := next_step x store hc
      simp only [ComposeRun.next, hf] at hstep
      unfold ComposeRun.pop at hstep
      simp only [ok_bind]
      cases hmerge : mergeFile x ⟨name, isRoot, document, []⟩ t.composition with
      | error e =>
        rw [hmerge] at hstep
        exact ⟨_, ht.next hstep, returns_error rfl, nofun⟩
      | ok c =>
        rw [hmerge] at hstep
        refine ⟨_, ht.next hstep, returns_ok rfl hc rfl, fun c' h => ?_⟩
        rw [← Except.ok.inj h]
        show c.stack.dropLast = s.composition.stack
        rw [(merge_file_keeps hmerge).1, hsame]
        exact List.dropLast_concat

theorem file_followed
    (hcall : depth < maxSessionImportDepth → Follows x store call false (depth + 1)) :
    Follows x store (fun name c => composeFileWith x store call name isRoot c) isRoot depth := by
  intro s name hlen hcontrol
  have hstep := enter_step x store hcontrol
  unfold ComposeRun.enter at hstep
  unfold composeFileWith
  simp only [List.contains_eq_mem]
  by_cases hcycle : name ∈ s.composition.stack
  · rw [if_pos hcycle] at hstep
    rw [decide_eq_true hcycle]
    exact ⟨_, .next .start hstep, returns_error rfl, nofun⟩
  · rw [if_neg hcycle] at hstep
    rw [decide_eq_false hcycle, refuse_false_bind]
    by_cases hloaded : name ∈ s.composition.loaded
    · rw [if_pos hloaded] at hstep ⊢
      refine ⟨_, .next .start hstep, returns_ok rfl rfl rfl, fun c h => ?_⟩
      rw [← Except.ok.inj h]
    · rw [if_neg hloaded] at hstep ⊢
      by_cases hdepth : maxSessionImportDepth ≤ s.composition.stack.length
      · rw [if_pos hdepth] at hstep
        rw [decide_eq_true hdepth]
        exact ⟨_, .next .start hstep, returns_error rfl, nofun⟩
      · rw [if_neg hdepth] at hstep
        rw [decide_eq_false hdepth, refuse_false_bind]
        by_cases hcount : maxSessionImportFiles ≤
            s.composition.stack.length + s.composition.loaded.card
        · rw [if_pos hcount] at hstep
          rw [decide_eq_true hcount]
          exact ⟨_, .next .start hstep, returns_error rfl, nofun⟩
        · rw [if_neg hcount] at hstep
          rw [decide_eq_false hcount, refuse_false_bind]
          obtain ⟨t, ht, hret, hstack⟩ := push_followed name isRoot (hcall (by omega))
            hlen
          exact ⟨t, Reach.trans (.next .start hstep) ht, hret, hstack⟩

end Follow

/-- With this much room left the recursion never gets to its last level. -/
theorem compose_followed (x : Crates) (store : SessionConfigStore) (room : Nat) (isRoot : Bool)
    (depth : Nat) (h : depth + room = maxSessionImportDepth) :
    Follows x store (fun name c => composeFile x store room name isRoot c) isRoot depth := by
  induction room generalizing isRoot depth with
  | zero => exact file_followed fun hlt => absurd hlt (by omega)
  | succ room ih => exact file_followed fun _ => ih false (depth + 1) (by omega)

/-- The run ends with the result of the recursion. -/
theorem run_ends (x : Crates) (store : SessionConfigStore) (root : Text) :
    ∃ t, Reach (ComposeRun.step x store) (ComposeRun.start root) t ∧
      t.control = .ended (composeFile x store maxSessionImportDepth root true {}) ∧
      ∀ c, composeFile x store maxSessionImportDepth root true {} = .ok c → t.composition = c := by
  obtain ⟨t, ht, hret, -⟩ := compose_followed x store maxSessionImportDepth true 0
    (Nat.zero_add _) (ComposeRun.start root) root rfl rfl
  have hreturns : Returns [] (composeFile x store maxSessionImportDepth root true {}) t := hret
  cases hr : composeFile x store maxSessionImportDepth root true {} with
  | error e => exact ⟨t, ht, hreturns.2 e hr, nofun⟩
  | ok c =>
    obtain ⟨hf, hc, rfl⟩ := hreturns.1 c hr
    have hstep := next_step x store hc
    simp only [ComposeRun.next, hf] at hstep
    exact ⟨_, ht.next hstep, rfl, fun c h => Except.ok.inj h⟩

/-- What holds of stack, loaded files and reads at every point of the run. -/
structure Accounted (store : SessionConfigStore) (root : Text) (s : ComposeRun) : Prop where
  nodup : s.composition.stack.Nodup
  shallow : s.composition.stack.length ≤ maxSessionImportDepth
  disjoint : ∀ n ∈ s.composition.stack, n ∉ s.composition.loaded
  counted : s.composition.stack.length + s.composition.loaded.card ≤ maxSessionImportFiles
  once : s.reads.Nodup
  read : ∀ n, n ∈ s.reads ↔ n ∈ s.composition.stack ∨ n ∈ s.composition.loaded
  reached : ∀ n ∈ s.reads, Reaches store root n

/-- How the calls that have not returned belong to the stack, and where they lead. -/
structure Calling (store : SessionConfigStore) (root : Text) (s : ComposeRun) : Prop where
  stack : s.composition.stack = (s.frames.map ComposeFrame.name).reverse
  pending : ∀ f ∈ s.frames, ∃ entries, readDocument store f.name = .ok f.document ∧
    importList f.name f.document.imports = .ok entries ∧ ∀ i ∈ f.imports, i ∈ entries
  entering : ∀ name isRoot, s.control = .enter name isRoot → Reaches store root name

/-- The run has not ended, and its calls are in order. -/
def Ongoing (store : SessionConfigStore) (root : Text) (s : ComposeRun) : Prop :=
  Accounted store root s ∧ ((∀ r, s.control ≠ .ended r) → Calling store root s)

theorem ongoing_fail {e : SessionConfigFileError} (h : Accounted store root s) :
    Ongoing store root (s.fail e) :=
  ⟨⟨h.nodup, h.shallow, h.disjoint, h.counted, h.once, h.read, h.reached⟩,
    fun hnot => absurd rfl (hnot _)⟩

theorem ongoing_start (store : SessionConfigStore) (root : Text) :
    Ongoing store root (ComposeRun.start root) := by
  refine ⟨⟨List.nodup_nil, Nat.zero_le _, nofun, ?_, List.nodup_nil, fun n => ?_, nofun⟩,
    fun _ => ⟨rfl, fun f hf => absurd hf List.not_mem_nil, fun name isRoot h => ?_⟩⟩
  · simp [ComposeRun.start]
  · simp [ComposeRun.start]
  · simp only [ComposeRun.start, ComposeControl.enter.injEq] at h
    rw [← h.1]
    exact .refl

/-- The counts before a file is pushed. -/
structure Admissible (name : Text) (s : ComposeRun) : Prop where
  cycle : name ∉ s.composition.stack
  fresh : name ∉ s.composition.loaded
  depth : s.composition.stack.length < maxSessionImportDepth
  count : s.composition.stack.length + s.composition.loaded.card < maxSessionImportFiles

theorem accounted_push (h : Accounted store root s) (ha : Admissible name s)
    (hr : Reaches store root name) {f : List ComposeFrame} {control : ComposeControl} :
    Accounted store root ⟨f, control, { s.composition with
      stack := s.composition.stack ++ [name] }, s.reads ++ [name]⟩ := by
  have hnew : name ∉ s.reads := fun hm => ((h.read name).mp hm).elim ha.cycle ha.fresh
  have hdepth := ha.depth
  have hcount := ha.count
  have hlen : (s.composition.stack ++ [name]).length = s.composition.stack.length + 1 := by simp
  refine ⟨?_, by rw [hlen]; omega, fun n hm => ?_, by rw [hlen]; dsimp only; omega, ?_, fun n => ?_,
    fun n hm => ?_⟩
  · exact List.nodup_append.mpr ⟨h.nodup, List.nodup_singleton name, fun a hm b hb => by
      rw [List.mem_singleton.mp hb]
      exact fun he => ha.cycle (he ▸ hm)⟩
  · rcases List.mem_append.mp hm with hm | hm
    · exact h.disjoint n hm
    · rw [List.mem_singleton.mp hm]
      exact ha.fresh
  · exact List.nodup_append.mpr ⟨h.once, List.nodup_singleton name, fun a hm b hb => by
      rw [List.mem_singleton.mp hb]
      exact fun he => hnew (he ▸ hm)⟩
  · simp only [List.mem_append, List.mem_singleton, h.read]
    tauto
  · rcases List.mem_append.mp hm with hm | hm
    · exact h.reached n hm
    · rw [List.mem_singleton.mp hm]
      exact hr

theorem ongoing_push (h : Accounted store root s) (hc : Calling store root s)
    (ha : Admissible name s) (hr : Reaches store root name) :
    Ongoing store root (s.push store name isRoot) := by
  unfold ComposeRun.push
  cases hread : readImports store name isRoot with
  | error e => exact ongoing_fail (accounted_push h ha hr)
  | ok read =>
    obtain ⟨document, entries⟩ := read
    obtain ⟨hdoc, hentries⟩ := read_imports_ok hread
    refine ⟨accounted_push h ha hr, fun _ => ⟨?_, fun f hf => ?_, nofun⟩⟩
    · simp only [List.map_cons, List.reverse_cons, hc.stack]
    · rcases List.mem_cons.mp hf with rfl | hf
      · exact ⟨entries, hdoc, hentries, fun _ hi => hi⟩
      · exact hc.pending f hf

theorem ongoing_enter (h : Accounted store root s) (hc : Calling store root s)
    (hcontrol : s.control = .enter name isRoot) :
    Ongoing store root (s.enter store name isRoot) := by
  have hr := hc.entering name isRoot hcontrol
  unfold ComposeRun.enter
  dsimp only
  split
  · exact ongoing_fail h
  · rename_i hcycle
    split
    · exact ⟨⟨h.nodup, h.shallow, h.disjoint, h.counted, h.once, h.read, h.reached⟩,
        fun _ => ⟨hc.stack, hc.pending, nofun⟩⟩
    · rename_i hfresh
      split
      · exact ongoing_fail h
      · rename_i hdepth
        split
        · exact ongoing_fail h
        · rename_i hcount
          exact ongoing_push h hc ⟨hcycle, hfresh, by omega, by omega⟩ hr

theorem ongoing_pop (h : Accounted store root s) (hc : Calling store root s)
    (hcontrol : s.control = .next) (hframes : s.frames = frame :: frames) :
    Ongoing store root (s.pop x frame frames) := by
  have hstack := hc.stack
  rw [hframes, List.map_cons, List.reverse_cons] at hstack
  unfold ComposeRun.pop
  cases hmerge : mergeFile x frame s.composition with
  | error e => exact ongoing_fail h
  | ok c =>
    obtain ⟨hs, hl⟩ := merge_file_keeps hmerge
    have hdrop : c.stack.dropLast = (frames.map ComposeFrame.name).reverse := by
      rw [hs, hstack, List.dropLast_concat]
    have hnodup := h.nodup
    rw [hstack, List.nodup_append] at hnodup
    have hlast : frame.name ∉ (frames.map ComposeFrame.name).reverse := fun hm =>
      hnodup.2.2 _ hm _ (List.mem_singleton_self _) rfl
    have hfresh : frame.name ∉ s.composition.loaded := by
      refine h.disjoint _ ?_
      rw [hstack]
      exact List.mem_append_right _ (List.mem_singleton_self _)
    have hlen : s.composition.stack.length = (frames.map ComposeFrame.name).reverse.length + 1 := by
      rw [hstack]
      simp
    have hshallow := h.shallow
    have hcounted := h.counted
    refine ⟨⟨?_, ?_, fun n hm => ?_, ?_, h.once, fun n => ?_, h.reached⟩, fun _ => ⟨hdrop,
      fun f hf => hc.pending f (hframes ▸ List.mem_cons_of_mem _ hf), fun name isRoot he => ?_⟩⟩
    · show c.stack.dropLast.Nodup
      rw [hdrop]
      exact hnodup.1
    · show c.stack.dropLast.length ≤ _
      rw [hdrop]
      omega
    · have hm' : n ∈ (frames.map ComposeFrame.name).reverse := hdrop ▸ hm
      have hold : n ∉ s.composition.loaded := by
        refine h.disjoint n ?_
        rw [hstack]
        exact List.mem_append_left _ hm'
      show n ∉ insert frame.name c.loaded
      rw [hl, Finset.mem_insert, not_or]
      exact ⟨fun he => hlast (he ▸ hm'), hold⟩
    · show c.stack.dropLast.length + (insert frame.name c.loaded).card ≤ _
      rw [hdrop, hl, Finset.card_insert_of_notMem hfresh]
      omega
    · show n ∈ s.reads ↔ n ∈ c.stack.dropLast ∨ n ∈ insert frame.name c.loaded
      rw [hdrop, hl, Finset.mem_insert, h.read, hstack, List.mem_append, List.mem_singleton]
      tauto
    · have he' : s.control = .enter name isRoot := he
      rw [hcontrol] at he'
      cases he'

theorem ongoing_next (h : Accounted store root s) (hc : Calling store root s)
    (hcontrol : s.control = .next) : Ongoing store root (s.next x) := by
  unfold ComposeRun.next
  cases hframes : s.frames with
  | nil =>
    exact ⟨⟨h.nodup, h.shallow, h.disjoint, h.counted, h.once, h.read, h.reached⟩,
      fun hnot => absurd rfl (hnot _)⟩
  | cons frame frames =>
    dsimp only
    cases himports : frame.imports with
    | nil => exact ongoing_pop h hc hcontrol hframes
    | cons imported rest =>
      dsimp only
      cases hr : resolveImportName frame.name imported with
      | error e => exact ongoing_fail h
      | ok name =>
        have hstack := hc.stack
        rw [hframes] at hstack
        obtain ⟨entries, hdoc, hentries, hin⟩ :=
          hc.pending frame (hframes ▸ List.mem_cons_self)
        rw [himports] at hin
        have hread : frame.name ∈ s.reads := by
          rw [h.read, hstack]
          simp
        refine ⟨⟨h.nodup, h.shallow, h.disjoint, h.counted, h.once, h.read, h.reached⟩,
          fun _ => ⟨hstack, fun f hf => ?_, fun name' isRoot' he => ?_⟩⟩
        · rcases List.mem_cons.mp hf with rfl | hf
          · exact ⟨entries, hdoc, hentries, fun i hi => hin i (List.mem_cons_of_mem _ hi)⟩
          · exact hc.pending f (hframes ▸ List.mem_cons_of_mem _ hf)
        · cases he
          exact (h.reached _ hread).tail
            ⟨_, entries, imported, hdoc, hentries, hin imported List.mem_cons_self, hr⟩

theorem ongoing_step (h : Ongoing store root s)
    (hs : ComposeRun.step x store () s = some s') : Ongoing store root s' := by
  unfold ComposeRun.step at hs
  cases hcontrol : s.control with
  | enter name isRoot =>
    rw [hcontrol] at hs
    rw [← Option.some.inj hs]
    exact ongoing_enter h.1 (h.2 (by rw [hcontrol]; exact nofun)) hcontrol
  | next =>
    rw [hcontrol] at hs
    rw [← Option.some.inj hs]
    exact ongoing_next h.1 (h.2 (by rw [hcontrol]; exact nofun)) hcontrol
  | ended r =>
    rw [hcontrol] at hs
    cases hs

theorem reach_ongoing (h : Reach (ComposeRun.step x store) (ComposeRun.start root) s) :
    Ongoing store root s :=
  h.invariant (ongoing_start store root) fun _ ho hs => ongoing_step ho hs

theorem Accounted.few (h : Accounted store root s) : s.reads.length ≤ maxSessionImportFiles := by
  have hset : s.reads.toFinset = s.composition.stack.toFinset ∪ s.composition.loaded := by
    ext n
    rw [List.mem_toFinset, Finset.mem_union, List.mem_toFinset]
    exact h.read n
  have hcard := Finset.card_union_le s.composition.stack.toFinset s.composition.loaded
  have hstack := List.toFinset_card_le s.composition.stack
  have hcounted := h.counted
  rw [← List.toFinset_card_of_nodup h.once, hset]
  omega

/-- An error that begins otherwise is another error. -/
theorem other_detail (p : String) {detail : String} (hp : p.toList <+: detail.toList)
    (hne : ¬p.toList <+: fileCountError.detail.toList) : invalidConfig detail ≠ fileCountError := by
  intro he
  have hdetail : detail = fileCountError.detail := congrArg SessionConfigFileError.detail he
  rw [hdetail] at hp
  exact hne hp

theorem named_other (p name rest : String) (hne : ¬p.toList <+: fileCountError.detail.toList) :
    invalidConfig (p ++ name ++ rest) ≠ fileCountError := by
  refine other_detail p ?_ hne
  simp only [String.toList_append, List.append_assoc]
  exact List.prefix_append _ _

/-- The computation does not fail with the error about too many files. -/
def Uncounted {α : Type} (m : Except SessionConfigFileError α) : Prop := m ≠ .error fileCountError

section Errors

variable {α β : Type}

theorem uncounted_ok (a : α) : Uncounted (pure a) := nofun

theorem uncounted_throw {e : SessionConfigFileError} (h : e ≠ fileCountError) :
    Uncounted (throw e : Except SessionConfigFileError α) := fun he => h (Except.error.inj he)

theorem uncounted_bind {m : Except SessionConfigFileError α}
    {f : α → Except SessionConfigFileError β} (hm : Uncounted m) (hf : ∀ a, Uncounted (f a)) :
    Uncounted (m >>= f) := by
  intro he
  rcases bind_error.mp he with he | ⟨a, -, he⟩
  · exact hm he
  · exact hf a he

theorem uncounted_refuse {b : Bool} {e : SessionConfigFileError} (h : e ≠ fileCountError) :
    Uncounted (refuse b e) := fun he => h (refuse_error.mp he).2

theorem uncounted_map_error {ε : Type} {m : Except ε α} {f : ε → SessionConfigFileError}
    (h : ∀ e, f e ≠ fileCountError) : Uncounted (m.mapError f) := by
  cases m with
  | ok a => exact nofun
  | error e => exact fun he => h e (Except.error.inj he)

theorem cycle_other (name : Text) : cycleError name ≠ fileCountError := by
  exact named_other _ _ _ (by decide)

theorem depth_other : depthError ≠ fileCountError := by decide

theorem import_other (name : Text) : invalidImport name ≠ fileCountError := by
  exact named_other _ _ _ (by decide)

end Errors

theorem snapshot_other (name : Text) (failure : SnapshotFailure) :
    failure.error name ≠ fileCountError := by
  have hinvalid : ∀ detail, invalidFile name detail ≠ fileCountError := by
    intro detail
    refine other_detail "session configuration `" ?_ (by decide)
    simp only [String.toList_append, toString, List.append_assoc]
    exact List.prefix_append _ _
  cases failure with
  | notFound => exact nofun
  | unavailable => exact nofun
  | _ => exact hinvalid _

theorem document_uncounted (files : Text → Except SnapshotFailure Snapshot) (name : Text) :
    Uncounted (readDocument (.ofFiles files) name) := by
  refine uncounted_bind (uncounted_map_error (snapshot_other name)) fun snapshot => ?_
  cases snapshot with
  | invalidToml =>
    exact uncounted_throw (named_other _ _ _ (by decide))
  | nonTable =>
    exact uncounted_throw (named_other _ _ _ (by decide))
  | table document => exact uncounted_ok document

theorem strings_uncounted (name : Text) (imports : List (Option Text)) :
    Uncounted (importStrings name imports) := by
  induction imports with
  | nil => exact uncounted_ok []
  | cons imported rest ih =>
    cases imported with
    | none =>
      exact uncounted_throw (named_other _ _ _ (by decide))
    | some imported =>
      rw [importStrings]
      intro he
      cases hr : importStrings name rest with
      | error e =>
        rw [hr] at he ih
        exact ih he
      | ok names =>
        rw [hr] at he
        cases he

theorem list_uncounted (name : Text) (entry : TomlEntry (List (Option Text))) :
    Uncounted (importList name entry) := by
  cases entry with
  | absent => exact uncounted_ok []
  | value imports => exact strings_uncounted name imports
  | illTyped =>
    exact uncounted_throw (named_other _ _ _ (by decide))

theorem read_imports_uncounted (files : Text → Except SnapshotFailure Snapshot) (name : Text)
    (isRoot : Bool) : Uncounted (readImports (.ofFiles files) name isRoot) := by
  refine uncounted_bind (document_uncounted files name) fun document => ?_
  refine uncounted_bind (uncounted_refuse ?_) fun _ => ?_
  · exact named_other _ _ _ (by decide)
  · exact uncounted_bind (list_uncounted name _) fun imports => uncounted_ok _

theorem resolve_uncounted (name imported : Text) : Uncounted (resolveImportName name imported) := by
  refine uncounted_bind (uncounted_refuse (import_other name)) fun _ => ?_
  cases walkComponents (importDirectory name) (imported.splitOn '/') with
  | none => exact uncounted_throw (import_other name)
  | some components =>
    exact uncounted_bind (uncounted_map_error fun _ => import_other name) fun _ => uncounted_ok _

theorem modes_uncounted (modes : List (Text × CredentialMode)) (c : Composition) :
    Uncounted (Composition.addCredentialModes modes c) := by
  induction modes generalizing c with
  | nil => exact uncounted_ok c
  | cons entry modes ih =>
    refine uncounted_bind (uncounted_refuse ?_) fun _ => ih _
    exact named_other _ _ _ (by decide)

theorem rules_uncounted (rules : List HostRule) (c : Composition) :
    Uncounted (Composition.addRules rules c) := by
  induction rules generalizing c with
  | nil => exact uncounted_ok c
  | cons rule rules ih =>
    refine uncounted_bind (uncounted_refuse ?_) fun _ => ih _
    exact named_other _ _ _ (by decide)

theorem unmatched_uncounted (name : Text) (isRoot explicit : Bool) (value : UnmatchedHostPolicy)
    (c : Composition) : Uncounted (c.addUnmatched name isRoot explicit value) := by
  unfold Composition.addUnmatched
  split
  · exact uncounted_ok c
  · refine uncounted_bind (uncounted_refuse ?_) fun _ => uncounted_ok _
    exact named_other _ _ _ (by decide)

theorem default_uncounted (name : Text) (isRoot : Bool) (mode : Option CredentialMode)
    (c : Composition) : Uncounted (c.addCredentialDefault name isRoot mode) := by
  cases mode with
  | none => exact uncounted_ok c
  | some mode =>
    refine uncounted_bind (uncounted_refuse ?_) fun _ => uncounted_ok _
    exact named_other _ _ _ (by decide)

theorem finish_uncounted (policy : SessionConfig) (c : Composition) :
    Uncounted (c.finishRoot policy) := by
  refine uncounted_bind (uncounted_refuse ?_) fun _ =>
    uncounted_bind (uncounted_refuse ?_) fun _ => uncounted_ok _
  · exact named_other _ _ _ (by decide)
  · exact named_other _ _ _ (by decide)

theorem merge_uncounted (frame : ComposeFrame) (c : Composition) :
    Uncounted (mergeFile x frame c) := by
  refine uncounted_bind (uncounted_map_error fun e => ?_) fun policy => ?_
  · refine other_detail "session configuration `" ?_ (by decide)
    simp only [String.toList_append, toString, List.append_assoc]
    exact List.prefix_append _ _
  · refine uncounted_bind (unmatched_uncounted _ _ _ _ _) fun c1 =>
      uncounted_bind (default_uncounted _ _ _ _) fun c2 =>
        uncounted_bind (modes_uncounted _ _) fun c3 =>
          uncounted_bind (rules_uncounted _ _) fun c4 => ?_
    split
    · exact finish_uncounted policy c4
    · exact uncounted_ok c4

theorem fail_uncounted {e : SessionConfigFileError} (h : e ≠ fileCountError) :
    (s.fail e).control ≠ .ended (.error fileCountError) := by
  intro he
  exact h (Except.error.inj (ComposeControl.ended.inj he))

theorem push_uncounted (files : Text → Except SnapshotFailure Snapshot) (name : Text)
    (isRoot : Bool) :
    (s.push (.ofFiles files) name isRoot).control ≠ .ended (.error fileCountError) := by
  unfold ComposeRun.push
  cases hread : readImports (.ofFiles files) name isRoot with
  | ok read => exact nofun
  | error e =>
    apply fail_uncounted
    intro he
    rw [he] at hread
    exact read_imports_uncounted files name isRoot hread

theorem next_uncounted (hcontrol : s.control = .next) :
    (s.next x).control ≠ .ended (.error fileCountError) := by
  unfold ComposeRun.next
  cases hframes : s.frames with
  | nil => exact nofun
  | cons frame frames =>
    dsimp only
    cases himports : frame.imports with
    | nil =>
      dsimp only
      unfold ComposeRun.pop
      cases hmerge : mergeFile x frame s.composition with
      | ok c =>
        dsimp only
        rw [hcontrol]
        exact nofun
      | error e =>
        apply fail_uncounted
        intro he
        rw [he] at hmerge
        exact merge_uncounted frame s.composition hmerge
    | cons imported rest =>
      dsimp only
      cases hr : resolveImportName frame.name imported with
      | ok name => exact nofun
      | error e =>
        apply fail_uncounted
        intro he
        rw [he] at hr
        exact resolve_uncounted frame.name imported hr

/-- The count that is too high is of the files on the stack, the loaded ones and the
one that is entered, all of which are reached. -/
theorem enter_overflow {files : Text → Except SnapshotFailure Snapshot} {name : Text}
    {isRoot : Bool} (ha : Accounted (.ofFiles files) root s) (hname : Reaches (.ofFiles files) root name)
    (hend : (s.enter (.ofFiles files) name isRoot).control = .ended (.error fileCountError)) :
    ∃ names : Finset Text, maxSessionImportFiles < names.card ∧
      ∀ n ∈ names, Reaches (.ofFiles files) root n := by
  unfold ComposeRun.enter at hend
  dsimp only at hend
  split at hend
  · exact absurd hend (fail_uncounted (cycle_other name))
  · rename_i hcycle
    split at hend
    · cases hend
    · rename_i hfresh
      split at hend
      · exact absurd hend (fail_uncounted depth_other)
      · split at hend
        · rename_i hcount
          refine ⟨insert name (s.composition.stack.toFinset ∪ s.composition.loaded), ?_, ?_⟩
          · rw [Finset.card_insert_of_notMem (by simp [hcycle, hfresh]),
              Finset.card_union_of_disjoint, List.toFinset_card_of_nodup ha.nodup]
            · omega
            · rw [Finset.disjoint_left]
              exact fun n hn => ha.disjoint n (List.mem_toFinset.mp hn)
          · intro n hn
            rw [Finset.mem_insert, Finset.mem_union, List.mem_toFinset, ← ha.read] at hn
            rcases hn with rfl | hn
            · exact hname
            · exact ha.reached n hn
        · exact absurd hend (push_uncounted files name isRoot)

/-- The error comes from the count, and the count is of reached names. -/
theorem overflow_reached {files : Text → Except SnapshotFailure Snapshot}
    (h : Ongoing (.ofFiles files) root s)
    (hs : ComposeRun.step x (.ofFiles files) () s = some s')
    (hend : s'.control = .ended (.error fileCountError)) :
    ∃ names : Finset Text, maxSessionImportFiles < names.card ∧
      ∀ n ∈ names, Reaches (.ofFiles files) root n := by
  obtain ⟨ha, hc⟩ := h
  unfold ComposeRun.step at hs
  cases hcontrol : s.control with
  | ended r =>
    rw [hcontrol] at hs
    cases hs
  | enter name isRoot =>
    have hcall := hc (by rw [hcontrol]; exact nofun)
    rw [hcontrol] at hs
    rw [← Option.some.inj hs] at hend
    exact enter_overflow ha (hcall.entering name isRoot hcontrol) hend
  | next =>
    rw [hcontrol] at hs
    rw [← Option.some.inj hs] at hend
    exact absurd hend (next_uncounted hcontrol)

theorem count_error_reached {files : Text → Except SnapshotFailure Snapshot}
    (h : Reach (ComposeRun.step x (.ofFiles files)) (ComposeRun.start root) s)
    (hend : s.control = .ended (.error fileCountError)) :
    ∃ names : Finset Text, maxSessionImportFiles < names.card ∧
      ∀ n ∈ names, Reaches (.ofFiles files) root n := by
  cases h with
  | start => cases hend
  | next before _ hs => exact overflow_reached (reach_ongoing before) hs hend

theorem session_count_error (h : readSession x store root = .error fileCountError) :
    composeFile x store maxSessionImportDepth root true {} = .error fileCountError := by
  rcases bind_error.mp h with h | ⟨c, -, h⟩
  · exact h
  · cases hroot : c.root with
    | none =>
      rw [hroot] at h
      exact absurd (Except.error.inj h) (by decide)
    | some settings =>
      rw [hroot] at h
      cases h

/-- A session that was read has at most as many files as the limit says. -/
theorem session_few {config : SessionConfig} (h : readSession x store root = .ok config)
    {names : Finset Text} (hn : ∀ n ∈ names, Reaches store root n) :
    names.card ≤ maxSessionImportFiles := by
  have hc := h
  simp only [readSession, bind_ok] at hc
  obtain ⟨c, hc, -⟩ := hc
  obtain ⟨top, mid, cm, hr, hloaded⟩ := composed_root_run hc h
  obtain ⟨t, ht, -, hcomposition⟩ := run_ends x store root
  have hcounted := (reach_ongoing ht).1.counted
  rw [hcomposition c hc] at hcounted
  have hsub : names ⊆ c.loaded := by
    intro n hm
    have hmem := (hr.reaches_iff n).mpr (hn n hm)
    rw [hloaded, hr.walked.accum.loaded]
    simpa [or_comm] using hmem
  exact (Finset.card_le_card hsub).trans (by omega)

/-- Whatever the files import, the run ends; no file is read twice, and the count
of files is the count of reachable names. -/
theorem read_session_ends (x : Crates) (files : Text → Except SnapshotFailure Snapshot)
    (root : Text) :
    (∃ t, Reach (ComposeRun.step x (.ofFiles files)) (ComposeRun.start root) t ∧
      t.control = .ended (composeFile x (.ofFiles files) maxSessionImportDepth root true {})) ∧
    (∀ s, Reach (ComposeRun.step x (.ofFiles files)) (ComposeRun.start root) s →
      s.composition.stack.Nodup ∧ s.composition.stack.length ≤ maxSessionImportDepth ∧
      (∀ n ∈ s.composition.stack, n ∉ s.composition.loaded) ∧
      s.reads.Nodup ∧ s.reads.length ≤ maxSessionImportFiles) ∧
    (readSession x (.ofFiles files) root = .error fileCountError →
      ∃ names : Finset Text, maxSessionImportFiles < names.card ∧
        ∀ n ∈ names, Reaches (.ofFiles files) root n) ∧
    ((∃ names : Finset Text, maxSessionImportFiles < names.card ∧
      ∀ n ∈ names, Reaches (.ofFiles files) root n) →
        ∃ e, readSession x (.ofFiles files) root = .error e) := by
  obtain ⟨t, ht, hend, -⟩ := run_ends x (.ofFiles files) root
  refine ⟨⟨t, ht, hend⟩, fun s hs => ?_, fun h => ?_, fun ⟨names, hcard, hn⟩ => ?_⟩
  · have ha := (reach_ongoing hs).1
    exact ⟨ha.nodup, ha.shallow, ha.disjoint, ha.once, ha.few⟩
  · exact count_error_reached ht (hend.trans (by rw [session_count_error h]))
  · cases hr : readSession x (.ofFiles files) root with
    | error e => exact ⟨e, rfl⟩
    | ok config => exact absurd (session_few hr hn) (by omega)

end Baffle.Proofs
