import Mathlib
import Baffle.Lib.Termination

namespace Baffle.Relays

variable {α : Type}

/-- A party as a program sees it: what came from it, the part of that which is
still to be handed out, whether it has ended, and what it was given. -/
structure Party (α : Type) where
  taken : List α
  ahead : List α
  ended : Bool
  given : List α
  shut : Bool
deriving DecidableEq

def Party.fresh : Party α := ⟨[], [], false, [], false⟩

/-- One write: it accepts some of the elements, at least one. -/
def Party.accept (n : Nat) (rest : List α) (p : Party α) : Option (List α × Party α) :=
  if 0 < n ∧ n ≤ rest.length then some (rest.drop n, { p with given := p.given ++ rest.take n })
  else none

/-- Where a copy is. A failed one still holds what it could not write. -/
inductive Copy (α : Type) where
  | reading
  | writing (rest : List α)
  | closing
  | done
  | failed (rest : List α)
deriving DecidableEq

def Copy.held : Copy α → List α
  | .reading | .closing | .done => []
  | .writing rest | .failed rest => rest

def Copy.broken : Copy α → Bool
  | .failed _ => true
  | _ => false

inductive CopyEvent (α : Type) where
  | ahead
  | read (chunk : List α)
  | ended
  | readFailed
  | wrote (n : Nat)
  | writeFailed
  | closed
  | closeFailed
deriving DecidableEq

/-- What one copy and its two parties become. -/
structure Line (α : Type) where
  copy : Copy α
  source : Party α
  target : Party α

def Copy.continue (rest : List α) : Copy α := if rest = [] then .reading else .writing rest

/-- A step of a copy with a buffer of `size` elements. What was read ahead is handed
out before anything else is read. -/
def Copy.step (size : Nat) (e : CopyEvent α) (l : Line α) : Option (Line α) :=
  match l.copy, e with
  | .reading, .ahead =>
    if l.source.ahead = [] then none
    else some { l with
      copy := .continue (l.source.ahead.take size)
      source := { l.source with ahead := l.source.ahead.drop size } }
  | .reading, .read chunk =>
    if l.source.ahead = [] ∧ chunk ≠ [] ∧ chunk.length ≤ size then
      some { l with
        copy := .writing chunk
        source := { l.source with taken := l.source.taken ++ chunk } }
    else none
  | .reading, .ended =>
    if l.source.ahead = [] then
      some { l with copy := .closing, source := { l.source with ended := true } }
    else none
  | .reading, .readFailed =>
    if l.source.ahead = [] then some { l with copy := .failed [] } else none
  | .writing rest, .wrote n =>
    (l.target.accept n rest).map (fun r => { l with copy := .continue r.1, target := r.2 })
  | .writing rest, .writeFailed => some { l with copy := .failed rest }
  | .closing, .closed => some { l with copy := .done, target := { l.target with shut := true } }
  | .closing, .closeFailed => some { l with copy := .failed [] }
  | _, _ => none

/-- Two parties and the copies between them. -/
structure Relay (α : Type) where
  left : Party α
  right : Party α
  forth : Copy α
  back : Copy α

def Relay.start (left right : Party α) : Relay α := ⟨left, right, .reading, .reading⟩

/-- The relay with its sides exchanged. -/
def Relay.turn (r : Relay α) : Relay α := ⟨r.right, r.left, r.back, r.forth⟩

/-- Both copies are done. -/
def Relay.complete (r : Relay α) : Bool :=
  match r.forth, r.back with
  | .done, .done => true
  | _, _ => false

/-- The first failure ends the relay. -/
def Relay.broken (r : Relay α) : Bool := r.forth.broken || r.back.broken

inductive Direction where
  | forth
  | back
deriving DecidableEq

def Relay.forthStep (size : Nat) (e : CopyEvent α) (r : Relay α) : Option (Relay α) :=
  (Copy.step size e ⟨r.forth, r.left, r.right⟩).map
    (fun l => ⟨l.source, l.target, l.copy, r.back⟩)

def Relay.step (size : Nat) (e : Direction × CopyEvent α) (r : Relay α) : Option (Relay α) :=
  if r.broken then none
  else
    match e.1 with
    | .forth => r.forthStep size e.2
    | .back => (r.turn.forthStep size e.2).map Relay.turn

variable {size : Nat} {e : CopyEvent α} {l l' : Line α} {p q p0 q0 : Party α} {full : List α}

theorem accept_some {n : Nat} {rest : List α} {r : List α × Party α}
    (h : p.accept n rest = some r) :
    0 < n ∧ n ≤ rest.length ∧ r = (rest.drop n, { p with given := p.given ++ rest.take n }) := by
  unfold Party.accept at h
  split at h
  · rename_i hn
    exact ⟨hn.1, hn.2, (Option.some.inj h).symm⟩
  · cases h

@[simp] theorem reading_held : (Copy.reading : Copy α).held = [] := rfl
@[simp] theorem writing_held (rest : List α) : (Copy.writing rest).held = rest := rfl
@[simp] theorem closing_held : (Copy.closing : Copy α).held = [] := rfl
@[simp] theorem done_held : (Copy.done : Copy α).held = [] := rfl

@[simp] theorem continue_held (rest : List α) : (Copy.continue rest).held = rest := by
  unfold Copy.continue
  split
  · rename_i h
    exact h.symm
  · rfl

/-- The steps of one copy. -/
inductive Copies (size : Nat) (p q : Party α) : CopyEvent α → Copy α → Line α → Prop where
  | ahead (h : p.ahead ≠ []) : Copies size p q .ahead .reading
      ⟨.continue (p.ahead.take size), { p with ahead := p.ahead.drop size }, q⟩
  | read (chunk : List α) (h : p.ahead = []) (hne : chunk ≠ []) : Copies size p q (.read chunk)
      .reading ⟨.writing chunk, { p with taken := p.taken ++ chunk }, q⟩
  | ended (h : p.ahead = []) : Copies size p q .ended .reading ⟨.closing, { p with ended := true }, q⟩
  | readFailed : Copies size p q .readFailed .reading ⟨.failed [], p, q⟩
  | wrote (n : Nat) (rest : List α) (h0 : 0 < n) (hn : n ≤ rest.length) :
      Copies size p q (.wrote n) (.writing rest)
        ⟨.continue (rest.drop n), p, { q with given := q.given ++ rest.take n }⟩
  | writeFailed (rest : List α) : Copies size p q .writeFailed (.writing rest) ⟨.failed rest, p, q⟩
  | closed : Copies size p q .closed .closing ⟨.done, p, { q with shut := true }⟩
  | closeFailed : Copies size p q .closeFailed .closing ⟨.failed [], p, q⟩

theorem step_copies (h : Copy.step size e l = some l') :
    Copies size l.source l.target e l.copy l' := by
  obtain ⟨copy, p, q⟩ := l
  cases copy with
  | reading =>
    cases e with
    | ahead =>
      by_cases hne : p.ahead = []
      · simp [Copy.step, hne] at h
      · simp only [Copy.step, hne, if_false] at h
        cases h
        exact .ahead hne
    | read chunk =>
      by_cases hc : p.ahead = [] ∧ chunk ≠ [] ∧ chunk.length ≤ size
      · simp only [Copy.step, if_pos hc] at h
        cases h
        exact .read chunk hc.1 hc.2.1
      · simp only [Copy.step, if_neg hc] at h
        cases h
    | ended =>
      by_cases hc : p.ahead = []
      · simp only [Copy.step, if_pos hc] at h
        cases h
        exact .ended hc
      · simp [Copy.step, hc] at h
    | readFailed =>
      by_cases hc : p.ahead = []
      · simp only [Copy.step, if_pos hc] at h
        cases h
        exact .readFailed
      · simp [Copy.step, hc] at h
    | _ => cases h
  | writing rest =>
    cases e with
    | wrote n =>
      obtain ⟨r, hr, rfl⟩ := Option.map_eq_some_iff.mp h
      obtain ⟨h0, hn, rfl⟩ := accept_some hr
      exact .wrote n rest h0 hn
    | writeFailed =>
      cases h
      exact .writeFailed rest
    | _ => cases h
  | closing =>
    cases e with
    | closed =>
      cases h
      exact .closed
    | closeFailed =>
      cases h
      exact .closeFailed
    | _ => cases h
  | done => cases e <;> cases h
  | failed rest => cases e <;> cases h

/-- From these two parties on, what the target was given is what came from the source, up
to what the copy holds and what is still ahead. -/
structure Carried (p0 q0 : Party α) (l : Line α) : Prop where
  flow : ∃ new out, l.source.taken = p0.taken ++ new ∧ l.target.given = q0.given ++ out ∧
    out ++ l.copy.held ++ l.source.ahead = p0.ahead ++ new
  ended : l.copy = .closing ∨ l.copy = .done → l.source.ended = true ∧ l.source.ahead = []
  shut : l.copy = .done → l.target.shut = true
  busy : ∀ rest, l.copy = .writing rest → rest ≠ []

theorem carried_start (p q : Party α) : Carried p q ⟨.reading, p, q⟩ where
  flow := ⟨[], [], (List.append_nil _).symm, (List.append_nil _).symm, (List.append_nil _).symm⟩
  ended := by rintro (h | h) <;> cases h
  shut := by rintro ⟨⟩
  busy := by rintro _ ⟨⟩

theorem continue_not_ended (rest : List α) :
    ¬(Copy.continue rest = .closing ∨ Copy.continue rest = .done) := by
  unfold Copy.continue
  split <;> simp

theorem continue_busy {rest rest' : List α} (h : Copy.continue rest = .writing rest') :
    rest' ≠ [] := by
  unfold Copy.continue at h
  split at h
  · cases h
  · rename_i hne
    cases h
    exact hne

/-- A copy goes on with the rest of what it holds. -/
theorem Carried.go_on {rest : List α}
    (flow : ∃ new out, p.taken = p0.taken ++ new ∧ q.given = q0.given ++ out ∧
      out ++ rest ++ p.ahead = p0.ahead ++ new) : Carried p0 q0 ⟨.continue rest, p, q⟩ where
  flow := by
    rw [continue_held]
    exact flow
  ended h := absurd h (continue_not_ended rest)
  shut h := absurd (Or.inr h) (continue_not_ended rest)
  busy _ h := continue_busy h

theorem Carried.copies {copy : Copy α} (h : Carried p0 q0 ⟨copy, p, q⟩)
    (hc : Copies size p q e copy l') : Carried p0 q0 l' := by
  obtain ⟨new, out, htaken, hgiven, hflow⟩ := h.flow
  dsimp only at htaken hgiven hflow
  cases hc with
  | ahead hne =>
    refine .go_on ⟨new, out, htaken, hgiven, ?_⟩
    rw [← hflow, reading_held, List.append_nil, List.append_assoc, List.take_append_drop]
  | read chunk hahead hne =>
    refine ⟨⟨new ++ chunk, out, ?_, hgiven, ?_⟩, ?_, ?_, ?_⟩
    · rw [htaken, List.append_assoc]
    · simp only [hahead, reading_held, List.append_nil] at hflow
      simp only [hahead, writing_held, List.append_nil, hflow, List.append_assoc]
    · rintro (h | h) <;> cases h
    · rintro ⟨⟩
    · rintro _ ⟨⟩
      exact hne
  | ended hahead =>
    refine ⟨⟨new, out, htaken, hgiven, hflow⟩, fun _ => ⟨rfl, hahead⟩, ?_, ?_⟩
    · rintro ⟨⟩
    · rintro _ ⟨⟩
  | readFailed =>
    refine ⟨⟨new, out, htaken, hgiven, hflow⟩, ?_, ?_, ?_⟩
    · rintro (h | h) <;> cases h
    · rintro ⟨⟩
    · rintro _ ⟨⟩
  | wrote n rest h0 hn =>
    refine .go_on ⟨new, out ++ rest.take n, htaken, ?_, ?_⟩
    · rw [hgiven, List.append_assoc]
    · rw [← hflow, List.append_assoc out, List.take_append_drop, writing_held]
  | writeFailed rest =>
    refine ⟨⟨new, out, htaken, hgiven, hflow⟩, ?_, ?_, ?_⟩
    · rintro (h | h) <;> cases h
    · rintro ⟨⟩
    · rintro _ ⟨⟩
  | closed =>
    refine ⟨⟨new, out, htaken, hgiven, hflow⟩, fun _ => h.ended (Or.inl rfl), fun _ => rfl, ?_⟩
    rintro _ ⟨⟩
  | closeFailed =>
    refine ⟨⟨new, out, htaken, hgiven, hflow⟩, ?_, ?_, ?_⟩
    · rintro (h | h) <;> cases h
    · rintro ⟨⟩
    · rintro _ ⟨⟩

/-- A copy does not touch the other direction of its parties. -/
theorem Carried.beside {copy other : Copy α} (h : Carried p0 q0 ⟨other, q, p⟩)
    (hc : Copies size p q e copy l') : Carried p0 q0 ⟨other, l'.target, l'.source⟩ := by
  obtain ⟨⟨new, out, htaken, hgiven, hflow⟩, hended, hshut, hbusy⟩ := h
  cases hc <;> exact ⟨⟨new, out, htaken, hgiven, hflow⟩, hended, hshut, hbusy⟩

variable {r r' l0 r0 : Relay α} {left right : Party α}

/-- Both directions of a relay between two parties. -/
structure Conveys (left right : Party α) (r : Relay α) : Prop where
  forth : Carried left right ⟨r.forth, r.left, r.right⟩
  back : Carried right left ⟨r.back, r.right, r.left⟩

theorem Conveys.turn (h : Conveys left right r) : Conveys right left r.turn := ⟨h.back, h.forth⟩

theorem Conveys.start (left right : Party α) : Conveys left right (.start left right) :=
  ⟨carried_start left right, carried_start right left⟩

theorem forth_copies (h : r.forthStep size e = some r') :
    Copies size r.left r.right e r.forth ⟨r'.forth, r'.left, r'.right⟩ ∧ r'.back = r.back := by
  obtain ⟨l, hl, rfl⟩ := Option.map_eq_some_iff.mp h
  exact ⟨step_copies hl, rfl⟩

theorem Conveys.forth_step (h : Conveys left right r) (hs : r.forthStep size e = some r') :
    Conveys left right r' := by
  obtain ⟨hc, hback⟩ := forth_copies hs
  refine ⟨h.forth.copies hc, ?_⟩
  rw [hback]
  exact h.back.beside hc

/-- Every step of a relay is one of its copies. -/
theorem step_direction {a : Direction × CopyEvent α} (h : r.step size a = some r') :
    r.broken = false ∧
      (a.1 = .forth ∧ r.forthStep size a.2 = some r' ∨
        a.1 = .back ∧ r.turn.forthStep size a.2 = some r'.turn) := by
  obtain ⟨direction, e⟩ := a
  unfold Relay.step at h
  split at h
  · cases h
  · rename_i hb
    refine ⟨by simpa using hb, ?_⟩
    cases direction with
    | forth => exact Or.inl ⟨rfl, h⟩
    | back =>
      obtain ⟨r1, hr, rfl⟩ := Option.map_eq_some_iff.mp h
      exact Or.inr ⟨rfl, hr⟩

/-- What a relay keeps, whatever comes in which order. -/
theorem Conveys.step {a : Direction × CopyEvent α} (h : Conveys left right r)
    (hs : r.step size a = some r') : Conveys left right r' := by
  rcases (step_direction hs).2 with ⟨-, hf⟩ | ⟨-, hb⟩
  · exact h.forth_step hf
  · exact (h.turn.forth_step hb).turn

/-- A copy that is done has carried everything. -/
theorem Carried.delivered (h : Carried p0 q0 ⟨.done, p, q⟩) : q.shut = true ∧ p.ended = true ∧
    ∃ new, p.taken = p0.taken ++ new ∧ q.given = q0.given ++ (p0.ahead ++ new) := by
  obtain ⟨new, out, htaken, hgiven, hflow⟩ := h.flow
  obtain ⟨hended, hahead⟩ := h.ended (Or.inr rfl)
  refine ⟨h.shut rfl, hended, new, htaken, ?_⟩
  simp only at hahead hgiven
  simp only [done_held, hahead, List.append_nil] at hflow
  rw [hgiven, hflow]

/-- The event fits a source that sends these elements and then ends. -/
def Flows (full : List α) (p : Party α) : CopyEvent α → Prop
  | .read chunk => p.taken ++ chunk <+: full
  | .ended => p.taken = full
  | .readFailed | .writeFailed | .closeFailed => False
  | _ => True

def Smooth (lefts rights : List α) (a : Direction × CopyEvent α) (r : Relay α) : Prop :=
  match a.1 with
  | .forth => Flows lefts r.left a.2
  | .back => Flows rights r.right a.2

/-- What came from a source so far, and whether that is all. -/
structure Sends (full : List α) (p : Party α) : Prop where
  taken : p.taken <+: full
  ended : p.ended = true → p.taken = full

def Copy.turns : Copy α → Nat
  | .reading | .writing _ => 2
  | .closing => 1
  | .done | .failed _ => 0

/-- Each element is read and then written. -/
def Copy.work (full : List α) (copy : Copy α) (p : Party α) : Nat :=
  2 * (full.length - p.taken.length + p.ahead.length) + copy.held.length + copy.turns

def Relay.work (lefts rights : List α) (r : Relay α) : Nat :=
  r.forth.work lefts r.left + r.back.work rights r.right

@[simp] theorem reading_turns : (Copy.reading : Copy α).turns = 2 := rfl
@[simp] theorem writing_turns (rest : List α) : (Copy.writing rest).turns = 2 := rfl

@[simp] theorem continue_turns (rest : List α) : (Copy.continue rest).turns = 2 := by
  unfold Copy.continue
  split <;> rfl

theorem copy_lowers {copy : Copy α} (hsize : 0 < size) (hc : Copies size p q e copy l')
    (hf : Flows full p e) : l'.copy.work full l'.source < copy.work full p := by
  cases hc with
  | ahead hne =>
    have hlen := List.length_pos_iff.mpr hne
    simp only [Copy.work, continue_held, continue_turns, reading_held, reading_turns,
      List.length_nil, List.length_take, List.length_drop]
    omega
  | read chunk hahead hne =>
    have hlen := List.length_pos_iff.mpr hne
    have hle := List.IsPrefix.length_le hf
    simp only [List.length_append] at hle
    simp only [Copy.work, writing_held, writing_turns, reading_held, reading_turns,
      List.length_nil, List.length_append]
    omega
  | wrote n rest h0 hn =>
    simp only [Copy.work, continue_held, continue_turns, writing_held, writing_turns,
      List.length_drop]
    omega
  | ended hahead =>
    simp only [Copy.work, closing_held, reading_held, Copy.turns]
    omega
  | closed =>
    simp only [Copy.work, done_held, closing_held, Copy.turns]
    omega
  | readFailed => cases hf
  | writeFailed => cases hf
  | closeFailed => cases hf

/-- What a copy leaves alone in the party that it writes to. -/
theorem copies_beside {copy : Copy α} (hc : Copies size p q e copy l') :
    l'.target.taken = q.taken ∧ l'.target.ahead = q.ahead ∧ l'.target.ended = q.ended := by
  cases hc <;> exact ⟨rfl, rfl, rfl⟩

theorem Sends.copies {copy : Copy α} (h : Sends full p) (hc : Copies size p q e copy l')
    (hf : Flows full p e) : Sends full l'.source := by
  cases hc with
  | read chunk hahead hne =>
    refine ⟨hf, fun hended => ?_⟩
    have hall : p.taken = full := h.ended hended
    have hle := List.IsPrefix.length_le hf
    rw [hall, List.length_append] at hle
    exact absurd (List.eq_nil_of_length_eq_zero (by omega)) hne
  | ended hahead => exact ⟨h.taken, fun _ => hf⟩
  | _ => exact ⟨h.taken, h.ended⟩

theorem copies_unbroken {copy : Copy α} (hc : Copies size p q e copy l') (hf : Flows full p e) :
    l'.copy.broken = false := by
  cases hc with
  | ahead | wrote =>
    dsimp only [Copy.continue]
    split <;> rfl
  | readFailed => cases hf
  | writeFailed => cases hf
  | closeFailed => cases hf
  | _ => rfl

/-- A relay that goes well: nothing failed, and the parties sent what they had to. -/
structure Healthy (lefts rights : List α) (left right : Party α) (r : Relay α) : Prop where
  conveys : Conveys left right r
  whole : r.broken = false
  lefts : Sends lefts r.left
  rights : Sends rights r.right

variable {lefts rights : List α}

theorem Healthy.turn (h : Healthy lefts rights left right r) :
    Healthy rights lefts right left r.turn where
  conveys := h.conveys.turn
  whole := by
    rw [← h.whole]
    exact Bool.or_comm _ _
  lefts := h.rights
  rights := h.lefts

theorem Sends.beside {copy : Copy α} (h : Sends full q) (hc : Copies size p q e copy l') :
    Sends full l'.target := by
  obtain ⟨htaken, -, hended⟩ := copies_beside hc
  refine ⟨?_, fun he => ?_⟩
  · rw [htaken]
    exact h.taken
  · rw [htaken]
    exact h.ended (hended ▸ he)

theorem Healthy.forth_step (h : Healthy lefts rights left right r) (hsize : 0 < size)
    (hs : r.forthStep size e = some r') (hf : Flows lefts r.left e) :
    Healthy lefts rights left right r' ∧ r'.work lefts rights < r.work lefts rights := by
  obtain ⟨hc, hback⟩ := forth_copies hs
  have hwhole := h.whole
  simp only [Relay.broken, Bool.or_eq_false_iff] at hwhole
  refine ⟨⟨h.conveys.forth_step hs, ?_, h.lefts.copies hc hf, h.rights.beside hc⟩, ?_⟩
  · simp only [Relay.broken, Bool.or_eq_false_iff]
    exact ⟨copies_unbroken hc hf, hback ▸ hwhole.2⟩
  · have hlt := copy_lowers hsize hc hf
    obtain ⟨htaken, hahead, -⟩ := copies_beside hc
    simp only at hlt htaken hahead
    simp only [Relay.work, hback]
    refine Nat.add_lt_add_of_lt_of_le hlt (Nat.le_of_eq ?_)
    simp only [Copy.work, htaken, hahead]

theorem work_turn (r : Relay α) : r.turn.work rights lefts = r.work lefts rights :=
  Nat.add_comm _ _

/-- Every step of a relay that goes well leaves it with less to do. -/
theorem Healthy.step {a : Direction × CopyEvent α} (h : Healthy lefts rights left right r)
    (hsize : 0 < size) (hs : r.step size a = some r') (hf : Smooth lefts rights a r) :
    Healthy lefts rights left right r' ∧ r'.work lefts rights < r.work lefts rights := by
  obtain ⟨direction, e⟩ := a
  rcases (step_direction hs).2 with ⟨rfl, hforth⟩ | ⟨rfl, hback⟩
  · exact h.forth_step hsize hforth hf
  · obtain ⟨hturn, hlt⟩ := h.turn.forth_step hsize hback hf
    rw [work_turn, work_turn] at hlt
    exact ⟨hturn.turn, hlt⟩

/-- A copy that is not done can go on. -/
theorem copy_enabled {copy : Copy α} (hsize : 0 < size) (h : Carried p0 q0 ⟨copy, p, q⟩)
    (hw : Sends full p) (hb : copy.broken = false) (hd : copy ≠ .done) :
    ∃ e, Flows full p e ∧ Copy.step size e ⟨copy, p, q⟩ ≠ none := by
  cases copy with
  | reading =>
    by_cases hahead : p.ahead = []
    · obtain ⟨more, hmore⟩ := hw.taken
      cases more with
      | nil =>
        refine ⟨.ended, ?_, ?_⟩
        · rw [← hmore, List.append_nil]
          rfl
        · simp [Copy.step, hahead]
      | cons a more =>
        refine ⟨.read [a], ⟨more, ?_⟩, ?_⟩
        · rw [← hmore, List.append_assoc]
          rfl
        · simp [Copy.step, hahead, Nat.succ_le_of_lt hsize]
    · refine ⟨.ahead, trivial, ?_⟩
      simp [Copy.step, hahead]
  | writing rest =>
    refine ⟨.wrote 1, trivial, ?_⟩
    have hlen := List.length_pos_iff.mpr (h.busy rest rfl)
    simp [Copy.step, Party.accept, Nat.succ_le_of_lt hlen]
  | closing =>
    refine ⟨.closed, trivial, ?_⟩
    simp [Copy.step]
  | done => exact absurd rfl hd
  | failed rest => cases hb

theorem Healthy.forth_done (h : Healthy lefts rights left right r) (hsize : 0 < size)
    (hr : ∀ e, Flows lefts r.left e → r.forthStep size e = none) : r.forth = .done := by
  by_contra hd
  have hwhole := h.whole
  simp only [Relay.broken, Bool.or_eq_false_iff] at hwhole
  obtain ⟨e, hf, hne⟩ := copy_enabled hsize h.conveys.forth h.lefts hwhole.1 hd
  exact hne (Option.map_eq_none_iff.mp (hr e hf))

/-- A relay that goes well and has no step left is complete. -/
theorem Healthy.done (h : Healthy lefts rights left right r) (hsize : 0 < size)
    (hr : Rests (Relay.step size) (Smooth lefts rights) r) : r.forth = .done ∧ r.back = .done := by
  refine ⟨h.forth_done hsize (fun e hf => ?_), h.turn.forth_done hsize (fun e hf => ?_)⟩
  · have hnone := hr (.forth, e) hf
    simpa only [Relay.step, h.whole, Bool.false_eq_true, if_false] using hnone
  · have hnone := hr (.back, e) hf
    simp only [Relay.step, h.whole, Bool.false_eq_true, if_false] at hnone
    exact Option.map_eq_none_iff.mp hnone

end Baffle.Relays
