import Mathlib

namespace Baffle.Streams

variable {σ α : Type}

/-- What follows the last element: the stream is closed, it fails, or nothing happens any more. -/
inductive StreamEnd where
  | closed
  | failed
  | silent
deriving DecidableEq

inductive Fault where
  | unexpectedEof
  | failed
  | silent
deriving DecidableEq

/-- A read at the end. -/
def StreamEnd.read : StreamEnd → Except Fault (List α)
  | .closed => .ok []
  | .failed => .error .failed
  | .silent => .error .silent

/-- A read at the end that needs more. -/
def StreamEnd.fault : StreamEnd → Fault
  | .closed => .unexpectedEof
  | .failed => .failed
  | .silent => .silent

/-- A reader: a read returns some of the elements that come next, at least one and
no more than asked for, and a read of nothing changes nothing. -/
class Source (σ : Type) (α : outParam Type) where
  content : σ → List α
  ending : σ → StreamEnd
  read : Nat → σ → Except Fault (List α) × σ
  read_none : ∀ s, ∃ s', read 0 s = (.ok [], s') ∧ content s' = content s ∧ ending s' = ending s
  read_some : ∀ n s, 0 < n → content s ≠ [] → ∃ chunk s', read n s = (.ok chunk, s') ∧
    chunk ≠ [] ∧ chunk.length ≤ n ∧ content s = chunk ++ content s' ∧ ending s' = ending s
  read_end : ∀ n s, 0 < n → content s = [] → read n s = ((ending s).read, s)

open Source

/-- The second reader is the first one with that many elements read. -/
structure Past [Source σ α] (s : σ) (n : Nat) (s' : σ) : Prop where
  content : content s' = (content s).drop n
  ending : ending s' = ending s

variable [Source σ α] {s s' s'' : σ} {n k : Nat}

theorem Past.refl (s : σ) : Past s 0 s := ⟨(List.drop_zero).symm, rfl⟩

theorem Past.trans (h : Past s n s') (h' : Past s' k s'') : Past s (n + k) s'' where
  content := by
    rw [h'.content, h.content, List.drop_drop]
  ending := h'.ending.trans h.ending

/-- A read that finds something moves on by what it returns. -/
theorem read_some (hn : 0 < n) (hs : content s ≠ []) :
    ∃ chunk s', read n s = (.ok chunk, s') ∧ chunk ≠ [] ∧ chunk.length ≤ n ∧
      chunk <+: content s ∧ Past s chunk.length s' := by
  obtain ⟨chunk, s', hread, hne, hlen, hcontent, hending⟩ := Source.read_some n s hn hs
  refine ⟨chunk, s', hread, hne, hlen, ⟨Source.content s', hcontent.symm⟩, ?_, hending⟩
  rw [hcontent, List.drop_left]

/-- Read until there are `n` elements. -/
def readExact (n : Nat) (s : σ) : Except Fault (List α) × σ :=
  if n = 0 then (.ok [], s)
  else
    match read n s with
    | (.error fault, s') => (.error fault, s')
    | (.ok [], s') => (.error .unexpectedEof, s')
    | (.ok (a :: chunk), s') =>
      match readExact (n - (chunk.length + 1)) s' with
      | (.error fault, s'') => (.error fault, s'')
      | (.ok rest, s'') => (.ok (a :: chunk ++ rest), s'')
termination_by n
decreasing_by omega

theorem read_exact_step {a : α} {chunk : List α} (hn : 0 < n)
    (h : read n s = (.ok (a :: chunk), s')) :
    readExact n s =
      ((readExact (n - (chunk.length + 1)) s').1.map (a :: chunk ++ ·),
        (readExact (n - (chunk.length + 1)) s').2) := by
  rw [readExact, if_neg hn.ne', h]
  dsimp only
  generalize readExact (n - (chunk.length + 1)) s' = r
  obtain ⟨r, s''⟩ := r
  cases r <;> rfl

theorem read_exact_end (hn : 0 < n) (hs : content s = []) :
    readExact n s = (.error (ending s).fault, s) := by
  rw [readExact, if_neg hn.ne', Source.read_end n s hn hs]
  cases ending s <;> rfl

/-- With enough to come, exactly that much is read, whatever the pieces. -/
theorem read_exact_ok (h : n ≤ (content s).length) :
    ∃ s', readExact n s = (.ok ((content s).take n), s') ∧ Past s n s' := by
  induction n using Nat.strong_induction_on generalizing s with
  | _ n ih =>
    rcases Nat.eq_zero_or_pos n with rfl | hn
    · refine ⟨s, ?_, Past.refl s⟩
      rw [readExact, if_pos rfl, List.take_zero]
    · have hne : content s ≠ [] := List.ne_nil_of_length_pos (hn.trans_le h)
      obtain ⟨chunk, s', hread, hchunk, hlen, hpre, hpast⟩ := read_some hn hne
      cases chunk with
      | nil => exact absurd rfl hchunk
      | cons a chunk =>
        have hmore : n - (chunk.length + 1) ≤ (content s').length := by
          rw [hpast.content, List.length_drop, List.length_cons]
          omega
        obtain ⟨s'', hrest, hpast'⟩ := ih (n - (chunk.length + 1)) (by omega) hmore
        refine ⟨s'', ?_, ?_⟩
        · rw [read_exact_step hn hread, hrest, hpast.content]
          have htake : (content s).take n =
              (a :: chunk) ++ ((content s).drop (chunk.length + 1)).take (n - (chunk.length + 1)) := by
            obtain ⟨later, hlater⟩ := hpre
            rw [← hlater, List.take_append, ← List.length_cons (a := a), List.drop_left,
              List.take_of_length_le hlen]
          rw [htake]
          rfl
        · have hsum := hpast.trans hpast'
          rwa [List.length_cons, Nat.add_sub_cancel' (by simpa using hlen)] at hsum

/-- With too little to come, all of it is read and the read fails as the stream ends. -/
theorem read_exact_short (h : (content s).length < n) :
    ∃ s', readExact n s = (.error (ending s).fault, s') ∧ Past s (content s).length s' := by
  induction n using Nat.strong_induction_on generalizing s with
  | _ n ih =>
    have hn : 0 < n := by omega
    by_cases hs : content s = []
    · refine ⟨s, read_exact_end hn hs, ?_⟩
      rw [hs]
      exact Past.refl s
    · obtain ⟨chunk, s', hread, hchunk, hlen, hpre, hpast⟩ := read_some hn hs
      cases chunk with
      | nil => exact absurd rfl hchunk
      | cons a chunk =>
        have hle := hpre.length_le
        rw [List.length_cons] at hle
        have hlength : (content s').length = (content s).length - (chunk.length + 1) := by
          rw [hpast.content, List.length_drop, List.length_cons]
        have hless : (content s').length < n - (chunk.length + 1) := by omega
        obtain ⟨s'', hrest, hpast'⟩ := ih (n - (chunk.length + 1)) (by omega) hless
        refine ⟨s'', ?_, ?_⟩
        · rw [read_exact_step hn hread, hrest, hpast.ending]
          rfl
        · have hsum := hpast.trans hpast'
          rwa [List.length_cons, hlength, Nat.add_sub_cancel' hle] at hsum

/-- The elements that reads of these sizes return, up to the first read that fails. -/
def reads : List Nat → σ → List α × σ
  | [], s => ([], s)
  | n :: sizes, s =>
    match read n s with
    | (.error _, s') => ([], s')
    | (.ok chunk, s') => (chunk ++ (reads sizes s').1, (reads sizes s').2)

theorem read_past (n : Nat) (s : σ) :
    (∃ chunk s', read n s = (.ok chunk, s') ∧ content s = chunk ++ content s') ∨
      ∃ fault, read n s = (.error fault, s) ∧ content s = [] := by
  rcases Nat.eq_zero_or_pos n with rfl | hn
  · obtain ⟨s', hread, hcontent, -⟩ := read_none s
    exact Or.inl ⟨[], s', hread, hcontent.symm⟩
  · by_cases hs : content s = []
    · have hread := Source.read_end n s hn hs
      cases hend : ending s with
      | closed =>
        rw [hend] at hread
        exact Or.inl ⟨[], s, hread, rfl⟩
      | failed =>
        rw [hend] at hread
        exact Or.inr ⟨.failed, hread, hs⟩
      | silent =>
        rw [hend] at hread
        exact Or.inr ⟨.silent, hread, hs⟩
    · obtain ⟨chunk, s', hread, -, -, hcontent, -⟩ := Source.read_some n s hn hs
      exact Or.inl ⟨chunk, s', hread, hcontent⟩

/-- Whatever is read, each element comes once and in order, and the rest stays. -/
theorem reads_content (sizes : List Nat) (s : σ) :
    (reads sizes s).1 ++ content (reads sizes s).2 = content s := by
  induction sizes generalizing s with
  | nil => rfl
  | cons n sizes ih =>
    rcases read_past n s with ⟨chunk, s', hread, hcontent⟩ | ⟨fault, hread, hs⟩
    · rw [reads, hread, hcontent]
      dsimp only
      rw [List.append_assoc, ih]
    · rw [reads, hread]
      rfl

/-- A stream whose reads find the given numbers of elements, at least one each. -/
structure Incoming (α : Type) where
  rest : List α
  arrivals : List Nat
  ending : StreamEnd

/-- How much the next read returns, if there is that much. -/
def Incoming.arrival (s : Incoming α) (n : Nat) : Nat :=
  min n (max 1 (s.arrivals.headD n))

def Incoming.next (n : Nat) (s : Incoming α) : Except Fault (List α) × Incoming α :=
  if n = 0 then (.ok [], s)
  else
    match s.rest with
    | [] => (s.ending.read, s)
    | a :: rest =>
      (.ok ((a :: rest).take (s.arrival n)),
        { s with rest := (a :: rest).drop (s.arrival n), arrivals := s.arrivals.tail })

instance : Source (Incoming α) α where
  content := Incoming.rest
  ending := Incoming.ending
  read := Incoming.next
  read_none := fun s => ⟨s, if_pos rfl, rfl, rfl⟩
  read_some := by
    intro n s hn hs
    obtain ⟨a, rest, hrest⟩ := List.exists_cons_of_ne_nil hs
    have hpos : 0 < s.arrival n := by
      unfold Incoming.arrival
      omega
    refine ⟨(a :: rest).take (s.arrival n), { s with
      rest := (a :: rest).drop (s.arrival n)
      arrivals := s.arrivals.tail }, ?_, ?_, ?_, ?_, rfl⟩
    · rw [Incoming.next, if_neg hn.ne', hrest]
    · rw [ne_eq, List.take_eq_nil_iff]
      rintro (h | h)
      · omega
      · cases h
    · exact (List.length_take_le _ _).trans (Nat.min_le_left _ _)
    · rw [hrest]
      exact (List.take_append_drop _ _).symm
  read_end := by
    intro n s hn hs
    rw [Incoming.next, if_neg hn.ne', hs]

/-- What was written, how much more the other side takes before writing fails, and
whether the writer was shut down. -/
structure Sink (α : Type) where
  written : List α
  room : Option Nat
  shut : Bool

/-- Nothing was written, and nothing will fail. -/
def Sink.fresh : Sink α := ⟨[], none, false⟩

/-- Write all of the elements, or what there is room for. -/
def Sink.writeAll (elements : List α) (sink : Sink α) : Bool × Sink α :=
  match sink.room with
  | none => (true, { sink with written := sink.written ++ elements })
  | some room =>
    if elements.length ≤ room then
      (true, { sink with
        written := sink.written ++ elements
        room := some (room - elements.length) })
    else
      (false, { sink with
        written := sink.written ++ elements.take room
        room := some 0 })

theorem write_all_open (elements : List α) {sink : Sink α} (h : sink.room = none) :
    sink.writeAll elements = (true, { sink with written := sink.written ++ elements }) := by
  rw [Sink.writeAll, h]

end Baffle.Streams
