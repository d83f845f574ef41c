import Baffle.ConnectRequest

namespace Baffle.Proofs
open Streams Search

variable {σ : Type} [Source σ UInt8] {s s' : σ} {bytes later : Bytes}

theorem crlf_ne : crlfCrlf ≠ [] := List.cons_ne_nil _ _

def endError : StreamEnd → ConnectError
  | .closed => .unexpectedEof "early EOF while reading CONNECT headers"
  | .failed => .read
  | .silent => .stalled

/-- Where the headers of a whole stream end. -/
def headerEnd (stream : Bytes) (ending : StreamEnd) : Except ConnectError Nat :=
  match firstMatch crlfCrlf stream with
  | some position =>
    if position + 4 ≤ maxConnectHeaderBytes then .ok (position + 4) else .error headersTooLarge
  | none =>
    if maxConnectHeaderBytes ≤ stream.length then .error headersTooLarge
    else .error (endError ending)

/-- A turn that stops has seen enough to know where the headers of the whole stream end. -/
theorem look_stops (bytes : Bytes) (ending : StreamEnd) (later : Bytes) :
    (∃ n, lookForEnd bytes = .found bytes n ∧ n ≤ bytes.length ∧
      headerEnd (bytes ++ later) ending = .ok n) ∨
    (∃ error, lookForEnd bytes = .failed error ∧
      headerEnd (bytes ++ later) ending = .error error) ∨
    (lookForEnd bytes = .again bytes ∧ firstMatch crlfCrlf bytes = none ∧
      bytes.length < maxConnectHeaderBytes) := by
  cases hfirst : firstMatch crlfCrlf bytes with
  | some position =>
    have hwhole := first_match_append (b := later) crlf_ne hfirst
    have hlen : position + 4 ≤ bytes.length := first_match_length crlf_ne hfirst
    by_cases hfits : position + 4 ≤ maxConnectHeaderBytes
    · refine Or.inl ⟨position + 4, ?_, hlen, ?_⟩
      · simp only [lookForEnd, hfirst, if_pos hfits]
      · simp only [headerEnd, hwhole, if_pos hfits]
    · refine Or.inr (Or.inl ⟨headersTooLarge, ?_, ?_⟩)
      · simp only [lookForEnd, hfirst, if_neg hfits]
      · simp only [headerEnd, hwhole, if_neg hfits]
  | none =>
    by_cases hlong : maxConnectHeaderBytes ≤ bytes.length
    · refine Or.inr (Or.inl ⟨headersTooLarge, ?_, ?_⟩)
      · simp only [lookForEnd, hfirst, if_pos hlong]
      · cases hwhole : firstMatch crlfCrlf (bytes ++ later) with
        | some position =>
          have hbeyond : bytes.length < position + 4 := first_match_beyond crlf_ne hfirst hwhole
          simp only [headerEnd, hwhole]
          rw [if_neg (by omega)]
        | none =>
          simp only [headerEnd, hwhole]
          rw [if_pos]
          rw [List.length_append]
          omega
    · refine Or.inr (Or.inr ⟨?_, rfl, by omega⟩)
      simp only [lookForEnd, hfirst, if_neg hlong]

theorem read_turn_end (hlen : bytes.length < maxConnectHeaderBytes) (hs : Source.content s = []) :
    readTurn bytes s = (.failed (endError (Source.ending s)), s) := by
  have hremaining : 0 < remainingBytes bytes := by
    unfold remainingBytes
    omega
  have hsize : 0 < min (remainingBytes bytes) readBufferBytes :=
    lt_min hremaining (by decide)
  rw [readTurn, if_neg hremaining.ne', Source.read_end _ s hsize hs]
  cases Source.ending s <;> rfl

theorem read_turn_some (hlen : bytes.length < maxConnectHeaderBytes) (hs : Source.content s ≠ []) :
    ∃ chunk s', readTurn bytes s = (lookForEnd (bytes ++ chunk), s') ∧ chunk ≠ [] ∧
      Source.content s = chunk ++ Source.content s' ∧ Source.ending s' = Source.ending s := by
  have hremaining : 0 < remainingBytes bytes := by
    unfold remainingBytes
    omega
  have hsize : 0 < min (remainingBytes bytes) readBufferBytes :=
    lt_min hremaining (by decide)
  obtain ⟨chunk, s', hread, hne, -, hcontent, hending⟩ := Source.read_some _ s hsize hs
  refine ⟨chunk, s', ?_, hne, hcontent, hending⟩
  rw [readTurn, if_neg hremaining.ne', hread]
  cases chunk with
  | nil => exact absurd rfl hne
  | cons byte chunk => rfl

theorem read_header_failed {error : ConnectError} (h : readTurn bytes s = (.failed error, s')) :
    readHeader bytes s = (.error error, s') := by
  rw [readHeader]
  split
  · rename_i hturn
    cases h.symm.trans hturn
    rfl
  · rename_i hturn
    cases h.symm.trans hturn
  · rename_i hturn
    cases h.symm.trans hturn

theorem read_header_found {found : Bytes} {n : Nat} (h : readTurn bytes s = (.found found n, s')) :
    readHeader bytes s = (.ok (found, n), s') := by
  rw [readHeader]
  split
  · rename_i hturn
    cases h.symm.trans hturn
  · rename_i hturn
    cases h.symm.trans hturn
    rfl
  · rename_i hturn
    cases h.symm.trans hturn

theorem read_header_again {bytes' : Bytes} (h : readTurn bytes s = (.again bytes', s')) :
    readHeader bytes s = readHeader bytes' s' := by
  rw [readHeader]
  split
  · rename_i hturn
    cases h.symm.trans hturn
  · rename_i hturn
    cases h.symm.trans hturn
  · rename_i hturn
    cases h.symm.trans hturn
    rfl

/-- What the loop returns on a whole stream. -/
structure Finds (stream : Bytes) (ending : StreamEnd)
    (out : Except ConnectError (Bytes × Nat) × σ) : Prop where
  result : out.1.map Prod.snd = headerEnd stream ending
  rest : ∀ bytes n, out.1 = .ok (bytes, n) →
    bytes ++ Source.content out.2 = stream ∧ n ≤ bytes.length ∧ Source.ending out.2 = ending

theorem find_header (bytes : Bytes) (hnone : firstMatch crlfCrlf bytes = none)
    (hlen : bytes.length < maxConnectHeaderBytes) :
    Finds (bytes ++ Source.content s) (Source.ending s) (readHeader bytes s) := by
  induction hn : (Source.content s).length using Nat.strong_induction_on generalizing bytes s with
  | _ n ih =>
    by_cases hs : Source.content s = []
    · rw [read_header_failed (read_turn_end hlen hs), hs, List.append_nil]
      refine ⟨?_, fun bytes n h => by cases h⟩
      simp only [headerEnd, hnone, if_neg (Nat.not_le.mpr hlen)]
      rfl
    · obtain ⟨chunk, s', hturn, hne, hcontent, hending⟩ := read_turn_some hlen hs
      have hwhole : bytes ++ Source.content s = bytes ++ chunk ++ Source.content s' := by
        rw [hcontent, List.append_assoc]
      rw [hwhole, ← hending]
      rcases look_stops (bytes ++ chunk) (Source.ending s') (Source.content s') with
        ⟨position, hlook, hle, hend⟩ | ⟨error, hlook, hend⟩ | ⟨hlook, hnone', hlen'⟩
      · rw [hlook] at hturn
        rw [read_header_found hturn]
        refine ⟨hend.symm, ?_⟩
        intro found position' h
        cases h
        exact ⟨rfl, hle, rfl⟩
      · rw [hlook] at hturn
        rw [read_header_failed hturn]
        exact ⟨hend.symm, fun bytes n h => by cases h⟩
      · rw [hlook] at hturn
        rw [read_header_again hturn]
        have hshorter : (Source.content s').length < n := by
          have hpos := List.length_pos_of_ne_nil hne
          rw [← hn, hcontent, List.length_append]
          omega
        exact ih _ hshorter _ hnone' hlen' rfl

/-- The line is a header named Host, in any letter case. -/
def namesHost (line : Text) : Bool :=
  (Text.splitOnce ':' line).any (fun part => Text.eqIgnoreAsciiCase part.1 "host".toList)

/-- A header block that a CONNECT request may have. -/
structure Acceptable (block : Bytes) : Prop where
  ascii : ∀ byte ∈ block, byte.toNat < 128
  lines : ∃ requestLine headers authority, headerLines block = requestLine :: headers ∧
    splitAsciiWhitespace requestLine = ["CONNECT".toList, authority, "HTTP/1.1".toList] ∧
    (∀ line ∈ headers, ':' ∈ line) ∧ headers.countP namesHost ≤ 1

theorem parse_colonless {host : Option Text} {hasBody : Bool} {line : Text} {lines : List Text}
    (h : ':' ∉ line) :
    parseHeaders host hasBody (line :: lines) = .error (.invalidData "invalid header") := by
  rw [parseHeaders, Text.split_once_none.mpr h]

theorem parse_host (host : Option Text) (hasBody : Bool) {line : Text} (lines : List Text)
    (h : namesHost line = true) :
    ∃ value, parseHeaders host hasBody (line :: lines) =
      if host.isSome then .error (.invalidData "duplicate Host header")
      else parseHeaders (some value) hasBody lines := by
  unfold namesHost at h
  cases hsplit : Text.splitOnce ':' line with
  | none =>
    rw [hsplit] at h
    cases h
  | some part =>
    obtain ⟨name, value⟩ := part
    rw [hsplit] at h
    refine ⟨Text.trim value, ?_⟩
    rw [parseHeaders, hsplit]
    exact if_pos h

/-- A header of another name can only say that there is a body. -/
theorem parse_other (host : Option Text) (hasBody : Bool) {line : Text} (lines : List Text)
    (hcolon : ':' ∈ line) (h : namesHost line = false) :
    ∃ body, parseHeaders host hasBody (line :: lines) = parseHeaders host body lines := by
  unfold namesHost at h
  cases hsplit : Text.splitOnce ':' line with
  | none => exact absurd hcolon (Text.split_once_none.mp hsplit)
  | some part =>
    obtain ⟨name, value⟩ := part
    rw [hsplit] at h
    have hname : ¬ Text.eqIgnoreAsciiCase name "host".toList = true := ne_true_of_eq_false h
    rw [parseHeaders, hsplit]
    dsimp only
    rw [if_neg hname]
    split
    · exact ⟨true, rfl⟩
    split
    · exact ⟨_, rfl⟩
    split
    · exact ⟨true, rfl⟩
    · exact ⟨hasBody, rfl⟩

theorem parse_headers_ok (host : Option Text) (hasBody : Bool) (lines : List Text) :
    (∃ result, parseHeaders host hasBody lines = .ok result) ↔
      (∀ line ∈ lines, ':' ∈ line) ∧ lines.countP namesHost + host.toList.length ≤ 1 := by
  induction lines generalizing host hasBody with
  | nil =>
    have hhost : host.toList.length ≤ 1 := by cases host <;> simp
    constructor
    · intro _
      refine ⟨fun _ hm => absurd hm List.not_mem_nil, ?_⟩
      rwa [List.countP_nil, Nat.zero_add]
    · intro _
      exact ⟨(host, hasBody), rfl⟩
  | cons line lines ih =>
    rw [List.forall_mem_cons, List.countP_cons]
    by_cases hcolon : ':' ∈ line
    · cases hhost : namesHost line with
      | true =>
        obtain ⟨value, hparse⟩ := parse_host host hasBody lines hhost
        rw [hparse]
        cases host with
        | some other =>
          constructor
          · intro h
            obtain ⟨result, h⟩ := h
            cases h
          · intro h
            have hcount := h.2
            simp only [if_true, Option.toList_some, List.length_singleton] at hcount
            omega
        | none =>
          simp only [Option.isSome_none, Bool.false_eq_true, if_false, ih, if_true, hcolon, true_and,
            Option.toList_some, Option.toList_none, List.length_singleton, List.length_nil,
            Nat.add_zero]
      | false =>
        obtain ⟨body, hparse⟩ := parse_other host hasBody lines hcolon hhost
        rw [hparse, ih]
        simp only [hcolon, true_and, Bool.false_eq_true, if_false, Nat.add_zero]
    · constructor
      · intro h
        obtain ⟨result, h⟩ := h
        rw [parse_colonless hcolon] at h
        cases h
      · intro h
        exact absurd h.1.1 hcolon

theorem parse_connect_ok {block : Bytes} :
    (∃ parsed, parseConnect block = .ok parsed) ↔ Acceptable block := by
  constructor
  · intro h
    obtain ⟨parsed, h⟩ := h
    unfold parseConnect at h
    split at h
    · rename_i hascii
      split at h
      · cases h
      · rename_i requestLine headers hlines
        split at h
        · rename_i method authority version htokens
          split at h
          · rename_i hparts
            split at h
            · cases h
            · rename_i host hasBody hparse
              have hheaders := (parse_headers_ok none false headers).mp ⟨_, hparse⟩
              refine ⟨?_, requestLine, headers, authority, hlines, ?_, hheaders⟩
              · intro byte hm
                exact of_decide_eq_true (List.all_eq_true.mp hascii byte hm)
              · rw [htokens, hparts.1, hparts.2]
          · cases h
        · cases h
    · cases h
  · intro h
    obtain ⟨requestLine, headers, authority, hlines, htokens, hheaders⟩ := h.lines
    have hascii : block.all (fun byte => byte.toNat < 128) = true :=
      List.all_eq_true.mpr (fun byte hm => decide_eq_true (h.ascii byte hm))
    obtain ⟨result, hparse⟩ := (parse_headers_ok none false headers).mpr hheaders
    refine ⟨⟨authority, result.1, result.2⟩, ?_⟩
    unfold parseConnect
    rw [if_pos hascii, hlines]
    dsimp only
    rw [htokens]
    dsimp only
    rw [if_pos ⟨rfl, rfl⟩, hparse]

theorem finds_request (s : σ) :
    Finds (Source.content s) (Source.ending s) (readHeader [] s) :=
  find_header [] rfl (by decide)

/-- What the request is depends on the stream alone. -/
theorem request_result (s : σ) : (readConnectRequest s).1.map Prod.fst =
    (headerEnd (Source.content s) (Source.ending s)).bind
      (fun n => parseConnect ((Source.content s).take n)) := by
  have hfinds := finds_request s
  unfold readConnectRequest
  generalize readHeader [] s = out at hfinds ⊢
  obtain ⟨r, s'⟩ := out
  rw [← hfinds.result]
  cases r with
  | error error => rfl
  | ok found =>
    obtain ⟨bytes, n⟩ := found
    obtain ⟨hstream, hle, -⟩ := hfinds.rest bytes n rfl
    rw [← hstream]
    show _ = parseConnect ((bytes ++ Source.content s').take n)
    rw [List.take_append_of_le_length hle]
    dsimp only
    cases parseConnect (bytes.take n) <;> rfl

/-- What was read too far and what is still to come make up the rest of the stream. -/
theorem request_rest {parsed : ParsedConnect} {readAhead : Bytes}
    (h : readConnectRequest s = (.ok (parsed, readAhead), s')) :
    ∃ n, headerEnd (Source.content s) (Source.ending s) = .ok n ∧
      (Source.content s).drop n = readAhead ++ Source.content s' ∧
      Source.ending s' = Source.ending s := by
  have hfinds := finds_request s
  unfold readConnectRequest at h
  generalize readHeader [] s = out at hfinds h
  obtain ⟨r, t⟩ := out
  rw [← hfinds.result]
  cases r with
  | error error => cases h
  | ok found =>
    obtain ⟨bytes, n⟩ := found
    obtain ⟨hstream, hle, hending⟩ := hfinds.rest bytes n rfl
    refine ⟨n, rfl, ?_⟩
    dsimp only at h hstream
    split at h
    · cases h
    · cases h
      refine ⟨?_, hending⟩
      rw [← hstream, List.drop_append_of_le_length hle]

theorem header_end_block {stream block : Bytes} (h : UpToFirst crlfCrlf stream block)
    (ending : StreamEnd) : headerEnd stream ending =
      if block.length ≤ maxConnectHeaderBytes then .ok block.length else .error headersTooLarge := by
  obtain ⟨position, hfirst, rfl⟩ := (up_to_first_iff crlf_ne).mp h
  have hlen : position + 4 ≤ stream.length := first_match_length crlf_ne hfirst
  have hblock : (stream.take (position + crlfCrlf.length)).length = position + 4 :=
    List.length_take_of_le hlen
  simp only [headerEnd, hfirst, hblock]

/-- The headers end where the first empty line does, if that is within the limit. -/
theorem header_end_ok {stream : Bytes} {ending : StreamEnd} {n : Nat}
    (h : headerEnd stream ending = .ok n) :
    ∃ block, UpToFirst crlfCrlf stream block ∧ block.length = n ∧ n ≤ maxConnectHeaderBytes := by
  cases hfirst : firstMatch crlfCrlf stream with
  | some position =>
    have hblock := (up_to_first_iff crlf_ne).mpr ⟨position, hfirst, rfl⟩
    refine ⟨_, hblock, ?_⟩
    rw [header_end_block hblock] at h
    split at h
    · rename_i hfits
      cases h
      exact ⟨rfl, hfits⟩
    · cases h
  | none =>
    simp only [headerEnd, hfirst] at h
    split at h <;> cases h

theorem UpToFirst.take {stream block : Bytes} (h : UpToFirst crlfCrlf stream block) :
    stream.take block.length = block :=
  (List.prefix_iff_eq_take.mp h.within).symm

theorem request_of_block {block : Bytes} (h : UpToFirst crlfCrlf (Source.content s) block)
    (hlen : block.length ≤ maxConnectHeaderBytes) :
    (readConnectRequest s).1.map Prod.fst = parseConnect block := by
  rw [request_result, header_end_block h, if_pos hlen]
  show parseConnect ((Source.content s).take block.length) = _
  rw [UpToFirst.take h]

theorem exists_map_ok {ε α β : Type} {r : Except ε α} {f : α → β} :
    (∃ b, r.map f = .ok b) ↔ ∃ a, r = .ok a := by
  cases r with
  | error e => simp [Except.map]
  | ok a => simp [Except.map]

theorem request_ok (s : σ) : (∃ result, (readConnectRequest s).1 = .ok result) ↔
    ∃ block, UpToFirst crlfCrlf (Source.content s) block ∧
      block.length ≤ maxConnectHeaderBytes ∧ Acceptable block := by
  rw [← exists_map_ok (f := Prod.fst)]
  constructor
  · intro h
    obtain ⟨parsed, h⟩ := h
    rw [request_result] at h
    cases hend : headerEnd (Source.content s) (Source.ending s) with
    | error error =>
      rw [hend] at h
      cases h
    | ok n =>
      obtain ⟨block, hblock, rfl, hlen⟩ := header_end_ok hend
      rw [hend] at h
      refine ⟨block, hblock, hlen, parse_connect_ok.mp ⟨parsed, ?_⟩⟩
      rw [← UpToFirst.take hblock]
      exact h
  · intro h
    obtain ⟨block, hblock, hlen, hok⟩ := h
    rw [request_of_block hblock hlen]
    exact parse_connect_ok.mpr hok

theorem new_content (inner : σ) (readAhead : Bytes) :
    Source.content (BufferedConnectIo.new inner readAhead) = readAhead ++ Source.content inner := rfl

theorem copy_end (copied : Nat) (reader : σ) (writer : Sink UInt8) (hs : Source.content reader = []) :
    (copyUntilEof copied reader writer).2.2.written = writer.written ∧
      (Source.ending reader = .closed →
        copyUntilEof copied reader writer = (.ok copied, reader, { writer with shut := true })) := by
  have hread := Source.read_end (8 * 1024) reader (by norm_num) hs
  rw [copyUntilEof]
  cases hend : Source.ending reader with
  | closed =>
    rw [hend] at hread
    split <;> rename_i hturn <;> cases hread.symm.trans hturn
    exact ⟨rfl, fun _ => rfl⟩
  | failed =>
    rw [hend] at hread
    split <;> rename_i hturn <;> cases hread.symm.trans hturn
    exact ⟨rfl, fun h => by cases h⟩
  | silent =>
    rw [hend] at hread
    split <;> rename_i hturn <;> cases hread.symm.trans hturn
    all_goals exact ⟨rfl, fun h => by cases h⟩

theorem copy_some (copied : Nat) {reader reader' : σ} {writer : Sink UInt8} {byte : UInt8}
    {chunk : Bytes} (hread : Source.read (8 * 1024) reader = (.ok (byte :: chunk), reader'))
    (hopen : writer.room = none) :
    ∃ copied', copyUntilEof copied reader writer = copyUntilEof copied' reader'
      { writer with written := writer.written ++ byte :: chunk } := by
  refine ⟨min (2 ^ 64 - 1) (copied + (chunk.length + 1)), ?_⟩
  rw [copyUntilEof]
  split <;> rename_i hturn <;> cases hread.symm.trans hturn
  rw [write_all_open _ hopen]

/-- A tunnel passes on all that is still to come, whatever the pieces. -/
theorem copies_content (copied : Nat) (reader : σ) {writer : Sink UInt8} (h : writer.room = none) :
    (copyUntilEof copied reader writer).2.2.written = writer.written ++ Source.content reader ∧
      (Source.ending reader = .closed → ∃ total, (copyUntilEof copied reader writer).1 = .ok total ∧
        (copyUntilEof copied reader writer).2.2.shut = true) := by
  induction hn : (Source.content reader).length using Nat.strong_induction_on
    generalizing copied reader writer with
  | _ n ih =>
    by_cases hs : Source.content reader = []
    · obtain ⟨hwritten, hclosed⟩ := copy_end copied reader writer hs
      rw [hs, List.append_nil]
      refine ⟨hwritten, ?_⟩
      intro hend
      rw [hclosed hend]
      exact ⟨copied, rfl, rfl⟩
    · obtain ⟨chunk, reader', hread, hne, -, hcontent, hending⟩ :=
        Source.read_some (8 * 1024) reader (by norm_num) hs
      cases chunk with
      | nil => exact absurd rfl hne
      | cons byte chunk =>
        obtain ⟨copied', hcopy⟩ := copy_some copied hread h
        have hshorter : (Source.content reader').length < n := by
          rw [← hn, hcontent, List.length_append, List.length_cons]
          omega
        have hopen : ({ writer with written := writer.written ++ byte :: chunk } :
            Sink UInt8).room = none := h
        obtain ⟨hwritten, hclosed⟩ := ih _ hshorter copied' reader' hopen rfl
        rw [hcopy, hcontent, ← hending]
        refine ⟨?_, hclosed⟩
        rw [hwritten, List.append_assoc]

/-- One more turn of the loop, with what it has read so far. -/
def Again (before after : Bytes × σ) : Prop := readTurn before.1 before.2 = (.again after.1, after.2)

theorem again_bounded {stream : σ} {bytes : Bytes}
    (h : Relation.ReflTransGen Again ([], stream) (bytes, s)) :
    bytes.length < maxConnectHeaderBytes := by
  cases Relation.ReflTransGen.cases_tail h with
  | inl h =>
    cases h
    decide
  | inr h =>
    obtain ⟨before, -, hturn⟩ := h
    exact (turn_again hturn).2

/-- The same request is read however its bytes arrive, exactly when its header block
is one that a CONNECT request may have; the block and what is read after it make up
the stream, a tunnel passes on exactly what follows the block, and the loop always
has room for a whole buffer. -/
theorem connect_reading {τ : Type} [Source τ UInt8] :
    (∀ (s : σ) (t : τ), Source.content s = Source.content t → Source.ending s = Source.ending t →
      (readConnectRequest s).1.map Prod.fst = (readConnectRequest t).1.map Prod.fst) ∧
    (∀ s : σ, (∃ result, (readConnectRequest s).1 = .ok result) ↔
      ∃ block, UpToFirst crlfCrlf (Source.content s) block ∧
        block.length ≤ maxConnectHeaderBytes ∧ Acceptable block) ∧
    (∀ (s : σ) (t : τ) block, UpToFirst crlfCrlf (Source.content s) block →
      UpToFirst crlfCrlf (Source.content t) block → block.length ≤ maxConnectHeaderBytes →
      (readConnectRequest s).1.map Prod.fst = (readConnectRequest t).1.map Prod.fst) ∧
    (∀ (s s' : σ) parsed readAhead, readConnectRequest s = (.ok (parsed, readAhead), s') →
      ∃ block, UpToFirst crlfCrlf (Source.content s) block ∧
        (∀ sizes,
          block ++ (reads sizes (BufferedConnectIo.new s' readAhead)).1 ++
            Source.content (reads sizes (BufferedConnectIo.new s' readAhead)).2 =
              Source.content s) ∧
        ∀ upstream : Sink UInt8, upstream.room = none →
          (copyUntilEof 0 (BufferedConnectIo.new s' readAhead) upstream).2.2.written =
              upstream.written ++ (Source.content s).drop block.length ∧
            (Source.ending s = .closed → ∃ total,
              (copyUntilEof 0 (BufferedConnectIo.new s' readAhead) upstream).1 = .ok total ∧
              (copyUntilEof 0 (BufferedConnectIo.new s' readAhead) upstream).2.2.shut = true)) ∧
    ∀ (stream s : σ) bytes, Relation.ReflTransGen Again ([], stream) (bytes, s) →
      remainingBytes bytes ≠ 0 := by
  refine ⟨?_, request_ok, ?_, ?_, ?_⟩
  · intro s t hcontent hending
    rw [request_result, request_result, hcontent, hending]
  · intro s t block hs ht hlen
    rw [request_of_block hs hlen, request_of_block ht hlen]
  · intro s s' parsed readAhead h
    obtain ⟨n, hend, hrest, hending⟩ := request_rest h
    obtain ⟨block, hblock, rfl, -⟩ := header_end_ok hend
    refine ⟨block, hblock, ?_, ?_⟩
    · intro sizes
      rw [List.append_assoc, reads_content, new_content, ← hrest]
      obtain ⟨after, hafter⟩ := hblock.within
      rw [← hafter, List.drop_left]
    · intro upstream hopen
      obtain ⟨hwritten, hclosed⟩ :=
        copies_content 0 (BufferedConnectIo.new s' readAhead) hopen
      rw [hwritten, new_content, hrest]
      exact ⟨rfl, fun h => hclosed (hending.trans h)⟩
  · intro stream s bytes h
    have hlen := again_bounded h
    unfold remainingBytes
    omega

end Baffle.Proofs
