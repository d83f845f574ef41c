import Baffle.Framing

namespace Baffle.Proofs
open Streams

variable {σ T V : Type} [Source σ UInt8] {s : σ} {n : Nat}

def frame (body : Bytes) : Bytes := BigEndian.toBytes 4 body.length ++ body

def timedFault : Fault → ControlError
  | .silent => errReadTimeout
  | _ => errTruncatedFrame

theorem read_exact_timed_ok (h : n ≤ (Source.content s).length) :
    ∃ s', readExactTimed n s = (.ok ((Source.content s).take n), s') ∧ Past s n s' := by
  obtain ⟨s', hread, hpast⟩ := read_exact_ok h
  refine ⟨s', ?_, hpast⟩
  rw [readExactTimed, hread]

theorem read_exact_timed_short (h : (Source.content s).length < n) :
    ∃ s', readExactTimed n s = (.error (timedFault (Source.ending s).fault), s') ∧
      Past s (Source.content s).length s' := by
  obtain ⟨s', hread, hpast⟩ := read_exact_short h
  refine ⟨s', ?_, hpast⟩
  rw [readExactTimed, hread]
  cases Source.ending s <;> rfl

theorem read_one {byte : UInt8} {rest : Bytes} (h : Source.content s = byte :: rest) :
    ∃ s', Source.read 1 s = (.ok [byte], s') ∧ Past s 1 s' := by
  have hne : Source.content s ≠ [] := by
    rw [h]
    exact List.cons_ne_nil byte rest
  obtain ⟨chunk, s', hread, hchunk, hlen, hpre, hpast⟩ := read_some Nat.one_pos hne
  obtain ⟨a, rfl⟩ : ∃ a, chunk = [a] := by
    apply List.length_eq_one_iff.mp
    have hpos := List.length_pos_of_ne_nil hchunk
    omega
  rw [h] at hpre
  obtain rfl : a = byte := (List.cons_prefix_cons.mp hpre).1
  exact ⟨s', hread, hpast⟩

/-- What is done once the header was read. -/
def readPayload (frameLength : Nat) (stream : σ) : Except ControlError (Option Bytes) × σ :=
  if frameLength > maxRequestBytes then (.error errFrameTooLarge, stream)
  else if frameLength = 0 then (.error errInvalidRequest, stream)
  else ((readExactTimed frameLength stream).1.map some, (readExactTimed frameLength stream).2)

/-- One byte and three more are the four of the header. -/
theorem read_header {header rest : Bytes} (hs : Source.content s = header ++ rest)
    (hlen : header.length = 4) :
    ∃ s', readRequestFrame s = readPayload (BigEndian.ofBytes header) s' ∧ Past s 4 s' := by
  obtain ⟨first, others, rfl⟩ := List.exists_cons_of_length_eq_add_one hlen
  obtain ⟨s', hfirst, hpast⟩ := read_one hs
  have hcontent : Source.content s' = others ++ rest := by
    rw [hpast.content, hs]
    rfl
  have hothers : others.length = 3 := Nat.succ.inj hlen
  have hmore : 3 ≤ (Source.content s').length := by
    rw [hcontent, List.length_append, hothers]
    exact Nat.le_add_right 3 _
  obtain ⟨s'', hread, hpast'⟩ := read_exact_timed_ok hmore
  refine ⟨s'', ?_, hpast.trans hpast'⟩
  rw [hcontent, List.take_left' hothers] at hread
  rw [readRequestFrame, hfirst]
  dsimp only
  rw [hread]
  dsimp only [List.singleton_append]
  unfold readPayload
  generalize readExactTimed (BigEndian.ofBytes (first :: others)) s'' = r
  obtain ⟨r, t⟩ := r
  cases r <;> rfl

theorem length_frame (body : Bytes) : (frame body).length = 4 + body.length := by
  rw [frame, List.length_append, BigEndian.length_to_bytes]

theorem length_bytes_lt {body : Bytes} (h : body.length < 2 ^ 32) :
    BigEndian.ofBytes (BigEndian.toBytes 4 body.length) = body.length :=
  BigEndian.of_to_bytes h

/-- A frame is read as its body, and nothing after it is touched. -/
theorem read_frame {body after : Bytes} (hs : Source.content s = frame body ++ after)
    (hpos : 0 < body.length) (hmax : body.length ≤ maxRequestBytes) :
    ∃ s', readRequestFrame s = (.ok (some body), s') ∧ Past s (frame body).length s' := by
  have hheader : Source.content s = BigEndian.toBytes 4 body.length ++ (body ++ after) := by
    rw [hs, frame, List.append_assoc]
  obtain ⟨s', hread, hpast⟩ := read_header hheader (BigEndian.length_to_bytes 4 body.length)
  have hcontent : Source.content s' = body ++ after := by
    rw [hpast.content, hheader, List.drop_left' (BigEndian.length_to_bytes 4 body.length)]
  have henough : body.length ≤ (Source.content s').length := by
    rw [hcontent, List.length_append]
    exact Nat.le_add_right body.length _
  obtain ⟨s'', hbody, hpast'⟩ := read_exact_timed_ok henough
  have hu32 : body.length < 2 ^ 32 := by
    unfold maxRequestBytes at hmax
    omega
  rw [length_bytes_lt hu32] at hread
  refine ⟨s'', ?_, ?_⟩
  · rw [hread, readPayload, if_neg (by omega), if_neg (by omega), hbody, hcontent, List.take_left]
    rfl
  · rw [length_frame]
    exact hpast.trans hpast'

theorem read_empty (hs : Source.content s = []) (hend : Source.ending s = .closed) :
    readRequestFrame s = (.ok none, s) := by
  rw [readRequestFrame, Source.read_end 1 s Nat.one_pos hs, hend]
  rfl

theorem read_partial_header (hne : Source.content s ≠ []) (hlen : (Source.content s).length < 4) :
    ∃ s', readRequestFrame s = (.error (timedFault (Source.ending s).fault), s') := by
  obtain ⟨byte, rest, hs⟩ := List.exists_cons_of_ne_nil hne
  obtain ⟨s', hfirst, hpast⟩ := read_one hs
  have hcontent : Source.content s' = rest := by
    rw [hpast.content, hs]
    rfl
  have hshort : (Source.content s').length < 3 := by
    rw [hs, List.length_cons] at hlen
    rw [hcontent]
    omega
  obtain ⟨s'', hread, -⟩ := read_exact_timed_short hshort
  refine ⟨s'', ?_⟩
  rw [readRequestFrame, hfirst]
  dsimp only
  rw [hread, hpast.ending]

theorem read_too_large {header rest : Bytes} (hs : Source.content s = header ++ rest)
    (hlen : header.length = 4) (hlarge : maxRequestBytes < BigEndian.ofBytes header) :
    ∃ s', readRequestFrame s = (.error errFrameTooLarge, s') ∧ Source.content s' = rest := by
  obtain ⟨s', hread, hpast⟩ := read_header hs hlen
  refine ⟨s', ?_, ?_⟩
  · rw [hread, readPayload, if_pos hlarge]
  · rw [hpast.content, hs, List.drop_left' hlen]

theorem read_zero_length {header rest : Bytes} (hs : Source.content s = header ++ rest)
    (hlen : header.length = 4) (hzero : BigEndian.ofBytes header = 0) :
    ∃ s', readRequestFrame s = (.error errInvalidRequest, s') ∧ Source.content s' = rest := by
  obtain ⟨s', hread, hpast⟩ := read_header hs hlen
  refine ⟨s', ?_, ?_⟩
  · rw [hread, hzero]
    rfl
  · rw [hpast.content, hs, List.drop_left' hlen]

theorem read_partial_payload {header rest : Bytes} (hs : Source.content s = header ++ rest)
    (hlen : header.length = 4) (hmax : BigEndian.ofBytes header ≤ maxRequestBytes)
    (hshort : rest.length < BigEndian.ofBytes header) :
    ∃ s', readRequestFrame s = (.error (timedFault (Source.ending s).fault), s') := by
  obtain ⟨s', hread, hpast⟩ := read_header hs hlen
  have hcontent : Source.content s' = rest := by
    rw [hpast.content, hs, List.drop_left' hlen]
  rw [← hcontent] at hshort
  obtain ⟨s'', hbody, -⟩ := read_exact_timed_short hshort
  refine ⟨s'', ?_⟩
  rw [hread, readPayload, if_neg (by omega), if_neg (by omega), hbody, hpast.ending]
  rfl

theorem timed_truncated {ending : StreamEnd} (h : ending ≠ .silent) :
    timedFault ending.fault = errTruncatedFrame := by
  cases ending with
  | closed => rfl
  | failed => rfl
  | silent => exact absurd rfl h

/-- What the bytes to come may be, for a reader of frames. -/
inductive Shape (bytes : Bytes) : Prop where
  | empty (h : bytes = [])
  | partialHeader (hne : bytes ≠ []) (hlen : bytes.length < 4)
  | tooLarge (header rest : Bytes) (h : bytes = header ++ rest) (hlen : header.length = 4)
      (hlarge : maxRequestBytes < BigEndian.ofBytes header)
  | zeroLength (header rest : Bytes) (h : bytes = header ++ rest) (hlen : header.length = 4)
      (hzero : BigEndian.ofBytes header = 0)
  | partialPayload (header rest : Bytes) (h : bytes = header ++ rest) (hlen : header.length = 4)
      (hmax : BigEndian.ofBytes header ≤ maxRequestBytes)
      (hshort : rest.length < BigEndian.ofBytes header)
  | framed (body after : Bytes) (h : bytes = frame body ++ after) (hpos : 0 < body.length)
      (hmax : body.length ≤ maxRequestBytes)

theorem shape (bytes : Bytes) : Shape bytes := by
  by_cases hempty : bytes = []
  · exact .empty hempty
  rcases Nat.lt_or_ge bytes.length 4 with hshort | hlong
  · exact .partialHeader hempty hshort
  obtain ⟨header, rest, hs, hlen⟩ : ∃ header rest, bytes = header ++ rest ∧ header.length = 4 :=
    ⟨bytes.take 4, bytes.drop 4, (List.take_append_drop 4 bytes).symm, List.length_take_of_le hlong⟩
  by_cases hlarge : maxRequestBytes < BigEndian.ofBytes header
  · exact .tooLarge header rest hs hlen hlarge
  by_cases hzero : BigEndian.ofBytes header = 0
  · exact .zeroLength header rest hs hlen hzero
  rcases Nat.lt_or_ge rest.length (BigEndian.ofBytes header) with hpart | hwhole
  · exact .partialPayload header rest hs hlen (by omega) hpart
  · have hbody : (rest.take (BigEndian.ofBytes header)).length = BigEndian.ofBytes header :=
      List.length_take_of_le hwhole
    refine .framed (rest.take (BigEndian.ofBytes header)) (rest.drop (BigEndian.ofBytes header))
      ?_ (by omega) (by omega)
    rw [frame, hbody, List.append_assoc, List.take_append_drop, ← hlen, BigEndian.to_of_bytes]
    exact hs

/-- Only a frame is read as a request. -/
theorem read_frame_only {body : Bytes} {s' : σ} (h : readRequestFrame s = (.ok (some body), s')) :
    Source.content s = frame body ++ Source.content s' ∧
      0 < body.length ∧ body.length ≤ maxRequestBytes := by
  cases shape (Source.content s) with
  | empty hs =>
    rw [readRequestFrame, Source.read_end 1 s Nat.one_pos hs] at h
    cases hend : Source.ending s <;> rw [hend] at h <;> cases h
  | partialHeader hne hlen =>
    obtain ⟨t, hread⟩ := read_partial_header hne hlen
    rw [h] at hread
    cases hread
  | tooLarge header rest hs hlen hlarge =>
    obtain ⟨t, hread, -⟩ := read_too_large hs hlen hlarge
    rw [h] at hread
    cases hread
  | zeroLength header rest hs hlen hzero =>
    obtain ⟨t, hread, -⟩ := read_zero_length hs hlen hzero
    rw [h] at hread
    cases hread
  | partialPayload header rest hs hlen hmax hshort =>
    obtain ⟨t, hread⟩ := read_partial_payload hs hlen hmax hshort
    rw [h] at hread
    cases hread
  | framed other after hs hpos hmax =>
    obtain ⟨t, hread, hpast⟩ := read_frame hs hpos hmax
    rw [h] at hread
    cases hread
    refine ⟨?_, hpos, hmax⟩
    rw [hpast.content, hs, List.drop_left]

variable {x : ControlCodec T V}

theorem as_u32 {n : Nat} (h : n < 2 ^ 32) : asU32 n = some n := if_pos h

theorem write_request {request : T} {body : Bytes} {sink : Sink UInt8}
    (hr : x.toToml request = some body) (hpos : 0 < body.length)
    (hmax : body.length ≤ maxRequestBytes) (hopen : sink.room = none) :
    writeRequest x request sink = (.ok (), { sink with written := sink.written ++ frame body }) := by
  have hu32 : body.length < 2 ^ 32 := by
    unfold maxRequestBytes at hmax
    omega
  have hsize : ¬ (body.isEmpty ∨ body.length > maxRequestBytes) := by
    rintro (h | h)
    · rw [List.isEmpty_iff.mp h] at hpos
      exact absurd hpos (Nat.lt_irrefl 0)
    · omega
  have hopen' : ({ sink with written := sink.written ++ BigEndian.toBytes 4 body.length } :
      Sink UInt8).room = none := hopen
  rw [writeRequest, hr]
  dsimp only
  rw [if_neg hsize, as_u32 hu32]
  dsimp only
  rw [write_all_open _ hopen]
  dsimp only
  rw [write_all_open _ hopen', frame, List.append_assoc]

theorem write_value {value : V} {bytes : Bytes} {sink : Sink UInt8}
    (hv : x.toVec value = some bytes) (hu32 : bytes.length < 2 ^ 32) (hopen : sink.room = none) :
    writeValue x value sink = (.ok (), { sink with written := sink.written ++ frame bytes }) := by
  have hopen' : ({ sink with written := sink.written ++ BigEndian.toBytes 4 bytes.length } :
      Sink UInt8).room = none := hopen
  rw [writeValue, hv]
  dsimp only
  rw [as_u32 hu32]
  dsimp only
  rw [write_all_open _ hopen]
  dsimp only
  rw [write_all_open _ hopen', frame, List.append_assoc]

theorem read_response {bytes after : Bytes} (hs : Source.content s = frame bytes ++ after)
    (hpos : 0 < bytes.length) (hmax : bytes.length ≤ maxResponseBytes) :
    ∃ s', readResponse s = (some (.ok bytes), s') ∧ Past s (frame bytes).length s' := by
  have hu32 : bytes.length < 2 ^ 32 := by
    unfold maxResponseBytes at hmax
    omega
  have hheader : Source.content s = BigEndian.toBytes 4 bytes.length ++ (bytes ++ after) := by
    rw [hs, frame, List.append_assoc]
  have hlen := BigEndian.length_to_bytes 4 bytes.length
  have hfour : 4 ≤ (Source.content s).length := by
    rw [hheader, List.length_append, hlen]
    exact Nat.le_add_right 4 _
  obtain ⟨s', hread, hpast⟩ := read_exact_ok hfour
  rw [hheader, List.take_left' hlen] at hread
  have hcontent : Source.content s' = bytes ++ after := by
    rw [hpast.content, hheader, List.drop_left' hlen]
  have henough : bytes.length ≤ (Source.content s').length := by
    rw [hcontent, List.length_append]
    exact Nat.le_add_right bytes.length _
  obtain ⟨s'', hbody, hpast'⟩ := read_exact_ok henough
  rw [hcontent, List.take_left] at hbody
  refine ⟨s'', ?_, ?_⟩
  · rw [readResponse, hread]
    dsimp only
    rw [length_bytes_lt hu32, if_neg (by omega), hbody]
  · rw [length_frame]
    exact hpast.trans hpast'

theorem exchange_written {τ : Type} [Source τ UInt8] {request : T} {sink : Sink UInt8}
    {reader : τ} : (exchange x request sink reader).2.1 = (writeRequest x request sink).2 := by
  unfold exchange
  generalize writeRequest x request sink = w
  obtain ⟨w, sink'⟩ := w
  cases w with
  | error e => rfl
  | ok u =>
    dsimp only
    generalize readResponse reader = r
    obtain ⟨r, reader'⟩ := r
    cases r with
    | none => rfl
    | some r => cases r <;> rfl

theorem exchange_read {τ : Type} [Source τ UInt8] {request : T} {sink : Sink UInt8}
    {reader reader' : τ} {bytes : Bytes} (hw : (writeRequest x request sink).1 = .ok ())
    (hr : readResponse reader = (some (.ok bytes), reader')) :
    exchange x request sink reader =
      (some (openResponse x bytes), (writeRequest x request sink).2, reader') := by
  unfold exchange
  generalize writeRequest x request sink = w at hw ⊢
  obtain ⟨w, sink'⟩ := w
  obtain rfl : w = .ok () := hw
  dsimp only
  rw [hr]

/-- A request is read as its client wrote it and leaves what follows to the lease;
every other stream is refused with the error of its kind; and a response is read
as the server wrote it. -/
theorem control_framing {τ : Type} [Source τ UInt8] (x : ControlCodec T V) :
    (∀ request body (client : τ) (server : σ) after, x.toToml request = some body →
      0 < body.length → body.length ≤ maxRequestBytes →
      Source.content server = (exchange x request .fresh client).2.1.written ++ after →
      ∃ server', readRequestFrame server = (.ok (some body), server') ∧
        Source.content server' = after ∧ Source.ending server' = Source.ending server ∧
        ∀ next later, after = next :: later →
          ∃ server'', Source.read 1 server' = (.ok [next], server'')) ∧
    (∀ server : σ, Source.content server = [] → Source.ending server = .closed →
      readRequestFrame server = (.ok none, server)) ∧
    (∀ server : σ, Source.content server ≠ [] → (Source.content server).length < 4 →
      Source.ending server ≠ .silent →
      ∃ server', readRequestFrame server = (.error errTruncatedFrame, server')) ∧
    (∀ (server : σ) header rest, Source.content server = header ++ rest → header.length = 4 →
      maxRequestBytes < BigEndian.ofBytes header →
      ∃ server', readRequestFrame server = (.error errFrameTooLarge, server') ∧
        Source.content server' = rest) ∧
    (∀ (server : σ) header rest, Source.content server = header ++ rest → header.length = 4 →
      BigEndian.ofBytes header = 0 →
      ∃ server', readRequestFrame server = (.error errInvalidRequest, server') ∧
        Source.content server' = rest) ∧
    (∀ (server : σ) header rest, Source.content server = header ++ rest → header.length = 4 →
      BigEndian.ofBytes header ≤ maxRequestBytes → rest.length < BigEndian.ofBytes header →
      Source.ending server ≠ .silent →
      ∃ server', readRequestFrame server = (.error errTruncatedFrame, server')) ∧
    (∀ (server server' : σ) body, readRequestFrame server = (.ok (some body), server') →
      Source.content server = frame body ++ Source.content server' ∧
        0 < body.length ∧ body.length ≤ maxRequestBytes) ∧
    ∀ value bytes, x.toVec value = some bytes → bytes.length ≤ maxResponseBytes →
      (writeValue x value .fresh).1 = .ok () ∧
      ∀ (client : τ) after,
        Source.content client = (writeValue x value .fresh).2.written ++ after →
        ∃ client', readResponse client = (some (.ok bytes), client') ∧
          Source.content client' = after ∧
          ∀ request sink, (writeRequest x request sink).1 = .ok () →
            exchange x request sink client =
              (some (openResponse x bytes), (writeRequest x request sink).2, client') := by
  refine ⟨?_, fun server => read_empty, ?_, fun server header rest => read_too_large,
    fun server header rest => read_zero_length, ?_, fun server server' body => read_frame_only, ?_⟩
  · intro request body client server after hr hpos hmax hs
    rw [exchange_written, write_request hr hpos hmax rfl] at hs
    obtain ⟨server', hread, hpast⟩ := read_frame hs hpos hmax
    have hcontent : Source.content server' = after := by
      rw [hpast.content, hs]
      exact List.drop_left
    refine ⟨server', hread, hcontent, hpast.ending, ?_⟩
    intro next later hafter
    obtain ⟨server'', hnext, -⟩ := read_one (hcontent.trans hafter)
    exact ⟨server'', hnext⟩
  · intro server hne hlen hend
    rw [← timed_truncated hend]
    exact read_partial_header hne hlen
  · intro server header rest hs hlen hmax hshort hend
    rw [← timed_truncated hend]
    exact read_partial_payload hs hlen hmax hshort
  · intro value bytes hv hmax
    have hu32 : bytes.length < 2 ^ 32 := by
      unfold maxResponseBytes at hmax
      omega
    have hwritten : writeValue x value .fresh = (.ok (), ⟨frame bytes, none, false⟩) :=
      write_value hv hu32 rfl
    rw [hwritten]
    refine ⟨rfl, ?_⟩
    intro client after hs
    have hpos := List.length_pos_of_ne_nil (x.toVec_ne value bytes hv)
    obtain ⟨client', hread, hpast⟩ := read_response hs hpos hmax
    refine ⟨client', hread, ?_, fun request sink hw => exchange_read hw hread⟩
    rw [hpast.content, hs]
    exact List.drop_left

end Baffle.Proofs
