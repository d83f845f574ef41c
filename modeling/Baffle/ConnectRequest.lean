import Baffle.Connect
import Baffle.Lib.Search
import Baffle.Lib.Streams

/-!
Reading the CONNECT request, and the bytes that follow it (`read_connect_request`,
`BufferedConnectIo` and `copy_until_eof` in `src/proxy_runtime/rama/connect.rs`).
-/

namespace Baffle
open Streams Search

variable {σ : Type} [Source σ UInt8]

def maxConnectHeaderBytes : Nat := 16 * 1024
def readBufferBytes : Nat := 4096

def crlfCrlf : Bytes := [13, 10, 13, 10]

/-- `stalled` is no error: nothing arrives any more, until the timeout of the caller. -/
inductive ConnectError where
  | invalidData (message : String)
  | unexpectedEof (message : String)
  | read
  | stalled
deriving DecidableEq

def headersTooLarge : ConnectError := .invalidData "CONNECT headers too large"

/-- How one turn of the loop ends. -/
inductive Turn where
  | again (bytes : Bytes)
  | found (bytes : Bytes) (headerEnd : Nat)
  | failed (error : ConnectError)

def remainingBytes (bytes : Bytes) : Nat :=
  maxConnectHeaderBytes + readBufferBytes - bytes.length

/-- What follows from the bytes that have arrived. -/
def lookForEnd (bytes : Bytes) : Turn :=
  match firstMatch crlfCrlf bytes with
  | some position =>
    if position + 4 ≤ maxConnectHeaderBytes then .found bytes (position + 4)
    else .failed headersTooLarge
  | none => if maxConnectHeaderBytes ≤ bytes.length then .failed headersTooLarge else .again bytes

def readTurn (bytes : Bytes) (stream : σ) : Turn × σ :=
  if remainingBytes bytes = 0 then (.failed headersTooLarge, stream)
  else
    match Source.read (min (remainingBytes bytes) readBufferBytes) stream with
    | (.error .silent, stream) => (.failed .stalled, stream)
    | (.error _, stream) => (.failed .read, stream)
    | (.ok [], stream) =>
      (.failed (.unexpectedEof "early EOF while reading CONNECT headers"), stream)
    | (.ok (byte :: chunk), stream) => (lookForEnd (bytes ++ byte :: chunk), stream)

theorem look_again {bytes bytes' : Bytes} (h : lookForEnd bytes = .again bytes') :
    bytes' = bytes ∧ firstMatch crlfCrlf bytes = none ∧ bytes.length < maxConnectHeaderBytes := by
  unfold lookForEnd at h
  split at h
  · split at h <;> cases h
  · rename_i hnone
    split at h
    · cases h
    · rename_i hlen
      cases h
      exact ⟨rfl, hnone, Nat.lt_of_not_le hlen⟩

theorem turn_again {bytes bytes' : Bytes} {stream stream' : σ}
    (h : readTurn bytes stream = (.again bytes', stream')) :
    bytes.length < bytes'.length ∧ bytes'.length < maxConnectHeaderBytes := by
  unfold readTurn at h
  split at h
  · cases h
  · split at h
    · cases h
    · cases h
    · cases h
    · rename_i byte chunk stream'' hread
      obtain ⟨rfl, -, hlen⟩ := look_again (congrArg Prod.fst h)
      rw [List.length_append, List.length_cons] at hlen ⊢
      exact ⟨by omega, hlen⟩

def readHeader (bytes : Bytes) (stream : σ) : Except ConnectError (Bytes × Nat) × σ :=
  match _hturn : readTurn bytes stream with
  | (.failed error, stream) => (.error error, stream)
  | (.found bytes headerEnd, stream) => (.ok (bytes, headerEnd), stream)
  | (.again bytes', stream) => readHeader bytes' stream
termination_by remainingBytes bytes
decreasing_by
  have hlen := turn_again _hturn
  unfold remainingBytes
  omega

/-- `u8::is_ascii_whitespace`. -/
def isAsciiWhitespace (c : Char) : Bool :=
  c == ' ' || c == '\t' || c == '\n' || c == '\x0c' || c == '\r'

def splitAsciiWhitespace (s : Text) : List Text :=
  (s.splitOnP isAsciiWhitespace).filter (fun token => !token.isEmpty)

/-- `str::split` at each CR LF. -/
def splitCrlf : Text → List Text
  | [] => [[]]
  | '\r' :: '\n' :: s => [] :: splitCrlf s
  | c :: s => (splitCrlf s).modifyHead (c :: ·)

def parseHeaders : Option Text → Bool → List Text → Except ConnectError (Option Text × Bool)
  | host, hasBody, [] => .ok (host, hasBody)
  | host, hasBody, line :: lines =>
    match Text.splitOnce ':' line with
    | none => .error (.invalidData "invalid header")
    | some (name, value) =>
      if Text.eqIgnoreAsciiCase name "host".toList then
        if host.isSome then .error (.invalidData "duplicate Host header")
        else parseHeaders (some (Text.trim value)) hasBody lines
      else if Text.eqIgnoreAsciiCase name "transfer-encoding".toList then
        parseHeaders host true lines
      else if Text.eqIgnoreAsciiCase name "content-length".toList then
        parseHeaders host (hasBody || Text.trim value != "0".toList) lines
      else if Text.eqIgnoreAsciiCase name "expect".toList then parseHeaders host true lines
      else parseHeaders host hasBody lines

def asciiText (bytes : Bytes) : Text := bytes.map (fun byte => Char.ofNat byte.toNat)

/-- The lines of a header block, without the empty one that ends it. -/
def headerLines (block : Bytes) : List Text :=
  splitCrlf ((asciiText block).take ((asciiText block).length - 4))

def parseConnect (block : Bytes) : Except ConnectError ParsedConnect :=
  if block.all (fun byte => byte.toNat < 128) then
    match headerLines block with
    | [] => .error (.invalidData "missing request line")
    | requestLine :: lines =>
      match splitAsciiWhitespace requestLine with
      | [method, authority, version] =>
        if method = "CONNECT".toList ∧ version = "HTTP/1.1".toList then
          match parseHeaders none false lines with
          | .error error => .error error
          | .ok (host, hasBody) => .ok { authority, host, hasBody }
        else .error (.invalidData "only HTTP/1.1 CONNECT is supported")
      | _ => .error (.invalidData "only HTTP/1.1 CONNECT is supported")
  else .error (.invalidData "CONNECT headers are not ASCII")

/-- The request, and `read_ahead`. -/
def readConnectRequest (stream : σ) : Except ConnectError (ParsedConnect × Bytes) × σ :=
  match readHeader [] stream with
  | (.error error, stream) => (.error error, stream)
  | (.ok (bytes, headerEnd), stream) =>
    match parseConnect (bytes.take headerEnd) with
    | .error error => (.error error, stream)
    | .ok parsed => (.ok (parsed, bytes.drop headerEnd), stream)

structure BufferedConnectIo (σ : Type) where
  inner : σ
  readAhead : Bytes
  readAheadOffset : Nat

def BufferedConnectIo.new (inner : σ) (readAhead : Bytes) : BufferedConnectIo σ :=
  { inner, readAhead, readAheadOffset := 0 }

/-- `poll_read`. -/
def BufferedConnectIo.read (n : Nat) (io : BufferedConnectIo σ) :
    Except Fault Bytes × BufferedConnectIo σ :=
  if io.readAheadOffset < io.readAhead.length then
    let remaining := io.readAhead.drop io.readAheadOffset
    let read := min remaining.length n
    (.ok (remaining.take read), { io with readAheadOffset := io.readAheadOffset + read })
  else
    match Source.read n io.inner with
    | (result, inner) => (result, { io with inner })

def BufferedConnectIo.content (io : BufferedConnectIo σ) : Bytes :=
  io.readAhead.drop io.readAheadOffset ++ Source.content io.inner

def BufferedConnectIo.advance (io : BufferedConnectIo σ) (n : Nat) : BufferedConnectIo σ :=
  { io with
    readAheadOffset := io.readAheadOffset + min (io.readAhead.length - io.readAheadOffset) n }

theorem advance_content (io : BufferedConnectIo σ) (n : Nat) : (io.advance n).content =
    (io.readAhead.drop io.readAheadOffset).drop n ++ Source.content io.inner := by
  have hdrop : io.readAhead.drop (io.advance n).readAheadOffset =
      (io.readAhead.drop io.readAheadOffset).drop n := by
    rw [List.drop_drop]
    apply List.drop_eq_drop_iff.mpr
    simp only [BufferedConnectIo.advance]
    omega
  rw [← hdrop]
  rfl

theorem read_ahead {io : BufferedConnectIo σ} (n : Nat)
    (h : io.readAheadOffset < io.readAhead.length) :
    io.read n = (.ok ((io.readAhead.drop io.readAheadOffset).take n), io.advance n) := by
  rw [BufferedConnectIo.read, if_pos h]
  dsimp only [BufferedConnectIo.advance]
  rw [Nat.min_comm, ← List.take_eq_take_min, Nat.min_comm, List.length_drop]

/-- The read-ahead is part of the stream again. -/
instance : Source (BufferedConnectIo σ) UInt8 where
  content := BufferedConnectIo.content
  ending := fun io => Source.ending io.inner
  read := BufferedConnectIo.read
  read_none := by
    intro io
    by_cases hahead : io.readAheadOffset < io.readAhead.length
    · refine ⟨io.advance 0, read_ahead 0 hahead, ?_, rfl⟩
      rw [BufferedConnectIo.content, BufferedConnectIo.content, BufferedConnectIo.advance,
        Nat.min_zero, Nat.add_zero]
    · obtain ⟨inner, hread, hcontent, hending⟩ := Source.read_none io.inner
      refine ⟨{ io with inner }, ?_, ?_, hending⟩
      · rw [BufferedConnectIo.read, if_neg hahead, hread]
      · rw [BufferedConnectIo.content, hcontent]
        rfl
  read_some := by
    intro n io hn hs
    by_cases hahead : io.readAheadOffset < io.readAhead.length
    · refine ⟨_, _, read_ahead n hahead, ?_, List.length_take_le _ _, ?_, rfl⟩
      · apply List.ne_nil_of_length_pos
        rw [List.length_take, List.length_drop]
        omega
      · rw [BufferedConnectIo.content, advance_content, ← List.append_assoc,
          List.take_append_drop]
    · have hdrop : io.readAhead.drop io.readAheadOffset = [] := List.drop_eq_nil_of_le (by omega)
      rw [BufferedConnectIo.content, hdrop, List.nil_append] at hs
      obtain ⟨chunk, inner, hread, hne, hlen, hcontent, hending⟩ :=
        Source.read_some n io.inner hn hs
      refine ⟨chunk, { io with inner }, ?_, hne, hlen, ?_, hending⟩
      · rw [BufferedConnectIo.read, if_neg hahead, hread]
      · rw [BufferedConnectIo.content, BufferedConnectIo.content, hdrop, List.nil_append,
          List.nil_append, hcontent]
  read_end := by
    intro n io hn hs
    obtain ⟨hdrop, hinner⟩ := List.append_eq_nil_iff.mp hs
    have hahead : ¬ io.readAheadOffset < io.readAhead.length := by
      rw [List.drop_eq_nil_iff] at hdrop
      omega
    rw [BufferedConnectIo.read, if_neg hahead, Source.read_end n io.inner hn hinner]

inductive CopyError where
  | read
  | write
  | stalled
deriving DecidableEq

theorem read_shortens {byte : UInt8} {chunk : Bytes} {n : Nat} {reader reader' : σ}
    (hn : 0 < n) (h : Source.read n reader = (.ok (byte :: chunk), reader')) :
    (Source.content reader').length < (Source.content reader).length := by
  by_cases hs : Source.content reader = []
  · rw [Source.read_end n reader hn hs] at h
    cases hend : Source.ending reader <;> rw [hend] at h <;> cases h
  · obtain ⟨chunk', s', hread, hne, -, hcontent, -⟩ := Source.read_some n reader hn hs
    rw [h] at hread
    cases hread
    rw [hcontent, List.length_append, List.length_cons]
    omega

/-- The loop of `copy_until_eof` in one direction, after `copied` bytes. -/
def copyUntilEof (copied : Nat) (reader : σ) (writer : Sink UInt8) :
    Except CopyError Nat × σ × Sink UInt8 :=
  match _hread : Source.read (8 * 1024) reader with
  | (.error .silent, reader) => (.error .stalled, reader, writer)
  | (.error _, reader) => (.error .read, reader, writer)
  | (.ok [], reader) => (.ok copied, reader, { writer with shut := true })
  | (.ok (byte :: chunk), reader) =>
    match writer.writeAll (byte :: chunk) with
    | (false, writer) => (.error .write, reader, writer)
    | (true, writer) =>
      copyUntilEof (min (2 ^ 64 - 1) (copied + (chunk.length + 1))) reader writer
termination_by (Source.content reader).length
decreasing_by exact read_shortens (by norm_num) _hread

end Baffle
