import Baffle.ClientTask
import Baffle.Proofs.ConnectRequest
import Baffle.Proofs.Interception

namespace Baffle
open Streams Search Relays

namespace Proofs

variable {x : Crates} {policy : SessionPolicy} {secrets : ResolvedSecrets} {t t' : ClientTask}
  {taken ahead given rest later : Bytes}

/-- The CONNECT request at the start of a whole stream, and what follows it. -/
def connectRequest (stream : Bytes) : Except ConnectError (ParsedConnect × Bytes) := do
  let n ← headerEnd stream .closed
  let parsed ← parseConnect (stream.take n)
  pure (parsed, stream.drop n)

/-- What follows a request does not change it. -/
theorem request_error {bytes : Bytes} {error : ConnectError} (h : lookForEnd bytes = .failed error)
    (later : Bytes) : connectRequest (bytes ++ later) = .error error := by
  rcases look_stops bytes .closed later with ⟨n, hfound, -, -⟩ | ⟨e, hfailed, hend⟩ | ⟨hagain, -, -⟩
  · cases h.symm.trans hfound
  · cases h.symm.trans hfailed
    rw [connectRequest, hend]
    rfl
  · cases h.symm.trans hagain

theorem found_request {bytes found : Bytes} {n : Nat} (h : lookForEnd bytes = .found found n)
    (later : Bytes) : found = bytes ∧ connectRequest (bytes ++ later) =
      (parseConnect (bytes.take n)).map (fun parsed => (parsed, bytes.drop n ++ later)) := by
  rcases look_stops bytes .closed later with ⟨m, hfound, hm, hend⟩ | ⟨e, hfailed, -⟩ | ⟨hagain, -, -⟩
  · cases h.symm.trans hfound
    refine ⟨rfl, ?_⟩
    rw [connectRequest, hend]
    show (parseConnect ((bytes ++ later).take n)).bind _ = _
    rw [List.take_append_of_le_length hm, List.drop_append_of_le_length hm]
    cases parseConnect (bytes.take n) <;> rfl
  · cases h.symm.trans hfailed
  · cases h.symm.trans hagain

/-- A stream that ends before its headers do. -/
theorem request_ended {bytes : Bytes} (hnone : firstMatch crlfCrlf bytes = none)
    (hlen : bytes.length < maxConnectHeaderBytes) : connectRequest bytes =
      .error (.unexpectedEof "early EOF while reading CONNECT headers") := by
  rw [connectRequest, headerEnd, hnone]
  simp only [if_neg (Nat.not_le_of_lt hlen)]
  rfl

/-- An accepted request is a header block within the limit and the bytes that follow it. -/
theorem connect_request_ok {stream : Bytes} {parsed : ParsedConnect}
    (h : connectRequest stream = .ok (parsed, rest)) :
    ∃ block, UpToFirst crlfCrlf stream block ∧ block.length ≤ maxConnectHeaderBytes ∧
      parseConnect block = .ok parsed ∧ stream = block ++ rest := by
  unfold connectRequest at h
  obtain ⟨n, hn, h⟩ := bind_ok.mp h
  obtain ⟨p, hp, h⟩ := bind_ok.mp h
  cases pure_ok.mp h
  obtain ⟨block, hblock, rfl, hlen⟩ := header_end_ok hn
  refine ⟨block, hblock, hlen, ?_, ?_⟩
  · rw [← UpToFirst.take hblock]
    exact hp
  · conv_lhs => rw [← List.take_append_drop block.length stream, UpToFirst.take hblock]

/-- The client asked for this, and `ahead` came with its header block. -/
def Asks (x : Crates) (policy : SessionPolicy) (taken ahead : Bytes) (action : ClientAction) :
    Prop :=
  ∃ parsed, (∀ later, connectRequest (taken ++ later) = .ok (parsed, ahead ++ later)) ∧
    handleClient x policy parsed = action

/-- The operation failed or took too long, or it inspected the ClientHello. -/
def eventful : ClientEvent → Bool
  | .readFailed | .timeout | .writeFailed | .refused | .peeked _ | .peekFailed | .buildFailed
  | .handshakeFailed | .served false => true
  | .copied _ .readFailed | .copied _ .writeFailed | .copied _ .closeFailed => true
  | _ => false

/-- Why a connection was turned away: whether a step was eventful (`f`) and the client had
hung up, the status and the result, what had been dialled, and what was counted. -/
inductive Refused (x : Crates) (policy : SessionPolicy) (taken ahead : Bytes) (f : Bool) :
    Bool → Nat → ClientResult → List Destination → Nat → Nat → Prop where
  | unreadable (error : ConnectError)
      (h : ∀ later, connectRequest (taken ++ later) = .error error) :
      Refused x policy taken ahead f false 400 (.error error.run) [] 0 0
  | ended (error : ConnectError) (h : connectRequest taken = .error error) :
      Refused x policy taken ahead f true 400 (.error error.run) [] 0 0
  | failed (hf : f = true) : Refused x policy taken ahead f false 400 (.error (.run none)) [] 0 0
  | slow (hf : f = true) : Refused x policy taken ahead f false 408 (.ok ()) [] 0 0
  | denied (status : Nat) (h : Asks x policy taken ahead (.reject status)) :
      Refused x policy taken ahead f false status (.ok ()) [] 1 0
  | unreachable (d : Destination) (hf : f = true) (h : Asks x policy taken ahead (.tunnel d)) :
      Refused x policy taken ahead f false 502 (.error (.run none)) [d] 0 1
  | late (d : Destination) (hf : f = true) (h : Asks x policy taken ahead (.tunnel d)) :
      Refused x policy taken ahead f false 504 (.ok ()) [d] 0 1

/-- The task while the client is all that it has written to. -/
def poised (stage : ClientStage) (client : Party UInt8) (dialled : List Destination)
    (deniedRequests upstreamFailures interceptionErrors : Nat) : ClientTask where
  stage
  relay := .start client .fresh
  serverName := none
  dialled
  served := []
  deniedRequests
  upstreamFailures
  interceptionErrors

/-- The stages of an interception after the ClientHello, with the number of failures. -/
inductive Intercepting (authority : Text) (d : Destination) : ClientStage → Nat → Prop where
  | connecting : Intercepting authority d (.connecting authority d) 0
  | securing : Intercepting authority d (.securing authority) 0
  | serving : Intercepting authority d (.serving authority) 0
  | finished (result : ClientResult) (n : Nat) (hn : n ≤ 1) :
      Intercepting authority d (.finished result) n

/-- All that the task can have done where it is; `f` if a step was eventful. -/
inductive Stands (x : Crates) (policy : SessionPolicy) (secrets : ResolvedSecrets) (f : Bool) :
    ClientTask → Prop where
  | heading (bytes : Bytes) (hnone : firstMatch crlfCrlf bytes = none)
      (hlen : bytes.length < maxConnectHeaderBytes) :
      Stands x policy secrets f (poised (.heading bytes) ⟨bytes, [], false, [], false⟩ [] 0 0 0)
  | rejecting {taken ahead given rest : Bytes} {ended : Bool} {status : Nat} {result : ClientResult}
      {dialled : List Destination} {denied failures : Nat}
      (hr : Refused x policy taken ahead f ended status result dialled denied failures)
      (hw : given ++ rest = statusLine status) (hne : rest ≠ []) :
      Stands x policy secrets f (poised (.rejecting rest result)
        ⟨taken, ahead, ended, given, false⟩ dialled denied failures 0)
  | rejected {taken ahead given rest : Bytes} {ended : Bool} {status : Nat} {result : ClientResult}
      {dialled : List Destination} {denied failures : Nat}
      (hr : Refused x policy taken ahead f ended status result dialled denied failures)
      (hw : given ++ rest = statusLine status) (hf : f = false → rest = []) :
      Stands x policy secrets f (poised (.finished result)
        ⟨taken, ahead, ended, given, false⟩ dialled denied failures 0)
  | dialing {taken ahead : Bytes} (d : Destination) (h : Asks x policy taken ahead (.tunnel d)) :
      Stands x policy secrets f (poised (.dialing d) ⟨taken, ahead, false, [], false⟩ [d] 0 0 0)
  | establishing {taken ahead given rest : Bytes} (d : Destination)
      (h : Asks x policy taken ahead (.tunnel d)) (hw : given ++ rest = statusLine 200)
      (hne : rest ≠ []) :
      Stands x policy secrets f
        (poised (.establishing rest) ⟨taken, ahead, false, given, false⟩ [d] 0 0 0)
  | unestablished {taken ahead given rest : Bytes} (d : Destination) (result : ClientResult)
      (h : Asks x policy taken ahead (.tunnel d)) (hw : given ++ rest = statusLine 200)
      (hf : f = true) :
      Stands x policy secrets f
        (poised (.finished result) ⟨taken, ahead, false, given, false⟩ [d] 0 0 0)
  | relaying {taken ahead : Bytes} (d : Destination) (relay : Relay UInt8)
      (h : Asks x policy taken ahead (.tunnel d))
      (hc : Conveys ⟨taken, ahead, false, statusLine 200, false⟩ .fresh relay) :
      Stands x policy secrets f ⟨ClientTask.relayed relay, relay, none, [d], [], 0, 0, 0⟩
  | promising {taken ahead given rest : Bytes} (authority : Text) (d : Destination)
      (h : Asks x policy taken ahead (.intercept authority d))
      (hw : given ++ rest = statusLine 200) (hne : rest ≠ []) :
      Stands x policy secrets f (poised (.promising rest authority d)
        ⟨taken, ahead, false, given, false⟩ [] 0 0 0)
  | unpromised {taken ahead given rest : Bytes} (authority : Text) (d : Destination)
      (result : ClientResult) (h : Asks x policy taken ahead (.intercept authority d))
      (hw : given ++ rest = statusLine 200) (hf : f = true) :
      Stands x policy secrets f
        (poised (.finished result) ⟨taken, ahead, false, given, false⟩ [] 0 0 0)
  | peeking {taken ahead : Bytes} (authority : Text) (d : Destination)
      (h : Asks x policy taken ahead (.intercept authority d)) :
      Stands x policy secrets f (poised (.peeking authority d)
        ⟨taken, ahead, false, statusLine 200, false⟩ [] 0 0 0)
  | mistrusted {taken ahead : Bytes} (authority : Text) (d : Destination)
      (serverName : Option Text) (error : ProxyRuntimeError) (denied errors : Nat)
      (h : Asks x policy taken ahead (.intercept authority d)) (hcount : denied + errors = 1)
      (hf : f = true) :
      Stands x policy secrets f { poised (.finished (.error error))
        ⟨taken, ahead, false, statusLine 200, false⟩ [] denied 0 errors with serverName }
  | intercepting {taken ahead : Bytes} {stage : ClientStage} {failures errors : Nat}
      (authority : Text) (d : Destination) (serverName : Option Text)
      (served : List (Request × ServeResult)) (h : Asks x policy taken ahead (.intercept authority d))
      (hs : Intercepting authority d stage (failures + errors))
      (hpass : policy.permitsTlsInterceptionAuthority x authority serverName = true)
      (hserved : ∀ p ∈ served, p.2 = serve x policy secrets authority p.1) (hf : f = true) :
      Stands x policy secrets f { poised stage ⟨taken, ahead, false, statusLine 200, false⟩ [d]
        (served.countP (ClientTask.countedDenial x)) failures errors with serverName, served }

variable {f : Bool}

theorem status_line_ne (status : Nat) : statusLine status ≠ [] := by
  unfold statusLine
  split <;> decide

/-- A task that is turned away begins to say so. -/
theorem Refused.rejects {ended : Bool} {status : Nat} {result : ClientResult}
    {dialled : List Destination} {denied failures : Nat}
    (h : Refused x policy taken ahead f ended status result dialled denied failures) :
    Stands x policy secrets f (poised (.rejecting (statusLine status) result)
      ⟨taken, ahead, ended, [], false⟩ dialled denied failures 0) :=
  .rejecting h rfl (status_line_ne status)

/-- The request as far as it was read, after one more read. -/
theorem look_stands (stage : ClientStage) (bytes : Bytes) : Stands x policy secrets f
    ((poised stage ⟨bytes, [], false, [], false⟩ [] 0 0 0).look x policy bytes) := by
  unfold ClientTask.look
  rcases look_stops bytes .closed [] with ⟨n, hfound, -, -⟩ | ⟨error, hfailed, -⟩ |
    ⟨hagain, hnone, hlen⟩
  · rw [hfound]
    have hrequest := fun later => (found_request hfound later).2
    dsimp only
    cases hparse : parseConnect (bytes.take n) with
    | error error =>
      refine (Refused.unreadable error (fun later => ?_)).rejects
      rw [hrequest, hparse]
      rfl
    | ok parsed =>
      have hasks : Asks x policy bytes (bytes.drop n) (handleClient x policy parsed) := by
        refine ⟨parsed, fun later => ?_, rfl⟩
        rw [hrequest, hparse]
        rfl
      dsimp only [ClientTask.grant]
      cases haction : handleClient x policy parsed with
      | reject status => exact (Refused.denied status (haction ▸ hasks)).rejects
      | tunnel d => exact .dialing d (haction ▸ hasks)
      | intercept authority d =>
        exact .promising authority d (haction ▸ hasks) rfl (status_line_ne 200)
  · rw [hfailed]
    exact (Refused.unreadable error (request_error hfailed)).rejects
  · rw [hagain]
    have hmore : remainingBytes bytes ≠ 0 := by
      unfold remainingBytes
      omega
    dsimp only
    rw [ClientTask.awaitHeaders, if_neg hmore]
    exact .heading bytes hnone hlen

theorem Refused.mono {ended b : Bool} {status : Nat} {result : ClientResult}
    {dialled : List Destination} {denied failures : Nat}
    (h : Refused x policy taken ahead f ended status result dialled denied failures) :
    Refused x policy taken ahead (f || b) ended status result dialled denied failures := by
  have hor : f = true → (f || b) = true := fun hf => by rw [hf, Bool.true_or]
  cases h with
  | unreadable error h => exact .unreadable error h
  | ended error h => exact .ended error h
  | failed hf => exact .failed (hor hf)
  | slow hf => exact .slow (hor hf)
  | denied status h => exact .denied status h
  | unreachable d hf h => exact .unreachable d (hor hf) h
  | late d hf h => exact .late d (hor hf) h

/-- A part of a response moves to what the client was given. -/
theorem poised_write {stage : ClientStage} (next : Bytes → ClientStage) {n : Nat} {ended : Bool}
    {dialled : List Destination} {denied failures errors : Nat}
    (h : (poised stage ⟨taken, ahead, ended, given, false⟩ dialled denied failures errors).write
      n rest next = some t') :
    ∃ given' rest', given' ++ rest' = given ++ rest ∧ rest'.length < rest.length ∧
      t' = poised (next rest') ⟨taken, ahead, ended, given', false⟩ dialled denied failures
        errors := by
  obtain ⟨r, hr, rfl⟩ := Option.map_eq_some_iff.mp h
  obtain ⟨hpos, hn, rfl⟩ := accept_some hr
  refine ⟨given ++ rest.take n, rest.drop n, ?_, ?_, rfl⟩
  · rw [List.append_assoc, List.take_append_drop]
  · rw [List.length_drop]
    omega

/-- The result of an admitted tunnel, or the wait for its next step. -/
theorem relayed_step {relay : Relay UInt8} {e : ClientEvent} {d : Destination}
    (h : ClientTask.step x policy secrets e
      ⟨ClientTask.relayed relay, relay, none, [d], [], 0, 0, 0⟩ = some t') :
    ∃ direction ce relay', e = .copied direction ce ∧
      relay.step copyBufferBytes (direction, ce) = some relay' ∧
      t' = ⟨ClientTask.relayed relay', relay', none, [d], [], 0, 0, 0⟩ := by
  unfold ClientTask.relayed at h
  split at h
  · cases e <;> cases h
  · split at h
    · cases e <;> cases h
    · cases e with
      | copied direction ce =>
        obtain ⟨relay', hr, rfl⟩ := Option.map_eq_some_iff.mp h
        exact ⟨direction, ce, relay', rfl, hr, rfl⟩
      | _ => cases h

theorem answer_eq (authority : Text) (request : Request) :
    t.answer x policy secrets authority request = { t with
      served := t.served ++ [(request, serve x policy secrets authority request)]
      deniedRequests := t.deniedRequests + [(request,
        serve x policy secrets authority request)].countP (ClientTask.countedDenial x) } := by
  simp only [ClientTask.answer, List.countP_singleton]
  split <;> rfl

/-- A step of an interception after its ClientHello. -/
theorem intercepting_step {stage : ClientStage} {failures errors : Nat} {authority : Text}
    {d : Destination} {serverName : Option Text} {served : List (Request × ServeResult)}
    {e : ClientEvent} (h : Asks x policy taken ahead (.intercept authority d))
    (hk : Intercepting authority d stage (failures + errors))
    (hpass : policy.permitsTlsInterceptionAuthority x authority serverName = true)
    (hserved : ∀ p ∈ served, p.2 = serve x policy secrets authority p.1) (hf : f = true)
    (hs : ClientTask.step x policy secrets e
      { poised stage ⟨taken, ahead, false, statusLine 200, false⟩ [d]
        (served.countP (ClientTask.countedDenial x)) failures errors with serverName, served } = some t') :
    Stands x policy secrets f t' := by
  generalize hn : failures + errors = n at hk
  cases hk with
  | connecting =>
    obtain ⟨rfl, rfl⟩ := Nat.add_eq_zero_iff.mp hn
    cases e with
    | connected =>
      cases hs
      exact .intercepting authority d serverName served h .securing hpass hserved hf
    | refused =>
      cases hs
      exact .intercepting authority d serverName served h (.finished _ 1 (Nat.le_refl _)) hpass hserved hf
    | timeout =>
      cases hs
      exact .intercepting authority d serverName served h (.finished _ 1 (Nat.le_refl _)) hpass hserved hf
    | _ => cases hs
  | securing =>
    obtain ⟨rfl, rfl⟩ := Nat.add_eq_zero_iff.mp hn
    cases e with
    | buildFailed =>
      cases hs
      exact .intercepting authority d serverName served h (.finished _ 0 (Nat.zero_le _)) hpass hserved hf
    | handshakeFailed =>
      cases hs
      exact .intercepting authority d serverName served h (.finished _ 1 (Nat.le_refl _)) hpass hserved hf
    | secured =>
      cases hs
      exact .intercepting authority d serverName served h .serving hpass hserved hf
    | _ => cases hs
  | serving =>
    obtain ⟨rfl, rfl⟩ := Nat.add_eq_zero_iff.mp hn
    cases e with
    | request request =>
      rw [← Option.some.inj hs, answer_eq]
      have hall : ∀ p ∈ served ++ [(request, serve x policy secrets authority request)],
          p.2 = serve x policy secrets authority p.1 := by
        intro p hp
        rcases List.mem_append.mp hp with hp | hp
        · exact hserved p hp
        · rw [List.mem_singleton.mp hp]
      have hserving : Intercepting authority d (.serving authority) (0 + 0) := .serving
      have hstands : Stands x policy secrets f _ :=
        .intercepting authority d serverName _ h hserving hpass hall hf
      rw [List.countP_append] at hstands
      exact hstands
    | served ok =>
      cases hs
      exact .intercepting authority d serverName served h (.finished _ 0 (Nat.zero_le _)) hpass hserved hf
    | _ => cases hs
  | finished result n hn => cases e <;> cases hs

/-- Every step of the task is accounted for. -/
theorem Stands.step {e : ClientEvent} (h : Stands x policy secrets f t)
    (hs : t.step x policy secrets e = some t') : Stands x policy secrets (f || eventful e) t' := by
  cases h with
  | heading bytes hnone hlen =>
    cases e with
    | read chunk =>
      obtain ⟨-, hs⟩ := Option.ite_none_right_eq_some.mp hs
      cases hs
      exact look_stands _ (bytes ++ chunk)
    | ended =>
      cases hs
      exact (Refused.ended _ (request_ended hnone hlen)).rejects
    | readFailed =>
      cases hs
      have hfailed : Refused x policy bytes [] (f || true) false 400 _ [] 0 0 :=
        .failed (Bool.or_true f)
      exact hfailed.rejects
    | timeout =>
      cases hs
      have hslow : Refused x policy bytes [] (f || true) false 408 _ [] 0 0 :=
        .slow (Bool.or_true f)
      exact hslow.rejects
    | _ => cases hs
  | rejecting hr hw hne =>
    cases e with
    | wrote n =>
      obtain ⟨given', rest', hsum, -, rfl⟩ :=
        poised_write (fun rest => if rest = [] then .finished _ else .rejecting rest _) hs
      rw [hw] at hsum
      by_cases hrest : rest' = []
      · simp only [if_pos hrest]
        exact .rejected hr.mono hsum (fun _ => hrest)
      · simp only [if_neg hrest]
        exact .rejecting hr.mono hsum hrest
    | writeFailed =>
      cases hs
      refine .rejected hr.mono hw (fun hf => ?_)
      rw [eventful, Bool.or_true] at hf
      cases hf
    | _ => cases hs
  | rejected hr hw hf => cases e <;> cases hs
  | dialing d h =>
    cases e with
    | connected =>
      cases hs
      exact .establishing d h rfl (status_line_ne 200)
    | refused =>
      cases hs
      exact (Refused.unreachable d (Bool.or_true f) h).rejects
    | timeout =>
      cases hs
      exact (Refused.late d (Bool.or_true f) h).rejects
    | _ => cases hs
  | establishing d h hw hne =>
    cases e with
    | wrote n =>
      obtain ⟨given', rest', hsum, -, rfl⟩ :=
        poised_write (fun rest => if rest = [] then .relaying else .establishing rest) hs
      rw [hw] at hsum
      by_cases hrest : rest' = []
      · subst hrest
        rw [List.append_nil] at hsum
        subst hsum
        exact .relaying d _ h (.start _ _)
      · simp only [if_neg hrest]
        exact .establishing d h hsum hrest
    | writeFailed =>
      cases hs
      exact .unestablished d _ h hw (Bool.or_true f)
    | _ => cases hs
  | unestablished d result h hw hf => cases e <;> cases hs
  | relaying d relay h hc =>
    obtain ⟨direction, ce, relay', rfl, hr, rfl⟩ := relayed_step hs
    exact .relaying d relay' h (hc.step hr)
  | promising authority d h hw hne =>
    cases e with
    | wrote n =>
      obtain ⟨given', rest', hsum, -, rfl⟩ := poised_write (fun rest =>
        if rest = [] then .peeking authority d else .promising rest authority d) hs
      rw [hw] at hsum
      by_cases hrest : rest' = []
      · subst hrest
        rw [List.append_nil] at hsum
        subst hsum
        exact .peeking authority d h
      · simp only [if_neg hrest]
        exact .promising authority d h hsum hrest
    | writeFailed =>
      cases hs
      exact .unpromised authority d _ h hw (Bool.or_true f)
    | _ => cases hs
  | unpromised authority d result h hw hf => cases e <;> cases hs
  | peeking authority d h =>
    cases e with
    | peeked hello =>
      rw [← Option.some.inj hs]
      cases hello with
      | none => exact .mistrusted authority d none _ 0 1 h rfl (Bool.or_true f)
      | some serverName =>
        unfold ClientTask.inspect
        dsimp only
        split
        · rename_i hpass
          exact .intercepting authority d serverName [] h
            (.connecting : Intercepting authority d _ (0 + 0)) hpass (fun p hp => by cases hp)
            (Bool.or_true f)
        · exact .mistrusted authority d serverName _ 1 0 h rfl (Bool.or_true f)
    | peekFailed =>
      cases hs
      exact .mistrusted authority d none _ 0 1 h rfl (Bool.or_true f)
    | _ => cases hs
  | mistrusted authority d serverName error denied errors h hcount hf => cases e <;> cases hs
  | intercepting authority d serverName served h hk hpass hserved hf =>
    exact intercepting_step h hk hpass hserved (by rw [hf, Bool.true_or]) hs

def Standing (x : Crates) (policy : SessionPolicy) (secrets : ResolvedSecrets) (t : ClientTask) :
    Prop :=
  ∃ f, Stands x policy secrets f t

theorem stands_start : Stands x policy secrets false .start := .heading [] rfl (by decide)

theorem standing_reach (h : Reach (ClientTask.step x policy secrets) .start t) :
    Standing x policy secrets t := by
  have h0 : Standing x policy secrets .start := ⟨false, stands_start⟩
  refine h.invariant h0 (fun _ hi hs => ?_)
  obtain ⟨f, hi⟩ := hi
  exact ⟨_, hi.step hs⟩

theorem up_to_first_append {block : Bytes} (h : UpToFirst crlfCrlf taken block) (later : Bytes) :
    UpToFirst crlfCrlf (taken ++ later) block := by
  obtain ⟨position, hfirst, rfl⟩ := (up_to_first_iff crlf_ne).mp h
  refine (up_to_first_iff crlf_ne).mpr ⟨position, first_match_append crlf_ne hfirst, ?_⟩
  rw [List.take_append_of_le_length (first_match_length crlf_ne hfirst)]

variable {c : SessionConfig} {seed : CredentialSeed} {d : Destination} {mode : RuleMode}

/-- The connection began with a CONNECT request that the configuration admits. -/
structure Opens (x : Crates) (c : SessionConfig) (taken block : Bytes) (mode : RuleMode)
    (d : Destination) : Prop where
  header : UpToFirst crlfCrlf taken block
  short : block.length ≤ maxConnectHeaderBytes
  request : ∃ parsed, parseConnect block = .ok parsed ∧ parsed.hasBody = false ∧
    parseAuthorityText x parsed.authority (some 443) = .ok d ∧
    ∀ host, parsed.host = some host → parseAuthorityText x host (some 443) = .ok d
  admits : Admits c mode d

/-- The bytes that go through a tunnel are those behind the header block, and those of the
upstream behind one response. -/
structure Tunnelled (block : Bytes) (t : ClientTask) : Prop where
  served : t.served = []
  forth : block ++ t.relay.right.given <+: t.relay.left.taken
  back : t.relay.left.given <+: statusLine 200 ++ t.relay.right.taken ∨
    t.relay.right = .fresh ∧ ∃ status, t.relay.left.given <+: statusLine status

/-- The upstream of an interception was dialled for a matching ClientHello, and gets
nothing but requests that its rule lets through. -/
structure Supervised (x : Crates) (c : SessionConfig) (d : Destination) (t : ClientTask) : Prop where
  hello : ∃ name, t.serverName = some name ∧ normalizeDnsName x name = .ok d.host
  plain : t.relay.right = .fresh ∧ t.relay.left.given = statusLine 200
  forwarded : ∃ rule ∈ c.rules, rule.host = d.host ∧ d.port ∈ rule.ports ∧ rule.mode = .intercept ∧
    ∀ request out, (request, ServeResult.forwarded out) ∈ t.served → Forwards x d rule request out

theorem handle_client_ok {action : ClientAction} (hc : Accepted x c) {parsed : ParsedConnect}
    (h : handleClient x (SessionPolicy.compile x c seed) parsed = action)
    (ha : action = .tunnel d ∧ mode = .tunnel ∨
      (∃ authority, action = .intercept authority d) ∧ mode = .intercept) :
    parsed.hasBody = false ∧ parseAuthorityText x parsed.authority (some 443) = .ok d ∧
      (∀ host, parsed.host = some host → parseAuthorityText x host (some 443) = .ok d) ∧
      Admits c mode d := by
  unfold handleClient at h
  split at h
  · subst h
    rcases ha with ⟨ha, -⟩ | ⟨⟨authority, ha⟩, -⟩ <;> cases ha
  · rename_i mode' d' hok
    split at h
    · subst h
      rcases ha with ⟨ha, -⟩ | ⟨⟨authority, ha⟩, -⟩ <;> cases ha
    · rename_i hbody
      obtain ⟨hp, -, hhosts, hadmits⟩ := (authorize_ok (accepted_rules hc)).mp hok
      have hsame : d' = d ∧ mode' = mode := by
        split at h
        · rename_i hm
          subst h
          rcases ha with ⟨ha, hmode⟩ | ⟨⟨authority, ha⟩, -⟩
          · cases ha
            exact ⟨rfl, hm.trans hmode.symm⟩
          · cases ha
        · rename_i hm
          subst h
          rcases ha with ⟨ha, -⟩ | ⟨⟨authority, ha⟩, hmode⟩
          · cases ha
          · cases ha
            refine ⟨rfl, ?_⟩
            cases mode' with
            | tunnel => exact absurd rfl hm
            | intercept => exact hmode.symm
      obtain ⟨rfl, rfl⟩ := hsame
      refine ⟨by simpa using hbody, hp, fun host hhost => ?_, hadmits⟩
      exact hhosts host (by simp [hhost])

/-- What the client asked for stands at the start of all it sent. -/
theorem Asks.opens {action : ClientAction} (hc : Accepted x c)
    (h : Asks x (SessionPolicy.compile x c seed) taken ahead action)
    (ha : action = .tunnel d ∧ mode = .tunnel ∨
      (∃ authority, action = .intercept authority d) ∧ mode = .intercept) :
    ∃ block, taken = block ++ ahead ∧ ∀ later, Opens x c (taken ++ later) block mode d := by
  obtain ⟨parsed, hrequest, haction⟩ := h
  have hstart := hrequest []
  rw [List.append_nil, List.append_nil] at hstart
  obtain ⟨block, hblock, hlen, hparse, hsplit⟩ := connect_request_ok hstart
  obtain ⟨hbody, hp, hhost, hadmits⟩ := handle_client_ok hc haction ha
  exact ⟨block, hsplit, fun later =>
    ⟨up_to_first_append hblock later, hlen, ⟨parsed, hparse, hbody, hp, hhost⟩, hadmits⟩⟩

/-- A tunnel whose client got at most its response. -/
theorem Tunnelled.early {block : Bytes} (hsplit : taken = block ++ ahead)
    (hplain : t.relay.right = .fresh) (hserved : t.served = []) (htaken : t.relay.left.taken = taken)
    (hgiven : ∃ status, t.relay.left.given <+: statusLine status) : Tunnelled block t where
  served := hserved
  forth := by
    rw [hplain, htaken, hsplit]
    exact ⟨ahead, by simp [Party.fresh]⟩
  back := Or.inr ⟨hplain, hgiven⟩

/-- A tunnel that relays. -/
theorem Tunnelled.relaying {block : Bytes} {relay : Relay UInt8} {stage : ClientStage}
    (hsplit : taken = block ++ ahead)
    (hc : Conveys ⟨taken, ahead, false, statusLine 200, false⟩ .fresh relay) :
    Tunnelled block ⟨stage, relay, none, [d], [], 0, 0, 0⟩ where
  served := rfl
  forth := by
    obtain ⟨new, out, htaken, hgiven, hflow⟩ := hc.forth.flow
    simp only [Party.fresh, List.nil_append] at htaken hgiven hflow
    refine ⟨relay.forth.held ++ relay.left.ahead, ?_⟩
    rw [htaken, hgiven, hsplit, List.append_assoc, List.append_assoc, ← hflow, List.append_assoc]
  back := by
    obtain ⟨new, out, htaken, hgiven, hflow⟩ := hc.back.flow
    simp only [Party.fresh, List.nil_append] at htaken hgiven hflow
    refine Or.inl ⟨relay.back.held ++ relay.right.ahead, ?_⟩
    rw [htaken, hgiven, ← hflow, List.append_assoc, List.append_assoc]

theorem Supervised.of (hc : Accepted x c) {authority : Text} {serverName : Option Text}
    {served : List (Request × ServeResult)}
    (h : Asks x (SessionPolicy.compile x c seed) taken ahead (.intercept authority d))
    (hpass : (SessionPolicy.compile x c seed).permitsTlsInterceptionAuthority x authority serverName
      = true)
    (hserved : ∀ p ∈ served, p.2 = serve x (SessionPolicy.compile x c seed) secrets authority p.1)
    (hname : t.serverName = serverName) (hall : t.served = served)
    (hplain : t.relay.right = .fresh ∧ t.relay.left.given = statusLine 200) :
    Supervised x c d t := by
  obtain ⟨parsed, -, haction⟩ := h
  have hv := accepted_rules hc
  obtain ⟨hp, rule, hr, he, hport, hm⟩ := intercept_admitted hc haction
  have hget : (SessionPolicy.compile x c seed).rules.get d.host = some (compileRule x c seed rule) :=
    he ▸ compile_get_rule hv hr
  have htls : Intercepted.tlsPasses x ⟨SessionPolicy.compile x c seed, secrets, authority, d⟩
      serverName = true := hpass
  refine ⟨?_, hplain, rule, hr, he, hport, hm, fun request out hmem => ?_⟩
  · rw [hname]
    exact (tls_passes_iff hv hp hr he hport hm serverName).mp htls
  · rw [hall] at hmem
    have hrun : (Intercepted.run x ⟨SessionPolicy.compile x c seed, secrets, authority, d⟩
        serverName [request])[0]? = some (.forwarded out) := by
      rw [Intercepted.run, if_pos htls, List.map_singleton]
      exact congrArg some (hserved _ hmem).symm
    obtain ⟨-, request', hrequest, hforward⟩ := run_forwards _ hp hget hport hrun
    cases hrequest
    exact hforward

/-- A refusal dialled nothing, or the destination of an admitted tunnel. -/
theorem Refused.dials {ended : Bool} {status : Nat} {result : ClientResult}
    {dialled : List Destination} {denied failures : Nat}
    (h : Refused x policy taken ahead f ended status result dialled denied failures)
    (hd : d ∈ dialled) : dialled = [d] ∧ Asks x policy taken ahead (.tunnel d) := by
  cases h with
  | unreachable d' hf h =>
    cases List.mem_singleton.mp hd
    exact ⟨rfl, h⟩
  | late d' hf h =>
    cases List.mem_singleton.mp hd
    exact ⟨rfl, h⟩
  | _ => cases hd

/-- Whatever the client and the network do: a connection dials at most one upstream,
the one that its complete and admitted CONNECT request names. Through a tunnel go exactly
the bytes behind that request and those of the upstream behind one response. An
interception dials only after a matching ClientHello, and hands on only requests that
the rule of the destination lets through. Before that the client gets one response. -/
theorem connection_confined (x : Crates) (c : SessionConfig) (hc : Accepted x c)
    (seed : CredentialSeed) (secrets : ResolvedSecrets)
    (h : Reach (ClientTask.step x (SessionPolicy.compile x c seed) secrets) .start t) :
    (t.dialled = [] → t.relay.right = .fresh ∧ t.served = [] ∧
      ∃ status, t.relay.left.given <+: statusLine status) ∧
    ∀ d ∈ t.dialled, t.dialled = [d] ∧ ∃ block mode, Opens x c t.relay.left.taken block mode d ∧
      (mode = .tunnel ∧ Tunnelled block t ∨ mode = .intercept ∧ Supervised x c d t) := by
  obtain ⟨f, hstands⟩ := standing_reach h
  have htunnel : ∀ {taken ahead : Bytes} {d : Destination},
      Asks x (SessionPolicy.compile x c seed) taken ahead (.tunnel d) →
      t.relay.right = .fresh → t.served = [] → t.relay.left.taken = taken →
      (∃ status, t.relay.left.given <+: statusLine status) →
      ∃ block mode, Opens x c t.relay.left.taken block mode d ∧
        (mode = .tunnel ∧ Tunnelled block t ∨ mode = .intercept ∧ Supervised x c d t) := by
    intro taken ahead d hasks hright hserved htaken hgiven
    obtain ⟨block, hsplit, hopens⟩ := hasks.opens hc (Or.inl ⟨rfl, rfl⟩)
    have hstart := hopens []
    rw [List.append_nil, ← htaken] at hstart
    exact ⟨block, .tunnel, hstart, Or.inl ⟨rfl, .early hsplit hright hserved htaken hgiven⟩⟩
  cases hstands with
  | heading bytes hnone hlen => exact ⟨fun _ => ⟨rfl, rfl, 400, List.nil_prefix⟩, by rintro d ⟨⟩⟩
  | rejecting hr hw hne =>
    refine ⟨fun _ => ⟨rfl, rfl, _, _, hw⟩, fun d hd => ?_⟩
    obtain ⟨hdialled, hasks⟩ := hr.dials hd
    exact ⟨hdialled, htunnel hasks rfl rfl rfl ⟨_, _, hw⟩⟩
  | rejected hr hw hf =>
    refine ⟨fun _ => ⟨rfl, rfl, _, _, hw⟩, fun d hd => ?_⟩
    obtain ⟨hdialled, hasks⟩ := hr.dials hd
    exact ⟨hdialled, htunnel hasks rfl rfl rfl ⟨_, _, hw⟩⟩
  | dialing d hasks =>
    refine ⟨by rintro ⟨⟩, fun d' hd => ?_⟩
    cases List.mem_singleton.mp hd
    exact ⟨rfl, htunnel hasks rfl rfl rfl ⟨200, List.nil_prefix⟩⟩
  | establishing d hasks hw hne =>
    refine ⟨by rintro ⟨⟩, fun d' hd => ?_⟩
    cases List.mem_singleton.mp hd
    exact ⟨rfl, htunnel hasks rfl rfl rfl ⟨200, _, hw⟩⟩
  | unestablished d result hasks hw hf =>
    refine ⟨by rintro ⟨⟩, fun d' hd => ?_⟩
    cases List.mem_singleton.mp hd
    exact ⟨rfl, htunnel hasks rfl rfl rfl ⟨200, _, hw⟩⟩
  | relaying d relay hasks hconvey =>
    refine ⟨by rintro ⟨⟩, fun d' hd => ?_⟩
    cases List.mem_singleton.mp hd
    obtain ⟨block, hsplit, hopens⟩ := hasks.opens hc (Or.inl ⟨rfl, rfl⟩)
    obtain ⟨new, -, htaken, -, -⟩ := hconvey.forth.flow
    have hnow := hopens new
    rw [← show relay.left.taken = _ from htaken] at hnow
    exact ⟨rfl, block, .tunnel, hnow, Or.inl ⟨rfl, .relaying hsplit hconvey⟩⟩
  | promising authority d hasks hw hne => exact ⟨fun _ => ⟨rfl, rfl, 200, _, hw⟩, by rintro d ⟨⟩⟩
  | unpromised authority d result hasks hw hf => exact ⟨fun _ => ⟨rfl, rfl, 200, _, hw⟩, by rintro d ⟨⟩⟩
  | peeking authority d hasks => exact ⟨fun _ => ⟨rfl, rfl, 200, List.prefix_rfl⟩, by rintro d ⟨⟩⟩
  | mistrusted authority d serverName error denied errors hasks hcount hf =>
    exact ⟨fun _ => ⟨rfl, rfl, 200, List.prefix_rfl⟩, by rintro d ⟨⟩⟩
  | intercepting authority d serverName served hasks hk hpass hserved hf =>
    refine ⟨by rintro ⟨⟩, fun d' hd => ?_⟩
    cases List.mem_singleton.mp hd
    obtain ⟨block, -, hopens⟩ := hasks.opens hc (Or.inr ⟨⟨authority, rfl⟩, rfl⟩)
    have hstart := hopens []
    rw [List.append_nil] at hstart
    exact ⟨rfl, block, .intercept, hstart,
      Or.inr ⟨rfl, .of hc hasks hpass hserved rfl rfl ⟨rfl, rfl⟩⟩⟩

/-- A client that sends two bytes right behind its request. -/
def sampleConnect : Bytes := utf8 "CONNECT example.org HTTP/1.1\r\n\r\nhi".toList

def sampleTunnel : List ClientEvent :=
  [.read (sampleConnect.take 20), .read (sampleConnect.drop 20), .connected, .wrote 39,
    .copied .forth .ahead, .copied .forth (.wrote 2), .copied .back (.read (utf8 "yo".toList))]

/-- The tunnel of an unmatched host, after its first bytes in both directions. -/
theorem connection_confined_sample :
    ∃ t, Reach (ClientTask.step sampleCrates (SessionPolicy.compile sampleCrates sampleSession
        zeroSeed) ∅) .start t ∧
      t.relay.right.given = utf8 "hi".toList ∧ t.relay.right.taken = utf8 "yo".toList ∧
      ∃ block mode, Opens sampleCrates sampleSession t.relay.left.taken block mode
          ⟨"example.org".toList, 443⟩ ∧
        (mode = .tunnel ∧ Tunnelled block t ∨ mode = .intercept ∧
          Supervised sampleCrates sampleSession ⟨"example.org".toList, 443⟩ t) := by
  have hrun : (runSteps (ClientTask.step sampleCrates (SessionPolicy.compile sampleCrates
      sampleSession zeroSeed) ∅) sampleTunnel .start).any (fun t =>
        t.dialled == [⟨"example.org".toList, 443⟩] && t.relay.right.given == utf8 "hi".toList &&
          t.relay.right.taken == utf8 "yo".toList) = true := by decide +kernel
  obtain ⟨t, hs, htest⟩ := run_any hrun
  simp only [Bool.and_eq_true, beq_iff_eq] at htest
  obtain ⟨⟨hdialled, hgiven⟩, htaken⟩ := htest
  have hreach := reach_run .start hs
  have hconfined := connection_confined sampleCrates sampleSession sample_accepted zeroSeed ∅ hreach
  refine ⟨t, hreach, hgiven, htaken, (hconfined.2 ⟨"example.org".toList, 443⟩ ?_).2⟩
  rw [hdialled]
  exact List.mem_singleton_self _

end Proofs

end Baffle
