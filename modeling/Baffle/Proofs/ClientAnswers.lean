import Baffle.Proofs.ClientTask
import Baffle.Lib.Termination

namespace Baffle
open Streams Search Relays

namespace Proofs

variable {x : Crates} {policy : SessionPolicy} {secrets : ResolvedSecrets} {t t' : ClientTask}
  {e : ClientEvent} {stream upstream : Bytes}

/-- The client sends the one stream and the upstream the other, and nothing fails. What
follows a ClientHello is left out. -/
def Calm (stream upstream : Bytes) (e : ClientEvent) (t : ClientTask) : Prop :=
  match e with
  | .read chunk => t.relay.left.taken ++ chunk <+: stream
  | .ended => t.relay.left.taken = stream
  | .wrote _ | .connected => True
  | .copied direction ce => Smooth stream upstream (direction, ce) t.relay
  | _ => False

theorem calm_uneventful (h : Calm stream upstream e t) : eventful e = false := by
  cases e with
  | copied direction ce =>
    cases ce with
    | readFailed => cases direction <;> cases h
    | writeFailed => cases direction <;> cases h
    | closeFailed => cases direction <;> cases h
    | _ => rfl
  | read | ended | wrote | connected => rfl
  | _ => cases h

/-- What is left to do before the tunnel, besides its bytes. -/
def stageWork (stream : Bytes) (taken : Bytes) : ClientStage → Nat
  | .heading bytes => stream.length - taken.length + 2 * bytes.length + 61
  | .dialing _ => 50
  | .rejecting rest _ | .establishing rest | .promising rest _ _ => rest.length + 1
  | _ => 0

def connectionWork (stream upstream : Bytes) (t : ClientTask) : Nat :=
  t.relay.work stream upstream + stageWork stream t.relay.left.taken t.stage

/-- A connection in a calm run. -/
structure Composed (x : Crates) (policy : SessionPolicy) (secrets : ResolvedSecrets)
    (stream upstream : Bytes) (t : ClientTask) : Prop where
  stands : Stands x policy secrets false t
  lefts : Sends stream t.relay.left
  rights : Sends upstream t.relay.right
  whole : t.relay.broken = false

theorem status_line_short (status : Nat) : (statusLine status).length < 60 := by
  unfold statusLine
  split <;> decide

/-- The work of a relay that has not begun. -/
theorem start_work (client : Party UInt8) : (Relay.start client .fresh).work stream upstream =
    2 * (stream.length - client.taken.length + client.ahead.length) + 2 * upstream.length + 4 := by
  simp only [Relay.work, Relay.start, Copy.work, reading_held, reading_turns, Party.fresh,
    List.length_nil]
  omega

/-- A look at the headers turns the bytes that were read into bytes that are ahead. -/
theorem look_work (stage : ClientStage) (stream bytes : Bytes) :
    ∃ ahead, ((poised stage ⟨bytes, [], false, [], false⟩ [] 0 0 0).look x policy bytes).relay
        = .start ⟨bytes, ahead, false, [], false⟩ .fresh ∧
      stageWork stream bytes
          ((poised stage ⟨bytes, [], false, [], false⟩ [] 0 0 0).look x policy bytes).stage
        + 2 * ahead.length ≤ stream.length - bytes.length + 2 * bytes.length + 61 := by
  have hshort : ∀ status, (statusLine status).length + 1 ≤ 60 := status_line_short
  unfold ClientTask.look
  rcases look_stops bytes .closed [] with ⟨n, hfound, hn, -⟩ | ⟨error, hfailed, -⟩ |
    ⟨hagain, hnone, hlen⟩
  · rw [hfound]
    dsimp only
    cases parseConnect (bytes.take n) with
    | error error =>
      refine ⟨[], rfl, ?_⟩
      have hle := hshort 400
      simp only [ClientTask.reject, ClientTask.goto, stageWork, List.length_nil]
      omega
    | ok parsed =>
      refine ⟨bytes.drop n, ?_, ?_⟩
      · dsimp only [ClientTask.grant]
        cases handleClient x policy parsed <;> rfl
      · have hdrop : (bytes.drop n).length ≤ bytes.length := by
          rw [List.length_drop]
          omega
        dsimp only [ClientTask.grant]
        cases handleClient x policy parsed with
        | reject status =>
          have hle := hshort status
          simp only [ClientTask.reject, ClientTask.goto, ClientTask.deny, stageWork]
          omega
        | tunnel d =>
          simp only [ClientTask.dial, stageWork]
          omega
        | intercept authority d =>
          have hle := hshort 200
          simp only [ClientTask.goto, stageWork]
          omega
  · rw [hfailed]
    refine ⟨[], rfl, ?_⟩
    have hle := hshort 400
    simp only [ClientTask.reject, ClientTask.goto, stageWork, List.length_nil]
    omega
  · rw [hagain]
    have hmore : remainingBytes bytes ≠ 0 := by
      unfold remainingBytes
      omega
    dsimp only
    rw [ClientTask.awaitHeaders, if_neg hmore]
    refine ⟨[], rfl, ?_⟩
    simp only [ClientTask.goto, stageWork, List.length_nil]
    omega

theorem sends_fresh : Sends upstream (Party.fresh : Party UInt8) :=
  ⟨List.nil_prefix, by rintro ⟨⟩⟩

/-- A calm step of a task that has only written to its client. -/
theorem poised_lowers {stage stage' : ClientStage} {client client' : Party UInt8}
    {dialled dialled' : List Destination} {denied denied' failures failures' errors : Nat}
    (h : client.taken = client'.taken) (ha : client.ahead = client'.ahead)
    (hs : stageWork stream client'.taken stage' < stageWork stream client.taken stage) :
    connectionWork stream upstream (poised stage' client' dialled' denied' failures' errors) <
      connectionWork stream upstream (poised stage client dialled denied failures errors) := by
  have hsame : (Relay.start client' .fresh).work stream upstream =
      (Relay.start client .fresh).work stream upstream := by rw [start_work, start_work, h, ha]
  show (Relay.start client' .fresh).work stream upstream + stageWork stream client'.taken stage'
    < (Relay.start client .fresh).work stream upstream + stageWork stream client.taken stage
  rw [hsame]
  exact Nat.add_lt_add_left hs _

/-- Every calm step leaves the task with less to do. -/
theorem Composed.step (h : Composed x policy secrets stream upstream t)
    (hcalm : Calm stream upstream e t) (hs : t.step x policy secrets e = some t') :
    Composed x policy secrets stream upstream t' ∧
      connectionWork stream upstream t' < connectionWork stream upstream t := by
  have hstands := h.stands.step hs
  rw [calm_uneventful hcalm] at hstands
  obtain ⟨hstate, hlefts, hrights, hwhole⟩ := h
  cases hstate with
  | heading bytes hnone hlen =>
    cases e with
    | read chunk =>
      obtain ⟨⟨hne, -⟩, hs⟩ := Option.ite_none_right_eq_some.mp hs
      have hpre : bytes ++ chunk <+: stream := hcalm
      have hpos := List.length_pos_iff.mpr hne
      have hle := hpre.length_le
      rw [List.length_append] at hle
      obtain ⟨ahead, hrelay, hwork⟩ := look_work (x := x) (.heading bytes) stream (bytes ++ chunk)
      have ht : t'.relay = .start ⟨bytes ++ chunk, ahead, false, [], false⟩ .fresh := by
        rw [← Option.some.inj hs]
        exact hrelay
      have hstage : stageWork stream (bytes ++ chunk) t'.stage + 2 * ahead.length ≤
          stream.length - (bytes ++ chunk).length + 2 * (bytes ++ chunk).length + 61 := by
        rw [← Option.some.inj hs]
        exact hwork
      refine ⟨⟨hstands, ?_, ?_, ?_⟩, ?_⟩
      · rw [ht]
        exact ⟨hpre, by rintro ⟨⟩⟩
      · rw [ht]
        exact sends_fresh
      · rw [ht]
        rfl
      · rw [connectionWork, ht, start_work]
        show _ + stageWork stream (bytes ++ chunk) t'.stage < _ + stageWork stream bytes (.heading bytes)
        rw [show (poised (.heading bytes) ⟨bytes, [], false, [], false⟩ [] 0 0 0).relay
          = .start ⟨bytes, [], false, [], false⟩ .fresh from rfl, start_work]
        simp only [stageWork, List.length_append, List.length_nil] at hstage ⊢
        omega
    | ended =>
      cases hs
      refine ⟨⟨hstands, ⟨hlefts.taken, fun _ => hcalm⟩, sends_fresh, rfl⟩, ?_⟩
      refine poised_lowers rfl rfl ?_
      have hshort := status_line_short 400
      simp only [stageWork]
      omega
    | _ => first | (cases hcalm; done) | cases hs
  | rejecting hr hw hne =>
    cases e with
    | wrote n =>
      obtain ⟨given', rest', hsum, hlt, rfl⟩ :=
        poised_write (fun rest => if rest = [] then .finished _ else .rejecting rest _) hs
      refine ⟨⟨hstands, ⟨hlefts.taken, hlefts.ended⟩, hrights, hwhole⟩, poised_lowers rfl rfl ?_⟩
      dsimp only
      split <;> simp only [stageWork] <;> omega
    | _ => first | (cases hcalm; done) | cases hs
  | rejected hr hw hf => cases e <;> cases hs
  | dialing d hasks =>
    cases e with
    | connected =>
      cases hs
      refine ⟨⟨hstands, ⟨hlefts.taken, hlefts.ended⟩, hrights, hwhole⟩, poised_lowers rfl rfl ?_⟩
      have hshort : (statusLine 200).length < 49 := by decide
      simp only [stageWork]
      omega
    | _ => first | (cases hcalm; done) | cases hs
  | establishing d hasks hw hne =>
    cases e with
    | wrote n =>
      obtain ⟨given', rest', hsum, hlt, rfl⟩ :=
        poised_write (fun rest => if rest = [] then .relaying else .establishing rest) hs
      refine ⟨⟨hstands, ⟨hlefts.taken, hlefts.ended⟩, hrights, hwhole⟩, poised_lowers rfl rfl ?_⟩
      dsimp only
      split <;> simp only [stageWork] <;> omega
    | _ => first | (cases hcalm; done) | cases hs
  | unestablished d result hasks hw hf => cases hf
  | relaying d relay hasks hc =>
    obtain ⟨direction, ce, relay', rfl, hr, rfl⟩ := relayed_step hs
    obtain ⟨hhealthy, hlt⟩ := Healthy.step ⟨hc, hwhole, hlefts, hrights⟩ (by decide) hr hcalm
    refine ⟨⟨hstands, hhealthy.lefts, hhealthy.rights, hhealthy.whole⟩, ?_⟩
    have hnone : stageWork stream relay'.left.taken (ClientTask.relayed relay') = 0 := by
      unfold ClientTask.relayed
      split
      · rfl
      · split <;> rfl
    show relay'.work stream upstream + _ < relay.work stream upstream + _
    rw [hnone]
    omega
  | promising authority d hasks hw hne =>
    cases e with
    | wrote n =>
      obtain ⟨given', rest', hsum, hlt, rfl⟩ := poised_write (fun rest =>
        if rest = [] then .peeking authority d else .promising rest authority d) hs
      refine ⟨⟨hstands, ⟨hlefts.taken, hlefts.ended⟩, hrights, hwhole⟩, poised_lowers rfl rfl ?_⟩
      dsimp only
      split <;> simp only [stageWork] <;> omega
    | _ => first | (cases hcalm; done) | cases hs
  | unpromised authority d result hasks hw hf => cases hf
  | peeking authority d hasks => cases e <;> first | (cases hcalm; done) | cases hs
  | mistrusted authority d serverName error denied errors hasks hcount hf => cases hf
  | intercepting authority d serverName served hasks hk hpass hserved hf => cases hf

/-- What a client and an upstream that sent all of their streams ended up with. -/
inductive Conclusion (x : Crates) (policy : SessionPolicy) (stream upstream : Bytes)
    (t : ClientTask) : Prop where
  | unreadable (error : ConnectError) (h : connectRequest stream = .error error)
      (hstage : t.stage = .finished (.error error.run))
      (hgiven : t.relay.left.given = statusLine 400) (hdialled : t.dialled = [])
  | denied (parsed : ParsedConnect) (rest : Bytes) (status : Nat)
      (h : connectRequest stream = .ok (parsed, rest))
      (ha : handleClient x policy parsed = .reject status) (hstage : t.stage = .finished (.ok ()))
      (hgiven : t.relay.left.given = statusLine status) (hdialled : t.dialled = [])
  | tunnelled (parsed : ParsedConnect) (rest : Bytes) (d : Destination)
      (h : connectRequest stream = .ok (parsed, rest))
      (ha : handleClient x policy parsed = .tunnel d) (hstage : t.stage = .finished (.ok ()))
      (hdialled : t.dialled = [d]) (hforth : t.relay.right.given = rest)
      (hback : t.relay.left.given = statusLine 200 ++ upstream)
      (hshut : t.relay.left.shut = true ∧ t.relay.right.shut = true)
  | intercepted (parsed : ParsedConnect) (rest later : Bytes) (authority : Text) (d : Destination)
      (h : connectRequest stream = .ok (parsed, rest))
      (ha : handleClient x policy parsed = .intercept authority d)
      (hstage : t.stage = .peeking authority d) (hgiven : t.relay.left.given = statusLine 200)
      (hdialled : t.dialled = []) (htaken : t.relay.left.taken ++ later = stream)
      (hahead : t.relay.left.ahead ++ later = rest)

/-- A response that is not written out can be. -/
theorem write_enabled {rest : Bytes} (hne : rest ≠ [])
    (next : Bytes → ClientStage) : ClientTask.write 1 rest next t ≠ none := by
  have hpos := List.length_pos_iff.mpr hne
  simp [ClientTask.write, Party.accept, Nat.succ_le_of_lt hpos]

/-- A refusal in a calm run answers the whole stream. -/
theorem Refused.answered {taken ahead given : Bytes} {ended : Bool} {status : Nat}
    {result : ClientResult} {dialled : List Destination} {denied failures : Nat}
    (h : Refused x policy taken ahead false ended status result dialled denied failures)
    (hw : Sends stream ⟨taken, ahead, ended, given, false⟩) (hg : given = statusLine status) :
    Conclusion x policy stream upstream (poised (.finished result)
      ⟨taken, ahead, ended, given, false⟩ dialled denied failures 0) := by
  obtain ⟨later, hlater⟩ := hw.taken
  cases h with
  | unreadable error h => exact .unreadable error (hlater ▸ h later) rfl hg rfl
  | ended error h =>
    have hall : taken = stream := hw.ended rfl
    exact .unreadable error (hall ▸ h) rfl hg rfl
  | denied status h =>
    obtain ⟨parsed, hrequest, ha⟩ := h
    exact .denied parsed _ status (hlater ▸ hrequest later) ha rfl hg rfl
  | failed hf => cases hf
  | slow hf => cases hf
  | unreachable d hf h => cases hf
  | late d hf h => cases hf

/-- A tunnel that has no step left has carried both streams. -/
theorem relay_answered {taken ahead : Bytes} {d : Destination} {relay : Relay UInt8}
    (hasks : Asks x policy taken ahead (.tunnel d))
    (hc : Conveys ⟨taken, ahead, false, statusLine 200, false⟩ .fresh relay)
    (hwhole : relay.broken = false) (hlefts : Sends stream relay.left)
    (hrights : Sends upstream relay.right)
    (hr : Rests (ClientTask.step x policy secrets) (Calm stream upstream)
      ⟨ClientTask.relayed relay, relay, none, [d], [], 0, 0, 0⟩) :
    Conclusion x policy stream upstream
      ⟨ClientTask.relayed relay, relay, none, [d], [], 0, 0, 0⟩ := by
  obtain ⟨left, right, forth, back⟩ := relay
  have hdone : forth = .done ∧ back = .done := by
    by_contra hbusy
    have hrelaying : ClientTask.relayed ⟨left, right, forth, back⟩ = .relaying := by
      rw [ClientTask.relayed, hwhole]
      cases forth <;> cases back <;> first | rfl | exact absurd ⟨rfl, rfl⟩ hbusy
    have hrest : Rests (Relay.step copyBufferBytes) (Smooth stream upstream)
        ⟨left, right, forth, back⟩ := by
      intro a ha
      have hnone := hr (.copied a.1 a.2) ha
      rw [hrelaying] at hnone
      exact Option.map_eq_none_iff.mp hnone
    exact hbusy (Healthy.done ⟨hc, hwhole, hlefts, hrights⟩ (by decide) hrest)
  obtain ⟨rfl, rfl⟩ := hdone
  obtain ⟨hshut, hended, new, htaken, hgiven⟩ := hc.forth.delivered
  obtain ⟨hshut', hended', new', htaken', hgiven'⟩ := hc.back.delivered
  obtain ⟨parsed, hrequest, ha⟩ := hasks
  have hstream : taken ++ new = stream := htaken.symm.trans (hlefts.ended hended)
  have hupstream : new' = upstream := by
    have hall := htaken'.symm.trans (hrights.ended hended')
    exact hall
  refine .tunnelled parsed (ahead ++ new) d (hstream ▸ hrequest new) ha rfl rfl ?_ ?_
    ⟨hshut', hshut⟩
  · exact hgiven
  · rw [← hupstream]
    exact hgiven'

theorem calm_rest (h : Composed x policy secrets stream upstream t)
    (hr : Rests (ClientTask.step x policy secrets) (Calm stream upstream) t) :
    Conclusion x policy stream upstream t := by
  obtain ⟨hstate, hlefts, hrights, hwhole⟩ := h
  cases hstate with
  | heading bytes hnone hlen =>
    exfalso
    obtain ⟨more, hmore⟩ := hlefts.taken
    cases more with
    | nil =>
      have hended : bytes = stream := by rw [← hmore, List.append_nil]; rfl
      have hnone := hr .ended hended
      cases hnone
    | cons byte more =>
      have hread : Calm stream upstream (.read [byte])
          (poised (.heading bytes) ⟨bytes, [], false, [], false⟩ [] 0 0 0) := by
        refine ⟨more, ?_⟩
        rw [← hmore, List.append_assoc]
        rfl
      have hnone := hr (.read [byte]) hread
      have hsize : 1 ≤ min (remainingBytes bytes) readBufferBytes := by
        unfold remainingBytes readBufferBytes
        omega
      have hfits : [byte] ≠ [] ∧ [byte].length ≤ min (remainingBytes bytes) readBufferBytes :=
        ⟨List.cons_ne_nil _ _, hsize⟩
      have hsome : ClientTask.step x policy secrets (.read [byte])
          (poised (.heading bytes) ⟨bytes, [], false, [], false⟩ [] 0 0 0) = some _ := if_pos hfits
      rw [hnone] at hsome
      cases hsome
  | rejecting hrefused hw hne =>
    exact absurd (hr (.wrote 1) trivial) (write_enabled hne (fun rest =>
      if rest = [] then .finished _ else .rejecting rest _))
  | rejected hrefused hw hf =>
    have hrest := hf rfl
    subst hrest
    rw [List.append_nil] at hw
    exact hrefused.answered hlefts hw
  | dialing d hasks =>
    have hnone := hr .connected trivial
    cases hnone
  | establishing d hasks hw hne =>
    exact absurd (hr (.wrote 1) trivial) (write_enabled hne (fun rest =>
      if rest = [] then .relaying else .establishing rest))
  | unestablished d result hasks hw hf => cases hf
  | relaying d relay hasks hc => exact relay_answered hasks hc hwhole hlefts hrights hr
  | promising authority d hasks hw hne =>
    exact absurd (hr (.wrote 1) trivial) (write_enabled hne (fun rest =>
      if rest = [] then .peeking authority d else .promising rest authority d))
  | unpromised authority d result hasks hw hf => cases hf
  | peeking authority d hasks =>
    obtain ⟨parsed, hrequest, ha⟩ := hasks
    obtain ⟨later, hlater⟩ := hlefts.taken
    exact .intercepted parsed _ later authority d (hlater ▸ hrequest later) ha rfl rfl rfl hlater rfl
  | mistrusted authority d serverName error denied errors hasks hcount hf => cases hf
  | intercepting authority d serverName served hasks hk hpass hserved hf => cases hf

/-- However the bytes of a client and of its upstream are cut into pieces and in whatever
order the two sides are served: the connection comes to an end, unless it waits for a
ClientHello, and what both sides were given then follows from the two streams alone. -/
theorem connection_answered (x : Crates) (policy : SessionPolicy) (secrets : ResolvedSecrets)
    (stream upstream : Bytes) :
    Terminates (ClientTask.step x policy secrets) (Calm stream upstream) .start ∧
      ∀ t, ReachBy (ClientTask.step x policy secrets) (Calm stream upstream) .start t →
        Rests (ClientTask.step x policy secrets) (Calm stream upstream) t →
        Conclusion x policy stream upstream t := by
  have hstart : Composed x policy secrets stream upstream .start :=
    ⟨stands_start, ⟨List.nil_prefix, by rintro ⟨⟩⟩, sends_fresh, rfl⟩
  constructor
  · exact Terminates.of_rank (Composed x policy secrets stream upstream)
      (connectionWork stream upstream) (fun hi hcalm hs => hi.step hcalm hs) hstart
  · intro t hreach hrest
    exact calm_rest (hreach.invariant hstart (fun _ hi hcalm hs => (hi.step hcalm hs).1)) hrest

theorem sample_connect : (connectRequest sampleConnect).toOption.any (fun r =>
    r.2 == utf8 "hi".toList && handleClient sampleCrates
      (SessionPolicy.compile sampleCrates sampleSession zeroSeed) r.1
        == .tunnel ⟨"example.org".toList, 443⟩) = true := by decide +kernel

/-- A tunnel that was closed by both sides, whatever the order of its steps. -/
theorem connection_answered_sample :
    ∃ t, Reach (ClientTask.step sampleCrates (SessionPolicy.compile sampleCrates sampleSession
        zeroSeed) ∅) .start t ∧
      t.relay.right.given = utf8 "hi".toList ∧
      t.relay.left.given = statusLine 200 ++ utf8 "yo".toList := by
  obtain ⟨hends, hrests⟩ := connection_answered sampleCrates (SessionPolicy.compile sampleCrates
    sampleSession zeroSeed) ∅ sampleConnect (utf8 "yo".toList)
  obtain ⟨t, hreach, hrest⟩ := hends.rest
  have hsample := sample_connect
  cases hrests t hreach hrest with
  | unreadable error h =>
    rw [h] at hsample
    cases hsample
  | denied parsed rest status h ha =>
    rw [h] at hsample
    simp [Except.toOption, ha] at hsample
  | tunnelled parsed rest d h ha hstage hdialled hforth hback hshut =>
    rw [h] at hsample
    simp only [Except.toOption, Option.any_some, Bool.and_eq_true, beq_iff_eq] at hsample
    exact ⟨t, hreach.reach, hforth.trans hsample.1, hback⟩
  | intercepted parsed rest later authority d h ha =>
    rw [h] at hsample
    simp [Except.toOption, ha] at hsample

end Proofs

end Baffle
