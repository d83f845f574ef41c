import Baffle.Http
import Baffle.Proofs.Admission

namespace Baffle.Proofs

variable {x : Crates} {request : Request} {secrets : ResolvedSecrets}

theorem get_all_write_self (headers : HeaderMap) (name : Text) (value : Bytes) :
    (writeHeader headers (name, value)).getAll name = [value] := by
  simp [writeHeader, HeaderMap.insert, HeaderMap.remove, HeaderMap.getAll, List.filter_filter]

theorem get_all_write_ne (headers : HeaderMap) {name other : Text} (h : other ≠ name)
    (value : Bytes) : (writeHeader headers (name, value)).getAll other = headers.getAll other := by
  simp only [writeHeader, HeaderMap.insert, HeaderMap.remove, HeaderMap.getAll,
    List.filter_append, List.filter_filter, List.map_append]
  have hne : ([(name, value)].filter (fun e => decide (e.1 = other))) = [] := by
    simp [Ne.symm h]
  rw [hne, List.map_nil, List.append_nil]
  congr 1
  apply List.filter_congr
  intro e _
  by_cases he : e.1 = other
  · simp [he, h]
  · simp [he]

theorem get_all_writes_ne {values : List (Text × Bytes)} {headers : HeaderMap} {name : Text}
    (h : ∀ e ∈ values, e.1 ≠ name) :
    (values.foldl writeHeader headers).getAll name = headers.getAll name := by
  induction values generalizing headers with
  | nil => rfl
  | cons e values ih =>
    rw [List.foldl_cons, ih (fun f hf => h f (List.mem_cons_of_mem _ hf))]
    exact get_all_write_ne headers (h e (by simp)).symm e.2

theorem get_all_writes_mem {values : List (Text × Bytes)} {headers : HeaderMap} {name : Text}
    {value : Bytes} (hn : (values.map Prod.fst).Nodup) (h : (name, value) ∈ values) :
    (values.foldl writeHeader headers).getAll name = [value] := by
  induction values generalizing headers with
  | nil => cases h
  | cons e values ih =>
    simp only [List.map_cons, List.nodup_cons] at hn
    rw [List.foldl_cons]
    rcases List.mem_cons.mp h with rfl | h
    · rw [get_all_writes_ne, get_all_write_self]
      intro f hf he
      exact hn.1 (List.mem_map.mpr ⟨f, hf, he⟩)
    · exact ih hn.2 h

theorem credential_values_ok {credentials : List CompiledCredential}
    {values : List (Text × Bytes)}
    (h : credentialValues x request secrets credentials = .ok values) :
    (∀ credential ∈ credentials, ∃ o, credentialValue x request secrets credential = .ok o) ∧
      ∀ e, e ∈ values ↔
        ∃ credential ∈ credentials, credentialValue x request secrets credential = .ok (some e) := by
  induction credentials generalizing values with
  | nil =>
    simp only [credentialValues, pure_ok] at h
    simp [← h]
  | cons credential credentials ih =>
    simp only [credentialValues, bind_ok, pure_ok] at h
    obtain ⟨o, ho, rest, hr, rfl⟩ := h
    obtain ⟨hall, hmem⟩ := ih hr
    refine ⟨?_, ?_⟩
    · simpa [ho] using hall
    · intro e
      simp only [List.mem_append, Option.mem_toList, hmem, List.mem_cons, exists_eq_or_imp, ho,
        Except.ok.injEq]

theorem credential_values_total {credentials : List CompiledCredential}
    (h : ∀ credential ∈ credentials, ∃ o, credentialValue x request secrets credential = .ok o) :
    ∃ values, credentialValues x request secrets credentials = .ok values := by
  induction credentials with
  | nil => exact ⟨[], rfl⟩
  | cons credential credentials ih =>
    obtain ⟨o, ho⟩ := h credential (by simp)
    obtain ⟨rest, hr⟩ := ih (fun c hc => h c (List.mem_cons_of_mem _ hc))
    refine ⟨o.toList ++ rest, ?_⟩
    simp only [credentialValues, bind_ok, pure_ok]
    exact ⟨o, ho, rest, hr, rfl⟩

theorem or_fail_ok {α : Type} {o : Option α} {a : α} : orFail o = .ok a ↔ o = some a := by
  cases o with
  | none => simp [orFail]
  | some b => simp [orFail]

/-- A write goes to the header of its credential, under the format of its mode. -/
theorem credential_value_some {credential : CompiledCredential} {e : Text × Bytes} :
    credentialValue x request secrets credential = .ok (some e) ↔
      credential.mode ≠ .disabled ∧ x.headerName credential.injection.header = some e.1 ∧
      ∃ secret text, secrets.get credential.injection.secret = some secret ∧
        credentialText x request credential secret = .ok (some text) ∧
        x.headerValue text = some e.2 := by
  obtain ⟨name, value⟩ := e
  unfold credentialValue
  split
  · rename_i hm
    simp [hm]
  · rename_i hm
    simp only [bind_ok, or_fail_ok, transpose_ok, pure_ok, Option.map_eq_some_iff, Prod.mk.injEq]
    constructor
    · rintro ⟨n, hn, secret, hs, text, ht, o, ho, v, rfl, rfl, rfl⟩
      rcases ho with ⟨-, h⟩ | ⟨text', v', rfl, hv, h⟩
      · cases h
      · obtain rfl := Option.some.inj h
        exact ⟨hm, hn, secret, text', hs, ht, hv⟩
    · rintro ⟨-, hn, secret, text, hs, ht, hv⟩
      exact ⟨name, hn, secret, hs, some text, ht, some value,
        Or.inr ⟨text, value, rfl, hv, rfl⟩, value, rfl, rfl, rfl⟩

/-- No two credentials of the list name the same header. -/
def DistinctHeaders (credentials : List CompiledCredential) : Prop :=
  (credentials.map (fun credential => credential.injection.header.toAsciiLowercase)).Nodup

theorem same_header {credentials : List CompiledCredential} (law : x.HeaderNameLaw)
    (hd : DistinctHeaders credentials) {a b : CompiledCredential} {name : Text}
    (ha : a ∈ credentials) (hb : b ∈ credentials)
    (hna : x.headerName a.injection.header = some name)
    (hnb : x.headerName b.injection.header = some name) : a = b := by
  have he := (law _ _ _ _ hna hnb).mp rfl
  exact List.inj_on_of_nodup_map hd ha hb (by simpa [Text.eqIgnoreAsciiCase] using he)

theorem credential_values_nodup {credentials : List CompiledCredential} (law : x.HeaderNameLaw)
    (hd : DistinctHeaders credentials) {values : List (Text × Bytes)}
    (h : credentialValues x request secrets credentials = .ok values) :
    (values.map Prod.fst).Nodup := by
  induction credentials generalizing values with
  | nil =>
    simp only [credentialValues, pure_ok] at h
    simp [← h]
  | cons credential credentials ih =>
    simp only [credentialValues, bind_ok, pure_ok] at h
    obtain ⟨o, ho, rest, hr, rfl⟩ := h
    have hd' : DistinctHeaders credentials := (List.nodup_cons.mp hd).2
    cases o with
    | none => simpa using ih hd' hr
    | some e =>
      simp only [Option.toList_some, List.singleton_append, List.map_cons, List.nodup_cons]
      refine ⟨?_, ih hd' hr⟩
      intro hm
      obtain ⟨f, hf, he⟩ := List.mem_map.mp hm
      obtain ⟨b, hb, hbv⟩ := ((credential_values_ok hr).2 f).mp hf
      have hna := (credential_value_some.mp ho).2.1
      have hnb := (credential_value_some.mp hbv).2.1
      rw [he] at hnb
      have hab := same_header law hd (List.mem_cons_self) (List.mem_cons_of_mem _ hb) hna hnb
      rw [← hab] at hb
      exact (List.nodup_cons.mp hd).1 (List.mem_map.mpr ⟨credential, hb, rfl⟩)

/-- The scheme word that a format puts in front of a secret. -/
def schemeWord : InjectionFormat → Text
  | .raw => []
  | .bearer => "Bearer".toList
  | .basicPassword => "Basic".toList

/-- The header text of a secret in the format of an injection, with the given
spelling of the scheme word. -/
def written (x : Crates) (injection : HeaderInjection) (scheme secret : Text) : Option Text :=
  match injection.format with
  | .raw => some secret
  | .bearer => some (scheme ++ ' ' :: secret)
  | .basicPassword => injection.username.map (fun username =>
      scheme ++ ' ' :: x.base64Encode (utf8 (username ++ ':' :: secret)))

theorem format_injected_ok {injection : HeaderInjection} {secret text : Text} :
    formatInjectedSecret x injection secret = .ok text ↔
      written x injection (schemeWord injection.format) secret = some text := by
  unfold formatInjectedSecret written
  cases injection.format with
  | raw => simp
  | bearer => simp [schemeWord]
  | basicPassword =>
    cases injection.username with
    | none => simp
    | some username => simp [schemeWord]

theorem utf8_colon (user secret : Text) :
    utf8 (user ++ ':' :: secret) = utf8 user ++ 58 :: utf8 secret := by
  have hc : String.utf8EncodeChar ':' = [58] := by decide
  simp [utf8, hc]

section Apply

variable {credentials : List CompiledCredential} {values : List (Text × Bytes)}

end Apply

/-- The same request to every reader of header values. -/
structure SameRequest (a b : Request) : Prop where
  method : a.method = b.method
  uri : a.uri = b.uri
  headers : ∀ name, a.headers.getAll name = b.headers.getAll name

/-- The order of the credentials shows neither in success nor in the headers. -/
theorem apply_perm (law : x.HeaderNameLaw) {credentials order : List CompiledCredential}
    (hd : DistinctHeaders credentials) (hp : order.Perm credentials) :
    (applyHeaderCredentials x request order secrets).1
        = (applyHeaderCredentials x request credentials secrets).1 ∧
      SameRequest (applyHeaderCredentials x request order secrets).2
        (applyHeaderCredentials x request credentials secrets).2 := by
  have hd' : DistinctHeaders order := (hp.map _).nodup_iff.mpr hd
  have hfail : ∀ {a b : List CompiledCredential}, a.Perm b →
      ∀ {e}, credentialValues x request secrets a = .error e →
        ∃ e', credentialValues x request secrets b = .error e' := by
    intro a b hab e ha
    cases hb : credentialValues x request secrets b with
    | error e' => exact ⟨e', rfl⟩
    | ok values =>
      obtain ⟨values', ha'⟩ := credential_values_total (fun c hc =>
        (credential_values_ok hb).1 c (hab.mem_iff.mp hc))
      rw [ha] at ha'
      cases ha'
  unfold applyHeaderCredentials
  cases ho : credentialValues x request secrets order with
  | error e =>
    obtain ⟨e', hc⟩ := hfail hp ho
    rw [hc]
    exact ⟨rfl, rfl, rfl, fun _ => rfl⟩
  | ok values =>
    cases hc : credentialValues x request secrets credentials with
    | error e =>
      obtain ⟨e', ho'⟩ := hfail hp.symm hc
      rw [ho] at ho'
      cases ho'
    | ok values' =>
      refine ⟨rfl, rfl, rfl, ?_⟩
      intro name
      have hmem : ∀ e, e ∈ values ↔ e ∈ values' := by
        intro e
        rw [(credential_values_ok ho).2, (credential_values_ok hc).2]
        simp only [hp.mem_iff]
      by_cases hname : ∃ value, (name, value) ∈ values
      · obtain ⟨value, hv⟩ := hname
        show (values.foldl writeHeader request.headers).getAll name
          = (values'.foldl writeHeader request.headers).getAll name
        rw [get_all_writes_mem (credential_values_nodup law hd' ho) hv,
          get_all_writes_mem (credential_values_nodup law hd hc) ((hmem _).mp hv)]
      · have hnot : ∀ e ∈ values, e.1 ≠ name := by
          rintro e he rfl
          exact hname ⟨e.2, he⟩
        show (values.foldl writeHeader request.headers).getAll name
          = (values'.foldl writeHeader request.headers).getAll name
        rw [get_all_writes_ne hnot, get_all_writes_ne (fun e he => hnot e ((hmem e).mpr he))]

theorem compiled_distinct {rule : HostRule} {c : SessionConfig} {seed : CredentialSeed}
    (hv : ValidRule x rule) : DistinctHeaders (compileRule x c seed rule).credentials := by
  unfold DistinctHeaders compileRule
  rw [List.map_map]
  exact hv.headers

theorem sample_header_names : sampleCrates.HeaderNameLaw := by
  intro a b n m ha hb
  simp only [sampleCrates, Option.ite_none_right_eq_some, Option.some.injEq] at ha hb
  rw [← ha.2, ← hb.2]
  simp [Text.eqIgnoreAsciiCase]

theorem sample_base64 : sampleCrates.Base64Law :=
  ⟨fun _ => Base64.decode_encode, fun _ _ => Base64.encode_decode⟩

end Baffle.Proofs
