import Baffle.Proofs.Credentials
import Baffle.Proofs.Paths

namespace Baffle.Proofs

variable {x : Crates} {request : Request} {secrets : ResolvedSecrets} {injection : HeaderInjection}
  {scheme word fake : Text}

/-- A formatted value with its scheme word spelled another way. -/
def respell (format : InjectionFormat) (scheme value : Text) : Text :=
  if format = .raw then value else scheme ++ value.drop (schemeWord format).length

/-- The header of an injection occurs once, with this text. -/
def CarriesOnce (x : Crates) (request : Request) (injection : HeaderInjection) (value : Text) :
    Prop :=
  ∃ name bytes, x.headerName injection.header = some name ∧
    request.headers.getAll name = [bytes] ∧ x.headerText bytes = some value

/-- A word that is spelled like letters has no space in it. -/
theorem scheme_no_space (h : scheme.eqIgnoreAsciiCase word = true) (hw : ' ' ∉ word) :
    ' ' ∉ scheme := by
  intro hm
  have hlower : scheme.toAsciiLowercase = word.toAsciiLowercase := beq_iff_eq.mp h
  have hmem : ' '.toLower ∈ word.toAsciiLowercase := by
    rw [← hlower]
    exact List.mem_map_of_mem hm
  obtain ⟨c, hc, he⟩ := List.mem_map.mp hmem
  have hspace : c.toLower = ' ' := he
  have hupper : ¬c.isUpper = true := by
    intro hu
    have halpha : c.toLower.isAlpha = true := by
      rw [Char.isAlpha_toLower_eq_isAlpha, Char.isAlpha, hu, Bool.true_or]
    rw [hspace] at halpha
    cases halpha
  rw [Char.toLower_eq_of_not_isUpper hupper] at hspace
  exact hw (hspace ▸ hc)

/-- The first colon of user and password is the one between them. -/
theorem split_credentials {username : Text} (h : validateBasicUsername username = .ok ())
    (password : Bytes) :
    Text.splitOnce 58 (utf8 username ++ 58 :: password) = some (utf8 username, password) := by
  simp only [validateBasicUsername, refuse_ok, Bool.or_eq_false_iff, List.contains_eq_mem,
    decide_eq_false_iff_not, Bool.not_eq_false', List.all_eq_true, Bool.and_eq_true,
    decide_eq_true_eq] at h
  obtain ⟨⟨-, hcolon⟩, hascii⟩ := h
  have hbytes : (58 : UInt8) ∉ utf8 username := by
    intro hm
    obtain ⟨c, hc, hb⟩ := List.mem_flatMap.mp hm
    have hcode : c.toNat < 128 := by
      have hle : c.toNat ≤ '~'.toNat := (hascii c hc).2
      have htilde : '~'.toNat = 126 := rfl
      omega
    have hutf := utf8_ascii hcode
    rw [utf8, List.flatMap_singleton] at hutf
    rw [hutf, List.mem_singleton] at hb
    have hnat := congrArg UInt8.toNat hb
    rw [UInt8.toNat_ofNat', Nat.mod_eq_of_lt (by omega)] at hnat
    have hc58 : c = ':' := Char.ext (UInt32.toNat_inj.mp hnat.symm)
    exact hcolon (hc58 ▸ hc)
  exact Text.split_once_append _ hbytes

theorem single_text_of {name : Text} {bytes : Bytes} (h : request.headers.getAll name = [bytes]) :
    singleHeaderText x request name = x.headerText bytes := by
  unfold singleHeaderText
  rw [h]

/-- What the header carries around the fake, substitution writes around the real secret. -/
theorem written_substitutes (decodes : ∀ b, x.base64Decode (x.base64Encode b) = some b)
    (hi : ValidInjection injection) {value : Text}
    (hs : scheme.eqIgnoreAsciiCase (schemeWord injection.format) = true)
    (hw : written x injection scheme fake = some value) (hc : CarriesOnce x request injection value)
    (real : Text) :
    substituteHeaderSecret x request injection fake real = written x injection scheme real := by
  obtain ⟨name, bytes, hname, hall, htext⟩ := hc
  simp only [substituteHeaderSecret, Option.bind_eq_bind, hname, single_text_of hall, htext,
    Option.bind_some]
  unfold written at hw ⊢
  cases hf : injection.format with
  | raw =>
    rw [hf] at hw
    simp only [Option.some.injEq] at hw
    rw [if_pos hw.symm]
  | bearer =>
    rw [hf] at hw hs
    simp only [Option.some.injEq] at hw
    have hspace : ' ' ∉ scheme := scheme_no_space hs (by decide)
    have hword : Text.eqIgnoreAsciiCase scheme "Bearer".toList = true := hs
    rw [← hw]
    simp only [Text.split_once_append _ hspace, Option.bind_some, hword, and_self, if_true]
  | basicPassword =>
    rw [hf] at hw hs
    have hspace : ' ' ∉ scheme := scheme_no_space hs (by decide)
    have hword : Text.eqIgnoreAsciiCase scheme "Basic".toList = true := hs
    rcases hi.username with ⟨-, username, hu, hvalid⟩ | ⟨hne, -⟩
    · rw [hu, Option.map_some, Option.some.injEq] at hw
      rw [← hw, hu]
      simp only [Text.split_once_append _ hspace, Option.bind_some, hword, decodes,
        split_credentials hvalid, Bool.not_true, Bool.false_eq_true, if_false, ne_eq,
        not_true_eq_false, or_self, Option.map_some, utf8_colon]
    · exact absurd hf hne

theorem written_respelled {secret value : Text} (h : formatInjectedSecret x injection secret = .ok value)
    (scheme : Text) :
    written x injection scheme secret = some (respell injection.format scheme value) := by
  rw [format_injected_ok] at h
  unfold written at h ⊢
  unfold respell
  cases hf : injection.format with
  | raw =>
    rw [hf] at h
    exact h
  | bearer =>
    rw [hf] at h
    rw [if_neg (by decide), ← Option.some.inj h]
    exact congrArg (fun rest => some (scheme ++ rest)) (List.drop_left' rfl).symm
  | basicPassword =>
    rw [hf] at h
    obtain ⟨username, hu, hvalue⟩ := Option.map_eq_some_iff.mp h
    rw [if_neg (by decide), ← hvalue, hu]
    exact congrArg (fun rest => some (scheme ++ rest)) (List.drop_left' rfl).symm

theorem format_total (hi : ValidInjection injection) (secret : Text) :
    ∃ value, formatInjectedSecret x injection secret = .ok value := by
  unfold formatInjectedSecret
  cases hf : injection.format with
  | raw => exact ⟨_, rfl⟩
  | bearer => exact ⟨_, rfl⟩
  | basicPassword =>
    rcases hi.username with ⟨-, username, hu, -⟩ | ⟨hne, -⟩
    · rw [hu]
      exact ⟨_, rfl⟩
    · exact absurd hf hne

/-- The two modes compute the same header for a client that sends the formatted fake. -/
theorem modes_agree (decodes : ∀ b, x.base64Decode (x.base64Encode b) = some b)
    {credential : CompiledCredential} (hi : ValidInjection credential.injection) {value : Text}
    (hv : formatInjectedSecret x credential.injection fake = .ok value)
    (hc : CarriesOnce x request credential.injection value) :
    credentialValue x request secrets { credential with mode := .substitute, fakeValue := some fake } =
      credentialValue x request secrets { credential with mode := .inject, fakeValue := none } := by
  have htext : ∀ real,
      credentialText x request { credential with mode := .substitute, fakeValue := some fake } real =
        credentialText x request { credential with mode := .inject, fakeValue := none } real := by
    intro real
    obtain ⟨text, ht⟩ : ∃ text, formatInjectedSecret x credential.injection real = .ok text :=
      format_total hi real
    have hsub := written_substitutes decodes hi
      (beq_self_eq_true (schemeWord credential.injection.format).toAsciiLowercase)
      (format_injected_ok.mp hv) hc real
    rw [format_injected_ok.mp ht] at hsub
    simp only [credentialText, Option.bind_some, hsub, ht]
    rfl
  simp only [credentialValue, htext, reduceCtorEq, if_false]

theorem values_replaced {a b : CompiledCredential}
    (h : credentialValue x request secrets a = credentialValue x request secrets b)
    (before after : List CompiledCredential) :
    credentialValues x request secrets (before ++ a :: after) =
      credentialValues x request secrets (before ++ b :: after) := by
  induction before with
  | nil => simp only [List.nil_append, credentialValues, h]
  | cons credential before ih => simp only [List.cons_append, credentialValues, ih]

/-- Substitution succeeds for every spelling of the formatted fake and writes the
formatted secret with that spelling; for the plain spelling the request that goes
upstream is the one that injection would have made. -/
theorem substitution_agrees (decodes : ∀ b, x.base64Decode (x.base64Encode b) = some b) :
    (∀ injection fake real, ValidInjection injection → ∃ value text,
      formatInjectedSecret x injection fake = .ok value ∧
      formatInjectedSecret x injection real = .ok text ∧
      ∀ request scheme, scheme.eqIgnoreAsciiCase (schemeWord injection.format) = true →
        CarriesOnce x request injection (respell injection.format scheme value) →
        substituteHeaderSecret x request injection fake real =
          some (respell injection.format scheme text)) ∧
    ∀ request secrets before after (credential : CompiledCredential) fake value,
      ValidInjection credential.injection →
      formatInjectedSecret x credential.injection fake = .ok value →
      CarriesOnce x request credential.injection value →
      applyHeaderCredentials x request
          (before ++ { credential with mode := .substitute, fakeValue := some fake } :: after) secrets =
        applyHeaderCredentials x request
          (before ++ { credential with mode := .inject, fakeValue := none } :: after) secrets := by
  refine ⟨fun injection fake real hi => ?_, fun request secrets before after credential fake value hi
    hv hc => ?_⟩
  · obtain ⟨value, hv⟩ : ∃ value, formatInjectedSecret x injection fake = .ok value :=
      format_total hi fake
    obtain ⟨text, ht⟩ : ∃ text, formatInjectedSecret x injection real = .ok text :=
      format_total hi real
    refine ⟨value, text, hv, ht, fun request scheme hs hc => ?_⟩
    rw [written_substitutes decodes hi hs (written_respelled hv scheme) hc real,
      written_respelled ht scheme]
  · unfold applyHeaderCredentials
    rw [values_replaced (modes_agree decodes hi hv hc)]

def authorizedRequest (value : Text) : Request where
  method := "GET".toList
  uri := ⟨none, none, some "/".toList, none⟩
  headers := ⟨[("authorization".toList, utf8 value)]⟩

/-- The client sends the formatted fake, with a spelling of its own of the scheme. -/
theorem substitution_agrees_sample :
    substituteHeaderSecret sampleCrates (authorizedRequest "bEARER fake".toList) (HeaderInjection.mk
      "Authorization".toList "token".toList .bearer none) "fake".toList "a: b".toList =
      some "bEARER a: b".toList ∧
    substituteHeaderSecret sampleCrates (authorizedRequest "bASIC Ym90OmZha2U=".toList)
      (HeaderInjection.mk "Authorization".toList "token".toList .basicPassword
        (some "bot".toList)) "fake".toList "a: b".toList = some "bASIC Ym90OmE6IGI=".toList := by
  obtain ⟨hsubstitutes, -⟩ := substitution_agrees sample_base64.1
  constructor
  · have hi : ValidInjection (HeaderInjection.mk "Authorization".toList "token".toList .bearer none) :=
      ⟨by decide, by decide, Or.inr ⟨by decide, rfl⟩⟩
    obtain ⟨value, text, hv, ht, hall⟩ := hsubstitutes _ "fake".toList "a: b".toList hi
    rw [← Except.ok.inj hv, ← Except.ok.inj ht] at hall
    exact hall (authorizedRequest "bEARER fake".toList) "bEARER".toList (by decide)
      ⟨"authorization".toList, utf8 "bEARER fake".toList, by decide +kernel, by decide +kernel,
        by decide +kernel⟩
  · have hi : ValidInjection (HeaderInjection.mk "Authorization".toList "token".toList
        .basicPassword (some "bot".toList)) :=
      ⟨by decide, by decide, Or.inl ⟨rfl, "bot".toList, rfl, by decide⟩⟩
    obtain ⟨value, text, hv, ht, hall⟩ := hsubstitutes _ "fake".toList "a: b".toList hi
    rw [← Except.ok.inj hv, ← Except.ok.inj ht] at hall
    have hrespelled := hall (authorizedRequest "bASIC Ym90OmZha2U=".toList) "bASIC".toList (by decide)
      ⟨"authorization".toList, utf8 "bASIC Ym90OmZha2U=".toList, by decide +kernel,
        by decide +kernel, by decide +kernel⟩
    rw [hrespelled]
    decide +kernel

end Baffle.Proofs
