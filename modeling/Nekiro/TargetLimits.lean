import Nekiro.CardLimits
import Nekiro.Target

/-!
# The limits of a target

A limit of a card is any JSON number that is a positive integer; the Router
reads its text once more, as a decimal integer. The two agree on texts of
digits, and `newTarget_limits_iff` says that they agree on no other.
-/

namespace Nekiro

open Guard
open Json (Bytes utf8 natValue Numeral)
open Strings (byte UnicodeCase)

/-- `Client.ValidateNonStreamingInput`, of a client with the given limit. -/
def validateNonStreamingInput (inputLimitBytes : Int) (dispatch : DispatchInvocationRequestV1)
    (resolved : ResolveAgentResponse) : Except GoError Unit :=
  match parseCardLimit resolved.card.limits.maxInputBytes with
  | none =>
      .error (transportError .a2aProtocol "agent Card limit must be a positive base-10 integer")
  | some maxInputBytes =>
      let inputLimit := if maxInputBytes < inputLimitBytes then maxInputBytes else inputLimitBytes
      require ((dispatch.input.length : Int) ≤ inputLimit)
        (transportError .payloadTooLarge "dispatch input exceeds the resolved Agent limit")

theorem validateNonStreamingInput_ok_iff {inputLimitBytes maxInputBytes : Int}
    {dispatch : DispatchInvocationRequestV1} {resolved : ResolveAgentResponse}
    (h : parseCardLimit resolved.card.limits.maxInputBytes = some maxInputBytes) :
    validateNonStreamingInput inputLimitBytes dispatch resolved = .ok () ↔
      (dispatch.input.length : Int) ≤ min maxInputBytes inputLimitBytes := by
  rw [validateNonStreamingInput, h]
  simp only [require_ok_iff]
  rw [min_def]
  split_ifs <;> omega

/-! ## Literals of digits -/

/-- What the Router reads of a positive literal: the value, if the literal
is of digits, and otherwise nothing. -/
theorem parseCardLimit_text {n : Numeral} (hvalue : 0 < n.value) :
    (n.text.all Json.isDigit = true → ∃ limit, parseCardLimit n.text = some limit
        ∧ (limit : ℚ) = min n.value (2 ^ 63 - 1))
      ∧ (n.text.all Json.isDigit ≠ true → parseCardLimit n.text = none) := by
  -- the first byte is a digit or the sign of a negative number
  have hplus : n.text.head? ≠ some (byte '+') := by
    intro hhead
    unfold Numeral.text at hhead
    split_ifs at hhead
    · exact absurd (Option.some.inj hhead) (by decide)
    · obtain ⟨b, s, hs⟩ := List.exists_cons_of_ne_nil n.isInteger.1
      have hdigit := n.isInteger.2 b (by rw [hs]; exact List.mem_cons_self)
      rw [Numeral.unsignedText, hs] at hhead
      rw [Option.some.inj hhead] at hdigit
      exact absurd hdigit (by decide)
  have hminus : n.text.head? ≠ some (byte '-') := by
    intro hhead
    have hnegative : n.negative = true := by
      rw [← n.head?_text, hhead]
      rfl
    have hnonneg := n.magnitude_nonneg
    rw [Numeral.value, if_pos hnegative] at hvalue
    exact absurd hvalue (not_lt.mpr (neg_nonpos.mpr hnonneg))
  have hne : n.text ≠ [] := by
    unfold Numeral.text Numeral.unsignedText
    split_ifs
    · simp
    · simp [n.isInteger.1]
  constructor
  · intro hall
    obtain ⟨-, hnat⟩ := Numeral.text_of_digits hall
    have hpos : natValue n.text ≠ 0 := by
      intro hzero
      rw [hnat, hzero] at hvalue
      exact absurd hvalue (by simp)
    refine ⟨min (natValue n.text) 9223372036854775807, ?_, ?_⟩
    · simp [parseCardLimit, hplus, hminus, hne, hall, hpos]
    · rw [hnat]
      push_cast
      norm_num
  · intro hall
    simp [parseCardLimit, hplus, hminus, hne, hall]

/-! ## Targets -/

section Targets

variable [UnicodeCase]

/-- A URL with an audience is one that a target may have. -/
theorem url_of_audience {endpoint audience : Bytes}
    (h : canonicalRouterAgentAudience endpoint = some audience) :
    ((Url.parse endpoint).any fun u => u.scheme ≠ [] && u.host ≠ [] && !u.hasUser) = true
      ∧ ((Url.parse endpoint).any fun u => Url.isHTTP u.scheme) = true := by
  simp only [canonicalRouterAgentAudience, canonicalHTTPOrigin] at h
  split_ifs at h
  simp only [Option.bind_eq_bind, Option.bind_eq_some_iff] at h
  obtain ⟨u, hparse, h⟩ := h
  split_ifs at h with hplain
  simp only [Bool.or_eq_true, Bool.not_eq_true', not_or, Bool.not_eq_false] at hplain
  obtain ⟨-, hhost, huser, -, -, -, -, hscheme⟩ := plainURL_iff.mp hplain.1
  have hne : u.scheme ≠ [] := by
    intro hnil
    rw [hnil] at hscheme
    exact absurd hscheme (by decide)
  rw [hparse]
  simp [hhost, huser, hscheme, hne]

variable [CardFormats] {resolved : ResolveAgentResponse}

/-- With everything else in order, the limits decide. -/
theorem newTarget_eq (hcard : resolved.card.Schema)
    (hauthentication : resolved.card.authentication.type = "http_bearer") {audience : Bytes}
    (haudience : canonicalRouterAgentAudience
      (utf8 resolved.card.protocol.endpoint) = some audience)
    (hpin : validateInvocationReleaseProvenance resolved.installation.installedReleaseID
      resolved.installation.agentCardDigest = .ok ())
    {skill : AgentSkill} (hskill : skill ∈ resolved.card.skills.getD []) :
    newTarget resolved skill.id =
      match parseCardLimit resolved.card.limits.maxInputBytes,
        parseCardLimit resolved.card.limits.maxOutputBytes with
      | none, _ => .error (transportError .a2aProtocol "resolved Agent input limit is invalid")
      | some _, none =>
          .error (transportError .a2aProtocol "resolved Agent output limit is invalid")
      | some maxInputBytes, some maxOutputBytes =>
          .ok ⟨resolved.card.agentID, resolved.card.version, skill.id,
            utf8 resolved.card.protocol.endpoint, audience,
            resolved.installation.installedReleaseID, resolved.installation.agentCardDigest,
            resolved.card.protocol.type, resolved.card.protocol.transport,
            resolved.card.authentication.type, maxInputBytes, maxOutputBytes,
            resolved.card.limits.timeoutMS, resolved.card.limits.streaming⟩ := by
  obtain ⟨hurl, hhttp⟩ := url_of_audience haudience
  have hversion : resolved.card.version ≠ "" := by
    intro hempty
    have hpattern := hcard.version.2
    rw [hempty] at hpattern
    exact absurd hpattern (by decide)
  have hendpoint : resolved.card.protocol.endpoint ≠ "" := by
    intro hempty
    have hpattern := hcard.endpointPattern
    rw [hempty] at hpattern
    exact absurd hpattern (by decide)
  have hdeclared : declaresCapability resolved.card skill.id = true := by
    rw [declaresCapability, List.any_eq_true]
    exact ⟨skill, hskill, by simp⟩
  simp only [newTarget, haudience, hpin, hauthentication, hurl, hhttp, hversion, hendpoint,
    hdeclared, safeIdentifier_ne_empty (hcard.skill skill hskill).id,
    safeIdentifier_ne_empty hcard.agentID,
    hcard.protocolType, hcard.protocolVersion, hcard.protocolTransport, require, orFail, ok_bind,
    ne_eq, not_false_eq_true, and_self, if_true]
  cases parseCardLimit resolved.card.limits.maxInputBytes with
  | none => rfl
  | some maxInputBytes =>
      cases parseCardLimit resolved.card.limits.maxOutputBytes <;> rfl

omit [UnicodeCase] in
theorem value_pos_of_limits (h : validateAgentCard resolved.card = .ok ()) :
    (∀ n : Numeral, n.text = resolved.card.limits.maxInputBytes → 0 < n.value)
      ∧ ∀ n : Numeral, n.text = resolved.card.limits.maxOutputBytes → 0 < n.value := by
  have hpositive : ∀ {path : String} {n : Numeral},
      requireLimit path n.text = .ok () → 0 < n.value := by
    intro path n hlimit
    by_contra hvalue
    have hminimum := (validatePositiveJSONInteger_text n).1 (not_lt.mp hvalue)
    rw [requireLimit, hminimum] at hlimit
    cases hlimit
  simp only [validateAgentCard, check_bind_ok_iff] at h
  obtain ⟨hinput, houtput, -⟩ := h
  exact ⟨fun n hn => hpositive (hn ▸ hinput), fun n hn => hpositive (hn ▸ houtput)⟩

/-- **A limit is usable exactly if it is written in digits**: then the
target has the values of the literals, as far as an `int64` holds them, and
inputs are measured against them. A limit with a fraction or an exponent
passes the contract, and the Router refuses the Agent. -/
theorem newTarget_limits_iff (hcard : validateAgentCard resolved.card = .ok ())
    (hauthentication : resolved.card.authentication.type = "http_bearer") {audience : Bytes}
    (haudience : canonicalRouterAgentAudience
      (utf8 resolved.card.protocol.endpoint) = some audience)
    (hpin : validateInvocationReleaseProvenance resolved.installation.installedReleaseID
      resolved.installation.agentCardDigest = .ok ())
    {skill : AgentSkill} (hskill : skill ∈ resolved.card.skills.getD []) {n m : Numeral}
    (hn : n.text = resolved.card.limits.maxInputBytes)
    (hm : m.text = resolved.card.limits.maxOutputBytes) (inputLimitBytes : Int) :
    ((∃ target, newTarget resolved skill.id = .ok target
          ∧ (target.maxInputBytes : ℚ) = min n.value (2 ^ 63 - 1)
          ∧ (target.maxOutputBytes : ℚ) = min m.value (2 ^ 63 - 1))
        ∧ ∀ dispatch, validateNonStreamingInput inputLimitBytes dispatch resolved = .ok () ↔
          (dispatch.input.length : ℚ) ≤ min (min n.value (2 ^ 63 - 1)) inputLimitBytes) ↔
      resolved.card.limits.maxInputBytes.all Json.isDigit = true
        ∧ resolved.card.limits.maxOutputBytes.all Json.isDigit = true := by
  obtain ⟨-, -, hschema, -⟩ := validateAgentCard_ok hcard
  obtain ⟨hpositive, hpositive'⟩ := value_pos_of_limits hcard
  obtain ⟨hinput, hinputNone⟩ := parseCardLimit_text (hpositive n hn)
  obtain ⟨houtput, houtputNone⟩ := parseCardLimit_text (hpositive' m hm)
  rw [hn] at hinput hinputNone
  rw [hm] at houtput houtputNone
  rw [newTarget_eq hschema hauthentication haudience hpin hskill]
  constructor
  · rintro ⟨⟨target, htarget, -⟩, -⟩
    by_contra hdigits
    by_cases hin : resolved.card.limits.maxInputBytes.all Json.isDigit = true
    · obtain ⟨limit, hlimit, -⟩ := hinput hin
      rw [hlimit, houtputNone fun hout => hdigits ⟨hin, hout⟩] at htarget
      cases htarget
    · rw [hinputNone hin] at htarget
      cases htarget
  · rintro ⟨hin, hout⟩
    obtain ⟨maxInput, hmaxInput, hvalue⟩ := hinput hin
    obtain ⟨maxOutput, hmaxOutput, hvalue'⟩ := houtput hout
    rw [hmaxInput, hmaxOutput]
    refine ⟨⟨_, rfl, hvalue, hvalue'⟩, fun dispatch => ?_⟩
    rw [validateNonStreamingInput_ok_iff hmaxInput, ← hvalue]
    exact_mod_cast Iff.rfl

end Targets

/-! ## An exponent -/

/-- An Agent with the given limit on its input. -/
def resolvedWithLimit (maxInputBytes : String) : ResolveAgentResponse :=
  let resolved := resolvedAt "https://weather.example"
  { resolved with
    card := { resolved.card with
      limits := { resolved.card.limits with maxInputBytes := utf8 maxInputBytes } } }

/-- `1e3` is a positive integer for the contract, and no limit for the
Router. -/
theorem newTarget_limit_exponent :
    let _ : UnicodeCase := ⟨id⟩
    let _ : CardFormats := ⟨fun _ => true, fun _ => true⟩
    let resolved := resolvedWithLimit "1e3"
    validateAgentCard resolved.card = .ok ()
      ∧ resolved.card.authentication.type = "http_bearer"
      ∧ canonicalRouterAgentAudience (utf8 resolved.card.protocol.endpoint) =
        some (utf8 "https://weather.example")
      ∧ validateInvocationReleaseProvenance resolved.installation.installedReleaseID
        resolved.installation.agentCardDigest = .ok ()
      ∧ newTarget resolved "forecast" =
        .error (transportError .a2aProtocol "resolved Agent input limit is invalid") := by
  decide +kernel

theorem newTarget_limit_digits :
    let _ : UnicodeCase := ⟨id⟩
    let resolved := resolvedWithLimit "1000"
    let thousand := Numeral.ofDigits (utf8 "1000") (by decide) (by decide)
    (∃ target, newTarget resolved "forecast" = .ok target
        ∧ (target.maxInputBytes : ℚ) = min thousand.value (2 ^ 63 - 1))
      ∧ ∀ dispatch, validateNonStreamingInput 4096 dispatch resolved = .ok () ↔
        (dispatch.input.length : ℚ) ≤ min (min thousand.value (2 ^ 63 - 1)) (4096 : Int) := by
  intro _ resolved thousand
  let _ : CardFormats := ⟨fun _ => true, fun _ => true⟩
  have hcard : validateAgentCard resolved.card = .ok () := by decide +kernel
  have haudience : canonicalRouterAgentAudience (utf8 resolved.card.protocol.endpoint) =
      some (utf8 "https://weather.example") := by
    decide +kernel
  have hpin : validateInvocationReleaseProvenance resolved.installation.installedReleaseID
      resolved.installation.agentCardDigest = .ok () := by
    decide +kernel
  have hskill : (⟨"forecast", "Forecast", "A forecast", some [], some [], some []⟩ : AgentSkill) ∈
      resolved.card.skills.getD [] := List.mem_cons_self
  obtain ⟨⟨target, htarget, hinput, -⟩, haccepted⟩ :=
    (newTarget_limits_iff hcard rfl haudience hpin hskill (n := thousand)
      (m := Numeral.ofDigits (utf8 "1024") (by decide) (by decide)) rfl rfl 4096).mpr
      ⟨by decide, by decide⟩
  exact ⟨⟨target, htarget, hinput⟩, haccepted⟩

end Nekiro
