import Nekiro.AgentCardContract
import Nekiro.DispatchEvents
import Nekiro.Endpoint

/-!
# Release targets

What the Router makes of a resolved Agent: `a2a.NewTarget`, and the exact
release that `routing.releaseTarget` asks the instance directory for. The
registry validates that release once more, so the endpoint and the audience
have to be canonical by then. `releaseTarget_iff` says for which endpoints
of the catalog they are.
-/

namespace Nekiro

open Guard
open Json (Bytes utf8 natValue)
open Strings (byte UnicodeCase)

/-! ## Targets -/

structure ResolvedInstallation where
  installationID : String
  workspaceID : String
  agentID : String
  installedVersion : String
  installedReleaseID : String
  agentCardDigest : String
  acceptedPermissions : List String
  status : String
deriving Repr, DecidableEq

structure ResolveAgentResponse where
  card : AgentCard
  installation : ResolvedInstallation
deriving Repr

structure Target where
  agentID : String
  version : String
  capability : String
  endpoint : Bytes
  audience : Bytes
  releaseID : String
  cardDigest : String
  protocol : String
  transport : String
  authType : String
  maxInputBytes : Int
  maxOutputBytes : Int
  timeoutMS : Int
  streaming : Bool
deriving Repr, DecidableEq

/-- A decimal integer, as `big.Int` reads it: positive, and no more than an
`int64` holds. -/
def parseCardLimit (value : Bytes) : Option Int :=
  let digits := if value.head? = some (byte '+') || value.head? = some (byte '-') then value.tail
    else value
  if digits = [] || !digits.all Json.isDigit || value.head? = some (byte '-') then none
  else if natValue digits = 0 then none
  else some (min (natValue digits) 9223372036854775807)

def declaresCapability (card : AgentCard) (capability : String) : Bool :=
  (card.skills.getD []).any fun skill => skill.id = capability

/-- An error of the transport, with its code. -/
def transportError (code : PlatformErrorCode) (message : String) : GoError :=
  .coded code (.plain message)

/-- `a2a.NewTarget`. -/
def newTarget [UnicodeCase] (resolved : ResolveAgentResponse) (capability : String) :
    Except GoError Target := do
  let fail := transportError .a2aProtocol
  let card := resolved.card
  require (capability ≠ "") (fail "dispatch capability is required")
  require (card.agentID ≠ "" ∧ card.version ≠ "") (fail "resolved Agent identity is required")
  require (card.protocol.type = "a2a" ∧ card.protocol.version = "0.3.0"
    ∧ card.protocol.transport = "JSONRPC") (fail "resolved Agent A2A profile is unsupported")
  require (card.protocol.endpoint ≠ "") (fail "resolved Agent endpoint is required")
  let endpoint := utf8 card.protocol.endpoint
  require ((Url.parse endpoint).any fun u => u.scheme ≠ [] && u.host ≠ [] && !u.hasUser)
    (fail "resolved Agent endpoint is invalid")
  require ((Url.parse endpoint).any fun u => Url.isHTTP u.scheme)
    (fail "resolved Agent endpoint scheme is unsupported")
  require (card.authentication.type = "http_bearer")
    (transportError .agentAuthUnsupported "resolved Agent authentication is unsupported")
  let pin := resolved.installation
  match canonicalRouterAgentAudience endpoint with
  | none => throw (fail "resolved Agent audience is invalid")
  | some audience => do
      orFail (fail "resolved Agent release provenance is invalid")
        (validateInvocationReleaseProvenance pin.installedReleaseID pin.agentCardDigest)
      require (declaresCapability card capability) (fail "resolved Agent capability is missing")
      match parseCardLimit card.limits.maxInputBytes, parseCardLimit card.limits.maxOutputBytes with
      | none, _ => throw (fail "resolved Agent input limit is invalid")
      | some _, none => throw (fail "resolved Agent output limit is invalid")
      | some maxInputBytes, some maxOutputBytes =>
          pure ⟨card.agentID, card.version, capability, endpoint, audience, pin.installedReleaseID,
            pin.agentCardDigest, card.protocol.type, card.protocol.transport,
            card.authentication.type, maxInputBytes, maxOutputBytes, card.limits.timeoutMS,
            card.limits.streaming⟩

/-! ## Release targets -/

structure ReleaseTarget where
  agentID : String
  agentCardVersion : String
  releaseID : String
  cardDigest : String
  canonicalEndpoint : Bytes
  audience : Bytes
deriving Repr, DecidableEq

/-- `ReleaseTarget.Validate`, with the field that it reports. -/
def ReleaseTarget.validate [UnicodeCase] (t : ReleaseTarget) : Except String Unit := do
  require (validExactText (utf8 t.agentID)) "agent_id"
  require (validExactText (utf8 t.agentCardVersion)) "agent_card_version"
  require (validExactText (utf8 t.releaseID)) "release_id"
  require (cardDigestPattern.matchText t.cardDigest) "card_digest"
  require (validCanonicalEndpoint t.canonicalEndpoint) "canonical_endpoint"
  require (validAudienceOrigin t.audience) "audience"
  require (audienceForCanonicalEndpoint t.canonicalEndpoint = some t.audience) "audience"

/-- `registry.NewReleaseTarget`. -/
def newReleaseTarget [UnicodeCase] (input : ReleaseTarget) : Except String ReleaseTarget := do
  input.validate
  pure input

/-- `routing.releaseTarget`. -/
def releaseTarget [UnicodeCase] (target : Target) : Except String ReleaseTarget :=
  match canonicalEndpoint target.endpoint with
  | none => .error "url"
  | some endpoint =>
      newReleaseTarget ⟨target.agentID, target.version, target.releaseID, target.cardDigest,
        endpoint, target.audience⟩

/-! ## Texts that the registry takes -/

/-- A character of ASCII that is seen. -/
def Graphic (c : Char) : Prop := 0x20 < c.toNat ∧ c.toNat < 0x7F

theorem graphic_of_isAlphanumeric {c : Char} (h : isAlphanumeric c = true) : Graphic c := by
  simp only [isAlphanumeric, Bool.or_eq_true, Bool.and_eq_true, decide_eq_true_eq] at h
  have hnat : (65 ≤ c.toNat ∧ c.toNat ≤ 90 ∨ 97 ≤ c.toNat ∧ c.toNat ≤ 122)
      ∨ 48 ≤ c.toNat ∧ c.toNat ≤ 57 := h
  unfold Graphic
  omega

theorem graphic_of_isIdentifierTail {c : Char} (h : isIdentifierTail c = true) : Graphic c := by
  simp only [isIdentifierTail, Bool.or_eq_true, beq_iff_eq] at h
  rcases h with (((h | rfl) | rfl) | rfl) | rfl
  · exact graphic_of_isAlphanumeric h
  all_goals exact ⟨by decide, by decide⟩

theorem graphic_of_isDigit {c : Char} (h : isDigit c = true) : Graphic c :=
  graphic_of_isAlphanumeric (by simp only [isAlphanumeric, isDigit] at h ⊢; simp [h])

theorem graphic_of_isSemverChar {c : Char} (h : isSemverChar c = true) : Graphic c := by
  simp only [isSemverChar, Bool.or_eq_true, beq_iff_eq] at h
  rcases h with h | rfl
  · exact graphic_of_isAlphanumeric h
  · exact ⟨by decide, by decide⟩

theorem Regex.over_char {P : Char → Prop} {c : Char} (h : P c) : (Regex.char c).Over P := by
  intro d hd
  rwa [eq_of_beq hd]

theorem safeIdentifierPattern_over : safeIdentifierPattern.Over Graphic :=
  ⟨fun _ => graphic_of_isAlphanumeric, Regex.Over.upTo (r := .chars isIdentifierTail)
    (fun _ => graphic_of_isIdentifierTail) 127⟩

theorem semverPattern_over : semverPattern.Over Graphic := by
  have hdot : (Regex.char '.').Over Graphic := Regex.over_char ⟨by decide, by decide⟩
  have hnumeric : SemverPattern.numeric.Over Graphic := by
    refine ⟨Regex.over_char ⟨by decide, by decide⟩, fun c hc => ?_, fun c => graphic_of_isDigit⟩
    simp only [Bool.and_eq_true, decide_eq_true_eq] at hc
    have hnat : 49 ≤ c.toNat ∧ c.toNat ≤ 57 := hc
    unfold Graphic
    omega
  have hpre : SemverPattern.prerelease.Over Graphic := by
    refine ⟨hnumeric, fun c => graphic_of_isDigit, fun c hc => ?_, fun c => graphic_of_isSemverChar⟩
    rw [Bool.and_eq_true] at hc
    exact graphic_of_isSemverChar hc.1
  have hbuild : SemverPattern.build.Over Graphic :=
    ⟨fun c => graphic_of_isSemverChar, fun c => graphic_of_isSemverChar⟩
  exact ⟨hnumeric, hdot, hnumeric, hdot, hnumeric,
    ⟨trivial, Regex.over_char ⟨by decide, by decide⟩, hpre, hdot, hpre⟩,
    trivial, Regex.over_char ⟨by decide, by decide⟩, hbuild, hdot, hbuild⟩

theorem validExactText_of_matchText {r : Regex} (hr : r.Over Graphic) {s : String} (hne : s ≠ "")
    (h : r.matchText s = true) : validExactText (utf8 s) = true := by
  refine validExactText_of_runes ?_ ?_
  · intro hnil
    have hrunes := Strings.runes_utf8 s
    rw [hnil] at hrunes
    exact hne (String.toList_eq_nil_iff.mp hrunes.symm)
  · rw [Strings.runes_utf8]
    exact hr.forall_of_accepts h

/-- A release ID and a digest that the contracts take, the registry takes. -/
theorem provenance_exact {releaseID cardDigest : String} (hne : releaseID ≠ "")
    (h : validateInvocationReleaseProvenance releaseID cardDigest = .ok ()) :
    validExactText (utf8 releaseID) = true ∧ cardDigestPattern.matchText cardDigest = true := by
  simp only [validateInvocationReleaseProvenance, check_bind_ok_iff, require_ok_iff] at h
  obtain ⟨-, h⟩ := h
  rw [if_neg hne] at h
  simp only [check_bind_ok_iff, require_ok_iff, validateSafeContractIdentifier] at h
  obtain ⟨hid, ⟨-, hlower⟩, hdecode⟩ := h
  refine ⟨validExactText_of_matchText safeIdentifierPattern_over hne hid, ?_⟩
  obtain ⟨bytes, hbytes, hlength⟩ := (Option.any_eq_true ..).mp hdecode
  obtain ⟨hlen, hall⟩ := Hex.isLower_of_decode hbytes hlower
  refine (Regex.accepts_exactly_chars _ _ _).mpr ⟨?_, hall⟩
  rw [hlen, eq_of_beq hlength]

/-! ## Which endpoints have a release target -/

section Targets

variable [UnicodeCase] {resolved : ResolveAgentResponse} {capability : String} {target : Target}

theorem newTarget_ok (h : newTarget resolved capability = .ok target) :
    canonicalRouterAgentAudience (utf8 resolved.card.protocol.endpoint) = some target.audience
      ∧ validateInvocationReleaseProvenance target.releaseID target.cardDigest = .ok ()
      ∧ target.agentID = resolved.card.agentID ∧ target.version = resolved.card.version
      ∧ target.endpoint = utf8 resolved.card.protocol.endpoint
      ∧ target.releaseID = resolved.installation.installedReleaseID
      ∧ target.cardDigest = resolved.installation.agentCardDigest := by
  simp only [newTarget, check_bind_ok_iff, require_ok_iff] at h
  obtain ⟨-, -, -, -, -, -, -, h⟩ := h
  split at h
  · cases h
  · rename_i audience haudience
    simp only [check_bind_ok_iff, require_ok_iff, orFail_ok_iff] at h
    obtain ⟨hprovenance, -, h⟩ := h
    split at h
    · cases h
    · cases h
    · cases h
      exact ⟨haudience, hprovenance, rfl, rfl, rfl, rfl, rfl⟩

theorem releaseTarget_ok_iff {release : ReleaseTarget} :
    releaseTarget target = .ok release ↔ canonicalEndpoint target.endpoint =
        some release.canonicalEndpoint ∧ release.validate = .ok ()
      ∧ release = ⟨target.agentID, target.version, target.releaseID, target.cardDigest,
        release.canonicalEndpoint, target.audience⟩ := by
  rw [releaseTarget]
  constructor
  · intro h
    split at h
    · cases h
    · rename_i endpoint hendpoint
      obtain ⟨hvalid, heq⟩ := check_bind_ok_iff.mp h
      cases heq
      exact ⟨hendpoint, hvalid, rfl⟩
  · rintro ⟨hendpoint, hvalid, heq⟩
    rw [hendpoint]
    exact check_bind_ok_iff.mpr ⟨heq ▸ hvalid, congrArg Except.ok heq.symm⟩

theorem ReleaseTarget.validate_ok_iff {t : ReleaseTarget} :
    t.validate = .ok () ↔ validExactText (utf8 t.agentID) = true
      ∧ validExactText (utf8 t.agentCardVersion) = true ∧ validExactText (utf8 t.releaseID) = true
      ∧ cardDigestPattern.matchText t.cardDigest = true
      ∧ validCanonicalEndpoint t.canonicalEndpoint = true ∧ validAudienceOrigin t.audience = true
      ∧ audienceForCanonicalEndpoint t.canonicalEndpoint = some t.audience := by
  simp only [ReleaseTarget.validate, check_bind_ok_iff, require_ok_iff]

/-- A canonical endpoint is short enough. -/
theorem length_of_validCanonicalEndpoint {raw : Bytes} (h : validCanonicalEndpoint raw = true) :
    raw.length ≤ 2048 := by
  by_contra hlength
  rw [validCanonicalEndpoint, decide_eq_true_eq, canonicalHTTPValue,
    if_pos (by simp [Nat.not_le.mp hlength])] at h
  cases h

/-- **Every endpoint that can be published and is spelled canonically can be
routed**, and no other: the release target names the endpoint of the
catalog exactly if the Card's endpoint has the canonical authority and the
canonical endpoint is not too long. -/
theorem releaseTarget_iff [CardFormats] (hcard : resolved.card.Schema)
    (hlength : (utf8 resolved.card.protocol.endpoint).length ≤ 2048) {e : Endpoint}
    (hendpoint : parseEndpoint (utf8 resolved.card.protocol.endpoint) = some e)
    (hpin : resolved.installation.installedReleaseID ≠ "")
    (htarget : newTarget resolved capability = .ok target) :
    (∃ release, releaseTarget target = .ok release ∧ release.canonicalEndpoint = e.canonical
        ∧ release.audience = e.origin) ↔
      e.SpelledIn (utf8 resolved.card.protocol.endpoint) := by
  obtain ⟨haudience, hprovenance, hagent, hversion, hurl, hrelease, -⟩ := newTarget_ok htarget
  rw [canonicalRouterAgentAudience_eq hendpoint hlength, Option.some_inj] at haudience
  constructor
  · rintro ⟨release, hok, hcanonical, -⟩
    obtain ⟨hrouter, hvalid, -⟩ := releaseTarget_ok_iff.mp hok
    obtain ⟨-, -, -, -, hvalid, -⟩ := ReleaseTarget.validate_ok_iff.mp hvalid
    rw [hcanonical] at hrouter hvalid
    rw [hurl] at hrouter
    exact ⟨(canonicalEndpoint_eq_iff hendpoint).mp hrouter, length_of_validCanonicalEndpoint hvalid⟩
  · intro hspelled
    obtain ⟨hcanonical, horigin, hfor⟩ := valid_of_spelledIn hendpoint hspelled
    rw [hrelease] at hprovenance
    obtain ⟨hreleaseID, hdigest⟩ := provenance_exact hpin hprovenance
    have hagentID := validExactText_of_matchText safeIdentifierPattern_over
      (safeIdentifier_ne_empty hcard.agentID) hcard.agentID.2.2
    have hversionPattern := hcard.version.2
    have hversionNe : resolved.card.version ≠ "" := by
      intro h
      rw [h] at hversionPattern
      exact absurd hversionPattern (by decide)
    have hcardVersion := validExactText_of_matchText semverPattern_over hversionNe hversionPattern
    refine ⟨⟨target.agentID, target.version, target.releaseID, target.cardDigest, e.canonical,
      target.audience⟩, releaseTarget_ok_iff.mpr ⟨?_, ?_, rfl⟩, rfl, haudience.symm⟩
    · rw [hurl]
      exact (canonicalEndpoint_eq_iff hendpoint).mpr hspelled.1
    · rw [ReleaseTarget.validate_ok_iff, hagent, hversion, hrelease, ← haudience]
      exact ⟨hagentID, hcardVersion, hreleaseID, hdigest, hcanonical, horigin, hfor⟩

end Targets

/-! ## Two spellings of one endpoint -/

/-- An Agent with the given endpoint, installed with a release. -/
def resolvedAt (endpoint : String) : ResolveAgentResponse where
  card := ⟨"0.2", "weather", "Weather", "Forecasts", ⟨"alice", "Alice"⟩, "1.0.0",
    ⟨"a2a", "0.3.0", "JSONRPC", endpoint⟩,
    some [⟨"forecast", "Forecast", "A forecast", some [], some [], some []⟩], ⟨"http_bearer"⟩,
    some [], ⟨1000, utf8 "1024", utf8 "1024", false⟩⟩
  installation := ⟨"i1", "w1", "weather", "1.0.0", "r1", String.ofList (List.replicate 64 '0'), [],
    "enabled"⟩

/-- An upper-case letter in the host is enough: the endpoint is published
under its canonical form, and the router asks for it as it is written. -/
theorem releaseTarget_upper_case :
    let _ : UnicodeCase := ⟨id⟩
    let _ : CardFormats := ⟨fun _ => true, fun _ => true⟩
    let resolved := resolvedAt "https://Weather.example/a2a"
    resolved.card.Schema
      ∧ (parseEndpoint (utf8 "https://Weather.example/a2a")).map Endpoint.canonical =
        some (utf8 "https://weather.example/a2a")
      ∧ (newTarget resolved "forecast" >>= fun target =>
        pure (releaseTarget target)) = .ok (.error "canonical_endpoint") := by
  decide +kernel

theorem releaseTarget_lower_case :
    let _ : UnicodeCase := ⟨id⟩
    ∃ target, newTarget (resolvedAt "https://weather.example:8443") "forecast" = .ok target
      ∧ ∃ release, releaseTarget target = .ok release
        ∧ release.canonicalEndpoint = utf8 "https://weather.example:8443/"
        ∧ release.audience = utf8 "https://weather.example:8443" := by
  intro _
  let resolved := resolvedAt "https://weather.example:8443"
  have htarget : newTarget resolved "forecast" = .ok ⟨"weather", "1.0.0", "forecast",
      utf8 "https://weather.example:8443", utf8 "https://weather.example:8443", "r1",
      resolved.installation.agentCardDigest, "a2a", "JSONRPC", "http_bearer", 1024, 1024, 1000,
      false⟩ := by
    decide +kernel
  refine ⟨_, htarget, ?_⟩
  let _ : CardFormats := ⟨fun _ => true, fun _ => true⟩
  have hschema : resolved.card.Schema := by decide +kernel
  have hendpoint : parseEndpoint (utf8 resolved.card.protocol.endpoint) =
      some ⟨utf8 "https://weather.example:8443/", utf8 "https://weather.example:8443", utf8 "/",
        utf8 "weather.example"⟩ := by
    decide +kernel
  have hsplit : Url.split (utf8 resolved.card.protocol.endpoint) =
      some ⟨utf8 "https", [], some (utf8 "weather.example:8443"), [], false, false, [], []⟩ := by
    decide +kernel
  exact (releaseTarget_iff hschema (by decide +kernel) hendpoint (by decide) htarget).mpr
    ⟨⟨_, hsplit, _, rfl, by decide, by decide⟩, by decide⟩

end Nekiro
