import Mathlib.Data.List.Nodup
import Nekiro.AgentCard
import Nekiro.RuntimeContracts

/-!
# The Agent Card contract

`Validator.ValidateAgentCard` and `DecodeRegisterAgentRequest`. The schema
is stated on the card: a card is encoded before the schema sees it, so its
members are there and only their values are left to check. A `nil` slice or
map is encoded as `null`, which is no array and no object.

The formats `semver` and `uri` are those of the schema library, which the
contracts use and do not define.
-/

namespace Nekiro

open Guard Json

/-- The formats of the schema library. -/
class CardFormats where
  semver : String → Bool
  uri : String → Bool

/-! ## The limits -/

/-- The digits read so far: whether one of them is not zero, the zeros at
their end and their number. -/
structure Coefficient where
  nonZero : Bool
  trailingZeros : Nat
  digits : Nat
deriving Repr, DecidableEq

def scanDigits (k : Coefficient) : Bytes → Coefficient × Bytes
  | [] => (k, [])
  | b :: rest =>
      if b = 0x30 then scanDigits ⟨k.nonZero, k.trailingZeros + 1, k.digits + 1⟩ rest
      else if Json.isDigit b then scanDigits ⟨true, 0, k.digits + 1⟩ rest
      else (k, b :: rest)

/-- The magnitude of the exponent, counted up to `limit` only. -/
structure Exponent where
  magnitude : Nat
  tooLarge : Bool
  digits : Nat
deriving Repr, DecidableEq

def scanExponent (limit : Nat) (e : Exponent) : Bytes → Exponent × Bytes
  | [] => (e, [])
  | b :: rest =>
      if Json.isDigit b then
        let digit := b.toNat - 0x30
        if e.tooLarge then scanExponent limit { e with digits := e.digits + 1 } rest
        else if limit / 10 < e.magnitude ∨ e.magnitude = limit / 10 ∧ limit % 10 < digit then
          scanExponent limit ⟨e.magnitude, true, e.digits + 1⟩ rest
        else scanExponent limit ⟨e.magnitude * 10 + digit, false, e.digits + 1⟩ rest
      else (e, b :: rest)

def exponentAtLeast (negative : Bool) (e : Exponent) (minimum : Int) : Bool :=
  if negative && !(e.magnitude == 0 && !e.tooLarge) then
    if 0 ≤ minimum ∨ e.tooLarge then false else decide ((e.magnitude : Int) ≤ -minimum)
  else decide (minimum ≤ 0) || e.tooLarge || decide (minimum ≤ (e.magnitude : Int))

/-- The digits in front of the point: one zero, or no leading zero. -/
def scanInteger : Bytes → Option (Coefficient × Bytes)
  | [] => none
  | b :: rest =>
      if b = 0x30 then
        if (rest.head?.map Json.isDigit).getD false then none else some (⟨false, 1, 0⟩, rest)
      else if Json.isDigit b then some (scanDigits ⟨false, 0, 0⟩ (b :: rest)) else none

/-- The fraction, if there is a point; `digits` counts its digits. -/
def scanFraction (k : Coefficient) : Bytes → Option (Coefficient × Bytes)
  | 0x2E :: rest =>
      let (k', rest') := scanDigits ⟨k.nonZero, k.trailingZeros, 0⟩ rest
      if k'.digits = 0 then none else some (k', rest')
  | text => some (⟨k.nonZero, k.trailingZeros, 0⟩, text)

/-- The sign and the magnitude of the exponent, if there is one. -/
def scanExponentPart (limit : Nat) (text : Bytes) : Option (Bool × Exponent × Bytes) :=
  if text.head? = some 0x65 ∨ text.head? = some 0x45 then
    let sign := text.tail.head?
    let negative := sign == some 0x2D
    let digits := if negative ∨ sign = some 0x2B then text.tail.tail else text.tail
    let (e, rest) := scanExponent limit ⟨0, false, 0⟩ digits
    if e.digits = 0 then none else some (negative, e, rest)
  else some (false, ⟨0, false, 0⟩, text)

/-- `validatePositiveJSONInteger`: the keyword that the number violates. -/
def validatePositiveJSONInteger (text : Bytes) : Option String :=
  let negative := text.head? == some 0x2D
  let scanned := do
    let (k, rest) ← scanInteger (if negative then text.tail else text)
    let (k, rest) ← scanFraction k rest
    let (exponentNegative, e, rest) ← scanExponentPart text.length rest
    if rest = [] then pure (k, exponentNegative, e) else none
  match scanned with
  | none => some "type"
  | some (k, exponentNegative, e) =>
      if !k.nonZero || negative then some "minimum"
      else if exponentAtLeast exponentNegative e ((k.digits : Int) - k.trailingZeros) then none
      else some "type"

/-! ## The semantic rules -/

inductive AgentCardSemanticRuleID where
  | uniqueSkillIDs
  | uniquePermissionIDs
  | requiredPermissionDeclared
deriving Repr, DecidableEq

structure AgentCardSemanticViolation where
  ruleID : AgentCardSemanticRuleID
  path : String
deriving Repr, DecidableEq

/-- The positions of the names that stand further up already. -/
def repeatedAt (names : List String) : List Nat :=
  (List.range names.length).filter fun i => (names.take i).contains (names.getD i "")

/-- `EvaluateAgentCardSemantics`. -/
def evaluateAgentCardSemantics (c : AgentCard) : List AgentCardSemanticViolation :=
  let skills := c.skills.getD []
  let permissionIDs := (c.permissions.getD []).map PermissionDeclaration.id
  (repeatedAt (skills.map AgentSkill.id)).map (fun i => ⟨.uniqueSkillIDs, s!"/skills/{i}/id"⟩)
    ++ (repeatedAt permissionIDs).map (fun i => ⟨.uniquePermissionIDs, s!"/permissions/{i}/id"⟩)
    ++ skills.zipIdx.flatMap fun (s, i) =>
      ((s.requiredPermissions.getD []).zipIdx.filter fun (p, _) => !permissionIDs.contains p).map
        fun (_, j) => ⟨.requiredPermissionDeclared, s!"/skills/{i}/requiredPermissions/{j}"⟩

theorem repeatedAt_eq_nil_iff {names : List String} : repeatedAt names = [] ↔ names.Nodup := by
  rw [repeatedAt, List.filter_eq_nil_iff, List.nodup_iff_getElem?_ne_getElem?]
  constructor
  · intro hnone i j hij hj heq
    refine hnone j (List.mem_range.mpr hj) ?_
    have hi : names[i]? = some (names.getD j "") := by
      rw [heq, List.getD_eq_getElem?_getD, List.getElem?_eq_getElem hj]
      rfl
    rw [List.contains_iff_mem]
    refine List.mem_of_getElem? (i := i) ?_
    rw [List.getElem?_take_of_lt hij, hi]
  · intro hne j hj hmem
    rw [List.mem_range] at hj
    rw [List.contains_iff_mem, List.mem_take_iff_getElem] at hmem
    obtain ⟨i, hi, heq⟩ := hmem
    refine hne i j (by omega) hj ?_
    rw [List.getElem?_eq_getElem (by omega), heq, List.getD_eq_getElem?_getD,
      List.getElem?_eq_getElem hj]
    rfl

/-- The rules of `semantic-rules.md`. -/
structure AgentCard.Rules (c : AgentCard) : Prop where
  uniqueSkillIDs : ((c.skills.getD []).map AgentSkill.id).Nodup
  uniquePermissionIDs : ((c.permissions.getD []).map PermissionDeclaration.id).Nodup
  requiredPermissionDeclared : ∀ s ∈ c.skills.getD [], ∀ p ∈ s.requiredPermissions.getD [],
    p ∈ (c.permissions.getD []).map PermissionDeclaration.id

theorem evaluateAgentCardSemantics_eq_nil_iff {c : AgentCard} :
    evaluateAgentCardSemantics c = [] ↔ c.Rules := by
  have hdeclared : (((c.skills.getD []).zipIdx.flatMap fun (s, i) =>
        ((s.requiredPermissions.getD []).zipIdx.filter fun (p, _) =>
          !((c.permissions.getD []).map PermissionDeclaration.id).contains p).map fun (_, j) =>
            (⟨.requiredPermissionDeclared, s!"/skills/{i}/requiredPermissions/{j}"⟩ :
              AgentCardSemanticViolation)) = [])
      ↔ ∀ s ∈ c.skills.getD [], ∀ p ∈ s.requiredPermissions.getD [],
        p ∈ (c.permissions.getD []).map PermissionDeclaration.id := by
    simp only [List.flatMap_eq_nil_iff, List.map_eq_nil_iff, List.filter_eq_nil_iff]
    constructor
    · intro h s hs p hp
      obtain ⟨i, hi, rfl⟩ := List.mem_iff_getElem.mp hs
      obtain ⟨j, hj, rfl⟩ := List.mem_iff_getElem.mp hp
      have hcontains := h _ (List.mk_mem_zipIdx_iff_getElem?.mpr (List.getElem?_eq_getElem hi)) _
        (List.mk_mem_zipIdx_iff_getElem?.mpr (List.getElem?_eq_getElem hj))
      rw [Bool.not_eq_true', Bool.not_eq_false, List.contains_iff_mem] at hcontains
      exact hcontains
    · rintro h ⟨s, i⟩ hs ⟨p, j⟩ hp
      rw [Bool.not_eq_true', Bool.not_eq_false, List.contains_iff_mem]
      exact h s (List.fst_mem_of_mem_zipIdx hs) p (List.fst_mem_of_mem_zipIdx hp)
  rw [evaluateAgentCardSemantics, List.append_eq_nil_iff, List.append_eq_nil_iff,
    List.map_eq_nil_iff, List.map_eq_nil_iff, repeatedAt_eq_nil_iff, repeatedAt_eq_nil_iff,
    hdeclared]
  exact ⟨fun ⟨⟨hskills, hpermissions⟩, hrequired⟩ => ⟨hskills, hpermissions, hrequired⟩,
    fun h => ⟨⟨h.1, h.2⟩, h.3⟩⟩

/-! ## Refusals -/

/-- What refuses a card. -/
inductive AgentCardError where
  | decode
  | limit (path keyword : String)
  | schema
  | semantic (issues : List AgentCardSemanticViolation)
deriving Repr, DecidableEq

def requireLimit (path : String) (text : Bytes) : Except AgentCardError Unit :=
  match validatePositiveJSONInteger text with
  | none => .ok ()
  | some keyword => .error (.limit path keyword)

theorem requireLimit_ok {path : String} {text : Bytes} (h : requireLimit path text = .ok ()) :
    text ≠ [] := by
  rintro rfl
  have hkeyword : validatePositiveJSONInteger [] = some "type" := rfl
  rw [requireLimit, hkeyword] at h
  exact absurd h (by simp)

/-! ## The schema -/

def isSpaceClass (c : Char) : Bool :=
  c == ' ' || c == '\t' || c == '\n' || c == Char.ofNat 0x0C || c == '\r'

def isTextDelimiter (c : Char) : Bool := c == '/' || c == '?' || c == '#'

/-- `^https?://[^@\s/?#]+(?:[/?#][^\s]*)?$`. -/
def endpointPattern : Regex :=
  open Regex in
  seq (char 'h') (seq (char 't') (seq (char 't') (seq (char 'p') (seq (opt (char 's'))
    (seq (char ':') (seq (char '/') (seq (char '/')
      (seq (plus (chars fun c => c != '@' && !isSpaceClass c && !isTextDelimiter c))
        (opt (seq (chars isTextDelimiter) (star (chars fun c => !isSpaceClass c))))))))))))

/-- `minLength` 1 and `maxLength`, in characters. -/
def boundedText (maxLength : Nat) (s : String) : Prop := 1 ≤ s.length ∧ s.length ≤ maxLength

instance (maxLength : Nat) (s : String) : Decidable (boundedText maxLength s) :=
  inferInstanceAs (Decidable (_ ∧ _))

@[mk_iff]
structure AgentSkill.Schema (s : AgentSkill) : Prop where
  id : safeIdentifier s.id
  name : boundedText 120 s.name
  description : boundedText 2000 s.description
  inputSchema : s.inputSchema.isSome = true
  outputSchema : s.outputSchema.isSome = true
  requiredPermissions : s.requiredPermissions.isSome = true
  unique : (s.requiredPermissions.getD []).Nodup
  permissionIDs : ∀ p ∈ s.requiredPermissions.getD [], safeIdentifier p

instance (s : AgentSkill) : Decidable s.Schema := decidable_of_iff _ (AgentSkill.schema_iff s).symm

@[mk_iff]
structure PermissionDeclaration.Schema (p : PermissionDeclaration) : Prop where
  id : safeIdentifier p.id
  description : boundedText 1000 p.description

instance (p : PermissionDeclaration) : Decidable p.Schema :=
  decidable_of_iff _ (PermissionDeclaration.schema_iff p).symm

/-! ### Quoted limits -/

/-- The raw limits of a document, as `rejectQuotedAgentCardLimitValues`
looks for them. -/
structure RawLimits where
  maxInputBytes : Option Json.Value
  maxOutputBytes : Option Json.Value

namespace RawLimits

/-- A `json.RawMessage` takes any value, `null` too. -/
def decodeRaw : Decoder (Option Json.Value) := fun v _ => some (some v)

def slots : List (Slot RawLimits) :=
  [⟨"maxInputBytes", maxInputBytes, fun l v => { l with maxInputBytes := v }, decodeRaw⟩,
    ⟨"maxOutputBytes", maxOutputBytes, fun l v => { l with maxOutputBytes := v }, decodeRaw⟩]

def fields : List (Json.Field RawLimits) := slots.map Slot.field

def documentSlots : List (Slot RawLimits) :=
  [⟨"limits", id, fun _ l => l, decodeStruct false fields⟩]

def documentFields : List (Json.Field RawLimits) := documentSlots.map Slot.field

def quoted : Option Json.Value → Bool
  | some (.string _) => true
  | _ => false

end RawLimits

def rejectQuotedAgentCardLimitValues (document : Json.Value) : Except AgentCardError Unit :=
  match decodeStruct false RawLimits.documentFields document ⟨none, none⟩ with
  | none => .error .decode
  | some limits => do
      require (RawLimits.quoted limits.maxInputBytes = false)
        (.limit "/limits/maxInputBytes" "type")
      require (RawLimits.quoted limits.maxOutputBytes = false)
        (.limit "/limits/maxOutputBytes" "type")

def rejectQuotedRegisterAgentCardLimitValues (request : Json.Value) : Except AgentCardError Unit :=
  match decodeStruct false [.of "card" id (fun _ v => v) RawLimits.decodeRaw] request none with
  | none => .error .decode
  | some none => .ok ()
  | some (some card) => rejectQuotedAgentCardLimitValues card

section Contract

variable [CardFormats]

/-- `agent-card.v0.2.schema.json`, the limits on bytes apart. -/
@[mk_iff]
structure AgentCard.Schema (c : AgentCard) : Prop where
  schemaVersion : c.schemaVersion = "0.2"
  agentID : safeIdentifier c.agentID
  name : boundedText 120 c.name
  description : boundedText 4000 c.description
  ownerID : safeIdentifier c.owner.id
  ownerName : boundedText 120 c.owner.displayName
  version : CardFormats.semver c.version = true ∧ semverPattern.matchText c.version = true
  protocolType : c.protocol.type = "a2a"
  protocolVersion : c.protocol.version = "0.3.0"
  protocolTransport : c.protocol.transport = "JSONRPC"
  endpointFormat : CardFormats.uri c.protocol.endpoint = true
  endpointLength : c.protocol.endpoint.length ≤ 2048
  endpointPattern : endpointPattern.matchText c.protocol.endpoint = true
  skills : c.skills.isSome = true ∧ c.skills.getD [] ≠ []
  skill : ∀ s ∈ c.skills.getD [], s.Schema
  authentication : c.authentication.type ∈
    ["none", "api_key", "http_bearer", "oauth2_client_credentials", "mutual_tls"]
  permissions : c.permissions.isSome = true
  permission : ∀ p ∈ c.permissions.getD [], p.Schema
  timeoutMS : 1 ≤ c.limits.timeoutMS ∧ c.limits.timeoutMS ≤ 600000

instance (l : List AgentSkill) : Decidable (l ≠ []) :=
  match l with
  | [] => .isFalse (by simp)
  | _ :: _ => .isTrue (by simp)

instance (c : AgentCard) : Decidable c.Schema := decidable_of_iff _ (AgentCard.schema_iff c).symm

/-! ## Validation -/

def validateAgentCard (c : AgentCard) : Except AgentCardError Unit := do
  requireLimit "/limits/maxInputBytes" c.limits.maxInputBytes
  requireLimit "/limits/maxOutputBytes" c.limits.maxOutputBytes
  require c.Schema .schema
  require (evaluateAgentCardSemantics c = []) (.semantic (evaluateAgentCardSemantics c))

/-! ## Decoding a request -/

/-- The fields of `RegisterAgentRequest`; its variable is the card. -/
def registerFields : List (Json.Field AgentCard.Var) :=
  [.of "card" id (fun _ c => c) (decodeStruct true AgentCard.Var.fields)]

/-- `DecodeRegisterAgentRequest`, with the card it accepts. -/
def decodeRegisterAgentRequest (data : Bytes) : Except AgentCardError AgentCard :=
  match Json.read Json.maxNestingDepth data with
  | none => .error .decode
  | some v => do
      require (Json.distinctMembers v = true) .decode
      rejectQuotedRegisterAgentCardLimitValues v
      match decodeStruct true registerFields v .zero with
      | none => .error .decode
      | some c => do
          validateAgentCard c.card
          pure c.card

/-- `DecodeAgentCard`. -/
def decodeAgentCard (data : Bytes) : Except AgentCardError AgentCard :=
  match Json.read Json.maxNestingDepth data with
  | none => .error .decode
  | some v => do
      require (Json.distinctMembers v = true) .decode
      rejectQuotedAgentCardLimitValues v
      match decodeStruct true AgentCard.Var.fields v .zero with
      | none => .error .decode
      | some c => do
          validateAgentCard c.card
          pure c.card

theorem decodeAgentCard_eq_ok_iff {data : Bytes} {c : AgentCard} :
    decodeAgentCard data = .ok c ↔
      ∃ v var, Json.read Json.maxNestingDepth data = some v ∧ Json.distinctMembers v = true
        ∧ rejectQuotedAgentCardLimitValues v = .ok ()
        ∧ decodeStruct true AgentCard.Var.fields v .zero = some var
        ∧ validateAgentCard var.card = .ok () ∧ var.card = c := by
  unfold decodeAgentCard
  cases hread : Json.read Json.maxNestingDepth data with
  | none => simp
  | some v =>
      simp only [check_bind_ok_iff, require_ok_iff, Option.some_inj, exists_and_left,
        exists_eq_left']
      refine and_congr_right fun _ => and_congr_right fun _ => ?_
      cases hdecode : decodeStruct true AgentCard.Var.fields v .zero with
      | none => simp
      | some var =>
          simp only [check_bind_ok_iff, Option.some_inj, exists_eq_left']
          refine and_congr_right fun _ => ?_
          exact ⟨fun h => Except.ok.inj h, fun h => congrArg Except.ok h⟩

/-! ## What an accepted card is -/

theorem validateAgentCard_ok {c : AgentCard} (h : validateAgentCard c = .ok ()) :
    c.limits.maxInputBytes ≠ [] ∧ c.limits.maxOutputBytes ≠ [] ∧ c.Schema
      ∧ evaluateAgentCardSemantics c = [] := by
  simp only [validateAgentCard, check_bind_ok_iff, require_ok_iff] at h
  exact ⟨requireLimit_ok h.1, requireLimit_ok h.2.1, h.2.2.1, h.2.2.2⟩

/-- An accepted card passes the contract, and can be written and read. -/
theorem decodeRegisterAgentRequest_ok {data : Bytes} {c : AgentCard}
    (h : decodeRegisterAgentRequest data = .ok c) :
    validateAgentCard c = .ok () ∧ c.Encodable 9995 := by
  unfold decodeRegisterAgentRequest at h
  split at h
  · cases h
  · rename_i v hread
    simp only [check_bind_ok_iff] at h
    obtain ⟨-, -, h⟩ := h
    split at h
    · cases h
    · rename_i var hdecode
      obtain ⟨hvalid, heq⟩ := check_bind_ok_iff.mp h
      cases heq
      have hwell : v.WellFormed (9995 + 4 + 1) := wellFormed_of_read hread
      have hcard : ∀ f ∈ registerFields,
          Keeps (9995 + 4) f.decode (AgentCard.Var.Decoded 9995) := by
        rw [registerFields, List.forall_mem_singleton]
        exact Field.keeps_of fun v c c' hv hc hdecode =>
          AgentCard.Var.keeps_fields 9995 v c c' hv hc hdecode
      have hdecoded := keeps_decodeStruct hcard v _ var hwell (AgentCard.Var.decoded_zero _) hdecode
      obtain ⟨hinput, houtput, -, -⟩ := validateAgentCard_ok hvalid
      exact ⟨hvalid, AgentCard.Var.encodable hdecoded hinput houtput⟩

end Contract

end Nekiro
