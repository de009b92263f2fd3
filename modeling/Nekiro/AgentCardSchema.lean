import Nekiro.AgentCardDocument

/-!
# Agent Cards and their schema

`agent-card.v0.2.schema.json` as it is written, on documents, and
`DecodeAgentCard` against it. The code does not show the document to the
schema: it decodes a card, encodes the card again with other limits and
shows that. On a document of the card the two come to the same
(`AgentCard.Document.schema_iff`), and every document that the schema
accepts is one of a card (`cardSchema.exists_document`), so what is left is
which documents are read. The decoder takes a member under a name of other
letters, leaves `limits.streaming` as it is if it is absent or `null`, and
reads a timeout only in digits and a document only if it is not too deep. On
all other documents (`Regular`) it agrees with the schema:
`decodeAgentCard_agrees_iff`.

The formats are asserted, as the contracts ask the schema library to.
-/

namespace Nekiro

open Guard Json

/-! ## The schema -/

section Schema

open Json.Schema

/-- An object that lists its properties, requires them and allows no others. -/
def closedSchema (parts : List (String × Json.Schema)) : Json.Schema :=
  allOf [type .object, noAdditional (parts.map Prod.fst), required (parts.map Prod.fst),
    properties parts]

def safeIdentifierSchema : Json.Schema :=
  allOf [type .string, minLength 1, maxLength 128, pattern safeIdentifierPattern]

def boundedTextSchema (length : Nat) : Json.Schema :=
  allOf [type .string, minLength 1, maxLength length]

def ownerSchema : Json.Schema :=
  closedSchema [("id", safeIdentifierSchema), ("displayName", boundedTextSchema 120)]

def skillSchema : Json.Schema :=
  closedSchema [("id", safeIdentifierSchema), ("name", boundedTextSchema 120),
    ("description", boundedTextSchema 2000), ("inputSchema", type .object),
    ("outputSchema", type .object),
    ("requiredPermissions", allOf [type .array, uniqueItems, items safeIdentifierSchema])]

def authenticationSchema : Json.Schema :=
  closedSchema [("type", enum (["none", "api_key", "http_bearer", "oauth2_client_credentials",
    "mutual_tls"].map ofString))]

def permissionSchema : Json.Schema :=
  closedSchema [("id", safeIdentifierSchema), ("description", boundedTextSchema 1000)]

def limitsSchema : Json.Schema :=
  closedSchema [("timeoutMs", allOf [type .integer, minimum 1, maximum 600000]),
    ("maxInputBytes", allOf [type .integer, minimum 1]),
    ("maxOutputBytes", allOf [type .integer, minimum 1]), ("streaming", type .boolean)]

variable [CardFormats]

def semverSchema : Json.Schema :=
  allOf [type .string, format CardFormats.semver, pattern semverPattern]

def protocolSchema : Json.Schema :=
  closedSchema [("type", const (ofString "a2a")), ("version", const (ofString "0.3.0")),
    ("transport", const (ofString "JSONRPC")),
    ("endpoint", allOf [type .string, format CardFormats.uri, maxLength 2048,
      pattern endpointPattern])]

/-- `agent-card.v0.2.schema.json`. -/
def cardSchema : Json.Schema :=
  closedSchema [("schemaVersion", const (ofString "0.2")), ("agentId", safeIdentifierSchema),
    ("name", boundedTextSchema 120), ("description", boundedTextSchema 4000),
    ("owner", ownerSchema), ("version", semverSchema), ("protocol", protocolSchema),
    ("skills", allOf [type .array, minItems 1, items skillSchema]),
    ("authentication", authenticationSchema),
    ("permissions", allOf [type .array, items permissionSchema]), ("limits", limitsSchema)]

end Schema

/-! ## Parts of a document -/

variable {v : Json.Value} {members : List (Bytes × Json.Value)} {α : Type}
  {item : α → Json.Value → Prop} {slice : Option (List α)} {given : Option Json.Value}

theorem closedSchema_iff {parts : List (String × Json.Schema)} (hplain : v.Plain) :
    closedSchema parts v ↔ ObjectWith parts v :=
  closedObject_iff fun _ hv => (hv ▸ hplain).nodup

/-- The schema on an object of which the names are known. -/
theorem closedSchema_iff_part {parts documents : List (String × Json.Schema)} (hplain : v.Plain)
    (h : ObjectWith documents v) (hsame : parts.map Prod.fst = documents.map Prod.fst) :
    closedSchema parts v ↔ ∀ p ∈ parts, p.2 (v.part p.1) :=
  (closedSchema_iff hplain).trans (h.iff_part hsame)

theorem closedSchema.parts {parts : List (String × Json.Schema)}
    (h : closedSchema parts (.object members)) :
    Schema.noAdditional (parts.map Prod.fst) (.object members)
      ∧ Schema.required (parts.map Prod.fst) (.object members)
      ∧ ∀ p ∈ parts, ∀ m ∈ members, unquote m.1 = p.1 → p.2 m.2 := by
  simp only [closedSchema, Schema.allOf, List.forall_mem_cons] at h
  exact ⟨h.2.1, h.2.2.1, h.2.2.2.1 members rfl⟩

theorem closedSchema.noAdditional {parts : List (String × Json.Schema)} (h : closedSchema parts v) :
    Schema.noAdditional (parts.map Prod.fst) v := by
  simp only [closedSchema, Schema.allOf, List.forall_mem_cons] at h
  exact h.2.1

theorem items_imp {S S' : Json.Schema} (h : Schema.items S v) (himp : ∀ w, S w → S' w) :
    Schema.items S' v :=
  fun xs hv x hx => himp x (h xs hv x hx)

section Text

variable {s : String} {v : Json.Value} (h : IsText s v)

include h

theorem IsText.safeIdentifier_iff : safeIdentifierSchema v ↔ safeIdentifier s := by
  obtain ⟨raw, rfl, rfl⟩ := h
  simp [safeIdentifierSchema, safeIdentifier, Schema.allOf, Schema.type, Schema.minLength,
    Schema.maxLength, Schema.pattern]

theorem IsText.boundedText_iff (length : Nat) :
    boundedTextSchema length v ↔ boundedText length s := by
  obtain ⟨raw, rfl, rfl⟩ := h
  simp [boundedTextSchema, boundedText, Schema.allOf, Schema.type, Schema.minLength,
    Schema.maxLength]

theorem IsText.equal_iff (constant : String) : Equal v (ofString constant) ↔ s = constant := by
  obtain ⟨raw, rfl, rfl⟩ := h
  rw [ofString, equal_string_iff, unquote_escape]

theorem IsText.enum_iff (constants : List String) :
    Schema.enum (constants.map ofString) v ↔ s ∈ constants := by
  constructor
  · rintro ⟨_, hconstant, hequal⟩
    obtain ⟨constant, hmem, rfl⟩ := List.mem_map.mp hconstant
    rwa [(h.equal_iff constant).mp hequal]
  · exact fun hmem => ⟨_, List.mem_map_of_mem hmem, (h.equal_iff s).mpr rfl⟩

end Text

theorem IsSlice.items_iff (h : IsSlice item slice v) {S : Json.Schema} {P : α → Prop}
    (hitem : ∀ items, v = .array items → ∀ a, ∀ w ∈ items, item a w → (S w ↔ P a)) :
    Schema.items S v ↔ ∀ a ∈ slice.getD [], P a := by
  obtain ⟨as, vs, rfl, rfl, hall⟩ := h
  have hiff : List.Forall₂ (fun a w => P a ↔ S w) as vs :=
    forall₂_of_mem hall fun a w _ hw haw => (hitem vs rfl a w hw haw).symm
  rw [Option.getD_some, forall_mem_iff_of_forall₂ hiff]
  simp [Schema.items]

theorem IsSlice.uniqueItems_iff {slice : Option (List String)} (h : IsSlice IsText slice v) :
    Schema.uniqueItems v ↔ (slice.getD []).Nodup := by
  obtain ⟨as, vs, rfl, rfl, hall⟩ := h
  have hunique : Schema.uniqueItems (.array vs) ↔ vs.Pairwise fun x y => ¬Equal x y := by
    simp [Schema.uniqueItems]
  rw [hunique, Option.getD_some]
  clear hunique
  induction hall with
  | nil => simp
  | @cons a w as vs haw hall ih =>
      have hfirst : List.Forall₂ (fun b x => a ≠ b ↔ ¬Equal w x) as vs := by
        refine hall.imp fun b x hbx => not_congr ?_
        obtain ⟨raw, rfl, rfl⟩ := haw
        obtain ⟨raw', rfl, rfl⟩ := hbx
        exact equal_string_iff.symm
      rw [List.pairwise_cons, List.nodup_cons]
      refine and_congr ?_ ih
      rw [← forall_mem_iff_of_forall₂ hfirst, List.forall_mem_ne]

/-! ## Numbers -/

/-- The schema of the byte limits accepts what the check accepts. -/
theorem byteLimit_iff (literal : Bytes) :
    Schema.allOf [.type .integer, .minimum 1] (.number literal) ↔
      validatePositiveJSONInteger literal = none := by
  simp only [Schema.allOf, List.forall_mem_singleton, List.forall_mem_cons, Schema.type,
    Schema.minimum, Json.Value.number.injEq]
  rcases validatePositiveJSONInteger_cases literal with ⟨hnone, n, rfl, -, k, hk⟩ |
    ⟨hminimum, n, rfl, hle⟩ | ⟨htype, hall⟩
  · refine iff_of_true ⟨⟨n, rfl, k, by rw [hk]; norm_cast⟩, fun n' htext => ?_⟩ hnone
    obtain ⟨hminimum, -, htype⟩ := validatePositiveJSONInteger_text n'
    rw [← htext, hnone] at hminimum htype
    have hpositive : 0 < n'.value := by
      by_contra hle
      cases hminimum (not_lt.mp hle)
    have hinteger : ∃ k : Nat, n'.value = k := by
      by_contra hnot
      cases htype hpositive hnot
    obtain ⟨k', hk'⟩ := hinteger
    rw [hk'] at hpositive ⊢
    exact_mod_cast hpositive
  · refine iff_of_false ?_ (by rw [hminimum]; simp)
    rintro ⟨-, hbound⟩
    exact absurd ((hbound n rfl).trans hle) (by norm_num)
  · refine iff_of_false ?_ (by rw [htype]; simp)
    rintro ⟨⟨n, htext, k, hk⟩, -⟩
    obtain ⟨hpositive, hnot⟩ := hall n htext.symm
    rw [hk] at hpositive hnot
    have hk' : 0 < k := by exact_mod_cast hpositive
    exact hnot ⟨k.toNat, by rw [← Int.cast_natCast, Int.toNat_of_nonneg hk'.le]⟩

/-- An integer in digits has one value. -/
theorem timeout_iff {k : Int} (h : IsInteger k v) (hdigits : WrittenInDigits v) :
    Schema.allOf [.type .integer, .minimum 1, .maximum 600000] v ↔ 1 ≤ k ∧ k ≤ 600000 := by
  obtain ⟨n, rfl, hk⟩ := h
  have hvalue : ∀ n' : Numeral, n.text = n'.text → n'.value = k := by
    intro n' htext
    have hall := hdigits _ rfl
    rw [← hk, (Numeral.text_of_digits hall).2, htext,
      ← (Numeral.text_of_digits (htext ▸ hall)).2]
  simp only [Schema.allOf, List.forall_mem_singleton, List.forall_mem_cons, Schema.type,
    Schema.minimum, Schema.maximum, Json.Value.number.injEq]
  constructor
  · rintro ⟨-, hmin, hmax⟩
    have hlow := hmin n rfl
    have hhigh := hmax n rfl
    rw [hk] at hlow hhigh
    exact ⟨by exact_mod_cast hlow, by exact_mod_cast hhigh⟩
  · rintro ⟨hlow, hhigh⟩
    refine ⟨⟨n, rfl, k, hk⟩, fun n' htext => ?_, fun n' htext => ?_⟩
    · rw [hvalue n' htext]
      exact_mod_cast hlow
    · rw [hvalue n' htext]
      exact_mod_cast hhigh

/-! ## The schema on the document of a card -/

theorem AgentOwner.Document.schema_iff {o : AgentOwner} (hplain : v.Plain) (h : o.Document v) :
    ownerSchema v ↔ safeIdentifier o.id ∧ boundedText 120 o.displayName := by
  refine (closedSchema_iff_part hplain h (by rfl)).trans ?_
  have hparts := h.part
  simp only [List.forall_mem_singleton, List.forall_mem_cons] at hparts ⊢
  rw [hparts.1.safeIdentifier_iff, hparts.2.boundedText_iff]

theorem PermissionDeclaration.Document.schema_iff {p : PermissionDeclaration} (hplain : v.Plain)
    (h : p.Document v) : permissionSchema v ↔ p.Schema := by
  rw [PermissionDeclaration.schema_iff]
  refine (closedSchema_iff_part hplain h (by rfl)).trans ?_
  have hparts := h.part
  simp only [List.forall_mem_singleton, List.forall_mem_cons] at hparts ⊢
  rw [hparts.1.safeIdentifier_iff, hparts.2.boundedText_iff]

theorem AgentAuthentication.Document.schema_iff {a : AgentAuthentication} (hplain : v.Plain)
    (h : a.Document v) :
    authenticationSchema v ↔ a.type ∈
      ["none", "api_key", "http_bearer", "oauth2_client_credentials", "mutual_tls"] := by
  refine (closedSchema_iff_part hplain h (by rfl)).trans ?_
  have hparts := h.part
  rw [List.forall_mem_singleton] at hparts ⊢
  exact hparts.enum_iff _

theorem IsMap.isObject {schema : Option JSONSchema} (h : IsMap schema v) :
    Schema.type .object v ∧ schema.isSome = true := by
  obtain ⟨stored, members, rfl, rfl, -⟩ := h
  exact ⟨⟨members, rfl⟩, rfl⟩

theorem IsSlice.isArray (h : IsSlice item slice v) :
    Schema.type .array v ∧ slice.isSome = true := by
  obtain ⟨as, vs, rfl, rfl, -⟩ := h
  exact ⟨⟨vs, rfl⟩, rfl⟩

theorem IsSlice.minItems_iff (h : IsSlice item slice v) :
    Schema.minItems 1 v ↔ slice.getD [] ≠ [] := by
  obtain ⟨as, vs, rfl, rfl, hall⟩ := h
  rw [Option.getD_some, ← List.length_pos_iff, hall.length_eq]
  simp only [Schema.minItems, Json.Value.array.injEq, forall_eq']
  exact Nat.succ_le_iff

theorem AgentSkill.Document.schema_iff {s : AgentSkill} (hplain : v.Plain) (h : s.Document v) :
    skillSchema v ↔ s.Schema := by
  rw [AgentSkill.schema_iff]
  refine (closedSchema_iff_part hplain h (by rfl)).trans ?_
  have hparts := h.part
  simp only [List.forall_mem_singleton, List.forall_mem_cons] at hparts ⊢
  obtain ⟨hid, hname, hdescription, hinput, houtput, hpermissions⟩ := hparts
  have hitems := hpermissions.items_iff (S := safeIdentifierSchema) (P := safeIdentifier)
    fun _ _ a w _ htext => htext.safeIdentifier_iff
  simp only [hid.safeIdentifier_iff, hname.boundedText_iff, hdescription.boundedText_iff,
    hinput.isObject, houtput.isObject, Schema.allOf, List.forall_mem_singleton,
    List.forall_mem_cons, hpermissions.isArray, hpermissions.uniqueItems_iff, hitems, true_and]

theorem AgentLimits.Document.schema_iff {l : AgentLimits} (hplain : v.Plain) (h : l.Document v)
    (hdigits : Schema.properties [("timeoutMs", WrittenInDigits)] v) :
    limitsSchema v ↔ (1 ≤ l.timeoutMS ∧ l.timeoutMS ≤ 600000)
      ∧ validatePositiveJSONInteger l.maxInputBytes = none
      ∧ validatePositiveJSONInteger l.maxOutputBytes = none := by
  refine (closedSchema_iff_part hplain h (by rfl)).trans ?_
  have hparts := h.part
  simp only [List.forall_mem_singleton, List.forall_mem_cons] at hparts ⊢
  obtain ⟨htimeout, hinput, houtput, hstreaming⟩ := hparts
  have hwritten := h.part_of_properties hdigits List.mem_cons_self (by simp)
  have hboolean : Schema.type .boolean (.bool l.streaming) := ⟨l.streaming, rfl⟩
  simp only [timeout_iff htimeout hwritten, hinput, houtput, hstreaming, byteLimit_iff, hboolean,
    and_true]

section Card

variable [CardFormats]

theorem IsText.semver_iff {s : String} {v : Json.Value} (h : IsText s v) :
    semverSchema v ↔ CardFormats.semver s = true ∧ semverPattern.matchText s = true := by
  obtain ⟨raw, rfl, rfl⟩ := h
  simp [semverSchema, Schema.allOf, Schema.type, Schema.format, Schema.pattern]

theorem IsText.endpoint_iff {s : String} {v : Json.Value} (h : IsText s v) :
    Schema.allOf [.type .string, .format CardFormats.uri, .maxLength 2048,
        .pattern endpointPattern] v
      ↔ CardFormats.uri s = true ∧ s.length ≤ 2048 ∧ endpointPattern.matchText s = true := by
  obtain ⟨raw, rfl, rfl⟩ := h
  simp [Schema.allOf, Schema.type, Schema.format, Schema.maxLength, Schema.pattern]

theorem AgentProtocol.Document.schema_iff {p : AgentProtocol} {v : Json.Value} (hplain : v.Plain)
    (h : p.Document v) :
    protocolSchema v ↔ p.type = "a2a" ∧ p.version = "0.3.0" ∧ p.transport = "JSONRPC"
      ∧ CardFormats.uri p.endpoint = true ∧ p.endpoint.length ≤ 2048
      ∧ endpointPattern.matchText p.endpoint = true := by
  refine (closedSchema_iff_part hplain h (by rfl)).trans ?_
  have hparts := h.part
  simp only [List.forall_mem_singleton, List.forall_mem_cons] at hparts ⊢
  obtain ⟨htype, hversion, htransport, hendpoint⟩ := hparts
  simp only [Schema.const, htype.equal_iff, hversion.equal_iff, htransport.equal_iff,
    hendpoint.endpoint_iff]

/-- The document of a card is accepted if the card is. -/
theorem AgentCard.Document.schema_iff {c : AgentCard} {v : Json.Value} (hplain : v.Plain)
    (h : c.Document v) (hdigits : AgentCard.TimeoutInDigits v) :
    cardSchema v ↔ validatePositiveJSONInteger c.limits.maxInputBytes = none
      ∧ validatePositiveJSONInteger c.limits.maxOutputBytes = none ∧ c.Schema := by
  rw [AgentCard.schema_iff]
  refine (closedSchema_iff_part hplain h (by rfl)).trans ?_
  have hparts := h.part
  simp only [List.forall_mem_singleton, List.forall_mem_cons] at hparts ⊢
  obtain ⟨hschemaVersion, hagentID, hname, hdescription, howner, hversion, hprotocol, hskills,
    hauthentication, hpermissions, hlimits⟩ := hparts
  have hskill := hskills.items_iff (S := skillSchema) (P := AgentSkill.Schema)
    fun items hitems s w hw hdocument =>
      hdocument.schema_iff (Value.Plain.item (hitems ▸ hplain.part "skills") hw)
  have hpermission := hpermissions.items_iff (S := permissionSchema)
    (P := PermissionDeclaration.Schema) fun items hitems p w hw hdocument =>
      hdocument.schema_iff (Value.Plain.item (hitems ▸ hplain.part "permissions") hw)
  have hwritten := h.part_of_properties hdigits List.mem_cons_self (by simp)
  simp only [Schema.const, hschemaVersion.equal_iff, hagentID.safeIdentifier_iff,
    hname.boundedText_iff, hdescription.boundedText_iff, howner.schema_iff (hplain.part _),
    hversion.semver_iff, hprotocol.schema_iff (hplain.part _),
    hauthentication.schema_iff (hplain.part _), hlimits.schema_iff (hplain.part _) hwritten,
    Schema.allOf, List.forall_mem_singleton, List.forall_mem_cons, hskills.isArray,
    hskills.minItems_iff, hskill, hpermissions.isArray, hpermission, true_and]
  tauto

end Card

/-! ## The card of a document -/

theorem isText_str (h : Schema.type .string v) : IsText v.str v := by
  obtain ⟨raw, rfl⟩ := h
  exact ⟨raw, rfl, rfl⟩

theorem isText_of_allOf {schemas : List Json.Schema}
    (h : Schema.allOf (.type .string :: schemas) v) :
    IsText v.str v :=
  isText_str (h _ List.mem_cons_self)

theorem isText_of_equal {constant : String} (h : Equal v (ofString constant)) : IsText v.str v := by
  rw [ofString] at h
  cases h with
  | string => exact ⟨_, rfl, rfl⟩

theorem isText_of_enum {constants : List String} (h : Schema.enum (constants.map ofString) v) :
    IsText v.str v := by
  obtain ⟨_, hmem, hequal⟩ := h
  obtain ⟨constant, -, rfl⟩ := List.mem_map.mp hmem
  exact isText_of_equal hequal

theorem exists_isMap (hplain : v.Plain) (h : Schema.type .object v) : ∃ schema, IsMap schema v := by
  obtain ⟨members, rfl⟩ := h
  exact ⟨_, isMap_interfaceMembers hplain⟩

theorem exists_isSlice {S : Json.Schema} (harray : Schema.type .array v) (hitems : Schema.items S v)
    (hitem : ∀ items, v = .array items → ∀ w ∈ items, S w → ∃ a, item a w) :
    ∃ slice, IsSlice item slice v := by
  obtain ⟨items, rfl⟩ := harray
  have hall : ∀ w ∈ items, ∃ a, item a w := fun w hw => hitem items rfl w hw (hitems items rfl w hw)
  obtain ⟨as, has⟩ : ∃ as, List.Forall₂ item as items := by
    clear hitems hitem
    induction items with
    | nil => exact ⟨[], .nil⟩
    | cons w items ih =>
        obtain ⟨⟨a, ha⟩, hrest⟩ := List.forall_mem_cons.mp hall
        obtain ⟨as, has⟩ := ih hrest
        exact ⟨a :: as, .cons ha has⟩
  exact ⟨some as, as, items, rfl, rfl, has⟩

/-- The parts of a document that a closed schema accepts. -/
theorem closedSchema.part {parts : List (String × Json.Schema)} (hplain : v.Plain)
    (h : closedSchema parts v) : ∀ p ∈ parts, p.2 (v.part p.1) :=
  ((closedSchema_iff hplain).mp h).part

theorem closedSchema.document {parts documents : List (String × Json.Schema)} (hplain : v.Plain)
    (h : closedSchema parts v) (hsame : documents.map Prod.fst = parts.map Prod.fst)
    (hparts : ∀ p ∈ documents, p.2 (v.part p.1)) : ObjectWith documents v :=
  (((closedSchema_iff hplain).mp h).iff_part hsame).mpr hparts

theorem ownerSchema.exists_document (hplain : v.Plain) (h : ownerSchema v) :
    ∃ o : AgentOwner, o.Document v := by
  refine ⟨⟨(v.part "id").str, (v.part "displayName").str⟩, closedSchema.document hplain h rfl ?_⟩
  have hparts := closedSchema.part hplain h
  simp only [List.forall_mem_singleton, List.forall_mem_cons] at hparts ⊢
  exact ⟨isText_of_allOf hparts.1, isText_of_allOf hparts.2⟩

theorem permissionSchema.exists_document (hplain : v.Plain) (h : permissionSchema v) :
    ∃ p : PermissionDeclaration, p.Document v := by
  refine ⟨⟨(v.part "id").str, (v.part "description").str⟩, closedSchema.document hplain h rfl ?_⟩
  have hparts := closedSchema.part hplain h
  simp only [List.forall_mem_singleton, List.forall_mem_cons] at hparts ⊢
  exact ⟨isText_of_allOf hparts.1, isText_of_allOf hparts.2⟩

theorem authenticationSchema.exists_document (hplain : v.Plain) (h : authenticationSchema v) :
    ∃ a : AgentAuthentication, a.Document v := by
  refine ⟨⟨(v.part "type").str⟩, closedSchema.document hplain h rfl ?_⟩
  have hparts := closedSchema.part hplain h
  rw [List.forall_mem_singleton] at hparts ⊢
  exact isText_of_enum hparts

theorem limitsSchema.exists_document (hplain : v.Plain) (h : limitsSchema v) :
    ∃ l : AgentLimits, l.Document v := by
  have hparts := closedSchema.part hplain h
  simp only [List.forall_mem_singleton, List.forall_mem_cons, Schema.allOf] at hparts
  obtain ⟨⟨⟨timeout, htimeout, k, hk⟩, -⟩, ⟨⟨input, hinput, -⟩, -⟩, ⟨⟨output, houtput, -⟩, -⟩,
    streaming, hstreaming⟩ := hparts
  refine ⟨⟨k, input.text, output.text, streaming⟩, closedSchema.document hplain h rfl ?_⟩
  simp only [List.forall_mem_singleton, List.forall_mem_cons]
  exact ⟨⟨timeout, htimeout, hk⟩, hinput, houtput, hstreaming⟩

theorem skillSchema.exists_document (hplain : v.Plain) (h : skillSchema v) :
    ∃ s : AgentSkill, s.Document v := by
  have hparts := closedSchema.part hplain h
  simp only [List.forall_mem_singleton, List.forall_mem_cons, Schema.allOf] at hparts
  obtain ⟨hid, hname, hdescription, hinput, houtput, harray, -, hitems⟩ := hparts
  obtain ⟨input, hinput⟩ := exists_isMap (hplain.part _) hinput
  obtain ⟨output, houtput⟩ := exists_isMap (hplain.part _) houtput
  obtain ⟨permissions, hpermissions⟩ := exists_isSlice harray hitems
    fun _ _ w _ hw => ⟨w.str, isText_of_allOf hw⟩
  refine ⟨⟨(v.part "id").str, (v.part "name").str, (v.part "description").str, input, output,
    permissions⟩, closedSchema.document hplain h rfl ?_⟩
  simp only [List.forall_mem_singleton, List.forall_mem_cons]
  exact ⟨isText_of_allOf hid, isText_of_allOf hname, isText_of_allOf hdescription, hinput, houtput,
    hpermissions⟩

/-- The rules of `semantic-rules.md`, on a document. -/
structure CardRules (v : Json.Value) : Prop where
  uniqueSkillIDs : ((v.part "skills").elements.map fun s => (s.part "id").str).Nodup
  uniquePermissionIDs : ((v.part "permissions").elements.map fun p => (p.part "id").str).Nodup
  requiredPermissionDeclared : ∀ s ∈ (v.part "skills").elements,
    ∀ p ∈ (s.part "requiredPermissions").elements,
      p.str ∈ (v.part "permissions").elements.map fun p => (p.part "id").str

theorem IsText.str_eq {s : String} (h : IsText s v) : v.str = s := by
  obtain ⟨raw, rfl, rfl⟩ := h
  rfl

theorem IsSlice.map_elements (h : IsSlice item slice v) {β : Type} {f : Json.Value → β} {g : α → β}
    (hitem : ∀ a w, item a w → f w = g a) : v.elements.map f = (slice.getD []).map g := by
  obtain ⟨as, vs, rfl, rfl, hall⟩ := h
  refine List.forall₂_eq_eq_eq ▸ ?_
  rw [List.forall₂_map_left_iff, List.forall₂_map_right_iff]
  exact hall.flip.imp fun w a haw => hitem a w haw

theorem IsSlice.forall_elements_iff (h : IsSlice item slice v) {P : Json.Value → Prop}
    {Q : α → Prop} (hitem : ∀ a w, item a w → (P w ↔ Q a)) :
    (∀ w ∈ v.elements, P w) ↔ ∀ a ∈ slice.getD [], Q a := by
  obtain ⟨as, vs, rfl, rfl, hall⟩ := h
  exact (forall_mem_iff_of_forall₂ (hall.imp fun a w haw => (hitem a w haw).symm)).symm

theorem AgentCard.Document.rules_iff {c : AgentCard} (h : c.Document v) :
    CardRules v ↔ c.Rules := by
  have hparts := h.part
  simp only [List.forall_mem_singleton, List.forall_mem_cons] at hparts
  obtain ⟨-, -, -, -, -, -, -, hskills, -, hpermissions, -⟩ := hparts
  have hskillIDs : (v.part "skills").elements.map (fun s => (s.part "id").str) =
      (c.skills.getD []).map AgentSkill.id :=
    hskills.map_elements fun s w hs => (hs.part ("id", IsText s.id) (by simp)).str_eq
  have hpermissionIDs : (v.part "permissions").elements.map (fun p => (p.part "id").str) =
      (c.permissions.getD []).map PermissionDeclaration.id :=
    hpermissions.map_elements fun p w hp => (hp.part ("id", IsText p.id) (by simp)).str_eq
  have hdeclared : (∀ s ∈ (v.part "skills").elements, ∀ p ∈ (s.part "requiredPermissions").elements,
        p.str ∈ (c.permissions.getD []).map PermissionDeclaration.id) ↔
      ∀ s ∈ c.skills.getD [], ∀ p ∈ s.requiredPermissions.getD [],
        p ∈ (c.permissions.getD []).map PermissionDeclaration.id := by
    refine hskills.forall_elements_iff fun s w hs => ?_
    have hrequired :=
      hs.part ("requiredPermissions", IsSlice IsText s.requiredPermissions) (by simp)
    exact hrequired.forall_elements_iff fun p x hp => by rw [hp.str_eq]
  constructor
  · rintro ⟨huniqueSkill, huniquePermission, hrequired⟩
    rw [hpermissionIDs] at huniquePermission hrequired
    exact ⟨hskillIDs ▸ huniqueSkill, huniquePermission, hdeclared.mp hrequired⟩
  · rintro ⟨huniqueSkill, huniquePermission, hrequired⟩
    rw [← hpermissionIDs] at huniquePermission
    refine ⟨hskillIDs ▸ huniqueSkill, huniquePermission, ?_⟩
    rw [hpermissionIDs]
    exact hdeclared.mpr hrequired

section ExistsDocument

variable [CardFormats]

theorem protocolSchema.exists_document (hplain : v.Plain) (h : protocolSchema v) :
    ∃ p : AgentProtocol, p.Document v := by
  refine ⟨⟨(v.part "type").str, (v.part "version").str, (v.part "transport").str,
    (v.part "endpoint").str⟩, closedSchema.document hplain h rfl ?_⟩
  have hparts := closedSchema.part hplain h
  simp only [List.forall_mem_singleton, List.forall_mem_cons] at hparts ⊢
  obtain ⟨htype, hversion, htransport, hendpoint⟩ := hparts
  exact ⟨isText_of_equal htype, isText_of_equal hversion, isText_of_equal htransport,
    isText_of_allOf hendpoint⟩

/-- What the schema accepts is the document of a card. -/
theorem cardSchema.exists_document (hplain : v.Plain) (h : cardSchema v) :
    ∃ c : AgentCard, c.Document v := by
  have hparts := closedSchema.part hplain h
  simp only [List.forall_mem_singleton, List.forall_mem_cons, Schema.allOf] at hparts
  obtain ⟨hschemaVersion, hagentID, hname, hdescription, howner, hversion, hprotocol,
    ⟨hskillArray, -, hskillItems⟩, hauthentication, ⟨hpermissionArray, hpermissionItems⟩,
    hlimits⟩ := hparts
  obtain ⟨owner, howner⟩ := ownerSchema.exists_document (hplain.part _) howner
  obtain ⟨protocol, hprotocol⟩ := protocolSchema.exists_document (hplain.part _) hprotocol
  obtain ⟨skills, hskills⟩ := exists_isSlice hskillArray hskillItems fun items hitems w hw =>
    skillSchema.exists_document (Value.Plain.item (hitems ▸ hplain.part "skills") hw)
  obtain ⟨authentication, hauthentication⟩ :=
    authenticationSchema.exists_document (hplain.part _) hauthentication
  obtain ⟨permissions, hpermissions⟩ := exists_isSlice hpermissionArray hpermissionItems
    fun items hitems w hw =>
      permissionSchema.exists_document (Value.Plain.item (hitems ▸ hplain.part "permissions") hw)
  obtain ⟨limits, hlimits⟩ := limitsSchema.exists_document (hplain.part _) hlimits
  refine ⟨⟨(v.part "schemaVersion").str, (v.part "agentId").str, (v.part "name").str,
    (v.part "description").str, owner, (v.part "version").str, protocol, skills, authentication,
    permissions, limits⟩, closedSchema.document hplain h rfl ?_⟩
  simp only [List.forall_mem_singleton, List.forall_mem_cons]
  exact ⟨isText_of_equal hschemaVersion, isText_of_allOf hagentID, isText_of_allOf hname,
    isText_of_allOf hdescription, howner, isText_of_allOf hversion, hprotocol, hskills,
    hauthentication, hpermissions, hlimits⟩

end ExistsDocument

/-! ## Quoted limits -/

theorem RawLimits.separate : Separate RawLimits.slots :=
  ⟨by simp [slots], by simp [slots, Slot.Apart], by decide⟩

theorem RawLimits.complete : Complete RawLimits.slots := by
  rintro ⟨⟩ ⟨⟩ h
  simpa [slots] using h

theorem RawLimits.documentSeparate : Separate RawLimits.documentSlots :=
  ⟨by simp [documentSlots], by simp [documentSlots], by decide⟩

theorem RawLimits.documentComplete : Complete RawLimits.documentSlots := by
  intro s s' h
  simpa [documentSlots] using h

theorem exact_of_subset {names names' : List String} (h : Exact names members)
    (hsubset : ∀ name ∈ names', name ∈ names) : Exact names' members :=
  fun m hm name hname => h m hm name (hsubset name hname)

theorem holds_raw_iff {x : Option Json.Value} :
    Holds RawLimits.decodeRaw given none x ↔ x = given := by
  cases given with
  | none => exact Iff.rfl
  | some v => simp [Holds, RawLimits.decodeRaw, eq_comm]

theorem RawLimits.decode_eq (hplain : (Json.Value.object members).Plain)
    (hnames : AgentLimits.names (.object members)) :
    decodeStruct false RawLimits.fields (.object members) ⟨none, none⟩ =
      some ⟨member members "maxInputBytes", member members "maxOutputBytes"⟩ := by
  have hexact : Exact (RawLimits.slots.map Slot.name) members :=
    exact_of_subset (exact_of_declared (by decide) (hnames members rfl)) (by decide)
  refine (RawLimits.separate.decodeStruct_exact_iff RawLimits.complete hplain.nodup hexact).mpr
    ⟨?_, nofun⟩
  simp only [RawLimits.slots, List.forall_mem_singleton, List.forall_mem_cons]
  exact ⟨holds_raw_iff.mpr rfl, holds_raw_iff.mpr rfl⟩

theorem RawLimits.quoted_eq_false_iff :
    RawLimits.quoted given = false ↔ ∀ w, given = some w → ∀ raw, w ≠ .string raw := by
  cases given with
  | none => simp [RawLimits.quoted]
  | some v => cases v <;> simp [RawLimits.quoted]

theorem unquoted_object_iff (hplain : (Json.Value.object members).Plain) :
    AgentLimits.Unquoted (.object members) ↔
      RawLimits.quoted (member members "maxInputBytes") = false
        ∧ RawLimits.quoted (member members "maxOutputBytes") = false := by
  rw [RawLimits.quoted_eq_false_iff, RawLimits.quoted_eq_false_iff]
  constructor
  · intro h
    exact ⟨fun w hw => Schema.properties_member h List.mem_cons_self hw,
      fun w hw => Schema.properties_member h (List.mem_cons_of_mem _ List.mem_cons_self) hw⟩
  · rintro ⟨hinput, houtput⟩ _ ⟨⟩
    have hmember := fun m hm name hname =>
      (@member_eq_some_iff members hplain.nodup name m.2).mpr ⟨m, hm, hname, rfl⟩
    simp only [List.forall_mem_singleton, List.forall_mem_cons]
    exact ⟨fun m hm hname => hinput m.2 (hmember m hm _ hname),
      fun m hm hname => houtput m.2 (hmember m hm _ hname)⟩

/-- The check of the quoted limits, on a card under its own names. -/
theorem rejectQuoted_iff {limits : List (Bytes × Json.Value)}
    (hplain : (Json.Value.object members).Plain) (hnames : AgentCard.names (.object members))
    (hlimits : member members "limits" = some (.object limits)) :
    rejectQuotedAgentCardLimitValues (.object members) = .ok () ↔
      AgentLimits.Unquoted (.object limits) := by
  have hexact : Exact (RawLimits.documentSlots.map Slot.name) members :=
    exact_of_subset (exact_of_declared (by decide) (hnames _ List.mem_cons_self members rfl))
      (by decide)
  have hdecode : decodeStruct false RawLimits.documentFields (.object members) ⟨none, none⟩ =
      some ⟨member limits "maxInputBytes", member limits "maxOutputBytes"⟩ := by
    refine (RawLimits.documentSeparate.decodeStruct_exact_iff RawLimits.documentComplete
      hplain.nodup
      hexact).mpr ⟨?_, nofun⟩
    rw [RawLimits.documentSlots, List.forall_mem_singleton]
    have hholds : Holds (decodeStruct false RawLimits.fields) (member members "limits") ⟨none, none⟩
        ⟨member limits "maxInputBytes", member limits "maxOutputBytes"⟩ := by
      rw [hlimits]
      exact RawLimits.decode_eq (hplain.member hlimits)
        ((AgentCard.partNames hnames).limits _ hlimits)
    exact hholds
  rw [rejectQuotedAgentCardLimitValues, hdecode, unquoted_object_iff (hplain.member hlimits)]
  simp only [check_bind_ok_iff, require_ok_iff]

theorem AgentLimits.Document.unquoted {l : AgentLimits} (hplain : (Json.Value.object members).Plain)
    (h : l.Document (.object members)) : AgentLimits.Unquoted (.object members) := by
  obtain ⟨_, heq, -, hparts⟩ := h
  cases heq
  simp only [List.forall_mem_cons] at hparts
  obtain ⟨-, ⟨_, hinput, rfl⟩, ⟨_, houtput, rfl⟩, -⟩ := hparts
  rw [unquoted_object_iff hplain, hinput, houtput]
  exact ⟨rfl, rfl⟩

/-! ## Agreement -/

theorem limitsSchema.streamingGiven (h : limitsSchema v) : AgentLimits.StreamingGiven v := by
  simp only [AgentLimits.StreamingGiven, Schema.allOf, List.forall_mem_singleton,
    List.forall_mem_cons]
  constructor
  · rintro members rfl name hname
    obtain rfl := List.mem_singleton.mp hname
    exact (closedSchema.parts h).2.1 members rfl "streaming" (by simp)
  · rintro members rfl p hp m hm hname
    obtain rfl := List.mem_singleton.mp hp
    exact (closedSchema.parts h).2.2 ("streaming", .type .boolean) (by simp) m hm hname

section Agreement

variable [CardFormats]

/-- The bytes are a document that satisfies the schema and the rules. -/
def Conforms (data : Bytes) : Prop :=
  ∃ limit v, Json.read limit data = some v ∧ Json.distinctMembers v = true ∧ cardSchema v
    ∧ CardRules v

/-- The decoder accepts the documents that conform, and gives their card. -/
def Agrees (data : Bytes) : Prop :=
  ((∃ c, decodeAgentCard data = .ok c) ↔ Conforms data)
    ∧ ∀ c v, decodeAgentCard data = .ok c → Json.read Json.maxNestingDepth data = some v →
      c.Document v

/-- The card is written as its schema says: each member under its own name,
and `streaming` with a value. -/
def AgentCard.Written : Json.Schema :=
  .allOf [AgentCard.names, .properties [("limits", AgentLimits.StreamingGiven)]]

/-- The document is one that the decoder reads as the schema does: it is not
nested too deep, is written as the schema says and has its timeout in
digits. -/
def Regular (data : Bytes) : Prop :=
  ∀ limit v, Json.read limit data = some v → Json.read Json.maxNestingDepth data = some v
    ∧ AgentCard.Written v ∧ AgentCard.TimeoutInDigits v

variable {v : Json.Value} {c : AgentCard}

theorem cardSchema.written (h : cardSchema v) : AgentCard.Written v := by
  have hnames := closedSchema.noAdditional h
  simp only [AgentCard.Written, AgentCard.names, Schema.allOf, List.forall_mem_singleton,
    List.forall_mem_cons]
  refine ⟨⟨hnames, ?_⟩, ?_⟩
  · rintro members rfl
    obtain ⟨-, -, hparts⟩ := closedSchema.parts h
    simp only [List.forall_mem_singleton, List.forall_mem_cons, Schema.allOf] at hparts ⊢
    obtain ⟨-, -, -, -, howner, -, hprotocol, hskills, hauthentication, hpermissions, hlimits⟩ :=
      hparts
    exact ⟨fun m hm hname => closedSchema.noAdditional (howner m hm hname),
      fun m hm hname => closedSchema.noAdditional (hprotocol m hm hname),
      fun m hm hname => items_imp (hskills m hm hname).2.2 fun _ => closedSchema.noAdditional,
      fun m hm hname => closedSchema.noAdditional (hauthentication m hm hname),
      fun m hm hname => items_imp (hpermissions m hm hname).2 fun _ => closedSchema.noAdditional,
      fun m hm hname => closedSchema.noAdditional (hlimits m hm hname)⟩
  · rintro members rfl p hp m hm hname
    obtain rfl := List.mem_singleton.mp hp
    exact limitsSchema.streamingGiven
      ((closedSchema.parts h).2.2 ("limits", limitsSchema) (by simp) m hm hname)

theorem validateAgentCard_ok_iff :
    validateAgentCard c = .ok () ↔ (validatePositiveJSONInteger c.limits.maxInputBytes = none
      ∧ validatePositiveJSONInteger c.limits.maxOutputBytes = none ∧ c.Schema) ∧ c.Rules := by
  have hlimit : ∀ path text, requireLimit path text = .ok () ↔
      validatePositiveJSONInteger text = none := by
    intro path text
    unfold requireLimit
    cases validatePositiveJSONInteger text <;> simp
  simp only [validateAgentCard, check_bind_ok_iff, require_ok_iff, hlimit,
    evaluateAgentCardSemantics_eq_nil_iff, and_assoc]

theorem AgentCard.sound_limits (h : validateAgentCard c = .ok ()) : c.limits.Sound := by
  obtain ⟨hinput, houtput, hschema, -⟩ := validateAgentCard_ok h
  exact ⟨hschema.timeoutMS, hinput, houtput⟩

/-- A card that is accepted and written as its schema says. -/
theorem decodeAgentCard_document {data : Bytes} (h : decodeAgentCard data = .ok c)
    (hread : Json.read Json.maxNestingDepth data = some v) (hwritten : AgentCard.Written v) :
    (Json.distinctMembers v = true ∧ cardSchema v) ∧ c.Document v ∧ c.Rules
      ∧ AgentCard.TimeoutInDigits v := by
  obtain ⟨v', var, hread', hdistinct, hquoted, hdecode, hvalid, rfl⟩ :=
    decodeAgentCard_eq_ok_iff.mp h
  rw [hread] at hread'
  cases hread'
  simp only [AgentCard.Written, Schema.allOf, List.forall_mem_singleton,
    List.forall_mem_cons] at hwritten
  obtain ⟨hnames, hstreaming⟩ := hwritten
  have hplain : v.Plain := ⟨⟨_, wellFormed_of_read hread⟩, hdistinct⟩
  obtain ⟨hvar, hdigits⟩ := AgentCard.of_decode hplain hnames
    (AgentCard.sound_limits hvalid) hdecode
  have hunquoted : AgentCard.Unquoted v := by
    rintro members rfl p hp m hm hname
    obtain rfl := List.mem_singleton.mp hp
    rintro limits hlimits
    have hmember := (member_eq_some_iff hplain.nodup).mpr ⟨m, hm, hname, hlimits⟩
    exact (rejectQuoted_iff hplain hnames hmember).mp hquoted limits rfl
  obtain ⟨hcontract, hrules⟩ := validateAgentCard_ok_iff.mp hvalid
  rw [← hvar] at hdecode
  have hdocument := (AgentCard.decode_iff hplain hnames hstreaming hunquoted hdigits hcontract.2.2
    (AgentCard.sound_limits hvalid)).mp hdecode
  exact ⟨⟨hdistinct, (hdocument.schema_iff hplain hdigits).mpr hcontract⟩, hdocument,
    hrules, hdigits⟩

/-- A document that conforms is read if it is not too deep and its timeout
is written in digits. -/
theorem decodeAgentCard_of_document {data : Bytes}
    (hread : Json.read Json.maxNestingDepth data = some v)
    (hdistinct : Json.distinctMembers v = true) (hschema : cardSchema v) (hdocument : c.Document v)
    (hrules : c.Rules) (hdigits : AgentCard.TimeoutInDigits v) : decodeAgentCard data = .ok c := by
  have hplain : v.Plain := ⟨⟨_, wellFormed_of_read hread⟩, hdistinct⟩
  have hwritten := cardSchema.written hschema
  simp only [AgentCard.Written, Schema.allOf, List.forall_mem_singleton,
    List.forall_mem_cons] at hwritten
  obtain ⟨hnames, hstreaming⟩ := hwritten
  have hcontract := (hdocument.schema_iff hplain hdigits).mp hschema
  have hvalid : validateAgentCard c = .ok () := validateAgentCard_ok_iff.mpr ⟨hcontract, hrules⟩
  obtain ⟨members, rfl, -, hparts⟩ := id hdocument
  obtain ⟨w, hw, hlimitsDocument⟩ := hparts ("limits", c.limits.Document) (by simp)
  obtain ⟨limits, rfl, -⟩ := id hlimitsDocument
  have hlimits := AgentLimits.Document.unquoted (hplain.member hw) hlimitsDocument
  have hunquoted : AgentCard.Unquoted (.object members) := by
    rintro _ ⟨⟩ p hp m hm hname
    obtain rfl := List.mem_singleton.mp hp
    rw [(member_eq_some_iff hplain.nodup).mpr ⟨m, hm, hname, rfl⟩] at hw
    rw [Option.some.inj hw]
    exact hlimits
  have hdecode := (AgentCard.decode_iff hplain hnames hstreaming hunquoted hdigits hcontract.2.2
    (AgentCard.sound_limits hvalid)).mpr hdocument
  refine decodeAgentCard_eq_ok_iff.mpr ⟨_, c.var, hread, hdistinct,
    (rejectQuoted_iff hplain hnames hw).mpr hlimits, hdecode, ?_, c.card_var⟩
  rw [c.card_var]
  exact hvalid

theorem agrees_of_regular {data : Bytes} (h : Regular data) : Agrees data := by
  refine ⟨⟨?_, ?_⟩, ?_⟩
  · rintro ⟨c, hok⟩
    obtain ⟨v, -, hread, -⟩ := decodeAgentCard_eq_ok_iff.mp hok
    obtain ⟨⟨hdistinct, hschema⟩, hdocument, hrules, -⟩ :=
      decodeAgentCard_document hok hread (h _ v hread).2.1
    exact ⟨_, v, hread, hdistinct, hschema, hdocument.rules_iff.mpr hrules⟩
  · rintro ⟨limit, v, hread, hdistinct, hschema, hrules⟩
    obtain ⟨hread', -, hdigits⟩ := h limit v hread
    obtain ⟨c, hdocument⟩ :=
      cardSchema.exists_document ⟨⟨_, wellFormed_of_read hread⟩, hdistinct⟩ hschema
    exact ⟨c, decodeAgentCard_of_document hread' hdistinct hschema hdocument
      (hdocument.rules_iff.mp hrules) hdigits⟩
  · intro c v hok hread
    exact (decodeAgentCard_document hok hread (h _ v hread).2.1).2.1

/-- Where they agree to accept, the document is regular. -/
theorem regular_of_agrees {data : Bytes} (h : Agrees data) (hok : decodeAgentCard data = .ok c) :
    Regular data := by
  obtain ⟨v, -, hread, -⟩ := decodeAgentCard_eq_ok_iff.mp hok
  obtain ⟨limit, v', hread', -, hschema, -⟩ := h.1.mp ⟨c, hok⟩
  obtain rfl := read_unique hread hread'
  have hwritten := cardSchema.written hschema
  intro _ w hw
  obtain rfl := read_unique hread hw
  exact ⟨hread, hwritten, (decodeAgentCard_document hok hread hwritten).2.2.2⟩

end Agreement

/-! ## A card without `streaming` -/

/-- The limits of the document, if it has such. -/
def limitsMembers : Json.Value → List (Bytes × Json.Value)
  | .object members => match member members "limits" with
    | some (.object limits) => limits
    | _ => []
  | _ => []

theorem streaming_of_written (hplain : v.Plain) (h : AgentCard.Written v)
    (hlimits : limitsMembers v ≠ []) : (member (limitsMembers v) "streaming").isSome = true := by
  revert hlimits
  fun_cases limitsMembers v with
  | case1 members limits hmember =>
      intro _
      have hgiven := Schema.properties_member (h _ (List.mem_cons_of_mem _ List.mem_cons_self))
        List.mem_cons_self hmember
      obtain ⟨b, hb⟩ := member_of_streamingGiven (hplain.member hmember) hgiven
      rw [hb]
      rfl
  | case2 => exact fun hlimits => absurd rfl hlimits
  | case3 => exact fun hlimits => absurd rfl hlimits

namespace Unstreamed

def card : AgentCard where
  schemaVersion := "0.2"
  agentID := "weather"
  name := "Weather"
  description := "Forecasts"
  owner := ⟨"acme", "Acme"⟩
  version := "1.0.0"
  protocol := ⟨"a2a", "0.3.0", "JSONRPC", "https://a.b/"⟩
  skills := some [⟨"now", "Now", "The weather", some [], some [], some []⟩]
  authentication := ⟨"none"⟩
  permissions := some []
  limits := ⟨1000, [0x31], [0x31], false⟩

def dropStreaming : Json.Value → Json.Value
  | .object members => .object (members.map fun m =>
      (m.1, match m.2 with
        | .object limits => .object (limits.filter fun m => unquote m.1 ≠ "streaming")
        | w => w))
  | v => v

/-- The document of the card, without the member. -/
def data : Bytes := (card.value.map fun v => (dropStreaming v).text).getD []

local instance : CardFormats := ⟨fun _ => true, fun _ => true⟩

theorem accepted : (decodeAgentCard data).toOption.isSome = true := by decide +kernel

theorem unstreamed : ((Json.read Json.maxNestingDepth data).any fun v =>
    !(limitsMembers v).isEmpty && (member (limitsMembers v) "streaming").isNone) = true := by
  decide +kernel

end Unstreamed

end Nekiro
