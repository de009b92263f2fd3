import Nekiro.JsonStruct

/-!
# Agent Cards

`contracts.AgentCard`, the JSON that `json.Marshal` writes for it and the
decoding that reads a stored card back. A `JSONSchema` is the map of its
members, a `json.Number` its text; a `nil` slice or map is `none`.

The variable that a card is decoded into remembers more than the card (the
cells behind a slice), so it has a type of its own, `AgentCard.Var`; the
two differ only there. A card that came out of the decoder can be written
(`Encodable`) and the decoder reads the same card from what was written
(`decodeStored_marshal`).
-/

namespace Nekiro

open Json

structure AgentOwner where
  id : String
  displayName : String
deriving Repr, DecidableEq

structure AgentProtocol where
  type : String
  version : String
  transport : String
  endpoint : String
deriving Repr, DecidableEq

/-- The members of a map of type `map[string]any`, by name. -/
abbrev JSONSchema := List (String × Json.Value)

structure AgentSkill where
  id : String
  name : String
  description : String
  inputSchema : Option JSONSchema
  outputSchema : Option JSONSchema
  requiredPermissions : Option (List String)
deriving Repr

structure AgentAuthentication where
  type : String
deriving Repr, DecidableEq

structure PermissionDeclaration where
  id : String
  description : String
deriving Repr, DecidableEq

structure AgentLimits where
  timeoutMS : Int
  maxInputBytes : Json.Bytes
  maxOutputBytes : Json.Bytes
  streaming : Bool
deriving Repr, DecidableEq

structure AgentCard where
  schemaVersion : String
  agentID : String
  name : String
  description : String
  owner : AgentOwner
  version : String
  protocol : AgentProtocol
  skills : Option (List AgentSkill)
  authentication : AgentAuthentication
  permissions : Option (List PermissionDeclaration)
  limits : AgentLimits
deriving Repr

/-! ## Encoding -/

/-- A slice or map: `null` if it is `nil`. -/
def ofOption {α : Type} (encode : α → Json.Value) : Option α → Json.Value
  | none => .null
  | some a => encode a

def ofSlice {α : Type} (encode : α → Json.Value) : Option (List α) → Json.Value :=
  ofOption fun items => .array (items.map encode)

def AgentOwner.value (o : AgentOwner) : Json.Value :=
  objectOf [("id", ofString o.id), ("displayName", ofString o.displayName)]

def AgentProtocol.value (p : AgentProtocol) : Json.Value :=
  objectOf [("type", ofString p.type), ("version", ofString p.version),
    ("transport", ofString p.transport), ("endpoint", ofString p.endpoint)]

def AgentSkill.value (s : AgentSkill) : Json.Value :=
  objectOf [("id", ofString s.id), ("name", ofString s.name),
    ("description", ofString s.description), ("inputSchema", ofOption objectOf s.inputSchema),
    ("outputSchema", ofOption objectOf s.outputSchema),
    ("requiredPermissions", ofSlice ofString s.requiredPermissions)]

def AgentAuthentication.value (a : AgentAuthentication) : Json.Value :=
  objectOf [("type", ofString a.type)]

def PermissionDeclaration.value (p : PermissionDeclaration) : Json.Value :=
  objectOf [("id", ofString p.id), ("description", ofString p.description)]

def AgentLimits.value (l : AgentLimits) : Option Json.Value := do
  let maxInputBytes ← ofNumber l.maxInputBytes
  let maxOutputBytes ← ofNumber l.maxOutputBytes
  pure (objectOf [("timeoutMs", ofInt l.timeoutMS), ("maxInputBytes", maxInputBytes),
    ("maxOutputBytes", maxOutputBytes), ("streaming", .bool l.streaming)])

def AgentCard.value (c : AgentCard) : Option Json.Value := do
  let limits ← c.limits.value
  pure (objectOf [("schemaVersion", ofString c.schemaVersion), ("agentId", ofString c.agentID),
    ("name", ofString c.name), ("description", ofString c.description), ("owner", c.owner.value),
    ("version", ofString c.version), ("protocol", c.protocol.value),
    ("skills", ofSlice AgentSkill.value c.skills), ("authentication", c.authentication.value),
    ("permissions", ofSlice PermissionDeclaration.value c.permissions), ("limits", limits)])

/-- `json.Marshal(card)`. -/
def AgentCard.marshal (c : AgentCard) : Option Json.Bytes := c.value.map Json.Value.text

/-! ## Decoding -/

/-- A variable of type `AgentSkill`. -/
structure AgentSkill.Var where
  id : String
  name : String
  description : String
  inputSchema : Option JSONSchema
  outputSchema : Option JSONSchema
  requiredPermissions : SliceVar String

namespace AgentSkill.Var

def zero : AgentSkill.Var := ⟨"", "", "", none, none, .zero⟩

def skill (s : AgentSkill.Var) : AgentSkill :=
  ⟨s.id, s.name, s.description, s.inputSchema, s.outputSchema, s.requiredPermissions.shown⟩

end AgentSkill.Var

/-- A variable of type `AgentCard`. -/
structure AgentCard.Var where
  schemaVersion : String
  agentID : String
  name : String
  description : String
  owner : AgentOwner
  version : String
  protocol : AgentProtocol
  skills : SliceVar AgentSkill.Var
  authentication : AgentAuthentication
  permissions : SliceVar PermissionDeclaration
  limits : AgentLimits

namespace AgentCard.Var

def zero : AgentCard.Var :=
  ⟨"", "", "", "", ⟨"", ""⟩, "", ⟨"", "", "", ""⟩, .zero, ⟨""⟩, .zero, ⟨0, [], [], false⟩⟩

def card (c : AgentCard.Var) : AgentCard :=
  ⟨c.schemaVersion, c.agentID, c.name, c.description, c.owner, c.version, c.protocol,
    c.skills.shown.map (List.map AgentSkill.Var.skill), c.authentication, c.permissions.shown,
    c.limits⟩

end AgentCard.Var

/-- Storing into a map: a `nil` one is made first. -/
def decodeSchema : Decoder (Option JSONSchema)
  | .object members, old => some (some (interfaceMembers members (old.getD [])))
  | .null, _ => some none
  | _, _ => none

def AgentOwner.slots : List (Slot AgentOwner) :=
  [⟨"id", id, fun o v => { o with id := v }, decodeString⟩,
    ⟨"displayName", displayName, fun o v => { o with displayName := v }, decodeString⟩]

def AgentOwner.fields : List (Json.Field AgentOwner) := slots.map Slot.field

def AgentProtocol.slots : List (Slot AgentProtocol) :=
  [⟨"type", type, fun p v => { p with type := v }, decodeString⟩,
    ⟨"version", version, fun p v => { p with version := v }, decodeString⟩,
    ⟨"transport", transport, fun p v => { p with transport := v }, decodeString⟩,
    ⟨"endpoint", endpoint, fun p v => { p with endpoint := v }, decodeString⟩]

def AgentProtocol.fields : List (Json.Field AgentProtocol) := slots.map Slot.field

def AgentSkill.Var.slots : List (Slot AgentSkill.Var) :=
  [⟨"id", id, fun s v => { s with id := v }, decodeString⟩,
    ⟨"name", name, fun s v => { s with name := v }, decodeString⟩,
    ⟨"description", description, fun s v => { s with description := v }, decodeString⟩,
    ⟨"inputSchema", inputSchema, fun s v => { s with inputSchema := v }, decodeSchema⟩,
    ⟨"outputSchema", outputSchema, fun s v => { s with outputSchema := v }, decodeSchema⟩,
    ⟨"requiredPermissions", requiredPermissions, fun s v => { s with requiredPermissions := v },
      decodeSlice "" decodeString⟩]

def AgentSkill.Var.fields : List (Json.Field AgentSkill.Var) := slots.map Slot.field

def AgentAuthentication.slots : List (Slot AgentAuthentication) :=
  [⟨"type", type, fun a v => { a with type := v }, decodeString⟩]

def AgentAuthentication.fields : List (Json.Field AgentAuthentication) := slots.map Slot.field

def PermissionDeclaration.slots : List (Slot PermissionDeclaration) :=
  [⟨"id", id, fun p v => { p with id := v }, decodeString⟩,
    ⟨"description", description, fun p v => { p with description := v }, decodeString⟩]

def PermissionDeclaration.fields : List (Json.Field PermissionDeclaration) := slots.map Slot.field

def AgentLimits.slots : List (Slot AgentLimits) :=
  [⟨"timeoutMs", timeoutMS, fun l v => { l with timeoutMS := v }, decodeInt64⟩,
    ⟨"maxInputBytes", maxInputBytes, fun l v => { l with maxInputBytes := v }, decodeNumber⟩,
    ⟨"maxOutputBytes", maxOutputBytes, fun l v => { l with maxOutputBytes := v }, decodeNumber⟩,
    ⟨"streaming", streaming, fun l v => { l with streaming := v }, decodeBool⟩]

def AgentLimits.fields : List (Json.Field AgentLimits) := slots.map Slot.field

/-- The decoder of a card, with `UseNumber` and `DisallowUnknownFields`. -/
def AgentCard.Var.slots : List (Slot AgentCard.Var) :=
  [⟨"schemaVersion", schemaVersion, fun c v => { c with schemaVersion := v }, decodeString⟩,
    ⟨"agentId", agentID, fun c v => { c with agentID := v }, decodeString⟩,
    ⟨"name", name, fun c v => { c with name := v }, decodeString⟩,
    ⟨"description", description, fun c v => { c with description := v }, decodeString⟩,
    ⟨"owner", owner, fun c v => { c with owner := v }, decodeStruct true AgentOwner.fields⟩,
    ⟨"version", version, fun c v => { c with version := v }, decodeString⟩,
    ⟨"protocol", protocol, fun c v => { c with protocol := v },
      decodeStruct true AgentProtocol.fields⟩,
    ⟨"skills", skills, fun c v => { c with skills := v },
      decodeSlice .zero (decodeStruct true AgentSkill.Var.fields)⟩,
    ⟨"authentication", authentication, fun c v => { c with authentication := v },
      decodeStruct true AgentAuthentication.fields⟩,
    ⟨"permissions", permissions, fun c v => { c with permissions := v },
      decodeSlice ⟨"", ""⟩ (decodeStruct true PermissionDeclaration.fields)⟩,
    ⟨"limits", limits, fun c v => { c with limits := v }, decodeStruct true AgentLimits.fields⟩]

def AgentCard.Var.fields : List (Json.Field AgentCard.Var) := slots.map Slot.field

/-- `decodeStoredCard`: one value and nothing behind it. -/
def AgentCard.decodeStored (data : Json.Bytes) : Option AgentCard := do
  let v ← Json.read Json.maxNestingDepth data
  let c ← decodeStruct true AgentCard.Var.fields v .zero
  pure c.card

/-! ## Reading back what was written -/

/-- The members of a map that the decoder has made, which can stand where
`limit` frames may still be opened. -/
def SchemaEncodable (limit : Nat) (schema : JSONSchema) : Prop :=
  Sorted schema ∧ ∀ m ∈ schema, interfaceValue m.2 = m.2 ∧ m.2.WellFormed limit

def AgentSkill.Encodable (limit : Nat) (s : AgentSkill) : Prop :=
  (∀ schema ∈ s.inputSchema, SchemaEncodable limit schema)
    ∧ ∀ schema ∈ s.outputSchema, SchemaEncodable limit schema

def AgentLimits.Encodable (l : AgentLimits) : Prop :=
  int64 l.timeoutMS = some l.timeoutMS ∧ isNumber l.maxInputBytes = true
    ∧ isNumber l.maxOutputBytes = true

/-- A card that `json.Marshal` writes and that is its own JSON. -/
structure AgentCard.Encodable (limit : Nat) (c : AgentCard) : Prop where
  skills : ∀ skills ∈ c.skills, ∀ s ∈ skills, s.Encodable limit
  limits : c.limits.Encodable

theorem decodeOwner_value (o old : AgentOwner) :
    decodeStruct true AgentOwner.fields o.value old = some o := by
  simp [AgentOwner.value, AgentOwner.fields, AgentOwner.slots, Slot.field,
    decodeStruct_objectOf, decodeMember, findField,
    Field.of, decodeString_ofString]

theorem decodeProtocol_value (p old : AgentProtocol) :
    decodeStruct true AgentProtocol.fields p.value old = some p := by
  simp [AgentProtocol.value, AgentProtocol.fields, AgentProtocol.slots, Slot.field,
    decodeStruct_objectOf, decodeMember, findField,
    Field.of, decodeString_ofString]

theorem decodeAuthentication_value (a old : AgentAuthentication) :
    decodeStruct true AgentAuthentication.fields a.value old = some a := by
  simp [AgentAuthentication.value, AgentAuthentication.fields, AgentAuthentication.slots,
    Slot.field, decodeStruct_objectOf, decodeMember,
    findField, Field.of, decodeString_ofString]

theorem decodePermission_value (p old : PermissionDeclaration) :
    decodeStruct true PermissionDeclaration.fields p.value old = some p := by
  simp [PermissionDeclaration.value, PermissionDeclaration.fields, PermissionDeclaration.slots,
    Slot.field, decodeStruct_objectOf,
    decodeMember, findField, Field.of, decodeString_ofString]

theorem ne_nil_of_isNumber {literal : Json.Bytes} (h : isNumber literal = true) : literal ≠ [] := by
  rintro rfl
  exact absurd h (by decide)

theorem ofNumber_of_isNumber {literal : Json.Bytes} (h : isNumber literal = true) :
    ofNumber literal = some (.number literal) := by
  rw [ofNumber, if_neg (ne_nil_of_isNumber h), if_pos h]

theorem AgentLimits.value_of_encodable {l : AgentLimits} (h : l.Encodable) :
    l.value = some (objectOf [("timeoutMs", ofInt l.timeoutMS),
      ("maxInputBytes", .number l.maxInputBytes), ("maxOutputBytes", .number l.maxOutputBytes),
      ("streaming", .bool l.streaming)]) := by
  rw [AgentLimits.value, ofNumber_of_isNumber h.2.1, ofNumber_of_isNumber h.2.2]
  rfl

theorem decodeLimits_value {l : AgentLimits} (h : l.Encodable) {v : Json.Value}
    (hv : l.value = some v) (old : AgentLimits) :
    decodeStruct true AgentLimits.fields v old = some l := by
  rw [AgentLimits.value_of_encodable h] at hv
  cases hv
  simp [AgentLimits.fields, AgentLimits.slots, Slot.field,
    decodeStruct_objectOf, decodeMember, findField, Field.of,
    decodeInt64_ofInt h.1, decodeNumber, decodeBool]

variable {limit : Nat} {schema : Option JSONSchema} {c : AgentCard}

theorem decodeSchema_ofOption (h : ∀ s ∈ schema, SchemaEncodable limit s) :
    decodeSchema (ofOption objectOf schema) none = some schema := by
  cases schema with
  | none => rfl
  | some members =>
      obtain ⟨hsorted, hmembers⟩ := h members rfl
      rw [ofOption, objectOf, decodeSchema, Option.getD_none,
        @interfaceMembers_of_sorted _ [] hsorted fun m hm => (hmembers m hm).1]
      rfl

/-- A slice variable that shows the items and has no others. -/
def exactSlice {α : Type} (items : Option (List α)) : SliceVar α := ⟨items, []⟩

theorem decodeSlice_ofSlice {α β : Type} {initial : α} {decode : Decoder α}
    {encode : β → Json.Value} {var : β → α} {items : Option (List β)}
    (h : ∀ bs ∈ items, ∀ b ∈ bs, decode (encode b) initial = some (var b)) :
    decodeSlice initial decode (ofSlice encode items) .zero =
      some (exactSlice (items.map (List.map var))) := by
  cases items with
  | none => rfl
  | some bs => exact decodeSlice_map encode var (h bs rfl)

/-- The variable after decoding what was written for the skill. -/
def AgentSkill.var (s : AgentSkill) : AgentSkill.Var :=
  ⟨s.id, s.name, s.description, s.inputSchema, s.outputSchema, exactSlice s.requiredPermissions⟩

theorem decodeSkill_value {s : AgentSkill} (h : s.Encodable limit) :
    decodeStruct true AgentSkill.Var.fields s.value .zero = some s.var := by
  have hpermissions : decodeSlice "" decodeString (ofSlice ofString s.requiredPermissions) .zero =
      some (exactSlice s.requiredPermissions) := by
    have hslice := @decodeSlice_ofSlice _ _ "" decodeString ofString id s.requiredPermissions
      fun _ _ b _ => decodeString_ofString b ""
    rwa [List.map_id_fun, Option.map_id_fun] at hslice
  simp [AgentSkill.value, AgentSkill.Var.fields, AgentSkill.Var.slots, Slot.field,
    decodeStruct_objectOf, decodeMember, findField,
    Field.of, decodeString_ofString, AgentSkill.Var.zero, decodeSchema_ofOption h.1,
    decodeSchema_ofOption h.2, hpermissions, AgentSkill.var]

def AgentCard.var (c : AgentCard) : AgentCard.Var :=
  ⟨c.schemaVersion, c.agentID, c.name, c.description, c.owner, c.version, c.protocol,
    exactSlice (c.skills.map (List.map AgentSkill.var)), c.authentication,
    exactSlice c.permissions, c.limits⟩

theorem AgentCard.card_var (c : AgentCard) : c.var.card = c := by
  have hskills : (c.skills.map (List.map AgentSkill.var)).map (List.map AgentSkill.Var.skill) =
      c.skills := by
    cases hskills : c.skills with
    | none => rfl
    | some skills =>
        rw [Option.map_some, Option.map_some, List.map_map]
        exact congrArg some (List.map_id skills)
  rw [AgentCard.var, AgentCard.Var.card, exactSlice, exactSlice, hskills]

theorem decodeCard_value (h : c.Encodable limit) {v : Json.Value} (hv : c.value = some v) :
    decodeStruct true AgentCard.Var.fields v .zero = some c.var := by
  simp only [AgentCard.value, Option.bind_eq_bind, Option.bind_eq_some_iff] at hv
  obtain ⟨limits, hlimits, heq⟩ := hv
  cases heq
  have hskills := @decodeSlice_ofSlice _ _ AgentSkill.Var.zero
    (decodeStruct true AgentSkill.Var.fields) AgentSkill.value AgentSkill.var c.skills
    fun skills hs s hm => decodeSkill_value (h.skills skills hs s hm)
  have hpermissions := @decodeSlice_ofSlice _ _ ⟨"", ""⟩
    (decodeStruct true PermissionDeclaration.fields) PermissionDeclaration.value id c.permissions
    fun _ _ p _ => decodePermission_value p _
  rw [List.map_id_fun, Option.map_id_fun] at hpermissions
  simp [AgentCard.Var.fields, AgentCard.Var.slots, Slot.field,
    decodeStruct_objectOf, decodeMember, findField, Field.of,
    decodeString_ofString, AgentCard.Var.zero, decodeOwner_value, decodeProtocol_value,
    decodeAuthentication_value, decodeLimits_value h.limits hlimits, hskills, hpermissions,
    AgentCard.var]

theorem wellFormed_ofSlice {α : Type} {encode : α → Json.Value} {items : Option (List α)}
    (h : ∀ as ∈ items, ∀ a ∈ as, (encode a).WellFormed limit) :
    (ofSlice encode items).WellFormed (limit + 1) := by
  cases items with
  | none => exact .null
  | some as =>
      refine .array fun v hv => ?_
      obtain ⟨a, ha, rfl⟩ := List.mem_map.mp hv
      exact h as rfl a ha

theorem wellFormed_schema (h : ∀ s ∈ schema, SchemaEncodable limit s) :
    (ofOption objectOf schema).WellFormed (limit + 1) := by
  cases schema with
  | none => exact .null
  | some members => exact wellFormed_objectOf fun m hm => ((h members rfl).2 m hm).2

theorem AgentSkill.wellFormed_value {s : AgentSkill} (h : s.Encodable limit) :
    s.value.WellFormed (limit + 2) := by
  refine wellFormed_objectOf ?_
  simp only [List.forall_mem_singleton, List.forall_mem_cons]
  refine ⟨wellFormed_ofString _ _, wellFormed_ofString _ _, wellFormed_ofString _ _,
    wellFormed_schema h.1, wellFormed_schema h.2, wellFormed_ofSlice fun _ _ _ _ =>
      wellFormed_ofString _ _⟩

/-- An object of strings. -/
theorem wellFormed_strings {limit : Nat} {members : List (String × String)} :
    (objectOf (members.map fun m => (m.1, ofString m.2))).WellFormed (limit + 1) := by
  refine wellFormed_objectOf fun m hm => ?_
  obtain ⟨p, -, rfl⟩ := List.mem_map.mp hm
  exact wellFormed_ofString _ _

theorem AgentCard.value_of_encodable (h : c.Encodable limit) :
    ∃ v, c.value = some v ∧ v.WellFormed (limit + 4) := by
  refine ⟨_, by rw [AgentCard.value, AgentLimits.value_of_encodable h.limits]; rfl, ?_⟩
  have hlimits : (objectOf [("timeoutMs", ofInt c.limits.timeoutMS),
      ("maxInputBytes", .number c.limits.maxInputBytes),
      ("maxOutputBytes", .number c.limits.maxOutputBytes),
      ("streaming", .bool c.limits.streaming)]).WellFormed (limit + 3) := by
    refine wellFormed_objectOf ?_
    simp only [List.forall_mem_singleton, List.forall_mem_cons]
    exact ⟨wellFormed_ofInt _ _, .number (isNumber_iff.mp h.limits.2.1),
      .number (isNumber_iff.mp h.limits.2.2), .bool _⟩
  refine wellFormed_objectOf ?_
  simp only [List.forall_mem_singleton, List.forall_mem_cons]
  refine ⟨wellFormed_ofString _ _, wellFormed_ofString _ _, wellFormed_ofString _ _,
    wellFormed_ofString _ _, @wellFormed_strings _ [("id", _), ("displayName", _)],
    wellFormed_ofString _ _,
    @wellFormed_strings _ [("type", _), ("version", _), ("transport", _), ("endpoint", _)],
    wellFormed_ofSlice fun skills hs s hm => AgentSkill.wellFormed_value (h.skills skills hs s hm),
    @wellFormed_strings _ [("type", _)],
    wellFormed_ofSlice fun _ _ p _ =>
      @wellFormed_strings _ [("id", p.id), ("description", p.description)],
    hlimits⟩

/-- A stored card reads back as the card that was written. -/
theorem AgentCard.decodeStored_marshal (h : c.Encodable limit)
    (hlimit : limit + 4 ≤ Json.maxNestingDepth) :
    ∃ data, c.marshal = some data ∧ AgentCard.decodeStored data = some c := by
  obtain ⟨v, hv, hwell⟩ := AgentCard.value_of_encodable h
  have hread := @Json.read_text _ _ (hwell.mono hlimit) [] (by simp)
  rw [List.append_nil] at hread
  refine ⟨v.text, by rw [AgentCard.marshal, hv]; rfl, ?_⟩
  simp only [AgentCard.decodeStored, hread, decodeCard_value h hv, Option.bind_eq_bind,
    Option.bind_some, AgentCard.card_var]
  rfl

/-! ## Cards that were decoded -/

/-- A limit that was not decoded is empty. -/
def NumberText (literal : Json.Bytes) : Prop := literal = [] ∨ isNumber literal = true

def AgentSkill.Var.Decoded (limit : Nat) (s : AgentSkill.Var) : Prop :=
  (∀ schema ∈ s.inputSchema, SchemaEncodable limit schema)
    ∧ ∀ schema ∈ s.outputSchema, SchemaEncodable limit schema

def AgentLimits.Decoded (l : AgentLimits) : Prop :=
  int64 l.timeoutMS = some l.timeoutMS ∧ NumberText l.maxInputBytes ∧ NumberText l.maxOutputBytes

def AgentCard.Var.Decoded (limit : Nat) (c : AgentCard.Var) : Prop :=
  (∀ s ∈ c.skills.cells, s.Decoded limit) ∧ c.limits.Decoded

theorem keeps_decodeSchema (limit : Nat) :
    Keeps (limit + 1) decodeSchema fun schema => ∀ s ∈ schema, SchemaEncodable limit s := by
  intro v old schema hv hold hdecode
  cases v with
  | object members =>
      cases hdecode
      rintro s ⟨⟩
      have hstored : SchemaEncodable limit (old.getD []) := by
        cases old with
        | none => exact ⟨List.Pairwise.nil, by simp⟩
        | some stored => exact hold stored rfl
      refine ⟨sorted_interfaceMembers members hstored.1, fun m hm => ?_⟩
      rcases mem_interfaceMembers hm with hm | ⟨p, hp, rfl⟩
      · exact hstored.2 m hm
      · exact ⟨interfaceValue_idem (hv.members p hp), wellFormed_interfaceValue (hv.members p hp)⟩
  | null =>
      cases hdecode
      simp
  | bool | number | string | array => cases hdecode

theorem keeps_decodeNumber (limit : Nat) : Keeps limit decodeNumber NumberText := by
  intro v old literal hv hold hdecode
  cases v with
  | number text =>
      cases hdecode
      cases hv with
      | number h => exact .inr (isNumber_iff.mpr h)
  | string raw =>
      simp only [decodeNumber, Option.ite_none_right_eq_some] at hdecode
      obtain ⟨hnumber, heq⟩ := hdecode
      cases heq
      exact .inr hnumber
  | null =>
      cases hdecode
      exact hold
  | bool | array | object => cases hdecode

theorem keeps_decodeInt64 (limit : Nat) :
    Keeps limit decodeInt64 fun n => int64 n = some n := by
  have hparse : ∀ {n m : Int}, int64 n = some m → int64 m = some m := by
    intro n m h
    unfold int64 at h
    split_ifs at h with hrange
    cases h
    exact if_pos hrange
  intro v old n _ hold hdecode
  cases v with
  | number text =>
      simp only [decodeInt64, parseInt64] at hdecode
      split_ifs at hdecode
      · exact hparse hdecode
      · exact hparse hdecode
  | null =>
      cases hdecode
      exact hold
  | bool | string | array | object => cases hdecode

theorem AgentSkill.Var.keeps_fields (limit : Nat) :
    Keeps (limit + 2) (decodeStruct true AgentSkill.Var.fields) (AgentSkill.Var.Decoded limit) := by
  refine keeps_decodeStruct ?_
  simp only [AgentSkill.Var.fields, List.forall_mem_map, AgentSkill.Var.slots, Slot.field,
    List.forall_mem_singleton, List.forall_mem_cons]
  refine ⟨?_, ?_, ?_, ?_, ?_, ?_⟩
  · exact Field.keeps_of fun _ _ _ _ hs _ => hs
  · exact Field.keeps_of fun _ _ _ _ hs _ => hs
  · exact Field.keeps_of fun _ _ _ _ hs _ => hs
  · exact Field.keeps_of fun v s schema hv hs hdecode =>
      ⟨keeps_decodeSchema limit v s.inputSchema schema hv hs.1 hdecode, hs.2⟩
  · exact Field.keeps_of fun v s schema hv hs hdecode =>
      ⟨hs.1, keeps_decodeSchema limit v s.outputSchema schema hv hs.2 hdecode⟩
  · exact Field.keeps_of fun _ _ _ _ hs _ => hs

theorem AgentLimits.keeps_fields (limit : Nat) :
    Keeps (limit + 1) (decodeStruct true AgentLimits.fields) AgentLimits.Decoded := by
  refine keeps_decodeStruct ?_
  simp only [AgentLimits.fields, List.forall_mem_map, AgentLimits.slots, Slot.field,
    List.forall_mem_singleton, List.forall_mem_cons]
  refine ⟨?_, ?_, ?_, ?_⟩
  · exact Field.keeps_of fun v l n hv hl hdecode =>
      ⟨keeps_decodeInt64 limit v l.timeoutMS n hv hl.1 hdecode, hl.2⟩
  · exact Field.keeps_of fun v l n hv hl hdecode =>
      ⟨hl.1, keeps_decodeNumber limit v l.maxInputBytes n hv hl.2.1 hdecode, hl.2.2⟩
  · exact Field.keeps_of fun v l n hv hl hdecode =>
      ⟨hl.1, hl.2.1, keeps_decodeNumber limit v l.maxOutputBytes n hv hl.2.2 hdecode⟩
  · exact Field.keeps_of fun _ _ _ _ hl _ => hl

theorem AgentCard.Var.keeps_fields (limit : Nat) :
    Keeps (limit + 4) (decodeStruct true AgentCard.Var.fields) (AgentCard.Var.Decoded limit) := by
  refine keeps_decodeStruct ?_
  simp only [AgentCard.Var.fields, List.forall_mem_map, AgentCard.Var.slots, Slot.field,
    List.forall_mem_singleton, List.forall_mem_cons]
  have hskip : ∀ {α : Type} {name : String} {get : AgentCard.Var → α}
      {set : AgentCard.Var → α → AgentCard.Var} {decode : Decoder α},
      (∀ c a, (set c a).skills = c.skills ∧ (set c a).limits = c.limits) →
      Keeps (limit + 3) (Field.of name get set decode).decode (AgentCard.Var.Decoded limit) := by
    intro α name get set decode hset
    refine Field.keeps_of fun v c a _ hc _ => ?_
    rw [AgentCard.Var.Decoded, (hset c a).1, (hset c a).2]
    exact hc
  refine ⟨hskip fun _ _ => ⟨rfl, rfl⟩, hskip fun _ _ => ⟨rfl, rfl⟩, hskip fun _ _ => ⟨rfl, rfl⟩,
    hskip fun _ _ => ⟨rfl, rfl⟩, hskip fun _ _ => ⟨rfl, rfl⟩, hskip fun _ _ => ⟨rfl, rfl⟩,
    hskip fun _ _ => ⟨rfl, rfl⟩, ?_, hskip fun _ _ => ⟨rfl, rfl⟩, hskip fun _ _ => ⟨rfl, rfl⟩, ?_⟩
  · have hzero : AgentSkill.Var.Decoded limit .zero := by
      simp [AgentSkill.Var.Decoded, AgentSkill.Var.zero]
    have hslice := keeps_decodeSlice hzero (AgentSkill.Var.keeps_fields limit)
    exact Field.keeps_of fun v c skills hv hc hdecode =>
      ⟨hslice v c.skills skills hv hc.1 hdecode, hc.2⟩
  · have hlimits := AgentLimits.keeps_fields (limit + 2)
    exact Field.keeps_of fun v c l hv hc hdecode =>
      ⟨hc.1, hlimits v c.limits l hv hc.2 hdecode⟩

theorem AgentCard.Var.decoded_zero (limit : Nat) : AgentCard.Var.zero.Decoded limit := by
  refine ⟨by simp [AgentCard.Var.zero, SliceVar.zero, SliceVar.cells], rfl, .inl rfl, .inl rfl⟩

/-- A decoded card whose limits are there can be written. -/
theorem AgentCard.Var.encodable {c : AgentCard.Var} (h : c.Decoded limit)
    (hinput : c.limits.maxInputBytes ≠ []) (houtput : c.limits.maxOutputBytes ≠ []) :
    c.card.Encodable limit := by
  refine ⟨?_, h.2.1, h.2.2.1.resolve_left hinput, h.2.2.2.resolve_left houtput⟩
  intro skills hskills s hs
  obtain ⟨shown, hshown, rfl⟩ := Option.map_eq_some_iff.mp hskills
  obtain ⟨var, hvar, rfl⟩ := List.mem_map.mp hs
  refine h.1 var (List.mem_append_left _ ?_)
  rw [hshown]
  exact hvar

end Nekiro
