import Nekiro.AgentCardContract
import Nekiro.CardLimits
import Nekiro.JsonSchema

/-!
# Documents of Agent Cards

What a JSON document has to be for a card to be read from it: an object
with the members of the card under their own names, each with the value
that the card has (`AgentCard.Document`). The decoder stores the same card
from such a document, and from one with its names only such a document
gives a card that passes the contract (`AgentCard.decode_iff`).
-/

namespace Nekiro

open Guard Json

/-! ## Parts of a document -/

/-- The value is this text. -/
def IsText (s : String) (v : Json.Value) : Prop := ∃ raw, v = .string raw ∧ unquote raw = s

/-- The value is this integer, however it is spelled. -/
def IsInteger (k : Int) (v : Json.Value) : Prop := ∃ n : Numeral, v = .number n.text ∧ n.value = k

/-- The items are those of the slice. -/
def IsSlice {α : Type} (item : α → Json.Value → Prop) (slice : Option (List α)) (v : Json.Value) :
    Prop :=
  ∃ as vs, slice = some as ∧ v = .array vs ∧ List.Forall₂ item as vs

/-- The map has the members of the object. -/
def IsMap (schema : Option JSONSchema) (v : Json.Value) : Prop :=
  ∃ stored members, schema = some stored ∧ v = .object members ∧ Sorted stored
    ∧ stored.Perm (members.map fun m => (unquote m.1, interfaceValue m.2))

def AgentOwner.Document (o : AgentOwner) : Json.Value → Prop :=
  ObjectWith [("id", IsText o.id), ("displayName", IsText o.displayName)]

def AgentProtocol.Document (p : AgentProtocol) : Json.Value → Prop :=
  ObjectWith [("type", IsText p.type), ("version", IsText p.version),
    ("transport", IsText p.transport), ("endpoint", IsText p.endpoint)]

def AgentSkill.Document (s : AgentSkill) : Json.Value → Prop :=
  ObjectWith [("id", IsText s.id), ("name", IsText s.name), ("description", IsText s.description),
    ("inputSchema", IsMap s.inputSchema), ("outputSchema", IsMap s.outputSchema),
    ("requiredPermissions", IsSlice IsText s.requiredPermissions)]

def AgentAuthentication.Document (a : AgentAuthentication) : Json.Value → Prop :=
  ObjectWith [("type", IsText a.type)]

def PermissionDeclaration.Document (p : PermissionDeclaration) : Json.Value → Prop :=
  ObjectWith [("id", IsText p.id), ("description", IsText p.description)]

def AgentLimits.Document (l : AgentLimits) : Json.Value → Prop :=
  ObjectWith [("timeoutMs", IsInteger l.timeoutMS),
    ("maxInputBytes", fun v => v = .number l.maxInputBytes),
    ("maxOutputBytes", fun v => v = .number l.maxOutputBytes),
    ("streaming", fun v => v = .bool l.streaming)]

/-- The document has the values of the card, and nothing else. -/
def AgentCard.Document (c : AgentCard) : Json.Value → Prop :=
  ObjectWith [("schemaVersion", IsText c.schemaVersion), ("agentId", IsText c.agentID),
    ("name", IsText c.name), ("description", IsText c.description), ("owner", c.owner.Document),
    ("version", IsText c.version), ("protocol", c.protocol.Document),
    ("skills", IsSlice AgentSkill.Document c.skills),
    ("authentication", c.authentication.Document),
    ("permissions", IsSlice PermissionDeclaration.Document c.permissions),
    ("limits", c.limits.Document)]

/-! ## The fields of the structs -/

theorem AgentOwner.separate : Separate AgentOwner.slots :=
  ⟨by simp [slots], by simp [slots, Slot.Apart], by decide⟩

theorem AgentProtocol.separate : Separate AgentProtocol.slots :=
  ⟨by simp [slots], by simp [slots, Slot.Apart], by decide⟩

theorem AgentSkill.Var.separate : Separate AgentSkill.Var.slots :=
  ⟨by simp [slots], by simp [slots, Slot.Apart], by decide⟩

theorem AgentAuthentication.separate : Separate AgentAuthentication.slots :=
  ⟨by simp [slots], by simp [slots], by decide⟩

theorem PermissionDeclaration.separate : Separate PermissionDeclaration.slots :=
  ⟨by simp [slots], by simp [slots, Slot.Apart], by decide⟩

theorem AgentLimits.separate : Separate AgentLimits.slots :=
  ⟨by simp [slots], by simp [slots, Slot.Apart], by decide⟩

theorem AgentCard.Var.separate : Separate AgentCard.Var.slots :=
  ⟨by simp [slots], by simp [slots, Slot.Apart], by decide⟩

theorem AgentOwner.complete : Complete AgentOwner.slots := by
  rintro ⟨⟩ ⟨⟩ h
  simpa [slots] using h

theorem AgentProtocol.complete : Complete AgentProtocol.slots := by
  rintro ⟨⟩ ⟨⟩ h
  simpa [slots] using h

theorem AgentSkill.Var.complete : Complete AgentSkill.Var.slots := by
  rintro ⟨⟩ ⟨⟩ h
  simpa [slots] using h

theorem AgentAuthentication.complete : Complete AgentAuthentication.slots := by
  rintro ⟨⟩ ⟨⟩ h
  simpa [slots] using h

theorem PermissionDeclaration.complete : Complete PermissionDeclaration.slots := by
  rintro ⟨⟩ ⟨⟩ h
  simpa [slots] using h

theorem AgentLimits.complete : Complete AgentLimits.slots := by
  rintro ⟨⟩ ⟨⟩ h
  simpa [slots] using h

theorem AgentCard.Var.complete : Complete AgentCard.Var.slots := by
  rintro ⟨⟩ ⟨⟩ h
  simpa [slots] using h

/-! ## What a field holds -/

theorem holds_text_iff {given : Option Json.Value} {x : String} (hx : x ≠ "") :
    Holds decodeString given "" x ↔ ∃ v, given = some v ∧ IsText x v := by
  cases given with
  | none => simp [Holds, hx]
  | some v =>
      cases v with
      | string raw => simp [Holds, decodeString, IsText]
      | null => simp [Holds, decodeString, IsText, hx.symm]
      | bool | number | array | object => simp [Holds, decodeString, IsText]

variable {given : Option Json.Value} {v : Json.Value} {l : AgentLimits}
  {members : List (Bytes × Json.Value)}

theorem isMap_interfaceMembers (hplain : (Json.Value.object members).Plain) :
    IsMap (some (interfaceMembers members [])) (.object members) :=
  ⟨_, members, rfl, rfl, sorted_interfaceMembers members .nil,
    interfaceMembers_perm (by simpa using hplain.nodup)⟩

theorem holds_map_iff {schema : Option JSONSchema} (hsome : schema.isSome = true)
    (hplain : ∀ w, given = some w → w.Plain) :
    Holds decodeSchema given none schema ↔ ∃ w, given = some w ∧ IsMap schema w := by
  obtain ⟨stored, rfl⟩ := Option.isSome_iff_exists.mp hsome
  cases given with
  | none => simp [Holds]
  | some v =>
      cases v with
      | object members =>
          have hmap := isMap_interfaceMembers (hplain _ rfl)
          simp only [Holds, decodeSchema, Option.getD_none, Option.some_inj, exists_eq_left']
          constructor
          · rintro rfl
            exact hmap
          · rintro ⟨_, _, ⟨⟩, ⟨⟩, hstored, hstoredPerm⟩
            obtain ⟨_, _, ⟨⟩, ⟨⟩, hsorted, hperm⟩ := hmap
            exact hsorted.eq_of_perm hstored (hperm.trans hstoredPerm.symm)
      | null | bool | number | string | array => simp [Holds, decodeSchema, IsMap]

/-- A slice that was stored in an empty variable. -/
theorem holds_slice_iff {α β : Type} {initial : α} {decode : Decoder α} {var : β → α}
    {item : β → Json.Value → Prop} {given : Option Json.Value} {slice : Option (List β)}
    (hsome : slice.isSome = true)
    (hitem : ∀ items, given = some (.array items) →
      ∀ b ∈ slice.getD [], ∀ w ∈ items, (decode w initial = some (var b) ↔ item b w)) :
    Holds (decodeSlice initial decode) given .zero (exactSlice (slice.map (List.map var))) ↔
      ∃ w, given = some w ∧ IsSlice item slice w := by
  obtain ⟨bs, rfl⟩ := Option.isSome_iff_exists.mp hsome
  cases given with
  | none => simp [Holds, exactSlice, SliceVar.zero]
  | some v =>
      simp only [Holds, decodeSlice_zero_iff, Option.some_inj, exists_eq_left', IsSlice]
      constructor
      · rintro (⟨-, hzero⟩ | ⟨as, vs, has, rfl, hall⟩)
        · cases hzero
        · cases has
          refine ⟨bs, vs, rfl, rfl, ?_⟩
          rw [List.forall₂_map_left_iff] at hall
          exact forall₂_of_mem hall fun b w hb hw h => (hitem vs rfl b hb w hw).mp h
      · rintro ⟨_, vs, rfl, rfl, hall⟩
        refine .inr ⟨_, vs, rfl, rfl, ?_⟩
        rw [List.forall₂_map_left_iff]
        exact forall₂_of_mem hall fun b w hb hw h => (hitem vs rfl b hb w hw).mpr h

/-- What a slice variable shows was stored from the items of an array. -/
theorem Holds.slice {α : Type} {initial : α} {decode : Decoder α} {s : SliceVar α}
    (h : Holds (decodeSlice initial decode) given .zero s) :
    s.spare = [] ∧ ∀ as, s.shown = some as → ∃ items, given = some (.array items)
      ∧ List.Forall₂ (fun a w => decode w initial = some a) as items := by
  cases given with
  | none =>
      cases h
      exact ⟨rfl, nofun⟩
  | some v =>
      rcases decodeSlice_zero_iff.mp h with ⟨-, rfl⟩ | ⟨as, vs, rfl, rfl, hall⟩
      · exact ⟨rfl, nofun⟩
      · refine ⟨rfl, fun _ has => ?_⟩
        cases has
        exact ⟨vs, rfl, hall⟩

/-- A number without sign, fraction and exponent. -/
def WrittenInDigits : Json.Schema :=
  fun v => ∀ literal, v = .number literal → literal.all Json.isDigit = true

theorem int64_of_timeout {k : Int} (h : 1 ≤ k ∧ k ≤ 600000) : int64 k = some k := by
  rw [int64, if_pos]
  omega

theorem holds_integer_iff {k : Int} (hk : 1 ≤ k ∧ k ≤ 600000)
    (hplain : ∀ w, given = some w → w.Plain) :
    Holds decodeInt64 given 0 k ↔ ∃ w, given = some w ∧ IsInteger k w ∧ WrittenInDigits w := by
  cases given with
  | none =>
      simp only [Holds, reduceCtorEq, false_and, exists_false, iff_false]
      omega
  | some v =>
      cases v with
      | number literal =>
          obtain ⟨⟨_, hwell⟩, -⟩ := hplain _ rfl
          cases hwell with
          | number hlexical =>
              simp only [Holds, decodeInt64, Option.some_inj, exists_eq_left', IsInteger,
                WrittenInDigits, parseInt64_eq_some_iff hlexical hk.1 (int64_of_timeout hk),
                Json.Value.number.injEq,
                forall_eq']
              rw [and_comm]
              simp only [eq_comm]
      | null =>
          simp only [Holds, decodeInt64, Option.some_inj, exists_eq_left', IsInteger, reduceCtorEq,
            false_and, exists_false, iff_false]
          omega
      | bool | string | array | object => simp [Holds, decodeInt64, IsInteger]

theorem holds_number_iff {literal : Bytes} (hne : literal ≠ [])
    (hquoted : ∀ raw, given ≠ some (.string raw)) :
    Holds decodeNumber given [] literal ↔ ∃ w, given = some w ∧ w = .number literal := by
  cases given with
  | none => simp [Holds, hne]
  | some v =>
      cases v with
      | string raw => exact absurd rfl (hquoted raw)
      | null => simp [Holds, decodeNumber, hne.symm]
      | number | bool | array | object => simp [Holds, decodeNumber]

theorem holds_bool_iff {b : Bool} (hbool : ∃ b', given = some (.bool b')) :
    Holds decodeBool given false b ↔ ∃ w, given = some w ∧ w = .bool b := by
  obtain ⟨b', rfl⟩ := hbool
  simp [Holds, decodeBool]

/-- A field that was changed, by what can change it. -/
theorem holds_iff {α : Type} {decode : Decoder α} {old new : α} {document : Json.Value → Prop}
    (hne : new ≠ old) (h : ∀ w, given = some w → (decode w old = some new ↔ document w)) :
    Holds decode given old new ↔ ∃ w, given = some w ∧ document w := by
  cases given with
  | none => simp [Holds, hne]
  | some w => simpa [Holds] using h w rfl

/-! ## Documents under the names of the fields -/

def AgentOwner.names : Json.Schema := .noAdditional ["id", "displayName"]

def AgentProtocol.names : Json.Schema :=
  .noAdditional ["type", "version", "transport", "endpoint"]

def AgentSkill.names : Json.Schema :=
  .noAdditional ["id", "name", "description", "inputSchema", "outputSchema", "requiredPermissions"]

def AgentAuthentication.names : Json.Schema := .noAdditional ["type"]

def PermissionDeclaration.names : Json.Schema := .noAdditional ["id", "description"]

def AgentLimits.names : Json.Schema :=
  .noAdditional ["timeoutMs", "maxInputBytes", "maxOutputBytes", "streaming"]

def AgentCard.names : Json.Schema :=
  .allOf [.noAdditional ["schemaVersion", "agentId", "name", "description", "owner", "version",
      "protocol", "skills", "authentication", "permissions", "limits"],
    .properties [("owner", AgentOwner.names), ("protocol", AgentProtocol.names),
      ("skills", .items AgentSkill.names), ("authentication", AgentAuthentication.names),
      ("permissions", .items PermissionDeclaration.names), ("limits", AgentLimits.names)]]

theorem AgentOwner.decode_iff (hplain : v.Plain) (hnames : AgentOwner.names v) {o : AgentOwner}
    (hid : o.id ≠ "") (hname : o.displayName ≠ "") :
    decodeStruct true AgentOwner.fields v ⟨"", ""⟩ = some o ↔ o.Document v := by
  refine AgentOwner.separate.decodeStruct_objectWith AgentOwner.complete hplain hnames ?_
    fun members _ => ?_
  · rintro rfl
    exact hid rfl
  · exact .cons ⟨rfl, holds_text_iff hid⟩ (.cons ⟨rfl, holds_text_iff hname⟩ .nil)

theorem AgentProtocol.decode_iff (hplain : v.Plain) (hnames : AgentProtocol.names v)
    {p : AgentProtocol} (htype : p.type ≠ "") (hversion : p.version ≠ "")
    (htransport : p.transport ≠ "") (hendpoint : p.endpoint ≠ "") :
    decodeStruct true AgentProtocol.fields v ⟨"", "", "", ""⟩ = some p ↔ p.Document v := by
  refine AgentProtocol.separate.decodeStruct_objectWith AgentProtocol.complete hplain hnames ?_
    fun members _ => ?_
  · rintro rfl
    exact htype rfl
  · exact .cons ⟨rfl, holds_text_iff htype⟩ (.cons ⟨rfl, holds_text_iff hversion⟩
      (.cons ⟨rfl, holds_text_iff htransport⟩ (.cons ⟨rfl, holds_text_iff hendpoint⟩ .nil)))

theorem AgentAuthentication.decode_iff (hplain : v.Plain) (hnames : AgentAuthentication.names v)
    {a : AgentAuthentication} (htype : a.type ≠ "") :
    decodeStruct true AgentAuthentication.fields v ⟨""⟩ = some a ↔ a.Document v := by
  refine AgentAuthentication.separate.decodeStruct_objectWith AgentAuthentication.complete hplain
    hnames ?_ fun members _ => ?_
  · rintro rfl
    exact htype rfl
  · exact .cons ⟨rfl, holds_text_iff htype⟩ .nil

theorem ne_empty_of_boundedText {maxLength : Nat} {s : String} (h : boundedText maxLength s) :
    s ≠ "" := by
  rintro rfl
  exact absurd h.1 (by decide)

theorem PermissionDeclaration.decode_iff (hplain : v.Plain) (hnames : PermissionDeclaration.names v)
    {p : PermissionDeclaration} (h : p.Schema) :
    decodeStruct true PermissionDeclaration.fields v ⟨"", ""⟩ = some p ↔ p.Document v := by
  have hid := safeIdentifier_ne_empty h.id
  refine PermissionDeclaration.separate.decodeStruct_objectWith
    PermissionDeclaration.complete hplain
    hnames ?_ fun members _ => ?_
  · rintro rfl
    exact hid rfl
  · exact .cons ⟨rfl, holds_text_iff hid⟩
      (.cons ⟨rfl, holds_text_iff (ne_empty_of_boundedText h.description)⟩ .nil)

theorem decodeText_iff {s : String} (hs : s ≠ "") (w : Json.Value) :
    decodeString w "" = some s ↔ IsText s w := by
  have hholds := @holds_text_iff (some w) s hs
  simpa [Holds] using hholds

theorem AgentSkill.decode_iff (hplain : v.Plain) (hnames : AgentSkill.names v) {s : AgentSkill}
    (h : s.Schema) :
    decodeStruct true AgentSkill.Var.fields v .zero = some s.var ↔ s.Document v := by
  have hid := safeIdentifier_ne_empty h.id
  refine AgentSkill.Var.separate.decodeStruct_objectWith AgentSkill.Var.complete hplain hnames ?_
    fun members hv => ?_
  · intro heq
    exact hid (congrArg AgentSkill.Var.id heq)
  · subst hv
    have hpermissions := @holds_slice_iff _ _ "" decodeString (fun p => p) IsText
      (member members "requiredPermissions") s.requiredPermissions h.requiredPermissions
      fun _ _ p hp w _ => decodeText_iff (safeIdentifier_ne_empty (h.permissionIDs p hp)) w
    rw [List.map_id_fun', Option.map_id_fun] at hpermissions
    exact .cons ⟨rfl, holds_text_iff hid⟩
      (.cons ⟨rfl, holds_text_iff (ne_empty_of_boundedText h.name)⟩
      (.cons ⟨rfl, holds_text_iff (ne_empty_of_boundedText h.description)⟩
      (.cons ⟨rfl, holds_map_iff h.inputSchema fun _ hw => hplain.member hw⟩
      (.cons ⟨rfl, holds_map_iff h.outputSchema fun _ hw => hplain.member hw⟩
      (.cons ⟨rfl, hpermissions⟩ .nil)))))

/-- No permissions are left behind the ones that a skill shows. -/
theorem AgentSkill.var_skill (hplain : v.Plain) (hnames : AgentSkill.names v) {s : AgentSkill.Var}
    (h : decodeStruct true AgentSkill.Var.fields v .zero = some s) : s.skill.var = s := by
  have hspare : s.requiredPermissions.spare = [] := by
    by_cases hne : s = .zero
    · rw [hne]
      rfl
    · obtain ⟨members, -, -, hholds⟩ :=
        (AgentSkill.Var.separate.decodeStruct_value_iff AgentSkill.Var.complete hplain
          (fun members hv => exact_of_declared (by decide) (hnames members hv)) hne).mp h
      rw [AgentSkill.Var.slots] at hholds
      simp only [List.forall_mem_cons] at hholds
      obtain ⟨-, -, -, -, -, hpermissions, -⟩ := hholds
      exact (Holds.slice hpermissions).1
  obtain ⟨id, name, description, input, output, shown, spare⟩ := s
  cases hspare
  rfl

/-- The limits on bytes are not quoted. -/
def AgentLimits.Unquoted : Json.Schema :=
  .properties [("maxInputBytes", fun w => ∀ raw, w ≠ .string raw),
    ("maxOutputBytes", fun w => ∀ raw, w ≠ .string raw)]

/-- The member is given, and not as `null`. -/
def AgentLimits.StreamingGiven : Json.Schema :=
  .allOf [.required ["streaming"], .properties [("streaming", .type .boolean)]]

/-- What the decoder needs of the limits apart from their schema. -/
structure AgentLimits.Sound (l : AgentLimits) : Prop where
  timeoutMS : 1 ≤ l.timeoutMS ∧ l.timeoutMS ≤ 600000
  maxInputBytes : l.maxInputBytes ≠ []
  maxOutputBytes : l.maxOutputBytes ≠ []

theorem AgentLimits.Sound.ne_zero (h : l.Sound) : l ≠ ⟨0, [], [], false⟩ := by
  rintro rfl
  exact h.maxInputBytes rfl

theorem member_of_streamingGiven (hplain : (Json.Value.object members).Plain)
    (h : AgentLimits.StreamingGiven (.object members)) :
    ∃ b, member members "streaming" = some (.bool b) := by
  simp only [AgentLimits.StreamingGiven, Schema.allOf, List.forall_mem_cons] at h
  obtain ⟨hrequired, hboolean, -⟩ := h
  obtain ⟨m, hm, hname⟩ := hrequired members rfl "streaming" List.mem_cons_self
  obtain ⟨b, hb⟩ := hboolean members rfl _ List.mem_cons_self m hm hname
  exact ⟨b, (member_eq_some_iff hplain.nodup).mpr ⟨m, hm, hname, hb⟩⟩

theorem AgentLimits.decode_iff (hplain : v.Plain) (hnames : AgentLimits.names v)
    (hunquoted : AgentLimits.Unquoted v) (hstreaming : AgentLimits.StreamingGiven v)
    (hdigits : Schema.properties [("timeoutMs", WrittenInDigits)] v) (h : l.Sound) :
    decodeStruct true AgentLimits.fields v ⟨0, [], [], false⟩ = some l ↔ l.Document v := by
  refine AgentLimits.separate.decodeStruct_objectWith AgentLimits.complete hplain hnames h.ne_zero
    fun members hv => ?_
  subst hv
  have htimeout : Holds decodeInt64 (member members "timeoutMs") 0 l.timeoutMS ↔
      ∃ w, member members "timeoutMs" = some w ∧ IsInteger l.timeoutMS w := by
    rw [holds_integer_iff h.timeoutMS fun w hw => hplain.member hw]
    refine exists_congr fun w => and_congr_right fun hw => and_iff_left ?_
    exact Schema.properties_member hdigits List.mem_cons_self hw
  exact .cons ⟨rfl, htimeout⟩
    (.cons ⟨rfl, holds_number_iff h.maxInputBytes fun raw hraw =>
      Schema.properties_member hunquoted List.mem_cons_self hraw raw rfl⟩
    (.cons ⟨rfl, holds_number_iff h.maxOutputBytes fun raw hraw =>
      Schema.properties_member hunquoted (List.mem_cons_of_mem _ List.mem_cons_self) hraw raw rfl⟩
    (.cons ⟨rfl, holds_bool_iff (member_of_streamingGiven hplain hstreaming)⟩ .nil)))

theorem AgentLimits.writtenInDigits (hplain : v.Plain) (hnames : AgentLimits.names v) (h : l.Sound)
    (hdecode : decodeStruct true AgentLimits.fields v ⟨0, [], [], false⟩ = some l) :
    Schema.properties [("timeoutMs", WrittenInDigits)] v := by
  obtain ⟨members, rfl, -, hholds⟩ :=
    (AgentLimits.separate.decodeStruct_value_iff AgentLimits.complete hplain
      (fun members hv => exact_of_declared (by decide) (hnames members hv)) h.ne_zero).mp hdecode
  rw [AgentLimits.slots] at hholds
  simp only [List.forall_mem_cons] at hholds
  obtain ⟨w, hw, -, hdigits⟩ :=
    (holds_integer_iff h.timeoutMS fun w hw => hplain.member hw).mp hholds.1
  rintro _ ⟨⟩ p hp m hm hname
  obtain rfl := List.mem_singleton.mp hp
  rw [(member_eq_some_iff hplain.nodup).mpr ⟨m, hm, hname, rfl⟩] at hw
  cases hw
  exact hdigits

/-! ## Documents of cards -/

def AgentCard.Unquoted : Json.Schema := .properties [("limits", AgentLimits.Unquoted)]

def AgentCard.TimeoutInDigits : Json.Schema :=
  .properties [("limits", .properties [("timeoutMs", WrittenInDigits)])]

/-- The parts of a card keep to their names. -/
structure AgentCard.PartNames (members : List (Bytes × Json.Value)) : Prop where
  owner : ∀ w, member members "owner" = some w → AgentOwner.names w
  protocol : ∀ w, member members "protocol" = some w → AgentProtocol.names w
  skill : ∀ items, member members "skills" = some (.array items) →
    ∀ w ∈ items, AgentSkill.names w
  authentication : ∀ w, member members "authentication" = some w → AgentAuthentication.names w
  permission : ∀ items, member members "permissions" = some (.array items) →
    ∀ w ∈ items, PermissionDeclaration.names w
  limits : ∀ w, member members "limits" = some w → AgentLimits.names w

theorem AgentCard.partNames (h : AgentCard.names (.object members)) :
    AgentCard.PartNames members := by
  have hparts := fun p hp w hw => @Schema.properties_member _ members
    (h _ (List.mem_cons_of_mem _ List.mem_cons_self)) p hp w hw
  simp only [List.forall_mem_singleton, List.forall_mem_cons] at hparts
  obtain ⟨howner, hprotocol, hskills, hauthentication, hpermissions, hlimits⟩ := hparts
  exact ⟨howner, hprotocol, fun items h w hw => hskills _ h items rfl w hw, hauthentication,
    fun items h w hw => hpermissions _ h items rfl w hw, hlimits⟩

section Card

variable [CardFormats]

theorem AgentCard.Schema.version_ne {c : AgentCard} (h : c.Schema) : c.version ≠ "" := by
  intro heq
  have hpattern := h.version.2
  rw [heq] at hpattern
  exact absurd hpattern (by decide)

theorem AgentCard.Schema.endpoint_ne {c : AgentCard} (h : c.Schema) : c.protocol.endpoint ≠ "" := by
  intro heq
  have hpattern := h.endpointPattern
  rw [heq] at hpattern
  exact absurd hpattern (by decide)

theorem AgentCard.Schema.authentication_ne {c : AgentCard} (h : c.Schema) :
    c.authentication.type ≠ "" := by
  intro heq
  have htype := h.authentication
  rw [heq] at htype
  exact absurd htype (by decide)

variable {v : Json.Value} (hplain : v.Plain) (hnames : AgentCard.names v)

include hplain hnames

/-- The card is read from its documents. -/
theorem AgentCard.decode_iff
    (hstreaming : Schema.properties [("limits", AgentLimits.StreamingGiven)] v)
    (hunquoted : AgentCard.Unquoted v) (hdigits : AgentCard.TimeoutInDigits v) {c : AgentCard}
    (h : c.Schema) (hlimits : c.limits.Sound) :
    decodeStruct true AgentCard.Var.fields v .zero = some c.var ↔ c.Document v := by
  refine AgentCard.Var.separate.decodeStruct_objectWith AgentCard.Var.complete hplain
    (hnames _ List.mem_cons_self) ?_ fun members hv => ?_
  · intro heq
    exact hlimits.ne_zero (congrArg AgentCard.Var.limits heq)
  subst hv
  have hparts := AgentCard.partNames hnames
  have hownerID := safeIdentifier_ne_empty h.ownerID
  have howner : Holds (decodeStruct true AgentOwner.fields) (member members "owner")
      ⟨"", ""⟩ c.owner
      ↔ ∃ w, member members "owner" = some w ∧ c.owner.Document w := by
    refine holds_iff (fun heq => hownerID (congrArg AgentOwner.id heq)) fun w hw => ?_
    exact AgentOwner.decode_iff (hplain.member hw) (hparts.owner w hw) hownerID
      (ne_empty_of_boundedText h.ownerName)
  have htype : c.protocol.type ≠ "" := by rw [h.protocolType]; decide
  have hprotocol : Holds (decodeStruct true AgentProtocol.fields) (member members "protocol")
      ⟨"", "", "", ""⟩ c.protocol
      ↔ ∃ w, member members "protocol" = some w ∧ c.protocol.Document w := by
    refine holds_iff (fun heq => htype (congrArg AgentProtocol.type heq)) fun w hw => ?_
    exact AgentProtocol.decode_iff (hplain.member hw) (hparts.protocol w hw) htype
      (by rw [h.protocolVersion]; decide) (by rw [h.protocolTransport]; decide) h.endpoint_ne
  have hskills := @holds_slice_iff _ _ AgentSkill.Var.zero (decodeStruct true AgentSkill.Var.fields)
    AgentSkill.var AgentSkill.Document (member members "skills") c.skills h.skills.1
    fun items hitems s hs w hw => AgentSkill.decode_iff ((hplain.member hitems).item hw)
      (hparts.skill items hitems w hw) (h.skill s hs)
  have hauthentication : Holds (decodeStruct true AgentAuthentication.fields)
      (member members "authentication") ⟨""⟩ c.authentication
      ↔ ∃ w, member members "authentication" = some w ∧ c.authentication.Document w := by
    refine holds_iff (fun heq => h.authentication_ne (congrArg AgentAuthentication.type heq))
      fun w hw => ?_
    exact AgentAuthentication.decode_iff (hplain.member hw) (hparts.authentication w hw)
      h.authentication_ne
  have hpermissions :=
    @holds_slice_iff _ _ ⟨"", ""⟩ (decodeStruct true PermissionDeclaration.fields)
    (fun p => p) PermissionDeclaration.Document (member members "permissions") c.permissions
    h.permissions fun items hitems p hp w hw =>
      PermissionDeclaration.decode_iff ((hplain.member hitems).item hw)
        (hparts.permission items hitems w hw) (h.permission p hp)
  rw [List.map_id_fun', Option.map_id_fun] at hpermissions
  have hlimitsPart : Holds (decodeStruct true AgentLimits.fields) (member members "limits")
      ⟨0, [], [], false⟩ c.limits
      ↔ ∃ w, member members "limits" = some w ∧ c.limits.Document w := by
    refine holds_iff hlimits.ne_zero fun w hw => ?_
    exact AgentLimits.decode_iff (hplain.member hw) (hparts.limits w hw)
      (Schema.properties_member hunquoted List.mem_cons_self hw)
      (Schema.properties_member hstreaming List.mem_cons_self hw)
      (Schema.properties_member hdigits List.mem_cons_self hw) hlimits
  have hschemaVersion : c.schemaVersion ≠ "" := by rw [h.schemaVersion]; decide
  exact .cons ⟨rfl, holds_text_iff hschemaVersion⟩
    (.cons ⟨rfl, holds_text_iff (safeIdentifier_ne_empty h.agentID)⟩
    (.cons ⟨rfl, holds_text_iff (ne_empty_of_boundedText h.name)⟩
    (.cons ⟨rfl, holds_text_iff (ne_empty_of_boundedText h.description)⟩
    (.cons ⟨rfl, howner⟩
    (.cons ⟨rfl, holds_text_iff h.version_ne⟩
    (.cons ⟨rfl, hprotocol⟩
    (.cons ⟨rfl, hskills⟩
    (.cons ⟨rfl, hauthentication⟩
    (.cons ⟨rfl, hpermissions⟩
    (.cons ⟨rfl, hlimitsPart⟩ .nil))))))))))

omit [CardFormats] in
/-- What a decoded card holds: nothing behind its slices, and limits that
were read as limits. -/
theorem AgentCard.of_decode {c : AgentCard.Var} (hlimits : c.limits.Sound)
    (h : decodeStruct true AgentCard.Var.fields v .zero = some c) :
    c.card.var = c ∧ AgentCard.TimeoutInDigits v := by
  have hne : c ≠ .zero := fun heq => hlimits.ne_zero (congrArg AgentCard.Var.limits heq)
  obtain ⟨members, rfl, -, hholds⟩ :=
    (AgentCard.Var.separate.decodeStruct_value_iff AgentCard.Var.complete hplain
      (fun members hv => exact_of_declared (by decide)
        (hnames _ List.mem_cons_self members hv)) hne).mp h
  rw [AgentCard.Var.slots] at hholds
  simp only [List.forall_mem_cons] at hholds
  obtain ⟨-, -, -, -, -, -, -, hskills, -, hpermissions, hlimitsPart, -⟩ := hholds
  have hskill : ∀ as, c.skills.shown = some as → ∀ s ∈ as, s.skill.var = s := by
    intro as has s hs
    obtain ⟨items, hitems, hall⟩ := (Holds.slice hskills).2 as has
    obtain ⟨w, hw, hdecode⟩ := exists_of_forall₂ hall hs
    exact AgentSkill.var_skill ((hplain.member hitems).item hw)
      ((AgentCard.partNames hnames).skill items hitems w hw) hdecode
  constructor
  · obtain ⟨schemaVersion, agentID, name, description, owner, version, protocol, ⟨shown, spare⟩,
      authentication, ⟨permissions, spare'⟩, limits⟩ := c
    obtain rfl : spare = [] := (Holds.slice hskills).1
    obtain rfl : spare' = [] := (Holds.slice hpermissions).1
    have hshown : (shown.map (List.map AgentSkill.Var.skill)).map (List.map AgentSkill.var) =
        shown := by
      cases shown with
      | none => rfl
      | some as =>
          rw [Option.map_some, Option.map_some, List.map_map]
          exact congrArg some ((List.map_congr_left (hskill as rfl)).trans (List.map_id as))
    rw [AgentCard.Var.card, AgentCard.var, hshown]
    rfl
  · rintro _ ⟨⟩ p hp m hm hname
    obtain rfl := List.mem_singleton.mp hp
    have hw := (member_eq_some_iff hplain.nodup).mpr ⟨m, hm, hname, rfl⟩
    have hdecode : decodeStruct true AgentLimits.fields m.2 ⟨0, [], [], false⟩ = some c.limits := by
      have hgiven : Holds (decodeStruct true AgentLimits.fields) (member members "limits")
        ⟨0, [], [], false⟩ c.limits := hlimitsPart
      rwa [hw] at hgiven
    exact AgentLimits.writtenInDigits (hplain.member hw)
      ((AgentCard.partNames hnames).limits m.2 hw) hlimits hdecode

end Card

end Nekiro
