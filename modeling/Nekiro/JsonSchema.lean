import Nekiro.JsonNumber
import Nekiro.JsonStruct
import Nekiro.Regex

/-!
# JSON Schema

The keywords of JSON Schema 2020-12 as predicates on values: a keyword
speaks of the instances of its own type and accepts all others. Texts are
compared as they are read, numbers by their exact value and objects without
the order of their members (`Equal`). A pattern is anchored at both ends,
and a format is asserted by a function that is given.

An object schema that lists all its properties, requires them and allows no
others is the predicate `ObjectWith`: `closedObject_iff`. It names no
program.
-/

namespace Nekiro

namespace Json

/-- A schema, as the instances that it accepts. -/
abbrev Schema := Value → Prop

/-- Equal instances. -/
inductive Equal : Value → Value → Prop
  | null : Equal .null .null
  | bool (b : Bool) : Equal (.bool b) (.bool b)
  | number {m n : Numeral} : m.value = n.value → Equal (.number m.text) (.number n.text)
  | string {a b : Bytes} : unquote a = unquote b → Equal (.string a) (.string b)
  | array {xs ys : List Value} : List.Forall₂ Equal xs ys → Equal (.array xs) (.array ys)
  | object {xs ys zs : List (Bytes × Value)} : zs.Perm ys →
      List.Forall₂ (fun m m' => unquote m.1 = unquote m'.1) xs zs →
      List.Forall₂ Equal (xs.map Prod.snd) (zs.map Prod.snd) → Equal (.object xs) (.object ys)

theorem equal_string_iff {a b : Bytes} : Equal (.string a) (.string b) ↔ unquote a = unquote b := by
  constructor
  · rintro (_ | _ | _ | h)
    exact h
  · exact .string

/-! ## Keywords -/

inductive InstanceType where
  | object
  | array
  | string
  | integer
  | boolean
deriving Repr, DecidableEq

namespace Schema

def allOf (schemas : List Schema) : Schema := fun v => ∀ s ∈ schemas, s v

def type : InstanceType → Schema
  | .object => fun v => ∃ members, v = .object members
  | .array => fun v => ∃ items, v = .array items
  | .string => fun v => ∃ raw, v = .string raw
  | .integer => fun v => ∃ n : Numeral, v = .number n.text ∧ ∃ k : ℤ, n.value = k
  | .boolean => fun v => ∃ b, v = .bool b

def const (constant : Value) : Schema := fun v => Equal v constant

def enum (constants : List Value) : Schema := fun v => ∃ c ∈ constants, Equal v c

def minimum (bound : ℚ) : Schema := fun v => ∀ n : Numeral, v = .number n.text → bound ≤ n.value

def maximum (bound : ℚ) : Schema := fun v => ∀ n : Numeral, v = .number n.text → n.value ≤ bound

def minLength (bound : Nat) : Schema :=
  fun v => ∀ raw, v = .string raw → bound ≤ (unquote raw).length

def maxLength (bound : Nat) : Schema :=
  fun v => ∀ raw, v = .string raw → (unquote raw).length ≤ bound

def pattern (r : Regex) : Schema := fun v =>
    ∀ raw, v = .string raw → r.matchText (unquote raw) = true

def format (accepts : String → Bool) : Schema :=
  fun v => ∀ raw, v = .string raw → accepts (unquote raw) = true

def minItems (bound : Nat) : Schema := fun v => ∀ xs, v = .array xs → bound ≤ xs.length

def uniqueItems : Schema := fun v => ∀ xs, v = .array xs → xs.Pairwise fun x y => ¬Equal x y

def items (s : Schema) : Schema := fun v => ∀ xs, v = .array xs → ∀ x ∈ xs, s x

def required (names : List String) : Schema :=
  fun v => ∀ members, v = .object members → ∀ name ∈ names, ∃ m ∈ members, unquote m.1 = name

def properties (schemas : List (String × Schema)) : Schema :=
  fun v => ∀ members, v = .object members →
    ∀ p ∈ schemas, ∀ m ∈ members, unquote m.1 = p.1 → p.2 m.2

/-- `additionalProperties: false`, with the names of `properties`. -/
def noAdditional (names : List String) : Schema :=
  fun v => ∀ members, v = .object members → ∀ m ∈ members, unquote m.1 ∈ names

end Schema

/-! ## Closed objects -/

/-- An object with these members and no others. -/
def ObjectWith (parts : List (String × Schema)) (v : Value) : Prop :=
  ∃ members, v = .object members ∧ (∀ m ∈ members, unquote m.1 ∈ parts.map Prod.fst)
    ∧ ∀ p ∈ parts, ∃ w, member members p.1 = some w ∧ p.2 w

open Schema in
theorem closedObject_iff {parts : List (String × Schema)} {v : Value}
    (hdistinct : ∀ members, v = .object members → (members.map fun m => unquote m.1).Nodup) :
    allOf [type .object, noAdditional (parts.map Prod.fst), required (parts.map Prod.fst),
        properties parts] v
      ↔ ObjectWith parts v := by
  simp only [allOf, List.forall_mem_singleton, List.forall_mem_cons]
  constructor
  · rintro ⟨⟨members, rfl⟩, hclosed, hrequired, hproperties⟩
    refine ⟨members, rfl, hclosed members rfl, fun p hp => ?_⟩
    obtain ⟨m, hm, hname⟩ := hrequired members rfl p.1 (List.mem_map_of_mem hp)
    exact ⟨m.2, (member_eq_some_iff (hdistinct members rfl)).mpr ⟨m, hm, hname, rfl⟩,
      hproperties members rfl p hp m hm hname⟩
  · rintro ⟨members, rfl, hclosed, hparts⟩
    have hmember := fun {name v} => @member_eq_some_iff members (hdistinct members rfl) name v
    refine ⟨⟨members, rfl⟩, ?_, ?_, ?_⟩
    · rintro _ ⟨⟩
      exact hclosed
    · rintro _ ⟨⟩ name hname
      obtain ⟨p, hp, rfl⟩ := List.mem_map.mp hname
      obtain ⟨w, hw, -⟩ := hparts p hp
      obtain ⟨m, hm, hname, -⟩ := hmember.mp hw
      exact ⟨m, hm, hname⟩
    · rintro _ ⟨⟩ p hp m hm hname
      obtain ⟨w, hw, hpart⟩ := hparts p hp
      rw [hmember.mpr ⟨m, hm, hname, rfl⟩] at hw
      cases hw
      exact hpart

/-- The value of a member is one of its schema. -/
theorem Schema.properties_member {schemas : List (String × Schema)}
    {members : List (Bytes × Value)} (h : Schema.properties schemas (.object members))
    {p : String × Schema} (hp : p ∈ schemas) {w : Value} (hw : member members p.1 = some w) :
    p.2 w := by
  obtain ⟨m, hm, hname, rfl⟩ := exists_of_member hw
  exact h members rfl p hp m hm hname

/-! ## Parts of a value -/

/-- The member with this name, `null` if there is none. -/
def Value.part : Value → String → Value
  | .object members, name => (member members name).getD .null
  | _, _ => .null

/-- The items of an array. -/
def Value.elements : Value → List Value
  | .array items => items
  | _ => []

/-- The text of a string. -/
def Value.str : Value → String
  | .string raw => unquote raw
  | _ => ""

theorem Value.Plain.part {v : Value} (h : v.Plain) (name : String) : (v.part name).Plain := by
  have hnull : Value.null.Plain := ⟨⟨0, .null⟩, rfl⟩
  cases v with
  | object members =>
      rw [Value.part]
      cases hmember : Json.member members name with
      | none => exact hnull
      | some w => exact h.member hmember
  | null | bool | number | string | array => exact hnull

section ObjectWith

variable {parts parts' : List (String × Schema)} {v : Value} (h : ObjectWith parts v)

include h

theorem ObjectWith.part : ∀ p ∈ parts, p.2 (v.part p.1) := by
  obtain ⟨members, rfl, -, hparts⟩ := h
  intro p hp
  obtain ⟨w, hw, hpart⟩ := hparts p hp
  simpa [Value.part, hw] using hpart

theorem ObjectWith.member_of_mem {name : String} (hname : name ∈ parts.map Prod.fst) :
    ∃ members w, v = .object members ∧ member members name = some w := by
  obtain ⟨members, rfl, -, hparts⟩ := h
  obtain ⟨p, hp, rfl⟩ := List.mem_map.mp hname
  obtain ⟨w, hw, -⟩ := hparts p hp
  exact ⟨members, w, rfl, hw⟩

/-- Under the same names an object is judged by its parts. -/
theorem ObjectWith.iff_part (hsame : parts'.map Prod.fst = parts.map Prod.fst) :
    ObjectWith parts' v ↔ ∀ p ∈ parts', p.2 (v.part p.1) := by
  refine ⟨ObjectWith.part, fun hpart => ?_⟩
  obtain ⟨members, rfl, hnames, -⟩ := id h
  refine ⟨members, rfl, hsame ▸ hnames, fun p hp => ?_⟩
  obtain ⟨_, w, ⟨⟩, hw⟩ := h.member_of_mem (hsame ▸ List.mem_map_of_mem hp)
  exact ⟨w, hw, by simpa [Value.part, hw] using hpart p hp⟩

theorem ObjectWith.part_of_properties {schemas : List (String × Schema)}
    (hproperties : Schema.properties schemas v) {p : String × Schema} (hp : p ∈ schemas)
    (hname : p.1 ∈ parts.map Prod.fst) : p.2 (v.part p.1) := by
  obtain ⟨members, w, rfl, hw⟩ := h.member_of_mem hname
  simpa [Value.part, hw] using Schema.properties_member hproperties hp hw

end ObjectWith

theorem forall_mem_iff_of_forall₂ {α β : Type*} {P : α → Prop} {Q : β → Prop} {as : List α}
    {bs : List β} (h : List.Forall₂ (fun a b => P a ↔ Q b) as bs) :
    (∀ a ∈ as, P a) ↔ ∀ b ∈ bs, Q b := by
  induction h with
  | nil => simp
  | cons hab _ ih => rw [List.forall_mem_cons, List.forall_mem_cons, hab, ih]

theorem forall₂_of_mem {α β : Type*} {R S : α → β → Prop} {as : List α} {bs : List β}
    (h : List.Forall₂ R as bs) (himp : ∀ a b, a ∈ as → b ∈ bs → R a b → S a b) :
    List.Forall₂ S as bs := by
  rw [List.forall₂_iff_zip] at h ⊢
  refine ⟨h.1, fun hmem => ?_⟩
  obtain ⟨ha, hb⟩ := List.of_mem_zip hmem
  exact himp _ _ ha hb (h.2 hmem)

/-- A struct is decoded from the documents in which each field has its part. -/
theorem Separate.decodeStruct_objectWith {σ : Type} {slots : List (Slot σ)} (h : Separate slots)
    (hcomplete : Complete slots) {v : Value} (hplain : v.Plain)
    (hnames : Schema.noAdditional (slots.map Slot.name) v) {old s : σ} (hne : s ≠ old)
    {parts : List (String × Schema)} (hparts : ∀ members, v = .object members →
      List.Forall₂ (fun t p => t.name = p.1
        ∧ (t.Holds members old s ↔ ∃ w, member members p.1 = some w ∧ p.2 w)) slots parts) :
    decodeStruct true (slots.map Slot.field) v old = some s ↔ ObjectWith parts v := by
  have hfolds : ((slots.map Slot.name).map foldName).Nodup := by
    rw [List.map_map]
    exact h.names
  rw [h.decodeStruct_value_iff hcomplete hplain
    (fun members hv => exact_of_declared hfolds (hnames members hv)) hne]
  refine exists_congr fun members => and_congr_right fun hv => ?_
  have hall := hparts members hv
  have hsame : slots.map Slot.name = parts.map Prod.fst := by
    refine List.forall₂_eq_eq_eq ▸ ?_
    rw [List.forall₂_map_left_iff, List.forall₂_map_right_iff]
    exact hall.imp fun _ _ hp => hp.1
  rw [hsame]
  exact and_congr_right fun _ => forall_mem_iff_of_forall₂ (hall.imp fun _ _ hp => hp.2)

end Json

end Nekiro
