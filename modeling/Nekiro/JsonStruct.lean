import Mathlib.Data.List.Pairwise
import Nekiro.JsonInterface
import Nekiro.Table

/-!
# Structs, field by field

A member of an object may be stored in a field of another name, and more
than one member in the same field. What a struct holds after all of them is
still decided for each field alone: `Separate.decodeStruct_iff` says that the field
holds what the members that fold to its name leave there, stored one after
the other. A field is a `Slot`, a name with the part of the struct that it
stands for, and the slots of a struct have to be apart (`Separate`).

If no member is taken for a field of another name (`Exact`) and no name is
repeated, a field has the member of its own name or none
(`Separate.decodeStruct_exact_iff`). It names no program.
-/

namespace Nekiro

namespace Json

variable {σ : Type}

/-- A field with the part of the struct that it stands for. -/
structure Slot (σ : Type) where
  {α : Type}
  name : String
  get : σ → α
  set : σ → α → σ
  decode : Decoder α

variable {m : Bytes × Value}

namespace Slot

def field (t : Slot σ) : Field σ := .of t.name t.get t.set t.decode

/-- The member goes to this field. -/
def Takes (t : Slot σ) (m : Bytes × Value) : Prop := foldName t.name = foldName (unquote m.1)

instance (t : Slot σ) (m : Bytes × Value) : Decidable (t.Takes m) :=
  inferInstanceAs (Decidable (_ = _))

/-- The variable of the field after the members that go to it. -/
def store (t : Slot σ) (members : List (Bytes × Value)) (old : t.α) : Option t.α :=
  (members.filter fun m => t.Takes m).foldlM (fun a m => t.decode m.2 a) old

/-- Storing in one leaves the other. -/
def Apart (t u : Slot σ) : Prop :=
  (∀ s a, u.get (t.set s a) = u.get s) ∧ ∀ s a, t.get (u.set s a) = t.get s

instance : Std.Symm (@Apart σ) where
  symm _ _ h := ⟨h.2, h.1⟩

theorem store_cons_of_takes {t : Slot σ} (h : t.Takes m) (members : List (Bytes × Value))
    (old : t.α) : t.store (m :: members) old = t.decode m.2 old >>= t.store members := by
  rw [store, List.filter_cons_of_pos (by simpa using h), List.foldlM_cons]
  rfl

theorem store_cons_of_not_takes {t : Slot σ} (h : ¬t.Takes m) (members : List (Bytes × Value))
    (old : t.α) : t.store (m :: members) old = t.store members old := by
  rw [store, List.filter_cons_of_neg (by simpa using h)]
  rfl

end Slot

/-- The fields are parts of their own, under names of their own. -/
structure Separate (slots : List (Slot σ)) : Prop where
  get_set : ∀ t ∈ slots, ∀ s a, t.get (t.set s a) = a
  apart : slots.Pairwise Slot.Apart
  names : (slots.map fun t => foldName t.name).Nodup

/-- The struct is told by its fields. -/
def Complete (slots : List (Slot σ)) : Prop :=
  ∀ s s' : σ, (∀ t ∈ slots, t.get s = t.get s') → s = s'

section Struct

variable {slots : List (Slot σ)} (h : Separate slots)

include h

theorem Separate.eq_of_takes {t u : Slot σ} (ht : t ∈ slots) (hu : u ∈ slots) (htm : t.Takes m)
    (hum : u.Takes m) : t = u :=
  Table.eq_of_key h.names ht hu (Eq.trans htm (Eq.symm hum))

theorem Separate.findField_eq (name : String) :
    findField (slots.map Slot.field) name =
      (slots.find? fun t => foldName t.name = foldName name).map Slot.field := by
  unfold findField
  rw [List.find?_map, List.find?_map]
  cases hexact : slots.find? ((fun f : Field σ => decide (f.name = name)) ∘ Slot.field) with
  | none => rfl
  | some t =>
      have ht := List.mem_of_find?_eq_some hexact
      have hname : t.name = name := by
        have hfound := List.find?_some hexact
        exact of_decide_eq_true hfound
      have hfold : (slots.find? fun t => foldName t.name = foldName name) = some t :=
        (Table.find?_eq_some_iff h.names).mpr ⟨ht, congrArg foldName hname⟩
      rw [hfold]
      rfl

/-- Storing a member: its field takes it and the others stay. -/
theorem Separate.decodeMember_eq {t : Slot σ} (ht : t ∈ slots) (htm : t.Takes m) (strict : Bool)
    (s : σ) :
    decodeMember strict (slots.map Slot.field) s (unquote m.1) m.2 =
      (t.decode m.2 (t.get s)).map (t.set s) := by
  have hfound : (slots.find? fun t => foldName t.name = foldName (unquote m.1)) = some t :=
    (Table.find?_eq_some_iff h.names).mpr ⟨ht, htm⟩
  rw [decodeMember, h.findField_eq, hfound]
  rfl

theorem Separate.decodeMember_unknown (hm : ∀ t ∈ slots, ¬t.Takes m) (strict : Bool) (s : σ) :
    decodeMember strict (slots.map Slot.field) s (unquote m.1) m.2 =
      if strict then none else some s := by
  have hnone : (slots.find? fun t => foldName t.name = foldName (unquote m.1)) = none := by
    rw [List.find?_eq_none]
    intro t ht
    simpa using show ¬foldName t.name = foldName (unquote m.1) from hm t ht
  rw [decodeMember, h.findField_eq, hnone]
  rfl

theorem Separate.store_set {t u : Slot σ} (ht : t ∈ slots) (hu : u ∈ slots) (htm : t.Takes m)
    (members : List (Bytes × Value)) {s : σ} {a : t.α} (ha : t.decode m.2 (t.get s) = some a) :
    u.store (m :: members) (u.get s) = u.store members (u.get (t.set s a)) := by
  by_cases hum : u.Takes m
  · obtain rfl := h.eq_of_takes ht hu htm hum
    rw [Slot.store_cons_of_takes htm, ha, h.get_set t ht]
    rfl
  · have hne : t ≠ u := fun heq => hum (heq ▸ htm)
    rw [Slot.store_cons_of_not_takes hum, (h.apart.forall ht hu hne).1]

/-- What a struct holds after an object was stored in it. -/
theorem Separate.of_decodeStruct {strict : Bool} :
    ∀ {members : List (Bytes × Value)} {old s : σ},
      decodeStruct strict (slots.map Slot.field) (.object members) old = some s →
        (∀ t ∈ slots, t.store members (t.get old) = some (t.get s))
          ∧ (strict = true → ∀ m ∈ members, ∃ t ∈ slots, t.Takes m)
  | [], old, s, hdecode => by
      cases hdecode
      exact ⟨fun t _ => rfl, fun _ m hm => absurd hm List.not_mem_nil⟩
  | m :: members, old, s, hdecode => by
      rw [decodeStruct, List.foldlM_cons, Option.bind_eq_bind, Option.bind_eq_some_iff] at hdecode
      obtain ⟨s₁, hmember, hrest⟩ := hdecode
      obtain ⟨hstored, hknown⟩ := @Separate.of_decodeStruct _ members s₁ s hrest
      by_cases htaken : ∃ t ∈ slots, t.Takes m
      · obtain ⟨t, ht, htm⟩ := htaken
        rw [h.decodeMember_eq ht htm] at hmember
        obtain ⟨a, ha, rfl⟩ := Option.map_eq_some_iff.mp hmember
        refine ⟨fun u hu => ?_, fun hstrict =>
          List.forall_mem_cons.mpr ⟨⟨t, ht, htm⟩, hknown hstrict⟩⟩
        rw [h.store_set ht hu htm members ha]
        exact hstored u hu
      · have hnone : ∀ t ∈ slots, ¬t.Takes m := fun t ht htm => htaken ⟨t, ht, htm⟩
        rw [h.decodeMember_unknown hnone] at hmember
        split_ifs at hmember with hstrict
        cases hmember
        refine ⟨fun u hu => ?_, fun hs => absurd hs hstrict⟩
        rw [Slot.store_cons_of_not_takes (hnone u hu)]
        exact hstored u hu

/-- An object is stored if each field takes its members. -/
theorem Separate.exists_decodeStruct {strict : Bool} :
    ∀ {members : List (Bytes × Value)} {old : σ},
      (∀ t ∈ slots, (t.store members (t.get old)).isSome = true) →
        (strict = true → ∀ m ∈ members, ∃ t ∈ slots, t.Takes m) →
          ∃ s, decodeStruct strict (slots.map Slot.field) (.object members) old = some s
  | [], old, _, _ => ⟨old, rfl⟩
  | m :: members, old, hstored, hknown => by
      have hrest : strict = true → ∀ m ∈ members, ∃ t ∈ slots, t.Takes m :=
        fun hstrict m hm => hknown hstrict m (List.mem_cons_of_mem _ hm)
      rw [decodeStruct, List.foldlM_cons]
      by_cases htaken : ∃ t ∈ slots, t.Takes m
      · obtain ⟨t, ht, htm⟩ := htaken
        have hfirst := hstored t ht
        rw [Slot.store_cons_of_takes htm] at hfirst
        cases ha : t.decode m.2 (t.get old) with
        | none =>
            rw [ha] at hfirst
            cases hfirst
        | some a =>
            rw [h.decodeMember_eq ht htm, ha]
            refine @Separate.exists_decodeStruct _ members _ (fun u hu => ?_) hrest
            rw [← h.store_set ht hu htm members ha]
            exact hstored u hu
      · have hnone : ∀ t ∈ slots, ¬t.Takes m := fun t ht htm => htaken ⟨t, ht, htm⟩
        have hlenient : ¬strict = true :=
          fun hstrict => htaken (hknown hstrict m List.mem_cons_self)
        rw [h.decodeMember_unknown hnone, if_neg hlenient]
        refine @Separate.exists_decodeStruct _ members _ (fun u hu => ?_) hrest
        rw [← Slot.store_cons_of_not_takes (hnone u hu)]
        exact hstored u hu

/-- A struct is decoded field by field. -/
theorem Separate.decodeStruct_iff (hcomplete : Complete slots) {strict : Bool}
    {members : List (Bytes × Value)} {old s : σ} :
    decodeStruct strict (slots.map Slot.field) (.object members) old = some s ↔
      (∀ t ∈ slots, t.store members (t.get old) = some (t.get s))
        ∧ (strict = true → ∀ m ∈ members, ∃ t ∈ slots, t.Takes m) := by
  refine ⟨h.of_decodeStruct, fun ⟨hstored, hknown⟩ => ?_⟩
  obtain ⟨s', hs'⟩ := h.exists_decodeStruct (fun t ht => by rw [hstored t ht]; rfl) hknown
  rw [hs', hcomplete s' s fun t ht => ?_]
  have hboth := ((h.of_decodeStruct hs').1 t ht).symm.trans (hstored t ht)
  exact Option.some.inj hboth

end Struct

/-! ## Members under their own names -/

/-- A value that was read, of which no object repeats a name. -/
structure Value.Plain (v : Value) : Prop where
  wellFormed : ∃ limit, v.WellFormed limit
  distinct : distinctMembers v = true

variable {v : Value} {members : List (Bytes × Value)} {name : String}

theorem Value.Plain.item {items : List Value} (h : (Value.array items).Plain) (hv : v ∈ items) :
    v.Plain := by
  obtain ⟨⟨_, hwell⟩, hdistinct⟩ := h
  rw [distinctMembers, distinctItems_iff] at hdistinct
  cases hwell with
  | array hitems => exact ⟨⟨_, hitems v hv⟩, hdistinct v hv⟩

section Plain

variable {members : List (Bytes × Value)} (h : (Value.object members).Plain)

include h

theorem Value.Plain.nodup : (members.map fun m => unquote m.1).Nodup := by
  have hdistinct := h.distinct
  rw [distinctMembers, Bool.and_eq_true, decide_eq_true_eq] at hdistinct
  exact hdistinct.1

theorem Value.Plain.value (hm : m ∈ members) : m.2.Plain := by
  obtain ⟨⟨_, hwell⟩, hdistinct⟩ := h
  rw [distinctMembers, Bool.and_eq_true, distinctValues_iff] at hdistinct
  cases hwell with
  | object _ hvalues => exact ⟨⟨_, hvalues m hm⟩, hdistinct.2 m hm⟩

end Plain

/-- The value of the member of that name. -/
def member (members : List (Bytes × Value)) (name : String) : Option Value :=
  (members.find? fun m => unquote m.1 = name).map Prod.snd

/-- No member is taken for a field of another name. -/
def Exact (names : List String) (members : List (Bytes × Value)) : Prop :=
  ∀ m ∈ members, ∀ name ∈ names, foldName name = foldName (unquote m.1) → unquote m.1 = name

instance (names : List String) (members : List (Bytes × Value)) : Decidable (Exact names members) :=
  inferInstanceAs (Decidable (∀ _ ∈ _, ∀ _ ∈ _, _ → _))

theorem member_eq_some_iff {members : List (Bytes × Value)}
    (hnodup : (members.map fun m => unquote m.1).Nodup) {name : String} {v : Value} :
    member members name = some v ↔ ∃ m ∈ members, unquote m.1 = name ∧ m.2 = v := by
  unfold member
  rw [Option.map_eq_some_iff]
  refine exists_congr fun m => ?_
  rw [Table.find?_eq_some_iff hnodup, and_assoc]

theorem member_eq_none_iff : member members name = none ↔ ∀ m ∈ members, unquote m.1 ≠ name := by
  simp [member]

theorem exists_of_member (h : member members name = some v) :
    ∃ m ∈ members, unquote m.1 = name ∧ m.2 = v := by
  obtain ⟨m, hm, rfl⟩ := Option.map_eq_some_iff.mp h
  have hname := List.find?_some hm
  exact ⟨m, List.mem_of_find?_eq_some hm, of_decide_eq_true hname, rfl⟩

theorem Value.Plain.member (h : (Value.object members).Plain)
    (hv : Json.member members name = some v) : v.Plain := by
  obtain ⟨m, hm, -, rfl⟩ := exists_of_member hv
  exact h.value hm

/-- The field has the member of its name. -/
theorem Slot.store_of_exact {t : Slot σ} {names : List String} (hname : t.name ∈ names)
    (hnodup : (members.map fun m => unquote m.1).Nodup) (hexact : Exact names members) (old : t.α) :
    t.store members old = match member members t.name with
      | none => some old
      | some v => t.decode v old := by
  induction members with
  | nil => rfl
  | cons m members ih =>
      rw [List.map_cons, List.nodup_cons] at hnodup
      have hexact' : Exact names members := fun m hm => hexact m (List.mem_cons_of_mem _ hm)
      by_cases htm : t.Takes m
      · have heq : unquote m.1 = t.name := hexact m List.mem_cons_self t.name hname htm
        have hrest : member members t.name = none := by
          rw [member_eq_none_iff]
          intro m' hm' heq'
          exact hnodup.1 (List.mem_map.mpr ⟨m', hm', heq'.trans heq.symm⟩)
        have hfirst : member (m :: members) t.name = some m.2 := by
          simp [member, heq]
        have hstays : t.store members = some := by
          funext a
          rw [Slot.store, List.filter_eq_nil_iff.mpr, List.foldlM_nil]
          · rfl
          · intro m' hm' htm'
            have htm' : t.Takes m' := by simpa using htm'
            exact member_eq_none_iff.mp hrest m' hm' (hexact' m' hm' t.name hname htm')
        rw [Slot.store_cons_of_takes htm, hfirst, hstays]
        exact bind_pure _
      · have hne : unquote m.1 ≠ t.name := fun heq => htm (by rw [Slot.Takes, heq])
        have hfirst : member (m :: members) t.name = member members t.name := by
          simp [member, hne]
        rw [Slot.store_cons_of_not_takes htm, hfirst, ih hnodup.2 hexact']

/-- The variable was left, or the value is stored in it. -/
def Holds {α : Type} (decode : Decoder α) (given : Option Value) (old new : α) : Prop :=
  match given with
  | none => new = old
  | some v => decode v old = some new

/-- The field was not given, or holds its member. -/
def Slot.Holds (t : Slot σ) (members : List (Bytes × Value)) (old s : σ) : Prop :=
  Json.Holds t.decode (member members t.name) (t.get old) (t.get s)

section Exact

variable {slots : List (Slot σ)} (h : Separate slots) (hcomplete : Complete slots)

include h hcomplete

/-- An object of which no name is repeated or taken for another. -/
theorem Separate.decodeStruct_exact_iff {members : List (Bytes × Value)}
    (hnodup : (members.map fun m => unquote m.1).Nodup)
    (hexact : Exact (slots.map Slot.name) members) {strict : Bool} {old s : σ} :
    decodeStruct strict (slots.map Slot.field) (.object members) old = some s ↔
      (∀ t ∈ slots, t.Holds members old s)
        ∧ (strict = true → ∀ m ∈ members, unquote m.1 ∈ slots.map Slot.name) := by
  rw [h.decodeStruct_iff hcomplete]
  have hstore : ∀ t ∈ slots, (t.store members (t.get old) = some (t.get s)
      ↔ t.Holds members old s) := by
    intro t ht
    rw [Slot.store_of_exact (List.mem_map_of_mem ht) hnodup hexact]
    unfold Slot.Holds Json.Holds
    cases member members t.name with
    | none => exact Option.some_inj.trans eq_comm
    | some v => exact Iff.rfl
  refine and_congr (forall₂_congr hstore) (forall_congr' fun _ => forall₂_congr fun m hm => ?_)
  rw [List.mem_map]
  refine exists_congr fun t => and_congr_right fun ht => ?_
  exact ⟨fun htakes => (hexact m hm t.name (List.mem_map_of_mem ht) htakes).symm,
    fun heq => congrArg foldName heq⟩

/-- A value that changed the struct is an object. -/
theorem Separate.decodeStruct_value_iff {v : Value} (hplain : v.Plain)
    (hexact : ∀ members, v = .object members → Exact (slots.map Slot.name) members) {old s : σ}
    (hne : s ≠ old) :
    decodeStruct true (slots.map Slot.field) v old = some s ↔
      ∃ members, v = .object members ∧ (∀ m ∈ members, unquote m.1 ∈ slots.map Slot.name)
        ∧ ∀ t ∈ slots, t.Holds members old s := by
  constructor
  · intro hdecode
    cases v with
    | object members =>
        obtain ⟨hholds, hnames⟩ :=
          (h.decodeStruct_exact_iff hcomplete hplain.nodup (hexact _ rfl)).mp hdecode
        exact ⟨members, rfl, hnames rfl, hholds⟩
    | null =>
        cases hdecode
        exact absurd rfl hne
    | bool | number | string | array => cases hdecode
  · rintro ⟨members, rfl, hnames, hholds⟩
    exact (h.decodeStruct_exact_iff hcomplete hplain.nodup (hexact _ rfl)).mpr
      ⟨hholds, fun _ => hnames⟩

end Exact

/-- Names that are declared are not taken for others. -/
theorem exact_of_declared {names : List String} (hnames : (names.map foldName).Nodup)
    (h : ∀ m ∈ members, unquote m.1 ∈ names) : Exact names members := by
  intro m hm name hname hfold
  exact (Table.eq_of_key hnames hname (h m hm) hfold).symm

end Json

end Nekiro
