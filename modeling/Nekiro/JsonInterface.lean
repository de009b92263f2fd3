import Mathlib.Data.List.Forall2
import Mathlib.Data.String.Basic
import Nekiro.JsonDecode

/-!
# Values of type `any`, and slices

Decoding into `any` keeps what the text says and forgets how it says it:
strings are unquoted, an object becomes a map. Such a value is represented
by the text that the encoder writes for it, with the members of a map in
the order of their names. `interfaceValue` is that decoding. It changes
nothing on a value it has made (`interfaceValue_idem`), so encoding and
decoding a value of type `any` gives the value back.

A slice variable keeps the elements behind its length when a shorter array
is stored in it, and the decoder stores a longer one over them
(`SliceVar`). It names no program.
-/

namespace Nekiro

namespace Json

/-! ## Maps -/

/-- `m[name] = v`, with the members in the order of their names. -/
def insertMember (name : String) (v : Value) : List (String × Value) → List (String × Value)
  | [] => [(name, v)]
  | (n, w) :: rest =>
      if name < n then (name, v) :: (n, w) :: rest
      else if name = n then (name, v) :: rest
      else (n, w) :: insertMember name v rest

def Sorted (members : List (String × Value)) : Prop :=
  members.Pairwise fun a b => a.1 < b.1

variable {v : Value} {m : String × Value} {limit : Nat} {α : Type} {initial : α}
  {decode : Decoder α}

theorem mem_insertMember {name : String} :
    ∀ {members : List (String × Value)}, m ∈ insertMember name v members →
      m = (name, v) ∨ m ∈ members
  | [], h => .inl (List.mem_singleton.mp h)
  | (n, w) :: rest, h => by
      unfold insertMember at h
      split_ifs at h
      · exact List.mem_cons.mp h
      · rcases List.mem_cons.mp h with h | h
        · exact .inl h
        · exact .inr (List.mem_cons_of_mem _ h)
      · rcases List.mem_cons.mp h with rfl | h
        · exact .inr List.mem_cons_self
        · rcases mem_insertMember h with h | h
          · exact .inl h
          · exact .inr (List.mem_cons_of_mem _ h)

theorem sorted_insertMember (name : String) (v : Value) :
    ∀ {members : List (String × Value)}, Sorted members → Sorted (insertMember name v members)
  | [], _ => List.pairwise_singleton _ _
  | (n, w) :: rest, h => by
      obtain ⟨hhead, htail⟩ := List.pairwise_cons.mp h
      unfold insertMember
      split_ifs with hlt heq
      · refine List.pairwise_cons.mpr ⟨fun m hm => ?_, h⟩
        rcases List.mem_cons.mp hm with rfl | hm
        · exact hlt
        · exact hlt.trans (hhead m hm)
      · exact List.pairwise_cons.mpr ⟨fun m hm => heq ▸ hhead m hm, htail⟩
      · refine List.pairwise_cons.mpr ⟨fun m hm => ?_, sorted_insertMember name v htail⟩
        rcases mem_insertMember hm with rfl | hm
        · exact lt_of_le_of_ne (not_lt.mp hlt) (Ne.symm heq)
        · exact hhead m hm

/-- A name behind all the others. -/
theorem insertMember_of_lt (name : String) (v : Value) :
    ∀ {members : List (String × Value)}, (∀ m ∈ members, m.1 < name) →
      insertMember name v members = members ++ [(name, v)]
  | [], _ => rfl
  | (n, w) :: rest, h => by
      obtain ⟨hn, hrest⟩ := List.forall_mem_cons.mp h
      have hn : n < name := hn
      rw [insertMember, if_neg hn.asymm, if_neg hn.ne', insertMember_of_lt name v hrest]
      rfl

theorem perm_insertMember (name : String) (v : Value) :
    ∀ {members : List (String × Value)}, name ∉ members.map Prod.fst →
      (insertMember name v members).Perm ((name, v) :: members)
  | [], _ => .refl _
  | (n, w) :: rest, h => by
      rw [List.map_cons, List.mem_cons, not_or] at h
      unfold insertMember
      split_ifs with hlt heq
      · exact .refl _
      · exact absurd heq h.1
      · exact ((perm_insertMember name v h.2).cons _).trans (.swap _ _ _)

/-! ## Decoding into `any` -/

mutual

/-- The value, as the encoder writes what the decoder stores. -/
def interfaceValue : Value → Value
  | .null => .null
  | .bool value => .bool value
  | .number literal => .number literal
  | .string raw => ofString (unquote raw)
  | .array items => .array (interfaceItems items)
  | .object members => objectOf (interfaceMembers members [])

def interfaceItems : List Value → List Value
  | [] => []
  | v :: items => interfaceValue v :: interfaceItems items

/-- The members stored into a map, one after the other. -/
def interfaceMembers : List (Bytes × Value) → List (String × Value) → List (String × Value)
  | [], stored => stored
  | (raw, v) :: members, stored =>
      interfaceMembers members (insertMember (unquote raw) (interfaceValue v) stored)

end

theorem interfaceItems_eq (items : List Value) :
    interfaceItems items = items.map interfaceValue := by
  induction items with
  | nil => rfl
  | cons v items ih => rw [interfaceItems, ih, List.map_cons]

theorem mem_interfaceMembers {members : List (Bytes × Value)} {stored : List (String × Value)}
    (h : m ∈ interfaceMembers members stored) :
    m ∈ stored ∨ ∃ p ∈ members, m = (unquote p.1, interfaceValue p.2) := by
  induction members generalizing stored with
  | nil => exact .inl h
  | cons p members ih =>
      rcases ih h with h | ⟨q, hq, h⟩
      · rcases mem_insertMember h with h | h
        · exact .inr ⟨p, List.mem_cons_self, h⟩
        · exact .inl h
      · exact .inr ⟨q, List.mem_cons_of_mem _ hq, h⟩

theorem sorted_interfaceMembers :
    ∀ (members : List (Bytes × Value)) {stored : List (String × Value)}, Sorted stored →
      Sorted (interfaceMembers members stored)
  | [], _, h => h
  | (_, _) :: members, _, h => sorted_interfaceMembers members (sorted_insertMember _ _ h)

/-- Members that come in order are stored as they come. -/
theorem interfaceMembers_of_sorted :
    ∀ {members stored : List (String × Value)}, Sorted (stored ++ members) →
      (∀ m ∈ members, interfaceValue m.2 = m.2) →
      interfaceMembers (members.map fun m => (escape true m.1, m.2)) stored = stored ++ members
  | [], stored, _, _ => (List.append_nil stored).symm
  | (name, v) :: members, stored, h, hfixed => by
      obtain ⟨hv, hfixed⟩ := List.forall_mem_cons.mp hfixed
      have hv : interfaceValue v = v := hv
      have hlast : ∀ m ∈ stored, m.1 < name := fun m hm =>
        (List.pairwise_append.mp h).2.2 m hm (name, v) List.mem_cons_self
      rw [List.map_cons, interfaceMembers, unquote_escape, hv, insertMember_of_lt name v hlast,
        interfaceMembers_of_sorted (by rwa [List.append_assoc]) hfixed, List.append_assoc]
      rfl

/-- A map that is stored into has the members that were there and the new
ones, if no name is repeated. -/
theorem interfaceMembers_perm : ∀ {members : List (Bytes × Value)} {stored : List (String × Value)},
    (stored.map Prod.fst ++ members.map fun m => unquote m.1).Nodup →
      (interfaceMembers members stored).Perm
        (stored ++ members.map fun m => (unquote m.1, interfaceValue m.2))
  | [], stored, _ => by simp [interfaceMembers]
  | (raw, v) :: members, stored, h => by
      have hfresh : unquote raw ∉ stored.map Prod.fst := by
        intro hmem
        exact (List.nodup_append.mp h).2.2 _ hmem _ List.mem_cons_self rfl
      have hinsert := perm_insertMember (unquote raw) (interfaceValue v) hfresh
      have hnodup : ((insertMember (unquote raw) (interfaceValue v) stored).map Prod.fst
          ++ members.map fun m => unquote m.1).Nodup := by
        refine (List.Perm.nodup_iff ?_).mpr h
        rw [List.map_cons]
        exact ((hinsert.map _).append_right _).trans List.perm_middle.symm
      rw [interfaceMembers, List.map_cons]
      exact (interfaceMembers_perm hnodup).trans
        ((hinsert.append_right _).trans List.perm_middle.symm)

/-- Sorted members are told by their set. -/
theorem Sorted.eq_of_perm {a b : List (String × Value)} (ha : Sorted a) (hb : Sorted b)
    (h : a.Perm b) : a = b :=
  List.Perm.eq_of_pairwise (fun _ _ _ _ hab hba => absurd hba (not_lt_of_gt hab)) ha hb h

theorem interfaceValue_ofString (s : String) : interfaceValue (ofString s) = ofString s := by
  rw [ofString, interfaceValue, unquote_escape, ofString]

theorem interfaceValue_idem (h : v.WellFormed limit) :
    interfaceValue (interfaceValue v) = interfaceValue v := by
  induction h with
  | null => rfl
  | bool value => rfl
  | number h => rfl
  | string h => exact interfaceValue_ofString _
  | array _ ih =>
      rw [interfaceValue, interfaceValue, interfaceItems_eq, interfaceItems_eq, List.map_map]
      exact congrArg Value.array (List.map_congr_left fun v hv => ih v hv)
  | @object limit members _ _ ih =>
      have hsorted := @sorted_interfaceMembers members [] List.Pairwise.nil
      have hfixed : ∀ m ∈ interfaceMembers members [], interfaceValue m.2 = m.2 := by
        intro m hm
        rcases mem_interfaceMembers hm with hm | ⟨p, hp, rfl⟩
        · exact absurd hm List.not_mem_nil
        · exact ih p hp
      rw [interfaceValue, objectOf, interfaceValue,
        @interfaceMembers_of_sorted _ [] hsorted hfixed, List.nil_append, objectOf]

theorem wellFormed_interfaceValue (h : v.WellFormed limit) :
    (interfaceValue v).WellFormed limit := by
  induction h with
  | null => exact .null
  | bool value => exact .bool value
  | number h => exact .number h
  | string h => exact wellFormed_ofString _ _
  | array _ ih =>
      rw [interfaceValue, interfaceItems_eq]
      refine .array fun v hv => ?_
      obtain ⟨w, hw, rfl⟩ := List.mem_map.mp hv
      exact ih w hw
  | @object limit members _ _ ih =>
      refine wellFormed_objectOf fun m hm => ?_
      rcases mem_interfaceMembers hm with hm | ⟨p, hp, rfl⟩
      · exact absurd hm List.not_mem_nil
      · exact ih p hp

/-! ## Numbers kept as text -/

/-- `isValidNumber`. -/
def isNumber (literal : Bytes) : Bool :=
  match (Lexer.between []).steps literal with
  | some ([], .inNumber [] read phase) => phase.complete && read == literal
  | _ => false

theorem isNumber_iff {literal : Bytes} :
    isNumber literal = true ↔ (Token.number literal).Lexical := by
  unfold isNumber Token.Lexical
  constructor
  · intro h
    split at h
    · rename_i read phase hsteps
      rw [Bool.and_eq_true, beq_iff_eq] at h
      exact ⟨phase, h.1, h.2 ▸ hsteps⟩
    · exact absurd h (by simp)
  · rintro ⟨phase, hcomplete, hsteps⟩
    simp [hsteps, hcomplete]

/-- Decoding into a `json.Number`, which also takes a quoted number. -/
def decodeNumber : Decoder Bytes
  | .number literal, _ => some literal
  | .string raw, _ =>
      let literal := utf8 (unquote raw)
      if isNumber literal then some literal else none
  | .null, old => some old
  | _, _ => none

/-- Encoding a `json.Number`; an empty one is written as zero. -/
def ofNumber (literal : Bytes) : Option Value :=
  if literal = [] then some (.number [0x30])
  else if isNumber literal then some (.number literal) else none

/-! ## Slices -/

/-- A slice variable: what it shows, none if it is `nil`, and what its
array holds behind that. -/
structure SliceVar (α : Type) where
  shown : Option (List α)
  spare : List α

namespace SliceVar

variable {α : Type}

def zero : SliceVar α := ⟨none, []⟩

def cells (s : SliceVar α) : List α := s.shown.getD [] ++ s.spare

end SliceVar

/-- The items stored over the cells, behind which there are zero values. -/
def decodeItems {α : Type} (initial : α) (decode : Decoder α) :
    List Value → List α → Option (List α)
  | [], _ => some []
  | v :: items, cells => do
      let a ← decode v (cells.head?.getD initial)
      let rest ← decodeItems initial decode items cells.tail
      pure (a :: rest)

def decodeSlice {α : Type} (initial : α) (decode : Decoder α) : Decoder (SliceVar α)
  | .array [], _ => some ⟨some [], []⟩
  | .array items, old => (decodeItems initial decode items old.cells).map fun shown =>
      ⟨some shown, old.cells.drop items.length⟩
  | .null, _ => some .zero
  | _, _ => none

/-- `m[key] = value`. -/
def storeText (key value : String) : List (String × String) → List (String × String)
  | [] => [(key, value)]
  | entry :: rest =>
      if entry.1 = key then (key, value) :: rest else entry :: storeText key value rest

/-- Storing into a map of texts; `null` leaves an empty text under its key,
and makes the map itself `nil`. -/
def decodeTexts : Decoder (List (String × String))
  | .object members, old =>
      members.foldlM (fun texts m => do
        let value ← decodeString m.2 ""
        pure (storeText (unquote m.1) value texts)) old
  | .null, _ => some []
  | _, _ => none

theorem exists_of_forall₂ {α β : Type*} {R : α → β → Prop} {as : List α} {bs : List β}
    (h : List.Forall₂ R as bs) {a : α} (ha : a ∈ as) : ∃ b ∈ bs, R a b := by
  induction h with
  | nil => cases ha
  | @cons a' b' as bs hab _ ih =>
      rcases List.mem_cons.mp ha with rfl | ha
      · exact ⟨b', List.mem_cons_self, hab⟩
      · obtain ⟨b, hb, hR⟩ := ih ha
        exact ⟨b, List.mem_cons_of_mem _ hb, hR⟩

/-- A slice of values that each decode to themselves. -/
theorem decodeItems_map {β : Type} (encode : β → Value) (value : β → α) :
    ∀ {bs : List β}, (∀ b ∈ bs, decode (encode b) initial = some (value b)) →
      decodeItems initial decode (bs.map encode) [] = some (bs.map value)
  | [], _ => rfl
  | b :: bs, h => by
      obtain ⟨hb, hbs⟩ := List.forall_mem_cons.mp h
      simp only [List.map_cons, decodeItems, List.head?_nil, Option.getD_none, List.tail_nil, hb,
        decodeItems_map encode value hbs]
      rfl

theorem decodeSlice_map {β : Type} (encode : β → Value) (value : β → α) {bs : List β}
    (h : ∀ b ∈ bs, decode (encode b) initial = some (value b)) :
    decodeSlice initial decode (.array (bs.map encode)) .zero = some ⟨some (bs.map value), []⟩ := by
  cases bs with
  | nil => rfl
  | cons b bs =>
      have hitems := decodeItems_map encode value h
      rw [List.map_cons] at hitems ⊢
      rw [decodeSlice, SliceVar.zero, SliceVar.cells]
      · simp only [Option.getD_none, List.nil_append, hitems, List.drop_nil]
        rfl
      · simp

theorem decodeItems_nil_iff :
    ∀ {vs : List Value} {as : List α},
      decodeItems initial decode vs [] = some as ↔
        List.Forall₂ (fun a w => decode w initial = some a) as vs
  | [], as => by
      rw [decodeItems, List.forall₂_nil_right_iff, Option.some_inj, eq_comm]
  | v :: vs, as => by
      simp only [decodeItems, List.head?_nil, Option.getD_none, List.tail_nil, Option.bind_eq_bind,
        Option.bind_eq_some_iff, decodeItems_nil_iff, List.forall₂_cons_right_iff]
      constructor
      · rintro ⟨a, ha, rest, hrest, heq⟩
        cases heq
        exact ⟨a, rest, ha, hrest, rfl⟩
      · rintro ⟨a, rest, ha, hrest, rfl⟩
        exact ⟨a, ha, rest, hrest, rfl⟩

/-- An array stored in a slice that is `nil`. -/
theorem decodeSlice_zero_iff {s : SliceVar α} :
    decodeSlice initial decode v .zero = some s ↔
      (v = .null ∧ s = .zero) ∨ ∃ as vs, s = ⟨some as, []⟩ ∧ v = .array vs
        ∧ List.Forall₂ (fun a w => decode w initial = some a) as vs := by
  cases v with
  | null => simp [decodeSlice, eq_comm]
  | array vs =>
      cases vs with
      | nil => simp [decodeSlice, eq_comm, List.forall₂_nil_right_iff]
      | cons v vs =>
          have hcells : (SliceVar.zero : SliceVar α).cells = [] := rfl
          rw [decodeSlice]
          · simp only [hcells, Option.map_eq_some_iff, decodeItems_nil_iff, List.drop_nil]
            constructor
            · rintro ⟨as, has, rfl⟩
              exact .inr ⟨as, _, rfl, rfl, has⟩
            · rintro (⟨h, -⟩ | ⟨as, _, rfl, h, has⟩)
              · cases h
              · cases h
                exact ⟨as, has, rfl⟩
          · simp
  | bool | number | string | object => simp [decodeSlice]

/-! ## What a decoder keeps -/

theorem Value.WellFormed.items {items : List Value}
    (h : (Value.array items).WellFormed (limit + 1)) :
    ∀ v ∈ items, v.WellFormed limit := by
  cases h with
  | array h => exact h

theorem Value.WellFormed.members {members : List (Bytes × Value)}
    (h : (Value.object members).WellFormed (limit + 1)) : ∀ m ∈ members, m.2.WellFormed limit := by
  cases h with
  | object _ h => exact h

/-- Storing a value that can be read keeps `P`. -/
def Keeps {α : Type} (limit : Nat) (decode : Decoder α) (P : α → Prop) : Prop :=
  ∀ v a a', v.WellFormed limit → P a → decode v a = some a' → P a'

theorem Field.keeps_of {name : String} {get : σ → α} {set : σ → α → σ} {P : σ → Prop}
    (h : ∀ v s a, v.WellFormed limit → P s → decode v (get s) = some a → P (set s a)) :
    Keeps limit (Field.of name get set decode).decode P := by
  intro v s s' hv hs hdecode
  obtain ⟨a, ha, rfl⟩ := Option.map_eq_some_iff.mp hdecode
  exact h v s a hv hs ha

theorem keeps_decodeStruct {strict : Bool} {fields : List (Field σ)} {P : σ → Prop}
    (h : ∀ f ∈ fields, Keeps limit f.decode P) :
    Keeps (limit + 1) (decodeStruct strict fields) P := by
  have hmember : ∀ (name : String) (v : Value) (s s' : σ), v.WellFormed limit → P s →
      decodeMember strict fields s name v = some s' → P s' := by
    intro name v s s' hv hs hdecode
    unfold decodeMember at hdecode
    split at hdecode
    · rename_i f hfound
      refine h f ?_ v s s' hv hs hdecode
      unfold findField at hfound
      split at hfound
      · rename_i g hg
        cases hfound
        exact List.mem_of_find?_eq_some hg
      · exact List.mem_of_find?_eq_some hfound
    · split_ifs at hdecode
      cases hdecode
      exact hs
  intro v s s' hv hs hdecode
  cases v with
  | object members =>
      have hmembers := hv.members
      clear hv
      rw [decodeStruct] at hdecode
      induction members generalizing s with
      | nil =>
          cases hdecode
          exact hs
      | cons m members ih =>
          obtain ⟨hm, hmembers⟩ := List.forall_mem_cons.mp hmembers
          rw [List.foldlM_cons, Option.bind_eq_bind, Option.bind_eq_some_iff] at hdecode
          obtain ⟨s₁, hs₁, hdecode⟩ := hdecode
          exact ih s₁ (hmember _ _ _ _ hm hs hs₁) hdecode hmembers
  | null =>
      cases hdecode
      exact hs
  | bool | number | string | array => cases hdecode

/-- The cells of a slice, shown or spare. -/
theorem keeps_decodeSlice {P : α → Prop} (hinitial : P initial) (h : Keeps limit decode P) :
    Keeps (limit + 1) (decodeSlice initial decode) fun s => ∀ a ∈ s.cells, P a := by
  have hitems : ∀ (items : List Value) (cells shown : List α), (∀ v ∈ items, v.WellFormed limit) →
      (∀ a ∈ cells, P a) → decodeItems initial decode items cells = some shown →
      ∀ a ∈ shown, P a := by
    intro items
    induction items with
    | nil =>
        intro cells shown _ _ hdecode
        cases hdecode
        simp
    | cons v items ih =>
        intro cells shown hvalues hcells hdecode
        obtain ⟨hv, hvalues⟩ := List.forall_mem_cons.mp hvalues
        simp only [decodeItems, Option.bind_eq_bind, Option.bind_eq_some_iff] at hdecode
        obtain ⟨a, ha, rest, hrest, heq⟩ := hdecode
        cases heq
        have hhead : P (cells.head?.getD initial) := by
          cases cells with
          | nil => exact hinitial
          | cons c cells => exact hcells c List.mem_cons_self
        refine List.forall_mem_cons.mpr ⟨h v _ a hv hhead ha, ?_⟩
        exact ih cells.tail rest hvalues (fun c hc => hcells c (List.mem_of_mem_tail hc)) hrest
  intro v s s' hv hs hdecode
  unfold decodeSlice at hdecode
  split at hdecode
  · cases hdecode
    simp [SliceVar.cells]
  · obtain ⟨shown, hshown, rfl⟩ := Option.map_eq_some_iff.mp hdecode
    refine List.forall_mem_append.mpr ⟨hitems _ _ _ hv.items hs hshown, fun a ha => ?_⟩
    exact hs a (List.mem_of_mem_drop ha)
  · cases hdecode
    simp [SliceVar.zero, SliceVar.cells]
  · cases hdecode

end Json

end Nekiro
