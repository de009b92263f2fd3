import Nekiro.JsonText
import Nekiro.Rfc3339

/-!
# Decoding into typed values

How `encoding/json` stores a value in a variable: a decoder takes the value
and what the variable holds, since `null` leaves it alone and the members
of an object are stored one after the other. A struct is its list of
fields; a member goes to the field of that name, or else to the first field
whose name is the same under case folding. It names no program.

The encoder's side is `objectOf`, `ofString`, `ofInt` and `ofTime`, and for
each of them a lemma says that the value can be read and what decoding it
stores.
-/

namespace Nekiro

namespace Json

/-! ## Numbers -/

def decimalNat (n : Nat) : Bytes := (Nat.toDigits 10 n).map fun c => UInt8.ofNat c.toNat

def decimal (n : Int) : Bytes :=
  if n < 0 then 0x2D :: decimalNat n.natAbs else decimalNat n.natAbs

def natValue (digits : Bytes) : Nat := digits.foldl (fun n b => 10 * n + (b.toNat - 0x30)) 0

def int64 (n : Int) : Option Int :=
  if -9223372036854775808 ≤ n ∧ n ≤ 9223372036854775807 then some n else none

/-- `strconv.ParseInt(literal, 10, 64)` on the text of a number. -/
def parseInt64 (literal : Bytes) : Option Int :=
  if literal.head? = some 0x2D then
    if literal.tail.all isDigit then int64 (-natValue literal.tail) else none
  else if literal.all isDigit then int64 (natValue literal) else none

theorem digitByte_spec {d : Nat} (h : d < 10) :
    isDigit (UInt8.ofNat (Nat.digitChar d).toNat) = true ∧
      (UInt8.ofNat (Nat.digitChar d).toNat).toNat - 0x30 = d ∧
      (UInt8.ofNat (Nat.digitChar d).toNat = 0x30 ↔ d = 0) ∧
      UInt8.ofNat (Nat.digitChar d).toNat ≠ 0x2D := by
  interval_cases d <;> decide

theorem decimalNat_of_lt {n : Nat} (h : n < 10) :
    decimalNat n = [UInt8.ofNat (Nat.digitChar n).toNat] := by
  rw [decimalNat, Nat.toDigits_of_lt_base h, List.map_singleton]

theorem decimalNat_of_le {n : Nat} (h : 10 ≤ n) :
    decimalNat n = decimalNat (n / 10) ++ [UInt8.ofNat (Nat.digitChar (n % 10)).toNat] := by
  rw [decimalNat, Nat.toDigits_of_base_le (by decide) h, List.map_append, List.map_singleton]
  rfl

/-- The digits of a number, from its first one on. -/
theorem decimalNat_induction {P : Nat → Bytes → Prop}
    (hdigit : ∀ d, d < 10 → P d [UInt8.ofNat (Nat.digitChar d).toNat])
    (hmore : ∀ n d, 0 < n → d < 10 → P n (decimalNat n) →
      P (10 * n + d) (decimalNat n ++ [UInt8.ofNat (Nat.digitChar d).toNat])) (n : Nat) :
    P n (decimalNat n) := by
  induction n using Nat.strong_induction_on with
  | _ n ih =>
      by_cases h : n < 10
      · rw [decimalNat_of_lt h]
        exact hdigit n h
      · have hstep := hmore (n / 10) (n % 10) (by omega) (by omega) (ih (n / 10) (by omega))
        rw [Nat.div_add_mod] at hstep
        rw [decimalNat_of_le (by omega)]
        exact hstep

theorem natValue_decimalNat (n : Nat) : natValue (decimalNat n) = n := by
  refine decimalNat_induction (P := fun n text => natValue text = n) ?_ ?_ n
  · intro d hd
    simpa [natValue] using (digitByte_spec hd).2.1
  · intro n d _ hd ih
    rw [natValue] at ih
    rw [natValue, List.foldl_append, ih, List.foldl_cons, List.foldl_nil, (digitByte_spec hd).2.1]

theorem all_isDigit_decimalNat (n : Nat) : (decimalNat n).all isDigit = true := by
  refine decimalNat_induction (P := fun _ text => text.all isDigit = true) ?_ ?_ n
  · intro d hd
    simpa using (digitByte_spec hd).1
  · intro n d _ hd ih
    rw [List.all_append, ih, List.all_cons, (digitByte_spec hd).1]
    rfl

theorem head?_decimalNat (n : Nat) : (decimalNat n).head? ≠ some 0x2D := by
  refine decimalNat_induction (P := fun _ text => text.head? ≠ some 0x2D) ?_ ?_ n
  · intro d hd
    simpa using (digitByte_spec hd).2.2.2
  · intro n d _ hd ih
    cases h : decimalNat n with
    | nil => simpa using (digitByte_spec hd).2.2.2
    | cons b bs => simpa [h] using ih

theorem parseInt64_decimal {n : Int} (h : int64 n = some n) : parseInt64 (decimal n) = some n := by
  by_cases hneg : n < 0
  · have hvalue : -(natValue (decimalNat n.natAbs) : Int) = n := by
      rw [natValue_decimalNat]
      omega
    rw [decimal, if_pos hneg, parseInt64, if_pos List.head?_cons, List.tail_cons,
      if_pos (all_isDigit_decimalNat _), hvalue, h]
  · have hvalue : (natValue (decimalNat n.natAbs) : Int) = n := by
      rw [natValue_decimalNat]
      omega
    rw [decimal, if_neg hneg, parseInt64, if_neg (head?_decimalNat _),
      if_pos (all_isDigit_decimalNat _), hvalue, h]

/-- The lexer on the digits of a number, after `literal`. -/
theorem steps_decimalNat {st : Lexer} {literal : Bytes}
    (hstart : ∀ b, isDigit b = true → ∃ phase : NumberPhase, phase.complete = true ∧
      st.step b = some ([], .inNumber [] (literal ++ [b]) phase) ∧
      (b ≠ 0x30 → phase = .digits)) (n : Nat) :
    ∃ phase : NumberPhase, phase.complete = true ∧
      st.steps (decimalNat n) = some ([], .inNumber [] (literal ++ decimalNat n) phase) ∧
      (n ≠ 0 → phase = .digits) := by
  refine decimalNat_induction (P := fun n text => ∃ phase : NumberPhase, phase.complete = true ∧
      st.steps text = some ([], .inNumber [] (literal ++ text) phase) ∧
      (n ≠ 0 → phase = .digits)) ?_ ?_ n
  · intro d hd
    obtain ⟨hdigit, -, hzero, -⟩ := digitByte_spec hd
    obtain ⟨phase, hcomplete, hstep, hphase⟩ := hstart _ hdigit
    refine ⟨phase, hcomplete, ?_, fun hne => hphase (hzero.not.mpr hne)⟩
    rw [Lexer.steps_of_step hstep]
    rfl
  · intro n d hn hd ih
    obtain ⟨phase, -, hsteps, hphase⟩ := ih
    obtain rfl := hphase (by omega)
    refine ⟨.digits, rfl, ?_, fun _ => rfl⟩
    rw [← List.append_assoc]
    refine Lexer.steps_concat hsteps ?_
    simp [Lexer.step, NumberPhase.next, (digitByte_spec hd).1]

/-- Where a number may begin: at the start of a value or after its sign. -/
theorem step_digit {st : Lexer} {literal : Bytes}
    (h : st = .between [] ∧ literal = [] ∨ st = .inNumber [] literal .minus) :
    ∀ b, isDigit b = true → ∃ phase : NumberPhase, phase.complete = true ∧
      st.step b = some ([], .inNumber [] (literal ++ [b]) phase) ∧
      (b ≠ 0x30 → phase = .digits) := by
  have hall : ∀ n, 0x30 ≤ n → n ≤ 0x39 → ∃ phase : NumberPhase, phase.complete = true ∧
      st.step (UInt8.ofNat n) = some ([], .inNumber [] (literal ++ [UInt8.ofNat n]) phase) ∧
      (UInt8.ofNat n ≠ 0x30 → phase = .digits) := by
    intro n hlo hhi
    rcases h with ⟨rfl, rfl⟩ | rfl
    all_goals
      interval_cases n
      · exact ⟨.zero, rfl, rfl, by decide⟩
      all_goals exact ⟨.digits, rfl, rfl, fun _ => rfl⟩
  intro b hb
  simp only [isDigit, Bool.and_eq_true, decide_eq_true_eq, UInt8.le_iff_toNat_le] at hb
  rw [← UInt8.ofNat_toNat (x := b)]
  exact hall b.toNat hb.1 hb.2

theorem lexical_decimal (n : Int) : (Token.number (decimal n)).Lexical := by
  unfold decimal
  split_ifs with hneg
  · obtain ⟨phase, hcomplete, hsteps, -⟩ :=
      steps_decimalNat (@step_digit _ [0x2D] (.inr rfl)) n.natAbs
    have hminus : (Lexer.between []).step 0x2D = some ([], .inNumber [] [0x2D] .minus) := rfl
    refine ⟨phase, hcomplete, ?_⟩
    rw [Lexer.steps_of_step hminus, hsteps]
    rfl
  · obtain ⟨phase, hcomplete, hsteps, -⟩ :=
      steps_decimalNat (step_digit (.inl ⟨rfl, rfl⟩)) n.natAbs
    exact ⟨phase, hcomplete, hsteps⟩

/-! ## Decoders -/

/-- The variable after the value has been stored in it. -/
abbrev Decoder (α : Type) := Value → α → Option α

def decodeString : Decoder String
  | .string raw, _ => some (unquote raw)
  | .null, old => some old
  | _, _ => none

def decodeBool : Decoder Bool
  | .bool value, _ => some value
  | .null, old => some old
  | _, _ => none

def decodeInt64 : Decoder Int
  | .number literal, _ => parseInt64 literal
  | .null, old => some old
  | _, _ => none

/-- `Time.UnmarshalJSON` reads the text between the quotes as it stands. -/
def decodeTime : Decoder Time
  | .string raw, _ => Rfc3339.parse (String.ofList (raw.map fun b => Char.ofNat b.toNat))
  | .null, old => some old
  | _, _ => none

/-- A pointer: `null` clears it, other values go to a fresh variable. -/
def decodePointer {α : Type} (zero : α) (decode : Decoder α) : Decoder (Option α)
  | .null, _ => some none
  | v, old => (decode v (old.getD zero)).map some

/-- The runes that `foldName` takes to an upper-case letter. -/
def foldRune (c : Char) : Char :=
  if 'a' ≤ c ∧ c ≤ 'z' then Char.ofNat (c.toNat - 32)
  else if c = Char.ofNat 0x17F then 'S' else if c = Char.ofNat 0x212A then 'K' else c

def foldName (name : String) : List Char := name.toList.map foldRune

/-- A field of a struct: the name of its tag and what storing does. -/
structure Field (σ : Type) where
  name : String
  decode : Decoder σ

def Field.of {σ α : Type} (name : String) (get : σ → α) (set : σ → α → σ) (decode : Decoder α) :
    Field σ where
  name := name
  decode := fun v s => (decode v (get s)).map (set s)

variable {σ α : Type}

/-- The field of a member: the exact name before the folded ones. -/
def findField (fields : List (Field σ)) (name : String) : Option (Field σ) :=
  match fields.find? fun f => f.name = name with
  | some f => some f
  | none => fields.find? fun f => foldName f.name = foldName name

/-- Storing one member; `strict` is `DisallowUnknownFields`. -/
def decodeMember (strict : Bool) (fields : List (Field σ)) (s : σ) (name : String) (v : Value) :
    Option σ :=
  match findField fields name with
  | some f => f.decode v s
  | none => if strict then none else some s

def decodeStruct (strict : Bool) (fields : List (Field σ)) : Decoder σ
  | .object members, old =>
      members.foldlM (fun s m => decodeMember strict fields s (unquote m.1) m.2) old
  | .null, old => some old
  | _, _ => none

/-! ## Duplicate members -/

/-- The names of the members, or none if the value is no object. -/
def memberNames : Value → Option (List String)
  | .object members => some (members.map fun m => unquote m.1)
  | _ => none

mutual

/-- No object in the value has two members of one name. -/
def distinctMembers : Value → Bool
  | .array items => distinctItems items
  | .object members => decide (members.map fun m => unquote m.1).Nodup && distinctValues members
  | .null | .bool _ | .number _ | .string _ => true

def distinctItems : List Value → Bool
  | [] => true
  | v :: items => distinctMembers v && distinctItems items

def distinctValues : List (Bytes × Value) → Bool
  | [] => true
  | (_, v) :: members => distinctMembers v && distinctValues members

end

theorem distinctItems_iff (items : List Value) :
    distinctItems items = true ↔ ∀ v ∈ items, distinctMembers v = true := by
  induction items with
  | nil => simp [distinctItems]
  | cons v items ih => rw [distinctItems, Bool.and_eq_true, ih, List.forall_mem_cons]

theorem distinctValues_iff (members : List (Bytes × Value)) :
    distinctValues members = true ↔ ∀ m ∈ members, distinctMembers m.2 = true := by
  induction members with
  | nil => simp [distinctValues]
  | cons m members ih =>
      obtain ⟨key, v⟩ := m
      rw [distinctValues, Bool.and_eq_true, ih, List.forall_mem_cons]

/-! ## The encoder's values -/

def ofString (s : String) : Value := .string (escape true s)

def ofInt (n : Int) : Value := .number (decimal n)

/-- `Time.MarshalJSON`, which refuses years of more than four digits. -/
def ofTime (t : Time) : Option Value :=
  if 0 ≤ t.utcYear ∧ t.utcYear ≤ 9999 then some (ofString (Rfc3339.format t)) else none

def objectOf (members : List (String × Value)) : Value :=
  .object (members.map fun m => (escape true m.1, m.2))

theorem wellFormed_ofString (limit : Nat) (s : String) : (ofString s).WellFormed limit :=
  .string (lexical_escape true s)

theorem wellFormed_ofInt (limit : Nat) (n : Int) : (ofInt n).WellFormed limit :=
  .number (lexical_decimal n)

theorem wellFormed_objectOf {limit : Nat} {members : List (String × Value)}
    (h : ∀ m ∈ members, m.2.WellFormed limit) : (objectOf members).WellFormed (limit + 1) := by
  refine .object ?_ ?_
  · intro m hm
    obtain ⟨m, -, rfl⟩ := List.mem_map.mp hm
    exact lexical_escape true m.1
  · intro m hm
    obtain ⟨m', hm', rfl⟩ := List.mem_map.mp hm
    exact h m' hm'

theorem decodeString_ofString (s old : String) : decodeString (ofString s) old = some s := by
  simp only [ofString, decodeString, unquote_escape]

theorem decodeInt64_ofInt {n : Int} (h : int64 n = some n) (old : Int) :
    decodeInt64 (ofInt n) old = some n :=
  parseInt64_decimal h

/-- The characters of a timestamp are written as they are. -/
theorem escapeChar_of_spells {c : Char} (h : Rfc3339.spells c = true) :
    ∃ b : UInt8, escapeChar true c = [b] ∧ Char.ofNat b.toNat = c := by
  have hdigit : ∀ n, 48 ≤ n → n ≤ 57 →
      ∃ b : UInt8, escapeChar true (Char.ofNat n) = [b] ∧ Char.ofNat b.toNat = Char.ofNat n := by
    intro n hlo hhi
    interval_cases n <;> exact ⟨_, rfl, by decide⟩
  simp only [Rfc3339.spells, Rfc3339.digit?, Bool.or_eq_true] at h
  rcases h with h | h
  · split_ifs at h with hrange
    · have hofNat : Char.ofNat c.toNat = c := Char.ofNat_toNat c
      rw [← hofNat]
      exact hdigit c.toNat hrange.1 hrange.2
    · simp at h
  · simp only [List.contains_cons, List.contains_nil, Bool.or_eq_true, beq_iff_eq] at h
    rcases h with rfl | rfl | rfl | rfl | rfl | h
    · exact ⟨_, rfl, by decide⟩
    · exact ⟨_, rfl, by decide⟩
    · exact ⟨_, rfl, by decide⟩
    · exact ⟨_, rfl, by decide⟩
    · exact ⟨_, rfl, by decide⟩
    · simp at h

theorem map_escape_of_spells {s : String} (h : ∀ c ∈ s.toList, Rfc3339.spells c = true) :
    String.ofList ((escape true s).map fun b => Char.ofNat b.toNat) = s := by
  have hchars : ∀ cs : List Char, (∀ c ∈ cs, Rfc3339.spells c = true) →
      (cs.flatMap (escapeChar true)).map (fun b => Char.ofNat b.toNat) = cs := by
    intro cs
    induction cs with
    | nil => exact fun _ => rfl
    | cons c cs ih =>
        intro hcs
        obtain ⟨hc, hcs⟩ := List.forall_mem_cons.mp hcs
        obtain ⟨b, hb, hchar⟩ := escapeChar_of_spells hc
        rw [List.flatMap_cons, hb, List.map_append, ih hcs]
        simp [hchar]
  rw [escape, hchars s.toList h, String.ofList_toList]

theorem ofTime_eq_some_iff {t : Time} {v : Value} :
    ofTime t = some v ↔ (0 ≤ t.utcYear ∧ t.utcYear ≤ 9999) ∧ v = ofString (Rfc3339.format t) := by
  unfold ofTime
  split_ifs with h
  · simp [h, eq_comm]
  · simp [h]

theorem decodeTime_ofTime {t : Time} {v : Value} (h : ofTime t = some v) (old : Time) :
    decodeTime v old = some t := by
  obtain ⟨⟨h0, h1⟩, rfl⟩ := ofTime_eq_some_iff.mp h
  rw [ofString, decodeTime, map_escape_of_spells (Rfc3339.spells_format h0 h1),
    Rfc3339.parse_format h0 h1]

theorem memberNames_objectOf (members : List (String × Value)) :
    memberNames (objectOf members) = some (members.map Prod.fst) := by
  simp only [objectOf, memberNames, List.map_map, Function.comp_def, unquote_escape]

theorem decodeStruct_objectOf (strict : Bool) (fields : List (Field σ))
    (members : List (String × Value)) (old : σ) :
    decodeStruct strict fields (objectOf members) old =
      members.foldlM (fun s m => decodeMember strict fields s m.1 m.2) old := by
  simp only [objectOf, decodeStruct, List.foldlM_map, unquote_escape]

end Json

end Nekiro
