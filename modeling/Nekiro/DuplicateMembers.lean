import Nekiro.Guard
import Nekiro.JsonDecode

/-!
# Duplicate members

The two scanners that look for a repeated member name before a document is
decoded. Both read what `json.Decoder.Token` delivers: no commas and no
colons, and strings that are unquoted already. `rejectDuplicateMembers` of
the Router keeps a stack of frames and has to find out from the tokens
alone which strings are names; `scanJSONValue` of the contracts is
recursive.

For both the lemma is about one value in the middle of a document: the
scanner passes over it, or it has found a name twice
(`scan_value`, `scanJSONValue_value`). That the stack follows the grammar
is stated with the automaton of `Json.Parser` (`Tracks`).
-/

namespace Nekiro

open Guard Json

/-! ## Delivered tokens -/

/-- What `Decoder.Token` returns. -/
inductive Delivered where
  | beginObject
  | endObject
  | beginArray
  | endArray
  | string (s : String)
  /-- A number, a boolean or null. -/
  | scalar
deriving Repr, DecidableEq

def Json.Token.delivered : Token → Option Delivered
  | .beginObject => some .beginObject
  | .endObject => some .endObject
  | .beginArray => some .beginArray
  | .endArray => some .endArray
  | .colon | .comma => none
  | .string raw => some (.string (unquote raw))
  | .number _ | .bool _ | .null => some .scalar

def delivered (tokens : List Token) : List Delivered := tokens.filterMap Token.delivered

/-- What is delivered for one member. -/
def deliveredMember (m : Bytes × Json.Value) : List Delivered :=
  .string (unquote m.1) :: delivered m.2.tokens

theorem delivered_append (a b : List Token) : delivered (a ++ b) = delivered a ++ delivered b :=
  List.filterMap_append

theorem delivered_moreItems (items : List Json.Value) :
    delivered (moreItems items) = items.flatMap fun v => delivered v.tokens := by
  induction items with
  | nil => rfl
  | cons v items ih =>
      have hcomma : delivered (.comma :: (v.tokens ++ moreItems items)) =
          delivered (v.tokens ++ moreItems items) := rfl
      rw [moreItems, hcomma, delivered_append, ih, List.flatMap_cons]

theorem delivered_moreMembers (members : List (Bytes × Json.Value)) :
    delivered (moreMembers members) = members.flatMap deliveredMember := by
  induction members with
  | nil => rfl
  | cons m members ih =>
      obtain ⟨key, v⟩ := m
      have hname :
          delivered (.comma :: .string key :: .colon :: (v.tokens ++ moreMembers members)) =
          .string (unquote key) :: delivered (v.tokens ++ moreMembers members) := rfl
      rw [moreMembers, hname, delivered_append, ih, List.flatMap_cons, deliveredMember,
        List.cons_append]

theorem delivered_array (items : List Json.Value) :
    delivered (Value.array items).tokens =
      .beginArray :: ((items.flatMap fun v => delivered v.tokens) ++ [.endArray]) := by
  cases items with
  | nil => rfl
  | cons v items =>
      have hbegin : ∀ tokens, delivered (.beginArray :: tokens) = .beginArray :: delivered tokens :=
        fun _ => rfl
      have hend : delivered [.endArray] = [.endArray] := rfl
      rw [Value.tokens, hbegin, delivered_append, delivered_append, delivered_moreItems, hend,
        List.flatMap_cons, List.append_assoc]

theorem delivered_object (members : List (Bytes × Json.Value)) :
    delivered (Value.object members).tokens =
      .beginObject :: (members.flatMap deliveredMember ++ [.endObject]) := by
  cases members with
  | nil => rfl
  | cons m members =>
      obtain ⟨key, v⟩ := m
      have hbegin : ∀ tokens, delivered (.beginObject :: .string key :: .colon :: tokens) =
          .beginObject :: .string (unquote key) :: delivered tokens :=
        fun _ => rfl
      have hend : delivered [.endObject] = [.endObject] := rfl
      rw [Value.tokens, hbegin, delivered_append, delivered_append, delivered_moreMembers, hend,
        List.flatMap_cons, deliveredMember, List.cons_append, List.cons_append, List.append_assoc]

/-! ## The scanner with a stack -/

inductive ScanError where
  | duplicate (name : String)
  /-- `stack[:len(stack)-1]` of an empty stack. -/
  | underflow
  | eof
  | memberName
  | delimiter
  | closing
  | trailing
  | fuel
deriving Repr, DecidableEq

structure JsonFrame where
  object : Bool
  expecting : Bool
  members : List String
deriving Repr, DecidableEq

/-- `markValueConsumed`; the top of the stack is its head. -/
def markValueConsumed : List JsonFrame → List JsonFrame
  | [] => []
  | top :: stack => if top.object then { top with expecting := true } :: stack else top :: stack

/-- One token of `rejectDuplicateMembers`. -/
def scanToken (stack : List JsonFrame) : Delivered → Except ScanError (List JsonFrame)
  | .beginObject => .ok (⟨true, true, []⟩ :: stack)
  | .beginArray => .ok (⟨false, false, []⟩ :: stack)
  | .endObject | .endArray =>
      match stack with
      | [] => .error .underflow
      | _ :: stack => .ok (markValueConsumed stack)
  | .string value =>
      match stack with
      | [] => .ok []
      | top :: rest =>
          if top.object && top.expecting then
            if value ∈ top.members then .error (.duplicate value)
            else .ok (⟨top.object, false, value :: top.members⟩ :: rest)
          else .ok (markValueConsumed (top :: rest))
  | .scalar => .ok (markValueConsumed stack)

def scanTokens (stack : List JsonFrame) (tokens : List Delivered) :
    Except ScanError (List JsonFrame) :=
  tokens.foldlM scanToken stack

def rejectDuplicateMembers (tokens : List Delivered) : Except ScanError Unit := do
  let _ ← scanTokens [] tokens
  pure ()

theorem scanTokens_cons (stack : List JsonFrame) (t : Delivered) (tokens : List Delivered) :
    scanTokens stack (t :: tokens) = (scanToken stack t >>= fun stack => scanTokens stack tokens) :=
  rfl

theorem scanTokens_append (stack : List JsonFrame) (a b : List Delivered) :
    scanTokens stack (a ++ b) = (scanTokens stack a >>= fun stack => scanTokens stack b) :=
  List.foldlM_append

/-- The next token is not taken for a name. -/
def AtValue (stack : List JsonFrame) : Prop :=
  ∀ top ∈ stack.head?, (top.object && top.expecting) = false

variable {stack : List JsonFrame} {σ : Type} {result : Except ScanError σ} {limit : Nat}
  {st : Parser}

theorem scanToken_string (h : AtValue stack) (s : String) :
    scanToken stack (.string s) = .ok (markValueConsumed stack) := by
  cases stack with
  | nil => rfl
  | cons top rest =>
      have htop := h top rfl
      simp [scanToken, htop]

/-- The scan passes and the stack is `stack`, or a name has been found
twice, as `distinct` says. -/
def Decides {σ : Type} (distinct : Bool) (result : Except ScanError σ) (value : σ) : Prop :=
  (distinct = true → result = .ok value)
    ∧ (distinct = false → ∃ name, result = .error (.duplicate name))

theorem Decides.ok (value : σ) : Decides true (.ok value) value :=
  ⟨fun _ => rfl, fun h => absurd h (by simp)⟩

/-- A scan and what follows it. -/
theorem Decides.bind {τ : Type} {a b : Bool} {value : σ} {next : σ → Except ScanError τ}
    {value' : τ} (h : Decides a result value) (hnext : Decides b (next value) value') :
    Decides (a && b) (result >>= next) value' := by
  cases a with
  | true =>
      rw [h.1 rfl, Bool.true_and]
      exact hnext
  | false =>
      obtain ⟨name, hname⟩ := h.2 rfl
      rw [hname, Bool.false_and]
      exact ⟨fun h => absurd h (by simp), fun _ => ⟨name, rfl⟩⟩

/-- Induction over the items and members of a value. -/
theorem Json.Value.induction {P : Json.Value → Prop} (scalar : ∀ v : Json.Value,
      (∀ items, v ≠ .array items) → (∀ members, v ≠ .object members) → P v)
    (array : ∀ items, (∀ v ∈ items, P v) → P (.array items))
    (object : ∀ members, (∀ m ∈ members, P m.2) → P (.object members)) : ∀ v, P v
  | .null => scalar _ (by simp) (by simp)
  | .bool _ => scalar _ (by simp) (by simp)
  | .number _ => scalar _ (by simp) (by simp)
  | .string _ => scalar _ (by simp) (by simp)
  | .array items => array items fun v _ => Value.induction scalar array object v
  | .object members => object members fun m _ => Value.induction scalar array object m.2
termination_by v => sizeOf v
decreasing_by
  · have := List.sizeOf_lt_of_mem ‹v ∈ items›
    simp only [Json.Value.array.sizeOf_spec]
    omega
  · have := List.sizeOf_lt_of_mem ‹m ∈ members›
    obtain ⟨key, v⟩ := m
    simp only [Json.Value.object.sizeOf_spec, Prod.mk.sizeOf_spec] at *
    omega

/-- Whether members may follow the names that were seen. -/
def distinctFrom (seen : List String) : List (Bytes × Json.Value) → Bool
  | [] => true
  | m :: members =>
      !decide (unquote m.1 ∈ seen)
        && (distinctMembers m.2 && distinctFrom (unquote m.1 :: seen) members)

theorem distinctFrom_eq (seen : List String) (members : List (Bytes × Json.Value)) :
    distinctFrom seen members = true ↔
      (∀ m ∈ members, unquote m.1 ∉ seen) ∧ (members.map fun m => unquote m.1).Nodup
        ∧ distinctValues members = true := by
  induction members generalizing seen with
  | nil => simp [distinctFrom, distinctValues]
  | cons m members ih =>
      obtain ⟨key, v⟩ := m
      rw [List.forall_mem_cons]
      simp only [distinctFrom, distinctValues, Bool.and_eq_true, Bool.not_eq_true',
        decide_eq_false_iff_not, ih, List.map_cons, List.nodup_cons, List.mem_map, List.mem_cons,
        not_or, not_exists, not_and]
      constructor
      · rintro ⟨hkey, hv, hseen, hnodup, hvalues⟩
        exact ⟨⟨hkey, fun m hm => (hseen m hm).2⟩, ⟨fun m hm h => (hseen m hm).1 h, hnodup⟩, hv,
          hvalues⟩
      · rintro ⟨⟨hkey, hseen⟩, ⟨hfresh, hnodup⟩, hv, hvalues⟩
        exact ⟨hkey, hv, fun m hm => ⟨hfresh m hm, hseen m hm⟩, hnodup, hvalues⟩

theorem distinctMembers_object (members : List (Bytes × Json.Value)) :
    distinctMembers (.object members) = distinctFrom [] members := by
  rw [Bool.eq_iff_iff, distinctFrom_eq, distinctMembers, Bool.and_eq_true, decide_eq_true_eq]
  simp

theorem distinctItems_cons (v : Json.Value) (items : List Json.Value) :
    distinctItems (v :: items) = (distinctMembers v && distinctItems items) := by
  rw [distinctItems]

/-- One value, in the middle of a document. -/
theorem scan_value (v : Json.Value) : ∀ stack, AtValue stack →
    Decides (distinctMembers v) (scanTokens stack (delivered v.tokens))
      (markValueConsumed stack) := by
  induction v using Json.Value.induction with
  | scalar v hitems hmembers =>
      intro stack hstack
      cases v with
      | null | bool | number => exact .ok _
      | string raw =>
          have hscan : scanTokens stack (delivered (Value.string raw).tokens) =
              (scanToken stack (.string (unquote raw)) >>= pure) := rfl
          rw [hscan, scanToken_string hstack]
          exact .ok _
      | array items => exact absurd rfl (hitems items)
      | object members => exact absurd rfl (hmembers members)
  | array items ih =>
      intro stack hstack
      -- the frame of the array stays on top, and nothing is expected in it
      have hloop : ∀ items : List Json.Value, (∀ v ∈ items, ∀ stack, AtValue stack →
          Decides (distinctMembers v) (scanTokens stack (delivered v.tokens))
            (markValueConsumed stack)) →
          Decides (distinctItems items) (scanTokens (⟨false, false, []⟩ :: stack)
            (items.flatMap fun v => delivered v.tokens)) (⟨false, false, []⟩ :: stack) := by
        intro items
        induction items with
        | nil => exact fun _ => .ok _
        | cons v items ih =>
            intro h
            obtain ⟨hv, hitems⟩ := List.forall_mem_cons.mp h
            rw [List.flatMap_cons, scanTokens_append, distinctItems_cons]
            exact (hv _ (by rintro top ⟨⟩; rfl)).bind (ih hitems)
      rw [delivered_array, scanTokens_cons, distinctMembers]
      have hend : Decides true (scanTokens (⟨false, false, []⟩ :: stack) [.endArray])
          (markValueConsumed stack) := .ok _
      rw [scanToken, ok_bind, scanTokens_append, ← Bool.and_true (distinctItems items)]
      exact (hloop items ih).bind hend
  | object members ih =>
      intro stack hstack
      -- at a member the frame expects a name
      have hloop : ∀ (members : List (Bytes × Json.Value)) (seen : List String),
          (∀ m ∈ members, ∀ stack, AtValue stack →
            Decides (distinctMembers m.2) (scanTokens stack (delivered m.2.tokens))
              (markValueConsumed stack)) →
          Decides (distinctFrom seen members) (scanTokens (⟨true, true, seen⟩ :: stack)
              (members.flatMap deliveredMember))
            (⟨true, true, (members.map fun m => unquote m.1).reverse ++ seen⟩ :: stack) := by
        intro members
        induction members with
        | nil => exact fun seen _ => .ok _
        | cons m members ih =>
            intro seen h
            obtain ⟨hm, hmembers⟩ := List.forall_mem_cons.mp h
            rw [List.flatMap_cons, deliveredMember, List.cons_append, scanTokens_cons, distinctFrom]
            have hname : Decides (!decide (unquote m.1 ∈ seen))
                (scanToken (⟨true, true, seen⟩ :: stack) (.string (unquote m.1)))
                (⟨true, false, unquote m.1 :: seen⟩ :: stack) := by
              by_cases hseen : unquote m.1 ∈ seen <;> simp [Decides, scanToken, hseen]
            refine hname.bind ?_
            rw [scanTokens_append]
            refine (hm _ (by rintro top ⟨⟩; rfl)).bind ?_
            have hrest := ih (unquote m.1 :: seen) hmembers
            rwa [List.map_cons, List.reverse_cons, List.append_assoc]
      rw [delivered_object, scanTokens_cons, distinctMembers_object]
      have hend : Decides true (scanTokens
          (⟨true, true, (members.map fun m => unquote m.1).reverse ++ []⟩ :: stack) [.endObject])
          (markValueConsumed stack) := .ok _
      rw [scanToken, ok_bind, scanTokens_append, ← Bool.and_true (distinctFrom [] members)]
      exact (hloop members [] ih).bind hend

/-! ## The recursive scanner -/

/-- `decoder.More()`. -/
def more : List Delivered → Bool
  | [] | .endObject :: _ | .endArray :: _ => false
  | _ => true

mutual

/-- `scanJSONValue`, with what is left of the tokens. -/
def scanJSONValue : Nat → List Delivered → Except ScanError (List Delivered)
  | 0, _ => .error .fuel
  | _ + 1, [] => .error .eof
  | fuel + 1, .beginObject :: tokens => scanMembers fuel [] tokens
  | fuel + 1, .beginArray :: tokens => scanItems fuel tokens
  | _ + 1, .endObject :: _ => .error .delimiter
  | _ + 1, .endArray :: _ => .error .delimiter
  | _ + 1, .string _ :: tokens => .ok tokens
  | _ + 1, .scalar :: tokens => .ok tokens

/-- The loop over the members of an object. -/
def scanMembers : Nat → List String → List Delivered → Except ScanError (List Delivered)
  | 0, _, _ => .error .fuel
  | fuel + 1, members, tokens =>
      if more tokens then
        match tokens with
        | .string name :: tokens =>
            if name ∈ members then .error (.duplicate name)
            else do
              let tokens ← scanJSONValue fuel tokens
              scanMembers fuel (name :: members) tokens
        | _ => .error .memberName
      else
        match tokens with
        | .endObject :: tokens => .ok tokens
        | [] => .error .eof
        | _ => .error .closing

/-- The loop over the items of an array. -/
def scanItems : Nat → List Delivered → Except ScanError (List Delivered)
  | 0, _ => .error .fuel
  | fuel + 1, tokens =>
      if more tokens then do
        let tokens ← scanJSONValue fuel tokens
        scanItems fuel tokens
      else
        match tokens with
        | .endArray :: tokens => .ok tokens
        | [] => .error .eof
        | _ => .error .closing

end

/-- Two calls for each token are enough. -/
def rejectDuplicateJSONMemberNames (tokens : List Delivered) : Except ScanError Unit := do
  let rest ← scanJSONValue (2 * tokens.length) tokens
  require (rest = []) .trailing

theorem scanItems_end (fuel : Nat) (rest : List Delivered) :
    scanItems (fuel + 1) (.endArray :: rest) = .ok rest := by
  simp [scanItems, more]

theorem scanItems_of_more {tokens : List Delivered} (h : more tokens = true) (fuel : Nat) :
    scanItems (fuel + 1) tokens = (scanJSONValue fuel tokens >>= scanItems fuel) := by
  unfold scanItems
  rw [if_pos h]

theorem scanMembers_end (fuel : Nat) (seen : List String) (rest : List Delivered) :
    scanMembers (fuel + 1) seen (.endObject :: rest) = .ok rest := by
  simp [scanMembers, more]

theorem scanMembers_name (fuel : Nat) (seen : List String) (name : String)
    (tokens : List Delivered) :
    scanMembers (fuel + 1) seen (.string name :: tokens) =
      if name ∈ seen then .error (.duplicate name)
      else scanJSONValue fuel tokens >>= scanMembers fuel (name :: seen) := by
  simp [scanMembers, more]

theorem more_value (v : Json.Value) (rest : List Delivered) :
    more (delivered v.tokens ++ rest) = true := by
  cases v with
  | null | bool | number | string => rfl
  | array items =>
      rw [delivered_array]
      rfl
  | object members =>
      rw [delivered_object]
      rfl

theorem length_delivered_pos (v : Json.Value) : 0 < (delivered v.tokens).length := by
  by_contra h
  have hnil := List.length_eq_zero_iff.mp (Nat.eq_zero_of_not_pos h)
  have hmore := more_value v []
  rw [hnil] at hmore
  exact absurd hmore (by decide)

/-- One value, with enough calls left for its tokens. -/
theorem scanJSONValue_value (v : Json.Value) : ∀ (fuel : Nat) (rest : List Delivered),
    2 * (delivered v.tokens).length ≤ fuel →
    Decides (distinctMembers v) (scanJSONValue fuel (delivered v.tokens ++ rest)) rest := by
  induction v using Json.Value.induction with
  | scalar v hitems hmembers =>
      intro fuel rest hfuel
      have hpos := length_delivered_pos v
      obtain ⟨fuel, rfl⟩ : ∃ n, fuel = n + 1 := ⟨fuel - 1, by omega⟩
      cases v with
      | null | bool | number | string => exact .ok _
      | array items => exact absurd rfl (hitems items)
      | object members => exact absurd rfl (hmembers members)
  | array items ih =>
      intro fuel rest hfuel
      have hloop : ∀ items : List Json.Value, (∀ v ∈ items, ∀ (fuel : Nat) (rest : List Delivered),
          2 * (delivered v.tokens).length ≤ fuel →
          Decides (distinctMembers v) (scanJSONValue fuel (delivered v.tokens ++ rest)) rest) →
          ∀ fuel, 2 * (items.flatMap fun v => delivered v.tokens).length + 1 ≤ fuel →
          Decides (distinctItems items) (scanItems fuel
            ((items.flatMap fun v => delivered v.tokens) ++ .endArray :: rest)) rest := by
        intro items
        induction items with
        | nil =>
            intro _ fuel hfuel
            obtain ⟨fuel, rfl⟩ : ∃ n, fuel = n + 1 := ⟨fuel - 1, by omega⟩
            rw [distinctItems, List.flatMap_nil, List.nil_append, scanItems_end]
            exact .ok _
        | cons v items ih =>
            intro h fuel hfuel
            obtain ⟨hv, hitems⟩ := List.forall_mem_cons.mp h
            have hpos := length_delivered_pos v
            rw [List.flatMap_cons, List.length_append] at hfuel
            obtain ⟨fuel, rfl⟩ : ∃ n, fuel = n + 1 := ⟨fuel - 1, by omega⟩
            rw [List.flatMap_cons, List.append_assoc, scanItems_of_more (more_value v _),
              distinctItems_cons]
            exact (hv fuel _ (by omega)).bind (ih hitems fuel (by omega))
      rw [delivered_array, List.length_cons, List.length_append] at hfuel
      obtain ⟨fuel, rfl⟩ : ∃ n, fuel = n + 1 := ⟨fuel - 1, by omega⟩
      rw [delivered_array, List.cons_append, List.append_assoc, scanJSONValue, distinctMembers]
      exact hloop items ih fuel (by simp only [List.length_singleton] at hfuel; omega)
  | object members ih =>
      intro fuel rest hfuel
      have hloop : ∀ (members : List (Bytes × Json.Value)) (seen : List String),
          (∀ m ∈ members, ∀ (fuel : Nat) (rest : List Delivered),
            2 * (delivered m.2.tokens).length ≤ fuel →
            Decides (distinctMembers m.2) (scanJSONValue fuel (delivered m.2.tokens ++ rest))
              rest) →
          ∀ fuel, 2 * (members.flatMap deliveredMember).length + 1 ≤ fuel →
          Decides (distinctFrom seen members) (scanMembers fuel seen
            (members.flatMap deliveredMember ++ .endObject :: rest)) rest := by
        intro members
        induction members with
        | nil =>
            intro seen _ fuel hfuel
            obtain ⟨fuel, rfl⟩ : ∃ n, fuel = n + 1 := ⟨fuel - 1, by omega⟩
            rw [distinctFrom, List.flatMap_nil, List.nil_append, scanMembers_end]
            exact .ok _
        | cons m members ih =>
            intro seen h fuel hfuel
            obtain ⟨hm, hmembers⟩ := List.forall_mem_cons.mp h
            rw [List.flatMap_cons, deliveredMember, List.length_append, List.length_cons] at hfuel
            obtain ⟨fuel, rfl⟩ : ∃ n, fuel = n + 1 := ⟨fuel - 1, by omega⟩
            rw [List.flatMap_cons, deliveredMember, List.cons_append, List.cons_append,
              List.append_assoc, scanMembers_name, distinctFrom]
            by_cases hseen : unquote m.1 ∈ seen
            · simp [Decides, hseen]
            · simp only [hseen, if_false, decide_false, Bool.not_false, Bool.true_and]
              exact (hm fuel _ (by omega)).bind (ih (unquote m.1 :: seen) hmembers fuel (by omega))
      rw [delivered_object, List.length_cons, List.length_append] at hfuel
      obtain ⟨fuel, rfl⟩ : ∃ n, fuel = n + 1 := ⟨fuel - 1, by omega⟩
      rw [delivered_object, List.cons_append, List.append_assoc, scanJSONValue,
        distinctMembers_object]
      exact hloop members [] ih fuel (by simp only [List.length_singleton] at hfuel; omega)

/-! ## The stack and the grammar -/

/-- The state of the grammar in which the next string is a name. -/
def Json.Expect.isName : Expect → Bool
  | .key | .keyOrEnd | .commaOrEnd => true
  | .value | .valueOrEnd | .colon | .done => false

def JsonFrame.frame (f : JsonFrame) : Frame := if f.object then .object else .array

/-- The scanner's stack next to the state of the grammar. -/
structure Tracks (st : Parser) (stack : List JsonFrame) : Prop where
  frames : st.stack = stack.map JsonFrame.frame
  top : ∀ top ∈ stack.head?, top.object = true → top.expecting = st.expect.isName
  named : st.expect = .key ∨ st.expect = .keyOrEnd ∨ st.expect = .colon →
    st.stack.head? = some .object
  value : st.expect = .valueOrEnd → st.stack.head? = some .array

theorem tracks_start : Tracks Parser.start [] :=
  ⟨rfl, by simp, by simp [Parser.start], by simp [Parser.start]⟩

/-- After a value. -/
theorem tracks_completed {frames : List Frame} (h : frames = stack.map JsonFrame.frame) :
    Tracks (Parser.completed frames) (markValueConsumed stack) := by
  subst h
  cases stack with
  | nil =>
      exact ⟨rfl, by simp [markValueConsumed], by simp [Parser.completed],
        by simp [Parser.completed]⟩
  | cons top rest =>
      refine ⟨?_, ?_, by simp [Parser.completed], by simp [Parser.completed]⟩
      · cases hobject : top.object <;> simp [markValueConsumed, hobject, Parser.completed,
          JsonFrame.frame]
      · cases hobject : top.object <;> simp [markValueConsumed, hobject, Parser.completed,
          Expect.isName]

/-- A frame is opened. -/
theorem tracks_opened (object : Bool)
    (h : Parser.opened limit (if object then .keyOrEnd else .valueOrEnd)
      (if object then .object else .array) (stack.map JsonFrame.frame) = some st) :
    Tracks st (⟨object, object, []⟩ :: stack) := by
  unfold Parser.opened at h
  split_ifs at h with hlimit hobject
  · cases h
    subst hobject
    exact ⟨rfl, by simp [Expect.isName], by simp, by simp⟩
  · cases h
    simp only [Bool.not_eq_true] at hobject
    subst hobject
    exact ⟨rfl, by simp, by simp, by simp⟩

/-- What the scanner does with one token of a document. -/
def scanDelivered (stack : List JsonFrame) (token : Token) : Except ScanError (List JsonFrame) :=
  scanTokens stack (delivered [token])

/-- Where a value may begin, no name is expected. -/
theorem Tracks.atValue (h : Tracks st stack) (hst : st.expect = .value ∨ st.expect = .valueOrEnd) :
    AtValue stack := by
  intro top htop
  cases hobject : top.object with
  | false => rfl
  | true =>
      have hexpecting := h.top top htop hobject
      rcases hst with hst | hst <;> rw [hst] at hexpecting <;> simp [hexpecting, Expect.isName]

/-- A token where a value may begin. -/
theorem Tracks.stepValue {st' : Parser} {token : Token} (h : Tracks st stack)
    (hst : st.expect = .value ∨ st.expect = .valueOrEnd)
    (hstep : Parser.value limit st.stack token = some st') :
    ∃ stack', scanDelivered stack token = .ok stack' ∧ Tracks st' stack' := by
  rw [h.frames] at hstep
  cases token with
  | beginObject => exact ⟨_, rfl, tracks_opened true hstep⟩
  | beginArray => exact ⟨_, rfl, tracks_opened false hstep⟩
  | string raw =>
      cases hstep
      have hscan : scanDelivered stack (.string raw) =
          (scanToken stack (.string (unquote raw)) >>= pure) := rfl
      rw [hscan, scanToken_string (h.atValue hst)]
      exact ⟨_, rfl, tracks_completed rfl⟩
  | number | bool | null =>
      cases hstep
      exact ⟨_, rfl, tracks_completed rfl⟩
  | endObject | endArray | colon | comma => cases hstep

/-- A name. -/
theorem Tracks.stepName {raw : Bytes} (h : Tracks st stack)
    (hst : st.expect = .key ∨ st.expect = .keyOrEnd) :
    (∃ name, scanDelivered stack (.string raw) = .error (.duplicate name))
      ∨ ∃ stack', scanDelivered stack (.string raw) = .ok stack'
        ∧ Tracks ⟨.colon, st.stack⟩ stack' := by
  have hhead := h.named (by tauto)
  rw [h.frames] at hhead
  cases stack with
  | nil => simp at hhead
  | cons top rest =>
      have hobject : top.object = true := by
        by_contra hobject
        simp [JsonFrame.frame, hobject] at hhead
      have hexpecting : top.expecting = true := by
        rw [h.top top rfl hobject]
        rcases hst with hst | hst <;> rw [hst] <;> rfl
      have hscan : scanDelivered (top :: rest) (.string raw) =
          (scanToken (top :: rest) (.string (unquote raw)) >>= pure) := rfl
      rw [hscan, scanToken]
      simp only [hobject, hexpecting, Bool.and_self, if_true]
      split_ifs with hseen
      · exact .inl ⟨_, rfl⟩
      · refine .inr ⟨_, rfl, ?_, by simp [Expect.isName], ?_, by simp⟩
        · rw [h.frames]
          simp [JsonFrame.frame, hobject]
        · intro _
          rw [h.frames]
          simp [JsonFrame.frame, hobject]

/-- A frame is closed. -/
theorem tracks_closed (h : Tracks st stack) {frame : Frame} {frames : List Frame}
    (hframes : st.stack = frame :: frames) {token : Token}
    (htoken : token = .endObject ∨ token = .endArray) :
    ∃ stack', scanDelivered stack token = .ok stack' ∧ Tracks (Parser.completed frames) stack' := by
  rw [h.frames] at hframes
  cases stack with
  | nil => simp at hframes
  | cons top rest =>
      simp only [List.map_cons, List.cons.injEq] at hframes
      refine ⟨markValueConsumed rest, ?_, tracks_completed hframes.2.symm⟩
      rcases htoken with rfl | rfl <;> rfl

/-- A comma or a colon. -/
theorem Tracks.separated (h : Tracks st stack) {expect : Expect}
    (hexpect : st.stack.head? = some .object → expect.isName = st.expect.isName)
    (hnamed : expect = .key ∨ expect = .keyOrEnd ∨ expect = .colon → st.stack.head? = some .object)
    (hvalue : expect = .valueOrEnd → st.stack.head? = some .array) :
    Tracks ⟨expect, st.stack⟩ stack := by
  refine ⟨h.frames, fun top htop hobject => ?_, hnamed, hvalue⟩
  rw [h.top top htop hobject]
  refine (hexpect ?_).symm
  cases stack with
  | nil => simp at htop
  | cons t rest =>
      cases htop
      rw [h.frames]
      simp [JsonFrame.frame, hobject]

/-- **The stack follows the grammar**, as long as no name is repeated. -/
theorem Tracks.step {limit : Nat} {st st' : Parser} {stack : List JsonFrame} {token : Token}
    (h : Tracks st stack) (hstep : Parser.step limit st token = some st') :
    (∃ name, scanDelivered stack token = .error (.duplicate name))
      ∨ ∃ stack', scanDelivered stack token = .ok stack' ∧ Tracks st' stack' := by
  obtain ⟨expect, frames⟩ := st
  unfold Parser.step at hstep
  simp only [] at hstep
  split at hstep
  · cases hstep
    exact .inr (tracks_closed h rfl (.inr rfl))
  · exact .inr (h.stepValue (.inl rfl) hstep)
  · exact .inr (h.stepValue (.inr rfl) hstep)
  · cases hstep
    exact .inr (tracks_closed h rfl (.inl rfl))
  · cases hstep
    exact h.stepName (.inl rfl)
  · cases hstep
    exact h.stepName (.inr rfl)
  · cases hstep
    exact .inr ⟨stack, rfl, h.separated (fun _ => rfl) (by simp) (by simp)⟩
  · cases hstep
    exact .inr ⟨stack, rfl, h.separated (fun _ => rfl) (by simp) (by simp)⟩
  · cases hstep
    exact .inr ⟨stack, rfl, h.separated (by simp) (by simp) (by simp)⟩
  · cases hstep
    exact .inr (tracks_closed h rfl (.inl rfl))
  · cases hstep
    exact .inr (tracks_closed h rfl (.inr rfl))
  · cases hstep

/-- The same for a run of tokens. -/
theorem Tracks.run {tokens : List Token} : ∀ {st st' : Parser}
    {stack : List JsonFrame}, Tracks st stack →
    tokens.foldlM (fun st token => Parser.step limit st token) st = some st' →
    (∃ name, scanTokens stack (delivered tokens) = .error (.duplicate name))
      ∨ ∃ stack', scanTokens stack (delivered tokens) = .ok stack' ∧ Tracks st' stack' := by
  induction tokens with
  | nil =>
      intro st st' stack h hrun
      cases hrun
      exact .inr ⟨stack, rfl, h⟩
  | cons token tokens ih =>
      intro st st' stack h hrun
      rw [List.foldlM_cons, Option.bind_eq_bind, Option.bind_eq_some_iff] at hrun
      obtain ⟨st₁, hstep, hrun⟩ := hrun
      have hsplit : scanTokens stack (delivered (token :: tokens)) =
          (scanDelivered stack token >>= fun stack => scanTokens stack (delivered tokens)) := by
        rw [← List.singleton_append, delivered_append, scanTokens_append, scanDelivered]
      rw [hsplit]
      rcases h.step hstep with ⟨name, hname⟩ | ⟨stack₁, hscan, htracks⟩
      · exact .inl ⟨name, by rw [hname, error_bind]⟩
      · rw [hscan, ok_bind]
        exact ih htracks hrun

/-- The grammar at a place of a document. -/
theorem parser_split {v : Json.Value} (h : v.WellFormed limit) {before after : List Token}
    (hsplit : v.tokens = before ++ after) :
    ∃ st, before.foldlM (Parser.step limit) Parser.start = some st
      ∧ after.foldlM (Parser.step limit) st = some ⟨.done, []⟩ := by
  have hread : Builder.start.run limit v.tokens = some (Builder.completed [] v) :=
    Builder.reads_of_wellFormed h (by simp) none
  have hparser := @Builder.map_parser_run limit Builder.start v.tokens
  rw [hread, Option.map_some, hsplit, List.foldlM_append, eq_comm, Option.bind_eq_bind,
    Option.bind_eq_some_iff] at hparser
  exact hparser

/-- A string is a name exactly if a colon follows. -/
theorem isName_iff_colon {raw : Bytes} {after : List Token}
    (h : (Token.string raw :: after).foldlM (Parser.step limit) st = some ⟨.done, []⟩) :
    (st.expect = .key ∨ st.expect = .keyOrEnd) ∧ after.head? = some .colon
      ∨ (st.expect = .value ∨ st.expect = .valueOrEnd) ∧ after.head? ≠ some .colon := by
  obtain ⟨expect, frames⟩ := st
  rw [List.foldlM_cons, Option.bind_eq_bind, Option.bind_eq_some_iff] at h
  obtain ⟨st₁, hstep, hrun⟩ := h
  have hnext : ∀ {st : Parser} {tokens : List Token},
      tokens.foldlM (Parser.step limit) st = some ⟨.done, []⟩ →
      st.expect = .colon → tokens.head? = some .colon := by
    intro st tokens hrun hcolon
    obtain ⟨expect, frames⟩ := st
    simp only [] at hcolon
    subst hcolon
    cases tokens with
    | nil => cases hrun
    | cons token tokens =>
        rw [List.foldlM_cons, Option.bind_eq_bind, Option.bind_eq_some_iff] at hrun
        obtain ⟨st', hstep, -⟩ := hrun
        cases token <;> simp_all [Parser.step]
  have hcompleted : ∀ {frames : List Frame} {tokens : List Token},
      tokens.foldlM (Parser.step limit) (Parser.completed frames) = some ⟨.done, []⟩ →
      tokens.head? ≠ some .colon := by
    intro frames tokens hrun hcolon
    cases tokens with
    | nil => cases hcolon
    | cons token tokens =>
        cases hcolon
        rw [List.foldlM_cons, Option.bind_eq_bind, Option.bind_eq_some_iff] at hrun
        obtain ⟨st', hstep, -⟩ := hrun
        rcases frames with _ | ⟨_ | _, _⟩ <;> simp [Parser.step, Parser.completed] at hstep
  cases expect with
  | key =>
      cases hstep
      exact .inl ⟨.inl rfl, hnext hrun rfl⟩
  | keyOrEnd =>
      have hstep' : Parser.step limit ⟨.keyOrEnd, frames⟩ (.string raw) =
          some ⟨.colon, frames⟩ := by
        rcases frames with _ | ⟨_ | _, _⟩ <;> rfl
      rw [hstep'] at hstep
      cases hstep
      exact .inl ⟨.inr rfl, hnext hrun rfl⟩
  | value =>
      cases hstep
      exact .inr ⟨.inl rfl, hcompleted hrun⟩
  | valueOrEnd =>
      have hstep' : Parser.step limit ⟨.valueOrEnd, frames⟩ (.string raw) =
          some (Parser.completed frames) := by
        rcases frames with _ | ⟨_ | _, _⟩ <;> rfl
      rw [hstep'] at hstep
      cases hstep
      exact .inr ⟨.inr rfl, hcompleted hrun⟩
  | colon | commaOrEnd | done =>
      rcases frames with _ | ⟨_ | _, _⟩ <;> simp [Parser.step] at hstep

/-! ## The language -/

/-- A value stands in another one, or is it. -/
inductive Json.Value.Inside (w : Json.Value) : Json.Value → Prop
  | self : Inside w w
  | item {v : Json.Value} {items : List Json.Value} : v ∈ items → Inside w v →
      Inside w (.array items)
  | member {m : Bytes × Json.Value} {members : List (Bytes × Json.Value)} :
      m ∈ members → Inside w m.2 → Inside w (.object members)

/-- No object at any depth has two members of one name. -/
def Json.Value.DistinctNames (v : Json.Value) : Prop :=
  ∀ members, Json.Value.Inside (.object members) v → (members.map fun m => unquote m.1).Nodup

theorem distinctMembers_iff (v : Json.Value) : distinctMembers v = true ↔ v.DistinctNames := by
  induction v using Json.Value.induction with
  | scalar v hitems hmembers =>
      have htrue : distinctMembers v = true := by
        cases v with
        | null | bool | number | string => rfl
        | array items => exact absurd rfl (hitems items)
        | object members => exact absurd rfl (hmembers members)
      refine iff_of_true htrue fun members hinside => ?_
      cases hinside with
      | self => exact absurd rfl (hmembers members)
      | item _ _ => exact absurd rfl (hitems _)
      | member _ _ => exact absurd rfl (hmembers _)
  | array items ih =>
      rw [distinctMembers, distinctItems_iff]
      constructor
      · intro h members hinside
        cases hinside with
        | item hv hinside => exact (ih _ hv).mp (h _ hv) members hinside
      · exact fun h v hv => (ih v hv).mpr fun members hinside => h members (.item hv hinside)
  | object members ih =>
      rw [distinctMembers, Bool.and_eq_true, decide_eq_true_eq, distinctValues_iff]
      constructor
      · rintro ⟨hnodup, hvalues⟩ members' hinside
        cases hinside with
        | self => exact hnodup
        | member hm hinside => exact (ih _ hm).mp (hvalues _ hm) members' hinside
      · intro h
        exact ⟨h members .self, fun m hm => (ih m hm).mpr fun members' hinside =>
          h members' (.member hm hinside)⟩

theorem Decides.ok_iff {distinct : Bool} {value : σ} (h : Decides distinct result value) :
    (∃ r, result = .ok r) ↔ distinct = true := by
  constructor
  · rintro ⟨r, hr⟩
    by_contra hdistinct
    obtain ⟨name, hname⟩ := h.2 (Bool.not_eq_true _ ▸ hdistinct)
    rw [hname] at hr
    cases hr
  · exact fun hdistinct => ⟨value, h.1 hdistinct⟩

/-- **Both scanners accept the documents without a repeated name**, and in
the one with a stack the top frame expects a name exactly at the names. -/
theorem duplicate_scanners_agree {limit : Nat} {v : Json.Value} (h : v.WellFormed limit) :
    (rejectDuplicateMembers (delivered v.tokens) = .ok () ↔ v.DistinctNames)
      ∧ (rejectDuplicateJSONMemberNames (delivered v.tokens) = .ok () ↔ v.DistinctNames)
      ∧ (∀ before raw after stack, v.tokens = before ++ .string raw :: after →
        scanTokens [] (delivered before) = .ok stack →
        ((∃ top ∈ stack.head?, top.object = true ∧ top.expecting = true) ↔
          after.head? = some .colon))
      ∧ ∀ before after, v.tokens = before ++ after →
        scanTokens [] (delivered before) ≠ .error .underflow := by
  have hnothing : AtValue [] := by
    intro top htop
    cases htop
  have hstack := scan_value v [] hnothing
  have hrecursive := scanJSONValue_value v (2 * (delivered v.tokens).length) [] le_rfl
  rw [List.append_nil] at hrecursive
  refine ⟨?_, ?_, ?_, ?_⟩
  · rw [← distinctMembers_iff, ← hstack.ok_iff, rejectDuplicateMembers, bind_ok_iff]
    exact ⟨fun ⟨r, hr, _⟩ => ⟨r, hr⟩, fun ⟨r, hr⟩ => ⟨r, hr, rfl⟩⟩
  · rw [← distinctMembers_iff, rejectDuplicateJSONMemberNames, bind_ok_iff]
    constructor
    · rintro ⟨r, hr, -⟩
      exact hrecursive.ok_iff.mp ⟨r, hr⟩
    · exact fun hdistinct => ⟨[], hrecursive.1 hdistinct, rfl⟩
  · intro before raw after stack hsplit hscan
    obtain ⟨st, hbefore, hafter⟩ := parser_split h hsplit
    rcases tracks_start.run hbefore with ⟨name, hname⟩ | ⟨stack', hscan', htracks⟩
    · rw [hname] at hscan
      cases hscan
    · obtain rfl : stack' = stack := Except.ok.inj (hscan'.symm.trans hscan)
      rcases isName_iff_colon hafter with ⟨hexpect, hcolon⟩ | ⟨hexpect, hcolon⟩
      · refine iff_of_true ?_ hcolon
        have hhead := htracks.named (by tauto)
        rw [htracks.frames] at hhead
        cases stack' with
        | nil => simp at hhead
        | cons top rest =>
            have hobject : top.object = true := by
              by_contra hobject
              simp [JsonFrame.frame, hobject] at hhead
            refine ⟨top, rfl, hobject, ?_⟩
            rw [htracks.top top rfl hobject]
            rcases hexpect with hexpect | hexpect <;> rw [hexpect] <;> rfl
      · refine iff_of_false ?_ hcolon
        rintro ⟨top, htop, hobject, hexpecting⟩
        have hvalue := htracks.atValue hexpect top htop
        rw [hobject, hexpecting] at hvalue
        cases hvalue
  · intro before after hsplit hunderflow
    obtain ⟨st, hbefore, -⟩ := parser_split h hsplit
    rcases tracks_start.run hbefore with ⟨name, hname⟩ | ⟨stack', hscan', -⟩
    · rw [hname] at hunderflow
      cases hunderflow
    · rw [hscan'] at hunderflow
      cases hunderflow

/-- A string value may repeat a sibling's name, a member may not. -/
theorem duplicate_scanners_agree_siblings :
    let once : Json.Value := .object [(utf8 "a", .string (utf8 "b")), (utf8 "b", .null)]
    let twice : Json.Value := .object [(utf8 "a", .null), (utf8 "\\u0061", .null)]
    (rejectDuplicateMembers (delivered once.tokens) = .ok () ↔ once.DistinctNames)
      ∧ once.DistinctNames ∧ ¬ twice.DistinctNames := by
  intro once twice
  have honce : once.WellFormed 1 :=
    .object (by simp [Token.Lexical]; decide) (by simp; exact ⟨.string rfl, .null⟩)
  exact ⟨(duplicate_scanners_agree honce).1, (distinctMembers_iff once).mp (by decide),
    fun h => absurd ((distinctMembers_iff twice).mpr h) (by decide)⟩

end Nekiro
