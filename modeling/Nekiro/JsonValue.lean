import Nekiro.Json

/-!
# JSON values

The tree of a JSON text, in both directions. A `Value` keeps the bytes of
its strings and numbers, so that it is the text up to white space:
`Value.text` writes it, `read` reads one document with the nesting limit of
the scanner. It names no program.

`Value.WellFormed limit` says which values `read limit` can return, and
`read_text` that every one of them is read back from its text. The reader
is the automaton of `Parser` with the open frames filled in; `wellFormed`
accepts the same documents (`isSome_read`).
-/

namespace Nekiro

namespace Json

/-- A value as its text has it. -/
inductive Value where
  | null
  | bool (value : Bool)
  | number (literal : Bytes)
  | string (raw : Bytes)
  | array (items : List Value)
  | object (members : List (Bytes × Value))
deriving Repr, Inhabited

mutual

def Value.tokens : Value → List Token
  | .null => [.null]
  | .bool value => [.bool value]
  | .number literal => [.number literal]
  | .string raw => [.string raw]
  | .array [] => [.beginArray, .endArray]
  | .array (item :: items) => .beginArray :: (item.tokens ++ (moreItems items ++ [.endArray]))
  | .object [] => [.beginObject, .endObject]
  | .object ((key, value) :: members) =>
      .beginObject :: .string key :: .colon ::
        (value.tokens ++ (moreMembers members ++ [.endObject]))

/-- The items after the first one. -/
def moreItems : List Value → List Token
  | [] => []
  | item :: items => .comma :: (item.tokens ++ moreItems items)

/-- The members after the first one. -/
def moreMembers : List (Bytes × Value) → List Token
  | [] => []
  | (key, value) :: members =>
      .comma :: .string key :: .colon :: (value.tokens ++ moreMembers members)

end

/-- The bytes of a token. -/
def Token.source : Token → Bytes
  | .beginObject => [0x7B]
  | .endObject => [0x7D]
  | .beginArray => [0x5B]
  | .endArray => [0x5D]
  | .colon => [0x3A]
  | .comma => [0x2C]
  | .string raw => 0x22 :: (raw ++ [0x22])
  | .number literal => literal
  | .bool true => [0x74, 0x72, 0x75, 0x65]
  | .bool false => [0x66, 0x61, 0x6C, 0x73, 0x65]
  | .null => [0x6E, 0x75, 0x6C, 0x6C]

/-- The text of a value, without white space. -/
def Value.text (v : Value) : Bytes := v.tokens.flatMap Token.source

/-! ## Reading -/

/-- A frame being read, with the key of the member that is next. -/
inductive Open where
  | array (items : List Value)
  | object (members : List (Bytes × Value)) (key : Bytes)

def Open.frame : Open → Frame
  | .array _ => .array
  | .object _ _ => .object

/-- The parser's state with what it has read. -/
structure Builder where
  expect : Expect
  stack : List Open
  root : Option Value

namespace Builder

def start : Builder := ⟨.value, [], none⟩

/-- After a complete value. -/
def completed : List Open → Value → Builder
  | [], v => ⟨.done, [], some v⟩
  | .array items :: stack, v => ⟨.commaOrEnd, .array (items ++ [v]) :: stack, none⟩
  | .object members key :: stack, v =>
      ⟨.commaOrEnd, .object (members ++ [(key, v)]) key :: stack, none⟩

def opened (limit : Nat) (expect : Expect) (frame : Open) (stack : List Open) : Option Builder :=
  if stack.length < limit then some ⟨expect, frame :: stack, none⟩ else none

def value (limit : Nat) (stack : List Open) : Token → Option Builder
  | .beginObject => opened limit .keyOrEnd (.object [] []) stack
  | .beginArray => opened limit .valueOrEnd (.array []) stack
  | .string raw => some (completed stack (.string raw))
  | .number literal => some (completed stack (.number literal))
  | .bool b => some (completed stack (.bool b))
  | .null => some (completed stack .null)
  | .endObject | .endArray | .colon | .comma => none

/-- The innermost object reads the member `key`. -/
def keyed (key : Bytes) : List Open → List Open
  | .object members _ :: stack => .object members key :: stack
  | stack => stack

def step (limit : Nat) (st : Builder) (token : Token) : Option Builder :=
  match st.expect, st.stack, token with
  | .valueOrEnd, .array items :: stack, .endArray => some (completed stack (.array items))
  | .value, stack, token | .valueOrEnd, stack, token => value limit stack token
  | .keyOrEnd, .object members _ :: stack, .endObject => some (completed stack (.object members))
  | .key, stack, .string key | .keyOrEnd, stack, .string key =>
      some ⟨.colon, keyed key stack, none⟩
  | .colon, stack, .colon => some ⟨.value, stack, none⟩
  | .commaOrEnd, .object members key :: stack, .comma =>
      some ⟨.key, .object members key :: stack, none⟩
  | .commaOrEnd, .array items :: stack, .comma => some ⟨.value, .array items :: stack, none⟩
  | .commaOrEnd, .object members _ :: stack, .endObject => some (completed stack (.object members))
  | .commaOrEnd, .array items :: stack, .endArray => some (completed stack (.array items))
  | _, _, _ => none

def run (limit : Nat) (st : Builder) (tokens : List Token) : Option Builder :=
  tokens.foldlM (step limit) st

end Builder

/-- One document of at most `limit` nested frames. -/
def read (limit : Nat) (text : Bytes) : Option Value := do
  let lexemes ← lex text
  let st ← Builder.start.run limit (lexemes.map Lexeme.token)
  st.root

/-! ## The lexer on a stretch of text -/

/-- The lexemes completed by a stretch of text, and what is read next. -/
def Lexer.steps : Lexer → Bytes → Option (List Lexeme × Lexer)
  | st, [] => some ([], st)
  | st, c :: cs => do
      let (out, st) ← st.step c
      let (rest, st) ← st.steps cs
      some (out ++ rest, st)

variable {st st' : Lexer} {c : UInt8} {out : List Lexeme} {a : Bytes} {token : Token}
  {limit limit' : Nat} {v : Value}

theorem Lexer.run_of_step (h : st.step c = some (out, st')) (cs : Bytes) :
    st.run (c :: cs) = (st'.run cs).map (out ++ ·) := by
  simp only [Lexer.run, h, Option.bind_eq_bind, Option.bind_some]
  cases st'.run cs <;> rfl

theorem Lexer.steps_of_step (h : st.step c = some (out, st')) (cs : Bytes) :
    st.steps (c :: cs) = (st'.steps cs).map fun r => (out ++ r.1, r.2) := by
  simp only [Lexer.steps, h, Option.bind_eq_bind, Option.bind_some]
  cases st'.steps cs <;> rfl

theorem Lexer.steps_append (h : st.steps a = some (out, st')) (b : Bytes) :
    st.steps (a ++ b) = (st'.steps b).map fun r => (out ++ r.1, r.2) := by
  induction a generalizing st out with
  | nil =>
      cases h
      simp
  | cons c cs ih =>
      simp only [Lexer.steps, Option.bind_eq_bind, Option.bind_eq_some_iff] at h
      obtain ⟨⟨out1, st1⟩, hstep, ⟨rest, st2⟩, hsteps, heq⟩ := h
      cases heq
      rw [List.cons_append, Lexer.steps_of_step hstep, ih hsteps, Option.map_map]
      congr 1
      funext r
      simp

theorem Lexer.run_append (h : st.steps a = some (out, st')) (b : Bytes) :
    st.run (a ++ b) = (st'.run b).map (out ++ ·) := by
  induction a generalizing st out with
  | nil =>
      cases h
      cases h : st'.run b <;> simp [h]
  | cons c cs ih =>
      simp only [Lexer.steps, Option.bind_eq_bind, Option.bind_eq_some_iff] at h
      obtain ⟨⟨out1, st1⟩, hstep, ⟨rest, st2⟩, hsteps, heq⟩ := h
      cases heq
      rw [List.cons_append, Lexer.run_of_step hstep, ih hsteps, Option.map_map]
      congr 1
      funext r
      simp

/-- One byte more, and nothing is completed. -/
theorem Lexer.steps_concat {st'' : Lexer} (h : st.steps a = some ([], st'))
    (hstep : st'.step c = some ([], st'')) : st.steps (a ++ [c]) = some ([], st'') := by
  rw [Lexer.steps_append h, Lexer.steps_of_step hstep]
  rfl

/-- The lexer reads the bytes of the token as this token. -/
def Token.Lexical : Token → Prop
  | .string raw => (Lexer.inString [] []).steps raw = some ([], .inString [] raw)
  | .number literal => ∃ phase : NumberPhase, phase.complete = true ∧
      (Lexer.between []).steps literal = some ([], .inNumber [] literal phase)
  | _ => True

/-- What has been read of a token can be read again on its own. -/
def Lexer.Sound : Lexer → Prop
  | .between _ => True
  | .inString _ raw => (Lexer.inString [] []).steps raw = some ([], .inString [] raw)
  | .escaped _ raw => (Lexer.inString [] []).steps raw = some ([], .escaped [] raw)
  | .inUnicode _ raw left => (Lexer.inString [] []).steps raw = some ([], .inUnicode [] raw left)
  | .inNumber _ literal phase =>
      (Lexer.between []).steps literal = some ([], .inNumber [] literal phase)
  | .inWord _ token _ => token.Lexical

theorem Lexer.sound_rule : Lexer.Rule Lexer.Sound Token.Lexical where
  between _ := trivial
  quote _ := rfl
  first h _ := by simp [Lexer.Sound, Lexer.steps, Lexer.step, h]
  more {j k lead raw c} horigin _ hstep h := by
    have hsound : ∀ (k : Within) (lead raw : Bytes), (k.lexer lead raw).Sound ↔
        k.origin.steps raw = some ([], k.lexer [] raw) := fun k _ _ => by cases k <;> rfl
    rw [hsound] at h ⊢
    rw [horigin]
    exact Lexer.steps_concat h (hstep [])
  word := .rfl
  punctuation := by simp [Json.punctuation, Token.Lexical]
  words := by simp [Json.words, Token.Lexical]
  string := id
  number h hcomplete := ⟨_, hcomplete, h⟩

theorem lexical_of_lex {text : Bytes} {lexemes : List Lexeme} (h : lex text = some lexemes) :
    ∀ l ∈ lexemes, l.token.Lexical :=
  Lexer.sound_rule.run (Lexer.sound_rule.between []) h

/-- What follows ends a number. -/
def Separator (rest : Bytes) : Prop :=
  ∀ c ∈ rest.head?, isSpace c = true ∨ (punctuation.lookup c).isSome = true

theorem next_of_separator (h : isSpace c = true ∨ (punctuation.lookup c).isSome = true)
    (phase : NumberPhase) : phase.next c = none := by
  have hc : c ∈ [0x20, 0x09, 0x0A, 0x0D, 0x7B, 0x7D, 0x5B, 0x5D, 0x3A, 0x2C] := by
    rcases h with h | h
    · simp only [isSpace, Bool.or_eq_true, beq_iff_eq] at h
      rcases h with ((rfl | rfl) | rfl) | rfl <;> simp
    · obtain ⟨token, htoken⟩ := Option.isSome_iff_exists.mp h
      have hmem := mem_of_lookup htoken
      simp only [punctuation, List.mem_cons, Prod.mk.injEq, List.not_mem_nil, or_false] at hmem
      rcases hmem with ⟨rfl, -⟩ | ⟨rfl, -⟩ | ⟨rfl, -⟩ | ⟨rfl, -⟩ | ⟨rfl, -⟩ | ⟨rfl, -⟩ <;> simp
  have hall : ∀ c ∈ ([0x20, 0x09, 0x0A, 0x0D, 0x7B, 0x7D, 0x5B, 0x5D, 0x3A, 0x2C] : List UInt8),
      phase.next c = none := by
    cases phase <;> decide +kernel
  exact hall c hc

/-- A complete number and what follows it. -/
theorem run_inNumber {literal rest : Bytes} {phase : NumberPhase}
    (hcomplete : phase.complete = true) (hrest : Separator rest) :
    (Lexer.inNumber [] literal phase).run rest =
      ((Lexer.between []).run rest).map (⟨[], .number literal⟩ :: ·) := by
  cases rest with
  | nil => simp [Lexer.run, Lexer.finish, hcomplete]
  | cons c cs =>
      have hnext := next_of_separator (hrest c rfl) phase
      simp only [Lexer.run, Lexer.step, hnext, hcomplete, if_true, Option.bind_eq_bind,
        Option.bind_map]
      cases hbegin : Lexer.begin [] c with
      | none => rfl
      | some r => cases hrun : r.2.run cs <;> simp [hrun]

/-- A token at the head of a text. -/
theorem run_source (htoken : token.Lexical) {rest : Bytes}
    (hrest : ∀ literal, token = .number literal → Separator rest) :
    (Lexer.between []).run (token.source ++ rest) =
      ((Lexer.between []).run rest).map (⟨[], token⟩ :: ·) := by
  have hpunctuation : ∀ c token, Lexer.begin [] c = some ([⟨[], token⟩], .between []) →
      (Lexer.between []).run (c :: rest) =
        ((Lexer.between []).run rest).map (⟨[], token⟩ :: ·) :=
    fun c token h => Lexer.run_of_step (show (Lexer.between []).step c = _ from h) rest
  have hword : ∀ text token,
      (Lexer.between []).steps text = some ([⟨[], token⟩], .between []) →
      (Lexer.between []).run (text ++ rest) =
        ((Lexer.between []).run rest).map (⟨[], token⟩ :: ·) :=
    fun text token h => Lexer.run_append h rest
  cases token with
  | beginObject => exact hpunctuation 0x7B _ rfl
  | endObject => exact hpunctuation 0x7D _ rfl
  | beginArray => exact hpunctuation 0x5B _ rfl
  | endArray => exact hpunctuation 0x5D _ rfl
  | colon => exact hpunctuation 0x3A _ rfl
  | comma => exact hpunctuation 0x2C _ rfl
  | string raw =>
      have hquote : (Lexer.inString [] raw).steps [0x22] =
          some ([⟨[], .string raw⟩], .between []) := by
        simp [Lexer.steps, Lexer.step]
      have hopen : (Lexer.between []).step 0x22 = some ([], .inString [] []) := rfl
      refine hword (0x22 :: (raw ++ [0x22])) _ ?_
      rw [Lexer.steps_of_step hopen, Lexer.steps_append htoken, hquote]
      rfl
  | number literal =>
      obtain ⟨phase, hcomplete, hsteps⟩ := htoken
      rw [Token.source, Lexer.run_append hsteps, run_inNumber hcomplete (hrest literal rfl),
        Option.map_map]
      rfl
  | bool value => cases value <;> exact hword _ _ rfl
  | null => exact hword _ _ rfl

/-! ## Values that can be read -/

/-- The value can stand where `limit` frames may still be opened. -/
inductive Value.WellFormed : Nat → Value → Prop
  | null {limit : Nat} : WellFormed limit .null
  | bool {limit : Nat} (value : Bool) : WellFormed limit (.bool value)
  | number {limit : Nat} {literal : Bytes} (h : (Token.number literal).Lexical) :
      WellFormed limit (.number literal)
  | string {limit : Nat} {raw : Bytes} (h : (Token.string raw).Lexical) :
      WellFormed limit (.string raw)
  | array {limit : Nat} {items : List Value} (h : ∀ v ∈ items, WellFormed limit v) :
      WellFormed (limit + 1) (.array items)
  | object {limit : Nat} {members : List (Bytes × Value)}
      (hkeys : ∀ m ∈ members, (Token.string m.1).Lexical)
      (h : ∀ m ∈ members, WellFormed limit m.2) : WellFormed (limit + 1) (.object members)

theorem Value.WellFormed.mono (h : v.WellFormed limit) (hle : limit ≤ limit') :
    v.WellFormed limit' := by
  induction h generalizing limit' with
  | null => exact .null
  | bool value => exact .bool value
  | number h => exact .number h
  | string h => exact .string h
  | array _ ih =>
      obtain ⟨n, rfl⟩ : ∃ n, limit' = n + 1 := ⟨limit' - 1, by omega⟩
      exact .array fun v hv => ih v hv (by omega)
  | object hkeys _ ih =>
      obtain ⟨n, rfl⟩ : ∃ n, limit' = n + 1 := ⟨limit' - 1, by omega⟩
      exact .object hkeys fun m hm => ih m hm (by omega)

def lexemesOf (tokens : List Token) : List Lexeme := tokens.map fun token => ⟨[], token⟩

/-- The lexer reads these tokens from their bytes, whatever ends them. -/
def Lexes (tokens : List Token) : Prop :=
  ∀ rest, Separator rest → (Lexer.between []).run (tokens.flatMap Token.source ++ rest) =
    ((Lexer.between []).run rest).map (lexemesOf tokens ++ ·)

theorem lexes_singleton (h : token.Lexical) : Lexes [token] := by
  intro rest hrest
  rw [List.flatMap_singleton]
  exact run_source h fun _ _ => hrest

/-- A token that is no number can be followed by anything. -/
theorem Lexes.cons {token : Token} {tokens : List Token} (htoken : token.Lexical)
    (hnumber : ∀ literal, token ≠ .number literal) (h : Lexes tokens) :
    Lexes (token :: tokens) := by
  intro rest hrest
  rw [List.flatMap_cons, List.append_assoc,
    run_source htoken fun literal hliteral => absurd hliteral (hnumber literal), h rest hrest,
    Option.map_map]
  rfl

theorem separator_source (h : token ∈ punctuation.map Prod.snd) (tokens : List Token)
    (rest : Bytes) :
    Separator ((token :: tokens).flatMap Token.source ++ rest) := by
  have hhead : ∀ token ∈ punctuation.map Prod.snd, ∃ c, token.source = [c] ∧
      (punctuation.lookup c).isSome = true := by
    intro token htoken
    simp only [punctuation, List.map_cons, List.map_nil, List.mem_cons, List.not_mem_nil,
      or_false] at htoken
    rcases htoken with rfl | rfl | rfl | rfl | rfl | rfl <;> exact ⟨_, rfl, rfl⟩
  obtain ⟨c, hsource, hc⟩ := hhead token h
  intro d hd
  rw [List.flatMap_cons, hsource] at hd
  obtain rfl : c = d := by simpa using hd
  exact .inr hc

/-- Tokens that start with a punctuation mark can follow any others. -/
theorem Lexes.append {before after : List Token} (hbefore : Lexes before)
    (htoken : token ∈ punctuation.map Prod.snd) (h : Lexes (token :: after)) :
    Lexes (before ++ token :: after) := by
  intro rest hrest
  rw [List.flatMap_append, List.append_assoc, hbefore _ (separator_source htoken after rest),
    h rest hrest, Option.map_map]
  congr 1
  funext lexemes
  simp [lexemesOf]

/-- The tokens after an item start with a punctuation mark. -/
theorem lexes_moreItems {items : List Value} (h : ∀ v ∈ items, Lexes v.tokens) :
    Lexes (moreItems items ++ [.endArray]) ∧
      ∃ token after, moreItems items ++ [.endArray] = token :: after ∧
        token ∈ punctuation.map Prod.snd := by
  induction items with
  | nil => exact ⟨lexes_singleton trivial, _, _, rfl, by simp [punctuation]⟩
  | cons item items ih =>
      obtain ⟨hitem, hitems⟩ := List.forall_mem_cons.mp h
      obtain ⟨hmore, token, after, heq, htoken⟩ := ih hitems
      rw [moreItems, List.cons_append, List.append_assoc]
      refine ⟨Lexes.cons trivial (by simp) ?_, _, _, rfl, by simp [punctuation]⟩
      rw [heq] at hmore ⊢
      exact hitem.append htoken hmore

theorem lexes_moreMembers {members : List (Bytes × Value)}
    (hkeys : ∀ m ∈ members, (Token.string m.1).Lexical) (h : ∀ m ∈ members, Lexes m.2.tokens) :
    Lexes (moreMembers members ++ [.endObject]) ∧
      ∃ token after, moreMembers members ++ [.endObject] = token :: after ∧
        token ∈ punctuation.map Prod.snd := by
  induction members with
  | nil => exact ⟨lexes_singleton trivial, _, _, rfl, by simp [punctuation]⟩
  | cons member members ih =>
      obtain ⟨key, value⟩ := member
      obtain ⟨hkey, hkeys⟩ := List.forall_mem_cons.mp hkeys
      obtain ⟨hvalue, hvalues⟩ := List.forall_mem_cons.mp h
      obtain ⟨hmore, token, after, heq, htoken⟩ := ih hkeys hvalues
      simp only [moreMembers, List.cons_append, List.append_assoc]
      refine ⟨Lexes.cons trivial (by simp) (Lexes.cons hkey (by simp)
        (Lexes.cons trivial (by simp) ?_)), _, _, rfl, by simp [punctuation]⟩
      rw [heq] at hmore ⊢
      exact hvalue.append htoken hmore

theorem Value.WellFormed.lexes (h : v.WellFormed limit) : Lexes v.tokens := by
  induction h with
  | null => exact lexes_singleton trivial
  | bool value => exact lexes_singleton trivial
  | number h => exact lexes_singleton h
  | string h => exact lexes_singleton h
  | @array _ items _ ih =>
      cases items with
      | nil => exact Lexes.cons trivial (by simp) (lexes_singleton trivial)
      | cons item items =>
          obtain ⟨hitem, hitems⟩ := List.forall_mem_cons.mp ih
          obtain ⟨hmore, token, after, heq, htoken⟩ := lexes_moreItems hitems
          rw [Value.tokens]
          refine Lexes.cons trivial (by simp) ?_
          rw [heq] at hmore ⊢
          exact hitem.append htoken hmore
  | @object _ members hkeys _ ih =>
      cases members with
      | nil => exact Lexes.cons trivial (by simp) (lexes_singleton trivial)
      | cons member members =>
          obtain ⟨key, value⟩ := member
          obtain ⟨hkey, hkeys⟩ := List.forall_mem_cons.mp hkeys
          obtain ⟨hvalue, hvalues⟩ := List.forall_mem_cons.mp ih
          obtain ⟨hmore, token, after, heq, htoken⟩ := lexes_moreMembers hkeys hvalues
          rw [Value.tokens]
          refine Lexes.cons trivial (by simp) (Lexes.cons hkey (by simp)
            (Lexes.cons trivial (by simp) ?_))
          rw [heq] at hmore ⊢
          exact hvalue.append htoken hmore

/-! ## The reader on the tokens of a value -/

namespace Builder

variable {limit n : Nat} {stack : List Open} {v : Value} {root : Option Value}

theorem run_cons (st : Builder) (token : Token) (tokens : List Token) :
    st.run limit (token :: tokens) = (st.step limit token).bind fun st' => st'.run limit tokens :=
  List.foldlM_cons

theorem run_append (st : Builder) (before after : List Token) :
    st.run limit (before ++ after) =
      (st.run limit before).bind fun st' => st'.run limit after :=
  List.foldlM_append

theorem step_value (token : Token) :
    step limit ⟨.value, stack, root⟩ token = value limit stack token := rfl

theorem step_valueOrEnd {token : Token} (h : token ≠ .endArray) :
    step limit ⟨.valueOrEnd, stack, root⟩ token = value limit stack token := by
  cases stack with
  | nil => rfl
  | cons frame stack =>
      cases frame with
      | object members key => rfl
      | array items =>
          cases token with
          | endArray => exact absurd rfl h
          | beginObject | endObject | beginArray | colon | comma | string | number | bool | null =>
              rfl

theorem tokens_head (v : Value) :
    ∃ token tokens, v.tokens = token :: tokens ∧ token ≠ .endArray := by
  cases v with
  | null | bool | number | string => exact ⟨_, _, by rw [Value.tokens], by simp⟩
  | array items => cases items <;> exact ⟨_, _, by rw [Value.tokens], by simp⟩
  | object members => cases members <;> exact ⟨_, _, by rw [Value.tokens], by simp⟩

theorem run_valueOrEnd (v : Value) :
    (Builder.mk .valueOrEnd stack root).run limit v.tokens =
      (Builder.mk .value stack root).run limit v.tokens := by
  obtain ⟨token, tokens, heq, htoken⟩ := tokens_head v
  rw [heq, run_cons, run_cons, step_valueOrEnd htoken, step_value]

/-- Reading the value `v` in the frames `stack`. -/
def Reads (limit : Nat) (stack : List Open) (v : Value) : Prop :=
  ∀ root, (Builder.mk .value stack root).run limit v.tokens = some (completed stack v)

theorem run_moreItems {items : List Value}
    (h : ∀ v ∈ items, ∀ done, Reads limit (.array done :: stack) v) (done : List Value) :
    (Builder.mk .commaOrEnd (.array done :: stack) none).run limit
      (moreItems items ++ [.endArray]) =
      some (completed stack (.array (done ++ items))) := by
  induction items generalizing done with
  | nil => simp [moreItems, step, run]
  | cons item items ih =>
      obtain ⟨hitem, hitems⟩ := List.forall_mem_cons.mp h
      rw [moreItems, List.cons_append, List.append_assoc, run_cons]
      simp only [step, Option.bind_some]
      rw [run_append, hitem done, Option.bind_some, completed, ih hitems]
      simp

theorem run_moreMembers {members : List (Bytes × Value)}
    (h : ∀ m ∈ members, ∀ done key, Reads limit (.object done key :: stack) m.2)
    (done : List (Bytes × Value)) (last : Bytes) :
    (Builder.mk .commaOrEnd (.object done last :: stack) none).run limit
        (moreMembers members ++ [.endObject]) =
      some (completed stack (.object (done ++ members))) := by
  induction members generalizing done last with
  | nil => simp [moreMembers, step, run]
  | cons member members ih =>
      obtain ⟨key, value⟩ := member
      obtain ⟨hvalue, hvalues⟩ := List.forall_mem_cons.mp h
      simp only [moreMembers, List.cons_append, List.append_assoc, run_cons, step, keyed,
        Option.bind_some]
      rw [run_append, hvalue done key, Option.bind_some, completed, ih hvalues]
      simp

/-- With room for its frames the value is read from its tokens. -/
theorem reads_of_wellFormed (h : v.WellFormed n) (hroom : stack.length + n ≤ limit) :
    Reads limit stack v := by
  induction h generalizing stack with
  | null | bool | number | string => intro root; simp [Value.tokens, step_value, value, run]
  | @array n items _ ih =>
      intro root
      have hopen : stack.length < limit := by omega
      have hreads : ∀ v ∈ items, ∀ done, Reads limit (.array done :: stack) v :=
        fun v hv done => ih v hv (by simp only [List.length_cons]; omega)
      cases items with
      | nil =>
          simp [Value.tokens, value, opened, hopen, step, run]
      | cons item items =>
          obtain ⟨hitem, hitems⟩ := List.forall_mem_cons.mp hreads
          simp only [Value.tokens, run_cons, step_value, value, opened, hopen, if_true,
            Option.bind_some]
          rw [run_append, run_valueOrEnd, hitem [], Option.bind_some, completed,
            run_moreItems hitems]
          rfl
  | @object n members _ _ ih =>
      intro root
      have hopen : stack.length < limit := by omega
      have hreads : ∀ m ∈ members, ∀ done key, Reads limit (.object done key :: stack) m.2 :=
        fun m hm done key => ih m hm (by simp only [List.length_cons]; omega)
      cases members with
      | nil =>
          simp [Value.tokens, value, opened, hopen, step, run]
      | cons member members =>
          obtain ⟨key, value⟩ := member
          obtain ⟨hvalue, hvalues⟩ := List.forall_mem_cons.mp hreads
          simp only [Value.tokens, run_cons, Builder.value, opened, hopen, if_true,
            Option.bind_some, step, keyed]
          rw [run_append, hvalue [] key, Option.bind_some, completed, run_moreMembers hvalues]
          rfl

end Builder

/-- A value is read from its text, also with white space after it. -/
theorem read_text {limit : Nat} {v : Value} (h : v.WellFormed limit) {trailer : Bytes}
    (htrailer : ∀ c ∈ trailer, isSpace c = true) : read limit (v.text ++ trailer) = some v := by
  have hspace : ∀ (trailer lead : Bytes), (∀ c ∈ trailer, isSpace c = true) →
      (Lexer.between lead).run trailer = some [] := by
    intro trailer
    induction trailer with
    | nil => exact fun lead _ => rfl
    | cons c cs ih =>
        intro lead hall
        obtain ⟨hc, hcs⟩ := List.forall_mem_cons.mp hall
        have hstep : (Lexer.between lead).step c = some ([], .between (lead ++ [c])) := by
          simp [Lexer.step, Lexer.begin, hc]
        rw [Lexer.run_of_step hstep, ih _ hcs]
        rfl
  have hseparator : Separator trailer :=
    fun c hc => .inl (htrailer c (List.mem_of_mem_head? hc))
  have hlex : lex (v.text ++ trailer) = some (lexemesOf v.tokens) := by
    rw [lex, Value.text, h.lexes trailer hseparator, hspace trailer [] htrailer]
    simp
  have hrun : Builder.start.run limit v.tokens = some (Builder.completed [] v) :=
    Builder.reads_of_wellFormed h (by simp) none
  have htokens : (lexemesOf v.tokens).map Lexeme.token = v.tokens := by
    simp [lexemesOf, Function.comp_def]
  simp only [read, hlex, Option.bind_eq_bind, Option.bind_some, htokens, hrun]
  rfl

/-! ## What the reader returns -/

/-- What a frame has read, with `n` more frames allowed inside it. -/
def Open.Good (n : Nat) : Open → Prop
  | .array items => ∀ v ∈ items, v.WellFormed n
  | .object members key =>
      (Token.string key).Lexical ∧
        ∀ m ∈ members, (Token.string m.1).Lexical ∧ m.2.WellFormed n

namespace Builder

variable {limit : Nat} {stack : List Open} {v : Value}

def GoodStack (limit : Nat) : List Open → Prop
  | [] => True
  | frame :: stack =>
      stack.length < limit ∧ frame.Good (limit - stack.length - 1) ∧ GoodStack limit stack

structure Good (limit : Nat) (st : Builder) : Prop where
  root : ∀ v ∈ st.root, v.WellFormed limit
  stack : GoodStack limit st.stack

theorem good_of_stack {expect : Expect} (h : GoodStack limit stack) :
    Good limit ⟨expect, stack, none⟩ :=
  ⟨by simp, h⟩

theorem good_completed (h : GoodStack limit stack) (hv : v.WellFormed (limit - stack.length)) :
    Good limit (completed stack v) := by
  cases stack with
  | nil => exact ⟨by simpa [completed] using hv, h⟩
  | cons frame stack =>
      obtain ⟨hlt, hframe, hrest⟩ := h
      cases frame with
      | array items =>
          refine good_of_stack ⟨hlt, fun w hw => ?_, hrest⟩
          rcases List.mem_append.mp hw with hw | hw
          · exact hframe w hw
          · obtain rfl := List.mem_singleton.mp hw
            exact hv
      | object members key =>
          refine good_of_stack ⟨hlt, ⟨hframe.1, fun m hm => ?_⟩, hrest⟩
          rcases List.mem_append.mp hm with hm | hm
          · exact hframe.2 m hm
          · obtain rfl := List.mem_singleton.mp hm
            exact ⟨hframe.1, hv⟩

/-- Closing the innermost frame. -/
theorem good_closed {frame : Open} (h : GoodStack limit (frame :: stack)) :
    (∀ items, frame = .array items → Good limit (completed stack (.array items))) ∧
      ∀ members key, frame = .object members key →
        Good limit (completed stack (.object members)) := by
  obtain ⟨hlt, hframe, hrest⟩ := h
  have hroom : limit - stack.length = limit - stack.length - 1 + 1 := by omega
  constructor
  · rintro items rfl
    refine good_completed hrest ?_
    rw [hroom]
    exact .array hframe
  · rintro members key rfl
    refine good_completed hrest ?_
    rw [hroom]
    exact .object (fun m hm => (hframe.2 m hm).1) fun m hm => (hframe.2 m hm).2

theorem good_keyed {key : Bytes} (h : GoodStack limit stack) (hkey : (Token.string key).Lexical) :
    GoodStack limit (keyed key stack) := by
  rcases stack with _ | ⟨_ | _, stack⟩
  · exact h
  · exact h
  · exact ⟨h.1, ⟨hkey, h.2.1.2⟩, h.2.2⟩

theorem good_value {token : Token} {st' : Builder} (h : GoodStack limit stack)
    (htoken : token.Lexical) (hst : value limit stack token = some st') : Good limit st' := by
  have hopened : ∀ expect frame, (∀ n, Open.Good n frame) →
      opened limit expect frame stack = some st' → Good limit st' := by
    intro expect frame hframe hopen
    unfold opened at hopen
    split_ifs at hopen with hlt
    cases hopen
    exact good_of_stack ⟨hlt, hframe _, h⟩
  cases token with
  | beginObject => exact hopened _ (.object [] []) (fun n => ⟨rfl, by simp⟩) hst
  | beginArray => exact hopened _ (.array []) (fun n => by simp [Open.Good]) hst
  | string raw =>
      cases hst
      exact good_completed h (.string htoken)
  | number literal =>
      cases hst
      exact good_completed h (.number htoken)
  | bool b =>
      cases hst
      exact good_completed h (.bool b)
  | null =>
      cases hst
      exact good_completed h .null
  | endObject | endArray | colon | comma => simp [value] at hst

theorem good_step {st st' : Builder} {token : Token} (h : Good limit st) (htoken : token.Lexical)
    (hstep : step limit st token = some st') : Good limit st' := by
  obtain ⟨expect, stack, root⟩ := st
  have hstack : GoodStack limit stack := h.stack
  simp only [step] at hstep
  split at hstep
  · cases hstep
    exact (good_closed hstack).1 _ rfl
  · exact good_value hstack htoken hstep
  · exact good_value hstack htoken hstep
  · cases hstep
    exact (good_closed hstack).2 _ _ rfl
  · cases hstep
    exact good_of_stack (good_keyed hstack htoken)
  · cases hstep
    exact good_of_stack (good_keyed hstack htoken)
  · cases hstep
    exact good_of_stack hstack
  · cases hstep
    exact good_of_stack hstack
  · cases hstep
    exact good_of_stack hstack
  · cases hstep
    exact (good_closed hstack).2 _ _ rfl
  · cases hstep
    exact (good_closed hstack).1 _ rfl
  · simp at hstep

theorem good_run {st st' : Builder} {tokens : List Token} (h : Good limit st)
    (htokens : ∀ token ∈ tokens, token.Lexical) (hrun : st.run limit tokens = some st') :
    Good limit st' := by
  induction tokens generalizing st with
  | nil =>
      cases hrun
      exact h
  | cons token tokens ih =>
      obtain ⟨htoken, htokens⟩ := List.forall_mem_cons.mp htokens
      rw [run_cons] at hrun
      obtain ⟨st1, hstep, hrest⟩ := Option.bind_eq_some_iff.mp hrun
      exact ih (good_step h htoken hstep) htokens hrest

end Builder

theorem wellFormed_of_read {text : Bytes} (h : read limit text = some v) : v.WellFormed limit := by
  simp only [read, Option.bind_eq_bind, Option.bind_eq_some_iff] at h
  obtain ⟨lexemes, hlex, st, hrun, hroot⟩ := h
  have hlexical : ∀ token ∈ lexemes.map Lexeme.token, token.Lexical := by
    intro token htoken
    obtain ⟨l, hl, rfl⟩ := List.mem_map.mp htoken
    exact lexical_of_lex hlex l hl
  have hstart : Builder.Good limit Builder.start := ⟨by simp [Builder.start], trivial⟩
  exact (Builder.good_run hstart hlexical hrun).root v hroot

/-! ## More nesting -/

namespace Builder

variable {limit limit' : Nat} (hle : limit ≤ limit')

include hle

theorem value_mono {stack : List Open} {token : Token} {st : Builder}
    (h : value limit stack token = some st) : value limit' stack token = some st := by
  have hopened : ∀ {expect frame}, opened limit expect frame stack = some st →
      opened limit' expect frame stack = some st := by
    intro expect frame h
    unfold opened at h ⊢
    split_ifs at h with hroom
    rwa [if_pos (hroom.trans_le hle)]
  cases token with
  | beginObject | beginArray => exact hopened h
  | _ => exact h

theorem step_mono {st st' : Builder} {token : Token} (h : step limit st token = some st') :
    step limit' st token = some st' := by
  unfold step at h ⊢
  split at h <;> first | exact h | exact value_mono hle h

theorem run_mono {st st' : Builder} {tokens : List Token} (h : st.run limit tokens = some st') :
    st.run limit' tokens = some st' := by
  induction tokens generalizing st with
  | nil => exact h
  | cons token tokens ih =>
      rw [run_cons, Option.bind_eq_some_iff] at h
      obtain ⟨st₁, hstep, hrun⟩ := h
      rw [run_cons, step_mono hle hstep, Option.bind_some, ih hrun]

end Builder

theorem read_mono (hle : limit ≤ limit') {text : Bytes} (h : read limit text = some v) :
    read limit' text = some v := by
  simp only [read, Option.bind_eq_bind, Option.bind_eq_some_iff] at h ⊢
  obtain ⟨lexemes, hlex, st, hrun, hroot⟩ := h
  exact ⟨lexemes, hlex, st, Builder.run_mono hle hrun, hroot⟩

theorem read_unique {data : Bytes} {v' : Value} (h : read limit data = some v)
    (h' : read limit' data = some v') : v = v' := by
  have hboth := (read_mono (Nat.le_max_left limit limit') h).symm.trans
    (read_mono (Nat.le_max_right limit limit') h')
  exact Option.some.inj hboth

/-! ## The reader and the parser -/

namespace Builder

variable {limit : Nat} {stack : List Open} {v : Value}

/-- The parser's state. -/
def parser (st : Builder) : Parser := ⟨st.expect, st.stack.map Open.frame⟩

theorem parser_completed :
    (completed stack v).parser = Parser.completed (stack.map Open.frame) := by
  cases stack with
  | nil => rfl
  | cons frame stack => cases frame <;> rfl

theorem map_parser_value (token : Token) :
    (value limit stack token).map parser = Parser.value limit (stack.map Open.frame) token := by
  have hopened : ∀ expect (frame : Open), (opened limit expect frame stack).map parser =
      Parser.opened limit expect frame.frame (stack.map Open.frame) := by
    intro expect frame
    simp only [opened, Parser.opened, List.length_map]
    split_ifs <;> rfl
  cases token with
  | beginObject => exact hopened _ _
  | beginArray => exact hopened _ _
  | string | number | bool | null => exact congrArg some parser_completed
  | endObject | endArray | colon | comma => rfl

theorem map_parser_step (st : Builder) (token : Token) :
    (step limit st token).map parser = Parser.step limit st.parser token := by
  obtain ⟨expect, stack, root⟩ := st
  cases expect with
  | value => exact map_parser_value token
  | valueOrEnd =>
      by_cases h : token = .endArray
      · subst h
        cases stack with
        | nil => rfl
        | cons frame stack =>
            cases frame with
            | array items => exact congrArg some parser_completed
            | object members key => rfl
      · have hparser : Parser.step limit ⟨.valueOrEnd, stack.map Open.frame⟩ token =
            Parser.value limit (stack.map Open.frame) token := by
          cases token with
          | endArray => exact absurd rfl h
          | _ => rcases stack with _ | ⟨_ | _, _⟩ <;> rfl
        rw [step_valueOrEnd h, map_parser_value]
        exact hparser.symm
  | key | colon => rcases stack with _ | ⟨_ | _, _⟩ <;> cases token <;> rfl
  | keyOrEnd =>
      rcases stack with _ | ⟨_ | _, _⟩ <;> cases token <;>
        first | rfl | exact congrArg some parser_completed
  | commaOrEnd =>
      rcases stack with _ | ⟨_ | _, _⟩ <;> cases token <;>
        first | rfl | exact congrArg some parser_completed
  | done => rcases stack with _ | ⟨_ | _, _⟩ <;> cases token <;> rfl

theorem map_parser_run (st : Builder) (tokens : List Token) :
    (st.run limit tokens).map parser = tokens.foldlM (Parser.step limit) st.parser := by
  induction tokens generalizing st with
  | nil => rfl
  | cons token tokens ih =>
      rw [run_cons, List.foldlM_cons, ← map_parser_step]
      cases step limit st token with
      | none => rfl
      | some st' => exact ih st'

end Builder

end Json

end Nekiro
