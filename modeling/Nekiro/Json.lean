import Mathlib.Data.List.Basic
import Mathlib.Tactic.IntervalCases
import Mathlib.Tactic.SplitIfs

/-!
# JSON text

The part of Go's `encoding/json` that works on text: validity, the
compaction `Marshal` applies to raw values, and the encoding of strings.
It names no program.

Text is a list of bytes. `lex` cuts it into lexemes - a token and the
white space before it - one byte at a time, and `Parser` is the pushdown
automaton over tokens; `wellFormed` runs both. The nesting limit of the
scanner is a parameter, since a raw value inside a document has that
much less to use.

What holds of every token is read off the states of the lexer by one rule
(`Lexer.Rule.run`): no byte of a step breaks it, so no text does.
`Marshal` output is free of control bytes (`printable_compact`,
`printable_encodeString`): the lexer lets none into a token, and
compaction drops what is between tokens.
-/

namespace Nekiro

namespace Json

abbrev Bytes := List UInt8

instance lawfulBytes : LawfulBEq Bytes := inferInstance

/-- The bytes of a text. -/
def utf8 (s : String) : Bytes := s.toList.flatMap String.utf8EncodeChar

/-! ## Tokens -/

inductive Token where
  | beginObject
  | endObject
  | beginArray
  | endArray
  | colon
  | comma
  /-- The bytes between the quotes, escapes included. -/
  | string (raw : Bytes)
  | number (literal : Bytes)
  | bool (value : Bool)
  | null
deriving Repr, DecidableEq

structure Lexeme where
  /-- The white space before the token. -/
  lead : Bytes
  token : Token
deriving Repr, DecidableEq

def isSpace (c : UInt8) : Bool := c == 0x20 || c == 0x09 || c == 0x0A || c == 0x0D

def isDigit (c : UInt8) : Bool := 0x30 ≤ c && c ≤ 0x39

def isHex (c : UInt8) : Bool :=
  isDigit c || (0x61 ≤ c && c ≤ 0x66) || (0x41 ≤ c && c ≤ 0x46)

/-- What has been read of a number. -/
inductive NumberPhase where
  | minus
  | zero
  | digits
  | point
  | fraction
  | exponent
  | sign
  | power
deriving Repr, DecidableEq

/-- The number may end here. -/
def NumberPhase.complete : NumberPhase → Bool
  | .zero | .digits | .fraction | .power => true
  | .minus | .point | .exponent | .sign => false

def NumberPhase.next (phase : NumberPhase) (c : UInt8) : Option NumberPhase :=
  let isE := c == 0x65 || c == 0x45
  match phase with
  | .minus => if c == 0x30 then some .zero else if isDigit c then some .digits else none
  | .zero => if c == 0x2E then some .point else if isE then some .exponent else none
  | .digits =>
      if isDigit c then some .digits else if c == 0x2E then some .point
      else if isE then some .exponent else none
  | .point => if isDigit c then some .fraction else none
  | .fraction => if isDigit c then some .fraction else if isE then some .exponent else none
  | .exponent =>
      if c == 0x2B || c == 0x2D then some .sign else if isDigit c then some .power else none
  | .sign => if isDigit c then some .power else none
  | .power => if isDigit c then some .power else none

/-- What the lexer is reading, and the white space before it. -/
inductive Lexer where
  | between (lead : Bytes)
  | inString (lead raw : Bytes)
  | escaped (lead raw : Bytes)
  | inUnicode (lead raw : Bytes) (left : Nat)
  | inNumber (lead literal : Bytes) (phase : NumberPhase)
  | inWord (lead : Bytes) (token : Token) (left : Bytes)
deriving Repr, DecidableEq

/-- The tokens of one byte. -/
def punctuation : List (UInt8 × Token) :=
  [(0x7B, .beginObject), (0x7D, .endObject), (0x5B, .beginArray), (0x5D, .endArray),
    (0x3A, .colon), (0x2C, .comma)]

/-- The words: first byte, token and the other bytes. -/
def words : List (UInt8 × Token × Bytes) :=
  [(0x74, .bool true, [0x72, 0x75, 0x65]), (0x66, .bool false, [0x61, 0x6C, 0x73, 0x65]),
    (0x6E, .null, [0x75, 0x6C, 0x6C])]

/-- The lexer after the first byte of a longer token. -/
def Lexer.opening (lead : Bytes) (c : UInt8) : Option Lexer :=
  if c == 0x22 then some (.inString lead [])
  else if c == 0x2D then some (.inNumber lead [c] .minus)
  else if c == 0x30 then some (.inNumber lead [c] .zero)
  else if isDigit c then some (.inNumber lead [c] .digits)
  else (words.lookup c).map fun (token, left) => .inWord lead token left

/-- The lexer between two tokens. -/
def Lexer.begin (lead : Bytes) (c : UInt8) : Option (List Lexeme × Lexer) :=
  if isSpace c then some ([], .between (lead ++ [c]))
  else match punctuation.lookup c with
    | some token => some ([⟨lead, token⟩], .between [])
    | none => (Lexer.opening lead c).map fun st => ([], st)

/-- One byte: the lexemes it completes, and what is read next. -/
def Lexer.step : Lexer → UInt8 → Option (List Lexeme × Lexer)
  | .between lead, c => Lexer.begin lead c
  | .inString lead raw, c =>
      if c == 0x22 then some ([⟨lead, .string raw⟩], .between [])
      else if c == 0x5C then some ([], .escaped lead (raw ++ [c]))
      else if c < 0x20 then none
      else some ([], .inString lead (raw ++ [c]))
  | .escaped lead raw, c =>
      if c == 0x75 then some ([], .inUnicode lead (raw ++ [c]) 4)
      else if c == 0x62 || c == 0x66 || c == 0x6E || c == 0x72 || c == 0x74 || c == 0x5C
          || c == 0x2F || c == 0x22 then
        some ([], .inString lead (raw ++ [c]))
      else none
  | .inUnicode lead raw left, c =>
      if isHex c then
        if left ≤ 1 then some ([], .inString lead (raw ++ [c]))
        else some ([], .inUnicode lead (raw ++ [c]) (left - 1))
      else none
  | .inNumber lead literal phase, c =>
      match phase.next c with
      | some phase => some ([], .inNumber lead (literal ++ [c]) phase)
      | none =>
          -- the byte belongs to the next token
          if phase.complete then
            (Lexer.begin [] c).map fun (out, st) => (⟨lead, .number literal⟩ :: out, st)
          else none
  | .inWord lead token left, c =>
      match left with
      | [] => none
      | d :: left =>
          if c == d then
            if left.isEmpty then some ([⟨lead, token⟩], .between [])
            else some ([], .inWord lead token left)
          else none

/-- The end of the text. -/
def Lexer.finish : Lexer → Option (List Lexeme)
  | .between _ => some []
  | .inNumber lead literal phase => if phase.complete then some [⟨lead, .number literal⟩] else none
  | _ => none

def Lexer.run : Lexer → Bytes → Option (List Lexeme)
  | st, [] => st.finish
  | st, c :: cs => do
      let (out, st) ← st.step c
      let rest ← st.run cs
      some (out ++ rest)

def lex (text : Bytes) : Option (List Lexeme) := (Lexer.between []).run text

/-! ## Grammar -/

inductive Frame where
  | object
  | array
deriving Repr, DecidableEq

inductive Expect where
  | value
  | valueOrEnd
  | key
  | keyOrEnd
  | colon
  | commaOrEnd
  | done
deriving Repr, DecidableEq

/-- The grammar's state: what may come next, inside which frames. -/
structure Parser where
  expect : Expect
  stack : List Frame
deriving Repr, DecidableEq

namespace Parser

def start : Parser := ⟨.value, []⟩

/-- After a complete value. -/
def completed : List Frame → Parser
  | [] => ⟨.done, []⟩
  | stack => ⟨.commaOrEnd, stack⟩

def opened (limit : Nat) (expect : Expect) (frame : Frame) (stack : List Frame) : Option Parser :=
  if stack.length < limit then some ⟨expect, frame :: stack⟩ else none

def value (limit : Nat) (stack : List Frame) : Token → Option Parser
  | .beginObject => opened limit .keyOrEnd .object stack
  | .beginArray => opened limit .valueOrEnd .array stack
  | .string _ | .number _ | .bool _ | .null => some (completed stack)
  | .endObject | .endArray | .colon | .comma => none

def step (limit : Nat) (st : Parser) (token : Token) : Option Parser :=
  match st.expect, st.stack, token with
  | .valueOrEnd, .array :: stack, .endArray => some (completed stack)
  | .value, stack, token | .valueOrEnd, stack, token => value limit stack token
  | .keyOrEnd, .object :: stack, .endObject => some (completed stack)
  | .key, stack, .string _ | .keyOrEnd, stack, .string _ => some ⟨.colon, stack⟩
  | .colon, stack, .colon => some ⟨.value, stack⟩
  | .commaOrEnd, .object :: stack, .comma => some ⟨.key, .object :: stack⟩
  | .commaOrEnd, .array :: stack, .comma => some ⟨.value, .array :: stack⟩
  | .commaOrEnd, .object :: stack, .endObject => some (completed stack)
  | .commaOrEnd, .array :: stack, .endArray => some (completed stack)
  | _, _, _ => none

end Parser

/-- `maxNestingDepth` of the scanner. -/
def maxNestingDepth : Nat := 10000

/-- The lexemes of one value with at most `limit` nested frames. -/
def parse (limit : Nat) (text : Bytes) : Option (List Lexeme) := do
  let lexemes ← lex text
  let st ← lexemes.foldlM (fun st l => Parser.step limit st l.token) Parser.start
  if st.expect = .done then some lexemes else none

/-- The text is one value, nested at most `limit` deep. -/
def wellFormed (limit : Nat) (text : Bytes) : Bool := (parse limit text).isSome

/-- `json.Valid`. -/
def valid (text : Bytes) : Bool := wellFormed maxNestingDepth text

/-! ## Compaction -/

/-- The escapes `Marshal` makes in raw values for HTML and JavaScript. -/
def escapeHTML : Bytes → Bytes
  | [] => []
  | 0xE2 :: 0x80 :: 0xA8 :: rest => utf8 "\\u2028" ++ escapeHTML rest
  | 0xE2 :: 0x80 :: 0xA9 :: rest => utf8 "\\u2029" ++ escapeHTML rest
  | c :: rest =>
      (if c = 0x3C then utf8 "\\u003c" else if c = 0x3E then utf8 "\\u003e"
        else if c = 0x26 then utf8 "\\u0026" else [c]) ++ escapeHTML rest

def Token.text : Token → Bytes
  | .beginObject => [0x7B]
  | .endObject => [0x7D]
  | .beginArray => [0x5B]
  | .endArray => [0x5D]
  | .colon => [0x3A]
  | .comma => [0x2C]
  | .string raw => [0x22] ++ escapeHTML raw ++ [0x22]
  | .number literal => literal
  | .bool true => utf8 "true"
  | .bool false => utf8 "false"
  | .null => utf8 "null"

/-- A raw value as `Marshal` writes it; the empty text if it is none. -/
def compact (text : Bytes) : Bytes :=
  ((lex text).getD []).flatMap fun l => l.token.text

/-! ## Strings -/

def hexDigit (n : Nat) : UInt8 := UInt8.ofNat (if n < 10 then 0x30 + n else 0x57 + n)

def shortEscapes : List (Char × Bytes) :=
  [('"', utf8 "\\\""), ('\\', utf8 "\\\\"), (Char.ofNat 0x08, utf8 "\\b"),
    (Char.ofNat 0x0C, utf8 "\\f"), ('\n', utf8 "\\n"), ('\r', utf8 "\\r"), ('\t', utf8 "\\t"),
    (Char.ofNat 0x2028, utf8 "\\u2028"), (Char.ofNat 0x2029, utf8 "\\u2029")]

/-- One character of a string as `Marshal` writes it. -/
def encodeChar (c : Char) : Bytes :=
  match shortEscapes.lookup c with
  | some escape => escape
  | none =>
      if c.toNat < 0x20 ∨ c = '<' ∨ c = '>' ∨ c = '&' then
        utf8 "\\u00" ++ [hexDigit (c.toNat / 16), hexDigit (c.toNat % 16)]
      else String.utf8EncodeChar c

def encodeString (s : String) : Bytes := [0x22] ++ s.toList.flatMap encodeChar ++ [0x22]

/-! ## No control bytes -/

/-- No control byte, so in particular no line break. -/
def Printable (text : Bytes) : Prop := ∀ c ∈ text, 0x20 ≤ c

instance (text : Bytes) : Decidable (Printable text) :=
  List.decidableBAll (fun c => 0x20 ≤ c) text

theorem printable_append {a b : Bytes} : Printable (a ++ b) ↔ Printable a ∧ Printable b :=
  List.forall_mem_append

variable {c : UInt8} {st : Lexer} {out : List Lexeme}

theorem Printable.concat {a : Bytes} (ha : Printable a) (hc : 0x20 ≤ c) : Printable (a ++ [c]) :=
  printable_append.mpr ⟨ha, List.forall_mem_singleton.mpr hc⟩

theorem printable_flatMap {α : Type} {l : List α} {f : α → Bytes}
    (h : ∀ a ∈ l, Printable (f a)) : Printable (l.flatMap f) := by
  intro c hc
  obtain ⟨a, ha, hca⟩ := List.mem_flatMap.mp hc
  exact h a ha c hca

/-- The text a token carries is printable. -/
def Token.Clean : Token → Prop
  | .string raw => Printable raw
  | .number literal => Printable literal
  | _ => True

def Lexer.Clean : Lexer → Prop
  | .between _ => True
  | .inString _ raw | .escaped _ raw | .inUnicode _ raw _ => Printable raw
  | .inNumber _ literal _ => Printable literal
  | .inWord _ token _ => token.Clean

theorem printable_of_beq {d : UInt8} (h : (c == d) = true) (hd : 0x20 ≤ d) : 0x20 ≤ c :=
  beq_iff_eq.mp h ▸ hd

theorem isDigit_printable (h : isDigit c = true) : 0x20 ≤ c := by
  simp only [isDigit, Bool.and_eq_true, decide_eq_true_eq] at h
  exact UInt8.le_trans (by decide) h.1

theorem isHex_printable (h : isHex c = true) : 0x20 ≤ c := by
  simp only [isHex, Bool.or_eq_true, Bool.and_eq_true, decide_eq_true_eq] at h
  rcases h with (h | h) | h
  · exact isDigit_printable h
  · exact UInt8.le_trans (by decide) h.1
  · exact UInt8.le_trans (by decide) h.1

/-- A number goes on with a digit, a point, an exponent mark or a sign. -/
theorem NumberPhase.next_printable {phase phase' : NumberPhase} (h : phase.next c = some phase') :
    0x20 ≤ c := by
  have hc : isDigit c = true ∨ c = 0x30 ∨ c = 0x2E ∨ c = 0x65 ∨ c = 0x45 ∨ c = 0x2B ∨ c = 0x2D := by
    unfold NumberPhase.next at h
    cases phase <;> grind
  rcases hc with h | rfl | rfl | rfl | rfl | rfl | rfl
  · exact isDigit_printable h
  all_goals decide

theorem mem_of_lookup {α β : Type} [BEq α] [LawfulBEq α] {a : α} {b : β} {l : List (α × β)}
    (h : l.lookup a = some b) : (a, b) ∈ l := by
  obtain ⟨before, after, rfl, -⟩ := List.lookup_eq_some_iff.mp h
  simp

/-! ## Invariants of the lexer -/

/-- Inside a string or a number. -/
inductive Within where
  | inString
  | escaped
  | inUnicode (left : Nat)
  | inNumber (phase : NumberPhase)

def Within.lexer : Within → Bytes → Bytes → Lexer
  | .inString => .inString
  | .escaped => .escaped
  | .inUnicode left => fun lead raw => .inUnicode lead raw left
  | .inNumber phase => fun lead raw => .inNumber lead raw phase

/-- The lexer at the beginning of the token. -/
def Within.origin : Within → Lexer
  | .inNumber _ => .between []
  | .inString | .escaped | .inUnicode _ => .inString [] []

/-- An invariant of the lexer, and what it makes of the tokens. -/
structure Lexer.Rule (inv : Lexer → Prop) (good : Token → Prop) : Prop where
  between : ∀ lead, inv (.between lead)
  quote : ∀ lead, inv (.inString lead [])
  first : ∀ {lead c phase}, Lexer.begin [] c = some ([], .inNumber [] [c] phase) → 0x20 ≤ c →
    inv (.inNumber lead [c] phase)
  more : ∀ {j k : Within} {lead raw c}, k.origin = j.origin → 0x20 ≤ c →
    (∀ lead, (j.lexer lead raw).step c = some ([], k.lexer lead (raw ++ [c]))) →
    inv (j.lexer lead raw) → inv (k.lexer lead (raw ++ [c]))
  word : ∀ {lead token left}, inv (.inWord lead token left) ↔ good token
  punctuation : ∀ p ∈ Json.punctuation, good p.2
  words : ∀ p ∈ Json.words, good p.2.1
  string : ∀ {lead raw}, inv (.inString lead raw) → good (.string raw)
  number : ∀ {lead literal phase}, inv (.inNumber lead literal phase) → phase.complete = true →
    good (.number literal)

section Rule

variable {inv : Lexer → Prop} {good : Token → Prop} (rule : Lexer.Rule inv good)

include rule

theorem Lexer.Rule.begin {lead : Bytes} (h : Lexer.begin lead c = some (out, st)) :
    (∀ l ∈ out, good l.token) ∧ inv st := by
  unfold Lexer.begin at h
  split_ifs at h with hspace
  · cases h
    exact ⟨by simp, rule.between _⟩
  · cases htoken : Json.punctuation.lookup c with
    | some token =>
        rw [htoken] at h
        cases h
        have hgood := rule.punctuation _ (mem_of_lookup htoken)
        exact ⟨List.forall_mem_singleton.mpr hgood, rule.between _⟩
    | none =>
        have hbegin : Lexer.begin [] c = (Lexer.opening [] c).map fun st => ([], st) := by
          simp [Lexer.begin, hspace, htoken]
        rw [htoken] at h
        obtain ⟨st', hst, heq⟩ := Option.map_eq_some_iff.mp h
        cases heq
        refine ⟨by simp, ?_⟩
        unfold Lexer.opening at hst
        split_ifs at hst with hquote hminus hzero hdigit
        · cases hst
          exact rule.quote _
        · cases hst
          refine rule.first ?_ (printable_of_beq hminus (by decide))
          simp [hbegin, Lexer.opening, hquote, hminus]
        · cases hst
          refine rule.first ?_ (printable_of_beq hzero (by decide))
          simp [hbegin, Lexer.opening, hquote, hminus, hzero]
        · cases hst
          refine rule.first ?_ (isDigit_printable hdigit)
          simp [hbegin, Lexer.opening, hquote, hminus, hzero, hdigit]
        · obtain ⟨⟨token, left⟩, hlookup, rfl⟩ := Option.map_eq_some_iff.mp hst
          exact rule.word.mpr (rule.words _ (mem_of_lookup hlookup))

theorem Lexer.Rule.step {st' : Lexer} (hst : inv st) (h : st.step c = some (out, st')) :
    (∀ l ∈ out, good l.token) ∧ inv st' := by
  cases st with
  | between lead => exact rule.begin h
  | inString lead raw =>
      simp only [Lexer.step] at h
      split_ifs at h with hquote hslash hcontrol
      · cases h
        exact ⟨List.forall_mem_singleton.mpr (rule.string hst), rule.between _⟩
      · cases h
        exact ⟨by simp, @rule.more .inString .escaped _ _ _ rfl
          (printable_of_beq hslash (by decide)) (by simp [Within.lexer, Lexer.step, hquote, hslash])
            hst⟩
      · cases h
        exact ⟨by simp, @rule.more .inString .inString _ _ _ rfl (UInt8.not_lt.mp hcontrol)
          (by simp [Within.lexer, Lexer.step, hquote, hslash, hcontrol]) hst⟩
  | escaped lead raw =>
      simp only [Lexer.step] at h
      split_ifs at h with hu hother
      · cases h
        exact ⟨by simp, @rule.more .escaped (.inUnicode 4) _ _ _ rfl
          (printable_of_beq hu (by decide)) (by simp [Within.lexer, Lexer.step, hu]) hst⟩
      · cases h
        refine ⟨by simp, @rule.more .escaped .inString _ _ _ rfl ?_ (fun lead => ?_) hst⟩
        · simp only [Bool.or_eq_true, beq_iff_eq] at hother
          rcases hother with ((((((h | h) | h) | h) | h) | h) | h) | h <;> rw [h] <;> decide
        · simp only [Within.lexer, Lexer.step, hu, hother]
          rfl
  | inUnicode lead raw left =>
      simp only [Lexer.step] at h
      split_ifs at h with hhex hleft
      · cases h
        exact ⟨by simp, @rule.more (.inUnicode left) .inString _ _ _ rfl (isHex_printable hhex)
          (by simp [Within.lexer, Lexer.step, hhex, hleft]) hst⟩
      · cases h
        exact ⟨by simp, @rule.more (.inUnicode left) (.inUnicode (left - 1)) _ _ _ rfl
          (isHex_printable hhex) (by simp [Within.lexer, Lexer.step, hhex, hleft]) hst⟩
  | inNumber lead literal phase =>
      simp only [Lexer.step] at h
      cases hnext : phase.next c with
      | some phase' =>
          rw [hnext] at h
          cases h
          exact ⟨by simp, @rule.more (.inNumber phase) (.inNumber phase') _ _ _ rfl
            (NumberPhase.next_printable hnext) (by simp [Within.lexer, Lexer.step, hnext]) hst⟩
      | none =>
          rw [hnext] at h
          simp only [] at h
          split_ifs at h with hcomplete
          obtain ⟨⟨out', st''⟩, hbegin, heq⟩ := Option.map_eq_some_iff.mp h
          cases heq
          obtain ⟨hout, hinv⟩ := rule.begin hbegin
          exact ⟨List.forall_mem_cons.mpr ⟨rule.number hst hcomplete, hout⟩, hinv⟩
  | inWord lead token left =>
      cases left with
      | nil => simp [Lexer.step] at h
      | cons d left =>
          simp only [Lexer.step] at h
          split_ifs at h
          · cases h
            exact ⟨List.forall_mem_singleton.mpr (rule.word.mp hst), rule.between _⟩
          · cases h
            exact ⟨by simp, rule.word.mpr (rule.word.mp hst)⟩

theorem Lexer.Rule.run {text : Bytes} (hst : inv st) (h : st.run text = some out) :
    ∀ l ∈ out, good l.token := by
  induction text generalizing st out with
  | nil =>
      cases st with
      | between lead =>
          cases h
          simp
      | inNumber lead literal phase =>
          simp only [Lexer.run, Lexer.finish] at h
          split_ifs at h with hcomplete
          cases h
          exact List.forall_mem_singleton.mpr (rule.number hst hcomplete)
      | inString | escaped | inUnicode | inWord => simp [Lexer.run, Lexer.finish] at h
  | cons c cs ih =>
      simp only [Lexer.run, Option.bind_eq_bind, Option.bind_eq_some_iff] at h
      obtain ⟨⟨out1, st'⟩, hstep, rest, hrest, heq⟩ := h
      cases heq
      obtain ⟨hout, hinv⟩ := rule.step hst hstep
      exact List.forall_mem_append.mpr ⟨hout, ih hinv hrest⟩

end Rule

theorem Lexer.clean_rule : Lexer.Rule Lexer.Clean Token.Clean where
  between _ := trivial
  quote _ := by simp [Lexer.Clean, Printable]
  first _ hc := List.forall_mem_singleton.mpr hc
  more {j k} _ _ _ _ hc _ h := by cases j <;> cases k <;> exact Printable.concat h hc
  word := .rfl
  punctuation := by simp [Json.punctuation, Token.Clean]
  words := by simp [Json.words, Token.Clean]
  string := id
  number h _ := h

theorem printable_escapeHTML {raw : Bytes} (h : Printable raw) : Printable (escapeHTML raw) := by
  fun_induction escapeHTML raw with
  | case1 => exact h
  | case2 rest ih =>
      refine printable_append.mpr ⟨by decide, ih fun c hc => h c ?_⟩
      simp [hc]
  | case3 rest ih =>
      refine printable_append.mpr ⟨by decide, ih fun c hc => h c ?_⟩
      simp [hc]
  | case4 c rest _ _ ih =>
      obtain ⟨hc, hrest⟩ := List.forall_mem_cons.mp h
      refine printable_append.mpr ⟨?_, ih hrest⟩
      split_ifs
      · decide
      · decide
      · decide
      · exact List.forall_mem_singleton.mpr hc

theorem Token.printable_text {token : Token} (h : token.Clean) : Printable token.text := by
  cases token with
  | string raw =>
      exact printable_append.mpr
        ⟨printable_append.mpr ⟨by decide, printable_escapeHTML h⟩, by decide⟩
  | number literal => exact h
  | bool value => cases value <;> decide
  | beginObject | endObject | beginArray | endArray | colon | comma | null => decide

theorem printable_compact (text : Bytes) : Printable (compact text) := by
  unfold compact
  cases h : lex text with
  | none => exact nofun
  | some lexemes =>
      exact printable_flatMap fun l hl =>
        Token.printable_text (Lexer.clean_rule.run (Lexer.clean_rule.between []) h l hl)

theorem printable_utf8EncodeChar {c : Char} (h : 0x20 ≤ c.toNat) :
    Printable (String.utf8EncodeChar c) := by
  have hbyte : ∀ n : Nat, 0x20 ≤ n → n < 256 → 0x20 ≤ UInt8.ofNat n := by
    intro n hlo hhi
    rw [UInt8.le_iff_toNat_le, UInt8.toNat_ofNat', Nat.mod_eq_of_lt hhi]
    exact hlo
  have hval : 0x20 ≤ c.val.toNat := h
  unfold String.utf8EncodeChar
  intro b hb
  simp only [] at hb
  split_ifs at hb <;> simp only [List.mem_cons, List.not_mem_nil, or_false] at hb
  · rw [hb]
    exact hbyte _ hval (by omega)
  · rcases hb with rfl | rfl <;> exact hbyte _ (by omega) (by omega)
  · rcases hb with rfl | rfl | rfl <;> exact hbyte _ (by omega) (by omega)
  · rcases hb with rfl | rfl | rfl | rfl <;> exact hbyte _ (by omega) (by omega)

theorem hexDigit_printable {n : Nat} (h : n < 16) : 0x20 ≤ hexDigit n := by
  interval_cases n <;> decide

theorem printable_encodeChar (c : Char) : Printable (encodeChar c) := by
  have hshort : ∀ p ∈ shortEscapes, Printable p.2 := by decide
  unfold encodeChar
  cases h : shortEscapes.lookup c with
  | some escape => exact hshort (c, escape) (mem_of_lookup h)
  | none =>
      simp only []
      split_ifs with hescape
      · refine printable_append.mpr ⟨by decide, ?_⟩
        have hlt : c.toNat < 256 := by
          rcases hescape with h | rfl | rfl | rfl
          · omega
          all_goals decide
        simp only [Printable, List.forall_mem_cons, List.not_mem_nil, false_imp_iff, implies_true]
        exact ⟨hexDigit_printable (by omega), hexDigit_printable (by omega), trivial⟩
      · exact printable_utf8EncodeChar (by omega)

theorem printable_encodeString (s : String) : Printable (encodeString s) :=
  printable_append.mpr ⟨printable_append.mpr ⟨by decide,
    printable_flatMap fun c _ => printable_encodeChar c⟩, by decide⟩

end Json

end Nekiro
