import Nekiro.JsonValue

/-!
# JSON strings

The text of a string and the string it stands for. `unquote` is the
decoder's: escapes, surrogate pairs, and the replacement character for
every byte that starts no UTF-8 sequence. `escape` is the encoder's, with
or without the escapes for HTML. It names no program.

What the encoder writes, the lexer takes as one token (`lexical_escape`)
and the decoder turns back into the string (`unquote_escape`).
-/

namespace Nekiro

namespace Json

/-! ## Decoding -/

def replacement : Char := Char.ofNat 0xFFFD

def hexValue (c : UInt8) : Nat :=
  if isDigit c then c.toNat - 0x30 else if 0x61 ≤ c then c.toNat - 0x57 else c.toNat - 0x37

/-- `getu4`: a `\u` escape at the head of the text. -/
def unicodeEscape? : Bytes → Option (Nat × Bytes)
  | 0x5C :: 0x75 :: a :: b :: c :: d :: rest =>
      if isHex a && isHex b && isHex c && isHex d then
        some (((hexValue a * 16 + hexValue b) * 16 + hexValue c) * 16 + hexValue d, rest)
      else none
  | _ => none

/-- The escapes of one character. -/
def simpleEscapes : List (UInt8 × Char) :=
  [(0x22, '"'), (0x5C, '\\'), (0x2F, '/'), (0x62, Char.ofNat 0x08), (0x66, Char.ofNat 0x0C),
    (0x6E, '\n'), (0x72, '\r'), (0x74, '\t')]

/-- The character of an escape and the text after it. A surrogate stands
for itself only as the first half of a pair. -/
def escapeRune (text : Bytes) : Char × Bytes :=
  match unicodeEscape? text with
  | some (n, rest) =>
      if 0xD800 ≤ n ∧ n < 0xE000 then
        match unicodeEscape? rest with
        | some (m, rest') =>
            if n < 0xDC00 ∧ 0xDC00 ≤ m ∧ m < 0xE000 then
              (Char.ofNat (0x10000 + (n - 0xD800) * 0x400 + (m - 0xDC00)), rest')
            else (replacement, rest)
        | none => (replacement, rest)
      else (Char.ofNat n, rest)
  | none =>
      (((text.drop 1).head?.bind fun c => simpleEscapes.lookup c).getD replacement, text.drop 2)

/-- `utf8.DecodeRune`. -/
def plainRune (text : Bytes) : Char × Bytes :=
  match text.toByteArray.utf8DecodeChar? 0 with
  | some c => (c, text.drop c.utf8Size)
  | none => (replacement, text.drop 1)

def unquoteRune (text : Bytes) : Char × Bytes :=
  if text.head? = some 0x5C then escapeRune text else plainRune text

def unquoteLoop : Nat → Bytes → List Char
  | 0, _ => []
  | _, [] => []
  | fuel + 1, text => (unquoteRune text).1 :: unquoteLoop fuel (unquoteRune text).2

/-- The string between the quotes. -/
def unquote (raw : Bytes) : String := String.ofList (unquoteLoop raw.length raw)

/-! ## Encoding -/

/-- One character of a string, with the escapes for HTML if `html`. -/
def escapeChar (html : Bool) (c : Char) : Bytes :=
  match shortEscapes.lookup c with
  | some escape => escape
  | none =>
      if c.toNat < 0x20 ∨ html = true ∧ (c = '<' ∨ c = '>' ∨ c = '&') then
        utf8 "\\u00" ++ [hexDigit (c.toNat / 16), hexDigit (c.toNat % 16)]
      else String.utf8EncodeChar c

/-- The text between the quotes. -/
def escape (html : Bool) (s : String) : Bytes := s.toList.flatMap (escapeChar html)

/-- The three ways a character is written. -/
theorem escapeChar_cases (html : Bool) (c : Char) :
    (c, escapeChar html c) ∈ shortEscapes ∨
      (c.toNat < 0x40 ∧
        escapeChar html c = utf8 "\\u00" ++ [hexDigit (c.toNat / 16), hexDigit (c.toNat % 16)]) ∨
      (0x20 ≤ c.toNat ∧ c ≠ '"' ∧ c ≠ '\\' ∧ escapeChar html c = String.utf8EncodeChar c) := by
  unfold escapeChar
  cases h : shortEscapes.lookup c with
  | some escape => exact .inl (mem_of_lookup h)
  | none =>
      have hne : ∀ p ∈ shortEscapes, c ≠ p.1 := by
        rintro p hp rfl
        simpa using List.lookup_eq_none_iff.mp h p hp
      simp only []
      split_ifs with hescape
      · refine .inr (.inl ⟨?_, rfl⟩)
        rcases hescape with h | ⟨-, rfl | rfl | rfl⟩
        · omega
        all_goals decide
      · exact .inr (.inr ⟨by omega, hne ('"', utf8 "\\\"") (by simp [shortEscapes]),
          hne ('\\', utf8 "\\\\") (by simp [shortEscapes]), rfl⟩)

/-! ## The lexer on an encoded string -/

/-- The lexer passes over these bytes inside a string. -/
def Passes (text : Bytes) : Prop :=
  ∀ raw, (Lexer.inString [] raw).steps text = some ([], .inString [] (raw ++ text))

theorem Passes.append {a b : Bytes} (ha : Passes a) (hb : Passes b) : Passes (a ++ b) := by
  intro raw
  rw [Lexer.steps_append (ha raw), hb, List.append_assoc]
  rfl

theorem passes_nil : Passes [] := fun raw => by simp [Lexer.steps]

theorem passes_plain {text : Bytes} (h : ∀ b ∈ text, 0x20 ≤ b ∧ b ≠ 0x22 ∧ b ≠ 0x5C) :
    Passes text := by
  induction text with
  | nil => exact passes_nil
  | cons b bs ih =>
      obtain ⟨⟨hcontrol, hquote, hslash⟩, hbs⟩ := List.forall_mem_cons.mp h
      intro raw
      have hstep : (Lexer.inString [] raw).step b = some ([], .inString [] (raw ++ [b])) := by
        simp [Lexer.step, hquote, hslash, UInt8.not_lt.mpr hcontrol]
      rw [Lexer.steps_of_step hstep, ih hbs]
      simp

theorem utf8EncodeChar_plain {c : Char} (h : 0x20 ≤ c.toNat)
    (hquote : c ≠ '"') (hslash : c ≠ '\\') :
    ∀ b ∈ String.utf8EncodeChar c, 0x20 ≤ b ∧ b ≠ 0x22 ∧ b ≠ 0x5C := by
  have hbyte : ∀ n : Nat, 0x20 ≤ n → n < 256 → n ≠ 0x22 → n ≠ 0x5C →
      0x20 ≤ UInt8.ofNat n ∧ UInt8.ofNat n ≠ 0x22 ∧ UInt8.ofNat n ≠ 0x5C := by
    intro n hlo hhi h22 h5C
    rw [UInt8.le_iff_toNat_le, ← UInt8.toNat_inj.ne, ← UInt8.toNat_inj.ne, UInt8.toNat_ofNat',
      Nat.mod_eq_of_lt hhi]
    exact ⟨hlo, h22, h5C⟩
  have hne : ∀ d : Char, c ≠ d → c.val.toNat ≠ d.val.toNat := fun d hd hval =>
    hd (Char.ext (UInt32.toNat_inj.mp hval))
  have h22 := hne _ hquote
  have h5C := hne _ hslash
  have hval : 0x20 ≤ c.val.toNat := h
  unfold String.utf8EncodeChar
  intro b hb
  simp only [] at hb
  split_ifs at hb <;> simp only [List.mem_cons, List.not_mem_nil, or_false] at hb
  · rw [hb]
    exact hbyte _ hval (by omega) h22 h5C
  · rcases hb with rfl | rfl <;> exact hbyte _ (by omega) (by omega) (by omega) (by omega)
  · rcases hb with rfl | rfl | rfl <;> exact hbyte _ (by omega) (by omega) (by omega) (by omega)
  · rcases hb with rfl | rfl | rfl | rfl <;>
      exact hbyte _ (by omega) (by omega) (by omega) (by omega)

theorem isHex_hexDigit {n : Nat} (h : n < 16) : isHex (hexDigit n) = true := by
  interval_cases n <;> decide

theorem hexValue_hexDigit {n : Nat} (h : n < 16) : hexValue (hexDigit n) = n := by
  interval_cases n <;> decide

theorem passes_escapeChar (html : Bool) (c : Char) : Passes (escapeChar html c) := by
  rcases escapeChar_cases html c with h | ⟨hlt, h⟩ | ⟨hlo, hquote, hslash, h⟩
  · generalize escapeChar html c = text at h
    intro raw
    simp only [shortEscapes, List.mem_cons, Prod.mk.injEq, List.not_mem_nil, or_false] at h
    rcases h with ⟨-, rfl⟩ | ⟨-, rfl⟩ | ⟨-, rfl⟩ | ⟨-, rfl⟩ | ⟨-, rfl⟩ | ⟨-, rfl⟩ | ⟨-, rfl⟩ |
      ⟨-, rfl⟩ | ⟨-, rfl⟩ <;> simp [utf8, String.utf8EncodeChar, Lexer.steps, Lexer.step,
        isHex, isDigit]
  · rw [h]
    have hhigh : isHex (hexDigit (c.toNat / 16)) = true := isHex_hexDigit (by omega)
    have hlow : isHex (hexDigit (c.toNat % 16)) = true := isHex_hexDigit (by omega)
    have hzero : isHex 0x30 = true := rfl
    intro raw
    simp [utf8, String.utf8EncodeChar, Lexer.steps, Lexer.step, hhigh, hlow, hzero]
  · rw [h]
    exact passes_plain (utf8EncodeChar_plain hlo hquote hslash)

theorem lexical_escape (html : Bool) (s : String) : (Token.string (escape html s)).Lexical := by
  have hpasses : ∀ cs : List Char, Passes (cs.flatMap (escapeChar html)) := by
    intro cs
    induction cs with
    | nil => exact passes_nil
    | cons c cs ih => exact (passes_escapeChar html c).append ih
  exact hpasses s.toList []

/-! ## The decoder on an encoded string -/

theorem plainRune_utf8EncodeChar (c : Char) (rest : Bytes) :
    plainRune (String.utf8EncodeChar c ++ rest) = (c, rest) := by
  have hdecode : (String.utf8EncodeChar c ++ rest).toByteArray.utf8DecodeChar? 0 = some c := by
    rw [List.toByteArray_append]
    exact ByteArray.utf8DecodeChar?_utf8EncodeChar_append
  rw [plainRune, hdecode]
  simp only [Prod.mk.injEq, true_and]
  rw [← String.length_utf8EncodeChar, List.drop_left]

theorem unquoteRune_escapeChar (html : Bool) (c : Char) (rest : Bytes) :
    unquoteRune (escapeChar html c ++ rest) = (c, rest) := by
  rcases escapeChar_cases html c with h | ⟨hlt, h⟩ | ⟨hlo, hquote, hslash, h⟩
  · generalize escapeChar html c = text at h
    simp only [shortEscapes, List.mem_cons, Prod.mk.injEq, List.not_mem_nil, or_false] at h
    rcases h with ⟨rfl, rfl⟩ | ⟨rfl, rfl⟩ | ⟨rfl, rfl⟩ | ⟨rfl, rfl⟩ | ⟨rfl, rfl⟩ | ⟨rfl, rfl⟩ |
      ⟨rfl, rfl⟩ | ⟨rfl, rfl⟩ | ⟨rfl, rfl⟩ <;> rfl
  · rw [h]
    have hhigh : isHex (hexDigit (c.toNat / 16)) = true := isHex_hexDigit (by omega)
    have hlow : isHex (hexDigit (c.toNat % 16)) = true := isHex_hexDigit (by omega)
    have hmark : utf8 "\\u00" = [0x5C, 0x75, 0x30, 0x30] := rfl
    have hvalue : ((hexValue 0x30 * 16 + hexValue 0x30) * 16 + hexValue (hexDigit (c.toNat / 16)))
        * 16 + hexValue (hexDigit (c.toNat % 16)) = c.toNat := by
      rw [hexValue_hexDigit (by omega), hexValue_hexDigit (by omega)]
      have hzero : hexValue 0x30 = 0 := rfl
      omega
    have hescape : unicodeEscape? (0x5C :: 0x75 :: 0x30 :: 0x30 :: hexDigit (c.toNat / 16) ::
        hexDigit (c.toNat % 16) :: rest) = some (c.toNat, rest) := by
      have hzero : isHex 0x30 = true := rfl
      simp only [unicodeEscape?, hhigh, hlow, hzero, Bool.and_self, if_true, hvalue]
    rw [hmark]
    simp only [List.cons_append, List.nil_append, unquoteRune, List.head?_cons, if_true, escapeRune,
      hescape]
    rw [if_neg (by omega), Char.ofNat_toNat]
  · have hhead : (String.utf8EncodeChar c ++ rest).head? ≠ some 0x5C := by
      have hplain := utf8EncodeChar_plain hlo hquote hslash
      cases hbytes : String.utf8EncodeChar c with
      | nil =>
          have hlength := String.length_utf8EncodeChar c
          rw [hbytes] at hlength
          exact absurd hlength.symm c.utf8Size_pos.ne'
      | cons b bs =>
          rw [hbytes] at hplain
          simpa using (hplain b (by simp)).2.2
    rw [h, unquoteRune, if_neg hhead, plainRune_utf8EncodeChar]

theorem escapeChar_ne_nil (html : Bool) (c : Char) : escapeChar html c ≠ [] := by
  intro h
  have hother := unquoteRune_escapeChar html c [0x20]
  rw [h] at hother
  have hspace : unquoteRune [0x20] = (' ', []) := by decide
  simp [hspace] at hother

theorem unquoteLoop_escape (html : Bool) (cs : List Char) :
    ∀ fuel, (cs.flatMap (escapeChar html)).length ≤ fuel →
      unquoteLoop fuel (cs.flatMap (escapeChar html)) = cs := by
  induction cs with
  | nil =>
      intro fuel _
      cases fuel <;> rfl
  | cons c cs ih =>
      intro fuel hfuel
      obtain ⟨b, bs, hbytes⟩ := List.exists_cons_of_ne_nil (escapeChar_ne_nil html c)
      rw [List.flatMap_cons, List.length_append, hbytes, List.length_cons] at hfuel
      obtain ⟨fuel, rfl⟩ : ∃ n, fuel = n + 1 := ⟨fuel - 1, by omega⟩
      have hrune := unquoteRune_escapeChar html c (cs.flatMap (escapeChar html))
      rw [List.flatMap_cons]
      rw [hbytes, List.cons_append] at hrune ⊢
      rw [unquoteLoop, hrune, ih fuel (by omega)]
      simp

theorem unquote_escape (html : Bool) (s : String) : unquote (escape html s) = s := by
  rw [unquote, escape, unquoteLoop_escape html s.toList _ le_rfl, String.ofList_toList]

end Json

end Nekiro
