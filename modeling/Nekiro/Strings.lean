import Nekiro.JsonText

/-!
# Strings as Go sees them

A Go string is a list of bytes, and some functions of `strings` look at it
as a sequence of runes. This module has those runes, the white space that
`TrimSpace` removes and the lower case of `ToLower`. The case mapping of
Unicode is a table; what holds here holds for every table, so it is a
parameter beyond ASCII. It names no program.
-/

namespace Nekiro

namespace Strings

open Json (Bytes utf8 plainRune)

/-! ## Bytes -/

def byte (c : Char) : UInt8 := c.toUInt8

theorem forall_byte {P : UInt8 → Prop} (h : ∀ n < 256, P (UInt8.ofNat n)) (c : UInt8) : P c := by
  have hc := h c.toNat c.toNat_lt
  rwa [UInt8.ofNat_toNat] at hc

def isASCII (s : Bytes) : Bool := s.all (· < 0x80)

def lowerByte (c : UInt8) : UInt8 := if byte 'A' ≤ c && c ≤ byte 'Z' then c + 0x20 else c

/-! ## Runes -/

def runesLoop : Nat → Bytes → List Char
  | 0, _ => []
  | _, [] => []
  | fuel + 1, s => (plainRune s).1 :: runesLoop fuel (plainRune s).2

/-- The runes that `range` visits. -/
def runes (s : Bytes) : List Char := runesLoop s.length s

/-- `unicode.IsSpace`. -/
def isSpace (c : Char) : Bool :=
  let n := c.toNat
  (0x09 ≤ n && n ≤ 0x0D) || n == 0x20 || n == 0x85 || n == 0xA0 || n == 0x1680
    || (0x2000 ≤ n && n ≤ 0x200A) || n == 0x2028 || n == 0x2029 || n == 0x202F || n == 0x205F
    || n == 0x3000

/-- `strings.TrimSpace(s) == s`. -/
def trimmed (s : Bytes) : Bool :=
  !(runes s).head?.any isSpace && !(runes s).getLast?.any isSpace

/-- `unicode.ToLower` beyond ASCII. -/
class UnicodeCase where
  lower : Char → Char

def lowerRune [UnicodeCase] (c : Char) : Char :=
  if c.toNat < 0x80 then c.toLower else UnicodeCase.lower c

/-- `strings.ToLower`. -/
def toLower [UnicodeCase] (s : Bytes) : Bytes :=
  if isASCII s then s.map lowerByte else utf8 (String.ofList ((runes s).map lowerRune))

theorem utf8EncodeChar_of_ascii {c : UInt8} (h : c < 0x80) :
    String.utf8EncodeChar (Char.ofNat c.toNat) = [c] := by
  refine forall_byte
    (P := fun c => c < 0x80 → String.utf8EncodeChar (Char.ofNat c.toNat) = [c]) ?_ c h
  decide +kernel

theorem runesLoop_of_ascii {s : Bytes} (h : ∀ c ∈ s, c < 0x80) :
    runesLoop s.length s = s.map fun c => Char.ofNat c.toNat := by
  induction s with
  | nil => rfl
  | cons c s ih =>
      obtain ⟨hc, hs⟩ := List.forall_mem_cons.mp h
      have hrune : plainRune (c :: s) = (Char.ofNat c.toNat, s) := by
        have hplain := Json.plainRune_utf8EncodeChar (Char.ofNat c.toNat) s
        rwa [utf8EncodeChar_of_ascii hc] at hplain
      rw [List.length_cons, runesLoop, hrune, ih hs, List.map_cons]
      exact fun h => absurd h (List.cons_ne_nil c s)

theorem runes_of_ascii {s : Bytes} (h : ∀ c ∈ s, c < 0x80) :
    runes s = s.map fun c => Char.ofNat c.toNat :=
  runesLoop_of_ascii h

theorem runesLoop_utf8 (cs : List Char) {fuel : Nat}
    (hfuel : (cs.flatMap String.utf8EncodeChar).length ≤ fuel) :
    runesLoop fuel (cs.flatMap String.utf8EncodeChar) = cs := by
  induction cs generalizing fuel with
  | nil => cases fuel <;> rfl
  | cons c cs ih =>
      have hpos : 0 < (String.utf8EncodeChar c).length := by
        rw [String.length_utf8EncodeChar]
        exact c.utf8Size_pos
      rw [List.flatMap_cons, List.length_append] at hfuel
      obtain ⟨n, rfl⟩ : ∃ n, fuel = n + 1 := ⟨fuel - 1, by omega⟩
      rw [List.flatMap_cons, runesLoop, Json.plainRune_utf8EncodeChar, ih (by omega)]
      intro h
      rw [List.append_eq_nil_iff] at h
      rw [h.1] at hpos
      cases hpos

/-- The runes of a text are its characters. -/
theorem runes_utf8 (s : String) : runes (utf8 s) = s.toList := runesLoop_utf8 s.toList le_rfl

theorem utf8_inj {s t : String} : utf8 s = utf8 t ↔ s = t := by
  refine ⟨fun h => ?_, congrArg utf8⟩
  rw [← String.toList_inj, ← runes_utf8, h, runes_utf8]

/-! ## Bytes of ASCII in a text -/

theorem eq_of_mem_utf8EncodeChar {c : Char} {b : UInt8} (h : b ∈ String.utf8EncodeChar c)
    (hb : b < 0x80) : Char.ofNat b.toNat = c := by
  have hbyte : ∀ n : Nat, 0x80 ≤ n → n < 256 → b ≠ UInt8.ofNat n := by
    rintro n hlo hhi rfl
    rw [UInt8.lt_iff_toNat_lt, UInt8.toNat_ofNat', Nat.mod_eq_of_lt hhi] at hb
    exact absurd hb (by simpa using hlo)
  unfold String.utf8EncodeChar at h
  simp only [] at h
  split_ifs at h with hsmall <;> simp only [List.mem_cons, List.not_mem_nil, or_false] at h
  · have hval : b.toNat = c.toNat := by
      rw [h, UInt8.toNat_ofNat', Nat.mod_eq_of_lt (by omega)]
      rfl
    rw [hval, Char.ofNat_toNat]
  · rcases h with h | h <;> exact absurd h (hbyte _ (by omega) (by omega))
  · rcases h with h | h | h <;> exact absurd h (hbyte _ (by omega) (by omega))
  · rcases h with h | h | h | h <;> exact absurd h (hbyte _ (by omega) (by omega))

theorem plainRune_cases (s : Bytes) :
    (∃ c, plainRune s = (c, s.drop c.utf8Size) ∧ s = String.utf8EncodeChar c ++ s.drop c.utf8Size)
      ∨ s.toByteArray.utf8DecodeChar? 0 = none ∧ plainRune s = (Json.replacement, s.drop 1) := by
  unfold plainRune
  cases hdecode : s.toByteArray.utf8DecodeChar? 0 with
  | none => exact .inr ⟨rfl, rfl⟩
  | some c =>
      refine .inl ⟨c, rfl, ?_⟩
      have h := String.toByteArray_utf8EncodeChar_of_utf8DecodeChar?_eq_some hdecode
      have h' := congrArg (fun b : ByteArray => b.data.toList) h
      simp at h'
      conv_lhs => rw [← List.take_append_drop c.utf8Size s]
      rw [h']

theorem mem_runesLoop_of_ascii {b : UInt8} (hb : b < 0x80) :
    ∀ {fuel : Nat} {s : Bytes}, s.length ≤ fuel → b ∈ s → Char.ofNat b.toNat ∈ runesLoop fuel s
  | fuel, [], _, hmem => absurd hmem List.not_mem_nil
  | 0, _ :: _, hfuel, _ => by simp at hfuel
  | fuel + 1, a :: s, hfuel, hmem => by
      have hrest : ∀ n, 0 < n → b ∈ (a :: s).drop n →
          Char.ofNat b.toNat ∈ runesLoop fuel ((a :: s).drop n) := fun n hn hmem =>
        mem_runesLoop_of_ascii hb (by simp at hfuel ⊢; omega) hmem
      unfold runesLoop
      rcases plainRune_cases (a :: s) with ⟨c, hrune, htext⟩ | ⟨hdecode, hrune⟩
      · rw [htext] at hmem
        rw [hrune]
        rcases List.mem_append.mp hmem with hmem | hmem
        · exact List.mem_cons.mpr (.inl (eq_of_mem_utf8EncodeChar hmem hb))
        · exact List.mem_cons_of_mem _ (hrest _ (Char.utf8Size_pos c) hmem)
      · rw [hrune]
        refine List.mem_cons_of_mem _ (hrest 1 one_pos ?_)
        rcases List.mem_cons.mp hmem with rfl | hmem
        · have hascii := @ByteArray.utf8DecodeChar?_utf8EncodeChar_append s.toByteArray
            (Char.ofNat b.toNat)
          rw [utf8EncodeChar_of_ascii hb, ← List.toByteArray_append] at hascii
          rw [List.singleton_append, hdecode] at hascii
          cases hascii
        · exact hmem

/-- A byte of ASCII is a rune, in whatever text it stands. -/
theorem mem_runes_of_ascii {s : Bytes} {b : UInt8} (hb : b < 0x80) (hmem : b ∈ s) :
    Char.ofNat b.toNat ∈ runes s := mem_runesLoop_of_ascii hb le_rfl hmem

/-! ## Texts of JSON -/

/-- The text that `encoding/json` writes for a string: a byte that is no
UTF-8 becomes U+FFFD. -/
def coerced (s : Bytes) : String := String.ofList (runes s)

theorem coerced_utf8 (s : String) : coerced (utf8 s) = s := by
  rw [coerced, runes_utf8, String.ofList_toList]

theorem flatMap_runesLoop {s : Bytes} : ∀ {fuel : Nat}, s.length ≤ fuel →
    Json.replacement ∉ runesLoop fuel s → (runesLoop fuel s).flatMap String.utf8EncodeChar = s
  | fuel, hfuel, h => by
      cases fuel with
      | zero => rw [List.length_eq_zero_iff.mp (Nat.le_zero.mp hfuel)]; rfl
      | succ fuel =>
          cases s with
          | nil => rfl
          | cons a s =>
              unfold runesLoop at h ⊢
              rw [List.mem_cons, not_or] at h
              rcases plainRune_cases (a :: s) with ⟨c, hrune, htext⟩ | ⟨-, hrune⟩
              · rw [hrune] at h ⊢
                have hpos := c.utf8Size_pos
                rw [List.flatMap_cons, flatMap_runesLoop (by simp at hfuel ⊢; omega) h.2]
                exact htext.symm
              · rw [hrune] at h
                exact absurd rfl h.1

/-- A text without U+FFFD is written for one string only. -/
theorem coerced_eq_iff {s : Bytes} {t : String} (h : Json.replacement ∉ t.toList) :
    coerced s = t ↔ s = utf8 t := by
  refine ⟨?_, fun hs => hs ▸ coerced_utf8 t⟩
  rintro rfl
  rw [coerced, String.toList_ofList] at h
  rw [utf8, coerced, String.toList_ofList]
  exact (flatMap_runesLoop le_rfl h).symm

end Strings

end Nekiro
