import Mathlib.Algebra.Order.Field.Power
import Mathlib.Algebra.Order.Ring.Rat
import Mathlib.Tactic.FieldSimp
import Nekiro.JsonDecode

/-!
# JSON numbers

The grammar of a number literal and its exact value, a rational number:
`Numeral` has the parts of a literal and what the grammar asks of them, so
that every one of them has a text. A literal is read from the left by
cutting off the digits (`takeWhile_digits`). It names no program.

Whether the value is an integer depends on the zeros at the end of the
coefficient only: `isInt_mul_zpow_iff`.
-/

namespace Nekiro

namespace Json

/-! ## Digits -/

/-- A run of digits that is not empty. -/
def Digits (s : Bytes) : Prop := s ≠ [] ∧ ∀ b ∈ s, isDigit b = true

/-- The text does not go on with a digit. -/
def NoDigit (s : Bytes) : Prop := ∀ b ∈ s.head?, isDigit b = false

theorem noDigit_nil : NoDigit [] := by
  intro b hb
  cases hb

theorem noDigit_cons {b : UInt8} {s : Bytes} (h : isDigit b = false) : NoDigit (b :: s) := by
  intro c hc
  cases hc
  exact h

theorem takeWhile_digits {s rest : Bytes} (hs : ∀ b ∈ s, isDigit b = true) (hrest : NoDigit rest) :
    (s ++ rest).takeWhile isDigit = s := by
  rw [List.takeWhile_append_of_pos hs]
  cases rest with
  | nil => simp
  | cons b rest => rw [List.takeWhile_cons_of_neg (by simp [hrest b rfl]), List.append_nil]

theorem dropWhile_digits {s rest : Bytes} (hs : ∀ b ∈ s, isDigit b = true) (hrest : NoDigit rest) :
    (s ++ rest).dropWhile isDigit = rest := by
  rw [List.dropWhile_append_of_pos hs]
  cases rest with
  | nil => rfl
  | cons b rest => rw [List.dropWhile_cons_of_neg (by simp [hrest b rfl])]

theorem isDigit_of_mem_takeWhile {s : Bytes} {b : UInt8} (h : b ∈ s.takeWhile isDigit) :
    isDigit b = true :=
  List.all_eq_true.mp List.all_takeWhile b h

theorem natValue_append (a b : Bytes) :
    natValue (a ++ b) = b.foldl (fun n c => 10 * n + (c.toNat - 0x30)) (natValue a) := by
  rw [natValue, natValue, List.foldl_append]

/-! ## Literals -/

structure ExponentPart where
  mark : UInt8
  sign : Option UInt8
  digits : Bytes
  isMark : mark = 0x65 ∨ mark = 0x45
  isSign : ∀ s ∈ sign, s = 0x2B ∨ s = 0x2D
  isDigits : Digits digits

/-- `-?(0|[1-9][0-9]*)(\.[0-9]+)?([eE][+-]?[0-9]+)?`. -/
structure Numeral where
  negative : Bool
  integer : Bytes
  fraction : Option Bytes
  exponent : Option ExponentPart
  isInteger : Digits integer
  noLeadingZero : integer.head? = some 0x30 → integer = [0x30]
  isFraction : ∀ f ∈ fraction, Digits f

namespace ExponentPart

def text (e : ExponentPart) : Bytes := e.mark :: (e.sign.toList ++ e.digits)

def negative (e : ExponentPart) : Bool := e.sign == some 0x2D

def value (e : ExponentPart) : Int :=
  if e.negative then -natValue e.digits else natValue e.digits

end ExponentPart

/-- A fraction with its point. -/
def pointed : Option Bytes → Bytes
  | none => []
  | some f => 0x2E :: f

namespace Numeral

def fractionText (n : Numeral) : Bytes := pointed n.fraction

def exponentText (n : Numeral) : Bytes := (n.exponent.map ExponentPart.text).getD []

def unsignedText (n : Numeral) : Bytes := n.integer ++ (n.fractionText ++ n.exponentText)

def text (n : Numeral) : Bytes := if n.negative then 0x2D :: n.unsignedText else n.unsignedText

/-- The digits without the point. -/
def coefficient (n : Numeral) : Nat := natValue (n.integer ++ n.fraction.getD [])

def exponentValue (n : Numeral) : Int := (n.exponent.map ExponentPart.value).getD 0

def fractionDigits (n : Numeral) : Nat := (n.fraction.getD []).length

def magnitude (n : Numeral) : ℚ :=
  n.coefficient * (10 : ℚ) ^ (n.exponentValue - n.fractionDigits)

/-- What the literal stands for. -/
def value (n : Numeral) : ℚ := if n.negative then -n.magnitude else n.magnitude

/-- A literal of digits. -/
def ofDigits (s : Bytes) (hs : s ≠ [] ∧ s.all isDigit = true)
    (hzero : s.head? = some 0x30 → s = [0x30]) : Numeral where
  negative := false
  integer := s
  fraction := none
  exponent := none
  isInteger := ⟨hs.1, List.all_eq_true.mp hs.2⟩
  noLeadingZero := hzero
  isFraction := by simp

/-- A literal of digits has no sign, fraction or exponent. -/
theorem text_of_digits {n : Numeral} (h : n.text.all isDigit = true) :
    n.text = n.integer ∧ n.value = natValue n.text := by
  have hall : ∀ b ∈ n.text, isDigit b = true := List.all_eq_true.mp h
  have hnegative : n.negative = false := by
    by_contra hneg
    rw [Bool.not_eq_false] at hneg
    have hminus := hall 0x2D (by rw [text, if_pos hneg]; exact List.mem_cons_self)
    exact absurd hminus (by decide)
  have htext : n.text = n.unsignedText := by
    rw [text, hnegative]
    rfl
  rw [htext] at hall
  have hfraction : n.fraction = none := by
    cases hf : n.fraction with
    | none => rfl
    | some f =>
        refine absurd (hall 0x2E ?_) (by decide)
        simp [unsignedText, fractionText, hf, pointed]
  have hexponent : n.exponent = none := by
    cases he : n.exponent with
    | none => rfl
    | some e =>
        have hmark := hall e.mark (by
          simp [unsignedText, exponentText, he, ExponentPart.text])
        rcases e.isMark with h | h
        all_goals
          rw [h] at hmark
          exact absurd hmark (by decide)
  have hinteger : n.text = n.integer := by
    simp [htext, unsignedText, fractionText, exponentText, hfraction,
      hexponent, pointed]
  refine ⟨hinteger, ?_⟩
  rw [hinteger]
  simp [value, magnitude, coefficient, exponentValue,
    fractionDigits, hnegative, hfraction, hexponent]

end Numeral

/-! ## Integral values -/

theorem zpow_ten_pos (e : ℤ) : (0 : ℚ) < (10 : ℚ) ^ e := zpow_pos (by decide) e

theorem Numeral.magnitude_nonneg (n : Numeral) : 0 ≤ n.magnitude :=
  mul_nonneg (Nat.cast_nonneg _) (zpow_ten_pos _).le

theorem Numeral.magnitude_pos_iff (n : Numeral) : 0 < n.magnitude ↔ n.coefficient ≠ 0 := by
  rw [Numeral.magnitude, mul_pos_iff_of_pos_right (zpow_ten_pos _), Nat.cast_pos,
    Nat.pos_iff_ne_zero]

/-- With no zero left at its end, a coefficient needs an exponent that is
not negative. -/
theorem isInt_mul_zpow_iff {m : Nat} (hm : ¬ 10 ∣ m) (e : ℤ) :
    (∃ k : Nat, (m : ℚ) * (10 : ℚ) ^ e = k) ↔ 0 ≤ e := by
  constructor
  · rintro ⟨k, hk⟩
    by_contra hneg
    obtain ⟨j, rfl⟩ : ∃ j : Nat, e = -((j : ℤ) + 1) := ⟨(-e - 1).toNat, by omega⟩
    have hpow : (10 : ℚ) ^ ((j : ℤ) + 1) ≠ 0 := (zpow_ten_pos _).ne'
    rw [zpow_neg, ← div_eq_mul_inv, div_eq_iff hpow] at hk
    have hnat : m = k * 10 ^ (j + 1) := by exact_mod_cast hk
    refine hm ⟨k * 10 ^ j, ?_⟩
    rw [hnat, pow_succ, ← mul_assoc, mul_comm]
  · intro he
    obtain ⟨j, rfl⟩ := Int.eq_ofNat_of_zero_le he
    exact ⟨m * 10 ^ j, by push_cast; rw [zpow_natCast]⟩

/-! ## Literals of the lexer -/

/-- The lexer reads no digit after a zero that starts a number. -/
theorem noLeadingZero_of_lexical {literal : Bytes} (h : (Token.number literal).Lexical)
    (hdigits : literal.all isDigit = true) (hzero : literal.head? = some 0x30) :
    literal = [0x30] := by
  obtain ⟨phase, -, hsteps⟩ := h
  cases literal with
  | nil => cases hzero
  | cons c rest =>
      cases hzero
      cases rest with
      | nil => rfl
      | cons b rest =>
          have hb : isDigit b = true := (List.all_eq_true.mp hdigits) b (by simp)
          have hnext : NumberPhase.zero.next b = none := by
            have hother : ∀ c : UInt8, isDigit c = false → b ≠ c := by
              rintro _ hc rfl
              rw [hb] at hc
              cases hc
            simp [NumberPhase.next, hother 0x2E rfl, hother 0x65 rfl, hother 0x45 rfl]
          have hzero : (Lexer.between []).step 0x30 = some ([], .inNumber [] [0x30] .zero) := rfl
          rw [Lexer.steps_of_step hzero, Lexer.steps, Lexer.step, hnext] at hsteps
          simp [NumberPhase.complete, Option.bind_eq_some_iff] at hsteps

/-- `strconv.ParseInt` on a literal of the lexer that is positive. -/
theorem parseInt64_eq_some_iff {literal : Bytes} (h : (Token.number literal).Lexical) {k : Int}
    (hlow : 1 ≤ k) (hhigh : int64 k = some k) :
    parseInt64 literal = some k ↔
      literal.all isDigit = true ∧ ∃ n : Numeral, n.text = literal ∧ n.value = k := by
  have hint : ∀ {m : Int}, int64 m = some k → m = k := by
    intro m hm
    unfold int64 at hm
    split_ifs at hm
    exact Option.some.inj hm
  constructor
  · intro hparse
    unfold parseInt64 at hparse
    split_ifs at hparse with hminus hdigits hdigits
    · have hvalue := hint hparse
      omega
    · have hvalue : (natValue literal : Int) = k := hint hparse
      have hnil : literal ≠ [] := by
        rintro rfl
        rw [show natValue [] = 0 from rfl] at hvalue
        omega
      let n := Numeral.ofDigits literal ⟨hnil, hdigits⟩ (noLeadingZero_of_lexical h hdigits)
      have htext : n.text = literal := by
        simp [n, Numeral.ofDigits, Numeral.text, Numeral.unsignedText, Numeral.fractionText,
          Numeral.exponentText, pointed]
      refine ⟨hdigits, n, htext, ?_⟩
      rw [(Numeral.text_of_digits (htext ▸ hdigits)).2, htext, ← hvalue]
      norm_cast
  · rintro ⟨hdigits, n, rfl, hvalue⟩
    have hnat : (natValue n.text : Int) = k := by
      rw [(Numeral.text_of_digits hdigits).2] at hvalue
      exact_mod_cast hvalue
    have hminus : n.text.head? ≠ some 0x2D := by
      intro hhead
      have hdigit := List.all_eq_true.mp hdigits 0x2D (List.mem_of_head? hhead)
      cases hdigit
    rw [parseInt64, if_neg hminus, if_pos hdigits, hnat, hhigh]

end Json

end Nekiro
