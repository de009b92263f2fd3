import Nekiro.AgentCardContract
import Nekiro.JsonNumber

/-!
# The limits of a card

What `validatePositiveJSONInteger` decides. The code never computes the
number: it counts the zeros at the end of the coefficient and the magnitude
of the exponent, and the latter only as far as the length of the text. The
scanners are folds over the digits they read (`scanDigits_eq`,
`scanExponent_eq`), so what they count is stated for a list of digits and
carried by one step (`Coefficient.Counts`, `Exponent.Counts`).
-/

namespace Nekiro

open Json

/-! ## The scanners as folds -/

/-- One digit of the coefficient. -/
def Coefficient.push (k : Coefficient) (b : UInt8) : Coefficient :=
  if b = 0x30 then ⟨k.nonZero, k.trailingZeros + 1, k.digits + 1⟩ else ⟨true, 0, k.digits + 1⟩

theorem scanDigits_eq (k : Coefficient) (text : Bytes) :
    scanDigits k text =
      ((text.takeWhile Json.isDigit).foldl Coefficient.push k, text.dropWhile Json.isDigit) := by
  induction text generalizing k with
  | nil => rfl
  | cons b rest ih =>
      have hzero : Json.isDigit 0x30 = true := rfl
      unfold scanDigits
      split_ifs with h hdigit
      · subst h
        rw [ih, List.takeWhile_cons_of_pos hzero, List.dropWhile_cons_of_pos hzero, List.foldl_cons]
        rfl
      · rw [ih, List.takeWhile_cons_of_pos hdigit, List.dropWhile_cons_of_pos hdigit,
          List.foldl_cons, Coefficient.push, if_neg h]
      · rw [List.takeWhile_cons_of_neg hdigit, List.dropWhile_cons_of_neg hdigit, List.foldl_nil]

/-- One digit of the exponent. -/
def Exponent.push (limit : Nat) (e : Exponent) (b : UInt8) : Exponent :=
  let digit := b.toNat - 0x30
  if e.tooLarge then { e with digits := e.digits + 1 }
  else if limit / 10 < e.magnitude ∨ e.magnitude = limit / 10 ∧ limit % 10 < digit then
    ⟨e.magnitude, true, e.digits + 1⟩
  else ⟨e.magnitude * 10 + digit, false, e.digits + 1⟩

theorem scanExponent_eq (limit : Nat) (e : Exponent) (text : Bytes) :
    scanExponent limit e text =
      ((text.takeWhile Json.isDigit).foldl (Exponent.push limit) e,
        text.dropWhile Json.isDigit) := by
  induction text generalizing e with
  | nil => rfl
  | cons b rest ih =>
      unfold scanExponent
      by_cases hdigit : Json.isDigit b = true
      · rw [if_pos hdigit, List.takeWhile_cons_of_pos hdigit, List.dropWhile_cons_of_pos hdigit,
          List.foldl_cons, Exponent.push]
        simp only []
        split_ifs <;> rw [ih]
      · rw [if_neg hdigit, List.takeWhile_cons_of_neg hdigit, List.dropWhile_cons_of_neg hdigit,
          List.foldl_nil]

/-! ## What the scanners count -/

/-- The zeros at the end of the number are counted, and there is no further
one. -/
structure Coefficient.Counts (k : Coefficient) (n : Nat) : Prop where
  nonZero : k.nonZero = true ↔ n ≠ 0
  zeros : ∃ m, n = m * 10 ^ k.trailingZeros ∧ (n ≠ 0 → ¬ 10 ∣ m)

variable {b : UInt8} {k : Coefficient} {n limit : Nat} {s rest text : Bytes} {e : Exponent}

theorem isDigit_iff : Json.isDigit b = true ↔ 0x30 ≤ b.toNat ∧ b.toNat ≤ 0x39 := by
  simp [Json.isDigit, UInt8.le_iff_toNat_le]

theorem Coefficient.Counts.push (h : k.Counts n) (hb : Json.isDigit b = true) :
    (k.push b).Counts (10 * n + (b.toNat - 0x30)) := by
  obtain ⟨hlo, hhi⟩ := isDigit_iff.mp hb
  obtain ⟨m, hm, hlast⟩ := h.zeros
  unfold Coefficient.push
  split_ifs with hzero
  · subst hzero
    have hdigit : (0x30 : UInt8).toNat - 0x30 = 0 := rfl
    rw [hdigit]
    refine ⟨by simp [h.nonZero], m, ?_, fun hne => hlast (by omega)⟩
    rw [pow_succ', Nat.mul_left_comm, ← hm, Nat.add_zero]
  · have hdigit : b.toNat ≠ 0x30 := fun heq => hzero (UInt8.toNat_inj.mp heq)
    refine ⟨by simp; omega, 10 * n + (b.toNat - 0x30), by simp, fun _ hdvd => ?_⟩
    omega

theorem Coefficient.Counts.foldl (hs : ∀ b ∈ s, Json.isDigit b = true) :
    ∀ {k : Coefficient} {n : Nat}, k.Counts n →
      (s.foldl Coefficient.push k).Counts (s.foldl (fun n c => 10 * n + (c.toNat - 0x30)) n) := by
  induction s with
  | nil => exact fun h => h
  | cons b s ih =>
      intro k n h
      obtain ⟨hb, hs⟩ := List.forall_mem_cons.mp hs
      exact ih hs (h.push hb)

theorem Coefficient.foldl_digits (s : Bytes) (k : Coefficient) :
    (s.foldl Coefficient.push k).digits = k.digits + s.length := by
  induction s generalizing k with
  | nil => rfl
  | cons b s ih =>
      have hpush : (k.push b).digits = k.digits + 1 := by
        unfold Coefficient.push
        split_ifs <;> rfl
      rw [List.foldl_cons, ih, hpush, List.length_cons]
      omega

theorem Coefficient.foldl_trailingZeros_le (s : Bytes) (k : Coefficient) :
    (s.foldl Coefficient.push k).trailingZeros ≤ k.trailingZeros + s.length := by
  induction s generalizing k with
  | nil => exact le_rfl
  | cons b s ih =>
      have hpush : (k.push b).trailingZeros ≤ k.trailingZeros + 1 := by
        unfold Coefficient.push
        split_ifs <;> simp
      have := ih (k.push b)
      rw [List.foldl_cons, List.length_cons]
      omega

/-- The magnitude of the exponent is counted, up to the limit. -/
def Exponent.Counts (limit : Nat) (e : Exponent) (n : Nat) : Prop :=
  if e.tooLarge then limit < n else e.magnitude = n ∧ n ≤ limit

theorem Exponent.Counts.push (h : e.Counts limit n) (hb : Json.isDigit b = true) :
    (e.push limit b).Counts limit (10 * n + (b.toNat - 0x30)) := by
  obtain ⟨hlo, hhi⟩ := isDigit_iff.mp hb
  unfold Exponent.Counts at h
  unfold Exponent.push
  simp only []
  split_ifs at h ⊢ with hlarge hnow
  · rw [Exponent.Counts, if_pos hlarge]
    omega
  · rw [Exponent.Counts, if_pos rfl]
    omega
  · rw [Exponent.Counts, if_neg (by simp)]
    constructor
    · simp only []
      omega
    · omega

theorem Exponent.Counts.foldl (hs : ∀ b ∈ s, Json.isDigit b = true) :
    ∀ {e : Exponent} {n : Nat}, e.Counts limit n →
      (s.foldl (Exponent.push limit) e).Counts limit
        (s.foldl (fun n c => 10 * n + (c.toNat - 0x30)) n) := by
  induction s with
  | nil => exact fun h => h
  | cons b s ih =>
      intro e n h
      obtain ⟨hb, hs⟩ := List.forall_mem_cons.mp hs
      exact ih hs (h.push hb)

theorem Exponent.foldl_digits (limit : Nat) (s : Bytes) (e : Exponent) :
    (s.foldl (Exponent.push limit) e).digits = e.digits + s.length := by
  induction s generalizing e with
  | nil => rfl
  | cons b s ih =>
      have hpush : (e.push limit b).digits = e.digits + 1 := by
        unfold Exponent.push
        simp only []
        split_ifs <;> rfl
      rw [List.foldl_cons, ih, hpush, List.length_cons]
      omega

theorem Exponent.foldl_magnitude_le (hs : ∀ b ∈ s, Json.isDigit b = true) :
    ∀ {e : Exponent}, e.magnitude ≤ limit →
      (s.foldl (Exponent.push limit) e).magnitude ≤ limit := by
  induction s with
  | nil => exact fun h => h
  | cons b s ih =>
      intro e h
      obtain ⟨hb, hs⟩ := List.forall_mem_cons.mp hs
      obtain ⟨hlo, hhi⟩ := isDigit_iff.mp hb
      refine ih hs ?_
      unfold Exponent.push
      simp only []
      split_ifs
      · exact h
      · exact h
      · simp only []
        omega

/-- A bound below the limit is compared with the exact exponent. -/
theorem exponentAtLeast_iff (h : e.Counts limit n) {minimum : Int} (hlo : -(limit : Int) ≤ minimum)
    (hhi : minimum ≤ limit) (negative : Bool) :
    exponentAtLeast negative e minimum = true ↔
      minimum ≤ (if negative then -(n : Int) else n) := by
  unfold Exponent.Counts at h
  unfold exponentAtLeast
  cases negative <;> cases htoo : e.tooLarge <;> simp [htoo] at h ⊢
  · omega
  · omega
  · obtain ⟨hmagnitude, hle⟩ := h
    split_ifs <;> omega
  · omega

/-! ## Literals -/

/-- The scan of `validatePositiveJSONInteger`. -/
def scanNumber (text : Bytes) : Option (Coefficient × Bool × Exponent) := do
  let (k, rest) ← scanInteger (if text.head? == some 0x2D then text.tail else text)
  let (k, rest) ← scanFraction k rest
  let (exponentNegative, e, rest) ← scanExponentPart text.length rest
  if rest = [] then pure (k, exponentNegative, e) else none

theorem validatePositiveJSONInteger_eq (text : Bytes) :
    validatePositiveJSONInteger text =
      match scanNumber text with
      | none => some "type"
      | some (k, exponentNegative, e) =>
          if !k.nonZero || text.head? == some 0x2D then some "minimum"
          else if exponentAtLeast exponentNegative e ((k.digits : Int) - k.trailingZeros) then none
          else some "type" :=
  rfl

/-- What is counted before the fraction begins. -/
def Coefficient.reset (k : Coefficient) : Coefficient := ⟨k.nonZero, k.trailingZeros, 0⟩

/-- The coefficient of a literal, as it is scanned. -/
def Json.Numeral.scanned (n : Numeral) : Coefficient :=
  (n.fraction.getD []).foldl Coefficient.push
    (n.integer.foldl Coefficient.push ⟨false, 0, 0⟩).reset

/-- The exponent of a literal, as it is scanned. -/
def Json.Numeral.scannedExponent (n : Numeral) (limit : Nat) : Bool × Exponent :=
  match n.exponent with
  | none => (false, ⟨0, false, 0⟩)
  | some e => (e.negative, e.digits.foldl (Exponent.push limit) ⟨0, false, 0⟩)

theorem scanInteger_digits (hs : Digits s) (hzero : s.head? = some 0x30 → s = [0x30])
    (hrest : NoDigit rest) :
    ∃ k, scanInteger (s ++ rest) = some (k, rest)
      ∧ k.reset = (s.foldl Coefficient.push ⟨false, 0, 0⟩).reset := by
  obtain ⟨b, s, rfl⟩ := List.exists_cons_of_ne_nil hs.1
  by_cases hb : b = 0x30
  · subst hb
    obtain rfl : s = [] := by simpa using hzero rfl
    have hnext : (rest.head?.map Json.isDigit).getD false = false := by
      cases rest with
      | nil => rfl
      | cons c rest => exact hrest c rfl
    refine ⟨⟨false, 1, 0⟩, ?_, rfl⟩
    simp [scanInteger, hnext]
  · have hdigit : Json.isDigit b = true := hs.2 b List.mem_cons_self
    refine ⟨_, ?_, rfl⟩
    rw [List.cons_append, scanInteger, if_neg hb, if_pos hdigit, ← List.cons_append, scanDigits_eq,
      takeWhile_digits hs.2 hrest, dropWhile_digits hs.2 hrest]

theorem of_scanInteger (h : scanInteger text = some (k, rest)) :
    ∃ s, text = s ++ rest ∧ Digits s ∧ (s.head? = some 0x30 → s = [0x30]) := by
  cases text with
  | nil => cases h
  | cons b text =>
      simp only [scanInteger] at h
      split_ifs at h with hb hnext hdigit
      · cases h
        subst hb
        exact ⟨[0x30], rfl, ⟨by simp, by simp [Json.isDigit]⟩, fun _ => rfl⟩
      · rw [scanDigits_eq] at h
        cases h
        refine ⟨_, (List.takeWhile_append_dropWhile).symm, ⟨?_, ?_⟩, ?_⟩
        · rw [List.takeWhile_cons_of_pos hdigit]
          simp
        · exact fun _ => isDigit_of_mem_takeWhile
        · rw [List.takeWhile_cons_of_pos hdigit]
          intro hhead
          exact absurd (Option.some.inj hhead) hb

/-- Behind the digits stands neither a digit nor a point. -/
def AfterFraction (rest : Bytes) : Prop := NoDigit rest ∧ rest.head? ≠ some 0x2E

theorem scanFraction_text {fraction : Option Bytes} (hfraction : ∀ f ∈ fraction, Digits f)
    (hrest : AfterFraction rest) (k : Coefficient) :
    scanFraction k (pointed fraction ++ rest) =
      some ((fraction.getD []).foldl Coefficient.push k.reset, rest) := by
  cases fraction with
  | none =>
      cases rest with
      | nil => rfl
      | cons b rest =>
          have hb : b ≠ 0x2E := fun hb => hrest.2 (by rw [hb]; rfl)
          rw [pointed, List.nil_append, scanFraction]
          · rfl
          · intro rest' heq
            cases heq
            exact hb rfl
  | some f =>
      obtain ⟨hne, hdigits⟩ := hfraction f rfl
      have hcount : (f.foldl Coefficient.push k.reset).digits ≠ 0 := by
        rw [Coefficient.foldl_digits]
        have := List.length_pos_of_ne_nil hne
        omega
      simp only [pointed, List.cons_append, scanFraction, scanDigits_eq,
        takeWhile_digits hdigits hrest.1, dropWhile_digits hdigits hrest.1]
      exact if_neg hcount

theorem of_scanFraction {k' : Coefficient} (h : scanFraction k text = some (k', rest)) :
    ∃ fraction : Option Bytes, (∀ f ∈ fraction, Digits f)
      ∧ text = pointed fraction ++ rest := by
  unfold scanFraction at h
  split at h
  · rename_i text
    simp only [scanDigits_eq] at h
    split_ifs at h with hcount
    cases h
    refine ⟨some (text.takeWhile Json.isDigit), ?_, ?_⟩
    · rintro f ⟨⟩
      refine ⟨fun hnil => hcount ?_, fun _ => isDigit_of_mem_takeWhile⟩
      rw [hnil]
      rfl
    · rw [pointed, List.cons_append, List.takeWhile_append_dropWhile]
  · cases h
    exact ⟨none, by simp, rfl⟩

/-- The digits of an exponent, after its sign. -/
def afterSign (text : Bytes) : Bytes :=
  if text.head? = some 0x2D ∨ text.head? = some 0x2B then text.tail else text

theorem scanExponentPart_cons (limit : Nat) {mark : UInt8} (hmark : mark = 0x65 ∨ mark = 0x45)
    (text : Bytes) :
    scanExponentPart limit (mark :: text) =
      if (afterSign text).takeWhile Json.isDigit = [] then none
      else some (text.head? == some 0x2D,
        ((afterSign text).takeWhile Json.isDigit).foldl (Exponent.push limit) ⟨0, false, 0⟩,
        (afterSign text).dropWhile Json.isDigit) := by
  have hhead : (mark :: text).head? = some 0x65 ∨ (mark :: text).head? = some 0x45 := by
    simpa using hmark
  rw [scanExponentPart, if_pos hhead]
  simp only [List.tail_cons, beq_iff_eq, scanExponent_eq, Exponent.foldl_digits, Nat.zero_add,
    List.length_eq_zero_iff, afterSign]
  rfl

theorem scanExponentPart_text (limit : Nat) (e : ExponentPart) :
    scanExponentPart limit e.text =
      some (e.negative, e.digits.foldl (Exponent.push limit) ⟨0, false, 0⟩, []) := by
  obtain ⟨mark, sign, digits, hmark, hsign, hne, hdigits⟩ := e
  have htake : digits.takeWhile Json.isDigit = digits := by
    simpa using takeWhile_digits hdigits noDigit_nil
  have hdrop : digits.dropWhile Json.isDigit = [] := by
    simpa using dropWhile_digits hdigits noDigit_nil
  have hfirst : ∀ c, Json.isDigit c = false → digits.head? ≠ some c := by
    intro c hc hhead
    have := hdigits c (List.mem_of_mem_head? hhead)
    simp [hc] at this
  have hsigned : afterSign (sign.toList ++ digits) = digits
      ∧ ((sign.toList ++ digits).head? == some 0x2D) = (sign == some 0x2D) := by
    cases sign with
    | none =>
        have hminus := hfirst 0x2D rfl
        have hplus := hfirst 0x2B rfl
        simp [afterSign, hminus, hplus]
    | some s =>
        refine ⟨if_pos ?_, rfl⟩
        simpa [or_comm] using hsign s rfl
  rw [ExponentPart.text, scanExponentPart_cons limit hmark, hsigned.1, hsigned.2, htake, hdrop,
    if_neg hne]
  rfl

theorem of_scanExponentPart {negative : Bool}
    (h : scanExponentPart limit text = some (negative, e, [])) :
    ∃ part : Option ExponentPart, text = (part.map ExponentPart.text).getD [] := by
  by_cases hmark : text.head? = some 0x65 ∨ text.head? = some 0x45
  · obtain ⟨mark, text, rfl⟩ : ∃ mark rest, text = mark :: rest := by
      cases text with
      | nil => simp at hmark
      | cons mark rest => exact ⟨mark, rest, rfl⟩
    replace hmark : mark = 0x65 ∨ mark = 0x45 := by simpa using hmark
    rw [scanExponentPart_cons limit hmark] at h
    split_ifs at h with hne
    simp only [Option.some.injEq, Prod.mk.injEq] at h
    -- nothing is left behind the digits
    have hdigits : (afterSign text).takeWhile Json.isDigit = afterSign text := by
      have happend := @List.takeWhile_append_dropWhile _ Json.isDigit (afterSign text)
      rwa [h.2.2, List.append_nil] at happend
    have hall : Digits (afterSign text) := by
      refine ⟨fun hnil => hne (by rw [hnil]; rfl), fun b hb => ?_⟩
      rw [← hdigits] at hb
      exact isDigit_of_mem_takeWhile hb
    by_cases hsign : text.head? = some 0x2D ∨ text.head? = some 0x2B
    · have htext : text = text.head?.toList ++ afterSign text := by
        rw [afterSign, if_pos hsign]
        cases text with
        | nil => simp at hsign
        | cons s text => rfl
      refine ⟨some ⟨mark, text.head?, afterSign text, hmark, ?_, hall⟩, ?_⟩
      · intro s hs
        rw [Option.mem_def.mp hs] at hsign
        simpa [or_comm] using hsign
      · simp only [Option.map_some, Option.getD_some, ExponentPart.text]
        rw [← htext]
    · have htext : afterSign text = text := if_neg hsign
      rw [htext] at hall
      exact ⟨some ⟨mark, none, text, hmark, by simp, hall⟩, rfl⟩
  · rw [scanExponentPart, if_neg hmark] at h
    simp only [Option.some.injEq, Prod.mk.injEq] at h
    exact ⟨none, h.2.2⟩

theorem afterFraction_exponentText (n : Numeral) : AfterFraction n.exponentText := by
  unfold Numeral.exponentText
  cases n.exponent with
  | none => exact ⟨noDigit_nil, by simp⟩
  | some e =>
      have hmark : ∀ c : UInt8, c = 0x65 ∨ c = 0x45 → Json.isDigit c = false ∧ c ≠ 0x2E := by
        rintro c (rfl | rfl) <;> decide
      obtain ⟨hdigit, hpoint⟩ := hmark _ e.isMark
      refine ⟨noDigit_cons hdigit, fun h => hpoint ?_⟩
      exact Option.some.inj h

/-- A literal is scanned as what it is made of. -/
theorem scanNumber_text (n : Numeral) :
    scanNumber n.text = some (n.scanned, n.scannedExponent n.text.length) := by
  have hunsigned : (if n.text.head? == some 0x2D then n.text.tail else n.text) =
      n.unsignedText := by
    unfold Numeral.text
    cases n.negative with
    | true => simp
    | false =>
        obtain ⟨b, s, hs⟩ := List.exists_cons_of_ne_nil n.isInteger.1
        have hb := isDigit_iff.mp (n.isInteger.2 b (by rw [hs]; exact List.mem_cons_self))
        have hminus : b ≠ 0x2D := by
          rintro rfl
          exact absurd hb.1 (by decide)
        simp [Numeral.unsignedText, hs, hminus]
  have hrest := afterFraction_exponentText n
  have hfraction : NoDigit (n.fractionText ++ n.exponentText) := by
    unfold Numeral.fractionText
    cases n.fraction with
    | none => exact hrest.1
    | some f => exact noDigit_cons rfl
  obtain ⟨k, hk, hreset⟩ := scanInteger_digits n.isInteger n.noLeadingZero hfraction
  have hpart := scanFraction_text n.isFraction hrest k
  rw [hreset] at hpart
  have hexponent : scanExponentPart n.text.length n.exponentText =
      some ((n.scannedExponent n.text.length).1, (n.scannedExponent n.text.length).2, []) := by
    unfold Numeral.exponentText Numeral.scannedExponent
    cases n.exponent with
    | none => rfl
    | some e => exact scanExponentPart_text _ e
  rw [scanNumber, hunsigned, Numeral.unsignedText, hk]
  simp only [Option.bind_eq_bind, Option.bind_some, Numeral.fractionText]
  rw [hpart]
  simp only [Option.bind_some, hexponent, if_true]
  rfl

theorem of_scanNumber {r : Coefficient × Bool × Exponent} (h : scanNumber text = some r) :
    ∃ n : Numeral, n.text = text := by
  simp only [scanNumber, Option.bind_eq_bind, Option.bind_eq_some_iff, Prod.exists] at h
  obtain ⟨k, rest, hinteger, k', rest', hfraction, negative, e, rest'', hexponent, hend⟩ := h
  split_ifs at hend with hnil
  · subst hnil
    obtain ⟨integer, htext, hdigits, hzero⟩ := of_scanInteger hinteger
    obtain ⟨fraction, hfractions, rfl⟩ := of_scanFraction hfraction
    obtain ⟨exponent, rfl⟩ := of_scanExponentPart hexponent
    refine ⟨⟨text.head? == some 0x2D, integer, fraction, exponent, hdigits, hzero, hfractions⟩, ?_⟩
    unfold Numeral.text Numeral.unsignedText Numeral.fractionText Numeral.exponentText
    simp only []
    rw [← htext]
    split_ifs with hminus
    · cases text with
      | nil => simp at hminus
      | cons b text =>
          have hb : b = 0x2D := by simpa using hminus
          rw [hb, List.tail_cons]
    · rfl

/-! ## The value of a literal -/

theorem Json.Numeral.counts_scanned (n : Numeral) : n.scanned.Counts n.coefficient := by
  have hzero : (⟨false, 0, 0⟩ : Coefficient).Counts 0 := ⟨by simp, 0, rfl, by simp⟩
  have hinteger := hzero.foldl n.isInteger.2
  have hreset : (n.integer.foldl Coefficient.push ⟨false, 0, 0⟩).reset.Counts
      (natValue n.integer) :=
    ⟨hinteger.nonZero, hinteger.zeros⟩
  have hfraction : ∀ b ∈ n.fraction.getD [], Json.isDigit b = true := by
    cases hf : n.fraction with
    | none => simp
    | some f => exact (n.isFraction f hf).2
  rw [Numeral.coefficient, natValue_append]
  exact hreset.foldl hfraction

theorem Json.Numeral.length_parts_le (n : Numeral) :
    n.integer.length + n.fractionDigits ≤ n.text.length := by
  have hfraction : n.fractionDigits ≤ n.fractionText.length := by
    unfold Numeral.fractionDigits Numeral.fractionText
    cases n.fraction with
    | none => simp
    | some f => simp [pointed]
  unfold Numeral.text Numeral.unsignedText
  split_ifs <;> simp only [List.length_cons, List.length_append] <;> omega

theorem Json.Numeral.scanned_digits (n : Numeral) : n.scanned.digits = n.fractionDigits := by
  rw [Numeral.scanned, Coefficient.foldl_digits]
  exact Nat.zero_add _

theorem Json.Numeral.scanned_trailingZeros_le (n : Numeral) :
    n.scanned.trailingZeros ≤ n.text.length := by
  have hinteger := Coefficient.foldl_trailingZeros_le n.integer ⟨false, 0, 0⟩
  have hfraction := Coefficient.foldl_trailingZeros_le (n.fraction.getD [])
    (n.integer.foldl Coefficient.push ⟨false, 0, 0⟩).reset
  have hlength := n.length_parts_le
  simp only [Numeral.scanned, Coefficient.reset, Numeral.fractionDigits] at *
  omega

/-- The exponent is compared as if it had been computed. -/
theorem Json.Numeral.exponentAtLeast_scanned (n : Numeral) {minimum : Int}
    (hlo : -(n.text.length : Int) ≤ minimum) (hhi : minimum ≤ n.text.length) :
    exponentAtLeast (n.scannedExponent n.text.length).1 (n.scannedExponent n.text.length).2 minimum
      = true ↔ minimum ≤ n.exponentValue := by
  have hzero : (⟨0, false, 0⟩ : Exponent).Counts n.text.length 0 := ⟨rfl, Nat.zero_le _⟩
  unfold Numeral.scannedExponent Numeral.exponentValue
  cases n.exponent with
  | none => simpa using exponentAtLeast_iff hzero hlo hhi false
  | some e => exact exponentAtLeast_iff (hzero.foldl e.isDigits.2) hlo hhi e.negative

/-- The exponent covers the digits behind the point that are no zeros at
the end. -/
theorem Json.Numeral.isInt_iff (n : Numeral) (h : n.coefficient ≠ 0) :
    (∃ k : Nat, n.magnitude = k) ↔
      (n.scanned.digits : Int) - n.scanned.trailingZeros ≤ n.exponentValue := by
  obtain ⟨m, hm, hlast⟩ := n.counts_scanned.zeros
  have hvalue : n.magnitude = (m : ℚ) *
      (10 : ℚ) ^ ((n.scanned.trailingZeros : ℤ) + (n.exponentValue - n.fractionDigits)) := by
    rw [Numeral.magnitude, hm, zpow_add₀ (by decide), zpow_natCast]
    push_cast
    rw [mul_assoc]
  rw [hvalue, isInt_mul_zpow_iff (hlast h), n.scanned_digits]
  omega

theorem Json.Numeral.head?_text (n : Numeral) : (n.text.head? == some 0x2D) = n.negative := by
  unfold Numeral.text
  cases n.negative with
  | true => rfl
  | false =>
      obtain ⟨b, s, hs⟩ := List.exists_cons_of_ne_nil n.isInteger.1
      have hb := isDigit_iff.mp (n.isInteger.2 b (by rw [hs]; exact List.mem_cons_self))
      have hminus : b ≠ 0x2D := by
        rintro rfl
        exact absurd hb.1 (by decide)
      simp [Numeral.unsignedText, hs, hminus]

/-- What the check says of a literal. -/
theorem validatePositiveJSONInteger_text (n : Numeral) :
    (n.value ≤ 0 → validatePositiveJSONInteger n.text = some "minimum")
      ∧ (0 < n.value → (∃ k : Nat, n.value = k) → validatePositiveJSONInteger n.text = none)
      ∧ (0 < n.value → ¬ (∃ k : Nat, n.value = k) →
        validatePositiveJSONInteger n.text = some "type") := by
  have hsign : 0 < n.value ↔ n.negative = false ∧ n.coefficient ≠ 0 := by
    rw [← n.magnitude_pos_iff, Numeral.value]
    have hnonneg := n.magnitude_nonneg
    cases n.negative with
    | false => simp
    | true => simpa using hnonneg
  have hnonZero : (!n.scanned.nonZero || n.negative) = true ↔ n.value ≤ 0 := by
    have hcounts := n.counts_scanned.nonZero
    rw [← not_lt, hsign]
    cases n.negative <;> cases hk : n.scanned.nonZero <;> simp_all
  have hlength := n.length_parts_le
  have hzeros := n.scanned_trailingZeros_le
  have hdigits := n.scanned_digits
  have hatLeast := @Numeral.exponentAtLeast_scanned n
    ((n.scanned.digits : Int) - n.scanned.trailingZeros) (by omega) (by omega)
  rw [validatePositiveJSONInteger_eq, scanNumber_text]
  simp only [n.head?_text]
  refine ⟨fun hvalue => if_pos (hnonZero.mpr hvalue), fun hvalue hint => ?_, fun hvalue hint => ?_⟩
  · have hpositive := hsign.mp hvalue
    rw [Numeral.value, hpositive.1, if_neg (by simp)] at hint
    rw [if_neg (hnonZero.not.mpr (not_le.mpr hvalue)),
      if_pos (hatLeast.mpr ((n.isInt_iff hpositive.2).mp hint))]
  · have hpositive := hsign.mp hvalue
    rw [Numeral.value, hpositive.1, if_neg (by simp)] at hint
    rw [if_neg (hnonZero.not.mpr (not_le.mpr hvalue)),
      if_neg (hatLeast.not.mpr ((n.isInt_iff hpositive.2).not.mp hint))]

/-! ## Machine integers

The same scan with the counters as the code has them, of type `int`. -/

namespace Machine

structure Coefficient where
  nonZero : Bool
  trailingZeros : Int64
  digits : Int64

def scanDigits (k : Coefficient) : Bytes → Coefficient × Bytes
  | [] => (k, [])
  | b :: rest =>
      if b = 0x30 then scanDigits ⟨k.nonZero, k.trailingZeros + 1, k.digits + 1⟩ rest
      else if Json.isDigit b then scanDigits ⟨true, 0, k.digits + 1⟩ rest
      else (k, b :: rest)

structure Exponent where
  magnitude : Int64
  tooLarge : Bool
  digits : Int64

def scanExponent (limit : Int64) (e : Exponent) : Bytes → Exponent × Bytes
  | [] => (e, [])
  | b :: rest =>
      if Json.isDigit b then
        let digit := Int64.ofNat (b.toNat - 0x30)
        if e.tooLarge then scanExponent limit { e with digits := e.digits + 1 } rest
        else if limit / 10 < e.magnitude ∨ e.magnitude = limit / 10 ∧ limit % 10 < digit then
          scanExponent limit ⟨e.magnitude, true, e.digits + 1⟩ rest
        else scanExponent limit ⟨e.magnitude * 10 + digit, false, e.digits + 1⟩ rest
      else (e, b :: rest)

def exponentAtLeast (negative : Bool) (e : Exponent) (minimum : Int64) : Bool :=
  if negative && !(e.magnitude == 0 && !e.tooLarge) then
    if 0 ≤ minimum ∨ e.tooLarge then false else decide (e.magnitude ≤ -minimum)
  else decide (minimum ≤ 0) || e.tooLarge || decide (minimum ≤ e.magnitude)

def scanInteger : Bytes → Option (Coefficient × Bytes)
  | [] => none
  | b :: rest =>
      if b = 0x30 then
        if (rest.head?.map Json.isDigit).getD false then none else some (⟨false, 1, 0⟩, rest)
      else if Json.isDigit b then some (scanDigits ⟨false, 0, 0⟩ (b :: rest)) else none

def scanFraction (k : Coefficient) : Bytes → Option (Coefficient × Bytes)
  | 0x2E :: rest =>
      let (k', rest') := scanDigits ⟨k.nonZero, k.trailingZeros, 0⟩ rest
      if k'.digits = 0 then none else some (k', rest')
  | text => some (⟨k.nonZero, k.trailingZeros, 0⟩, text)

def scanExponentPart (limit : Int64) (text : Bytes) : Option (Bool × Exponent × Bytes) :=
  if text.head? = some 0x65 ∨ text.head? = some 0x45 then
    let sign := text.tail.head?
    let negative := sign == some 0x2D
    let digits := if negative ∨ sign = some 0x2B then text.tail.tail else text.tail
    let (e, rest) := scanExponent limit ⟨0, false, 0⟩ digits
    if e.digits = 0 then none else some (negative, e, rest)
  else some (false, ⟨0, false, 0⟩, text)

def validatePositiveJSONInteger (text : Bytes) : Option String :=
  let negative := text.head? == some 0x2D
  let scanned := do
    let (k, rest) ← scanInteger (if negative then text.tail else text)
    let (k, rest) ← scanFraction k rest
    let (exponentNegative, e, rest) ← scanExponentPart (Int64.ofNat text.length) rest
    if rest = [] then pure (k, exponentNegative, e) else none
  match scanned with
  | none => some "type"
  | some (k, exponentNegative, e) =>
      if !k.nonZero || negative then some "minimum"
      else if exponentAtLeast exponentNegative e (k.digits - k.trailingZeros) then none
      else some "type"

/-! The counters are sums of ones, so they wrap as the exact ones do; only
the comparisons need the bound on the length. -/

/-- The counters of an exact coefficient. -/
def Coefficient.of (k : Nekiro.Coefficient) : Coefficient :=
  ⟨k.nonZero, Int64.ofNat k.trailingZeros, Int64.ofNat k.digits⟩

def Exponent.of (e : Nekiro.Exponent) : Exponent :=
  ⟨Int64.ofNat e.magnitude, e.tooLarge, Int64.ofNat e.digits⟩

theorem scanDigits_of (k : Nekiro.Coefficient) (text : Bytes) :
    scanDigits (.of k) text =
      (.of (Nekiro.scanDigits k text).1, (Nekiro.scanDigits k text).2) := by
  induction text generalizing k with
  | nil => rfl
  | cons b rest ih =>
      have hsucc : ∀ n, Int64.ofNat n + 1 = Int64.ofNat (n + 1) := fun n =>
        (Int64.ofNat_add n 1).symm
      unfold scanDigits Nekiro.scanDigits
      split_ifs
      · rw [← ih, Coefficient.of, Coefficient.of, hsucc, hsucc]
      · rw [← ih, Coefficient.of, Coefficient.of, hsucc]
        rfl
      · rfl

variable {m n : Nat}

theorem ofNat_lt_iff (hm : m < 2 ^ 63) (hn : n < 2 ^ 63) :
    Int64.ofNat m < Int64.ofNat n ↔ m < n := by
  rw [Int64.lt_iff_toInt_lt, Int64.toInt_ofNat_of_lt hm, Int64.toInt_ofNat_of_lt hn, Int.ofNat_lt]

theorem ofNat_inj (hm : m < 2 ^ 63) (hn : n < 2 ^ 63) : Int64.ofNat m = Int64.ofNat n ↔ m = n := by
  rw [← Int64.toInt_inj, Int64.toInt_ofNat_of_lt hm, Int64.toInt_ofNat_of_lt hn, Int.ofNat_inj]

theorem ofNat_div_ten (hn : n < 2 ^ 63) : Int64.ofNat n / 10 = Int64.ofNat (n / 10) := by
  have hten : (10 : Int64).toInt = (10 : Nat) := rfl
  rw [← Int64.toInt_inj, Int64.toInt_div, Int64.toInt_ofNat_of_lt hn,
    Int64.toInt_ofNat_of_lt (by omega), hten, ← Int.ofNat_tdiv]
  exact Int.bmod_eq_of_le (by omega) (by omega)

theorem ofNat_mod_ten (hn : n < 2 ^ 63) : Int64.ofNat n % 10 = Int64.ofNat (n % 10) := by
  have hten : (10 : Int64).toInt = (10 : Nat) := rfl
  rw [← Int64.toInt_inj, Int64.toInt_mod, Int64.toInt_ofNat_of_lt hn,
    Int64.toInt_ofNat_of_lt (by omega), hten, ← Int.ofNat_tmod]

theorem scanExponent_of {limit : Nat} (hlimit : limit < 2 ^ 63) {e : Nekiro.Exponent}
    (he : e.magnitude ≤ limit) (text : Bytes) :
    scanExponent (Int64.ofNat limit) (.of e) text =
      (.of (Nekiro.scanExponent limit e text).1, (Nekiro.scanExponent limit e text).2) := by
  induction text generalizing e with
  | nil => rfl
  | cons b rest ih =>
      have hsucc : ∀ n, Int64.ofNat n + 1 = Int64.ofNat (n + 1) := fun n =>
        (Int64.ofNat_add n 1).symm
      unfold scanExponent Nekiro.scanExponent
      by_cases hdigit : Json.isDigit b = true
      · obtain ⟨hlo, hhi⟩ := isDigit_iff.mp hdigit
        have hover : (Int64.ofNat limit / 10 < (Exponent.of e).magnitude
            ∨ (Exponent.of e).magnitude = Int64.ofNat limit / 10
              ∧ Int64.ofNat limit % 10 < Int64.ofNat (b.toNat - 0x30)) ↔
            (limit / 10 < e.magnitude ∨ e.magnitude = limit / 10
              ∧ limit % 10 < b.toNat - 0x30) := by
          rw [ofNat_div_ten hlimit, ofNat_mod_ten hlimit, Exponent.of,
            ofNat_lt_iff (by omega) (by omega), ofNat_inj (by omega) (by omega),
            ofNat_lt_iff (by omega) (by omega)]
        have htoo : (Exponent.of e).tooLarge = e.tooLarge := rfl
        simp only [if_pos hdigit, hover, htoo]
        split_ifs with hlarge hnow
        · rw [← ih (e := ⟨e.magnitude, e.tooLarge, e.digits + 1⟩) he, Exponent.of,
            Exponent.of, hsucc]
        · rw [← ih (e := ⟨e.magnitude, true, e.digits + 1⟩) he, Exponent.of, Exponent.of, hsucc]
        · have hnext : e.magnitude * 10 + (b.toNat - 0x30) ≤ limit := by omega
          have hmagnitude : Int64.ofNat e.magnitude * 10 + Int64.ofNat (b.toNat - 0x30) =
              Int64.ofNat (e.magnitude * 10 + (b.toNat - 0x30)) := by
            rw [Int64.ofNat_add, Int64.ofNat_mul]
            rfl
          rw [← ih (e := ⟨_, false, e.digits + 1⟩) hnext, Exponent.of, Exponent.of, hsucc,
            hmagnitude]
      · rw [if_neg hdigit, if_neg hdigit]

theorem scanInteger_of (text : Bytes) :
    scanInteger text = (Nekiro.scanInteger text).map fun r => (.of r.1, r.2) := by
  cases text with
  | nil => rfl
  | cons b rest =>
      simp only [scanInteger, Nekiro.scanInteger]
      split_ifs
      · rfl
      · rfl
      · exact congrArg some (scanDigits_of ⟨false, 0, 0⟩ _)
      · rfl

theorem scanFraction_of {text : Bytes} (htext : text.length < 2 ^ 63) (k : Nekiro.Coefficient) :
    scanFraction (.of k) text = (Nekiro.scanFraction k text).map fun r => (.of r.1, r.2) := by
  by_cases hpoint : ∃ rest, text = 0x2E :: rest
  · obtain ⟨rest, rfl⟩ := hpoint
    have hscan : scanDigits ⟨(Coefficient.of k).nonZero, (Coefficient.of k).trailingZeros, 0⟩ rest =
        (.of (Nekiro.scanDigits k.reset rest).1, (Nekiro.scanDigits k.reset rest).2) :=
      scanDigits_of k.reset rest
    have hdigits : (Nekiro.scanDigits k.reset rest).1.digits < 2 ^ 63 := by
      have hlength := (@List.takeWhile_sublist _ rest Json.isDigit).length_le
      rw [scanDigits_eq, Coefficient.foldl_digits]
      simp only [List.length_cons, Nekiro.Coefficient.reset] at *
      omega
    have hzero : (Coefficient.of (Nekiro.scanDigits k.reset rest).1).digits = 0 ↔
        (Nekiro.scanDigits k.reset rest).1.digits = 0 :=
      ofNat_inj (n := 0) hdigits (by omega)
    simp only [Nekiro.Coefficient.reset] at hscan hzero
    simp only [scanFraction, Nekiro.scanFraction, hscan, hzero]
    split_ifs <;> rfl
  · have hother : ∀ rest, text = 0x2E :: rest → False := fun rest h => hpoint ⟨rest, h⟩
    rw [scanFraction, Nekiro.scanFraction]
    · rfl
    · exact hother
    · exact hother

theorem scanExponentPart_of {limit : Nat} (hlimit : limit < 2 ^ 63) {text : Bytes}
    (htext : text.length < 2 ^ 63) :
    scanExponentPart (Int64.ofNat limit) text =
      (Nekiro.scanExponentPart limit text).map fun r => (r.1, .of r.2.1, r.2.2) := by
  unfold scanExponentPart Nekiro.scanExponentPart
  split_ifs with hmark
  · simp only []
    generalize hdigits : (if (text.tail.head? == some 0x2D) = true ∨ text.tail.head? = some 0x2B
      then text.tail.tail else text.tail) = digits
    have hscan : scanExponent (Int64.ofNat limit) ⟨0, false, 0⟩ digits =
        (.of (Nekiro.scanExponent limit ⟨0, false, 0⟩ digits).1,
          (Nekiro.scanExponent limit ⟨0, false, 0⟩ digits).2) :=
      @scanExponent_of limit hlimit ⟨0, false, 0⟩ (Nat.zero_le _) digits
    have hlength : digits.length ≤ text.length := by
      rw [← hdigits]
      split_ifs
      · simp only [List.length_tail]
        omega
      · simp only [List.length_tail]
        omega
    have hcount : (Nekiro.scanExponent limit ⟨0, false, 0⟩ digits).1.digits < 2 ^ 63 := by
      have htake := (@List.takeWhile_sublist _ digits Json.isDigit).length_le
      rw [scanExponent_eq, Exponent.foldl_digits]
      simp only []
      omega
    have hzero : (Exponent.of (Nekiro.scanExponent limit ⟨0, false, 0⟩ digits).1).digits = 0 ↔
        (Nekiro.scanExponent limit ⟨0, false, 0⟩ digits).1.digits = 0 :=
      ofNat_inj (n := 0) hcount (by omega)
    simp only [hscan, hzero]
    split_ifs <;> rfl
  · rfl

theorem exponentAtLeast_of {limit : Nat} (hlimit : limit < 2 ^ 63) {e : Nekiro.Exponent}
    (he : e.magnitude ≤ limit) {minimum : Int} (hlo : -(limit : Int) ≤ minimum)
    (hhi : minimum ≤ limit) (negative : Bool) :
    exponentAtLeast negative (.of e) (Int64.ofInt minimum) =
      Nekiro.exponentAtLeast negative e minimum := by
  have hminimum : (Int64.ofInt minimum).toInt = minimum :=
    Int64.toInt_ofInt_of_le (by omega) (by omega)
  have hneg : (-Int64.ofInt minimum).toInt = -minimum := by
    rw [← Int64.ofInt_neg]
    exact Int64.toInt_ofInt_of_le (by omega) (by omega)
  have hmagnitude : (Exponent.of e).magnitude.toInt = e.magnitude :=
    Int64.toInt_ofNat_of_lt (by omega)
  have hzero : ((Exponent.of e).magnitude == 0) = (e.magnitude == 0) := by
    rw [Bool.eq_iff_iff, beq_iff_eq, beq_iff_eq]
    exact ofNat_inj (n := 0) (by omega) (by omega)
  have hzeroInt : (0 : Int64).toInt = 0 := rfl
  simp only [exponentAtLeast, Nekiro.exponentAtLeast, hzero, Int64.le_iff_toInt_le, hminimum, hneg,
    hmagnitude, hzeroInt]
  rfl

/-- No counter overflows on a text of a length that an `int` holds. -/
theorem validatePositiveJSONInteger_of {text : Bytes} (htext : text.length < 2 ^ 63) :
    validatePositiveJSONInteger text = Nekiro.validatePositiveJSONInteger text := by
  have hscan : (do
      let (k, rest) ← scanInteger (if text.head? == some 0x2D then text.tail else text)
      let (k, rest) ← scanFraction k rest
      let (exponentNegative, e, rest) ← scanExponentPart (Int64.ofNat text.length) rest
      if rest = [] then pure (k, exponentNegative, e) else none) =
      (scanNumber text).map fun r => (Coefficient.of r.1, r.2.1, Exponent.of r.2.2) := by
    rw [scanInteger_of, scanNumber]
    cases hinteger : Nekiro.scanInteger (if text.head? == some 0x2D then text.tail else text) with
    | none => rfl
    | some r =>
        obtain ⟨k, rest⟩ := r
        obtain ⟨s, hs, -, -⟩ := of_scanInteger hinteger
        have hrest : rest.length ≤ text.length := by
          have hle : (if text.head? == some 0x2D then text.tail else text).length ≤
              text.length := by
            split_ifs
            · simp
            · exact le_rfl
          rw [hs, List.length_append] at hle
          omega
        simp only [Option.map_some, Option.bind_eq_bind, Option.bind_some]
        rw [scanFraction_of (by omega) k]
        cases hfraction : Nekiro.scanFraction k rest with
        | none => rfl
        | some r =>
            obtain ⟨k', rest'⟩ := r
            obtain ⟨f, -, hf⟩ := of_scanFraction hfraction
            have hrest' : rest'.length ≤ rest.length := by
              rw [hf, List.length_append]
              omega
            simp only [Option.map_some, Option.bind_some]
            rw [scanExponentPart_of htext (by omega)]
            cases Nekiro.scanExponentPart text.length rest' with
            | none => rfl
            | some r =>
                simp only [Option.map_some, Option.bind_some]
                split_ifs <;> rfl
  rw [validatePositiveJSONInteger_eq]
  unfold validatePositiveJSONInteger
  simp only []
  rw [hscan]
  cases hnumber : scanNumber text with
  | none => rfl
  | some r =>
      obtain ⟨n, rfl⟩ := of_scanNumber hnumber
      obtain rfl := Option.some.inj ((scanNumber_text n).symm.trans hnumber)
      have hzeros := n.scanned_trailingZeros_le
      have hlength := n.length_parts_le
      have hdigits := n.scanned_digits
      have hmagnitude : (n.scannedExponent n.text.length).2.magnitude ≤ n.text.length := by
        unfold Numeral.scannedExponent
        cases n.exponent with
        | none => exact Nat.zero_le _
        | some e => exact Exponent.foldl_magnitude_le e.isDigits.2 (Nat.zero_le _)
      have hminimum : (Coefficient.of n.scanned).digits - (Coefficient.of n.scanned).trailingZeros =
          Int64.ofInt ((n.scanned.digits : Int) - n.scanned.trailingZeros) := by
        rw [Int64.ofInt_sub, Int64.ofInt_eq_ofNat, Int64.ofInt_eq_ofNat]
        rfl
      simp only [Option.map_some, hminimum,
        @exponentAtLeast_of _ htext _ hmagnitude
          ((n.scanned.digits : Int) - n.scanned.trailingZeros)
          (by omega) (by omega)]
      rfl

end Machine

/-! ## The decision -/

theorem validatePositiveJSONInteger_of_not_numeral (h : ¬ ∃ n : Numeral, n.text = text) :
    validatePositiveJSONInteger text = some "type" := by
  rw [validatePositiveJSONInteger_eq]
  cases hscan : scanNumber text with
  | none => rfl
  | some r => exact absurd (of_scanNumber hscan) h

/-- The three answers, one for each text. -/
theorem validatePositiveJSONInteger_cases (text : Bytes) :
    (validatePositiveJSONInteger text = none
        ∧ ∃ n : Numeral, n.text = text ∧ 0 < n.value ∧ ∃ k : Nat, n.value = k)
      ∨ (validatePositiveJSONInteger text = some "minimum"
        ∧ ∃ n : Numeral, n.text = text ∧ n.value ≤ 0)
      ∨ (validatePositiveJSONInteger text = some "type"
        ∧ ∀ n : Numeral, n.text = text → 0 < n.value ∧ ¬ ∃ k : Nat, n.value = k) := by
  by_cases h : ∃ n : Numeral, n.text = text
  · obtain ⟨n, rfl⟩ := h
    obtain ⟨hminimum, hnone, htype⟩ := validatePositiveJSONInteger_text n
    by_cases hvalue : 0 < n.value
    · by_cases hint : ∃ k : Nat, n.value = k
      · exact .inl ⟨hnone hvalue hint, n, rfl, hvalue, hint⟩
      · refine .inr (.inr ⟨htype hvalue hint, fun n' htext => ?_⟩)
        -- another literal of this text would be judged by its own value
        obtain ⟨hminimum', hnone', -⟩ := validatePositiveJSONInteger_text n'
        rw [htext, htype hvalue hint] at hminimum' hnone'
        have hvalue' : 0 < n'.value := by
          by_contra hle
          exact absurd (hminimum' (not_lt.mp hle)) (by decide)
        exact ⟨hvalue', fun hint' => absurd (hnone' hvalue' hint') (by decide)⟩
    · exact .inr (.inl ⟨hminimum (not_lt.mp hvalue), n, rfl, not_lt.mp hvalue⟩)
  · refine .inr (.inr ⟨validatePositiveJSONInteger_of_not_numeral h, fun n htext => ?_⟩)
    exact absurd ⟨n, htext⟩ h

/-- The check accepts the exact positive integers, and names `minimum` for
the numbers that are not positive and `type` for everything else. -/
theorem validatePositiveJSONInteger_decides (text : Bytes) :
    (validatePositiveJSONInteger text = none ↔
        ∃ n : Numeral, n.text = text ∧ ∃ k : Nat, 0 < k ∧ n.value = k)
      ∧ (validatePositiveJSONInteger text = some "minimum" ↔
        ∃ n : Numeral, n.text = text ∧ n.value ≤ 0)
      ∧ (validatePositiveJSONInteger text = some "type" ↔
        ∀ n : Numeral, n.text = text → 0 < n.value ∧ ¬ ∃ k : Nat, n.value = k)
      ∧ (text.length < 2 ^ 63 →
        Machine.validatePositiveJSONInteger text = validatePositiveJSONInteger text) := by
  refine ⟨⟨fun h => ?_, ?_⟩, ⟨fun h => ?_, ?_⟩, ⟨fun h => ?_, fun h => ?_⟩,
    Machine.validatePositiveJSONInteger_of⟩
  · rcases validatePositiveJSONInteger_cases text with ⟨-, n, htext, hvalue, k, hk⟩ | h' | h'
    · refine ⟨n, htext, k, ?_, hk⟩
      rw [hk] at hvalue
      exact_mod_cast hvalue
    · exact absurd (h.symm.trans h'.1) (by decide)
    · exact absurd (h.symm.trans h'.1) (by decide)
  · rintro ⟨n, rfl, k, hk, hvalue⟩
    refine (validatePositiveJSONInteger_text n).2.1 ?_ ⟨k, hvalue⟩
    rw [hvalue]
    exact_mod_cast hk
  · rcases validatePositiveJSONInteger_cases text with h' | h' | h'
    · exact absurd (h.symm.trans h'.1) (by decide)
    · exact h'.2
    · exact absurd (h.symm.trans h'.1) (by decide)
  · rintro ⟨n, rfl, hvalue⟩
    exact (validatePositiveJSONInteger_text n).1 hvalue
  · rcases validatePositiveJSONInteger_cases text with h' | h' | h'
    · exact absurd (h.symm.trans h'.1) (by decide)
    · exact absurd (h.symm.trans h'.1) (by decide)
    · exact h'.2
  · rcases validatePositiveJSONInteger_cases text with ⟨-, n, htext, -, hint⟩ | ⟨-, n, htext,
      hvalue⟩ | h'
    · exact absurd hint (h n htext).2
    · exact absurd (h n htext).1 (not_lt.mpr hvalue)
    · exact h'.1

/-- `12.50e3` is accepted and `-0.5` is not. -/
theorem validatePositiveJSONInteger_decides_twelve :
    Machine.validatePositiveJSONInteger (utf8 "12.50e3") = none
      ∧ validatePositiveJSONInteger (utf8 "-0.5") = some "minimum" := by
  have haccepted := (validatePositiveJSONInteger_decides (utf8 "12.50e3")).2.2.2 (by decide)
  exact ⟨haccepted.trans (by decide), by decide⟩

end Nekiro
