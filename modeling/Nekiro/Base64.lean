import Mathlib.Data.List.Basic
import Mathlib.Tactic.IntervalCases

/-!
# Base64

`base64.RawURLEncoding` of Go: the URL alphabet without padding. The
decoder is the strict one, which refuses bits that stand for no byte, and
which like all of them skips line breaks. It names no program.
-/

namespace Nekiro

namespace Base64

/-- The digit of a sextet. -/
def digit (n : Nat) : Char :=
  if n < 26 then Char.ofNat (65 + n)
  else if n < 52 then Char.ofNat (71 + n)
  else if n < 62 then Char.ofNat (n - 4)
  else if n = 62 then '-' else '_'

def digit? (c : Char) : Option Nat :=
  if 'A' ≤ c ∧ c ≤ 'Z' then some (c.toNat - 65)
  else if 'a' ≤ c ∧ c ≤ 'z' then some (c.toNat - 71)
  else if '0' ≤ c ∧ c ≤ '9' then some (c.toNat + 4)
  else if c = '-' then some 62 else if c = '_' then some 63 else none

def encodeChars : List UInt8 → List Char
  | [] => []
  | [a] => [digit (a.toNat / 4), digit (a.toNat % 4 * 16)]
  | [a, b] =>
      [digit (a.toNat / 4), digit (a.toNat % 4 * 16 + b.toNat / 16), digit (b.toNat % 16 * 4)]
  | a :: b :: c :: rest =>
      digit (a.toNat / 4) :: digit (a.toNat % 4 * 16 + b.toNat / 16) ::
        digit (b.toNat % 16 * 4 + c.toNat / 64) :: digit (c.toNat % 64) :: encodeChars rest

def encode (bytes : List UInt8) : String := String.ofList (encodeChars bytes)

def decodeChars : List Char → Option (List UInt8)
  | [] => some []
  | [_] => none
  | [p, q] => do
      let p ← digit? p
      let q ← digit? q
      if q % 16 = 0 then some [UInt8.ofNat (p * 4 + q / 16)] else none
  | [p, q, r] => do
      let p ← digit? p
      let q ← digit? q
      let r ← digit? r
      if r % 4 = 0 then some [UInt8.ofNat (p * 4 + q / 16), UInt8.ofNat (q % 16 * 16 + r / 4)]
      else none
  | p :: q :: r :: s :: rest => do
      let p ← digit? p
      let q ← digit? q
      let r ← digit? r
      let s ← digit? s
      let bytes ← decodeChars rest
      some (UInt8.ofNat (p * 4 + q / 16) :: UInt8.ofNat (q % 16 * 16 + r / 4) ::
        UInt8.ofNat (r % 4 * 64 + s) :: bytes)

/-- `RawURLEncoding.Strict().DecodeString`. -/
def decode (text : String) : Option (List UInt8) :=
  decodeChars (text.toList.filter fun c => c ≠ '\r' ∧ c ≠ '\n')

theorem digit?_digit {n : Nat} (h : n < 64) : digit? (digit n) = some n := by
  interval_cases n <;> decide

theorem ofNat_eq {n : Nat} {b : UInt8} (h : n = b.toNat) : UInt8.ofNat n = b := by
  rw [h, UInt8.ofNat_toNat]

theorem decodeChars_encodeChars (bytes : List UInt8) :
    decodeChars (encodeChars bytes) = some bytes := by
  fun_induction encodeChars bytes with
  | case1 => rfl
  | case2 a =>
      have ha := a.toNat_lt
      simp only [decodeChars, Option.bind_eq_bind]
      rw [digit?_digit (by omega), digit?_digit (by omega)]
      simp only [Option.bind_some]
      rw [if_pos (by omega), @ofNat_eq _ a (by omega)]
  | case3 a b =>
      have ha := a.toNat_lt
      have hb := b.toNat_lt
      simp only [decodeChars, Option.bind_eq_bind]
      rw [digit?_digit (by omega), digit?_digit (by omega), digit?_digit (by omega)]
      simp only [Option.bind_some]
      rw [if_pos (by omega), @ofNat_eq _ a (by omega), @ofNat_eq _ b (by omega)]
  | case4 a b c rest ih =>
      have ha := a.toNat_lt
      have hb := b.toNat_lt
      have hc := c.toNat_lt
      simp only [decodeChars, Option.bind_eq_bind]
      rw [digit?_digit (by omega), digit?_digit (by omega), digit?_digit (by omega),
        digit?_digit (by omega), ih]
      simp only [Option.bind_some]
      rw [@ofNat_eq _ a (by omega), @ofNat_eq _ b (by omega), @ofNat_eq _ c (by omega)]

theorem exists_digit_of_mem (bytes : List UInt8) :
    ∀ c ∈ encodeChars bytes, ∃ n < 64, c = digit n := by
  fun_induction encodeChars bytes with
  | case1 => simp
  | case2 a =>
      have ha := a.toNat_lt
      simp only [List.forall_mem_singleton, List.forall_mem_cons]
      exact ⟨⟨_, by omega, rfl⟩, ⟨_, by omega, rfl⟩⟩
  | case3 a b =>
      have ha := a.toNat_lt
      have hb := b.toNat_lt
      simp only [List.forall_mem_singleton, List.forall_mem_cons]
      exact ⟨⟨_, by omega, rfl⟩, ⟨_, by omega, rfl⟩, ⟨_, by omega, rfl⟩⟩
  | case4 a b c rest ih =>
      have ha := a.toNat_lt
      have hb := b.toNat_lt
      have hc := c.toNat_lt
      simp only [List.forall_mem_cons]
      exact ⟨⟨_, by omega, rfl⟩, ⟨_, by omega, rfl⟩, ⟨_, by omega, rfl⟩, ⟨_, by omega, rfl⟩, ih⟩

/-- What holds of the digits holds of all that the encoder writes. -/
theorem forall_mem_encodeChars {P : Char → Prop} (h : ∀ n < 64, P (digit n)) (bytes : List UInt8) :
    ∀ c ∈ encodeChars bytes, P c := by
  intro c hc
  obtain ⟨n, hn, rfl⟩ := exists_digit_of_mem bytes c hc
  exact h n hn

/-- Nothing the encoder writes is skipped. -/
theorem filter_encodeChars (bytes : List UInt8) :
    (encodeChars bytes).filter (fun c => c ≠ '\r' ∧ c ≠ '\n') = encodeChars bytes :=
  List.filter_eq_self.mpr (forall_mem_encodeChars (by decide) bytes)

theorem length_encodeChars (bytes : List UInt8) :
    (encodeChars bytes).length = (4 * bytes.length + 2) / 3 := by
  fun_induction encodeChars bytes with
  | case1 | case2 a | case3 a b => simp
  | case4 a b c rest ih =>
      simp only [List.length_cons, ih]
      omega

theorem decode_encode (bytes : List UInt8) : decode (encode bytes) = some bytes := by
  rw [decode, encode, String.toList_ofList, filter_encodeChars, decodeChars_encodeChars]

/-! ## Byte strings

The decoder that is not strict leaves out the bits that stand for no
byte. -/

def decodeLooseChars : List Char → Option (List UInt8)
  | [] => some []
  | [_] => none
  | [p, q] => do
      let p ← digit? p
      let q ← digit? q
      some [UInt8.ofNat (p * 4 + q / 16)]
  | [p, q, r] => do
      let p ← digit? p
      let q ← digit? q
      let r ← digit? r
      some [UInt8.ofNat (p * 4 + q / 16), UInt8.ofNat (q % 16 * 16 + r / 4)]
  | p :: q :: r :: s :: rest => do
      let p ← digit? p
      let q ← digit? q
      let r ← digit? r
      let s ← digit? s
      let bytes ← decodeLooseChars rest
      some (UInt8.ofNat (p * 4 + q / 16) :: UInt8.ofNat (q % 16 * 16 + r / 4) ::
        UInt8.ofNat (r % 4 * 64 + s) :: bytes)

/-- `[]byte(RawURLEncoding.EncodeToString(bytes))`. -/
def encodeBytes (bytes : List UInt8) : List UInt8 := (encodeChars bytes).map Char.toUInt8

/-- `RawURLEncoding.DecodeString`. -/
def decodeLoose (text : List UInt8) : Option (List UInt8) :=
  decodeLooseChars ((text.map fun b => Char.ofNat b.toNat).filter fun c => c ≠ '\r' ∧ c ≠ '\n')

/-- What the strict decoder takes, the other takes for the same. -/
theorem decodeLooseChars_of_decodeChars {text : List Char} {bytes : List UInt8}
    (h : decodeChars text = some bytes) : decodeLooseChars text = some bytes := by
  fun_induction decodeChars text generalizing bytes with
  | case1 => exact h
  | case2 => cases h
  | case3 p q =>
      simp only [Option.bind_eq_bind, Option.bind_eq_some_iff, Option.ite_none_right_eq_some] at h
      obtain ⟨p', hp, q', hq, -, hbytes⟩ := h
      simp only [decodeLooseChars, hp, hq, Option.bind_eq_bind, Option.bind_some, hbytes]
  | case4 p q r =>
      simp only [Option.bind_eq_bind, Option.bind_eq_some_iff, Option.ite_none_right_eq_some] at h
      obtain ⟨p', hp, q', hq, r', hr, -, hbytes⟩ := h
      simp only [decodeLooseChars, hp, hq, hr, Option.bind_eq_bind, Option.bind_some, hbytes]
  | case5 p q r s rest ih =>
      simp only [Option.bind_eq_bind, Option.bind_eq_some_iff] at h
      obtain ⟨p', hp, q', hq, r', hr, s', hs, tail, htail, hbytes⟩ := h
      simp only [decodeLooseChars, hp, hq, hr, hs, ih htail, Option.bind_eq_bind, Option.bind_some,
        hbytes]

/-- The digits are ASCII. -/
theorem map_encodeBytes (bytes : List UInt8) :
    (encodeBytes bytes).map (fun b => Char.ofNat b.toNat) = encodeChars bytes := by
  rw [encodeBytes, List.map_map]
  conv_rhs => rw [← List.map_id (encodeChars bytes)]
  exact List.map_congr_left (forall_mem_encodeChars (by decide) bytes)

theorem decodeLoose_encodeBytes (bytes : List UInt8) :
    decodeLoose (encodeBytes bytes) = some bytes := by
  rw [decodeLoose, map_encodeBytes, filter_encodeChars]
  exact decodeLooseChars_of_decodeChars (decodeChars_encodeChars bytes)

theorem encodeBytes_injective : Function.Injective encodeBytes := fun a b h =>
  Option.some.inj ((decodeLoose_encodeBytes a).symm.trans (h ▸ decodeLoose_encodeBytes b))

theorem forall_mem_encodeBytes {P : UInt8 → Prop} (h : ∀ n < 64, P (digit n).toUInt8)
    (bytes : List UInt8) : ∀ b ∈ encodeBytes bytes, P b := by
  intro b hb
  obtain ⟨c, hc, rfl⟩ := List.mem_map.mp hb
  obtain ⟨n, hn, rfl⟩ := exists_digit_of_mem bytes c hc
  exact h n hn

theorem length_encodeBytes (bytes : List UInt8) :
    (encodeBytes bytes).length = (4 * bytes.length + 2) / 3 := by
  rw [encodeBytes, List.length_map, length_encodeChars]

end Base64

end Nekiro
