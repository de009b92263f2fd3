import Mathlib.Data.String.Basic
import Mathlib.Tactic.IntervalCases

/-!
# Hexadecimal text

The byte strings of the database are written as hexadecimal text on the
wire. `encode` and `decode` are Go's `hex.EncodeToString` and
`hex.DecodeString`: the reader takes digits of both cases, the writer
emits lower case. So a text reads back unchanged exactly when it is in
the writer's alphabet (`decode_of_isLower`).
-/

namespace Nekiro

namespace Hex

def nibble (n : Nat) : Char :=
  if n < 10 then Char.ofNat ('0'.toNat + n) else Char.ofNat ('a'.toNat + (n - 10))

def nibble? (c : Char) : Option Nat :=
  if '0' ≤ c ∧ c ≤ '9' then some (c.toNat - '0'.toNat)
  else if 'a' ≤ c ∧ c ≤ 'f' then some (c.toNat - 'a'.toNat + 10)
  else if 'A' ≤ c ∧ c ≤ 'F' then some (c.toNat - 'A'.toNat + 10)
  else none

/-- The writer's alphabet. -/
def isLower (c : Char) : Bool := ('0' ≤ c && c ≤ '9') || ('a' ≤ c && c ≤ 'f')

def encodeChars : List UInt8 → List Char
  | [] => []
  | b :: bs => nibble (b.toNat / 16) :: nibble (b.toNat % 16) :: encodeChars bs

def encode (bs : List UInt8) : String := String.ofList (encodeChars bs)

def decodeChars : List Char → Option (List UInt8)
  | [] => some []
  | [_] => none
  | c :: d :: cs => do
      let hi ← nibble? c
      let lo ← nibble? d
      let bs ← decodeChars cs
      some (UInt8.ofNat (16 * hi + lo) :: bs)

def decode (text : String) : Option (List UInt8) := decodeChars text.toList

/-! ## A lower-case text is what its bytes are written as -/

variable {c : Char} {text : String} {n : Nat}

theorem isLower_cases (h : isLower c = true) :
    (48 ≤ c.toNat ∧ c.toNat ≤ 57) ∨ (97 ≤ c.toNat ∧ c.toNat ≤ 102) := by
  simp only [isLower, Bool.or_eq_true, Bool.and_eq_true, decide_eq_true_eq] at h
  exact h

/-- A lower-case digit has a value below sixteen, and the value is
written as that digit. -/
theorem nibble_of_isLower (h : isLower c = true) :
    ∃ n, nibble? c = some n ∧ n < 16 ∧ nibble n = c := by
  obtain ⟨k, hk⟩ : ∃ k, c.toNat = k := ⟨_, rfl⟩
  have hc : c = Char.ofNat k := by rw [← hk, Char.ofNat_toNat]
  rcases isLower_cases h with ⟨h1, h2⟩ | ⟨h1, h2⟩
  all_goals
    rw [hk] at h1 h2
    interval_cases k <;> subst hc <;> exact ⟨_, rfl, by decide, by decide⟩

theorem decodeChars_of_isLower : ∀ (n : Nat) (cs : List Char), cs.length = 2 * n →
    (∀ c ∈ cs, isLower c = true) →
    ∃ bs, decodeChars cs = some bs ∧ bs.length = n ∧ encodeChars bs = cs
  | 0, [], _, _ => ⟨[], rfl, rfl, rfl⟩
  | n + 1, c :: d :: cs, hlen, hall => by
      obtain ⟨hi, hhi, hhi16, hc⟩ := nibble_of_isLower (hall c (by simp))
      obtain ⟨lo, hlo, hlo16, hd⟩ := nibble_of_isLower (hall d (by simp))
      obtain ⟨bs, hbs, hn, henc⟩ := decodeChars_of_isLower n cs
        (by simp only [List.length_cons] at hlen; omega) fun e he => hall e (by simp [he])
      refine ⟨UInt8.ofNat (16 * hi + lo) :: bs, ?_, by simp [hn], ?_⟩
      · simp [decodeChars, hhi, hlo, hbs]
      · have hb : (UInt8.ofNat (16 * hi + lo)).toNat = 16 * hi + lo := by
          rw [UInt8.toNat_ofNat']
          omega
        have h1 : (16 * hi + lo) / 16 = hi := by omega
        have h2 : (16 * hi + lo) % 16 = lo := by omega
        simp only [encodeChars, hb, h1, h2, hc, hd, henc]

/-- A lower-case text of `2 * n` digits decodes to `n` bytes, which are
written as that text. -/
theorem decode_of_isLower (hlen : text.toList.length = 2 * n)
    (hall : ∀ c ∈ text.toList, isLower c = true) :
    ∃ bs, decode text = some bs ∧ bs.length = n ∧ encode bs = text := by
  obtain ⟨bs, hbs, hn, henc⟩ := decodeChars_of_isLower n text.toList hlen hall
  refine ⟨bs, hbs, hn, ?_⟩
  rw [encode, henc, String.ofList_toList]

/-- What is written is in the writer's alphabet. -/
theorem isLower_nibble (h : n < 16) : isLower (nibble n) = true := by
  interval_cases n <;> decide

theorem encodeChars_spec : ∀ bs : List UInt8,
    (encodeChars bs).length = 2 * bs.length ∧ ∀ c ∈ encodeChars bs, isLower c = true
  | [] => ⟨rfl, by simp [encodeChars]⟩
  | b :: bs => by
      obtain ⟨hlen, hall⟩ := encodeChars_spec bs
      have hb := b.toNat_lt
      refine ⟨by simp only [encodeChars, List.length_cons, hlen]; omega, ?_⟩
      simp only [encodeChars, List.forall_mem_cons]
      exact ⟨isLower_nibble (by omega), isLower_nibble (by omega), hall⟩

/-! ## What the case and length checks of Go see -/

theorem utf8Len_of_isLower : ∀ cs : List Char, (∀ c ∈ cs, isLower c = true) →
    String.utf8Len cs = cs.length
  | [], _ => rfl
  | c :: cs, hall => by
      have hc : c.utf8Size = 1 := by
        have hle : c.toNat ≤ 127 := by
          rcases isLower_cases (hall c (by simp)) with h | h <;> omega
        have hval : c.val ≤ 127 := hle
        simp [Char.utf8Size, hval]
      rw [String.utf8Len_cons, utf8Len_of_isLower cs fun d hd => hall d (by simp [hd]), hc,
        List.length_cons]

/-- `len(text)` counts bytes, which are the characters here. -/
theorem utf8ByteSize_of_isLower (hall : ∀ c ∈ text.toList, isLower c = true) :
    text.utf8ByteSize = text.toList.length := by
  rw [← utf8Len_of_isLower _ hall, ← String.utf8ByteSize_ofList, String.ofList_toList]

theorem map_toLower_of_isLower (hall : ∀ c ∈ text.toList, isLower c = true) :
    text.map Char.toLower = text := by
  rw [← String.toList_inj, String.toList_map]
  refine (List.map_congr_left fun c hc => ?_).trans (List.map_id _)
  have hnot : ¬(65 ≤ c.toNat ∧ c.toNat ≤ 90) := by
    rcases isLower_cases (hall c hc) with h | h <;> omega
  exact dif_neg hnot

/-! ## A text that decodes -/

theorem nibble?_eq_some (h : nibble? c = some n) (hlower : c.toLower = c) : isLower c = true := by
  have hupper : ¬('A' ≤ c ∧ c ≤ 'F') := by
    rintro ⟨hle, hge⟩
    have hA : 65 ≤ c.toNat := hle
    have hF : c.toNat ≤ 70 := hge
    obtain ⟨k, hk⟩ : ∃ k, c.toNat = k := ⟨_, rfl⟩
    obtain rfl : c = Char.ofNat k := by rw [← hk, Char.ofNat_toNat]
    rw [hk] at hA hF
    interval_cases k <;> exact absurd hlower (by decide)
  unfold nibble? at h
  split_ifs at h with hdigit hletter
  · simp [isLower, hdigit]
  · simp [isLower, hletter]

theorem decodeChars_eq_some : ∀ {cs : List Char} {bs : List UInt8}, decodeChars cs = some bs →
    (∀ c ∈ cs, c.toLower = c) → cs.length = 2 * bs.length ∧ ∀ c ∈ cs, isLower c = true
  | [], _, h, _ => by
      cases h
      exact ⟨rfl, by simp⟩
  | [_], _, h, _ => by cases h
  | c :: d :: cs, bs, h, hall => by
      simp only [decodeChars, Option.bind_eq_bind, Option.bind_eq_some_iff] at h
      obtain ⟨hi, hhi, lo, hlo, bs', hbs', heq⟩ := h
      cases heq
      simp only [List.forall_mem_cons] at hall ⊢
      obtain ⟨hlen, htail⟩ := decodeChars_eq_some hbs' hall.2.2
      refine ⟨?_, nibble?_eq_some hhi hall.1, nibble?_eq_some hlo hall.2.1, htail⟩
      simp only [List.length_cons]
      omega

/-- A text without upper case that decodes is in the writer's alphabet. -/
theorem isLower_of_decode {bs : List UInt8} (h : decode text = some bs)
    (hlower : text = text.map Char.toLower) :
    text.toList.length = 2 * bs.length ∧ ∀ c ∈ text.toList, isLower c = true := by
  refine decodeChars_eq_some h fun c hc => ?_
  have hlist : text.toList.map Char.toLower = text.toList.map id := by
    rw [List.map_id, ← String.toList_map, ← hlower]
  exact List.map_inj_left.mp hlist c hc

end Hex

end Nekiro
