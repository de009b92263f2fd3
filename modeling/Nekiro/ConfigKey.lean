import Nekiro.Base64
import Nekiro.Guard
import Nekiro.Strings

/-!
# Configuration keys and their names in storage

A key is text in segments. The file provider stores it under a leaf
(`mapKey`), the Nacos provider under a data ID (`dataIDForKey`); both write
it in base64, the second only where the key itself would not do. A leaf is
read back by `unmapLeaf`, which refuses what `mapKey` does not write, so
leaves and keys are one to one, and so are keys and their data IDs
(`key_names`).
-/

namespace Nekiro

open Json (Bytes utf8)
open Strings (byte)
open Guard

namespace ConfigCenter

/-! ## Outcomes -/

inductive Code where
  | invalid
  | missing
  | unsafeState
  | unauthorized
  | unavailable
  | unsupported
  | canceled
  | subscriptionClosed
  | readerClosed
  | publisherClosed
  | watchInterrupted
  | payloadTooLarge
  | revisionDuplicate
  | revisionStale
  | revisionGap
  | revisionOutOfOrder
deriving Repr, DecidableEq

inductive Operation where
  | validateKey
  | revision
  | get
  | observe
  | next
  | read
  | watch
  | publish
  | delete
  | close
deriving Repr, DecidableEq

/-- An error, with the text of its key and what interrupted a watch. -/
structure ConfigError where
  code : Code
  key : Bytes
  operation : Operation
  cause : Option Code
deriving Repr, DecidableEq

def configError (code : Code) (key : Bytes) (operation : Operation) : ConfigError :=
  ⟨code, key, operation, none⟩

/-! ## Keys -/

structure Key where
  value : Bytes
deriving Repr, DecidableEq

def maxKeyLength : Nat := 160

def maxKeySegmentLength : Nat := 32

def isASCIIAlphaNumeric (c : UInt8) : Bool :=
  (byte 'a' ≤ c && c ≤ byte 'z') || (byte 'A' ≤ c && c ≤ byte 'Z') || (byte '0' ≤ c && c ≤ byte '9')

/-- The bytes that may follow the first of a segment. -/
def isSegmentByte (c : UInt8) : Bool :=
  isASCIIAlphaNumeric c || c == byte '.' || c == byte '_' || c == byte ':' || c == byte '-'

/-- The loop of `validKey`, with the length of the segment so far. -/
def validKeyFrom (segmentLength : Nat) : Bytes → Bool
  | [] => segmentLength ≠ 0
  | c :: rest =>
      if c = byte '/' then segmentLength ≠ 0 && validKeyFrom 0 rest
      else (if segmentLength = 0 then isASCIIAlphaNumeric c else isSegmentByte c)
        && segmentLength + 1 ≤ maxKeySegmentLength && validKeyFrom (segmentLength + 1) rest

def validKey (value : Bytes) : Bool :=
  value ≠ [] && value.length ≤ maxKeyLength && validKeyFrom 0 value

def Key.valid (k : Key) : Bool := validKey k.value

def parseKey (value : Bytes) : Except ConfigError Key := do
  require (validKey value = true) (configError .invalid [] .validateKey)
  pure ⟨value⟩

/-- A key that `parseKey` has made. -/
structure ValidKey where
  key : Key
  valid : key.valid = true
deriving DecidableEq

theorem parseKey_ok_iff {value : Bytes} {k : Key} :
    parseKey value = .ok k ↔ k.value = value ∧ k.valid = true := by
  simp only [parseKey, check_bind_ok_iff, require_ok_iff]
  constructor
  · rintro ⟨hvalid, heq⟩
    cases heq
    exact ⟨rfl, hvalid⟩
  · rintro ⟨rfl, hvalid⟩
    exact ⟨hvalid, rfl⟩

theorem length_of_valid {k : Key} (h : k.valid = true) : k.value.length ≤ 160 := by
  simp only [Key.valid, validKey, Bool.and_eq_true, decide_eq_true_eq] at h
  exact h.1.2

theorem ne_nil_of_valid {k : Key} (h : k.valid = true) : k.value ≠ [] := by
  simp only [Key.valid, validKey, Bool.and_eq_true, decide_eq_true_eq] at h
  exact h.1.1

/-! ## Leaves of the file provider -/

def mappingPrefix : Bytes := utf8 "cfg-v1-"

def mappingSuffix : Bytes := utf8 ".value"

def maxMappedLeafLength : Nat := 7 + 214 + 6

def mapKey (k : Key) : Except ConfigError Bytes := do
  require (k.valid = true) (configError .invalid k.value .observe)
  let leaf := mappingPrefix ++ Base64.encodeBytes k.value ++ mappingSuffix
  require (leaf.length ≤ maxMappedLeafLength) (configError .invalid k.value .observe)
  pure leaf

def unmapLeaf (leaf : Bytes) : Except ConfigError Key := do
  let refused := configError .invalid [] .observe
  require (mappingPrefix <+: leaf ∧ mappingSuffix <:+ leaf) refused
  let rest := leaf.drop mappingPrefix.length
  let encoded := if mappingSuffix <:+ rest then rest.take (rest.length - mappingSuffix.length)
    else rest
  require (encoded ≠ []) refused
  match Base64.decodeLoose encoded with
  | none => .error refused
  | some decoded => do
      require (Base64.encodeBytes decoded = encoded) refused
      parseKey decoded

theorem length_mappedLeaf {k : Key} (h : k.valid = true) :
    (mappingPrefix ++ Base64.encodeBytes k.value ++ mappingSuffix).length ≤
      maxMappedLeafLength := by
  have hlength := length_of_valid h
  have hprefix : mappingPrefix.length = 7 := by decide
  have hsuffix : mappingSuffix.length = 6 := by decide
  rw [List.length_append, List.length_append, Base64.length_encodeBytes, hprefix, hsuffix,
    maxMappedLeafLength]
  omega

theorem mapKey_ok_iff {k : Key} {leaf : Bytes} :
    mapKey k = .ok leaf ↔
      k.valid = true ∧ leaf = mappingPrefix ++ Base64.encodeBytes k.value ++ mappingSuffix := by
  simp only [mapKey, check_bind_ok_iff, require_ok_iff]
  constructor
  · rintro ⟨hvalid, -, heq⟩
    cases heq
    exact ⟨hvalid, rfl⟩
  · rintro ⟨hvalid, rfl⟩
    exact ⟨hvalid, length_mappedLeaf hvalid, rfl⟩

/-- The suffix does not reach into the prefix of a leaf. -/
theorem suffix_of_leaf {rest : Bytes} (h : mappingSuffix <:+ mappingPrefix ++ rest) :
    mappingSuffix <:+ rest := by
  rcases List.suffix_or_suffix_of_suffix h (List.suffix_append mappingPrefix rest) with
    hrest | hrest
  · exact hrest
  · obtain ⟨t, ht⟩ := hrest
    rcases List.eq_nil_or_concat' t with rfl | ⟨t, c, rfl⟩
    · exact ⟨[], ht.symm⟩
    · -- the byte before `rest` is the last one of the prefix, and not one of the suffix
      obtain ⟨u, hu⟩ := h
      rw [← ht, ← List.append_assoc, List.append_left_inj, ← List.append_assoc] at hu
      have hlast := congrArg List.getLast? hu
      rw [List.getLast?_concat] at hlast
      have hmem : c ∈ mappingSuffix := by
        rw [← ht]
        simp
      have hc : c = byte '-' := Option.some.inj (hlast.trans (by decide))
      rw [hc] at hmem
      exact absurd hmem (by decide)

theorem unmapLeaf_ok_iff {leaf : Bytes} {k : Key} :
    unmapLeaf leaf = .ok k ↔ mapKey k = .ok leaf := by
  rw [mapKey_ok_iff]
  simp only [unmapLeaf, check_bind_ok_iff, require_ok_iff]
  constructor
  · rintro ⟨⟨⟨rest, rfl⟩, hsuffix⟩, -, h⟩
    have hrest := suffix_of_leaf hsuffix
    rw [List.drop_left, if_pos hrest] at h
    obtain ⟨encoded, rfl⟩ := hrest
    rw [List.length_append, Nat.add_sub_cancel, List.take_left] at h
    cases hdecode : Base64.decodeLoose encoded with
    | none =>
        rw [hdecode] at h
        cases h
    | some decoded =>
        rw [hdecode] at h
        obtain ⟨hencode, hparse⟩ := check_bind_ok_iff.mp h
        obtain ⟨hvalue, hvalid⟩ := parseKey_ok_iff.mp hparse
        rw [hvalue, require_ok_iff.mp hencode, List.append_assoc]
        exact ⟨hvalid, rfl⟩
  · rintro ⟨hvalid, rfl⟩
    have hne : Base64.encodeBytes k.value ≠ [] := by
      intro hnil
      refine ne_nil_of_valid hvalid (Base64.encodeBytes_injective ?_)
      rw [hnil]
      rfl
    rw [List.append_assoc, List.drop_left, if_pos (List.suffix_append _ _), List.length_append,
      Nat.add_sub_cancel, List.take_left, Base64.decodeLoose_encodeBytes]
    refine ⟨⟨List.prefix_append _ _, ?_⟩, hne, ?_⟩
    · exact (List.suffix_append _ _).trans (List.suffix_append _ _)
    · exact check_bind_ok_iff.mpr ⟨require_ok_iff.mpr rfl, parseKey_ok_iff.mpr ⟨rfl, hvalid⟩⟩

theorem separator_notMem_leaf (value : Bytes) :
    ∀ c ∈ mappingPrefix ++ Base64.encodeBytes value ++ mappingSuffix,
      c ≠ byte '/' ∧ c ≠ byte '\\' := by
  rw [List.forall_mem_append, List.forall_mem_append]
  refine ⟨⟨by decide +kernel, ?_⟩, by decide +kernel⟩
  exact Base64.forall_mem_encodeBytes
    (P := fun c => c ≠ byte '/' ∧ c ≠ byte '\\') (by decide) value

/-- The key of a leaf that the watcher names. -/
def mappedKeyFromEventName (name : Bytes) : Option Key :=
  if name.any fun c => c = byte '/' ∨ c = byte '\\' then none
  else if mappingPrefix <+: name ∧ mappingSuffix <:+ name then (unmapLeaf name).toOption
  else none

theorem mappedKeyFromEventName_eq_some_iff {name : Bytes} {k : Key} :
    mappedKeyFromEventName name = some k ↔ mapKey k = .ok name := by
  constructor
  · intro h
    unfold mappedKeyFromEventName at h
    split_ifs at h
    cases hunmap : unmapLeaf name with
    | error e =>
        rw [hunmap] at h
        cases h
    | ok k' =>
        rw [hunmap] at h
        cases h
        exact unmapLeaf_ok_iff.mp hunmap
  · intro h
    obtain ⟨-, hname⟩ := mapKey_ok_iff.mp h
    have hplain : ¬(name.any fun c => c = byte '/' ∨ c = byte '\\') = true := by
      simp only [List.any_eq_true, decide_eq_true_eq, not_exists, not_and, not_or]
      rw [hname]
      exact separator_notMem_leaf k.value
    have hends : mappingPrefix <+: name ∧ mappingSuffix <:+ name := by
      rw [hname]
      exact ⟨(List.prefix_append _ _).trans (List.prefix_append _ _), List.suffix_append _ _⟩
    rw [mappedKeyFromEventName, if_neg hplain, if_pos hends, unmapLeaf_ok_iff.mpr h]
    rfl

/-! ## Data IDs of the Nacos provider -/

def mappedDataIDPrefix : Bytes := utf8 "nekiro.key.v1."

def isDataIDRune (c : Char) : Bool :=
  ('a' ≤ c && c ≤ 'z') || ('A' ≤ c && c ≤ 'Z') || ('0' ≤ c && c ≤ '9')
    || c == '.' || c == '_' || c == ':' || c == '-'

def validDataID (value : Bytes) : Bool :=
  value ≠ [] && value.length ≤ 255 && (Strings.runes value).all isDataIDRune

def dataIDForKey (k : Key) : Bytes :=
  if validDataID k.value && !mappedDataIDPrefix.isPrefixOf k.value then k.value
  else mappedDataIDPrefix ++ Base64.encodeBytes k.value

/-- The key is its own data ID unless that could be one of another. -/
theorem dataIDForKey_cases (k : Key) :
    (dataIDForKey k = k.value ∧ validDataID k.value = true ∧ ¬mappedDataIDPrefix <+: k.value)
      ∨ dataIDForKey k = mappedDataIDPrefix ++ Base64.encodeBytes k.value := by
  unfold dataIDForKey
  split_ifs with h
  · rw [Bool.and_eq_true, Bool.not_eq_true', ← Bool.not_eq_true, List.isPrefixOf_iff_prefix] at h
    exact .inl ⟨rfl, h⟩
  · exact .inr rfl

theorem dataIDForKey_injective : Function.Injective dataIDForKey := by
  intro k k' h
  obtain ⟨value⟩ := k
  obtain ⟨value'⟩ := k'
  congr 1
  rcases dataIDForKey_cases ⟨value⟩ with ⟨hk, -, hprefix⟩ | hk <;>
    rcases dataIDForKey_cases ⟨value'⟩ with ⟨hk', -, hprefix'⟩ | hk' <;> rw [hk, hk'] at h
  · exact h
  · exact absurd (h ▸ List.prefix_append _ _) hprefix
  · exact absurd (h ▸ List.prefix_append _ _) hprefix'
  · exact Base64.encodeBytes_injective (List.append_cancel_left h)

theorem validDataID_dataIDForKey {k : Key} (h : k.valid = true) :
    validDataID (dataIDForKey k) = true := by
  rcases dataIDForKey_cases k with ⟨hk, hvalid, -⟩ | hk
  · rw [hk]
    exact hvalid
  · have hlength := length_of_valid h
    have hprefix : mappedDataIDPrefix.length = 14 := by decide
    have hbytes : ∀ c ∈ mappedDataIDPrefix ++ Base64.encodeBytes k.value,
        c < 0x80 ∧ isDataIDRune (Char.ofNat c.toNat) = true := by
      rw [List.forall_mem_append]
      refine ⟨by decide +kernel, ?_⟩
      exact Base64.forall_mem_encodeBytes
        (P := fun c => c < 0x80 ∧ isDataIDRune (Char.ofNat c.toNat) = true) (by decide) k.value
    rw [hk, validDataID, Strings.runes_of_ascii fun c hc => (hbytes c hc).1, List.all_map,
      Bool.and_eq_true, Bool.and_eq_true, decide_eq_true_eq, decide_eq_true_eq, List.all_eq_true]
    refine ⟨⟨?_, ?_⟩, fun c hc => (hbytes c hc).2⟩
    · exact List.append_ne_nil_of_left_ne_nil (by decide) _
    · rw [List.length_append, Base64.length_encodeBytes, hprefix]
      omega

/-- **Keys and their names are one to one.** -/
theorem key_names :
    (∀ k : ValidKey, ∃ leaf, mapKey k.key = .ok leaf ∧ leaf.length ≤ 227
      ∧ (∀ c ∈ leaf, c ≠ byte '/' ∧ c ≠ byte '\\') ∧ unmapLeaf leaf = .ok k.key)
    ∧ (∀ leaf k, unmapLeaf leaf = .ok k → k.valid = true ∧ mapKey k = .ok leaf)
    ∧ (∀ leaf leaf' k, unmapLeaf leaf = .ok k → unmapLeaf leaf' = .ok k → leaf = leaf')
    ∧ (∀ k k' : ValidKey, dataIDForKey k.key = dataIDForKey k'.key → k = k')
    ∧ ∀ k : ValidKey, validDataID (dataIDForKey k.key) = true := by
  refine ⟨fun ⟨k, hvalid⟩ => ?_, fun leaf k h => ?_, fun leaf leaf' k h h' => ?_, ?_,
    fun k => validDataID_dataIDForKey k.valid⟩
  · have hmap := mapKey_ok_iff.mpr ⟨hvalid, rfl⟩
    exact ⟨_, hmap, length_mappedLeaf hvalid, separator_notMem_leaf k.value,
      unmapLeaf_ok_iff.mpr hmap⟩
  · have hmap := unmapLeaf_ok_iff.mp h
    exact ⟨(mapKey_ok_iff.mp hmap).1, hmap⟩
  · exact Except.ok.inj ((unmapLeaf_ok_iff.mp h).symm.trans (unmapLeaf_ok_iff.mp h'))
  · rintro ⟨k, hk⟩ ⟨k', hk'⟩ h
    obtain rfl := dataIDForKey_injective h
    rfl

-- a key in the reserved part of the data IDs is written in base64 itself
example : dataIDForKey ⟨utf8 "nekiro.key.v1.YQ"⟩ ≠ dataIDForKey ⟨utf8 "a"⟩ := by decide

end ConfigCenter

end Nekiro
