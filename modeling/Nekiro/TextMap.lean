import Mathlib.Data.List.Induction
import Nekiro.Sorting
import Nekiro.Table

/-!
# Maps with texts as keys

A Go map from strings, as the list of its entries in the order of their
keys: two maps with the same entries are equal. Storing under a key
replaces what is there. Ranging over a map goes through its entries in any
order; where that matters the order is a parameter of its own. It names no
program.
-/

namespace Nekiro

open Json (Bytes)

structure TextMap (V : Type) where
  entries : List (Bytes × V)
  inOrder : InOrder (fun e => byteKey e.1) entries
deriving DecidableEq

namespace TextMap

variable {V : Type}

def empty : TextMap V := ⟨[], .nil⟩

def get (m : TextMap V) (key : Bytes) : Option V :=
  (m.entries.find? fun e => e.1 = key).map Prod.snd

variable {m : TextMap V} {key : Bytes} {value : V}

theorem ext {m' : TextMap V} (h : m.entries = m'.entries) : m = m' := by
  cases m
  cases h
  rfl

theorem nodup_keys (m : TextMap V) : (m.entries.map Prod.fst).Nodup := by
  have hnodup := m.inOrder.nodup
  rw [show (fun e : Bytes × V => byteKey e.1) = byteKey ∘ Prod.fst from rfl,
    ← List.map_map] at hnodup
  exact hnodup.of_map

theorem get_eq_some_iff : m.get key = some value ↔ (key, value) ∈ m.entries := by
  unfold get
  rw [Option.map_eq_some_iff]
  constructor
  · rintro ⟨⟨key', value'⟩, hfound, rfl⟩
    obtain ⟨hmem, rfl⟩ := (Table.find?_eq_some_iff m.nodup_keys).mp hfound
    exact hmem
  · intro hmem
    exact ⟨(key, value), (Table.find?_eq_some_iff m.nodup_keys).mpr ⟨hmem, rfl⟩, rfl⟩

theorem get_eq_none_iff : m.get key = none ↔ ∀ e ∈ m.entries, e.1 ≠ key := by
  simp [get]

@[simp] theorem get_empty (key : Bytes) : (empty : TextMap V).get key = none := rfl

/-! ## Storing and deleting -/

theorem nodup_put (m : TextMap V) (key : Bytes) (value : V) :
    (((key, value) :: m.entries.filter fun e => e.1 ≠ key).map fun e => byteKey e.1).Nodup := by
  rw [List.map_cons, List.nodup_cons]
  refine ⟨fun hmem => ?_, m.inOrder.nodup.sublist (List.filter_sublist.map _)⟩
  obtain ⟨e, he, hkey⟩ := List.mem_map.mp hmem
  exact of_decide_eq_true (List.mem_filter.mp he).2 (byteKey_injective hkey)

/-- `m[key] = value`. -/
def put (m : TextMap V) (key : Bytes) (value : V) : TextMap V where
  entries := sortBy (fun e => byteKey e.1) ((key, value) :: m.entries.filter fun e => e.1 ≠ key)
  inOrder := inOrder_sortBy (m.nodup_put key value)

/-- `delete(m, key)`. -/
def erase (m : TextMap V) (key : Bytes) : TextMap V where
  entries := m.entries.filter fun e => e.1 ≠ key
  inOrder := m.inOrder.sublist List.filter_sublist

theorem put_perm (m : TextMap V) (key : Bytes) (value : V) :
    (m.put key value).entries.Perm ((key, value) :: (m.erase key).entries) := sortBy_perm _ _

theorem mem_erase_iff {e : Bytes × V} : e ∈ (m.erase key).entries ↔ e ∈ m.entries ∧ e.1 ≠ key := by
  simp [erase]

theorem mem_put_iff {e : Bytes × V} :
    e ∈ (m.put key value).entries ↔ e = (key, value) ∨ e ∈ m.entries ∧ e.1 ≠ key := by
  rw [(m.put_perm key value).mem_iff, List.mem_cons, mem_erase_iff]

@[simp]
theorem get_put_self (m : TextMap V) (key : Bytes) (value : V) :
    (m.put key value).get key = some value :=
  get_eq_some_iff.mpr (mem_put_iff.mpr (.inl rfl))

theorem get_put_of_ne {key' : Bytes} (h : key' ≠ key) :
    (m.put key value).get key' = m.get key' := by
  ext v
  rw [get_eq_some_iff, mem_put_iff, get_eq_some_iff]
  simp [h]

/-- An entry that is there is replaced. -/
theorem perm_of_get (h : m.get key = some value) :
    m.entries.Perm ((key, value) :: (m.erase key).entries) := by
  refine (List.perm_ext_iff_of_nodup m.nodup_keys.of_map ?_).mpr fun e => ?_
  · refine List.nodup_cons.mpr ⟨fun hmem => (mem_erase_iff.mp hmem).2 rfl, ?_⟩
    exact (m.erase key).nodup_keys.of_map
  · rw [List.mem_cons, mem_erase_iff]
    have hmem := get_eq_some_iff.mp h
    constructor
    · intro he
      by_cases hkey : e.1 = key
      · exact .inl (Table.eq_of_key m.nodup_keys he hmem hkey)
      · exact .inr ⟨he, hkey⟩
    · rintro (rfl | ⟨he, -⟩)
      · exact hmem
      · exact he

theorem erase_of_get (h : m.get key = none) : (m.erase key).entries = m.entries :=
  List.filter_eq_self.mpr fun e he => decide_eq_true (get_eq_none_iff.mp h e he)

/-! ## Storing a list of entries -/

section Fold

variable {E : Type} {f : E → Bytes} {g : E → V} {k : Bytes}

theorem get_foldl_put_of_forall_ne {es : List E} {m : TextMap V} (h : ∀ e ∈ es, f e ≠ k) :
    (es.foldl (fun m e => m.put (f e) (g e)) m).get k = m.get k := by
  induction es generalizing m with
  | nil => rfl
  | cons e es ih =>
      obtain ⟨he, hes⟩ := List.forall_mem_cons.mp h
      rw [List.foldl_cons, ih hes, get_put_of_ne he.symm]

theorem get_foldl_put_of_mem {es : List E} {m : TextMap V} {e : E} (he : e ∈ es) (hk : f e = k)
    (h : ∀ e' ∈ es, f e' = k → g e' = g e) :
    (es.foldl (fun m e => m.put (f e) (g e)) m).get k = some (g e) := by
  induction es using List.reverseRecOn with
  | nil => cases he
  | append_singleton es last ih =>
      rw [List.foldl_append, List.foldl_cons, List.foldl_nil]
      by_cases hlast : f last = k
      · rw [← h last (by simp) hlast, ← hlast, get_put_self]
      · rw [get_put_of_ne (Ne.symm hlast)]
        rcases List.mem_append.mp he with he | he
        · exact ih he fun e' he' => h e' (List.mem_append_left _ he')
        · rw [List.mem_singleton.mp he] at hk
          exact absurd hk hlast

end Fold

end TextMap

end Nekiro
