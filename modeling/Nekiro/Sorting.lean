import Mathlib.Data.List.Lex
import Mathlib.Data.List.Sort
import Nekiro.Json

/-!
# Lists in the order of a key

Code that wants a canonical list sorts it by a key and refuses it if two
neighbours have the same one. `sortBy` and `adjacentTie` are the two steps,
and `adjacentTie_sortBy` says that together they refuse exactly the lists
in which a key stands twice, however the sort leaves ties. What is left is
in strict order (`InOrder`), and a list in strict order is told by its
members (`InOrder.ext`). It names no program.
-/

namespace Nekiro

universe u

/-- The bytes of a text, as texts are compared. -/
def byteKey (s : Json.Bytes) : List Nat := s.map UInt8.toNat

theorem byteKey_injective : Function.Injective byteKey :=
  List.map_injective_iff.mpr fun _ _ h => UInt8.toNat_inj.mp h

/-- A row that is told by a key is the only one of its kind. -/
theorem filter_eq_singleton {ρ : Type u} {β : Type} {f : ρ → β} {rows : List ρ}
    (hnodup : (rows.map f).Nodup) {p : ρ → Bool} {r : ρ} (hr : r ∈ rows) (hp : p r = true)
    (hsame : ∀ r' ∈ rows, p r' = true → f r' = f r) : rows.filter p = [r] := by
  have hmem : r ∈ rows.filter p := List.mem_filter.mpr ⟨hr, hp⟩
  have hall : ∀ r' ∈ rows.filter p, f r' = f r := fun r' hr' =>
    hsame r' (List.mem_filter.mp hr').1 (List.mem_filter.mp hr').2
  have hkept : ((rows.filter p).map f).Nodup := hnodup.sublist (List.filter_sublist.map f)
  match rows.filter p, hmem, hall, hkept with
  | [r'], hmem, _, _ => rw [List.mem_singleton.mp hmem]
  | r' :: r'' :: _, _, hall, hkept =>
      rw [List.map_cons, List.map_cons, hall r' (by simp), hall r'' (by simp)] at hkept
      simp at hkept

section Order

variable {ρ : Type u} {κ : Type} [LinearOrder κ] {key : ρ → κ}

/-- In strict order. -/
def InOrder (key : ρ → κ) (rows : List ρ) : Prop := rows.Pairwise fun r s => key r < key s

instance (rows : List ρ) : Decidable (InOrder key rows) :=
  inferInstanceAs (Decidable (rows.Pairwise _))

def sortBy (key : ρ → κ) (rows : List ρ) : List ρ := rows.insertionSort fun r s => key r ≤ key s

/-- Two neighbours have the same key. -/
def adjacentTie (key : ρ → κ) : List ρ → Bool
  | r :: s :: rest => decide (key r = key s) || adjacentTie key (s :: rest)
  | _ => false

theorem sortBy_perm (key : ρ → κ) (rows : List ρ) : (sortBy key rows).Perm rows :=
  List.perm_insertionSort _ _

variable {rows rows' : List ρ}

theorem mem_sortBy {r : ρ} : r ∈ sortBy key rows ↔ r ∈ rows :=
  (sortBy_perm key rows).mem_iff

theorem sortBy_sorted (key : ρ → κ) (rows : List ρ) :
    (sortBy key rows).Pairwise fun r s => key r ≤ key s :=
  List.pairwise_insertionSort _ _

theorem sortBy_eq_nil_iff : sortBy key rows = [] ↔ rows = [] := by
  constructor
  · intro h
    have hperm := sortBy_perm key rows
    rw [h] at hperm
    exact hperm.symm.eq_nil
  · rintro rfl
    rfl

theorem InOrder.nodup (h : InOrder key rows) : (rows.map key).Nodup := by
  rw [List.Nodup, List.pairwise_map]
  exact h.imp fun hlt => ne_of_lt hlt

theorem inOrder_of_nodup (hsorted : rows.Pairwise fun r s => key r ≤ key s)
    (h : (rows.map key).Nodup) : InOrder key rows := by
  rw [List.Nodup, List.pairwise_map] at h
  exact (hsorted.and h).imp fun hrs => lt_of_le_of_ne hrs.1 hrs.2

theorem inOrder_sortBy (h : (rows.map key).Nodup) : InOrder key (sortBy key rows) :=
  inOrder_of_nodup (sortBy_sorted key rows) (((sortBy_perm key rows).map key).nodup_iff.mpr h)

/-- A list in strict order is told by its members. -/
theorem InOrder.ext (h : InOrder key rows) (h' : InOrder key rows')
    (hmem : ∀ r, r ∈ rows ↔ r ∈ rows') : rows = rows' := by
  have hperm : rows.Perm rows' :=
    (List.perm_ext_iff_of_nodup h.nodup.of_map h'.nodup.of_map).mpr hmem
  exact List.Perm.eq_of_pairwise (fun _ _ _ _ hab hba => absurd hba (not_lt_of_gt hab)) h h' hperm

theorem sortBy_congr (h : rows.Perm rows') (hnodup : (rows.map key).Nodup) :
    sortBy key rows = sortBy key rows' := by
  have hnodup' := (h.map key).nodup_iff.mp hnodup
  refine (inOrder_sortBy hnodup).ext (inOrder_sortBy hnodup') fun r => ?_
  rw [mem_sortBy, mem_sortBy, h.mem_iff]

theorem sortBy_eq_self (h : InOrder key rows) : sortBy key rows = rows :=
  (inOrder_sortBy h.nodup).ext h fun _ => mem_sortBy

theorem InOrder.sublist (h : InOrder key rows) (hsub : rows'.Sublist rows) : InOrder key rows' :=
  List.Pairwise.sublist hsub h

theorem adjacentTie_eq_false_iff (h : rows.Pairwise fun r s => key r ≤ key s) :
    adjacentTie key rows = false ↔ (rows.map key).Nodup := by
  induction rows with
  | nil => simp [adjacentTie]
  | cons r rest ih =>
      cases rest with
      | nil => simp [adjacentTie]
      | cons s rest =>
          obtain ⟨hr, hrest⟩ := List.pairwise_cons.mp h
          rw [adjacentTie, Bool.or_eq_false_iff, decide_eq_false_iff_not, ih hrest]
          constructor
          · rintro ⟨hne, hnodup⟩
            refine List.nodup_cons.mpr ⟨fun hmem => ?_, hnodup⟩
            -- the next one is not before any that follows
            obtain ⟨t, ht, hkey⟩ := List.mem_map.mp hmem
            have hst : key s ≤ key t := by
              rcases List.mem_cons.mp ht with rfl | ht
              · exact le_rfl
              · exact (List.pairwise_cons.mp hrest).1 t ht
            exact hne (le_antisymm (hr s List.mem_cons_self) (hkey ▸ hst))
          · intro hnodup
            rw [List.map_cons, List.nodup_cons] at hnodup
            exact ⟨fun heq => hnodup.1 (heq ▸ List.mem_cons_self), hnodup.2⟩

theorem adjacentTie_sortBy : adjacentTie key (sortBy key rows) = false ↔ (rows.map key).Nodup := by
  rw [adjacentTie_eq_false_iff (sortBy_sorted key rows), ((sortBy_perm key rows).map key).nodup_iff]

end Order

end Nekiro
