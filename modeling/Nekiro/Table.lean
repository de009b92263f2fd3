import Mathlib.Data.List.Nodup
import Mathlib.Data.List.Sort

/-!
# Tables with a key

A table is the list of its rows, and a key is a function of the row that
no two rows share. This module has what a store needs of one: the row a
key names, adding a row with a new key, updating the row of a key, and that
no row is lost (`Kept`); and of the queries over it: a left join, and an
order that leaves ties open. It names no program.
-/

namespace Nekiro

namespace Table

universe u

variable {ρ : Type u} {κ β : Type} {key : ρ → κ} {rows : List ρ}

/-- The key names the row. -/
theorem eq_of_key (h : (rows.map key).Nodup) {r r' : ρ} (hr : r ∈ rows) (hr' : r' ∈ rows)
    (hkey : key r = key r') : r = r' :=
  List.inj_on_of_nodup_map h hr hr' hkey

theorem nodup_concat (h : (rows.map key).Nodup) {row : ρ} (hfresh : ∀ r ∈ rows, key r ≠ key row) :
    ((rows ++ [row]).map key).Nodup := by
  rw [List.map_append, List.map_singleton, List.nodup_append]
  refine ⟨h, List.nodup_singleton _, ?_⟩
  rintro _ hr _ hrow rfl
  obtain ⟨r, hr, hkey⟩ := List.mem_map.mp hr
  exact hfresh r hr (hkey.trans (List.mem_singleton.mp hrow))

theorem forall_concat {P : ρ → Prop} {row : ρ} (h : ∀ r ∈ rows, P r) (hrow : P row) :
    ∀ r ∈ rows ++ [row], P r :=
  List.forall_mem_append.mpr ⟨h, List.forall_mem_singleton.mpr hrow⟩

/-- Every row is still there, as something that it may have become. -/
def Kept (R : ρ → ρ → Prop) (rows rows' : List ρ) : Prop := ∀ r ∈ rows, ∃ r' ∈ rows', R r r'

section Kept

variable {R : ρ → ρ → Prop}

theorem Kept.refl (h : ∀ r, R r r) (rows : List ρ) : Kept R rows rows := fun r hr => ⟨r, hr, h r⟩

theorem Kept.trans (h : ∀ r₁ r₂ r₃, R r₁ r₂ → R r₂ r₃ → R r₁ r₃) {rows₁ rows₂ rows₃ : List ρ}
    (h₁ : Kept R rows₁ rows₂) (h₂ : Kept R rows₂ rows₃) : Kept R rows₁ rows₃ := by
  intro r₁ hr₁
  obtain ⟨r₂, hr₂, h₁⟩ := h₁ r₁ hr₁
  obtain ⟨r₃, hr₃, h₂⟩ := h₂ r₂ hr₂
  exact ⟨r₃, hr₃, h r₁ r₂ r₃ h₁ h₂⟩

theorem Kept.append (h : ∀ r, R r r) (rows more : List ρ) : Kept R rows (rows ++ more) :=
  fun r hr => ⟨r, List.mem_append_left _ hr, h r⟩

theorem Kept.map {f : ρ → ρ} (h : ∀ r ∈ rows, R r (f r)) : Kept R rows (rows.map f) :=
  fun r hr => ⟨f r, List.mem_map_of_mem hr, h r hr⟩

end Kept

/-! ### Queries -/

section Queries

variable {α : Type}

/-- `LEFT JOIN`: a row without a match stands once, with nothing. -/
def leftJoin (on : ρ → α → Bool) (left : List ρ) (right : List α) : List (ρ × Option α) :=
  left.flatMap fun r =>
    if right.filter (on r) = [] then [(r, none)] else (right.filter (on r)).map fun a => (r, some a)

theorem mem_leftJoin {on : ρ → α → Bool} {left : List ρ} {right : List α} {r : ρ}
    {a : Option α} :
    (r, a) ∈ leftJoin on left right ↔
      r ∈ left ∧ (∀ b ∈ a, b ∈ right ∧ on r b = true)
        ∧ (a = none → ∀ b ∈ right, on r b = false) := by
  simp only [leftJoin, List.mem_flatMap]
  constructor
  · rintro ⟨r', hr', h⟩
    split_ifs at h with hnone
    · obtain ⟨rfl, rfl⟩ := Prod.mk.inj (List.mem_singleton.mp h)
      refine ⟨hr', by simp, fun _ b hb => ?_⟩
      simpa using List.filter_eq_nil_iff.mp hnone b hb
    · obtain ⟨b, hb, heq⟩ := List.mem_map.mp h
      cases heq
      rw [List.mem_filter] at hb
      exact ⟨hr', by simpa using hb, by simp⟩
  · rintro ⟨hr, hsome, hnone⟩
    refine ⟨r, hr, ?_⟩
    cases a with
    | none =>
        have hnil : right.filter (on r) = [] := by
          rw [List.filter_eq_nil_iff]
          intro b hb
          simp [hnone rfl b hb]
        rw [if_pos hnil]
        exact List.mem_singleton.mpr rfl
    | some b =>
        have hb : b ∈ right.filter (on r) := List.mem_filter.mpr (hsome b rfl)
        rw [if_neg (List.ne_nil_of_mem hb)]
        exact List.mem_map_of_mem hb

theorem exists_mem_leftJoin (on : ρ → α → Bool) {left : List ρ} (right : List α) {r : ρ}
    (hr : r ∈ left) : ∃ a, (r, a) ∈ leftJoin on left right := by
  by_cases h : ∃ b ∈ right, on r b = true
  · obtain ⟨b, hb, hon⟩ := h
    refine ⟨some b, mem_leftJoin.mpr ⟨hr, ?_, nofun⟩⟩
    rintro _ ⟨⟩
    exact ⟨hb, hon⟩
  · refine ⟨none, mem_leftJoin.mpr ⟨hr, nofun, fun _ b hb => ?_⟩⟩
    exact eq_false_of_ne_true fun hon => h ⟨b, hb, hon⟩

theorem nodup_leftJoin {on : ρ → α → Bool} {left : List ρ} {right : List α}
    (hleft : left.Nodup) (hright : right.Nodup) : (leftJoin on left right).Nodup := by
  rw [leftJoin, List.nodup_flatMap]
  refine ⟨fun r _ => ?_, hleft.imp fun {r r'} hne => ?_⟩
  · split_ifs
    · exact List.nodup_singleton _
    · exact (hright.filter _).map fun a b h => by simpa using h
  · -- rows of different left rows differ in the left row
    have hfst : ∀ r x, x ∈ (if right.filter (on r) = [] then [(r, none)]
        else (right.filter (on r)).map fun a => (r, some a)) → x.1 = r := by
      intro r x hx
      split_ifs at hx
      · rw [List.mem_singleton.mp hx]
      · obtain ⟨b, -, rfl⟩ := List.mem_map.mp hx
        rfl
    intro x hx hx'
    exact hne ((hfst r x hx).symm.trans (hfst r' x hx'))

variable [LinearOrder κ]

/-- `ORDER BY`: rows with the same key stand in any order. -/
structure OrderedBy (key : ρ → κ) (rows answer : List ρ) : Prop where
  perm : answer.Perm rows
  sorted : answer.Pairwise fun r s => key r ≤ key s

theorem orderedBy_insertionSort (key : ρ → κ) (rows : List ρ) :
    OrderedBy key rows (rows.insertionSort fun r s => key r ≤ key s) :=
  ⟨List.perm_insertionSort _ _, List.pairwise_insertionSort _ _⟩

/-- Rows that all others follow stand in front. -/
theorem eq_filter_append {p : ρ → Bool} {key : ρ → κ} :
    ∀ {answer : List ρ}, (answer.Pairwise fun r s => key r ≤ key s) →
      (∀ r ∈ answer, ∀ s ∈ answer, p r = true → p s = false → key r < key s) →
        answer = answer.filter p ++ answer.filter fun r => !p r
  | [], _, _ => rfl
  | r :: rest, hsorted, hfront => by
      obtain ⟨hhead, htail⟩ := List.pairwise_cons.mp hsorted
      have ih := eq_filter_append htail fun r hr s hs =>
        hfront r (List.mem_cons_of_mem _ hr) s (List.mem_cons_of_mem _ hs)
      cases hp : p r with
      | true =>
          rw [List.filter_cons_of_pos hp, List.filter_cons_of_neg (by simp [hp]), List.cons_append,
            ← ih]
      | false =>
          -- no row behind one that may be last is in front
          have hnone : rest.filter p = [] := by
            rw [List.filter_eq_nil_iff]
            intro s hs hps
            exact absurd (hhead s hs) (not_le.mpr
              (hfront s (List.mem_cons_of_mem _ hs) r List.mem_cons_self hps hp))
          rw [hnone, List.nil_append] at ih
          rw [List.filter_cons_of_neg (by simp [hp]), List.filter_cons_of_pos (by simp [hp]), hnone,
            List.nil_append, ← ih]

end Queries

variable [DecidableEq κ]

/-- The row of a key, as a query by that key finds it. -/
theorem find?_eq_some_iff (h : (rows.map key).Nodup) {k : κ} {r : ρ} :
    rows.find? (fun r => key r = k) = some r ↔ r ∈ rows ∧ key r = k := by
  constructor
  · intro hfind
    exact ⟨List.mem_of_find?_eq_some hfind, by simpa using List.find?_some hfind⟩
  · rintro ⟨hr, rfl⟩
    cases hfind : rows.find? (fun r' => key r' = key r) with
    | none => simpa using List.find?_eq_none.mp hfind r hr
    | some r' =>
        have hkey : key r' = key r := by simpa using List.find?_some hfind
        rw [eq_of_key h (List.mem_of_find?_eq_some hfind) hr hkey]

variable (key)

/-- `UPDATE … WHERE key = k`. -/
def update (k : κ) (f : ρ → ρ) (rows : List ρ) : List ρ :=
  rows.map fun r => if key r = k then f r else r

variable {key} {k : κ} {f : ρ → ρ}

theorem mem_update {r' : ρ} (h : r' ∈ update key k f rows) :
    r' ∈ rows ∨ ∃ r ∈ rows, key r = k ∧ r' = f r := by
  obtain ⟨r, hr, rfl⟩ := List.mem_map.mp h
  split_ifs with hkey
  · exact .inr ⟨r, hr, hkey, rfl⟩
  · exact .inl hr

theorem mem_update_of_eq {r : ρ} (hr : r ∈ rows) (hkey : key r = k) : f r ∈ update key k f rows :=
  List.mem_map.mpr ⟨r, hr, if_pos hkey⟩

theorem mem_update_of_ne {r : ρ} (hr : r ∈ rows) (hkey : key r ≠ k) : r ∈ update key k f rows :=
  List.mem_map.mpr ⟨r, hr, if_neg hkey⟩

theorem kept_update {R : ρ → ρ → Prop} (h : ∀ r, R r r) (hset : ∀ r ∈ rows, key r = k → R r (f r)) :
    Kept R rows (update key k f rows) := by
  refine Kept.map fun r hr => ?_
  split_ifs with hkey
  · exact hset r hr hkey
  · exact h r

/-- Columns that the update does not set. -/
theorem map_update (g : ρ → β) (h : ∀ r ∈ rows, key r = k → g (f r) = g r) :
    (update key k f rows).map g = rows.map g := by
  rw [update, List.map_map]
  refine List.map_congr_left fun r hr => ?_
  by_cases hkey : key r = k
  · rw [Function.comp_apply, if_pos hkey, h r hr hkey]
  · rw [Function.comp_apply, if_neg hkey]

end Table

end Nekiro
