import Mathlib.Data.List.Sort
import Mathlib.Data.Prod.Lex
import Mathlib.Data.String.Basic

/-!
# Keyset pagination

A query returns the rows behind a position in the order of their keys,
one more than the page shows; the last row shown is the next position.
Rows may be written between two page reads, so a walk is over a list of
tables, one for each read. It names no program.

The three facts about a walk: what it returns is strictly in order
(`Walk.sorted`), it was in the table of its page (`Walk.mem`), and a walk
that ended has returned every key that was in all the tables it read
(`Walk.complete`). A walk whose keys come from a finite set has a bounded
number of pages (`Walk.length_le`).
-/

namespace Nekiro

namespace Keyset

variable {ρ κ : Type} [LinearOrder κ]

/-- Behind the position; no position is before everything. -/
def Beyond (after : Option κ) (k : κ) : Prop := ∀ a ∈ after, a < k

instance (after : Option κ) (k : κ) : Decidable (Beyond after k) :=
  match after with
  | none => .isTrue (by simp [Beyond])
  | some a => decidable_of_iff (a < k) (by simp [Beyond])

theorem beyond_none (k : κ) : Beyond none k := by simp [Beyond]

theorem beyond_some {a k : κ} : Beyond (some a) k ↔ a < k := by simp [Beyond]

/-- One page, and whether the query returned a row it does not show. -/
structure Page (ρ : Type) where
  items : List ρ
  hasMore : Bool
deriving Repr, DecidableEq

variable (key : ρ → κ)

/-- The rows behind the position, in order. -/
def rest (rows : List ρ) (after : Option κ) : List ρ :=
  (rows.filter fun r => Beyond after (key r)).insertionSort fun r s => key r ≤ key s

def page (rows : List ρ) (after : Option κ) (limit : Nat) : Page ρ :=
  let found := (rest key rows after).take (limit + 1)
  ⟨found.take limit, decide (limit < found.length)⟩

variable {key} {rows : List ρ} {after : Option κ} {limit : Nat} {r : ρ}

theorem mem_rest : r ∈ rest key rows after ↔ r ∈ rows ∧ Beyond after (key r) := by
  rw [rest, List.mem_insertionSort, List.mem_filter, decide_eq_true_iff]

theorem rest_sorted (h : (rows.map key).Nodup) :
    (rest key rows after).Pairwise fun r s => key r < key s := by
  have hperm := List.perm_insertionSort (fun r s => key r ≤ key s)
    (rows.filter fun r => Beyond after (key r))
  have hnodup : ((rest key rows after).map key).Nodup :=
    ((hperm.map key).nodup_iff).mpr (h.sublist (List.filter_sublist.map key))
  have hle : (rest key rows after).Pairwise fun r s => key r ≤ key s :=
    List.pairwise_insertionSort _ _
  rw [List.nodup_iff_pairwise_ne, List.pairwise_map] at hnodup
  exact hle.imp₂ (fun r s hle hne => lt_of_le_of_ne hle hne) hnodup

theorem page_items : (page key rows after limit).items = (rest key rows after).take limit := by
  simp [page, List.take_take]

theorem page_hasMore :
    (page key rows after limit).hasMore = true ↔ limit < (rest key rows after).length := by
  simp only [page, List.length_take, decide_eq_true_iff]
  omega

variable (key limit)

/-- The pages read one after the other from the tables `reads`, and
whether the last of them was the end. -/
inductive Walk : Option κ → List (List ρ) → List (List ρ) → Bool → Prop
  | stop (after : Option κ) : Walk after [] [] false
  | last {after : Option κ} {rows : List ρ} (reads : List (List ρ))
      (h : (page key rows after limit).hasMore = false) :
      Walk after (rows :: reads) [(page key rows after limit).items] true
  | next {after : Option κ} {rows : List ρ} {reads pages : List (List ρ)} {done : Bool} {r : ρ}
      (h : (page key rows after limit).hasMore = true)
      (hlast : (page key rows after limit).items.getLast? = some r)
      (hwalk : Walk (some (key r)) reads pages done) :
      Walk after (rows :: reads) ((page key rows after limit).items :: pages) done

variable {key limit} {reads pages : List (List ρ)} {done : Bool}

theorem mem_page (h : r ∈ (page key rows after limit).items) : r ∈ rows ∧ Beyond after (key r) := by
  rw [page_items] at h
  exact mem_rest.mp (List.mem_of_mem_take h)

/-- The rows of a page are up to the position it leaves. -/
theorem le_last {s : ρ} (h : (rows.map key).Nodup)
    (hlast : (page key rows after limit).items.getLast? = some s)
    (hr : r ∈ (page key rows after limit).items) : key r ≤ key s := by
  rw [page_items] at hlast hr
  have hsorted := (@rest_sorted _ _ _ key rows after h).sublist (List.take_sublist limit _)
  obtain ⟨before, heq⟩ := List.getLast?_eq_some_iff.mp hlast
  rw [heq] at hsorted hr
  rcases List.mem_append.mp hr with hr | hr
  · exact ((List.pairwise_append.mp hsorted).2.2 r hr s (by simp)).le
  · rw [List.mem_singleton.mp hr]

/-- The rows a page leaves are behind the position it leaves. -/
theorem last_lt {s : ρ} (h : (rows.map key).Nodup)
    (hlast : (page key rows after limit).items.getLast? = some s)
    (hr : r ∈ (rest key rows after).drop limit) : key s < key r := by
  rw [page_items] at hlast
  have hsorted := @rest_sorted _ _ _ key rows after h
  rw [← List.take_append_drop limit (rest key rows after)] at hsorted
  exact (List.pairwise_append.mp hsorted).2.2 s (List.mem_of_getLast? hlast) r hr

namespace Walk

section Walk

variable (h : Walk key limit after reads pages done)

include h

theorem mem (hr : r ∈ pages.flatten) :
    ∃ rows ∈ reads, r ∈ rows := by
  induction h with
  | stop => simp at hr
  | last reads _ =>
      rw [List.flatten_cons, List.flatten_nil, List.append_nil] at hr
      exact ⟨_, List.mem_cons_self, (mem_page hr).1⟩
  | next _ _ _ ih =>
      rw [List.flatten_cons] at hr
      rcases List.mem_append.mp hr with hr | hr
      · exact ⟨_, List.mem_cons_self, (mem_page hr).1⟩
      · obtain ⟨rows, hrows, hmem⟩ := ih hr
        exact ⟨rows, List.mem_cons_of_mem _ hrows, hmem⟩

theorem sorted (hreads : ∀ rows ∈ reads, (rows.map key).Nodup) :
    (pages.flatten.Pairwise fun r s => key r < key s) ∧
      ∀ r ∈ pages.flatten, Beyond after (key r) := by
  have hpage : ∀ {rows : List ρ} {after : Option κ}, (rows.map key).Nodup →
      (page key rows after limit).items.Pairwise fun r s => key r < key s := by
    intro rows after hrows
    rw [page_items]
    exact (rest_sorted hrows).sublist (List.take_sublist _ _)
  induction h with
  | stop => simp
  | @last after rows reads _ =>
      rw [List.flatten_cons, List.flatten_nil, List.append_nil]
      exact ⟨hpage (hreads rows List.mem_cons_self), fun r hr => (mem_page hr).2⟩
  | @next after rows reads pages done s _ hlast _ ih =>
      obtain ⟨hrows, hreads⟩ := List.forall_mem_cons.mp hreads
      obtain ⟨hsorted, hbeyond⟩ := ih hreads
      have hlater : ∀ r ∈ pages.flatten, key s < key r := fun r hr =>
        beyond_some.mp (hbeyond r hr)
      rw [List.flatten_cons]
      refine ⟨List.pairwise_append.mpr ⟨hpage hrows, hsorted, ?_⟩, ?_⟩
      · exact fun r hr t ht => (le_last hrows hlast hr).trans_lt (hlater t ht)
      · intro r hr
        rcases List.mem_append.mp hr with hr | hr
        · exact (mem_page hr).2
        · have hs := (mem_page (List.mem_of_getLast? hlast)).2
          exact fun a ha => (hs a ha).trans (hlater r hr)

/-- An ended walk has shown every key that all its tables had. -/
theorem complete (hdone : done = true) {k : κ} (hreads : ∀ rows ∈ reads, (rows.map key).Nodup)
    (hk : ∀ rows ∈ reads, k ∈ rows.map key) (hbeyond : Beyond after k) :
    k ∈ pages.flatten.map key := by
  induction h with
  | stop => exact absurd hdone (by simp)
  | @last after rows reads hmore =>
      obtain ⟨r, hr, rfl⟩ := List.mem_map.mp (hk rows List.mem_cons_self)
      have hlen : (rest key rows after).length ≤ limit := by
        rw [← not_lt, ← page_hasMore, hmore]
        simp
      rw [List.flatten_cons, List.flatten_nil, List.append_nil, page_items,
        List.take_of_length_le hlen]
      exact List.mem_map_of_mem (mem_rest.mpr ⟨hr, hbeyond⟩)
  | @next after rows reads pages done s _ hlast _ ih =>
      obtain ⟨hrows, hreads⟩ := List.forall_mem_cons.mp hreads
      obtain ⟨hkrows, hkreads⟩ := List.forall_mem_cons.mp hk
      obtain ⟨r, hr, rfl⟩ := List.mem_map.mp hkrows
      have hrest : r ∈ rest key rows after := mem_rest.mpr ⟨hr, hbeyond⟩
      rw [List.flatten_cons, List.map_append, List.mem_append]
      rw [← List.take_append_drop limit (rest key rows after)] at hrest
      rcases List.mem_append.mp hrest with hshown | hleft
      · rw [← page_items] at hshown
        exact .inl (List.mem_map_of_mem hshown)
      · exact .inr (ih hdone hreads hkreads (beyond_some.mpr (last_lt hrows hlast hleft)))

/-- Unless it ended, the walk has a page for every read. -/
theorem length_eq (hdone : done = false) :
    pages.length = reads.length := by
  induction h with
  | stop => rfl
  | last => exact absurd hdone (by simp)
  | next _ _ _ ih => rw [List.length_cons, List.length_cons, ih hdone]

theorem length_le_flatten :
    pages.length ≤ pages.flatten.length + 1 := by
  induction h with
  | stop => simp
  | last => simp
  | next _ hlast _ ih =>
      have hpos := List.length_pos_of_mem (List.mem_of_getLast? hlast)
      simp only [List.flatten_cons, List.length_cons, List.length_append]
      omega

theorem length_le (hreads : ∀ rows ∈ reads, (rows.map key).Nodup) {base : List κ}
    (hbase : ∀ rows ∈ reads, rows.map key ⊆ base) : pages.length ≤ base.length + 1 := by
  have hnodup : (pages.flatten.map key).Nodup := by
    rw [List.nodup_iff_pairwise_ne, List.pairwise_map]
    exact (h.sorted hreads).1.imp fun hlt => hlt.ne
  have hsubset : pages.flatten.map key ⊆ base := by
    intro k hk
    obtain ⟨r, hr, rfl⟩ := List.mem_map.mp hk
    obtain ⟨rows, hrows, hmem⟩ := h.mem hr
    exact hbase rows hrows (List.mem_map_of_mem hmem)
  have hle := (List.subperm_of_subset hnodup hsubset).length_le
  rw [List.length_map] at hle
  have := h.length_le_flatten
  omega

end Walk

end Walk

end Keyset

end Nekiro
