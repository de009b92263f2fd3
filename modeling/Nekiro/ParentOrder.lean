import Mathlib.Data.List.Basic
import Mathlib.Data.List.Perm.Basic
import Mathlib.Tactic.SplitIfs

/-!
# Ordering by parent

Records with a key and an optional parent key, independent of what they
record. A list is in *parent order* (`ParentsFirst`) when every parent
key belongs to an earlier element. `order` brings a list into parent
order by passes: each pass emits, in place, the elements whose parent
has been emitted and keeps the others for the next.

The theorem (`order_spec`) is that the passes succeed on every
rearrangement of a list in parent order, whatever order they start from.
The argument is `exists_ready`: above an element not yet emitted, one is
ready. Lists that can be
rearranged so are the ones in which every element has a root above it
(`ReachesRoot`, `order_isSome_iff`).
-/

namespace Nekiro

namespace ParentOrder

variable {α κ : Type} (key : α → κ) (parent : α → Option κ)

def ParentsFirst (l : List α) : Prop :=
  ∀ older a newer, l = older ++ a :: newer → ∀ k ∈ parent a, k ∈ older.map key

/-- The parent of `a`, if any, has been emitted. -/
def Ready (emitted : List κ) (a : α) : Prop := ∀ k ∈ parent a, k ∈ emitted

instance [DecidableEq κ] (emitted : List κ) (a : α) : Decidable (Ready parent emitted a) :=
  inferInstanceAs (Decidable (∀ k ∈ parent a, k ∈ emitted))

variable {key parent}

/-! ## Parent order -/

theorem parentsFirst_nil : ParentsFirst key parent [] := by
  intro older a newer h
  simp at h

variable {l all : List α} {a : α} {emitted : List κ}

theorem ParentsFirst.concat (hl : ParentsFirst key parent l) (ha : Ready parent (l.map key) a) :
    ParentsFirst key parent (l ++ [a]) := by
  intro older b newer h k hk
  rcases List.eq_nil_or_concat' newer with rfl | ⟨newer, c, rfl⟩
  · obtain ⟨rfl, hab⟩ := List.append_inj' h rfl
    rw [(List.cons.inj hab).1] at ha
    exact ha k hk
  · rw [← List.cons_append, ← List.append_assoc] at h
    exact hl older b newer (List.append_inj' h rfl).1 k hk

/-- A part that contains the parents of its elements is in parent order. -/
theorem ParentsFirst.filter (hl : ParentsFirst key parent l) (p : α → Bool)
    (hclosed : ∀ a ∈ l, ∀ b ∈ l, p a = true → parent a = some (key b) → p b = true) :
    ParentsFirst key parent (l.filter p) := by
  intro older a newer h k hk
  obtain ⟨l1, l2, rfl, h1, h2⟩ := List.filter_eq_append_iff.mp h
  obtain ⟨m1, m2, rfl, hm1, hpa, -⟩ := List.filter_eq_cons_iff.mp h2
  have hmem := hl (l1 ++ m1) a m2 (by simp) k hk
  obtain ⟨b, hb, rfl⟩ := List.mem_map.mp hmem
  have hpb : p b = true := by
    refine hclosed a (by simp) b ?_ hpa hk
    rw [← List.append_assoc]
    exact List.mem_append_left _ hb
  refine List.mem_map_of_mem ?_
  rw [← h1]
  rcases List.mem_append.mp hb with hb | hb
  · exact List.mem_filter.mpr ⟨hb, hpb⟩
  · exact absurd hpb (hm1 b hb)

theorem ParentsFirst.map {β : Type} {key' : β → κ} {parent' : β → Option κ} {f : α → β}
    (hl : ParentsFirst key parent l) (hkey : ∀ a ∈ l, key' (f a) = key a)
    (hparent : ∀ a ∈ l, parent' (f a) = parent a) : ParentsFirst key' parent' (l.map f) := by
  intro older b newer h k hk
  obtain ⟨l1, l2, rfl, rfl, h2⟩ := List.map_eq_append_iff.mp h
  obtain ⟨a, l3, rfl, rfl, rfl⟩ := List.map_eq_cons_iff.mp h2
  rw [hparent a (by simp)] at hk
  obtain ⟨c, hc, rfl⟩ := List.mem_map.mp (hl l1 a l3 rfl k hk)
  rw [← hkey c (List.mem_append_left _ hc), List.map_map]
  exact List.mem_map_of_mem (f := key' ∘ f) hc

/-- What roots have and children inherit, all elements have. -/
theorem ParentsFirst.induction (hl : ParentsFirst key parent l) {P : α → Prop}
    (hroot : ∀ a ∈ l, parent a = none → P a)
    (hchild : ∀ a ∈ l, ∀ b ∈ l, parent a = some (key b) → P b → P a) : ∀ a ∈ l, P a := by
  -- every element of every initial part, by induction on the part
  have hinit : ∀ n older newer, older.length = n → l = older ++ newer → ∀ a ∈ older, P a := by
    intro n
    induction n with
    | zero =>
        intro older newer hn _ a ha
        rw [List.eq_nil_of_length_eq_zero hn] at ha
        exact absurd ha List.not_mem_nil
    | succ n ih =>
        intro older newer hn hsplit a ha
        rcases List.eq_nil_or_concat' older with rfl | ⟨older, c, rfl⟩
        · exact absurd ha List.not_mem_nil
        · have hlen : older.length = n := by simpa using hn
          have hsplit' : l = older ++ c :: newer := by simpa using hsplit
          have hold := ih older (c :: newer) hlen hsplit'
          rcases List.mem_append.mp ha with ha | ha
          · exact hold a ha
          · obtain rfl := List.mem_singleton.mp ha
            have hmem : a ∈ l := by rw [hsplit']; simp
            cases hp : parent a with
            | none => exact hroot a hmem hp
            | some k =>
                obtain ⟨b, hb, rfl⟩ := List.mem_map.mp (hl older a newer hsplit' k hp)
                have hbl : b ∈ l := by rw [hsplit']; exact List.mem_append_left _ hb
                exact hchild a hmem b hbl hp (hold b hb)
  exact fun a ha => hinit l.length l [] rfl (by simp) a ha

/-- Parents lead from the element to one without a parent, inside the list. -/
inductive ReachesRoot (key : α → κ) (parent : α → Option κ) (l : List α) : α → Prop
  | root {a : α} (ha : a ∈ l) (h : parent a = none) : ReachesRoot key parent l a
  | child {a b : α} (ha : a ∈ l) (h : parent a = some (key b)) (hb : ReachesRoot key parent l b) :
      ReachesRoot key parent l a

theorem ReachesRoot.mem (h : ReachesRoot key parent l a) : a ∈ l := by
  cases h <;> assumption

theorem ReachesRoot.of_subset {l' : List α} (hsub : ∀ a ∈ l, a ∈ l')
    (h : ReachesRoot key parent l a) : ReachesRoot key parent l' a := by
  induction h with
  | root ha h => exact .root (hsub _ ha) h
  | child ha h _ ih => exact .child (hsub _ ha) h ih

theorem ParentsFirst.reachesRoot (hl : ParentsFirst key parent l) :
    ∀ a ∈ l, ReachesRoot key parent l a :=
  hl.induction (fun _ ha h => .root ha h) fun _ ha _ _ h hb => .child ha h hb

/-- Above an element not emitted, one is ready. -/
theorem ReachesRoot.exists_ready {rest : List α} (h : ReachesRoot key parent all a) (ha : a ∈ rest)
    (hcover : ∀ a ∈ all, a ∈ rest ∨ key a ∈ emitted) : ∃ a ∈ rest, Ready parent emitted a := by
  induction h with
  | @root a _ h =>
      refine ⟨a, ha, fun k hk => ?_⟩
      rw [h] at hk
      cases hk
  | @child a b _ h hb ih =>
      rcases hcover b hb.mem with hrest | hemitted
      · exact ih hrest
      · refine ⟨a, ha, fun k hk => ?_⟩
        rw [h] at hk
        cases hk
        exact hemitted

/-- Of the elements not emitted, one is ready. -/
theorem exists_ready {rest : List α} (hall : ∀ a ∈ all, ReachesRoot key parent all a)
    (hsub : ∀ a ∈ rest, a ∈ all) (hne : rest ≠ [])
    (hcover : ∀ a ∈ all, a ∈ rest ∨ key a ∈ emitted) :
    ∃ a ∈ rest, Ready parent emitted a := by
  obtain ⟨r, hr⟩ := List.exists_mem_of_ne_nil rest hne
  exact (hall r (hsub r hr)).exists_ready hr hcover

/-! ## The passes -/

variable (key parent) [DecidableEq κ]

/-- A pass in progress. -/
structure Pass (α κ : Type) where
  ordered : List α
  emitted : List κ
  next : List α
  progress : Bool

def visit (st : Pass α κ) (a : α) : Pass α κ :=
  if Ready parent st.emitted a then
    { st with ordered := st.ordered ++ [a], emitted := key a :: st.emitted, progress := true }
  else { st with next := st.next ++ [a] }

def pass (remaining ordered : List α) (emitted : List κ) : Pass α κ :=
  remaining.foldl (visit key parent) ⟨ordered, emitted, [], false⟩

/-- Passes until nothing remains; `none` when one makes no progress. -/
def order : Nat → List α → List α → List κ → Option (List α)
  | _, [], ordered, _ => some ordered
  | 0, _ :: _, _, _ => none
  | fuel + 1, a :: remaining, ordered, emitted =>
      let st := pass key parent (a :: remaining) ordered emitted
      if st.progress then order fuel st.next st.ordered st.emitted else none

/-- What holds in the middle of a pass over `all` that began with the
elements `ordered0` emitted. -/
structure Pass.Ok (all ordered0 unread : List α) (st : Pass α κ) : Prop where
  perm : (st.ordered ++ (st.next ++ unread)).Perm all
  ordered : ParentsFirst key parent st.ordered
  emitted : ∀ k, k ∈ st.emitted ↔ k ∈ st.ordered.map key
  progress : st.progress = true → ordered0.length < st.ordered.length
  grows : ordered0.length ≤ st.ordered.length

variable {key parent} {st : Pass α κ}

theorem visit_ok {ordered0 unread : List α} (h : Pass.Ok key parent all ordered0 (a :: unread) st) :
    Pass.Ok key parent all ordered0 unread (visit key parent st a) := by
  unfold visit
  split_ifs with hready
  · have hready' : Ready parent (st.ordered.map key) a :=
      fun k hk => (h.emitted k).mp (hready k hk)
    refine ⟨?_, h.ordered.concat hready', ?_, fun _ => ?_, ?_⟩
    · refine List.Perm.trans ?_ h.perm
      rw [List.append_assoc]
      have hmiddle : (a :: (st.next ++ unread)).Perm (st.next ++ a :: unread) :=
        List.perm_middle.symm
      exact hmiddle.append_left _
    · intro k
      rw [List.mem_cons, h.emitted k, List.map_append, List.mem_append, or_comm]
      simp
    · have := h.grows
      simp only [List.length_append, List.length_singleton]
      omega
    · have := h.grows
      simp only [List.length_append, List.length_singleton]
      omega
  · refine ⟨?_, h.ordered, h.emitted, h.progress, h.grows⟩
    simpa using h.perm

theorem foldl_visit_ok {ordered0 : List α} (unread : List α)
    (h : Pass.Ok key parent all ordered0 unread st) :
    Pass.Ok key parent all ordered0 []
      (unread.foldl (visit key parent) st) := by
  induction unread generalizing st with
  | nil => exact h
  | cons a unread ih => exact ih (visit_ok h)

theorem progress_mono (unread : List α) (h : st.progress = true) :
    (unread.foldl (visit key parent) st).progress = true := by
  induction unread generalizing st with
  | nil => exact h
  | cons a unread ih =>
      refine ih ?_
      unfold visit
      split_ifs
      · rfl
      · exact h

/-- A pass that meets an element ready from the start makes progress. -/
theorem foldl_visit_progress (unread : List α) (h : ∃ a ∈ unread, Ready parent st.emitted a) :
    (unread.foldl (visit key parent) st).progress = true := by
  obtain ⟨a, ha, hready⟩ := h
  induction unread generalizing st with
  | nil => exact absurd ha List.not_mem_nil
  | cons b unread ih =>
      by_cases hb : Ready parent st.emitted b
      · refine progress_mono unread ?_
        unfold visit
        rw [if_pos hb]
      · have hskip : visit key parent st b = { st with next := st.next ++ [b] } := if_neg hb
        rcases List.mem_cons.mp ha with rfl | ha
        · exact absurd hready hb
        · rw [List.foldl_cons, hskip]
          exact ih ha hready

theorem pass_ok {remaining ordered : List α} (hperm : (ordered ++ remaining).Perm all)
    (hord : ParentsFirst key parent ordered) (hem : ∀ k, k ∈ emitted ↔ k ∈ ordered.map key) :
    Pass.Ok key parent all ordered [] (pass key parent remaining ordered emitted) :=
  foldl_visit_ok remaining ⟨by simpa using hperm, hord, hem, nofun, Nat.le_refl _⟩

/-- A pass with progress leaves fewer elements. -/
theorem length_next_lt {remaining ordered : List α} (hord : ParentsFirst key parent ordered)
    (hem : ∀ k, k ∈ emitted ↔ k ∈ ordered.map key)
    (hprog : (pass key parent remaining ordered emitted).progress = true) :
    (pass key parent remaining ordered emitted).next.length < remaining.length := by
  have hok := pass_ok (List.Perm.refl (ordered ++ remaining)) hord hem
  have hlen := hok.perm.length_eq
  have hlt := hok.progress hprog
  simp only [List.length_append, List.append_nil] at hlen
  omega

/-- What a pass emits and what it keeps are in the order of its input. -/
theorem foldl_visit_sublist (key : α → κ) (parent : α → Option κ) (unread : List α)
    (st : Pass α κ) :
    ∃ block kept, (unread.foldl (visit key parent) st).ordered = st.ordered ++ block
      ∧ (unread.foldl (visit key parent) st).next = st.next ++ kept
      ∧ block.Sublist unread ∧ kept.Sublist unread := by
  induction unread generalizing st with
  | nil => exact ⟨[], [], by simp, by simp, .slnil, .slnil⟩
  | cons a unread ih =>
      obtain ⟨block, kept, hblock, hkept, hbsub, hksub⟩ := ih (visit key parent st a)
      rw [List.foldl_cons, hblock, hkept]
      unfold visit
      split_ifs
      · exact ⟨a :: block, kept, by simp, rfl, hbsub.cons_cons a, hksub.cons a⟩
      · exact ⟨block, a :: kept, rfl, by simp, hbsub.cons a, hksub.cons_cons a⟩

/-- **Correctness of the passes**, for elements with a root above them. -/
theorem order_of_reachesRoot (hall : ∀ a ∈ all, ReachesRoot key parent all a) :
    ∀ (fuel : Nat) (remaining ordered : List α) (emitted : List κ), remaining.length ≤ fuel →
      (ordered ++ remaining).Perm all → ParentsFirst key parent ordered →
      (∀ k, k ∈ emitted ↔ k ∈ ordered.map key) →
      ∃ out, order key parent fuel remaining ordered emitted = some out ∧ out.Perm all
        ∧ ParentsFirst key parent out
  | fuel, [], ordered, emitted, _, hperm, hord, _ => by
      refine ⟨ordered, by cases fuel <;> rfl, ?_, hord⟩
      simpa using hperm
  | fuel + 1, a :: rest, ordered, emitted, hfuel, hperm, hord, hem => by
      have hready : ∃ b ∈ a :: rest, Ready parent emitted b := by
        refine exists_ready hall (fun b hb => hperm.mem_iff.mp (List.mem_append_right _ hb))
          (List.cons_ne_nil _ _) fun b hb => ?_
        rcases List.mem_append.mp (hperm.mem_iff.mpr hb) with hb | hb
        · exact .inr ((hem _).mpr (List.mem_map_of_mem hb))
        · exact .inl hb
      have hprog : (pass key parent (a :: rest) ordered emitted).progress = true :=
        foldl_visit_progress (a :: rest) hready
      have hok := pass_ok hperm hord hem
      have hlt := length_next_lt hord hem hprog
      have hshrink : (pass key parent (a :: rest) ordered emitted).next.length ≤ fuel :=
        Nat.le_of_lt_succ (Nat.lt_of_lt_of_le hlt hfuel)
      obtain ⟨out, hout, hrest⟩ := order_of_reachesRoot hall fuel _ _ _ hshrink
        (by simpa using hok.perm) hok.ordered hok.emitted
      refine ⟨out, ?_, hrest⟩
      rw [order, if_pos hprog]
      exact hout

/-- **Correctness of the passes.** -/
theorem order_spec (hall : ParentsFirst key parent all) :
    ∀ (fuel : Nat) (remaining ordered : List α) (emitted : List κ), remaining.length ≤ fuel →
      (ordered ++ remaining).Perm all → ParentsFirst key parent ordered →
      (∀ k, k ∈ emitted ↔ k ∈ ordered.map key) →
      ∃ out, order key parent fuel remaining ordered emitted = some out ∧ out.Perm all
        ∧ ParentsFirst key parent out :=
  order_of_reachesRoot hall.reachesRoot

/-- What the passes return is the input in parent order. -/
theorem order_sound : ∀ (fuel : Nat) (remaining ordered : List α) (emitted : List κ)
    {all out : List α}, order key parent fuel remaining ordered emitted = some out →
      (ordered ++ remaining).Perm all → ParentsFirst key parent ordered →
      (∀ k, k ∈ emitted ↔ k ∈ ordered.map key) → out.Perm all ∧ ParentsFirst key parent out
  | fuel, [], ordered, emitted, all, out, h, hperm, hord, _ => by
      have hout : order key parent fuel [] ordered emitted = some ordered := by cases fuel <;> rfl
      obtain rfl := Option.some.inj (hout.symm.trans h)
      exact ⟨by simpa using hperm, hord⟩
  | fuel + 1, a :: rest, ordered, emitted, all, out, h, hperm, hord, hem => by
      rw [order] at h
      split_ifs at h with hprog
      have hok := pass_ok hperm hord hem
      exact order_sound fuel _ _ _ h (by simpa using hok.perm) hok.ordered hok.emitted

/-- The passes succeed when every element has a root above it. -/
theorem order_isSome_iff :
    (order key parent l.length l [] []).isSome = true ↔ ∀ a ∈ l, ReachesRoot key parent l a := by
  constructor
  · intro h a ha
    obtain ⟨out, hout⟩ := Option.isSome_iff_exists.mp h
    obtain ⟨hperm, hparents⟩ := order_sound _ _ _ _ hout (.refl l) parentsFirst_nil (by simp)
    exact (hparents.reachesRoot a (hperm.mem_iff.mpr ha)).of_subset fun b hb => hperm.mem_iff.mp hb
  · intro h
    obtain ⟨out, hout, -⟩ := order_of_reachesRoot h l.length l [] [] (Nat.le_refl _) (.refl l)
      parentsFirst_nil (by simp)
    rw [hout]
    rfl

end ParentOrder

end Nekiro
