import Mathlib.Data.List.Basic
import Mathlib.Tactic.SplitIfs

/-!
# Slices over arrays

Go slices share the arrays under them: a slice is a window on an array, and
`append` writes into that array while the window has room to grow and moves
to a new array when it has not. A memory is the list of the arrays made so
far; none is ever freed.

What a program may rely on is here: the appended slice reads as it should
(`read_append`), every other array is as before (`cells_append`), and a
window that starts where the slice starts sees the one element written
(`read_append_of_shared`).

How much room a new array gets is up to the runtime: `grow` is any function
of the length needed.
-/

namespace Nekiro

structure Slice where
  array : Nat
  start : Nat
  len : Nat
  cap : Nat
deriving Repr, DecidableEq

namespace Slice

/-- The slice without an array. -/
def empty : Slice := ⟨0, 0, 0, 0⟩

/-- `s[:n]`. -/
def take (s : Slice) (n : Nat) : Slice := { s with len := n }

end Slice

/-- The arrays, by the number a slice has for them. -/
abbrev Memory (α : Type) := List (List α)

namespace Memory

variable {α : Type}

def cells (m : Memory α) (array : Nat) : List α := m[array]?.getD []

/-- The elements of a slice. -/
def read (m : Memory α) (s : Slice) : List α := ((m.cells s.array).drop s.start).take s.len

/-- `make([]T, 0, n)`. -/
def make (zero : α) (m : Memory α) (n : Nat) : Memory α × Slice :=
  (m ++ [List.replicate n zero], ⟨m.length, 0, 0, n⟩)

/-- The array with `xs` written from index `i` on. -/
def overwrite (array : List α) (i : Nat) (xs : List α) : List α :=
  array.take i ++ xs ++ array.drop (i + xs.length)

/-- `append(s, xs...)`. -/
def append (grow : Nat → Nat) (zero : α) (m : Memory α) (s : Slice) (xs : List α) :
    Memory α × Slice :=
  let len := s.len + xs.length
  if len ≤ s.cap then
    (m.set s.array (overwrite (m.cells s.array) (s.start + s.len) xs), { s with len := len })
  else
    (m ++ [m.read s ++ xs ++ List.replicate (grow len) zero], ⟨m.length, 0, len, len + grow len⟩)

/-- The window lies in its array. -/
structure Valid (m : Memory α) (s : Slice) : Prop where
  len : s.len ≤ s.cap
  cap : s.start + s.cap ≤ (m.cells s.array).length

theorem valid_empty (m : Memory α) : m.Valid .empty := ⟨Nat.le_refl _, Nat.zero_le _⟩

variable {m : Memory α} {s : Slice} {array : Nat} {xs : List α}

theorem Valid.length_read (h : m.Valid s) : (m.read s).length = s.len := by
  have hlen := h.len
  have hcap := h.cap
  rw [read, List.length_take, List.length_drop]
  omega

theorem Valid.take (h : m.Valid s) {n : Nat} (hn : n ≤ s.cap) :
    m.Valid (s.take n) := ⟨hn, h.cap⟩

theorem read_take {n : Nat} (hn : n ≤ s.len) : m.read (s.take n) = (m.read s).take n := by
  rw [read, read, List.take_take, Nat.min_eq_left hn]
  rfl

theorem read_empty (m : Memory α) : m.read .empty = [] := List.take_zero

theorem read_congr {m' : Memory α} (h : m'.cells s.array = m.cells s.array) :
    m'.read s = m.read s := by rw [read, read, h]

theorem Valid.congr {m' : Memory α} (h : m.Valid s) (hcells : m'.cells s.array = m.cells s.array) :
    m'.Valid s :=
  ⟨h.len, hcells ▸ h.cap⟩

/-! ## Arrays -/

theorem cells_eq_nil (h : m.length ≤ array) : m.cells array = [] := by
  rw [cells, List.getElem?_eq_none h]
  rfl

theorem cells_concat_of_lt (h : array < m.length) :
    Memory.cells (m ++ [xs]) array = m.cells array := by
  rw [cells, cells, List.getElem?_append_left h]

theorem cells_concat_length : Memory.cells (m ++ [xs]) m.length = xs := by
  rw [cells, List.getElem?_concat_length]
  rfl

theorem cells_set_self (h : array < m.length) : Memory.cells (m.set array xs) array = xs := by
  rw [cells, List.getElem?_set_self h]
  rfl

theorem cells_set_of_ne {other : Nat} (h : other ≠ array) :
    Memory.cells (m.set array xs) other = m.cells other := by
  rw [cells, cells, List.getElem?_set_ne h.symm]

/-- A new array changes no slice. -/
theorem Valid.read_concat (h : m.Valid s) : Memory.read (m ++ [xs]) s = m.read s := by
  by_cases harray : s.array < m.length
  · exact read_congr (cells_concat_of_lt harray)
  · -- there is no array, so the window is empty
    have hlen := h.len
    have hcap := h.cap
    rw [cells_eq_nil (Nat.le_of_not_lt harray), List.length_nil] at hcap
    have hzero : s.len = 0 := by omega
    rw [read, read, hzero, List.take_zero, List.take_zero]

theorem length_overwrite {array : List α} {i : Nat} (h : i + xs.length ≤ array.length) :
    (overwrite array i xs).length = array.length := by
  simp only [overwrite, List.length_append, List.length_take, List.length_drop]
  omega

/-! ## Appending -/

section Append

variable (grow : Nat → Nat) (zero : α) {m : Memory α} {s : Slice} {xs : List α}

theorem append_of_le (h : s.len + xs.length ≤ s.cap) :
    m.append grow zero s xs =
      (m.set s.array (overwrite (m.cells s.array) (s.start + s.len) xs),
        { s with len := s.len + xs.length }) := if_pos h

theorem append_of_lt (h : s.cap < s.len + xs.length) :
    m.append grow zero s xs =
      (m ++ [m.read s ++ xs ++ List.replicate (grow (s.len + xs.length)) zero],
        ⟨m.length, 0, s.len + xs.length, s.len + xs.length + grow (s.len + xs.length)⟩) :=
  if_neg (Nat.not_le.mpr h)

theorem length_le_append : m.length ≤ (m.append grow zero s xs).1.length := by
  unfold append
  dsimp only
  split_ifs
  · exact Nat.le_of_eq List.length_set.symm
  · simp

/-- An array that the slice is not on is as before. -/
theorem cells_append {array : Nat} (harray : array < m.length) (hne : array ≠ s.array) :
    (m.append grow zero s xs).1.cells array = m.cells array := by
  unfold append
  dsimp only
  split_ifs
  · exact cells_set_of_ne hne
  · exact cells_concat_of_lt harray

/-- The slice stays on its array or moves to a new one. -/
theorem array_append (m : Memory α) (s : Slice) (xs : List α) :
    (m.append grow zero s xs).2.array = s.array
      ∨ (m.append grow zero s xs).2.array = m.length
        ∧ m.length < (m.append grow zero s xs).1.length := by
  unfold append
  dsimp only
  split_ifs
  · exact .inl rfl
  · exact .inr ⟨rfl, by simp⟩

theorem valid_append (xs : List α) (h : m.Valid s) (harray : s.array < m.length) :
    (m.append grow zero s xs).1.Valid (m.append grow zero s xs).2 := by
  have hlen := h.len
  have hcap := h.cap
  by_cases hroom : s.len + xs.length ≤ s.cap
  · rw [append_of_le grow zero hroom]
    refine ⟨hroom, ?_⟩
    rw [cells_set_self harray, length_overwrite (by omega)]
    exact hcap
  · rw [append_of_lt grow zero (Nat.lt_of_not_le hroom)]
    refine ⟨Nat.le_add_right _ _, ?_⟩
    rw [cells_concat_length]
    simp only [List.length_append, h.length_read, List.length_replicate]
    omega

/-- What is read after an `append`. -/
theorem read_append (xs : List α) (h : m.Valid s) (harray : s.array < m.length) :
    (m.append grow zero s xs).1.read (m.append grow zero s xs).2 = m.read s ++ xs := by
  have hlen := h.len
  have hcap := h.cap
  by_cases hroom : s.len + xs.length ≤ s.cap
  · rw [append_of_le grow zero hroom]
    unfold read
    dsimp only
    rw [cells_set_self harray]
    unfold overwrite
    have htake : ((m.cells s.array).take (s.start + s.len)).length = s.start + s.len := by
      rw [List.length_take]
      omega
    have hdrop : (((m.cells s.array).take (s.start + s.len)).drop s.start).length = s.len := by
      rw [List.length_drop, htake, Nat.add_sub_cancel_left]
    have hblock : (((m.cells s.array).take (s.start + s.len)).drop s.start ++ xs).length =
        s.len + xs.length := by rw [List.length_append, hdrop]
    rw [List.append_assoc, List.drop_append_of_le_length (by omega), ← List.append_assoc,
      List.take_left' hblock, List.drop_take, Nat.add_sub_cancel_left]
  · rw [append_of_lt grow zero (Nat.lt_of_not_le hroom)]
    rw [read, cells_concat_length, List.drop_zero]
    exact List.take_left' (by rw [List.length_append, h.length_read])

/-- `append([]T(nil), xs...)` copies: no array is written to. -/
theorem cells_append_empty {array : Nat} (harray : array < m.length) :
    (m.append grow zero .empty xs).1.cells array = m.cells array := by
  cases xs with
  | nil =>
      have hroom : Slice.empty.len + ([] : List α).length ≤ Slice.empty.cap := Nat.le_refl 0
      rw [append_of_le grow zero hroom]
      by_cases hne : array = 0
      · subst hne
        rw [Slice.empty, cells_set_self harray]
        simp [overwrite]
      · exact cells_set_of_ne hne
  | cons x xs =>
      rw [append_of_lt grow zero (by simp [Slice.empty])]
      exact cells_concat_of_lt harray

theorem array_append_empty (hxs : xs ≠ []) :
    (m.append grow zero .empty xs).2.array = m.length
      ∧ m.length < (m.append grow zero .empty xs).1.length := by
  have hroom : Slice.empty.cap < Slice.empty.len + xs.length :=
    Nat.lt_of_lt_of_eq (List.length_pos_iff.mpr hxs) (Nat.zero_add _).symm
  rw [append_of_lt grow zero hroom]
  exact ⟨rfl, by simp⟩

/-- A longer window from the same start sees the element written in place. -/
theorem read_append_of_shared (x : α) {n : Nat} (h : m.Valid s) (harray : s.array < m.length)
    (hn : n ≤ s.cap) (hlt : s.len < n) :
    (m.append grow zero s [x]).1.read (s.take n) = (m.read (s.take n)).set s.len x := by
  have hcap := h.cap
  have hroom : s.len + [x].length ≤ s.cap := by
    rw [List.length_singleton]
    omega
  rw [append_of_le grow zero hroom]
  unfold read Slice.take
  dsimp only
  rw [cells_set_self harray]
  refine List.ext_getElem? fun i => ?_
  have hset : overwrite (m.cells s.array) (s.start + s.len) [x] =
      (m.cells s.array).set (s.start + s.len) x := by
    rw [overwrite, List.set_eq_take_append_cons_drop, if_pos (by omega), List.append_assoc]
    rfl
  rw [hset, List.drop_set, if_neg (by omega), Nat.add_sub_cancel_left, List.take_set]

end Append

end Memory

end Nekiro
