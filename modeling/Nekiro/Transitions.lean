import Mathlib.Data.List.Basic

/-!
# Runs of a transition system

A run is a sequence of moves, each with an event that tells of it. What
every move keeps, every run keeps (`Run.keeps`), also if it speaks of the
events so far (`Run.holds`). The module names no system.
-/

namespace Nekiro

/-- The system goes from the first state to the last with these events. -/
inductive Run {S E : Type} (move : S → E → S → Prop) : S → List E → S → Prop
  | nil (s : S) : Run move s [] s
  | snoc {s s₁ s₂ : S} {trace : List E} {e : E} :
      Run move s trace s₁ → move s₁ e s₂ → Run move s (trace ++ [e]) s₂

namespace Run

variable {S E : Type} {move : S → E → S → Prop}

theorem single {s s' : S} {e : E} (h : move s e s') : Run move s [e] s' := snoc (nil s) h

/-- A statement about the events and the state that every move keeps. -/
theorem holds (inv : List E → S → Prop)
    (hkeeps : ∀ trace s e s', inv trace s → move s e s' → inv (trace ++ [e]) s') {s s' : S}
    {trace : List E} (h : Run move s trace s') (hstart : inv [] s) : inv trace s' := by
  induction h with
  | nil => exact hstart
  | snoc _ hmove ih => exact hkeeps _ _ _ _ ih hmove

theorem keeps (inv : S → Prop) (hkeeps : ∀ s e s', inv s → move s e s' → inv s') {s s' : S}
    {trace : List E} (h : Run move s trace s') (hstart : inv s) : inv s' :=
  h.holds (fun _ => inv) (fun _ s e s' => hkeeps s e s') hstart

end Run

/-! ## Parties in a list -/

/-- A party that moves is put back in its place. -/
theorem exists_set_eq {α : Type} {l : List α} {i : Nat} {a : α} (h : l[i]? = some a) :
    ∃ l₁ l₂, l = l₁ ++ a :: l₂ ∧ ∀ b, l.set i b = l₁ ++ b :: l₂ := by
  obtain ⟨hi, rfl⟩ := List.getElem?_eq_some_iff.mp h
  refine ⟨l.take i, l.drop (i + 1), ?_, fun b => List.set_eq_take_append_cons_drop.trans ?_⟩
  · rw [List.getElem_cons_drop, List.take_append_drop]
  · rw [if_pos hi]

end Nekiro
