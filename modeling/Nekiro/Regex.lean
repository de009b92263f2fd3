import Mathlib.Data.Bool.Basic

/-!
# Regular expressions

The patterns of the schemas and of the database constraints are regular
expressions over character classes, always anchored at both ends.
`Regex` is their syntax, `accepts` decides a whole text by derivatives,
and the equations below are the ones the pattern lemmas need: how a
match of a sequence starting with a class, of an alternative and of a
bounded repetition of a class reduces. Nothing here refers to a
particular pattern.
-/

namespace Nekiro

inductive Regex where
  | none
  | empty
  | chars (cls : Char → Bool)
  | alt (r s : Regex)
  | seq (r s : Regex)
  | star (r : Regex)

namespace Regex

/-! ## Matching -/

def nullable : Regex → Bool
  | .none => false
  | .empty => true
  | .chars _ => false
  | .alt r s => r.nullable || s.nullable
  | .seq r s => r.nullable && s.nullable
  | .star _ => true

/-- An alternative, without a dead branch. -/
def mkAlt : Regex → Regex → Regex
  | .none, s => s
  | r, .none => r
  | r, s => .alt r s

/-- A sequence, without a dead or finished head. -/
def mkSeq : Regex → Regex → Regex
  | .none, _ => .none
  | .empty, s => s
  | r, s => .seq r s

/-- What is left to match after the character `c`. -/
def deriv (c : Char) : Regex → Regex
  | .none => .none
  | .empty => .none
  | .chars cls => if cls c then .empty else .none
  | .alt r s => mkAlt (r.deriv c) (s.deriv c)
  | .seq r s =>
      if r.nullable then mkAlt (mkSeq (r.deriv c) s) (s.deriv c) else mkSeq (r.deriv c) s
  | .star r => mkSeq (r.deriv c) (.star r)

def accepts : Regex → List Char → Bool
  | r, [] => r.nullable
  | r, c :: cs => (r.deriv c).accepts cs

/-- Match a whole text: the pattern between `^` and `$`. -/
def matchText (r : Regex) (text : String) : Bool := r.accepts text.toList

/-! ## Derived forms -/

def char (c : Char) : Regex := .chars (· == c)

def opt (r : Regex) : Regex := .alt .empty r

def plus (r : Regex) : Regex := .seq r (.star r)

/-- `r{0,n}`. -/
def upTo (r : Regex) : Nat → Regex
  | 0 => .empty
  | n + 1 => .alt .empty (.seq r (upTo r n))

/-- `r{n}`. -/
def exactly (r : Regex) : Nat → Regex
  | 0 => .empty
  | n + 1 => .seq r (exactly r n)

/-! ## Equations -/

@[simp] theorem accepts_none (cs : List Char) : accepts .none cs = false := by
  induction cs with
  | nil => rfl
  | cons c cs ih => exact ih

@[simp] theorem accepts_empty (cs : List Char) : accepts .empty cs = cs.isEmpty := by
  cases cs with
  | nil => rfl
  | cons c cs => exact accepts_none cs

@[simp] theorem accepts_alt (r s : Regex) (cs : List Char) :
    accepts (.alt r s) cs = (r.accepts cs || s.accepts cs) := by
  induction cs generalizing r s with
  | nil => rfl
  | cons c cs ih =>
      have hmk : ∀ r s : Regex, (mkAlt r s).accepts cs = (r.accepts cs || s.accepts cs) := by
        intro r s
        unfold mkAlt
        split
        · simp
        · simp
        · exact ih r s
      exact hmk (r.deriv c) (s.deriv c)

/-- A sequence that starts with a class consumes one character of it. -/
theorem accepts_seq_chars (cls : Char → Bool) (r : Regex) (cs : List Char) :
    accepts (.seq (.chars cls) r) cs
      = match cs with
        | [] => false
        | c :: cs => cls c && r.accepts cs := by
  cases cs with
  | nil => rfl
  | cons c cs =>
      by_cases hc : cls c = true
      · simp [accepts, deriv, nullable, mkSeq, hc]
      · simp [accepts, deriv, nullable, mkSeq, hc]

/-- A bounded repetition of a class bounds the length of the text. -/
theorem accepts_upTo_chars (cls : Char → Bool) (n : Nat) (cs : List Char) :
    accepts (upTo (.chars cls) n) cs = true ↔ cs.length ≤ n ∧ ∀ c ∈ cs, cls c = true := by
  induction n generalizing cs with
  | zero => cases cs <;> simp [upTo]
  | succ n ih =>
      cases cs with
      | nil => simp [upTo]
      | cons c cs => simp [upTo, accepts_seq_chars, ih]; grind

/-- A counted repetition of a class fixes the length of the text. -/
theorem accepts_exactly_chars (cls : Char → Bool) (n : Nat) (cs : List Char) :
    accepts (exactly (.chars cls) n) cs = true ↔ cs.length = n ∧ ∀ c ∈ cs, cls c = true := by
  induction n generalizing cs with
  | zero => cases cs <;> simp [exactly]
  | succ n ih =>
      cases cs with
      | nil => simp [exactly, accepts_seq_chars]
      | cons c cs => simp [exactly, accepts_seq_chars, ih]; grind

/-! ## The characters of a pattern -/

/-- The classes of the pattern have only characters with `P`. -/
def Over (P : Char → Prop) : Regex → Prop
  | .none => True
  | .empty => True
  | .chars cls => ∀ c, cls c = true → P c
  | .alt r s => r.Over P ∧ s.Over P
  | .seq r s => r.Over P ∧ s.Over P
  | .star r => r.Over P

variable {P : Char → Prop} {r : Regex}

theorem Over.mkAlt {s : Regex} (hr : r.Over P) (hs : s.Over P) : (r.mkAlt s).Over P := by
  unfold Regex.mkAlt
  split
  · exact hs
  · exact hr
  · exact ⟨hr, hs⟩

theorem Over.mkSeq {s : Regex} (hr : r.Over P) (hs : s.Over P) : (r.mkSeq s).Over P := by
  unfold Regex.mkSeq
  split
  · trivial
  · exact hs
  · exact ⟨hr, hs⟩

theorem Over.deriv (h : r.Over P) (c : Char) : (r.deriv c).Over P := by
  induction r with
  | none => trivial
  | empty => trivial
  | chars cls =>
      unfold Regex.deriv
      split_ifs <;> trivial
  | alt r s hr hs => exact (hr h.1).mkAlt (hs h.2)
  | seq r s hr hs =>
      unfold Regex.deriv
      split_ifs
      · exact ((hr h.1).mkSeq h.2).mkAlt (hs h.2)
      · exact (hr h.1).mkSeq h.2
  | star r hr => exact (hr h).mkSeq h

/-- A character that no class has ends every match. -/
theorem Over.deriv_eq_none (h : r.Over P) {c : Char} (hc : ¬P c) : r.deriv c = .none := by
  induction r with
  | none => rfl
  | empty => rfl
  | chars cls => exact if_neg fun hcls => hc (h c hcls)
  | alt r s hr hs =>
      rw [Regex.deriv, hr h.1, hs h.2]
      rfl
  | seq r s hr hs =>
      rw [Regex.deriv, hr h.1, hs h.2]
      split_ifs <;> rfl
  | star r hr =>
      rw [Regex.deriv, hr h]
      rfl

theorem Over.forall_of_accepts (h : r.Over P) {cs : List Char} (hcs : r.accepts cs = true) :
    ∀ c ∈ cs, P c := by
  induction cs generalizing r with
  | nil => exact fun c hc => absurd hc List.not_mem_nil
  | cons c cs ih =>
      have hc : P c := by
        by_contra hc
        rw [accepts, h.deriv_eq_none hc, accepts_none] at hcs
        cases hcs
      exact List.forall_mem_cons.mpr ⟨hc, ih (h.deriv c) hcs⟩

theorem Over.upTo (h : r.Over P) (n : Nat) : (r.upTo n).Over P := by
  induction n with
  | zero => trivial
  | succ n ih => exact ⟨trivial, h, ih⟩

end Regex

end Nekiro
