import Nekiro.Guard

/-!
# Programs with a record

A program that talks to its surroundings, and the record of what was
said. The surroundings are a family of functions from the record so far
to an answer (`ask`), so quantifying over them is quantifying over every
behaviour they can show; nothing is said about them here.

`Lawful allowed` is the shape of a protocol over such records: every
entry is one that may follow the entries before it. The module names no
program.
-/

namespace Nekiro

/-- A program with entries of type `ι` and a result of type `α`. -/
def Logged (ι α : Type) : Type := List ι → α × List ι

namespace Logged

variable {ι α β : Type}

instance : Monad (Logged ι) where
  pure a := fun log => (a, log)
  bind x f := fun log => f (x log).1 (x log).2

@[simp] theorem pure_apply (a : α) (log : List ι) : (pure a : Logged ι α) log = (a, log) := rfl

@[simp] theorem bind_apply (x : Logged ι α) (f : α → Logged ι β) (log : List ι) :
    (x >>= f) log = f (x log).1 (x log).2 := rfl

theorem bind_bind {γ : Type} (x : Logged ι α) (f : α → Logged ι β) (g : β → Logged ι γ) :
    x >>= f >>= g = x >>= fun a => f a >>= g := rfl

@[simp] theorem ite_apply (c : Prop) [Decidable c] (x y : Logged ι α) (log : List ι) :
    (if c then x else y) log = if c then x log else y log := by
  split_ifs <;> rfl

/-- An answer of the surroundings, and its entry. -/
def ask (answer : List ι → α) (entry : α → ι) : Logged ι α :=
  fun log => (answer log, log ++ [entry (answer log)])

@[simp] theorem ask_apply (answer : List ι → α) (entry : α → ι) (log : List ι) :
    ask answer entry log = (answer log, log ++ [entry (answer log)]) := rfl

def say (x : ι) : Logged ι Unit := ask (fun _ => ()) fun _ => x

@[simp] theorem say_apply (x : ι) (log : List ι) : say x log = ((), log ++ [x]) := rfl

/-! ## Protocols -/

/-- Every entry may follow the entries before it. -/
def Lawful (allowed : List ι → ι → Prop) (log : List ι) : Prop :=
  ∀ pre x post, log = pre ++ x :: post → allowed pre x

theorem lawful_nil (allowed : List ι → ι → Prop) : Lawful allowed [] := by
  intro pre x post h
  simp at h

theorem lawful_concat {allowed : List ι → ι → Prop} {log : List ι} {x : ι} :
    Lawful allowed (log ++ [x]) ↔ Lawful allowed log ∧ allowed log x := by
  constructor
  · intro h
    refine ⟨fun pre y post hsplit => h pre y (post ++ [x]) ?_, h log x [] rfl⟩
    rw [hsplit, List.append_assoc, List.cons_append]
  · rintro ⟨hlog, hx⟩ pre y post hsplit
    rcases Transact.split_concat_iff.mp hsplit with ⟨-, rfl, rfl⟩ | ⟨post', -, hold⟩
    · exact hx
    · exact hlog pre y post' hold

end Logged

end Nekiro
