import Nekiro.Guard

/-!
# Programs that run side by side

A program is a tree of queries: it asks one, waits for the answer and goes
on. The answers come from a shared state, which a query may change, and
from surroundings about which nothing is assumed (`respond`). A pool is the
shared state with the programs that were started on it; a move starts one
or answers the query of one, so a run is any interleaving.

`Sat` is the rule of rely and guarantee for such programs. A program is
looked at alone: between two of its queries the state may move as `rely`
allows, and each of its own queries must do what `guarantee` says, which
may speak of what the program has asked before. If what is guaranteed is
within what is relied on, every query of every run does what was
guaranteed (`Pool.run_sat`, `Pool.answer_guarantee`). The module names no
program.
-/

namespace Nekiro

inductive Program (Q : Type) (A : Q → Type) (ρ : Type) where
  | done (result : ρ)
  | ask (query : Q) (next : A query → Program Q A ρ)

namespace Program

variable {Q : Type} {A : Q → Type} {ρ σ ε α β : Type}

def bind : Program Q A ρ → (ρ → Program Q A σ) → Program Q A σ
  | done r, f => f r
  | ask q next, f => ask q fun a => (next a).bind f

instance : Monad (Program Q A) where
  pure := done
  bind := bind

/-- The queries made so far, with their answers. -/
abbrev Trace (A : Q → Type) : Type := List ((q : Q) × A q)

/-! ## One program -/

section Sat

variable {S E : Type} (respond : (q : Q) → E → S → Option (A q × S)) (inv : S → Prop)
  (rely : S → S → Prop) (guarantee : Trace A → (q : Q) → S → A q → S → Prop)

/-- Each query of the program does what is guaranteed, and what it returns
is as `post` says. -/
def Sat (post : ρ → Trace A → S → Prop) : Program Q A ρ → Trace A → S → Prop
  | done r, trace, s => post r trace s
  | ask q next, trace, s => ∀ s₁, rely s s₁ → inv s₁ → ∀ e a s₂, respond q e s₁ = some (a, s₂) →
      guarantee trace q s₁ a s₂ ∧ Sat post (next a) (trace ++ [⟨q, a⟩]) s₂

variable {respond inv rely guarantee}

theorem sat_bind {post : σ → Trace A → S → Prop} {f : ρ → Program Q A σ} :
    ∀ {p : Program Q A ρ} {trace : Trace A} {s : S},
      Sat respond inv rely guarantee post (p.bind f) trace s ↔
        Sat respond inv rely guarantee
          (fun r trace s => Sat respond inv rely guarantee post (f r) trace s) p trace s
  | done r, trace, s => Iff.rfl
  | ask q next, trace, s => by
      simp only [bind, Sat, sat_bind]

/-- Others may move before the next query. -/
theorem Sat.moved (htrans : ∀ s₁ s₂ s₃, rely s₁ s₂ → rely s₂ s₃ → rely s₁ s₃)
    {post : ρ → Trace A → S → Prop} {q : Q} {next : A q → Program Q A ρ} {trace : Trace A}
    {s s' : S} (h : Sat respond inv rely guarantee post (ask q next) trace s) (hrely : rely s s') :
    Sat respond inv rely guarantee post (ask q next) trace s' :=
  fun s₁ hrely₁ => h s₁ (htrans _ _ _ hrely hrely₁)

end Sat

end Program

/-! ## Programs that fail -/

/-- A program that returns or fails with an error. -/
abbrev Fallible (Q : Type) (A : Q → Type) (ε α : Type) : Type := ExceptT ε (Program Q A) α

namespace Fallible

variable {Q : Type} {A : Q → Type} {ε α β : Type}

def ask (q : Q) : Fallible Q A ε (A q) := ExceptT.mk (.ask q fun a => .done (.ok a))

/-- A query whose answer may be an error, which is then the program's. -/
def call (q : Q) (outcome : A q → Except ε α) : Fallible Q A ε α :=
  ExceptT.mk (.ask q fun a => .done (outcome a))

/-- `if !p { return err }`. -/
def require (p : Prop) [Decidable p] (err : ε) : Fallible Q A ε Unit :=
  ExceptT.mk (.done (if p then .ok () else .error err))

section Sat

variable {S E : Type} {respond : (q : Q) → E → S → Option (A q × S)} {inv : S → Prop}
  {rely : S → S → Prop} {guarantee : Program.Trace A → (q : Q) → S → A q → S → Prop}
  {post : Except ε β → Program.Trace A → S → Prop} {trace : Program.Trace A} {s : S}

/-- After a step of the program comes the next one, or its error. -/
theorem sat_bind {x : Fallible Q A ε α} {f : α → Fallible Q A ε β} :
    Program.Sat respond inv rely guarantee post (x >>= f).run trace s ↔
      Program.Sat respond inv rely guarantee
        (fun r trace s => match r with
          | .ok a => Program.Sat respond inv rely guarantee post (f a).run trace s
          | .error e => post (.error e) trace s) x.run trace s := by
  have hrun : (x >>= f).run = x.run.bind fun r => match r with
      | .ok a => (f a).run
      | .error e => .done (.error e) := by
    refine congrArg (Program.bind x.run) (funext fun r => ?_)
    cases r <;> rfl
  rw [hrun, Program.sat_bind]
  refine iff_of_eq (congrArg (fun post =>
    Program.Sat respond inv rely guarantee post x.run trace s) ?_)
  funext r trace s
  cases r <;> rfl

theorem sat_require {p : Prop} [Decidable p] {err : ε} {f : Unit → Fallible Q A ε β}
    (herr : ¬p → post (.error err) trace s)
    (h : p → Program.Sat respond inv rely guarantee post (f ()).run trace s) :
    Program.Sat respond inv rely guarantee post (require p err >>= f).run trace s := by
  rw [sat_bind]
  by_cases hp : p
  · simpa [require, hp, Program.Sat] using h hp
  · simpa [require, hp, Program.Sat] using herr hp

/-- A check at the end of a program. -/
theorem sat_require_last {post : Except ε Unit → Program.Trace A → S → Prop} {p : Prop}
    [Decidable p] {err : ε} (herr : ¬p → post (.error err) trace s)
      (h : p → post (.ok ()) trace s) :
    Program.Sat respond inv rely guarantee post (require p err).run trace s := by
  by_cases hp : p
  · simpa [require, hp, Program.Sat] using h hp
  · simpa [require, hp, Program.Sat] using herr hp

theorem sat_call {q : Q} {outcome : A q → Except ε α} {f : α → Fallible Q A ε β}
    (h : ∀ s₁, rely s s₁ → inv s₁ → ∀ e a s₂, respond q e s₁ = some (a, s₂) →
      guarantee trace q s₁ a s₂
        ∧ match outcome a with
          | .ok b => Program.Sat respond inv rely guarantee post (f b).run (trace ++ [⟨q, a⟩]) s₂
          | .error err => post (.error err) (trace ++ [⟨q, a⟩]) s₂) :
    Program.Sat respond inv rely guarantee post (call q outcome >>= f).run trace s := by
  rw [sat_bind]
  intro s₁ hrely hinv e a s₂ hrespond
  refine ⟨(h s₁ hrely hinv e a s₂ hrespond).1, ?_⟩
  have hnext := (h s₁ hrely hinv e a s₂ hrespond).2
  unfold Program.Sat
  exact hnext

theorem sat_ask {q : Q} {f : A q → Fallible Q A ε β}
    (h : ∀ s₁, rely s s₁ → inv s₁ → ∀ e a s₂, respond q e s₁ = some (a, s₂) →
      guarantee trace q s₁ a s₂
        ∧ Program.Sat respond inv rely guarantee post (f a).run (trace ++ [⟨q, a⟩]) s₂) :
    Program.Sat respond inv rely guarantee post (ask q >>= f).run trace s := by
  rw [sat_bind]
  exact h

end Sat

end Fallible

/-! ## Many programs -/

/-- A program that was started for the call `op`. -/
structure Thread (Q : Type) (A : Q → Type) (ρ Ω : Type) where
  op : Ω
  trace : Program.Trace A
  rest : Program Q A ρ

structure Pool (Q : Type) (A : Q → Type) (ρ Ω S : Type) where
  state : S
  threads : List (Thread Q A ρ Ω)

inductive Move (Ω E : Type) where
  | start (op : Ω)
  | answer (thread : Nat) (surroundings : E)

namespace Pool

variable {Q : Type} {A : Q → Type} {ρ Ω S E : Type}
  (respond : (q : Q) → E → S → Option (A q × S)) (program : Ω → Program Q A ρ)

def move (p : Pool Q A ρ Ω S) : Move Ω E → Option (Pool Q A ρ Ω S)
  | .start op => some { p with threads := p.threads ++ [⟨op, [], program op⟩] }
  | .answer i e =>
      match p.threads[i]? with
      | some ⟨op, trace, .ask q next⟩ =>
          (respond q e p.state).map fun (a, s) =>
            ⟨s, p.threads.set i ⟨op, trace ++ [⟨q, a⟩], next a⟩⟩
      | _ => none

def run (p : Pool Q A ρ Ω S) (moves : List (Move Ω E)) : Option (Pool Q A ρ Ω S) :=
  moves.foldlM (fun p m => p.move respond program m) p

variable {respond program}

/-- What a move can be: a new thread, or the answer to a query. -/
theorem move_cases {p p' : Pool Q A ρ Ω S} {m : Move Ω E}
    (h : p.move respond program m = some p') :
    (∃ op, m = .start op ∧ p'.state = p.state
        ∧ p'.threads = p.threads ++ [⟨op, [], program op⟩])
      ∨ ∃ i e op trace q next a, m = .answer i e ∧ p.threads[i]? = some ⟨op, trace, .ask q next⟩
        ∧ respond q e p.state = some (a, p'.state)
        ∧ p'.threads = p.threads.set i ⟨op, trace ++ [⟨q, a⟩], next a⟩ := by
  cases m with
  | start op =>
      cases h
      exact .inl ⟨op, rfl, rfl, rfl⟩
  | answer i e =>
      simp only [move] at h
      split at h
      · rename_i op trace q next hthread
        obtain ⟨⟨a, s⟩, hrespond, rfl⟩ := Option.map_eq_some_iff.mp h
        exact .inr ⟨i, e, op, trace, q, next, a, rfl, hthread, hrespond, rfl⟩
      · cases h

theorem run_append {p p' : Pool Q A ρ Ω S} {moves moves' : List (Move Ω E)} :
    p.run respond program (moves ++ moves') = some p' ↔
      ∃ p₁, p.run respond program moves = some p₁ ∧ p₁.run respond program moves' = some p' := by
  simp [run, List.foldlM_append, Option.bind_eq_some_iff]

theorem run_concat {p p' : Pool Q A ρ Ω S} {moves : List (Move Ω E)} {m : Move Ω E} :
    p.run respond program (moves ++ [m]) = some p' ↔
      ∃ p₁, p.run respond program moves = some p₁ ∧ p₁.move respond program m = some p' := by
  rw [run_append]
  simp [run]

section Rule

variable {inv : S → Prop} {rely : S → S → Prop}
  {guarantee : Ω → Program.Trace A → (q : Q) → S → A q → S → Prop}

/-- The thread does from here on what is guaranteed. -/
def ThreadSat (respond : (q : Q) → E → S → Option (A q × S)) (inv : S → Prop)
    (rely : S → S → Prop) (guarantee : Ω → Program.Trace A → (q : Q) → S → A q → S → Prop)
    (thread : Thread Q A ρ Ω) (s : S) : Prop :=
  Program.Sat respond inv rely (guarantee thread.op) (fun _ _ _ => True) thread.rest thread.trace s

theorem ThreadSat.moved (htrans : ∀ s₁ s₂ s₃, rely s₁ s₂ → rely s₂ s₃ → rely s₁ s₃)
    {thread : Thread Q A ρ Ω} {s s' : S} (h : ThreadSat respond inv rely guarantee thread s)
    (hrely : rely s s') : ThreadSat respond inv rely guarantee thread s' := by
  obtain ⟨op, trace, rest⟩ := thread
  cases rest with
  | done r => trivial
  | ask q next => exact Program.Sat.moved htrans h hrely

/-- A state of which the rule holds: its invariant, and every thread keeps
what it guarantees. -/
structure Ok (respond : (q : Q) → E → S → Option (A q × S)) (inv : S → Prop)
    (rely : S → S → Prop) (guarantee : Ω → Program.Trace A → (q : Q) → S → A q → S → Prop)
    (p : Pool Q A ρ Ω S) : Prop where
  state : inv p.state
  threads : ∀ thread ∈ p.threads, ThreadSat respond inv rely guarantee thread p.state

theorem Ok.answer_guarantee {p : Pool Q A ρ Ω S} (h : p.Ok respond inv rely guarantee)
    (hrefl : ∀ s, rely s s) {i : Nat} {op : Ω} {trace : Program.Trace A} {q : Q}
    {next : A q → Program Q A ρ} (hthread : p.threads[i]? = some ⟨op, trace, .ask q next⟩) {e : E}
    {a : A q} {s' : S} (hrespond : respond q e p.state = some (a, s')) :
    guarantee op trace q p.state a s'
      ∧ ThreadSat respond inv rely guarantee ⟨op, trace ++ [⟨q, a⟩], next a⟩ s' :=
  h.threads _ (List.mem_of_getElem? hthread) p.state (hrefl _) h.state e a s' hrespond

variable (hrefl : ∀ s, rely s s)
  (htrans : ∀ s₁ s₂ s₃, rely s₁ s₂ → rely s₂ s₃ → rely s₁ s₃)
  (hkeeps : ∀ {op trace q s a s'}, inv s → guarantee op trace q s a s' → rely s s' ∧ inv s')
  (hstart : ∀ op s, inv s →
    Program.Sat respond inv rely (guarantee op) (fun _ _ _ => True) (program op) [] s)

include hrefl htrans hkeeps hstart

theorem Ok.move {p p' : Pool Q A ρ Ω S} {m : Move Ω E} (h : p.Ok respond inv rely guarantee)
    (hmove : p.move respond program m = some p') :
    p'.Ok respond inv rely guarantee ∧ rely p.state p'.state := by
  rcases move_cases hmove with ⟨op, -, hstate, hthreads⟩ |
    ⟨i, e, op, trace, q, next, a, -, hthread, hrespond, hthreads⟩
  · refine ⟨⟨hstate ▸ h.state, ?_⟩, hstate ▸ hrefl _⟩
    rw [hthreads, hstate]
    intro thread hmem
    rcases List.mem_append.mp hmem with hmem | hmem
    · exact h.threads thread hmem
    · rw [List.mem_singleton.mp hmem]
      exact hstart op p.state h.state
  · obtain ⟨hguarantee, hnext⟩ := h.answer_guarantee hrefl hthread hrespond
    obtain ⟨hrely, hinv⟩ := hkeeps h.state hguarantee
    refine ⟨⟨hinv, ?_⟩, hrely⟩
    rw [hthreads]
    intro thread hmem
    rcases List.mem_or_eq_of_mem_set hmem with hmem | rfl
    · exact (h.threads thread hmem).moved htrans hrely
    · exact hnext

/-- Every run keeps the rule and goes where the rely allows. -/
theorem run_sat {p p' : Pool Q A ρ Ω S} (h : p.Ok respond inv rely guarantee)
    (moves : List (Move Ω E)) (hrun : p.run respond program moves = some p') :
    p'.Ok respond inv rely guarantee ∧ rely p.state p'.state := by
  induction moves using List.reverseRecOn generalizing p' with
  | nil =>
      cases hrun
      exact ⟨h, hrefl _⟩
  | append_singleton moves m ih =>
      obtain ⟨p₁, hrun, hmove⟩ := run_concat.mp hrun
      obtain ⟨h₁, hrely₁⟩ := ih hrun
      obtain ⟨h₂, hrely₂⟩ := h₁.move hrefl htrans hkeeps hstart hmove
      exact ⟨h₂, htrans _ _ _ hrely₁ hrely₂⟩

end Rule

end Pool

end Nekiro
