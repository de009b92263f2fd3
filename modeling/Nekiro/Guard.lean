import Mathlib.Data.List.Basic
import Mathlib.Data.List.Forall2
import Mathlib.Data.List.Induction
import Mathlib.Tactic.SplitIfs

/-!
# Guarded computations and runs of transactions

Checking code is a sequence of guards in the `Except` monad, and a store
is a function that either commits a new state or fails and leaves the
old one. This module has what both need and names no program:

* a guard (`require`) and the inversion lemmas that peel a successful
  computation apart (`bind_ok_iff`, `check_bind_ok_iff`,
  `require_ok_iff`);
* the run of a list of transactions (`run`), where a failed one changes
  nothing, with its induction rules: what the first state has and every
  committed step keeps holds after every run (`run_induction`), also
  when it speaks of the calls made (`run_history_induction`).
-/

namespace Nekiro

namespace Guard

variable {ε α β : Type}

/-- `if !p { return err }`. -/
def require (p : Prop) [Decidable p] (err : ε) : Except ε Unit :=
  if p then .ok () else .error err

@[simp] theorem require_ok_iff {p : Prop} [Decidable p] {err : ε} :
    require p err = .ok () ↔ p := by
  unfold require
  split_ifs with h <;> simp [h]

theorem require_of_not {p : Prop} [Decidable p] {err : ε} (h : ¬p) :
    require p err = .error err :=
  if_neg h

theorem ok_bind (a : α) (f : α → Except ε β) : (Except.ok a >>= f) = f a := rfl

theorem error_bind (e : ε) (f : α → Except ε β) : (Except.error e >>= f) = .error e := rfl

variable {x : Except ε α} {f : α → Except ε β} {b : β} {as : List α}

theorem bind_ok_iff : (x >>= f) = .ok b ↔ ∃ a, x = .ok a ∧ f a = .ok b := by
  cases x with
  | error e => exact ⟨nofun, nofun⟩
  | ok a =>
      refine ⟨fun h => ⟨a, rfl, h⟩, ?_⟩
      rintro ⟨_, ⟨⟩, hf⟩
      exact hf

/-- A check in front of a computation. -/
theorem check_bind_ok_iff {x : Except ε Unit} {f : Unit → Except ε β} :
    (x >>= f) = .ok b ↔ x = .ok () ∧ f () = .ok b := by
  rw [bind_ok_iff]
  exact ⟨fun ⟨(), h, hf⟩ => ⟨h, hf⟩, fun ⟨h, hf⟩ => ⟨(), h, hf⟩⟩

theorem map_ok_iff {f : α → β} : f <$> x = .ok b ↔ ∃ a, x = .ok a ∧ f a = b := by
  cases x <;> simp [Functor.map, Except.map]

/-- Replace whatever error `x` reports. -/
def orFail {ε' : Type} (err : ε') : Except ε α → Except ε' α
  | .ok a => .ok a
  | .error _ => .error err

@[simp] theorem orFail_ok_iff {ε' : Type} {err : ε'} {a : α} :
    orFail err x = .ok a ↔ x = .ok a := by
  cases x <;> simp [orFail]

/-! ## Loops -/

theorem forM_ok_iff {f : α → Except ε Unit} : as.forM f = .ok () ↔ ∀ a ∈ as, f a = .ok () := by
  induction as with
  | nil => exact ⟨fun _ _ h => absurd h List.not_mem_nil, fun _ => rfl⟩
  | cons a as ih =>
      rw [List.forall_mem_cons, ← ih]
      exact check_bind_ok_iff

theorem mapM_ok_iff :
    ∀ {as : List α} {bs : List β},
      as.mapM f = .ok bs ↔ List.Forall₂ (fun a b => f a = .ok b) as bs
  | [], bs => by
      rw [List.mapM_nil, List.forall₂_nil_left_iff]
      exact ⟨fun h => (Except.ok.inj h).symm, fun h => h ▸ rfl⟩
  | a :: as, bs => by
      rw [List.mapM_cons, bind_ok_iff, List.forall₂_cons_left_iff]
      simp only [bind_ok_iff, mapM_ok_iff]
      constructor
      · rintro ⟨b, hb, rest, hrest, heq⟩
        cases heq
        exact ⟨b, rest, hb, hrest, rfl⟩
      · rintro ⟨b, rest, hb, hrest, rfl⟩
        exact ⟨b, hb, rest, hrest, rfl⟩

theorem mapM_of_forall {g : α → β} (h : ∀ a ∈ as, f a = .ok (g a)) :
    as.mapM f = .ok (as.map g) := by
  rw [mapM_ok_iff, List.forall₂_map_right_iff, List.forall₂_same]
  exact h

theorem exists_mapM_ok_iff : (∃ bs, as.mapM f = .ok bs) ↔ ∀ a ∈ as, ∃ b, f a = .ok b := by
  simp only [mapM_ok_iff]
  induction as with
  | nil => exact ⟨fun _ _ h => absurd h List.not_mem_nil, fun _ => ⟨[], .nil⟩⟩
  | cons a as ih =>
      rw [List.forall_mem_cons, ← ih]
      constructor
      · rintro ⟨_, hhead | ⟨ha, has⟩⟩
        exact ⟨⟨_, ha⟩, _, has⟩
      · rintro ⟨⟨b, hb⟩, bs, hbs⟩
        exact ⟨b :: bs, .cons hb hbs⟩

theorem mem_of_mapM_ok {bs : List β} (h : as.mapM f = .ok bs) : b ∈ bs ↔ ∃ a ∈ as, f a = .ok b := by
  rw [mapM_ok_iff] at h
  induction h with
  | nil => simp
  | cons hhead _ ih =>
      rw [List.mem_cons, ih, List.exists_mem_cons_iff, hhead, Except.ok.injEq, eq_comm]

end Guard

/-! ## Runs of transactions -/

namespace Transact

variable {σ α ε : Type}

/-- The state after one transaction: a failed one leaves the state. -/
def commit (step : σ → α → Except ε σ) (s : σ) (a : α) : σ :=
  match step s a with
  | .ok s' => s'
  | .error _ => s

def run (step : σ → α → Except ε σ) (s : σ) (as : List α) : σ :=
  as.foldl (commit step) s

theorem commit_cases (step : σ → α → Except ε σ) (s : σ) (a : α) :
    commit step s a = s ∨ step s a = .ok (commit step s a) := by
  unfold commit
  cases h : step s a with
  | error e => exact .inl rfl
  | ok s' => exact .inr rfl

theorem run_append (step : σ → α → Except ε σ) (s : σ) (as bs : List α) :
    run step s (as ++ bs) = run step (run step s as) bs :=
  List.foldl_append

theorem run_concat (step : σ → α → Except ε σ) (s : σ) (as : List α) (a : α) :
    run step s (as ++ [a]) = commit step (run step s as) a := by
  rw [run_append]
  rfl

/-- **Invariant rule.** What a committed step keeps, a run keeps. -/
theorem run_induction {step : σ → α → Except ε σ} {P : σ → Prop}
    (hstep : ∀ s a s', P s → step s a = .ok s' → P s') {s : σ} (h0 : P s) (as : List α) :
    P (run step s as) := by
  induction as generalizing s with
  | nil => exact h0
  | cons a as ih =>
      refine ih ?_
      rcases commit_cases step s a with h | h
      · rw [h]
        exact h0
      · exact hstep s a _ h0 h

/-- **History rule.** An invariant that mentions the calls made so far:
a committed call moves the state, a failed one only the history. -/
theorem run_history_induction {step : σ → α → Except ε σ} {s : σ} {P : List α → σ → Prop}
    (h0 : P [] s)
    (hok : ∀ pre a s', P pre (run step s pre) → step (run step s pre) a = .ok s' →
      P (pre ++ [a]) s')
    (hfail : ∀ pre a, P pre (run step s pre) → (∀ s', step (run step s pre) a ≠ .ok s') →
      P (pre ++ [a]) (run step s pre)) (as : List α) : P as (run step s as) := by
  induction as using List.reverseRecOn with
  | nil => exact h0
  | append_singleton pre a ih =>
      rw [run_concat]
      unfold commit
      cases hstep : step (run step s pre) a with
      | error e => exact hfail pre a ih fun s' h => by rw [hstep] at h; cases h
      | ok s' => exact hok pre a s' ih hstep

/-- The splits of a list with one more element at the end. -/
theorem split_concat_iff {as pre post : List α} {a b : α} :
    as ++ [b] = pre ++ a :: post ↔
      (post = [] ∧ as = pre ∧ b = a) ∨ ∃ post', post = post' ++ [b] ∧ as = pre ++ a :: post' := by
  rcases List.eq_nil_or_concat' post with rfl | ⟨post, c, rfl⟩
  · constructor
    · intro h
      obtain ⟨h1, h2⟩ := List.append_inj' h rfl
      exact .inl ⟨rfl, h1, List.cons.inj h2 |>.1⟩
    · rintro (⟨-, rfl, rfl⟩ | ⟨post', h, -⟩)
      · rfl
      · simp at h
  · constructor
    · intro h
      rw [← List.cons_append, ← List.append_assoc] at h
      obtain ⟨h1, h2⟩ := List.append_inj' h rfl
      exact .inr ⟨post, by rw [List.cons.inj h2 |>.1], h1⟩
    · rintro (⟨h, -, -⟩ | ⟨post', h, rfl⟩)
      · simp at h
      · rw [h, ← List.cons_append, ← List.append_assoc]

end Transact

end Nekiro
