/-!
# Error values

Go errors as values: sentinels, plain texts, errors that carry a code,
and the two ways of combining errors. `is` and `code?` are `errors.Is`
for a sentinel and `errors.As` for the interface of coded errors; both
walk the tree in preorder. The module names no program: sentinels and
codes are parameters.
-/

namespace Nekiro

inductive ErrorTree (σ κ : Type) where
  | sentinel (s : σ)
  /-- `errors.New`. -/
  | plain (text : String)
  /-- An error with a code, over its cause. -/
  | coded (code : κ) (cause : ErrorTree σ κ)
  /-- `fmt.Errorf` with `%w`. -/
  | wrapped (cause : ErrorTree σ κ)
  /-- `errors.Join`. -/
  | joined (left right : ErrorTree σ κ)
deriving Repr, DecidableEq

namespace ErrorTree

variable {σ κ : Type} [DecidableEq σ]

/-- `errors.Is(err, s)`. -/
def is (s : σ) : ErrorTree σ κ → Bool
  | .sentinel s' => s == s'
  | .plain _ => false
  | .coded _ cause => cause.is s
  | .wrapped cause => cause.is s
  | .joined left right => left.is s || right.is s

omit [DecidableEq σ] in
/-- `errors.As(err, &coded)`: the code of the first coded error. -/
def code? : ErrorTree σ κ → Option κ
  | .sentinel _ => none
  | .plain _ => none
  | .coded code _ => some code
  | .wrapped cause => cause.code?
  | .joined left right => left.code?.or right.code?

end ErrorTree

end Nekiro
