import StrongestPost.Logic.Eval

/-!
# Bounded search

Every free key ranges over the integers from `-bound` to `bound`. The valuations
of such a box are met in lexicographic order, the first key varying slowest, and
the search stops at the first one that answers. A predicate without a
counterexample in the box is valid as far as the box goes; a counterexample is
one in any case.
-/

namespace StrongestPost

/-- The first answer of `f` on the integers from `start` up, `count` of them. -/
def firstFrom {β : Type} (f : Int → Option β) : (count : Nat) → (start : Int) → Option β
  | 0, _ => none
  | n + 1, start =>
    match f start with
    | some b => some b
    | none => firstFrom f n (start + 1)

/-- How far a search looks. -/
structure Bound where
  radius : Nat := 4
  radius_lt : radius < 1 <<< 63 := by decide

namespace Bound

/-- The distance of `v` from zero. That of the least integer is none, for it is not an
integer of the same size. -/
def ofInt64? (v : Int64) : Option Bound :=
  if h : v.toInt.natAbs < 1 <<< 63 then some ⟨v.toInt.natAbs, h⟩ else none

theorem ofInt64?_eq_none {v : Int64} : ofInt64? v = none ↔ v = .minValue := by
  have hle := v.le_toInt
  have hlt := v.toInt_lt
  rw [← Int64.toInt_inj, Int64.toInt_minValue]
  unfold ofInt64?
  by_cases h : v.toInt.natAbs < 1 <<< 63
  · rw [dif_pos h]
    exact iff_of_false nofun (by omega)
  · rw [dif_neg h]
    exact iff_of_true rfl (by omega)

/-- The first answer of `visit` on the box of `keys` over `base`. -/
def search {β : Type} (n : Bound) (visit : Valuation → Option β) :
    List Key → Valuation → Option β
  | [], base => visit base
  | k :: ks, base =>
    firstFrom (fun v => n.search visit ks (base.set k (.ofInt v))) (2 * n.radius + 1) (-n.radius)

inductive Verdict where
  | valid
  | refuted (env : Valuation)
deriving DecidableEq

def check (n : Bound) (p : Pred) : Except EvalError Verdict :=
  (n.search (visit p) p.freeKeys .empty).getD (.ok .valid)
where
  visit (p : Pred) (env : Valuation) : Option (Except EvalError Verdict) :=
    match p.eval env with
    | .ok true => none
    | .ok false => some (.ok (.refuted env))
    | .error e => some (.error e)

/-- The first valuation of `keys` over `base` that makes `p` true. -/
def extend (n : Bound) (p : Pred) (base : Valuation) (keys : List Key) :
    Except EvalError (Option Valuation) :=
  (n.search visit keys base).getD (.ok none)
where
  visit (env : Valuation) : Option (Except EvalError (Option Valuation)) :=
    match p.eval env with
    | .ok true => some (.ok (some env))
    | .ok false => none
    | .error e => some (.error e)

def findModel (n : Bound) (p : Pred) : Except EvalError (Option Valuation) :=
  n.extend p .empty p.freeKeys

/-- What a comparison of two predicates finds: nothing, or a valuation of the
visible keys that exactly one of them can be extended from. -/
inductive Comparison where
  | agree
  | differ (env : Valuation) (left right : Bool)
deriving DecidableEq

/-- Whether `p` and `q` can be extended from `env` by values of these keys. -/
def extensible (n : Bound) (p q : Pred) (pKeys qKeys : List Key) (env : Valuation) :
    Except EvalError (Bool × Bool) := do
  let a ← n.extend p env pKeys
  let b ← n.extend q env qKeys
  return (a.isSome, b.isSome)

/-- Compares two predicates on the visible keys, with all other keys read
existentially. -/
def compare (n : Bound) (p q : Pred) (visible : List Key) : Except EvalError Comparison :=
  let hidden (r : Pred) := r.freeKeys.filter (· ∉ visible)
  (n.search (visit (hidden p) (hidden q)) visible .empty).getD (.ok .agree)
where
  visit (pKeys qKeys : List Key) (env : Valuation) : Option (Except EvalError Comparison) :=
    match n.extensible p q pKeys qKeys env with
    | .ok (a, b) => if a = b then none else some (.ok (.differ env a b))
    | .error e => some (.error e)

end Bound

end StrongestPost
