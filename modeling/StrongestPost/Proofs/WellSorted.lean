import StrongestPost.Calculus.Outcome
import StrongestPost.Proofs.Evaluation
import StrongestPost.Proofs.Execution

/-!
# Well-sorted expressions

The expressions that can be read as terms and as predicates are those with a sort. Reading
can be undone (`Term.toExpr`, `Pred.toExpr?`), positions included, and does not change what an
expression evaluates to. What cannot be read is refused for the first part that is not of the
sort expected where it stands; parts are looked at from left to right, each before its operands.
-/

namespace StrongestPost

/-! ## Sorts -/

inductive Expr.HasSort : Expr → ValueSort → Prop
  | var {s x} : HasSort (.var s x) .integer
  | int {s v} : HasSort (.int s v) .integer
  | bool {s v} : HasSort (.bool s v) .boolean
  | neg {s e} : HasSort e .integer → HasSort (.unary s .neg e) .integer
  | not {s e} : HasSort e .boolean → HasSort (.unary s .not e) .boolean
  | arith {s a op b} : HasSort a .integer → HasSort b .integer →
      HasSort (.binary s a (.arith op) b) .integer
  | rel {s a op b} : HasSort a .integer → HasSort b .integer → HasSort (.binary s a (.rel op) b) .boolean
  | and {s a b} : HasSort a .boolean → HasSort b .boolean → HasSort (.binary s a .and b) .boolean
  | or {s a b} : HasSort a .boolean → HasSort b .boolean → HasSort (.binary s a .or b) .boolean

/-- The sort of what an expression gives, as far as its own operator says. -/
def Expr.ownSort : Expr → ValueSort
  | var .. | int .. | unary _ .neg _ | binary _ _ (.arith _) _ => .integer
  | bool .. | unary _ .not _ | binary _ _ (.rel _) _ | binary _ _ .and _ | binary _ _ .or _ => .boolean

def UnOp.operandSort : UnOp → ValueSort
  | neg => .integer
  | not => .boolean

def BinOp.operandSort : BinOp → ValueSort
  | arith _ | rel _ => .integer
  | and | or => .boolean

/-- The parts of an expression, each with the sort expected where it stands. -/
def Expr.demands : Expr → ValueSort → List (Expr × ValueSort)
  | var s x, k => [(var s x, k)]
  | int s v, k => [(int s v, k)]
  | bool s v, k => [(bool s v, k)]
  | unary s op e, k => (unary s op e, k) :: e.demands op.operandSort
  | binary s a op b, k =>
    (binary s a op b, k) :: (a.demands op.operandSort ++ b.demands op.operandSort)

def Expr.firstMismatch? (e : Expr) (k : ValueSort) : Option Mismatch :=
  (e.demands k).findSome? fun d => if d.1.ownSort = d.2 then none else some ⟨d.1, d.2⟩

section
variable {s : Span} {k : ValueSort}

theorem Expr.firstMismatch?_unary (op : UnOp) (e : Expr) :
    (unary s op e).firstMismatch? k =
      if (unary s op e).ownSort = k then e.firstMismatch? op.operandSort else some ⟨unary s op e, k⟩ := by
  unfold firstMismatch?
  rw [demands, List.findSome?_cons]
  split <;> simp_all

theorem Expr.firstMismatch?_binary (op : BinOp) (a b : Expr) :
    (binary s a op b).firstMismatch? k =
      if (binary s a op b).ownSort = k then
        (a.firstMismatch? op.operandSort).or (b.firstMismatch? op.operandSort)
      else some ⟨binary s a op b, k⟩ := by
  unfold firstMismatch?
  rw [demands, List.findSome?_cons, List.findSome?_append]
  split <;> simp_all

end

theorem Expr.hasSort_iff (e : Expr) (k : ValueSort) : e.HasSort k ↔ e.firstMismatch? k = none := by
  constructor
  · intro h
    induction h with
    | var | int | bool => rfl
    | neg _ ih | not _ ih => simp [firstMismatch?_unary, ownSort, UnOp.operandSort, ih]
    | arith _ _ iha ihb | rel _ _ iha ihb | and _ _ iha ihb | or _ _ iha ihb =>
      simp [firstMismatch?_binary, ownSort, BinOp.operandSort, iha, ihb]
  · intro h
    induction e generalizing k with
    | var =>
      cases k with
      | integer => exact .var
      | boolean => cases h
    | int =>
      cases k with
      | integer => exact .int
      | boolean => cases h
    | bool =>
      cases k with
      | integer => cases h
      | boolean => exact .bool
    | unary s op e ih =>
      rw [firstMismatch?_unary] at h
      split at h
      · rename_i hk
        subst hk
        cases op with
        | neg => exact .neg (ih _ h)
        | not => exact .not (ih _ h)
      · cases h
    | binary s a op b iha ihb =>
      rw [firstMismatch?_binary] at h
      split at h
      · rename_i hk
        subst hk
        obtain ⟨ha, hb⟩ := Option.or_eq_none_iff.mp h
        cases op with
        | arith op => exact .arith (iha _ ha) (ihb _ hb)
        | rel op => exact .rel (iha _ ha) (ihb _ hb)
        | and => exact .and (iha _ ha) (ihb _ hb)
        | or => exact .or (iha _ ha) (ihb _ hb)
      · cases h

theorem Expr.HasSort.eq_ownSort {e : Expr} {k : ValueSort} (h : e.HasSort k) : k = e.ownSort := by
  cases h <;> rfl

/-! ## Reading undone -/

/-- The expression of a term, each part where the term has it. -/
def Term.toExpr : Term → Expr
  | var s k => .var s k.name
  | lit s v => .int s v
  | neg s t => .unary s .neg t.toExpr
  | arith s t op u => .binary s t.toExpr (.arith op) u.toExpr

/-- The expression of a predicate. There is none for an implication. -/
def Pred.toExpr? : Pred → Option Expr
  | lit s v => some (.bool s v)
  | rel s t op u => some (.binary s t.toExpr (.rel op) u.toExpr)
  | neg s p => do return .unary s .not (← p.toExpr?)
  | conn s p .and q => do return .binary s (← p.toExpr?) .and (← q.toExpr?)
  | conn s p .or q => do return .binary s (← p.toExpr?) .or (← q.toExpr?)
  | conn _ _ .implies _ => none

theorem Term.ofExpr_settles (e : Expr) :
    Settles (e.firstMismatch? .integer) (fun t => t.toExpr = e) (Term.ofExpr e) := by
  fun_induction Term.ofExpr e with
  | case1 | case2 => exact ⟨rfl, rfl⟩
  | case3 s e ih =>
    rw [Expr.firstMismatch?_unary]
    exact ih.map fun t ht => by rw [toExpr, ht]
  | case4 s a op b iha ihb =>
    rw [Expr.firstMismatch?_binary]
    exact iha.bind fun t ht => ihb.map fun u hu => by rw [toExpr, ht, hu]
  | _ => exact rfl

theorem Pred.ofExpr_settles (e : Expr) :
    Settles (e.firstMismatch? .boolean) (fun p => p.toExpr? = some e) (Pred.ofExpr e) := by
  fun_induction Pred.ofExpr e with
  | case1 => exact ⟨rfl, rfl⟩
  | case2 s e ih =>
    rw [Expr.firstMismatch?_unary]
    exact ih.map fun p hp => by simp [toExpr?, hp]
  | case3 s a op b =>
    rw [Expr.firstMismatch?_binary]
    exact (Term.ofExpr_settles a).bind fun t ht => (Term.ofExpr_settles b).map fun u hu => by
      simp [toExpr?, ht, hu]
  | case4 s a b iha ihb | case5 s a b iha ihb =>
    rw [Expr.firstMismatch?_binary]
    exact iha.bind fun p hp => ihb.map fun q hq => by simp [toExpr?, hp, hq]
  | _ => exact rfl

/-! ## Evaluation of expressions

Operands are evaluated from left to right, and the right side of a connective only where the
left side leaves it open. There is no result where an operator cannot take its operand. -/

inductive Scalar where
  | int (v : Int64)
  | bool (r : Bool)
deriving DecidableEq

abbrev Computation := ExceptT EvalError Option

def Scalar.int? : Scalar → Computation Int64
  | int v => return v
  | bool _ => ExceptT.lift none

def Scalar.bool? : Scalar → Computation Bool
  | int _ => ExceptT.lift none
  | bool r => return r

def Expr.compute (env : Valuation) : Expr → Computation Scalar
  | var _ x =>
    match env.get? ⟨x, .current⟩ with
    | some v => return .int v
    | none => throw (.unbound x)
  | int _ v => return .int v
  | bool _ r => return .bool r
  | unary _ .neg e => do
    let v ← (← e.compute env).int?
    return .int (← exact (-v.toInt))
  | unary _ .not e => do
    let r ← (← e.compute env).bool?
    return .bool !r
  | binary _ a (.arith op) b => do
    let v ← (← a.compute env).int?
    let w ← (← b.compute env).int?
    return .int (← op.eval v w)
  | binary _ a (.rel op) b => do
    let v ← (← a.compute env).int?
    let w ← (← b.compute env).int?
    return .bool (op.eval v w)
  | binary _ a .and b => do
    if ← (← a.compute env).bool? then b.compute env else return .bool false
  | binary _ a .or b => do
    if ← (← a.compute env).bool? then return .bool true else b.compute env

theorem Computation.return_map {α β : Type} (f : α → β) (x : Except EvalError α) :
    (do return f (← x) : Computation β) = some (x.map f) := by
  cases x <;> rfl

theorem Term.compute_toExpr {t : Term} (ht : ∀ k ∈ t.keys, k.moment = .current) (env : Valuation) :
    t.toExpr.compute env = some ((t.eval env).map .int) := by
  induction t with
  | var _ k =>
    obtain ⟨x, m⟩ := k
    have hm : m = .current := ht ⟨x, m⟩ (by simp)
    rw [hm, toExpr, Expr.compute, eval]
    cases env.get? ⟨x, .current⟩ <;> rfl
  | lit => rfl
  | neg _ t ih =>
    rw [toExpr, Expr.compute, ih ht, eval]
    cases t.eval env with
    | error e => rfl
    | ok v => exact Computation.return_map Scalar.int (exact (-v.toInt))
  | arith _ t op u iht ihu =>
    simp only [keys_arith, List.forall_mem_append] at ht
    rw [toExpr, Expr.compute, iht ht.1, ihu ht.2, eval]
    cases t.eval env with
    | error e => rfl
    | ok v =>
      cases u.eval env with
      | error e => rfl
      | ok w => exact Computation.return_map Scalar.int (op.eval v w)

theorem Pred.compute_of_toExpr? {p : Pred} {e : Expr} (h : p.toExpr? = some e) (hp : p.CurrentOnly)
    (env : Valuation) : e.compute env = some ((p.eval env).map .bool) := by
  induction p generalizing e with
  | lit => cases h; rfl
  | rel _ t op u =>
    cases h
    simp only [CurrentOnly, SpeaksOf, keys_rel, List.forall_mem_append] at hp
    rw [Expr.compute, Term.compute_toExpr hp.1, Term.compute_toExpr hp.2, eval]
    cases t.eval env with
    | error e => rfl
    | ok v => cases u.eval env <;> rfl
  | neg _ p ih =>
    obtain ⟨a, ha, h⟩ := Option.bind_eq_some_iff.mp h
    cases h
    rw [Expr.compute, ih ha hp, eval]
    cases p.eval env <;> rfl
  | conn _ p op q ihp ihq =>
    simp only [CurrentOnly, SpeaksOf, keys_conn, List.forall_mem_append] at hp
    cases op with
    | and =>
      obtain ⟨a, ha, h⟩ := Option.bind_eq_some_iff.mp h
      obtain ⟨b, hb, h⟩ := Option.bind_eq_some_iff.mp h
      cases h
      rw [Expr.compute, ihp ha hp.1, ihq hb hp.2, eval]
      rcases p.eval env with e | (_ | _) <;> rfl
    | or =>
      obtain ⟨a, ha, h⟩ := Option.bind_eq_some_iff.mp h
      obtain ⟨b, hb, h⟩ := Option.bind_eq_some_iff.mp h
      cases h
      rw [Expr.compute, ihp ha hp.1, ihq hb hp.2, eval]
      rcases p.eval env with e | (_ | _) <;> rfl
    | implies => cases h

/-! ## The result -/

theorem Expr.current_keys (e : Expr) : ∀ k ∈ e.keys, k.moment = .current := by simp [Expr.keys]

/-- **Sorts.** Reading succeeds on the expressions with a sort, never on one expression in both ways.
A result has every node of the expression at its place, speaks of current values only and of the
variables of the expression, and evaluates to what the expression does. Otherwise the error
is about the first part of another sort than expected. -/
theorem Expr.reading_exact (e : Expr) :
    ((∃ t, Term.ofExpr e = .ok t) ↔ e.HasSort .integer) ∧
    ((∃ p, Pred.ofExpr e = .ok p) ↔ e.HasSort .boolean) ∧
    ¬ ((∃ t, Term.ofExpr e = .ok t) ∧ ∃ p, Pred.ofExpr e = .ok p) ∧
    (∀ t, Term.ofExpr e = .ok t → t.toExpr = e ∧ (∀ k ∈ t.keys, k.moment = .current) ∧
      t.freeNames = inOrder e.names ∧ ∀ env, e.compute env = some ((t.eval env).map .int)) ∧
    (∀ p, Pred.ofExpr e = .ok p → p.toExpr? = some e ∧ (∀ k ∈ p.keys, k.moment = .current) ∧
      p.freeNames = inOrder e.names ∧ ∀ env, e.compute env = some ((p.eval env).map .bool)) ∧
    (∀ m, Term.ofExpr e = .error m ↔ e.firstMismatch? .integer = some m) ∧
    (∀ m, Pred.ofExpr e = .error m ↔ e.firstMismatch? .boolean = some m) ∧
    ∀ m, (Error.illSorted m).message = "cannot translate `" ++ m.expr.text ++ "` at " ++
      m.expr.span.text ++ ": " ++ m.expected.expectation := by
  have hterm := Term.ofExpr_settles e
  have hpred := Pred.ofExpr_settles e
  have hinteger := hterm.exists_ok_iff.trans (e.hasSort_iff .integer).symm
  have hboolean := hpred.exists_ok_iff.trans (e.hasSort_iff .boolean).symm
  refine ⟨hinteger, hboolean, ?_, fun t ht => ?_, fun p hp => ?_, hterm.error_iff, hpred.error_iff,
    fun m => rfl⟩
  · rw [hinteger, hboolean]
    rintro ⟨hi, hb⟩
    cases hi.eq_ownSort.trans hb.eq_ownSort.symm
  · have hkeys : ∀ k ∈ t.keys, k.moment = .current := Term.keys_ofExpr ht ▸ e.current_keys
    have hexpr : t.toExpr = e := hterm.of_ok ht
    refine ⟨hexpr, hkeys, by rw [Term.freeNames, Term.names_ofExpr ht], fun env => ?_⟩
    rw [← hexpr, Term.compute_toExpr hkeys]
  · have hkeys : ∀ k ∈ p.keys, k.moment = .current := Pred.keys_ofExpr hp ▸ e.current_keys
    have hexpr : p.toExpr? = some e := hpred.of_ok hp
    refine ⟨hexpr, hkeys, by rw [Pred.freeNames, Pred.names_ofExpr hp], fun env => ?_⟩
    exact Pred.compute_of_toExpr? hexpr hkeys env

end StrongestPost
