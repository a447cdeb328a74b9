import StrongestPost.Logic.Eval
import StrongestPost.Proofs.Meaning

/-!
# Evaluation is exact or an error

Evaluation in 64-bit integers is compared with the ideal meaning. A term is evaluated
from the bottom up and from left to right, so its subterms come to their turn in postorder;
what is wrong with one of them is said by the ideal values of its operands alone. The first
one that something is wrong with is the error of the whole, and where there is none the
value is the ideal one. Of a predicate only those comparisons have their turn that no
connective has been decided before.
-/

namespace StrongestPost

/-- The states `s` and `b` give every key that is bound the value it is bound to. -/
def Valuation.ExtendsTo (env : Valuation) (s b : State) : Prop :=
  ∀ k v, env.get? k = some v → k.value s b = v.toInt

/-! ## Faults -/

def FitsInt64 (v : Int) : Prop := Int64.minValue.toInt ≤ v ∧ v ≤ Int64.maxValue.toInt

instance (v : Int) : Decidable (FitsInt64 v) := inferInstanceAs (Decidable (_ ∧ _))

/-- What is wrong with an operation on `m` and `n`. The remainder of the least integer by
`-1` is counted among the results that do not fit. -/
def ArithOp.fault? (z : ByZero) (op : ArithOp) (m n : Int) : Option EvalError :=
  if (op = .div ∨ op = .mod) ∧ n = 0 then some .divisionByZero
  else if FitsInt64 (op.value z m n) ∧ ¬ (op = .mod ∧ m = Int64.minValue.toInt ∧ n = -1) then none
  else some .overflow

def Term.postorder : Term → List Term
  | var s k => [var s k]
  | lit s v => [lit s v]
  | neg s t => t.postorder ++ [neg s t]
  | arith s t op u => t.postorder ++ (u.postorder ++ [arith s t op u])

/-- What is wrong with a term itself, its operands apart. -/
def Term.fault? (env : Valuation) (z : ByZero) (s b : State) : Term → Option EvalError
  | var _ k => if env.get? k = none then some (.unbound k.name) else none
  | lit _ _ => none
  | neg _ t => if FitsInt64 (-t.value z s b) then none else some .overflow
  | arith _ t op u => op.fault? z (t.value z s b) (u.value z s b)

/-- Whatever stands on the right, the answer is the same. -/
def Connective.Decided (op : Connective) (left : Prop) : Prop := op.Joins left True ↔ op.Joins left False

instance (op : Connective) (left : Prop) [Decidable left] : Decidable (op.Decided left) :=
  inferInstanceAs (Decidable (op.Joins left True ↔ op.Joins left False))

/-- The terms that have to be evaluated to know whether a predicate is true, in order. -/
def Pred.visited (z : ByZero) (s b : State) : Pred → List Term
  | lit _ _ => []
  | rel _ t _ u => t.postorder ++ u.postorder
  | neg _ p => p.visited z s b
  | conn _ p op q =>
    p.visited z s b ++ if op.Decided (p.Holds z s b) then [] else q.visited z s b

/-! ## Results -/

/-- The result is the fault or, where there is none, something with `Q`. -/
def Settles {ε α : Type} (fault : Option ε) (Q : α → Prop) : Except ε α → Prop
  | .ok a => fault = none ∧ Q a
  | .error e => fault = some e

section
variable {ε α β : Type} {f f' : Option ε} {P Q : α → Prop} {R : β → Prop} {x : Except ε α}

theorem Settles.bind {g : α → Except ε β} (hx : Settles f P x)
    (hg : ∀ a, P a → Settles f' R (g a)) : Settles (f.or f') R (x >>= g) := by
  cases x with
  | ok a =>
    obtain ⟨rfl, ha⟩ := hx
    exact hg a ha
  | error e =>
    subst hx
    exact rfl

theorem Settles.imp (hx : Settles f P x) (h : ∀ a, P a → Q a) : Settles f Q x := by
  cases x with
  | ok a => exact ⟨hx.1, h a hx.2⟩
  | error e => exact hx

theorem Settles.map {g : α → β} (hx : Settles f P x) (hg : ∀ a, P a → R (g a)) :
    Settles f R (x >>= fun a => .ok (g a)) := by
  rw [← f.or_none]
  exact hx.bind fun a ha => ⟨rfl, hg a ha⟩

theorem Settles.of_ok {a : α} (hx : Settles f P x) (h : x = .ok a) : P a := by
  subst h
  exact hx.2

theorem Settles.exists_ok_iff (hx : Settles f P x) : (∃ a, x = .ok a) ↔ f = none := by
  cases x with
  | ok a => exact iff_of_true ⟨a, rfl⟩ hx.1
  | error e =>
    rw [show f = some e from hx]
    simp

theorem Settles.error_iff (hx : Settles f P x) (e : ε) : x = .error e ↔ f = some e := by
  cases x with
  | ok a =>
    obtain ⟨rfl, -⟩ := hx
    simp
  | error e' =>
    rw [show f = some e' from hx]
    simp

end

/-! ## One operation -/

theorem exact_settles (v : Int) :
    Settles (if FitsInt64 v then none else some .overflow) (fun w => w.toInt = v) (exact v) := by
  unfold exact
  by_cases hv : FitsInt64 v
  · have h : (Int64.ofInt v).toInt = v := by
      have hmin := hv.1
      have hmax := hv.2
      rw [Int64.toInt_minValue] at hmin
      rw [Int64.toInt_maxValue] at hmax
      exact Int64.toInt_ofInt_of_le hmin (by omega)
    rw [if_pos hv, if_pos h]
    exact ⟨rfl, h⟩
  · have h : (Int64.ofInt v).toInt ≠ v := fun h =>
      hv ⟨h ▸ Int64.minValue_le_toInt _, h ▸ Int64.toInt_le _⟩
    rw [if_neg hv, if_neg h]
    exact rfl

theorem ArithOp.eval_settles (z : ByZero) (op : ArithOp) (a b : Int64) :
    Settles (op.fault? z a.toInt b.toInt) (fun w => w.toInt = op.value z a.toInt b.toInt) (op.eval a b) := by
  have hzero : b = 0 ↔ b.toInt = 0 := by rw [← Int64.toInt_inj]; exact Iff.rfl
  cases op with
  | add | sub | mul => simpa [fault?, value, eval] using exact_settles _
  | div =>
    by_cases hb : b = 0
    · simp [fault?, eval, hb, Settles]
    · have hb' : b.toInt ≠ 0 := mt hzero.mpr hb
      simpa [fault?, value, eval, hb, hb'] using exact_settles _
  | mod =>
    by_cases hb : b = 0
    · simp [fault?, eval, hb, Settles]
    · have hb' : b.toInt ≠ 0 := mt hzero.mpr hb
      have hleast : (a = Int64.minValue ∧ b = -1) ↔
          a.toInt = Int64.minValue.toInt ∧ b.toInt = -1 := by
        rw [← Int64.toInt_inj, ← Int64.toInt_inj]; exact Iff.rfl
      have hfault : mod.fault? z a.toInt b.toInt =
          if FitsInt64 (a.toInt % b.toInt) ∧ ¬ (a.toInt = Int64.minValue.toInt ∧ b.toInt = -1) then none
          else some .overflow := by
        simp only [fault?, value, hb', and_false, ite_false, true_and]
      have hvalue : mod.value z a.toInt b.toInt = a.toInt % b.toInt := if_neg hb'
      rw [hfault, hvalue, eval, if_neg hb]
      by_cases h : a = Int64.minValue ∧ b = -1
      · rw [if_neg fun hf => hf.2 (hleast.mp h), if_pos h]
        exact rfl
      · simp only [if_neg h, and_iff_left (mt hleast.mpr h)]
        exact exact_settles _

theorem RelOp.eval_iff (op : RelOp) (a b : Int64) : op.eval a b = true ↔ op.Holds a.toInt b.toInt := by
  cases op <;>
    simp [eval, Holds, Int64.toInt_inj, Int64.lt_iff_toInt_lt, Int64.le_iff_toInt_le]

theorem Connective.settled?_some {op : Connective} {a r : Bool} {P : Prop} (hP : a = true ↔ P)
    (h : op.settled? a = some r) : op.Decided P ∧ ∀ Q, r = true ↔ op.Joins P Q := by
  cases op <;> cases a <;> simp_all [settled?, Decided, Joins]

theorem Connective.settled?_none {op : Connective} {a : Bool} {P : Prop} (hP : a = true ↔ P)
    (h : op.settled? a = none) : ¬ op.Decided P ∧ ∀ Q, Q ↔ op.Joins P Q := by
  cases op <;> cases a <;> simp_all [settled?, Decided, Joins]

/-! ## Terms and predicates -/

section
variable {env : Valuation} {s b : State}

theorem Term.eval_settles (h : env.ExtendsTo s b) (z : ByZero) (t : Term) :
    Settles (t.postorder.findSome? (Term.fault? env z s b)) (fun v => v.toInt = t.value z s b)
      (t.eval env) := by
  induction t with
  | var _ k =>
    cases hk : env.get? k with
    | some v => simpa [postorder, fault?, eval, value, hk, Settles] using (h k v hk).symm
    | none => simp [postorder, fault?, eval, hk, Settles]
  | lit _ v => exact ⟨rfl, rfl⟩
  | neg _ t ih =>
    rw [postorder, List.findSome?_append, eval]
    refine ih.bind fun v hv => ?_
    simpa [fault?, value, hv] using exact_settles (-v.toInt)
  | arith _ t op u iht ihu =>
    rw [postorder, List.findSome?_append, List.findSome?_append, eval]
    refine iht.bind fun v hv => ihu.bind fun w hw => ?_
    simpa [fault?, value, hv, hw] using op.eval_settles z v w

theorem Pred.eval_settles (h : env.ExtendsTo s b) (z : ByZero) (p : Pred) :
    Settles ((p.visited z s b).findSome? (Term.fault? env z s b)) (fun r => r = true ↔ p.Holds z s b)
      (p.eval env) := by
  induction p with
  | lit _ r => exact ⟨rfl, Iff.rfl⟩
  | rel _ t op u =>
    rw [visited, List.findSome?_append, eval]
    refine (t.eval_settles h z).bind fun v hv => (u.eval_settles h z).map fun w hw => ?_
    rw [op.eval_iff, hv, hw, Holds]
  | neg _ p ih =>
    rw [visited, eval]
    refine ih.map fun r hr => ?_
    rw [Holds, ← hr, Bool.not_eq_true', Bool.not_eq_true]
  | conn _ p op q ihp ihq =>
    rw [visited, List.findSome?_append, eval]
    refine ihp.bind fun r hr => ?_
    cases hs : op.settled? r with
    | some r' =>
      obtain ⟨hd, hr'⟩ := Connective.settled?_some hr hs
      rw [if_pos hd]
      exact ⟨rfl, hr' _⟩
    | none =>
      obtain ⟨hd, hq⟩ := Connective.settled?_none hr hs
      rw [if_neg hd]
      exact ihq.imp fun r' hr' => hr'.trans (hq _)

end

/-! ## Unbound keys -/

theorem error_of_bind {ε α β : Type} {x : Except ε α} {f : α → Except ε β} {e : ε}
    (h : (x >>= f) = .error e) : x = .error e ∨ ∃ a, x = .ok a ∧ f a = .error e := by
  cases x with
  | ok a => exact .inr ⟨a, rfl, h⟩
  | error e' => cases h; exact .inl rfl

theorem exact_ne_unbound (v : Int) (x : String) : exact v ≠ .error (.unbound x) := by
  unfold exact
  split <;> simp

theorem ArithOp.eval_ne_unbound (op : ArithOp) (a b : Int64) (x : String) :
    op.eval a b ≠ .error (.unbound x) := by
  cases op with
  | add | sub | mul => exact exact_ne_unbound _ x
  | div =>
    simp only [eval]
    split
    · simp
    · exact exact_ne_unbound _ x
  | mod =>
    simp only [eval]
    split
    · simp
    · split
      · simp
      · exact exact_ne_unbound _ x

theorem Term.unbound_of_eval {env : Valuation} {t : Term} {x : String}
    (h : t.eval env = .error (.unbound x)) : ∃ k ∈ t.keys, env.get? k = none := by
  induction t with
  | var _ k =>
    cases hk : env.get? k with
    | some v => simp [eval, hk] at h
    | none => exact ⟨k, by simp, hk⟩
  | lit => cases h
  | neg _ t ih =>
    rcases error_of_bind h with h | ⟨v, -, h⟩
    · exact ih h
    · exact absurd h (exact_ne_unbound _ x)
  | arith _ t op u iht ihu =>
    simp only [keys_arith, List.mem_append]
    rcases error_of_bind h with h | ⟨v, -, h⟩
    · obtain ⟨k, hk, hnone⟩ := iht h
      exact ⟨k, .inl hk, hnone⟩
    · rcases error_of_bind h with h | ⟨w, -, h⟩
      · obtain ⟨k, hk, hnone⟩ := ihu h
        exact ⟨k, .inr hk, hnone⟩
      · exact absurd h (op.eval_ne_unbound v w x)

theorem Pred.unbound_of_eval {env : Valuation} {p : Pred} {x : String}
    (h : p.eval env = .error (.unbound x)) : ∃ k ∈ p.keys, env.get? k = none := by
  induction p with
  | lit => cases h
  | rel _ t op u =>
    simp only [keys_rel, List.mem_append]
    rcases error_of_bind h with h | ⟨v, -, h⟩
    · obtain ⟨k, hk, hnone⟩ := Term.unbound_of_eval h
      exact ⟨k, .inl hk, hnone⟩
    · rcases error_of_bind h with h | ⟨w, -, h⟩
      · obtain ⟨k, hk, hnone⟩ := Term.unbound_of_eval h
        exact ⟨k, .inr hk, hnone⟩
      · cases h
  | neg _ p ih =>
    rcases error_of_bind h with h | ⟨r, -, h⟩
    · exact ih h
    · cases h
  | conn _ p op q ihp ihq =>
    simp only [keys_conn, List.mem_append]
    rcases error_of_bind h with h | ⟨r, -, h⟩
    · obtain ⟨k, hk, hnone⟩ := ihp h
      exact ⟨k, .inl hk, hnone⟩
    · cases hs : op.settled? r with
      | some r' => rw [hs] at h; cases h
      | none =>
        rw [hs] at h
        obtain ⟨k, hk, hnone⟩ := ihq h
        exact ⟨k, .inr hk, hnone⟩

/-! ## The result -/

theorem ArithOp.value_euclidean (z : ByZero) (m : Int) {n : Int} (hn : n ≠ 0) :
    m = n * div.value z m n + mod.value z m n ∧ 0 ≤ mod.value z m n ∧ mod.value z m n < n.natAbs := by
  simp only [value, if_neg hn]
  exact ⟨(Int.mul_ediv_add_emod m n).symm, Int.emod_nonneg m hn, Int.emod_lt m hn⟩

/-- **Evaluation.** Whatever integers are taken for the keys that are not bound and for the
results of a division by zero: a value is the ideal one, and an error is that of the first
subterm in the order of evaluation which something is wrong with. -/
theorem Valuation.eval_exact (env : Valuation) {s b : State} (h : env.ExtendsTo s b) (z : ByZero) :
    (∀ t : Term,
      (∀ v, t.eval env = .ok v → v.toInt = t.value z s b) ∧
      ∀ e, t.eval env = .error e ↔ t.postorder.findSome? (Term.fault? env z s b) = some e) ∧
    (∀ p : Pred,
      (∀ r, p.eval env = .ok r → (r = true ↔ p.Holds z s b)) ∧
      ∀ e, p.eval env = .error e ↔ (p.visited z s b).findSome? (Term.fault? env z s b) = some e) ∧
    ∀ m n, n ≠ 0 → m = n * ArithOp.div.value z m n + ArithOp.mod.value z m n ∧
      0 ≤ ArithOp.mod.value z m n ∧ ArithOp.mod.value z m n < n.natAbs := by
  refine ⟨fun t => ?_, fun p => ?_, fun m n => ArithOp.value_euclidean z m⟩
  · exact ⟨fun v hv => (t.eval_settles h z).of_ok hv, (t.eval_settles h z).error_iff⟩
  · exact ⟨fun r hr => (p.eval_settles h z).of_ok hr, (p.eval_settles h z).error_iff⟩

/-- Binds `x` to the least integer, and nothing else. -/
def leastX : Valuation := Valuation.empty.set ⟨"x", .current⟩ Int64.minValue

theorem Valuation.eval_exact_leastX :
    leastX.ExtendsTo (fun _ => Int64.minValue.toInt) (fun _ => 0) ∧
    (ArithOp.add.apply (ArithOp.mod.apply (.now "x") (.ofInt64 (-1))) (.now "y")).eval leastX =
      .error .overflow ∧
    ((RelOp.lt.apply (.now "x") (.ofInt64 0)).or
      (RelOp.eq.apply (ArithOp.div.apply (.now "y") (.ofInt64 0)) (.old "x"))).Holds
        ⟨fun _ => 0, fun _ => 0⟩ (fun _ => Int64.minValue.toInt) (fun _ => 0) := by
  have h : leastX.ExtendsTo (fun _ => Int64.minValue.toInt) (fun _ => 0) := by
    intro k v hk
    by_cases hx : k = ⟨"x", .current⟩
    · subst hx
      have hv : v = Int64.minValue := by simpa [leastX] using hk.symm
      rw [hv]; rfl
    · simp [leastX, hx] at hk
  obtain ⟨hterm, hpred, -⟩ := leastX.eval_exact h ⟨fun _ => 0, fun _ => 0⟩
  exact ⟨h, ((hterm _).2 _).mpr (by decide), ((hpred _).1 true rfl).mp rfl⟩

end StrongestPost
