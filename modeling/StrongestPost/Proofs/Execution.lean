import StrongestPost.Logic.OfExpr
import StrongestPost.Program.Stmt
import StrongestPost.Proofs.Meaning

/-!
# Execution

The big-step semantics of statements. An execution ends in a state or fails at an
assert; where an assume is false it does not end at all. Invariants play no part.
Nothing says what a call does, so it may do anything.

An expression that is not well sorted has no value, and a statement that needs its
value does not run. Expressions that have a translation always have a value, the
one that the translation denotes (`Term.ofExpr_value`, `Pred.ofExpr_value`).
-/

namespace StrongestPost

/-! ## Expressions -/

inductive Value where
  | int (n : Int)
  | bool (p : Bool)
deriving DecidableEq

def UnOp.value? : UnOp → Value → Option Value
  | neg, .int n => some (.int (-n))
  | not, .bool p => some (.bool !p)
  | _, _ => none

def BinOp.value? (z : ByZero) : BinOp → Value → Value → Option Value
  | arith op, .int m, .int n => some (.int (op.value z m n))
  | rel op, .int m, .int n => some (.bool (decide (op.Holds m n)))
  | and, .bool p, .bool q => some (.bool (p && q))
  | or, .bool p, .bool q => some (.bool (p || q))
  | _, _, _ => none

def Expr.value? (z : ByZero) (s : State) : Expr → Option Value
  | var _ x => some (.int (s x))
  | int _ v => some (.int v.toInt)
  | bool _ p => some (.bool p)
  | unary _ op e => do op.value? (← e.value? z s)
  | binary _ a op b => do op.value? z (← a.value? z s) (← b.value? z s)

theorem Expr.value?_congr {z : ByZero} {s s' : State} {e : Expr} (h : State.AgreeOn e.names s s') :
    e.value? z s = e.value? z s' := by
  induction e with
  | var _ x => simp only [Expr.value?, h x (by simp [Expr.names])]
  | int | bool => rfl
  | unary _ op e ih => simp only [Expr.value?, ih h]
  | binary _ a op b iha ihb =>
    have ha := iha (h.mono fun x hx => List.mem_append_left _ hx)
    have hb := ihb (h.mono fun x hx => List.mem_append_right _ hx)
    simp only [Expr.value?, ha, hb]

/-! ## Translated expressions -/

def Expr.keys (e : Expr) : List Key := e.names.map (⟨·, .current⟩)

theorem ok_of_bind {ε α β : Type} {x : Except ε α} {f : α → Except ε β} {b : β}
    (h : (x >>= f) = .ok b) : ∃ a, x = .ok a ∧ f a = .ok b := by
  cases x with
  | error e => cases h
  | ok a => exact ⟨a, rfl, h⟩

section
variable {z : ByZero} {s : State}

theorem Term.ofExpr_value {e : Expr} {t : Term} (h : Term.ofExpr e = .ok t) (b : State) :
    e.value? z s = some (.int (t.value z s b)) := by
  fun_induction Term.ofExpr e generalizing t with
  | case1 | case2 => cases h; rfl
  | case3 span e ih =>
    obtain ⟨u, hu, h⟩ := ok_of_bind h
    cases h
    simp only [Expr.value?, ih hu]; rfl
  | case4 span e op e' ih ih' =>
    obtain ⟨u, hu, h⟩ := ok_of_bind h
    obtain ⟨v, hv, h⟩ := ok_of_bind h
    cases h
    simp only [Expr.value?, ih hu, ih' hv]; rfl
  | _ => cases h

theorem Pred.ofExpr_value {e : Expr} {p : Pred} (h : Pred.ofExpr e = .ok p) (b : State) :
    ∃ v : Bool, e.value? z s = some (.bool v) ∧ (v = true ↔ p.Holds z s b) := by
  fun_induction Pred.ofExpr e generalizing p with
  | case1 span v => cases h; exact ⟨v, rfl, Iff.rfl⟩
  | case2 span e ih =>
    obtain ⟨q, hq, h⟩ := ok_of_bind h
    obtain ⟨v, hv, hvq⟩ := ih hq
    cases h
    refine ⟨!v, by simp only [Expr.value?, hv]; rfl, ?_⟩
    simp [Pred.Holds, ← hvq]
  | case3 span e op e' =>
    obtain ⟨t, ht, h⟩ := ok_of_bind h
    obtain ⟨u, hu, h⟩ := ok_of_bind h
    cases h
    refine ⟨decide (op.Holds (t.value z s b) (u.value z s b)), ?_, decide_eq_true_iff⟩
    simp only [Expr.value?, Term.ofExpr_value ht b, Term.ofExpr_value hu b]; rfl
  | case4 span e e' ih ih' =>
    obtain ⟨p, hp, h⟩ := ok_of_bind h
    obtain ⟨q, hq, h⟩ := ok_of_bind h
    obtain ⟨v, hv, hvp⟩ := ih hp
    obtain ⟨w, hw, hwq⟩ := ih' hq
    cases h
    refine ⟨v && w, by simp only [Expr.value?, hv, hw]; rfl, ?_⟩
    simp [Pred.Holds, Connective.Joins, ← hvp, ← hwq]
  | case5 span e e' ih ih' =>
    obtain ⟨p, hp, h⟩ := ok_of_bind h
    obtain ⟨q, hq, h⟩ := ok_of_bind h
    obtain ⟨v, hv, hvp⟩ := ih hp
    obtain ⟨w, hw, hwq⟩ := ih' hq
    cases h
    refine ⟨v || w, by simp only [Expr.value?, hv, hw]; rfl, ?_⟩
    simp [Pred.Holds, Connective.Joins, ← hvp, ← hwq]
  | _ => cases h

theorem Pred.ofExpr_value_true {e : Expr} {p : Pred} (h : Pred.ofExpr e = .ok p) (b : State) :
    e.value? z s = some (.bool true) ↔ p.Holds z s b := by
  obtain ⟨v, hv, hvp⟩ := Pred.ofExpr_value h b
  rw [hv, ← hvp]; simp

theorem Pred.ofExpr_value_false {e : Expr} {p : Pred} (h : Pred.ofExpr e = .ok p) (b : State) :
    e.value? z s = some (.bool false) ↔ ¬ p.Holds z s b := by
  obtain ⟨v, hv, hvp⟩ := Pred.ofExpr_value h b
  rw [hv, ← hvp]; simp

end

theorem Term.keys_ofExpr {e : Expr} {t : Term} (h : Term.ofExpr e = .ok t) : t.keys = e.keys := by
  fun_induction Term.ofExpr e generalizing t with
  | case1 | case2 => cases h; rfl
  | case3 span e ih =>
    obtain ⟨u, hu, h⟩ := ok_of_bind h
    cases h
    rw [Term.keys_neg, ih hu]; rfl
  | case4 span e op e' ih ih' =>
    obtain ⟨u, hu, h⟩ := ok_of_bind h
    obtain ⟨v, hv, h⟩ := ok_of_bind h
    cases h
    rw [Term.keys_arith, ih hu, ih' hv]
    simp [Expr.keys, Expr.names]
  | _ => cases h

theorem Pred.keys_ofExpr {e : Expr} {p : Pred} (h : Pred.ofExpr e = .ok p) : p.keys = e.keys := by
  fun_induction Pred.ofExpr e generalizing p with
  | case1 => cases h; rfl
  | case2 span e ih =>
    obtain ⟨q, hq, h⟩ := ok_of_bind h
    cases h
    rw [Pred.keys_neg, ih hq]; rfl
  | case3 span e op e' =>
    obtain ⟨t, ht, h⟩ := ok_of_bind h
    obtain ⟨u, hu, h⟩ := ok_of_bind h
    cases h
    rw [Pred.keys_rel, Term.keys_ofExpr ht, Term.keys_ofExpr hu]
    simp [Expr.keys, Expr.names]
  | case4 span e e' ih ih' | case5 span e e' ih ih' =>
    obtain ⟨p, hp, h⟩ := ok_of_bind h
    obtain ⟨q, hq, h⟩ := ok_of_bind h
    cases h
    rw [Pred.keys_conn, ih hp, ih' hq]
    simp [Expr.keys, Expr.names]
  | _ => cases h

theorem Expr.map_name_keys (e : Expr) : e.keys.map Key.name = e.names := by
  simp [Expr.keys, Function.comp_def]

theorem Term.names_ofExpr {e : Expr} {t : Term} (h : Term.ofExpr e = .ok t) :
    t.keys.map Key.name = e.names := by
  rw [Term.keys_ofExpr h, e.map_name_keys]

theorem Pred.names_ofExpr {e : Expr} {p : Pred} (h : Pred.ofExpr e = .ok p) : p.names = e.names := by
  rw [Pred.names, Pred.keys_ofExpr h, e.map_name_keys]

/-! ## Statements -/

/-- How an execution ends: in a state, or at an assert that is false. -/
inductive Ending where
  | done (s : State)
  | failed

namespace Ending

/-- A final state satisfies `Q`; a failure is owed to `F`. -/
def Meets (Q : State → Prop) (F : Prop) : Ending → Prop
  | done s => Q s
  | failed => F

theorem Meets.imp {Q Q' : State → Prop} {F F' : Prop} {r : Ending} (h : r.Meets Q F)
    (hQ : ∀ s, Q s → Q' s) (hF : F → F') : r.Meets Q' F' := by
  cases r with
  | done s => exact hQ s h
  | failed => exact hF h

end Ending

inductive Stmt.Exec (z : ByZero) : Stmt → State → Ending → Prop
  | assign {span x e s v} : e.value? z s = some (.int v) →
      Exec z (.assign span x e) s (.done (s.set x v))
  | localInit {span x e s v} : e.value? z s = some (.int v) →
      Exec z (.localDef span x (some e)) s (.done (s.set x v))
  | localAny {span x s} (v : Int) : Exec z (.localDef span x none) s (.done (s.set x v))
  | skip {span s} : Exec z (.skip span) s (.done s)
  | block {span a s r} : Exec z a s r → Exec z (.block span a) s r
  | seq {span a b s m r} : Exec z a s (.done m) → Exec z b m r → Exec z (.seq span a b) s r
  | seqFailed {span a b s} : Exec z a s .failed → Exec z (.seq span a b) s .failed
  | iteTrue {span c a b s r} : c.value? z s = some (.bool true) → Exec z a s r →
      Exec z (.ite span c a b) s r
  | iteFalse {span c a b s r} : c.value? z s = some (.bool false) → Exec z b s r →
      Exec z (.ite span c a b) s r
  | assume {span c s} : c.value? z s = some (.bool true) → Exec z (.assume span c) s (.done s)
  | assert {span c s} : c.value? z s = some (.bool true) → Exec z (.assert span c) s (.done s)
  | assertFailed {span c s} : c.value? z s = some (.bool false) → Exec z (.assert span c) s .failed
  | loopExit {span c i a s} : c.value? z s = some (.bool false) → Exec z (.loop span c i a) s (.done s)
  | loopNext {span c i a s m r} : c.value? z s = some (.bool true) → Exec z a s (.done m) →
      Exec z (.loop span c i a) m r → Exec z (.loop span c i a) s r
  | loopFailed {span c i a s} : c.value? z s = some (.bool true) → Exec z a s .failed →
      Exec z (.loop span c i a) s .failed
  | call {span f es s} (r : Ending) : Exec z (.call span f es) s r

/-! ## Classes of statements -/

namespace Stmt

def Plain : Stmt → Prop
  | seq _ a b | ite _ _ a b => a.Plain ∧ b.Plain
  | block _ a => a.Plain
  | loop .. | call .. => False
  | assign .. | localDef .. | skip _ | assume .. | assert .. => True

/-- There is a rule for every part: no calls, and no loop without an invariant. -/
def HasRules : Stmt → Prop
  | seq _ a b | ite _ _ a b => a.HasRules ∧ b.HasRules
  | block _ a => a.HasRules
  | loop _ _ i a => i.isSome ∧ a.HasRules
  | call .. => False
  | assign .. | localDef .. | skip _ | assume .. | assert .. => True

/-- No conditional has a branch that writes a variable of the guard. -/
def KeepsGuards : Stmt → Prop
  | seq _ a b => a.KeepsGuards ∧ b.KeepsGuards
  | ite _ c a b =>
    (∀ x ∈ c.names, x ∉ a.assignedVars ∧ x ∉ b.assignedVars) ∧ a.KeepsGuards ∧ b.KeepsGuards
  | block _ a | loop _ _ _ a => a.KeepsGuards
  | assign .. | localDef .. | skip _ | assume .. | assert .. | call .. => True

theorem Plain.hasRules {a : Stmt} (h : a.Plain) : a.HasRules := by
  induction a with
  | seq _ a b iha ihb | ite _ _ a b iha ihb => exact ⟨iha h.1, ihb h.2⟩
  | block _ a ih => exact ih h
  | loop | call => exact h.elim
  | _ => trivial

theorem targets_subset_names {a : Stmt} {x : String} (h : x ∈ a.targets) : x ∈ a.names := by
  induction a with
  | assign | localDef => simp_all [targets, names]
  | seq _ a b iha ihb =>
    rw [targets, List.mem_append] at h
    exact List.mem_append.mpr (h.imp iha ihb)
  | ite _ c a b iha ihb =>
    rw [targets, List.mem_append] at h
    rw [names, List.append_assoc]
    exact List.mem_append_right _ (List.mem_append.mpr (h.imp iha ihb))
  | block _ a ih => exact ih h
  | loop _ _ _ a ih => exact List.mem_append_right _ (ih h)
  | skip | assert | assume | call => cases h

/-! ## What executions change and depend on -/

variable {z : ByZero}

theorem Exec.frame {a : Stmt} {s s' : State} (h : a.Exec z s (.done s')) (ha : a.HasRules) {x : String}
    (hx : x ∉ a.targets) : s' x = s x := by
  generalize hr : Ending.done s' = r at h
  induction h generalizing s' with
  | assign | localInit | localAny =>
    cases hr
    exact State.set_of_ne _ _ (by simpa [targets] using hx)
  | skip | assume | assert | loopExit => cases hr; rfl
  | block _ ih => exact ih ha hx hr
  | seq _ _ iha ihb =>
    simp only [targets, List.mem_append, not_or] at hx
    rw [ihb ha.2 hx.2 hr, iha ha.1 hx.1 rfl]
  | iteTrue _ _ ih =>
    simp only [targets, List.mem_append, not_or] at hx
    exact ih ha.1 hx.1 hr
  | iteFalse _ _ ih =>
    simp only [targets, List.mem_append, not_or] at hx
    exact ih ha.2 hx.2 hr
  | loopNext _ _ _ iha ihl => rw [ihl ha hx hr, iha ha.2 hx rfl]
  | seqFailed | assertFailed | loopFailed => cases hr
  | call => exact ha.elim

theorem Exec.guard_eq {c : Expr} {a : Stmt} {s s' : State} (h : a.Exec z s (.done s')) (ha : a.HasRules)
    (hc : ∀ x ∈ c.names, x ∉ a.assignedVars) : c.value? z s' = c.value? z s :=
  Expr.value?_congr fun x hx => h.frame ha (by simpa [assignedVars] using hc x hx)

theorem Exec.guard_holds_iff {c : Expr} {p : Pred} {a : Stmt} {s s' : State} (h : a.Exec z s (.done s'))
    (ha : a.HasRules) (hc : ∀ x ∈ c.names, x ∉ a.assignedVars) (hp : Pred.ofExpr c = .ok p) (b b' : State) :
    p.Holds z s' b ↔ p.Holds z s b' := by
  rw [← Pred.ofExpr_value_true hp b, ← Pred.ofExpr_value_true hp b', h.guard_eq ha hc]

end Stmt

def Ending.onto (l : List String) (t : State) : Ending → Ending
  | done s => done (State.onto l s t)
  | failed => failed

namespace Stmt
variable {z : ByZero}

/-- Names that do not occur in a statement may have any values. -/
theorem Exec.onto {a : Stmt} {s : State} {r : Ending} (h : a.Exec z s r) {l : List String}
    (hl : ∀ x ∈ a.names, x ∈ l) (t : State) : a.Exec z (State.onto l s t) (r.onto l t) := by
  have read {e : Expr} {s : State} {v : Value} (he : ∀ x ∈ e.names, x ∈ l)
      (h : e.value? z s = some v) : e.value? z (State.onto l s t) = some v := by
    rw [← h]
    exact Expr.value?_congr fun x hx => State.onto_of_mem s t (he x hx)
  induction h with
  | assign hv | localInit hv =>
    obtain ⟨hx, he⟩ := List.forall_mem_cons.mp hl
    rw [Ending.onto, State.onto_set _ _ hx]
    constructor
    exact read he hv
  | localAny v =>
    rw [Ending.onto, State.onto_set _ _ (hl _ (by simp [names]))]
    exact .localAny v
  | skip => exact .skip
  | block _ ih => exact .block (ih hl)
  | seq _ _ iha ihb =>
    simp only [names, List.forall_mem_append] at hl
    exact .seq (iha hl.1) (ihb hl.2)
  | seqFailed _ ih =>
    simp only [names, List.forall_mem_append] at hl
    exact .seqFailed (ih hl.1)
  | iteTrue hc _ ih =>
    simp only [names, List.forall_mem_append] at hl
    exact .iteTrue (read hl.1.1 hc) (ih hl.1.2)
  | iteFalse hc _ ih =>
    simp only [names, List.forall_mem_append] at hl
    exact .iteFalse (read hl.1.1 hc) (ih hl.2)
  | assume hc => exact .assume (read hl hc)
  | assert hc => exact .assert (read hl hc)
  | assertFailed hc => exact .assertFailed (read hl hc)
  | loopExit hc =>
    simp only [names, List.forall_mem_append] at hl
    exact .loopExit (read hl.1.1 hc)
  | loopNext hc _ _ iha ihl =>
    have hl' := hl
    simp only [names, List.forall_mem_append] at hl'
    exact .loopNext (read hl'.1.1 hc) (iha hl'.2) (ihl hl)
  | loopFailed hc _ ih =>
    simp only [names, List.forall_mem_append] at hl
    exact .loopFailed (read hl.1.1 hc) (ih hl.2)
  | call r => exact .call _

/-- What one round of a loop preserves holds when the loop is left, with the guard
false. A loop fails only in a round that starts from such a state. -/
theorem Exec.loop_rule {span : Span} {c : Expr} {i : Option Pred} {a : Stmt} {s : State} {r : Ending}
    {I : State → Prop} {F : Prop} (h : (Stmt.loop span c i a).Exec z s r) (hs : I s)
    (round : ∀ s r, I s → c.value? z s = some (.bool true) → a.Exec z s r → r.Meets I F) :
    r.Meets (fun s' => I s' ∧ c.value? z s' = some (.bool false)) F := by
  generalize hw : Stmt.loop span c i a = w at h
  induction h with
  | loopExit hc => cases hw; exact ⟨hs, hc⟩
  | loopNext hc hb _ _ ih => cases hw; exact ih (round _ _ hs hc hb) rfl
  | loopFailed hc hb => cases hw; exact round _ _ hs hc hb
  | _ => cases hw

end Stmt

end StrongestPost
