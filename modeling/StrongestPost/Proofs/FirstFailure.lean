import StrongestPost.Calculus.Report

/-!
# The first failure

Whether a run fails, and how, can be read off the statement. `Stmt.visits` lists what
a walk looks at from left to right: the level of every statement but a sequence, the
expressions that are read, the statements that have no rule. A visit fails or it does
not, whatever is known at that point, and a run ends at the first one that fails.
-/

namespace StrongestPost

inductive Visit where
  | level (depth : Nat) (span : Span)
  | term (e : Expr)
  | pred (e : Expr)
  | noRule (kind : Stmt.Kind) (span : Span)

def Visit.failure? (policy : Unsupported) (limit : UInt64) : Visit → Option Error
  | level depth span => if limit.toNat ≤ depth then some (.tooDeep limit span) else none
  | term e =>
    match Term.ofExpr e with
    | .ok _ => none
    | .error m => some (.illSorted m)
  | pred e =>
    match Pred.ofExpr e with
    | .ok _ => none
    | .error m => some (.illSorted m)
  | noRule kind span =>
    match policy with
    | .reject => some (.unsupported kind span)
    | .passThrough => none

namespace Stmt

/-- What a walk that enters the statement at a level looks at. The parts of a sequence
stand at the level of the sequence. -/
def visits : Stmt → (depth : Nat) → List Visit
  | seq _ a b, n => a.visits n ++ b.visits n
  | skip s, n => [.level n s]
  | block s a, n => .level n s :: a.visits (n + 1)
  | assign s _ e, n | localDef s _ (some e), n => [.level n s, .term e]
  | localDef s _ none, n => [.level n s]
  | ite s c a b, n => .level n s :: .pred c :: (a.visits (n + 1) ++ b.visits (n + 1))
  | assume s c, n | assert s c, n => [.level n s, .pred c]
  | loop s c (some _) a, n => .level n s :: .pred c :: a.visits (n + 1)
  | loop s _ none _, n => [.level n s, .noRule .loop s]
  | call s _ _, n => [.level n s, .noRule .call s]

def firstFailure (policy : Unsupported) (limit : UInt64) (a : Stmt) : Option Error :=
  (a.visits 0).findSome? (Visit.failure? policy limit)

/-- How many levels are entered, one inside the other. -/
def nesting : Stmt → Nat
  | seq _ a b => max a.nesting b.nesting
  | ite _ _ a b => max a.nesting b.nesting + 1
  | block _ a | loop _ _ (some _) a => a.nesting + 1
  | loop _ _ none _ | skip _ | assign .. | localDef .. | assume .. | assert .. | call .. => 1

end Stmt

/-! ## Failures of walks -/

def Outcome.error? {α : Type} (o : Outcome α) : Option Error :=
  match o.result with
  | .ok _ => none
  | .error e => some e

theorem Outcome.error?_eq_some {α : Type} {o : Outcome α} {e : Error} :
    o.error? = some e ↔ o.result = .error e := by
  unfold Outcome.error?
  cases o.result <;> simp

theorem Outcome.error?_eq_none {α : Type} {o : Outcome α} :
    o.error? = none ↔ ∃ a, o.result = .ok a := by
  unfold Outcome.error?
  cases o.result <;> simp

theorem Outcome.same_error_or_ok {α β : Type} {o : Outcome α} {o' : Outcome β}
    (h : o.error? = o'.error?) :
    (∃ e, o.result = .error e ∧ o'.result = .error e) ∨ ∃ a b, o.result = .ok a ∧ o'.result = .ok b := by
  cases he : o'.error? with
  | some e => exact .inl ⟨e, error?_eq_some.mp (h.trans he), error?_eq_some.mp he⟩
  | none =>
    obtain ⟨a, ha⟩ := error?_eq_none.mp (h.trans he)
    obtain ⟨b, hb⟩ := error?_eq_none.mp he
    exact .inr ⟨a, b, ha, hb⟩

namespace Walk
variable {α β : Type}

/-- The walk fails with this error, or does not fail, whatever names are taken. -/
def FailsAs (w : Walk α) (e? : Option Error) : Prop := ∀ f, (w f).error? = e?

theorem FailsAs.bind {w : Walk α} {k : α → Walk β} {e? e'? : Option Error} (hw : w.FailsAs e?)
    (hk : ∀ a, (k a).FailsAs e'?) : (w >>= k).FailsAs (e?.or e'?) := by
  intro f
  have hwf := hw f
  show (w f >>= fun r => k r.1 r.2).error? = _
  cases ho : w f with
  | mk notes r =>
    rw [ho] at hwf
    cases r with
    | error e => rw [← hwf]; rfl
    | ok r =>
      rw [← hwf]
      exact hk r.1 r.2

theorem FailsAs.silent {w : Walk α} {k : α → Walk β} {e? : Option Error} (hw : w.FailsAs e?)
    (hk : ∀ a, (k a).FailsAs none) : (w >>= k).FailsAs e? := by
  have h := hw.bind hk
  rwa [Option.or_none] at h

theorem FailsAs.visit {w : Walk α} {k : α → Walk β} {fails : Visit → Option Error} {v : Visit}
    {vs : List Visit} (hw : w.FailsAs (fails v)) (hk : ∀ a, (k a).FailsAs (vs.findSome? fails)) :
    (w >>= k).FailsAs ((v :: vs).findSome? fails) := by
  have h := hw.bind hk
  rw [List.findSome?_cons]
  cases hv : fails v with
  | none => rwa [hv] at h
  | some e => rwa [hv] at h

theorem FailsAs.append {w : Walk α} {k : α → Walk β} {fails : Visit → Option Error}
    {vs vs' : List Visit} (hw : w.FailsAs (vs.findSome? fails))
    (hk : ∀ a, (k a).FailsAs (vs'.findSome? fails)) :
    (w >>= k).FailsAs ((vs ++ vs').findSome? fails) := by
  rw [List.findSome?_append]
  exact hw.bind hk

theorem failsAs_pure (a : α) : (pure a : Walk α).FailsAs none := fun _ => rfl

theorem failsAs_note (n : Note) : (liftM (Outcome.note n) : Walk Unit).FailsAs none := fun _ => rfl

theorem failsAs_fail (e : Error) : (liftM (Outcome.fail e : Outcome α) : Walk α).FailsAs (some e) :=
  fun _ => rfl

theorem failsAs_freshName (base : String) (avoid : Pred) : (freshName base avoid).FailsAs none :=
  fun _ => rfl

theorem failsAs_havocs (xs : List String) (p : Pred) :
    (xs.foldlM (fun p x => havoc x p) p).FailsAs none := by
  induction xs generalizing p with
  | nil => exact failsAs_pure p
  | cons x xs ih =>
    rw [List.foldlM_cons]
    have hx : (havoc x p).FailsAs none := (failsAs_freshName x p).bind fun y => failsAs_pure (p.rename x y)
    exact hx.bind ih

section
variable (policy : Unsupported) (limit : UInt64)

theorem failsAs_term (e : Expr) : (term e).FailsAs ((Visit.term e).failure? policy limit) := by
  refine (failsAs_note _).bind fun _ => ?_
  cases Term.ofExpr e with
  | ok t => exact failsAs_pure t
  | error m => exact failsAs_fail _

theorem failsAs_pred (e : Expr) : (pred e).FailsAs ((Visit.pred e).failure? policy limit) := by
  refine (failsAs_note _).bind fun _ => ?_
  cases Pred.ofExpr e with
  | ok p => exact failsAs_pure p
  | error m => exact failsAs_fail _

theorem failsAs_assignment (x : String) (e : Expr) (p : Pred) :
    (assignment x e p).FailsAs ([Visit.term e].findSome? (Visit.failure? policy limit)) := by
  refine (failsAs_freshName x p).bind fun y => ?_
  exact (failsAs_term policy limit e).visit fun t => failsAs_pure _

end

theorem failsAs_enter (c : Config) (depth : Nat) (kind : Stmt.Kind) (span : Span) :
    (enter c depth kind span).FailsAs ((Visit.level depth span).failure? c.unsupported c.maxDepth) := by
  unfold enter Visit.failure?
  by_cases h : c.maxDepth.toNat ≤ depth
  · simp only [h, if_true]; exact failsAs_fail _
  · simp only [h, if_false]; exact failsAs_note _

theorem failsAs_withoutRule (c : Config) (kind : Stmt.Kind) (span : Span) (p : Pred) :
    (withoutRule c kind span p).FailsAs
      ([Visit.noRule kind span].findSome? (Visit.failure? c.unsupported c.maxDepth)) := by
  rw [List.findSome?_singleton]
  unfold withoutRule Visit.failure?
  cases c.unsupported with
  | reject => exact failsAs_fail _
  | passThrough => exact (failsAs_note _).bind fun _ => failsAs_pure p

end Walk

section
open Walk

/-- A walk fails as the first of its visits that fails, for every precondition. -/
theorem Stmt.sp_failsAs (c : Config) (a : Stmt) (depth : Nat) (goesOn : Bool) (pre : Pred) :
    (a.sp c depth goesOn pre).FailsAs
      ((a.visits depth).findSome? (Visit.failure? c.unsupported c.maxDepth)) := by
  induction a generalizing depth goesOn pre with
  | seq span a b iha ihb =>
    rw [Stmt.sp, visits]
    have hab : (a.sp c depth false pre >>= b.sp c depth true).FailsAs
        ((a.visits depth ++ b.visits depth).findSome? (Visit.failure? c.unsupported c.maxDepth)) :=
      (iha depth false pre).append (ihb depth true)
    cases goesOn with
    | true => exact hab
    | false => exact (failsAs_note _).bind fun _ => hab
  | skip span =>
    rw [Stmt.sp, visits]
    exact (failsAs_enter c depth _ span).visit fun _ => failsAs_pure pre
  | block span a ih =>
    rw [Stmt.sp, visits]
    exact (failsAs_enter c depth _ span).visit fun _ => ih (depth + 1) false pre
  | assign span x e =>
    rw [Stmt.sp, visits]
    exact (failsAs_enter c depth _ span).visit fun _ => failsAs_assignment _ _ x e pre
  | localDef span x init =>
    cases init with
    | some e =>
      rw [Stmt.sp, visits]
      exact (failsAs_enter c depth _ span).visit fun _ => failsAs_assignment _ _ x e pre
    | none =>
      rw [Stmt.sp, visits]
      exact (failsAs_enter c depth _ span).visit fun _ => failsAs_havocs [x] pre
  | ite span e a b iha ihb =>
    rw [Stmt.sp, visits]
    refine (failsAs_enter c depth _ span).visit fun _ => (failsAs_pred _ _ e).visit fun guard => ?_
    cases c.conditional with
    | outside =>
      refine (iha (depth + 1) false pre).append fun p => ?_
      exact (ihb (depth + 1) false pre).silent fun q => failsAs_pure _
    | onEntry =>
      refine (iha (depth + 1) false _).append fun p => ?_
      exact (ihb (depth + 1) false _).silent fun q => failsAs_pure _
  | assume span e =>
    rw [Stmt.sp, visits]
    exact (failsAs_enter c depth _ span).visit fun _ => (failsAs_pred _ _ e).visit fun guard => failsAs_pure _
  | assert span e =>
    rw [Stmt.sp, visits]
    refine (failsAs_enter c depth _ span).visit fun _ => (failsAs_pred _ _ e).visit fun guard => ?_
    exact (failsAs_note _).bind fun _ => failsAs_pure _
  | loop span e i a ih =>
    cases i with
    | none =>
      rw [Stmt.sp, visits]
      exact (failsAs_enter c depth _ span).visit fun _ => failsAs_withoutRule c .loop span pre
    | some inv =>
      rw [Stmt.sp, visits]
      refine (failsAs_enter c depth _ span).visit fun _ => (failsAs_pred _ _ e).visit fun guard => ?_
      refine (failsAs_note _).bind fun _ => (ih (depth + 1) false _).silent fun post => ?_
      refine (failsAs_note _).bind fun _ => (failsAs_havocs a.assignedVars pre).bind fun frame => ?_
      exact failsAs_pure _
  | call span callee args =>
    rw [Stmt.sp, visits]
    exact (failsAs_enter c depth _ span).visit fun _ => failsAs_withoutRule c .call span pre

end

theorem Config.run_error? (c : Config) (a : Stmt) (pre : Pred) (reserved : List String) :
    (c.run a pre reserved).error? = a.firstFailure c.unsupported c.maxDepth := by
  rw [Stmt.firstFailure, ← a.sp_failsAs c 0 false pre (Fresh.reserve { separator := c.separator } reserved)]
  unfold Config.run
  cases a.sp c 0 false pre (Fresh.reserve { separator := c.separator } reserved) with
  | mk notes r => cases r <;> rfl

/-! ## Nesting -/

namespace Stmt

theorem lt_nesting_of_visit {a : Stmt} {n depth : Nat} {span : Span}
    (h : .level depth span ∈ a.visits n) : depth < n + a.nesting := by
  induction a generalizing n with
  | seq _ a b iha ihb =>
    rw [visits, List.mem_append] at h
    rw [nesting]
    rcases h with h | h
    · have := iha h; omega
    · have := ihb h; omega
  | ite _ _ a b iha ihb =>
    simp only [visits, List.mem_cons, List.mem_append, reduceCtorEq, false_or, Visit.level.injEq] at h
    rw [nesting]
    rcases h with h | h | h
    · omega
    · have := iha h; omega
    · have := ihb h; omega
  | block _ a ih =>
    simp only [visits, List.mem_cons, Visit.level.injEq] at h
    rw [nesting]
    rcases h with h | h
    · omega
    · have := ih h; omega
  | loop _ _ i a ih =>
    cases i with
    | none => simp [visits] at h; simp [nesting, h]
    | some inv =>
      simp only [visits, List.mem_cons, reduceCtorEq, false_or, Visit.level.injEq] at h
      rw [nesting]
      rcases h with h | h
      · omega
      · have := ih h; omega
  | localDef _ _ i => cases i <;> simp_all [visits, nesting]
  | skip | assign | assume | assert | call => simp_all [visits, nesting]

/-- Some statement stands at the innermost level. -/
theorem exists_visit_nesting (a : Stmt) (n : Nat) :
    ∃ depth span, .level depth span ∈ a.visits n ∧ depth + 1 = n + a.nesting := by
  induction a generalizing n with
  | seq _ a b iha ihb =>
    rw [visits, nesting]
    by_cases hab : a.nesting ≤ b.nesting
    · obtain ⟨d, s, hv, hd⟩ := ihb n
      exact ⟨d, s, List.mem_append_right _ hv, by omega⟩
    · obtain ⟨d, s, hv, hd⟩ := iha n
      exact ⟨d, s, List.mem_append_left _ hv, by omega⟩
  | ite _ _ a b iha ihb =>
    rw [visits, nesting]
    by_cases hab : a.nesting ≤ b.nesting
    · obtain ⟨d, s, hv, hd⟩ := ihb (n + 1)
      exact ⟨d, s, .tail _ (.tail _ (List.mem_append_right _ hv)), by omega⟩
    · obtain ⟨d, s, hv, hd⟩ := iha (n + 1)
      exact ⟨d, s, .tail _ (.tail _ (List.mem_append_left _ hv)), by omega⟩
  | block _ a ih =>
    obtain ⟨d, s, hv, hd⟩ := ih (n + 1)
    exact ⟨d, s, .tail _ hv, by rw [nesting]; omega⟩
  | loop span _ i a ih =>
    cases i with
    | none => exact ⟨n, span, .head _, rfl⟩
    | some inv =>
      obtain ⟨d, s, hv, hd⟩ := ih (n + 1)
      exact ⟨d, s, .tail _ (.tail _ hv), by rw [nesting]; omega⟩
  | localDef span _ i => cases i <;> exact ⟨n, span, .head _, rfl⟩
  | skip span | assign span | assume span | assert span | call span => exact ⟨n, span, .head _, rfl⟩

theorem firstFailure_tooDeep {a : Stmt} {policy : Unsupported} {limit l : UInt64} {span : Span}
    (h : a.firstFailure policy limit = some (.tooDeep l span)) : l = limit ∧ limit.toNat < a.nesting := by
  obtain ⟨v, hv, hfail⟩ := List.exists_of_findSome?_eq_some h
  cases v with
  | level depth s =>
    rw [Visit.failure?] at hfail
    by_cases hd : limit.toNat ≤ depth
    · rw [if_pos hd] at hfail
      cases hfail
      have := lt_nesting_of_visit hv
      exact ⟨rfl, by omega⟩
    · rw [if_neg hd] at hfail
      cases hfail
  | term e | pred e =>
    rw [Visit.failure?] at hfail
    split at hfail <;> cases hfail
  | noRule kind s => cases policy <;> cases hfail

theorem nesting_le_of_firstFailure {a : Stmt} {policy : Unsupported} {limit : UInt64}
    (h : a.firstFailure policy limit = none) : a.nesting ≤ limit.toNat := by
  obtain ⟨depth, span, hv, hdepth⟩ := a.exists_visit_nesting 0
  have hfail := List.findSome?_eq_none_iff.mp h _ hv
  rw [Visit.failure?] at hfail
  by_cases hd : limit.toNat ≤ depth
  · rw [if_pos hd] at hfail; cases hfail
  · omega

end Stmt

/-- **First failure.** A run ends with the error of the first visit that fails, and
succeeds if none does; the precondition, the separator and the conditional rule have no
say. Only levels that are nested, and never a sequence, are too deep, and a run that
succeeds has kept all of them below the limit. -/
theorem Config.transform_first_failure (c : Config) (a : Stmt) (pre : Pred) :
    (∀ e, (c.transform a pre).result = .error e ↔ a.firstFailure c.unsupported c.maxDepth = some e) ∧
    ((∃ t, (c.transform a pre).result = .ok t) ↔ a.firstFailure c.unsupported c.maxDepth = none) ∧
    (∀ limit span, (c.transform a pre).result = .error (.tooDeep limit span) →
      limit = c.maxDepth ∧ c.maxDepth.toNat < a.nesting) ∧
    ((∃ t, (c.transform a pre).result = .ok t) → a.nesting ≤ c.maxDepth.toNat) := by
  have hrun : (c.transform a pre).error? = a.firstFailure c.unsupported c.maxDepth :=
    c.run_error? a pre _
  have herror : ∀ e, (c.transform a pre).result = .error e ↔
      a.firstFailure c.unsupported c.maxDepth = some e := fun e => by
    rw [← Outcome.error?_eq_some, hrun]
  have hok : (∃ t, (c.transform a pre).result = .ok t) ↔
      a.firstFailure c.unsupported c.maxDepth = none := by
    rw [← Outcome.error?_eq_none, hrun]
  refine ⟨herror, hok, fun limit span h => ?_, fun h => ?_⟩
  · exact Stmt.firstFailure_tooDeep ((herror _).mp h)
  · exact Stmt.nesting_le_of_firstFailure (hok.mp h)

end StrongestPost
