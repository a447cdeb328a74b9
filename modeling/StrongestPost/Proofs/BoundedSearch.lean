import StrongestPost.Proofs.Boxes
import StrongestPost.Proofs.Evaluation

/-!
# Bounded search is exact

A check gives the first valuation of the box at which the predicate is not true, and a search
for a model the first one at which it is not false; an error there is the error of the whole.
The two are one scan: a model of `!p` is a counterexample to `p`. A comparison of two
predicates on some visible keys says whether the same valuations of these keys can be
extended to models of both.
-/

namespace StrongestPost

/-! ## Keys and negation -/

theorem Pred.pairwise_freeKeys (p : Pred) : p.freeKeys.Pairwise (· < ·) := pairwise_inOrder p.keys

theorem Pred.freeKeys_not (p : Pred) : p.not.freeKeys = p.freeKeys := rfl

theorem Pred.eval_not (p : Pred) (env : Valuation) : p.not.eval env = (p.eval env).map (!·) := by
  change (p.eval env >>= fun r => .ok !r) = _
  cases p.eval env <;> rfl

theorem Pred.eval_not_eq_ok {p : Pred} {env : Valuation} {r : Bool} :
    p.not.eval env = .ok r ↔ p.eval env = .ok !r := by
  rw [eval_not]
  cases p.eval env with
  | error e => simp [Except.map]
  | ok r' => cases r <;> cases r' <;> simp [Except.map]

namespace Bound

/-! ## Checks -/

/-- The first valuation of the box with `P`. -/
def First (n : Bound) (keys : List Key) (P : Valuation → Prop) (env : Valuation) : Prop :=
  n.InBox keys env ∧ P env ∧ ∀ env', n.InBox keys env' → env'.Earlier env → ¬ P env'

theorem InBox.eval_ne_unbound {n : Bound} {keys : List Key} {env : Valuation} {p : Pred}
    (h : n.InBox keys env) (hp : ∀ k ∈ p.freeKeys, k ∈ keys) (x : String) :
    p.eval env ≠ .error (.unbound x) := by
  intro he
  obtain ⟨k, hk, hnone⟩ := Pred.unbound_of_eval he
  obtain ⟨v, hv⟩ := (h.1 k).mpr (hp k (mem_inOrder.mpr hk))
  rw [hnone] at hv
  cases hv

section
variable {p : Pred} {env env' : Valuation}

theorem check.visit_eq_none : check.visit p env = none ↔ p.eval env = .ok true := by
  unfold check.visit
  split <;> simp_all

theorem check.visit_eq_refuted :
    check.visit p env = some (.ok (.refuted env')) ↔ p.eval env = .ok false ∧ env = env' := by
  unfold check.visit
  split <;> simp_all

theorem check.visit_eq_error {e : EvalError} :
    check.visit p env = some (.error e) ↔ p.eval env = .error e := by
  unfold check.visit
  split <;> simp_all

theorem check.visit_ne_valid : check.visit p env ≠ some (.ok .valid) := by
  unfold check.visit
  split <;> simp

end

section
variable (n : Bound) (p : Pred)

theorem check_eq_valid :
    n.check p = .ok .valid ↔ ∀ env, n.InBox p.freeKeys env → p.eval env = .ok true := by
  simp only [← check.visit_eq_none, ← over_empty, ← search_eq_none]
  unfold check
  cases hs : n.search (check.visit p) p.freeKeys .empty with
  | none => simp
  | some r =>
    obtain ⟨env, -, hr⟩ := search_mem hs
    have hne : r ≠ .ok .valid := fun h => check.visit_ne_valid (h ▸ hr)
    simp [hne]

theorem check_eq_iff {r : Except EvalError Verdict} (hr : r ≠ .ok .valid) :
    n.check p = r ↔ ∃ env, n.First p.freeKeys (p.eval · ≠ .ok true) env ∧ check.visit p env = some r := by
  have hcheck : n.check p = r ↔ n.search (check.visit p) p.freeKeys .empty = some r := by
    unfold check
    cases n.search (check.visit p) p.freeKeys .empty with
    | none => simp [Ne.symm hr]
    | some r' => simp
  rw [hcheck, search_eq_some p.pairwise_freeKeys]
  simp only [over_empty, check.visit_eq_none]
  constructor
  · rintro ⟨env, henv, hvisit, hfirst⟩
    refine ⟨env, ⟨henv, fun h => ?_, fun env' henv' he => not_not_intro (hfirst env' henv' he)⟩, hvisit⟩
    rw [check.visit_eq_none.mpr h] at hvisit
    cases hvisit
  · rintro ⟨env, ⟨henv, -, hfirst⟩, hvisit⟩
    exact ⟨env, henv, hvisit, fun env' henv' he => not_not.mp (hfirst env' henv' he)⟩

theorem check_eq_refuted (env : Valuation) : n.check p = .ok (.refuted env) ↔
    n.First p.freeKeys (p.eval · ≠ .ok true) env ∧ p.eval env = .ok false := by
  rw [check_eq_iff n p (by simp)]
  simp only [check.visit_eq_refuted]
  constructor
  · rintro ⟨env', hfirst, hfalse, rfl⟩
    exact ⟨hfirst, hfalse⟩
  · rintro ⟨hfirst, hfalse⟩
    exact ⟨env, hfirst, hfalse, rfl⟩

theorem check_eq_error (e : EvalError) : n.check p = .error e ↔
    ∃ env, n.First p.freeKeys (p.eval · ≠ .ok true) env ∧ p.eval env = .error e := by
  rw [check_eq_iff n p (by simp)]
  simp only [check.visit_eq_error]

end

/-! ## Models -/

def Verdict.counterexample? : Verdict → Option Valuation
  | valid => none
  | refuted env => some env

/-- A model of `q` is a counterexample to `p` where `q` says the contrary of `p`. -/
theorem findModel_eq_check {p q : Pred} (n : Bound) (hkeys : q.freeKeys = p.freeKeys)
    (heval : ∀ env, q.eval env = (p.eval env).map (!·)) :
    n.findModel q = (n.check p).map Verdict.counterexample? := by
  have hvisit : extend.visit q = fun env =>
      (check.visit p env).map (Except.map Verdict.counterexample?) := by
    funext env
    unfold extend.visit check.visit
    rw [heval]
    rcases p.eval env with e | (_ | _) <;> rfl
  unfold findModel extend check
  rw [hvisit, search_map, hkeys]
  cases n.search (check.visit p) p.freeKeys .empty <;> rfl

theorem findModel_not (n : Bound) (p : Pred) :
    n.findModel p.not = (n.check p).map Verdict.counterexample? :=
  n.findModel_eq_check p.freeKeys_not fun env => p.eval_not env

theorem findModel_eq_check_not (n : Bound) (p : Pred) :
    n.findModel p = (n.check p.not).map Verdict.counterexample? := by
  refine n.findModel_eq_check p.freeKeys_not.symm fun env => ?_
  rw [Pred.eval_not]
  rcases p.eval env with e | (_ | _) <;> rfl

section
variable (n : Bound) (p : Pred)

theorem findModel_eq_none :
    n.findModel p = .ok none ↔ ∀ env, n.InBox p.freeKeys env → p.eval env = .ok false := by
  have hvalid := n.check_eq_valid p.not
  simp only [Pred.freeKeys_not, Pred.eval_not_eq_ok] at hvalid
  refine Iff.trans ?_ hvalid
  rw [findModel_eq_check_not]
  rcases n.check p.not with e | (_ | env) <;> simp [Except.map, Verdict.counterexample?]

theorem findModel_eq_some (env : Valuation) : n.findModel p = .ok (some env) ↔
    n.First p.freeKeys (p.eval · ≠ .ok false) env ∧ p.eval env = .ok true := by
  have hrefuted := n.check_eq_refuted p.not env
  simp only [Pred.freeKeys_not, Pred.eval_not_eq_ok, ne_eq, Bool.not_true, Bool.not_false] at hrefuted
  refine Iff.trans ?_ hrefuted
  rw [findModel_eq_check_not]
  rcases n.check p.not with e | (_ | env') <;> simp [Except.map, Verdict.counterexample?]

theorem findModel_eq_error (e : EvalError) : n.findModel p = .error e ↔
    ∃ env, n.First p.freeKeys (p.eval · ≠ .ok false) env ∧ p.eval env = .error e := by
  have heval (env : Valuation) : p.not.eval env = .error e ↔ p.eval env = .error e := by
    rw [Pred.eval_not]
    cases p.eval env <;> simp [Except.map]
  have herror := n.check_eq_error p.not e
  simp only [Pred.freeKeys_not, Pred.eval_not_eq_ok, ne_eq, Bool.not_true, heval] at herror
  refine Iff.trans ?_ herror
  rw [findModel_eq_check_not]
  rcases n.check p.not with e | (_ | env') <;> simp [Except.map]

end

/-- **Checks and models.** Both look through the box of the free keys in order and stop at
the first valuation that decides. They correspond to each other under negation, no key is ever found
unbound, and what has been refuted is false of the integers without bounds as well. -/
theorem check_exact (n : Bound) (p : Pred) :
    (n.check p = .ok .valid ↔ ∀ env, n.InBox p.freeKeys env → p.eval env = .ok true) ∧
    (∀ env, n.check p = .ok (.refuted env) ↔
      n.First p.freeKeys (p.eval · ≠ .ok true) env ∧ p.eval env = .ok false) ∧
    (∀ e, n.check p = .error e ↔
      ∃ env, n.First p.freeKeys (p.eval · ≠ .ok true) env ∧ p.eval env = .error e) ∧
    (n.findModel p = .ok none ↔ ∀ env, n.InBox p.freeKeys env → p.eval env = .ok false) ∧
    (∀ env, n.findModel p = .ok (some env) ↔
      n.First p.freeKeys (p.eval · ≠ .ok false) env ∧ p.eval env = .ok true) ∧
    (∀ e, n.findModel p = .error e ↔
      ∃ env, n.First p.freeKeys (p.eval · ≠ .ok false) env ∧ p.eval env = .error e) ∧
    (∀ x, n.check p ≠ .error (.unbound x) ∧ n.findModel p ≠ .error (.unbound x)) ∧
    n.findModel p.not = (n.check p).map Verdict.counterexample? ∧
    ∀ env, n.check p = .ok (.refuted env) → ∀ z s b, env.ExtendsTo s b → ¬ p.Holds z s b := by
  refine ⟨n.check_eq_valid p, n.check_eq_refuted p, n.check_eq_error p, n.findModel_eq_none p,
    n.findModel_eq_some p, n.findModel_eq_error p, fun x => ⟨fun h => ?_, fun h => ?_⟩,
    n.findModel_not p, fun env h z s b hext hholds => ?_⟩
  · obtain ⟨env, hfirst, he⟩ := (n.check_eq_error p _).mp h
    exact hfirst.1.eval_ne_unbound (fun _ hk => hk) x he
  · obtain ⟨env, hfirst, he⟩ := (n.findModel_eq_error p _).mp h
    exact hfirst.1.eval_ne_unbound (fun _ hk => hk) x he
  · have hfalse := ((n.check_eq_refuted p env).mp h).2
    have hiff := (p.eval_settles hext z).of_ok hfalse
    exact absurd (hiff.mpr hholds) (by simp)

/-! ## Comparisons -/

def hiddenKeys (visible : List Key) (p : Pred) : List Key := p.freeKeys.filter (· ∉ visible)

/-- Some values of the keys that are not visible make `p` true, with `env` for the others. -/
def Satisfiable (n : Bound) (visible : List Key) (p : Pred) (env : Valuation) : Prop :=
  ∃ env', n.InBox (visible ++ p.freeKeys) env' ∧ (∀ k ∈ visible, env'.get? k = env.get? k) ∧
    p.eval env' = .ok true

def ErrorFree (n : Bound) (visible : List Key) (p : Pred) : Prop :=
  ∀ env e, n.InBox (visible ++ p.freeKeys) env → p.eval env ≠ .error e

/-- Errors are looked for like anything else. -/
theorem errorFree_iff {n : Bound} {visible : List Key} {p : Pred} : n.ErrorFree visible p ↔
    n.search (fun env => if (p.eval env).isOk then none else some ()) (visible ++ p.freeKeys) .empty = none := by
  rw [search_eq_none]
  refine forall_congr' fun env => ?_
  rw [over_empty, forall_comm]
  refine forall_congr' fun _ => ?_
  cases p.eval env <;> simp [Except.isOk, Except.toBool]

instance (n : Bound) (visible : List Key) (p : Pred) : Decidable (n.ErrorFree visible p) :=
  decidable_of_iff _ errorFree_iff.symm

section
variable {n : Bound} {visible : List Key} {p : Pred} {env env' : Valuation}

theorem over_hidden (henv : n.InBox visible env) :
    n.Over (hiddenKeys visible p) env env' ↔
      n.InBox (visible ++ p.freeKeys) env' ∧ ∀ k ∈ visible, env'.get? k = env.get? k := by
  have hhidden (k : Key) : k ∈ hiddenKeys visible p ↔ k ∈ p.freeKeys ∧ k ∉ visible := by
    simp [hiddenKeys]
  constructor
  · rintro ⟨hin, hout⟩
    have hshown (k : Key) (hk : k ∈ visible) : env'.get? k = env.get? k :=
      hout k fun h => ((hhidden k).mp h).2 hk
    refine ⟨⟨fun k => ?_, fun k v hv => ?_⟩, hshown⟩
    · by_cases hk : k ∈ hiddenKeys visible p
      · obtain ⟨v, hv, -⟩ := hin k hk
        simp [hv, ((hhidden k).mp hk).1]
      · -- what is not hidden is bound as before, so a free key among it is visible
        rw [hout k hk, henv.1 k, List.mem_append]
        rw [hhidden, not_and_not_right] at hk
        exact ⟨.inl, fun h => h.elim id hk⟩
    · by_cases hk : k ∈ hiddenKeys visible p
      · obtain ⟨w, hw, hrange⟩ := hin k hk
        cases hv.symm.trans hw
        exact hrange
      · exact henv.2 k v (hout k hk ▸ hv)
  · rintro ⟨hbox, hshown⟩
    refine ⟨fun k hk => ?_, fun k hk => ?_⟩
    · obtain ⟨v, hv⟩ := (hbox.1 k).mpr (List.mem_append_right _ ((hhidden k).mp hk).1)
      exact ⟨v, hv, hbox.2 k v hv⟩
    · by_cases hvisible : k ∈ visible
      · exact hshown k hvisible
      · have hnone : ∀ {e : Valuation} {l : List Key}, n.InBox l e → k ∉ l → e.get? k = none := by
          intro e l he hl
          cases hv : e.get? k with
          | none => rfl
          | some v => exact absurd ((he.1 k).mp ⟨v, hv⟩) hl
        have hkeys : k ∉ p.freeKeys := fun h => hk ((hhidden k).mpr ⟨h, hvisible⟩)
        rw [hnone henv hvisible, hnone hbox (by simp [hvisible, hkeys])]

end

section
variable {n : Bound} {p q : Pred} {base : Valuation} {keys pKeys qKeys : List Key}

theorem extend_cases (n : Bound) (p : Pred) (base : Valuation) (keys : List Key) :
    (n.extend p base keys = .ok none ∧ ∀ env, n.Over keys base env → p.eval env = .ok false) ∨
    ∃ env, n.Over keys base env ∧
      ((n.extend p base keys = .ok (some env) ∧ p.eval env = .ok true) ∨
        ∃ e, n.extend p base keys = .error e ∧ p.eval env = .error e) := by
  unfold extend
  cases hs : n.search (extend.visit p) keys base with
  | none =>
    refine .inl ⟨rfl, fun env henv => ?_⟩
    have hnone := search_eq_none.mp hs env henv
    unfold extend.visit at hnone
    split at hnone <;> simp_all
  | some r =>
    obtain ⟨env, henv, hr⟩ := search_mem hs
    refine .inr ⟨env, henv, ?_⟩
    unfold extend.visit at hr
    split at hr <;> simp_all

theorem extend_eq_ok {r : Option Valuation} (h : n.extend p base keys = .ok r) :
    r.isSome ↔ ∃ env, n.Over keys base env ∧ p.eval env = .ok true := by
  rcases extend_cases n p base keys with ⟨hnone, hfalse⟩ | ⟨env, henv, ⟨hsome, htrue⟩ | ⟨e, he, -⟩⟩
  · cases h.symm.trans hnone
    simp only [Option.isSome_none, Bool.false_eq_true, false_iff]
    rintro ⟨env, henv, htrue⟩
    rw [hfalse env henv] at htrue
    cases htrue
  · cases h.symm.trans hsome
    exact iff_of_true rfl ⟨env, henv, htrue⟩
  · cases h.symm.trans he

theorem extend_eq_error {e : EvalError} (h : n.extend p base keys = .error e) :
    ∃ env, n.Over keys base env ∧ p.eval env = .error e := by
  rcases extend_cases n p base keys with ⟨hnone, -⟩ | ⟨env, henv, ⟨hsome, -⟩ | ⟨e', he, heval⟩⟩
  · cases h.symm.trans hnone
  · cases h.symm.trans hsome
  · cases h.symm.trans he
    exact ⟨env, henv, heval⟩

theorem extensible_eq_ok {a b : Bool} (h : n.extensible p q pKeys qKeys base = .ok (a, b)) :
    (a = true ↔ ∃ env, n.Over pKeys base env ∧ p.eval env = .ok true) ∧
    (b = true ↔ ∃ env, n.Over qKeys base env ∧ q.eval env = .ok true) := by
  cases hp : n.extend p base pKeys with
  | error e => simp [extensible, hp, bind, Except.bind] at h
  | ok r =>
    cases hq : n.extend q base qKeys with
    | error e => simp [extensible, hp, hq, bind, Except.bind] at h
    | ok r' =>
      simp only [extensible, hp, hq, bind, Except.bind, pure, Except.pure, Except.ok.injEq,
        Prod.mk.injEq] at h
      rw [← h.1, ← h.2]
      exact ⟨extend_eq_ok hp, extend_eq_ok hq⟩

theorem extensible_eq_error {e : EvalError} (h : n.extensible p q pKeys qKeys base = .error e) :
    (∃ env, n.Over pKeys base env ∧ p.eval env = .error e) ∨
    ∃ env, n.Over qKeys base env ∧ q.eval env = .error e := by
  rcases error_of_bind h with hp | ⟨r, -, h⟩
  · exact .inl (extend_eq_error hp)
  · rcases error_of_bind h with hq | ⟨r', -, h⟩
    · exact .inr (extend_eq_error hq)
    · cases h

end

section
variable {n : Bound} {p q : Pred} {visible : List Key}

theorem extensible_hidden {env : Valuation} (henv : n.InBox visible env) {a b : Bool}
    (h : n.extensible p q (hiddenKeys visible p) (hiddenKeys visible q) env = .ok (a, b)) :
    (a = true ↔ n.Satisfiable visible p env) ∧ (b = true ↔ n.Satisfiable visible q env) := by
  have hext := extensible_eq_ok h
  simp only [over_hidden henv, and_assoc] at hext
  exact hext

theorem compare_cases (n : Bound) (p q : Pred) (visible : List Key) :
    (n.compare p q visible = .ok .agree ∧ ∀ env, n.InBox visible env →
      ∃ a, n.extensible p q (hiddenKeys visible p) (hiddenKeys visible q) env = .ok (a, a)) ∨
    ∃ env, n.InBox visible env ∧
      ((∃ a b, a ≠ b ∧ n.compare p q visible = .ok (.differ env a b) ∧
        n.extensible p q (hiddenKeys visible p) (hiddenKeys visible q) env = .ok (a, b)) ∨
      ∃ e, n.compare p q visible = .error e ∧
        n.extensible p q (hiddenKeys visible p) (hiddenKeys visible q) env = .error e) := by
  have hcompare : n.compare p q visible =
      (n.search (compare.visit n p q (hiddenKeys visible p) (hiddenKeys visible q)) visible .empty).getD
        (.ok .agree) := rfl
  rw [hcompare]
  cases hs : n.search (compare.visit n p q (hiddenKeys visible p) (hiddenKeys visible q)) visible .empty with
  | none =>
    refine .inl ⟨rfl, fun env henv => ?_⟩
    have hnone := search_eq_none.mp hs env (over_empty.mpr henv)
    unfold compare.visit at hnone
    split at hnone
    · rename_i a b hab
      by_cases heq : a = b
      · exact ⟨a, by rw [hab, heq]⟩
      · simp [heq] at hnone
    · cases hnone
  | some r =>
    obtain ⟨env, henv, hr⟩ := search_mem hs
    refine .inr ⟨env, over_empty.mp henv, ?_⟩
    unfold compare.visit at hr
    split at hr
    · rename_i a b hab
      by_cases heq : a = b
      · simp [heq] at hr
      · simp only [heq, ite_false, Option.some.injEq] at hr
        exact .inl ⟨a, b, heq, hr.symm, hab⟩
    · rename_i e he
      cases hr
      exact .inr ⟨e, rfl, he⟩

theorem compare_eq_ok {c : Comparison} (h : n.compare p q visible = .ok c) :
    c = .agree ↔ ∀ env, n.InBox visible env → (n.Satisfiable visible p env ↔ n.Satisfiable visible q env) := by
  rcases compare_cases n p q visible with
    ⟨hagree, hsame⟩ | ⟨env, henv, ⟨a, b, hne, hdiffer, hab⟩ | ⟨e, he, -⟩⟩
  · cases h.symm.trans hagree
    refine iff_of_true rfl fun env henv => ?_
    obtain ⟨a, ha⟩ := hsame env henv
    obtain ⟨hp, hq⟩ := extensible_hidden henv ha
    exact hp.symm.trans hq
  · cases h.symm.trans hdiffer
    obtain ⟨hp, hq⟩ := extensible_hidden henv hab
    refine iff_of_false (by simp) fun hall => hne ?_
    rw [Bool.eq_iff_iff, hp, hq]
    exact hall env henv
  · cases h.symm.trans he

theorem compare_eq_error {e : EvalError} (h : n.compare p q visible = .error e) :
    (∃ env, n.InBox (visible ++ p.freeKeys) env ∧ p.eval env = .error e) ∨
    ∃ env, n.InBox (visible ++ q.freeKeys) env ∧ q.eval env = .error e := by
  rcases compare_cases n p q visible with
    ⟨hagree, -⟩ | ⟨env, henv, ⟨a, b, -, hdiffer, -⟩ | ⟨e', he, hext⟩⟩
  · cases h.symm.trans hagree
  · cases h.symm.trans hdiffer
  · cases h.symm.trans he
    rcases extensible_eq_error hext with ⟨env', hover, he⟩ | ⟨env', hover, he⟩
    · exact .inl ⟨env', ((over_hidden henv).mp hover).1, he⟩
    · exact .inr ⟨env', ((over_hidden henv).mp hover).1, he⟩

theorem ErrorFree.compare (hp : n.ErrorFree visible p) (hq : n.ErrorFree visible q) :
    ∃ c, n.compare p q visible = .ok c := by
  cases h : n.compare p q visible with
  | ok c => exact ⟨c, rfl⟩
  | error e =>
    rcases compare_eq_error h with ⟨env, henv, he⟩ | ⟨env, henv, he⟩
    · exact absurd he (hp env e henv)
    · exact absurd he (hq env e henv)

theorem ErrorFree.agree_iff (hp : n.ErrorFree visible p) (hq : n.ErrorFree visible q) :
    n.compare p q visible = .ok .agree ↔
      ∀ env, n.InBox visible env → (n.Satisfiable visible p env ↔ n.Satisfiable visible q env) := by
  obtain ⟨c, hc⟩ := hp.compare hq
  rw [← compare_eq_ok hc, hc, Except.ok.injEq]

end

/-- **Comparison.** Where nothing in the box is an error, the answer is whether the two predicates
can be satisfied over the same valuations of the visible keys, and this is an equivalence relation.
Where there is an error, it is one of the box, and no key is ever found unbound. -/
theorem compare_exact (n : Bound) (visible : List Key) :
    (∀ p q, n.ErrorFree visible p → n.ErrorFree visible q →
      ∃ c, n.compare p q visible = .ok c ∧ (c = .agree ↔
        ∀ env, n.InBox visible env → (n.Satisfiable visible p env ↔ n.Satisfiable visible q env))) ∧
    (∀ p q e, n.compare p q visible = .error e →
      ((∃ env, n.InBox (visible ++ p.freeKeys) env ∧ p.eval env = .error e) ∨
        ∃ env, n.InBox (visible ++ q.freeKeys) env ∧ q.eval env = .error e) ∧
      ∀ x, e ≠ .unbound x) ∧
    Equivalence fun p q : { p : Pred // n.ErrorFree visible p } => n.compare p q visible = .ok .agree := by
  refine ⟨fun p q hp hq => ?_, fun p q e he => ?_, ⟨fun p => ?_, fun {p q} h => ?_, fun {p q r} h h' => ?_⟩⟩
  · obtain ⟨c, hc⟩ := hp.compare hq
    exact ⟨c, hc, compare_eq_ok hc⟩
  · refine ⟨compare_eq_error he, ?_⟩
    rintro x rfl
    rcases compare_eq_error he with ⟨env, henv, he⟩ | ⟨env, henv, he⟩
    · exact henv.eval_ne_unbound (fun k hk => List.mem_append_right _ hk) x he
    · exact henv.eval_ne_unbound (fun k hk => List.mem_append_right _ hk) x he
  · exact (p.2.agree_iff p.2).mpr fun env _ => Iff.rfl
  · rw [p.2.agree_iff q.2] at h
    exact (q.2.agree_iff p.2).mpr fun env henv => (h env henv).symm
  · rw [p.2.agree_iff q.2] at h
    rw [q.2.agree_iff r.2] at h'
    exact (p.2.agree_iff r.2).mpr fun env henv => (h env henv).trans (h' env henv)

-- that `x` is twice some number says as much of `x`, in this box, as that it is zero
theorem compare_exact_double :
    let n : Bound := { radius := 1 }
    let x : Key := ⟨"x", .current⟩
    let p := RelOp.eq.apply (.now "x") (ArithOp.add.apply (.now "y") (.now "y"))
    let q := RelOp.eq.apply (.now "x") (.ofInt64 0)
    n.ErrorFree [x] p ∧ n.ErrorFree [x] q ∧ hiddenKeys [x] p = [⟨"y", .current⟩] ∧
      n.compare p q [x] = .ok .agree ∧
      ∀ env, n.InBox [x] env → (n.Satisfiable [x] p env ↔ n.Satisfiable [x] q env) := by
  intro n x p q
  have hp : n.ErrorFree [x] p := by decide
  have hq : n.ErrorFree [x] q := by decide
  have hcompare : n.compare p q [x] = .ok .agree := by decide
  obtain ⟨c, hc, hagree⟩ := (compare_exact n [x]).1 p q hp hq
  cases hcompare.symm.trans hc
  exact ⟨hp, hq, by decide, hcompare, hagree.mp rfl⟩

end Bound

end StrongestPost
