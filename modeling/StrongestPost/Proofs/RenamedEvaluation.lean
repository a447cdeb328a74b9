import Mathlib.Data.List.Sort
import StrongestPost.Proofs.Evaluation
import StrongestPost.Proofs.NameMaps

/-!
# Evaluation of renamed predicates

A map of names can be moved from a predicate into the valuation, where `x` is then looked
up as `g x` (`Pred.eval_mapNames`). Values stay what they are and so do errors, but for the
name in the report of an unbound one. Nothing is asked of the map: it may merge names, and
what it leads to may be unbound.

For the renaming of one name the valuation is `Valuation.rebound`.
-/

namespace StrongestPost

/-! ## Valuations -/

namespace Valuation

/-- Leaves `k` unbound. -/
def unset (env : Valuation) (k : Key) : Valuation where
  entries := env.entries.filter fun e => e.1 ≠ k
  increasing := env.increasing.filter _

/-- Binds `k` to a value, or to none. -/
def put? (env : Valuation) (k : Key) : Option Int64 → Valuation
  | some v => env.set k v
  | none => env.unset k

/-- Both keys of `old` are bound to what those of `new` are bound to. -/
def rebound (env : Valuation) (old new : String) : Valuation :=
  Moment.family.all.foldl (fun e m => e.put? ⟨old, m⟩ (env.get? ⟨new, m⟩)) env

theorem lookup_filter_ne (k k' : Key) (l : List (Key × Int64)) :
    (l.filter fun e => e.1 ≠ k).lookup k' = if k' = k then none else l.lookup k' := by
  induction l with
  | nil => simp
  | cons e l ih =>
    rw [List.filter_cons]
    by_cases he : e.1 = k
    · simp only [he, ne_eq, not_true_eq_false, decide_false, Bool.false_eq_true, if_false, ih]
      by_cases hk : k' = k
      · simp [hk]
      · simp [hk, lookup_entry, he]
    · simp only [he, ne_eq, not_false_eq_true, decide_true, if_true, lookup_entry, ih]
      by_cases hk : k' = e.1
      · simp [hk, he]
      · simp [hk]

@[simp] theorem get?_put? (env : Valuation) (k k' : Key) (v : Option Int64) :
    (env.put? k v).get? k' = if k' = k then v else env.get? k' := by
  cases v with
  | some v => exact get?_set env k k' v
  | none => exact lookup_filter_ne k k' env.entries

theorem get?_rebound (env : Valuation) (old new : String) (k : Key) :
    (env.rebound old new).get? k = env.get? (k.rename old new) := by
  obtain ⟨x, m⟩ := k
  unfold rebound Key.rename
  by_cases hx : x = old
  · cases m <;> simp [Moment.family, hx]
  · simp [Moment.family, hx]

end Valuation

/-! ## Errors -/

def EvalError.mapNames (g : String → String) : EvalError → EvalError
  | unbound x => unbound (g x)
  | e => e

section
variable {ε ε' α β : Type} {g : String → String}

theorem mapError_bind (h : ε → ε') (x : Except ε α) (f : α → Except ε β) :
    (x >>= f).mapError h = x.mapError h >>= fun a => (f a).mapError h := by
  cases x <;> rfl

theorem mapError_of_ne_unbound {r : Except EvalError α} (h : ∀ x, r ≠ .error (.unbound x)) :
    r.mapError (EvalError.mapNames g) = r := by
  cases r with
  | ok a => rfl
  | error e =>
    cases e with
    | unbound x => exact absurd rfl (h x)
    | divisionByZero | overflow => rfl

end

/-! ## Terms and predicates -/

section
variable {g : String → String} {env env' : Valuation} (h : ∀ k, env'.get? k = env.get? (k.mapName g))
include h

theorem Term.eval_mapNames (t : Term) :
    (t.mapNames g).eval env = (t.eval env').mapError (EvalError.mapNames g) := by
  induction t with
  | var s k =>
    simp only [mapNames, eval, h k]
    cases env.get? (k.mapName g) <;> rfl
  | lit s v => rfl
  | neg s t ih =>
    simp only [mapNames, eval, ih, mapError_bind]
    simp only [mapError_of_ne_unbound (exact_ne_unbound _)]
  | arith s t op u iht ihu =>
    simp only [mapNames, eval, iht, ihu, mapError_bind]
    simp only [mapError_of_ne_unbound (op.eval_ne_unbound _ _)]

theorem Pred.eval_mapNames (p : Pred) :
    (p.mapNames g).eval env = (p.eval env').mapError (EvalError.mapNames g) := by
  induction p with
  | lit s b => rfl
  | rel s t op u =>
    simp only [mapNames, eval, Term.eval_mapNames h, mapError_bind]
    rfl
  | neg s p ih =>
    simp only [mapNames, eval, ih, mapError_bind]
    rfl
  | conn s p op q ihp ihq =>
    simp only [mapNames, eval, ihp, mapError_bind]
    congr 1
    funext b
    cases op.settled? b with
    | some r => rfl
    | none => exact ihq

end

/-! ## Renaming one name -/

section
variable (old new : String)

theorem Term.eval_rename (t : Term) (env : Valuation) :
    (t.rename old new).eval env =
      (t.eval (env.rebound old new)).mapError (EvalError.mapNames fun x => if x = old then new else x) := by
  rw [rename_eq_mapNames]
  apply eval_mapNames
  intro k
  rw [env.get?_rebound, Key.rename_eq_mapName]

theorem Pred.eval_rename (p : Pred) (env : Valuation) :
    (p.rename old new).eval env =
      (p.eval (env.rebound old new)).mapError (EvalError.mapNames fun x => if x = old then new else x) := by
  rw [rename_eq_mapNames]
  apply eval_mapNames
  intro k
  rw [env.get?_rebound, Key.rename_eq_mapName]

theorem Term.blank_rename (x : String) (t : Term) :
    (t.rename old new).mapNames (fun _ => x) = t.mapNames fun _ => x := by
  rw [rename_eq_mapNames, mapNames_mapNames]
  rfl

theorem Pred.blank_rename (x : String) (p : Pred) :
    (p.rename old new).mapNames (fun _ => x) = p.mapNames fun _ => x := by
  rw [rename_eq_mapNames, mapNames_mapNames]
  rfl

variable {old new}

theorem rename_back {x : String} (hx : x ≠ new) :
    (if (if x = old then new else x) = new then old else if x = old then new else x) = x := by
  by_cases h : x = old
  · simp [h]
  · simp [h, hx]

theorem Term.rename_rename {t : Term} (h : new ∉ t.keys.map Key.name) :
    (t.rename old new).rename new old = t := by
  rw [rename_eq_mapNames, rename_eq_mapNames, mapNames_mapNames]
  refine (mapNames_congr fun x hx => ?_).trans t.mapNames_id
  exact rename_back fun e => h (e ▸ hx)

theorem Pred.rename_rename {p : Pred} (h : new ∉ p.names) : (p.rename old new).rename new old = p := by
  rw [rename_eq_mapNames, rename_eq_mapNames, mapNames_mapNames]
  refine (mapNames_congr fun x hx => ?_).trans p.mapNames_id
  exact rename_back fun e => h (e ▸ hx)

end

theorem inOrder_map_keys (f : Key → Key) (l : List Key) :
    inOrder (l.map f) = inOrder ((inOrder l).map f) := by
  have : Std.Irrefl (· < · : Key → Key → Prop) := ⟨Key.lt_irrefl⟩
  have : Std.Antisymm (· < · : Key → Key → Prop) :=
    ⟨fun a _ hab hba => absurd (Key.lt_trans hab hba) (Key.lt_irrefl a)⟩
  apply (pairwise_inOrder _).eq_of_mem_iff (pairwise_inOrder _)
  simp

/-- **Substitution.** Evaluating a renamed term or predicate is evaluating the original where
`old` stands for what `new` is bound to: values and errors are the same, but `old` is not
reported as unbound, `new` is. The two differ in names only, so positions, operators, literals
and moments are as they were; the keys are those of the original, renamed; and a name that did
not occur can be renamed back. -/
theorem Valuation.eval_substitution (env : Valuation) (old new : String) :
    (∀ k, (env.rebound old new).get? k =
      if k.name = old then env.get? ⟨new, k.moment⟩ else env.get? k) ∧
    (∀ t : Term,
      (t.rename old new).eval env =
        (t.eval (env.rebound old new)).mapError (EvalError.mapNames fun x => if x = old then new else x) ∧
      (∀ x, (t.rename old new).mapNames (fun _ => x) = t.mapNames fun _ => x) ∧
      (t.rename old new).freeKeys = inOrder (t.freeKeys.map (Key.rename old new)) ∧
      (new ∉ t.freeNames → (t.rename old new).rename new old = t)) ∧
    ∀ p : Pred,
      (p.rename old new).eval env =
        (p.eval (env.rebound old new)).mapError (EvalError.mapNames fun x => if x = old then new else x) ∧
      (∀ x, (p.rename old new).mapNames (fun _ => x) = p.mapNames fun _ => x) ∧
      (p.rename old new).freeKeys = inOrder (p.freeKeys.map (Key.rename old new)) ∧
      (new ∉ p.freeNames → (p.rename old new).rename new old = p) := by
  refine ⟨fun k => ?_, fun t => ⟨t.eval_rename old new env, t.blank_rename old new, ?_, fun h => ?_⟩,
    fun p => ⟨p.eval_rename old new env, p.blank_rename old new, ?_, fun h => ?_⟩⟩
  · rw [env.get?_rebound, Key.rename]
    by_cases hk : k.name = old
    · rw [if_pos hk, if_pos hk]
    · rw [if_neg hk, if_neg hk]
  · unfold Term.freeKeys
    rw [Term.keys_rename, inOrder_map_keys]
  · exact Term.rename_rename (mt mem_inOrder.mpr h)
  · unfold Pred.freeKeys
    rw [Pred.keys_rename, inOrder_map_keys]
  · exact Pred.rename_rename (mt mem_inOrder.mpr h)

end StrongestPost
