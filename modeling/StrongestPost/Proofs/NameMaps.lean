import StrongestPost.Proofs.FirstFailure

/-!
# Maps of names

`mapNames g` puts `g x` in the place of every name `x`, all at once and at both moments.
Renaming one name is a special case. Reading an expression as a term or as a predicate
commutes with a map of its names, so the visits of a walk fail before the map exactly
where they fail after it.
-/

namespace StrongestPost

def Key.mapName (g : String → String) (k : Key) : Key := { k with name := g k.name }

def Term.mapNames (g : String → String) : Term → Term
  | var s k => var s (k.mapName g)
  | lit s v => lit s v
  | neg s t => neg s (t.mapNames g)
  | arith s t op u => arith s (t.mapNames g) op (u.mapNames g)

def Pred.mapNames (g : String → String) : Pred → Pred
  | lit s b => lit s b
  | rel s t op u => rel s (t.mapNames g) op (u.mapNames g)
  | neg s p => neg s (p.mapNames g)
  | conn s p op q => conn s (p.mapNames g) op (q.mapNames g)

def Expr.mapNames (g : String → String) : Expr → Expr
  | var s x => var s (g x)
  | int s v => int s v
  | bool s b => bool s b
  | unary s op e => unary s op (e.mapNames g)
  | binary s a op b => binary s (a.mapNames g) op (b.mapNames g)

/-- Variables are renamed everywhere, invariants and arguments included. The name of a
procedure that is called is not one of a variable. -/
def Stmt.mapNames (g : String → String) : Stmt → Stmt
  | assign s x e => assign s (g x) (e.mapNames g)
  | seq s a b => seq s (a.mapNames g) (b.mapNames g)
  | skip s => skip s
  | ite s c a b => ite s (c.mapNames g) (a.mapNames g) (b.mapNames g)
  | block s a => block s (a.mapNames g)
  | loop s c i a => loop s (c.mapNames g) (i.map (Pred.mapNames g)) (a.mapNames g)
  | assert s c => assert s (c.mapNames g)
  | assume s c => assume s (c.mapNames g)
  | call s f es => call s f (es.map (Expr.mapNames g))
  | localDef s x e => localDef s (g x) (e.map (Expr.mapNames g))

/-! ## Terms and predicates -/

section
variable {g g' : String → String}

theorem Key.mapName_congr {k : Key} (h : g k.name = g' k.name) : k.mapName g = k.mapName g' := by
  rw [mapName, h, mapName]

theorem Key.rename_eq_mapName (x y : String) (k : Key) :
    k.rename x y = k.mapName fun u => if u = x then y else u := by
  unfold rename mapName
  by_cases h : k.name = x
  · simp only [h, if_true]
  · simp only [h, if_false]

theorem Term.mapNames_congr {t : Term} (h : ∀ x ∈ t.keys.map Key.name, g x = g' x) :
    t.mapNames g = t.mapNames g' := by
  induction t with
  | var s k => rw [mapNames, mapNames, Key.mapName_congr (h _ (by simp))]
  | lit => rfl
  | neg s t ih => rw [mapNames, mapNames, ih h]
  | arith s t op u iht ihu =>
    simp only [keys_arith, List.map_append, List.forall_mem_append] at h
    rw [mapNames, mapNames, iht h.1, ihu h.2]

theorem Pred.mapNames_congr {p : Pred} (h : ∀ x ∈ p.names, g x = g' x) : p.mapNames g = p.mapNames g' := by
  unfold Pred.names at h
  induction p with
  | lit => rfl
  | rel s t op u =>
    simp only [keys_rel, List.map_append, List.forall_mem_append] at h
    rw [mapNames, mapNames, Term.mapNames_congr h.1, Term.mapNames_congr h.2]
  | neg s p ih => rw [mapNames, mapNames, ih h]
  | conn s p op q ihp ihq =>
    simp only [keys_conn, List.map_append, List.forall_mem_append] at h
    rw [mapNames, mapNames, ihp h.1, ihq h.2]

theorem Term.mapNames_id (t : Term) : t.mapNames id = t := by
  induction t with
  | var | lit => rfl
  | neg s t ih => rw [mapNames, ih]
  | arith s t op u iht ihu => rw [mapNames, iht, ihu]

theorem Pred.mapNames_id (p : Pred) : p.mapNames id = p := by
  induction p with
  | lit => rfl
  | rel s t op u => rw [mapNames, Term.mapNames_id, Term.mapNames_id]
  | neg s p ih => rw [mapNames, ih]
  | conn s p op q ihp ihq => rw [mapNames, ihp, ihq]

theorem Term.mapNames_mapNames (t : Term) : (t.mapNames g).mapNames g' = t.mapNames (g' ∘ g) := by
  induction t with
  | var | lit => rfl
  | neg s t ih => simp only [mapNames, ih]
  | arith s t op u iht ihu => simp only [mapNames, iht, ihu]

theorem Pred.mapNames_mapNames (p : Pred) : (p.mapNames g).mapNames g' = p.mapNames (g' ∘ g) := by
  induction p with
  | lit => rfl
  | rel s t op u => simp only [mapNames, Term.mapNames_mapNames]
  | neg s p ih => simp only [mapNames, ih]
  | conn s p op q ihp ihq => simp only [mapNames, ihp, ihq]

theorem Term.rename_eq_mapNames (x y : String) (t : Term) :
    t.rename x y = t.mapNames fun u => if u = x then y else u := by
  induction t with
  | var s k => rw [rename, mapNames, Key.rename_eq_mapName]
  | lit => rfl
  | neg s t ih => rw [rename, mapNames, ih]
  | arith s t op u iht ihu => rw [rename, mapNames, iht, ihu]

theorem Pred.rename_eq_mapNames (x y : String) (p : Pred) :
    p.rename x y = p.mapNames fun u => if u = x then y else u := by
  induction p with
  | lit => rfl
  | rel s t op u => rw [rename, mapNames, Term.rename_eq_mapNames, Term.rename_eq_mapNames]
  | neg s p ih => rw [rename, mapNames, ih]
  | conn s p op q ihp ihq => rw [rename, mapNames, ihp, ihq]

theorem Term.keys_mapNames (t : Term) : (t.mapNames g).keys = t.keys.map (Key.mapName g) := by
  induction t <;> simp_all [mapNames]

theorem Pred.keys_mapNames (p : Pred) : (p.mapNames g).keys = p.keys.map (Key.mapName g) := by
  induction p <;> simp_all [mapNames, Term.keys_mapNames]

theorem Pred.names_mapNames (p : Pred) : (p.mapNames g).names = p.names.map g := by
  simp [names, keys_mapNames, Key.mapName, Function.comp_def]

@[simp] theorem Pred.span_mapNames (p : Pred) : (p.mapNames g).span = p.span := by
  cases p <;> rfl

@[simp] theorem Pred.mapNames_atSpan (p : Pred) (s : Span) :
    (p.atSpan s).mapNames g = (p.mapNames g).atSpan s := by
  cases p <;> rfl

@[simp] theorem Pred.mapNames_not (p : Pred) : p.not.mapNames g = (p.mapNames g).not := by
  rw [Pred.not, mapNames, Pred.not, span_mapNames]

theorem Pred.mapNames_join (p : Pred) (op : Connective) (q : Pred) :
    (p.join op q).mapNames g = (p.mapNames g).join op (q.mapNames g) := by
  rw [join, mapNames, join, span_mapNames]

@[simp] theorem Pred.mapNames_and (p q : Pred) : (p.and q).mapNames g = (p.mapNames g).and (q.mapNames g) :=
  mapNames_join ..

@[simp] theorem Pred.mapNames_or (p q : Pred) : (p.or q).mapNames g = (p.mapNames g).or (q.mapNames g) :=
  mapNames_join ..

@[simp] theorem Pred.mapNames_implies (p q : Pred) :
    (p.implies q).mapNames g = (p.mapNames g).implies (q.mapNames g) :=
  mapNames_join ..

end

/-! ## Expressions and statements -/

section
variable {g g' : String → String}

theorem Expr.names_mapNames (e : Expr) : (e.mapNames g).names = e.names.map g := by
  induction e <;> simp_all [mapNames, names]

theorem Stmt.names_mapNames (a : Stmt) : (a.mapNames g).names = a.names.map g := by
  induction a with
  | loop s c i a ih =>
    cases i <;> simp [mapNames, names, Expr.names_mapNames, Pred.names_mapNames, ih]
  | call s f es => simp [mapNames, names, Expr.names_mapNames, List.flatMap_map, List.map_flatMap]
  | localDef s x e => cases e <;> simp [mapNames, names, Expr.names_mapNames]
  | _ => simp_all [mapNames, names, Expr.names_mapNames]

theorem Stmt.targets_mapNames (a : Stmt) : (a.mapNames g).targets = a.targets.map g := by
  induction a <;> simp_all [mapNames, targets]

theorem Expr.mapNames_congr {e : Expr} (h : ∀ x ∈ e.names, g x = g' x) : e.mapNames g = e.mapNames g' := by
  induction e with
  | var s x => rw [mapNames, mapNames, h x (by simp [names])]
  | int | bool => rfl
  | unary s op e ih => rw [mapNames, mapNames, ih h]
  | binary s a op b iha ihb =>
    simp only [names, List.forall_mem_append] at h
    rw [mapNames, mapNames, iha h.1, ihb h.2]

theorem Expr.mapNames_id (e : Expr) : e.mapNames id = e := by
  induction e with
  | var | int | bool => rfl
  | unary s op e ih => rw [mapNames, ih]
  | binary s a op b iha ihb => rw [mapNames, iha, ihb]

theorem Stmt.mapNames_id (a : Stmt) : a.mapNames id = a := by
  have hexpr : Expr.mapNames id = id := funext Expr.mapNames_id
  have hpred : Pred.mapNames id = id := funext Pred.mapNames_id
  induction a <;> simp_all [mapNames]

theorem Stmt.mapNames_congr {a : Stmt} (h : ∀ x ∈ a.names, g x = g' x) : a.mapNames g = a.mapNames g' := by
  induction a with
  | assign s x e =>
    rw [names, List.forall_mem_cons] at h
    rw [mapNames, mapNames, h.1, Expr.mapNames_congr h.2]
  | seq s a b iha ihb =>
    rw [names, List.forall_mem_append] at h
    rw [mapNames, mapNames, iha h.1, ihb h.2]
  | skip => rfl
  | ite s c a b iha ihb =>
    simp only [names, List.forall_mem_append] at h
    rw [mapNames, mapNames, Expr.mapNames_congr h.1.1, iha h.1.2, ihb h.2]
  | block s a ih => rw [mapNames, mapNames, ih h]
  | loop s c i a ih =>
    simp only [names, List.forall_mem_append] at h
    have hi : i.map (Pred.mapNames g) = i.map (Pred.mapNames g') := by
      cases i with
      | none => rfl
      | some inv => exact congrArg some (Pred.mapNames_congr h.1.2)
    rw [mapNames, mapNames, Expr.mapNames_congr h.1.1, hi, ih h.2]
  | assert s c | assume s c => rw [mapNames, mapNames, Expr.mapNames_congr h]
  | call s f es =>
    rw [mapNames, mapNames]
    congr 1
    exact List.map_congr_left fun e he => Expr.mapNames_congr fun x hx =>
      h x (List.mem_flatMap.mpr ⟨e, he, hx⟩)
  | localDef s x e =>
    rw [names, List.forall_mem_cons] at h
    have he : e.map (Expr.mapNames g) = e.map (Expr.mapNames g') := by
      cases e with
      | none => rfl
      | some e => exact congrArg some (Expr.mapNames_congr h.2)
    rw [mapNames, mapNames, h.1, he]

end

/-! ## Reading expressions -/

def Mismatch.mapNames (g : String → String) (m : Mismatch) : Mismatch := { m with expr := m.expr.mapNames g }

def Error.mapNames (g : String → String) : Error → Error
  | illSorted m => illSorted (m.mapNames g)
  | e => e

section
variable (g : String → String)

theorem Term.ofExpr_mapNames (e : Expr) :
    Term.ofExpr (e.mapNames g) =
      ((Term.ofExpr e).map (Term.mapNames g)).mapError (Mismatch.mapNames g) := by
  fun_induction Term.ofExpr e with
  | case3 s e ih =>
    rw [Expr.mapNames, Term.ofExpr, ih]
    cases Term.ofExpr e <;> rfl
  | case4 s a op b iha ihb =>
    rw [Expr.mapNames, Term.ofExpr, iha, ihb]
    cases Term.ofExpr a <;> cases Term.ofExpr b <;> rfl
  | _ => rfl

theorem Pred.ofExpr_mapNames (e : Expr) :
    Pred.ofExpr (e.mapNames g) =
      ((Pred.ofExpr e).map (Pred.mapNames g)).mapError (Mismatch.mapNames g) := by
  fun_induction Pred.ofExpr e with
  | case2 s e ih =>
    rw [Expr.mapNames, Pred.ofExpr, ih]
    cases Pred.ofExpr e <;> rfl
  | case3 s a op b =>
    rw [Expr.mapNames, Pred.ofExpr, Term.ofExpr_mapNames, Term.ofExpr_mapNames]
    cases Term.ofExpr a <;> cases Term.ofExpr b <;> rfl
  | case4 s a b iha ihb | case5 s a b iha ihb =>
    rw [Expr.mapNames, Pred.ofExpr, iha, ihb]
    cases Pred.ofExpr a <;> cases Pred.ofExpr b <;> rfl
  | _ => rfl

theorem Term.ofExpr_mapNames_ok {e : Expr} {t : Term} (h : Term.ofExpr e = .ok t) :
    Term.ofExpr (e.mapNames g) = .ok (t.mapNames g) := by
  rw [ofExpr_mapNames, h]
  rfl

theorem Pred.ofExpr_mapNames_ok {e : Expr} {p : Pred} (h : Pred.ofExpr e = .ok p) :
    Pred.ofExpr (e.mapNames g) = .ok (p.mapNames g) := by
  rw [ofExpr_mapNames, h]
  rfl

/-! ## First failures -/

def Visit.mapNames : Visit → Visit
  | level depth span => level depth span
  | term e => term (e.mapNames g)
  | pred e => pred (e.mapNames g)
  | noRule kind span => noRule kind span

theorem Visit.failure?_mapNames (policy : Unsupported) (limit : UInt64) (v : Visit) :
    (v.mapNames g).failure? policy limit = (v.failure? policy limit).map (Error.mapNames g) := by
  cases v with
  | level depth span =>
    rw [mapNames, failure?]
    by_cases h : limit.toNat ≤ depth
    · rw [if_pos h]; rfl
    · rw [if_neg h]; rfl
  | term e =>
    rw [mapNames, failure?, failure?, Term.ofExpr_mapNames]
    cases Term.ofExpr e <;> rfl
  | pred e =>
    rw [mapNames, failure?, failure?, Pred.ofExpr_mapNames]
    cases Pred.ofExpr e <;> rfl
  | noRule kind span => cases policy <;> rfl

theorem Stmt.visits_mapNames (a : Stmt) (n : Nat) :
    (a.mapNames g).visits n = (a.visits n).map (Visit.mapNames g) := by
  induction a generalizing n with
  | loop s c i a ih => cases i <;> simp [mapNames, visits, Visit.mapNames, ih]
  | localDef s x e => cases e <;> rfl
  | _ => simp_all [mapNames, visits, Visit.mapNames]

theorem Stmt.firstFailure_mapNames (policy : Unsupported) (limit : UInt64) (a : Stmt) :
    (a.mapNames g).firstFailure policy limit = (a.firstFailure policy limit).map (Error.mapNames g) := by
  unfold firstFailure
  rw [visits_mapNames, List.findSome?_map, List.map_findSome?]
  congr 1
  funext v
  exact v.failure?_mapNames g policy limit

end

end StrongestPost
