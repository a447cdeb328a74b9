import StrongestPost.Logic.Term

/-!
# Predicates

Quantifier-free formulas over integer terms. There are no binders, so every
occurrence of a key is free.
-/

namespace StrongestPost

inductive Pred where
  | lit (span : Span) (value : Bool)
  | rel (span : Span) (lhs : Term) (op : RelOp) (rhs : Term)
  | neg (span : Span) (operand : Pred)
  | conn (span : Span) (lhs : Pred) (op : Connective) (rhs : Pred)
deriving DecidableEq

/-- Compares two terms at the position of the left one. -/
def RelOp.apply (op : RelOp) (t u : Term) : Pred := .rel t.span t op u

namespace Pred

def span : Pred → Span
  | lit s _ | rel s _ _ _ | neg s _ | conn s _ _ _ => s

/-- The same predicate at another position. Its parts stay where they are. -/
def atSpan (s : Span) : Pred → Pred
  | lit _ b => lit s b
  | rel _ t op u => rel s t op u
  | neg _ p => neg s p
  | conn _ p op q => conn s p op q

/-! ## Making predicates -/

def ofBool (b : Bool) : Pred := lit .synthesized b

def not (p : Pred) : Pred := neg p.span p

/-- Joins two predicates at the position of the left one. -/
def join (p : Pred) (op : Connective) (q : Pred) : Pred := conn p.span p op q

def and (p q : Pred) : Pred := p.join .and q

def or (p q : Pred) : Pred := p.join .or q

def implies (p q : Pred) : Pred := p.join .implies q

/-- The conjunction of a list, nested to the left; `true` when it is empty. -/
def conj : List Pred → Pred
  | [] => ofBool true
  | p :: ps => ps.foldl and p

def isRel : Pred → Bool
  | rel .. => true
  | _ => false

/-- Comparisons have no brackets of their own, so their negation adds them. -/
def text : Pred → String
  | lit _ b => toString b
  | rel _ t op u => t.text ++ " " ++ op.text ++ " " ++ u.text
  | neg _ p => if p.isRel then "!(" ++ p.text ++ ")" else "!" ++ p.text
  | conn _ p op q => "(" ++ p.text ++ " " ++ op.text ++ " " ++ q.text ++ ")"

/-! ## Keys -/

/-- The keys of a predicate in front of `rest`. -/
def keysOnto : Pred → List Key → List Key
  | lit _ _, rest => rest
  | rel _ t _ u, rest => t.keysOnto (u.keysOnto rest)
  | neg _ p, rest => p.keysOnto rest
  | conn _ p _ q, rest => p.keysOnto (q.keysOnto rest)

def keys (p : Pred) : List Key := p.keysOnto []

/-- The names that occur, at either moment. -/
def names (p : Pred) : List String := p.keys.map Key.name

def freeKeys (p : Pred) : List Key := inOrder p.keys

def freeNames (p : Pred) : List String := inOrder p.names

theorem keysOnto_eq (p : Pred) (rest : List Key) : p.keysOnto rest = p.keys ++ rest := by
  unfold keys
  induction p generalizing rest with
  | lit => rfl
  | rel s t op u => simp [keysOnto, Term.keysOnto_eq]
  | neg s p ih => simp only [keysOnto, ih rest]
  | conn s p op q ihp ihq =>
    simp only [keysOnto]
    rw [ihq rest, ihp (q.keysOnto [] ++ rest), ihp (q.keysOnto []), List.append_assoc]

@[simp] theorem keys_lit (s : Span) (b : Bool) : (lit s b).keys = [] := rfl

@[simp] theorem keys_rel (s : Span) (t : Term) (op : RelOp) (u : Term) :
    (rel s t op u).keys = t.keys ++ u.keys :=
  t.keysOnto_eq u.keys

@[simp] theorem keys_neg (s : Span) (p : Pred) : (neg s p).keys = p.keys := rfl

@[simp] theorem keys_conn (s : Span) (p : Pred) (op : Connective) (q : Pred) :
    (conn s p op q).keys = p.keys ++ q.keys :=
  p.keysOnto_eq q.keys

theorem names_join (p : Pred) (op : Connective) (q : Pred) : (p.join op q).names = p.names ++ q.names := by
  simp [names, join]

@[simp] theorem names_and (p q : Pred) : (p.and q).names = p.names ++ q.names := names_join ..

@[simp] theorem names_not (p : Pred) : p.not.names = p.names := rfl

@[simp] theorem names_atSpan (p : Pred) (s : Span) : (p.atSpan s).names = p.names := by
  cases p <;> rfl

@[simp] theorem span_atSpan (p : Pred) (s : Span) : (p.atSpan s).span = s := by
  cases p <;> rfl

end Pred

end StrongestPost
