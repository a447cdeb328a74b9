import StrongestPost.Logic.Pred

/-!
# Renaming

`rename old new` replaces a name at both moments, everywhere. Positions and
structure stay as they are.
-/

namespace StrongestPost

def Term.rename (old new : String) : Term → Term
  | var s k => var s (k.rename old new)
  | lit s v => lit s v
  | neg s t => neg s (t.rename old new)
  | arith s t op u => arith s (t.rename old new) op (u.rename old new)

def Pred.rename (old new : String) : Pred → Pred
  | lit s b => lit s b
  | rel s t op u => rel s (t.rename old new) op (u.rename old new)
  | neg s p => neg s (p.rename old new)
  | conn s p op q => conn s (p.rename old new) op (q.rename old new)

@[simp] theorem Term.keys_rename (old new : String) (t : Term) :
    (t.rename old new).keys = t.keys.map (Key.rename old new) := by
  induction t <;> simp_all [rename]

@[simp] theorem Pred.keys_rename (old new : String) (p : Pred) :
    (p.rename old new).keys = p.keys.map (Key.rename old new) := by
  induction p <;> simp_all [rename]

@[simp] theorem Pred.span_rename (old new : String) (p : Pred) :
    (p.rename old new).span = p.span := by
  cases p <;> rfl

end StrongestPost
