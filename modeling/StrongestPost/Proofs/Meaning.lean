import StrongestPost.Logic.Rename

/-!
# The ideal meaning of predicates

Terms and predicates are read over the integers, where nothing overflows. A
reading takes two states: the current values, and the values at entry that
`old(x)` speaks of. Division is Euclidean; what becomes of a zero divisor is a
parameter, and nothing below depends on it.

`Pred.holds_rename` is the substitution lemma: renaming `x` to `y` in a predicate
has the effect of reading `x` where `y` stands, at both moments.
-/

namespace StrongestPost

def State : Type := String → Int

namespace State

def set (s : State) (x : String) (v : Int) : State := fun y => if y = x then v else s y

def AgreeOn (l : List String) (s t : State) : Prop := ∀ x ∈ l, s x = t x

/-- The values of `s` on the names of `l`, those of `t` elsewhere. -/
def onto (l : List String) (s t : State) : State := fun x => if x ∈ l then s x else t x

@[ext] theorem ext {s t : State} (h : ∀ x, s x = t x) : s = t := funext h

@[simp] theorem set_self (s : State) (x : String) (v : Int) : s.set x v x = v := by
  simp [set]

theorem set_of_ne (s : State) {x y : String} (v : Int) (h : y ≠ x) : s.set x v y = s y := by
  simp [set, h]

@[simp] theorem set_set (s : State) (x : String) (v w : Int) : (s.set x v).set x w = s.set x w := by
  ext y
  simp only [set]
  split <;> rfl

@[simp] theorem set_eq_self (s : State) (x : String) : s.set x (s x) = s := by
  ext y
  simp only [set]
  split
  · rename_i h; rw [h]
  · rfl

theorem AgreeOn.refl (l : List String) (s : State) : AgreeOn l s s := fun _ _ => rfl

theorem AgreeOn.symm {l : List String} {s t : State} (h : AgreeOn l s t) : AgreeOn l t s :=
  fun x hx => (h x hx).symm

theorem AgreeOn.mono {l l' : List String} {s t : State} (h : AgreeOn l s t) (hl : ∀ x ∈ l', x ∈ l) :
    AgreeOn l' s t :=
  fun x hx => h x (hl x hx)

theorem AgreeOn.set_right {l : List String} {s t : State} (h : AgreeOn l s t) {y : String} (hy : y ∉ l)
    (v : Int) : AgreeOn l s (t.set y v) := by
  intro x hx
  have hxy : x ≠ y := fun e => hy (e ▸ hx)
  rw [set_of_ne t v hxy]
  exact h x hx

theorem AgreeOn.set {l : List String} {s t : State} (h : AgreeOn l s t) (x : String) (v : Int) :
    AgreeOn l (s.set x v) (t.set x v) := by
  intro y hy
  by_cases hxy : y = x
  · subst hxy; simp
  · rw [set_of_ne s v hxy, set_of_ne t v hxy]; exact h y hy

/-- The state with the value `w` for `x`, where `y` keeps the one that `x` had. -/
def keep (s : State) (x y : String) (w : Int) : State := (s.set y (s x)).set x w

@[simp] theorem keep_self (s : State) (x y : String) (w : Int) : s.keep x y w x = w := set_self ..

theorem keep_set (s : State) {x y : String} (w : Int) (h : y ≠ x) :
    (s.keep x y w).set x (s.keep x y w y) = s.set y (s x) := by
  have hy : s.keep x y w y = s.set y (s x) x := by
    rw [keep, set_of_ne _ _ h, set_self, set_of_ne _ _ h.symm]
  rw [hy, keep, set_set, set_eq_self]

theorem AgreeOn.keep {l : List String} {s t : State} (h : AgreeOn l s t) (x : String) {y : String}
    (hy : y ∉ l) (w : Int) : AgreeOn l (s.set x w) (t.keep x y w) :=
  (h.set_right hy _).set x w

theorem onto_of_mem {l : List String} (s t : State) {x : String} (h : x ∈ l) : onto l s t x = s x :=
  if_pos h

theorem AgreeOn.onto (l : List String) (s t : State) : AgreeOn l s (onto l s t) :=
  fun _ hx => (onto_of_mem s t hx).symm

theorem onto_eq_of_agree {l : List String} {s t : State} (h : AgreeOn l s t) : onto l s t = t := by
  ext x
  by_cases hx : x ∈ l
  · rw [onto_of_mem s t hx, h x hx]
  · exact if_neg hx

theorem onto_set {l : List String} (s t : State) {x : String} (h : x ∈ l) (v : Int) :
    onto l (s.set x v) t = (onto l s t).set x v := by
  ext y
  by_cases hxy : y = x
  · subst hxy; simp [onto, h]
  · simp only [onto, set, hxy, ite_false]

end State

/-! ## Terms -/

/-- What a quotient and a remainder are where the divisor is zero. -/
structure ByZero where
  quotient : Int → Int
  remainder : Int → Int

def ArithOp.value (z : ByZero) : ArithOp → Int → Int → Int
  | add, a, b => a + b
  | sub, a, b => a - b
  | mul, a, b => a * b
  | div, a, b => if b = 0 then z.quotient a else a / b
  | mod, a, b => if b = 0 then z.remainder a else a % b

def Key.value (s b : State) : Key → Int
  | ⟨x, .current⟩ => s x
  | ⟨x, .before⟩ => b x

def Term.value (z : ByZero) (s b : State) : Term → Int
  | var _ k => k.value s b
  | lit _ v => v.toInt
  | neg _ t => -t.value z s b
  | arith _ t op u => op.value z (t.value z s b) (u.value z s b)

/-! ## Predicates -/

def RelOp.Holds : RelOp → Int → Int → Prop
  | eq, a, b => a = b
  | ne, a, b => a ≠ b
  | lt, a, b => a < b
  | le, a, b => a ≤ b
  | gt, a, b => b < a
  | ge, a, b => b ≤ a

instance : (op : RelOp) → (a b : Int) → Decidable (op.Holds a b)
  | .eq, a, b => inferInstanceAs (Decidable (a = b))
  | .ne, a, b => inferInstanceAs (Decidable (a ≠ b))
  | .lt, a, b => inferInstanceAs (Decidable (a < b))
  | .le, a, b => inferInstanceAs (Decidable (a ≤ b))
  | .gt, a, b => inferInstanceAs (Decidable (b < a))
  | .ge, a, b => inferInstanceAs (Decidable (b ≤ a))

def Connective.Joins : Connective → Prop → Prop → Prop
  | and, p, q => p ∧ q
  | or, p, q => p ∨ q
  | implies, p, q => p → q

instance : (op : Connective) → (p q : Prop) → [Decidable p] → [Decidable q] → Decidable (op.Joins p q)
  | .and, p, q, _, _ => inferInstanceAs (Decidable (p ∧ q))
  | .or, p, q, _, _ => inferInstanceAs (Decidable (p ∨ q))
  | .implies, p, q, _, _ => inferInstanceAs (Decidable (p → q))

namespace Pred

def Holds (z : ByZero) (s b : State) : Pred → Prop
  | lit _ v => v = true
  | rel _ t op u => op.Holds (t.value z s b) (u.value z s b)
  | neg _ p => ¬ p.Holds z s b
  | conn _ p op q => op.Joins (p.Holds z s b) (q.Holds z s b)

instance decidableHolds (z : ByZero) (s b : State) : (p : Pred) → Decidable (p.Holds z s b)
  | lit _ v => inferInstanceAs (Decidable (v = true))
  | rel _ t op u => inferInstanceAs (Decidable (op.Holds (t.value z s b) (u.value z s b)))
  | neg _ p =>
    have := decidableHolds z s b p
    inferInstanceAs (Decidable (¬ p.Holds z s b))
  | conn _ p op q =>
    have := decidableHolds z s b p
    have := decidableHolds z s b q
    inferInstanceAs (Decidable (op.Joins (p.Holds z s b) (q.Holds z s b)))

def Valid (z : ByZero) (p : Pred) : Prop := ∀ s b, p.Holds z s b

def SpeaksOf (K : Key → Prop) (p : Pred) : Prop := ∀ k ∈ p.keys, K k

/-- There is no reference to values at entry. -/
def CurrentOnly (p : Pred) : Prop := p.SpeaksOf fun k => k.moment = .current

section
variable {z : ByZero} {s b : State}

@[simp] theorem holds_and (p q : Pred) : (p.and q).Holds z s b ↔ p.Holds z s b ∧ q.Holds z s b := Iff.rfl

@[simp] theorem holds_or (p q : Pred) : (p.or q).Holds z s b ↔ p.Holds z s b ∨ q.Holds z s b := Iff.rfl

@[simp] theorem holds_implies (p q : Pred) :
    (p.implies q).Holds z s b ↔ (p.Holds z s b → q.Holds z s b) := Iff.rfl

@[simp] theorem holds_not (p : Pred) : p.not.Holds z s b ↔ ¬ p.Holds z s b := Iff.rfl

@[simp] theorem holds_atSpan (p : Pred) (span : Span) : (p.atSpan span).Holds z s b ↔ p.Holds z s b := by
  cases p <;> exact Iff.rfl

theorem holds_foldl_and (p : Pred) (ps : List Pred) :
    (ps.foldl and p).Holds z s b ↔ p.Holds z s b ∧ ∀ q ∈ ps, q.Holds z s b := by
  induction ps generalizing p with
  | nil => simp
  | cons q ps ih => rw [List.foldl_cons, ih, holds_and, List.forall_mem_cons, and_assoc]

theorem holds_conj (ps : List Pred) : (conj ps).Holds z s b ↔ ∀ p ∈ ps, p.Holds z s b := by
  cases ps with
  | nil => simp [conj, ofBool, Holds]
  | cons p ps => rw [conj, holds_foldl_and, List.forall_mem_cons]

end

end Pred

/-! ## What a reading depends on -/

section
variable {z : ByZero} {s s' b b' : State}

theorem Key.value_of_agree {k : Key} {l : List String} (hk : k.name ∈ l) (hs : State.AgreeOn l s s')
    (hb : State.AgreeOn l b b') : k.value s b = k.value s' b' := by
  obtain ⟨x, m⟩ := k
  cases m with
  | current => exact hs x hk
  | before => exact hb x hk

theorem Term.value_congr {t : Term} (h : ∀ k ∈ t.keys, k.value s b = k.value s' b') :
    t.value z s b = t.value z s' b' := by
  induction t with
  | var _ k => exact h k (by simp)
  | lit => rfl
  | neg _ t ih => simp only [Term.value, ih h]
  | arith _ t op u iht ihu =>
    simp only [Term.keys_arith, List.mem_append] at h
    simp only [Term.value, iht fun k hk => h k (.inl hk), ihu fun k hk => h k (.inr hk)]

theorem Pred.holds_congr {p : Pred} (h : ∀ k ∈ p.keys, k.value s b = k.value s' b') :
    p.Holds z s b ↔ p.Holds z s' b' := by
  induction p with
  | lit => exact Iff.rfl
  | rel _ t op u =>
    simp only [Pred.keys_rel, List.mem_append] at h
    have ht : t.value z s b = t.value z s' b' := Term.value_congr fun k hk => h k (.inl hk)
    have hu : u.value z s b = u.value z s' b' := Term.value_congr fun k hk => h k (.inr hk)
    simp only [Pred.Holds, ht, hu]
  | neg _ p ih => simp only [Pred.Holds, ih h]
  | conn _ p op q ihp ihq =>
    simp only [Pred.keys_conn, List.mem_append] at h
    simp only [Pred.Holds, ihp fun k hk => h k (.inl hk), ihq fun k hk => h k (.inr hk)]

theorem Pred.holds_of_agree {p : Pred} {l : List String} (hp : ∀ x ∈ p.names, x ∈ l)
    (hs : State.AgreeOn l s s') (hb : State.AgreeOn l b b') (h : p.Holds z s b) : p.Holds z s' b' := by
  refine (Pred.holds_congr fun k hk => ?_).mp h
  exact Key.value_of_agree (hp _ (List.mem_map_of_mem hk)) hs hb

theorem Pred.CurrentOnly.holds_iff {p : Pred} (hp : p.CurrentOnly) : p.Holds z s b ↔ p.Holds z s b' := by
  refine Pred.holds_congr fun k hk => ?_
  obtain ⟨x, m⟩ := k
  cases m with
  | current => rfl
  | before => exact absurd (hp _ hk) (by simp)

end

/-! ## Renaming -/

section
variable {z : ByZero} {s b : State}

theorem Key.value_rename (k : Key) (x y : String) :
    (k.rename x y).value s b = k.value (s.set x (s y)) (b.set x (b y)) := by
  obtain ⟨w, m⟩ := k
  by_cases h : w = x
  · subst h; cases m <;> simp [Key.rename, Key.value]
  · cases m <;> simp [Key.rename, Key.value, h, State.set]

theorem Term.value_rename (t : Term) (x y : String) :
    (t.rename x y).value z s b = t.value z (s.set x (s y)) (b.set x (b y)) := by
  induction t with
  | var _ k => exact k.value_rename x y
  | lit => rfl
  | neg _ t ih => simp only [Term.rename, Term.value, ih]
  | arith _ t op u iht ihu => simp only [Term.rename, Term.value, iht, ihu]

theorem Pred.holds_rename (p : Pred) (x y : String) :
    (p.rename x y).Holds z s b ↔ p.Holds z (s.set x (s y)) (b.set x (b y)) := by
  induction p with
  | lit => exact Iff.rfl
  | rel _ t op u => simp only [Pred.rename, Pred.Holds, Term.value_rename]
  | neg _ p ih => simp only [Pred.rename, Pred.Holds, ih]
  | conn _ p op q ihp ihq => simp only [Pred.rename, Pred.Holds, ihp, ihq]

theorem Term.value_rename_keep {t : Term} {x y : String} (hxy : y ≠ x) (ht : y ∉ t.keys.map Key.name)
    {v w : Int} : (t.rename x y).value z (s.keep x y v) (b.keep x y w) = t.value z s b := by
  rw [value_rename, State.keep_set s v hxy, State.keep_set b w hxy]
  have hs := (State.AgreeOn.refl _ s).set_right ht (s x)
  have hb := (State.AgreeOn.refl _ b).set_right ht (b x)
  exact value_congr fun k hk => Key.value_of_agree (List.mem_map_of_mem hk) hs.symm hb.symm

theorem Pred.holds_rename_keep {p : Pred} {x y : String} (hxy : y ≠ x) (hp : y ∉ p.names) {v w : Int} :
    (p.rename x y).Holds z (s.keep x y v) (b.keep x y w) ↔ p.Holds z s b := by
  rw [holds_rename, State.keep_set s v hxy, State.keep_set b w hxy]
  have hs := (State.AgreeOn.refl _ s).set_right hp (s x)
  have hb := (State.AgreeOn.refl _ b).set_right hp (b x)
  constructor
  · intro h; exact holds_of_agree (fun _ hx => hx) hs.symm hb.symm h
  · intro h; exact holds_of_agree (fun _ hx => hx) hs hb h

end

/-! ## Names read existentially

A predicate that speaks of more than the names of `l` says something about a state
over `l`: that some values of the other names make it true. -/

namespace Pred

def HoldsOn (z : ByZero) (l : List String) (s b : State) (p : Pred) : Prop :=
  ∃ v b', State.AgreeOn l s v ∧ State.AgreeOn l b b' ∧ p.Holds z v b'

section
variable {z : ByZero} {l : List String} {s s' b : State} {p q : Pred}

theorem Holds.holdsOn (h : p.Holds z s b) : p.HoldsOn z l s b :=
  ⟨s, b, .refl l s, .refl l b, h⟩

theorem HoldsOn.holds (h : p.HoldsOn z l s b) (hp : ∀ x ∈ p.names, x ∈ l) : p.Holds z s b := by
  obtain ⟨v, b', hv, hb, h⟩ := h
  exact holds_of_agree hp hv.symm hb.symm h

theorem HoldsOn.congr (h : p.HoldsOn z l s b) (hs : State.AgreeOn l s' s) : p.HoldsOn z l s' b := by
  obtain ⟨v, b', hv, hb, h⟩ := h
  exact ⟨v, b', fun x hx => (hs x hx).trans (hv x hx), hb, h⟩

theorem HoldsOn.mp (h : p.HoldsOn z l s b) (hpq : (p.implies q).Valid z) : q.HoldsOn z l s b := by
  obtain ⟨v, b', hv, hb, h⟩ := h
  exact ⟨v, b', hv, hb, hpq v b' h⟩

theorem HoldsOn.and_right (h : p.HoldsOn z l s b) (hq : q.Holds z s b) (hl : ∀ x ∈ q.names, x ∈ l) :
    (p.and q).HoldsOn z l s b := by
  obtain ⟨v, b', hv, hb, h⟩ := h
  exact ⟨v, b', hv, hb, h, holds_of_agree hl hv hb hq⟩

theorem HoldsOn.and_left (h : p.HoldsOn z l s b) (hq : q.Holds z s b) (hl : ∀ x ∈ q.names, x ∈ l) :
    (q.and p).HoldsOn z l s b := by
  obtain ⟨v, b', hv, hb, h⟩ := h
  exact ⟨v, b', hv, hb, holds_of_agree hl hv hb hq, h⟩

theorem HoldsOn.or_left (h : p.HoldsOn z l s b) : (p.or q).HoldsOn z l s b := by
  obtain ⟨v, b', hv, hb, h⟩ := h
  exact ⟨v, b', hv, hb, .inl h⟩

theorem HoldsOn.or_right (h : q.HoldsOn z l s b) : (p.or q).HoldsOn z l s b := by
  obtain ⟨v, b', hv, hb, h⟩ := h
  exact ⟨v, b', hv, hb, .inr h⟩

theorem HoldsOn.atSpan {span : Span} (h : p.HoldsOn z l s b) : (p.atSpan span).HoldsOn z l s b := by
  obtain ⟨v, b', hv, hb, h⟩ := h
  exact ⟨v, b', hv, hb, (holds_atSpan p span).mpr h⟩

theorem HoldsOn.rename (h : p.HoldsOn z l s b) {x y : String} (hx : x ∈ l) (hy : y ∉ l)
    (hp : y ∉ p.names) (w : Int) : (p.rename x y).HoldsOn z l (s.set x w) b := by
  obtain ⟨v, b', hv, hb, h⟩ := h
  have hxy : y ≠ x := fun e => hy (e ▸ hx)
  have hkeep := hb.keep x hy (b x)
  rw [b.set_eq_self x] at hkeep
  exact ⟨v.keep x y w, b'.keep x y (b x), hv.keep x hy w, hkeep, (holds_rename_keep hxy hp).mpr h⟩

end

end Pred

end StrongestPost
