import StrongestPost.Logic.Eval
import StrongestPost.Text.Blank

/-!
# Texts of formulas are unambiguous

What a text does not show of a predicate are the positions, and whether a negative number
is a literal or a negated one; `Pred.bare` forgets just that. Texts are compared from the left, in
front of any rest. A term and a predicate end where a rest begins that neither can go on
with (`Stops`, `Pred.Ends`), so a text has one reading.

Terms and predicates share brackets. A predicate that begins with a term and an operator
for terms can only be a comparison (`Pred.rel_of_textOnto`): in an opened bracket, a
connective would have to follow.
-/

namespace StrongestPost

/-! ## What a text shows -/

/-- Negation, where that of a positive literal is a literal. -/
def Term.minus : Term → Term
  | lit _ v => if 0 < v then lit .synthesized (-v) else neg .synthesized (lit .synthesized v)
  | t => neg .synthesized t

/-- The term at no position, with a literal wherever a positive one is negated. -/
def Term.bare : Term → Term
  | var _ k => var .synthesized k
  | lit _ v => lit .synthesized v
  | neg _ t => t.bare.minus
  | arith _ t op u => arith .synthesized t.bare op u.bare

def Pred.bare : Pred → Pred
  | lit _ b => lit .synthesized b
  | rel _ t op u => rel .synthesized t.bare op u.bare
  | neg _ p => neg .synthesized p.bare
  | conn _ p op q => conn .synthesized p.bare op q.bare

theorem toInt_neg_of_pos {v : Int64} (h : 0 < v) : (-v).toInt = -v.toInt := by
  have hv : v.toInt ≤ 2 ^ 63 - 1 := Int64.toInt_le v
  rw [Int64.lt_iff_toInt_lt, Int64.toInt_zero] at h
  rw [← Int64.ofInt_toInt v, ← Int64.ofInt_neg, Int64.ofInt_toInt]
  exact Int64.toInt_ofInt_of_le (by omega) (by omega)

theorem Term.minus_of_pos {s : Span} {v : Int64} (h : 0 < v) : (lit s v).minus = lit .synthesized (-v) :=
  if_pos h

theorem Term.minus_of_not_pos {s : Span} {v : Int64} (h : ¬ 0 < v) :
    (lit s v).minus = neg .synthesized (lit .synthesized v) :=
  if_neg h

section
variable (env : Valuation)

theorem Term.eval_minus (s : Span) (t : Term) : t.minus.eval env = (neg s t).eval env := by
  cases t with
  | lit s' v =>
    by_cases hv : 0 < v
    · have hneg : Int64.ofInt (-v.toInt) = -v := by rw [Int64.ofInt_neg, Int64.ofInt_toInt]
      have hexact : exact (-v.toInt) = .ok (-v) := by
        rw [exact, hneg, if_pos (toInt_neg_of_pos hv)]
      rw [minus_of_pos hv]
      exact hexact.symm
    · rw [minus_of_not_pos hv]
      rfl
  | var | neg | arith => rfl

theorem Term.eval_bare (t : Term) : t.bare.eval env = t.eval env := by
  induction t with
  | var | lit => rfl
  | neg s t ih =>
    rw [bare, eval_minus env s]
    simp only [eval, ih]
  | arith s t op u iht ihu => simp only [bare, eval, iht, ihu]

theorem Pred.eval_bare (p : Pred) : p.bare.eval env = p.eval env := by
  induction p with
  | lit => rfl
  | rel s t op u => simp only [bare, eval, Term.eval_bare]
  | neg s p ih => simp only [bare, eval, ih]
  | conn s p op q ihp ihq => simp only [bare, eval, ihp, ihq]

end

theorem Term.keys_minus (t : Term) : t.minus.keys = t.keys := by
  cases t with
  | lit s v =>
    by_cases hv : 0 < v
    · rw [minus_of_pos hv]; rfl
    · rw [minus_of_not_pos hv]; rfl
  | var | neg | arith => rfl

theorem Term.keys_bare (t : Term) : t.bare.keys = t.keys := by
  induction t <;> simp_all [bare, keys_minus]

theorem Pred.keys_bare (p : Pred) : p.bare.keys = p.keys := by
  induction p <;> simp_all [bare, Term.keys_bare]

/-! ## Texts in front of a rest -/

def signedDigits (v : Int) : List Char :=
  if 0 ≤ v then Nat.toDigits 10 v.toNat else '-' :: Nat.toDigits 10 (-v).toNat

def Term.textOnto : Term → List Char → List Char
  | var _ ⟨x, .current⟩, r => x.toList ++ r
  | var _ ⟨x, .before⟩, r => 'o' :: 'l' :: 'd' :: '(' :: (x.toList ++ ')' :: r)
  | lit _ v, r => signedDigits v.toInt ++ r
  | neg _ t, r => '-' :: t.textOnto r
  | arith _ t op u, r => '(' :: t.textOnto (' ' :: (op.text.toList ++ ' ' :: u.textOnto (')' :: r)))

def Pred.textOnto : Pred → List Char → List Char
  | lit _ b, r => (toString b).toList ++ r
  | rel _ t op u, r => t.textOnto (' ' :: (op.text.toList ++ ' ' :: u.textOnto r))
  | neg _ p, r => if p.isRel then '!' :: '(' :: p.textOnto (')' :: r) else '!' :: p.textOnto r
  | conn _ p op q, r => '(' :: p.textOnto (' ' :: (op.text.toList ++ ' ' :: q.textOnto (')' :: r)))

theorem toList_toString_int (v : Int) : (toString v).toList = signedDigits v := by
  rw [Int.toString_eq_repr, Int.repr_eq_if, signedDigits]
  by_cases hv : 0 ≤ v
  · simp [hv, Nat.toList_repr]
  · simp [hv, Nat.toList_repr]

theorem Term.textOnto_eq (t : Term) (r : List Char) : t.textOnto r = t.text.toList ++ r := by
  induction t generalizing r with
  | var s k =>
    obtain ⟨x, m⟩ := k
    cases m <;> simp [textOnto, text, Key.text]
  | lit s v => rw [textOnto, text, toList_toString_int]
  | neg s t ih => simp [textOnto, text, ih]
  | arith s t op u iht ihu => simp [textOnto, text, iht, ihu]

theorem Pred.textOnto_eq (p : Pred) (r : List Char) : p.textOnto r = p.text.toList ++ r := by
  induction p generalizing r with
  | lit s b => rfl
  | rel s t op u => simp [textOnto, text, Term.textOnto_eq]
  | neg s p ih =>
    by_cases hp : p.isRel
    · simp [textOnto, text, ih, hp]
    · simp [textOnto, text, ih, hp]
  | conn s p op q ihp ihq => simp [textOnto, text, ihp, ihq]

/-! ## Where words end -/

theorem append_inj_of_stop {P : Char → Prop} {x y r r' : List Char} (hx : ∀ c ∈ x, P c) (hy : ∀ c ∈ y, P c)
    (hr : ∀ c ∈ r.head?, ¬ P c) (hr' : ∀ c ∈ r'.head?, ¬ P c) (h : x ++ r = y ++ r') : x = y ∧ r = r' := by
  induction x generalizing y with
  | nil =>
    cases y with
    | nil => exact ⟨rfl, h⟩
    | cons d y =>
      rw [List.nil_append] at h
      exact absurd (hy d (.head _)) (hr d (by rw [h]; rfl))
  | cons c x ih =>
    cases y with
    | nil =>
      rw [List.nil_append] at h
      exact absurd (hx c (.head _)) (hr' c (by rw [← h]; rfl))
    | cons d y =>
      rw [List.cons_append, List.cons_append, List.cons.injEq] at h
      obtain ⟨rfl, h⟩ := h
      obtain ⟨rfl, hrest⟩ := ih (fun c hc => hx c (.tail _ hc)) (fun c hc => hy c (.tail _ hc)) h
      exact ⟨rfl, hrest⟩

/-- No word goes on with the rest. -/
def Stops (r : List Char) : Prop := ∀ c ∈ r.head?, c = ' ' ∨ c = ')'

@[simp] theorem stops_nil : Stops [] := by simp [Stops]

@[simp] theorem stops_space (r : List Char) : Stops (' ' :: r) := by simp [Stops]

@[simp] theorem stops_close (r : List Char) : Stops (')' :: r) := by simp [Stops]

/-- No predicate goes on with the rest: it has been closed, or a connective follows. -/
inductive Pred.Ends : List Char → Prop
  | nil : Ends []
  | close {r} : Ends (')' :: r)
  | conn {op : Connective} {r} : Ends (' ' :: (op.text.toList ++ ' ' :: r))

theorem Pred.Ends.stops {r : List Char} (h : Pred.Ends r) : Stops r := by
  cases h <;> simp

/-! ## Names and numbers -/

/-- Letters and the underscore start names, and so does what starts no number and no negation. -/
def startsName (c : Char) : Bool := !(c.isDigit || c == '-' || c == '!')

def inName (c : Char) : Bool := !(isBlank c || c == '(' || c == ')')

def PlainName (x : String) : Prop := x.toList.head?.any startsName ∧ x.toList.all inName

instance : DecidablePred PlainName := fun x =>
  inferInstanceAs (Decidable (x.toList.head?.any startsName ∧ x.toList.all inName))

theorem Stops.not_inName {r : List Char} (h : Stops r) : ∀ c ∈ r.head?, ¬ inName c := by
  intro c hc
  rcases h c hc with rfl | rfl <;> decide

theorem Stops.not_isDigit {r : List Char} (h : Stops r) : ∀ c ∈ r.head?, ¬ c.isDigit := by
  intro c hc
  rcases h c hc with rfl | rfl <;> decide

theorem isDigit_of_mem {n : Nat} : ∀ c ∈ Nat.toDigits 10 n, c.isDigit := fun _ hc =>
  Nat.isDigit_of_mem_toDigits (by decide) (by decide) hc

section
variable {r r' : List Char} (hr : Stops r) (hr' : Stops r')
include hr hr'

theorem name_inj {x y : String} (hx : PlainName x) (hy : PlainName y)
    (h : x.toList ++ r = y.toList ++ r') : x = y ∧ r = r' := by
  obtain ⟨hxy, hrest⟩ := append_inj_of_stop (List.all_eq_true.mp hx.2) (List.all_eq_true.mp hy.2)
    hr.not_inName hr'.not_inName h
  exact ⟨String.toList_injective hxy, hrest⟩

theorem digits_inj {m n : Nat} (h : Nat.toDigits 10 m ++ r = Nat.toDigits 10 n ++ r') : m = n ∧ r = r' := by
  obtain ⟨hmn, hrest⟩ := append_inj_of_stop isDigit_of_mem isDigit_of_mem hr.not_isDigit hr'.not_isDigit h
  refine ⟨?_, hrest⟩
  rw [← @Nat.ofDigitChars_ten_toDigits m, hmn, Nat.ofDigitChars_ten_toDigits]

end

/-! ## Operators -/

/-- What is written between blanks. -/
inductive Symbol where
  | arith (op : ArithOp)
  | rel (op : RelOp)
  | conn (op : Connective)
deriving DecidableEq

namespace Symbol

def text : Symbol → String
  | arith op => op.text
  | rel op => op.text
  | conn op => op.text

/-- No two operators are written the same, of whichever kind they are. -/
def family : Family Symbol where
  all := ArithOp.family.all.map arith ++ RelOp.family.all.map rel ++ Connective.family.all.map conn
  name := text
  mem_all o := by cases o <;> simp

theorem space_not_mem (o : Symbol) : ' ' ∉ o.text.toList := by
  have hall : ∀ o ∈ family.all, ' ' ∉ o.text.toList := by decide
  exact hall o (family.mem_all o)

theorem onto_inj (o o' : Symbol) {w w' : List Char}
    (h : ' ' :: (o.text.toList ++ ' ' :: w) = ' ' :: (o'.text.toList ++ ' ' :: w')) : o = o' ∧ w = w' := by
  have hne (o : Symbol) : ∀ c ∈ o.text.toList, c ≠ ' ' := fun c hc e => o.space_not_mem (e ▸ hc)
  obtain ⟨htext, hrest⟩ := append_inj_of_stop (hne o) (hne o') (by simp) (by simp) (List.cons.inj h).2
  exact ⟨family.name_inj (String.toList_injective htext), (List.cons.inj hrest).2⟩

end Symbol

/-! ## How a text begins -/

inductive Lead where
  | name | digit | minus | bracket | bang

def Lead.of (c : Char) : Lead :=
  if c = '(' then .bracket else if c = '-' then .minus else if c = '!' then .bang
  else if c.isDigit then .digit else .name

theorem Lead.of_isDigit {c : Char} (h : c.isDigit) : Lead.of c = .digit := by
  have hne {d : Char} (hd : d.isDigit = false) : c ≠ d := fun e => by rw [e, hd] at h; cases h
  simp [Lead.of, h, hne (d := '(') rfl, hne (d := '-') rfl, hne (d := '!') rfl]

theorem Lead.of_startsName {c : Char} (h : startsName c) (h' : inName c) : Lead.of c = .name := by
  simp only [startsName, inName, Bool.not_eq_true', Bool.or_eq_false_iff, beq_eq_false_iff_ne] at h h'
  simp [Lead.of, h, h']

theorem Lead.unique {w w' : List Char} {a b : Lead} (hw : w.head?.map Lead.of = some a)
    (hw' : w'.head?.map Lead.of = some b) (h : w = w') : a = b := by
  subst h
  exact Option.some.inj (hw.symm.trans hw')

def Term.lead : Term → Lead
  | var .. => .name
  | lit _ v => if 0 ≤ v.toInt then .digit else .minus
  | neg .. => .minus
  | arith .. => .bracket

def Pred.lead : Pred → Lead
  | lit .. => .name
  | rel _ t _ _ => t.lead
  | neg .. => .bang
  | conn .. => .bracket

def Term.Legible (t : Term) : Prop := ∀ k ∈ t.keys, PlainName k.name

def Pred.Legible (p : Pred) : Prop := ∀ k ∈ p.keys, PlainName k.name

theorem head_digits (n : Nat) (r : List Char) :
    (Nat.toDigits 10 n ++ r).head?.map Lead.of = some .digit := by
  cases hd : Nat.toDigits 10 n with
  | nil => exact absurd hd Nat.toDigits_ne_nil
  | cons c cs =>
    have hc : c.isDigit := isDigit_of_mem c (by rw [hd]; exact .head _)
    simp [Lead.of_isDigit hc]

theorem head_name {x : String} (hx : PlainName x) (r : List Char) :
    (x.toList ++ r).head?.map Lead.of = some .name := by
  obtain ⟨hstart, hall⟩ := hx
  cases hd : x.toList with
  | nil => rw [hd] at hstart; cases hstart
  | cons c cs =>
    rw [hd] at hstart hall
    simp only [List.all_cons, Bool.and_eq_true] at hall
    simp [Lead.of_startsName hstart hall.1]

theorem Term.head_textOnto {t : Term} (ht : t.Legible) (r : List Char) :
    (t.textOnto r).head?.map Lead.of = some t.lead := by
  cases t with
  | var s k =>
    obtain ⟨x, m⟩ := k
    cases m with
    | current => exact head_name (ht ⟨x, .current⟩ (by simp)) r
    | before => rfl
  | lit s v =>
    rw [textOnto, signedDigits, lead]
    by_cases hv : 0 ≤ v.toInt
    · rw [if_pos hv, if_pos hv]
      exact head_digits ..
    · rw [if_neg hv, if_neg hv]
      rfl
  | neg | arith => rfl

theorem Pred.head_textOnto {p : Pred} (hp : p.Legible) (r : List Char) :
    (p.textOnto r).head?.map Lead.of = some p.lead := by
  cases p with
  | lit s b => cases b <;> rfl
  | rel s t op u =>
    apply Term.head_textOnto
    exact fun k hk => hp k (by simp [hk])
  | neg s p =>
    unfold textOnto
    by_cases hrel : p.isRel
    · rw [if_pos hrel]; rfl
    · rw [if_neg hrel]; rfl
  | conn => rfl

/-! ## Terms -/

theorem Term.legible_neg {s : Span} {t : Term} : (neg s t).Legible ↔ t.Legible := Iff.rfl

theorem Term.legible_arith {s : Span} {t u : Term} {op : ArithOp} :
    (arith s t op u).Legible ↔ t.Legible ∧ u.Legible := by
  simp [Legible, or_imp, forall_and]

theorem Term.lead_lit (s : Span) (v : Int64) : (lit s v).lead = .digit ∨ (lit s v).lead = .minus := by
  unfold lead
  by_cases hv : 0 ≤ v.toInt
  · exact .inl (if_pos hv)
  · exact .inr (if_neg hv)

theorem Term.var_of_lead {t : Term} (h : t.lead = .name) : ∃ s k, t = var s k := by
  cases t with
  | var s k => exact ⟨s, k, rfl⟩
  | lit s v => rcases lead_lit s v with e | e <;> cases h.symm.trans e
  | neg | arith => cases h

theorem Term.arith_of_lead {t : Term} (h : t.lead = .bracket) : ∃ s t' op u, t = arith s t' op u := by
  cases t with
  | arith s t' op u => exact ⟨s, t', op, u, rfl⟩
  | lit s v => rcases lead_lit s v with e | e <;> cases h.symm.trans e
  | var | neg => cases h

theorem Term.lead_ne_bang (t : Term) : t.lead ≠ .bang := by
  intro h
  cases t with
  | lit s v => rcases lead_lit s v with e | e <;> cases h.symm.trans e
  | var | neg | arith => cases h

/-- The negative numbers that a literal and a negated one are written as are the same. -/
theorem Term.minus_bare_lit {s : Span} {v w : Int64} (hv : ¬ 0 ≤ v.toInt) (hw : w.toInt = -v.toInt) :
    (lit s w).bare.minus = lit .synthesized v := by
  have hpos : 0 < w := by
    rw [Int64.lt_iff_toInt_lt, Int64.toInt_zero]
    omega
  have hneg : -w = v := by
    rw [← Int64.toInt_inj, toInt_neg_of_pos hpos]
    omega
  rw [bare, minus_of_pos hpos, hneg]

theorem Term.lead_eq {t u : Term} {r r' : List Char} (ht : t.Legible) (hu : u.Legible)
    (h : t.textOnto r = u.textOnto r') : t.lead = u.lead :=
  Lead.unique (head_textOnto ht r) (head_textOnto hu r') h

section
variable {t : Term} {r r' : List Char} (hr : Stops r) (hr' : Stops r')
include hr hr'

theorem signedDigits_inj {v w : Int} (h : signedDigits v ++ r = signedDigits w ++ r') : v = w ∧ r = r' := by
  have hsign {m n : Nat} {q q' : List Char} : Nat.toDigits 10 m ++ q ≠ '-' :: (Nat.toDigits 10 n ++ q') :=
    fun e => nomatch Lead.unique (head_digits m q) (b := .minus) rfl e
  unfold signedDigits at h
  by_cases hv : 0 ≤ v <;> by_cases hw : 0 ≤ w
  · rw [if_pos hv, if_pos hw] at h
    obtain ⟨hn, hrest⟩ := digits_inj hr hr' h
    exact ⟨by omega, hrest⟩
  · rw [if_pos hv, if_neg hw] at h
    exact absurd h hsign
  · rw [if_neg hv, if_pos hw] at h
    exact absurd h.symm hsign
  · rw [if_neg hv, if_neg hw, List.cons_append, List.cons_append, List.cons.injEq] at h
    obtain ⟨hn, hrest⟩ := digits_inj hr hr' h.2
    exact ⟨by omega, hrest⟩

theorem Term.lit_of_digits {n : Nat} (ht : t.Legible) (h : t.textOnto r = Nat.toDigits 10 n ++ r') :
    ∃ s v, t = lit s v ∧ v.toInt = n ∧ r = r' := by
  have hlead : t.lead = .digit := Lead.unique (head_textOnto ht r) (head_digits n r') h
  cases t with
  | lit s v =>
    by_cases hv : 0 ≤ v.toInt
    · rw [textOnto, signedDigits, if_pos hv] at h
      obtain ⟨hn, hrest⟩ := digits_inj hr hr' h
      exact ⟨s, v, rfl, by omega, hrest⟩
    · rw [lead, if_neg hv] at hlead
      cases hlead
  | var | neg | arith => cases hlead

theorem Term.neg_lit_inj {s s' : Span} {v : Int64} (ht : (neg s t).Legible)
    (h : (neg s t).textOnto r = (lit s' v).textOnto r') : (neg s t).bare = (lit s' v).bare ∧ r = r' := by
  have hlead : (neg s t).lead = (lit s' v).lead := lead_eq ht (fun _ hk => nomatch hk) h
  by_cases hv : 0 ≤ v.toInt
  · simp [lead, hv] at hlead
  · rw [textOnto, textOnto, signedDigits, if_neg hv, List.cons_append, List.cons.injEq] at h
    obtain ⟨_, w, rfl, hw, hrest⟩ := lit_of_digits hr hr' (legible_neg.mp ht) h.2
    exact ⟨minus_bare_lit hv (by omega), hrest⟩

end

theorem Key.text_inj {k k' : Key} (hk : PlainName k.name) (hk' : PlainName k'.name) {s s' : Span}
    {r r' : List Char} (hr : Stops r) (hr' : Stops r')
    (h : (Term.var s k).textOnto r = (Term.var s' k').textOnto r') : k = k' ∧ r = r' := by
  have hold : ∀ c ∈ ['o', 'l', 'd'], inName c := List.all_eq_true.mp rfl
  -- a name that goes on with a bracket is none
  have hbracket {x : String} (hx : PlainName x) {w w' : List Char} (hw : Stops w) :
      x.toList ++ w ≠ ['o', 'l', 'd'] ++ '(' :: w' := by
    intro e
    obtain ⟨-, hrest⟩ := append_inj_of_stop (List.all_eq_true.mp hx.2) hold hw.not_inName
      (by intro c hc; cases hc; decide) e
    rw [hrest] at hw
    exact absurd (hw '(' rfl) (by decide)
  obtain ⟨x, m⟩ := k
  obtain ⟨y, n⟩ := k'
  cases m <;> cases n
  · obtain ⟨rfl, hrest⟩ := name_inj hr hr' hk hk' h
    exact ⟨rfl, hrest⟩
  · exact absurd h (hbracket hk hr)
  · exact absurd h.symm (hbracket hk' hr')
  · simp only [Term.textOnto, List.cons.injEq, true_and] at h
    obtain ⟨rfl, hrest⟩ := name_inj (stops_close r) (stops_close r') hk hk' h
    exact ⟨rfl, by simpa using hrest⟩

theorem Term.textOnto_inj {t u : Term} (ht : t.Legible) (hu : u.Legible) {r r' : List Char} (hr : Stops r)
    (hr' : Stops r') (h : t.textOnto r = u.textOnto r') : t.bare = u.bare ∧ r = r' := by
  induction t generalizing u r r' with
  | var s k =>
    have hlead := lead_eq ht hu h
    obtain ⟨s', k', rfl⟩ := var_of_lead hlead.symm
    obtain ⟨rfl, hrest⟩ := Key.text_inj (ht k (by simp)) (hu k' (by simp)) hr hr' h
    exact ⟨rfl, hrest⟩
  | lit s v =>
    have hlead := lead_eq ht hu h
    cases u with
    | lit s' w =>
      obtain ⟨hv, hrest⟩ := signedDigits_inj hr hr' h
      obtain rfl := Int64.toInt_inj.mp hv
      exact ⟨rfl, hrest⟩
    | neg s' u =>
      obtain ⟨hbare, hrest⟩ := neg_lit_inj hr' hr hu h.symm
      exact ⟨hbare.symm, hrest.symm⟩
    | var | arith => rcases lead_lit s v with e | e <;> cases e.symm.trans hlead
  | neg s t ih =>
    have hlead := lead_eq ht hu h
    cases u with
    | neg s' u =>
      rw [legible_neg] at ht hu
      obtain ⟨hbare, hrest⟩ := ih ht hu hr hr' (List.cons.inj h).2
      exact ⟨congrArg minus hbare, hrest⟩
    | lit s' v => exact neg_lit_inj hr hr' ht h
    | var | arith => cases hlead
  | arith s t op u' iht ihu =>
    have hlead := lead_eq ht hu h
    obtain ⟨s', t', op', u, rfl⟩ := arith_of_lead hlead.symm
    rw [legible_arith] at ht hu
    have h := (List.cons.inj h).2
    obtain ⟨hl, htail⟩ := iht ht.1 hu.1 (stops_space _) (stops_space _) h
    obtain ⟨hop, hright⟩ := Symbol.onto_inj (.arith op) (.arith op') htail
    cases hop
    obtain ⟨hr, hrest⟩ := ihu ht.2 hu.2 (stops_close _) (stops_close _) hright
    exact ⟨by rw [bare, bare, hl, hr], (List.cons.inj hrest).2⟩

/-! ## Predicates -/

section
variable {p q : Pred} {r r' : List Char}

theorem Pred.lead_eq (hp : p.Legible) (hq : q.Legible) (h : p.textOnto r = q.textOnto r') :
    p.lead = q.lead :=
  Lead.unique (head_textOnto hp r) (head_textOnto hq r') h

theorem Pred.lead_eq_term {t : Term} (hp : p.Legible) (ht : t.Legible) (h : p.textOnto r = t.textOnto r') :
    p.lead = t.lead :=
  Lead.unique (head_textOnto hp r) (Term.head_textOnto ht r') h

end

theorem Pred.legible_rel {s : Span} {t u : Term} {op : RelOp} :
    (rel s t op u).Legible ↔ t.Legible ∧ u.Legible := by
  simp [Legible, Term.Legible, or_imp, forall_and]

theorem Pred.legible_neg {s : Span} {p : Pred} : (neg s p).Legible ↔ p.Legible := Iff.rfl

theorem Pred.legible_conn {s : Span} {p q : Pred} {op : Connective} :
    (conn s p op q).Legible ↔ p.Legible ∧ q.Legible := by
  simp [Legible, or_imp, forall_and]

theorem plainName_toString (b : Bool) : PlainName (toString b) := by
  cases b <;> decide

theorem toString_bool_inj {b b' : Bool} (h : toString b = toString b') : b = b' := by
  revert h
  cases b <;> cases b' <;> decide

/-- What ends a predicate is no operator between terms. -/
theorem Pred.Ends.eq_conn {r w : List Char} {o : Symbol} (h : Ends r)
    (e : r = ' ' :: (o.text.toList ++ ' ' :: w)) : ∃ op, o = .conn op := by
  cases h with
  | nil | close => cases e
  | @conn op r => exact ⟨op, (Symbol.onto_inj (.conn op) o e).1.symm⟩

theorem Pred.rel_of_textOnto {p : Pred} (hp : p.Legible) {t : Term} (ht : t.Legible) {o : Symbol}
    (ho : ∀ op, o ≠ .conn op) {r w : List Char} (hr : Ends r)
    (h : p.textOnto r = t.textOnto (' ' :: (o.text.toList ++ ' ' :: w))) :
    ∃ s t' op u, p = rel s t' op u ∧ t'.bare = t.bare ∧ o = .rel op ∧ u.textOnto r = w := by
  induction p generalizing t o r w with
  | lit s b =>
    have hlead := lead_eq_term hp ht h
    -- a literal is written like a name
    obtain ⟨s', k, rfl⟩ := Term.var_of_lead hlead.symm
    obtain ⟨-, hrest⟩ := Key.text_inj (k := ⟨toString b, .current⟩) (s := s) (plainName_toString b)
      (ht k (by simp)) hr.stops (stops_space _) h
    obtain ⟨op, hop⟩ := hr.eq_conn hrest
    exact absurd hop (ho op)
  | rel s t' op u =>
    rw [legible_rel] at hp
    obtain ⟨hbare, htail⟩ := Term.textOnto_inj hp.1 ht (stops_space _) (stops_space _) h
    obtain ⟨hop, hright⟩ := Symbol.onto_inj (.rel op) o htail
    exact ⟨s, t', op, u, rfl, hbare, hop.symm, hright⟩
  | neg s p ih => exact absurd (lead_eq_term hp ht h).symm t.lead_ne_bang
  | conn s p op q ihp ihq =>
    have hlead := lead_eq_term hp ht h
    obtain ⟨s', t', op', u, rfl⟩ := Term.arith_of_lead hlead.symm
    rw [legible_conn] at hp
    rw [Term.legible_arith] at ht
    have h := (List.cons.inj h).2
    -- the left operand would be a comparison by an arithmetic operator
    obtain ⟨_, _, op'', _, -, -, hop, -⟩ := ihp hp.1 ht.1 (o := .arith op') nofun .conn h
    cases hop

section
variable {p q : Pred} (hp : p.Legible) (hq : q.Legible) {r r' : List Char}
include hp hq

theorem Pred.textOnto_inj_of_isRel (hrel : q.isRel) (hr : Ends r) (hr' : Ends r')
    (h : p.textOnto r = q.textOnto r') : p.bare = q.bare ∧ r = r' := by
  cases q with
  | rel s t op u =>
    rw [legible_rel] at hq
    obtain ⟨s', t', op', u', rfl, ht, ho, hright⟩ := rel_of_textOnto hp hq.1 (o := .rel op) nofun hr h
    rw [legible_rel] at hp
    obtain ⟨hu, hrest⟩ := Term.textOnto_inj hp.2 hq.2 hr.stops hr'.stops hright
    cases ho
    exact ⟨by rw [bare, bare, ht, hu], hrest⟩
  | lit | neg | conn => cases hrel

/-- The brackets that a negated comparison gets are not those of a connective. -/
theorem Pred.bracketed_ne (hrel : p.isRel) (hrel' : ¬ q.isRel) :
    '(' :: p.textOnto (')' :: r) ≠ q.textOnto r' := by
  intro h
  have hlead : .bracket = q.lead := Lead.unique rfl (head_textOnto hq r') h
  cases q with
  | conn s q₁ op q₂ =>
    cases p with
    | rel s' t op' u =>
      rw [legible_conn] at hq
      rw [legible_rel] at hp
      have h := (List.cons.inj h).2.symm
      obtain ⟨s'', t', op'', u', rfl, -, -, hright⟩ := rel_of_textOnto hq.1 hp.1 (o := .rel op') nofun .conn h
      obtain ⟨-, hrest⟩ := Term.textOnto_inj (legible_rel.mp hq.1).2 hp.2 (stops_space _) (stops_close _) hright
      cases hrest
    | lit | neg | conn => cases hrel
  | rel => exact hrel' rfl
  | lit | neg => cases hlead

end

theorem Pred.textOnto_inj {p q : Pred} (hp : p.Legible) (hq : q.Legible) {r r' : List Char} (hr : Ends r)
    (hr' : Ends r') (h : p.textOnto r = q.textOnto r') : p.bare = q.bare ∧ r = r' := by
  induction p generalizing q r r' with
  | rel s t op u =>
    obtain ⟨hbare, hrest⟩ := textOnto_inj_of_isRel hq hp rfl hr' hr h.symm
    exact ⟨hbare.symm, hrest.symm⟩
  | lit s b =>
    have hlead := lead_eq hp hq h
    cases q with
    | lit s' b' =>
      obtain ⟨hb, hrest⟩ := name_inj hr.stops hr'.stops (plainName_toString b) (plainName_toString b') h
      exact ⟨by rw [bare, bare, toString_bool_inj hb], hrest⟩
    | rel => exact textOnto_inj_of_isRel hp hq rfl hr hr' h
    | neg | conn => cases hlead
  | neg s p ih =>
    have hlead := lead_eq hp hq h
    cases q with
    | neg s' q =>
      rw [legible_neg] at hp hq
      unfold textOnto at h
      have hneg (w w' : List Char) (hw : Ends w) (hw' : Ends w') (e : p.textOnto w = q.textOnto w') :
          (neg s p).bare = (neg s' q).bare ∧ w = w' := by
        obtain ⟨hbare, hrest⟩ := ih hp hq hw hw' e
        exact ⟨by rw [bare, bare, hbare], hrest⟩
      by_cases hrel : p.isRel <;> by_cases hrel' : q.isRel
      · rw [if_pos hrel, if_pos hrel', List.cons.injEq, List.cons.injEq] at h
        obtain ⟨hbare, hrest⟩ := hneg _ _ .close .close h.2.2
        exact ⟨hbare, (List.cons.inj hrest).2⟩
      · rw [if_pos hrel, if_neg hrel', List.cons.injEq] at h
        exact absurd h.2 (bracketed_ne hp hq hrel hrel')
      · rw [if_neg hrel, if_pos hrel', List.cons.injEq] at h
        exact absurd h.2.symm (bracketed_ne hq hp hrel' hrel)
      · rw [if_neg hrel, if_neg hrel', List.cons.injEq] at h
        exact hneg _ _ hr hr' h.2
    | rel => exact textOnto_inj_of_isRel hp hq rfl hr hr' h
    | lit | conn => cases hlead
  | conn s p op p' ihp ihp' =>
    have hlead := lead_eq hp hq h
    cases q with
    | conn s' q op' q' =>
      rw [legible_conn] at hp hq
      have h := (List.cons.inj h).2
      obtain ⟨hl, htail⟩ := ihp hp.1 hq.1 .conn .conn h
      obtain ⟨hop, hright⟩ := Symbol.onto_inj (.conn op) (.conn op') htail
      cases hop
      obtain ⟨hr, hrest⟩ := ihp' hp.2 hq.2 .close .close hright
      exact ⟨by rw [bare, bare, hl, hr], (List.cons.inj hrest).2⟩
    | rel => exact textOnto_inj_of_isRel hp hq rfl hr hr' h
    | lit | neg => cases hlead

/-! ## What a text does not show -/

theorem Term.text_minus (t : Term) : t.minus.text = "-" ++ t.text := by
  cases t with
  | lit s v =>
    by_cases hv : 0 < v
    · rw [minus_of_pos hv, text, text, toInt_neg_of_pos hv]
      rw [Int64.lt_iff_toInt_lt, Int64.toInt_zero] at hv
      apply String.toList_injective
      rw [String.toList_append, toList_toString_int, toList_toString_int, signedDigits, signedDigits,
        if_neg (by omega), if_pos (by omega), Int.neg_neg]
      rfl
    · rw [minus_of_not_pos hv]
      rfl
  | var | neg | arith => rfl

theorem Term.text_bare (t : Term) : t.bare.text = t.text := by
  induction t with
  | var | lit => rfl
  | neg s t ih => rw [bare, text_minus, text, ih]
  | arith s t op u iht ihu => rw [bare, text, text, iht, ihu]

theorem Pred.isRel_bare (p : Pred) : p.bare.isRel = p.isRel := by
  cases p <;> rfl

theorem Pred.text_bare (p : Pred) : p.bare.text = p.text := by
  induction p with
  | lit => rfl
  | rel s t op u => rw [bare, text, text, t.text_bare, u.text_bare]
  | neg s p ih => rw [bare, text, text, isRel_bare, ih]
  | conn s p op q ihp ihq => rw [bare, text, text, ihp, ihq]

theorem Pred.legible_iff {p : Pred} : p.Legible ↔ ∀ x ∈ p.names, PlainName x := by
  simp [Legible, names]

/-- Predicates over plain names have the same text just when they differ in positions and in
how negative numbers are made, and then they mean the same. -/
theorem Pred.text_unambiguous (p q : Pred) (hp : ∀ x ∈ p.freeNames, PlainName x)
    (hq : ∀ x ∈ q.freeNames, PlainName x) :
    (p.text = q.text ↔ p.bare = q.bare) ∧
      (p.text = q.text → p.freeKeys = q.freeKeys ∧ ∀ env, p.eval env = q.eval env) := by
  simp only [freeNames, mem_inOrder, ← legible_iff] at hp hq
  have hbare : p.text = q.text → p.bare = q.bare := by
    intro h
    have honto : p.textOnto [] = q.textOnto [] := by rw [textOnto_eq, textOnto_eq, h]
    exact (textOnto_inj hp hq .nil .nil honto).1
  refine ⟨⟨hbare, ?_⟩, ?_⟩
  · intro h
    rw [← p.text_bare, h, q.text_bare]
  · intro h
    refine ⟨?_, ?_⟩
    · rw [freeKeys, freeKeys, ← p.keys_bare, hbare h, q.keys_bare]
    · intro env
      rw [← p.eval_bare env, hbare h, q.eval_bare env]

theorem Pred.text_unambiguous_minus_five :
    let p := Pred.rel ⟨3, 9⟩ (.arith .synthesized (.now "x-0") .sub (.lit ⟨4, 6⟩ (-5))) .eq (.old "true")
    let q := RelOp.apply .eq (.arith .synthesized (.now "x-0") .sub (.negate (.ofInt64 5))) (.old "true")
    p ≠ q ∧ p.text = "(x-0 - -5) == old(true)" ∧ q.text = "(x-0 - -5) == old(true)" ∧
      p.freeKeys = q.freeKeys ∧ ∀ env, p.eval env = q.eval env := by
  intro p q
  have hp : ∀ x ∈ p.freeNames, PlainName x := by decide
  have hq : ∀ x ∈ q.freeNames, PlainName x := by decide
  have htext : p.text = "(x-0 - -5) == old(true)" := by decide
  have htext' : q.text = "(x-0 - -5) == old(true)" := by decide
  exact ⟨by decide, htext, htext', (text_unambiguous p q hp hq).2 (htext.trans htext'.symm)⟩

end StrongestPost
