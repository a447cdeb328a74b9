import Mathlib.Data.List.Forall2
import StrongestPost.Node.Basic
import StrongestPost.Proofs.JsonRecords
import StrongestPost.Proofs.JsonValues

/-!
# Presentations of nodes

A node has more JSON values than the one that is written for it. The members of an object
may stand in any order, members that nobody asks for may stand among them, and a member
that says what is understood anyway may be left out. `Presents` says this of every kind of
node, at every depth, and the readers do not tell the difference (`Node.read?_of_presents`).
-/

namespace StrongestPost

/-! ## Nodes -/

open Json (Field Arranges Answers required? optional? nullable? choice? treeChoice? tag? string? bool?
  uint32? uint64? int64? list? maxNesting)

def Span.Presents (s : Span) : Json → Prop :=
  Arranges [.is "line" (.int s.line.toNat), .is "column" (.int s.column.toNat)]

/-- The position, the tag and the parts of a node of a tree. The position `0:0` is understood. -/
def nodeFields (span : Span) (key tag : String) (parts : List Field) : List Field :=
  { name := "span", mayOmit := span = .synthesized, Says := span.Presents } :: .is key (.str tag) :: parts

@[simp] theorem map_name_nodeFields (span : Span) (key tag : String) (parts : List Field) :
    (nodeFields span key tag parts).map Field.name = "span" :: key :: parts.map Field.name := rfl

def Expr.Presents : Expr → Json → Prop
  | var s x => Arranges (nodeFields s "expr" "var" [.is "name" (.str x)])
  | int s v => Arranges (nodeFields s "expr" "int" [.is "value" (.int v.toInt)])
  | bool s b => Arranges (nodeFields s "expr" "bool" [.is "value" (.bool b)])
  | unary s op e =>
    Arranges (nodeFields s "expr" "unary"
      [.is "op" (.str op.name), { name := "operand", Says := e.Presents }])
  | binary s a op b =>
    Arranges (nodeFields s "expr" "binary"
      [{ name := "lhs", Says := a.Presents }, .is "op" (.str op.name), { name := "rhs", Says := b.Presents }])

def Term.Presents : Term → Json → Prop
  | var s k =>
    Arranges (nodeFields s "term" "var"
      [.is "name" (.str k.name),
       { name := "state", mayOmit := k.moment = .current, Says := (· = .str k.moment.name) }])
  | lit s v => Arranges (nodeFields s "term" "int" [.is "value" (.int v.toInt)])
  | neg s t => Arranges (nodeFields s "term" "neg" [{ name := "operand", Says := t.Presents }])
  | arith s t op u =>
    Arranges (nodeFields s "term" "arith"
      [{ name := "lhs", Says := t.Presents }, .is "op" (.str op.name), { name := "rhs", Says := u.Presents }])

def Pred.Presents : Pred → Json → Prop
  | lit s b => Arranges (nodeFields s "pred" "bool" [.is "value" (.bool b)])
  | rel s t op u =>
    Arranges (nodeFields s "pred" "rel"
      [{ name := "lhs", Says := t.Presents }, .is "op" (.str op.name), { name := "rhs", Says := u.Presents }])
  | neg s p => Arranges (nodeFields s "pred" "not" [{ name := "operand", Says := p.Presents }])
  | conn s p op q =>
    Arranges (nodeFields s "pred" "binary"
      [{ name := "lhs", Says := p.Presents }, .is "op" (.str op.name), { name := "rhs", Says := q.Presents }])

/-- `null` for nothing. -/
def PresentsOption {α : Type} (presents : α → Json → Prop) : Option α → Json → Prop
  | none, j => j = .null
  | some a, j => presents a j

def PresentsList {α : Type} (presents : α → Json → Prop) (l : List α) (j : Json) : Prop :=
  ∃ js, j = .arr js ∧ List.Forall₂ presents l js

def Stmt.Presents : Stmt → Json → Prop
  | assign s x e =>
    Arranges (nodeFields s "stmt" "assign" [.is "target" (.str x), { name := "value", Says := e.Presents }])
  | seq s a b =>
    Arranges (nodeFields s "stmt" "seq"
      [{ name := "first", Says := a.Presents }, { name := "second", Says := b.Presents }])
  | skip s => Arranges (nodeFields s "stmt" "skip" [])
  | ite s c a b =>
    Arranges (nodeFields s "stmt" "if"
      [{ name := "condition", Says := c.Presents }, { name := "then_branch", Says := a.Presents },
       { name := "else_branch", mayOmit := b = .nop, Says := b.Presents }])
  | block s a => Arranges (nodeFields s "stmt" "block" [{ name := "body", Says := a.Presents }])
  | loop s c i a =>
    Arranges (nodeFields s "stmt" "loop"
      [{ name := "condition", Says := c.Presents },
       { name := "invariant", mayOmit := i = none, Says := PresentsOption Pred.Presents i },
       { name := "body", Says := a.Presents }])
  | assert s c => Arranges (nodeFields s "stmt" "assert" [{ name := "condition", Says := c.Presents }])
  | assume s c => Arranges (nodeFields s "stmt" "assume" [{ name := "condition", Says := c.Presents }])
  | call s f es =>
    Arranges (nodeFields s "stmt" "call"
      [.is "callee" (.str f), { name := "args", mayOmit := es = [], Says := PresentsList Expr.Presents es }])
  | localDef s x e =>
    Arranges (nodeFields s "stmt" "local_def"
      [.is "name" (.str x), { name := "init", mayOmit := e = none, Says := PresentsOption Expr.Presents e }])

def Procedure.Presents (p : Procedure) : Json → Prop :=
  Arranges [.is "name" (.str p.name),
    { name := "span", mayOmit := p.span = .synthesized, Says := p.span.Presents },
    { name := "pre", Says := p.pre.Presents }, { name := "post", Says := p.post.Presents },
    { name := "body", Says := p.body.Presents }]

def Program.Presents (g : Program) : Json → Prop :=
  Arranges [.is "main" (.str g.main), { name := "procedures", Says := PresentsList Procedure.Presents g.procedures }]

/-- What is as in the default configuration is understood. -/
def Config.Presents (c : Config) : Json → Prop :=
  Arranges
    [{ name := "unsupported", mayOmit := c.unsupported = ({} : Config).unsupported,
       Says := (· = .str c.unsupported.name) },
     { name := "conditional", mayOmit := c.conditional = ({} : Config).conditional,
       Says := (· = .str c.conditional.name) },
     { name := "fresh_separator", mayOmit := c.separator = ({} : Config).separator, Says := (· = .str c.separator) },
     { name := "max_depth", mayOmit := c.maxDepth = ({} : Config).maxDepth, Says := (· = .int c.maxDepth.toNat) }]

def Node.Presents : Node → Json → Prop
  | span s => s.Presents
  | expr e => e.Presents
  | stmt a => a.Presents
  | term t => t.Presents
  | pred p => p.Presents
  | procedure p => p.Presents
  | program g => g.Presents
  | config c => c.Presents

/-! ## Scalars -/

theorem Json.string?_str (s : String) : string? (.str s) = some s := rfl

theorem Json.bool?_bool (b : Bool) : bool? (.bool b) = some b := rfl

theorem Json.below?_toNat {bound n : Nat} (h : n < bound) : Json.below? bound (.int n) = some n := by
  simp [Json.below?, h]

theorem Json.uint32?_toNat (n : UInt32) : uint32? (.int n.toNat) = some n := by
  rw [uint32?, below?_toNat n.toNat_lt_size]
  simp

theorem Json.uint64?_toNat (n : UInt64) : uint64? (.int n.toNat) = some n := by
  rw [uint64?, below?_toNat n.toNat_lt_size]
  simp

theorem Json.int64?_toInt (v : Int64) : int64? (.int v.toInt) = some v := by
  simp [int64?]

/-! ## Reading -/

theorem Span.read?_of_presents {s : Span} {j : Json} (h : s.Presents j) : Span.read? j = some s := by
  obtain ⟨ms, rfl, hline, hcolumn⟩ := h.answers (by simp)
  have hline := hline.is (Json.uint32?_toNat s.line)
  have hcolumn := hcolumn.is (Json.uint32?_toNat s.column)
  simp [Span.read?, Json.record?, hline, hcolumn]

/-- What the readers of trees look at first. -/
theorem Json.Arranges.node {span : Span} {key tag : String} {parts : List Field} {j : Json} {n : Nat}
    (h : Arranges (nodeFields span key tag parts) j) (hn : j.nesting ≤ n)
    (hnames : ((nodeFields span key tag parts).map Field.name).Nodup) :
    ∃ m ms, n = m + 1 ∧ j = .obj ms ∧ spanOf? ms = some span ∧
      (∀ tags, tag ∈ tags → tag? ms key tags = some tag) ∧ parts.Forall (Answers ms) ∧
      ∀ k v, (k, v) ∈ ms → v.nesting ≤ m := by
  obtain ⟨ms, rfl, hfields⟩ := h.answers hnames
  simp only [nodeFields, List.forall_cons] at hfields
  obtain ⟨hspan, hkey, hparts⟩ := hfields
  -- the object itself takes one level
  obtain ⟨m, rfl⟩ : ∃ m, n = m + 1 := ⟨n - 1, by rw [nesting] at hn; omega⟩
  refine ⟨m, ms, rfl, rfl, ?_, fun tags htag => ?_, hparts, fun k v hv => ?_⟩
  · exact hspan.optional (fun h => h.symm) fun v _ hv => Span.read?_of_presents hv
  · exact hkey.is (by simp [htag])
  · have := nesting_lt_of_mem_obj hv; omega

section
variable {n : Nat} {j : Json}

theorem Expr.read?_of_presents {e : Expr} (h : e.Presents j) (hn : j.nesting ≤ n) :
    Expr.read? n j = some e := by
  induction e generalizing n j with
  | var s x =>
    obtain ⟨m, ms, rfl, rfl, hspan, htag, hname, -⟩ := h.node hn (by simp)
    have hname := hname.is (Json.string?_str x)
    simp [Expr.read?, hspan, htag, hname]
  | int s v =>
    obtain ⟨m, ms, rfl, rfl, hspan, htag, hvalue, -⟩ := h.node hn (by simp)
    have hvalue := hvalue.is (Json.int64?_toInt v)
    simp [Expr.read?, hspan, htag, hvalue]
  | bool s b =>
    obtain ⟨m, ms, rfl, rfl, hspan, htag, hvalue, -⟩ := h.node hn (by simp)
    have hvalue := hvalue.is (Json.bool?_bool b)
    simp [Expr.read?, hspan, htag, hvalue]
  | unary s op e ih =>
    obtain ⟨m, ms, rfl, rfl, hspan, htag, ⟨hop, hoperand⟩, hsmall⟩ := h.node hn (by simp)
    have hop : required? ms "op" (treeChoice? UnOp.family) = some op :=
      hop.is (UnOp.family.named?_name op)
    have hoperand : required? ms "operand" (Expr.read? m) = some e :=
      hoperand.required id fun v hv he => ih he (hsmall _ v hv)
    simp [Expr.read?, hspan, htag, hop, hoperand]
  | binary s a op b iha ihb =>
    obtain ⟨m, ms, rfl, rfl, hspan, htag, ⟨hlhs, hop, hrhs⟩, hsmall⟩ := h.node hn (by simp)
    have hlhs : required? ms "lhs" (Expr.read? m) = some a :=
      hlhs.required id fun v hv he => iha he (hsmall _ v hv)
    have hop : required? ms "op" (treeChoice? BinOp.family) = some op :=
      hop.is (BinOp.family.named?_name op)
    have hrhs : required? ms "rhs" (Expr.read? m) = some b :=
      hrhs.required id fun v hv he => ihb he (hsmall _ v hv)
    simp [Expr.read?, hspan, htag, hlhs, hop, hrhs]

theorem Term.read?_of_presents {t : Term} (h : t.Presents j) (hn : j.nesting ≤ n) :
    Term.read? n j = some t := by
  induction t generalizing n j with
  | var s k =>
    obtain ⟨m, ms, rfl, rfl, hspan, htag, ⟨hname, hstate⟩, -⟩ := h.node hn (by simp)
    have hname := hname.is (Json.string?_str k.name)
    have hstate : optional? ms "state" .current (treeChoice? Moment.family) = some k.moment :=
      hstate.optional (fun h => h.symm) fun v _ hv => hv ▸ Moment.family.named?_name k.moment
    simp [Term.read?, hspan, htag, hname, hstate]
  | lit s v =>
    obtain ⟨m, ms, rfl, rfl, hspan, htag, hvalue, -⟩ := h.node hn (by simp)
    have hvalue := hvalue.is (Json.int64?_toInt v)
    simp [Term.read?, hspan, htag, hvalue]
  | neg s t ih =>
    obtain ⟨m, ms, rfl, rfl, hspan, htag, hoperand, hsmall⟩ := h.node hn (by simp)
    have hoperand : required? ms "operand" (Term.read? m) = some t :=
      hoperand.required id fun v hv ht => ih ht (hsmall _ v hv)
    simp [Term.read?, hspan, htag, hoperand]
  | arith s t op u iht ihu =>
    obtain ⟨m, ms, rfl, rfl, hspan, htag, ⟨hlhs, hop, hrhs⟩, hsmall⟩ := h.node hn (by simp)
    have hlhs : required? ms "lhs" (Term.read? m) = some t :=
      hlhs.required id fun v hv ht => iht ht (hsmall _ v hv)
    have hop : required? ms "op" (treeChoice? ArithOp.family) = some op :=
      hop.is (ArithOp.family.named?_name op)
    have hrhs : required? ms "rhs" (Term.read? m) = some u :=
      hrhs.required id fun v hv hu => ihu hu (hsmall _ v hv)
    simp [Term.read?, hspan, htag, hlhs, hop, hrhs]

theorem Pred.read?_of_presents {p : Pred} (h : p.Presents j) (hn : j.nesting ≤ n) :
    Pred.read? n j = some p := by
  induction p generalizing n j with
  | lit s b =>
    obtain ⟨m, ms, rfl, rfl, hspan, htag, hvalue, -⟩ := h.node hn (by simp)
    have hvalue := hvalue.is (Json.bool?_bool b)
    simp [Pred.read?, hspan, htag, hvalue]
  | rel s t op u =>
    obtain ⟨m, ms, rfl, rfl, hspan, htag, ⟨hlhs, hop, hrhs⟩, hsmall⟩ := h.node hn (by simp)
    have hlhs : required? ms "lhs" (Term.read? m) = some t :=
      hlhs.required id fun v hv ht => Term.read?_of_presents ht (hsmall _ v hv)
    have hop : required? ms "op" (treeChoice? RelOp.family) = some op :=
      hop.is (RelOp.family.named?_name op)
    have hrhs : required? ms "rhs" (Term.read? m) = some u :=
      hrhs.required id fun v hv hu => Term.read?_of_presents hu (hsmall _ v hv)
    simp [Pred.read?, hspan, htag, hlhs, hop, hrhs]
  | neg s p ih =>
    obtain ⟨m, ms, rfl, rfl, hspan, htag, hoperand, hsmall⟩ := h.node hn (by simp)
    have hoperand : required? ms "operand" (Pred.read? m) = some p :=
      hoperand.required id fun v hv hp => ih hp (hsmall _ v hv)
    simp [Pred.read?, hspan, htag, hoperand]
  | conn s p op q ihp ihq =>
    obtain ⟨m, ms, rfl, rfl, hspan, htag, ⟨hlhs, hop, hrhs⟩, hsmall⟩ := h.node hn (by simp)
    have hlhs : required? ms "lhs" (Pred.read? m) = some p :=
      hlhs.required id fun v hv hp => ihp hp (hsmall _ v hv)
    have hop : required? ms "op" (treeChoice? Connective.family) = some op :=
      hop.is (Connective.family.named?_name op)
    have hrhs : required? ms "rhs" (Pred.read? m) = some q :=
      hrhs.required id fun v hv hq => ihq hq (hsmall _ v hv)
    simp [Pred.read?, hspan, htag, hlhs, hop, hrhs]

section
variable {α : Type} {presents : α → Json → Prop} {read : Json → Option α}

theorem Json.nullable?_of_presents {o : Option α} (h : PresentsOption presents o j) (hnull : read .null = none)
    (hread : ∀ a, presents a j → read j = some a) : nullable? read j = some o := by
  cases o with
  | none => rw [show j = .null from h]; rfl
  | some a =>
    have hj := hread a h
    -- `null` is read as nothing before the reader is asked, so it must not present a node
    cases j with
    | null => rw [hnull] at hj; cases hj
    | bool | int | decimal | str | arr | obj => simp [nullable?, hj]

theorem Json.list?_of_presents {l : List α} (h : PresentsList presents l j) (hn : j.nesting ≤ n)
    (hread : ∀ a v, presents a v → v.nesting ≤ n → read v = some a) : list? read j = some l := by
  obtain ⟨js, rfl, hl⟩ := h
  have hsmall : ∀ v ∈ js, v.nesting ≤ n := fun v hv => by
    have := nesting_lt_of_mem_arr hv; omega
  rw [list?]
  clear hn
  induction hl with
  | nil => rfl
  | @cons a v l js ha hl ih =>
    obtain ⟨hv, hjs⟩ := List.forall_mem_cons.mp hsmall
    simp [List.mapM_cons, hread a v ha hv, ih hjs]

end

theorem Stmt.read?_of_presents {a : Stmt} (h : a.Presents j) (hn : j.nesting ≤ n) :
    Stmt.read? n j = some a := by
  induction a generalizing n j with
  | assign s x e =>
    obtain ⟨m, ms, rfl, rfl, hspan, htag, ⟨htarget, hvalue⟩, hsmall⟩ := h.node hn (by simp)
    have htarget := htarget.is (Json.string?_str x)
    have hvalue : required? ms "value" (Expr.read? m) = some e :=
      hvalue.required id fun v hv he => Expr.read?_of_presents he (hsmall _ v hv)
    simp [Stmt.read?, hspan, htag, htarget, hvalue]
  | seq s a b iha ihb =>
    obtain ⟨m, ms, rfl, rfl, hspan, htag, ⟨hfirst, hsecond⟩, hsmall⟩ := h.node hn (by simp)
    have hfirst : required? ms "first" (Stmt.read? m) = some a :=
      hfirst.required id fun v hv ha => iha ha (hsmall _ v hv)
    have hsecond : required? ms "second" (Stmt.read? m) = some b :=
      hsecond.required id fun v hv hb => ihb hb (hsmall _ v hv)
    simp [Stmt.read?, hspan, htag, hfirst, hsecond]
  | skip s =>
    obtain ⟨m, ms, rfl, rfl, hspan, htag, -, -⟩ := h.node hn (by simp)
    simp [Stmt.read?, hspan, htag]
  | ite s c a b iha ihb =>
    obtain ⟨m, ms, rfl, rfl, hspan, htag, ⟨hcond, hthen, helse⟩, hsmall⟩ := h.node hn (by simp)
    have hcond : required? ms "condition" (Expr.read? m) = some c :=
      hcond.required id fun v hv hc => Expr.read?_of_presents hc (hsmall _ v hv)
    have hthen : required? ms "then_branch" (Stmt.read? m) = some a :=
      hthen.required id fun v hv ha => iha ha (hsmall _ v hv)
    have helse : optional? ms "else_branch" .nop (Stmt.read? m) = some b :=
      helse.optional (fun h => h.symm) fun v hv hb => ihb hb (hsmall _ v hv)
    simp [Stmt.read?, hspan, htag, hcond, hthen, helse]
  | block s a ih =>
    obtain ⟨m, ms, rfl, rfl, hspan, htag, hbody, hsmall⟩ := h.node hn (by simp)
    have hbody : required? ms "body" (Stmt.read? m) = some a :=
      hbody.required id fun v hv ha => ih ha (hsmall _ v hv)
    simp [Stmt.read?, hspan, htag, hbody]
  | loop s c i a ih =>
    obtain ⟨m, ms, rfl, rfl, hspan, htag, ⟨hcond, hinv, hbody⟩, hsmall⟩ := h.node hn (by simp)
    have hcond : required? ms "condition" (Expr.read? m) = some c :=
      hcond.required id fun v hv hc => Expr.read?_of_presents hc (hsmall _ v hv)
    have hinv : optional? ms "invariant" none (nullable? (Pred.read? m)) = some i :=
      hinv.optional (fun h => h.symm) fun v hv hi =>
        Json.nullable?_of_presents hi (by simp [Pred.read?]) fun p hp => Pred.read?_of_presents hp (hsmall _ v hv)
    have hbody : required? ms "body" (Stmt.read? m) = some a :=
      hbody.required id fun v hv ha => ih ha (hsmall _ v hv)
    simp [Stmt.read?, hspan, htag, hcond, hinv, hbody]
  | assert s c =>
    obtain ⟨m, ms, rfl, rfl, hspan, htag, hcond, hsmall⟩ := h.node hn (by simp)
    have hcond : required? ms "condition" (Expr.read? m) = some c :=
      hcond.required id fun v hv hc => Expr.read?_of_presents hc (hsmall _ v hv)
    simp [Stmt.read?, hspan, htag, hcond]
  | assume s c =>
    obtain ⟨m, ms, rfl, rfl, hspan, htag, hcond, hsmall⟩ := h.node hn (by simp)
    have hcond : required? ms "condition" (Expr.read? m) = some c :=
      hcond.required id fun v hv hc => Expr.read?_of_presents hc (hsmall _ v hv)
    simp [Stmt.read?, hspan, htag, hcond]
  | call s f es =>
    obtain ⟨m, ms, rfl, rfl, hspan, htag, ⟨hcallee, hargs⟩, hsmall⟩ := h.node hn (by simp)
    have hcallee := hcallee.is (Json.string?_str f)
    have hargs : optional? ms "args" [] (list? (Expr.read? m)) = some es :=
      hargs.optional (fun h => h.symm) fun v hv hes =>
        Json.list?_of_presents hes (hsmall _ v hv) fun _ _ => Expr.read?_of_presents
    simp [Stmt.read?, hspan, htag, hcallee, hargs]
  | localDef s x e =>
    obtain ⟨m, ms, rfl, rfl, hspan, htag, ⟨hname, hinit⟩, hsmall⟩ := h.node hn (by simp)
    have hname := hname.is (Json.string?_str x)
    have hinit : optional? ms "init" none (nullable? (Expr.read? m)) = some e :=
      hinit.optional (fun h => h.symm) fun v hv hi =>
        Json.nullable?_of_presents hi (by simp [Expr.read?]) fun e he => Expr.read?_of_presents he (hsmall _ v hv)
    simp [Stmt.read?, hspan, htag, hname, hinit]

theorem Procedure.read?_of_presents {p : Procedure} (h : p.Presents j) (hn : j.nesting ≤ n) :
    Procedure.read? n j = some p := by
  obtain ⟨ms, rfl, hname, hspan, hpre, hpost, hbody⟩ := h.answers (by simp)
  have hsmall : ∀ k v, (k, v) ∈ ms → v.nesting ≤ n := fun k v hv => by
    have := Json.nesting_lt_of_mem_obj hv; omega
  have hname := hname.is (Json.string?_str p.name)
  have hspan : spanOf? ms = some p.span :=
    hspan.optional (fun h => h.symm) fun v _ hv => Span.read?_of_presents hv
  have hpre : required? ms "pre" (Pred.read? n) = some p.pre :=
    hpre.required id fun v hv hp => Pred.read?_of_presents hp (hsmall _ v hv)
  have hpost : required? ms "post" (Pred.read? n) = some p.post :=
    hpost.required id fun v hv hp => Pred.read?_of_presents hp (hsmall _ v hv)
  have hbody : required? ms "body" (Stmt.read? n) = some p.body :=
    hbody.required id fun v hv ha => Stmt.read?_of_presents ha (hsmall _ v hv)
  simp [Procedure.read?, Json.record?, hname, hspan, hpre, hpost, hbody]

theorem Program.read?_of_presents {g : Program} (h : g.Presents j) (hn : j.nesting ≤ n) :
    Program.read? n j = some g := by
  obtain ⟨ms, rfl, hmain, hprocs⟩ := h.answers (by simp)
  have hmain := hmain.is (Json.string?_str g.main)
  have hprocs : required? ms "procedures" (list? (Procedure.read? n)) = some g.procedures :=
    hprocs.required id fun v hv hps =>
      Json.list?_of_presents hps (by have := Json.nesting_lt_of_mem_obj hv; omega)
        fun _ _ => Procedure.read?_of_presents
  simp [Program.read?, Json.record?, hmain, hprocs]

theorem Config.read?_of_presents {c : Config} (h : c.Presents j) : Config.read? j = some c := by
  obtain ⟨ms, rfl, hunsupported, hconditional, hseparator, hdepth⟩ := h.answers (by simp)
  have hunsupported : optional? ms "unsupported" ({} : Config).unsupported
      (choice? Unsupported.family) = some c.unsupported :=
    hunsupported.optional (fun h => h.symm) fun v _ hv => hv ▸ Unsupported.family.named?_name c.unsupported
  have hconditional : optional? ms "conditional" ({} : Config).conditional
      (choice? GuardRule.family) = some c.conditional :=
    hconditional.optional (fun h => h.symm) fun v _ hv => hv ▸ GuardRule.family.named?_name c.conditional
  have hseparator : optional? ms "fresh_separator" ({} : Config).separator string? = some c.separator :=
    hseparator.optional (fun h => h.symm) fun v _ hv => hv ▸ rfl
  have hdepth : optional? ms "max_depth" ({} : Config).maxDepth uint64? = some c.maxDepth :=
    hdepth.optional (fun h => h.symm) fun v _ hv => hv ▸ Json.uint64?_toNat c.maxDepth
  simp [Config.read?, Json.record?, hunsupported, hconditional, hseparator, hdepth]

/-- Every presentation of a node is read as that node. -/
theorem Node.read?_of_presents {a : Node} (h : a.Presents j) (hn : j.nesting ≤ maxNesting) :
    Node.read? a.kind j = some a := by
  cases a with
  | span => exact congrArg (Option.map _) (Span.read?_of_presents h)
  | expr => exact congrArg (Option.map _) (Expr.read?_of_presents h hn)
  | stmt => exact congrArg (Option.map _) (Stmt.read?_of_presents h hn)
  | term => exact congrArg (Option.map _) (Term.read?_of_presents h hn)
  | pred => exact congrArg (Option.map _) (Pred.read?_of_presents h hn)
  | procedure => exact congrArg (Option.map _) (Procedure.read?_of_presents h hn)
  | program => exact congrArg (Option.map _) (Program.read?_of_presents h hn)
  | config => exact congrArg (Option.map _) (Config.read?_of_presents h)

end

/-! ## The value that is written -/

theorem Span.presents_toJson (s : Span) : s.Presents s.toJson :=
  Json.Kept.arranges (.given rfl (.given rfl .nil))

theorem presents_nodeJson {span : Span} {key tag : String} {parts : List Field} {ms : List (String × Json)}
    (h : Json.Kept parts ms) : Arranges (nodeFields span key tag parts) (nodeJson span key tag ms) :=
  Json.Kept.arranges (.given span.presents_toJson (.given rfl h))

theorem Expr.presents_toJson (e : Expr) : e.Presents e.toJson := by
  induction e with
  | var s x => exact presents_nodeJson (.given rfl .nil)
  | int s v => exact presents_nodeJson (.given rfl .nil)
  | bool s b => exact presents_nodeJson (.given rfl .nil)
  | unary s op e ih => exact presents_nodeJson (.given rfl (.given ih .nil))
  | binary s a op b iha ihb => exact presents_nodeJson (.given iha (.given rfl (.given ihb .nil)))

theorem Term.presents_toJson (t : Term) : t.Presents t.toJson := by
  induction t with
  | var s k => exact presents_nodeJson (.given rfl (.given rfl .nil))
  | lit s v => exact presents_nodeJson (.given rfl .nil)
  | neg s t ih => exact presents_nodeJson (.given ih .nil)
  | arith s t op u iht ihu => exact presents_nodeJson (.given iht (.given rfl (.given ihu .nil)))

theorem Pred.presents_toJson (p : Pred) : p.Presents p.toJson := by
  induction p with
  | lit s b => exact presents_nodeJson (.given rfl .nil)
  | rel s t op u =>
    exact presents_nodeJson (.given t.presents_toJson (.given rfl (.given u.presents_toJson .nil)))
  | neg s p ih => exact presents_nodeJson (.given ih .nil)
  | conn s p op q ihp ihq => exact presents_nodeJson (.given ihp (.given rfl (.given ihq .nil)))

section
variable {α : Type} {presents : α → Json → Prop} {toJson : α → Json}

theorem presentsOption_elim (h : ∀ a, presents a (toJson a)) (o : Option α) :
    PresentsOption presents o (o.elim .null toJson) := by
  cases o with
  | none => exact rfl
  | some a => exact h a

theorem presentsList_map (h : ∀ a, presents a (toJson a)) (l : List α) :
    PresentsList presents l (.arr (l.map toJson)) :=
  ⟨_, rfl, List.forall₂_map_right_iff.mpr (List.forall₂_same.mpr fun a _ => h a)⟩

end

theorem Stmt.presents_toJson (a : Stmt) : a.Presents a.toJson := by
  induction a with
  | assign s x e => exact presents_nodeJson (.given rfl (.given e.presents_toJson .nil))
  | seq s a b iha ihb => exact presents_nodeJson (.given iha (.given ihb .nil))
  | skip s => exact presents_nodeJson .nil
  | ite s c a b iha ihb => exact presents_nodeJson (.given c.presents_toJson (.given iha (.given ihb .nil)))
  | block s a ih => exact presents_nodeJson (.given ih .nil)
  | loop s c i a ih =>
    have hinv := presentsOption_elim Pred.presents_toJson i
    exact presents_nodeJson (.given c.presents_toJson (.given hinv (.given ih .nil)))
  | assert s c => exact presents_nodeJson (.given c.presents_toJson .nil)
  | assume s c => exact presents_nodeJson (.given c.presents_toJson .nil)
  | call s f es => exact presents_nodeJson (.given rfl (.given (presentsList_map Expr.presents_toJson es) .nil))
  | localDef s x e =>
    exact presents_nodeJson (.given rfl (.given (presentsOption_elim Expr.presents_toJson e) .nil))

theorem Procedure.presents_toJson (p : Procedure) : p.Presents p.toJson :=
  Json.Kept.arranges (.given rfl (.given p.span.presents_toJson (.given p.pre.presents_toJson
    (.given p.post.presents_toJson (.given p.body.presents_toJson .nil)))))

theorem Program.presents_toJson (g : Program) : g.Presents g.toJson :=
  Json.Kept.arranges (.given rfl (.given (presentsList_map Procedure.presents_toJson g.procedures) .nil))

theorem Config.presents_toJson (c : Config) : c.Presents c.toJson :=
  Json.Kept.arranges (.given rfl (.given rfl (.given rfl (.given rfl .nil))))

theorem Node.presents_toJson (a : Node) : a.Presents a.toJson := by
  cases a with
  | span s => exact s.presents_toJson
  | expr e => exact e.presents_toJson
  | stmt a => exact a.presents_toJson
  | term t => exact t.presents_toJson
  | pred p => exact p.presents_toJson
  | procedure p => exact p.presents_toJson
  | program g => exact g.presents_toJson
  | config c => exact c.presents_toJson

end StrongestPost
