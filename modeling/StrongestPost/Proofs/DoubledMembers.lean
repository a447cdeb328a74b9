import Mathlib.Logic.Relation
import StrongestPost.Node.Basic
import StrongestPost.Proofs.JsonRecords

/-!
# Members that are given twice

A node of a tree cannot be read if its position, its tag or a member of its variant is given
twice. That holds for the node at hand and for every node that is read on the way, so one
such object anywhere in the tree spoils all of it (`Node.read?_eq_none_of_doubles`).

The variants are listed here with their members, apart from the readers. What a reader that
has succeeded must have found is stated against that list (`Node.Found`).
-/

namespace StrongestPost

open Json (required? nullable? list? tag? record? ReadAs readAs_of_required? readAs_of_optional?)

namespace Node

/-! ## The variants and their members -/

/-- What a member is: no node, a node, a node or `null`, or an array of nodes. -/
inductive Shape where
  | plain
  | node (kind : Kind)
  | nullable (kind : Kind)
  | list (kind : Kind)

/-- The nodes that a member holds, with the kinds they are read as. -/
def Shape.parts : Shape → Json → List (Kind × Json)
  | plain, _ => []
  | node k, j => [(k, j)]
  | nullable _, .null => []
  | nullable k, j => [(k, j)]
  | list k, .arr js => js.map (k, ·)
  | list _, _ => []

/-- The tags of a tree in their order, with the members that come with each. -/
def Kind.variants : Kind → List (String × List (String × Shape))
  | expr =>
    [("var", [("name", .plain)]),
     ("int", [("value", .plain)]),
     ("bool", [("value", .plain)]),
     ("unary", [("op", .plain), ("operand", .node .expr)]),
     ("binary", [("lhs", .node .expr), ("op", .plain), ("rhs", .node .expr)])]
  | term =>
    [("var", [("name", .plain), ("state", .plain)]),
     ("int", [("value", .plain)]),
     ("neg", [("operand", .node .term)]),
     ("arith", [("lhs", .node .term), ("op", .plain), ("rhs", .node .term)])]
  | pred =>
    [("bool", [("value", .plain)]),
     ("rel", [("lhs", .node .term), ("op", .plain), ("rhs", .node .term)]),
     ("not", [("operand", .node .pred)]),
     ("binary", [("lhs", .node .pred), ("op", .plain), ("rhs", .node .pred)])]
  | stmt =>
    [("assign", [("target", .plain), ("value", .node .expr)]),
     ("seq", [("first", .node .stmt), ("second", .node .stmt)]),
     ("skip", []),
     ("if", [("condition", .node .expr), ("then_branch", .node .stmt), ("else_branch", .node .stmt)]),
     ("block", [("body", .node .stmt)]),
     ("loop", [("condition", .node .expr), ("invariant", .nullable .pred), ("body", .node .stmt)]),
     ("assert", [("condition", .node .expr)]),
     ("assume", [("condition", .node .expr)]),
     ("call", [("callee", .plain), ("args", .list .expr)]),
     ("local_def", [("name", .plain), ("init", .nullable .expr)])]
  | span | procedure | program | config => []

/-- The members of the records that hold trees. -/
def Kind.members : Kind → List (String × Shape)
  | procedure =>
    [("name", .plain), ("span", .plain), ("pre", .node .pred), ("post", .node .pred), ("body", .node .stmt)]
  | program => [("main", .plain), ("procedures", .list .procedure)]
  | span | expr | stmt | term | pred | config => []

/-- The object says, by name or by number, that it is the variant with these members. -/
inductive Tagged (k : Kind) (ms : List (String × Json)) : List (String × Shape) → Prop
  | name {tag fields} : (k.name, .str tag) ∈ ms → (tag, fields) ∈ k.variants → Tagged k ms fields
  | number {i : Nat} {tag fields} : (k.name, .int i) ∈ ms → k.variants[i]? = some (tag, fields) → Tagged k ms fields

/-- A value of a kind with the members that are found in it and those that are looked for. -/
inductive Opens : Kind → Json → List (String × Json) → List (String × Shape) → Prop
  | tree {k ms fields} : Tagged k ms fields → Opens k (.obj ms) ms fields
  | record {k j ms} : record? (k.members.map Prod.fst) j = some ms → Opens k j ms k.members

/-- What stands at the second place is read when the first is. -/
inductive Part : Kind × Json → Kind × Json → Prop
  | mk {k j ms fields name shape v p} : Opens k j ms fields → (name, shape) ∈ fields → (name, v) ∈ ms →
      p ∈ shape.parts v → Part (k, j) p

/-- A node of a tree with a member given twice that it reads: the position, the tag, or a
member of the variant it is tagged as. -/
inductive Doubles : Kind × Json → Prop
  | mk {k ms name} : k.variants ≠ [] → 2 ≤ (ms.map Prod.fst).count name →
      (name = "span" ∨ name = k.name ∨ ∃ fields, Tagged k ms fields ∧ name ∈ fields.map Prod.fst) →
      Doubles (k, .obj ms)

/-! ## What a reader has found -/

/-- The value is read as a node of the kind, on some number of levels. -/
def Readable : Kind → Json → Prop
  | .span, j => ∃ s, Span.read? j = some s
  | .expr, j => ∃ n e, Expr.read? n j = some e
  | .stmt, j => ∃ n a, Stmt.read? n j = some a
  | .term, j => ∃ n t, Term.read? n j = some t
  | .pred, j => ∃ n p, Pred.read? n j = some p
  | .procedure, j => ∃ n p, Procedure.read? n j = some p
  | .program, j => ∃ n g, Program.read? n j = some g
  | .config, j => ∃ c, Config.read? j = some c

theorem readable_of_read? {k : Kind} {j : Json} {a : Node} (h : read? k j = some a) : Readable k j := by
  cases k <;> simp only [read?, Option.map_eq_some_iff] at h <;> obtain ⟨b, hb, -⟩ := h
  case span => exact ⟨b, hb⟩
  case config => exact ⟨b, hb⟩
  all_goals exact ⟨_, b, hb⟩

/-- The member is given at most once, and the nodes in it can be read. -/
def Found (ms : List (String × Json)) (f : String × Shape) : Prop :=
  (Json.given ms f.1).length ≤ 1 ∧ ∀ v, (f.1, v) ∈ ms → ∀ p ∈ f.2.parts v, Readable p.1 p.2

/-- What must be so where a tree has been read. -/
def FoundAll (k : Kind) (j : Json) : Prop :=
  ∃ ms, j = .obj ms ∧ Found ms ("span", .plain) ∧ Found ms (k.name, .plain) ∧
    ∀ fields, Tagged k ms fields → fields.Forall (Found ms)

section
variable {α : Type} {ms : List (String × Json)} {name : String} {read : Json → Option α} {a : α} {k : Kind}

theorem found_plain (h : ReadAs ms name read a) : Found ms (name, .plain) :=
  ⟨h.1, fun _ _ _ hp => nomatch hp⟩

theorem found_node (hread : ∀ {v a}, read v = some a → Readable k v) (h : ReadAs ms name read a) :
    Found ms (name, .node k) := by
  refine ⟨h.1, fun v hv p hp => ?_⟩
  rw [Shape.parts, List.mem_singleton] at hp
  subst hp
  exact hread (h.2 v hv)

theorem found_nullable {o : Option α} (hread : ∀ {v a}, read v = some a → Readable k v)
    (h : ReadAs ms name (nullable? read) o) : Found ms (name, .nullable k) := by
  refine ⟨h.1, fun v hv p hp => ?_⟩
  have hv := h.2 v hv
  cases v with
  | null => cases hp
  | bool | int | decimal | str | arr | obj =>
    simp only [Shape.parts, List.mem_singleton] at hp
    obtain ⟨a, ha, -⟩ := Option.map_eq_some_iff.mp hv
    subst hp
    exact hread ha

theorem exists_of_mem_mapM {js : List Json} {l : List α} {j : Json} (h : js.mapM read = some l) (hj : j ∈ js) :
    ∃ a, read j = some a := by
  induction js generalizing l with
  | nil => cases hj
  | cons v js ih =>
    simp only [List.mapM_cons, Option.bind_eq_bind, Option.bind_eq_some_iff] at h
    obtain ⟨a, ha, l, hl, -⟩ := h
    rcases List.mem_cons.mp hj with rfl | hj
    · exact ⟨a, ha⟩
    · exact ih hl hj

theorem found_list {l : List α} (hread : ∀ {v a}, read v = some a → Readable k v)
    (h : ReadAs ms name (list? read) l) : Found ms (name, .list k) := by
  refine ⟨h.1, fun v hv p hp => ?_⟩
  have hv := h.2 v hv
  cases v with
  | arr js =>
    rw [Shape.parts, List.mem_map] at hp
    obtain ⟨j, hj, rfl⟩ := hp
    obtain ⟨a, ha⟩ := exists_of_mem_mapM hv hj
    exact hread ha
  | null | bool | int | decimal | str | obj => cases hv

/-- The tag that is read is the tag of the variant that the object says it is. -/
theorem Tagged.mem_variants {fields : List (String × Shape)} {tag : String} (h : Tagged k ms fields)
    (htag : tag? ms k.name (k.variants.map Prod.fst) = some tag) : (tag, fields) ∈ k.variants := by
  have hread := (readAs_of_required? htag).2
  cases h with
  | @name t fields hmem hvariant =>
    have ht : (if t ∈ k.variants.map Prod.fst then some t else none) = some tag := hread _ hmem
    rw [if_pos (List.mem_map_of_mem hvariant), Option.some.injEq] at ht
    exact ht ▸ hvariant
  | @number i t fields hmem hvariant =>
    have ht := hread _ hmem
    simp only [Int.natCast_nonneg, if_true, Int.toNat_natCast, List.getElem?_map, hvariant, Option.map_some,
      Option.some.injEq] at ht
    exact ht ▸ List.mem_of_getElem? hvariant

theorem foundAll_of_tag? {k : Kind} {ms : List (String × Json)} {span : Span} {tag : String}
    (hspan : spanOf? ms = some span) (htag : tag? ms k.name (k.variants.map Prod.fst) = some tag)
    (hfields : ∀ fields, (tag, fields) ∈ k.variants → fields.Forall (Found ms)) : FoundAll k (.obj ms) := by
  refine ⟨ms, rfl, found_plain (readAs_of_optional? hspan), found_plain (readAs_of_required? htag), ?_⟩
  intro fields h
  exact hfields fields (h.mem_variants htag)

end

end Node

/-! ## The readers -/

section
variable {n : Nat} {j : Json}

open Node

theorem Expr.readable {e : Expr} (h : Expr.read? n j = some e) : Readable .expr j := ⟨n, e, h⟩

theorem Term.readable {t : Term} (h : Term.read? n j = some t) : Readable .term j := ⟨n, t, h⟩

theorem Pred.readable {p : Pred} (h : Pred.read? n j = some p) : Readable .pred j := ⟨n, p, h⟩

theorem Stmt.readable {a : Stmt} (h : Stmt.read? n j = some a) : Readable .stmt j := ⟨n, a, h⟩

theorem Procedure.readable {p : Procedure} (h : Procedure.read? n j = some p) : Readable .procedure j := ⟨n, p, h⟩

theorem Expr.foundAll {e : Expr} (h : Expr.read? n j = some e) : FoundAll .expr j := by
  obtain ⟨m, ms, rfl, rfl⟩ : ∃ m ms, n = m + 1 ∧ j = .obj ms := by
    cases n <;> cases j <;> simp_all [Expr.read?]
  simp only [Expr.read?, Option.bind_eq_bind, Option.bind_eq_some_iff, Option.pure_def] at h
  obtain ⟨span, hspan, tag, htag, h⟩ := h
  refine foundAll_of_tag? hspan htag fun fields hvariant => ?_
  -- one case for each tag, and the members are those of the variant with that tag
  split at h
  · obtain rfl : fields = [("name", .plain)] := by simpa [Kind.variants] using hvariant
    obtain ⟨x, hname, -⟩ := Option.bind_eq_some_iff.mp h
    exact found_plain (readAs_of_required? hname)
  · obtain rfl : fields = [("value", .plain)] := by simpa [Kind.variants] using hvariant
    obtain ⟨v, hvalue, -⟩ := Option.bind_eq_some_iff.mp h
    exact found_plain (readAs_of_required? hvalue)
  · obtain rfl : fields = [("value", .plain)] := by simpa [Kind.variants] using hvariant
    obtain ⟨b, hvalue, -⟩ := Option.bind_eq_some_iff.mp h
    exact found_plain (readAs_of_required? hvalue)
  · obtain rfl : fields = [("op", .plain), ("operand", .node .expr)] := by
      simpa [Kind.variants] using hvariant
    simp only [Option.bind_eq_some_iff] at h
    obtain ⟨op, hop, e, hoperand, -⟩ := h
    exact ⟨found_plain (readAs_of_required? hop), found_node Expr.readable (readAs_of_required? hoperand)⟩
  · obtain rfl : fields = [("lhs", .node .expr), ("op", .plain), ("rhs", .node .expr)] := by
      simpa [Kind.variants] using hvariant
    simp only [Option.bind_eq_some_iff] at h
    obtain ⟨a, hlhs, op, hop, b, hrhs, -⟩ := h
    exact ⟨found_node Expr.readable (readAs_of_required? hlhs), found_plain (readAs_of_required? hop),
      found_node Expr.readable (readAs_of_required? hrhs)⟩
  · cases h

theorem Term.foundAll {t : Term} (h : Term.read? n j = some t) : FoundAll .term j := by
  obtain ⟨m, ms, rfl, rfl⟩ : ∃ m ms, n = m + 1 ∧ j = .obj ms := by
    cases n <;> cases j <;> simp_all [Term.read?]
  simp only [Term.read?, Option.bind_eq_bind, Option.bind_eq_some_iff, Option.pure_def] at h
  obtain ⟨span, hspan, tag, htag, h⟩ := h
  refine foundAll_of_tag? hspan htag fun fields hvariant => ?_
  split at h
  · obtain rfl : fields = [("name", .plain), ("state", .plain)] := by simpa [Kind.variants] using hvariant
    simp only [Option.bind_eq_some_iff] at h
    obtain ⟨x, hname, moment, hstate, -⟩ := h
    exact ⟨found_plain (readAs_of_required? hname), found_plain (readAs_of_optional? hstate)⟩
  · obtain rfl : fields = [("value", .plain)] := by simpa [Kind.variants] using hvariant
    obtain ⟨v, hvalue, -⟩ := Option.bind_eq_some_iff.mp h
    exact found_plain (readAs_of_required? hvalue)
  · obtain rfl : fields = [("operand", .node .term)] := by simpa [Kind.variants] using hvariant
    obtain ⟨t, hoperand, -⟩ := Option.bind_eq_some_iff.mp h
    exact found_node Term.readable (readAs_of_required? hoperand)
  · obtain rfl : fields = [("lhs", .node .term), ("op", .plain), ("rhs", .node .term)] := by
      simpa [Kind.variants] using hvariant
    simp only [Option.bind_eq_some_iff] at h
    obtain ⟨t, hlhs, op, hop, u, hrhs, -⟩ := h
    exact ⟨found_node Term.readable (readAs_of_required? hlhs), found_plain (readAs_of_required? hop),
      found_node Term.readable (readAs_of_required? hrhs)⟩
  · cases h

theorem Pred.foundAll {p : Pred} (h : Pred.read? n j = some p) : FoundAll .pred j := by
  obtain ⟨m, ms, rfl, rfl⟩ : ∃ m ms, n = m + 1 ∧ j = .obj ms := by
    cases n <;> cases j <;> simp_all [Pred.read?]
  simp only [Pred.read?, Option.bind_eq_bind, Option.bind_eq_some_iff, Option.pure_def] at h
  obtain ⟨span, hspan, tag, htag, h⟩ := h
  refine foundAll_of_tag? hspan htag fun fields hvariant => ?_
  split at h
  · obtain rfl : fields = [("value", .plain)] := by simpa [Kind.variants] using hvariant
    obtain ⟨b, hvalue, -⟩ := Option.bind_eq_some_iff.mp h
    exact found_plain (readAs_of_required? hvalue)
  · obtain rfl : fields = [("lhs", .node .term), ("op", .plain), ("rhs", .node .term)] := by
      simpa [Kind.variants] using hvariant
    simp only [Option.bind_eq_some_iff] at h
    obtain ⟨t, hlhs, op, hop, u, hrhs, -⟩ := h
    exact ⟨found_node Term.readable (readAs_of_required? hlhs), found_plain (readAs_of_required? hop),
      found_node Term.readable (readAs_of_required? hrhs)⟩
  · obtain rfl : fields = [("operand", .node .pred)] := by simpa [Kind.variants] using hvariant
    obtain ⟨p, hoperand, -⟩ := Option.bind_eq_some_iff.mp h
    exact found_node Pred.readable (readAs_of_required? hoperand)
  · obtain rfl : fields = [("lhs", .node .pred), ("op", .plain), ("rhs", .node .pred)] := by
      simpa [Kind.variants] using hvariant
    simp only [Option.bind_eq_some_iff] at h
    obtain ⟨p, hlhs, op, hop, q, hrhs, -⟩ := h
    exact ⟨found_node Pred.readable (readAs_of_required? hlhs), found_plain (readAs_of_required? hop),
      found_node Pred.readable (readAs_of_required? hrhs)⟩
  · cases h

theorem Stmt.foundAll {a : Stmt} (h : Stmt.read? n j = some a) : FoundAll .stmt j := by
  obtain ⟨m, ms, rfl, rfl⟩ : ∃ m ms, n = m + 1 ∧ j = .obj ms := by
    cases n <;> cases j <;> simp_all [Stmt.read?]
  simp only [Stmt.read?, Option.bind_eq_bind, Option.bind_eq_some_iff, Option.pure_def] at h
  obtain ⟨span, hspan, tag, htag, h⟩ := h
  refine foundAll_of_tag? hspan htag fun fields hvariant => ?_
  split at h
  · obtain rfl : fields = [("target", .plain), ("value", .node .expr)] := by
      simpa [Kind.variants] using hvariant
    simp only [Option.bind_eq_some_iff] at h
    obtain ⟨x, htarget, e, hvalue, -⟩ := h
    exact ⟨found_plain (readAs_of_required? htarget), found_node Expr.readable (readAs_of_required? hvalue)⟩
  · obtain rfl : fields = [("first", .node .stmt), ("second", .node .stmt)] := by
      simpa [Kind.variants] using hvariant
    simp only [Option.bind_eq_some_iff] at h
    obtain ⟨a, hfirst, b, hsecond, -⟩ := h
    exact ⟨found_node Stmt.readable (readAs_of_required? hfirst), found_node Stmt.readable (readAs_of_required? hsecond)⟩
  · obtain rfl : fields = [] := by simpa [Kind.variants] using hvariant
    trivial
  · obtain rfl : fields = [("condition", .node .expr), ("then_branch", .node .stmt), ("else_branch", .node .stmt)] := by
      simpa [Kind.variants] using hvariant
    simp only [Option.bind_eq_some_iff] at h
    obtain ⟨c, hcond, a, hthen, b, helse, -⟩ := h
    exact ⟨found_node Expr.readable (readAs_of_required? hcond),
      found_node Stmt.readable (readAs_of_required? hthen),
      found_node Stmt.readable (readAs_of_optional? helse)⟩
  · obtain rfl : fields = [("body", .node .stmt)] := by simpa [Kind.variants] using hvariant
    obtain ⟨a, hbody, -⟩ := Option.bind_eq_some_iff.mp h
    exact found_node Stmt.readable (readAs_of_required? hbody)
  · obtain rfl : fields = [("condition", .node .expr), ("invariant", .nullable .pred), ("body", .node .stmt)] := by
      simpa [Kind.variants] using hvariant
    simp only [Option.bind_eq_some_iff] at h
    obtain ⟨c, hcond, i, hinv, a, hbody, -⟩ := h
    exact ⟨found_node Expr.readable (readAs_of_required? hcond),
      found_nullable Pred.readable (readAs_of_optional? hinv),
      found_node Stmt.readable (readAs_of_required? hbody)⟩
  · obtain rfl : fields = [("condition", .node .expr)] := by simpa [Kind.variants] using hvariant
    obtain ⟨c, hcond, -⟩ := Option.bind_eq_some_iff.mp h
    exact found_node Expr.readable (readAs_of_required? hcond)
  · obtain rfl : fields = [("condition", .node .expr)] := by simpa [Kind.variants] using hvariant
    obtain ⟨c, hcond, -⟩ := Option.bind_eq_some_iff.mp h
    exact found_node Expr.readable (readAs_of_required? hcond)
  · obtain rfl : fields = [("callee", .plain), ("args", .list .expr)] := by
      simpa [Kind.variants] using hvariant
    simp only [Option.bind_eq_some_iff] at h
    obtain ⟨f, hcallee, es, hargs, -⟩ := h
    exact ⟨found_plain (readAs_of_required? hcallee), found_list Expr.readable (readAs_of_optional? hargs)⟩
  · obtain rfl : fields = [("name", .plain), ("init", .nullable .expr)] := by
      simpa [Kind.variants] using hvariant
    simp only [Option.bind_eq_some_iff] at h
    obtain ⟨x, hname, e, hinit, -⟩ := h
    exact ⟨found_plain (readAs_of_required? hname), found_nullable Expr.readable (readAs_of_optional? hinit)⟩
  · cases h

theorem Procedure.found {p : Procedure} {ms : List (String × Json)} (h : Procedure.read? n j = some p)
    (hms : record? ["name", "span", "pre", "post", "body"] j = some ms) :
    Kind.procedure.members.Forall (Found ms) := by
  simp only [Procedure.read?, hms, Option.bind_eq_bind, Option.bind_some, Option.bind_eq_some_iff] at h
  obtain ⟨x, hname, s, hspan, p, hpre, q, hpost, a, hbody, -⟩ := h
  exact ⟨found_plain (readAs_of_required? hname), found_plain (readAs_of_optional? hspan),
    found_node Pred.readable (readAs_of_required? hpre), found_node Pred.readable (readAs_of_required? hpost),
    found_node Stmt.readable (readAs_of_required? hbody)⟩

theorem Program.found {g : Program} {ms : List (String × Json)} (h : Program.read? n j = some g)
    (hms : record? ["main", "procedures"] j = some ms) : Kind.program.members.Forall (Found ms) := by
  simp only [Program.read?, hms, Option.bind_eq_bind, Option.bind_some, Option.bind_eq_some_iff] at h
  obtain ⟨x, hmain, ps, hprocs, -⟩ := h
  exact ⟨found_plain (readAs_of_required? hmain), found_list Procedure.readable (readAs_of_required? hprocs)⟩

end

namespace Node

variable {k : Kind} {j : Json} {a b : Kind × Json}

theorem Readable.foundAll (h : Readable k j) (hk : k.variants ≠ []) : FoundAll k j := by
  cases k with
  | expr => obtain ⟨n, e, he⟩ := h; exact Expr.foundAll he
  | stmt => obtain ⟨n, a, ha⟩ := h; exact Stmt.foundAll ha
  | term => obtain ⟨n, t, ht⟩ := h; exact Term.foundAll ht
  | pred => obtain ⟨n, p, hp⟩ := h; exact Pred.foundAll hp
  | span | procedure | program | config => exact absurd rfl hk

theorem Readable.found_members {ms : List (String × Json)} (h : Readable k j)
    (hms : record? (k.members.map Prod.fst) j = some ms) : k.members.Forall (Found ms) := by
  cases k with
  | procedure => obtain ⟨n, p, hp⟩ := h; exact Procedure.found hp hms
  | program => obtain ⟨n, g, hg⟩ := h; exact Program.found hg hms
  | span | expr | stmt | term | pred | config => trivial

theorem Tagged.variants_ne_nil {ms : List (String × Json)} {fields : List (String × Shape)}
    (h : Tagged k ms fields) : k.variants ≠ [] := by
  cases h with
  | name _ hvariant => exact List.ne_nil_of_mem hvariant
  | number _ hvariant => exact List.ne_nil_of_mem (List.mem_of_getElem? hvariant)

theorem Readable.part (h : Readable a.1 a.2) (hpart : Part a b) : Readable b.1 b.2 := by
  cases hpart with
  | @mk k j ms fields name shape v b hopens hfield hv hb =>
    have hall : fields.Forall (Found ms) := by
      cases hopens with
      | tree htag =>
        obtain ⟨_, hobj, -, -, hall⟩ := h.foundAll htag.variants_ne_nil
        cases hobj
        exact hall fields htag
      | record hms => exact h.found_members hms
    exact (List.forall_iff_forall_mem.mp hall _ hfield).2 v hv b hb

theorem Readable.not_doubles (h : Readable a.1 a.2) : ¬ Doubles a := by
  intro hdoubles
  cases hdoubles with
  | @mk k ms name hk htwice hname =>
    obtain ⟨_, hobj, hspan, htag, hall⟩ := h.foundAll hk
    cases hobj
    have honce : (Json.given ms name).length ≤ 1 := by
      rcases hname with rfl | rfl | ⟨fields, hfields, hmem⟩
      · exact hspan.1
      · exact htag.1
      · obtain ⟨f, hf, rfl⟩ := List.mem_map.mp hmem
        exact (List.forall_iff_forall_mem.mp (hall fields hfields) f hf).1
    rw [Json.length_given] at honce
    omega

theorem Readable.path (h : Readable a.1 a.2) (hpath : Relation.ReflTransGen Part a b) : Readable b.1 b.2 := by
  induction hpath with
  | refl => exact h
  | tail _ hpart ih => exact ih.part hpart

/-- One node of a tree with a member given twice spoils everything around it. -/
theorem read?_eq_none_of_doubles (hpath : Relation.ReflTransGen Part (k, j) b) (hb : Doubles b) :
    read? k j = none := by
  cases h : read? k j with
  | none => rfl
  | some a => exact absurd hb ((readable_of_read? h).path hpath).not_doubles

end Node

end StrongestPost
