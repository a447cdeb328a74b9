import StrongestPost.Proofs.DoubledMembers
import StrongestPost.Proofs.Presentation

/-!
# Nodes from their texts

The text that is written for a node is read back as that node, and so is every text of every
presentation of it, as long as arrays and objects do not nest too deep. Where a node of a
tree is given something twice, no text is read at all.
-/

namespace StrongestPost

/-! ## The numbers that are written -/

/-- Every number in the value is an integer that fits in 64 bits, signed or unsigned. -/
inductive Json.Integral : Json → Prop
  | null : Integral .null
  | bool {b} : Integral (.bool b)
  | int {n} : -2 ^ 63 ≤ n → n < 2 ^ 64 → Integral (.int n)
  | str {s} : Integral (.str s)
  | arr {js} : (∀ j ∈ js, Integral j) → Integral (.arr js)
  | obj {ms} : (∀ m ∈ ms, Integral m.2) → Integral (.obj ms)

namespace Json

@[simp] theorem integral_null : Integral .null := .null

@[simp] theorem integral_bool (b : Bool) : Integral (.bool b) := .bool

@[simp] theorem integral_str (s : String) : Integral (.str s) := .str

@[simp] theorem integral_arr {js : List Json} : Integral (.arr js) ↔ ∀ j ∈ js, Integral j := by
  constructor
  · intro h; cases h with | arr h => exact h
  · exact .arr

@[simp] theorem integral_obj {ms : List (String × Json)} : Integral (.obj ms) ↔ ∀ m ∈ ms, Integral m.2 := by
  constructor
  · intro h; cases h with | obj h => exact h
  · exact .obj

theorem integral_int {n : Int} : Integral (.int n) ↔ -2 ^ 63 ≤ n ∧ n < 2 ^ 64 := by
  constructor
  · intro h; cases h with | int hlow hhigh => exact ⟨hlow, hhigh⟩
  · rintro ⟨hlow, hhigh⟩; exact .int hlow hhigh

@[simp] theorem integral_uint32 (n : UInt32) : Integral (.int n.toNat) := by
  have hn : n.toNat < 2 ^ 32 := n.toNat_lt_size
  exact integral_int.mpr (by omega)

@[simp] theorem integral_uint64 (n : UInt64) : Integral (.int n.toNat) := by
  have hn : n.toNat < 2 ^ 64 := n.toNat_lt_size
  exact integral_int.mpr (by omega)

@[simp] theorem integral_int64 (v : Int64) : Integral (.int v.toInt) := by
  have hlow := v.le_toInt
  have hhigh := v.toInt_lt
  exact integral_int.mpr (by omega)

section
variable {rest : List Token}

theorem fits_elementsOnto {js : List Json}
    (h : ∀ j ∈ js, ∀ {rest : List Token}, (∀ t ∈ rest, t.Fits) → ∀ t ∈ j.tokensOnto rest, t.Fits)
    (hrest : ∀ t ∈ rest, t.Fits) : ∀ t ∈ elementsOnto js rest, t.Fits := by
  induction js with
  | nil => exact hrest
  | cons j js ih =>
    obtain ⟨hj, hjs⟩ := List.forall_mem_cons.mp h
    exact List.forall_mem_cons.mpr ⟨trivial, hj (ih hjs)⟩

theorem fits_membersOnto {ms : List (String × Json)}
    (h : ∀ m ∈ ms, ∀ {rest : List Token}, (∀ t ∈ rest, t.Fits) → ∀ t ∈ m.2.tokensOnto rest, t.Fits)
    (hrest : ∀ t ∈ rest, t.Fits) : ∀ t ∈ membersOnto ms rest, t.Fits := by
  induction ms with
  | nil => exact hrest
  | cons m ms ih =>
    obtain ⟨hm, hms⟩ := List.forall_mem_cons.mp h
    simpa [membersOnto, Token.Fits] using hm (ih hms)

theorem Integral.fits {j : Json} (h : Integral j) (hrest : ∀ t ∈ rest, t.Fits) :
    ∀ t ∈ j.tokensOnto rest, t.Fits := by
  induction h generalizing rest with
  | null | bool | str => exact List.forall_mem_cons.mpr ⟨trivial, hrest⟩
  | int hlow hhigh => exact List.forall_mem_cons.mpr ⟨⟨hlow, hhigh⟩, hrest⟩
  | @arr js _ ih =>
    have hclose : ∀ t ∈ Token.closeArr :: rest, t.Fits := List.forall_mem_cons.mpr ⟨trivial, hrest⟩
    cases js with
    | nil => exact List.forall_mem_cons.mpr ⟨trivial, hclose⟩
    | cons j js =>
      obtain ⟨hj, hjs⟩ := List.forall_mem_cons.mp ih
      exact List.forall_mem_cons.mpr ⟨trivial, hj (fits_elementsOnto hjs hclose)⟩
  | @obj ms _ ih =>
    have hclose : ∀ t ∈ Token.closeObj :: rest, t.Fits := List.forall_mem_cons.mpr ⟨trivial, hrest⟩
    cases ms with
    | nil => exact List.forall_mem_cons.mpr ⟨trivial, hclose⟩
    | cons m ms =>
      obtain ⟨hm, hms⟩ := List.forall_mem_cons.mp ih
      simpa [tokensOnto, Token.Fits] using hm (fits_membersOnto hms hclose)

/-- What is written for such a value is one of its texts. -/
theorem Integral.written {j : Json} (h : Integral j) : Written j.text j := written_text (h.fits (by simp))

end

end Json

@[simp] theorem Span.integral_toJson (s : Span) : s.toJson.Integral := by
  simp [Span.toJson]

@[simp] theorem integral_nodeJson {s : Span} {key tag : String} {ms : List (String × Json)} :
    (nodeJson s key tag ms).Integral ↔ ∀ m ∈ ms, m.2.Integral := by
  simp [nodeJson]

@[simp] theorem Expr.integral_toJson (e : Expr) : e.toJson.Integral := by
  induction e with
  | var | int | bool => simp [Expr.toJson]
  | unary s op e ih => simp [Expr.toJson, ih]
  | binary s a op b iha ihb => simp [Expr.toJson, iha, ihb]

@[simp] theorem Term.integral_toJson (t : Term) : t.toJson.Integral := by
  induction t with
  | var | lit => simp [Term.toJson]
  | neg s t ih => simp [Term.toJson, ih]
  | arith s t op u iht ihu => simp [Term.toJson, iht, ihu]

@[simp] theorem Pred.integral_toJson (p : Pred) : p.toJson.Integral := by
  induction p with
  | lit | rel => simp [Pred.toJson]
  | neg s p ih => simp [Pred.toJson, ih]
  | conn s p op q ihp ihq => simp [Pred.toJson, ihp, ihq]

@[simp] theorem Json.integral_elim {α : Type} {toJson : α → Json} {o : Option α} (h : ∀ a, (toJson a).Integral) :
    (o.elim .null toJson).Integral := by
  cases o with
  | none => exact .null
  | some a => exact h a

@[simp] theorem Stmt.integral_toJson (a : Stmt) : a.toJson.Integral := by
  induction a with
  | assign | skip | assert | assume | call | localDef => simp [Stmt.toJson]
  | seq s a b iha ihb => simp [Stmt.toJson, iha, ihb]
  | ite s c a b iha ihb => simp [Stmt.toJson, iha, ihb]
  | block s a ih => simp [Stmt.toJson, ih]
  | loop s c i a ih => simp [Stmt.toJson, ih]

@[simp] theorem Procedure.integral_toJson (p : Procedure) : p.toJson.Integral := by
  simp [Procedure.toJson]

namespace Node

theorem integral_toJson (a : Node) : a.toJson.Integral := by
  cases a with
  | span | expr | stmt | term | pred | procedure => simp [toJson]
  | program g => simp [toJson, Program.toJson]
  | config c => simp [toJson, Config.toJson]

/-! ## Reading texts -/

theorem ofText?_of_written {k : Kind} {s : String} {j : Json} (h : Json.Written s j) :
    ofText? k s = if j.nesting ≤ 127 then read? k j else none := by
  have hparse : Json.parse? s = if j.nesting ≤ 127 then some j else none := Json.parse?_of_written h
  by_cases hn : j.nesting ≤ 127
  · rw [ofText?, hparse, if_pos hn, if_pos hn, Option.bind_some]
  · rw [ofText?, hparse, if_neg hn, if_neg hn, Option.bind_none]

/-- Every node is read back from the text that is written for it, unless the text nests too deep. -/
theorem text_round_trip (a : Node) :
    ofText? a.kind a.toJson.text = if a.toJson.nesting ≤ 127 then some a else none := by
  rw [ofText?_of_written a.integral_toJson.written]
  by_cases h : a.toJson.nesting ≤ 127
  · rw [if_pos h, if_pos h, read?_of_presents a.presents_toJson h]
  · rw [if_neg h, if_neg h]

/-- The text that is written for a node is a text of a presentation of it. From every text of
every presentation the node itself is read. From a text of a value that gives a node of a
tree something twice nothing is read. -/
theorem texts_of_presentations :
    (∀ a : Node, a.Presents a.toJson ∧ Json.Written a.toJson.text a.toJson) ∧
    (∀ (a : Node) (j : Json) (s : String), a.Presents j → Json.Written s j → j.nesting ≤ 127 →
      ofText? a.kind s = some a) ∧
    ∀ (k : Kind) (j : Json) (p : Kind × Json) (s : String),
      Relation.ReflTransGen Part (k, j) p → Doubles p → Json.Written s j → ofText? k s = none := by
  refine ⟨fun a => ⟨a.presents_toJson, a.integral_toJson.written⟩, ?_, ?_⟩
  · intro a j s hj hs hn
    rw [ofText?_of_written hs, if_pos hn, read?_of_presents hj hn]
  · intro k j p s hpath hp hs
    rw [ofText?_of_written hs, read?_eq_none_of_doubles hpath hp, ite_self]

/-- `x <= 7`, where the bound stands at `1:6`. -/
def atMostSeven : Pred := .rel .synthesized (.var .synthesized ⟨"x", .current⟩) .le (.lit ⟨1, 6⟩ 7)

/-- The same backwards, with a remark made twice and without what is understood. -/
def atMostSevenBackwards : Json :=
  .obj [("note", .null), ("note", .arr [.bool true]),
    ("rhs", .obj [("value", .int 7), ("term", .str "int"), ("span", .obj [("column", .int 6), ("line", .int 1)])]),
    ("op", .str "le"), ("lhs", .obj [("name", .str "x"), ("term", .str "var")]), ("pred", .str "rel")]

theorem presents_atMostSevenBackwards : (pred atMostSeven).Presents atMostSevenBackwards := by
  have hlhs : Term.Presents (.var .synthesized ⟨"x", .current⟩) (.obj [("name", .str "x"), ("term", .str "var")]) :=
    ⟨_, _, [], rfl, .omitted rfl (.given rfl (.given rfl (.omitted rfl .nil))), by simp, .swap ..⟩
  have hspan : Span.Presents ⟨1, 6⟩ (.obj [("column", .int 6), ("line", .int 1)]) :=
    ⟨_, _, [], rfl, .given rfl (.given rfl .nil), by simp, .swap ..⟩
  have hrhs : Term.Presents (.lit ⟨1, 6⟩ 7)
      (.obj [("value", .int 7), ("term", .str "int"), ("span", .obj [("column", .int 6), ("line", .int 1)])]) :=
    ⟨_, _, [], rfl, .given hspan (.given rfl (.given rfl .nil)), by simp,
      List.reverse_perm [("span", _), ("term", _), ("value", _)]⟩
  exact ⟨_, _, [("note", .arr [.bool true]), ("note", .null)], rfl,
    .omitted rfl (.given rfl (.given hlhs (.given rfl (.given hrhs .nil)))), by simp,
    List.reverse_perm [("pred", _), ("lhs", _), ("op", _), ("rhs", _), ("note", _), ("note", _)]⟩

/-- A statement that says twice that it is nothing. -/
def nothingTwice : Json := .obj [("stmt", .str "skip"), ("stmt", .str "skip")]

theorem doubles_nothingTwice : Doubles (.stmt, nothingTwice) :=
  .mk (by simp [Kind.variants]) (by decide) (.inr (.inl rfl))

theorem part_block (j : Json) : Part (.stmt, .obj [("stmt", .str "block"), ("body", j)]) (.stmt, j) := by
  have htag : Tagged .stmt [("stmt", .str "block"), ("body", j)] [("body", .node .stmt)] :=
    .name List.mem_cons_self (by simp [Kind.variants])
  have hbody : ("body", j) ∈ [("stmt", .str "block"), ("body", j)] := by simp
  exact .mk (.tree htag) (List.mem_singleton_self _) hbody (List.mem_singleton_self _)

theorem texts_of_presentations_backwards :
    ofText? .pred atMostSevenBackwards.text = some (.pred atMostSeven) ∧
      ofText? .stmt (Json.obj [("stmt", .str "block"), ("body", nothingTwice)]).text = none := by
  have hseven : atMostSevenBackwards.Integral := by
    simp [atMostSevenBackwards, Json.integral_int]
  have hnothing : (Json.obj [("stmt", .str "block"), ("body", nothingTwice)]).Integral := by
    simp [nothingTwice]
  constructor
  · exact texts_of_presentations.2.1 (.pred atMostSeven) atMostSevenBackwards _ presents_atMostSevenBackwards
      hseven.written (by decide)
  · exact texts_of_presentations.2.2 .stmt _ _ _ (.single (part_block nothingTwice)) doubles_nothingTwice
      hnothing.written

end Node

end StrongestPost
