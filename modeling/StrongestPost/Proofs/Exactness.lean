import StrongestPost.Proofs.Soundness

/-!
# Exactness without loops

Where a statement has neither loops nor calls, nothing is lost. A state that
satisfies the postcondition is the end of an execution (`Stmt.Derives.reached`): one
goes back through the rules, and each fresh name gives its variable the old value
again. So the postcondition is the strongest one, and an obligation that is not
valid is the fault of an execution, not of the calculus.
-/

namespace StrongestPost

/-! ## Going back -/

section
variable {z : ByZero} {c : Config}

theorem Pred.assigned_back {p : Pred} {x y : String} {e : Expr} {t : Term} {s b : State}
    (ht : Term.ofExpr e = .ok t) (h : (p.assigned x y t).Holds z s b) :
    p.Holds z (s.set x (s y)) (b.set x (b y)) ∧ e.value? z (s.set x (s y)) = some (.int (s x)) := by
  obtain ⟨hp, heq⟩ := h
  have hval : s x = (t.rename x y).value z s b := heq
  rw [Term.value_rename] at hval
  refine ⟨(Pred.holds_rename p x y).mp hp, ?_⟩
  rw [hval, Term.ofExpr_value ht (b.set x (b y))]

theorem Stmt.Exec.ite_of_guard {span span' : Span} {e : Expr} {a a' : Stmt} {guard pre : Pred} {s b : State}
    {r : Ending} (hg : Pred.ofExpr e = .ok guard) (h : ((guard.and pre).atSpan span').Holds z s b)
    (he : a.Exec z s r) : pre.Holds z s b ∧ (Stmt.ite span e a a').Exec z s r := by
  rw [Pred.holds_atSpan] at h
  exact ⟨h.2, .iteTrue ((Pred.ofExpr_value_true hg b).mpr h.1) he⟩

theorem Stmt.Exec.ite_of_not_guard {span span' : Span} {e : Expr} {a a' : Stmt} {guard pre : Pred}
    {s b : State} {r : Ending} (hg : Pred.ofExpr e = .ok guard)
    (h : ((guard.not.and pre).atSpan span').Holds z s b) (he : a'.Exec z s r) :
    pre.Holds z s b ∧ (Stmt.ite span e a a').Exec z s r := by
  rw [Pred.holds_atSpan] at h
  exact ⟨h.2, .iteFalse ((Pred.ofExpr_value_false hg b).mpr h.1) he⟩

theorem Stmt.Derives.reached {a : Stmt} {level : Nat} {goesOn : Bool} {pre post : Pred} {f f' : Fresh}
    {notes : List Note} {s b : State} (h : a.Derives c level goesOn pre f notes post f')
    (hguard : c.conditional = .outside → a.KeepsGuards) (ha : a.Plain) (hs : post.Holds z s b) :
    ∃ s₀ b₀, pre.Holds z s₀ b₀ ∧ a.Exec z s₀ (.done s) := by
  induction h generalizing s b with
  | seq _ _ iha ihb =>
    obtain ⟨m, b₁, hm, heb⟩ := ihb (fun h => (hguard h).2) ha.2 hs
    obtain ⟨s₀, b₀, hp, hea⟩ := iha (fun h => (hguard h).1) ha.1 hm
    exact ⟨s₀, b₀, hp, .seq hea heb⟩
  | skip => exact ⟨s, b, hs, .skip⟩
  | block _ _ ih =>
    obtain ⟨s₀, b₀, hp, he⟩ := ih hguard ha hs
    exact ⟨s₀, b₀, hp, .block he⟩
  | @assign span x y e _ _ _ _ _ _ _ _ ht =>
    obtain ⟨hp, hval⟩ := Pred.assigned_back ht hs
    have he : (Stmt.assign span x e).Exec z (s.set x (s y)) _ := .assign hval
    rw [State.set_set, State.set_eq_self] at he
    exact ⟨_, _, hp, he⟩
  | @localInit span x y e _ _ _ _ _ _ _ _ ht =>
    obtain ⟨hp, hval⟩ := Pred.assigned_back ht hs
    have he : (Stmt.localDef span x (some e)).Exec z (s.set x (s y)) _ := .localInit hval
    rw [State.set_set, State.set_eq_self] at he
    exact ⟨_, _, hp, he⟩
  | @localAny span x y =>
    have he : (Stmt.localDef span x none).Exec z (s.set x (s y)) _ := .localAny (s x)
    rw [State.set_set, State.set_eq_self] at he
    exact ⟨_, _, (Pred.holds_rename _ x y).mp hs, he⟩
  | @iteOutside span e a a' guard _ _ _ p q _ _ _ _ _ _ hc hg _ _ iha ihb =>
    obtain ⟨hkeep, hka, hkb⟩ := hguard hc
    simp only [Pred.holds_atSpan, Pred.holds_or, Pred.holds_and] at hs
    rcases hs with ⟨hs, hp⟩ | ⟨hs, hq⟩
    · obtain ⟨s₀, b₀, hpre, he⟩ := iha (fun _ => hka) ha.1 hp
      rw [he.guard_holds_iff ha.1.hasRules (fun x hx => (hkeep x hx).1) hg b b₀] at hs
      exact ⟨s₀, b₀, hpre, .iteTrue ((Pred.ofExpr_value_true hg b₀).mpr hs) he⟩
    · obtain ⟨s₀, b₀, hpre, he⟩ := ihb (fun _ => hkb) ha.2 hq
      rw [Pred.holds_not, he.guard_holds_iff ha.2.hasRules (fun x hx => (hkeep x hx).2) hg b b₀] at hs
      exact ⟨s₀, b₀, hpre, .iteFalse ((Pred.ofExpr_value_false hg b₀).mpr hs) he⟩
  | iteOnEntry _ hc hg _ _ iha ihb =>
    have hnot : ¬ c.conditional = .outside := by simp [hc]
    simp only [Pred.holds_atSpan, Pred.holds_or] at hs
    rcases hs with hp | hq
    · obtain ⟨s₀, b₀, hpre, he⟩ := iha (fun h => absurd h hnot) ha.1 hp
      exact ⟨s₀, b₀, Exec.ite_of_guard hg hpre he⟩
    · obtain ⟨s₀, b₀, hpre, he⟩ := ihb (fun h => absurd h hnot) ha.2 hq
      exact ⟨s₀, b₀, Exec.ite_of_not_guard hg hpre he⟩
  | assume _ hg => exact ⟨s, b, hs.1, .assume ((Pred.ofExpr_value_true hg b).mpr hs.2)⟩
  | assert _ hg => exact ⟨s, b, hs.1, .assert ((Pred.ofExpr_value_true hg b).mpr hs.2)⟩
  | loop | passedLoop | passedCall => exact ha.elim

/-- Where the guard stands beside the precondition, an obligation that is false
somewhere comes from an execution that fails. -/
theorem Stmt.Derives.failing {a : Stmt} {level : Nat} {goesOn : Bool} {pre post : Pred} {f f' : Fresh}
    {notes : List Note} {s b : State} (h : a.Derives c level goesOn pre f notes post f')
    (hc : c.conditional = .onEntry) (ha : a.Plain) {o : Obligation} (ho : .raised o ∈ notes)
    (hs : ¬ o.pred.Holds z s b) : ∃ s₀ b₀, pre.Holds z s₀ b₀ ∧ a.Exec z s₀ .failed := by
  have hnot : ¬ c.conditional = .outside := by simp [hc]
  induction h with
  | seq hda _ iha ihb =>
    have ho := Note.mem_of_mem_ofSeq ho (by simp)
    rcases List.mem_append.mp ho with ho | ho
    · obtain ⟨s₀, b₀, hp, he⟩ := iha ha.1 ho
      exact ⟨s₀, b₀, hp, .seqFailed he⟩
    · obtain ⟨m, b₁, hm, heb⟩ := ihb ha.2 ho
      obtain ⟨s₀, b₀, hp, hea⟩ := hda.reached (fun h => absurd h hnot) ha.1 hm
      exact ⟨s₀, b₀, hp, .seq hea heb⟩
  | block _ _ ih =>
    obtain ⟨s₀, b₀, hp, he⟩ := ih ha (by simpa using ho)
    exact ⟨s₀, b₀, hp, .block he⟩
  | iteOnEntry _ _ hg _ _ iha ihb =>
    simp only [List.mem_cons, reduceCtorEq, false_or, List.mem_append] at ho
    rcases ho with ho | ho
    · obtain ⟨s₀, b₀, hpre, he⟩ := iha ha.1 ho
      exact ⟨s₀, b₀, Exec.ite_of_guard hg hpre he⟩
    · obtain ⟨s₀, b₀, hpre, he⟩ := ihb ha.2 ho
      exact ⟨s₀, b₀, Exec.ite_of_not_guard hg hpre he⟩
  | assert _ hg =>
    simp only [List.mem_cons, reduceCtorEq, false_or, Note.raised.injEq, List.not_mem_nil, or_false] at ho
    subst ho
    rw [Pred.holds_implies, Classical.not_imp] at hs
    exact ⟨s, b, hs.1, .assertFailed ((Pred.ofExpr_value_false hg b).mpr hs.2)⟩
  | iteOutside _ hc' => exact absurd hc' hnot
  | loop | passedLoop | passedCall => exact ha.elim
  | skip | assign | localInit | localAny | assume => simp at ho

end

/-! ## Statements without loops and calls -/

theorem Stmt.Plain.keys_current {a : Stmt} (h : a.Plain) : ∀ k ∈ a.keys, k.moment = .current := by
  have ofExpr (e : Expr) : ∀ k ∈ e.keys, k.moment = .current := by simp [Expr.keys]
  induction a with
  | assign _ x e => exact List.forall_mem_cons.mpr ⟨rfl, ofExpr e⟩
  | localDef _ x e =>
    refine List.forall_mem_cons.mpr ⟨rfl, ?_⟩
    cases e with
    | none => simp
    | some e => exact ofExpr e
  | seq _ a b iha ihb => exact List.forall_mem_append.mpr ⟨iha h.1, ihb h.2⟩
  | ite _ c a b iha ihb =>
    simp only [Stmt.keys, List.forall_mem_append]
    exact ⟨⟨ofExpr c, iha h.1⟩, ihb h.2⟩
  | block _ a ih => exact ih h
  | assert _ c | assume _ c => exact ofExpr c
  | skip => simp [Stmt.keys]
  | loop | call => exact h.elim

section
variable {c : Config} {a : Stmt} {level : Nat} {goesOn : Bool} {pre post : Pred} {f f' : Fresh}
  {notes : List Note}

theorem Stmt.Derives.loopsVerified {z : ByZero} (h : a.Derives c level goesOn pre f notes post f')
    (ha : a.Plain) : LoopsVerified z notes := by
  have hconcern : ∀ o, .raised o ∈ notes → o.concern = .assertion := by
    intro o ho
    induction h with
    | seq _ _ iha ihb =>
      have ho := Note.mem_of_mem_ofSeq ho (by simp)
      exact (List.mem_append.mp ho).elim (iha ha.1) (ihb ha.2)
    | block _ _ ih => exact ih ha (by simpa using ho)
    | iteOutside _ _ _ _ _ iha ihb | iteOnEntry _ _ _ _ _ iha ihb =>
      simp only [List.mem_cons, reduceCtorEq, false_or, List.mem_append] at ho
      exact ho.elim (iha ha.1) (ihb ha.2)
    | assert =>
      simp only [List.mem_cons, reduceCtorEq, false_or, Note.raised.injEq, List.not_mem_nil, or_false] at ho
      rw [ho]
    | loop | passedLoop | passedCall => exact ha.elim
    | skip | assign | localInit | localAny | assume => simp at ho
  intro o ho hne
  exact absurd (hconcern o ho) hne

theorem Stmt.Derives.currentOnly (h : a.Derives c level goesOn pre f notes post f') (ha : a.Plain)
    (hpre : pre.CurrentOnly) : post.CurrentOnly :=
  (h.speaksOf (closedUnder_current notes) ha.keys_current hpre).1

end

/-! ## The strongest postcondition -/

/-- **Exactness.** Without loops and calls, and without `old` in the precondition, the
states that satisfy the postcondition for some values of the names that do not occur
in the statement and the precondition are those that an execution can end in. An
execution that ends has met no false assert. -/
theorem Config.transform_exact (z : ByZero) (c : Config) (a : Stmt) (pre : Pred) {t : Transformed}
    (ht : (c.transform a pre).result = .ok t) (ha : a.Plain) (hpre : pre.CurrentOnly)
    (hguard : c.conditional = .outside → a.KeepsGuards) (s₁ b : State) :
    (∃ s, State.AgreeOn (a.vars ++ pre.freeNames) s₁ s ∧ t.post.Holds z s b) ↔
      ∃ s₀, pre.Holds z s₀ b ∧ a.Exec z s₀ (.done s₁) := by
  obtain ⟨f', hd, -, -⟩ := Config.derives_of_run ht
  have hla : ∀ x ∈ a.names, x ∈ a.vars ++ pre.freeNames := fun x hx =>
    List.mem_append_left _ (mem_inOrder.mpr hx)
  have hlp : ∀ x ∈ pre.names, x ∈ a.vars ++ pre.freeNames := fun x hx =>
    List.mem_append_right _ (mem_inOrder.mpr hx)
  constructor
  · intro h
    obtain ⟨s, hs, hpost⟩ := h
    obtain ⟨s₀, b₀, hp, he⟩ := hd.reached hguard ha hpost
    -- the names that occur neither here nor in `pre` get their values from `s₁`
    have he' := he.onto hla s₁
    rw [Ending.onto, State.onto_eq_of_agree hs.symm] at he'
    have hp' := Pred.holds_of_agree hlp (State.AgreeOn.onto _ s₀ s₁) (.refl _ b₀) hp
    exact ⟨_, hpre.holds_iff.mp hp', he'⟩
  · intro h
    obtain ⟨s₀, hp, he⟩ := h
    have htaken : ∀ x ∈ a.vars ++ pre.freeNames, x ∈ (c.start (inOrder (a.names ++ pre.names))).taken := by
      intro x hx
      rw [Config.mem_start_taken, mem_inOrder, List.mem_append]
      simpa [Stmt.vars, Pred.freeNames] using hx
    obtain ⟨v, b', hv, -, hpost⟩ := hd.follows hguard ha.hasRules (hd.loopsVerified ha) htaken hla
      hp.holdsOn he
    exact ⟨v, hv, (hd.currentOnly ha hpre).holds_iff.mp hpost⟩

def clamp : Stmt :=
  let x := Expr.ofName "x"
  (Stmt.when (BinOp.apply (.rel .lt) x (.ofInt64 0)) (.set "x" (.ofInt64 0))).andThen
    (.ensure (BinOp.apply (.rel .ge) x (.ofInt64 0)))

theorem Config.transform_exact_clamp :
    let z : ByZero := ⟨fun _ => 0, fun _ => 0⟩
    (∃ s₀, clamp.Exec z s₀ (.done fun _ => 3)) ∧ ¬ ∃ s₀, clamp.Exec z s₀ (.done fun _ => -1) := by
  intro z
  have hexact := Config.transform_exact z { conditional := .onEntry } clamp (.ofBool true) rfl
    ⟨⟨trivial, trivial⟩, trivial⟩ (by simp [Pred.CurrentOnly, Pred.SpeaksOf, Pred.ofBool]) (by simp)
  constructor
  · have hthree : ¬ (3 : Int) < (0 : Int64).toInt ∧ (0 : Int64).toInt ≤ 3 := by decide
    obtain ⟨s₀, -, he⟩ := (hexact (fun _ => 3) (fun _ => 0)).mp
      ⟨fun _ => 3, .refl _ _, .inr ⟨hthree.1, rfl⟩, hthree.2⟩
    exact ⟨s₀, he⟩
  · intro h
    obtain ⟨s₀, he⟩ := h
    obtain ⟨s, hs, -, hpost⟩ := (hexact (fun _ => -1) (fun _ => 0)).mpr ⟨s₀, rfl, he⟩
    have hx : -1 = s "x" := hs "x" (by decide)
    have hpost : 0 ≤ s "x" := hpost
    omega

/-! ## No false alarms -/

/-- **Completeness.** Without loops and calls, and with guards beside preconditions, the
obligations of a procedure that keeps its contract are all valid. -/
theorem Config.generateProcedure_complete (z : ByZero) (c : Config) (p : Procedure) {r : Report}
    (hr : (c.generateProcedure p).result = .ok r) (hc : c.conditional = .onEntry) (ha : p.body.Plain)
    (hfail : ∀ s₀ b, p.pre.Holds z s₀ b → ¬ p.body.Exec z s₀ .failed)
    (hpost : ∀ s₀ b s₁, p.pre.Holds z s₀ b → p.body.Exec z s₀ (.done s₁) → ∀ b', p.post.Holds z s₁ b') :
    (∀ o ∈ r.side, o.pred.Valid z) ∧ r.main.pred.Valid z ∧ r.predicate.Valid z := by
  obtain ⟨t, hrun, hmain, hside, -⟩ := Config.run_of_generateProcedure hr
  obtain ⟨f', hd, hobl, -⟩ := Config.derives_of_run hrun
  have hvside : ∀ o ∈ r.side, o.pred.Valid z := by
    intro o ho s b
    rw [hside, hobl] at ho
    by_cases hs : o.pred.Holds z s b
    · exact hs
    · obtain ⟨s₀, b₀, hp, he⟩ := hd.failing hc ha (mem_obligations.mp ho) hs
      exact absurd he (hfail s₀ b₀ hp)
  have hvmain : r.main.pred.Valid z := by
    rw [hmain]
    intro s b hs
    obtain ⟨s₀, b₀, hp, he⟩ := hd.reached (by simp [hc]) ha hs
    exact hpost s₀ b₀ s hp he b
  exact ⟨hvside, hvmain, Report.valid_predicate.mpr ⟨hvside, hvmain⟩⟩

def clampProcedure : Procedure :=
  .ofContract "clamp" (.ofBool true) clamp (RelOp.ge.apply (.now "x") (.ofInt64 0))

theorem clamp_ends {z : ByZero} {s : State} {r : Ending} (h : clamp.Exec z s r) :
    r.Meets (fun s' => 0 ≤ s' "x") False := by
  cases h with
  | seq h₁ h₂ =>
    rename_i m
    have hm : 0 ≤ m "x" := by
      cases h₁ with
      | iteTrue _ h =>
        cases h with
        | assign hv => cases hv; simp
      | iteFalse hc h =>
        have hs : ¬ s "x" < 0 :=
          (Pred.ofExpr_value_false (p := RelOp.lt.apply (.now "x") (.ofInt64 0)) rfl s).mp hc
        cases h
        omega
    cases h₂ with
    | assert => exact hm
    | assertFailed hc =>
      exact (Pred.ofExpr_value_false (p := RelOp.ge.apply (.now "x") (.ofInt64 0)) rfl m).mp hc hm
  | seqFailed h =>
    cases h with
    | iteTrue _ h => cases h
    | iteFalse _ h => cases h

theorem Config.generateProcedure_complete_clamp :
    let z : ByZero := ⟨fun _ => 0, fun _ => 0⟩
    ∃ r, (({ conditional := .onEntry } : Config).generateProcedure clampProcedure).result = .ok r ∧
      r.side.length = 1 ∧ r.predicate.Valid z := by
  intro z
  refine ⟨_, rfl, rfl, ?_⟩
  exact (Config.generateProcedure_complete z { conditional := .onEntry } clampProcedure rfl rfl
    ⟨⟨trivial, trivial⟩, trivial⟩ (fun _ _ _ he => clamp_ends he)
    fun _ _ _ _ he _ => clamp_ends he).2.2

end StrongestPost
