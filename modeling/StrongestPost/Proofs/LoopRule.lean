import StrongestPost.Proofs.EntryValues
import StrongestPost.Proofs.Renaming
import StrongestPost.Proofs.Soundness

/-!
# What is known after a loop

After a loop its invariant holds and its guard does not. Of the precondition remains what
it says of variables that the body does not write: it held in a state that differs from
the one at hand at most in the written variables (`Havocs.forgets`).

The variables are forgotten one after the other, each name being chosen when the ones
before it have been put in. All of these names are new, so none is mistaken for a variable
that is still to be forgotten, and the outcome is that of one map of names.
-/

namespace StrongestPost

/-! ## Maps of names and readings -/

section
variable {z : ByZero} {s b : State} {g : String → String}

theorem Key.value_mapName (k : Key) : (k.mapName g).value s b = k.value (s.through g) (b.through g) := by
  obtain ⟨x, m⟩ := k
  cases m with
  | current => rfl
  | before => rfl

theorem Term.value_mapNames (t : Term) :
    (t.mapNames g).value z s b = t.value z (s.through g) (b.through g) := by
  induction t with
  | var _ k => exact k.value_mapName
  | lit => rfl
  | neg _ t ih => simp only [Term.mapNames, Term.value, ih]
  | arith _ t op u iht ihu => simp only [Term.mapNames, Term.value, iht, ihu]

theorem Pred.holds_mapNames (p : Pred) :
    (p.mapNames g).Holds z s b ↔ p.Holds z (s.through g) (b.through g) := by
  induction p with
  | lit => exact Iff.rfl
  | rel _ t op u => simp only [Pred.mapNames, Pred.Holds, Term.value_mapNames]
  | neg _ p ih => simp only [Pred.mapNames, Pred.Holds, ih]
  | conn _ p op q ihp ihq => simp only [Pred.mapNames, Pred.Holds, ihp, ihq]

end

/-! ## Forgetting variables -/

section
variable {z : ByZero} {l xs : List String} {p q : Pred} {f f' : Fresh} {notes : List Note}

theorem Pred.exists_and_iff {s₁ b : State} (hq : ∀ x ∈ q.names, x ∈ l) :
    (∃ s, State.AgreeOn l s₁ s ∧ (p.and q).Holds z s b) ↔
      (∃ s, State.AgreeOn l s₁ s ∧ p.Holds z s b) ∧ q.Holds z s₁ b := by
  constructor
  · intro h
    obtain ⟨s, hs, hp, hqs⟩ := h
    exact ⟨⟨s, hs, hp⟩, holds_of_agree hq hs.symm (.refl l b) hqs⟩
  · intro h
    obtain ⟨⟨s, hs, hp⟩, hqs⟩ := h
    exact ⟨s, hs, hp, holds_of_agree hq hs (.refl l b) hqs⟩

/-- `l` are the names of a state. Variables of `l` that were forgotten may have had any
values; the others are as they were. -/
theorem Havocs.forgets (h : Havocs xs p f notes q f') (hxs : xs.Nodup) (hmem : ∀ x ∈ xs, x ∈ l)
    (hl : ∀ x ∈ l, x ∈ f.taken) (hp : ∀ x ∈ p.names, x ∈ l) (hcur : p.CurrentOnly) (s₁ b : State) :
    (∃ s, State.AgreeOn l s₁ s ∧ q.Holds z s b) ↔
      ∃ s₀, p.Holds z s₀ b ∧ ∀ x, x ∉ xs → s₀ x = s₁ x := by
  constructor
  · intro hex
    obtain ⟨s, hs, hq⟩ := hex
    obtain ⟨σ, hσ, rfl, -⟩ := h.moves hxs fun x hx => hl x (hmem x hx)
    rw [Pred.holds_mapNames] at hq
    -- what is not a name of the state gets its value from `s₁`
    refine ⟨State.onto l (s.through σ) s₁, ?_, fun x hx => ?_⟩
    · have hagree := State.AgreeOn.onto l (s.through σ) s₁
      exact hcur.holds_iff.mp (Pred.holds_of_agree hp hagree (.refl l _) hq)
    · by_cases hxl : x ∈ l
      · rw [State.onto_of_mem _ _ hxl, State.through, hσ.off x hx]
        exact (hs x hxl).symm
      · exact if_neg hxl
  · intro hex
    obtain ⟨s₀, hp₀, hs₀⟩ := hex
    have hon : q.HoldsOn z l s₁ b := h.follows hl hmem hp₀.holdsOn fun x hx => (hs₀ x hx).symm
    obtain ⟨s, b', hs, -, hq⟩ := hon
    have hqcur : q.CurrentOnly := h.speaksOf (closedUnder_current notes) hcur
    exact ⟨s, hs, hqcur.holds_iff.mp hq⟩

end

/-! ## The loop rule -/

/-- The parts of a loop's postcondition. The variables of the body are forgotten when the
names of the loop and of the precondition, and those for the body, are taken. -/
theorem Config.transform_loop {c : Config} {span : Span} {e : Expr} {inv pre : Pred} {body : Stmt}
    {t : Transformed} (ht : (c.transform (.loop span e (some inv) body) pre).result = .ok t) :
    ∃ guard frame f f' notes, Pred.ofExpr e = .ok guard ∧
      Havocs body.assignedVars pre f notes frame f' ∧
      (∀ x ∈ (Stmt.loop span e (some inv) body).names ++ pre.names, x ∈ f.taken) ∧
      (∀ n ∈ notes, n ∈ (c.transform (.loop span e (some inv) body) pre).notes) ∧
      t.post = ((frame.and inv).and guard.not).atSpan pre.span := by
  obtain ⟨f', hd, -, -⟩ := Config.derives_of_run ht
  unfold Config.transform
  generalize (c.run _ pre _).notes = run, t.post = post at hd ⊢
  cases hd with
  | loop _ hg hbody hframe =>
    refine ⟨_, _, _, _, _, hg, hframe, fun x hx => ?_, fun n hn => ?_, rfl⟩
    · apply hbody.leads.mem_taken
      rw [Config.mem_start_taken, mem_inOrder]
      exact hx
    · exact .tail _ (.tail _ (.tail _ (List.mem_append_right _ (.tail _ hn))))

/-- **Loops.** Without `old` in the precondition, the states that satisfy the postcondition
of a loop for some values of the names that do not occur in the loop and the precondition
are those where the invariant holds, the guard does not, and the precondition holds of a
state that differs in nothing but the variables that the body writes. In the postcondition
these variables have been moved to new names, all at once. -/
theorem Config.transform_loop_exact (z : ByZero) (c : Config) (span : Span) (e : Expr) (inv pre : Pred)
    (body : Stmt) {t : Transformed}
    (ht : (c.transform (.loop span e (some inv) body) pre).result = .ok t) (hpre : pre.CurrentOnly) :
    let names := (Stmt.loop span e (some inv) body).vars ++ pre.freeNames
    (∀ s₁ b, (∃ s, State.AgreeOn names s₁ s ∧ t.post.Holds z s b) ↔
      inv.Holds z s₁ b ∧ e.value? z s₁ = some (.bool false) ∧
        ∃ s₀, pre.Holds z s₀ b ∧ ∀ x, x ∉ body.assignedVars → s₀ x = s₁ x) ∧
    ∃ σ guard, Pred.ofExpr e = .ok guard ∧
      t.post = (((pre.mapNames σ).and inv).and guard.not).atSpan pre.span ∧
      (∀ x, x ∉ body.assignedVars → σ x = x) ∧ InjectiveOn body.assignedVars σ ∧
      ∀ x ∈ body.assignedVars, σ x ∉ names ∧
        σ x ∈ (c.transform (.loop span e (some inv) body) pre).allocated := by
  intro names
  obtain ⟨guard, frame, f, f', notes, hg, hframe, htaken, hnotes, hpost⟩ := Config.transform_loop ht
  have hnames : ∀ x, x ∈ names ↔ x ∈ (Stmt.loop span e (some inv) body).names ++ pre.names := by
    simp [names, Stmt.vars, Pred.freeNames]
  have htaken : ∀ x ∈ names, x ∈ f.taken := fun x hx => htaken x ((hnames x).mp hx)
  have hpn : ∀ x ∈ pre.names, x ∈ names := fun x hx => (hnames x).mpr (List.mem_append_right _ hx)
  have hloop : ∀ x ∈ (Stmt.loop span e (some inv) body).names, x ∈ names := fun x hx =>
    (hnames x).mpr (List.mem_append_left _ hx)
  simp only [Stmt.names, Option.elim, List.forall_mem_append] at hloop
  obtain ⟨⟨hen, hin⟩, hbn⟩ := hloop
  have hwritten : ∀ x ∈ body.assignedVars, x ∈ names := fun x hx =>
    hbn x (Stmt.targets_subset_names (mem_inOrder.mp hx))
  have hgn : ∀ x ∈ guard.not.names, x ∈ names := by
    rw [Pred.names_not, Pred.names_ofExpr hg]
    exact hen
  refine ⟨fun s₁ b => ?_, ?_⟩
  · simp only [hpost, Pred.holds_atSpan]
    rw [Pred.exists_and_iff hgn, Pred.exists_and_iff hin, Pred.holds_not, Pred.ofExpr_value_false hg b,
      hframe.forgets (nodup_inOrder _) hwritten htaken hpn hpre s₁ b]
    rw [and_assoc, and_comm, and_assoc]
  · obtain ⟨σ, hσ, rfl, hmoved⟩ := hframe.moves (nodup_inOrder _) fun x hx => htaken x (hwritten x hx)
    refine ⟨σ, guard, hg, hpost, hσ.off, hσ.inj, fun x hx => ⟨fun hm => ?_, ?_⟩⟩
    · exact hσ.fresh x hx (htaken _ hm)
    · have hmem : σ x ∈ notes.filterMap Note.name? := hmoved ▸ List.mem_map_of_mem hx
      obtain ⟨n, hn, hname⟩ := List.mem_filterMap.mp hmem
      exact List.mem_filterMap.mpr ⟨n, hnotes n hn, hname⟩

/-- Writes `x` and `x_0`, whose name looks like one for a value of `x`; so does `x_1`. -/
def shiftDown : Stmt :=
  .whileDo (BinOp.apply (.rel .gt) (.ofName "x") (.ofInt64 0))
    (some (RelOp.le.apply (.now "x_0") (.now "x_1")))
    (.andThen (.set "x" (.ofName "x_0")) (.set "x_0" (.ofName "x_1")))

def shiftDownPre : Pred :=
  (RelOp.eq.apply (.now "x_0") (.ofInt64 1)).and (RelOp.eq.apply (.now "x_1") (.ofInt64 5))

def shiftedTo (n : Int) : State := fun x => if x = "x_1" then n else 0

theorem Config.transform_loop_exact_shiftDown :
    let z : ByZero := ⟨fun _ => 0, fun _ => 0⟩
    let names := shiftDown.vars ++ shiftDownPre.freeNames
    ∃ t, (({} : Config).transform shiftDown shiftDownPre).result = .ok t ∧
      (∃ s, State.AgreeOn names (shiftedTo 5) s ∧ t.post.Holds z s (shiftedTo 5)) ∧
      ¬ ∃ s, State.AgreeOn names (shiftedTo 6) s ∧ t.post.Holds z s (shiftedTo 6) := by
  intro z names
  have hcur : shiftDownPre.CurrentOnly := by unfold Pred.CurrentOnly Pred.SpeaksOf; decide
  obtain ⟨t, ht⟩ : ∃ t, (({} : Config).transform shiftDown shiftDownPre).result = .ok t := ⟨_, rfl⟩
  obtain ⟨hexact, -⟩ := Config.transform_loop_exact z {} _ _ _ shiftDownPre _ ht hcur
  refine ⟨t, ht, ?_, fun h => ?_⟩
  · -- only `x_0`, which the body writes, was different before
    have hpre : shiftDownPre.Holds z ((shiftedTo 5).set "x_0" 1) (shiftedTo 5) := by decide
    refine (hexact (shiftedTo 5) (shiftedTo 5)).mpr ⟨by decide, by decide, _, hpre, fun x hx => ?_⟩
    refine State.set_of_ne _ _ fun e => hx ?_
    rw [e]
    decide
  · obtain ⟨-, -, s₀, hpre, hkept⟩ := (hexact (shiftedTo 6) (shiftedTo 6)).mp h
    have hfive : s₀ "x_1" = (5 : Int64).toInt := hpre.2
    rw [hkept "x_1" (by decide)] at hfive
    exact absurd hfive (by decide)

end StrongestPost
