import StrongestPost.Proofs.Grouping
import StrongestPost.Proofs.LoopRule

/-!
# A conditional and its branches

The branches of a conditional are walked one after the other by one allocator, so their
fresh names differ from those of separate runs, which may even share names. Since fresh names are
read existentially, their spelling does not matter as long as none of them is a name of
the program (`Pred.holdsOn_mapNames`).
-/

namespace StrongestPost

/-! ## Names read existentially -/

namespace Pred
variable {z : ByZero} {l : List String} {s b : State} {p q : Pred} {g : String → String}

theorem holdsOn_atSpan {span : Span} : (p.atSpan span).HoldsOn z l s b ↔ p.HoldsOn z l s b := by
  simp only [HoldsOn, holds_atSpan]

theorem holdsOn_or : (p.or q).HoldsOn z l s b ↔ p.HoldsOn z l s b ∨ q.HoldsOn z l s b := by
  constructor
  · rintro ⟨v, b', hv, hb, h | h⟩
    · exact .inl ⟨v, b', hv, hb, h⟩
    · exact .inr ⟨v, b', hv, hb, h⟩
  · rintro (h | h)
    · exact h.or_left
    · exact h.or_right

theorem holdsOn_and_left (hq : ∀ x ∈ q.names, x ∈ l) :
    (q.and p).HoldsOn z l s b ↔ q.Holds z s b ∧ p.HoldsOn z l s b := by
  constructor
  · rintro ⟨v, b', hv, hb, hqv, hp⟩
    exact ⟨holds_of_agree hq hv.symm hb.symm hqv, v, b', hv, hb, hp⟩
  · rintro ⟨hqs, hp⟩
    exact hp.and_left hqs hq

theorem HoldsOn.of_mapNames (h : (p.mapNames g).HoldsOn z l s b)
    (hg : ∀ x ∈ p.names, x ∈ l → g x = x) : p.HoldsOn z l s b := by
  obtain ⟨v, b', hv, hb, h⟩ := h
  rw [holds_mapNames] at h
  refine ⟨.onto l s (v.through g), .onto l b (b'.through g), State.AgreeOn.onto l s _,
    State.AgreeOn.onto l b _, ?_⟩
  have hvalue {t t' : State} (ht : State.AgreeOn l t t') {x : String} (hx : x ∈ p.names) :
      t'.through g x = State.onto l t (t'.through g) x := by
    by_cases hxl : x ∈ l
    · rw [State.onto_of_mem _ _ hxl, State.through, hg x hx hxl, ht x hxl]
    · exact (if_neg hxl).symm
  refine holds_of_agree (fun _ hx => hx) ?_ ?_ h
  · exact fun x hx => hvalue hv hx
  · exact fun x hx => hvalue hb hx

/-- The names of `l` stay, and the others are moved one to one to names outside of `l`. -/
theorem holdsOn_mapNames (hinj : InjectiveOn p.names g) (hold : ∀ x ∈ p.names, x ∈ l → g x = x)
    (hnew : ∀ x ∈ p.names, x ∉ l → g x ∉ l) :
    (p.mapNames g).HoldsOn z l s b ↔ p.HoldsOn z l s b := by
  refine ⟨fun h => h.of_mapNames hold, fun h => ?_⟩
  let back := extendMap p.names g id id
  have hback : ∀ x ∈ p.names, back (g x) = x := fun x hx => extendMap_new hinj hx
  have hp : (p.mapNames g).mapNames back = p := by
    rw [mapNames_mapNames]
    exact (mapNames_congr hback).trans p.mapNames_id
  have h : ((p.mapNames g).mapNames back).HoldsOn z l s b := by rwa [hp]
  refine h.of_mapNames fun y hy hyl => ?_
  rw [names_mapNames] at hy
  obtain ⟨x, hx, rfl⟩ := List.mem_map.mp hy
  by_cases hxl : x ∈ l
  · rw [hback x hx, hold x hx hxl]
  · exact absurd hyl (hnew x hx hxl)

end Pred

/-! ## The same statement after different allocators -/

theorem Stmt.Derives.same_up_to_names {c : Config} {a : Stmt} {level level' : Nat} {pre p p' : Pred}
    {f f' g g' : Fresh} {notes notes' : List Note} (h : a.Derives c level false pre f notes p f')
    (h' : a.Derives c level' false pre g notes' p' g') (hlevel : level ≤ level')
    (hf : ∀ x ∈ a.names ++ pre.names, x ∈ f.taken) (hg : ∀ x ∈ a.names ++ pre.names, x ∈ g.taken)
    (hnodup : g.taken.Nodup) :
    ∃ σ, p' = p.mapNames σ ∧ InjectiveOn p.names σ ∧ (∀ x ∈ a.names ++ pre.names, σ x = x) ∧
      ∀ x ∈ p.names, x ∉ a.names ++ pre.names → σ x ∉ g.taken := by
  have hm : Matches id (a.names ++ pre.names) f g := ⟨fun _ _ _ _ h => h, hf, hg⟩
  obtain ⟨σ, notes₂, g₂, hd, hn⟩ := h.renamed c.separator hm (fun x hx => List.mem_append_left _ hx)
    (fun x hx => List.mem_append_right _ hx)
  rw [Stmt.mapNames_id, Pred.mapNames_id] at hd
  have hsame := (h'.lower hlevel).gives.symm.trans hd.gives
  cases hsame
  have hnames : ∀ x ∈ p.names, x ∈ a.names ++ pre.names ++ notes.filterMap Note.name? :=
    (h.names_mem (fun x hx => List.mem_append_left _ hx) fun x hx => List.mem_append_right _ hx).1
  refine ⟨σ, rfl, hn.matched.inj.mono hnames, hn.old, fun x hx hxl => ?_⟩
  -- what is not a name of the program was handed out, on both sides
  have hx : x ∈ notes.filterMap Note.name? := (List.mem_append.mp (hnames x hx)).resolve_left hxl
  have hσx := hn.names.mem_iff.mpr (List.mem_map_of_mem hx)
  exact (h'.leads.names_fresh hnodup).2 _ hσx

/-- A statement inside of another one and on its own. The names of `l` are those of a state; the
run on its own must not come up with one of them. -/
theorem Stmt.Derives.holdsOn_iff {z : ByZero} {c : Config} {a : Stmt} {level : Nat} {pre p : Pred}
    {f f' : Fresh} {notes : List Note} {l : List String} {t : Transformed}
    (h : a.Derives c level false pre f notes p f') (ht : (c.transform a pre).result = .ok t)
    (hnodup : f.taken.Nodup) (hf : ∀ x ∈ l, x ∈ f.taken) (ha : ∀ x ∈ a.names, x ∈ l)
    (hpre : ∀ x ∈ pre.names, x ∈ l)
    (hnew : ∀ x ∈ t.post.freeNames, x ∉ a.vars → x ∉ pre.freeNames → x ∉ l) (s b : State) :
    p.HoldsOn z l s b ↔ t.post.HoldsOn z l s b := by
  simp only [Stmt.vars, Pred.freeNames, mem_inOrder] at hnew
  have hl : ∀ x ∈ a.names ++ pre.names, x ∈ l := List.forall_mem_append.mpr ⟨ha, hpre⟩
  obtain ⟨_, hd, -, -⟩ := Config.derives_of_run ht
  have hstart : ∀ x ∈ a.names ++ pre.names, x ∈ (c.start (inOrder (a.names ++ pre.names))).taken :=
    fun x hx => Config.mem_start_taken.mpr (mem_inOrder.mpr hx)
  obtain ⟨σ, rfl, hinj, hstay, hfresh⟩ :=
    hd.same_up_to_names h (Nat.zero_le level) hstart (fun x hx => hf x (hl x hx)) hnodup
  refine Pred.holdsOn_mapNames hinj (fun x hx hxl => ?_) fun x hx hxl hσ => ?_
  · by_cases hxa : x ∈ a.names ++ pre.names
    · exact hstay x hxa
    · rw [List.mem_append, not_or] at hxa
      exact absurd hxl (hnew x hx hxa.1 hxa.2)
  · exact hfresh x hx (fun hxa => hxl (hl x hxa)) (hf _ hσ)

/-! ## Conditionals -/

/-- The parts of a conditional's postcondition. The else branch finds the names taken that were
handed out for the then branch. -/
theorem Config.transform_ite {c : Config} {span : Span} {e : Expr} {a b : Stmt} {pre guard : Pred}
    {t : Transformed} (hc : c.conditional = .outside) (hguard : Pred.ofExpr e = .ok guard)
    (ht : (c.transform (.ite span e a b) pre).result = .ok t) :
    ∃ p q f₁ f₂ n₁ n₂,
      a.Derives c 1 false pre (c.start (inOrder ((Stmt.ite span e a b).names ++ pre.names))) n₁ p f₁ ∧
      b.Derives c 1 false pre f₁ n₂ q f₂ ∧
      t.post = (((guard.and p).atSpan pre.span).or ((guard.not.and q).atSpan pre.span)).atSpan pre.span := by
  obtain ⟨_, hd, -, -⟩ := Config.derives_of_run ht
  generalize (c.run (.ite span e a b) pre _).notes = notes, t.post = post at hd ⊢
  cases hd with
  | iteOutside _ _ hg hda hdb =>
    cases hguard.symm.trans hg
    exact ⟨_, _, _, _, _, _, hda, hdb, rfl⟩
  | iteOnEntry _ hc' =>
    rw [hc] at hc'
    cases hc'

theorem Config.post_of_skip {c : Config} {span : Span} {pre : Pred} {t : Transformed}
    (ht : (c.transform (.skip span) pre).result = .ok t) : t.post = pre := by
  obtain ⟨_, hd, -, -⟩ := Config.derives_of_run ht
  generalize (c.run (.skip span) pre _).notes = notes, t.post = post at hd ⊢
  cases hd
  rfl

/-- **Conditionals.** With guards beside postconditions, a conditional leads to what its then
branch leads to, with the guard, or to what its else branch leads to, with the negated guard.
The branches are run on their own from the same precondition; an empty one leads to just that.
What is not a name of the conditional or of the precondition is read existentially; the runs of
the branches must not come up with names of the guard or of the other branch. -/
theorem Config.transform_branches (z : ByZero) (c : Config) (span : Span) (e : Expr) (a b : Stmt)
    (pre guard : Pred) {t ta tb : Transformed} (hc : c.conditional = .outside)
    (hguard : Pred.ofExpr e = .ok guard) (ht : (c.transform (.ite span e a b) pre).result = .ok t)
    (hta : (c.transform a pre).result = .ok ta) (htb : (c.transform b pre).result = .ok tb)
    (ha : ∀ x ∈ ta.post.freeNames, x ∉ a.vars → x ∉ pre.freeNames →
      x ∉ (Stmt.ite span e a b).vars ++ pre.freeNames)
    (hb : ∀ x ∈ tb.post.freeNames, x ∉ b.vars → x ∉ pre.freeNames →
      x ∉ (Stmt.ite span e a b).vars ++ pre.freeNames) :
    (∀ now before, t.post.HoldsOn z ((Stmt.ite span e a b).vars ++ pre.freeNames) now before ↔
      ((guard.and ta.post).or (guard.not.and tb.post)).HoldsOn z
        ((Stmt.ite span e a b).vars ++ pre.freeNames) now before) ∧
    ∀ span', b = .skip span' → tb.post = pre := by
  generalize hl : (Stmt.ite span e a b).vars ++ pre.freeNames = l at ha hb ⊢
  have hmem : ∀ x, x ∈ (Stmt.ite span e a b).names ++ pre.names ↔ x ∈ l := by
    intro x
    rw [← hl]
    simp [Stmt.vars, Pred.freeNames]
  have hnames : ∀ x ∈ (Stmt.ite span e a b).names ++ pre.names, x ∈ l := fun x => (hmem x).mp
  simp only [Stmt.names, List.forall_mem_append] at hnames
  obtain ⟨⟨⟨he, hna⟩, hnb⟩, hnpre⟩ := hnames
  obtain ⟨p, q, f₁, f₂, n₁, n₂, hda, hdb, hpost⟩ := Config.transform_ite hc hguard ht
  have hnodup := Fresh.nodup_taken_reserve (f := { separator := c.separator })
    (inOrder ((Stmt.ite span e a b).names ++ pre.names)) List.nodup_nil
  have htaken : ∀ x ∈ l, x ∈ (c.start (inOrder ((Stmt.ite span e a b).names ++ pre.names))).taken :=
    fun x hx => Config.mem_start_taken.mpr (mem_inOrder.mpr ((hmem x).mpr hx))
  have hg : ∀ x ∈ guard.names, x ∈ l := Pred.names_ofExpr hguard ▸ he
  have hg' : ∀ x ∈ guard.not.names, x ∈ l := hg
  refine ⟨fun now before => ?_, fun span' hskip => ?_⟩
  · have hyes : p.HoldsOn z l now before ↔ ta.post.HoldsOn z l now before :=
      hda.holdsOn_iff hta hnodup htaken hna hnpre ha now before
    have hno : q.HoldsOn z l now before ↔ tb.post.HoldsOn z l now before :=
      hdb.holdsOn_iff htb (hda.leads.nodup_taken hnodup) (hda.leads.all_taken htaken) hnb hnpre hb now before
    simp only [hpost, Pred.holdsOn_atSpan, Pred.holdsOn_or, Pred.holdsOn_and_left hg,
      Pred.holdsOn_and_left hg', hyes, hno]
  · subst hskip
    exact Config.post_of_skip htb

/-- Adds `n` to `x`. -/
def addTo (x : String) (n : Int64) : Stmt := .set x (BinOp.apply (.arith .add) (.ofName x) (.ofInt64 n))

/-- Moves `x` away from zero. On their own, the branches come up with the same name. -/
def awayFromZero : Stmt :=
  .branch (BinOp.apply (.rel .lt) (.ofName "x") (.ofInt64 0)) (addTo "x" (-1)) (addTo "x" 1)

theorem Config.transform_branches_awayFromZero :
    let z : ByZero := ⟨fun _ => 0, fun _ => 0⟩
    let run (d : Stmt) := ({} : Config).transform d (.ofBool true)
    let guard := RelOp.lt.apply (.now "x") (.ofInt64 0)
    (run awayFromZero).allocated = ["x_0", "x_1"] ∧ (run (addTo "x" (-1))).allocated = ["x_0"] ∧
    (run (addTo "x" 1)).allocated = ["x_0"] ∧ ∃ t ta tb, (run awayFromZero).result = .ok t ∧
      (run (addTo "x" (-1))).result = .ok ta ∧ (run (addTo "x" 1)).result = .ok tb ∧
      ∀ now before, t.post.HoldsOn z ["x"] now before ↔
        ((guard.and ta.post).or (guard.not.and tb.post)).HoldsOn z ["x"] now before := by
  intro z run guard
  refine ⟨by decide, by decide, by decide, _, _, _, rfl, rfl, rfl, ?_⟩
  have hbranches := Config.transform_branches z {} .synthesized
    (BinOp.apply (.rel .lt) (.ofName "x") (.ofInt64 0)) (addTo "x" (-1)) (addTo "x" 1) (.ofBool true) guard
    rfl rfl rfl rfl rfl (by decide) (by decide)
  exact hbranches.1

end StrongestPost
