import StrongestPost.Proofs.Hygiene

/-!
# Soundness of the obligations

A procedure whose obligations are all valid keeps its contract. Executions are
followed along a derivation: what is known before a statement holds of the state it
starts from, for some values of the fresh names, and then so does what is known
after it (`Stmt.Derives.follows`). The names of the program are taken from the
start, so a fresh name can be given the value that its variable had.
-/

namespace StrongestPost

/-! ## Assigned and forgotten values -/

section
variable {z : ByZero} {l : List String} {s s' b : State}

theorem Pred.HoldsOn.assigned {p : Pred} {x y : String} {e : Expr} {t : Term} {w : Int}
    (h : p.HoldsOn z l s b) (hx : x ∈ l) (hy : y ∉ l) (hp : y ∉ p.names) (ht : Term.ofExpr e = .ok t)
    (he : ∀ u ∈ e.names, u ∈ l) (hw : e.value? z s = some (.int w)) :
    (p.assigned x y t).HoldsOn z l (s.set x w) b := by
  obtain ⟨v, b', hv, hb, h⟩ := h
  have hxy : y ≠ x := fun e => hy (e ▸ hx)
  have hyt : y ∉ t.keys.map Key.name := fun hm => hy (he y (Term.names_ofExpr ht ▸ hm))
  have hkeep := hb.keep x hy (b x)
  rw [b.set_eq_self x] at hkeep
  refine ⟨v.keep x y w, b'.keep x y (b x), hv.keep x hy w, hkeep, ?_, ?_⟩
  · exact (Pred.holds_rename_keep hxy hp).mpr h
  · have hval : e.value? z v = some (.int w) := by
      rw [← hw]
      exact Expr.value?_congr (hv.symm.mono he)
    rw [Term.ofExpr_value ht b'] at hval
    show v.keep x y w x = (t.rename x y).value z (v.keep x y w) (b'.keep x y (b x))
    rw [State.keep_self, Term.value_rename_keep hxy hyt]
    cases hval
    rfl

theorem Havocs.follows {xs : List String} {p q : Pred} {f f' : Fresh} {notes : List Note}
    (h : Havocs xs p f notes q f') (hl : ∀ x ∈ l, x ∈ f.taken) (hxs : ∀ x ∈ xs, x ∈ l)
    (hp : p.HoldsOn z l s b) (hs : ∀ x, x ∉ xs → s' x = s x) : q.HoldsOn z l s' b := by
  induction h generalizing s with
  | nil => exact hp.congr fun x _ => hs x List.not_mem_nil
  | @cons x y xs p q f f₁ f₂ notes hy _ ih =>
    obtain ⟨hx, hxs⟩ := List.forall_mem_cons.mp hxs
    obtain ⟨_, havoid, hnew, htaken, _⟩ := Fresh.allocate_spec hy
    refine ih (fun u hu => ?_) hxs (hp.rename hx (fun hm => hnew (hl y hm)) havoid (s' x)) ?_
    · rw [htaken]; exact List.mem_cons_of_mem _ (hl u hu)
    · intro u hu
      by_cases hux : u = x
      · subst hux; simp
      · rw [State.set_of_ne _ _ hux]
        exact hs u (by simp [hux, hu])

/-- What every round preserves holds at the end, where the guard is false; what no
round writes is as it was at the start. -/
theorem Stmt.Exec.loop_follows {span : Span} {e : Expr} {i : Option Pred} {a : Stmt} {inv guard : Pred}
    {r : Ending} {F : Prop} (h : (Stmt.loop span e i a).Exec z s r) (hg : Pred.ofExpr e = .ok guard)
    (ha : a.HasRules) (hs : inv.Holds z s b)
    (round : ∀ m r, (inv.and guard).Holds z m b → a.Exec z m r → r.Meets (fun m' => inv.Holds z m' b) F) :
    r.Meets (fun s' => inv.Holds z s' b ∧ guard.not.Holds z s' b ∧ ∀ x, x ∉ a.targets → s' x = s x) F := by
  have hend := h.loop_rule (I := fun m => inv.Holds z m b ∧ ∀ x, x ∉ a.targets → m x = s x)
    (F := F) ⟨hs, fun _ _ => rfl⟩ fun m r hm hval he => by
      have hround := round m r ⟨hm.1, (Pred.ofExpr_value_true hg b).mp hval⟩ he
      cases r with
      | failed => exact hround
      | done m' => exact ⟨hround, fun x hx => (he.frame ha hx).trans (hm.2 x hx)⟩
  refine hend.imp (fun s' h => ?_) fun h => h
  obtain ⟨⟨hinv, hkeep⟩, hval⟩ := h
  exact ⟨hinv, (Pred.ofExpr_value_false hg b).mp hval, hkeep⟩

end

/-! ## One derivation -/

/-- The obligations raised by loops are valid. -/
def LoopsVerified (z : ByZero) (notes : List Note) : Prop :=
  ∀ o, .raised o ∈ notes → o.concern ≠ .assertion → o.pred.Valid z

def Refuted (z : ByZero) (notes : List Note) : Prop := ∃ o, .raised o ∈ notes ∧ ¬ o.pred.Valid z

section
variable {z : ByZero} {notes n₁ : List Note}

theorem LoopsVerified.mono (h : LoopsVerified z notes) (hn : ∀ n ∈ n₁, n ∈ notes) :
    LoopsVerified z n₁ :=
  fun o ho => h o (hn _ ho)

theorem Refuted.mono (h : Refuted z n₁) (hn : ∀ n ∈ n₁, n ∈ notes) : Refuted z notes := by
  obtain ⟨o, ho, hv⟩ := h
  exact ⟨o, hn _ ho, hv⟩

end

section
variable {z : ByZero} {c : Config} {l : List String} {b : State}

/-- An execution from a state that satisfies the precondition ends in one that
satisfies the postcondition, or it fails and some obligation is not valid. -/
theorem Stmt.Derives.follows {a : Stmt} {level : Nat} {goesOn : Bool} {pre post : Pred} {f f' : Fresh}
    {notes : List Note} {s : State} {r : Ending} (h : a.Derives c level goesOn pre f notes post f')
    (hguard : c.conditional = .outside → a.KeepsGuards) (ha : a.HasRules)
    (hv : LoopsVerified z notes) (hl : ∀ x ∈ l, x ∈ f.taken) (hn : ∀ x ∈ a.names, x ∈ l)
    (hs : pre.HoldsOn z l s b) (he : a.Exec z s r) :
    r.Meets (fun s' => post.HoldsOn z l s' b) (Refuted z notes) := by
  induction h generalizing s r with
  | seq hda _ iha ihb =>
    simp only [Stmt.names, List.forall_mem_append] at hn
    have hfirst {r : Ending} := iha (r := r) (fun h => (hguard h).1) ha.1
      (hv.mono fun n hm => by simp [hm]) hl hn.1 hs
    cases he with
    | seq hea heb =>
      have hmid := hfirst hea
      have hlb := fun x hx => hda.leads.mem_taken (hl x hx)
      have hend := ihb (fun h => (hguard h).2) ha.2 (hv.mono fun n hm => by simp [hm]) hlb hn.2 hmid heb
      exact hend.imp (fun _ h => h) fun h => h.mono fun n hm => by simp [hm]
    | seqFailed hea => exact (hfirst hea).mono fun n hm => by simp [hm]
  | skip => cases he; exact hs
  | block _ _ ih =>
    cases he with
    | block he =>
      have hend := ih hguard ha (hv.mono fun n hm => List.mem_cons_of_mem _ hm) hl hn hs he
      exact hend.imp (fun _ h => h) fun h => h.mono fun n hm => List.mem_cons_of_mem _ hm
  | assign _ hy ht | localInit _ hy ht =>
    obtain ⟨hx, hne⟩ := List.forall_mem_cons.mp hn
    obtain ⟨_, havoid, hnew, _, _⟩ := Fresh.allocate_spec hy
    cases he
    rename_i w hw
    exact hs.assigned hx (fun hm => hnew (hl _ hm)) havoid ht hne hw
  | localAny _ hy =>
    have hx := hn _ (List.mem_singleton_self _)
    obtain ⟨_, havoid, hnew, _, _⟩ := Fresh.allocate_spec hy
    cases he with
    | localAny w => exact hs.rename hx (fun hm => hnew (hl _ hm)) havoid w
  | @iteOutside span e a a' guard level goesOn pre p q f f₁ f₂ n₁ n₂ _ hc hg hda _ iha ihb =>
    simp only [Stmt.names, List.forall_mem_append] at hn
    -- neither branch writes a variable of the guard, so it is at the end what it was at the start
    obtain ⟨hkeep, hka, hkb⟩ := hguard hc
    have hgl : ∀ x ∈ guard.names, x ∈ l := by rw [Pred.names_ofExpr hg]; exact hn.1.1
    cases he with
    | iteTrue hval he =>
      have hend := iha (fun _ => hka) ha.1 (hv.mono fun n hm => by simp [hm]) hl hn.1.2 hs he
      cases r with
      | failed => exact hend.mono fun n hm => by simp [hm]
      | done s' =>
        have hiff := he.guard_holds_iff ha.1 (fun x hx => (hkeep x hx).1) hg b b
        have hafter := hiff.mpr ((Pred.ofExpr_value_true hg b).mp hval)
        have hthen : (guard.and p).HoldsOn z l s' b := Pred.HoldsOn.and_left hend hafter hgl
        exact hthen.atSpan.or_left.atSpan
    | iteFalse hval he =>
      have hlb := fun x hx => hda.leads.mem_taken (hl x hx)
      have hend := ihb (fun _ => hkb) ha.2 (hv.mono fun n hm => by simp [hm]) hlb hn.2 hs he
      cases r with
      | failed => exact hend.mono fun n hm => by simp [hm]
      | done s' =>
        have hiff := he.guard_holds_iff ha.2 (fun x hx => (hkeep x hx).2) hg b b
        have hafter : guard.not.Holds z s' b := mt hiff.mp ((Pred.ofExpr_value_false hg b).mp hval)
        have helse : (guard.not.and q).HoldsOn z l s' b := Pred.HoldsOn.and_left hend hafter hgl
        exact helse.atSpan.or_right.atSpan
  | @iteOnEntry span e a a' guard level goesOn pre p q f f₁ f₂ n₁ n₂ _ hc hg hda _ iha ihb =>
    simp only [Stmt.names, List.forall_mem_append] at hn
    have hnot : ¬ c.conditional = .outside := by simp [hc]
    have hgl : ∀ x ∈ guard.names, x ∈ l := by rw [Pred.names_ofExpr hg]; exact hn.1.1
    cases he with
    | iteTrue hval he =>
      have hentry := hs.and_left ((Pred.ofExpr_value_true hg b).mp hval) hgl
      have hend := iha (fun h => absurd h hnot) ha.1 (hv.mono fun n hm => by simp [hm]) hl hn.1.2
        hentry.atSpan he
      exact hend.imp (fun _ h => h.or_left.atSpan) fun h => h.mono fun n hm => by simp [hm]
    | iteFalse hval he =>
      have hlb := fun x hx => hda.leads.mem_taken (hl x hx)
      have hentry := hs.and_left (q := guard.not) ((Pred.ofExpr_value_false hg b).mp hval) hgl
      have hend := ihb (fun h => absurd h hnot) ha.2 (hv.mono fun n hm => by simp [hm]) hlb hn.2
        hentry.atSpan he
      exact hend.imp (fun _ h => h.or_right.atSpan) fun h => h.mono fun n hm => by simp [hm]
  | assume _ hg =>
    cases he with
    | assume hval =>
      exact hs.and_right ((Pred.ofExpr_value_true hg b).mp hval) (Pred.names_ofExpr hg ▸ hn)
  | @assert span e guard level goesOn pre f _ hg =>
    cases he with
    | assert hval =>
      exact hs.and_right ((Pred.ofExpr_value_true hg b).mp hval) (Pred.names_ofExpr hg ▸ hn)
    | assertFailed hval =>
      refine ⟨_, .tail _ (.tail _ (.head _)), fun hvalid => ?_⟩
      have hholds := (hs.mp hvalid).holds (Pred.names_ofExpr hg ▸ hn)
      exact (Pred.ofExpr_value_false hg b).mp hval hholds
  | @loop span e a inv guard level goesOn pre post frame f f₁ f₂ n₁ n₂ _ hg hda hf ih =>
    simp only [Stmt.names, List.forall_mem_append] at hn
    obtain ⟨⟨hel, hil⟩, hal⟩ := hn
    have hgl : ∀ x ∈ guard.names, x ∈ l := by rw [Pred.names_ofExpr hg]; exact hel
    have hentry : (pre.implies inv).Valid z := hv _ (.tail _ (.tail _ (.head _))) (by simp)
    have hkept : (post.implies inv).Valid z := hv ⟨post.implies inv, span, .invariantKept⟩ (by simp) (by simp)
    have hend := he.loop_follows hg ha.2 ((hs.mp hentry).holds hil) fun m r hm hea => by
      have hround := ih hguard ha.2 (hv.mono fun n hm => by simp [hm]) hl hal hm.holdsOn hea
      exact hround.imp (fun m' h => (h.mp hkept).holds hil) fun h => h
    refine hend.imp (fun s' h => ?_) fun h => h.mono fun n hm => by simp [hm]
    obtain ⟨hinv, hleft, hkeep⟩ := h
    have hxs : ∀ x ∈ a.assignedVars, x ∈ l := fun x hx =>
      hal x (Stmt.targets_subset_names (mem_inOrder.mp hx))
    have hframe := hf.follows (fun x hx => hda.leads.mem_taken (hl x hx)) hxs hs
      fun x hx => hkeep x (mt mem_inOrder.mpr hx)
    exact ((hframe.and_right hinv hil).and_right hleft hgl).atSpan
  | passedLoop => cases ha.1
  | passedCall => exact ha.elim

end

/-! ## Procedures -/

theorem Stmt.Derives.hasRules {c : Config} {a : Stmt} {level : Nat} {goesOn : Bool} {pre post : Pred}
    {f f' : Fresh} {notes : List Note} (h : a.Derives c level goesOn pre f notes post f')
    (hp : ∀ site, .passed site ∉ notes) : a.HasRules := by
  induction h with
  | seq _ _ iha ihb =>
    exact ⟨iha fun site hm => hp site (by simp [hm]), ihb fun site hm => hp site (by simp [hm])⟩
  | iteOutside _ _ _ _ _ iha ihb | iteOnEntry _ _ _ _ _ iha ihb =>
    exact ⟨iha fun site hm => hp site (by simp [hm]), ihb fun site hm => hp site (by simp [hm])⟩
  | block _ _ ih => exact ih fun site hm => hp site (by simp [hm])
  | loop _ _ _ _ ih => exact ⟨rfl, ih fun site hm => hp site (by simp [hm])⟩
  | passedLoop | passedCall => exact absurd (.tail _ (.head _)) (hp _)
  | skip | assign | localInit | localAny | assume | assert => trivial

theorem Report.valid_predicate {z : ByZero} {r : Report} :
    r.predicate.Valid z ↔ (∀ o ∈ r.side, o.pred.Valid z) ∧ r.main.pred.Valid z := by
  simp only [Pred.Valid, predicate, obligations, Pred.holds_conj, List.mem_map, List.mem_append,
    List.mem_singleton]
  grind

/-- **Soundness.** Let the report of a procedure be without a passed statement, and its
predicate valid. Then from a state that satisfies the precondition, whatever the
values at entry, the body fails no assert and ends only in states that satisfy the
postcondition. -/
theorem Config.generateProcedure_sound (z : ByZero) (c : Config) (p : Procedure) {r : Report}
    (hr : (c.generateProcedure p).result = .ok r) (hsound : r.isSound = true)
    (hguard : c.conditional = .outside → p.body.KeepsGuards)
    (hvalid : r.predicate.Valid z) (s₀ b : State) (hpre : p.pre.Holds z s₀ b) :
    ¬ p.body.Exec z s₀ .failed ∧ ∀ s₁, p.body.Exec z s₀ (.done s₁) → p.post.Holds z s₁ b := by
  obtain ⟨t, hrun, hmain, hside, hsites⟩ := Config.run_of_generateProcedure hr
  obtain ⟨f', hd, hobl, hpassed⟩ := Config.derives_of_run hrun
  obtain ⟨hvside, hvmain⟩ := Report.valid_predicate.mp hvalid
  rw [hmain] at hvmain
  have hraised : ∀ o, .raised o ∈ (c.run p.body p.pre p.vars).notes → o.pred.Valid z := by
    intro o ho
    apply hvside
    rw [hside, hobl]
    exact mem_obligations.mpr ho
  have hrules : p.body.HasRules := by
    apply hd.hasRules
    intro site hm
    have hmem : site ∈ r.unsound := by
      rw [hsites, hpassed]
      exact List.mem_filterMap.mpr ⟨_, hm, rfl⟩
    rw [Report.isSound, List.isEmpty_iff] at hsound
    rw [hsound] at hmem
    cases hmem
  have hvars : ∀ x, x ∈ p.body.names ++ p.pre.names ++ p.post.names → x ∈ p.vars := fun x hx =>
    mem_inOrder.mpr hx
  have hend {r : Ending} (he : p.body.Exec z s₀ r) :=
    hd.follows hguard hrules (fun o ho _ => hraised o ho) (fun x hx => Config.mem_start_taken.mpr hx)
      (fun x hx => hvars x (by simp [hx])) (hpre.holdsOn (l := p.vars)) he
  refine ⟨fun he => ?_, fun s₁ he => ?_⟩
  · obtain ⟨o, ho, hnot⟩ := hend he
    exact hnot (hraised o ho)
  · exact (Pred.HoldsOn.mp (hend he) hvmain).holds fun x hx => hvars x (by simp [hx])

def countUpTo : Procedure :=
  .ofContract "count_up" (RelOp.ge.apply (.now "i_0") (.ofInt64 0)) countUp
    (RelOp.eq.apply (.now "i") (.now "i_0"))

def countUpToReport : Report :=
  let i := Term.now "i"
  let bound := Term.now "i_0"
  let inv := RelOp.le.apply i bound
  let pre := RelOp.ge.apply bound (.ofInt64 0)
  let body := RelOp.le.apply (.now "i_2") bound |>.and (RelOp.lt.apply (.now "i_2") bound)
    |>.and (RelOp.eq.apply i (ArithOp.add.apply (.now "i_2") (.ofInt64 1)))
  let post := pre.and (RelOp.eq.apply (.now "i_3") (.ofInt64 0)) |>.and inv
    |>.and (RelOp.lt.apply i bound).not
  { procedure := "count_up"
    main := ⟨post.implies (RelOp.eq.apply i bound), .synthesized, .postcondition⟩
    side := [
      ⟨(pre.and (RelOp.eq.apply i (.ofInt64 0))).implies inv, .synthesized, .invariantOnEntry⟩,
      ⟨body.implies inv, .synthesized, .invariantKept⟩]
    unsound := [] }

theorem countUpToReport_eq :
    (({} : Config).generateProcedure countUpTo).result = .ok countUpToReport := rfl

theorem countUpToReport_valid (z : ByZero) : countUpToReport.predicate.Valid z := by
  rw [Report.valid_predicate]
  constructor
  · intro o ho s b
    simp only [countUpToReport, List.mem_cons, List.not_mem_nil, or_false] at ho
    rcases ho with rfl | rfl
    · show 0 ≤ s "i_0" ∧ s "i" = 0 → s "i" ≤ s "i_0"
      omega
    · show (s "i_2" ≤ s "i_0" ∧ s "i_2" < s "i_0") ∧ s "i" = s "i_2" + 1 → s "i" ≤ s "i_0"
      omega
  · intro s b
    show ((0 ≤ s "i_0" ∧ s "i_3" = 0) ∧ s "i" ≤ s "i_0") ∧ ¬ s "i" < s "i_0" → s "i" = s "i_0"
    omega

theorem Config.generateProcedure_sound_countUp :
    let z : ByZero := ⟨fun _ => 0, fun _ => 0⟩
    countUpToReport.predicate.Valid z ∧ ¬ countUp.Exec z (fun _ => 2) .failed ∧
      ∀ s, countUp.Exec z (fun _ => 2) (.done s) → s "i" = s "i_0" := by
  intro z
  have hpre : (0 : Int64).toInt ≤ 2 := by decide
  have hguard : countUpTo.body.KeepsGuards := ⟨trivial, trivial⟩
  exact ⟨countUpToReport_valid z, Config.generateProcedure_sound z {} countUpTo countUpToReport_eq rfl
    (fun _ => hguard) (countUpToReport_valid z) (fun _ => 2) (fun _ => 2) hpre⟩

end StrongestPost
