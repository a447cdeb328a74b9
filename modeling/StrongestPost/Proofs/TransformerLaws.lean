import StrongestPost.Proofs.GuardRules

/-!
# Laws of the transformer

Where the same names are taken, a statement does the same to every precondition: it goes
through the same fresh names, and the readings that satisfy the postcondition are those
that one relation leads to from readings of the precondition (`Stmt.Derives.image`). The
relation knows nothing of the precondition, so the transformer treats a disjunction part
by part, makes nothing of `false`, and looks at the meaning of the precondition only.

A conjunct that speaks of unwritten names stays as it is, and what the rest leads to does
not depend on it.
-/

namespace StrongestPost

/-! ## Passages -/

/-- A relation between the reading before and the reading after, each a pair of states. -/
def Passage : Type := State → State → State → State → Prop

namespace Passage

def stay : Passage := fun s₀ b₀ s b => s₀ = s ∧ b₀ = b

def comp (R R' : Passage) : Passage := fun s₀ b₀ s b => ∃ s₁ b₁, R s₀ b₀ s₁ b₁ ∧ R' s₁ b₁ s b

def either (R R' : Passage) : Passage := fun s₀ b₀ s b => R s₀ b₀ s b ∨ R' s₀ b₀ s b

def outOf (G : State → State → Prop) (R : Passage) : Passage := fun s₀ b₀ s b => G s₀ b₀ ∧ R s₀ b₀ s b

def into (R : Passage) (G : State → State → Prop) : Passage := fun s₀ b₀ s b => R s₀ b₀ s b ∧ G s b

/-- The value that `x` had is found under `y`. -/
def kept (x y : String) : Passage := fun s₀ b₀ s b => s₀ = s.set x (s y) ∧ b₀ = b.set x (b y)

end Passage

/-- The passage leads from the readings of `p` to those of `q`, and to no others. -/
def Pred.Image (z : ByZero) (R : Passage) (p q : Pred) : Prop :=
  ∀ s b, q.Holds z s b ↔ ∃ s₀ b₀, p.Holds z s₀ b₀ ∧ R s₀ b₀ s b

namespace Pred.Image
variable {z : ByZero} {R R' : Passage} {G : State → State → Prop} {p p' q q' r g : Pred}

theorem stay (p : Pred) : Image z .stay p p := by
  intro s b
  constructor
  · intro h; exact ⟨s, b, h, rfl, rfl⟩
  · intro h
    obtain ⟨_, _, h, rfl, rfl⟩ := h
    exact h

theorem comp (h : Image z R p q) (h' : Image z R' q r) : Image z (R.comp R') p r := by
  intro s b
  rw [h' s b]
  constructor
  · intro hr
    obtain ⟨s₁, b₁, hq, hR'⟩ := hr
    obtain ⟨s₀, b₀, hp, hR⟩ := (h s₁ b₁).mp hq
    exact ⟨s₀, b₀, hp, s₁, b₁, hR, hR'⟩
  · intro hp
    obtain ⟨s₀, b₀, hp, s₁, b₁, hR, hR'⟩ := hp
    exact ⟨s₁, b₁, (h s₁ b₁).mpr ⟨s₀, b₀, hp, hR⟩, hR'⟩

theorem atSpan (h : Image z R p q) (span : Span) : Image z R p (q.atSpan span) := by
  intro s b
  rw [holds_atSpan]
  exact h s b

theorem or (h : Image z R p q) (h' : Image z R' p q') : Image z (R.either R') p (q.or q') := by
  intro s b
  rw [holds_or, h s b, h' s b]
  simp only [Passage.either, and_or_left, exists_or]

theorem and_right (h : Image z R p q) (hg : ∀ s b, g.Holds z s b ↔ G s b) :
    Image z (R.into G) p (q.and g) := by
  intro s b
  rw [holds_and, h s b, hg s b]
  simp only [Passage.into, ← and_assoc, exists_and_right]

theorem and_left (h : Image z R p q) (hg : ∀ s b, g.Holds z s b ↔ G s b) :
    Image z (R.into G) p (g.and q) := by
  intro s b
  rw [holds_and, and_comm, ← holds_and]
  exact h.and_right hg s b

theorem of_guarded {span : Span} (h : Image z R ((g.and p).atSpan span) q) :
    Image z (.outOf (g.Holds z · ·) R) p q := by
  intro s b
  rw [h s b]
  simp only [Passage.outOf, holds_atSpan, holds_and, and_assoc, and_left_comm]

theorem rename (p : Pred) (x y : String) : Image z (.kept x y) p (p.rename x y) := by
  intro s b
  rw [holds_rename]
  constructor
  · intro h; exact ⟨_, _, h, rfl, rfl⟩
  · intro h
    obtain ⟨_, _, h, rfl, rfl⟩ := h
    exact h

theorem assigned (p : Pred) (x y : String) (t : Term) :
    Image z (.into (.kept x y) fun s b => s x = (t.rename x y).value z s b) p (p.assigned x y t) :=
  (rename p x y).and_right fun _ _ => Iff.rfl

/-! ## What images preserve -/

theorem not_holds (h : Image z R (.ofBool false) q) (s b : State) : ¬ q.Holds z s b := by
  intro hq
  obtain ⟨_, _, hfalse, _⟩ := (h s b).mp hq
  exact absurd hfalse Bool.false_ne_true

theorem holds_or_iff {pq : Pred} (h : Image z R p q) (h' : Image z R p' q') (hor : Image z R (p.or p') pq)
    (s b : State) : pq.Holds z s b ↔ q.Holds z s b ∨ q'.Holds z s b := by
  rw [hor s b, h s b, h' s b]
  simp only [holds_or, or_and_right, exists_or]

theorem mono (h : Image z R p q) (h' : Image z R p' q') (hp : (p.implies p').Valid z) :
    (q.implies q').Valid z := by
  intro s b hq
  obtain ⟨s₀, b₀, hp₀, hR⟩ := (h s b).mp hq
  exact (h' s b).mpr ⟨s₀, b₀, hp s₀ b₀ hp₀, hR⟩

end Pred.Image

/-! ## One relation for all preconditions -/

theorem Fresh.Leads.names_eq {f f' : Fresh} {n n' : List Note} (h : f.Leads n f') (h' : f.Leads n' f') :
    n.filterMap Note.name? = n'.filterMap Note.name? := by
  have htaken := h.taken_eq.symm.trans h'.taken_eq
  exact List.reverse_injective (List.append_cancel_right htaken)

section
variable {z : ByZero} {c : Config} {p post : Pred} {f f' : Fresh} {notes : List Note}

theorem Havocs.image {xs : List String} (h : Havocs xs p f notes post f') (hp : ∀ x ∈ p.names, x ∈ f.taken) :
    ∃ R, ∀ q : Pred, (∀ x ∈ q.names, x ∈ f.taken) →
      ∃ notes' post', Havocs xs q f notes' post' f' ∧ Pred.Image z R q post' := by
  induction h with
  | nil => exact ⟨.stay, fun q _ => ⟨[], q, .nil, .stay q⟩⟩
  | @cons x y _ _ _ _ _ _ _ hy _ ih =>
    obtain ⟨R, hR⟩ := ih (Pred.names_rename_taken hy hp)
    refine ⟨.comp (.kept x y) R, fun q hq => ?_⟩
    obtain ⟨notes', post', hh, himage⟩ := hR (q.rename x y) (Pred.names_rename_taken hy hq)
    exact ⟨_, post', .cons (Fresh.allocate_congr hp hq x ▸ hy) hh, (Pred.Image.rename q x y).comp himage⟩

/-- Given one derivation, there is one from every precondition whose names are taken; the
allocator ends up the same, and the postcondition is the image under one relation. -/
theorem Stmt.Derives.image {a : Stmt} {level : Nat} {goesOn : Bool}
    (h : a.Derives c level goesOn p f notes post f') (ha : ∀ x ∈ a.names, x ∈ f.taken)
    (hp : ∀ x ∈ p.names, x ∈ f.taken) :
    ∃ R, ∀ q : Pred, (∀ x ∈ q.names, x ∈ f.taken) →
      ∃ notes' post', a.Derives c level goesOn q f notes' post' f' ∧ Pred.Image z R q post' := by
  induction h with
  | seq hda _ iha ihb =>
    simp only [Stmt.names, List.forall_mem_append] at ha
    obtain ⟨R, hR⟩ := iha ha.1 hp
    obtain ⟨R', hR'⟩ := ihb (hda.leads.all_taken ha.2) (hda.names_taken ha.1 hp)
    refine ⟨R.comp R', fun q hq => ?_⟩
    obtain ⟨n₁, mid, hda', hmid⟩ := hR q hq
    obtain ⟨n₂, post', hdb', hpost⟩ := hR' mid (hda'.names_taken ha.1 hq)
    exact ⟨_, post', .seq hda' hdb', hmid.comp hpost⟩
  | skip hl => exact ⟨.stay, fun q _ => ⟨_, q, .skip hl, .stay q⟩⟩
  | block hl _ ih =>
    obtain ⟨R, hR⟩ := ih ha hp
    refine ⟨R, fun q hq => ?_⟩
    obtain ⟨n', post', hd', hpost⟩ := hR q hq
    exact ⟨_, post', .block hl hd', hpost⟩
  | assign hl hy ht =>
    exact ⟨_, fun q hq => ⟨_, _, .assign hl (Fresh.allocate_congr hp hq _ ▸ hy) ht, .assigned q _ _ _⟩⟩
  | localInit hl hy ht =>
    exact ⟨_, fun q hq => ⟨_, _, .localInit hl (Fresh.allocate_congr hp hq _ ▸ hy) ht, .assigned q _ _ _⟩⟩
  | localAny hl hy =>
    exact ⟨_, fun q hq => ⟨_, _, .localAny hl (Fresh.allocate_congr hp hq _ ▸ hy), .rename q _ _⟩⟩
  | @iteOutside _ _ _ _ guard _ _ _ _ _ _ _ _ _ _ hl hc hg hda _ iha ihb =>
    simp only [Stmt.names, List.forall_mem_append] at ha
    have hlead := hda.leads
    obtain ⟨R, hR⟩ := iha ha.1.2 hp
    obtain ⟨R', hR'⟩ := ihb (hlead.all_taken ha.2) (hlead.all_taken hp)
    refine ⟨.either (R.into (guard.Holds z · ·)) (R'.into (guard.not.Holds z · ·)), fun q hq => ?_⟩
    obtain ⟨n₁, pa, hda', hpa⟩ := hR q hq
    obtain ⟨n₂, pb, hdb', hpb⟩ := hR' q (hlead.all_taken hq)
    have hyes := hpa.and_left (g := guard) fun _ _ => Iff.rfl
    have hno := hpb.and_left (g := guard.not) fun _ _ => Iff.rfl
    exact ⟨_, _, .iteOutside hl hc hg hda' hdb',
      ((hyes.atSpan q.span).or (hno.atSpan q.span)).atSpan q.span⟩
  | @iteOnEntry _ _ _ _ guard _ _ _ _ _ f _ _ _ _ hl hc hg hda _ iha ihb =>
    simp only [Stmt.names, List.forall_mem_append] at ha
    have hguard : ∀ x ∈ guard.names, x ∈ f.taken := Pred.names_ofExpr hg ▸ ha.1.1
    have hlead := hda.leads
    obtain ⟨R, hR⟩ := iha ha.1.2 (Pred.names_guarded hguard hp)
    obtain ⟨R', hR'⟩ := ihb (hlead.all_taken ha.2)
      (hlead.all_taken (Pred.names_guarded (g := guard.not) hguard hp))
    refine ⟨.either (.outOf (guard.Holds z · ·) R) (.outOf (guard.not.Holds z · ·) R'), fun q hq => ?_⟩
    obtain ⟨n₁, pa, hda', hpa⟩ := hR _ (Pred.names_guarded hguard hq)
    obtain ⟨n₂, pb, hdb', hpb⟩ := hR' _ (hlead.all_taken (Pred.names_guarded (g := guard.not) hguard hq))
    exact ⟨_, _, .iteOnEntry hl hc hg hda' hdb', (hpa.of_guarded.or hpb.of_guarded).atSpan q.span⟩
  | assume hl hg =>
    exact ⟨_, fun q _ => ⟨_, _, .assume hl hg, (Pred.Image.stay q).and_right fun _ _ => Iff.rfl⟩⟩
  | assert hl hg =>
    exact ⟨_, fun q _ => ⟨_, _, .assert hl hg, (Pred.Image.stay q).and_right fun _ _ => Iff.rfl⟩⟩
  | @loop _ _ _ inv guard _ _ _ _ _ _ _ _ _ _ hl hg hda hf _ =>
    -- the body starts from the invariant, whatever is known before the loop
    have hlead := hda.leads
    obtain ⟨R, hR⟩ := hf.image (z := z) (hlead.all_taken hp)
    refine ⟨(R.into (inv.Holds z · ·)).into (guard.not.Holds z · ·), fun q hq => ?_⟩
    obtain ⟨n₂, frame, hf', hframe⟩ := hR q (hlead.all_taken hq)
    have hexit := (hframe.and_right (g := inv) fun _ _ => Iff.rfl).and_right (g := guard.not)
      fun _ _ => Iff.rfl
    exact ⟨_, _, .loop hl hg hda hf', hexit.atSpan q.span⟩
  | passedLoop hl hc => exact ⟨.stay, fun q _ => ⟨_, q, .passedLoop hl hc, .stay q⟩⟩
  | passedCall hl hc => exact ⟨.stay, fun q _ => ⟨_, q, .passedCall hl hc, .stay q⟩⟩

end

/-! ## Runs -/

theorem Config.run_image (z : ByZero) {c : Config} {a : Stmt} {reserved : List String}
    (hok : a.firstFailure c.unsupported c.maxDepth = none) (ha : ∀ x ∈ a.names, x ∈ reserved) :
    ∃ R names, ∀ p : Pred, (∀ x ∈ p.names, x ∈ reserved) → ∃ t, (c.run a p reserved).result = .ok t ∧
      (c.run a p reserved).allocated = names ∧ Pred.Image z R p t.post := by
  have hstart {l : List String} (hl : ∀ x ∈ l, x ∈ reserved) : ∀ x ∈ l, x ∈ (c.start reserved).taken :=
    fun x hx => Config.mem_start_taken.mpr (hl x hx)
  obtain ⟨t, ht⟩ := Outcome.error?_eq_none.mp ((c.run_error? a (.ofBool true) reserved).trans hok)
  obtain ⟨f', hd, -, -⟩ := Config.derives_of_run ht
  obtain ⟨R, hR⟩ := hd.image (z := z) (hstart ha) (by simp [Pred.ofBool, Pred.names])
  refine ⟨R, (c.run a (.ofBool true) reserved).allocated, fun p hp => ?_⟩
  obtain ⟨notes, post, hd', himage⟩ := hR p (hstart hp)
  rw [Config.run_of_derives hd']
  exact ⟨_, rfl, hd'.leads.names_eq hd.leads, himage⟩

/-- **Disjunction.** On a statement that the transformer accepts, runs that reserve the same
names accept every precondition over these and hand out the same names. From a disjunction
comes what comes from one of its parts, and from `false` comes nothing. So a weaker
precondition has a weaker postcondition, and only its meaning matters. -/
theorem Config.run_disjunctive (z : ByZero) (c : Config) (a : Stmt) (p q : Pred) (reserved : List String)
    (hok : ∃ pre t, (c.transform a pre).result = .ok t) (ha : ∀ x ∈ a.vars, x ∈ reserved)
    (hp : ∀ x ∈ p.freeNames, x ∈ reserved) (hq : ∀ x ∈ q.freeNames, x ∈ reserved) :
    ∃ names t u v w, (c.run a p reserved).result = .ok t ∧ (c.run a q reserved).result = .ok u ∧
      (c.run a (p.or q) reserved).result = .ok v ∧ (c.run a (.ofBool false) reserved).result = .ok w ∧
      (∀ r ∈ [p, q, p.or q, .ofBool false], (c.run a r reserved).allocated = names) ∧
      (∀ s b, v.post.Holds z s b ↔ t.post.Holds z s b ∨ u.post.Holds z s b) ∧
      (∀ s b, ¬ w.post.Holds z s b) ∧
      ((p.implies q).Valid z → (t.post.implies u.post).Valid z) ∧
      ((∀ s b, p.Holds z s b ↔ q.Holds z s b) → ∀ s b, t.post.Holds z s b ↔ u.post.Holds z s b) := by
  simp only [Stmt.vars, Pred.freeNames, mem_inOrder] at ha hp hq
  obtain ⟨pre, t₀, ht₀⟩ := hok
  have haccepts : a.firstFailure c.unsupported c.maxDepth = none := by
    rw [← c.run_error? a pre (inOrder (a.names ++ pre.names))]
    exact Outcome.error?_eq_none.mpr ⟨t₀, ht₀⟩
  have hor : ∀ x ∈ (p.or q).names, x ∈ reserved := by
    rw [Pred.or, Pred.names_join, List.forall_mem_append]
    exact ⟨hp, hq⟩
  obtain ⟨R, names, hrun⟩ := Config.run_image z haccepts ha
  obtain ⟨t, ht, htn, htR⟩ := hrun p hp
  obtain ⟨u, hu, hun, huR⟩ := hrun q hq
  obtain ⟨v, hv, hvn, hvR⟩ := hrun (p.or q) hor
  obtain ⟨w, hw, hwn, hwR⟩ := hrun (.ofBool false) (by simp [Pred.ofBool, Pred.names])
  refine ⟨names, t, u, v, w, ht, hu, hv, hw, ?_, htR.holds_or_iff huR hvR, hwR.not_holds, htR.mono huR, ?_⟩
  · simp only [List.forall_mem_cons, List.not_mem_nil, false_imp_iff, implies_true, and_true]
    exact ⟨htn, hun, hvn, hwn⟩
  · intro hpq s b
    exact ⟨htR.mono huR (fun s b => (hpq s b).mp) s b, huR.mono htR (fun s b => (hpq s b).mpr) s b⟩

theorem Config.run_disjunctive_countUp :
    let z : ByZero := ⟨fun _ => 0, fun _ => 0⟩
    let p := RelOp.eq.apply (.now "i_0") (.ofInt64 1)
    let q := RelOp.ge.apply (.now "i_0") (.now "n")
    let run (r : Pred) := ({} : Config).run countUp r ["i", "i_0", "n"]
    ∃ t u v, (run p).result = .ok t ∧ (run q).result = .ok u ∧ (run (p.or q)).result = .ok v ∧
      (run p).allocated = ["i_1", "i_2", "i_3"] ∧ (run q).allocated = (run p).allocated ∧
      ∀ s b, v.post.Holds z s b ↔ t.post.Holds z s b ∨ u.post.Holds z s b := by
  intro z p q run
  have hnames : (run p).allocated = ["i_1", "i_2", "i_3"] := by decide
  obtain ⟨names, t, u, v, -, ht, hu, hv, -, hsame, hpost, -⟩ :=
    Config.run_disjunctive z {} countUp p q ["i", "i_0", "n"] ⟨.ofBool true, _, rfl⟩ (by decide) (by decide)
      (by decide)
  exact ⟨t, u, v, ht, hu, hv, hnames, (hsame q (by simp)).trans (hsame p (by simp)).symm, hpost⟩

/-! ## The frame rule -/

/-- **Frame rule.** A conjunct that speaks of no variable that the statement writes can be
added before or after: the runs fail alike or succeed alike, with the same names. -/
theorem Config.run_frame (z : ByZero) (c : Config) (a : Stmt) (p r : Pred) (reserved : List String)
    (ha : ∀ x ∈ a.vars, x ∈ reserved) (hp : ∀ x ∈ p.freeNames, x ∈ reserved)
    (hr : ∀ x ∈ r.freeNames, x ∈ reserved) (hunwritten : ∀ x ∈ r.freeNames, x ∉ a.assignedVars) :
    (∃ e, (c.run a p reserved).result = .error e ∧ (c.run a (p.and r) reserved).result = .error e) ∨
    ∃ t u, (c.run a p reserved).result = .ok t ∧ (c.run a (p.and r) reserved).result = .ok u ∧
      (c.run a p reserved).allocated = (c.run a (p.and r) reserved).allocated ∧
      ∀ s b, u.post.Holds z s b ↔ t.post.Holds z s b ∧ r.Holds z s b := by
  simp only [Stmt.vars, Stmt.assignedVars, Pred.freeNames, mem_inOrder] at ha hp hr hunwritten
  have herror : (c.run a p reserved).error? = (c.run a (p.and r) reserved).error? := by
    rw [c.run_error?, c.run_error?]
  rcases Outcome.same_error_or_ok herror with hfail | ⟨t, -, ht, -⟩
  · exact .inl hfail
  · have hadds : Pred.Adds z (r.Holds z · ·) p (p.and r) := fun s b => and_comm
    have hpr : ∀ x ∈ (p.and r).names, x ∈ reserved := by
      rw [Pred.names_and, List.forall_mem_append]
      exact ⟨hp, hr⟩
    obtain ⟨u, hu, hnames, hpost, -, -⟩ := Config.run_carry (r := c.conditional) (.inl rfl)
      (Pred.ignores hunwritten) hadds ha hp hpr ht
    refine .inr ⟨t, u, ht, hu, hnames, fun s b => ?_⟩
    rw [hpost s b, and_comm]

theorem Config.run_frame_countUp :
    let z : ByZero := ⟨fun _ => 0, fun _ => 0⟩
    let r := RelOp.eq.apply (.now "i_0") (.old "n")
    let run (p : Pred) := ({} : Config).run countUp p ["i", "i_0", "n"]
    ∃ t u, (run (.ofBool true)).result = .ok t ∧ (run (.and (.ofBool true) r)).result = .ok u ∧
      (run (.and (.ofBool true) r)).allocated = ["i_1", "i_2", "i_3"] ∧
      ∀ s b, u.post.Holds z s b ↔ t.post.Holds z s b ∧ s "i_0" = b "n" := by
  intro z r run
  have hnames : (run (.ofBool true)).allocated = ["i_1", "i_2", "i_3"] := by decide
  rcases Config.run_frame z {} countUp (.ofBool true) r ["i", "i_0", "n"] (by decide) (by decide) (by decide)
    (by decide) with ⟨e, he, -⟩ | ⟨t, u, ht, hu, hsame, hpost⟩
  · cases he
  · exact ⟨t, u, ht, hu, hsame.symm.trans hnames, hpost⟩

end StrongestPost
