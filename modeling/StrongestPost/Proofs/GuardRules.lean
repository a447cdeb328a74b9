import Mathlib.Data.List.Forall2
import StrongestPost.Proofs.FirstFailure
import StrongestPost.Proofs.Hygiene

/-!
# Where the guard stands

A fact about names that a statement does not write can be carried along: a derivation
from `p` becomes one from any `q` that says `p` and the fact, with the same names, and
its postcondition says what it said before and the fact (`Stmt.Derives.carry`). What
was an obligation becomes a weaker one, since more is known.

A guard that the branches do not write is such a fact. Whether it is put beside the
precondition of a branch or beside the postcondition makes no difference then, except
that obligations inside the branch may use it in the first case.
-/

namespace StrongestPost

/-! ## Facts -/

def Ignores (l : List String) (G : State → State → Prop) : Prop :=
  ∀ x ∈ l, ∀ (s b : State) (v w : Int), G (s.set x v) (b.set x w) ↔ G s b

theorem Ignores.mono {l l' : List String} {G : State → State → Prop} (h : Ignores l G)
    (hl : ∀ x ∈ l', x ∈ l) : Ignores l' G :=
  fun x hx => h x (hl x hx)

theorem Ignores.and {l : List String} {G H : State → State → Prop} (hG : Ignores l G) (hH : Ignores l H) :
    Ignores l fun s b => G s b ∧ H s b :=
  fun x hx s b v w => and_congr (hG x hx s b v w) (hH x hx s b v w)

theorem Pred.ignores {z : ByZero} {l : List String} {p : Pred} (h : ∀ x ∈ p.names, x ∉ l) :
    Ignores l (p.Holds z · ·) := by
  intro x hx s b v w
  have hx : x ∉ p.names := fun hm => h x hm hx
  have hs := (State.AgreeOn.refl p.names s).set_right hx v
  have hb := (State.AgreeOn.refl p.names b).set_right hx w
  exact ⟨Pred.holds_of_agree (fun _ hm => hm) hs.symm hb.symm, Pred.holds_of_agree (fun _ hm => hm) hs hb⟩

/-- `q` says what `p` says, and the fact `G`. -/
def Pred.Adds (z : ByZero) (G : State → State → Prop) (p q : Pred) : Prop :=
  ∀ s b, q.Holds z s b ↔ G s b ∧ p.Holds z s b

namespace Pred
variable {z : ByZero} {G : State → State → Prop} {p q : Pred}

theorem Adds.self (p : Pred) : Adds z (fun _ _ => True) p p := fun _ _ => (and_iff_right trivial).symm

theorem Adds.holds (h : Adds z G p q) {s b : State} (hq : q.Holds z s b) : p.Holds z s b :=
  ((h s b).mp hq).2

theorem Adds.atSpan_left (h : Adds z G p q) (span : Span) : Adds z G (p.atSpan span) q := by
  intro s b
  rw [holds_atSpan]
  exact h s b

theorem Adds.atSpan_right (h : Adds z G p q) (span : Span) : Adds z G p (q.atSpan span) := by
  intro s b
  rw [holds_atSpan]
  exact h s b

theorem Adds.atSpan (h : Adds z G p q) (span span' : Span) : Adds z G (p.atSpan span) (q.atSpan span') :=
  (h.atSpan_left span).atSpan_right span'

theorem Adds.and_right (h : Adds z G p q) (r : Pred) : Adds z G (p.and r) (q.and r) := by
  intro s b
  rw [holds_and, holds_and, h s b, and_assoc]

theorem Adds.and_left (h : Adds z G p q) (r : Pred) : Adds z G (r.and p) (r.and q) := by
  intro s b
  rw [holds_and, holds_and, h s b, and_left_comm]

theorem Adds.or {p' q' : Pred} (h : Adds z G p q) (h' : Adds z G p' q') :
    Adds z G (p.or p') (q.or q') := by
  intro s b
  rw [holds_or, holds_or, h s b, h' s b, and_or_left]

theorem Adds.guard (h : Adds z G p q) (r : Pred) :
    Adds z (fun s b => r.Holds z s b ∧ G s b) p (r.and q) := by
  intro s b
  rw [holds_and, h s b, and_assoc]

theorem Adds.unguard {r : Pred} (h : Adds z (fun s b => r.Holds z s b ∧ G s b) p q) :
    Adds z G (r.and p) q := by
  intro s b
  rw [holds_and, h s b, and_assoc, and_left_comm]

theorem Adds.rename {x : String} (h : Adds z G p q) (hG : Ignores [x] G) (y : String) :
    Adds z G (p.rename x y) (q.rename x y) := by
  intro s b
  rw [holds_rename, holds_rename, h, hG x (List.mem_singleton_self x)]

theorem Adds.assigned {x : String} (h : Adds z G p q) (hG : Ignores [x] G) (y : String) (t : Term) :
    Adds z G (p.assigned x y t) (q.assigned x y t) := by
  intro s b
  have hrename := h.rename hG y s b
  have heq : ∀ span span', (rel span ((Term.now x).atSpan span) .eq (t.rename x y)).Holds z s b ↔
      (rel span' ((Term.now x).atSpan span') .eq (t.rename x y)).Holds z s b := fun _ _ => Iff.rfl
  unfold Pred.assigned
  rw [holds_and, holds_and, hrename, heq q.span p.span, and_assoc]

end Pred

/-! ## Notes that say less -/

inductive Note.Weakens (z : ByZero) : Note → Note → Prop
  | same (n : Note) : Weakens z n n
  | allocated {x y : String} {p q : Pred} : Weakens z (.allocated x y p) (.allocated x y q)
  | raised {p q : Pred} {span : Span} {concern : Concern} : (∀ s b, p.Holds z s b → q.Holds z s b) →
      Weakens z (.raised ⟨p, span, concern⟩) (.raised ⟨q, span, concern⟩)

section
variable {z : ByZero} {G : State → State → Prop}

theorem Pred.Adds.weakens {p q : Pred} (h : Pred.Adds z G p q) (r : Pred) (span : Span)
    (concern : Concern) :
    Note.Weakens z (.raised ⟨p.implies r, span, concern⟩) (.raised ⟨q.implies r, span, concern⟩) := by
  refine .raised fun s b hpr hq => hpr (h.holds hq)

theorem Note.weakens_refl (notes : List Note) : List.Forall₂ (Note.Weakens z) notes notes :=
  List.forall₂_same.mpr fun n _ => .same n

/-! ## Derivations -/

theorem Pred.mem_names_rename {p : Pred} {x y u : String} (h : u ∈ (p.rename x y).names) :
    u = y ∨ u ∈ p.names := by
  unfold Pred.names at h
  rw [Pred.keys_rename, List.map_map] at h
  obtain ⟨k, hk, rfl⟩ := List.mem_map.mp h
  unfold Function.comp Key.rename
  by_cases hx : k.name = x
  · rw [if_pos hx]; exact .inl rfl
  · rw [if_neg hx]; exact .inr (List.mem_map_of_mem hk)

theorem Pred.names_rename_taken {f f₁ : Fresh} {x y : String} {avoid p : Pred}
    (hy : f.allocate x avoid = (y, f₁)) (hp : ∀ u ∈ p.names, u ∈ f.taken) :
    ∀ u ∈ (p.rename x y).names, u ∈ f₁.taken := by
  intro u hu
  obtain ⟨_, _, _, htaken, _⟩ := Fresh.allocate_spec hy
  rw [htaken]
  rcases Pred.mem_names_rename hu with rfl | hu
  · exact List.mem_cons_self ..
  · exact List.mem_cons_of_mem _ (hp u hu)

theorem Pred.names_guarded {g p : Pred} {span : Span} {l : List String} (hg : ∀ x ∈ g.names, x ∈ l)
    (hp : ∀ x ∈ p.names, x ∈ l) : ∀ x ∈ ((g.and p).atSpan span).names, x ∈ l := by
  rw [Pred.names_atSpan, Pred.names_and, List.forall_mem_append]
  exact ⟨hg, hp⟩

theorem Havocs.carry {xs : List String} {p r q : Pred} {f f' : Fresh} {notes : List Note}
    (h : Havocs xs p f notes r f') (hG : Ignores xs G) (hpq : Pred.Adds z G p q)
    (hp : ∀ x ∈ p.names, x ∈ f.taken) (hq : ∀ x ∈ q.names, x ∈ f.taken) :
    ∃ notes' r', Havocs xs q f notes' r' f' ∧ Pred.Adds z G r r' ∧
      List.Forall₂ (Note.Weakens z) notes notes' := by
  induction h generalizing q with
  | nil => exact ⟨_, _, .nil, hpq, .nil⟩
  | @cons x y xs p r f f₁ f₂ notes hy _ ih =>
    have hy' := Fresh.allocate_congr hp hq x ▸ hy
    obtain ⟨notes', r', hh, hr, hn⟩ := ih (hG.mono fun u hu => List.mem_cons_of_mem _ hu)
      (hpq.rename (hG.mono (by simp)) y) (Pred.names_rename_taken hy hp) (Pred.names_rename_taken hy hq)
    exact ⟨_, r', .cons hy' hh, hr, .cons .allocated hn⟩

end

/-- The rule stays as it is, or guards that no branch writes move to the preconditions. -/
def GuardRule.MovesTo (r r' : GuardRule) (a : Stmt) : Prop :=
  r' = r ∨ (r = .outside ∧ r' = .onEntry ∧ a.KeepsGuards)

theorem GuardRule.MovesTo.imp {r r' : GuardRule} {a b : Stmt} (h : r.MovesTo r' a)
    (hab : a.KeepsGuards → b.KeepsGuards) : r.MovesTo r' b := by
  rcases h with h | ⟨h₁, h₂, h₃⟩
  · exact .inl h
  · exact .inr ⟨h₁, h₂, hab h₃⟩

theorem Stmt.Derives.carry {z : ByZero} {c : Config} {a : Stmt} {level : Nat} {goesOn : Bool}
    {p q post : Pred} {f f' : Fresh} {notes : List Note} {G : State → State → Prop} {r : GuardRule}
    (h : a.Derives c level goesOn p f notes post f') (hr : c.conditional.MovesTo r a)
    (hG : Ignores a.targets G) (hpq : Pred.Adds z G p q) (ha : ∀ x ∈ a.names, x ∈ f.taken)
    (hp : ∀ x ∈ p.names, x ∈ f.taken) (hq : ∀ x ∈ q.names, x ∈ f.taken) :
    ∃ notes' post', a.Derives { c with conditional := r } level goesOn q f notes' post' f' ∧
      Pred.Adds z G post post' ∧ List.Forall₂ (Note.Weakens z) notes notes' := by
  induction h generalizing q G with
  | @seq span a b level goesOn p mid post f f₁ f₂ n₁ n₂ hda _ iha ihb =>
    simp only [Stmt.names, List.forall_mem_append] at ha
    obtain ⟨n₁', mid', hda', hmid, hn₁⟩ := iha (hr.imp (·.1)) (hG.mono fun x hx => List.mem_append_left _ hx)
      hpq ha.1 hp hq
    obtain ⟨n₂', post', hdb', hpost, hn₂⟩ := ihb (hr.imp (·.2))
      (hG.mono fun x hx => List.mem_append_right _ hx) hmid (hda.leads.all_taken ha.2)
      (hda.names_taken ha.1 hp) (hda'.names_taken ha.1 hq)
    exact ⟨_, post', .seq hda' hdb', hpost, List.rel_append (Note.weakens_refl _) (List.rel_append hn₁ hn₂)⟩
  | skip hl => exact ⟨_, q, .skip hl, hpq, Note.weakens_refl _⟩
  | block hl _ ih =>
    obtain ⟨n', post', hd', hpost, hn⟩ := ih (hr.imp id) hG hpq ha hp hq
    exact ⟨_, post', .block hl hd', hpost, .cons (.same _) hn⟩
  | assign hl hy ht =>
    have hy' := Fresh.allocate_congr hp hq _ ▸ hy
    exact ⟨_, _, .assign hl hy' ht, hpq.assigned hG _ _,
      .cons (.same _) (.cons .allocated (Note.weakens_refl _))⟩
  | localInit hl hy ht =>
    have hy' := Fresh.allocate_congr hp hq _ ▸ hy
    exact ⟨_, _, .localInit hl hy' ht, hpq.assigned hG _ _,
      .cons (.same _) (.cons .allocated (Note.weakens_refl _))⟩
  | localAny hl hy =>
    have hy' := Fresh.allocate_congr hp hq _ ▸ hy
    exact ⟨_, _, .localAny hl hy', hpq.rename hG _, .cons (.same _) (.cons .allocated .nil)⟩
  | @iteOutside span e a b guard level goesOn p pa pb f f₁ f₂ n₁ n₂ hl hc hg hda _ iha ihb =>
    simp only [Stmt.names, List.forall_mem_append] at ha
    obtain ⟨⟨hge, hna⟩, hnb⟩ := ha
    have hGa : Ignores a.targets G := hG.mono fun x hx => List.mem_append_left _ hx
    have hGb : Ignores b.targets G := hG.mono fun x hx => List.mem_append_right _ hx
    have hlead := hda.leads
    rcases hr with hr | ⟨-, hr, hkeep, hka, hkb⟩
    · obtain ⟨n₁', pa', hda', hpa, hn₁⟩ := iha (.inl hr) hGa hpq hna hp hq
      obtain ⟨n₂', pb', hdb', hpb, hn₂⟩ := ihb (.inl hr) hGb hpq (hlead.all_taken hnb)
        (hlead.all_taken hp) (hlead.all_taken hq)
      refine ⟨_, _, .iteOutside hl (hr.trans hc) hg hda' hdb', ?_,
        .cons (.same _) (.cons (.same _) (List.rel_append hn₁ hn₂))⟩
      have hyes := (hpa.and_left guard).atSpan p.span q.span
      have hno := (hpb.and_left guard.not).atSpan p.span q.span
      exact (hyes.or hno).atSpan p.span q.span
    · -- the guard joins the facts that are carried through its branches
      have hgnames : ∀ x ∈ guard.names, x ∈ f.taken := Pred.names_ofExpr hg ▸ hge
      have hkeep : ∀ x ∈ guard.names, x ∉ a.targets ∧ x ∉ b.targets := by
        intro x hx
        have h := hkeep x (Pred.names_ofExpr hg ▸ hx)
        simpa only [Stmt.assignedVars, mem_inOrder] using h
      obtain ⟨n₁', pa', hda', hpa, hn₁⟩ := iha (.inr ⟨hc, hr, hka⟩)
        ((Pred.ignores fun x hx => (hkeep x hx).1).and hGa) ((hpq.guard guard).atSpan_right q.span)
        hna hp (Pred.names_guarded hgnames hq)
      obtain ⟨n₂', pb', hdb', hpb, hn₂⟩ := ihb (.inr ⟨hc, hr, hkb⟩)
        ((Pred.ignores (p := guard.not) fun x hx => (hkeep x hx).2).and hGb)
        ((hpq.guard guard.not).atSpan_right q.span) (hlead.all_taken hnb) (hlead.all_taken hp)
        (hlead.all_taken (Pred.names_guarded (g := guard.not) hgnames hq))
      refine ⟨_, _, .iteOnEntry hl hr hg hda' hdb', ?_,
        .cons (.same _) (.cons (.same _) (List.rel_append hn₁ hn₂))⟩
      have hyes := hpa.unguard.atSpan_left p.span
      have hno := hpb.unguard.atSpan_left p.span
      exact (hyes.or hno).atSpan p.span q.span
  | @iteOnEntry span e a b guard level goesOn p pa pb f f₁ f₂ n₁ n₂ hl hc hg hda _ iha ihb =>
    simp only [Stmt.names, List.forall_mem_append] at ha
    obtain ⟨⟨hge, hna⟩, hnb⟩ := ha
    rcases hr with hr | ⟨hout, -⟩
    · have hgnames : ∀ x ∈ guard.names, x ∈ f.taken := Pred.names_ofExpr hg ▸ hge
      have hlead := hda.leads
      obtain ⟨n₁', pa', hda', hpa, hn₁⟩ := iha (.inl hr) (hG.mono fun x hx => List.mem_append_left _ hx)
        ((hpq.and_left guard).atSpan p.span q.span) hna
        (Pred.names_guarded hgnames hp) (Pred.names_guarded hgnames hq)
      obtain ⟨n₂', pb', hdb', hpb, hn₂⟩ := ihb (.inl hr) (hG.mono fun x hx => List.mem_append_right _ hx)
        ((hpq.and_left guard.not).atSpan p.span q.span) (hlead.all_taken hnb)
        (hlead.all_taken (Pred.names_guarded (g := guard.not) hgnames hp))
        (hlead.all_taken (Pred.names_guarded (g := guard.not) hgnames hq))
      exact ⟨_, _, .iteOnEntry hl (hr.trans hc) hg hda' hdb',
        (hpa.or hpb).atSpan p.span q.span,
        .cons (.same _) (.cons (.same _) (List.rel_append hn₁ hn₂))⟩
    · rw [hc] at hout; cases hout
  | assume hl hg => exact ⟨_, _, .assume hl hg, hpq.and_right _, Note.weakens_refl _⟩
  | assert hl hg =>
    refine ⟨_, _, .assert hl hg, hpq.and_right _, .cons (.same _) (.cons (.same _) (.cons ?_ .nil))⟩
    exact hpq.weakens _ _ _
  | @loop span e a inv guard level goesOn p post frame f f₁ f₂ n₁ n₂ hl hg hda hf ih =>
    simp only [Stmt.names, List.forall_mem_append] at ha
    obtain ⟨⟨hge, hni⟩, hna⟩ := ha
    -- the body starts from the invariant, where nothing is carried
    have hbody : ∀ x ∈ (inv.and guard).names, x ∈ f.taken := by
      rw [Pred.names_and, List.forall_mem_append, Pred.names_ofExpr hg]
      exact ⟨hni, hge⟩
    obtain ⟨n₁', post', hda', hpost, hn₁⟩ := ih (hr.imp id) (fun _ _ _ _ _ _ => Iff.rfl) (.self _)
      hna hbody hbody
    obtain ⟨n₂', frame', hf', hframe, hn₂⟩ := hf.carry (hG.mono fun x hx => mem_inOrder.mp hx) hpq
      (hda.leads.all_taken hp) (hda.leads.all_taken hq)
    have hexit := ((hframe.and_right inv).and_right guard.not).atSpan p.span q.span
    refine ⟨_, _, .loop hl hg hda' hf', hexit, .cons (.same _) (.cons (.same _) ?_)⟩
    exact .cons (hpq.weakens _ _ _) (List.rel_append hn₁ (.cons (hpost.weakens _ _ _) hn₂))
  | passedLoop hl hc => exact ⟨_, q, .passedLoop hl hc, hpq, Note.weakens_refl _⟩
  | passedCall hl hc => exact ⟨_, q, .passedCall hl hc, hpq, Note.weakens_refl _⟩

/-! ## Runs -/

/-- The second obligation is the first one or a weaker one, for the same reason. -/
def Obligation.Weakens (z : ByZero) (o o' : Obligation) : Prop :=
  o.span = o'.span ∧ o.concern = o'.concern ∧ ∀ s b, o.pred.Holds z s b → o'.pred.Holds z s b

theorem Note.weakens_obligations {z : ByZero} {notes notes' : List Note}
    (h : List.Forall₂ (Note.Weakens z) notes notes') :
    List.Forall₂ (Obligation.Weakens z) (notes.filterMap Note.obligation?)
      (notes'.filterMap Note.obligation?) := by
  refine List.rel_filterMap (fun n n' hn => ?_) h
  cases hn with
  | same n =>
    cases n with
    | raised o => exact .some ⟨rfl, rfl, fun _ _ h => h⟩
    | _ => exact .none
  | allocated => exact .none
  | raised himp => exact .some ⟨rfl, rfl, himp⟩

theorem Note.weakens_filterMap_eq {z : ByZero} {α : Type} {g : Note → Option α} {notes notes' : List Note}
    (hg : ∀ n n', Note.Weakens z n n' → g n = g n') (h : List.Forall₂ (Note.Weakens z) notes notes') :
    notes.filterMap g = notes'.filterMap g := by
  induction h with
  | nil => rfl
  | cons hn _ ih => rw [List.filterMap_cons, List.filterMap_cons, hg _ _ hn, ih]

theorem Config.run_carry {z : ByZero} {c : Config} {a : Stmt} {p q : Pred} {reserved : List String}
    {G : State → State → Prop} {r : GuardRule} {t : Transformed} (hr : c.conditional.MovesTo r a)
    (hG : Ignores a.targets G) (hpq : Pred.Adds z G p q) (ha : ∀ x ∈ a.names, x ∈ reserved)
    (hp : ∀ x ∈ p.names, x ∈ reserved) (hq : ∀ x ∈ q.names, x ∈ reserved)
    (ht : (c.run a p reserved).result = .ok t) :
    let o := Config.run { c with conditional := r } a q reserved
    ∃ u, o.result = .ok u ∧ (c.run a p reserved).allocated = o.allocated ∧
      Pred.Adds z G t.post u.post ∧ t.unsound = u.unsound ∧
      List.Forall₂ (Obligation.Weakens z) t.side u.side := by
  intro o
  have hstart {l : List String} (hl : ∀ x ∈ l, x ∈ reserved) : ∀ x ∈ l, x ∈ (c.start reserved).taken :=
    fun x hx => Config.mem_start_taken.mpr (hl x hx)
  obtain ⟨f', hd, hside, hsites⟩ := Config.derives_of_run ht
  obtain ⟨notes', post', hd', hpost, hnotes⟩ := hd.carry hr hG hpq (hstart ha) (hstart hp) (hstart hq)
  have ho : o = ⟨notes', .ok ⟨post', notes'.filterMap Note.obligation?, notes'.filterMap Note.site?⟩⟩ :=
    Config.run_of_derives hd'
  rw [ho]
  refine ⟨_, rfl, ?_, hpost, ?_, ?_⟩
  · exact Note.weakens_filterMap_eq (fun n n' hn => by cases hn <;> rfl) hnotes
  · rw [hsites]
    exact Note.weakens_filterMap_eq (fun n n' hn => by cases hn <;> rfl) hnotes
  · rw [hside]
    exact Note.weakens_obligations hnotes

/-- **The two conditional rules.** Where no branch writes a variable of its guard, the
rules fail alike or succeed alike. They hand out the same names, pass through the same
statements and give postconditions that mean the same; the obligations are raised for
the same reasons, those with guards beside preconditions being the weaker ones. -/
theorem Config.transform_guard_rules (z : ByZero) (c : Config) (a : Stmt) (pre : Pred)
    (ha : a.KeepsGuards) :
    let outside := Config.transform { c with conditional := .outside } a pre
    let onEntry := Config.transform { c with conditional := .onEntry } a pre
    (∃ e, outside.result = .error e ∧ onEntry.result = .error e) ∨
    ∃ t u, outside.result = .ok t ∧ onEntry.result = .ok u ∧ outside.allocated = onEntry.allocated ∧
      (∀ s b, t.post.Holds z s b ↔ u.post.Holds z s b) ∧ t.unsound = u.unsound ∧
      List.Forall₂ (Obligation.Weakens z) t.side u.side := by
  intro outside onEntry
  have hrun (r : GuardRule) :=
    Config.run_error? { c with conditional := r } a pre (inOrder (a.names ++ pre.names))
  have herror : outside.error? = onEntry.error? := (hrun .outside).trans (hrun .onEntry).symm
  rcases Outcome.same_error_or_ok herror with hfail | ⟨t, -, ht, -⟩
  · exact .inl hfail
  · have hnames : ∀ x ∈ a.names ++ pre.names, x ∈ inOrder (a.names ++ pre.names) := fun x hx =>
      mem_inOrder.mpr hx
    rw [List.forall_mem_append] at hnames
    -- nothing is carried from the start; the guards join on the way
    obtain ⟨u, hu, hnew, hpost, hsites, hside⟩ := Config.run_carry (z := z) (r := .onEntry)
      (.inr ⟨rfl, rfl, ha⟩) (fun _ _ _ _ _ _ => Iff.rfl) (.self pre) hnames.1 hnames.2 hnames.2 ht
    refine .inr ⟨t, u, ht, hu, hnew, fun s b => ?_, hsites, hside⟩
    rw [hpost s b, and_iff_right trivial]

/-- Makes `y` the absolute value of `x`, and checks that it is not negative. -/
def absolute : Stmt :=
  let x := Expr.ofName "x"
  let check := Stmt.ensure (BinOp.apply (.rel .ge) (.ofName "y") (.ofInt64 0))
  .branch (BinOp.apply (.rel .lt) x (.ofInt64 0)) (.andThen (.set "y" (.unary .synthesized .neg x)) check)
    (.andThen (.set "y" x) check)

theorem Config.transform_guard_rules_absolute :
    let z : ByZero := ⟨fun _ => 0, fun _ => 0⟩
    let outside := Config.transform { conditional := .outside } absolute (.ofBool true)
    let onEntry := Config.transform { conditional := .onEntry } absolute (.ofBool true)
    absolute.KeepsGuards ∧ ∃ t u, outside.result = .ok t ∧ onEntry.result = .ok u ∧
      (∀ s b, t.post.Holds z s b ↔ u.post.Holds z s b) ∧
      List.Forall₂ (Obligation.Weakens z) t.side u.side ∧ t.side.length = 2 ∧ t.side ≠ u.side := by
  intro z outside onEntry
  have hkeep : absolute.KeepsGuards := ⟨by decide, ⟨trivial, trivial⟩, trivial, trivial⟩
  refine ⟨hkeep, ?_⟩
  have hrules := Config.transform_guard_rules z {} absolute (.ofBool true) hkeep
  rcases hrules with ⟨e, he, -⟩ | ⟨t, u, ht, hu, -, hpost, -, hside⟩
  · cases he
  · cases ht
    cases hu
    exact ⟨_, _, rfl, rfl, hpost, hside, rfl, by decide⟩

end StrongestPost
