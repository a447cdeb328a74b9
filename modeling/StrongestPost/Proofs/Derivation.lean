import StrongestPost.Calculus.Report

/-!
# The rules of the calculus

A walk that succeeds is a derivation: `Stmt.Derives` has one rule for every way a
statement can be transformed, and says which names are taken, which notes are left
and which postcondition comes out. `Stmt.gives_sp_iff` says that the derivations
are exactly the successful runs of `Stmt.sp`, so what holds of every derivation is
proved rule by rule, without opening the walk again.
-/

namespace StrongestPost

/-! ## Walks that succeed -/

namespace Walk
variable {α β : Type} {f f' : Fresh} {notes : List Note}

/-- Started from the allocator `f`, the walk leaves these notes, this result and the
allocator `f'`. -/
def Gives (w : Walk α) (f : Fresh) (notes : List Note) (a : α) (f' : Fresh) : Prop :=
  w f = ⟨notes, .ok (a, f')⟩

@[simp] theorem gives_pure {a b : α} :
    (pure a : Walk α).Gives f notes b f' ↔ notes = [] ∧ b = a ∧ f' = f := by
  constructor
  · intro h; cases h; exact ⟨rfl, rfl, rfl⟩
  · intro h
    obtain ⟨rfl, rfl, rfl⟩ := h
    rfl

theorem Gives.bind {x : Walk α} {k : α → Walk β} {a : α} {b : β} {f₁ : Fresh} {n₁ n₂ : List Note}
    (hx : x.Gives f n₁ a f₁) (hk : (k a).Gives f₁ n₂ b f') : (x >>= k).Gives f (n₁ ++ n₂) b f' := by
  unfold Gives at *
  show (x f >>= fun r => k r.1 r.2) = _
  rw [hx]
  show (⟨n₁ ++ (k a f₁).notes, (k a f₁).result⟩ : Outcome (β × Fresh)) = _
  rw [hk]

theorem gives_bind {x : Walk α} {k : α → Walk β} {b : β} :
    (x >>= k).Gives f notes b f' ↔
      ∃ n₁ a f₁ n₂, x.Gives f n₁ a f₁ ∧ (k a).Gives f₁ n₂ b f' ∧ notes = n₁ ++ n₂ := by
  constructor
  · intro h
    have h : (x f >>= fun r => k r.1 r.2) = ⟨notes, .ok (b, f')⟩ := h
    cases hx : x f with
    | mk n₁ r =>
      rw [hx] at h
      cases r with
      | error e => cases h
      | ok r =>
        have h : (⟨n₁ ++ (k r.1 r.2).notes, (k r.1 r.2).result⟩ : Outcome (β × Fresh)) = _ := h
        cases hk : k r.1 r.2 with
        | mk n₂ r' =>
          rw [hk] at h
          cases h
          exact ⟨n₁, r.1, r.2, n₂, hx, hk, rfl⟩
  · intro h
    obtain ⟨n₁, a, f₁, n₂, hx, hk, rfl⟩ := h
    exact hx.bind hk

theorem gives_bind_pure {x : Walk α} {g : α → β} {b : β} :
    (x >>= fun a => pure (g a)).Gives f notes b f' ↔ ∃ a, x.Gives f notes a f' ∧ b = g a := by
  rw [gives_bind]
  constructor
  · intro h
    obtain ⟨n₁, a, f₁, n₂, hx, hpure, rfl⟩ := h
    obtain ⟨rfl, rfl, rfl⟩ := gives_pure.mp hpure
    rw [List.append_nil]
    exact ⟨a, hx, rfl⟩
  · intro h
    obtain ⟨a, hx, rfl⟩ := h
    exact ⟨notes, a, f', [], hx, gives_pure.mpr ⟨rfl, rfl, rfl⟩, (List.append_nil notes).symm⟩

@[simp] theorem gives_note {m : Note} {u : Unit} :
    (liftM (Outcome.note m) : Walk Unit).Gives f notes u f' ↔ notes = [m] ∧ f' = f := by
  constructor
  · intro h; cases h; exact ⟨rfl, rfl⟩
  · intro h
    obtain ⟨rfl, rfl⟩ := h
    rfl

@[simp] theorem gives_fail {e : Error} {a : α} :
    (liftM (Outcome.fail e : Outcome α) : Walk α).Gives f notes a f' ↔ False := by
  constructor
  · intro h; cases h
  · exact False.elim

@[simp] theorem gives_freshName {base name : String} {avoid : Pred} :
    (freshName base avoid).Gives f notes name f' ↔
      f.allocate base avoid = (name, f') ∧ notes = [.allocated base name avoid] := by
  constructor
  · intro h; cases h; exact ⟨rfl, rfl⟩
  · intro h
    obtain ⟨hname, rfl⟩ := h
    show (⟨[.allocated base (f.allocate base avoid).1 avoid],
      .ok ((f.allocate base avoid).1, (f.allocate base avoid).2)⟩ : Outcome (String × Fresh)) = _
    rw [hname]

theorem gives_bind_of_note {x : Walk α} {R : α → Prop} {m : Note} {k : α → Walk β} {b : β}
    (hx : ∀ {n a f₁}, x.Gives f n a f₁ ↔ R a ∧ n = [m] ∧ f₁ = f) :
    (x >>= k).Gives f notes b f' ↔
      ∃ a, R a ∧ ∃ rest, (k a).Gives f rest b f' ∧ notes = m :: rest := by
  rw [gives_bind]
  constructor
  · intro h
    obtain ⟨n₁, a, f₁, n₂, hnote, hk, rfl⟩ := h
    obtain ⟨ha, rfl, rfl⟩ := hx.mp hnote
    exact ⟨a, ha, n₂, hk, rfl⟩
  · intro h
    obtain ⟨a, ha, rest, hk, rfl⟩ := h
    exact ⟨[m], a, f, rest, hx.mpr ⟨ha, rfl, rfl⟩, hk, rfl⟩

theorem gives_note_bind {m : Note} {k : Unit → Walk α} {a : α} :
    (liftM (Outcome.note m) >>= k).Gives f notes a f' ↔
      ∃ rest, (k ()).Gives f rest a f' ∧ notes = m :: rest := by
  have hm : ∀ {n u f₁}, (liftM (Outcome.note m) : Walk Unit).Gives f n u f₁ ↔ True ∧ n = [m] ∧ f₁ = f := by
    simp
  rw [gives_bind_of_note hm]
  exact ⟨fun ⟨_, _, h⟩ => h, fun h => ⟨(), trivial, h⟩⟩

@[simp] theorem gives_term {e : Expr} {t : Term} :
    (term e).Gives f notes t f' ↔ Term.ofExpr e = .ok t ∧ notes = [.read .integer e] ∧ f' = f := by
  unfold term
  rw [gives_note_bind]
  cases Term.ofExpr e with
  | error m => simp
  | ok u => grind [gives_pure]

@[simp] theorem gives_pred {e : Expr} {p : Pred} :
    (pred e).Gives f notes p f' ↔ Pred.ofExpr e = .ok p ∧ notes = [.read .boolean e] ∧ f' = f := by
  unfold pred
  rw [gives_note_bind]
  cases Pred.ofExpr e with
  | error m => simp
  | ok q => grind [gives_pure]

@[simp] theorem gives_enter {c : Config} {level : Nat} {kind : Stmt.Kind} {span : Span} {u : Unit} :
    (enter c level kind span).Gives f notes u f' ↔
      level < c.maxDepth.toNat ∧ notes = [.rule kind span] ∧ f' = f := by
  unfold enter
  split
  · rw [gives_fail]; simp; omega
  · rw [gives_note]; simp; omega

theorem gives_enter_bind {c : Config} {level : Nat} {kind : Stmt.Kind} {span : Span} {k : Unit → Walk α}
    {a : α} :
    (enter c level kind span >>= k).Gives f notes a f' ↔
      level < c.maxDepth.toNat ∧ ∃ rest, (k ()).Gives f rest a f' ∧ notes = .rule kind span :: rest := by
  rw [gives_bind_of_note (R := fun _ => level < c.maxDepth.toNat) gives_enter]
  exact ⟨fun ⟨_, h⟩ => h, fun h => ⟨(), h⟩⟩

theorem gives_pred_bind {e : Expr} {k : Pred → Walk α} {a : α} :
    (pred e >>= k).Gives f notes a f' ↔
      ∃ p, Pred.ofExpr e = .ok p ∧
        ∃ rest, (k p).Gives f rest a f' ∧ notes = .read .boolean e :: rest :=
  gives_bind_of_note gives_pred

theorem gives_raise_bind {p : Pred} {span : Span} {concern : Concern} {k : Unit → Walk α} {a : α} :
    (raise p span concern >>= k).Gives f notes a f' ↔
      ∃ rest, (k ()).Gives f rest a f' ∧ notes = .raised ⟨p, span, concern⟩ :: rest :=
  gives_note_bind

@[simp] theorem gives_havoc {x : String} {p q : Pred} :
    (havoc x p).Gives f notes q f' ↔
      ∃ y, f.allocate x p = (y, f') ∧ notes = [.allocated x y p] ∧ q = p.rename x y := by
  unfold havoc
  rw [gives_bind_pure]
  constructor
  · intro h
    obtain ⟨y, hname, rfl⟩ := h
    obtain ⟨hy, rfl⟩ := gives_freshName.mp hname
    exact ⟨y, hy, rfl, rfl⟩
  · intro h
    obtain ⟨y, hy, rfl, rfl⟩ := h
    exact ⟨y, gives_freshName.mpr ⟨hy, rfl⟩, rfl⟩

end Walk

/-- What is known after `t` was assigned to `x`, the old value being kept as `y`. -/
def Pred.assigned (pre : Pred) (x y : String) (t : Term) : Pred :=
  (pre.rename x y).and (.rel pre.span ((Term.now x).atSpan pre.span) .eq (t.rename x y))

namespace Walk
variable {f f' : Fresh} {notes : List Note}

@[simp] theorem gives_assignment {x : String} {e : Expr} {p q : Pred} :
    (assignment x e p).Gives f notes q f' ↔
      ∃ y t, f.allocate x p = (y, f') ∧ Term.ofExpr e = .ok t ∧
        notes = [.allocated x y p, .read .integer e] ∧ q = p.assigned x y t := by
  unfold assignment
  rw [gives_bind]
  constructor
  · intro h
    obtain ⟨n₁, y, f₁, n₂, hname, hrest, rfl⟩ := h
    obtain ⟨hy, rfl⟩ := gives_freshName.mp hname
    obtain ⟨t, hterm, rfl⟩ := gives_bind_pure.mp hrest
    obtain ⟨ht, rfl, rfl⟩ := gives_term.mp hterm
    exact ⟨y, t, hy, ht, rfl, rfl⟩
  · intro h
    obtain ⟨y, t, hy, ht, rfl, rfl⟩ := h
    refine ⟨_, y, f', [.read .integer e], gives_freshName.mpr ⟨hy, rfl⟩, ?_, rfl⟩
    exact gives_bind_pure.mpr ⟨t, gives_term.mpr ⟨ht, rfl, rfl⟩, rfl⟩

@[simp] theorem gives_withoutRule {c : Config} {kind : Stmt.Kind} {span : Span} {p q : Pred} :
    (withoutRule c kind span p).Gives f notes q f' ↔
      c.unsupported = .passThrough ∧ notes = [.passed ⟨kind, span⟩] ∧ q = p ∧ f' = f := by
  unfold withoutRule
  cases c.unsupported with
  | reject => simp
  | passThrough => simp [gives_note_bind]; grind

end Walk

/-! ## Derivations -/

def Note.ofSeq (goesOn : Bool) (span : Span) : List Note :=
  -- a sequence that goes on one that has been noted is not noted again
  if goesOn then [] else [.rule .sequence span]

theorem Note.mem_of_mem_ofSeq {goesOn : Bool} {span : Span} {n : Note} {notes : List Note}
    (h : n ∈ Note.ofSeq goesOn span ++ notes) (hn : n ≠ .rule .sequence span) : n ∈ notes := by
  cases goesOn with
  | true => exact h
  | false => exact (List.mem_cons.mp h).resolve_left hn

theorem Note.filterMap_ofSeq {α : Type} {φ : Note → Option α} {goesOn : Bool} {span : Span}
    (hφ : φ (.rule .sequence span) = none) (notes : List Note) :
    (Note.ofSeq goesOn span ++ notes).filterMap φ = notes.filterMap φ := by
  cases goesOn with
  | true => rfl
  | false => exact List.filterMap_cons_none hφ

inductive Havocs : List String → Pred → Fresh → List Note → Pred → Fresh → Prop
  | nil {p f} : Havocs [] p f [] p f
  | cons {x y xs p q f f₁ f₂ notes} : f.allocate x p = (y, f₁) →
      Havocs xs (p.rename x y) f₁ notes q f₂ → Havocs (x :: xs) p f (.allocated x y p :: notes) q f₂

theorem Havocs.filterMap_eq_nil {α : Type} {φ : Note → Option α} (hφ : ∀ x y p, φ (.allocated x y p) = none)
    {xs : List String} {p q : Pred} {f f' : Fresh} {notes : List Note} (h : Havocs xs p f notes q f') :
    notes.filterMap φ = [] := by
  induction h with
  | nil => rfl
  | cons _ _ ih => rw [List.filterMap_cons_none (hφ _ _ _), ih]

/-- From the precondition and the allocator, a statement leads to notes, to a
postcondition and to an allocator. -/
inductive Stmt.Derives (c : Config) :
    Stmt → (level : Nat) → (goesOn : Bool) → Pred → Fresh → List Note → Pred → Fresh → Prop
  | seq {span a b level goesOn pre mid post f f₁ f₂ n₁ n₂} :
      Derives c a level false pre f n₁ mid f₁ → Derives c b level true mid f₁ n₂ post f₂ →
      Derives c (.seq span a b) level goesOn pre f
        (Note.ofSeq goesOn span ++ (n₁ ++ n₂)) post f₂
  | skip {span level goesOn pre f} : level < c.maxDepth.toNat →
      Derives c (.skip span) level goesOn pre f [.rule .skip span] pre f
  | block {span a level goesOn pre post f f₁ n} : level < c.maxDepth.toNat →
      Derives c a (level + 1) false pre f n post f₁ →
      Derives c (.block span a) level goesOn pre f (.rule .block span :: n) post f₁
  | assign {span x y e t level goesOn pre f f₁} : level < c.maxDepth.toNat →
      f.allocate x pre = (y, f₁) → Term.ofExpr e = .ok t →
      Derives c (.assign span x e) level goesOn pre f
        [.rule .assignment span, .allocated x y pre, .read .integer e] (pre.assigned x y t) f₁
  | localInit {span x y e t level goesOn pre f f₁} : level < c.maxDepth.toNat →
      f.allocate x pre = (y, f₁) → Term.ofExpr e = .ok t →
      Derives c (.localDef span x (some e)) level goesOn pre f
        [.rule .localDefinition span, .allocated x y pre, .read .integer e] (pre.assigned x y t) f₁
  | localAny {span x y level goesOn pre f f₁} : level < c.maxDepth.toNat →
      f.allocate x pre = (y, f₁) →
      Derives c (.localDef span x none) level goesOn pre f
        [.rule .localDefinition span, .allocated x y pre] (pre.rename x y) f₁
  | iteOutside {span e a b guard level goesOn pre p q f f₁ f₂ n₁ n₂} : level < c.maxDepth.toNat →
      c.conditional = .outside → Pred.ofExpr e = .ok guard →
      Derives c a (level + 1) false pre f n₁ p f₁ → Derives c b (level + 1) false pre f₁ n₂ q f₂ →
      Derives c (.ite span e a b) level goesOn pre f
        (.rule .conditional span :: .read .boolean e :: (n₁ ++ n₂))
        ((((guard.and p).atSpan pre.span).or ((guard.not.and q).atSpan pre.span)).atSpan pre.span) f₂
  | iteOnEntry {span e a b guard level goesOn pre p q f f₁ f₂ n₁ n₂} : level < c.maxDepth.toNat →
      c.conditional = .onEntry → Pred.ofExpr e = .ok guard →
      Derives c a (level + 1) false ((guard.and pre).atSpan pre.span) f n₁ p f₁ →
      Derives c b (level + 1) false ((guard.not.and pre).atSpan pre.span) f₁ n₂ q f₂ →
      Derives c (.ite span e a b) level goesOn pre f
        (.rule .conditional span :: .read .boolean e :: (n₁ ++ n₂)) ((p.or q).atSpan pre.span) f₂
  | assume {span e guard level goesOn pre f} : level < c.maxDepth.toNat →
      Pred.ofExpr e = .ok guard →
      Derives c (.assume span e) level goesOn pre f [.rule .assume span, .read .boolean e]
        (pre.and guard) f
  | assert {span e guard level goesOn pre f} : level < c.maxDepth.toNat →
      Pred.ofExpr e = .ok guard →
      Derives c (.assert span e) level goesOn pre f
        [.rule .assert span, .read .boolean e, .raised ⟨pre.implies guard, span, .assertion⟩]
        (pre.and guard) f
  | loop {span e a inv guard level goesOn pre post frame f f₁ f₂ n₁ n₂} : level < c.maxDepth.toNat →
      Pred.ofExpr e = .ok guard →
      Derives c a (level + 1) false (inv.and guard) f n₁ post f₁ →
      Havocs a.assignedVars pre f₁ n₂ frame f₂ →
      Derives c (.loop span e (some inv) a) level goesOn pre f
        (.rule .loop span :: .read .boolean e :: .raised ⟨pre.implies inv, span, .invariantOnEntry⟩ ::
          (n₁ ++ .raised ⟨post.implies inv, span, .invariantKept⟩ :: n₂))
        (((frame.and inv).and guard.not).atSpan pre.span) f₂
  | passedLoop {span e a level goesOn pre f} : level < c.maxDepth.toNat → c.unsupported = .passThrough →
      Derives c (.loop span e none a) level goesOn pre f [.rule .loop span, .passed ⟨.loop, span⟩] pre f
  | passedCall {span callee args level goesOn pre f} : level < c.maxDepth.toNat →
      c.unsupported = .passThrough →
      Derives c (.call span callee args) level goesOn pre f [.rule .call span, .passed ⟨.call, span⟩]
        pre f

section
open Walk
variable {f f' : Fresh} {notes : List Note} {pre post : Pred}

theorem gives_havocs_iff {xs : List String} :
    (xs.foldlM (fun p x => havoc x p) pre).Gives f notes post f' ↔ Havocs xs pre f notes post f' := by
  induction xs generalizing pre f notes with
  | nil =>
    rw [List.foldlM_nil, gives_pure]
    constructor
    · intro h
      obtain ⟨rfl, rfl, rfl⟩ := h
      exact .nil
    · intro h; cases h; exact ⟨rfl, rfl, rfl⟩
  | cons x xs ih =>
    rw [List.foldlM_cons, gives_bind]
    constructor
    · intro h
      obtain ⟨n₁, p, f₁, n₂, hx, hxs, rfl⟩ := h
      obtain ⟨y, hy, rfl, rfl⟩ := gives_havoc.mp hx
      exact .cons hy (ih.mp hxs)
    · intro h
      cases h with
      | cons hy hxs => exact ⟨_, _, _, _, gives_havoc.mpr ⟨_, hy, rfl, rfl⟩, ih.mpr hxs, rfl⟩

theorem Stmt.Derives.of_gives {c : Config} {a : Stmt} {level : Nat} {goesOn : Bool}
    (h : (a.sp c level goesOn pre).Gives f notes post f') :
    a.Derives c level goesOn pre f notes post f' := by
  induction a generalizing level goesOn pre f notes post f' with
  | seq span a b iha ihb =>
    rw [Stmt.sp] at h
    cases goesOn with
    | true =>
      rw [if_pos rfl] at h
      obtain ⟨n₁, mid, f₁, n₂, ha, hb, rfl⟩ := gives_bind.mp h
      exact .seq (iha ha) (ihb hb)
    | false =>
      rw [if_neg (by simp)] at h
      obtain ⟨n, hab, rfl⟩ := gives_note_bind.mp h
      obtain ⟨n₁, mid, f₁, n₂, ha, hb, rfl⟩ := gives_bind.mp hab
      exact .seq (iha ha) (ihb hb)
  | skip span =>
    simp only [Stmt.sp, gives_enter_bind, gives_pure] at h
    obtain ⟨hl, _, ⟨rfl, rfl, rfl⟩, rfl⟩ := h
    exact .skip hl
  | block span a ih =>
    rw [Stmt.sp, gives_enter_bind] at h
    obtain ⟨hl, n, ha, rfl⟩ := h
    exact .block hl (ih ha)
  | assign span x e =>
    simp only [Stmt.sp, gives_enter_bind, gives_assignment] at h
    obtain ⟨hl, _, ⟨y, t, hy, ht, rfl, rfl⟩, rfl⟩ := h
    exact .assign hl hy ht
  | localDef span x init =>
    cases init with
    | some e =>
      simp only [Stmt.sp, gives_enter_bind, gives_assignment] at h
      obtain ⟨hl, _, ⟨y, t, hy, ht, rfl, rfl⟩, rfl⟩ := h
      exact .localInit hl hy ht
    | none =>
      simp only [Stmt.sp, gives_enter_bind, gives_havoc] at h
      obtain ⟨hl, _, ⟨y, hy, rfl, rfl⟩, rfl⟩ := h
      exact .localAny hl hy
  | ite span e a b iha ihb =>
    rw [Stmt.sp, gives_enter_bind] at h
    obtain ⟨hl, _, hpred, rfl⟩ := h
    obtain ⟨guard, hg, _, hmatch, rfl⟩ := gives_pred_bind.mp hpred
    cases hc : c.conditional with
    | outside =>
      rw [hc] at hmatch
      obtain ⟨n₁, p, f₁, _, ha, hrest, rfl⟩ := gives_bind.mp hmatch
      obtain ⟨q, hb, rfl⟩ := gives_bind_pure.mp hrest
      exact .iteOutside hl hc hg (iha ha) (ihb hb)
    | onEntry =>
      rw [hc] at hmatch
      obtain ⟨n₁, p, f₁, _, ha, hrest, rfl⟩ := gives_bind.mp hmatch
      obtain ⟨q, hb, rfl⟩ := gives_bind_pure.mp hrest
      exact .iteOnEntry hl hc hg (iha ha) (ihb hb)
  | assume span e =>
    simp only [Stmt.sp, gives_enter_bind, gives_pred_bind, gives_pure] at h
    obtain ⟨hl, _, ⟨guard, hg, _, ⟨rfl, rfl, rfl⟩, rfl⟩, rfl⟩ := h
    exact .assume hl hg
  | assert span e =>
    simp only [Stmt.sp, gives_enter_bind, gives_pred_bind, gives_raise_bind, gives_pure] at h
    obtain ⟨hl, _, ⟨guard, hg, _, ⟨_, ⟨rfl, rfl, rfl⟩, rfl⟩, rfl⟩, rfl⟩ := h
    exact .assert hl hg
  | loop span e i a ih =>
    cases i with
    | none =>
      simp only [Stmt.sp, gives_enter_bind, gives_withoutRule] at h
      obtain ⟨hl, _, ⟨hc, rfl, rfl, rfl⟩, rfl⟩ := h
      exact .passedLoop hl hc
    | some inv =>
      rw [Stmt.sp, gives_enter_bind] at h
      obtain ⟨hl, _, hpred, rfl⟩ := h
      obtain ⟨guard, hg, _, hentry, rfl⟩ := gives_pred_bind.mp hpred
      obtain ⟨_, hbody, rfl⟩ := gives_raise_bind.mp hentry
      obtain ⟨n₁, p, f₁, _, ha, hkept, rfl⟩ := gives_bind.mp hbody
      obtain ⟨_, hframe, rfl⟩ := gives_raise_bind.mp hkept
      obtain ⟨frame, hf, rfl⟩ := gives_bind_pure.mp hframe
      exact .loop hl hg (ih ha) (gives_havocs_iff.mp hf)
  | call span callee args =>
    simp only [Stmt.sp, gives_enter_bind, gives_withoutRule] at h
    obtain ⟨hl, _, ⟨hc, rfl, rfl, rfl⟩, rfl⟩ := h
    exact .passedCall hl hc

theorem Stmt.Derives.gives {c : Config} {a : Stmt} {level : Nat} {goesOn : Bool}
    (h : a.Derives c level goesOn pre f notes post f') :
    (a.sp c level goesOn pre).Gives f notes post f' := by
  induction h with
  | @seq span a b level goesOn _ _ _ _ _ _ _ _ _ _ iha ihb =>
    rw [Stmt.sp]
    cases goesOn with
    | true => exact iha.bind ihb
    | false => exact gives_note_bind.mpr ⟨_, iha.bind ihb, rfl⟩
  | skip hl =>
    rw [Stmt.sp, gives_enter_bind]
    exact ⟨hl, _, gives_pure.mpr ⟨rfl, rfl, rfl⟩, rfl⟩
  | block hl _ ih =>
    rw [Stmt.sp, gives_enter_bind]
    exact ⟨hl, _, ih, rfl⟩
  | assign hl hy ht | localInit hl hy ht =>
    rw [Stmt.sp, gives_enter_bind]
    exact ⟨hl, _, gives_assignment.mpr ⟨_, _, hy, ht, rfl, rfl⟩, rfl⟩
  | localAny hl hy =>
    rw [Stmt.sp, gives_enter_bind]
    exact ⟨hl, _, gives_havoc.mpr ⟨_, hy, rfl, rfl⟩, rfl⟩
  | iteOutside hl hc hg _ _ iha ihb | iteOnEntry hl hc hg _ _ iha ihb =>
    rw [Stmt.sp, gives_enter_bind]
    refine ⟨hl, _, gives_pred_bind.mpr ⟨_, hg, _, ?_, rfl⟩, rfl⟩
    rw [hc]
    exact iha.bind (gives_bind_pure.mpr ⟨_, ihb, rfl⟩)
  | assume hl hg =>
    rw [Stmt.sp, gives_enter_bind]
    exact ⟨hl, _, gives_pred_bind.mpr ⟨_, hg, _, gives_pure.mpr ⟨rfl, rfl, rfl⟩, rfl⟩, rfl⟩
  | assert hl hg =>
    rw [Stmt.sp, gives_enter_bind]
    refine ⟨hl, _, gives_pred_bind.mpr ⟨_, hg, _, ?_, rfl⟩, rfl⟩
    exact gives_raise_bind.mpr ⟨_, gives_pure.mpr ⟨rfl, rfl, rfl⟩, rfl⟩
  | loop hl hg _ hf ih =>
    rw [Stmt.sp, gives_enter_bind]
    refine ⟨hl, _, gives_pred_bind.mpr ⟨_, hg, _, gives_raise_bind.mpr ⟨_, ?_, rfl⟩, rfl⟩, rfl⟩
    refine ih.bind (gives_raise_bind.mpr ⟨_, ?_, rfl⟩)
    exact gives_bind_pure.mpr ⟨_, gives_havocs_iff.mpr hf, rfl⟩
  | passedLoop hl hc | passedCall hl hc =>
    rw [Stmt.sp, gives_enter_bind]
    exact ⟨hl, _, gives_withoutRule.mpr ⟨hc, rfl, rfl, rfl⟩, rfl⟩

theorem Stmt.gives_sp_iff {c : Config} {a : Stmt} {level : Nat} {goesOn : Bool} :
    (a.sp c level goesOn pre).Gives f notes post f' ↔ a.Derives c level goesOn pre f notes post f' :=
  ⟨Stmt.Derives.of_gives, Stmt.Derives.gives⟩

end

/-! ## Runs -/

def Config.start (c : Config) (reserved : List String) : Fresh :=
  Fresh.reserve { separator := c.separator } reserved

theorem Config.derives_of_run {c : Config} {a : Stmt} {pre : Pred} {reserved : List String}
    {t : Transformed} (h : (c.run a pre reserved).result = .ok t) :
    ∃ f', a.Derives c 0 false pre (c.start reserved) (c.run a pre reserved).notes t.post f' ∧
      t.side = (c.run a pre reserved).notes.filterMap Note.obligation? ∧
      t.unsound = (c.run a pre reserved).notes.filterMap Note.site? := by
  unfold Config.run at *
  cases ho : a.sp c 0 false pre (Fresh.reserve { separator := c.separator } reserved) with
  | mk notes r =>
    simp only [ho] at h ⊢
    cases r with
    | error e => cases h
    | ok r =>
      cases h
      exact ⟨r.2, Stmt.Derives.of_gives ho, rfl, rfl⟩

theorem Config.run_of_derives {c : Config} {a : Stmt} {pre post : Pred} {reserved : List String}
    {notes : List Note} {f' : Fresh} (h : a.Derives c 0 false pre (c.start reserved) notes post f') :
    c.run a pre reserved = ⟨notes, .ok
      { post, side := notes.filterMap Note.obligation?, unsound := notes.filterMap Note.site? }⟩ := by
  have hgives : a.sp c 0 false pre (Fresh.reserve { separator := c.separator } reserved) =
      ⟨notes, .ok (post, f')⟩ := h.gives
  unfold Config.run
  rw [hgives]
  rfl

theorem Config.run_of_generateProcedure {c : Config} {p : Procedure} {r : Report}
    (h : (c.generateProcedure p).result = .ok r) :
    ∃ t, (c.run p.body p.pre p.vars).result = .ok t ∧ r.main.pred = t.post.implies p.post ∧
      r.side = t.side ∧ r.unsound = t.unsound := by
  unfold Config.generateProcedure at h
  cases ho : c.run p.body p.pre p.vars with
  | mk notes res =>
    rw [ho] at h
    cases res with
    | error e => cases h
    | ok t =>
      cases h
      exact ⟨t, rfl, rfl, rfl, rfl⟩

end StrongestPost
