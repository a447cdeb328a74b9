import StrongestPost.Proofs.Derivation
import StrongestPost.Proofs.Execution
import StrongestPost.Proofs.FreshNames

/-!
# Name hygiene

A run keeps one set of names that are taken: the reserved ones and those handed out
so far. `Fresh.Leads` is the history of an allocator along the notes of a run; from
one step of it follows that no name is handed out twice. `Stmt.Derives.speaksOf` follows
the keys through the rules: whatever a postcondition or an obligation speaks of was
in the statement or in the precondition, or it is a renamed key of these.
-/

namespace StrongestPost

/-! ## The history of an allocator -/

/-- Along the notes, the allocator `f` becomes `f'`. -/
inductive Fresh.Leads : Fresh → List Note → Fresh → Prop
  | nil {f} : Leads f [] f
  | note {f f' m notes} : m.name? = none → Leads f notes f' → Leads f (m :: notes) f'
  | allocate {f f₁ f' x y p notes} : f.allocate x p = (y, f₁) → Leads f₁ notes f' →
      Leads f (.allocated x y p :: notes) f'

namespace Fresh.Leads
variable {f f₁ f' : Fresh} {notes n₁ n₂ : List Note}

theorem append (h₁ : Leads f n₁ f₁) (h₂ : Leads f₁ n₂ f') : Leads f (n₁ ++ n₂) f' := by
  induction h₁ with
  | nil => exact h₂
  | note hm _ ih => exact .note hm (ih h₂)
  | allocate hy _ ih => exact .allocate hy (ih h₂)

theorem taken_eq (h : Leads f notes f') :
    f'.taken = (notes.filterMap Note.name?).reverse ++ f.taken := by
  induction h with
  | nil => rfl
  | note hm _ ih => rw [List.filterMap_cons_none hm, ih]
  | allocate hy _ ih =>
    obtain ⟨_, _, _, ht, _⟩ := Fresh.allocate_spec hy
    rw [List.filterMap_cons_some (by rfl), ih, ht]
    simp

theorem mem_taken (h : Leads f notes f') {x : String} (hx : x ∈ f.taken) : x ∈ f'.taken := by
  rw [h.taken_eq]
  exact List.mem_append_right _ hx

theorem all_taken (h : Leads f notes f') {l : List String} (hl : ∀ x ∈ l, x ∈ f.taken) :
    ∀ x ∈ l, x ∈ f'.taken :=
  fun x hx => h.mem_taken (hl x hx)

theorem nodup_taken (h : Leads f notes f') (hf : f.taken.Nodup) : f'.taken.Nodup := by
  induction h with
  | nil => exact hf
  | note _ _ ih => exact ih hf
  | allocate hy _ ih =>
    obtain ⟨_, _, hnew, ht, _⟩ := Fresh.allocate_spec hy
    apply ih
    rw [ht]
    exact List.nodup_cons.mpr ⟨hnew, hf⟩

theorem name_spec (h : Leads f notes f') {base name : String} {avoid : Pred}
    (hn : .allocated base name avoid ∈ notes) :
    (∃ n : Nat, name = base ++ f.separator ++ toString n) ∧ name ∉ avoid.names := by
  induction h with
  | nil => cases hn
  | note hm _ ih =>
    rcases List.mem_cons.mp hn with e | hn
    · rw [← e] at hm; cases hm
    · exact ih hn
  | allocate hy _ ih =>
    obtain ⟨hform, havoid, _, _, hsep⟩ := Fresh.allocate_spec hy
    rcases List.mem_cons.mp hn with e | hn
    · cases e; exact ⟨hform, havoid⟩
    · rw [← hsep]; exact ih hn

theorem names_fresh (h : Leads f notes f') (hf : f.taken.Nodup) :
    (notes.filterMap Note.name?).Nodup ∧ ∀ x ∈ notes.filterMap Note.name?, x ∉ f.taken := by
  have hn := h.nodup_taken hf
  rw [h.taken_eq, List.nodup_append] at hn
  refine ⟨(List.pairwise_reverse.mp hn.1).imp Ne.symm, fun x hx hxf => ?_⟩
  exact hn.2.2 x (List.mem_reverse.mpr hx) x hxf rfl

end Fresh.Leads

theorem Havocs.leads {xs : List String} {p q : Pred} {f f' : Fresh} {notes : List Note}
    (h : Havocs xs p f notes q f') : f.Leads notes f' := by
  induction h with
  | nil => exact .nil
  | cons hy _ ih => exact .allocate hy ih

theorem Stmt.Derives.leads {c : Config} {a : Stmt} {level : Nat} {goesOn : Bool} {pre post : Pred}
    {f f' : Fresh} {notes : List Note} (h : a.Derives c level goesOn pre f notes post f') :
    f.Leads notes f' := by
  induction h with
  | @seq span _ _ _ goesOn _ _ _ _ _ _ _ _ _ _ iha ihb =>
    cases goesOn with
    | true => exact iha.append ihb
    | false => exact .note rfl (iha.append ihb)
  | skip => exact .note rfl .nil
  | block _ _ ih => exact .note rfl ih
  | assign _ hy | localInit _ hy => exact .note rfl (.allocate hy (.note rfl .nil))
  | localAny _ hy => exact .note rfl (.allocate hy .nil)
  | iteOutside _ _ _ _ _ iha ihb | iteOnEntry _ _ _ _ _ iha ihb =>
    exact .note rfl (.note rfl (iha.append ihb))
  | assume => exact .note rfl (.note rfl .nil)
  | assert => exact .note rfl (.note rfl (.note rfl .nil))
  | loop _ _ _ hf ih => exact .note rfl (.note rfl (.note rfl (ih.append (.note rfl hf.leads))))
  | passedLoop | passedCall => exact .note rfl (.note rfl .nil)

/-! ## Which variables get fresh names -/

theorem Havocs.base_mem {xs : List String} {p q : Pred} {f f' : Fresh} {notes : List Note}
    (h : Havocs xs p f notes q f') {base name : String} {avoid : Pred}
    (hn : .allocated base name avoid ∈ notes) : base ∈ xs := by
  induction h with
  | nil => cases hn
  | cons _ _ ih =>
    rcases List.mem_cons.mp hn with e | hn
    · cases e; exact List.mem_cons_self ..
    · exact List.mem_cons_of_mem _ (ih hn)

theorem Havocs.raised_not_mem {xs : List String} {p q : Pred} {f f' : Fresh} {notes : List Note}
    (h : Havocs xs p f notes q f') {o : Obligation} : .raised o ∉ notes := by
  induction h with
  | nil => simp
  | cons _ _ ih => simpa using ih

theorem Stmt.Derives.base_mem {c : Config} {a : Stmt} {level : Nat} {goesOn : Bool} {pre post : Pred}
    {f f' : Fresh} {notes : List Note} (h : a.Derives c level goesOn pre f notes post f')
    {base name : String} {avoid : Pred} (hn : .allocated base name avoid ∈ notes) :
    base ∈ a.targets := by
  induction h with
  | seq _ _ iha ihb =>
    have hn := Note.mem_of_mem_ofSeq hn (by simp)
    rw [Stmt.targets]
    exact List.mem_append.mpr ((List.mem_append.mp hn).imp iha ihb)
  | block _ _ ih => exact ih (by simpa using hn)
  | assign | localInit | localAny =>
    simp only [List.mem_cons, reduceCtorEq, false_or, Note.allocated.injEq, List.not_mem_nil,
      or_false] at hn
    rw [hn.1]
    exact List.mem_singleton_self _
  | iteOutside _ _ _ _ _ iha ihb | iteOnEntry _ _ _ _ _ iha ihb =>
    simp only [List.mem_cons, reduceCtorEq, false_or, List.mem_append] at hn
    rw [Stmt.targets]
    exact List.mem_append.mpr (hn.imp iha ihb)
  | loop _ _ _ hf ih =>
    simp only [List.mem_cons, reduceCtorEq, false_or, List.mem_append] at hn
    rcases hn with hn | hn
    · exact ih hn
    · exact mem_inOrder.mp (hf.base_mem hn)
  | skip | assume | assert | passedLoop | passedCall => simp at hn

/-! ## The keys of postconditions and obligations -/

def Stmt.keys : Stmt → List Key
  | assign _ x e => ⟨x, .current⟩ :: e.keys
  | seq _ a b => a.keys ++ b.keys
  | skip _ => []
  | ite _ c a b => c.keys ++ a.keys ++ b.keys
  | block _ a => a.keys
  | loop _ c i a => c.keys ++ (i.elim [] Pred.keys) ++ a.keys
  | assert _ c | assume _ c => c.keys
  | call _ _ es => es.flatMap Expr.keys
  | localDef _ x e => ⟨x, .current⟩ :: e.elim [] Expr.keys

theorem Stmt.map_name_keys (a : Stmt) : a.keys.map Key.name = a.names := by
  induction a with
  | assign _ x e => simp [Stmt.keys, Stmt.names, e.map_name_keys]
  | seq _ a b iha ihb => simp [Stmt.keys, Stmt.names, iha, ihb]
  | skip => rfl
  | ite _ c a b iha ihb => simp [Stmt.keys, Stmt.names, c.map_name_keys, iha, ihb]
  | block _ a ih => exact ih
  | loop _ c i a ih =>
    cases i with
    | none => simp [Stmt.keys, Stmt.names, c.map_name_keys, ih]
    | some p => simp [Stmt.keys, Stmt.names, Pred.names, c.map_name_keys, ih]
  | assert _ c | assume _ c => exact c.map_name_keys
  | call _ _ es => simp [Stmt.keys, Stmt.names, List.map_flatMap, Expr.map_name_keys]
  | localDef _ x e =>
    cases e with
    | none => rfl
    | some e => simp [Stmt.keys, Stmt.names, e.map_name_keys]

namespace Pred
variable {K : Key → Prop}

@[simp] theorem speaksOf_and {p q : Pred} : (p.and q).SpeaksOf K ↔ p.SpeaksOf K ∧ q.SpeaksOf K := by
  simp [SpeaksOf, Pred.and, join, or_imp, forall_and]

@[simp] theorem speaksOf_or {p q : Pred} : (p.or q).SpeaksOf K ↔ p.SpeaksOf K ∧ q.SpeaksOf K := by
  simp [SpeaksOf, Pred.or, join, or_imp, forall_and]

@[simp] theorem speaksOf_implies {p q : Pred} :
    (p.implies q).SpeaksOf K ↔ p.SpeaksOf K ∧ q.SpeaksOf K := by
  simp [SpeaksOf, Pred.implies, join, or_imp, forall_and]

@[simp] theorem speaksOf_not {p : Pred} : p.not.SpeaksOf K ↔ p.SpeaksOf K := Iff.rfl

@[simp] theorem speaksOf_atSpan {p : Pred} {s : Span} : (p.atSpan s).SpeaksOf K ↔ p.SpeaksOf K := by
  cases p <;> exact Iff.rfl

theorem SpeaksOf.ofExpr {e : Expr} {p : Pred} (hp : Pred.ofExpr e = .ok p) (he : ∀ k ∈ e.keys, K k) :
    p.SpeaksOf K := by
  unfold SpeaksOf
  rw [keys_ofExpr hp]
  exact he

theorem SpeaksOf.rename {p : Pred} {x y : String} (h : p.SpeaksOf K)
    (hK : ∀ k, K k → K (k.rename x y)) : (p.rename x y).SpeaksOf K := by
  intro k hk
  rw [keys_rename] at hk
  obtain ⟨k', hk', rfl⟩ := List.mem_map.mp hk
  exact hK k' (h k' hk')

theorem SpeaksOf.assigned {p : Pred} {x y : String} {e : Expr} {t : Term} (h : p.SpeaksOf K)
    (hx : K ⟨x, .current⟩) (ht : Term.ofExpr e = .ok t) (he : ∀ k ∈ e.keys, K k)
    (hK : ∀ k, K k → K (k.rename x y)) : (p.assigned x y t).SpeaksOf K := by
  refine speaksOf_and.mpr ⟨h.rename hK, fun k hk => ?_⟩
  rw [keys_rel, Term.keys_rename, Term.keys_ofExpr ht] at hk
  rcases List.mem_append.mp hk with hk | hk
  · rw [List.mem_singleton.mp hk]; exact hx
  · obtain ⟨k', hk', rfl⟩ := List.mem_map.mp hk
    exact hK k' (he k' hk')

end Pred

/-- The renamings of a run do not lead out of `K`. -/
def ClosedUnder (notes : List Note) (K : Key → Prop) : Prop :=
  ∀ base name avoid, .allocated base name avoid ∈ notes → ∀ k, K k → K (k.rename base name)

section
variable {K : Key → Prop} {f f' : Fresh} {notes : List Note}

theorem ClosedUnder.mono {n₁ : List Note} (h : ClosedUnder notes K) (hn : ∀ n ∈ n₁, n ∈ notes) :
    ClosedUnder n₁ K :=
  fun base name avoid hm => h base name avoid (hn _ hm)

theorem Havocs.speaksOf {xs : List String} {p q : Pred} (h : Havocs xs p f notes q f')
    (hK : ClosedUnder notes K) (hp : p.SpeaksOf K) : q.SpeaksOf K := by
  induction h with
  | nil => exact hp
  | cons _ _ ih =>
    refine ih (hK.mono fun n hn => List.mem_cons_of_mem _ hn) ?_
    exact hp.rename (hK _ _ _ (List.mem_cons_self ..))

theorem Stmt.Derives.speaksOf {c : Config} {a : Stmt} {level : Nat} {goesOn : Bool} {pre post : Pred}
    (h : a.Derives c level goesOn pre f notes post f')
    (hK : ClosedUnder notes K) (ha : ∀ k ∈ a.keys, K k) (hpre : pre.SpeaksOf K) :
    post.SpeaksOf K ∧ ∀ o, .raised o ∈ notes → o.pred.SpeaksOf K := by
  induction h with
  | seq _ _ iha ihb =>
    rw [Stmt.keys, List.forall_mem_append] at ha
    obtain ⟨hmid, hoa⟩ := iha (hK.mono fun n hn => by simp [hn]) ha.1 hpre
    obtain ⟨hpost, hob⟩ := ihb (hK.mono fun n hn => by simp [hn]) ha.2 hmid
    refine ⟨hpost, fun o ho => ?_⟩
    have ho := Note.mem_of_mem_ofSeq ho (by simp)
    exact (List.mem_append.mp ho).elim (hoa o) (hob o)
  | skip => exact ⟨hpre, by simp⟩
  | block _ _ ih =>
    obtain ⟨hpost, ho⟩ := ih (hK.mono fun n hn => List.mem_cons_of_mem _ hn) ha hpre
    exact ⟨hpost, fun o hn => ho o (by simpa using hn)⟩
  | assign _ _ ht | localInit _ _ ht =>
    obtain ⟨hx, he⟩ := List.forall_mem_cons.mp ha
    exact ⟨hpre.assigned hx ht he (hK _ _ _ (.tail _ (.head _))), by simp⟩
  | localAny => exact ⟨hpre.rename (hK _ _ _ (.tail _ (.head _))), by simp⟩
  | @iteOutside _ _ _ _ guard _ _ _ _ _ _ _ _ _ _ _ _ hg _ _ iha ihb =>
    simp only [Stmt.keys, List.forall_mem_append] at ha
    have hguard : guard.SpeaksOf K := .ofExpr hg ha.1.1
    obtain ⟨hp, hoa⟩ := iha (hK.mono fun n hn => by simp [hn]) ha.1.2 hpre
    obtain ⟨hq, hob⟩ := ihb (hK.mono fun n hn => by simp [hn]) ha.2 hpre
    refine ⟨by simp [hguard, hp, hq], fun o ho => ?_⟩
    simp only [List.mem_cons, reduceCtorEq, false_or, List.mem_append] at ho
    exact ho.elim (hoa o) (hob o)
  | @iteOnEntry _ _ _ _ guard _ _ _ _ _ _ _ _ _ _ _ _ hg _ _ iha ihb =>
    simp only [Stmt.keys, List.forall_mem_append] at ha
    have hguard : guard.SpeaksOf K := .ofExpr hg ha.1.1
    obtain ⟨hp, hoa⟩ := iha (hK.mono fun n hn => by simp [hn]) ha.1.2 (by simp [hguard, hpre])
    obtain ⟨hq, hob⟩ := ihb (hK.mono fun n hn => by simp [hn]) ha.2 (by simp [hguard, hpre])
    refine ⟨by simp [hp, hq], fun o ho => ?_⟩
    simp only [List.mem_cons, reduceCtorEq, false_or, List.mem_append] at ho
    exact ho.elim (hoa o) (hob o)
  | @assume _ _ guard _ _ _ _ _ hg =>
    have hguard : guard.SpeaksOf K := .ofExpr hg ha
    exact ⟨by simp [hguard, hpre], by simp⟩
  | @assert _ _ guard _ _ _ _ _ hg =>
    have hguard : guard.SpeaksOf K := .ofExpr hg ha
    exact ⟨by simp [hguard, hpre], by simp [hguard, hpre]⟩
  | @loop _ _ _ inv guard _ _ _ _ _ _ _ _ _ _ _ hg _ hf ih =>
    simp only [Stmt.keys, List.forall_mem_append] at ha
    have hguard : guard.SpeaksOf K := .ofExpr hg ha.1.1
    have hinv : inv.SpeaksOf K := ha.1.2
    obtain ⟨hbody, hoa⟩ := ih (hK.mono fun n hn => by simp [hn]) ha.2 (by simp [hguard, hinv])
    have hframe := hf.speaksOf (hK.mono fun n hn => by simp [hn]) hpre
    refine ⟨by simp [hframe, hinv, hguard], fun o ho => ?_⟩
    simp only [List.mem_cons, reduceCtorEq, false_or, List.mem_append, Note.raised.injEq] at ho
    rcases ho with rfl | ho | rfl | ho
    · simp [hpre, hinv]
    · exact hoa o ho
    · simp [hbody, hinv]
    · exact (hf.raised_not_mem ho).elim
  | passedLoop | passedCall => exact ⟨hpre, by simp⟩

end

/-! ## Whole runs -/

def Outcome.allocated {α : Type} (o : Outcome α) : List String := o.notes.filterMap Note.name?

theorem mem_obligations {notes : List Note} {o : Obligation} :
    o ∈ notes.filterMap Note.obligation? ↔ .raised o ∈ notes := by
  rw [List.mem_filterMap]
  constructor
  · intro h
    obtain ⟨n, hn, ho⟩ := h
    cases n <;> simp [Note.obligation?] at ho
    subst ho; exact hn
  · intro h; exact ⟨_, h, rfl⟩

theorem mem_names_of_allocated {notes : List Note} {base name : String} {avoid : Pred}
    (h : .allocated base name avoid ∈ notes) : name ∈ notes.filterMap Note.name? :=
  List.mem_filterMap.mpr ⟨_, h, rfl⟩

theorem closedUnder_of_names {notes : List Note} {l : List String}
    (h : ∀ x ∈ notes.filterMap Note.name?, x ∈ l) : ClosedUnder notes fun k => k.name ∈ l := by
  intro base name avoid hn k hk
  unfold Key.rename
  split
  · exact h name (mem_names_of_allocated hn)
  · exact hk

theorem closedUnder_current (notes : List Note) : ClosedUnder notes fun k => k.moment = .current := by
  intro base name avoid _ k hk
  rw [Key.moment_rename]
  exact hk

theorem Fresh.Leads.closedUnder {f f' : Fresh} {notes : List Note} (h : f.Leads notes f') :
    ClosedUnder notes fun k => k.name ∈ f'.taken := by
  apply closedUnder_of_names
  intro x hx
  rw [h.taken_eq]
  exact List.mem_append_left _ (List.mem_reverse.mpr hx)

theorem Stmt.Derives.names_mem {c : Config} {a : Stmt} {level : Nat} {goesOn : Bool} {pre post : Pred}
    {f f' : Fresh} {notes : List Note} {l : List String} (h : a.Derives c level goesOn pre f notes post f')
    (ha : ∀ x ∈ a.names, x ∈ l) (hpre : ∀ x ∈ pre.names, x ∈ l) :
    (∀ x ∈ post.names, x ∈ l ++ notes.filterMap Note.name?) ∧
      ∀ o ∈ notes.filterMap Note.obligation?, ∀ x ∈ o.pred.names, x ∈ l ++ notes.filterMap Note.name? := by
  have hspeaks := h.speaksOf (closedUnder_of_names fun x hx => List.mem_append_right l hx)
    (fun k hk => List.mem_append_left _ (ha _ (a.map_name_keys ▸ List.mem_map_of_mem hk)))
    (fun k hk => List.mem_append_left _ (hpre _ (List.mem_map_of_mem hk)))
  refine ⟨fun x hx => ?_, fun o ho x hx => ?_⟩
  · obtain ⟨k, hk, rfl⟩ := List.mem_map.mp hx
    exact hspeaks.1 k hk
  · obtain ⟨k, hk, rfl⟩ := List.mem_map.mp hx
    exact hspeaks.2 o (mem_obligations.mp ho) k hk

theorem Stmt.Derives.names_taken {c : Config} {a : Stmt} {level : Nat} {goesOn : Bool} {pre post : Pred}
    {f f' : Fresh} {notes : List Note} (h : a.Derives c level goesOn pre f notes post f')
    (ha : ∀ x ∈ a.names, x ∈ f.taken) (hpre : ∀ x ∈ pre.names, x ∈ f.taken) :
    ∀ x ∈ post.names, x ∈ f'.taken := by
  intro x hx
  have hmem := (h.names_mem ha hpre).1 x hx
  rw [List.mem_append] at hmem
  rw [h.leads.taken_eq, List.mem_append, List.mem_reverse]
  exact hmem.symm

theorem Config.mem_start_taken {c : Config} {reserved : List String} {x : String} :
    x ∈ (c.start reserved).taken ↔ x ∈ reserved := by
  simp [Config.start, Fresh.mem_taken_reserve]

/-- **Name hygiene.** The names a run hands out are all different and none of them is
reserved; each is a numbered form of a variable that the statement writes, and does
not occur in the predicate it was requested for. The result speaks of nothing else
than reserved names and names that were handed out. -/
theorem Config.run_name_hygiene (c : Config) (a : Stmt) (pre : Pred) (reserved : List String)
    (ha : ∀ x ∈ a.vars, x ∈ reserved) (hpre : ∀ x ∈ pre.freeNames, x ∈ reserved) {t : Transformed}
    (h : (c.run a pre reserved).result = .ok t) :
    (c.run a pre reserved).allocated.Nodup ∧
    (∀ x ∈ (c.run a pre reserved).allocated, x ∉ reserved) ∧
    (∀ base name avoid, .allocated base name avoid ∈ (c.run a pre reserved).notes →
      base ∈ a.assignedVars ∧ (∃ n : Nat, name = base ++ c.separator ++ toString n) ∧
        name ∉ avoid.freeNames) ∧
    ∀ p, p = t.post ∨ (∃ o ∈ t.side, p = o.pred) →
      ∀ x ∈ p.freeNames, x ∈ reserved ∨ x ∈ (c.run a pre reserved).allocated := by
  simp only [Stmt.vars, Pred.freeNames, mem_inOrder] at ha hpre ⊢
  obtain ⟨f', hd, hside, -⟩ := Config.derives_of_run h
  have hlead := hd.leads
  have hnodup : (c.start reserved).taken.Nodup := Fresh.nodup_taken_reserve reserved List.nodup_nil
  obtain ⟨hnew, hfresh⟩ := hlead.names_fresh hnodup
  refine ⟨hnew, fun x hx hr => hfresh x hx (mem_start_taken.mpr hr), fun base name avoid hn => ?_, ?_⟩
  · obtain ⟨hform, havoid⟩ := hlead.name_spec hn
    exact ⟨mem_inOrder.mpr (hd.base_mem hn), hform, havoid⟩
  · have htaken : ∀ x, x ∈ f'.taken → x ∈ reserved ∨ x ∈ (c.run a pre reserved).allocated := by
      intro x hx
      rw [hlead.taken_eq, List.mem_append, List.mem_reverse, mem_start_taken] at hx
      exact hx.symm
    have hreserved : ∀ x, x ∈ reserved → x ∈ f'.taken := fun x hx =>
      hlead.mem_taken (mem_start_taken.mpr hx)
    obtain ⟨hpost, hobl⟩ := hd.speaksOf hlead.closedUnder
      (fun k hk => hreserved _ (ha _ (a.map_name_keys ▸ List.mem_map_of_mem hk)))
      (fun k hk => hreserved _ (hpre _ (List.mem_map_of_mem hk)))
    intro p hp x hx
    obtain ⟨k, hk, rfl⟩ := List.mem_map.mp hx
    rcases hp with rfl | ⟨o, ho, rfl⟩
    · exact htaken _ (hpost k hk)
    · rw [hside] at ho
      exact htaken _ (hobl o (mem_obligations.mp ho) k hk)

/-- Counts `i` up to a bound whose name looks like a fresh one. -/
def countUp : Stmt :=
  let i := Expr.ofName "i"
  let bound := Expr.ofName "i_0"
  let inv := RelOp.le.apply (.now "i") (.now "i_0")
  (Stmt.set "i" (.ofInt64 0)).andThen
    (.whileDo (BinOp.apply (.rel .lt) i bound) (some inv)
      (.set "i" (BinOp.apply (.arith .add) i (.ofInt64 1))))

theorem Config.run_name_hygiene_countUp :
    ∃ t, (({} : Config).run countUp (.ofBool true) countUp.vars).result = .ok t ∧
      (({} : Config).run countUp (.ofBool true) countUp.vars).allocated = ["i_1", "i_2", "i_3"] ∧
      ∀ x ∈ t.post.freeNames, x ∈ ["i", "i_0"] ∨ x ∈ ["i_1", "i_2", "i_3"] := by
  have hvars : countUp.vars = ["i", "i_0"] := by decide
  have hnames : (({} : Config).run countUp (.ofBool true) countUp.vars).allocated =
      ["i_1", "i_2", "i_3"] := by decide
  obtain ⟨-, -, -, hfree⟩ := Config.run_name_hygiene {} countUp (.ofBool true) countUp.vars
    (fun _ hx => hx) (by decide) rfl
  refine ⟨_, rfl, hnames, fun x hx => ?_⟩
  rw [← hvars, ← hnames]
  exact hfree _ (.inl rfl) x hx

end StrongestPost
