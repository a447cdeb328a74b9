import Mathlib.Data.List.Nodup
import StrongestPost.Proofs.Hygiene
import StrongestPost.Proofs.NameMaps

/-!
# Names carry no meaning

A statement and a renamed copy of it are walked side by side. The names in play on the
left are matched with those on the right by a map that grows with every fresh name
(`Matches.extend`), whatever numbers and separators the two allocators come up with.

Only the loop rule looks at the order of names: it forgets the variables of the body in
that order, and a renaming may permute them. One variable is forgotten after the other,
but the names are fresh, so the effect is that of a single map (`Havocs.moves`) in which
the order plays no part.
-/

namespace StrongestPost

def InjectiveOn (l : List String) (g : String → String) : Prop := ∀ x ∈ l, ∀ y ∈ l, g x = g y → x = y

instance (l : List String) (g : String → String) : Decidable (InjectiveOn l g) :=
  inferInstanceAs (Decidable (∀ x ∈ l, ∀ y ∈ l, g x = g y → x = y))

theorem InjectiveOn.mono {l l' : List String} {g : String → String} (h : InjectiveOn l g)
    (hl : ∀ x ∈ l', x ∈ l) : InjectiveOn l' g :=
  fun x hx y hy => h x (hl x hx) y (hl y hy)

/-! ## Fresh names as a map -/

/-- The names of `xs` are moved to fresh ones, which are taken from then on. -/
structure Fresh.Moves (f : Fresh) (xs : List String) (σ : String → String) (f' : Fresh) : Prop where
  off : ∀ x, x ∉ xs → σ x = x
  fresh : ∀ x ∈ xs, σ x ∉ f.taken
  inj : InjectiveOn xs σ
  taken : ∀ x, x ∈ f'.taken ↔ x ∈ xs.map σ ∨ x ∈ f.taken

theorem Fresh.Moves.of_allocate {f f' : Fresh} {x y : String} {p : Pred}
    (h : f.allocate x p = (y, f')) : f.Moves [x] (fun u => if u = x then y else u) f' := by
  obtain ⟨_, _, hnew, htaken, _⟩ := Fresh.allocate_spec h
  refine ⟨fun u hu => if_neg (by simpa using hu), fun u hu => ?_, fun u hu v hv _ => ?_, fun u => ?_⟩
  · rw [if_pos (List.mem_singleton.mp hu)]; exact hnew
  · rw [List.mem_singleton.mp hu, List.mem_singleton.mp hv]
  · simp [htaken]

theorem Fresh.Moves.cons {f f₁ f₂ : Fresh} {x y : String} {xs : List String} {p : Pred}
    {σ : String → String} (hσ : f₁.Moves xs σ f₂) (hy : f.allocate x p = (y, f₁)) (hx : x ∉ xs)
    (hxs : ∀ u ∈ xs, u ∈ f.taken) :
    let τ := fun u => σ (if u = x then y else u)
    (x :: xs).map τ = y :: xs.map σ ∧ f.Moves (x :: xs) τ f₂ := by
  intro τ
  obtain ⟨_, _, hnew, htaken, _⟩ := Fresh.allocate_spec hy
  -- the new name is none of those that are still to be moved, nor one they are moved to
  have hyσ : σ y = y := hσ.off y fun hm => hnew (hxs y hm)
  have hyfresh : ∀ u ∈ xs, σ u ≠ y := fun u hu e => hσ.fresh u hu (by rw [e, htaken]; simp)
  have hτx : τ x = y := by simp only [τ, if_true, hyσ]
  have hτ : ∀ u, u ≠ x → τ u = σ u := fun u hu => by simp only [τ, hu, if_false]
  have hτxs : ∀ u ∈ xs, τ u = σ u := fun u hu => hτ u fun e => hx (e ▸ hu)
  have hmap : (x :: xs).map τ = y :: xs.map σ := by
    rw [List.map_cons, hτx, List.map_congr_left hτxs]
  refine ⟨hmap, fun u hu => ?_, ?_, fun u hu v hv huv => ?_, fun u => ?_⟩
  · rw [List.mem_cons, not_or] at hu
    rw [hτ u hu.1, hσ.off u hu.2]
  · rw [List.forall_mem_cons, hτx]
    refine ⟨hnew, fun u hu hm => hσ.fresh u hu ?_⟩
    rw [← hτxs u hu, htaken]
    exact List.mem_cons_of_mem _ hm
  · rcases List.mem_cons.mp hu with hu | hu <;> rcases List.mem_cons.mp hv with hv | hv
    · rw [hu, hv]
    · rw [hu, hτx, hτxs v hv] at huv
      exact absurd huv.symm (hyfresh v hv)
    · rw [hv, hτx, hτxs u hu] at huv
      exact absurd huv (hyfresh u hu)
    · rw [hτxs u hu, hτxs v hv] at huv
      exact hσ.inj u hu v hv huv
  · rw [hσ.taken, htaken, hmap, List.mem_cons, List.mem_cons]
    exact or_left_comm.trans or_assoc.symm

theorem Havocs.exists (xs : List String) (p : Pred) (f : Fresh) : ∃ notes q f', Havocs xs p f notes q f' := by
  induction xs generalizing p f with
  | nil => exact ⟨[], p, f, .nil⟩
  | cons x xs ih =>
    obtain ⟨notes, q, f', h⟩ := ih (p.rename x (f.allocate x p).1) (f.allocate x p).2
    exact ⟨_, q, f', .cons rfl h⟩

theorem Havocs.moves {xs : List String} {p q : Pred} {f f' : Fresh} {notes : List Note}
    (h : Havocs xs p f notes q f') (hxs : xs.Nodup) (hf : ∀ x ∈ xs, x ∈ f.taken) :
    ∃ σ, f.Moves xs σ f' ∧ q = p.mapNames σ ∧ notes.filterMap Note.name? = xs.map σ := by
  induction h with
  | @nil p f =>
    have hnone : f.Moves [] id f := ⟨fun _ _ => rfl, by simp, by simp [InjectiveOn], by simp⟩
    exact ⟨id, hnone, (Pred.mapNames_id _).symm, rfl⟩
  | cons hy _ ih =>
    obtain ⟨hx, hxs⟩ := List.nodup_cons.mp hxs
    obtain ⟨-, hf⟩ := List.forall_mem_cons.mp hf
    obtain ⟨_, _, _, htaken, _⟩ := Fresh.allocate_spec hy
    obtain ⟨σ, hσ, rfl, hnames⟩ := ih hxs fun u hu => htaken ▸ List.mem_cons_of_mem _ (hf u hu)
    obtain ⟨hmap, hτ⟩ := hσ.cons hy hx hf
    refine ⟨_, hτ, ?_, ?_⟩
    · rw [Pred.rename_eq_mapNames, Pred.mapNames_mapNames]
      rfl
    · rw [hmap, List.filterMap_cons_some (by rfl), hnames]

/-! ## Matching names -/

/-- Behaves as `h` on the names that `σ` makes of `xs`, and as `g` elsewhere. -/
def extendMap (xs : List String) (σ h g : String → String) (u : String) : String :=
  ((xs.find? (σ · = u)).map h).getD (g u)

section
variable {xs : List String} {σ h g : String → String}

theorem extendMap_old {u : String} (hu : ∀ x ∈ xs, σ x ≠ u) : extendMap xs σ h g u = g u := by
  have hnone : xs.find? (σ · = u) = none := List.find?_eq_none.mpr (by simpa using hu)
  rw [extendMap, hnone]
  rfl

theorem extendMap_new (hσ : InjectiveOn xs σ) {x : String} (hx : x ∈ xs) :
    extendMap xs σ h g (σ x) = h x := by
  cases hfind : xs.find? (σ · = σ x) with
  | none => exact absurd (decide_eq_true rfl) (List.find?_eq_none.mp hfind x hx)
  | some y =>
    have hy : σ y = σ x := by simpa using List.find?_some hfind
    rw [extendMap, hfind, hσ y (List.mem_of_find?_eq_some hfind) x hx hy]
    rfl

end

/-- The names of `l` are in play on the left, and those that `g` makes of them on the right. -/
structure Matches (g : String → String) (l : List String) (f₁ f₂ : Fresh) : Prop where
  inj : InjectiveOn l g
  left : ∀ x ∈ l, x ∈ f₁.taken
  right : ∀ x ∈ l, g x ∈ f₂.taken

section
variable {g : String → String} {l xs ys : List String} {f₁ f₁' f₂ f₂' : Fresh}

theorem Matches.extend {σ τ : String → String} (hm : Matches g l f₁ f₂) (hσ : f₁.Moves xs σ f₁')
    (hτ : f₂.Moves ys τ f₂') (hxs : ∀ x ∈ xs, x ∈ l) (hys : ys.Perm (xs.map g)) :
    ∃ g', Matches g' (l ++ xs.map σ) f₁' f₂' ∧ (∀ x ∈ l, g' x = g x) ∧ ∀ x ∈ l, g' (σ x) = τ (g x) := by
  have hmem : ∀ x ∈ xs, g x ∈ ys := fun x hx => hys.mem_iff.mpr (List.mem_map_of_mem hx)
  let g' := extendMap xs σ (τ ∘ g) g
  have hnew : ∀ x ∈ xs, g' (σ x) = τ (g x) := fun x hx => extendMap_new hσ.inj hx
  have hold : ∀ u ∈ l, g' u = g u := fun u hu =>
    extendMap_old fun x hx e => hσ.fresh x hx (e ▸ hm.left u hu)
  have hapart : ∀ u ∈ l, ∀ x ∈ xs, g' u ≠ g' (σ x) := by
    intro u hu x hx e
    rw [hold u hu, hnew x hx] at e
    exact hτ.fresh _ (hmem x hx) (e ▸ hm.right u hu)
  refine ⟨g', ⟨fun u hu v hv huv => ?_, fun u hu => ?_, fun u hu => ?_⟩, hold, fun x hx => ?_⟩
  · rcases List.mem_append.mp hu with hu | hu <;> rcases List.mem_append.mp hv with hv | hv
    · rw [hold u hu, hold v hv] at huv
      exact hm.inj u hu v hv huv
    · obtain ⟨x, hx, rfl⟩ := List.mem_map.mp hv
      exact absurd huv (hapart u hu x hx)
    · obtain ⟨x, hx, rfl⟩ := List.mem_map.mp hu
      exact absurd huv.symm (hapart v hv x hx)
    · obtain ⟨x, hx, rfl⟩ := List.mem_map.mp hu
      obtain ⟨y, hy, rfl⟩ := List.mem_map.mp hv
      rw [hnew x hx, hnew y hy] at huv
      have hxy := hτ.inj _ (hmem x hx) _ (hmem y hy) huv
      rw [hm.inj x (hxs x hx) y (hxs y hy) hxy]
  · rw [hσ.taken]
    exact (List.mem_append.mp hu).symm.imp_right (hm.left u)
  · rw [hτ.taken]
    rcases List.mem_append.mp hu with hu | hu
    · exact .inr (hold u hu ▸ hm.right u hu)
    · obtain ⟨x, hx, rfl⟩ := List.mem_map.mp hu
      exact .inl (hnew x hx ▸ List.mem_map_of_mem (hmem x hx))
  · by_cases hx' : x ∈ xs
    · exact hnew x hx'
    · -- a name that stays on the left has an image that stays on the right
      have hy : g x ∉ ys := by
        intro hy
        obtain ⟨x', hx'', e⟩ := List.mem_map.mp (hys.mem_iff.mp hy)
        exact hx' (hm.inj x' (hxs x' hx'') x hx e ▸ hx'')
      rw [hσ.off x hx', hτ.off _ hy, hold x hx]

end

/-! ## Notes -/

def Obligation.mapNames (g : String → String) (o : Obligation) : Obligation :=
  { o with pred := o.pred.mapNames g }

/-- From names matched by `g` the two walks went on to names matched by `g'`. What was
noted on the right is what was noted on the left, under `g'`; only the order of the fresh
names may differ. -/
structure Note.Carries (g : String → String) (l : List String) (notes notes' : List Note)
    (g' : String → String) (f₁ f₂ : Fresh) : Prop where
  old : ∀ x ∈ l, g' x = g x
  matched : Matches g' (l ++ notes.filterMap Note.name?) f₁ f₂
  obligations : notes'.filterMap Note.obligation? =
    (notes.filterMap Note.obligation?).map (Obligation.mapNames g')
  sites : notes'.filterMap Note.site? = notes.filterMap Note.site?
  names : (notes'.filterMap Note.name?).Perm ((notes.filterMap Note.name?).map g')

namespace Note.Carries
variable {g g' g'' : String → String} {l : List String} {notes notes' n₁ n₁' n₂ n₂' : List Note}
  {f₁ f₁' f₂ f₂' : Fresh}

theorem nil (hm : Matches g l f₁ f₂) : Carries g l [] [] g f₁ f₂ :=
  ⟨fun _ _ => rfl, by rwa [List.filterMap_nil, List.append_nil], rfl, rfl, .nil⟩

theorem rule (k : Stmt.Kind) (s : Span) (h : Carries g l notes notes' g' f₁ f₂) :
    Carries g l (.rule k s :: notes) (.rule k s :: notes') g' f₁ f₂ :=
  ⟨h.old, h.matched, h.obligations, h.sites, h.names⟩

theorem read (k : ValueSort) (e e' : Expr) (h : Carries g l notes notes' g' f₁ f₂) :
    Carries g l (.read k e :: notes) (.read k e' :: notes') g' f₁ f₂ :=
  ⟨h.old, h.matched, h.obligations, h.sites, h.names⟩

theorem passed (s : Site) (h : Carries g l notes notes' g' f₁ f₂) :
    Carries g l (.passed s :: notes) (.passed s :: notes') g' f₁ f₂ :=
  ⟨h.old, h.matched, h.obligations, congrArg (s :: ·) h.sites, h.names⟩

theorem raised (o : Obligation) (h : Carries g l notes notes' g' f₁ f₂) :
    Carries g l (.raised o :: notes) (.raised (o.mapNames g') :: notes') g' f₁ f₂ :=
  ⟨h.old, h.matched, congrArg (o.mapNames g' :: ·) h.obligations, h.sites, h.names⟩

theorem append (h₁ : Carries g l n₁ n₁' g' f₁ f₂)
    (h₂ : Carries g' (l ++ n₁.filterMap Note.name?) n₂ n₂' g'' f₁' f₂')
    (hobl : ∀ o ∈ n₁.filterMap Note.obligation?, ∀ x ∈ o.pred.names, x ∈ l ++ n₁.filterMap Note.name?) :
    Carries g l (n₁ ++ n₂) (n₁' ++ n₂') g'' f₁' f₂' := by
  refine ⟨fun x hx => ?_, ?_, ?_, ?_, ?_⟩
  · rw [h₂.old x (List.mem_append_left _ hx), h₁.old x hx]
  · rw [List.filterMap_append, ← List.append_assoc]
    exact h₂.matched
  · -- the obligations raised so far speak of names on which the two maps agree
    have hagree : ∀ o ∈ n₁.filterMap Note.obligation?, o.mapNames g'' = o.mapNames g' := by
      intro o ho
      rw [Obligation.mapNames, Obligation.mapNames, Pred.mapNames_congr fun x hx => h₂.old x (hobl o ho x hx)]
    rw [List.filterMap_append, List.filterMap_append, List.map_append, h₁.obligations, h₂.obligations,
      List.map_congr_left hagree]
  · rw [List.filterMap_append, List.filterMap_append, h₁.sites, h₂.sites]
  · have hagree : ∀ x ∈ n₁.filterMap Note.name?, g'' x = g' x := fun x hx =>
      h₂.old x (List.mem_append_right l hx)
    rw [List.filterMap_append, List.filterMap_append, List.map_append, List.map_congr_left hagree]
    exact h₁.names.append h₂.names

theorem ofSeq (goesOn : Bool) (s : Span) (h : Carries g l notes notes' g' f₁ f₂) :
    Carries g l (Note.ofSeq goesOn s ++ notes) (Note.ofSeq goesOn s ++ notes') g' f₁ f₂ := by
  cases goesOn with
  | true => exact h
  | false => exact h.rule .sequence s

end Note.Carries

/-! ## Derivations -/

section
variable {g g' : String → String}

theorem Pred.mapNames_moved {σ τ : String → String} {p : Pred} (h : ∀ u ∈ p.names, g' (σ u) = τ (g u)) :
    (p.mapNames σ).mapNames g' = (p.mapNames g).mapNames τ := by
  rw [mapNames_mapNames, mapNames_mapNames]
  exact mapNames_congr h

variable {x y x' y' : String}

theorem Term.mapNames_rename {t : Term}
    (h : ∀ u ∈ t.keys.map Key.name, g' (if u = x then y else u) = if g u = x' then y' else g u) :
    (t.rename x y).mapNames g' = (t.mapNames g).rename x' y' := by
  rw [rename_eq_mapNames, rename_eq_mapNames, mapNames_mapNames, mapNames_mapNames]
  exact mapNames_congr h

theorem Pred.mapNames_rename {p : Pred}
    (h : ∀ u ∈ p.names, g' (if u = x then y else u) = if g u = x' then y' else g u) :
    (p.rename x y).mapNames g' = (p.mapNames g).rename x' y' := by
  rw [rename_eq_mapNames, rename_eq_mapNames]
  exact mapNames_moved h

theorem Matches.allocate {l : List String} {f₁ f₁' f₂ : Fresh} {p : Pred} (hm : Matches g l f₁ f₂)
    (hx : x ∈ l) (hy : f₁.allocate x p = (y, f₁')) (p' : Pred) :
    ∃ g' y' f₂', f₂.allocate (g x) p' = (y', f₂') ∧
      Note.Carries g l [.allocated x y p] [.allocated (g x) y' p'] g' f₁' f₂' ∧
      ∀ u ∈ l, g' (if u = x then y else u) = if g u = g x then y' else g u := by
  obtain ⟨y', f₂', hy'⟩ : ∃ y' f₂', f₂.allocate (g x) p' = (y', f₂') := ⟨_, _, rfl⟩
  obtain ⟨g', hm', hold, hmove⟩ := hm.extend (.of_allocate hy) (.of_allocate hy')
    (by simpa using hx) (.refl [g x])
  have hm' : Matches g' (l ++ [y]) f₁' f₂' := by simpa using hm'
  have hnew : g' y = y' := by simpa using hmove x hx
  refine ⟨g', y', f₂', hy', ⟨hold, hm', rfl, rfl, ?_⟩, hmove⟩
  rw [← hnew]
  exact .refl _

theorem Matches.assign {l : List String} {f₁ f₁' f₂ : Fresh} {p : Pred} {t : Term} (hm : Matches g l f₁ f₂)
    (hx : x ∈ l) (hp : ∀ u ∈ p.names, u ∈ l) (ht : ∀ u ∈ t.keys.map Key.name, u ∈ l)
    (hy : f₁.allocate x p = (y, f₁')) (e e' : Expr) :
    ∃ g' y' f₂', f₂.allocate (g x) (p.mapNames g) = (y', f₂') ∧
      (p.assigned x y t).mapNames g' = (p.mapNames g).assigned (g x) y' (t.mapNames g) ∧
      Note.Carries g l [.allocated x y p, .read .integer e]
        [.allocated (g x) y' (p.mapNames g), .read .integer e'] g' f₁' f₂' := by
  obtain ⟨g', y', f₂', hy', hn, hmove⟩ := hm.allocate hx hy (p.mapNames g)
  refine ⟨g', y', f₂', hy', ?_, hn.append (.read .integer e e' (.nil hn.matched)) nofun⟩
  -- the target itself keeps its name: it stands for the new value
  have hnow (s : Span) : ((Term.now x).atSpan s).mapNames g' = (Term.now (g x)).atSpan s := by
    rw [← hn.old x hx]
    rfl
  unfold Pred.assigned
  rw [Pred.mapNames_and, Pred.mapNames_rename fun u hu => hmove u (hp u hu), Pred.mapNames, hnow,
    Term.mapNames_rename fun u hu => hmove u (ht u hu), Pred.span_mapNames]

end

section
variable {g : String → String} {l : List String} {f₁ f₁' f₂ : Fresh} {notes : List Note}

theorem Stmt.assignedVars_mapNames {a : Stmt} (hg : InjectiveOn a.assignedVars g) :
    (a.mapNames g).assignedVars.Perm (a.assignedVars.map g) := by
  unfold Stmt.assignedVars at *
  rw [List.perm_ext_iff_of_nodup (nodup_inOrder _) ((nodup_inOrder _).map_on hg)]
  simp [Stmt.targets_mapNames]

theorem Havocs.renamed {xs ys : List String} {p q : Pred} (h : Havocs xs p f₁ notes q f₁')
    (hm : Matches g l f₁ f₂) (hnodup : xs.Nodup) (hxs : ∀ x ∈ xs, x ∈ l) (hp : ∀ x ∈ p.names, x ∈ l)
    (hys : ys.Perm (xs.map g)) :
    ∃ g' notes' f₂', Havocs ys (p.mapNames g) f₂ notes' (q.mapNames g') f₂' ∧
      Note.Carries g l notes notes' g' f₁' f₂' := by
  obtain ⟨notes', q', f₂', h'⟩ := Havocs.exists ys (p.mapNames g) f₂
  have hnodup' : ys.Nodup := hys.nodup_iff.mpr (hnodup.map_on (hm.inj.mono hxs))
  have htaken : ∀ y ∈ ys, y ∈ f₂.taken := by
    intro y hy
    obtain ⟨x, hx, rfl⟩ := List.mem_map.mp (hys.mem_iff.mp hy)
    exact hm.right x (hxs x hx)
  obtain ⟨σ, hσ, rfl, hnames⟩ := h.moves hnodup fun x hx => hm.left x (hxs x hx)
  obtain ⟨τ, hτ, rfl, hnames'⟩ := h'.moves hnodup' htaken
  obtain ⟨g', hm', hold, hmove⟩ := hm.extend hσ hτ hxs hys
  refine ⟨g', notes', f₂', ?_, hold, by rwa [hnames], ?_, ?_, ?_⟩
  · rw [Pred.mapNames_moved fun x hx => hmove x (hp x hx)]
    exact h'
  · rw [h.filterMap_eq_nil fun _ _ _ => rfl, h'.filterMap_eq_nil fun _ _ _ => rfl]
    rfl
  · rw [h.filterMap_eq_nil fun _ _ _ => rfl, h'.filterMap_eq_nil fun _ _ _ => rfl]
  · have hmap : (xs.map σ).map g' = (xs.map g).map τ := by
      rw [List.map_map, List.map_map]
      exact List.map_congr_left fun x hx => hmove x (hxs x hx)
    rw [hnames, hnames', hmap]
    exact hys.map τ

end

/-- A derivation has a renamed copy, with a map that goes on where `g` stops. -/
theorem Stmt.Derives.renamed {c : Config} {a : Stmt} {level : Nat} {goesOn : Bool} {pre post : Pred}
    {f₁ f₁' f₂ : Fresh} {notes : List Note} {g : String → String} {l : List String} (sep : String)
    (h : a.Derives c level goesOn pre f₁ notes post f₁') (hm : Matches g l f₁ f₂)
    (ha : ∀ x ∈ a.names, x ∈ l) (hpre : ∀ x ∈ pre.names, x ∈ l) :
    ∃ g' notes' f₂', (a.mapNames g).Derives { c with separator := sep } level goesOn (pre.mapNames g) f₂
        notes' (post.mapNames g') f₂' ∧ Note.Carries g l notes notes' g' f₁' f₂' := by
  induction h generalizing g l f₂ with
  | @seq span a b level goesOn pre mid post f f₁ f₁' n₁ n₂ hda _ iha ihb =>
    rw [Stmt.names, List.forall_mem_append] at ha
    obtain ⟨g₁, n₁', f₂, hda', h₁⟩ := iha hm ha.1 hpre
    obtain ⟨hmid, hobl⟩ := hda.names_mem ha.1 hpre
    obtain ⟨g₂, n₂', f₂', hdb', h₂⟩ := ihb h₁.matched (fun x hx => List.mem_append_left _ (ha.2 x hx)) hmid
    rw [Stmt.mapNames_congr fun x hx => h₁.old x (ha.2 x hx)] at hdb'
    exact ⟨g₂, _, f₂', .seq hda' hdb', (h₁.append h₂ hobl).ofSeq goesOn span⟩
  | skip hl => exact ⟨g, _, f₂, .skip hl, .rule _ _ (.nil hm)⟩
  | block hl _ ih =>
    obtain ⟨g', n', f₂', hd', hn⟩ := ih hm ha hpre
    exact ⟨g', _, f₂', .block hl hd', hn.rule _ _⟩
  | @assign _ _ _ e _ _ _ _ _ _ hl hy ht =>
    rw [Stmt.names, List.forall_mem_cons, ← Term.names_ofExpr ht] at ha
    obtain ⟨g', y', f₂', hy', hpost, hn⟩ := hm.assign ha.1 hpre ha.2 hy e (e.mapNames g)
    refine ⟨g', _, f₂', ?_, hn.rule _ _⟩
    rw [hpost]
    exact .assign hl hy' (Term.ofExpr_mapNames_ok g ht)
  | @localInit _ _ _ e _ _ _ _ _ _ hl hy ht =>
    rw [Stmt.names, List.forall_mem_cons, Option.elim_some, ← Term.names_ofExpr ht] at ha
    obtain ⟨g', y', f₂', hy', hpost, hn⟩ := hm.assign ha.1 hpre ha.2 hy e (e.mapNames g)
    refine ⟨g', _, f₂', ?_, hn.rule _ _⟩
    rw [hpost]
    exact .localInit hl hy' (Term.ofExpr_mapNames_ok g ht)
  | @localAny _ _ _ _ _ pre _ _ hl hy =>
    rw [Stmt.names, List.forall_mem_cons] at ha
    obtain ⟨g', y', f₂', hy', hn, hmove⟩ := hm.allocate ha.1 hy (pre.mapNames g)
    refine ⟨g', _, f₂', ?_, hn.rule _ _⟩
    rw [Pred.mapNames_rename fun u hu => hmove u (hpre u hu)]
    exact .localAny hl hy'
  | @iteOutside span e a b guard level goesOn pre p q f f₁ f₁' n₁ n₂ hl hc hg hda _ iha ihb =>
    simp only [Stmt.names, List.forall_mem_append] at ha
    obtain ⟨⟨hge, hna⟩, hnb⟩ := ha
    obtain ⟨g₁, n₁', f₂, hda', h₁⟩ := iha hm hna hpre
    obtain ⟨hp, hobl⟩ := hda.names_mem hna hpre
    obtain ⟨g₂, n₂', f₂', hdb', h₂⟩ := ihb h₁.matched (fun x hx => List.mem_append_left _ (hnb x hx))
      (fun x hx => List.mem_append_left _ (hpre x hx))
    rw [Stmt.mapNames_congr fun x hx => h₁.old x (hnb x hx),
      Pred.mapNames_congr fun x hx => h₁.old x (hpre x hx)] at hdb'
    have hn := h₁.append h₂ hobl
    have hguard : guard.mapNames g₂ = guard.mapNames g :=
      Pred.mapNames_congr fun x hx => hn.old x (hge x (Pred.names_ofExpr hg ▸ hx))
    have hp' : p.mapNames g₂ = p.mapNames g₁ := Pred.mapNames_congr fun x hx => h₂.old x (hp x hx)
    refine ⟨g₂, _, f₂', ?_, (hn.read .boolean e (e.mapNames g)).rule .conditional span⟩
    simp only [Pred.mapNames_atSpan, Pred.mapNames_or, Pred.mapNames_and, Pred.mapNames_not, hguard, hp',
      ← Pred.span_mapNames (g := g) pre]
    exact .iteOutside hl hc (Pred.ofExpr_mapNames_ok g hg) hda' hdb'
  | @iteOnEntry span e a b guard level goesOn pre p q f f₁ f₁' n₁ n₂ hl hc hg hda _ iha ihb =>
    simp only [Stmt.names, List.forall_mem_append] at ha
    obtain ⟨⟨hge, hna⟩, hnb⟩ := ha
    have hgnames : ∀ x ∈ guard.names, x ∈ l := Pred.names_ofExpr hg ▸ hge
    have hyes : ∀ x ∈ ((guard.and pre).atSpan pre.span).names, x ∈ l := by
      simpa [or_imp, forall_and] using ⟨hgnames, hpre⟩
    have hno : ∀ x ∈ ((guard.not.and pre).atSpan pre.span).names, x ∈ l := by
      simpa [or_imp, forall_and] using ⟨hgnames, hpre⟩
    obtain ⟨g₁, n₁', f₂, hda', h₁⟩ := iha hm hna hyes
    obtain ⟨hp, hobl⟩ := hda.names_mem hna hyes
    obtain ⟨g₂, n₂', f₂', hdb', h₂⟩ := ihb h₁.matched (fun x hx => List.mem_append_left _ (hnb x hx))
      (fun x hx => List.mem_append_left _ (hno x hx))
    rw [Stmt.mapNames_congr fun x hx => h₁.old x (hnb x hx),
      Pred.mapNames_congr fun x hx => h₁.old x (hno x hx)] at hdb'
    have hn := h₁.append h₂ hobl
    have hp' : p.mapNames g₂ = p.mapNames g₁ := Pred.mapNames_congr fun x hx => h₂.old x (hp x hx)
    refine ⟨g₂, _, f₂', ?_, (hn.read .boolean e (e.mapNames g)).rule .conditional span⟩
    simp only [Pred.mapNames_atSpan, Pred.mapNames_or, Pred.mapNames_and, Pred.mapNames_not, hp',
      ← Pred.span_mapNames (g := g) pre] at hda' hdb' ⊢
    exact .iteOnEntry hl hc (Pred.ofExpr_mapNames_ok g hg) hda' hdb'
  | @assume span e _ _ _ _ _ hl hg =>
    refine ⟨g, _, f₂, ?_, .rule .assume span (.read .boolean e (e.mapNames g) (.nil hm))⟩
    rw [Pred.mapNames_and]
    exact .assume hl (Pred.ofExpr_mapNames_ok g hg)
  | @assert span e _ _ _ _ _ hl hg =>
    refine ⟨g, _, f₂, ?_, .rule .assert span (.read .boolean e (e.mapNames g) (.raised _ (.nil hm)))⟩
    rw [Obligation.mapNames, Pred.mapNames_implies, Pred.mapNames_and]
    exact .assert hl (Pred.ofExpr_mapNames_ok g hg)
  | @loop span e a inv guard level goesOn pre post frame f f₁ f₁' n₁ n₂ hl hg hda hf ih =>
    simp only [Stmt.names, List.forall_mem_append] at ha
    obtain ⟨⟨hge, hni⟩, hna⟩ := ha
    have hgnames : ∀ x ∈ guard.names, x ∈ l := Pred.names_ofExpr hg ▸ hge
    have hbody : ∀ x ∈ (inv.and guard).names, x ∈ l := by
      rw [Pred.names_and, List.forall_mem_append]
      exact ⟨hni, hgnames⟩
    have hxs : ∀ x ∈ a.assignedVars, x ∈ l := fun x hx => hna x (a.targets_subset_names (mem_inOrder.mp hx))
    obtain ⟨g₁, n₁', f₂, hda', h₁⟩ := ih hm hna hbody
    obtain ⟨hpost, hobl⟩ := hda.names_mem hna hbody
    -- the variables of the body are forgotten in another order on the right
    have hvars : (a.mapNames g).assignedVars.Perm (a.assignedVars.map g₁) := by
      rw [List.map_congr_left fun x hx => h₁.old x (hxs x hx)]
      exact Stmt.assignedVars_mapNames (hm.inj.mono hxs)
    obtain ⟨g₂, n₂', f₂', hf', h₂⟩ := hf.renamed h₁.matched (nodup_inOrder _)
      (fun x hx => List.mem_append_left _ (hxs x hx)) (fun x hx => List.mem_append_left _ (hpre x hx)) hvars
    rw [Pred.mapNames_congr fun x hx => h₁.old x (hpre x hx)] at hf'
    rw [Pred.mapNames_and] at hda'
    have hn := h₁.append (h₂.raised ⟨post.implies inv, span, .invariantKept⟩) hobl
    have hold {p : Pred} (hp : ∀ x ∈ p.names, x ∈ l) : p.mapNames g₂ = p.mapNames g :=
      Pred.mapNames_congr fun x hx => hn.old x (hp x hx)
    have hpost' : post.mapNames g₂ = post.mapNames g₁ :=
      Pred.mapNames_congr fun x hx => h₂.old x (hpost x hx)
    have hentry := hn.raised ⟨pre.implies inv, span, .invariantOnEntry⟩
    refine ⟨g₂, _, f₂', ?_, (hentry.read .boolean e (e.mapNames g)).rule .loop span⟩
    simp only [Obligation.mapNames, Pred.mapNames_implies, Pred.mapNames_atSpan, Pred.mapNames_and,
      Pred.mapNames_not, hpost', hold hpre, hold hni, hold hgnames, ← Pred.span_mapNames (g := g) pre]
    exact .loop hl (Pred.ofExpr_mapNames_ok g hg) hda' hf'
  | passedLoop hl hc => exact ⟨g, _, f₂, .passedLoop hl hc, .rule _ _ (.passed _ (.nil hm))⟩
  | passedCall hl hc => exact ⟨g, _, f₂, .passedCall hl hc, .rule _ _ (.passed _ (.nil hm))⟩

/-! ## Runs -/

def Transformed.mapNames (g : String → String) (t : Transformed) : Transformed :=
  { t with post := t.post.mapNames g, side := t.side.map (Obligation.mapNames g) }

theorem Matches.start (c c' : Config) {g : String → String} {l reserved reserved' : List String}
    (hg : InjectiveOn l g) (hl : ∀ x ∈ l, x ∈ reserved) (hr : ∀ x ∈ l.map g, x ∈ reserved') :
    Matches g l (c.start reserved) (c'.start reserved') := by
  refine ⟨hg, fun x hx => ?_, fun x hx => ?_⟩
  · exact Config.mem_start_taken.mpr (hl x hx)
  · exact Config.mem_start_taken.mpr (hr _ (List.mem_map_of_mem hx))

/-- **Names carry no meaning.** A run and the run of a renamed copy both succeed, or fail
with the same error up to the renaming, whatever separators they use and whatever other
names are reserved. If they succeed, the renaming goes on to the fresh names, one to one,
and takes the whole result of the first run to that of the second. -/
theorem Config.run_renaming (c : Config) (a : Stmt) (pre : Pred) (f : String → String)
    (sep sep' : String) (reserved reserved' : List String) (hf : InjectiveOn (a.names ++ pre.names) f)
    (hr : ∀ x ∈ a.names ++ pre.names, x ∈ reserved)
    (hr' : ∀ x ∈ (a.mapNames f).names ++ (pre.mapNames f).names, x ∈ reserved') :
    let first := { c with separator := sep }.run a pre reserved
    let second := { c with separator := sep' }.run (a.mapNames f) (pre.mapNames f) reserved'
    ((∃ t, first.result = .ok t) ↔ ∃ u, second.result = .ok u) ∧
    second.error? = first.error?.map (Error.mapNames f) ∧
    ∀ t, first.result = .ok t →
      ∃ g, (∀ x ∈ a.names ++ pre.names, g x = f x) ∧
        InjectiveOn (a.names ++ pre.names ++ first.allocated) g ∧
        (first.allocated.map g).Perm second.allocated ∧ second.result = .ok (t.mapNames g) := by
  intro first second
  have herror : second.error? = first.error?.map (Error.mapNames f) := by
    rw [run_error?, run_error?]
    exact a.firstFailure_mapNames f c.unsupported c.maxDepth
  refine ⟨?_, herror, fun t ht => ?_⟩
  · rw [← Outcome.error?_eq_none, ← Outcome.error?_eq_none, herror, Option.map_eq_none_iff]
  · obtain ⟨f₁', hd, hside, hsites⟩ := Config.derives_of_run ht
    rw [Stmt.names_mapNames, Pred.names_mapNames, ← List.map_append] at hr'
    have hstart := Matches.start { c with separator := sep } { c with separator := sep' } hf hr hr'
    obtain ⟨g, notes', f₂', hd', hn⟩ := hd.renamed sep' hstart
      (fun x hx => List.mem_append_left _ hx) (fun x hx => List.mem_append_right _ hx)
    have hsecond : second = _ := run_of_derives hd'
    refine ⟨g, hn.old, hn.matched.inj, ?_, ?_⟩
    · rw [hsecond]
      exact hn.names.symm
    · rw [hsecond, hn.obligations, hn.sites, ← hside, ← hsites]
      rfl

/-- Adds up the numbers below `n`. -/
def sumBelow : Stmt :=
  let i := Expr.ofName "i"
  let s := Expr.ofName "s"
  let inv := RelOp.ge.apply (.now "s") (.ofInt64 0)
  .whileDo (BinOp.apply (.rel .lt) i (.ofName "n")) (some inv)
    ((Stmt.set "s" (BinOp.apply (.arith .add) s i)).andThen
      (.set "i" (BinOp.apply (.arith .add) i (.ofInt64 1))))

def swapped (x : String) : String := if x = "i" then "s" else if x = "s" then "i" else x

theorem Config.run_renaming_swapped :
    let pre := RelOp.eq.apply (.now "i") (.now "s")
    let first := ({} : Config).run sumBelow pre ["i", "n", "s", "s_0"]
    let second :=
      { separator := "." : Config }.run (sumBelow.mapNames swapped) (pre.mapNames swapped) ["i", "n", "s"]
    first.allocated = ["s_1", "i_0", "i_1", "s_2"] ∧ second.allocated = ["i.0", "s.0", "i.1", "s.1"] ∧
      ∃ t g, first.result = .ok t ∧ second.result = .ok (t.mapNames g) ∧ g "i" = "s" ∧ g "s" = "i" := by
  intro pre first second
  obtain ⟨t, ht⟩ : ∃ t, first.result = .ok t := ⟨_, rfl⟩
  have hrun := Config.run_renaming {} sumBelow pre swapped "_" "." ["i", "n", "s", "s_0"] ["i", "n", "s"]
    (by decide) (by decide) (by decide)
  obtain ⟨g, hg, -, -, hu⟩ := hrun.2.2 t ht
  refine ⟨by decide, by decide, t, g, ht, hu, ?_, ?_⟩
  · exact hg "i" (by decide)
  · exact hg "s" (by decide)

end StrongestPost
