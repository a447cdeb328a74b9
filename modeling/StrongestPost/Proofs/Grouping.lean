import StrongestPost.Proofs.Derivation
import StrongestPost.Proofs.FirstFailure

/-!
# Grouping

How a program is grouped into sequences and blocks makes no difference. The steps of a
statement are what is left when blocks are opened, skips are dropped and sequences are
read from left to right, inside of branches and of loop bodies too. A derivation for a
statement is one for the chain of its steps, with the same names, obligations and sites
(`Stmt.Derives.steps`); only the notes of the rules differ. A walk is deterministic, so
statements with the same steps have the same result wherever both succeed.

Opening a block lowers a level, and a walk that was too deep may then succeed. Where only
the nesting of sequences differs nothing of the kind can happen, and errors agree too.
-/

namespace StrongestPost

namespace Stmt

def steps : Stmt → List Stmt
  | seq _ a b => a.steps ++ b.steps
  | skip _ => []
  | block _ a => a.steps
  | ite s c a b => [ite s c (chain a.steps) (chain b.steps)]
  | loop s c i a => [loop s c i (chain a.steps)]
  | assign s x e => [assign s x e]
  | localDef s x e => [localDef s x e]
  | assert s c => [assert s c]
  | assume s c => [assume s c]
  | call s f es => [call s f es]

/-- The statements of a sequence from left to right, however it is nested. Blocks and skips stay. -/
def parts : Stmt → List Stmt
  | seq _ a b => a.parts ++ b.parts
  | skip s => [skip s]
  | block s a => [block s (chain a.parts)]
  | ite s c a b => [ite s c (chain a.parts) (chain b.parts)]
  | loop s c i a => [loop s c i (chain a.parts)]
  | assign s x e => [assign s x e]
  | localDef s x e => [localDef s x e]
  | assert s c => [assert s c]
  | assume s c => [assume s c]
  | call s f es => [call s f es]

/-! ## Chains -/

section
variable {β : Type} {g : Stmt → List β}

/-- What reads sequences from left to right reads the members of a chain in order. -/
theorem chain_eq_flatMap (hseq : ∀ s a b, g (seq s a b) = g a ++ g b) {l : List Stmt}
    (hl : l = [] → g nop = []) : g (chain l) = l.flatMap g := by
  fun_induction chain l with
  | case1 => exact hl rfl
  | case2 a => simp
  | case3 a b l ih => rw [andThen, hseq, ih (by simp)]; rfl

/-- What overlooks skips and blocks as well does not tell a statement from its steps. -/
theorem chain_steps_eq (hseq : ∀ s a b, g (seq s a b) = g a ++ g b) (hskip : ∀ s, g (skip s) = [])
    (hblock : ∀ s a, g (block s a) = g a)
    (hite : ∀ s c {a a' b b'}, g a = g a' → g b = g b' → g (ite s c a b) = g (ite s c a' b'))
    (hloop : ∀ s c i {a a'}, g a = g a' → g (loop s c i a) = g (loop s c i a')) (a : Stmt) :
    g (chain a.steps) = g a := by
  have hchain (l : List Stmt) : g (chain l) = l.flatMap g := chain_eq_flatMap hseq fun _ => hskip _
  induction a with
  | seq s a b iha ihb =>
    rw [steps, hchain, List.flatMap_append, ← hchain, ← hchain, iha, ihb, hseq]
  | skip s => rw [hskip]; exact hskip _
  | block s a ih => rw [hblock]; exact ih
  | ite s c a b iha ihb => exact hite s c iha ihb
  | loop s c i a ih => exact hloop s c i ih
  | assign | localDef | assert | assume | call => rfl

end

theorem names_steps (a : Stmt) : (chain a.steps).names = a.names :=
  chain_steps_eq (fun _ _ _ => rfl) (fun _ => rfl) (fun _ _ => rfl)
    (fun _ _ _ _ _ _ ha hb => by rw [names, names, ha, hb]) (fun _ _ _ _ _ ha => by rw [names, names, ha]) a

theorem targets_steps (a : Stmt) : (chain a.steps).targets = a.targets :=
  chain_steps_eq (fun _ _ _ => rfl) (fun _ => rfl) (fun _ _ => rfl)
    (fun _ _ _ _ _ _ ha hb => by rw [targets, targets, ha, hb])
    (fun _ _ _ _ _ ha => by rw [targets, targets, ha]) a

theorem parts_ne_nil (a : Stmt) : a.parts ≠ [] := by
  induction a with
  | seq _ a b iha _ => simp [parts, iha]
  | _ => simp [parts]

theorem visits_parts (a : Stmt) (n : Nat) : (chain a.parts).visits n = a.visits n := by
  have hchain (a : Stmt) (n : Nat) : (chain a.parts).visits n = a.parts.flatMap (visits · n) :=
    chain_eq_flatMap (g := (visits · n)) (fun _ _ _ => rfl) fun h => absurd h a.parts_ne_nil
  induction a generalizing n with
  | seq _ a b iha ihb => rw [hchain, parts, List.flatMap_append, ← hchain, ← hchain, iha, ihb, visits]
  | block s a ih => simp [parts, chain, visits, ih]
  | ite s c a b iha ihb => simp [parts, chain, visits, iha, ihb]
  | loop s c i a ih => cases i <;> simp [parts, chain, visits, ih]
  | skip | assign | localDef | assert | assume | call => rfl

/-- The steps can be read off the parts. -/
theorem steps_parts (a : Stmt) : (chain a.parts).steps = a.steps := by
  have hchain (l : List Stmt) : (chain l).steps = l.flatMap steps :=
    chain_eq_flatMap (fun _ _ _ => rfl) fun _ => rfl
  induction a with
  | seq _ a b iha ihb => rw [hchain, parts, List.flatMap_append, ← hchain, ← hchain, iha, ihb, steps]
  | block s a ih => exact ih
  | ite s c a b iha ihb => simp [parts, chain, steps, iha, ihb]
  | loop s c i a ih => simp [parts, chain, steps, ih]
  | skip | assign | localDef | assert | assume | call => rfl

end Stmt

/-! ## What a walk does, whichever rules it applies -/

def Note.isRule : Note → Bool
  | rule .. => true
  | _ => false

def Note.effects (notes : List Note) : List Note := notes.filter (!·.isRule)

theorem Note.filterMap_effects {α : Type} {g : Note → Option α} (hg : ∀ k s, g (.rule k s) = none)
    (notes : List Note) : (Note.effects notes).filterMap g = notes.filterMap g := by
  induction notes with
  | nil => rfl
  | cons n notes ih =>
    by_cases hn : n.isRule
    · cases n with
      | rule k s => rw [List.filterMap_cons_none (hg k s), ← ih]; rfl
      | _ => cases hn
    · have hkeep : Note.effects (n :: notes) = n :: Note.effects notes :=
        List.filter_cons_of_pos (by simpa using hn)
      rw [hkeep, List.filterMap_cons, List.filterMap_cons, ih]

@[simp] theorem Note.effects_append (n₁ n₂ : List Note) :
    Note.effects (n₁ ++ n₂) = Note.effects n₁ ++ Note.effects n₂ :=
  List.filter_append ..

@[simp] theorem Note.effects_rule (k : Stmt.Kind) (s : Span) (notes : List Note) :
    Note.effects (.rule k s :: notes) = Note.effects notes := rfl

@[simp] theorem Note.effects_read (k : ValueSort) (e : Expr) (notes : List Note) :
    Note.effects (.read k e :: notes) = .read k e :: Note.effects notes := rfl

@[simp] theorem Note.effects_raised (o : Obligation) (notes : List Note) :
    Note.effects (.raised o :: notes) = .raised o :: Note.effects notes := rfl

theorem Note.effects_seq (goesOn : Bool) (span : Span) (n₁ n₂ : List Note) :
    Note.effects (Note.ofSeq goesOn span ++ (n₁ ++ n₂)) = Note.effects n₁ ++ Note.effects n₂ := by
  rw [← effects_append]
  cases goesOn <;> rfl

namespace Stmt

/-- A derivation with these effects exists, on its own or as the rest of a sequence. -/
def Yields (c : Config) (a : Stmt) (level : Nat) (pre : Pred) (f : Fresh) (effects : List Note)
    (post : Pred) (f' : Fresh) : Prop :=
  ∀ goesOn, ∃ notes, a.Derives c level goesOn pre f notes post f' ∧ Note.effects notes = effects

variable {c : Config} {a b : Stmt} {level : Nat} {pre mid post : Pred} {f f₁ f' : Fresh}
  {notes n₁ n₂ : List Note}

theorem Derives.lower {goesOn : Bool} (h : a.Derives c level goesOn pre f notes post f') {level' : Nat}
    (hl : level' ≤ level) : a.Derives c level' goesOn pre f notes post f' := by
  induction h generalizing level' with
  | seq _ _ iha ihb => exact .seq (iha hl) (ihb hl)
  | skip h => exact .skip (by omega)
  | block h _ ih => exact .block (by omega) (ih (by omega))
  | assign h hy ht => exact .assign (by omega) hy ht
  | localInit h hy ht => exact .localInit (by omega) hy ht
  | localAny h hy => exact .localAny (by omega) hy
  | iteOutside h hc hg _ _ iha ihb => exact .iteOutside (by omega) hc hg (iha (by omega)) (ihb (by omega))
  | iteOnEntry h hc hg _ _ iha ihb => exact .iteOnEntry (by omega) hc hg (iha (by omega)) (ihb (by omega))
  | assume h hg => exact .assume (by omega) hg
  | assert h hg => exact .assert (by omega) hg
  | loop h hg _ hf ih => exact .loop (by omega) hg (ih (by omega)) hf
  | passedLoop h hc => exact .passedLoop (by omega) hc
  | passedCall h hc => exact .passedCall (by omega) hc

theorem Derives.yields {goesOn : Bool} (h : a.Derives c level goesOn pre f notes post f') :
    a.Yields c level pre f (Note.effects notes) post f' := by
  intro goesOn'
  cases h with
  | seq ha hb => exact ⟨_, .seq ha hb, by rw [Note.effects_seq, Note.effects_seq]⟩
  | skip hl => exact ⟨_, .skip hl, rfl⟩
  | block hl h => exact ⟨_, .block hl h, rfl⟩
  | assign hl hy ht => exact ⟨_, .assign hl hy ht, rfl⟩
  | localInit hl hy ht => exact ⟨_, .localInit hl hy ht, rfl⟩
  | localAny hl hy => exact ⟨_, .localAny hl hy, rfl⟩
  | iteOutside hl hc hg ha hb => exact ⟨_, .iteOutside hl hc hg ha hb, rfl⟩
  | iteOnEntry hl hc hg ha hb => exact ⟨_, .iteOnEntry hl hc hg ha hb, rfl⟩
  | assume hl hg => exact ⟨_, .assume hl hg, rfl⟩
  | assert hl hg => exact ⟨_, .assert hl hg, rfl⟩
  | loop hl hg h hf => exact ⟨_, .loop hl hg h hf, rfl⟩
  | passedLoop hl hc => exact ⟨_, .passedLoop hl hc, rfl⟩
  | passedCall hl hc => exact ⟨_, .passedCall hl hc, rfl⟩

theorem Yields.seq (span : Span) (ha : a.Yields c level pre f n₁ mid f₁)
    (hb : b.Yields c level mid f₁ n₂ post f') :
    (Stmt.seq span a b).Yields c level pre f (n₁ ++ n₂) post f' := by
  intro goesOn
  obtain ⟨m₁, hda, rfl⟩ := ha false
  obtain ⟨m₂, hdb, rfl⟩ := hb true
  exact ⟨_, .seq hda hdb, Note.effects_seq ..⟩

theorem Yields.nop (hl : level < c.maxDepth.toNat) : Stmt.nop.Yields c level pre f [] pre f :=
  fun _ => ⟨_, .skip hl, rfl⟩

theorem Yields.of_nop (h : Stmt.nop.Yields c level pre f notes post f') :
    notes = [] ∧ post = pre ∧ f' = f := by
  obtain ⟨n, hd, rfl⟩ := h false
  cases hd
  exact ⟨rfl, rfl, rfl⟩

theorem Yields.chain_append {l l' : List Stmt} (h : (chain l).Yields c level pre f n₁ mid f₁)
    (h' : (chain l').Yields c level mid f₁ n₂ post f') :
    (chain (l ++ l')).Yields c level pre f (n₁ ++ n₂) post f' := by
  induction l generalizing pre f n₁ with
  | nil =>
    obtain ⟨rfl, rfl, rfl⟩ := h.of_nop
    exact h'
  | cons a l ih =>
    cases l with
    | nil =>
      cases l' with
      | nil =>
        obtain ⟨rfl, rfl, rfl⟩ := h'.of_nop
        rw [List.append_nil, List.append_nil]
        exact h
      | cons b l' => exact h.seq a.span h'
    | cons b l =>
      obtain ⟨n, hd, rfl⟩ := h false
      cases hd with
      | seq ha hl =>
        rw [Note.effects_seq, List.append_assoc]
        exact ha.yields.seq a.span (ih hl.yields)

/-- A derivation for a statement is one for the chain of its steps. -/
theorem Derives.steps {goesOn : Bool} (h : a.Derives c level goesOn pre f notes post f') :
    (chain a.steps).Yields c level pre f (Note.effects notes) post f' := by
  induction h with
  | seq _ _ iha ihb =>
    rw [Note.effects_seq]
    exact iha.chain_append ihb
  | skip hl => exact .nop hl
  | @block _ a level _ _ _ _ _ _ _ _ ih =>
    intro goesOn
    obtain ⟨n, hd, hn⟩ := ih goesOn
    exact ⟨n, hd.lower (Nat.le_succ level), hn⟩
  | iteOutside hl hc hg _ _ iha ihb =>
    obtain ⟨n₁, ha, hn₁⟩ := iha false
    obtain ⟨n₂, hb, hn₂⟩ := ihb false
    exact fun _ => ⟨_, .iteOutside hl hc hg ha hb, by simp [hn₁, hn₂]⟩
  | iteOnEntry hl hc hg _ _ iha ihb =>
    obtain ⟨n₁, ha, hn₁⟩ := iha false
    obtain ⟨n₂, hb, hn₂⟩ := ihb false
    exact fun _ => ⟨_, .iteOnEntry hl hc hg ha hb, by simp [hn₁, hn₂]⟩
  | @loop _ _ a _ _ _ _ _ _ _ _ _ _ _ _ hl hg _ hf ih =>
    obtain ⟨n, hd, hn⟩ := ih false
    have hvars : (chain a.steps).assignedVars = a.assignedVars := by
      rw [assignedVars, targets_steps, assignedVars]
    rw [← hvars] at hf
    exact fun _ => ⟨_, .loop hl hg hd hf, by simp [hn]⟩
  | assign hl hy ht => exact fun _ => ⟨_, .assign hl hy ht, rfl⟩
  | localInit hl hy ht => exact fun _ => ⟨_, .localInit hl hy ht, rfl⟩
  | localAny hl hy => exact fun _ => ⟨_, .localAny hl hy, rfl⟩
  | assume hl hg => exact fun _ => ⟨_, .assume hl hg, rfl⟩
  | assert hl hg => exact fun _ => ⟨_, .assert hl hg, rfl⟩
  | passedLoop hl hc => exact fun _ => ⟨_, .passedLoop hl hc, rfl⟩
  | passedCall hl hc => exact fun _ => ⟨_, .passedCall hl hc, rfl⟩

theorem Yields.unique {post' : Pred} {f₁' : Fresh} (h : a.Yields c level pre f n₁ post f')
    (h' : a.Yields c level pre f n₂ post' f₁') : n₁ = n₂ ∧ post = post' := by
  obtain ⟨m₁, hd₁, rfl⟩ := h false
  obtain ⟨m₂, hd₂, rfl⟩ := h' false
  have hsame := hd₁.gives.symm.trans hd₂.gives
  cases hsame
  exact ⟨rfl, rfl⟩

end Stmt

/-! ## Runs -/

theorem Config.transform_eq_of_steps {c : Config} {a b : Stmt} {pre : Pred} {t u : Transformed}
    (hab : a.steps = b.steps) (ht : (c.transform a pre).result = .ok t)
    (hu : (c.transform b pre).result = .ok u) : t = u := by
  have hnames : a.names = b.names := by rw [← a.names_steps, hab, b.names_steps]
  obtain ⟨f₁, hda, hside, hsites⟩ := Config.derives_of_run ht
  obtain ⟨f₂, hdb, hside', hsites'⟩ := Config.derives_of_run hu
  generalize (c.run a pre (inOrder (a.names ++ pre.names))).notes = n at hda hside hsites
  have ha := hda.steps
  rw [hab, hnames] at ha
  obtain ⟨heff, hpost⟩ := ha.unique hdb.steps
  -- neither obligations nor sites are found among the notes of the rules
  have hobl := congrArg (List.filterMap Note.obligation?) heff
  have hpassed := congrArg (List.filterMap Note.site?) heff
  rw [Note.filterMap_effects (fun _ _ => rfl), Note.filterMap_effects (fun _ _ => rfl)] at hobl hpassed
  rw [← hside, ← hside'] at hobl
  rw [← hsites, ← hsites'] at hpassed
  cases t
  cases u
  rw [Transformed.mk.injEq]
  exact ⟨hpost, hobl, hpassed⟩

/-- **Grouping.** Statements that have the same steps have the same result, if both
succeed: the same postcondition, obligations and sites, with the same names and
positions. Where sequences are only nested differently the errors are the same too. -/
theorem Config.transform_regroup (c : Config) (a b : Stmt) (pre : Pred) :
    (a.steps = b.steps → ∀ t u, (c.transform a pre).result = .ok t →
      (c.transform b pre).result = .ok u → t = u) ∧
    (a.parts = b.parts → (c.transform a pre).result = (c.transform b pre).result) := by
  refine ⟨fun hab t u ht hu => c.transform_eq_of_steps hab ht hu, fun hab => ?_⟩
  have hsteps : a.steps = b.steps := by rw [← a.steps_parts, hab, b.steps_parts]
  have hvisits : a.visits 0 = b.visits 0 := by rw [← a.visits_parts, hab, b.visits_parts]
  have herror : (c.transform a pre).error? = (c.transform b pre).error? := by
    rw [transform, transform, run_error?, run_error?, Stmt.firstFailure, hvisits, Stmt.firstFailure]
  rcases Outcome.same_error_or_ok herror with ⟨e, ha, hb⟩ | ⟨t, u, ha, hb⟩
  · rw [ha, hb]
  · rw [ha, hb, transform_eq_of_steps hsteps ha hb]

def increment : Stmt := .set "x" (BinOp.apply (.arith .add) (.ofName "x") (.ofInt64 1))

def checkPositive : Stmt := .ensure (BinOp.apply (.rel .gt) (.ofName "x") (.ofInt64 0))

theorem Config.transform_regroup_increment :
    let pre := RelOp.ge.apply (.now "x") (.ofInt64 0)
    let leftNested := (increment.andThen checkPositive).andThen increment
    let rightNested := increment.andThen (checkPositive.andThen increment)
    let grouped := Stmt.nop.andThen (increment.andThen (checkPositive.andThen increment).enclose)
    ∃ t, (({} : Config).transform leftNested pre).result = .ok t ∧
      (({} : Config).transform rightNested pre).result = .ok t ∧
      (({} : Config).transform grouped pre).result = .ok t := by
  intro pre leftNested rightNested grouped
  obtain ⟨t, ht⟩ : ∃ t, (({} : Config).transform leftNested pre).result = .ok t := ⟨_, rfl⟩
  obtain ⟨u, hu⟩ : ∃ u, (({} : Config).transform grouped pre).result = .ok u := ⟨_, rfl⟩
  have hnested := (Config.transform_regroup {} leftNested rightNested pre).2 rfl
  have hgrouped := (Config.transform_regroup {} leftNested grouped pre).1 rfl t u ht hu
  exact ⟨t, ht, hnested ▸ ht, hgrouped ▸ hu⟩

end StrongestPost
