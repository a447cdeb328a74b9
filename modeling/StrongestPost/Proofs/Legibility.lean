import StrongestPost.Proofs.Hygiene
import StrongestPost.Proofs.Unambiguous

/-!
# Accepted configurations keep names plain

A configuration is accepted only if its separator has no blanks and no brackets in it. The
fresh names of a run are then as plain as the names they were made from, so the results for
a program with plain names are among the predicates that can be told by their texts.
-/

namespace StrongestPost

/-! ## Accepted configurations -/

theorem Generator.map_ofConfig (c : Config) :
    (Generator.ofConfig c).map Generator.config = c.validate.map fun _ => c := by
  unfold ofConfig
  split
  · rename_i h
    simp only [h]
    rfl
  · rename_i e h
    simp only [h]
    rfl

theorem Config.inName_of_validate {c : Config} (h : c.validate = .ok ()) : c.separator.toList.all inName := by
  have hgood : ¬ c.separator.toList.any fun x => isBlank x || x = '(' || x = ')' := by
    intro hbad
    have hne : c.separator ≠ "" := by
      intro e
      rw [e] at hbad
      cases hbad
    simp [validate, fault?, hne, hbad] at h
  simpa [inName, and_assoc] using hgood

/-! ## Fresh names -/

theorem inName_of_isDigit {x : Char} (hx : x.isDigit) : inName x := by
  have hrange : 48 ≤ x.toNat ∧ x.toNat ≤ 57 := by
    simpa [Char.isDigit, UInt32.le_iff_toNat_le] using hx
  have hblank : isBlank x = false := by
    simp [isBlank, blankRanges]
    omega
  have hopen : x ≠ '(' := fun e => absurd hx (by rw [e]; decide)
  have hclose : x ≠ ')' := fun e => absurd hx (by rw [e]; decide)
  simp [inName, hblank, hopen, hclose]

theorem PlainName.numbered {base separator : String} (hbase : PlainName base)
    (hsep : separator.toList.all inName) (n : Nat) : PlainName (base ++ separator ++ toString n) := by
  have hdigits : ∀ x ∈ Nat.toDigits 10 n, inName x := fun x hx => inName_of_isDigit (isDigit_of_mem x hx)
  refine ⟨?_, ?_⟩
  · cases hd : base.toList with
    | nil =>
      rw [PlainName, hd] at hbase
      cases hbase.1
    | cons x xs =>
      rw [PlainName, hd] at hbase
      simpa [hd] using hbase.1
  · simpa [hbase.2, hsep] using hdigits

theorem Generator.closedUnder_plainName (g : Generator) {a : Stmt} {pre post : Pred} {reserved : List String}
    {notes : List Note} {f : Fresh}
    (h : a.Derives g.config 0 false pre (g.config.start reserved) notes post f)
    (ha : ∀ x ∈ a.names, PlainName x) : ClosedUnder notes fun k => PlainName k.name := by
  intro base name avoid hn k hk
  obtain ⟨⟨n, rfl⟩, -⟩ := h.leads.name_spec hn
  have hbase : PlainName base := ha base (Stmt.targets_subset_names (h.base_mem hn))
  unfold Key.rename
  by_cases hb : k.name = base
  · rw [if_pos hb]
    exact hbase.numbered (Config.inName_of_validate g.accepted) n
  · rw [if_neg hb]
    exact hk

/-! ## Obligations -/

theorem Generator.run_legible (g : Generator) {a : Stmt} {pre : Pred} {reserved : List String} {t : Transformed}
    (ha : ∀ x ∈ a.names, PlainName x) (hpre : pre.Legible)
    (h : (g.config.run a pre reserved).result = .ok t) :
    t.post.Legible ∧ ∀ o ∈ t.side, o.pred.Legible := by
  obtain ⟨f', hd, hside, -⟩ := Config.derives_of_run h
  obtain ⟨hpost, hobl⟩ := hd.speaksOf (g.closedUnder_plainName hd ha)
    (fun k hk => ha _ (a.map_name_keys ▸ List.mem_map_of_mem hk)) hpre
  refine ⟨hpost, fun o ho => ?_⟩
  rw [hside] at ho
  exact hobl o (mem_obligations.mp ho)

/-- The obligations of a procedure with plain names have plain names only. -/
theorem Generator.generateProcedure_legible (g : Generator) {p : Procedure} {r : Report}
    (hp : ∀ x ∈ p.vars, PlainName x) (h : (g.config.generateProcedure p).result = .ok r) :
    ∀ o ∈ r.obligations, o.pred.Legible := by
  obtain ⟨t, ht, hmain, hside, -⟩ := Config.run_of_generateProcedure h
  simp only [Procedure.vars, mem_inOrder, List.forall_mem_append] at hp
  obtain ⟨⟨hbody, hpre⟩, hpost⟩ := hp
  obtain ⟨hend, hraised⟩ := g.run_legible hbody (Pred.legible_iff.mpr hpre) ht
  intro o ho
  rw [Report.obligations, List.mem_append, List.mem_singleton] at ho
  rcases ho with ho | rfl
  · exact hraised o (hside ▸ ho)
  · rw [hmain]
    exact Pred.legible_conn.mpr ⟨hend, Pred.legible_iff.mpr hpost⟩

end StrongestPost
