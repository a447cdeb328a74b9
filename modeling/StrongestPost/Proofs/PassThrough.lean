import StrongestPost.Proofs.Derivation
import StrongestPost.Proofs.FirstFailure

/-!
# Passing through and rejecting

A statement without a rule is a reason to stop, or a site to remember. The two policies
see the same visits. A run that passes statements through has one site for each of them,
in the order of the visits (`Stmt.Derives.sites_eq`); if there is none, every rule that
was applied is one of the rejecting policy too. Otherwise the rejecting run ends at the
first site, if nothing else stops both runs before.
-/

namespace StrongestPost

/-- The error in place of a site. -/
def Site.rejection (s : Site) : Error := .unsupported s.kind s.span

def Visit.site? : Visit → Option Site
  | noRule kind span => some ⟨kind, span⟩
  | level .. | term _ | pred _ => none

/-! ## Visits under the two policies -/

namespace Visit
variable {limit : UInt64} {v : Visit}

theorem failure?_reject_of_passes (h : v.failure? .passThrough limit = none) :
    v.failure? .reject limit = v.site?.map Site.rejection := by
  cases v with
  | level depth span => exact h
  | term e => exact h
  | pred e => exact h
  | noRule kind span => rfl

theorem failure?_reject_of_fails {e : Error} (h : v.failure? .passThrough limit = some e) :
    v.failure? .reject limit = some e := by
  cases v with
  | level depth span => exact h
  | term e => exact h
  | pred e => exact h
  | noRule kind span => cases h

/-- Where nothing stops the one policy, the first site stops the other. -/
theorem findSome?_reject_of_pass {vs : List Visit} (h : ∀ v ∈ vs, v.failure? .passThrough limit = none) :
    vs.findSome? (failure? .reject limit) = ((vs.filterMap site?).head?).map Site.rejection := by
  induction vs with
  | nil => rfl
  | cons v vs ih =>
    obtain ⟨hv, hvs⟩ := List.forall_mem_cons.mp h
    rw [List.findSome?_cons, failure?_reject_of_passes hv]
    cases hsite : v.site? with
    | none => rw [List.filterMap_cons_none hsite]; exact ih hvs
    | some s => rw [List.filterMap_cons_some hsite]; rfl

end Visit

/-! ## Sites of a derivation -/

section
variable {c : Config} {a : Stmt} {level : Nat} {goesOn : Bool} {pre post : Pred} {f f' : Fresh}
  {notes : List Note}

theorem Stmt.Derives.sites_eq (h : a.Derives c level goesOn pre f notes post f') :
    notes.filterMap Note.site? = (a.visits level).filterMap Visit.site? := by
  induction h with
  | seq _ _ iha ihb =>
    rw [Note.filterMap_ofSeq rfl, Stmt.visits, List.filterMap_append, List.filterMap_append, iha, ihb]
  | block _ _ ih => exact ih
  | iteOutside _ _ _ _ _ iha ihb | iteOnEntry _ _ _ _ _ iha ihb =>
    rw [List.filterMap_cons_none rfl, List.filterMap_cons_none rfl, Stmt.visits,
      List.filterMap_cons_none rfl, List.filterMap_cons_none rfl, List.filterMap_append,
      List.filterMap_append, iha, ihb]
  | loop _ _ _ hf ih =>
    rw [List.filterMap_cons_none rfl, List.filterMap_cons_none rfl, List.filterMap_cons_none rfl,
      Stmt.visits, List.filterMap_cons_none rfl, List.filterMap_cons_none rfl, List.filterMap_append, ih,
      List.filterMap_cons_none rfl, hf.filterMap_eq_nil fun _ _ _ => rfl, List.append_nil]
  | skip | assign | localInit | localAny | assume | assert | passedLoop | passedCall => rfl

/-- The policy matters only where a statement is passed through. -/
theorem Stmt.Derives.of_no_sites (h : a.Derives c level goesOn pre f notes post f')
    (hsites : notes.filterMap Note.site? = []) (policy : Unsupported) :
    a.Derives { c with unsupported := policy } level goesOn pre f notes post f' := by
  induction h with
  | seq _ _ iha ihb =>
    rw [Note.filterMap_ofSeq rfl, List.filterMap_append, List.append_eq_nil_iff] at hsites
    exact .seq (iha hsites.1) (ihb hsites.2)
  | skip hl => exact .skip hl
  | block hl _ ih => exact .block hl (ih hsites)
  | assign hl hy ht => exact .assign hl hy ht
  | localInit hl hy ht => exact .localInit hl hy ht
  | localAny hl hy => exact .localAny hl hy
  | iteOutside hl hc hg _ _ iha ihb =>
    rw [List.filterMap_cons_none rfl, List.filterMap_cons_none rfl, List.filterMap_append,
      List.append_eq_nil_iff] at hsites
    exact .iteOutside hl hc hg (iha hsites.1) (ihb hsites.2)
  | iteOnEntry hl hc hg _ _ iha ihb =>
    rw [List.filterMap_cons_none rfl, List.filterMap_cons_none rfl, List.filterMap_append,
      List.append_eq_nil_iff] at hsites
    exact .iteOnEntry hl hc hg (iha hsites.1) (ihb hsites.2)
  | assume hl hg => exact .assume hl hg
  | assert hl hg => exact .assert hl hg
  | loop hl hg _ hf ih =>
    rw [List.filterMap_cons_none rfl, List.filterMap_cons_none rfl, List.filterMap_cons_none rfl,
      List.filterMap_append, List.append_eq_nil_iff] at hsites
    exact .loop hl hg (ih hsites.1) hf
  | passedLoop | passedCall => cases hsites

end

theorem Stmt.no_sites_of_firstFailure {a : Stmt} {limit : UInt64} (h : a.firstFailure .reject limit = none) :
    (a.visits 0).filterMap Visit.site? = [] := by
  unfold Stmt.firstFailure at h
  rw [List.findSome?_eq_none_iff] at h
  rw [List.filterMap_eq_nil_iff]
  intro v hv
  cases v with
  | noRule kind span => cases h _ hv
  | level | term | pred => rfl

/-! ## Runs -/

namespace Config

/-- A run that passes nothing through is the same under every policy, to the last note. -/
theorem run_policy {c : Config} {a : Stmt} {pre : Pred} {reserved : List String} {t : Transformed}
    (h : (c.run a pre reserved).result = .ok t) (ht : t.unsound = []) (policy : Unsupported) :
    { c with unsupported := policy }.run a pre reserved = c.run a pre reserved := by
  obtain ⟨f', hd, -, hunsound⟩ := derives_of_run h
  have hother := hd.of_no_sites (hunsound ▸ ht) policy
  exact (run_of_derives hother).trans (run_of_derives hd).symm

theorem unsound_of_run {c : Config} {a : Stmt} {pre : Pred} {reserved : List String} {t : Transformed}
    (h : (c.run a pre reserved).result = .ok t) : t.unsound = (a.visits 0).filterMap Visit.site? := by
  obtain ⟨f', hd, -, hunsound⟩ := derives_of_run h
  rw [hunsound, hd.sites_eq]

theorem firstFailure_of_run {c : Config} {a : Stmt} {pre : Pred} {reserved : List String} {t : Transformed}
    (h : (c.run a pre reserved).result = .ok t) : a.firstFailure c.unsupported c.maxDepth = none := by
  rw [← c.run_error? a pre reserved]
  exact Outcome.error?_eq_none.mpr ⟨t, h⟩

/-- **Policies.** A run is accepted by the rejecting policy if and only if the other one
accepts it without a site, and then the two agree. With sites, the rejecting run ends at
the first of them. Where the run that passes through fails, the rejecting one fails at the
same visit or, before it, at a statement without a rule. -/
theorem transform_policies (c : Config) (a : Stmt) (pre : Pred) :
    let rejecting := { c with unsupported := .reject }
    let passing := { c with unsupported := .passThrough }
    (∀ t, (rejecting.transform a pre).result = .ok t ↔
      (passing.transform a pre).result = .ok t ∧ t.unsound = []) ∧
    (∀ t site sites, (passing.transform a pre).result = .ok t → t.unsound = site :: sites →
      (rejecting.transform a pre).result = .error (.unsupported site.kind site.span)) ∧
    ∀ e, (passing.transform a pre).result = .error e →
      ∃ earlier v later, a.visits 0 = earlier ++ v :: later ∧
        (∀ w ∈ earlier, w.failure? .passThrough c.maxDepth = none) ∧
        v.failure? .passThrough c.maxDepth = some e ∧
        ((rejecting.transform a pre).result = .error e ∨
          ∃ kind span, .noRule kind span ∈ earlier ∧
            (rejecting.transform a pre).result = .error (.unsupported kind span)) := by
  intro rejecting passing
  have herror : (rejecting.transform a pre).error? = a.firstFailure .reject c.maxDepth :=
    rejecting.run_error? a pre _
  refine ⟨fun t => ⟨fun h => ?_, fun h => ?_⟩, fun t site sites h hsites => ?_, fun e h => ?_⟩
  · have hnone : t.unsound = [] :=
      (unsound_of_run h).trans (Stmt.no_sites_of_firstFailure (firstFailure_of_run h))
    exact ⟨(congrArg Outcome.result (run_policy h hnone .passThrough)).trans h, hnone⟩
  · exact (congrArg Outcome.result (run_policy h.1 h.2 .reject)).trans h.1
  · have hpasses := List.findSome?_eq_none_iff.mp (firstFailure_of_run h)
    rw [unsound_of_run h] at hsites
    rw [← Outcome.error?_eq_some, herror, Stmt.firstFailure, Visit.findSome?_reject_of_pass hpasses, hsites]
    rfl
  · have hfirst : a.firstFailure .passThrough c.maxDepth = some e :=
      (passing.run_error? a pre _).symm.trans (Outcome.error?_eq_some.mpr h)
    obtain ⟨earlier, v, later, hvisits, hv, hearlier⟩ := List.findSome?_eq_some_iff.mp hfirst
    refine ⟨earlier, v, later, hvisits, hearlier, hv, ?_⟩
    simp only [← Outcome.error?_eq_some, herror]
    rw [Stmt.firstFailure, hvisits, List.findSome?_append, Visit.findSome?_reject_of_pass hearlier,
      List.findSome?_cons, Visit.failure?_reject_of_fails hv]
    cases hhead : (earlier.filterMap Visit.site?).head? with
    | none => exact .inl rfl
    | some site =>
      obtain ⟨w, hw, hsite⟩ := List.mem_filterMap.mp (List.mem_of_head? hhead)
      cases w with
      | noRule kind span => cases hsite; exact .inr ⟨kind, span, hw, rfl⟩
      | level | term | pred => cases hsite

theorem transform_policies_twoSites :
    let a := Stmt.chain [.set "x" (.ofInt64 1), .call ⟨2, 3⟩ "log" [.ofName "x"],
      .loop ⟨3, 3⟩ (.ofBool true) none .nop]
    let pre := Pred.ofBool true
    ∃ t, (({ unsupported := .passThrough } : Config).transform a pre).result = .ok t ∧
      t.unsound = [⟨.call, ⟨2, 3⟩⟩, ⟨.loop, ⟨3, 3⟩⟩] ∧
      (({ unsupported := .reject } : Config).transform a pre).result = .error (.unsupported .call ⟨2, 3⟩) := by
  intro a pre
  obtain ⟨t, ht⟩ : ∃ t, (({ unsupported := .passThrough } : Config).transform a pre).result = .ok t := ⟨_, rfl⟩
  have hunsound : t.unsound = [⟨.call, ⟨2, 3⟩⟩, ⟨.loop, ⟨3, 3⟩⟩] := by
    cases ht
    rfl
  exact ⟨t, ht, hunsound, (transform_policies {} a pre).2.1 t _ _ ht hunsound⟩

end Config

end StrongestPost
