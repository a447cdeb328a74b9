import StrongestPost.Proofs.Derivation

/-!
# Remarks in the order of the program

`Stmt.remarks` reads a statement from left to right and lists what has to be said about it:
a warning for every assert, two for every loop with an invariant, the second when the body
is done, and every statement that there is no rule for. A run raises obligations and
records sites in this order, one for each remark, whatever is known where it starts
(`Stmt.Derives.remarks_eq`).
-/

namespace StrongestPost

inductive Remark where
  | warning (span : Span) (message : String)
  | noRule (site : Site)

def Remark.warning? : Remark → Option (Span × String)
  | warning span message => some (span, message)
  | noRule _ => none

def Remark.site? : Remark → Option Site
  | warning .. => none
  | noRule site => some site

/-- A loop without an invariant is not entered. -/
def Stmt.remarks : Stmt → List Remark
  | seq _ a b | ite _ _ a b => a.remarks ++ b.remarks
  | block _ a => a.remarks
  | assert s _ => [.warning s "assertion might not hold"]
  | loop s _ (some _) a =>
    .warning s "loop invariant might not hold on entry" ::
      (a.remarks ++ [.warning s "loop invariant might not be maintained"])
  | loop s _ none _ => [.noRule ⟨.loop, s⟩]
  | call s _ _ => [.noRule ⟨.call, s⟩]
  | skip _ | assign .. | localDef .. | assume .. => []

/-! ## Notes and remarks -/

def Note.remark? : Note → Option Remark
  | raised o => some (.warning o.span o.concern.text)
  | passed site => some (.noRule site)
  | rule .. | read .. | allocated .. | generated .. => none

theorem Note.warnings_eq (notes : List Note) :
    (notes.filterMap Note.obligation?).map (fun o => (o.span, o.concern.text)) =
      (notes.filterMap Note.remark?).filterMap Remark.warning? := by
  rw [List.map_filterMap, List.filterMap_filterMap]
  congr 1
  funext n
  cases n <;> rfl

theorem Note.sites_eq (notes : List Note) :
    notes.filterMap Note.site? = (notes.filterMap Note.remark?).filterMap Remark.site? := by
  rw [List.filterMap_filterMap]
  congr 1
  funext n
  cases n <;> rfl

/-! ## Derivations -/

section
variable {c : Config} {a : Stmt} {level : Nat} {goesOn : Bool} {pre post : Pred} {f f' : Fresh}
  {notes : List Note}

theorem Stmt.Derives.remarks_eq (h : a.Derives c level goesOn pre f notes post f') :
    notes.filterMap Note.remark? = a.remarks := by
  induction h with
  | seq _ _ iha ihb => rw [Note.filterMap_ofSeq rfl, List.filterMap_append, iha, ihb, Stmt.remarks]
  | block _ _ ih => exact ih
  | iteOutside _ _ _ _ _ iha ihb | iteOnEntry _ _ _ _ _ iha ihb =>
    rw [List.filterMap_cons_none rfl, List.filterMap_cons_none rfl, List.filterMap_append, iha, ihb,
      Stmt.remarks]
  | loop _ _ _ hf ih =>
    rw [List.filterMap_cons_none rfl, List.filterMap_cons_none rfl, List.filterMap_cons_some (by rfl),
      List.filterMap_append, List.filterMap_cons_some (by rfl), ih, hf.filterMap_eq_nil fun _ _ _ => rfl]
    rfl
  | skip | assign | localInit | localAny | assume | assert | passedLoop | passedCall => rfl

theorem Stmt.Derives.span_eq (h : a.Derives c level goesOn pre f notes post f') : post.span = pre.span := by
  induction h with
  | seq _ _ iha ihb => exact ihb.trans iha
  | block _ _ ih => exact ih
  | assign | localInit | localAny => exact Pred.span_rename ..
  | iteOutside | iteOnEntry | loop => exact Pred.span_atSpan ..
  | skip | assume | assert | passedLoop | passedCall => rfl

end

/-- **Remarks.** The obligations on the side and the sites of a run are those of the walk
over the statement, in the same order; neither the precondition nor the configuration has
a say in it. The postcondition stands where the precondition stood. -/
theorem Config.transform_remarks (c : Config) (a : Stmt) (pre : Pred) {t : Transformed}
    (ht : (c.transform a pre).result = .ok t) :
    t.side.map (fun o => (o.span, o.concern.text)) = a.remarks.filterMap Remark.warning? ∧
    t.unsound = a.remarks.filterMap Remark.site? ∧ t.post.span = pre.span := by
  obtain ⟨f', hd, hside, hunsound⟩ := Config.derives_of_run ht
  rw [hside, hunsound, Note.warnings_eq, Note.sites_eq, hd.remarks_eq]
  exact ⟨rfl, rfl, hd.span_eq⟩

/-- Asserts inside and outside of loops, one of which has no invariant, and a call. -/
def surveyed : Stmt :=
  let positive := BinOp.apply (.rel .gt) (.ofName "x") (.ofInt64 0)
  .chain [
    .assert ⟨1, 1⟩ positive,
    .loop ⟨2, 1⟩ positive (some (.ofBool true))
      (.andThen (.assert ⟨3, 3⟩ positive) (.call ⟨4, 3⟩ "log" [])),
    .ite ⟨6, 1⟩ positive (.loop ⟨7, 3⟩ positive none (.assert ⟨8, 5⟩ positive))
      (.assert ⟨10, 3⟩ positive)]

theorem Config.transform_remarks_surveyed :
    ∃ t, (({ unsupported := .passThrough } : Config).transform surveyed (.lit ⟨9, 9⟩ true)).result = .ok t ∧
      t.side.map (fun o => (o.span, o.concern.text)) =
        [(⟨1, 1⟩, "assertion might not hold"), (⟨2, 1⟩, "loop invariant might not hold on entry"),
          (⟨3, 3⟩, "assertion might not hold"), (⟨2, 1⟩, "loop invariant might not be maintained"),
          (⟨10, 3⟩, "assertion might not hold")] ∧
      t.unsound = [⟨.call, ⟨4, 3⟩⟩, ⟨.loop, ⟨7, 3⟩⟩] ∧ t.post.span = ⟨9, 9⟩ := by
  obtain ⟨t, ht⟩ : ∃ t, (({ unsupported := .passThrough } : Config).transform surveyed
    (.lit ⟨9, 9⟩ true)).result = .ok t := ⟨_, rfl⟩
  obtain ⟨hside, hunsound, hspan⟩ := Config.transform_remarks _ surveyed _ ht
  exact ⟨t, ht, hside.trans (by decide), hunsound.trans (by decide), hspan⟩

end StrongestPost
