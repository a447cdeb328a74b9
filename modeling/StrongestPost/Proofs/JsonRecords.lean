import Mathlib.Data.List.Basic
import StrongestPost.Json.Member

/-!
# Records

What can be found among the members of an object. A reader asks for a member by its name,
so it sees the values that are given to that name and nothing else. An object that gives
the fields of a record in any order, among members of other names, answers for each field
as if the field stood alone (`Arranges.answers`).
-/

namespace StrongestPost.Json

/-- A member of a record: its name, when it may be left out, and what its value must be. -/
structure Field where
  name : String
  mayOmit : Prop := False
  Says : Json → Prop

/-- A field that must be given, with this value. -/
def Field.is (name : String) (j : Json) : Field := { name, Says := (· = j) }

@[simp] theorem Field.name_is (name : String) (j : Json) : (Field.is name j).name = name := rfl

/-- The members that are given for the fields, in the order of the fields. -/
inductive Kept : List Field → List (String × Json) → Prop
  | nil : Kept [] []
  | given {f fs j ms} : f.Says j → Kept fs ms → Kept (f :: fs) ((f.name, j) :: ms)
  | omitted {f fs ms} : f.mayOmit → Kept fs ms → Kept (f :: fs) ms

/-- An object that gives the fields in any order, with members of other names among them. -/
def Arranges (fs : List Field) (j : Json) : Prop :=
  ∃ ms kept others, j = .obj ms ∧ Kept fs kept ∧ (∀ m ∈ others, m.1 ∉ fs.map Field.name) ∧
    ms.Perm (kept ++ others)

/-- What the members have to say about a field. -/
def Answers (ms : List (String × Json)) (f : Field) : Prop :=
  (given ms f.name = [] ∧ f.mayOmit) ∨ ∃ j, given ms f.name = [j] ∧ f.Says j

section
variable {α : Type} {ms ms' : List (String × Json)} {key : String} {j : Json} {f : Field} {fs : List Field}

theorem mem_given : j ∈ given ms key ↔ (key, j) ∈ ms := by
  simp only [given, List.mem_map, List.mem_filter, beq_iff_eq]
  constructor
  · rintro ⟨⟨k, j'⟩, ⟨hm, rfl⟩, rfl⟩; exact hm
  · intro h; exact ⟨(key, j), ⟨h, rfl⟩, rfl⟩

theorem given_append : given (ms ++ ms') key = given ms key ++ given ms' key := by
  simp [given]

theorem given_cons_self : given ((key, j) :: ms) key = j :: given ms key := by
  simp [given]

theorem given_cons_of_ne {k : String} (h : k ≠ key) : given ((k, j) :: ms) key = given ms key := by
  simp [given, h]

theorem given_eq_nil (h : ∀ m ∈ ms, m.1 ≠ key) : given ms key = [] := by
  rw [List.eq_nil_iff_forall_not_mem]
  intro j hj
  exact h _ (mem_given.mp hj) rfl

theorem given_perm (h : ms.Perm ms') (key : String) : (given ms key).Perm (given ms' key) := (h.filter _).map _

theorem Kept.names (h : Kept fs ms) : ∀ m ∈ ms, m.1 ∈ fs.map Field.name := by
  induction h with
  | nil => simp
  | given _ _ ih =>
    refine List.forall_mem_cons.mpr ⟨List.mem_cons_self .., fun m hm => ?_⟩
    exact List.mem_cons_of_mem _ (ih m hm)
  | omitted _ _ ih => exact fun m hm => List.mem_cons_of_mem _ (ih m hm)

theorem Kept.answers (h : Kept fs ms) (hfs : (fs.map Field.name).Nodup) : ∀ f ∈ fs, Answers ms f := by
  induction h with
  | nil => simp
  | @given f fs j ms hj hrest ih =>
    rw [List.map_cons, List.nodup_cons] at hfs
    have hnone : Json.given ms f.name = [] := given_eq_nil fun m hm e => hfs.1 (e ▸ hrest.names m hm)
    refine List.forall_mem_cons.mpr ⟨.inr ⟨j, ?_, hj⟩, fun g hg => ?_⟩
    · rw [given_cons_self, hnone]
    · have hne : f.name ≠ g.name := fun e => hfs.1 (e ▸ List.mem_map_of_mem hg)
      unfold Answers
      rw [given_cons_of_ne hne]
      exact ih hfs.2 g hg
  | @omitted f fs ms hf hrest ih =>
    rw [List.map_cons, List.nodup_cons] at hfs
    refine List.forall_mem_cons.mpr ⟨.inl ⟨given_eq_nil fun m hm e => ?_, hf⟩, ih hfs.2⟩
    exact hfs.1 (e ▸ hrest.names m hm)

/-- Neither the order nor the other members make a difference to what is found. -/
theorem Arranges.answers (h : Arranges fs j) (hfs : (fs.map Field.name).Nodup) :
    ∃ ms, j = .obj ms ∧ fs.Forall (Answers ms) := by
  obtain ⟨ms, kept, others, rfl, hkept, hothers, hperm⟩ := h
  refine ⟨ms, rfl, List.forall_iff_forall_mem.mpr fun f hf => ?_⟩
  have hnone : given others f.name = [] :=
    given_eq_nil fun m hm e => hothers m hm (e ▸ List.mem_map_of_mem hf)
  have hgiven : (given ms f.name).Perm (given kept f.name) := by
    have h := given_perm hperm f.name
    rwa [given_append, hnone, List.append_nil] at h
  rcases hkept.answers hfs f hf with ⟨hnil, homit⟩ | ⟨v, hv, hsays⟩
  · rw [hnil] at hgiven; exact .inl ⟨hgiven.eq_nil, homit⟩
  · rw [hv] at hgiven; exact .inr ⟨v, hgiven.eq_singleton, hsays⟩

/-- With every field given in its place there is nothing to arrange. -/
theorem Kept.arranges (h : Kept fs ms) : Arranges fs (.obj ms) :=
  ⟨ms, ms, [], rfl, h, by simp, by simp⟩

theorem Answers.required {read : Json → Option α} {a : α} (h : Answers ms f) (homit : ¬ f.mayOmit)
    (hread : ∀ v, (f.name, v) ∈ ms → f.Says v → read v = some a) : required? ms f.name read = some a := by
  rcases h with ⟨-, h⟩ | ⟨v, hv, hsays⟩
  · exact absurd h homit
  · rw [required?, hv]
    exact hread v (mem_given.mp (by simp [hv])) hsays

theorem Answers.optional {read : Json → Option α} {a default : α} (h : Answers ms f)
    (homit : f.mayOmit → default = a) (hread : ∀ v, (f.name, v) ∈ ms → f.Says v → read v = some a) :
    optional? ms f.name default read = some a := by
  rcases h with ⟨hnil, h⟩ | ⟨v, hv, hsays⟩
  · rw [optional?, hnil, homit h]
  · rw [optional?, hv]
    exact hread v (mem_given.mp (by simp [hv])) hsays

theorem Answers.is {read : Json → Option α} {a : α} (h : Answers ms (.is key j)) (hread : read j = some a) :
    required? ms key read = some a :=
  h.required (fun h => h) fun _ _ hv => hv ▸ hread

/-! ## What a reader has found -/

/-- A member that has been read is given at most once, and it is the value that was read. -/
def ReadAs (ms : List (String × Json)) (key : String) (read : Json → Option α) (a : α) : Prop :=
  (given ms key).length ≤ 1 ∧ ∀ v, (key, v) ∈ ms → read v = some a

theorem readAs_of_required? {read : Json → Option α} {a : α} (h : required? ms key read = some a) :
    ReadAs ms key read a := by
  unfold required? at h
  split at h
  · next v hv =>
    refine ⟨by simp [hv], fun w hw => ?_⟩
    have hmem := mem_given.mpr hw
    rw [hv, List.mem_singleton] at hmem
    rw [hmem, h]
  · cases h

theorem readAs_of_optional? {read : Json → Option α} {a default : α}
    (h : optional? ms key default read = some a) : ReadAs ms key read a := by
  unfold optional? at h
  split at h
  · next hnil =>
    refine ⟨by simp [hnil], fun w hw => ?_⟩
    have hmem := mem_given.mpr hw
    rw [hnil] at hmem
    cases hmem
  · next v hv => exact readAs_of_required? (by rw [required?, hv]; exact h)
  · cases h

/-- Twice among the names is twice among what is given. -/
theorem length_given (ms : List (String × Json)) (key : String) :
    (given ms key).length = (ms.map Prod.fst).count key := by
  rw [given, List.length_map, List.count_eq_countP, List.countP_map, List.countP_eq_length_filter]
  rfl

end

end StrongestPost.Json
