import StrongestPost.Family
import StrongestPost.SortedList

/-!
# Keys

A predicate may speak of a variable's value now and of its value at entry,
written `old(x)`. A key is a name together with the moment it is read at; the
two keys of one name are different unknowns. Keys are ordered by name, in the
order of code points, and the current key of a name comes before the earlier one.
-/

namespace StrongestPost

inductive Moment where
  | current
  | before
deriving DecidableEq

def Moment.name : Moment → String
  | current => "current"
  | before => "before"

def Moment.family : Family Moment := { all := [.current, .before], name }

structure Key where
  name : String
  moment : Moment
deriving DecidableEq

namespace Key

def text : Key → String
  | ⟨x, .current⟩ => x
  | ⟨x, .before⟩ => "old(" ++ x ++ ")"

instance : LT Key where
  lt a b := a.name < b.name ∨ (a.name = b.name ∧ a.moment = .current ∧ b.moment = .before)

instance : DecidableLT Key := fun a b =>
  inferInstanceAs
    (Decidable (a.name < b.name ∨ (a.name = b.name ∧ a.moment = .current ∧ b.moment = .before)))

/-- Reads `new` where the key read `old`, at the same moment. -/
def rename (old new : String) (k : Key) : Key :=
  if k.name = old then { k with name := new } else k

@[simp] theorem moment_rename (old new : String) (k : Key) : (k.rename old new).moment = k.moment := by
  unfold rename
  by_cases hk : k.name = old
  · rw [if_pos hk]
  · rw [if_neg hk]

theorem lt_def {a b : Key} :
    a < b ↔ a.name < b.name ∨ (a.name = b.name ∧ a.moment = .current ∧ b.moment = .before) :=
  Iff.rfl

theorem lt_trans {a b c : Key} (h₁ : a < b) (h₂ : b < c) : a < c := by
  rw [lt_def] at *
  rcases h₁ with h₁ | ⟨h₁, _, hb⟩ <;> rcases h₂ with h₂ | ⟨h₂, hb', _⟩
  · exact .inl (String.lt_trans h₁ h₂)
  · exact .inl (h₂ ▸ h₁)
  · exact .inl (h₁ ▸ h₂)
  · exact absurd (hb.symm.trans hb') (by decide)

theorem lt_irrefl (a : Key) : ¬ a < a := by
  rw [lt_def]
  rintro (h | ⟨_, h₁, h₂⟩)
  · exact String.lt_irrefl _ h
  · exact absurd (h₁.symm.trans h₂) (by decide)

/-- Two different keys are ordered one way or the other. -/
theorem lt_of_not_lt {a b : Key} (h : ¬ a < b) (hne : a ≠ b) : b < a := by
  obtain ⟨x, m⟩ := a
  obtain ⟨y, n⟩ := b
  rw [lt_def] at *
  by_cases hxy : x = y
  · subst hxy
    cases m <;> cases n <;> simp_all
  · refine .inl (Decidable.byContradiction fun hyx => hxy ?_)
    exact String.le_antisymm (String.not_lt.1 hyx) (String.not_lt.1 fun hlt => h (.inl hlt))

instance : Trans (· < · : Key → Key → Prop) (· < · : Key → Key → Prop) (· < · : Key → Key → Prop) :=
  ⟨lt_trans⟩

instance : Std.Trichotomous (· < · : Key → Key → Prop) :=
  ⟨fun _ _ h h' => Decidable.byContradiction fun hne => h' (lt_of_not_lt h hne)⟩

end Key

end StrongestPost
