/-!
# Families of choices

A family lists its members, each once and with a name of its own, so that a member is
found again by its name.
-/

namespace StrongestPost

structure Family (α : Type) where
  all : List α
  name : α → String
  mem_all : ∀ a, a ∈ all := by intro a; cases a <;> decide
  nodup_names : (all.map name).Nodup := by decide

attribute [simp] Family.mem_all

namespace Family
variable {α : Type} (F : Family α)

/-- The member that is called `s`. -/
def named? (s : String) : Option α := F.all.find? fun a => F.name a == s

theorem find?_name {name : α → String} {a : α} {l : List α} (hl : (l.map name).Nodup) (ha : a ∈ l) :
    l.find? (fun b => name b == name a) = some a := by
  induction l with
  | nil => cases ha
  | cons b l ih =>
    rw [List.map_cons, List.nodup_cons] at hl
    cases ha with
    | head => simp
    | tail _ ha =>
      have hb : name b ≠ name a := fun e => hl.1 (e ▸ List.mem_map_of_mem ha)
      rw [List.find?_cons_of_neg (by simpa using hb)]
      exact ih hl.2 ha

@[simp] theorem named?_name (a : α) : F.named? (F.name a) = some a :=
  find?_name F.nodup_names (F.mem_all a)

theorem name_inj {a b : α} (h : F.name a = F.name b) : a = b := by
  rw [← Option.some.injEq, ← F.named?_name a, h, F.named?_name]

end Family

end StrongestPost
