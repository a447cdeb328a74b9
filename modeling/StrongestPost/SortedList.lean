/-!
# Strictly increasing lists

Sets of names and of keys are shown in order. A set is a strictly increasing
list; `inOrder` makes one from any list by placing its members one by one.
-/

namespace StrongestPost

section
variable {α : Type} [LT α] [DecidableLT α] [DecidableEq α]

/-- Puts `a` where it belongs in an increasing list, unless it is there. -/
def placeInOrder (a : α) : List α → List α
  | [] => [a]
  | b :: l =>
    if a < b then a :: b :: l
    else if a = b then b :: l
    else b :: placeInOrder a l

/-- The members of a list, each once and in increasing order. -/
def inOrder (l : List α) : List α :=
  l.foldl (fun s a => placeInOrder a s) []

@[simp] theorem mem_placeInOrder {a b : α} {l : List α} :
    b ∈ placeInOrder a l ↔ b = a ∨ b ∈ l := by
  fun_induction placeInOrder a l <;> grind

theorem mem_foldl_placeInOrder {b : α} {l s : List α} :
    b ∈ l.foldl (fun s a => placeInOrder a s) s ↔ b ∈ l ∨ b ∈ s := by
  induction l generalizing s with
  | nil => simp
  | cons a l ih => rw [List.foldl_cons, ih]; grind [mem_placeInOrder]

@[simp] theorem mem_inOrder {b : α} {l : List α} : b ∈ inOrder l ↔ b ∈ l := by
  simp [inOrder, mem_foldl_placeInOrder]

variable [Trans (· < · : α → α → Prop) (· < · : α → α → Prop) (· < · : α → α → Prop)]
  [Std.Trichotomous (· < · : α → α → Prop)]

theorem pairwise_placeInOrder {a : α} {l : List α} (h : l.Pairwise (· < ·)) :
    (placeInOrder a l).Pairwise (· < ·) := by
  fun_induction placeInOrder a l with
  | case1 => simp
  | case2 b l hlt =>
    refine List.pairwise_cons.2 ⟨fun d hd => ?_, h⟩
    rcases List.mem_cons.1 hd with rfl | hd
    · exact hlt
    · exact Trans.trans hlt ((List.pairwise_cons.1 h).1 d hd)
  | case3 => exact h
  | case4 b l hlt hne ih =>
    obtain ⟨hhead, htail⟩ := List.pairwise_cons.1 h
    refine List.pairwise_cons.2 ⟨fun d hd => ?_, ih htail⟩
    rcases mem_placeInOrder.1 hd with rfl | hd
    · exact Decidable.byContradiction fun hgt => hne (Std.Trichotomous.trichotomous _ _ hlt hgt)
    · exact hhead d hd

theorem pairwise_foldl_placeInOrder {l s : List α} (hs : s.Pairwise (· < ·)) :
    (l.foldl (fun s a => placeInOrder a s) s).Pairwise (· < ·) := by
  induction l generalizing s with
  | nil => exact hs
  | cons a l ih => exact ih (pairwise_placeInOrder hs)

theorem pairwise_inOrder (l : List α) : (inOrder l).Pairwise (· < ·) := pairwise_foldl_placeInOrder .nil

theorem nodup_inOrder [Std.Irrefl (· < · : α → α → Prop)] (l : List α) : (inOrder l).Nodup := by
  refine (pairwise_inOrder l).imp fun {a b} hab heq => ?_
  exact Std.Irrefl.irrefl b (heq ▸ hab)

end

end StrongestPost
