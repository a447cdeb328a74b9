import Mathlib.Data.List.Nodup
import StrongestPost.Calculus.Fresh

/-!
# The names an allocator hands out

The candidates for one variable are all different, so the search for a free one
cannot run out of tries: each try that fails uses up a name that is in the way.
`Fresh.allocate_spec` says all that is known of a name that was handed out.
-/

namespace StrongestPost

namespace Fresh

theorem candidate_inj (f : Fresh) (base : String) {m n : Nat}
    (h : f.candidate base m = f.candidate base n) : m = n := by
  have hs : toString m = toString n := (String.append_right_inj _).mp h
  have hd : Nat.toDigits 10 m = Nat.toDigits 10 n := by simpa using congrArg String.toList hs
  rw [← @Nat.ofDigitChars_ten_toDigits m, hd, Nat.ofDigitChars_ten_toDigits]

theorem firstFree_not_mem_of_rest {name : Nat → String} (hinj : ∀ {m n}, name m = name n → m = n)
    {blocked : List String} (tries n : Nat) (rest : List String) (hlen : rest.length ≤ tries)
    (hrest : ∀ m, n ≤ m → name m ∈ blocked → name m ∈ rest) :
    name (firstFree name blocked tries n) ∉ blocked := by
  -- `rest` holds the names that are still in the way from `n` on
  induction tries generalizing n rest with
  | zero =>
    intro hmem
    have : name n ∈ rest := hrest n (Nat.le_refl n) hmem
    rw [List.eq_nil_of_length_eq_zero (Nat.le_zero.mp hlen)] at this
    cases this
  | succ tries ih =>
    unfold firstFree
    split
    · rename_i hn
      have hin : name n ∈ rest := hrest n (Nat.le_refl n) hn
      refine ih (n + 1) (rest.erase (name n)) ?_ fun m hm hmem => ?_
      · rw [List.length_erase_of_mem hin]; omega
      · have hne : name m ≠ name n := fun e => by have := hinj e; omega
        exact (List.mem_erase_of_ne hne).mpr (hrest m (by omega) hmem)
    · assumption

theorem firstFree_not_mem {name : Nat → String} (hinj : ∀ {m n}, name m = name n → m = n)
    (blocked : List String) (n : Nat) : name (firstFree name blocked blocked.length n) ∉ blocked :=
  firstFree_not_mem_of_rest hinj _ n blocked (Nat.le_refl _) fun _ _ h => h

theorem le_firstFree (name : Nat → String) (blocked : List String) (tries n : Nat) :
    n ≤ firstFree name blocked tries n := by
  fun_induction firstFree name blocked tries n with
  | case1 => exact Nat.le_refl _
  | case2 _ _ _ ih => omega
  | case3 => exact Nat.le_refl _

theorem mem_of_lt_firstFree {name : Nat → String} {blocked : List String} {tries n m : Nat} (hn : n ≤ m)
    (hm : m < firstFree name blocked tries n) : name m ∈ blocked := by
  fun_induction firstFree name blocked tries n with
  | case1 => omega
  | case2 tries n hmem ih =>
    by_cases h : n = m
    · exact h ▸ hmem
    · exact ih (by omega) hm
  | case3 => omega

/-- The number found depends on which names are blocked, not on how they are listed. -/
theorem firstFree_congr {name : Nat → String} (hinj : ∀ {m n}, name m = name n → m = n)
    {blocked blocked' : List String} (h : ∀ x, x ∈ blocked ↔ x ∈ blocked') (n : Nat) :
    firstFree name blocked blocked.length n = firstFree name blocked' blocked'.length n := by
  have hfree := firstFree_not_mem hinj blocked n
  have hfree' := firstFree_not_mem hinj blocked' n
  apply Nat.le_antisymm
  · refine Nat.le_of_not_lt fun hlt => hfree' ((h _).mp ?_)
    exact mem_of_lt_firstFree (le_firstFree ..) hlt
  · refine Nat.le_of_not_lt fun hlt => hfree ((h _).mpr ?_)
    exact mem_of_lt_firstFree (le_firstFree ..) hlt

/-- Names that are taken need not be avoided. -/
theorem allocate_congr {f : Fresh} {p q : Pred} (hp : ∀ x ∈ p.names, x ∈ f.taken)
    (hq : ∀ x ∈ q.names, x ∈ f.taken) (base : String) : f.allocate base p = f.allocate base q := by
  have hblocked : ∀ x, x ∈ p.names ++ f.taken ↔ x ∈ q.names ++ f.taken := by
    intro x
    rw [List.mem_append, List.mem_append, or_iff_right_of_imp (hp x), or_iff_right_of_imp (hq x)]
  have hn := firstFree_congr (f.candidate_inj base) hblocked (f.counter base)
  simp only [allocate, hn]

theorem allocate_spec {f f' : Fresh} {base name : String} {avoid : Pred}
    (h : f.allocate base avoid = (name, f')) :
    (∃ n : Nat, name = base ++ f.separator ++ toString n) ∧ name ∉ avoid.names ∧ name ∉ f.taken ∧
      f'.taken = name :: f.taken ∧ f'.separator = f.separator := by
  unfold allocate at h
  cases h
  have hfree := firstFree_not_mem (f.candidate_inj base) (avoid.names ++ f.taken) (f.counter base)
  rw [List.mem_append, not_or] at hfree
  exact ⟨⟨_, rfl⟩, hfree.1, hfree.2, rfl, rfl⟩

/-! ## Reserved names -/

-- reserving is taking the union
theorem mem_taken_reserve {f : Fresh} {names : List String} {x : String} :
    x ∈ (f.reserve names).taken ↔ x ∈ names ∨ x ∈ f.taken :=
  List.mem_union_iff

theorem nodup_taken_reserve {f : Fresh} (names : List String) (hf : f.taken.Nodup) :
    (f.reserve names).taken.Nodup :=
  hf.union names

end Fresh

end StrongestPost
