import Mathlib.Data.List.Sort
import StrongestPost.Logic.Box

/-!
# Boxes of valuations

A box holds the valuations that bind certain keys, and no others, to integers close to
zero. They are ordered by the first key at which they differ. `Bound.search_eq_some` says that
a search stops at the first valuation in this order that has an answer; what has been
bound before plays no part in it.
-/

namespace StrongestPost

/-! ## Valuations -/

namespace Valuation

/-- At the first key where they differ, `a` has the smaller value. -/
def Earlier (a b : Valuation) : Prop :=
  ∃ k v w, a.get? k = some v ∧ b.get? k = some w ∧ v < w ∧ ∀ k', k' < k → a.get? k' = b.get? k'

theorem eq_of_get? {a b : Valuation} (h : ∀ k, a.get? k = b.get? k) : a = b := by
  have : Std.Irrefl fun a b : Key × Int64 => a.1 < b.1 := ⟨fun a => Key.lt_irrefl a.1⟩
  have : Std.Antisymm fun a b : Key × Int64 => a.1 < b.1 :=
    ⟨fun a _ hab hba => absurd (Key.lt_trans hab hba) (Key.lt_irrefl a.1)⟩
  have hmem : ∀ e, e ∈ a.entries ↔ e ∈ b.entries := by
    intro e
    rw [mem_entries_iff, mem_entries_iff, h]
  have hentries : a.entries = b.entries := a.increasing.eq_of_mem_iff b.increasing hmem
  cases a; cases b
  cases hentries
  rfl

theorem not_earlier_self (env : Valuation) : ¬ env.Earlier env := by
  rintro ⟨k, v, w, hv, hw, hlt, -⟩
  rw [hv, Option.some.injEq] at hw
  rw [hw] at hlt
  exact Int64.lt_irrefl hlt

end Valuation

/-! ## Searching integers -/

section
variable {β : Type} {f : Int → Option β}

theorem firstFrom_eq_none {count : Nat} {start : Int} :
    firstFrom f count start = none ↔ ∀ i, start ≤ i → i < start + count → f i = none := by
  induction count generalizing start with
  | zero => simp only [firstFrom, true_iff]; intro i h₁ h₂; omega
  | succ n ih =>
    rw [firstFrom]
    cases hf : f start with
    | some b =>
      simp only [reduceCtorEq, false_iff]
      intro h
      rw [h start (by omega) (by omega)] at hf
      cases hf
    | none =>
      simp only [ih]
      constructor
      · intro h i h₁ h₂
        by_cases hi : i = start
        · rw [hi, hf]
        · exact h i (by omega) (by omega)
      · intro h i h₁ h₂
        exact h i (by omega) (by omega)

theorem firstFrom_eq_some {count : Nat} {start : Int} {b : β} :
    firstFrom f count start = some b ↔
      ∃ i, start ≤ i ∧ i < start + count ∧ f i = some b ∧ ∀ j, start ≤ j → j < i → f j = none := by
  induction count generalizing start with
  | zero => simp only [firstFrom, reduceCtorEq, false_iff]; rintro ⟨i, h₁, h₂, -⟩; omega
  | succ n ih =>
    rw [firstFrom]
    cases hf : f start with
    | some c =>
      constructor
      · rintro ⟨⟩
        exact ⟨start, by omega, by omega, hf, fun j h₁ h₂ => by omega⟩
      · rintro ⟨i, h₁, -, hi, hbefore⟩
        by_cases h : start = i
        · rw [← hf, h, hi]
        · rw [hbefore start (by omega) (by omega)] at hf
          cases hf
    | none =>
      simp only [ih]
      constructor
      · rintro ⟨i, h₁, h₂, hi, hbefore⟩
        refine ⟨i, by omega, by omega, hi, fun j hj₁ hj₂ => ?_⟩
        by_cases h : j = start
        · rw [h, hf]
        · exact hbefore j (by omega) hj₂
      · rintro ⟨i, h₁, h₂, hi, hbefore⟩
        have hne : i ≠ start := fun h => by rw [h, hf] at hi; cases hi
        exact ⟨i, by omega, by omega, hi, fun j hj₁ hj₂ => hbefore j (by omega) hj₂⟩

theorem firstFrom_map {γ : Type} (g : β → γ) (f : Int → Option β) (count : Nat) (start : Int) :
    firstFrom (fun i => (f i).map g) count start = (firstFrom f count start).map g := by
  induction count generalizing start with
  | zero => rfl
  | succ count ih =>
    unfold firstFrom
    cases f start with
    | some b => rfl
    | none => exact ih _

end

/-! ## Boxes -/

namespace Bound

def InRange (n : Bound) (v : Int64) : Prop := -n.radius ≤ v.toInt ∧ v.toInt ≤ n.radius

def InBox (n : Bound) (keys : List Key) (env : Valuation) : Prop :=
  (∀ k, (∃ v, env.get? k = some v) ↔ k ∈ keys) ∧ ∀ k v, env.get? k = some v → n.InRange v

/-- `env` binds the keys, and is like `base` elsewhere. -/
def Over (n : Bound) (keys : List Key) (base env : Valuation) : Prop :=
  (∀ k ∈ keys, ∃ v, env.get? k = some v ∧ n.InRange v) ∧ ∀ k, k ∉ keys → env.get? k = base.get? k

section
variable {n : Bound} {k : Key} {keys : List Key} {base env : Valuation}

theorem over_nil : n.Over [] base env ↔ env = base := by
  constructor
  · intro h
    exact Valuation.eq_of_get? fun k => h.2 k (by simp)
  · rintro rfl
    exact ⟨by simp, fun _ _ => rfl⟩

theorem over_cons : n.Over (k :: keys) base env ↔ ∃ v, n.InRange v ∧ n.Over keys (base.set k v) env := by
  constructor
  · rintro ⟨hin, hout⟩
    obtain ⟨v, hv, hrange⟩ := hin k (by simp)
    refine ⟨v, hrange, fun k' hk' => hin k' (by simp [hk']), fun k' hk' => ?_⟩
    rw [Valuation.get?_set]
    by_cases h : k' = k
    · rw [if_pos h, h, hv]
    · rw [if_neg h, hout k' (by simp [h, hk'])]
  · rintro ⟨v, hrange, hin, hout⟩
    refine ⟨fun k' hk' => ?_, fun k' hk' => ?_⟩
    · by_cases h : k' ∈ keys
      · exact hin k' h
      · have hk : k' = k := by simpa [h] using hk'
        refine ⟨v, ?_, hrange⟩
        rw [hout k' h, Valuation.get?_set, if_pos hk]
    · rw [List.mem_cons, not_or] at hk'
      rw [hout k' hk'.2, Valuation.get?_set, if_neg hk'.1]

theorem over_empty : n.Over keys .empty env ↔ n.InBox keys env := by
  constructor
  · rintro ⟨hin, hout⟩
    refine ⟨fun k => ⟨?_, fun hk => ?_⟩, fun k v hv => ?_⟩
    · rintro ⟨v, hv⟩
      by_contra hk
      rw [hout k hk] at hv
      cases hv
    · obtain ⟨v, hv, -⟩ := hin k hk
      exact ⟨v, hv⟩
    · by_cases hk : k ∈ keys
      · obtain ⟨w, hw, hrange⟩ := hin k hk
        cases hv.symm.trans hw
        exact hrange
      · rw [hout k hk] at hv
        cases hv
  · rintro ⟨hkeys, hrange⟩
    refine ⟨fun k hk => ?_, fun k hk => ?_⟩
    · obtain ⟨v, hv⟩ := (hkeys k).mpr hk
      exact ⟨v, hv, hrange k v hv⟩
    · cases hv : env.get? k with
      | none => rfl
      | some v => exact absurd ((hkeys k).mp ⟨v, hv⟩) hk

end

/-! ## The order of a box

The smallest key is bound first, and what is bound behind it decides nothing between
valuations with different values there. -/

section
variable {n : Bound} {k : Key} {keys : List Key} {base env env' : Valuation} {v w : Int64}

theorem Over.get?_set (h : n.Over keys (base.set k v) env) (hk : ∀ k' ∈ keys, k < k') :
    env.get? k = some v ∧ ∀ k', k' < k → env.get? k' = base.get? k' := by
  have hnot : k ∉ keys := fun hmem => Key.lt_irrefl k (hk k hmem)
  refine ⟨by rw [h.2 k hnot, Valuation.get?_set, if_pos rfl], fun k' hlt => ?_⟩
  have hnot' : k' ∉ keys := fun hmem => Key.lt_irrefl k (Key.lt_trans (hk k' hmem) hlt)
  have hne : k' ≠ k := fun heq => Key.lt_irrefl k (heq ▸ hlt)
  rw [h.2 k' hnot', Valuation.get?_set, if_neg hne]

theorem Over.earlier_of_lt (h : n.Over keys (base.set k v) env) (h' : n.Over keys (base.set k w) env')
    (hk : ∀ k' ∈ keys, k < k') (hlt : v < w) : env.Earlier env' := by
  obtain ⟨hv, hbelow⟩ := h.get?_set hk
  obtain ⟨hw, hbelow'⟩ := h'.get?_set hk
  exact ⟨k, v, w, hv, hw, hlt, fun k' hk' => (hbelow k' hk').trans (hbelow' k' hk').symm⟩

theorem Over.not_earlier_of_lt (h : n.Over keys (base.set k v) env)
    (h' : n.Over keys (base.set k w) env') (hk : ∀ k' ∈ keys, k < k') (hlt : v < w) :
    ¬ env'.Earlier env := by
  obtain ⟨hv, hbelow⟩ := h.get?_set hk
  obtain ⟨hw, hbelow'⟩ := h'.get?_set hk
  rintro ⟨k₀, w₀, v₀, hw₀, hv₀, hlt₀, hagree⟩
  by_cases hk₀ : k₀ < k
  · rw [hbelow' k₀ hk₀, ← hbelow k₀ hk₀, hv₀, Option.some.injEq] at hw₀
    rw [hw₀] at hlt₀
    exact Int64.lt_irrefl hlt₀
  · by_cases heq : k₀ = k
    · subst heq
      cases hw.symm.trans hw₀
      cases hv.symm.trans hv₀
      exact Int64.lt_irrefl (Int64.lt_trans hlt hlt₀)
    · have hvw := hagree k (Key.lt_of_not_lt hk₀ heq)
      rw [hv, hw, Option.some.injEq] at hvw
      rw [hvw] at hlt
      exact Int64.lt_irrefl hlt

end

/-! ## Searching boxes -/

section
variable {n : Bound} {β : Type} {visit : Valuation → Option β} {k : Key} {keys : List Key}
  {base : Valuation}

/-- The integers that a search runs through are the values of the box. -/
theorem inRange_iff {v : Int64} : n.InRange v ↔ -n.radius ≤ v.toInt ∧
    v.toInt < -n.radius + (2 * n.radius + 1 : Nat) := by
  unfold InRange
  omega

theorem toInt_ofInt {i : Int} (h₁ : -n.radius ≤ i) (h₂ : i < -n.radius + (2 * n.radius + 1 : Nat)) :
    (Int64.ofInt i).toInt = i := by
  have h := n.radius_lt
  rw [Nat.one_shiftLeft] at h
  exact Int64.toInt_ofInt_of_le (by omega) (by omega)

theorem search_cons_eq_none : n.search visit (k :: keys) base = none ↔
    ∀ v, n.InRange v → n.search visit keys (base.set k v) = none := by
  rw [search, firstFrom_eq_none]
  constructor
  · intro h v hv
    rw [inRange_iff] at hv
    simpa using h v.toInt hv.1 hv.2
  · intro h i h₁ h₂
    apply h
    rw [inRange_iff, toInt_ofInt h₁ h₂]
    exact ⟨h₁, h₂⟩

theorem search_cons_eq_some {r : β} : n.search visit (k :: keys) base = some r ↔
    ∃ v, n.InRange v ∧ n.search visit keys (base.set k v) = some r ∧
      ∀ w, n.InRange w → w < v → n.search visit keys (base.set k w) = none := by
  rw [search, firstFrom_eq_some]
  constructor
  · rintro ⟨i, h₁, h₂, hi, hbefore⟩
    have htoInt := toInt_ofInt h₁ h₂
    refine ⟨.ofInt i, ?_, hi, fun w hw hlt => ?_⟩
    · rw [inRange_iff, htoInt]
      exact ⟨h₁, h₂⟩
    · rw [inRange_iff] at hw
      rw [Int64.lt_iff_toInt_lt, htoInt] at hlt
      simpa using hbefore w.toInt hw.1 hlt
  · rintro ⟨v, hv, hs, hbefore⟩
    rw [inRange_iff] at hv
    refine ⟨v.toInt, hv.1, hv.2, by simpa using hs, fun j h₁ h₂ => ?_⟩
    have htoInt := toInt_ofInt h₁ (h₂.trans hv.2)
    apply hbefore
    · rw [inRange_iff, htoInt]
      exact ⟨h₁, h₂.trans hv.2⟩
    · rw [Int64.lt_iff_toInt_lt, htoInt]
      exact h₂

theorem search_eq_none :
    n.search visit keys base = none ↔ ∀ env, n.Over keys base env → visit env = none := by
  induction keys generalizing base with
  | nil => simp [search, over_nil]
  | cons k keys ih =>
    rw [search_cons_eq_none]
    constructor
    · intro h env henv
      obtain ⟨v, hv, hover⟩ := over_cons.mp henv
      exact ih.mp (h v hv) env hover
    · intro h v hv
      exact ih.mpr fun env henv => h env (over_cons.mpr ⟨v, hv, henv⟩)

theorem search_eq_some (hkeys : keys.Pairwise (· < ·)) {r : β} :
    n.search visit keys base = some r ↔ ∃ env, n.Over keys base env ∧ visit env = some r ∧
      ∀ env', n.Over keys base env' → env'.Earlier env → visit env' = none := by
  induction keys generalizing base with
  | nil =>
    simp only [search, over_nil]
    constructor
    · intro h
      refine ⟨base, rfl, h, ?_⟩
      rintro env' rfl hearlier
      exact absurd hearlier env'.not_earlier_self
    · rintro ⟨env, rfl, h, -⟩
      exact h
  | cons k keys ih =>
    obtain ⟨hk, hkeys⟩ := List.pairwise_cons.mp hkeys
    rw [search_cons_eq_some]
    constructor
    · rintro ⟨v, hv, hs, hbefore⟩
      obtain ⟨env, henv, hr, hfirst⟩ := (ih hkeys).mp hs
      refine ⟨env, over_cons.mpr ⟨v, hv, henv⟩, hr, fun env' henv' hearlier => ?_⟩
      obtain ⟨w, hw, henv'⟩ := over_cons.mp henv'
      -- the value of the smallest key decides, and only where it is the same the others do
      rcases Int.lt_trichotomy w.toInt v.toInt with hlt | heq | hgt
      · exact search_eq_none.mp (hbefore w hw (Int64.lt_iff_toInt_lt.mpr hlt)) env' henv'
      · rw [Int64.toInt_inj] at heq
        exact hfirst env' (heq ▸ henv') hearlier
      · exact absurd hearlier (henv.not_earlier_of_lt henv' hk (Int64.lt_iff_toInt_lt.mpr hgt))
    · rintro ⟨env, henv, hr, hfirst⟩
      obtain ⟨v, hv, henv⟩ := over_cons.mp henv
      refine ⟨v, hv, (ih hkeys).mpr ⟨env, henv, hr, fun env' henv' => ?_⟩, fun w hw hlt => ?_⟩
      · exact hfirst env' (over_cons.mpr ⟨v, hv, henv'⟩)
      · refine search_eq_none.mpr fun env' henv' => ?_
        exact hfirst env' (over_cons.mpr ⟨w, hw, henv'⟩) (henv'.earlier_of_lt henv hk hlt)

theorem search_map {γ : Type} (g : β → γ) (visit : Valuation → Option β) (keys : List Key)
    (base : Valuation) :
    n.search (fun env => (visit env).map g) keys base = (n.search visit keys base).map g := by
  induction keys generalizing base with
  | nil => rfl
  | cons k keys ih => simp only [search, ih, firstFrom_map]

/-- Where the order of the keys is not known, an answer is still one of the box. -/
theorem search_mem {r : β} (h : n.search visit keys base = some r) :
    ∃ env, n.Over keys base env ∧ visit env = some r := by
  induction keys generalizing base with
  | nil => exact ⟨base, over_nil.mpr rfl, h⟩
  | cons k keys ih =>
    obtain ⟨v, hv, hs, -⟩ := search_cons_eq_some.mp h
    obtain ⟨env, henv, hr⟩ := ih hs
    exact ⟨env, over_cons.mpr ⟨v, hv, henv⟩, hr⟩

end

end Bound

end StrongestPost
