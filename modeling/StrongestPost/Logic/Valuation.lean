import StrongestPost.Logic.Key

/-!
# Valuations

A valuation binds finitely many keys to 64-bit integers. Its entries are kept in
increasing order of keys, so equal valuations have equal entries.
-/

namespace StrongestPost

/-- Binds `k` to `v` in an increasing list of entries. -/
def putEntry (k : Key) (v : Int64) : List (Key × Int64) → List (Key × Int64)
  | [] => [(k, v)]
  | e :: l =>
    if k < e.1 then (k, v) :: e :: l
    else if k = e.1 then (k, v) :: l
    else e :: putEntry k v l

theorem mem_putEntry {k : Key} {v : Int64} {e : Key × Int64} {l : List (Key × Int64)}
    (h : e ∈ putEntry k v l) : e = (k, v) ∨ e ∈ l := by
  fun_induction putEntry k v l <;> grind

theorem pairwise_putEntry {k : Key} {v : Int64} {l : List (Key × Int64)}
    (h : l.Pairwise fun a b => a.1 < b.1) : (putEntry k v l).Pairwise fun a b => a.1 < b.1 := by
  fun_induction putEntry k v l with
  | case1 => simp
  | case2 e l hlt =>
    refine List.pairwise_cons.2 ⟨fun a ha => ?_, h⟩
    rcases List.mem_cons.1 ha with rfl | ha
    · exact hlt
    · exact Key.lt_trans hlt ((List.pairwise_cons.1 h).1 a ha)
  | case3 e l _ heq =>
    exact List.pairwise_cons.2
      ⟨fun a ha => heq ▸ (List.pairwise_cons.1 h).1 a ha, (List.pairwise_cons.1 h).2⟩
  | case4 e l hlt heq ih =>
    obtain ⟨hhead, htail⟩ := List.pairwise_cons.1 h
    refine List.pairwise_cons.2 ⟨fun a ha => ?_, ih htail⟩
    rcases mem_putEntry ha with rfl | ha
    · exact Key.lt_of_not_lt hlt heq
    · exact hhead a ha

theorem lookup_entry (k : Key) (e : Key × Int64) (l : List (Key × Int64)) :
    (e :: l).lookup k = if k = e.1 then some e.2 else l.lookup k := by
  by_cases h : k = e.1
  · rw [List.lookup_cons, if_pos h, beq_iff_eq.mpr h]
  · rw [List.lookup_cons, if_neg h, beq_false_of_ne h]

theorem lookup_putEntry (k k' : Key) (v : Int64) (l : List (Key × Int64)) :
    (putEntry k v l).lookup k' = if k' = k then some v else l.lookup k' := by
  fun_induction putEntry k v l with
  | case1 | case2 => exact lookup_entry ..
  | case3 e l _ heq => simp only [lookup_entry, heq]; split <;> rfl
  | case4 e l _ hne ih =>
    rw [lookup_entry, lookup_entry, ih]
    by_cases he : k' = e.1
    · rw [if_pos he, if_pos he, if_neg fun h => hne (h.symm.trans he)]
    · rw [if_neg he, if_neg he]

theorem lookup_of_mem {e : Key × Int64} {l : List (Key × Int64)} (h : l.Pairwise fun a b => a.1 < b.1)
    (he : e ∈ l) : l.lookup e.1 = some e.2 := by
  induction l with
  | nil => cases he
  | cons d l ih =>
    obtain ⟨hhead, htail⟩ := List.pairwise_cons.1 h
    rw [lookup_entry]
    rcases List.mem_cons.1 he with rfl | he
    · exact if_pos rfl
    · have hne : e.1 ≠ d.1 := fun heq => Key.lt_irrefl d.1 (heq ▸ hhead e he)
      rw [if_neg hne, ih htail he]

structure Valuation where
  entries : List (Key × Int64) := []
  increasing : entries.Pairwise fun a b => a.1 < b.1 := by simp
deriving DecidableEq

namespace Valuation

def empty : Valuation := {}

def get? (env : Valuation) (k : Key) : Option Int64 := env.entries.lookup k

/-- Binds `k` to `v`, whatever it was bound to before. -/
def set (env : Valuation) (k : Key) (v : Int64) : Valuation where
  entries := putEntry k v env.entries
  increasing := pairwise_putEntry env.increasing

@[simp] theorem get?_empty (k : Key) : empty.get? k = none := rfl

@[simp] theorem get?_set (env : Valuation) (k k' : Key) (v : Int64) :
    (env.set k v).get? k' = if k' = k then some v else env.get? k' :=
  lookup_putEntry k k' v env.entries

theorem mem_entries_iff (env : Valuation) (k : Key) (v : Int64) :
    (k, v) ∈ env.entries ↔ env.get? k = some v := by
  constructor
  · intro h
    exact lookup_of_mem env.increasing h
  · intro h
    obtain ⟨l, l', heq, -⟩ := List.lookup_eq_some_iff.1 h
    rw [heq]
    simp

def text (env : Valuation) : String :=
  ", ".intercalate (env.entries.map fun e => e.1.text ++ " = " ++ toString e.2.toInt)

end Valuation

end StrongestPost
