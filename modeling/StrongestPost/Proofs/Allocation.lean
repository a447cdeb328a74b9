import Mathlib.Order.Bounds.Basic
import StrongestPost.Proofs.FreshNames

/-!
# Sequences of requests to an allocator

An allocator answers any sequence of requests. What is taken at any point are the names
reserved and the names handed out until then, each once (`Fresh.mem_taken_after`,
`Fresh.nodup_taken_after`), so a name that is not taken is new, whichever variable it was
made for.

`Fresh.Search` is the search for a number without a limit on the tries. Every candidate that
it passes over is a different name in the way, so the number of names bounds its length.
-/

namespace StrongestPost

namespace Fresh

/-! ## Requests -/

inductive Request where
  | reserve (names : List String)
  | allocate (base : String) (avoid : Pred)

def Request.reserved : Request → List String
  | reserve names => names
  | allocate _ _ => []

def perform (f : Fresh) : Request → Fresh
  | .reserve names => f.reserve names
  | .allocate base avoid => (f.allocate base avoid).2

def answer? (f : Fresh) : Request → Option String
  | .reserve _ => none
  | .allocate base avoid => some (f.allocate base avoid).1

def after (f : Fresh) (requests : List Request) : Fresh := requests.foldl perform f

/-- The names handed out along a sequence of requests, in order. -/
def handedOut (f : Fresh) : List Request → List String
  | [] => []
  | r :: l => (f.answer? r).toList ++ (f.perform r).handedOut l

theorem allocate_not_taken (f : Fresh) (base : String) (avoid : Pred) :
    (f.allocate base avoid).1 ∉ f.taken := by
  obtain ⟨name, f', h⟩ : ∃ name f', f.allocate base avoid = (name, f') := ⟨_, _, rfl⟩
  obtain ⟨-, -, hnew, -⟩ := allocate_spec h
  rw [h]
  exact hnew

/-! ## One request -/

section
variable (f : Fresh) (r : Request)

theorem mem_taken_perform {x : String} :
    x ∈ (f.perform r).taken ↔ x ∈ r.reserved ∨ x ∈ f.answer? r ∨ x ∈ f.taken := by
  cases r with
  | reserve names => simp [perform, Request.reserved, answer?, mem_taken_reserve]
  | allocate base avoid => simp [perform, Request.reserved, answer?, allocate, eq_comm]

theorem nodup_taken_perform (hf : f.taken.Nodup) : (f.perform r).taken.Nodup := by
  cases r with
  | reserve names => exact nodup_taken_reserve names hf
  | allocate base avoid => exact List.nodup_cons.mpr ⟨f.allocate_not_taken base avoid, hf⟩

theorem answer?_not_taken {x : String} (hx : x ∈ f.answer? r) : x ∉ f.taken := by
  cases r with
  | reserve names => cases hx
  | allocate base avoid =>
    cases hx
    exact f.allocate_not_taken base avoid

theorem separator_perform : (f.perform r).separator = f.separator := by
  cases r <;> rfl

end

/-! ## All requests -/

section
variable (f : Fresh) (l : List Request)

theorem mem_taken_after {x : String} :
    x ∈ (f.after l).taken ↔ x ∈ l.flatMap Request.reserved ∨ x ∈ f.handedOut l ∨ x ∈ f.taken := by
  induction l generalizing f with
  | nil => simp [after, handedOut]
  | cons r l ih =>
    have hstep : f.after (r :: l) = (f.perform r).after l := rfl
    rw [hstep, ih, mem_taken_perform, handedOut, List.flatMap_cons, List.mem_append, List.mem_append,
      Option.mem_toList]
    simp only [or_assoc, or_left_comm, Option.mem_def]

theorem isTaken_after (hf : f.taken = []) {x : String} :
    (f.after l).isTaken x ↔ x ∈ l.flatMap Request.reserved ∨ x ∈ f.handedOut l := by
  rw [isTaken, List.contains_iff_mem, mem_taken_after, hf]
  simp

theorem nodup_taken_after (hf : f.taken.Nodup) : (f.after l).taken.Nodup := by
  induction l generalizing f with
  | nil => exact hf
  | cons r l ih => exact ih _ (f.nodup_taken_perform r hf)

theorem separator_after : (f.after l).separator = f.separator := by
  induction l generalizing f with
  | nil => rfl
  | cons r l ih => exact (ih _).trans (f.separator_perform r)

theorem handedOut_not_taken {x : String} (hx : x ∈ f.handedOut l) : x ∉ f.taken := by
  induction l generalizing f with
  | nil => cases hx
  | cons r l ih =>
    rw [handedOut, List.mem_append, Option.mem_toList] at hx
    rcases hx with hx | hx
    · exact f.answer?_not_taken r hx
    · intro hf
      exact ih _ hx ((f.mem_taken_perform r).mpr (.inr (.inr hf)))

theorem nodup_handedOut : (f.handedOut l).Nodup := by
  induction l generalizing f with
  | nil => exact List.nodup_nil
  | cons r l ih =>
    rw [handedOut, List.nodup_append]
    refine ⟨?_, ih _, fun x hx y hy hxy => ?_⟩
    · cases f.answer? r <;> simp
    · -- what is handed out later avoids what is taken after this request
      subst hxy
      refine handedOut_not_taken _ l hy ((f.mem_taken_perform r).mpr (.inr (.inl ?_)))
      exact Option.mem_toList.mp hx

end

/-! ## The search -/

/-- From number `n` on, `looked` candidates are looked at; the last of them, number `m`, is
the first that is not blocked. -/
inductive Search (name : Nat → String) (blocked : String → Prop) : (n looked m : Nat) → Prop
  | found {n} : ¬ blocked (name n) → Search name blocked n 1 n
  | next {n looked m} : blocked (name n) → Search name blocked (n + 1) looked m →
      Search name blocked n (looked + 1) m

theorem Search.of_first {name : Nat → String} {blocked : String → Prop} {n m : Nat} (hnm : n ≤ m)
    (hpassed : ∀ i, n ≤ i → i < m → blocked (name i)) (hm : ¬ blocked (name m)) :
    Search name blocked n (m - n + 1) m := by
  induction hd : m - n generalizing n with
  | zero =>
    obtain rfl : n = m := by omega
    exact .found hm
  | succ d ih =>
    refine .next (hpassed n (Nat.le_refl n) (by omega)) (ih (by omega) (fun i hi => ?_) (by omega))
    exact hpassed i (by omega)

/-- So many numbers in a row need as many names in the way. -/
theorem sub_le_length {name : Nat → String} (hinj : ∀ {m n}, name m = name n → m = n) {n m : Nat}
    {l : List String} (h : ∀ i, n ≤ i → i < m → name i ∈ l) : m - n ≤ l.length := by
  have hrange : (List.range' n (m - n)).Nodup := List.nodup_range'
  have hnodup : ((List.range' n (m - n)).map name).Nodup := hrange.map fun _ _ hij => hinj hij
  have hsub : (List.range' n (m - n)).map name ⊆ l := by
    intro x hx
    obtain ⟨i, hi, rfl⟩ := List.mem_map.mp hx
    rw [List.mem_range'_1] at hi
    exact h i hi.1 (by omega)
  simpa using hnodup.length_le_of_subset hsub

/-! ## Every request is answered -/

def Blocks (f : Fresh) (avoid : Pred) (x : String) : Prop := x ∈ avoid.freeNames ∨ x ∈ f.taken

theorem blocks_iff {f : Fresh} {avoid : Pred} {x : String} :
    f.Blocks avoid x ↔ x ∈ avoid.names ++ f.taken := by
  simp [Blocks, Pred.freeNames]

theorem allocate_number (f : Fresh) (base : String) (avoid : Pred) :
    ∃ n, (f.allocate base avoid).1 = f.candidate base n ∧ f.counter base ≤ n ∧
      ¬ f.Blocks avoid (f.candidate base n) ∧
      (∀ m, f.counter base ≤ m → m < n → f.Blocks avoid (f.candidate base m)) ∧
      ∀ x, (f.allocate base avoid).2.counter x = if x = base then n + 1 else f.counter x := by
  refine ⟨_, rfl, le_firstFree .., ?_, fun m hm hlt => ?_, fun x => ?_⟩
  · rw [blocks_iff]
    exact firstFree_not_mem (f.candidate_inj base) _ _
  · rw [blocks_iff]
    exact mem_of_lt_firstFree hm hlt
  · unfold counter allocate
    by_cases hx : x = base
    · simp [hx, counter]
    · simp [hx, List.lookup_cons, beq_false_of_ne hx]

/-- **Fresh names.** After any sequence of requests, the search for a name comes to an end: it
looks at no more candidates than there are names taken and names to avoid, and one more. Its
answer is the first candidate, from the number that is next for the variable, that is neither
to be avoided nor taken. So it is none of the names reserved or handed out before, for whichever
variable, and it is taken from then on. -/
theorem allocate_first_free (separator : String) (l : List Request) (base : String) (avoid : Pred) :
    let start : Fresh := { separator }
    let f := start.after l
    let name := (f.allocate base avoid).1
    let f' := (f.allocate base avoid).2
    (∃ n looked,
      Search (f.candidate base) (f.Blocks avoid) (f.counter base) looked n ∧
      looked ≤ f.taken.length + avoid.freeNames.length + 1 ∧
      name = base ++ separator ++ toString n ∧
      IsLeast {m | f.counter base ≤ m ∧ base ++ separator ++ toString m ∉ avoid.freeNames ∧
        base ++ separator ++ toString m ∉ f.taken} n ∧
      ∀ x, f'.counter x = if x = base then n + 1 else f.counter x) ∧
    name ∉ l.flatMap Request.reserved ∧ name ∉ start.handedOut l ∧ name ∈ f'.taken ∧
    (start.handedOut l).Nodup ∧ f.taken.Nodup ∧ avoid.freeNames.Nodup ∧
    ∀ x, x ∈ f.taken ↔ x ∈ l.flatMap Request.reserved ∨ x ∈ start.handedOut l := by
  intro start f name f'
  have hsep : f.separator = separator := start.separator_after l
  have hcandidate (m : Nat) : base ++ separator ++ toString m = f.candidate base m := by
    rw [candidate, hsep]
  have htaken (x : String) : x ∈ f.taken ↔ x ∈ l.flatMap Request.reserved ∨ x ∈ start.handedOut l := by
    rw [start.mem_taken_after l]
    simp [start]
  have hnew : name ∉ f.taken := f.allocate_not_taken base avoid
  rw [htaken, not_or] at hnew
  refine ⟨?_, hnew.1, hnew.2, List.mem_cons_self .., start.nodup_handedOut l,
    start.nodup_taken_after l List.nodup_nil, nodup_inOrder _, htaken⟩
  obtain ⟨n, hname, hle, hfree, hpassed, hcounter⟩ := f.allocate_number base avoid
  refine ⟨n, n - f.counter base + 1, .of_first hle hpassed hfree, ?_, by rw [hcandidate]; exact hname,
    ⟨?_, fun m hm => ?_⟩, hcounter⟩
  · have hmem : ∀ m, f.counter base ≤ m → m < n → f.candidate base m ∈ f.taken ++ avoid.freeNames :=
      fun m hm hlt => List.mem_append.mpr (hpassed m hm hlt).symm
    have hlen := sub_le_length (f.candidate_inj base) hmem
    rw [List.length_append] at hlen
    omega
  · simp only [hcandidate]
    exact ⟨hle, not_or.mp hfree⟩
  · simp only [hcandidate] at hm
    exact Nat.le_of_not_lt fun hlt => not_or.mpr hm.2 (hpassed m hm.1 hlt)

-- without a separator, the first name for `x1` is also the eleventh for `x`
example :
    let tt := Pred.ofBool true
    handedOut { separator := "" } [.allocate "x1" tt,
      .reserve ["x0", "x1", "x2", "x3", "x4", "x5", "x6", "x7", "x8"], .allocate "x" tt, .allocate "x" tt] =
      ["x10", "x9", "x11"] := by decide

end Fresh

end StrongestPost
