import StrongestPost.Proofs.Hygiene

/-!
# Values at entry

A name is renamed at both moments, so when a variable is overwritten, `old(x)` moves to
the fresh name together with `x`. What the precondition says about values at entry is not
lost: the postcondition says it of the names that the variables went to, and those that
were not written went nowhere (`Stmt.Derives.traced`).
-/

namespace StrongestPost

/-- Every reference is to a value at entry. -/
def Pred.EntryOnly (p : Pred) : Prop := p.SpeaksOf fun k => k.moment = .before

/-- The state in which `x` has the value of `ρ x`. -/
def State.through (s : State) (ρ : String → String) : State := fun x => s (ρ x)

/-- `ρ` moves names of `xs` only, and only to names that were handed out. -/
def Moved (xs : List String) (notes : List Note) (ρ : String → String) : Prop :=
  ∀ x, ρ x = x ∨ (x ∈ xs ∧ ρ x ∈ notes.filterMap Note.name?)

/-! ## Moving names -/

section
variable {xs ys : List String} {notes n₁ n₂ : List Note} {ρ ρ₁ ρ₂ : String → String}

theorem Moved.id : Moved xs notes id := fun _ => .inl rfl

theorem Moved.mono (h : Moved xs notes ρ) (hxs : ∀ x ∈ xs, x ∈ ys)
    (hnotes : ∀ n ∈ notes, n ∈ n₂) : Moved ys n₂ ρ := by
  intro x
  rcases h x with hx | ⟨hx, hname⟩
  · exact .inl hx
  · obtain ⟨n, hn, hname⟩ := List.mem_filterMap.mp hname
    exact .inr ⟨hxs x hx, List.mem_filterMap.mpr ⟨n, hnotes n hn, hname⟩⟩

/-- The names that the first steps move may be moved again. -/
theorem Moved.comp (h₁ : Moved xs n₁ ρ₁) (h₂ : Moved ys n₂ ρ₂) : Moved (xs ++ ys) (n₁ ++ n₂) (ρ₂ ∘ ρ₁) := by
  intro x
  rw [Function.comp_apply, List.mem_append, List.filterMap_append, List.mem_append]
  rcases h₁ x with hx | ⟨hx, hname⟩
  · rw [hx]
    rcases h₂ x with hy | ⟨hy, hname⟩
    · exact .inl hy
    · exact .inr ⟨.inr hy, .inr hname⟩
  · rcases h₂ (ρ₁ x) with hy | ⟨hy, hname'⟩
    · rw [hy]; exact .inr ⟨.inl hx, .inl hname⟩
    · exact .inr ⟨.inl hx, .inr hname'⟩

theorem Moved.allocated {x y : String} {p : Pred} (hx : x ∈ xs) (hn : .allocated x y p ∈ notes) :
    Moved xs notes (fun w => if w = x then y else w) := by
  intro w
  by_cases hw : w = x
  · subst hw
    simp only [if_true]
    exact .inr ⟨hx, mem_names_of_allocated hn⟩
  · exact .inl (if_neg hw)

theorem State.set_eq_through (s : State) (x y : String) :
    s.set x (s y) = s.through fun w => if w = x then y else w := by
  ext w
  unfold set through
  by_cases hw : w = x
  · simp [hw]
  · simp [hw]

theorem Pred.EntryOnly.holds_iff {z : ByZero} {r : Pred} (hr : r.EntryOnly) {s s' b b' : State}
    (hb : State.AgreeOn r.names b b') : r.Holds z s b ↔ r.Holds z s' b' := by
  refine Pred.holds_congr fun k hk => ?_
  obtain ⟨x, m⟩ := k
  cases m with
  | current => exact absurd (hr _ hk) (by simp)
  | before => exact hb x (List.mem_map_of_mem hk)

end

/-! ## Tracing a postcondition back -/

section
variable {z : ByZero} {c : Config} {f f' : Fresh} {notes : List Note} {pre post : Pred} {s b : State}

theorem Pred.rename_traced {xs : List String} {x y : String} {p : Pred} (hx : x ∈ xs)
    (hn : .allocated x y pre ∈ notes) (h : (p.rename x y).Holds z s b) :
    ∃ s₀ ρ, Moved xs notes ρ ∧ p.Holds z s₀ (b.through ρ) := by
  rw [Pred.holds_rename, b.set_eq_through] at h
  exact ⟨_, _, Moved.allocated hx hn, h⟩

theorem Havocs.traced {xs : List String} (h : Havocs xs pre f notes post f') (hs : post.Holds z s b) :
    ∃ s₀ ρ, Moved xs notes ρ ∧ pre.Holds z s₀ (b.through ρ) := by
  induction h generalizing s b with
  | nil => exact ⟨s, id, .id, hs⟩
  | @cons x y xs p q f f₁ f₂ notes _ _ ih =>
    obtain ⟨s₁, ρ₂, hρ₂, hmid⟩ := ih hs
    obtain ⟨s₀, ρ₁, hρ₁, hp⟩ := Pred.rename_traced (List.mem_singleton_self x)
      (List.mem_singleton_self (Note.allocated x y p)) hmid
    exact ⟨s₀, ρ₂ ∘ ρ₁, hρ₁.comp hρ₂, hp⟩

/-- Where the postcondition holds, the precondition holds of the values at entry that the
written variables were moved to. -/
theorem Stmt.Derives.traced {a : Stmt} {level : Nat} {goesOn : Bool}
    (h : a.Derives c level goesOn pre f notes post f') (hs : post.Holds z s b) :
    ∃ s₀ ρ, Moved a.targets notes ρ ∧ pre.Holds z s₀ (b.through ρ) := by
  induction h generalizing s b with
  | seq _ _ iha ihb =>
    obtain ⟨s₁, ρ₂, hρ₂, hmid⟩ := ihb hs
    obtain ⟨s₀, ρ₁, hρ₁, hp⟩ := iha hmid
    refine ⟨s₀, ρ₂ ∘ ρ₁, (hρ₁.comp hρ₂).mono (fun _ hx => hx) fun n hn => ?_, hp⟩
    exact List.mem_append_right _ hn
  | block _ _ ih =>
    obtain ⟨s₀, ρ, hρ, hp⟩ := ih hs
    exact ⟨s₀, ρ, hρ.mono (fun _ hx => hx) fun n hn => .tail _ hn, hp⟩
  | assign | localInit => exact Pred.rename_traced (.head _) (.tail _ (.head _)) hs.1
  | localAny => exact Pred.rename_traced (.head _) (.tail _ (.head _)) hs
  | iteOutside _ _ _ _ _ iha ihb =>
    simp only [Pred.holds_atSpan, Pred.holds_or, Pred.holds_and] at hs
    rcases hs with ⟨-, hp⟩ | ⟨-, hq⟩
    · obtain ⟨s₀, ρ, hρ, hpre⟩ := iha hp
      refine ⟨s₀, ρ, hρ.mono (fun _ hx => List.mem_append_left _ hx) fun n hn => ?_, hpre⟩
      exact .tail _ (.tail _ (List.mem_append_left _ hn))
    · obtain ⟨s₀, ρ, hρ, hpre⟩ := ihb hq
      refine ⟨s₀, ρ, hρ.mono (fun _ hx => List.mem_append_right _ hx) fun n hn => ?_, hpre⟩
      exact .tail _ (.tail _ (List.mem_append_right _ hn))
  | iteOnEntry _ _ _ _ _ iha ihb =>
    simp only [Pred.holds_atSpan, Pred.holds_or] at hs
    rcases hs with hp | hq
    · obtain ⟨s₀, ρ, hρ, hpre⟩ := iha hp
      rw [Pred.holds_atSpan] at hpre
      refine ⟨s₀, ρ, hρ.mono (fun _ hx => List.mem_append_left _ hx) fun n hn => ?_, hpre.2⟩
      exact .tail _ (.tail _ (List.mem_append_left _ hn))
    · obtain ⟨s₀, ρ, hρ, hpre⟩ := ihb hq
      rw [Pred.holds_atSpan] at hpre
      refine ⟨s₀, ρ, hρ.mono (fun _ hx => List.mem_append_right _ hx) fun n hn => ?_, hpre.2⟩
      exact .tail _ (.tail _ (List.mem_append_right _ hn))
  | assume | assert => exact ⟨s, id, .id, hs.1⟩
  | loop _ _ _ hf =>
    rw [Pred.holds_atSpan] at hs
    -- the body has no say: only the frame speaks of the precondition
    obtain ⟨s₀, ρ, hρ, hpre⟩ := hf.traced hs.1.1
    refine ⟨s₀, ρ, hρ.mono (fun x hx => mem_inOrder.mp hx) fun n hn => ?_, hpre⟩
    exact .tail _ (.tail _ (.tail _ (List.mem_append_right _ (.tail _ hn))))
  | skip | passedLoop | passedCall => exact ⟨s, id, .id, hs⟩

end

/-- **Values at entry.** A fact about values at entry that follows from the precondition
follows from the postcondition too, if it is about variables that the statement does not
write. Of a variable that is written, the postcondition says it of a name that was handed
out for its value. -/
theorem Config.transform_entry_values (z : ByZero) (c : Config) (a : Stmt) (pre : Pred) {t : Transformed}
    (ht : (c.transform a pre).result = .ok t) :
    (∀ r : Pred, r.EntryOnly → (∀ x ∈ r.names, x ∉ a.assignedVars) → (pre.implies r).Valid z →
      (t.post.implies r).Valid z) ∧
    ∀ s b, t.post.Holds z s b → ∃ ρ : String → String,
      (∀ x, ρ x = x ∨ (x ∈ a.assignedVars ∧ ρ x ∈ (c.transform a pre).allocated)) ∧
      ∀ r : Pred, r.EntryOnly → (pre.implies r).Valid z → r.Holds z s (b.through ρ) := by
  obtain ⟨f', hd, -, -⟩ := Config.derives_of_run ht
  have htraced : ∀ s b, t.post.Holds z s b → ∃ ρ : String → String,
      (∀ x, ρ x = x ∨ (x ∈ a.assignedVars ∧ ρ x ∈ (c.transform a pre).allocated)) ∧
      ∀ r : Pred, r.EntryOnly → (pre.implies r).Valid z → r.Holds z s (b.through ρ) := by
    intro s b hpost
    obtain ⟨s₀, ρ, hρ, hpre⟩ := hd.traced hpost
    refine ⟨ρ, hρ.mono (fun x hx => mem_inOrder.mpr hx) fun _ hn => hn, fun r hr hvalid => ?_⟩
    exact (hr.holds_iff (.refl _ _)).mp (hvalid s₀ _ hpre)
  refine ⟨fun r hr hunwritten hvalid s b hpost => ?_, htraced⟩
  obtain ⟨ρ, hρ, hfacts⟩ := htraced s b hpost
  refine (hr.holds_iff fun x hx => ?_).mp (hfacts r hr hvalid)
  rcases hρ x with hstay | ⟨hx', -⟩
  · exact congrArg b hstay
  · exact absurd hx' (hunwritten x hx)

/-- `x` was one at entry. -/
def wasOne (x : String) : Pred := RelOp.eq.apply (.old x) (.ofInt64 1)

theorem wasOne_entryOnly (x : String) : (wasOne x).EntryOnly := by
  intro k hk
  cases hk with
  | head => rfl
  | tail _ hk => cases hk

def clearX : Stmt := .set "x" (.ofInt64 0)

theorem Config.transform_entry_values_clearX :
    let z : ByZero := ⟨fun _ => 0, fun _ => 0⟩
    let pre := (wasOne "x").and (wasOne "y")
    ∃ t, (({} : Config).transform clearX pre).result = .ok t ∧
      (({} : Config).transform clearX pre).allocated = ["x_0"] ∧ (t.post.implies (wasOne "y")).Valid z ∧
      ∀ s b, t.post.Holds z s b → (wasOne "x").Holds z s b ∨ (wasOne "x_0").Holds z s b := by
  intro z pre
  have hnames : (({} : Config).transform clearX pre).allocated = ["x_0"] := by decide
  obtain ⟨hkept, hmoved⟩ := Config.transform_entry_values z {} clearX pre rfl
  refine ⟨_, rfl, hnames, ?_, fun s b h => ?_⟩
  · exact hkept (wasOne "y") (wasOne_entryOnly "y") (by decide) fun _ _ h => h.2
  · obtain ⟨ρ, hρ, hfacts⟩ := hmoved s b h
    have hx : b (ρ "x") = (1 : Int64).toInt := hfacts (wasOne "x") (wasOne_entryOnly "x") fun _ _ h => h.1
    rcases hρ "x" with hstay | ⟨-, hname⟩
    · rw [hstay] at hx; exact .inl hx
    · rw [hnames, List.mem_singleton] at hname
      rw [hname] at hx; exact .inr hx

/-- What was known about `old(x)` does not follow any more after `x` was written: it has
become a fact about `old(x_0)`. -/
theorem Config.transform_forgets_old_of_written :
    let z : ByZero := ⟨fun _ => 0, fun _ => 0⟩
    let post := (wasOne "x_0").and (RelOp.eq.apply (.now "x") (.ofInt64 0))
    (({} : Config).transform clearX (wasOne "x")).result = .ok ⟨post, [], []⟩ ∧ clearX.Plain ∧
      (∀ k ∈ (wasOne "x").keys, k.moment = .before ∧ k.name ∈ clearX.names ++ (wasOne "x").names) ∧
      ((wasOne "x").implies (wasOne "x")).Valid z ∧ ¬ (post.implies (wasOne "x")).Valid z := by
  refine ⟨by rfl, trivial, by decide, fun _ _ h => h, fun h => ?_⟩
  let b : State := fun x => if x = "x_0" then 1 else 0
  have hold : b "x" = (1 : Int64).toInt := h (fun _ => 0) b ⟨rfl, rfl⟩
  exact absurd hold (by decide)

end StrongestPost
