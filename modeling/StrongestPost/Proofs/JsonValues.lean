import Mathlib.Logic.Basic
import StrongestPost.Json.Parser
import StrongestPost.Proofs.JsonLayout

/-!
# Values and their texts

The stack machine puts a value together from its tokens, unless arrays and objects nest too
deep: the stack holds one frame for each that is open, so there is room for a value as long
as what is open and what the value opens stay within the limit (`buildAll_tokensOnto`).
With the layouts of the tokens this says what is read from every text of a value
(`parse?_of_written`). The text that is written for a value is one of its texts.
-/

namespace StrongestPost.Json

/-! ## Nesting -/

mutual

/-- How many arrays and objects are open at the innermost place. -/
def nesting : Json → Nat
  | .null | .bool _ | .int _ | .decimal _ | .str _ => 0
  | .arr js => elementsNesting js + 1
  | .obj ms => membersNesting ms + 1

def elementsNesting : List Json → Nat
  | [] => 0
  | j :: js => max j.nesting (elementsNesting js)

def membersNesting : List (String × Json) → Nat
  | [] => 0
  | (_, j) :: ms => max j.nesting (membersNesting ms)

end

theorem nesting_lt_of_mem_arr {js : List Json} {j : Json} (h : j ∈ js) : j.nesting < (arr js).nesting := by
  rw [nesting]
  induction js with
  | nil => cases h
  | cons j' js ih =>
    rw [elementsNesting]
    rcases List.mem_cons.mp h with rfl | h
    · omega
    · have := ih h; omega

theorem nesting_lt_of_mem_obj {ms : List (String × Json)} {key : String} {j : Json} (h : (key, j) ∈ ms) :
    j.nesting < (obj ms).nesting := by
  rw [nesting]
  induction ms with
  | nil => cases h
  | cons m ms ih =>
    obtain ⟨k, j'⟩ := m
    rw [membersNesting]
    rcases List.mem_cons.mp h with h | h
    · cases h; omega
    · have := ih h; omega

/-! ## Building -/

section
variable {stack : List Frame} {rest : List Token}

/-- The first token of a value does not close anything. -/
theorem build_firstElement (j : Json) :
    buildAll (.firstElement stack) (j.tokensOnto rest) = buildAll (.value (.arr [] :: stack)) (j.tokensOnto rest) := by
  cases j with
  | null | bool | int | decimal | str => rfl
  | arr js => cases js <;> rfl
  | obj ms =>
    cases ms with
    | nil => rfl
    | cons m ms => rfl

theorem buildAll_open (h : stack.length < maxNesting) (ts : List Token) :
    buildAll (.value stack) (.openArr :: ts) = buildAll (.firstElement stack) ts ∧
      buildAll (.value stack) (.openObj :: ts) = buildAll (.firstName stack) ts := by
  simp only [buildAll, build, begin, h, if_true, and_self]

theorem buildAll_full (h : ¬ stack.length < maxNesting) (ts : List Token) :
    buildAll (.value stack) (.openArr :: ts) = none ∧ buildAll (.value stack) (.openObj :: ts) = none := by
  simp only [buildAll, build, begin, h, if_false, and_self]

mutual

/-- A value is handed on if there is room for it on the stack. -/
theorem buildAll_tokensOnto (j : Json) (stack : List Frame) (rest : List Token)
    (h : stack.length ≤ maxNesting) :
    buildAll (.value stack) (j.tokensOnto rest) =
      if stack.length + j.nesting ≤ maxNesting then buildAll (supply j stack) rest else none := by
  cases j with
  | null | bool | int | decimal | str => rw [nesting, if_pos (by omega)]; rfl
  | arr js =>
    by_cases hroom : stack.length < maxNesting
    · cases js with
      | nil =>
        rw [tokensOnto, nesting, elementsNesting, (buildAll_open hroom _).1, if_pos (by omega)]
        rfl
      | cons j js =>
        -- the first element is built on top of the frame of the array, the others after it
        rw [tokensOnto, nesting, elementsNesting, (buildAll_open hroom _).1, build_firstElement,
          buildAll_tokensOnto j (.arr [] :: stack) _ (by rw [List.length_cons]; omega), List.length_cons]
        simp only [supply]
        rw [buildAll_elementsOnto js stack [j] rest hroom, ← ite_and]
        exact if_congr (by omega) rfl rfl
    · rw [nesting, if_neg (by omega)]
      cases js <;> exact (buildAll_full hroom _).1
  | obj ms =>
    by_cases hroom : stack.length < maxNesting
    · cases ms with
      | nil =>
        rw [tokensOnto, nesting, membersNesting, (buildAll_open hroom _).2, if_pos (by omega)]
        rfl
      | cons m ms =>
        obtain ⟨k, j⟩ := m
        rw [tokensOnto, nesting, membersNesting, (buildAll_open hroom _).2]
        show buildAll (.value (.obj [] k :: stack)) (j.tokensOnto _) = _
        rw [buildAll_tokensOnto j (.obj [] k :: stack) _ (by rw [List.length_cons]; omega), List.length_cons]
        simp only [supply]
        rw [buildAll_membersOnto ms stack [(k, j)] rest hroom, ← ite_and]
        exact if_congr (by omega) rfl rfl
    · rw [nesting, if_neg (by omega)]
      cases ms <;> exact (buildAll_full hroom _).2

theorem buildAll_elementsOnto (js : List Json) (stack : List Frame) (back : List Json) (rest : List Token)
    (h : stack.length < maxNesting) :
    buildAll (.afterElement stack back) (elementsOnto js (.closeArr :: rest)) =
      if stack.length + 1 + elementsNesting js ≤ maxNesting then
        buildAll (supply (.arr (back.reverse ++ js)) stack) rest
      else none := by
  cases js with
  | nil =>
    rw [elementsOnto, elementsNesting, if_pos (by omega), List.append_nil]
    rfl
  | cons j js =>
    rw [elementsOnto, elementsNesting]
    show buildAll (.value (.arr back :: stack)) (j.tokensOnto _) = _
    rw [buildAll_tokensOnto j (.arr back :: stack) _ (by rw [List.length_cons]; omega), List.length_cons]
    simp only [supply]
    rw [buildAll_elementsOnto js stack (j :: back) rest h, ← ite_and, List.reverse_cons, List.append_assoc]
    exact if_congr (by omega) rfl rfl

theorem buildAll_membersOnto (ms : List (String × Json)) (stack : List Frame) (back : List (String × Json))
    (rest : List Token) (h : stack.length < maxNesting) :
    buildAll (.afterMember stack back) (membersOnto ms (.closeObj :: rest)) =
      if stack.length + 1 + membersNesting ms ≤ maxNesting then
        buildAll (supply (.obj (back.reverse ++ ms)) stack) rest
      else none := by
  cases ms with
  | nil =>
    rw [membersOnto, membersNesting, if_pos (by omega), List.append_nil]
    rfl
  | cons m ms =>
    obtain ⟨k, j⟩ := m
    rw [membersOnto, membersNesting]
    show buildAll (.value (.obj back k :: stack)) (j.tokensOnto _) = _
    rw [buildAll_tokensOnto j (.obj back k :: stack) _ (by rw [List.length_cons]; omega), List.length_cons]
    simp only [supply]
    rw [buildAll_membersOnto ms stack ((k, j) :: back) rest h, ← ite_and, List.reverse_cons, List.append_assoc]
    exact if_congr (by omega) rfl rfl

end

theorem ofTokens?_tokens (j : Json) :
    ofTokens? j.tokens = if j.nesting ≤ maxNesting then some j else none := by
  rw [ofTokens?, tokens, buildAll_tokensOnto j [] [] (Nat.zero_le _), List.length_nil, Nat.zero_add]
  by_cases h : j.nesting ≤ maxNesting
  · simp only [h, if_true, supply, buildAll]
  · simp only [h, if_false]

end

/-! ## No words touch -/

section
variable {rest : List Token}

/-- What may stand behind a value. -/
def Follows (ts : List Token) : Prop := Apart ts ∧ ∀ t ∈ ts.head?, t.isWord = false

theorem Follows.cons {t : Token} (ht : t.isWord = false) (h : Apart rest) : Follows (t :: rest) := by
  refine ⟨⟨fun hword => ?_, h⟩, fun u hu => ?_⟩
  · rw [ht] at hword; cases hword
  · cases hu; exact ht

mutual

theorem apart_tokensOnto (j : Json) (rest : List Token) (h : Follows rest) : Apart (j.tokensOnto rest) := by
  cases j with
  | null | bool | int | decimal | str => exact ⟨fun _ => h.2, h.1⟩
  | arr js =>
    cases js with
    | nil => exact (Follows.cons rfl (Follows.cons rfl h.1).1).1
    | cons j js =>
      have hrest := follows_elementsOnto js (.closeArr :: rest) (.cons rfl h.1)
      exact (Follows.cons rfl (apart_tokensOnto j _ hrest)).1
  | obj ms =>
    cases ms with
    | nil => exact (Follows.cons rfl (Follows.cons rfl h.1).1).1
    | cons m ms =>
      obtain ⟨k, j⟩ := m
      have hrest := follows_membersOnto ms (.closeObj :: rest) (.cons rfl h.1)
      have hvalue := apart_tokensOnto j _ hrest
      exact (Follows.cons rfl (Follows.cons rfl (Follows.cons rfl hvalue).1).1).1

theorem follows_elementsOnto (js : List Json) (rest : List Token) (h : Follows rest) :
    Follows (elementsOnto js rest) := by
  cases js with
  | nil => exact h
  | cons j js => exact .cons rfl (apart_tokensOnto j _ (follows_elementsOnto js rest h))

theorem follows_membersOnto (ms : List (String × Json)) (rest : List Token) (h : Follows rest) :
    Follows (membersOnto ms rest) := by
  cases ms with
  | nil => exact h
  | cons m ms =>
    obtain ⟨k, j⟩ := m
    have hvalue := apart_tokensOnto j _ (follows_membersOnto ms rest h)
    exact .cons rfl (Follows.cons rfl (Follows.cons rfl hvalue).1).1

end

theorem apart_tokens (j : Json) : Apart j.tokens := apart_tokensOnto j [] ⟨trivial, by simp⟩

end

/-! ## Texts of a value -/

/-- The text is one of the texts of the value. -/
def Written (s : String) (j : Json) : Prop := Layout s.toList j.tokens

theorem parse?_of_written {s : String} {j : Json} (h : Written s j) :
    parse? s = if j.nesting ≤ maxNesting then some j else none := by
  rw [parse?, lex?_of_layout h (apart_tokens j), Option.bind_some, ofTokens?_tokens]

/-! ## The text that is written -/

section

theorem digits_toDigits (n : Nat) : Digits (Nat.toDigits 10 n) :=
  ⟨Nat.toDigits_ne_nil, fun _ hc => Nat.isDigit_of_mem_toDigits (by decide) (by decide) hc⟩

theorem eq_zero_of_head?_toDigits {n : Nat} (h : (Nat.toDigits 10 n).head? = some '0') : n = 0 := by
  induction n using Nat.strongRecOn with
  | ind n ih =>
    by_cases hn : n < 10
    · rw [Nat.toDigits_of_lt_base hn, List.head?_cons, Option.some.injEq] at h
      exact Nat.digitChar_eq_zero.mp h
    · -- the first digit of `n` is that of `n / 10`, which is not zero
      rw [Nat.toDigits_of_base_le (by decide) (by omega), List.head?_append] at h
      have hsome : (Nat.toDigits 10 (n / 10)).head? = some '0' := by
        cases hd : Nat.toDigits 10 (n / 10) with
        | nil => exact absurd hd Nat.toDigits_ne_nil
        | cons d ds => rw [hd] at h; exact h
      have := ih (n / 10) (by omega) hsome
      omega

/-- The numeral of an integer, with no more digits than it takes. -/
def numeral (negative : Bool) (n : Nat) : Numeral where
  negative := negative
  whole := Nat.toDigits 10 n
  whole_ok := digits_toDigits n
  no_leading_zero h := by rw [eq_zero_of_head?_toDigits h]; rfl

theorem ofDigits_toDigits (n : Nat) : ofDigits (Nat.toDigits 10 n) = n := Nat.ofDigitChars_ten_toDigits

/-- The token can be read back from what is written for it: an integer that fits in 64 bits,
signed or unsigned, but no other number. -/
def Token.Fits : Token → Prop
  | .int n => -2 ^ 63 ≤ n ∧ n < 2 ^ 64
  | .decimal _ => False
  | _ => True

theorem numeral_text (negative : Bool) (n : Nat) :
    (numeral negative n).text = (if negative then ['-'] else []) ++ Nat.toDigits 10 n := by
  cases negative <;> simp [Numeral.text, Numeral.fractionText, Numeral.exponentText, numeral]

theorem spells_int {n : Int} (h : (Token.int n).Fits) : Token.Spells (Token.int n).text.toList (.int n) := by
  obtain ⟨hlow, hhigh⟩ := h
  have htext : (Token.int n).text.toList = n.repr.toList := by simp [Token.text]
  rw [htext, Int.repr_eq_if]
  by_cases hn : 0 ≤ n
  · have htoken : (numeral false n.toNat).token = .int n := by
      have hfits : n.toNat < 2 ^ 64 := by omega
      have hvalue : (n.toNat : Int) = n := by omega
      simp only [Numeral.token, numeral, ofDigits_toDigits, Bool.false_eq_true, hfits, if_false, if_true, hvalue]
    rw [if_pos hn, Nat.toList_repr, ← htoken]
    have hspells := Token.Spells.number (n := numeral false n.toNat) (by rw [htoken]; trivial)
    rwa [numeral_text] at hspells
  · have htoken : (numeral true (-n).toNat).token = .int n := by
      have hfits : 0 < (-n).toNat ∧ (-n).toNat ≤ 2 ^ 63 := by omega
      have hvalue : -((-n).toNat : Int) = n := by omega
      simp only [Numeral.token, numeral, ofDigits_toDigits, hfits, and_self, if_true, hvalue]
    rw [if_neg hn, String.toList_append, Nat.toList_repr, ← htoken]
    have hspells := Token.Spells.number (n := numeral true (-n).toNat) (by rw [htoken]; trivial)
    rwa [numeral_text] at hspells

theorem hexDigit?_digitChar : ∀ d < 16, hexDigit? (Nat.digitChar d) = some d := by decide

theorem spellsChar_control {c : Char} (h : c.toNat < 0x20) :
    SpellsChar ['\\', 'u', '0', '0', Nat.digitChar (c.toNat / 16), Nat.digitChar (c.toNat % 16)] c := by
  have hunit := CodeUnit.mk (hexDigit?_digitChar 0 (by decide)) (hexDigit?_digitChar 0 (by decide))
    (hexDigit?_digitChar (c.toNat / 16) (by omega)) (hexDigit?_digitChar (c.toNat % 16) (by omega))
  have hvalue : 16 * (16 * (16 * 0 + 0) + c.toNat / 16) + c.toNat % 16 = c.toNat := by omega
  rw [hvalue] at hunit
  exact .unit hunit

theorem spellsChar_escapedChar (c : Char) : SpellsChar (escapedChar c).toList c := by
  by_cases hshort : c ∈ ['"', '\\', '\x08', '\x0c', '\n', '\r', '\t']
  · simp only [List.mem_cons, List.not_mem_nil, or_false] at hshort
    rcases hshort with rfl | rfl | rfl | rfl | rfl | rfl | rfl <;> exact .short (by decide)
  · simp only [List.mem_cons, List.not_mem_nil, or_false, not_or] at hshort
    by_cases hcontrol : c.toNat < 0x20
    · simpa [escapedChar, hshort, hcontrol] using spellsChar_control hcontrol
    · simpa [escapedChar, hshort, hcontrol] using SpellsChar.raw hshort.1 hshort.2.1 (by omega)

theorem spells_str (s : String) : Token.Spells (Token.str s).text.toList (.str s) := by
  have hchars : ∀ cs : List Char, SpellsChars (String.join (cs.map escapedChar)).toList cs := by
    intro cs
    induction cs with
    | nil => exact .nil
    | cons c cs ih =>
      rw [List.map_cons, String.join_cons, String.toList_append]
      exact .cons (spellsChar_escapedChar c) ih
  have htext : (Token.str s).text.toList = '"' :: ((String.join (s.toList.map escapedChar)).toList ++ ['"']) := by
    simp [Token.text]
  rw [htext]
  exact .str (hchars s.toList)

theorem spells_text {t : Token} (h : t.Fits) : Token.Spells t.text.toList t := by
  cases t with
  | openArr => exact .openArr
  | closeArr => exact .closeArr
  | openObj => exact .openObj
  | closeObj => exact .closeObj
  | colon => exact .colon
  | comma => exact .comma
  | null => exact .null
  | bool b =>
    cases b with
    | true => exact .isTrue
    | false => exact .isFalse
  | int n => exact spells_int h
  | decimal d => exact h.elim
  | str s => exact spells_str s

theorem layout_texts {ts : List Token} (h : ∀ t ∈ ts, t.Fits) :
    Layout (String.join (ts.map Token.text)).toList ts := by
  induction ts with
  | nil => exact .nil (by simp [Blank])
  | cons t ts ih =>
    obtain ⟨ht, hts⟩ := List.forall_mem_cons.mp h
    rw [List.map_cons, String.join_cons, String.toList_append]
    have hblank : Blank [] := by simp [Blank]
    exact .cons hblank (spells_text ht) (ih hts)

theorem written_text {j : Json} (h : ∀ t ∈ j.tokens, t.Fits) : Written j.text j := layout_texts h

end

end StrongestPost.Json
