import Mathlib.Algebra.Group.Int.Defs
import Mathlib.Algebra.Group.Nat.Defs
import StrongestPost.Json.Lexer

/-!
# Texts of tokens

There are many texts for the same tokens: blanks may stand between them, a character of a
string may be escaped in several ways, and a number may have a fraction or an exponent.
`Layout` says which texts a list of tokens has, and `lex?_of_layout` that the machine reads
all of them, one token after the other. Two words must not touch, and in the tokens of a
value they never do.
-/

namespace StrongestPost.Json

/-! ## Numbers -/

def Digits (ds : List Char) : Prop := ds ≠ [] ∧ ∀ c ∈ ds, c.isDigit = true

structure Exponent where
  letter : Char
  sign : List Char
  digits : List Char
  letter_mem : letter = 'e' ∨ letter = 'E' := by simp
  sign_mem : sign = [] ∨ sign = ['+'] ∨ sign = ['-'] := by simp
  digits_ok : Digits digits

/-- A number as it is written. -/
structure Numeral where
  negative : Bool
  whole : List Char
  /-- The digits behind the point. -/
  fraction : Option { ds : List Char // Digits ds } := none
  exponent : Option Exponent := none
  whole_ok : Digits whole
  no_leading_zero : whole.head? = some '0' → whole = ['0']

namespace Exponent

def text (e : Exponent) : List Char := e.letter :: (e.sign ++ e.digits)

def value (e : Exponent) : Int := if e.sign = ['-'] then -(ofDigits e.digits : Int) else ofDigits e.digits

end Exponent

namespace Numeral

def fractionText (n : Numeral) : List Char := n.fraction.elim [] fun ds => '.' :: ds.val

def exponentText (n : Numeral) : List Char := n.exponent.elim [] Exponent.text

def text (n : Numeral) : List Char :=
  (if n.negative then ['-'] else []) ++ (n.whole ++ (n.fractionText ++ n.exponentText))

/-- An integer that fits in 64 bits is one, unless it is written with a fraction or an
exponent; minus zero is not. -/
def token (n : Numeral) : Token :=
  let v := ofDigits n.whole
  match n.fraction, n.exponent with
  | none, none =>
    if n.negative then
      if 0 < v ∧ v ≤ 2 ^ 63 then .int (-v) else .decimal ⟨true, v, 0⟩
    else
      if v < 2 ^ 64 then .int v else .decimal ⟨false, v, 0⟩
  | none, some e => .decimal ⟨n.negative, v, e.value⟩
  | some ds, e? =>
    .decimal ⟨n.negative, ofDigits (n.whole ++ ds.val), e?.elim 0 Exponent.value - ds.val.length⟩

end Numeral

def Token.Finite : Token → Prop
  | .decimal d => d.isFinite = true
  | _ => True

section
variable {c : Char} {ds cs : List Char}

theorem digits?_append (hds : Digits ds) (hcs : ∀ c ∈ cs.head?, c.isDigit = false) :
    digits? (ds ++ cs) = some (ds, cs) := by
  have htake : (ds ++ cs).takeWhile Char.isDigit = ds := by
    rw [List.takeWhile_append_of_pos hds.2]
    cases cs with
    | nil => simp
    | cons c cs => simp [hcs c rfl]
  have hdrop : (ds ++ cs).dropWhile Char.isDigit = cs := by
    rw [List.dropWhile_append_of_pos hds.2]
    cases cs with
    | nil => rfl
    | cons c cs => simp [hcs c rfl]
  unfold digits?
  rw [htake, hdrop]
  cases ds with
  | nil => exact absurd rfl hds.1
  | cons d ds => rfl

theorem exponent?_text (e : Exponent) : exponent? e.text = some e.value := by
  obtain ⟨letter, sign, digits, hletter, hsign, hdigits⟩ := e
  have hpower : exponent?.power? digits = some (ofDigits digits) := by
    have h : digits? (digits ++ []) = some (digits, []) := digits?_append hdigits (by simp)
    rw [List.append_nil] at h
    simp only [exponent?.power?, h]
  have hfirst : ∀ x ∈ digits.head?, x ≠ '-' ∧ x ≠ '+' := by
    intro x hx
    have hd := hdigits.2 x (List.mem_of_mem_head? hx)
    constructor
    · rintro rfl; cases hd
    · rintro rfl; cases hd
  simp only [Exponent.text, exponent?, Exponent.value, hletter, if_true]
  rcases hsign with rfl | rfl | rfl
  · rw [List.nil_append]
    cases digits with
    | nil => exact absurd rfl hdigits.1
    | cons d ds =>
      obtain ⟨hminus, hplus⟩ := hfirst d rfl
      split
      · rename_i h; cases h; exact absurd rfl hminus
      · rename_i h; cases h; exact absurd rfl hplus
      · simp [hpower]
  · simp [hpower]
  · simp [hpower]

theorem exponent?_exponentText (n : Numeral) :
    exponent? n.exponentText = some (n.exponent.elim 0 Exponent.value) := by
  unfold Numeral.exponentText
  cases n.exponent with
  | none => rfl
  | some e => exact exponent?_text e

theorem head?_exponentText (n : Numeral) : ∀ c ∈ n.exponentText.head?, c = 'e' ∨ c = 'E' := by
  unfold Numeral.exponentText
  cases n.exponent with
  | none => simp
  | some e => simpa [Exponent.text] using e.letter_mem

theorem fraction?_fractionText (n : Numeral) :
    fraction? (n.fractionText ++ n.exponentText) =
      some (n.fraction.elim [] Subtype.val, n.exponentText) := by
  have hhead := head?_exponentText n
  have hdigit : ∀ c ∈ n.exponentText.head?, c.isDigit = false := by
    intro c hc
    rcases hhead c hc with rfl | rfl
    · rfl
    · rfl
  unfold Numeral.fractionText
  cases n.fraction with
  | some ds => exact digits?_append ds.2 hdigit
  | none =>
    simp only [Option.elim_none, List.nil_append]
    unfold fraction?
    split
    · rename_i h
      have := hhead '.' (by simp [h])
      simp at this
    · rfl

theorem whole?_append (n : Numeral) : whole? (n.whole ++ (n.fractionText ++ n.exponentText)) =
    some (n.whole, n.fractionText ++ n.exponentText) := by
  have hnext : ∀ c ∈ (n.fractionText ++ n.exponentText).head?, c.isDigit = false := by
    intro c hc
    cases hf : n.fraction with
    | some ds =>
      simp only [Numeral.fractionText, hf, Option.elim_some, List.cons_append, List.head?_cons,
        Option.mem_some_iff] at hc
      subst hc; rfl
    | none =>
      simp only [Numeral.fractionText, hf, Option.elim_none, List.nil_append] at hc
      rcases head?_exponentText n c hc with rfl | rfl
      · rfl
      · rfl
  have hzero : ¬ (n.whole.head? = some '0' ∧ n.whole ≠ ['0']) := fun h => h.2 (n.no_leading_zero h.1)
  simp [whole?, digits?_append n.whole_ok hnext, hzero]

theorem ofNumber_eq_token (n : Numeral) :
    ofNumber n.negative n.whole (n.fraction.elim [] Subtype.val) n.exponentText
      (n.exponent.elim 0 Exponent.value) = n.token := by
  obtain ⟨negative, whole, fraction, exponent, -, -⟩ := n
  unfold ofNumber Numeral.token
  cases fraction with
  | some ds => simp [ds.2.1]
  | none =>
    cases exponent with
    | some e => simp [Numeral.exponentText, Exponent.text]
    | none => cases negative <;> simp [Numeral.exponentText]

theorem number?_whole (n : Numeral) (hn : n.token.Finite) :
    number? n.negative (n.whole ++ (n.fractionText ++ n.exponentText)) = some n.token := by
  simp only [number?, whole?_append, fraction?_fractionText, exponent?_exponentText, Option.bind_eq_bind,
    Option.bind_some, ofNumber_eq_token]
  cases ht : n.token with
  | decimal d =>
    rw [ht] at hn
    exact if_pos hn
  | _ => rfl

theorem head?_whole (n : Numeral) : ∃ d ds, n.whole = d :: ds ∧ d.isDigit = true := by
  obtain ⟨hne, hall⟩ := n.whole_ok
  cases hw : n.whole with
  | nil => exact absurd hw hne
  | cons d ds => exact ⟨d, ds, rfl, hall d (by simp [hw])⟩

theorem word?_text (n : Numeral) (hn : n.token.Finite) : word? n.text = some n.token := by
  have hnumber := number?_whole n hn
  obtain ⟨d, ds, hw, hd⟩ := head?_whole n
  unfold Numeral.text
  cases hneg : n.negative with
  | true =>
    rw [hneg] at hnumber
    simp [word?, hnumber]
  | false =>
    rw [hneg] at hnumber
    rw [hw] at hnumber ⊢
    -- a digit starts none of the literals, and no negative number
    have hne : d ≠ '-' ∧ d ≠ 'n' ∧ d ≠ 't' ∧ d ≠ 'f' := by
      refine ⟨?_, ?_, ?_, ?_⟩ <;> rintro rfl <;> cases hd
    have hliteral : ∀ w ∈ ["null", "true", "false"], d :: (ds ++ (n.fractionText ++ n.exponentText)) ≠ w.toList := by
      simp [hne]
    simp only [Bool.false_eq_true, if_false, List.nil_append, List.cons_append] at hnumber ⊢
    unfold word?
    rw [if_neg (hliteral "null" (by simp)), if_neg (hliteral "true" (by simp)),
      if_neg (hliteral "false" (by simp))]
    split
    · rename_i h; cases h; exact absurd rfl hne.1
    · exact hnumber

end

/-! ## Strings -/

/-- What stands behind a backslash, and the character it stands for. -/
def shortEscapes : List (Char × Char) :=
  [('"', '"'), ('\\', '\\'), ('/', '/'), ('b', '\x08'), ('f', '\x0c'), ('n', '\n'), ('r', '\r'), ('t', '\t')]

/-- Four hexadecimal digits, of either case, and the code unit they make. -/
inductive CodeUnit : List Char → Nat → Prop
  | mk {h₁ h₂ h₃ h₄ a b c d} : hexDigit? h₁ = some a → hexDigit? h₂ = some b → hexDigit? h₃ = some c →
      hexDigit? h₄ = some d → CodeUnit [h₁, h₂, h₃, h₄] (16 * (16 * (16 * a + b) + c) + d)

/-- The ways to write a character of a string. One that does not fit in a code unit takes a
pair of them. -/
inductive SpellsChar : List Char → Char → Prop
  | raw {c} : c ≠ '"' → c ≠ '\\' → 0x20 ≤ c.toNat → SpellsChar [c] c
  | short {e c} : (e, c) ∈ shortEscapes → SpellsChar ['\\', e] c
  | unit {hs c} : CodeUnit hs c.toNat → SpellsChar ('\\' :: 'u' :: hs) c
  | pair {hs ls c} : 0x10000 ≤ c.toNat → CodeUnit hs (0xd800 + (c.toNat - 0x10000) / 0x400) →
      CodeUnit ls (0xdc00 + (c.toNat - 0x10000) % 0x400) →
      SpellsChar ('\\' :: 'u' :: (hs ++ '\\' :: 'u' :: ls)) c

inductive SpellsChars : List Char → List Char → Prop
  | nil : SpellsChars [] []
  | cons {w c ws cs} : SpellsChar w c → SpellsChars ws cs → SpellsChars (w ++ ws) (c :: cs)

section
variable {back cs w : List Char} {acc : List Token} {c : Char}

theorem lexFrom_codeUnit {hs : List Char} {u : Nat} {high : Option Nat} (h : CodeUnit hs u) :
    lexFrom (.unit back high 0 0) acc (hs ++ cs) =
      (codeUnit back high u).bind fun m => lexFrom m acc cs := by
  cases h with
  | mk h₁ h₂ h₃ h₄ =>
    simp only [List.cons_append, List.nil_append, lexFrom, step, h₁, h₂, h₃, h₄, Option.bind_eq_bind,
      Option.bind_some, Nat.reduceEqDiff, if_false, if_true, Option.pure_def, Nat.mul_zero, Nat.zero_add]
    cases codeUnit back high _ with
    | none => rfl
    | some m => rfl

theorem codeUnit_toNat (c : Char) (h : c.toNat < 0x10000) :
    codeUnit back none c.toNat = some (.string (c :: back)) := by
  -- no character is a surrogate
  have hvalid : c.toNat < 0xd800 ∨ 0xdfff < c.toNat ∧ c.toNat < 0x110000 := c.valid
  have hhigh : ¬ (0xd800 ≤ c.toNat ∧ c.toNat ≤ 0xdbff) := by omega
  have hlow : ¬ (0xdc00 ≤ c.toNat ∧ c.toNat ≤ 0xdfff) := by omega
  simp only [codeUnit, hhigh, hlow, if_false, Char.ofNat_toNat]

theorem codeUnit_high (c : Char) (h : 0x10000 ≤ c.toNat) :
    codeUnit back none (0xd800 + (c.toNat - 0x10000) / 0x400) =
      some (.pair back (0xd800 + (c.toNat - 0x10000) / 0x400)) := by
  have hvalid : c.toNat < 0xd800 ∨ 0xdfff < c.toNat ∧ c.toNat < 0x110000 := c.valid
  simp only [codeUnit]
  rw [if_pos (by omega)]

theorem codeUnit_low (c : Char) (h : 0x10000 ≤ c.toNat) :
    codeUnit back (some (0xd800 + (c.toNat - 0x10000) / 0x400)) (0xdc00 + (c.toNat - 0x10000) % 0x400) =
      some (.string (c :: back)) := by
  have hcode : 0x10000 + (0xd800 + (c.toNat - 0x10000) / 0x400 - 0xd800) * 0x400 +
      (0xdc00 + (c.toNat - 0x10000) % 0x400 - 0xdc00) = c.toNat := by omega
  simp only [codeUnit]
  rw [if_pos (by omega), hcode, Char.ofNat_toNat]

theorem toNat_le_of_le {x y : Char} (h : x ≤ y) : x.toNat ≤ y.toNat := UInt32.le_iff_toNat_le.mp h

theorem lt_of_hexDigit? {d : Nat} (h : hexDigit? c = some d) : d < 16 := by
  unfold hexDigit? at h
  by_cases hdec : '0' ≤ c ∧ c ≤ '9'
  · have hle : c.toNat ≤ 57 := toNat_le_of_le hdec.2
    rw [if_pos hdec] at h
    cases h
    show c.toNat - 48 < 16
    omega
  · rw [if_neg hdec] at h
    by_cases hlower : 'a' ≤ c ∧ c ≤ 'f'
    · have hle : c.toNat ≤ 102 := toNat_le_of_le hlower.2
      rw [if_pos hlower] at h
      cases h
      show c.toNat - 97 + 10 < 16
      omega
    · rw [if_neg hlower] at h
      by_cases hupper : 'A' ≤ c ∧ c ≤ 'F'
      · have hle : c.toNat ≤ 70 := toNat_le_of_le hupper.2
        rw [if_pos hupper] at h
        cases h
        show c.toNat - 65 + 10 < 16
        omega
      · rw [if_neg hupper] at h
        cases h

theorem CodeUnit.lt {hs : List Char} {u : Nat} (h : CodeUnit hs u) : u < 0x10000 := by
  cases h with
  | mk h₁ h₂ h₃ h₄ =>
    have := lt_of_hexDigit? h₁
    have := lt_of_hexDigit? h₂
    have := lt_of_hexDigit? h₃
    have := lt_of_hexDigit? h₄
    omega

theorem lexFrom_spellsChar (h : SpellsChar w c) :
    lexFrom (.string back) acc (w ++ cs) = lexFrom (.string (c :: back)) acc cs := by
  cases h with
  | raw hquote hslash hcontrol =>
    have hcontrol : ¬ c.toNat < 0x20 := by omega
    simp only [List.cons_append, List.nil_append, lexFrom, step, hquote, hslash, hcontrol, if_false]
  | short he =>
    simp only [shortEscapes, List.mem_cons, Prod.mk.injEq, List.not_mem_nil, or_false] at he
    rcases he with ⟨rfl, rfl⟩ | ⟨rfl, rfl⟩ | ⟨rfl, rfl⟩ | ⟨rfl, rfl⟩ | ⟨rfl, rfl⟩ | ⟨rfl, rfl⟩ | ⟨rfl, rfl⟩ |
      ⟨rfl, rfl⟩ <;> rfl
  | unit hu =>
    show lexFrom (.unit back none 0 0) acc (_ ++ cs) = _
    rw [lexFrom_codeUnit hu, codeUnit_toNat c hu.lt]
    rfl
  | pair hc hu hl =>
    show lexFrom (.unit back none 0 0) acc (_ ++ cs) = _
    rw [List.append_assoc, lexFrom_codeUnit hu, codeUnit_high c hc]
    show lexFrom (.unit back (some _) 0 0) acc (_ ++ cs) = _
    rw [lexFrom_codeUnit hl, codeUnit_low c hc]
    rfl

theorem lexFrom_spellsChars {xs : List Char} (h : SpellsChars w xs) :
    lexFrom (.string back) acc (w ++ '"' :: cs) =
      lexFrom .between (.str (String.ofList (back.reverse ++ xs)) :: acc) cs := by
  induction h generalizing back with
  | nil => simp [lexFrom, step]
  | cons hc _ ih => rw [List.append_assoc, lexFrom_spellsChar hc, ih]; simp

end

/-! ## Layouts -/

/-- The ways to write a token. -/
inductive Token.Spells : List Char → Token → Prop
  | openArr : Spells ['['] .openArr
  | closeArr : Spells [']'] .closeArr
  | openObj : Spells ['\x7b'] .openObj
  | closeObj : Spells ['\x7d'] .closeObj
  | colon : Spells [':'] .colon
  | comma : Spells [','] .comma
  | null : Spells ['n', 'u', 'l', 'l'] .null
  | isTrue : Spells ['t', 'r', 'u', 'e'] (.bool true)
  | isFalse : Spells ['f', 'a', 'l', 's', 'e'] (.bool false)
  | number {n : Numeral} : n.token.Finite → Spells n.text n.token
  | str {w s} : SpellsChars w s.toList → Spells ('"' :: (w ++ ['"'])) (.str s)

def Blank (ws : List Char) : Prop := ∀ c ∈ ws, c = ' ' ∨ c = '\t' ∨ c = '\n' ∨ c = '\r'

/-- The texts of a list of tokens: blanks may stand before, between and behind them. -/
inductive Layout : List Char → List Token → Prop
  | nil {ws} : Blank ws → Layout ws []
  | cons {ws w cs t ts} : Blank ws → Token.Spells w t → Layout cs ts → Layout (ws ++ (w ++ cs)) (t :: ts)

/-- Literals and numbers are words; nothing but blanks tells where they end. -/
def Token.isWord : Token → Bool
  | .null | .bool _ | .int _ | .decimal _ => true
  | .openArr | .closeArr | .openObj | .closeObj | .colon | .comma | .str _ => false

/-- No word follows a word. -/
def Apart : List Token → Prop
  | [] => True
  | t :: ts => (t.isWord = true → ∀ u ∈ ts.head?, u.isWord = false) ∧ Apart ts

def Delimits (c : Char) : Prop := isSpace c = true ∨ c = '"' ∨ (punctuation? c).isSome = true

instance (c : Char) : Decidable (Delimits c) :=
  inferInstanceAs (Decidable (isSpace c = true ∨ c = '"' ∨ (punctuation? c).isSome = true))

section
variable {cs w ws back : List Char} {acc : List Token} {c : Char} {t : Token}

theorem Blank.isSpace (h : Blank ws) : ∀ c ∈ ws, Json.isSpace c = true := by
  intro c hc
  rcases h c hc with rfl | rfl | rfl | rfl <;> rfl

theorem lexFrom_blank (h : Blank ws) : lexFrom .between acc (ws ++ cs) = lexFrom .between acc cs := by
  induction ws with
  | nil => rfl
  | cons c ws ih =>
    have hc : start c = (.between, []) := by
      rcases h c (List.mem_cons_self ..) with rfl | rfl | rfl | rfl <;> rfl
    rw [List.cons_append, lexFrom, step, hc]
    exact ih fun x hx => h x (List.mem_cons_of_mem _ hx)

theorem lexFrom_word_chars (hw : ∀ c ∈ w, ¬ Delimits c) :
    lexFrom (.word back) acc (w ++ cs) = lexFrom (.word (w.reverse ++ back)) acc cs := by
  induction w generalizing back with
  | nil => rfl
  | cons c w ih =>
    have hc : ¬ Delimits c := hw c (List.mem_cons_self ..)
    unfold Delimits at hc
    rw [List.cons_append, lexFrom, step, if_neg hc]
    simp only [List.nil_append]
    rw [ih fun x hx => hw x (List.mem_cons_of_mem _ hx)]
    simp

theorem lexFrom_word_end (ht : word? back.reverse = some t) (hnext : ∀ c ∈ cs.head?, Delimits c) :
    lexFrom (.word back) acc cs = lexFrom .between (t :: acc) cs := by
  cases cs with
  | nil => simp [lexFrom, finish, ht]
  | cons c cs =>
    have hc : Delimits c := hnext c rfl
    unfold Delimits at hc
    simp only [lexFrom, step, if_pos hc, ht, Option.bind_eq_bind, Option.bind_some, Option.pure_def,
      List.append_assoc, List.singleton_append]

theorem lexFrom_word (hne : w ≠ []) (hw : ∀ c ∈ w, ¬ Delimits c) (ht : word? w = some t)
    (hnext : ∀ c ∈ cs.head?, Delimits c) :
    lexFrom .between acc (w ++ cs) = lexFrom .between (t :: acc) cs := by
  cases w with
  | nil => exact absurd rfl hne
  | cons c w =>
    have hc : ¬ Delimits c := hw c (List.mem_cons_self ..)
    have hstart : start c = (.word [c], []) := by
      simp only [Delimits, not_or, Bool.not_eq_true, Option.isSome_eq_false_iff, Option.isNone_iff_eq_none] at hc
      simp [start, hc]
    rw [List.cons_append, lexFrom, step, hstart]
    simp only [List.nil_append]
    rw [lexFrom_word_chars fun x hx => hw x (List.mem_cons_of_mem _ hx)]
    exact lexFrom_word_end (by simpa using ht) hnext

theorem Delimits.mem (h : Delimits c) :
    c ∈ [' ', '\t', '\n', '\r', '"', '[', ']', '\x7b', '\x7d', ':', ','] := by
  rcases h with h | rfl | h
  · simp only [Json.isSpace, Bool.or_eq_true, decide_eq_true_eq] at h
    rcases h with ((rfl | rfl) | rfl) | rfl <;> decide
  · decide
  · refine Decidable.byContradiction fun hnot => ?_
    simp only [List.mem_cons, not_or] at hnot
    simp [punctuation?, hnot] at h

theorem not_delimits_of_isDigit (h : c.isDigit = true) : ¬ Delimits c := by
  intro hc
  have hnot : [' ', '\t', '\n', '\r', '"', '[', ']', '\x7b', '\x7d', ':', ','].all (!·.isDigit) = true := by
    decide
  have hdigit := List.all_eq_true.mp hnot c hc.mem
  rw [h] at hdigit
  cases hdigit

theorem not_delimits_of_all (h : w.all (fun c => decide (¬ Delimits c)) = true) : ∀ c ∈ w, ¬ Delimits c :=
  fun c hc => of_decide_eq_true (List.all_eq_true.mp h c hc)

theorem not_delimits_numeral (n : Numeral) : ∀ c ∈ n.text, ¬ Delimits c := by
  have hdigits : ∀ {ds : List Char}, Digits ds → ∀ c ∈ ds, ¬ Delimits c :=
    fun h c hc => not_delimits_of_isDigit (h.2 c hc)
  obtain ⟨negative, whole, fraction, exponent, hwhole, -⟩ := n
  simp only [Numeral.text, List.forall_mem_append]
  refine ⟨?_, hdigits hwhole, ?_, ?_⟩
  · cases negative with
    | true => rw [if_pos rfl]; exact not_delimits_of_all (by decide)
    | false => simp
  · cases fraction with
    | none => simp [Numeral.fractionText]
    | some ds => exact List.forall_mem_cons.mpr ⟨by decide, hdigits ds.2⟩
  · cases exponent with
    | none => simp [Numeral.exponentText]
    | some e =>
      refine List.forall_mem_cons.mpr ⟨?_, List.forall_mem_append.mpr ⟨?_, hdigits e.digits_ok⟩⟩
      · rcases e.letter_mem with h | h <;> rw [h] <;> decide
      · rcases e.sign_mem with h | h | h <;> rw [h] <;> exact not_delimits_of_all (by decide)

theorem Numeral.text_ne_nil (n : Numeral) : n.text ≠ [] := by
  intro h
  simp only [Numeral.text, List.append_eq_nil_iff] at h
  exact n.whole_ok.1 h.2.1

theorem Numeral.isWord_token (n : Numeral) : n.token.isWord = true := by
  simp only [Numeral.token]
  split
  · split <;> split <;> rfl
  · rfl
  · rfl

theorem lexFrom_token (h : Token.Spells w t) (hnext : t.isWord = true → ∀ c ∈ cs.head?, Delimits c) :
    lexFrom .between acc (w ++ cs) = lexFrom .between (t :: acc) cs := by
  cases h with
  | openArr | closeArr | openObj | closeObj | colon | comma => rfl
  | null | isTrue | isFalse => exact lexFrom_word (by simp) (not_delimits_of_all (by decide)) (by decide) (hnext rfl)
  | @number n hfinite =>
    exact lexFrom_word n.text_ne_nil (not_delimits_numeral n) (word?_text n hfinite) (hnext n.isWord_token)
  | str hs =>
    rw [List.cons_append, List.append_assoc]
    show lexFrom (.string []) acc (_ ++ '"' :: cs) = _
    rw [lexFrom_spellsChars hs]
    simp

theorem Token.Spells.delimits (h : Token.Spells w t) (ht : t.isWord = false) :
    ∃ c w', w = c :: w' ∧ Delimits c := by
  cases h with
  | openArr | closeArr | openObj | closeObj | colon | comma | str => exact ⟨_, _, rfl, by decide⟩
  | null | isTrue | isFalse => cases ht
  | @number n => rw [n.isWord_token] at ht; cases ht

/-- What comes behind a word delimits it. -/
theorem Layout.delimits {ts : List Token} (h : Layout cs ts) (hts : ∀ u ∈ ts.head?, u.isWord = false) :
    ∀ c ∈ cs.head?, Delimits c := by
  have hblank : ∀ {ws : List Char} {c : Char}, Blank ws → c ∈ ws → Delimits c :=
    fun hws hc => .inl (hws.isSpace _ hc)
  intro c hc
  cases h with
  | nil hws => exact hblank hws (List.mem_of_mem_head? hc)
  | @cons ws w cs t ts hws hw =>
    cases ws with
    | cons x ws => cases hc; exact hblank hws (List.mem_cons_self ..)
    | nil =>
      obtain ⟨x, w', rfl, hx⟩ := hw.delimits (hts t rfl)
      cases hc
      exact hx

theorem lexFrom_layout {ts : List Token} (h : Layout cs ts) (hts : Apart ts) :
    lexFrom .between acc cs = some (acc.reverse ++ ts) := by
  induction h generalizing acc with
  | @nil ws hws =>
    rw [← List.append_nil ws, lexFrom_blank hws]
    simp [lexFrom, finish]
  | cons hws hw hcs ih =>
    -- where the token is a word, the rest of the layout must show where it ends
    rw [lexFrom_blank hws, lexFrom_token hw fun hword => hcs.delimits (hts.1 hword), ih hts.2]
    simp

end

theorem lex?_of_layout {s : String} {ts : List Token} (h : Layout s.toList ts) (hts : Apart ts) :
    lex? s = some ts :=
  lexFrom_layout h hts

end StrongestPost.Json
