import Relief.Token

/-!
How tokens are spelled: the texts of numbers, names, operators and blanks, said apart from the scanner
that looks for them.
-/
namespace Relief.Scan

open Relief.Token Relief.Number Relief.Text

def IsDigits (cs : List Char) : Prop := ∀ c ∈ cs, isDigit c = true

/-- What a row of digits is worth. -/
def worth (cs : List Char) : Nat := digitsValue (cs.filterMap digit?)

/-- The text of a number up to its exponent, with its digits as one number and how many of them stand
after the point. -/
inductive MantissaText : List Char → Nat → Nat → Prop where
  | whole {ds : List Char} : ds ≠ [] → IsDigits ds → MantissaText ds (worth ds) 0
  | point {ds fs : List Char} : ds ++ fs ≠ [] → IsDigits ds → IsDigits fs →
    MantissaText (ds ++ '.' :: fs) (worth (ds ++ fs)) fs.length

def isExponentMark (c : Char) : Bool := c == 'e' || c == 'E'

inductive ExponentText : List Char → Int → Prop where
  | none : ExponentText [] 0
  | unsigned {mark : Char} {ds : List Char} : isExponentMark mark = true → ds ≠ [] → IsDigits ds →
    ExponentText (mark :: ds) (worth ds)
  | signed {mark sign : Char} {ds : List Char} : isExponentMark mark = true →
    sign = '+' ∨ sign = '-' → ds ≠ [] → IsDigits ds →
    ExponentText (mark :: sign :: ds) (withSign (sign == '-') (worth ds))

inductive NumberText : List Char → Decimal → Prop where
  | intro {m x : List Char} {coefficient places : Nat} {e : Int} :
    MantissaText m coefficient places → ExponentText x e →
    NumberText (m ++ x) ⟨coefficient, e - places⟩

inductive NameText : List Char → Prop where
  | intro {c : Char} {cs : List Char} : isNameStart c = true → (∀ d ∈ cs, isNamePart d = true) →
    NameText (c :: cs)

def symbols : List (List Char × Kind) :=
  [(['*', '*'], .caret), (['^'], .caret), (['+'], .plus), (['-'], .minus), (['*'], .star),
   (['/'], .slash), (['('], .openParen), ([')'], .closeParen), ([','], .comma)]

/-- The texts of a lexeme. Names of no meaning are lexemes too: they end the scan. -/
inductive Spells : List Char → Lexeme → Prop where
  | number {w : List Char} {d : Decimal} : NumberText w d →
    Spells w (.token (.number (d.toFloat false)))
  | qualified {w : List Char} : NameText w →
    Spells (Shorthand.qualifier.toList ++ w) (ofQualified (String.ofList w))
  | name {w : List Char} : NameText w → Spells w (ofName (String.ofList w))
  | symbol {w : List Char} {k : Kind} : (w, k) ∈ symbols → Spells w (.token k)
  | blank {w : List Char} : w ≠ [] → (∀ c ∈ w, isBlank c = true) → Spells w .blank

/-! ### What characters begin -/

section Classes

variable {c : Char}

theorem isAsciiLetter_iff : isAsciiLetter c = true ↔
    (97 ≤ c.toNat ∧ c.toNat ≤ 122) ∨ (65 ≤ c.toNat ∧ c.toNat ≤ 90) := by
  simp only [isAsciiLetter, Bool.or_eq_true, Bool.and_eq_true, decide_eq_true_eq]
  rfl

theorem isNameStart_iff : isNameStart c = true ↔
    (97 ≤ c.toNat ∧ c.toNat ≤ 122) ∨ (65 ≤ c.toNat ∧ c.toNat ≤ 90) ∨ c.toNat = 95 := by
  rw [isNameStart, Bool.or_eq_true, isAsciiLetter_iff, or_assoc, beq_iff_eq, ← Char.toNat_inj]
  rfl

theorem isNamePart_iff : isNamePart c = true ↔
    isNameStart c = true ∨ (48 ≤ c.toNat ∧ c.toNat ≤ 57) := by
  simp only [isNamePart, Bool.or_eq_true, Bool.and_eq_true, decide_eq_true_eq]
  rfl

/-- Digits lie in the row of ten from one of the zeros. -/
theorem exists_zero_of_isDigit (h : isDigit c = true) :
    ∃ z ∈ zeros, z ≤ c.toNat ∧ c.toNat ≤ z + 9 := by
  simp only [isDigit, digit?, Option.isSome_iff_exists] at h
  obtain ⟨d, h⟩ := h
  split at h
  · split at h
    · next hr => exact ⟨48, by decide, by omega, by omega⟩
    · cases h
  · obtain ⟨z, hz, -⟩ := Option.map_eq_some_iff.1 h
    have hb := List.find?_some hz
    simp only [Bool.and_eq_true, decide_eq_true_eq] at hb
    exact ⟨z, List.mem_of_find?_eq_some hz, hb.1, by omega⟩

theorem isDigit_iff_of_lt (h : c.toNat < 128) :
    isDigit c = true ↔ 48 ≤ c.toNat ∧ c.toNat ≤ 57 := by
  simp only [isDigit, digit?, h, if_true]
  split <;> simp_all

theorem not_isDigit_of_isNameStart (h : isNameStart c = true) : isDigit c = false := by
  rw [isNameStart_iff] at h
  rw [← Bool.not_eq_true, isDigit_iff_of_lt (by omega)]
  omega

theorem not_isDigit_of_isBlank (h : isBlank c = true) : isDigit c = false := by
  obtain ⟨r, hr, h1, h2⟩ := (Ranges.contains_iff _ _).1 h
  rw [← Bool.not_eq_true]
  intro hd
  obtain ⟨z, hz, h3, h4⟩ := exists_zero_of_isDigit hd
  have ht : ∀ r ∈ blankRanges, ∀ z ∈ zeros, r.2 < z ∨ z + 9 < r.1 := by decide
  have := ht r hr z hz
  omega

theorem not_isNameStart_of_isBlank (h : isBlank c = true) : isNameStart c = false := by
  obtain ⟨r, hr, h1, h2⟩ := (Ranges.contains_iff _ _).1 h
  rw [← Bool.not_eq_true, isNameStart_iff]
  have ht : ∀ r ∈ blankRanges, r.2 < 65 ∨ 122 < r.1 := by decide
  have := ht r hr
  omega

end Classes

end Relief.Scan
