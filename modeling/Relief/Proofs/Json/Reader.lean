import Mathlib
import Relief.Proofs.Json.Numeral

/-!
Texts of JSON read as values. A value that is written without blanks is read as what it stands for, if its
numbers are finite.
-/
namespace Relief.Format.Json

open Relief.Number Relief.Text

/-! ### The reader -/

def isSpace (c : Char) : Bool :=
  c == ' ' || c == '\t' || c == '\n' || c == '\r'

def skipSpace (cs : List Char) : List Char :=
  cs.dropWhile isSpace

/-- The number of hexadecimal digits. -/
def code? (ds : List Char) : Option Nat :=
  (ds.mapM (digitIn? 16)).map (digitsIn 16)

/-- The character that a letter behind a backslash stands for. -/
def letter? : Char → Option Char
  | '"' => some '"'
  | '\\' => some '\\'
  | '/' => some '/'
  | 'b' => some '\x08'
  | 'f' => some '\x0c'
  | 'n' => some '\n'
  | 'r' => some '\r'
  | 't' => some '\t'
  | _ => none

/-- The code units of a text up to its closing quote, and what follows. -/
def readUnits? : List Char → Option (List Nat × List Char)
  | [] => none
  | '"' :: cs => some ([], cs)
  | '\\' :: 'u' :: c1 :: c2 :: c3 :: c4 :: cs => do
    let n ← code? [c1, c2, c3, c4]
    let (us, rest) ← readUnits? cs
    return (n :: us, rest)
  | '\\' :: c :: cs => do
    let d ← letter? c
    let (us, rest) ← readUnits? cs
    return (d.toNat :: us, rest)
  | c :: cs =>
    if c.toNat < 0x20 then none
    else do
      let (us, rest) ← readUnits? cs
      return (c.toNat :: us, rest)

/-- A text by its code units, which may be halves of a pair. -/
def textOf (us : List Nat) : Value :=
  match Value.textOfCodes? us with
  | some s => .text s
  | none => .codes us

def isBare (c : Char) : Bool :=
  c.isAlphanum || c == '-' || c == '+' || c == '.'

/-- A word or a number. -/
def bare? (w : List Char) : Option Value :=
  if w = "null".toList then some .null
  else if w = "true".toList then some (.bool true)
  else if w = "false".toList then some (.bool false)
  else number? w

/-- A name and the colon behind it. -/
def readName? (cs : List Char) : Option (Value × List Char) := do
  let '"' :: cs := skipSpace cs | none
  let (us, cs) ← readUnits? cs
  let ':' :: cs := skipSpace cs | none
  return (textOf us, cs)

mutual

/-- The value at the start of a text, and what follows. -/
def readValue? : (limit : Nat) → List Char → Option (Value × List Char)
  | 0, _ => none
  | limit + 1, cs =>
    match skipSpace cs with
    | '"' :: cs => (readUnits? cs).map fun p => (textOf p.1, p.2)
    | '[' :: cs =>
      match skipSpace cs with
      | ']' :: rest => some (.list [], rest)
      | cs => (readItems? limit cs).map fun p => (.list p.1, p.2)
    | '\x7b' :: cs =>
      match skipSpace cs with
      | '\x7d' :: rest => some (.map [], rest)
      | cs => (readMembers? limit cs).map fun p => (.map p.1, p.2)
    | cs => (bare? (cs.takeWhile isBare)).map fun v => (v, cs.dropWhile isBare)

def readItems? : (limit : Nat) → List Char → Option (List Value × List Char)
  | 0, _ => none
  | limit + 1, cs => do
    let (v, cs) ← readValue? limit cs
    match skipSpace cs with
    | ',' :: cs => (readItems? limit cs).map fun p => (v :: p.1, p.2)
    | ']' :: rest => some ([v], rest)
    | _ => none

def readMembers? : (limit : Nat) → List Char → Option (List (Value × Value) × List Char)
  | 0, _ => none
  | limit + 1, cs => do
    let (name, cs) ← readName? cs
    let (v, cs) ← readValue? limit cs
    match skipSpace cs with
    | ',' :: cs => (readMembers? limit cs).map fun p => ((name, v) :: p.1, p.2)
    | '\x7d' :: rest => some ([(name, v)], rest)
    | _ => none

end

/-- The value of a whole text. -/
def read? (cs : List Char) : Option Value := do
  let (v, rest) ← readValue? cs.length cs
  if rest.all isSpace then some v else none

/-! ### What a text stands for -/

mutual

def toValue : Json → Value
  | null => .null
  | bool b => .bool b
  | int n => .int n
  | float v => .float v
  | fixed places v => .float (inPlaces places v)
  | text s => .text s
  | list items => .list (itemValues items)
  | object members => .map (memberValues members)

def itemValues : List Json → List Value
  | [] => []
  | v :: vs => toValue v :: itemValues vs

def memberValues : List (String × Json) → List (Value × Value)
  | [] => []
  | (name, v) :: ms => (.text name, toValue v) :: memberValues ms

end

mutual

/-- All numbers are finite, and those in fixed places have a fraction. -/
def IsExact : Json → Prop
  | float v => v.isFinite = true
  | fixed places v => 0 < places ∧ v.isFinite = true
  | list items => AreExact items
  | object members => HaveExact members
  | _ => True

def AreExact : List Json → Prop
  | [] => True
  | v :: vs => IsExact v ∧ AreExact vs

def HaveExact : List (String × Json) → Prop
  | [] => True
  | (_, v) :: ms => IsExact v ∧ HaveExact ms

end

variable {c : Char} {cs w rest : List Char} {v : Value} {j : Json} {limit level : Nat}

/-! ### Texts in quotes -/

/-- The code units of a character. -/
def unitsOf (c : Char) : List Nat :=
  if c.toNat < 0x10000 then [c.toNat] else surrogates c.toNat

theorem digitIn?_digitChar : ∀ d < 16, digitIn? 16 d.digitChar = some d := by decide

theorem hex_succ {k : Nat} (hk : 0 < k) (n : Nat) :
    hex (k + 1) n = hex k (n / 16) ++ [(n % 16).digitChar] := by
  unfold hex
  dsimp only
  by_cases h : n < 16
  · rw [Nat.div_eq_of_lt h, Nat.mod_eq_of_lt h, Nat.toDigits_of_lt_base h,
      Nat.toDigits_of_lt_base (by decide : 0 < 16)]
    obtain ⟨k, rfl⟩ := Nat.exists_eq_succ_of_ne_zero hk.ne'
    exact congrArg (· ++ [n.digitChar]) (List.replicate_succ' (n := k))
  · rw [Nat.toDigits_of_base_le (by decide) (Nat.le_of_not_lt h), List.length_append,
      List.length_singleton, Nat.add_sub_add_right, List.append_assoc]

/-- A number below `16 ^ 4` has four digits, which are read as the number. -/
theorem code?_hex {n : Nat} (h : n < 0x10000) :
    ∃ c1 c2 c3 c4, hex 4 n = [c1, c2, c3, c4] ∧ code? [c1, c2, c3, c4] = some n := by
  refine ⟨(n / 16 / 16 / 16).digitChar, (n / 16 / 16 % 16).digitChar, (n / 16 % 16).digitChar,
    (n % 16).digitChar, ?_, ?_⟩
  · have hone : hex 1 (n / 16 / 16 / 16) = [(n / 16 / 16 / 16).digitChar] := by
      rw [hex, Nat.toDigits_of_lt_base (by omega)]
      rfl
    rw [hex_succ (by decide), hex_succ (by decide), hex_succ (by decide), hone]
    rfl
  · have hd : ∀ k, digitIn? 16 (k % 16).digitChar = some (k % 16) :=
      fun k => digitIn?_digitChar _ (Nat.mod_lt _ (by decide))
    have hv : digitsIn 16 [n / 16 / 16 / 16, n / 16 / 16 % 16, n / 16 % 16, n % 16] = n := by
      simp only [digitsIn, List.foldl_cons, List.foldl_nil]
      omega
    simp only [code?, List.mapM_cons, List.mapM_nil, hd, digitIn?_digitChar (n / 16 / 16 / 16)
      (by omega), Option.bind_eq_bind, Option.bind_some, Option.pure_def, Option.map_some, hv]

theorem readUnits?_escapeWord {n : Nat} (h : n < 0x10000) (rest : List Char) :
    readUnits? (escapeWord n ++ rest) = (readUnits? rest).map fun p => (n :: p.1, p.2) := by
  obtain ⟨c1, c2, c3, c4, hh, hc⟩ := code?_hex h
  rw [escapeWord, hh]
  simp only [List.cons_append, List.nil_append, readUnits?, hc, Option.bind_eq_bind, Option.bind_some,
    Option.map_eq_bind]
  rfl

theorem readUnits?_escapeWords {us : List Nat} (h : ∀ n ∈ us, n < 0x10000) (rest : List Char) :
    readUnits? (us.flatMap escapeWord ++ rest) = (readUnits? rest).map fun p => (us ++ p.1, p.2) := by
  induction us with
  | nil => simp
  | cons n us ih =>
    obtain ⟨hn, hus⟩ := List.forall_mem_cons.1 h
    rw [List.flatMap_cons, List.append_assoc, readUnits?_escapeWord hn, ih hus, Option.map_map]
    rfl

theorem toNat_lt (c : Char) : c.toNat < 0x110000 := by
  obtain h | h := c.valid
  · exact Nat.lt_trans h (by decide)
  · exact h.2

theorem unitsOf_lt (c : Char) : ∀ n ∈ unitsOf c, n < 0x10000 := by
  have hc := toNat_lt c
  unfold unitsOf
  split
  · simpa
  · intro n hn
    simp only [surrogates, List.mem_cons, List.not_mem_nil, or_false] at hn
    omega

/-- A character is escaped by a letter or by its code units, or stands for itself. -/
theorem escapeChar_cases (c : Char) :
    (∃ k, escapeChar true c = ['\\', k] ∧ letter? k = some c) ∨
    escapeChar true c = (unitsOf c).flatMap escapeWord ∨
    (0x20 ≤ c.toNat ∧ c.toNat < 0x7f ∧ c ≠ '"' ∧ c ≠ '\\' ∧ escapeChar true c = [c]) := by
  unfold escapeChar
  split
  · exact .inl ⟨'"', rfl, rfl⟩
  · exact .inl ⟨'\\', rfl, rfl⟩
  · exact .inl ⟨'n', rfl, rfl⟩
  · exact .inl ⟨'r', rfl, rfl⟩
  · exact .inl ⟨'t', rfl, rfl⟩
  · exact .inl ⟨'b', rfl, rfl⟩
  · exact .inl ⟨'f', rfl, rfl⟩
  · next hq hb _ _ _ _ _ =>
    simp only [Bool.not_true, Bool.or_false, decide_eq_true_eq, unitsOf]
    split
    · rw [if_pos (by omega), List.flatMap_singleton]
      exact .inr (.inl rfl)
    · split
      · exact .inr (.inr ⟨by omega, by assumption, hq, hb, rfl⟩)
      · split
        · rw [List.flatMap_singleton]
          exact .inr (.inl rfl)
        · exact .inr (.inl rfl)

theorem unitsOf_of_lt (h : c.toNat < 0x7f) : unitsOf c = [c.toNat] :=
  if_pos (Nat.lt_trans h (by decide))

theorem letter?_lt {k : Char} (h : letter? k = some c) : c.toNat < 0x7f := by
  unfold letter? at h
  split at h <;> cases h <;> decide

theorem readUnits?_letter {k : Char} (h : letter? k = some c) (rest : List Char) :
    readUnits? ('\\' :: k :: rest) = (readUnits? rest).map fun p => (c.toNat :: p.1, p.2) := by
  have hu : k ≠ 'u' := by
    rintro rfl
    cases h
  rw [readUnits?.eq_4 _ _ (by rintro _ _ _ _ _ hk; exact absurd hk hu), h]
  cases readUnits? rest <;> rfl

theorem readUnits?_escapeChar (c : Char) (rest : List Char) :
    readUnits? (escapeChar true c ++ rest) =
      (readUnits? rest).map fun p => (unitsOf c ++ p.1, p.2) := by
  obtain ⟨k, he, hk⟩ | he | ⟨hge, hlt, hq, hb, he⟩ := escapeChar_cases c
  · rw [he, unitsOf_of_lt (letter?_lt hk)]
    exact readUnits?_letter hk rest
  · rw [he, readUnits?_escapeWords (unitsOf_lt c)]
  · rw [he, unitsOf_of_lt hlt, List.singleton_append, readUnits?.eq_5 _ _ hq
      (fun _ _ _ _ _ h _ => hb h) (fun _ _ h _ => hb h), if_neg (Nat.not_lt.2 hge)]
    cases readUnits? rest <;> rfl

theorem char?_toNat (c : Char) : char? c.toNat = some c :=
  dif_pos c.valid

theorem join_cons {n : Nat} (hc : char? n = some c) (us : List Nat) :
    Value.textOfCodes?.join (n :: us) = (Value.textOfCodes?.join us).map (c :: ·) := by
  have hv : n.isValidChar := by
    by_contra hv
    rw [char?, dif_neg hv] at hc
    cases hc
  cases us with
  | nil => simp [Value.textOfCodes?.join, hc]
  | cons m us =>
    have hn : (decide (0xD800 ≤ n) && decide (n < 0xDC00)) = false := by
      rw [Bool.and_eq_false_iff, decide_eq_false_iff_not, decide_eq_false_iff_not]
      obtain h | h := hv <;> omega
    rw [Value.textOfCodes?.join, hn, Bool.false_and, Bool.false_and, hc]
    cases Value.textOfCodes?.join (m :: us) <;> rfl

/-- The halves of a pair are put together. -/
theorem join_surrogates (h : 0x10000 ≤ c.toNat) (us : List Nat) :
    Value.textOfCodes?.join (surrogates c.toNat ++ us) =
      (Value.textOfCodes?.join us).map (c :: ·) := by
  have hc := toNat_lt c
  have hn : 0x10000 + (0xD800 + (c.toNat - 0x10000) / 0x400 - 0xD800) * 0x400 +
      (0xDC00 + (c.toNat - 0x10000) % 0x400 - 0xDC00) = c.toNat := by omega
  have hr : (decide (0xD800 ≤ 0xD800 + (c.toNat - 0x10000) / 0x400) &&
      decide (0xD800 + (c.toNat - 0x10000) / 0x400 < 0xDC00) &&
      decide (0xDC00 ≤ 0xDC00 + (c.toNat - 0x10000) % 0x400) &&
      decide (0xDC00 + (c.toNat - 0x10000) % 0x400 < 0xE000)) = true := by
    simp only [Bool.and_eq_true, decide_eq_true_eq]
    omega
  rw [surrogates, List.cons_append, List.cons_append, List.nil_append, Value.textOfCodes?.join, hr,
    if_pos rfl, hn, char?_toNat]
  cases Value.textOfCodes?.join us <;> rfl

theorem join_unitsOf (cs : List Char) :
    Value.textOfCodes?.join (cs.flatMap unitsOf) = some cs := by
  induction cs with
  | nil => rfl
  | cons c cs ih =>
    rw [List.flatMap_cons, unitsOf]
    split
    · rw [List.singleton_append, join_cons (char?_toNat c), ih, Option.map_some]
    · next h => rw [join_surrogates (Nat.le_of_not_lt h), ih, Option.map_some]

theorem readUnits?_escaped (cs rest : List Char) :
    readUnits? (cs.flatMap (escapeChar true) ++ '"' :: rest) = some (cs.flatMap unitsOf, rest) := by
  induction cs with
  | nil => rfl
  | cons c cs ih =>
    rw [List.flatMap_cons, List.append_assoc, readUnits?_escapeChar, ih]
    rfl

theorem textOf_unitsOf (s : String) : textOf (s.toList.flatMap unitsOf) = .text s := by
  rw [textOf, Value.textOfCodes?, join_unitsOf, Option.map_some, String.ofList_toList]

/-! ### Words and numbers -/

/-- No character follows that could belong to a word or a number. -/
def EndsBare (rest : List Char) : Prop := ∀ c ∈ rest.head?, isBare c = false

theorem endsBare_cons (h : isBare c = false) (cs : List Char) : EndsBare (c :: cs) := by
  rintro _ ⟨⟩
  exact h

/-- Characters that could belong to a word or a number. -/
def AreBare (cs : List Char) : Prop := ∀ c ∈ cs, isBare c = true

theorem AreBare.cons (hc : isBare c = true) (h : AreBare cs) : AreBare (c :: cs) :=
  List.forall_mem_cons.2 ⟨hc, h⟩

theorem AreBare.of_digits (h : cs.all Char.isDigit = true) : AreBare cs := fun c hc => by
  rw [isBare, Char.isAlphanum, List.all_eq_true.1 h c hc, Bool.or_true]
  rfl

theorem AreBare.of_split (h : AreBare (cs.dropWhile Char.isDigit)) : AreBare cs := by
  rw [← List.takeWhile_append_dropWhile (p := Char.isDigit) (l := cs)]
  intro c hc
  obtain hc | hc := List.mem_append.1 hc
  · exact AreBare.of_digits List.all_takeWhile c hc
  · exact h c hc

theorem AreBare.of_signed (h : AreBare (signed cs).2) : AreBare cs := by
  unfold signed at h
  split at h
  · exact .cons rfl h
  · exact .cons rfl h
  · exact h

theorem AreBare.of_isExponent (h : isExponent cs = true) : AreBare cs := by
  cases cs with
  | nil => exact List.forall_mem_nil _
  | cons c cs =>
    simp only [isExponent, Bool.and_eq_true, Bool.or_eq_true, beq_iff_eq] at h
    have hs : AreBare cs := .of_signed (.of_digits h.2)
    obtain rfl | rfl := h.1.1 <;> exact .cons rfl hs

theorem AreBare.of_isFraction (h : isFraction cs = true) : AreBare cs := by
  unfold isFraction at h
  split at h
  · exact .cons rfl (.of_split (.of_isExponent (Bool.and_eq_true_iff.1 h).2))
  · exact .of_isExponent h

theorem AreBare.of_isNumber (h : isNumber w = true) : AreBare w := by
  have hd := AreBare.of_split (.of_isFraction (Bool.and_eq_true_iff.1 h).2)
  split at hd
  · next hm =>
    obtain ⟨ds, rfl⟩ := List.head?_eq_some_iff.1 hm
    exact .cons rfl hd
  · exact hd

theorem ne_nil_of_isNumber (h : isNumber w = true) : w ≠ [] := by
  rintro rfl
  cases h

theorem isNumber_of_number? (h : number? w = some v) : isNumber w = true := by
  by_contra hn
  rw [number?, Bool.eq_false_iff.2 hn] at h
  cases h

theorem bare?_of_number? (h : number? w = some v) : bare? w = some v := by
  have hne : ∀ word : String, isNumber word.toList = false → w ≠ word.toList := by
    rintro word hw rfl
    rw [isNumber_of_number? h] at hw
    cases hw
  rw [bare?, if_neg (hne "null" (by decide)), if_neg (hne "true" (by decide)),
    if_neg (hne "false" (by decide)), h]

theorem skipSpace_cons (h : isSpace c = false) (cs : List Char) : skipSpace (c :: cs) = c :: cs :=
  List.dropWhile_cons_of_neg (by simp [h])

theorem isBare_of_isSpace (h : isSpace c = true) : isBare c = false := by
  simp only [isSpace, Bool.or_eq_true, beq_iff_eq] at h
  obtain ((rfl | rfl) | rfl) | rfl := h <;> decide

theorem ne_of_isBare {b : Char} (hc : isBare c = true) (hb : isBare b = false) : c ≠ b := by
  rintro rfl
  exact absurd (hc.symm.trans hb) (by decide)

theorem isSpace_of_isBare (hc : isBare c = true) : isSpace c = false := by
  cases hs : isSpace c with
  | true => exact absurd (hc.symm.trans (isBare_of_isSpace hs)) (by decide)
  | false => rfl

theorem readValue?_bare (hn : w ≠ []) (hw : AreBare w) (hv : bare? w = some v) (hr : EndsBare rest) :
    readValue? (limit + 1) (w ++ rest) = some (v, rest) := by
  obtain ⟨ht, hd⟩ := takeWhile_append hw hr
  obtain ⟨c, cs, rfl⟩ := List.exists_cons_of_ne_nil hn
  have hc := hw c List.mem_cons_self
  rw [List.cons_append] at ht hd ⊢
  rw [readValue?, skipSpace_cons (isSpace_of_isBare hc)]
  split
  · next h => exact absurd (List.cons.inj h).1 (ne_of_isBare hc (by decide))
  · next h => exact absurd (List.cons.inj h).1 (ne_of_isBare hc (by decide))
  · next h => exact absurd (List.cons.inj h).1 (ne_of_isBare hc (by decide))
  · rw [ht, hd, hv, Option.map_some]

theorem readValue?_number (h : number? w = some v) (hr : EndsBare rest) :
    readValue? (limit + 1) (w ++ rest) = some (v, rest) :=
  readValue?_bare (ne_nil_of_isNumber (isNumber_of_number? h)) (.of_isNumber (isNumber_of_number? h))
    (bare?_of_number? h) hr

theorem readValue?_word (h : w = "null".toList ∨ w = "true".toList ∨ w = "false".toList)
    (hv : bare? w = some v) (hr : EndsBare rest) :
    readValue? (limit + 1) (w ++ rest) = some (v, rest) := by
  have hb : w ≠ [] ∧ w.all isBare = true := by
    obtain rfl | rfl | rfl := h <;> decide
  exact readValue?_bare hb.1 (List.all_eq_true.1 hb.2) hv hr

/-! ### Values -/

theorem bracketed_compact (level : Nat) (opening closing : Char) (parts : List (List Char)) :
    bracketed compact level opening closing parts =
      opening :: List.intercalate [','] parts ++ [closing] := by
  rw [bracketed]
  split
  · next h =>
    rw [List.isEmpty_iff.1 h]
    rfl
  · simp [lineBreak, compact]

theorem readValue?_text (s : String) (rest : List Char) :
    readValue? (limit + 1) (textChars true s ++ rest) = some (.text s, rest) := by
  have h := readUnits?_escaped s.toList rest
  rw [readValue?, textChars, List.append_assoc, List.cons_append, skipSpace_cons rfl]
  simp [h, textOf_unitsOf]

/-- What begins a value is no blank and closes nothing. -/
def Opens (cs : List Char) : Prop :=
  ∃ c rest, cs = c :: rest ∧ isSpace c = false ∧ c ≠ ']' ∧ c ≠ '\x7d'

theorem Opens.append (h : Opens cs) (rest : List Char) : Opens (cs ++ rest) := by
  obtain ⟨c, ds, rfl, h⟩ := h
  exact ⟨c, ds ++ rest, rfl, h⟩

theorem Opens.intercalate (h : Opens cs) (parts : List (List Char)) :
    Opens (List.intercalate [','] (cs :: parts)) := by
  cases parts with
  | nil => simpa [List.intercalate] using h
  | cons part parts =>
    rw [List.intercalate_cons_cons, List.append_assoc]
    exact h.append _

theorem Opens.of_bare (hn : w ≠ []) (hw : AreBare w) : Opens w := by
  obtain ⟨c, cs, rfl⟩ := List.exists_cons_of_ne_nil hn
  have hc := hw c List.mem_cons_self
  exact ⟨c, cs, rfl, isSpace_of_isBare hc, ne_of_isBare hc (by decide), ne_of_isBare hc (by decide)⟩

theorem Opens.of_number (h : number? w = some v) : Opens w :=
  .of_bare (ne_nil_of_isNumber (isNumber_of_number? h)) (.of_isNumber (isNumber_of_number? h))

theorem opens_textChars (s : String) : Opens (textChars true s) :=
  ⟨'"', _, rfl, by decide, by decide, by decide⟩

theorem opens_chars (h : IsExact j) (level : Nat) : Opens (chars compact level j) := by
  cases j with
  | null => exact .of_bare (w := "null".toList) (by decide) (List.all_eq_true.1 (by decide))
  | bool b =>
    cases b with
    | true => exact .of_bare (w := "true".toList) (by decide) (List.all_eq_true.1 (by decide))
    | false => exact .of_bare (w := "false".toList) (by decide) (List.all_eq_true.1 (by decide))
  | int n => exact .of_number (number?_int n)
  | float v => exact .of_number (number?_float h)
  | fixed places v => exact .of_number (number?_fixed h.1 h.2)
  | text s => exact opens_textChars s
  | list items =>
    rw [chars, bracketed_compact]
    exact ⟨'[', _, rfl, by decide, by decide, by decide⟩
  | object members =>
    rw [chars, bracketed_compact]
    exact ⟨'\x7b', _, rfl, by decide, by decide, by decide⟩

theorem readValue?_list {vs : List Value} (hc : Opens cs) (h : readItems? limit cs = some (vs, rest)) :
    readValue? (limit + 1) ('[' :: cs) = some (.list vs, rest) := by
  obtain ⟨c, cs, rfl, hs, hne, -⟩ := hc
  rw [readValue?, skipSpace_cons (by decide)]
  simp only
  rw [skipSpace_cons hs]
  split
  · next h => exact absurd (List.cons.inj h).1 hne
  · rw [h, Option.map_some]

theorem readValue?_map {ms : List (Value × Value)} (hc : Opens cs)
    (h : readMembers? limit cs = some (ms, rest)) :
    readValue? (limit + 1) ('\x7b' :: cs) = some (.map ms, rest) := by
  obtain ⟨c, cs, rfl, hs, -, hne⟩ := hc
  rw [readValue?, skipSpace_cons (by decide)]
  simp only
  rw [skipSpace_cons hs]
  split
  · next h => exact absurd (List.cons.inj h).1 hne
  · rw [h, Option.map_some]

theorem readName?_textChars (s : String) (rest : List Char) :
    readName? (textChars true s ++ ':' :: rest) = some (.text s, rest) := by
  have h := readUnits?_escaped s.toList (':' :: rest)
  rw [readName?, textChars, List.append_assoc, List.cons_append, skipSpace_cons rfl]
  simp only [List.singleton_append, h, Option.bind_eq_bind, Option.bind_some,
    skipSpace_cons (show isSpace ':' = false from rfl), textOf_unitsOf]
  rfl

theorem readItems?_last (h : readValue? limit cs = some (v, ']' :: rest)) :
    readItems? (limit + 1) cs = some ([v], rest) := by
  rw [readItems?, h]
  rfl

theorem readItems?_cons {vs : List Value} {ds : List Char}
    (h : readValue? limit cs = some (v, ',' :: ds)) (hs : readItems? limit ds = some (vs, rest)) :
    readItems? (limit + 1) cs = some (v :: vs, rest) := by
  rw [readItems?, h]
  change (readItems? limit ds).map _ = _
  rw [hs, Option.map_some]

theorem readMembers?_last {name : Value} {ds : List Char} (hn : readName? cs = some (name, ds))
    (h : readValue? limit ds = some (v, '\x7d' :: rest)) :
    readMembers? (limit + 1) cs = some ([(name, v)], rest) := by
  rw [readMembers?, hn]
  change (readValue? limit ds).bind _ = _
  rw [h]
  rfl

theorem readMembers?_cons {name : Value} {ms : List (Value × Value)} {ds es : List Char}
    (hn : readName? cs = some (name, ds)) (h : readValue? limit ds = some (v, ',' :: es))
    (hs : readMembers? limit es = some (ms, rest)) :
    readMembers? (limit + 1) cs = some ((name, v) :: ms, rest) := by
  rw [readMembers?, hn]
  change (readValue? limit ds).bind _ = _
  rw [h]
  change (readMembers? limit es).map _ = _
  rw [hs, Option.map_some]

/-- The text of one member. -/
def memberText (level : Nat) (name : String) (j : Json) : List Char :=
  textChars true name ++ ':' :: chars compact level j

theorem memberChars_cons (level : Nat) (name : String) (j : Json) (ms : List (String × Json)) :
    memberChars compact level ((name, j) :: ms) =
      memberText level name j :: memberChars compact level ms := by
  simp [memberChars, memberText, afterColon, compact]

theorem intercalate_singleton (part : List Char) : List.intercalate [','] [part] = part := by
  simp [List.intercalate]

mutual

/-- A value is read from its text, whatever follows it. -/
theorem readValue?_chars : ∀ (j : Json) (limit level : Nat) (rest : List Char), IsExact j →
    (chars compact level j).length ≤ limit → EndsBare rest →
    readValue? limit (chars compact level j ++ rest) = some (toValue j, rest)
  | j, 0, level, rest, he, hl, _ => by
    obtain ⟨c, cs, hc, -⟩ := opens_chars he level
    rw [hc] at hl
    cases hl
  | .null, limit + 1, level, rest, _, _, hr => readValue?_word (.inl rfl) rfl hr
  | .bool true, limit + 1, level, rest, _, _, hr => readValue?_word (.inr (.inl rfl)) rfl hr
  | .bool false, limit + 1, level, rest, _, _, hr => readValue?_word (.inr (.inr rfl)) rfl hr
  | .int n, limit + 1, level, rest, _, _, hr => readValue?_number (number?_int n) hr
  | .float v, limit + 1, level, rest, he, _, hr => readValue?_number (number?_float he) hr
  | .fixed places v, limit + 1, level, rest, he, _, hr =>
    readValue?_number (number?_fixed he.1 he.2) hr
  | .text s, limit + 1, level, rest, _, _, _ => readValue?_text s rest
  | .list [], limit + 1, level, rest, _, _, _ => rfl
  | .list (v :: vs), limit + 1, level, rest, he, hl, _ => by
    rw [chars, bracketed_compact, itemChars] at hl ⊢
    rw [List.length_append, List.length_cons, List.length_singleton] at hl
    rw [List.append_assoc, List.cons_append, List.singleton_append]
    exact readValue?_list (((opens_chars he.1 _).intercalate _).append _)
      (readItems?_chars v vs limit (level + 1) rest he.1 he.2 (by omega))
  | .object [], limit + 1, level, rest, _, _, _ => rfl
  | .object ((name, v) :: ms), limit + 1, level, rest, he, hl, _ => by
    rw [chars, bracketed_compact, memberChars_cons] at hl ⊢
    rw [List.length_append, List.length_cons, List.length_singleton] at hl
    rw [List.append_assoc, List.cons_append, List.singleton_append]
    exact readValue?_map ((((opens_textChars name).append _).intercalate _).append _)
      (readMembers?_chars name v ms limit (level + 1) rest he.1 he.2 (by omega))

theorem readItems?_chars : ∀ (v : Json) (vs : List Json) (limit level : Nat) (rest : List Char),
    IsExact v → AreExact vs →
    (List.intercalate [','] (chars compact level v :: itemChars compact level vs)).length < limit →
    readItems? limit (List.intercalate [','] (chars compact level v :: itemChars compact level vs) ++
      ']' :: rest) = some (toValue v :: itemValues vs, rest)
  | v, vs, 0, level, rest, _, _, hl => absurd hl (Nat.not_lt_zero _)
  | v, [], limit + 1, level, rest, hv, _, hl => by
    rw [itemChars, intercalate_singleton] at hl ⊢
    exact readItems?_last (readValue?_chars v limit level _ hv (Nat.le_of_lt_succ hl) (endsBare_cons rfl _))
  | v, w :: ws, limit + 1, level, rest, hv, hvs, hl => by
    rw [itemChars, List.intercalate_cons_cons] at hl ⊢
    rw [List.length_append, List.length_append, List.length_singleton] at hl
    rw [List.append_assoc, List.append_assoc, List.singleton_append]
    exact readItems?_cons (readValue?_chars v limit level _ hv (by omega) (endsBare_cons rfl _))
      (readItems?_chars w ws limit level rest hvs.1 hvs.2 (by omega))

theorem readMembers?_chars : ∀ (name : String) (v : Json) (ms : List (String × Json))
    (limit level : Nat) (rest : List Char), IsExact v → HaveExact ms →
    (List.intercalate [','] (memberText level name v :: memberChars compact level ms)).length <
      limit →
    readMembers? limit (List.intercalate [','] (memberText level name v ::
      memberChars compact level ms) ++ '\x7d' :: rest) =
      some ((.text name, toValue v) :: memberValues ms, rest)
  | name, v, ms, 0, level, rest, _, _, hl => absurd hl (Nat.not_lt_zero _)
  | name, v, [], limit + 1, level, rest, hv, _, hl => by
    rw [memberChars, intercalate_singleton, memberText] at hl ⊢
    rw [List.length_append, List.length_cons] at hl
    rw [List.append_assoc, List.cons_append]
    exact readMembers?_last (readName?_textChars name _)
      (readValue?_chars v limit level _ hv (by omega) (endsBare_cons rfl _))
  | name, v, (name', w) :: ms, limit + 1, level, rest, hv, hms, hl => by
    rw [memberChars_cons, List.intercalate_cons_cons] at hl ⊢
    rw [memberText, List.length_append, List.length_append, List.length_append, List.length_cons,
      List.length_singleton] at hl
    rw [memberText, List.append_assoc, List.append_assoc, List.append_assoc, List.cons_append,
      List.singleton_append]
    exact readMembers?_cons (readName?_textChars name _)
      (readValue?_chars v limit level _ hv (by omega) (endsBare_cons rfl _))
      (readMembers?_chars name' w ms limit level rest hms.1 hms.2 (by omega))

end

/-- A compact text is read as the value that it stands for, with blanks behind it or not. -/
theorem read?_chars (he : IsExact j) (hs : rest.all isSpace = true) :
    read? (chars compact level j ++ rest) = some (toValue j) := by
  have hr : EndsBare rest := fun c hc =>
    isBare_of_isSpace (List.all_eq_true.1 hs c (List.mem_of_head? hc))
  have hl : (chars compact level j).length ≤ (chars compact level j ++ rest).length := by
    rw [List.length_append]
    exact Nat.le_add_right _ _
  have h := readValue?_chars j _ level rest he hl hr
  rw [read?, h]
  exact if_pos hs

example : (read? "[0, -1.5e3]".toList).isSome = true ∧ (read? "[01]".toList).isSome = false ∧
    (read? "[1,]".toList).isSome = false := by decide +kernel

end Relief.Format.Json
