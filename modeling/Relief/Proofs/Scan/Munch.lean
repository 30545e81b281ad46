import Relief.Proofs.Outcome
import Relief.Proofs.Scan.Number

/-!
The scanner splits a text by maximal munch: at each place it takes the longest lexeme that is spelled
there.
-/
namespace Relief.Scan

open Relief.Token Relief.Number Relief.Text

variable {w w' cs rest : List Char} {l l' : Lexeme} {k : Kind} {n p : Nat}

/-! ### What is read at one place -/

theorem NameText.exists_cons (h : NameText w) : ∃ c cs, w = c :: cs ∧ isNameStart c = true := by
  obtain ⟨hc, -⟩ := h
  exact ⟨_, _, rfl, hc⟩

theorem NameText.isNamePart (h : NameText w) {c : Char} (hc : c ∈ w) : isNamePart c = true := by
  obtain ⟨h1, h2⟩ := h
  obtain rfl | hc := List.mem_cons.1 hc
  · exact isNamePart_iff.2 (.inl h1)
  · exact h2 c hc

theorem ne_point_of_isNameStart {c : Char} (h : isNameStart c = true) : c ≠ '.' := by
  rintro rfl
  cases h

theorem number?_name (h : NameText w) : number? (w ++ rest) = none := by
  obtain ⟨c, cs, rfl, hc⟩ := h.exists_cons
  exact number?_eq_none (not_isDigit_of_isNameStart hc) (ne_point_of_isNameStart hc)

theorem name?_name (h : NameText w) :
    name? (w ++ rest) = some (w ++ rest.takeWhile isNamePart) := by
  obtain ⟨h1, h2⟩ := h
  rw [List.cons_append, name?, if_pos h1, List.takeWhile_append_of_pos h2, List.cons_append]

theorem name?_eq_none {c : Char} (h : isNameStart c = false) : name? (c :: cs) = none := by
  simp [name?, h]

theorem name?_sound (h : name? cs = some w) : ∃ rest, cs = w ++ rest ∧ NameText w := by
  cases cs with
  | nil => cases h
  | cons c cs =>
    rw [name?] at h
    split at h
    · next hc =>
      cases h
      refine ⟨cs.dropWhile isNamePart, ?_, .intro hc fun d hd => List.mem_takeWhile_imp hd⟩
      rw [List.cons_append, List.takeWhile_append_dropWhile]
    · cases h

theorem qualifiedName?_qualifier :
    qualifiedName? (Shorthand.qualifier.toList ++ cs) = name? cs := rfl

theorem qualifiedName?_sound (h : qualifiedName? cs = some w) :
    ∃ rest, cs = Shorthand.qualifier.toList ++ w ++ rest ∧ NameText w := by
  rw [qualifiedName?] at h
  split at h
  · next hq =>
    have hq : Shorthand.qualifier.toList <+: cs := by simpa using hq
    obtain ⟨r, rfl⟩ := hq
    have h : name? r = some w := h
    obtain ⟨rest, rfl, hw⟩ := name?_sound h
    exact ⟨rest, by simp, hw⟩
  · cases h

theorem qualifiedName?_eq_none {c : Char} (h : c ≠ 'm') : qualifiedName? (c :: cs) = none := by
  cases hq : qualifiedName? (c :: cs) with
  | none => rfl
  | some w =>
    obtain ⟨rest, he, -⟩ := qualifiedName?_sound hq
    exact absurd (List.cons.inj he).1 h

/-- A name that begins a qualified one ends before the point. -/
theorem NameText.length_le (h : NameText w) (hq : w ++ rest = Shorthand.qualifier.toList ++ cs) :
    w.length ≤ 4 := by
  refine Nat.le_of_not_lt fun hl => ?_
  have h1 : (w ++ rest)[4]? = some '.' := hq ▸ rfl
  rw [List.getElem?_append_left hl] at h1
  cases h.isNamePart (List.mem_of_getElem? h1)

theorem lexeme?_number {d : Decimal} (h : number? cs = some (d, n)) :
    lexeme? cs = some (.token (.number (d.toFloat false)), n) := by
  simp [lexeme?, h]

theorem lexeme?_qualified (h : NameText w) (rest : List Char) :
    lexeme? (Shorthand.qualifier.toList ++ w ++ rest) =
      some (ofQualified (String.ofList (w ++ rest.takeWhile isNamePart)),
        Shorthand.qualifier.length + (w ++ rest.takeWhile isNamePart).length) := by
  have h1 : number? (Shorthand.qualifier.toList ++ w ++ rest) = none :=
    number?_eq_none (by decide) (by decide)
  have h2 : qualifiedName? (Shorthand.qualifier.toList ++ w ++ rest) =
      some (w ++ rest.takeWhile isNamePart) := by
    rw [List.append_assoc, qualifiedName?_qualifier, name?_name h]
  simp only [lexeme?, h1, h2]

theorem lexeme?_name (h : NameText w) (hq : qualifiedName? (w ++ rest) = none) :
    lexeme? (w ++ rest) =
      some (ofName (String.ofList (w ++ rest.takeWhile isNamePart)),
        (w ++ rest.takeWhile isNamePart).length) := by
  simp only [lexeme?, number?_name h, hq, name?_name h]

/-- A character that begins neither a number nor a name. -/
structure IsMark (c : Char) : Prop where
  digit : isDigit c = false
  point : c ≠ '.'
  name : isNameStart c = false

theorem lexeme?_mark {c : Char} (h : IsMark c) (hs : symbol? (c :: cs) = some (k, n)) :
    lexeme? (c :: cs) = some (.token k, n) := by
  have hm : c ≠ 'm' := by
    rintro rfl
    cases h.name
  simp only [lexeme?, number?_eq_none h.digit h.point, qualifiedName?_eq_none hm,
    name?_eq_none h.name, hs]

theorem isMark_of_isBlank {c : Char} (h : isBlank c = true) : IsMark c where
  digit := not_isDigit_of_isBlank h
  point := by
    rintro rfl
    cases h
  name := not_isNameStart_of_isBlank h

theorem symbol?_of_isBlank {c : Char} (h : isBlank c = true) : symbol? (c :: cs) = none := by
  unfold symbol?
  split <;> first | rfl | (next he => cases (List.cons.inj he).1; cases h)

theorem lexeme?_blank (hn : w ≠ []) (h : ∀ c ∈ w, isBlank c = true) (rest : List Char) :
    lexeme? (w ++ rest) = some (.blank, (w ++ rest.takeWhile isBlank).length) := by
  cases w with
  | nil => exact absurd rfl hn
  | cons c w =>
    have hc := h c List.mem_cons_self
    have hm := isMark_of_isBlank hc
    have hne : c ≠ 'm' := by
      rintro rfl
      cases hm.name
    have ht : ((c :: w) ++ rest).takeWhile isBlank = c :: (w ++ rest.takeWhile isBlank) := by
      rw [List.takeWhile_append_of_pos h, List.cons_append]
    rw [List.cons_append] at ht ⊢
    simp only [lexeme?, number?_eq_none hm.digit hm.point, qualifiedName?_eq_none hne,
      name?_eq_none hm.name, symbol?_of_isBlank hc, ht, List.length_cons, List.cons_append]

theorem symbol?_sound (h : symbol? cs = some (k, n)) :
    ∃ w rest, cs = w ++ rest ∧ w.length = n ∧ (w, k) ∈ symbols := by
  unfold symbol? at h
  split at h <;> cases h
  · exact ⟨['*', '*'], _, rfl, rfl, by simp [symbols]⟩
  all_goals exact ⟨[_], _, rfl, rfl, by simp [symbols]⟩

theorem isMark_of_mem_symbols {c : Char} (h : (c :: w, k) ∈ symbols) : IsMark c := by
  simp only [symbols, List.mem_cons, Prod.mk.injEq, List.cons.injEq, List.not_mem_nil,
    or_false] at h
  rcases h with h | h | h | h | h | h | h | h | h
  all_goals
    obtain ⟨⟨rfl, -⟩, -⟩ := h
    exact ⟨by decide, by decide, by decide⟩

theorem lexeme?_symbol (h : (w, k) ∈ symbols) (hs : symbol? (w ++ rest) = some (k', n)) :
    lexeme? (w ++ rest) = some (.token k', n) := by
  cases w with
  | nil => simp [symbols] at h
  | cons c w => exact lexeme?_mark (isMark_of_mem_symbols h) hs

/-! ### Maximal munch -/

theorem Spells.ne_nil (h : Spells w l) : w ≠ [] := by
  rintro rfl
  cases h with
  | number h =>
    have h1 : number? [] = some _ := number?_exact h nofun
    cases h1
  | name h => cases h
  | symbol h => simp [symbols] at h
  | blank h => exact h rfl

theorem lexeme?_sound (h : lexeme? cs = some (l, n)) :
    ∃ w rest, cs = w ++ rest ∧ w.length = n ∧ Spells w l := by
  simp only [lexeme?] at h
  split at h
  · next hd =>
    cases h
    obtain ⟨w, rest, rfl, hn, hw⟩ := number?_sound hd
    exact ⟨w, rest, rfl, hn, .number hw⟩
  · split at h
    · next hq =>
      cases h
      obtain ⟨rest, rfl, hw⟩ := qualifiedName?_sound hq
      exact ⟨_, rest, rfl, List.length_append, .qualified hw⟩
    · split at h
      · next hm =>
        cases h
        obtain ⟨rest, rfl, hw⟩ := name?_sound hm
        exact ⟨_, rest, rfl, rfl, .name hw⟩
      · split at h
        · next hs =>
          cases h
          obtain ⟨w, rest, rfl, hn, hw⟩ := symbol?_sound hs
          exact ⟨w, rest, rfl, hn, .symbol hw⟩
        · split at h
          · cases h
          · next hb =>
            cases h
            refine ⟨_, _, List.takeWhile_append_dropWhile.symm, rfl, .blank ?_ ?_⟩
            · rintro he
              exact hb (by rw [he]; rfl)
            · exact fun c hc => List.mem_takeWhile_imp hc

theorem symbol?_star (hr : ∀ r, rest ≠ '*' :: r) : symbol? ('*' :: rest) = some (.star, 1) := by
  cases rest with
  | nil => rfl
  | cons c rest =>
    unfold symbol?
    split
    · next he => exact absurd (List.cons.inj he).2 (hr _)
    all_goals simp_all

theorem symbol?_exact (h : (w, k) ∈ symbols) (hr : ∀ r, rest ≠ '*' :: r) :
    symbol? (w ++ rest) = some (k, w.length) := by
  simp only [symbols, List.mem_cons, Prod.mk.injEq, List.not_mem_nil, or_false] at h
  obtain ⟨rfl, rfl⟩ | ⟨rfl, rfl⟩ | ⟨rfl, rfl⟩ | ⟨rfl, rfl⟩ | ⟨rfl, rfl⟩ | ⟨rfl, rfl⟩ | ⟨rfl, rfl⟩ |
    ⟨rfl, rfl⟩ | ⟨rfl, rfl⟩ := h
  case inr.inr.inr.inr.inl => exact symbol?_star hr
  all_goals rfl

theorem symbol?_longest (h : (w, k) ∈ symbols) (rest : List Char) :
    ∃ k' n, symbol? (w ++ rest) = some (k', n) ∧ w.length ≤ n := by
  by_cases hr : ∃ r, rest = '*' :: r
  · obtain ⟨r, rfl⟩ := hr
    simp only [symbols, List.mem_cons, Prod.mk.injEq, List.not_mem_nil, or_false] at h
    obtain ⟨rfl, -⟩ | ⟨rfl, -⟩ | ⟨rfl, -⟩ | ⟨rfl, -⟩ | ⟨rfl, -⟩ | ⟨rfl, -⟩ | ⟨rfl, -⟩ | ⟨rfl, -⟩ |
      ⟨rfl, -⟩ := h
    all_goals exact ⟨_, _, rfl, by decide⟩
  · exact ⟨_, _, symbol?_exact h fun r he => hr ⟨r, he⟩, Nat.le_refl _⟩

/-- No lexeme at the start of a text is longer than the one that is read. -/
theorem lexeme?_longest (h : Spells w l) (rest : List Char) :
    ∃ l' n, lexeme? (w ++ rest) = some (l', n) ∧ w.length ≤ n := by
  cases h with
  | number h =>
    obtain ⟨d, n, hd, hn⟩ := number?_append h
    exact ⟨_, n, lexeme?_number hd, hn⟩
  | qualified h =>
    refine ⟨_, _, lexeme?_qualified h rest, ?_⟩
    simp only [List.length_append, String.length_toList]
    omega
  | name h =>
    cases hq : qualifiedName? (w ++ rest) with
    | none => exact ⟨_, _, lexeme?_name h hq, by simp⟩
    | some v =>
      obtain ⟨r, he, -⟩ := qualifiedName?_sound hq
      have hl := h.length_le (he.trans (List.append_assoc ..))
      refine ⟨_, _, by simp only [lexeme?, number?_name h, hq]; rfl, ?_⟩
      have : Shorthand.qualifier.length = 5 := rfl
      omega
  | symbol h =>
    obtain ⟨k', n, hs, hn⟩ := symbol?_longest h rest
    exact ⟨_, n, lexeme?_symbol h hs, hn⟩
  | blank hn h => exact ⟨_, _, lexeme?_blank hn h rest, by simp⟩

theorem lexeme?_self (h : Spells w l) : lexeme? w = some (l, w.length) := by
  have ends : ∀ c ∈ ([] : List Char).head?, isDigit c = false ∧ c ≠ '.' ∧
      isExponentMark c = false := by simp
  rw [← List.append_nil w]
  cases h with
  | number h => simpa using lexeme?_number (number?_exact h ends)
  | qualified h => simpa [← String.length_toList] using lexeme?_qualified h []
  | name h =>
    have hq : qualifiedName? (w ++ []) = none := by
      cases hq : qualifiedName? (w ++ []) with
      | none => rfl
      | some v =>
        obtain ⟨r, he, -⟩ := qualifiedName?_sound hq
        have hl := h.length_le (he.trans (List.append_assoc ..))
        have := congrArg List.length he
        simp [Shorthand.qualifier] at this
        omega
    simpa using lexeme?_name h hq
  | symbol h => simpa using lexeme?_symbol h (symbol?_exact h fun r => List.cons_ne_nil _ r |>.symm)
  | blank hn h => simpa using lexeme?_blank hn h []

/-- No text spells two lexemes. -/
theorem Spells.unique (h : Spells w l) (h' : Spells w l') : l = l' := by
  have he := (lexeme?_self h).symm.trans (lexeme?_self h')
  simp only [Option.some.injEq, Prod.mk.injEq] at he
  exact he.1

/-- The longest text of a lexeme at the start of some characters, and its lexeme. -/
structure Longest (w : List Char) (l : Lexeme) (cs : List Char) : Prop where
  starts : w <+: cs
  spells : Spells w l
  longest : ∀ w' l', w' <+: cs → Spells w' l' → w'.length ≤ w.length

theorem lexeme?_eq_some_iff :
    lexeme? cs = some (l, n) ↔ ∃ w, w.length = n ∧ Longest w l cs := by
  constructor
  · intro h
    obtain ⟨w, rest, rfl, hn, hw⟩ := lexeme?_sound h
    refine ⟨w, hn, ⟨rest, rfl⟩, hw, ?_⟩
    rintro w' l' ⟨r, hr⟩ hw'
    obtain ⟨l'', n', hl, hn'⟩ := lexeme?_longest hw' r
    rw [hr, h] at hl
    cases hl
    exact hn ▸ hn'
  · rintro ⟨w, rfl, ⟨rest, rfl⟩, hw, hm⟩
    obtain ⟨l', n, hl, hn⟩ := lexeme?_longest hw rest
    obtain ⟨w', r, he, rfl, hw'⟩ := lexeme?_sound hl
    have hle := hm w' l' ⟨r, he.symm⟩ hw'
    obtain ⟨rfl, -⟩ := List.append_inj he (Nat.le_antisymm hn hle)
    rw [hl, hw'.unique hw]

/-- The tokens of a text that is split by maximal munch, from a position on. Blanks are dropped. -/
inductive Munches : Nat → List Char → List Token → Prop where
  | finish {p : Nat} : Munches p [] [⟨.finish, p⟩]
  | blank {p : Nat} {w rest : List Char} {ts : List Token} : Longest w .blank (w ++ rest) →
    Munches (p + w.length) rest ts → Munches p (w ++ rest) ts
  | token {p : Nat} {k : Kind} {w rest : List Char} {ts : List Token} :
    Longest w (.token k) (w ++ rest) → Munches (p + w.length) rest ts →
    Munches p (w ++ rest) (⟨k, p⟩ :: ts)

theorem exists_longest {c : Char} (h : lexeme? (c :: cs) = some (l, n)) :
    ∃ w, c :: cs = w ++ cs.drop (n - 1) ∧ w.length = n ∧ Longest w l (c :: cs) := by
  obtain ⟨w, hn, hl⟩ := lexeme?_eq_some_iff.1 h
  obtain ⟨rest, he⟩ := hl.starts
  cases w with
  | nil => exact absurd rfl hl.spells.ne_nil
  | cons d w =>
    obtain ⟨rfl, rfl⟩ := List.cons.inj he
    subst hn
    exact ⟨d :: w, by simp, rfl, hl⟩

theorem scanFrom_longest (h : Longest w l (w ++ rest)) :
    ∃ c cs, w ++ rest = c :: cs ∧ lexeme? (c :: cs) = some (l, w.length) ∧
      cs.drop (w.length - 1) = rest := by
  have hl := lexeme?_eq_some_iff.2 ⟨w, rfl, h⟩
  cases w with
  | nil => exact absurd rfl h.spells.ne_nil
  | cons c w => exact ⟨c, w ++ rest, rfl, hl, by simp⟩

/-- Scanning is splitting by maximal munch. -/
theorem scanFrom_eq_ok_iff {ts : List Token} : scanFrom p cs = .ok ts ↔ Munches p cs ts := by
  constructor
  · intro h
    fun_induction scanFrom p cs generalizing ts with
    | case1 p =>
      cases h
      exact .finish
    | case2 | case3 => cases h
    | case4 p c cs n hl ih =>
      obtain ⟨w, he, rfl, hw⟩ := exists_longest hl
      rw [he] at hw ⊢
      exact .blank hw (ih h)
    | case5 p c cs k n hl ih =>
      obtain ⟨w, he, rfl, hw⟩ := exists_longest hl
      obtain ⟨rest, hr, hc⟩ := bind_eq_ok_iff.1 h
      cases hc
      rw [he] at hw ⊢
      exact .token hw (ih hr)
  · intro h
    induction h with
    | finish => rw [scanFrom]
    | blank hl _ ih =>
      obtain ⟨c, cs, he, hc, hr⟩ := scanFrom_longest hl
      rw [he, scanFrom, hc]
      dsimp only
      rw [hr, ih]
    | token hl _ ih =>
      obtain ⟨c, cs, he, hc, hr⟩ := scanFrom_longest hl
      rw [he, scanFrom, hc]
      dsimp only
      rw [hr, ih]
      rfl

theorem Spells.ne_finish (h : Spells w (.token k)) : k ≠ .finish := by
  rintro rfl
  generalize hl : Lexeme.token .finish = l at h
  cases h with
  | number h => cases hl
  | qualified h => obtain ⟨_, -, hk⟩ | ⟨-, hk⟩ := ofQualified_eq_token hl.symm <;> cases hk
  | name h => cases (ofName_eq_token hl.symm).2
  | symbol h =>
    cases hl
    simp [symbols] at h
  | blank => cases hl

/-- The end of the text is the last token and no other. -/
theorem Munches.finish_last {ts : List Token} (h : Munches p cs ts) :
    ∃ pre t, ts = pre ++ [t] ∧ t.kind = .finish ∧ ∀ u ∈ pre, u.kind ≠ .finish := by
  induction h with
  | finish => exact ⟨[], _, rfl, rfl, fun _ hu => absurd hu List.not_mem_nil⟩
  | blank _ _ ih => exact ih
  | token hl _ ih =>
    obtain ⟨pre, t, rfl, ht, hp⟩ := ih
    refine ⟨_ :: pre, t, rfl, ht, fun u hu => ?_⟩
    obtain rfl | hu := List.mem_cons.1 hu
    · exact Spells.ne_finish hl.spells
    · exact hp u hu

theorem Munches.rest_nil {pre rest : List Token} {t : Token}
    (h : Munches p cs (pre ++ t :: rest)) (ht : t.kind = .finish) : rest = [] := by
  obtain ⟨pre', t', he, -, hp⟩ := h.finish_last
  obtain rfl | ⟨rest, u, rfl⟩ := List.eq_nil_or_concat rest
  · rfl
  · rw [List.concat_eq_append, ← List.cons_append, ← List.append_assoc] at he
    obtain ⟨he, -⟩ := List.append_inj' he rfl
    exact absurd ht (hp t (by simp [← he]))

end Relief.Scan
