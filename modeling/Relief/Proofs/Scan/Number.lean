import Relief.Proofs.Scan.Spelling
import Mathlib.Data.List.TakeWhile

/-!
The scanner reads the longest number at the start of a text.
-/
namespace Relief.Scan

open Relief.Token Relief.Number Relief.Text

variable {ds cs rest : List Char}

/-! ### Rows of digits -/

theorem length_digits (h : IsDigits ds) : (ds.filterMap digit?).length = ds.length := by
  induction ds with
  | nil => rfl
  | cons c ds ih =>
    obtain ⟨d, hd⟩ := Option.isSome_iff_exists.1 (h c List.mem_cons_self)
    rw [List.filterMap_cons_some hd, List.length_cons, List.length_cons,
      ih fun c hc => h c (List.mem_cons_of_mem _ hc)]

theorem digits_ne_nil (hn : ds ≠ []) (h : IsDigits ds) : ds.filterMap digit? ≠ [] := by
  rwa [ne_eq, ← List.length_eq_zero_iff, length_digits h, List.length_eq_zero_iff]

theorem isEmpty_digits (h : IsDigits ds) : (ds.filterMap digit?).isEmpty = ds.isEmpty := by
  rw [Bool.eq_iff_iff, List.isEmpty_iff, List.isEmpty_iff, ← List.length_eq_zero_iff,
    ← List.length_eq_zero_iff, length_digits h]

theorem leadingDigits_append (h : IsDigits ds) :
    leadingDigits (ds ++ rest) = ds.filterMap digit? ++ leadingDigits rest := by
  rw [leadingDigits, List.takeWhile_append_of_pos h, List.filterMap_append]
  rfl

/-- The text does not go on with a digit. -/
def EndsDigits (rest : List Char) : Prop := ∀ c ∈ rest.head?, isDigit c = false

theorem leadingDigits_of_ends (h : EndsDigits rest) : leadingDigits rest = [] := by
  cases rest with
  | nil => rfl
  | cons c rest => simp [leadingDigits, h c rfl]

theorem leadingDigits_exact (hd : IsDigits ds) (hr : EndsDigits rest) :
    leadingDigits (ds ++ rest) = ds.filterMap digit? := by
  rw [leadingDigits_append hd, leadingDigits_of_ends hr, List.append_nil]

theorem exists_digits (cs : List Char) : ∃ ds rest, cs = ds ++ rest ∧ IsDigits ds ∧ EndsDigits rest := by
  refine ⟨_, _, List.takeWhile_append_dropWhile.symm, fun c hc => List.mem_takeWhile_imp hc, ?_⟩
  intro c hc
  have h := List.head?_dropWhile_not isDigit cs
  rw [hc] at h
  simpa using h

/-! ### What is read is a number -/

theorem endsDigits_cons {c : Char} (h : isDigit c = false) : EndsDigits (c :: cs) := by
  intro d hd
  obtain rfl : c = d := by simpa using hd
  exact h

theorem IsDigits.append {ds' : List Char} (h : IsDigits ds) (h' : IsDigits ds') :
    IsDigits (ds ++ ds') :=
  fun c hc => (List.mem_append.1 hc).elim (h c) (h' c)

/-! ### Exponents -/

section Exponents

variable {mark : Char} {r : List Char}

theorem exponent_minus : exponent (mark :: '-' :: r) =
    if isExponentMark mark && !(leadingDigits r).isEmpty then
      (withSign true (digitsValue (leadingDigits r)), 2 + (leadingDigits r).length)
    else (0, 0) := rfl

theorem exponent_plus : exponent (mark :: '+' :: r) =
    if isExponentMark mark && !(leadingDigits r).isEmpty then
      (withSign false (digitsValue (leadingDigits r)), 2 + (leadingDigits r).length)
    else (0, 0) := rfl

theorem exponent_unsigned (hm : ∀ r', r ≠ '-' :: r') (hp : ∀ r', r ≠ '+' :: r') :
    exponent (mark :: r) =
    if isExponentMark mark && !(leadingDigits r).isEmpty then
      (withSign false (digitsValue (leadingDigits r)), 1 + (leadingDigits r).length)
    else (0, 0) := by
  cases r with
  | nil => rfl
  | cons c r =>
    have h1 : c ≠ '-' := fun h => hm r (h ▸ rfl)
    have h2 : c ≠ '+' := fun h => hp r (h ▸ rfl)
    simp [exponent, isExponentMark]

/-- A row of digits does not begin with a sign. -/
theorem ne_sign_of_isDigits (h : IsDigits ds) (hn : ds ≠ []) {c : Char} (hc : isDigit c = false)
    (r' : List Char) : ds ++ rest ≠ c :: r' := by
  rintro he
  cases ds with
  | nil => exact hn rfl
  | cons d ds =>
    obtain rfl : d = c := (List.cons.inj he).1
    simp [h d List.mem_cons_self] at hc

theorem exponent_sound (cs : List Char) : ∃ x rest, cs = x ++ rest ∧
    x.length = (exponent cs).2 ∧ ExponentText x (exponent cs).1 := by
  cases cs with
  | nil => exact ⟨[], [], rfl, rfl, .none⟩
  | cons mark r =>
    have signed : ∀ sign r', sign = '+' ∨ sign = '-' → r = sign :: r' →
        exponent (mark :: r) = (if isExponentMark mark && !(leadingDigits r').isEmpty then
          (withSign (sign == '-') (digitsValue (leadingDigits r')), 2 + (leadingDigits r').length)
          else (0, 0)) → ∃ x rest, mark :: r = x ++ rest ∧
        x.length = (exponent (mark :: r)).2 ∧ ExponentText x (exponent (mark :: r)).1 := by
      rintro sign r' hs rfl he
      obtain ⟨ds, rest, rfl, hd, hr⟩ := exists_digits r'
      rw [leadingDigits_exact hd hr, isEmpty_digits hd] at he
      rw [he]
      split
      · next hc =>
        simp only [Bool.and_eq_true, Bool.not_eq_true', List.isEmpty_eq_false_iff] at hc
        refine ⟨mark :: sign :: ds, rest, rfl, ?_, .signed hc.1 hs hc.2 hd⟩
        simp only [List.length_cons, length_digits hd]
        omega
      · exact ⟨[], _, rfl, rfl, .none⟩
    by_cases hm : ∃ r', r = '-' :: r'
    · obtain ⟨r', rfl⟩ := hm
      exact signed '-' r' (.inr rfl) rfl exponent_minus
    by_cases hp : ∃ r', r = '+' :: r'
    · obtain ⟨r', rfl⟩ := hp
      exact signed '+' r' (.inl rfl) rfl exponent_plus
    rw [exponent_unsigned (fun r' h => hm ⟨r', h⟩) (fun r' h => hp ⟨r', h⟩)]
    obtain ⟨ds, rest, rfl, hd, hr⟩ := exists_digits r
    rw [leadingDigits_exact hd hr, isEmpty_digits hd]
    split
    · next hc =>
      simp only [Bool.and_eq_true, Bool.not_eq_true', List.isEmpty_eq_false_iff] at hc
      refine ⟨mark :: ds, rest, rfl, ?_, .unsigned hc.1 hc.2 hd⟩
      simp only [List.length_cons, length_digits hd]
      omega
    · exact ⟨[], _, rfl, rfl, .none⟩

/-- More digits go to the exponent, and nothing else does. -/
theorem exponent_append {x : List Char} {e : Int} (rest : List Char) (h : ExponentText x e)
    (hx : x ≠ []) :
    ∃ e', exponent (x ++ rest) = (e', x.length + (leadingDigits rest).length) ∧
      (leadingDigits rest = [] → e' = e) := by
  cases h with
  | none => exact absurd rfl hx
  | unsigned hmark hn hd =>
    next mark ds =>
    rw [List.cons_append, exponent_unsigned (ne_sign_of_isDigits hd hn (by decide))
      (ne_sign_of_isDigits hd hn (by decide)), leadingDigits_append hd,
      if_pos (by simp [hmark, digits_ne_nil hn hd])]
    refine ⟨withSign false (digitsValue (ds.filterMap digit? ++ leadingDigits rest)), ?_, fun h => ?_⟩
    · rw [List.length_append, length_digits hd, List.length_cons]
      congr 1
      omega
    · rw [h, List.append_nil]
      rfl
  | signed hmark hs hn hd =>
    next mark sign ds =>
    obtain rfl | rfl := hs
    · rw [List.cons_append, List.cons_append, exponent_plus, leadingDigits_append hd,
        if_pos (by simp [hmark, digits_ne_nil hn hd])]
      refine ⟨withSign false (digitsValue (ds.filterMap digit? ++ leadingDigits rest)), ?_,
        fun h => ?_⟩
      · rw [List.length_append, length_digits hd, List.length_cons, List.length_cons]
        congr 1
        omega
      · rw [h, List.append_nil]
        rfl
    · rw [List.cons_append, List.cons_append, exponent_minus, leadingDigits_append hd,
        if_pos (by simp [hmark, digits_ne_nil hn hd])]
      refine ⟨withSign true (digitsValue (ds.filterMap digit? ++ leadingDigits rest)), ?_,
        fun h => ?_⟩
      · rw [List.length_append, length_digits hd, List.length_cons, List.length_cons]
        congr 1
        omega
      · rw [h, List.append_nil]
        rfl

end Exponents

/-! ### Numbers -/

/-- The text does not go on with anything that a number could take in. -/
def EndsNumber (rest : List Char) : Prop :=
  ∀ c ∈ rest.head?, isDigit c = false ∧ c ≠ '.' ∧ isExponentMark c = false

theorem EndsNumber.digits (h : EndsNumber rest) : EndsDigits rest :=
  fun c hc => (h c hc).1

theorem EndsNumber.ne_point (h : EndsNumber rest) (r : List Char) : rest ≠ '.' :: r := by
  rintro rfl
  exact (h '.' rfl).2.1 rfl

theorem EndsNumber.exponent (h : EndsNumber rest) : exponent rest = (0, 0) := by
  cases rest with
  | nil => rfl
  | cons c r =>
    have hc := (h c rfl).2.2
    simp only [isExponentMark] at hc
    simp [Token.exponent, hc]

theorem not_isDigit_of_isExponentMark {c : Char} (h : isExponentMark c = true) :
    isDigit c = false := by
  simp only [isExponentMark, Bool.or_eq_true, beq_iff_eq] at h
  obtain rfl | rfl := h <;> decide

/-- An exponent does not begin with a digit or a point. -/
theorem ExponentText.ends {x : List Char} {e : Int} (rest : List Char) (h : ExponentText x e)
    (hx : x ≠ []) :
    EndsDigits (x ++ rest) ∧ ∀ r, x ++ rest ≠ '.' :: r := by
  obtain ⟨mark, x, rfl, hm⟩ : ∃ mark x', x = mark :: x' ∧ isExponentMark mark = true := by
    cases h with
    | none => exact absurd rfl hx
    | unsigned hm => exact ⟨_, _, rfl, hm⟩
    | signed hm => exact ⟨_, _, rfl, hm⟩
  refine ⟨endsDigits_cons (not_isDigit_of_isExponentMark hm), fun r he => ?_⟩
  obtain rfl : mark = '.' := (List.cons.inj he).1
  cases hm

theorem fraction_of_ne (h : ∀ r, cs ≠ '.' :: r) : fraction cs = (0, []) := by
  unfold fraction
  split
  · next r => exact absurd rfl (h r)
  · rfl

theorem number?_point {fs : List Char} (hd : IsDigits ds) (hf : IsDigits fs) (hn : ds ++ fs ≠ [])
    (hr : EndsDigits rest) :
    number? (ds ++ '.' :: (fs ++ rest)) =
      some (⟨worth (ds ++ fs), (exponent rest).1 - fs.length⟩,
        ds.length + 1 + fs.length + (exponent rest).2) := by
  have h1 : leadingDigits (ds ++ '.' :: (fs ++ rest)) = ds.filterMap digit? :=
    leadingDigits_exact hd (endsDigits_cons (by decide))
  have h2 := leadingDigits_exact hf hr
  have hne : ((ds.filterMap digit?).isEmpty && (fs.filterMap digit?).isEmpty) = false := by
    rw [isEmpty_digits hd, isEmpty_digits hf]
    simpa using hn
  simp only [number?, h1, length_digits hd, List.drop_left, fraction, h2, hne, Bool.false_eq_true,
    if_false, length_digits hf, ← List.filterMap_append]
  rw [Nat.add_comm 1, List.drop_succ_cons, List.drop_left]
  rfl

theorem number?_whole (hd : IsDigits ds) (hn : ds ≠ []) (hr : EndsDigits rest)
    (hp : ∀ r, rest ≠ '.' :: r) :
    number? (ds ++ rest) =
      some (⟨worth ds, (exponent rest).1⟩, ds.length + (exponent rest).2) := by
  have h1 := leadingDigits_exact hd hr
  have hne := digits_ne_nil hn hd
  simp only [number?, h1, length_digits hd, List.drop_left, fraction_of_ne hp]
  simp [hne, worth]

theorem number?_eq_none {c : Char} (h : isDigit c = false) (hp : c ≠ '.') :
    number? (c :: cs) = none := by
  have hd : EndsDigits (c :: cs) := endsDigits_cons h
  have h1 := leadingDigits_of_ends hd
  have h2 : fraction (c :: cs) = (0, []) := fraction_of_ne fun r he => hp (List.cons.inj he).1
  simp [number?, h1, h2]

theorem number?_sound {d : Decimal} {n : Nat} (h : number? cs = some (d, n)) :
    ∃ w rest, cs = w ++ rest ∧ w.length = n ∧ NumberText w d := by
  obtain ⟨ds, r, rfl, hd, hr⟩ := exists_digits cs
  by_cases hp : ∃ r', r = '.' :: r'
  · obtain ⟨r', rfl⟩ := hp
    obtain ⟨fs, rest, rfl, hf, hrest⟩ := exists_digits r'
    by_cases hn : ds ++ fs = []
    · obtain ⟨rfl, rfl⟩ := List.append_eq_nil_iff.1 hn
      have h1 := leadingDigits_of_ends hrest
      have h2 := leadingDigits_of_ends hr
      simp only [List.nil_append] at h h2
      simp [number?, fraction, h1, h2] at h
    · rw [number?_point hd hf hn hrest] at h
      obtain ⟨x, rest', rfl, hx, he⟩ := exponent_sound rest
      simp only [Option.some.injEq, Prod.mk.injEq] at h
      obtain ⟨rfl, rfl⟩ := h
      refine ⟨ds ++ '.' :: fs ++ x, rest', by simp, ?_, .intro (.point hn hd hf) he⟩
      simp only [List.length_append, List.length_cons, hx]
      omega
  · by_cases hn : ds = []
    · subst hn
      have h1 := leadingDigits_of_ends hr
      have h2 := fraction_of_ne fun r' hr' => hp ⟨r', hr'⟩
      simp [number?, h1, h2] at h
    · rw [number?_whole hd hn hr fun r' hr' => hp ⟨r', hr'⟩] at h
      obtain ⟨x, rest', rfl, hx, he⟩ := exponent_sound r
      simp only [Option.some.injEq, Prod.mk.injEq] at h
      obtain ⟨rfl, rfl⟩ := h
      refine ⟨ds ++ x, rest', by simp, by simp [hx], ?_⟩
      simpa using NumberText.intro (.whole hn hd) he

/-- No number at the start of a text is longer than the one that is read. -/
theorem number?_append {w : List Char} {d : Decimal} (h : NumberText w d) :
    ∃ d' n, number? (w ++ rest) = some (d', n) ∧ w.length ≤ n := by
  obtain ⟨hm, hx⟩ := h
  next m x c places e =>
  by_cases hn : x = []
  · subst hn
    obtain ⟨es, rest, rfl, hes, hr⟩ := exists_digits rest
    cases hm with
    | whole hne hd =>
      by_cases hp : ∃ r', rest = '.' :: r'
      · obtain ⟨r', rfl⟩ := hp
        obtain ⟨fs, rest, rfl, hf, hrest⟩ := exists_digits r'
        have h1 := number?_point (hd.append hes) hf (by simp [hne]) hrest
        refine ⟨_, _, by simpa using h1, ?_⟩
        simp only [List.length_append, List.length_nil]
        omega
      · have h1 := number?_whole (hd.append hes) (by simp [hne]) hr fun r' hr' => hp ⟨r', hr'⟩
        refine ⟨_, _, by simpa using h1, ?_⟩
        simp only [List.length_append, List.length_nil]
        omega
    | point hne hd hf =>
      next ds fs =>
      have h1 := number?_point hd (hf.append hes) (by simpa using fun a b => absurd b (by simp_all))
        hr
      refine ⟨_, _, by simpa using h1, ?_⟩
      simp only [List.length_append, List.length_cons, List.length_nil]
      omega
  · obtain ⟨e', he, -⟩ := exponent_append rest hx hn
    obtain ⟨hends, hpoint⟩ := hx.ends rest hn
    cases hm with
    | whole hne hd =>
      have h1 := number?_whole hd hne hends hpoint
      refine ⟨_, _, by simpa using h1, ?_⟩
      simp only [List.length_append, he]
      omega
    | point hne hd hf =>
      have h1 := number?_point hd hf hne hends
      refine ⟨_, _, by simpa using h1, ?_⟩
      simp only [List.length_append, List.length_cons, he]
      omega

theorem number?_exact {w : List Char} {d : Decimal} (h : NumberText w d) (hr : EndsNumber rest) :
    number? (w ++ rest) = some (d, w.length) := by
  obtain ⟨hm, hx⟩ := h
  next m x c places e =>
  by_cases hn : x = []
  · subst hn
    cases hx
    cases hm with
    | whole hne hd =>
      have h1 := number?_whole hd hne hr.digits hr.ne_point
      simpa [hr.exponent] using h1
    | point hne hd hf =>
      have h1 := number?_point hd hf hne hr.digits
      simpa [hr.exponent, Nat.add_comm, Nat.add_left_comm] using h1
  · obtain ⟨e', he, hexact⟩ := exponent_append rest hx hn
    obtain ⟨hends, hpoint⟩ := hx.ends rest hn
    have hl := leadingDigits_of_ends hr.digits
    obtain rfl := hexact hl
    cases hm with
    | whole hne hd =>
      have h1 := number?_whole hd hne hends hpoint
      simpa [he, hl] using h1
    | point hne hd hf =>
      have h1 := number?_point hd hf hne hends
      simpa [he, hl, Nat.add_comm, Nat.add_left_comm, Nat.add_assoc] using h1

end Relief.Scan
