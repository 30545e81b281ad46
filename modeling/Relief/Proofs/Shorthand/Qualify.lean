import Mathlib.Data.List.Find
import Relief.Proofs.Shorthand.Product
import Relief.Shorthand.Qualify

/-!
Names are qualified run by run: what becomes of a row of characters that continue a name depends on that
row alone.
-/
namespace Relief.Shorthand

open Relief.Text Relief.Scan

variable {w rest cs name : List Char} {c letter : Char} {rule : WordRule}

/-- A row of characters of which each continues a name. -/
def IsRun (w : List Char) : Prop := ∀ c ∈ w, continuesName c = true

theorem IsRun.of_cons (h : IsRun (c :: w)) : IsRun w := fun d hd => h d (List.mem_cons_of_mem _ hd)

theorem IsRun.append {v : List Char} (h : IsRun w) (h' : IsRun v) : IsRun (w ++ v) := fun c hc =>
  (List.mem_append.1 hc).elim (h c) (h' c)

theorem endsName_cons : endsName (c :: cs) = !continuesName c := rfl

theorem IsRun.takeWhile (hw : IsRun w) (hr : endsName rest = true) :
    (w ++ rest).takeWhile continuesName = w := by
  rw [List.takeWhile_append_of_pos hw]
  cases rest with
  | nil => simp
  | cons c rest =>
    rw [endsName_cons, Bool.not_eq_true'] at hr
    simp [hr]

/-! ### Replacing -/

theorem replaceWords_cons {inside : Bool} (h : inside = true ∨ rule (c :: cs) = .ok none) :
    replaceWords rule inside 0 (c :: cs) =
      (replaceWords rule (continuesName c) 0 cs).map (c :: ·) := by
  rw [replaceWords]
  obtain rfl | h := h
  · cases replaceWords rule (continuesName c) 0 cs <;> rfl
  · cases inside with
    | true => cases replaceWords rule (continuesName c) 0 cs <;> rfl
    | false =>
      rw [if_neg Bool.false_ne_true, h]
      cases replaceWords rule (continuesName c) 0 cs <;> rfl

theorem replaceWords_inside (hw : IsRun w) :
    replaceWords rule true 0 (w ++ rest) = (replaceWords rule true 0 rest).map (w ++ ·) := by
  induction w with
  | nil =>
    rw [List.nil_append]
    cases replaceWords rule true 0 rest <;> rfl
  | cons c w ih =>
    rw [List.cons_append, replaceWords_cons (.inl rfl), hw c List.mem_cons_self, ih hw.of_cons]
    cases replaceWords rule true 0 rest <;> rfl

theorem replaceWords_skip (hw : IsRun w) :
    replaceWords rule true w.length (w ++ rest) = replaceWords rule true 0 rest := by
  induction w with
  | nil => rfl
  | cons c w ih =>
    rw [List.cons_append, List.length_cons, replaceWords, hw c List.mem_cons_self, ih hw.of_cons]

/-- A run without a replacement stays. -/
theorem replaceWords_kept (hw : IsRun w) (hn : w ≠ []) (h : rule (w ++ rest) = .ok none) :
    replaceWords rule false 0 (w ++ rest) = (replaceWords rule true 0 rest).map (w ++ ·) := by
  cases w with
  | nil => exact absurd rfl hn
  | cons c w =>
    rw [List.cons_append] at h ⊢
    rw [replaceWords_cons (.inr h), hw c List.mem_cons_self, replaceWords_inside hw.of_cons]
    cases replaceWords rule true 0 rest <;> rfl

theorem replaceWords_replaced {r : List Char} (hw : IsRun w) (hn : w ≠ [])
    (h : rule (w ++ rest) = .ok (some (w.length, r))) :
    replaceWords rule false 0 (w ++ rest) = (replaceWords rule true 0 rest).map (r ++ ·) := by
  cases w with
  | nil => exact absurd rfl hn
  | cons c w =>
    rw [List.cons_append] at h ⊢
    rw [replaceWords, if_neg Bool.false_ne_true, h, hw c List.mem_cons_self]
    simp only [List.length_cons, Nat.add_sub_cancel, bind, Except.bind]
    rw [replaceWords_skip hw.of_cons]
    cases replaceWords rule true 0 rest <;> rfl

/-! ### Names at the start of a text -/

theorem continuesName_of_isAsciiLetter (h : isAsciiLetter c = true) : continuesName c = true := by
  have hc : c.toNat < 128 := by
    have := isAsciiLetter_iff.1 h
    omega
  rw [continuesName, isWordChar, if_pos hc, h]
  rfl

theorem continuesName_of_isFormOf (hl : isAsciiLetter letter = true)
    (h : isFormOf letter c = true) : continuesName c = true := by
  simp only [isFormOf, Bool.or_eq_true, Bool.and_eq_true, beq_iff_eq] at h
  obtain ((rfl | ⟨h, -⟩) | ⟨-, rfl | rfl⟩) | ⟨-, rfl⟩ := h
  · exact continuesName_of_isAsciiLetter hl
  · exact continuesName_of_isAsciiLetter h
  all_goals decide

theorem afterName?_append (hn : ∀ letter ∈ name, isAsciiLetter letter = true)
    (hr : endsName rest = true) :
    afterName? name (w ++ rest) = (afterName? name w).map (· ++ rest) := by
  induction name generalizing w with
  | nil => cases w <;> rfl
  | cons letter name ih =>
    have hl := hn letter List.mem_cons_self
    have ih := fun w => @ih w fun d hd => hn d (List.mem_cons_of_mem _ hd)
    cases w with
    | nil =>
      cases rest with
      | nil => rfl
      | cons c rest =>
        have hc : ¬ isFormOf letter c = true := fun hf => by
          rw [endsName_cons, continuesName_of_isFormOf hl hf] at hr
          cases hr
        have hnone : afterName? (letter :: name) (c :: rest) = none := by
          rw [afterName?, if_neg hc]
        exact hnone
    | cons c w =>
      rw [List.cons_append, afterName?, afterName?, ih]
      split <;> rfl

/-- A name takes as many characters as it has letters. -/
theorem afterName?_eq_some (h : afterName? name cs = some rest) :
    ∃ u, cs = u ++ rest ∧ u.length = name.length := by
  induction name generalizing cs with
  | nil =>
    cases cs <;> (rw [afterName?] at h; cases h; exact ⟨[], rfl, rfl⟩)
  | cons letter name ih =>
    cases cs with
    | nil => cases h
    | cons c cs =>
      rw [afterName?] at h
      split at h
      · obtain ⟨u, rfl, hu⟩ := ih h
        exact ⟨c :: u, rfl, congrArg (· + 1) hu⟩
      · cases h

/-- A name is found at the start of a run only if it is the whole run. -/
theorem any_endsName_iff (hn : ∀ letter ∈ name, isAsciiLetter letter = true) (hw : IsRun w)
    (hr : endsName rest = true) :
    (afterName? name (w ++ rest)).any endsName = (afterName? name w == some []) := by
  rw [afterName?_append hn hr]
  cases h : afterName? name w with
  | none => rfl
  | some r =>
    cases r with
    | nil => exact hr
    | cons c r =>
      obtain ⟨u, rfl, -⟩ := afterName?_eq_some h
      have hc := hw c (List.mem_append_right u List.mem_cons_self)
      rw [Option.map_some, Option.any_some, List.cons_append, endsName_cons, hc]
      rfl

/-! ### The names of functions and constants -/

theorem spellings_letters : ∀ s ∈ spellings, s.1.toList.all isAsciiLetter = true := by
  decide

/-- What becomes of a run by the names of functions. -/
def functionWord (w : List Char) : Except ForeignSpelling (Option (List Char)) :=
  match spellings.find? fun (spelling, _) => afterName? spelling.toList w == some [] with
  | none => .ok none
  | some (_, name) =>
    if w.all isAsciiLetter then .ok (some (qualified name)) else .error ⟨String.ofList w⟩

theorem functionRule_run (hw : IsRun w) (hr : endsName rest = true) :
    functionRule (w ++ rest) = (functionWord w).map (·.map (w.length, ·)) := by
  have hf : (spellings.find? fun (spelling, _) =>
      (afterName? spelling.toList (w ++ rest)).any endsName) =
      spellings.find? fun (spelling, _) => afterName? spelling.toList w == some [] :=
    List.find?_congr fun s hs => any_endsName_iff (List.all_eq_true.1 (spellings_letters s hs)) hw hr
  rw [functionRule, functionWord, hf]
  cases hs : spellings.find? fun (spelling, _) => afterName? spelling.toList w == some [] with
  | none => rfl
  | some s =>
    obtain ⟨spelling, name⟩ := s
    have ha : afterName? spelling.toList w = some [] := by simpa using List.find?_some hs
    obtain ⟨u, hu, hlen⟩ := afterName?_eq_some ha
    rw [List.append_nil] at hu
    subst hu
    have hlen : spelling.length = w.length := by rw [hlen, String.length_toList]
    dsimp only
    rw [hlen, List.take_left]
    split <;> rfl

/-- What becomes of a run by the name of a constant. -/
def constantWord (name : String) (w : List Char) : Option (List Char) :=
  if w = name.toList then some (qualified name) else none

theorem constantRule_run {name : String} (hn : IsRun name.toList) (hw : IsRun w)
    (hr : endsName rest = true) :
    constantRule name (w ++ rest) = .ok ((constantWord name w).map (w.length, ·)) := by
  rw [constantRule, constantWord]
  by_cases h : w = name.toList
  · subst h
    rw [if_pos rfl, if_pos]
    · simp [← String.length_toList]
    · simpa [← String.length_toList] using hr
  · rw [if_neg h, if_neg]
    · rfl
    · intro hc
      rw [Bool.and_eq_true, List.isPrefixOf_iff_prefix] at hc
      obtain ⟨⟨r, hp⟩, he⟩ := hc
      rw [← hp, ← String.length_toList, List.drop_left] at he
      -- both runs reach as far as characters continue a name
      have h1 := hw.takeWhile hr
      rw [← hp, hn.takeWhile he] at h1
      exact h h1.symm

/-! ### Rules that look at runs -/

/-- A rule that replaces whole runs, and what it makes of a run. -/
structure RunRule (rule : WordRule) (word : List Char → Except ForeignSpelling (Option (List Char))) :
    Prop where
  run : ∀ {w rest : List Char}, IsRun w → endsName rest = true →
    rule (w ++ rest) = (word w).map (·.map (w.length, ·))
  mark : ∀ {c : Char} {cs : List Char}, continuesName c = false → rule (c :: cs) = .ok none

theorem functionWord_of_unknown (h : ∀ s ∈ spellings, afterName? s.1.toList w ≠ some []) :
    functionWord w = .ok none := by
  have hn : (spellings.find? fun (spelling, _) => afterName? spelling.toList w == some []) =
      none := by
    rw [List.find?_eq_none]
    exact fun s hs he => h s hs (beq_iff_eq.1 he)
  rw [functionWord, hn]

theorem functionWord_of_known {s : String × String} (hs : s ∈ spellings)
    (h : afterName? s.1.toList w = some []) : ∃ s' ∈ spellings, functionWord w =
      if w.all isAsciiLetter then .ok (some (qualified s'.2)) else .error ⟨String.ofList w⟩ := by
  rw [functionWord]
  split
  · next hn => exact absurd (beq_iff_eq.2 h) (List.find?_eq_none.1 hn s hs)
  · next spelling name hf => exact ⟨_, List.mem_of_find?_eq_some hf, rfl⟩

theorem functionWord_eq_none
    (h : ∀ c ∈ w.head?, ∀ letter, isAsciiLetter letter = true → isFormOf letter c = false) :
    functionWord w = .ok none := by
  refine functionWord_of_unknown fun s hs => ?_
  rw [afterName?_spelling hs h]
  exact (Option.some_ne_none []).symm

theorem runRule_function : RunRule functionRule functionWord where
  run hw hr := functionRule_run hw hr
  mark := by
    intro c cs hc
    have hf : ∀ d ∈ (c :: cs).head?, ∀ letter, isAsciiLetter letter = true →
        isFormOf letter d = false := by
      rintro d ⟨⟩ letter hl
      rw [← Bool.not_eq_true]
      intro hf
      rw [continuesName_of_isFormOf hl hf] at hc
      cases hc
    have hn : (spellings.find? fun (spelling, _) =>
        (afterName? spelling.toList (c :: cs)).any endsName) = none := by
      rw [List.find?_eq_none]
      intro s hs
      dsimp only
      rw [afterName?_spelling hs hf]
      exact Bool.false_ne_true
    rw [functionRule, hn]

theorem runRule_constant {name : String} (hn : IsRun name.toList) (hne : name.toList ≠ []) :
    RunRule (constantRule name) fun w => .ok (constantWord name w) where
  run hw hr := constantRule_run hn hw hr
  mark := by
    intro c cs hc
    rw [constantRule, if_neg]
    rw [Bool.and_eq_true, List.isPrefixOf_iff_prefix]
    rintro ⟨⟨r, hp⟩, -⟩
    obtain ⟨d, w, hw⟩ := List.exists_cons_of_ne_nil hne
    rw [hw] at hp hn
    obtain rfl := (List.cons.inj hp).1
    rw [hn d List.mem_cons_self] at hc
    cases hc

variable {word : List Char → Except ForeignSpelling (Option (List Char))}

theorem RunRule.replaceWords (h : RunRule rule word) (hw : IsRun w) (hn : w ≠ [])
    (hr : endsName rest = true) {r : Option (List Char)} (hx : word w = .ok r) :
    replaceWords rule false 0 (w ++ rest) =
      (replaceWords rule true 0 rest).map (r.getD w ++ ·) := by
  have hrule := h.run hw hr
  rw [hx] at hrule
  cases r with
  | none => exact replaceWords_kept hw hn hrule
  | some r => exact replaceWords_replaced hw hn hrule

end Relief.Shorthand
