import Mathlib
import Relief.Proofs.Grammar.Recognition
import Relief.Proofs.Print.Scan

/-!
The tokens of two texts side by side are those of the one and then those of the other, unless a token
reaches from one into the other.
-/
namespace Relief.Scan

open Relief.Token Relief.Text Relief.Grammar

variable {u v w cs rest : List Char} {ks ks' : List Kind} {k : Kind} {l : Lexeme} {a b c : Char}

/-! ### Neighbours within a token -/

/-- Characters of numbers and names. -/
def inWord (c : Char) : Bool := isNamePart c || isDigit c || c == '.' || c == '+' || c == '-'

/-- No token holds the two characters side by side. -/
def Apart (a b : Char) : Prop := ¬ (a = '*' ∧ b = '*') ∧ ¬ (inWord a = true ∧ inWord b = true)

theorem Apart.symm (h : Apart a b) : Apart b a := ⟨fun he => h.1 he.symm, fun hw => h.2 hw.symm⟩

theorem apart_of_mark (h : inWord a = false) (hs : a ≠ '*' ∨ b ≠ '*') : Apart a b := by
  refine ⟨fun he => hs.elim (absurd he.1) (absurd he.2), fun hw => ?_⟩
  rw [hw.1] at h
  cases h

theorem inWord_of_isDigit (h : isDigit c = true) : inWord c = true := by
  rw [inWord, h, Bool.or_true]
  rfl

theorem inWord_of_isNamePart (h : isNamePart c = true) : inWord c = true := by
  rw [inWord, h]
  rfl

theorem inWord_of_isExponentMark (h : isExponentMark c = true) : inWord c = true := by
  simp only [isExponentMark, Bool.or_eq_true, beq_iff_eq] at h
  obtain rfl | rfl := h <;> decide

theorem IsDigits.inWord (h : IsDigits w) : ∀ c ∈ w, inWord c = true := fun c hc =>
  inWord_of_isDigit (h c hc)

theorem NumberText.inWord {d : Number.Decimal} (h : NumberText w d) : ∀ c ∈ w, inWord c = true := by
  obtain ⟨hm, hx⟩ := h
  refine List.forall_mem_append.2 ⟨?_, ?_⟩
  · cases hm with
    | whole _ hd => exact hd.inWord
    | point _ hd hf =>
      exact List.forall_mem_append.2 ⟨hd.inWord, List.forall_mem_cons.2 ⟨by decide, hf.inWord⟩⟩
  · cases hx with
    | none => exact fun c hc => absurd hc List.not_mem_nil
    | unsigned hmark _ hd =>
      exact List.forall_mem_cons.2 ⟨inWord_of_isExponentMark hmark, hd.inWord⟩
    | signed hmark hs _ hd =>
      refine List.forall_mem_cons.2 ⟨inWord_of_isExponentMark hmark, List.forall_mem_cons.2
        ⟨?_, hd.inWord⟩⟩
      obtain rfl | rfl := hs <;> decide

theorem NameText.inWord (h : NameText w) : ∀ c ∈ w, inWord c = true := fun _ hc =>
  inWord_of_isNamePart (h.isNamePart hc)

theorem not_isBlank_of_inWord (h : inWord c = true) : isBlank c = false := by
  rw [← Bool.not_eq_true]
  intro hb
  have hd := not_isDigit_of_isBlank hb
  have hn := not_isNameStart_of_isBlank hb
  simp only [inWord, hd, Bool.or_false, Bool.or_eq_true, isNamePart_iff, hn, beq_iff_eq] at h
  obtain (((h | h) | rfl) | rfl) | rfl := h
  · cases h
  · rw [(isDigit_iff_of_lt (by omega)).2 h] at hd
    cases hd
  all_goals cases hb

/-- What a lexeme is made of. -/
theorem Spells.made (h : Spells w l) : (∀ c ∈ w, inWord c = true) ∨ (∀ c ∈ w, isBlank c = true) ∨
    w = ['*', '*'] ∨ ∃ c, w = [c] := by
  cases h with
  | number h => exact .inl h.inWord
  | qualified h =>
    have hq : Shorthand.qualifier.toList.all inWord = true := by decide
    exact .inl (List.forall_mem_append.2 ⟨List.all_eq_true.1 hq, h.inWord⟩)
  | name h => exact .inl h.inWord
  | symbol h =>
    refine .inr (.inr ?_)
    simp only [symbols, List.mem_cons, Prod.mk.injEq, List.not_mem_nil, or_false] at h
    obtain ⟨rfl, -⟩ | ⟨rfl, -⟩ | ⟨rfl, -⟩ | ⟨rfl, -⟩ | ⟨rfl, -⟩ | ⟨rfl, -⟩ | ⟨rfl, -⟩ | ⟨rfl, -⟩ |
      ⟨rfl, -⟩ := h
    · exact .inl rfl
    all_goals exact .inr ⟨_, rfl⟩
  | blank _ h => exact .inr (.inl h)

/-- A lexeme with two characters that stand apart is blank. -/
theorem Spells.blank_of_apart (h : Spells w l) (hi : [a, b] <:+: w) (hab : Apart a b) :
    ∀ c ∈ w, isBlank c = true := by
  have ha := hi.mem (List.mem_cons_self : a ∈ [a, b])
  have hb := hi.mem (List.mem_cons_of_mem a List.mem_cons_self : b ∈ [a, b])
  obtain hw | hw | rfl | ⟨c, rfl⟩ := h.made
  · exact absurd ⟨hw a ha, hw b hb⟩ hab.2
  · exact hw
  · exact absurd ⟨by simpa using ha, by simpa using hb⟩ hab.1
  · cases Nat.not_succ_le_self 1 hi.length_le

/-- No text is both a token and blank. -/
theorem Spells.not_blank (h : Spells w (.token k)) : ¬ ∀ c ∈ w, isBlank c = true := fun hb => by
  cases h.unique (.blank h.ne_nil hb)

/-! ### Rows of tokens -/

/-- The kinds of the tokens of a text, wherever it stands. -/
inductive Lexes : List Char → List Kind → Prop where
  | nil : Lexes [] []
  | blank {c : Char} {cs : List Char} {ks : List Kind} : isBlank c = true → Lexes cs ks →
    Lexes (c :: cs) ks
  | token {w rest : List Char} {k : Kind} {ks : List Kind} : Longest w (.token k) (w ++ rest) →
    Lexes rest ks → Lexes (w ++ rest) (k :: ks)

theorem Lexes.blanks (hw : ∀ c ∈ w, isBlank c = true) (h : Lexes cs ks) : Lexes (w ++ cs) ks := by
  induction w with
  | nil => exact h
  | cons c w ih =>
    obtain ⟨hc, hw⟩ := List.forall_mem_cons.1 hw
    exact .blank hc (ih hw)

/-- The longest token stays the longest if no token reaches beyond the text. -/
theorem Longest.append (h : Longest w (.token k) cs)
    (ha : ∀ a ∈ cs.getLast?, ∀ b ∈ v.head?, Apart a b) : Longest w (.token k) (cs ++ v) where
  starts := h.starts.trans (List.prefix_append cs v)
  spells := h.spells
  longest := by
    intro w' l' hp hw'
    obtain hp' | ⟨r, rfl⟩ := List.prefix_or_prefix_of_prefix hp (List.prefix_append cs v)
    · exact h.longest w' l' hp' hw'
    · cases r with
      | nil => exact h.longest _ l' (by rw [List.append_nil]) hw'
      | cons b r =>
        have hb : b ∈ v.head? := by
          obtain ⟨r', rfl⟩ := (List.prefix_append_right_inj cs).1 hp
          rfl
        have hne : cs ≠ [] := by
          rintro rfl
          exact h.spells.ne_nil (List.prefix_nil.1 h.starts)
        obtain ⟨cs, a, rfl⟩ := (List.eq_nil_or_concat' cs).resolve_left hne
        -- the token would be blank
        have hi : [a, b] <:+: cs ++ [a] ++ b :: r := ⟨cs, r, by simp⟩
        have hblank := hw'.blank_of_apart hi (ha a (by simp) b hb)
        refine absurd (fun c hc => hblank c ?_) h.spells.not_blank
        exact List.mem_append_left _ (h.starts.mem hc)

theorem Lexes.append (hu : Lexes u ks) (hv : Lexes v ks')
    (h : ∀ a ∈ u.getLast?, ∀ b ∈ v.head?, Apart a b) : Lexes (u ++ v) (ks ++ ks') := by
  induction hu with
  | nil => exact hv
  | @blank c cs ks hc _ ih =>
    refine .blank hc (ih fun a ha => h a ?_)
    cases cs with
    | nil => cases ha
    | cons d cs => exact ha
  | @token w rest k ks hl _ ih =>
    rw [List.append_assoc, List.cons_append]
    have hl' := hl.append h
    rw [List.append_assoc] at hl'
    refine .token hl' (ih fun a ha => h a ?_)
    rw [List.getLast?_append, ha]
    rfl

theorem Lexes.single (h : Spells w (.token k)) : Lexes w [k] := by
  rw [← List.append_nil w]
  exact .token ⟨List.prefix_append w [], h, fun w' _ hp _ => by simpa using hp.length_le⟩ .nil

/-- A mark between two texts is a token of its own, unless it is a `*` beside another. -/
theorem Lexes.append_mark (hm : ([c], k) ∈ symbols) (hw : inWord c = false)
    (ha : ∀ a ∈ u.getLast?, a ≠ '*' ∨ c ≠ '*') (hb : ∀ b ∈ v.head?, b ≠ '*' ∨ c ≠ '*')
    (hu : Lexes u ks) (hv : Lexes v ks') : Lexes (u ++ c :: v) (ks ++ k :: ks') := by
  have hcv : Lexes ([c] ++ v) ([k] ++ ks') :=
    (Lexes.single (.symbol hm)).append hv fun a hac b hbv =>
      (Option.mem_some.1 hac : c = a) ▸ apart_of_mark hw (hb b hbv).symm
  refine hu.append hcv fun a hau b hbc => ?_
  obtain rfl : c = b := Option.mem_some.1 hbc
  exact (apart_of_mark hw (ha a hau).symm).symm

/-! ### As the scanner reads them -/

theorem scanFrom_dropWhile (p : Nat) (cs : List Char) : scanFrom p cs =
    scanFrom (p + (cs.takeWhile isBlank).length) (cs.dropWhile isBlank) := by
  by_cases hn : cs.takeWhile isBlank = []
  · have hc := List.takeWhile_append_dropWhile (p := isBlank) (l := cs)
    rw [hn, List.nil_append] at hc
    rw [hn, hc]
    rfl
  · have hb : ∀ c ∈ cs.takeWhile isBlank, isBlank c = true := fun c hc => List.mem_takeWhile_imp hc
    have hr : (cs.dropWhile isBlank).takeWhile isBlank = [] := by
      have hd := List.head?_dropWhile_not isBlank cs
      cases hcs : cs.dropWhile isBlank with
      | nil => rfl
      | cons d r =>
        rw [hcs] at hd
        exact List.takeWhile_cons_of_neg (ne_true_of_eq_false hd)
    have hl := lexeme?_blank hn hb (cs.dropWhile isBlank)
    rw [hr, List.append_nil] at hl
    rw [← scanFrom_blank hn hl, List.takeWhile_append_dropWhile]

theorem munches_blank_iff {p : Nat} {ts : List Token} (hc : isBlank c = true) :
    Munches p (c :: cs) ts ↔ Munches (p + 1) cs ts := by
  rw [← scanFrom_eq_ok_iff, ← scanFrom_eq_ok_iff, scanFrom_dropWhile p, scanFrom_dropWhile (p + 1),
    List.takeWhile_cons_of_pos hc, List.dropWhile_cons_of_pos hc, List.length_cons,
    Nat.add_right_comm]
  rfl

theorem Lexes.munches (h : Lexes cs ks) (p : Nat) :
    ∃ ts, Munches p cs ts ∧ kinds ts = ks ++ [.finish] := by
  induction h generalizing p with
  | nil => exact ⟨_, .finish, rfl⟩
  | blank hc _ ih =>
    obtain ⟨ts, hm, hk⟩ := ih (p + 1)
    exact ⟨ts, (munches_blank_iff hc).2 hm, hk⟩
  | @token w rest k ks hl _ ih =>
    obtain ⟨ts, hm, hk⟩ := ih (p + w.length)
    exact ⟨_, .token hl hm, congrArg (k :: ·) hk⟩

theorem Spells.isBlank (h : Spells w .blank) : ∀ c ∈ w, isBlank c = true := by
  generalize hl : Lexeme.blank = l at h
  cases h with
  | number => cases hl
  | qualified h =>
    simp only [ofQualified] at hl
    split at hl
    · cases hl
    · split at hl <;> cases hl
  | name h =>
    simp only [ofName] at hl
    split at hl <;> cases hl
  | symbol => cases hl
  | blank _ h => exact h

theorem Lexes.of_munches {p : Nat} {ts : List Token} (h : Munches p cs ts)
    (hk : kinds ts = ks ++ [.finish]) : Lexes cs ks := by
  induction h generalizing ks with
  | finish =>
    cases ks with
    | nil => exact .nil
    | cons k ks => simp at hk
  | blank hl _ ih => exact (ih hk).blanks hl.spells.isBlank
  | token hl _ ih =>
    cases ks with
    | nil =>
      obtain rfl := (List.cons.inj hk).1
      exact absurd rfl hl.spells.ne_finish
    | cons k ks =>
      obtain ⟨rfl, hks⟩ := List.cons.inj hk
      exact .token hl (ih hks)

theorem derives_iff {text : String} {d : Derivation .additive} :
    Derives text d ↔ Lexes text.toList d.yield ∧ d.Allowed := by
  constructor
  · rintro ⟨⟨ts, hm, hk⟩, ha⟩
    exact ⟨.of_munches hm hk, ha⟩
  · rintro ⟨hl, ha⟩
    exact ⟨hl.munches 0, ha⟩

end Relief.Scan
