import Mathlib
import Relief.Proofs.Format.Scene
import Relief.Proofs.Json.Reader

/-!
Factors in six places: in the compact text of a description only the numbers of factors are rounded. No
text that stands in quotes is taken for a factor, whatever it holds.
-/
namespace Relief.Format.Json

open Relief.Number

/-! ### Descriptions -/

/-- A list of doubles in six places. -/
def roundedFactor : Json → Json
  | list items => list (items.map fun
    | float v => fixed 6 v
    | j => j)
  | j => j

mutual

/-- A description with all factors in six places. -/
def rounded : Json → Json
  | list items => list (roundedItems items)
  | object members => object (roundedMembers members)
  | j => j

def roundedItems : List Json → List Json
  | [] => []
  | v :: vs => rounded v :: roundedItems vs

def roundedMembers : List (String × Json) → List (String × Json)
  | [] => []
  | (name, v) :: ms =>
    (name, if name = Glb.factorName then roundedFactor v else rounded v) :: roundedMembers ms

end

/-- A character that stands for itself in every text. -/
def isPlain (c : Char) : Bool :=
  0x20 ≤ c.toNat && c.toNat < 0x7f && c != '"' && c != '\\'

def IsFactor (j : Json) : Prop :=
  ∃ vs : List Float, vs ≠ [] ∧ j = list (vs.map float)

mutual

/-- A description whose factors are lists of doubles. Its names need no escapes. -/
def IsRaw : Json → Prop
  | fixed _ _ => False
  | list items => AreRaw items
  | object members => HaveRaw members
  | _ => True

def AreRaw : List Json → Prop
  | [] => True
  | v :: vs => IsRaw v ∧ AreRaw vs

def HaveRaw : List (String × Json) → Prop
  | [] => True
  | (name, v) :: ms => (name.toList.all isPlain = true ∧ (name = Glb.factorName → IsFactor v)) ∧
      IsRaw v ∧ HaveRaw ms

end

end Relief.Format.Json

namespace Relief.Format.Glb

open Relief.Number Json

variable {c : Char} {cs w w' x x' rest : List Char} {j : Json} {skip level : Nat}

/-- Before some text, characters become others when factors are rounded. -/
def Becomes (w w' rest : List Char) : Prop :=
  roundFactors 0 (w ++ rest) = (roundFactors 0 rest).map (w' ++ ·)

theorem Becomes.nil : Becomes [] [] rest := by
  rw [Becomes, List.nil_append]
  exact (Option.map_id' ..).symm

theorem Becomes.append (h : Becomes w w' (x ++ rest)) (hx : Becomes x x' rest) :
    Becomes (w ++ x) (w' ++ x') rest := by
  rw [Becomes, List.append_assoc, h, hx, Option.map_map]
  exact congrArg (Option.map · _) (funext fun r => (List.append_assoc w' x' r).symm)

theorem Becomes.cons (h : Becomes [c] [c] (x ++ rest)) (hx : Becomes x x' rest) :
    Becomes (c :: x) (c :: x') rest :=
  Becomes.append h hx

/-! ### Where no factor starts -/

theorem factorAt?_eq_none (h : ∀ after, c :: cs ≠ factorMark ++ after) : factorAt? (c :: cs) = none := by
  have hp : factorMark.isPrefixOf? (c :: cs) = none := by
    by_contra hn
    obtain ⟨after, ha⟩ := Option.ne_none_iff_exists'.1 hn
    exact h after (List.isPrefixOf?_eq_some_iff_append_eq.1 ha).symm
  rw [factorAt?, hp]
  rfl

theorem becomes_char (h : factorAt? (c :: rest) = none) : Becomes [c] [c] rest := by
  rw [Becomes, List.singleton_append, roundFactors, h]
  cases roundFactors 0 rest <;> rfl

theorem becomes_of_ne (h : c ≠ '"') : Becomes [c] [c] rest :=
  becomes_char (factorAt?_eq_none fun _ ha => h (List.cons.inj ha).1)

theorem becomes_of_notMem (h : '"' ∉ w) : Becomes w w rest := by
  induction w with
  | nil => exact .nil
  | cons c w ih =>
    obtain ⟨hc, hw⟩ := not_or.1 (mt List.mem_cons.2 h)
    exact (becomes_of_ne (Ne.symm hc)).cons (ih hw)

/-- A quote is kept where the name of a factor with its colon does not follow. -/
theorem becomes_quote (h : ∀ after, rest ≠ factorName.toList ++ '"' :: ':' :: after) :
    Becomes ['"'] ['"'] rest :=
  becomes_char (factorAt?_eq_none fun after ha => h ('[' :: after) (List.cons.inj ha).2)

/-! ### Texts in quotes -/

/-- What follows a value within a description, or nothing. -/
def EndsValue (rest : List Char) : Prop :=
  ∀ c ∈ rest.head?, c = ',' ∨ c = ']' ∨ c = '\x7d'

theorem endsValue_cons (h : c = ',' ∨ c = ']' ∨ c = '\x7d') (cs : List Char) :
    EndsValue (c :: cs) := by
  rintro _ ⟨⟩
  exact h

theorem code?_eq_none {ds : List Char} (h : '"' ∈ ds) : code? ds = none := by
  have hm : ds.mapM (digitIn? 16) = none := by
    induction ds with
    | nil => cases h
    | cons d ds ih =>
      rw [List.mapM_cons]
      obtain rfl | h := List.mem_cons.1 h
      · rfl
      · rw [ih h]
        cases digitIn? 16 d <;> rfl
  rw [code?, hm, Option.map_none]

theorem quote_notMem_escapeWord {n : Nat} (h : n < 0x10000) : '"' ∉ escapeWord n := by
  obtain ⟨c1, c2, c3, c4, hh, hc⟩ := code?_hex h
  have hd : '"' ∉ [c1, c2, c3, c4] := fun hq => by
    rw [code?_eq_none hq] at hc
    cases hc
  rw [escapeWord, hh]
  intro hm
  obtain h | hm := List.mem_cons.1 hm
  · cases h
  · obtain h | hm := List.mem_cons.1 hm
    · cases h
    · exact hd hm

theorem unitsOf_ne_nil (c : Char) : unitsOf c ≠ [] := by
  unfold unitsOf
  split <;> exact List.cons_ne_nil _ _

/-- What is written for a character is one character or begins with a backslash. -/
theorem escapeChar_head (c : Char) :
    (∃ w, escapeChar true c = '\\' :: w) ∨ (c ≠ '"' ∧ escapeChar true c = [c]) := by
  obtain ⟨k, he, -⟩ | he | ⟨-, -, hq, -, he⟩ := escapeChar_cases c
  · exact .inl ⟨[k], he⟩
  · obtain ⟨n, us, hn⟩ := List.exists_cons_of_ne_nil (unitsOf_ne_nil c)
    rw [he, hn, List.flatMap_cons, escapeWord, List.cons_append]
    exact .inl ⟨_, rfl⟩
  · exact .inr ⟨hq, he⟩

/-- No plain characters with a quote and a colon behind them begin what is left of a text in quotes. -/
theorem escaped_ne {p after : List Char} (hp : ∀ c ∈ p, c ≠ '"' ∧ c ≠ '\\') (hr : EndsValue rest) :
    cs.flatMap (escapeChar true) ++ '"' :: rest ≠ p ++ '"' :: ':' :: after := by
  induction p generalizing cs with
  | nil =>
    cases cs with
    | nil =>
      rintro ⟨⟩
      obtain h | h | h := hr ':' rfl <;> cases h
    | cons c cs =>
      rw [List.flatMap_cons, List.append_assoc]
      obtain ⟨w, he⟩ | ⟨hc, he⟩ := escapeChar_head c
      · rw [he]
        rintro ⟨⟩
      · rw [he]
        exact fun h => hc (List.cons.inj h).1
  | cons k p ih =>
    obtain ⟨hk, hp⟩ := List.forall_mem_cons.1 hp
    cases cs with
    | nil => exact fun h => hk.1 (List.cons.inj h).1.symm
    | cons c cs =>
      rw [List.flatMap_cons, List.append_assoc]
      obtain ⟨w, he⟩ | ⟨-, he⟩ := escapeChar_head c
      · rw [he]
        exact fun h => hk.2 (List.cons.inj h).1.symm
      · rw [he]
        exact fun h => ih hp (List.cons.inj h).2

theorem factorName_plain : ∀ c ∈ factorName.toList, c ≠ '"' ∧ c ≠ '\\' := by
  have h : (factorName.toList.all fun c => c != '"' && c != '\\') = true := by decide
  intro c hc
  have h := List.all_eq_true.1 h c hc
  rwa [Bool.and_eq_true, bne_iff_ne, bne_iff_ne] at h

/-- A quote is kept, whatever is left of a text in quotes behind it. -/
theorem becomes_quote_escaped (hr : EndsValue rest) :
    Becomes ['"'] ['"'] (cs.flatMap (escapeChar true) ++ '"' :: rest) :=
  becomes_quote fun _ => escaped_ne factorName_plain hr

theorem becomes_escapeChar (c : Char) (hr : EndsValue rest) :
    Becomes (escapeChar true c) (escapeChar true c)
      (cs.flatMap (escapeChar true) ++ '"' :: rest) := by
  obtain ⟨k, he, -⟩ | he | ⟨-, -, hq, -, he⟩ := escapeChar_cases c
  · rw [he]
    have hk : Becomes [k] [k] (cs.flatMap (escapeChar true) ++ '"' :: rest) := by
      by_cases hk : k = '"'
      · subst hk
        exact becomes_quote_escaped hr
      · exact becomes_of_ne hk
    exact (becomes_of_ne (by decide)).append hk
  · rw [he]
    apply becomes_of_notMem
    intro hm
    obtain ⟨n, hn, hm⟩ := List.mem_flatMap.1 hm
    exact quote_notMem_escapeWord (unitsOf_lt c n hn) hm
  · rw [he]
    exact becomes_of_ne hq

theorem becomes_escaped (cs : List Char) (hr : EndsValue rest) :
    Becomes (cs.flatMap (escapeChar true)) (cs.flatMap (escapeChar true)) ('"' :: rest) := by
  induction cs with
  | nil => exact .nil
  | cons c cs ih =>
    rw [List.flatMap_cons]
    exact (becomes_escapeChar c hr).append ih

/-- A text in quotes is kept, whatever it holds. -/
theorem becomes_textChars (s : String) (hr : EndsValue rest) :
    Becomes (textChars true s) (textChars true s) rest := by
  have hlast : Becomes ['"'] ['"'] rest := by
    refine becomes_quote fun after h => ?_
    rw [h] at hr
    obtain h | h | h := hr 'b' rfl <;> cases h
  have hfirst : Becomes ['"'] ['"'] (s.toList.flatMap (escapeChar true) ++ '"' :: rest) :=
    becomes_quote_escaped hr
  rw [textChars, List.cons_append]
  refine Becomes.cons ?_ ((becomes_escaped s.toList hr).append hlast)
  rw [List.append_assoc]
  exact hfirst

/-! ### Names and factors -/

theorem escapeChar_plain (h : isPlain c = true) : escapeChar true c = [c] := by
  simp only [isPlain, Bool.and_eq_true, decide_eq_true_eq, bne_iff_ne] at h
  obtain ⟨⟨⟨hge, hlt⟩, hq⟩, hb⟩ := h
  have hne : ∀ ch : Char, ch.toNat < 0x20 → c ≠ ch := by
    rintro ch hch rfl
    omega
  unfold escapeChar
  split
  · exact absurd rfl hq
  · exact absurd rfl hb
  · exact absurd rfl (hne _ (by decide))
  · exact absurd rfl (hne _ (by decide))
  · exact absurd rfl (hne _ (by decide))
  · exact absurd rfl (hne _ (by decide))
  · exact absurd rfl (hne _ (by decide))
  · dsimp only
    rw [if_neg (Nat.not_lt.2 hge), if_pos (by simp [hlt])]

theorem textChars_plain {name : String} (h : name.toList.all isPlain = true) :
    textChars true name = '"' :: name.toList ++ ['"'] := by
  have he : name.toList.flatMap (escapeChar true) = name.toList := by
    conv_rhs => rw [← List.flatMap_singleton' name.toList]
    exact List.flatMap_congr fun c hc => escapeChar_plain (List.all_eq_true.1 h c hc)
  rw [textChars, he]

theorem quote_notMem_plain (h : w.all isPlain = true) : '"' ∉ w := fun hm =>
  absurd (List.all_eq_true.1 h _ hm) (by decide)

theorem takeWhile_ne {b : Char} (h : b ∉ w) : (w ++ b :: rest).takeWhile (· != b) = w := by
  have hw : ∀ c ∈ w, (c != b) = true := by
    intro c hc
    rw [bne_iff_ne]
    rintro rfl
    exact h hc
  rw [List.takeWhile_append_of_pos hw, List.takeWhile_cons_of_neg (by simp), List.append_nil]

/-- A name other than that of a factor is kept. -/
theorem becomes_name {name : String} (h : name.toList.all isPlain = true) (hn : name ≠ factorName) :
    Becomes (textChars true name ++ [':']) (textChars true name ++ [':']) rest := by
  have hfirst : Becomes ['"'] ['"'] (name.toList ++ '"' :: ':' :: rest) := by
    refine becomes_quote fun after he => hn ?_
    have ht := congrArg (List.takeWhile (· != '"')) he
    rw [takeWhile_ne (quote_notMem_plain h),
      takeWhile_ne (quote_notMem_plain (w := factorName.toList) (by decide))] at ht
    exact String.toList_inj.1 ht
  have hlast : Becomes ['"'] ['"'] (':' :: rest) := by
    refine becomes_quote fun after he => ?_
    have hb := (List.cons.inj he).1
    cases hb
  have hname : Becomes name.toList name.toList ('"' :: ':' :: rest) :=
    becomes_of_notMem (quote_notMem_plain h)
  have hcolon : Becomes [':'] [':'] rest := becomes_of_ne (by decide)
  have htail : Becomes (name.toList ++ ['"', ':']) (name.toList ++ ['"', ':']) rest :=
    hname.append (hlast.append hcolon)
  have htext : textChars true name ++ [':'] = ['"'] ++ (name.toList ++ ['"', ':']) := by
    rw [textChars_plain h]
    simp
  rw [htext]
  refine Becomes.append ?_ htail
  rw [List.append_assoc]
  exact hfirst

/-! ### Factors -/

theorem roundFactors_append (w rest : List Char) :
    roundFactors w.length (w ++ rest) = roundFactors 0 rest := by
  induction w with
  | nil => rfl
  | cons c w ih => exact ih

/-- The numbers of a factor are rounded. -/
theorem becomes_factor {numbers numbers' : List Char} (hn : numbers ≠ []) (hb : ']' ∉ numbers)
    (h : roundNumbers numbers = some numbers') (rest : List Char) :
    Becomes (factorMark ++ numbers ++ [']']) (factorMark ++ numbers' ++ [']']) rest := by
  have ht : (numbers ++ ']' :: rest).takeWhile (· != ']') = numbers := takeWhile_ne hb
  have ha : factorAt? (factorMark ++ (numbers ++ ']' :: rest)) = some numbers := by
    have hp : factorMark.isPrefixOf? (factorMark ++ (numbers ++ ']' :: rest)) =
        some (numbers ++ ']' :: rest) := List.isPrefixOf?_eq_some_iff_append_eq.2 rfl
    rw [factorAt?, hp]
    simp only [Option.bind_eq_bind, Option.bind_some, ht]
    rw [if_neg]
    simp [hn]
  obtain ⟨c, mark, hc⟩ := List.exists_cons_of_ne_nil (show factorMark ≠ [] by decide)
  have hlen : factorMark.length + numbers.length = (mark ++ (numbers ++ [']'])).length := by
    rw [hc]
    simp only [List.length_cons, List.length_append, List.length_nil]
    omega
  have hs := roundFactors_append (mark ++ (numbers ++ [']'])) rest
  rw [← hlen, List.append_assoc, List.append_assoc, List.singleton_append] at hs
  rw [Becomes, List.append_assoc, List.append_assoc, List.singleton_append]
  rw [hc, List.cons_append] at ha ⊢
  rw [roundFactors, ha]
  simp only [h, Option.bind_eq_bind, Option.bind_some, hs]
  rw [hc]
  cases roundFactors 0 rest <;> simp

/-- Numbers between commas, each read and written in six places. -/
theorem roundNumbers_doubles {vs : List Float} (hn : vs ≠ []) (hv : ∀ v ∈ vs, v.isFinite = true) :
    roundNumbers (List.intercalate [','] (vs.map fun v => (float64.print v).toList)) =
      some (List.intercalate [','] (vs.map fun v => (fixedText 6 v).toList)) := by
  have hsplit : (List.intercalate [','] (vs.map fun v => (float64.print v).toList)).splitOn ',' =
      vs.map fun v => (float64.print v).toList := by
    refine List.splitOn_intercalate ',' ?_ (by simpa using hn)
    refine List.forall_mem_map.2 fun v hm hc => ?_
    exact absurd (AreBare.of_isNumber (isNumber_of_number? (number?_float (hv v hm))) ',' hc)
      (by decide)
  have hread : (vs.map fun v => (float64.print v).toList).mapM
      (fun part => readFloat? (String.ofList part)) = some (vs.map id) := by
    refine mapM_map_some fun v hm => ?_
    rw [String.ofList_toList]
    exact readFloat?_print (l := float64) (.inr rfl) (hv v hm)
  rw [roundNumbers, hsplit, hread, List.map_id]
  rfl

/-! ### Whole descriptions -/

/-- The texts of numbers hold no quote. -/
theorem becomes_number {v : Value} (h : number? w = some v) : Becomes w w rest :=
  becomes_of_notMem fun hm =>
    absurd (AreBare.of_isNumber (isNumber_of_number? h) '"' hm) (by decide)

theorem itemChars_map {α : Type} (f : α → Json) (level : Nat) (as : List α) :
    itemChars compact level (as.map f) = as.map fun a => chars compact level (f a) := by
  induction as with
  | nil => rfl
  | cons a as ih => rw [List.map_cons, itemChars, ih, List.map_cons]

theorem isFinite_of_areExact {vs : List Float} (h : AreExact (vs.map Json.float)) :
    ∀ v ∈ vs, v.isFinite = true := by
  induction vs with
  | nil => exact List.forall_mem_nil _
  | cons v vs ih => exact List.forall_mem_cons.2 ⟨h.1, ih h.2⟩

theorem notMem_intercalate {parts : List (List Char)} (hc : c ≠ ',') (h : ∀ p ∈ parts, c ∉ p) :
    c ∉ List.intercalate [','] parts := by
  cases parts with
  | nil => simp [List.intercalate]
  | cons p parts =>
    induction parts generalizing p with
    | nil =>
      rw [intercalate_singleton]
      exact h p List.mem_cons_self
    | cons q parts ih =>
      obtain ⟨hp, hparts⟩ := List.forall_mem_cons.1 h
      rw [List.intercalate_cons_cons]
      simp [hp, hc, ih q hparts]

/-- A factor with its name is rounded. -/
theorem becomes_factorMember (level : Nat) (h : IsFactor j) (he : IsExact j) :
    Becomes (memberText level factorName j) (memberText level factorName (roundedFactor j))
      rest := by
  obtain ⟨vs, hn, rfl⟩ := h
  have hv := isFinite_of_areExact he
  have hname : textChars true factorName = '"' :: factorName.toList ++ ['"'] :=
    textChars_plain (by decide)
  have hbracket : ']' ∉ List.intercalate [','] (vs.map fun v => (float64.print v).toList) := by
    refine notMem_intercalate (by decide) (List.forall_mem_map.2 fun v hm hc => ?_)
    exact absurd (AreBare.of_isNumber (isNumber_of_number? (number?_float (hv v hm))) ']' hc)
      (by decide)
  have hne : List.intercalate [','] (vs.map fun v => (float64.print v).toList) ≠ [] := by
    obtain ⟨v, vs, rfl⟩ := List.exists_cons_of_ne_nil hn
    obtain ⟨c, cs, hc, -⟩ := (Opens.of_number (number?_float (hv v List.mem_cons_self))).intercalate
      (vs.map fun v => (float64.print v).toList)
    rw [List.map_cons, hc]
    exact List.cons_ne_nil c cs
  have hb := becomes_factor hne hbracket (roundNumbers_doubles hn hv) rest
  have htext : ∀ f : Float → Json, memberText level factorName (list (vs.map f)) = factorMark ++
      List.intercalate [','] (vs.map fun v => chars compact (level + 1) (f v)) ++ [']'] := by
    intro f
    rw [memberText, hname, chars, bracketed_compact, itemChars_map, factorMark]
    simp
  have hr : roundedFactor (list (vs.map Json.float)) = list (vs.map (fixed 6)) := by
    rw [roundedFactor, List.map_map]
    rfl
  rw [hr, htext, htext]
  exact hb

theorem becomes_member {name : String}
    (hn : name.toList.all isPlain = true ∧ (name = factorName → IsFactor j)) (he : IsExact j)
    (h : Becomes (chars compact level j) (chars compact level (rounded j)) rest) :
    Becomes (memberText level name j)
      (memberText level name (if name = factorName then roundedFactor j else rounded j)) rest := by
  by_cases hname : name = factorName
  · rw [if_pos hname, hname]
    exact becomes_factorMember level (hn.2 hname) he
  · rw [if_neg hname]
    have hb := (becomes_name hn.1 hname).append h
    rwa [List.append_assoc, List.append_assoc, List.singleton_append, List.singleton_append] at hb

mutual

/-- The compact text of a description becomes that of the rounded one, within any other. -/
theorem becomes_chars : ∀ (j : Json) (level : Nat) (rest : List Char), IsRaw j → IsExact j →
    EndsValue rest →
    Becomes (chars compact level j) (chars compact level (rounded j)) rest
  | .null, level, rest, _, _, _ => becomes_of_notMem (w := "null".toList) (by decide)
  | .bool true, level, rest, _, _, _ => becomes_of_notMem (w := "true".toList) (by decide)
  | .bool false, level, rest, _, _, _ => becomes_of_notMem (w := "false".toList) (by decide)
  | .int n, level, rest, _, _, _ => becomes_number (number?_int n)
  | .float v, level, rest, _, he, _ => becomes_number (number?_float he)
  | .text s, level, rest, _, _, hr => becomes_textChars s hr
  | .list [], level, rest, _, _, _ => becomes_of_notMem (w := ['[', ']']) (by decide)
  | .list (v :: vs), level, rest, hj, he, _ => by
    rw [rounded, roundedItems, chars, chars, bracketed_compact, bracketed_compact, itemChars,
      itemChars]
    have hi := becomes_items v vs (level + 1) rest hj.1 hj.2 he.1 he.2
    exact (becomes_of_ne (by decide)).cons hi
  | .object [], level, rest, _, _, _ => becomes_of_notMem (w := ['\x7b', '\x7d']) (by decide)
  | .object ((name, v) :: ms), level, rest, hj, he, _ => by
    rw [rounded, roundedMembers, chars, chars, bracketed_compact, bracketed_compact,
      memberChars_cons, memberChars_cons]
    have hi := becomes_members name v ms (level + 1) rest hj.1 hj.2.1 hj.2.2 he.1 he.2
    exact (becomes_of_ne (by decide)).cons hi
termination_by j => sizeOf j

theorem becomes_items : ∀ (v : Json) (vs : List Json) (level : Nat) (rest : List Char), IsRaw v →
    AreRaw vs → IsExact v → AreExact vs →
    Becomes (List.intercalate [','] (chars compact level v :: itemChars compact level vs) ++ [']'])
      (List.intercalate [','] (chars compact level (rounded v) ::
        itemChars compact level (roundedItems vs)) ++ [']']) rest
  | v, [], level, rest, hv, _, he, _ => by
    rw [roundedItems, itemChars, intercalate_singleton, intercalate_singleton]
    exact (becomes_chars v level _ hv he (endsValue_cons (.inr (.inl rfl)) _)).append
      (becomes_of_ne (by decide))
  | v, w :: ws, level, rest, hv, hvs, he, hes => by
    rw [roundedItems, itemChars, itemChars, List.intercalate_cons_cons, List.intercalate_cons_cons,
      List.append_assoc, List.append_assoc, List.append_assoc, List.append_assoc]
    have hi := becomes_items w ws level rest hvs.1 hvs.2 hes.1 hes.2
    exact (becomes_chars v level _ hv he (endsValue_cons (.inl rfl) _)).append
      ((becomes_of_ne (c := ',') (by decide)).append hi)
termination_by v vs => sizeOf v + sizeOf vs

theorem becomes_members : ∀ (name : String) (v : Json) (ms : List (String × Json)) (level : Nat)
    (rest : List Char),
    name.toList.all isPlain = true ∧ (name = factorName → IsFactor v) → IsRaw v → HaveRaw ms →
    IsExact v → HaveExact ms →
    Becomes (List.intercalate [','] (memberText level name v :: memberChars compact level ms) ++
        ['\x7d'])
      (List.intercalate [','] (memberText level name
        (if name = factorName then roundedFactor v else rounded v) ::
          memberChars compact level (roundedMembers ms)) ++ ['\x7d']) rest
  | name, v, [], level, rest, hn, hv, _, he, _ => by
    rw [roundedMembers, memberChars, intercalate_singleton, intercalate_singleton]
    have hb : EndsValue ('\x7d' :: rest) := endsValue_cons (.inr (.inr rfl)) _
    exact (becomes_member hn he (becomes_chars v level _ hv he hb)).append
      (becomes_of_ne (by decide))
  | name, v, (name', w) :: ms, level, rest, hn, hv, hms, he, hes => by
    rw [roundedMembers, memberChars_cons, memberChars_cons, List.intercalate_cons_cons,
      List.intercalate_cons_cons, List.append_assoc, List.append_assoc, List.append_assoc,
      List.append_assoc]
    have hi := becomes_members name' w ms level rest hms.1 hms.2.1 hms.2.2 hes.1 hes.2
    exact (becomes_member hn he (becomes_chars v level _ hv he
      (endsValue_cons (.inl rfl) _))).append ((becomes_of_ne (c := ',') (by decide)).append hi)
termination_by _ v ms => sizeOf v + sizeOf ms

end

/-- Rounding the factors in the text of a description gives the text of the rounded description. -/
theorem roundFactors_chars (hj : IsRaw j) (he : IsExact j) (level : Nat) :
    roundFactors 0 (chars compact level j) = some (chars compact level (rounded j)) := by
  have hr : EndsValue [] := by rintro _ ⟨⟩
  have h := becomes_chars j level [] hj he hr
  rw [Becomes, List.append_nil, roundFactors, Option.map_some, List.append_nil] at h
  exact h

end Relief.Format.Glb

namespace Relief.Format.Json

open Relief.Format.Glb

theorem isExact_roundedFactor : ∀ j : Json, IsExact j → IsExact (roundedFactor j)
  | .list items, he => by
    rw [roundedFactor, IsExact]
    rw [IsExact] at he
    induction items with
    | nil => trivial
    | cons v vs ih =>
      refine ⟨?_, ih he.2⟩
      dsimp only
      split
      · exact ⟨by decide, he.1⟩
      · exact he.1
  | .null, _ => trivial
  | .bool _, _ => trivial
  | .int _, _ => trivial
  | .float _, he => he
  | .fixed .., he => he
  | .text _, _ => trivial
  | .object _, he => he

mutual

theorem isExact_rounded : ∀ j : Json, IsExact j → IsExact (rounded j)
  | .null, _ => trivial
  | .bool _, _ => trivial
  | .int _, _ => trivial
  | .float _, he => he
  | .fixed .., he => he
  | .text _, _ => trivial
  | .list items, he => by
    rw [rounded]
    exact areExact_rounded items he
  | .object members, he => by
    rw [rounded]
    exact haveExact_rounded members he

theorem areExact_rounded : ∀ vs : List Json, AreExact vs → AreExact (roundedItems vs)
  | [], _ => trivial
  | v :: vs, he => ⟨isExact_rounded v he.1, areExact_rounded vs he.2⟩

theorem haveExact_rounded : ∀ ms : List (String × Json), HaveExact ms →
    HaveExact (roundedMembers ms)
  | [], _ => trivial
  | (name, v) :: ms, he => by
    refine ⟨?_, haveExact_rounded ms he.2⟩
    split
    · exact isExact_roundedFactor v he.1
    · exact isExact_rounded v he.1

end

mutual

/-- Where nothing is in fixed places, finite numbers are enough. -/
theorem isExact_of_isFinite : ∀ j : Json, IsRaw j → j.isFinite = true → IsExact j
  | .null, _, _ => trivial
  | .bool _, _, _ => trivial
  | .int _, _, _ => trivial
  | .float _, _, h => by rwa [isFinite] at h
  | .text _, _, _ => trivial
  | .list items, hj, h => by
    rw [isFinite] at h
    exact areExact_of_areFinite items hj h
  | .object members, hj, h => by
    rw [isFinite] at h
    exact haveExact_of_haveFinite members hj h

theorem areExact_of_areFinite : ∀ vs : List Json, AreRaw vs → areFinite vs = true → AreExact vs
  | [], _, _ => trivial
  | v :: vs, hj, h => by
    rw [areFinite, Bool.and_eq_true] at h
    exact ⟨isExact_of_isFinite v hj.1 h.1, areExact_of_areFinite vs hj.2 h.2⟩

theorem haveExact_of_haveFinite : ∀ ms : List (String × Json), HaveRaw ms →
    haveFinite ms = true → HaveExact ms
  | [], _, _ => trivial
  | (_, v) :: ms, hj, h => by
    rw [haveFinite, Bool.and_eq_true] at h
    exact ⟨isExact_of_isFinite v hj.2.1 h.1, haveExact_of_haveFinite ms hj.2.2 h.2⟩

end

end Relief.Format.Json
