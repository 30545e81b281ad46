import Mathlib
import Relief.Color
import Relief.Proofs.Number.Binary32
import Relief.Proofs.Number.Operation
import Relief.Proofs.Number.Whole

/-!
Colors that are given as texts. Two characters make a number of at most two digits, or of one digit and a sign.
So the shares of a color are in the unit interval unless there is a minus sign before a digit, and the text of a
color is read back as the color.
-/
namespace Relief

/-! ### Digits in a base -/

namespace Number

variable {base : Nat} {cs : List Char} {n : Int}

theorem digitIn?_lt {c : Char} {d : Nat} (h : digitIn? base c = some d) : d < base := by
  simp only [digitIn?, Option.ite_none_right_eq_some, Option.some.injEq] at h
  exact h.2 ▸ h.1

/-- Digits are less than the base, and no more than the characters. -/
theorem digitRun_bounds (base : Nat) (cs : List Char) :
    (∀ d ∈ (digitRun base cs).1, d < base) ∧ (digitRun base cs).1.length ≤ cs.length := by
  fun_induction digitRun base cs with
  | case1 => exact ⟨List.forall_mem_nil _, Nat.le_refl _⟩
  | case2 c e rest d _ _ hd ds _ hr ih =>
    rw [hr] at ih
    refine ⟨List.forall_mem_cons.2 ⟨digitIn?_lt hd, ih.1⟩, ?_⟩
    have := ih.2
    simp only [List.length_cons] at this ⊢
    omega
  | case3 c e rest d _ hd => exact ⟨List.forall_mem_singleton.2 (digitIn?_lt hd), by simp⟩
  | case4 => exact ⟨List.forall_mem_nil _, Nat.zero_le _⟩
  | case5 c cs _ d hd ds _ hr ih =>
    rw [hr] at ih
    exact ⟨List.forall_mem_cons.2 ⟨digitIn?_lt hd, ih.1⟩, Nat.succ_le_succ ih.2⟩
  | case6 => exact ⟨List.forall_mem_nil _, Nat.zero_le _⟩

theorem digitsIn_lt {ds : List Nat} (h : ∀ d ∈ ds, d < base) : digitsIn base ds < base ^ ds.length := by
  have hfold : ∀ (ds : List Nat) (v : Nat), (∀ d ∈ ds, d < base) →
      ds.foldl (fun v d => base * v + d) v < (v + 1) * base ^ ds.length := by
    intro ds
    induction ds with
    | nil => intro v _; simp
    | cons d ds ih =>
      intro v h
      obtain ⟨hd, hds⟩ := List.forall_mem_cons.1 h
      calc ds.foldl (fun v d => base * v + d) (base * v + d)
          < (base * v + d + 1) * base ^ ds.length := ih _ hds
        _ ≤ (v + 1) * base * base ^ ds.length := by
            apply Nat.mul_le_mul_right
            rw [Nat.add_mul, Nat.one_mul, Nat.mul_comm base]
            omega
        _ = (v + 1) * base ^ (d :: ds).length := by rw [List.length_cons, pow_succ']; ring
  have := hfold ds 0 h
  rwa [Nat.zero_add, Nat.one_mul] at this

theorem length_plain_le (s : String) : (plain s).length ≤ s.toList.length := by
  rw [plain, List.length_reverse]
  refine (List.length_dropWhile_le _ _).trans ?_
  rw [List.length_reverse]
  refine (List.length_dropWhile_le _ _).trans ?_
  rw [List.length_map]

theorem length_signed_le (cs : List Char) :
    (signed cs).2.length + (if (signed cs).1 then 1 else 0) ≤ cs.length := by
  rw [signed.eq_def]
  split <;> simp

theorem length_dropBase_le (base : Nat) (cs : List Char) : (dropBase base cs).length ≤ cs.length := by
  rw [dropBase.eq_def]
  split
  · split
    · simp only [List.length_cons]
      omega
    · exact Nat.le_refl _
  · exact Nat.le_refl _

/-- A number of a few characters. One of them is the sign if it is negative. -/
theorem readBits?_bounds {s : String} (hb : 0 < base) (h : readBits? base s = some n) :
    -(base ^ (s.toList.length - 1) : Int) < n ∧ n < base ^ s.toList.length := by
  have hp := length_plain_le s
  have hs := length_signed_le (plain s)
  rw [readBits?] at h
  rcases hsigned : signed (plain s) with ⟨negative, cs⟩
  rw [hsigned] at h hs
  have hd := length_dropBase_le base cs
  obtain ⟨hlt, hlen⟩ := digitRun_bounds base (dropBase base cs)
  dsimp only at h hs
  split at h
  · next d ds hr =>
    rw [hr] at hlt hlen
    dsimp only at hlt hlen
    have hv := digitsIn_lt hlt
    have hpow : ∀ {k : Nat}, (d :: ds).length ≤ k → (digitsIn base (d :: ds) : Int) < base ^ k :=
      fun hk => by exact_mod_cast hv.trans_le (Nat.pow_le_pow_right hb hk)
    have hpos : ∀ k : Nat, (0 : Int) < base ^ k := fun k => by positivity
    have hlow := hpos (s.toList.length - 1)
    have hhigh := hpos s.toList.length
    rw [← Option.some.inj h, withSign]
    cases negative with
    | true =>
      have := hpow (k := s.toList.length - 1) (by simp only [if_true] at hs; omega)
      rw [if_pos rfl]
      omega
    | false =>
      have := hpow (k := s.toList.length) (by omega)
      rw [if_neg Bool.false_ne_true]
      omega
  · cases h

/-! ### Two characters -/

theorem plain_pair (a b : Char) : plain (String.ofList [a, b]) =
    (if isPad (plainChar a) then [] else [plainChar a]) ++
      if isPad (plainChar b) then [] else [plainChar b] := by
  rw [plain, String.toList_ofList]
  cases ha : isPad (plainChar a) <;> cases hb : isPad (plainChar b) <;>
    simp [List.dropWhile, ha, hb]

theorem readBits?_eq_some_iff {s : String} : readBits? base s = some n ↔
    ∃ d ds, digitRun base (dropBase base (signed (plain s)).2) = (d :: ds, []) ∧
      withSign (signed (plain s)).1 (digitsIn base (d :: ds)) = n := by
  rw [readBits?]
  rcases signed (plain s) with ⟨negative, cs⟩
  dsimp only
  constructor
  · intro h
    split at h
    · next d ds hrun => exact ⟨d, ds, hrun, Option.some.inj h⟩
    · cases h
  · rintro ⟨d, ds, hrun, rfl⟩
    rw [hrun]

theorem exists_of_signed {cs : List Char} (h : (signed cs).1 = true) :
    ∃ rest, cs = '-' :: rest ∧ (signed cs).2 = rest := by
  rw [signed.eq_def] at h ⊢
  split at h
  · exact ⟨_, rfl, rfl⟩
  · cases h
  · cases h

theorem digitRun_singleton {c : Char} {d : Nat} {ds : List Nat} {rest : List Char}
    (h : digitRun base [c] = (d :: ds, rest)) : digitIn? base c = some d ∧ ds = [] := by
  cases hc : digitIn? base c with
  | none => simp [digitRun, hc] at h
  | some e =>
    simp only [digitRun, hc, Prod.mk.injEq, List.cons.injEq] at h
    exact ⟨congrArg some h.1.1, h.1.2.symm⟩

/-- Whether two characters are a minus sign and a digit other than zero. -/
def IsBelowZero (a b : Char) : Prop := a = '-' ∧ digitIn? 16 (plainChar b) ≠ some 0

/-- Two characters make a negative number only if the first of them is a minus sign. -/
theorem readBits?_neg_iff {a b : Char} (h : readBits? 16 (String.ofList [a, b]) = some n) :
    n < 0 ↔ IsBelowZero a b := by
  obtain ⟨d, ds, hrun, rfl⟩ := readBits?_eq_some_iff.1 h
  have hnil : digitRun 16 (dropBase 16 []) ≠ (d :: ds, []) := by
    simp [dropBase, digitRun]
  by_cases ha : a = '-'
  · subst ha
    have hplain : plain (String.ofList ['-', b]) =
        '-' :: if isPad (plainChar b) then [] else [plainChar b] := plain_pair '-' b
    rw [hplain, signed] at hrun ⊢
    split at hrun
    · exact absurd hrun hnil
    · have hdrop : dropBase 16 [plainChar b] = [plainChar b] := by simp [dropBase]
      obtain ⟨hd, rfl⟩ := digitRun_singleton (hdrop ▸ hrun)
      rw [IsBelowZero, hd, withSign, if_pos rfl, digitsIn, List.foldl_cons, List.foldl_nil]
      simp only [true_and, ne_eq, Option.some.injEq]
      omega
  · refine iff_of_false ?_ fun h => ha h.1
    have hsign : (signed (plain (String.ofList [a, b]))).1 = false := by
      by_contra hminus
      obtain ⟨rest, hplain, hrest⟩ := exists_of_signed (eq_true_of_ne_false hminus)
      have hne : rest ≠ [] := by
        rintro rfl
        rw [hrest] at hrun
        exact hnil hrun
      rw [plain_pair] at hplain
      split_ifs at hplain
      · cases hplain
      · exact hne (List.cons.inj hplain).2.symm
      · exact hne (List.cons.inj hplain).2.symm
      · exact ha (plainChar_eq_minus.1 (List.cons.inj hplain).1)
    rw [hsign, withSign, if_neg Bool.false_ne_true]
    omega

end Number

namespace Color

open Number

/-! ### Shares -/

/-- The share of a full channel that a number is. -/
def share (n : Int) : Float := Float.ofInt n / fullChannel

/-- Whether every share is at least none and at most all of its channel. -/
def InUnit {α : Type} [Scalar α] (c : Color α) : Prop :=
  ∀ v ∈ c.toList, Scalar.zero ≤ v ∧ v ≤ Scalar.one

theorem toList_map {α β : Type} (f : α → β) (c : Color α) : (c.map f).toList = c.toList.map f := rfl

/-- The numbers of two characters of base sixteen. -/
def IsChannel (n : Int) : Prop := -16 < n ∧ n < 256

theorem exact_fullChannel : exact fullChannel = 255 := by
  rw [exact_of_finite (s := false) (m := 255 * 2 ^ 45) (e := -45) (by decide +kernel)]
  norm_num [signedValue]

theorem isFinite_fullChannel : fullChannel.isFinite = true := by decide +kernel

namespace IsChannel

variable {n : Int}

theorem of_readBits? {a b : Char} (h : readBits? 16 (String.ofList [a, b]) = some n) : IsChannel n := by
  have := readBits?_bounds (by decide) h
  rwa [String.toList_ofList] at this

/-- A share is the double nearest to the quotient. -/
theorem nearest_share (h : IsChannel n) : Nearest (n / 255 : ℚ) (share n) := by
  obtain ⟨hl, hu⟩ := h
  obtain ⟨hfinite, hexact⟩ := exact_ofInt (i := n) (by omega)
  have hdiv := nearest_div hfinite isFinite_fullChannel (by rw [exact_fullChannel]; norm_num)
  rwa [hexact, exact_fullChannel] at hdiv

theorem abs_quotient_le (h : IsChannel n) : |(n / 255 : ℚ)| ≤ 1 := by
  obtain ⟨hl, hu⟩ := h
  have hl : (-255 : ℚ) ≤ n := by exact_mod_cast (show -255 ≤ n by omega)
  have hu : (n : ℚ) ≤ 255 := by exact_mod_cast (show n ≤ 255 by omega)
  exact abs_le.2 ⟨by linarith, by linarith⟩

/-- What is lost of a share is far from making up a half of a number. -/
theorem share_error (h : IsChannel n) :
    (share n).isFinite = true ∧ |exact (share n) * 255 - n| < 1 / 4 := by
  have hq := h.abs_quotient_le
  have hfinite : (share n).isFinite = true :=
    h.nearest_share.isFinite_of_abs_le (n := 1) (by decide) (by rwa [Nat.cast_one])
  have herror : |exact (share n) - n / 255| < 1 / 4 / 255 :=
    (h.nearest_share.abs_sub_le (j := 0) hfinite (by rwa [pow_zero])).trans_lt (by norm_num)
  obtain ⟨hlow, hhigh⟩ := abs_lt.1 herror
  exact ⟨hfinite, abs_lt.2 ⟨by linarith, by linarith⟩⟩

theorem channelOf_share (h : IsChannel n) : channelOf (share n) = n := by
  obtain ⟨hfinite, hshare⟩ := h.share_error
  have hp := nearest_mul hfinite isFinite_fullChannel
  rw [exact_fullChannel] at hp
  obtain ⟨hlow, hhigh⟩ := abs_lt.1 hshare
  have hn := abs_le.1 h.abs_quotient_le
  -- the product is rounded as well, by no more than the share
  have hq : |exact (share n) * 255| ≤ 2 ^ 8 := abs_le.2 ⟨by linarith, by linarith⟩
  have hpfinite := hp.isFinite_of_abs_le (n := 2 ^ 8) (by decide) (by exact_mod_cast hq)
  have herror : |exact (share n * fullChannel) - exact (share n) * 255| < 1 / 4 :=
    (hp.abs_sub_le hpfinite hq).trans_lt (by norm_num)
  obtain ⟨hlow', hhigh'⟩ := abs_lt.1 herror
  rw [channelOf, nearestInt?_of_abs_sub_lt (i := n) hpfinite (abs_lt.2 ⟨by linarith, by linarith⟩)]
  rfl

/-- A share is in the unit interval unless it is one of a number below zero. -/
theorem share_mem_iff (h : IsChannel n) :
    (Scalar.zero ≤ share n ∧ share n ≤ Scalar.one) ↔ 0 ≤ n := by
  obtain ⟨hfinite, hshare⟩ := h.share_error
  have hzero : exact Scalar.zero = 0 := by
    exact_mod_cast exact_ofNat (n := 0) (by decide)
  have hone : exact Scalar.one = 1 := by
    exact_mod_cast exact_ofNat (n := 1) (by decide)
  rw [le_iff_exact_le (by rfl) hfinite, le_iff_exact_le hfinite (by rfl), hzero, hone]
  constructor
  · rintro ⟨h0, -⟩
    have hn : (-1 : ℚ) < n := by linarith [(abs_lt.1 hshare).2]
    have hn : -1 < n := by exact_mod_cast hn
    omega
  · intro hn
    have hq : (0 : ℚ) ≤ n / 255 := div_nonneg (Int.cast_nonneg hn) (by norm_num)
    have hle := h.nearest_share.exact_le_two_pow (j := 0) hq
      (by rw [pow_zero]; exact (abs_le.1 h.abs_quotient_le).2)
    exact ⟨h.nearest_share.exact_nonneg hq, by rwa [pow_zero] at hle⟩

theorem abs_share_lt (h : IsChannel n) : (share n).abs < Binary32.overflowBound := by
  obtain ⟨hfinite, hshare⟩ := h.share_error
  obtain ⟨s, m, e, hv⟩ := exists_finite hfinite
  rw [abs_lt_iff_value hv Binary32.ofFloat_overflowBound (by decide)]
  have hvalue : |exact (share n)| = m * 2 ^ e := by
    rw [exact_of_finite hv, abs_signedValue, abs_of_nonneg (value_nonneg m e)]
  obtain ⟨hlow, hhigh⟩ := abs_lt.1 hshare
  have hn := abs_le.1 h.abs_quotient_le
  have hle : |exact (share n)| ≤ 2 := abs_le.2 ⟨by linarith, by linarith⟩
  rw [← hvalue]
  exact hle.trans_lt (by norm_num)

end IsChannel

/-! ### Texts -/

/-- The digits of base sixteen in lower case. -/
def digits : List Char := (List.range 16).map Nat.digitChar

theorem digitChar_mem {i : Nat} (h : i < 16) : i.digitChar ∈ digits :=
  List.mem_map_of_mem (List.mem_range.2 h)

theorem channelText_digits {i j : Nat} (hi : i < 16) (hj : j < 16) :
    channelText (16 * i + j : Nat) = [i.digitChar, j.digitChar] ∧
      readBits? 16 (String.ofList [i.digitChar, j.digitChar]) = some ((16 * i + j : Nat) : Int) := by
  have htext : ∀ i < 16, ∀ j < 16, channelText (16 * i + j : Nat) = [i.digitChar, j.digitChar] := by
    decide
  have hread : ∀ i < 16, ∀ j < 16, readBits? 16 (String.ofList [i.digitChar, j.digitChar]) =
      some ((16 * i + j : Nat) : Int) := by
    decide +kernel
  exact ⟨htext i hi j hj, hread i hi j hj⟩

theorem channelText_minus {j : Nat} (h : 0 < j) (hj : j < 16) :
    channelText (-(j : Int)) = ['-', j.digitChar] ∧
      readBits? 16 (String.ofList ['-', j.digitChar]) = some (-(j : Int)) := by
  have hall : ∀ j : Nat, j < 16 → 0 < j → channelText (-(j : Int)) = ['-', j.digitChar] ∧
      readBits? 16 (String.ofList ['-', j.digitChar]) = some (-(j : Int)) := by
    decide +kernel
  exact hall j hj h

/-- A channel is written as two characters that are read back, two digits unless it is below zero. -/
theorem IsChannel.exists_channelText {n : Int} (h : IsChannel n) : ∃ a b, channelText n = [a, b] ∧
    a ≠ '#' ∧ readBits? 16 (String.ofList [a, b]) = some n ∧ ((a ∈ digits ∧ b ∈ digits) ↔ 0 ≤ n) := by
  obtain ⟨hl, hu⟩ := h
  by_cases hn : 0 ≤ n
  · obtain ⟨k, rfl⟩ := Int.eq_ofNat_of_zero_le hn
    have hi : k / 16 < 16 := by omega
    have hj : k % 16 < 16 := by omega
    have hmark : ∀ i < 16, Nat.digitChar i ≠ '#' := by decide
    obtain ⟨htext, hread⟩ := channelText_digits hi hj
    rw [Nat.div_add_mod] at htext hread
    exact ⟨_, _, htext, hmark _ hi, hread, iff_of_true ⟨digitChar_mem hi, digitChar_mem hj⟩ hn⟩
  · obtain ⟨j, rfl⟩ := Int.exists_eq_neg_ofNat (le_of_not_ge hn)
    obtain ⟨htext, hread⟩ := channelText_minus (j := j) (by omega) (by omega)
    exact ⟨_, _, htext, by decide, hread, iff_of_false (fun h => absurd h.1 (by decide)) hn⟩

/-- Whether a text has a channel of a minus sign and a digit other than zero. -/
def HasNegative (text : String) : Prop :=
  match text.toList.dropWhile (· == '#') with
  | [a, b, c, d, e, f] => IsBelowZero a b ∨ IsBelowZero c d ∨ IsBelowZero e f
  | _ => False

/-- Whether a text is a mark and six digits in lower case. -/
def IsPlainText (text : String) : Prop :=
  ∃ ds, text.toList = '#' :: ds ∧ ds.length = 6 ∧ ∀ d ∈ ds, d ∈ digits

/-- The channels of a text that is a color. -/
theorem channels?_eq_some {text : String} {c : Color Int} (h : channels? text = some c) :
    (∀ n ∈ c.toList, IsChannel n) ∧ ((∀ n ∈ c.toList, 0 ≤ n) ↔ ¬ HasNegative text) := by
  rw [channels?] at h
  split at h
  · next a b c d e f hcs =>
    simp only [Option.bind_eq_bind, Option.bind_eq_some_iff] at h
    obtain ⟨red, hr, green, hg, blue, hb, h⟩ := h
    rw [HasNegative, hcs, ← Option.some.inj h]
    simp only [toList, List.forall_mem_cons, not_or, ← readBits?_neg_iff hr, ← readBits?_neg_iff hg,
      ← readBits?_neg_iff hb, not_lt]
    simp [IsChannel.of_readBits? hr, IsChannel.of_readBits? hg, IsChannel.of_readBits? hb]
  · cases h

theorem ofText_of_channels {text : String} {c : Color Int} (h : channels? text = some c) :
    ofText text = .ok (c.map share) := by
  rw [ofText, h]
  rfl

/-- The shares of a text are finite in 32 bits. -/
theorem abs_lt_of_ofText {text : String} {c : Color Float} (h : ofText text = .ok c) :
    ∀ v ∈ c.toList, v.abs < Binary32.overflowBound := by
  cases hn : channels? text with
  | none =>
    rw [ofText, hn] at h
    cases h
  | some n =>
    obtain rfl := Except.ok.inj ((ofText_of_channels hn).symm.trans h)
    rw [toList_map, List.forall_mem_map]
    exact fun k hk => ((channels?_eq_some hn).1 k hk).abs_share_lt

/-- The text of a color is made of the texts of its channels. -/
theorem toList_text {c : Color Int} (h : ∀ n ∈ c.toList, IsChannel n) :
    (c.map share).text.toList = '#' :: c.toList.flatMap channelText := by
  rw [text, String.toList_ofList, toList_map, List.flatMap_map]
  refine congrArg _ (List.flatMap_congr fun n hn => ?_)
  rw [(h n hn).channelOf_share]

theorem channels?_of_pairs {text : String} {c : Color Int} {a b a' b' a'' b'' : Char}
    (htext : text.toList = ['#', a, b, a', b', a'', b'']) (ha : a ≠ '#')
    (hr : readBits? 16 (String.ofList [a, b]) = some c.red)
    (hg : readBits? 16 (String.ofList [a', b']) = some c.green)
    (hb : readBits? 16 (String.ofList [a'', b'']) = some c.blue) : channels? text = some c := by
  rw [channels?, htext, List.dropWhile_cons_of_pos rfl,
    List.dropWhile_cons_of_neg (by simpa using ha)]
  simp only [hr, hg, hb]
  rfl

/-- The text of a color has two characters for each channel, and these are read back. -/
theorem channels?_text {c : Color Int} (h : ∀ n ∈ c.toList, IsChannel n) :
    channels? (c.map share).text = some c ∧
      (IsPlainText (c.map share).text ↔ ∀ n ∈ c.toList, 0 ≤ n) := by
  have htext := toList_text h
  simp only [toList, List.forall_mem_cons] at h
  obtain ⟨hr, hg, hb, -⟩ := h
  obtain ⟨a, b, hrt, hne, hrr, hrd⟩ := hr.exists_channelText
  obtain ⟨a', b', hgt, -, hgr, hgd⟩ := hg.exists_channelText
  obtain ⟨a'', b'', hbt, -, hbr, hbd⟩ := hb.exists_channelText
  replace htext : (c.map share).text.toList = ['#', a, b, a', b', a'', b''] := by
    simpa [toList, hrt, hgt, hbt] using htext
  refine ⟨channels?_of_pairs htext hne hrr hgr hbr, ?_⟩
  rw [IsPlainText, htext]
  simp only [toList, List.forall_mem_cons, ← hrd, ← hgd, ← hbd]
  constructor
  · rintro ⟨ds, hds, -, hd⟩
    rw [← (List.cons.inj hds).2] at hd
    simpa [and_assoc] using hd
  · intro hd
    exact ⟨_, rfl, rfl, by simpa [and_assoc] using hd⟩

theorem exists_channel {a b : Char} (ha : a ∈ digits) (hb : b ∈ digits) :
    ∃ n, readBits? 16 (String.ofList [a, b]) = some n ∧ channelText n = [a, b] := by
  obtain ⟨i, hi, rfl⟩ := List.mem_map.1 ha
  obtain ⟨j, hj, rfl⟩ := List.mem_map.1 hb
  obtain ⟨htext, hread⟩ := channelText_digits (List.mem_range.1 hi) (List.mem_range.1 hj)
  exact ⟨_, hread, htext⟩

/-- A mark and six digits in lower case are a color with just this text. -/
theorem IsPlainText.exists_color {text : String} (h : IsPlainText text) :
    ∃ c, ofText text = .ok c ∧ c.text = text := by
  obtain ⟨ds, htext, hlen, hd⟩ := h
  match ds, hlen with
  | [a, b, a', b', a'', b''], _ =>
    simp only [List.forall_mem_cons] at hd
    obtain ⟨ha, hb, ha', hb', ha'', hb'', -⟩ := hd
    have hne : a ≠ '#' := by
      rintro rfl
      exact absurd ha (by decide)
    obtain ⟨red, hr, hrt⟩ := exists_channel ha hb
    obtain ⟨green, hg, hgt⟩ := exists_channel ha' hb'
    obtain ⟨blue, hb, hbt⟩ := exists_channel ha'' hb''
    have hc : channels? text = some ⟨red, green, blue⟩ := channels?_of_pairs htext hne hr hg hb
    refine ⟨_, ofText_of_channels hc, ?_⟩
    rw [← String.toList_inj, htext, toList_text (channels?_eq_some hc).1]
    simp [toList, hrt, hgt, hbt]

/-- More or fewer than six characters after the marks are no color. -/
theorem ofText_of_length {text : String}
    (h : (text.toList.dropWhile (· == '#')).length ≠ 6) : ofText text = .error (.malformed text) := by
  have hc : channels? text = none := by
    rw [channels?]
    split
    · next hcs =>
      rw [hcs] at h
      exact absurd rfl h
    · rfl
  rw [ofText, hc]

theorem inUnit_map_share {c : Color Int} (h : ∀ n ∈ c.toList, IsChannel n) :
    (c.map share).InUnit ↔ ∀ n ∈ c.toList, 0 ≤ n := by
  rw [InUnit, toList_map, List.forall_mem_map]
  exact forall₂_congr fun n hn => (h n hn).share_mem_iff

/-- A text is refused or is a color whose text is read back as the color, to the bit. The shares are in the unit
interval and the text is a mark and six digits in lower case, both exactly if there is no channel of a minus
sign and a digit other than zero. -/
theorem ofText_text (text : String) : ofText text = .error (.malformed text) ∨
    ∃ c, ofText text = .ok c ∧ ofText c.text = .ok c ∧
      (c.InUnit ↔ ¬ HasNegative text) ∧ (IsPlainText c.text ↔ ¬ HasNegative text) := by
  cases h : channels? text with
  | none =>
    left
    rw [ofText, h]
  | some c =>
    right
    obtain ⟨hc, hneg⟩ := channels?_eq_some h
    obtain ⟨hback, hplain⟩ := channels?_text hc
    exact ⟨c.map share, ofText_of_channels h, ofText_of_channels hback,
      (inUnit_map_share hc).trans hneg, hplain.trans hneg⟩

/-- Three numbers below zero make a color. -/
theorem ofText_minus :
    ∃ c, ofText "#-1-1-1" = .ok c ∧ ¬ c.InUnit ∧ c.text = "#-1-1-1" ∧ ¬ IsPlainText c.text := by
  have h : channels? "#-1-1-1" = some ⟨-1, -1, -1⟩ := by decide +kernel
  obtain ⟨hc, -⟩ := channels?_eq_some h
  refine ⟨_, ofText_of_channels h, ?_, ?_, ?_⟩
  · rw [inUnit_map_share hc]
    decide
  · decide +kernel
  · rw [(channels?_text hc).2]
    decide

end Color

end Relief
