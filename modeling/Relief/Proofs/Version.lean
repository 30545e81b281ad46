import Mathlib
import Relief.Document
import Relief.Proofs.Number.Whole

/-!
Which versions a document may have. All texts of the number one are accepted, and all of one with another number
behind a point, however the numbers are written.
-/
namespace Relief.Document

open Number Text

variable {v : String} {cs : List Char} {n : Int}

/-! ### The texts of versions -/

/-- The text of a version and its number before the point. -/
inductive VersionText : List Char → Int → Prop where
  | whole {cs : List Char} {n : Int} (h : WholeText cs n) : VersionText cs n
  | pointed {major minor : List Char} {n k : Int} (h : WholeText major n) (hm : WholeText minor k) :
    VersionText (major ++ '.' :: minor) n

/-- The texts that a version should have: the digit one, and this with a point and digits behind it. -/
inductive IsPlainVersion : List Char → Prop where
  | whole : IsPlainVersion ['1']
  | pointed {minor : List Char} (hn : minor ≠ []) (h : ∀ c ∈ minor, isDigit c = true) :
    IsPlainVersion ('1' :: '.' :: minor)

def major? (version : String) : Option Int :=
  match version.toList.splitOn '.' with
  | [major] => readInt? (String.ofList major)
  | [major, minor] => (readInt? (String.ofList minor)).bind fun _ => readInt? (String.ofList major)
  | _ => none

theorem checkVersion_eq (v : String) : checkVersion v =
    match major? v with
    | none => .error (.badVersion (quoted v))
    | some major => if major = supportedMajor then .ok () else .error (.unsupportedVersion v) := rfl

theorem intercalate_pair (major minor : List Char) :
    ['.'].intercalate [major, minor] = major ++ '.' :: minor := by simp

theorem versionText_of_major? (h : major? v = some n) : VersionText v.toList n := by
  have hjoin : ['.'].intercalate (v.toList.splitOn '.') = v.toList := List.intercalate_splitOn '.'
  rw [major?] at h
  split at h
  · next major hs =>
    rw [hs, List.intercalate_singleton] at hjoin
    rw [← hjoin]
    exact .whole (readInt?_eq_some_iff.1 h)
  · next major minor hs =>
    rw [hs, intercalate_pair] at hjoin
    obtain ⟨k, hk, hn⟩ := Option.bind_eq_some_iff.1 h
    rw [← hjoin]
    exact .pointed (readInt?_eq_some_iff.1 hn) (readInt?_eq_some_iff.1 hk)
  · cases h

theorem splitOn_pointed {major minor : List Char} (h : '.' ∉ major) (hm : '.' ∉ minor) :
    (major ++ '.' :: minor).splitOn '.' = [major, minor] := by
  have hparts : ∀ l ∈ [major, minor], '.' ∉ l := by
    simpa using ⟨h, hm⟩
  rw [← intercalate_pair]
  exact List.splitOn_intercalate '.' hparts (List.cons_ne_nil _ _)

theorem major?_of_versionText (h : VersionText v.toList n) : major? v = some n := by
  rw [major?]
  generalize v.toList = cs at h
  cases h with
  | whole h =>
    rw [List.splitOn_eq_singleton h.dot_not_mem]
    exact readInt?_eq_some_iff.2 h
  | pointed h hm =>
    rw [splitOn_pointed h.dot_not_mem hm.dot_not_mem]
    dsimp only
    rw [readInt?_eq_some_iff.2 hm, readInt?_eq_some_iff.2 h]
    rfl

theorem major?_eq_some_iff : major? v = some n ↔ VersionText v.toList n :=
  ⟨versionText_of_major?, major?_of_versionText⟩

/-- A version splits at its point in one way. -/
theorem versionText_pointed {major minor : List Char} (h : VersionText (major ++ '.' :: minor) n)
    (hm : '.' ∉ major) (hm' : '.' ∉ minor) : WholeText major n ∧ ∃ k, WholeText minor k := by
  generalize hcs : major ++ '.' :: minor = cs at h
  cases h with
  | whole h => exact absurd (hcs ▸ List.mem_append_right _ List.mem_cons_self) h.dot_not_mem
  | pointed hw hk =>
    obtain ⟨rfl, -, rfl⟩ := (List.append_cons_inj_of_notMem hm hm').1 hcs
    exact ⟨hw, _, hk⟩

/-! ### Digits -/

theorem digitRow_of_isDigit (hn : cs ≠ []) (h : ∀ c ∈ cs, isDigit c = true) :
    ∃ ds, DigitRow digit? cs ds ∧ ds.length = cs.length := by
  induction cs with
  | nil => exact absurd rfl hn
  | cons c cs ih =>
    obtain ⟨hc, hcs⟩ := List.forall_mem_cons.1 h
    obtain ⟨d, hd⟩ := Option.isSome_iff_exists.1 hc
    by_cases hne : cs = []
    · subst hne
      exact ⟨[d], .single hd, rfl⟩
    · obtain ⟨ds, hr, hl⟩ := ih hne hcs
      exact ⟨d :: ds, .cons hd hr, congrArg (· + 1) hl⟩

/-- Digits alone are a whole number unless they are too many. -/
theorem exists_wholeText_iff (hn : cs ≠ []) (h : ∀ c ∈ cs, isDigit c = true) :
    (∃ n, WholeText cs n) ↔ cs.length ≤ 4300 := by
  obtain ⟨ds, hr, hl⟩ := digitRow_of_isDigit hn h
  have hread := readInt?_of_row (List.forall_mem_nil _) (List.forall_mem_nil _) .none hr
  rw [List.nil_append, List.nil_append, List.append_nil] at hread
  simp only [← readInt?_eq_some_iff, hread, hl]
  split
  · next hle => exact iff_of_true ⟨_, rfl⟩ hle
  · next hle => exact iff_of_false (fun ⟨_, he⟩ => nomatch he) hle

theorem wholeText_one : WholeText ['1'] 1 := readInt?_eq_some_iff.1 (by decide)

theorem versionText_plain (h : IsPlainVersion cs) : VersionText cs 1 ↔ cs.length ≤ 4302 := by
  cases h with
  | whole => exact iff_of_true (.whole wholeText_one) (by decide)
  | @pointed minor hn hd =>
    have hdot : '.' ∉ minor := fun hm => absurd (hd _ hm) (by decide)
    have hlength : ('1' :: '.' :: minor).length ≤ 4302 ↔ minor.length ≤ 4300 :=
      Nat.add_le_add_iff_right (n := 2)
    rw [hlength, ← exists_wholeText_iff hn hd]
    constructor
    · intro h
      have h : VersionText (['1'] ++ '.' :: minor) 1 := h
      exact (versionText_pointed h (by decide) hdot).2
    · rintro ⟨k, hk⟩
      exact .pointed wholeText_one hk

/-! ### Versions of documents -/

theorem checkVersion_cases (v : String) :
    (major? v = some 1 ∧ checkVersion v = .ok ()) ∨
    (∃ n, n ≠ 1 ∧ major? v = some n ∧ checkVersion v = .error (.unsupportedVersion v)) ∨
    (major? v = none ∧ checkVersion v = .error (.badVersion (quoted v))) := by
  rw [checkVersion_eq]
  cases major? v with
  | none => exact .inr (.inr ⟨rfl, rfl⟩)
  | some n =>
    by_cases hn : n = 1
    · subst hn
      exact .inl ⟨rfl, rfl⟩
    · exact .inr (.inl ⟨n, hn, rfl, if_neg hn⟩)

/-- A version is accepted exactly if it is the text of one, alone or before a point and another whole number.
With another number in this place it is refused as not supported, and what has no such form is refused for its
form, as is every text with half of a surrogate pair. Of the versions as they should be, the only ones refused
are those with too many digits. -/
theorem checkVersion_accepts (v : String) :
    (checkVersion v = .ok () ↔ VersionText v.toList 1) ∧
    (checkVersion v = .error (.unsupportedVersion v) ↔ ∃ n, n ≠ 1 ∧ VersionText v.toList n) ∧
    (checkVersion v = .error (.badVersion (quoted v)) ↔ ∀ n, ¬ VersionText v.toList n) ∧
    (∀ cs, versionText (.codes cs) = .error (.badVersion (quotedCodes cs))) ∧
    (IsPlainVersion v.toList → (checkVersion v = .ok () ↔ v.toList.length ≤ 4302)) := by
  simp only [← major?_eq_some_iff]
  have hplain : IsPlainVersion v.toList → (major? v = some 1 ↔ v.toList.length ≤ 4302) := fun h =>
    major?_eq_some_iff.trans (versionText_plain h)
  have hcodes : ∀ cs, versionText (.codes cs) = .error (.badVersion (quotedCodes cs)) := fun _ => rfl
  obtain ⟨h, hc⟩ | ⟨n, hn, h, hc⟩ | ⟨h, hc⟩ := checkVersion_cases v
  · simpa [h, hc, hcodes] using hplain
  · simpa [h, hc, hn, hcodes] using hplain
  · simpa [h, hc, hcodes] using hplain

/-- A version as it should be. -/
theorem checkVersion_accepts_plain :
    IsPlainVersion "1.25".toList ∧ checkVersion "1.25" = .ok () := by
  have htext : "1.25".toList = ['1', '.', '2', '5'] := rfl
  have h : IsPlainVersion "1.25".toList := by
    rw [htext]
    exact .pointed (List.cons_ne_nil _ _) (List.forall_mem_cons.2 ⟨rfl, List.forall_mem_singleton.2 rfl⟩)
  obtain ⟨-, -, -, -, hplain⟩ := checkVersion_accepts "1.25"
  refine ⟨h, (hplain h).2 ?_⟩
  rw [htext]
  norm_num

theorem isPlainVersion_zeros (n : Nat) : IsPlainVersion ('1' :: '.' :: List.replicate (n + 1) '0') := by
  refine .pointed (List.cons_ne_nil _ _) fun c hc => ?_
  rw [List.eq_of_mem_replicate hc]
  rfl

/-- Not all versions that are accepted are as they should be, nor are all of these accepted. -/
theorem checkVersion_not_plain : (∃ v, checkVersion v = .ok () ∧ ¬ IsPlainVersion v.toList) ∧
    ∃ v, IsPlainVersion v.toList ∧ checkVersion v ≠ .ok () := by
  constructor
  · exact ⟨"+1.0", rfl, nofun⟩
  · obtain ⟨n, hn⟩ : ∃ n, n = 4300 := ⟨_, rfl⟩
    let v := String.ofList ('1' :: '.' :: List.replicate (n + 1) '0')
    have hplain : IsPlainVersion v.toList := by
      rw [String.toList_ofList]
      exact isPlainVersion_zeros n
    have hlong : ¬ v.toList.length ≤ 4302 := by
      rw [String.toList_ofList, List.length_cons, List.length_cons, List.length_replicate]
      omega
    refine ⟨v, hplain, fun hok => hlong ((versionText_plain hplain).1 ?_)⟩
    obtain ⟨h, -⟩ | ⟨n, -, -, hc⟩ | ⟨-, hc⟩ := checkVersion_cases v
    · exact major?_eq_some_iff.1 h
    · rw [hc] at hok
      cases hok
    · rw [hc] at hok
      cases hok

end Relief.Document
