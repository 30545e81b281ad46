import Mathlib
import Relief.Proofs.Yaml.Tree

/-!
Documents that are one object: their trees, without anchors.
-/
namespace Relief.Yaml

open Relief.Yaml.Stream

variable {src src' : Source} {ts us : List Token} {d limit : Nat} {n : Node}

/-! ### The end of a text -/

theorem follows_end : Follows limit [] ['\n'] [.textEnd] := by
  intro cur taken hc hl
  have hcur : cur = ⟨['\n'], cur.mark⟩ := by rw [← hc]
  rw [hcur]
  let s : Stream := inside limit [] ⟨[], cur.mark.after '\n' []⟩ false [.textEnd] taken []
  have hknown : IsKnown { s with ended := true } := by
    intro n
    cases n <;> rfl
  exact .fetch isOpen_of_empty rfl (.take hknown rfl rfl .nothing (Nat.zero_le _))

theorem atMark_textEnd (h : At src [.textEnd]) :
    ∃ src', atMark.run src = .ok (true, src') ∧ At src' [.textEnd] := by
  obtain ⟨src', hp, hs⟩ := h.peek
  refine ⟨src', ?_, hs.here⟩
  rw [atMark, run_bind_ok hp]
  rfl

theorem beginsWithMark_textEnd (limit : Nat) (h : At src [.textEnd]) :
    ∃ src', (beginsWithMark (limit + 1)).run src = .ok (false, src') := by
  obtain ⟨src1, hp1, hs1⟩ := h.passIf_of_ne (u := .documentEnd) (by decide)
  refine ⟨src1, ?_⟩
  rw [beginsWithMark, run_bind_ok hp1, if_neg Bool.false_ne_true, run_bind_ok hs1.peek]
  rfl

theorem finish_textEnd (limit : Nat) (h : At src [.textEnd]) :
    ∃ src', (Yaml.finish (limit + 1)).run src = .ok ((), src') := by
  obtain ⟨src1, hp1, hs1⟩ := h.passIf_of_ne (u := .documentEnd) (by decide)
  obtain ⟨src2, hp2, h2⟩ := atMark_textEnd hs1.here
  obtain ⟨src3, hp3⟩ := beginsWithMark_textEnd limit h2
  refine ⟨src3, ?_⟩
  rw [Yaml.finish, run_bind_ok hp1, run_bind_ok hs1.peek, run_bind_ok hs1.version_run,
    run_bind_ok hp2, if_neg (by decide), run_bind_ok hp3]
  rfl

theorem document_run (hm : Makes d ts n) (hd : d ≤ maxDepth) (hl : ts.length < 4 * (limit + 1))
    (h : At src (ts ++ [.textEnd])) :
    ∃ src', (document (limit + 1)).run src = .ok (some n, src') := by
  obtain ⟨t, ts, rfl, ht⟩ := id hm.first
  obtain ⟨src1, hp1, hs1⟩ := h.peek
  have hmark : atMark.run src = .ok (false, src1) := by
    rw [atMark, run_bind_ok hp1]
    cases t <;> first | exact ht.elim | rfl
  obtain ⟨src2, hp2, h2⟩ := hm.run (4 * (limit + 1)) 0 true false src1 [.textEnd] hl
    (by rwa [Nat.zero_add]) hs1.here
  obtain ⟨src3, hp3⟩ := finish_textEnd limit h2
  refine ⟨src3, ?_⟩
  rw [document, run_bind_ok hmark, if_neg Bool.false_ne_true, run_bind_ok hp2, run_bind_ok hp3]
  rfl

/-! ### Trees -/

/-- A node without anchors and references. -/
structure IsTree (n : Node) : Prop where
  anchors : n.anchors = []
  replace : ∀ target given around, n.replace target given around = n

theorem IsTree.resolve (h : IsTree n) : n.resolve = n := by
  rw [Node.resolve, h.anchors]
  exact h.replace _ _ _

theorem isTree_scalar (kind : Kind) (text : Wording) : IsTree (.scalar kind text) :=
  ⟨rfl, fun _ _ _ => rfl⟩

theorem isTree_sequence {kind : Kind} {ns : List Node} (h : ∀ n ∈ ns, IsTree n) :
    IsTree (.sequence kind ns) := by
  induction ns with
  | nil => exact ⟨rfl, fun _ _ _ => rfl⟩
  | cons n ns ih =>
    obtain ⟨hn, hns⟩ := List.forall_mem_cons.1 h
    have hi := ih hns
    refine ⟨?_, fun target given around => ?_⟩
    · have ha : Node.anchorsOfItems ns = [] := hi.anchors
      rw [Node.anchors, Node.anchorsOfItems, hn.anchors, ha]
      rfl
    · have hr := hi.replace target given around
      rw [Node.replace] at hr
      rw [Node.replace, Node.replaceItems, hn.replace, (Node.sequence.inj hr).2]

theorem isTree_mapping {kind : Kind} {es : List (Node × Node)}
    (h : ∀ e ∈ es, IsTree e.1 ∧ IsTree e.2) : IsTree (.mapping kind es) := by
  induction es with
  | nil => exact ⟨rfl, fun _ _ _ => rfl⟩
  | cons e es ih =>
    obtain ⟨⟨hk, hv⟩, hes⟩ := List.forall_mem_cons.1 h
    have hi := ih hes
    refine ⟨?_, fun target given around => ?_⟩
    · have ha : Node.anchorsOfEntries es = [] := hi.anchors
      rw [Node.anchors, Node.anchorsOfEntries, hk.anchors, hv.anchors, ha]
      rfl
    · have hr := hi.replace target given around
      rw [Node.replace] at hr
      rw [Node.replace, Node.replaceEntries, hk.replace, hv.replace, (Node.mapping.inj hr).2]

/-! ### Whole texts -/

/-- The text of one object is read as the tree that its tokens make. -/
theorem parse_object {text : String} {cs : List Char} (hr : ReadsItem cs ts) (hm : Makes d ts n)
    (ht : IsTree n) (hd : d ≤ maxDepth) (hlen : ts.length ≤ cs.length)
    (hfirst : ∃ rest, cs = opening .brace :: rest) (htext : text.toList = cs ++ ['\n'])
    (hall : ∀ c ∈ text.toList, isAllowed c = true) : parse text = .ok (some n) := by
  obtain ⟨rest, rfl⟩ := hfirst
  let limit := text.toList.length + 2
  let cur : Cursor := ⟨text.toList, Mark.start⟩
  have hcur : Cursor.ofText text.toList = cur := by
    have hrest : text.toList = '\x7b' :: (rest ++ ['\n']) := htext
    change Cursor.ofText text.toList = ⟨text.toList, Mark.start⟩
    rw [hrest]
    rfl
  have hs : Stream.ofText text.toList = inside limit [] cur true [] 0 [] := by
    rw [Stream.ofText, hcur]
    rfl
  have hg : Gives 2 (inside limit [] cur true [] 0 []) (ts ++ [.textEnd]) := by
    refine hr limit [] cur 0 [] ['\n'] [.textEnd] isGap_nil (fun _ => rfl) htext ?_ follows_end
    exact Nat.lt_add_of_pos_right Nat.zero_lt_two
  have hlim : ts.length < 4 * limit := by
    have h := congrArg List.length htext
    rw [List.length_append] at h
    have hl : limit = text.toList.length + 2 := rfl
    omega
  let src : Source := ⟨Stream.ofText text.toList, standardHandles, [], 0⟩
  have hat : At src (ts ++ [.textEnd]) := by
    refine ⟨2, ?_, ?_⟩
    · exact Nat.le_add_left 2 _
    · change Gives 2 (Stream.ofText text.toList) _
      rwa [hs]
  obtain ⟨src', hrun⟩ := document_run hm hd hlim hat
  have ha : text.toList.all isAllowed = true := List.all_eq_true.2 hall
  rw [parse, ha]
  change ((document limit).run src).map _ = _
  rw [hrun]
  exact congrArg (fun n => Except.ok (some n)) ht.resolve

end Relief.Yaml
