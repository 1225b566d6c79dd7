import Mathlib.Data.List.Chain
import ConceptAtlas.Text.Lines

/-!
# What the lines of a text are

A line ends with one boundary and has none before, and only the last line may be open. A carriage
return and a line feed are one boundary, so no line ends with the first where the next starts with
the second. A list of lines like that (`Text.AreLines`) is what its text is cut into, and nothing
else is (`Text.lines_eq_iff`): a text has one such list.

Two texts can be cut apart where the first ends with a complete line (`Text.lines_append`), and any
consecutive lines of a text are the lines of what they join to (`Text.lines_flatten_of_infix`).
-/

namespace ConceptAtlas.Text

variable {c : Char} {cs l m xs ys : List Char} {ls : List (List Char)}

/-! ### Lines one by one -/

/-- A line boundary: a single character, or a carriage return with its line feed. -/
def IsBoundary (cs : List Char) : Prop :=
  cs = ['\r', '\n'] ∨ ∃ c, cs = [c] ∧ isLineBoundary c = true

/-- No character of a text ends a line. -/
def IsPlain (cs : List Char) : Prop := ∀ c ∈ cs, isLineBoundary c = false

instance (cs : List Char) : Decidable (IsPlain cs) := List.decidableBAll _ cs

/-- A complete line: a boundary after characters that are none. -/
def IsEnded (l : List Char) : Prop := ∃ cs stop, l = cs ++ stop ∧ IsPlain cs ∧ IsBoundary stop

/-- A line without a boundary. -/
def IsOpen (l : List Char) : Prop := l ≠ [] ∧ IsPlain l

/-- A boundary runs over from one text to the next. -/
def IsSeam (l m : List Char) : Prop := l.getLast? = some '\r' ∧ m.head? = some '\n'

/-- The list of a text's lines: complete ones one after the other, then perhaps an open one. -/
structure AreLines (ls : List (List Char)) : Prop where
  each : ∀ l ∈ ls, IsEnded l ∨ IsOpen l
  chain : ls.IsChain fun l m ↦ IsEnded l ∧ ¬ IsSeam l m

theorem isPlain_cons : IsPlain (c :: cs) ↔ isLineBoundary c = false ∧ IsPlain cs :=
  List.forall_mem_cons

theorem IsBoundary.ne_nil (h : IsBoundary cs) : cs ≠ [] := by
  rcases h with rfl | ⟨c, rfl, -⟩
  · exact List.cons_ne_nil _ _
  · exact List.cons_ne_nil _ _

theorem IsEnded.ne_nil (h : IsEnded l) : l ≠ [] := by
  obtain ⟨cs, stop, rfl, -, hstop⟩ := h
  exact List.append_ne_nil_of_right_ne_nil cs hstop.ne_nil

theorem IsBoundary.isEnded (h : IsBoundary cs) : IsEnded cs :=
  ⟨[], cs, rfl, List.forall_mem_nil _, h⟩

theorem IsEnded.cons (h : IsEnded l) (hc : isLineBoundary c = false) : IsEnded (c :: l) := by
  obtain ⟨cs, stop, rfl, hcs, hstop⟩ := h
  exact ⟨c :: cs, stop, rfl, isPlain_cons.2 ⟨hc, hcs⟩, hstop⟩

theorem IsOpen.cons (h : IsOpen l) (hc : isLineBoundary c = false) : IsOpen (c :: l) :=
  ⟨List.cons_ne_nil c l, isPlain_cons.2 ⟨hc, h.2⟩⟩

theorem AreLines.ne_nil (h : AreLines ls) (hl : l ∈ ls) : l ≠ [] :=
  (h.each l hl).elim IsEnded.ne_nil fun hopen ↦ hopen.1

/-! ### Cutting -/

theorem lines_cons_of_boundary (hc : isLineBoundary c = true)
    (hseam : ¬ (c = '\r' ∧ cs.head? = some '\n')) : lines (c :: cs) = [c] :: lines cs := by
  rw [lines, if_pos hc]
  rintro cs' rfl rfl
  exact hseam ⟨rfl, rfl⟩

theorem lines_cons_of_plain (hc : isLineBoundary c = false) :
    lines (c :: cs) = consLine c (lines cs) := by
  rw [lines, if_neg (Bool.eq_false_iff.1 hc)]
  rintro cs' rfl -
  exact absurd hc (by decide)

/-- A complete line is cut off in front of anything but the rest of its boundary. -/
theorem lines_append_of_isEnded (h : IsEnded l) (hseam : ¬ IsSeam l cs) :
    lines (l ++ cs) = l :: lines cs := by
  obtain ⟨plain, stop, rfl, hplain, hstop⟩ := h
  induction plain with
  | nil =>
    rcases hstop with rfl | ⟨c, rfl, hc⟩
    · rw [List.nil_append, List.cons_append, List.singleton_append, lines]
    · refine lines_cons_of_boundary hc fun ⟨hr, hn⟩ ↦ hseam ⟨?_, hn⟩
      rw [hr]
      rfl
  | cons c plain ih =>
    obtain ⟨hc, hplain⟩ := isPlain_cons.1 hplain
    have hne : plain ++ stop ≠ [] := List.append_ne_nil_of_right_ne_nil plain hstop.ne_nil
    have hseam : ¬ IsSeam (plain ++ stop) cs := fun ⟨hr, hn⟩ ↦ hseam ⟨by
      rw [List.cons_append, List.getLast?_cons_of_ne_nil hne, hr], hn⟩
    rw [List.cons_append, List.cons_append, lines_cons_of_plain hc, ih hseam hplain, consLine]

theorem lines_of_isOpen (h : IsOpen l) : lines l = [l] := by
  obtain ⟨hne, hplain⟩ := h
  induction l with
  | nil => exact absurd rfl hne
  | cons c l ih =>
    obtain ⟨hc, hplain⟩ := isPlain_cons.1 hplain
    rw [lines_cons_of_plain hc]
    cases l with
    | nil => rfl
    | cons d l => rw [ih (List.cons_ne_nil d l) hplain, consLine]

/-- The first character of a text starts its first line. -/
theorem head?_of_mem_head?_lines (hl : l ∈ (lines cs).head?) (hne : l ≠ []) :
    l.head? = cs.head? := by
  obtain ⟨ls, hls⟩ := List.head?_eq_some_iff.1 hl
  rw [← flatten_lines cs, hls, List.flatten_cons, List.head?_append_of_ne_nil l hne]

theorem AreLines.consLine (h : AreLines ls) (hc : isLineBoundary c = false) :
    AreLines (consLine c ls) := by
  cases ls with
  | nil =>
    have hopen : IsOpen [c] := ⟨List.cons_ne_nil c [], List.forall_mem_singleton.2 hc⟩
    exact ⟨List.forall_mem_singleton.2 (.inr hopen), List.isChain_singleton _⟩
  | cons l ls =>
    obtain ⟨hl, hls⟩ := List.forall_mem_cons.1 h.each
    obtain ⟨hnext, hchain⟩ := List.isChain_cons.1 h.chain
    have hne : l ≠ [] := h.ne_nil List.mem_cons_self
    refine ⟨List.forall_mem_cons.2 ⟨hl.imp (·.cons hc) (·.cons hc), hls⟩,
      List.isChain_cons.2 ⟨fun m hm ↦ ?_, hchain⟩⟩
    obtain ⟨hended, hseam⟩ := hnext m hm
    refine ⟨hended.cons hc, fun ⟨hr, hn⟩ ↦ hseam ⟨?_, hn⟩⟩
    rwa [List.getLast?_cons_of_ne_nil hne] at hr

/-- A boundary before lines is a line more. -/
theorem AreLines.cons_of_isBoundary (h : AreLines (lines cs)) (hl : IsBoundary l)
    (hseam : ¬ IsSeam l cs) : AreLines (l :: lines cs) := by
  refine ⟨List.forall_mem_cons.2 ⟨.inl hl.isEnded, h.each⟩,
    List.isChain_cons.2 ⟨fun m hm ↦ ⟨hl.isEnded, fun ⟨hr, hn⟩ ↦ hseam ⟨hr, ?_⟩⟩, h.chain⟩⟩
  rw [← head?_of_mem_head?_lines hm (h.ne_nil (List.mem_of_mem_head? hm)), hn]

/-- What a text is cut into are lines. -/
theorem areLines_lines (cs : List Char) : AreLines (lines cs) := by
  fun_induction lines cs with
  | case1 => exact ⟨List.forall_mem_nil _, List.isChain_nil⟩
  | case2 cs ih =>
    have hlast : ['\r', '\n'].getLast? ≠ some '\r' := by decide
    exact ih.cons_of_isBoundary (.inl rfl) fun hseam ↦ hlast hseam.1
  | case3 c cs hcr hc ih =>
    refine ih.cons_of_isBoundary (.inr ⟨c, rfl, hc⟩) fun hseam ↦ ?_
    obtain ⟨cs', rfl⟩ := List.head?_eq_some_iff.1 hseam.2
    exact hcr cs' (Option.some.inj hseam.1) rfl
  | case4 c cs _ hc ih => exact ih.consLine (Bool.eq_false_iff.2 hc)

/-- Lines are found again in what they join to. -/
theorem AreLines.lines_flatten (h : AreLines ls) : lines ls.flatten = ls := by
  induction ls with
  | nil => rfl
  | cons l ls ih =>
    obtain ⟨hl, hls⟩ := List.forall_mem_cons.1 h.each
    obtain ⟨hnext, hchain⟩ := List.isChain_cons.1 h.chain
    have hrest : AreLines ls := ⟨hls, hchain⟩
    cases ls with
    | nil =>
      rw [List.flatten_singleton]
      refine hl.elim (fun hended ↦ ?_) lines_of_isOpen
      have hseam : ¬ IsSeam l [] := fun ⟨_, hn⟩ ↦ nomatch hn
      have hlines := lines_append_of_isEnded hended hseam
      rwa [List.append_nil] at hlines
    | cons m ls =>
      obtain ⟨hended, hseam⟩ := hnext m rfl
      have hne : m ≠ [] := hrest.ne_nil List.mem_cons_self
      rw [List.flatten_cons, lines_append_of_isEnded hended, ih hrest]
      rwa [IsSeam, List.flatten_cons, List.head?_append_of_ne_nil m hne]

/-- **A text has one list of lines**, and joins from it. -/
theorem lines_eq_iff : lines cs = ls ↔ AreLines ls ∧ ls.flatten = cs := by
  constructor
  · rintro rfl
    exact ⟨areLines_lines cs, flatten_lines cs⟩
  · rintro ⟨h, rfl⟩
    exact h.lines_flatten

/-- Consecutive lines of a text are the lines of what they join to. -/
theorem lines_flatten_of_infix (h : ls <:+: lines cs) : lines ls.flatten = ls :=
  have hlines := areLines_lines cs
  AreLines.lines_flatten ⟨fun l hl ↦ hlines.each l (h.subset hl), hlines.chain.infix h⟩

/-- The last character of a text ends its last line. -/
theorem getLast?_of_mem_getLast?_lines (hl : l ∈ (lines cs).getLast?) (hne : l ≠ []) :
    l.getLast? = cs.getLast? := by
  obtain ⟨ls, hls⟩ := List.getLast?_eq_some_iff.1 hl
  rw [← flatten_lines cs, hls, List.flatten_append, List.flatten_singleton,
    List.getLast?_append_of_ne_nil ls.flatten hne]

/-- After complete lines a text goes on with the lines of what is left. -/
theorem lines_append (h : ∀ l ∈ lines xs, IsEnded l) (hseam : ¬ IsSeam xs ys) :
    lines (xs ++ ys) = lines xs ++ lines ys := by
  have hxs := areLines_lines xs
  have hys := areLines_lines ys
  refine lines_eq_iff.2 ⟨⟨List.forall_mem_append.2 ⟨hxs.each, hys.each⟩, ?_⟩, ?_⟩
  · refine List.isChain_append.2 ⟨hxs.chain, hys.chain, fun l hl m hm ↦ ?_⟩
    have hmem : l ∈ lines xs := List.mem_of_getLast? hl
    have hm' : m ∈ lines ys := List.mem_of_mem_head? hm
    refine ⟨h l hmem, fun ⟨hr, hn⟩ ↦ hseam ⟨?_, ?_⟩⟩
    · rw [← getLast?_of_mem_getLast?_lines hl (hxs.ne_nil hmem), hr]
    · rw [← head?_of_mem_head?_lines hm (hys.ne_nil hm'), hn]
  · rw [List.flatten_append, flatten_lines, flatten_lines]

end ConceptAtlas.Text
