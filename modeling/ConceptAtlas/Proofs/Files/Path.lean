import Mathlib.Data.List.Basic
import ConceptAtlas.Files.Path
import ConceptAtlas.Proofs.Text.Parts

/-!
# Paths read back

The text of a path spells that path again (`Path.ofString_text`), provided that its names can stand
in a text at all (`Path.Named`). Names that come from a text can (`Path.named_ofString`).

The parents of a path are the paths above it (`Path.mem_parents_iff`). That one path stands above
another can be seen from their texts: the text below starts with the one above and a slash
(`Path.above_iff_text`).
-/

namespace ConceptAtlas

namespace Path

/-! ### Names -/

/-- Every name of a path can stand between slashes: it has characters, none of them a slash, and is
not `.`, which would be dropped. -/
def Named (p : Path) : Prop := ∀ n ∈ p.names, n ≠ "" ∧ n ≠ "." ∧ '/' ∉ n.toList

instance (p : Path) : Decidable p.Named :=
  inferInstanceAs (Decidable (∀ n ∈ p.names, n ≠ "" ∧ n ≠ "." ∧ '/' ∉ n.toList))

theorem named_ofString (s : String) : (ofString s).Named := by
  intro n hn
  obtain ⟨hpart, hkept⟩ := List.mem_filter.1 hn
  rw [Bool.and_eq_true, bne_iff_ne, bne_iff_ne] at hkept
  obtain ⟨l, hl, rfl⟩ := List.mem_map.1 hpart
  rw [String.toList_ofList]
  exact ⟨hkept.1, hkept.2, Text.not_mem_of_mem_parts hl⟩

theorem Named.child {p : Path} (h : p.Named) {name : String}
    (hname : name ≠ "" ∧ name ≠ "." ∧ '/' ∉ name.toList) : (p.child name).Named := by
  intro n hn
  rcases List.mem_append.1 hn with hn | hn
  · exact h n hn
  · exact List.mem_singleton.1 hn ▸ hname

/-! ### Reading back -/

/-- The slashes that an anchor is written as. -/
def Anchor.slashes : Anchor → List Char
  | .relative => []
  | .root => ['/']
  | .doubleRoot => ['/', '/']

/-- The names of a path between slashes. -/
def joined (p : Path) : List Char := ['/'].intercalate (p.names.map String.toList)

theorem toList_text_eq {p : Path} (h : p.anchor ≠ .relative ∨ p.names ≠ []) :
    p.text.toList = p.anchor.slashes ++ p.joined := by
  obtain ⟨anchor, names⟩ := p
  have htext : text ⟨anchor, names⟩ = anchor.text ++ "/".intercalate names := by
    cases anchor with
    | relative =>
      cases names with
      | nil => simp at h
      | cons n ns => rfl
    | root => rfl
    | doubleRoot => rfl
  have hanchor : anchor.text.toList = anchor.slashes := by cases anchor <;> rfl
  rw [htext, String.toList_append, hanchor]
  simp [joined]

/-- Behind the slashes of an anchor no more of them follow. -/
theorem Named.head?_joined {p : Path} (h : p.Named) : p.joined.head? ≠ some '/' := by
  rcases hn : p.names with - | ⟨n, ns⟩
  · rw [joined, hn]
    decide
  · obtain ⟨hempty, -, hslash⟩ := h n (hn ▸ List.mem_cons_self)
    rcases hc : n.toList with - | ⟨c, cs⟩
    · exact absurd (String.toList_eq_nil_iff.1 hc) hempty
    · have hhead : p.joined.head? = some c := by
        rw [joined, hn, List.map_cons, hc]
        cases ns <;> simp [List.intercalate]
      rw [hhead]
      exact fun e ↦ hslash (by rw [hc, Option.some.inj e]; exact List.mem_cons_self)

/-- What names are read behind the slashes of an anchor. -/
theorem Named.kept_parts {p : Path} (h : p.Named) :
    ((Text.parts '/' (p.anchor.slashes ++ p.joined)).map String.ofList).filter
      (fun n ↦ n != "" && n != ".") = p.names := by
  have hslashes : ((Text.parts '/' (p.anchor.slashes ++ p.joined)).map String.ofList).filter
      (fun n ↦ n != "" && n != ".") = ((Text.parts '/' p.joined).map String.ofList).filter
        fun n ↦ n != "" && n != "." := by
    cases p.anchor <;> simp [Anchor.slashes, Text.parts]
  rw [hslashes]
  by_cases hnames : p.names = []
  · rw [joined, hnames]
    decide
  · have hkept : ∀ n ∈ p.names, (n != "" && n != ".") = true := by
      intro n hn
      rw [Bool.and_eq_true, bne_iff_ne, bne_iff_ne]
      exact ⟨(h n hn).1, (h n hn).2.1⟩
    rw [joined, Text.parts_intercalate (by simpa using hnames), List.map_map]
    · simpa [Function.comp_def] using List.filter_eq_self.2 hkept
    · intro l hl
      obtain ⟨n, hn, rfl⟩ := List.mem_map.1 hl
      exact (h n hn).2.2

/-- **The text of a path spells it.** -/
theorem Named.ofString_text {p : Path} (h : p.Named) : ofString p.text = p := by
  by_cases hplain : p.anchor ≠ .relative ∨ p.names ≠ []
  · have hcs := toList_text_eq hplain
    have hslashes : (p.text.toList.takeWhile (· == '/')).length = p.anchor.slashes.length := by
      rw [hcs]
      have hhead := h.head?_joined
      generalize p.joined = cs at hhead
      rcases cs with - | ⟨c, cs⟩
      · cases p.anchor <;> rfl
      · have hc : (c == '/') = false := beq_false_of_ne fun e ↦ hhead (congrArg some e)
        cases p.anchor <;> simp [Anchor.slashes, hc]
    have hnames := h.kept_parts
    rw [← hcs] at hnames
    have hanchor : (if (p.text.toList.takeWhile (· == '/')).length = 0 then Anchor.relative
        else if (p.text.toList.takeWhile (· == '/')).length = 2 then .doubleRoot else .root) =
          p.anchor := by
      rw [hslashes]
      cases p.anchor <;> rfl
    show Path.mk _ ((Text.splitOn '/' p.text).filter _) = p
    rw [hanchor, Text.splitOn, hnames]
  · rw [not_or, not_not, not_not] at hplain
    obtain ⟨anchor, names⟩ := p
    obtain ⟨rfl, rfl⟩ : anchor = .relative ∧ names = [] := hplain
    decide

/-- No two such paths have one text. -/
theorem Named.eq_of_text_eq {p q : Path} (hp : p.Named) (hq : q.Named) (h : p.text = q.text) :
    p = q := by
  rw [← hp.ofString_text, h, hq.ofString_text]

/-! ### Above and below -/

/-- A path stands above another one that goes on from it by one name or more. -/
def Above (p q : Path) : Prop := ∃ more, more ≠ [] ∧ q = { p with names := p.names ++ more }

theorem Above.trans {p q r : Path} (h : p.Above q) (h' : q.Above r) : p.Above r := by
  obtain ⟨more, hmore, rfl⟩ := h
  obtain ⟨more', -, rfl⟩ := h'
  exact ⟨more ++ more', fun hnil ↦ hmore (List.append_eq_nil_iff.1 hnil).1,
    congrArg (Path.mk _) (List.append_assoc ..)⟩

theorem mem_parents_iff {p q : Path} : p ∈ q.parents ↔ p.Above q := by
  simp only [parents, List.mem_map, List.mem_reverse, List.mem_range]
  constructor
  · rintro ⟨n, hn, rfl⟩
    exact ⟨q.names.drop n, by simpa using hn, by rw [List.take_append_drop]⟩
  · rintro ⟨more, hmore, rfl⟩
    refine ⟨p.names.length, ?_, by rw [List.take_left]⟩
    rw [List.length_append]
    exact Nat.lt_add_of_pos_right (List.length_pos_iff.2 hmore)

/-- Below a path with a name every text starts with the text of that path and a slash. -/
theorem Above.exists_text {p q : Path} (h : p.Above q) (hnames : p.names ≠ []) :
    ∃ rest, q.text.toList = p.text.toList ++ '/' :: rest := by
  obtain ⟨more, hmore, rfl⟩ := h
  have hboth : p.names ++ more ≠ [] := fun hnil ↦ hnames (List.append_eq_nil_iff.1 hnil).1
  refine ⟨['/'].intercalate (more.map String.toList), ?_⟩
  rw [toList_text_eq (.inr hnames), toList_text_eq (.inr hboth), joined, joined, List.map_append,
    Text.intercalate_append (by simpa using hnames) (by simpa using hmore), List.append_assoc]

/-- **A relative path with a name stands above another one exactly if the text of the other one
starts with its text and a slash.** -/
theorem above_iff_text {p q : Path} (hp : p.Named) (hq : q.Named)
    (hprelative : p.anchor = .relative) (hqrelative : q.anchor = .relative)
    (hnames : p.names ≠ []) :
    p.Above q ↔ ∃ rest, q.text.toList = p.text.toList ++ '/' :: rest := by
  refine ⟨fun h ↦ h.exists_text hnames, ?_⟩
  rintro ⟨rest, hrest⟩
  have hqnames : q.names ≠ [] := by
    intro hnil
    have hdot : q.text = "." := by rw [text, hqrelative, hnil]
    have hslash : '/' ∈ ".".toList := by
      rw [← hdot, hrest]
      simp
    exact absurd hslash (by decide)
  -- Between their slashes both texts have the names of their paths.
  have hparts {r : Path} (hr : r.Named) (hrelative : r.anchor = .relative) (hne : r.names ≠ []) :
      Text.parts '/' r.text.toList = r.names.map String.toList := by
    rw [toList_text_eq (.inr hne), hrelative, Anchor.slashes, List.nil_append, joined,
      Text.parts_intercalate (by simpa using hne)]
    intro l hl
    obtain ⟨n, hn, rfl⟩ := List.mem_map.1 hl
    exact (hr n hn).2.2
  have hsplit := hparts hq hqrelative hqnames
  rw [hrest, Text.parts_append, hparts hp hprelative hnames] at hsplit
  obtain ⟨front, back, hback, hfront, hmore⟩ := List.map_eq_append_iff.1 hsplit.symm
  obtain rfl : front = p.names :=
    List.map_injective_iff.2 (fun _ _ ↦ String.toList_inj.1) hfront
  refine ⟨back, ?_, ?_⟩
  · rintro rfl
    exact Text.parts_ne_nil '/' rest hmore.symm
  · obtain ⟨anchor, names⟩ := q
    obtain rfl : anchor = .relative := hqrelative
    rw [hprelative]
    exact congrArg (Path.mk _) hback

end Path

end ConceptAtlas
