import Mathlib
import ConceptAtlas.Content.Card
import ConceptAtlas.Proofs.Text.Lines
import ConceptAtlas.Yaml.Reading

/-!
# How a card is split

A card without a byte order mark opens with a delimiter or is all body. From an opening delimiter
on, the first delimiter after it ends the front matter, and everything behind that is the body, with
delimiters of its own if it has any (`Card.Splits`). So the four parts make up the text, no line of
the front matter is a delimiter, and what comes of the front matter is a matter of its text alone
and of the parser that reads it (`Card.Reads`).

The parts are joined lines, and to speak of the lines of a part the text has to be cut again
(`Text.lines_flatten_of_infix`). The other way round a header of complete lines and any body can be
put between and after delimiters, and they are found again (`Card.splits_ofText`).
-/

namespace ConceptAtlas

namespace Card

variable {parse : Yaml.Parser} {first last : List Char} {front rest body : List (List Char)}

/-! ### Layout -/

/-- A text opens with a delimiter. -/
def Opens (cs : List Char) : Prop := ∃ l ∈ (Text.lines cs).head?, isDelimiter l = true

/-- A text has a delimiter after its first line. -/
def Closes (cs : List Char) : Prop := ∃ l ∈ (Text.lines cs).tail, isDelimiter l = true

theorem Layout.ofLines_eq_bare {ls : List (List Char)}
    (h : ¬ ∃ l ∈ ls.head?, isDelimiter l = true) : Layout.ofLines ls = .bare ls.flatten := by
  cases ls with
  | nil => rfl
  | cons l ls => rw [Layout.ofLines, if_neg fun hl ↦ h ⟨l, rfl, hl⟩]

theorem Layout.ofLines_eq_unended (hfirst : isDelimiter first = true)
    (h : ¬ ∃ l ∈ rest, isDelimiter l = true) : Layout.ofLines (first :: rest) = .unended := by
  have hdrop : rest.dropWhile (fun l ↦ !isDelimiter l) = [] := by
    rw [List.dropWhile_eq_nil_iff]
    intro l hl
    rw [Bool.not_eq_true', Bool.eq_false_iff]
    exact fun hdelimiter ↦ h ⟨l, hl, hdelimiter⟩
  rw [Layout.ofLines, if_pos hfirst, hdrop]

theorem Layout.ofLines_eq_framed (hfirst : isDelimiter first = true)
    (hfront : ∀ l ∈ front, isDelimiter l = false) (hlast : isDelimiter last = true) :
    Layout.ofLines (first :: (front ++ last :: body)) = .framed first front last body := by
  have hall : ∀ l ∈ front, (!isDelimiter l) = true := fun l hl ↦ by rw [hfront l hl, Bool.not_false]
  have hdrop : (front ++ last :: body).dropWhile (fun l ↦ !isDelimiter l) = last :: body := by
    rw [List.dropWhile_append_of_pos hall, List.dropWhile_cons, hlast]
    rfl
  have htake : (front ++ last :: body).takeWhile (fun l ↦ !isDelimiter l) = front := by
    rw [List.takeWhile_append_of_pos hall, List.takeWhile_cons, hlast, Bool.not_true,
      if_neg Bool.false_ne_true, List.append_nil]
  rw [Layout.ofLines, if_pos hfirst, hdrop, htake]

/-- The first delimiter parts the lines after the opening one. -/
theorem exists_parts (h : ∃ l ∈ rest, isDelimiter l = true) : ∃ front last body,
    rest = front ++ last :: body ∧ (∀ l ∈ front, isDelimiter l = false) ∧
      isDelimiter last = true := by
  obtain ⟨last, hfind⟩ := Option.isSome_iff_exists.1 (List.find?_isSome.2 h)
  obtain ⟨hlast, front, body, hrest, hfront⟩ := List.find?_eq_some_iff_append.1 hfind
  refine ⟨front, last, body, hrest, fun l hl ↦ ?_, hlast⟩
  simpa using hfront l hl

/-! ### Reading -/

/-- What comes of the text of front matter, with a body: the parser makes a mapping or null of it,
or there is no card. -/
inductive Reads (parse : Yaml.Parser) (raw : List Char) (body : String) : Outcome Card → Prop
  | null (h : parse raw = .ok .null) : Reads parse raw body (.ok ⟨[], body⟩)
  | map {entries : List (Value × Value)} (h : parse raw = .ok (.map entries)) :
    Reads parse raw body (.ok ⟨entries, body⟩)
  | other {v : Value} (h : parse raw = .ok v) (hnull : v ≠ .null)
    (hmap : ∀ entries, v ≠ .map entries) :
    Reads parse raw body (refuse (.parse (.frontMatterKind v.kindName)))
  | malformed (h : parse raw = .error .malformed) :
    Reads parse raw body (refuse (.parse .frontMatterText))
  | breakdown {b : Breakdown} (h : parse raw = .error (.breakdown b)) :
    Reads parse raw body (breakDown b)

/-- What comes of front matter is settled by its text, whatever the body. -/
theorem reads_iff {raw : List Char} {body : String} {o : Outcome Card} :
    Reads parse raw body o ↔ o = (frontOf parse raw).map fun entries ↦ ⟨entries, body⟩ := by
  constructor
  · intro h
    rw [frontOf]
    cases h with
    | null h | map h | malformed h | breakdown h =>
      rw [h]
      rfl
    | @other v h hnull hmap =>
      rw [h]
      cases v with
      | null => exact absurd rfl hnull
      | map entries => exact absurd rfl (hmap entries)
      | _ => rfl
  · rintro rfl
    rw [frontOf]
    split
    · rename_i h
      exact .malformed h
    · rename_i b h
      exact .breakdown h
    · rename_i h
      exact .null h
    · rename_i entries h
      exact .map h
    · rename_i v hnull hmap h
      exact .other h hnull hmap

/-! ### Splitting -/

/-- A text is made up of two delimiters, front matter between them and a body. No line of the front
matter is a delimiter, and its text alone settles what comes of it. -/
def Framed (parse : Yaml.Parser) (cs : List Char) (o : Outcome Card) : Prop :=
  ∃ first raw last body : List Char, first ++ raw ++ last ++ body = cs ∧
    Text.lines cs = first :: (Text.lines raw ++ last :: Text.lines body) ∧
    isDelimiter first = true ∧ (∀ l ∈ Text.lines raw, isDelimiter l = false) ∧
    isDelimiter last = true ∧ Reads parse raw (String.ofList body) o

/-- How a text without a mark is split, where a card or a failure comes of it. -/
structure Splits (parse : Yaml.Parser) (cs : List Char) (o : Outcome Card) : Prop where
  /-- A text that does not open with a delimiter is its own body. -/
  bare : ¬ Opens cs → o = .ok ⟨[], String.ofList cs⟩
  /-- Front matter is left open exactly if no other delimiter is there. -/
  unended : Opens cs → (o = refuse (.parse .frontMatterOpen) ↔ ¬ Closes cs)
  /-- Else no character is lost or read twice. -/
  framed : Opens cs → Closes cs → Framed parse cs o

theorem reads_ofText {text : String} (hfirst : isDelimiter first = true)
    (hfront : ∀ l ∈ front, isDelimiter l = false) (hlast : isDelimiter last = true)
    (hlines : Text.lines (dropMark text.toList) = first :: (front ++ last :: body)) :
    Reads parse front.flatten (String.ofList body.flatten) (ofText parse text) := by
  rw [ofText, Layout.ofText, hlines, Layout.ofLines_eq_framed hfirst hfront hlast]
  exact reads_iff.2 rfl

theorem Reads.ne_frontMatterOpen {raw : List Char} {body : String} {o : Outcome Card}
    (h : Reads parse raw body o) : o ≠ refuse (.parse .frontMatterOpen) := by
  cases h with
  | null | map | other | malformed | breakdown => exact fun heq ↦ nomatch heq

/-- Four parts of a text are found by their lines. -/
theorem parts_of_lines {cs : List Char}
    (hlines : Text.lines cs = first :: (front ++ last :: body)) :
    first ++ front.flatten ++ last ++ body.flatten = cs ∧
      Text.lines front.flatten = front ∧ Text.lines body.flatten = body := by
  have hfront : front <:+: Text.lines cs := ⟨[first], last :: body, by
    rw [hlines, List.singleton_append, List.cons_append]⟩
  have hbody : body <:+: Text.lines cs := ⟨first :: (front ++ [last]), [], by
    rw [hlines, List.append_nil, List.cons_append, List.append_assoc, List.singleton_append]⟩
  refine ⟨?_, Text.lines_flatten_of_infix hfront, Text.lines_flatten_of_infix hbody⟩
  rw [← Text.flatten_lines cs, hlines, List.flatten_cons, List.flatten_append, List.flatten_cons,
    List.append_assoc, List.append_assoc]

theorem framed_ofText {text : String} (hopens : Opens (dropMark text.toList))
    (hcloses : Closes (dropMark text.toList)) :
    Framed parse (dropMark text.toList) (ofText parse text) := by
  obtain ⟨first, hmem, hfirst⟩ := hopens
  obtain ⟨rest, hlines⟩ := List.head?_eq_some_iff.1 hmem
  rw [Closes, hlines, List.tail_cons] at hcloses
  obtain ⟨front, last, body, rfl, hfront, hlast⟩ := exists_parts hcloses
  obtain ⟨hjoin, hfronts, hbodies⟩ := parts_of_lines hlines
  refine ⟨first, front.flatten, last, body.flatten, hjoin, ?_, hfirst, ?_, hlast,
    reads_ofText hfirst hfront hlast hlines⟩
  · rw [hlines, hfronts, hbodies]
  · rwa [hfronts]

theorem ofText_of_not_closes {text : String} (hopens : Opens (dropMark text.toList))
    (hcloses : ¬ Closes (dropMark text.toList)) :
    ofText parse text = refuse (.parse .frontMatterOpen) := by
  obtain ⟨first, hmem, hfirst⟩ := hopens
  obtain ⟨rest, hlines⟩ := List.head?_eq_some_iff.1 hmem
  rw [Closes, hlines, List.tail_cons] at hcloses
  rw [ofText, Layout.ofText, hlines, Layout.ofLines_eq_unended hfirst hcloses]

theorem splits_ofText_dropMark (parse : Yaml.Parser) (text : String) :
    Splits parse (dropMark text.toList) (ofText parse text) where
  bare hopens := by
    rw [ofText, Layout.ofText, Layout.ofLines_eq_bare hopens, Text.flatten_lines]
  unended hopens := by
    refine ⟨fun hopen hcloses ↦ ?_, ofText_of_not_closes hopens⟩
    obtain ⟨_, _, _, _, -, -, -, -, -, hreads⟩ := framed_ofText hopens hcloses
    exact hreads.ne_frontMatterOpen hopen
  framed := framed_ofText

/-- The line that delimits front matter, as it is mostly written. -/
def fence : List Char := ['-', '-', '-', '\n']

theorem lines_fence_append (cs : List Char) :
    Text.lines (fence ++ cs) = fence :: Text.lines cs := by
  have hended : Text.IsEnded fence :=
    ⟨['-', '-', '-'], ['\n'], rfl, by decide, .inr ⟨'\n', rfl, by decide⟩⟩
  exact Text.lines_append_of_isEnded hended fun ⟨hr, _⟩ ↦ absurd hr (by decide)

/-- A header of complete lines between delimiters and a body after them are found again. -/
theorem reads_ofText_fence {header body : String}
    (h : ∀ l ∈ Text.lines header.toList, Text.IsEnded l ∧ isDelimiter l = false) :
    Reads parse header.toList body (ofText parse ("---\n" ++ header ++ "---\n" ++ body)) := by
  have hfence : isDelimiter fence = true := by decide
  have htext : ("---\n" ++ header ++ "---\n" ++ body).toList =
      fence ++ (header.toList ++ (fence ++ body.toList)) := by
    simp only [String.toList_append, List.append_assoc]
    rfl
  have hmark : dropMark (fence ++ (header.toList ++ (fence ++ body.toList))) =
      fence ++ (header.toList ++ (fence ++ body.toList)) := rfl
  have hseam : ¬ Text.IsSeam header.toList (fence ++ body.toList) := fun ⟨_, hn⟩ ↦
    absurd (Option.some.inj hn) (by decide)
  have hlines : Text.lines (dropMark ("---\n" ++ header ++ "---\n" ++ body).toList) =
      fence :: (Text.lines header.toList ++ fence :: Text.lines body.toList) := by
    rw [htext, hmark, lines_fence_append, Text.lines_append (fun l hl ↦ (h l hl).1) hseam,
      lines_fence_append]
  have hreads := @reads_ofText parse _ _ _ _ _ hfence (fun l hl ↦ (h l hl).2) hfence hlines
  rwa [Text.flatten_lines, Text.flatten_lines, String.ofList_toList] at hreads

/-- **A card is split into what it was put together from, whatever parser reads its front matter**:
every text, with or without its mark, is all body, unended or parted by its first two delimiters;
and a header that is put between delimiters is read as front matter, whatever follows as a body. -/
theorem splits_ofText (parse : Yaml.Parser) :
    (∀ text : String, Splits parse (dropMark text.toList) (ofText parse text)) ∧
    ∀ header body : String,
      (∀ l ∈ Text.lines header.toList, Text.IsEnded l ∧ isDelimiter l = false) →
        Reads parse header.toList body (ofText parse ("---\n" ++ header ++ "---\n" ++ body)) :=
  ⟨splits_ofText_dropMark parse, fun _ _ ↦ reads_ofText_fence⟩

/-- A header whose line ends with two characters, and a body that looks like one more header. -/
theorem splits_ofText_seven :
    (∀ l ∈ Text.lines "id: 7\r\n".toList, Text.IsEnded l ∧ isDelimiter l = false) ∧
      ofText Yaml.parse ("---\n" ++ "id: 7\r\n" ++ "---\n" ++ "---\nid: 8\n---\n") =
        .ok ⟨[(.str "id", .int 7)], "---\nid: 8\n---\n"⟩ := by
  have hlines : Text.lines "id: 7\r\n".toList = ["id: 7\r\n".toList] := by decide
  have hheader : ∀ l ∈ Text.lines "id: 7\r\n".toList,
      Text.IsEnded l ∧ isDelimiter l = false := by
    rw [hlines, List.forall_mem_singleton]
    exact ⟨⟨"id: 7".toList, ['\r', '\n'], rfl, by decide, .inl rfl⟩, by decide⟩
  have hparse : Yaml.parse "id: 7\r\n".toList = .ok (.map [(.str "id", .int 7)]) := by cbv
  refine ⟨hheader, ?_⟩
  rw [reads_iff.1 ((splits_ofText Yaml.parse).2 _ _ hheader), frontOf, hparse]
  rfl

end Card

end ConceptAtlas
