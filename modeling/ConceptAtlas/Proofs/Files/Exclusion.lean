import Mathlib
import ConceptAtlas.Proofs.Files.Discovery
import ConceptAtlas.Proofs.Files.Path
import ConceptAtlas.Proofs.Files.Pattern

/-!
# What exclusion reaches

Exclusion goes down: what stands below an excluded path is excluded as well
(`Discovery.isExcluded_of_above`). A pattern excludes a path for its own text or for a path above
it. What is above a path is above everything below it too, so only the text itself is left to look
at. The text of a path below goes on with a slash. A pattern that does not end in `/**` reaches it
through its parent, which is the path that the pattern fits; and one that does fits anything that
goes on with a slash from a text that it fits (`Discovery.fits_slashStars_iff`), whatever wildcards
and open brackets there are in front.

A directory written without wildcards and followed by `/**` excludes what is in it and nothing else,
not even itself (`Discovery.IsPlain.excludesPath_iff`).
-/

namespace ConceptAtlas.Discovery

variable {pattern s text : String} {patterns : List String} {p q dir : Path}

/-! ### Patterns for what is in a directory -/

theorem directoryPattern_slashStars (s : String) : directoryPattern (s ++ "/**") = s := by
  have hlength : (s ++ "/**").length - 3 = s.toList.length := by
    rw [String.length_append, String.length_toList]
    exact Nat.add_sub_cancel s.length 3
  rw [directoryPattern, if_pos (Text.endsWith_iff_exists.2 ⟨s, rfl⟩), hlength, String.toList_append,
    List.take_left, String.ofList_toList]

/-- A pattern without `/**` at its end is for a directory what it is for anything else. -/
theorem directoryPattern_eq_or (pattern : String) :
    (∃ s, pattern = s ++ "/**") ∨ directoryPattern pattern = pattern := by
  by_cases h : pattern.endsWith "/**" = true
  · exact .inl (Text.endsWith_iff_exists.1 h)
  · exact .inr (if_neg h)

/-- What a slash and two stars fit: a slash and anything behind it. -/
theorem accepts_slashStars_iff {cs : List Char} :
    Pattern.accepts (Pattern.pieces "/**".toList) cs = true ↔ ∃ rest, cs = '/' :: rest := by
  have hstars : Pattern.pieces "/**".toList = [.exactly '/', .anything, .anything] := by cbv
  rw [hstars, Pattern.accepts_exactly_cons_iff]
  constructor
  · rintro ⟨rest, rfl, -⟩
    exact ⟨rest, rfl⟩
  · rintro ⟨rest, rfl⟩
    -- The first star takes all that is left, and the second one nothing.
    have hlast : Pattern.accepts [.anything] [] = true :=
      Pattern.accepts_anything_cons_iff.2 ⟨[], [], rfl, Pattern.accepts_nil_iff.2 rfl⟩
    exact ⟨rest, rfl, Pattern.accepts_anything_cons_iff.2
      ⟨rest, [], (List.append_nil rest).symm, hlast⟩⟩

/-- A bracket that is open in front of the slash stays open, so what is in front is a pattern by
itself. -/
theorem fits_slashStars_iff : (Pattern.ofString (s ++ "/**")).fits text = true ↔
    ∃ front rest, text.toList = front ++ '/' :: rest ∧
      (Pattern.ofString s).accepts front = true := by
  rw [Pattern.ofString, String.toList_append, Pattern.pieces_append (by decide), Pattern.fits,
    Pattern.accepts_append_iff]
  simp only [accepts_slashStars_iff]
  constructor
  · rintro ⟨front, _, htext, hfront, rest, rfl⟩
    exact ⟨front, rest, htext, hfront⟩
  · rintro ⟨front, rest, htext, hfront⟩
    exact ⟨front, _, htext, hfront, rest, rfl⟩

/-! ### Exclusion goes down -/

theorem excludesPath_iff : excludesPath pattern p = true ↔
    (Pattern.ofString pattern).fits p.text = true ∨ ∃ q : Path, q.Above p ∧ q.names ≠ [] ∧
      (Pattern.ofString (directoryPattern pattern)).fits q.text = true := by
  simp only [excludesPath, Bool.or_eq_true, List.any_eq_true, Path.mem_parents_iff,
    Bool.and_eq_true, Bool.not_eq_true', List.isEmpty_eq_false_iff]

/-- **A pattern that excludes a path excludes what is below it.** -/
theorem excludesPath_of_above (h : excludesPath pattern p = true) (hnames : p.names ≠ [])
    (hq : p.Above q) : excludesPath pattern q = true := by
  rw [excludesPath_iff] at h ⊢
  rcases h with hfits | ⟨above, habove, hfits⟩
  · rcases directoryPattern_eq_or pattern with ⟨s, rfl⟩ | hsame
    · obtain ⟨front, rest, hfront, haccepts⟩ := fits_slashStars_iff.1 hfits
      obtain ⟨more, hmore⟩ := hq.exists_text hnames
      refine .inl (fits_slashStars_iff.2 ⟨front, rest ++ '/' :: more, ?_, haccepts⟩)
      rw [hmore, hfront, List.append_assoc, List.cons_append]
    · exact .inr ⟨p, hq, hnames, by rw [hsame]; exact hfits⟩
  · exact .inr ⟨above, habove.trans hq, hfits⟩

theorem isExcluded_of_above (h : isExcluded patterns p = true) (hnames : p.names ≠ [])
    (hq : p.Above q) : isExcluded patterns q = true := by
  obtain ⟨pattern, hpattern, hp⟩ := List.any_eq_true.1 h
  exact List.any_eq_true.2 ⟨pattern, hpattern, excludesPath_of_above hp hnames hq⟩

/-! ### A directory by its name -/

/-- A directory that can be told by its text: the path is relative, has a name and no wildcards. -/
structure IsPlain (dir : Path) : Prop where
  relative : dir.anchor = .relative
  nonempty : dir.names ≠ []
  named : dir.Named
  plain : Pattern.isWild dir.text = false

theorem IsPlain.accepts_iff (h : IsPlain dir) {cs : List Char} :
    (Pattern.ofString dir.text).accepts cs = true ↔ cs = dir.text.toList := by
  rw [Pattern.ofString, Pattern.pieces_of_not_isWild h.plain, Pattern.accepts_map_exactly_iff]

/-- **A plain directory, followed by `/**`, excludes what is in it and nothing else.** -/
theorem IsPlain.excludesPath_iff (h : IsPlain dir) (hp : p.Named)
    (hrelative : p.anchor = .relative) :
    excludesPath (dir.text ++ "/**") p = true ↔ dir.Above p := by
  rw [Discovery.excludesPath_iff, directoryPattern_slashStars, fits_slashStars_iff]
  constructor
  · rintro (⟨front, rest, hfront, haccepts⟩ | ⟨q, hq, -, hfits⟩)
    · rw [h.accepts_iff.1 haccepts] at hfront
      exact (Path.above_iff_text h.named hp h.relative hrelative h.nonempty).2 ⟨rest, hfront⟩
    · -- The only path with the text of the directory is the directory.
      have hnamed : q.Named := by
        obtain ⟨more, -, rfl⟩ := hq
        exact fun n hn ↦ hp n (List.mem_append_left more hn)
      have htext : q.text = dir.text := String.toList_inj.1 (h.accepts_iff.1 hfits)
      rwa [← hnamed.eq_of_text_eq h.named htext]
  · intro habove
    obtain ⟨rest, hrest⟩ := habove.exists_text h.nonempty
    exact .inl ⟨dir.text.toList, rest, hrest, h.accepts_iff.2 rfl⟩

/-- **Exclusion goes down.** Below an excluded path everything is excluded, and a plain directory
followed by `/**` stands for the paths below the directory. -/
theorem exclusion_goes_down :
    (∀ (patterns : List String) (p q : Path), p.names ≠ [] → p.Above q →
      isExcluded patterns p = true → isExcluded patterns q = true) ∧
    ∀ dir p : Path, IsPlain dir → p.Named → p.anchor = .relative →
      (isExcluded [dir.text ++ "/**"] p = true ↔ dir.Above p) := by
  refine ⟨fun patterns p q hnames hq h ↦ isExcluded_of_above h hnames hq, ?_⟩
  intro dir p hdir hp hrelative
  rw [isExcluded, List.any_cons, List.any_nil, Bool.or_false, hdir.excludesPath_iff hp hrelative]

/-- An open bracket is one of the characters of a name, and the text of a directory may start the
text of another one. -/
theorem exclusion_goes_down_bracket :
    (isExcluded ["[ab/**"] ⟨.relative, ["[ab", "c"]⟩ = true ∧
      isExcluded ["[ab/**"] ⟨.relative, ["[ab", "c", "d"]⟩ = true) ∧
    isExcluded [".git/**"] ⟨.relative, [".git", "config"]⟩ = true ∧
    isExcluded [".git/**"] ⟨.relative, [".github", "config"]⟩ = false := by
  have hexcluded : isExcluded ["[ab/**"] ⟨.relative, ["[ab", "c"]⟩ = true := by cbv
  have hplain : IsPlain ⟨.relative, [".git"]⟩ := ⟨rfl, by decide, by decide, by decide⟩
  have hpattern : (⟨.relative, [".git"]⟩ : Path).text ++ "/**" = ".git/**" := by decide
  refine ⟨⟨hexcluded,
    exclusion_goes_down.1 _ _ _ (by decide) ⟨["d"], by decide, rfl⟩ hexcluded⟩, ?_⟩
  rw [← hpattern, Bool.eq_false_iff, Ne, exclusion_goes_down.2 _ _ hplain (by decide) rfl,
    exclusion_goes_down.2 _ _ hplain (by decide) rfl]
  refine ⟨⟨["config"], by decide, rfl⟩, ?_⟩
  rintro ⟨more, -, hmore⟩
  simp at hmore

end ConceptAtlas.Discovery
