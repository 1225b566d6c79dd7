import Mathlib
import ConceptAtlas.Config.Environment
import ConceptAtlas.Proofs.Text.Replacing

/-!
# Where values are put in verbatim

A text is cut from left to right into references and characters that stand for themselves
(`Environment.IsCut`), and one pass over these pieces puts the value of each variable in the place
of its references (`Environment.verbatim`).

References are not replaced in one pass, though, but name after name, and each name wherever it can
be read in the text by then. A stage is what the pass would have done so far exactly if no reference
to the name can be read between those that the text has, or if the variable has the reference itself
for its value (`replaceName_eq_iff`). So the pass and the replacing agree at every stage exactly if
nothing of this kind comes up (`Undisturbed`). They do where only one reference is in the text, and
where no name and no value holds a dollar sign and none stands in front of a reference.

Otherwise a value may be read as a reference in its turn, or as part of one, and then it matters
which of two references comes first (`expandText_reaches_values`).
-/

namespace ConceptAtlas.Environment

open List (IsPrefix IsInfix)

variable {env : Environment} {name m : List Char} {names : List (List Char)} {cs rest : List Char}
  {c : Char}

/-! ### References -/

/-- What can stand between the braces of a reference. -/
def IsName (name : List Char) : Prop := name ≠ [] ∧ '\x7d' ∉ name

theorem reference_append (name rest : List Char) :
    reference name ++ rest = '$' :: '\x7b' :: (name ++ '\x7d' :: rest) := by
  simp [reference]

theorem reference_prefix_cons_iff : IsPrefix (reference name) (c :: cs) ↔
    c = '$' ∧ ∃ rest, cs = '\x7b' :: (name ++ '\x7d' :: rest) := by
  constructor
  · rintro ⟨rest, h⟩
    rw [reference_append, List.cons.injEq] at h
    exact ⟨h.1.symm, rest, h.2.symm⟩
  · rintro ⟨rfl, rest, rfl⟩
    exact ⟨rest, reference_append name rest⟩

theorem takeWhile_of_not_mem (h : '\x7d' ∉ name) : name.takeWhile (· != '\x7d') = name :=
  List.takeWhile_eq_self_iff.2 fun _ hc ↦ bne_iff_ne.2 (ne_of_mem_of_not_mem hc h)

theorem takeWhile_append (h : '\x7d' ∉ name) (rest : List Char) :
    (name ++ '\x7d' :: rest).takeWhile (· != '\x7d') = name := by
  rw [List.takeWhile_append_of_pos fun _ hc ↦ bne_iff_ne.2 (ne_of_mem_of_not_mem hc h)]
  simp

/-- The name that is read is the one of the only reference that the text starts with. -/
theorem nameAtStart?_eq_some_iff :
    nameAtStart? cs = some name ↔ IsName name ∧ IsPrefix (reference name) cs := by
  constructor
  · intro h
    unfold nameAtStart? at h
    split at h
    · rename_i cs
      dsimp only at h
      by_cases hmem : '\x7d' ∈ cs
      · obtain ⟨m, rest, rfl, hm⟩ := List.eq_append_cons_of_mem hmem
        rw [takeWhile_append hm, Option.ite_none_right_eq_some, Option.some.injEq] at h
        obtain ⟨hname, rfl⟩ := h
        refine ⟨⟨?_, hm⟩, reference_prefix_cons_iff.2 ⟨rfl, rest, rfl⟩⟩
        rintro rfl
        exact Bool.false_ne_true hname
      · rw [takeWhile_of_not_mem hmem, if_neg] at h
        · cases h
        · simp
    · cases h
  · rintro ⟨⟨hne, hbrace⟩, rest, rfl⟩
    rw [reference_append, nameAtStart?, takeWhile_append hbrace, if_pos]
    simpa using hne

/-- A name ends at the first brace that closes it. -/
theorem IsName.eq_of_isPrefix (hname : IsName name) (hm : IsName m)
    (h : IsPrefix (reference name) (reference m ++ rest)) : name = m :=
  Option.some.inj ((nameAtStart?_eq_some_iff.2 ⟨hname, h⟩).symm.trans
    (nameAtStart?_eq_some_iff.2 ⟨hm, List.prefix_append _ rest⟩))

/-! ### Pieces -/

/-- A piece of a text: a character that stands for itself, or a reference to a variable. -/
inductive Piece
  | char (c : Char)
  | reference (name : List Char)
  deriving DecidableEq

namespace Piece

/-- A piece as it is written. -/
def text : Piece → List Char
  | char c => [c]
  | reference name => Environment.reference name

/-- The name of the variable that a piece refers to. -/
def name? : Piece → Option (List Char)
  | char _ => none
  | reference name => some name

/-- What one pass writes for a piece. -/
def value (env : Environment) : Piece → List Char
  | char c => [c]
  | reference name => env.valueOf name

/-- A piece with the value for it if it refers to a variable. -/
def put (env : Environment) (name : List Char) (p : Piece) : List Piece :=
  if p = reference name then (env.valueOf name).map char else [p]

end Piece

variable {p : Piece} {ps qs : List Piece}

/-- The text of some pieces. -/
def textOf (ps : List Piece) : List Char := ps.flatMap Piece.text

/-- The variables that the pieces refer to, from left to right. -/
def namesOf (ps : List Piece) : List (List Char) := ps.filterMap Piece.name?

/-- The text with the value of each variable in the place of the references to it, and all other
text kept. -/
def verbatim (env : Environment) (ps : List Piece) : List Char := ps.flatMap (Piece.value env)

/-- The pieces with the value of one variable in the place of the references to it. -/
def put (env : Environment) (ps : List Piece) (name : List Char) : List Piece :=
  ps.flatMap (Piece.put env name)

/-- A text cut from left to right: a reference where there is one, else a character. -/
inductive IsCut : List Char → List Piece → Prop
  | nil : IsCut [] []
  | reference {name rest : List Char} {ps : List Piece} (hname : IsName name) (h : IsCut rest ps) :
    IsCut (reference name ++ rest) (.reference name :: ps)
  | char {c : Char} {rest : List Char} {ps : List Piece}
    (hc : ∀ name, IsName name → ¬ IsPrefix (reference name) (c :: rest)) (h : IsCut rest ps) :
    IsCut (c :: rest) (.char c :: ps)

theorem textOf_cons : textOf (p :: ps) = p.text ++ textOf ps := List.flatMap_cons

theorem put_cons : env.put (p :: ps) name = p.put env name ++ env.put ps name := List.flatMap_cons

theorem textOf_append : textOf (ps ++ qs) = textOf ps ++ textOf qs := List.flatMap_append

theorem textOf_map_char (cs : List Char) : textOf (cs.map .char) = cs := by
  rw [textOf, List.flatMap_map]
  exact List.flatMap_singleton' cs

theorem IsCut.textOf_eq (h : IsCut cs ps) : textOf ps = cs := by
  induction h with
  | nil => rfl
  | reference hname h ih => rw [textOf_cons, ih, Piece.text]
  | char hc h ih => rw [textOf_cons, ih, Piece.text, List.singleton_append]

theorem exists_isCut (cs : List Char) : ∃ ps, IsCut cs ps ∧ namesOf ps = references cs := by
  fun_induction references cs with
  | case1 => exact ⟨[], .nil, rfl⟩
  | case2 c rest name hname ih =>
    obtain ⟨hname, rest', hrest⟩ := nameAtStart?_eq_some_iff.1 hname
    have hdrop : rest.drop (name.length + 2) = rest' := by
      have := congrArg (List.drop (name.length + 3)) hrest
      rw [List.drop_succ_cons] at this
      rw [← this, List.drop_left' (by simp [Environment.reference])]
    rw [hdrop] at ih
    obtain ⟨ps, hps, hnames⟩ := ih
    refine ⟨.reference name :: ps, hrest ▸ .reference hname hps, ?_⟩
    rw [hdrop, ← hnames]
    rfl
  | case3 c rest hname ih =>
    obtain ⟨ps, hps, hnames⟩ := ih
    refine ⟨.char c :: ps, .char (fun name h₁ h₂ ↦ ?_) hps, hnames⟩
    rw [nameAtStart?_eq_some_iff.2 ⟨h₁, h₂⟩] at hname
    cases hname

/-- A text is cut in one way only. -/
theorem IsCut.unique (h : IsCut cs ps) (h' : IsCut cs qs) : qs = ps := by
  induction h generalizing qs with
  | nil => cases h' with
    | nil => rfl
  | @reference name rest ps hname h ih =>
    generalize hcs : Environment.reference name ++ rest = cs at h'
    cases h' with
    | nil => exact absurd hcs (by simp [Environment.reference])
    | @reference m rest' qs hm h' =>
      obtain rfl := hm.eq_of_isPrefix hname (hcs ▸ List.prefix_append _ rest')
      obtain rfl := List.append_cancel_left hcs
      rw [ih h']
    | char hc h' => exact absurd (hcs ▸ List.prefix_append _ rest) (hc name hname)
  | @char c rest ps hc h ih =>
    generalize hcs : c :: rest = cs at h'
    cases h' with
    | nil => cases hcs
    | reference hm h' => exact absurd (hcs ▸ List.prefix_append _ _) (hc _ hm)
    | char hc' h' =>
      obtain ⟨rfl, rfl⟩ := List.cons.inj hcs
      rw [ih h']

/-! ### One name after the other -/

theorem namesOf_cons : namesOf (p :: ps) = p.name?.toList ++ namesOf ps := by
  cases p <;> rfl

theorem namesOf_append : namesOf (ps ++ qs) = namesOf ps ++ namesOf qs := List.filterMap_append

theorem namesOf_map_char (cs : List Char) : namesOf (cs.map .char) = [] := by
  simp [namesOf, Piece.name?]

theorem verbatim_cons : env.verbatim (p :: ps) = p.value env ++ env.verbatim ps :=
  List.flatMap_cons

theorem verbatim_append : env.verbatim (ps ++ qs) = env.verbatim ps ++ env.verbatim qs :=
  List.flatMap_append

theorem verbatim_map_char (cs : List Char) : env.verbatim (cs.map .char) = cs := by
  rw [verbatim, List.flatMap_map]
  exact List.flatMap_singleton' cs

theorem IsCut.isName (h : IsCut cs ps) (hname : name ∈ namesOf ps) : IsName name := by
  induction h with
  | nil => cases hname
  | reference hm h ih =>
    rcases List.mem_cons.1 hname with rfl | hname
    · exact hm
    · exact ih hname
  | char hc h ih => exact ih hname

theorem put_reference (name : List Char) (ps : List Piece) : env.put (.reference name :: ps) name =
    (env.valueOf name).map .char ++ env.put ps name := by
  rw [put_cons, Piece.put, if_pos rfl]

theorem put_of_ne (hp : p ≠ .reference name) : env.put (p :: ps) name = p :: env.put ps name := by
  rw [put_cons, Piece.put, if_neg hp, List.singleton_append]

theorem put_char (c : Char) (ps : List Piece) (name : List Char) :
    env.put (.char c :: ps) name = .char c :: env.put ps name := put_of_ne Piece.noConfusion

/-- For one variable there are two kinds of pieces: references to it, and all others. -/
theorem pieces_induction {motive : List Piece → Prop} (name : List Char) (nil : motive [])
    (here : ∀ ps, motive ps → motive (.reference name :: ps))
    (other : ∀ p ps, p ≠ .reference name → motive ps → motive (p :: ps)) (ps : List Piece) :
    motive ps := by
  induction ps with
  | nil => exact nil
  | cons p ps ih =>
    by_cases hp : p = .reference name
    · exact hp ▸ here ps ih
    · exact other p ps hp ih

theorem namesOf_put : namesOf (env.put ps name) = (namesOf ps).filter (· ≠ name) := by
  induction ps using pieces_induction name with
  | nil => rfl
  | here ps ih =>
    rw [put_reference, namesOf_append, namesOf_map_char, List.nil_append, ih, namesOf_cons]
    simp [Piece.name?]
  | other p ps hp ih =>
    rw [put_of_ne hp, namesOf_cons, ih, namesOf_cons, List.filter_append]
    cases p with
    | char c => rfl
    | reference m =>
      have hm : m ≠ name := fun hm ↦ hp (hm ▸ rfl)
      simp [Piece.name?, hm]

/-- One pass writes the same whether some of the values are there already or not. -/
theorem verbatim_put : env.verbatim (env.put ps name) = env.verbatim ps := by
  induction ps using pieces_induction name with
  | nil => rfl
  | here ps ih =>
    rw [put_reference, verbatim_append, verbatim_map_char, ih, verbatim_cons, Piece.value]
  | other p ps hp ih => rw [put_of_ne hp, verbatim_cons, ih, verbatim_cons]

/-- After all names no reference is left. -/
theorem namesOf_foldl_put (names : List (List Char)) (ps : List Piece) :
    namesOf (names.foldl env.put ps) = (namesOf ps).filter (· ∉ names) := by
  induction names generalizing ps with
  | nil => simp
  | cons name names ih =>
    rw [List.foldl_cons, ih, namesOf_put, List.filter_filter]
    refine List.filter_congr fun m hm ↦ ?_
    simp [Bool.and_comm]

theorem verbatim_foldl_put (names : List (List Char)) (ps : List Piece) :
    env.verbatim (names.foldl env.put ps) = env.verbatim ps := by
  induction names generalizing ps with
  | nil => rfl
  | cons name names ih => rw [List.foldl_cons, ih, verbatim_put]

theorem verbatim_of_namesOf_eq_nil (h : namesOf ps = []) : env.verbatim ps = textOf ps := by
  induction ps with
  | nil => rfl
  | cons p ps ih =>
    cases p with
    | char c => rw [verbatim_cons, textOf_cons, ih h, Piece.value, Piece.text]
    | reference m => cases h

/-- With all values in their places the text is the one that one pass writes. -/
theorem textOf_foldl_put_namesOf (ps : List Piece) :
    textOf ((namesOf ps).foldl env.put ps) = env.verbatim ps := by
  rw [← verbatim_foldl_put (namesOf ps), verbatim_of_namesOf_eq_nil]
  rw [namesOf_foldl_put, List.filter_eq_nil_iff]
  simp

/-! ### One stage -/

/-- The texts between the references to one variable. -/
def between (name : List Char) : List Piece → List (List Char)
  | [] => [[]]
  | p :: ps =>
    if p = .reference name then [] :: between name ps
    else (between name ps).modifyHead (p.text ++ ·)

/-- No reference to a variable can be read between those that are there. -/
def InPlace (name : List Char) (ps : List Piece) : Prop :=
  ∀ part ∈ between name ps, ¬ IsInfix (reference name) part

theorem between_reference (name : List Char) (ps : List Piece) :
    between name (.reference name :: ps) = [] :: between name ps := by
  rw [between, if_pos rfl]

theorem between_of_ne (hp : p ≠ .reference name) :
    between name (p :: ps) = (between name ps).modifyHead (p.text ++ ·) := by
  rw [between, if_neg hp]

theorem exists_between_eq_cons (name : List Char) (ps : List Piece) :
    ∃ part parts, between name ps = part :: parts := by
  induction ps using pieces_induction name with
  | nil => exact ⟨[], [], rfl⟩
  | here ps ih => exact ⟨[], between name ps, between_reference name ps⟩
  | other p ps hp ih =>
    obtain ⟨part, parts, h⟩ := ih
    exact ⟨p.text ++ part, parts, by rw [between_of_ne hp, h, List.modifyHead_cons]⟩

theorem intercalate_between_reference (new name : List Char) (ps : List Piece) :
    new.intercalate (between name (.reference name :: ps)) =
      new ++ new.intercalate (between name ps) := by
  obtain ⟨part, parts, h⟩ := exists_between_eq_cons name ps
  rw [between_reference, h, List.intercalate_cons_cons, List.nil_append]

theorem intercalate_between_of_ne (hp : p ≠ .reference name) (new : List Char) :
    new.intercalate (between name (p :: ps)) = p.text ++ new.intercalate (between name ps) := by
  obtain ⟨part, parts, h⟩ := exists_between_eq_cons name ps
  rw [between_of_ne hp, h, List.modifyHead_cons]
  cases parts with
  | nil => rw [List.intercalate_singleton, List.intercalate_singleton]
  | cons next parts =>
    rw [List.intercalate_cons_cons, List.intercalate_cons_cons, List.append_assoc,
      List.append_assoc, List.append_assoc]

theorem intercalate_reference_between (name : List Char) (ps : List Piece) :
    (reference name).intercalate (between name ps) = textOf ps := by
  induction ps using pieces_induction name with
  | nil => rfl
  | here ps ih => rw [intercalate_between_reference, ih, textOf_cons, Piece.text]
  | other p ps hp ih => rw [intercalate_between_of_ne hp, ih, textOf_cons]

theorem intercalate_value_between (name : List Char) (ps : List Piece) :
    (env.valueOf name).intercalate (between name ps) = textOf (env.put ps name) := by
  induction ps using pieces_induction name with
  | nil => rfl
  | here ps ih =>
    rw [intercalate_between_reference, ih, put_reference, textOf_append, textOf_map_char]
  | other p ps hp ih => rw [intercalate_between_of_ne hp, ih, put_of_ne hp, textOf_cons]

/-- Replacing a name does what the pass would do exactly if no reference to it can be read anywhere
else, or if it makes no difference. -/
theorem replaceName_eq_iff (hname : IsName name) : env.replaceName (textOf ps) name =
    textOf (env.put ps name) ↔ env.valueOf name = reference name ∨ InPlace name ps := by
  have hbrace : '\x7d' ∉ ['$', '\x7b'] ++ name := by simpa using hname.2
  have := Text.replaceAll_intercalate_eq_iff hbrace (env.valueOf name) (between name ps)
  rwa [← reference, intercalate_reference_between, intercalate_value_between] at this

/-! ### All stages -/

/-- Whether no stage comes upon a reference that is none of the text's own, nor makes one. -/
def Undisturbed (env : Environment) : List (List Char) → List Piece → Prop
  | [], _ => True
  | name :: names, ps =>
    (env.valueOf name = reference name ∨ InPlace name ps) ∧ Undisturbed env names (env.put ps name)

theorem undisturbed_iff (env : Environment) (ps : List Piece)
    (hnames : ∀ name ∈ names, IsName name) : env.Undisturbed names ps ↔
      ∀ done rest, names = done ++ rest →
        done.foldl env.replaceName (textOf ps) = textOf (done.foldl env.put ps) := by
  induction names generalizing ps with
  | nil => simp [Undisturbed]
  | cons name names ih =>
    obtain ⟨hname, hnames⟩ := List.forall_mem_cons.1 hnames
    rw [Undisturbed, ih _ hnames, ← replaceName_eq_iff hname]
    constructor
    · rintro ⟨hfirst, hrest⟩ done rest h
      cases done with
      | nil => rfl
      | cons m done =>
        rw [List.cons_append, List.cons.injEq] at h
        obtain ⟨rfl, h⟩ := h
        rw [List.foldl_cons, hfirst, hrest done rest h, List.foldl_cons]
    · intro h
      have hfirst : env.replaceName (textOf ps) name = textOf (env.put ps name) :=
        h [name] names rfl
      refine ⟨hfirst, fun done rest hdone ↦ ?_⟩
      have hlater := h (name :: done) rest (hdone ▸ rfl)
      rwa [List.foldl_cons, List.foldl_cons, hfirst] at hlater

/-! ### Texts without surprises -/

/-- Something holds of every character that stands for itself and the pieces that come after it. -/
def AtChars (P : Char → List Piece → Prop) : List Piece → Prop
  | [] => True
  | .char c :: ps => P c ps ∧ AtChars P ps
  | .reference _ :: ps => AtChars P ps

/-- No reference to a variable can be read from a character on that stands for itself. -/
def CharsAlone (name : List Char) : List Piece → Prop :=
  AtChars fun c ps ↦ ¬ IsPrefix (reference name) (c :: textOf ps)

/-- Behind a dollar sign: no reference, and no opening brace either unless it is closed at once or
never. -/
def Dead : List Piece → Prop
  | [] => True
  | .char c :: ps => c = '\x7b' → ps.head? = some (.char '\x7d') ∨ '\x7d' ∉ textOf ps
  | .reference _ :: _ => False

/-- No dollar sign that stands for itself can come to open a reference. -/
def Calm : List Piece → Prop := AtChars fun c ps ↦ c = '$' → Dead ps

theorem AtChars.mono {P Q : Char → List Piece → Prop} (h : AtChars P ps)
    (hPQ : ∀ c rest, P c rest → Q c rest) : AtChars Q ps := by
  induction ps with
  | nil => trivial
  | cons p ps ih =>
    cases p with
    | char c => exact ⟨hPQ c ps h.1, ih h.2⟩
    | reference m => exact ih h

/-- What starts with a dollar sign is not found across a text without one. -/
theorem isInfix_of_append (h : '$' ∉ cs) (hfound : IsInfix (reference name) (cs ++ rest)) :
    IsInfix (reference name) rest := by
  induction cs with
  | nil => exact hfound
  | cons c cs ih =>
    obtain ⟨hc, hcs⟩ := not_or.1 (List.mem_cons.not.1 h)
    rw [List.cons_append, List.infix_cons_iff] at hfound
    rcases hfound with hstart | hfound
    · exact absurd (reference_prefix_cons_iff.1 hstart).1.symm hc
    · exact ih hcs hfound

theorem isPrefix_head_between (name : List Char) (ps : List Piece) {part : List Char}
    {parts : List (List Char)} (h : between name ps = part :: parts) :
    IsPrefix part (textOf ps) := by
  rw [← intercalate_reference_between name ps, h]
  cases parts with
  | nil => rw [List.intercalate_singleton]
  | cons next parts =>
    rw [List.intercalate_cons_cons, List.append_assoc]
    exact List.prefix_append _ _

/-- A piece in front leaves references in place if none can be read from within it on. -/
theorem InPlace.cons (h : InPlace name ps) (hp : p ≠ .reference name)
    (hwithin : ∀ part, IsPrefix part (textOf ps) → IsInfix (reference name) (p.text ++ part) →
      IsInfix (reference name) part) : InPlace name (p :: ps) := by
  obtain ⟨part, parts, hparts⟩ := exists_between_eq_cons name ps
  rw [InPlace, hparts, List.forall_mem_cons] at h
  rw [InPlace, between_of_ne hp, hparts, List.modifyHead_cons, List.forall_mem_cons]
  exact ⟨mt (hwithin part (isPrefix_head_between name ps hparts)) h.1, h.2⟩

theorem InPlace.cons_self (h : InPlace name ps) : InPlace name (.reference name :: ps) := by
  rw [InPlace, between_reference, List.forall_mem_cons]
  exact ⟨by simp [reference], h⟩

theorem InPlace.cons_char (h : InPlace name ps)
    (hc : ¬ IsPrefix (reference name) (c :: textOf ps)) : InPlace name (.char c :: ps) := by
  refine h.cons Piece.noConfusion fun part hpart hfound ↦ ?_
  rw [Piece.text, List.singleton_append, List.infix_cons_iff] at hfound
  refine hfound.resolve_left fun hstart ↦ hc (hstart.trans ?_)
  exact List.cons_prefix_cons.2 ⟨rfl, hpart⟩

theorem InPlace.cons_of_ne (h : InPlace name ps) (hname : IsName name) (hm : IsName m)
    (hdollar : '$' ∉ m) (hne : m ≠ name) : InPlace name (.reference m :: ps) := by
  refine h.cons (fun heq ↦ hne (Piece.reference.inj heq)) fun part _ hfound ↦ ?_
  rw [Piece.text, reference_append, List.infix_cons_iff, ← reference_append] at hfound
  rcases hfound with hstart | hfound
  · exact absurd (hname.eq_of_isPrefix hm hstart).symm hne
  · have hinner : '$' ∉ '\x7b' :: (m ++ ['\x7d']) := by simp [hdollar]
    refine isInfix_of_append hinner ?_
    simpa using hfound

/-- References are in place if none can be read from a character on, and the other variables have
names without a dollar sign. -/
theorem inPlace_of_charsAlone (hname : IsName name) (hps : CharsAlone name ps)
    (hother : ∀ m ∈ namesOf ps, m ≠ name → IsName m ∧ '$' ∉ m) : InPlace name ps := by
  induction ps with
  | nil => simp [InPlace, between, reference]
  | cons p ps ih =>
    rw [namesOf_cons, List.forall_mem_append] at hother
    cases p with
    | char c => exact (ih hps.2 hother.2).cons_char hps.1
    | reference m =>
      have hrest := ih hps hother.2
      by_cases hne : m = name
      · exact hne ▸ hrest.cons_self
      · obtain ⟨hm, hdollar⟩ := hother.1 m (List.mem_singleton_self m) hne
        exact hrest.cons_of_ne hname hm hdollar hne

/-- In a text as it is cut no reference can be read from a character on. -/
theorem IsCut.charsAlone (h : IsCut cs ps) (hname : IsName name) : CharsAlone name ps := by
  induction h with
  | nil => trivial
  | reference hm h ih => exact ih
  | char hc h ih =>
    have hstart := hc name hname
    rw [← h.textOf_eq] at hstart
    exact ⟨hstart, ih⟩

/-- A single reference is replaced by the value, whatever that is. -/
theorem undisturbed_of_namesOf_eq_singleton (h : IsCut cs ps) (hnames : namesOf ps = [name]) :
    env.Undisturbed (namesOf ps) ps := by
  have hname : IsName name := h.isName (hnames ▸ List.mem_singleton_self name)
  rw [hnames]
  refine ⟨.inr (inPlace_of_charsAlone hname (h.charsAlone hname) fun m hm hne ↦ ?_), trivial⟩
  rw [hnames] at hm
  exact absurd (List.mem_singleton.1 hm) hne

/-! ### Dollar signs -/

theorem Calm.charsAlone (h : Calm ps) (hname : IsName name) : CharsAlone name ps := by
  refine AtChars.mono h fun c rest hdead hstart ↦ ?_
  obtain ⟨hc, tail, htail⟩ := reference_prefix_cons_iff.1 hstart
  match rest, hdead hc with
  | [], _ => cases htail
  | .char d :: rest, hclosed =>
    rw [textOf_cons, Piece.text, List.singleton_append, List.cons.injEq] at htail
    obtain ⟨rfl, hrest⟩ := htail
    rcases hclosed rfl with hhead | hbrace
    · obtain ⟨rest, rfl⟩ := List.head?_eq_some_iff.1 hhead
      obtain ⟨e, name, rfl⟩ := List.exists_cons_of_ne_nil hname.1
      rw [textOf_cons, Piece.text, List.singleton_append, List.cons_append,
        List.cons.injEq] at hrest
      exact hname.2 (hrest.1 ▸ List.mem_cons_self)
    · exact hbrace (hrest ▸ List.mem_append_right _ List.mem_cons_self)

/-- Pieces that hold no closing brace hold no reference. -/
theorem put_of_not_mem (h : '\x7d' ∉ textOf ps) : env.put ps name = ps := by
  induction ps with
  | nil => rfl
  | cons p ps ih =>
    rw [textOf_cons, List.mem_append, not_or] at h
    rw [put_of_ne, ih h.2]
    rintro rfl
    exact h.1 (by simp [Piece.text, reference])

theorem Dead.put (h : Dead ps) : Dead (env.put ps name) := by
  match ps, h with
  | [], _ => trivial
  | .char c :: ps, h =>
    rw [put_char]
    refine fun hc ↦ (h hc).imp (fun hhead ↦ ?_) fun hbrace ↦ ?_
    · obtain ⟨rest, rfl⟩ := List.head?_eq_some_iff.1 hhead
      rw [put_char, List.head?_cons]
    · rwa [put_of_not_mem hbrace]

theorem calm_map_char_append (h : '$' ∉ cs) (hps : Calm ps) : Calm (cs.map .char ++ ps) := by
  induction cs with
  | nil => exact hps
  | cons c cs ih =>
    obtain ⟨hc, hcs⟩ := not_or.1 (List.mem_cons.not.1 h)
    exact ⟨fun heq ↦ absurd heq.symm hc, ih hcs⟩

theorem Calm.put (h : Calm ps) (hvalue : '$' ∉ env.valueOf name) : Calm (env.put ps name) := by
  induction ps using pieces_induction name with
  | nil => trivial
  | here ps ih =>
    rw [put_reference]
    exact calm_map_char_append hvalue (ih h)
  | other p ps hp ih =>
    rw [put_of_ne hp]
    cases p with
    | char c => exact ⟨fun hc ↦ (h.1 hc).put, ih h.2⟩
    | reference m => exact ih h

/-- Neither the names in a text nor their values hold a dollar sign, and no reference stands behind
one. -/
structure Plain (env : Environment) (ps : List Piece) : Prop where
  names : ∀ name ∈ namesOf ps, '$' ∉ name
  values : ∀ name ∈ namesOf ps, '$' ∉ env.valueOf name
  apart : ∀ name, ¬ IsInfix [.char '$', .reference name] ps

theorem head?_eq_of_textOf (h : textOf ps = '\x7d' :: rest) : ps.head? = some (.char '\x7d') := by
  match ps, h with
  | .char c :: ps, h => rw [(List.cons.inj h).1, List.head?_cons]
  | .reference m :: ps, h => cases (List.cons.inj h).1

/-- A dollar sign that opens no reference in a text does not come to open one. -/
theorem calm_of_isCut (h : IsCut cs ps)
    (hapart : ∀ name, ¬ IsInfix [.char '$', .reference name] ps) : Calm ps := by
  induction h with
  | nil => trivial
  | reference hm h ih => exact ih fun name hfound ↦ hapart name (List.infix_cons hfound)
  | @char c rest ps hc h ih =>
    refine ⟨?_, ih fun name hfound ↦ hapart name (List.infix_cons hfound)⟩
    rintro rfl
    match ps, h with
    | [], _ => trivial
    | .reference m :: qs, h =>
      exact absurd (List.prefix_append [.char '$', .reference m] qs).isInfix (hapart m)
    | .char d :: qs, h =>
      rintro rfl
      by_contra hopen
      obtain ⟨hhead, hbrace⟩ := not_or.1 hopen
      obtain ⟨name, tail, htail, hname⟩ := List.eq_append_cons_of_mem (not_not.1 hbrace)
      refine hc name ⟨?_, hname⟩ (reference_prefix_cons_iff.2 ⟨rfl, tail, ?_⟩)
      · rintro rfl
        exact hhead (head?_eq_of_textOf htail)
      · rw [← h.textOf_eq, textOf_cons, htail]
        rfl

theorem undisturbed_of_calm (hps : Calm ps) (hnames : ∀ name ∈ names, IsName name)
    (hvalues : ∀ name ∈ names, '$' ∉ env.valueOf name)
    (hother : ∀ m ∈ namesOf ps, IsName m ∧ '$' ∉ m) : env.Undisturbed names ps := by
  induction names generalizing ps with
  | nil => trivial
  | cons name names ih =>
    obtain ⟨hname, hnames⟩ := List.forall_mem_cons.1 hnames
    obtain ⟨hvalue, hvalues⟩ := List.forall_mem_cons.1 hvalues
    refine ⟨.inr (inPlace_of_charsAlone hname (hps.charsAlone hname) fun m hm _ ↦ hother m hm),
      ih (hps.put hvalue) hnames hvalues fun m hm ↦ ?_⟩
    rw [namesOf_put] at hm
    exact hother m (List.mem_of_mem_filter hm)

theorem Plain.undisturbed (h : env.Plain ps) (hcut : IsCut cs ps) :
    env.Undisturbed (namesOf ps) ps :=
  undisturbed_of_calm (calm_of_isCut hcut h.apart) (fun _ ↦ hcut.isName) h.values
    fun m hm ↦ ⟨hcut.isName hm, h.names m hm⟩

/-! ### Values -/

/-- A value that replacing has nothing to do with: no text, list or mapping, and no mark of one that
stands inside itself. -/
def IsLeaf : Value → Prop
  | .str _ | .list _ | .map _ | .again _ => False
  | _ => True

/-- Two values are the same but for their texts, which are related one by one. The keys of mappings
and the order of everything are the same, and so are all other leaves. -/
inductive MapsTexts (r : String → String → Prop) : Value → Value → Prop
  | text {s t : String} (h : r s t) : MapsTexts r (.str s) (.str t)
  | list {vs ws : List Value} (h : List.Forall₂ (MapsTexts r) vs ws) :
    MapsTexts r (.list vs) (.list ws)
  | map {es fs : List (Value × Value)} (keys : fs.map Prod.fst = es.map Prod.fst)
    (h : List.Forall₂ (MapsTexts r) (es.map Prod.snd) (fs.map Prod.snd)) :
    MapsTexts r (.map es) (.map fs)
  | leaf {v : Value} (hv : IsLeaf v) : MapsTexts r v v

section Values

variable {r : String → String → Prop}

theorem keys_expandEntries (es : List (Value × Value)) :
    (env.expandEntries es).map Prod.fst = es.map Prod.fst := by
  induction es with
  | nil => rfl
  | cons e es ih => rw [expandEntries, List.map_cons, ih, List.map_cons]

mutual

theorem mapsTexts_expand_of (hr : ∀ s, r s (env.expandText s)) (v : Value)
    (hv : isEndless v = false) : MapsTexts r v (env.expand v) := by
  match v, hv with
  | .str s, _ => exact .text (hr s)
  | .list vs, hv => exact .list (mapsTexts_expandItems hr vs hv)
  | .map es, hv => exact .map (keys_expandEntries es) (mapsTexts_expandEntries hr es hv)
  | .null, _ => exact .leaf trivial
  | .bool _, _ => exact .leaf trivial
  | .int _, _ => exact .leaf trivial
  | .float _, _ => exact .leaf trivial
  | .date _, _ => exact .leaf trivial
  | .moment _, _ => exact .leaf trivial
  | .bytes _, _ => exact .leaf trivial
  | .pair _ _, _ => exact .leaf trivial
  | .set _, _ => exact .leaf trivial

theorem mapsTexts_expandItems (hr : ∀ s, r s (env.expandText s)) (vs : List Value)
    (hvs : anyEndless vs = false) : List.Forall₂ (MapsTexts r) vs (env.expandItems vs) := by
  match vs, hvs with
  | [], _ => exact .nil
  | v :: vs, hvs =>
    rw [anyEndless, Bool.or_eq_false_iff] at hvs
    exact .cons (mapsTexts_expand_of hr v hvs.1) (mapsTexts_expandItems hr vs hvs.2)

theorem mapsTexts_expandEntries (hr : ∀ s, r s (env.expandText s)) (es : List (Value × Value))
    (hes : anyEntryEndless es = false) :
    List.Forall₂ (MapsTexts r) (es.map Prod.snd) ((env.expandEntries es).map Prod.snd) := by
  match es, hes with
  | [], _ => exact .nil
  | (k, v) :: es, hes =>
    rw [anyEntryEndless, Bool.or_eq_false_iff] at hes
    exact .cons (mapsTexts_expand_of hr v hes.1) (mapsTexts_expandEntries hr es hes.2)

end

end Values

/-! ### What becomes of a text -/

/-- How a text is made of another one, that consists of some pieces. -/
structure Expands (env : Environment) (ps : List Piece) (s t : String) : Prop where
  /-- The pieces are what the text is cut into, and it cannot be cut in another way. -/
  cut : ∀ qs, IsCut s.toList qs ↔ qs = ps
  /-- Name after name is replaced, from left to right and wherever it can be read by then. -/
  run : t.toList = (namesOf ps).foldl env.replaceName s.toList
  /-- All stages are what the pass has done so far exactly if nothing disturbs them. -/
  stages : env.Undisturbed (namesOf ps) ps ↔ ∀ done rest, namesOf ps = done ++ rest →
    done.foldl env.replaceName s.toList = textOf (done.foldl env.put ps)
  /-- Then the result has the values in the places of the references, and all else as it was. -/
  verbatim : env.Undisturbed (namesOf ps) ps → t.toList = env.verbatim ps
  /-- Nothing disturbs a single reference, whatever the value is. -/
  single : (namesOf ps).length ≤ 1 → env.Undisturbed (namesOf ps) ps
  /-- Nor is anything disturbed without dollar signs in names, in values and before references. -/
  plain : env.Plain ps → env.Undisturbed (namesOf ps) ps

theorem exists_expands (env : Environment) (s : String) :
    ∃ ps, env.Expands ps s (env.expandText s) := by
  obtain ⟨ps, hcut, hnames⟩ := exists_isCut s.toList
  have hname : ∀ name ∈ namesOf ps, IsName name := fun _ ↦ hcut.isName
  have hstages := undisturbed_iff env ps hname
  have hrun : (env.expandText s).toList = (namesOf ps).foldl env.replaceName s.toList := by
    rw [expandText, String.toList_ofList, hnames]
  rw [hcut.textOf_eq] at hstages
  refine ⟨ps, fun qs ↦ ⟨hcut.unique, fun h ↦ h ▸ hcut⟩, hrun, hstages, fun h ↦ ?_, fun h ↦ ?_,
    fun h ↦ h.undisturbed hcut⟩
  · rw [hrun, hstages.1 h (namesOf ps) [] (List.append_nil _).symm, textOf_foldl_put_namesOf]
  · rcases Nat.le_one_iff_eq_zero_or_eq_one.1 h with hnone | hone
    · rw [List.length_eq_zero_iff.1 hnone]
      trivial
    · obtain ⟨name, hname⟩ := List.length_eq_one_iff.1 hone
      exact undisturbed_of_namesOf_eq_singleton hcut hname

/-- **Values are put in verbatim** where nothing disturbs it: in every text of a value, and in
nothing but its texts. -/
theorem expand_mapsTexts (env : Environment) (v : Value) (hv : isEndless v = false) :
    MapsTexts (fun s t ↦ ∃ ps, env.Expands ps s t) v (env.expand v) :=
  mapsTexts_expand_of (exists_expands env) v hv

/-- The key and the number stay, and the unset variable is replaced by nothing. -/
theorem expand_mapsTexts_settings :
    let env : Environment := [("HOST", "local"), ("PORT", "$\x7bHOST\x7d")]
    let v : Value := .map [(.str "$\x7bHOST\x7d", .list [.str "on $\x7bPORT\x7d!", .int 7]),
      (.str "note", .str "<$\x7bUNSET\x7d>")]
    isEndless v = false ∧ MapsTexts (fun s t ↦ ∃ ps, env.Expands ps s t) v
      (.map [(.str "$\x7bHOST\x7d", .list [.str "on $\x7bHOST\x7d!", .int 7]),
        (.str "note", .str "<>")]) := by
  intro env v
  have hexpand : env.expand v = .map [(.str "$\x7bHOST\x7d",
      .list [.str "on $\x7bHOST\x7d!", .int 7]), (.str "note", .str "<>")] := by cbv
  have hmaps := expand_mapsTexts env v rfl
  rw [hexpand] at hmaps
  exact ⟨rfl, hmaps⟩

/-- A value that reads as a reference is replaced in its turn if the reference to its variable comes
first, and stays if it comes last. -/
theorem expandText_reaches_values :
    let env : Environment := [("A", "$\x7bB\x7d"), ("B", "x")]
    let ps : List Piece := [.reference ['A'], .reference ['B']]
    IsCut "$\x7bA\x7d$\x7bB\x7d".toList ps ∧ env.verbatim ps = "$\x7bB\x7dx".toList ∧
      env.expandText "$\x7bA\x7d$\x7bB\x7d" = "xx" ∧
      env.expandText "$\x7bB\x7d$\x7bA\x7d" = "x$\x7bB\x7d" := by
  intro env ps
  have hname : ∀ c : Char, c ≠ '\x7d' → IsName [c] := fun c hc ↦
    ⟨List.cons_ne_nil c [], fun hmem ↦ hc (List.mem_singleton.1 hmem).symm⟩
  refine ⟨?_, by cbv, by cbv, by cbv⟩
  exact .reference (hname 'A' (by decide)) (.reference (hname 'B' (by decide)) .nil)

end ConceptAtlas.Environment
