import Mathlib.Data.List.TakeWhile
import ConceptAtlas.Json.Parser
import ConceptAtlas.Json.Printer

/-!
# Words

The values that stand in a JSON text without quotes or brackets: the names and the numbers. What
reads a word goes as far as the word goes, so what is written behind it makes no difference as long
as it cannot be part of a word (`word_append`). In a text that was written behind a value there is
nothing, a comma, or a new line (`Ends`).

With that, a word only has to be read where it stands alone. For integers this is the digits of a
number and their value (`word_int`); for doubles it is the question whether the digits that were
written are those of the double, which is not answered here.
-/

namespace ConceptAtlas.Json

/-! ### What follows a word -/

/-- A text that can follow a value: nothing, or it starts with a comma or a new line. -/
def Ends (rest : List Char) : Prop := ∀ c ∈ rest.head?, c = ',' ∨ c = '\n'

variable {rest : List Char}

theorem ends_nil : Ends [] := nofun

theorem ends_comma (cs : List Char) : Ends (',' :: cs) := by simp [Ends]

theorem ends_newline (cs : List Char) : Ends ('\n' :: cs) := by simp [Ends]

theorem Ends.not_isDigit (h : Ends rest) : ∀ c ∈ rest.head?, c.isDigit = false := by
  intro c hc
  rcases h c hc with rfl | rfl <;> rfl

/-- What cannot follow a value is not brought to the start of a text by what follows. -/
theorem Ends.head?_append_ne (h : Ends rest) {c : Char} (hcomma : c ≠ ',') (hnewline : c ≠ '\n')
    {cs : List Char} (hcs : cs.head? ≠ some c) : (cs ++ rest).head? ≠ some c := by
  cases cs with
  | nil =>
    intro hrest
    rcases h c hrest with e | e
    · exact hcomma e
    · exact hnewline e
  | cons d ds => exact hcs

theorem takeWhile_append_of_head? {p : Char → Bool} (h : ∀ c ∈ rest.head?, p c = false)
    (cs : List Char) : (cs ++ rest).takeWhile p = cs.takeWhile p := by
  induction cs with
  | nil => cases rest <;> simp_all
  | cons c cs ih => cases hc : p c <;> simp [hc, ih]

theorem dropWhile_append_of_head? {p : Char → Bool} (h : ∀ c ∈ rest.head?, p c = false)
    (cs : List Char) : (cs ++ rest).dropWhile p = cs.dropWhile p ++ rest := by
  induction cs with
  | nil => cases rest <;> simp_all
  | cons c cs ih => cases hc : p c <;> simp [hc, ih]

/-! ### Numbers -/

theorem wholePart_of_ne {cs : List Char} (h : cs.head? ≠ some '0') :
    wholePart cs = (cs.takeWhile Char.isDigit, cs.dropWhile Char.isDigit) := by
  rw [wholePart]
  rintro ds rfl
  exact h rfl

theorem wholePart_append (h : Ends rest) (cs : List Char) :
    wholePart (cs ++ rest) = ((wholePart cs).1, (wholePart cs).2 ++ rest) := by
  by_cases h₀ : cs.head? = some '0'
  · obtain ⟨ds, rfl⟩ := List.head?_eq_some_iff.1 h₀
    rfl
  · have h₁ := h.head?_append_ne (by decide : '0' ≠ ',') (by decide) h₀
    rw [wholePart_of_ne h₀, wholePart_of_ne h₁, takeWhile_append_of_head? h.not_isDigit,
      dropWhile_append_of_head? h.not_isDigit]

theorem fraction_of_ne {cs : List Char} (h : cs.head? ≠ some '.') : fraction cs = ([], cs) := by
  rw [fraction]
  rintro ds rfl
  exact h rfl

theorem fraction_append (h : Ends rest) (cs : List Char) :
    fraction (cs ++ rest) = ((fraction cs).1, (fraction cs).2 ++ rest) := by
  by_cases h₀ : cs.head? = some '.'
  · obtain ⟨ds, rfl⟩ := List.head?_eq_some_iff.1 h₀
    simp only [List.cons_append, fraction, takeWhile_append_of_head? h.not_isDigit,
      dropWhile_append_of_head? h.not_isDigit]
    split <;> rfl
  · have h₁ := h.head?_append_ne (by decide : '.' ≠ ',') (by decide) h₀
    rw [fraction_of_ne h₀, fraction_of_ne h₁]

theorem exponentSign_append (h : Ends rest) (cs : List Char) :
    exponentSign (cs ++ rest) = ((exponentSign cs).1, (exponentSign cs).2 ++ rest) := by
  cases cs with
  | nil =>
    rw [List.nil_append, exponentSign]
    · rfl
    · rintro ds rfl
      rcases h '-' rfl with e | e <;> nomatch e
    · rintro ds rfl
      rcases h '+' rfl with e | e <;> nomatch e
  | cons c cs =>
    rw [List.cons_append]
    unfold exponentSign
    split <;> simp_all

theorem exponent?_append (h : Ends rest) (cs : List Char) :
    exponent? (cs ++ rest) = (exponent? cs).map fun r ↦ (r.1, r.2 ++ rest) := by
  cases cs with
  | nil =>
    cases rest with
    | nil => rfl
    | cons c cs => rcases h c rfl with rfl | rfl <;> rfl
  | cons c cs =>
    simp only [List.cons_append, exponent?, exponentSign_append h,
      takeWhile_append_of_head? h.not_isDigit, dropWhile_append_of_head? h.not_isDigit]
    split
    · split <;> rfl
    · rfl

/-- What was read at the start of a text, with more text behind it. -/
def behind (rest : List Char) (r : Json × List Char) : Json × List Char := (r.1, r.2 ++ rest)

theorem unsignedNumber_append (h : Ends rest) (limit : Option Nat) (negative : Bool)
    (cs : List Char) :
    unsignedNumber limit negative (cs ++ rest) =
      (unsignedNumber limit negative cs).map (behind rest) := by
  simp only [unsignedNumber, wholePart_append h, fraction_append h, exponent?_append h]
  split
  · rfl
  · cases exponent? (fraction (wholePart cs).2).2 with
    | some r => rfl
    | none =>
      simp only [Option.map_none]
      split
      · split <;> rfl
      · rfl

/-! ### Names -/

theorem dropStart?_append (h : Ends rest) {start : List Char} (hcomma : ',' ∉ start)
    (hnewline : '\n' ∉ start) (cs : List Char) :
    dropStart? start (cs ++ rest) = (dropStart? start cs).map (· ++ rest) := by
  induction start generalizing cs with
  | nil => simp [dropStart?]
  | cons a start ih =>
    cases cs with
    | nil =>
      cases rest with
      | nil => rfl
      | cons c rest =>
        have hne : a ≠ c := by
          rintro rfl
          rcases h a rfl with rfl | rfl
          · exact hcomma List.mem_cons_self
          · exact hnewline List.mem_cons_self
        simp [dropStart?, hne]
    | cons c cs =>
      rw [List.cons_append, dropStart?, dropStart?,
        ih (fun hm ↦ hcomma (List.mem_cons_of_mem a hm))
          (fun hm ↦ hnewline (List.mem_cons_of_mem a hm))]
      split <;> rfl

theorem named?_append (h : Ends rest) (cs : List Char) :
    named? (cs ++ rest) = (named? cs).map (behind rest) := by
  have hnames : ∀ n ∈ names, ',' ∉ n.1 ∧ '\n' ∉ n.1 := by
    simp only [names, List.forall_mem_cons]
    decide
  rw [named?, named?]
  -- All that matters of the names is that what follows a value is in none of them.
  generalize names = ns at hnames
  induction ns with
  | nil => rfl
  | cons n ns ih =>
    obtain ⟨hcomma, hnewline⟩ := hnames n List.mem_cons_self
    rw [List.findSome?_cons, List.findSome?_cons, dropStart?_append h hcomma hnewline]
    cases dropStart? n.1 cs with
    | some r => rfl
    | none => exact ih fun m hm ↦ hnames m (List.mem_cons_of_mem n hm)

theorem number_of_ne (limit : Option Nat) {cs : List Char} (h : cs.head? ≠ some '-') :
    number limit cs = unsignedNumber limit false cs := by
  rw [number]
  rintro ds rfl
  exact h rfl

theorem number_append (h : Ends rest) (limit : Option Nat) (cs : List Char) :
    number limit (cs ++ rest) = (number limit cs).map (behind rest) := by
  by_cases h₀ : cs.head? = some '-'
  · obtain ⟨ds, rfl⟩ := List.head?_eq_some_iff.1 h₀
    simp only [List.cons_append, number]
    rw [dropStart?_append h (by decide) (by decide), unsignedNumber_append h]
    cases dropStart? "Infinity".toList ds <;> rfl
  · have h₁ := h.head?_append_ne (by decide : '-' ≠ ',') (by decide) h₀
    rw [number_of_ne limit h₀, number_of_ne limit h₁, unsignedNumber_append h]

/-- **A word ends where it ends**, whatever follows a value. -/
theorem word_append (h : Ends rest) (limit : Option Nat) (cs : List Char) :
    word limit (cs ++ rest) = (word limit cs).map (behind rest) := by
  rw [word, word, named?_append h, number_append h]
  cases named? cs <;> rfl

/-! ### Integers -/

/-- The digits of a positive number do not start with a zero. -/
theorem head?_toDigits {n : Nat} (h : 0 < n) : (Nat.toDigits 10 n).head? ≠ some '0' := by
  induction n using Nat.strongRecOn with
  | ind n ih =>
    by_cases hlt : n < 10
    · rw [Nat.toDigits_of_lt_base hlt]
      have hsmall : ∀ k < 10, 0 < k → some (Nat.digitChar k) ≠ some '0' := by decide
      exact hsmall n hlt h
    · -- The first digit of `n` is the first digit of `n / 10`, which is positive as well.
      have hle : 10 ≤ n := Nat.le_of_not_lt hlt
      have hdiv : 0 < n / 10 := Nat.div_pos hle (by decide)
      have hhead := ih (n / 10) (Nat.div_lt_self h (by decide)) hdiv
      rw [Nat.toDigits_of_base_le (by decide) hle]
      cases hds : Nat.toDigits 10 (n / 10) with
      | nil => exact absurd hds Nat.toDigits_ne_nil
      | cons c cs =>
        rw [hds] at hhead
        exact hhead

theorem wholePart_toDigits (n : Nat) : wholePart (Nat.toDigits 10 n) = (Nat.toDigits 10 n, []) := by
  rcases Nat.eq_zero_or_pos n with rfl | h
  · rfl
  · have hall : ∀ c ∈ Nat.toDigits 10 n, c.isDigit = true := fun c hc ↦
      Nat.isDigit_of_mem_toDigits (by decide) (by decide) hc
    rw [wholePart_of_ne (head?_toDigits h), List.takeWhile_eq_self_iff.2 hall,
      List.dropWhile_eq_nil_iff.2 hall]

theorem digitsValue_toDigits (n : Nat) : digitsValue (Nat.toDigits 10 n) = n := by
  rw [digitsValue, ← Nat.ofDigitChars_eq_foldl, Nat.ofDigitChars_ten_toDigits]

theorem unsignedNumber_toDigits {limit : Option Nat} {n : Nat} (negative : Bool)
    (h : fits limit (Nat.toDigits 10 n).length = true) :
    unsignedNumber limit negative (Nat.toDigits 10 n) =
      .ok (.int (if negative then -(n : Int) else n), []) := by
  have hne : (Nat.toDigits 10 n).isEmpty = false := by simp
  simp only [unsignedNumber, wholePart_toDigits, hne, digitsValue_toDigits]
  simp [fraction, exponent?, h]

/-- The text of an integer: a minus if it is negative, and its digits. -/
theorem toList_toString (n : Int) : (toString n).toList =
    if n < 0 then '-' :: Nat.toDigits 10 n.natAbs else Nat.toDigits 10 n.natAbs := by
  rw [Int.toString_eq_repr, Int.repr_eq_if]
  by_cases h : n < 0
  · have hneg : ¬ 0 ≤ n := by omega
    have habs : (-n).toNat = n.natAbs := by omega
    rw [if_pos h, if_neg hneg, habs, String.toList_append, Nat.toList_repr]
    rfl
  · have hpos : 0 ≤ n := by omega
    have habs : n.toNat = n.natAbs := by omega
    rw [if_neg h, if_pos hpos, habs, Nat.toList_repr]

theorem head?_toDigits_isDigit {n : Nat} {c : Char} (h : c ∈ (Nat.toDigits 10 n).head?) :
    c.isDigit = true :=
  Nat.isDigit_of_mem_toDigits (by decide) (by decide) (List.mem_of_mem_head? h)

theorem dropStart?_eq_none_of_head? {a : Char} {start cs : List Char}
    (h : ∀ c ∈ cs.head?, c ≠ a) : dropStart? (a :: start) cs = none := by
  cases cs with
  | nil => rfl
  | cons c cs => exact if_neg fun e ↦ h c rfl (eq_of_beq e).symm

/-- No name starts like a number. -/
theorem named?_eq_none_of_head? {cs : List Char}
    (h : ∀ c ∈ cs.head?, c = '-' ∨ c.isDigit = true) : named? cs = none := by
  have hname : ∀ n ∈ names, ∃ a start, n.1 = a :: start ∧ a ≠ '-' ∧ a.isDigit = false := by
    simp only [names, List.forall_mem_cons]
    refine ⟨⟨_, _, rfl, ?_⟩, ⟨_, _, rfl, ?_⟩, ⟨_, _, rfl, ?_⟩, ⟨_, _, rfl, ?_⟩, ⟨_, _, rfl, ?_⟩,
      nofun⟩ <;> decide
  refine List.findSome?_eq_none_iff.2 fun n hn ↦ ?_
  obtain ⟨a, start, hstart, hminus, hdigit⟩ := hname n hn
  rw [hstart, dropStart?_eq_none_of_head?, Option.map_none]
  rintro c hc rfl
  rcases h c hc with hc | hc
  · exact hminus hc
  · rw [hdigit] at hc
    nomatch hc

/-- **An integer reads as itself**, if the limit lets its digits through. -/
theorem word_int {limit : Option Nat} {n : Int}
    (h : fits limit (Nat.toDigits 10 n.natAbs).length = true) :
    word limit (toString n).toList = .ok (.int n, []) := by
  rw [toList_toString]
  split
  · rename_i hneg
    have habs : -(n.natAbs : Int) = n := by omega
    have hinfinity : dropStart? "Infinity".toList (Nat.toDigits 10 n.natAbs) = none := by
      refine dropStart?_eq_none_of_head? ?_
      rintro c hc rfl
      exact absurd (head?_toDigits_isDigit hc) (by decide)
    rw [word, named?_eq_none_of_head? (by simp)]
    simp only [number, hinfinity]
    rw [unsignedNumber_toDigits true h, if_pos rfl, habs]
  · rename_i hpos
    have habs : (n.natAbs : Int) = n := by omega
    have hminus : (Nat.toDigits 10 n.natAbs).head? ≠ some '-' := fun e ↦
      absurd (head?_toDigits_isDigit e) (by decide)
    rw [word, named?_eq_none_of_head? fun c hc ↦ .inr (head?_toDigits_isDigit hc)]
    simp only [number_of_ne limit hminus]
    rw [unsignedNumber_toDigits false h, if_neg nofun, habs]

end ConceptAtlas.Json
