import Mathlib.Algebra.Group.Nat.Defs
import Mathlib.Data.List.Induction
import ConceptAtlas.Fault
import ConceptAtlas.Proofs.Json.Word

/-!
# The limit on digits

What a reader with a limit on the digits of integers makes of a text: the same as a reader without
one, or the fault that an integer is too long (`parseWithin_limited`). And what it has read holds no
integer beyond the limit (`within_of_parseWithin`), so a text whose value holds one is
always refused.

That is not all that is refused: the value of a field that comes again is read and dropped, so the
integer that is too long need not be one of the value.
-/

namespace ConceptAtlas.Json

variable {α β : Type} {limit : Option Nat}

/-- The outcome with a limit is the outcome without one, or the fault that an integer is longer than
the limit. -/
def Limited (limit : Option Nat) (x y : Except ParseFault α) : Prop :=
  x = y ∨ ∃ most digits, limit = some most ∧ most < digits ∧ x = .error (.integerTooLong digits)

theorem Limited.refl (x : Except ParseFault α) : Limited limit x x := .inl rfl

theorem Limited.bind {x y : Except ParseFault α} {f g : α → Except ParseFault β}
    (h : Limited limit x y) (hfg : ∀ a, Limited limit (f a) (g a)) :
    Limited limit (x >>= f) (y >>= g) := by
  rcases h with rfl | ⟨most, digits, hlimit, hlt, rfl⟩
  · cases x with
    | error fault => exact .refl _
    | ok a => exact hfg a
  · exact .inr ⟨most, digits, hlimit, hlt, rfl⟩

theorem unsignedNumber_limited (negative : Bool) (cs : List Char) :
    Limited limit (unsignedNumber limit negative cs) (unsignedNumber none negative cs) := by
  simp only [unsignedNumber]
  split
  · exact .refl _
  · split
    · exact .refl _
    · split
      · rcases hfits : fits limit (wholePart cs).1.length with - | -
        · rcases limit with - | most
          · cases hfits
          · refine .inr ⟨most, _, rfl, ?_, rfl⟩
            simpa [fits] using hfits
        · exact .refl _
      · exact .refl _

theorem word_limited (cs : List Char) : Limited limit (word limit cs) (word none cs) := by
  simp only [word]
  split
  · exact .refl _
  · simp only [number]
    split
    · split
      · exact .refl _
      · exact unsignedNumber_limited ..
    · exact unsignedNumber_limited ..

/-- With the same fuel, each of the three readers stops at the same place or at an integer. -/
theorem read_limited (fuel : Nat) :
    (∀ cs, Limited limit (readValue limit fuel cs) (readValue none fuel cs)) ∧
    (∀ cs, Limited limit (readItems limit fuel cs) (readItems none fuel cs)) ∧
    ∀ cs, Limited limit (readFields limit fuel cs) (readFields none fuel cs) := by
  induction fuel with
  | zero => exact ⟨fun _ ↦ .refl _, fun _ ↦ .refl _, fun _ ↦ .refl _⟩
  | succ fuel ih =>
    obtain ⟨hvalue, hitems, hfields⟩ := ih
    refine ⟨fun cs ↦ ?_, fun cs ↦ ?_, fun cs ↦ ?_⟩
    · simp only [readValue]
      split
      · exact .refl _
      · split
        · exact .refl _
        · exact (hitems _).bind fun _ ↦ .refl _
      · split
        · exact .refl _
        · exact (hfields _).bind fun _ ↦ .refl _
      · exact word_limited cs
    · simp only [readItems]
      refine (hvalue cs).bind fun r ↦ ?_
      split
      · exact .refl _
      · exact (hitems _).bind fun _ ↦ .refl _
      · exact .refl _
    · simp only [readFields]
      split
      · split
        · exact .refl _
        · split
          · refine (hvalue _).bind fun r ↦ ?_
            split
            · exact .refl _
            · exact (hfields _).bind fun _ ↦ .refl _
            · exact .refl _
          · exact .refl _
      · exact .refl _

/-- **The limit makes no other difference** than that an integer may be too long. -/
theorem parseWithin_limited (limit : Option Nat) (s : String) :
    Limited limit (parseWithin limit s) (parseWithin none s) := by
  simp only [parseWithin]
  exact ((read_limited _).1 _).bind fun _ ↦ .refl _

/-! ### What is within the limit -/

/-- A value has an integer in it. -/
inductive Holds (n : Int) : Json → Prop
  | int : Holds n (.int n)
  | arr {j : Json} {items : List Json} : j ∈ items → Holds n j → Holds n (.arr items)
  | obj {f : String × Json} {fields : List (String × Json)} :
    f ∈ fields → Holds n f.2 → Holds n (.obj fields)

/-- The digits of an integer, its sign apart. -/
def digitCount (n : Int) : Nat := (Nat.toDigits 10 n.natAbs).length

/-- No integer of a value has more digits than a number. -/
def Within (most : Nat) (j : Json) : Prop := ∀ n, j.Holds n → digitCount n ≤ most

variable {most : Nat}

theorem digitsValue_lt {ds : List Char} (h : ∀ c ∈ ds, c.isDigit = true) :
    digitsValue ds < 10 ^ ds.length := by
  induction ds using List.reverseRecOn with
  | nil => exact Nat.zero_lt_one
  | append_singleton ds c ih =>
    obtain ⟨hds, hc⟩ := List.forall_mem_append.1 h
    have hvalue : digitsValue (ds ++ [c]) = 10 * digitsValue ds + (c.toNat - '0'.toNat) := by
      rw [digitsValue, List.foldl_append]
      rfl
    have hdigit : c.toNat - '0'.toNat < 10 := by
      have hnine := (Char.isDigit_iff_toNat.1 (hc c (List.mem_singleton_self c))).2
      exact Nat.lt_succ_of_le (Nat.sub_le_of_le_add hnine)
    have hless := ih hds
    rw [hvalue, List.length_append, List.length_singleton, Nat.pow_succ]
    omega

theorem isDigit_of_mem_wholePart {cs : List Char} :
    ∀ c ∈ (wholePart cs).1, c.isDigit = true := by
  rcases Classical.em (cs.head? = some '0') with h | h
  · obtain ⟨ds, rfl⟩ := List.head?_eq_some_iff.1 h
    exact List.forall_mem_singleton.2 (by decide)
  · rw [wholePart_of_ne h]
    exact fun c hc ↦ List.mem_takeWhile_imp hc

theorem unsignedNumber_within {negative : Bool} {cs : List Char} {r : Json × List Char}
    (h : unsignedNumber (some most) negative cs = .ok r) : r.1.Within most := by
  simp only [unsignedNumber] at h
  split at h
  · cases h
  · rename_i hne
    split at h
    · cases h
      rintro n ⟨⟩
    · split at h
      · split at h
        · rename_i hfits
          cases h
          rintro n ⟨⟩
          have hpos : 0 < (wholePart cs).1.length := by
            rw [List.length_pos_iff]
            simpa using hne
          have habs : (if negative = true then -(digitsValue (wholePart cs).1 : Int)
              else digitsValue (wholePart cs).1).natAbs = digitsValue (wholePart cs).1 := by
            split <;> omega
          have hlength : (wholePart cs).1.length ≤ most := by simpa [fits] using hfits
          rw [digitCount, habs]
          refine Nat.le_trans ?_ hlength
          exact (Nat.length_toDigits_le_iff (by decide) hpos).2
            (digitsValue_lt isDigit_of_mem_wholePart)
        · cases h
      · cases h
        rintro n ⟨⟩

theorem word_within {cs : List Char} {r : Json × List Char}
    (h : word (some most) cs = .ok r) : r.1.Within most := by
  simp only [word] at h
  split at h
  · rename_i x hname
    cases h
    obtain ⟨name, hmem, hx⟩ := List.exists_of_findSome?_eq_some hname
    obtain ⟨rest, -, rfl⟩ := Option.map_eq_some_iff.1 hx
    simp only [names, List.mem_cons, List.not_mem_nil, or_false] at hmem
    rcases hmem with rfl | rfl | rfl | rfl | rfl <;> rintro n ⟨⟩
  · simp only [number] at h
    split at h
    · split at h
      · cases h
        rintro n ⟨⟩
      · exact unsignedNumber_within h
    · exact unsignedNumber_within h

theorem mem_put {k : String} {v : Json} {fields : List (String × Json)} {f : String × Json}
    (h : f ∈ Assoc.put k v fields) : f.2 = v ∨ f ∈ fields := by
  induction fields with
  | nil => exact .inl (List.mem_singleton.1 h ▸ rfl)
  | cons g gs ih =>
    rw [Assoc.put_cons] at h
    split at h
    · rcases List.mem_cons.1 h with rfl | h
      · exact .inl rfl
      · exact .inr (List.mem_cons_of_mem g h)
    · rcases List.mem_cons.1 h with rfl | h
      · exact .inr List.mem_cons_self
      · exact (ih h).imp_right (List.mem_cons_of_mem g)

theorem Within.arr {items : List Json} (h : ∀ j ∈ items, j.Within most) :
    (Json.arr items).Within most := by
  rintro n (- | ⟨hj, hn⟩)
  exact h _ hj n hn

/-- Putting pairs one after the other makes no value that was not put. -/
theorem exists_mem_of_mem_foldl_put {fields acc : List (String × Json)} {f : String × Json}
    (h : f ∈ fields.foldl (fun acc p ↦ Assoc.put p.1 p.2 acc) acc) :
    (∃ g ∈ fields, g.2 = f.2) ∨ f ∈ acc := by
  induction fields generalizing acc with
  | nil => exact .inr h
  | cons g gs ih =>
    rcases ih h with ⟨x, hx, heq⟩ | hput
    · exact .inl ⟨x, List.mem_cons_of_mem g hx, heq⟩
    · rcases mem_put hput with heq | hmem
      · exact .inl ⟨g, List.mem_cons_self, heq.symm⟩
      · exact .inr hmem

theorem Within.ofFields {fields : List (String × Json)} (h : ∀ f ∈ fields, f.2.Within most) :
    (Json.ofFields fields).Within most := by
  rintro n (- | - | ⟨hf, hn⟩)
  rcases exists_mem_of_mem_foldl_put hf with ⟨g, hg, heq⟩ | hnil
  · exact h g hg n (heq ▸ hn)
  · nomatch hnil

/-- With any fuel, what each of the three readers has read is within the limit. -/
theorem read_within (fuel : Nat) :
    (∀ cs r, readValue (some most) fuel cs = .ok r → r.1.Within most) ∧
    (∀ cs r, readItems (some most) fuel cs = .ok r → ∀ j ∈ r.1, j.Within most) ∧
    ∀ cs r, readFields (some most) fuel cs = .ok r → ∀ f ∈ r.1, f.2.Within most := by
  induction fuel with
  | zero => exact ⟨fun _ _ h ↦ (nomatch h), fun _ _ h ↦ (nomatch h), fun _ _ h ↦ (nomatch h)⟩
  | succ fuel ih =>
    obtain ⟨hvalue, hitems, hfields⟩ := ih
    refine ⟨fun cs r h ↦ ?_, fun cs r h ↦ ?_, fun cs r h ↦ ?_⟩
    · simp only [readValue] at h
      split at h
      · split at h
        · cases h
          rintro n ⟨⟩
        · cases h
      · split at h
        · cases h
          exact .arr (List.forall_mem_nil _)
        · obtain ⟨items, hread, hok⟩ := bind_eq_ok.1 h
          cases hok
          exact .arr (hitems _ _ hread)
      · split at h
        · cases h
          exact .ofFields (List.forall_mem_nil _)
        · obtain ⟨fields, hread, hok⟩ := bind_eq_ok.1 h
          cases hok
          exact .ofFields (hfields _ _ hread)
      · exact word_within h
    · simp only [readItems] at h
      obtain ⟨one, hone, h⟩ := bind_eq_ok.1 h
      split at h
      · cases h
        exact List.forall_mem_singleton.2 (hvalue _ _ hone)
      · obtain ⟨more, hmore, hok⟩ := bind_eq_ok.1 h
        cases hok
        exact List.forall_mem_cons.2 ⟨hvalue _ _ hone, hitems _ _ hmore⟩
      · cases h
    · simp only [readFields] at h
      split at h
      · split at h
        · cases h
        · split at h
          · obtain ⟨one, hone, h⟩ := bind_eq_ok.1 h
            split at h
            · cases h
              exact List.forall_mem_singleton.2 (hvalue _ _ hone)
            · obtain ⟨more, hmore, hok⟩ := bind_eq_ok.1 h
              cases hok
              exact List.forall_mem_cons.2 ⟨hvalue _ _ hone, hfields _ _ hmore⟩
            · cases h
          · cases h
      · cases h

/-- **What a reader with a limit has read is within it.** -/
theorem within_of_parseWithin {s : String} {j : Json} (h : parseWithin (some most) s = .ok j) :
    j.Within most := by
  obtain ⟨⟨value, rest⟩, hread, hok⟩ := bind_eq_ok.1 h
  have hvalue := (read_within _).1 _ _ hread
  simp only at hok
  split at hok
  · cases hok
    exact hvalue
  · cases hok

end ConceptAtlas.Json
