import ConceptAtlas.Fault
import ConceptAtlas.Proofs.Decimal.Special
import ConceptAtlas.Proofs.Json.Quoted
import ConceptAtlas.Proofs.Json.Word

/-!
# Written values read back

A value that is written reads as itself, under the condition that the reader can take its parts
(`Legible`): its integers are not longer than the reader's limit, its finite doubles are spelled so
that they read back, and its objects have no key twice.

The writer puts brackets and items on lines of their own, and the reader looks at nothing but the
first character that is not blank. So the two never meet at the same position: what is left after a
value is the rest of the text *up to blanks*, and the main lemma (`readValue_render`) says no more
than that. It goes through the value together with the fuel, of which the reader needs one unit for
each bracket and each item (`cost`); the length of a text bounds that (`cost_le`).
-/

namespace ConceptAtlas.Json

variable {limit : Option Nat} {fuel : Nat} {cs rest r after : List Char} {j : Json}

/-! ### One step of the reader -/

/-- What opens or closes a value, and what is blank, is no word. -/
theorem word_eq_error {c : Char} (hc : c ∈ ['"', '[', '{', ']', ' ', '\t', '\n', '\r'])
    (cs : List Char) : word limit (c :: cs) = .error .malformed := by
  simp only [List.mem_cons, List.not_mem_nil, or_false] at hc
  rcases hc with rfl | rfl | rfl | rfl | rfl | rfl | rfl | rfl <;> rfl

theorem readValue_of_word {x : Json × List Char} (h : word limit cs = .ok x) :
    readValue limit (fuel + 1) cs = .ok x := by
  -- A word is what is read last, after the three openings; a text that reads as a word has none.
  have hne : ∀ c ∈ ['"', '[', '{'], ∀ ds, cs ≠ c :: ds := by
    rintro c hc ds rfl
    rw [word_eq_error (List.mem_append_left [']', ' ', '\t', '\n', '\r'] hc)] at h
    nomatch h
  rw [readValue]
  · exact h
  · exact hne '"' (by simp)
  · exact hne '[' (by simp)
  · exact hne '{' (by simp)

theorem readValue_quote {s : List Char} (h : stringBody cs = some (s, after)) :
    readValue limit (fuel + 1) ('"' :: cs) = .ok (.str (String.ofList s), after) := by
  rw [readValue, h]

theorem readValue_emptyArr :
    readValue limit (fuel + 1) ('[' :: ']' :: after) = .ok (.arr [], after) := rfl

theorem readValue_emptyObj :
    readValue limit (fuel + 1) ('{' :: '}' :: after) = .ok (.obj [], after) := rfl

/-- No item starts with the closing bracket. -/
theorem readItems_close : readItems limit fuel (']' :: cs) = .error .malformed := by
  match fuel with
  | 0 => rfl
  | 1 => rfl
  | fuel + 2 => rfl

theorem readValue_arr {items : List Json}
    (h : readItems limit fuel (skipBlanks cs) = .ok (items, after)) :
    readValue limit (fuel + 1) ('[' :: cs) = .ok (.arr items, after) := by
  rw [readValue]
  split
  · rename_i hclose
    rw [hclose, readItems_close] at h
    nomatch h
  · exact bind_eq_ok.2 ⟨_, h, rfl⟩

theorem readValue_obj {fields : List (String × Json)}
    (h : readFields limit fuel (skipBlanks cs) = .ok (fields, after)) :
    readValue limit (fuel + 1) ('{' :: cs) = .ok (ofFields fields, after) := by
  rw [readValue]
  split
  · rename_i hclose
    rw [hclose] at h
    cases fuel <;> nomatch h
  · exact bind_eq_ok.2 ⟨_, h, rfl⟩

theorem readItems_last (h : readValue limit fuel cs = .ok (j, r))
    (hclose : skipBlanks r = ']' :: after) : readItems limit (fuel + 1) cs = .ok ([j], after) := by
  rw [readItems]
  exact bind_eq_ok.2 ⟨_, h, by simp only [hclose]; rfl⟩

theorem readItems_more {more : List Char} {js : List Json}
    (h : readValue limit fuel cs = .ok (j, r)) (hcomma : skipBlanks r = ',' :: more)
    (hmore : readItems limit fuel (skipBlanks more) = .ok (js, after)) :
    readItems limit (fuel + 1) cs = .ok (j :: js, after) := by
  rw [readItems]
  refine bind_eq_ok.2 ⟨_, h, ?_⟩
  simp only [hcomma]
  exact bind_eq_ok.2 ⟨_, hmore, rfl⟩

theorem readFields_last {k value : List Char} (hkey : stringBody cs = some (k, ':' :: value))
    (h : readValue limit fuel (skipBlanks value) = .ok (j, r))
    (hclose : skipBlanks r = '}' :: after) :
    readFields limit (fuel + 1) ('"' :: cs) = .ok ([(String.ofList k, j)], after) := by
  rw [readFields]
  simp only [hkey]
  exact bind_eq_ok.2 ⟨_, h, by simp only [hclose]; rfl⟩

theorem readFields_more {k value more : List Char} {fs : List (String × Json)}
    (hkey : stringBody cs = some (k, ':' :: value))
    (h : readValue limit fuel (skipBlanks value) = .ok (j, r)) (hcomma : skipBlanks r = ',' :: more)
    (hmore : readFields limit fuel (skipBlanks more) = .ok (fs, after)) :
    readFields limit (fuel + 1) ('"' :: cs) = .ok ((String.ofList k, j) :: fs, after) := by
  rw [readFields]
  simp only [hkey]
  refine bind_eq_ok.2 ⟨_, h, ?_⟩
  simp only [hcomma]
  exact bind_eq_ok.2 ⟨_, hmore, rfl⟩

/-! ### Values that a reader can take -/

/-- The text of a double reads as that double. -/
def ReadsBack (limit : Option Nat) (x : Float) : Prop :=
  parseWithin limit (pretty .unicode (.float x)) = .ok (.float x)

mutual

/-- A reader can take a value: the limit lets its integers through, its finite doubles read back,
and no object has a key twice. -/
def Legible (limit : Option Nat) : Json → Prop
  | .int n => fits limit (Nat.toDigits 10 n.natAbs).length = true
  | .float x => (∃ negative b, Decimal.Binary64.classify x = .finite negative b) → ReadsBack limit x
  | .arr js => LegibleItems limit js
  | .obj fs => (fs.map Prod.fst).Nodup ∧ LegibleFields limit fs
  | _ => True

/-- A reader can take each of some items. -/
def LegibleItems (limit : Option Nat) : List Json → Prop
  | [] => True
  | j :: js => Legible limit j ∧ LegibleItems limit js

/-- A reader can take the value of each of some fields. -/
def LegibleFields (limit : Option Nat) : List (String × Json) → Prop
  | [] => True
  | (_, j) :: fs => Legible limit j ∧ LegibleFields limit fs

end

theorem legibleItems_iff {js : List Json} :
    LegibleItems limit js ↔ ∀ j ∈ js, Legible limit j := by
  induction js with
  | nil => simp [LegibleItems]
  | cons j js ih => rw [LegibleItems, ih, List.forall_mem_cons]

theorem legibleFields_iff {fs : List (String × Json)} :
    LegibleFields limit fs ↔ ∀ f ∈ fs, Legible limit f.2 := by
  induction fs with
  | nil => simp [LegibleFields]
  | cons f fs ih => rw [LegibleFields, ih, List.forall_mem_cons]

theorem legible_obj_iff {fs : List (String × Json)} :
    Legible limit (.obj fs) ↔ (fs.map Prod.fst).Nodup ∧ ∀ f ∈ fs, Legible limit f.2 := by
  rw [Legible, legibleFields_iff]

theorem legible_ofText? (s : Option String) : Legible limit (ofText? s) := by
  cases s <;> exact trivial

/-- Not only the finite doubles read back: what is no number has a name of its own. -/
theorem ReadsBack.of_finite {x : Float}
    (h : (∃ negative b, Decimal.Binary64.classify x = .finite negative b) → ReadsBack limit x) :
    ReadsBack limit x := by
  cases hx : Decimal.Binary64.classify x with
  | finite negative b => exact h ⟨negative, b, hx⟩
  | infinite negative =>
    rw [ReadsBack, pretty, render, floatText, Decimal.Layout.text, hx,
      Decimal.Binary64.eq_infinity hx, String.ofList_toList]
    cases negative <;> rfl
  | notANumber =>
    rw [ReadsBack, pretty, render, floatText, Decimal.Layout.text, hx,
      Decimal.Binary64.eq_notANumber hx, String.ofList_toList]
    rfl

/-! ### Words among other text -/

theorem skipBlanks_append (h : skipBlanks cs ≠ []) :
    skipBlanks (cs ++ rest) = skipBlanks cs ++ rest := by
  rw [skipBlanks, List.dropWhile_append, if_neg (by simpa [skipBlanks] using h)]
  rfl

theorem skipBlanks_append_of_blank (h : skipBlanks cs = []) :
    skipBlanks (cs ++ rest) = skipBlanks rest := by
  rw [skipBlanks, List.dropWhile_append, if_pos (by simpa [skipBlanks] using h)]
  rfl

theorem skipBlanks_cons {c : Char} (h : isBlank c = false) (cs : List Char) :
    skipBlanks (c :: cs) = c :: cs := List.dropWhile_cons_of_neg (Bool.eq_false_iff.1 h)

/-- A text spells a value without quotes or brackets, and nothing else. -/
def Spells (limit : Option Nat) (cs : List Char) (j : Json) : Prop :=
  ∃ r, word limit (skipBlanks cs) = .ok (j, r) ∧ skipBlanks r = []

theorem spells_of_word (h : word limit cs = .ok (j, [])) : Spells limit cs j := by
  have hcs : skipBlanks cs = cs := by
    cases cs with
    | nil => rfl
    | cons c cs =>
      refine List.dropWhile_cons_of_neg fun hc ↦ ?_
      have hblank : c ∈ [' ', '\t', '\n', '\r'] := by simpa [isBlank, or_assoc] using hc
      rw [word_eq_error (List.mem_append_right ['"', '[', '{', ']'] hblank)] at h
      nomatch h
  exact ⟨[], by rw [hcs, h], rfl⟩

theorem Spells.readValue (h : Spells limit cs j) (hrest : Ends rest) :
    ∃ r, readValue limit (fuel + 1) (skipBlanks (cs ++ rest)) = .ok (j, r) ∧
      skipBlanks r = skipBlanks rest := by
  obtain ⟨r, hword, hr⟩ := h
  have hne : skipBlanks cs ≠ [] := by
    intro e
    rw [e] at hword
    nomatch hword
  refine ⟨r ++ rest, ?_, skipBlanks_append_of_blank hr⟩
  rw [skipBlanks_append hne]
  apply readValue_of_word
  rw [word_append hrest, hword]
  rfl

/-- What reads as a double is a word. -/
theorem word_of_readValue {x : Float} (h : Json.readValue limit fuel cs = .ok (.float x, r)) :
    word limit cs = .ok (.float x, r) := by
  unfold Json.readValue at h
  split at h
  · nomatch h
  · split at h
    · split at h <;> nomatch h
    · split at h
      · nomatch h
      · obtain ⟨a, -, ha⟩ := bind_eq_ok.1 h
        nomatch ha
    · split at h
      · nomatch h
      · obtain ⟨a, -, ha⟩ := bind_eq_ok.1 h
        nomatch ha
    · exact h

theorem ReadsBack.spells {x : Float} (h : ReadsBack limit x) :
    Spells limit (floatText x) (.float x) := by
  rw [ReadsBack, parseWithin, pretty, String.toList_ofList] at h
  obtain ⟨⟨j, r⟩, hread, hend⟩ := bind_eq_ok.1 h
  simp only at hend
  split at hend
  · rename_i hr
    cases hend
    exact ⟨r, word_of_readValue hread, List.isEmpty_iff.1 hr⟩
  · nomatch hend

/-! ### Fuel -/

mutual

/-- The fuel that a value takes. -/
def cost : Json → Nat
  | .arr js => costItems js + 1
  | .obj fs => costFields fs + 1
  | _ => 1

/-- The fuel that items take. -/
def costItems : List Json → Nat
  | [] => 0
  | j :: js => cost j + costItems js + 1

/-- The fuel that fields take. -/
def costFields : List (String × Json) → Nat
  | [] => 0
  | (_, j) :: fs => cost j + costFields fs + 1

end

mutual

theorem cost_le (charset : Charset) (level : Nat) : (j : Json) →
    cost j ≤ (render charset level j).length + 1
  | .null | .bool _ | .int _ | .float _ | .str _ => Nat.le_add_left ..
  | .arr [] => by simp [cost, costItems]
  | .arr (j :: js) => by
    have hj := cost_le charset (level + 1) j
    have hjs := costItems_le charset (level + 1) js
    simp only [cost, costItems, render, newline, List.length_append, List.length_cons]
    omega
  | .obj [] => by simp [cost, costFields]
  | .obj ((k, j) :: fs) => by
    have hj := cost_le charset (level + 1) j
    have hfs := costFields_le charset (level + 1) fs
    simp only [cost, costFields, render, newline, List.length_append, List.length_cons]
    omega

theorem costItems_le (charset : Charset) (level : Nat) : (js : List Json) →
    costItems js ≤ (renderItems charset level js).length
  | [] => Nat.zero_le _
  | j :: js => by
    have hj := cost_le charset level j
    have hjs := costItems_le charset level js
    simp only [costItems, renderItems, newline, List.length_append, List.length_cons]
    omega

theorem costFields_le (charset : Charset) (level : Nat) : (fs : List (String × Json)) →
    costFields fs ≤ (renderFields charset level fs).length
  | [] => Nat.zero_le _
  | (k, j) :: fs => by
    have hj := cost_le charset level j
    have hfs := costFields_le charset level fs
    simp only [costFields, renderFields, newline, List.length_append, List.length_cons]
    omega

end

/-! ### Values -/

theorem skipBlanks_newline (level : Nat) (cs : List Char) :
    skipBlanks (newline level ++ cs) = skipBlanks cs := by
  refine skipBlanks_append_of_blank (List.dropWhile_eq_nil_iff.2 fun c hc ↦ ?_)
  rcases List.mem_cons.1 hc with rfl | hc
  · rfl
  · rw [List.eq_of_mem_replicate hc]
    rfl

theorem ends_renderItems (charset : Charset) (level : Nat) {js : List Json} (h : Ends rest) :
    Ends (renderItems charset level js ++ rest) := by
  cases js with
  | nil => exact h
  | cons j js => exact ends_comma _

theorem ends_renderFields (charset : Charset) (level : Nat) {fs : List (String × Json)}
    (h : Ends rest) : Ends (renderFields charset level fs ++ rest) := by
  cases fs with
  | nil => exact h
  | cons f fs => exact ends_comma _

theorem stringBody_quote (s : String) (rest : List Char) : ∃ cs,
    quote .unicode s ++ rest = '"' :: cs ∧ stringBody cs = some (s.toList, rest) :=
  ⟨_, by simp only [quote, List.cons_append, List.append_assoc, List.nil_append],
    stringBody_flatMap_escapeChar s.toList rest⟩

mutual

/-- **A value that was written is read**, and what is left starts where its text ended. -/
theorem readValue_render : (j : Json) → Legible limit j →
    ∀ (level : Nat) {fuel : Nat} {rest : List Char}, cost j ≤ fuel → Ends rest →
    ∃ r, readValue limit fuel (skipBlanks (render .unicode level j ++ rest)) = .ok (j, r) ∧
      skipBlanks r = skipBlanks rest
  | j, _, _, 0, _, hfuel, _ => by cases j <;> simp [cost] at hfuel
  | .null, _, _, fuel + 1, _, _, hrest =>
    (spells_of_word rfl : Spells limit "null".toList .null).readValue hrest
  | .bool true, _, _, fuel + 1, _, _, hrest =>
    (spells_of_word rfl : Spells limit "true".toList (.bool true)).readValue hrest
  | .bool false, _, _, fuel + 1, _, _, hrest =>
    (spells_of_word rfl : Spells limit "false".toList (.bool false)).readValue hrest
  | .int n, h, _, fuel + 1, _, _, hrest => by
    rw [Legible] at h
    exact (spells_of_word (word_int h)).readValue hrest
  | .float x, h, _, fuel + 1, _, _, hrest => by
    rw [Legible] at h
    exact (ReadsBack.of_finite h).spells.readValue hrest
  | .str s, _, _, fuel + 1, rest, _, _ => by
    obtain ⟨cs, hcs, hbody⟩ := stringBody_quote s rest
    refine ⟨rest, ?_, rfl⟩
    rw [render, hcs]
    exact (readValue_quote hbody).trans (by rw [String.ofList_toList])
  | .arr [], _, _, fuel + 1, rest, _, _ => ⟨rest, readValue_emptyArr, rfl⟩
  | .obj [], _, _, fuel + 1, rest, _, _ => ⟨rest, readValue_emptyObj, rfl⟩
  | .arr (j :: js), h, level, fuel + 1, rest, hfuel, _ => by
    rw [Legible, LegibleItems] at h
    rw [cost, costItems] at hfuel
    obtain ⟨fuel, rfl⟩ := Nat.exists_eq_add_one.2 (by omega : 0 < fuel)
    -- Behind the first item comes another one or the line of the bracket: neither goes on with it.
    have hends : Ends (renderItems .unicode (level + 1) js ++ (newline level ++ ']' :: rest)) :=
      ends_renderItems _ _ (ends_newline _)
    obtain ⟨r, hread, hr⟩ :=
      readValue_render j h.1 (level + 1) (by omega : cost j ≤ fuel) hends
    have hitems := readItems_of_readValue js h.2 (by omega) hread hr
    rw [← skipBlanks_newline (level + 1)] at hitems
    refine ⟨rest, ?_, rfl⟩
    simp only [render, List.cons_append, List.append_assoc, List.nil_append]
    exact readValue_arr hitems
  | .obj ((k, j) :: fs), h, level, fuel + 1, rest, hfuel, _ => by
    rw [Legible, LegibleFields] at h
    rw [cost, costFields] at hfuel
    obtain ⟨fuel, rfl⟩ := Nat.exists_eq_add_one.2 (by omega : 0 < fuel)
    have hends : Ends (renderFields .unicode (level + 1) fs ++ (newline level ++ '}' :: rest)) :=
      ends_renderFields _ _ (ends_newline _)
    obtain ⟨r, hread, hr⟩ :=
      readValue_render j h.2.1 (level + 1) (by omega : cost j ≤ fuel) hends
    obtain ⟨cs, hcs, hkey⟩ := stringBody_quote k (':' :: ' ' :: (render .unicode (level + 1) j ++
      (renderFields .unicode (level + 1) fs ++ (newline level ++ '}' :: rest))))
    have hfields := readFields_of_readValue fs h.2.2 (by omega) hkey hread hr
    -- The reader stands at the quote of the key, the text still has the line before it.
    rw [← skipBlanks_cons (c := '"') rfl cs, ← hcs, ← skipBlanks_newline (level + 1)] at hfields
    refine ⟨rest, ?_, rfl⟩
    simp only [render, List.cons_append, List.append_assoc, List.nil_append]
    refine (readValue_obj hfields).trans ?_
    rw [ofFields, Assoc.ofPairs_of_nodup h.1]

/-- The items after one that was read. -/
theorem readItems_of_readValue : (js : List Json) → LegibleItems limit js →
    ∀ {level close fuel : Nat} {j : Json} {cs r rest : List Char}, costItems js ≤ fuel →
    readValue limit fuel cs = .ok (j, r) →
    skipBlanks r =
      skipBlanks (renderItems .unicode level js ++ (newline close ++ ']' :: rest)) →
    readItems limit (fuel + 1) cs = .ok (j :: js, rest)
  | [], _, level, close, fuel, j, cs, r, rest, _, hread, hr => by
    rw [renderItems, List.nil_append, skipBlanks_newline] at hr
    exact readItems_last hread hr
  | i :: js, h, level, close, fuel, j, cs, r, rest, hfuel, hread, hr => by
    rw [LegibleItems] at h
    rw [costItems] at hfuel
    obtain ⟨fuel, rfl⟩ := Nat.exists_eq_add_one.2 (by omega : 0 < fuel)
    have hends : Ends (renderItems .unicode level js ++ (newline close ++ ']' :: rest)) :=
      ends_renderItems _ _ (ends_newline _)
    obtain ⟨r', hread', hr'⟩ := readValue_render i h.1 level (by omega : cost i ≤ fuel) hends
    have hmore := readItems_of_readValue js h.2 (by omega) hread' hr'
    rw [← skipBlanks_newline level] at hmore
    refine readItems_more hread ?_ hmore
    rw [hr]
    simp only [renderItems, List.cons_append, List.append_assoc]
    rfl

/-- The fields after one that was read. -/
theorem readFields_of_readValue : (fs : List (String × Json)) → LegibleFields limit fs →
    ∀ {level close fuel : Nat} {k : String} {j : Json} {cs value r rest : List Char},
    costFields fs ≤ fuel → stringBody cs = some (k.toList, ':' :: ' ' :: value) →
    readValue limit fuel (skipBlanks value) = .ok (j, r) →
    skipBlanks r =
      skipBlanks (renderFields .unicode level fs ++ (newline close ++ '}' :: rest)) →
    readFields limit (fuel + 1) ('"' :: cs) = .ok ((k, j) :: fs, rest)
  | [], _, level, close, fuel, k, j, cs, value, r, rest, _, hkey, hread, hr => by
    rw [renderFields, List.nil_append, skipBlanks_newline] at hr
    have hlast := readFields_last hkey hread hr
    rwa [String.ofList_toList] at hlast
  | (k', i) :: fs, h, level, close, fuel, k, j, cs, value, r, rest, hfuel, hkey, hread, hr => by
    rw [LegibleFields] at h
    rw [costFields] at hfuel
    obtain ⟨fuel, rfl⟩ := Nat.exists_eq_add_one.2 (by omega : 0 < fuel)
    have hends : Ends (renderFields .unicode level fs ++ (newline close ++ '}' :: rest)) :=
      ends_renderFields _ _ (ends_newline _)
    obtain ⟨r', hread', hr'⟩ := readValue_render i h.1 level (by omega : cost i ≤ fuel) hends
    obtain ⟨cs', hcs', hkey'⟩ := stringBody_quote k' (':' :: ' ' :: (render .unicode level i ++
      (renderFields .unicode level fs ++ (newline close ++ '}' :: rest))))
    have hmore := readFields_of_readValue fs h.2 (by omega) hkey' hread' hr'
    rw [← skipBlanks_cons (c := '"') rfl cs', ← hcs', ← skipBlanks_newline level] at hmore
    have hstep := readFields_more hkey hread (by
      rw [hr]
      simp only [renderFields, List.cons_append, List.append_assoc, List.nil_append]
      rfl) hmore
    rwa [String.ofList_toList] at hstep

end

/-- The fuel that is given to a text is enough for its value. -/
theorem cost_le_fuel (j : Json) :
    cost j ≤ 2 * (skipBlanks (render .unicode 0 j)).length + 2 := by
  have hle := cost_le .unicode 0 j
  cases j with
  | arr js =>
    have hbracket : skipBlanks (render .unicode 0 (.arr js)) = render .unicode 0 (.arr js) := by
      cases js <;> rfl
    rw [hbracket]
    omega
  | obj fs =>
    have hbrace : skipBlanks (render .unicode 0 (.obj fs)) = render .unicode 0 (.obj fs) := by
      cases fs <;> rfl
    rw [hbrace]
    omega
  | _ => exact Nat.le_trans (by decide : 1 ≤ 2) (Nat.le_add_left ..)

/-- **A written value reads as itself**, if its reader can take it. -/
theorem parseWithin_pretty (h : Legible limit j) :
    parseWithin limit (pretty .unicode j) = .ok j := by
  obtain ⟨r, hread, hr⟩ := readValue_render j h 0 (cost_le_fuel j) ends_nil
  rw [List.append_nil] at hread
  rw [parseWithin, pretty, String.toList_ofList]
  refine bind_eq_ok.2 ⟨_, hread, ?_⟩
  simp only [hr]
  rfl

end ConceptAtlas.Json
