import ConceptAtlas.Text.Lines
import ConceptAtlas.Text.Utf8

/-!
# Written UTF-8 is read back

The bytes that spell a text are read as that text (`decodeUtf8_encodeUtf8`). A character has up to
four bytes: the first one says how many, and each of the others carries six bits (`Carries`). The
bounds on the second byte keep out nothing that is written, since a character is written with no
more bytes than it needs and no surrogate is a character.
-/

namespace ConceptAtlas.Text

/-! ### The bytes that continue a character -/

/-- A byte that continues a character, with the number that its six bits spell. -/
structure Carries (b : UInt8) (n : Nat) : Prop where
  lt : n < 64
  toNat : b.toNat = n + 128

theorem carries_ofNat (n : Nat) : Carries (UInt8.ofNat (n % 64 + 128)) (n % 64) where
  lt := Nat.mod_lt _ (by decide)
  toNat := UInt8.toNat_ofNat_of_lt (show n % 64 + 128 < 256 by omega)

namespace Carries

variable {b b₂ b₃ b₄ : UInt8} {n n₂ n₃ n₄ : Nat}

theorem payload_eq (h : Carries b n) : payload b = n := by
  have hlt := h.lt
  rw [payload, h.toNat]
  omega

theorem isContinuation (h : Carries b n) : isContinuation b = true := by
  have hlt := h.lt
  rw [Text.isContinuation, Bool.and_eq_true, decide_eq_true_iff, decide_eq_true_iff,
    UInt8.le_iff_toNat_le, UInt8.lt_iff_toNat_lt, h.toNat]
  exact ⟨Nat.le_add_left 128 n, Nat.add_lt_add_right hlt 128⟩

/-- Four first bytes bound the byte after them. -/
theorem secondByteFits (h : Carries b₂ n₂) (hoverlong₃ : b.toNat = 0xE0 → 32 ≤ n₂)
    (hsurrogate : b.toNat = 0xED → n₂ < 32) (hoverlong₄ : b.toNat = 0xF0 → 16 ≤ n₂)
    (hlast : b.toNat = 0xF4 → n₂ < 16) : secondByteFits b b₂ = true := by
  rw [Text.secondByteFits, h.isContinuation, Bool.true_and]
  simp only [beq_iff_eq, ← UInt8.toNat_inj, UInt8.le_iff_toNat_le, UInt8.lt_iff_toNat_lt,
    UInt8.reduceToNat, h.toNat]
  grind

end Carries

/-! ### The character of its bytes -/

section Step

variable {b b₂ b₃ b₄ : UInt8} {n n₂ n₃ n₄ : Nat}

theorem utf8Step_one (hb : b.toNat < 0x80) (rest : List UInt8) :
    utf8Step b rest = .char (Char.ofNat b.toNat) 1 := by
  have hlt : b < 0x80 := UInt8.lt_iff_toNat_lt.2 hb
  simp only [utf8Step, hlt, if_true]

/-- The first byte of two: it carries five bits, and they are not too few for two bytes. -/
theorem utf8Step_two (hb : b.toNat = n + 0xC0) (hlow : 2 ≤ n) (hhigh : n < 32) (h₂ : Carries b₂ n₂)
    (rest : List UInt8) :
    utf8Step b (b₂ :: rest) = .char (Char.ofNat (n * 64 + n₂)) 2 := by
  have hfits : secondByteFits b b₂ = true :=
    h₂.secondByteFits (by omega) (by omega) (by omega) (by omega)
  simp only [utf8Step, UInt8.lt_iff_toNat_lt, UInt8.le_iff_toNat_le, UInt8.reduceToNat, hb]
  rw [if_neg (by omega), if_neg (by simp; omega), if_pos (by omega), if_pos hfits, h₂.payload_eq,
    show (n + 0xC0) % 0x20 = n by omega]

theorem utf8Step_three (hb : b.toNat = n + 0xE0) (hhigh : n < 16) (h₂ : Carries b₂ n₂)
    (h₃ : Carries b₃ n₃) (hoverlong : n = 0 → 32 ≤ n₂) (hsurrogate : n = 13 → n₂ < 32)
    (rest : List UInt8) :
    utf8Step b (b₂ :: b₃ :: rest) = .char (Char.ofNat (n * 4096 + n₂ * 64 + n₃)) 3 := by
  have hfits : secondByteFits b b₂ = true :=
    h₂.secondByteFits (by omega) (by omega) (by omega) (by omega)
  simp only [utf8Step, UInt8.lt_iff_toNat_lt, UInt8.le_iff_toNat_le, UInt8.reduceToNat, hb]
  rw [if_neg (by omega), if_neg (by simp; omega), if_neg (by omega), if_pos (by omega),
    if_neg (by simp [hfits]), if_neg (by simp [h₃.isContinuation]), h₂.payload_eq, h₃.payload_eq,
    show (n + 0xE0) % 0x10 = n by omega]

theorem utf8Step_four (hb : b.toNat = n + 0xF0) (hhigh : n < 5) (h₂ : Carries b₂ n₂)
    (h₃ : Carries b₃ n₃) (h₄ : Carries b₄ n₄) (hoverlong : n = 0 → 16 ≤ n₂)
    (hlast : n = 4 → n₂ < 16) (rest : List UInt8) :
    utf8Step b (b₂ :: b₃ :: b₄ :: rest) =
      .char (Char.ofNat (n * 262144 + n₂ * 4096 + n₃ * 64 + n₄)) 4 := by
  have hfits : secondByteFits b b₂ = true :=
    h₂.secondByteFits (by omega) (by omega) (by omega) (by omega)
  simp only [utf8Step, UInt8.lt_iff_toNat_lt, UInt8.le_iff_toNat_le, UInt8.reduceToNat, hb]
  rw [if_neg (by omega), if_neg (by simp; omega), if_neg (by omega), if_neg (by omega),
    if_neg (by simp [hfits]), if_neg (by simp [h₃.isContinuation]),
    if_neg (by simp [h₄.isContinuation]), h₂.payload_eq, h₃.payload_eq, h₄.payload_eq,
    show (n + 0xF0) % 0x08 = n by omega]

end Step

/-! ### The round trip -/

/-- The bytes of a character are read as the character, whatever comes after them. -/
theorem exists_utf8Step_encodeChar (c : Char) : ∃ b bs, String.utf8EncodeChar c = b :: bs ∧
    ∀ rest, utf8Step b (bs ++ rest) = .char c (bs.length + 1) := by
  have hvalid : c.toNat < 0xD800 ∨ 0xDFFF < c.toNat ∧ c.toNat < 0x110000 := c.valid
  have hself : Char.ofNat c.toNat = c := Char.ofNat_toNat c
  have hcode : c.val.toNat = c.toNat := rfl
  rw [String.utf8EncodeChar, hcode]
  generalize c.toNat = v at hvalid hself
  have hfirst (n : Nat) (h : n < 256) : (UInt8.ofNat n).toNat = n := UInt8.toNat_ofNat_of_lt h
  -- By the number of bytes. With three no surrogate is left, with four nothing past the last code.
  split
  · refine ⟨_, _, rfl, fun rest ↦ ?_⟩
    have hb := hfirst v (by omega)
    rw [List.nil_append, utf8Step_one (by omega), hb, hself]
    rfl
  · split
    · refine ⟨_, _, rfl, fun rest ↦ ?_⟩
      have hb := hfirst (v / 64 % 32 + 192) (by omega)
      rw [List.cons_append, utf8Step_two hb (by omega) (by omega) (carries_ofNat v),
        show v / 64 % 32 * 64 + v % 64 = v by omega, hself]
      rfl
    · split
      · refine ⟨_, _, rfl, fun rest ↦ ?_⟩
        have hb := hfirst (v / 4096 % 16 + 224) (by omega)
        rw [List.cons_append, List.cons_append, utf8Step_three hb (by omega)
          (carries_ofNat (v / 64)) (carries_ofNat v) (by omega) (by omega),
          show v / 4096 % 16 * 4096 + v / 64 % 64 * 64 + v % 64 = v by omega, hself]
        rfl
      · refine ⟨_, _, rfl, fun rest ↦ ?_⟩
        have hb := hfirst (v / 262144 % 8 + 240) (by omega)
        rw [List.cons_append, List.cons_append, List.cons_append, utf8Step_four hb (by omega)
          (carries_ofNat (v / 4096)) (carries_ofNat (v / 64)) (carries_ofNat v) (by omega)
          (by omega), show v / 262144 % 8 * 262144 + v / 4096 % 64 * 4096 + v / 64 % 64 * 64 +
            v % 64 = v by omega, hself]
        rfl

theorem decodeFrom_encodeChar (position : Nat) (c : Char) (rest : List UInt8) :
    ∃ position', decodeFrom position (String.utf8EncodeChar c ++ rest) =
      (decodeFrom position' rest).map (c :: ·) := by
  obtain ⟨b, bs, hbytes, hstep⟩ := exists_utf8Step_encodeChar c
  refine ⟨position + (bs.length + 1), ?_⟩
  rw [hbytes, List.cons_append, decodeFrom, hstep]
  dsimp only
  rw [Nat.add_sub_cancel, List.drop_left]

theorem decodeFrom_encode (position : Nat) (cs : List Char) :
    decodeFrom position (cs.flatMap String.utf8EncodeChar) = .ok cs := by
  induction cs generalizing position with
  | nil => rw [List.flatMap_nil, decodeFrom]
  | cons c cs ih =>
    obtain ⟨position', h⟩ := decodeFrom_encodeChar position c (cs.flatMap String.utf8EncodeChar)
    rw [List.flatMap_cons, h, ih]
    rfl

/-- **The bytes that spell a text are read as the text.** -/
theorem decodeUtf8_encodeUtf8 (s : String) : decodeUtf8 (encodeUtf8 s) = .ok s.toList :=
  decodeFrom_encode 0 s.toList

end ConceptAtlas.Text
