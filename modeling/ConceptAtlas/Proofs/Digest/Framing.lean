import Mathlib.Data.List.Basic
import ConceptAtlas.Digest.Sha256
import ConceptAtlas.Proofs.Files.Path
import ConceptAtlas.Text.Utf8

/-!
# Framing

When parts that are written one after the other can be told apart again. Two frames are in use: a
zero byte after every part, which works as long as no part has one (`flatMap_concat_inj`), and a
width that all parts share. A text has a zero byte in its encoding only for its zero character
(`zero_not_mem_encodeUtf8`), and the encoding of a digest is 64 bytes wide, whatever was digested
(`length_encodeUtf8_hex`).

Files under each other have neither frame, so of several files only the joined bytes are left, and
the sizes would be needed to tell them apart (`List.eq_iff_flatten_eq`).
-/

namespace ConceptAtlas

namespace Text

/-! ### Bytes of a text -/

/-- No two texts have one encoding. -/
theorem encodeUtf8_inj {s t : String} (h : encodeUtf8 s = encodeUtf8 t) : s = t := by
  have hs (u : String) : (encodeUtf8 u).toByteArray = u.toByteArray :=
    String.utf8Encode_toList
  rw [← String.toByteArray_inj, ← hs s, ← hs t, h]

theorem zero_ne_ofNat {n : Nat} (h₀ : n ≠ 0) (h : n < 256) : (0 : UInt8) ≠ UInt8.ofNat n := by
  intro e
  have htoNat := congrArg UInt8.toNat e
  rw [UInt8.toNat_ofNat_of_lt' h] at htoNat
  exact h₀ htoNat.symm

/-- The only character with a zero byte is the zero character: all bytes of a longer one have their
highest bit set. -/
theorem eq_zero_of_mem_utf8EncodeChar {c : Char} (h : (0 : UInt8) ∈ String.utf8EncodeChar c) :
    c = '\x00' := by
  by_cases hz : c.val.toNat = 0
  · exact Char.ext (UInt32.toNat_inj.1 hz)
  · exfalso
    rw [String.utf8EncodeChar] at h
    -- One byte is the code itself; two to four bytes are offsets from 128 on.
    split at h
    · exact zero_ne_ofNat hz (by omega) (List.mem_singleton.1 h)
    split at h
    · simp only [List.mem_cons, List.not_mem_nil, or_false] at h
      rcases h with h | h <;> exact zero_ne_ofNat (by omega) (by omega) h
    split at h
    · simp only [List.mem_cons, List.not_mem_nil, or_false] at h
      rcases h with h | h | h <;> exact zero_ne_ofNat (by omega) (by omega) h
    · simp only [List.mem_cons, List.not_mem_nil, or_false] at h
      rcases h with h | h | h | h <;> exact zero_ne_ofNat (by omega) (by omega) h

theorem zero_not_mem_encodeUtf8 {s : String} (h : '\x00' ∉ s.toList) :
    (0 : UInt8) ∉ encodeUtf8 s := by
  intro hm
  obtain ⟨c, hc, hb⟩ := List.mem_flatMap.1 hm
  exact h (eq_zero_of_mem_utf8EncodeChar hb ▸ hc)

/-- A text of small characters has a byte for each of them. -/
theorem length_encodeUtf8_ofList {cs : List Char} (h : ∀ c ∈ cs, c.utf8Size = 1) :
    (encodeUtf8 (String.ofList cs)).length = cs.length := by
  rw [encodeUtf8, String.toList_ofList, List.length_flatMap]
  simp only [String.length_utf8EncodeChar]
  rw [List.map_congr_left h]
  simp

theorem utf8Size_hexDigit (n : Nat) : (hexDigit n).utf8Size = 1 := by
  have hsmall : ∀ k < 16, (Nat.digitChar k).utf8Size = 1 := by decide
  exact hsmall (n % 16) (Nat.mod_lt n (by decide))

theorem utf8Size_of_mem_hexDigits {w n : Nat} {c : Char} (h : c ∈ hexDigits w n) :
    c.utf8Size = 1 := by
  induction w generalizing n with
  | zero => nomatch h
  | succ w ih =>
    rcases List.mem_append.1 h with h | h
    · exact ih h
    · rw [List.mem_singleton.1 h]
      exact utf8Size_hexDigit n

end Text

/-! ### Digests -/

/-- A digest is 64 bytes wide, whatever was digested. -/
theorem Sha256.length_encodeUtf8_hex (message : List UInt8) :
    (Text.encodeUtf8 (Sha256.hex message)).length = 64 := by
  rw [Sha256.hex, Text.length_encodeUtf8_ofList]
  · simp only [List.length_flatMap, Text.length_hexDigits]
    rfl
  · intro c hc
    obtain ⟨w, -, hw⟩ := List.mem_flatMap.1 hc
    exact Text.utf8Size_of_mem_hexDigits hw

/-! ### Parts with an end mark -/

theorem append_mark_inj {α : Type _} {mark : α} {x y r s : List α} (hx : mark ∉ x)
    (hy : mark ∉ y) (h : x ++ mark :: r = y ++ mark :: s) : x = y ∧ r = s := by
  induction x generalizing y with
  | nil =>
    cases y with
    | nil => exact ⟨rfl, (List.cons.inj h).2⟩
    | cons b y => exact absurd ((List.cons.inj h).1 ▸ List.mem_cons_self) hy
  | cons a x ih =>
    cases y with
    | nil => exact absurd ((List.cons.inj h).1 ▸ List.mem_cons_self) hx
    | cons b y =>
      obtain ⟨hab, hrest⟩ := List.cons.inj h
      obtain ⟨hxy, hrs⟩ := ih (fun hm ↦ hx (List.mem_cons_of_mem a hm))
        (fun hm ↦ hy (List.mem_cons_of_mem b hm)) hrest
      exact ⟨by rw [hab, hxy], hrs⟩

/-- Parts without the mark can be told apart by it. -/
theorem flatMap_concat_inj {α : Type _} {mark : α} {xs ys : List (List α)}
    (hx : ∀ x ∈ xs, mark ∉ x) (hy : ∀ y ∈ ys, mark ∉ y)
    (h : (xs.flatMap fun x ↦ x ++ [mark]) = ys.flatMap fun y ↦ y ++ [mark]) : xs = ys := by
  induction xs generalizing ys with
  | nil =>
    cases ys with
    | nil => rfl
    | cons y ys => simp at h
  | cons x xs ih =>
    cases ys with
    | nil => simp at h
    | cons y ys =>
      simp only [List.flatMap_cons, List.append_assoc, List.singleton_append] at h
      obtain ⟨rfl, hrest⟩ :=
        append_mark_inj (hx x List.mem_cons_self) (hy y List.mem_cons_self) h
      rw [ih (fun z hz ↦ hx z (List.mem_cons_of_mem x hz))
        (fun z hz ↦ hy z (List.mem_cons_of_mem x hz)) hrest]

/-! ### Paths -/

namespace Path

/-- A relative path as it is read from a text or found on a disk: every name has characters, is not
`.`, and has neither a slash nor a zero character in it. -/
structure Proper (p : Path) : Prop where
  relative : p.anchor = .relative
  names : ∀ n ∈ p.names, n ≠ "" ∧ n ≠ "." ∧ '/' ∉ n.toList ∧ '\x00' ∉ n.toList

instance (p : Path) : Decidable p.Proper :=
  decidable_of_iff (p.anchor = .relative ∧
    ∀ n ∈ p.names, n ≠ "" ∧ n ≠ "." ∧ '/' ∉ n.toList ∧ '\x00' ∉ n.toList)
    ⟨fun h ↦ ⟨h.1, h.2⟩, fun h ↦ ⟨h.1, h.2⟩⟩

theorem Proper.named {p : Path} (hp : p.Proper) : p.Named :=
  fun n hn ↦ ⟨(hp.names n hn).1, (hp.names n hn).2.1, (hp.names n hn).2.2.1⟩

theorem text_of_names_eq_nil {p : Path} (hp : p.Proper) (hnames : p.names = []) :
    p.text = "." := by
  obtain ⟨anchor, names⟩ := p
  obtain rfl : anchor = .relative := hp.relative
  obtain rfl : names = [] := hnames
  rfl

theorem not_mem_intercalate {sep x : Char} (hs : x ≠ sep) {ls : List (List Char)}
    (h : ∀ l ∈ ls, x ∉ l) : x ∉ [sep].intercalate ls := by
  induction ls with
  | nil => simp
  | cons l ls ih =>
    have hl := h l List.mem_cons_self
    have ih := ih fun m hm ↦ h m (List.mem_cons_of_mem l hm)
    cases ls with
    | nil => simpa using hl
    | cons m ms =>
      rw [List.intercalate_cons_cons, List.append_assoc, List.mem_append, List.mem_append,
        List.mem_singleton]
      rintro (hx | hx | hx)
      · exact hl hx
      · exact hs hx
      · exact ih hx

/-- The text of a proper path has no zero character. -/
theorem zero_not_mem_text {p : Path} (hp : p.Proper) : '\x00' ∉ p.text.toList := by
  by_cases hnames : p.names = []
  · rw [text_of_names_eq_nil hp hnames]
    decide
  · rw [toList_text_eq (.inr hnames), hp.relative, Anchor.slashes, List.nil_append, joined]
    refine not_mem_intercalate (by decide) fun l hl ↦ ?_
    obtain ⟨n, hn, rfl⟩ := List.mem_map.1 hl
    exact (hp.names n hn).2.2.2

/-- No two proper paths have one text. -/
theorem text_inj {p q : Path} (hp : p.Proper) (hq : q.Proper) (h : p.text = q.text) : p = q :=
  hp.named.eq_of_text_eq hq.named h

end Path

end ConceptAtlas
