import ConceptAtlas.Digest.Content
import ConceptAtlas.Proofs.Digest.Framing

/-!
# What a fingerprint tells

A fingerprint is taken in two stages: the digest of all bytes, and the digest of that digest with
the relative paths behind it. The second stage is framed, so two lists of files with one fingerprint
have the same paths and the same digest of bytes. The first stage is not framed: it sees the bytes
of all files as one (`fingerprintBy_eq_iff`).

So a fingerprint does not tell where one file ends and the next begins. Two lists with one
fingerprint are the same exactly if their files have the same sizes (`eq_iff_sizes`), and bytes may
move from the end of one file to the start of the next without a trace.

Digests are those of `Sha256.hex`. That no two messages have one digest cannot be assumed of all
messages, there are more of them than digests; it is assumed of the two pairs of messages that are
compared (`Sha256.Apart`).
-/

namespace ConceptAtlas

/-- Two messages do not collide: if they have one digest, they are one message. -/
def Sha256.Apart (a b : List UInt8) : Prop := Sha256.hex a = Sha256.hex b → a = b

namespace Digest

variable {fs gs : List (Path × List UInt8)}

/-- The bytes of files as one message. -/
def joined (fs : List (Path × List UInt8)) : List UInt8 := fs.flatMap Prod.snd

/-- The message that the fingerprint of files is the digest of. -/
def sealed (fs : List (Path × List UInt8)) : List UInt8 :=
  fingerprintBytes (Sha256.hex (joined fs)) (fs.map Prod.fst)

/-- Whether all paths of a list of files are proper. -/
def Proper (fs : List (Path × List UInt8)) : Prop := ∀ f ∈ fs, f.1.Proper

instance (fs : List (Path × List UInt8)) : Decidable (Proper fs) :=
  inferInstanceAs (Decidable (∀ f ∈ fs, f.1.Proper))

/-! ### The second stage -/

/-- Paths with zero bytes behind them can be read back. -/
theorem paths_eq_of_framed {ps qs : List Path} (hp : ∀ p ∈ ps, p.Proper) (hq : ∀ q ∈ qs, q.Proper)
    (h : (ps.flatMap fun p ↦ Text.encodeUtf8 p.text ++ [0]) =
      qs.flatMap fun q ↦ Text.encodeUtf8 q.text ++ [0]) : ps = qs := by
  have hfree {rs : List Path} (hr : ∀ r ∈ rs, r.Proper) :
      ∀ x ∈ rs.map fun r ↦ Text.encodeUtf8 r.text, (0 : UInt8) ∉ x := by
    intro x hx
    obtain ⟨r, hmem, rfl⟩ := List.mem_map.1 hx
    exact Text.zero_not_mem_encodeUtf8 (Path.zero_not_mem_text (hr r hmem))
  have htexts :
      ps.map (fun p ↦ Text.encodeUtf8 p.text) = qs.map fun q ↦ Text.encodeUtf8 q.text := by
    refine flatMap_concat_inj (hfree hp) (hfree hq) ?_
    rw [List.flatMap_map, List.flatMap_map]
    exact h
  -- The texts are the same one by one, and a proper path has its text for itself.
  clear h
  induction ps generalizing qs with
  | nil =>
    cases qs with
    | nil => rfl
    | cons q qs => nomatch htexts
  | cons p ps ih =>
    cases qs with
    | nil => nomatch htexts
    | cons q qs =>
      obtain ⟨hhead, htail⟩ := List.cons.inj htexts
      rw [Path.text_inj (hp p List.mem_cons_self) (hq q List.mem_cons_self)
        (Text.encodeUtf8_inj hhead)]
      rw [ih (fun r hr ↦ hp r (List.mem_cons_of_mem p hr))
        (fun r hr ↦ hq r (List.mem_cons_of_mem q hr)) htail]

/-- **The second stage is framed**: a digest has a width of its own, so it ends before the paths. -/
theorem sealed_inj (hf : Proper fs) (hg : Proper gs) (h : sealed fs = sealed gs) :
    Sha256.hex (joined fs) = Sha256.hex (joined gs) ∧ fs.map Prod.fst = gs.map Prod.fst := by
  have hproper {hs : List (Path × List UInt8)} (hh : Proper hs) :
      ∀ p ∈ hs.map Prod.fst, p.Proper := by
    intro p hp
    obtain ⟨f, hmem, rfl⟩ := List.mem_map.1 hp
    exact hh f hmem
  have hwidth : (Text.encodeUtf8 (Sha256.hex (joined fs))).length =
      (Text.encodeUtf8 (Sha256.hex (joined gs))).length := by
    rw [Sha256.length_encodeUtf8_hex, Sha256.length_encodeUtf8_hex]
  -- The digest comes first and has 64 bytes in both, so both are cut at the same place.
  obtain ⟨hdigest, hpaths⟩ := List.append_inj h hwidth
  exact ⟨Text.encodeUtf8_inj hdigest, paths_eq_of_framed (hproper hf) (hproper hg) hpaths⟩

/-! ### Both stages -/

/-- **What a fingerprint tells** of files: their paths in order, and their bytes as one. -/
theorem fingerprintBy_eq_iff (hf : Proper fs) (hg : Proper gs)
    (hjoined : Sha256.Apart (joined fs) (joined gs))
    (hsealed : Sha256.Apart (sealed fs) (sealed gs)) :
    fingerprintBy Sha256.hex fs = fingerprintBy Sha256.hex gs ↔
      fs.map Prod.fst = gs.map Prod.fst ∧ joined fs = joined gs := by
  constructor
  · intro h
    obtain ⟨hdigest, hpaths⟩ := sealed_inj hf hg (hsealed h)
    exact ⟨hpaths, hjoined hdigest⟩
  · rintro ⟨hpaths, hbytes⟩
    rw [fingerprintBy, fingerprintBy, ← joined, ← joined, hpaths, hbytes]

/-- Paths and bytes as one leave open the sizes of the files, and nothing else. -/
theorem eq_iff_sizes (hpaths : fs.map Prod.fst = gs.map Prod.fst) (hbytes : joined fs = joined gs) :
    fs = gs ↔ (fs.map fun f ↦ f.2.length) = gs.map fun g ↦ g.2.length := by
  refine ⟨fun h ↦ by rw [h], fun hsizes ↦ ?_⟩
  have hcontents : fs.map Prod.snd = gs.map Prod.snd := by
    refine List.eq_iff_flatten_eq.2 ⟨?_, ?_⟩
    · rw [← List.flatMap_def, ← List.flatMap_def]
      exact hbytes
    · rw [List.map_map, List.map_map]
      exact hsizes
  exact (List.zip_of_prod hpaths hcontents).trans (List.zip_of_prod rfl rfl).symm

end Digest

end ConceptAtlas
