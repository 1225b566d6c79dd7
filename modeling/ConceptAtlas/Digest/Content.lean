import ConceptAtlas.Digest.Sha256
import ConceptAtlas.Files.Discovery

/-!
# Digests of content

Keys that tell whether content has changed. The digest of files is that of their bytes one after the
other; the fingerprint of discovered files adds their relative paths, because a concept may have its
id from its path.
-/

namespace ConceptAtlas.Digest

/-- The bytes of files one after the other. -/
def contents (d : Disk) : List Path → Except Fault (List UInt8)
  | [] => .ok []
  | p :: ps =>
    match d.read p with
    | .error fault => .error (.io (.hashing fault) (some p))
    | .ok bytes => (contents d ps).map (bytes ++ ·)

/-- The digest of files in their order. -/
def ofFiles (d : Disk) (paths : List Path) : Except Fault String :=
  (contents d paths).map Sha256.hex

/-- The digest of the files at any depth below a directory whose names end in a suffix. -/
def ofDirectory (d : Disk) (base : Path) (suffix : String) : Outcome String :=
  if !d.isDirectory base then refuse (.io .notDirectory (some base))
  else
    match Glob.deepOfString ("*" ++ suffix) with
    | .error fault => breakDown (.glob fault)
    | .ok g => (ofFiles d ((g.select d base).filter d.isFile)).mapError Failure.fault

/-- What the fingerprint of files is the digest of, given the digest of their bytes: that digest,
and each relative path with a zero byte after it. -/
def fingerprintBytes (digest : String) (relatives : List Path) : List UInt8 :=
  Text.encodeUtf8 digest ++ relatives.flatMap fun p ↦ Text.encodeUtf8 p.text ++ [0]

/-- The fingerprint of files, by any digest of bytes. -/
def fingerprintBy (hash : List UInt8 → String) (files : List (Path × List UInt8)) : String :=
  hash (fingerprintBytes (hash (files.flatMap Prod.snd)) (files.map Prod.fst))

/-- The discovered files with their bytes. -/
def load (d : Disk) : List FoundFile → Except Fault (List (Path × List UInt8))
  | [] => .ok []
  | f :: fs =>
    match d.read f.path with
    | .error fault => .error (.io (.hashing fault) (some f.path))
    | .ok bytes => (load d fs).map ((f.relative, bytes) :: ·)

/-- The fingerprint of discovered files. -/
def fingerprint (d : Disk) (files : List FoundFile) : Except Fault String :=
  (load d files).map (fingerprintBy Sha256.hex)

end ConceptAtlas.Digest
