import BootCard.Disk.Layout
import BootCard.Proofs.Asset.Replacement
import BootCard.Proofs.Digest.Readers

/-!
This module contains what asking for the digest of a file comes to: nothing if the path leads
nowhere, a failure if what is there cannot be read, and otherwise the digest of the whole text, in
whatever pieces the text is read.
-/

namespace BootCard

open FileSystem Digest

namespace Staging

variable {w w' : World} {path : Pathname}

/-- The digest of the file that a path leads to, with the pieces in which its text is read. -/
def digestBy? (reads : Bytes → List Bytes) (path : Pathname) : Action (Option Digest) := do
  if !(← Action.askDisk (·.exists? path)) then
    pure none
  else
    let opened ← Action.during (.opening path) (Action.onDisk (Session.ask (·.openForReading path)))
    let data ← Action.during (.reading path) (Action.ofExcept .io opened.data)
    pure (some (Digest.ofReads (reads data)))

theorem digestBy?_readsOf (path : Pathname) : digestBy? readsOf path = digest? path := rfl

theorem digestBy?_reads (reader : Reader) (path : Pathname) :
    digestBy? reader.reads path = digest? path := by
  have hsame (data : Bytes) : ofReads (reader.reads data) = ofReads (readsOf data) := by
    rw [ofReads_readsOf, of_eq_ofBlocks]
    exact (reader.isCut_pieces data).goesThrough.digest_eq []
  rw [← digestBy?_readsOf]
  unfold digestBy?
  simp only [hsame]

/-- What asking for the digest of the file that a path leads to comes to. -/
inductive Digests (fs : FileSystem) (path : Pathname) : Except Stop (Option Digest) → Prop where
  | absent {e : IoError} : fs.find path = .error e → Digests fs path (.ok none)
  | hashed {loc : Location} {f : RegularFile} : fs.find path = .ok (.file loc f) →
    f.mode.canRead = true → Digests fs path (.ok (some (ofBlocks f.data)))
  | shut {found : Found} {e : IoError} : fs.find path = .ok found →
    fs.openForReading path = .error e →
    Digests fs path (.error (.failed { during := [.opening path], cause := .io e }))
  | directory {p : Place} : fs.openForReading path = .ok (.dir p) →
    Digests fs path
      (.error (.failed { during := [.reading path], cause := .io (.refused .isDirectory) }))

theorem Digests.start_eq {result : Except Stop (Option Digest)} (h : Digests w.disk path result) :
    (digest? path).start w = (result, w) := by
  have hexists {found : Found} (hfind : w.disk.find path = .ok found) :
      w.disk.exists? path = true := exists?_eq_true.mpr ⟨found, hfind⟩
  rw [start_digest?]
  cases h with
  | absent hfind =>
    have hnot : w.disk.exists? path = false := by simp [exists?, hfind, Except.isOk, Except.toBool]
    rw [hnot, if_neg (by simp)]
  | hashed hfind hread =>
    rw [if_pos (hexists hfind), openForReading_file hfind, if_pos hread, ← of_eq_ofBlocks]
  | shut hfind hopen => rw [if_pos (hexists hfind), hopen]
  | directory hopen => rw [if_pos (hexists (openForReading_eq_ok hopen)), hopen]

theorem exists_digests (fs : FileSystem) (path : Pathname) :
    ∃ result, Digests fs path result := by
  cases hfind : fs.find path with
  | error e => exact ⟨_, .absent hfind⟩
  | ok found =>
    cases hopen : fs.openForReading path with
    | error e => exact ⟨_, .shut hfind hopen⟩
    | ok opened =>
      cases opened with
      | dir p => exact ⟨_, .directory hopen⟩
      | file loc f =>
        have hfile := openForReading_eq_ok hopen
        rw [openForReading_file hfile] at hopen
        split at hopen
        next hread => exact ⟨_, .hashed hfile hread⟩
        next => simp at hopen

theorem start_digest?_iff {result : Except Stop (Option Digest)} :
    (digest? path).start w = (result, w') ↔ w' = w ∧ Digests w.disk path result := by
  constructor
  . intro h
    obtain ⟨result', hresult⟩ := exists_digests w.disk path
    obtain ⟨rfl, rfl⟩ := Prod.mk.inj (hresult.start_eq.symm.trans h)
    exact ⟨rfl, hresult⟩
  . rintro ⟨rfl, h⟩
    exact h.start_eq

theorem start_digest?_fst_iff {result : Except Stop (Option Digest)} :
    ((digest? path).start w).1 = result ↔ Digests w.disk path result := by
  constructor
  . intro h
    exact (start_digest?_iff.mp (Prod.ext h (start_digest?_snd path))).2
  . intro h
    rw [h.start_eq]

theorem digests_none_iff {fs : FileSystem} :
    Digests fs path (.ok none) ↔ ∀ found, fs.find path ≠ .ok found := by
  constructor
  . intro h found
    cases h with
    | absent hfind => simp [hfind]
  . intro hnone
    cases hfind : fs.find path with
    | error e => exact .absent hfind
    | ok found => exact absurd hfind (hnone found)

theorem exists_digests_error_iff {fs : FileSystem} :
    (∃ stop, Digests fs path (.error stop)) ↔ (∃ found, fs.find path = .ok found) ∧
      ((∃ e, fs.openForReading path = .error e) ∨ fs.isDir path = true) := by
  constructor
  . rintro ⟨stop, h⟩
    cases h with
    | shut hfind hopen => exact ⟨⟨_, hfind⟩, .inl ⟨_, hopen⟩⟩
    | directory hopen =>
      have hfind := openForReading_eq_ok hopen
      exact ⟨⟨_, hfind⟩, .inr (isDir_eq_true.mpr ⟨_, hfind⟩)⟩
  . rintro ⟨⟨found, hfind⟩, ⟨e, hopen⟩ | hdir⟩
    . exact ⟨_, .shut hfind hopen⟩
    . obtain ⟨p, hdir⟩ := isDir_eq_true.mp hdir
      cases hopen : fs.openForReading path with
      | error e => exact ⟨_, .shut hfind hopen⟩
      | ok opened =>
        obtain rfl : .dir p = opened := by simpa [hdir] using openForReading_eq_ok hopen
        exact ⟨_, .directory hopen⟩

/--
However a reader cuts a text into pieces, the loop that reads it goes through all of it, and the
digest is that of the text. There is none just when the path leads nowhere, and it cannot be told
just when what is there cannot be opened or is a directory.
-/
theorem digest_of_pieces (reader : Reader) (path : Pathname) (w : World) :
    (∀ data cut, (∃ r : Reader, r.pieces data = cut) ↔ IsCut data cut) ∧
    (∀ data, GoesThrough data (reader.pieces data)) ∧
    digestBy? reader.reads path = digest? path ∧
    (∀ result w', (digestBy? reader.reads path).start w = (result, w') ↔
      w' = w ∧ Digests w.disk path result) ∧
    (((digestBy? reader.reads path).start w).1 = .ok none ↔
      ∀ found, w.disk.find path ≠ .ok found) ∧
    ((∃ stop, ((digestBy? reader.reads path).start w).1 = .error stop) ↔
      (∃ found, w.disk.find path = .ok found) ∧
        ((∃ e, w.disk.openForReading path = .error e) ∨ w.disk.isDir path = true)) := by
  have hsame := digestBy?_reads reader path
  refine ⟨fun _ _ => Reader.exists_pieces_eq_iff,
    fun data => (reader.isCut_pieces data).goesThrough, hsame, ?_⟩
  rw [hsame]
  simp only [start_digest?_fst_iff]
  exact ⟨fun _ _ => start_digest?_iff, digests_none_iff, exists_digests_error_iff⟩

def someEntries : World where
  disk :=
    ([("/card/hello", .file ⟨utf8 "hello", Mode.newFile, .at 0⟩),
      ("/card/empty", .file ⟨[], Mode.newFile, .at 0⟩),
      ("/card/locked", .file ⟨utf8 "hello", Mode.ofNat 0, .at 0⟩),
      ("/card/programs", .dir Mode.newDirectory),
      ("/card/dangling", .link (utf8 "/nowhere")),
      ("/vault/hello", .file ⟨utf8 "hello", Mode.newFile, .at 0⟩),
      ("/vault", .dir (Mode.ofNat 0))] : List (Pathname × Node)).foldl
      (fun fs (path, node) => fs.lay (Location.ofPath path, node)) .empty

theorem digest_of_pieces_someEntries :
    ∃ reader : Reader, reader.pieces (utf8 "hello") = [utf8 "h", utf8 "el", utf8 "lo"] ∧
      (digestBy? reader.reads "/card/hello").start someEntries =
        (.ok (some (ofBlocks (utf8 "hello"))), someEntries) ∧
      (digestBy? reader.reads "/card/empty").start someEntries =
        (.ok (some (ofBlocks [])), someEntries) ∧
      ((digestBy? reader.reads "/card/dangling").start someEntries).1 = .ok none ∧
      ((digestBy? reader.reads "/vault/hello").start someEntries).1 = .ok none ∧
      (digestBy? reader.reads "/card/locked").start someEntries =
        (.error (.failed ⟨[.opening "/card/locked"], .io (.refused .accessDenied)⟩), someEntries) ∧
      (digestBy? reader.reads "/card/programs").start someEntries =
        (.error (.failed ⟨[.reading "/card/programs"], .io (.refused .isDirectory)⟩),
          someEntries) := by
  have hcut : IsCut (utf8 "hello") [utf8 "h", utf8 "el", utf8 "lo"] :=
    isCut_iff.mpr (by decide)
  obtain ⟨hcuts, -⟩ := digest_of_pieces (.giving .nil) "/card/hello" someEntries
  obtain ⟨reader, hpieces⟩ := (hcuts _ _).mpr hcut
  have hnone {path : Pathname} (h : someEntries.disk.exists? path = false) :
      ((digestBy? reader.reads path).start someEntries).1 = .ok none := by
    obtain ⟨-, -, -, -, habsent, -⟩ := digest_of_pieces reader path someEntries
    refine habsent.mpr fun found hfind => ?_
    simp [exists?_eq_true.mpr ⟨found, hfind⟩] at h
  have htells {path : Pathname} {result : Except Stop (Option Digest)}
      (h : Digests someEntries.disk path result) :
      (digestBy? reader.reads path).start someEntries = (result, someEntries) := by
    obtain ⟨-, -, -, htells, -⟩ := digest_of_pieces reader path someEntries
    exact (htells _ _).mpr ⟨rfl, h⟩
  have hfile (path : Pathname) (f : RegularFile)
      (h : (someEntries.disk.find path).toOption = some (.file (Location.ofPath path) f)) :
      someEntries.disk.find path = .ok (.file (Location.ofPath path) f) :=
    except_toOption_eq_some.mp h
  have hhello := hfile "/card/hello" ⟨utf8 "hello", Mode.newFile, .at 0⟩ (by decide +kernel)
  have hempty := hfile "/card/empty" ⟨[], Mode.newFile, .at 0⟩ (by decide +kernel)
  have hlocked := hfile "/card/locked" ⟨utf8 "hello", Mode.ofNat 0, .at 0⟩ (by decide +kernel)
  have hprograms : (someEntries.disk.openForReading "/card/programs").toOption =
      some (.dir (.at (Location.ofPath "/card/programs"))) := by decide +kernel
  have hhashed := Digests.hashed hhello (by decide)
  have hhashed' := Digests.hashed hempty (by decide)
  exact ⟨reader, hpieces, htells hhashed, htells hhashed',
    hnone (by decide +kernel), hnone (by decide +kernel),
    htells (.shut hlocked (openForReading_file hlocked)),
    htells (.directory (except_toOption_eq_some.mp hprograms))⟩

end Staging

end BootCard
