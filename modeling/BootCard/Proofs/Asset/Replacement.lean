import BootCard.Proofs.Asset.Delivery
import BootCard.Proofs.World.Direct

/-!
This module contains the steps of staging: the digest of what is there, the move to the backup and
the copy. Whether a step succeeds or not, on a card without links only what is beneath the card
changes.
-/

namespace BootCard

open FileSystem

namespace Digest

theorem ofReads_readsOf (data : Bytes) : ofReads (readsOf data) = of data := by
  obtain ⟨pieces, heq, hne, hflat⟩ := readsOf_eq data
  rw [heq, ofReads_eq [] hne, hflat]

end Digest

namespace Session

variable {fs fs' : FileSystem} {source dest card : Pathname} {p : Place}

theorem copyFile_fills (hdest : dest.IsInner) :
    Fills card p fs ((copyFile source (card / dest)).start fs).2 := by
  unfold copyFile
  apply frame_bind
  . exact refl_of _ fs
  intro found fs₁ hread
  obtain ⟨-, rfl⟩ := Prod.mk.inj hread
  cases found with
  | dir q => exact refl_of _ fs
  | file loc f =>
    apply frame_bind
    . exact refl_of _ fs
    rintro ⟨loc', f'⟩ fs₂ hopen hcard
    obtain ⟨hwrite, rfl⟩ := Prod.mk.inj hopen
    dsimp only at hwrite
    -- Both writes go to one location, where there is a file or nothing.
    obtain ⟨root, dir, name, rfl, rfl, hslot, hthere⟩ := hcard.openForWriting hdest hwrite
    have hstores (g g' : RegularFile) (data data' : Bytes) : Filled (.at root) fs
        ((fs.store (name :: dir) g' data').store (name :: dir) g data) := by
      unfold store
      rw [put_put]
      apply Filled.put (hslot.holds hdest)
      . rcases hthere with ⟨hnone, -⟩ | hfile
        . simp [hnone]
        . simp [hfile, Node.isFile]
      . simp
    dsimp only
    rw [start_bind, start_change]
    dsimp only
    rw [start_bind, start_ask]
    split
    next data _ heq =>
      obtain ⟨-, rfl⟩ := Prod.mk.inj heq
      exact hstores _ _ data []
    next e _ heq =>
      have := (Prod.mk.inj heq).1
      split at this <;> simp at this

end Session

namespace Staging

variable {w w' : World} {source dest card : Pathname} {p : Place}

def makeParent (dest : Pathname) : Action Unit :=
  match dest.parent? with
  | some dir => Action.during (.makingDirectory dir) (Action.onDisk (Session.makeDirs dir))
  | none => pure ()

def dropBackup (backup : Pathname) : Action Unit := do
  let entry ← Action.askDisk (·.entryAt backup)
  if entry.isOk then
    Action.during (.removingBackup backup) (Action.onDisk (Session.change (·.removeFile backup)))
  else
    pure ()

def moveAway (dest backup : Pathname) : Action Unit := do
  let moved ← Action.attempt (Session.change (·.rename dest backup))
  match moved with
  | .ok () => pure ()
  | .error _ =>
    Action.during (.copying dest backup) (Action.onDisk (Session.copyFile dest backup))
    Action.during (.removing dest) (Action.onDisk (Session.change (·.removeFile dest)))

def makeRoom (dest : Pathname) (there : Option Digest) : Action Unit :=
  if there.isSome then backUp dest else pure ()

def replace (source dest : Pathname) (there wanted : Option Digest) : Action Staged :=
  if there = wanted then do
    Action.printLine s!"[sync] {dest.display} is up-to-date"
    pure .upToDate
  else do
    makeRoom dest there
    Action.printLine s!"[sync] {dest.display} is updated"
    copy source dest
    pure .updated

theorem backUp_eq : backUp dest = (do
    dropBackup dest.backup
    moveAway dest dest.backup) := by
  unfold backUp dropBackup moveAway
  simp only [bind_assoc]
  congr 1
  funext entry
  cases entry.isOk <;> rfl

theorem stage_eq (asset : Asset) : stage card asset = (do
    Action.require (·.isFile asset.source) (.sourceNotRegular asset.source)
    Action.require (·.isDir card) (.rootNotDirectory card)
    makeParent (card / asset.dest)
    let there ← digest? (card / asset.dest)
    let wanted ← digest? asset.source
    Action.note .debug
      s!"{asset.dest.display}: source {digestText wanted} dest {digestText there}"
    replace asset.source (card / asset.dest) there wanted) := by
  have hif (c : Prop) [Decidable c] (x : Action Unit) (k : Action Staged) :
      (if c then x >>= fun _ => k else k) = ((if c then x else pure ()) >>= fun _ => k) := by
    split <;> simp
  unfold stage Action.require makeParent replace makeRoom
  simp only [bind_assoc, hif]
  cases (card / asset.dest).parent? <;> simp only [pure_bind]

/-! Steps that call nobody. -/

section Direct

variable {asset : Asset}

theorem isDirect_digest? (path : Pathname) : (digest? path).IsDirect (¬ ·.IsGenerators) := by
  have hio := Cause.not_isGenerators_io
  unfold digest?
  refine .bind (.askDisk _) fun there => ?_
  split
  . exact .pure none
  . exact .bind (.during _ (.onDisk hio _)) fun _ => .bind (.during _ (.ofExcept hio _)) fun _ =>
      .pure _

theorem isDirect_backUp : (backUp dest).IsDirect (¬ ·.IsGenerators) := by
  have hio := Cause.not_isGenerators_io
  rw [backUp_eq]
  refine .bind ?_ fun _ => ?_
  . unfold dropBackup
    refine .bind (.askDisk _) fun entry => ?_
    split
    . exact .during _ (.onDisk hio _)
    . exact .pure ()
  . unfold moveAway
    refine .bind (.attempt _) fun moved => ?_
    cases moved with
    | ok u => exact .pure ()
    | error e => exact .bind (.during _ (.onDisk hio _)) fun _ => .during _ (.onDisk hio _)

theorem isDirect_replace (there wanted : Option Digest) :
    (replace source dest there wanted).IsDirect (¬ ·.IsGenerators) := by
  have hio := Cause.not_isGenerators_io
  unfold replace makeRoom copy
  split
  . exact .bind (.printLine _) fun _ => .pure _
  refine .bind ?_ fun _ => .bind (.printLine _) fun _ => .bind ?_ fun _ => .pure _
  . split
    . exact isDirect_backUp
    . exact .pure ()
  . exact .bind (.during _ (.onDisk hio _)) fun _ => .bind (.during _ (.onDisk hio _)) fun _ =>
      .during _ (.onDisk hio _)

theorem isDirect_stage : (stage card asset).IsDirect (¬ ·.IsGenerators) := by
  have hio := Cause.not_isGenerators_io
  have hparent : (makeParent (card / asset.dest)).IsDirect (¬ ·.IsGenerators) := by
    unfold makeParent
    split
    . exact .during _ (.onDisk hio _)
    . exact .pure ()
  rw [stage_eq]
  exact .bind (.require (by simp [Cause.IsGenerators])) fun _ =>
    .bind (.require (by simp [Cause.IsGenerators])) fun _ => .bind hparent fun _ =>
    .bind (isDirect_digest? _) fun there => .bind (isDirect_digest? _) fun wanted =>
    .bind (.note _ _) fun _ => isDirect_replace there wanted

end Direct

/-! What a digest tells of the file that it is read from. -/

variable {loc : Location} {f : RegularFile}

/-- Whether a digest is that of what a path leads to, of which there is none if it leads nowhere. -/
def HasDigest (fs : FileSystem) (path : Pathname) (digest : Option Digest) : Prop :=
  (digest = none ∧ ∀ found, fs.find path ≠ .ok found) ∨
    ∃ loc f, fs.find path = .ok (.file loc f) ∧ digest = some (Digest.of f.data)

theorem start_digest? (path : Pathname) (w : World) : (digest? path).start w =
    if w.disk.exists? path then
      match w.disk.openForReading path with
      | .error e => (.error (.failed { during := [.opening path], cause := .io e }), w)
      | .ok (.dir _) =>
        (.error (.failed { during := [.reading path], cause := .io (.refused .isDirectory) }), w)
      | .ok (.file _ f) => (.ok (some (Digest.of f.data)), w)
    else
      (.ok none, w) := by
  unfold digest?
  rw [Action.start_bind, Action.start_askDisk]
  dsimp only
  cases w.disk.exists? path with
  | false => rfl
  | true =>
    rw [Bool.not_true, if_neg (by simp), if_pos rfl, Action.start_bind, Action.start_during,
      Action.start_onDisk_ask]
    cases w.disk.openForReading path with
    | error e => rfl
    | ok found =>
      cases found with
      | dir p => rfl
      | file loc f =>
        show (Except.ok (some (Digest.ofReads (Digest.readsOf f.data))), w) = _
        rw [Digest.ofReads_readsOf]

theorem digest?_eq_ok {d? : Option Digest} (h : (digest? source).start w = (.ok d?, w')) :
    w' = w ∧ HasDigest w.disk source d? := by
  rw [start_digest?] at h
  split at h
  next =>
    split at h
    next => simp at h
    next => simp at h
    next loc f hopen =>
      obtain ⟨rfl, rfl⟩ : d? = some (Digest.of f.data) ∧ w' = w := by simpa [eq_comm] using h
      exact ⟨rfl, .inr ⟨loc, f, openForReading_eq_ok hopen, rfl⟩⟩
  next hnot =>
    obtain ⟨rfl, rfl⟩ : d? = none ∧ w' = w := by simpa [eq_comm] using h
    exact ⟨rfl, .inl ⟨rfl, fun found hfind => hnot (exists?_eq_true.mpr ⟨found, hfind⟩)⟩⟩

theorem digest?_eq_of_find {d? : Option Digest} (h : (digest? source).start w = (.ok d?, w'))
    (hfind : w.disk.find source = .ok (.file loc f)) : d? = some (Digest.of f.data) := by
  obtain ⟨-, ⟨-, hnone⟩ | ⟨loc', f', hfind', hsome⟩⟩ := digest?_eq_ok h
  . exact absurd hfind (hnone _)
  . obtain ⟨rfl, rfl⟩ : loc = loc' ∧ f = f' := by simpa [hfind] using hfind'
    exact hsome

theorem canRead_of_digest? {d? : Option Digest} (h : (digest? source).start w = (.ok d?, w'))
    (hfind : w.disk.find source = .ok (.file loc f)) : f.mode.canRead = true := by
  rw [start_digest?, if_pos (exists?_eq_true.mpr ⟨_, hfind⟩), openForReading_file hfind] at h
  cases hread : f.mode.canRead with
  | true => rfl
  | false => simp [hread] at h

/-! Steps, whether they succeed or not. -/

@[simp]
theorem start_digest?_snd (path : Pathname) : ((digest? path).start w).2 = w := by
  rw [start_digest?]
  split
  . split <;> rfl
  . rfl

theorem setModified_fills {moment : Moment} {fs : FileSystem} (hdest : dest.IsInner) :
    Fills card p fs ((Session.change (·.setModified (card / dest) moment)).start fs).2 := by
  apply Session.frame_change
  intro fs' hset hcard
  unfold setModified at hset
  rw [except_bind_eq_ok] at hset
  obtain ⟨found, hread, hset⟩ := hset
  have hfind := openForReading_eq_ok hread
  cases found with
  | dir q =>
    obtain rfl := Except.ok.inj hset
    exact .refl p fs
  | file loc f =>
    obtain rfl := Except.ok.inj hset
    obtain ⟨root, dir, name, rfl, rfl, hslot, hnode⟩ := hcard.find_file hdest hfind
    exact .put (hslot.holds hdest) (by simp [hnode, Node.isFile]) (by simp)

theorem removeFile_fills {fs : FileSystem} (hdest : dest.IsInner) :
    Fills card p fs ((Session.change (·.removeFile (card / dest))).start fs).2 := by
  apply Session.frame_change
  intro fs' hremove hcard
  obtain ⟨root, dir, name, f, rfl, hslot, hnode, -, rfl⟩ := hcard.removeFile hdest hremove
  exact .erase (hslot.holds hdest) (by simp [hnode, Node.isFile])

theorem rename_fills {dest' : Pathname} {fs : FileSystem} (hdest : dest.IsInner)
    (hdest' : dest'.IsInner) :
    Fills card p fs ((Session.change (·.rename (card / dest) (card / dest'))).start fs).2 := by
  apply Session.frame_change
  intro fs' hrename hcard
  obtain ⟨root, dir, name, dir', name', f, rfl, hslot, hslot', hnode, hfile, rfl⟩ :=
    hcard.rename hdest hdest' hrename
  split
  . exact .refl _ fs
  . apply (Filled.erase (hslot.holds hdest) (by simp [hnode, Node.isFile])).trans
    apply Filled.put (hslot'.holds hdest')
    . rw [node?_erase]
      split
      . simp
      . exact hfile
    . simp

theorem copy_fills (hdest : dest.IsInner) :
    Fills card p w.disk ((copy source (card / dest)).start w).2.disk := by
  unfold copy
  apply Action.frame_bind
  . rw [Action.start_during_snd, Action.start_onDisk_disk]
    exact Session.copyFile_fills hdest
  intro _ w₁ _
  apply Action.frame_bind
  . rw [Action.start_during_snd, Action.start_onDisk_disk]
    exact refl_of _ w₁.disk
  intro found w₂ _
  dsimp only
  rw [Action.start_during_snd, Action.start_onDisk_disk]
  exact setModified_fills hdest

theorem backUp_fills (hdest : dest.IsInner) :
    Fills card p w.disk ((backUp (card / dest)).start w).2.disk := by
  rw [backUp_eq, Pathname.join_backup hdest.not_empty]
  apply Action.frame_bind
  . unfold dropBackup
    rw [Action.start_bind, Action.start_askDisk]
    dsimp only
    split
    . rw [Action.start_during_snd, Action.start_onDisk_disk]
      exact removeFile_fills hdest.backup
    . exact refl_of _ w.disk
  intro _ w₁ _
  unfold moveAway
  apply Action.frame_bind
  . exact rename_fills hdest hdest.backup
  intro moved w₂ _
  split
  . exact refl_of _ w₂.disk
  apply Action.frame_bind
  . rw [Action.start_during_snd, Action.start_onDisk_disk]
    exact Session.copyFile_fills hdest.backup
  intro _ w₃ _
  rw [Action.start_during_snd, Action.start_onDisk_disk]
  exact removeFile_fills hdest

theorem replace_fills (hdest : dest.IsInner) (there wanted : Option Digest) :
    Fills card p w.disk ((replace source (card / dest) there wanted).start w).2.disk := by
  unfold replace
  split
  . exact refl_of _ w.disk
  apply Action.frame_bind
  . unfold makeRoom
    split
    . exact backUp_fills hdest
    . exact refl_of _ w.disk
  intro _ w₁ _
  apply Action.frame_bind
  . exact refl_of _ w₁.disk
  intro _ w₂ _
  apply Action.frame_bind
  . exact copy_fills hdest
  intro _ w₃ _
  exact refl_of _ w₃.disk

end Staging

end BootCard
