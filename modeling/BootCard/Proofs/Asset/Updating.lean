import BootCard.Proofs.Asset.Exchange
import BootCard.Proofs.Asset.Restaging

/-!
This module contains what staging an asset leaves when it succeeds, wherever links lead on the way
to the card and on it.
-/

namespace BootCard

open FileSystem

namespace Staging

variable {w w' : World} {card dest : Pathname} {asset : Asset} {staged : Staged}

theorem makeParent_cases (hroot : w.disk.Rooted) (hcard : w.disk.isDir card = true)
    (hdest : dest.IsDownward) {r : Except Stop Unit}
    (h : (makeParent (card / dest)).start w = (r, w')) :
    w'.disk = w.disk ∨ ∃ parent x, (card / dest).parent? = some parent ∧ x ∈ parent.ancestors ∧
      Made x w.disk w'.disk ∧ (r = .ok () → x = parent) := by
  unfold makeParent at h
  split at h
  next parent hparent =>
    rcases hmake : (Session.makeDirs parent).start w.disk with ⟨r', fs⟩
    have hdisk : w'.disk = fs := by
      have := congrArg (fun result => result.2.disk) h
      simpa [hmake] using this.symm
    rw [hdisk]
    rcases Session.makeDirs_cases hroot (fun _ => mayBeMade_of_isDir hcard hdest hparent) hmake with
      heq | ⟨x, hx, hmade, hok⟩
    . exact .inl heq
    . refine .inr ⟨parent, x, hparent, hx, hmade, ?_⟩
      rintro rfl
      rw [Action.start_during_eq_ok, Action.start_onDisk_eq_ok] at h
      obtain ⟨fs', hmake', -⟩ := h
      rw [hmake] at hmake'
      exact hok (Prod.mk.inj hmake').1
  next => exact .inl (congrArg (·.disk) (Prod.mk.inj h).2.symm)

theorem makeParent_eq_ok (hroot : w.disk.Rooted) (hcard : w.disk.isDir card = true)
    (hdest : dest.IsDownward) (h : (makeParent (card / dest)).start w = (.ok (), w')) :
    w'.disk = w.disk ∨ ∃ loc, Raised loc w.disk w'.disk ∧ w'.disk.IsBare (.at loc) ∧
      ∀ dir name, w'.disk.Points (card / dest) dir name → dir = loc := by
  rcases makeParent_cases hroot hcard hdest h with heq | ⟨parent, x, hparent, -, hmade, hok⟩
  . exact .inl heq
  . obtain rfl := hok rfl
    obtain ⟨loc, hfind, hbare, hraised⟩ := hmade.leads
    refine .inr ⟨loc, hraised, hbare, fun dir name hpoints => ?_⟩
    have hdir := hpoints.find_parent hparent (find_eq_dir.mp hfind).1.not_empty
    rw [hfind] at hdir
    simpa using hdir.symm

theorem free_of_locate {fs : FileSystem} {source : Pathname} {loc dir : Location} {name : Name}
    {f : RegularFile} (hfind : fs.find source = .ok (.file loc f))
    (hsource : ∀ l ∈ fs.visits source,
      fs.locate? dest ≠ some l ∧ fs.locate? dest.backup ≠ some l)
    (hpoints : fs.Points dest dir name) : name :: dir ∉ fs.visits source ∧
      (fs.Points dest.backup dir (name ++ utf8 "~") → (name ++ utf8 "~") :: dir ∉ fs.visits source) :=
  ⟨hpoints.not_mem_visits hfind fun l hl => (hsource l hl).1,
    fun hbackup => hbackup.not_mem_visits hfind fun l hl => (hsource l hl).2⟩

theorem apart_of_locate {fs : FileSystem} {source : Pathname} {loc : Location} {f : RegularFile}
    (hfind : fs.find source = .ok (.file loc f))
    (hlink : ∀ target, fs.entryAt dest ≠ .ok (.link target))
    (hsource : ∀ l ∈ fs.visits source,
      fs.locate? dest ≠ some l ∧ fs.locate? dest.backup ≠ some l) : Apart fs source dest where
  no_link dir name target hpoints hnode := by
    apply hlink target
    rw [hpoints.entryAt_eq, hnode]
  free _ _ hpoints := free_of_locate hfind hsource hpoints

theorem apart_of_raised {fs fs' : FileSystem} {source : Pathname} {loc l : Location}
    {f : RegularFile} (hfind : fs.find source = .ok (.file l f)) (hraised : Raised loc fs fs')
    (hbare : fs'.IsBare (.at loc))
    (hloc : ∀ dir name, fs'.Points dest dir name → dir = loc) : Apart fs' source dest where
  no_link dir name target hpoints := by
    obtain rfl := hloc dir name hpoints
    simp [hbare _ (Place.holds_cons name)]
  free dir name hpoints := by
    obtain rfl := hloc dir name hpoints
    have hfree (n : Name) : n :: dir ∉ fs'.visits source := by
      intro hmem
      obtain ⟨node, hnode⟩ := exists_node_of_mem_visits (hraised.find_file hfind).2 hmem
      simp [hbare _ (Place.holds_cons n)] at hnode
    exact ⟨hfree name, fun _ => hfree _⟩

def inspect (card : Pathname) (asset : Asset) : Action (Option Digest × Option Digest) := do
  Action.require (·.isFile asset.source) (.sourceNotRegular asset.source)
  Action.require (·.isDir card) (.rootNotDirectory card)
  makeParent (card / asset.dest)
  let there ← digest? (card / asset.dest)
  let wanted ← digest? asset.source
  Action.note .debug
    s!"{asset.dest.display}: source {digestText wanted} dest {digestText there}"
  pure (there, wanted)

theorem stage_eq_inspect (card : Pathname) (asset : Asset) : stage card asset =
    (inspect card asset >>= fun digests =>
      replace asset.source (card / asset.dest) digests.1 digests.2) := by
  rw [stage_eq]
  unfold inspect
  simp only [bind_assoc, pure_bind]

theorem inspect_eq_ok {digests : Option Digest × Option Digest} (hroot : w.disk.Rooted)
    (hdest : asset.dest.IsDownward) (h : (inspect card asset).start w = (.ok digests, w')) :
    ∃ loc f, w.disk.find asset.source = .ok (.file loc f) ∧
      w'.disk.find asset.source = .ok (.file loc f) ∧ f.mode.canRead = true ∧
      HasDigest w'.disk (card / asset.dest) digests.1 ∧ digests.2 = some (Digest.of f.data) ∧
      (w'.disk = w.disk ∨ ∃ above, Raised above w.disk w'.disk ∧ w'.disk.IsBare (.at above) ∧
        ∀ dir name, w'.disk.Points (card / asset.dest) dir name → dir = above) := by
  unfold inspect at h
  simp only [Action.start_bind_eq_ok, Action.start_require_eq_ok] at h
  obtain ⟨_, _, ⟨hfile, rfl⟩, _, _, ⟨hcard, rfl⟩, _, w₁, hparent, there, w₂, hthere, wanted, w₃,
    hwanted, _, w₄, hnote, hpure⟩ := h
  obtain ⟨hdigests, rfl⟩ := Prod.mk.inj hpure
  obtain rfl := Except.ok.inj hdigests
  obtain ⟨loc, f, hfind⟩ := isFile_eq_true.mp hfile
  obtain ⟨rfl, hthere⟩ := digest?_eq_ok hthere
  obtain ⟨rfl, -⟩ := digest?_eq_ok hwanted
  have hmade := makeParent_eq_ok hroot hcard hdest hparent
  have hfind' : w₃.disk.find asset.source = .ok (.file loc f) := by
    rcases hmade with heq | ⟨above, hraised, -⟩
    . rw [heq]
      exact hfind
    . exact (hraised.find_file hfind).2
  have hnoted : w₄.disk = w₃.disk := by rw [← (Prod.mk.inj hnote).2]
  rw [hnoted]
  exact ⟨loc, f, hfind, hfind', canRead_of_digest? hwanted hfind', hthere,
    digest?_eq_of_find hwanted hfind', hmade⟩

theorem stage_replaced (hroot : w.disk.Rooted) (hdest : asset.dest.IsDownward)
    (hlink : ∀ target, w.disk.entryAt (card / asset.dest) ≠ .ok (.link target))
    (hsource : ∀ l ∈ w.disk.visits asset.source, w.disk.locate? (card / asset.dest) ≠ some l ∧
      w.disk.locate? (card / asset.dest).backup ≠ some l)
    (h : (stage card asset).start w = (.ok staged, w')) :
    ∃ loc f fs, w.disk.find asset.source = .ok (.file loc f) ∧
      Apart fs asset.source (card / asset.dest) ∧
      Replaced fs (card / asset.dest) f (.ok staged) w'.disk ∧
      (fs = w.disk ∨ ∃ above, Raised above w.disk fs ∧ fs.IsBare (.at above) ∧
        ∀ dir name, fs.Points (card / asset.dest) dir name → dir = above) := by
  rw [stage_eq_inspect, Action.start_bind_eq_ok] at h
  obtain ⟨⟨there, wanted⟩, w₁, hinspect, hreplace⟩ := h
  obtain ⟨loc, f, hfind, hfind', hread, hthere, rfl, hmade⟩ := inspect_eq_ok hroot hdest hinspect
  have happart : Apart w₁.disk asset.source (card / asset.dest) := by
    rcases hmade with heq | ⟨above, hraised, hbare, habove⟩
    . rw [heq]
      exact apart_of_locate hfind hlink hsource
    . exact apart_of_raised hfind hraised hbare habove
  have hreplaced := replace_replaced hfind' hread happart hthere
  rw [hreplace] at hreplaced
  exact ⟨loc, f, w₁.disk, hfind, happart, hreplaced, hmade⟩

/--
Whether a file has been put where nothing was: it is there with all that belongs to it, the place of
its backup is as it was, and nothing else is different but for new directories above the file.
-/
structure Placed (dir : Location) (name : Name) (f : RegularFile) (fs fs' : FileSystem) : Prop where
  here : fs'.here = fs.here
  nothing : fs.node? (name :: dir) = none
  file : fs'.node? (name :: dir) = some (.file f)
  backup : fs'.node? ((name ++ utf8 "~") :: dir) = fs.node? ((name ++ utf8 "~") :: dir)
  same : ∀ l, l ≠ name :: dir → fs'.node? l = fs.node? l ∨
    fs.node? l = none ∧ fs'.node? l = some (.dir Mode.newDirectory) ∧
      (Place.at l).holds (name :: dir) = true

/--
Whether a file has been put where another one was: that one is at its backup with all that belongs
to it, where no directory has been, and nothing else is different.
-/
structure Exchanged (dir : Location) (name : Name) (g f : RegularFile) (fs fs' : FileSystem) :
    Prop where
  here : fs'.here = fs.here
  old : fs.node? (name :: dir) = some (.file g)
  no_dir : ∀ mode, fs.node? ((name ++ utf8 "~") :: dir) ≠ some (.dir mode)
  file : fs'.node? (name :: dir) = some (.file f)
  backup : fs'.node? ((name ++ utf8 "~") :: dir) = some (.file g)
  same : ∀ l, l ≠ name :: dir → l ≠ (name ++ utf8 "~") :: dir → fs'.node? l = fs.node? l

theorem placed_of_raised {fs fs' : FileSystem} {dir : Location} {name : Name} {f : RegularFile}
    (hraised : Raised dir fs fs') (hnone : fs'.node? (name :: dir) = none)
    (hbackup : fs'.node? ((name ++ utf8 "~") :: dir) = fs.node? ((name ++ utf8 "~") :: dir)) :
    Placed dir name f fs (fs'.put (name :: dir) (.file f)) where
  here := hraised.here
  nothing := hraised.node?_eq_none hnone
  file := node?_put_self _ _ _
  backup := by
    rw [node?_put_of_ne _ _ (by simp [utf8]), hbackup]
  same l hl := by
    rw [node?_put_of_ne _ _ hl]
    rcases hraised.same l with heq | ⟨hmissing, hnew, xs, hxs⟩
    . exact .inl heq
    . exact .inr ⟨hmissing, hnew, Place.holds_at.mpr ⟨name :: xs, by simp, by simp [hxs]⟩⟩

theorem exchanged_of_moved {fs : FileSystem} {dir : Location} {name : Name} {g f : RegularFile}
    (hnode : fs.node? (name :: dir) = some (.file g))
    (hold : ∀ mode, fs.node? ((name ++ utf8 "~") :: dir) ≠ some (.dir mode)) :
    Exchanged dir name g f fs (((fs.erase (name :: dir)).put ((name ++ utf8 "~") :: dir)
      (.file g)).put (name :: dir) (.file f)) where
  here := rfl
  old := hnode
  no_dir := hold
  file := node?_put_self _ _ _
  backup := by
    rw [node?_put_of_ne _ _ (by simp [utf8]), node?_put_self]
  same l hl hl' := by
    rw [node?_put_of_ne _ _ hl, node?_put_of_ne _ _ hl', node?_erase, if_neg hl]

/--
Staging that succeeds leaves everything as it was if a file with the digest of the source is there
already. Otherwise the source is there in the end, and another file that was there is its backup.
-/
theorem stage_updates (hroot : w.disk.Rooted) (hdest : asset.dest.IsDownward)
    (hlink : ∀ target, w.disk.entryAt (card / asset.dest) ≠ .ok (.link target))
    (hsource : ∀ l ∈ w.disk.visits asset.source, w.disk.locate? (card / asset.dest) ≠ some l ∧
      w.disk.locate? (card / asset.dest).backup ≠ some l)
    (h : (stage card asset).start w = (.ok staged, w')) :
    ∃ loc f, w.disk.find asset.source = .ok (.file loc f) ∧
      w'.disk.find asset.source = .ok (.file loc f) ∧
      match staged with
      | .upToDate => w'.disk = w.disk ∧ ∃ l g,
        w.disk.find (card / asset.dest) = .ok (.file l g) ∧ Digest.of g.data = Digest.of f.data
      | .updated => ∃ dir name, w'.disk.Points (card / asset.dest) dir name ∧
        ((∀ found, w.disk.find (card / asset.dest) ≠ .ok found) ∧
            Placed dir name f w.disk w'.disk ∨
          ∃ g, w.disk.find (card / asset.dest) = .ok (.file (name :: dir) g) ∧
            Digest.of g.data ≠ Digest.of f.data ∧
            w'.disk.Points (card / asset.dest).backup dir (name ++ utf8 "~") ∧
            Exchanged dir name g f w.disk w'.disk) := by
  obtain ⟨loc, f, fs, hfind, happart, hreplaced, hmade⟩ :=
    stage_replaced hroot hdest hlink hsource h
  refine ⟨loc, f, hfind, ?_⟩
  have hcases : ∀ dir name, fs.Points (card / asset.dest) dir name →
      fs = w.disk ∨ fs.IsBare (.at dir) ∧ Raised dir w.disk fs := by
    intro dir name hpoints
    rcases hmade with heq | ⟨above, hraised, hbare, habove⟩
    . exact .inl heq
    . obtain rfl := habove dir name hpoints
      exact .inr ⟨hbare, hraised⟩
  generalize hr : Except.ok staged = r at hreplaced
  generalize w'.disk = fs' at hreplaced ⊢
  cases hreplaced with
  | @upToDate l g hthere hsame =>
    obtain rfl := Except.ok.inj hr
    obtain ⟨dir, name, hpoints, ⟨target, htarget⟩ | rfl⟩ := points_of_find hthere
    . exact absurd htarget (happart.no_link dir name target hpoints)
    rcases hcases dir name hpoints with rfl | ⟨hbare, -⟩
    . exact ⟨hfind, rfl, _, g, hthere, hsame⟩
    . have hnode := (mem_visits_of_find hthere).2
      simp [hbare _ (Place.holds_cons name)] at hnode
  | @placed dir name hpoints hnone =>
    obtain rfl := Except.ok.inj hr
    have hplaced : Placed dir name f w.disk (fs.put (name :: dir) (.file f)) := by
      rcases hcases dir name hpoints with rfl | ⟨hbare, hraised⟩
      . exact placed_of_raised (.refl _ _) hnone rfl
      . have hspare := hbare _ (Place.holds_cons (name ++ utf8 "~"))
        exact placed_of_raised hraised hnone (hspare.trans (hraised.node?_eq_none hspare).symm)
    refine ⟨find_of_same hplaced.here (fun l hl => ?_) hfind, dir, name,
      hpoints.of_routesIn (routesIn_put hnone) rfl, .inl ⟨fun found hthere => ?_, hplaced⟩⟩
    . obtain ⟨node, hnode⟩ := exists_node_of_mem_visits hfind hl
      have hsame := hplaced.same l (by rintro rfl; simp [hplaced.nothing] at hnode)
      rcases hsame with heq | ⟨hmissing, -⟩
      . exact heq
      . simp [hnode] at hmissing
    . have hlost := hpoints.find_none hnone
      rcases hcases dir name hpoints with rfl | ⟨-, hraised⟩
      . simp [hlost] at hthere
      . cases found with
        | dir q => simp [hraised.find_dir hthere] at hlost
        | file l g => simp [(hraised.find_file hthere).2] at hlost
  | @exchanged dir name g hstill hnode hother hbackup hold =>
    obtain rfl := Except.ok.inj hr
    have hpoints := hstill.of_routesIn routesIn_erase rfl
    rcases hcases dir name hpoints with rfl | ⟨hbare, -⟩
    rotate_left
    . simp [hbare _ (Place.holds_cons name)] at hnode
    have hexchanged := exchanged_of_moved (f := f) hnode hold
    have hmoved := hstill.of_moved hnode
    have hempty : ((w.disk.erase (name :: dir)).put ((name ++ utf8 "~") :: dir)
        (.file g)).node? (name :: dir) = none := by
      simp [node?_put, node?_erase, utf8]
    have hpoints' : (FileSystem.put _ _ (.file f)).Points (card / asset.dest) dir name :=
      hmoved.of_routesIn (routesIn_put hempty) rfl
    obtain ⟨hfree, hspare⟩ := happart.free dir name hpoints
    refine ⟨find_of_same hexchanged.here (fun l hl => ?_) hfind, dir, name, hpoints',
      .inr ⟨g, hpoints.find_file hnode, hother, hpoints'.backup hbackup.walkable hbackup.fits,
        hexchanged⟩⟩
    apply hexchanged.same
    . rintro rfl
      exact hfree hl
    . rintro rfl
      exact hspare hbackup hl
  | refused => simp at hr
  | unlinked => simp at hr

def lockedImage : RegularFile := ⟨utf8 "older", .ofNat 0o400, .at 1⟩

def sharedImage : RegularFile := ⟨utf8 "newer", .ofNat 0o777, .at 2⟩

def backedUpCard : FileSystem :=
  [(Location.ofPath "/media/card/kernel8.img", Node.file lockedImage),
    (Location.ofPath "/media/card/kernel8.img~", Node.link (utf8 "/build/kernel8.img")),
    (Location.ofPath "/card", Node.link (utf8 "media/card")),
    (Location.ofPath "/build/kernel8.img", Node.file sharedImage)].foldl
    FileSystem.lay FileSystem.empty

set_option maxRecDepth 100000 in
theorem stage_updates_backedUpCard :
    ∃ w' dir name, (stage "/card" ⟨"/build/kernel8.img", "kernel8.img"⟩).start
        { disk := backedUpCard } = (.ok .updated, w') ∧
      w'.disk.Points "/card/kernel8.img" dir name ∧
      w'.disk.node? (name :: dir) = some (.file sharedImage) ∧
      w'.disk.node? ((name ++ utf8 "~") :: dir) = some (.file lockedImage) := by
  have hok : ((stage "/card" ⟨"/build/kernel8.img", "kernel8.img"⟩).start
      { disk := backedUpCard }).1 = .ok .updated := by
    decide +kernel
  rcases h : (stage "/card" ⟨"/build/kernel8.img", "kernel8.img"⟩).start { disk := backedUpCard }
    with ⟨r, w'⟩
  rw [h] at hok
  obtain rfl : r = .ok .updated := hok
  have hentry : backedUpCard.entryAt ("/card" / "kernel8.img") =
      .ok (.file lockedImage) := by
    decide +kernel
  have hthere : backedUpCard.find ("/card" / "kernel8.img") =
      .ok (.file (Location.ofPath "/media/card/kernel8.img") lockedImage) := by
    decide +kernel
  have hfind : backedUpCard.find "/build/kernel8.img" =
      .ok (.file (Location.ofPath "/build/kernel8.img") sharedImage) := by
    decide +kernel
  obtain ⟨loc, f, hsource, -, dir, name, hpoints, hplaced | hexchanged⟩ :=
    stage_updates (show backedUpCard.IsTree by decide +kernel).rooted (by decide +kernel)
      (by simp [hentry]) (by decide +kernel) h
  . exact absurd hthere (hplaced.1 _)
  . obtain ⟨g, hold, -, -, hexchanged⟩ := hexchanged
    obtain ⟨-, rfl⟩ := Found.file.inj (Except.ok.inj (hfind.symm.trans hsource))
    obtain ⟨-, rfl⟩ := Found.file.inj (Except.ok.inj (hthere.symm.trans hold))
    exact ⟨w', dir, name, rfl, hpoints, hexchanged.file, hexchanged.backup⟩

end Staging

end BootCard
