import BootCard.Proofs.Asset.Updating

/-!
This module contains what staging an asset leaves when it fails: all that was there, wherever links
lead, and perhaps new directories above the destination. Once a file has been moved to its backup
nothing fails any more. Just an old backup may be lost that is a link, and only if the card is
reached through it.
-/

namespace BootCard

open FileSystem

namespace Staging

variable {w w' : World} {source card dest : Pathname} {asset : Asset} {stop : Stop}
variable {loc : Location} {f : RegularFile} {line : String}

/--
Whether nothing is lost: there may be new directories on the way to the one that a destination is
in, and all else is as it was.
-/
structure Spared (dest : Pathname) (fs fs' : FileSystem) : Prop where
  here : fs'.here = fs.here
  same : ∀ l, fs'.node? l = fs.node? l ∨
    fs.node? l = none ∧ fs'.node? l = some (.dir Mode.newDirectory) ∧
      ∃ parent x loc, dest.parent? = some parent ∧ x ∈ parent.ancestors ∧
        fs'.find x = .ok (.dir (.at loc)) ∧ l <:+ loc

/--
Whether all that is lost is an old backup that was a link on the way to the destination itself,
which cannot be reached without it.
-/
structure Severed (dest : Pathname) (fs fs' : FileSystem) : Prop where
  erased : ∃ dir name target, fs.Points dest dir name ∧
    fs.Points dest.backup dir (name ++ utf8 "~") ∧
    fs.node? ((name ++ utf8 "~") :: dir) = some (.link target) ∧
    fs' = fs.erase ((name ++ utf8 "~") :: dir)
  lost : ∀ ending a, fs'.walk ending dest ≠ .ok a

theorem Spared.of_eq {fs fs' : FileSystem} (h : fs' = fs) : Spared dest fs fs' where
  here := by rw [h]
  same _ := .inl (by rw [h])

theorem Spared.of_made {fs fs' : FileSystem} {parent x : Pathname}
    (hparent : dest.parent? = some parent) (hx : x ∈ parent.ancestors) (h : Made x fs fs') :
    Spared dest fs fs' := by
  obtain ⟨loc, hfind, -, hraised⟩ := h.leads
  refine ⟨hraised.here, fun l => ?_⟩
  rcases hraised.same l with heq | ⟨hnone, hnew, hl⟩
  . exact .inl heq
  . exact .inr ⟨hnone, hnew, parent, x, loc, hparent, hx, hfind, hl⟩

theorem makeParent_spared (hroot : w.disk.Rooted) (hcard : w.disk.isDir card = true)
    (hdest : dest.IsDownward) :
    Spared (card / dest) w.disk ((makeParent (card / dest)).start w).2.disk := by
  rcases makeParent_cases hroot hcard hdest rfl with heq | ⟨parent, x, hparent, hx, hmade, -⟩
  . exact .of_eq heq
  . exact .of_made hparent hx hmade

theorem inspect_spared (hroot : w.disk.Rooted) (hdest : asset.dest.IsDownward) :
    Spared (card / asset.dest) w.disk ((inspect card asset).start w).2.disk := by
  unfold inspect
  apply Action.keeps_bind (P := fun w₁ => Spared (card / asset.dest) w.disk w₁.disk)
  . rw [Action.start_require_snd]
    exact .of_eq rfl
  intro _ w₁ hfile _
  obtain ⟨-, rfl⟩ := Action.start_require_eq_ok.mp hfile
  apply Action.keeps_bind (P := fun w₁ => Spared (card / asset.dest) w.disk w₁.disk)
  . rw [Action.start_require_snd]
    exact .of_eq rfl
  intro _ w₁ hisDir _
  obtain ⟨hcard, rfl⟩ := Action.start_require_eq_ok.mp hisDir
  apply Action.keeps_bind (P := fun w₁ => Spared (card / asset.dest) w.disk w₁.disk)
  . exact makeParent_spared hroot hcard hdest
  intro _ w₁ _ hspared
  apply Action.keeps_bind (P := fun w₁ => Spared (card / asset.dest) w.disk w₁.disk)
  . rw [start_digest?_snd]
    exact hspared
  intro there w₂ _ hspared
  apply Action.keeps_bind (P := fun w₁ => Spared (card / asset.dest) w.disk w₁.disk)
  . rw [start_digest?_snd]
    exact hspared
  intro wanted w₃ _ hspared
  exact hspared

/-! The second half of staging. -/

theorem place_cases (hfind : w.disk.find source = .ok (.file loc f)) (hread : f.mode.canRead = true)
    (hnone : ∀ found, w.disk.find dest ≠ .ok found) (line : String) :
    (∃ w', (place source dest line).start w = (.ok .updated, w')) ∨
      ∃ f w', (place source dest line).start w = (.error (.failed f), w') ∧ w'.disk = w.disk := by
  by_cases hopen : ∃ mode r, w.disk.openForWriting dest mode = .ok r
  . obtain ⟨mode, r, hopen⟩ := hopen
    obtain ⟨loc', hempty, hopens⟩ := openForWriting_of_missing hopen hnone
    exact .inl ⟨_, start_place hfind hread hempty hopens⟩
  . exact .inr (place_refused fun mode r h => hopen ⟨mode, r, h⟩)

/-- What is asked of a source, so that it is not what is replaced or backed up. -/
def Free (fs : FileSystem) (source dest : Pathname) : Prop :=
  ∀ dir name, fs.Points dest dir name → name :: dir ∉ fs.visits source ∧
    (fs.Points dest.backup dir (name ++ utf8 "~") → (name ++ utf8 "~") :: dir ∉ fs.visits source)

theorem backUp_place_cases {l : Location} {g : RegularFile}
    (hfind : w.disk.find source = .ok (.file loc f)) (hread : f.mode.canRead = true)
    (hfree : Free w.disk source dest) (hdest : w.disk.find dest = .ok (.file l g))
    (line : String) :
    (∃ w₁ w₂, (backUp dest).start w = (.ok (), w₁) ∧
        (place source dest line).start w₁ = (.ok .updated, w₂)) ∨
      ∃ failure w', (backUp dest).start w = (.error (.failed failure), w') ∧
        (w'.disk = w.disk ∨ Severed dest w.disk w'.disk) := by
  obtain ⟨dir, name, hpoints, hthere⟩ := points_of_find hdest
  obtain ⟨node, hnode, hfile⟩ : ∃ node, w.disk.node? (name :: dir) = some node ∧
      node.isDir = false := by
    rcases hthere with ⟨target, hlink⟩ | rfl
    . exact ⟨.link target, hlink, rfl⟩
    . exact ⟨.file g, (mem_visits_of_find hdest).2, rfl⟩
  obtain ⟨hleft, hspare⟩ := hfree dir name hpoints
  rcases backUp_cases hpoints hnode hfile with
    ⟨hwritable, hbackup, -, hstill, hbackUp⟩ | ⟨failure, fs, hbackUp, hfs⟩
  . left
    exact ⟨_, _, hbackUp, start_place_of_moved hfind hread (hstill.of_replaced hdest) hleft
      (hspare hbackup) hwritable⟩
  . right
    refine ⟨failure, _, hbackUp, ?_⟩
    rcases hfs with rfl | ⟨rfl, hbackup, ⟨target, htarget⟩, hlost⟩
    . exact .inl rfl
    . exact .inr ⟨⟨dir, name, target, hpoints, hbackup, htarget, rfl⟩, hlost⟩

theorem replace_refused {there wanted : Option Digest}
    (hfind : w.disk.find source = .ok (.file loc f)) (hread : f.mode.canRead = true)
    (hfree : Free w.disk source dest) (hthere : HasDigest w.disk dest there)
    (h : (replace source dest there wanted).start w = (.error stop, w')) :
    w'.disk = w.disk ∨ Severed dest w.disk w'.disk := by
  let line := s!"[sync] {dest.display} is updated"
  unfold replace at h
  split at h
  . rcases Action.start_bind_eq_error.mp h with h | ⟨_, _, _, h⟩ <;> simp at h
  replace h : (makeRoom dest there >>= fun _ => place source dest line).start w =
    (.error stop, w') := h
  unfold makeRoom at h
  rcases hthere with ⟨rfl, hnone⟩ | ⟨l, g, hdest, rfl⟩
  . rw [Option.isSome_none, if_neg (by simp), pure_bind] at h
    rcases place_cases hfind hread hnone line with ⟨w₁, hplace⟩ | ⟨_, w₁, hplace, hdisk⟩
    . simp [hplace] at h
    . obtain rfl := (Prod.mk.inj (hplace.symm.trans h)).2
      exact .inl hdisk
  . rw [Option.isSome_some, if_pos rfl] at h
    rcases backUp_place_cases hfind hread hfree hdest line with
      ⟨w₁, w₂, hbackUp, hplace⟩ | ⟨_, w₁, hbackUp, hdisk⟩
    . rw [Action.start_bind_of_ok hbackUp, hplace] at h
      simp at h
    . rw [Action.start_bind_of_error hbackUp] at h
      obtain rfl := (Prod.mk.inj h).2
      exact hdisk

theorem free_of_inspect {digests : Option Digest × Option Digest} (hroot : w.disk.Rooted)
    (hdest : asset.dest.IsDownward)
    (hsource : ∀ l ∈ w.disk.visits asset.source, w.disk.locate? (card / asset.dest) ≠ some l ∧
      w.disk.locate? (card / asset.dest).backup ≠ some l)
    (h : (inspect card asset).start w = (.ok digests, w')) :
    Free w'.disk asset.source (card / asset.dest) := by
  obtain ⟨loc, f, hfind, -, -, -, -, hmade⟩ := inspect_eq_ok hroot hdest h
  rcases hmade with heq | ⟨above, hraised, hbare, habove⟩
  . rw [heq]
    exact fun _ _ hpoints => free_of_locate hfind hsource hpoints
  . exact (apart_of_raised hfind hraised hbare habove).free

/--
Staging that fails loses nothing, wherever links lead on the way to the card and on it: all entries
are as they were, and there may be new directories above the destination. Just one thing may be
lost: an old backup that is a link, if the destination is reached through it. Once what was at the
destination has been moved to its backup, the rest cannot fail.
-/
theorem stage_loses_nothing (hroot : w.disk.Rooted) (hdest : asset.dest.IsDownward)
    (hsource : ∀ l ∈ w.disk.visits asset.source, w.disk.locate? (card / asset.dest) ≠ some l ∧
      w.disk.locate? (card / asset.dest).backup ≠ some l) :
    (∀ stop w', (stage card asset).start w = (.error stop, w') →
      Spared (card / asset.dest) w.disk w'.disk ∨ Severed (card / asset.dest) w.disk w'.disk) ∧
    ∀ there wanted w₁ w₂, (inspect card asset).start w = (.ok (some there, wanted), w₁) →
      (backUp (card / asset.dest)).start w₁ = (.ok (), w₂) →
      ∃ w', (stage card asset).start w =
        (.ok (if some there = wanted then .upToDate else .updated), w') := by
  constructor
  . intro stop w' h
    rw [stage_eq_inspect, Action.start_bind_eq_error] at h
    have hspared : Spared (card / asset.dest) w.disk ((inspect card asset).start w).2.disk :=
      inspect_spared hroot hdest
    rcases h with h | ⟨⟨there, wanted⟩, w₁, hinspect, hreplace⟩
    . rw [h] at hspared
      exact .inl hspared
    rw [hinspect] at hspared
    obtain ⟨loc, f, -, hfind, hread, hthere, -, hmade⟩ := inspect_eq_ok hroot hdest hinspect
    have hfree := free_of_inspect hroot hdest hsource hinspect
    rcases replace_refused hfind hread hfree hthere hreplace with heq | hsevered
    . rw [heq]
      exact .inl hspared
    . rcases hmade with heq | ⟨above, -, hbare, habove⟩
      . rw [heq] at hsevered
        exact .inr hsevered
      . -- A directory that has just been made has no link in it.
        obtain ⟨dir, name, target, hpoints, -, hlink, -⟩ := hsevered.erased
        obtain rfl := habove dir name hpoints
        simp [hbare _ (Place.holds_cons _)] at hlink
  . intro there wanted w₁ w₂ hinspect hbackUp
    obtain ⟨loc, f, -, hfind, hread, hthere, -, -⟩ := inspect_eq_ok hroot hdest hinspect
    have hfree := free_of_inspect hroot hdest hsource hinspect
    rcases hthere with ⟨hnone, -⟩ | ⟨l, g, hthere, -⟩
    . simp at hnone
    rw [stage_eq_inspect, Action.start_bind_of_ok hinspect]
    unfold replace
    dsimp only
    split
    . exact ⟨_, rfl⟩
    rcases backUp_place_cases hfind hread hfree hthere
      s!"[sync] {(card / asset.dest).display} is updated" with
      ⟨_, w', hbackUp', hplace⟩ | ⟨_, _, hbackUp', -⟩
    . obtain ⟨-, rfl⟩ := Prod.mk.inj (hbackUp.symm.trans hbackUp')
      unfold makeRoom
      rw [Option.isSome_some, if_pos rfl, Action.start_bind_of_ok hbackUp]
      exact ⟨w', hplace⟩
    . simp [hbackUp] at hbackUp'

def blockedCard : FileSystem :=
  [(Location.ofPath "/media/card/kernel8.img", Node.link (utf8 "older/kernel8.img")),
    (Location.ofPath "/media/card/older/kernel8.img", Node.file lockedImage),
    (Location.ofPath "/media/card/kernel8.img~/notes", Node.file lockedImage),
    (Location.ofPath "/card", Node.link (utf8 "media/card")),
    (Location.ofPath "/build/kernel8.img", Node.file sharedImage)].foldl
    FileSystem.lay FileSystem.empty

set_option maxRecDepth 100000 in
theorem stage_loses_nothing_blockedCard :
    (∃ stop w', (stage "/card" ⟨"/build/kernel8.img", "kernel8.img"⟩).start
        { disk := blockedCard } = (.error stop, w') ∧
      Spared "/card/kernel8.img" blockedCard w'.disk) ∧
    ∃ digests w₁ w₂ staged w₃, (inspect "/card" ⟨"/build/kernel8.img", "kernel8.img"⟩).start
        { disk := backedUpCard } = (.ok digests, w₁) ∧
      (backUp "/card/kernel8.img").start w₁ = (.ok (), w₂) ∧
      (stage "/card" ⟨"/build/kernel8.img", "kernel8.img"⟩).start
        { disk := backedUpCard } = (.ok staged, w₃) := by
  constructor
  . have hok : ((stage "/card" ⟨"/build/kernel8.img", "kernel8.img"⟩).start
        { disk := blockedCard }).1.isOk = false := by
      decide +kernel
    have hwalk : (((stage "/card" ⟨"/build/kernel8.img", "kernel8.img"⟩).start
        { disk := blockedCard }).2.disk.walk .keep ("/card" / "kernel8.img")).isOk = true := by
      decide +kernel
    rcases h : (stage "/card" ⟨"/build/kernel8.img", "kernel8.img"⟩).start { disk := blockedCard }
      with ⟨r, w'⟩
    rw [h] at hok hwalk
    cases r with
    | ok staged => simp [Except.isOk, Except.toBool] at hok
    | error stop =>
      rcases (stage_loses_nothing (show blockedCard.IsTree by decide +kernel).rooted
        (by decide +kernel) (by decide +kernel)).1 stop w' h with hspared | hsevered
      . exact ⟨stop, w', rfl, hspared⟩
      . cases hreach : w'.disk.walk .keep ("/card" / "kernel8.img") with
        | ok a => exact absurd hreach (hsevered.lost _ _)
        | error e => simp [hreach, Except.isOk, Except.toBool] at hwalk
  . have hthere : (((inspect "/card" ⟨"/build/kernel8.img", "kernel8.img"⟩).start
        { disk := backedUpCard }).1.toOption.bind (·.1)).isSome = true := by
      decide +kernel
    have hmoved : ((backUp ("/card" / "kernel8.img")).start ((inspect "/card"
        ⟨"/build/kernel8.img", "kernel8.img"⟩).start { disk := backedUpCard }).2).1 = .ok () := by
      decide +kernel
    rcases hinspect : (inspect "/card" ⟨"/build/kernel8.img", "kernel8.img"⟩).start
      { disk := backedUpCard } with ⟨r, w₁⟩
    rw [hinspect] at hthere hmoved
    rcases hbackUp : (backUp ("/card" / "kernel8.img")).start w₁ with ⟨r', w₂⟩
    rw [hbackUp] at hmoved
    obtain rfl : r' = .ok () := hmoved
    rcases r with stop | ⟨_ | there, wanted⟩
    . simp [Except.toOption] at hthere
    . simp [Except.toOption] at hthere
    . obtain ⟨w₃, hstage⟩ := (stage_loses_nothing (show backedUpCard.IsTree by decide +kernel).rooted
        (by decide +kernel) (by decide +kernel)).2 there wanted w₁ w₂ hinspect hbackUp
      exact ⟨_, w₁, w₂, _, w₃, rfl, hbackUp, hstage⟩

/-- A card that is reached through what is in the place of the backup, a link to it. -/
def knottedCard : FileSystem :=
  [(Location.ofPath "/card/kernel8.img", Node.file lockedImage),
    (Location.ofPath "/card/kernel8.img~", Node.link (utf8 ".")),
    (Location.ofPath "/build/kernel8.img", Node.file sharedImage)].foldl
    FileSystem.lay FileSystem.empty

set_option maxRecDepth 100000 in
/-- An old backup is lost, though staging fails, if the card is reached through it. -/
theorem stage_loses_backup :
    knottedCard.IsTree ∧
      (∀ l ∈ knottedCard.visits "/build/kernel8.img",
        knottedCard.locate? (("/card/kernel8.img~" : Pathname) / "kernel8.img") ≠ some l ∧
        knottedCard.locate? (("/card/kernel8.img~" : Pathname) / "kernel8.img").backup ≠ some l) ∧
      ((stage "/card/kernel8.img~" ⟨"/build/kernel8.img", "kernel8.img"⟩).start
        { disk := knottedCard }).1.isOk = false ∧
      knottedCard.node? (Location.ofPath "/card/kernel8.img~") = some (.link (utf8 ".")) ∧
      ((stage "/card/kernel8.img~" ⟨"/build/kernel8.img", "kernel8.img"⟩).start
        { disk := knottedCard }).2.disk.node? (Location.ofPath "/card/kernel8.img~") = none := by
  refine ⟨?_, ?_, ?_, ?_, ?_⟩ <;> decide +kernel

end Staging

end BootCard
