import BootCard.Proofs.Asset.Staging
import BootCard.Proofs.Asset.Survival

/-!
This module contains staging a plan for the second time. All of it is up to date then and nothing is
written, provided that no asset of the plan has disturbed what an earlier one has left.
-/

namespace BootCard

open FileSystem

namespace Staging

variable {w w' : World} {path dest card : Pathname} {p : Place} {asset : Asset}
variable {loc : Location} {f g : RegularFile}

theorem makeParent_of_find (h : w.disk.find dest = .ok (.file loc f)) :
    (makeParent dest).start w = (.ok (), w) := by
  unfold makeParent
  split
  next dir hdir =>
    rw [Action.start_during_eq_ok, Action.start_onDisk_eq_ok]
    refine ⟨w.disk, ?_, rfl⟩
    by_cases hne : dir.bytes = []
    . unfold Session.makeDirs
      rw [Pathname.ancestors]
      split <;> simp [Session.makeDirsFrom, hne]
    . obtain ⟨q, hq⟩ := exists_find_parent h hdir hne
      exact Session.makeDirs_of_find hq
  next => rfl

theorem digest?_of_find (h : w.disk.find path = .ok (.file loc f)) (hread : f.mode.canRead = true) :
    (digest? path).start w = (.ok (some (Digest.of f.data)), w) := by
  rw [start_digest?, if_pos (exists?_eq_true.mpr ⟨_, h⟩), openForReading_file h, if_pos hread]

theorem replace_upToDate {there wanted : Option Digest} {source : Pathname}
    (h : (replace source dest there wanted).start w = (.ok .upToDate, w')) :
    w'.disk = w.disk := by
  unfold replace at h
  split at h
  next =>
    simp only [Action.start_bind_eq_ok, Action.start_printLine, Action.start_pure,
      Prod.mk.injEq] at h
    obtain ⟨_, _, ⟨-, rfl⟩, -, rfl⟩ := h
    rfl
  next =>
    rw [Action.start_bind_eq_ok] at h
    obtain ⟨_, _, _, h⟩ := h
    rw [Action.start_bind_eq_ok] at h
    obtain ⟨_, _, _, h⟩ := h
    rw [Action.start_bind_eq_ok] at h
    obtain ⟨_, _, _, h⟩ := h
    simp at h

/--
Whether a file with the digest of its source is where an asset is to go, and both can be read.
-/
structure Settled (fs : FileSystem) (card : Pathname) (p : Place) (asset : Asset) : Prop where
  slot : fs.HasSlot card p asset.dest
  files : ∃ loc f g, fs.find asset.source = .ok (.file loc f) ∧ f.mode.canRead = true ∧
    fs.contents p (Location.ofPath asset.dest) = some g ∧ g.mode.canRead = true ∧
      Digest.of g.data = Digest.of f.data

theorem stage_of_settled (hdir : w.disk.isDir card = true) (h : Settled w.disk card p asset) :
    ∃ events, (stage card asset).start w =
      (.ok .upToDate, { w with transcript := w.transcript ++ events }) := by
  obtain ⟨loc, f, g, hsource, hf, hthere, hg, hsame⟩ := h.files
  obtain ⟨loc', hdest⟩ := h.slot.find_eq hthere
  have hfile : w.disk.isFile asset.source = true := isFile_eq_true.mpr ⟨loc, f, hsource⟩
  let wanted := digestText (some (Digest.of f.data))
  let there := digestText (some (Digest.of g.data))
  let note := s!"{asset.dest.display}: source {wanted} dest {there}"
  let line := s!"[sync] {(card / asset.dest).display} is up-to-date"
  refine ⟨[.noted .debug note, .printed (utf8 (line ++ "\n"))], ?_⟩
  rw [stage_eq]
  simp only [Action.start_bind_eq_ok, Action.start_require_eq_ok]
  refine ⟨(), w, ⟨hfile, rfl⟩, (), w, ⟨hdir, rfl⟩, (), w, makeParent_of_find hdest, _, w,
    digest?_of_find hdest hg, _, w, digest?_of_find hsource hf, (), _, Action.start_note _ _, ?_⟩
  unfold replace
  rw [if_pos (by rw [hsame]), Action.start_bind, Action.start_printLine]
  dsimp only
  rw [List.append_assoc]
  rfl

theorem settled_of_stage {staged : Staged} (hcard : w.disk.HasCard card p)
    (hdest : asset.dest.IsDownward) (hsource : ∀ l ∈ w.disk.visits asset.source, p.holds l = false)
    (h : (stage card asset).start w = (.ok staged, w')) : Settled w'.disk card p asset := by
  obtain ⟨parcel, hparcel, hdeliver, hstocked, hslot⟩ := stage_eq_ok hcard hdest hsource h
  obtain ⟨loc, hfind, hto⟩ := parcel?_eq_some_iff.mp hparcel
  rw [stage_eq] at h
  simp only [Action.start_bind_eq_ok, Action.start_require_eq_ok] at h
  obtain ⟨_, _, ⟨-, rfl⟩, _, _, ⟨-, rfl⟩, _, w₁, hparent, there, w₂, hthere, wanted, w₃, hwanted,
    _, w₄, hnote, hreplace⟩ := h
  have hgrown : Grown p (Location.ofPath asset.dest) w.disk w₁.disk := by
    have := makeParent_grows hdest (w := w) hcard
    rwa [hparent] at this
  obtain ⟨rfl, -⟩ := digest?_eq_ok hthere
  obtain ⟨rfl, -⟩ := digest?_eq_ok hwanted
  have hnoted : w₄.disk = w₃.disk := by rw [← (Prod.mk.inj hnote).2]
  have hread : parcel.file.mode.canRead = true :=
    canRead_of_digest? hwanted (((hgrown.filled.find_of_visits hsource).2 _ _).mpr hfind)
  have hfind' := ((hstocked.filled.find_of_visits hsource).2 _ _).mpr hfind
  refine ⟨hslot, loc, parcel.file, ?_⟩
  rw [← hto]
  cases hold : w.disk.contents p parcel.dest with
  | none =>
    rw [CardFiles.deliver_of_none hold] at hdeliver
    rw [← (Prod.mk.inj hdeliver).1]
    exact ⟨parcel.file, hfind', hread, CardFiles.set_self _ _, hread, rfl⟩
  | some g =>
    by_cases hsame : Digest.of g.data = Digest.of parcel.file.data
    . -- Nothing has been replaced, so what is there is what has been read.
      rw [CardFiles.deliver_of_same hold hsame] at hdeliver
      obtain ⟨hcontents, rfl⟩ := Prod.mk.inj hdeliver
      rw [hcontents] at hold
      obtain ⟨loc', hloc'⟩ := hslot.find_eq (hto ▸ hold)
      rw [replace_upToDate hreplace, hnoted] at hloc'
      exact ⟨g, hfind', hread, hold, canRead_of_digest? hthere hloc', hsame⟩
    . rw [CardFiles.deliver_of_other hold hsame] at hdeliver
      rw [← (Prod.mk.inj hdeliver).1]
      exact ⟨parcel.file, hfind', hread, CardFiles.set_self _ _, hread, rfl⟩

variable {plan : List Asset} {outcomes : List (Asset × Staged)}

theorem Settled.of_stageAll (hsettled : Settled w.disk card p asset)
    (hcard : w.disk.HasCard card p) (hsource : ∀ l ∈ w.disk.visits asset.source, p.holds l = false)
    (hdests : ∀ b ∈ plan, b.dest.IsDownward)
    (hsources : ∀ b ∈ plan, ∀ l ∈ w.disk.visits b.source, p.holds l = false)
    (hspares : ∀ b ∈ plan, Location.ofPath b.dest ≠ Location.ofPath asset.dest ∧
      Location.ofPath b.dest.backup ≠ Location.ofPath asset.dest)
    (h : (stageAll card plan).start w = (.ok outcomes, w')) : Settled w'.disk card p asset := by
  obtain ⟨parcels, hparcels, hdeliver, -, hstocked, hslots⟩ :=
    stageAll_eq_ok hcard hdests hsources h
  obtain ⟨parcelOf, rfl, hparcel⟩ := exists_eq_map_of_mapM hparcels
  obtain ⟨loc, f, g, hfind, hf, hthere, hg, hsame⟩ := hsettled.files
  refine ⟨hsettled.slot.of_routesIn hstocked.filled.routesIn hstocked.here.symm, loc, f, g,
    ((hstocked.filled.find_of_visits hsource).2 _ _).mpr hfind, hf, ?_, hg, hsame⟩
  have hparcels : ∀ parcel ∈ plan.map parcelOf, parcel.Spares ⟨f, Location.ofPath asset.dest⟩ := by
    intro parcel hmem
    obtain ⟨b, hb, rfl⟩ := List.mem_map.mp hmem
    obtain ⟨_, -, hdest⟩ := parcel?_eq_some_iff.mp (hparcel b hb)
    rw [Parcel.spares_iff, hdest]
    refine ⟨(hspares b hb).1, ?_⟩
    rw [← (hslots b hb).ofPath_backup (hdests b hb)]
    exact (hspares b hb).2
  have hkept : ((w.disk.contents p).deliverAll (plan.map parcelOf)).1 (Location.ofPath asset.dest) =
      w.disk.contents p (Location.ofPath asset.dest) := CardFiles.deliverAll_of_spares hparcels
  rw [hdeliver] at hkept
  exact hkept.trans hthere

theorem settled_of_stageAll (hcard : w.disk.HasCard card p)
    (hdests : ∀ asset ∈ plan, asset.dest.IsDownward)
    (hsources : ∀ asset ∈ plan, ∀ l ∈ w.disk.visits asset.source, p.holds l = false)
    (hspares : plan.Pairwise fun a b => Location.ofPath b.dest ≠ Location.ofPath a.dest ∧
      Location.ofPath b.dest.backup ≠ Location.ofPath a.dest)
    (h : (stageAll card plan).start w = (.ok outcomes, w')) :
    ∀ asset ∈ plan, Settled w'.disk card p asset := by
  induction plan generalizing w outcomes with
  | nil => simp
  | cons asset plan ih =>
    rw [stageAll_cons] at h
    simp only [Action.start_bind_eq_ok, Action.start_during_eq_ok, Action.start_pure,
      Prod.mk.injEq, Except.ok.injEq] at h
    obtain ⟨staged, w₁, hstage, rest, _, hrest, rfl, rfl⟩ := h
    obtain ⟨hspare, hspares⟩ := List.pairwise_cons.mp hspares
    have hsource := hsources asset (by simp)
    have hsettled := settled_of_stage hcard (hdests asset (by simp)) hsource hstage
    obtain ⟨-, -, -, hstocked, -⟩ := stage_eq_ok hcard (hdests asset (by simp)) hsource hstage
    have hcard₁ := hstocked.filled.hasCard hcard
    have hsources₁ : ∀ a ∈ asset :: plan, ∀ l ∈ w₁.disk.visits a.source, p.holds l = false := by
      intro a ha
      rw [(hstocked.filled.find_of_visits (hsources a ha)).1]
      exact hsources a ha
    have hdests₁ : ∀ a ∈ plan, a.dest.IsDownward := fun a ha => hdests a (by simp [ha])
    have hrests₁ : ∀ a ∈ plan, ∀ l ∈ w₁.disk.visits a.source, p.holds l = false :=
      fun a ha => hsources₁ a (by simp [ha])
    intro a ha
    rcases List.mem_cons.mp ha with rfl | ha
    . exact hsettled.of_stageAll hcard₁ (hsources₁ a (by simp)) hdests₁ hrests₁ hspare hrest
    . exact ih hcard₁ hdests₁ hrests₁ hspares hrest a ha

theorem stageAll_of_settled (hdir : plan ≠ [] → w.disk.isDir card = true)
    (h : ∀ asset ∈ plan, Settled w.disk card p asset) :
    ∃ events, (stageAll card plan).start w =
      (.ok (plan.map (·, .upToDate)), { w with transcript := w.transcript ++ events }) := by
  induction plan generalizing w with
  | nil => exact ⟨[], by simp [stageAll]⟩
  | cons asset plan ih =>
    have hdir := hdir (by simp)
    obtain ⟨events, hstage⟩ := stage_of_settled hdir (h asset (by simp))
    obtain ⟨events', hrest⟩ := ih (w := { w with transcript := w.transcript ++ events })
      (fun _ => hdir) fun a ha => h a (by simp [ha])
    refine ⟨events ++ events', ?_⟩
    rw [stageAll_cons]
    simp only [Action.start_bind_eq_ok, Action.start_during_eq_ok]
    refine ⟨_, _, hstage, _, _, hrest, ?_⟩
    dsimp only
    rw [List.append_assoc]
    rfl

/--
Staging a plan again, on a card without links, finds all of it up to date and changes nothing. The
assets have to go to different places, and none may have its backup where an earlier one has gone.
-/
theorem stageAll_again {v : World} (hcard : w.disk.find card = .ok (.dir p))
    (hlinks : w.disk.NoLinks p) (hdests : ∀ asset ∈ plan, asset.dest.IsDownward)
    (hsources : ∀ asset ∈ plan, ∀ l ∈ w.disk.visits asset.source, p.holds l = false)
    (hspares : plan.Pairwise fun a b => Location.ofPath b.dest ≠ Location.ofPath a.dest ∧
      Location.ofPath b.dest.backup ≠ Location.ofPath a.dest)
    (h : (stageAll card plan).start w = (.ok outcomes, w')) (hdisk : v.disk = w'.disk) :
    ∃ events, (stageAll card plan).start v =
      (.ok (plan.map (·, .upToDate)), { v with transcript := v.transcript ++ events }) := by
  have hcard : w.disk.HasCard card p := ⟨hcard, hlinks⟩
  apply stageAll_of_settled (p := p)
  . intro _
    obtain ⟨-, -, -, -, hstocked, -⟩ := stageAll_eq_ok hcard hdests hsources h
    rw [hdisk]
    exact isDir_eq_true.mpr ⟨p, (hstocked.filled.hasCard hcard).leads⟩
  . rw [hdisk]
    exact settled_of_stageAll hcard hdests hsources hspares h

set_option maxRecDepth 100000 in
theorem stageAll_again_usedCard :
    ∃ outcomes w', (stageAll "/card" kernelTwice).start { disk := usedCard } = (.ok outcomes, w') ∧
      ∃ events, (stageAll "/card" kernelTwice).start w' =
        (.ok (kernelTwice.map (·, .upToDate)),
          { w' with transcript := w'.transcript ++ events }) := by
  have hok : ((stageAll "/card" kernelTwice).start { disk := usedCard }).1.isOk = true := by
    decide +kernel
  rcases h : (stageAll "/card" kernelTwice).start { disk := usedCard } with ⟨r, w'⟩
  rw [h] at hok
  cases r with
  | error e => simp [Except.isOk, Except.toBool] at hok
  | ok outcomes =>
    exact ⟨outcomes, w', rfl, stageAll_again (p := .at (Location.ofPath "/card"))
      (by decide +kernel) (by decide +kernel) (by decide +kernel) (by decide +kernel)
      (by decide +kernel) h rfl⟩

end Staging

end BootCard
