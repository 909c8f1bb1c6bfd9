import BootCard.Proofs.Asset.Exchange
import BootCard.Disk.Layout
import Mathlib.Control.Monad.Basic

/-!
This module contains what staging does on a card without links. Whether it succeeds or not, only
what is beneath the card changes. If it succeeds, the assets have been delivered one after another.
-/

namespace BootCard

open FileSystem

namespace Staging

variable {w w' : World} {source dest card : Pathname} {p : Place}
variable {asset : Asset} {loc : Location} {f g : RegularFile}

/--
Whether a file system differs from another one by files beneath a directory, of which none has gone,
and by new directories above some destinations.
-/
structure Stocked (p : Place) (dests : List Location) (fs fs' : FileSystem) : Prop where
  here : fs'.here = fs.here
  same : ∀ loc, fs'.node? loc = fs.node? loc ∨
    (p.holds loc = true ∧ (∀ node, fs.node? loc = some node → node.isFile = true) ∧
      ∃ f, fs'.node? loc = some (.file f)) ∨
    (fs.node? loc = none ∧ fs'.node? loc = some (.dir Mode.newDirectory) ∧
      ∃ root, p = .at root ∧ (Place.at root).holds loc = true ∧
        ∃ rel ∈ dests, (Place.at loc).holds (rel ++ root) = true)

namespace Stocked

variable {fs fs₁ fs₂ : FileSystem} {dests dests' : List Location} {rel : Location}

theorem refl (p : Place) (dests : List Location) (fs : FileSystem) : Stocked p dests fs fs :=
  ⟨rfl, fun _ => .inl rfl⟩

theorem trans (h₁ : Stocked p dests fs fs₁) (h₂ : Stocked p dests fs₁ fs₂) :
    Stocked p dests fs fs₂ where
  here := h₂.here.trans h₁.here
  same loc := by
    rcases h₁.same loc with heq₁ | ⟨hloc, hold, f, hnew⟩ | ⟨hnone, hdir, habove⟩
    . rw [← heq₁]
      exact h₂.same loc
    . rcases h₂.same loc with heq₂ | ⟨-, -, hnew₂⟩ | ⟨hnone₂, -, -⟩
      . exact .inr (.inl ⟨hloc, hold, f, heq₂.trans hnew⟩)
      . exact .inr (.inl ⟨hloc, hold, hnew₂⟩)
      . simp [hnew] at hnone₂
    . rcases h₂.same loc with heq₂ | ⟨-, hold₂, -⟩ | ⟨hnone₂, -, -⟩
      . exact .inr (.inr ⟨hnone, heq₂.trans hdir, habove⟩)
      . simpa [Node.isFile] using hold₂ _ hdir
      . simp [hdir] at hnone₂

theorem mono (h : Stocked p dests fs fs₁) (hsub : dests ⊆ dests') : Stocked p dests' fs fs₁ where
  here := h.here
  same loc := by
    rcases h.same loc with heq | hfile | ⟨hnone, hdir, root, hp, hloc, rel, hrel, habove⟩
    . exact .inl heq
    . exact .inr (.inl hfile)
    . exact .inr (.inr ⟨hnone, hdir, root, hp, hloc, rel, hsub hrel, habove⟩)

theorem of_grown (h : Grown p rel fs fs₁) : Stocked p [rel] fs fs₁ where
  here := h.here
  same loc := by
    rcases h.same loc with heq | ⟨hnone, hdir, root, hp, hloc, habove⟩
    . exact .inl heq
    . exact .inr (.inr ⟨hnone, hdir, root, hp, hloc, rel, by simp, habove⟩)

theorem put (hloc : p.holds loc = true)
    (hold : ∀ node, fs.node? loc = some node → node.isFile = true) :
    Stocked p dests fs (fs.put loc (.file f)) where
  here := rfl
  same l := by
    rw [node?_put]
    split
    next heq =>
      subst heq
      exact .inr (.inl ⟨hloc, hold, f, rfl⟩)
    next => exact .inl rfl

theorem replaced {root dir : Location} {name : Name}
    (hholds : (Place.at root).holds (name :: dir) = true)
    (hnode : fs.node? (name :: dir) = some (.file g))
    (hbackup : ∀ node, fs.node? ((name ++ utf8 "~") :: dir) = some node → node.isFile = true) :
    Stocked (.at root) dests fs (((fs.erase (name :: dir)).put ((name ++ utf8 "~") :: dir)
      (.file g)).put (name :: dir) (.file f)) where
  here := rfl
  same l := by
    rw [node?_put, node?_put, node?_erase]
    split
    next heq =>
      subst heq
      exact .inr (.inl ⟨hholds, by simp [hnode, Node.isFile], f, rfl⟩)
    next =>
      split
      next heq =>
        subst heq
        exact .inr (.inl ⟨Place.holds_sibling hholds, hbackup, g, rfl⟩)
      next => exact .inl rfl

theorem filled (h : Stocked p dests fs fs₁) : Filled p fs fs₁ where
  here := h.here
  same loc := by
    rcases h.same loc with heq | ⟨hloc, hold, f, hnew⟩ | ⟨hnone, hdir, root, rfl, hloc, -⟩
    . exact .inl heq
    . exact .inr ⟨hloc, hold, by simp [hnew]⟩
    . exact .inr ⟨hloc, by simp [hnone], by simp [hdir]⟩

theorem eq_newDirectory {root : Location} {mode : Mode} (h : Stocked (.at root) dests fs fs₁)
    (hnone : fs.node? loc = none) (hmode : fs₁.node? loc = some (.dir mode)) :
    mode = Mode.newDirectory ∧ ∃ rel ∈ dests, (Place.at loc).holds (rel ++ root) = true := by
  rcases h.same loc with heq | ⟨-, -, f, hnew⟩ | ⟨-, hdir, _, ⟨⟩, -, habove⟩
  . simp [heq, hnone] at hmode
  . simp [hnew] at hmode
  . refine ⟨?_, habove⟩
    simpa using hmode.symm.trans hdir

end Stocked

theorem deliver_upToDate {loc : Location} (hcard : w.disk.HasCard card p) (hdest : dest.IsInner)
    (hloc : w.disk.find (card / dest) = .ok (.file loc g))
    (hsame : Digest.of g.data = Digest.of f.data) :
    (w.disk.contents p).deliver ⟨f, Location.ofPath dest⟩ = (w.disk.contents p, .upToDate) ∧
      w.disk.HasSlot card p dest := by
  obtain ⟨root, dir, name, rfl, rfl, hslot, hnode⟩ := hcard.find_file hdest hloc
  refine ⟨CardFiles.deliver_of_same (g := g) ?_ hsame, _, _, _, rfl, hslot⟩
  rw [contents_at, ← hslot.location, file?_eq_some, hnode]

theorem deliver_placed {fs : FileSystem} {root dir : Location} {name : Name}
    (hslot : fs.Slot card dest root dir name) (hnone : fs.node? (name :: dir) = none) :
    (fs.contents (.at root)).deliver ⟨f, Location.ofPath dest⟩ =
      ((fs.put (name :: dir) (.file f)).contents (.at root), .updated) := by
  rw [CardFiles.deliver_of_none, hslot.location, contents_put]
  rw [contents_at, ← hslot.location]
  unfold file?
  rw [hnone]

theorem deliver_exchanged {fs : FileSystem} {root dir : Location} {name : Name}
    (hdest : dest.IsInner) (hslot : fs.Slot card dest root dir name)
    (hnode : fs.node? (name :: dir) = some (.file g))
    (hother : Digest.of g.data ≠ Digest.of f.data) :
    (fs.contents (.at root)).deliver ⟨f, Location.ofPath dest⟩ =
      ((((fs.erase (name :: dir)).put ((name ++ utf8 "~") :: dir) (.file g)).put (name :: dir)
        (.file f)).contents (.at root), .updated) := by
  rw [CardFiles.deliver_of_other (g := g)]
  . have hrel := hslot.ofPath_backup hdest
    obtain ⟨mid, hend⟩ := hslot.ends
    rw [Location.ofPath_backup hdest hend] at hrel
    rw [hslot.location, ← hrel, contents_replace]
  . rw [contents_at, ← hslot.location, file?_eq_some, hnode]
  . exact hother

section Replace

variable {there : Option Digest}

theorem isInner_of_hasDigest {fs : FileSystem} (hcard : fs.HasCard card p)
    (hdest : dest.IsDownward) (hthere : HasDigest fs (card / dest) there)
    (hwalkable : (card / dest).IsWalkable) : dest.IsInner := by
  refine ⟨hdest, fun hnil => ?_⟩
  have hroot := hcard.find_empty hnil hwalkable
  rcases hthere with ⟨-, hnone⟩ | ⟨_, g, hfile, -⟩
  . exact hnone _ hroot
  . simp [hroot] at hfile

theorem apart_of_hasCard {fs : FileSystem} (hcard : fs.HasCard card p) (hdest : dest.IsDownward)
    (hthere : HasDigest fs (card / dest) there)
    (hsource : ∀ l ∈ fs.visits source, p.holds l = false) : Apart fs source (card / dest) := by
  have hholds (dir : Location) (name n : Name) (hpoints : fs.Points (card / dest) dir name) :
      p.holds (n :: dir) = true := by
    have hinner := isInner_of_hasDigest hcard hdest hthere hpoints.walkable
    obtain ⟨root, rfl, hslot⟩ := hcard.slot_of_points hinner hpoints
    exact Place.holds_sibling (hslot.holds hinner)
  have hfree (dir : Location) (name n : Name) (hpoints : fs.Points (card / dest) dir name) :
      n :: dir ∉ fs.visits source := by
    intro hmem
    simpa [hsource _ hmem] using hholds dir name n hpoints
  constructor
  . exact fun dir name _ hpoints => hcard.no_links _ _ (hholds dir name name hpoints)
  . exact fun dir name hpoints => ⟨hfree dir name _ hpoints, fun _ => hfree dir name _ hpoints⟩

theorem replace_eq_ok {staged : Staged} (hcard : w.disk.HasCard card p)
    (hdest : dest.IsDownward) (hfind : w.disk.find source = .ok (.file loc f))
    (hread : f.mode.canRead = true) (hsource : ∀ l ∈ w.disk.visits source, p.holds l = false)
    (hthere : HasDigest w.disk (card / dest) there)
    (h : (replace source (card / dest) there (some (Digest.of f.data))).start w =
      (.ok staged, w')) :
    (w.disk.contents p).deliver ⟨f, Location.ofPath dest⟩ = (w'.disk.contents p, staged) ∧
      Stocked p [Location.ofPath dest] w.disk w'.disk ∧ w.disk.HasSlot card p dest := by
  have hapart := apart_of_hasCard hcard hdest hthere hsource
  have hreplaced := replace_replaced hfind hread hapart hthere
  rw [h] at hreplaced
  dsimp only at hreplaced
  generalize w'.disk = fs' at hreplaced ⊢
  cases hreplaced with
  | upToDate hloc hsame =>
    obtain ⟨dir, name, -, hwalk⟩ := find_eq_file.mp hloc
    have hinner := isInner_of_hasDigest hcard hdest hthere (walk_eq_ok.mp hwalk).1
    obtain ⟨hdeliver, hslot⟩ := deliver_upToDate hcard hinner hloc hsame
    exact ⟨hdeliver, .refl _ _ _, hslot⟩
  | placed hpoints hnone =>
    have hinner := isInner_of_hasDigest hcard hdest hthere hpoints.walkable
    obtain ⟨root, rfl, hslot⟩ := hcard.slot_of_points hinner hpoints
    exact ⟨deliver_placed hslot hnone, .put (hslot.holds hinner) (by simp [hnone]),
      _, _, _, rfl, hslot⟩
  | @exchanged dir name g hstill hnode hother _ hold =>
    have hpoints := hstill.of_routesIn routesIn_erase rfl
    have hinner := isInner_of_hasDigest hcard hdest hthere hpoints.walkable
    obtain ⟨root, rfl, hslot⟩ := hcard.slot_of_points hinner hpoints
    have hholds := hslot.holds hinner
    refine ⟨deliver_exchanged hinner hslot hnode hother,
      .replaced hholds hnode fun node hbackup => ?_, _, _, _, rfl, hslot⟩
    cases node with
    | file _ => rfl
    | dir mode => exact absurd hbackup (hold mode)
    | link target => exact absurd hbackup (hcard.no_links _ _ (Place.holds_sibling hholds))

theorem replace_eq_error {s : Stop} (hcard : w.disk.HasCard card p) (hdest : dest.IsDownward)
    (hfind : w.disk.find source = .ok (.file loc f)) (hread : f.mode.canRead = true)
    (hsource : ∀ l ∈ w.disk.visits source, p.holds l = false)
    (hthere : HasDigest w.disk (card / dest) there)
    (h : (replace source (card / dest) there (some (Digest.of f.data))).start w = (.error s, w')) :
    w'.disk = w.disk := by
  have hapart := apart_of_hasCard hcard hdest hthere hsource
  have hreplaced := replace_replaced hfind hread hapart hthere
  rw [h] at hreplaced
  dsimp only at hreplaced
  generalize w'.disk = fs' at hreplaced ⊢
  cases hreplaced with
  | refused => rfl
  | unlinked hpoints hlink =>
    have hinner := isInner_of_hasDigest hcard hdest hthere hpoints.walkable
    obtain ⟨root, rfl, hslot⟩ := hcard.slot_of_points hinner hpoints
    exact absurd hlink (hcard.no_links _ _ (Place.holds_sibling (hslot.holds hinner)))

end Replace

theorem makeParent_grows (hdest : dest.IsDownward) :
    Grows card p (Location.ofPath dest) w.disk ((makeParent (card / dest)).start w).2.disk := by
  unfold makeParent
  split
  next dir hdir =>
    rw [Action.start_during_snd, Action.start_onDisk_disk]
    exact Session.makeDirs_grows hdest hdir
  next => exact refl_of _ w.disk

theorem stage_eq_ok {staged : Staged} (hcard : w.disk.HasCard card p)
    (hdest : asset.dest.IsDownward) (hsource : ∀ l ∈ w.disk.visits asset.source, p.holds l = false)
    (h : (stage card asset).start w = (.ok staged, w')) :
    ∃ parcel, w.disk.parcel? asset = some parcel ∧
      (w.disk.contents p).deliver parcel = (w'.disk.contents p, staged) ∧
      Stocked p [Location.ofPath asset.dest] w.disk w'.disk ∧
      w'.disk.HasSlot card p asset.dest := by
  rw [stage_eq] at h
  simp only [Action.start_bind_eq_ok, Action.start_require_eq_ok] at h
  obtain ⟨_, _, ⟨hfile, rfl⟩, _, _, ⟨-, rfl⟩, _, w₁, hparent, there, w₂, hthere, wanted, w₃,
    hwanted, _, w₄, hnote, hreplace⟩ := h
  obtain ⟨sloc, f, hfind⟩ := isFile_eq_true.mp hfile
  have hgrown : Grown p (Location.ofPath asset.dest) w.disk w₁.disk := by
    have := makeParent_grows hdest (w := w) hcard
    rwa [hparent] at this
  obtain ⟨hvisits, hfind₁⟩ := hgrown.filled.find_of_visits hsource
  have hcard₁ := hgrown.filled.hasCard hcard
  replace hfind₁ := (hfind₁ _ _).mpr hfind
  rw [← hvisits] at hsource
  obtain ⟨rfl, hthere⟩ := digest?_eq_ok hthere
  obtain ⟨rfl, -⟩ := digest?_eq_ok hwanted
  have hread := canRead_of_digest? hwanted hfind₁
  obtain rfl := digest?_eq_of_find hwanted hfind₁
  have hnoted : w₄.disk = w₃.disk := by rw [← (Prod.mk.inj hnote).2]
  rw [← hnoted] at hcard₁ hfind₁ hsource hthere hgrown
  obtain ⟨hdelivered, hstocked, hslot⟩ :=
    replace_eq_ok hcard₁ hdest hfind₁ hread hsource hthere hreplace
  refine ⟨⟨f, Location.ofPath asset.dest⟩, by simp [parcel?, hfind], ?_, ?_, ?_⟩
  . rw [← hdelivered, hgrown.contents_eq]
  . exact (Stocked.of_grown hgrown).trans hstocked
  . exact hslot.of_routesIn hstocked.filled.routesIn hstocked.here.symm

theorem stageAll_cons (asset : Asset) (plan : List Asset) :
    stageAll card (asset :: plan) = (do
      let staged ← Action.during (.staging asset.source asset.dest) (stage card asset)
      let rest ← stageAll card plan
      pure ((asset, staged) :: rest)) := by
  unfold stageAll
  rw [List.mapM_cons]
  simp only [bind_assoc, pure_bind]

theorem isDirect_stageAll {plan : List Asset} :
    (stageAll card plan).IsDirect (¬ ·.IsGenerators) := by
  induction plan with
  | nil => exact .pure []
  | cons asset plan ih =>
    rw [stageAll_cons]
    exact .bind (.during _ isDirect_stage) fun _ => .bind ih fun _ => .pure _

theorem exists_asset_of_stageAll {plan : List Asset} {s : Stop}
    (h : (stageAll card plan).start w = (.error s, w')) :
    ∃ done asset rest staged w₁, plan = done ++ asset :: rest ∧
      (stageAll card done).start w = (.ok staged, w₁) ∧
      (Action.during (.staging asset.source asset.dest) (stage card asset)).start w₁ =
        (.error s, w') := by
  induction plan generalizing w with
  | nil => simp [stageAll] at h
  | cons asset plan ih =>
    rw [stageAll_cons] at h
    rcases Action.start_bind_eq_error.mp h with hstage | ⟨staged, w₁, hstage, h⟩
    . exact ⟨[], asset, plan, [], w, rfl, rfl, hstage⟩
    rcases Action.start_bind_eq_error.mp h with hrest | ⟨_, _, _, h⟩
    . obtain ⟨done, asset', rest, staged', w₂, rfl, hdone, hfail⟩ := ih hrest
      refine ⟨asset :: done, asset', rest, (asset, staged) :: staged', w₂, rfl, ?_, hfail⟩
      rw [stageAll_cons, Action.start_bind_of_ok hstage, Action.start_bind_of_ok hdone]
      rfl
    . simp at h

theorem map_fst_of_stageAll {plan : List Asset} {staged : List (Asset × Staged)}
    (h : (stageAll card plan).start w = (.ok staged, w')) : staged.map (·.1) = plan := by
  induction plan generalizing w w' staged with
  | nil =>
    obtain ⟨hstaged, -⟩ := Prod.mk.inj h
    rw [← Except.ok.inj hstaged]
    rfl
  | cons asset plan ih =>
    rw [stageAll_cons] at h
    simp only [Action.start_bind_eq_ok, Action.start_pure, Prod.mk.injEq, Except.ok.injEq] at h
    obtain ⟨outcome, w₁, -, rest, w₂, hrest, rfl, -⟩ := h
    rw [List.map_cons, ih hrest]

theorem isDir_of_stageAll {plan : List Asset} {outcomes : List (Asset × Staged)} (hne : plan ≠ [])
    (h : (stageAll card plan).start w = (.ok outcomes, w')) : w.disk.isDir card = true := by
  cases plan with
  | nil => exact absurd rfl hne
  | cons asset plan =>
    rw [stageAll_cons, stage_eq] at h
    simp only [Action.start_bind_eq_ok, Action.start_during_eq_ok,
      Action.start_require_eq_ok] at h
    obtain ⟨_, _, ⟨_, _, ⟨-, rfl⟩, _, _, ⟨hdir, rfl⟩, -⟩, -⟩ := h
    exact hdir

theorem stageAll_of_not_isDir {plan : List Asset} (h : w.disk.isDir card = false) :
    ((stageAll card plan).start w).2 = w := by
  cases plan with
  | nil => rfl
  | cons asset plan =>
    have hstage : ∃ f, (stage card asset).start w = (.error (.failed f), w) := by
      rw [stage_eq, Action.start_bind, Action.start_require]
      cases w.disk.isFile asset.source with
      | true =>
        rw [if_pos rfl]
        dsimp only
        rw [Action.start_bind, Action.start_require, h]
        exact ⟨_, rfl⟩
      | false => exact ⟨_, rfl⟩
    obtain ⟨f, hstage⟩ := hstage
    rw [stageAll_cons, Action.start_bind, Action.start_during, hstage]

theorem stageAll_eq_ok {plan : List Asset} {outcomes : List (Asset × Staged)}
    (hcard : w.disk.HasCard card p) (hdests : ∀ asset ∈ plan, asset.dest.IsDownward)
    (hsources : ∀ asset ∈ plan, ∀ l ∈ w.disk.visits asset.source, p.holds l = false)
    (h : (stageAll card plan).start w = (.ok outcomes, w')) :
    ∃ parcels, plan.mapM w.disk.parcel? = some parcels ∧
      (w.disk.contents p).deliverAll parcels = (w'.disk.contents p, outcomes.map (·.2)) ∧
      outcomes.map (·.1) = plan ∧
      Stocked p (plan.map fun asset => Location.ofPath asset.dest) w.disk w'.disk ∧
      ∀ asset ∈ plan, w'.disk.HasSlot card p asset.dest := by
  induction plan generalizing w outcomes with
  | nil =>
    obtain ⟨hnil, rfl⟩ := Prod.mk.inj h
    obtain rfl := Except.ok.inj hnil
    exact ⟨[], rfl, rfl, rfl, .refl _ _ _, by simp⟩
  | cons asset plan ih =>
    rw [stageAll_cons] at h
    simp only [Action.start_bind_eq_ok, Action.start_during_eq_ok, Action.start_pure,
      Prod.mk.injEq, Except.ok.injEq] at h
    obtain ⟨staged, w₁, hstage, rest, _, hrest, rfl, rfl⟩ := h
    obtain ⟨parcel, hparcel, hdeliver, hstocked, hslot⟩ :=
      stage_eq_ok hcard (hdests asset (by simp)) (hsources asset (by simp)) hstage
    -- The other sources are as they were, since only what is beneath the card has changed.
    have hkept : ∀ a ∈ plan, w₁.disk.visits a.source = w.disk.visits a.source ∧
        ∀ loc f, w₁.disk.find a.source = .ok (.file loc f) ↔
          w.disk.find a.source = .ok (.file loc f) := fun a ha =>
      hstocked.filled.find_of_visits (hsources a (by simp [ha]))
    obtain ⟨parcels, hparcels, hdelivers, hplan, hstockeds, hslots⟩ :=
      ih (hstocked.filled.hasCard hcard) (fun a ha => hdests a (by simp [ha]))
        (fun a ha => by
          rw [(hkept a ha).1]
          exact hsources a (by simp [ha])) hrest
    refine ⟨parcel :: parcels, ?_, ?_, ?_, ?_, ?_⟩
    . have hsame : plan.mapM w₁.disk.parcel? = plan.mapM w.disk.parcel? :=
        mapM_parcel?_congr fun a ha => parcel?_congr (hkept a ha).2
      rw [List.mapM_cons, hparcel, ← hsame, hparcels]
      rfl
    . unfold CardFiles.deliverAll
      rw [hdeliver]
      dsimp only
      rw [hdelivers]
      rfl
    . simp [hplan]
    . apply (hstocked.mono _).trans (hstockeds.mono _)
      . simp
      . simp
    . intro a ha
      rcases List.mem_cons.mp ha with rfl | ha
      . exact hslot.of_routesIn hstockeds.filled.routesIn hstockeds.here.symm
      . exact hslots a ha

theorem stage_fills (hdest : asset.dest.IsInner) :
    Fills card p w.disk ((stage card asset).start w).2.disk := by
  rw [stage_eq]
  apply Action.frame_bind
  . rw [Action.start_require_snd]
    exact refl_of _ w.disk
  intro _ w₁ _
  apply Action.frame_bind
  . rw [Action.start_require_snd]
    exact refl_of _ w₁.disk
  intro _ w₂ _
  apply Action.frame_bind
  . exact fun hcard => (makeParent_grows hdest.toIsDownward hcard).filled
  intro _ w₃ _
  apply Action.frame_bind
  . rw [start_digest?_snd]
    exact refl_of _ w₃.disk
  intro there w₄ _
  apply Action.frame_bind
  . rw [start_digest?_snd]
    exact refl_of _ w₄.disk
  intro wanted w₅ _
  apply Action.frame_bind
  . exact refl_of _ w₅.disk
  intro _ w₆ _
  exact replace_fills hdest there wanted

theorem stageAll_fills {plan : List Asset} (hdests : ∀ asset ∈ plan, asset.dest.IsInner) :
    Fills card p w.disk ((stageAll card plan).start w).2.disk := by
  induction plan generalizing w with
  | nil => exact refl_of _ w.disk
  | cons asset plan ih =>
    rw [stageAll_cons]
    apply Action.frame_bind
    . rw [Action.start_during_snd]
      exact stage_fills (hdests asset (by simp))
    intro staged w₁ _
    apply Action.frame_bind
    . exact ih fun a ha => hdests a (by simp [ha])
    intro rest w₂ _
    exact refl_of _ w₂.disk

/--
On a card without links staging refines the delivery of files to a map. What comes beside the files
of the map are directories above destinations, and everything else is as it was.
-/
theorem stageAll_refines_deliverAll {plan : List Asset} {outcomes : List (Asset × Staged)}
    (hcard : w.disk.find card = .ok (.dir p)) (hlinks : w.disk.NoLinks p)
    (hdests : ∀ asset ∈ plan, asset.dest.IsDownward)
    (hsources : ∀ asset ∈ plan, ∀ l ∈ w.disk.visits asset.source, p.holds l = false)
    (h : (stageAll card plan).start w = (.ok outcomes, w')) :
    ∃ parcels, plan.mapM w.disk.parcel? = some parcels ∧
      w'.disk.contents p = ((w.disk.contents p).deliverAll parcels).1 ∧
      outcomes.map (·.2) = ((w.disk.contents p).deliverAll parcels).2 ∧
      outcomes.map (·.1) = plan ∧
      w'.disk.here = w.disk.here ∧
      ∀ l, w'.disk.node? l = w.disk.node? l ∨
        p.holds l = true ∧ (w.disk.node? l = none ∨ (w.disk.file? l).isSome) ∧
            (w'.disk.file? l).isSome ∨
        w.disk.node? l = none ∧ w'.disk.node? l = some (.dir Mode.newDirectory) ∧
          ∃ root, p = .at root ∧ (Place.at root).holds l = true ∧
            ∃ asset ∈ plan, (Place.at l).holds (Location.ofPath asset.dest ++ root) = true := by
  obtain ⟨parcels, hparcels, hdeliver, hplan, hstocked, -⟩ :=
    stageAll_eq_ok ⟨hcard, hlinks⟩ hdests hsources h
  refine ⟨parcels, hparcels, by rw [hdeliver], by rw [hdeliver], hplan, hstocked.here, fun l => ?_⟩
  rcases hstocked.same l with heq | ⟨hl, hold, f, hnew⟩ |
    ⟨hnone, hdir, root, hp, hl, rel, hrel, habove⟩
  . exact .inl heq
  . refine .inr (.inl ⟨hl, ?_, by simp [file?_eq_some.mpr hnew]⟩)
    cases hnode : w.disk.node? l with
    | none => exact .inl rfl
    | some node =>
      cases node with
      | file g => exact .inr (by simp [file?_eq_some.mpr hnode])
      | dir mode => simpa [Node.isFile] using hold _ hnode
      | link target => simpa [Node.isFile] using hold _ hnode
  . obtain ⟨asset, hasset, rfl⟩ := List.mem_map.mp hrel
    exact .inr (.inr ⟨hnone, hdir, root, hp, hl, asset, hasset, habove⟩)

def usedCard : FileSystem :=
  [(Location.ofPath "/card/kernel8.img", Node.file ⟨utf8 "older", Mode.newFile, .at 1⟩),
    (Location.ofPath "/build/kernel8.img", Node.file ⟨utf8 "newer", Mode.newFile, .at 2⟩)].foldl
    FileSystem.lay FileSystem.empty

def kernelTwice : List Asset :=
  [⟨"/build/kernel8.img", "kernel8.img"⟩, ⟨"/build/kernel8.img", "programs/kernel8.img"⟩]

set_option maxRecDepth 100000 in
theorem stageAll_refines_deliverAll_usedCard :
    ∃ outcomes w', (stageAll "/card" kernelTwice).start { disk := usedCard } = (.ok outcomes, w') ∧
      ∃ parcels, kernelTwice.mapM usedCard.parcel? = some parcels ∧
        w'.disk.contents (.at (Location.ofPath "/card")) =
          ((usedCard.contents (.at (Location.ofPath "/card"))).deliverAll parcels).1 := by
  have hok : ((stageAll "/card" kernelTwice).start { disk := usedCard }).1.isOk = true := by
    decide +kernel
  rcases h : (stageAll "/card" kernelTwice).start { disk := usedCard } with ⟨r, w'⟩
  rw [h] at hok
  cases r with
  | error e => simp [Except.isOk, Except.toBool] at hok
  | ok outcomes =>
    obtain ⟨parcels, hparcels, hcontents, -⟩ :=
      stageAll_refines_deliverAll (p := .at (Location.ofPath "/card")) (by decide +kernel)
        (by decide +kernel) (by decide +kernel) (by decide +kernel) h
    exact ⟨outcomes, w', rfl, parcels, hparcels, hcontents⟩

end Staging

end BootCard
