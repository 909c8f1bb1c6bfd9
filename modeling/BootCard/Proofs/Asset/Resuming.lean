import BootCard.Proofs.Asset.Restaging

/-!
This module contains staging that fails. On a card without links an asset that is not staged leaves
nothing but new directories, so that staging can be taken up again where it has stopped.
-/

namespace BootCard

open FileSystem

namespace Staging

variable {w w' : World} {card : Pathname} {p : Place} {s : Stop} {asset : Asset}

theorem stage_eq_error (hcard : w.disk.HasCard card p) (hdest : asset.dest.IsDownward)
    (hsource : ∀ l ∈ w.disk.visits asset.source, p.holds l = false)
    (h : (stage card asset).start w = (.error s, w')) :
    Grown p (Location.ofPath asset.dest) w.disk w'.disk := by
  have hsame {α : Type} {x : Action α} {v v' : World} {r : Except Stop α} (hx : (x.start v).2 = v)
      (h : x.start v = (r, v')) : v' = v := by rw [← hx, h]
  have hgrown : Grown p (Location.ofPath asset.dest) w.disk
      ((makeParent (card / asset.dest)).start w).2.disk := makeParent_grows hdest hcard
  rw [stage_eq] at h
  rw [Action.start_bind_eq_error] at h
  rcases h with h | ⟨_, _, hfile, h⟩
  . rw [hsame Action.start_require_snd h]
    exact .refl _ _ _
  obtain ⟨hisFile, rfl⟩ := Action.start_require_eq_ok.mp hfile
  rw [Action.start_bind_eq_error] at h
  rcases h with h | ⟨_, _, hdir, h⟩
  . rw [hsame Action.start_require_snd h]
    exact .refl _ _ _
  obtain ⟨-, rfl⟩ := Action.start_require_eq_ok.mp hdir
  rw [Action.start_bind_eq_error] at h
  rcases h with h | ⟨_, w₁, hparent, h⟩
  . rwa [h] at hgrown
  rw [hparent] at hgrown
  dsimp only at hgrown
  rw [Action.start_bind_eq_error] at h
  rcases h with h | ⟨there, _, hthere, h⟩
  . rwa [hsame (start_digest?_snd _) h]
  obtain ⟨rfl, hleads⟩ := digest?_eq_ok hthere
  rw [Action.start_bind_eq_error] at h
  rcases h with h | ⟨wanted, _, hwanted, h⟩
  . rwa [hsame (start_digest?_snd _) h]
  obtain ⟨rfl, -⟩ := digest?_eq_ok hwanted
  rw [Action.start_bind_eq_error] at h
  rcases h with h | ⟨_, w₂, hnote, h⟩
  . simp at h
  -- The card and the source are still what they were before the directories came.
  obtain ⟨loc, f, hfind⟩ := isFile_eq_true.mp hisFile
  obtain ⟨hvisits, hfound⟩ := hgrown.filled.find_of_visits hsource
  replace hfind := (hfound _ _).mpr hfind
  rw [← hvisits] at hsource
  have hread := canRead_of_digest? hwanted hfind
  obtain rfl := digest?_eq_of_find hwanted hfind
  have hcard' := hgrown.filled.hasCard hcard
  have hnoted := congrArg World.disk (Prod.mk.inj hnote).2
  dsimp only at hnoted
  rw [hnoted] at hcard' hfind hsource hleads hgrown
  rwa [replace_eq_error hcard' hdest hfind hread hsource hleads h]

variable {plan : List Asset}

theorem Settled.of_grown {fs fs' : FileSystem} {rel : Location} (h : Settled fs card p asset)
    (hgrown : Grown p rel fs fs') (hsource : ∀ l ∈ fs.visits asset.source, p.holds l = false) :
    Settled fs' card p asset where
  slot := h.slot.of_routesIn hgrown.filled.routesIn hgrown.here.symm
  files := by
    obtain ⟨loc, f, g, hfind, hf, hthere, hg, hsame⟩ := h.files
    exact ⟨loc, f, g, ((hgrown.filled.find_of_visits hsource).2 _ _).mpr hfind, hf,
      hgrown.contents_eq ▸ hthere, hg, hsame⟩

/--
Staging a plan on a card without links fails at one of its assets. The assets before it are staged
then, which stands when they are staged again, and the ones after it have had no part. Of its own it
leaves nothing but new directories.
-/
theorem stageAll_resumes (hcard : w.disk.find card = .ok (.dir p)) (hlinks : w.disk.NoLinks p)
    (hdests : ∀ asset ∈ plan, asset.dest.IsDownward)
    (hsources : ∀ asset ∈ plan, ∀ l ∈ w.disk.visits asset.source, p.holds l = false)
    (hspares : plan.Pairwise fun a b => Location.ofPath b.dest ≠ Location.ofPath a.dest ∧
      Location.ofPath b.dest.backup ≠ Location.ofPath a.dest)
    (h : (stageAll card plan).start w = (.error s, w')) :
    ∃ done asset rest outcomes w₁ f, plan = done ++ asset :: rest ∧
      (stageAll card done).start w = (.ok outcomes, w₁) ∧
      (stage card asset).start w₁ = (.error (.failed f), w') ∧
      s = .failed { f with during := .staging asset.source asset.dest :: f.during } ∧
      Grown p (Location.ofPath asset.dest) w₁.disk w'.disk ∧
      ∀ v : World, v.disk = w'.disk → ∃ events, (stageAll card done).start v =
        (.ok (done.map (·, .upToDate)), { v with transcript := v.transcript ++ events }) := by
  have hcard : w.disk.HasCard card p := ⟨hcard, hlinks⟩
  obtain ⟨done, asset, rest, outcomes, w₁, rfl, hdone, hfail⟩ := exists_asset_of_stageAll h
  have hdests' : ∀ a ∈ done, a.dest.IsDownward := fun a ha => hdests a (by simp [ha])
  have hsources' : ∀ a ∈ done, ∀ l ∈ w.disk.visits a.source, p.holds l = false :=
    fun a ha => hsources a (by simp [ha])
  obtain ⟨-, -, -, -, hstocked, -⟩ := stageAll_eq_ok hcard hdests' hsources' hdone
  have hcard₁ := hstocked.filled.hasCard hcard
  have hkept : ∀ a ∈ done ++ asset :: rest, ∀ l ∈ w₁.disk.visits a.source, p.holds l = false := by
    intro a ha
    rw [(hstocked.filled.find_of_visits (hsources a ha)).1]
    exact hsources a ha
  obtain ⟨f, hstage, hs⟩ : ∃ f, (stage card asset).start w₁ = (.error (.failed f), w') ∧
      s = .failed { f with during := .staging asset.source asset.dest :: f.during } := by
    rcases hstart : (stage card asset).start w₁ with ⟨r, w₂⟩
    rw [Action.start_during, hstart] at hfail
    match r with
    | .ok staged => simp at hfail
    | .error .waiting =>
      have hstops : (stage card asset).StopsFor (· ≠ none) :=
        isDirect_stage.stopsFor (by simp)
      exact absurd rfl (hstops w₁ .waiting (by rw [hstart]))
    | .error (.failed f) =>
      obtain ⟨hs, rfl⟩ := Prod.mk.inj hfail
      exact ⟨f, rfl, (Except.error.inj hs).symm⟩
  have hgrown := stage_eq_error hcard₁ (hdests asset (by simp)) (hkept asset (by simp)) hstage
  refine ⟨done, asset, rest, outcomes, w₁, f, rfl, hdone, hstage, hs, hgrown, fun v hv => ?_⟩
  have hsettled := settled_of_stageAll hcard hdests' hsources' (List.pairwise_append.mp hspares).1
    hdone
  apply stageAll_of_settled (p := p)
  . intro _
    rw [hv]
    exact isDir_eq_true.mpr ⟨p, (hgrown.filled.hasCard hcard₁).leads⟩
  . intro a ha
    rw [hv]
    exact (hsettled a ha).of_grown hgrown (hkept a (by simp [ha]))

def secretBuild : FileSystem :=
  [(Location.ofPath "/card/kernel8.img", Node.file ⟨utf8 "older", Mode.newFile, .at 1⟩),
    (Location.ofPath "/build/kernel8.img", Node.file ⟨utf8 "newer", Mode.newFile, .at 2⟩),
    (Location.ofPath "/build/secret", Node.file ⟨utf8 "secret", .ofNat 0, .at 3⟩)].foldl
    FileSystem.lay FileSystem.empty

def secretPlan : List Asset :=
  [⟨"/build/kernel8.img", "kernel8.img"⟩, ⟨"/build/secret", "programs/secret"⟩,
    ⟨"/build/kernel8.img", "programs/kernel8.img"⟩]

set_option maxRecDepth 100000 in
theorem stageAll_resumes_secretBuild :
    ∃ s w', (stageAll "/card" secretPlan).start { disk := secretBuild } = (.error s, w') ∧
      ∃ done asset rest, secretPlan = done ++ asset :: rest ∧
        ∃ events, (stageAll "/card" done).start w' =
          (.ok (done.map (·, .upToDate)), { w' with transcript := w'.transcript ++ events }) := by
  have hok : ((stageAll "/card" secretPlan).start { disk := secretBuild }).1.isOk = false := by
    decide +kernel
  rcases h : (stageAll "/card" secretPlan).start { disk := secretBuild } with ⟨r, w'⟩
  rw [h] at hok
  cases r with
  | ok outcomes => simp [Except.isOk, Except.toBool] at hok
  | error s =>
    obtain ⟨done, asset, rest, _, _, _, hplan, -, -, -, -, hagain⟩ :=
      stageAll_resumes (p := .at (Location.ofPath "/card")) (by decide +kernel) (by decide +kernel)
        (by decide +kernel) (by decide +kernel) (by decide +kernel) h
    exact ⟨s, w', rfl, done, asset, rest, hplan, hagain w' rfl⟩

end Staging

end BootCard
