import BootCard.Proofs.Asset.Staging
import BootCard.Proofs.Asset.Survival
import BootCard.Proofs.Disk.Writing
import Mathlib.Data.List.SplitBy

/-!
This module contains what a file and its backup are when one source has been written and staged
again and again: the first contents of the last two runs of contents with one digest.
-/

namespace BootCard

open FileSystem

/-! Which contents are kept. -/

section Contents

variable {kept rest contents : List Bytes} {a b : Bytes}

def sameDigest (a b : Bytes) : Bool := Digest.of a = Digest.of b

def firsts (contents : List Bytes) : List Bytes :=
  (contents.splitBy sameDigest).filterMap List.head?

/-- What has been kept when other contents come: those are kept unless the last ones are like them. -/
def keep (kept : List Bytes) (data : Bytes) : List Bytes :=
  if kept.getLast?.any (sameDigest · data) then kept else kept ++ [data]

theorem sameDigest_eq_true : sameDigest a b = true ↔ Digest.of a = Digest.of b := by
  simp [sameDigest]

theorem keep_of_same (hlast : kept.getLast? = some a) (h : Digest.of a = Digest.of b) :
    keep kept b = kept := by
  unfold keep
  rw [hlast, Option.any_some, sameDigest_eq_true.mpr h, if_pos rfl]

theorem keep_of_other (h : ∀ a ∈ kept.getLast?, Digest.of a ≠ Digest.of b) :
    keep kept b = kept ++ [b] := by
  unfold keep
  rw [if_neg]
  cases hlast : kept.getLast? with
  | none => simp
  | some a => simpa [sameDigest_eq_true] using h a (by simp [hlast])

theorem digest_of_isChain (h : (a :: rest).IsChain (sameDigest · ·)) (hb : b ∈ rest) :
    Digest.of a = Digest.of b := by
  induction rest generalizing a with
  | nil => simp at hb
  | cons c rest ih =>
    rw [List.isChain_cons_cons, sameDigest_eq_true] at h
    rcases List.mem_cons.mp hb with rfl | hb
    . exact h.1
    . exact h.1.trans (ih h.2 hb)

theorem foldl_keep_of_same (hlast : kept.getLast? = some a)
    (h : ∀ b ∈ rest, Digest.of a = Digest.of b) : rest.foldl keep kept = kept := by
  induction rest with
  | nil => rfl
  | cons b rest ih =>
    rw [List.foldl_cons, keep_of_same hlast (h b (by simp))]
    exact ih fun c hc => h c (by simp [hc])

theorem foldl_keep_flatten {runs : List (List Bytes)} (hne : [] ∉ runs)
    (hrun : ∀ run ∈ runs, run.IsChain (sameDigest · ·))
    (hruns : runs.IsChain fun r s => ∃ hr hs, sameDigest (r.getLast hr) (s.head hs) = false)
    (hkept : ∀ a ∈ kept.getLast?, ∀ b ∈ runs.head?.bind List.head?, Digest.of a ≠ Digest.of b) :
    runs.flatten.foldl keep kept = kept ++ runs.filterMap List.head? := by
  induction runs generalizing kept with
  | nil => simp
  | cons run runs ih =>
    cases run with
    | nil => simp at hne
    | cons a rest =>
      have hsame : ∀ b ∈ rest, Digest.of a = Digest.of b :=
        fun b hb => digest_of_isChain (hrun _ (by simp)) hb
      rw [List.flatten_cons, List.foldl_append, List.foldl_cons,
        keep_of_other fun b hb => hkept b hb a (by simp), foldl_keep_of_same (a := a) (by simp) hsame,
        ih]
      . simp
      . exact fun hmem => hne (by simp [hmem])
      . exact fun run hmem => hrun run (by simp [hmem])
      . exact hruns.tail
      . intro a' ha' b hb
        obtain rfl : a = a' := by simpa using ha'
        cases runs with
        | nil => simp at hb
        | cons next runs =>
          obtain ⟨⟨hr, hs, hother⟩, -⟩ := List.isChain_cons_cons.mp hruns
          obtain rfl : next.head hs = b := by
            rw [List.head?_cons, Option.bind_some, List.head?_eq_some_head hs] at hb
            simpa using hb
          -- The last contents of the run have the digest of the first ones.
          have hlast : Digest.of a = Digest.of ((a :: rest).getLast hr) := by
            rcases List.mem_cons.mp (List.getLast_mem hr) with heq | hmem
            . rw [heq]
            . exact hsame _ hmem
          intro heq
          rw [sameDigest_eq_true.mpr (hlast.symm.trans heq)] at hother
          simp at hother

theorem foldl_keep_eq_firsts (contents : List Bytes) : contents.foldl keep [] = firsts contents := by
  have h : (contents.splitBy sameDigest).flatten.foldl keep [] = [] ++ firsts contents :=
    foldl_keep_flatten (List.nil_notMem_splitBy sameDigest contents)
      (fun _ => List.isChain_of_mem_splitBy)
      (List.isChain_getLast_head_splitBy sameDigest contents) (by simp)
  rwa [List.flatten_splitBy] at h

theorem length_firsts (contents : List Bytes) :
    (firsts contents).length = (contents.splitBy sameDigest).length := by
  have hne := List.nil_notMem_splitBy sameDigest contents
  unfold firsts
  generalize contents.splitBy sameDigest = runs at hne ⊢
  induction runs with
  | nil => rfl
  | cons run runs ih =>
    cases run with
    | nil => simp at hne
    | cons a rest => simp [ih fun hmem => hne (by simp [hmem])]

end Contents

namespace CardFiles

variable {files files' : CardFiles} {dest : Location} {kept : List Bytes}

/-- Whether the last contents that have been kept are those of a file, and those before of its backup. -/
structure Backs (files : CardFiles) (dest : Location) (kept : List Bytes) : Prop where
  newest : (files dest).map (·.data) = kept.getLast?
  older : (files dest.backup).map (·.data) = kept.dropLast.getLast?

theorem Backs.congr (h : Backs files dest kept) (hdest : files' dest = files dest)
    (hbackup : files' dest.backup = files dest.backup) : Backs files' dest kept where
  newest := by rw [hdest, h.newest]
  older := by rw [hbackup, h.older]

theorem Backs.deliver {parcel : Parcel} (h : Backs files parcel.dest kept)
    (hne : parcel.dest ≠ []) :
    Backs (files.deliver parcel).1 parcel.dest (keep kept parcel.file.data) ∧
      kept.length + [(files.deliver parcel).2].count .updated =
        (keep kept parcel.file.data).length := by
  have hbackup := Location.backup_ne hne
  have hnewest := h.newest
  cases hthere : files parcel.dest with
  | none =>
    obtain rfl : kept = [] := by simpa [hthere, eq_comm] using hnewest
    rw [deliver_of_none hthere, keep_of_other (by simp)]
    dsimp only
    refine ⟨⟨?_, ?_⟩, rfl⟩
    . rw [set_self]
      rfl
    . rw [set_of_ne _ hbackup]
      exact h.older
  | some g =>
    rw [hthere, Option.map_some] at hnewest
    by_cases hsame : Digest.of g.data = Digest.of parcel.file.data
    . rw [deliver_of_same hthere hsame, keep_of_same hnewest.symm hsame]
      exact ⟨h, rfl⟩
    . have hother : ∀ a ∈ kept.getLast?, Digest.of a ≠ Digest.of parcel.file.data := by
        rintro a ha
        obtain rfl : g.data = a := by simpa [← hnewest] using ha
        exact hsame
      rw [deliver_of_other hthere hsame, keep_of_other hother]
      dsimp only
      refine ⟨⟨?_, ?_⟩, by simp⟩
      . rw [set_self, List.getLast?_concat]
        rfl
      . rw [set_of_ne _ hbackup, set_self, List.dropLast_concat]
        exact hnewest

end CardFiles

namespace Staging

variable {w w' : World} {card : Pathname} {asset : Asset} {root rel : Location} {staged : Staged}
variable {fs fs' fs₁ : FileSystem} {data : Bytes} {kept contents : List Bytes}
variable {outcomes : List Staged}

def restage (card : Pathname) (asset : Asset) (data : Bytes) : Action Staged := do
  Action.onDisk (Session.change (·.writeFile asset.source data))
  stage card asset

/-- Writes the source of an asset again and again, and stages it every time. -/
def restageAll (card : Pathname) (asset : Asset) (contents : List Bytes) : Action (List Staged) :=
  contents.mapM (restage card asset)

/-- Whether a path leads to a card without links, and nothing on the way to a source is on it. -/
structure Stands (fs : FileSystem) (card source : Pathname) (root : Location) : Prop where
  card : fs.HasCard card (.at root)
  apart : ∀ l ∈ fs.visits source, (Place.at root).holds l = false

/--
Whether nothing is different beneath a card but a file, its backup and new directories above the
file, and there is a directory in the place of the backup only if there was one.
-/
structure Besides (root rel : Location) (fs fs' : FileSystem) : Prop where
  same : ∀ l, (Place.at root).holds l = true → l ≠ rel ++ root → l ≠ rel.backup ++ root →
    fs'.node? l = fs.node? l ∨
      fs.node? l = none ∧ fs'.node? l = some (.dir Mode.newDirectory) ∧
        (Place.at l).holds (rel ++ root) = true
  backup : (∀ node, fs.node? (rel.backup ++ root) = some node → node.isFile = true) →
    ∀ node, fs'.node? (rel.backup ++ root) = some node → node.isFile = true

theorem Besides.refl (root rel : Location) (fs : FileSystem) : Besides root rel fs fs :=
  ⟨fun _ _ _ _ => .inl rfl, id⟩

theorem Besides.trans (h₁ : Besides root rel fs fs₁) (h₂ : Besides root rel fs₁ fs') :
    Besides root rel fs fs' where
  same l hl hdest hbackup := by
    rcases h₁.same l hl hdest hbackup with heq₁ | ⟨hnone, hnew, habove⟩
    . rw [← heq₁]
      exact h₂.same l hl hdest hbackup
    . rcases h₂.same l hl hdest hbackup with heq₂ | ⟨hnone₂, -⟩
      . exact .inr ⟨hnone, heq₂.trans hnew, habove⟩
      . simp [hnew] at hnone₂
  backup h := h₂.backup (h₁.backup h)

theorem Besides.backup_eq_none (h : Besides root rel fs fs')
    (hspare : fs.node? (rel.backup ++ root) = none)
    (hnone : fs'.contents (.at root) rel.backup = none) :
    fs'.node? (rel.backup ++ root) = none := by
  cases hnode : fs'.node? (rel.backup ++ root) with
  | none => rfl
  | some node =>
    have hfile := h.backup (by simp [hspare]) node hnode
    cases node with
    | file g => simp [file?_eq_some.mpr hnode, contents_at] at hnone
    | dir mode => simp [Node.isFile] at hfile
    | link target => simp [Node.isFile] at hfile

theorem find_of_contents {dest : Pathname} {f : RegularFile}
    (hslot : fs.HasSlot card (.at root) dest)
    (hfile : fs.contents (.at root) (Location.ofPath dest) = some f) :
    fs.find (card / dest) = .ok (.file (Location.ofPath dest ++ root) f) := by
  obtain ⟨_, dir, name, ⟨⟩, hslot⟩ := hslot
  rw [contents_at, file?_eq_some, ← hslot.location] at hfile
  rw [← hslot.location]
  exact hslot.find_eq hfile

/-! Writing the source. -/

theorem Stands.of_written {source : Pathname} (h : Stands fs card source root)
    (hwritten : Written fs fs') : Stands fs' card source root where
  card := ⟨hwritten.find_eq_dir_iff.mpr h.card.leads, fun loc target hloc hnode =>
    h.card.no_links loc target hloc ((hwritten.node?_of_not_isFile rfl).mp hnode)⟩
  apart := by
    rw [hwritten.visits_eq]
    exact h.apart

theorem Stands.writeFile {source : Pathname} (h : Stands fs card source root)
    (hwrite : fs.writeFile source data = .ok fs') :
    Stands fs' card source root ∧ (∀ l, (Place.at root).holds l = true → fs'.node? l = fs.node? l) ∧
      ∃ loc f, f.data = data ∧ fs'.find source = .ok (.file loc f) := by
  refine ⟨h.of_written (writeFile_written hwrite), ?_, ?_⟩
  . intro l hl
    unfold FileSystem.writeFile at hwrite
    rw [except_bind_eq_ok] at hwrite
    obtain ⟨⟨loc, f⟩, hopen, hwrite⟩ := hwrite
    obtain rfl := Except.ok.inj hwrite
    unfold store
    rw [node?_put, if_neg]
    rintro rfl
    simp [h.apart _ (mem_visits_of_openForWriting hopen)] at hl
  . obtain ⟨loc, mode, -, hfind⟩ := writeFile_eq_ok hwrite
    exact ⟨loc, _, rfl, hfind⟩

/-! Staging it. -/

theorem Besides.of_stocked (hne : rel ≠ []) (h : Stocked (.at root) [rel] fs fs')
    (hcontents : ∀ l, l ≠ rel → l ≠ rel.backup →
      fs'.contents (.at root) l = fs.contents (.at root) l) : Besides root rel fs fs' where
  same l hl hdest hbackup := by
    obtain ⟨xs, -, rfl⟩ := Place.holds_at.mp hl
    rcases h.same (xs ++ root) with heq | ⟨-, hold, f, hnew⟩ | ⟨hnone, hnew, _, ⟨⟩, -, _, hrel, habove⟩
    . exact .inl heq
    . left
      have hfile := hcontents xs (by simpa using hdest) (by simpa using hbackup)
      rw [contents_at, contents_at, file?_eq_some.mpr hnew, eq_comm, file?_eq_some] at hfile
      rw [hnew, hfile]
    . rw [List.mem_singleton.mp hrel] at habove
      exact .inr ⟨hnone, hnew, habove⟩
  backup hold node hnode := by
    rcases h.same (rel.backup ++ root) with heq | ⟨-, -, f, hnew⟩ | ⟨-, -, _, ⟨⟩, -, _, hrel, habove⟩
    . exact hold node (heq ▸ hnode)
    . obtain rfl : Node.file f = node := by simpa [hnew] using hnode
      rfl
    . -- What is beside the file is not above it.
      rw [List.mem_singleton.mp hrel] at habove
      obtain ⟨xs, hxs, heq⟩ := Place.holds_at.mp habove
      have hlength := congrArg List.length heq
      cases rel with
      | nil => exact absurd rfl hne
      | cons name dir => exact absurd (by simpa [Location.backup] using hlength) hxs

theorem Stands.stage (h : Stands w.disk card asset.source root) (hdest : asset.dest.IsDownward)
    {loc : Location} {f : RegularFile} (hfind : w.disk.find asset.source = .ok (.file loc f))
    (hstage : (stage card asset).start w = (.ok staged, w')) :
    Stands w'.disk card asset.source root ∧ Location.ofPath asset.dest ≠ [] ∧
      (w.disk.contents (.at root)).deliver ⟨f, Location.ofPath asset.dest⟩ =
        (w'.disk.contents (.at root), staged) ∧
      Besides root (Location.ofPath asset.dest) w.disk w'.disk ∧
      w'.disk.HasSlot card (.at root) asset.dest := by
  obtain ⟨parcel, hparcel, hdeliver, hstocked, hslot⟩ := stage_eq_ok h.card hdest h.apart hstage
  have hne : Location.ofPath asset.dest ≠ [] := by
    obtain ⟨_, dir, name, ⟨⟩, hslot⟩ := hslot
    obtain ⟨mid, hend⟩ := hslot.ends
    rw [Location.ofPath_eq hdest.no_up, hend]
    simp
  obtain rfl : parcel = ⟨f, Location.ofPath asset.dest⟩ := by
    simpa [parcel?, hfind, eq_comm] using hparcel
  refine ⟨⟨hstocked.filled.hasCard h.card, ?_⟩, hne, hdeliver, ?_, hslot⟩
  . rw [(hstocked.filled.find_of_visits h.apart).1]
    exact h.apart
  . apply Besides.of_stocked hne hstocked
    intro l hl hbackup
    have hother : ((w.disk.contents (.at root)).deliver ⟨f, Location.ofPath asset.dest⟩).1 l =
        w.disk.contents (.at root) l := CardFiles.deliver_of_ne hl hbackup
    rwa [hdeliver] at hother

theorem Stands.restage (h : Stands w.disk card asset.source root) (hdest : asset.dest.IsDownward)
    (hrun : (restage card asset data).start w = (.ok staged, w')) :
    Stands w'.disk card asset.source root ∧ w'.disk.HasSlot card (.at root) asset.dest ∧
      Besides root (Location.ofPath asset.dest) w.disk w'.disk ∧
      ∀ kept, (w.disk.contents (.at root)).Backs (Location.ofPath asset.dest) kept →
        (w'.disk.contents (.at root)).Backs (Location.ofPath asset.dest) (keep kept data) ∧
          kept.length + [staged].count .updated = (keep kept data).length := by
  unfold Staging.restage at hrun
  rw [Action.start_bind_eq_ok] at hrun
  obtain ⟨_, w₁, hwrite, hstage⟩ := hrun
  rw [Action.start_onDisk_eq_ok] at hwrite
  obtain ⟨fs, hwrite, rfl⟩ := hwrite
  rw [Session.start_change_eq_ok] at hwrite
  obtain ⟨hstands, hsame, loc, f, rfl, hfind⟩ := h.writeFile hwrite
  obtain ⟨hstands', hne, hdeliver, hbesides, hslot⟩ := hstands.stage hdest hfind hstage
  have hbackup : (Location.ofPath asset.dest).backup ≠ [] := by
    cases hrel : Location.ofPath asset.dest with
    | nil => exact absurd hrel hne
    | cons name dir => simp [Location.backup]
  refine ⟨hstands', hslot, ⟨fun l hl => ?_, fun hold => ?_⟩, fun kept hbacks => ?_⟩
  . rw [← hsame l hl]
    exact hbesides.same l hl
  . apply hbesides.backup
    intro node hnode
    exact hold node (hsame _ (Place.holds_append hbackup) ▸ hnode)
  . have hcontents (l : Location) (hl : l ≠ []) :
        fs.contents (.at root) l = w.disk.contents (.at root) l :=
      file?_congr (hsame _ (Place.holds_append hl))
    have hstart : CardFiles.Backs (fs.contents (.at root))
        (Parcel.mk f (Location.ofPath asset.dest)).dest kept :=
      hbacks.congr (hcontents _ hne) (hcontents _ hbackup)
    have hdelivered := hstart.deliver hne
    rwa [hdeliver] at hdelivered

theorem restageAll_cons (data : Bytes) (contents : List Bytes) :
    restageAll card asset (data :: contents) = (do
      let staged ← restage card asset data
      let rest ← restageAll card asset contents
      pure (staged :: rest)) := by
  unfold restageAll
  rw [List.mapM_cons]

theorem Stands.restageAll (h : Stands w.disk card asset.source root)
    (hdest : asset.dest.IsDownward)
    (hrun : (restageAll card asset contents).start w = (.ok outcomes, w')) :
    (contents ≠ [] → w'.disk.HasSlot card (.at root) asset.dest) ∧
      Besides root (Location.ofPath asset.dest) w.disk w'.disk ∧
      ∀ kept, (w.disk.contents (.at root)).Backs (Location.ofPath asset.dest) kept →
        (w'.disk.contents (.at root)).Backs (Location.ofPath asset.dest)
            (contents.foldl keep kept) ∧
          kept.length + outcomes.count .updated = (contents.foldl keep kept).length := by
  induction contents generalizing w outcomes with
  | nil =>
    obtain ⟨houtcomes, rfl⟩ := Prod.mk.inj hrun
    obtain rfl := Except.ok.inj houtcomes
    exact ⟨by simp, .refl _ _ _, fun kept hbacks => ⟨hbacks, rfl⟩⟩
  | cons data contents ih =>
    rw [restageAll_cons] at hrun
    simp only [Action.start_bind_eq_ok, Action.start_pure, Prod.mk.injEq, Except.ok.injEq] at hrun
    obtain ⟨staged, w₁, hstage, rest, w₂, hrest, rfl, rfl⟩ := hrun
    obtain ⟨hstands, hslot, hbesides, hkept⟩ := h.restage hdest hstage
    obtain ⟨hslots, hbesides₂, hkepts⟩ := ih hstands hrest
    refine ⟨fun _ => ?_, hbesides.trans hbesides₂, fun kept hbacks => ?_⟩
    . cases contents with
      | nil =>
        obtain ⟨-, rfl⟩ := Prod.mk.inj hrest
        exact hslot
      | cons c cs => exact hslots (by simp)
    . obtain ⟨hbacks₁, hcount⟩ := hkept kept hbacks
      obtain ⟨hbacks₂, hcounts⟩ := hkepts _ hbacks₁
      refine ⟨hbacks₂, ?_⟩
      rw [List.foldl_cons, ← hcounts, ← hcount, ← List.singleton_append, List.count_append]
      omega

/--
When one source has been written and staged again and again, on a card without links that has had
neither the file nor a backup, the file has the first of the last run of contents with one digest,
and the backup has that of the run before, or is not there if there has been just one. There have
been as many updates as there are runs, and no other file on the card is different.
-/
theorem restageAll_keeps_history (hcard : w.disk.find card = .ok (.dir (.at root)))
    (hlinks : w.disk.NoLinks (.at root)) (hdest : asset.dest.IsDownward)
    (hsource : ∀ l ∈ w.disk.visits asset.source, (Place.at root).holds l = false)
    (hnew : w.disk.node? (Location.ofPath asset.dest ++ root) = none)
    (hspare : w.disk.node? (Location.ofPath asset.dest.backup ++ root) = none)
    (hne : contents ≠ [])
    (h : (restageAll card asset contents).start w = (.ok outcomes, w')) :
    (∃ f, w'.disk.find (card / asset.dest) = .ok (.file (Location.ofPath asset.dest ++ root) f) ∧
        (firsts contents).getLast? = some f.data) ∧
      ((contents.splitBy sameDigest).length = 1 ∧
          w'.disk.node? (Location.ofPath asset.dest.backup ++ root) = none ∨
        ∃ g, w'.disk.node? (Location.ofPath asset.dest.backup ++ root) = some (.file g) ∧
          (firsts contents).dropLast.getLast? = some g.data) ∧
      outcomes.count .updated = (contents.splitBy sameDigest).length ∧
      ∀ l, (Place.at root).holds l = true → l ≠ Location.ofPath asset.dest ++ root →
        l ≠ Location.ofPath asset.dest.backup ++ root → w'.disk.node? l = w.disk.node? l ∨
          w.disk.node? l = none ∧ w'.disk.node? l = some (.dir Mode.newDirectory) ∧
            (Place.at l).holds (Location.ofPath asset.dest ++ root) = true := by
  have hstands : Stands w.disk card asset.source root := ⟨⟨hcard, hlinks⟩, hsource⟩
  obtain ⟨hslot, hbesides, hkept⟩ := hstands.restageAll hdest h
  replace hslot := hslot hne
  rw [hslot.ofPath_backup hdest] at hspare ⊢
  have hempty (rel : Location) (hnone : w.disk.node? (rel ++ root) = none) :
      w.disk.contents (.at root) rel = none := by
    rw [contents_at]
    unfold file?
    rw [hnone]
  obtain ⟨hbacks, hcount⟩ := hkept [] ⟨by simp [hempty _ hnew], by simp [hempty _ hspare]⟩
  rw [foldl_keep_eq_firsts] at hbacks hcount
  have hlength := length_firsts contents
  have hsome : firsts contents ≠ [] := by
    rw [← List.length_pos_iff_ne_nil, hlength, List.length_pos_iff_ne_nil]
    exact List.splitBy_ne_nil.mpr hne
  refine ⟨?_, ?_, by simpa [hlength] using hcount, hbesides.same⟩
  . have hnewest := hbacks.newest
    rw [List.getLast?_eq_some_getLast hsome, Option.map_eq_some_iff] at hnewest
    obtain ⟨f, hfile, hdata⟩ := hnewest
    exact ⟨f, find_of_contents hslot hfile, by rw [List.getLast?_eq_some_getLast hsome, hdata]⟩
  . have holder := hbacks.older
    cases hfile : w'.disk.contents (.at root) (Location.ofPath asset.dest).backup with
    | none =>
      left
      rw [hfile, Option.map_none, eq_comm, List.getLast?_eq_none_iff] at holder
      refine ⟨?_, hbesides.backup_eq_none hspare hfile⟩
      have hshort := congrArg List.length holder
      have hpos := List.length_pos_iff_ne_nil.mpr hsome
      rw [List.length_dropLast, List.length_nil] at hshort
      omega
    | some g =>
      right
      rw [hfile] at holder
      exact ⟨g, file?_eq_some.mp hfile, holder.symm⟩

def emptyCard : FileSystem :=
  [(Location.ofPath "/media/card/notes", Node.file ⟨utf8 "notes", Mode.newFile, .at 1⟩),
    (Location.ofPath "/card", Node.link (utf8 "media/card")),
    (Location.ofPath "/build/hello", Node.link (utf8 "new")),
    (Location.ofPath "/home", Node.dir Mode.newDirectory)].foldl
    FileSystem.lay FileSystem.empty

def someContents : List Bytes :=
  [utf8 "one", utf8 "one", utf8 "two", utf8 "one", utf8 "one", [], []]

set_option maxRecDepth 100000 in
theorem restageAll_keeps_history_emptyCard :
    ∃ outcomes w', (restageAll "/card" ⟨"/build/hello", "programs/hello"⟩ someContents).start
        { disk := emptyCard } = (.ok outcomes, w') ∧
      outcomes.count .updated = 4 ∧
      (∃ loc f, w'.disk.find "/card/programs/hello" = .ok (.file loc f) ∧ f.data = []) ∧
      ∃ g, w'.disk.node? (Location.ofPath "/media/card/programs/hello~") = some (.file g) ∧
        g.data = utf8 "one" := by
  have hok : ((restageAll "/card" ⟨"/build/hello", "programs/hello"⟩ someContents).start
      { disk := emptyCard }).1.isOk = true := by
    decide +kernel
  rcases h : (restageAll "/card" ⟨"/build/hello", "programs/hello"⟩ someContents).start
    { disk := emptyCard } with ⟨r, w'⟩
  rw [h] at hok
  cases r with
  | error e => simp [Except.isOk, Except.toBool] at hok
  | ok outcomes =>
    have hfirsts : firsts someContents = [utf8 "one", utf8 "two", utf8 "one", []] := by
      decide +kernel
    have hruns : (someContents.splitBy sameDigest).length = 4 := by
      rw [← length_firsts, hfirsts]
      rfl
    have hcard : emptyCard.find "/card" = .ok (.dir (.at (Location.ofPath "/media/card"))) := by
      decide +kernel
    obtain ⟨⟨f, hfind, hf⟩, hbackup, hcount, -⟩ :=
      restageAll_keeps_history hcard (by decide +kernel) (by decide +kernel) (by decide +kernel)
        (by decide +kernel) (by decide +kernel) (by decide) h
    rw [hfirsts] at hf hbackup
    refine ⟨outcomes, w', rfl, hcount.trans hruns, ⟨_, f, hfind, (Option.some.inj hf).symm⟩, ?_⟩
    rcases hbackup with ⟨hone, -⟩ | ⟨g, hnode, hg⟩
    . simp [hruns] at hone
    . exact ⟨g, hnode, (Option.some.inj hg).symm⟩

end Staging

end BootCard
