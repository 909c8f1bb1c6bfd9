import BootCard.Proofs.Card.Awaiting
import BootCard.Proofs.Card.Choosing
import BootCard.Proofs.Image.Locating

/-!
This module contains actions that have nothing to do with what is beneath a directory. They come to
the same in two worlds that differ only there, and leave what is there as it is in both of them.
-/

namespace BootCard

open FileSystem

namespace Place

variable {p q q' : Place} {dir : Location} {name : Name}

/-- Whether a place has nothing to do with what is beneath a directory. -/
def isApart (p : Place) : Place → Bool
  | .at loc => !p.holds loc
  | .removed _ q => p.isApart q

theorem Past.eq_of_isApart {lost : Location → Mode → Prop}
    (hlost : ∀ loc mode, lost loc mode → p.holds loc = true) (h : Past lost q q')
    (hapart : p.isApart q = true) : q' = q := by
  induction h with
  | kept loc => rfl
  | lost hl _ => simp [isApart, hlost _ _ hl] at hapart
  | removed _ ih => rw [ih hapart]

theorem not_holds_of_cons (h : p.holds (name :: dir) = false) : p.holds dir = false := by
  rw [Bool.eq_false_iff]
  intro hdir
  cases p with
  | removed => simp [holds] at hdir
  | «at» root => simp [holds_of_holds hdir (holds_cons name)] at h

end Place

namespace FileSystem

variable {fs fs' : FileSystem} {p q : Place} {links : Nat} {cs : List Component}
variable {ending : Ending} {path : Pathname} {loc : Location} {f : RegularFile}

theorem enter_of_visited (hsame : ∀ loc ∈ q.visited, fs'.node? loc = fs.node? loc) :
    fs'.enter q = fs.enter q := by
  have hkept : Place.Past (fun _ _ => False) q q := .refl q
  exact (enter_congr hkept fun loc hl => ⟨hsame loc hl, fun _ => id⟩).2

/-- A walk ends the same, be it well or not, wherever all that it visits is the same. -/
theorem walkFrom_of_visits
    (hsame : ∀ loc ∈ fs.visitsFrom links q cs, fs'.node? loc = fs.node? loc) :
    fs'.walkFrom ending links q cs = fs.walkFrom ending links q cs := by
  induction links, q, cs using walk_induction with
  | nil links q => rw [walkFrom_nil, walkFrom_nil]
  | close links q cs ih => rw [walkFrom_close, walkFrom_close, ih (by simpa using hsame)]
  | here links q cs ih =>
    rw [visitsFrom_here] at hsame
    rw [walkFrom_here, walkFrom_here, enter_of_visited fun loc hl => hsame loc (by simp [hl])]
    cases he : fs.enter q with
    | error e => rfl
    | ok u => exact ih fun loc hl => hsame loc (by simp [he, hl])
  | up links q cs ih =>
    rw [visitsFrom_up] at hsame
    rw [walkFrom_up, walkFrom_up, enter_of_visited fun loc hl => hsame loc (by simp [hl])]
    cases he : fs.enter q with
    | error e => rfl
    | ok u => exact ih fun loc hl => hsame loc (by simp [he, hl])
  | name links q name cs ihrest ihlink =>
    rw [visitsFrom_name] at hsame
    rw [walkFrom_name, walkFrom_name, enter_of_visited fun loc hl => hsame loc (by simp [hl])]
    cases he : fs.enter q with
    | error e => rfl
    | ok u =>
    have hlook : fs'.lookup q name = fs.lookup q name := by
      have hkept : Place.Past (fun _ _ => False) q q := .refl q
      apply lookup_congr hkept (fun _ _ _ => id)
      intro dir node? hl
      obtain ⟨-, -, rfl⟩ := lookup_eq_ok.mp hl
      exact hsame (name :: dir) (by simp [he, hl])
    show fs'.walkName ending links q name cs = fs.walkName ending links q name cs
    unfold walkName
    rw [hlook]
    dsimp only
    split
    . rfl
    cases hl : fs.lookup q name with
    | error e => rfl
    | ok r =>
    obtain ⟨dir, node?⟩ := r
    have hentry : ∀ loc ∈ fs.visitsEntry links dir name cs node?, fs'.node? loc = fs.node? loc :=
      fun loc hmem => hsame loc (by simp [he, hl, hmem])
    unfold visitsEntry at hentry
    match node?, hentry with
    | none, _ => rfl
    | some (.file f), _ => rfl
    | some (.dir mode), hentry =>
      show (if _ then _ else fs'.walkFrom ending links _ cs) = if _ then _ else _
      rw [ihrest _ hentry]
    | some (.link target), hentry =>
      cases links with
      | zero => rfl
      | succ links =>
        show (if _ then _ else fs'.walkFrom ending links _ _) =
          if _ then _ else fs.walkFrom ending links _ _
        rw [ihlink links rfl _ _ hentry]

/-- Whether two file systems differ only in what is beneath a directory that nobody is in. -/
structure DiffersIn (p : Place) (fs fs' : FileSystem) : Prop where
  here : fs'.here = fs.here
  apart : p.isApart fs.here = true
  same : ∀ loc, p.holds loc = false → fs'.node? loc = fs.node? loc

/-- Whether what is beneath a directory is the same in two file systems. -/
def SameIn (p : Place) (fs fs' : FileSystem) : Prop :=
  ∀ loc, p.holds loc = true → fs'.node? loc = fs.node? loc

namespace SameIn

theorem refl (p : Place) (fs : FileSystem) : SameIn p fs fs := fun _ _ => rfl

theorem trans {fs₁ fs₂ fs₃ : FileSystem} (h : SameIn p fs₁ fs₂) (h' : SameIn p fs₂ fs₃) :
    SameIn p fs₁ fs₃ :=
  fun loc hloc => (h' loc hloc).trans (h loc hloc)

theorem put {node : Node} (hloc : p.holds loc = false) : SameIn p fs (fs.put loc node) := by
  intro l hl
  have hne : l ≠ loc := by
    rintro rfl
    simp [hloc] at hl
  rw [node?_put, if_neg hne]

end SameIn

namespace DiffersIn

theorem put {node : Node} (h : DiffersIn p fs fs') :
    DiffersIn p (fs.put loc node) (fs'.put loc node) := by
  refine ⟨h.here, h.apart, fun l hl => ?_⟩
  rw [node?_put, node?_put, h.same l hl]

/-- What is beneath a directory of a tree may be replaced by what another tree has there. -/
theorem isTree {fs₁ : FileSystem} {root : Location} {mode : Mode}
    (h : DiffersIn (.at root) fs fs') (hsame : SameIn (.at root) fs₁ fs')
    (hroot : fs.node? root = some (.dir mode)) (htree : fs.IsTree) (htree₁ : fs₁.IsTree) :
    fs'.IsTree := by
  constructor
  . intro name dir hsome
    cases hloc : (Place.at root).holds (name :: dir) with
    | false =>
      rw [h.same _ hloc] at hsome
      rw [h.same _ (Place.not_holds_of_cons hloc)]
      exact htree.rooted name dir hsome
    | true =>
      obtain ⟨xs, hxs, heq⟩ := Place.holds_at.mp hloc
      obtain ⟨x, xs, rfl⟩ := List.exists_cons_of_ne_nil hxs
      rw [List.cons_append, List.cons.injEq] at heq
      obtain ⟨-, rfl⟩ := heq
      rw [hsame _ hloc] at hsome
      -- Only the directory itself is not beneath it.
      cases xs with
      | nil => exact ⟨mode, (h.same _ Place.not_holds_self).trans hroot⟩
      | cons y ys =>
        rw [hsame _ (Place.holds_append (by simp))]
        exact htree₁.rooted name _ hsome
  . intro name dir hsome
    cases hloc : (Place.at root).holds (name :: dir) with
    | false =>
      rw [h.same _ hloc] at hsome
      exact htree.proper name dir hsome
    | true =>
      rw [hsame _ hloc] at hsome
      exact htree₁.proper name dir hsome

variable (h : DiffersIn p fs fs') (hway : ∀ loc ∈ fs.visits path, p.holds loc = false)

include h hway

theorem walk_eq : fs'.walk ending path = fs.walk ending path := by
  unfold walk
  rw [h.here, walkFrom_of_visits fun loc hl => h.same loc (hway loc hl)]

theorem visits_eq : fs'.visits path = fs.visits path := by
  have hkept : Place.Past (fun _ _ => False) fs.here fs'.here := by
    rw [h.here]
    exact .refl fs.here
  exact (find_of_visits hkept fun loc hl => ⟨h.same loc (hway loc hl), fun _ => id⟩).1

theorem find_eq : fs'.find path = fs.find path := by
  unfold find
  rw [h.walk_eq hway]

theorem isDir_eq : fs'.isDir path = fs.isDir path := by
  unfold isDir
  rw [h.find_eq hway]

theorem isFile_eq : fs'.isFile path = fs.isFile path := by
  unfold isFile
  rw [h.find_eq hway]

theorem openForWriting_eq {mode : Mode} :
    fs'.openForWriting path mode = fs.openForWriting path mode := by
  unfold openForWriting
  rw [h.walk_eq hway]
  rcases hwalk : fs.walk .create path with e | a
  . rfl
  match a, hwalk with
  | .place _, _ => rfl
  | .entry _ _ (some (.file f)) _, _ => rfl
  | .entry _ _ (some (.dir _)) _, _ => rfl
  | .entry _ _ (some (.link _)) _, _ => rfl
  | .entry dir name none closed, hwalk =>
    -- Whether a file can be made there is up to its directory, which is no further down.
    have hentry := (arrives_of_walkFrom (walk_eq_ok.mp hwalk).2).mem_visitsFrom
    have hwritable : fs'.writable dir = fs.writable dir := by
      unfold writable modeOf
      dsimp only
      rw [h.same dir (Place.not_holds_of_cons (hway _ hentry))]
    show (fs'.writable dir >>= _) = (fs.writable dir >>= _)
    rw [hwritable]

end DiffersIn

end FileSystem

namespace Session

variable {p : Place} {path : Pathname} {fs : FileSystem}

/-- Whether what is done to a file system has nothing to do with what is beneath a directory. -/
def IsBlind (p : Place) (session : Session α) (fs : FileSystem) : Prop :=
  ∀ fs', fs.DiffersIn p fs' → (session.start fs').1 = (session.start fs).1 ∧
    (session.start fs).2.DiffersIn p (session.start fs').2 ∧ fs'.SameIn p (session.start fs').2

theorem isBlind_writeFile {data : Bytes} (hway : ∀ loc ∈ fs.visits path, p.holds loc = false) :
    (change (·.writeFile path data)).IsBlind p fs := by
  intro fs' h
  rw [start_change, start_change]
  unfold FileSystem.writeFile
  rw [h.openForWriting_eq hway]
  cases hopen : fs.openForWriting path defaultMode with
  | error e => exact ⟨rfl, h, .refl p fs'⟩
  | ok r => exact ⟨rfl, h.put, .put (hway _ (mem_visits_of_openForWriting hopen))⟩

end Session

variable {p : Place} {w : World} {path card : Pathname}

namespace Action

variable {α β ε : Type} {x : Action α} {f : α → Action β}

/--
Whether an action has nothing to do with what is beneath a directory: it comes to the same in any
world that differs only there, and leaves what is there as it is.
-/
def IsBlind (p : Place) (x : Action α) (w : World) : Prop :=
  ∀ fs, w.disk.DiffersIn p fs → ∃ fs', (x.start w).2.disk.DiffersIn p fs' ∧ fs.SameIn p fs' ∧
    x.start { w with disk := fs } = ((x.start w).1, { (x.start w).2 with disk := fs' })

namespace IsBlind

theorem pure (a : α) : (pure a : Action α).IsBlind p w := fun fs h => ⟨fs, h, .refl p fs, rfl⟩

theorem fail (cause : Cause) : (fail cause : Action α).IsBlind p w :=
  fun fs h => ⟨fs, h, .refl p fs, rfl⟩

theorem happen (e : Event) : (happen e).IsBlind p w := fun fs h => ⟨fs, h, .refl p fs, rfl⟩

theorem ofExcept (cause : ε → Cause) (r : Except ε α) : (ofExcept cause r).IsBlind p w := by
  cases r with
  | ok a => exact .pure a
  | error e => exact .fail (cause e)

theorem askDisk {question : FileSystem → α}
    (h : ∀ fs, w.disk.DiffersIn p fs → question fs = question w.disk) :
    (askDisk question).IsBlind p w := by
  intro fs hfs
  refine ⟨fs, hfs, .refl p fs, ?_⟩
  rw [start_askDisk, h fs hfs]
  rfl

theorem attempt {session : Session α} (h : session.IsBlind p w.disk) :
    (attempt session).IsBlind p w := by
  intro fs hfs
  obtain ⟨hresult, hdisk, hsame⟩ := h fs hfs
  refine ⟨_, hdisk, hsame, ?_⟩
  rw [start_attempt, hresult]
  rfl

theorem bind (hx : x.IsBlind p w)
    (hf : ∀ a w₁, x.start w = (.ok a, w₁) → (f a).IsBlind p w₁) : (x >>= f).IsBlind p w := by
  intro fs hfs
  obtain ⟨fs', hfs', hsame, heq⟩ := hx fs hfs
  rw [start_bind, start_bind, heq]
  rcases hstart : x.start w with ⟨r, w₁⟩
  rw [hstart] at hfs'
  cases r with
  | error s => exact ⟨fs', hfs', hsame, rfl⟩
  | ok a =>
    obtain ⟨fs'', hfs'', hsame', heq'⟩ := hf a w₁ hstart fs' hfs'
    exact ⟨fs'', hfs'', hsame.trans hsame', heq'⟩

theorem during (activity : Activity) (hx : x.IsBlind p w) : (during activity x).IsBlind p w := by
  intro fs hfs
  obtain ⟨fs', hfs', hsame, heq⟩ := hx fs hfs
  rw [start_during_snd]
  refine ⟨fs', hfs', hsame, ?_⟩
  rw [start_during, start_during, heq]
  rcases x.start w with ⟨(f | _) | a, w₁⟩ <;> rfl

end IsBlind

end Action

namespace Image

variable {fs fs' : FileSystem} {argument : Pathname}

/-- The paths that are looked at when an image is located, once the argument is absolute. -/
def lookedAt (fs : FileSystem) (path : Pathname) : List Pathname :=
  let usual := path / (defaultName : Pathname)
  [path, usual, usual.inForm .bin, usual.inForm .elf, named fs path] ++
    ImageForm.flat.map (named fs path).inForm

theorem flatForm_named_congr (h : ∀ seen ∈ lookedAt fs path, fs'.find seen = fs.find seen) :
    flatForm fs' (named fs' path) = flatForm fs (named fs path) := by
  have hexists (seen : Pathname) (hseen : seen ∈ lookedAt fs path) :
      fs'.exists? seen = fs.exists? seen := by
    unfold exists?
    rw [h seen hseen]
  have hnamed : named fs' path = named fs path := by
    unfold named inDirectory isDir
    rw [h path (by simp [lookedAt])]
    simp only [List.find?]
    rw [hexists _ (by simp [lookedAt]), hexists _ (by simp [lookedAt]),
      hexists _ (by simp [lookedAt])]
  have hflat : flatForm? fs' (named fs path) = flatForm? fs (named fs path) := by
    unfold flatForm? ImageForm.flat
    simp only [List.map, List.find?]
    rw [hexists _ (by simp [lookedAt, ImageForm.flat]),
      hexists _ (by simp [lookedAt, ImageForm.flat])]
  unfold flatForm
  rw [hnamed, hflat, hexists _ (by simp [lookedAt])]

theorem isBlind_locate
    (hway : ∀ path, absolutePath w.disk argument = .ok path → ∀ seen ∈ lookedAt w.disk path,
      ∀ loc ∈ w.disk.visits seen, p.holds loc = false) : (locate argument).IsBlind p w := by
  intro fs hfs
  have habsolute : absolutePath fs argument = absolutePath w.disk argument := by
    unfold absolutePath currentDirectory
    rw [hfs.here]
  rw [start_locate, start_locate, habsolute]
  cases hpath : absolutePath w.disk argument with
  | error e => exact ⟨fs, hfs, .refl p fs, rfl⟩
  | ok path =>
    dsimp only
    rw [flatForm_named_congr fun seen hseen => hfs.find_eq (hway path hpath seen hseen)]
    cases flatForm w.disk (named w.disk path) with
    | error cause => exact ⟨fs, hfs, .refl p fs, rfl⟩
    | ok flat => exact ⟨fs, hfs, .refl p fs, rfl⟩

end Image

namespace Waiting

variable {limit : Option Nat} {fs : FileSystem}

theorem exists_afterDot
    (hmount : ∀ mount, w.mount = some mount → (Session.makeDirs mount.path).IsBlind p w.disk)
    (hfs : w.disk.DiffersIn p fs) : ∃ fs', (afterDot w).disk.DiffersIn p fs' ∧ fs.SameIn p fs' ∧
      afterDot { w with disk := fs } = { afterDot w with disk := fs' } := by
  unfold afterDot
  dsimp only
  cases hw : w.mount with
  | none => exact ⟨fs, hfs, .refl p fs, rfl⟩
  | some mount =>
    dsimp only
    split
    . obtain ⟨-, hdiffers, hsame⟩ := hmount mount hw fs hfs
      exact ⟨_, hdiffers, hsame, rfl⟩
    . exact ⟨fs, hfs, .refl p fs, rfl⟩

theorem eq_of_mount_afterDot {mount : Mount} (h : (afterDot w).mount = some mount) :
    (afterDot w).disk = w.disk ∧ ∃ mount', w.mount = some mount' ∧ mount'.path = mount.path := by
  obtain ⟨disk, programs, listing, environment, input, mount?, remembered, transcript⟩ := w
  cases mount? with
  | none => exact nomatch (h : none = some mount)
  | some mount' =>
    unfold afterDot at h ⊢
    dsimp only at h ⊢
    split at h
    . exact nomatch (h : none = some mount)
    next hdots =>
      obtain rfl := Option.some.inj h
      exact ⟨by rw [if_neg hdots], mount', rfl, rfl⟩

theorem poll_afterDot {rounds dots : Nat}
    (hmount : ∀ mount, w.mount = some mount → (Session.makeDirs mount.path).IsBlind p w.disk)
    (hway : ∀ n, (∀ m < n, (afterDot^[m] w).disk.isDir card = false) →
      ∀ loc ∈ (afterDot^[n] w).disk.visits card, p.holds loc = false)
    (hfs : w.disk.DiffersIn p fs) :
    ∃ fs', poll (·.disk.isDir card) afterDot limit rounds dots { w with disk := fs } =
        (poll (·.disk.isDir card) afterDot limit rounds dots w).map
          (fun r => (r.1, { r.2 with disk := fs' })) ∧
      fs.SameIn p fs' ∧ ∀ found w', poll (·.disk.isDir card) afterDot limit rounds dots w =
        some (found, w') → w'.disk.DiffersIn p fs' := by
  induction rounds generalizing dots w fs with
  | zero =>
    rw [poll_zero, poll_zero]
    dsimp only
    rw [hfs.isDir_eq (hway 0 (by simp))]
    split
    . exact ⟨fs, rfl, .refl p fs, by simpa using hfs⟩
    split
    . exact ⟨fs, rfl, .refl p fs, by simpa using hfs⟩
    . exact ⟨fs, rfl, .refl p fs, by simp⟩
  | succ rounds ih =>
    rw [poll_succ, poll_succ]
    dsimp only
    rw [hfs.isDir_eq (hway 0 (by simp))]
    split
    . exact ⟨fs, rfl, .refl p fs, by simpa using hfs⟩
    next hdir =>
    split
    . exact ⟨fs, rfl, .refl p fs, by simpa using hfs⟩
    obtain ⟨fs₁, hfs₁, hsame, heq⟩ := exists_afterDot hmount hfs
    rw [heq]
    have hmount₁ (mount : Mount) (hm : (afterDot w).mount = some mount) :
        (Session.makeDirs mount.path).IsBlind p (afterDot w).disk := by
      obtain ⟨hdisk, mount', hm', hpath⟩ := eq_of_mount_afterDot hm
      rw [hdisk, ← hpath]
      exact hmount mount' hm'
    have hway₁ (n : Nat) (hn : ∀ m < n, (afterDot^[m] (afterDot w)).disk.isDir card = false) :
        ∀ loc ∈ (afterDot^[n] (afterDot w)).disk.visits card, p.holds loc = false := by
      refine hway (n + 1) fun m hm => ?_
      cases m with
      | zero => simpa using hdir
      | succ m => exact hn m (Nat.lt_of_succ_lt_succ hm)
    obtain ⟨fs₂, hpoll, hsame₂, hfs₂⟩ := ih hmount₁ hway₁ hfs₁
    exact ⟨fs₂, hpoll, hsame.trans hsame₂, hfs₂⟩

theorem atTest_mounting (n : Nat) : Drift.mounting.atTest card w (n + 1) =
    afterDot^[n] (w.told (announcement card)) := by
  induction n with
  | zero => rfl
  | succ n ih =>
    rw [Function.iterate_succ_apply', ← ih]
    rfl

/-- Waiting has to do with what is on the way to the card, and with what is mounted. -/
theorem isBlind_untilDirectory
    (hmount : w.disk.isDir card = false → ∀ mount, w.mount = some mount →
      (Session.makeDirs mount.path).IsBlind p w.disk)
    (hway : ∀ n, (∀ m < n, Drift.mounting.sees card w m = false) →
      ∀ loc ∈ (Drift.mounting.atTest card w n).disk.visits card, p.holds loc = false) :
    (untilDirectory card limit).IsBlind p w := by
  intro fs hfs
  rw [start_untilDirectory, start_untilDirectory]
  dsimp only
  rw [hfs.isDir_eq (hway 0 (by simp))]
  cases hdir : w.disk.isDir card with
  | true => exact ⟨fs, hfs, .refl p fs, rfl⟩
  | false =>
    have hmount' : ∀ mount, (w.told (announcement card)).mount = some mount →
        (Session.makeDirs mount.path).IsBlind p (w.told (announcement card)).disk :=
      hmount hdir
    have hway' (n : Nat)
        (hn : ∀ m < n, (afterDot^[m] (w.told (announcement card))).disk.isDir card = false) :
        ∀ loc ∈ (afterDot^[n] (w.told (announcement card))).disk.visits card,
          p.holds loc = false := by
      rw [← atTest_mounting]
      refine hway (n + 1) fun m hm => ?_
      cases m with
      | zero => exact hdir
      | succ m =>
        unfold Drift.sees
        rw [atTest_mounting]
        exact hn m (Nat.lt_of_succ_lt_succ hm)
    obtain ⟨fs', hpoll, hsame, hfs'⟩ :=
      @poll_afterDot _ _ _ limit fs (limit.getD (dotsLeft w)) 0 hmount' hway' hfs
    have htold : World.told (announcement card) { w with disk := fs } =
        { w.told (announcement card) with disk := fs } :=
      rfl
    rw [if_neg (by simp), if_neg (by simp), htold, show dotsLeft { w with disk := fs } = dotsLeft w
      from rfl, hpoll]
    cases hresult : poll (·.disk.isDir card) afterDot limit (limit.getD (dotsLeft w)) 0
        (w.told (announcement card)) with
    | none => exact ⟨fs, hfs, .refl p fs, rfl⟩
    | some r => exact ⟨fs', hfs' r.1 r.2 hresult, hsame, rfl⟩

end Waiting

namespace CardMemory

variable {file : Pathname} (hway : ∀ loc ∈ w.disk.visits file, p.holds loc = false)

include hway

theorem isBlind_load_file : ((CardMemory.file file).load).IsBlind p w := by
  refine .bind (.askDisk fun fs hfs => hfs.isFile_eq hway) fun there w₁ hask => ?_
  obtain ⟨hthere, rfl⟩ := Prod.mk.inj hask
  split
  . exact .pure none
  next hnot =>
    obtain ⟨loc, f, hfind⟩ := isFile_eq_true.mp (by simpa [← Except.ok.inj hthere] using hnot)
    refine .bind (.during _ (.bind (.attempt fun fs hfs => ?_) fun r _ _ => .ofExcept _ r))
      fun text _ _ => .pure _
    rw [Session.start_ask, Session.start_ask, readFile_file hfind,
      readFile_file ((hfs.find_eq hway).trans hfind)]
    exact ⟨rfl, hfs, .refl p fs⟩

theorem isBlind_save_file : ((CardMemory.file file).save card).IsBlind p w :=
  .during _ (.bind (.attempt (Session.isBlind_writeFile hway)) fun r _ _ => .ofExcept _ r)

end CardMemory

namespace Choice

variable {volumes : Pathname} {memory : CardMemory} {operator : Operator}
variable {named : Option Pathname}

theorem isBlind_askOperator
    (h : (operator.answer volumes).IsBlind p (w.told [.asked volumes])) :
    (askOperator volumes operator).IsBlind p w := by
  refine .bind (.happen _) fun _ w₁ hasked => ?_
  obtain ⟨-, rfl⟩ := Prod.mk.inj hasked
  refine .bind h fun answer w₂ _ => ?_
  split
  . exact .pure _
  . exact .fail _

theorem isBlind_pick (hload : memory.load.IsBlind p w)
    (hanswer : ∀ {w₁}, named = none → memory.load.start w = (.ok none, w₁) →
      (operator.answer volumes).IsBlind p (w₁.told [.asked volumes])) :
    (pick volumes memory operator named).IsBlind p w := by
  unfold pick rememberedOrAsked
  cases named with
  | some card => exact .pure card
  | none =>
    refine .bind hload fun remembered w₁ hremembered => ?_
    cases remembered with
    | some card => exact .bind (.happen _) fun _ _ _ => .pure card
    | none => exact isBlind_askOperator (hanswer rfl hremembered)

end Choice

end BootCard
