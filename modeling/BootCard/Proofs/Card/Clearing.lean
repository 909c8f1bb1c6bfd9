import BootCard.Card.Clearing
import BootCard.Proofs.Disk.Listing
import BootCard.Proofs.World.Direct

/-!
This module contains what clearing a card does. Whatever comes of it, all that changes is that
entries of the card go, and an entry that has been removed is gone if the card is still there.
-/

namespace BootCard

namespace FileSystem

variable {fs fs' : FileSystem} {card : Pathname} {p : Place} {root : Location} {name : Name}

/-- Whether a path leads to one directory at most of those that are there. -/
structure HadCard (fs : FileSystem) (card : Pathname) (p : Place) : Prop where
  not_empty : card.bytes ≠ []
  only : ∀ root l, fs.reach card = .ok (.at root, l) → p = .at root

theorem hadCard_of_find (h : fs.find card = .ok (.dir p)) : fs.HadCard card p where
  not_empty := (find_eq_dir.mp h).1.not_empty
  only root l hreach := by
    obtain ⟨-, l', hl'⟩ := find_eq_dir.mp h
    simp_all

theorem Shrunk.hadCard (h : Shrunk p fs fs') (hcard : fs.HadCard card p) :
    fs'.HadCard card p where
  not_empty := hcard.not_empty
  only root l hreach := by
    obtain ⟨q, hq, hreach'⟩ := h.reach hreach
    cases hq with
    | kept => exact hcard.only root l hreach'

def Shrinks (card : Pathname) (p : Place) (fs fs' : FileSystem) : Prop :=
  fs.HadCard card p → Shrunk p fs fs'

instance : Std.Refl (Shrinks card p) := ⟨fun fs _ => .refl p fs⟩

instance : IsTrans FileSystem (Shrinks card p) :=
  ⟨fun _ _ _ h₁ h₂ hcard => (h₁ hcard).trans (h₂ ((h₁ hcard).hadCard hcard))⟩

/--
Whether a file system has only shrunk and is still a tree, and only one of the entries of the
directory itself may be gone.
-/
structure Trimmed (p : Place) (name : Name) (fs fs' : FileSystem) : Prop where
  shrunk : Shrunk p fs fs'
  rooted : KeepsRooted fs fs'
  others : ∀ root n, p = .at root → n ≠ name → fs'.node? (n :: root) = fs.node? (n :: root)

namespace Trimmed

variable {fs₁ : FileSystem}

theorem refl (p : Place) (name : Name) (fs : FileSystem) : Trimmed p name fs fs :=
  ⟨.refl p fs, id, fun _ _ _ _ => rfl⟩

theorem trans (h₁ : Trimmed p name fs fs₁) (h₂ : Trimmed p name fs₁ fs') :
    Trimmed p name fs fs' where
  shrunk := h₁.shrunk.trans h₂.shrunk
  rooted hroot := h₂.rooted (h₁.rooted hroot)
  others root n hp hn := (h₂.others root n hp hn).trans (h₁.others root n hp hn)

theorem erase {node : Node} (hnode : fs.node? (name :: root) = some node)
    (hfile : node.isDir = false) : Trimmed (.at root) name fs (fs.erase (name :: root)) where
  shrunk := .erase (Place.holds_cons name)
  rooted hroot := by
    refine hroot.erase (hroot.children_eq_none fun mode hmode => ?_)
    obtain rfl := Option.some.inj (hnode.symm.trans hmode)
    simp [Node.isDir] at hfile
  others := by
    rintro _ n ⟨⟩ hn
    rw [node?_erase, if_neg (by simpa using hn)]

theorem eraseDir {mode : Mode} (hnode : fs.node? (name :: root) = some (.dir mode))
    (hempty : fs.names (name :: root) = []) :
    Trimmed (.at root) name fs (fs.eraseDir (name :: root) mode) where
  shrunk := .eraseDir (Place.holds_cons name) hnode
  rooted hroot := by
    refine hroot.eraseDir fun n => ?_
    have hnot : n ∉ fs.names (name :: root) := by simp [hempty]
    simpa [mem_names_iff] using hnot
  others := by
    rintro _ n ⟨⟩ hn
    rw [node?_eraseDir, if_neg (by simpa using hn)]

theorem of_shrunk (h : Shrunk (.at (name :: root)) fs fs') (hroot : KeepsRooted fs fs') :
    Trimmed (.at root) name fs fs' where
  shrunk := h.mono fun _ hloc => Place.holds_of_holds (Place.holds_cons name) hloc
  rooted := hroot
  others := by
    rintro _ n ⟨⟩ hn
    apply h.node?_of_not_holds
    rw [Bool.eq_false_iff]
    intro hholds
    obtain ⟨xs, hxs, heq⟩ := Place.holds_at.mp hholds
    have hlength := congrArg List.length heq
    simp only [List.length_cons, List.length_append] at hlength
    exact hxs (List.length_eq_zero_iff.mp (by omega))

end Trimmed

instance : IsTrans FileSystem (Trimmed p name) := ⟨fun _ _ _ => Trimmed.trans⟩

def Trims (card : Pathname) (p : Place) (name : Name) (fs fs' : FileSystem) : Prop :=
  fs.HadCard card p → Trimmed p name fs fs'

instance : Std.Refl (Trims card p name) := ⟨fun fs _ => .refl p name fs⟩

instance : IsTrans FileSystem (Trims card p name) :=
  ⟨fun _ _ _ h₁ h₂ hcard => (h₁ hcard).trans (h₂ ((h₁ hcard).shrunk.hadCard hcard))⟩

structure IsEntry (fs : FileSystem) (card : Pathname) (root : Location) (name : Name) : Prop where
  reaches : ∃ l, fs.reach card = .ok (.at root, l)
  walkable : (card / Pathname.mk name).IsWalkable
  enters : fs.enter (.at root) = .ok ()
  fits : name.length ≤ maxNameLength

theorem HadCard.walk_entry (h : fs.HadCard card p) (hname : name.IsProper) {a : Arrival}
    (hwalk : fs.walk .keep (card / Pathname.mk name) = .ok a) :
    ∃ root, p = .at root ∧ fs.IsEntry card root name ∧
      a = .entry root name (fs.node? (name :: root)) false := by
  have hinner := hname.isInner
  obtain ⟨hwalkable, q, l, hreach, hfrom⟩ :=
    (walk_join_eq_ok h.not_empty hinner.relative hinner.not_empty).mp hwalk
  rw [show components (Pathname.mk name).bytes = _ from hname, walkFrom_name,
    except_bind_eq_ok] at hfrom
  obtain ⟨⟨⟩, henter, hfrom⟩ := hfrom
  unfold walkName at hfrom
  dsimp at hfrom
  rw [except_bind_eq_ok] at hfrom
  obtain ⟨⟨root, node?⟩, hlook, hfrom⟩ := hfrom
  obtain ⟨rfl, hfits, hnode⟩ := lookup_eq_ok.mp hlook
  refine ⟨root, h.only root l hreach, ⟨⟨l, hreach⟩, hwalkable, henter, hfits⟩, ?_⟩
  rw [hnode]
  match node?, hfrom with
  | none, hfrom => exact (Except.ok.inj hfrom).symm
  | some (.file f), hfrom => exact (Except.ok.inj hfrom).symm
  | some (.dir mode), hfrom => exact (Except.ok.inj hfrom).symm
  | some (.link target), hfrom => exact (Except.ok.inj hfrom).symm

theorem IsEntry.walk_eq (h : fs.IsEntry card root name) (hcard : card.bytes ≠ [])
    (hname : name.IsProper) :
    fs.walk .keep (card / Pathname.mk name) =
      .ok (.entry root name (fs.node? (name :: root)) false) := by
  have hinner := hname.isInner
  obtain ⟨l, hreach⟩ := h.reaches
  refine (walk_join_eq_ok hcard hinner.relative hinner.not_empty).mpr
    ⟨h.walkable, .at root, l, hreach, ?_⟩
  have hlook : fs.lookup (.at root) name = .ok (root, fs.node? (name :: root)) :=
    lookup_eq_ok.mpr ⟨rfl, h.fits, rfl⟩
  rw [show components (Pathname.mk name).bytes = _ from hname, walkFrom_name, h.enters]
  show fs.walkName .keep l (.at root) name [] = _
  unfold walkName
  rw [hlook]
  cases fs.node? (name :: root) with
  | none => rfl
  | some node => cases node <;> rfl

theorem IsEntry.find_dir (h : fs.IsEntry card root name) (hcard : card.bytes ≠ [])
    (hname : name.IsProper) {mode : Mode} (hnode : fs.node? (name :: root) = some (.dir mode)) :
    fs.find (card / Pathname.mk name) = .ok (.dir (.at (name :: root))) := by
  obtain ⟨l, hreach⟩ := h.reaches
  refine find_eq_dir.mpr ⟨h.walkable, l, ?_⟩
  have hlook : fs.lookup (.at root) name = .ok (root, some (.dir mode)) :=
    lookup_eq_ok.mpr ⟨rfl, h.fits, hnode⟩
  rw [reach_join hcard hname.isInner.relative, hreach]
  show fs.descend l (.at root) (Pathname.mk name).parts = _
  rw [← descend_components, show components (Pathname.mk name).bytes = _ from hname,
    descend_name, h.enters]
  show fs.descendName l (.at root) name [] = _
  unfold descendName
  rw [hlook]
  exact descend_nil

theorem IsEntry.of_shrunk {q : Place} {l : Nat} (h : fs.IsEntry card root name)
    (hshrunk : Shrunk q fs fs') (hq : q.holds root = false)
    (hreach : fs'.reach card = .ok (.at root, l)) : fs'.IsEntry card root name where
  reaches := ⟨l, hreach⟩
  walkable := h.walkable
  enters := by
    obtain ⟨mode, hmode, hcan⟩ := enter_eq_ok.mp h.enters
    refine enter_eq_ok.mpr ⟨mode, ?_, hcan⟩
    rw [modeOf_at_eq_ok, hshrunk.node?_of_not_holds hq, ← modeOf_at_eq_ok, hmode]
  fits := h.fits

theorem HadCard.removeFile (h : fs.HadCard card p) (hname : name.IsProper)
    (hremove : fs.removeFile (card / Pathname.mk name) = .ok fs') :
    ∃ root node, p = .at root ∧ fs.node? (name :: root) = some node ∧ node.isDir = false ∧
      fs' = fs.erase (name :: root) := by
  unfold FileSystem.removeFile at hremove
  rw [except_bind_eq_ok] at hremove
  obtain ⟨a, hwalk, hremove⟩ := hremove
  obtain ⟨root, rfl, -, rfl⟩ := h.walk_entry hname hwalk
  cases hnode : fs.node? (name :: root) with
  | none => simp [hnode] at hremove
  | some node =>
    simp only [hnode, Bool.false_eq_true, if_false, except_bind_eq_ok] at hremove
    obtain ⟨-, -, hremove⟩ := hremove
    split at hremove
    . simp at hremove
    next hdir =>
      exact ⟨root, node, rfl, hnode, by simpa using hdir, (Except.ok.inj hremove).symm⟩

theorem HadCard.removeDir (h : fs.HadCard card p) (hname : name.IsProper)
    (hremove : fs.removeDir (card / Pathname.mk name) = .ok fs') :
    ∃ root mode, p = .at root ∧ fs.node? (name :: root) = some (.dir mode) ∧
      fs.names (name :: root) = [] ∧ fs' = fs.eraseDir (name :: root) mode := by
  unfold FileSystem.removeDir at hremove
  rw [except_bind_eq_ok] at hremove
  obtain ⟨a, hwalk, hremove⟩ := hremove
  obtain ⟨root, rfl, -, rfl⟩ := h.walk_entry hname hwalk
  cases hnode : fs.node? (name :: root) with
  | none => simp [hnode] at hremove
  | some node =>
    cases node with
    | file f => simp [hnode] at hremove
    | link target => simp [hnode] at hremove
    | dir mode =>
      simp only [hnode, except_bind_eq_ok] at hremove
      obtain ⟨-, -, hremove⟩ := hremove
      split at hremove
      next hempty => exact ⟨root, mode, rfl, hnode, hempty, (Except.ok.inj hremove).symm⟩
      next => simp at hremove

end FileSystem

namespace Session

open FileSystem

variable {order : ListingOrder} {fs fs' : FileSystem} {card : Pathname} {p : Place}
variable {root : Location} {name : Name}

theorem removeFile_trims (hname : name.IsProper) :
    Trims card p name fs ((change (·.removeFile (card / Pathname.mk name))).start fs).2 := by
  apply frame_change
  intro fs' hremove hcard
  obtain ⟨root, node, rfl, hnode, hfile, rfl⟩ := hcard.removeFile hname hremove
  exact .erase hnode hfile

def emptyFound (order : ListingOrder) : Found → Session Unit
  | .dir (.at dir) => do
    let entries ← ask fun fs => .ok fs.nodes.size
    emptyDir order entries dir
  | _ => pure ()

def removeFoundDir (order : ListingOrder) (path : Pathname) : Session Unit := do
  let found ← ask (·.openForReading path)
  emptyFound order found
  (change (·.removeDir path)).orElse unlessMissing

theorem removeTree_eq (path : Pathname) : removeTree order path = (do
    match ← ask (·.entryAt path) with
    | .link _ => change (·.removeFile path)
    | .file _ => throw (.refused .notDirectory)
    | .dir _ => removeFoundDir order path) := by
  unfold removeTree removeFoundDir
  congr 1
  funext node
  cases node with
  | file f => rfl
  | link target => rfl
  | dir mode =>
    dsimp only
    congr 1
    funext found
    unfold emptyFound
    cases found with
    | file loc f => simp
    | dir p => cases p <;> simp

theorem openForReading_entry {mode : Mode} {found : Found} (hcard : fs.HadCard card p)
    (hname : name.IsProper) (hentry : fs.entryAt (card / Pathname.mk name) = .ok (.dir mode))
    (hread : fs.openForReading (card / Pathname.mk name) = .ok found) :
    ∃ root, p = .at root ∧ fs.IsEntry card root name ∧
      fs.node? (name :: root) = some (.dir mode) ∧ found = .dir (.at (name :: root)) := by
  unfold entryAt at hentry
  rw [except_bind_eq_ok] at hentry
  obtain ⟨a, hwalk, hentry⟩ := hentry
  obtain ⟨root, rfl, hisEntry, rfl⟩ := hcard.walk_entry hname hwalk
  have hnode : fs.node? (name :: root) = some (.dir mode) := by
    cases hnode : fs.node? (name :: root) with
    | none => simp [hnode] at hentry
    | some node =>
      rw [hnode] at hentry
      exact congrArg some (Except.ok.inj hentry)
  have hfind := openForReading_eq_ok hread
  rw [hisEntry.find_dir hcard.not_empty hname hnode] at hfind
  exact ⟨root, rfl, hisEntry, hnode, (Except.ok.inj hfind).symm⟩

theorem removeTree_trims (hname : name.IsProper) :
    Trims card p name fs ((removeTree order (card / Pathname.mk name)).start fs).2 := by
  rw [removeTree_eq]
  apply frame_bind
  . exact refl_of _ fs
  intro node fs₁ hask
  obtain ⟨hentry, rfl⟩ := Prod.mk.inj hask
  match node, hentry with
  | .link _, _ => exact removeFile_trims hname
  | .file _, _ => exact refl_of _ fs
  | .dir mode, hentry =>
    apply frame_bind
    . exact refl_of _ fs
    intro found fs₂ hask
    obtain ⟨hread, rfl⟩ := Prod.mk.inj hask
    apply frame_bind
    . intro hcard
      obtain ⟨root, rfl, -, -, rfl⟩ := openForReading_entry hcard hname hentry hread
      apply frame_bind
      . exact .refl _ _ fs
      intro entries fs₃ hask
      obtain ⟨-, rfl⟩ := Prod.mk.inj hask
      exact .of_shrunk emptyDir_shrunk emptyDir_rooted
    intro _ fs₃ _
    apply frame_orElse
    . apply frame_change
      intro fs' hremove hcard
      obtain ⟨root, mode, rfl, hnode, hempty, rfl⟩ := hcard.removeDir hname hremove
      exact .eraseDir hnode hempty
    . intro e fs₄ _
      unfold unlessMissing
      split <;> exact refl_of _ fs₄

theorem removeEntry_trims {isDir : Bool} (hname : name.IsProper) :
    Trims card p name fs ((Clearing.removeEntry order (card / Pathname.mk name) isDir).start fs).2 := by
  unfold Clearing.removeEntry
  split
  . exact removeTree_trims hname
  . exact removeFile_trims hname

theorem removeEntry_shrinks {isDir : Bool} (hname : name.IsProper) :
    Shrinks card p fs ((Clearing.removeEntry order (card / Pathname.mk name) isDir).start fs).2 :=
  fun hcard => (removeEntry_trims hname hcard).shrunk

/-! Removing an entry for good. -/

theorem removeFile_gone {l : Nat} {u : Unit} (hcard : fs.HadCard card p) (hname : name.IsProper)
    (hreach : fs'.reach card = .ok (.at root, l))
    (h : (change (·.removeFile (card / Pathname.mk name))).start fs = (.ok u, fs')) :
    fs'.node? (name :: root) = none := by
  have hshrunk := (removeFile_trims hname hcard).shrunk
  rw [h] at hshrunk
  obtain ⟨root', node, rfl, -, -, rfl⟩ := hcard.removeFile hname (start_change_eq_ok.mp h)
  obtain rfl := Place.at.inj ((hshrunk.hadCard hcard).only root l hreach)
  simp [node?_erase]

theorem removeDir_ne_noEntry (h : fs.IsEntry card root name) (hcard : card.bytes ≠ [])
    (hname : name.IsProper) {mode : Mode} (hnode : fs.node? (name :: root) = some (.dir mode)) :
    fs.removeDir (card / Pathname.mk name) ≠ .error (.refused .noEntry) := by
  unfold removeDir
  rw [h.walk_eq hcard hname, hnode]
  obtain ⟨m, hm, -⟩ := enter_eq_ok.mp h.enters
  have hwritable : fs.writable root =
      if m.canWrite then .ok () else .error (.refused .accessDenied) := by
    unfold writable
    rw [hm]
    rfl
  show (fs.writable root >>= fun _ => _) ≠ _
  rw [hwritable]
  cases hcan : m.canWrite with
  | false => simp [bind, Except.bind]
  | true =>
    simp only [bind, Except.bind, if_true]
    split <;> simp

theorem removeTree_gone {l : Nat} {u : Unit} (hcard : fs.HadCard card p) (hname : name.IsProper)
    (hreach : fs'.reach card = .ok (.at root, l))
    (h : (removeTree order (card / Pathname.mk name)).start fs = (.ok u, fs')) :
    fs'.node? (name :: root) = none := by
  have htrims : Trims card p name fs ((removeTree order (card / Pathname.mk name)).start fs).2 :=
    removeTree_trims hname
  rw [h] at htrims
  have hshrunk := (htrims hcard).shrunk
  rw [removeTree_eq, start_bind_eq_ok] at h
  obtain ⟨node, _, hask, h⟩ := h
  obtain ⟨hentry, rfl⟩ := Prod.mk.inj hask
  match node, hentry with
  | .link _, _ => exact removeFile_gone hcard hname hreach h
  | .file _, _ => simp at h
  | .dir mode, hentry =>
    unfold removeFoundDir at h
    rw [start_bind_eq_ok] at h
    obtain ⟨found, _, hask, h⟩ := h
    obtain ⟨hread, rfl⟩ := Prod.mk.inj hask
    obtain ⟨root', rfl, hisEntry, hnode, rfl⟩ := openForReading_entry hcard hname hentry hread
    obtain rfl := Place.at.inj ((hshrunk.hadCard hcard).only root l hreach)
    rw [start_bind_eq_ok] at h
    obtain ⟨_, fs₁, hempty, h⟩ := h
    have hshrunk₁ : Shrunk (.at (name :: root')) fs fs₁ := by
      have : Shrunk (.at (name :: root')) fs
          ((emptyFound order (.dir (.at (name :: root')))).start fs).2 := emptyDir_shrunk
      rwa [hempty] at this
    have hcard₁ : fs₁.HadCard card (.at root') :=
      (hshrunk₁.mono fun _ hloc =>
        Place.holds_of_holds (Place.holds_cons name) hloc).hadCard hcard
    rw [start_orElse, start_change] at h
    cases hremove : fs₁.removeDir (card / Pathname.mk name) with
    | ok fs₂ =>
      rw [hremove] at h
      obtain ⟨-, rfl⟩ := Prod.mk.inj h
      obtain ⟨_, mode', ⟨⟩, -, -, rfl⟩ := hcard₁.removeDir hname hremove
      simp [node?_eraseDir]
    | error e =>
      -- The card is still there, and so is the directory.
      rw [hremove] at h
      unfold unlessMissing at h
      dsimp only at h
      split at h
      next heq =>
        obtain ⟨-, rfl⟩ := Prod.mk.inj h
        have hthere : fs₁.node? (name :: root') = some (.dir mode) := by
          rw [hshrunk₁.node?_of_not_holds Place.not_holds_self, hnode]
        have hisEntry₁ := hisEntry.of_shrunk hshrunk₁ (Place.not_holds_tail name) hreach
        rw [heq] at hremove
        exact absurd hremove (removeDir_ne_noEntry hisEntry₁ hcard.not_empty hname hthere)
      next => simp at h

theorem removeEntry_gone {isDir : Bool} {l : Nat} {u : Unit} (hcard : fs.HadCard card p)
    (hname : name.IsProper) (hreach : fs'.reach card = .ok (.at root, l))
    (h : (Clearing.removeEntry order (card / Pathname.mk name) isDir).start fs = (.ok u, fs')) :
    fs'.node? (name :: root) = none := by
  unfold Clearing.removeEntry at h
  split at h
  . exact removeTree_gone hcard hname hreach h
  . exact removeFile_gone hcard hname hreach h

end Session

namespace Clearing

open FileSystem

variable {w w' : World} {order : ListingOrder} {card : Pathname} {p : Place} {root : Location}
variable {tally tally' : Tally}

theorem clearEntry_shrinks {entry : Name × Node} (hname : entry.1.IsProper) :
    Shrinks card p w.disk ((clearEntry order card tally entry).start w).2.disk := by
  unfold clearEntry
  apply Action.frame_bind
  . exact Session.removeEntry_shrinks hname
  intro r w₁ _
  cases r <;> exact refl_of _ w₁.disk

theorem foldlM_clearEntry_shrinks {entries : List (Name × Node)}
    (hnames : ∀ entry ∈ entries, entry.1.IsProper) :
    Shrinks card p w.disk ((entries.foldlM (clearEntry order card) tally).start w).2.disk :=
  Action.frame_foldlM fun entry hentry _ _ => clearEntry_shrinks (hnames entry hentry)

theorem clearEntries_shrinks (hnames : w.disk.ProperNames) :
    Shrinks card p w.disk ((clearEntries order card).start w).2.disk := by
  unfold clearEntries
  apply Action.frame_bind
  . exact refl_of _ w.disk
  intro listed w₁ hask
  obtain ⟨hlisted, rfl⟩ := Prod.mk.inj hask
  replace hlisted := Except.ok.inj hlisted
  cases listed with
  | error e => exact refl_of _ w.disk
  | ok entries =>
    exact foldlM_clearEntry_shrinks fun entry hentry =>
      proper_of_mem_listDir hnames hlisted hentry

theorem clear_eq : clear card = (do
    Action.require (·.isDir card) (.cardNotDirectory card)
    let order ← Action.ask (·.listing)
    let tally ← clearEntries order card
    Action.note .debug
      s!"wiped {card.display}: {tally.removed} removed, {tally.failed.length} failed"
    pure tally) := by
  rw [Action.require_bind]
  rfl

theorem isDirect_clearEntries {P : Cause → Prop} : (clearEntries order card).IsDirect P := by
  have hentry (tally : Tally) (entry : Name × Node) : (clearEntry order card tally entry).IsDirect P := by
    unfold clearEntry
    refine .bind (.attempt _) fun removed => ?_
    cases removed with
    | ok u => exact .pure _
    | error e => exact .bind (.note _ _) fun _ => .pure _
  unfold clearEntries
  refine .bind (.askDisk _) fun listed => ?_
  cases listed with
  | ok entries => exact .foldlM hentry
  | error e => exact .bind (.note _ _) fun _ => .pure _

theorem isDirect_clear : (clear card).IsDirect (¬ ·.IsGenerators) := by
  rw [clear_eq]
  exact .bind (.require (by simp [Cause.IsGenerators])) fun _ => .bind .askListing fun _ =>
    .bind isDirect_clearEntries fun _ => .bind (.note _ _) fun _ => .pure _

theorem clear_shrinks (hnames : w.disk.ProperNames) :
    Shrinks card p w.disk ((clear card).start w).2.disk := by
  rw [clear_eq]
  apply Action.frame_bind
  . rw [Action.start_require_snd]
    exact refl_of _ w.disk
  intro _ w₁ hrequire
  obtain ⟨-, rfl⟩ := Action.start_require_eq_ok.mp hrequire
  apply Action.frame_bind
  . exact refl_of _ w.disk
  intro order w₁ hask
  obtain ⟨-, rfl⟩ := Prod.mk.inj hask
  apply Action.frame_bind
  . exact clearEntries_shrinks hnames
  intro tally w₁ _
  exact refl_of _ w₁.disk

theorem exists_shrunk_of_clear {tally : Tally} (hnames : w.disk.ProperNames)
    (h : (clear card).start w = (.ok tally, w')) :
    ∃ p, w.disk.find card = .ok (.dir p) ∧ Shrunk p w.disk w'.disk := by
  have hdir : w.disk.isDir card = true := by
    rw [clear_eq, Action.start_bind_eq_ok] at h
    obtain ⟨_, _, hrequire, -⟩ := h
    exact (Action.start_require_eq_ok.mp hrequire).1
  obtain ⟨p, hp⟩ := isDir_eq_true.mp hdir
  have hshrunk := clear_shrinks hnames (hadCard_of_find hp)
  rw [h] at hshrunk
  exact ⟨p, hp, hshrunk⟩

end Clearing

end BootCard
