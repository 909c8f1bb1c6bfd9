import BootCard.Proofs.Asset.Replacement
import BootCard.Proofs.Disk.Raising

/-!
This module contains all that replacing a file may come to, wherever links lead on the way. Nothing
is taken away before it is certain that the rest will succeed, with one exception: an old backup
that is a link on the way to the file itself.
-/

namespace BootCard

open FileSystem

namespace FileSystem

variable {fs fs' : FileSystem} {path x : Pathname} {loc dir : Location} {name : Name} {node : Node}

theorem Points.of_walk {a : Arrival} {ending : Ending} (h : fs.Points path dir name)
    (hroutes : fs'.RoutesIn fs) (hhere : fs'.here = fs.here)
    (hwalk : fs'.walk ending path = .ok a) : fs'.Points path dir name := by
  obtain ⟨mid, hend⟩ := h.ends
  obtain ⟨dir', hpoints, -⟩ := exists_points hend hwalk
  obtain ⟨rfl, -⟩ := h.unique (hpoints.of_routesIn hroutes hhere)
  exact hpoints

theorem find_of_same {f : RegularFile} (hhere : fs'.here = fs.here)
    (hsame : ∀ l ∈ fs.visits path, fs'.node? l = fs.node? l)
    (h : fs.find path = .ok (.file loc f)) : fs'.find path = .ok (.file loc f) := by
  have hpast : Place.Past (fun _ _ => False) fs.here fs'.here := by
    rw [hhere]
    exact .refl _
  exact (find_of_visits hpast fun l hl => ⟨hsame l hl, fun _ => id⟩).2 _ _ h

theorem points_of_find {f : RegularFile} (h : fs.find path = .ok (.file loc f)) :
    ∃ dir name, fs.Points path dir name ∧
      ((∃ target, fs.node? (name :: dir) = some (.link target)) ∨ loc = name :: dir) := by
  obtain ⟨n, hlast⟩ := exists_last_name h
  obtain ⟨mid, hend⟩ := List.getLast?_eq_some_iff.mp hlast
  obtain ⟨d, m, rfl, hwalk⟩ := find_eq_file.mp h
  obtain ⟨dir, hpoints, ⟨hlink, -⟩ | heq⟩ := exists_points hend hwalk
  . exact ⟨dir, n, hpoints, .inl hlink⟩
  . obtain ⟨rfl, rfl, -⟩ := Arrival.entry.inj heq
    exact ⟨d, m, hpoints, .inr rfl⟩

theorem exists_walk_of_find {found : Found} (h : fs.find path = .ok found) :
    ∃ a, fs.walk .follow path = .ok a := by
  unfold find at h
  rw [except_bind_eq_ok] at h
  obtain ⟨a, hwalk, -⟩ := h
  exact ⟨a, hwalk⟩

theorem exists_walk_of_openForWriting {mode : Mode} {r : Location × RegularFile}
    (h : fs.openForWriting path mode = .ok r) : ∃ a, fs.walk .create path = .ok a := by
  unfold openForWriting at h
  rw [except_bind_eq_ok] at h
  obtain ⟨a, hwalk, -⟩ := h
  exact ⟨a, hwalk⟩

theorem routesIn_erase : (fs.erase loc).RoutesIn fs := by
  intro l node hnode _
  rw [node?_erase] at hnode
  split at hnode
  . simp at hnode
  . exact hnode

theorem routesIn_erase_file {f : RegularFile} (hnode : fs.node? loc = some (.file f)) :
    fs.RoutesIn (fs.erase loc) := by
  intro l n hn hfile
  rw [node?_erase, if_neg]
  . exact hn
  . rintro rfl
    obtain rfl : Node.file f = n := by simpa [hnode] using hn
    simp [Node.isFile] at hfile

theorem routesIn_put (hnone : fs.node? loc = none) : fs.RoutesIn (fs.put loc node) := by
  intro l n hnode _
  rw [node?_put, if_neg]
  . exact hnode
  . rintro rfl
    simp [hnone] at hnode

theorem erase_of_none (hnone : fs.node? loc = none) : fs.erase loc = fs := by
  apply ext_node?
  . intro l
    rw [node?_erase]
    split
    next heq => rw [heq, hnone]
    next => rfl
  . rfl

theorem erase_erase_put {loc' : Location} :
    ((fs.erase loc').erase loc).put loc' node = (fs.erase loc).put loc' node := by
  apply ext_node?
  . intro l
    simp only [node?_put, node?_erase]
    split
    . rfl
    . rfl
  . rfl

theorem exists_arrives_of_link {target : Bytes} {f : RegularFile} (h : fs.Points path dir name)
    (hlink : fs.node? (name :: dir) = some (.link target))
    (hfind : fs.find path = .ok (.file loc f)) :
    ∃ d n l, fs.Arrives .follow d n (some (.file f)) false l (startOf target (.at dir))
      (components target) := by
  obtain ⟨mid, l, hend, hmid⟩ := h.descends
  obtain ⟨d, n, -, hwalk⟩ := find_eq_file.mp hfind
  have hfrom := (walk_eq_ok.mp hwalk).2
  have hopen : ([Component.name name].all (· == .close)) = false := rfl
  rw [hend, walkFrom_append hopen, hmid] at hfrom
  replace hfrom : fs.walkFrom .follow l (.at dir) [.name name] = .ok _ := hfrom
  rw [walkFrom_name, h.enters] at hfrom
  replace hfrom : fs.walkName .follow l (.at dir) name [] = .ok _ := hfrom
  rw [walkName_follow, lookup_eq_ok.mpr ⟨rfl, h.fits, hlink⟩] at hfrom
  cases l with
  | zero => simp [bind, Except.bind, walkEntry, walkLink] at hfrom
  | succ l =>
    replace hfrom : fs.walkFrom .follow l (startOf target (.at dir)) (components target ++ []) =
      .ok _ := hfrom
    rw [List.append_nil] at hfrom
    exact ⟨d, n, l, arrives_of_walkFrom hfrom⟩

theorem Points.of_replaced {f : RegularFile} (hfind : fs.find path = .ok (.file loc f))
    (h : (fs.erase ((name ++ utf8 "~") :: dir)).Points path dir name) :
    ((fs.erase (name :: dir)).put ((name ++ utf8 "~") :: dir) node).Points path dir name := by
  have hpoints := h.of_routesIn routesIn_erase rfl
  obtain ⟨mid, l, hend, hmid⟩ := h.descends
  have hne : name :: dir ≠ (name ++ utf8 "~") :: dir := by simp [utf8]
  have hdirs (n : Name) : dir ≠ n :: dir := by
    intro heq
    have := congrArg List.length heq
    simp at this
  have hsame : ∀ l, l ≠ name :: dir → l ≠ (name ++ utf8 "~") :: dir →
      ((fs.erase (name :: dir)).put ((name ++ utf8 "~") :: dir) node).node? l =
        (fs.erase ((name ++ utf8 "~") :: dir)).node? l := by
    intro l hl hl'
    rw [node?_put_of_ne _ _ hl', node?_erase, if_neg hl, node?_erase, if_neg hl']
  have hway : ∀ l ∈ (fs.erase ((name ++ utf8 "~") :: dir)).visitsFrom maxLinks
      (startOf path.bytes fs.here) mid, l ≠ name :: dir ∧ l ≠ (name ++ utf8 "~") :: dir := by
    intro l hl
    have hpasses := descend_passes hmid hl
    constructor
    . rintro rfl
      rw [node?_erase, if_neg hne] at hpasses
      rcases hpasses with ⟨mode, hdir⟩ | ⟨n, d, target, heq, hlink, l', q, hq⟩
      . simp [hpoints.find_dir hdir] at hfind
      . obtain ⟨rfl, rfl⟩ := List.cons.inj heq
        rw [node?_erase, if_neg hne] at hlink
        obtain ⟨_, _, _, harrives⟩ := exists_arrives_of_link hpoints hlink hfind
        exact harrives.descend_ne_ok (by simp [Node.isFile]) q
          (descend_of_routesIn routesIn_erase hq)
    . rintro rfl
      rw [node?_erase, if_pos rfl] at hpasses
      rcases hpasses with ⟨_, hdir⟩ | ⟨n, d, target, heq, hlink, -⟩
      . simp at hdir
      . rw [← heq, node?_erase, if_pos rfl] at hlink
        simp at hlink
  have hkept : Place.Past (fun _ _ => False) (startOf path.bytes fs.here)
    (startOf path.bytes fs.here) := .refl _
  obtain ⟨q, hq, hdescend⟩ := descend_of_visits hkept
    (fun l hl => ⟨hsame l (hway l hl).1 (hway l hl).2, fun _ => id⟩) hmid
  refine ⟨h.walkable, ⟨mid, l, hend, hq.eq_of_never ▸ hdescend⟩, ?_, h.fits⟩
  have hdir := hsame dir (hdirs _) (hdirs _)
  obtain ⟨mode, hmode, hcan⟩ := enter_eq_ok.mp h.enters
  rw [modeOf_at_eq_ok, ← hdir, ← modeOf_at_eq_ok] at hmode
  exact enter_eq_ok.mpr ⟨mode, hmode, hcan⟩

theorem Points.of_moved {g : RegularFile} (hnode : fs.node? (name :: dir) = some (.file g))
    (h : (fs.erase ((name ++ utf8 "~") :: dir)).Points path dir name) :
    ((fs.erase (name :: dir)).put ((name ++ utf8 "~") :: dir) (.file g)).Points path dir name :=
  h.of_replaced ((h.of_routesIn routesIn_erase rfl).find_file hnode)

theorem Points.opens (h : fs.Points path dir name) (hnone : fs.node? (name :: dir) = none)
    (hwritable : fs.writable dir = .ok ()) (mode : Mode) :
    fs.openForWriting path mode = .ok (name :: dir, ⟨[], mode.masked, .now⟩) := by
  rw [h.openForWriting_eq hnone, hwritable]
  rfl

theorem writable_congr (h : fs'.node? dir = fs.node? dir) : fs'.writable dir = fs.writable dir := by
  unfold writable modeOf
  dsimp only
  rw [h]

end FileSystem

namespace Session

variable {fs : FileSystem} {source dest : Pathname} {loc dir : Location} {name : Name}
variable {f : RegularFile}

theorem start_copyFile {loc' : Location} (hfind : fs.find source = .ok (.file loc f))
    (hread : f.mode.canRead = true) (hnone : fs.node? loc' = none)
    (hopen : ∀ mode, fs.openForWriting dest mode = .ok (loc', ⟨[], mode.masked, .now⟩)) :
    (copyFile source dest).start fs = (.ok (), fs.put loc' (.file ⟨f.data, f.mode, .now⟩)) := by
  have hnode := (mem_visits_of_find hfind).2
  have hne : loc ≠ loc' := by
    rintro rfl
    simp [hnone] at hnode
  have hsource : fs.openForReading source = .ok (.file loc f) := by
    rw [openForReading_file hfind, if_pos hread]
  unfold copyFile
  rw [start_bind, start_ask, hsource]
  dsimp only
  rw [start_bind, start_ask, hopen]
  show ((change _ >>= fun _ => _) : Session Unit).start fs = _
  rw [start_bind, start_change]
  dsimp only
  unfold store
  rw [start_bind, start_ask, node?_put_of_ne _ _ hne, hnode]
  show (change _).start _ = _
  rw [start_change]
  dsimp only
  rw [put_put]

theorem copyFile_refused (h : (∀ found, fs.find source ≠ .ok found) ∨
      ∀ mode r, fs.openForWriting dest mode ≠ .ok r) :
    ∃ e, (copyFile source dest).start fs = (.error e, fs) := by
  unfold copyFile
  rw [start_bind, start_ask]
  cases hread : fs.openForReading source with
  | error e => exact ⟨e, rfl⟩
  | ok found =>
    cases found with
    | dir p => exact ⟨_, rfl⟩
    | file loc f =>
      dsimp only
      rw [start_bind, start_ask]
      cases hwrite : fs.openForWriting dest f.mode with
      | error e => exact ⟨e, rfl⟩
      | ok r =>
        rcases h with h | h
        . exact absurd (openForReading_eq_ok hread) (h _)
        . exact absurd hwrite (h _ _)

end Session

namespace Staging

variable {w w' : World} {source dest backup : Pathname} {loc dir : Location} {name : Name}
variable {node : Node} {f : RegularFile}

theorem dropBackup_cases (backup : Pathname) (w : World) :
    (∃ e, w.disk.entryAt backup = .error e ∧ (dropBackup backup).start w = (.ok (), w)) ∨
      (∃ fs, w.disk.removeFile backup = .ok fs ∧
        (dropBackup backup).start w = (.ok (), { w with disk := fs })) ∨
      ∃ f, (dropBackup backup).start w = (.error (.failed f), w) := by
  unfold dropBackup
  rw [Action.start_bind, Action.start_askDisk]
  dsimp only
  cases hentry : w.disk.entryAt backup with
  | error e => exact .inl ⟨e, rfl, rfl⟩
  | ok node =>
    right
    have hok : (Except.ok node : Except IoError Node).isOk = true := rfl
    rw [if_pos hok]
    unfold Action.onDisk
    rw [Action.start_during, Action.start_bind, Action.start_attempt, Session.start_change]
    cases w.disk.removeFile backup with
    | ok fs => exact .inl ⟨fs, rfl, rfl⟩
    | error e => exact .inr ⟨_, rfl⟩

theorem moveAway_of_rename {fs : FileSystem} (h : w.disk.rename dest backup = .ok fs) :
    (moveAway dest backup).start w = (.ok (), { w with disk := fs }) := by
  unfold moveAway
  rw [Action.start_bind, Action.start_attempt, Session.start_change, h]
  rfl

theorem moveAway_refused {e : IoError} (h : w.disk.rename dest backup = .error e)
    (hcopy : ∃ e, (Session.copyFile dest backup).start w.disk = (.error e, w.disk)) :
    ∃ f, (moveAway dest backup).start w = (.error (.failed f), w) := by
  obtain ⟨e', hcopy⟩ := hcopy
  unfold moveAway
  rw [Action.start_bind, Action.start_attempt, Session.start_change, h]
  dsimp only
  unfold Action.onDisk
  rw [Action.start_bind, Action.start_during, Action.start_bind, Action.start_attempt, hcopy]
  exact ⟨_, rfl⟩

theorem moveAway_of_writable (hpoints : w.disk.Points dest dir name)
    (hbackup : w.disk.Points dest.backup dir (name ++ utf8 "~"))
    (hnode : w.disk.node? (name :: dir) = some node) (hfile : node.isDir = false)
    (hnone : w.disk.node? ((name ++ utf8 "~") :: dir) = none)
    (hwritable : w.disk.writable dir = .ok ()) :
    (moveAway dest dest.backup).start w = (.ok (),
      { w with disk := (w.disk.erase (name :: dir)).put ((name ++ utf8 "~") :: dir) node }) := by
  apply moveAway_of_rename
  rw [hpoints.rename_eq hbackup hnode hfile hnone, hwritable]
  rfl

theorem moveAway_of_not_writable {e : IoError} (hpoints : w.disk.Points dest dir name)
    (hbackup : w.disk.Points dest.backup dir (name ++ utf8 "~"))
    (hnode : w.disk.node? (name :: dir) = some node) (hfile : node.isDir = false)
    (hnone : w.disk.node? ((name ++ utf8 "~") :: dir) = none)
    (hwritable : w.disk.writable dir = .error e) :
    ∃ f, (moveAway dest dest.backup).start w = (.error (.failed f), w) := by
  have hrename : w.disk.rename dest dest.backup = .error e := by
    rw [hpoints.rename_eq hbackup hnode hfile hnone, hwritable]
    rfl
  refine moveAway_refused hrename (Session.copyFile_refused (.inr fun mode r hopen => ?_))
  rw [hbackup.openForWriting_eq hnone, hwritable] at hopen
  simp [bind, Except.bind] at hopen

theorem moveAway_of_not_walked
    (h : (∀ ending a, w.disk.walk ending dest ≠ .ok a) ∨
      ∀ ending a, w.disk.walk ending backup ≠ .ok a) :
    ∃ f, (moveAway dest backup).start w = (.error (.failed f), w) := by
  have hcopy : ∃ e, (Session.copyFile dest backup).start w.disk = (.error e, w.disk) := by
    apply Session.copyFile_refused
    rcases h with h | h
    . left
      intro found hfind
      obtain ⟨a, ha⟩ := exists_walk_of_find hfind
      exact h _ _ ha
    . right
      intro mode r hopen
      obtain ⟨a, ha⟩ := exists_walk_of_openForWriting hopen
      exact h _ _ ha
  cases hrename : w.disk.rename dest backup with
  | error e => exact moveAway_refused hrename hcopy
  | ok fs =>
    unfold rename at hrename
    simp only [except_bind_eq_ok] at hrename
    obtain ⟨a, ha, b, hb, -⟩ := hrename
    rcases h with h | h
    . exact absurd ha (h _ _)
    . exact absurd hb (h _ _)

theorem moveAway_cases (hpoints : w.disk.Points dest dir name)
    (hnode : w.disk.node? (name :: dir) = some node) (hfile : node.isDir = false)
    {e : IoError} (hentry : w.disk.entryAt dest.backup = .error e) :
    (w.disk.writable dir = .ok () ∧ w.disk.Points dest.backup dir (name ++ utf8 "~") ∧
        w.disk.node? ((name ++ utf8 "~") :: dir) = none ∧
        (moveAway dest dest.backup).start w = (.ok (),
          { w with disk := (w.disk.erase (name :: dir)).put ((name ++ utf8 "~") :: dir) node })) ∨
      ∃ f, (moveAway dest dest.backup).start w = (.error (.failed f), w) := by
  by_cases hbackup : w.disk.Points dest.backup dir (name ++ utf8 "~")
  . have hnone : w.disk.node? ((name ++ utf8 "~") :: dir) = none := by
      rw [hbackup.entryAt_eq] at hentry
      cases hthere : w.disk.node? ((name ++ utf8 "~") :: dir) with
      | none => rfl
      | some node => simp [hthere] at hentry
    cases hwritable : w.disk.writable dir with
    | ok u => exact .inl ⟨rfl, hbackup, hnone,
        moveAway_of_writable hpoints hbackup hnode hfile hnone hwritable⟩
    | error e =>
      exact .inr (moveAway_of_not_writable hpoints hbackup hnode hfile hnone hwritable)
  . exact .inr (moveAway_of_not_walked (.inr fun _ _ hwalk =>
      hbackup (hpoints.backup_of_walk hwalk)))

theorem exists_walk_of_removeFile {fs fs' : FileSystem} (h : fs.removeFile dest = .ok fs') :
    ∃ a, fs.walk .keep dest = .ok a := by
  unfold removeFile at h
  rw [except_bind_eq_ok] at h
  obtain ⟨a, hwalk, -⟩ := h
  exact ⟨a, hwalk⟩

theorem backUp_cases (hpoints : w.disk.Points dest dir name)
    (hnode : w.disk.node? (name :: dir) = some node) (hfile : node.isDir = false) :
    (w.disk.writable dir = .ok () ∧ w.disk.Points dest.backup dir (name ++ utf8 "~") ∧
        (∀ mode, w.disk.node? ((name ++ utf8 "~") :: dir) ≠ some (.dir mode)) ∧
        (w.disk.erase ((name ++ utf8 "~") :: dir)).Points dest dir name ∧
        (backUp dest).start w = (.ok (),
          { w with disk := (w.disk.erase (name :: dir)).put ((name ++ utf8 "~") :: dir) node })) ∨
      ∃ f fs, (backUp dest).start w = (.error (.failed f), { w with disk := fs }) ∧
        (fs = w.disk ∨ fs = w.disk.erase ((name ++ utf8 "~") :: dir) ∧
          w.disk.Points dest.backup dir (name ++ utf8 "~") ∧
          (∃ target, w.disk.node? ((name ++ utf8 "~") :: dir) = some (.link target)) ∧
          ∀ ending a, fs.walk ending dest ≠ .ok a) := by
  rw [backUp_eq]
  rcases dropBackup_cases dest.backup w with ⟨e, hentry, hdrop⟩ | ⟨fs, hremove, hdrop⟩ | ⟨f, hdrop⟩
  . rw [Action.start_bind_of_ok hdrop]
    rcases moveAway_cases hpoints hnode hfile hentry with
      ⟨hwritable, hbackup, hnone, hmove⟩ | ⟨f, hmove⟩
    . exact .inl ⟨hwritable, hbackup, by simp [hnone], (erase_of_none hnone).symm ▸ hpoints, hmove⟩
    . exact .inr ⟨f, w.disk, hmove, .inl rfl⟩
  . rw [Action.start_bind_of_ok hdrop]
    obtain ⟨a, hwalk⟩ := exists_walk_of_removeFile hremove
    have hbackup := hpoints.backup_of_walk hwalk
    rw [hbackup.removeFile_eq] at hremove
    cases hthere : w.disk.node? ((name ++ utf8 "~") :: dir) with
    | none => simp [hthere] at hremove
    | some old =>
    simp only [hthere, except_bind_eq_ok] at hremove
    obtain ⟨⟨⟩, hwritable, hremove⟩ := hremove
    split at hremove
    next => simp at hremove
    next hold =>
    obtain rfl := Except.ok.inj hremove
    have hne : name :: dir ≠ (name ++ utf8 "~") :: dir := by simp [utf8]
    by_cases hstill : (w.disk.erase ((name ++ utf8 "~") :: dir)).Points dest dir name
    . left
      refine ⟨hwritable, hbackup, ?_, hstill, ?_⟩
      . rintro mode ⟨⟩
        simp [Node.isDir] at hold
      have hdir : dir ≠ (name ++ utf8 "~") :: dir := by
        intro heq
        have := congrArg List.length heq
        simp at this
      rw [← erase_erase_put]
      apply moveAway_of_writable hstill (hstill.backup hbackup.walkable hbackup.fits) _ hfile
      . simp [node?_erase]
      . exact (writable_congr (by rw [node?_erase, if_neg hdir])).trans hwritable
      . rw [node?_erase, if_neg hne, hnode]
    . -- The old backup is a link on the way to the file, which cannot be found any more.
      right
      have hlink : ∃ target, old = .link target := by
        cases old with
        | link target => exact ⟨target, rfl⟩
        | dir mode => simp [Node.isDir] at hold
        | file f =>
          exact absurd (hpoints.of_routesIn (routesIn_erase_file hthere) rfl) hstill
      obtain ⟨target, rfl⟩ := hlink
      have hlost : ∀ ending a,
          (w.disk.erase ((name ++ utf8 "~") :: dir)).walk ending dest ≠ .ok a :=
        fun _ _ hwalk => hstill (hpoints.of_walk routesIn_erase rfl hwalk)
      have hmove : ∃ f, (moveAway dest dest.backup).start
          { w with disk := w.disk.erase ((name ++ utf8 "~") :: dir) } = (.error (.failed f), _) :=
        moveAway_of_not_walked (.inl hlost)
      obtain ⟨f, hmove⟩ := hmove
      exact ⟨f, _, hmove, .inr ⟨rfl, hbackup, ⟨target, rfl⟩, hlost⟩⟩
  . rw [Action.start_bind_of_error hdrop]
    exact .inr ⟨f, w.disk, rfl, .inl rfl⟩

theorem start_copy {loc' : Location} (hfind : w.disk.find source = .ok (.file loc f))
    (hread : f.mode.canRead = true) (hnone : w.disk.node? loc' = none)
    (hopen : ∀ mode, w.disk.openForWriting dest mode = .ok (loc', ⟨[], mode.masked, .now⟩)) :
    (copy source dest).start w = (.ok (), { w with disk := w.disk.put loc' (.file f) }) := by
  have hcopy := Session.start_copyFile hfind hread hnone hopen
  have hne : loc ≠ loc' := by
    rintro rfl
    simp [(mem_visits_of_find hfind).2] at hnone
  have hfound : (w.disk.put loc' (.file ⟨f.data, f.mode, .now⟩)).find source = .ok (.file loc f) :=
    (find_file_of_routesIn (routesIn_put hnone) rfl
      (by rw [node?_put_of_ne _ _ hne, (mem_visits_of_find hfind).2]) hfind).2
  unfold copy
  simp only [Action.start_bind_eq_ok, Action.start_during_eq_ok, Action.start_onDisk_eq_ok,
    Session.start_ask, Session.start_change_eq_ok, Prod.mk.injEq]
  refine ⟨(), _, ⟨_, hcopy, rfl⟩, _, _, ⟨_, ⟨hfound, rfl⟩, rfl⟩, _, ?_, rfl⟩
  unfold setModified
  rw [openForReading_file (find_put_of_openForWriting (hopen f.mode)), if_pos hread]
  show Except.ok _ = _
  rw [put_put]

theorem copy_refused (h : ∀ mode r, w.disk.openForWriting dest mode ≠ .ok r) :
    ∃ f, (copy source dest).start w = (.error (.failed f), w) := by
  have hcopy : ∃ e, (Session.copyFile source dest).start w.disk = (.error e, w.disk) :=
    Session.copyFile_refused (.inr h)
  obtain ⟨e, hcopy⟩ := hcopy
  unfold copy Action.onDisk
  rw [Action.start_bind, Action.start_during, Action.start_bind, Action.start_attempt, hcopy]
  exact ⟨_, rfl⟩

/-- What making a file the one at a destination may come to, and what it leaves then. -/
inductive Replaced (fs : FileSystem) (dest : Pathname) (f : RegularFile) :
    Except Stop Staged → FileSystem → Prop where
  | upToDate {loc : Location} {g : RegularFile} :
    fs.find dest = .ok (.file loc g) → Digest.of g.data = Digest.of f.data →
    Replaced fs dest f (.ok .upToDate) fs
  | placed {dir : Location} {name : Name} :
    fs.Points dest dir name → fs.node? (name :: dir) = none →
    Replaced fs dest f (.ok .updated) (fs.put (name :: dir) (.file f))
  | exchanged {dir : Location} {name : Name} {g : RegularFile} :
    (fs.erase ((name ++ utf8 "~") :: dir)).Points dest dir name →
    fs.node? (name :: dir) = some (.file g) → Digest.of g.data ≠ Digest.of f.data →
    fs.Points dest.backup dir (name ++ utf8 "~") →
    (∀ mode, fs.node? ((name ++ utf8 "~") :: dir) ≠ some (.dir mode)) →
    Replaced fs dest f (.ok .updated)
      (((fs.erase (name :: dir)).put ((name ++ utf8 "~") :: dir) (.file g)).put (name :: dir)
        (.file f))
  | refused {failure : Failure} : Replaced fs dest f (.error (.failed failure)) fs
  /-- It is refused once a link has been removed that was in the place of the backup. -/
  | unlinked {dir : Location} {name : Name} {target : Bytes} {failure : Failure} :
    fs.Points dest dir name → fs.node? ((name ++ utf8 "~") :: dir) = some (.link target) →
    Replaced fs dest f (.error (.failed failure)) (fs.erase ((name ++ utf8 "~") :: dir))

def place (source dest : Pathname) (line : String) : Action Staged := do
  Action.printLine line
  copy source dest
  pure .updated

theorem start_place {line : String} {loc' : Location}
    (hfind : w.disk.find source = .ok (.file loc f)) (hread : f.mode.canRead = true)
    (hnone : w.disk.node? loc' = none)
    (hopen : ∀ mode, w.disk.openForWriting dest mode = .ok (loc', ⟨[], mode.masked, .now⟩)) :
    (place source dest line).start w = (.ok .updated,
      { w with
        disk := w.disk.put loc' (.file f)
        transcript := w.transcript ++ [.printed (utf8 (line ++ "\n"))] }) := by
  let w₁ : World := { w with transcript := w.transcript ++ [.printed (utf8 (line ++ "\n"))] }
  have hprint : (Action.printLine line).start w = (.ok (), w₁) := Action.start_printLine line
  have hcopy : (copy source dest).start w₁ =
      (.ok (), { w₁ with disk := w.disk.put loc' (.file f) }) :=
    start_copy hfind hread hnone hopen
  unfold place
  rw [Action.start_bind_of_ok hprint, Action.start_bind_of_ok hcopy]
  rfl

theorem start_place_of_moved {line : String} {node : Node}
    (hfind : w.disk.find source = .ok (.file loc f)) (hread : f.mode.canRead = true)
    (hpoints : ((w.disk.erase (name :: dir)).put ((name ++ utf8 "~") :: dir) node).Points dest dir
      name)
    (hfree : name :: dir ∉ w.disk.visits source)
    (hspare : (name ++ utf8 "~") :: dir ∉ w.disk.visits source)
    (hwritable : w.disk.writable dir = .ok ()) :
    (place source dest line).start { w with
        disk := (w.disk.erase (name :: dir)).put ((name ++ utf8 "~") :: dir) node } =
      (.ok .updated,
        { w with
          disk := ((w.disk.erase (name :: dir)).put ((name ++ utf8 "~") :: dir) node).put
            (name :: dir) (.file f)
          transcript := w.transcript ++ [.printed (utf8 (line ++ "\n"))] }) := by
  let fs := (w.disk.erase (name :: dir)).put ((name ++ utf8 "~") :: dir) node
  have hhere : fs.here = w.disk.here := rfl
  have hfind' : fs.find source = .ok (.file loc f) := by
    refine find_of_same hhere (fun l hl => ?_) hfind
    rw [node?_put, if_neg, node?_erase, if_neg]
    . rintro rfl
      exact hfree hl
    . rintro rfl
      exact hspare hl
  have hempty : fs.node? (name :: dir) = none := by
    simp [fs, node?_put, node?_erase, utf8]
  have hne (n : Name) : dir ≠ n :: dir := by
    intro heq
    have := congrArg List.length heq
    simp at this
  have hwritable' : fs.writable dir = .ok () := by
    rw [← hwritable]
    apply writable_congr
    rw [node?_put, if_neg (hne _), node?_erase, if_neg (hne _)]
  exact start_place (w := { w with disk := fs }) hfind' hread hempty
    (hpoints.opens hempty hwritable')

theorem place_refused {line : String} (h : ∀ mode r, w.disk.openForWriting dest mode ≠ .ok r) :
    ∃ f w', (place source dest line).start w = (.error (.failed f), w') ∧ w'.disk = w.disk := by
  let w₁ : World := { w with transcript := w.transcript ++ [.printed (utf8 (line ++ "\n"))] }
  have hcopy : ∃ f, (copy source dest).start w₁ = (.error (.failed f), w₁) := copy_refused h
  obtain ⟨f, hcopy⟩ := hcopy
  have hprint : (Action.printLine line).start w = (.ok (), w₁) := Action.start_printLine line
  unfold place
  rw [Action.start_bind_of_ok hprint, Action.start_bind_of_error hcopy]
  exact ⟨f, w₁, rfl, rfl⟩

theorem replaced_of_none {line : String} (hfind : w.disk.find source = .ok (.file loc f))
    (hread : f.mode.canRead = true)
    (hlink : ∀ dir name target, w.disk.Points dest dir name →
      w.disk.node? (name :: dir) ≠ some (.link target))
    (hnone : ∀ found, w.disk.find dest ≠ .ok found) :
    Replaced w.disk dest f ((place source dest line).start w).1
      ((place source dest line).start w).2.disk := by
  have hrefused (h : ∀ mode r, w.disk.openForWriting dest mode ≠ .ok r) :
      Replaced w.disk dest f ((place source dest line).start w).1
        ((place source dest line).start w).2.disk := by
    have hplace : ∃ f w', (place source dest line).start w = (.error (.failed f), w') ∧
        w'.disk = w.disk := place_refused h
    obtain ⟨failure, w', hplace, hdisk⟩ := hplace
    rw [hplace, hdisk]
    exact .refused
  by_cases hpoints : ∃ dir name, w.disk.Points dest dir name
  . obtain ⟨dir, name, hpoints⟩ := hpoints
    have hempty : w.disk.node? (name :: dir) = none := by
      cases hnode : w.disk.node? (name :: dir) with
      | none => rfl
      | some node =>
        cases node with
        | file g => exact absurd (hpoints.find_file hnode) (hnone _)
        | dir mode => exact absurd (hpoints.find_dir hnode) (hnone _)
        | link target => exact absurd hnode (hlink dir name target hpoints)
    cases hwritable : w.disk.writable dir with
    | ok u =>
      rw [start_place hfind hread hempty (hpoints.opens hempty hwritable)]
      exact .placed hpoints hempty
    | error e =>
      apply hrefused
      intro mode r hopen
      rw [hpoints.openForWriting_eq hempty, hwritable] at hopen
      simp [bind, Except.bind] at hopen
  . apply hrefused
    intro mode r hopen
    obtain ⟨_, _, hdest⟩ := points_of_openForWriting hopen
    exact hpoints ⟨_, _, hdest⟩

/-- What is asked of the place that an asset goes to, so that the asset is not taken from there. -/
structure Apart (fs : FileSystem) (source dest : Pathname) : Prop where
  no_link : ∀ dir name target, fs.Points dest dir name →
    fs.node? (name :: dir) ≠ some (.link target)
  free : ∀ dir name, fs.Points dest dir name → name :: dir ∉ fs.visits source ∧
    (fs.Points dest.backup dir (name ++ utf8 "~") → (name ++ utf8 "~") :: dir ∉ fs.visits source)

theorem replace_replaced {there : Option Digest} (hfind : w.disk.find source = .ok (.file loc f))
    (hread : f.mode.canRead = true) (happart : Apart w.disk source dest)
    (hthere : HasDigest w.disk dest there) :
    Replaced w.disk dest f
      ((replace source dest there (some (Digest.of f.data))).start w).1
      ((replace source dest there (some (Digest.of f.data))).start w).2.disk := by
  unfold replace
  split
  next heq =>
    rcases hthere with ⟨rfl, -⟩ | ⟨_, g, hdest, rfl⟩
    . simp at heq
    . exact .upToDate hdest (Option.some.inj heq)
  next hother =>
  rcases hthere with ⟨rfl, hnone⟩ | ⟨_, g, hdest, rfl⟩
  . exact replaced_of_none hfind hread happart.no_link hnone
  have hother' : Digest.of g.data ≠ Digest.of f.data := fun heq => hother (by rw [heq])
  obtain ⟨dir, name, hpoints, ⟨target, htarget⟩ | rfl⟩ := points_of_find hdest
  . exact absurd htarget (happart.no_link dir name target hpoints)
  have hnode := (mem_visits_of_find hdest).2
  obtain ⟨hfree, hspare⟩ := happart.free dir name hpoints
  unfold makeRoom
  rw [if_pos (by simp)]
  rcases backUp_cases hpoints hnode rfl with
    ⟨hwritable, hbackup, hold, hstill, hbackUp⟩ | ⟨failure, fs, hbackUp, hfs⟩
  . rw [Action.start_bind_of_ok hbackUp]
    show Replaced w.disk dest f ((place source dest _).start _).1
      ((place source dest _).start _).2.disk
    rw [start_place_of_moved hfind hread (hstill.of_moved hnode) hfree (hspare hbackup) hwritable]
    exact .exchanged hstill hnode hother' hbackup hold
  . rw [Action.start_bind_of_error hbackUp]
    rcases hfs with rfl | ⟨rfl, -, ⟨target, htarget⟩, -⟩
    . exact .refused
    . exact .unlinked hpoints htarget

end Staging

end BootCard
