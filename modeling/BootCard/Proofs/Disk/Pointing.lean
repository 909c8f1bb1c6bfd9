import BootCard.Disk.Layout
import BootCard.Proofs.Disk.Growth
import BootCard.Proofs.Disk.Writing

/-!
This module contains what is asked and changed at a path that leads to a name in a directory: there
is one such name and directory, wherever links lead on the way, and everything depends on the entry
there.
-/

namespace BootCard

namespace Pathname

theorem parts_of_components {path : Pathname} {mid : List Component} {n : Name}
    (hend : components path.bytes = mid ++ [.name n]) : path.parts = mid ++ [.name n] := by
  rw [components_eq] at hend
  split at hend
  next =>
    have hlast := congrArg List.getLast? hend
    simp at hlast
  next => simpa using hend

theorem exists_heres_of_parent? {path dir : Pathname} {mid : List Component} {n : Name}
    (hparent : path.parent? = some dir) (hne : dir.bytes ≠ [])
    (hend : components path.bytes = mid ++ [.name n]) :
    ∃ heres, mid = dir.parts ++ heres ∧ ∀ c ∈ heres, c = .here := by
  obtain ⟨⟨heres, c, rest, hparts, -, hheres, hrest⟩, -⟩ := parts_of_parent? hparent hne
  rw [parts_of_components hend] at hparts
  rcases List.eq_nil_or_concat rest with rfl | ⟨before, last, rfl⟩
  . rw [← List.append_assoc] at hparts
    exact ⟨heres, (List.append_inj' hparts rfl).1, hheres⟩
  . rw [List.concat_eq_append, ← List.cons_append, ← List.append_assoc,
      ← List.append_assoc] at hparts
    obtain ⟨-, hlast⟩ := List.append_inj' hparts rfl
    obtain rfl : .name n = last := by simpa using hlast
    simpa using hrest (.name n) (by simp)

end Pathname

namespace FileSystem

variable {fs fs' : FileSystem} {path path' x : Pathname} {ending : Ending} {a : Arrival}
variable {dir dir' loc : Location} {name name' : Name} {node : Node} {f : RegularFile}

theorem exists_points {mid : List Component} (hend : components path.bytes = mid ++ [.name name])
    (h : fs.walk ending path = .ok a) :
    ∃ dir, fs.Points path dir name ∧
      ((∃ target, fs.node? (name :: dir) = some (.link target)) ∧ ending ≠ .keep ∨
        a = .entry dir name (fs.node? (name :: dir)) false) := by
  obtain ⟨hwalkable, hfrom⟩ := walk_eq_ok.mp h
  have hopen : ([Component.name name].all (· == .close)) = false := rfl
  rw [hend, walkFrom_append hopen, except_bind_eq_ok] at hfrom
  obtain ⟨⟨p, l⟩, hmid, hfrom⟩ := hfrom
  rw [walkFrom_name, except_bind_eq_ok] at hfrom
  obtain ⟨⟨⟩, henter, hname⟩ := hfrom
  unfold walkName at hname
  dsimp only [List.all_nil, List.isEmpty_nil, Bool.not_true, Bool.and_false,
    Bool.false_and] at hname
  rw [if_neg (by simp), except_bind_eq_ok] at hname
  obtain ⟨⟨dir, node?⟩, hlook, hname⟩ := hname
  obtain ⟨rfl, hfits, rfl⟩ := lookup_eq_ok.mp hlook
  refine ⟨dir, ⟨hwalkable, ⟨mid, l, hend, hmid⟩, henter, hfits⟩, ?_⟩
  cases hnode : fs.node? (name :: dir) with
  | none => exact .inr (by simpa [hnode] using hname.symm)
  | some node =>
    cases node with
    | file f => exact .inr (by simpa [hnode] using hname.symm)
    | dir mode => exact .inr (by simpa [hnode] using hname.symm)
    | link target =>
      by_cases hkeep : ending = .keep
      . exact .inr (by simpa [hnode, hkeep] using hname.symm)
      . exact .inl ⟨⟨target, rfl⟩, hkeep⟩

namespace Points

theorem ends (h : fs.Points path dir name) :
    ∃ mid, components path.bytes = mid ++ [.name name] := by
  obtain ⟨mid, _, hend, -⟩ := h.descends
  exact ⟨mid, hend⟩

theorem unique (h : fs.Points path dir name) (h' : fs.Points path dir' name') :
    dir' = dir ∧ name' = name := by
  obtain ⟨mid, l, hend, hmid⟩ := h.descends
  obtain ⟨mid', l', hend', hmid'⟩ := h'.descends
  obtain ⟨rfl, heq⟩ := List.append_inj' (hend.symm.trans hend') rfl
  obtain rfl : name = name' := by simpa using heq
  rw [hmid] at hmid'
  obtain ⟨rfl, -⟩ : dir = dir' ∧ _ := by simpa using hmid'
  exact ⟨rfl, rfl⟩

theorem walk_keep (h : fs.Points path dir name) :
    fs.walk .keep path = .ok (.entry dir name (fs.node? (name :: dir)) false) := by
  obtain ⟨mid, l, hend, hmid⟩ := h.descends
  have hopen : ([Component.name name].all (· == .close)) = false := rfl
  have hlook : fs.lookup (.at dir) name = .ok (dir, fs.node? (name :: dir)) :=
    lookup_eq_ok.mpr ⟨rfl, h.fits, rfl⟩
  rw [walk_eq_ok, hend, walkFrom_append hopen, hmid]
  refine ⟨h.walkable, ?_⟩
  show fs.walkFrom .keep l (.at dir) [.name name] = _
  rw [walkFrom_name, h.enters]
  show fs.walkName .keep l (.at dir) name [] = _
  unfold walkName
  rw [hlook]
  cases hnode : fs.node? (name :: dir) with
  | none => rfl
  | some node => cases node <;> rfl

theorem find_parent {parent : Pathname} (h : fs.Points path dir name)
    (hparent : path.parent? = some parent) (hne : parent.bytes ≠ []) :
    fs.find parent = .ok (.dir (.at dir)) := by
  obtain ⟨mid, l, hend, hmid⟩ := h.descends
  obtain ⟨heres, rfl, hheres⟩ := Pathname.exists_heres_of_parent? hparent hne hend
  have hstart : startOf parent.bytes fs.here = startOf path.bytes fs.here := by
    unfold startOf
    simp only [(Pathname.isAbove_of_parent? hparent hne).start]
  refine find_eq_dir.mpr ⟨h.walkable.parent? hparent hne, l, ?_⟩
  unfold reach
  rw [hstart]
  rw [descend_append, except_bind_eq_ok] at hmid
  obtain ⟨⟨p, l'⟩, hreach, hmid⟩ := hmid
  rw [hreach]
  -- The dots that are left lead nowhere else.
  clear hreach hend
  dsimp only at hmid
  induction heres with
  | nil => rwa [descend_nil] at hmid
  | cons c heres ih =>
    obtain rfl := hheres c (by simp)
    rw [descend_here, except_bind_eq_ok] at hmid
    obtain ⟨_, -, hmid⟩ := hmid
    exact ih (fun c hc => hheres c (by simp [hc])) hmid

section Backup

theorem components_backup (h : fs.Points path dir name) :
    ∃ mid, components path.bytes = mid ++ [.name name] ∧
      components path.backup.bytes = mid ++ [.name (name ++ utf8 "~")] := by
  obtain ⟨mid, hend⟩ := h.ends
  exact ⟨mid, hend, Pathname.components_append [] (b := 0x7e) hend (by decide) (by decide)⟩

theorem backup (h : fs.Points path dir name) (hwalkable : path.backup.IsWalkable)
    (hfits : (name ++ utf8 "~").length ≤ maxNameLength) :
    fs.Points path.backup dir (name ++ utf8 "~") where
  walkable := hwalkable
  descends := by
    obtain ⟨mid, hend, hbackup⟩ := h.components_backup
    obtain ⟨mid', l, hend', hmid⟩ := h.descends
    obtain rfl := (List.append_inj' (hend.symm.trans hend') rfl).1
    refine ⟨mid, l, hbackup, ?_⟩
    rw [← hmid]
    unfold startOf Pathname.backup Pathname.append
    rw [List.head?_append, List.head?_eq_some_head h.walkable.not_empty, Option.some_or]
  enters := h.enters
  fits := hfits

theorem backup_of_walk (h : fs.Points path dir name) (hwalk : fs.walk ending path.backup = .ok a) :
    fs.Points path.backup dir (name ++ utf8 "~") := by
  obtain ⟨mid, hend, hbackup⟩ := h.components_backup
  obtain ⟨dir', hpoints, -⟩ := exists_points hbackup hwalk
  exact h.backup hpoints.walkable hpoints.fits

end Backup

theorem entryAt_eq (h : fs.Points path dir name) :
    fs.entryAt path =
      match fs.node? (name :: dir) with
      | none => .error (.refused .noEntry)
      | some node => .ok node := by
  unfold entryAt
  rw [h.walk_keep]
  cases fs.node? (name :: dir) <;> rfl

theorem find_file (h : fs.Points path dir name) (hnode : fs.node? (name :: dir) = some (.file f)) :
    fs.find path = .ok (.file (name :: dir) f) := by
  refine find_eq_file.mpr ⟨dir, name, rfl, ?_⟩
  rw [h.walk_eq (by simp [hnode]), hnode]

theorem removeFile_eq (h : fs.Points path dir name) :
    fs.removeFile path =
      (match fs.node? (name :: dir) with
      | none => .error (.refused .noEntry)
      | some node => do
        fs.writable dir
        if node.isDir then .error (.refused .isDirectory) else .ok (fs.erase (name :: dir))) := by
  unfold removeFile
  rw [h.walk_keep]
  cases fs.node? (name :: dir) <;> rfl

theorem rename_eq (h : fs.Points path dir name) (h' : fs.Points path' dir' name')
    (hnode : fs.node? (name :: dir) = some node) (hfile : node.isDir = false)
    (hnone : fs.node? (name' :: dir') = none) :
    fs.rename path path' = (do
      fs.writable dir
      fs.writable dir'
      .ok ((fs.erase (name :: dir)).put (name' :: dir') node)) := by
  have hne : name' :: dir' ≠ name :: dir := by
    intro heq
    rw [heq, hnode] at hnone
    simp at hnone
  unfold rename
  rw [h.walk_keep, h'.walk_keep, hnode, hnone]
  simp only [bind, Except.bind, hfile, Bool.or_self, Bool.false_eq_true, if_false, if_neg hne]

theorem openForWriting_eq (h : fs.Points path dir name) (hnone : fs.node? (name :: dir) = none)
    (mode : Mode) :
    fs.openForWriting path mode = (do
      fs.writable dir
      .ok (name :: dir, { data := [], mode := mode.masked, modified := .now })) := by
  unfold openForWriting
  rw [h.walk_eq (by simp [hnone]), hnone]
  rfl

theorem find_dir {mode : Mode} (h : fs.Points path dir name)
    (hnode : fs.node? (name :: dir) = some (.dir mode)) :
    fs.find path = .ok (.dir (.at (name :: dir))) := by
  unfold find
  rw [h.walk_eq (by simp [hnode]), hnode]
  rfl

theorem find_none (h : fs.Points path dir name) (hnone : fs.node? (name :: dir) = none) :
    fs.find path = .error (.refused .noEntry) := by
  unfold find
  rw [h.walk_eq (by simp [hnone]), hnone]
  rfl

end Points

theorem points_of_openForWriting {mode : Mode} (h : fs.openForWriting path mode = .ok (loc, f)) :
    ∃ dir name, fs.Points path dir name := by
  unfold openForWriting at h
  rw [except_bind_eq_ok] at h
  obtain ⟨a, hwalk, h⟩ := h
  obtain ⟨-, hfrom⟩ := walk_eq_ok.mp hwalk
  have hpoints {d : Location} {n : Name} {node? : Option Node} {closed : Bool}
      (ha : a = .entry d n node? closed) : ∃ dir name, fs.Points path dir name := by
    rw [ha] at hfrom
    obtain ⟨rfl, hfollow⟩ := (arrives_of_walkFrom hfrom).of_create
    obtain ⟨name, hlast⟩ := hfollow.getLast?_eq
    obtain ⟨mid, hend⟩ := List.getLast?_eq_some_iff.mp hlast
    obtain ⟨dir, hdir, -⟩ := exists_points hend hwalk
    exact ⟨dir, name, hdir⟩
  split at h
  next => simp at h
  next => exact hpoints rfl
  next => exact hpoints rfl
  next => simp at h
  next => simp at h

theorem exists_node_of_mem_visits {source : Pathname} (hfind : fs.find source = .ok (.file loc f))
    {l : Location} (hl : l ∈ fs.visits source) : ∃ node, fs.node? l = some node := by
  obtain ⟨dir, name, rfl, hwalk⟩ := find_eq_file.mp hfind
  rcases (arrives_of_walkFrom (walk_eq_ok.mp hwalk).2).isRoute hl with rfl | ⟨node, hnode, -⟩
  . exact ⟨_, (mem_visits_of_find hfind).2⟩
  . exact ⟨node, hnode⟩

theorem Points.not_mem_visits {source : Pathname} (h : fs.Points path dir name)
    (hfind : fs.find source = .ok (.file loc f))
    (hsource : ∀ l ∈ fs.visits source, fs.locate? path ≠ some l) :
    name :: dir ∉ fs.visits source := by
  intro hmem
  obtain ⟨node, hnode⟩ := exists_node_of_mem_visits hfind hmem
  apply hsource _ hmem
  unfold locate?
  rw [h.walk_keep, hnode]

theorem HasCard.slot_of_points {card dest : Pathname} {p : Place} (h : fs.HasCard card p)
    (hdest : dest.IsInner) (hpoints : fs.Points (card / dest) dir name) :
    ∃ root, p = .at root ∧ fs.Slot card dest root dir name := by
  obtain ⟨root, hp, -, -, -, hslot⟩ := h.walk_inner hdest hpoints.walk_keep
  exact ⟨root, hp, hslot rfl⟩

end FileSystem

end BootCard
