import BootCard.Proofs.Disk.Inside

/-!
This module contains what the changes of a file system do on a card: each changes the location that
its path tells, and files are the only entries that go or become something else.
-/

namespace BootCard

namespace FileSystem

variable {fs fs' fs₁ fs₂ : FileSystem} {path card dest dest' : Pathname}
variable {p q : Place} {loc : Location} {node : Node} {f : RegularFile}

/--
Whether a file system differs from another one only beneath a directory, where files have come,
changed or gone and directories have come.
-/
structure Filled (p : Place) (fs fs' : FileSystem) : Prop where
  here : fs'.here = fs.here
  same : ∀ loc, fs'.node? loc = fs.node? loc ∨
    p.holds loc = true ∧ (∀ node, fs.node? loc = some node → node.isFile = true) ∧
      ∀ target, fs'.node? loc ≠ some (.link target)

namespace Filled

theorem refl (p : Place) (fs : FileSystem) : Filled p fs fs := ⟨rfl, fun _ => .inl rfl⟩

theorem trans (h₁ : Filled p fs fs₁) (h₂ : Filled p fs₁ fs₂) : Filled p fs fs₂ where
  here := h₂.here.trans h₁.here
  same loc := by
    rcases h₁.same loc with heq₁ | ⟨hloc, hfile, hlink⟩
    . rw [← heq₁]
      exact h₂.same loc
    . rcases h₂.same loc with heq₂ | ⟨-, -, hlink'⟩
      . exact .inr ⟨hloc, hfile, heq₂ ▸ hlink⟩
      . exact .inr ⟨hloc, hfile, hlink'⟩

theorem put (hloc : p.holds loc = true) (hold : ∀ n, fs.node? loc = some n → n.isFile = true)
    (hnew : ∀ target, node ≠ .link target) : Filled p fs (fs.put loc node) where
  here := rfl
  same l := by
    rw [node?_put]
    split
    next heq =>
      subst heq
      exact .inr ⟨hloc, hold, by simpa using hnew⟩
    next => exact .inl rfl

theorem erase (hloc : p.holds loc = true) (hold : ∀ n, fs.node? loc = some n → n.isFile = true) :
    Filled p fs (fs.erase loc) where
  here := rfl
  same l := by
    rw [node?_erase]
    split
    next heq =>
      subst heq
      exact .inr ⟨hloc, hold, by simp⟩
    next => exact .inl rfl

theorem node?_of_not_holds (h : Filled p fs fs') (hloc : p.holds loc = false) :
    fs'.node? loc = fs.node? loc := by
  rcases h.same loc with heq | ⟨hloc', -⟩
  . exact heq
  . simp [hloc] at hloc'

theorem routesIn (h : Filled p fs fs') : fs.RoutesIn fs' := by
  intro loc node hnode hfile
  rcases h.same loc with heq | ⟨-, hold, -⟩
  . rw [heq, hnode]
  . simp [hold node hnode] at hfile

theorem hasCard (h : Filled p fs fs') (hcard : fs.HasCard card p) : fs'.HasCard card p where
  leads := by
    obtain ⟨hwalkable, l, hl⟩ := find_eq_dir.mp hcard.leads
    refine find_eq_dir.mpr ⟨hwalkable, l, ?_⟩
    unfold reach
    rw [h.here]
    exact descend_of_routesIn h.routesIn hl
  no_links loc target hloc := by
    rcases h.same loc with heq | ⟨-, -, hlink⟩
    . rw [heq]
      exact hcard.no_links loc target hloc
    . exact hlink target

theorem find_of_visits (h : Filled p fs fs') (hv : ∀ loc ∈ fs.visits path, p.holds loc = false) :
    fs'.visits path = fs.visits path ∧ ∀ loc f,
      fs'.find path = .ok (.file loc f) ↔ fs.find path = .ok (.file loc f) := by
  have hsame : ∀ loc ∈ fs.visits path, fs'.node? loc = fs.node? loc :=
    fun loc hloc => h.node?_of_not_holds (hv loc hloc)
  have hpast (p : Place) : Place.Past (fun _ _ => False) p p := .refl p
  obtain ⟨hvisits, hto⟩ := FileSystem.find_of_visits (h.here ▸ hpast fs.here)
    fun loc hloc => ⟨hsame loc hloc, fun _ => id⟩
  have hfrom : ∀ loc f, fs'.find path = .ok (.file loc f) → fs.find path = .ok (.file loc f) :=
    (FileSystem.find_of_visits (h.here ▸ hpast fs.here) fun loc hloc =>
      ⟨(hsame loc (hvisits ▸ hloc)).symm, fun _ => id⟩).2
  exact ⟨hvisits, fun loc f => ⟨hfrom loc f, hto loc f⟩⟩

end Filled

def Fills (card : Pathname) (p : Place) (fs fs' : FileSystem) : Prop :=
  fs.HasCard card p → Filled p fs fs'

instance : Std.Refl (Fills card p) := ⟨fun fs _ => .refl p fs⟩

instance : IsTrans FileSystem (Fills card p) :=
  ⟨fun _ _ _ h₁ h₂ hcard => (h₁ hcard).trans (h₂ ((h₁ hcard).hasCard hcard))⟩

/-! The changes, one by one. -/

theorem Slot.find_eq {root dir : Location} {name : Name} (h : fs.Slot card dest root dir name)
    (hnode : fs.node? (name :: dir) = some (.file f)) :
    fs.find (card / dest) = .ok (.file (name :: dir) f) := by
  refine find_eq_file.mpr ⟨dir, name, rfl, ?_⟩
  rw [h.points.walk_eq (by simp [hnode]), hnode]

namespace HasCard

variable {dir : Location} {name : Name}

theorem find_empty (h : fs.HasCard card p) (hdest : dest.bytes = [])
    (hwalkable : (card / dest).IsWalkable) : fs.find (card / dest) = .ok (.dir p) := by
  obtain ⟨-, l, hl⟩ := find_eq_dir.mp h.leads
  refine find_eq_dir.mpr ⟨hwalkable, l, ?_⟩
  have hparts : dest.parts = [] := by simp [Pathname.parts, hdest, Bytes.splitOn]
  rw [reach_join h.bytes_ne_nil (by simp [Pathname.isAbsolute, hdest]), hl, hparts]
  exact descend_nil

theorem find_file (h : fs.HasCard card p) (hdest : dest.IsInner)
    (hfind : fs.find (card / dest) = .ok (.file loc f)) :
    ∃ root dir name, p = .at root ∧ loc = name :: dir ∧ fs.Slot card dest root dir name ∧
      fs.node? loc = some (.file f) := by
  obtain ⟨dir, name, rfl, hwalk⟩ := find_eq_file.mp hfind
  obtain ⟨root, hp, -, hnode, -, hslot⟩ := h.walk_inner hdest hwalk
  exact ⟨root, dir, name, hp, rfl, hslot rfl, hnode⟩

theorem openForWriting (h : fs.HasCard card p) (hdest : dest.IsInner) {mode : Mode}
    (hopen : fs.openForWriting (card / dest) mode = .ok (loc, f)) :
    ∃ root dir name, p = .at root ∧ loc = name :: dir ∧ fs.Slot card dest root dir name ∧
      (fs.node? loc = none ∧ f = ⟨[], mode.masked, .now⟩ ∨ fs.node? loc = some (.file f)) := by
  unfold FileSystem.openForWriting at hopen
  rw [except_bind_eq_ok] at hopen
  obtain ⟨a, hwalk, hopen⟩ := hopen
  split at hopen
  next => simp at hopen
  next dir name closed =>
    obtain ⟨root, hp, -, hnode, hcreate, hslot⟩ := h.walk_inner hdest hwalk
    simp only [except_bind_eq_ok, Except.ok.injEq, Prod.mk.injEq] at hopen
    obtain ⟨-, -, rfl, rfl⟩ := hopen
    exact ⟨root, dir, name, hp, rfl, hslot (hcreate rfl), .inl ⟨hnode, rfl⟩⟩
  next dir name g closed =>
    obtain ⟨root, hp, -, hnode, hcreate, hslot⟩ := h.walk_inner hdest hwalk
    split at hopen
    . simp only [Except.ok.injEq, Prod.mk.injEq] at hopen
      obtain ⟨rfl, rfl⟩ := hopen
      exact ⟨root, dir, name, hp, rfl, hslot (hcreate rfl), .inr hnode⟩
    . simp at hopen
  next => simp at hopen
  next => simp at hopen

theorem removeFile (h : fs.HasCard card p) (hdest : dest.IsInner)
    (hremove : fs.removeFile (card / dest) = .ok fs') :
    ∃ root dir name f, p = .at root ∧ fs.Slot card dest root dir name ∧
      fs.node? (name :: dir) = some (.file f) ∧ fs.writable dir = .ok () ∧
      fs' = fs.erase (name :: dir) := by
  unfold FileSystem.removeFile at hremove
  rw [except_bind_eq_ok] at hremove
  obtain ⟨a, hwalk, hremove⟩ := hremove
  split at hremove
  next => simp at hremove
  next => simp at hremove
  next dir name node closed =>
    obtain ⟨root, rfl, hloc, hnode, -, hslot⟩ := h.walk_inner hdest hwalk
    cases closed with
    | true => simp at hremove
    | false =>
      have hholds := (hslot rfl).holds hdest
      simp only [Bool.false_eq_true, if_false, except_bind_eq_ok] at hremove
      obtain ⟨⟨⟩, hwritable, hremove⟩ := hremove
      cases node with
      | dir mode => simp [Node.isDir] at hremove
      | link target => exact absurd hnode (h.no_links _ _ hholds)
      | file f =>
        simp only [Node.isDir, Bool.false_eq_true, if_false, Except.ok.injEq] at hremove
        exact ⟨root, dir, name, f, rfl, hslot rfl, hnode, hwritable, hremove.symm⟩

theorem rename (h : fs.HasCard card p) (hdest : dest.IsInner) (hdest' : dest'.IsInner)
    (hrename : fs.rename (card / dest) (card / dest') = .ok fs') :
    ∃ root dir name dir' name' f, p = .at root ∧ fs.Slot card dest root dir name ∧
      fs.Slot card dest' root dir' name' ∧ fs.node? (name :: dir) = some (.file f) ∧
      (∀ node, fs.node? (name' :: dir') = some node → node.isFile = true) ∧
      fs' = if name' :: dir' = name :: dir then fs
        else (fs.erase (name :: dir)).put (name' :: dir') (.file f) := by
  unfold FileSystem.rename at hrename
  simp only [except_bind_eq_ok] at hrename
  obtain ⟨a, hwalk, a', hwalk', hrename⟩ := hrename
  split at hrename
  next => simp at hrename
  next => simp at hrename
  next => simp at hrename
  next dir name node closed dir' name' node'? closed' =>
    obtain ⟨root, rfl, -, hnode, -, hslot⟩ := h.walk_inner hdest hwalk
    obtain ⟨root', hroot, -, hnode', -, hslot'⟩ := h.walk_inner hdest' hwalk'
    obtain rfl := Place.at.inj hroot
    cases hdir : node.isDir with
    | true => simp [hdir] at hrename
    | false =>
    simp only [hdir, Bool.false_eq_true, if_false] at hrename
    split at hrename
    . simp at hrename
    next hopen =>
    have hopens : closed = false ∧ closed' = false := by simpa using hopen
    replace hslot := hslot hopens.1
    replace hslot' := hslot' hopens.2
    simp only [except_bind_eq_ok] at hrename
    obtain ⟨-, -, -, -, hrename⟩ := hrename
    obtain ⟨f, rfl⟩ : ∃ f, node = .file f := by
      cases node with
      | file f => exact ⟨f, rfl⟩
      | dir mode => simp [Node.isDir] at hdir
      | link target => exact absurd hnode (h.no_links _ _ (hslot.holds hdest))
    refine ⟨root, dir, name, dir', name', f, rfl, hslot, hslot', hnode, ?_, ?_⟩
    . intro n hn
      rw [hnode'] at hn
      subst hn
      cases n with
      | file f => rfl
      | dir mode => simp at hrename
      | link target => exact absurd hnode' (h.no_links _ _ (hslot'.holds hdest'))
    . split at hrename
      . simp at hrename
      . split at hrename
        next heq => simpa [heq] using hrename.symm
        next hne => simpa [hne] using hrename.symm

end HasCard

end FileSystem

end BootCard
