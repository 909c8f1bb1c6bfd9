import BootCard.Disk.Session
import BootCard.Proofs.Disk.Inside

/-!
This module contains what removing directories does. Whatever comes of it, all that changes is that
entries beneath the directory in question go. If a directory is emptied, nothing is left beneath it.
-/

namespace BootCard

namespace FileSystem

variable {fs fs' fs₁ fs₂ : FileSystem} {path card : Pathname} {p q : Place}
variable {loc dir root : Location} {name : Name}

/-- Whether a directory is held by another one and is lost when that one is emptied. -/
def IsLost (fs : FileSystem) (p : Place) (loc : Location) (mode : Mode) : Prop :=
  p.holds loc = true ∧ fs.node? loc = some (.dir mode)

/-- Whether a file system differs from another one only by entries beneath a directory that went. -/
structure Shrunk (p : Place) (fs fs' : FileSystem) : Prop where
  here : Place.Past (fs.IsLost p) fs.here fs'.here
  same : ∀ loc, fs'.node? loc = fs.node? loc ∨ p.holds loc = true ∧ fs'.node? loc = none

namespace Shrunk

theorem refl (p : Place) (fs : FileSystem) : Shrunk p fs fs :=
  ⟨.refl fs.here, fun _ => .inl rfl⟩

theorem node?_of_eq_some (h : Shrunk p fs fs') {node : Node} (hnode : fs'.node? loc = some node) :
    fs.node? loc = some node := by
  rcases h.same loc with heq | ⟨-, hnone⟩
  . rw [← heq, hnode]
  . simp [hnode] at hnone

theorem node?_of_not_holds (h : Shrunk p fs fs') (hloc : p.holds loc = false) :
    fs'.node? loc = fs.node? loc := by
  rcases h.same loc with heq | ⟨hloc', -⟩
  . exact heq
  . simp [hloc] at hloc'

theorem node?_eq_none (h : Shrunk p fs fs') (hnone : fs.node? loc = none) :
    fs'.node? loc = none := by
  rcases h.same loc with heq | ⟨-, hnone'⟩
  . rw [heq, hnone]
  . exact hnone'

theorem trans (h₁ : Shrunk p fs fs₁) (h₂ : Shrunk p fs₁ fs₂) : Shrunk p fs fs₂ where
  here := h₁.here.trans
    (h₂.here.mono fun _ _ hlost => ⟨hlost.1, h₁.node?_of_eq_some hlost.2⟩)
  same loc := by
    rcases h₂.same loc with heq | hgone
    . rw [heq]
      exact h₁.same loc
    . exact .inr hgone

theorem mono (h : Shrunk q fs fs') (hsub : ∀ loc, q.holds loc = true → p.holds loc = true) :
    Shrunk p fs fs' where
  here := h.here.mono fun loc _ hlost => ⟨hsub loc hlost.1, hlost.2⟩
  same loc := by
    rcases h.same loc with heq | ⟨hloc, hgone⟩
    . exact .inl heq
    . exact .inr ⟨hsub loc hloc, hgone⟩

theorem erase (hloc : p.holds loc = true) : Shrunk p fs (fs.erase loc) where
  here := .refl fs.here
  same l := by
    rw [node?_erase]
    split
    next heq => exact .inr ⟨heq ▸ hloc, rfl⟩
    next => exact .inl rfl

theorem eraseDir {mode : Mode} (hloc : p.holds loc = true)
    (hnode : fs.node? loc = some (.dir mode)) : Shrunk p fs (fs.eraseDir loc mode) where
  here := (Place.Past.refl fs.here).afterRemoval ⟨hloc, hnode⟩
  same l := by
    rw [node?_eraseDir]
    split
    next heq => exact .inr ⟨heq ▸ hloc, rfl⟩
    next => exact .inl rfl

theorem routesIn (h : Shrunk p fs fs') : fs'.RoutesIn fs :=
  fun _ _ hnode _ => h.node?_of_eq_some hnode

theorem reach (h : Shrunk p fs fs') {l : Nat} (hreach : fs'.reach path = .ok (q, l)) :
    ∃ q', Place.Past (fs.IsLost p) q' q ∧ fs.reach path = .ok (q', l) :=
  descend_of_past (fun _ _ hlost => hlost.2) h.routesIn (startOf_past _ h.here) hreach

end Shrunk

instance : Std.Refl (Shrunk p) := ⟨Shrunk.refl p⟩

instance : IsTrans FileSystem (Shrunk p) := ⟨fun _ _ _ => Shrunk.trans⟩

/-- Whether every entry is in a directory. -/
def Rooted (fs : FileSystem) : Prop :=
  ∀ name dir, (fs.node? (name :: dir)).isSome → ∃ mode, fs.node? dir = some (.dir mode)

/-- Whether every entry has a name that can be read as a path. -/
def ProperNames (fs : FileSystem) : Prop :=
  ∀ name dir, (fs.node? (name :: dir)).isSome → name.IsProper

/-- Whether the entries of a file system are those of a tree of directories. -/
structure IsTree (fs : FileSystem) : Prop where
  rooted : fs.Rooted
  proper : fs.ProperNames

def IsTree.check (fs : FileSystem) : Location → Bool
  | [] => true
  | name :: dir => (fs.node? dir).any Node.isDir && decide name.IsProper

theorem isTree_iff : fs.IsTree ↔ ∀ loc ∈ fs.nodes.keys, IsTree.check fs loc = true := by
  have hdir (dir : Location) :
      (∃ mode, fs.node? dir = some (.dir mode)) ↔ (fs.node? dir).any Node.isDir = true := by
    cases fs.node? dir with
    | none => simp
    | some node => cases node <;> simp [Node.isDir]
  constructor
  . intro h loc hloc
    cases loc with
    | nil => rfl
    | cons name dir =>
      have hsome := mem_keys_iff.mp hloc
      unfold IsTree.check
      simp [(hdir dir).mp (h.rooted name dir hsome), h.proper name dir hsome]
  . intro h
    have hcheck (name : Name) (dir : Location) (hsome : (fs.node? (name :: dir)).isSome) :
        (fs.node? dir).any Node.isDir = true ∧ name.IsProper := by
      simpa [IsTree.check] using h _ (mem_keys_iff.mpr hsome)
    exact ⟨fun name dir hsome => (hdir dir).mpr (hcheck name dir hsome).1,
      fun name dir hsome => (hcheck name dir hsome).2⟩

instance : Decidable fs.IsTree := decidable_of_iff _ isTree_iff.symm

theorem Shrunk.proper (h : Shrunk p fs fs') (hnames : fs.ProperNames) : fs'.ProperNames := by
  intro name dir hsome
  obtain ⟨node, hnode⟩ := Option.isSome_iff_exists.mp hsome
  exact hnames name dir (by simp [h.node?_of_eq_some hnode])

def IsBare (fs : FileSystem) (p : Place) : Prop :=
  ∀ loc, p.holds loc = true → fs.node? loc = none

theorem Rooted.isBare (h : fs.Rooted) (hnames : ∀ name, fs.node? (name :: dir) = none) :
    fs.IsBare (.at dir) := by
  have hnone : ∀ xs : Location, xs ≠ [] → fs.node? (xs ++ dir) = none := by
    intro xs hxs
    induction xs with
    | nil => exact absurd rfl hxs
    | cons x xs ih =>
      cases xs with
      | nil => exact hnames x
      | cons y ys =>
        -- What is deeper would be in a directory that is not there.
        cases hnode : fs.node? (x :: y :: ys ++ dir) with
        | none => rfl
        | some node =>
          obtain ⟨mode, hdir⟩ := h x (y :: ys ++ dir) (by
            rw [← List.cons_append, hnode]
            rfl)
          have hgone : fs.node? (y :: ys ++ dir) = none := ih (by simp)
          rw [hgone] at hdir
          simp at hdir
  intro loc hloc
  obtain ⟨xs, hxs, rfl⟩ := Place.holds_at.mp hloc
  exact hnone xs hxs

theorem Rooted.erase (h : fs.Rooted) (hempty : ∀ name, fs.node? (name :: loc) = none) :
    (fs.erase loc).Rooted := by
  intro name dir hsome
  rw [node?_erase] at hsome
  split at hsome
  next => simp at hsome
  next =>
    obtain ⟨mode, hmode⟩ := h name dir hsome
    refine ⟨mode, ?_⟩
    rw [node?_erase, if_neg]
    . exact hmode
    . rintro rfl
      simp [hempty name] at hsome

theorem Rooted.eraseDir (h : fs.Rooted) {mode : Mode}
    (hempty : ∀ name, fs.node? (name :: loc) = none) : (fs.eraseDir loc mode).Rooted := by
  intro name dir hsome
  obtain ⟨m, hm⟩ := h.erase hempty name dir hsome
  exact ⟨m, hm⟩

def KeepsRooted (fs fs' : FileSystem) : Prop := fs.Rooted → fs'.Rooted

instance : Std.Refl KeepsRooted := ⟨fun _ hroot => hroot⟩

instance : IsTrans FileSystem KeepsRooted := ⟨fun _ _ _ h₁ h₂ hroot => h₂ (h₁ hroot)⟩

theorem Rooted.children_eq_none (h : fs.Rooted) (hnode : ∀ mode, fs.node? loc ≠ some (.dir mode))
    (name : Name) : fs.node? (name :: loc) = none := by
  cases hchild : fs.node? (name :: loc) with
  | none => rfl
  | some node =>
    obtain ⟨mode, hmode⟩ := h name loc (by simp [hchild])
    exact absurd hmode (hnode mode)

end FileSystem

namespace Session

open FileSystem

variable {order : ListingOrder} {fs fs' : FileSystem} {p : Place} {dir : Location} {depth : Nat}

def emptyEntry (order : ListingOrder) (depth : Nat) (dir : Location) (name : Name) : Session Unit := do
  ask fun fs => (fs.enter (.at dir)).mapError .refused
  match ← ask fun fs => .ok (fs.node? (name :: dir)) with
  | none => pure ()
  | some (.dir mode) =>
    if !mode.canRead then throw (.refused .accessDenied)
    emptyDir order depth (name :: dir)
    ask (·.writable dir)
    change fun fs => .ok (fs.eraseDir (name :: dir) mode)
  | some _ =>
    ask (·.writable dir)
    change fun fs => .ok (fs.erase (name :: dir))

theorem emptyDir_succ : emptyDir order (depth + 1) dir = (do
    let names ← ask fun fs => .ok (order.names fs dir)
    names.forM (emptyEntry order depth dir)) := rfl

theorem emptyEntry_shrunk {name : Name}
    (hempty : ∀ fs, Shrunk (.at (name :: dir)) fs ((emptyDir order depth (name :: dir)).start fs).2) :
    Shrunk (.at dir) fs ((emptyEntry order depth dir name).start fs).2 := by
  have hholds : (Place.at dir).holds (name :: dir) = true := Place.holds_cons name
  unfold emptyEntry
  apply frame_bind
  . exact .refl _ fs
  intro _ fs₁ _
  apply frame_bind
  . exact .refl _ fs₁
  intro node? fs₂ hask
  obtain ⟨hnode, rfl⟩ := Prod.mk.inj hask
  match node?, hnode with
  | none, _ => exact .refl _ fs₁
  | some (.file f), _ =>
    apply frame_bind
    . exact .refl _ fs₁
    intro _ fs₂ _
    exact .erase hholds
  | some (.link target), _ =>
    apply frame_bind
    . exact .refl _ fs₁
    intro _ fs₂ _
    exact .erase hholds
  | some (.dir mode), hnode =>
    dsimp only
    split
    next => exact .refl _ fs₁
    next =>
    apply frame_bind
    . exact (hempty fs₁).mono fun _ hloc => Place.holds_of_holds hholds hloc
    intro _ fs₂ hemptied
    apply frame_bind
    . exact .refl _ fs₂
    intro _ fs₃ hask
    obtain ⟨-, rfl⟩ := Prod.mk.inj hask
    -- The directory itself is as it was when it was looked at.
    apply Shrunk.eraseDir hholds
    have hshrunk := hempty fs₁
    rw [hemptied] at hshrunk
    rw [hshrunk.node?_of_not_holds Place.not_holds_self]
    exact Except.ok.inj hnode

theorem emptyDir_shrunk : Shrunk (.at dir) fs ((emptyDir order depth dir).start fs).2 := by
  induction depth generalizing fs dir with
  | zero => exact .refl _ fs
  | succ depth ih =>
    rw [emptyDir_succ]
    apply frame_bind
    . exact .refl _ fs
    intro names fs₁ _
    apply frame_forM
    intro name _ fs
    exact emptyEntry_shrunk fun fs => ih

theorem emptyEntry_eq_ok {name : Name} {u : Unit}
    (hempty : ∀ fs fs', fs.Rooted → (emptyDir order depth (name :: dir)).start fs = (.ok ⟨⟩, fs') →
      fs'.Rooted ∧ fs'.IsBare (.at (name :: dir)))
    (hroot : fs.Rooted) (h : (emptyEntry order depth dir name).start fs = (.ok u, fs')) :
    fs'.Rooted ∧ fs'.node? (name :: dir) = none := by
  unfold emptyEntry at h
  rw [start_bind_eq_ok] at h
  obtain ⟨_, fs₁, hask, h⟩ := h
  obtain ⟨-, rfl⟩ := Prod.mk.inj hask
  rw [start_bind_eq_ok] at h
  obtain ⟨node?, fs₁, hask, h⟩ := h
  obtain ⟨hnode, rfl⟩ := Prod.mk.inj hask
  replace hnode := Except.ok.inj hnode
  have herase (hdir : ∀ mode, node? ≠ some (.dir mode)) (hdisk : fs' = fs.erase (name :: dir)) :
      fs'.Rooted ∧ fs'.node? (name :: dir) = none := by
    rw [hdisk]
    refine ⟨hroot.erase (hroot.children_eq_none ?_), by simp [node?_erase]⟩
    rwa [hnode]
  match node?, hnode with
  | none, hnode =>
    obtain ⟨-, rfl⟩ := Prod.mk.inj h
    exact ⟨hroot, hnode⟩
  | some (.file f), _ =>
    rw [start_bind_eq_ok] at h
    obtain ⟨_, fs₁, hask, h⟩ := h
    obtain ⟨-, rfl⟩ := Prod.mk.inj hask
    exact herase (by simp) (Except.ok.inj (start_change_eq_ok.mp h)).symm
  | some (.link target), _ =>
    rw [start_bind_eq_ok] at h
    obtain ⟨_, fs₁, hask, h⟩ := h
    obtain ⟨-, rfl⟩ := Prod.mk.inj hask
    exact herase (by simp) (Except.ok.inj (start_change_eq_ok.mp h)).symm
  | some (.dir mode), _ =>
    dsimp only at h
    split at h
    next => simp at h
    next =>
    simp only [start_bind_eq_ok, start_ask, start_change_eq_ok, Prod.mk.injEq,
      Except.ok.injEq] at h
    obtain ⟨_, fs₁, hemptied, _, _, ⟨-, rfl⟩, rfl⟩ := h
    obtain ⟨hroot₁, hbare⟩ := hempty _ _ hroot hemptied
    refine ⟨hroot₁.eraseDir fun n => hbare _ (Place.holds_cons n), ?_⟩
    simp [node?_eraseDir]

theorem emptyDir_eq_ok {u : Unit} (hroot : fs.Rooted)
    (h : (emptyDir order depth dir).start fs = (.ok u, fs')) : fs'.Rooted ∧ fs'.IsBare (.at dir) := by
  induction depth generalizing fs fs' dir with
  | zero => simp [emptyDir] at h
  | succ depth ih =>
    have hshrunk : Shrunk (.at dir) fs fs' := by
      have : Shrunk (.at dir) fs ((emptyDir order (depth + 1) dir).start fs).2 := emptyDir_shrunk
      rwa [h] at this
    rw [emptyDir_succ, start_bind_eq_ok] at h
    obtain ⟨names, fs₁, hask, h⟩ := h
    obtain ⟨hnames, rfl⟩ := Prod.mk.inj hask
    obtain rfl := Except.ok.inj hnames
    obtain ⟨hroot', hgone⟩ := forM_eq_ok (I := Rooted)
      (P := fun name fs => fs.node? (name :: dir) = none)
      (fun name _ fs fs' hroot h => emptyEntry_eq_ok (fun _ _ => ih) hroot h)
      (fun name _ n fs₁ fs₂ hnone h => by
        have : Shrunk (.at dir) fs₁ ((emptyEntry order depth dir name).start fs₁).2 :=
          emptyEntry_shrunk fun fs => emptyDir_shrunk
        rw [h] at this
        exact this.node?_eq_none hnone) h hroot
    refine ⟨hroot', hroot'.isBare fun name => ?_⟩
    cases hnode : fs.node? (name :: dir) with
    | none => exact hshrunk.node?_eq_none hnode
    | some node => exact hgone name ((order.mem_names_iff fs dir name).mpr (by simp [hnode]))

theorem emptyEntry_rooted {name : Name}
    (hempty : ∀ fs, KeepsRooted fs ((emptyDir order depth (name :: dir)).start fs).2) :
    KeepsRooted fs ((emptyEntry order depth dir name).start fs).2 := by
  unfold emptyEntry
  apply frame_bind
  . exact refl_of _ fs
  intro _ fs₁ _
  apply frame_bind
  . exact refl_of _ fs₁
  intro node? fs₂ hask
  obtain ⟨hnode, rfl⟩ := Prod.mk.inj hask
  replace hnode := Except.ok.inj hnode
  have herase (hdir : ∀ mode, node? ≠ some (.dir mode)) :
      KeepsRooted fs₁ (fs₁.erase (name :: dir)) :=
    fun hroot => hroot.erase (hroot.children_eq_none (hnode ▸ hdir))
  match node?, hnode, herase with
  | none, _, _ => exact refl_of _ fs₁
  | some (.file f), _, herase =>
    apply frame_bind
    . exact refl_of _ fs₁
    intro _ fs₂ hask
    obtain ⟨-, rfl⟩ := Prod.mk.inj hask
    exact herase (by simp)
  | some (.link target), _, herase =>
    apply frame_bind
    . exact refl_of _ fs₁
    intro _ fs₂ hask
    obtain ⟨-, rfl⟩ := Prod.mk.inj hask
    exact herase (by simp)
  | some (.dir mode), _, _ =>
    dsimp only
    split
    next => exact refl_of _ fs₁
    next =>
    intro hroot
    have hrooted := hempty fs₁ hroot
    rw [start_bind]
    rcases hemptied : (emptyDir order depth (name :: dir)).start fs₁ with ⟨r, fs₂⟩
    rw [hemptied] at hrooted
    cases r with
    | error e => exact hrooted
    | ok u =>
      obtain ⟨-, hbare⟩ := emptyDir_eq_ok hroot hemptied
      have hremove : KeepsRooted fs₂ ((do
          ask (·.writable dir)
          change fun fs => .ok (fs.eraseDir (name :: dir) mode) : Session Unit).start fs₂).2 := by
        apply frame_bind
        . exact refl_of _ fs₂
        intro _ fs₃ hask hroot₃
        obtain ⟨-, rfl⟩ := Prod.mk.inj hask
        exact hroot₃.eraseDir fun n => hbare _ (Place.holds_cons n)
      exact hremove hrooted

theorem emptyDir_rooted : KeepsRooted fs ((emptyDir order depth dir).start fs).2 := by
  induction depth generalizing fs dir with
  | zero => exact refl_of _ fs
  | succ depth ih =>
    rw [emptyDir_succ]
    apply frame_bind
    . exact refl_of _ fs
    intro names fs₁ _
    apply frame_forM
    intro name _ fs
    exact emptyEntry_rooted fun fs => ih

end Session

end BootCard
