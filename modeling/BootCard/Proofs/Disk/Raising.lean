import BootCard.Proofs.Disk.Pointing

/-!
This module contains what making a directory and those above it does, wherever links lead on the
way: nothing, or it leaves new directories above an empty one that a path leads to.
-/

namespace BootCard

namespace FileSystem

variable {fs fs' fs₁ fs₂ : FileSystem} {path x y : Pathname} {loc dir : Location} {name : Name}
variable {f : RegularFile}

/-- Whether new directories, a location or above it, are all that a file system has got. -/
structure Raised (loc : Location) (fs fs' : FileSystem) : Prop where
  here : fs'.here = fs.here
  same : ∀ l, fs'.node? l = fs.node? l ∨
    fs.node? l = none ∧ fs'.node? l = some (.dir Mode.newDirectory) ∧ l <:+ loc

namespace Raised

theorem refl (loc : Location) (fs : FileSystem) : Raised loc fs fs := ⟨rfl, fun _ => .inl rfl⟩

theorem node?_of_eq_some (h : Raised loc fs fs') {l : Location} {node : Node}
    (hnode : fs.node? l = some node) : fs'.node? l = some node := by
  rcases h.same l with heq | ⟨hnone, -⟩
  . rw [heq, hnode]
  . simp [hnone] at hnode

theorem node?_eq_none (h : Raised loc fs fs') {l : Location} (hnone : fs'.node? l = none) :
    fs.node? l = none := by
  rcases h.same l with heq | ⟨hnone', -⟩
  . rw [← heq, hnone]
  . exact hnone'

theorem routesIn (h : Raised loc fs fs') : fs.RoutesIn fs' :=
  fun _ _ hnode _ => h.node?_of_eq_some hnode

theorem find_file (h : Raised loc fs fs') {l : Location} (hfind : fs.find path = .ok (.file l f)) :
    fs'.visits path = fs.visits path ∧ fs'.find path = .ok (.file l f) :=
  find_file_of_routesIn h.routesIn h.here (h.node?_of_eq_some (mem_visits_of_find hfind).2) hfind

theorem find_dir (h : Raised loc fs fs') {p : Place} (hfind : fs.find path = .ok (.dir p)) :
    fs'.find path = .ok (.dir p) := by
  obtain ⟨hwalkable, l, hreach⟩ := find_eq_dir.mp hfind
  refine find_eq_dir.mpr ⟨hwalkable, l, ?_⟩
  unfold reach
  rw [h.here]
  exact descend_of_routesIn h.routesIn hreach

theorem put (hnone : fs.node? loc = none) :
    Raised loc fs (fs.put loc (.dir Mode.newDirectory)) where
  here := rfl
  same l := by
    rw [node?_put]
    split
    next heq => exact .inr ⟨heq ▸ hnone, rfl, heq ▸ List.suffix_rfl⟩
    next => exact .inl rfl

theorem trans (h₁ : Raised dir fs fs₁) (h₂ : Raised loc fs₁ fs₂) (habove : dir <:+ loc) :
    Raised loc fs fs₂ where
  here := h₂.here.trans h₁.here
  same l := by
    rcases h₂.same l with heq | ⟨hnone, hnew, hl⟩
    . rcases h₁.same l with heq₁ | ⟨hnone, hnew, hl⟩
      . exact .inl (heq.trans heq₁)
      . exact .inr ⟨hnone, heq.trans hnew, hl.trans habove⟩
    . exact .inr ⟨h₁.node?_eq_none hnone, hnew, hl⟩

end Raised

structure Made (x : Pathname) (fs fs' : FileSystem) : Prop where
  leads : ∃ loc, fs'.find x = .ok (.dir (.at loc)) ∧ fs'.IsBare (.at loc) ∧ Raised loc fs fs'

theorem IsBare.put (h : fs.IsBare (.at dir)) (node : Node) :
    (fs.put (name :: dir) node).IsBare (.at (name :: dir)) := by
  intro l hl
  rw [node?_put, if_neg]
  . exact h l (Place.holds_of_holds (Place.holds_cons name) hl)
  . rintro rfl
    simp [Place.not_holds_self] at hl

theorem Rooted.isBare_of_none (h : fs.Rooted) (hnone : fs.node? loc = none) : fs.IsBare (.at loc) :=
  h.isBare (h.children_eq_none (by simp [hnone]))

theorem makeDir_raises (hends : ∃ mid n, components x.bytes = mid ++ [.name n])
    (h : fs.makeDir x = .ok fs') :
    ∃ dir name, fs.Points x dir name ∧ fs.node? (name :: dir) = none ∧
      fs' = fs.put (name :: dir) (.dir Mode.newDirectory) ∧
      fs'.find x = .ok (.dir (.at (name :: dir))) := by
  obtain ⟨d, n, closed, hwalk, rfl⟩ := makeDir_eq_ok h
  obtain ⟨mid, name, hend⟩ := hends
  obtain ⟨dir, hpoints, ⟨-, hkeep⟩ | heq⟩ := exists_points hend hwalk
  . exact absurd rfl hkeep
  obtain ⟨rfl, rfl, hnone, -⟩ := Arrival.entry.inj heq
  refine ⟨d, n, hpoints, hnone.symm, rfl, ?_⟩
  have hraised := Raised.put hnone.symm
  exact (hpoints.of_routesIn hraised.routesIn hraised.here.symm).find_dir (node?_put_self _ _ _)

def MayBeMade (fs : FileSystem) (x : Pathname) : Prop :=
  x.IsWalkable → fs.isDir x = true ∨ ∃ mid n, components x.bytes = mid ++ [.name n]

theorem isWalkable_of_makeDir (hne : x.bytes ≠ [])
    (h : (∃ fs', fs.makeDir x = .ok fs') ∨ fs.makeDir x = .error (.refused .noEntry)) :
    x.IsWalkable := by
  unfold makeDir walk at h
  split at h
  next => simp [bind, Except.bind] at h
  next hzero =>
  split at h
  next => simp [bind, Except.bind] at h
  next hlength => exact ⟨by simpa using hzero, hne, by omega⟩

theorem MayBeMade.ends (hx : fs.MayBeMade x) (hne : x.bytes ≠ [])
    (h : (∃ fs', fs.makeDir x = .ok fs') ∨ fs.makeDir x = .error (.refused .noEntry)) :
    ∃ mid n, components x.bytes = mid ++ [.name n] := by
  rcases hx (isWalkable_of_makeDir hne h) with hdir | hends
  . obtain ⟨q, hq⟩ := isDir_eq_true.mp hdir
    rw [makeDir_of_find hq] at h
    simp at h
  . exact hends

theorem mayBeMade_of_isDir {card dest : Pathname} (hcard : fs.isDir card = true)
    (hdest : dest.IsDownward) (hparent : (card / dest).parent? = some x) (hy : y ∈ x.ancestors) :
    fs.MayBeMade y := by
  intro hwalkable
  obtain ⟨p, hp⟩ := isDir_eq_true.mp hcard
  obtain ⟨hcwalkable, l, hreach⟩ := find_eq_dir.mp hp
  have habove := Pathname.isAbove_of_mem_ancestors (Pathname.isAbove_of_parent? hparent) hy
    hwalkable.not_empty
  obtain ⟨tail, hparts, -⟩ := habove.parts
  have hstart : startOf y.bytes fs.here = startOf card.bytes fs.here := by
    rw [← startOf_join hcwalkable.not_empty hdest.relative]
    unfold startOf
    simp only [habove.start]
  rw [Pathname.parts_join hcwalkable.not_empty hdest.relative, List.append_eq_append_iff] at hparts
  unfold reach at hreach
  have hdir {r : Place × Nat}
      (hr : fs.descend maxLinks (startOf card.bytes fs.here) y.parts = .ok r) :
      fs.isDir y = true := by
    refine isDir_eq_true.mpr ⟨r.1, find_eq_dir.mpr ⟨hwalkable, r.2, ?_⟩⟩
    unfold reach
    rw [hstart, hr]
  rcases hparts with ⟨mid, hyparts, hdparts⟩ | ⟨rest, hcparts, -⟩
  . rcases List.eq_nil_or_concat mid with rfl | ⟨front, c, rfl⟩
    . rw [List.append_nil] at hyparts
      exact .inl (hdir (hyparts ▸ hreach))
    rw [List.concat_eq_append] at hyparts hdparts
    have hc : c ∈ dest.parts := by simp [hdparts]
    rw [habove.components_eq, hyparts, ← List.append_assoc]
    cases c with
    | name n => exact .inr ⟨_, n, rfl⟩
    | up => exact absurd hc (Pathname.no_up_parts hdest.no_up)
    | close => exact absurd rfl (Pathname.ne_close_of_mem_parts hc)
    | here =>
      -- A parent's path ends with a dot only if it is one, and then the card would have no parts.
      obtain ⟨z, hz⟩ := Pathname.exists_parent?_of_mem_ancestors hparent hy
      obtain ⟨-, hlast, -⟩ := Pathname.parts_of_parent? hz hwalkable.not_empty
      have hdot := hlast .here (by rw [hyparts, ← List.append_assoc, List.getLast?_concat]) rfl
      have hcparts : card.parts = [] := by
        have hlength := congrArg List.length hyparts
        have hone : y.parts.length = 1 := by
          unfold Pathname.parts
          rw [hdot]
          rfl
        rw [hone] at hlength
        simp only [List.length_append, List.length_cons, List.length_nil] at hlength
        exact List.eq_nil_of_length_eq_zero (by omega)
      have hslash : card.isAbsolute = true := by
        cases habs : card.isAbsolute with
        | true => rfl
        | false => exact absurd hcparts (Pathname.parts_ne_nil habs hcwalkable.not_empty)
      have hhead := habove.start
      rw [Pathname.head?_join hcwalkable.not_empty hdest.relative, hdot] at hhead
      simp [beq_iff_eq.mp hslash] at hhead
  . rw [hcparts, descend_append, except_bind_eq_ok] at hreach
    obtain ⟨r, hr, -⟩ := hreach
    exact .inl (hdir hr)

theorem Made.of_makeDir (hroot : fs.Rooted) (hends : ∃ mid n, components x.bytes = mid ++ [.name n])
    (h : fs.makeDir x = .ok fs') : Made x fs fs' := by
  obtain ⟨dir, name, -, hnone, rfl, hfind⟩ := makeDir_raises hends h
  refine ⟨name :: dir, hfind, fun l hl => ?_, .put hnone⟩
  rw [node?_put, if_neg]
  . exact hroot.isBare_of_none hnone l hl
  . rintro rfl
    simp [Place.not_holds_self] at hl

theorem Made.points {parent : Pathname} (h : Made parent fs fs₁) (hparent : x.parent? = some parent)
    (hpoints : fs₁.Points x dir name) :
    fs₁.IsBare (.at dir) ∧ Raised dir fs fs₁ := by
  obtain ⟨loc, hfind, hbare, hraised⟩ := h.leads
  have hdir := hpoints.find_parent hparent (find_eq_dir.mp hfind).1.not_empty
  rw [hfind] at hdir
  obtain rfl : loc = dir := by simpa using hdir
  exact ⟨hbare, hraised⟩

theorem Made.makeDir {parent : Pathname} (h : Made parent fs fs₁)
    (hparent : x.parent? = some parent) (hends : ∃ mid n, components x.bytes = mid ++ [.name n])
    (hmake : fs₁.makeDir x = .ok fs₂) : Made x fs fs₂ := by
  obtain ⟨dir, name, hpoints, hnone, rfl, hfind⟩ := makeDir_raises hends hmake
  obtain ⟨hbare, hraised⟩ := h.points hparent hpoints
  exact ⟨name :: dir, hfind, hbare.put _, hraised.trans (.put hnone) (List.suffix_cons _ _)⟩

theorem Made.not_isDir {parent : Pathname} (h : Made parent fs fs₁)
    (hparent : x.parent? = some parent) (hends : ∃ mid n, components x.bytes = mid ++ [.name n]) :
    fs₁.isDir x = false := by
  rw [Bool.eq_false_iff]
  intro hdir
  obtain ⟨q, hq⟩ := isDir_eq_true.mp hdir
  obtain ⟨mid, n, hend⟩ := hends
  have hfind := hq
  unfold find at hfind
  rw [except_bind_eq_ok] at hfind
  obtain ⟨a, hwalk, -⟩ := hfind
  obtain ⟨dir, hpoints, -⟩ := exists_points hend hwalk
  rw [hpoints.find_none ((h.points hparent hpoints).1 _ (Place.holds_cons n))] at hq
  simp at hq

end FileSystem

namespace Session

open FileSystem

variable {fs fs' : FileSystem} {x : Pathname} {above : List Pathname} {r : Except IoError Unit}

theorem start_makeDirsFrom_cons (hne : x.bytes ≠ []) :
    (makeDirsFrom (x :: above)).start fs =
      match fs.makeDir x with
      | .ok fs' => (.ok (), fs')
      | .error e =>
        if e = .refused .noEntry then
          match (makeDirsFrom above).start fs with
          | (.error e', fs₁) => (.error e', fs₁)
          | (.ok (), fs₁) =>
            match fs₁.makeDir x with
            | .ok fs₂ => (.ok (), fs₂)
            | .error e' => (if fs₁.isDir x then .ok () else .error e', fs₁)
        else
          (if fs.isDir x then .ok () else .error e, fs) := by
  rw [makeDirsFrom, if_neg hne, start_orElse, start_change]
  cases fs.makeDir x with
  | ok fs' => rfl
  | error e =>
    dsimp only
    split
    next =>
      rw [start_bind]
      rcases (makeDirsFrom above).start fs with ⟨r, fs₁⟩
      cases r with
      | error e' => rfl
      | ok u =>
        dsimp only
        rw [start_orElse, start_change]
        cases fs₁.makeDir x <;> rfl
    next => rfl

/--
Making a directory and those above it changes nothing, or it leaves a new and empty one that one of
their paths leads to, and that is the directory itself if nothing is refused.
-/
theorem makeDirs_cases (hroot : fs.Rooted)
    (hmay : ∀ y ∈ x.ancestors, fs.MayBeMade y)
    (h : (makeDirs x).start fs = (r, fs')) :
    fs' = fs ∨ ∃ y ∈ x.ancestors, Made y fs fs' ∧ (r = .ok () → y = x) := by
  have hmade {x : Pathname} {fs₁ : FileSystem} (hne : x.bytes ≠ []) (hmay : fs.MayBeMade x)
      (hmake : fs.makeDir x = .ok fs₁) : Made x fs fs₁ :=
    .of_makeDir hroot (hmay.ends hne (.inl ⟨_, hmake⟩)) hmake
  unfold makeDirs at h
  induction x using Pathname.ancestors.induct generalizing r fs' with
  | case1 x hnone =>
    rw [Pathname.ancestors_of_parent?_eq_none hnone] at h hmay ⊢
    by_cases hne : x.bytes = []
    . unfold makeDirsFrom at h
      rw [if_pos hne] at h
      exact .inl (Prod.mk.inj h).2.symm
    rw [start_makeDirsFrom_cons hne] at h
    split at h
    next fs₁ hmake =>
      obtain ⟨-, rfl⟩ := Prod.mk.inj h
      exact .inr ⟨x, by simp, hmade hne (hmay x (by simp)) hmake, fun _ => rfl⟩
    next e hmake =>
      left
      split at h
      next =>
        unfold makeDirsFrom at h
        exact (Prod.mk.inj h).2.symm
      next => exact (Prod.mk.inj h).2.symm
  | case2 x parent hsome ih =>
    rw [Pathname.ancestors_of_parent?_eq_some hsome] at h hmay ⊢
    have hne : x.bytes ≠ [] := by
      intro hnil
      have := Pathname.parent?_length_lt hsome
      simp [hnil] at this
    rw [start_makeDirsFrom_cons hne] at h
    split at h
    next fs₁ hmake =>
      obtain ⟨-, rfl⟩ := Prod.mk.inj h
      exact .inr ⟨x, by simp, hmade hne (hmay x (by simp)) hmake, fun _ => rfl⟩
    next e hmake =>
    split at h
    next hmissing =>
      have hend := (hmay x (by simp)).ends hne (.inr (hmissing ▸ hmake))
      rcases habove : (makeDirsFrom parent.ancestors).start fs with ⟨r₁, fs₁⟩
      have hcases := ih (fun y hy => hmay y (by simp [hy])) habove
      rw [habove] at h
      cases r₁ with
      | error e' =>
        obtain ⟨rfl, rfl⟩ := Prod.mk.inj h
        rcases hcases with heq | ⟨y, hy, hmade, -⟩
        . exact .inl heq
        . exact .inr ⟨y, by simp [hy], hmade, by simp⟩
      | ok u =>
        dsimp only at h
        split at h
        next fs₂ hmake₁ =>
          obtain ⟨-, rfl⟩ := Prod.mk.inj h
          rcases hcases with rfl | ⟨y, -, hmade, hy⟩
          . exact .inr ⟨x, by simp, .of_makeDir hroot hend hmake₁, fun _ => rfl⟩
          . obtain rfl := hy rfl
            exact .inr ⟨x, by simp, hmade.makeDir hsome hend hmake₁, fun _ => rfl⟩
        next e' hmake₁ =>
          obtain ⟨rfl, rfl⟩ := Prod.mk.inj h
          rcases hcases with rfl | ⟨y, hmem, hmade, hy⟩
          . exact .inl rfl
          . obtain rfl := hy rfl
            rw [hmade.not_isDir hsome hend]
            exact .inr ⟨y, by simp [hmem], hmade, by simp⟩
    next => exact .inl (Prod.mk.inj h).2.symm

end Session

end BootCard
