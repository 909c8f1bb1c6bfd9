import BootCard.Proofs.Disk.Filling

/-!
This module contains what making a directory and those above it does on a card: new directories come
above the destination that they are made for, and nothing else happens.
-/

namespace BootCard

namespace Component

theorem names_ne_nil {cs : List Component} {c : Component} (hc : c ∈ cs) (hhere : c ≠ .here)
    (hup : c ≠ .up) (hclose : c ≠ .close) : names cs ≠ [] := by
  cases c with
  | here => exact absurd rfl hhere
  | up => exact absurd rfl hup
  | close => exact absurd rfl hclose
  | name n =>
    apply List.ne_nil_of_mem (a := n)
    unfold names
    exact List.mem_filterMap.mpr ⟨_, hc, rfl⟩

end Component

namespace Pathname

theorem names_components (path : Pathname) :
    Component.names (components path.bytes) = Component.names path.parts := by
  rw [components_eq]
  split <;> simp

theorem no_up_parts {path : Pathname} (h : .up ∉ components path.bytes) : .up ∉ path.parts := by
  rw [components_eq] at h
  exact fun hmem => h (List.mem_append_left _ hmem)

end Pathname

namespace FileSystem

variable {fs fs' fs₁ fs₂ : FileSystem} {card dest x : Pathname} {p : Place} {rel : Location}

/-- Whether new directories above a destination are all that a file system has got. -/
structure Grown (p : Place) (rel : Location) (fs fs' : FileSystem) : Prop where
  here : fs'.here = fs.here
  same : ∀ loc, fs'.node? loc = fs.node? loc ∨
    fs.node? loc = none ∧ fs'.node? loc = some (.dir Mode.newDirectory) ∧
      ∃ root, p = .at root ∧ (Place.at root).holds loc = true ∧
        (Place.at loc).holds (rel ++ root) = true

namespace Grown

theorem refl (p : Place) (rel : Location) (fs : FileSystem) : Grown p rel fs fs :=
  ⟨rfl, fun _ => .inl rfl⟩

theorem trans (h₁ : Grown p rel fs fs₁) (h₂ : Grown p rel fs₁ fs₂) : Grown p rel fs fs₂ where
  here := h₂.here.trans h₁.here
  same loc := by
    rcases h₁.same loc with heq₁ | ⟨hnone, hdir, hloc⟩
    . rw [← heq₁]
      exact h₂.same loc
    . rcases h₂.same loc with heq₂ | ⟨hnone', -, -⟩
      . exact .inr ⟨hnone, heq₂.trans hdir, hloc⟩
      . simp [hdir] at hnone'

theorem filled (h : Grown p rel fs fs') : Filled p fs fs' where
  here := h.here
  same loc := by
    rcases h.same loc with heq | ⟨hnone, hdir, root, rfl, hloc, -⟩
    . exact .inl heq
    . exact .inr ⟨hloc, by simp [hnone], by simp [hdir]⟩

end Grown

def Grows (card : Pathname) (p : Place) (rel : Location) (fs fs' : FileSystem) : Prop :=
  fs.HasCard card p → Grown p rel fs fs'

instance : Std.Refl (Grows card p rel) := ⟨fun fs _ => .refl p rel fs⟩

instance : IsTrans FileSystem (Grows card p rel) :=
  ⟨fun _ _ _ h₁ h₂ hcard => (h₁ hcard).trans (h₂ ((h₁ hcard).filled.hasCard hcard))⟩

theorem makeDir_eq_ok (h : fs.makeDir x = .ok fs') :
    ∃ dir name closed, fs.walk .keep x = .ok (.entry dir name none closed) ∧
      fs' = fs.put (name :: dir) (.dir Mode.newDirectory) := by
  unfold makeDir at h
  rw [except_bind_eq_ok] at h
  obtain ⟨a, hwalk, h⟩ := h
  split at h
  next => simp at h
  next => simp at h
  next dir name closed =>
    simp only [except_bind_eq_ok, Except.ok.injEq] at h
    obtain ⟨-, -, h⟩ := h
    exact ⟨dir, name, closed, hwalk, h.symm⟩

theorem makeDir_of_find (h : fs.find path = .ok (.dir q)) :
    fs.makeDir path = .error (.refused .exists) := by
  obtain ⟨hwalkable, l, hreach⟩ := find_eq_dir.mp h
  unfold reach at hreach
  rw [← descend_components] at hreach
  have hkeep : Ending.keep ≠ .create := by simp
  obtain ⟨a, ha⟩ := exists_walkFrom hkeep hreach
  unfold makeDir
  rw [walk_eq_ok.mpr ⟨hwalkable, ha⟩]
  match a, ha with
  | .place _, _ => rfl
  | .entry _ _ (some _) _, _ => rfl
  | .entry _ _ none _, ha => exact absurd ha (walkFrom_ne_none hreach)

theorem exists_find_parent {path dir : Pathname} {loc : Location} {f : RegularFile}
    (h : fs.find path = .ok (.file loc f))
    (hparent : path.parent? = some dir) (hne : dir.bytes ≠ []) :
    ∃ q, fs.find dir = .ok (.dir q) := by
  obtain ⟨_, _, -, hwalk⟩ := find_eq_file.mp h
  obtain ⟨hwalkable, hfrom⟩ := walk_eq_ok.mp hwalk
  have habove := Pathname.isAbove_of_parent? hparent hne
  obtain ⟨tail, hparts, c, hc, -⟩ := habove.parts
  have hopen : (tail ++ if path.isClosed then [Component.close] else []).all (· == .close) = false := by
    have hclose : c ≠ .close := Pathname.ne_close_of_mem_parts (p := path) (by simp [hparts, hc])
    rw [List.all_eq_false]
    exact ⟨c, by simp [hc], by simpa using hclose⟩
  rw [Pathname.components_eq, hparts, List.append_assoc, walkFrom_append hopen,
    except_bind_eq_ok] at hfrom
  obtain ⟨r, hr, -⟩ := hfrom
  refine ⟨r.1, find_eq_dir.mpr ⟨hwalkable.parent? hparent hne, r.2, ?_⟩⟩
  unfold reach startOf
  simp only [habove.start]
  exact hr

namespace HasCard

theorem makeDir (h : fs.HasCard card p) (hdest : dest.IsDownward) (hx : x.IsAbove (card / dest))
    (hmake : fs.makeDir x = .ok fs') : Grown p (Location.ofPath dest) fs fs' := by
  obtain ⟨dir, name, closed, hwalk, rfl⟩ := makeDir_eq_ok hmake
  obtain ⟨hwalkable, hfrom⟩ := walk_eq_ok.mp hwalk
  obtain ⟨tail, hparts, c, hc, hhere⟩ := hx.parts
  obtain ⟨-, l, hreach⟩ := find_eq_dir.mp h.leads
  have hstart : startOf x.bytes fs.here = startOf card.bytes fs.here := by
    rw [← startOf_join h.bytes_ne_nil hdest.relative]
    unfold startOf
    simp only [hx.start]
  rw [hx.components_eq, hstart] at hfrom
  unfold reach at hreach
  rw [Pathname.parts_join h.bytes_ne_nil hdest.relative, List.append_eq_append_iff] at hparts
  rcases hparts with ⟨mid, hxparts, hdparts⟩ | ⟨rest, hcparts, -⟩
  . -- The path is that of a directory beneath the card, or that of the card itself.
    have hup := Pathname.no_up_parts hdest.no_up
    rw [hdparts, List.mem_append, not_or] at hup
    have htail : Component.names tail ≠ [] :=
      Component.names_ne_nil hc hhere (fun heq => hup.2 (heq ▸ hc))
        (Pathname.ne_close_of_mem_parts (p := dest) (by simp [hdparts, hc]))
    rw [hxparts] at hfrom
    by_cases hmid : mid = []
    . rw [hmid, List.append_nil] at hfrom
      exact absurd hfrom (walkFrom_ne_none hreach)
    have hopen : mid.all (· == .close) = false := by
      obtain ⟨c', hc'⟩ := List.exists_mem_of_ne_nil mid hmid
      rw [List.all_eq_false]
      refine ⟨c', hc', ?_⟩
      simpa using Pathname.ne_close_of_mem_parts (p := dest) (c := c') (by simp [hdparts, hc'])
    rw [walkFrom_append hopen, hreach] at hfrom
    obtain ⟨hr, hnode, -, -⟩ := walkFrom_inner hup.1 h.no_links hfrom
    obtain ⟨root, rfl, hloc⟩ := hr.downward
    have hnames : Component.names mid ≠ [] := by
      obtain ⟨front, ⟨closes, rfl, -⟩, -⟩ := hr.descends
      simp
    refine ⟨rfl, fun l => ?_⟩
    rw [node?_put]
    split
    next heq =>
      subst heq
      refine .inr ⟨hnode, rfl, root, rfl, ?_, ?_⟩
      . rw [hloc]
        exact Place.holds_append (by simpa using hnames)
      . rw [Location.ofPath_eq hdest.no_up, Pathname.names_components, hdparts,
          Component.names_append, List.reverse_append, List.append_assoc, ← hloc]
        exact Place.holds_append (by simpa using htail)
    next => exact .inl rfl
  . -- The path leads to a directory above the card, which is there.
    rw [hcparts, descend_append, except_bind_eq_ok] at hreach
    obtain ⟨r, hr, -⟩ := hreach
    exact absurd hfrom (walkFrom_ne_none hr)

end HasCard

end FileSystem

namespace Session

open FileSystem

variable {fs : FileSystem} {card dest path : Pathname} {p : Place}

theorem frame_makeDirsFrom {R : FileSystem → FileSystem → Prop} [Std.Refl R]
    [IsTrans FileSystem R] {paths : List Pathname}
    (h : ∀ x ∈ paths, x.bytes ≠ [] → ∀ fs fs', fs.makeDir x = .ok fs' → R fs fs') :
    R fs ((makeDirsFrom paths).start fs).2 := by
  induction paths generalizing fs with
  | nil => exact refl_of R fs
  | cons x above ih =>
    unfold makeDirsFrom
    split
    next => exact refl_of R fs
    next hne =>
    have hmake (fs : FileSystem) : R fs ((change (·.makeDir x)).start fs).2 :=
      frame_change fun fs' hmake => h x (by simp) hne fs fs' hmake
    apply frame_orElse (hmake fs)
    intro e fs₁ _
    split
    . apply frame_bind
      . exact ih fun y hy => h y (by simp [hy])
      . intro _ fs₂ _
        apply frame_orElse (hmake fs₂)
        intro e fs₃ _
        exact refl_of R fs₃
    . exact refl_of R fs₁

theorem makeDirs_grows (hdest : dest.IsDownward) {dir : Pathname}
    (hparent : (card / dest).parent? = some dir) :
    Grows card p (Location.ofPath dest) fs ((makeDirs dir).start fs).2 := by
  apply frame_makeDirsFrom
  intro x hx hne fs fs' hmake hcard
  exact hcard.makeDir hdest
    (Pathname.isAbove_of_mem_ancestors (Pathname.isAbove_of_parent? hparent) hx hne) hmake

theorem makeDirs_of_find (h : fs.find path = .ok (.dir q)) :
    (makeDirs path).start fs = (.ok (), fs) := by
  obtain ⟨above, habove⟩ : ∃ above, path.ancestors = path :: above := by
    rw [Pathname.ancestors]
    split <;> exact ⟨_, rfl⟩
  unfold makeDirs
  rw [habove]
  unfold makeDirsFrom
  rw [if_neg (find_eq_dir.mp h).1.not_empty, start_orElse, start_change, makeDir_of_find h]
  show (unlessDir path _).start fs = _
  unfold unlessDir
  rw [start_ask, isDir_eq_true.mpr ⟨q, h⟩]
  rfl

end Session

end BootCard
