import BootCard.Proofs.Disk.Removal
import Mathlib.Data.List.Basic

/-!
This module contains what listing a directory gives: the names of its entries in the order of their
bytes, each of them once.
-/

namespace BootCard

namespace FileSystem

variable {fs : FileSystem} {order : ListingOrder} {path : Pathname} {dir : Location}

theorem names_sorted (fs : FileSystem) (dir : Location) :
    (fs.names dir).Pairwise fun a b => compare a b = .lt := by
  unfold names
  rw [List.pairwise_filterMap]
  apply Std.ExtTreeMap.ordered_keys.imp
  intro loc loc' hlt name hname name' hname'
  cases loc with
  | nil => simp at hname
  | cons n d =>
    cases loc' with
    | nil => simp at hname'
    | cons n' d' =>
      simp only [Option.ite_none_right_eq_some, Option.some.injEq] at hname hname'
      obtain ⟨rfl, rfl⟩ := hname
      obtain ⟨rfl, rfl⟩ := hname'
      -- Locations in one directory are in the order of their first names.
      rw [List.compare_eq_compareLex, List.compareLex_cons_cons] at hlt
      have hself (d : Location) : List.compareLex compare d d = .eq := by
        show compare d d = .eq
        exact Std.ReflOrd.compare_self
      rwa [hself, Ordering.then_eq] at hlt

theorem listDir_eq_ok {path : Pathname} {entries : List (Name × Node)}
    (h : fs.listDir order path = .ok entries) : ∃ q, fs.find path = .ok (.dir q) ∧
      ((∃ mode r, q = .removed mode r ∧ entries = []) ∨ ∃ dir, q = .at dir ∧
        entries = fs.entries order dir) := by
  unfold listDir at h
  rw [except_bind_eq_ok] at h
  obtain ⟨found, hread, h⟩ := h
  replace hread := openForReading_eq_ok hread
  split at h
  next => simp at h
  next mode r => exact ⟨_, hread, .inl ⟨mode, r, rfl, (Except.ok.inj h).symm⟩⟩
  next dir => exact ⟨_, hread, .inr ⟨dir, rfl, (Except.ok.inj h).symm⟩⟩

/-- Whether a path leads to a directory that there is no leave to read. -/
def IsSealed (fs : FileSystem) (path : Pathname) : Prop :=
  ∃ q, fs.find path = .ok (.dir q) ∧ ∀ mode, fs.modeOf q = .ok mode → mode.canRead = false

theorem not_isSealed_of_not_isDir (h : fs.isDir path = false) : ¬ fs.IsSealed path := by
  rintro ⟨q, hfind, -⟩
  simp [isDir, hfind] at h

theorem openForReading_of_dir {q : Place} (h : fs.find path = .ok (.dir q)) :
    fs.openForReading path =
      match fs.modeOf q with
      | .error e => .error (.refused e)
      | .ok mode => if mode.canRead then .ok (.dir q) else .error (.refused .accessDenied) := by
  unfold openForReading
  rw [h]
  cases hmode : fs.modeOf q with
  | error e =>
    show ((fs.modeOf q).mapError IoError.refused >>= fun mode => _) = _
    rw [hmode]
    rfl
  | ok mode =>
    show ((fs.modeOf q).mapError IoError.refused >>= fun mode => _) = _
    rw [hmode]
    rfl

theorem listDir_cases (order : ListingOrder) (h : fs.isDir path = true) :
    (∃ entries, fs.listDir order path = .ok entries ∧ ¬ fs.IsSealed path) ∨
      ∃ e, fs.listDir order path = .error e ∧ fs.IsSealed path := by
  obtain ⟨q, hfind⟩ := isDir_eq_true.mp h
  unfold listDir
  rw [openForReading_of_dir hfind]
  cases hmode : fs.modeOf q with
  | error e => exact .inr ⟨.refused e, rfl, q, hfind, by simp [hmode]⟩
  | ok mode =>
    dsimp only
    cases hmay : mode.canRead with
    | false => exact .inr ⟨.refused .accessDenied, rfl, q, hfind, by simp [hmode, hmay]⟩
    | true =>
      have hopen : ¬ fs.IsSealed path := by
        rintro ⟨q', hfind', hsealed⟩
        obtain rfl : q = q' := by simpa [hfind] using hfind'
        simp [hsealed mode hmode] at hmay
      rw [if_pos rfl]
      cases q with
      | removed => exact .inl ⟨_, rfl, hopen⟩
      | «at» loc => exact .inl ⟨_, rfl, hopen⟩

theorem map_fst_entries (fs : FileSystem) (order : ListingOrder) (dir : Location) :
    (fs.entries order dir).map (·.1) = order.names fs dir := by
  unfold entries
  rw [List.map_filterMap]
  have hsome : ∀ name ∈ order.names fs dir,
      ((fs.node? (name :: dir)).map (name, ·)).map (·.1) = some name := by
    intro name hname
    obtain ⟨node, hnode⟩ := Option.isSome_iff_exists.mp ((order.mem_names_iff fs dir name).mp hname)
    simp [hnode]
  exact (List.filterMap_congr hsome).trans List.filterMap_some

theorem listDir_perm (fs : FileSystem) (order order' : ListingOrder) (path : Pathname) :
    (∃ e, fs.listDir order path = .error e ∧ fs.listDir order' path = .error e) ∨
      ∃ entries entries', fs.listDir order path = .ok entries ∧
        fs.listDir order' path = .ok entries' ∧ entries.Perm entries' := by
  unfold listDir
  cases fs.openForReading path with
  | error e => exact .inl ⟨e, rfl, rfl⟩
  | ok found =>
    cases found with
    | file loc f => exact .inl ⟨_, rfl, rfl⟩
    | dir q =>
      cases q with
      | removed mode r => exact .inr ⟨_, _, rfl, rfl, .refl _⟩
      | «at» dir =>
        have hnames := (order.perm fs dir).trans (order'.perm fs dir).symm
        exact .inr ⟨_, _, rfl, rfl, hnames.filterMap _⟩

/-- Whether some names are those of the entries of the directory that a path leads to, in order. -/
structure IsListing (fs : FileSystem) (path : Pathname) (names : List Name) : Prop where
  sorted : names.Pairwise fun a b => compare a b = .lt
  mem_iff : ∀ name, name ∈ names ↔
    ∃ dir, fs.find path = .ok (.dir (.at dir)) ∧ (fs.node? (name :: dir)).isSome

theorem isListing_of_listDir {entries : List (Name × Node)}
    (h : fs.listDir .byName path = .ok entries) : fs.IsListing path (entries.map (·.1)) := by
  obtain ⟨q, hfind, ⟨mode, r, rfl, rfl⟩ | ⟨dir, rfl, rfl⟩⟩ := listDir_eq_ok h
  . exact ⟨by simp, by simp [hfind]⟩
  . rw [map_fst_entries]
    refine ⟨names_sorted fs dir, fun name => ?_⟩
    rw [ListingOrder.mem_names_iff, hfind]
    simp

theorem isListing_nil (h : fs.isDir path = false) : fs.IsListing path [] := by
  refine ⟨.nil, fun name => ?_⟩
  simp only [List.not_mem_nil, false_iff]
  rintro ⟨dir, hfind, -⟩
  simp [isDir, hfind] at h

theorem IsListing.nil_of_not_isDir {names : List Name} (h : fs.IsListing path names)
    (hdir : fs.isDir path = false) : names = [] := by
  rw [List.eq_nil_iff_forall_not_mem]
  intro name hname
  obtain ⟨dir, hfind, -⟩ := (h.mem_iff name).mp hname
  simp [isDir, hfind] at hdir

theorem IsListing.proper {names : List Name} (h : fs.IsListing path names)
    (hnames : fs.ProperNames) : ∀ name ∈ names, name.IsProper := by
  intro name hname
  obtain ⟨dir, -, hsome⟩ := (h.mem_iff name).mp hname
  exact hnames name dir hsome

theorem proper_of_mem_listDir (h : fs.ProperNames) {entries : List (Name × Node)}
    (hlisted : fs.listDir order path = .ok entries) {entry : Name × Node} (hentry : entry ∈ entries) :
    entry.1.IsProper := by
  obtain ⟨q, -, ⟨_, _, -, rfl⟩ | ⟨dir, -, rfl⟩⟩ := listDir_eq_ok hlisted
  . simp at hentry
  . apply h entry.1 dir
    rw [← order.mem_names_iff, ← map_fst_entries]
    exact List.mem_map_of_mem hentry

end FileSystem

end BootCard
