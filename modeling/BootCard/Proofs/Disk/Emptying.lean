import BootCard.Proofs.Disk.Removal
import Mathlib.Data.List.Infix
import Mathlib.Data.List.Perm.Subperm

/-!
This module contains when emptying a directory succeeds: it does if the directory and all those
beneath it may be listed, written in and passed through.
-/

namespace BootCard

def Node.isOpen : Node → Bool
  | .dir mode => mode.canRead && mode.canWrite && mode.canEnter
  | _ => true

theorem Location.nodup_tails (loc : Location) : loc.tails.Nodup := by
  induction loc with
  | nil => simp
  | cons name loc ih =>
    rw [List.tails_cons, List.nodup_cons]
    refine ⟨fun hmem => ?_, ih⟩
    exact absurd ((List.mem_tails _ _).mp hmem).length_le (by simp)

namespace FileSystem

variable {fs fs' : FileSystem} {p : Place} {dir : Location} {name : Name} {mode : Mode}
variable {depth : Nat}

/-- Whether everything may be done with a directory and with all those beneath it. -/
def IsOpen (fs : FileSystem) (dir : Location) : Prop :=
  ∀ xs mode, fs.node? (xs ++ dir) = some (.dir mode) →
    mode.canRead = true ∧ mode.canWrite = true ∧ mode.canEnter = true

theorem isOpen_iff : fs.IsOpen dir ↔
    ∀ loc ∈ fs.nodes.keys, dir <:+ loc → (fs.node? loc).all Node.isOpen = true := by
  constructor
  . rintro h _ - ⟨xs, rfl⟩
    cases hnode : fs.node? (xs ++ dir) with
    | none => rfl
    | some node =>
      cases node with
      | file f => rfl
      | link target => rfl
      | dir mode =>
        obtain ⟨hread, hwrite, henter⟩ := h xs mode hnode
        simp [Node.isOpen, hread, hwrite, henter]
  . intro h xs mode hnode
    have hopen := h _ (mem_keys_iff.mpr (by simp [hnode])) (List.suffix_append xs dir)
    simpa [hnode, Node.isOpen, and_assoc] using hopen

instance : Decidable (fs.IsOpen dir) := decidable_of_iff _ isOpen_iff.symm

def IsShallow (fs : FileSystem) (dir : Location) (depth : Nat) : Prop :=
  ∀ xs, (fs.node? (xs ++ dir)).isSome → xs.length < depth

theorem IsOpen.child (h : fs.IsOpen dir) (name : Name) : fs.IsOpen (name :: dir) := by
  intro xs mode hnode
  apply h (xs ++ [name]) mode
  rwa [List.append_assoc, List.singleton_append]

theorem IsOpen.of_shrunk (h : fs.IsOpen dir) (hshrunk : Shrunk p fs fs') : fs'.IsOpen dir :=
  fun xs mode hnode => h xs mode (hshrunk.node?_of_eq_some hnode)

theorem IsShallow.child (h : fs.IsShallow dir (depth + 1)) (name : Name) :
    fs.IsShallow (name :: dir) depth := by
  intro xs hsome
  have hlt : (xs ++ [name]).length < depth + 1 := by
    apply h
    rwa [List.append_assoc, List.singleton_append]
  simpa using hlt

theorem IsShallow.of_shrunk (h : fs.IsShallow dir depth) (hshrunk : Shrunk p fs fs') :
    fs'.IsShallow dir depth := by
  intro xs hsome
  obtain ⟨node, hnode⟩ := Option.isSome_iff_exists.mp hsome
  exact h xs (by simp [hshrunk.node?_of_eq_some hnode])

theorem IsOpen.enter_eq_ok (h : fs.IsOpen dir) (hdir : fs.node? dir = some (.dir mode)) :
    fs.enter (.at dir) = .ok () :=
  FileSystem.enter_eq_ok.mpr ⟨mode, modeOf_at_eq_ok.mpr hdir, (h [] mode hdir).2.2⟩

theorem IsOpen.writable_eq_ok (h : fs.IsOpen dir) (hdir : fs.node? dir = some (.dir mode)) :
    fs.writable dir = .ok () := by
  unfold writable
  rw [modeOf_at_eq_ok.mpr hdir]
  show (if mode.canWrite then Except.ok () else _) = _
  rw [if_pos (h [] mode hdir).2.1]

theorem Rooted.isSome_of_suffix (h : fs.Rooted) {loc above : Location}
    (hsome : (fs.node? loc).isSome) (habove : above <:+ loc) : (fs.node? above).isSome := by
  induction loc with
  | nil => rwa [List.suffix_nil.mp habove]
  | cons name loc ih =>
    rcases List.suffix_cons_iff.mp habove with rfl | habove
    . exact hsome
    . obtain ⟨mode, hmode⟩ := h name loc hsome
      exact ih (by simp [hmode]) habove

theorem Rooted.isShallow_size (h : fs.Rooted) (dir : Location) :
    fs.IsShallow dir fs.nodes.size := by
  intro xs hsome
  have hsub : (xs ++ dir).tails ⊆ fs.nodes.keys := by
    intro above habove
    exact mem_keys_iff.mpr (h.isSome_of_suffix hsome ((List.mem_tails _ _).mp habove))
  have hle := (List.subperm_of_subset (Location.nodup_tails _) hsub).length_le
  simp only [List.length_tails, List.length_append, Std.ExtTreeMap.length_keys] at hle
  omega

end FileSystem

namespace Session

open FileSystem

variable {order : ListingOrder} {fs : FileSystem} {dir : Location} {name : Name} {depth : Nat}

theorem forM_succeeds {α : Type} {I : FileSystem → Prop} {f : α → Session PUnit} {xs : List α}
    (hstep : ∀ x ∈ xs, ∀ fs, I fs → ∃ fs', (f x).start fs = (.ok ⟨⟩, fs') ∧ I fs') (hI : I fs) :
    ∃ fs', (xs.forM f).start fs = (.ok ⟨⟩, fs') := by
  induction xs generalizing fs with
  | nil => exact ⟨fs, rfl⟩
  | cons x xs ih =>
    obtain ⟨fs₁, hx, hI₁⟩ := hstep x (by simp) fs hI
    obtain ⟨fs', hxs⟩ := ih (fun y hy => hstep y (by simp [hy])) hI₁
    exact ⟨fs', forM_cons_eq_ok.mpr ⟨fs₁, hx, hxs⟩⟩

theorem emptyEntry_of_isOpen {mode : Mode} (hopen : fs.IsOpen dir)
    (hdir : fs.node? dir = some (.dir mode))
    (hempty : ∀ m, fs.node? (name :: dir) = some (.dir m) →
      ∃ fs', (emptyDir order depth (name :: dir)).start fs = (.ok (), fs')) :
    ∃ fs', (emptyEntry order depth dir name).start fs = (.ok (), fs') := by
  unfold emptyEntry
  rw [start_bind, start_ask, hopen.enter_eq_ok hdir]
  show ∃ fs', Session.start _ fs = _
  rw [start_bind, start_ask]
  dsimp only
  have herase : ∃ fs', (do
      ask (·.writable dir)
      change fun fs => .ok (fs.erase (name :: dir)) : Session Unit).start fs = (.ok (), fs') := by
    rw [start_bind, start_ask, hopen.writable_eq_ok hdir]
    exact ⟨_, rfl⟩
  cases hnode : fs.node? (name :: dir) with
  | none => exact ⟨fs, rfl⟩
  | some node =>
    cases node with
    | file f => exact herase
    | link target => exact herase
    | dir m =>
      obtain ⟨fs₁, hemptied⟩ := hempty m hnode
      have hshrunk : Shrunk (.at (name :: dir)) fs fs₁ := by
        have : Shrunk (.at (name :: dir)) fs ((emptyDir order depth (name :: dir)).start fs).2 :=
          emptyDir_shrunk
        rwa [hemptied] at this
      have hdir₁ : fs₁.node? dir = some (.dir mode) := by
        rw [hshrunk.node?_of_not_holds (Place.not_holds_tail name), hdir]
      dsimp only
      rw [((hopen.child name) [] m hnode).1]
      show ∃ fs', Session.start (_ >>= fun _ => _) fs = _
      rw [start_bind, hemptied]
      dsimp only
      rw [start_bind, start_ask, (hopen.of_shrunk hshrunk).writable_eq_ok hdir₁]
      exact ⟨_, rfl⟩

theorem emptyDir_of_isOpen {mode : Mode} (hopen : fs.IsOpen dir)
    (hdir : fs.node? dir = some (.dir mode)) (hdepth : fs.IsShallow dir depth) :
    ∃ fs', (emptyDir order depth dir).start fs = (.ok (), fs') := by
  induction depth generalizing fs dir mode with
  | zero => exact absurd (hdepth [] (by simp [hdir])) (Nat.not_lt_zero _)
  | succ depth ih =>
    rw [emptyDir_succ, start_bind, start_ask]
    dsimp only
    apply forM_succeeds (I := Shrunk (.at dir) fs) _ (.refl _ fs)
    intro name _ fs₁ hshrunk
    have hdir₁ : fs₁.node? dir = some (.dir mode) := by
      rw [hshrunk.node?_of_not_holds Place.not_holds_self, hdir]
    have hopen₁ := hopen.of_shrunk hshrunk
    have hentry : ∃ fs', (emptyEntry order depth dir name).start fs₁ = (.ok (), fs') :=
      emptyEntry_of_isOpen hopen₁ hdir₁ fun m hnode =>
        ih (hopen₁.child name) hnode ((hdepth.of_shrunk hshrunk).child name)
    obtain ⟨fs₂, hentry⟩ := hentry
    refine ⟨fs₂, hentry, hshrunk.trans ?_⟩
    have : Shrunk (.at dir) fs₁ ((emptyEntry order depth dir name).start fs₁).2 :=
      emptyEntry_shrunk fun fs => emptyDir_shrunk
    rwa [hentry] at this

end Session

end BootCard
