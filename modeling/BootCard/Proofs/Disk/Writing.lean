import BootCard.Proofs.Disk.Removal

/-!
This module contains what writing files does, wherever their paths lead. All that changes is that
files come or get other data, so every way to a directory stays as it is.
-/

namespace BootCard

variable {path : Pathname}

theorem Name.isProper_of_mem_components {name : Name} {bs : Bytes}
    (h : .name name ∈ components bs) : name.IsProper := by
  have hslash := slash_not_mem_of_name h
  have hmem : .name name ∈ (Pathname.mk bs).parts := by
    rw [Pathname.components_eq ⟨bs⟩] at h
    rcases List.mem_append.mp h with h | h
    . exact h
    . split at h <;> simp at h
  obtain ⟨piece, hpiece, hname⟩ := List.mem_map.mp hmem
  obtain rfl := Component.ofPiece_eq_name hname
  have hne : piece ≠ [] := by simpa using (List.mem_filter.mp hpiece).2
  have hsplit : Bytes.splitOn Bytes.slash piece = [] ++ [piece] :=
    Bytes.splitOn_of_not_mem hslash
  have hopen : (Pathname.mk piece).isClosed = false :=
    Pathname.not_isClosed_of_last hsplit hne
  have hparts : (Pathname.mk piece).parts = [.name piece] := by
    unfold Pathname.parts
    rw [hsplit, List.nil_append, partsOf_cons hne, hname, partsOf_nil]
  show components (Pathname.mk piece).bytes = _
  rw [Pathname.components_eq, hopen, hparts]
  rfl

namespace FileSystem

variable {fs fs' fs₁ fs₂ : FileSystem} {ending : Ending} {links : Nat} {p : Place}
variable {cs : List Component} {loc dir : Location} {name : Name} {f : RegularFile}

theorem Arrives.isProper {node? : Option Node} {closed : Bool}
    (h : fs.Arrives ending dir name node? closed links p cs)
    (hnames : ∀ n, .name n ∈ cs → n.IsProper) :
    name.IsProper ∧ ∃ mode, fs.node? dir = some (.dir mode) := by
  induction h with
  | close _ ih => exact ih (by simp_all)
  | here _ _ ih => exact ih (by simp_all)
  | up _ _ ih => exact ih (by simp_all)
  | ends henter =>
    obtain ⟨mode, hmode, -⟩ := enter_eq_ok.mp henter
    exact ⟨hnames name (by simp), mode, modeOf_at_eq_ok.mp hmode⟩
  | through _ _ _ _ ih => exact ih (by simp_all)
  | link _ _ _ _ ih =>
    apply ih
    intro n hn
    rcases List.mem_append.mp hn with hn | hn
    . exact Name.isProper_of_mem_components hn
    . exact hnames n (by simp [hn])

theorem walk_eq_entry {node? : Option Node} {closed : Bool}
    (h : fs.walk ending path = .ok (.entry dir name node? closed)) :
    name.IsProper ∧ fs.node? (name :: dir) = node? ∧ ∃ mode, fs.node? dir = some (.dir mode) := by
  have harrives := arrives_of_walkFrom (walk_eq_ok.mp h).2
  obtain ⟨hname, hdir⟩ := harrives.isProper fun _ => Name.isProper_of_mem_components
  exact ⟨hname, harrives.node?_eq, hdir⟩

theorem find_file_of_routesIn (hroutes : fs.RoutesIn fs') (hhere : fs'.here = fs.here)
    (hnode : fs'.node? loc = some (.file f)) (h : fs.find path = .ok (.file loc f)) :
    fs'.visits path = fs.visits path ∧ fs'.find path = .ok (.file loc f) := by
  have hpast : Place.Past (fun _ _ => False) fs.here fs'.here := by
    rw [hhere]
    exact .refl fs.here
  have hsame : ∀ l ∈ fs.visits path, fs'.node? l = fs.node? l ∧ ∀ mode : Mode, ¬ False := by
    obtain ⟨dir, name, rfl, hwalk⟩ := find_eq_file.mp h
    intro l hl
    refine ⟨?_, fun _ => id⟩
    rcases (arrives_of_walkFrom (walk_eq_ok.mp hwalk).2).isRoute hl with rfl | ⟨node, hl, hfile⟩
    . rw [hnode, (mem_visits_of_find h).2]
    . rw [hl, hroutes _ _ hl hfile]
  obtain ⟨hvisits, hfind⟩ := find_of_visits hpast hsame
  exact ⟨hvisits, hfind loc f h⟩

/-- Whether the file that a path leads to is also in another file system, with the same path. -/
def Keeps (path : Pathname) (fs fs' : FileSystem) : Prop :=
  ∀ loc f, fs.find path = .ok (.file loc f) → fs'.find path = .ok (.file loc f)

instance : Std.Refl (Keeps path) := ⟨fun _ _ _ => id⟩

instance : IsTrans FileSystem (Keeps path) :=
  ⟨fun _ _ _ h₁ h₂ loc f h => h₂ loc f (h₁ loc f h)⟩

/-- Whether a file system differs from another one only by files that have been written. -/
structure Written (fs fs' : FileSystem) : Prop where
  here : fs'.here = fs.here
  same : ∀ loc, fs'.node? loc = fs.node? loc ∨
    (∀ node, fs.node? loc = some node → node.isFile = true) ∧
      (∃ f, fs'.node? loc = some (.file f)) ∧
      ∃ name dir mode, loc = name :: dir ∧ name.IsProper ∧ fs.node? dir = some (.dir mode)

namespace Written

theorem refl (fs : FileSystem) : Written fs fs := ⟨rfl, fun _ => .inl rfl⟩

theorem node?_of_not_isFile (h : Written fs fs') {node : Node} (hfile : node.isFile = false) :
    fs'.node? loc = some node ↔ fs.node? loc = some node := by
  rcases h.same loc with heq | ⟨hold, ⟨f, hnew⟩, -⟩
  . rw [heq]
  . constructor
    . intro hnode
      obtain rfl : Node.file f = node := by simpa using hnew.symm.trans hnode
      simp [Node.isFile] at hfile
    . intro hnode
      simp [hold node hnode] at hfile

theorem routesIn (h : Written fs fs') : fs.RoutesIn fs' :=
  fun _ _ hnode hfile => (h.node?_of_not_isFile hfile).mpr hnode

theorem routesIn_back (h : Written fs fs') : fs'.RoutesIn fs :=
  fun _ _ hnode hfile => (h.node?_of_not_isFile hfile).mp hnode

theorem proper (h : Written fs fs') (hnames : fs.ProperNames) : fs'.ProperNames := by
  intro name dir hsome
  rcases h.same (name :: dir) with heq | ⟨-, -, _, _, mode, heq, hname, -⟩
  . exact hnames name dir (heq ▸ hsome)
  . obtain ⟨rfl, -⟩ := List.cons.inj heq
    exact hname

theorem find_eq_dir_iff (h : Written fs fs') {q : Place} :
    fs'.find path = .ok (.dir q) ↔ fs.find path = .ok (.dir q) := by
  rw [find_eq_dir, find_eq_dir]
  unfold reach
  rw [h.here]
  exact ⟨fun ⟨hw, l, hl⟩ => ⟨hw, l, descend_of_routesIn h.routesIn_back hl⟩,
    fun ⟨hw, l, hl⟩ => ⟨hw, l, descend_of_routesIn h.routesIn hl⟩⟩

theorem visits_eq (h : Written fs fs') : fs'.visits path = fs.visits path := by
  unfold visits
  rw [h.here]
  exact visitsFrom_of_routesIn h.routesIn h.routesIn_back

end Written

theorem openForWriting_eq_ok {mode : Mode} (h : fs.openForWriting path mode = .ok (loc, f)) :
    (∀ node, fs.node? loc = some node → node.isFile = true) ∧
      ∃ name dir m, loc = name :: dir ∧ name.IsProper ∧ fs.node? dir = some (.dir m) := by
  unfold openForWriting at h
  rw [except_bind_eq_ok] at h
  obtain ⟨a, hwalk, h⟩ := h
  split at h
  next => simp at h
  next dir name closed =>
    obtain ⟨hname, hnode, m, hm⟩ := walk_eq_entry hwalk
    simp only [except_bind_eq_ok, Except.ok.injEq, Prod.mk.injEq] at h
    obtain ⟨-, -, rfl, -⟩ := h
    exact ⟨by simp [hnode], name, dir, m, rfl, hname, hm⟩
  next dir name g closed =>
    obtain ⟨hname, hnode, m, hm⟩ := walk_eq_entry hwalk
    split at h
    . simp only [Except.ok.injEq, Prod.mk.injEq] at h
      obtain ⟨rfl, -⟩ := h
      exact ⟨by simp [hnode, Node.isFile], name, dir, m, rfl, hname, hm⟩
    . simp at h
  next => simp at h
  next => simp at h

theorem Arrives.of_create {node? : Option Node} {closed : Bool}
    (h : fs.Arrives .create dir name node? closed links p cs) :
    closed = false ∧ fs.Arrives .follow dir name node? closed links p cs := by
  induction h with
  | close _ ih => exact ⟨ih.1, .close ih.2⟩
  | here henter _ ih => exact ⟨ih.1, .here henter ih.2⟩
  | up henter _ ih => exact ⟨ih.1, .up henter ih.2⟩
  | ends henter hlook hall hclosed hcreate hlink =>
    refine ⟨by simp [hclosed, hcreate rfl], .ends henter hlook hall hclosed (by simp) ?_⟩
    exact fun target htarget => by simpa using hlink target htarget
  | through henter hlook hall _ ih => exact ⟨ih.1, .through henter hlook hall ih.2⟩
  | link henter hlook _ _ ih => exact ⟨ih.1, .link henter hlook (by simp) ih.2⟩

theorem Arrives.of_routesIn {node? node?' : Option Node} {closed : Bool}
    (h : fs.Arrives ending dir name node? closed links p cs)
    (hroutes : fs.RoutesIn fs') (hnode : fs'.node? (name :: dir) = node?')
    (hlink : ∀ target, node?' = some (.link target) → ending = .keep) :
    fs'.Arrives ending dir name node?' closed links p cs := by
  induction h with
  | close _ ih => exact .close ih
  | here henter _ ih => exact .here (enter_of_routesIn hroutes henter) ih
  | up henter _ ih => exact .up (enter_of_routesIn hroutes henter) ih
  | ends henter hlook hall hclosed hcreate _ =>
    obtain ⟨-, hfits, -⟩ := lookup_eq_ok.mp hlook
    exact .ends (enter_of_routesIn hroutes henter) (lookup_eq_ok.mpr ⟨rfl, hfits, hnode⟩) hall
      hclosed hcreate hlink
  | through henter hlook hall _ ih =>
    obtain ⟨-, hfits, hdir⟩ := lookup_eq_ok.mp hlook
    exact .through (enter_of_routesIn hroutes henter)
      (lookup_eq_ok.mpr ⟨rfl, hfits, hroutes _ _ hdir rfl⟩) hall ih
  | link henter hlook hall _ ih =>
    obtain ⟨-, hfits, hentry⟩ := lookup_eq_ok.mp hlook
    exact .link (enter_of_routesIn hroutes henter)
      (lookup_eq_ok.mpr ⟨rfl, hfits, hroutes _ _ hentry rfl⟩) hall ih

theorem Arrives.create {node? : Option Node}
    (h : fs.Arrives .follow dir name node? false links p cs) :
    fs.Arrives .create dir name node? false links p cs := by
  induction h with
  | close _ ih => exact .close ih
  | here henter _ ih => exact .here henter ih
  | up henter _ ih => exact .up henter ih
  | ends henter hlook hall hclosed _ hlink =>
    refine .ends henter hlook hall hclosed (fun _ => ?_) ?_
    . simpa using hclosed
    . exact fun target htarget => by simpa using hlink target htarget
  | through henter hlook hall _ ih => exact .through henter hlook hall ih
  | @link links d n target cs henter hlook _ hrest ih =>
    refine .link henter hlook (fun hall => ⟨by simp, fun _ => ?_⟩) ih
    -- What follows the link would end with a slash, and then the walk would, too.
    obtain ⟨n', hlast⟩ := hrest.getLast?_eq
    cases cs with
    | nil => rfl
    | cons c cs =>
      have hsome := List.getLast?_eq_some_getLast (List.cons_ne_nil c cs)
      rw [List.getLast?_append, hsome, Option.some_or, Option.some.injEq] at hlast
      have hclose := List.all_eq_true.mp hall _ (List.getLast_mem (List.cons_ne_nil c cs))
      rw [hlast] at hclose
      simp at hclose

theorem find_of_openForWriting {mode : Mode} {g : RegularFile}
    (h : fs.openForWriting path mode = .ok (loc, f)) (hnode : fs.node? loc = some (.file g)) :
    fs.find path = .ok (.file loc g) := by
  unfold openForWriting at h
  rw [except_bind_eq_ok] at h
  obtain ⟨a, hwalk, h⟩ := h
  obtain ⟨hwalkable, hfrom⟩ := walk_eq_ok.mp hwalk
  split at h
  next => simp at h
  next dir name closed =>
    simp only [except_bind_eq_ok, Except.ok.injEq, Prod.mk.injEq] at h
    obtain ⟨-, -, rfl, -⟩ := h
    simp [(walk_eq_entry hwalk).2.1] at hnode
  next dir name g' closed =>
    obtain ⟨rfl, hfollow⟩ := (arrives_of_walkFrom hfrom).of_create
    split at h
    . simp only [Except.ok.injEq, Prod.mk.injEq] at h
      obtain ⟨rfl, -⟩ := h
      obtain rfl : g' = g := by simpa [(walk_eq_entry hwalk).2.1] using hnode
      exact find_eq_file.mpr ⟨dir, name, rfl, walk_eq_ok.mpr ⟨hwalkable, hfollow.walkFrom_eq⟩⟩
    . simp at h
  next => simp at h
  next => simp at h

theorem store_written {mode : Mode} {data : Bytes}
    (h : fs.openForWriting path mode = .ok (loc, f)) : Written fs (fs.store loc f data) where
  here := rfl
  same l := by
    obtain ⟨hold, habove⟩ := openForWriting_eq_ok h
    unfold store
    rw [node?_put]
    split
    next heq =>
      subst heq
      exact .inr ⟨hold, ⟨_, rfl⟩, habove⟩
    next => exact .inl rfl

theorem writeFile_written {data : Bytes} (h : fs.writeFile path data = .ok fs') :
    Written fs fs' := by
  unfold writeFile at h
  rw [except_bind_eq_ok] at h
  obtain ⟨⟨loc, f⟩, hopen, h⟩ := h
  obtain rfl := Except.ok.inj h
  exact store_written hopen

theorem writeFile_keeps {file : Pathname} {data : Bytes}
    (hother : ∀ loc f g, fs.find path = .ok (.file loc f) → fs.find file ≠ .ok (.file loc g))
    (h : fs.writeFile file data = .ok fs') : Keeps path fs fs' := by
  intro l g hfind
  have hwritten := writeFile_written h
  have hnode := (mem_visits_of_find hfind).2
  refine (find_file_of_routesIn hwritten.routesIn hwritten.here ?_ hfind).2
  unfold writeFile at h
  rw [except_bind_eq_ok] at h
  obtain ⟨⟨loc, f⟩, hopen, h⟩ := h
  obtain rfl := Except.ok.inj h
  unfold store
  rw [node?_put, if_neg]
  . exact hnode
  . rintro rfl
    exact hother _ _ _ hfind (find_of_openForWriting hopen hnode)

theorem put_of_node? {node : Node} (h : fs.node? loc = some node) : fs.put loc node = fs := by
  apply ext_node?
  . intro l
    rw [node?_put]
    split
    next heq => rw [heq, h]
    next => rfl
  . rfl

theorem find_put_of_openForWriting {mode : Mode} {g : RegularFile}
    (h : fs.openForWriting path mode = .ok (loc, f)) :
    (fs.put loc (.file g)).find path = .ok (.file loc g) := by
  have hroutes : fs.RoutesIn (fs.put loc (.file g)) := by
    intro l node hnode hfile
    rw [node?_put, if_neg]
    . exact hnode
    . rintro rfl
      simp [(openForWriting_eq_ok h).1 node hnode] at hfile
  unfold openForWriting at h
  rw [except_bind_eq_ok] at h
  obtain ⟨a, hwalk, h⟩ := h
  obtain ⟨hwalkable, hfrom⟩ := walk_eq_ok.mp hwalk
  have hfind {dir : Location} {name : Name} {node? : Option Node} {closed : Bool}
      (hloc : loc = name :: dir) (ha : a = .entry dir name node? closed) :
      (fs.put loc (.file g)).find path = .ok (.file loc g) := by
    rw [ha] at hfrom
    obtain ⟨rfl, hfollow⟩ := (arrives_of_walkFrom hfrom).of_create
    have hnode : (fs.put loc (.file g)).node? (name :: dir) = some (.file g) := by
      rw [hloc, node?_put_self]
    refine find_eq_file.mpr ⟨dir, name, hloc, walk_eq_ok.mpr ⟨hwalkable, ?_⟩⟩
    exact (hfollow.of_routesIn hroutes hnode (by simp)).walkFrom_eq
  split at h
  next => simp at h
  next dir name closed =>
    simp only [except_bind_eq_ok, Except.ok.injEq, Prod.mk.injEq] at h
    obtain ⟨-, -, hloc, -⟩ := h
    exact hfind hloc.symm rfl
  next dir name g closed =>
    split at h
    . simp only [Except.ok.injEq, Prod.mk.injEq] at h
      exact hfind h.1.symm rfl
    . simp at h
  next => simp at h
  next => simp at h

theorem canWrite_of_openForWriting (h : fs.openForWriting path defaultMode = .ok (loc, f)) :
    f.mode.canWrite = true := by
  unfold openForWriting at h
  rw [except_bind_eq_ok] at h
  obtain ⟨a, -, h⟩ := h
  split at h
  next => simp at h
  next =>
    simp only [except_bind_eq_ok, Except.ok.injEq, Prod.mk.injEq] at h
    obtain ⟨-, -, -, rfl⟩ := h
    decide
  next =>
    split at h
    next hwrite =>
      obtain ⟨-, rfl⟩ := Prod.mk.inj (Except.ok.inj h)
      exact hwrite
    next => simp at h
  next => simp at h
  next => simp at h

theorem writeFile_eq_ok {data : Bytes} (h : fs.writeFile path data = .ok fs') :
    ∃ loc mode, mode.canWrite = true ∧ fs'.find path = .ok (.file loc ⟨data, mode, .now⟩) := by
  unfold writeFile at h
  rw [except_bind_eq_ok] at h
  obtain ⟨⟨loc, f⟩, hopen, h⟩ := h
  obtain rfl := Except.ok.inj h
  exact ⟨loc, f.mode, canWrite_of_openForWriting hopen, find_put_of_openForWriting hopen⟩

theorem mem_visits_of_openForWriting {mode : Mode} (h : fs.openForWriting path mode = .ok (loc, f)) :
    loc ∈ fs.visits path := by
  unfold openForWriting at h
  rw [except_bind_eq_ok] at h
  obtain ⟨a, hwalk, h⟩ := h
  have hfrom := (walk_eq_ok.mp hwalk).2
  split at h
  next => simp at h
  next =>
    simp only [except_bind_eq_ok, Except.ok.injEq, Prod.mk.injEq] at h
    obtain ⟨-, -, rfl, -⟩ := h
    exact (arrives_of_walkFrom hfrom).mem_visitsFrom
  next =>
    split at h
    . obtain ⟨rfl, -⟩ := Prod.mk.inj (Except.ok.inj h)
      exact (arrives_of_walkFrom hfrom).mem_visitsFrom
    . simp at h
  next => simp at h
  next => simp at h

theorem openForWriting_of_missing {mode : Mode} {r : Location × RegularFile}
    (h : fs.openForWriting path mode = .ok r) (hnone : ∀ found, fs.find path ≠ .ok found) :
    ∃ loc, fs.node? loc = none ∧
      ∀ mode', fs.openForWriting path mode' = .ok (loc, ⟨[], mode'.masked, .now⟩) := by
  obtain ⟨loc, f⟩ := r
  have hempty : fs.node? loc = none := by
    cases hnode : fs.node? loc with
    | none => rfl
    | some node =>
      cases node with
      | file g => exact absurd (find_of_openForWriting h hnode) (hnone _)
      | dir m => simpa [Node.isFile] using (openForWriting_eq_ok h).1 _ hnode
      | link target => simpa [Node.isFile] using (openForWriting_eq_ok h).1 _ hnode
  refine ⟨loc, hempty, fun mode' => ?_⟩
  unfold openForWriting at h ⊢
  rw [except_bind_eq_ok] at h
  obtain ⟨a, hwalk, h⟩ := h
  rw [hwalk]
  split at h
  next => simp at h
  next =>
    simp only [except_bind_eq_ok, Except.ok.injEq, Prod.mk.injEq] at h
    obtain ⟨u, hwritable, rfl, -⟩ := h
    show (fs.writable _ >>= fun _ => _) = _
    rw [hwritable]
    rfl
  next =>
    split at h
    . obtain ⟨rfl, -⟩ := Prod.mk.inj (Except.ok.inj h)
      simp [(walk_eq_entry hwalk).2.1] at hempty
    . simp at h
  next => simp at h
  next => simp at h

theorem writeFile_of_find {data : Bytes} {mode : Mode} (hwrite : mode.canWrite = true)
    (h : fs.find path = .ok (.file loc ⟨data, mode, .now⟩)) : fs.writeFile path data = .ok fs := by
  obtain ⟨dir, name, rfl, hwalk⟩ := find_eq_file.mp h
  obtain ⟨hwalkable, hfrom⟩ := walk_eq_ok.mp hwalk
  have hcreate : fs.walk .create path = .ok (.entry dir name (some (.file ⟨data, mode, .now⟩)) false) :=
    walk_eq_ok.mpr ⟨hwalkable, (arrives_of_walkFrom hfrom).create.walkFrom_eq⟩
  have hopen : fs.openForWriting path defaultMode = .ok (name :: dir, ⟨data, mode, .now⟩) := by
    unfold openForWriting
    rw [hcreate]
    exact if_pos hwrite
  unfold writeFile
  rw [hopen]
  show Except.ok (fs.put (name :: dir) (.file ⟨data, mode, .now⟩)) = _
  rw [put_of_node? (mem_visits_of_find h).2]

end FileSystem

end BootCard
