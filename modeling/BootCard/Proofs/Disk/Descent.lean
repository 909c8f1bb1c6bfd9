import BootCard.Disk.Query
import BootCard.Proofs.Pathname.Components
import BootCard.Proofs.Sequencing

/-!
This module contains the theory of walks in two parts: a descent, which leads to a directory, and
what the walk does from there. A path that follows another one is walked by walking on from where
the other one leads.
-/

namespace BootCard

structure Pathname.IsWalkable (path : Pathname) : Prop where
  no_zero : 0 ∉ path.bytes
  not_empty : path.bytes ≠ []
  length_lt : path.bytes.length < pathLengthLimit

theorem Pathname.IsWalkable.parent? {path dir : Pathname} (h : path.IsWalkable)
    (hparent : path.parent? = some dir) (hne : dir.bytes ≠ []) : dir.IsWalkable where
  no_zero hzero := h.no_zero ((Pathname.parent?_isPrefix hparent).subset hzero)
  not_empty := hne
  length_lt := Nat.lt_trans (Pathname.parent?_length_lt hparent) h.length_lt

namespace FileSystem

/-- Walks to a directory, and gives how many links may still be followed then. -/
def descendWith (fs : FileSystem) (links : Nat)
    (onLink : Place → List Component → Except Errno (Place × Nat)) :
    Place → List Component → Except Errno (Place × Nat)
  | p, [] => .ok (p, links)
  | p, .close :: rest => descendWith fs links onLink p rest
  | p, .here :: rest => do
    fs.enter p
    descendWith fs links onLink p rest
  | p, .up :: rest => do
    fs.enter p
    descendWith fs links onLink p.parent rest
  | p, .name name :: rest => do
    fs.enter p
    let (dir, node?) ← fs.lookup p name
    match node? with
    | none => .error .noEntry
    | some (.file _) => .error .notDirectory
    | some (.dir _) => descendWith fs links onLink (.at (name :: dir)) rest
    | some (.link target) => onLink (startOf target (.at dir)) (components target ++ rest)

def descend (fs : FileSystem) : Nat → Place → List Component → Except Errno (Place × Nat)
  | 0 => fs.descendWith 0 fun _ _ => .error .tooManyLinks
  | links + 1 => fs.descendWith (links + 1) (fs.descend links)

variable {fs fs' : FileSystem} {path : Pathname} {ending : Ending} {links : Nat}
variable {p q : Place} {cs ds : List Component}

theorem walk_of_isWalkable (h : path.IsWalkable) :
    fs.walk ending path =
      (fs.walkFrom ending maxLinks (startOf path.bytes fs.here)
        (components path.bytes)).mapError .refused := by
  have hzero : path.bytes.contains 0 = false := by simpa using h.no_zero
  unfold walk
  rw [if_neg (by simpa using hzero), if_neg h.not_empty, if_neg (by have := h.length_lt; omega)]

theorem isWalkable_of_walk {a : Arrival} (h : fs.walk ending path = .ok a) : path.IsWalkable := by
  unfold walk at h
  split at h
  . simp at h
  next hzero =>
    split at h
    . simp at h
    next hne =>
      split at h
      . simp at h
      next hlen => exact ⟨by simpa using hzero, hne, by omega⟩

theorem walk_eq_ok {a : Arrival} :
    fs.walk ending path = .ok a ↔ path.IsWalkable ∧
      fs.walkFrom ending maxLinks (startOf path.bytes fs.here) (components path.bytes) = .ok a := by
  constructor
  . intro h
    have hw := isWalkable_of_walk h
    rw [walk_of_isWalkable hw, except_mapError_eq_ok] at h
    exact ⟨hw, h⟩
  . rintro ⟨hw, h⟩
    rw [walk_of_isWalkable hw, h]
    rfl

theorem lookup_eq_ok {dir : Location} {name : Name} {node? : Option Node} :
    fs.lookup p name = .ok (dir, node?) ↔
      p = .at dir ∧ name.length ≤ maxNameLength ∧ fs.node? (name :: dir) = node? := by
  unfold lookup
  split
  next => simp
  next loc =>
    split
    next h =>
      simp only [reduceCtorEq, Place.at.injEq, false_iff, not_and]
      omega
    next h =>
      simp only [Except.ok.injEq, Prod.mk.injEq, Place.at.injEq]
      constructor
      . rintro ⟨rfl, rfl⟩
        exact ⟨rfl, by omega, rfl⟩
      . rintro ⟨rfl, -, rfl⟩
        exact ⟨rfl, rfl⟩

theorem enter_eq_ok {u : Unit} :
    fs.enter p = .ok u ↔ ∃ mode, fs.modeOf p = .ok mode ∧ mode.canEnter = true := by
  unfold enter
  rw [except_bind_eq_ok]
  constructor
  . rintro ⟨mode, hmode, h⟩
    split at h
    . exact ⟨mode, hmode, by assumption⟩
    . simp at h
  . rintro ⟨mode, hmode, h⟩
    exact ⟨mode, hmode, by simp [h]⟩

theorem modeOf_at_eq_ok {dir : Location} {mode : Mode} :
    fs.modeOf (.at dir) = .ok mode ↔ fs.node? dir = some (.dir mode) := by
  unfold modeOf
  dsimp
  split
  next h => simp [h]
  next h =>
    simp only [reduceCtorEq, false_iff]
    intro heq
    exact h _ heq

/-! The walk and the descent, component by component. -/

def walkLink (fs : FileSystem) (ending : Ending) : Nat → Place → List Component →
    Except Errno Arrival
  | 0, _, _ => .error .tooManyLinks
  | links + 1, p, cs => fs.walkFrom ending links p cs

def descendLink (fs : FileSystem) : Nat → Place → List Component → Except Errno (Place × Nat)
  | 0, _, _ => .error .tooManyLinks
  | links + 1, p, cs => fs.descend links p cs

@[simp]
theorem walkFrom_nil : fs.walkFrom ending links p [] = .ok (.place p) := by
  cases links <;> rfl

@[simp]
theorem walkFrom_close : fs.walkFrom ending links p (.close :: cs) = fs.walkFrom ending links p cs := by
  cases links <;> rfl

@[simp]
theorem walkFrom_here : fs.walkFrom ending links p (.here :: cs) =
    (fs.enter p >>= fun _ => fs.walkFrom ending links p cs) := by
  cases links <;> rfl

@[simp]
theorem walkFrom_up : fs.walkFrom ending links p (.up :: cs) =
    (fs.enter p >>= fun _ => fs.walkFrom ending links p.parent cs) := by
  cases links <;> rfl

def walkName (fs : FileSystem) (ending : Ending) (links : Nat) (p : Place) (name : Name)
    (cs : List Component) : Except Errno Arrival := do
  let isLast := cs.all (· == .close)
  let closed := isLast && !cs.isEmpty
  if closed && ending == .create then
    .error .isDirectory
  else
    let (dir, node?) ← fs.lookup p name
    match node? with
    | none => if isLast then .ok (.entry dir name none closed) else .error .noEntry
    | some (.file f) =>
      if isLast then .ok (.entry dir name (some (.file f)) closed) else .error .notDirectory
    | some (.dir mode) =>
      if isLast then
        .ok (.entry dir name (some (.dir mode)) closed)
      else
        fs.walkFrom ending links (.at (name :: dir)) cs
    | some (.link target) =>
      if isLast && ending == .keep then
        .ok (.entry dir name (some (.link target)) closed)
      else
        fs.walkLink ending links (startOf target (.at dir)) (components target ++ cs)

theorem walkFrom_name {name : Name} : fs.walkFrom ending links p (.name name :: cs) =
    (fs.enter p >>= fun _ => fs.walkName ending links p name cs) := by
  cases links <;> rfl

def descendName (fs : FileSystem) (links : Nat) (p : Place) (name : Name)
    (cs : List Component) : Except Errno (Place × Nat) := do
  let (dir, node?) ← fs.lookup p name
  match node? with
  | none => .error .noEntry
  | some (.file _) => .error .notDirectory
  | some (.dir _) => fs.descend links (.at (name :: dir)) cs
  | some (.link target) => fs.descendLink links (startOf target (.at dir)) (components target ++ cs)

@[simp]
theorem descend_nil : fs.descend links p [] = .ok (p, links) := by
  cases links <;> rfl

@[simp]
theorem descend_close : fs.descend links p (.close :: cs) = fs.descend links p cs := by
  cases links <;> rfl

@[simp]
theorem descend_here : fs.descend links p (.here :: cs) =
    (fs.enter p >>= fun _ => fs.descend links p cs) := by
  cases links <;> rfl

@[simp]
theorem descend_up : fs.descend links p (.up :: cs) =
    (fs.enter p >>= fun _ => fs.descend links p.parent cs) := by
  cases links <;> rfl

theorem descend_name {name : Name} : fs.descend links p (.name name :: cs) =
    (fs.enter p >>= fun _ => fs.descendName links p name cs) := by
  cases links <;> rfl

theorem descend_dir {dir : Location} {name : Name} {mode : Mode}
    (henter : fs.enter (.at dir) = .ok ())
    (hlook : fs.lookup (.at dir) name = .ok (dir, some (.dir mode))) :
    fs.descend links (.at dir) (.name name :: cs) = fs.descend links (.at (name :: dir)) cs := by
  rw [descend_name, henter]
  show fs.descendName _ _ _ _ = _
  unfold descendName
  rw [hlook]
  rfl

theorem descend_link {dir : Location} {name : Name} {target : Bytes}
    (henter : fs.enter (.at dir) = .ok ())
    (hlook : fs.lookup (.at dir) name = .ok (dir, some (.link target))) :
    fs.descend (links + 1) (.at dir) (.name name :: cs) =
      fs.descend links (startOf target (.at dir)) (components target ++ cs) := by
  rw [descend_name, henter]
  show fs.descendName _ _ _ _ = _
  unfold descendName
  rw [hlook]
  rfl

/-- Induction along a walk: over the components that are left, and over the links at a link. -/
theorem walk_induction {motive : Nat → Place → List Component → Prop}
    (nil : ∀ links p, motive links p [])
    (close : ∀ links p cs, motive links p cs → motive links p (.close :: cs))
    (here : ∀ links p cs, motive links p cs → motive links p (.here :: cs))
    (up : ∀ links p cs, motive links p.parent cs → motive links p (.up :: cs))
    (name : ∀ links p name cs, (∀ q, motive links q cs) →
      (∀ l, links = l + 1 → ∀ q ds, motive l q ds) → motive links p (.name name :: cs))
    (links : Nat) (p : Place) (cs : List Component) : motive links p cs := by
  induction links using Nat.strongRecOn generalizing p cs with
  | _ links ih =>
    induction cs generalizing p with
    | nil => exact nil links p
    | cons c cs ihcs =>
      cases c with
      | here => exact here links p cs (ihcs p)
      | up => exact up links p cs (ihcs p.parent)
      | close => exact close links p cs (ihcs p)
      | name n => exact name links p n cs ihcs fun l hl q ds => ih l (by omega) q ds

/-- The ways of a walk that ends at a name in a directory, from where it is. -/
inductive Arrives (fs : FileSystem) (ending : Ending) (dir : Location) (name : Name)
    (node? : Option Node) (closed : Bool) : Nat → Place → List Component → Prop where
  | close {links : Nat} {p : Place} {cs : List Component} :
    Arrives fs ending dir name node? closed links p cs →
    Arrives fs ending dir name node? closed links p (.close :: cs)
  | here {links : Nat} {p : Place} {cs : List Component} :
    fs.enter p = .ok () →
    Arrives fs ending dir name node? closed links p cs →
    Arrives fs ending dir name node? closed links p (.here :: cs)
  | up {links : Nat} {p : Place} {cs : List Component} :
    fs.enter p = .ok () →
    Arrives fs ending dir name node? closed links p.parent cs →
    Arrives fs ending dir name node? closed links p (.up :: cs)
  | ends {links : Nat} {cs : List Component} :
    fs.enter (.at dir) = .ok () →
    fs.lookup (.at dir) name = .ok (dir, node?) →
    cs.all (· == .close) = true →
    closed = !cs.isEmpty →
    (ending = .create → cs = []) →
    (∀ target, node? = some (.link target) → ending = .keep) →
    Arrives fs ending dir name node? closed links (.at dir) (.name name :: cs)
  | through {links : Nat} {d : Location} {n : Name} {mode : Mode} {cs : List Component} :
    fs.enter (.at d) = .ok () →
    fs.lookup (.at d) n = .ok (d, some (.dir mode)) →
    cs.all (· == .close) = false →
    Arrives fs ending dir name node? closed links (.at (n :: d)) cs →
    Arrives fs ending dir name node? closed links (.at d) (.name n :: cs)
  | link {links : Nat} {d : Location} {n : Name} {target : Bytes} {cs : List Component} :
    fs.enter (.at d) = .ok () →
    fs.lookup (.at d) n = .ok (d, some (.link target)) →
    (cs.all (· == .close) = true → ending ≠ .keep ∧ (ending = .create → cs = [])) →
    Arrives fs ending dir name node? closed links (startOf target (.at d))
      (components target ++ cs) →
    Arrives fs ending dir name node? closed (links + 1) (.at d) (.name n :: cs)

section Arrives

variable {dir : Location} {name : Name} {node? : Option Node} {closed : Bool}

theorem arrives_of_walkFrom
    (h : fs.walkFrom ending links p cs = .ok (.entry dir name node? closed)) :
    Arrives fs ending dir name node? closed links p cs := by
  induction links, p, cs using walk_induction with
  | nil links p => simp at h
  | close links p cs ih => exact .close (ih (by simpa using h))
  | here links p cs ih =>
    rw [walkFrom_here, except_bind_eq_ok] at h
    obtain ⟨⟨⟩, henter, h⟩ := h
    exact .here henter (ih h)
  | up links p cs ih =>
    rw [walkFrom_up, except_bind_eq_ok] at h
    obtain ⟨⟨⟩, henter, h⟩ := h
    exact .up henter (ih h)
  | name links p n cs ihrest ihlink =>
    rw [walkFrom_name, except_bind_eq_ok] at h
    obtain ⟨⟨⟩, henter, h⟩ := h
    unfold walkName at h
    dsimp at h
    split at h
    next => simp at h
    next hopen =>
    rw [except_bind_eq_ok] at h
    obtain ⟨⟨d, x⟩, hlook, h⟩ := h
    obtain ⟨rfl, -, -⟩ := lookup_eq_ok.mp hlook
    have hcreate (hall : cs.all (· == .close) = true) (hending : ending = .create) : cs = [] := by
      rw [hall, hending] at hopen
      simpa using hopen
    -- The walk ends here if nothing but closing slashes follows, and goes on otherwise.
    have hends (hall : cs.all (· == .close) = true)
        (hlink : ∀ target, x = some (.link target) → ending = .keep)
        (heq : Arrival.entry d n x (cs.all (· == .close) && !cs.isEmpty) =
          .entry dir name node? closed) :
        Arrives fs ending dir name node? closed links (.at d) (.name n :: cs) := by
      obtain ⟨rfl, rfl, rfl, rfl⟩ := Arrival.entry.inj heq
      exact .ends henter hlook hall (by simp [hall]) (hcreate hall) hlink
    match x, h, hlook, hends with
    | none, h, _, hends =>
      dsimp at h
      split at h
      next hall => exact hends hall (by simp) (Except.ok.inj h)
      next => simp at h
    | some (.file f), h, _, hends =>
      dsimp at h
      split at h
      next hall => exact hends hall (by simp) (Except.ok.inj h)
      next => simp at h
    | some (.dir mode), h, hlook, hends =>
      dsimp at h
      split at h
      next hall => exact hends hall (by simp) (Except.ok.inj h)
      next hall => exact .through henter hlook (by simpa using hall) (ihrest _ h)
    | some (.link target), h, hlook, hends =>
      dsimp at h
      split at h
      next hkeep =>
        obtain ⟨hall, hkeep⟩ := Bool.and_eq_true_iff.mp hkeep
        exact hends hall (fun _ _ => by simpa using hkeep) (Except.ok.inj h)
      next hkeep =>
        cases links with
        | zero => simp [walkLink] at h
        | succ links =>
          refine .link henter hlook (fun hall => ⟨?_, hcreate hall⟩) (ihlink links rfl _ _ h)
          rintro rfl
          simp [hall] at hkeep

theorem Arrives.walkFrom_eq (h : Arrives fs ending dir name node? closed links p cs) :
    fs.walkFrom ending links p cs = .ok (.entry dir name node? closed) := by
  induction h with
  | close _ ih => simpa using ih
  | here henter _ ih =>
    rw [walkFrom_here, henter]
    exact ih
  | up henter _ ih =>
    rw [walkFrom_up, henter]
    exact ih
  | @ends links cs henter hlook hall hclosed hcreate hlink =>
    rw [walkFrom_name, henter]
    show fs.walkName _ _ _ _ _ = _
    unfold walkName
    dsimp only
    have hopen : (true && !cs.isEmpty && ending == .create) = false := by
      by_cases hending : ending = .create
      . simp [hcreate hending]
      . simp [hending]
    rw [hall, hopen, hlook, hclosed]
    match node?, hlink with
    | none, _ => rfl
    | some (.file f), _ => rfl
    | some (.dir mode), _ => rfl
    | some (.link target), hlink =>
      rw [hlink target rfl]
      rfl
  | through henter hlook hall _ ih =>
    rw [walkFrom_name, henter]
    show fs.walkName _ _ _ _ _ = _
    unfold walkName
    rw [hall, hlook]
    exact ih
  | @link links d n target cs henter hlook hall _ ih =>
    rw [walkFrom_name, henter]
    show fs.walkName _ _ _ _ _ = _
    unfold walkName
    dsimp only
    have hopen : (cs.all (· == .close) && !cs.isEmpty && ending == .create) = false ∧
        (cs.all (· == .close) && ending == .keep) = false := by
      cases hlast : cs.all (· == .close) with
      | false => simp
      | true =>
        obtain ⟨hkeep, hcreate⟩ := hall hlast
        by_cases hending : ending = .create
        . simp [hcreate hending, hending]
        . simp [hkeep, hending]
    rw [hopen.1, hlook]
    dsimp only [bind, Except.bind]
    rw [hopen.2]
    exact ih

end Arrives

theorem walkFrom_append (hds : ds.all (· == .close) = false) :
    fs.walkFrom ending links p (cs ++ ds) =
      (fs.descend links p cs >>= fun r => fs.walkFrom ending r.2 r.1 ds) := by
  induction links, p, cs using walk_induction with
  | nil links p =>
    rw [List.nil_append, descend_nil]
    rfl
  | close links p cs ih => simpa using ih
  | here links p cs ih => simp only [List.cons_append, walkFrom_here, descend_here, bind_assoc, ih]
  | up links p cs ih => simp only [List.cons_append, walkFrom_up, descend_up, bind_assoc, ih]
  | name links p name cs ihrest ihlink =>
    have hlast : (cs ++ ds).all (· == .close) = false := by simp [hds]
    rw [List.cons_append, walkFrom_name, descend_name, bind_assoc]
    congr 1
    funext _
    unfold walkName descendName
    simp only [hlast, Bool.false_and, Bool.false_eq_true, if_false, bind_assoc]
    congr 1
    funext ⟨dir, node?⟩
    match node? with
    | none => rfl
    | some (.file f) => rfl
    | some (.dir mode) => exact ihrest _
    | some (.link target) =>
      cases links with
      | zero => rfl
      | succ links =>
        unfold walkLink descendLink
        dsimp
        rw [← List.append_assoc]
        exact ihlink links rfl _ _

theorem descend_append :
    fs.descend links p (cs ++ ds) =
      (fs.descend links p cs >>= fun r => fs.descend r.2 r.1 ds) := by
  induction links, p, cs using walk_induction with
  | nil links p =>
    rw [List.nil_append, descend_nil]
    rfl
  | close links p cs ih => simpa using ih
  | here links p cs ih => simp only [List.cons_append, descend_here, bind_assoc, ih]
  | up links p cs ih => simp only [List.cons_append, descend_up, bind_assoc, ih]
  | name links p name cs ihrest ihlink =>
    rw [List.cons_append, descend_name, descend_name, bind_assoc]
    congr 1
    funext _
    unfold descendName
    simp only [bind_assoc]
    congr 1
    funext ⟨dir, node?⟩
    match node? with
    | none => rfl
    | some (.file f) => rfl
    | some (.dir mode) => exact ihrest _
    | some (.link target) =>
      cases links with
      | zero => rfl
      | succ links =>
        unfold descendLink
        dsimp
        rw [← List.append_assoc]
        exact ihlink links rfl _ _

theorem descend_of_all_close (h : cs.all (· == .close) = true) :
    fs.descend links p cs = .ok (p, links) := by
  induction cs with
  | nil => simp
  | cons c cs ih =>
    simp only [List.all_cons, Bool.and_eq_true, beq_iff_eq] at h
    rw [h.1, descend_close]
    exact ih h.2

end FileSystem

def Arrival.dir? : Arrival → Option Place
  | .place p => some p
  | .entry dir name (some (.dir _)) _ => some (.at (name :: dir))
  | _ => none

namespace FileSystem

variable {fs fs' : FileSystem} {path : Pathname} {ending : Ending} {links : Nat}
variable {p q : Place} {cs ds : List Component}

theorem descend_map_eq_walkFrom_dir? :
    (fs.descend links p cs).toOption.map (·.1) =
      (fs.walkFrom .follow links p cs).toOption.bind Arrival.dir? := by
  induction links, p, cs using walk_induction with
  | nil links p =>
    rw [descend_nil, walkFrom_nil]
    rfl
  | close links p cs ih => simpa using ih
  | here links p cs ih =>
    rw [descend_here, walkFrom_here]
    cases fs.enter p with
    | error e => rfl
    | ok u => exact ih
  | up links p cs ih =>
    rw [descend_up, walkFrom_up]
    cases fs.enter p with
    | error e => rfl
    | ok u => exact ih
  | name links p name cs ihrest ihlink =>
    rw [descend_name, walkFrom_name]
    cases fs.enter p with
    | error e => rfl
    | ok u =>
      show (fs.descendName links p name cs).toOption.map _ =
        (fs.walkName .follow links p name cs).toOption.bind _
      have hfollow : (Ending.follow == Ending.create) = false := rfl
      have hkeep : (Ending.follow == Ending.keep) = false := rfl
      unfold descendName walkName
      simp only [hfollow, hkeep, Bool.and_false, Bool.false_eq_true, if_false]
      rcases fs.lookup p name with e | ⟨dir, node?⟩
      . rfl
      . simp only [bind, Except.bind]
        match node? with
        | none =>
          dsimp
          split <;> rfl
        | some (.file f) =>
          dsimp
          split <;> rfl
        | some (.dir mode) =>
          dsimp
          split
          next h =>
            rw [descend_of_all_close h]
            rfl
          next => exact ihrest _
        | some (.link target) =>
          cases links with
          | zero => rfl
          | succ links => exact ihlink links rfl _ _

def reach (fs : FileSystem) (path : Pathname) : Except Errno (Place × Nat) :=
  fs.descend maxLinks (startOf path.bytes fs.here) path.parts

theorem descend_components :
    fs.descend links p (components path.bytes) = fs.descend links p path.parts := by
  rw [path.components_eq, descend_append]
  rcases fs.descend links p path.parts with e | ⟨q, l⟩
  . rfl
  . apply descend_of_all_close
    split <;> rfl

theorem find_eq_dir :
    fs.find path = .ok (.dir q) ↔ path.IsWalkable ∧ ∃ l, fs.reach path = .ok (q, l) := by
  have hfind : fs.find path = .ok (.dir q) ↔
      ∃ a, fs.walk .follow path = .ok a ∧ a.dir? = some q := by
    unfold find
    rw [except_bind_eq_ok]
    constructor
    . rintro ⟨a, ha, h⟩
      refine ⟨a, ha, ?_⟩
      unfold Arrival.dir?
      split at h
      next => simpa using h
      next => simpa using h
      next => split at h <;> simp at h
      next => simp at h
      next => simp at h
    . rintro ⟨a, ha, h⟩
      refine ⟨a, ha, ?_⟩
      unfold Arrival.dir? at h
      split at h <;> simp_all
  have hdir : (fs.descend maxLinks (startOf path.bytes fs.here)
      (components path.bytes)).toOption.map (·.1) = _ := fs.descend_map_eq_walkFrom_dir?
  rw [descend_components] at hdir
  rw [hfind]
  unfold reach
  constructor
  . rintro ⟨a, ha, hq⟩
    obtain ⟨hw, ha⟩ := walk_eq_ok.mp ha
    refine ⟨hw, ?_⟩
    rw [ha] at hdir
    rcases hd : fs.descend maxLinks (startOf path.bytes fs.here) path.parts with e | ⟨q', l⟩
    . simp [hd, Except.toOption, hq] at hdir
    . simp only [hd, Except.toOption, Option.map_some, Option.bind_some, hq] at hdir
      exact ⟨l, by simpa using hdir⟩
  . rintro ⟨hw, l, hl⟩
    rw [hl] at hdir
    rcases ha : fs.walkFrom .follow maxLinks (startOf path.bytes fs.here)
      (components path.bytes) with e | a
    . simp [ha, Except.toOption] at hdir
    . refine ⟨a, walk_eq_ok.mpr ⟨hw, ha⟩, ?_⟩
      simpa [ha, Except.toOption] using hdir.symm

theorem isDir_eq_true : fs.isDir path = true ↔ ∃ q, fs.find path = .ok (.dir q) := by
  unfold isDir
  split <;> simp_all

theorem isFile_eq_true : fs.isFile path = true ↔ ∃ loc f, fs.find path = .ok (.file loc f) := by
  unfold isFile
  split <;> simp_all

theorem isDir_of_isFile (h : fs.isFile path = true) : fs.isDir path = false := by
  obtain ⟨loc, f, hfind⟩ := isFile_eq_true.mp h
  unfold isDir
  rw [hfind]

theorem exists?_eq_true : fs.exists? path = true ↔ ∃ found, fs.find path = .ok found := by
  unfold exists?
  cases fs.find path <;> simp [Except.isOk, Except.toBool]

theorem exists?_of_isDir (h : fs.isDir path = true) : fs.exists? path = true := by
  obtain ⟨q, hfind⟩ := isDir_eq_true.mp h
  exact exists?_eq_true.mpr ⟨_, hfind⟩

theorem isFile_eq_not_isDir (h : fs.exists? path = true) : fs.isFile path = !fs.isDir path := by
  obtain ⟨found, hfind⟩ := exists?_eq_true.mp h
  unfold isFile isDir
  rw [hfind]
  cases found <;> rfl

/-! A path that follows another one. -/

theorem startOf_join {card dest : Pathname} (hcard : card.bytes ≠ [])
    (hdest : dest.isAbsolute = false) :
    startOf (card / dest).bytes p = startOf card.bytes p := by
  obtain ⟨front, hbytes, -, hhead, hnil⟩ := Pathname.join_eq hcard hdest
  unfold startOf
  rw [hbytes]
  cases front with
  | nil => simp [hnil rfl]
  | cons b rest =>
    have : (b :: rest).head? = card.bytes.head? := hhead (by simp)
    simp [← this]

theorem all_close_components_eq_false {dest : Pathname} (hdest : dest.isAbsolute = false)
    (hne : dest.bytes ≠ []) : (components dest.bytes).all (· == .close) = false := by
  obtain ⟨c, hc⟩ := List.exists_mem_of_ne_nil _ (Pathname.parts_ne_nil hdest hne)
  rw [List.all_eq_false]
  refine ⟨c, ?_, by simpa using Pathname.ne_close_of_mem_parts hc⟩
  rw [Pathname.components_eq]
  exact List.mem_append_left _ hc

theorem walk_join_eq_ok {card dest : Pathname} {a : Arrival} (hcard : card.bytes ≠ [])
    (hdest : dest.isAbsolute = false) (hne : dest.bytes ≠ []) :
    fs.walk ending (card / dest) = .ok a ↔ (card / dest).IsWalkable ∧
      ∃ p l, fs.reach card = .ok (p, l) ∧
        fs.walkFrom ending l p (components dest.bytes) = .ok a := by
  rw [walk_eq_ok, startOf_join hcard hdest, Pathname.components_join hcard hdest hne,
    walkFrom_append (all_close_components_eq_false hdest hne)]
  simp [reach]

theorem reach_join {card dest : Pathname} (hcard : card.bytes ≠ [])
    (hdest : dest.isAbsolute = false) :
    fs.reach (card / dest) = (fs.reach card >>= fun r => fs.descend r.2 r.1 dest.parts) := by
  unfold reach
  rw [startOf_join hcard hdest, Pathname.parts_join hcard hdest, descend_append]

theorem Arrives.descend_ne_ok {dir : Location} {name : Name} {node? : Option Node} {closed : Bool}
    (h : fs.Arrives ending dir name node? closed links p cs)
    (hnode : ∀ node, node? = some node → node.isFile = true) {l : Nat} (r : Place × Nat) :
    fs.descend l p cs ≠ .ok r := by
  intro hdescend
  induction h generalizing l with
  | close _ ih => exact ih (by simpa using hdescend)
  | here henter _ ih =>
    rw [descend_here, henter] at hdescend
    exact ih hdescend
  | up henter _ ih =>
    rw [descend_up, henter] at hdescend
    exact ih hdescend
  | @ends links cs henter hlook =>
    rw [descend_name, henter] at hdescend
    replace hdescend : fs.descendName l (.at dir) name cs = .ok r := hdescend
    unfold descendName at hdescend
    rw [hlook] at hdescend
    match node?, hnode with
    | none, _ => simp [bind, Except.bind] at hdescend
    | some (.file f), _ => simp [bind, Except.bind] at hdescend
    | some (.dir mode), hnode => simpa [Node.isFile] using hnode _ rfl
    | some (.link target), hnode => simpa [Node.isFile] using hnode _ rfl
  | through henter hlook _ _ ih =>
    rw [descend_dir henter hlook] at hdescend
    exact ih hdescend
  | link henter hlook _ _ ih =>
    cases l with
    | zero =>
      rw [descend_name, henter] at hdescend
      replace hdescend : fs.descendName 0 _ _ _ = .ok r := hdescend
      unfold descendName at hdescend
      rw [hlook] at hdescend
      simp [bind, Except.bind, descendLink] at hdescend
    | succ l =>
      rw [descend_link henter hlook] at hdescend
      exact ih hdescend

theorem walkFrom_ne_none {dir : Location} {name : Name} {closed : Bool} {r : Place × Nat}
    (h : fs.descend links p cs = .ok r) :
    fs.walkFrom ending links p cs ≠ .ok (.entry dir name none closed) :=
  fun hwalk => (arrives_of_walkFrom hwalk).descend_ne_ok (by simp) r h

theorem exists_walkFrom {r : Place × Nat} (hending : ending ≠ .create)
    (h : fs.descend links p cs = .ok r) : ∃ a, fs.walkFrom ending links p cs = .ok a := by
  induction links, p, cs using walk_induction with
  | nil links p => exact ⟨_, walkFrom_nil⟩
  | close links p cs ih =>
    rw [walkFrom_close]
    exact ih (by simpa using h)
  | here links p cs ih =>
    rw [descend_here, except_bind_eq_ok] at h
    obtain ⟨_, henter, h⟩ := h
    rw [walkFrom_here, henter]
    exact ih h
  | up links p cs ih =>
    rw [descend_up, except_bind_eq_ok] at h
    obtain ⟨_, henter, h⟩ := h
    rw [walkFrom_up, henter]
    exact ih h
  | name links p name cs ihrest ihlink =>
    rw [descend_name, except_bind_eq_ok] at h
    obtain ⟨_, henter, h⟩ := h
    unfold descendName at h
    rw [except_bind_eq_ok] at h
    obtain ⟨⟨dir, node?⟩, hlook, h⟩ := h
    rw [walkFrom_name, henter]
    show ∃ a, fs.walkName ending links p name cs = _
    unfold walkName
    have hcreate : (ending == .create) = false := by simpa using hending
    simp only [hcreate, Bool.and_false, Bool.false_eq_true, if_false, hlook]
    dsimp only [bind, Except.bind]
    match node?, h with
    | some (.dir mode), h =>
      dsimp only
      split
      . exact ⟨_, rfl⟩
      . exact ihrest _ h
    | some (.link target), h =>
      dsimp only
      split
      . exact ⟨_, rfl⟩
      . cases links with
        | zero => simp [descendLink] at h
        | succ links => exact ihlink links rfl _ _ h

theorem walkFrom_moved (q : Place) :
    FileSystem.walkFrom { fs with here := q } ending links p cs = fs.walkFrom ending links p cs := by
  induction links, p, cs using walk_induction with
  | nil => rw [walkFrom_nil, walkFrom_nil]
  | close links p cs ih => rw [walkFrom_close, walkFrom_close, ih]
  | here links p cs ih =>
    simp only [walkFrom_here, ih]
    rfl
  | up links p cs ih =>
    simp only [walkFrom_up, ih]
    rfl
  | name links p name cs ihrest ihlink =>
    have hlink (r : Place) (ds : List Component) :
        walkLink { fs with here := q } ending links r ds = fs.walkLink ending links r ds := by
      cases links with
      | zero => rfl
      | succ links => exact ihlink links rfl r ds
    rw [walkFrom_name, walkFrom_name]
    unfold walkName
    simp only [ihrest, hlink]
    rfl

theorem find_of_nodes (hnodes : fs'.nodes = fs.nodes)
    (hstart : path.isAbsolute = true ∨ fs'.here = fs.here) : fs'.find path = fs.find path := by
  have hstarts : startOf path.bytes fs'.here = startOf path.bytes fs.here := by
    rcases hstart with habsolute | hhere
    . have hslash : path.bytes.head? = some Bytes.slash := by
        simpa [Pathname.isAbsolute] using habsolute
      unfold startOf
      rw [if_pos hslash, if_pos hslash]
    . rw [hhere]
  have heq : fs' = { fs with here := fs'.here } := by rw [← hnodes]
  unfold find walk
  rw [hstarts, heq, walkFrom_moved]

end FileSystem

end BootCard
