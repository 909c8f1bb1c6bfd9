import BootCard.Disk.Layout
import BootCard.Asset.Staging
import BootCard.Proofs.Disk.Visits

/-!
This module contains walks inside a directory that has no symbolic links beneath it. A path that
leads from there downwards leads to the one location that its names tell.
-/

namespace BootCard

namespace Place

variable {dir loc : Location} {p : Place}

theorem holds_at : (Place.at dir).holds loc = true ↔ ∃ xs, xs ≠ [] ∧ loc = xs ++ dir := by
  unfold holds
  simp only [Bool.and_eq_true, List.isSuffixOf_iff_suffix, bne_iff_ne, ne_eq]
  constructor
  . rintro ⟨⟨xs, rfl⟩, hne⟩
    exact ⟨xs, by simpa using hne, rfl⟩
  . rintro ⟨xs, hxs, rfl⟩
    exact ⟨⟨xs, rfl⟩, by simpa using hxs⟩

theorem holds_append {xs : Location} (hne : xs ≠ []) : (Place.at dir).holds (xs ++ dir) = true :=
  holds_at.mpr ⟨xs, hne, rfl⟩

theorem holds_cons (name : Name) : (Place.at dir).holds (name :: dir) = true :=
  holds_append (List.cons_ne_nil name [])

theorem holds_of_holds {dir' : Location} (h : (Place.at dir).holds dir' = true)
    (h' : (Place.at dir').holds loc = true) : (Place.at dir).holds loc = true := by
  obtain ⟨xs, hxs, rfl⟩ := holds_at.mp h
  obtain ⟨ys, -, rfl⟩ := holds_at.mp h'
  exact holds_at.mpr ⟨ys ++ xs, by simp [hxs], by simp⟩

theorem holds_sibling {name name' : Name} (h : (Place.at dir).holds (name :: loc) = true) :
    (Place.at dir).holds (name' :: loc) = true := by
  obtain ⟨xs, hxs, heq⟩ := holds_at.mp h
  cases xs with
  | nil => exact absurd rfl hxs
  | cons x xs =>
    obtain ⟨rfl, rfl⟩ : name = x ∧ loc = xs ++ dir := by simpa using heq
    exact holds_append (List.cons_ne_nil name' xs)

theorem not_holds_self : (Place.at dir).holds dir = false := by
  simp [holds]

theorem not_holds_tail (name : Name) : (Place.at (name :: dir)).holds dir = false := by
  rw [Bool.eq_false_iff]
  intro h
  obtain ⟨xs, -, heq⟩ := holds_at.mp h
  have := congrArg List.length heq
  simp at this
  omega

end Place

def Node.isLink : Node → Bool
  | .link _ => true
  | _ => false

namespace Pathname

structure IsDownward (path : Pathname) : Prop where
  relative : path.isAbsolute = false
  no_up : .up ∉ components path.bytes

instance {path : Pathname} : Decidable path.IsDownward :=
  decidable_of_iff (path.isAbsolute = false ∧ .up ∉ components path.bytes)
    ⟨fun h => ⟨h.1, h.2⟩, fun h => ⟨h.relative, h.no_up⟩⟩

structure IsInner (path : Pathname) : Prop extends path.IsDownward where
  not_empty : path.bytes ≠ []

theorem isAbsolute_append {path : Pathname} {bs : Bytes} (hne : path.bytes ≠ []) :
    (path.append bs).isAbsolute = path.isAbsolute := by
  unfold isAbsolute append
  simp [List.head?_append, List.head?_eq_some_head hne]

theorem IsInner.backup {path : Pathname} (h : path.IsInner) : path.backup.IsInner where
  relative := by
    rw [← h.relative]
    exact isAbsolute_append h.not_empty
  no_up := by
    obtain ⟨before, last, hsplit, hbackup⟩ :=
      exists_components_append path [] (b := 0x7e) (by decide) (by decide)
    show .up ∉ components (path.append ([] ++ [0x7e])).bytes
    rw [hbackup]
    have hup := h.no_up
    rw [components_eq] at hup
    unfold parts at hup
    rw [hsplit, partsOf_append] at hup
    simp_all
  not_empty := by
    unfold Pathname.backup append
    simp [h.not_empty]

theorem join_backup {card dest : Pathname} (hne : dest.bytes ≠ []) :
    (card / dest).backup = card / dest.backup :=
  append_join (utf8 "~") hne

end Pathname

/-- Whether a name can be that of an entry, so that it is a path with no other component. -/
def Name.IsProper (name : Name) : Prop := components name = [.name name]

instance {name : Name} : Decidable name.IsProper :=
  inferInstanceAs (Decidable (components name = [.name name]))

theorem slash_not_mem_of_name {name : Name} {bs : Bytes} (h : .name name ∈ components bs) :
    Bytes.slash ∉ name := by
  have hmem : .name name ∈ (Pathname.mk bs).parts := by
    rw [Pathname.components_eq ⟨bs⟩] at h
    rcases List.mem_append.mp h with h | h
    . exact h
    . split at h <;> simp at h
  obtain ⟨piece, hpiece, hname⟩ := List.mem_map.mp hmem
  rw [← Component.ofPiece_eq_name hname]
  exact Bytes.not_mem_of_mem_splitOn (List.mem_filter.mp hpiece |>.1)

theorem Name.IsProper.slash_not_mem {name : Name} (h : name.IsProper) : Bytes.slash ∉ name := by
  have hmem : .name name ∈ components name := by
    rw [show components name = _ from h]
    exact List.mem_singleton_self _
  exact slash_not_mem_of_name hmem

theorem Name.IsProper.isInner {name : Name} (h : name.IsProper) : (Pathname.mk name).IsInner where
  relative := by
    unfold Pathname.isAbsolute
    rw [beq_eq_false_iff_ne]
    exact fun hhead => h.slash_not_mem (List.mem_of_mem_head? hhead)
  no_up := by
    rw [show components name = _ from h]
    simp
  not_empty := by
    rintro rfl
    simp [Name.IsProper, components, Bytes.splitOn] at h

namespace Location

def backup : Location → Location
  | [] => []
  | name :: dir => (name ++ utf8 "~") :: dir

theorem ofPath_eq {path : Pathname} (h : .up ∉ components path.bytes) :
    ofPath path = (Component.names (components path.bytes)).reverse := by
  unfold ofPath
  rw [← List.append_nil (List.reverse _)]
  generalize components path.bytes = cs at h ⊢
  generalize ([] : Location) = loc
  induction cs generalizing loc with
  | nil => simp
  | cons c cs ih => cases c <;> simp_all

theorem ofPath_backup {path : Pathname} {mid : List Component} {n : Name} (h : path.IsInner)
    (hend : components path.bytes = mid ++ [.name n]) :
    ofPath path.backup = (ofPath path).backup := by
  have hbackup : components path.backup.bytes = mid ++ [.name (n ++ utf8 "~")] :=
    Pathname.components_append [] (b := 0x7e) hend (by decide) (by decide)
  rw [ofPath_eq h.no_up, ofPath_eq h.backup.no_up, hend, hbackup]
  simp [backup]

end Location

namespace FileSystem

variable {fs fs' : FileSystem} {path card dest : Pathname} {ending : Ending} {links : Nat}
variable {p q : Place} {cs : List Component}

/-- Whether there are no symbolic links beneath a directory. -/
def NoLinks (fs : FileSystem) (p : Place) : Prop :=
  ∀ loc target, p.holds loc = true → fs.node? loc ≠ some (.link target)

theorem mem_keys_iff {loc : Location} : loc ∈ fs.nodes.keys ↔ (fs.node? loc).isSome := by
  rw [Std.ExtTreeMap.mem_keys, Std.ExtTreeMap.mem_iff_isSome_getElem?]
  rfl

theorem forall_node?_eq_iff {P : Location → Prop} :
    (∀ loc, P loc → fs'.node? loc = fs.node? loc) ↔
      ∀ loc ∈ fs.nodes.keys ++ fs'.nodes.keys, P loc → fs'.node? loc = fs.node? loc := by
  constructor
  . exact fun h loc _ hloc => h loc hloc
  . intro h loc hloc
    by_cases hmem : loc ∈ fs.nodes.keys ++ fs'.nodes.keys
    . exact h loc hmem hloc
    . simp only [List.mem_append, mem_keys_iff, not_or, Bool.not_eq_true,
        Option.isSome_eq_false_iff, Option.isNone_iff_eq_none] at hmem
      rw [hmem.1, hmem.2]

theorem noLinks_iff : fs.NoLinks p ↔
    ∀ loc ∈ fs.nodes.keys, p.holds loc = true → (fs.node? loc).any Node.isLink = false := by
  unfold NoLinks
  constructor
  . intro h loc _ hloc
    cases hnode : fs.node? loc with
    | none => rfl
    | some node =>
      cases node with
      | link target => exact absurd hnode (h loc target hloc)
      | file f => rfl
      | dir mode => rfl
  . intro h loc target hloc hnode
    simpa [hnode, Node.isLink] using h loc (mem_keys_iff.mpr (by simp [hnode])) hloc

instance : Decidable (fs.NoLinks p) := decidable_of_iff _ noLinks_iff.symm

theorem NoLinks.cons {root : Location} {name : Name} (h : fs.NoLinks (.at root)) :
    fs.NoLinks (.at (name :: root)) :=
  fun loc target hloc => h loc target (Place.holds_of_holds (Place.holds_cons name) hloc)

structure IsReached (fs : FileSystem) (links : Nat) (p : Place) (cs : List Component)
    (dir : Location) (name : Name) : Prop where
  downward : ∃ root, p = .at root ∧ name :: dir = (Component.names cs).reverse ++ root
  fits : name.length ≤ maxNameLength
  enters : fs.enter (.at dir) = .ok ()
  descends : ∃ mid, (∃ closes, cs = mid ++ .name name :: closes ∧ ∀ c ∈ closes, c = .close) ∧
    fs.descend links p mid = .ok (.at dir, links)

namespace IsReached

variable {dir root : Location} {name n : Name}

theorem after_close (h : fs.IsReached links p cs dir name) :
    fs.IsReached links p (.close :: cs) dir name where
  downward := by simpa using h.downward
  fits := h.fits
  enters := h.enters
  descends := by
    obtain ⟨mid, ⟨closes, rfl, hcloses⟩, hmid⟩ := h.descends
    exact ⟨.close :: mid, ⟨closes, rfl, hcloses⟩, by rwa [descend_close]⟩

theorem after_here (h : fs.IsReached links p cs dir name) (henter : fs.enter p = .ok ()) :
    fs.IsReached links p (.here :: cs) dir name where
  downward := by simpa using h.downward
  fits := h.fits
  enters := h.enters
  descends := by
    obtain ⟨mid, ⟨closes, rfl, hcloses⟩, hmid⟩ := h.descends
    refine ⟨.here :: mid, ⟨closes, rfl, hcloses⟩, ?_⟩
    rw [descend_here, henter]
    exact hmid

theorem after_name {mode : Mode} (h : fs.IsReached links (.at (n :: root)) cs dir name)
    (henter : fs.enter (.at root) = .ok ())
    (hlook : fs.lookup (.at root) n = .ok (root, some (.dir mode))) :
    fs.IsReached links (.at root) (.name n :: cs) dir name where
  downward := by
    obtain ⟨_, ⟨⟩, hloc⟩ := h.downward
    exact ⟨root, rfl, by simpa using hloc⟩
  fits := h.fits
  enters := h.enters
  descends := by
    obtain ⟨mid, ⟨closes, rfl, hcloses⟩, hmid⟩ := h.descends
    refine ⟨.name n :: mid, ⟨closes, rfl, hcloses⟩, ?_⟩
    rw [descend_name, henter]
    show fs.descendName links (.at root) n mid = _
    unfold descendName
    rw [hlook]
    exact hmid

theorem of_all_close (hlast : cs.all (· == .close) = true) (hfits : n.length ≤ maxNameLength)
    (henter : fs.enter (.at root) = .ok ()) :
    fs.IsReached links (.at root) (.name n :: cs) root n where
  downward := by
    refine ⟨root, rfl, ?_⟩
    have hnames : Component.names cs = [] := by
      unfold Component.names
      rw [List.filterMap_eq_nil_iff]
      intro c hc
      rw [beq_iff_eq.mp (List.all_eq_true.mp hlast c hc)]
    simp [hnames]
  fits := hfits
  enters := henter
  descends := ⟨[], ⟨cs, rfl, fun c hc => beq_iff_eq.mp (List.all_eq_true.mp hlast c hc)⟩,
    descend_nil⟩

end IsReached

theorem Arrives.isReached {dir : Location} {name : Name} {node? : Option Node} {closed : Bool}
    (h : fs.Arrives ending dir name node? closed links p cs) (hup : .up ∉ cs)
    (hlinks : fs.NoLinks p) :
    fs.IsReached links p cs dir name ∧ (closed = false → ∃ mid, cs = mid ++ [.name name]) ∧
      (ending = .create → closed = false) := by
  have hgrow {c : Component} {cs : List Component} (hlast : ∃ mid, cs = mid ++ [.name name]) :
      ∃ mid, c :: cs = mid ++ [.name name] := by
    obtain ⟨mid, rfl⟩ := hlast
    exact ⟨c :: mid, rfl⟩
  induction h with
  | close _ ih =>
    obtain ⟨hr, hlast, hcreate⟩ := ih (by simp_all) hlinks
    exact ⟨hr.after_close, fun hc => hgrow (hlast hc), hcreate⟩
  | here henter _ ih =>
    obtain ⟨hr, hlast, hcreate⟩ := ih (by simp_all) hlinks
    exact ⟨hr.after_here henter, fun hc => hgrow (hlast hc), hcreate⟩
  | up => simp at hup
  | ends henter hlook hall hclosed hcreate =>
    refine ⟨.of_all_close hall (lookup_eq_ok.mp hlook).2.1 henter, fun hc => ⟨[], ?_⟩, ?_⟩
    . simp_all
    . exact fun hending => by simp [hclosed, hcreate hending]
  | through henter hlook _ _ ih =>
    obtain ⟨hr, hlast, hcreate⟩ := ih (by simp_all) hlinks.cons
    exact ⟨hr.after_name henter hlook, fun hc => hgrow (hlast hc), hcreate⟩
  | link _ hlook =>
    exact absurd (lookup_eq_ok.mp hlook).2.2 (hlinks _ _ (Place.holds_cons _))

theorem walkFrom_inner {dir : Location} {name : Name} {node? : Option Node} {closed : Bool}
    (hup : .up ∉ cs) (hlinks : fs.NoLinks p)
    (h : fs.walkFrom ending links p cs = .ok (.entry dir name node? closed)) :
    fs.IsReached links p cs dir name ∧ fs.node? (name :: dir) = node? ∧
      (closed = false → ∃ mid, cs = mid ++ [.name name]) ∧ (ending = .create → closed = false) := by
  have harrives := arrives_of_walkFrom h
  obtain ⟨hr, hlast, hcreate⟩ := harrives.isReached hup hlinks
  exact ⟨hr, harrives.node?_eq, hlast, hcreate⟩

/-- A path that leads to a name in a directory, whether there is an entry of that name or not. -/
structure Points (fs : FileSystem) (path : Pathname) (dir : Location) (name : Name) : Prop where
  walkable : path.IsWalkable
  descends : ∃ mid l, components path.bytes = mid ++ [.name name] ∧
    fs.descend maxLinks (startOf path.bytes fs.here) mid = .ok (.at dir, l)
  enters : fs.enter (.at dir) = .ok ()
  fits : name.length ≤ maxNameLength

namespace Points

variable {dir : Location} {name : Name}

theorem walk_eq (h : fs.Points path dir name)
    (hlink : ∀ target, fs.node? (name :: dir) ≠ some (.link target)) :
    fs.walk ending path = .ok (.entry dir name (fs.node? (name :: dir)) false) := by
  obtain ⟨mid, l, hcs, hmid⟩ := h.descends
  have hopen : ([Component.name name].all (· == .close)) = false := rfl
  have hlook : fs.lookup (.at dir) name = .ok (dir, fs.node? (name :: dir)) :=
    lookup_eq_ok.mpr ⟨rfl, h.fits, rfl⟩
  rw [walk_eq_ok, hcs, walkFrom_append hopen, hmid]
  refine ⟨h.walkable, ?_⟩
  show fs.walkFrom ending l (.at dir) [.name name] = _
  rw [walkFrom_name, h.enters]
  show fs.walkName ending l (.at dir) name [] = _
  unfold walkName
  rw [hlook]
  cases hnode : fs.node? (name :: dir) with
  | none => rfl
  | some node =>
    cases node with
    | file f => rfl
    | dir mode => rfl
    | link target => exact absurd hnode (hlink target)

theorem of_routesIn (h : fs'.Points path dir name) (hroutes : fs'.RoutesIn fs)
    (hhere : fs'.here = fs.here) : fs.Points path dir name where
  walkable := h.walkable
  descends := by
    obtain ⟨mid, l, hcs, hmid⟩ := h.descends
    rw [hhere] at hmid
    exact ⟨mid, l, hcs, descend_of_routesIn hroutes hmid⟩
  enters := by
    obtain ⟨mode, hmode, hcan⟩ := enter_eq_ok.mp h.enters
    rw [modeOf_at_eq_ok] at hmode
    exact enter_eq_ok.mpr ⟨mode, modeOf_at_eq_ok.mpr (hroutes _ _ hmode rfl), hcan⟩
  fits := h.fits

end Points

structure Slot (fs : FileSystem) (card dest : Pathname) (root dir : Location) (name : Name) :
    Prop where
  location : name :: dir = Location.ofPath dest ++ root
  points : fs.Points (card / dest) dir name
  ends : ∃ mid, components dest.bytes = mid ++ [.name name]

namespace Slot

variable {root dir dir' : Location} {name name' : Name}

theorem holds (h : fs.Slot card dest root dir name) (hdest : dest.IsInner) :
    (Place.at root).holds (name :: dir) = true := by
  obtain ⟨mid, hend⟩ := h.ends
  rw [h.location, Location.ofPath_eq hdest.no_up, hend]
  exact Place.holds_append (by simp)

theorem of_routesIn (h : fs'.Slot card dest root dir name) (hroutes : fs'.RoutesIn fs)
    (hhere : fs'.here = fs.here) : fs.Slot card dest root dir name where
  location := h.location
  points := h.points.of_routesIn hroutes hhere
  ends := h.ends

theorem ofPath_backup (h : fs.Slot card dest root dir name) (hdest : dest.IsInner) :
    Location.ofPath dest.backup ++ root = (name ++ utf8 "~") :: dir := by
  obtain ⟨mid, hend⟩ := h.ends
  have hloc := h.location
  rw [Location.ofPath_backup hdest hend]
  rw [Location.ofPath_eq hdest.no_up, hend] at hloc ⊢
  simp only [Component.names_append, Component.names_cons_name, Component.names_nil,
    List.reverse_append, List.reverse_cons, List.reverse_nil, List.nil_append, List.cons_append,
    List.cons.injEq] at hloc
  simp [Location.backup, hloc.2]

end Slot

/-- Whether a path leads to a name on a card. -/
def HasSlot (fs : FileSystem) (card : Pathname) (p : Place) (dest : Pathname) : Prop :=
  ∃ root dir name, p = .at root ∧ fs.Slot card dest root dir name

theorem HasSlot.of_routesIn (h : fs'.HasSlot card p dest) (hroutes : fs'.RoutesIn fs)
    (hhere : fs'.here = fs.here) : fs.HasSlot card p dest := by
  obtain ⟨root, dir, name, hp, hslot⟩ := h
  exact ⟨root, dir, name, hp, hslot.of_routesIn hroutes hhere⟩

theorem HasSlot.ofPath_backup (h : fs.HasSlot card p dest)
    (hdest : dest.IsDownward) : Location.ofPath dest.backup = (Location.ofPath dest).backup := by
  obtain ⟨_, _, _, _, hslot⟩ := h
  obtain ⟨mid, hend⟩ := hslot.ends
  refine Location.ofPath_backup ⟨hdest, fun hnil => ?_⟩ hend
  rw [hnil, show components [] = [] by decide] at hend
  simp at hend

theorem HasSlot.exists_dir {root rest : Location} {name : Name}
    (h : fs.HasSlot card (.at root) dest) (hloc : Location.ofPath dest = name :: rest) :
    ∃ mode, fs.node? (rest ++ root) = some (.dir mode) := by
  obtain ⟨_, dir, n, ⟨⟩, hslot⟩ := h
  obtain ⟨-, rfl⟩ : n = name ∧ dir = rest ++ root := by
    simpa [hloc] using hslot.location
  obtain ⟨mode, hmode, -⟩ := enter_eq_ok.mp hslot.points.enters
  exact ⟨mode, modeOf_at_eq_ok.mp hmode⟩

/-- Whether a path leads to a directory that has no links beneath it. -/
structure HasCard (fs : FileSystem) (card : Pathname) (p : Place) : Prop where
  leads : fs.find card = .ok (.dir p)
  no_links : fs.NoLinks p

namespace HasCard

variable {dir : Location} {name : Name} {node? : Option Node} {closed : Bool}

theorem bytes_ne_nil (h : fs.HasCard card p) : card.bytes ≠ [] :=
  (find_eq_dir.mp h.leads).1.not_empty

theorem walk_inner (h : fs.HasCard card p) (hdest : dest.IsInner)
    (hwalk : fs.walk ending (card / dest) = .ok (.entry dir name node? closed)) :
    ∃ root, p = .at root ∧ name :: dir = Location.ofPath dest ++ root ∧
      fs.node? (name :: dir) = node? ∧ (ending = .create → closed = false) ∧
      (closed = false → fs.Slot card dest root dir name) := by
  obtain ⟨hwalkable, p', l, hreach, hfrom⟩ :=
    (walk_join_eq_ok h.bytes_ne_nil hdest.relative hdest.not_empty).mp hwalk
  obtain ⟨-, l', hreach'⟩ := find_eq_dir.mp h.leads
  obtain ⟨rfl, rfl⟩ : p' = p ∧ l' = l := by simp_all
  obtain ⟨hr, hnode, hlast, hcreate⟩ := walkFrom_inner hdest.no_up h.no_links hfrom
  obtain ⟨root, rfl, hloc⟩ := hr.downward
  rw [← Location.ofPath_eq hdest.no_up] at hloc
  refine ⟨root, rfl, hloc, hnode, hcreate, fun hclosed => ?_⟩
  obtain ⟨mid, ⟨closes, hcs, hcloses⟩, hmid⟩ := hr.descends
  obtain ⟨mid', hcs'⟩ := hlast hclosed
  -- Nothing follows the name, since what is not closed ends with it.
  obtain rfl : closes = [] := by
    rcases List.eq_nil_or_concat closes with rfl | ⟨cs, c, rfl⟩
    . rfl
    . have hlast' := congrArg List.getLast? (hcs.symm.trans hcs')
      rw [hcloses c (by simp), List.concat_eq_append, ← List.cons_append, ← List.append_assoc,
        List.getLast?_concat, List.getLast?_concat] at hlast'
      simp at hlast'
  refine ⟨hloc, ⟨hwalkable, ⟨card.parts ++ mid, l', ?_, ?_⟩, hr.enters, hr.fits⟩, mid, hcs⟩
  . rw [Pathname.components_join h.bytes_ne_nil hdest.relative hdest.not_empty, hcs,
      List.append_assoc]
  . rw [startOf_join h.bytes_ne_nil hdest.relative, descend_append]
    unfold reach at hreach
    rw [hreach]
    exact hmid

end HasCard

end FileSystem

end BootCard
