import BootCard.Proofs.Disk.Descent

/-!
This module contains what a walk depends on: the locations that it visits. Two file systems that
have the same entries there lead it to the same file, and what they have elsewhere does not matter.
-/

namespace BootCard

namespace Place

def holds : Place → Location → Bool
  | .at dir, loc => dir.isSuffixOf loc && loc != dir
  | .removed _ _, _ => false

def visited : Place → List Location
  | .at loc => [loc]
  | .removed _ _ => []

/-- What has become of a place when some directories with their modes have been removed. -/
inductive Past (lost : Location → Mode → Prop) : Place → Place → Prop where
  | kept (loc : Location) : Past lost (.at loc) (.at loc)
  | lost {loc : Location} {mode : Mode} {q : Place} :
    lost loc mode → Past lost (.at loc.tail) q → Past lost (.at loc) (.removed mode q)
  | removed {mode : Mode} {p q : Place} :
    Past lost p q → Past lost (.removed mode p) (.removed mode q)

variable {lost lost' : Location → Mode → Prop} {p q : Place}

theorem Past.refl (p : Place) : Past lost p p := by
  induction p with
  | «at» loc => exact .kept loc
  | removed mode p ih => exact .removed ih

theorem Past.mono (h : Past lost p q) (hsub : ∀ loc mode, lost loc mode → lost' loc mode) :
    Past lost' p q := by
  induction h with
  | kept loc => exact .kept loc
  | lost hl _ ih => exact .lost (hsub _ _ hl) ih
  | removed _ ih => exact .removed ih

theorem Past.afterRemoval {loc : Location} {mode : Mode} (h : Past lost p q) (hl : lost loc mode) :
    Past lost p (q.afterRemoval loc mode) := by
  induction h with
  | kept l =>
    unfold Place.afterRemoval
    split
    next heq =>
      subst heq
      exact .lost hl (.kept _)
    next => exact .kept l
  | lost hl' _ ih => exact .lost hl' ih
  | removed _ ih => exact .removed ih

theorem Past.parent (h : Past lost p q) : Past lost p.parent q.parent := by
  cases h with
  | kept loc => exact .kept loc.tail
  | lost _ h => exact h
  | removed h => exact h

theorem Past.eq_of_never (h : Past (fun _ _ => False) p q) : p = q := by
  induction h with
  | kept loc => rfl
  | lost hl => exact hl.elim
  | removed _ ih => rw [ih]

theorem Past.trans {r : Place} (h₁ : Past lost p q) (h₂ : Past lost q r) : Past lost p r := by
  induction h₁ generalizing r with
  | kept loc => exact h₂
  | lost hl _ ih =>
    cases h₂ with
    | removed h₂ => exact .lost hl (ih h₂)
  | removed _ ih =>
    cases h₂ with
    | removed h₂ => exact .removed (ih h₂)

end Place

namespace FileSystem

variable {fs fs' : FileSystem} {path : Pathname} {links : Nat}
variable {p p' q q' : Place} {cs : List Component} {lost : Location → Mode → Prop}

theorem startOf_past (bs : Bytes) (h : Place.Past lost p p') :
    Place.Past lost (startOf bs p) (startOf bs p') := by
  unfold startOf
  split
  . exact .kept []
  . exact h

/-! A descent needs the directories and the links on its way, and no others. -/

/-- Whether all directories and links of a file system are in another one, too. -/
def RoutesIn (fs' fs : FileSystem) : Prop :=
  ∀ loc node, fs'.node? loc = some node → node.isFile = false → fs.node? loc = some node

theorem modeOf_of_past (hlost : ∀ loc mode, lost loc mode → fs.node? loc = some (.dir mode))
    (hroutes : fs'.RoutesIn fs) {mode : Mode} (hp : Place.Past lost p p')
    (h : fs'.modeOf p' = .ok mode) : fs.modeOf p = .ok mode := by
  cases hp with
  | kept loc =>
    rw [modeOf_at_eq_ok] at h ⊢
    exact hroutes _ _ h rfl
  | lost hl _ =>
    unfold modeOf at h
    rw [modeOf_at_eq_ok, hlost _ _ hl]
    simpa using h
  | removed _ => exact h

theorem enter_of_past (hlost : ∀ loc mode, lost loc mode → fs.node? loc = some (.dir mode))
    (hroutes : fs'.RoutesIn fs) {u : Unit} (hp : Place.Past lost p p')
    (h : fs'.enter p' = .ok u) : fs.enter p = .ok u := by
  obtain ⟨mode, hmode, hcan⟩ := enter_eq_ok.mp h
  exact enter_eq_ok.mpr ⟨mode, modeOf_of_past hlost hroutes hp hmode, hcan⟩

theorem descend_of_past (hlost : ∀ loc mode, lost loc mode → fs.node? loc = some (.dir mode))
    (hroutes : fs'.RoutesIn fs) (hp : Place.Past lost p p') {l : Nat}
    (h : fs'.descend links p' cs = .ok (q', l)) :
    ∃ q, Place.Past lost q q' ∧ fs.descend links p cs = .ok (q, l) := by
  induction links, p', cs using walk_induction generalizing p with
  | nil links p' =>
    rw [descend_nil, Except.ok.injEq, Prod.mk.injEq] at h
    obtain ⟨rfl, rfl⟩ := h
    exact ⟨p, hp, descend_nil⟩
  | close links p' cs ih => simpa using ih hp (by simpa using h)
  | here links p' cs ih =>
    rw [descend_here, except_bind_eq_ok] at h
    obtain ⟨u, henter, h⟩ := h
    obtain ⟨q, hq, hd⟩ := ih hp h
    refine ⟨q, hq, ?_⟩
    rw [descend_here, enter_of_past hlost hroutes hp henter]
    exact hd
  | up links p' cs ih =>
    rw [descend_up, except_bind_eq_ok] at h
    obtain ⟨u, henter, h⟩ := h
    obtain ⟨q, hq, hd⟩ := ih hp.parent h
    refine ⟨q, hq, ?_⟩
    rw [descend_up, enter_of_past hlost hroutes hp henter]
    exact hd
  | name links p' name cs ihrest ihlink =>
    rw [descend_name, except_bind_eq_ok] at h
    obtain ⟨u, henter, h⟩ := h
    unfold descendName at h
    rw [except_bind_eq_ok] at h
    obtain ⟨⟨dir, node?⟩, hlook, h⟩ := h
    obtain ⟨rfl, hfits, hnode⟩ := lookup_eq_ok.mp hlook
    -- A place that has entries has not been removed.
    cases hp with
    | kept =>
    have hlook' (node : Node) (heq : node? = some node) (hfile : node.isFile = false) :
        fs.lookup (.at dir) name = .ok (dir, some node) :=
      lookup_eq_ok.mpr ⟨rfl, hfits, hroutes _ _ (hnode.trans heq) hfile⟩
    rw [descend_name, enter_of_past hlost hroutes (.kept dir) henter]
    show ∃ q, _ ∧ fs.descendName links (.at dir) name cs = _
    unfold descendName
    match node?, h with
    | some (.dir mode), h =>
      rw [hlook' (.dir mode) rfl rfl]
      exact ihrest _ (.kept _) h
    | some (.link target), h =>
      rw [hlook' (.link target) rfl rfl]
      cases links with
      | zero => simp [descendLink] at h
      | succ links => exact ihlink links rfl _ _ (startOf_past _ (.kept _)) h

theorem descend_of_routesIn (hroutes : fs'.RoutesIn fs) {l : Nat}
    (h : fs'.descend links p cs = .ok (q, l)) : fs.descend links p cs = .ok (q, l) := by
  have hkept : Place.Past (fun _ _ => False) p p := .refl p
  obtain ⟨q', hq, hd⟩ := descend_of_past (fun _ _ h => h.elim) hroutes hkept h
  rw [hq.eq_of_never] at hd
  exact hd

theorem enter_of_routesIn (hroutes : fs.RoutesIn fs') {u : Unit} (h : fs.enter p = .ok u) :
    fs'.enter p = .ok u := by
  have hkept : Place.Past (fun _ _ => False) p p := .refl p
  exact enter_of_past (fun _ _ h => h.elim) hroutes hkept h

/-! The locations that a walk visits. -/

/-- The locations that are looked at on a walk that follows links to the end. -/
def visitsWith (fs : FileSystem) (onLink : Place → List Component → List Location) :
    Place → List Component → List Location
  | _, [] => []
  | p, .close :: rest => visitsWith fs onLink p rest
  | p, .here :: rest =>
    p.visited ++
      match fs.enter p with
      | .ok () => visitsWith fs onLink p rest
      | .error _ => []
  | p, .up :: rest =>
    p.visited ++
      match fs.enter p with
      | .ok () => visitsWith fs onLink p.parent rest
      | .error _ => []
  | p, .name name :: rest =>
    p.visited ++
      match fs.enter p with
      | .error _ => []
      | .ok () =>
        match fs.lookup p name with
        | .error _ => []
        | .ok (dir, node?) =>
          (name :: dir) ::
            match node? with
            | some (.dir _) => visitsWith fs onLink (.at (name :: dir)) rest
            | some (.link target) => onLink (startOf target (.at dir)) (components target ++ rest)
            | _ => []

def visitsFrom (fs : FileSystem) : Nat → Place → List Component → List Location
  | 0 => fs.visitsWith fun _ _ => []
  | links + 1 => fs.visitsWith (fs.visitsFrom links)

/-- The locations that are looked at on the way to what a path leads to, which is the last of them. -/
def visits (fs : FileSystem) (path : Pathname) : List Location :=
  fs.visitsFrom maxLinks (startOf path.bytes fs.here) (components path.bytes)

def visitsLink (fs : FileSystem) : Nat → Place → List Component → List Location
  | 0, _, _ => []
  | links + 1, p, cs => fs.visitsFrom links p cs

def visitsEntry (fs : FileSystem) (links : Nat) (dir : Location) (name : Name)
    (cs : List Component) : Option Node → List Location
  | some (.dir _) => fs.visitsFrom links (.at (name :: dir)) cs
  | some (.link target) => fs.visitsLink links (startOf target (.at dir)) (components target ++ cs)
  | _ => []

@[simp]
theorem visitsFrom_nil : fs.visitsFrom links p [] = [] := by
  cases links <;> rfl

@[simp]
theorem visitsFrom_close : fs.visitsFrom links p (.close :: cs) = fs.visitsFrom links p cs := by
  cases links <;> rfl

theorem visitsFrom_here : fs.visitsFrom links p (.here :: cs) =
    p.visited ++
      match fs.enter p with
      | .ok () => fs.visitsFrom links p cs
      | .error _ => [] := by
  cases links <;> rfl

theorem visitsFrom_up : fs.visitsFrom links p (.up :: cs) =
    p.visited ++
      match fs.enter p with
      | .ok () => fs.visitsFrom links p.parent cs
      | .error _ => [] := by
  cases links <;> rfl

theorem visitsFrom_name {name : Name} : fs.visitsFrom links p (.name name :: cs) =
    p.visited ++
      match fs.enter p with
      | .error _ => []
      | .ok () =>
        match fs.lookup p name with
        | .error _ => []
        | .ok (dir, node?) => (name :: dir) :: fs.visitsEntry links dir name cs node? := by
  cases links <;> rfl

theorem visitsFrom_of_all_close (h : cs.all (· == .close) = true) :
    fs.visitsFrom links p cs = [] := by
  induction cs with
  | nil => exact visitsFrom_nil
  | cons c cs ih =>
    obtain ⟨rfl, hcs⟩ : c = .close ∧ cs.all (· == .close) = true := by simpa using h
    rw [visitsFrom_close]
    exact ih hcs

theorem enter_congr (hp : Place.Past lost p p')
    (hsame : ∀ loc ∈ p.visited, fs'.node? loc = fs.node? loc ∧ ∀ mode, ¬ lost loc mode) :
    p'.visited = p.visited ∧ fs'.enter p' = fs.enter p := by
  cases hp with
  | kept loc =>
    have := (hsame loc (by simp [Place.visited])).1
    unfold enter modeOf
    dsimp
    rw [this]
    exact ⟨rfl, rfl⟩
  | @lost loc mode q hl _ => exact absurd hl ((hsame loc (by simp [Place.visited])).2 mode)
  | removed _ => exact ⟨rfl, rfl⟩

theorem lookup_congr {name : Name} (hp : Place.Past lost p p')
    (hkept : ∀ loc ∈ p.visited, ∀ mode, ¬ lost loc mode)
    (hsame : ∀ dir node?, fs.lookup p name = .ok (dir, node?) →
      fs'.node? (name :: dir) = node?) : fs'.lookup p' name = fs.lookup p name := by
  cases hp with
  | kept dir =>
    unfold lookup at hsame ⊢
    dsimp at hsame ⊢
    split at hsame
    next h => rw [if_pos h, if_pos h]
    next h => rw [if_neg h, if_neg h, hsame dir _ rfl]
  | @lost loc mode q hl _ => exact absurd hl (hkept loc (by simp [Place.visited]) mode)
  | removed _ => rfl

theorem visitsEntry_of_isFile {dir : Location} {name : Name} {node? : Option Node}
    (h : ∀ node, node? = some node → node.isFile = true) :
    fs.visitsEntry links dir name cs node? = [] := by
  unfold visitsEntry
  match node?, h with
  | none, _ => rfl
  | some (.file f), _ => rfl
  | some (.dir mode), h => simpa [Node.isFile] using h _ rfl
  | some (.link target), h => simpa [Node.isFile] using h _ rfl

theorem enter_or_refused (hroutes : fs.RoutesIn fs') (hback : fs'.RoutesIn fs) (p : Place) :
    fs.enter p = .ok () ∧ fs'.enter p = .ok () ∨
      (∃ e, fs.enter p = .error e) ∧ ∃ e, fs'.enter p = .error e := by
  cases h : fs.enter p with
  | ok u => exact .inl ⟨rfl, enter_of_routesIn hroutes h⟩
  | error e =>
    cases h' : fs'.enter p with
    | ok u => simp [enter_of_routesIn hback h'] at h
    | error e' => exact .inr ⟨⟨e, rfl⟩, e', rfl⟩

theorem visitsFrom_of_routesIn (hroutes : fs.RoutesIn fs') (hback : fs'.RoutesIn fs) :
    fs'.visitsFrom links p cs = fs.visitsFrom links p cs := by
  induction links, p, cs using walk_induction with
  | nil links p => simp
  | close links p cs ih => simpa using ih
  | here links p cs ih =>
    rw [visitsFrom_here, visitsFrom_here]
    rcases enter_or_refused hroutes hback p with ⟨h, h'⟩ | ⟨⟨_, h⟩, _, h'⟩
    . rw [h, h', ih]
    . rw [h, h']
  | up links p cs ih =>
    rw [visitsFrom_up, visitsFrom_up]
    rcases enter_or_refused hroutes hback p with ⟨h, h'⟩ | ⟨⟨_, h⟩, _, h'⟩
    . rw [h, h', ih]
    . rw [h, h']
  | name links p name cs ihrest ihlink =>
    rw [visitsFrom_name, visitsFrom_name]
    rcases enter_or_refused hroutes hback p with ⟨h, h'⟩ | ⟨⟨_, h⟩, _, h'⟩
    rotate_left
    . rw [h, h']
    rw [h, h']
    dsimp only
    cases p with
    | removed mode q => rfl
    | «at» dir =>
    by_cases hfits : name.length ≤ maxNameLength
    rotate_left
    . have hlong (fs : FileSystem) : fs.lookup (.at dir) name = .error .nameTooLong :=
        if_pos (Nat.lt_of_not_le hfits)
      rw [hlong, hlong]
    have hlook (fs : FileSystem) :
        fs.lookup (.at dir) name = .ok (dir, fs.node? (name :: dir)) :=
      lookup_eq_ok.mpr ⟨rfl, hfits, rfl⟩
    rw [hlook, hlook]
    dsimp only
    -- Nothing and a file are the same to a walk that goes on, and all else is the same in both.
    have hfile (h : ∀ node, fs.node? (name :: dir) = some node → node.isFile = true) :
        ∀ node, fs'.node? (name :: dir) = some node → node.isFile = true := by
      intro node hnode
      cases hnot : node.isFile with
      | true => rfl
      | false => rw [← hnot, h node (hback _ _ hnode hnot)]
    cases hnode : fs.node? (name :: dir) with
    | none =>
      rw [visitsEntry_of_isFile (hfile (by simp [hnode])), visitsEntry_of_isFile (by simp)]
    | some node =>
      cases node with
      | file f =>
        rw [visitsEntry_of_isFile (hfile (by simp [hnode, Node.isFile])),
          visitsEntry_of_isFile (by simp [Node.isFile])]
      | dir mode =>
        rw [hroutes _ _ hnode rfl]
        unfold visitsEntry
        dsimp only
        rw [ihrest]
      | link target =>
        rw [hroutes _ _ hnode rfl]
        unfold visitsEntry
        dsimp only
        cases links with
        | zero => rfl
        | succ links =>
          have hlink := ihlink links rfl (startOf target (.at dir)) (components target ++ cs)
          exact congrArg (fun locs => dir :: (name :: dir) :: locs) hlink

def walkEntry (fs : FileSystem) (links : Nat) (dir : Location) (name : Name)
    (cs : List Component) (node? : Option Node) : Except Errno Arrival :=
  let isLast := cs.all (· == .close)
  let closed := isLast && !cs.isEmpty
  match node? with
  | none => if isLast then .ok (.entry dir name none closed) else .error .noEntry
  | some (.file f) =>
    if isLast then .ok (.entry dir name (some (.file f)) closed) else .error .notDirectory
  | some (.dir mode) =>
    if isLast then
      .ok (.entry dir name (some (.dir mode)) closed)
    else
      fs.walkFrom .follow links (.at (name :: dir)) cs
  | some (.link target) =>
    fs.walkLink .follow links (startOf target (.at dir)) (components target ++ cs)

theorem walkName_follow {name : Name} : fs.walkName .follow links p name cs =
    (fs.lookup p name >>= fun r => fs.walkEntry links r.1 name cs r.2) := by
  unfold walkName walkEntry
  cases cs.all (· == .close) <;> cases cs.isEmpty <;> rfl

/-- A walk that leads to an entry does so wherever all that it visits is the same. -/
theorem visitsFrom_congr (hp : Place.Past lost p p')
    (hsame : ∀ loc ∈ fs.visitsFrom links p cs,
      fs'.node? loc = fs.node? loc ∧ ∀ mode, ¬ lost loc mode) :
    fs'.visitsFrom links p' cs = fs.visitsFrom links p cs ∧
      ∀ dir name node? closed,
        fs.walkFrom .follow links p cs = .ok (.entry dir name node? closed) →
        fs'.walkFrom .follow links p' cs = .ok (.entry dir name node? closed) := by
  induction links, p, cs using walk_induction generalizing p' with
  | nil links p => simp
  | close links p cs ih => simpa using ih hp (by simpa using hsame)
  | here links p cs ih =>
    rw [visitsFrom_here] at hsame
    obtain ⟨hvisited, henter⟩ := enter_congr hp fun loc hl => hsame loc (by simp [hl])
    rw [visitsFrom_here, visitsFrom_here, walkFrom_here, walkFrom_here, hvisited, henter]
    cases he : fs.enter p with
    | error e => exact ⟨rfl, fun _ _ _ _ h => h⟩
    | ok u =>
      obtain ⟨hv, hw⟩ := ih hp fun loc hl => hsame loc (by simp [he, hl])
      exact ⟨congrArg (p.visited ++ ·) hv, hw⟩
  | up links p cs ih =>
    rw [visitsFrom_up] at hsame
    obtain ⟨hvisited, henter⟩ := enter_congr hp fun loc hl => hsame loc (by simp [hl])
    rw [visitsFrom_up, visitsFrom_up, walkFrom_up, walkFrom_up, hvisited, henter]
    cases he : fs.enter p with
    | error e => exact ⟨rfl, fun _ _ _ _ h => h⟩
    | ok u =>
      obtain ⟨hv, hw⟩ := ih hp.parent fun loc hl => hsame loc (by simp [he, hl])
      exact ⟨congrArg (p.visited ++ ·) hv, hw⟩
  | name links p name cs ihrest ihlink =>
    rw [visitsFrom_name] at hsame
    obtain ⟨hvisited, henter⟩ := enter_congr hp fun loc hl => hsame loc (by simp [hl])
    rw [visitsFrom_name, visitsFrom_name, walkFrom_name, walkFrom_name, hvisited, henter]
    cases he : fs.enter p with
    | error e => exact ⟨rfl, fun _ _ _ _ h => h⟩
    | ok u =>
    have hlook : fs'.lookup p' name = fs.lookup p name := by
      apply lookup_congr hp
      . exact fun loc hl => (hsame loc (by simp [hl])).2
      . intro dir node? hl
        obtain ⟨-, -, rfl⟩ := lookup_eq_ok.mp hl
        exact (hsame (name :: dir) (by simp [he, hl])).1
    show _ ∧ ∀ dir n node? closed, fs.walkName .follow links p name cs = _ →
      fs'.walkName .follow links p' name cs = _
    rw [walkName_follow, walkName_follow, hlook]
    cases hl : fs.lookup p name with
    | error e => exact ⟨rfl, fun _ _ _ _ h => h⟩
    | ok r =>
    obtain ⟨dir, node?⟩ := r
    have hentry : fs'.visitsEntry links dir name cs node? = fs.visitsEntry links dir name cs node? ∧
        ∀ d n x closed, fs.walkEntry links dir name cs node? = .ok (.entry d n x closed) →
          fs'.walkEntry links dir name cs node? = .ok (.entry d n x closed) := by
      have hsame' : ∀ loc ∈ fs.visitsEntry links dir name cs node?,
          fs'.node? loc = fs.node? loc ∧ ∀ mode, ¬ lost loc mode :=
        fun loc hmem => hsame loc (by simp [he, hl, hmem])
      unfold visitsEntry at hsame' ⊢
      unfold walkEntry
      match node?, hsame' with
      | none, _ => exact ⟨rfl, fun _ _ _ _ h => h⟩
      | some (.file f), _ => exact ⟨rfl, fun _ _ _ _ h => h⟩
      | some (.dir mode), hsame' =>
        obtain ⟨hv, hw⟩ := ihrest _ (.kept _) hsame'
        refine ⟨hv, fun d n x closed h => ?_⟩
        dsimp at h ⊢
        split at h
        next hlast => rw [if_pos hlast, h]
        next hlast =>
          rw [if_neg hlast]
          exact hw d n x closed h
      | some (.link target), hsame' =>
        cases links with
        | zero => exact ⟨rfl, fun _ _ _ _ h => h⟩
        | succ links => exact ihlink links rfl _ _ (startOf_past _ (.kept _)) hsame'
    exact ⟨congrArg (fun locs => p.visited ++ (name :: dir) :: locs) hentry.1, hentry.2⟩

theorem descend_of_visits (hp : Place.Past lost p p')
    (hsame : ∀ loc ∈ fs.visitsFrom links p cs,
      fs'.node? loc = fs.node? loc ∧ ∀ mode, ¬ lost loc mode) {l : Nat}
    (h : fs.descend links p cs = .ok (q, l)) :
    ∃ q', Place.Past lost q q' ∧ fs'.descend links p' cs = .ok (q', l) := by
  induction links, p, cs using walk_induction generalizing p' with
  | nil links p =>
    rw [descend_nil, Except.ok.injEq, Prod.mk.injEq] at h
    obtain ⟨rfl, rfl⟩ := h
    exact ⟨p', hp, descend_nil⟩
  | close links p cs ih => simpa using ih hp (by simpa using hsame) (by simpa using h)
  | here links p cs ih =>
    rw [visitsFrom_here] at hsame
    rw [descend_here, except_bind_eq_ok] at h
    obtain ⟨⟨⟩, henter, h⟩ := h
    rw [descend_here, (enter_congr hp fun loc hl => hsame loc (by simp [hl])).2, henter]
    exact ih hp (fun loc hl => hsame loc (by simp [henter, hl])) h
  | up links p cs ih =>
    rw [visitsFrom_up] at hsame
    rw [descend_up, except_bind_eq_ok] at h
    obtain ⟨⟨⟩, henter, h⟩ := h
    rw [descend_up, (enter_congr hp fun loc hl => hsame loc (by simp [hl])).2, henter]
    exact ih hp.parent (fun loc hl => hsame loc (by simp [henter, hl])) h
  | name links p name cs ihrest ihlink =>
    rw [visitsFrom_name] at hsame
    rw [descend_name, except_bind_eq_ok] at h
    obtain ⟨⟨⟩, henter, h⟩ := h
    rw [descend_name, (enter_congr hp fun loc hl => hsame loc (by simp [hl])).2, henter]
    show ∃ q', _ ∧ fs'.descendName links p' name cs = _
    unfold descendName at h ⊢
    rw [except_bind_eq_ok] at h
    obtain ⟨⟨dir, node?⟩, hlook, h⟩ := h
    have hlook' : fs'.lookup p' name = .ok (dir, node?) := by
      rw [← hlook]
      apply lookup_congr hp
      . exact fun loc hl => (hsame loc (by simp [hl])).2
      . intro dir node? hl
        obtain ⟨-, -, rfl⟩ := lookup_eq_ok.mp hl
        exact (hsame (name :: dir) (by simp [henter, hl])).1
    have hsame' : ∀ loc ∈ fs.visitsEntry links dir name cs node?,
        fs'.node? loc = fs.node? loc ∧ ∀ mode, ¬ lost loc mode :=
      fun loc hmem => hsame loc (by simp [henter, hlook, hmem])
    rw [hlook']
    match node?, h, hsame' with
    | some (.dir mode), h, hsame' => exact ihrest _ (.kept _) hsame' h
    | some (.link target), h, hsame' =>
      cases links with
      | zero => simp [descendLink] at h
      | succ links => exact ihlink links rfl _ _ (startOf_past _ (.kept _)) hsame' h

theorem visitsEntry_of_all_close {dir : Location} {name : Name} {node? : Option Node}
    (hall : cs.all (· == .close) = true) (hlink : ∀ target, node? ≠ some (.link target)) :
    fs.visitsEntry links dir name cs node? = [] := by
  unfold visitsEntry
  match node?, hlink with
  | none, _ => rfl
  | some (.file f), _ => rfl
  | some (.dir mode), _ => exact visitsFrom_of_all_close hall
  | some (.link target), hlink => exact absurd rfl (hlink target)

theorem visitsFrom_lookup {dir : Location} {name : Name} {node? : Option Node}
    (henter : fs.enter (.at dir) = .ok ()) (hlook : fs.lookup (.at dir) name = .ok (dir, node?)) :
    fs.visitsFrom links (.at dir) (.name name :: cs) =
      dir :: (name :: dir) :: fs.visitsEntry links dir name cs node? := by
  rw [visitsFrom_name, henter, hlook]
  rfl

theorem node?_of_mem_visited {loc : Location} (henter : fs.enter p = .ok ())
    (hloc : loc ∈ p.visited) : ∃ mode, fs.node? loc = some (.dir mode) := by
  obtain ⟨mode, hmode, -⟩ := enter_eq_ok.mp henter
  cases p with
  | removed => simp [Place.visited] at hloc
  | «at» d =>
    obtain rfl : loc = d := by simpa [Place.visited] using hloc
    exact ⟨mode, modeOf_at_eq_ok.mp hmode⟩

theorem descend_passes {r : Place × Nat} {loc : Location} (h : fs.descend links p cs = .ok r)
    (hloc : loc ∈ fs.visitsFrom links p cs) :
    (∃ mode, fs.node? loc = some (.dir mode)) ∨
      ∃ name dir target, loc = name :: dir ∧ fs.node? (name :: dir) = some (.link target) ∧
        ∃ l q, fs.descend l (startOf target (.at dir)) (components target) = .ok q := by
  induction links, p, cs using walk_induction with
  | nil links p => simp at hloc
  | close links p cs ih => exact ih (by simpa using h) (by simpa using hloc)
  | here links p cs ih =>
    rw [descend_here, except_bind_eq_ok] at h
    obtain ⟨⟨⟩, henter, h⟩ := h
    rw [visitsFrom_here, henter] at hloc
    rcases List.mem_append.mp hloc with hloc | hloc
    . exact .inl (node?_of_mem_visited henter hloc)
    . exact ih h hloc
  | up links p cs ih =>
    rw [descend_up, except_bind_eq_ok] at h
    obtain ⟨⟨⟩, henter, h⟩ := h
    rw [visitsFrom_up, henter] at hloc
    rcases List.mem_append.mp hloc with hloc | hloc
    . exact .inl (node?_of_mem_visited henter hloc)
    . exact ih h hloc
  | name links p name cs ihrest ihlink =>
    rw [descend_name, except_bind_eq_ok] at h
    obtain ⟨⟨⟩, henter, h⟩ := h
    unfold descendName at h
    rw [except_bind_eq_ok] at h
    obtain ⟨⟨dir, node?⟩, hlook, h⟩ := h
    obtain ⟨rfl, -, hnode⟩ := lookup_eq_ok.mp hlook
    rw [visitsFrom_lookup henter hlook] at hloc
    rcases List.mem_cons.mp hloc with hloc | hloc
    . exact .inl (node?_of_mem_visited henter (by simp [Place.visited, hloc]))
    match node?, h, hloc, hnode with
    | some (.dir mode), h, hloc, hnode =>
      rcases List.mem_cons.mp hloc with rfl | hloc
      . exact .inl ⟨mode, hnode⟩
      . exact ihrest _ h hloc
    | some (.link target), h, hloc, hnode =>
      cases links with
      | zero => simp [descendLink] at h
      | succ links =>
        replace h : fs.descend links (startOf target (.at dir)) (components target ++ cs) = .ok r := h
        rcases List.mem_cons.mp hloc with rfl | hloc
        . rw [descend_append, except_bind_eq_ok] at h
          obtain ⟨q, hq, -⟩ := h
          exact .inr ⟨name, dir, target, rfl, hnode, links, q, hq⟩
        . exact ihlink links rfl _ _ h hloc

section Arrives

variable {ending : Ending} {dir loc : Location} {name : Name} {node? : Option Node} {closed : Bool}

theorem Arrives.mem_visitsFrom (h : fs.Arrives ending dir name node? closed links p cs) :
    name :: dir ∈ fs.visitsFrom links p cs := by
  induction h with
  | close _ ih => simpa using ih
  | here henter _ ih => simp [visitsFrom_here, henter, ih]
  | up henter _ ih => simp [visitsFrom_up, henter, ih]
  | ends henter hlook => simp [visitsFrom_lookup henter hlook]
  | through henter hlook _ _ ih => simp [visitsFrom_lookup henter hlook, visitsEntry, ih]
  | link henter hlook _ _ ih => simp [visitsFrom_lookup henter hlook, visitsEntry, visitsLink, ih]

theorem Arrives.node?_eq (h : fs.Arrives ending dir name node? closed links p cs) :
    fs.node? (name :: dir) = node? := by
  induction h with
  | close _ ih => exact ih
  | here _ _ ih => exact ih
  | up _ _ ih => exact ih
  | ends _ hlook => exact (lookup_eq_ok.mp hlook).2.2
  | through _ _ _ _ ih => exact ih
  | link _ _ _ _ ih => exact ih

theorem Arrives.getLast?_eq (h : fs.Arrives ending dir name node? false links p cs) :
    ∃ n, cs.getLast? = some (.name n) := by
  have hgrow {c : Component} {cs : List Component} (hlast : ∃ n, cs.getLast? = some (.name n)) :
      ∃ n, (c :: cs).getLast? = some (.name n) := by
    obtain ⟨n, hlast⟩ := hlast
    exact ⟨n, by rw [List.getLast?_cons, hlast, Option.getD_some]⟩
  induction h with
  | close _ ih => exact hgrow ih
  | here _ _ ih => exact hgrow ih
  | up _ _ ih => exact hgrow ih
  | ends _ _ _ hclosed =>
    obtain rfl := List.isEmpty_iff.mp (by simpa using hclosed)
    exact ⟨_, rfl⟩
  | through _ _ _ _ ih => exact hgrow ih
  | @link links d n target cs _ _ _ _ ih =>
    cases cs with
    | nil => exact ⟨n, rfl⟩
    | cons c cs =>
      have hsome := List.getLast?_eq_some_getLast (List.cons_ne_nil c cs)
      rw [List.getLast?_append, hsome, Option.some_or, ← hsome] at ih
      exact hgrow ih

theorem Arrives.isRoute (h : fs.Arrives .follow dir name node? closed links p cs)
    (hloc : loc ∈ fs.visitsFrom links p cs) :
    loc = name :: dir ∨ ∃ node, fs.node? loc = some node ∧ node.isFile = false := by
  have hvisited {p : Place} (henter : fs.enter p = .ok ()) (hmem : loc ∈ p.visited) :
      ∃ node, fs.node? loc = some node ∧ node.isFile = false := by
    obtain ⟨mode, hmode⟩ := node?_of_mem_visited henter hmem
    exact ⟨.dir mode, hmode, rfl⟩
  induction h with
  | close _ ih => exact ih (by simpa using hloc)
  | here henter _ ih =>
    rw [visitsFrom_here, henter] at hloc
    rcases List.mem_append.mp hloc with hloc | hloc
    . exact .inr (hvisited henter hloc)
    . exact ih hloc
  | up henter _ ih =>
    rw [visitsFrom_up, henter] at hloc
    rcases List.mem_append.mp hloc with hloc | hloc
    . exact .inr (hvisited henter hloc)
    . exact ih hloc
  | ends henter hlook hall _ _ hlink =>
    rw [visitsFrom_lookup henter hlook, visitsEntry_of_all_close hall] at hloc
    rotate_left
    . exact fun target htarget => by simpa using hlink target htarget
    rcases List.mem_cons.mp hloc with hloc | hloc
    . exact .inr (hvisited henter (by simp [Place.visited, hloc]))
    . exact .inl (by simpa using hloc)
  | through henter hlook _ _ ih =>
    rw [visitsFrom_lookup henter hlook] at hloc
    rcases List.mem_cons.mp hloc with hloc | hloc
    . exact .inr (hvisited henter (by simp [Place.visited, hloc]))
    rcases List.mem_cons.mp hloc with rfl | hloc
    . exact .inr ⟨_, (lookup_eq_ok.mp hlook).2.2, rfl⟩
    . exact ih hloc
  | link henter hlook _ _ ih =>
    rw [visitsFrom_lookup henter hlook] at hloc
    rcases List.mem_cons.mp hloc with hloc | hloc
    . exact .inr (hvisited henter (by simp [Place.visited, hloc]))
    rcases List.mem_cons.mp hloc with rfl | hloc
    . exact .inr ⟨_, (lookup_eq_ok.mp hlook).2.2, rfl⟩
    . exact ih hloc

end Arrives

theorem find_eq_file {loc : Location} {f : RegularFile} :
    fs.find path = .ok (.file loc f) ↔ ∃ dir name, loc = name :: dir ∧
      fs.walk .follow path = .ok (.entry dir name (some (.file f)) false) := by
  unfold find
  rw [except_bind_eq_ok]
  constructor
  . rintro ⟨a, ha, h⟩
    split at h
    next => simp at h
    next => simp at h
    next =>
      split at h
      . simp at h
      . simp_all
    next => simp at h
    next => simp at h
  . rintro ⟨dir, name, rfl, h⟩
    exact ⟨_, h, rfl⟩

theorem exists_last_name {loc : Location} {f : RegularFile}
    (h : fs.find path = .ok (.file loc f)) :
    ∃ name, (components path.bytes).getLast? = some (.name name) := by
  obtain ⟨dir, name, -, hwalk⟩ := find_eq_file.mp h
  exact (arrives_of_walkFrom (walk_eq_ok.mp hwalk).2).getLast?_eq

theorem openForReading_eq_ok {found : Found} (h : fs.openForReading path = .ok found) :
    fs.find path = .ok found := by
  unfold openForReading at h
  rw [except_bind_eq_ok] at h
  obtain ⟨found', hfind, h⟩ := h
  rw [hfind]
  cases found' with
  | dir q =>
    simp only [except_bind_eq_ok] at h
    obtain ⟨mode, -, h⟩ := h
    split at h
    . exact h
    . simp at h
  | file loc f =>
    simp only [except_bind_eq_ok] at h
    obtain ⟨mode, -, h⟩ := h
    split at h
    . exact h
    . simp at h

theorem openForReading_file (h : fs.find path = .ok (.file loc f)) :
    fs.openForReading path =
      if f.mode.canRead then .ok (.file loc f) else .error (.refused .accessDenied) := by
  unfold openForReading
  rw [h]
  rfl

theorem readFile_file (h : fs.find path = .ok (.file loc f)) :
    fs.readFile path = if f.mode.canRead then .ok f.data else .error (.refused .accessDenied) := by
  unfold readFile
  rw [openForReading_file h]
  cases f.mode.canRead <;> rfl

theorem canRead_of_readFile (h : fs.find path = .ok (.file loc f))
    (hread : (fs.readFile path).isOk = true) : f.mode.canRead = true := by
  rw [readFile_file h] at hread
  cases hmode : f.mode.canRead with
  | true => rfl
  | false => simp [hmode, Except.isOk, Except.toBool] at hread

theorem mem_visits_of_find {loc : Location} {f : RegularFile}
    (h : fs.find path = .ok (.file loc f)) :
    loc ∈ fs.visits path ∧ fs.node? loc = some (.file f) := by
  obtain ⟨dir, name, rfl, hwalk⟩ := find_eq_file.mp h
  have harrives := arrives_of_walkFrom (walk_eq_ok.mp hwalk).2
  exact ⟨harrives.mem_visitsFrom, harrives.node?_eq⟩

theorem find_of_visits (hhere : Place.Past lost fs.here fs'.here)
    (hsame : ∀ loc ∈ fs.visits path, fs'.node? loc = fs.node? loc ∧ ∀ mode, ¬ lost loc mode) :
    fs'.visits path = fs.visits path ∧ ∀ loc f, fs.find path = .ok (.file loc f) →
      fs'.find path = .ok (.file loc f) := by
  obtain ⟨hv, hw⟩ := visitsFrom_congr (startOf_past path.bytes hhere) hsame
  refine ⟨hv, fun loc f h => ?_⟩
  obtain ⟨dir, name, rfl, hwalk⟩ := find_eq_file.mp h
  obtain ⟨hwalkable, hwalk⟩ := walk_eq_ok.mp hwalk
  exact find_eq_file.mpr ⟨dir, name, rfl, walk_eq_ok.mpr ⟨hwalkable, hw _ _ _ _ hwalk⟩⟩

end FileSystem

end BootCard
