import BootCard.Proofs.Card.Clearing
import BootCard.Proofs.Disk.Emptying
import Mathlib.Data.List.Sort

/-!
This module contains what the tally of a clearing tells. Every entry of the card is counted once,
and if the card is still there at the end, the failures are the entries that are left over.
-/

namespace BootCard

namespace FileSystem

variable {fs fs' : FileSystem} {order : ListingOrder} {card path : Pathname} {p q : Place}
variable {root dir : Location} {name : Name} {mode : Mode}

theorem names_eq_filter
    (h : ∀ name, (fs'.node? (name :: dir)).isSome → (fs.node? (name :: dir)).isSome) :
    fs'.names dir = (fs.names dir).filter fun name => (fs'.node? (name :: dir)).isSome := by
  have hirrefl : Std.Irrefl fun a b : Name => compare a b = .lt :=
    ⟨fun a => by simp [Std.ReflOrd.compare_self]⟩
  have hantisymm : Std.Antisymm fun a b : Name => compare a b = .lt := by
    refine ⟨fun a b hab hba => ?_⟩
    rw [Std.OrientedOrd.eq_swap, hba] at hab
    simp at hab
  apply (names_sorted fs' dir).eq_of_mem_iff ((names_sorted fs dir).filter _)
  intro name
  rw [List.mem_filter, mem_names_iff, mem_names_iff]
  exact ⟨fun hsome => ⟨h name hsome, hsome⟩, fun hmem => hmem.2⟩

theorem node?_of_mem_entries {entry : Name × Node} (h : entry ∈ fs.entries order dir) :
    fs.node? (entry.1 :: dir) = some entry.2 := by
  obtain ⟨name, -, hentry⟩ := List.mem_filterMap.mp h
  obtain ⟨node, hnode, rfl⟩ := Option.map_eq_some_iff.mp hentry
  exact hnode

theorem entries_of_listDir {entries : List (Name × Node)}
    (hfind : fs.find path = .ok (.dir (.at dir))) (h : fs.listDir order path = .ok entries) :
    entries = fs.entries order dir := by
  obtain ⟨q, hq, ⟨_, _, rfl, -⟩ | ⟨_, rfl, rfl⟩⟩ := listDir_eq_ok h
  . simp [hfind] at hq
  . obtain rfl : dir = _ := by simpa [hfind] using hq
    rfl

theorem listDir_of_isOpen (hfind : fs.find path = .ok (.dir (.at dir)))
    (hnode : fs.node? dir = some (.dir mode)) (hopen : fs.IsOpen dir) :
    fs.listDir order path = .ok (fs.entries order dir) := by
  unfold listDir openForReading
  rw [hfind]
  simp only [bind, Except.bind, modeOf_at_eq_ok.mpr hnode, Except.mapError,
    (hopen [] mode hnode).1, if_true]

theorem names_nodup (fs : FileSystem) (dir : Location) : (fs.names dir).Nodup := by
  have hirrefl : Std.Irrefl fun a b : Name => compare a b = .lt :=
    ⟨fun a => by simp [Std.ReflOrd.compare_self]⟩
  exact (names_sorted fs dir).nodup

theorem eq_of_past_isLost (h : Place.Past (fs.IsLost p) p q) : q = p := by
  cases p with
  | «at» root =>
    cases h with
    | kept => rfl
    | lost hlost _ => exact absurd hlost.1 (by simp [Place.not_holds_self])
  | removed m r =>
    have hnever (loc : Location) (mode : Mode) : ¬ fs.IsLost (.removed m r) loc mode :=
      fun hlost => absurd hlost.1 (by simp [Place.holds])
    exact (h.mono hnever).eq_of_never.symm

theorem Shrunk.find_dir (h : Shrunk p fs fs') (hfind : fs.find path = .ok (.dir p))
    (hway : ∀ loc ∈ fs.visits path, p.holds loc = false) : fs'.find path = .ok (.dir p) := by
  obtain ⟨hwalkable, l, hreach⟩ := find_eq_dir.mp hfind
  unfold FileSystem.reach at hreach
  rw [← descend_components] at hreach
  obtain ⟨q, hq, hreach'⟩ := descend_of_visits (startOf_past path.bytes h.here)
    (fun loc hloc => ⟨h.node?_of_not_holds (hway loc hloc), fun mode hlost => by
      simpa [hway loc hloc] using hlost.1⟩) hreach
  obtain rfl := eq_of_past_isLost hq
  rw [descend_components] at hreach'
  exact find_eq_dir.mpr ⟨hwalkable, l, hreach'⟩

end FileSystem

namespace Session

open FileSystem

variable {order : ListingOrder} {fs fs' : FileSystem} {card : Pathname} {p : Place}
variable {root : Location} {name : Name} {α β : Type} {e : IoError}

theorem start_bind_eq_error {x : Session α} {f : α → Session β} :
    (x >>= f).start fs = (.error e, fs') ↔ x.start fs = (.error e, fs') ∨
      ∃ a fs₁, x.start fs = (.ok a, fs₁) ∧ (f a).start fs₁ = (.error e, fs') := by
  rw [start_bind]
  rcases x.start fs with ⟨r, fs₁⟩
  cases r <;> simp [and_assoc]

theorem change_eq_error {op : FileSystem → Except IoError FileSystem}
    (h : (change op).start fs = (.error e, fs')) : fs' = fs := by
  rw [start_change] at h
  split at h
  . simp at h
  . exact (Prod.mk.inj h).2.symm

theorem removeEntry_eq_error {isDir : Bool} (hcard : fs.HadCard card p) (hname : name.IsProper)
    (h : (Clearing.removeEntry order (card / Pathname.mk name) isDir).start fs = (.error e, fs')) :
    fs' = fs ∨ ∃ root, p = .at root ∧ Shrunk (.at (name :: root)) fs fs' := by
  unfold Clearing.removeEntry at h
  split at h
  next =>
    rw [removeTree_eq, start_bind_eq_error] at h
    rcases h with h | ⟨node, _, hask, h⟩
    . exact .inl (Prod.mk.inj h).2.symm
    obtain ⟨hentry, rfl⟩ := Prod.mk.inj hask
    match node, hentry with
    | .link _, _ => exact .inl (change_eq_error h)
    | .file _, _ => exact .inl (Prod.mk.inj h).2.symm
    | .dir mode, hentry =>
      unfold removeFoundDir at h
      rw [start_bind_eq_error] at h
      rcases h with h | ⟨found, _, hask, h⟩
      . exact .inl (Prod.mk.inj h).2.symm
      obtain ⟨hread, rfl⟩ := Prod.mk.inj hask
      obtain ⟨root, rfl, -, -, rfl⟩ := openForReading_entry hcard hname hentry hread
      refine .inr ⟨root, rfl, ?_⟩
      have hempty : Shrunk (.at (name :: root)) fs
          ((emptyFound order (.dir (.at (name :: root)))).start fs).2 := emptyDir_shrunk
      rw [start_bind_eq_error] at h
      rcases h with h | ⟨_, fs₁, hemptied, h⟩
      . rwa [h] at hempty
      . rw [hemptied] at hempty
        -- What is left is the removal of the directory itself, which has been refused.
        rw [start_orElse, start_change] at h
        cases hremove : fs₁.removeDir (card / Pathname.mk name) with
        | ok fs₂ => simp [hremove] at h
        | error e' =>
          rw [hremove] at h
          unfold unlessMissing at h
          dsimp only at h
          split at h
          . simp at h
          . obtain ⟨-, rfl⟩ := Prod.mk.inj h
            exact hempty
  next => exact .inl (change_eq_error h)

theorem removeFile_of_isOpen {node : Node} (hcard : card.bytes ≠ []) (hname : name.IsProper)
    (hisEntry : fs.IsEntry card root name) (hwritable : fs.writable root = .ok ())
    (hnode : fs.node? (name :: root) = some node) (hfile : node.isDir = false) :
    fs.removeFile (card / Pathname.mk name) = .ok (fs.erase (name :: root)) := by
  unfold removeFile
  rw [hisEntry.walk_eq hcard hname, hnode]
  simp only [bind, Except.bind, hwritable, hfile, Bool.false_eq_true, if_false]

theorem removeDir_of_isBare {mode : Mode} (hcard : card.bytes ≠ []) (hname : name.IsProper)
    (hisEntry : fs.IsEntry card root name) (hwritable : fs.writable root = .ok ())
    (hnode : fs.node? (name :: root) = some (.dir mode)) (hbare : fs.IsBare (.at (name :: root))) :
    fs.removeDir (card / Pathname.mk name) = .ok (fs.eraseDir (name :: root) mode) := by
  have hnone : fs.names (name :: root) = [] := by
    apply List.eq_nil_iff_forall_not_mem.mpr
    intro n hn
    simp [mem_names_iff, hbare _ (Place.holds_cons n)] at hn
  unfold removeDir
  rw [hisEntry.walk_eq hcard hname, hnode]
  simp only [bind, Except.bind, hwritable, hnone, if_true]

theorem removeTree_of_isOpen {l : Nat} {mode : Mode} {r : Except IoError Unit}
    (hcard : card.bytes ≠ []) (hroot : fs.Rooted) (hname : name.IsProper)
    (hisEntry : fs.IsEntry card root name) (hopen : fs.IsOpen root)
    (hnode : fs.node? (name :: root) = some (.dir mode))
    (h : (removeTree order (card / Pathname.mk name)).start fs = (r, fs'))
    (hreach : fs'.reach card = .ok (.at root, l)) : r = .ok () := by
  have hentry : fs.entryAt (card / Pathname.mk name) = .ok (.dir mode) := by
    unfold entryAt
    rw [hisEntry.walk_eq hcard hname, hnode]
    rfl
  have hread : fs.openForReading (card / Pathname.mk name) = .ok (.dir (.at (name :: root))) := by
    unfold openForReading
    rw [hisEntry.find_dir hcard hname hnode]
    simp only [bind, Except.bind, modeOf_at_eq_ok.mpr hnode, Except.mapError,
      ((hopen.child name) [] mode hnode).1, if_true]
  obtain ⟨fs₁, hempty⟩ := emptyDir_of_isOpen (hopen.child name) hnode (hroot.isShallow_size _)
  obtain ⟨-, hbare⟩ := emptyDir_eq_ok hroot hempty
  have hshrunk : Shrunk (.at (name :: root)) fs fs₁ := by
    have : Shrunk (.at (name :: root)) fs ((emptyDir order fs.nodes.size (name :: root)).start fs).2 :=
      emptyDir_shrunk
    rwa [hempty] at this
  have hfound : (emptyFound order (.dir (.at (name :: root)))).start fs = (.ok (), fs₁) := hempty
  have hremove : (removeTree order (card / Pathname.mk name)).start fs =
      ((change (·.removeDir (card / Pathname.mk name))).orElse unlessMissing).start fs₁ := by
    rw [removeTree_eq, start_bind, start_ask, hentry]
    show (removeFoundDir order _).start fs = _
    unfold removeFoundDir
    rw [start_bind, start_ask, hread]
    show (_ >>= fun _ => _ : Session Unit).start fs = _
    rw [start_bind, hfound]
  rw [hremove, start_orElse, start_change] at h
  cases hremoved : fs₁.removeDir (card / Pathname.mk name) with
  | ok fs₂ =>
    rw [hremoved] at h
    exact (Prod.mk.inj h).1.symm
  | error e =>
    rw [hremoved] at h
    -- The card is where it was, so that nothing stands against removing the directory.
    have hdisk : fs' = fs₁ := by
      dsimp only at h
      unfold unlessMissing at h
      split at h <;> exact (Prod.mk.inj h).2.symm
    rw [hdisk] at hreach
    obtain ⟨m, hm⟩ := hroot name root (by simp [hnode])
    have hm₁ : fs₁.node? root = some (.dir m) := by
      rw [hshrunk.node?_of_not_holds (Place.not_holds_tail name), hm]
    have hwritable := (hopen.of_shrunk hshrunk).writable_eq_ok hm₁
    have hnode₁ : fs₁.node? (name :: root) = some (.dir mode) := by
      rw [hshrunk.node?_of_not_holds Place.not_holds_self, hnode]
    have hisEntry₁ := hisEntry.of_shrunk hshrunk (Place.not_holds_tail name) hreach
    simp [removeDir_of_isBare hcard hname hisEntry₁ hwritable hnode₁ hbare] at hremoved

theorem removeEntry_of_isOpen {l : Nat} {node : Node} {r : Except IoError Unit}
    (hcard : card.bytes ≠ []) (hroot : fs.Rooted) (hname : name.IsProper)
    (hisEntry : fs.IsEntry card root name) (hopen : fs.IsOpen root)
    (hnode : fs.node? (name :: root) = some node)
    (h : (Clearing.removeEntry order (card / Pathname.mk name) node.isDir).start fs = (r, fs'))
    (hreach : fs'.reach card = .ok (.at root, l)) : r = .ok () := by
  obtain ⟨m, hm⟩ := hroot name root (by simp [hnode])
  have hfile (hdir : node.isDir = false) : r = .ok () := by
    unfold Clearing.removeEntry at h
    rw [hdir, if_neg (by simp), start_change, removeFile_of_isOpen hcard hname hisEntry
      (hopen.writable_eq_ok hm) hnode hdir] at h
    exact (Prod.mk.inj h).1.symm
  cases node with
  | file f => exact hfile rfl
  | link target => exact hfile rfl
  | dir mode => exact removeTree_of_isOpen hcard hroot hname hisEntry hopen hnode h hreach

end Session

namespace Clearing

open FileSystem

variable {w w' : World} {order : ListingOrder} {card : Pathname} {p : Place} {root : Location}
variable {tally tally' : Tally} {entry : Name × Node} {entries : List (Name × Node)}

/-! The tally of the entries. -/

theorem clearEntry_eq_ok (h : (clearEntry order card tally entry).start w = (.ok tally', w')) :
    ∃ r, (removeEntry order (card / Pathname.mk entry.1) entry.2.isDir).start w.disk = (r, w'.disk) ∧
      (r = .ok () ∧ tally' = { tally with removed := tally.removed + 1 } ∨
        (∃ e, r = .error e) ∧
          tally' = { tally with failed := tally.failed ++ [card / Pathname.mk entry.1] }) := by
  unfold clearEntry at h
  dsimp only at h
  rw [Action.start_bind, Action.start_attempt] at h
  generalize (removeEntry order (card / Pathname.mk entry.1) entry.2.isDir).start w.disk = removed at h
  obtain ⟨r, fs⟩ := removed
  cases r with
  | ok u =>
    obtain ⟨htally, rfl⟩ := Prod.mk.inj h
    obtain rfl := Except.ok.inj htally
    exact ⟨.ok u, rfl, .inl ⟨rfl, rfl⟩⟩
  | error e =>
    obtain ⟨htally, rfl⟩ := Prod.mk.inj h
    obtain rfl := Except.ok.inj htally
    exact ⟨.error e, rfl, .inr ⟨⟨e, rfl⟩, rfl⟩⟩

theorem foldlM_clearEntry_counts
    (h : (entries.foldlM (clearEntry order card) tally).start w = (.ok tally', w')) :
    tally'.removed + tally'.failed.length =
      tally.removed + tally.failed.length + entries.length := by
  induction entries generalizing w tally with
  | nil =>
    obtain ⟨htally, -⟩ := Prod.mk.inj h
    rw [← Except.ok.inj htally]
    rfl
  | cons entry entries ih =>
    rw [List.foldlM_cons, Action.start_bind_eq_ok] at h
    obtain ⟨tally₁, w₁, hentry, hrest⟩ := h
    rw [ih hrest, List.length_cons]
    obtain ⟨_, -, ⟨-, rfl⟩ | ⟨-, rfl⟩⟩ := clearEntry_eq_ok hentry
    . dsimp only
      omega
    . simp only [List.length_append, List.length_singleton]
      omega

structure Awaits (fs : FileSystem) (card : Pathname) (root : Location)
    (entries : List (Name × Node)) : Prop where
  card : fs.HadCard card (.at root)
  rooted : fs.Rooted
  proper : ∀ entry ∈ entries, entry.1.IsProper
  distinct : (entries.map (·.1)).Nodup
  there : ∀ entry ∈ entries, fs.node? (entry.1 :: root) = some entry.2

theorem Awaits.of_trimmed {fs fs' : FileSystem} (h : Awaits fs card root (entry :: entries))
    (htrimmed : Trimmed (.at root) entry.1 fs fs') : Awaits fs' card root entries where
  card := htrimmed.shrunk.hadCard h.card
  rooted := htrimmed.rooted h.rooted
  proper e he := h.proper e (by simp [he])
  distinct := (List.nodup_cons.mp h.distinct).2
  there e he := by
    have hne : e.1 ≠ entry.1 := by
      intro heq
      exact (List.nodup_cons.mp h.distinct).1 (List.mem_map.mpr ⟨e, he, heq⟩)
    rw [htrimmed.others root e.1 rfl hne]
    exact h.there e (by simp [he])

theorem Awaits.clearEntry_trims (h : Awaits w.disk card root (entry :: entries))
    (hentry : (clearEntry order card tally entry).start w = (.ok tally', w')) :
    Trimmed (.at root) entry.1 w.disk w'.disk := by
  obtain ⟨r, hremove, -⟩ := clearEntry_eq_ok hentry
  have htrimmed : Trimmed (.at root) entry.1 w.disk
      ((removeEntry order (card / Pathname.mk entry.1) entry.2.isDir).start w.disk).2 :=
    Session.removeEntry_trims (h.proper entry (by simp)) h.card
  rwa [hremove] at htrimmed

theorem Awaits.foldlM_shrinks (h : Awaits w.disk card root entries)
    (hfold : (entries.foldlM (clearEntry order card) tally).start w = (.ok tally', w')) :
    Shrunk (.at root) w.disk w'.disk := by
  have hshrunk : Shrunk (.at root) w.disk
      ((entries.foldlM (clearEntry order card) tally).start w).2.disk :=
    foldlM_clearEntry_shrinks h.proper h.card
  rwa [hfold] at hshrunk

theorem Awaits.foldlM_keeps {n : Name} (h : Awaits w.disk card root entries)
    (hn : n ∉ entries.map (·.1))
    (hfold : (entries.foldlM (clearEntry order card) tally).start w = (.ok tally', w')) :
    w'.disk.node? (n :: root) = w.disk.node? (n :: root) := by
  induction entries generalizing w tally with
  | nil => rw [← (Prod.mk.inj hfold).2]
  | cons entry entries ih =>
    rw [List.foldlM_cons, Action.start_bind_eq_ok] at hfold
    obtain ⟨tally₁, w₁, hentry, hrest⟩ := hfold
    rw [List.map_cons, List.mem_cons, not_or] at hn
    have htrimmed := h.clearEntry_trims hentry
    rw [ih (h.of_trimmed htrimmed) hn.2 hrest, htrimmed.others root n rfl hn.1]

theorem reach_of_shrunk {fs fs' : FileSystem} {l : Nat} (h : Shrunk (.at root) fs fs')
    (hreach : fs'.reach card = .ok (.at root, l)) : fs.reach card = .ok (.at root, l) := by
  obtain ⟨q, hq, hreach'⟩ := h.reach hreach
  cases hq
  exact hreach'

theorem foldlM_clearEntry_fails {l : Nat} (hawaits : Awaits w.disk card root entries)
    (h : (entries.foldlM (clearEntry order card) tally).start w = (.ok tally', w'))
    (hreach : w'.disk.reach card = .ok (.at root, l)) :
    w'.disk.Rooted ∧ tally'.failed = tally.failed ++ ((entries.map (·.1)).filter fun name =>
      (w'.disk.node? (name :: root)).isSome).map fun name => card / Pathname.mk name := by
  induction entries generalizing w tally with
  | nil =>
    obtain ⟨htally, rfl⟩ := Prod.mk.inj h
    obtain rfl := Except.ok.inj htally
    exact ⟨hawaits.rooted, by simp⟩
  | cons entry entries ih =>
    rw [List.foldlM_cons, Action.start_bind_eq_ok] at h
    obtain ⟨tally₁, w₁, hentry, hrest⟩ := h
    have hawaits₁ := hawaits.of_trimmed (hawaits.clearEntry_trims hentry)
    obtain ⟨hroot', hfailed⟩ := ih hawaits₁ hrest
    refine ⟨hroot', ?_⟩
    have hname := hawaits.proper entry (by simp)
    have hshrunk := hawaits₁.foldlM_shrinks hrest
    have hreach₁ := reach_of_shrunk hshrunk hreach
    rw [hfailed, List.map_cons, List.filter_cons]
    obtain ⟨r, hremove, ⟨rfl, rfl⟩ | ⟨⟨e, rfl⟩, rfl⟩⟩ := clearEntry_eq_ok hentry
    . have hgone := hshrunk.node?_eq_none
        (Session.removeEntry_gone hawaits.card hname hreach₁ hremove)
      simp [hgone]
    . have hleft : w₁.disk.node? (entry.1 :: root) = some entry.2 := by
        rw [← hawaits.there entry (by simp)]
        rcases Session.removeEntry_eq_error hawaits.card hname hremove with
          hsame | ⟨_, ⟨⟩, hbeneath⟩
        . rw [hsame]
        . exact hbeneath.node?_of_not_holds Place.not_holds_self
      have hkept := hawaits₁.foldlM_keeps (List.nodup_cons.mp hawaits.distinct).1 hrest
      simp [hkept, hleft]

theorem Awaits.isEntry {l : Nat} {fs : FileSystem} (h : Awaits fs card root (entry :: entries))
    (hopen : fs.IsOpen root) (hreach : fs.reach card = .ok (.at root, l))
    (hwalkable : (card / Pathname.mk entry.1).IsWalkable)
    (hfits : entry.1.length ≤ maxNameLength) : fs.IsEntry card root entry.1 where
  reaches := ⟨l, hreach⟩
  walkable := hwalkable
  enters := by
    obtain ⟨mode, hmode⟩ := h.rooted entry.1 root (by simp [h.there entry (by simp)])
    exact hopen.enter_eq_ok hmode
  fits := hfits

theorem foldlM_clearEntry_of_isOpen {l : Nat} (hawaits : Awaits w.disk card root entries)
    (hopen : w.disk.IsOpen root)
    (hfits : ∀ entry ∈ entries, (card / Pathname.mk entry.1).IsWalkable ∧
      entry.1.length ≤ maxNameLength)
    (h : (entries.foldlM (clearEntry order card) tally).start w = (.ok tally', w'))
    (hreach : w'.disk.reach card = .ok (.at root, l)) : tally'.failed = tally.failed := by
  induction entries generalizing w tally with
  | nil =>
    obtain ⟨htally, -⟩ := Prod.mk.inj h
    rw [← Except.ok.inj htally]
  | cons entry entries ih =>
    rw [List.foldlM_cons, Action.start_bind_eq_ok] at h
    obtain ⟨tally₁, w₁, hentry, hrest⟩ := h
    have htrimmed := hawaits.clearEntry_trims hentry
    have hawaits₁ := hawaits.of_trimmed htrimmed
    have hreach₁ := reach_of_shrunk (hawaits₁.foldlM_shrinks hrest) hreach
    obtain ⟨hwalkable, hlength⟩ := hfits entry (by simp)
    have hisEntry := hawaits.isEntry hopen (reach_of_shrunk htrimmed.shrunk hreach₁) hwalkable
      hlength
    rw [ih hawaits₁ (hopen.of_shrunk htrimmed.shrunk) (fun e he => hfits e (by simp [he])) hrest]
    obtain ⟨r, hremove, ⟨-, rfl⟩ | ⟨⟨e, rfl⟩, -⟩⟩ := clearEntry_eq_ok hentry
    . rfl
    . have hok := Session.removeEntry_of_isOpen hawaits.card.not_empty hawaits.rooted
        (hawaits.proper entry (by simp)) hisEntry hopen (hawaits.there entry (by simp)) hremove
        hreach₁
      simp at hok

/-! The tally of a card. -/

theorem awaits_entries {fs : FileSystem} (htree : fs.IsTree)
    (hfind : fs.find card = .ok (.dir (.at root))) :
    Awaits fs card root (fs.entries order root) where
  card := hadCard_of_find hfind
  rooted := htree.rooted
  proper entry hentry := htree.proper entry.1 root (by simp [node?_of_mem_entries hentry])
  distinct := by
    rw [map_fst_entries]
    exact (order.perm fs root).nodup_iff.mpr (names_nodup fs root)
  there _ hentry := node?_of_mem_entries hentry

theorem clearEntries_of_error {e : IoError} (hlisted : w.disk.listDir order card = .error e)
    (h : (clearEntries order card).start w = (.ok tally, w')) :
    w'.disk = w.disk ∧ tally = { failed := [card] } := by
  unfold clearEntries at h
  rw [Action.start_bind, Action.start_askDisk, hlisted] at h
  obtain ⟨htally, rfl⟩ := Prod.mk.inj h
  exact ⟨rfl, (Except.ok.inj htally).symm⟩

theorem clearEntries_of_ok (hlisted : w.disk.listDir order card = .ok entries) :
    (clearEntries order card).start w = (entries.foldlM (clearEntry order card) {}).start w := by
  unfold clearEntries
  rw [Action.start_bind, Action.start_askDisk, hlisted]

theorem clearEntries_left (htree : w.disk.IsTree)
    (hfind : w.disk.find card = .ok (.dir (.at root)))
    (hlisted : w.disk.listDir order card = .ok entries)
    (h : (clearEntries order card).start w = (.ok tally, w'))
    (hstill : w'.disk.find card = .ok (.dir (.at root))) :
    w'.disk.Rooted ∧
      tally.failed.Perm ((w'.disk.names root).map fun name => card / Pathname.mk name) := by
  rw [clearEntries_of_ok hlisted] at h
  obtain rfl := entries_of_listDir hfind hlisted
  obtain ⟨-, l, hreach⟩ := find_eq_dir.mp hstill
  have hawaits : Awaits w.disk card root (w.disk.entries order root) := awaits_entries htree hfind
  have hshrunk := hawaits.foldlM_shrinks h
  obtain ⟨hroot, hfailed⟩ := foldlM_clearEntry_fails hawaits h hreach
  refine ⟨hroot, ?_⟩
  have hsub (name : Name) (hsome : (w'.disk.node? (name :: root)).isSome) :
      (w.disk.node? (name :: root)).isSome := by
    obtain ⟨node, hnode⟩ := Option.isSome_iff_exists.mp hsome
    simp [hshrunk.node?_of_eq_some hnode]
  rw [hfailed, map_fst_entries, names_eq_filter hsub]
  exact ((order.perm w.disk root).filter _).map _

theorem isBare_of_names {fs : FileSystem} (hroot : fs.Rooted) (hnames : fs.names root = []) :
    fs.IsBare (.at root) := by
  refine hroot.isBare fun name => ?_
  have hnot : name ∉ fs.names root := by simp [hnames]
  simpa [mem_names_iff] using hnot

theorem clear_of_find (hfind : w.disk.find card = .ok (.dir p)) :
    ∃ tally w₁ events, (clearEntries w.listing card).start w = (.ok tally, w₁) ∧
      (clear card).start w = (.ok tally, { w₁ with transcript := w₁.transcript ++ events }) := by
  have hrequire : (Action.require (·.isDir card) (.cardNotDirectory card)).start w = (.ok (), w) :=
    Action.start_require_eq_ok.mpr ⟨isDir_eq_true.mpr ⟨p, hfind⟩, rfl⟩
  obtain ⟨tally, w₁, hentries⟩ := isDirect_clearEntries.exists_ok (x := clearEntries w.listing card) w
  let note := s!"wiped {card.display}: {tally.removed} removed, {tally.failed.length} failed"
  refine ⟨tally, w₁, [.noted .debug note], hentries, ?_⟩
  rw [clear_eq, Action.start_bind_of_ok hrequire, Action.start_bind, Action.start_ask]
  dsimp only
  rw [Action.start_bind_of_ok hentries]
  rfl

/--
Whether a tally tells what clearing a card has come to. Where it says that a card stays or is
emptied, the path of the card is read again when all is done.
-/
structure Accounts (card : Pathname) (p : Place) (tally : Tally) (fs fs' : FileSystem) : Prop where
  shrunk : Shrunk p fs fs'
  unlisted : ∀ e, fs.listDir .byName card = .error e → fs' = fs ∧ tally = { failed := [card] }
  counted : ∀ entries, fs.listDir .byName card = .ok entries →
    tally.removed + tally.failed.length = entries.length
  left : ∀ root entries, p = .at root → fs.listDir .byName card = .ok entries →
    fs'.find card = .ok (.dir p) →
    tally.failed.Perm ((fs'.names root).map fun name => card / Pathname.mk name)
  stays : (∀ loc ∈ fs.visits card, p.holds loc = false) → fs'.find card = .ok (.dir p)
  emptied : ∀ root mode, p = .at root → fs'.find card = .ok (.dir p) →
    fs.node? root = some (.dir mode) → fs.IsOpen root →
    (∀ name ∈ fs.names root, (card / Pathname.mk name).IsWalkable ∧
      name.length ≤ maxNameLength) → tally.failed = [] ∧ fs'.IsBare p

theorem accounts_of_clearEntries (htree : w.disk.IsTree) (hfind : w.disk.find card = .ok (.dir p))
    (h : (clearEntries order card).start w = (.ok tally, w')) :
    Accounts card p tally w.disk w'.disk := by
  have hshrunk : Shrunk p w.disk w'.disk := by
    have hshrinks : Shrinks card p w.disk ((clearEntries order card).start w).2.disk :=
      clearEntries_shrinks htree.proper
    rw [h] at hshrinks
    exact hshrinks (hadCard_of_find hfind)
  rcases listDir_perm w.disk .byName order card with
    ⟨e, hsorted, hlisted⟩ | ⟨sorted, entries, hsorted, hlisted, hperm⟩
  . obtain ⟨hdisk, rfl⟩ := clearEntries_of_error hlisted h
    refine ⟨hshrunk, fun _ _ => ⟨hdisk, rfl⟩, by simp [hsorted], by simp [hsorted],
      hshrunk.find_dir hfind, ?_⟩
    rintro root mode rfl - hnode hopen -
    simp [listDir_of_isOpen hfind hnode hopen] at hlisted
  refine ⟨hshrunk, by simp [hsorted], ?_, ?_, hshrunk.find_dir hfind, ?_⟩
  . intro entries' hentries'
    obtain rfl := Except.ok.inj (hsorted.symm.trans hentries')
    rw [clearEntries_of_ok hlisted] at h
    rw [hperm.length_eq]
    simpa using foldlM_clearEntry_counts h
  . rintro root _ rfl - hstill
    exact (clearEntries_left htree hfind hlisted h hstill).2
  . rintro root mode rfl hstill hnode hopen hfits
    obtain ⟨hroot, hleft⟩ := clearEntries_left htree hfind hlisted h hstill
    obtain ⟨-, l, hreach⟩ := find_eq_dir.mp hstill
    rw [clearEntries_of_ok hlisted] at h
    obtain rfl := entries_of_listDir hfind hlisted
    have hnone : tally.failed = [] := by
      refine foldlM_clearEntry_of_isOpen (awaits_entries htree hfind) hopen
        (fun entry hentry => ?_) h hreach
      apply hfits
      rw [← (order.perm w.disk root).mem_iff, ← map_fst_entries]
      exact List.mem_map_of_mem hentry
    refine ⟨hnone, isBare_of_names hroot ?_⟩
    simpa [hnone] using hleft.symm

theorem isBare_of_clear {l : Nat} (htree : w.disk.IsTree) (hfind : w.disk.find card = .ok (.dir p))
    (h : (clear card).start w = (.ok tally, w')) (hfailed : tally.failed = [])
    (hreach : w'.disk.reach card = .ok (.at root, l)) : w'.disk.IsBare (.at root) := by
  obtain ⟨tally', w₁, events, hentries, hclear⟩ := clear_of_find hfind
  obtain ⟨htally, rfl⟩ := Prod.mk.inj (hclear.symm.trans h)
  obtain rfl := Except.ok.inj htally
  have hstill : w₁.disk.find card = .ok (.dir (.at root)) :=
    find_eq_dir.mpr ⟨(find_eq_dir.mp hfind).1, l, hreach⟩
  have haccounts := accounts_of_clearEntries htree hfind hentries
  obtain rfl := (haccounts.shrunk.hadCard (hadCard_of_find hfind)).only root l hreach
  rcases listDir_perm w.disk .byName w.listing card with
    ⟨e, hsorted, -⟩ | ⟨_, entries, -, hlisted, -⟩
  . rw [(haccounts.unlisted e hsorted).2] at hfailed
    simp at hfailed
  . obtain ⟨hroot, hleft⟩ := clearEntries_left htree hfind hlisted hentries hstill
    apply isBare_of_names hroot
    simpa [hfailed] using hleft.symm

theorem exists_dir_of_clear (hfind : w.disk.find card = .ok (.dir (.at root)))
    (h : (clear card).start w = (.ok tally, w')) (hfailed : tally.failed = []) :
    ∃ mode, w.disk.node? root = some (.dir mode) := by
  obtain ⟨tally', w₁, events, hentries, hclear⟩ := clear_of_find hfind
  obtain ⟨htally, -⟩ := Prod.mk.inj (hclear.symm.trans h)
  obtain rfl := Except.ok.inj htally
  have hdir : w.disk.isDir card = true := isDir_eq_true.mpr ⟨_, hfind⟩
  rcases listDir_cases w.listing hdir with ⟨entries, -, hopen⟩ | ⟨e, hlisted, -⟩
  . by_contra hnone
    exact hopen ⟨_, hfind, fun mode hmode => absurd ⟨mode, modeOf_at_eq_ok.mp hmode⟩ hnone⟩
  . obtain ⟨-, rfl⟩ := clearEntries_of_error hlisted hentries
    simp at hfailed

/--
Clearing what is not a directory fails and changes nothing. Clearing a card succeeds, and the tally
tells what has come of it.
-/
theorem clear_accounts (htree : w.disk.IsTree) (card : Pathname) :
    (w.disk.isDir card = false → (clear card).start w =
        (.error (.failed { cause := .cardNotDirectory card }), w)) ∧
      ∀ p, w.disk.find card = .ok (.dir p) → ∃ tally w', (clear card).start w = (.ok tally, w') ∧
        Accounts card p tally w.disk w'.disk := by
  constructor
  . intro hdir
    have hrequire : (Action.require (·.isDir card) (.cardNotDirectory card)).start w =
        (.error (.failed { cause := .cardNotDirectory card }), w) := by
      rw [Action.start_require, hdir]
      rfl
    rw [clear_eq, Action.start_bind_of_error hrequire]
  . intro p hfind
    obtain ⟨tally, w₁, events, hentries, hclear⟩ := clear_of_find hfind
    have haccounts := accounts_of_clearEntries htree hfind hentries
    exact ⟨tally, { w₁ with transcript := w₁.transcript ++ events }, hclear, haccounts⟩

def partlyLockedCard : FileSystem :=
  [(Location.ofPath "/card/kernel8.img", Node.file ⟨utf8 "kernel", Mode.newFile, .at 1⟩),
    (Location.ofPath "/card/locked/hello", Node.file ⟨utf8 "hello", Mode.newFile, .at 1⟩),
    (Location.ofPath "/card/locked", Node.dir (.ofNat 0o555)),
    (Location.ofPath "/card/link", Node.link (utf8 "/beside")),
    (Location.ofPath "/beside/kept", Node.file ⟨utf8 "kept", Mode.newFile, .at 1⟩)].foldl
    FileSystem.lay FileSystem.empty

set_option maxRecDepth 100000 in
theorem clear_accounts_partlyLockedCard :
    ∃ tally w', (clear "/card").start { disk := partlyLockedCard } = (.ok tally, w') ∧
      Shrunk (.at (Location.ofPath "/card")) partlyLockedCard w'.disk ∧
      tally.removed + tally.failed.length = 3 ∧
      tally.failed.Perm ((w'.disk.names (Location.ofPath "/card")).map fun name =>
        "/card" / Pathname.mk name) := by
  have hfind : partlyLockedCard.find "/card" = .ok (.dir (.at (Location.ofPath "/card"))) := by
    decide +kernel
  obtain ⟨-, hclear⟩ :=
    clear_accounts (w := { disk := partlyLockedCard }) (by decide +kernel) "/card"
  obtain ⟨tally, w', hclear, haccounts⟩ := hclear _ hfind
  have hlisted : (partlyLockedCard.listDir .byName "/card").toOption.map List.length = some 3 := by
    decide +kernel
  cases hentries : partlyLockedCard.listDir .byName "/card" with
  | error e => simp [hentries, Except.toOption] at hlisted
  | ok entries =>
    have hlength : entries.length = 3 := by simpa [hentries, Except.toOption] using hlisted
    refine ⟨tally, w', hclear, haccounts.shrunk, ?_, ?_⟩
    . rw [haccounts.counted entries hentries, hlength]
    . exact haccounts.left _ entries rfl hentries (haccounts.stays (by decide +kernel))

def loopedCard : FileSystem :=
  FileSystem.empty.lay (Location.ofPath "/card/sub/back", Node.link (utf8 "/card"))

def longPath : Pathname := ⟨utf8 "/card" ++ List.replicate 4090 Bytes.slash⟩

def smallCard : FileSystem :=
  FileSystem.empty.lay
    (Location.ofPath "/card/kernel8.img", Node.file ⟨utf8 "kernel", Mode.newFile, .at 1⟩)

set_option maxRecDepth 100000 in
/--
Where everything may be done with a card, a directory is left over and counted as removed if the
path of the card goes through it, and a file is left over if its path is too long.
-/
theorem clear_miscounts :
    let looped := (clear "/card/sub/back").start { disk := loopedCard }
    let long := (clear longPath).start { disk := smallCard }
    loopedCard.find "/card/sub/back" = .ok (.dir (.at (Location.ofPath "/card"))) ∧
      loopedCard.IsOpen (Location.ofPath "/card") ∧
      looped.1 = .ok { removed := 1, failed := [] } ∧
      looped.2.disk.names (Location.ofPath "/card") = [utf8 "sub"] ∧
      smallCard.find longPath = .ok (.dir (.at (Location.ofPath "/card"))) ∧
      smallCard.IsOpen (Location.ofPath "/card") ∧
      long.1 = .ok { removed := 0, failed := [longPath / "kernel8.img"] } ∧
      long.2.disk.names (Location.ofPath "/card") = [utf8 "kernel8.img"] := by
  decide +kernel

end Clearing

end BootCard
