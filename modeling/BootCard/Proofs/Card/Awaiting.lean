import BootCard.Disk.Layout
import BootCard.Proofs.Card.Polling
import BootCard.Proofs.Disk.Descent
import BootCard.Proofs.Sequencing
import Mathlib.Data.Nat.Find

/-!
This module contains how waiting for a directory ends in a world that may change in any way before
each test, of which the first is made before anything is printed.
-/

namespace BootCard

namespace Waiting

variable {limit : Option Nat} {w w' : World}

/--
How waiting ends, given what each test finds: at the first test, which is made on entry, or at a
later one, before which a dot is printed for every test in between.
-/
inductive Ends (ready : Nat → Bool) (limit : Option Nat) :
    (last : Nat) → (found : Bool) → Prop where
  | there : ready 0 = true → Ends ready limit 0 true
  | appeared {i : Nat} : ready 0 = false → 1 ≤ i → (∀ j, 1 ≤ j → j < i → ready j = false) →
    ready i = true → (∀ m, limit = some m → i ≤ m + 1) → Ends ready limit i true
  | missed {m : Nat} : ready 0 = false → limit = some m →
    (∀ j, 1 ≤ j → j ≤ m + 1 → ready j = false) → Ends ready limit (m + 1) false

theorem exists_ends (ready : Nat → Bool) (limit : Option Nat) :
    (∃ last found, Ends ready limit last found) ∨ limit = none ∧ ∀ i, ready i = false := by
  cases hentry : ready 0 with
  | true => exact .inl ⟨0, true, .there hentry⟩
  | false =>
    by_cases hready : ∃ i, ready i = true
    . have hfirst := Nat.find_spec hready
      have hbefore (j : Nat) (hj : j < Nat.find hready) : ready j = false := by
        simpa using Nat.find_min hready hj
      generalize Nat.find hready = i at hfirst hbefore
      have hpos : 1 ≤ i := by
        rcases Nat.eq_zero_or_pos i with rfl | hpos
        . simp [hentry] at hfirst
        . exact hpos
      -- The first test that succeeds counts, unless the last one that is allowed comes before it.
      by_cases hlimit : ∀ m, limit = some m → i ≤ m + 1
      . exact .inl ⟨i, true, .appeared hentry hpos (fun j _ => hbefore j) hfirst hlimit⟩
      . push Not at hlimit
        obtain ⟨m, hm, hlt⟩ := hlimit
        exact .inl ⟨m + 1, false, .missed hentry hm fun j _ hj => hbefore j (by omega)⟩
    . push Not at hready
      have hnever (i : Nat) : ready i = false := by simpa using hready i
      cases limit with
      | none => exact .inr ⟨rfl, hnever⟩
      | some m => exact .inl ⟨m + 1, false, .missed hentry rfl fun j _ _ => hnever j⟩

/--
What becomes of a world between two tests: the first time after the announcement, and each other
time after a dot. What has been told stays told.
-/
structure Drift where
  change : Nat → World → World
  transcript_eq : ∀ n w, (change n w).transcript = w.transcript

def announcement (path : Pathname) : List Event := [
  .printed (utf8 (s!"[target] please insert your sdcard (mounting point: {path.display})" ++ "\n")),
  .printed (utf8 "    waiting")]

def dotMark : Event := .printed (utf8 ".")

def lineEnd : Event := .printed (utf8 "\n")

/-- What is told until a test is the last one. Before the first test nothing is. -/
def tellings (path : Pathname) : (last : Nat) → List Event
  | 0 => []
  | n + 1 => announcement path ++ List.replicate n dotMark ++ [lineEnd]

namespace Drift

variable {d : Drift} {path : Pathname}

def atTest (d : Drift) (path : Pathname) (w : World) : Nat → World
  | 0 => w
  | 1 => d.change 0 (w.told (announcement path))
  | n + 2 => d.change (n + 1) ((d.atTest path w (n + 1)).told [dotMark])

def sees (d : Drift) (path : Pathname) (w : World) (n : Nat) : Bool :=
  (d.atTest path w n).disk.isDir path

def left (d : Drift) (path : Pathname) (w : World) : Nat → World
  | 0 => w
  | n + 1 => (d.atTest path w (n + 1)).told [lineEnd]

def dot (d : Drift) (s : Nat × World) : Nat × World :=
  (s.1 + 1, d.change (s.1 + 1) (s.2.told [dotMark]))

/-- Waits for a directory in a world that drifts. -/
def await (d : Drift) (path : Pathname) (limit : Option Nat) (rounds : Nat) (w : World) :
    Option (Bool × World) :=
  if w.disk.isDir path then
    some (true, w)
  else
    (poll (·.2.disk.isDir path) d.dot limit rounds 0 (0, d.atTest path w 1)).map
      fun (found, s) => (found, s.2.told [lineEnd])

theorem iterate_dot (n : Nat) :
    d.dot^[n] (0, d.atTest path w 1) = (n, d.atTest path w (n + 1)) := by
  induction n with
  | zero => rfl
  | succ n ih =>
    rw [Function.iterate_succ_apply', ih]
    rfl

theorem transcript_atTest (n : Nat) : (d.atTest path w (n + 1)).transcript =
    w.transcript ++ (announcement path ++ List.replicate n dotMark) := by
  induction n with
  | zero =>
    unfold atTest
    rw [d.transcript_eq]
    simp [World.told]
  | succ n ih =>
    unfold atTest
    rw [d.transcript_eq]
    show (d.atTest path w (n + 1)).transcript ++ [dotMark] = _
    rw [ih, List.replicate_succ']
    simp

theorem transcript_left (last : Nat) :
    (d.left path w last).transcript = w.transcript ++ tellings path last := by
  cases last with
  | zero => simp [left, tellings]
  | succ n =>
    show (d.atTest path w (n + 1)).transcript ++ [lineEnd] = _
    rw [transcript_atTest]
    simp [tellings]

theorem isOver_iff (n : Nat) :
    IsOver (·.2.disk.isDir path) limit (0 + n) (d.dot^[n] (0, d.atTest path w 1)) ↔
      d.sees path w (n + 1) = true ∨ ∃ m, limit = some m ∧ m ≤ n := by
  rw [iterate_dot, Nat.zero_add]
  rfl

theorem ends_succ_iff {n : Nat} {found : Bool} (hentry : d.sees path w 0 = false) :
    Ends (d.sees path w) limit (n + 1) found ↔
      EndsAfter (·.2.disk.isDir path) d.dot limit 0 (0, d.atTest path w 1) n ∧
        found = d.sees path w (n + 1) := by
  constructor
  . intro h
    cases h with
    | appeared _ _ hbefore hready hlimit =>
      refine ⟨⟨(isOver_iff n).mpr (.inl hready), fun k hk => ?_⟩, hready.symm⟩
      rw [isOver_iff]
      rintro (hready' | ⟨m, hm, hle⟩)
      . simp [hbefore (k + 1) (by omega) (by omega)] at hready'
      . have := hlimit m hm
        omega
    | missed _ hm hbefore =>
      refine ⟨⟨(isOver_iff n).mpr (.inr ⟨n, hm, Nat.le_refl n⟩), fun k hk => ?_⟩, ?_⟩
      . rw [isOver_iff]
        rintro (hready' | ⟨m, hm', hle⟩)
        . simp [hbefore (k + 1) (by omega) (by omega)] at hready'
        . obtain rfl : n = m := by simpa [hm] using hm'
          omega
      . exact (hbefore (n + 1) (by omega) (by omega)).symm
  . rintro ⟨h, hfound⟩
    have hover := (isOver_iff n).mp h.isOver
    have hsees (j : Nat) (hj : 1 ≤ j) (hlt : j < n + 1) : d.sees path w j = false := by
      obtain ⟨k, rfl⟩ := Nat.exists_eq_add_of_le' hj
      have hnot := h.not_before k (by omega)
      rw [isOver_iff, not_or, Bool.not_eq_true] at hnot
      exact hnot.1
    have hallowed (m : Nat) (hm : limit = some m) : n ≤ m := by
      subst hm
      exact h.le_of_limit
    cases hready : d.sees path w (n + 1) with
    | true =>
      rw [hfound, hready]
      exact .appeared hentry (by omega) hsees hready fun m hm => Nat.succ_le_succ (hallowed m hm)
    | false =>
      obtain hready' | ⟨m, hm, hle⟩ := hover
      . simp [hready] at hready'
      . obtain rfl : n = m := Nat.le_antisymm (hallowed m hm) hle
        rw [hfound, hready]
        refine .missed hentry hm fun j hj hle => ?_
        rcases Nat.lt_or_eq_of_le hle with hlt | rfl
        . exact hsees j hj hlt
        . exact hready

theorem await_eq_some_iff {rounds : Nat} {found : Bool} :
    d.await path limit rounds w = some (found, w') ↔
      ∃ last ≤ rounds + 1, Ends (d.sees path w) limit last found ∧ w' = d.left path w last := by
  unfold await
  have hsees : d.sees path w 0 = w.disk.isDir path := rfl
  cases hentry : w.disk.isDir path with
  | true =>
    rw [hentry] at hsees
    rw [if_pos rfl]
    constructor
    . rintro ⟨⟩
      exact ⟨0, Nat.zero_le _, .there hsees, rfl⟩
    . rintro ⟨last, -, hends, rfl⟩
      cases hends with
      | there => rfl
      | appeared hnot => simp [hsees] at hnot
      | missed hnot => simp [hsees] at hnot
  | false =>
    rw [hentry] at hsees
    rw [if_neg (by simp), Option.map_eq_some_iff]
    constructor
    . rintro ⟨⟨found', s⟩, hpoll, heq⟩
      obtain ⟨rfl, rfl⟩ := Prod.mk.inj heq
      obtain ⟨n, hn, hends, rfl, hfound⟩ := poll_eq_some_iff.mp hpoll
      rw [iterate_dot] at hfound ⊢
      exact ⟨n + 1, Nat.succ_le_succ hn, (ends_succ_iff hsees).mpr ⟨hends, hfound⟩, rfl⟩
    . rintro ⟨last, hlast, hends, rfl⟩
      cases last with
      | zero =>
        cases hends with
        | there hthere => simp [hsees] at hthere
        | appeared _ hpos => simp at hpos
      | succ n =>
        obtain ⟨hends, hfound⟩ := (ends_succ_iff hsees).mp hends
        refine ⟨(found, d.dot^[n] (0, d.atTest path w 1)),
          poll_eq_some_iff.mpr ⟨n, Nat.le_of_succ_le_succ hlast, hends, rfl, ?_⟩, ?_⟩
        . rw [iterate_dot]
          exact hfound
        . rw [iterate_dot]
          rfl

theorem await_eq_none_iff : (∀ rounds, d.await path limit rounds w = none) ↔
    limit = none ∧ ∀ i, d.sees path w i = false := by
  constructor
  . intro hnone
    rcases exists_ends (d.sees path w) limit with ⟨last, found, hends⟩ | hnever
    . have hsome := await_eq_some_iff.mpr ⟨last, Nat.le_succ last, hends, rfl⟩
      simp [hnone last] at hsome
    . exact hnever
  . rintro ⟨rfl, hnever⟩ rounds
    rw [Option.eq_none_iff_forall_ne_some]
    rintro ⟨found, w'⟩ hsome
    obtain ⟨last, -, hends, -⟩ := await_eq_some_iff.mp hsome
    cases hends with
    | there hthere => simp [hnever] at hthere
    | appeared _ _ _ hready => simp [hnever] at hready
    | missed _ hlimit => simp at hlimit

theorem ready_of_ends {ready : Nat → Bool} {last : Nat} (h : Ends ready limit last true) :
    ready last = true := by
  cases h with
  | there hthere => exact hthere
  | appeared _ _ _ hready => exact hready

theorem await_ne_some_true {rounds : Nat}
    (hfile : ∀ i, (d.atTest path w i).disk.isFile path = true) :
    d.await path limit rounds w ≠ some (true, w') := by
  intro hsome
  obtain ⟨last, -, hends, -⟩ := await_eq_some_iff.mp hsome
  have hdir : (d.atTest path w last).disk.isDir path = true := ready_of_ends hends
  simp [FileSystem.isDir_of_isFile (hfile last)] at hdir

end Drift

def mounted (w : World) : World :=
  match w.mount with
  | none => w
  | some mount =>
    if mount.dots ≤ 1 then
      { w with disk := (Session.makeDirs mount.path w.disk).2, mount := none }
    else
      { w with mount := some { mount with dots := mount.dots - 1 } }

theorem transcript_mounted : (mounted w).transcript = w.transcript := by
  unfold mounted
  split
  . rfl
  split <;> rfl

def Drift.mounting : Drift where
  change
    | 0 => id
    | _ + 1 => mounted
  transcript_eq
    | 0, _ => rfl
    | _ + 1, _ => transcript_mounted

section Mounting

variable {path : Pathname}

theorem afterDot_eq (w : World) : afterDot w = mounted (w.told [dotMark]) := rfl

theorem dotsLeft_mounted : dotsLeft (mounted w) = dotsLeft w - 1 := by
  unfold mounted dotsLeft
  cases hmount : w.mount with
  | none => simp [hmount]
  | some mount =>
    dsimp only
    split
    . simp
      omega
    . simp
      omega

theorem mounted_of_dotsLeft (h : dotsLeft w = 0) : mounted w = w := by
  unfold dotsLeft at h
  unfold mounted
  cases hmount : w.mount with
  | none => rfl
  | some mount => simp [hmount] at h

theorem dotsLeft_iterate (n : Nat) : dotsLeft (afterDot^[n] w) = dotsLeft w - n := by
  induction n with
  | zero => rfl
  | succ n ih =>
    rw [Function.iterate_succ_apply', afterDot_eq, dotsLeft_mounted]
    show dotsLeft (afterDot^[n] w) - 1 = _
    rw [ih, Nat.sub_sub]

theorem disk_iterate {n : Nat} (h : dotsLeft w ≤ n) :
    (afterDot^[n] w).disk = (afterDot^[dotsLeft w] w).disk := by
  induction n, h using Nat.le_induction with
  | base => rfl
  | succ n hn ih =>
    have hleft : dotsLeft ((afterDot^[n] w).told [dotMark]) = 0 := by
      show dotsLeft (afterDot^[n] w) = 0
      rw [dotsLeft_iterate]
      omega
    rw [Function.iterate_succ_apply', afterDot_eq, mounted_of_dotsLeft hleft]
    exact ih

theorem EndsAfter.le_dotsLeft {n : Nat}
    (h : EndsAfter (·.disk.isDir path) afterDot limit 0 w n) : n ≤ limit.getD (dotsLeft w) := by
  cases limit with
  | some m => exact h.le_of_limit
  | none =>
    refine Nat.not_lt.mp fun hlt => h.not_before _ hlt (.inl ?_)
    obtain hready | ⟨m, hm, -⟩ := h.isOver
    . dsimp only at hready
      rwa [disk_iterate (Nat.le_of_lt hlt)] at hready
    . simp at hm

theorem poll_dotsLeft_eq_some_iff {found : Bool} :
    poll (·.disk.isDir path) afterDot limit (limit.getD (dotsLeft w)) 0 w = some (found, w') ↔
      ∃ rounds, poll (·.disk.isDir path) afterDot limit rounds 0 w = some (found, w') := by
  constructor
  . intro h
    exact ⟨_, h⟩
  . rintro ⟨rounds, h⟩
    obtain ⟨n, -, hends, hs, hfound⟩ := poll_eq_some_iff.mp h
    exact poll_eq_some_iff.mpr ⟨n, hends.le_dotsLeft, hends, hs, hfound⟩

theorem start_untilDirectory : (untilDirectory path limit).start w =
    if w.disk.isDir path then
      (.ok true, w)
    else
      match poll (·.disk.isDir path) afterDot limit (limit.getD (dotsLeft w)) 0
          (w.told (announcement path)) with
      | some (found, w') => (.ok found, w'.told [lineEnd])
      | none => (.error .waiting, w.told (announcement path)) := by
  unfold untilDirectory
  rw [Action.start_bind, Action.start_askDisk]
  dsimp only
  split
  . rfl
  . unfold Action.printLine
    rw [Action.start_bind_of_ok (Action.start_print _),
      Action.start_bind_of_ok (Action.start_print _), World.told_told]
    show (pollWorld path limit >>= fun ready => Action.print "\n" >>= fun _ => pure ready).start
      (w.told (announcement path)) = _
    rw [Action.start_bind]
    unfold pollWorld Action.start
    dsimp only
    rw [show dotsLeft (w.told (announcement path)) = dotsLeft w from rfl]
    cases poll (·.disk.isDir path) afterDot limit (limit.getD (dotsLeft w)) 0
      (w.told (announcement path)) with
    | none => rfl
    | some => rfl

theorem await_mounting {rounds : Nat} (h : w.disk.isDir path = false) :
    Drift.mounting.await path limit rounds w =
      (poll (·.disk.isDir path) afterDot limit rounds 0 (w.told (announcement path))).map
        fun r => (r.1, r.2.told [lineEnd]) := by
  unfold Drift.await
  have hpoll : poll (·.disk.isDir path) afterDot limit rounds 0 (w.told (announcement path)) =
      (poll (·.2.disk.isDir path) Drift.mounting.dot limit rounds 0
        (0, w.told (announcement path))).map fun (found, s) => (found, s.2) :=
    @poll_map _ _ (·.2.disk.isDir path) Drift.mounting.dot limit Prod.snd (·.disk.isDir path)
      afterDot (fun _ => rfl) (fun _ => rfl) rounds 0 (0, w.told (announcement path))
  rw [if_neg (by simp [h]), hpoll, Option.map_map]
  rfl

theorem start_untilDirectory_eq_ok {found : Bool} :
    (untilDirectory path limit).start w = (.ok found, w') ↔
      ∃ rounds, Drift.mounting.await path limit rounds w = some (found, w') := by
  rw [start_untilDirectory]
  cases hentry : w.disk.isDir path with
  | true =>
    have hawait (rounds : Nat) : Drift.mounting.await path limit rounds w = some (true, w) :=
      if_pos hentry
    simp [hawait]
  | false =>
    rw [if_neg (by simp), show dotsLeft w = dotsLeft (w.told (announcement path)) from rfl]
    simp only [await_mounting hentry, Option.map_eq_some_iff]
    constructor
    . intro h
      split at h
      next found' w₁ hpoll =>
        obtain ⟨rounds, hpoll⟩ := poll_dotsLeft_eq_some_iff.mp hpoll
        obtain ⟨hfound, hw⟩ := Prod.mk.inj h
        exact ⟨rounds, (found', w₁), hpoll, Prod.ext (Except.ok.inj hfound) hw⟩
      next => simp at h
    . rintro ⟨rounds, ⟨found', w₁⟩, hpoll, heq⟩
      obtain ⟨rfl, rfl⟩ := Prod.mk.inj heq
      rw [poll_dotsLeft_eq_some_iff.mpr ⟨rounds, hpoll⟩]

theorem start_untilDirectory_fst : ((untilDirectory path limit).start w).1 = .error .waiting ∨
    ∃ found, ((untilDirectory path limit).start w).1 = .ok found := by
  rw [start_untilDirectory]
  split
  . exact .inr ⟨true, rfl⟩
  split
  next found _ _ => exact .inr ⟨found, rfl⟩
  next => exact .inl rfl

theorem start_untilDirectory_eq_waiting :
    ((untilDirectory path limit).start w).1 = .error .waiting ↔
      ∀ rounds, Drift.mounting.await path limit rounds w = none := by
  constructor
  . intro hwaiting rounds
    rw [Option.eq_none_iff_forall_ne_some]
    rintro ⟨found, w'⟩ hsome
    rw [start_untilDirectory_eq_ok.mpr ⟨rounds, hsome⟩] at hwaiting
    simp at hwaiting
  . intro hnone
    have hends : ((untilDirectory path limit).start w).1 = .error .waiting ∨
        ∃ found, ((untilDirectory path limit).start w).1 = .ok found := start_untilDirectory_fst
    rcases hends with h | ⟨found, h⟩
    . exact h
    . have hok : (untilDirectory path limit).start w =
          (.ok found, ((untilDirectory path limit).start w).2) := Prod.ext h rfl
      obtain ⟨rounds, hsome⟩ := start_untilDirectory_eq_ok.mp hok
      simp [hnone rounds] at hsome

end Mounting

/--
Whatever the tests find, waiting ends as is told by `Ends`, given the rounds, and has told the
announcement and a dot for every test but the first two. Without an end it waits for ever. A file is
never taken for a directory. Waiting for a card is waiting in a world that changes in no other way.
-/
theorem await_ends (d : Drift) (path : Pathname) (limit : Option Nat) (w : World) :
    (∀ rounds found w', d.await path limit rounds w = some (found, w') ↔
      ∃ last ≤ rounds + 1, Ends (d.sees path w) limit last found ∧ w' = d.left path w last) ∧
    (∀ last, (d.left path w last).transcript = w.transcript ++ tellings path last) ∧
    ((∀ rounds, d.await path limit rounds w = none) ↔
      limit = none ∧ ∀ i, d.sees path w i = false) ∧
    ((∀ i, (d.atTest path w i).disk.isFile path = true) →
      ∀ rounds w', d.await path limit rounds w ≠ some (true, w')) ∧
    (∀ found w', (untilDirectory path limit).start w = (.ok found, w') ↔
      ∃ rounds, Drift.mounting.await path limit rounds w = some (found, w')) ∧
    (((untilDirectory path limit).start w).1 = .error .waiting ↔
      ∀ rounds, Drift.mounting.await path limit rounds w = none) :=
  ⟨fun _ _ _ => Drift.await_eq_some_iff, Drift.transcript_left, Drift.await_eq_none_iff,
    fun hfile _ _ => Drift.await_ne_some_true hfile, fun _ _ => start_untilDirectory_eq_ok,
    start_untilDirectory_eq_waiting⟩

def Drift.showing (disks : Nat → FileSystem) : Drift where
  change n w := { w with disk := disks (n + 1) }
  transcript_eq _ _ := rfl

theorem Drift.disk_atTest_showing (disks : Nat → FileSystem) (path : Pathname) (w : World)
    (n : Nat) : ((showing disks).atTest path w (n + 1)).disk = disks (n + 1) := by
  cases n <;> rfl

def noCard : World where
  disk := FileSystem.empty

def cardInserted : FileSystem :=
  FileSystem.empty.lay (Location.ofPath "/card", .dir Mode.newDirectory)

def cardIsFile : FileSystem :=
  FileSystem.empty.lay (Location.ofPath "/card", .file ⟨[], Mode.newFile, .now⟩)

def flicker (isThere : Nat → Bool) (n : Nat) : FileSystem :=
  if isThere n then cardInserted else FileSystem.empty

theorem Drift.sees_flicker (isThere : Nat → Bool) (n : Nat) :
    (showing (flicker isThere)).sees "/card" noCard (n + 1) = isThere (n + 1) := by
  unfold sees
  rw [disk_atTest_showing, flicker]
  cases isThere (n + 1)
  . show FileSystem.empty.isDir "/card" = false
    decide +kernel
  . show cardInserted.isDir "/card" = true
    decide +kernel

theorem await_ends_flickering :
    (∃ w', (Drift.showing (flicker (· = 2))).await "/card" (some 1) 1 noCard = some (true, w') ∧
      w'.transcript = announcement "/card" ++ [dotMark, lineEnd]) ∧
    (∃ w', (Drift.showing (flicker (· = 2))).await "/card" (some 0) 0 noCard = some (false, w') ∧
      w'.transcript = announcement "/card" ++ [lineEnd]) ∧
    (∀ rounds, (Drift.showing fun _ => .empty).await "/card" none rounds noCard = none) ∧
    ∀ rounds w', (Drift.showing fun _ => cardIsFile).await "/card" none rounds
      { disk := cardIsFile } ≠ some (true, w') := by
  have hnot : FileSystem.empty.isDir "/card" = false := by decide +kernel
  have hentry (d : Drift) : d.sees "/card" noCard 0 = false := hnot
  have hsees := Drift.sees_flicker (· = 2)
  refine ⟨?_, ?_, ?_, ?_⟩
  . obtain ⟨hends, htold, -⟩ := await_ends (.showing (flicker (· = 2))) "/card" (some 1) noCard
    refine ⟨_, (hends 1 true _).mpr ⟨2, Nat.le_refl 2, .appeared (hentry _) ?_ ?_ ?_ ?_, rfl⟩,
      htold 2⟩
    . decide
    . intro j hpos hlt
      obtain rfl : j = 1 := by omega
      exact hsees 0
    . exact hsees 1
    . rintro m ⟨⟩
      decide
  . obtain ⟨hends, htold, -⟩ := await_ends (.showing (flicker (· = 2))) "/card" (some 0) noCard
    refine ⟨_, (hends 0 false _).mpr ⟨1, Nat.le_refl 1, .missed (hentry _) rfl ?_, rfl⟩, htold 1⟩
    intro j hpos hle
    obtain rfl : j = 1 := by omega
    exact hsees 0
  . obtain ⟨-, -, hnever, -⟩ := await_ends (.showing fun _ => .empty) "/card" none noCard
    refine hnever.mpr ⟨rfl, fun i => ?_⟩
    cases i with
    | zero => exact hentry _
    | succ i =>
      unfold Drift.sees
      rw [Drift.disk_atTest_showing, hnot]
  . obtain ⟨-, -, -, hfile, -⟩ :=
      await_ends (.showing fun _ => cardIsFile) "/card" none { disk := cardIsFile }
    have hthere : cardIsFile.isFile "/card" = true := by decide +kernel
    refine hfile fun i => ?_
    cases i with
    | zero => exact hthere
    | succ i => rwa [Drift.disk_atTest_showing]

end Waiting

end BootCard
