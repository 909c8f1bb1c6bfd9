import BootCard.Card.Waiting
import Mathlib.Logic.Function.Iterate

/-!
This module contains how a poll ends: in the first state in which its condition holds, or else in
the one after the last dot that is allowed. This holds whatever becomes of the state between two
tests.
-/

namespace BootCard

namespace Waiting

variable {σ τ : Type} {isReady : σ → Bool} {dot : σ → σ} {limit : Option Nat}

theorem poll_zero (dots : Nat) (s : σ) : poll isReady dot limit 0 dots s =
    if isReady s then some (true, s)
    else if limit.any (· ≤ dots) then some (false, s) else none := by
  unfold poll
  rfl

theorem poll_succ (rounds dots : Nat) (s : σ) : poll isReady dot limit (rounds + 1) dots s =
    if isReady s then some (true, s)
    else if limit.any (· ≤ dots) then some (false, s)
    else poll isReady dot limit rounds (dots + 1) (dot s) := by
  conv => lhs; unfold poll

theorem poll_map {see : σ → τ} {isReady' : τ → Bool} {dot' : τ → τ}
    (hready : ∀ s, isReady' (see s) = isReady s) (hdot : ∀ s, dot' (see s) = see (dot s))
    (rounds dots : Nat) (s : σ) :
    poll isReady' dot' limit rounds dots (see s) =
      (poll isReady dot limit rounds dots s).map fun (ready, s) => (ready, see s) := by
  induction rounds generalizing dots s with
  | zero =>
    rw [poll_zero, poll_zero, hready]
    split
    . rfl
    split <;> rfl
  | succ rounds ih =>
    rw [poll_succ, poll_succ, hready]
    split
    . rfl
    split
    . rfl
    rw [hdot]
    exact ih (dots + 1) (dot s)

def IsOver (isReady : σ → Bool) (limit : Option Nat) (dots : Nat) (s : σ) : Prop :=
  isReady s = true ∨ ∃ m, limit = some m ∧ m ≤ dots

theorem poll_of_isOver {rounds dots : Nat} {s : σ} (h : IsOver isReady limit dots s) :
    poll isReady dot limit rounds dots s = some (isReady s, s) := by
  have hlimit (hready : isReady s = false) : limit.any (· ≤ dots) = true := by
    obtain hready' | ⟨m, rfl, hm⟩ := h
    . simp [hready] at hready'
    . simpa using hm
  cases rounds with
  | zero =>
    rw [poll_zero]
    cases hready : isReady s <;> simp [hlimit, hready]
  | succ rounds =>
    rw [poll_succ]
    cases hready : isReady s <;> simp [hlimit, hready]

theorem poll_of_not_isOver {rounds dots : Nat} {s : σ} (h : ¬ IsOver isReady limit dots s) :
    poll isReady dot limit (rounds + 1) dots s =
      poll isReady dot limit rounds (dots + 1) (dot s) := by
  rw [IsOver, not_or, Bool.not_eq_true] at h
  have hlimit : limit.any (· ≤ dots) = false := by
    cases limit with
    | none => rfl
    | some m =>
      have hm : ¬ m ≤ dots := fun hm => h.2 ⟨m, rfl, hm⟩
      simpa using hm
  rw [poll_succ, h.1, hlimit]
  rfl

/-- Whether a poll that has printed some dots is over after some more and not before. -/
structure EndsAfter (isReady : σ → Bool) (dot : σ → σ) (limit : Option Nat) (dots : Nat) (s : σ)
    (n : Nat) : Prop where
  isOver : IsOver isReady limit (dots + n) (dot^[n] s)
  not_before : ∀ k < n, ¬ IsOver isReady limit (dots + k) (dot^[k] s)

theorem endsAfter_zero {dots : Nat} {s : σ} :
    EndsAfter isReady dot limit dots s 0 ↔ IsOver isReady limit dots s :=
  ⟨fun h => h.isOver, fun h => ⟨h, by simp⟩⟩

theorem endsAfter_succ {dots n : Nat} {s : σ} : EndsAfter isReady dot limit dots s (n + 1) ↔
    ¬ IsOver isReady limit dots s ∧ EndsAfter isReady dot limit (dots + 1) (dot s) n := by
  have hdots (k : Nat) : dots + (k + 1) = dots + 1 + k := by omega
  constructor
  . intro h
    refine ⟨h.not_before 0 (Nat.succ_pos n), ?_, fun k hk => ?_⟩
    . rw [← hdots]
      exact h.isOver
    . rw [← hdots]
      exact h.not_before (k + 1) (Nat.succ_lt_succ hk)
  . rintro ⟨hnot, h⟩
    refine ⟨?_, fun k hk => ?_⟩
    . rw [hdots]
      exact h.isOver
    . cases k with
      | zero => exact hnot
      | succ k =>
        rw [hdots]
        exact h.not_before k (Nat.lt_of_succ_lt_succ hk)

theorem EndsAfter.le_of_limit {n m : Nat} {s : σ} (h : EndsAfter isReady dot (some m) 0 s n) :
    n ≤ m := by
  cases n with
  | zero => exact Nat.zero_le m
  | succ n =>
    rw [Nat.succ_le_iff, ← Nat.not_le]
    exact fun hle => h.not_before n (Nat.lt_succ_self n) (.inr ⟨m, rfl, by omega⟩)

/-- A poll ends in the first state in which it is over, if it is given the rounds. -/
theorem poll_eq_some_iff {rounds dots : Nat} {s s' : σ} {found : Bool} :
    poll isReady dot limit rounds dots s = some (found, s') ↔
      ∃ n ≤ rounds, EndsAfter isReady dot limit dots s n ∧ s' = dot^[n] s ∧ found = isReady s' := by
  constructor
  . intro h
    fun_induction poll isReady dot limit rounds dots s with
    | case1 rounds dots s hready =>
      obtain ⟨rfl, rfl⟩ := Prod.mk.inj (Option.some.inj h)
      exact ⟨0, Nat.zero_le rounds, endsAfter_zero.mpr (.inl hready), rfl, hready.symm⟩
    | case2 rounds dots s hready hlimit =>
      obtain ⟨rfl, rfl⟩ := Prod.mk.inj (Option.some.inj h)
      obtain ⟨m, hm, hdots⟩ := (Option.any_eq_true _ _).mp hlimit
      exact ⟨0, Nat.zero_le rounds, endsAfter_zero.mpr (.inr ⟨m, hm, by simpa using hdots⟩), rfl,
        by simpa using hready⟩
    | case3 => simp at h
    | case4 dots s hready hlimit rounds ih =>
      obtain ⟨n, hn, hends, hs, hfound⟩ := ih h
      refine ⟨n + 1, Nat.succ_le_succ hn, endsAfter_succ.mpr ⟨?_, hends⟩, hs, hfound⟩
      rintro (hready' | ⟨m, rfl, hm⟩)
      . exact hready hready'
      . simp [hm] at hlimit
  . rintro ⟨n, hn, hends, rfl, rfl⟩
    induction n generalizing rounds dots s with
    | zero => exact poll_of_isOver (endsAfter_zero.mp hends)
    | succ n ih =>
      obtain ⟨hnot, hends⟩ := endsAfter_succ.mp hends
      cases rounds with
      | zero => simp at hn
      | succ rounds =>
        rw [poll_of_not_isOver hnot]
        exact ih (Nat.le_of_succ_le_succ hn) hends

end Waiting

end BootCard
