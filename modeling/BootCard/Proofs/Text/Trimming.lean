import BootCard.Text.Blank
import Mathlib.Data.List.DropRight

/-!
This module contains what trimming gives: the part of a list between the blanks at its two ends. It
does not begin or end with a blank itself, and that leaves no choice.
-/

namespace BootCard

variable {α : Type} {p : α → Bool} {xs ys : List α}

/-- Whether a list is what another one has between the elements with a property at its ends. -/
structure TrimsTo (p : α → Bool) (xs ys : List α) : Prop where
  around : ∃ before after, xs = before ++ ys ++ after ∧ (∀ x ∈ before, p x = true) ∧
    ∀ x ∈ after, p x = true
  first : ∀ y, ys.head? = some y → p y = false
  last : ∀ y, ys.getLast? = some y → p y = false

theorem trimBoth_eq_rdropWhile (p : α → Bool) (xs : List α) :
    trimBoth p xs = (xs.dropWhile p).rdropWhile p := rfl

theorem dropWhile_append_eq {before : List α} (hbefore : ∀ x ∈ before, p x = true)
    (hfirst : ∀ y, ys.head? = some y → p y = false) : (before ++ ys).dropWhile p = ys := by
  rw [List.dropWhile_append_of_pos hbefore]
  cases ys with
  | nil => rfl
  | cons y ys => exact List.dropWhile_cons_of_neg (by simp [hfirst y rfl])

theorem trimsTo_trimBoth (p : α → Bool) (xs : List α) : TrimsTo p xs (trimBoth p xs) where
  around := by
    refine ⟨xs.takeWhile p, (xs.dropWhile p).rtakeWhile p, ?_, fun x => List.mem_takeWhile_imp,
      fun x => List.mem_rtakeWhile_imp⟩
    rw [trimBoth_eq_rdropWhile, List.append_assoc, List.rdropWhile_append_rtakeWhile,
      List.takeWhile_append_dropWhile]
  first y hy := by
    obtain ⟨rest, hrest⟩ : trimBoth p xs <+: xs.dropWhile p := List.rdropWhile_prefix p _
    have hhead : (xs.dropWhile p).head? = some y := by
      rw [← hrest, List.head?_append, hy, Option.some_or]
    simpa [hhead] using List.head?_dropWhile_not p xs
  last y hy := by
    have hne : trimBoth p xs ≠ [] := by
      rintro heq
      simp [heq] at hy
    rw [List.getLast?_eq_some_getLast hne, Option.some.injEq] at hy
    rw [← hy, ← Bool.not_eq_true]
    exact List.rdropWhile_last_not p (xs.dropWhile p) hne

theorem TrimsTo.forall (h : TrimsTo p xs []) : ∀ x ∈ xs, p x = true := by
  obtain ⟨before, after, rfl, hbefore, hafter⟩ := h.around
  intro x hx
  rw [List.append_nil] at hx
  exact (List.mem_append.mp hx).elim (hbefore x) (hafter x)

theorem trimBoth_eq_nil (h : ∀ x ∈ xs, p x = true) : trimBoth p xs = [] := by
  rw [trimBoth_eq_rdropWhile, List.dropWhile_eq_nil_iff.mpr h, List.rdropWhile_nil]

theorem TrimsTo.trimBoth_eq (h : TrimsTo p xs ys) : trimBoth p xs = ys := by
  cases ys with
  | nil => exact trimBoth_eq_nil h.forall
  | cons y ys =>
    obtain ⟨before, after, rfl, hbefore, hafter⟩ := h.around
    have hfirst : ∀ z, (y :: ys ++ after).head? = some z → p z = false := h.first
    have hlast : ∀ z, (y :: ys).reverse.head? = some z → p z = false := by
      simpa only [List.head?_reverse] using h.last
    have hafter' : ∀ x ∈ after.reverse, p x = true := fun x hx => hafter x (List.mem_reverse.mp hx)
    unfold trimBoth
    rw [List.append_assoc, dropWhile_append_eq hbefore hfirst, List.reverse_append,
      dropWhile_append_eq hafter' hlast, List.reverse_reverse]

theorem trimBoth_eq_iff : trimBoth p xs = ys ↔ TrimsTo p xs ys := by
  constructor
  . rintro rfl
    exact trimsTo_trimBoth p xs
  . exact TrimsTo.trimBoth_eq

theorem trimBoth_eq_nil_iff : trimBoth p xs = [] ↔ ∀ x ∈ xs, p x = true :=
  ⟨fun h => (trimBoth_eq_iff.mp h).forall, trimBoth_eq_nil⟩

end BootCard
