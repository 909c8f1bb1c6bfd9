import BootCard.Text.Blank
import Mathlib.Data.List.Basic

/-!
This module contains the bytes of a text in UTF-8, which tell the text. Those of a character that
takes more than one byte are no characters by themselves, so that a hyphen or a blank among the
bytes is one of the text.
-/

namespace BootCard

variable {s : String} {c : Char} {b : UInt8}

theorem utf8_inj {t : String} : utf8 s = utf8 t ↔ s = t := by
  constructor
  . intro h
    have hbytes (s : String) : (utf8 s).toByteArray = s.toByteArray := by
      show s.toList.utf8Encode = s.toByteArray
      rw [← String.toByteArray_ofList, String.ofList_toList]
    rw [← String.toByteArray_inj, ← hbytes, ← hbytes, h]
  . rintro rfl
    rfl

theorem toNat_of_mem_utf8EncodeChar (c : Char) :
    ∀ b ∈ String.utf8EncodeChar c, b.toNat = c.toNat ∨ 0x80 ≤ b.toNat := by
  fun_cases String.utf8EncodeChar c with
  | case1 v hv =>
    intro b hb
    obtain rfl := List.mem_singleton.mp hb
    refine .inl ?_
    rw [UInt8.toNat_ofNat']
    exact Nat.mod_eq_of_lt (by omega)
  | case2 | case3 | case4 =>
    intro b hb
    simp only [List.mem_cons, List.not_mem_nil, or_false] at hb
    rcases hb with rfl | rfl | rfl | rfl <;> rw [UInt8.toNat_ofNat'] <;> omega

theorem head?_utf8EncodeChar : (String.utf8EncodeChar c).head? = some 0x2d ↔ c = '-' := by
  constructor
  . intro h
    rw [← Char.toNat_inj]
    rcases toNat_of_mem_utf8EncodeChar c 0x2d (List.mem_of_mem_head? h) with heq | hlarge
    . exact heq.symm
    . simp at hlarge
  . rintro rfl
    rfl

theorem head?_utf8 : (utf8 s).head? = some 0x2d ↔ s.toList.head? = some '-' := by
  unfold utf8
  cases s.toList with
  | nil => simp
  | cons c cs =>
    rw [List.flatMap_cons, List.head?_append_of_ne_nil _ (by simp), head?_utf8EncodeChar]
    simp

theorem isBlank_of_isAsciiBlank (hb : b ∈ String.utf8EncodeChar c)
    (hblank : isAsciiBlank b = true) : isBlank c = true := by
  have hcases : b = 0x20 ∨ b = 0x09 ∨ b = 0x0a ∨ b = 0x0c ∨ b = 0x0d := by
    simpa [isAsciiBlank, or_assoc] using hblank
  have hc : b.toNat = c.toNat := by
    rcases toNat_of_mem_utf8EncodeChar c b hb with heq | hlarge
    . exact heq
    . rcases hcases with rfl | rfl | rfl | rfl | rfl <;> simp at hlarge
  unfold isBlank
  rw [← hc]
  rcases hcases with rfl | rfl | rfl | rfl | rfl <;> rfl

theorem utf8_ne_nil (h : s ≠ "") : utf8 s ≠ [] := by
  obtain ⟨c, cs, hs⟩ := List.exists_cons_of_ne_nil (mt String.toList_eq_nil_iff.mp h)
  unfold utf8
  rw [hs, List.flatMap_cons]
  simp

theorem exists_of_getLast?_utf8 (h : (utf8 s).getLast? = some b) :
    ∃ c, s.toList.getLast? = some c ∧ b ∈ String.utf8EncodeChar c := by
  unfold utf8 at h
  rcases List.eq_nil_or_concat s.toList with hs | ⟨before, c, hs⟩
  . simp [hs] at h
  . refine ⟨c, by simp [hs], ?_⟩
    rw [hs, List.concat_eq_append, List.flatMap_append, List.flatMap_singleton,
      List.getLast?_append, List.getLast?_eq_some_getLast (by simp), Option.some_or] at h
    obtain rfl := Option.some.inj h
    exact List.getLast_mem _

end BootCard
