import BootCard.Proofs.Card.Remembering
import BootCard.Proofs.Card.Resolving
import BootCard.Proofs.Pathname.Trunk
import BootCard.Proofs.Text.Encoding

/-!
This module contains what is left of a card that is saved in a file and loaded again: all of it but
the ASCII blanks around its path. An answer of an operator has none where it counts, since more
characters are blanks in a text than in bytes.
-/

namespace BootCard

open FileSystem

variable {w w₁ w' : World} {file card volumes : Pathname}

/-- Whether a path is not empty and does not begin or end with an ASCII blank. -/
structure Pathname.IsTrimmed (path : Pathname) : Prop where
  not_empty : path.bytes ≠ []
  first : ∀ b, path.bytes.head? = some b → isAsciiBlank b = false
  last : ∀ b, path.bytes.getLast? = some b → isAsciiBlank b = false

namespace CardMemory

/-- What a text tells: no card if it is blank, or else the path between the blanks at its ends. -/
inductive Tells (text : Bytes) : Option Pathname → Prop where
  | blank : (∀ b ∈ text, isAsciiBlank b = true) → Tells text none
  | path {card : Pathname} : TrimsTo isAsciiBlank text card.bytes → card.bytes ≠ [] →
    Tells text (some card)

theorem tells_ofText? (text : Bytes) : Tells text (ofText? text) := by
  unfold ofText? Bytes.trimAscii
  dsimp only
  split
  next h => exact .blank (trimBoth_eq_nil_iff.mp h)
  next h => exact .path (trimsTo_trimBoth isAsciiBlank text) h

theorem ofText?_eq_iff {text : Bytes} {card? : Option Pathname} :
    ofText? text = card? ↔ Tells text card? := by
  constructor
  . rintro rfl
    exact tells_ofText? text
  . intro h
    unfold ofText? Bytes.trimAscii
    cases h with
    | blank hblank => rw [trimBoth_eq_nil hblank, if_pos rfl]
    | path htrims hne =>
      rw [htrims.trimBoth_eq]
      exact if_neg hne

theorem tells_self_iff : Tells card.bytes (some card) ↔ card.IsTrimmed := by
  constructor
  . rintro (_ | ⟨htrims, hne⟩)
    exact ⟨hne, htrims.first, htrims.last⟩
  . intro h
    exact .path ⟨⟨[], [], by simp, by simp, by simp⟩, h.first, h.last⟩ h.not_empty

theorem load_of_save (hsave : ((CardMemory.file file).save card).start w = (.ok (), w'))
    (hread : (w'.disk.readFile file).isOk = true) :
    (CardMemory.file file).load.start w' = (.ok (ofText? card.bytes), w') := by
  obtain ⟨fs, hwrite, rfl⟩ := save_file_eq_ok.mp hsave
  obtain ⟨loc, mode, -, hfind⟩ := writeFile_eq_ok hwrite
  have hload {v : World} (hdisk : v.disk = fs) :
      (CardMemory.file file).load.start v = (.ok (ofText? card.bytes), v) := by
    rw [← hdisk] at hfind hread
    exact load_file_of_find hfind (canRead_of_readFile hfind hread)
  exact hload rfl

end CardMemory

namespace Choice

variable {memory : CardMemory} {operator : Operator}

theorem answered_of_choose (hload : memory.load.start w = (.ok none, w₁))
    (h : (choose volumes memory operator none).start w = (.ok card, w')) :
    (∃ answer name : String, TrimsTo isBlank answer.toList name.toList ∧ name ≠ "" ∧
      card = volumes / Pathname.ofString name) ∧
      ∃ waited, (memory.save card).start waited = (.ok (), w') := by
  obtain ⟨consulted, picked, hresolves⟩ := start_choose_iff.mp h
  cases hresolves with
  | saved hpicks _ _ hsave =>
    refine ⟨?_, _, hsave⟩
    cases hpicks with
    | remembered hload' => simp [hload] at hload'
    | answered _ _ htrims hne => exact ⟨_, _, htrims, hne, rfl⟩

theorem isTrimmed_of_answer {answer name : String} (habsolute : volumes.isAbsolute = true)
    (htrims : TrimsTo isBlank answer.toList name.toList) (hne : name ≠ "") :
    (volumes / Pathname.ofString name).IsTrimmed := by
  have hfirst : (volumes / Pathname.ofString name).bytes.head? = some Bytes.slash := by
    simpa [Pathname.isAbsolute] using Pathname.isAbsolute_join habsolute
  refine ⟨?_, ?_, ?_⟩
  . intro hnil
    simp [hnil] at hfirst
  . intro b hb
    obtain rfl : Bytes.slash = b := by simpa [hfirst] using hb
    rfl
  . intro b hb
    have hname : (Pathname.ofString name).bytes ≠ [] := utf8_ne_nil hne
    rw [Pathname.getLast?_join hname] at hb
    obtain ⟨c, hc, hmem⟩ := exists_of_getLast?_utf8 hb
    -- A blank byte at the end would be a blank character at the end of the answer.
    rw [Bool.eq_false_iff]
    intro hblank
    have hlast := isBlank_of_isAsciiBlank hmem hblank
    simp [htrims.last c hc] at hlast

end Choice

namespace CardMemory

/--
A card that has been saved is loaded again without the ASCII blanks around its path, and not at all
if there is nothing else to it. If it cannot be saved, the file is as it was before. An answer of an
operator loses nothing, wherever it is saved, if the volumes have an absolute path.
-/
theorem load_after_save (file : Pathname) :
    (∀ (card : Pathname) (w w' : World),
      ((CardMemory.file file).save card).start w = (.ok (), w') →
      (w'.disk.readFile file).isOk = true →
      (∃ card?, Tells card.bytes card?) ∧
      (∀ card?, (CardMemory.file file).load.start w' = (.ok card?, w') ↔ Tells card.bytes card?) ∧
      ((CardMemory.file file).load.start w' = (.ok (some card), w') ↔ card.IsTrimmed)) ∧
    (∀ (card : Pathname) (w w' : World) (s : Stop),
      ((CardMemory.file file).save card).start w = (.error s, w') → w' = w) ∧
    ∀ (volumes card : Pathname) (memory : CardMemory) (operator : Operator) (w w₁ w' : World),
      volumes.isAbsolute = true → memory.load.start w = (.ok none, w₁) →
      (Choice.choose volumes memory operator none).start w = (.ok card, w') →
      card.IsTrimmed ∧
      (memory = .file file → (w'.disk.readFile file).isOk = true →
        (CardMemory.file file).load.start w' = (.ok (some card), w')) := by
  have hreloads {card : Pathname} {w w' : World}
      (hsave : ((CardMemory.file file).save card).start w = (.ok (), w'))
      (hread : (w'.disk.readFile file).isOk = true) (card? : Option Pathname) :
      (CardMemory.file file).load.start w' = (.ok card?, w') ↔ Tells card.bytes card? := by
    rw [load_of_save hsave hread, ← ofText?_eq_iff]
    simp
  refine ⟨?_, ?_, ?_⟩
  . intro card w w' hsave hread
    refine ⟨⟨_, tells_ofText? card.bytes⟩, hreloads hsave hread, ?_⟩
    rw [hreloads hsave hread, tells_self_iff]
  . intro card w w' s hsave
    exact (IsPlain.file file).isSafe.save_snd card w s w' hsave
  . intro volumes card memory operator w w₁ w' habsolute hload hchoose
    obtain ⟨⟨answer, name, htrims, hne, rfl⟩, waited, hsave⟩ :=
      Choice.answered_of_choose hload hchoose
    have htrimmed := Choice.isTrimmed_of_answer habsolute htrims hne
    refine ⟨htrimmed, ?_⟩
    rintro rfl hread
    exact (hreloads hsave hread _).mpr (tells_self_iff.mpr htrimmed)

def bootVolume : World where
  disk := FileSystem.empty.lay (Location.ofPath "/media/BOOT", .dir Mode.newDirectory)

def paddedCard : Pathname := ⟨utf8 " \t/media/my card\n" ++ 0xff :: utf8 "\x0b\r\n"⟩

def hurriedOperator : Operator := ⟨fun _ => pure " \u2003BOOT\x0b\u2003\n"⟩

set_option maxRecDepth 100000 in
theorem load_after_save_paddedCard :
    (∃ w', ((CardMemory.file "/remembered").save paddedCard).start bootVolume = (.ok (), w') ∧
      (CardMemory.file "/remembered").load.start w' =
        (.ok (some ⟨utf8 "/media/my card\n" ++ 0xff :: utf8 "\x0b"⟩), w')) ∧
    ∃ w', (Choice.choose "/media" (.file "/remembered") hurriedOperator none).start bootVolume =
        (.ok "/media/BOOT", w') ∧
      (CardMemory.file "/remembered").load.start w' = (.ok (some "/media/BOOT"), w') := by
  obtain ⟨hsaved, -, hanswered⟩ := load_after_save "/remembered"
  constructor
  . rcases h : ((CardMemory.file "/remembered").save paddedCard).start bootVolume with ⟨r, w'⟩
    have hok : (((CardMemory.file "/remembered").save paddedCard).start bootVolume).1.toOption =
        some () := by
      decide +kernel
    have hread : ((((CardMemory.file "/remembered").save paddedCard).start
        bootVolume).2.disk.readFile "/remembered").isOk = true := by
      decide +kernel
    rw [h] at hok hread
    obtain rfl : r = .ok () := except_toOption_eq_some.mp hok
    obtain ⟨-, hreloads, -⟩ := hsaved _ _ _ h hread
    refine ⟨w', rfl, (hreloads _).mpr (.path ⟨⟨utf8 " \t", utf8 "\r\n", ?_, ?_, ?_⟩, ?_, ?_⟩ ?_)⟩
      <;> decide
  . rcases h : (Choice.choose "/media" (.file "/remembered") hurriedOperator none).start
      bootVolume with ⟨r, w'⟩
    have hok : ((Choice.choose "/media" (.file "/remembered") hurriedOperator none).start
        bootVolume).1.toOption = some "/media/BOOT" := by
      decide +kernel
    have hread : (((Choice.choose "/media" (.file "/remembered") hurriedOperator none).start
        bootVolume).2.disk.readFile "/remembered").isOk = true := by
      decide +kernel
    rw [h] at hok hread
    obtain rfl : r = .ok "/media/BOOT" := except_toOption_eq_some.mp hok
    obtain ⟨-, hreload⟩ := hanswered _ _ _ _ _ _ _ (by decide)
      (show (CardMemory.file "/remembered").load.start bootVolume = (.ok none, bootVolume) from rfl)
      h
    exact ⟨w', rfl, hreload rfl hread⟩

end CardMemory

end BootCard
