import BootCard.Proofs.Card.Choosing
import BootCard.Disk.Layout

/-!
This module contains choosing a card again: the one of the last run is chosen, without a question
and from wherever the run is started, if the file that remembers it tells it exactly.
-/

namespace BootCard

open FileSystem

variable {w w' v : World} {card file : Pathname}

namespace CardMemory

theorem load_file_of_find {loc : Location} {f : RegularFile}
    (hfind : w.disk.find file = .ok (.file loc f)) (hread : f.mode.canRead = true) :
    (CardMemory.file file).load.start w = (.ok (ofText? f.data), w) := by
  have hfile : w.disk.isFile file = true := isFile_eq_true.mpr ⟨loc, f, hfind⟩
  have hdata : w.disk.readFile file = .ok f.data := by rw [readFile_file hfind, if_pos hread]
  show (do
    if !(← Action.askDisk (·.isFile file)) then
      pure none
    else
      let text ← Action.during (.readingRemembered file)
        (Action.onDisk (Session.ask (·.readFile file)))
      pure (ofText? text) : Action (Option Pathname)).start w = _
  rw [Action.start_bind, Action.start_askDisk]
  dsimp only
  rw [hfile, Bool.not_true, if_neg (by simp)]
  simp only [Action.start_bind_eq_ok, Action.start_during_eq_ok, Action.start_onDisk_eq_ok,
    Session.start_ask, Prod.mk.injEq]
  exact ⟨f.data, w, ⟨w.disk, ⟨hdata, rfl⟩, rfl⟩, rfl⟩

theorem ofText?_of_trimmed (hne : card.bytes ≠ []) (htrim : card.bytes.trimAscii = card.bytes) :
    ofText? card.bytes = some card := by
  unfold ofText?
  rw [htrim]
  exact if_neg hne

end CardMemory

namespace Choice

variable {volumes volumes' file' : Pathname} {operator operator' : Operator}
variable {named : Option Pathname}

theorem choose_file_eq_ok
    (h : (choose volumes (.file file) operator named).start w = (.ok card, w')) :
    (∃ q, w'.disk.find card = .ok (.dir q)) ∧ ∃ loc mode, mode.canWrite = true ∧
      w'.disk.find file = .ok (.file loc ⟨card.bytes, mode, .now⟩) := by
  rw [choose_eq] at h
  simp only [Action.start_bind_eq_ok, Action.start_pure, Prod.mk.injEq, Except.ok.injEq] at h
  obtain ⟨_, w₁, -, ready, w₂, hwait, _, _, hsave, rfl, rfl⟩ := h
  obtain ⟨fs, hwrite, rfl⟩ := CardMemory.save_file_eq_ok.mp hsave
  obtain ⟨q, hq⟩ := isDir_eq_true.mp (Waiting.isDir_of_untilDirectory hwait)
  exact ⟨⟨q, (writeFile_written hwrite).find_eq_dir_iff.mpr hq⟩, writeFile_eq_ok hwrite⟩

/--
The card of the last run is chosen again, by a run that is started anywhere if its path is absolute,
and nobody is asked. The file that remembers it has to be readable, and the path may not have an
ASCII blank at either end, which would not be taken for a part of it.
-/
theorem choose_again
    (h : (choose volumes (.file file) operator named).start w = (.ok card, w'))
    (htrim : card.bytes.trimAscii = card.bytes) (hnodes : v.disk.nodes = w'.disk.nodes)
    (hstart : card.isAbsolute = true ∨ v.disk.here = w'.disk.here)
    (hfile : v.disk.find file' = w'.disk.find file)
    (hread : (w'.disk.readFile file).isOk = true) :
    (choose volumes' (.file file') operator' none).start v =
        (.ok card, { v with transcript := v.transcript ++
          [.noted .debug s!"using cached target {card.display}"] }) ∧
      ∃ q, w'.disk.find card = .ok (.dir q) ∧ v.disk.find card = .ok (.dir q) := by
  obtain ⟨⟨q, hq⟩, loc, mode, hwrite, hfind⟩ := choose_file_eq_ok h
  have hq' : v.disk.find card = .ok (.dir q) := (find_of_nodes hnodes hstart).trans hq
  refine ⟨?_, q, hq, hq'⟩
  have hreadable := canRead_of_readFile hfind hread
  rw [hfind] at hfile
  have hne : card.bytes ≠ [] := (find_eq_dir.mp hq).1.not_empty
  have hload := CardMemory.load_file_of_find hfile hreadable
  dsimp only at hload
  rw [CardMemory.ofText?_of_trimmed hne htrim] at hload
  let told : World := { v with transcript := v.transcript ++
    [.noted .debug s!"using cached target {card.display}"] }
  have hwait : (Waiting.untilDirectory card none).start told = (.ok true, told) :=
    Waiting.untilDirectory_of_isDir (isDir_eq_true.mpr ⟨q, hq'⟩)
  have hsave : ((CardMemory.file file').save card).start told = (.ok (), told) :=
    CardMemory.save_file_eq_ok.mpr ⟨v.disk, writeFile_of_find hwrite hfile, rfl⟩
  rw [choose_eq]
  unfold pick rememberedOrAsked
  simp only [Action.start_bind_eq_ok]
  exact ⟨card, told, ⟨some card, v, hload, rfl⟩, true, told, hwait, (), told, hsave, rfl⟩

def someCards : World where
  disk :=
    let dirs : List Pathname := ["/card", "/card ", "/first/card", "/second/card"]
    let secret : Node := .file ⟨[], Mode.ofNat 0o200, .at 0⟩
    (dirs.map fun path => (Location.ofPath path, Node.dir Mode.newDirectory)).foldl
      FileSystem.lay (FileSystem.empty.lay (Location.ofPath "/secret", secret))

def startedIn (path : Pathname) (w : World) : World :=
  { w with disk := { w.disk with here := .at (Location.ofPath path) } }

def chooseAlone (file : Pathname) (named : Option Pathname) (w : World) :
    Except Stop Pathname × World :=
  (choose "/media" (.file file) ⟨fun _ => pure ""⟩ named).start w

def chosen? (choice : Except Stop Pathname × World) : Option Place :=
  match choice.1.toOption.map choice.2.disk.find with
  | some (.ok (.dir p)) => some p
  | _ => none

set_option maxRecDepth 100000 in
theorem choose_again_someCards :
    ∃ w', chooseAlone "/remembered" (some "/card") someCards = (.ok "/card", w') ∧
      (chooseAlone "/remembered" none (startedIn "/second" w')).1 = .ok "/card" ∧
      ∃ q, w'.disk.find "/card" = .ok (.dir q) ∧
        (startedIn "/second" w').disk.find "/card" = .ok (.dir q) := by
  have hok : (chooseAlone "/remembered" (some "/card") someCards).1.toOption = some "/card" := by
    decide +kernel
  have hread : ((chooseAlone "/remembered" (some "/card") someCards).2.disk.readFile
      "/remembered").isOk = true := by
    decide +kernel
  rcases h : chooseAlone "/remembered" (some "/card") someCards with ⟨r, w'⟩
  rw [h] at hok hread
  cases r with
  | error s => simp [Except.toOption] at hok
  | ok card =>
    obtain rfl : card = "/card" := Option.some.inj hok
    have hfile : (startedIn "/second" w').disk.find "/remembered" = w'.disk.find "/remembered" :=
      find_of_nodes rfl (.inl (by decide))
    obtain ⟨hchoice, hplace⟩ := choose_again (v := startedIn "/second" w') h (by decide) rfl
      (.inl (by decide)) hfile hread
    exact ⟨w', rfl, congrArg Prod.fst hchoice, hplace⟩

set_option maxRecDepth 100000 in
/--
Another card is chosen again if its path has a blank at its end or is read elsewhere, and none if
what is remembered cannot be read.
-/
theorem choose_again_elsewhere :
    let blank := chooseAlone "/remembered" (some "/card ") someCards
    let relative := chooseAlone "/remembered" (some "card") (startedIn "/first" someCards)
    let secret := chooseAlone "/secret" (some "/card") someCards
    chosen? blank = some (.at (Location.ofPath "/card ")) ∧
      chosen? (chooseAlone "/remembered" none blank.2) = some (.at (Location.ofPath "/card")) ∧
      chosen? relative = some (.at (Location.ofPath "/first/card")) ∧
      chosen? (chooseAlone "/remembered" none (startedIn "/second" relative.2)) =
        some (.at (Location.ofPath "/second/card")) ∧
      chosen? secret = some (.at (Location.ofPath "/card")) ∧
      chosen? (chooseAlone "/secret" none secret.2) = none := by
  decide +kernel

end Choice

end BootCard
