import BootCard.Proofs.Asset.Delivery

/-!
This module contains which delivered files are still there in the end. A file is lost to a later one
that comes to the same place, and to one that is moved to its backup there.
-/

namespace BootCard

namespace Location

variable {loc : Location}

theorem backup_ne (hne : loc ≠ []) : loc.backup ≠ loc := by
  cases loc with
  | nil => exact absurd rfl hne
  | cons name dir =>
    intro heq
    have := congrArg List.length (List.cons.inj heq).1
    have htilde : utf8 "~" = [] := by simpa using this
    exact absurd htilde (by decide)

end Location

def Parcel.digest (parcel : Parcel) : Digest := Digest.of parcel.file.data

namespace CardFiles

variable {files : CardFiles} {parcel a b : Parcel} {loc : Location} {d : Digest}

def digest? (files : CardFiles) (loc : Location) : Option Digest :=
  (files loc).map fun f => Digest.of f.data

theorem digest?_congr {files' : CardFiles} (h : files' loc = files loc) :
    files'.digest? loc = files.digest? loc := by
  unfold digest?
  rw [h]

/-- Whether delivering a parcel moves a file of another digest to its backup. -/
def Spills (files : CardFiles) (parcel : Parcel) (d : Digest) : Prop :=
  files.digest? parcel.dest = some d ∧ d ≠ parcel.digest

theorem deliver_of_ne (h : loc ≠ parcel.dest) (h' : loc ≠ parcel.dest.backup) :
    (files.deliver parcel).1 loc = files loc := by
  unfold deliver
  split
  . exact set_of_ne _ h
  . split
    . rfl
    . dsimp only
      rw [set_of_ne _ h, set_of_ne _ h']

theorem digest?_deliver_self : (files.deliver parcel).1.digest? parcel.dest = some parcel.digest := by
  unfold deliver digest? Parcel.digest
  split
  next =>
    dsimp only
    rw [set_self, Option.map_some]
  next there hthere =>
    split
    next heq =>
      dsimp only
      rw [hthere, Option.map_some, heq]
    next =>
      dsimp only
      rw [set_self, Option.map_some]

theorem digest?_deliver_backup_of_spills (hne : parcel.dest ≠ []) (h : files.Spills parcel d) :
    (files.deliver parcel).1.digest? parcel.dest.backup = some d := by
  obtain ⟨hthere, hother⟩ := h
  unfold digest? at hthere
  obtain ⟨there, hfile, rfl⟩ := Option.map_eq_some_iff.mp hthere
  rw [deliver_of_other hfile hother]
  unfold digest?
  dsimp only
  rw [set_of_ne _ (Location.backup_ne hne), set_self, Option.map_some]

theorem deliver_backup_of_not_spills (hne : parcel.dest ≠ []) (h : ∀ d, ¬ files.Spills parcel d) :
    (files.deliver parcel).1 parcel.dest.backup = files parcel.dest.backup := by
  unfold deliver
  split
  next => exact set_of_ne _ (Location.backup_ne hne)
  next there hthere =>
    split
    next => rfl
    next hother => exact absurd ⟨by simp [digest?, hthere], hother⟩ (h (Digest.of there.data))

theorem deliverAll_append (xs ys : List Parcel) :
    (files.deliverAll (xs ++ ys)).1 = ((files.deliverAll xs).1.deliverAll ys).1 := by
  induction xs generalizing files with
  | nil => rfl
  | cons x xs ih => exact ih

end CardFiles

/-- Whether delivering one parcel leaves the place of another one alone. -/
structure Parcel.Spares (b a : Parcel) : Prop where
  dest_ne : b.dest ≠ a.dest
  backup_ne : b.dest.backup ≠ a.dest

theorem Parcel.spares_iff {a b : Parcel} :
    b.Spares a ↔ b.dest ≠ a.dest ∧ b.dest.backup ≠ a.dest :=
  ⟨fun h => ⟨h.dest_ne, h.backup_ne⟩, fun h => ⟨h.1, h.2⟩⟩

theorem Parcel.spares_or_spares {a b b' : Parcel} (h : b.Spares b') (h' : b'.Spares b)
    (hbackup : b.dest.backup ≠ b'.dest.backup) : b.Spares a ∨ b'.Spares a := by
  by_cases hdest : b'.dest = a.dest
  . exact .inl ⟨hdest ▸ h.dest_ne, hdest ▸ h.backup_ne⟩
  by_cases heq : b'.dest.backup = a.dest
  . exact .inl ⟨heq ▸ h'.backup_ne.symm, heq ▸ hbackup⟩
  exact .inr ⟨hdest, heq⟩

namespace CardFiles

variable {files : CardFiles} {a b kernel config : Parcel} {firmware programs parcels : List Parcel}

def Has (files : CardFiles) (parcel : Parcel) : Prop :=
  files.digest? parcel.dest = some parcel.digest

theorem deliver_of_spares (h : b.Spares a) : (files.deliver b).1 a.dest = files a.dest :=
  deliver_of_ne h.dest_ne.symm h.backup_ne.symm

theorem deliverAll_of_spares (h : ∀ b ∈ parcels, b.Spares a) :
    (files.deliverAll parcels).1 a.dest = files a.dest := by
  induction parcels generalizing files with
  | nil => rfl
  | cons b parcels ih =>
    exact (ih fun b hb => h b (by simp [hb])).trans (deliver_of_spares (h b (by simp)))

theorem has_congr {files' : CardFiles} (h : files' a.dest = files a.dest) :
    files'.Has a ↔ files.Has a := by
  unfold Has
  rw [digest?_congr h]

theorem has_deliverAll (h : parcels.Pairwise fun a b => b.Spares a) :
    ∀ a ∈ parcels, (files.deliverAll parcels).1.Has a := by
  induction parcels generalizing files with
  | nil => simp
  | cons b parcels ih =>
    obtain ⟨hb, hrest⟩ := List.pairwise_cons.mp h
    intro a ha
    rcases List.mem_cons.mp ha with rfl | ha
    . exact (has_congr (deliverAll_of_spares hb)).mpr digest?_deliver_self
    . exact ih hrest a ha

theorem has_deliver_iff (hne : b.dest ≠ []) (h : files.Has a) :
    (files.deliver b).1.Has a ↔ (b.dest = a.dest → b.digest = a.digest) ∧
      (b.dest.backup = a.dest → ∀ d, files.Spills b d → d = a.digest) := by
  have hbackup := Location.backup_ne hne
  unfold Has
  by_cases hdest : b.dest = a.dest
  . rw [← hdest, digest?_deliver_self, Option.some.injEq]
    simp [hbackup]
  by_cases hspills : b.dest.backup = a.dest ∧ ∃ d, files.Spills b d
  . obtain ⟨heq, d, hd⟩ := hspills
    rw [← heq, digest?_deliver_backup_of_spills hne hd, Option.some.injEq]
    have hdest' : b.dest ≠ b.dest.backup := hbackup.symm
    constructor
    . rintro rfl
      refine ⟨fun h => absurd h hdest', fun _ d' hd' => ?_⟩
      exact Option.some.inj (hd'.1.symm.trans hd.1)
    . exact fun h => h.2 rfl d hd
  . have hkept : (files.deliver b).1 a.dest = files a.dest := by
      by_cases heq : b.dest.backup = a.dest
      . rw [← heq]
        exact deliver_backup_of_not_spills hne fun d hd => hspills ⟨heq, d, hd⟩
      . exact deliver_of_spares ⟨hdest, heq⟩
    rw [digest?_congr hkept]
    constructor
    . exact fun _ => ⟨fun h => absurd h hdest, fun heq d hd => absurd ⟨heq, d, hd⟩ hspills⟩
    . exact fun _ => h

/--
Whether a parcel can be delivered after some others that are there, and they are still there then:
one for the same place has its digest, and otherwise what was in that place to begin with is not
moved to where one of them is.
-/
structure Joins (files : CardFiles) (firmware : List Parcel) (b : Parcel) : Prop where
  no_clash : ∀ a ∈ firmware, b.dest = a.dest → b.digest = a.digest
  no_spill : (∀ a ∈ firmware, b.dest ≠ a.dest) → ∀ d, files.Spills b d →
    ∀ a ∈ firmware, b.dest.backup = a.dest → d = a.digest

theorem has_deliver_all_iff {files' : CardFiles} (hne : b.dest ≠ [])
    (hhas : ∀ a ∈ firmware, files'.Has a)
    (hsame : (∀ a ∈ firmware, b.dest ≠ a.dest) → files' b.dest = files b.dest) :
    (∀ a ∈ firmware, (files'.deliver b).1.Has a) ↔ files.Joins firmware b := by
  constructor
  . intro h
    refine ⟨fun a ha => ((has_deliver_iff hne (hhas a ha)).mp (h a ha)).1, ?_⟩
    intro hfresh d hd a ha heq
    refine ((has_deliver_iff hne (hhas a ha)).mp (h a ha)).2 heq d ⟨?_, hd.2⟩
    rw [digest?_congr (hsame hfresh), hd.1]
  . intro h a ha
    refine (has_deliver_iff hne (hhas a ha)).mpr ⟨h.no_clash a ha, ?_⟩
    intro heq d hd
    by_cases hfresh : ∀ a' ∈ firmware, b.dest ≠ a'.dest
    . refine h.no_spill hfresh d ⟨?_, hd.2⟩ a ha heq
      rw [← digest?_congr (hsame hfresh), hd.1]
    . -- What is in the place of the parcel has its digest, so nothing is moved.
      obtain ⟨a', ha', hdest⟩ : ∃ a' ∈ firmware, b.dest = a'.dest := by simpa using hfresh
      have hthere := hhas a' ha'
      unfold Has at hthere
      rw [← hdest, ← h.no_clash a' ha' hdest, hd.1] at hthere
      exact absurd (Option.some.inj hthere) hd.2

/--
All files of a plan are there in the end just when the kernel and the configuration can join the
firmware. The programs are out of the way of the others.
-/
theorem has_all_iff (hfirmware : firmware.Pairwise fun a b => b.Spares a)
    (hprograms : programs.Pairwise fun a b => b.Spares a)
    (happart : ∀ b ∈ programs, ∀ a ∈ firmware ++ [kernel, config], b.Spares a)
    (hbackups : ∀ a ∈ firmware, a.dest.backup ≠ kernel.dest ∧ a.dest.backup ≠ config.dest)
    (hkernel : kernel.Spares config) (hconfig : config.Spares kernel)
    (hbackup : kernel.dest.backup ≠ config.dest.backup) (hkernel_ne : kernel.dest ≠ [])
    (hconfig_ne : config.dest ≠ []) :
    (∀ a ∈ firmware ++ [kernel, config] ++ programs,
      (files.deliverAll (firmware ++ [kernel, config] ++ programs)).1.Has a) ↔
        files.Joins firmware kernel ∧ files.Joins firmware config := by
  rw [deliverAll_append, deliverAll_append]
  show (∀ a ∈ firmware ++ [kernel, config] ++ programs,
    ((((files.deliverAll firmware).1.deliver kernel).1.deliver config).1.deliverAll programs).1.Has
      a) ↔ _
  -- What is there after the firmware, after the kernel and after the configuration.
  generalize hfiles₀ : (files.deliverAll firmware).1 = files₀
  generalize hfiles₁ : (files₀.deliver kernel).1 = files₁
  generalize hfiles₂ : (files₁.deliver config).1 = files₂
  have hhas₀ : ∀ a ∈ firmware, files₀.Has a := by
    rw [← hfiles₀]
    exact has_deliverAll hfirmware
  have hsame₀ (b : Parcel) (hb : ∀ a ∈ firmware, a.dest.backup ≠ b.dest)
      (hfresh : ∀ a ∈ firmware, b.dest ≠ a.dest) : files₀ b.dest = files b.dest := by
    rw [← hfiles₀]
    exact deliverAll_of_spares fun a ha => ⟨(hfresh a ha).symm, hb a ha⟩
  have hsame₁ : files₁ config.dest = files₀ config.dest := by
    rw [← hfiles₁]
    exact deliver_of_spares hkernel
  have hjoins_kernel : (∀ a ∈ firmware, files₁.Has a) ↔ files.Joins firmware kernel := by
    rw [← hfiles₁]
    exact has_deliver_all_iff hkernel_ne hhas₀ (hsame₀ kernel fun a ha => (hbackups a ha).1)
  have hjoins_config (h : ∀ a ∈ firmware, files₁.Has a) :
      (∀ a ∈ firmware, files₂.Has a) ↔ files.Joins firmware config := by
    rw [← hfiles₂]
    exact has_deliver_all_iff hconfig_ne h fun hfresh =>
      hsame₁.trans (hsame₀ config (fun a ha => (hbackups a ha).2) hfresh)
  have hrest : ∀ a ∈ firmware ++ [kernel, config],
      ((files₂.deliverAll programs).1.Has a ↔ files₂.Has a) :=
    fun a ha => has_congr (deliverAll_of_spares fun b hb => happart b hb a ha)
  -- What the configuration touches the kernel has not touched.
  have hback (h : ∀ a ∈ firmware, files₂.Has a) : ∀ a ∈ firmware, files₁.Has a := by
    intro a ha
    rcases Parcel.spares_or_spares hkernel hconfig hbackup with hspares | hspares
    . rw [← hfiles₁]
      exact (has_congr (deliver_of_spares hspares)).mpr (hhas₀ a ha)
    . apply (has_congr (deliver_of_spares hspares)).mp
      rw [hfiles₂]
      exact h a ha
  constructor
  . intro h
    have h₂ : ∀ a ∈ firmware, files₂.Has a := fun a ha =>
      (hrest a (by simp [ha])).mp (h a (by simp [ha]))
    exact ⟨hjoins_kernel.mp (hback h₂), (hjoins_config (hback h₂)).mp h₂⟩
  . rintro ⟨hk, hc⟩ a ha
    have h₂ := (hjoins_config (hjoins_kernel.mpr hk)).mpr hc
    simp only [List.mem_append, List.mem_cons, List.not_mem_nil, or_false] at ha
    rcases ha with (ha | rfl | rfl) | ha
    . exact (hrest a (by simp [ha])).mpr (h₂ a ha)
    . refine (hrest a (by simp)).mpr ?_
      rw [← hfiles₂, has_congr (deliver_of_spares hconfig), ← hfiles₁]
      exact digest?_deliver_self
    . refine (hrest a (by simp)).mpr ?_
      rw [← hfiles₂]
      exact digest?_deliver_self
    . exact has_deliverAll hprograms a ha

end CardFiles

end BootCard
