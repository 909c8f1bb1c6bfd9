import BootCard.Disk.Walk
import BootCard.Pathname.Extension

/-!
This module contains the algebra of the components of a path: what they are for a path that follows
another one, for the path of a directory above, and for a path with a text put after its last byte.
-/

namespace BootCard

namespace Bytes

variable {sep : UInt8}

@[simp]
theorem slash_ne_dot : slash ≠ dot := by decide

@[simp]
theorem dot_ne_slash : dot ≠ slash := by decide

theorem splitOn_append_sep (xs ys : Bytes) :
    splitOn sep (xs ++ sep :: ys) = splitOn sep xs ++ splitOn sep ys := by
  induction xs with
  | nil => simp [splitOn]
  | cons x xs ih =>
    simp only [List.cons_append, splitOn]
    split
    . simp [ih]
    . rw [ih]
      cases hs : splitOn sep xs with
      | nil => exact absurd hs (splitOn_ne_nil sep xs)
      | cons piece pieces => simp

theorem splitOn_of_not_mem {bs : Bytes} (h : sep ∉ bs) : splitOn sep bs = [bs] := by
  induction bs with
  | nil => rfl
  | cons b rest ih =>
    simp only [List.mem_cons, not_or] at h
    simp [splitOn, ih h.2, Ne.symm h.1]

theorem not_mem_of_mem_splitOn {bs piece : Bytes} (h : piece ∈ splitOn sep bs) : sep ∉ piece := by
  induction bs generalizing piece with
  | nil => simp_all [splitOn]
  | cons b rest ih =>
    simp only [splitOn] at h
    split at h
    . rcases List.mem_cons.mp h with rfl | h
      . simp
      . exact ih h
    next hb =>
      cases hs : splitOn sep rest with
      | nil => exact absurd hs (splitOn_ne_nil sep rest)
      | cons first pieces =>
        rw [hs] at ih h
        rcases List.mem_cons.mp h with rfl | h
        . have := ih (List.mem_cons_self)
          simp [this, Ne.symm hb]
        . exact ih (List.mem_cons_of_mem _ h)

theorem splitOn_joinWith {pieces : List Bytes} (hne : pieces ≠ [])
    (h : ∀ piece ∈ pieces, sep ∉ piece) : splitOn sep (joinWith [sep] pieces) = pieces := by
  induction pieces with
  | nil => exact absurd rfl hne
  | cons piece pieces ih =>
    have hp := splitOn_of_not_mem (h piece (by simp))
    cases pieces with
    | nil => exact hp
    | cons next pieces =>
      have hrest := ih (by simp) fun p hm => h p (List.mem_cons_of_mem _ hm)
      simp only [joinWith, List.append_assoc, List.singleton_append] at hrest ⊢
      rw [splitOn_append_sep, hp, hrest]
      rfl

theorem joinWith_append_last (sep : Bytes) (pieces : List Bytes) (last bs : Bytes) :
    joinWith sep (pieces ++ [last]) ++ bs = joinWith sep (pieces ++ [last ++ bs]) := by
  induction pieces with
  | nil => rfl
  | cons piece pieces ih =>
    cases pieces with
    | nil => simp [joinWith]
    | cons next pieces => simpa [joinWith] using ih

theorem splitOn_append_of_not_mem {xs ys last : Bytes} {before : List Bytes}
    (hxs : splitOn sep xs = before ++ [last]) (hys : sep ∉ ys) :
    splitOn sep (xs ++ ys) = before ++ [last ++ ys] := by
  have hpieces : ∀ piece ∈ before ++ [last], sep ∉ piece := by
    intro piece hm
    exact not_mem_of_mem_splitOn (hxs ▸ hm)
  rw [← joinWith_splitOn sep xs, hxs, joinWith_append_last]
  apply splitOn_joinWith
  . simp
  . intro piece hm
    rcases List.mem_append.mp hm with hm | hm
    . exact hpieces piece (by simp [hm])
    . have := hpieces last (by simp)
      simp_all

theorem joinWith_isPrefix {sep : Bytes} {xs ys : List Bytes} (h : xs <+: ys) :
    joinWith sep xs <+: joinWith sep ys := by
  obtain ⟨zs, rfl⟩ := h
  induction xs with
  | nil => exact List.nil_prefix
  | cons x xs ih =>
    cases xs with
    | nil =>
      cases zs with
      | nil => exact List.prefix_refl _
      | cons z zs =>
        show x <+: x ++ sep ++ joinWith sep (z :: zs)
        rw [List.append_assoc]
        exact List.prefix_append _ _
    | cons x' xs => exact (List.prefix_append_right_inj (x ++ sep)).mpr ih

end Bytes

namespace Component

def ofPiece (piece : Bytes) : Component :=
  if piece = [Bytes.dot] then .here
  else if piece = Pathname.upPiece then .up
  else .name piece

def names (cs : List Component) : List Name :=
  cs.filterMap fun
    | .name n => some n
    | _ => none

@[simp]
theorem names_append (cs ds : List Component) : names (cs ++ ds) = names cs ++ names ds := by
  simp [names]

@[simp]
theorem names_cons_name (n : Name) (cs : List Component) :
    names (.name n :: cs) = n :: names cs := rfl

@[simp]
theorem names_cons_here (cs : List Component) : names (.here :: cs) = names cs := rfl

@[simp]
theorem names_cons_close (cs : List Component) : names (.close :: cs) = names cs := rfl

@[simp]
theorem names_nil : names [] = [] := rfl

theorem ofPiece_ne_close (piece : Bytes) : ofPiece piece ≠ .close := by
  unfold ofPiece
  split <;> simp
  split <;> simp

theorem ofPiece_eq_name {piece : Bytes} {n : Name} (h : ofPiece piece = .name n) : piece = n := by
  unfold ofPiece at h
  split at h
  . simp at h
  . split at h
    . simp at h
    . simpa using h

end Component

def partsOf (pieces : List Bytes) : List Component :=
  (pieces.filter (· != [])).map Component.ofPiece

@[simp]
theorem partsOf_append (ps qs : List Bytes) : partsOf (ps ++ qs) = partsOf ps ++ partsOf qs := by
  simp [partsOf]

@[simp]
theorem partsOf_nil : partsOf [] = [] := rfl

@[simp]
theorem partsOf_cons_nil (ps : List Bytes) : partsOf ([] :: ps) = partsOf ps := by
  simp [partsOf]

theorem partsOf_cons {p : Bytes} (hp : p ≠ []) (ps : List Bytes) :
    partsOf (p :: ps) = Component.ofPiece p :: partsOf ps := by
  simp [partsOf, hp]

theorem ne_close_of_mem_partsOf {ps : List Bytes} {c : Component} (h : c ∈ partsOf ps) :
    c ≠ .close := by
  obtain ⟨p, -, rfl⟩ := List.mem_map.mp h
  exact Component.ofPiece_ne_close p

namespace Pathname

def parts (p : Pathname) : List Component := partsOf (Bytes.splitOn Bytes.slash p.bytes)

def isClosed (p : Pathname) : Bool :=
  (Bytes.splitOn Bytes.slash p.bytes).getLast? = some [] ∧ p.parts ≠ []

theorem isClosed_iff (p : Pathname) :
    p.isClosed = true ↔ (Bytes.splitOn Bytes.slash p.bytes).getLast? = some [] ∧ p.parts ≠ [] := by
  simp [isClosed]

theorem components_eq (p : Pathname) :
    components p.bytes = p.parts ++ if p.isClosed then [.close] else [] := by
  have hne : p.parts ≠ [] ↔ (Bytes.splitOn Bytes.slash p.bytes).filter (· != []) ≠ [] := by
    unfold parts partsOf
    simp only [ne_eq, List.map_eq_nil_iff]
  unfold components
  by_cases hc : p.isClosed = true
  . have := (isClosed_iff p).mp hc
    rw [hne] at this
    rw [if_pos hc]
    exact if_pos this
  . have := mt (isClosed_iff p).mpr hc
    rw [hne] at this
    rw [if_neg hc, List.append_nil]
    exact if_neg this

theorem ne_close_of_mem_parts {p : Pathname} {c : Component} (h : c ∈ p.parts) : c ≠ .close :=
  ne_close_of_mem_partsOf h

theorem join_of_isAbsolute {p q : Pathname} (h : q.isAbsolute = true) : p / q = q := by
  show p.join q = q
  unfold join
  rw [if_pos h]

theorem join_eq {p q : Pathname} (hp : p.bytes ≠ []) (hq : q.isAbsolute = false) :
    ∃ front, (p / q).bytes = front ++ Bytes.slash :: q.bytes ∧
      p.parts = partsOf (Bytes.splitOn Bytes.slash front) ∧
      (front ≠ [] → front.head? = p.bytes.head?) ∧ (front = [] → p.bytes = [Bytes.slash]) := by
  show ∃ front, (p.join q).bytes = _ ∧ _
  have hlast : p.bytes.getLast? = some (p.bytes.getLast hp) := List.getLast?_eq_some_getLast hp
  unfold join
  simp only [hq, Bool.false_eq_true, if_false, hlast]
  have hsplit := (List.dropLast_concat_getLast hp).symm
  split
  next hb =>
    rw [hb] at hsplit
    refine ⟨p.bytes.dropLast, ?_, ?_, ?_, ?_⟩
    . simpa using congrArg (· ++ q.bytes) hsplit
    . unfold parts
      conv => lhs; rw [hsplit]
      rw [Bytes.splitOn_append_sep]
      simp [Bytes.splitOn]
    . intro hne
      conv => rhs; rw [hsplit]
      simp [List.head?_append, List.head?_eq_some_head hne]
    . intro hnil
      rw [hsplit, hnil]
      rfl
  next => exact ⟨p.bytes, rfl, rfl, fun _ => rfl, fun h => absurd h hp⟩

theorem parts_ne_nil {q : Pathname} (hq : q.isAbsolute = false) (hne : q.bytes ≠ []) :
    q.parts ≠ [] := by
  unfold isAbsolute at hq
  unfold parts
  cases hb : q.bytes with
  | nil => exact absurd hb hne
  | cons b rest =>
    have hslash : b ≠ Bytes.slash := by simpa [hb] using hq
    simp only [Bytes.splitOn, hslash, if_false]
    cases hs : Bytes.splitOn Bytes.slash rest with
    | nil => simp [partsOf]
    | cons piece pieces => simp [partsOf]

theorem head?_join {p q : Pathname} (hp : p.bytes ≠ []) (hq : q.isAbsolute = false) :
    (p / q).bytes.head? = p.bytes.head? := by
  obtain ⟨front, hbytes, -, hhead, hnil⟩ := join_eq hp hq
  rw [hbytes]
  cases front with
  | nil => simp [hnil rfl]
  | cons b front => exact hhead (by simp)

theorem getLast?_join {p q : Pathname} (hq : q.bytes ≠ []) :
    (p / q).bytes.getLast? = q.bytes.getLast? := by
  have hsome (bs : Bytes) : (bs ++ q.bytes).getLast? = q.bytes.getLast? := by
    rw [List.getLast?_append, List.getLast?_eq_some_getLast hq, Option.some_or]
  show (p.join q).bytes.getLast? = _
  unfold join
  split
  . rfl
  . split
    . rfl
    . split
      . exact hsome p.bytes
      . simpa using hsome (p.bytes ++ [Bytes.slash])

theorem parts_join {p q : Pathname} (hp : p.bytes ≠ []) (hq : q.isAbsolute = false) :
    (p / q).parts = p.parts ++ q.parts := by
  obtain ⟨front, hbytes, hparts, -, -⟩ := join_eq hp hq
  rw [hparts]
  unfold parts
  rw [hbytes, Bytes.splitOn_append_sep, partsOf_append]

theorem components_join {p q : Pathname} (hp : p.bytes ≠ []) (hq : q.isAbsolute = false)
    (hne : q.bytes ≠ []) : components (p / q).bytes = p.parts ++ components q.bytes := by
  obtain ⟨front, hbytes, -, -, -⟩ := join_eq hp hq
  have hsplit : Bytes.splitOn Bytes.slash (p / q).bytes =
      Bytes.splitOn Bytes.slash front ++ Bytes.splitOn Bytes.slash q.bytes := by
    rw [hbytes, Bytes.splitOn_append_sep]
  have hclosed : (p / q).isClosed = q.isClosed := by
    have hsome := List.getLast?_eq_some_getLast (Bytes.splitOn_ne_nil Bytes.slash q.bytes)
    rw [Bool.eq_iff_iff, isClosed_iff, isClosed_iff, parts_join hp hq, hsplit,
      List.getLast?_append, hsome]
    simp [parts_ne_nil hq hne]
  rw [components_eq, components_eq, parts_join hp hq, hclosed, List.append_assoc]

theorem head_cases (p : Pathname) :
    (∃ rest, p.bytes = Bytes.slash :: rest ∧ p.head = [Bytes.slash] ∧
        p.pieces = Bytes.splitOn Bytes.slash rest) ∨
      (p.bytes = [Bytes.dot] ∧ p.head = [Bytes.dot] ∧ p.pieces = [[]]) ∨
      (∃ rest, p.bytes = Bytes.dot :: Bytes.slash :: rest ∧ p.head = [Bytes.dot] ∧
        p.pieces = [] :: Bytes.splitOn Bytes.slash rest) ∨
      (p.bytes.head? ≠ some Bytes.slash ∧ p.head = [] ∧
        p.pieces = Bytes.splitOn Bytes.slash p.bytes) := by
  unfold pieces
  cases hb : p.bytes with
  | nil =>
    have hhead : p.head = [] := by simp [head, hb]
    simp [hhead]
  | cons b rest =>
    by_cases hslash : b = Bytes.slash
    . have hhead : p.head = [Bytes.slash] := by simp [head, hb, hslash]
      left
      exact ⟨rest, by rw [hslash], hhead, by simp [hhead]⟩
    . by_cases hdot : b = Bytes.dot ∧ (rest = [] ∨ rest.head? = some Bytes.slash)
      . have hhead : p.head = [Bytes.dot] := by
          simp only [head, hb]
          rw [if_neg hslash, if_pos hdot]
        obtain ⟨rfl, hrest⟩ := hdot
        rcases hrest with rfl | hrest
        . right; left
          simp [hhead, Bytes.splitOn]
        . right; right; left
          obtain ⟨r, rfl⟩ := List.head?_eq_some_iff.mp hrest
          exact ⟨r, rfl, hhead, by simp [hhead, Bytes.splitOn]⟩
      . have hhead : p.head = [] := by simp [head, hb, hslash, hdot]
        right; right; right
        simp [hhead, hslash]

def headParts (p : Pathname) : List Component := if p.head = [Bytes.dot] then [.here] else []

theorem parts_eq (p : Pathname) : p.parts = p.headParts ++ partsOf p.pieces := by
  unfold parts headParts
  rcases p.head_cases with ⟨rest, hb, hh, hp⟩ | ⟨hb, hh, hp⟩ | ⟨rest, hb, hh, hp⟩ | ⟨-, hh, hp⟩
  . simp [hb, hh, hp, Bytes.splitOn]
  . rw [hb, hh, hp]
    rfl
  . have hsplit : Bytes.splitOn Bytes.slash (Bytes.dot :: Bytes.slash :: rest) =
        [Bytes.dot] :: Bytes.splitOn Bytes.slash rest :=
      Bytes.splitOn_append_sep [Bytes.dot] rest
    rw [hb, hh, hp, hsplit, partsOf_cons (by simp), partsOf_cons_nil]
    rfl
  . simp [hh, hp]

theorem not_isClosed_of_last {p : Pathname} {before : List Bytes} {last : Bytes}
    (h : Bytes.splitOn Bytes.slash p.bytes = before ++ [last]) (hlast : last ≠ []) :
    p.isClosed = false := by
  rw [Bool.eq_false_iff, ne_eq, isClosed_iff, h]
  simp [hlast]

theorem eq_nil_of_prefix_empty {ps : List Bytes} (hps : ps <+: [[]])
    (hlast : ∀ last, ps.getLast? = some last → last ≠ []) : ps = [] := by
  rcases List.prefix_cons_iff.mp hps with h | ⟨t, h, ht⟩
  . exact h
  . rw [List.prefix_nil] at ht
    exact absurd rfl (hlast [] (by simp [h, ht]))

theorem head?_joinWith_ne_slash {bs : Bytes} {ps : List Bytes} (hbs : bs.head? ≠ some Bytes.slash)
    (hps : ps <+: Bytes.splitOn Bytes.slash bs) (hnil : ps ≠ [])
    (hlast : ∀ last, ps.getLast? = some last → last ≠ []) :
    (Bytes.joinWith [Bytes.slash] ps).head? ≠ some Bytes.slash := by
  cases bs with
  | nil => exact absurd (eq_nil_of_prefix_empty hps hlast) hnil
  | cons b rest =>
    have hb : b ≠ Bytes.slash := by simpa using hbs
    obtain ⟨t, more, hmore⟩ : ∃ t more, Bytes.splitOn Bytes.slash (b :: rest) = (b :: t) :: more := by
      simp only [Bytes.splitOn, hb, if_false]
      cases Bytes.splitOn Bytes.slash rest <;> simp
    rw [hmore] at hps
    rcases List.prefix_cons_iff.mp hps with h | ⟨tail, h, -⟩
    . exact absurd h hnil
    . rw [h]
      cases tail <;> simp [Bytes.joinWith, hb]

theorem splitOn_dot_joinWith {ps : List Bytes} (hnil : ps ≠ [])
    (hslash : ∀ piece ∈ ps, Bytes.slash ∉ piece) :
    Bytes.splitOn Bytes.slash (Bytes.dot :: Bytes.slash :: Bytes.joinWith [Bytes.slash] ps) =
      [[Bytes.dot]] ++ ps := by
  have : Bytes.splitOn Bytes.slash
      ([Bytes.dot] ++ Bytes.slash :: Bytes.joinWith [Bytes.slash] ps) = _ :=
    Bytes.splitOn_append_sep _ _
  simp_all [Bytes.splitOn_joinWith hnil hslash, Bytes.splitOn]

theorem parts_front {p : Pathname} {ps : List Bytes} (hps : ps <+: p.pieces)
    (hlast : ∀ last, ps.getLast? = some last → last ≠ [])
    (hne : p.head ++ Bytes.joinWith [Bytes.slash] ps ≠ []) :
    let q : Pathname := ⟨p.head ++ Bytes.joinWith [Bytes.slash] ps⟩
    q.parts = p.headParts ++ partsOf ps ∧ q.isClosed = false ∧
      (q.bytes.head? = some Bytes.slash ↔ p.bytes.head? = some Bytes.slash) := by
  intro q
  have hslash : ∀ piece ∈ ps, Bytes.slash ∉ piece := fun piece hm =>
    Bytes.not_mem_of_mem_splitOn (hps.subset hm)
  -- The last piece is not empty, so what ends with it is not closed.
  have hopen : ∀ before, ps ≠ [] → Bytes.splitOn Bytes.slash q.bytes = before ++ ps →
      q.isClosed = false := by
    intro before hne h
    have hl := List.getLast?_eq_some_getLast hne
    rw [← List.dropLast_concat_getLast hne, ← List.append_assoc] at h
    exact not_isClosed_of_last h (hlast _ hl)
  unfold headParts
  rcases p.head_cases with ⟨rest, hb, hh, hp⟩ | ⟨hb, hh, hp⟩ | ⟨rest, hb, hh, hp⟩ | ⟨hb, hh, hp⟩
  . have hq : q.bytes = Bytes.slash :: Bytes.joinWith [Bytes.slash] ps := by simp [q, hh]
    by_cases hnil : ps = []
    . subst hnil
      simp [isClosed, parts, hq, hh, hb, Bytes.joinWith, Bytes.splitOn]
    . have hsplit : Bytes.splitOn Bytes.slash q.bytes = [[]] ++ ps := by
        rw [hq, ← Bytes.splitOn_joinWith hnil hslash]
        simp [Bytes.splitOn, Bytes.splitOn_joinWith hnil hslash]
      refine ⟨?_, hopen [[]] hnil hsplit, by simp [hq, hb]⟩
      simp [parts, hsplit, hh]
  . rw [hp] at hps
    have hnil := eq_nil_of_prefix_empty hps hlast
    subst hnil
    simp [isClosed, parts, q, hh, hb, Bytes.joinWith, Bytes.splitOn, partsOf, Component.ofPiece]
  . by_cases hnil : ps = []
    . subst hnil
      simp [isClosed, parts, q, hh, hb, Bytes.joinWith, Bytes.splitOn, partsOf, Component.ofPiece]
    . obtain ⟨ps', rfl⟩ : ∃ ps', ps = [] :: ps' := by
        rw [hp] at hps
        rcases List.prefix_cons_iff.mp hps with h | ⟨ps', h, -⟩
        . exact absurd h hnil
        . exact ⟨ps', h⟩
      have hne' : ps' ≠ [] := by
        intro h
        exact hlast [] (by simp [h]) rfl
      have hq : q.bytes = Bytes.dot :: Bytes.slash :: Bytes.joinWith [Bytes.slash] ps' := by
        cases ps' with
        | nil => exact absurd rfl hne'
        | cons => simp [q, hh, Bytes.joinWith]
      have hsplit : Bytes.splitOn Bytes.slash q.bytes = [[Bytes.dot]] ++ ps' := by
        rw [hq]
        exact splitOn_dot_joinWith hne' fun piece hm => hslash piece (List.mem_cons_of_mem _ hm)
      refine ⟨?_, ?_, by simp [hq, hb]⟩
      . unfold parts
        rw [hsplit, partsOf_append, if_pos hh, partsOf_cons_nil]
        rfl
      . rw [← List.dropLast_concat_getLast hne', ← List.append_assoc] at hsplit
        apply not_isClosed_of_last hsplit
        apply hlast
        rw [List.getLast?_cons, List.getLast?_eq_some_getLast hne']
        rfl
  . have hnil : ps ≠ [] := by
      intro h
      simp [h, hh, Bytes.joinWith] at hne
    have hq : q.bytes = Bytes.joinWith [Bytes.slash] ps := by simp [q, hh]
    have hsplit : Bytes.splitOn Bytes.slash q.bytes = [] ++ ps := by
      rw [hq, Bytes.splitOn_joinWith hnil hslash]
      rfl
    refine ⟨?_, hopen [] hnil hsplit, ?_⟩
    . simp [parts, hsplit, hh]
    . rw [hp] at hps
      rw [hq]
      exact iff_of_false (head?_joinWith_ne_slash hb hps hnil hlast) hb

/-- A path of a directory above: another path that is cut off after one of its names. -/
structure IsAbove (q p : Pathname) : Prop where
  parts : ∃ tail, p.parts = q.parts ++ tail ∧ ∃ c ∈ tail, c ≠ .here
  not_closed : q.isClosed = false
  start : q.bytes.head? = some Bytes.slash ↔ p.bytes.head? = some Bytes.slash

theorem IsAbove.trans {r q p : Pathname} (h₁ : r.IsAbove q) (h₂ : q.IsAbove p) : r.IsAbove p where
  parts := by
    obtain ⟨t₁, heq₁, c, hc, hne⟩ := h₁.parts
    obtain ⟨t₂, heq₂, -⟩ := h₂.parts
    exact ⟨t₁ ++ t₂, by rw [heq₂, heq₁, List.append_assoc], c, by simp [hc], hne⟩
  not_closed := h₁.not_closed
  start := h₁.start.trans h₂.start

theorem IsAbove.components_eq {q p : Pathname} (h : q.IsAbove p) : components q.bytes = q.parts := by
  rw [Pathname.components_eq, h.not_closed]
  simp

theorem eq_here_of_mem_partsOf {ps : List Bytes} (h : ∀ piece ∈ ps, isBlankPiece piece = true)
    {c : Component} (hc : c ∈ partsOf ps) : c = .here := by
  obtain ⟨piece, hpiece, rfl⟩ := List.mem_map.mp hc
  obtain ⟨hmem, hne⟩ := List.mem_filter.mp hpiece
  have hdot : piece = [Bytes.dot] := by
    have hblank := h piece hmem
    simp only [isBlankPiece, Bool.or_eq_true, beq_iff_eq] at hblank
    rcases hblank with hnil | hdot
    . simp [hnil] at hne
    . exact hdot
  simp [Component.ofPiece, hdot]

theorem ofPiece_ne_here {piece : Bytes} (h : isBlankPiece piece = false) :
    Component.ofPiece piece ≠ .here := by
  simp only [isBlankPiece, Bool.or_eq_false_iff, beq_eq_false_iff_ne] at h
  unfold Component.ofPiece
  rw [if_neg h.2]
  split <;> simp

theorem exists_pieces_of_parent? {p q : Pathname} (h : p.parent? = some q) (hq : q.bytes ≠ []) :
    ∃ ps blanks name after, p.pieces = ps ++ (blanks ++ name :: after) ∧
      q = ⟨p.head ++ Bytes.joinWith [Bytes.slash] ps⟩ ∧
      (∀ last, ps.getLast? = some last → isBlankPiece last = false) ∧
      isBlankPiece name = false ∧ (∀ piece ∈ blanks, isBlankPiece piece = true) ∧
      ∀ piece ∈ after, isBlankPiece piece = true := by
  rw [parent?] at h
  split at h
  next name before hl =>
    obtain ⟨hname, -⟩ := pieces_eq_of_lastNamed hl
    obtain rfl := Option.some.inj h
    have hblank (ps : List Bytes) :
        ∀ piece ∈ (ps.takeWhile isBlankPiece).reverse, isBlankPiece piece = true :=
      fun piece hpiece => List.all_eq_true.mp List.all_takeWhile piece (List.mem_reverse.mp hpiece)
    refine ⟨(before.dropWhile isBlankPiece).reverse, (before.takeWhile isBlankPiece).reverse, name,
      (p.pieces.reverse.takeWhile isBlankPiece).reverse, ?_, rfl, ?_, hname, hblank _, hblank _⟩
    . have hpieces := congrArg List.reverse
        (List.takeWhile_append_dropWhile (p := isBlankPiece) (l := p.pieces.reverse)).symm
      rw [lastNamed] at hl
      rw [hl, List.reverse_append, List.reverse_reverse, List.reverse_cons, List.append_assoc] at hpieces
      have hbefore := congrArg List.reverse
        (List.takeWhile_append_dropWhile (p := isBlankPiece) (l := before)).symm
      rw [List.reverse_append] at hbefore
      rw [hbefore, List.append_assoc] at hpieces
      exact hpieces
    . intro last hlast
      rw [List.getLast?_reverse] at hlast
      have := List.head?_dropWhile_not isBlankPiece before
      simpa [hlast] using this
  next =>
    split at h
    next => exact absurd (congrArg Pathname.bytes (Option.some.inj h)).symm hq
    next => simp at h

theorem parts_of_parent? {p q : Pathname} (h : p.parent? = some q) (hq : q.bytes ≠ []) :
    (∃ heres c rest, p.parts = q.parts ++ (heres ++ c :: rest) ∧ c ≠ .here ∧
      (∀ x ∈ heres, x = .here) ∧ ∀ x ∈ rest, x = .here) ∧
      (∀ c, q.parts.getLast? = some c → c = .here → q.bytes = [Bytes.dot]) ∧
      q.isClosed = false ∧ (q.bytes.head? = some Bytes.slash ↔ p.bytes.head? = some Bytes.slash) := by
  obtain ⟨ps, blanks, name, after, hpieces, rfl, hlast, hname, hblanks, hafter⟩ :=
    exists_pieces_of_parent? h hq
  have hne {piece : Bytes} (hpiece : isBlankPiece piece = false) : piece ≠ [] := by
    rintro rfl
    simp [isBlankPiece] at hpiece
  obtain ⟨hparts, hclosed, hstart⟩ :=
    parts_front ⟨_, hpieces.symm⟩ (fun last hl => hne (hlast last hl)) hq
  refine ⟨⟨partsOf blanks, Component.ofPiece name, partsOf after, ?_, ofPiece_ne_here hname,
    fun x hx => eq_here_of_mem_partsOf hblanks hx, fun x hx => eq_here_of_mem_partsOf hafter hx⟩,
    ?_, hclosed, hstart⟩
  . rw [p.parts_eq, hpieces, hparts]
    simp [partsOf_cons (hne hname)]
  . rintro c hc rfl
    rw [hparts] at hc
    rcases List.eq_nil_or_concat ps with rfl | ⟨before, last, rfl⟩
    . unfold headParts at hc
      split at hc
      next hhead => simp [hhead, Bytes.joinWith]
      next => simp at hc
    . rw [List.concat_eq_append] at hc hlast
      have hblank := hlast last (by simp)
      rw [partsOf_append, partsOf_cons (hne hblank), partsOf_nil, ← List.append_assoc,
        List.getLast?_concat] at hc
      exact absurd (Option.some.inj hc) (ofPiece_ne_here hblank)

theorem isAbove_of_parent? {p q : Pathname} (h : p.parent? = some q) (hq : q.bytes ≠ []) :
    q.IsAbove p := by
  obtain ⟨⟨heres, c, rest, hparts, hc, -⟩, -, hclosed, hstart⟩ := parts_of_parent? h hq
  exact ⟨⟨heres ++ c :: rest, hparts, c, by simp, hc⟩, hclosed, hstart⟩

theorem ancestors_of_parent?_eq_none {p : Pathname} (h : p.parent? = none) :
    p.ancestors = [p] := by
  rw [ancestors]
  split
  . rfl
  . simp_all

theorem ancestors_of_parent?_eq_some {p q : Pathname} (h : p.parent? = some q) :
    p.ancestors = p :: q.ancestors := by
  rw [ancestors]
  split
  . simp_all
  . simp_all

theorem isAbove_of_mem_ancestors {p q x : Pathname} (hq : q.bytes ≠ [] → q.IsAbove p)
    (hx : x ∈ q.ancestors) (hne : x.bytes ≠ []) : x.IsAbove p := by
  induction q using ancestors.induct with
  | case1 q hnone =>
    rw [ancestors_of_parent?_eq_none hnone, List.mem_singleton] at hx
    subst hx
    exact hq hne
  | case2 q r hsome ih =>
    rw [ancestors_of_parent?_eq_some hsome, List.mem_cons] at hx
    rcases hx with rfl | hx
    . exact hq hne
    . have hpos : q.bytes ≠ [] := by
        intro hnil
        have := parent?_length_lt hsome
        simp [hnil] at this
      exact ih (fun hr => (isAbove_of_parent? hsome hr).trans (hq hpos)) hx

theorem exists_parent?_of_mem_ancestors {p q x : Pathname} (h : p.parent? = some q)
    (hx : x ∈ q.ancestors) : ∃ y : Pathname, y.parent? = some x := by
  induction q using ancestors.induct generalizing p with
  | case1 q hnone =>
    rw [ancestors_of_parent?_eq_none hnone, List.mem_singleton] at hx
    exact ⟨p, hx ▸ h⟩
  | case2 q r hsome ih =>
    rw [ancestors_of_parent?_eq_some hsome, List.mem_cons] at hx
    rcases hx with rfl | hx
    . exact ⟨p, h⟩
    . exact ih hsome hx

theorem parent?_isPrefix {path dir : Pathname} (h : path.parent? = some dir) :
    dir.bytes <+: path.bytes := by
  rw [parent?] at h
  split at h
  next name before hl =>
    obtain ⟨-, after, hpieces⟩ := pieces_eq_of_lastNamed hl
    obtain rfl := Option.some.inj h
    conv => rhs; rw [path.bytes_eq]
    apply (List.prefix_append_right_inj _).mpr
    apply Bytes.joinWith_isPrefix
    rw [hpieces]
    exact (List.reverse_prefix.mpr (List.dropWhile_suffix _)).trans (List.prefix_append _ _)
  next =>
    split at h
    . obtain rfl := Option.some.inj h
      exact List.nil_prefix
    . simp at h

theorem append_join {p q : Pathname} (bs : Bytes) (hne : q.bytes ≠ []) :
    (p / q).append bs = p / q.append bs := by
  show (p.join q).append bs = p.join (q.append bs)
  have habs : (q.append bs).isAbsolute = q.isAbsolute := by
    unfold isAbsolute append
    simp [List.head?_append, List.head?_eq_some_head hne]
  unfold join
  rw [habs]
  split
  . rfl
  . split
    . rfl
    . split <;> simp [append]

theorem exists_components_append (q : Pathname) (bs : Bytes) {b : UInt8}
    (hslash : Bytes.slash ∉ bs ++ [b]) (hdot : b ≠ Bytes.dot) :
    ∃ before last, Bytes.splitOn Bytes.slash q.bytes = before ++ [last] ∧
      components (q.append (bs ++ [b])).bytes = partsOf before ++ [.name (last ++ (bs ++ [b]))] := by
  have hsplit := (List.dropLast_concat_getLast (Bytes.splitOn_ne_nil Bytes.slash q.bytes)).symm
  generalize (Bytes.splitOn Bytes.slash q.bytes).dropLast = before at hsplit
  generalize (Bytes.splitOn Bytes.slash q.bytes).getLast _ = last at hsplit
  refine ⟨before, last, hsplit, ?_⟩
  have hsplit' : Bytes.splitOn Bytes.slash (q.append (bs ++ [b])).bytes =
      before ++ [last ++ (bs ++ [b])] :=
    Bytes.splitOn_append_of_not_mem hsplit hslash
  have hne : last ++ (bs ++ [b]) ≠ [] := by simp
  have hpiece : Component.ofPiece (last ++ (bs ++ [b])) = .name (last ++ (bs ++ [b])) := by
    have hends : ∀ xs : Bytes, xs.getLast? = some Bytes.dot → last ++ (bs ++ [b]) ≠ xs := by
      rintro xs hxs rfl
      simp at hxs
      exact hdot hxs
    unfold Component.ofPiece
    rw [if_neg (hends _ rfl), if_neg (hends _ rfl)]
  rw [components_eq, not_isClosed_of_last hsplit' hne]
  unfold parts
  rw [hsplit', partsOf_append, partsOf_cons hne, hpiece]
  simp

theorem components_append {q : Pathname} {mid : List Component} {n : Name} (bs : Bytes) {b : UInt8}
    (h : components q.bytes = mid ++ [.name n]) (hslash : Bytes.slash ∉ bs ++ [b])
    (hdot : b ≠ Bytes.dot) :
    components (q.append (bs ++ [b])).bytes = mid ++ [.name (n ++ (bs ++ [b]))] := by
  obtain ⟨before, last, hsplit, happend⟩ := exists_components_append q bs hslash hdot
  rw [components_eq] at h
  have hopen : q.isClosed = false := by
    rw [Bool.eq_false_iff]
    intro hc
    simp [hc] at h
  have hparts : q.parts = mid ++ [.name n] := by simpa [hopen] using h
  have hlast : last ≠ [] := by
    intro hnil
    rw [Bool.eq_false_iff, ne_eq, isClosed_iff, hsplit, hparts, hnil] at hopen
    simp at hopen
  unfold parts at hparts
  rw [hsplit, partsOf_append, partsOf_cons hlast, partsOf_nil] at hparts
  have hinj := List.append_inj' hparts rfl
  simp only [List.cons.injEq, and_true] at hinj
  rw [happend, hinj.1, Component.ofPiece_eq_name hinj.2]

end Pathname

end BootCard
