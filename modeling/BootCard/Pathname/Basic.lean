import BootCard.Text.Utf8

/-!
Pathnames. A pathname is kept byte for byte as it was given, and is never normalised. Its structure
is read off the bytes: a head (`/` for an absolute path, `.` for one that starts at the current
directory by name, nothing otherwise) and the pieces between the slashes of the rest. A piece that
is empty or `.` is blank: it separates, but names nothing.
-/

namespace BootCard

structure Pathname where
  bytes : Bytes
deriving DecidableEq

namespace Pathname

def ofString (s : String) : Pathname := ⟨utf8 s⟩

def display (p : Pathname) : String := Utf8.decodeLossy p.bytes

def isAbsolute (p : Pathname) : Bool := p.bytes.head? == some Bytes.slash

def head (p : Pathname) : Bytes :=
  match p.bytes with
  | b :: rest =>
    if b = Bytes.slash then
      [Bytes.slash]
    else if b = Bytes.dot ∧ (rest = [] ∨ rest.head? = some Bytes.slash) then
      [Bytes.dot]
    else
      []
  | [] => []

def pieces (p : Pathname) : List Bytes :=
  Bytes.splitOn Bytes.slash (p.bytes.drop p.head.length)

def isBlankPiece (piece : Bytes) : Bool := piece == [] || piece == [Bytes.dot]

def lastNamed (p : Pathname) : List Bytes := p.pieces.reverse.dropWhile isBlankPiece

abbrev upPiece : Bytes := [Bytes.dot, Bytes.dot]

theorem bytes_eq_head_append_drop (p : Pathname) :
    p.bytes = p.head ++ p.bytes.drop p.head.length := by
  simp only [head]
  split
  next b rest hb =>
    split
    · simp_all
    · split
      · simp_all
      · simp
  next => simp_all

theorem bytes_eq (p : Pathname) :
    p.bytes = p.head ++ Bytes.joinWith [Bytes.slash] p.pieces := by
  rw [pieces, Bytes.joinWith_splitOn]
  exact p.bytes_eq_head_append_drop

/--
The path of the directory that holds what the path names. Blank pieces at the end of either path are
left out, and all other bytes stay.
-/
def parent? (p : Pathname) : Option Pathname :=
  match p.lastNamed with
  | _ :: before =>
    some ⟨p.head ++ Bytes.joinWith [Bytes.slash] (before.dropWhile isBlankPiece).reverse⟩
  | [] => if p.head = [Bytes.dot] then some ⟨[]⟩ else none

/-- The last name in a path, if it is not `..`. -/
def fileName? (p : Pathname) : Option Bytes :=
  match p.lastNamed with
  | name :: _ => if name = upPiece then none else some name
  | [] => none

def depth (p : Pathname) : Nat :=
  p.head.length + (p.pieces.filter (!isBlankPiece ·)).length

/--
A path followed from another one. An absolute path replaces the other one, and a slash is put
between them where there is none.
-/
def join (p q : Pathname) : Pathname :=
  if q.isAbsolute then
    q
  else
    match p.bytes.getLast? with
    | none => q
    | some b =>
      if b = Bytes.slash then ⟨p.bytes ++ q.bytes⟩ else ⟨p.bytes ++ Bytes.slash :: q.bytes⟩

instance : Div Pathname := ⟨join⟩

instance : Coe String Pathname := ⟨ofString⟩

theorem length_joinWith_append (sep : Bytes) (xs ys : List Bytes) :
    (Bytes.joinWith sep xs).length + (Bytes.joinWith sep ys).length ≤
      (Bytes.joinWith sep (xs ++ ys)).length := by
  induction xs with
  | nil => simp [Bytes.joinWith]
  | cons x xs ih =>
    cases xs with
    | nil =>
      cases ys with
      | nil => simp [Bytes.joinWith]
      | cons y ys => simp [Bytes.joinWith]
    | cons x' xs =>
      simp only [List.cons_append, Bytes.joinWith, List.length_append] at ih ⊢
      omega

theorem pieces_eq_of_lastNamed {p : Pathname} {name : Bytes} {before : List Bytes}
    (h : p.lastNamed = name :: before) :
    isBlankPiece name = false ∧ ∃ after, p.pieces = before.reverse ++ ([name] ++ after) := by
  rw [lastNamed] at h
  constructor
  · have := List.head?_dropWhile_not isBlankPiece p.pieces.reverse
    simpa [h] using this
  · have h₁ := List.takeWhile_append_dropWhile (p := isBlankPiece) (l := p.pieces.reverse)
    rw [h] at h₁
    have h₂ := congrArg List.reverse h₁
    exact ⟨(p.pieces.reverse.takeWhile isBlankPiece).reverse, by simpa using h₂.symm⟩

theorem parent?_length_lt {p q : Pathname} (h : p.parent? = some q) :
    q.bytes.length < p.bytes.length := by
  have hp := congrArg List.length p.bytes_eq
  simp only [List.length_append] at hp
  rw [parent?] at h
  split at h
  next name before hl =>
    obtain rfl := Option.some.inj h
    obtain ⟨hname, after, hsplit⟩ := pieces_eq_of_lastNamed hl
    have hpos : 0 < name.length := by
      cases name with
      | nil => simp [isBlankPiece] at hname
      | cons => simp
    have hbefore := congrArg List.reverse
      (List.takeWhile_append_dropWhile (p := isBlankPiece) (l := before)).symm
    simp only [List.reverse_append] at hbefore
    rw [hsplit] at hp
    have l₁ := length_joinWith_append [Bytes.slash] before.reverse ([name] ++ after)
    have l₂ := length_joinWith_append [Bytes.slash] [name] after
    have l₃ := length_joinWith_append [Bytes.slash] (before.dropWhile isBlankPiece).reverse
      (before.takeWhile isBlankPiece).reverse
    have l₄ : (Bytes.joinWith [Bytes.slash] [name]).length = name.length := rfl
    rw [← hbefore] at l₃
    simp only [List.length_append]
    omega
  next =>
    split at h
    next hd =>
      obtain rfl := Option.some.inj h
      simp only [hd, List.length_cons, List.length_nil] at hp ⊢
      omega
    next => simp at h

def ancestors (p : Pathname) : List Pathname :=
  match _h : p.parent? with
  | none => [p]
  | some q => p :: ancestors q
termination_by p.bytes.length
decreasing_by exact parent?_length_lt _h

end Pathname

end BootCard
