import BootCard.Toml.Value

/-!
The parts of TOML without structure: blanks, comments, keys, strings, numbers and dates. A reader
takes a prefix of the text and gives what follows it, or nothing if the text does not start as it
should.
-/

namespace BootCard

namespace Toml

/-- Takes a prefix of a text. -/
abbrev Reader (α : Type) := List Char → Option (α × List Char)

namespace Reader

def text (t : List Char) : Reader Unit := fun s =>
  if t.isPrefixOf s then some ((), s.drop t.length) else none

def one (p : Char → Bool) : Reader Char
  | c :: s => if p c then some (c, s) else none
  | [] => none

def many (p : Char → Bool) : Reader (List Char) := fun s => some (s.takeWhile p, s.dropWhile p)

def some1 (p : Char → Bool) : Reader (List Char) := fun s =>
  match s.takeWhile p with
  | [] => none
  | cs => some (cs, s.dropWhile p)

def or (r r' : Reader α) : Reader α := fun s => (r s).or (r' s)

def optional (r : Reader α) : Reader (Option α) := fun s =>
  match r s with
  | some (a, rest) => some (some a, rest)
  | none => some (none, s)

def repeatUpTo (r : Reader α) : Nat → Reader (List α)
  | 0, s => some ([], s)
  | n + 1, s =>
    match r s with
    | none => some ([], s)
    | some (a, rest) => (repeatUpTo r n rest).map fun (as, rest) => (a :: as, rest)

def repeated (r : Reader α) : Reader (List α) := fun s => repeatUpTo r s.length s

def separated (r : Reader α) (separator : Reader Unit) : Reader (List α) := fun s => do
  let (a, s) ← r s
  let (as, s) ← repeated (fun s => do r (← separator s).2) s
  some (a :: as, s)

end Reader

def isGap (c : Char) : Bool := c == ' ' || c == '\t'

def isPrintable (c : Char) : Bool := c == '\t' || (' ' ≤ c && c ≠ '\x7f')

def isHexDigit (c : Char) : Bool :=
  c.isDigit || ('a' ≤ c && c ≤ 'f') || ('A' ≤ c && c ≤ 'F')

def hexValue (c : Char) : Nat :=
  if c.isDigit then c.toNat - '0'.toNat
  else if c ≤ 'F' then c.toNat - 'A'.toNat + 10
  else c.toNat - 'a'.toNat + 10

def numberOf (base : Nat) (digits : List Char) : Nat :=
  digits.foldl (fun n c => base * n + hexValue c) 0

def newline : Reader Unit := (Reader.text ['\n']).or (Reader.text ['\r', '\n'])

def comment : Reader Unit := fun s => do
  let (_, s) ← Reader.text ['#'] s
  let (_, s) ← Reader.many isPrintable s
  some ((), s)

def arrayGap : Reader Unit := fun s => do
  let lineEnd : Reader Unit := fun s => do
    let (_, s) ← comment.optional s
    newline s
  let gap : Reader Unit := fun s => (Reader.some1 isGap s).map fun (_, s) => ((), s)
  let (_, s) ← (gap.or lineEnd).repeated s
  some ((), s)

def lineRest : Reader Unit := fun s => do
  let (_, s) ← Reader.many isGap s
  let (_, s) ← comment.optional s
  match s with
  | [] => some ((), [])
  | s => newline s

def escape : Reader Char
  | 'b' :: s => some ('\x08', s)
  | 't' :: s => some ('\t', s)
  | 'n' :: s => some ('\n', s)
  | 'f' :: s => some ('\x0c', s)
  | 'r' :: s => some ('\r', s)
  | '"' :: s => some ('"', s)
  | '\\' :: s => some ('\\', s)
  | 'u' :: s => scalar 4 s
  | 'U' :: s => scalar 8 s
  | _ => none
where
  scalar (count : Nat) : Reader Char := fun s =>
    let digits := s.take count
    let n := numberOf 16 digits
    if digits.length = count && digits.all isHexDigit && n.isValidChar then
      some (Char.ofNat n, s.drop count)
    else
      none

def basicRest : Reader (List Char) := fun s => go s.length s
where
  go : Nat → Reader (List Char)
    | 0, _ => none
    | _, [] => none
    | n + 1, c :: s =>
      if c = '"' then
        some ([], s)
      else if c = '\\' then do
        let (c, s) ← escape s
        (go n s).map fun (cs, s) => (c :: cs, s)
      else if isPrintable c then
        (go n s).map fun (cs, s) => (c :: cs, s)
      else
        none

def literalRest : Reader (List Char) := fun s => do
  let (cs, s) ← Reader.many (fun c => isPrintable c && c ≠ '\'') s
  let (_, s) ← Reader.text ['\''] s
  some (cs, s)

def lineJoin : Reader Unit := fun s => do
  let (_, s) ← Reader.many isGap s
  let (_, s) ← newline s
  let gap : Reader Unit := fun s => (Reader.some1 isGap s).map fun (_, s) => ((), s)
  let (_, s) ← (gap.or newline).repeated s
  some ((), s)

/--
A string of several lines, after its first quotes. In double quotes there are escapes and line
joins. A line end counts as a line feed. One or two quotes in a row belong to the string, and three
end it, though up to two more may stand before those.
-/
def multilineRest (quote : Char) : Reader (List Char) := fun s =>
  let s := match newline s with
    | some (_, s) => s
    | none => s
  go (s.length + 1) s
where
  go : Nat → Reader (List Char)
    | 0, _ => none
    | n + 1, s =>
      let quotes := s.takeWhile (· == quote)
      let rest := s.drop quotes.length
      if 5 < quotes.length then
        none
      else if 3 ≤ quotes.length then
        some (quotes.drop 3, rest)
      else if quotes ≠ [] then
        (go n rest).map fun (cs, s) => (quotes ++ cs, s)
      else
        match newline s with
        | some (_, s) => (go n s).map fun (cs, s) => ('\n' :: cs, s)
        | none =>
          match s with
          | [] => none
          | c :: s =>
            if c = '\\' && quote = '"' then
              match lineJoin s with
              | some (_, s) => go n s
              | none => do
                let (c, s) ← escape s
                (go n s).map fun (cs, s) => (c :: cs, s)
            else if isPrintable c then
              (go n s).map fun (cs, s) => (c :: cs, s)
            else
              none

def shortString : Reader String := fun s =>
  match s with
  | '"' :: s => (basicRest s).map fun (cs, s) => (String.ofList cs, s)
  | '\'' :: s => (literalRest s).map fun (cs, s) => (String.ofList cs, s)
  | _ => none

def anyString : Reader String := fun s =>
  match s with
  | '"' :: '"' :: '"' :: s => (multilineRest '"' s).map fun (cs, s) => (String.ofList cs, s)
  | '\'' :: '\'' :: '\'' :: s => (multilineRest '\'' s).map fun (cs, s) => (String.ofList cs, s)
  | s => shortString s

def isKeyChar (c : Char) : Bool := c.isAlphanum || c == '-' || c == '_'

def simpleKey : Reader String := fun s =>
  match s with
  | '"' :: _ => shortString s
  | '\'' :: _ => shortString s
  | _ => (Reader.some1 isKeyChar s).map fun (cs, s) => (String.ofList cs, s)

def depthLimit : Nat := 80

def key : Reader (List String) := fun s => do
  let part : Reader String := fun s => do
    let (_, s) ← Reader.many isGap s
    let (k, s) ← simpleKey s
    let (_, s) ← Reader.many isGap s
    some (k, s)
  let (keys, s) ← part.separated (Reader.text ['.']) s
  if keys.length < depthLimit then some (keys, s) else none

def digits (p : Char → Bool) : Reader (List Char) := fun s => do
  let (c, s) ← Reader.one p s
  let more : Reader Char := fun s =>
    match s with
    | '_' :: s => Reader.one p s
    | s => Reader.one p s
  let (cs, s) ← more.repeated s
  some (c :: cs, s)

def sign : Reader (Option Bool) :=
  Reader.optional fun s =>
    match s with
    | '+' :: s => some (false, s)
    | '-' :: s => some (true, s)
    | _ => none

def decimalDigits : Reader (List Char) := fun s =>
  match s with
  | '0' :: s => some (['0'], s)
  | s => digits Char.isDigit s

def fits (n : Int) : Bool := -(Int.pow 2 63) ≤ n && n < Int.pow 2 63

def integer : Reader Value := fun s =>
  let based (base : Nat) (p : Char → Bool) : Reader Value := fun s => do
    let (ds, s) ← digits p s
    let n : Int := numberOf base ds
    if fits n then some (.integer n, s) else none
  match s with
  | '0' :: 'x' :: s => based 16 isHexDigit s
  | '0' :: 'o' :: s => based 8 (fun c => '0' ≤ c && c ≤ '7') s
  | '0' :: 'b' :: s => based 2 (fun c => c == '0' || c == '1') s
  | s => do
    let (minus, s) ← sign s
    let (ds, s) ← decimalDigits s
    let size : Int := numberOf 10 ds
    let n := if minus = some true then -size else size
    if fits n then some (.integer n, s) else none

/-- The least number that is too large for a fraction of 53 bits and an exponent below 1024. -/
def overflow : Nat := Nat.pow 2 1024 - Nat.pow 2 970

def isTooLarge (mantissa : Nat) (exponent : Int) : Bool :=
  if mantissa = 0 then false
  else
    let length : Int := (Nat.toDigits 10 mantissa).length
    if exponent + length > 400 then true
    else if exponent + length < 300 then false
    else if 0 ≤ exponent then overflow ≤ mantissa * Nat.pow 10 exponent.toNat
    else overflow * Nat.pow 10 (-exponent).toNat ≤ mantissa

def decimalFraction : Reader Value := fun s => do
  let (minus, s) ← sign s
  let (whole, s) ← decimalDigits s
  let fraction : Reader (List Char) := fun s => do
    let (_, s) ← Reader.text ['.'] s
    digits Char.isDigit s
  let exponent : Reader Int := fun s => do
    let (_, s) ← Reader.one (fun c => c == 'e' || c == 'E') s
    let (minus, s) ← sign s
    let (ds, s) ← digits Char.isDigit s
    let n : Int := numberOf 10 ds
    some (if minus = some true then -n else n, s)
  let (f, s) ← fraction.optional s
  let (e, s) ← exponent.optional s
  if f.isNone && e.isNone then
    none
  else
    let f := f.getD []
    let tooLarge := isTooLarge (numberOf 10 (whole ++ f)) (e.getD 0 - f.length)
    if tooLarge && minus ≠ some true then none else some (.fraction, s)

def specialFraction : Reader Value := fun s => do
  let (_, s) ← sign s
  let (_, s) ← ((Reader.text ['i', 'n', 'f']).or (Reader.text ['n', 'a', 'n'])) s
  some (.fraction, s)

def fixedNumber (count low high : Nat) : Reader Nat := fun s =>
  let ds := s.take count
  let n := numberOf 10 ds
  if ds.length = count && ds.all Char.isDigit && low ≤ n && n ≤ high then
    some (n, s.drop count)
  else
    none

def daysOfMonth (year month : Nat) : Nat :=
  let isLeap := year % 4 = 0 && (year % 100 ≠ 0 || year % 400 = 0)
  if month = 2 then (if isLeap then 29 else 28)
  else if [4, 6, 9, 11].contains month then 30
  else 31

def day : Reader Unit := fun s => do
  let (year, s) ← fixedNumber 4 0 9999 s
  let (_, s) ← Reader.text ['-'] s
  let (month, s) ← fixedNumber 2 1 12 s
  let (_, s) ← Reader.text ['-'] s
  let (_, s) ← fixedNumber 2 1 (daysOfMonth year month) s
  some ((), s)

def time : Reader Unit := fun s => do
  let (_, s) ← fixedNumber 2 0 23 s
  let (_, s) ← Reader.text [':'] s
  let (_, s) ← fixedNumber 2 0 59 s
  let (_, s) ← Reader.text [':'] s
  let (_, s) ← fixedNumber 2 0 60 s
  let fraction : Reader Unit := fun s => do
    let (_, s) ← Reader.text ['.'] s
    let (_, s) ← Reader.some1 Char.isDigit s
    some ((), s)
  let (_, s) ← fraction.optional s
  some ((), s)

def zone : Reader Unit := fun s => do
  let difference : Reader Unit := fun s => do
    let (_, s) ← Reader.one (fun c => c == '+' || c == '-') s
    let (_, s) ← fixedNumber 2 0 23 s
    let (_, s) ← Reader.text [':'] s
    let (_, s) ← fixedNumber 2 0 59 s
    some ((), s)
  ((Reader.text ['Z']).or ((Reader.text ['z']).or difference)) s

def date : Reader Value := fun s => do
  let timeOfDay : Reader Unit := fun s => do
    let (_, s) ← Reader.one (fun c => c == 'T' || c == 't' || c == ' ') s
    let (_, s) ← time s
    let (_, s) ← zone.optional s
    some ((), s)
  let moment : Reader Unit := fun s => do
    let (_, s) ← day s
    let (_, s) ← timeOfDay.optional s
    some ((), s)
  let (_, s) ← (moment.or time) s
  some (.date, s)

def scalar : Reader Value := fun s =>
  match s with
  | [] => none
  | c :: _ =>
    if c = '"' || c = '\'' then
      (anyString s).map fun (t, s) => (.string t, s)
    else if c = 't' then
      (Reader.text ['t', 'r', 'u', 'e'] s).map fun (_, s) => (.boolean true, s)
    else if c = 'f' then
      (Reader.text ['f', 'a', 'l', 's', 'e'] s).map fun (_, s) => (.boolean false, s)
    else
      (date.or (decimalFraction.or (specialFraction.or integer))) s

end Toml

end BootCard
