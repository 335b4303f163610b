import RegistryScript.Numeral.Digits
import RegistryScript.Value.Basic

/-! # Scalars of TOML documents

Each function reads from the front of a list of characters and returns what is left.

* `string?`: a basic or literal string, on one line or several.
* `moment?`: a date, a time of day, or both.
* `number?`: an integer or a number with a fraction or an exponent.
-/

namespace RegistryScript.Toml
set_option autoImplicit false

def textOf (cs : List Char) : Text := cs.map CodePoint.ofChar

def after? (mark : String) (cs : List Char) : Option (List Char) :=
  if mark.toList.isPrefixOf cs then some (cs.drop mark.length) else none

def isBlank (c : Char) : Bool := c = ' ' || c = '\t'

def isControl (c : Char) : Bool := (c < ' ' && c ≠ '\t') || c = '\x7F'

/-! ## Strings -/

def unicodeEscape? (digits : Nat) (cs : List Char) : Option (Char × List Char) :=
  let hex := cs.take digits
  let n := digitsValue 16 hex
  if hex.length = digits && hex.all isHex && decide n.isValidChar then
    some (Char.ofNat n, cs.drop digits)
  else none

def escape? : List Char → Option (Char × List Char)
  | 'b' :: cs => some ('\x08', cs)
  | 't' :: cs => some ('\t', cs)
  | 'n' :: cs => some ('\n', cs)
  | 'f' :: cs => some ('\x0C', cs)
  | 'r' :: cs => some ('\r', cs)
  | '"' :: cs => some ('"', cs)
  | '\\' :: cs => some ('\\', cs)
  | 'u' :: cs => unicodeEscape? 4 cs
  | 'U' :: cs => unicodeEscape? 8 cs
  | _ => none

/-- What is left behind a backslash that ends its line: the line feed and all blanks around it are
passed over. At the end of the document the line feed may be missing. -/
def continuation? (cs : List Char) : Option (List Char) :=
  match cs.dropWhile isBlank with
  | '\n' :: rest => some (rest.dropWhile fun c => isBlank c || c = '\n')
  | [] => if cs.isEmpty then none else some []
  | _ => none

def basicRest (multiline : Bool) : Nat → List Char → List Char → Option (List Char × List Char)
  | 0, _, _ => none
  | n + 1, acc, cs =>
    match cs with
    | [] => none
    | c :: rest =>
      if c = '"' then
        if !multiline then some (acc.reverse, rest)
        else
          match after? "\"\"\"" cs with
          | some rest => some (acc.reverse, rest)
          | none => basicRest multiline n (c :: acc) rest
      else if c = '\\' then
        match if multiline then continuation? rest else none with
        | some rest => basicRest multiline n acc rest
        | none =>
          match escape? rest with
          | some (d, rest) => basicRest multiline n (d :: acc) rest
          | none => none
      else if isControl c && !(multiline && c = '\n') then none
      else basicRest multiline n (c :: acc) rest

def literalRest (cs : List Char) : Option (List Char × List Char) :=
  let body := cs.takeWhile fun c => c ≠ '\x27'
  match cs.drop body.length with
  | _ :: rest => if body.any isControl then none else some (body, rest)
  | [] => none

def multilineLiteralRest (acc : List Char) : List Char → Option (List Char × List Char)
  | [] => none
  | c :: cs =>
    match after? "\x27\x27\x27" (c :: cs) with
    | some rest => some (acc.reverse, rest)
    | none => if isControl c && c ≠ '\n' then none else multilineLiteralRest (c :: acc) cs

/-- Up to two quotes that stand behind the closing quotes of a string belong to it. -/
def moreQuotes (quote : Char) (read : List Char × List Char) : List Char × List Char :=
  let quotes := (read.2.take 2).takeWhile fun c => c = quote
  (read.1 ++ quotes, read.2.drop quotes.length)

def dropLineFeed : List Char → List Char
  | '\n' :: cs => cs
  | cs => cs

def lineString? : List Char → Option (List Char × List Char)
  | '"' :: cs => basicRest false (cs.length + 1) [] cs
  | '\x27' :: cs => literalRest cs
  | _ => none

def string? (cs : List Char) : Option (List Char × List Char) :=
  match after? "\"\"\"" cs, after? "\x27\x27\x27" cs with
  | some rest, _ => (basicRest true (rest.length + 1) [] (dropLineFeed rest)).map (moreQuotes '"')
  | none, some rest => (multilineLiteralRest [] (dropLineFeed rest)).map (moreQuotes '\x27')
  | none, none => lineString? cs

/-! ## Dates and times -/

def fixed? (digits lowest highest : Nat) (cs : List Char) : Option (Nat × List Char) :=
  let ds := cs.take digits
  let n := digitsValue 10 ds
  if ds.length = digits && ds.all Char.isDigit && lowest ≤ n && n ≤ highest then
    some (n, cs.drop digits)
  else none

/-- The millionths of a second of a fraction, of which further digits are dropped. -/
def fraction (cs : List Char) : Nat × List Char :=
  match cs with
  | '.' :: rest =>
    let digits := rest.takeWhile Char.isDigit
    if digits.isEmpty then (0, cs)
    else (digitsValue 10 ((digits ++ List.replicate 6 '0').take 6), rest.drop digits.length)
  | _ => (0, cs)

def clock? (cs : List Char) : Option (Clock × List Char) := do
  let (hour, cs) ← fixed? 2 0 23 cs
  let (minute, cs) ← fixed? 2 0 59 (← after? ":" cs)
  let (second, cs) ← fixed? 2 0 59 (← after? ":" cs)
  let (micro, cs) := fraction cs
  return (⟨hour, minute, second, micro⟩, cs)

def zone? : List Char → Option (Int × List Char)
  | 'Z' :: cs | 'z' :: cs => some (0, cs)
  | sign :: cs => do
    guard (sign = '+' || sign = '-')
    let (hours, cs) ← fixed? 2 0 23 cs
    let (minutes, cs) ← fixed? 2 0 59 (← after? ":" cs)
    let distance : Int := 60 * hours + minutes
    return (if sign = '-' then -distance else distance, cs)
  | [] => none

/-- The numerals of a date; whether there is such a day is left open. -/
def date? (cs : List Char) : Option (Date × List Char) := do
  let (year, cs) ← fixed? 4 0 9999 cs
  let (month, cs) ← fixed? 2 1 12 (← after? "-" cs)
  let (day, cs) ← fixed? 2 1 31 (← after? "-" cs)
  return (⟨year, month, day⟩, cs)

def monthLength (year month : Nat) : Nat :=
  if month = 2 then
    if year % 4 = 0 ∧ (year % 100 ≠ 0 ∨ year % 400 = 0) then 29 else 28
  else if month = 4 ∨ month = 6 ∨ month = 9 ∨ month = 11 then 30 else 31

def isDay (d : Date) : Bool := 1 ≤ d.year && d.day ≤ monthLength d.year d.month

def clockBehind? : List Char → Option (Clock × List Char)
  | mark :: cs => if mark = 'T' ∨ mark = 't' ∨ mark = ' ' then clock? cs else none
  | [] => none

def dateMoment (d : Date) (cs : List Char) : Value × List Char :=
  match clockBehind? cs with
  | none => (.date d, cs)
  | some (c, rest) =>
    match zone? rest with
    | none => (.moment d c none, rest)
    | some (zone, rest) => (.moment d c (some zone), rest)

/-! ## Numbers -/

def markedInteger? : List Char → Option (Value × List Char)
  | '0' :: mark :: cs =>
    let read (base : Nat) (isDigit : Char → Bool) : Option (Value × List Char) :=
      if cs.head?.any isDigit then
        let n := digitsLength isDigit cs
        some (.int (digitsValue base (cs.take n)), cs.drop n)
      else none
    if mark = 'x' then read 16 isHex
    else if mark = 'o' then read 8 isOctal
    else if mark = 'b' then read 2 isBinary
    else none
  | _ => none

def sign (cs : List Char) : Bool × List Char :=
  match cs with
  | '-' :: rest => (true, rest)
  | '+' :: rest => (false, rest)
  | _ => (false, cs)

def digitsAfter (cs : List Char) : Option (List Char × List Char) :=
  if cs.head?.any Char.isDigit then
    let n := digitsLength Char.isDigit cs
    some (cs.take n, cs.drop n)
  else none

def fractionDigits (cs : List Char) : Option (List Char × List Char) :=
  match cs with
  | '.' :: rest => digitsAfter rest
  | _ => none

def exponent? (cs : List Char) : Option (Int × List Char) :=
  match cs with
  | mark :: rest => do
    guard (mark = 'e' || mark = 'E')
    let (negative, rest) := sign rest
    let (digits, rest) ← digitsAfter rest
    let n : Int := digitsValue 10 digits
    return (if negative then -n else n, rest)
  | [] => none

def wholeDigits? (cs : List Char) : Option (List Char × List Char) :=
  match cs with
  | '0' :: rest => some (['0'], rest)
  | _ => digitsAfter cs

def decimal? (cs : List Char) : Option (Value × List Char) := do
  let (negative, cs) := sign cs
  let (whole, cs) ← wholeDigits? cs
  let part := fractionDigits cs
  let (digits, cs) := part.getD ([], cs)
  let power := exponent? cs
  let (shift, cs) := power.getD (0, cs)
  if part.isNone && power.isNone then
    let n : Int := digitsValue 10 whole
    return (.int (if negative then -n else n), cs)
  else
    let places : Int := (digits.filter fun c => c ≠ '_').length
    let d : Decimal := ⟨digitsValue 10 (whole ++ digits), shift - places⟩
    return (.float (Binary64.ofDecimal negative d), cs)

def special? (cs : List Char) : Option (Value × List Char) :=
  let (negative, rest) := sign cs
  match after? "inf" rest, after? "nan" rest with
  | some rest, _ => some (.float (Binary64.infinity negative), rest)
  | none, some rest => some (.float Binary64.nan, rest)
  | none, none => none

def number? (cs : List Char) : Option (Value × List Char) :=
  ((markedInteger? cs).or (decimal? cs)).or (special? cs)

/-- A date, a time of day or a number. What looks like a date has to be a day of the calendar. -/
def moment? (cs : List Char) : Option (Value × List Char) :=
  match date? cs with
  | some (d, rest) => if isDay d then some (dateMoment d rest) else none
  | none =>
    match clock? cs with
    | some (c, rest) => some (.clock c, rest)
    | none => number? cs

end RegistryScript.Toml
