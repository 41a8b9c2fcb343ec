import EcmaLex.Text.Ascii
import EcmaLex.Text.Decimal
import EcmaLex.Toml.Scientific
import EcmaLex.Toml.Value

/-!
# Scalars of TOML

Readers of the values that have no parts. Each reads one scalar at the start of a text and gives the
text after it.
-/

namespace EcmaLex.Toml

/-- Reads something at the start of a text and gives it with the text after it. -/
abbrev Reader (α : Type) := Text → Option (α × Text)

/-- Space or tab. -/
def isSpace (c : Char) : Bool :=
  c == ' ' || c == '\t'

/-- A character that may stand in a comment or a string: no control other than the tab. -/
def isPlain (c : Char) : Bool :=
  c == '\t' || (0x20 ≤ c.toNat && c.toNat != 0x7f)

def skipSpaces (text : Text) : Text :=
  text.dropWhile isSpace

/-- The text after the given character, if it comes first. -/
def expect (c : Char) : Text → Option Text
  | [] => none
  | d :: rest => if d = c then some rest else none

/-! ## Strings -/

/-- The character with the code given by hexadecimal digits, if there is one. -/
def scalarOfHex? (digits : Text) : Option Char :=
  if digits.all (isDigitIn 16) then
    let code := digits.foldl (fun n c => 16 * n + (digitValue? c).getD 0) 0
    if code.isValidChar then some (Char.ofNat code) else none
  else none

/-- What a one-letter escape stands for. -/
def shortEscape? (c : Char) : Option Char :=
  if c == 'b' then some '\x08'
  else if c == 't' then some '\t'
  else if c == 'n' then some '\n'
  else if c == 'f' then some '\x0c'
  else if c == 'r' then some '\r'
  else if c == '"' then some '"'
  else if c == '\\' then some '\\'
  else none

/-- The character of the escape whose backslash has been read. -/
def escape : Reader Char
  | 'u' :: a :: b :: c :: d :: rest => (scalarOfHex? [a, b, c, d]).map fun s => (s, rest)
  | 'U' :: a :: b :: c :: d :: e :: f :: g :: h :: rest =>
    (scalarOfHex? [a, b, c, d, e, f, g, h]).map fun s => (s, rest)
  | c :: rest => (shortEscape? c).map fun s => (s, rest)
  | [] => none

/-- A string in double quotes after its opening quote. -/
def basicString (text : Text) : Option (Text × Text) :=
  match text with
  | [] => none
  | '"' :: rest => some ([], rest)
  | '\\' :: rest =>
    match escape rest with
    | some (c, after) =>
      if after.length < rest.length then
        (basicString after).map fun (content, rest) => (c :: content, rest)
      else none
    | none => none
  | c :: rest =>
    if isPlain c then (basicString rest).map fun (content, rest) => (c :: content, rest) else none
termination_by text.length
decreasing_by all_goals (simp only [List.length_cons]; omega)

/-- A string in single quotes after its opening quote. -/
def literalString : Reader Text
  | [] => none
  | c :: rest =>
    if c = '\x27' then some ([], rest)
    else if isPlain c then
      (literalString rest).map fun (content, rest) => (c :: content, rest)
    else none

/-- The text after the three quotes that close a string of several lines. Up to two more quotes
before them belong to the string. -/
def closeLines (quote : Char) (text : Text) : Option Text :=
  let quotes := text.takeWhile (· == quote)
  if 3 ≤ quotes.length then some (text.drop (min quotes.length 5)) else none

/-- Whether a line ends here. -/
def atLineEnd : Text → Bool
  | '\n' :: _ => true
  | '\r' :: '\n' :: _ => true
  | _ => false

/-- The text after a string of several lines in double quotes. A backslash joins lines where only
spaces are left on its own. -/
def skipBasicLines (text : Text) : Option Text :=
  match closeLines '"' text with
  | some rest => some rest
  | none =>
    match text with
    | [] => none
    | '\\' :: rest =>
      if atLineEnd (skipSpaces rest) then skipBasicLines rest
      else
        match escape rest with
        | some (_, after) => if after.length < rest.length then skipBasicLines after else none
        | none => none
    | '\r' :: '\n' :: rest => skipBasicLines rest
    | c :: rest => if c == '\n' || isPlain c then skipBasicLines rest else none
termination_by text.length
decreasing_by all_goals (simp only [List.length_cons]; omega)

/-- The text after a string of several lines in single quotes. -/
def skipLiteralLines (text : Text) : Option Text :=
  match closeLines '\x27' text with
  | some rest => some rest
  | none =>
    match text with
    | [] => none
    | '\r' :: '\n' :: rest => skipLiteralLines rest
    | c :: rest => if c == '\n' || isPlain c then skipLiteralLines rest else none

/-- The text after a string of any of the four forms. -/
def skipString : Text → Option Text
  | '"' :: '"' :: '"' :: rest => skipBasicLines rest
  | '"' :: rest => (basicString rest).map Prod.snd
  | '\x27' :: '\x27' :: '\x27' :: rest => skipLiteralLines rest
  | '\x27' :: rest => (literalString rest).map Prod.snd
  | _ => none

/-! ## Numbers -/

/-- Further digits of a number, each with an underscore before it or not. -/
def moreDigits (p : Char → Bool) : Text → Text × Text
  | [] => ([], [])
  | '_' :: c :: rest =>
    if p c then
      let (digits, rest) := moreDigits p rest
      (c :: digits, rest)
    else ([], '_' :: c :: rest)
  | c :: rest =>
    if p c then
      let (digits, rest) := moreDigits p rest
      (c :: digits, rest)
    else ([], c :: rest)

/-- At least one digit. -/
def digits (p : Char → Bool) : Reader Text
  | [] => none
  | c :: rest =>
    if p c then
      let (digits, rest) := moreDigits p rest
      some (c :: digits, rest)
    else none

/-- Decimal digits without a leading zero. -/
def wholeDigits : Reader Text
  | '0' :: rest => some (['0'], rest)
  | text => digits Char.isDigit text

/-- An integer that is not too large. -/
def boundedInteger (n : Int) : Option Value :=
  if -(integerBound : Int) ≤ n && n < (integerBound : Int) then some (.integer n) else none

/-- The largest exponents are not told apart: a digit is added only below this. -/
def exponentCap : Nat := UInt16.size

/-- The number written by the digits of an exponent, as far as it counts. -/
def exponentSize (digits : Text) : Nat :=
  digits.foldl (fun n c => if n < exponentCap then 10 * n + (digitValue? c).getD 0 else n) 0

/-- The exponent of a float with its mark. -/
def exponent : Reader Int
  | [] => none
  | mark :: rest =>
    if mark == 'e' || mark == 'E' then
      let (negative, unsigned) := match rest with
        | '+' :: tail => (false, tail)
        | '-' :: tail => (true, tail)
        | tail => (false, tail)
      (digits Char.isDigit unsigned).map fun (found, rest) =>
        let size : Int := exponentSize found
        (if negative then -size else size, rest)
    else none

/-- The decimal places of a float with the point before them. -/
def fraction : Reader Text
  | '.' :: rest => digits Char.isDigit rest
  | _ => none

/-- A float in digits, without its sign: it has decimal places, an exponent or both. -/
def float (text : Text) : Option (Scientific × Text) :=
  match wholeDigits text with
  | none => none
  | some (whole, rest) =>
    match fraction rest with
    | none =>
      (exponent rest).map fun (power, rest) =>
        ({ mantissa := Text.ofDecimal whole, power := power }, rest)
    | some (places, rest) =>
      let (power, rest) := (exponent rest).getD (0, rest)
      some ({ mantissa := Text.ofDecimal (whole ++ places), power := power - places.length }, rest)

/-- An integer or a float without its sign. Floats too large for a double are refused, unless they
are negative. -/
def unsignedNumber (negative : Bool) (text : Text) : Option (Value × Text) :=
  match text with
  | 'i' :: 'n' :: 'f' :: rest => some (.float, rest)
  | 'n' :: 'a' :: 'n' :: rest => some (.float, rest)
  | text =>
    match float text with
    | some (size, rest) => if !negative && size.overflows then none else some (.float, rest)
    | none =>
      match wholeDigits text with
      | none => none
      | some (whole, rest) =>
        let size : Int := Text.ofDecimal whole
        (boundedInteger (if negative then -size else size)).map fun value => (value, rest)

/-- An integer in another base, after its mark. -/
def integerIn (base : Nat) (text : Text) : Option (Value × Text) :=
  match digits (isDigitIn base) text with
  | none => none
  | some (found, rest) =>
    let size := found.foldl (fun n c => base * n + (digitValue? c).getD 0) 0
    (boundedInteger size).map fun value => (value, rest)

/-- An integer or a float. -/
def number : Reader Value
  | '0' :: 'x' :: rest => integerIn 16 rest
  | '0' :: 'o' :: rest => integerIn 8 rest
  | '0' :: 'b' :: rest => integerIn 2 rest
  | '+' :: rest => unsignedNumber false rest
  | '-' :: rest => unsignedNumber true rest
  | text => unsignedNumber false text

/-! ## Dates and times -/

/-- A number of exactly `count` digits between two bounds. -/
def fixedDigits (count low high : Nat) (text : Text) : Option (Nat × Text) :=
  let found := text.take count
  let n := Text.ofDecimal found
  if found.length = count && found.all Char.isDigit && low ≤ n && n ≤ high then
    some (n, text.drop count)
  else none

def daysInMonth (year month : Nat) : Nat :=
  let leap := year % 4 == 0 && (year % 100 != 0 || year % 400 == 0)
  if month == 2 then (if leap then 29 else 28)
  else if month == 4 || month == 6 || month == 9 || month == 11 then 30
  else 31

/-- The text after a date. -/
def skipDate (text : Text) : Option Text := do
  let (year, rest) ← fixedDigits 4 0 9999 text
  let (month, rest) ← fixedDigits 2 1 12 (← expect '-' rest)
  let (_, rest) ← fixedDigits 2 1 (daysInMonth year month) (← expect '-' rest)
  return rest

/-- The text after a time of day. -/
def skipTime (text : Text) : Option Text := do
  let (_, rest) ← fixedDigits 2 0 23 text
  let (_, rest) ← fixedDigits 2 0 59 (← expect ':' rest)
  let (_, rest) ← fixedDigits 2 0 60 (← expect ':' rest)
  match rest with
  | '.' :: c :: tail => if c.isDigit then return tail.dropWhile Char.isDigit else return rest
  | _ => return rest

/-- The text after the difference from universal time, if it is given. -/
def skipOffset : Text → Text
  | [] => []
  | c :: rest =>
    if c == 'Z' || c == 'z' then rest
    else if c == '+' || c == '-' then
      let offset := do
        let (_, rest) ← fixedDigits 2 0 23 rest
        let (_, rest) ← fixedDigits 2 0 59 (← expect ':' rest)
        return rest
      offset.getD (c :: rest)
    else c :: rest

/-- The text after a date, a time, or both. -/
def skipDateTime (text : Text) : Option Text :=
  match skipDate text with
  | none => skipTime text
  | some [] => some []
  | some (c :: rest) =>
    if c == 'T' || c == 't' || c == ' ' then
      some (((skipTime rest).map skipOffset).getD (c :: rest))
    else some (c :: rest)

/-! ## Any scalar -/

/-- A value without parts. -/
def scalar (text : Text) : Option (Value × Text) :=
  match text with
  | 't' :: 'r' :: 'u' :: 'e' :: rest => some (.boolean, rest)
  | 'f' :: 'a' :: 'l' :: 's' :: 'e' :: rest => some (.boolean, rest)
  | _ =>
    match skipString text with
    | some rest => some (.string, rest)
    | none =>
      match skipDateTime text with
      | some rest => some (.dateTime, rest)
      | none => number text

end EcmaLex.Toml
