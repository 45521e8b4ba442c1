import LiteralFill.Json.Basic
import LiteralFill.Text.Decimal

namespace LiteralFill.Json

def isSpace (c : Char) : Bool := c = ' ' || c = '\n' || c = '\t' || c = '\r'

def skipSpace (cs : List Char) : List Char := cs.dropWhile isSpace

def hexValue? (c : Char) : Option Nat :=
  if c.isDigit then some (c.toNat - '0'.toNat)
  else if 'a' ≤ c && c ≤ 'f' then some (c.toNat - 'a'.toNat + 10)
  else if 'A' ≤ c && c ≤ 'F' then some (c.toNat - 'A'.toNat + 10)
  else none

def readHex4? : List Char → Option (Nat × List Char)
  | a :: b :: c :: d :: rest => do
    return (4096 * (← hexValue? a) + 256 * (← hexValue? b) + 16 * (← hexValue? c) + (← hexValue? d), rest)
  | _ => none

/-- The character after `\u`. One outside the basic plane takes a pair of escapes; half a pair alone
stands for no character. -/
def readCodePoint? (cs : List Char) : Option (Option Char × List Char) := do
  let (high, rest) ← readHex4? cs
  if high < 0xd800 || 0xdfff < high then return (some (Char.ofNat high), rest)
  else if 0xdbff < high then return (none, rest)
  else match rest with
    | '\\' :: 'u' :: more => do
      let (low, after) ← readHex4? more
      if low < 0xdc00 || 0xdfff < low then return (none, rest)
      else return (some (Char.ofNat (0x10000 + 1024 * (high - 0xd800) + (low - 0xdc00))), after)
    | _ => return (none, rest)

def readEscape? : List Char → Option (Option Char × List Char)
  | '"' :: rest => some ('"', rest)
  | '\\' :: rest => some ('\\', rest)
  | '/' :: rest => some ('/', rest)
  | 'b' :: rest => some ('\x08', rest)
  | 'f' :: rest => some ('\x0c', rest)
  | 'n' :: rest => some ('\n', rest)
  | 'r' :: rest => some ('\r', rest)
  | 't' :: rest => some ('\t', rest)
  | 'u' :: rest => readCodePoint? rest
  | _ => none

/-- The rest of a string, up to its closing quote. -/
def readString? : Nat → List Char → Option (List (Option Char) × List Char)
  | 0, _ => none
  | _, [] => none
  | fuel + 1, c :: rest =>
    if c = '"' then some ([], rest)
    else if c = '\\' then do
      let (c?, rest) ← readEscape? rest
      let (cs, rest) ← readString? fuel rest
      return (c? :: cs, rest)
    else if c.toNat < 0x20 then none
    else do
      let (cs, rest) ← readString? fuel rest
      return (some c :: cs, rest)

/-- The text of a string without halves of pairs. -/
def textOf? (cs : List (Option Char)) : Option String := (cs.mapM id).map String.ofList

def ofString (cs : List (Option Char)) : Json := (textOf? cs).elim .garbled .str

def namedMember? : Option String × Json → Option (String × Json)
  | (some name, value) => some (name, value)
  | (none, _) => none

def ofMembers (members : List (Option String × Json)) : Json :=
  (members.mapM namedMember?).elim .garbled .obj

/-- One digit or more. -/
def takeDigits? (cs : List Char) : Option (List Char × List Char) :=
  match cs.takeWhile Char.isDigit with
  | [] => none
  | digits => some (digits, cs.dropWhile Char.isDigit)

/-- The whole part of a number, which has no zero in front of other digits. -/
def takeWhole? : List Char → Option (List Char × List Char)
  | '0' :: rest => some (['0'], rest)
  | cs => takeDigits? cs

def takeFraction? : List Char → Option (List Char × List Char)
  | '.' :: rest => (takeDigits? rest).map fun (digits, rest) => ('.' :: digits, rest)
  | cs => some ([], cs)

def takeExponent? (cs : List Char) : Option (List Char × List Char) :=
  match cs with
  | e :: rest =>
    if e = 'e' || e = 'E' then
      match rest with
      | s :: more =>
        if s = '+' || s = '-' then (takeDigits? more).map fun (digits, rest) => (e :: s :: digits, rest)
        else (takeDigits? rest).map fun (digits, rest) => (e :: digits, rest)
      | [] => none
    else some ([], cs)
  | [] => some ([], cs)

def readNumber? (cs : List Char) : Option (Json × List Char) := do
  let (sign, rest) := match cs with
    | '-' :: rest => (['-'], rest)
    | cs => ([], cs)
  let (whole, rest) ← takeWhole? rest
  let (fraction, rest) ← takeFraction? rest
  let (exponent, rest) ← takeExponent? rest
  match sign, fraction, exponent with
  | [], [], [] => return (.nat (← Text.digitsValue? whole), rest)
  | _, _, _ => return (.number (String.ofList (sign ++ whole ++ fraction ++ exponent)), rest)

def expect? (word cs : List Char) : Option (List Char) :=
  if word.isPrefixOf cs then some (cs.drop word.length) else none

mutual

/-- A value, after blanks. -/
def readValue? : Nat → List Char → Option (Json × List Char)
  | 0, _ => none
  | fuel + 1, cs =>
    match skipSpace cs with
    | 'n' :: rest => (expect? ['u', 'l', 'l'] rest).map fun rest => (.null, rest)
    | 't' :: rest => (expect? ['r', 'u', 'e'] rest).map fun rest => (.bool true, rest)
    | 'f' :: rest => (expect? ['a', 'l', 's', 'e'] rest).map fun rest => (.bool false, rest)
    | '"' :: rest => (readString? fuel rest).map fun (cs, rest) => (ofString cs, rest)
    | '[' :: rest =>
      match skipSpace rest with
      | ']' :: rest => some (.arr [], rest)
      | rest => (readItems? fuel rest).map fun (items, rest) => (.arr items, rest)
    | '\x7b' :: rest =>
      match skipSpace rest with
      | '\x7d' :: rest => some (.obj [], rest)
      | rest => (readMembers? fuel rest).map fun (members, rest) => (ofMembers members, rest)
    | cs => readNumber? cs

/-- The items of an array and its closing bracket. -/
def readItems? : Nat → List Char → Option (List Json × List Char)
  | 0, _ => none
  | fuel + 1, cs => do
    let (item, rest) ← readValue? fuel cs
    match skipSpace rest with
    | ',' :: rest => do
      let (items, rest) ← readItems? fuel rest
      return (item :: items, rest)
    | ']' :: rest => return ([item], rest)
    | _ => none

/-- The members of an object and its closing brace. -/
def readMembers? : Nat → List Char → Option (List (Option String × Json) × List Char)
  | 0, _ => none
  | fuel + 1, cs => do
    let '"' :: rest := skipSpace cs | none
    let (cs, rest) ← readString? fuel rest
    let ':' :: rest := skipSpace rest | none
    let (value, rest) ← readValue? fuel rest
    let member := (textOf? cs, value)
    match skipSpace rest with
    | ',' :: rest => do
      let (members, rest) ← readMembers? fuel rest
      return (member :: members, rest)
    | '\x7d' :: rest => return ([member], rest)
    | _ => none

end

/-- The document that a text holds, with nothing but blanks around it. -/
def read? (text : String) : Option Json := do
  let cs := text.toList
  let (value, rest) ← readValue? (2 * cs.length + 2) cs
  if (skipSpace rest).isEmpty then some value else none

end LiteralFill.Json
