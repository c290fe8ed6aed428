import Mathlib.Data.List.DropRight
import Svnsrv.Lib.TomlTree

/-!
# cpptoml's parser

`cpptoml::parser` of cpptoml.h, which reads router.toml and svnsrv.toml. An iterator
is the text from it to the end of `line_`; dereferenced at the end, it gives the NUL
behind the characters of the line. What is kept of a value is what `Toml.Base` keeps.
-/

namespace Svnsrv.Cpptoml

open CText Toml
set_option autoImplicit false

abbrev quote : UInt8 := 34
abbrev hash : UInt8 := 35
abbrev apostrophe : UInt8 := 39
abbrev comma : UInt8 := 44
abbrev dot : UInt8 := 46
abbrev equal : UInt8 := 61
abbrev lbracket : UInt8 := 91
abbrev backslash : UInt8 := 92
abbrev rbracket : UInt8 := 93
abbrev underscore : UInt8 := 95
abbrev lbrace : UInt8 := 123
abbrev rbrace : UInt8 := 125

inductive Error where
  | parseException (err : Bytes) (lineNumber : Nat)
  | outside       -- an iterator beyond the end of its line, back() of an empty vector
  | fuel
  deriving DecidableEq, Repr

structure Input where
  it : Bytes
  rest : List Bytes       -- the lines that input_ still has
  lineNumber : Nat
  deriving DecidableEq, Repr

/-- The characters and line ends that are left. -/
def Input.size (s : Input) : Nat :=
  s.it.length + s.rest.foldr (fun line left => line.length + 1 + left) 0

/-- `throw_parse_exception` -/
def throwAt {α : Type} (lineNumber : Nat) : Except Bytes α → Except Error α
  | .ok a => .ok a
  | .error err => .error (.parseException err lineNumber)

/-- A function that reads a value from the line. -/
def Input.reading (s : Input) (e : Except Bytes (Base × Bytes)) : Except Error (Base × Input) := do
  let (v, it) ← throwAt s.lineNumber e
  return (v, { s with it })

def deref (it : Bytes) : UInt8 := it.headD 0

@[simp] theorem deref_nil : deref [] = 0 := rfl

@[simp] theorem deref_cons (c : UInt8) (it : Bytes) : deref (c :: it) = c := rfl

/-- What `std::getline` takes from a stream, call by call. -/
def getlines : Bytes → List Bytes
  | [] => []
  | c :: input =>
    if c = newline then [] :: getlines input
    else match getlines input with
      | [] => [[c]]
      | line :: lines => (c :: line) :: lines

/-! ## Characters -/

def isBlank (c : UInt8) : Bool := c == 32 || c == 9

def consumeWhitespace (it : Bytes) : Bytes := it.dropWhile isBlank

/-- The text up to `back` after `consume_backwards_whitespace(back, front)`. -/
def consumeBackwardsWhitespace : Bytes → Bytes
  | [] => []
  | c :: text => c :: text.rdropWhile isBlank

def eolOrComment (it : Bytes) : Except Bytes Unit :=
  if it ≠ [] ∧ deref it ≠ hash then
    .error (ascii "Unidentified trailing character " ++ [deref it] ++
      ascii "---did you forget a '#'?")
  else .ok ()

def skipLines : List Bytes → Nat → Except Error Input
  | [], n => .error (.parseException (ascii "Unclosed array") n)
  | line :: rest, n =>
    let it := consumeWhitespace line
    if it = [] ∨ deref it = hash then skipLines rest (n + 1) else .ok ⟨it, rest, n + 1⟩

def skipWhitespaceAndComments (s : Input) : Except Error Input :=
  let it := consumeWhitespace s.it
  if it = [] ∨ deref it = hash then skipLines s.rest s.lineNumber else .ok { s with it }

/-! ## Strings -/

/-- The value of the character behind a backslash. -/
def parseEscapeCode (c : UInt8) : Except Bytes UInt8 :=
  if c = 98 then .ok 8            -- b
  else if c = 116 then .ok 9      -- t
  else if c = 110 then .ok 10     -- n
  else if c = 102 then .ok 12     -- f
  else if c = 114 then .ok 13     -- r
  else if c = quote then .ok quote
  else if c = backslash then .ok backslash
  else .error (ascii "Invalid escape sequence")

/-- A backslash is one of the characters of a literal string. -/
def startsEscape (delim c : UInt8) : Bool := delim == quote && c == backslash

/-- `string_literal` behind its delimiter, with what it has read so far. -/
def stringLiteral (delim : UInt8) : Bytes → Bytes → Except Bytes (Bytes × Bytes)
  | [], _ => .error (ascii "Unterminated string literal")
  | c :: it, val =>
    if startsEscape delim c then
      match it with
      | [] => .error (ascii "Invalid escape sequence")
      | d :: it => do
        let value ← parseEscapeCode d
        stringLiteral delim it (val ++ [value])
    else if c = delim then .ok (val, consumeWhitespace it)
    else stringLiteral delim it (val ++ [c])

theorem stringLiteral_escape {delim c : UInt8} (h : startsEscape delim c = true) (d : UInt8)
    (it val : Bytes) : stringLiteral delim (c :: d :: it) val =
      (parseEscapeCode d).bind fun value => stringLiteral delim it (val ++ [value]) := by
  rw [stringLiteral.eq_def]
  exact if_pos h

theorem stringLiteral_char {delim c : UInt8} (h : startsEscape delim c = false) (it val : Bytes) :
    stringLiteral delim (c :: it) val =
      if c = delim then .ok (val, consumeWhitespace it) else stringLiteral delim it (val ++ [c]) := by
  rw [stringLiteral.eq_def]
  exact if_neg (by rw [h]; exact Bool.false_ne_true)

/-- What `handle_line` leaves: the string ended before `it`, or the line did. -/
inductive HandledLine where
  | ended (ss it : Bytes)
  | unended (ss : Bytes) (consuming : Bool)
  deriving DecidableEq, Repr

/-- The loop of `handle_line`. -/
def handleChars (delim : UInt8) : Bytes → Bytes → Except Bytes HandledLine
  | [], ss => .ok (.unended ss false)
  | c :: it, ss =>
    if startsEscape delim c then
      match it with
      | [] => .ok (.unended ss true)
      | d :: it => do
        let value ← parseEscapeCode d
        handleChars delim it (ss ++ [value])
    else if (c :: it).take 3 = [delim, delim, delim] then .ok (.ended ss (it.drop 2))
    else handleChars delim it (ss ++ [c])

def handleLine (delim : UInt8) (consuming : Bool) (it ss : Bytes) : Except Bytes HandledLine :=
  if consuming then
    match it.dropWhile isBlank with
    | [] => .ok (.unended ss true)
    | c :: it => handleChars delim (c :: it) ss
  else handleChars delim it ss

/-- The lines that a multi-line string goes on over. -/
def eatLines (delim : UInt8) : List Bytes → Nat → Bytes → Bool → Except Error (Base × Input)
  | [], n, _, _ => .error (.parseException (ascii "Unterminated multi-line basic string") n)
  | line :: rest, n, ss, consuming => do
    match ← throwAt (n + 1) (handleLine delim consuming line ss) with
    | .ended ss it => return (.string ss, ⟨it, rest, n + 1⟩)
    | .unended ss true => eatLines delim rest (n + 1) ss true
    | .unended ss false => eatLines delim rest (n + 1) (ss ++ [newline]) false

def parseMultilineString (delim : UInt8) (s : Input) : Except Error (Base × Input) := do
  match ← throwAt s.lineNumber (handleLine delim false s.it []) with
  | .ended ss it => return (.string ss, { s with it })
  | .unended ss consuming => eatLines delim s.rest s.lineNumber ss consuming

def parseString (s : Input) : Except Error (Base × Input) :=
  let delim := deref s.it
  if s.it.tail.take 2 = [delim, delim] then
    parseMultilineString delim { s with it := s.it.drop 3 }
  else s.reading ((stringLiteral delim s.it.tail []).map fun (val, it) => (.string val, it))

/-! ## Numbers, booleans and dates -/

/-- The loop of `eat_numbers`. -/
def eatNumbersLoop : Bytes → Except Bytes Bytes
  | [] => .ok []
  | [c] => .ok (if isDigit c then [] else [c])
  | c :: d :: it =>
    if isDigit c then
      if d = underscore then
        if isDigit (deref it) then eatNumbersLoop it else .error (ascii "Malformed number")
      else eatNumbersLoop (d :: it)
    else .ok (c :: d :: it)

def eatNumbers (it : Bytes) : Except Bytes Bytes :=
  if isDigit (deref it) then eatNumbersLoop it else .error (ascii "Malformed number")

def eatSign (it : Bytes) : Bytes :=
  if deref it = minus ∨ deref it = plus then it.tail else it

/-- `std::stoll` of a sign and digits; none where it throws `out_of_range`. -/
def stoll (v : Bytes) : Option Int64 :=
  let n : Int := if deref v = minus then -numeral v.tail else numeral (eatSign v)
  if -2 ^ 63 ≤ n ∧ n < 2 ^ 63 then some (Int64.ofInt n) else none

/-- `{it, check_it}` without the underscores. -/
def numberText (it checkIt : Bytes) : Bytes :=
  (it.take (it.length - checkIt.length)).filter (· ≠ underscore)

def parseInt (it checkIt : Bytes) : Except Bytes (Base × Bytes) :=
  match stoll (numberText it checkIt) with
  | some n => .ok (.int64 n, checkIt)
  | none => .error (ascii "Malformed number (out of range: stoll)")

/-- The values are left to `std::stod`; `inRange` says where it does not throw. -/
def parseFloat (inRange : Bytes → Bool) (it checkIt : Bytes) : Except Bytes (Base × Bytes) :=
  if inRange (numberText it checkIt) then .ok (.double, checkIt)
  else .error (ascii "Malformed number (out of range: stod)")

def isExponent (c : UInt8) : Bool := c == 101 || c == 69     -- e, E

def parseNumber (inRange : Bytes → Bool) (it : Bytes) : Except Bytes (Base × Bytes) := do
  let checkIt ← eatNumbers (eatSign it)
  if deref checkIt = dot ∨ isExponent (deref checkIt) then
    let isExp := isExponent (deref checkIt)
    let checkIt := checkIt.tail
    if checkIt = [] then .error (ascii "Floats must have trailing digits")
    else do
      let checkIt ← eatNumbers (if isExp then eatSign checkIt else checkIt)
      if !isExp && isExponent (deref checkIt) then do
        let checkIt ← eatNumbers (eatSign checkIt.tail)
        parseFloat inRange it checkIt
      else parseFloat inRange it checkIt
  else parseInt it checkIt

def parseBool (it : Bytes) : Except Bytes (Base × Bytes) :=
  let inside (c : UInt8) : Bool := !(isBlank c || c == hash)
  let v := it.takeWhile inside
  if v = ascii "true" then .ok (.bool true, it.dropWhile inside)
  else if v = ascii "false" then .ok (.bool false, it.dropWhile inside)
  else .error (ascii "Attempted to parse invalid boolean value")

/-- The characters that `find_end_of_date` passes. -/
def isDateChar (c : UInt8) : Bool :=
  isDigit c || c == 84 || c == 90 || c == colon || c == minus || c == plus || c == dot

/-- `eat` and `eat_digits` before `date_end`, which is the end of the text. -/
def eat (c : UInt8) (it : Bytes) : Except Bytes Bytes :=
  if it = [] ∨ deref it ≠ c then .error (ascii "Malformed date") else .ok it.tail

def eatDigits : Nat → Bytes → Except Bytes Bytes
  | 0, it => .ok it
  | len + 1, it =>
    if !isDigit (deref it) then .error (ascii "Malformed date") else eatDigits len it.tail

/-- The offset of a date, or nothing or a `Z`. -/
def eatOffset (date : Bytes) : Except Bytes Bytes :=
  if deref date = plus ∨ deref date = minus then do
    let date ← eatDigits 2 date.tail
    let date ← eat colon date
    eatDigits 2 date
  else if deref date = 90 then .ok date.tail
  else .ok date

def parseDate (it : Bytes) : Except Bytes (Base × Bytes) := do
  let date ← eatDigits 4 (it.takeWhile isDateChar)
  let date ← eat minus date
  let date ← eatDigits 2 date
  let date ← eat minus date
  let date ← eatDigits 2 date
  let date ← eat 84 date
  let date ← eatDigits 2 date
  let date ← eat colon date
  let date ← eatDigits 2 date
  let date ← eat colon date
  let date ← eatDigits 2 date
  let date := if deref date = dot then date.tail.dropWhile isDigit else date
  if date = [] then .error (ascii "Malformed date")
  else do
    let date ← eatOffset date
    if date = [] then .ok (.datetime, it.dropWhile isDateChar)
    else .error (ascii "Malformed date")

/-- The approximation made without `std::regex`. -/
def isDate (text : Bytes) : Bool :=
  let toMatch := text.takeWhile isDateChar
  20 ≤ toMatch.length && toMatch[4]? == some minus && toMatch[7]? == some minus &&
    toMatch[10]? == some 84 && toMatch[13]? == some colon && toMatch[16]? == some colon

inductive ParseType where
  | string | date | int | float | bool | array | inlineTable
  deriving DecidableEq, Repr

def determineNumberType (text : Bytes) : ParseType :=
  if deref ((eatSign text).dropWhile isDigit) = dot then .float else .int

/-- `determine_value_type(it, end)` with `*it` and the text from `it` to `end`. -/
def determineValueType (c : UInt8) (text : Bytes) : Except Bytes ParseType :=
  if c = quote ∨ c = apostrophe then .ok .string
  else if isDate text then .ok .date
  else if isDigit c ∨ c = minus ∨ c = plus then .ok (determineNumberType text)
  else if c = 116 ∨ c = 102 then .ok .bool        -- t, f
  else if c = lbracket then .ok .array
  else if c = lbrace then .ok .inlineTable
  else .error (ascii "Failed to parse value type")

/-! ## Keys -/

/-- The key in the text from `it` to `end`. -/
def parseBareKey (text : Bytes) : Except Bytes Bytes :=
  if text = [] then .error (ascii "Bare key missing name")
  else
    let key := consumeBackwardsWhitespace text
    if hash ∈ key then .error (ascii "Bare key " ++ key ++ ascii " cannot contain #")
    else if key.any isBlank then
      .error (ascii "Bare key " ++ key ++ ascii " cannot contain whitespace")
    else if lbracket ∈ key ∨ rbracket ∈ key then
      .error (ascii "Bare key " ++ key ++ ascii " cannot contain '[' or ']'")
    else .ok key

def parseKey (fun_ : UInt8 → Bool) (it : Bytes) : Except Bytes (Bytes × Bytes) :=
  let it := consumeWhitespace it
  if deref it = quote then stringLiteral quote it.tail []
  else do
    let key ← parseBareKey (it.takeWhile fun c => !fun_ c)
    return (key, it.dropWhile fun c => !fun_ c)

/-! ## Values -/

/-- `parse_value_array` of the elements that `as` takes, with `parse_value`. -/
def parseValueArray (parseValue : Input → Except Error (Base × Input)) (as : Base → Bool) :
    Nat → Input → Except Error Input
  | 0, _ => .error .fuel
  | fuel + 1, s =>
    if s.it = [] ∨ deref s.it = rbracket then .ok { s with it := s.it.tail }
    else do
      let (value, s) ← parseValue s
      if as value then do
        let s ← skipWhitespaceAndComments s
        if deref s.it = comma then do
          let s ← skipWhitespaceAndComments { s with it := s.it.tail }
          parseValueArray parseValue as fuel s
        else .ok { s with it := s.it.tail }
      else .error (.parseException (ascii "Arrays must be heterogeneous") s.lineNumber)

/-- The end of `parse_object_array`. -/
def closeArray {Object : Type} (arr : List Object) (s : Input) :
    Except Error (List Object × Input) :=
  if deref s.it = rbracket then .ok (arr, { s with it := s.it.tail })
  else .error (.parseException (ascii "Unterminated array") s.lineNumber)

/-- `parse_object_array` with the function for an element, which begins with `delim`. -/
def parseObjectArray {Object : Type} (fun_ : Input → Except Error (Object × Input))
    (delim : UInt8) : Nat → List Object → Input → Except Error (List Object × Input)
  | 0, _, _ => .error .fuel
  | fuel + 1, arr, s =>
    if s.it = [] ∨ deref s.it = rbracket then closeArray arr s
    else if deref s.it = delim then do
      let (object, s) ← fun_ s
      let s ← skipWhitespaceAndComments s
      if deref s.it = comma then do
        let s ← skipWhitespaceAndComments { s with it := s.it.tail }
        parseObjectArray fun_ delim fuel (arr ++ [object]) s
      else closeArray (arr ++ [object]) s
    else .error (.parseException (ascii "Unexpected character in array") s.lineNumber)

def parseKeyValue (parseValue : Input → Except Error (Base × Input)) (s : Input)
    (currTable : Table) : Except Error (Table × Input) := do
  let (key, it) ← throwAt s.lineNumber (parseKey (· == equal) s.it)
  if currTable.contains key then
    .error (.parseException (ascii "Key " ++ key ++ ascii " already present") s.lineNumber)
  else if deref it ≠ equal then
    .error (.parseException (ascii "Value must follow after a '='") s.lineNumber)
  else do
    let (value, s) ← parseValue { s with it := consumeWhitespace it.tail }
    return (currTable.insert key value, { s with it := consumeWhitespace s.it })

def parseInlineTable (parseValue : Input → Except Error (Base × Input)) :
    Nat → Input → Table → Except Error (Table × Input)
  | 0, _, _ => .error .fuel
  | fuel + 1, s, tbl =>
    if s.it.tail = [] then
      .error (.parseException (ascii "Unterminated inline table") s.lineNumber)
    else do
      let (tbl, s) ← parseKeyValue parseValue
        { s with it := consumeWhitespace s.it.tail } tbl
      let it := consumeWhitespace s.it
      if deref it = comma then parseInlineTable parseValue fuel { s with it } tbl
      else if deref it = rbrace then .ok (tbl, { s with it := consumeWhitespace it.tail })
      else .error (.parseException (ascii "Unterminated inline table") s.lineNumber)

/-- The element type of a value array; `as<double>()` takes an integer too. -/
def ParseType.takes : ParseType → Base → Bool
  | .string, .string _ | .int, .int64 _ | .float, .double | .float, .int64 _
  | .date, .datetime => true
  | _, _ => false

section Values

variable (inRange : Bytes → Bool)

mutual

def parseValue : Nat → Input → Except Error (Base × Input)
  | 0, _ => .error .fuel
  | fuel + 1, s => do
    match ← throwAt s.lineNumber (determineValueType (deref s.it) s.it) with
    | .string => parseString s
    | .date => s.reading (parseDate s.it)
    | .int | .float => s.reading (parseNumber inRange s.it)
    | .bool => s.reading (parseBool s.it)
    | .array => parseArray fuel s
    | .inlineTable => do
      let (tbl, s) ← parseInlineTable (parseValue fuel) fuel s []
      return (.table tbl, s)

def parseArray : Nat → Input → Except Error (Base × Input)
  | 0, _ => .error .fuel
  | fuel + 1, s => do
    let s ← skipWhitespaceAndComments { s with it := s.it.tail }
    if deref s.it = rbracket then .ok (.array, { s with it := s.it.tail })
    else do
      let valEnd := s.it.takeWhile fun c => !(c == comma || c == rbracket || c == hash)
      match ← throwAt s.lineNumber (determineValueType (deref s.it) valEnd) with
      | .bool => .error (.parseException (ascii "Unable to parse array") s.lineNumber)
      | .array => do
        let (_, s) ← parseObjectArray (parseArray fuel) lbracket fuel [] s
        return (.array, s)
      | .inlineTable => do
        let (arr, s) ← parseObjectArray (fun s => parseInlineTable (parseValue fuel) fuel s [])
          lbrace fuel [] s
        return (.tableArray arr, s)
      | type => do
        let s ← parseValueArray (parseValue fuel) type.takes fuel s
        return (.array, s)

end

end Values

/-! ## Headers -/

/-- The tree so far and where `curr_table` is in it. -/
structure Builder where
  root : Table
  path : List Bytes

namespace Builder

def currTable (b : Builder) : Table := (b.root.focus b.path).getD []

def set (b : Builder) (t : Table) : Builder := { b with root := b.root.setFocus b.path t }

def enter (b : Builder) (part : Bytes) : Builder := { b with path := b.path ++ [part] }

/-- `curr_table` goes down to a part that exists; `clash` is for a part that is a value. -/
def descend (b : Builder) (part : Bytes) (clash : Error) : Base → Except Error Builder
  | .table _ => .ok (b.enter part)
  | .tableArray tables => if tables = [] then .error .outside else .ok (b.enter part)
  | _ => .error clash

/-- What `parse_single_table` does with a part of the name; true when it is inserted. -/
def openTable (b : Builder) (n : Nat) (fullTableName part : Bytes) :
    Except Error (Builder × Bool) :=
  match b.currTable.get part with
  | some v => (b.descend part (.parseException
      (ascii "Key " ++ fullTableName ++ ascii "already exists as a value") n) v).map (·, false)
  | none => .ok ((b.set (b.currTable.insert part (.table []))).enter part, true)

/-- What `parse_table_array` does with one; `last` is the end of the name. -/
def openTableArray (b : Builder) (n : Nat) (fullTaName part : Bytes) (last : Bool) :
    Except Error Builder :=
  match b.currTable.get part, last with
  | some (.tableArray tables), true =>
    .ok ((b.set (b.currTable.insert part (.tableArray (tables ++ [[]])))).enter part)
  | some _, true =>
    .error (.parseException (ascii "Key " ++ fullTaName ++ ascii " is not a table array") n)
  | some v, false => b.descend part (.parseException
      (ascii "Key " ++ fullTaName ++ ascii " already exists as a value") n) v
  | none, true => .ok ((b.set (b.currTable.insert part (.tableArray [[]]))).enter part)
  | none, false => .ok ((b.set (b.currTable.insert part (.table []))).enter part)

end Builder

/-- The names of a header, with a dot before each but the first. -/
def qualify (full part : Bytes) : Bytes := if full = [] then part else full ++ [dot] ++ part

def endsName (c : UInt8) : Bool := c == dot || c == rbracket

/-- Behind a part of a name: white space, and a dot with the white space behind it. -/
def consumeDot (it : Bytes) : Bytes :=
  let it := consumeWhitespace it
  consumeWhitespace (if deref it = dot then it.tail else it)

/-- A header as far as it is read: what it has built, its name, and where it is. -/
structure Header where
  builder : Builder
  fullName : Bytes
  inserted : Bool
  it : Bytes

/-- The loop of `parse_single_table`. -/
def singleTableLoop (n : Nat) : Nat → Header → Except Error Header
  | 0, _ => .error .fuel
  | fuel + 1, h =>
    if h.it = [] ∨ deref h.it = rbracket then .ok h
    else do
      let (part, it) ← throwAt n (parseKey endsName h.it)
      if part = [] then .error (.parseException (ascii "Empty component of table name") n)
      else do
        let fullName := qualify h.fullName part
        let (builder, inserted) ← h.builder.openTable n fullName part
        singleTableLoop n fuel ⟨builder, fullName, h.inserted || inserted, consumeDot it⟩

/-- The table has been defined before, not only named on the way to another one. -/
def Header.redefines (h : Header) : Bool :=
  !h.inserted && (h.builder.currTable.isEmpty || h.builder.currTable.any fun p => p.2.isValue)

/-- `parse_single_table` behind the name. -/
def finishSingleTable (n : Nat) (h : Header) : Except Error Builder :=
  if h.redefines then
    .error (.parseException (ascii "Redefinition of table " ++ h.fullName) n)
  else if h.it = [] then .error .outside        -- ++it at the end of the line
  else do
    throwAt n (eolOrComment (consumeWhitespace h.it.tail))
    return h.builder

def parseSingleTable (n : Nat) (it : Bytes) (b : Builder) : Except Error Builder :=
  if it = [] ∨ deref it = rbracket then
    .error (.parseException (ascii "Table name cannot be empty") n)
  else do
    let h ← singleTableLoop n (it.length + 1) ⟨b, [], false, it⟩
    finishSingleTable n h

/-- The loop of `parse_table_array`. -/
def tableArrayLoop (n : Nat) : Nat → Header → Except Error Header
  | 0, _ => .error .fuel
  | fuel + 1, h =>
    if h.it = [] ∨ deref h.it = rbracket then .ok h
    else do
      let (part, it) ← throwAt n (parseKey endsName h.it)
      if part = [] then .error (.parseException (ascii "Empty component of table array name") n)
      else do
        let fullName := qualify h.fullName part
        let it := consumeDot it
        let builder ← h.builder.openTableArray n fullName part (deref it == rbracket)
        tableArrayLoop n fuel ⟨builder, fullName, false, it⟩

def parseTableArray (n : Nat) (it : Bytes) (b : Builder) : Except Error Builder :=
  if it = [] ∨ deref it = rbracket then
    .error (.parseException (ascii "Table array name cannot be empty") n)
  else do
    let h ← tableArrayLoop n (it.length + 1) ⟨b, [], false, it⟩
    if h.it.length < 2 then
      .error (.parseException (ascii "Unterminated table array name") n)
    else do
      throwAt n (eolOrComment (consumeWhitespace (h.it.drop 2)))
      return h.builder

/-- `parse_table` behind the first bracket. -/
def parseTable (n : Nat) (it : Bytes) (b : Builder) : Except Error Builder :=
  if it = [] then .error (.parseException (ascii "Unexpected end of table") n)
  else if deref it = lbracket then parseTableArray n it.tail b
  else parseSingleTable n it b

/-! ## Files -/

section Files

variable (inRange : Bytes → Bool)

/-- The body of the loop of `parse`, for the line in `s`; a value has fuel for two calls at each
character. -/
def parseLine (s : Input) (b : Builder) : Except Error (Builder × Input) :=
  let it := consumeWhitespace s.it
  if it = [] ∨ deref it = hash then .ok (b, s)
  else if deref it = lbracket then
    (parseTable s.lineNumber it.tail { b with path := [] }).map (·, s)
  else do
    let (t, s) ← parseKeyValue (parseValue inRange (2 * s.size + 1)) { s with it } b.currTable
    throwAt s.lineNumber (eolOrComment (consumeWhitespace s.it))
    return (b.set t, s)

/-- The loop over the lines that `input_` has; `lineNumber` lines are read. -/
def parseLoop : Nat → List Bytes → Nat → Builder → Except Error Table
  | 0, _, _, _ => .error .fuel
  | _ + 1, [], _, b => .ok b.root
  | fuel + 1, line :: rest, lineNumber, b => do
    let (b, s) ← parseLine inRange ⟨line, rest, lineNumber + 1⟩ b
    parseLoop fuel s.rest s.lineNumber b

def parse (input : Bytes) : Except Error Table :=
  parseLoop inRange ((getlines input).length + 1) (getlines input) 0 ⟨[], []⟩

end Files

end Svnsrv.Cpptoml
