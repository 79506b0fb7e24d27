import Ostinato.Yaml.Scalar

/-!
# Reading tokens

The tokens of a whole text, in order, or how far a text was looked at when it was refused.
-/

namespace Ostinato.Yaml

namespace Scanner

/-! ### Space between tokens -/

/-- Passes spaces, comments and line breaks. A new line outside flow collections may start a key. -/
def skipSpace : Nat → Scanner → Scanner
  | 0, s => s
  | fuel + 1, s =>
    let c := s.cursor.skipWhile (· == ' ')
    let c := if c.peek = some '#' then c.skipWhile fun x => !isBreak x else c
    match c.lineBreak? with
    | some (_, c') => skipSpace fuel { s with cursor := c', keyAllowed := s.keyAllowed || !s.inFlow }
    | none => { s with cursor := c }

/-- Passes a byte order mark at the start of the text. -/
def skipMark (s : Scanner) : Scanner :=
  match s.cursor.rest with
  | x :: _ => if s.cursor.index = 0 ∧ x.toNat = 0xFEFF then { s with cursor := s.cursor.next } else s
  | [] => s

/-! ### Names and tags -/

def isNameChar (c : Char) : Bool :=
  ('0' ≤ c && c ≤ '9') || ('A' ≤ c && c ≤ 'Z') || ('a' ≤ c && c ≤ 'z') || c == '-' || c == '_'

/-- The name after the sign of an anchor or an alias. -/
def scanName (c : Cursor) : Except Refusal (String × Cursor) :=
  let (name, c) := c.takeWhile isNameChar
  let closed := separates c.peek || (match c.peek with
    | some x => ['?', ':', ',', ']', '\x7d', '%', '@', '\x60'].contains x
    | none => true)
  if name.isEmpty || !closed then .error c.refusal else .ok (String.ofList name, c)

def isTagChar (c : Char) : Bool :=
  isNameChar c || [';', '/', '?', ':', '@', '&', '=', '+', '$', ',', '.', '!', '~', '*', '\'', '(',
    ')', '[', ']', '%'].contains c

/-- A tag: the handle up to its last mark, and what it stands with. The whole word is looked at for a
second mark. -/
def scanTag (c : Cursor) : Except Refusal (Token × Cursor) :=
  let c := c.look 1
  if c.peekAt 1 = some '<' then
    let (suffix, c) := (Cursor.pass 2 c).takeWhile isTagChar
    if suffix.isEmpty || c.peek != some '>' then .error c.refusal
    else if !separates c.next.peek then .error c.next.refusal
    else .ok (.tag "" (String.ofList suffix), c.next)
  else if separates (c.peekAt 1) then .ok (.tag "!" "", c.next)
  else
    let word := (c.rest.drop 1).takeWhile fun x => !(x == ' ' || isBreak x || x == '!')
    let c := c.look (word.length + 1)
    let marked := c.peekAt (word.length + 1) == some '!'
    if marked && !word.all isNameChar then .error c.refusal
    else
      let handle := if marked then '!' :: word ++ ['!'] else ['!']
      let (suffix, c) := (Cursor.pass handle.length c).takeWhile isTagChar
      if suffix.isEmpty || !separates c.peek then .error c.refusal
      else .ok (.tag (String.ofList handle) (String.ofList suffix), c)

/-! ### Directives -/

/-- The rest of a version directive. Only the first major version is known, and another one is refused
after its line. -/
def scanVersion (c : Cursor) : Except Refusal Cursor :=
  let (major, c) := c.takeWhile Char.isDigit
  if major.isEmpty || c.peek != some '.' then .error c.refusal
  else
    let (minor, c) := c.next.takeWhile Char.isDigit
    if minor.isEmpty || !(c.peek == some ' ' || endsLine c.peek) then .error c.refusal
    else match ignoredLine c with
      | .error refusal => .error refusal
      | .ok c => if major.dropWhile (· == '0') == ['1'] then .ok c else .error c.refusal

def scanDirective (c : Cursor) : Except Refusal Cursor :=
  let (name, c) := c.next.takeWhile isNameChar
  if name.isEmpty || !(c.peek == some ' ' || endsLine c.peek) then .error c.refusal
  else if name == "YAML".toList then scanVersion (c.skipWhile (· == ' '))
  else ignoredLine (c.skipWhile fun x => !isBreak x)

/-! ### Single tokens -/

/-- Looks as far as it takes to tell tokens apart that start with a character: marks of documents, and
signs that count only before a space or only before none. -/
def lookAhead (s : Scanner) (c : Char) : Scanner :=
  let first := decide (s.cursor.column = 0)
  let signs := ['-', '@', '\x60', '\t'] ++ (if first then [] else ['%'])
    ++ (if s.inFlow then ['|', '>'] else ['?', ':'])
  let cursor := if first && (c == '-' || c == '.') then s.cursor.lookForMarker else s.cursor
  { s with cursor := if signs.contains c then cursor.look 1 else cursor }

/-- Ends what is open before a directive or a marker. -/
def leaveDocument (s : Scanner) : Except Refusal Scanner :=
  (s.unwind (-1)).forgetPlace.map fun s => { s with keyAllowed := false }

def openFlow (s : Scanner) (t : Token) : Except Refusal Scanner :=
  s.savePlace.map fun s =>
    { s.emit t 1 with keyAllowed := true, place := none, outerPlaces := s.place :: s.outerPlaces }

/-- Closes a flow collection. A closing bracket without an opening one fits nowhere. -/
def closeFlow (s : Scanner) (t : Token) : Except Refusal Scanner := do
  let s ← s.forgetPlace
  match s.outerPlaces with
  | [] => throw s.cursor.next.refusal
  | outer :: others => return { s.emit t 1 with keyAllowed := false, place := outer, outerPlaces := others }

def flowEntry (s : Scanner) : Except Refusal Scanner :=
  s.forgetPlace.map fun s => { s.emit .flowEntry 1 with keyAllowed := true }

/-- Opens a block at the present column, for an entry or a key without a place. -/
def enterBlock (s : Scanner) (t : Token) : Except Refusal Scanner :=
  if s.inFlow then .ok s
  else if !s.keyAllowed then .error s.cursor.refusal
  else if s.opens s.cursor.column then .ok ((s.openBlock s.cursor.column).push t)
  else .ok s

def blockEntry (s : Scanner) : Except Refusal Scanner := do
  let s ← s.enterBlock .blockSequenceStart
  let s ← s.forgetPlace
  return { s.emit .blockEntry 1 with keyAllowed := true }

def key (s : Scanner) : Except Refusal Scanner := do
  let s ← s.enterBlock .blockMappingStart
  let s ← s.forgetPlace
  return { s.emit .key 1 with keyAllowed := !s.inFlow }

/-- A colon: what started at the remembered place is a key, or the key is empty. -/
def value (s : Scanner) : Except Refusal Scanner :=
  match s.place with
  | some p =>
    let s := { s with place := none }.insert p.token .key
    let s := if !s.inFlow && s.opens p.column then
        (s.openBlock p.column).insert p.token .blockMappingStart
      else s
    .ok { s.emit .value 1 with keyAllowed := false }
  | none => do
    let s ← s.enterBlock .blockMappingStart
    return { s.emit .value 1 with keyAllowed := !s.inFlow }

/-- A token that may be a key, with the place after it. -/
def keyLike (s : Scanner) (scan : Cursor → Except Refusal (Token × Cursor)) : Except Refusal Scanner := do
  let s ← s.savePlace
  let (t, c) ← scan s.cursor
  return { s.push t with cursor := c, keyAllowed := false }

def mention (s : Scanner) : Except Refusal Scanner :=
  s.keyLike fun c => (scanName c.next).map fun (name, c) => (.mention name, c)

def anchor (s : Scanner) : Except Refusal Scanner :=
  s.keyLike fun c => (scanName c.next).map fun (name, c) => (.anchor name, c)

def quoted (s : Scanner) (double : Bool) : Except Refusal Scanner :=
  s.keyLike fun c => (scanQuoted double (c.rest.length + 1) c.next []).map fun (text, c) =>
    (.scalar (String.ofList text) false, c)

def blockScalar (s : Scanner) (fold : Bool) : Except Refusal Scanner := do
  let s ← s.forgetPlace
  let (text, c) ← scanBlock fold s.indent s.cursor.next
  return { s.push (.scalar (String.ofList text) false) with cursor := c, keyAllowed := true }

def plain (s : Scanner) : Except Refusal Scanner :=
  let (text, c, ended) := scanPlain s.inFlow (s.indent + 1) (s.cursor.rest.length + 1) s.cursor [] [] false
  s.savePlace.map fun s =>
    { s.push (.scalar (String.ofList text) true) with cursor := c, keyAllowed := ended }

def startsPlain (s : Scanner) (c : Char) : Bool :=
  !(separates (some c) || ['-', '?', ':', ',', '[', ']', '\x7b', '\x7d', '#', '&', '*', '!', '|', '>',
      '\'', '"', '%', '@', '\x60'].contains c)
    || (!separates (s.cursor.peekAt 1) && (c == '-' || (!s.inFlow && (c == '?' || c == ':'))))

def token (s : Scanner) (c : Char) : Except Refusal Scanner :=
  let first := decide (s.cursor.column = 0)
  let alone := separates (s.cursor.peekAt 1)
  if c == '%' && first then do
    let s ← s.leaveDocument
    return { s.push .directive with cursor := ← scanDirective s.cursor }
  else if c == '-' && first && s.cursor.atMarker then s.leaveDocument.map (·.emit .documentStart 3)
  else if c == '.' && first && s.cursor.atMarker then s.leaveDocument.map (·.emit .documentEnd 3)
  else if c == '[' then s.openFlow .flowSequenceStart
  else if c == '\x7b' then s.openFlow .flowMappingStart
  else if c == ']' then s.closeFlow .flowSequenceEnd
  else if c == '\x7d' then s.closeFlow .flowMappingEnd
  else if c == ',' then s.flowEntry
  else if c == '-' && alone then s.blockEntry
  else if c == '?' && (s.inFlow || alone) then s.key
  else if c == ':' && (s.inFlow || alone) then s.value
  else if c == '*' then s.mention
  else if c == '&' then s.anchor
  else if c == '!' then s.keyLike scanTag
  else if c == '|' && !s.inFlow then s.blockScalar false
  else if c == '>' && !s.inFlow then s.blockScalar true
  else if c == '\'' then s.quoted false
  else if c == '"' then s.quoted true
  else if s.startsPlain c then s.plain
  else .error s.cursor.refusal

/-! ### Rows of tokens -/

/-- Comes to the next token, or to the end of the text. -/
def advance (s : Scanner) : Except Refusal Scanner := do
  let s ← (skipSpace (s.cursor.rest.length + 1) s.skipMark).dropStale
  return s.unwind s.cursor.column

/-- The tokens of the rest of a text, or those up to a refusal and how far the text was looked at. -/
def run : Nat → Scanner → Scanner × Option Refusal
  | 0, s => (s, some s.cursor.refusal)
  | fuel + 1, s =>
    match s.advance with
    | .error refusal => (s, some refusal)
    | .ok s =>
      match s.cursor.peek with
      | none =>
        match (s.unwind (-1)).forgetPlace with
        | .error refusal => (s, some refusal)
        | .ok s => (s, none)
      | some c =>
        -- a place that a token leaves stale is dropped at once, so that the token may be settled
        match ((s.lookAhead c).token c).bind dropStale with
        | .error refusal => (s, some refusal)
        | .ok s => run fuel s.settle

def ofText (cs : List Char) : Scanner × Option Refusal := run (cs.length + 2) (start cs)

end Scanner

end Ostinato.Yaml
