import Ostinato.Yaml.Token

/-!
# Scalar tokens

The text of scalars as they stand in a document: plain, between quotes, or as a block of lines. Lines
inside a scalar are folded: one line break is a space, and further ones stay.
-/

namespace Ostinato.Yaml

/-- What a fold leaves of a break and the empty lines after it. -/
def folded (mark : Char) (more : List Char) : List Char :=
  if mark ≠ '\n' then mark :: more else if more.isEmpty then [' '] else more

/-! ### Plain scalars -/

/-- The characters that end a plain scalar inside a flow collection. -/
def endsFlowPlain (c : Char) : Bool := c == ',' || c == '?' || c == '[' || c == ']' || c == '\x7b' || c == '\x7d'

/-- Whether a character after a colon makes it a mark. -/
def marksValue (inFlow : Bool) (after : Option Char) : Bool :=
  separates after || (inFlow && match after with
    | some c => c == ',' || c == '[' || c == ']' || c == '\x7b' || c == '\x7d'
    | none => false)

/-- How many characters of a line belong to a plain scalar. -/
def plainWidth (inFlow : Bool) : List Char → Nat
  | [] => 0
  | c :: rest =>
    if separates (some c) then 0
    else if c = ':' && marksValue inFlow rest.head? then 0
    else if inFlow && endsFlowPlain c then 0
    else plainWidth inFlow rest + 1

/-- The breaks of empty lines inside a plain scalar; none where a marker ends the document. -/
def plainBreaks : Nat → Cursor → List Char → Option (List Char) × Cursor
  | 0, c, breaks => (some breaks, c)
  | fuel + 1, c, breaks =>
    match c.peek with
    | some ' ' => plainBreaks fuel c.next breaks
    | _ =>
      match c.lineBreak? with
      | some (b, c') =>
        let c' := c'.lookForMarker
        if c'.atMarker then (none, c') else plainBreaks fuel c' (breaks ++ [b])
      | none => (some breaks, c)

/-- The space after a piece of a plain scalar: what it is folded to, the place after it, and whether a
line was ended. -/
def plainSpaces (c : Cursor) : List Char × Cursor × Bool :=
  let (spaces, c) := c.takeWhile (· == ' ')
  match c.lineBreak? with
  | some (b, c') =>
    let c' := c'.lookForMarker
    if c'.atMarker then ([], c', true)
    else match plainBreaks c'.rest.length c' [] with
      | (some breaks, c'') => (folded b breaks, c'', true)
      | (none, c'') => ([], c'', true)
  | none => (spaces, c, false)

/-- A plain scalar: its text, the place after it, and whether it ended at the end of a line. -/
def scanPlain (inFlow : Bool) (indent : Int) :
    Nat → Cursor → List Char → List Char → Bool → List Char × Cursor × Bool
  | 0, c, text, _, ended => (text, c, ended)
  | fuel + 1, c, text, spaces, ended =>
    if c.peek = some '#' then (text, c, ended)
    else
      let width := plainWidth inFlow c.rest
      -- a colon ends the piece only by the character after it
      let c := if c.peekAt width = some ':' then c.look (width + 1) else c
      if width = 0 then (text, c, ended)
      else
        let text := text ++ spaces ++ c.rest.take width
        let (spaces, c, ended) := plainSpaces (Cursor.pass width c)
        if spaces.isEmpty || c.peek = some '#' || (!inFlow && decide ((c.column : Int) < indent)) then
          (text, c, ended)
        else scanPlain inFlow indent fuel c text spaces ended

/-! ### Quoted scalars -/

def escaped? (c : Char) : Option Char :=
  match c with
  | '0' => some '\x00'
  | 'a' => some '\x07'
  | 'b' => some '\x08'
  | 't' => some '\t'
  | '\t' => some '\t'
  | 'n' => some '\n'
  | 'v' => some '\x0b'
  | 'f' => some '\x0c'
  | 'r' => some '\r'
  | 'e' => some '\x1b'
  | ' ' => some ' '
  | '"' => some '"'
  | '\\' => some '\\'
  | '/' => some '/'
  | 'N' => some '\u0085'
  | '_' => some '\u00a0'
  | 'L' => some '\u2028'
  | 'P' => some '\u2029'
  | _ => none

/-- How many hexadecimal digits follow a letter after a backslash. -/
def codeWidth? (c : Char) : Option Nat :=
  match c with
  | 'x' => some 2
  | 'u' => some 4
  | 'U' => some 8
  | _ => none

def hexValue? (c : Char) : Option Nat :=
  if '0' ≤ c ∧ c ≤ '9' then some (c.toNat - '0'.toNat)
  else if 'a' ≤ c ∧ c ≤ 'f' then some (c.toNat - 'a'.toNat + 10)
  else if 'A' ≤ c ∧ c ≤ 'F' then some (c.toNat - 'A'.toNat + 10)
  else none

/-- The character with a code. Codes of surrogates stand for the replacement character, and no character
has a code above all others. -/
def charOfCode? (n : Nat) : Option Char :=
  if n.isValidChar then some (Char.ofNat n) else if n < 0x110000 then some '\ufffd' else none

/-- The breaks of empty lines inside a quoted scalar. A marker of documents is a fault here. -/
def quotedBreaks : Nat → Cursor → List Char → Except Refusal (List Char × Cursor)
  | 0, c, _ => .error c.refusal
  | fuel + 1, c, breaks =>
    let c := c.lookForMarker
    if c.atMarker then .error c.refusal
    else
      let c := c.skipWhile fun x => x == ' ' || x == '\t'
      match c.lineBreak? with
      | some (b, c') => quotedBreaks fuel c' (breaks ++ [b])
      | none => .ok (breaks, c)

/-- The character that so many hexadecimal digits are the code of. They are looked at one by one. -/
def scanCode (width : Nat) (c : Cursor) : Except Refusal Char :=
  let digits := ((c.rest.take width).takeWhile fun x => (hexValue? x).isSome).filterMap hexValue?
  if digits.length < width then .error (c.look digits.length).refusal
  else match charOfCode? (digits.foldl (fun n d => n * 16 + d) 0) with
    | some x => .ok x
    | none => .error ⟨.noCharacter, (c.look (width - 1)).seen⟩

/-- An escape after a backslash: its characters, and the place after it. -/
def scanEscape (c : Cursor) : Except Refusal (List Char × Cursor) :=
  match c.peek with
  | none => .error c.refusal
  | some x =>
    match escaped? x with
    | some y => .ok ([y], c.next)
    | none =>
      match codeWidth? x with
      | some width => (scanCode width c.next).map fun x => ([x], Cursor.pass width c.next)
      | none =>
        match c.lineBreak? with
        | some (_, c') => quotedBreaks (c'.rest.length + 1) c' []
        | none => .error c.refusal

/-- White space inside a quoted scalar, folded if it ends a line. -/
def quotedSpaces (c : Cursor) : Except Refusal (List Char × Cursor) :=
  let (spaces, c) := c.takeWhile fun x => x == ' ' || x == '\t'
  match c.lineBreak? with
  | some (b, c') =>
    (quotedBreaks (c'.rest.length + 1) c' []).map fun (breaks, c'') => (folded b breaks, c'')
  | none => .ok (spaces, c)

def scanQuoted (double : Bool) : Nat → Cursor → List Char → Except Refusal (List Char × Cursor)
  | 0, c, _ => .error c.refusal
  | fuel + 1, c, text =>
    match c.peek with
    | none => .error c.refusal
    | some x =>
      if double && x == '"' then .ok (text, c.next)
      else if !double && x == '\'' then
        if c.peekAt 1 = some '\'' then scanQuoted double fuel c.next.next (text ++ ['\''])
        else .ok (text, c.next)
      else if double && x == '\\' then
        match scanEscape c.next with
        | .ok (piece, c') => scanQuoted double fuel c' (text ++ piece)
        | .error refusal => .error refusal
      else if separates (some x) then
        match quotedSpaces c with
        | .ok (piece, c') => scanQuoted double fuel c' (text ++ piece)
        | .error refusal => .error refusal
      else scanQuoted double fuel c.next (text ++ [x])

/-! ### Block scalars -/

/-- What becomes of the breaks at the end of a block scalar. -/
inductive Chomping where
  | strip
  | clip
  | keep
deriving DecidableEq, Repr

def chomping? (c : Char) : Option Chomping :=
  if c = '-' then some .strip else if c = '+' then some .keep else none

def increment? (c : Char) : Option Nat :=
  if '1' ≤ c ∧ c ≤ '9' then some (c.toNat - '0'.toNat) else none

/-- The marks after the sign of a block scalar: how it ends and how deep it is, in either order. -/
def scanIndicators (c : Cursor) : Chomping × Option Nat × Cursor :=
  match c.peek.bind chomping? with
  | some chomping =>
    match c.next.peek.bind increment? with
    | some n => (chomping, some n, c.next.next)
    | none => (chomping, none, c.next)
  | none =>
    match c.peek.bind increment? with
    | some n =>
      match c.next.peek.bind chomping? with
      | some chomping => (chomping, some n, c.next.next)
      | none => (.clip, some n, c.next)
    | none => (.clip, none, c)

/-- The rest of a line that holds spaces and a comment at most. -/
def ignoredLine (c : Cursor) : Except Refusal Cursor :=
  let c := c.skipWhile (· == ' ')
  let c := if c.peek = some '#' then c.skipWhile fun x => !isBreak x else c
  if endsLine c.peek then .ok (match c.lineBreak? with
    | some (_, c') => c'
    | none => c)
  else .error c.refusal

/-- The empty lines in front of a block scalar, and the deepest column of their spaces. -/
def leadingLines : Nat → Cursor → List Char → Nat → List Char × Nat × Cursor
  | 0, c, breaks, deepest => (breaks, deepest, c)
  | fuel + 1, c, breaks, deepest =>
    if c.peek = some ' ' then leadingLines fuel c.next breaks (max deepest c.next.column)
    else match c.lineBreak? with
      | some (b, c') => leadingLines fuel c' (breaks ++ [b]) deepest
      | none => (breaks, deepest, c)

def skipTo (column : Nat) (c : Cursor) : Cursor :=
  Cursor.pass (min (column - c.column) (c.rest.takeWhile (· == ' ')).length) c

def emptyLines (indent : Nat) : Nat → Cursor → List Char → List Char × Cursor
  | 0, c, breaks => (breaks, c)
  | fuel + 1, c, breaks =>
    let c := skipTo indent c
    match c.lineBreak? with
    | some (b, c') => emptyLines indent fuel c' (breaks ++ [b])
    | none => (breaks, c)

def startsBlank (c : Cursor) : Bool := c.peek == some ' ' || c.peek == some '\t'

/-- The lines of a block scalar: its text, the last break, and the breaks after it. -/
def blockLines (fold : Bool) (indent : Nat) :
    Nat → Cursor → List Char → List Char → List Char → List Char × List Char × List Char × Cursor
  | 0, c, text, last, breaks => (text, last, breaks, c)
  | fuel + 1, c, text, last, breaks =>
    if c.column = indent ∧ c.peek.isSome then
      let blank := startsBlank c
      let (line, c) := c.takeWhile fun x => !isBreak x
      let text := text ++ breaks ++ line
      let (last, c) := match c.lineBreak? with
        | some (b, c') => ([b], c')
        | none => ([], c)
      let (breaks, c) := emptyLines indent (c.rest.length + 1) c []
      if c.column = indent ∧ c.peek.isSome then
        let join :=
          if fold && last == ['\n'] && !blank && !startsBlank c then
            (if breaks.isEmpty then [' '] else [])
          else last
        blockLines fold indent fuel c (text ++ join) last breaks
      else (text, last, breaks, c)
    else (text, last, breaks, c)

/-- A block scalar after its sign, inside a block of some indent. -/
def scanBlock (fold : Bool) (indent : Int) (c : Cursor) : Except Refusal (List Char × Cursor) := do
  let (chomping, increment, c) := scanIndicators c
  if !(c.peek == some ' ' || endsLine c.peek) then throw c.refusal
  let c ← ignoredLine c
  let least := (max (indent + 1) 1).toNat
  let fuel := c.rest.length + 1
  let (breaks, depth, c) := match increment with
    | some n =>
      let (breaks, c) := emptyLines (least + n - 1) fuel c []
      (breaks, least + n - 1, c)
    | none =>
      let (breaks, deepest, c) := leadingLines fuel c [] 0
      (breaks, max least deepest, c)
  let (text, last, breaks, c) := blockLines fold depth fuel c [] [] breaks
  return (match chomping with
    | .strip => text
    | .clip => text ++ last
    | .keep => text ++ last ++ breaks, c)

end Ostinato.Yaml
