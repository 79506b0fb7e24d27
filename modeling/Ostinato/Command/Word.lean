import Ostinato.Command.Switch

/-!
# Words of a command

Each argument is one word: a switch, by its name or by the start of a long name, with what is attached
to it, or a plain word. After two dashes all words are plain.
-/

namespace Ostinato.Command

/-- What a word has after the name of its switch. -/
inductive Attached where
  | nothing
  /-- A value after a long name and an equals sign. -/
  | toLong (value : String)
  /-- What is after a short name; an equals sign may stand between them. -/
  | toShort (text : String)
deriving DecidableEq, Repr

inductive Word where
  | plain (written : String)
  /-- The two dashes after which there are no switches. -/
  | barrier
  | known (switch : Switch) (attached : Attached)
  | unknown (written : String)
deriving DecidableEq, Repr

namespace Word

/-- A word that is no switch: a plain word or the barrier. -/
def isPlain : Word → Bool
  | plain _ => true
  | barrier => true
  | _ => false

/-! ### Names -/

/-- All names of switches, in order, with their switches. -/
def named (switches : List Switch) : List (String × Switch) :=
  switches.flatMap fun s => s.names.map fun name => (name, s)

def switch? (switches : List Switch) (name : String) : Option Switch :=
  switches.find? fun s => s.names.contains name

/-- An argument before its first equals sign, and what is attached by the sign. -/
def assignment (cs : List Char) : String × Option String :=
  let name := String.ofList (cs.takeWhile (· != '='))
  match cs.dropWhile (· != '=') with
  | _ :: value => (name, some (String.ofList value))
  | [] => (name, none)

/-- The long names that an argument may stand for: those that it is a beginning of. -/
def longCandidates (switches : List Switch) (cs : List Char) : List (String × Word) :=
  let (start, value) := assignment cs
  (named switches).filterMap fun (name, s) =>
    if start.toList.isPrefixOf name.toList then some (name, known s (value.elim .nothing .toLong))
    else none

/-- The names that an argument with a single dash may stand for: a short name that further characters
are joined to, or a name that it is a beginning of. -/
def shortCandidates (switches : List Switch) (cs : List Char) : List (String × Word) :=
  (named switches).filterMap fun (name, s) =>
    if name.toList = cs.take 2 then some (name, known s (.toShort (String.ofList (cs.drop 2))))
    else if cs.isPrefixOf name.toList then some (name, known s .nothing)
    else none

/-! ### Arguments as words -/

/-- The word that an argument with a dash in front is. Names go before their beginnings, and what looks
like a negative number or has a space in it is no switch. -/
def ofDashed (switches : List Switch) (written : String) (isLong : Bool) : Except Misuse Word :=
  let cs := written.toList
  match switch? switches written with
  | some s => .ok (known s .nothing)
  | none =>
    match assignment cs with
    | (name, some value) =>
      match switch? switches name with
      | some s => .ok (known s (if isLong then .toLong value else .toShort value))
      | none => ofCandidates cs
    | _ => ofCandidates cs
where
  /-- The word by the beginning of a name. -/
  ofCandidates (cs : List Char) : Except Misuse Word :=
    match if isLong then longCandidates switches cs else shortCandidates switches cs with
    | [] =>
      if Text.isNegativeNumber cs || cs.contains ' ' then .ok (plain written) else .ok (unknown written)
    | [(_, word)] => .ok word
    | several => .error (.ambiguous written (several.map (·.1)))

def ofArgument (switches : List Switch) (written : String) : Except Misuse Word :=
  match written.toList with
  | '-' :: c :: _ => ofDashed switches written (c == '-')
  | _ => .ok (plain written)

def ofArguments (switches : List Switch) : List String → Except Misuse (List Word)
  | [] => .ok []
  | written :: rest =>
    if written = "--" then .ok (barrier :: rest.map plain)
    else do
      let word ← ofArgument switches written
      return word :: (← ofArguments switches rest)

end Word

end Ostinato.Command
