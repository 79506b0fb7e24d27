import Ostinato.Command.Word

/-!
# Requests

A request is a verb with the switches that were given for it. Arguments that no switch takes are left
over, and a request with any of them is a misuse.
-/

namespace Ostinato.Command

/-- What is read from arguments: switches with their values, and what is left over. -/
structure Usage where
  given : List (Switch × Value)
  leftOver : List String
deriving DecidableEq, Repr

/-- Why there is no request: help was asked for, or the arguments are a misuse. -/
inductive Stop where
  | help
  | misuse (verb : Option Verb) (misuse : Misuse)
deriving DecidableEq, Repr

namespace Usage

def empty : Usage := ⟨[], []⟩

def leave (u : Usage) (written : String) : Usage := { u with leftOver := u.leftOver ++ [written] }

def give (u : Usage) (s : Switch) (v : Value) : Usage := { u with given := u.given ++ [(s, v)] }

def letter? (switches : List Switch) (c : Char) : Option Switch :=
  switches.find? fun s => s.operand == .nothing && s.names.contains (String.ofList ['-', c])

/-- The switches that letters after one without a value are. A letter that is no switch makes it and
all after it a value, which the switch before it does not take. -/
def letters (switches : List Switch) (s : Switch) : List Char → Except Misuse (List Switch)
  | [] => .ok [s]
  | c :: cs =>
    match letter? switches c with
    | none => .error (.valueIgnored s (String.ofList (c :: cs)))
    | some next => (letters switches next cs).map (s :: ·)

/-- All switches of a word for one that takes nothing. Only letters after a short name are no value. -/
def flags (switches : List Switch) (s : Switch) : Attached → Except Misuse (List Switch)
  | .nothing => .ok [s]
  | .toLong value => .error (.valueIgnored s value)
  | .toShort text =>
    if text.isEmpty then .error (.valueIgnored s text) else letters switches s text.toList

/-- The text that is attached to a switch, if there is any. -/
def attachedText? : Attached → Option String
  | .nothing => none
  | .toLong value => some value
  | .toShort text => some text

/-- Reads words one after another. A switch with a value takes what is attached to it, or the plain word
that follows. -/
def read (verb : Option Verb) (switches : List Switch) (u : Usage) : List Word → Except Stop Usage
  | [] => .ok u
  | .plain written :: rest => read verb switches (u.leave written) rest
  | .barrier :: rest => read verb switches (u.leave "--") rest
  | .unknown written :: rest => read verb switches (u.leave written) rest
  | .known s attached :: rest =>
    if s.operand = .nothing then
      match flags switches s attached with
      | .error m => .error (.misuse verb m)
      | .ok found =>
        if found.contains .help then .error .help
        else read verb switches (found.foldl (fun u s => u.give s .nothing) u) rest
    else
      match attachedText? attached, rest with
      | some written, rest =>
        match s.value written with
        | .error m => .error (.misuse verb m)
        | .ok v => read verb switches (u.give s v) rest
      | none, .plain written :: rest =>
        match s.value written with
        | .error m => .error (.misuse verb m)
        | .ok v => read verb switches (u.give s v) rest
      | none, _ => .error (.misuse verb (.valueMissing s))

/-- The usage that arguments are, by the switches of a verb or of the command line as a whole. -/
def ofArguments (verb : Option Verb) (switches : List Switch) (arguments : List String) :
    Except Stop Usage :=
  match Word.ofArguments switches arguments with
  | .error m => .error (.misuse verb m)
  | .ok words => read verb switches empty words

end Usage

/-! ### Requests -/

structure Request where
  verb : Verb
  given : List (Switch × Value)
deriving DecidableEq, Repr

namespace Request

def switchesInFront : List Switch := [.help]

/-- The arguments in front of the first plain word, and the others. -/
def front : List Word → List String → List Word × List String
  | w :: words, a :: arguments =>
    if w.isPlain then ([], a :: arguments)
    else
      let (before, after) := front words arguments
      (w :: before, after)
  | _, arguments => ([], arguments)

/-- The request that arguments make; none where they have no verb. -/
def ofArguments (arguments : List String) : Except Stop (Option Request) := do
  let words ← (Word.ofArguments switchesInFront arguments).mapError (Stop.misuse none)
  let (before, after) := front words arguments
  let outer ← Usage.read none switchesInFront .empty before
  let finish (request : Option Request) (leftOver : List String) : Except Stop (Option Request) :=
    if leftOver.isEmpty then return request else throw (.misuse none (.unrecognized leftOver))
  match after with
  | [] => finish none outer.leftOver
  | ["--"] => finish none (outer.leftOver ++ ["--"])
  | word :: rest =>
    match Verb.ofWord? word with
    | none => throw (.misuse none (.unknownVerb word))
    | some verb =>
      let inner ← Usage.ofArguments (some verb) verb.switches rest
      finish (some ⟨verb, inner.given⟩) (outer.leftOver ++ inner.leftOver)

/-! ### Values -/

def has (r : Request) (s : Switch) : Bool := r.given.any (·.1 == s)

/-- The values given with a switch, in order. -/
def values (r : Request) (s : Switch) : List Value := (r.given.filter (·.1 == s)).map (·.2)

/-- The value given with a switch; the last one counts. -/
def value? (r : Request) (s : Switch) : Option Value := (r.values s).getLast?

def text? (r : Request) (s : Switch) : Option String :=
  match r.value? s with
  | some (.text written) => some written
  | _ => none

def number? (r : Request) (s : Switch) : Option Int :=
  match r.value? s with
  | some (.number n) => some n
  | _ => none

/-- The text given with a switch, unless it is empty. -/
def filledText? (r : Request) (s : Switch) : Option String := (r.text? s).filter (· != "")

end Request

end Ostinato.Command
