import Ostinato.Yaml.Node
import Ostinato.Yaml.Plain

/-!
# Documents as data

The data that a document stands for. Keys of a map are numbers, truth values, texts, dates or nothing;
where a key is given twice the last value counts, at the place of the first.
-/

namespace Ostinato

/-! ### Keys -/

/-- The number that a datum is as a key; truth values are the numbers one and zero. -/
def Datum.keyNumber? : Datum → Option (Int × Rat)
  | .bool b => some (0, if b then 1 else 0)
  | .int n => some (0, (n : Rat))
  | .real x => x.place
  | _ => none

def Datum.isSameKey (a b : Datum) : Bool :=
  match a, b with
  | .null, .null => true
  | .text s, .text t => s == t
  | .date y m d, .date y' m' d' => y == y' && m == m' && d == d'
  | .moment m, .moment m' => m == m'
  | a, b =>
    match a.keyNumber?, b.keyNumber? with
    | some x, some y => x == y
    | _, _ => false

/-- Puts a value under a key, at the place of an equal key or at the end. -/
def Datum.putEntry (entries : List (Datum × Datum)) (e : Datum × Datum) : List (Datum × Datum) :=
  match entries with
  | [] => [e]
  | x :: rest => if x.1.isSameKey e.1 then (x.1, e.2) :: rest else x :: putEntry rest e

namespace Yaml

/-! ### Aliases -/

abbrev Names := List (String × Node)

namespace Node

mutual

/-- Puts named nodes in the place of aliases. A name is given once, before it is used. -/
def resolve (names : Names) : Node → Option (Node × Names)
  | scalar tag text plain => some (scalar tag text plain, names)
  | sequence tag items => (resolveItems names items).map fun (items, names) => (sequence tag items, names)
  | mapping tag es => (resolveEntries names es).map fun (es, names) => (mapping tag es, names)
  | anchored name node =>
    if names.any (·.1 == name) then none
    else (resolve names node).map fun (node, names) => (node, (name, node) :: names)
  | mention name => (names.find? (·.1 == name)).map fun n => (n.2, names)

def resolveItems (names : Names) : List Node → Option (List Node × Names)
  | [] => some ([], names)
  | n :: rest =>
    match resolve names n with
    | some (n, names) => (resolveItems names rest).map fun (rest, names) => (n :: rest, names)
    | none => none

def resolveEntries (names : Names) : List (Node × Node) → Option (List (Node × Node) × Names)
  | [] => some ([], names)
  | (k, v) :: rest =>
    match resolve names k with
    | none => none
    | some (k, names) =>
      match resolve names v with
      | some (v, names) => (resolveEntries names rest).map fun (rest, names) => ((k, v) :: rest, names)
      | none => none

end

/-! ### Values -/

def standardTag (name : String) : String := "tag:yaml.org,2002:" ++ name

/-- Whether a tag asks for a kind of node by its usual name, or for none in particular. -/
def tagFits (name : String) : Option String → Bool
  | none => true
  | some tag => tag == "!" || tag == standardTag name

def isOfKind (tag : String) : Datum → Bool
  | .null => tag == standardTag "null"
  | .bool _ => tag == standardTag "bool"
  | .int _ => tag == standardTag "int"
  | .real _ => tag == standardTag "float"
  | .text _ => tag == standardTag "str"
  | .date .. => tag == standardTag "timestamp"
  | .moment _ => tag == standardTag "timestamp"
  | _ => false

def scalarMeaning (tag : Option String) (text : String) (plain : Bool) : Except Fault Plain.Meaning :=
  match tag with
  | none => if plain then Plain.meaning text else .ok (.datum (.text text))
  | some tag =>
    if tag = "!" then Plain.meaning text
    else if tag = standardTag "str" then .ok (.datum (.text text))
    else if tag = standardTag "null" then .ok (.datum .null)
    else if tag = standardTag "float" then
      match Plain.anyReal? text.toList with
      | some x => .ok (.datum (.real x))
      | none => .error .malformed
    else match Plain.meaning text with
      | .ok (.datum d) => if isOfKind tag d then .ok (.datum d) else .error .malformed
      | .ok _ => .error .malformed
      | .error fault => .error fault

/-- What a merge mark brings in: the entries of a map, or of several maps of which the first wins. -/
def merged : Datum → Except Fault (List (Datum × Datum))
  | .map es => .ok es
  | .list items =>
    items.foldlM (fun (es : List (Datum × Datum)) (d : Datum) => match d with
      | .map more => .ok (more ++ es)
      | _ => .error .malformed) []
  | _ => .error .malformed

mutual

def datum : Node → Except Fault Datum
  | scalar tag text plain => do
    match ← scalarMeaning tag text plain with
    | .datum d => return d
    | _ => throw .malformed
  | sequence tag items =>
    if tagFits "seq" tag then (dataOf items).map .list else .error .malformed
  | mapping tag es =>
    if tagFits "map" tag then (entriesOf es).map fun (merged, own) =>
      .map ((merged ++ own).foldl Datum.putEntry [])
    else .error .malformed
  | anchored _ node => datum node
  | mention _ => .error .malformed

def dataOf : List Node → Except Fault (List Datum)
  | [] => .ok []
  | n :: rest => do
    let d ← datum n
    return d :: (← dataOf rest)

/-- The entries of a map: the ones that are merged in, and its own. -/
def entriesOf : List (Node × Node) → Except Fault (List (Datum × Datum) × List (Datum × Datum))
  | [] => .ok ([], [])
  | (k, v) :: rest => do
    let key ← keyOf k
    let value ← datum v
    let (brought, own) ← entriesOf rest
    match key with
    | none => return ((← merged value) ++ brought, own)
    | some key => return (brought, (key, value) :: own)

/-- The key that a node is, or none for a merge mark. -/
def keyOf : Node → Except Fault (Option Datum)
  | scalar tag text plain => do
    match ← scalarMeaning tag text plain with
    | .datum d => return some d
    | .mergeMark => return none
    | .valueMark => return some (.text text)
  | anchored _ node => keyOf node
  | _ => .error .malformed

end

end Node

/-- The data of a document; an empty one stands for nothing. -/
def ofDocument : Option Node → Except Fault Datum
  | none => .ok .null
  | some node =>
    match node.resolve [] with
    | none => .error .malformed
    | some (node, _) => node.datum

/-- The data of a text. Tokens that were settled before a fault may be refused first. -/
def load (cs : List Char) : Except Fault Datum :=
  if cs.all isAllowed then
    match Scanner.ofText cs with
    | (s, some refusal) =>
      if Node.refuses (s.settledBefore (refusal.seen + 1)) then .error .malformed else .error refusal.fault
    | (s, none) =>
      match Node.ofTokens s.tokens.toList with
      | .error _ => .error .malformed
      | .ok document => ofDocument document
  else .error .malformed

/-- The fault that ends the reading of a text however the text goes on, without a look at its end. -/
def faultWithin? (cs : List Char) : Option Fault :=
  let (s, refusal) := Scanner.ofText cs
  if !cs.all isAllowed || Node.refuses (s.settledBefore cs.length) then some .malformed
  else (refusal.filter (·.seen < cs.length)).map Refusal.fault

end Yaml

end Ostinato
