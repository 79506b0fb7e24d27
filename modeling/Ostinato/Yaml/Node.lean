import Ostinato.Yaml.Scan

/-!
# Nodes

The tree that a row of tokens describes. Anchors name nodes, and aliases stand for named nodes.

A row that describes none is refused at a token. Tokens are asked for one by one, so a row that only ends too
soon may still go on.
-/

namespace Ostinato.Yaml

inductive Node where
  | scalar (tag : Option String) (text : String) (plain : Bool)
  | sequence (tag : Option String) (items : List Node)
  | mapping (tag : Option String) (entries : List (Node × Node))
  | anchored (name : String) (node : Node)
  | mention (name : String)

/-- What is made of tokens, or else the tokens from the one on that fits nowhere. None are left where the row
ended too soon. -/
abbrev Parsed := Except (List Token)

namespace Node

def empty : Node := scalar none "" true

/-! ### Properties -/

structure Properties where
  anchor : Option String
  tag : Option String

/-- The full tag of a handle and a suffix; only the two usual handles are known. -/
def fullTag? (handle suffix : String) : Option String :=
  if handle = "" then some suffix
  else if handle = "!" then some ("!" ++ suffix)
  else if handle = "!!" then some ("tag:yaml.org,2002:" ++ suffix)
  else none

/-- An anchor and a tag in front of a node, in either order. An unknown handle is refused where the
properties end. -/
def properties : List Token → Parsed (Properties × List Token)
  | .anchor name :: .tag handle suffix :: rest =>
    match fullTag? handle suffix with
    | some tag => .ok (⟨some name, some tag⟩, rest)
    | none => .error (.tag handle suffix :: rest)
  | .anchor name :: rest => .ok (⟨some name, none⟩, rest)
  | .tag handle suffix :: .anchor name :: rest =>
    match fullTag? handle suffix with
    | some tag => .ok (⟨some name, some tag⟩, rest)
    | none => .error (.anchor name :: rest)
  | .tag handle suffix :: rest =>
    match fullTag? handle suffix with
    | some tag => .ok (⟨none, some tag⟩, rest)
    | none => .error rest
  | rest => .ok (⟨none, none⟩, rest)

def named (p : Properties) (n : Node) : Node :=
  match p.anchor with
  | some name => anchored name n
  | none => n

def nextIn (ts : List Token) (among : List Token) : Bool :=
  match ts with
  | t :: _ => among.contains t
  | [] => true

/-- The tokens after the end of a block. -/
def closed : List Token → Parsed (List Token)
  | .blockEnd :: rest => .ok rest
  | rest => .error rest

/-- The tokens after the comma in front of an item; the first item has none. -/
def separated (first : Bool) (ts : List Token) : Parsed (List Token) :=
  if first then .ok ts
  else match ts with
    | .flowEntry :: rest => .ok rest
    | rest => .error rest

/-! ### Grammar -/

mutual

/-- A node: an alias, or a scalar or collection after its properties. Block collections are allowed
where `block` says so, and a row of entries without a block of its own where `indentless` does. -/
def parse (fuel : Nat) (block indentless : Bool) (ts : List Token) : Parsed (Node × List Token) :=
  match fuel with
  | 0 => .error []
  | fuel + 1 =>
    match ts with
    | .mention name :: rest => .ok (mention name, rest)
    | _ => do
      let (p, rest) ← properties ts
      match rest with
      | .blockEntry :: _ =>
        if indentless then
          let (items, rest) ← entries fuel rest
          return (named p (sequence p.tag items), rest)
        else bare p rest
      | .scalar text plain :: rest =>
        return (named p (scalar p.tag text ((plain && p.tag.isNone) || p.tag == some "!")), rest)
      | .flowSequenceStart :: rest =>
        let (items, rest) ← flowItems fuel true rest
        return (named p (sequence p.tag items), rest)
      | .flowMappingStart :: rest =>
        let (es, rest) ← flowPairs fuel true rest
        return (named p (mapping p.tag es), rest)
      | .blockSequenceStart :: rest =>
        if block then
          let (items, rest) ← entries fuel rest
          return (named p (sequence p.tag items), ← closed rest)
        else bare p (.blockSequenceStart :: rest)
      | .blockMappingStart :: rest =>
        if block then
          let (es, rest) ← pairs fuel rest
          return (named p (mapping p.tag es), ← closed rest)
        else bare p (.blockMappingStart :: rest)
      | rest => bare p rest

/-- A node that is nothing but its properties. -/
def bare (p : Properties) (rest : List Token) : Parsed (Node × List Token) :=
  if p.anchor.isSome || p.tag.isSome then .ok (named p (scalar p.tag "" p.tag.isNone), rest)
  else .error rest

def entries (fuel : Nat) (ts : List Token) : Parsed (List Node × List Token) :=
  match fuel with
  | 0 => .error []
  | fuel + 1 =>
    match ts with
    | .blockEntry :: rest => do
      let (item, rest) ← if nextIn rest [.blockEntry, .key, .value, .blockEnd] then .ok (empty, rest)
        else parse fuel true false rest
      let (items, rest) ← entries fuel rest
      return (item :: items, rest)
    | rest => .ok ([], rest)

def pairs (fuel : Nat) (ts : List Token) : Parsed (List (Node × Node) × List Token) :=
  match fuel with
  | 0 => .error []
  | fuel + 1 =>
    match ts with
    | .key :: rest => do
      let (key, rest) ← if nextIn rest [.key, .value, .blockEnd] then .ok (empty, rest)
        else parse fuel true true rest
      let (value, rest) ← match rest with
        | .value :: rest =>
          if nextIn rest [.key, .value, .blockEnd] then .ok (empty, rest) else parse fuel true true rest
        | rest => .ok (empty, rest)
      let (es, rest) ← pairs fuel rest
      return ((key, value) :: es, rest)
    | rest => .ok ([], rest)

/-- The rest of a pair inside a flow collection: a value after a mark, or nothing. -/
def flowValue (fuel : Nat) (closing : Token) (ts : List Token) : Parsed (Node × List Token) :=
  match fuel with
  | 0 => .error []
  | fuel + 1 =>
    match ts with
    | .value :: rest =>
      if nextIn rest [.flowEntry, closing] then .ok (empty, rest) else parse fuel false false rest
    | rest => .ok (empty, rest)

/-- The items of a flow sequence; a pair among them is a mapping of its own. -/
def flowItems (fuel : Nat) (first : Bool) (ts : List Token) : Parsed (List Node × List Token) :=
  match fuel with
  | 0 => .error []
  | fuel + 1 =>
    match ts with
    | .flowSequenceEnd :: rest => .ok ([], rest)
    | _ => do
      match ← separated first ts with
      | .flowSequenceEnd :: rest => return ([], rest)
      | .key :: rest =>
        let (key, rest) ← if nextIn rest [.value, .flowEntry, .flowSequenceEnd] then .ok (empty, rest)
          else parse fuel false false rest
        let (value, rest) ← flowValue fuel .flowSequenceEnd rest
        let (items, rest) ← flowItems fuel false rest
        return (mapping none [(key, value)] :: items, rest)
      | rest =>
        let (item, rest) ← parse fuel false false rest
        let (items, rest) ← flowItems fuel false rest
        return (item :: items, rest)

/-- The pairs of a flow mapping; a node without a mark is a key without a value. -/
def flowPairs (fuel : Nat) (first : Bool) (ts : List Token) : Parsed (List (Node × Node) × List Token) :=
  match fuel with
  | 0 => .error []
  | fuel + 1 =>
    match ts with
    | .flowMappingEnd :: rest => .ok ([], rest)
    | _ => do
      match ← separated first ts with
      | .flowMappingEnd :: rest => return ([], rest)
      | .key :: rest =>
        let (key, rest) ← if nextIn rest [.value, .flowEntry, .flowMappingEnd] then .ok (empty, rest)
          else parse fuel false false rest
        let (value, rest) ← flowValue fuel .flowMappingEnd rest
        let (es, rest) ← flowPairs fuel false rest
        return ((key, value) :: es, rest)
      | rest =>
        let (key, rest) ← parse fuel false false rest
        let (es, rest) ← flowPairs fuel false rest
        return ((key, empty) :: es, rest)

end

/-! ### Documents -/

/-- What may follow the only document. -/
def endOfStream (ts : List Token) : Parsed Unit :=
  match ts.dropWhile (· == .documentEnd) with
  | [] => .ok ()
  | rest => .error (rest.dropWhile (· == .directive))

def content (ts : List Token) : Parsed (Node × List Token) :=
  match ts with
  | [] => .ok (empty, [])
  | .directive :: _ => .ok (empty, ts)
  | .documentStart :: _ => .ok (empty, ts)
  | .documentEnd :: _ => .ok (empty, ts)
  | _ => parse (2 * ts.length + 2) true false ts

/-- The only document of a row of tokens, if there is one; a second document is refused. -/
def ofTokens (ts : List Token) : Parsed (Option Node) :=
  match ts with
  | [] => .ok none
  | _ => do
    let (node, rest) ← match ts.dropWhile (· == .directive) with
      | .documentStart :: rest => content rest
      | rest => if rest.length = ts.length then parse (2 * ts.length + 2) true false rest else .error rest
    endOfStream rest
    return some node

/-! ### Rows that may go on -/

/-- Whether a name is used before it is given to a node, or given twice. A node is complete only with the
token after its properties. -/
def misnames (names : List String) : List Token → Bool
  | [] => false
  | .mention name :: rest => !names.contains name || misnames names rest
  | .anchor name :: rest =>
    let complete := match rest with
      | .tag .. :: rest => !rest.isEmpty
      | rest => !rest.isEmpty
    (names.contains name && complete) || misnames (name :: names) rest
  | _ :: rest => misnames names rest

/-- Whether a row of tokens is refused however it goes on. -/
def refuses (ts : List Token) : Bool :=
  misnames [] ts || match ofTokens ts with
    | .error rest => !rest.isEmpty
    | .ok _ => false

end Node

end Ostinato.Yaml
