import Ostinato.Record.Checked
import Ostinato.Record.WrittenNumber

/-!
# Codecs

A codec reads a datum as a value, with all faults, and writes a value as a datum. Reading is lenient
where the written form is clear, and what a codec writes it reads back as the same value.
-/

namespace Ostinato

structure Codec (α : Type) where
  decode : Datum → Checked α
  encode : α → Datum

namespace Codec

variable {α β : Type}

/-! ### Texts -/

def text : Codec String where
  decode
    | .text s => .ok s
    | d => .fault .notText d
  encode := .text

def name : Codec String where
  decode
    | .text s => if s = "" then .fault .emptyText (.text s) else .ok s
    | d => .fault .notText d
  encode := .text

/-! ### Numbers and truth values -/

/-- Binary64 numbers are taken for integers strictly between this bound and its negative. -/
def wholeRealBound : Nat := Nat.pow 2 63

/-- Integers, whole numbers of other forms, truth values as 1 and 0, and integers in quotes. -/
def int : Codec Int where
  decode
    | .int n => .ok n
    | .bool b => .ok (if b then 1 else 0)
    | .real x =>
      match x.toRat?, x.toInt? with
      | none, _ => .fault .notFinite (.real x)
      | some _, some n =>
        if n.natAbs < wholeRealBound then .ok n else .fault .integerTooLong (.real x)
      | some _, none => .fault .fractional (.real x)
    | .text s =>
      if WrittenNumber.startsTooLong s.toList then .fault .integerTooLong (.text s)
      else match WrittenNumber.int? s with
        | some n => .ok n
        | none => .fault .unreadableInteger (.text s)
    | d => .fault .notInteger d
  encode := .int

/-- An integer of at least `least`. -/
def intFrom (least : Int) : Codec { n : Int // least ≤ n } where
  decode d := (int.decode d).bind fun n =>
    if h : least ≤ n then .ok ⟨n, h⟩ else .fault (.tooLow least) d
  encode n := .int n.val

/-- An integer above `bound`. -/
def intAbove (bound : Int) : Codec { n : Int // bound < n } where
  decode d := (int.decode d).bind fun n =>
    if h : bound < n then .ok ⟨n, h⟩ else .fault (.notAbove bound) d
  encode n := .int n.val

def intBetween (least greatest : Int) : Codec { n : Int // least ≤ n ∧ n ≤ greatest } where
  decode d := (int.decode d).bind fun n =>
    if low : least ≤ n then
      if high : n ≤ greatest then .ok ⟨n, low, high⟩ else .fault (.tooHigh greatest) d
    else .fault (.tooLow least) d
  encode n := .int n.val

/-- A natural number of at least `least`. -/
def natFrom (least : Nat) : Codec { n : Nat // least ≤ n } where
  decode d := (int.decode d).bind fun n =>
    if h : least ≤ n.toNat ∧ 0 ≤ n then .ok ⟨n.toNat, h.1⟩ else .fault (.tooLow least) d
  encode n := .int n.val

/-- A codec that forgets the bounds of the values that it reads. -/
def widen {p : α → Prop} (c : Codec { a : α // p a }) (encode : α → Datum) : Codec α where
  decode d := (c.decode d).map (·.val)
  encode := encode

/-- A natural number of at least `least`, without the bound. -/
def natAtLeast (least : Nat) : Codec Nat := (natFrom least).widen fun n => .int n

def nat : Codec Nat := natAtLeast 0

/-- An integer of at least `least`, without the bound. -/
def intAtLeast (least : Int) : Codec Int := (intFrom least).widen .int

/-- An integer between two bounds, without them. -/
def intWithin (least greatest : Int) : Codec Int := (intBetween least greatest).widen .int

/-- A binary64 number: whole numbers in range, truth values and numbers in quotes included. -/
def real : Codec Binary64 where
  decode
    | .real x => .ok x
    | .int n =>
      match Binary64.ofInt? n with
      | .ok x => .ok x
      | .error _ => .fault .notNumber (.int n)
    | .bool b => .ok (.finite (if b then 1 else 0))
    | .text s =>
      match WrittenNumber.real? s with
      | some x => .ok x
      | none => .fault .unreadableNumber (.text s)
    | d => .fault .notNumber d
  encode := .real

/-- A number of at least `least`. -/
def realFrom (least : Int) : Codec { x : Binary64 // x.atLeastInt least = true } where
  decode d := (real.decode d).bind fun x =>
    if h : x.atLeastInt least = true then .ok ⟨x, h⟩ else .fault (.tooLow least) d
  encode x := .real x.val

/-- A number above `bound`. -/
def realAbove (bound : Int) : Codec { x : Binary64 // x.aboveInt bound = true } where
  decode d := (real.decode d).bind fun x =>
    if h : x.aboveInt bound = true then .ok ⟨x, h⟩ else .fault (.notAbove bound) d
  encode x := .real x.val

/-- A number of at least `least`, without the bound. -/
def realAtLeast (least : Int) : Codec Binary64 := (realFrom least).widen .real

/-- A number above `bound`, without the bound. -/
def realMoreThan (bound : Int) : Codec Binary64 := (realAbove bound).widen .real

/-- Truth values, the numbers 1 and 0, and the usual words. -/
def bool : Codec Bool where
  decode
    | .bool b => .ok b
    | .int n => if n = 1 then .ok true else if n = 0 then .ok false else .fault .unreadableBoolean (.int n)
    | .real x =>
      if x.same (.finite 1) then .ok true
      else if x.same (.finite 0) then .ok false
      else .fault .notBoolean (.real x)
    | .text s =>
      match WrittenNumber.bool? s with
      | some b => .ok b
      | none => .fault .unreadableBoolean (.text s)
    | d => .fault .notBoolean d
  encode := .bool

/-! ### Combinations -/

/-- A value, or nothing. -/
def optional (c : Codec α) : Codec (Option α) where
  decode
    | .null => .ok none
    | d => (c.decode d).map some
  encode
    | none => .null
    | some a => c.encode a

/-- A list of values; `cause` is the fault of a datum that is no list. -/
def sequence (cause : Fault.Cause) (c : Codec α) : Codec (List α) where
  decode
    | .list items => Checked.sequenceFrom 0 (items.map c.decode)
    | d => .fault cause d
  encode items := .list (items.map c.encode)

def tuple (c : Codec α) : Codec (List α) := sequence .notTuple c

def listOf (c : Codec α) : Codec (List α) := sequence .notList c

def tupleOfSome (c : Codec α) : Codec { items : List α // items ≠ [] } where
  decode d := ((tuple c).decode d).bind fun items =>
    if h : items ≠ [] then .ok ⟨items, h⟩ else .fault .emptyTuple d
  encode items := .list (items.val.map c.encode)

/-- The step to the value of a key; truth values count as 1 and 0. -/
def keyStep : Datum → Step
  | .text s => .key s
  | .int n => .index n
  | .bool b => .index (if b then 1 else 0)
  | d => .key d.written

/-- Reads the entries of a map in their order; a key that is no text is a fault of its own. -/
def entries (c : Codec α) : List (Datum × Datum) → Checked (List (String × α))
  | [] => .ok []
  | (k, v) :: rest =>
    let key := ((text.decode k).under (.key "[key]")).under (keyStep k)
    let value := (c.decode v).under (keyStep k)
    (((key.map Prod.mk).apply value).map List.cons).apply (entries c rest)

def mapOf (c : Codec α) : Codec (List (String × α)) where
  decode
    | .map es => entries c es
    | d => .fault .notMap d
  encode es := .object (es.map fun e => (e.1, c.encode e.2))

/-- One of finitely many values, each with its word; `cause` names the words in a fault. -/
def word (cause : List String → Fault.Cause) (all : List α) (spell : α → String) : Codec α where
  decode d :=
    match all.find? fun a => d.isText (spell a) with
    | some a => .ok a
    | none => .fault (cause (all.map spell)) d
  encode a := .text (spell a)

/-- Reads a datum after bringing it into another form. -/
def after (normalise : Datum → Datum) (c : Codec α) : Codec α where
  decode d := c.decode (normalise d)
  encode := c.encode

end Codec

/-! ### Fields -/

/-- A field of a record: the keys that it is read from, the first one present winning, and the key
that it is written to. -/
structure Field (α : Type) where
  names : List String
  written : String
  codec : Codec α

namespace Field

variable {α : Type}

/-- A field that is written under its camel-case name and read under that name or another one. -/
def cased (plain camel : String) (codec : Codec α) : Field α := ⟨[camel, plain], camel, codec⟩

def single (name : String) (codec : Codec α) : Field α := ⟨[name], name, codec⟩

/-- The first name of the field that a map has, and the datum there. -/
def find? (f : Field α) (record : Datum) : Option (String × Datum) :=
  f.names.findSome? fun name => (record.get? name).map (name, ·)

def required (f : Field α) (record : Datum) : Checked α :=
  match f.find? record with
  | some (name, d) => (f.codec.decode d).under (.key name)
  | none => .faulty [⟨[.key f.written], .missing, record⟩]

def orDefault (f : Field α) (default : α) (record : Datum) : Checked α :=
  match f.find? record with
  | some (name, d) => (f.codec.decode d).under (.key name)
  | none => .ok default

def entry (f : Field α) (a : α) : String × Datum := (f.written, f.codec.encode a)

end Field

/-- A codec for records of a title: anything but a map is a fault. -/
def Codec.record {α : Type} (title : String) (read : Datum → Checked α)
    (fields : α → List (String × Datum)) : Codec α where
  decode
    | .map es => read (.map es)
    | d => .fault (.notRecord title) d
  encode a := .object (fields a)

end Ostinato
