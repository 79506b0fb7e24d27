import Ostinato.Record.Codec

/-!
# Parts

A part is one voice of the arrangement. Muted parts stay silent.
-/

namespace Ostinato

structure Part where
  id : String
  name : String
  muted : Bool
  defaultRegister : Option String
deriving DecidableEq, Repr

namespace Part

def idField : Field String := .single "id" .name
def nameField : Field String := .single "name" .text
def mutedField : Field Bool := .single "muted" .bool
def registerField : Field (Option String) :=
  .cased "default_register" "defaultRegister" (.optional .text)

def read (d : Datum) : Checked Part :=
  Part.mk <$> idField.required d <*> nameField.orDefault "" d <*> mutedField.orDefault false d
    <*> registerField.orDefault none d

def fields (p : Part) : List (String × Datum) :=
  [idField.entry p.id, nameField.entry p.name, mutedField.entry p.muted,
    registerField.entry p.defaultRegister]

def title : String := "Part"

def codec : Codec Part := .record title read fields

end Part

end Ostinato
