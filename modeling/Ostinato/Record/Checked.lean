import Ostinato.Record.Fault

/-!
# Checked values

The outcome of reading a datum: a value, or all the faults that were found. Two outcomes are joined
side by side, so that no fault hides another one.
-/

namespace Ostinato

inductive Checked (α : Type) where
  | ok (value : α)
  | faulty (faults : List Fault)

namespace Checked

variable {α β : Type}

def map (f : α → β) : Checked α → Checked β
  | ok a => ok (f a)
  | faulty e => faulty e

/-- Applies one outcome to another; the faults of the first come first. -/
def apply : Checked (α → β) → Checked α → Checked β
  | ok f, ok a => ok (f a)
  | ok _, faulty e => faulty e
  | faulty e, ok _ => faulty e
  | faulty e, faulty e' => faulty (e ++ e')

instance : Functor Checked where
  map := map

instance : Pure Checked where
  pure := ok

instance : Seq Checked where
  seq f a := f.apply (a ())

@[simp] theorem map_eq (f : α → β) (a : Checked α) : f <$> a = a.map f := rfl
@[simp] theorem seq_eq (f : Checked (α → β)) (a : Checked α) : f <*> a = f.apply a := rfl
@[simp] theorem map_ok (f : α → β) (a : α) : (ok a).map f = ok (f a) := rfl
@[simp] theorem map_faulty (f : α → β) (e : List Fault) : (faulty e : Checked α).map f = faulty e := rfl
@[simp] theorem apply_ok (f : α → β) (a : α) : (ok f).apply (ok a) = ok (f a) := rfl

theorem apply_eq_ok {f : Checked (α → β)} {a : Checked α} {b : β} :
    f.apply a = ok b ↔ ∃ g x, f = ok g ∧ a = ok x ∧ g x = b := by
  cases f <;> cases a <;> simp [apply]

theorem map_eq_ok {f : α → β} {a : Checked α} {b : β} :
    a.map f = ok b ↔ ∃ x, a = ok x ∧ f x = b := by
  cases a <;> simp

/-- A single fault, at the datum itself. -/
def fault (cause : Fault.Cause) (found : Datum) : Checked α := faulty [⟨[], cause, found⟩]

/-- Places the faults of a part at the end of one more step. -/
def under (step : Step) : Checked α → Checked α
  | ok a => ok a
  | faulty e => faulty (e.map fun f => { f with path := step :: f.path })

theorem under_eq_ok {step : Step} {a : Checked α} {x : α} : a.under step = ok x ↔ a = ok x := by
  cases a <;> simp [under]

def bind (a : Checked α) (f : α → Checked β) : Checked β :=
  match a with
  | ok x => f x
  | faulty e => faulty e

/-- All outcomes of a list, with the place of each in its faults. -/
def sequenceFrom (start : Nat) : List (Checked α) → Checked (List α)
  | [] => ok []
  | a :: rest => (a.under (.index start)).map List.cons |>.apply (sequenceFrom (start + 1) rest)

/-- The value, or a rejection under the title of the record type. -/
def orReject (title : String) : Checked α → Except Rejection α
  | ok a => .ok a
  | faulty e => .error ⟨title, e⟩

theorem orReject_eq_ok {title : String} {a : Checked α} {x : α} : a.orReject title = .ok x ↔ a = ok x := by
  cases a <;> simp [orReject]

end Checked

end Ostinato
