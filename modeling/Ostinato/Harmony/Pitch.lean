import Ostinato.Harmony.Numeral

/-!
# Pitch classes

A pitch is given by its semitones above the key root, octaves apart: the numbers 0 to 11. The major
scale divides them into scale tones and the tones between.
-/

namespace Ostinato

/-- Semitones above the key root, without octaves. -/
abbrev PitchClass := Fin 12

namespace PitchClass

def keyRoot : PitchClass := 0

def semitone : PitchClass := 1

/-- The pitch class of any number of semitones, above or below the key root. -/
def ofInt (semitones : Int) : PitchClass :=
  ⟨(semitones % 12).toNat, by have := Int.emod_lt_of_pos semitones (b := 12) (by decide); omega⟩

/-- The shorter way around between two numbers of semitones. -/
def circularDistance (a b : Int) : Nat :=
  let apart := (a - b).natAbs % 12
  min apart (12 - apart)

def distance (p q : PitchClass) : Nat := circularDistance p.val q.val

end PitchClass

/-- The pitch class of a degree. -/
def Numeral.pitch (n : Numeral) : PitchClass := ⟨n.semitones, n.semitones_lt⟩

namespace PitchClass

/-- The degree nearest to a pitch; of two degrees at the same distance the lower one. -/
def nearest (p : PitchClass) : Numeral :=
  Numeral.all.foldl (fun best n => if distance p n.pitch < distance p best.pitch then n else best) .one

def snap (p : PitchClass) : PitchClass := p.nearest.pitch

/-- Whether a pitch belongs to the major scale. -/
def IsScaleTone (p : PitchClass) : Prop := ∃ n : Numeral, n.pitch = p

theorem isScaleTone_snap (p : PitchClass) : (snap p).IsScaleTone := ⟨p.nearest, rfl⟩

end PitchClass

end Ostinato
