import Mathlib.Data.Bool.AllAny
import Mathlib.Data.List.Induction
import Mathlib.Data.Nat.Digits.Defs
import Ostinato.Proofs.Harmony.DegreeLabel

/-!
# The grammar of degree labels

A text is a degree label if it is spelled as one: perhaps an accidental, a numeral in upper case, perhaps a
signed row of digits of any script, and perhaps a line feed. Its pitch is the sum of what the three parts
say. The label that is written for a pitch is read as that pitch.
-/

namespace Ostinato

/-! ### Written numbers -/

/-- The value of a digit, and zero for any other character. -/
def Text.digit (c : Char) : Nat := (digitValue? c).getD 0

theorem Text.digitsValue_eq_ofDigits (cs : List Char) :
    digitsValue cs = Nat.ofDigits 10 (cs.map digit).reverse := by
  induction cs using List.reverseRecOn with
  | nil => rfl
  | append_singleton cs c ih =>
    rw [List.map_append, List.reverse_append, List.map_singleton, List.reverse_singleton,
      List.singleton_append, Nat.ofDigits_cons, ← ih, digitsValue, List.foldl_append, ← digitsValue, digit]
    simp only [List.foldl_cons, List.foldl_nil]
    omega

namespace WrittenOffset

/-- The number that an offset is written for, its last digit counting as itself, the one before it ten
times, and so on. -/
def value (w : WrittenOffset) : Int :=
  (if w.negative then -1 else 1) * (Nat.ofDigits 10 (w.digits.map Text.digit).reverse : Nat)

theorem semitones_eq (w : WrittenOffset) : w.semitones =
    if NumberFault.digitLimit < w.digits.length then .error (.tooManyDigits w.digits.length)
    else .ok w.value := by
  rw [semitones, value, Text.digitsValue_eq_ofDigits]
  cases w.negative <;> simp

end WrittenOffset

/-! ### Reading what is spelled -/

theorem Accidental.take_letters (a : Accidental) (n : Numeral) (rest : List Char) :
    take (a.letters ++ (n.letters ++ rest)) = (a, n.letters ++ rest) := by
  cases a <;> cases n <;> rfl

theorem Numeral.leading?_letters (n : Numeral) {rest : List Char}
    (closed : ∀ c ∈ rest.head?, c ≠ 'I' ∧ c ≠ 'V') : leading? (· == ·) (n.letters ++ rest) = some n := by
  cases rest with
  | nil => cases n <;> rfl
  | cons c rest =>
    obtain ⟨notOne, notFive⟩ := closed c rfl
    cases n <;> simp [leading?, longestFirst, letters, begins, notOne.symm, notFive.symm]

namespace DegreeLabel

theorem readOffset?_written {o : Option WrittenOffset} {tail : List Char}
    (wellFormed : ∀ w ∈ o, w.WellFormed) (closed : LabelEnd tail) :
    readOffset? ((o.map WrittenOffset.letters).getD [] ++ tail) = some o := by
  have stop : tail.takeWhile Text.isDigit = [] := by
    rcases closed with rfl | rfl <;> decide
  have rest : tail.dropWhile Text.isDigit = tail := by
    rcases closed with rfl | rfl <;> decide
  cases o with
  | none => rcases closed with rfl | rfl <;> rfl
  | some w =>
    obtain ⟨some_digit, digits⟩ := wellFormed w rfl
    have taken : (w.digits ++ tail).takeWhile Text.isDigit = w.digits := by
      rw [List.takeWhile_append_of_pos digits, stop, List.append_nil]
    have dropped : (w.digits ++ tail).dropWhile Text.isDigit = tail := by
      rw [List.dropWhile_append_of_pos digits, rest]
    obtain ⟨negative, digits⟩ := w
    cases negative with
    | true =>
      simpa [WrittenOffset.letters, readOffset?, taken, dropped, some_digit] using closed.resolve_left
    | false =>
      simpa [WrittenOffset.letters, readOffset?, taken, dropped, some_digit] using closed.resolve_left

/-- The spellings of a label: its letters, and at most a line feed after them. -/
def SpelledBy (d : DegreeLabel) (s : String) : Prop :=
  (∀ w ∈ d.offset, w.WellFormed) ∧ ∃ tail, LabelEnd tail ∧ s.toList = d.letters ++ tail

theorem read?_eq_some_iff {s : String} {d : DegreeLabel} : read? s = some d ↔ d.SpelledBy s := by
  constructor
  · intro h
    obtain ⟨tail, closed, spelled, wellFormed⟩ := letters_of_read? h
    exact ⟨wellFormed, tail, closed, spelled⟩
  · rintro ⟨wellFormed, tail, closed, spelled⟩
    have parts : s.toList = d.accidental.letters ++
        (d.numeral.letters ++ ((d.offset.map WrittenOffset.letters).getD [] ++ tail)) := by
      rw [spelled, letters, List.append_assoc, List.append_assoc]
    have sign : ∀ c ∈ ((d.offset.map WrittenOffset.letters).getD [] ++ tail).head?, c ≠ 'I' ∧ c ≠ 'V' := by
      intro c hc
      cases ho : d.offset with
      | none =>
        rw [ho] at hc
        rcases closed with rfl | rfl
        · cases hc
        · obtain rfl := Option.some.inj hc
          decide
      | some w =>
        rw [ho] at hc
        obtain rfl := Option.some.inj hc
        split_ifs <;> decide
    rw [read?, parts, Accidental.take_letters]
    simp only [Numeral.leading?_letters d.numeral sign, List.drop_left, readOffset?_written wellFormed closed,
      Option.map_some]

/-- A text is understood as a label exactly if it is spelled as one. Its pitch is then the pitch of its
degree, moved by its accidental and its offset, unless the offset has too many digits; any other text is the
key root. Written as the label of its pitch, a text keeps its pitch. -/
theorem decoded_by_grammar :
    (∀ s, isDegreeLabel s = true ↔ ∃ d : DegreeLabel, d.SpelledBy s) ∧
    (∀ (s : String) (d : DegreeLabel), d.SpelledBy s → degreePitch s =
      match d.offset with
      | none => .ok (.ofInt (d.numeral.semitones + d.accidental.shift))
      | some w =>
        if 4300 < w.digits.length then .error (.tooManyDigits w.digits.length)
        else .ok (.ofInt (d.numeral.semitones + d.accidental.shift + w.value))) ∧
    (∀ s, (∀ d : DegreeLabel, ¬d.SpelledBy s) → degreePitch s = .ok PitchClass.keyRoot) ∧
    (∀ n : Int, ((PitchClass.ofInt n).val : Int) = n % 12 ∧
      degreePitch (PitchClass.ofInt n).degree = .ok (PitchClass.ofInt n)) ∧
    ∀ s p, degreePitch s = .ok p → degreePitch p.degree = .ok p := by
  have labels (s : String) : isDegreeLabel s = true ↔ ∃ d : DegreeLabel, d.SpelledBy s := by
    rw [isDegreeLabel, Option.isSome_iff_exists]
    exact exists_congr fun d => read?_eq_some_iff
  refine ⟨labels, ?_, ?_, ?_, fun s p _ => degreePitch_degree p⟩
  · intro s d spelled
    have read := read?_eq_some_iff.mpr spelled
    simp only [degreePitch, read, pitch]
    cases d.offset with
    | none => rfl
    | some w =>
      simp only [WrittenOffset.semitones_eq]
      by_cases long : NumberFault.digitLimit < w.digits.length
      · rw [if_pos long]
        exact (if_pos long).symm
      · rw [if_neg long]
        exact (if_neg long).symm
  · intro s other
    refine degreePitch_of_not_label (Bool.eq_false_iff.mpr fun label => ?_)
    obtain ⟨d, spelled⟩ := (labels s).mp label
    exact other d spelled
  · intro n
    exact ⟨Int.toNat_of_nonneg (Int.emod_nonneg n (by decide)), degreePitch_degree _⟩

/-- A flat seventh with an offset in digits of another script, before the end of a line. -/
theorem raised_flat_seventh_decoded :
    SpelledBy ⟨.flat, .seven, some ⟨false, ['١', '٣']⟩⟩ "bVII+١٣\n" ∧ degreePitch "bVII+١٣\n" = .ok 11 := by
  have spelled : SpelledBy ⟨.flat, .seven, some ⟨false, ['١', '٣']⟩⟩ "bVII+١٣\n" := by
    refine ⟨?_, ['\n'], .inr rfl, by decide⟩
    intro w hw
    obtain rfl := Option.some.inj hw
    exact ⟨by decide, List.all_iff_forall_prop.mp (by decide)⟩
  exact ⟨spelled, decoded_by_grammar.2.1 _ _ spelled⟩

end DegreeLabel

end Ostinato
