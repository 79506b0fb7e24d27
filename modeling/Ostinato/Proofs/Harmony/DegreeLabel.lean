import Mathlib.Data.List.TakeWhile
import Ostinato.Harmony.ChordSymbol
import Ostinato.Harmony.Degree

/-!
# The spelling of degree labels

A text is read as a degree label only if it is spelled as one, but for a line feed at its end. A label
without an offset has a pitch.
-/

namespace Ostinato

/-! ### Numerals and offsets in front of a text -/

theorem Numeral.eq_append_of_begins {letters cs : List Char}
    (h : begins (· == ·) letters cs = true) : cs = letters ++ cs.drop letters.length := by
  induction letters generalizing cs with
  | nil => rfl
  | cons letter letters ih =>
    cases cs with
    | nil => cases h
    | cons c cs =>
      simp only [begins, Bool.and_eq_true, beq_iff_eq] at h
      obtain ⟨rfl, h⟩ := h
      rw [List.length_cons, List.drop_succ_cons, List.cons_append, ← ih h]

theorem Numeral.begins_append {same : Char → Char → Bool} (letters rest : List Char)
    (refl : ∀ c ∈ letters, same c c = true) : begins same letters (letters ++ rest) = true := by
  induction letters with
  | nil => rfl
  | cons letter letters ih =>
    obtain ⟨first, others⟩ := List.forall_mem_cons.mp refl
    simp only [List.cons_append, begins, first, ih others, Bool.and_self]

theorem Numeral.eq_of_mem_letters {n : Numeral} {letter : Char} (h : letter ∈ n.letters) :
    letter = 'I' ∨ letter = 'V' := by
  cases n <;> grind [letters]

/-- A signed offset as it can be written: with digits, and with nothing else. -/
def WrittenOffset.WellFormed (o : WrittenOffset) : Prop :=
  o.digits ≠ [] ∧ ∀ c ∈ o.digits, Text.isDigit c = true

/-- The end of a label: nothing, or a line feed. -/
def LabelEnd (tail : List Char) : Prop := tail = [] ∨ tail = ['\n']

namespace DegreeLabel

theorem takeWhile_of_closed {cs : List Char}
    (h : (!(cs.takeWhile Text.isDigit).isEmpty &&
      (cs.dropWhile Text.isDigit == [] || cs.dropWhile Text.isDigit == ['\n'])) = true) :
    cs.takeWhile Text.isDigit ≠ [] ∧ LabelEnd (cs.dropWhile Text.isDigit) := by
  simpa [LabelEnd] using h

theorem readOffset?_eq_some {cs : List Char} {o : Option WrittenOffset} (h : readOffset? cs = some o) :
    ∃ tail, LabelEnd tail ∧ cs = (o.map WrittenOffset.letters).getD [] ++ tail ∧
      ∀ w ∈ o, w.WellFormed := by
  have digits (cs : List Char) : ∀ c ∈ cs.takeWhile Text.isDigit, Text.isDigit c = true :=
    fun c hc => List.mem_takeWhile_imp hc
  unfold readOffset? at h
  dsimp only at h
  split at h
  · rename_i cs
    split_ifs at h with closed
    obtain ⟨some_digit, rest⟩ := takeWhile_of_closed closed
    obtain rfl := Option.some.inj h
    refine ⟨cs.dropWhile Text.isDigit, rest, ?_, ?_⟩
    · simp [WrittenOffset.letters, List.takeWhile_append_dropWhile]
    · intro w hw
      obtain rfl := Option.some.inj hw
      exact ⟨some_digit, digits cs⟩
  · rename_i cs
    split_ifs at h with closed
    obtain ⟨some_digit, rest⟩ := takeWhile_of_closed closed
    obtain rfl := Option.some.inj h
    refine ⟨cs.dropWhile Text.isDigit, rest, ?_, ?_⟩
    · simp [WrittenOffset.letters, List.takeWhile_append_dropWhile]
    · intro w hw
      obtain rfl := Option.some.inj hw
      exact ⟨some_digit, digits cs⟩
  · split_ifs at h with closed
    obtain rfl := Option.some.inj h
    refine ⟨cs, by simpa [LabelEnd] using closed, rfl, ?_⟩
    intro w hw
    cases hw

/-- What is read as a label is spelled as the label, with at most a line feed after it. -/
theorem letters_of_read? {s : String} {d : DegreeLabel} (h : read? s = some d) :
    ∃ tail, LabelEnd tail ∧ s.toList = d.letters ++ tail ∧ ∀ w ∈ d.offset, w.WellFormed := by
  have whole := Accidental.letters_take s.toList
  unfold read? at h
  generalize Accidental.take s.toList = taken at h whole
  obtain ⟨accidental, body⟩ := taken
  simp only at h whole
  cases hn : Numeral.leading? (· == ·) body with
  | none =>
    rw [hn] at h
    cases h
  | some numeral =>
    rw [hn] at h
    obtain ⟨o, ho, rfl⟩ := Option.map_eq_some_iff.mp h
    obtain ⟨tail, closed, rest, wellFormed⟩ := readOffset?_eq_some ho
    have front := Numeral.eq_append_of_begins (Numeral.begins_of_leading? hn)
    refine ⟨tail, closed, ?_, wellFormed⟩
    rw [← whole, front, rest]
    simp [letters]

end DegreeLabel

/-! ### Pitches of labels -/

theorem isDegreeLabel_degree (p : PitchClass) : isDegreeLabel p.degree = true := by
  revert p
  decide +kernel

theorem degreePitch_degree (p : PitchClass) : degreePitch p.degree = .ok p := by
  revert p
  decide +kernel

theorem degreePitch_of_not_label {s : String} (h : isDegreeLabel s = false) :
    degreePitch s = .ok PitchClass.keyRoot := by
  unfold isDegreeLabel at h
  cases hs : DegreeLabel.read? s with
  | none => simp [degreePitch, hs]
  | some d => simp [hs] at h

/-- Only a label with an offset can fail to have a pitch. -/
theorem exists_degreePitch_of_unsigned {s : String} (h : ∀ c ∈ s.toList, c ≠ '+' ∧ c ≠ '-') :
    ∃ p, degreePitch s = .ok p := by
  cases hs : DegreeLabel.read? s with
  | none => exact ⟨PitchClass.keyRoot, by simp [degreePitch, hs]⟩
  | some d =>
    obtain ⟨tail, -, spelled, -⟩ := DegreeLabel.letters_of_read? hs
    cases ho : d.offset with
    | none => exact ⟨_, by simp only [degreePitch, hs, DegreeLabel.pitch, ho]; rfl⟩
    | some w =>
      have sign : (if w.negative then '-' else '+') ∈ s.toList := by
        rw [spelled, DegreeLabel.letters, ho]
        simp [WrittenOffset.letters]
      have unsigned := h _ sign
      split_ifs at unsigned
      · exact absurd rfl unsigned.2
      · exact absurd rfl unsigned.1

/-! ### The ends of labels -/

namespace Text

theorem strip_append {drop : Char → Bool} {cs tail : List Char} {first last : Char}
    (hfirst : cs.head? = some first) (hlast : cs.getLast? = some last) (kept : drop first = false)
    (kept' : drop last = false) (dropped : ∀ c ∈ tail, drop c = true) : strip drop (cs ++ tail) = cs := by
  obtain ⟨rest, rfl⟩ : ∃ rest, cs = first :: rest := by
    cases cs with
    | nil => cases hfirst
    | cons c rest =>
      obtain rfl : c = first := Option.some.inj hfirst
      exact ⟨rest, rfl⟩
  obtain ⟨front, hfront⟩ := List.getLast?_eq_some_iff.mp hlast
  have start : (first :: rest ++ tail).dropWhile drop = first :: rest ++ tail := by
    simp [kept]
  have stop : (last :: front.reverse).dropWhile drop = last :: front.reverse := by
    simp [kept']
  rw [strip, start, hfront, List.reverse_append, List.reverse_append]
  rw [List.dropWhile_append_of_pos fun c hc => dropped c (List.mem_reverse.mp hc)]
  simp [kept']

theorem strip_eq_self {drop : Char → Bool} {cs : List Char} (first : ∀ c ∈ cs.head?, drop c = false)
    (last : ∀ c ∈ cs.getLast?, drop c = false) : strip drop cs = cs := by
  cases hf : cs.head? with
  | none => rw [List.head?_eq_none_iff.mp hf, strip_nil]
  | some a =>
    cases hl : cs.getLast? with
    | none =>
      rw [List.getLast?_eq_none_iff.mp hl] at hf
      cases hf
    | some b =>
      have stripped : strip drop (cs ++ []) = cs := strip_append hf hl (first a hf) (last b hl) (by simp)
      rwa [List.append_nil] at stripped

end Text

namespace DegreeLabel

theorem not_blank_of_digit {c : Char} (h : Text.isDigit c = true) : Text.isBlank c = false := by
  -- digits come in rows of ten code points, none of which holds a blank
  have rows : ∀ z ∈ Text.digitZeros, ∀ k < 10, Text.isBlank (Char.ofNat (z + k)) = false := by
    decide +kernel
  unfold Text.isDigit Text.digitValue? at h
  rw [Option.isSome_map, List.find?_isSome] at h
  obtain ⟨z, hz, inside⟩ := h
  simp only [Bool.and_eq_true, decide_eq_true_eq] at inside
  have row := rows z hz (c.toNat - z) (by omega)
  rwa [Nat.add_sub_cancel' inside.1, Char.ofNat_toNat] at row

theorem exists_head? (d : DegreeLabel) :
    ∃ first, d.letters.head? = some first ∧ Text.isBlank first = false := by
  obtain ⟨accidental, n, o⟩ := d
  cases accidental <;> cases n <;> exact ⟨_, rfl, by decide⟩

theorem exists_getLast? (d : DegreeLabel) (h : ∀ w ∈ d.offset, w.WellFormed) :
    ∃ last, d.letters.getLast? = some last ∧ Text.isBlank last = false := by
  obtain ⟨accidental, n, o⟩ := d
  cases o with
  | none => cases accidental <;> cases n <;> exact ⟨_, rfl, by decide⟩
  | some w =>
    obtain ⟨some_digit, digits⟩ := h w rfl
    obtain ⟨last, hlast⟩ := Option.ne_none_iff_exists'.mp (mt List.getLast?_eq_none_iff.mp some_digit)
    refine ⟨last, ?_, not_blank_of_digit (digits last (List.mem_of_getLast? hlast))⟩
    simp [letters, WrittenOffset.letters, List.getLast?_append, List.getLast?_cons, hlast]

theorem offset_clean (d : DegreeLabel) (h : ∀ w ∈ d.offset, w.WellFormed) :
    '\n' ∉ (d.offset.map WrittenOffset.letters).getD [] := by
  cases ho : d.offset with
  | none => simp
  | some w =>
    obtain ⟨-, digits⟩ := h w ho
    have no_digit : '\n' ∉ w.digits := fun hmem => absurd (digits _ hmem) (by decide)
    cases hw : w.negative <;> simp [WrittenOffset.letters, hw, no_digit]

end DegreeLabel

end Ostinato
