import Mathlib.Data.Bool.AllAny
import Ostinato.Proofs.Harmony.DegreeLabel

/-!
# The spelling of chord symbols

A symbol is written as its accidental, the letters of its numeral in any case, and its suffix; the numeral
is the longest one that the text begins with after the accidental. The degree of a symbol is a symbol that
has this degree itself. It is a degree label too, but for two letters that only symbols have: a flat that
is written as `B`, and the dotted `İ`. As it has no offset and all labels are symbols, every chord has a
pitch.
-/

namespace Ostinato

/-! ### Leading numerals -/

namespace Numeral

variable {same : Char → Char → Bool}

theorem begins_take {letters cs : List Char} (h : begins same letters cs = true) :
    begins same letters (cs.take letters.length) = true := by
  induction letters generalizing cs with
  | nil => rfl
  | cons letter letters ih =>
    cases cs with
    | nil => cases h
    | cons c cs =>
      simp only [begins, Bool.and_eq_true] at h
      simp only [List.length_cons, List.take_succ_cons, begins, h.1, ih h.2, Bool.and_self]

theorem begins_append_right {letters cs : List Char} (rest : List Char)
    (h : begins same letters cs = true) : begins same letters (cs ++ rest) = true := by
  induction letters generalizing cs with
  | nil => rfl
  | cons letter letters ih =>
    cases cs with
    | nil => cases h
    | cons c cs =>
      simp only [begins, Bool.and_eq_true] at h
      simp only [List.cons_append, begins, h.1, ih h.2, Bool.and_self]

theorem begins_map {letters : List Char} {f : Char → Char}
    (kept : ∀ letter ∈ letters, ∀ x, same letter (f x) = same letter x) (cs : List Char) :
    begins same letters (cs.map f) = begins same letters cs := by
  induction letters generalizing cs with
  | nil => rfl
  | cons letter letters ih =>
    obtain ⟨first, others⟩ := List.forall_mem_cons.mp kept
    cases cs with
    | nil => rfl
    | cons c cs => rw [List.map_cons, begins, begins, first, ih others]

theorem length_le_of_begins {letters cs : List Char} (h : begins same letters cs = true) :
    letters.length ≤ cs.length := by
  induction letters generalizing cs with
  | nil => exact Nat.zero_le _
  | cons letter letters ih =>
    cases cs with
    | nil => cases h
    | cons c cs =>
      simp only [begins, Bool.and_eq_true] at h
      exact Nat.succ_le_succ (ih h.2)

theorem forall_mem_take_of_begins {letters cs : List Char} (h : begins same letters cs = true) :
    ∀ x ∈ cs.take letters.length, ∃ letter ∈ letters, same letter x = true := by
  induction letters generalizing cs with
  | nil => simp
  | cons letter letters ih =>
    cases cs with
    | nil => cases h
    | cons c cs =>
      simp only [begins, Bool.and_eq_true] at h
      rw [List.length_cons, List.take_succ_cons, List.forall_mem_cons]
      refine ⟨⟨letter, List.mem_cons_self, h.1⟩, fun x hx => ?_⟩
      obtain ⟨other, hother, form⟩ := ih h.2 x hx
      exact ⟨other, List.mem_cons_of_mem _ hother, form⟩

theorem map_eq_of_begins {letters cs : List Char} {f : Char → Char} (h : begins same letters cs = true)
    (width : cs.length = letters.length)
    (form : ∀ letter ∈ letters, ∀ x ∈ cs, same letter x = true → f x = letter) : cs.map f = letters := by
  induction letters generalizing cs with
  | nil => rw [List.length_eq_zero_iff.mp width, List.map_nil]
  | cons letter letters ih =>
    cases cs with
    | nil => cases h
    | cons c cs =>
      simp only [begins, Bool.and_eq_true] at h
      have first := form letter List.mem_cons_self c List.mem_cons_self h.1
      have others := ih h.2 (Nat.succ.inj width) fun letter hletter x hx =>
        form letter (List.mem_cons_of_mem _ hletter) x (List.mem_cons_of_mem _ hx)
      rw [List.map_cons, first, others]

theorem exists_leading? {cs : List Char} {n : Numeral} (h : begins same n.letters cs = true) :
    ∃ m, leading? same cs = some m :=
  Option.isSome_iff_exists.mp (List.find?_isSome.mpr ⟨n, by cases n <;> decide, h⟩)

/-- The longest numeral in front of a text stays the longest one in another text, if this text begins with
it and with no numeral that the first text does not begin with. -/
theorem leading?_of_begins {cs cs' : List Char} {n : Numeral} (h : leading? same cs = some n)
    (begun : begins same n.letters cs' = true)
    (fewer : ∀ m : Numeral, begins same m.letters cs' = true → begins same m.letters cs = true) :
    leading? same cs' = some n := by
  obtain ⟨-, longer, rest, split, absent⟩ := List.find?_eq_some_iff_append.mp h
  refine List.find?_eq_some_iff_append.mpr ⟨begun, longer, rest, split, fun m hm => ?_⟩
  have not_begun := absent m hm
  rw [Bool.not_eq_true'] at not_begun ⊢
  exact Bool.eq_false_iff.mpr fun h' => Bool.eq_false_iff.mp not_begun (fewer m h')

end Numeral

namespace ChordSymbol

/-! ### Letters -/

/-- The letters of numerals in all their forms. -/
def numeralForms : List Char := ['I', 'i', 'ı', 'İ', 'V', 'v']

/-- The characters of the degrees of symbols. -/
def degreeForms : List Char := ['b', 'B', '#', 'I', 'İ', 'V']

theorem mem_of_isForm {n : Numeral} {letter x : Char} (hletter : letter ∈ n.letters)
    (form : isForm letter x = true) : x ∈ numeralForms := by
  rcases Numeral.eq_of_mem_letters hletter with rfl | rfl
  · simp only [isForm, if_true, Bool.or_eq_true, beq_iff_eq] at form
    rcases form with ((rfl | rfl) | rfl) | rfl <;> decide
  · simp only [isForm, Char.reduceEq, if_false, if_true, Bool.or_eq_true, beq_iff_eq] at form
    rcases form with rfl | rfl <;> decide

theorem isForm_upper {n : Numeral} {letter : Char} (hletter : letter ∈ n.letters) (x : Char) :
    isForm letter (upper x) = isForm letter x := by
  unfold upper
  split_ifs with i v
  · rcases i with rfl | rfl <;> rcases Numeral.eq_of_mem_letters hletter with rfl | rfl <;> rfl
  · subst v
    rcases Numeral.eq_of_mem_letters hletter with rfl | rfl <;> rfl
  · rfl

/-- The upper case of a letter is the letter that it is a form of, unless it has a dot. -/
theorem upper_of_isForm {n : Numeral} {letter x : Char} (hletter : letter ∈ n.letters)
    (form : isForm letter x = true) (undotted : x ≠ 'İ') : upper x = letter := by
  have one : ∀ x ∈ numeralForms, isForm 'I' x = true → x ≠ 'İ' → upper x = 'I' :=
    List.all_iff_forall_prop.mp (by decide)
  have five : ∀ x ∈ numeralForms, isForm 'V' x = true → x ≠ 'İ' → upper x = 'V' :=
    List.all_iff_forall_prop.mp (by decide)
  have form_mem := mem_of_isForm hletter form
  rcases Numeral.eq_of_mem_letters hletter with rfl | rfl
  · exact one x form_mem form undotted
  · exact five x form_mem form undotted

/-! ### The parts of a symbol -/

/-- What the parts of a symbol are that has been read. -/
structure Spelled (c : ChordSymbol) : Prop where
  accidental : c.accidental = [] ∨ ∃ x, isAccidental x = true ∧ c.accidental = [x]
  width : c.letters.length = c.numeral.letters.length
  longest : Numeral.leading? isForm (c.letters ++ c.suffix) = some c.numeral
  clean : '\n' ∉ c.suffix

/-- The characters of a symbol. -/
def written (c : ChordSymbol) : List Char := c.accidental ++ (c.letters ++ c.suffix)

theorem takeAccidental_spec (cs : List Char) :
    ((takeAccidental cs).1 = [] ∨ ∃ x, isAccidental x = true ∧ (takeAccidental cs).1 = [x]) ∧
      (takeAccidental cs).1 ++ (takeAccidental cs).2 = cs := by
  unfold takeAccidental
  split
  · exact ⟨.inl rfl, rfl⟩
  · split_ifs with h
    · exact ⟨.inr ⟨_, h, rfl⟩, rfl⟩
    · exact ⟨.inl rfl, rfl⟩

theorem spelled_of_ofChars? {cs : List Char} {c : ChordSymbol} (h : ofChars? cs = some c) :
    c.Spelled ∧ cs = c.written := by
  obtain ⟨one, whole⟩ := takeAccidental_spec cs
  unfold ofChars? at h
  generalize takeAccidental cs = parts at h one whole
  obtain ⟨accidental, body⟩ := parts
  simp only at h one whole
  cases hn : Numeral.leading? isForm body with
  | none =>
    rw [hn] at h
    cases h
  | some n =>
    rw [hn] at h
    dsimp only at h
    split_ifs at h with unbroken
    obtain rfl := Option.some.inj h
    have enough := Numeral.length_le_of_begins (Numeral.begins_of_leading? hn)
    have rejoined : body.take n.letters.length ++ body.drop n.letters.length = body :=
      List.take_append_drop _ _
    refine ⟨⟨one, List.length_take_of_le enough, ?_, ?_⟩, ?_⟩
    · rw [rejoined, hn]
    · exact fun feed => unbroken (List.contains_iff_mem.mpr (List.mem_of_mem_drop feed))
    · rw [written, rejoined, whole]

namespace Spelled

variable {c : ChordSymbol}

theorem mem_accidental (h : c.Spelled) {x : Char} (hx : x ∈ c.accidental) : x ∈ ['b', 'B', '#'] := by
  rcases h.accidental with none | ⟨y, hy, one⟩
  · rw [none] at hx
    cases hx
  · rw [one, List.mem_singleton] at hx
    subst hx
    simpa [isAccidental, or_assoc] using hy

theorem begins_letters (h : c.Spelled) : Numeral.begins isForm c.numeral.letters c.letters = true := by
  have begun := Numeral.begins_take (Numeral.begins_of_leading? h.longest)
  rwa [← h.width, List.take_left] at begun

theorem mem_letters (h : c.Spelled) {x : Char} (hx : x ∈ c.letters) :
    x ∈ numeralForms := by
  have forms := Numeral.forall_mem_take_of_begins h.begins_letters
  rw [← h.width, List.take_length] at forms
  obtain ⟨letter, hletter, form⟩ := forms x hx
  exact mem_of_isForm hletter form

theorem letters_ne_nil (h : c.Spelled) : c.letters ≠ [] := by
  intro empty
  have width := h.width
  rw [empty] at width
  cases hn : c.numeral <;> rw [hn] at width <;> cases width

/-- What is spelled as a symbol is read as the symbol. -/
theorem ofChars?_written (h : c.Spelled) : ofChars? c.written = some c := by
  have plain : ∀ x ∈ c.letters, isAccidental x = false := by
    have all : ∀ x ∈ numeralForms, isAccidental x = false :=
      List.all_iff_forall_prop.mp (by decide)
    exact fun x hx => all x (h.mem_letters hx)
  have taken : takeAccidental c.written = (c.accidental, c.letters ++ c.suffix) := by
    rw [written]
    rcases h.accidental with none | ⟨x, hx, one⟩
    · obtain ⟨y, ys, hl⟩ := List.exists_cons_of_ne_nil h.letters_ne_nil
      rw [hl, none, List.nil_append, List.cons_append, takeAccidental,
        plain y (hl ▸ List.mem_cons_self), if_neg Bool.false_ne_true]
    · simp [one, takeAccidental, hx]
  have unbroken : (c.letters ++ c.suffix).contains '\n' = false := by
    rw [Bool.eq_false_iff, Ne, List.contains_iff_mem, List.mem_append, not_or]
    exact ⟨fun feed => absurd (h.mem_letters feed) (by decide), h.clean⟩
  rw [ofChars?, taken]
  simp only [h.longest, unbroken, Bool.false_eq_true, if_false]
  rw [← h.width, List.take_left, List.drop_left]

end Spelled

theorem ofChars?_eq_some_iff {cs : List Char} {c : ChordSymbol} :
    ofChars? cs = some c ↔ c.Spelled ∧ cs = c.written := by
  constructor
  · exact spelled_of_ofChars?
  · rintro ⟨h, rfl⟩
    exact h.ofChars?_written

theorem exists_ofChars? {accidental body : List Char} {n : Numeral}
    (sign : accidental = [] ∨ ∃ x, isAccidental x = true ∧ accidental = [x])
    (begun : Numeral.begins isForm n.letters body = true) (unbroken : '\n' ∉ body) :
    ∃ c, ofChars? (accidental ++ body) = some c := by
  obtain ⟨m, hm⟩ := Numeral.exists_leading? begun
  have enough := Numeral.length_le_of_begins (Numeral.begins_of_leading? hm)
  have rejoined : body.take m.letters.length ++ body.drop m.letters.length = body :=
    List.take_append_drop _ _
  let c : ChordSymbol := ⟨accidental, m, body.take m.letters.length, body.drop m.letters.length⟩
  have spelled : c.Spelled := by
    refine ⟨sign, List.length_take_of_le enough, ?_, fun feed => unbroken (List.mem_of_mem_drop feed)⟩
    rw [rejoined, hm]
  have read := spelled.ofChars?_written
  rw [written, rejoined] at read
  exact ⟨c, read⟩

theorem spelled_of_read? {s : String} {c : ChordSymbol} (h : read? s = some c) : c.Spelled :=
  (ofChars?_eq_some_iff.mp h).1

/-! ### Degrees of symbols -/

/-- The symbol that is the degree of a symbol. -/
def bare (c : ChordSymbol) : ChordSymbol := ⟨c.accidental, c.numeral, c.letters.map upper, []⟩

theorem written_bare (c : ChordSymbol) : String.ofList c.bare.written = c.degree := by
  rw [degree, written, bare, List.append_nil]

theorem Spelled.bare {c : ChordSymbol} (h : c.Spelled) : c.bare.Spelled where
  accidental := h.accidental
  width := by
    rw [ChordSymbol.bare, List.length_map]
    exact h.width
  longest := by
    have kept (m : Numeral) : Numeral.begins isForm m.letters (c.letters.map upper) =
        Numeral.begins isForm m.letters c.letters :=
      Numeral.begins_map (fun letter hletter x => isForm_upper hletter x) c.letters
    rw [ChordSymbol.bare, List.append_nil]
    refine Numeral.leading?_of_begins h.longest ?_ fun m hm => ?_
    · rw [kept, h.begins_letters]
    · rw [kept] at hm
      exact Numeral.begins_append_right c.suffix hm
  clean := List.not_mem_nil

theorem Spelled.mem_degree {c : ChordSymbol} (h : c.Spelled) {x : Char} (hx : x ∈ c.degree.toList) :
    x ∈ degreeForms := by
  rw [degree, String.toList_ofList, List.mem_append] at hx
  rcases hx with hx | hx
  · have all : ∀ x ∈ ['b', 'B', '#'], x ∈ degreeForms := by simp [degreeForms]
    exact all x (h.mem_accidental hx)
  · have all : ∀ y ∈ numeralForms, upper y ∈ degreeForms :=
      List.all_iff_forall_prop.mp (by decide)
    obtain ⟨y, hy, rfl⟩ := List.mem_map.mp hx
    exact all y (h.mem_letters hy)

theorem Spelled.solid_degree {c : ChordSymbol} (h : c.Spelled) :
    ∀ x ∈ c.degree.toList, Text.isBlank x = false := by
  have all : ∀ x ∈ degreeForms, Text.isBlank x = false := List.all_iff_forall_prop.mp (by decide)
  exact fun x hx => all x (h.mem_degree hx)

theorem read?_degree {s : String} {c : ChordSymbol} (h : read? s = some c) :
    read? c.degree = some c.bare := by
  have spelled := spelled_of_read? h
  have bare : Text.strip Text.isBlank c.degree.toList = c.degree.toList :=
    Text.strip_eq_self (fun x hx => spelled.solid_degree x (List.mem_of_mem_head? hx))
      fun x hx => spelled.solid_degree x (List.mem_of_getLast? hx)
  rw [read?, bare, ← written_bare, String.toList_ofList]
  exact spelled.bare.ofChars?_written

theorem upper_upper (x : Char) : upper (upper x) = upper x := by
  unfold upper
  split_ifs <;> simp_all

theorem degree_bare (c : ChordSymbol) : c.bare.degree = c.degree := by
  rw [degree, degree, bare, List.map_map]
  congr 3
  exact funext upper_upper

end ChordSymbol

/-- A degree is its own degree, also where it is a symbol without a root. -/
theorem chordDegree_chordDegree (symbol : String) : chordDegree (chordDegree symbol) = chordDegree symbol := by
  cases h : ChordSymbol.read? symbol with
  | none => simp only [chordDegree, h]
  | some c => simp only [chordDegree, h, ChordSymbol.read?_degree h, ChordSymbol.degree_bare]

/-! ### Labels as symbols -/

/-- A degree label is a chord symbol, though perhaps one with another degree. -/
theorem ChordSymbol.exists_read?_of_label {s : String} (h : isDegreeLabel s = true) :
    ∃ c, read? s = some c := by
  obtain ⟨d, hd⟩ := Option.isSome_iff_exists.mp h
  obtain ⟨tail, closed, spelled, wellFormed⟩ := DegreeLabel.letters_of_read? hd
  have blank_tail : ∀ c ∈ tail, Text.isBlank c = true := by
    rcases closed with rfl | rfl
    · simp
    · rw [List.forall_mem_singleton]
      decide
  have sign : d.accidental.letters = [] ∨ ∃ x, isAccidental x = true ∧ d.accidental.letters = [x] := by
    cases d.accidental with
    | natural => exact .inl rfl
    | flat => exact .inr ⟨'b', rfl, rfl⟩
    | sharp => exact .inr ⟨'#', rfl, rfl⟩
  have same_form (letter : Char) (h : letter ∈ d.numeral.letters) : isForm letter letter = true := by
    rcases Numeral.eq_of_mem_letters h with rfl | rfl <;> decide
  have begun := Numeral.begins_append d.numeral.letters ((d.offset.map WrittenOffset.letters).getD []) same_form
  have no_feed : '\n' ∉ d.numeral.letters := by cases d.numeral <;> decide
  obtain ⟨first, hfirst, solid⟩ := d.exists_head?
  obtain ⟨last, hlast, solid'⟩ := d.exists_getLast? wellFormed
  rw [read?, spelled, Text.strip_append hfirst hlast solid solid' blank_tail, DegreeLabel.letters,
    List.append_assoc]
  refine exists_ofChars? sign begun fun feed => ?_
  exact (List.mem_append.mp feed).elim no_feed (d.offset_clean wellFormed)

/-- Every chord has a pitch: its degree is no label with an offset. -/
theorem exists_degreePitch_chordDegree (symbol : String) :
    ∃ p, degreePitch (chordDegree symbol) = .ok p := by
  unfold chordDegree
  cases hc : ChordSymbol.read? symbol with
  | some c =>
    have unsigned : ∀ x ∈ ChordSymbol.degreeForms, x ≠ '+' ∧ x ≠ '-' :=
      List.all_iff_forall_prop.mp (by decide)
    exact exists_degreePitch_of_unsigned fun x hx =>
      unsigned x ((ChordSymbol.spelled_of_read? hc).mem_degree hx)
  | none =>
    refine ⟨_, degreePitch_of_not_label (Bool.eq_false_iff.mpr fun label => ?_)⟩
    obtain ⟨c, hc'⟩ := ChordSymbol.exists_read?_of_label label
    rw [hc] at hc'
    cases hc'

/-! ### Degrees as labels -/

theorem DegreeLabel.read?_unsigned (a : Accidental) (n : Numeral) :
    read? (String.ofList (a.letters ++ n.letters)) = some ⟨a, n, none⟩ := by
  cases a <;> cases n <;> decide

/-- No label has a `B` or a dotted `İ`. -/
theorem DegreeLabel.ne_of_mem {s : String} (h : isDegreeLabel s = true) {x : Char} (hx : x ∈ s.toList) :
    x ≠ 'B' ∧ x ≠ 'İ' := by
  obtain ⟨d, hd⟩ := Option.isSome_iff_exists.mp h
  obtain ⟨tail, closed, spelled, wellFormed⟩ := letters_of_read? hd
  have accidental : ∀ y ∈ d.accidental.letters, y ≠ 'B' ∧ y ≠ 'İ' := by
    cases d.accidental <;> exact List.all_iff_forall_prop.mp (by decide)
  have numeral : ∀ y ∈ d.numeral.letters, y ≠ 'B' ∧ y ≠ 'İ' := by
    cases d.numeral <;> exact List.all_iff_forall_prop.mp (by decide)
  have offset : ∀ y ∈ (d.offset.map WrittenOffset.letters).getD [], y ≠ 'B' ∧ y ≠ 'İ' := by
    cases ho : d.offset with
    | none => simp
    | some w =>
      obtain ⟨-, digits⟩ := wellFormed w ho
      have no_digit : ∀ y ∈ w.digits, y ≠ 'B' ∧ y ≠ 'İ' := by
        intro y hy
        constructor
        · rintro rfl
          exact absurd (digits _ hy) (by decide)
        · rintro rfl
          exact absurd (digits _ hy) (by decide)
      cases hw : w.negative <;>
        simpa [WrittenOffset.letters, hw] using fun y hy => no_digit y hy
  have line : ∀ y ∈ tail, y ≠ 'B' ∧ y ≠ 'İ' := by
    rcases closed with rfl | rfl <;> exact List.all_iff_forall_prop.mp (by decide)
  rw [spelled, letters, List.mem_append, List.mem_append, List.mem_append] at hx
  rcases hx with ((hx | hx) | hx) | hx
  · exact accidental x hx
  · exact numeral x hx
  · exact offset x hx
  · exact line x hx

namespace ChordSymbol

/-- Whether a symbol is spelled without the two letters that labels do not have. -/
def Plain (c : ChordSymbol) : Prop := 'B' ∉ c.accidental ∧ 'İ' ∉ c.letters

instance (c : ChordSymbol) : Decidable c.Plain :=
  inferInstanceAs (Decidable ('B' ∉ c.accidental ∧ 'İ' ∉ c.letters))

theorem Spelled.exists_accidental {c : ChordSymbol} (h : c.Spelled) (plain : 'B' ∉ c.accidental) :
    ∃ a : Accidental, c.accidental = a.letters := by
  rcases h.accidental with none | ⟨x, hx, one⟩
  · exact ⟨.natural, none⟩
  · rw [one, List.mem_singleton] at plain
    simp only [isAccidental, Bool.or_eq_true, beq_iff_eq] at hx
    rcases hx with (rfl | rfl) | rfl
    · exact ⟨.flat, one⟩
    · exact absurd rfl plain
    · exact ⟨.sharp, one⟩

theorem Spelled.map_upper {c : ChordSymbol} (h : c.Spelled) (undotted : 'İ' ∉ c.letters) :
    c.letters.map upper = c.numeral.letters := by
  refine Numeral.map_eq_of_begins h.begins_letters h.width fun letter hletter x hx form => ?_
  exact upper_of_isForm hletter form fun dotted => undotted (dotted ▸ hx)

/-- The degree of a plain symbol is written as the label of its accidental and its numeral. -/
theorem Spelled.exists_label {c : ChordSymbol} (h : c.Spelled) (plain : c.Plain) :
    ∃ a : Accidental, c.accidental = a.letters ∧ c.degree = String.ofList (a.letters ++ c.numeral.letters) := by
  obtain ⟨a, ha⟩ := h.exists_accidental plain.1
  exact ⟨a, ha, by rw [degree, ha, h.map_upper plain.2]⟩

theorem exists_mem_degree_of_not_plain {c : ChordSymbol} (h : ¬c.Plain) :
    ∃ x ∈ c.degree.toList, x = 'B' ∨ x = 'İ' := by
  rw [Plain, not_and_or, not_not, not_not] at h
  rw [degree, String.toList_ofList]
  rcases h with flat | dotted
  · exact ⟨'B', List.mem_append_left _ flat, .inl rfl⟩
  · exact ⟨'İ', List.mem_append_right _ (List.mem_map_of_mem dotted), .inr rfl⟩

end ChordSymbol

theorem chordRoot_of_plain {s : String} {c : ChordSymbol} (h : ChordSymbol.read? s = some c)
    {a : Accidental} (label : c.degree = String.ofList (a.letters ++ c.numeral.letters)) :
    chordRoot s = c.numeral := by
  simp only [chordRoot, h, label, String.toList_ofList]
  cases a <;> cases c.numeral <;> decide

theorem chordRoot_of_mem {s : String} {c : ChordSymbol} (h : ChordSymbol.read? s = some c) {x : Char}
    (hx : x ∈ c.degree.toList) (odd : x = 'B' ∨ x = 'İ') : chordRoot s = .one := by
  have kept : x ∈ c.degree.toList.dropWhile fun y => y == 'b' || y == '#' := by
    rw [← List.takeWhile_append_dropWhile (p := fun y => y == 'b' || y == '#')
      (l := c.degree.toList), List.mem_append] at hx
    rcases hx with taken | kept
    · have sign := List.mem_takeWhile_imp taken
      rcases odd with rfl | rfl <;> cases sign
    · exact kept
  simp only [chordRoot, h]
  rw [List.find?_eq_none.mpr, Option.getD_none]
  intro n _ same
  rw [beq_iff_eq] at same
  rw [← same] at kept
  rcases Numeral.eq_of_mem_letters kept with rfl | rfl <;> rcases odd with odd | odd <;> cases odd

/-- The degree of a plain symbol is understood wherever degrees are: it is the label of its accidental and
numeral and sounds so, and the root of the symbol is its numeral. The degree of any other symbol is no
label, sounds as the key root, and the root of the symbol is the first degree. -/
theorem ChordSymbol.degree_understood {s : String} {c : ChordSymbol} (h : read? s = some c) :
    (c.Plain → ∃ a : Accidental, c.accidental = a.letters ∧
      DegreeLabel.read? c.degree = some ⟨a, c.numeral, none⟩ ∧ isDegreeLabel c.degree = true ∧
      degreePitch c.degree = .ok (.ofInt (c.numeral.semitones + a.shift)) ∧
      (chordRoot s).arabic = c.numeral.arabic) ∧
    (¬c.Plain → isDegreeLabel c.degree = false ∧ degreePitch c.degree = .ok PitchClass.keyRoot ∧
      chordRoot s = .one) := by
  constructor
  · intro plain
    obtain ⟨a, ha, label⟩ := (spelled_of_read? h).exists_label plain
    have read : DegreeLabel.read? c.degree = some ⟨a, c.numeral, none⟩ := by
      rw [label, DegreeLabel.read?_unsigned]
    refine ⟨a, ha, read, ?_, ?_, ?_⟩
    · rw [isDegreeLabel, read, Option.isSome_some]
    · simp only [degreePitch, read, DegreeLabel.pitch]
    · rw [chordRoot_of_plain h label]
  · intro odd
    obtain ⟨x, hx, letter⟩ := exists_mem_degree_of_not_plain odd
    have no_label : isDegreeLabel c.degree = false := by
      refine Bool.eq_false_iff.mpr fun label => ?_
      obtain ⟨flat, dotted⟩ := DegreeLabel.ne_of_mem label hx
      exact letter.elim flat dotted
    exact ⟨no_label, degreePitch_of_not_label no_label, chordRoot_of_mem h hx letter⟩

theorem ChordSymbol.sharp_fourth_understood :
    read? " #ıV7 " = some ⟨['#'], .four, ['ı', 'V'], ['7']⟩ ∧ isDegreeLabel "#IV" = true ∧
      degreePitch "#IV" = .ok 6 ∧ (chordRoot " #ıV7 ").arabic = "4" := by
  have read : read? " #ıV7 " = some ⟨['#'], .four, ['ı', 'V'], ['7']⟩ := by decide
  obtain ⟨a, sharp, -, label, pitch, root⟩ := (degree_understood read).1 (by decide)
  cases a with
  | natural => exact absurd sharp (by decide)
  | flat => exact absurd sharp (by decide)
  | sharp => exact ⟨read, label, pitch, root⟩

/-- The flat in front of the seventh degree is written as a capital letter: the symbol has a root, but its
degree is no label, sounds as the key root and counts as the first one. -/
theorem ChordSymbol.capital_flat_not_understood :
    read? "BVII" = some ⟨['B'], .seven, ['V', 'I', 'I'], []⟩ ∧ isDegreeLabel "BVII" = false ∧
      degreePitch "BVII" ≠ .ok (.ofInt (Numeral.seven.semitones + Accidental.flat.shift)) ∧
      (chordRoot "BVII").arabic ≠ Numeral.seven.arabic := by
  refine ⟨by decide, by decide, fun pitch => ?_, by decide⟩
  have root : degreePitch "BVII" = .ok 0 := by rfl
  rw [root, Except.ok.injEq] at pitch
  exact absurd pitch (by decide)

end Ostinato
