import Mathlib.Data.List.Forall2
import Ostinato.Proofs.Harmony.ChordSpelling

/-!
# The grammar of chord symbols

A chord symbol is an accidental, which may be left out, the longest numeral that is spelled after it, and a
suffix without line feeds. Degree and quality put together are a symbol again, and it has the same degree
and quality: the numeral is then in upper case, and an `m` in front of the suffix tells what its lower case
told before.
-/

namespace Ostinato

/-! ### Stripped texts -/

theorem Text.strip_spec (drop : Char → Bool) (cs : List Char) : ∃ front back,
    cs = front ++ strip drop cs ++ back ∧ (∀ c ∈ front ++ back, drop c = true) ∧
      (∀ c ∈ (strip drop cs).head?, drop c = false) ∧ ∀ c ∈ (strip drop cs).getLast?, drop c = false := by
  have kept (l : List Char) : ∀ c ∈ (l.dropWhile drop).head?, drop c = false := by
    intro c hc
    have first := List.head?_dropWhile_not drop l
    rwa [Option.mem_def.mp hc] at first
  have rest : strip drop cs ++ ((cs.dropWhile drop).reverse.takeWhile drop).reverse = cs.dropWhile drop := by
    rw [strip, ← List.reverse_append, List.takeWhile_append_dropWhile, List.reverse_reverse]
  refine ⟨cs.takeWhile drop, ((cs.dropWhile drop).reverse.takeWhile drop).reverse, ?_, ?_, ?_, ?_⟩
  · rw [List.append_assoc, rest, List.takeWhile_append_dropWhile]
  · intro c hc
    rcases List.mem_append.mp hc with before | after
    · exact List.mem_takeWhile_imp before
    · exact List.mem_takeWhile_imp (List.mem_reverse.mp after)
  · intro c hc
    refine kept cs c ?_
    rw [← rest, List.head?_append, Option.mem_def.mp hc]
    rfl
  · intro c hc
    rw [strip, List.getLast?_reverse] at hc
    exact kept _ c hc

/-! ### Spelled numerals -/

namespace Numeral

open ChordSymbol (isForm)

variable {same : Char → Char → Bool} {cs : List Char} {m n : Numeral}

/-- The letters of a numeral, each in one of its forms. -/
def SpelledBy (n : Numeral) (letters : List Char) : Prop :=
  List.Forall₂ (fun letter c => isForm letter c = true) n.letters letters

theorem begins_iff_exists {letters : List Char} : begins same letters cs = true ↔
    ∃ front rest, cs = front ++ rest ∧ List.Forall₂ (fun letter c => same letter c = true) letters front := by
  induction letters generalizing cs with
  | nil => simp [begins]
  | cons letter letters ih =>
    cases cs with
    | nil => simp [begins]
    | cons c cs =>
      simp only [begins, Bool.and_eq_true, ih]
      constructor
      · rintro ⟨first, front, rest, rfl, others⟩
        exact ⟨c :: front, rest, rfl, .cons first others⟩
      · rintro ⟨front, rest, split, spelled⟩
        cases spelled with
        | cons first others =>
          obtain ⟨rfl, rfl⟩ := List.cons.inj split
          exact ⟨first, _, rest, rfl, others⟩

/-- A text begins with letters in one way only: of two rows of letters the shorter one starts the other. -/
theorem prefix_of_begins {letters letters' : List Char} (h : begins same letters cs = true)
    (h' : begins same letters' cs = true) (shorter : letters.length ≤ letters'.length)
    (one : ∀ a ∈ letters, ∀ b ∈ letters', ∀ c, same a c = true → same b c = true → a = b) :
    letters <+: letters' := by
  induction letters generalizing letters' cs with
  | nil => exact List.nil_prefix
  | cons a letters ih =>
    cases letters' with
    | nil => cases shorter
    | cons b letters' =>
      cases cs with
      | nil => cases h
      | cons c cs =>
        simp only [begins, Bool.and_eq_true] at h h'
        obtain rfl := one a List.mem_cons_self b List.mem_cons_self c h.1 h'.1
        have others := ih h.2 h'.2 (Nat.le_of_succ_le_succ shorter) fun x hx y hy =>
          one x (List.mem_cons_of_mem _ hx) y (List.mem_cons_of_mem _ hy)
        exact List.prefix_cons_inj a |>.mpr others

/-- Letters that a text begins with do not reach beyond a character that is a form of none of them. -/
theorem begins_of_append {letters rest : List Char} (h : begins same letters (cs ++ rest) = true)
    (stop : ∀ letter ∈ letters, ∀ c ∈ rest.head?, same letter c = false) : begins same letters cs = true := by
  induction letters generalizing cs with
  | nil => rfl
  | cons letter letters ih =>
    cases cs with
    | nil =>
      cases rest with
      | nil => cases h
      | cons c rest =>
        rw [List.nil_append, begins, stop letter List.mem_cons_self c rfl, Bool.false_and] at h
        cases h
    | cons c cs =>
      simp only [List.cons_append, begins, Bool.and_eq_true] at h ⊢
      exact ⟨h.1, ih h.2 fun x hx => stop x (List.mem_cons_of_mem _ hx)⟩

theorem letter_unique {a b c : Char} (ha : a ∈ m.letters) (hb : b ∈ n.letters) (fa : isForm a c = true)
    (fb : isForm b c = true) : a = b := by
  have apart : ∀ c ∈ ChordSymbol.numeralForms, (isForm 'I' c && isForm 'V' c) = false :=
    List.all_iff_forall_prop.mp (by decide)
  have both := apart c (ChordSymbol.mem_of_isForm ha fa)
  rcases eq_of_mem_letters ha with rfl | rfl <;> rcases eq_of_mem_letters hb with rfl | rfl
  · rfl
  · simp [fa, fb] at both
  · simp [fa, fb] at both
  · rfl

theorem prefix_of_begins_forms (hn : begins isForm n.letters cs = true)
    (hm : begins isForm m.letters cs = true) (shorter : n.letters.length ≤ m.letters.length) :
    n.letters <+: m.letters :=
  prefix_of_begins hn hm shorter fun _ ha _ hb _ => letter_unique ha hb

theorem letters_injective : Function.Injective letters := by
  intro m n h
  cases m <;> cases n <;> first | rfl | exact absurd h (by decide)

/-- The numeral that is read is the longest one that the text begins with. -/
theorem leading?_forms_eq_some_iff : leading? isForm cs = some n ↔
    begins isForm n.letters cs = true ∧
      ∀ m : Numeral, begins isForm m.letters cs = true → m.letters.length ≤ n.letters.length := by
  have longest {n : Numeral} (h : leading? isForm cs = some n) (m : Numeral)
      (hm : begins isForm m.letters cs = true) : m.letters.length ≤ n.letters.length := by
    obtain ⟨hn, before, after, split, absent⟩ := List.find?_eq_some_iff_append.mp h
    by_contra longer
    have extended := prefix_of_begins_forms hn hm (Nat.le_of_not_le longer)
    -- no numeral comes after one that it starts with
    have order : longestFirst.Pairwise fun a b => ¬a.letters <+: b.letters := by decide
    have listed : m ∈ longestFirst := by cases m <;> decide
    rw [split] at order listed
    rcases List.mem_append.mp listed with early | late
    · simpa [hm] using absent m early
    · rcases List.mem_cons.mp late with rfl | late
      · exact longer (Nat.le_refl _)
      · have tail := (List.pairwise_append.mp order).2.1
        exact (List.pairwise_cons.mp tail).1 m late extended
  constructor
  · exact fun h => ⟨begins_of_leading? h, longest h⟩
  · rintro ⟨hn, most⟩
    obtain ⟨k, hk⟩ := exists_leading? hn
    have begun := begins_of_leading? hk
    have width := Nat.le_antisymm (longest hk n hn) (most k begun)
    have same := (prefix_of_begins_forms hn begun width.le).eq_of_length width
    rw [hk, letters_injective same]

end Numeral

/-! ### Parts of symbols -/

namespace ChordSymbol

/-- The characters that a symbol is read from: those of a text, without the blanks around it. -/
def core (s : String) : List Char := Text.strip Text.isBlank s.toList

/-- Perhaps an accidental, the longest numeral that is spelled after it, and the rest. -/
structure PartsOf (c : ChordSymbol) (cs : List Char) : Prop where
  whole : cs = c.accidental ++ (c.letters ++ c.suffix)
  accidental : c.accidental = [] ∨ ∃ x ∈ ['b', 'B', '#'], c.accidental = [x]
  numeral : c.numeral.SpelledBy c.letters
  longest : ∀ (m : Numeral) (front rest : List Char), c.letters ++ c.suffix = front ++ rest →
    m.SpelledBy front → front.length ≤ c.letters.length
  unbroken : '\n' ∉ cs

theorem isAccidental_iff {x : Char} : isAccidental x = true ↔ x ∈ ['b', 'B', '#'] := by
  simp [isAccidental, or_assoc]

theorem spelled_iff_partsOf {c : ChordSymbol} : c.Spelled ↔ c.PartsOf c.written := by
  constructor
  · intro h
    refine ⟨rfl, ?_, ?_, ?_, ?_⟩
    · simpa only [isAccidental_iff] using h.accidental
    · obtain ⟨front, rest, split, spelled⟩ := Numeral.begins_iff_exists.mp h.begins_letters
      have width : front.length = c.letters.length := by rw [← spelled.length_eq, h.width]
      have all : rest = [] := by
        have lengths := congrArg List.length split
        rw [List.length_append] at lengths
        exact List.length_eq_zero_iff.mp (by omega)
      rw [split, all, List.append_nil]
      exact spelled
    · intro m front rest split spelled
      have most := (Numeral.leading?_forms_eq_some_iff.mp h.longest).2 m
        (Numeral.begins_iff_exists.mpr ⟨front, rest, split, spelled⟩)
      rwa [← spelled.length_eq, h.width]
    · rw [written, List.mem_append, List.mem_append]
      rintro (feed | feed | feed)
      · exact absurd (h.mem_accidental feed) (by decide)
      · exact absurd (h.mem_letters feed) (by decide)
      · exact h.clean feed
  · intro h
    have width : c.letters.length = c.numeral.letters.length := h.numeral.length_eq.symm
    refine ⟨?_, width, ?_, fun feed => h.unbroken ?_⟩
    · simpa only [isAccidental_iff] using h.accidental
    · refine Numeral.leading?_forms_eq_some_iff.mpr ⟨?_, fun m hm => ?_⟩
      · exact Numeral.begins_iff_exists.mpr ⟨c.letters, c.suffix, rfl, h.numeral⟩
      · obtain ⟨front, rest, split, spelled⟩ := Numeral.begins_iff_exists.mp hm
        have most := h.longest m front rest split spelled
        rwa [← width, spelled.length_eq]
    · exact List.mem_append_right _ (List.mem_append_right _ feed)

theorem read?_eq_some_iff {s : String} {c : ChordSymbol} : read? s = some c ↔ c.PartsOf (core s) := by
  rw [read?, ← core, ofChars?_eq_some_iff, spelled_iff_partsOf]
  constructor
  · rintro ⟨parts, whole⟩
    rwa [whole]
  · intro parts
    have whole : core s = c.written := parts.whole
    exact ⟨whole ▸ parts, whole⟩

/-- A text is a symbol if a numeral stands in it, at its beginning or after an accidental. -/
theorem exists_partsOf_iff {cs : List Char} : (∃ c : ChordSymbol, c.PartsOf cs) ↔ '\n' ∉ cs ∧
    ∃ (accidental letters suffix : List Char) (n : Numeral), cs = accidental ++ (letters ++ suffix) ∧
      (accidental = [] ∨ ∃ x ∈ ['b', 'B', '#'], accidental = [x]) ∧ n.SpelledBy letters := by
  constructor
  · rintro ⟨c, parts⟩
    exact ⟨parts.unbroken, c.accidental, c.letters, c.suffix, c.numeral, parts.whole, parts.accidental,
      parts.numeral⟩
  · rintro ⟨unbroken, accidental, letters, suffix, n, rfl, sign, spelled⟩
    have begun : Numeral.begins isForm n.letters (letters ++ suffix) = true :=
      Numeral.begins_iff_exists.mpr ⟨letters, suffix, rfl, spelled⟩
    simp only [← isAccidental_iff] at sign
    obtain ⟨c, hc⟩ := exists_ofChars? sign begun fun feed => unbroken (List.mem_append_right _ feed)
    obtain ⟨spelled, whole⟩ := spelled_of_ofChars? hc
    exact ⟨c, whole ▸ spelled_iff_partsOf.mp spelled⟩

/-! ### Degree and quality as a symbol -/

variable {c : ChordSymbol}

/-- The symbol that is written as degree and quality. -/
def normal (c : ChordSymbol) : ChordSymbol := ⟨c.accidental, c.numeral, c.letters.map upper, c.quality.toList⟩

theorem toList_quality (c : ChordSymbol) :
    c.quality.toList = c.suffix ∨ c.quality.toList = 'm' :: c.suffix := by
  rw [quality, String.toList_ofList]
  split_ifs
  · exact .inr rfl
  · exact .inl rfl

theorem begins_map_upper (m : Numeral) (cs : List Char) :
    Numeral.begins isForm m.letters (cs.map upper) = Numeral.begins isForm m.letters cs :=
  Numeral.begins_map (fun _ hletter x => isForm_upper hletter x) cs

theorem begins_of_upper {m : Numeral} {letters suffix : List Char}
    (h : Numeral.begins isForm m.letters (letters.map upper ++ suffix) = true) :
    Numeral.begins isForm m.letters (letters ++ suffix) = true := by
  have twice : (letters.map upper).map upper = letters.map upper := by
    rw [List.map_map]
    exact List.map_congr_left fun x _ => upper_upper x
  rw [← begins_map_upper, List.map_append, twice, ← List.map_append, begins_map_upper] at h
  exact h

theorem begins_of_minor {m : Numeral} {letters suffix : List Char}
    (h : Numeral.begins isForm m.letters (letters ++ 'm' :: suffix) = true) :
    Numeral.begins isForm m.letters letters = true := by
  refine Numeral.begins_of_append h fun _ hletter c hc => ?_
  obtain rfl := Option.some.inj hc
  rcases Numeral.eq_of_mem_letters hletter with rfl | rfl <;> decide

theorem Spelled.normal (h : c.Spelled) : c.normal.Spelled where
  accidental := h.accidental
  width := h.bare.width
  longest := by
    refine Numeral.leading?_of_begins h.longest ?_ fun m hm => ?_
    · refine Numeral.begins_append_right _ ?_
      rw [ChordSymbol.normal, begins_map_upper]
      exact h.begins_letters
    · rcases toList_quality c with plain | minor
      · rw [ChordSymbol.normal, plain] at hm
        exact begins_of_upper hm
      · rw [ChordSymbol.normal, minor] at hm
        have begun := begins_of_minor hm
        rw [begins_map_upper] at begun
        exact Numeral.begins_append_right c.suffix begun
  clean := by
    rcases toList_quality c with plain | minor
    · rw [ChordSymbol.normal, plain]
      exact h.clean
    · rw [ChordSymbol.normal, minor, List.mem_cons]
      exact fun feed => feed.elim (by decide) h.clean

/-- No numeral in upper case counts as lower case. -/
theorem Spelled.raised (h : c.Spelled) : (c.letters.map upper).all isLower = false := by
  have upper_case (x : Char) : isLower (upper x) = false := by
    unfold upper isLower
    split_ifs <;> simp_all
  obtain ⟨x, rest, hl⟩ := List.exists_cons_of_ne_nil h.letters_ne_nil
  simp [hl, upper_case]

theorem quality_normal (h : c.Spelled) : c.normal.quality = c.quality := by
  rw [quality, normal, h.raised, Bool.false_and, if_neg Bool.false_ne_true, String.ofList_toList]

theorem quality_bare (h : c.Spelled) : c.bare.quality = "" := by
  rw [quality, bare, h.raised, Bool.false_and, if_neg Bool.false_ne_true, String.ofList_nil]

theorem degree_normal (c : ChordSymbol) : c.normal.degree = c.degree := degree_bare c

theorem toList_degree_append_quality (c : ChordSymbol) : (c.degree ++ c.quality).toList = c.normal.written := by
  rw [String.toList_append, degree, String.toList_ofList, written, normal, List.append_assoc]

theorem Spelled.degree_ne_nil (h : c.Spelled) : c.degree.toList ≠ [] := by
  rw [degree, String.toList_ofList]
  exact List.append_ne_nil_of_right_ne_nil _ (mt List.map_eq_nil_iff.mp h.letters_ne_nil)

theorem solid_quality {s : String} (h : read? s = some c) :
    ∀ x ∈ c.quality.toList.getLast?, Text.isBlank x = false := by
  obtain ⟨-, -, -, -, -, solid⟩ := Text.strip_spec Text.isBlank s.toList
  rw [← core] at solid
  have suffix : ∀ x ∈ c.suffix.getLast?, Text.isBlank x = false := by
    intro x hx
    refine solid x ?_
    rw [(read?_eq_some_iff.mp h).whole, List.getLast?_append, List.getLast?_append, Option.mem_def.mp hx]
    rfl
  intro x hx
  rcases toList_quality c with plain | minor
  · rw [plain] at hx
    exact suffix x hx
  · rw [minor, List.getLast?_cons] at hx
    cases hs : c.suffix.getLast? with
    | none =>
      rw [hs] at hx
      obtain rfl := Option.some.inj hx
      decide
    | some y =>
      rw [hs] at hx
      obtain rfl := Option.some.inj hx
      exact suffix _ hs

theorem read?_normal {s : String} (h : read? s = some c) : read? (c.degree ++ c.quality) = some c.normal := by
  have spelled := spelled_of_read? h
  have first : ∀ x ∈ (c.degree ++ c.quality).toList.head?, Text.isBlank x = false := by
    intro x hx
    rw [String.toList_append, List.head?_append_of_ne_nil _ spelled.degree_ne_nil] at hx
    exact spelled.solid_degree x (List.mem_of_mem_head? hx)
  have last : ∀ x ∈ (c.degree ++ c.quality).toList.getLast?, Text.isBlank x = false := by
    intro x hx
    rw [String.toList_append, List.getLast?_append, Option.mem_def, Option.or_eq_some_iff] at hx
    rcases hx with end_of_quality | ⟨-, end_of_degree⟩
    · exact solid_quality h x end_of_quality
    · exact spelled.solid_degree x (List.mem_of_getLast? end_of_degree)
  rw [read?, Text.strip_eq_self first last, toList_degree_append_quality]
  exact spelled.normal.ofChars?_written

theorem tellsMinor_iff {suffix : List Char} : tellsMinor suffix = true ↔
    ['m'] <+: suffix ∨ ['d', 'i', 'm'] <+: suffix ∨ ['°'] <+: suffix := by
  unfold tellsMinor
  split <;> simp_all [List.cons_prefix_iff]

theorem isLower_iff {x : Char} : isLower x = true ↔ x ∈ ['i', 'ı', 'v'] := by
  simp [isLower, or_assoc]

/-- Whether the numeral alone tells that the chord is minor: all its letters are lower case, and the suffix
does not start with `m`, `dim` or the degree sign. -/
def LowerOnly (c : ChordSymbol) : Prop :=
  (∀ x ∈ c.letters, x ∈ ['i', 'ı', 'v']) ∧
    ¬(['m'] <+: c.suffix ∨ ['d', 'i', 'm'] <+: c.suffix ∨ ['°'] <+: c.suffix)

theorem lowerOnly_iff {c : ChordSymbol} :
    c.LowerOnly ↔ (c.letters.all isLower && !tellsMinor c.suffix) = true := by
  simp only [LowerOnly, Bool.and_eq_true, List.all_eq_true, isLower_iff, Bool.not_eq_true',
    Bool.eq_false_iff, ne_eq, tellsMinor_iff]

theorem quality_of_lowerOnly (h : c.LowerOnly) : c.quality = String.ofList ('m' :: c.suffix) := by
  rw [quality, if_pos (lowerOnly_iff.mp h)]

theorem quality_of_not_lowerOnly (h : ¬c.LowerOnly) : c.quality = String.ofList c.suffix := by
  rw [quality, if_neg (mt lowerOnly_iff.mpr h)]

/-- A text is a chord symbol exactly if it follows the grammar, apart from blanks around it, and it is read
as the parts that the grammar gives it. Degree and quality are read as themselves, put together or as the
degree alone. -/
theorem read_by_grammar (s : String) :
    ((∃ c, read? s = some c) ↔ '\n' ∉ core s ∧
      ∃ (accidental letters suffix : List Char) (n : Numeral), core s = accidental ++ (letters ++ suffix) ∧
        (accidental = [] ∨ ∃ x ∈ ['b', 'B', '#'], accidental = [x]) ∧ n.SpelledBy letters) ∧
    ∀ c, (read? s = some c ↔ c.PartsOf (core s)) ∧ (read? s = some c →
      (c.LowerOnly → c.quality = String.ofList ('m' :: c.suffix)) ∧
      (¬c.LowerOnly → c.quality = String.ofList c.suffix) ∧
      (∃ d, read? (c.degree ++ c.quality) = some d ∧ d.degree = c.degree ∧ d.quality = c.quality) ∧
      ∃ d, read? c.degree = some d ∧ d.degree = c.degree ∧ d.quality = "") := by
  refine ⟨?_, fun c => ⟨read?_eq_some_iff, fun h =>
    ⟨quality_of_lowerOnly, quality_of_not_lowerOnly, ?_, ?_⟩⟩⟩
  · rw [← exists_partsOf_iff]
    exact exists_congr fun c => read?_eq_some_iff
  · exact ⟨c.normal, read?_normal h, degree_normal c, quality_normal (spelled_of_read? h)⟩
  · exact ⟨c.bare, read?_degree h, degree_bare c, quality_bare (spelled_of_read? h)⟩

/-- A numeral in lower case with a dotless letter, before a suffix that starts like a numeral. -/
theorem lowered_fourth_read :
    read? " #ıvi\n" = some ⟨['#'], .four, ['ı', 'v'], ['i']⟩ ∧
      (∃ d, read? "#IVmi" = some d ∧ d.degree = "#IV" ∧ d.quality = "mi") ∧
      ∃ d, read? "#IV" = some d ∧ d.degree = "#IV" ∧ d.quality = "" := by
  have read : read? " #ıvi\n" = some ⟨['#'], .four, ['ı', 'v'], ['i']⟩ := by decide
  exact ⟨read, (((read_by_grammar " #ıvi\n").2 _).2 read).2.2⟩

end ChordSymbol

end Ostinato
