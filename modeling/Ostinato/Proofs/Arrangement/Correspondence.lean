import Ostinato.Proofs.Arrangement.WalkNotes

/-!
# Corresponding arrangements

Two runs over two timelines correspond if their rules, engagements, candidates and notes do, layer by
layer. What each layer has to keep is little: who a rule applies to, how engagements compare, which
candidates share a beat and how specific they are. The rest of the program keeps the correspondence.
-/

namespace Ostinato

open Success

/-- Outcomes that engage alike, or are left out with the same message. -/
inductive Engagement.OutcomesAlike (alike : Engagement → Engagement → Prop) :
    Except Omission Engagement → Except Omission Engagement → Prop
  | engaged {e e' : Engagement} (related : alike e e') : OutcomesAlike alike (.ok e) (.ok e')
  | omitted {o o' : Omission} (told : o'.message = o.message) :
      OutcomesAlike alike (.error o) (.error o')

/-- Relations between the layers of two runs, and what they have to keep. -/
structure Correspondence (c : Catalog) (t t' : Timeline) where
  rule : AppliedRule → AppliedRule → Prop
  engagement : Engagement → Engagement → Prop
  candidate : Candidate → Candidate → Prop
  note : NoteEvent → NoteEvent → Prop
  applies : ∀ r r', rule r r' → ∀ partId, r.appliesTo partId = r'.appliesTo partId
  outcome : ∀ r r' o, rule r r' → Engagement.make c t r = .ok o →
    ∃ o', Engagement.make c t' r' = .ok o' ∧ Engagement.OutcomesAlike engagement o o'
  order : ∀ e f e' f', engagement e e' → engagement f f' → e.notAfter f = e'.notAfter f'
  performances : ∀ e e', engagement e e' → List.Forall₂ (fun q q' =>
    ∀ ds, Candidate.ofPerformance q = .ok ds →
      ∃ ds', Candidate.ofPerformance q' = .ok ds' ∧ List.Forall₂ candidate ds ds')
    (e.performances t) (e'.performances t')
  rank : ∀ d d', candidate d d' → d.specificity = d'.specificity
  beat : ∀ d e d' e', candidate d d' → candidate e e' → (d.beat = e.beat ↔ d'.beat = e'.beat)
  sound : ∀ d d' part n, candidate d d' → d.note t part = .ok n →
    ∃ n', d'.note t' part = .ok n' ∧ note n n'
  noteOrder : ∀ m n m' n', note m m' → note n n' → m.notAfter n = m'.notAfter n'

namespace Correspondence

variable {c : Catalog} {t t' : Timeline} (k : Correspondence c t t')

/-! ### Rosters -/

theorem rosters {outcomes outcomes' : List (Except Omission Engagement)}
    (h : List.Forall₂ (Engagement.OutcomesAlike k.engagement) outcomes outcomes') :
    List.Forall₂ k.engagement (Roster.engaged outcomes) (Roster.engaged outcomes') ∧
      (Roster.omitted outcomes').map Omission.message = (Roster.omitted outcomes).map Omission.message := by
  induction h with
  | nil => exact ⟨.nil, rfl⟩
  | cons first _ ih =>
    cases first with
    | engaged related => exact ⟨.cons related ih.1, ih.2⟩
    | omitted told =>
      refine ⟨ih.1, ?_⟩
      simp only [Roster.omitted, List.map_cons, told, ih.2]

theorem heard {rules rules' : List AppliedRule} (h : List.Forall₂ k.rule rules rules') (partId : String) :
    List.Forall₂ k.rule (rules.filter (·.appliesTo partId)) (rules'.filter (·.appliesTo partId)) := by
  refine List.rel_filter (fun r r' related => ?_) h
  exact iff_of_eq (congrArg (· = true) (k.applies r r' related partId))

/-! ### Candidates -/

theorem candidates {es es' : List Engagement} {ds : List Candidate} (h : List.Forall₂ k.engagement es es')
    (hds : Candidate.ofEngagements t es = .ok ds) :
    ∃ ds', Candidate.ofEngagements t' es' = .ok ds' ∧ List.Forall₂ k.candidate ds ds' := by
  obtain ⟨css, hcss, rfl⟩ := Candidate.ofEngagements_eq_ok.mp hds
  have played := List.rel_flatMap h fun e e' related => k.performances e e' related
  obtain ⟨css', hcss', related⟩ := mapM_rel₂ (fun q q' ds step hq => step ds hq) played hcss
  exact ⟨_, Candidate.ofEngagements_eq_ok.mpr ⟨css', hcss', rfl⟩, List.rel_flatten related⟩

theorem wins_iff {ds ds' : List Candidate} (h : List.Forall₂ k.candidate ds ds') {d d' : Candidate}
    (hd : k.candidate d d') : d.wins ds = true ↔ d'.wins ds' = true := by
  rw [Candidate.wins_iff, Candidate.wins_iff]
  induction h with
  | nil => simp
  | cons first _ ih =>
    rw [List.forall_mem_cons, List.forall_mem_cons, ih, k.beat _ _ _ _ first hd, k.rank _ _ first,
      k.rank _ _ hd]

theorem winningNotes {ds ds' : List Candidate} {part : Part} {notes : List NoteEvent}
    (h : List.Forall₂ k.candidate ds ds') (hnotes : winningNotes t part ds = .ok notes) :
    ∃ notes', Ostinato.winningNotes t' part ds' = .ok notes' ∧ List.Forall₂ k.note notes notes' := by
  have winners : List.Forall₂ k.candidate (ds.filter (Candidate.wins ds)) (ds'.filter (Candidate.wins ds')) :=
    List.rel_filter (fun d d' related => k.wins_iff h related) h
  exact mapM_rel₂ (fun d d' n related hn => k.sound d d' part n related hn) winners hnotes

/-! ### Voices and arrangements -/

/-- Voices of one part whose notes correspond one by one. -/
structure VoicesAlike (v v' : Voice) : Prop where
  part : v.part = v'.part
  notes : List.Forall₂ k.note v.notes v'.notes

theorem voice {rules rules' : List AppliedRule} {part : Part} {v : Voice} {omissions : List Omission}
    (hrules : List.Forall₂ k.rule rules rules') (h : Voice.make c t rules part = .ok (v, omissions)) :
    ∃ v' omissions', Voice.make c t' rules' part = .ok (v', omissions') ∧ k.VoicesAlike v v' ∧
      omissions'.map Omission.message = omissions.map Omission.message := by
  obtain ⟨outcomes, ds, notes, houtcomes, hds, hnotes, rfl, rfl⟩ := Voice.make_eq_ok.mp h
  obtain ⟨outcomes', houtcomes', alike⟩ := mapM_rel₂
    (fun r r' o related ho => k.outcome r r' o related ho) (k.heard hrules part.id) houtcomes
  obtain ⟨engaged, told⟩ := k.rosters alike
  obtain ⟨ds', hds', related⟩ := k.candidates (forall₂_mergeSort engaged k.order) hds
  obtain ⟨notes', hnotes', sounding⟩ := k.winningNotes related hnotes
  exact ⟨_, _, Voice.make_eq_ok.mpr ⟨outcomes', ds', notes', houtcomes', hds', hnotes', rfl, rfl⟩,
    ⟨rfl, forall₂_mergeSort sounding k.noteOrder⟩, told⟩

theorem messages {results results' : List (Voice × List Omission)} (h : List.Forall₂ (fun x x' =>
      k.VoicesAlike x.1 x'.1 ∧ x'.2.map Omission.message = x.2.map Omission.message) results results') :
    (results'.flatMap (·.2)).map Omission.message = (results.flatMap (·.2)).map Omission.message := by
  induction h with
  | nil => rfl
  | cons first _ ih => simp only [List.flatMap_cons, List.map_append, first.2, ih]

end Correspondence

/-- Where rules correspond, so do the voices that are made from them, and the messages are the same. -/
theorem Arrangement.make_of_correspondence {c : Catalog} {p p' : Progression} {parts : List Part}
    {rules rules' : List AppliedRule} {a : Arrangement}
    (k : Correspondence c (.ofProgression p) (.ofProgression p'))
    (hrules : List.Forall₂ k.rule (BindingSet.ofList rules).toList (BindingSet.ofList rules').toList)
    (h : make p parts rules c = .ok a) :
    ∃ b, make p' parts rules' c = .ok b ∧ List.Forall₂ k.VoicesAlike a.voices b.voices ∧
      b.diagnostics = a.diagnostics := by
  obtain ⟨results, hresults, rfl⟩ := make_eq_ok.mp h
  obtain ⟨results', hresults', alike⟩ := mapM_rel (R := fun x x' => k.VoicesAlike x.1 x'.1 ∧
      x'.2.map Omission.message = x.2.map Omission.message)
    (fun part x hx => by
      obtain ⟨v', omissions', hv', related, told⟩ := k.voice hrules hx
      exact ⟨⟨v', omissions'⟩, hv', related, told⟩) hresults
  refine ⟨_, make_eq_ok.mpr ⟨results', hresults', rfl⟩, ?_, ?_⟩
  · rw [List.forall₂_map_left_iff, List.forall₂_map_right_iff]
    exact alike.imp fun _ _ h => h.1
  · simp only [k.messages alike]

/-! ### A walk between held roots -/

def paceRule : RichRule :=
  walkRule "pace" ⟨4, four_beats_pos⟩ [⟨⟨1, first_in_bar⟩, 0, .startAnchor, none, none⟩,
    ⟨⟨2, second_in_bar⟩, 0, .walkStep, some 1, none⟩, ⟨⟨3, third_in_bar⟩, 0, .walkStep, some 2, none⟩,
    ⟨⟨4, fourth_in_bar⟩, 0, .approachTone, none, none⟩]

def pace : AppliedRule := ⟨"pace", .bar 1, none, some "low", none⟩

def groundCatalog : Catalog := { Catalog.empty with richRules := [holdRule, paceRule], riffs := [hold] }

def groundRules : List AppliedRule := [holdEverywhere.on (.bar 0), pace, holdEverywhere.on .lastChord]

def heldFirst : Engagement := ⟨holdEverywhere.on (.bar 0), holdRule, .riff hold, ⟨4, 1, 4, 0, 1⟩⟩

def paceOver : Engagement := ⟨pace, paceRule, .walk, ⟨4, 5, 8, 1, 2⟩⟩

def heldLast : Engagement := ⟨holdEverywhere.on .lastChord, holdRule, .riff hold, ⟨1, 9, 12, 2, 2⟩⟩

def groundNotes : List NoteEvent :=
  [heldRoot "I" 1, heldRoot "IV" 5, heldRoot "IV+1" 6, heldRoot "IV+1" 7, heldRoot "IV+1" 8, heldRoot "V" 9]

theorem forall_engagements_ground {P : Engagement → Prop} (first : P heldFirst) (walk : P paceOver)
    (last : P heldLast) :
    ∀ r ∈ groundRules, ∀ e, Engagement.make groundCatalog (.ofProgression threeBars) r = .ok (.ok e) →
      P e := by
  intro r hr e made
  rcases List.mem_cons.mp hr with rfl | hr
  · rwa [← Except.ok.inj (Except.ok.inj (show Except.ok (Except.ok heldFirst) = _ from made))]
  rcases List.mem_cons.mp hr with rfl | hr
  · rwa [← Except.ok.inj (Except.ok.inj (show Except.ok (Except.ok paceOver) = _ from made))]
  · obtain rfl := List.mem_singleton.mp hr
    rwa [← Except.ok.inj (Except.ok.inj (show Except.ok (Except.ok heldLast) = _ from made))]

theorem roster_ground : Roster.make groundCatalog (.ofProgression threeBars) bassPart.id groundRules =
    .ok ⟨[heldFirst, paceOver, heldLast], []⟩ := by
  refine Roster.make_eq_ok.mpr ⟨[.ok heldFirst, .ok paceOver, .ok heldLast], rfl, ?_⟩
  rw [Roster.engaged, Roster.engaged, Roster.engaged, Roster.engaged,
    List.mergeSort_of_pairwise (by decide)]
  rfl

theorem make_ground : Arrangement.make threeBars [bassPart] groundRules groundCatalog =
    .ok ⟨.ofProgression threeBars, [⟨bassPart, groundNotes⟩], []⟩ := by
  have voice : Voice.make groundCatalog (.ofProgression threeBars) groundRules bassPart =
      .ok (⟨bassPart, groundNotes⟩, []) :=
    Voice.make_of_notes roster_ground (ok_of_toOption (by decide +kernel)) (by decide +kernel)
  exact Arrangement.make_eq_ok.mpr ⟨_, mapM_eq_ok.mpr (.cons voice .nil), rfl⟩

end Ostinato
