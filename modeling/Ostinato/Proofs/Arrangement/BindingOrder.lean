import Mathlib.Data.List.Pairwise
import Ostinato.Proofs.Arrangement.Arbitration
import Ostinato.Proofs.BindingSet

/-!
# Order of binding

What an arrangement keeps when the same rules are bound in another order. Every candidate stays one, and
whether it wins is decided by all candidates together; only notes of equally specific rules that start
on one beat may change places.
-/

namespace Ostinato

open Success

variable {c : Catalog} {t : Timeline} {part : Part}

/-! ### Permuted candidates -/

namespace Roster

theorem engaged_eq_filterMap (os : List (Except Omission Engagement)) :
    engaged os = os.filterMap fun | .ok e => some e | .error _ => none := by
  induction os with
  | nil => rfl
  | cons o os ih => cases o <;> simp [engaged, ih]

theorem omitted_eq_filterMap (os : List (Except Omission Engagement)) :
    omitted os = os.filterMap fun | .ok _ => none | .error o => some o := by
  induction os with
  | nil => rfl
  | cons o os ih => cases o <;> simp [omitted, ih]

theorem engaged_perm {os os' : List (Except Omission Engagement)} (perm : os.Perm os') :
    (engaged os).Perm (engaged os') := by
  rw [engaged_eq_filterMap, engaged_eq_filterMap]
  exact perm.filterMap _

theorem omitted_perm {os os' : List (Except Omission Engagement)} (perm : os.Perm os') :
    (omitted os).Perm (omitted os') := by
  rw [omitted_eq_filterMap, omitted_eq_filterMap]
  exact perm.filterMap _

end Roster

theorem Candidate.ofEngagements_perm {es es' : List Engagement} {cs : List Candidate}
    (perm : es.Perm es') (h : ofEngagements t es = .ok cs) :
    ∃ cs', ofEngagements t es' = .ok cs' ∧ cs'.Perm cs := by
  obtain ⟨css, hcss, rfl⟩ := ofEngagements_eq_ok.mp h
  obtain ⟨css', hcss', same⟩ := mapM_perm (perm.flatMap_right _) hcss
  exact ⟨_, ofEngagements_eq_ok.mpr ⟨css', hcss', rfl⟩, same.flatten⟩

theorem Candidate.wins_congr {all all' : List Candidate} (perm : all.Perm all') (d : Candidate) :
    d.wins all = d.wins all' := by
  rw [Bool.eq_iff_iff, wins_iff, wins_iff]
  simp only [perm.mem_iff]

theorem winningNotes_perm {cs cs' : List Candidate} {notes : List NoteEvent} (perm : cs.Perm cs')
    (h : winningNotes t part cs = .ok notes) :
    ∃ notes', winningNotes t part cs' = .ok notes' ∧ notes'.Perm notes := by
  have winners : (cs.filter (Candidate.wins cs)).Perm (cs'.filter (Candidate.wins cs')) := by
    rw [List.filter_congr fun d _ => Candidate.wins_congr perm d]
    exact perm.filter _
  exact mapM_perm winners h

/-! ### Voices -/

def Engagement.Tied (e f : Engagement) : Prop :=
  e.span.specificity = f.span.specificity ∧ e.span.startBeat = f.span.startBeat

theorem Engagement.tied_of_notAfter {e f : Engagement} (hef : e.notAfter f = true)
    (hfe : f.notAfter e = true) : e.Tied f := by
  rw [notAfter_iff] at hef hfe
  exact ⟨by omega, by omega⟩

def Roster.Untied (c : Catalog) (t : Timeline) (partId : String) (rules : List AppliedRule) : Prop :=
  ∃ outcomes, (rules.filter (·.appliesTo partId)).mapM (Engagement.make c t) = .ok outcomes ∧
    (engaged outcomes).Pairwise fun e f => ¬ e.Tied f

theorem mergeSort_engagements_of_untied {es es' : List Engagement} (perm : es.Perm es')
    (untied : es.Pairwise fun e f => ¬ e.Tied f) :
    es.mergeSort Engagement.notAfter = es'.mergeSort Engagement.notAfter := by
  refine (stablySorted_engagements es).unique (stablySorted_engagements es') perm
    fun e he f hf hef hfe => ?_
  have symm : Std.Symm fun e f : Engagement => ¬ e.Tied f :=
    ⟨fun e f h tied => h ⟨tied.1.symm, tied.2.symm⟩⟩
  by_contra different
  exact untied.forall he hf different (Engagement.tied_of_notAfter hef hfe)

/-- Two voices of one part with the same notes on every beat, whatever the order of those notes is. -/
structure Voice.SameBeats (v w : Voice) : Prop where
  part : v.part = w.part
  notes : v.notes.Perm w.notes
  beats : v.notes.map (·.startBeat) = w.notes.map (·.startBeat)

theorem NoteEvent.map_startBeat_mergeSort {notes notes' : List NoteEvent} (perm : notes.Perm notes')
    (placed : ∀ n ∈ notes, IsStartBeat n.startBeat) :
    (notes.mergeSort notAfter).map (·.startBeat) = (notes'.mergeSort notAfter).map (·.startBeat) := by
  have sorted := stablySorted_mergeSort notes
  have sorted' := stablySorted_mergeSort notes'
  have same := sorted.perm.trans (perm.trans sorted'.perm.symm)
  have inOrder (l : List NoteEvent) : ((l.mergeSort notAfter).map (·.startBeat)).Pairwise
      fun x y => x.notAfter y = true := List.pairwise_map.mpr (stablySorted_mergeSort l).inOrder
  refine (same.map (·.startBeat)).eq_of_pairwise (fun x y hx hy hxy hyx => ?_) (inOrder notes)
    (inOrder notes')
  obtain ⟨m, hm, rfl⟩ := List.mem_map.mp hx
  obtain ⟨n, hn, rfl⟩ := List.mem_map.mp hy
  have hm' := placed m (sorted.perm.mem_iff.mp hm)
  have hn' := placed n (perm.mem_iff.mpr (sorted'.perm.mem_iff.mp hn))
  exact hm'.eq_of_notAfter hn' hxy hyx

variable {rules rules' : List AppliedRule}

theorem Voice.make_perm {v : Voice} {omissions : List Omission} (perm : rules.Perm rules')
    (h : Voice.make c t rules part = .ok (v, omissions)) :
    ∃ w omissions', Voice.make c t rules' part = .ok (w, omissions') ∧ v.SameBeats w ∧
      omissions.Perm omissions' ∧ (Roster.Untied c t v.part.id rules → v.notes = w.notes) := by
  obtain ⟨outcomes, cs, notes, houtcomes, hcs, hnotes, rfl, rfl⟩ := Voice.make_eq_ok.mp h
  obtain ⟨outcomes', houtcomes', same⟩ := mapM_perm (perm.filter (·.appliesTo part.id)) houtcomes
  have engaged := Roster.engaged_perm same
  have order := (stablySorted_engagements (Roster.engaged outcomes)).perm.trans
    (engaged.symm.trans (stablySorted_engagements (Roster.engaged outcomes')).perm.symm)
  obtain ⟨cs', hcs', sameCandidates⟩ := Candidate.ofEngagements_perm order hcs
  obtain ⟨notes', hnotes', sameNotes⟩ := winningNotes_perm sameCandidates.symm hnotes
  refine ⟨_, _, Voice.make_eq_ok.mpr ⟨outcomes', cs', notes', houtcomes', hcs', hnotes', rfl, rfl⟩,
    ⟨rfl, ?_, ?_⟩, (Roster.omitted_perm same).symm, ?_⟩
  · exact (List.mergeSort_perm _ _).trans (sameNotes.symm.trans (List.mergeSort_perm _ _).symm)
  · exact NoteEvent.map_startBeat_mergeSort sameNotes.symm
      fun n hn => isStartBeat_of_winningNotes hcs hnotes hn
  · -- without ties there is one order of the engagements, and all that follows is the same
    rintro ⟨outcomes₁, houtcomes₁, untied⟩
    obtain rfl : outcomes = outcomes₁ := Except.ok.inj (houtcomes.symm.trans houtcomes₁)
    rw [mergeSort_engagements_of_untied engaged.symm untied, hcs'] at hcs
    obtain rfl := Except.ok.inj hcs
    obtain rfl := Except.ok.inj (hnotes.symm.trans hnotes')
    rfl

/-! ### Arrangements -/

theorem nodup_eraseDups {α : Type} [DecidableEq α] : ∀ l : List α, l.eraseDups.Nodup
  | [] => List.nodup_nil
  | a :: l => by
    rw [List.eraseDups_cons, List.nodup_cons, List.mem_eraseDups]
    exact ⟨fun h => by simpa using (List.mem_filter.mp h).2, nodup_eraseDups _⟩
termination_by l => l.length
decreasing_by
  rw [List.length_cons, Nat.lt_succ_iff]
  exact List.length_filter_le _ l

/-- Two arrangements whose voices may only differ in the order of notes of tied rules, with the same
messages. -/
structure Arrangement.Agree (c : Catalog) (rules : List AppliedRule) (a b : Arrangement) : Prop where
  voices : List.Forall₂ (fun v w => v.SameBeats w ∧
    (Roster.Untied c a.timeline v.part.id rules → v.notes = w.notes)) a.voices b.voices
  messages : a.diagnostics.Perm b.diagnostics
  once : a.diagnostics.Nodup

variable {p : Progression} {parts : List Part} {a b : Arrangement}

theorem messages_perm {omissions omissions' : List Omission} (perm : omissions.Perm omissions') :
    (omissions.map Omission.message).eraseDups.Perm (omissions'.map Omission.message).eraseDups := by
  refine (List.perm_ext_iff_of_nodup (nodup_eraseDups _) (nodup_eraseDups _)).mpr fun m => ?_
  simp only [List.mem_eraseDups, List.mem_map, perm.mem_iff]

theorem Arrangement.agree_of_perm (distinct : (rules.map AppliedRule.key).Nodup)
    (perm : rules.Perm rules') (h : make p parts rules c = .ok a) :
    ∃ b, make p parts rules' c = .ok b ∧ a.Agree c rules b := by
  obtain ⟨results, hresults, rfl⟩ := make_eq_ok.mp h
  have distinct' : (rules'.map AppliedRule.key).Nodup := (perm.map _).nodup_iff.mp distinct
  rw [BindingSet.toList_ofList_of_nodup distinct] at hresults
  obtain ⟨results', hresults', related⟩ := mapM_rel (R := fun r s => r.1.SameBeats s.1 ∧ r.2.Perm s.2 ∧
      (Roster.Untied c (.ofProgression p) r.1.part.id rules → r.1.notes = s.1.notes))
    (fun part r hr => by
      obtain ⟨w, omissions', hw, same⟩ := Voice.make_perm perm hr
      exact ⟨⟨w, omissions'⟩, hw, same⟩) hresults
  refine ⟨_, make_eq_ok.mpr ⟨results', ?_, rfl⟩, ?_, messages_perm ?_, nodup_eraseDups _⟩
  · rwa [BindingSet.toList_ofList_of_nodup distinct']
  · rw [List.forall₂_map_left_iff, List.forall₂_map_right_iff]
    exact related.imp fun r s same => ⟨same.1, same.2.2⟩
  · rw [List.flatMap_def, List.flatMap_def]
    refine List.Perm.flatten_congr ?_
    rw [List.forall₂_map_left_iff, List.forall₂_map_right_iff]
    exact related.imp fun r s same => same.2.1

/-- The order in which rules are bound to different places does not matter: it decides neither whether
there is an arrangement, nor its messages, nor the notes of any beat, and without ties among the rules
of a part not even the order of its notes. -/
theorem Arrangement.binding_order_irrelevant (distinct : (rules.map AppliedRule.key).Nodup)
    (perm : rules.Perm rules') :
    ((∃ a, make p parts rules c = .ok a) ↔ ∃ b, make p parts rules' c = .ok b) ∧
    ∀ a b, make p parts rules c = .ok a → make p parts rules' c = .ok b → a.Agree c rules b := by
  have distinct' : (rules'.map AppliedRule.key).Nodup := (perm.map _).nodup_iff.mp distinct
  refine ⟨⟨?_, ?_⟩, fun a b ha hb => ?_⟩
  · rintro ⟨a, ha⟩
    obtain ⟨b, hb, -⟩ := agree_of_perm distinct perm ha
    exact ⟨b, hb⟩
  · rintro ⟨b, hb⟩
    obtain ⟨a, ha, -⟩ := agree_of_perm distinct' perm.symm hb
    exact ⟨a, ha⟩
  · obtain ⟨b', hb', agree⟩ := agree_of_perm distinct perm ha
    obtain rfl : b = b' := Except.ok.inj (hb.symm.trans hb')
    exact agree

theorem Arrangement.leap_binding_order :
    ([lowLeap, highLeap].map AppliedRule.key).Nodup ∧ [lowLeap, highLeap].Perm [highLeap, lowLeap] ∧
    make threeBars [bassPart] [lowLeap, highLeap] leapCatalog = .ok leapArrangement ∧
    ∃ b, make threeBars [bassPart] [highLeap, lowLeap] leapCatalog = .ok b ∧
      leapArrangement.Agree leapCatalog [lowLeap, highLeap] b := by
  have distinct : ([lowLeap, highLeap].map AppliedRule.key).Nodup := by decide
  have perm : [lowLeap, highLeap].Perm [highLeap, lowLeap] := .swap _ _ _
  obtain ⟨both, agree⟩ := binding_order_irrelevant distinct perm
  obtain ⟨b, hb⟩ := both.mp ⟨leapArrangement, make_leap⟩
  exact ⟨distinct, perm, make_leap, b, hb, agree leapArrangement b make_leap hb⟩

end Ostinato
