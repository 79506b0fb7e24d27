import Mathlib.Logic.Relation
import Ostinato.Proofs.Arrangement.Arbitration
import Ostinato.Proofs.BindingSet

/-!
# Independence of parts

The voice of a part is made from the rules that apply to it and from nothing else: it is the voice of
the part when it plays alone, whatever other parts there are and whatever is bound for them.
-/

namespace Ostinato

open Success

/-! ### Changes to the rules of other parts -/

/-- A change of a set of rules that concerns only rules of other parts. -/
inductive BindingSet.ChangesOthers (partId : String) (s : BindingSet) : BindingSet → Prop
  | bind (a : AppliedRule) (other : a.appliesTo partId = false) :
      ChangesOthers partId s (s.bind a).2
  | unbind (slot : Slot) (owner : String) (other : owner ≠ partId) :
      ChangesOthers partId s (s.unbind slot (some owner)).2
  | removePart (owner : String) (other : owner ≠ partId) :
      ChangesOthers partId s (s.removePart (some owner)).2

theorem BindingSet.ChangesOthers.filter_eq {partId : String} {s s' : BindingSet}
    (h : ChangesOthers partId s s') :
    s'.toList.filter (·.appliesTo partId) = s.toList.filter (·.appliesTo partId) := by
  cases h with
  | bind a other =>
    rw [filter_bind, other]
    rfl
  | unbind slot owner other =>
    refine filter_unbind_of_other s slot ?_
    simp [other]
  | removePart owner other => exact filter_removePart_of_other s other

/-- Any number of such changes, in both directions. -/
theorem BindingSet.filter_eq_of_changes {partId : String} {s s' : BindingSet}
    (h : Relation.EqvGen (ChangesOthers partId) s s') :
    s'.toList.filter (·.appliesTo partId) = s.toList.filter (·.appliesTo partId) := by
  induction h with
  | rel s s' change => exact change.filter_eq
  | refl s => rfl
  | symm s s' _ ih => exact ih.symm
  | trans s s' s'' _ _ ih ih' => exact ih'.trans ih

/-! ### The voice of one part -/

variable {c : Catalog} {t : Timeline} {rules : List AppliedRule} {part : Part}

theorem Roster.make_filter (partId : String) (rules : List AppliedRule) :
    Roster.make c t partId (rules.filter (·.appliesTo partId)) = Roster.make c t partId rules := by
  simp only [make, List.filter_filter, Bool.and_self]

theorem Voice.make_filter (rules : List AppliedRule) (part : Part) :
    Voice.make c t (rules.filter (·.appliesTo part.id)) part = Voice.make c t rules part := by
  rw [make, make, Roster.make_filter]

theorem Voice.make_congr {rules' : List AppliedRule}
    (same : rules'.filter (·.appliesTo part.id) = rules.filter (·.appliesTo part.id)) :
    Voice.make c t (BindingSet.ofList rules').toList part =
      Voice.make c t (BindingSet.ofList rules).toList part := by
  rw [← make_filter (BindingSet.ofList rules').toList, ← make_filter (BindingSet.ofList rules).toList,
    BindingSet.filter_toList_ofList, BindingSet.filter_toList_ofList, same]

variable {p : Progression} {parts : List Part} {a : Arrangement}

theorem Arrangement.made_of_mem (h : make p parts rules c = .ok a) {v : Voice} (hv : v ∈ a.voices) :
    v.part.muted = false ∧ ∃ omissions,
      Voice.make c (.ofProgression p) (BindingSet.ofList rules).toList v.part = .ok (v, omissions) := by
  obtain ⟨results, hresults, rfl⟩ := make_eq_ok.mp h
  obtain ⟨⟨_, omissions⟩, hresult, rfl⟩ := List.mem_map.mp hv
  obtain ⟨part, hpart, made⟩ := exists_of_mem_mapM hresults hresult
  obtain ⟨_, _, _, _, _, _, rfl, -⟩ := Voice.make_eq_ok.mp made
  have heard := (List.mem_filter.mp hpart).2
  exact ⟨by simpa using heard, omissions, made⟩

theorem Arrangement.make_alone {v : Voice} {omissions : List Omission} (heard : v.part.muted = false)
    (h : Voice.make c (.ofProgression p) (BindingSet.ofList rules).toList v.part = .ok (v, omissions)) :
    ∃ alone, make p [v.part] rules c = .ok alone ∧ alone.voices = [v] := by
  have one : [v.part].filter (fun part => !part.muted) = [v.part] := by simp [heard]
  refine ⟨_, make_eq_ok.mpr ⟨[(v, omissions)], ?_, rfl⟩, rfl⟩
  rw [one]
  exact mapM_eq_ok.mpr (.cons h .nil)

/-! ### Independence -/

/-- Each part that is not muted has one voice, in the order of the parts. It is the voice that the part
has alone with the rules that apply to it, and in any other arrangement of parts among which it is, as
long as only rules of other parts are different. -/
theorem Arrangement.parts_independent (h : make p parts rules c = .ok a) :
    a.voices.map (·.part) = parts.filter (fun part => !part.muted) ∧
    ∀ v ∈ a.voices,
      (∃ alone, make p [v.part] (rules.filter (·.appliesTo v.part.id)) c = .ok alone ∧
        alone.voices = [v]) ∧
      (∀ parts' rules' b, make p parts' rules' c = .ok b →
        rules'.filter (·.appliesTo v.part.id) = rules.filter (·.appliesTo v.part.id) →
        ∀ w ∈ b.voices, w.part = v.part → w = v) ∧
      ∀ s s', Relation.EqvGen (BindingSet.ChangesOthers v.part.id) s s' → s.toList = rules →
        ∀ parts' b, make p parts' s'.toList c = .ok b → ∀ w ∈ b.voices, w.part = v.part → w = v := by
  refine ⟨parts_eq h, fun v hv => ?_⟩
  obtain ⟨heard, omissions, made⟩ := made_of_mem h hv
  have unchanged : ∀ parts' rules' b, make p parts' rules' c = .ok b →
      rules'.filter (·.appliesTo v.part.id) = rules.filter (·.appliesTo v.part.id) →
      ∀ w ∈ b.voices, w.part = v.part → w = v := by
    intro parts' rules' b hb same w hw hpart
    obtain ⟨-, omissions', made'⟩ := made_of_mem hb hw
    rw [hpart, Voice.make_congr same, made] at made'
    exact (congrArg Prod.fst (Except.ok.inj made')).symm
  refine ⟨?_, unchanged, ?_⟩
  · have same : (rules.filter (·.appliesTo v.part.id)).filter (·.appliesTo v.part.id) =
        rules.filter (·.appliesTo v.part.id) := by simp only [List.filter_filter, Bool.and_self]
    exact make_alone heard ((Voice.make_congr same).trans made)
  · intro s s' changes hs parts' b hb
    refine unchanged parts' _ b hb ?_
    rw [BindingSet.filter_eq_of_changes changes, hs]

/-! ### A rule of a part that is not there -/

def leadLeap : AppliedRule := { lowLeap with slot := .chord 1, partId := some "lead" }

def silentPart : Part := ⟨"pad", "Pad", true, none⟩

def leapVoice : Voice := ⟨bassPart, [lowRoot 1, lowRoot (17 / 2)]⟩

theorem make_doubled_leap :
    Arrangement.make threeBars [bassPart, silentPart, bassPart] [lowLeap, leadLeap, highLeap] leapCatalog =
      .ok ⟨.ofProgression threeBars, [leapVoice, leapVoice], []⟩ := by
  have bound : (BindingSet.ofList [lowLeap, leadLeap, highLeap]).toList = [lowLeap, leadLeap, highLeap] :=
    BindingSet.toList_ofList_of_nodup (by decide)
  have heard : [lowLeap, leadLeap, highLeap].filter (·.appliesTo bassPart.id) = [lowLeap, highLeap] := rfl
  have voice : Voice.make leapCatalog (.ofProgression threeBars)
      (BindingSet.ofList [lowLeap, leadLeap, highLeap]).toList bassPart = .ok (leapVoice, []) := by
    rw [bound, ← Voice.make_filter, heard]
    exact voice_leap
  exact Arrangement.make_eq_ok.mpr ⟨_, mapM_eq_ok.mpr (.cons voice (.cons voice .nil)), rfl⟩

theorem Arrangement.leap_part_independent :
    make threeBars [bassPart, silentPart, bassPart] [lowLeap, leadLeap, highLeap] leapCatalog =
      .ok ⟨.ofProgression threeBars, [leapVoice, leapVoice], []⟩ ∧
    (∃ alone, make threeBars [bassPart] [lowLeap, highLeap] leapCatalog = .ok alone ∧
      alone.voices = [leapVoice]) ∧
    make threeBars [bassPart] [lowLeap, highLeap] leapCatalog = .ok leapArrangement ∧
    ∀ w ∈ leapArrangement.voices, w.part = bassPart → w = leapVoice := by
  obtain ⟨-, independent⟩ := parts_independent make_doubled_leap
  obtain ⟨alone, -, changed⟩ := independent leapVoice List.mem_cons_self
  have removed : BindingSet.ChangesOthers bassPart.id ⟨[lowLeap, leadLeap, highLeap]⟩ _ :=
    .removePart "lead" (by decide)
  exact ⟨make_doubled_leap, alone, make_leap,
    changed _ _ (.rel _ _ removed) rfl [bassPart] leapArrangement make_leap⟩

end Ostinato
