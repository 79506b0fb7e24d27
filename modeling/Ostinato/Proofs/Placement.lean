import Ostinato.Proofs.Number.Sum
import Ostinato.Proofs.Success
import Ostinato.Riff

/-!
# Placed events

Where the events of a riff fall: the riff starts on a whole beat, an event is at beat one of the riff or
later, so a placed event is never before the beat that the riff starts from, and it has a place in order.
-/

namespace Ostinato

open Binary64 Rounding Success

theorem RiffEvent.place_eq_ok {e : RiffEvent} {start : Amount} {placed : PlacedEvent} :
    e.place start = .ok placed ↔ ∃ first, start.toReal = .ok first ∧
      placed = ⟨(first.add e.startBeat.val).sub (finite 1), e.duration.val, e.pitchRef,
        givenOr usualOctaveStrategy e.octaveStrategy⟩ := by
  rw [RiffEvent.place, map_eq_ok]
  exact exists_congr fun _ => and_congr_right fun _ => eq_comm

/-- A beat that an event is placed on: infinite, or the rounded number of beats from one on. -/
structure IsStartBeat (x : Binary64) : Prop where
  ne_nan : x ≠ nan
  ne_negativeZero : x ≠ negativeZero
  onGrid : ∀ q, x.toRat? = some q → 0 < q → OnGrid q ∧ q < overflowBound

theorem isStartBeat_of_place {e : RiffEvent} {start : Nat} {placed : PlacedEvent}
    (h : e.place (.whole start) = .ok placed) : IsStartBeat placed.startBeat := by
  obtain ⟨first, hfirst, rfl⟩ := RiffEvent.place_eq_ok.mp h
  obtain ⟨p, hp, rfl⟩ := ofInt?_natCast hfirst
  rcases sub_one_of_atLeastInt (atLeastInt_add hp e.startBeat.property) with far | ⟨q, hq, near⟩
  · rw [far]
    exact ⟨by simp, by simp, fun q hq => by cases hq⟩
  · rw [near]
    exact ⟨ofRat_ne_nan q, ofRat_ne_negativeZero hq, fun r hr hr' => onGrid_of_toRat?_ofRat hr hr'⟩

theorem IsStartBeat.eq_of_notAfter {x y : Binary64} (hx : IsStartBeat x) (hy : IsStartBeat y)
    (hxy : x.notAfter y = true) (hyx : y.notAfter x = true) : x = y :=
  eq_of_rank_eq hx.ne_negativeZero hy.ne_negativeZero (rank_eq_of_notAfter hxy hyx)

theorem isStartBeat_of_mem_place {r : Riff} {start : Nat} {placed : List PlacedEvent}
    (h : r.place (.whole start) = .ok placed) {e : PlacedEvent} (he : e ∈ placed) :
    IsStartBeat e.startBeat := by
  obtain ⟨event, -, hevent⟩ := exists_of_mem_mapM h he
  exact isStartBeat_of_place hevent

end Ostinato
