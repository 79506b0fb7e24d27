import Mathlib.Data.List.Nodup
import Mathlib.Tactic.SplitIfs
import Ostinato.Catalog.Bundled
import Ostinato.Proofs.Record.Rereading
import Ostinato.Proofs.Success

/-!
# Keyed tables

Entries are put into a table one after another, each in the place of the one with its id. However a catalog
is built, each of its tables has one entry for an id, and the id of a riff has at least one character.
-/

namespace Ostinato

open Success

/-! ### Ids that are read -/

theorem Riff.id_ne_empty_of_read {d : Datum} {riff : Riff} (h : Riff.read d = .ok riff) : riff.id ≠ "" := by
  simp only [Riff.read, Checked.seq_eq, Checked.map_eq, Checked.apply_eq_ok, Checked.map_eq_ok] at h
  obtain ⟨_, _, ⟨_, _, ⟨_, _, ⟨id, named, rfl⟩, -, rfl⟩, -, rfl⟩, -, rfl⟩ := h
  obtain ⟨_, read⟩ := Field.decode_of_required named
  exact Codec.ne_empty_of_name read

namespace Catalog

variable {α : Type} {idOf : α → String} {table entries : List α} {entry a : α}

theorem id_ne_empty_of_readKeyedRow {row : Datum} {riff : Riff}
    (h : readKeyedRow Riff.codec Riff.title row = .ok riff) : riff.id ≠ "" := by
  unfold readKeyedRow readRow at h
  split_ifs at h
  have read := Checked.orReject_eq_ok.mp (Failure.ofRecord_eq_ok.mp h)
  cases row with
  | map entries => exact Riff.id_ne_empty_of_read read
  | _ => cases read

/-! ### Entries that are put -/

/-- A new id comes last, and the ids stay as they are otherwise. -/
theorem map_put (idOf : α → String) (table : List α) (entry : α) :
    (put idOf table entry).map idOf =
      if idOf entry ∈ table.map idOf then table.map idOf else table.map idOf ++ [idOf entry] := by
  have known : (table.any fun a => idOf a == idOf entry) = true ↔ idOf entry ∈ table.map idOf := by
    simp
  simp only [put, known]
  split_ifs
  · rw [List.map_map]
    refine List.map_congr_left fun a _ => ?_
    rw [Function.comp_apply]
    split_ifs with same
    · exact (beq_iff_eq.mp same).symm
    · rfl
  · rw [List.map_append, List.map_singleton]

theorem nodup_put (distinct : (table.map idOf).Nodup) (entry : α) :
    ((put idOf table entry).map idOf).Nodup := by
  rw [map_put]
  split_ifs with known
  · exact distinct
  · rw [← List.concat_eq_append]
    exact distinct.concat known

theorem mem_of_mem_put (h : a ∈ put idOf table entry) : a = entry ∨ a ∈ table := by
  unfold put at h
  split_ifs at h
  · obtain ⟨b, member, rfl⟩ := List.mem_map.mp h
    split_ifs
    · exact .inl rfl
    · exact .inr member
  · rcases List.mem_append.mp h with member | last
    · exact .inr member
    · exact .inl (List.mem_singleton.mp last)

theorem nodup_foldl_put (distinct : (table.map idOf).Nodup) (entries : List α) :
    ((entries.foldl (put idOf) table).map idOf).Nodup := by
  induction entries generalizing table with
  | nil => exact distinct
  | cons entry entries ih => exact ih (nodup_put distinct entry)

theorem mem_of_mem_foldl_put (h : a ∈ entries.foldl (put idOf) table) : a ∈ entries ∨ a ∈ table := by
  induction entries generalizing table with
  | nil => exact .inr h
  | cons entry entries ih =>
    rcases ih h with later | earlier
    · exact .inl (List.mem_cons_of_mem entry later)
    · rcases mem_of_mem_put earlier with rfl | member
      · exact .inl List.mem_cons_self
      · exact .inr member

/-! ### Lookup -/

theorem mem_of_withId? {id : String} (h : withId? idOf table id = some a) : a ∈ table ∧ idOf a = id := by
  unfold withId? at h
  exact ⟨List.mem_of_find?_eq_some h, by simpa using List.find?_some h⟩

theorem withId?_of_mem (distinct : (table.map idOf).Nodup) (member : a ∈ table) :
    withId? idOf table (idOf a) = some a := by
  have known : (withId? idOf table (idOf a)).isSome :=
    List.find?_isSome.mpr ⟨a, member, beq_self_eq_true _⟩
  obtain ⟨b, found⟩ := Option.isSome_iff_exists.mp known
  obtain ⟨member', same⟩ := mem_of_withId? found
  rw [found, List.inj_on_of_nodup_map distinct member' member same]

/-! ### Catalogs that are built -/

/-- Whether rich rules have ids of their own, and no riff has the empty id. -/
structure Keyed (c : Catalog) : Prop where
  distinct : (c.richRules.map RichRule.id).Nodup
  named : ∀ riff ∈ c.riffs, riff.id ≠ ""

theorem Keyed.extend {c c' : Catalog} (keyed : c.Keyed) {rows : Rows} (h : c.extend rows = .ok c') :
    c'.Keyed := by
  simp only [Catalog.extend, bind_eq_ok, pure_eq_ok] at h
  obtain ⟨_, -, _, -, _, -, richRules, -, riffs, read, _, -, _, -, rfl⟩ := h
  refine ⟨nodup_foldl_put keyed.distinct richRules, fun riff member => ?_⟩
  rcases mem_of_mem_foldl_put member with new | old
  · obtain ⟨row, -, made⟩ := exists_of_mem_mapM read new
    exact id_ne_empty_of_readKeyedRow made
  · exact keyed.named riff old

/-- Whether a catalog comes from rows, with the bundled entries before them or without. -/
def IsBuilt (c : Catalog) : Prop :=
  ∃ base rows, (base = empty ∨ base = bundled) ∧ extend base rows = .ok c

theorem keyed_empty : empty.Keyed := ⟨List.nodup_nil, fun _ member => absurd member List.not_mem_nil⟩

theorem keyed_bundled : bundled.Keyed := ⟨by decide +kernel, by decide +kernel⟩

theorem IsBuilt.keyed {c : Catalog} (built : c.IsBuilt) : c.Keyed := by
  obtain ⟨base, rows, rfl | rfl, made⟩ := built
  · exact keyed_empty.extend made
  · exact keyed_bundled.extend made

def noRows : Rows := ⟨[], [], [], [], [], [], []⟩

theorem extend_noRows (c : Catalog) : c.extend noRows = .ok c := by
  simp only [extend, noRows, List.mapM_nil, bind_eq_ok, pure_eq_ok, List.foldl_nil, List.append_nil,
    exists_eq_left']

theorem isBuilt_bundled : bundled.IsBuilt := ⟨bundled, noRows, .inr rfl, extend_noRows bundled⟩

end Catalog

end Ostinato
