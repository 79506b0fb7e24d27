import Ostinato.Record.Codec
import Mathlib.Data.List.Forall2

/-!
# Reading what was written

Readers are lenient: a truth value counts as a number, and a number may stand in quotes. What they write
of a value is plain, and it is read as that value again. The law passes from codecs to their combinations
and from fields to records.
-/

namespace Ostinato

/-- A value that passes the checks of its type: what is written of it is read as it. -/
def Codec.Accepts {α : Type} (c : Codec α) (a : α) : Prop := c.decode (c.encode a) = .ok a

/-- Each value that was read is read again from what is written of it. -/
structure Codec.Rereads {α : Type} (c : Codec α) : Prop where
  decode_encode : ∀ d a, c.decode d = .ok a → c.decode (c.encode a) = .ok a

theorem forall_mem_of_forall₂ {α β : Type} {R : α → β → Prop} {P : β → Prop} {as : List α} {bs : List β}
    (h : List.Forall₂ R as bs) (right : ∀ a b, R a b → P b) : ∀ b ∈ bs, P b := by
  induction h with
  | nil => exact List.forall_mem_nil P
  | cons head _ ih => exact List.forall_mem_cons.mpr ⟨right _ _ head, ih⟩

namespace Checked

variable {α β : Type}

theorem bind_eq_ok {a : Checked α} {f : α → Checked β} {b : β} :
    a.bind f = ok b ↔ ∃ x, a = ok x ∧ f x = ok b := by
  cases a <;> simp [bind]

theorem fault_ne_ok {cause : Fault.Cause} {found : Datum} {a : α} : fault cause found ≠ ok a := by
  simp [fault]

theorem sequenceFrom_eq_ok {start : Nat} {cs : List (Checked α)} {as : List α} :
    sequenceFrom start cs = ok as ↔ List.Forall₂ (fun c a => c = ok a) cs as := by
  induction cs generalizing start as with
  | nil =>
    simp only [sequenceFrom, ok.injEq, List.forall₂_nil_left_iff]
    exact eq_comm
  | cons c cs ih =>
    simp only [sequenceFrom, apply_eq_ok, map_eq_ok, under_eq_ok, ih]
    constructor
    · rintro ⟨-, rest, ⟨a, rfl, rfl⟩, hrest, rfl⟩
      exact .cons rfl hrest
    · intro h
      cases h with
      | cons head tail => exact ⟨_, _, ⟨_, head, rfl⟩, tail, rfl⟩

end Checked

namespace Codec

theorem accepts_name {s : String} (h : s ≠ "") : name.Accepts s := if_neg h

theorem ne_empty_of_name {d : Datum} {s : String} (h : name.decode d = .ok s) : s ≠ "" := by
  simp only [name] at h
  split at h
  · split_ifs at h with empty
    · exact absurd h Checked.fault_ne_ok
    · rwa [← Checked.ok.inj h]
  · exact absurd h Checked.fault_ne_ok

theorem accepts_natFrom {least : Nat} (n : { n : Nat // least ≤ n }) : (natFrom least).Accepts n := by
  have within : least ≤ (n.val : Int).toNat ∧ 0 ≤ (n.val : Int) := ⟨n.property, Int.natCast_nonneg _⟩
  exact dif_pos within

theorem accepts_sequence {α : Type} {c : Codec α} {cause : Fault.Cause} {as : List α}
    (h : ∀ a ∈ as, c.Accepts a) : (sequence cause c).Accepts as := by
  simp only [Accepts, sequence]
  rw [Checked.sequenceFrom_eq_ok, List.forall₂_map_left_iff, List.forall₂_map_left_iff, List.forall₂_same]
  exact h

end Codec

namespace Codec.Rereads

open Checked

variable {α : Type}

/-! ### Plain values -/

theorem of_decode_encode {c : Codec α} (h : ∀ a, c.decode (c.encode a) = .ok a) : c.Rereads :=
  ⟨fun _ a _ => h a⟩

theorem text : Codec.text.Rereads := of_decode_encode fun _ => rfl

theorem int : Codec.int.Rereads := of_decode_encode fun _ => rfl

theorem real : Codec.real.Rereads := of_decode_encode fun _ => rfl

theorem bool : Codec.bool.Rereads := of_decode_encode fun _ => rfl

theorem name : Codec.name.Rereads where
  decode_encode _ _ h := accepts_name (ne_empty_of_name h)

theorem word {cause : List String → Fault.Cause} {all : List α} {spell : α → String} :
    (Codec.word cause all spell).Rereads where
  decode_encode d a h := by
    simp only [Codec.word] at h ⊢
    split at h
    · rename_i found
      obtain rfl := Checked.ok.inj h
      have spelled := List.find?_some found
      cases d <;> simp only [Datum.isText, Bool.false_eq_true, beq_iff_eq] at spelled
      rw [← spelled, found]
    · exact absurd h fault_ne_ok

/-! ### Bounded numbers -/

theorem intFrom (least : Int) : (Codec.intFrom least).Rereads :=
  of_decode_encode fun n => dif_pos n.property

theorem intAbove (bound : Int) : (Codec.intAbove bound).Rereads :=
  of_decode_encode fun n => dif_pos n.property

theorem intBetween (least greatest : Int) : (Codec.intBetween least greatest).Rereads :=
  of_decode_encode fun n => (dif_pos n.property.1).trans (dif_pos n.property.2)

theorem natFrom (least : Nat) : (Codec.natFrom least).Rereads := of_decode_encode accepts_natFrom

theorem realFrom (least : Int) : (Codec.realFrom least).Rereads :=
  of_decode_encode fun x => dif_pos x.property

theorem realAbove (bound : Int) : (Codec.realAbove bound).Rereads :=
  of_decode_encode fun x => dif_pos x.property

/-- Values that were read are within the bounds, also where the bounds are forgotten. -/
theorem widen {p : α → Prop} {c : Codec { a : α // p a }} {encode : α → Datum} (h : c.Rereads)
    (same : ∀ a, encode a.val = c.encode a) : (c.widen encode).Rereads where
  decode_encode d a ha := by
    simp only [Codec.widen, map_eq_ok] at ha ⊢
    obtain ⟨x, hx, rfl⟩ := ha
    exact ⟨x, by rw [same, h.decode_encode d x hx], rfl⟩

theorem natAtLeast (least : Nat) : (Codec.natAtLeast least).Rereads := (natFrom least).widen fun _ => rfl

theorem nat : Codec.nat.Rereads := natAtLeast 0

theorem intAtLeast (least : Int) : (Codec.intAtLeast least).Rereads := (intFrom least).widen fun _ => rfl

theorem intWithin (least greatest : Int) : (Codec.intWithin least greatest).Rereads :=
  (intBetween least greatest).widen fun _ => rfl

theorem realAtLeast (least : Int) : (Codec.realAtLeast least).Rereads :=
  (realFrom least).widen fun _ => rfl

theorem realMoreThan (bound : Int) : (Codec.realMoreThan bound).Rereads :=
  (realAbove bound).widen fun _ => rfl

/-! ### Combinations -/

variable {c : Codec α}

theorem optional (h : c.Rereads) (given : ∀ a, c.encode a ≠ .null) : (Codec.optional c).Rereads where
  decode_encode d a ha := by
    cases a with
    | none => rfl
    | some a =>
      have read : ∃ d, c.decode d = .ok a := by
        simp only [Codec.optional] at ha
        split at ha
        · cases ha
        · obtain ⟨x, hx, same⟩ := map_eq_ok.mp ha
          exact ⟨_, hx.trans (congrArg _ (Option.some.inj same))⟩
      obtain ⟨d, hd⟩ := read
      have again := h.decode_encode d a hd
      simp only [Codec.optional]
      split
      · rename_i null
        exact absurd null (given a)
      · rw [again]
        rfl

theorem sequence {cause : Fault.Cause} (h : c.Rereads) : (Codec.sequence cause c).Rereads where
  decode_encode d as ha := by
    simp only [Codec.sequence] at ha
    split at ha
    · rw [sequenceFrom_eq_ok, List.forall₂_map_left_iff] at ha
      exact accepts_sequence (forall_mem_of_forall₂ ha h.decode_encode)
    · exact absurd ha fault_ne_ok

theorem tuple (h : c.Rereads) : (Codec.tuple c).Rereads := h.sequence

theorem listOf (h : c.Rereads) : (Codec.listOf c).Rereads := h.sequence

theorem tupleOfSome (h : c.Rereads) : (Codec.tupleOfSome c).Rereads where
  decode_encode d as ha := by
    simp only [Codec.tupleOfSome, bind_eq_ok] at ha ⊢
    obtain ⟨items, hitems, kept⟩ := ha
    split at kept
    · rename_i some_items
      obtain rfl := Checked.ok.inj kept
      exact ⟨items, h.tuple.decode_encode d items hitems, dif_pos some_items⟩
    · exact absurd kept fault_ne_ok

/-- Reading a map reads each of its entries. -/
theorem entries_eq_ok {es : List (Datum × Datum)} {as : List (String × α)} :
    Codec.entries c es = .ok as ↔
      List.Forall₂ (fun e a => Codec.text.decode e.1 = .ok a.1 ∧ c.decode e.2 = .ok a.2) es as := by
  induction es generalizing as with
  | nil =>
    simp only [Codec.entries, ok.injEq, List.forall₂_nil_left_iff]
    exact eq_comm
  | cons e es ih =>
    obtain ⟨k, v⟩ := e
    simp only [Codec.entries, apply_eq_ok, map_eq_ok, under_eq_ok, ih]
    constructor
    · rintro ⟨-, rest, ⟨a, ⟨-, x, ⟨s, hs, rfl⟩, hx, rfl⟩, rfl⟩, hrest, rfl⟩
      exact .cons ⟨hs, hx⟩ hrest
    · intro h
      cases h with
      | cons head tail =>
        exact ⟨_, _, ⟨_, ⟨_, _, ⟨_, head.1, rfl⟩, head.2, rfl⟩, rfl⟩, tail, rfl⟩

theorem mapOf (h : c.Rereads) : (Codec.mapOf c).Rereads where
  decode_encode d as ha := by
    simp only [Codec.mapOf] at ha ⊢
    split at ha
    · rw [entries_eq_ok] at ha
      simp only [Datum.object, List.map_map]
      rw [entries_eq_ok, List.forall₂_map_left_iff, List.forall₂_same]
      exact forall_mem_of_forall₂ ha fun e a read => ⟨rfl, h.decode_encode e.2 a.2 read.2⟩
    · exact absurd ha fault_ne_ok

theorem after {normalise : Datum → Datum} (h : c.Rereads) (normal : ∀ a, normalise (c.encode a) = c.encode a) :
    (Codec.after normalise c).Rereads where
  decode_encode d a ha := by
    simp only [Codec.after] at ha ⊢
    rw [normal]
    exact h.decode_encode _ a ha

end Codec.Rereads

/-! ### Fields -/

namespace Datum

variable {es : List (String × Datum)}

theorem get?_object (distinct : (es.map Prod.fst).Nodup) {e : String × Datum} (he : e ∈ es) :
    (object es).get? e.1 = some e.2 := by
  induction es with
  | nil => cases he
  | cons e' es ih =>
    rw [List.map_cons, List.nodup_cons] at distinct
    have step : (object (e' :: es)).get? e.1 =
        if e'.1 == e.1 then some e'.2 else (object es).get? e.1 := by
      simp only [object, get?, List.map_cons, List.find?_cons, isText]
      cases e'.1 == e.1 <;> rfl
    rw [step]
    rcases List.mem_cons.mp he with rfl | later
    · simp
    · have other : e'.1 ≠ e.1 := by
        intro same
        exact distinct.1 (same ▸ List.mem_map_of_mem later)
      simp only [beq_iff_eq, other, if_false]
      exact ih distinct.2 later

theorem get?_object_eq_none {name : String} (absent : name ∉ es.map Prod.fst) :
    (object es).get? name = none := by
  have missed : (es.map fun e => (text e.1, e.2)).find? (·.1.isText name) = none := by
    rw [List.find?_map, Option.map_eq_none_iff, List.find?_eq_none]
    intro e he same
    exact absent (List.mem_map.mpr ⟨e, he, beq_iff_eq.mp same⟩)
  simp only [object, get?, missed, Option.map_none]

/-- A record with given entries, and with no datum that a field would be read from instead. Each place
has the names that a field is read from and the one that it is written to. -/
structure Holds (d : Datum) (places : List (List String × String)) (entries : List (String × Datum)) :
    Prop where
  entry : ∀ e ∈ entries, d.get? e.1 = some e.2
  place : ∀ p ∈ places, p.2 ∈ p.1 ∧ ∀ name ∈ p.1.takeWhile (· != p.2), d.get? name = none

theorem Holds.append {d : Datum} {ps ps' : List (List String × String)} {es es' : List (String × Datum)}
    (h : d.Holds (ps ++ ps') (es ++ es')) : d.Holds ps es ∧ d.Holds ps' es' :=
  ⟨⟨fun e he => h.entry e (List.mem_append_left _ he), fun p hp => h.place p (List.mem_append_left _ hp)⟩,
    ⟨fun e he => h.entry e (List.mem_append_right _ he), fun p hp => h.place p (List.mem_append_right _ hp)⟩⟩

end Datum

namespace Field

variable {α : Type}

def place (f : Field α) : List String × String := (f.names, f.written)

theorem find?_of_holds {f : Field α} {d : Datum} {a : α} (h : d.Holds [f.place] [f.entry a]) :
    f.find? d = some (f.written, f.codec.encode a) := by
  obtain ⟨named, unrivalled⟩ := h.place f.place (List.mem_singleton.mpr rfl)
  have found : d.get? f.written = some (f.codec.encode a) := h.entry _ (List.mem_singleton.mpr rfl)
  unfold find?
  simp only [place] at named unrivalled
  -- the names are gone through in their order up to the one that is written
  generalize f.names = names at named unrivalled ⊢
  induction names with
  | nil => cases named
  | cons name names ih =>
    by_cases same : name = f.written
    · subst same
      simp [found]
    · rw [List.takeWhile_cons_of_pos (by simpa using same)] at unrivalled
      have first := unrivalled name List.mem_cons_self
      have later : f.written ∈ names := (List.mem_cons.mp named).resolve_left (Ne.symm same)
      simp only [List.findSome?_cons, first, Option.map_none]
      exact ih later fun n hn => unrivalled n (List.mem_cons_of_mem _ hn)

/-- A way to read a field that finds each value of its type where it is written. -/
def Finds (f : Field α) (read : Datum → Checked α) : Prop :=
  ∀ a, f.codec.Accepts a → ∀ d : Datum, d.Holds [f.place] [f.entry a] → read d = .ok a

theorem required_finds (f : Field α) : f.Finds f.required := by
  intro a accepted d written
  rw [required, find?_of_holds written]
  exact Checked.under_eq_ok.mpr accepted

theorem orDefault_finds (f : Field α) (default : α) : f.Finds (f.orDefault default) := by
  intro a accepted d written
  rw [orDefault, find?_of_holds written]
  exact Checked.under_eq_ok.mpr accepted

theorem decode_of_required {f : Field α} {d : Datum} {a : α} (h : f.required d = .ok a) :
    ∃ e, f.codec.decode e = .ok a := by
  unfold required at h
  split at h
  · exact ⟨_, Checked.under_eq_ok.mp h⟩
  · cases h

/-- A way to read a field that reads the same value again where it is written. -/
structure Rereads (f : Field α) (read : Datum → Checked α) : Prop where
  reread : ∀ d a, read d = .ok a → ∀ d' : Datum, d'.Holds [f.place] [f.entry a] → read d' = .ok a

theorem required_rereads (f : Field α) (h : f.codec.Rereads) : f.Rereads f.required where
  reread d a ha d' written := by
    obtain ⟨e, given⟩ := decode_of_required ha
    exact f.required_finds a (h.decode_encode e a given) d' written

theorem orDefault_rereads (f : Field α) (default : α) (h : f.codec.Rereads)
    (usual : f.codec.decode (f.codec.encode default) = .ok default) : f.Rereads (f.orDefault default) where
  reread d a ha d' written := by
    refine f.orDefault_finds default a ?_ d' written
    unfold orDefault at ha
    split at ha
    · exact h.decode_encode _ a (Checked.under_eq_ok.mp ha)
    · obtain rfl := Checked.ok.inj ha
      exact usual

end Field

/-! ### Records -/

/-- A reader whose values are built from the values of fields, and read again where these are written. -/
structure Echo {σ α : Type} (read : Datum → Checked α) (build : σ → α)
    (write : σ → List (String × Datum)) (places : List (List String × String)) : Prop where
  names : ∀ x, (write x).map Prod.fst = places.map Prod.snd
  reread : ∀ d a, read d = .ok a →
    ∃ x, build x = a ∧ ∀ d' : Datum, d'.Holds places (write x) → read d' = .ok a

namespace Echo

open Checked

variable {σ α β : Type} {build : σ → α → β} {write : σ → List (String × Datum)}
variable {places : List (List String × String)} {f : Field α} {readField : Datum → Checked α}

theorem first (make : α → β) (h : f.Rereads readField) :
    Echo (fun d => make <$> readField d) make (fun a => [f.entry a]) [f.place] where
  names _ := rfl
  reread d b hb := by
    obtain ⟨a, ha, rfl⟩ := map_eq_ok.mp hb
    refine ⟨a, rfl, fun d' written => ?_⟩
    rw [map_eq, h.reread d a ha d' written]
    rfl

theorem next {read : Datum → Checked (α → β)} (echo : Echo read build write places)
    (h : f.Rereads readField) : Echo (fun d => read d <*> readField d) (fun x : σ × α => build x.1 x.2)
      (fun x => write x.1 ++ [f.entry x.2]) (places ++ [f.place]) where
  names x := by
    rw [List.map_append, List.map_append, echo.names]
    rfl
  reread d b hb := by
    obtain ⟨g, a, hg, ha, rfl⟩ := apply_eq_ok.mp hb
    obtain ⟨x, rfl, again⟩ := echo.reread d g hg
    refine ⟨(x, a), rfl, fun d' written => ?_⟩
    obtain ⟨before, last⟩ := written.append
    rw [seq_eq, again d' before, h.reread d a ha d' last]
    rfl

end Echo

/-- Fields that are written to different names, each of which is the first present one of its field. -/
def Legible (places : List (List String × String)) : Prop :=
  (places.map Prod.snd).Nodup ∧
    ∀ p ∈ places, p.2 ∈ p.1 ∧ ∀ name ∈ p.1.takeWhile (· != p.2), name ∉ places.map Prod.snd

instance (places : List (List String × String)) : Decidable (Legible places) :=
  inferInstanceAs (Decidable (_ ∧ _))

theorem Datum.holds_object {places : List (List String × String)} {es : List (String × Datum)}
    (legible : Legible places) (names : es.map Prod.fst = places.map Prod.snd) :
    (object es).Holds places es := by
  refine ⟨fun e he => get?_object (names ▸ legible.1) he, fun p hp => ?_⟩
  obtain ⟨named, unrivalled⟩ := legible.2 p hp
  exact ⟨named, fun name hname => get?_object_eq_none (names ▸ unrivalled name hname)⟩

theorem Codec.read_of_decode {α : Type} {title : String} {read : Datum → Checked α}
    {fields : α → List (String × Datum)} {d : Datum} {a : α}
    (h : (Codec.record title read fields).decode d = .ok a) : read d = .ok a := by
  simp only [Codec.record] at h
  split at h
  · exact h
  · exact absurd h Checked.fault_ne_ok

theorem Codec.Rereads.record {σ α : Type} {title : String} {read : Datum → Checked α} {build : σ → α}
    {write : σ → List (String × Datum)} {fields : α → List (String × Datum)}
    {places : List (List String × String)} (echo : Echo read build write places) (legible : Legible places)
    (written : ∀ x, write x = fields (build x)) : (Codec.record title read fields).Rereads where
  decode_encode d a ha := by
    obtain ⟨x, rfl, again⟩ := echo.reread d a (read_of_decode ha)
    refine again (.object (fields (build x))) ?_
    rw [← written]
    exact Datum.holds_object legible (echo.names x)

end Ostinato
