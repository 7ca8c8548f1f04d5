import Testbed.Proofs.Binding.Building
import Testbed.Proofs.Binding.Inside

/-!
# Binding in place of values that are alike

Binding in place of a value is the same walk as binding in place of one that is alike to it
(`Deeper.level_blind`), and what it gives in place of a zero value is alike to the zero value again
(`Deeper.level_renews`); so a value that was bound can be bound again like one that is new.
-/

namespace Testbed

open Binding

/-! ## §1 One walk -/

/-- Walks that are the same, in one document. -/
def Walk.sameness : Walk.Congruence where
  Near := Eq
  Whole := Eq
  Inside := Eq
  near_self _ := rfl
  near_directory h := congrArg Path.directory h
  pure _ := rfl
  fail _ := rfl
  bind hw hf := by rw [hw, funext hf]
  located hpq hw := by rw [hpq, hw]
  inside h := h
  atField _ := rfl
  atIndex _ := rfl
  andThen hw hf := by rw [hw, funext hf]
  insideMap h := by rw [h]
  insideList h := by rw [h]

/-- Binding does not tell apart values that are alike, however deep it may go. -/
theorem Deeper.level_blind {context : Context} (n : Nat) (document : Path) (data : Data)
    {v v' : Value} (h : v.Alike v') :
    (level context n).assign document data v = (level context n).assign document data v' :=
  Walk.Congruence.Below.assign (Walk.sameness.level n) rfl data h

/-- Binding the fields of a record does not tell slots apart that are alike. -/
theorem Binding.recordInside_alike {context : Context} (n : Nat) (document : Path)
    (es : List (String × Data)) {slots slots' : Slots} (h : Value.SlotsAlike slots slots') :
    recordInside context (Deeper.level context n) document es slots =
      recordInside context (Deeper.level context n) document es slots' :=
  Walk.Congruence.recordInside (Walk.sameness.level n) rfl es h

/-! ## §2 What binding in place of a zero value gives -/

namespace Shape

/-- Shapes that are neither records nor families are fixed. -/
theorem isFixed_of_not_isRecord {s : Shape} (h : s.isRecord = false) : s.isFixed = true := by
  cases s with
  | record fs => cases h
  | oneOf f => cases h
  | _ => rfl

/-- The zero value of a record has the zero values of fields. -/
theorem exists_zero_of_isRecord {s : Shape} (h : s.isRecord = true) :
    ∃ variant fs, s.zero = .record variant (Fields.zero fs) := by
  cases s with
  | record fs => exact ⟨none, fs, rfl⟩
  | oneOf f => exact ⟨some f.first, f.first.fields, Family.initial_eq f⟩
  | _ => cases h

theorem exists_zero_of_zero_eq_record {s : Shape} {variant : Option Variant} {slots : Slots}
    (h : .record variant slots = s.zero) : ∃ fs, slots = Fields.zero fs := by
  cases hs : s.isRecord with
  | true =>
    obtain ⟨variant', fs, hzero⟩ := exists_zero_of_isRecord hs
    exact ⟨fs, (Value.record.inj (h.trans hzero)).2⟩
  | false =>
    cases s with
    | record fs => cases hs
    | oneOf f => cases hs
    | _ => cases h

end Shape

namespace Binding

open Value

/-- What is built in place of the zero value of a shape that is no record is alike to it. -/
theorem alike_of_built {s : Shape} {w : Value} (hw : Built w s)
    (hs : ∀ variant slots, s.zero ≠ .record variant slots) : Alike w s.zero := by
  cases h : s.isRecord with
  | true =>
    obtain ⟨variant, fs, hzero⟩ := Shape.exists_zero_of_isRecord h
    exact absurd hzero (hs variant _)
  | false => exact hw.alike_zero (Shape.isFixed_of_not_isRecord h)

/-- What a field without data holds in place of a zero value is alike to it. -/
theorem alike_of_absentField {d : Directives} {s : Shape} {w : Value}
    (h : fields.absentField d s.zero = .ok w) : Alike w s.zero := by
  cases hd : d.default? with
  | none =>
    rw [fields.absentField, hd, (built_zero s).reset_eq] at h
    rw [← Except.ok.inj h]
    exact .refl _
  | some raw =>
    refine alike_of_built (built_of_absentField (built_zero s) h) fun variant slots hzero => ?_
    -- a record has no default
    rw [fields.absentField, hd, hzero] at h
    cases h

/-- A record is no path. -/
theorem alike_of_existingPath {context : Context} {document : Path} {x : Data} {s : Shape}
    {w : Value} (h : existingPath context document x s.zero = .ok w) : Alike w s.zero := by
  refine alike_of_built (built_of_existingPath (built_zero s) h) fun variant slots hzero => ?_
  rw [hzero] at h
  unfold existingPath at h
  split at h
  · simp only at h
    split at h <;> cases h
  · cases h

/-- What is bound in place of a zero value is alike to it; by a factory it may become another member
    of its family. -/
def renewal (context : Context) : Postcondition context where
  Bound x v w := (building context).Bound x v w ∧ ∀ s : Shape, v = s.zero → w.Alike s.zero
  Filled f v w := (building context).Filled f v w ∧
    ∀ s : Shape, v = s.zero → w.Alike s.zero ∨ w.Akin s.zero
  Field d v w := (building context).Field d v w ∧
    ∀ s : Shape, v = s.zero → w.Alike s.zero ∨ d.factory?.isSome ∧ w.Akin s.zero
  SlotsBound slots slots' := (building context).SlotsBound slots slots' ∧
    ∀ fs, slots = Fields.zero fs → SlotsAlike slots' (Fields.zero fs)
  Stands := (building context).Stands
  Made := (building context).Made
  null v := by
    refine ⟨(building context).null v, ?_⟩
    rintro s rfl
    rw [(built_zero s).reset_eq]
    exact .refl _
  scalar hv h := by
    refine ⟨(building context).scalar hv h, ?_⟩
    rintro s rfl
    refine alike_of_built (built_of_scalar (built_zero s) h) fun variant slots hzero => ?_
    rw [hzero] at hv
    cases hv
  list hitems := ⟨(building context).list hitems, fun s hs => hs ▸ .list _ _ _⟩
  map hentries hkeys := ⟨(building context).map hentries hkeys, fun s hs => hs ▸ .map _ _ _⟩
  record hslots := by
    refine ⟨(building context).record hslots.1, fun s hs => ?_⟩
    obtain ⟨fs, rfl⟩ := Shape.exists_zero_of_zero_eq_record hs
    exact hs ▸ .record _ (hslots.2 fs rfl)
  zero := (building context).zero
  again hv h := (building context).again hv h.1
  absent h := ⟨(building context).absent h, fun s hs => .inl (alike_of_absentField (hs ▸ h))⟩
  loadedList hfactory hload hitems :=
    ⟨(building context).loadedList hfactory hload hitems, fun s hs => .inl (hs ▸ .list _ _ _)⟩
  loadedMap hfactory hload hentries :=
    ⟨(building context).loadedMap hfactory hload hentries, fun s hs => .inl (hs ▸ .map _ _ _)⟩
  path hfactory hpath h :=
    ⟨(building context).path hfactory hpath h, fun s hs => .inl (alike_of_existingPath (hs ▸ h))⟩
  bound _ _ _ h := ⟨h.1, fun s hs => .inl (h.2 s hs)⟩
  bare hfactory hslots := by
    refine ⟨(building context).bare hfactory hslots.1, fun s hs => .inl ?_⟩
    obtain ⟨fs, rfl⟩ := Shape.exists_zero_of_zero_eq_record hs
    exact hs ▸ .record _ (hslots.2 fs rfl)
  filled hname _ h := ⟨h.1, fun s hs => (h.2 s hs).imp id fun hakin => ⟨by rw [hname]; rfl, hakin⟩⟩
  nil := ⟨(building context).nil, fun fs hfs => hfs ▸ .nil⟩
  cons hread hv hslots := by
    refine ⟨(building context).cons hread hv.1 hslots.1, fun fs hfs => ?_⟩
    cases fs with
    | nil => cases hfs
    | cons e fs =>
      obtain ⟨hhead, hrest⟩ := List.cons.inj hfs
      obtain ⟨rfl, rfl⟩ := Prod.mk.inj hhead
      rcases hv.2 _ rfl with halike | ⟨hfactory, x, y, inside, inside', rfl, hzero, hfamily⟩
      · exact .bound _ halike (hslots.2 fs hrest)
      · show SlotsAlike _ ((_, Shape.zero _) :: Fields.zero fs)
        rw [hzero]
        exact .filled hread hfactory hfamily inside inside' (hslots.2 fs hrest)
  sandboxes hentries := by
    refine ⟨(building context).sandboxes ⟨hentries.order, fun key v hv => ?_⟩,
      fun s hs => .inl (hs ▸ .map _ _ _)⟩
    obtain ⟨p, x, hbound⟩ := hentries.each key v hv
    exact ⟨p, x, hbound.1⟩
  environments hentries := by
    refine ⟨(building context).environments ⟨hentries.order, fun key v hv => ?_⟩,
      fun s hs => .inl (hs ▸ .map _ _ _)⟩
    obtain ⟨p, x, hbound⟩ := hentries.each key v hv
    exact ⟨p, x, hbound.1⟩
  actions hitems := ⟨(building context).actions hitems, fun s hs => .inl (hs ▸ .list _ _ _)⟩
  action hmade := by
    refine ⟨(building context).action hmade, fun s hs => .inr ?_⟩
    -- whatever action is made, it is a member of the family
    obtain ⟨x, inside, rfl, hfamily, -⟩ := Built.exists_member hmade
    exact ⟨x, .action _, inside, _, rfl, hs.symm, hfamily⟩
  made hread h := (building context).made hread h.1

end Binding

/-- Binding in place of a zero value gives a value that is alike to it, however deep it may go. -/
theorem Deeper.level_renews {context : Context} (n : Nat) (document : Path) (data : Data)
    (s : Shape) : ((level context n).assign document data s.zero).Ensures (Value.Alike · s.zero) :=
  (((Binding.renewal context).level n).assign document data s.zero).mono fun _ hv => hv.2 s rfl

end Testbed
