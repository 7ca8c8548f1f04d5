import Testbed.Proofs.Value.Built

/-!
# Values within values

`Within w v` says that `w` is `v` or stands inside of it at some depth: in a slot, among the items
of a list, or among the entries of a map. `Everywhere P v` says that everything within `v` has the
property `P`. It follows from the property of `v` itself and of all that stands directly inside, and
values that are merged keep it where merged records keep `P`.
-/

namespace Testbed.Value

/-- Whether a value is another one or stands inside of it. -/
inductive Within : Value → Value → Prop
  | self {w : Value} : Within w w
  | slot {w v : Value} {variant : Option Variant} {slots : Slots} {f : Field}
      (hmem : (f, v) ∈ slots) (h : Within w v) : Within w (record variant slots)
  | item {w v : Value} {e : Shape} {items : List Value} (hmem : v ∈ items) (h : Within w v) :
      Within w (list e items)
  | entry {w v : Value} {e : Shape} {entries : List (String × Value)} {key : String}
      (hmem : (key, v) ∈ entries) (h : Within w v) : Within w (map e entries)

/-- What is within something that is within a third is within that. -/
theorem Within.trans {u v w : Value} (hu : Within u v) (hv : Within v w) : Within u w := by
  induction hv with
  | self => exact hu
  | slot hmem _ ih => exact .slot hmem ih
  | item hmem _ ih => exact .item hmem ih
  | entry hmem _ ih => exact .entry hmem ih

/-- Whatever stands within a value that is put together as a shape says is put together so. -/
theorem exists_built_of_within {v w : Value} {s : Shape} (hw : Within w v) (hv : Built v s) :
    ∃ e, Built w e := by
  induction hw generalizing s with
  | self => exact ⟨s, hv⟩
  | slot hmem _ ih =>
    cases hv with
    | record hslots =>
      obtain ⟨e, -, he⟩ := hslots.exists_field hmem
      exact ih he
    | member hslots =>
      obtain ⟨e, -, he⟩ := hslots.exists_field hmem
      exact ih he
  | item hmem _ ih =>
    cases hv with
    | list hitems => exact ih (hitems _ hmem)
  | entry hmem _ ih =>
    cases hv with
    | map _ hentries => exact ih (hentries _ _ hmem)

/-- Whether everything within a value has a property. -/
def Everywhere (P : Value → Prop) (v : Value) : Prop :=
  ∀ w, Within w v → P w

variable {P : Value → Prop} {v : Value} {e : Shape}

/-- What holds everywhere in a value holds everywhere in what is within it. -/
theorem Everywhere.of_within {w : Value} (h : Everywhere P v) (hw : Within w v) :
    Everywhere P w :=
  fun u hu => h u (hu.trans hw)

theorem everywhere_list {items : List Value} :
    Everywhere P (list e items) ↔ P (list e items) ∧ ∀ v ∈ items, Everywhere P v := by
  constructor
  · intro h
    exact ⟨h _ .self, fun v hv => h.of_within (.item hv .self)⟩
  · rintro ⟨hself, hitems⟩ w hw
    cases hw with
    | self => exact hself
    | item hmem hw => exact hitems _ hmem w hw

theorem everywhere_map {entries : List (String × Value)} :
    Everywhere P (map e entries) ↔
      P (map e entries) ∧ ∀ key v, (key, v) ∈ entries → Everywhere P v := by
  constructor
  · intro h
    exact ⟨h _ .self, fun key v hv => h.of_within (.entry hv .self)⟩
  · rintro ⟨hself, hentries⟩ w hw
    cases hw with
    | self => exact hself
    | entry hmem hw => exact hentries _ _ hmem w hw

theorem everywhere_record {variant : Option Variant} {slots : Slots} :
    Everywhere P (record variant slots) ↔
      P (record variant slots) ∧ ∀ f v, (f, v) ∈ slots → Everywhere P v := by
  constructor
  · intro h
    exact ⟨h _ .self, fun f v hv => h.of_within (.slot hv .self)⟩
  · rintro ⟨hself, hslots⟩ w hw
    cases hw with
    | self => exact hself
    | slot hmem hw => exact hslots _ _ hmem w hw

/-- Whether nothing can stand inside of a value. -/
def isScalar : Value → Bool
  | list _ _ => false
  | map _ _ => false
  | record _ _ => false
  | _ => true

theorem everywhere_of_isScalar (hv : v.isScalar = true) (h : P v) : Everywhere P v := by
  intro w hw
  cases hw with
  | self => exact h
  | _ => cases hv

/-! ## §1 Merging -/

/-- Whether a property says nothing of values that are no records, and is kept when two records that
    are built alike are merged. -/
structure IsMergeable (P : Value → Prop) : Prop where
  plain : ∀ v, (∀ variant slots, v ≠ record variant slots) → P v
  merge : ∀ {slots others fields}, SlotsBuilt slots fields → SlotsBuilt others fields →
    P (record none slots) → P (record none others) → P (record none (mergeSlots slots others))

mutual
/-- Items and entries are taken over as wholes, so only the records that are merged need a look. -/
theorem IsMergeable.everywhere (hP : IsMergeable P) : {v w : Value} → {s : Shape} → Built v s →
    s.isFixed = true → Built w s → Everywhere P v → Everywhere P w → Everywhere P (v.merge w)
  | _, _, _, .bool _, _, .bool _, _, h' => h'
  | _, _, _, .int _ _, _, .int _ _, _, h' => h'
  | _, _, _, .float _ _, _, .float _ _, _, h' => h'
  | _, _, _, .text _, _, .text _, h, h' => by
    rw [Value.merge]
    split
    · exact h
    · exact h'
  | _, _, _, .list _, _, .list _, h, h' => by
    rw [Value.merge]
    have hitems := (everywhere_list.mp h).2
    have hitems' := (everywhere_list.mp h').2
    exact everywhere_list.mpr ⟨hP.plain _ (by simp), List.forall_mem_append.mpr ⟨hitems, hitems'⟩⟩
  | _, _, _, .map _ _, _, .map _ _, h, h' => by
    rw [Value.merge]
    refine everywhere_map.mpr ⟨hP.plain _ (by simp), fun key v hv => ?_⟩
    rcases Keyed.mem_union hv with hv | hv
    · exact (everywhere_map.mp h).2 key v hv
    · exact (everywhere_map.mp h').2 key v hv
  | _, _, _, .record hslots, hs, .record hothers, h, h' => by
    rw [Value.merge]
    obtain ⟨hself, hinside⟩ := everywhere_record.mp h
    obtain ⟨hself', hinside'⟩ := everywhere_record.mp h'
    refine everywhere_record.mpr ⟨hP.merge hslots hothers hself hself', ?_⟩
    exact hP.everywhere_slots hslots (by simpa [Shape.isFixed] using hs) hothers hinside hinside'
  | _, _, _, .member _, hs, _, _, _ => by simp [Shape.isFixed] at hs
  | _, _, _, .absent, _, .absent, _, h' => h'
/-- What merging keeps holds everywhere in merged slots. -/
theorem IsMergeable.everywhere_slots (hP : IsMergeable P) :
    {slots others : Slots} → {fields : Fields} → SlotsBuilt slots fields →
      fieldsFixed fields = true → SlotsBuilt others fields →
      (∀ f v, (f, v) ∈ slots → Everywhere P v) → (∀ f v, (f, v) ∈ others → Everywhere P v) →
        ∀ f v, (f, v) ∈ mergeSlots slots others → Everywhere P v
  | _, _, _, .nil, _, .nil, _, _ => by simp [mergeSlots]
  | _, _, _, .cons hv hslots, hfixed, .cons hw hothers, h, h' => by
    simp only [fieldsFixed, Bool.and_eq_true] at hfixed
    rw [mergeSlots]
    intro f v hmem
    rcases List.mem_cons.mp hmem with heq | hmem
    · obtain ⟨rfl, rfl⟩ := Prod.mk.inj heq
      exact hP.everywhere hv hfixed.1 hw (h _ _ List.mem_cons_self) (h' _ _ List.mem_cons_self)
    · exact hP.everywhere_slots hslots hfixed.2 hothers
        (fun f v hv => h f v (List.mem_cons_of_mem _ hv))
        (fun f v hv => h' f v (List.mem_cons_of_mem _ hv)) f v hmem
end

/-! ## §2 Checks -/

mutual
/-- Whether everything within a value passes a check. -/
def all (p : Value → Bool) : Value → Bool
  | list e items => p (list e items) && allItems p items
  | map e entries => p (map e entries) && allEntries p entries
  | record variant slots => p (record variant slots) && allSlots p slots
  | v => p v
/-- Whether everything within the items of a list passes. -/
def allItems (p : Value → Bool) : List Value → Bool
  | [] => true
  | v :: rest => v.all p && allItems p rest
/-- Whether everything within the entries of a map passes. -/
def allEntries (p : Value → Bool) : List (String × Value) → Bool
  | [] => true
  | (_, v) :: rest => v.all p && allEntries p rest
/-- Whether everything within the slots of a record passes. -/
def allSlots (p : Value → Bool) : Slots → Bool
  | [] => true
  | (_, v) :: rest => v.all p && allSlots p rest
end

mutual
/-- A check that has gone through a value holds everywhere in it. -/
theorem everywhere_of_all {p : Value → Bool} : (v : Value) → v.all p = true →
    Everywhere (p · = true) v
  | list _ items, h => by
    obtain ⟨hself, hitems⟩ := Bool.and_eq_true_iff.mp h
    exact everywhere_list.mpr ⟨hself, everywhere_of_allItems items hitems⟩
  | map _ entries, h => by
    obtain ⟨hself, hentries⟩ := Bool.and_eq_true_iff.mp h
    exact everywhere_map.mpr ⟨hself, everywhere_of_allEntries entries hentries⟩
  | record _ slots, h => by
    obtain ⟨hself, hslots⟩ := Bool.and_eq_true_iff.mp h
    exact everywhere_record.mpr ⟨hself, everywhere_of_allSlots slots hslots⟩
  | bool _, h => everywhere_of_isScalar rfl h
  | int _ _, h => everywhere_of_isScalar rfl h
  | float _ _, h => everywhere_of_isScalar rfl h
  | text _, h => everywhere_of_isScalar rfl h
  | absent, h => everywhere_of_isScalar rfl h
theorem everywhere_of_allItems {p : Value → Bool} : (items : List Value) →
    allItems p items = true → ∀ v ∈ items, Everywhere (p · = true) v
  | [], _ => by simp
  | v :: rest, h => by
    obtain ⟨hv, hrest⟩ := Bool.and_eq_true_iff.mp h
    exact List.forall_mem_cons.mpr ⟨everywhere_of_all v hv, everywhere_of_allItems rest hrest⟩
theorem everywhere_of_allEntries {p : Value → Bool} : (entries : List (String × Value)) →
    allEntries p entries = true → ∀ key v, (key, v) ∈ entries → Everywhere (p · = true) v
  | [], _ => by simp
  | (k, v) :: rest, h => by
    obtain ⟨hv, hrest⟩ := Bool.and_eq_true_iff.mp h
    intro key w hw
    rcases List.mem_cons.mp hw with heq | hw
    · obtain ⟨-, rfl⟩ := Prod.mk.inj heq
      exact everywhere_of_all w hv
    · exact everywhere_of_allEntries rest hrest key w hw
theorem everywhere_of_allSlots {p : Value → Bool} : (slots : Slots) →
    allSlots p slots = true → ∀ f v, (f, v) ∈ slots → Everywhere (p · = true) v
  | [], _ => by simp
  | (g, v) :: rest, h => by
    obtain ⟨hv, hrest⟩ := Bool.and_eq_true_iff.mp h
    intro f w hw
    rcases List.mem_cons.mp hw with heq | hw
    · obtain ⟨-, rfl⟩ := Prod.mk.inj heq
      exact everywhere_of_all w hv
    · exact everywhere_of_allSlots rest hrest f w hw
end

end Testbed.Value
