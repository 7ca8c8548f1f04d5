import Testbed.Proofs.Number.Rounding
import Testbed.Proofs.Rig.Schema
import Testbed.Value.Overwrite

/-!
# Values of a shape

`HasShape` says that a value is one of a shape: its scalars have their widths, its maps stand in
the order of their keys, its records have the fields that are declared, and its members of families
are members with their fields. `IsConfig` are the values of a whole configuration; they are what a
rig can hold. A shape starts with a value of its own (`hasShape_zero`), and a value keeps its shape
when something of the right shape is put inside it (`HasShape.inside`).
-/

namespace Testbed

open Number

/-- Whether a float is in the normal form of a width; a single is held as a double. -/
def FloatWidth.Holds (w : FloatWidth) (x : Binary) : Prop :=
  x.Fits .double ∧ (w = .f32 → x.exceedsSingle = false ∧ x.toSingle = x)

namespace Value

mutual
/-- Whether a value is one of a shape. No list is longer than an index can say. -/
inductive HasShape : Value → Shape → Prop
  | bool (b : Bool) : HasShape (bool b) .bool
  | int {w : IntWidth} {n : Int} (hn : w.holds n = true) : HasShape (int w n) (.int w)
  | float {w : FloatWidth} {x : Binary} (hx : w.Holds x) : HasShape (float w x) (.float w)
  | text (s : String) : HasShape (text s) .text
  | list {e : Shape} {items : List Value} (hlength : items.length ≤ Segment.indexMax)
      (hitems : ∀ v ∈ items, HasShape v e) : HasShape (list e items) (.list e)
  | map {e : Shape} {entries : List (String × Value)} (horder : Keyed.Ordered entries)
      (hentries : ∀ name v, (name, v) ∈ entries → HasShape v e) : HasShape (map e entries) (.map e)
  | record {fields : Fields} {slots : Slots} (hslots : SlotsHave slots fields) :
      HasShape (record none slots) (.record fields)
  | member {v : Variant} {slots : Slots} (hslots : SlotsHave slots v.fields) :
      HasShape (record (some v) slots) (.oneOf v.family)
  | absent : HasShape absent .absent
/-- Whether slots are the fields of a record with values of their shapes. -/
inductive SlotsHave : Slots → Fields → Prop
  | nil : SlotsHave [] []
  | cons {field : Field} {v : Value} {s : Shape} {slots : Slots} {fields : Fields}
      (hv : HasShape v s) (hslots : SlotsHave slots fields) :
      SlotsHave ((field, v) :: slots) ((field, s) :: fields)
end

/-- Whether a value is a configuration. -/
def IsConfig (c : Value) : Prop :=
  HasShape c (.record Rig.config)

/-! ## §1 Zero values -/

theorem zero_fits : Binary.zero.Fits .double := by
  decide

mutual
/-- The zero value of a shape has the shape, if those of the families do. -/
theorem hasShape_zeroWith {initial : Family → Value}
    (h : ∀ f, HasShape (initial f) (.oneOf f)) : (s : Shape) → HasShape (s.zeroWith initial) s
  | .bool => .bool false
  | .int w => .int (by cases w <;> decide)
  | .float w => .float ⟨zero_fits, fun _ => ⟨by decide +kernel, by decide +kernel⟩⟩
  | .text => .text ""
  | .list _ => .list (by decide) (by simp)
  | .map _ => .map Keyed.ordered_nil (by simp)
  | .record fields => .record (slotsHave_zeroWith h fields)
  | .oneOf f => h f
  | .absent => .absent
/-- The zero values of fields have their shapes. -/
theorem slotsHave_zeroWith {initial : Family → Value}
    (h : ∀ f, HasShape (initial f) (.oneOf f)) :
    (fields : Fields) → SlotsHave (zeroSlotsWith initial fields) fields
  | [] => .nil
  | (_, s) :: rest => .cons (hasShape_zeroWith h s) (slotsHave_zeroWith h rest)
end

theorem hasShape_emptyList (e : Shape) : HasShape (list e []) (.list e) :=
  .list (by decide) (by simp)

theorem hasShape_emptyMap (e : Shape) : HasShape (map e []) (.map e) :=
  .map Keyed.ordered_nil (by simp)

/-- The first members of the families hold no other families directly. -/
theorem hasShape_initial (f : Family) : HasShape f.initial (.oneOf f) := by
  cases f with
  | sandbox =>
    exact .member (v := .sandbox .common) (.cons (.bool false)
      (.cons (hasShape_emptyMap _) (.cons (hasShape_emptyMap _) .nil)))
  | environment =>
    exact .member (v := .environment .common) (.cons (.record (.cons (.int (by decide))
      (.cons (.int (by decide)) .nil))) .nil)
  | action =>
    exact .member (v := .action .sequential) (.cons (.text "") (.cons (.text "")
      (.cons (hasShape_emptyList _) (.cons (.int (by decide)) (.cons (.text "")
        (.cons (.text "") .nil))))))

/-- The zero value of a shape has the shape. -/
theorem hasShape_zero (s : Shape) : HasShape s.zero s :=
  hasShape_zeroWith hasShape_initial s

/-- New slots have the shapes of their fields. -/
theorem slotsHave_zero (fields : Fields) : SlotsHave (Fields.zero fields) fields :=
  slotsHave_zeroWith hasShape_initial fields

theorem isConfig_empty : IsConfig emptyConfig :=
  .record (slotsHave_zero Rig.config)

/-- A configuration that differs from the empty one in having a server. -/
def oneServer : Value :=
  emptyConfig.setSlot "servers" (list (.record Rig.server) [record none (Fields.zero Rig.server)])

theorem isConfig_oneServer : IsConfig oneServer := by
  have hserver : HasShape (record none (Fields.zero Rig.server)) (.record Rig.server) :=
    .record (slotsHave_zero Rig.server)
  have hservers : HasShape (list (.record Rig.server) [record none (Fields.zero Rig.server)])
      (.list (.record Rig.server)) := .list (by decide) (by simpa using hserver)
  exact .record (.cons (.text "") (.cons (.text "") (.cons (.text "")
    (.cons (hasShape_emptyMap _) (.cons hservers (.cons (hasShape_zero _) .nil))))))

/-! ## §2 Records -/

section

variable {slots : Slots} {fields : Fields}

/-- The fields of a record are declared in a tidy way, whether it is a member of a family or not. -/
theorem HasShape.ofRecord {variant : Option Variant} {s : Shape}
    (h : HasShape (Value.record variant slots) s) (hs : s.isTidy = true) :
    ∃ fields, SlotsHave slots fields ∧ tidyFields fields = true ∧
      ∀ slots', SlotsHave slots' fields → HasShape (Value.record variant slots') s := by
  cases h with
  | record hslots => exact ⟨_, hslots, by simpa [Shape.isTidy] using hs, fun _ h' => .record h'⟩
  | member hslots => exact ⟨_, hslots, Rig.variant_tidy _, fun _ h' => .member h'⟩

/-- A value of a family is one of its members, with its fields. -/
theorem HasShape.exists_member {v : Value} {f : Family} (h : HasShape v (.oneOf f)) :
    ∃ variant slots, v = Value.record (some variant) slots ∧ variant.family = f ∧
      SlotsHave slots variant.fields := by
  generalize hs : Shape.oneOf f = s at h
  cases h with
  | @member variant slots hslots =>
    obtain rfl := Shape.oneOf.inj hs
    exact ⟨variant, slots, rfl, rfl, hslots⟩
  | _ => cases hs

/-- What is in the slot with a name has a shape, and any other value of the shape fits there. -/
theorem SlotsHave.inside (h : SlotsHave slots fields) (ht : tidyFields fields = true)
    (name : String) :
    ∃ s : Shape, s.isTidy = true ∧ (∀ v, slotNamed? name slots = some v → HasShape v s) ∧
      ∀ w, HasShape w s → SlotsHave (putSlot name w slots) fields := by
  induction slots generalizing fields with
  | nil =>
    cases h
    exact ⟨.text, rfl, by simp [slotNamed?], fun _ _ => .nil⟩
  | cons e rest ih =>
    cases h with
    | @cons field v s _ fields hv hslots =>
      obtain ⟨hname, -, -, hs, hrest⟩ := tidyFields_cons.mp ht
      by_cases hfield : field.ident = name
      · -- the slot is the first one
        refine ⟨s, hs, ?_, ?_⟩
        · simp only [slotNamed?, hname, hfield, if_true, Option.some.injEq]
          rintro w rfl
          exact hv
        · intro w hw
          simp only [putSlot, hname, hfield, if_true]
          exact .cons hw hslots
      · obtain ⟨s', hs', hfound, hput⟩ := ih hslots hrest
        refine ⟨s', hs', ?_, ?_⟩
        · simp only [slotNamed?, hname, hfield, if_false]
          exact hfound
        · intro w hw
          simp only [putSlot, hname, hfield, if_false]
          exact .cons hv (hput w hw)

/-- Every slot belongs to a field, and has its shape. -/
theorem SlotsHave.exists_field (h : SlotsHave slots fields) {f : Field} {v : Value}
    (hv : (f, v) ∈ slots) : ∃ s, (f, s) ∈ fields ∧ HasShape v s := by
  induction slots generalizing fields with
  | nil => cases hv
  | cons e rest ih =>
    cases h with
    | cons hw hslots =>
      rcases List.mem_cons.mp hv with heq | hv
      · obtain ⟨rfl, rfl⟩ := Prod.mk.inj heq
        exact ⟨_, List.mem_cons_self, hw⟩
      · obtain ⟨s, hs, hshape⟩ := ih hslots hv
        exact ⟨s, List.mem_cons_of_mem _ hs, hshape⟩

theorem SlotsHave.mem (h : SlotsHave slots fields) {e : Field × Value} (he : e ∈ slots) :
    ∃ f ∈ fields, f.1 = e.1 := by
  obtain ⟨s, hs, -⟩ := h.exists_field (f := e.1) (v := e.2) he
  exact ⟨(e.1, s), hs, rfl⟩

/-- The identifiers of a record's slots are its names in documents, without repetition. -/
theorem SlotsHave.nodup (h : SlotsHave slots fields) (ht : tidyFields fields = true) :
    (slots.map fun e => e.1.ident).Nodup := by
  induction slots generalizing fields with
  | nil => simp
  | cons e rest ih =>
    cases h with
    | @cons field v s _ fields hv hslots =>
      obtain ⟨-, -, hdistinct, -, hrest⟩ := tidyFields_cons.mp ht
      apply List.nodup_cons.mpr
      refine ⟨?_, ih hslots hrest⟩
      intro hmem
      obtain ⟨e', he', heq⟩ := List.mem_map.mp hmem
      obtain ⟨f, hf, hfield⟩ := hslots.mem he'
      exact hdistinct f hf (hfield ▸ heq)

/-- The slots of tidy fields have tidy shapes, and the names that they have here. -/
theorem SlotsHave.of_mem (h : SlotsHave slots fields)
    (ht : tidyFields fields = true) {f : Field} {v : Value} (hmem : (f, v) ∈ slots) :
    f.documentName? = some f.ident ∧ ∃ s : Shape, s.isTidy = true ∧ HasShape v s := by
  induction slots generalizing fields with
  | nil => simp at hmem
  | cons e rest ih =>
    cases h with
    | @cons field w s _ fields hw hslots =>
      obtain ⟨hname, -, -, hs, hrest⟩ := tidyFields_cons.mp ht
      rcases List.mem_cons.mp hmem with heq | hmem
      · obtain ⟨rfl, rfl⟩ := Prod.mk.inj heq
        exact ⟨hname, s, hs, hw⟩
      · exact ih hslots hrest hmem

/-- A slot is found by its identifier. -/
theorem SlotsHave.slotNamed?_of_mem (h : SlotsHave slots fields)
    (ht : tidyFields fields = true) {f : Field} {v : Value} (hmem : (f, v) ∈ slots) :
    slotNamed? f.ident slots = some v := by
  induction slots generalizing fields with
  | nil => simp at hmem
  | cons e rest ih =>
    cases h with
    | @cons field w s _ fields hw hslots =>
      obtain ⟨hname, -, hdistinct, -, hrest⟩ := tidyFields_cons.mp ht
      rcases List.mem_cons.mp hmem with heq | hmem
      · obtain ⟨rfl, rfl⟩ := Prod.mk.inj heq
        simp [slotNamed?, hname]
      · obtain ⟨f', hf', hfield⟩ := hslots.mem hmem
        have hne : field.ident ≠ f.ident := fun heq => hdistinct f' hf' (hfield ▸ heq.symm)
        simpa [slotNamed?, hname, hne] using ih hslots hrest hmem

/-- A slot, with those around it, which have other names. -/
theorem SlotsHave.split (h : SlotsHave slots fields)
    (ht : tidyFields fields = true) {f : Field} {v : Value} (hmem : (f, v) ∈ slots) :
    ∃ before after, slots = before ++ (f, v) :: after ∧
      ∀ e, e ∈ before ∨ e ∈ after → ∃ n, e.1.documentName? = some n ∧ n ≠ f.ident := by
  obtain ⟨before, after, rfl⟩ := List.append_of_mem hmem
  refine ⟨before, after, rfl, ?_⟩
  intro e he
  have hname := (h.of_mem ht (f := e.1) (v := e.2) (by grind)).1
  have hnodup := h.nodup ht
  refine ⟨e.1.ident, hname, ?_⟩
  intro heq
  simp only [List.map_append, List.map_cons, List.nodup_append, List.nodup_cons] at hnodup
  rcases he with he | he
  · exact hnodup.2.2 _ (List.mem_map_of_mem he) f.ident (by simp) heq
  · exact hnodup.2.1.1 (heq ▸ List.mem_map_of_mem (f := fun e : Field × Value => e.1.ident) he)

end

/-! ## §3 One step -/

/-- Where a step leads there is a value of a shape, or a map is ready to start one with the zero
    value of that shape; and the whole keeps its shape when another value of it is set there. -/
theorem HasShape.inside {v : Value} {s : Shape} (h : HasShape v s) (hs : s.isTidy = true)
    (t : Step) :
    ∃ e : Shape, e.isTidy = true ∧ (∀ w, child? t v = some w → HasShape w e) ∧
      (∀ w, fresh? t v = some w → w = e.zero) ∧
      ∀ w, HasShape w e → HasShape (setChild t w v) s := by
  cases v with
  | list e items =>
    cases h with
    | list hlength hitems =>
      have he : e.isTidy = true := by
        simp only [Shape.isTidy, Bool.and_eq_true] at hs
        exact hs.2
      refine ⟨e, he, ?_, by simp [fresh?], ?_⟩
      · intro w hw
        cases t with
        | key name => simp [Value.child?] at hw
        | index i => exact hitems w (List.mem_of_getElem? hw)
      · intro w hw
        cases t with
        | key name => exact .list hlength hitems
        | index i =>
          apply HasShape.list (by simpa using hlength)
          intro x hx
          -- an item is one that was there before, or the new one
          rcases List.mem_or_eq_of_mem_set hx with hx | rfl
          · exact hitems x hx
          · exact hw
  | map e entries =>
    cases h with
    | map horder hentries =>
      have he : e.isTidy = true := by simpa [Shape.isTidy] using hs
      refine ⟨e, he, ?_, ?_, ?_⟩
      · intro w hw
        cases t with
        | key name => exact hentries name w (Keyed.mem_of_get?_eq_some hw)
        | index i => simp [Value.child?] at hw
      · intro w hw
        cases t with
        | key name => simpa [fresh?] using hw.symm
        | index i => simp [fresh?] at hw
      · intro w hw
        cases t with
        | key name =>
          -- the map stands in order, so what is put goes where it keeps it so
          rw [setChild, horder.put_eq_insert]
          apply HasShape.map (horder.insert name w)
          intro other x hx
          rcases Keyed.mem_insert hx with heq | hx
          · obtain ⟨-, rfl⟩ := Prod.mk.inj heq
            exact hw
          · exact hentries other x hx
        | index i => exact .map horder hentries
  | record variant slots =>
    obtain ⟨fields, hslots, ht, hkeep⟩ := h.ofRecord hs
    cases t with
    | key name =>
      obtain ⟨e, he, hfound, hput⟩ := hslots.inside ht name
      refine ⟨e, he, hfound, by simp [fresh?], ?_⟩
      intro w hw
      exact hkeep _ (hput w hw)
    | index i => exact ⟨.text, rfl, by simp [Value.child?], by simp [fresh?], fun _ _ => h⟩
  -- into a scalar no step leads, and nothing can be set there
  | bool b => exact ⟨.text, rfl, by simp [Value.child?], by simp [fresh?], fun _ _ => h⟩
  | int w n => exact ⟨.text, rfl, by simp [Value.child?], by simp [fresh?], fun _ _ => h⟩
  | float w x => exact ⟨.text, rfl, by simp [Value.child?], by simp [fresh?], fun _ _ => h⟩
  | text r => exact ⟨.text, rfl, by simp [Value.child?], by simp [fresh?], fun _ _ => h⟩
  | absent => exact ⟨.text, rfl, by simp [Value.child?], by simp [fresh?], fun _ _ => h⟩

theorem HasShape.child? {v w : Value} {s : Shape} (h : HasShape v s) (hs : s.isTidy = true)
    {t : Step} (hw : Value.child? t v = some w) : ∃ e : Shape, e.isTidy = true ∧ HasShape w e := by
  obtain ⟨e, he, hfound, -, -⟩ := h.inside hs t
  exact ⟨e, he, hfound w hw⟩

/-! ## §4 Routes -/

/-- What a route leads to has a tidy shape too. -/
theorem HasShape.at? {v w : Value} {s : Shape} (h : HasShape v s) (hs : s.isTidy = true)
    {r : Route} (hw : Value.at? r v = some w) : ∃ e : Shape, e.isTidy = true ∧ HasShape w e := by
  induction r generalizing v s with
  | nil =>
    obtain rfl := Option.some.inj hw
    exact ⟨s, hs, h⟩
  | cons t r ih =>
    obtain ⟨y, hy, hat⟩ := Option.bind_eq_some_iff.mp hw
    obtain ⟨e, he, hye⟩ := h.child? hs hy
    exact ih hye he hat

/-- A leaf has a shape, and the whole keeps its shape when another scalar of it is put there. -/
theorem HasShape.leaf? {v x : Value} {s : Shape} (h : HasShape v s) (hs : s.isTidy = true)
    {r : Route} (hx : Value.leaf? r v = some x) :
    ∃ e : Shape, e.isTidy = true ∧ HasShape x e ∧
      ∀ w, HasShape w e → HasShape (put r w v) s := by
  induction r generalizing v s with
  | nil =>
    have hv := isSettable_of_leaf?_nil hx
    obtain rfl : v = x := by simpa [Value.leaf?, hv] using hx
    exact ⟨s, hs, h, fun w hw => hw⟩
  | cons t r ih =>
    obtain ⟨e, he, hfound, hfresh, hset⟩ := h.inside hs t
    rcases leaf?_cons_eq_some hx with ⟨y, hy, hleaf⟩ | ⟨hnone, rfl, hzero, -⟩
    · obtain ⟨e', he', hxe, hput⟩ := ih (hfound y hy) he hleaf
      refine ⟨e', he', hxe, ?_⟩
      intro w hw
      rw [put, hy, Option.getD_some]
      exact hset _ (hput w hw)
    · -- a new entry starts as the zero value of the elements
      refine ⟨e, he, ?_, ?_⟩
      · rw [hfresh x hzero]
        exact hasShape_zero e
      · intro w hw
        exact hset _ hw

end Value

end Testbed
