import Testbed.Proofs.Data.Leaves
import Testbed.Proofs.Value.Shaped

/-!
# Values as data

A value of a shape and its data are entered by the same routes: the names that fields have in
documents are the keys that records are shown with. So what stands at a route of the data is the
data of what stands there in the value (`toData_at?`), and putting a scalar at a leaf of the value
puts its data at the same route of the data (`toData_put`).
-/

namespace Testbed.Value

/-! ## §1 Containers -/

theorem itemsData_eq_map (items : List Value) : itemsData items = items.map toData := by
  induction items with
  | nil => rfl
  | cons v rest ih => rw [itemsData, ih, List.map_cons]

theorem entriesData_eq_map (entries : List (String × Value)) :
    entriesData entries = entries.map fun e => (e.1, e.2.toData) := by
  induction entries with
  | nil => rfl
  | cons e rest ih => rw [entriesData, ih, List.map_cons]

/-- A value of a tidy shape is there. -/
theorem HasShape.ne_absent {v : Value} {s : Shape} (h : HasShape v s) (hs : s.isTidy = true) :
    v ≠ Value.absent := by
  rintro rfl
  cases h
  simp [Shape.isTidy] at hs

section

variable {slots : Slots} {fields : Fields}

/-- A slot is shown under the name of its field, before those that follow. -/
theorem slotsData_cons {v : Value} (h : v ≠ absent) (field : Field) (rest : Slots) :
    slotsData ((field, v) :: rest) = (field.ident, v.toData) :: slotsData rest := by
  cases v <;> first | rfl | exact absurd rfl h

/-- No slot of a tidy record is left out. -/
theorem SlotsHave.slotsData (h : SlotsHave slots fields) (ht : tidyFields fields = true) :
    slotsData slots = slots.map fun e => (e.1.ident, e.2.toData) := by
  induction slots generalizing fields with
  | nil => rfl
  | cons e rest ih =>
    cases h with
    | @cons field v s _ fields hv hslots =>
      obtain ⟨-, -, -, hs, hrest⟩ := tidyFields_cons.mp ht
      rw [slotsData_cons (hv.ne_absent hs), ih hslots hrest, List.map_cons]

/-- A record of tidy fields is shown without a key that comes twice. -/
theorem SlotsHave.nodup_keys (h : SlotsHave slots fields) (ht : tidyFields fields = true) :
    (Keyed.keys (Value.slotsData slots)).Nodup := by
  rw [h.slotsData ht, Keyed.keys, List.map_map]
  exact h.nodup ht

/-- A record is shown under the names that its fields have in documents. -/
theorem SlotsHave.get?_slotsData (h : SlotsHave slots fields) (ht : tidyFields fields = true)
    (name : String) :
    Keyed.get? name (Value.slotsData slots) = (slotNamed? name slots).map toData := by
  induction slots generalizing fields with
  | nil => rfl
  | cons e rest ih =>
    cases h with
    | @cons field v s _ fields hv hslots =>
      obtain ⟨hname, -, -, hs, hrest⟩ := tidyFields_cons.mp ht
      rw [slotsData_cons (hv.ne_absent hs), Keyed.get?, slotNamed?, hname, ih hslots hrest]
      simp only
      split <;> rfl

/-- Under the name of a field stands what its slot is shown as. -/
theorem SlotsHave.get?_ofList (h : SlotsHave slots fields) (ht : tidyFields fields = true)
    (name : String) :
    Keyed.get? name (Keyed.ofList (Value.slotsData slots)) =
      (slotNamed? name slots).map toData := by
  rw [Keyed.get?_ofList (h.nodup_keys ht), h.get?_slotsData ht]

/-- Another value in a slot is another value under one key of what is shown. -/
theorem SlotsHave.ofList_putSlot (h : SlotsHave slots fields) (ht : tidyFields fields = true)
    {name : String} {w : Value} {fields' : Fields} (hw : SlotsHave (putSlot name w slots) fields')
    (ht' : tidyFields fields' = true) (hname : (slotNamed? name slots).isSome) :
    Keyed.ofList (Value.slotsData (putSlot name w slots)) =
      Keyed.insert name w.toData (Keyed.ofList (Value.slotsData slots)) := by
  -- both are ordered, so they agree when every key is looked up alike
  apply (Keyed.ordered_ofList _).ext ((Keyed.ordered_ofList _).insert _ _)
  intro other
  rw [hw.get?_ofList ht', Keyed.get?_insert, h.get?_ofList ht, slotNamed?_putSlot]
  split
  · obtain ⟨v, hv⟩ := Option.isSome_iff_exists.mp hname
    simp [hv]
  · rfl

end

/-! ## §2 One step -/

/-- What a step leads to in a value is shown where the step leads to in the data. -/
theorem toData_child? {v : Value} {s : Shape} (h : HasShape v s) (hs : s.isTidy = true)
    (t : Step) : Data.child? t v.toData = (child? t v).map toData := by
  cases v with
  | record variant slots =>
    obtain ⟨fields, hslots, ht, -⟩ := h.ofRecord hs
    cases t with
    | key name => exact hslots.get?_ofList ht name
    | index i => rfl
  | map e entries =>
    cases t with
    | key name =>
      rw [toData, Data.child?, entriesData_eq_map, Keyed.get?_map]
      rfl
    | index i => rfl
  | list e items =>
    cases t with
    | key name => rfl
    | index i =>
      rw [toData, Data.child?, itemsData_eq_map, List.getElem?_map]
      rfl
  | _ => cases t <;> rfl

/-- What is set where a step leads is set there in the data. -/
theorem toData_setChild {v w : Value} {s s' : Shape} (h : HasShape v s) (hs : s.isTidy = true)
    {t : Step} (ht : (child? t v).isSome ∨ (fresh? t v).isSome)
    (hw : HasShape (setChild t w v) s') (hs' : s'.isTidy = true) :
    (setChild t w v).toData = Data.setChild t w.toData v.toData := by
  cases v with
  | record variant slots =>
    cases t with
    | key name =>
      -- a record makes no new entries, so the name is that of a field
      obtain ⟨fields, hslots, htidy, -⟩ := h.ofRecord hs
      obtain ⟨fields', hslots', htidy', -⟩ := hw.ofRecord hs'
      have hname : (slotNamed? name slots).isSome := ht.resolve_right (by simp [fresh?])
      simp only [setChild, toData, Data.setChild]
      rw [hslots.ofList_putSlot htidy hslots' htidy' hname]
    | index i => simp [child?, fresh?] at ht
  | map e entries =>
    cases t with
    | key name =>
      cases h with
      | map horder hentries =>
        simp only [setChild, toData, Data.setChild, entriesData_eq_map]
        rw [horder.put_eq_insert, Keyed.map_insert]
    | index i => simp [child?, fresh?] at ht
  | list e items =>
    cases t with
    | key name => simp [child?, fresh?] at ht
    | index i => simp [setChild, toData, Data.setChild, itemsData_eq_map, List.map_set]
  | _ => simp [child?, fresh?] at ht

/-! ## §3 Routes -/

/-- What stands at a route of the data is the data of what stands there in the value. -/
theorem toData_at? {v : Value} {s : Shape} (h : HasShape v s) (hs : s.isTidy = true) (r : Route) :
    Data.at? r v.toData = (at? r v).map toData := by
  induction r generalizing v s with
  | nil => rfl
  | cons t r ih =>
    rw [Data.at?, at?, toData_child? h hs]
    cases hy : child? t v with
    | none => rfl
    | some y =>
      obtain ⟨e, he, hye⟩ := h.child? hs hy
      exact ih hye he

/-- A scalar put at a leaf is put at the same route of the data. -/
theorem toData_put {v x w : Value} {s s' : Shape} (h : HasShape v s) (hs : s.isTidy = true)
    {r : Route} (hx : leaf? r v = some x) (hw : HasShape (put r w v) s') (hs' : s'.isTidy = true) :
    (put r w v).toData = Data.put r w.toData v.toData := by
  induction r generalizing v s s' with
  | nil => rfl
  | cons t r ih =>
    have hinner : ((put r w ((child? t v).getD absent)).toData) =
        Data.put r w.toData ((Data.child? t v.toData).getD .null) := by
      rw [toData_child? h hs]
      rcases leaf?_cons_eq_some hx with ⟨y, hy, hleaf⟩ | ⟨hnone, rfl, -, -⟩
      · -- what the step leads to has a shape before and after
        obtain ⟨e, he, hye⟩ := h.child? hs hy
        have hchild := child?_put_cons hx w
        rw [hy, Option.getD_some] at hchild
        obtain ⟨e', he', hput⟩ := hw.child? hs' hchild
        rw [hy, Option.getD_some, Option.map_some, Option.getD_some]
        exact ih hye he hleaf hput he'
      · rfl
    -- the step leads somewhere or makes an entry, or there would be no leaf
    have hstep : (child? t v).isSome ∨ (fresh? t v).isSome := by
      rcases leaf?_cons_eq_some hx with ⟨y, hy, -⟩ | ⟨-, -, hfresh, -⟩
      · exact .inl (by simp [hy])
      · exact .inr (by simp [hfresh])
    rw [put] at hw ⊢
    rw [toData_setChild h hs hstep hw hs', Data.put, hinner]

/-! ## §4 The order of keys -/

theorem mem_slotsData {name : String} {d : Data} {slots : Slots} (h : (name, d) ∈ slotsData slots) :
    ∃ e ∈ slots, e.2.toData = d := by
  induction slots with
  | nil => simp [slotsData] at h
  | cons e rest ih =>
    obtain ⟨field, v⟩ := e
    by_cases hv : v = absent
    · -- a slot without a value is not shown
      subst hv
      obtain ⟨e, he, hd⟩ := ih h
      exact ⟨e, List.mem_cons_of_mem _ he, hd⟩
    · rw [slotsData_cons hv] at h
      rcases List.mem_cons.mp h with heq | hmem
      · exact ⟨(field, v), List.mem_cons_self, (Prod.mk.inj heq).2.symm⟩
      · obtain ⟨e, he, hd⟩ := ih hmem
        exact ⟨e, List.mem_cons_of_mem _ he, hd⟩

theorem ordered_record {variant : Option Variant} {slots : Slots}
    (h : ∀ e ∈ slots, e.2.toData.Ordered) : (record variant slots).toData.Ordered := by
  apply Data.Ordered.map (Keyed.ordered_ofList _)
  intro name d hmem
  obtain ⟨e, he, rfl⟩ := mem_slotsData (Keyed.mem_ofList hmem)
  exact h e he

mutual
/-- The data of a value has its keys in order. -/
theorem HasShape.ordered : {v : Value} → {s : Shape} → HasShape v s → v.toData.Ordered
  | _, _, .bool b => .bool b
  | _, _, .int _ => .int _
  | _, _, .float _ => .float _
  | _, _, .text r => .text r
  | _, _, .list _ hitems => by
    rw [toData, itemsData_eq_map]
    apply Data.Ordered.list
    intro d hd
    obtain ⟨v, hv, rfl⟩ := List.mem_map.mp hd
    exact (hitems v hv).ordered
  | _, _, .map horder hentries => by
    rw [toData, entriesData_eq_map]
    apply Data.Ordered.map (horder.map _)
    intro name d hd
    obtain ⟨⟨name', v⟩, hv, heq⟩ := List.mem_map.mp hd
    obtain ⟨-, rfl⟩ := Prod.mk.inj heq
    exact (hentries name' v hv).ordered
  | _, _, .record hslots => ordered_record hslots.ordered
  | _, _, .member hslots => ordered_record hslots.ordered
  | _, _, .absent => .null
/-- The data of the values in slots has its keys in order. -/
theorem SlotsHave.ordered : {slots : Slots} → {fields : Fields} → SlotsHave slots fields →
    ∀ e ∈ slots, e.2.toData.Ordered
  | _, _, .nil => by simp
  | _, _, .cons hv hslots => List.forall_mem_cons.mpr ⟨hv.ordered, hslots.ordered⟩
end

end Testbed.Value
