import Testbed.Proofs.Overwrite.Setting
import Testbed.Proofs.Value.Frame
import Testbed.Proofs.Value.Shaped
import Testbed.Value.Merge

/-!
# Values built as a shape says

`Built` says that a value is put together as a shape says: its scalars are of the kind, its maps
stand in the order of their keys, its records have the fields that are declared, and its members of
families are members. What the scalars hold and how long the lists are is left open, so that every
walk and every overwrite keeps to it, whatever it is given.

Two values that are built alike merge into a third, where no member of a family is merged with
another (`Built.merge`); and a step into what is merged leads to what it leads to in one of the two,
or to the merge of both (`child?_merge_record`, `child?_merge_map`, `child?_merge_list`).
-/

namespace Testbed

mutual
/-- Whether values of a shape are merged without members of families being merged: these are found
    in lists and maps alone, which are merged by their items and entries. -/
def Shape.isFixed : Shape → Bool
  | .record fields => fieldsFixed fields
  | .oneOf _ => false
  | _ => true
/-- Whether the shapes of fields are so. -/
def fieldsFixed : Fields → Bool
  | [] => true
  | (_, s) :: rest => s.isFixed && fieldsFixed rest
end

namespace Value

mutual
/-- Whether a value is put together as a shape says. -/
inductive Built : Value → Shape → Prop
  | bool (b : Bool) : Built (bool b) .bool
  | int (w : IntWidth) (n : Int) : Built (int w n) (.int w)
  | float (w : FloatWidth) (x : Number.Binary) : Built (float w x) (.float w)
  | text (s : String) : Built (text s) .text
  | list {e : Shape} {items : List Value} (hitems : ∀ v ∈ items, Built v e) :
      Built (list e items) (.list e)
  | map {e : Shape} {entries : List (String × Value)} (horder : Keyed.Ordered entries)
      (hentries : ∀ name v, (name, v) ∈ entries → Built v e) : Built (map e entries) (.map e)
  | record {fields : Fields} {slots : Slots} (hslots : SlotsBuilt slots fields) :
      Built (record none slots) (.record fields)
  | member {v : Variant} {slots : Slots} (hslots : SlotsBuilt slots v.fields) :
      Built (record (some v) slots) (.oneOf v.family)
  | absent : Built absent .absent
/-- Whether slots are the fields of a record with values that are put together as declared. -/
inductive SlotsBuilt : Slots → Fields → Prop
  | nil : SlotsBuilt [] []
  | cons {field : Field} {v : Value} {s : Shape} {slots : Slots} {fields : Fields}
      (hv : Built v s) (hslots : SlotsBuilt slots fields) :
      SlotsBuilt ((field, v) :: slots) ((field, s) :: fields)
end

/-- The member of a family that a value is. -/
def variant? : Value → Option Variant
  | record variant _ => variant
  | _ => none

variable {v w x : Value} {s : Shape} {slots others : Slots} {fields : Fields}

/-! ## §1 Values of a shape -/

mutual
/-- A value of a shape is built by it. -/
theorem HasShape.built : {v : Value} → {s : Shape} → HasShape v s → Built v s
  | _, _, .bool b => .bool b
  | _, _, .int _ => .int _ _
  | _, _, .float _ => .float _ _
  | _, _, .text r => .text r
  | _, _, .list _ hitems => .list fun v hv => (hitems v hv).built
  | _, _, .map horder hentries => .map horder fun name v hv => (hentries name v hv).built
  | _, _, .record hslots => .record hslots.built
  | _, _, .member hslots => .member hslots.built
  | _, _, .absent => .absent
theorem SlotsHave.built : {slots : Slots} → {fields : Fields} → SlotsHave slots fields →
    SlotsBuilt slots fields
  | _, _, .nil => .nil
  | _, _, .cons hv hslots => .cons hv.built hslots.built
end

/-- New values are built by their shapes. -/
theorem built_zero (s : Shape) : Built s.zero s :=
  (hasShape_zero s).built

theorem built_variant (v : Variant) : Built v.zero (.oneOf v.family) :=
  .member (slotsHave_zero v.fields).built

/-- What is built as a member of a family is one, with its fields. -/
theorem Built.exists_member {f : Family} (h : Built v (.oneOf f)) :
    ∃ variant slots, v = Value.record (some variant) slots ∧ variant.family = f ∧
      SlotsBuilt slots variant.fields := by
  generalize hs : Shape.oneOf f = s at h
  cases h with
  | @member variant slots hslots =>
    obtain rfl := Shape.oneOf.inj hs
    exact ⟨variant, slots, rfl, rfl, hslots⟩
  | _ => cases hs

mutual
/-- What goes back to zero is the zero value of its shape; a member of a family may become another
    one. -/
theorem Built.reset_eq : {v : Value} → {s : Shape} → Built v s → v.reset = s.zero
  | _, _, .bool _ => rfl
  | _, _, .int _ _ => rfl
  | _, _, .float _ _ => rfl
  | _, _, .text _ => rfl
  | _, _, .list _ => rfl
  | _, _, .map _ _ => rfl
  | _, _, .record hslots => congrArg (Value.record none) hslots.reset_eq
  | _, _, .member _ => rfl
  | _, _, .absent => rfl
/-- Slots are reset to those of new records, whatever they hold. -/
theorem SlotsBuilt.reset_eq : {slots : Slots} → {fields : Fields} → SlotsBuilt slots fields →
    resetSlots slots = Fields.zero fields
  | _, _, .nil => rfl
  | _, _, .cons hv hslots => by
    rw [resetSlots, hv.reset_eq, hslots.reset_eq]
    rfl
end

/-- Going back to zero keeps a value as it is put together. -/
theorem Built.reset (h : Built v s) : Built v.reset s := by
  rw [h.reset_eq]
  exact built_zero s

/-! ## §2 Slots -/

theorem SlotsBuilt.putSlot (h : SlotsBuilt slots fields) {name : String}
    (hx : slotNamed? name slots = some x) (hw : ∀ s, Built x s → Built w s) :
    SlotsBuilt (putSlot name w slots) fields := by
  induction slots generalizing fields with
  | nil => simp [slotNamed?] at hx
  | cons e rest ih =>
    cases h with
    | @cons field v s _ fields hv hslots =>
      simp only [slotNamed?, Value.putSlot] at hx ⊢
      cases hname : field.documentName? with
      | none => simp [hname] at hx
      | some n =>
        simp only [hname] at hx
        by_cases hn : n = name
        · obtain rfl : v = x := by simpa [hn] using hx
          simpa [hn] using .cons (hw s hv) hslots
        · simpa [hn] using .cons hv (ih hslots (by simpa [hn] using hx))

/-- The shape that is declared under an identifier. -/
def shape? (ident : String) (fields : Fields) : Option Shape :=
  (fields.find? fun (field, _) => field.ident = ident).map (·.2)

/-- What is found in a slot is built by the shape of its field. -/
theorem SlotsBuilt.slot? (h : SlotsBuilt slots fields) {variant : Option Variant} {ident : String}
    (hv : (record variant slots).slot? ident = some v) :
    ∃ s, shape? ident fields = some s ∧ Built v s := by
  induction slots generalizing fields with
  | nil => simp [Value.slot?] at hv
  | cons e rest ih =>
    cases h with
    | @cons field w s _ fields hw hslots =>
      simp only [Value.slot?, shape?, List.find?_cons] at hv ih ⊢
      by_cases hfield : field.ident = ident
      · obtain rfl : w = v := by simpa [hfield] using hv
        exact ⟨s, by simp [hfield], hw⟩
      · simpa [hfield] using ih hslots (by simpa [hfield] using hv)

/-- Another value in a slot, where the slot takes it. -/
theorem SlotsBuilt.setSlot (h : SlotsBuilt slots fields) {ident : String}
    (hw : ∀ f s, (f, s) ∈ fields → f.ident = ident → Built w s) :
    SlotsBuilt (slots.map fun (field, v) => (field, if field.ident = ident then w else v))
      fields := by
  induction slots generalizing fields with
  | nil => exact h
  | cons e rest ih =>
    cases h with
    | @cons field v s _ fields hv hslots =>
      refine .cons ?_ (ih hslots fun f s hmem => hw f s (List.mem_cons_of_mem _ hmem))
      split
      · next hident => exact hw field s List.mem_cons_self hident
      · exact hv

/-- The slot with a name in documents is the one with the identifier, where all fields are named by
    their identifiers. -/
theorem SlotsBuilt.slotNamed?_eq (h : SlotsBuilt slots fields) (ht : tidyFields fields = true)
    (variant : Option Variant) (name : String) :
    slotNamed? name slots = (record variant slots).slot? name := by
  induction slots generalizing fields with
  | nil => rfl
  | cons e rest ih =>
    cases h with
    | @cons field v s _ fields hv hslots =>
      obtain ⟨hname, -, -, -, hrest⟩ := tidyFields_cons.mp ht
      simp only [slotNamed?, hname, Value.slot?, List.find?_cons] at ih ⊢
      by_cases hfield : field.ident = name
      · simp [hfield]
      · simpa [hfield] using ih hslots hrest

/-- Every slot belongs to a field, and is built by its shape. -/
theorem SlotsBuilt.exists_field (h : SlotsBuilt slots fields) {f : Field} (hv : (f, v) ∈ slots) :
    ∃ s, (f, s) ∈ fields ∧ Built v s := by
  induction slots generalizing fields with
  | nil => cases hv
  | cons e rest ih =>
    cases h with
    | cons hw hslots =>
      rcases List.mem_cons.mp hv with heq | hv
      · obtain ⟨rfl, rfl⟩ := Prod.mk.inj heq
        exact ⟨_, List.mem_cons_self, hw⟩
      · obtain ⟨s, hs, hbuilt⟩ := ih hslots hv
        exact ⟨s, List.mem_cons_of_mem _ hs, hbuilt⟩

/-- Every field has a slot, built by its shape. -/
theorem SlotsBuilt.exists_slot (h : SlotsBuilt slots fields) {f : Field} (hs : (f, s) ∈ fields) :
    ∃ v, (f, v) ∈ slots ∧ Built v s := by
  induction slots generalizing fields with
  | nil =>
    cases h
    cases hs
  | cons e rest ih =>
    cases h with
    | @cons _ w _ _ _ hw hslots =>
      rcases List.mem_cons.mp hs with heq | hs
      · obtain ⟨rfl, rfl⟩ := Prod.mk.inj heq
        exact ⟨w, List.mem_cons_self, hw⟩
      · obtain ⟨v, hv, hbuilt⟩ := ih hslots hs
        exact ⟨v, List.mem_cons_of_mem _ hv, hbuilt⟩

theorem SlotsBuilt.names (h : SlotsBuilt slots fields) : slots.map (·.1) = fields.map (·.1) := by
  induction slots generalizing fields with
  | nil =>
    cases h
    rfl
  | cons e rest ih =>
    cases h with
    | cons _ hslots => rw [List.map_cons, List.map_cons, ih hslots]

/-- A slot is found by the name of its field, whatever the slots hold. -/
theorem slotNamed?_of_names (ht : tidyFields fields = true)
    (hnames : slots.map (·.1) = fields.map (·.1)) {f : Field} (hv : (f, v) ∈ slots) :
    slotNamed? f.ident slots = some v := by
  induction slots generalizing fields with
  | nil => cases hv
  | cons e rest ih =>
    cases fields with
    | nil => cases hnames
    | cons e' fields =>
      obtain ⟨field, w⟩ := e
      obtain ⟨field', s⟩ := e'
      obtain ⟨hname, -, hdistinct, -, hrest⟩ := tidyFields_cons.mp ht
      obtain ⟨rfl, hothers⟩ : field = field' ∧ rest.map (·.1) = fields.map (·.1) := by
        simpa using hnames
      rcases List.mem_cons.mp hv with heq | hv
      · obtain ⟨rfl, rfl⟩ := Prod.mk.inj heq
        simp [slotNamed?, hname]
      · have hmem : f ∈ fields.map (·.1) := hothers ▸ List.mem_map_of_mem hv
        obtain ⟨e', he', rfl⟩ := List.mem_map.mp hmem
        have hne : field.ident ≠ e'.1.ident := fun heq => hdistinct e' he' heq.symm
        simpa [slotNamed?, hname, hne] using ih hrest hothers hv

/-- A slot is found by its identifier. -/
theorem SlotsBuilt.slot?_of_mem (h : SlotsBuilt slots fields) (ht : tidyFields fields = true)
    (variant : Option Variant) {f : Field} (hv : (f, v) ∈ slots) :
    (record variant slots).slot? f.ident = some v := by
  induction slots generalizing fields with
  | nil => cases hv
  | cons e rest ih =>
    cases h with
    | @cons field w s _ fields hw hslots =>
      obtain ⟨-, -, hdistinct, -, hrest⟩ := tidyFields_cons.mp ht
      rcases List.mem_cons.mp hv with heq | hv
      · obtain ⟨rfl, rfl⟩ := Prod.mk.inj heq
        simp [Value.slot?]
      · obtain ⟨s', hs', -⟩ := hslots.exists_field hv
        have hne : field.ident ≠ f.ident := fun heq => hdistinct _ hs' heq.symm
        simpa [Value.slot?, hne] using ih hslots hrest hv

/-- A field that is declared has a slot. -/
theorem Built.exists_slot? (h : Built v (.record fields)) (ht : tidyFields fields = true)
    {f : Field} (hs : (f, s) ∈ fields) : ∃ w, v.slot? f.ident = some w ∧ Built w s := by
  cases h with
  | record hslots =>
    obtain ⟨w, hw, hbuilt⟩ := hslots.exists_slot hs
    exact ⟨w, hslots.slot?_of_mem ht none hw, hbuilt⟩

/-- What is set is found where there was a slot for it, and all else is found as before. -/
theorem slot?_setSlot (variant : Option Variant) (slots : Slots) (ident other : String)
    (w : Value) :
    ((record variant slots).setSlot ident w).slot? other =
      if other = ident then ((record variant slots).slot? other).map fun _ => w
      else (record variant slots).slot? other := by
  induction slots with
  | nil => simp [setSlot, Value.slot?]
  | cons e rest ih =>
    simp only [setSlot, Value.slot?, List.map_cons, List.find?_cons] at ih ⊢
    by_cases hfield : e.1.ident = other
    · subst hfield
      by_cases hident : e.1.ident = ident <;> simp [hident]
    · simpa [hfield] using ih

/-- Where fields are tidy, a slot is found by the name of its field in documents. -/
theorem Built.slot?_eq (h : Built v (.record fields)) (ht : tidyFields fields = true)
    (name : String) : v.slot? name = child? (.key name) v := by
  cases h with
  | record hslots => exact (hslots.slotNamed?_eq ht none name).symm

/-- What is under the name of a field is built by the field's shape. -/
theorem Built.field (h : Built v (.record fields)) (ht : tidyFields fields = true) {name : String}
    (hx : child? (.key name) v = some x) {s : Shape} (hs : shape? name fields = some s) :
    Built x s := by
  rw [← h.slot?_eq ht] at hx
  cases h with
  | record hslots =>
    obtain ⟨s', hs', hbuilt⟩ := hslots.slot? hx
    obtain rfl := Option.some.inj (hs'.symm.trans hs)
    exact hbuilt

theorem at?_singleton (t : Step) (v : Value) : at? [t] v = child? t v := by
  rw [at?]
  cases child? t v <;> rfl

/-- The entries of a map that a record holds are found by their keys. -/
theorem at?_of_mem_entries (h : Built v (.record fields)) (ht : tidyFields fields = true)
    {name : String} {e : Shape} (hs : shape? name fields = some (.map e)) {key : String}
    (hx : (key, x) ∈ ((v.slot? name).map entries).getD []) :
    at? [.key name, .key key] v = some x ∧ Built x e := by
  cases hslot : v.slot? name with
  | none => simp [hslot] at hx
  | some m =>
    have hm : child? (.key name) v = some m := (h.slot?_eq ht name).symm.trans hslot
    cases h.field ht hm hs with
    | @map _ es horder hentries =>
      have hmem : (key, x) ∈ es := by simpa [hslot, entries] using hx
      refine ⟨?_, hentries key x hmem⟩
      rw [at?, hm, Option.bind_some, at?_singleton]
      exact Keyed.get?_eq_some_of_mem horder.nodup_keys hmem

/-! ## §3 Setting inside -/

/-- A value stays built when something inside is given another value of its shape. -/
theorem Built.setChild {t : Step} (h : Built v s) (hx : child? t v = some x)
    (hw : ∀ e, Built x e → Built w e) : Built (setChild t w v) s := by
  cases h with
  | @list e items hitems =>
    cases t with
    | key name => simp [Value.child?] at hx
    | index i =>
      refine .list fun y hy => ?_
      rcases List.mem_or_eq_of_mem_set hy with hy | rfl
      · exact hitems y hy
      · exact hw e (hitems x (List.mem_of_getElem? hx))
  | @map e entries horder hentries =>
    cases t with
    | key name =>
      rw [Value.setChild, horder.put_eq_insert]
      refine .map (horder.insert name w) fun other y hy => ?_
      rcases Keyed.mem_insert hy with heq | hy
      · obtain ⟨-, rfl⟩ := Prod.mk.inj heq
        exact hw e (hentries name x (Keyed.mem_of_get?_eq_some hx))
      · exact hentries other y hy
    | index i => simp [Value.child?] at hx
  | record hslots =>
    cases t with
    | key name => exact .record (hslots.putSlot hx hw)
    | index i => simp [Value.child?] at hx
  | member hslots =>
    cases t with
    | key name => exact .member (hslots.putSlot hx hw)
    | index i => simp [Value.child?] at hx
  | _ => cases t <;> simp [Value.child?] at hx

/-- What is put in place of a leaf leaves the whole as it is put together, if it does so itself. -/
theorem Built.put {r : Route} (h : Built v s) (hx : leaf? r v = some x)
    (hw : ∀ e, Built x e → Built w e) : Built (put r w v) s := by
  induction r generalizing v s with
  | nil =>
    have hv := isSettable_of_leaf?_nil hx
    obtain rfl : v = x := by simpa [leaf?, hv] using hx
    exact hw s h
  | cons t r ih =>
    rcases leaf?_cons_eq_some hx with ⟨y, hy, hleaf⟩ | ⟨hnone, rfl, hfresh, -⟩
    · rw [Value.put, hy, Option.getD_some]
      exact h.setChild hy fun e he => ih he hleaf
    · -- a new entry was the zero value of the elements
      cases h with
      | @map e entries horder hentries =>
        cases t with
        | key name =>
          obtain rfl : e.zero = x := by simpa [fresh?] using hfresh
          rw [Value.put, Value.setChild, horder.put_eq_insert]
          refine .map (horder.insert name _) fun other y hy => ?_
          rcases Keyed.mem_insert hy with heq | hy
          · obtain ⟨-, rfl⟩ := Prod.mk.inj heq
            exact hw e (built_zero e)
          · exact hentries other y hy
        | index i => simp [fresh?] at hfresh
      | _ => cases t <;> simp [fresh?] at hfresh

/-- What is stored in a leaf is put together as the leaf. -/
theorem built_of_store? {raw : String} {e : Shape} (hx : Built x e) (h : store? raw x = some w) :
    Built w e := by
  cases hx with
  | text s =>
    obtain rfl := Option.some.inj ((store?_text raw s).symm.trans h)
    exact .text raw
  | int k n =>
    rw [store?_int] at h
    obtain ⟨m, -, hstore⟩ := Option.bind_eq_some_iff.mp h
    obtain ⟨-, rfl⟩ := ofInt?_eq_some_iff.mp hstore
    exact .int k m
  | float k y =>
    rw [store?_float] at h
    obtain ⟨z, -, hstore⟩ := Option.bind_eq_some_iff.mp h
    obtain ⟨y', rfl⟩ := ofFloat?_eq_some hstore
    exact .float k y'
  | _ => simp [store?, setScalar] at h

/-- What is put in place of a leaf is a scalar, so members stay where they are, and the same. -/
theorem variant?_at?_put {r : Route} (h : leaf? r v = some x) (hw : w.isSettable) (q : Route) :
    (at? q (put r w v)).bind variant? = (at? q v).bind variant? := by
  have hscalar {y : Value} (hy : y.isSettable) (q : Route) : (at? q y).bind variant? = none := by
    cases q with
    | nil => cases y <;> first | rfl | simp [isSettable] at hy
    | cons t q => simp [at?_cons_of_isSettable hy]
  induction r generalizing q v with
  | nil => rw [Value.put, hscalar hw, hscalar (isSettable_of_leaf?_nil h)]
  | cons t r ih =>
    cases q with
    | nil => cases v <;> cases t <;> rfl
    | cons s q =>
      by_cases hst : s = t
      · subst hst
        rw [at?, child?_put_cons h, Option.bind_some, at?]
        rcases leaf?_cons_eq_some h with ⟨y, hy, hleaf⟩ | ⟨hnone, rfl, -, -⟩
        · rw [hy, Option.getD_some, Option.bind_some]
          exact ih hleaf q
        · rw [hnone, Value.put, hscalar hw]
          rfl
      · simp only [at?, Value.put, child?_setChild_of_ne hst]

/-! ## §4 Merging -/

mutual
/-- Values of a fixed shape are merged into one of that shape. -/
theorem Built.merge : {v w : Value} → {s : Shape} → Built v s → s.isFixed = true → Built w s →
    Built (v.merge w) s
  | _, _, _, .bool _, _, .bool b => .bool b
  | _, _, _, .int w _, _, .int _ n => .int w n
  | _, _, _, .float w _, _, .float _ x => .float w x
  | _, _, _, .text _, _, .text _ => by
    rw [Value.merge]
    split <;> exact .text _
  | _, _, _, .list hitems, _, .list hitems' => by
    rw [Value.merge]
    exact .list (List.forall_mem_append.mpr ⟨hitems, hitems'⟩)
  | _, _, _, .map horder hentries, _, .map _ hentries' => by
    rw [Value.merge]
    refine .map (horder.union _) fun name v hv => ?_
    rcases Keyed.mem_union hv with hv | hv
    · exact hentries name v hv
    · exact hentries' name v hv
  | _, _, _, .record hslots, hs, .record hothers => by
    rw [Value.merge]
    exact .record (hslots.merge (by simpa [Shape.isFixed] using hs) hothers)
  | _, _, _, .member _, hs, _ => by simp [Shape.isFixed] at hs
  | _, _, _, .absent, _, .absent => .absent
theorem SlotsBuilt.merge : {slots others : Slots} → {fields : Fields} →
    SlotsBuilt slots fields → fieldsFixed fields = true → SlotsBuilt others fields →
      SlotsBuilt (mergeSlots slots others) fields
  | _, _, _, .nil, _, .nil => .nil
  | _, _, _, .cons hv hslots, hfixed, .cons hw hothers => by
    simp only [fieldsFixed, Bool.and_eq_true] at hfixed
    rw [mergeSlots]
    exact .cons (hv.merge hfixed.1 hw) (hslots.merge hfixed.2 hothers)
end

/-- A field of what two records merge into holds the merge of what the two hold. -/
theorem child?_merge_record {name : String} (hv : Built v (.record fields))
    (hw : Built w (.record fields)) (hx : child? (.key name) (v.merge w) = some x) :
    ∃ y z, child? (.key name) v = some y ∧ child? (.key name) w = some z ∧ x = y.merge z := by
  cases hv with
  | @record _ slots hslots =>
    cases hw with
    | @record _ others hothers =>
      rw [merge] at hx
      simp only [child?] at hx ⊢
      induction slots generalizing others fields with
      | nil =>
        cases hslots
        cases hothers
        simp [mergeSlots, slotNamed?] at hx
      | cons e rest ih =>
        cases hslots with
        | @cons field y s _ fields hy hslots =>
          cases hothers with
          | @cons _ z _ others _ hz hothers =>
            simp only [mergeSlots, slotNamed?] at hx ⊢
            cases hname : field.documentName? with
            | none => simp [hname] at hx
            | some n =>
              by_cases hn : n = name
              · simp only [hname, hn, if_true, Option.some.injEq] at hx
                exact ⟨y, z, by simp [hn], by simp [hn], hx.symm⟩
              · simpa [hname, hn] using ih hslots (by simpa [hname, hn] using hx) hothers

/-- An entry of what two maps merge into is one of theirs. -/
theorem child?_merge_map {name : String} {e : Shape} (hv : Built v (.map e))
    (hw : Built w (.map e)) (hx : child? (.key name) (v.merge w) = some x) :
    child? (.key name) v = some x ∨ child? (.key name) w = some x := by
  cases hv with
  | @map _ es horder hentries =>
    cases hw with
    | @map _ fs horder' hentries' =>
      rw [merge] at hx
      simp only [child?, Keyed.get?_union horder'.nodup_keys, Option.or_eq_some_iff] at hx ⊢
      tauto

/-- An item of what two lists merge into is one of theirs. -/
theorem child?_merge_list {i : Nat} {e : Shape} (hv : Built v (.list e))
    (hw : Built w (.list e)) (hx : child? (.index i) (v.merge w) = some x) :
    ∃ j, child? (.index j) v = some x ∨ child? (.index j) w = some x := by
  cases hv with
  | @list _ xs hitems =>
    cases hw with
    | @list _ ys hitems' =>
      rw [merge] at hx
      simp only [child?, List.getElem?_append] at hx ⊢
      split at hx
      · exact ⟨i, .inl hx⟩
      · exact ⟨_, .inr hx⟩

theorem at?_append (q r : Route) (v : Value) : at? (q ++ r) v = (at? q v).bind (at? r) := by
  induction q generalizing v with
  | nil => rfl
  | cons t q ih =>
    simp only [List.cons_append, at?, Option.bind_assoc]
    congr 1
    funext y
    exact ih y

section

variable {name : String} {e : Shape} (ht : tidyFields fields = true)
  (hv : Built v (.record fields)) (hw : Built w (.record fields))

include ht hv hw

/-- An entry of a merged map comes from one of the two. -/
theorem at?_merge_entry (hs : shape? name fields = some (.map e)) {key : String}
    (hx : at? [.key name, .key key] (v.merge w) = some x) :
    at? [.key name, .key key] v = some x ∨ at? [.key name, .key key] w = some x := by
  obtain ⟨m, hm, hx⟩ := Option.bind_eq_some_iff.mp hx
  rw [at?_singleton] at hx
  obtain ⟨y, z, hy, hz, rfl⟩ := child?_merge_record hv hw hm
  simpa only [at?, hy, hz, Option.bind_some, Option.bind_fun_some] using
    child?_merge_map (hv.field ht hy hs) (hw.field ht hz hs) hx

/-- An item of a merged list comes from one of the two, with another index perhaps. -/
theorem at?_merge_item (hs : shape? name fields = some (.list e)) {i : Nat}
    (hx : at? [.key name, .index i] (v.merge w) = some x) :
    ∃ j, at? [.key name, .index j] v = some x ∨ at? [.key name, .index j] w = some x := by
  obtain ⟨m, hm, hx⟩ := Option.bind_eq_some_iff.mp hx
  rw [at?_singleton] at hx
  obtain ⟨y, z, hy, hz, rfl⟩ := child?_merge_record hv hw hm
  simpa only [at?, hy, hz, Option.bind_some, Option.bind_fun_some] using
    child?_merge_list (hv.field ht hy hs) (hw.field ht hz hs) hx

end

end Value

end Testbed
