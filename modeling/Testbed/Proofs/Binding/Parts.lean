import Testbed.Proofs.Binding.Building
import Testbed.Proofs.Binding.Routing
import Testbed.Proofs.Binding.Settled

/-!
# What the parts of a value are bound from

`Bound` says that a value is what some data comes to in place of another value. A part of it is then
bound from a part of the data: a field of a record from what stands under its name, or it went back
to zero (`Bound.field`, `Bound.plain`); an item of a list from an item, or from a document that a
pattern has loaded (`Bound.item`, `exists_bound_of_loaded`); and a member of a family, filled under
a key, from what stands under that key (`exists_member_of_fill`).
-/

namespace Testbed

namespace Binding

open Walk Value

/-- Whether a value is what data comes to in a document in place of a target, with some number of
    levels left. -/
def Bound (context : Context) (document : Path) (target : Value) (x : Data) (v : Value) : Prop :=
  ∃ n, ((Deeper.level context n).assign document x target).outcome = .ok v

variable {context : Context} {document : Path} {target v w : Value} {x y : Data}

theorem bound_null (target : Value) : Bound context document target .null target.reset :=
  ⟨1, rfl⟩

/-- On every level, what a walk gives has been bound from the parts of the data. -/
theorem assign_ensures_bound (n : Nat) (x : Data) (target : Value) :
    Ensures (Bound context document target x)
      ((Deeper.level context n).assign document x target) :=
  ((Deeper.level_self n).assign document x target).ensures.mono fun _ h => ⟨n, h⟩

/-- What a value is bound to is put together as the value is. -/
theorem Bound.built {s : Shape} (h : Bound context document target x v) (hs : Built target s) :
    Built v s := by
  obtain ⟨n, h⟩ := h
  exact (Deeper.level_builds n document x hs).outcome h

/-! ## §1 Fields -/

section

variable {slots : Slots} {fs : Fields} {f : Field} {d : Directives}

/-- A record is bound from null, and goes back to zero, or from a map, field by field. -/
theorem Bound.record_cases {variant : Option Variant}
    (h : Bound context document (.record variant slots) x v) :
    (x = .null ∧ v = (Value.record variant slots).reset) ∨
      ∃ es n, x = .map es ∧
        .record variant <$> (slots.mapM fun s => (s.1, ·) <$>
          slotOutcome context (Deeper.level context n) document es s.1 s.2) = .ok v := by
  obtain ⟨n, h⟩ := h
  cases n with
  | zero => cases h
  | succ n =>
    cases x with
    | null => exact .inl ⟨rfl, (Except.ok.inj h).symm⟩
    | map es =>
      have hrecord : (assign context (Deeper.level context n) document (.map es)
          (.record variant slots)).outcome = .ok v := h
      rw [assign_record_outcome_checked (Deeper.level_self _)] at hrecord
      obtain ⟨_, -, hslots⟩ := exists_ok_of_bind hrecord
      exact .inr ⟨es, n, rfl, hslots⟩
    | _ => cases h

/-- What a slot of a record is bound to stands in the record that is made. -/
theorem child?_of_slots {variant : Option Variant} {bind : Field × Value → Except Cause Value}
    (hslots : SlotsBuilt slots fs) (ht : tidyFields fs = true) (hmem : (f, target) ∈ slots)
    (h : .record variant <$> (slots.mapM fun s => (s.1, ·) <$> bind s) = .ok v) :
    ∃ w, child? (.key f.ident) v = some w ∧ bind (f, target) = .ok w := by
  obtain ⟨filled, hfilled, rfl⟩ := exists_ok_of_map h
  obtain ⟨i, hi⟩ := List.mem_iff_getElem?.mp hmem
  obtain ⟨made, hmade, hbound⟩ := exists_getElem?_of_mapM hfilled hi
  obtain ⟨w, hw, rfl⟩ := exists_ok_of_map hbound
  have hnames : filled.map (·.1) = fs.map (·.1) := (names_of_mapM hfilled).trans hslots.names
  exact ⟨w, slotNamed?_of_names ht hnames (List.mem_of_getElem? hmade), hw⟩

/-- A field without a default holds what the data under its name is bound to, or is back at
    zero. -/
theorem Bound.field (hslots : SlotsHave slots fs) (ht : tidyFields fs = true)
    (hmem : (f, target) ∈ slots) (hd : directives f = .ok d) (hdefault : d.default? = none)
    (h : Bound context document (.record none slots) x v) :
    ∃ w, child? (.key f.ident) v = some w ∧
      (w = target.reset ∨ ∃ y n, Data.child? (.key f.ident) x = some y ∧ y ≠ .null ∧
        (field context (Deeper.level context n) document d y target).outcome = .ok w) := by
  obtain ⟨hname, e, he, htarget⟩ := hslots.of_mem ht hmem
  have hident : documentName f d = f.ident := documentName_eq hname hd
  have habsent := htarget.ne_absent he
  rcases h.record_cases with ⟨-, rfl⟩ | ⟨es, n, rfl, hbound⟩
  · refine ⟨target.reset, ?_, .inl rfl⟩
    rw [reset, child?, slotNamed?_resetSlots, hslots.slotNamed?_of_mem ht hmem]
    rfl
  · obtain ⟨w, hw, hslot⟩ := child?_of_slots hslots.built ht hmem hbound
    refine ⟨w, hw, ?_⟩
    cases hx : present? (documentName f d) es with
    | none =>
      rw [slotOutcome_absent hd habsent hx, fields.absentField, hdefault] at hslot
      exact .inl (Except.ok.inj hslot).symm
    | some y =>
      rw [slotOutcome_present hd habsent hx] at hslot
      obtain ⟨hget, hnull⟩ := Option.filter_eq_some_iff.mp hx
      refine .inr ⟨y, n, hident ▸ hget, ?_, hslot⟩
      rintro rfl
      simp [Data.isNull] at hnull

/-- What no directive takes care of is bound by its shape. -/
theorem bound_of_field {n : Nat} (hfactory : d.factory? = none) (hstring : d.string? = none)
    (hpath : d.isPath = false) (hload : ∀ s, x = .text s → d.isLoadable = false)
    (h : (field context (Deeper.level context n) document d x target).outcome = .ok w) :
    Bound context document target x w := by
  have hvalue : field context (Deeper.level context n) document d x target =
      value context (Deeper.level context n) document d x target := by
    unfold Binding.field
    rw [hfactory, hstring]
  rw [hvalue, value_outcome (Deeper.level_self _) hload] at h
  obtain ⟨_, -, hassign⟩ := exists_ok_of_bind h
  exact ⟨n, by simpa [hpath] using hassign⟩

/-- A field without any directives is bound by its shape, from what stands under its name or from
    null. -/
theorem Bound.plain (hslots : SlotsHave slots fs) (ht : tidyFields fs = true)
    (hmem : (f, target) ∈ slots) (hd : directives f = .ok ⟨[("name", f.ident)]⟩)
    (h : Bound context document (.record none slots) x v) :
    ∃ w y, child? (.key f.ident) v = some w ∧ Bound context document target y w ∧
      (y = .null ∨ Data.child? (.key f.ident) x = some y) := by
  obtain ⟨w, hw, rfl | ⟨y, n, hy, -, hfield⟩⟩ := h.field hslots ht hmem hd rfl
  · exact ⟨_, .null, hw, bound_null target, .inl rfl⟩
  · exact ⟨w, y, hw, bound_of_field rfl rfl rfl (fun _ _ => rfl) hfield, .inr hy⟩

end

/-! ## §2 Items -/

variable {e : Shape} {old : List Value} {i : Nat}

/-- An item of what is bound comes from an item of the data. -/
theorem Bound.item (h : Bound context document (.list e old) x v)
    (hw : child? (.index i) v = some w) :
    ∃ xs y, x = .list xs ∧ y ∈ xs ∧ Bound context document e.zero y w := by
  obtain ⟨n, h⟩ := h
  cases n with
  | zero => cases h
  | succ n =>
    cases x with
    | null =>
      obtain rfl := Except.ok.inj h
      simp [reset, child?] at hw
    | list xs =>
      have hlist : (assign context (Deeper.level context n) document (.list xs)
          (.list e old)).outcome = .ok v := h
      rw [assign_list_outcome (Deeper.level_self _)] at hlist
      obtain ⟨vs, hvs, rfl⟩ := exists_ok_of_map hlist
      obtain ⟨y, hy, hbound⟩ := exists_mem_of_mapM hvs w (List.mem_of_getElem? hw)
      exact ⟨xs, y, rfl, hy, n, hbound⟩
    | _ => cases h

/-- An item of a list for which a pattern stands is bound from a document that the pattern loads. -/
theorem exists_bound_of_loaded {n : Nat} {pattern : String}
    (h : (loaded context (Deeper.level context n) document pattern (.list e old)).outcome = .ok v)
    (hw : child? (.index i) v = some w) :
    ∃ documents d, Document.loadMatching context.files document.directory pattern = .ok documents ∧
      d ∈ documents ∧ Bound context d.path e.zero d.data w := by
  rw [loaded_list_outcome (Deeper.level_self n)] at h
  obtain ⟨documents, hload, hlist⟩ := exists_ok_of_bind h
  obtain ⟨vs, hvs, hv⟩ := exists_ok_of_map hlist
  cases hv
  obtain ⟨d, hd, hbound⟩ := exists_mem_of_mapM hvs w (List.mem_of_getElem? hw)
  exact ⟨documents, d, hload, hd, n, hbound⟩

/-! ## §3 Members -/

/-- What a factory fills under a key is bound from what stands under the key, in place of the member
    of the family that the key names. -/
theorem exists_member_of_fill {f : Factory} {family : Family} {member : Platform → Variant}
    (hf : f.byName? = some (family, member)) {n : Nat} {old : List (String × Value)}
    (h : ((Deeper.level context n).fill f document x (.map (.oneOf family) old)).outcome = .ok v)
    {key : String} (hw : child? (.key key) v = some w) :
    ∃ es y p, x = .map es ∧ (key, y) ∈ es ∧ Platform.ofName? key = some p ∧
      Bound context document (member p).zero y w := by
  cases n with
  | zero => cases h
  | succ n =>
    obtain ⟨unknown, hfill⟩ := Position.fill_of_byName? hf
    rw [Position.level_fill, hfill] at h
    cases x with
    | map es =>
      let P (key : String) (w : Value) : Prop := ∃ y p, (key, y) ∈ es ∧
        Platform.ofName? key = some p ∧ Bound context document (member p).zero y w
      have hmembers : Ensures (fun v => ∀ key w, child? (.key key) v = some w → P key w)
          (byName (Deeper.level context n) f family member unknown document (.map es)
            (.map (.oneOf family) old)) := by
        rw [byName, if_pos rfl]
        refine (Ensures.insideMap (members_ensures ?_ eachEntry_nil)).bind fun filled hfilled =>
          .pure fun key w hw => hfilled.each key w (Keyed.mem_of_get?_eq_some hw)
        intro key y zero hmem hzero
        obtain ⟨p, hp, rfl⟩ := Option.map_eq_some_iff.mp hzero
        exact (assign_ensures_bound n y _).mono fun w hw => ⟨y, p, hmem, hp, hw⟩
      obtain ⟨y, p, hmem, hp, hbound⟩ := hmembers.outcome h key w hw
      exact ⟨es, y, p, rfl, hmem, hp, hbound⟩
    | _ => cases h

/-- A member of a family stays the member that it is, unless it is bound from null. -/
theorem Bound.variant? {variant : Variant} (h : Bound context document variant.zero x v) :
    v.variant? = some variant ∨ x = .null ∧ v.variant? = some variant.family.first := by
  rcases h.record_cases with ⟨rfl, rfl⟩ | ⟨es, n, rfl, hslots⟩
  · exact .inr ⟨rfl, by rw [reset, Family.initial_eq]; rfl⟩
  · obtain ⟨_, -, rfl⟩ := exists_ok_of_map hslots
    exact .inl rfl

end Binding

end Testbed
