import Testbed.Proofs.Binding.Reuse
import Testbed.Proofs.Rig.Tags
import Testbed.Proofs.Value.Within

/-!
# Binding what a value is shown as

A value is shown as data, and the data is bound in place of the zero value of the shape. The value
comes back, whether keys are checked or not, if each of its records holds what the tags of its
fields ask for: texts that are allowed, absolute paths of what exists, maps with one of some keys,
and sandboxes and environments under the names of their platforms (`Deeper.level_restores`). Actions
are shown in another form than they are written in, so there are none of them.

How many levels the walk takes is read off the shape (`Shape.height`).
-/

namespace Testbed

open Binding Value

/-! ## §1 What is asked for -/

/-- Whether sandboxes or environments stand under the names of their platforms. -/
def FiledByName (es : List (String × Value)) : Prop :=
  ∀ key w, (key, w) ∈ es → ∃ p, w.platform? = some p ∧ p.name = key

/-- Whether a value is filed as factories file: by the names of platforms, and without actions. -/
inductive Value.Filed : Value → Prop
  | list (e : Shape) : Filed (list e [])
  | map {e : Shape} {es : List (String × Value)} (h : FiledByName es) : Filed (map e es)

/-- Whether a value is one that directives ask for, as far as no files are needed to tell. -/
structure Met (d : Directives) (v : Value) : Prop where
  allowed : ∀ allowed, d.allowed? = some allowed → ∃ s ∈ allowed, v = .text s
  keys : ∀ keys, d.keys? = some keys →
    ∃ e es, v = .map e es ∧ ∃ key ∈ keys, Keyed.has key es = true
  filed : ∀ name, d.factory? = some name → v.Filed

/-- Whether a value is one that directives ask for; a path is absolute, so that it is the same in
    every document. -/
structure Kept (files : FileSystem) (d : Directives) (v : Value) : Prop extends Met d v where
  path : d.isPath = true →
    ∃ p, v = .text p ∧ Path.isAbsolute p = true ∧ files.isPresent p = true

/-- Whether a value, if it is a record, holds what its fields ask for. -/
def Ready (files : FileSystem) (v : Value) : Prop :=
  ∀ variant slots, v = .record variant slots → ∀ f w, (f, w) ∈ slots →
    ∀ d, directives f = .ok d → Kept files d w

/-! ## §2 Levels -/

/-- The levels that binding a sandbox or an environment takes. -/
def memberHeight : Nat := 5

mutual
/-- The levels that binding by a shape takes at most, where there are no actions. -/
def Shape.height : Shape → Nat
  | .list e => e.height + 1
  | .map e => e.height + 1
  | .record fields => fieldsHeight fields + 1
  | .oneOf _ => memberHeight
  | _ => 1
/-- The levels that binding fields takes at most. -/
def fieldsHeight : Fields → Nat
  | [] => 0
  | (_, s) :: rest => max s.height (fieldsHeight rest)
end

/-- Every shape needs a level. -/
theorem Shape.height_pos (s : Shape) : 0 < s.height := by
  cases s <;> simp [height, memberHeight]

section

variable {f : Factory} {family : Family} {member : Platform → Variant}

/-- Members of families need no more levels than are set aside for them. -/
theorem fieldsHeight_member (hf : f.byName? = some (family, member)) (p : Platform) :
    fieldsHeight (member p).fields < memberHeight := by
  cases f <;> cases hf <;> cases p <;> decide +kernel

/-- The platform of a member tells which one it is. -/
theorem eq_member_of_platform? (hf : f.byName? = some (family, member)) {variant : Variant}
    (hfamily : variant.family = family) {slots : Slots} {p : Platform}
    (hp : (record (some variant) slots).platform? = some p) : variant = member p := by
  cases f <;> cases hf <;> cases variant <;> cases hfamily <;> cases hp <;> rfl

end

/-- Whether what a walk may call one level further down gives values back from what they are shown
    as, where they take no more than so many levels. -/
structure Deeper.Restores (files : FileSystem) (n : Nat) (d : Deeper) : Prop where
  assign : ∀ document {v : Value} {s : Shape}, HasShape v s → s.isTidy = true →
    s.isSound = true → Everywhere (Ready files) v → s.height ≤ n →
      (d.assign document v.toData s.zero).outcome = .ok v
  member : ∀ document {variant : Variant} {slots : Slots}, SlotsHave slots variant.fields →
    Everywhere (Ready files) (record (some variant) slots) → fieldsHeight variant.fields < n →
      (d.assign document (record (some variant) slots).toData variant.zero).outcome =
        .ok (record (some variant) slots)
  fill : ∀ f document {v : Value}, HasShape v f.shape → v.Filed → Everywhere (Ready files) v →
    f.shape.height ≤ n → (d.fill f document v.toData f.shape.zero).outcome = .ok v

namespace Binding

variable {context : Context} {deeper : Deeper} {document : Path} {n : Nat} {d : Directives}
  {v : Value} {s : Shape} {slots : Slots} {fs : Fields}

/-! ## §3 Fields -/

theorem eq_text_of_toData {raw : String} (h : v.toData = .text raw) : v = .text raw := by
  cases v <;> cases h
  rfl

theorem isNull_toData (h : v ≠ .absent) : v.toData.isNull = false := by
  cases v <;> first | rfl | exact absurd rfl h

/-- Where no entry is a bare text, there is nothing to spell out. -/
theorem expanded_of_forall {sub : String} {es : List (String × Data)}
    (h : ∀ key x, (key, x) ∈ es → ∀ raw, x ≠ .text raw) : expanded sub es = es := by
  induction es with
  | nil => rfl
  | cons e rest ih =>
    obtain ⟨key, x⟩ := e
    have hrest := ih fun key x hx => h key x (List.mem_cons_of_mem _ hx)
    cases x with
    | text raw => exact absurd rfl (h _ _ List.mem_cons_self raw)
    | _ => rw [expanded, hrest]; simp

/-- What is shown for a map of records has no bare texts among its entries. -/
theorem taken_toData (h : HasShape v s) : taken d s.zero v.toData = v.toData := by
  unfold taken
  split
  · next sub es e old _ hdata htarget =>
    split
    · next hrecord =>
      rw [hdata]
      congr 1
      apply expanded_of_forall
      intro key x hx raw hraw
      cases h with
      | @map e' entries horder hentries =>
        obtain rfl := Data.map.inj hdata
        obtain ⟨rfl, -⟩ := Value.map.inj htarget
        rw [entriesData_eq_map] at hx
        obtain ⟨⟨k, w⟩, hw, heq⟩ := List.mem_map.mp hx
        -- an entry is a record, which is shown as a map
        obtain rfl : w = .text raw := eq_text_of_toData ((Prod.mk.inj heq).2.trans hraw)
        cases hentries k _ hw
        cases hrecord
      | _ => cases htarget
    · exact hdata.symm
  · rfl

/-- What meets a tag passes the tag's checks when it is shown. -/
theorem checkValue_toData (h : Met d v) : checkValue d v.toData = .ok () := by
  rw [checkValue_eq]
  have hallowed : allowedCheck d v.toData = .ok () := by
    unfold allowedCheck
    cases hd : d.allowed? with
    | none => rfl
    | some allowed =>
      obtain ⟨raw, hraw, rfl⟩ := h.allowed allowed hd
      simp [toData, hraw]
  have hpresence : presenceCheck d v.toData = .ok () := by
    unfold presenceCheck
    cases hd : d.keys? with
    | none => rfl
    | some keys =>
      obtain ⟨e, es, rfl, key, hkey, hhas⟩ := h.keys keys hd
      have hany : keys.any (Keyed.has · (entriesData es)) = true := by
        apply List.any_eq_true.mpr
        refine ⟨key, hkey, ?_⟩
        rw [entriesData_eq_map, Keyed.has, Keyed.get?_map, Option.isSome_map]
        exact hhas
      simp [toData, hany]
  rw [hallowed, hpresence]
  rfl

/-- A record is shown under the names of its fields alone. -/
theorem keysCheck_toData (hslots : SlotsHave slots fs) (ht : tidyFields fs = true) :
    keysCheck context document (Keyed.ofList (slotsData slots)) (Fields.zero fs) = .ok () := by
  unfold keysCheck
  split
  · have hnames : documentNames (Fields.zero fs) = .ok (slots.map (·.1.ident)) :=
      (documentNames_forgets hslots.built).symm.trans (documentNames_of_slotsHave hslots ht)
    apply (checkKeys_ok_iff hnames).mpr
    intro key hkey
    obtain ⟨⟨key, x⟩, hx, rfl⟩ := List.mem_map.mp hkey
    have hshown := Keyed.mem_ofList hx
    rw [hslots.slotsData ht] at hshown
    obtain ⟨e, he, heq⟩ := List.mem_map.mp hshown
    exact List.mem_map.mpr ⟨e, he, (Prod.mk.inj heq).1⟩
  · rfl

section

variable (happrox : deeper.Approximates deeper) (h : deeper.Restores context.files n)

include happrox h

/-- A field gives back what it asks for. -/
theorem field_restores (hfactories : context.factories = .standard) (hd : Directed d s)
    (hv : HasShape v s) (hs : s.isTidy = true) (hkept : Kept context.files d v)
    (hready : Everywhere (Ready context.files) v) (hheight : s.height ≤ n) :
    (field context deeper document d v.toData s.zero).outcome = .ok v := by
  cases hd with
  | @factory name f hname hf hfree =>
    rw [field_factory hname (hfactories ▸ hf)]
    exact h.fill f document hv (hkept.filed name hname) hready hheight
  | shape hfactory hsound hsuits =>
    -- only a text is shown as a text, so it is neither a bare one for a record nor a pattern
    have hbare : ¬ IsBare d s.zero v.toData := by
      rintro ⟨_, raw, variant, slots, -, hdata, hzero⟩
      obtain rfl := eq_text_of_toData hdata
      cases hv
      cases hzero
    have hload : ∀ raw, v.toData = .text raw → d.isLoadable = false := by
      intro raw hdata
      obtain rfl := eq_text_of_toData hdata
      cases hv
      by_contra hloadable
      obtain ⟨⟨e, hlist | hmap⟩, -⟩ := hsuits.loadable (by simpa using hloadable)
      · cases hlist
      · cases hmap
    rw [field_value hfactory hbare, taken_toData hv, value_outcome happrox hload,
      checkValue_toData hkept.toMet, ok_bind]
    split
    · next hpath =>
      -- an absolute path means the same from every document
      obtain ⟨p, rfl, habsolute, hpresent⟩ := hkept.path hpath
      cases hv
      simp [existingPath, resolvePath, Path.join, toData, Shape.zero, Shape.zeroWith, habsolute,
        hpresent]
    · exact h.assign document hv hs hsound hready hheight

/-- Fields give back what stands for them in the data, where each is shown under its name. -/
theorem slots_restores (hfactories : context.factories = .standard) {es : List (String × Data)}
    (hslots : SlotsHave slots fs) (ht : tidyFields fs = true) (hsound : soundFields fs = true)
    (hes : ∀ f w, (f, w) ∈ slots → Keyed.get? f.ident es = some w.toData)
    (hkept : ∀ f w, (f, w) ∈ slots → ∀ d, directives f = .ok d → Kept context.files d w)
    (hready : ∀ f w, (f, w) ∈ slots → Everywhere (Ready context.files) w)
    (hheight : fieldsHeight fs ≤ n) :
    ((Fields.zero fs).mapM fun e =>
      (e.1, ·) <$> slotOutcome context deeper document es e.1 e.2) = .ok slots := by
  induction slots generalizing fs with
  | nil =>
    cases hslots
    rfl
  | cons e rest ih =>
    cases hslots with
    | @cons f v s _ fs hv hslots =>
      obtain ⟨hname, -, -, hs, htidy⟩ := tidyFields_cons.mp ht
      obtain ⟨hfield, hothers⟩ := soundFields_cons.mp hsound
      obtain ⟨d, hd, hdirected⟩ := directed_of_soundField hfield
      obtain ⟨hfirst, hrest⟩ := Nat.max_le.mp hheight
      -- an entry with the name of the slot is there, as it was written from the slot
      have hpresent : present? (documentName f d) es = some v.toData := by
        rw [documentName_eq hname hd, present?, hes f v List.mem_cons_self]
        simp [isNull_toData (hv.ne_absent hs)]
      have hslot : slotOutcome context deeper document es f s.zero = .ok v := by
        rw [slotOutcome_present hd ((hasShape_zero s).ne_absent hs) hpresent]
        exact field_restores happrox h hfactories hdirected hv hs
          (hkept f v List.mem_cons_self d hd) (hready f v List.mem_cons_self) hfirst
      have hfields := ih hslots htidy hothers (fun g w hw => hes g w (List.mem_cons_of_mem _ hw))
        (fun g w hw => hkept g w (List.mem_cons_of_mem _ hw))
        (fun g w hw => hready g w (List.mem_cons_of_mem _ hw)) hrest
      show List.mapM _ ((f, s.zero) :: Fields.zero fs) = _
      rw [List.mapM_cons, hslot, hfields]
      rfl

/-! ## §4 Values -/

/-- A record that is shown is bound to itself, slot by slot. -/
theorem record_restores (hfactories : context.factories = .standard) (variant : Option Variant)
    (hslots : SlotsHave slots fs) (ht : tidyFields fs = true) (hsound : soundFields fs = true)
    (hready : Everywhere (Ready context.files) (record variant slots))
    (hheight : fieldsHeight fs ≤ n) :
    (assign context deeper document (record variant slots).toData
      (record variant (Fields.zero fs))).outcome = .ok (record variant slots) := by
  obtain ⟨hself, hinside⟩ := everywhere_record.mp hready
  have hshown : ∀ f w, (f, w) ∈ slots →
      Keyed.get? f.ident (Keyed.ofList (slotsData slots)) = some w.toData := by
    intro f w hw
    rw [hslots.get?_ofList ht, hslots.slotNamed?_of_mem ht hw, Option.map_some]
  rw [toData, assign_record_outcome_checked happrox, keysCheck_toData hslots ht, ok_bind,
    slots_restores happrox h hfactories hslots ht hsound hshown (hself _ _ rfl) hinside hheight]
  rfl

/-- A value that is shown is bound to itself, if there are levels enough for its shape. -/
theorem assign_restores (hfactories : context.factories = .standard) (hv : HasShape v s)
    (hs : s.isTidy = true) (hsound : s.isSound = true)
    (hready : Everywhere (Ready context.files) v) (hheight : s.height ≤ n + 1) :
    (assign context deeper document v.toData s.zero).outcome = .ok v := by
  cases hv with
  | bool b => rfl
  | @int w k hk =>
    show (Walk.lift (scalar (.int k) (Value.int w 0))).outcome = _
    simp [scalar_int, ofInt?, hk]
  | @float w x hx =>
    show (Walk.lift (scalar (.float x) (Value.float w _))).outcome = _
    cases w with
    -- a single is held as the double that it is rounded to
    | f32 => simp [scalar_float, ofFloat?, hx.2 rfl]
    | f64 => simp [scalar_float, ofFloat?]
  | text r => rfl
  | @list e items hlength hitems =>
    have hinside := (everywhere_list.mp hready).2
    simp only [Shape.isTidy, Bool.and_eq_true] at hs
    show (assign context deeper document (.list (itemsData items)) (Value.list e [])).outcome = _
    rw [itemsData_eq_map, assign_list_outcome happrox, mapM_map_eq_ok]
    · rfl
    · intro w hw
      exact h.assign document (hitems w hw) hs.2 hsound (hinside w hw)
        (Nat.le_of_succ_le_succ hheight)
  | @map e es horder hentries =>
    have hinside := (everywhere_map.mp hready).2
    show (assign context deeper document (.map (entriesData es)) (Value.map e [])).outcome = _
    rw [entriesData_eq_map, assign_map_outcome happrox (horder.map _), mapM_map_eq_ok]
    · rfl
    · rintro ⟨key, w⟩ hw
      rw [h.assign document (hentries key w hw) (by simpa [Shape.isTidy] using hs) hsound
        (hinside key w hw) (Nat.le_of_succ_le_succ hheight)]
      rfl
  | record hslots =>
    exact record_restores happrox h hfactories none hslots (by simpa [Shape.isTidy] using hs) hsound
      hready (Nat.le_of_succ_le_succ hheight)
  | member _ => cases hsound
  | absent => cases hsound

/-! ## §5 Factories -/

/-- A family that is shown is bound to itself: its keys name its members. -/
theorem byName_restores {f : Factory} {family : Family} {member : Platform → Variant}
    (hf : f.byName? = some (family, member)) (unknown : String → Cause)
    (hv : HasShape v (.map (.oneOf family))) (hfiled : v.Filed)
    (hready : Everywhere (Ready context.files) v) (hheight : memberHeight ≤ n) :
    (byName deeper f family member unknown document v.toData
      (Value.map (.oneOf family) [])).outcome = .ok v := by
  cases hv with
  | @map _ es horder hentries =>
    have hinside := (everywhere_map.mp hready).2
    cases hfiled with
    | map hfiled =>
      rw [toData, entriesData_eq_map, byName_outcome happrox (horder.map _), mapM_map_eq_ok]
      · rfl
      · rintro ⟨key, w⟩ hw
        obtain ⟨p, hp, rfl⟩ := hfiled key w hw
        obtain ⟨variant, slots, rfl, hfamily, hslots⟩ := (hentries _ w hw).exists_member
        obtain rfl := eq_member_of_platform? hf hfamily hp
        have hmember := h.member document hslots (hinside _ _ hw)
          ((fieldsHeight_member hf p).trans_le hheight)
        simp only [Platform.ofName?_name, Option.elim_some, hmember]
        rfl

/-- What a factory makes is made again from what it is shown as. -/
theorem fill_restores (f : Factory) (hv : HasShape v f.shape) (hfiled : v.Filed)
    (hready : Everywhere (Ready context.files) v) (hheight : f.shape.height ≤ n + 1) :
    (fill deeper f document v.toData f.shape.zero).outcome = .ok v := by
  cases f with
  | actions =>
    cases hfiled with
    | list e =>
      cases hv
      rfl
    | map _ => cases hv
  -- what holds a single action is not filed
  | action => cases hfiled <;> cases hv
  | sandboxes =>
    exact byName_restores happrox h (f := .sandboxes) rfl _ hv hfiled hready
      (Nat.le_of_succ_le_succ hheight)
  | environments =>
    exact byName_restores happrox h (f := .environments) rfl _ hv hfiled hready
      (Nat.le_of_succ_le_succ hheight)

end

end Binding

namespace Deeper

variable {context : Context} {deeper : Deeper} {n : Nat}

theorem bottom_restores (files : FileSystem) : bottom.Restores files 0 where
  assign _ _ s _ _ _ _ hheight := absurd hheight (Nat.not_le.mpr s.height_pos)
  member _ _ _ _ _ hheight := absurd hheight (Nat.not_lt_zero _)
  fill f _ _ _ _ _ hheight := absurd hheight (Nat.not_le.mpr f.shape.height_pos)

/-- A level more restores shapes that are one higher. -/
theorem Restores.step (hfactories : context.factories = .standard)
    (happrox : deeper.Approximates deeper) (h : deeper.Restores context.files n) :
    (Deeper.step context deeper).Restores context.files (n + 1) where
  assign _ _ _ hv hs hsound hready hheight :=
    assign_restores happrox h hfactories hv hs hsound hready hheight
  member _ variant _ hslots hready hheight :=
    record_restores happrox h hfactories (some variant) hslots (Rig.variant_tidy variant)
      (Rig.variant_sound variant) hready (Nat.le_of_lt_succ hheight)
  fill f _ _ hv hfiled hready hheight :=
    fill_restores happrox h f hv hfiled hready hheight

/-- Walks that may go deep enough give values back from what they are shown as. -/
theorem level_restores (hfactories : context.factories = .standard) (n : Nat) :
    (level context n).Restores context.files n := by
  induction n with
  | zero => exact bottom_restores _
  | succ n ih => exact ih.step hfactories (level_self n)

end Deeper

end Testbed
