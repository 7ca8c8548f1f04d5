import Testbed.Proofs.Value.Built

/-!
# The laws of merging

Values that are built as one shape says merge like the texts, lists and maps that they are made of:
the shape's zero value changes nothing that is put over it (`Built.zero_merge`), and of three values
it does not matter which two are merged first (`Built.merge_assoc`). Neither holds where members of
a family are merged with each other, which is what `Shape.isFixed` excludes. A zero value put over
another one changes nothing where a shape has texts, lists and maps alone, its records included
(`Built.merge_zero`): a number or a truth value counts even when it is zero.

What is found in a slot of what two records merge into is then read off the slots of the two
(`text_slot_merge`, `items_slot_merge`, `entries_slot_merge`).
-/

namespace Testbed

mutual
/-- Whether the zero value of a shape changes nothing that it is put over. -/
def Shape.isJoined : Shape → Bool
  | .text => true
  | .list _ => true
  | .map _ => true
  | .record fields => fieldsJoined fields
  | _ => false
/-- Whether the zero values of fields are so. -/
def fieldsJoined : Fields → Bool
  | [] => true
  | (_, s) :: rest => s.isJoined && fieldsJoined rest
end

namespace Value

variable {u v w : Value} {s : Shape} {slots others more : Slots} {fields : Fields}

/-! ## §1 Three values -/

/-- Of two texts the later one counts, unless it is empty. -/
theorem merge_text (a b : String) : (text a).merge (text b) = text (if b = "" then a else b) := by
  rw [merge]
  split <;> rfl

/-- Of three texts the last that is not empty counts, whichever two are merged first. -/
theorem merge_text_assoc (a b c : String) :
    ((text a).merge (text b)).merge (text c) = (text a).merge ((text b).merge (text c)) := by
  simp only [merge_text]
  by_cases hc : c = ""
  · simp only [hc, if_true]
  · simp only [hc, if_false]

mutual
/-- It does not matter which of three values are merged first. -/
theorem Built.merge_assoc : {u v w : Value} → {s : Shape} → Built u s → s.isFixed = true →
    Built v s → Built w s → (u.merge v).merge w = u.merge (v.merge w)
  | _, _, _, _, .bool _, _, .bool _, .bool _ => rfl
  | _, _, _, _, .int _ _, _, .int _ _, .int _ _ => rfl
  | _, _, _, _, .float _ _, _, .float _ _, .float _ _ => rfl
  | _, _, _, _, .text a, _, .text b, .text c => merge_text_assoc a b c
  | _, _, _, _, .list _, _, .list _, .list _ => by
    simp only [merge, List.append_assoc]
  | _, _, _, _, .map horder _, _, .map horder' _, .map horder'' _ => by
    simp only [merge, Keyed.Ordered.union_assoc horder horder' horder'']
  | _, _, _, _, .record hslots, hs, .record hothers, .record hmore => by
    have hfixed : fieldsFixed _ = true := hs
    simp only [merge, hslots.merge_assoc hfixed hothers hmore]
  | _, _, _, _, .member _, hs, _, _ => by simp [Shape.isFixed] at hs
  | _, _, _, _, .absent, _, .absent, .absent => rfl
theorem SlotsBuilt.merge_assoc : {slots others more : Slots} → {fields : Fields} →
    SlotsBuilt slots fields → fieldsFixed fields = true → SlotsBuilt others fields →
      SlotsBuilt more fields →
        mergeSlots (mergeSlots slots others) more = mergeSlots slots (mergeSlots others more)
  | _, _, _, _, .nil, _, .nil, .nil => rfl
  | _, _, _, _, .cons hu hslots, hfixed, .cons hv hothers, .cons hw hmore => by
    simp only [fieldsFixed, Bool.and_eq_true] at hfixed
    simp only [mergeSlots, hu.merge_assoc hfixed.1 hv hw,
      hslots.merge_assoc hfixed.2 hothers hmore]
end

/-! ## §2 Zero values -/

mutual
/-- What is put over the zero value of its shape is left. -/
theorem Built.zero_merge : {v : Value} → {s : Shape} → Built v s → s.isFixed = true →
    s.zero.merge v = v
  | _, _, .bool _, _ => rfl
  | _, _, .int _ _, _ => rfl
  | _, _, .float _ _, _ => rfl
  | _, _, .text b, _ => by
    show (text "").merge (text b) = text b
    rw [merge_text]
    split
    · next hb => rw [hb]
    · rfl
  | _, _, .list _, _ => rfl
  | _, _, .map horder _, _ => congrArg _ (Keyed.Ordered.nil_union horder)
  | _, _, .record hslots, hs => congrArg (Value.record none) (hslots.zero_merge hs)
  | _, _, .member _, hs => by simp [Shape.isFixed] at hs
  | _, _, .absent, _ => rfl
/-- Merging into a new record gives what is merged. -/
theorem SlotsBuilt.zero_merge : {slots : Slots} → {fields : Fields} → SlotsBuilt slots fields →
    fieldsFixed fields = true → mergeSlots (Fields.zero fields) slots = slots
  | _, _, .nil, _ => rfl
  | _, _, @SlotsBuilt.cons field v s slots fields hv hslots, hfixed => by
    simp only [fieldsFixed, Bool.and_eq_true] at hfixed
    show (field, s.zero.merge v) :: mergeSlots (Fields.zero fields) slots = _
    rw [hv.zero_merge hfixed.1, hslots.zero_merge hfixed.2]
end

mutual
/-- What the zero value of its shape is put over is left. -/
theorem Built.merge_zero : {v : Value} → {s : Shape} → Built v s → s.isJoined = true →
    v.merge s.zero = v
  | _, _, .text a, _ => by
    show (text a).merge (text "") = text a
    rw [merge_text, if_pos rfl]
  | _, _, .list _, _ => congrArg _ (List.append_nil _)
  | _, _, .map _ _, _ => rfl
  | _, _, .record hslots, hs => congrArg (Value.record none) (hslots.merge_zero hs)
  | _, _, .bool _, hs => by simp [Shape.isJoined] at hs
  | _, _, .int _ _, hs => by simp [Shape.isJoined] at hs
  | _, _, .float _ _, hs => by simp [Shape.isJoined] at hs
  | _, _, .member _, hs => by simp [Shape.isJoined] at hs
  | _, _, .absent, hs => by simp [Shape.isJoined] at hs
/-- Merging a new record in changes nothing, where all fields are joined. -/
theorem SlotsBuilt.merge_zero : {slots : Slots} → {fields : Fields} → SlotsBuilt slots fields →
    fieldsJoined fields = true → mergeSlots slots (Fields.zero fields) = slots
  | _, _, .nil, _ => rfl
  | _, _, @SlotsBuilt.cons field v s slots fields hv hslots, hjoined => by
    simp only [fieldsJoined, Bool.and_eq_true] at hjoined
    show (field, v.merge s.zero) :: mergeSlots slots (Fields.zero fields) = _
    rw [hv.merge_zero hjoined.1, hslots.merge_zero hjoined.2]
end

/-! ## §3 Slots -/

/-- The text in the slot under an identifier. -/
def textAt (ident : String) (v : Value) : String :=
  ((v.slot? ident).bind text?).getD ""

section

variable {f : Field} (ht : tidyFields fields = true) (hfixed : (Shape.record fields).isFixed = true)
  (hv : Built v (.record fields)) (hw : Built w (.record fields))

include ht hfixed hv hw

/-- A slot of what two records merge into holds the merge of what the two hold. -/
theorem slot?_merge (hf : (f, s) ∈ fields) :
    ∃ x y, v.slot? f.ident = some x ∧ w.slot? f.ident = some y ∧ Built x s ∧ Built y s ∧
      (v.merge w).slot? f.ident = some (x.merge y) := by
  obtain ⟨x, hx, hbx⟩ := hv.exists_slot? ht hf
  obtain ⟨y, hy, hby⟩ := hw.exists_slot? ht hf
  have hmerge := hv.merge hfixed hw
  obtain ⟨z, hz, -⟩ := hmerge.exists_slot? ht hf
  have hchild := hz
  rw [hmerge.slot?_eq ht] at hchild
  obtain ⟨x', y', hx', hy', rfl⟩ := child?_merge_record hv hw hchild
  rw [← hv.slot?_eq ht] at hx'
  rw [← hw.slot?_eq ht] at hy'
  obtain rfl := Option.some.inj (hx.symm.trans hx')
  obtain rfl := Option.some.inj (hy.symm.trans hy')
  exact ⟨x, y, hx, hy, hbx, hby, hz⟩

/-- Of two texts the later one counts, if it is not empty. -/
theorem text_slot_merge (hf : (f, .text) ∈ fields) :
    (v.merge w).textAt f.ident =
      if w.textAt f.ident = "" then v.textAt f.ident else w.textAt f.ident := by
  obtain ⟨x, y, hx, hy, hbx, hby, hmerge⟩ := slot?_merge ht hfixed hv hw hf
  cases hbx with
  | text a =>
    cases hby with
    | text b =>
      simp only [textAt, hx, hy, hmerge, Option.bind_some, text?, Option.getD_some, merge_text]

/-- Lists are put one behind the other. -/
theorem items_slot_merge {e : Shape} (hf : (f, .list e) ∈ fields) :
    (((v.merge w).slot? f.ident).map items).getD [] =
      ((v.slot? f.ident).map items).getD [] ++ ((w.slot? f.ident).map items).getD [] := by
  obtain ⟨x, y, hx, hy, hbx, hby, hmerge⟩ := slot?_merge ht hfixed hv hw hf
  cases hbx
  cases hby
  simp only [hx, hy, hmerge, Option.map_some, Option.getD_some, merge, items]

/-- Of two entries under one key the later one counts. -/
theorem entries_slot_merge {e : Shape} (hf : (f, .map e) ∈ fields) :
    (((v.merge w).slot? f.ident).map entries).getD [] =
      Keyed.union (((v.slot? f.ident).map entries).getD [])
        (((w.slot? f.ident).map entries).getD []) := by
  obtain ⟨x, y, hx, hy, hbx, hby, hmerge⟩ := slot?_merge ht hfixed hv hw hf
  cases hbx
  cases hby
  simp only [hx, hy, hmerge, Option.map_some, Option.getD_some, merge, entries]

end

/-- The entries in a slot of a record stand in the order of their keys. -/
theorem Built.ordered_entries (h : Built v (.record fields)) (ht : tidyFields fields = true)
    {f : Field} {e : Shape} (hf : (f, .map e) ∈ fields) :
    Keyed.Ordered (((v.slot? f.ident).map entries).getD []) := by
  obtain ⟨x, hx, hbuilt⟩ := h.exists_slot? ht hf
  cases hbuilt with
  | map horder hentries =>
    rw [hx]
    exact horder

end Value

end Testbed
