import Testbed.Proofs.Overwrite.Atomic
import Testbed.Proofs.Overwrite.Setting

/-!
# Overwriting a leaf

Where the route of an overwrite leads to a leaf, following it cannot fail: what becomes of the
overwrite is what becomes of the leaf. It is stored with the text (`overwrite_eq_done`), or the
overwrite fails with the reason for which the leaf does not take the text (`overwrite_eq_failed`).
-/

namespace Testbed.Value

variable {edit : Edit} {raw : String}

/-! ## §1 Edits of what is there -/

/-- An edit of a slot fails as the edit of its value does. -/
theorem editSlot_fault {name : String} {slots : Slots} {v : Value}
    (h : slotNamed? name slots = some v) (hv : v ≠ absent) :
    (editSlot name edit slots).fault = (edit v).fault := by
  induction slots with
  | nil => simp [slotNamed?] at h
  | cons e rest ih =>
    obtain ⟨field, w⟩ := e
    unfold slotNamed? Field.documentName? at h
    unfold editSlot
    cases hread : Directives.read field.tag with
    | error key => simp [hread] at h
    | ok d =>
      simp only [hread] at h ⊢
      split at h
      · next hname =>
        -- the slot with the name, which has a value
        obtain rfl := Option.some.inj h
        rw [if_pos hname]
        cases w <;> first | rfl | exact absurd rfl hv
      · next hname =>
        rw [if_neg hname, After.map_fault]
        exact ih h

theorem editKey_fault {key : String} {entries : List (String × Value)} {v : Value}
    (h : Keyed.get? key entries = some v) :
    (editKey key edit entries).fault = (edit v).fault := by
  induction entries with
  | nil => simp [Keyed.get?] at h
  | cons e rest ih =>
    obtain ⟨k, w⟩ := e
    unfold Keyed.get? at h
    unfold editKey
    split at h
    · next hk =>
      obtain rfl := Option.some.inj h
      rw [if_pos hk, After.map_fault]
    · next hk =>
      rw [if_neg hk, After.map_fault]
      exact ih h

/-- The entry under a key is edited, or the zero value that is to become it. -/
theorem setEntry_fault (element : Shape) (key : String) (entries : List (String × Value)) :
    (setEntry element key edit entries).fault =
      (edit ((Keyed.get? key entries).getD element.zero)).fault := by
  unfold setEntry
  cases hget : Keyed.get? key entries with
  | some v =>
    have hhas : Keyed.has key entries = true := by simp [Keyed.has, hget]
    rw [if_pos hhas, editKey_fault hget, Option.getD_some]
  | none =>
    have hhas : Keyed.has key entries = false := by simp [Keyed.has, hget]
    simp only [hhas, Bool.false_eq_true, if_false, Option.getD_none]
    cases hfault : (edit element.zero).fault <;> rfl

theorem editItem_fault {position : Nat} {items : List Value} {v : Value}
    (h : items[position]? = some v) (index length : Nat) :
    (editItem index length edit position items).fault = (edit v).fault := by
  induction items generalizing position with
  | nil => simp at h
  | cons w rest ih =>
    cases position with
    | zero =>
      obtain rfl : w = v := by simpa using h
      rfl
    | succ i => exact ih h

/-- An edit behind an index fails as the edit of the leaf does. -/
theorem editIndexed_fault {r : Route} {v x : Value}
    (hedit : ∀ v x, leaf? r v = some x → (edit v).fault = (setScalar raw x).fault)
    (hr : ∀ i q, r ≠ .index i :: q) (segment : Segment)
    (h : leaf? ((segment.index.map Step.index).toList ++ r) v = some x) :
    (editIndexed segment edit v).fault = (setScalar raw x).fault := by
  obtain ⟨name, index⟩ := segment
  cases index with
  | none =>
    rw [Option.map_none, Option.toList_none, List.nil_append] at h
    cases v with
    | list e items =>
      -- a list is no leaf, and only an index leads into it
      cases r with
      | nil => simp [leaf?, isSettable] at h
      | cons s q =>
        cases s with
        | index i => exact absurd rfl (hr i q)
        | key key => simp [leaf?, child?, fresh?] at h
    | _ => exact hedit _ _ h
  | some i =>
    rcases leaf?_cons_eq_some h with ⟨y, hy, hleaf⟩ | ⟨-, -, hfresh, -⟩
    · cases v with
      | list e items =>
        show (editItem i items.length edit i items).fault = _
        rw [editItem_fault hy]
        exact hedit y x hleaf
      | _ => simp [child?] at hy
    · simp [fresh?] at hfresh

/-! ## §2 The whole edit -/

/-- Following segments to a leaf fails exactly as setting the leaf does. By induction on the
    segments: at each of them something is there to go on with, but a map may make an entry at the
    last. -/
theorem setAt_fault {segments : List Segment} {v x : Value}
    (h : leaf? (Segment.route segments) v = some x) :
    (setAt raw segments v).fault = (setScalar raw x).fault := by
  induction segments generalizing v x with
  | nil =>
    have hset := isSettable_of_leaf?_nil h
    obtain rfl : v = x := by simpa [leaf?, hset] using h
    cases v <;> first | rfl | simp [isSettable] at hset
  | cons segment rest ih =>
    have hinside {y : Value} (hy : leaf? ((segment.index.map Step.index).toList ++
        Segment.route rest) y = some x) :
        (editIndexed segment (setAt raw rest) y).fault = (setScalar raw x).fault :=
      editIndexed_fault (fun v x => ih) (Segment.route_ne_index_cons rest) segment hy
    rw [Segment.route_cons] at h
    rcases leaf?_cons_eq_some h with ⟨y, hy, hleaf⟩ | ⟨hnone, hlast, hfresh, hset⟩
    · cases v with
      | record variant slots =>
        have hpresent : y ≠ absent := by
          rintro rfl
          cases htail : (segment.index.map Step.index).toList ++ Segment.route rest with
          | nil => simp [htail, leaf?, isSettable] at hleaf
          | cons s q => cases s <;> simp [htail, leaf?, child?, fresh?] at hleaf
        rw [setAt, After.map_fault, editSlot_fault hy hpresent]
        exact hinside hleaf
      | map e entries =>
        have hget : Keyed.get? segment.name entries = some y := hy
        rw [setAt]
        split
        · rw [After.map_fault, setEntry_fault, hget]
          exact hinside hleaf
        · rw [After.map_fault, editKey_fault hget]
          exact hinside hleaf
      | _ => simp [child?] at hy
    · cases v with
      | map e entries =>
        -- the last segment: the zero value is tried, and it is the leaf
        obtain ⟨hindex, hroute⟩ := List.append_eq_nil_iff.mp hlast
        have hend : rest = [] ∧ segment.index = none :=
          ⟨Segment.route_eq_nil_iff.mp hroute, by simpa using hindex⟩
        obtain rfl : e.zero = x := Option.some.inj hfresh
        have hget : Keyed.get? segment.name entries = none := hnone
        rw [setAt, if_pos hend, After.map_fault, setEntry_fault, hget]
        apply hinside
        simp [hlast, leaf?, hset]
      | _ => simp [fresh?] at hfresh

variable {route : String} {segments : List Segment} {v x : Value}

/-- What the leaf takes is stored in it. -/
theorem overwrite_eq_done (hroute : Segment.readRoute route = .ok segments)
    (hleaf : leaf? (Segment.route segments) v = some x) {w : Value} (h : store? raw x = some w) :
    overwrite route raw v = .done (put (Segment.route segments) w v) := by
  rw [← After.toOption_eq_some_iff, overwrite_toOption, hroute]
  exact setLeaf?_eq_some_iff.mpr ⟨x, w, hleaf, h, rfl⟩

/-- What the leaf does not take fails for the same cause, and nothing changes. -/
theorem overwrite_eq_failed (hroute : Segment.readRoute route = .ok segments)
    (hleaf : leaf? (Segment.route segments) v = some x) {cause : Cause}
    (h : (setScalar raw x).fault = some cause) :
    overwrite route raw v = .failed (.overwrite route raw (.cause cause)) v := by
  have hfault : (overwrite route raw v).fault = some (.overwrite route raw (.cause cause)) := by
    simp only [overwrite, hroute, setAt_fault hleaf, h, Option.map_some]
  have hvalue := overwrite_failed_value hfault
  calc overwrite route raw v
      = ⟨(overwrite route raw v).fault, (overwrite route raw v).value⟩ := rfl
    _ = .failed (.overwrite route raw (.cause cause)) v := by rw [hfault, hvalue, After.failed]

end Testbed.Value
