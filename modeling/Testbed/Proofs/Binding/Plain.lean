import Testbed.Proofs.Binding.Outcome
import Testbed.Proofs.Keyed.Around
import Testbed.Proofs.Results

/-!
# Binding as plain computation

What the functions of binding come to, with locations left out. Items, entries, members and fields
are made one after the other and none looks at another, so each of these walks comes to a `mapM`.
For the fields of a record this needs nothing; for the entries of a map it needs that they stand in
the order of their keys, as those of a document do.
-/

namespace Testbed

namespace Binding

open Walk Keyed

variable {α : Type} {context : Context} {d : Deeper} {document : Path}

/-! ## §1 Items and entries -/

theorem items_outcome {make : α → Walk Value} (h : ∀ x, Approximates (make x) (make x))
    (index : Nat) (xs : List α) :
    (items make index xs).outcome = xs.mapM fun x => (make x).outcome := by
  induction xs generalizing index with
  | nil => rfl
  | cons x rest ih =>
    have hrest (v : Value) : Approximates (do let vs ← items make (index + 1) rest; pure (v :: vs))
        (do let vs ← items make (index + 1) rest; pure (v :: vs)) :=
      .bind (approximation.items h _ _) fun _ => .pure _
    rw [items, outcome_modify_bind _ fun _ => .bind (h x) hrest, outcome_bind hrest,
      List.mapM_cons]
    congr 1
    funext v
    rw [outcome_bind fun _ => .pure _, ih]
    rfl

/-- Entries in order are filled each on its own, behind those that are filled already. -/
theorem entries_outcome_append {fill : α → Value → Walk Value}
    (h : ∀ x v, Approximates (fill x v) (fill x v)) (element : Shape) {xs : List (String × α)}
    (hxs : Ordered xs) {filled : List (String × Value)} (hfilled : Before filled xs) :
    (entries element fill xs filled).outcome =
      (filled ++ ·) <$> xs.mapM fun x => (x.1, ·) <$> (fill x.2 element.zero).outcome := by
  induction xs generalizing filled with
  | nil => simp [entries]; rfl
  | cons x rest ih =>
    obtain ⟨key, x⟩ := x
    have hwalk (v : Value) : Approximates (entries element fill rest (Keyed.insert key v filled))
        (entries element fill rest (Keyed.insert key v filled)) :=
      approximation.entries h _ _ _
    rw [entries, outcome_modify_bind _ fun _ => .bind (h _ _) hwalk, outcome_bind hwalk,
      hfilled.get?_eq_none, Option.getD_none, List.mapM_cons]
    simp only [map_eq_pure_bind, bind_assoc, pure_bind]
    congr 1
    funext v
    rw [hfilled.insert, ih (ordered_cons.mp hxs).2 (hfilled.append hxs v)]
    simp only [map_eq_pure_bind, List.append_assoc, List.singleton_append]

/-- Where the keys are in order, entries come to what they come to each on its own. -/
theorem entries_outcome {fill : α → Value → Walk Value}
    (h : ∀ x v, Approximates (fill x v) (fill x v))
    (element : Shape) {xs : List (String × α)} (hxs : Ordered xs) :
    (entries element fill xs []).outcome =
      xs.mapM fun x => (x.1, ·) <$> (fill x.2 element.zero).outcome := by
  rw [entries_outcome_append h element hxs (before_nil xs)]
  simp

/-- Members in order are filled each on its own, behind those that are filled already. -/
theorem members_outcome_append {fill : Data → Value → Walk Value}
    (h : ∀ x v, Approximates (fill x v) (fill x v)) (member? : String → Option Value)
    (unknown : String → Cause) {es : List (String × Data)} (hes : Ordered es)
    {filled : List (String × Value)} (hfilled : Before filled es) :
    (members member? unknown fill es filled).outcome =
      (filled ++ ·) <$> es.mapM fun e => (e.1, ·) <$>
        (member? e.1).elim (.error (unknown e.1)) fun zero => (fill e.2 zero).outcome := by
  induction es generalizing filled with
  | nil => simp [members]; rfl
  | cons e rest ih =>
    obtain ⟨key, x⟩ := e
    rw [members, outcome_modify_bind _ ?under, List.mapM_cons]
    case under =>
      intro _
      cases member? key with
      | none => exact .fail _
      | some zero => exact .bind (h _ _) fun _ => approximation.members h _ _ _ _
    cases member? key with
    | none => rfl
    | some zero =>
      simp only [Option.elim_some]
      rw [outcome_bind fun _ => approximation.members h _ _ _ _]
      simp only [map_eq_pure_bind, bind_assoc, pure_bind]
      congr 1
      funext v
      rw [hfilled.insert, ih (ordered_cons.mp hes).2 (hfilled.append hes v)]
      simp only [map_eq_pure_bind, List.append_assoc, List.singleton_append]

theorem members_outcome {fill : Data → Value → Walk Value}
    (h : ∀ x v, Approximates (fill x v) (fill x v)) (member? : String → Option Value)
    (unknown : String → Cause) {es : List (String × Data)} (hes : Ordered es) :
    (members member? unknown fill es []).outcome =
      es.mapM fun e => (e.1, ·) <$>
        (member? e.1).elim (.error (unknown e.1)) fun zero => (fill e.2 zero).outcome := by
  rw [members_outcome_append h member? unknown hes (before_nil es)]
  simp

/-! ## §2 Fields -/

/-- What one slot of a record is bound to. -/
def slotOutcome (context : Context) (deeper : Deeper) (document : Path)
    (data : List (String × Data)) (f : Field) (target : Value) : Except Cause Value := do
  let d ← directives f
  (slot context deeper document data f d target).outcome

/-- A slot depends on what is present under its name alone. -/
theorem slotOutcome_congr {f : Field} {es es' : List (String × Data)}
    (hname : ∀ directives, Binding.directives f = .ok directives →
      present? (documentName f directives) es = present? (documentName f directives) es')
    (target : Value) :
    slotOutcome context d document es f target = slotOutcome context d document es' f target := by
  unfold slotOutcome
  cases hread : directives f with
  | error cause => rfl
  | ok directives =>
    rw [ok_bind, ok_bind]
    unfold slot
    rw [hname directives hread]

/-- A slot that the document sets comes to what its field comes to. -/
theorem slotOutcome_present {f : Field} {directives : Directives}
    (hread : Binding.directives f = .ok directives) {target : Value} (htarget : target ≠ .absent)
    {es : List (String × Data)} {x : Data}
    (hx : present? (documentName f directives) es = some x) :
    slotOutcome context d document es f target =
      (field context d document directives x target).outcome := by
  rw [slotOutcome, hread, ok_bind]
  cases target with
  | absent => exact absurd rfl htarget
  | _ => simp only [slot, hx]

/-- A slot that the document does not set comes to its default, or is reset. -/
theorem slotOutcome_absent {f : Field} {directives : Directives}
    (hread : Binding.directives f = .ok directives) {target : Value} (htarget : target ≠ .absent)
    {es : List (String × Data)} (hx : present? (documentName f directives) es = none) :
    slotOutcome context d document es f target = fields.absentField directives target := by
  rw [slotOutcome, hread, ok_bind]
  cases target with
  | absent => exact absurd rfl htarget
  | _ => simp only [slot, hx, outcome_lift]

/-- With fewer levels left a slot comes to the same, or it is too deep. -/
theorem slotOutcome_approximates {d' : Deeper} (h : d.Approximates d') (es : List (String × Data))
    (f : Field) (target : Value) :
    slotOutcome context d document es f target = tooDeep ∨
      slotOutcome context d document es f target =
        slotOutcome context d' document es f target := by
  unfold slotOutcome
  cases directives f with
  | error cause => exact .inr rfl
  | ok directives =>
    exact Approximates.outcome (Congruence.slot h rfl es f directives (.refl target))

/-- The fields of a record are bound each on its own. -/
theorem fields_outcome (h : d.Approximates d) (data : List (String × Data)) (slots : Slots) :
    (fields context d document data slots).outcome =
      slots.mapM fun s => (s.1, ·) <$> slotOutcome context d document data s.1 s.2 := by
  induction slots with
  | nil => rw [fields]; rfl
  | cons s rest ih =>
    obtain ⟨f, target⟩ := s
    have hrest (v : Value) : Approximates
        (do let filled ← fields context d document data rest; pure ((f, v) :: filled))
        (do let filled ← fields context d document data rest; pure ((f, v) :: filled)) :=
      .bind (Congruence.fields h rfl _ _ (.refl _)) fun _ => .pure _
    have hslot (directives : Directives) : Approximates
        (slot context d document data f directives target)
        (slot context d document data f directives target) :=
      Congruence.slot h rfl data f directives (.refl target)
    -- none of the walks depends on where it begins, so each `bind` becomes one of outcomes
    have hbound (directives : Directives) :=
      Approximates.bind (.located document document (hslot directives)) hrest
    rw [fields_cons, outcome_bind fun directives => .bind (.modify _ _) fun _ => hbound directives,
      outcome_located, outcome_lift, List.mapM_cons, slotOutcome]
    simp only [map_eq_pure_bind, bind_assoc, pure_bind]
    congr 1
    funext directives
    rw [outcome_modify_bind _ fun _ => hbound directives, outcome_bind hrest, outcome_located]
    congr 1
    funext v
    rw [outcome_bind fun _ => .pure _, ih]
    simp only [map_eq_pure_bind, outcome_pure]
    rfl

/-! ## §3 Levels -/

variable {es : List (String × Data)}

theorem checkKeys_approximates (document : Path) (es : List (String × Data)) (slots : Slots) :
    Approximates (checkKeys document es slots) (checkKeys document es slots) :=
  approximation.checkKeys rfl (.refl slots) es

/-- The check of a record's keys, where there is one. -/
def keysCheck (context : Context) (document : Path) (es : List (String × Data)) (slots : Slots) :
    Except Cause Unit :=
  if context.strict then (checkKeys document es slots).outcome else .ok ()

/-- A record is bound field by field, after the check of its keys. -/
theorem recordInside_outcome (h : d.Approximates d) (slots : Slots) :
    (recordInside context d document es slots).outcome =
      keysCheck context document es slots >>= fun _ =>
        slots.mapM fun s => (s.1, ·) <$> slotOutcome context d document es s.1 s.2 := by
  have hfields : Approximates (fields context d document es slots)
      (fields context d document es slots) :=
    Congruence.fields h rfl _ _ (.refl _)
  rw [recordInside, keysCheck, ← fields_outcome h]
  cases context.strict with
  | false => exact outcome_insideMap hfields
  | true =>
    have hwalk := Approximates.bind (checkKeys_approximates document es slots) fun _ => hfields
    exact (outcome_insideMap hwalk).trans (outcome_bind fun _ => hfields)

/-- A record is bound slot by slot, after the check of its keys. -/
theorem assign_record_outcome_checked (h : d.Approximates d) (variant : Option Variant)
    (slots : Slots) :
    (assign context d document (.map es) (.record variant slots)).outcome =
      keysCheck context document es slots >>= fun _ =>
        .record variant <$>
          slots.mapM fun s => (s.1, ·) <$> slotOutcome context d document es s.1 s.2 := by
  rw [assign, outcome_bind fun _ => .pure _, recordInside_outcome h, bind_assoc]
  rfl

/-- Without strictness a record is bound slot by slot. -/
theorem assign_record_outcome (hstrict : context.strict = false) (h : d.Approximates d)
    (variant : Option Variant) (slots : Slots) :
    (assign context d document (.map es) (.record variant slots)).outcome =
      .record variant <$>
        slots.mapM fun s => (s.1, ·) <$> slotOutcome context d document es s.1 s.2 := by
  rw [assign_record_outcome_checked h, keysCheck, hstrict]
  rfl

/-- A map is bound entry by entry, each into a new value. -/
theorem assign_map_outcome (h : d.Approximates d) (hes : Ordered es) (e : Shape)
    (old : List (String × Value)) :
    (assign context d document (.map es) (.map e old)).outcome =
      .map e <$> es.mapM fun x => (x.1, ·) <$> (d.assign document x.2 e.zero).outcome := by
  have hwalk := approximation.entries (h.assign document) e es []
  rw [assign, outcome_bind fun _ => .pure _, outcome_insideMap hwalk,
    entries_outcome (h.assign document) e hes]
  rfl

theorem assign_list_outcome (h : d.Approximates d) (xs : List Data) (e : Shape) (old : List Value) :
    (assign context d document (.list xs) (.list e old)).outcome =
      .list e <$> xs.mapM fun x => (d.assign document x e.zero).outcome := by
  have hmake (x : Data) := h.assign document x e.zero
  rw [assign, outcome_bind fun _ => .pure _, outcome_insideList (approximation.items hmake 0 xs),
    items_outcome hmake]
  rfl

/-- A list for which a pattern stands has an item for each document that the pattern loads. -/
theorem loaded_list_outcome (h : d.Approximates d) (pattern : String) (e : Shape)
    (old : List Value) :
    (loaded context d document pattern (.list e old)).outcome =
      Document.loadMatching context.files document.directory pattern >>= fun documents =>
        .list e <$> documents.mapM fun x => (d.assign x.path (.map x.entries) e.zero).outcome := by
  have hmake (x : Document) : Approximates
      (located x.path (d.assign x.path (.map x.entries) e.zero))
      (located x.path (d.assign x.path (.map x.entries) e.zero)) :=
    .located _ _ (h.assign _ _ _)
  have hitems (documents : List Document) :=
    Approximates.insideList (approximation.items hmake 0 documents)
  rw [loaded, outcome_bind fun documents => .bind (hitems documents) fun _ => .pure _,
    outcome_lift]
  congr 1
  funext documents
  rw [outcome_bind fun _ => .pure _, outcome_insideList (approximation.items hmake 0 documents),
    items_outcome hmake]
  simp only [outcome_located]
  rfl

/-- A family is filled key by key, each key naming the member that its data is bound to. -/
theorem byName_outcome (h : d.Approximates d) (hes : Ordered es) (f : Factory) (family : Family)
    (member : Platform → Variant) (unknown : String → Cause) (old : List (String × Value)) :
    (byName d f family member unknown document (.map es) (.map (.oneOf family) old)).outcome =
      .map (.oneOf family) <$> es.mapM fun x => (x.1, ·) <$>
        (Platform.ofName? x.1).elim (.error (unknown x.1)) fun p =>
          (d.assign document x.2 (member p).zero).outcome := by
  have hwalk := approximation.members (h.assign document)
    (fun key => (Platform.ofName? key).map fun p => (member p).zero) unknown es []
  rw [byName, if_pos rfl, outcome_bind fun _ => .pure _, outcome_insideMap hwalk,
    members_outcome (h.assign document) _ _ hes]
  simp only [Option.elim_map]
  rfl

theorem fill_actions_outcome (h : d.Approximates d) (xs : List Data) (old : List Value) :
    (fill d .actions document (.list xs) (.list (.oneOf .action) old)).outcome =
      .list (.oneOf .action) <$> xs.mapM fun x => (d.action document x).outcome := by
  have hmake := h.action document
  rw [fill, outcome_bind fun _ => .pure _, outcome_insideList (approximation.items hmake 0 xs),
    items_outcome hmake]
  rfl

/-- An action is made from the plan of its entry: the payload is bound to the fields of its kind,
    and the key says the rest. -/
theorem action_outcome (h : d.Approximates d) (entry : Data) :
    (action d document entry).outcome = (do
      let plan ← Entry.read entry
      let bound ← (d.assign document (.map plan.payload) (Variant.action plan.kind).zero).outcome
      pure (plan.finish bound)) := by
  have hbound (plan : Plan) := Approximates.bind
    (h.assign document (.map plan.payload) (Variant.action plan.kind).zero)
    fun bound => Approximates.pure (plan.finish bound)
  rw [action, outcome_bind hbound, outcome_lift]
  congr 1
  funext plan
  rw [outcome_bind fun bound => .pure (plan.finish bound)]
  rfl

end Binding

end Testbed
