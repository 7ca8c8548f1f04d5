import Testbed.Proofs.Binding.Outcome

/-!
# What walks give

`Ensures P w` says that whatever the walk `w` gives has the property `P`, wherever it begins; there
is a rule for each step that walks are made of.

What binding gives stands in a relation to what was there before, and such a relation is shown for
the whole of binding from what it says of its parts: of scalars, defaults and paths, of lists, maps
and records with parts that stand in it, and of what factories give. These are a
`Binding.Postcondition`, and `Postcondition.level` is the walk through the functions of binding.
-/

namespace Testbed

/-! ## §1 Results of walks -/

namespace Walk

variable {α β : Type}

/-- Whether what a walk gives has a property. -/
def Ensures (P : α → Prop) (w : Walk α) : Prop :=
  ∀ l x m, w l = .ok x m → P x

namespace Ensures

variable {P : α → Prop} {Q : β → Prop} {w : Walk α} {f : α → Walk β}

theorem mono {P' : α → Prop} (hw : Ensures P w) (h : ∀ x, P x → P' x) : Ensures P' w :=
  fun l x m hx => h x (hw l x m hx)

theorem and {P' : α → Prop} (hw : Ensures P w) (hw' : Ensures P' w) :
    Ensures (fun x => P x ∧ P' x) w :=
  fun l x m hx => ⟨hw l x m hx, hw' l x m hx⟩

theorem pure {x : α} (hx : P x) : Ensures P (Pure.pure x) := by
  rintro l y m ⟨⟩
  exact hx

theorem fail (cause : Cause) : Ensures P (Walk.fail cause) := by
  rintro l y m ⟨⟩

theorem lift {x : Except Cause α} (h : ∀ a, x = .ok a → P a) : Ensures P (Walk.lift x) := by
  cases x with
  | ok a => exact pure (h a rfl)
  | error cause => exact fail cause

theorem lift_ok (x : Except Cause α) : Ensures (fun a => x = .ok a) (Walk.lift x) :=
  .lift fun _ => id

/-- What the first part ensures may be used for the rest. -/
theorem bind (hw : Ensures P w) (hf : ∀ x, P x → Ensures Q (f x)) : Ensures Q (w >>= f) := by
  intro l y m h
  simp only [Bind.bind, EStateM.bind] at h
  split at h
  · next x k hx => exact hf x (hw l x k hx) k y m h
  · cases h

/-- What is given does not depend on a step before. -/
theorem after (hf : ∀ x, Ensures Q (f x)) : Ensures Q (w >>= f) := by
  have hw : Ensures (fun _ => True) w := fun _ _ _ _ => trivial
  exact hw.bind fun x _ => hf x

theorem located (document : Path) (hw : Ensures P w) : Ensures P (w.located document) := by
  intro l x m h
  simp only [Walk.located] at h
  split at h
  · next y k hy =>
    cases h
    exact hw l x m hy
  · cases h

/-- What a walk ensures holds of its outcome. -/
theorem outcome {x : α} (hw : Ensures P w) (h : w.outcome = .ok x) : P x := by
  unfold Walk.outcome outcomeFrom at h
  split at h
  · next y m hy =>
    cases h
    exact hw _ _ _ hy
  · cases h

theorem insideMap (hw : Ensures P w) : Ensures P w.insideMap :=
  after fun _ => hw.bind fun _ hx => after fun _ => pure hx

theorem insideList (hw : Ensures P w) : Ensures P w.insideList :=
  after fun _ => hw.bind fun _ hx => after fun _ => pure hx

end Ensures

/-- What a walk gives is what it comes to, where this does not depend on where it begins. -/
theorem Approximates.ensures {w : Walk α} (hw : Approximates w w) :
    w.Ensures fun x => w.outcome = .ok x := by
  intro l x m h
  rw [← hw.outcome_eq l, outcomeFrom, h]

end Walk

namespace Binding

open Walk Value

variable {α : Type} {context : Context} {deeper : Deeper} {document : Path}

/-! ## §2 Items and entries -/

theorem items_ensures {P : Value → Prop} {make : α → Walk Value} (h : ∀ x, Ensures P (make x))
    (index : Nat) (xs : List α) : Ensures (fun vs => ∀ v ∈ vs, P v) (items make index xs) := by
  induction xs generalizing index with
  | nil => exact .pure (by simp)
  | cons x rest ih =>
    refine .after fun _ => (h x).bind fun v hv => (ih _).bind fun vs hvs => .pure ?_
    exact List.forall_mem_cons.mpr ⟨hv, hvs⟩

/-- Whether entries stand in the order of their keys and each has a property. -/
structure EachEntry (P : String → Value → Prop) (es : List (String × Value)) : Prop where
  order : Keyed.Ordered es
  each : ∀ key v, (key, v) ∈ es → P key v

theorem eachEntry_nil {P : String → Value → Prop} : EachEntry P [] :=
  ⟨Keyed.ordered_nil, by simp⟩

/-- Each entry is so after one more has been inserted that is. -/
theorem EachEntry.insert {P : String → Value → Prop} {es : List (String × Value)}
    (h : EachEntry P es) {key : String} {v : Value} (hv : P key v) :
    EachEntry P (Keyed.insert key v es) := by
  refine ⟨h.order.insert key v, fun other w hw => ?_⟩
  rcases Keyed.mem_insert hw with heq | hw
  · obtain ⟨rfl, rfl⟩ := Prod.mk.inj heq
    exact hv
  · exact h.each other w hw

/-- Each entry is as its walk ensures, which may assume it of what an earlier entry with the key has
    left. -/
theorem entries_ensures {P : Value → Prop} {fill : α → Value → Walk Value} {element : Shape}
    (hzero : P element.zero) (h : ∀ x v, P v → Ensures P (fill x v)) (xs : List (String × α))
    {filled : List (String × Value)} (hfilled : EachEntry (fun _ => P) filled) :
    Ensures (EachEntry fun _ => P) (entries element fill xs filled) := by
  induction xs generalizing filled with
  | nil => exact .pure hfilled
  | cons e rest ih =>
    refine .after fun _ => (h _ _ ?_).bind fun v hv => ih (hfilled.insert hv)
    -- a key that comes again finds what was filled before
    cases hget : Keyed.get? e.1 filled with
    | none => exact hzero
    | some v => exact hfilled.each e.1 v (Keyed.mem_of_get?_eq_some hget)

/-- Every key of what the entries are filled from is filled. -/
theorem entries_keys {fill : α → Value → Walk Value} {e : Shape} (xs : List (String × α))
    (filled : List (String × Value)) :
    Ensures (fun es => ∀ key, Keyed.has key xs = true ∨ Keyed.has key filled = true →
      Keyed.has key es = true) (entries e fill xs filled) := by
  induction xs generalizing filled with
  | nil => exact .pure fun key h => h.resolve_left (by simp [Keyed.has, Keyed.get?])
  | cons x rest ih =>
    obtain ⟨k, x⟩ := x
    refine .after fun _ => .after fun v => (ih _).mono fun es hes key h => hes key ?_
    by_cases hk : k = key
    · subst hk
      exact .inr (by simp [Keyed.has])
    · simpa [Keyed.has, Keyed.get?, hk, Keyed.get?_insert_of_ne (Ne.symm hk)] using h

/-- Each member is as its walk ensures, of the member that its key names. -/
theorem members_ensures {P : String → Value → Prop} {member? : String → Option Value}
    {unknown : String → Cause} {fill : Data → Value → Walk Value} {es : List (String × Data)}
    (h : ∀ key x zero, (key, x) ∈ es → member? key = some zero → Ensures (P key) (fill x zero))
    {filled : List (String × Value)} (hfilled : EachEntry P filled) :
    Ensures (EachEntry P) (members member? unknown fill es filled) := by
  induction es generalizing filled with
  | nil => exact .pure hfilled
  | cons e rest ih =>
    obtain ⟨key, x⟩ := e
    refine .after fun _ => ?_
    cases hmember : member? key with
    | none => exact .fail _
    | some zero =>
      refine (h key x zero List.mem_cons_self hmember).bind fun v hv => ih ?_ (hfilled.insert hv)
      intro other y zero hmem
      exact h other y zero (List.mem_cons_of_mem _ hmem)

/-- What is ensured of the fields of a record is ensured of the record: checking the keys changes
    nothing. -/
theorem recordInside_ensures {P : Slots → Prop} {es : List (String × Data)} {slots : Slots}
    (h : Ensures P (fields context deeper document es slots)) :
    Ensures P (recordInside context deeper document es slots) := by
  unfold recordInside
  apply Ensures.insideMap
  cases context.strict with
  | false => exact h
  | true => exact .after fun _ => h

/-! ## §3 Postconditions -/

/-- What is said of what binding gives, and of what was there before: where a value is bound by its
    shape from data, where a factory fills it, and where a field or the slots of a record are
    bound. It is to follow from what it says of the parts. -/
structure Postcondition (context : Context) where
  /-- What is bound by its shape from data, in place of what was there. -/
  Bound : Data → Value → Value → Prop
  /-- What a factory puts in place of what was there. -/
  Filled : Factory → Value → Value → Prop
  /-- What a field with directives holds in place of what it held. -/
  Field : Directives → Value → Value → Prop
  /-- The slots of a record in place of those from before. -/
  SlotsBound : Slots → Slots → Prop
  /-- What stands in a list or a map with elements of a shape. -/
  Stands : Shape → Value → Prop
  /-- What is made of an entry for an action. -/
  Made : Value → Prop
  null : ∀ v, Bound .null v v.reset
  scalar : ∀ {x v w}, v.isScalar = true → Binding.scalar x v = .ok w → Bound x v w
  list : ∀ {xs e old items}, (∀ v ∈ items, Stands e v) →
    Bound (.list xs) (.list e old) (.list e items)
  map : ∀ {es e old entries}, EachEntry (fun _ => Stands e) entries →
    (∀ key, Keyed.has key es = true → Keyed.has key entries = true) →
    Bound (.map es) (.map e old) (.map e entries)
  record : ∀ {es variant slots slots'}, SlotsBound slots slots' →
    Bound (.map es) (.record variant slots) (.record variant slots')
  zero : ∀ e, Stands e e.zero
  again : ∀ {e x v w}, Stands e v → Bound x v w → Stands e w
  absent : ∀ {d v w}, fields.absentField d v = .ok w → Field d v w
  loadedList : ∀ {d e old items}, d.factory? = none → d.isLoadable = true →
    (∀ v ∈ items, Stands e v) → Field d (.list e old) (.list e items)
  loadedMap : ∀ {d e old entries}, d.factory? = none → d.isLoadable = true →
    EachEntry (fun _ => Stands e) entries → Field d (.map e old) (.map e entries)
  path : ∀ {d document x v w}, d.factory? = none → d.isPath = true →
    existingPath context document x v = .ok w → Field d v w
  bound : ∀ {d x v w}, d.factory? = none → d.isPath = false → checkValue d x = .ok () →
    Bound x v w → Field d v w
  bare : ∀ {d variant slots slots'}, d.factory? = none → SlotsBound slots slots' →
    Field d (.record variant slots) (.record variant slots')
  filled : ∀ {d name f v w}, d.factory? = some name → context.factories.get? name = some f →
    Filled f v w → Field d v w
  nil : SlotsBound [] []
  cons : ∀ {f d v w slots slots'}, directives f = .ok d → Field d v w → SlotsBound slots slots' →
    SlotsBound ((f, v) :: slots) ((f, w) :: slots')
  sandboxes : ∀ {old entries},
    EachEntry (fun _ w => ∃ p x, Bound x (Variant.sandbox p).zero w) entries →
    Filled .sandboxes (.map (.oneOf .sandbox) old) (.map (.oneOf .sandbox) entries)
  environments : ∀ {old entries},
    EachEntry (fun _ w => ∃ p x, Bound x (Variant.environment p).zero w) entries →
    Filled .environments (.map (.oneOf .environment) old) (.map (.oneOf .environment) entries)
  actions : ∀ {old items}, (∀ v ∈ items, Made v) →
    Filled .actions (.list (.oneOf .action) old) (.list (.oneOf .action) items)
  action : ∀ {kind slots v}, Made v → Filled .action (.record (some (.action kind)) slots) v
  made : ∀ {entry plan w}, Entry.read entry = .ok plan →
    Bound (.map plan.payload) (Variant.action plan.kind).zero w → Made (plan.finish w)

namespace Postcondition

variable {context : Context} (P : Postcondition context) {deeper : Deeper} {document : Path}

/-- Whether a postcondition holds of what a walk may call one level further down. -/
structure Below (deeper : Deeper) : Prop where
  assign : ∀ document x v, (deeper.assign document x v).Ensures (P.Bound x v)
  fill : ∀ f document x v, (deeper.fill f document x v).Ensures (P.Filled f v)
  action : ∀ document entry, (deeper.action document entry).Ensures P.Made

variable {P}

/-- What is filled in a list or a map is bound in place of what stands there. -/
theorem Below.stands (h : P.Below deeper) (document : Path) (x : Data) {e : Shape} {v : Value}
    (hv : P.Stands e v) : Ensures (P.Stands e) (deeper.assign document x v) :=
  (h.assign document x v).mono fun _ => P.again hv

theorem loaded (h : P.Below deeper) {d : Directives} (hfactory : d.factory? = none)
    (hload : d.isLoadable = true) (pattern : String) (v : Value) :
    Ensures (P.Field d v) (loaded context deeper document pattern v) := by
  refine .after fun documents => ?_
  have hfill {e : Shape} (m : Document) (v : Value) (hv : P.Stands e v) : Ensures (P.Stands e)
      (Walk.located m.path (deeper.assign m.path (.map m.entries) v)) :=
    .located _ (h.stands _ _ hv)
  cases v with
  | list e old =>
    have hitems := items_ensures (fun m => hfill m e.zero (P.zero e)) 0 documents
    exact hitems.insideList.bind fun vs hvs => .pure (P.loadedList hfactory hload hvs)
  | map e old =>
    have hentries := entries_ensures (P.zero e) hfill (documents.map fun m => (m.name, m))
      eachEntry_nil
    exact hentries.insideMap.bind fun es hes => .pure (P.loadedMap hfactory hload hes)
  | _ => exact .fail _

theorem value (h : P.Below deeper) {d : Directives} (hfactory : d.factory? = none) (x : Data)
    (v : Value) : Ensures (P.Field d v) (value context deeper document d x v) := by
  have hplain : Ensures (P.Field d v) (do
      Walk.lift (checkValue d x)
      if d.isPath then Walk.lift (existingPath context document x v)
      else deeper.assign document x v) := by
    refine (Ensures.lift_ok _).bind fun _ hcheck => ?_
    split
    · next hpath => exact .lift fun w => P.path hfactory hpath
    · next hpath =>
      exact (h.assign document x v).mono fun w =>
        P.bound hfactory (Bool.eq_false_iff.mpr hpath) hcheck
  unfold Binding.value
  cases x with
  | text pattern =>
    simp only
    split
    · next hload => exact loaded h hfactory hload pattern v
    · exact hplain
  | _ => exact hplain

mutual
/-- A field is filled by the factory that its tag names, or bound as a value. -/
theorem field (h : P.Below deeper) (d : Directives) (x : Data) :
    (v : Value) → Ensures (P.Field d v) (field context deeper document d x v)
  | v => by
    unfold Binding.field
    cases hfactory : d.factory? with
    | some name =>
      simp only
      cases hget : context.factories.get? name with
      | some f => exact (h.fill f document x v).mono fun w => P.filled hfactory hget
      | none => exact .fail _
    | none =>
      simp only
      split
      · -- a bare text is bound as the record that it stands for
        next sub raw variant slots _ =>
        exact (recordInside_ensures (fields h [(sub, .text raw)] slots)).bind
          fun filled hfilled => .pure (P.bare hfactory hfilled)
      · split
        · exact value h hfactory _ _
        · exact value h hfactory _ _
      · exact value h hfactory _ _
/-- Fields are bound one after the other, by induction on the slots. -/
theorem fields (h : P.Below deeper) (es : List (String × Data)) :
    (slots : Slots) → Ensures (P.SlotsBound slots) (fields context deeper document es slots)
  | [] => by
    rw [Binding.fields]
    exact .pure P.nil
  | (f, v) :: rest => by
    rw [fields_cons]
    refine (Ensures.located _ (.lift_ok _)).bind fun d hread => .after fun _ => ?_
    have hslot : Ensures (P.Field d v) (slot context deeper document es f d v) := by
      have hfield (x : Data) : Ensures (P.Field d v)
          (Binding.field context deeper document d x v) := field h d x v
      cases v with
      | absent => exact .fail _
      | _ =>
        simp only [slot]
        split
        · exact hfield _
        · exact .lift fun w => P.absent
    exact (Ensures.located _ hslot).bind fun w hw => (fields h es rest).bind
      fun filled hfilled => .pure (P.cons hread hw hfilled)
end

theorem recordInside (h : P.Below deeper) (es : List (String × Data)) (slots : Slots) :
    Ensures (P.SlotsBound slots) (recordInside context deeper document es slots) :=
  recordInside_ensures (fields h es slots)

/-- Binding by a shape goes by the kinds of the data and of the target. -/
theorem assign (h : P.Below deeper) (x : Data) (v : Value) :
    Ensures (P.Bound x v) (assign context deeper document x v) := by
  unfold Binding.assign
  split
  · exact .pure (P.null v)
  · split
    · split
      · exact (recordInside h _ _).bind fun filled hfilled => .pure (P.record hfilled)
      · exact .fail _
    · split
      · next e old _ es _ =>
        have hentries := (entries_ensures (P.zero e) (fun x v hv => h.stands document x hv) es
          eachEntry_nil).and (entries_keys es [])
        exact hentries.insideMap.bind fun filled hfilled =>
          .pure (P.map hfilled.1 fun key hkey => hfilled.2 key (.inl hkey))
      · exact .fail _
    · split
      · next e old _ xs _ =>
        have hitems := items_ensures (fun x => h.stands document x (P.zero e)) 0 xs
        exact hitems.insideList.bind fun vs hvs => .pure (P.list hvs)
      · exact .fail _
    · next hrecord hmap hlist =>
      refine .lift fun w => P.scalar ?_
      cases v with
      | record variant slots => exact absurd rfl (hrecord variant slots)
      | map e es => exact absurd rfl (hmap e es)
      | list e items => exact absurd rfl (hlist e items)
      | _ => rfl

/-- Every member is bound in place of a zero value. -/
theorem byName (h : P.Below deeper) (f : Factory) {family : Family} {member : Platform → Variant}
    (unknown : String → Cause) (x : Data) (v : Value)
    (hnamed : ∀ {old entries}, EachEntry (fun _ w => ∃ p x, P.Bound x (member p).zero w) entries →
      P.Filled f (.map (.oneOf family) old) (.map (.oneOf family) entries)) :
    Ensures (P.Filled f v) (byName deeper f family member unknown document x v) := by
  unfold Binding.byName
  split
  · split
    · split
      · next es _ g old hg =>
        subst hg
        refine (Ensures.insideMap (members_ensures ?_ eachEntry_nil)).bind
          fun es hes => .pure (hnamed hes)
        intro key x zero _ hzero
        obtain ⟨p, -, rfl⟩ := Option.map_eq_some_iff.mp hzero
        exact (h.assign document x (member p).zero).mono fun w hw => ⟨p, x, hw⟩
      · exact .fail _
    · exact .fail _
  · exact .fail _

theorem fill (h : P.Below deeper) (f : Factory) (x : Data) (v : Value) :
    Ensures (P.Filled f v) (fill deeper f document x v) := by
  unfold Binding.fill
  cases f with
  | actions =>
    simp only
    split
    · split
      · exact (items_ensures (h.action document) 0 _).insideList.bind
          fun vs hvs => .pure (P.actions hvs)
      · exact .fail _
    · exact .fail _
  | action =>
    simp only
    split
    · exact (h.action document x).mono fun w => P.action
    · exact .fail _
  | sandboxes => exact byName h _ _ x v P.sandboxes
  | environments => exact byName h _ _ x v P.environments

/-- An action is its payload, bound one level below and finished. -/
theorem entry (h : P.Below deeper) (x : Data) :
    Ensures P.Made (Binding.action deeper document x) :=
  (Ensures.lift_ok _).bind fun _ hread =>
    (h.assign _ _ _).bind fun _ hbound => .pure (P.made hread hbound)

theorem bottom : P.Below .bottom :=
  ⟨fun _ _ _ => .fail _, fun _ _ _ _ => .fail _, fun _ _ => .fail _⟩

/-- A postcondition holds one level further up. -/
theorem step (h : P.Below deeper) : P.Below (Deeper.step context deeper) where
  assign _ x v := assign h x v
  fill f _ x v := fill h f x v
  action _ x := entry h x

variable (P)

/-- A postcondition holds of all that binding gives, however deep it may go. -/
theorem level (n : Nat) : P.Below (Deeper.level context n) := by
  induction n with
  | zero => exact bottom
  | succ n ih => exact step ih

end Postcondition

end Binding

end Testbed
