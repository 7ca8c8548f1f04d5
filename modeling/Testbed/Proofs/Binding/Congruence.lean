import Testbed.Binding.Walker
import Testbed.Proofs.Value.Alike
import Testbed.Proofs.Value.Within

/-!
# Two runs of binding

Much that is said of binding is a relation between two of its runs: that they come to the same, up
to what is told apart, or that each keeps something of the location that it began at. A relation
like this is shown for the steps that walks are made of, and what it needs of them is a
`Walk.Congruence`: one relation of walks that begin anywhere, another of walks inside of a frame
that they may move, and the pairs of documents that the two runs may be in.

Every function of binding is built of these steps alone. So for any congruence the functions of two
runs are related, in place of values that are alike, if what they may call one level further down is
(`Walk.Congruence.step`).
-/

namespace Testbed

/-! ## §1 What a field looks at -/

namespace Binding

open Walk Value

variable {context : Context} {deeper : Deeper} {document : Path} {v v' : Value}
  {slots slots' : Slots}

/-- The data under a name, where there is some; null counts as absent. -/
def present? (name : String) (data : List (String × Data)) : Option Data :=
  (Keyed.get? name data).filter fun x => !x.isNull

/-- The walk that binds one slot of a record by the directives of its field. -/
def slot (context : Context) (deeper : Deeper) (document : Path) (data : List (String × Data))
    (f : Field) (directives : Directives) (target : Value) : Walk Value :=
  match target with
  | .absent => fail (.missingField f.owner f.ident)
  | target =>
    match present? (documentName f directives) data with
    | some x => field context deeper document directives x target
    | none => lift (fields.absentField directives target)

theorem fields_cons (data : List (String × Data)) (f : Field) (target : Value) (rest : Slots) :
    fields context deeper document data ((f, target) :: rest) = (do
      let directives ← located document (lift (directives f))
      modify (Location.atField (documentName f directives))
      let bound ← located document (slot context deeper document data f directives target)
      let filled ← fields context deeper document data rest
      pure ((f, bound) :: filled)) := by
  rw [fields]
  congr 1
  funext directives
  -- the two differ in the walk of the slot alone
  funext _
  unfold slot present?
  cases target with
  | absent => rfl
  | _ =>
    simp only
    cases Keyed.get? (documentName f directives) data with
    | none => rfl
    | some x => cases x <;> rfl

/-- A field whose tag is read is bound without a look at the tag. -/
theorem fields_cons_of_directives {f : Field} {directives : Directives}
    (hread : Binding.directives f = .ok directives) (data : List (String × Data)) (target : Value)
    (rest : Slots) :
    fields context deeper document data ((f, target) :: rest) = (do
      modify (Location.atField (documentName f directives))
      let bound ← located document (slot context deeper document data f directives target)
      let filled ← fields context deeper document data rest
      pure ((f, bound) :: filled)) := by
  rw [fields_cons, hread]
  rfl

/-- Slots that are alike have the same names. -/
theorem documentNames_alike (h : SlotsAlike slots slots') :
    documentNames slots = documentNames slots' := by
  induction slots generalizing slots' with
  | nil => cases h; rfl
  | cons e rest ih =>
    cases h with
    | bound f _ h => rw [documentNames, documentNames, ih h]
    | filled _ _ _ _ _ h => rw [documentNames, documentNames, ih h]

theorem existingPath_alike (h : Alike v v') (data : Data) :
    existingPath context document data v = existingPath context document data v' := by
  cases h <;> rfl

theorem scalar_alike (h : Alike v v') (hv : v.isScalar = true) (data : Data) :
    scalar data v = scalar data v' := by
  cases h with
  | int w m n =>
    cases data with
    | int k => exact (scalar_int w k m).trans (scalar_int w k n).symm
    | _ => rfl
  | float w x y =>
    cases data with
    | int k => exact (scalar_floatOfInt w k x).trans (scalar_floatOfInt w k y).symm
    | float z => exact (scalar_float w z x).trans (scalar_float w z y).symm
    | _ => rfl
  | list | map | record => cases hv
  | _ => cases data <;> rfl

theorem ofDefault_alike (h : Alike v v') (raw : String) : ofDefault raw v = ofDefault raw v' := by
  cases h with
  | bool b c => rw [ofDefault_bool, ofDefault_bool]
  | int w m n => rw [ofDefault_int, ofDefault_int]
  | _ => rfl

/-- A field that is not set comes to the same for values that are alike. -/
theorem absentField_alike (h : Alike v v') (d : Directives) :
    fields.absentField d v = fields.absentField d v' := by
  unfold fields.absentField
  rw [h.reset_eq]
  cases d.default? with
  | none => rfl
  | some raw => exact ofDefault_alike h raw

/-- A field that is not set comes to the same for members of one family. -/
theorem absentField_akin (h : Akin v v') (d : Directives) :
    fields.absentField d v = fields.absentField d v' := by
  obtain ⟨x, y, inside, inside', rfl, rfl, hfamily⟩ := h
  unfold fields.absentField
  rw [reset, reset, hfamily]
  rfl

end Binding

/-! ## §2 Congruences -/

/-- A relation of walks that the steps of binding keep. -/
structure Walk.Congruence where
  /-- The documents that the two runs may be in. -/
  Near : Path → Path → Prop
  /-- The relation of walks, wherever they begin. -/
  Whole : {α : Type} → Walk α → Walk α → Prop
  /-- The relation of walks that begin inside of a frame, which they may move. -/
  Inside : {α : Type} → Walk α → Walk α → Prop
  near_self : ∀ p, Near p p
  near_directory : ∀ {p q}, Near p q → p.directory = q.directory
  pure : ∀ {α : Type} (x : α), Whole (Pure.pure x) (Pure.pure x)
  fail : ∀ {α : Type} (cause : Cause), Whole (Walk.fail cause : Walk α) (Walk.fail cause)
  bind : ∀ {α β : Type} {w w' : Walk α} {f f' : α → Walk β}, Whole w w' →
    (∀ x, Whole (f x) (f' x)) → Whole (w >>= f) (w' >>= f')
  located : ∀ {α : Type} {p q : Path} {w w' : Walk α}, Near p q → Whole w w' →
    Whole (Walk.located p w) (Walk.located q w')
  inside : ∀ {α : Type} {w w' : Walk α}, Whole w w' → Inside w w'
  atField : ∀ name : String, Inside (modify (Location.atField name) : Walk Unit)
    (modify (Location.atField name))
  atIndex : ∀ i : Nat, Inside (modify (Location.atIndex i) : Walk Unit)
    (modify (Location.atIndex i))
  andThen : ∀ {α β : Type} {w w' : Walk α} {f f' : α → Walk β}, Inside w w' →
    (∀ x, Inside (f x) (f' x)) → Inside (w >>= f) (w' >>= f')
  insideMap : ∀ {α : Type} {w w' : Walk α}, Inside w w' → Whole w.insideMap w'.insideMap
  insideList : ∀ {α : Type} {w w' : Walk α}, Inside w w' → Whole w.insideList w'.insideList

namespace Walk.Congruence

open Binding Value

variable (C : Congruence) {α : Type} {context : Context} {d d' : Deeper} {p q : Path}

theorem lift (x : Except Cause α) : C.Whole (Walk.lift x) (Walk.lift x) := by
  cases x with
  | ok x => exact C.pure x
  | error cause => exact C.fail cause

/-- Whether what two runs may call one level further down is related. A factory is asked for a
    member of a family whatever member stands there. -/
structure Below (d d' : Deeper) : Prop where
  assign : ∀ {p q}, C.Near p q → ∀ data {v v' : Value}, v.Alike v' →
    C.Whole (d.assign p data v) (d'.assign q data v')
  fill : ∀ {p q}, C.Near p q → ∀ f data {v v' : Value}, v.Alike v' ∨ v.Akin v' →
    C.Whole (d.fill f p data v) (d'.fill f q data v')
  action : ∀ {p q}, C.Near p q → ∀ entry, C.Whole (d.action p entry) (d'.action q entry)

/-! ## §3 Items and entries -/

theorem items {make make' : α → Walk Value} (h : ∀ x, C.Whole (make x) (make' x)) (index : Nat)
    (xs : List α) : C.Inside (Binding.items make index xs) (Binding.items make' index xs) := by
  induction xs generalizing index with
  | nil => exact C.inside (C.pure _)
  | cons x rest ih =>
    refine C.andThen (C.atIndex index) fun _ => C.andThen (C.inside (h x)) fun v => ?_
    exact C.andThen (ih (index + 1)) fun vs => C.inside (C.pure _)

/-- Entries are bound one after the other. One whose key comes again is bound into what the first
    has left, so the walks agree on all targets. -/
theorem entries {fill fill' : α → Value → Walk Value} (h : ∀ x v, C.Whole (fill x v) (fill' x v))
    (element : Shape) (xs : List (String × α)) (filled : List (String × Value)) :
    C.Inside (Binding.entries element fill xs filled)
      (Binding.entries element fill' xs filled) := by
  induction xs generalizing filled with
  | nil => exact C.inside (C.pure _)
  | cons e rest ih =>
    exact C.andThen (C.atField e.1) fun _ => C.andThen (C.inside (h _ _)) fun v => ih _

/-- Members are made one after the other; a key that names none stops both walks. -/
theorem members {fill fill' : Data → Value → Walk Value}
    (h : ∀ x v, C.Whole (fill x v) (fill' x v)) (member? : String → Option Value)
    (unknown : String → Cause) (es : List (String × Data)) (filled : List (String × Value)) :
    C.Inside (Binding.members member? unknown fill es filled)
      (Binding.members member? unknown fill' es filled) := by
  induction es generalizing filled with
  | nil => exact C.inside (C.pure _)
  | cons e rest ih =>
    obtain ⟨key, x⟩ := e
    refine C.andThen (C.atField key) fun _ => ?_
    cases member? key with
    | none => exact C.inside (C.fail _)
    | some zero => exact C.andThen (C.inside (h _ _)) fun v => ih _

/-- The check of keys looks at the names of slots and at no values. -/
theorem checkKeys (hpq : C.Near p q) {slots slots' : Slots} (hslots : SlotsAlike slots slots')
    (es : List (String × Data)) :
    C.Inside (Binding.checkKeys p es slots) (Binding.checkKeys q es slots') := by
  rw [Binding.checkKeys, Binding.checkKeys, documentNames_alike hslots]
  refine C.andThen (C.inside (C.located hpq (C.lift _))) fun names => ?_
  split
  · exact C.inside (C.pure _)
  · next key _ _ =>
    exact C.andThen (C.atField key) fun _ => C.inside (C.located hpq (C.fail _))

/-! ## §4 Fields -/

variable {C}

/-- Documents are loaded by the directory of the one that names them, and each is bound in
    itself. -/
theorem loaded (h : C.Below d d') (hpq : C.Near p q) (pattern : String) {v v' : Value}
    (hv : v.Alike v') :
    C.Whole (Binding.loaded context d p pattern v) (Binding.loaded context d' q pattern v') := by
  have hfill (x : Document) (v : Value) : C.Whole
      (Walk.located x.path (d.assign x.path (.map x.entries) v))
      (Walk.located x.path (d'.assign x.path (.map x.entries) v)) :=
    C.located (C.near_self _) (h.assign (C.near_self _) _ (.refl v))
  unfold Binding.loaded
  rw [C.near_directory hpq]
  refine C.bind (C.lift _) fun documents => ?_
  cases hv with
  | list e _ _ =>
    exact C.bind (C.insideList (C.items (fun x => hfill x _) 0 documents)) fun _ => C.pure _
  | map e _ _ => exact C.bind (C.insideMap (C.entries hfill e _ [])) fun _ => C.pure _
  | _ => exact C.fail _

/-- Behind a tag's checks, data is loaded, checked as a path or bound by its shape. -/
theorem value (h : C.Below d d') (hpq : C.Near p q) (directives : Directives) (data : Data)
    {v v' : Value} (hv : v.Alike v') :
    C.Whole (Binding.value context d p directives data v)
      (Binding.value context d' q directives data v') := by
  have hpath : existingPath context p data v = existingPath context q data v' := by
    rw [existingPath_alike hv]
    unfold existingPath resolvePath
    rw [C.near_directory hpq]
  have hplain : C.Whole
      (do
        Walk.lift (checkValue directives data)
        if directives.isPath then Walk.lift (existingPath context p data v)
        else d.assign p data v)
      (do
        Walk.lift (checkValue directives data)
        if directives.isPath then Walk.lift (existingPath context q data v')
        else d'.assign q data v') := by
    rw [hpath]
    refine C.bind (C.lift _) fun _ => ?_
    split
    · exact C.lift _
    · exact h.assign hpq data hv
  unfold Binding.value
  cases data with
  | text pattern =>
    simp only
    split
    · exact loaded h hpq pattern hv
    · exact hplain
  | _ => exact hplain

/-- A record is bound inside a map, after its keys are checked where they are. -/
theorem recordInside_of (hpq : C.Near p q) {es : List (String × Data)} {slots slots' : Slots}
    (hslots : SlotsAlike slots slots')
    (hfields : C.Inside (Binding.fields context d p es slots)
      (Binding.fields context d' q es slots')) :
    C.Whole (Binding.recordInside context d p es slots)
      (Binding.recordInside context d' q es slots') := by
  unfold Binding.recordInside
  apply C.insideMap
  cases context.strict with
  | false => exact hfields
  | true => exact C.andThen (C.checkKeys hpq hslots es) fun _ => hfields

/-- A slot is bound by its field, or its field has no data. -/
theorem slot_of {directives : Directives} {v v' : Value} (hv : v.Alike v' ∨ v.Akin v')
    (es : List (String × Data)) (f : Field)
    (hfield : ∀ x, C.Whole (Binding.field context d p directives x v)
      (Binding.field context d' q directives x v')) :
    C.Whole (Binding.slot context d p es f directives v)
      (Binding.slot context d' q es f directives v') := by
  have habsent : fields.absentField directives v = fields.absentField directives v' :=
    hv.elim (absentField_alike · directives) (absentField_akin · directives)
  have hbound : C.Whole
      (match present? (documentName f directives) es with
        | some x => Binding.field context d p directives x v
        | none => Walk.lift (fields.absentField directives v))
      (match present? (documentName f directives) es with
        | some x => Binding.field context d' q directives x v'
        | none => Walk.lift (fields.absentField directives v')) := by
    rw [habsent]
    split
    · exact hfield _
    · exact C.lift _
  rcases hv with hv | ⟨x, y, inside, inside', rfl, rfl, -⟩
  · cases hv with
    | absent => exact C.fail _
    | _ => exact hbound
  · exact hbound

/-- A field that a factory fills may hold any member of a family. -/
theorem field_akin (h : C.Below d d') (hpq : C.Near p q) {directives : Directives}
    (hfactory : directives.factory?.isSome) (data : Data) {v v' : Value} (hv : v.Akin v') :
    C.Whole (Binding.field context d p directives data v)
      (Binding.field context d' q directives data v') := by
  obtain ⟨name, hname⟩ := Option.isSome_iff_exists.mp hfactory
  unfold Binding.field
  simp only [hname]
  cases context.factories.get? name with
  | some f => exact h.fill hpq f data (.inr hv)
  | none => exact C.fail _

mutual
/-- A field goes by its tag: a factory fills it, or its data is spelled out and bound as a value. -/
theorem field (h : C.Below d d') (hpq : C.Near p q) (directives : Directives) (data : Data) :
    (v : Value) → {v' : Value} → v.Alike v' →
      C.Whole (Binding.field context d p directives data v)
        (Binding.field context d' q directives data v')
  | v, v', hv => by
    unfold Binding.field
    cases directives.factory? with
    | some name =>
      simp only
      cases context.factories.get? name with
      | some f => exact h.fill hpq f data (.inl hv)
      | none => exact C.fail _
    | none =>
      simp only
      cases directives.string? with
      | none => exact value h hpq directives data hv
      | some sub =>
        cases hv with
        | record variant hslots =>
          cases data with
          | text raw =>
            -- a bare text is bound as the record that it stands for
            have hfields := fields h hpq [(sub, .text raw)] _ hslots
            exact C.bind (recordInside_of hpq hslots hfields) fun _ => C.pure _
          | _ => exact value h hpq directives _ (.record variant hslots)
        | map e vs ws =>
          cases data with
          | map es =>
            simp only
            split
            · exact value h hpq directives _ (.map e vs ws)
            · exact value h hpq directives _ (.map e vs ws)
          | _ => exact value h hpq directives _ (.map e vs ws)
        | bool b c => cases data <;> exact value h hpq directives _ (.bool b c)
        | int w m n => cases data <;> exact value h hpq directives _ (.int w m n)
        | float w x y => cases data <;> exact value h hpq directives _ (.float w x y)
        | text r s => cases data <;> exact value h hpq directives _ (.text r s)
        | list e vs ws => cases data <;> exact value h hpq directives _ (.list e vs ws)
        | absent => cases data <;> exact value h hpq directives _ .absent
/-- Fields are bound one after the other, by induction on the slots. -/
theorem fields (h : C.Below d d') (hpq : C.Near p q) (es : List (String × Data)) :
    (slots : Slots) → {slots' : Slots} → SlotsAlike slots slots' →
      C.Inside (Binding.fields context d p es slots) (Binding.fields context d' q es slots')
  | [], _, .nil => by
    rw [Binding.fields, Binding.fields]
    exact C.inside (C.pure _)
  | (f, v) :: rest, _, @SlotsAlike.bound _ _ v' _ rest' hv hslots => by
    have hslot (directives : Directives) : C.Whole (Binding.slot context d p es f directives v)
        (Binding.slot context d' q es f directives v') :=
      slot_of (.inl hv) es f fun x => field h hpq directives x v hv
    rw [fields_cons, fields_cons]
    refine C.andThen (C.inside (C.located hpq (C.lift _))) fun directives => ?_
    refine C.andThen (C.atField _) fun _ => ?_
    refine C.andThen (C.inside (C.located hpq (hslot directives))) fun bound => ?_
    exact C.andThen (fields h hpq es rest hslots) fun _ => C.inside (C.pure _)
  | (f, .record (some x) inside) :: rest, _,
      @SlotsAlike.filled _ directives hread hfactory _ y hfamily _ inside' _ rest' hslots => by
    have hakin : Akin (.record (some x) inside) (.record (some y) inside') :=
      ⟨x, y, inside, inside', rfl, rfl, hfamily⟩
    have hslot : C.Whole
        (Binding.slot context d p es f directives (.record (some x) inside))
        (Binding.slot context d' q es f directives (.record (some y) inside')) :=
      slot_of (.inr hakin) es f fun z => field_akin h hpq hfactory z hakin
    rw [fields_cons_of_directives hread, fields_cons_of_directives hread]
    refine C.andThen (C.atField _) fun _ =>
      C.andThen (C.inside (C.located hpq hslot)) fun bound => ?_
    exact C.andThen (fields h hpq es rest hslots) fun _ => C.inside (C.pure _)
end

/-- A slot is bound from what is under its name, or takes its default. -/
theorem slot (h : C.Below d d') (hpq : C.Near p q) (es : List (String × Data)) (f : Field)
    (directives : Directives) {v v' : Value} (hv : v.Alike v') :
    C.Whole (Binding.slot context d p es f directives v)
      (Binding.slot context d' q es f directives v') :=
  slot_of (.inl hv) es f fun x => field h hpq directives x v hv

theorem recordInside (h : C.Below d d') (hpq : C.Near p q) (es : List (String × Data))
    {slots slots' : Slots} (hslots : SlotsAlike slots slots') :
    C.Whole (Binding.recordInside context d p es slots)
      (Binding.recordInside context d' q es slots') :=
  recordInside_of hpq hslots (fields h hpq es slots hslots)

/-! ## §5 Levels -/

/-- Binding by a shape goes by the kind of the target, which values that are alike share. -/
theorem assign (h : C.Below d d') (hpq : C.Near p q) (data : Data) {v v' : Value}
    (hv : v.Alike v') :
    C.Whole (Binding.assign context d p data v) (Binding.assign context d' q data v') := by
  have hscalar (hs : v.isScalar = true) :
      C.Whole (Walk.lift (scalar data v)) (Walk.lift (scalar data v')) :=
    scalar_alike hv hs data ▸ C.lift _
  -- targets that are akin have one shape, so a null resets both to one value
  have hreset := hv.reset_eq
  unfold Binding.assign
  cases hv with
  | record variant hslots =>
    cases data with
    | null => exact hreset ▸ C.pure _
    | map es => exact C.bind (recordInside h hpq es hslots) fun _ => C.pure _
    | _ => exact C.fail _
  | map e vs ws =>
    cases data with
    | null => exact C.pure _
    | map es =>
      exact C.bind (C.insideMap (C.entries (fun x v => h.assign hpq x (.refl v)) e es []))
        fun _ => C.pure _
    | _ => exact C.fail _
  | list e vs ws =>
    cases data with
    | null => exact C.pure _
    | list xs =>
      exact C.bind (C.insideList (C.items (fun x => h.assign hpq x (.refl _)) 0 xs))
        fun _ => C.pure _
    | _ => exact C.fail _
  | _ =>
    cases data with
    | null => exact hreset ▸ C.pure _
    | _ => exact hscalar rfl

/-- The members of a family are made anew, so of the target only the family counts. -/
theorem byName (h : C.Below d d') (hpq : C.Near p q) (f : Factory) (family : Family)
    (member : Platform → Variant) (unknown : String → Cause) (data : Data) {v v' : Value}
    (hv : v.Alike v' ∨ v.Akin v') :
    C.Whole (Binding.byName d f family member unknown p data v)
      (Binding.byName d' f family member unknown q data v') := by
  unfold Binding.byName
  cases data with
  | map es =>
    rcases hv with hv | ⟨x, y, _, _, rfl, rfl, -⟩
    · cases hv with
      | map e vs ws =>
        cases e with
        | oneOf g =>
          simp only
          split
          · exact C.bind (C.insideMap
              (C.members (fun x v => h.assign hpq x (.refl v)) _ unknown es [])) fun _ => C.pure _
          · exact C.fail _
        | _ => exact C.fail _
      | _ => exact C.fail _
    · exact C.fail _
  | _ => exact C.fail _

/-- A factory makes its value anew, so of the target only the kind counts. -/
theorem fill (h : C.Below d d') (hpq : C.Near p q) (f : Factory) (data : Data) {v v' : Value}
    (hv : v.Alike v' ∨ v.Akin v') :
    C.Whole (Binding.fill d f p data v) (Binding.fill d' f q data v') := by
  unfold Binding.fill
  cases f with
  | sandboxes => exact byName h hpq _ _ _ _ data hv
  | environments => exact byName h hpq _ _ _ _ data hv
  | actions =>
    cases data with
    | list xs =>
      -- members of a family are no lists, so both walks refuse a target that is akin
      rcases hv with hv | ⟨x, y, _, _, rfl, rfl, -⟩
      · cases hv with
        | list e vs ws =>
          cases e with
          | oneOf family =>
            cases family with
            | action =>
              exact C.bind (C.insideList (C.items (h.action hpq) 0 xs)) fun _ => C.pure _
            | _ => exact C.fail _
          | _ => exact C.fail _
        | _ => exact C.fail _
      · exact C.fail _
    | _ => exact C.fail _
  | action =>
    rcases hv with hv | ⟨x, y, _, _, rfl, rfl, hfamily⟩
    · cases hv with
      | record variant _ =>
        cases variant with
        | none => exact C.fail _
        | some x =>
          cases x with
          | action kind => exact h.action hpq data
          | _ => exact C.fail _
      | _ => exact C.fail _
    · -- members of one family are all actions, or none is
      cases x with
      | action kind =>
        cases y with
        | action kind' => exact h.action hpq data
        | _ => cases hfamily
      | sandbox _ =>
        cases y with
        | action kind' => cases hfamily
        | _ => exact C.fail _
      | environment _ =>
        cases y with
        | action kind' => cases hfamily
        | _ => exact C.fail _

/-- Making an action has no target. -/
theorem action (h : C.Below d d') (hpq : C.Near p q) (entry : Data) :
    C.Whole (Binding.action d p entry) (Binding.action d' q entry) :=
  C.bind (C.lift _) fun _ => C.bind (h.assign hpq _ (.refl _)) fun _ => C.pure _

/-- What two runs may call is related where what they may call one level further down is. -/
theorem step (h : C.Below d d') : C.Below (Deeper.step context d) (Deeper.step context d') where
  assign hpq data _ _ hv := assign h hpq data hv
  fill hpq f data _ _ hv := fill h hpq f data hv
  action hpq entry := action h hpq entry

/-- What two runs of one depth may call is related. -/
theorem level (n : Nat) : C.Below (Deeper.level context n) (Deeper.level context n) := by
  induction n with
  | zero =>
    exact ⟨fun _ _ _ _ _ => C.fail _, fun _ _ _ _ _ _ => C.fail _, fun _ _ => C.fail _⟩
  | succ n ih => exact step ih

end Walk.Congruence

end Testbed
