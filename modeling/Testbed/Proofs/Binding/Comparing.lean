import Testbed.Proofs.Binding.Faults
import Testbed.Proofs.Binding.Places

/-!
# Comparing walks at places

What binding does in one context is compared with what it does in another one, which differs in
whether unknown keys are refused, at each place that it comes to. A `Comparison` says how: it is a
relation between walks with a rule for each step that walks are made of, and for each step from a
place to the next. Then the functions of binding compare so at every place, however deep they may go
(`Comparison.level`), and so do records that are bound from the outside (`Comparison.record`).
-/

namespace Testbed

open Binding Walk Value

/-- The context in which unknown keys are refused, or are not. -/
def Context.withStrict (context : Context) (strict : Bool) : Context :=
  { context with strict }

/-- Whether a value is bound as a shape says: it is put together so, or it is a member of a family
    with the fields of a record. -/
inductive Value.BoundAs : Value → Shape → Prop
  | built {v : Value} {s : Shape} (h : v.Built s) : BoundAs v s
  | member {variant : Variant} {slots : Slots} (h : SlotsBuilt slots variant.fields) :
      BoundAs (.record (some variant) slots) (.record variant.fields)

/-- What is bound as a record is one, of any variant. -/
theorem Value.BoundAs.exists_record {fs : Fields} {v : Value} (h : v.BoundAs (.record fs)) :
    ∃ variant slots, v = .record variant slots ∧ SlotsBuilt slots fs := by
  cases h with
  | built h =>
    cases h with
    | record hslots => exact ⟨_, _, rfl, hslots⟩
  | member hslots => exact ⟨_, _, rfl, hslots⟩

namespace Binding

variable {d : Directives} {target : Value} {s : Shape}

/-- What a field is bound from goes by its shape alone. -/
theorem taken_eq_spelled {x : Data} (hv : Built target s) (hbare : ¬ IsBare d target x) :
    taken d target x = d.spelled s x := by
  unfold taken Directives.spelled
  cases hsub : d.string? with
  | none => rfl
  | some sub =>
    cases hv with
    | record _ | member _ =>
      cases x with
      | text raw => exact absurd ⟨sub, raw, _, _, hsub, rfl, rfl⟩ hbare
      | _ => rfl
    | map _ _ => cases x <;> rfl
    | _ => cases x <;> rfl

theorem eq_text_of_taken {x : Data} {raw : String} (h : taken d target x = .text raw) :
    x = .text raw := by
  unfold taken at h
  split at h
  · split at h <;> cases h
  · exact h

/-- A factory that does not fit what it is to fill refuses to. -/
theorem exists_fill_eq_fail {f : Factory} (hv : Built target s) (hs : s ≠ f.shape) (path : Path)
    (data : Data) (n : Nat) :
    ∃ cause, ∀ context, (Deeper.level context n).fill f path data target = fail cause := by
  -- families first: data of the right kind goes on to the target, which is no map of the family
  have hbyName {family : Family} (hs : s ≠ .map (.oneOf family)) (f : Factory)
      (member : Platform → Variant) (unknown : String → Cause) :
      ∃ cause, ∀ deeper : Deeper,
        byName deeper f family member unknown path data target = fail cause := by
    cases data with
    | map es =>
      refine ⟨.factoryTarget f.name, fun deeper => ?_⟩
      unfold byName
      simp only
      split
      · split
        · next hfamily =>
          subst hfamily
          cases hv
          exact absurd rfl hs
        · rfl
      · rfl
    | _ => exact ⟨_, fun _ => rfl⟩
  cases n with
  | zero => exact ⟨_, fun _ => rfl⟩
  | succ n =>
    -- below a level the calls are those of the context, and the failure comes before any of them
    suffices h : ∃ cause, ∀ deeper : Deeper, fill deeper f path data target = fail cause from
      h.imp fun _ h context => h (Deeper.level context n)
    cases f with
    | actions =>
      cases data with
      | list xs =>
        refine ⟨.factoryTarget Factory.actions.name, fun deeper => ?_⟩
        unfold fill
        simp only
        split
        · cases hv
          exact absurd rfl hs
        · rfl
      | _ => exact ⟨_, fun _ => rfl⟩
    | action =>
      refine ⟨.factoryTarget Factory.action.name, fun deeper => ?_⟩
      unfold fill
      simp only
      split
      · cases hv
        exact absurd rfl hs
      · rfl
    | sandboxes => exact hbyName hs _ _ _
    | environments => exact hbyName hs _ _ _

end Binding

/-! ## §1 Comparisons -/

/-- A way to compare walks at places: `Compares` is a relation between the walks of a place, and
    `Names` one between walks whose errors name the document that they are in. A cause may stop
    walks anywhere, but no cause that blames the declarations stops them where tags are sound. -/
structure Place.Comparison (context : Context) (strict : Bool) : Type 1 where
  Compares : {α : Type} → Place → Walk α → Walk α → Prop
  Names : {α : Type} → Place → Walk α → Walk α → Prop
  of_names : ∀ {α : Type} {p : Place} {w w' : Walk α}, Names p w w' → Compares p w w'
  -- the steps of walks
  of_pure : ∀ {α : Type} {p : Place} (x : α), Names p (pure x) (pure x)
  of_modify : ∀ {p : Place} (move : Location → Location),
    Names p (modify move : Walk Unit) (modify move)
  of_fail : ∀ {α : Type} {p : Place} {cause : Cause}, (p.IsSound → cause.blamesSchema = false) →
    Compares p (fail cause : Walk α) (fail cause)
  located : ∀ {α : Type} {p : Place} {w w' : Walk α}, Compares p w w' →
    Names p (w.located p.document.path) (w'.located p.document.path)
  bind : ∀ {α β : Type} {p : Place} {w w' : Walk α} {f f' : α → Walk β}, Compares p w w' →
    (∀ x l m, w l = .ok x m → Compares p (f x) (f' x)) → Compares p (w >>= f) (w' >>= f')
  bind_names : ∀ {α β : Type} {p : Place} {w w' : Walk α} {f f' : α → Walk β}, Names p w w' →
    (∀ x l m, w l = .ok x m → Names p (f x) (f' x)) → Names p (w >>= f) (w' >>= f')
  -- the check of a record's keys, and the steps to other places
  checked : ∀ {document : Document} {fs : Fields} {es : List (String × Data)} {slots : Slots}
    {d d' : Deeper}, Value.SlotsBuilt slots fs →
    Names ⟨document, .value (.record fs), .map es⟩ (fields context d document.path es slots)
      (fields (context.withStrict strict) d' document.path es slots) →
    Names ⟨document, .value (.record fs), .map es⟩ (recordInside context d document.path es slots)
      (recordInside (context.withStrict strict) d' document.path es slots)
  enters : ∀ {α : Type} {p q : Place} {w w' : Walk α}, Compares q w w' →
    Enters context.files p q → q.document = p.document → Compares p w w'
  loads : ∀ {p : Place} {d : Document} {e : Shape} {v : Value} {n : Nat},
    p.Loads context.files d e → v.Built e →
    Compares ⟨d, .value e, d.data⟩ ((Deeper.level context n).assign d.path d.data v)
      ((Deeper.level (context.withStrict strict) n).assign d.path d.data v) →
    Names p (((Deeper.level context n).assign d.path d.data v).located d.path)
      (((Deeper.level (context.withStrict strict) n).assign d.path d.data v).located d.path)

namespace Place.Comparison

variable {context : Context} {strict : Bool} (C : Comparison context strict) {α β : Type}
  {p : Place} {w w' : Walk α}

theorem gives (x : α) : C.Compares p (pure x : Walk α) (pure x) :=
  C.of_names (C.of_pure x)

theorem moves (move : Location → Location) :
    C.Compares p (modify move : Walk Unit) (modify move) :=
  C.of_names (C.of_modify move)

/-- What walks lift may stop them, but no cause that blames the declarations where tags are
    sound. -/
theorem lifts {x : Except Cause α} (h : p.IsSound → Blameless x) :
    C.Compares p (lift x) (lift x) := by
  cases x with
  | ok x => exact C.gives x
  | error cause => exact C.of_fail fun hp => h hp cause rfl

variable {C}

theorem andThen {f f' : α → Walk β} (hw : C.Compares p w w')
    (hf : ∀ x, C.Compares p (f x) (f' x)) : C.Compares p (w >>= f) (w' >>= f') :=
  C.bind hw fun x _ _ _ => hf x

/-- Walks inside of a frame compare where they do without it. -/
theorem inside_of {enter : Location → Location} (h : C.Compares p w w') :
    C.Compares p
      (do modify enter; let x ← w; modify Location.close; pure x)
      (do modify enter; let x ← w'; modify Location.close; pure x) :=
  andThen (C.moves _) fun _ => andThen h fun x => andThen (C.moves _) fun _ => C.gives x

theorem insideMap (h : C.Compares p w w') : C.Compares p w.insideMap w'.insideMap :=
  inside_of h

theorem insideList (h : C.Compares p w w') : C.Compares p w.insideList w'.insideList :=
  inside_of h

/-! ## §2 Items and entries -/

theorem items_compares {make make' : α → Walk Value} {xs : List α}
    (h : ∀ x ∈ xs, C.Compares p (make x) (make' x)) (index : Nat) :
    C.Compares p (items make index xs) (items make' index xs) := by
  induction xs generalizing index with
  | nil => exact C.gives _
  | cons x rest ih =>
    obtain ⟨hx, hrest⟩ := List.forall_mem_cons.mp h
    exact andThen (C.moves _) fun _ => andThen hx fun v => andThen (ih hrest _) fun vs => C.gives _

/-- Entries are compared one by one. Each is bound into what an earlier one with its key has left,
    which is built by the same shape. -/
theorem entries_compares {fill fill' : α → Value → Walk Value} {e : Shape} {xs : List (String × α)}
    (hbuilds : ∀ x v, Built v e → Ensures (Built · e) (fill x v))
    (h : ∀ x ∈ xs, ∀ v, Built v e → C.Compares p (fill x.2 v) (fill' x.2 v))
    {filled : List (String × Value)} (hfilled : EachEntry (fun _ v => Built v e) filled) :
    C.Compares p (entries e fill xs filled) (entries e fill' xs filled) := by
  induction xs generalizing filled with
  | nil => exact C.gives _
  | cons x rest ih =>
    obtain ⟨hx, hrest⟩ := List.forall_mem_cons.mp h
    -- a key that comes again finds what was filled before
    have hold : Built ((Keyed.get? x.1 filled).getD e.zero) e := by
      cases hget : Keyed.get? x.1 filled with
      | none => exact built_zero e
      | some v => exact hfilled.each x.1 v (Keyed.mem_of_get?_eq_some hget)
    refine andThen (C.moves _) fun _ => C.bind (hx _ hold) fun v l m hv => ?_
    exact ih hrest (hfilled.insert (hbuilds _ _ hold l v m hv))

theorem members_compares {member? : String → Option Value} {unknown : String → Cause}
    {fill fill' : Data → Value → Walk Value} {es : List (String × Data)}
    (hunknown : ∀ key, (unknown key).blamesSchema = false)
    (h : ∀ x ∈ es, ∀ zero, member? x.1 = some zero →
      C.Compares p (fill x.2 zero) (fill' x.2 zero))
    (filled : List (String × Value)) :
    C.Compares p (members member? unknown fill es filled)
      (members member? unknown fill' es filled) := by
  induction es generalizing filled with
  | nil => exact C.gives _
  | cons x rest ih =>
    obtain ⟨hx, hrest⟩ := List.forall_mem_cons.mp h
    obtain ⟨key, x⟩ := x
    refine andThen (C.moves _) fun _ => ?_
    cases hmember : member? key with
    | none => exact C.of_fail fun _ => hunknown key
    | some zero => exact andThen (hx zero hmember) fun v => ih hrest _

/-! ## §3 The functions of binding -/

/-- Whether what a walk may call with so many levels left compares at every place. -/
structure Level (C : Comparison context strict) (n : Nat) : Prop where
  assign : ∀ (document : Document) (data : Data) {target : Value} {s : Shape}, target.BoundAs s →
    C.Compares ⟨document, .value s, data⟩
      ((Deeper.level context n).assign document.path data target)
      ((Deeper.level (context.withStrict strict) n).assign document.path data target)
  fill : ∀ (document : Document) (f : Factory) (data : Data) {target : Value},
    target.Built f.shape → C.Compares ⟨document, .filled f, data⟩
      ((Deeper.level context n).fill f document.path data target)
      ((Deeper.level (context.withStrict strict) n).fill f document.path data target)
  action : ∀ (document : Document) (entry : Data),
    C.Compares ⟨document, .entry, entry⟩
      ((Deeper.level context n).action document.path entry)
      ((Deeper.level (context.withStrict strict) n).action document.path entry)

variable {n : Nat} {document : Document} {d : Directives} {target : Value} {s : Shape}
  {slots : Slots} {fs : Fields} {es : List (String × Data)}

/-- Documents that are loaded are compared each at its own place. -/
theorem loaded_compares (h : C.Level n) (hfactory : d.factory? = none) (hload : d.isLoadable = true)
    (pattern : String) (hv : Built target s) :
    C.Compares ⟨document, .field d s, .text pattern⟩
      (loaded context (Deeper.level context n) document.path pattern target)
      (loaded (context.withStrict strict) (Deeper.level (context.withStrict strict) n)
        document.path pattern target) := by
  refine C.bind (C.lifts fun _ => Document.loadMatching_blameless _ _ _)
    fun documents l m hdocuments => ?_
  have hmatching : Document.loadMatching context.files document.path.directory pattern =
      .ok documents := Ensures.lift_ok _ l documents m hdocuments
  have hdocument {e : Shape} (he : s = .list e ∨ s = .map e) {d' : Document} (hd' : d' ∈ documents)
      {v : Value} (hv : Built v e) :
      C.Compares ⟨document, .field d s, .text pattern⟩
        (((Deeper.level context n).assign d'.path d'.data v).located d'.path)
        (((Deeper.level (context.withStrict strict) n).assign d'.path d'.data v).located
          d'.path) :=
    C.of_names (C.loads ⟨hfactory, hload, he, hmatching, hd'⟩ hv
      (h.assign d' d'.data (.built hv)))
  cases hv with
  | list _ =>
    refine andThen (insideList (items_compares (fun d' hd' => ?_) _)) fun _ => C.gives _
    exact hdocument (.inl rfl) hd' (built_zero _)
  | map _ _ =>
    refine andThen (insideMap (entries_compares ?_ ?_ eachEntry_nil)) fun _ => C.gives _
    · exact fun d' v hv => .located _ (Deeper.level_builds n _ _ hv)
    · intro x hx v hv
      obtain ⟨d', hd', rfl⟩ := List.mem_map.mp hx
      exact hdocument (.inr rfl) hd' hv
  | _ =>
    -- nothing else is loaded
    refine C.of_fail fun hp => ?_
    obtain ⟨⟨e, he | he⟩, -⟩ := (hp.of_factory_none hfactory).2.loadable hload <;> cases he

/-- Binding by the shape of a field's value is compared behind the checks of the tag. -/
theorem value_compares (h : C.Level n) (hfactory : d.factory? = none) {x : Data}
    (hx : ∀ raw, d.spelled s x = .text raw → x = .text raw) (hv : Built target s) :
    C.Compares ⟨document, .field d s, x⟩
      (value context (Deeper.level context n) document.path d (d.spelled s x) target)
      (value (context.withStrict strict) (Deeper.level (context.withStrict strict) n)
        document.path d (d.spelled s x) target) := by
  have hassign := C.enters (h.assign document (d.spelled s x) (.built hv)) (.plain hfactory) rfl
  have hplain : C.Compares ⟨document, .field d s, x⟩
      (do
        Walk.lift (checkValue d (d.spelled s x))
        if d.isPath then
          Walk.lift (existingPath context document.path (d.spelled s x) target)
        else (Deeper.level context n).assign document.path (d.spelled s x) target)
      (do
        Walk.lift (checkValue d (d.spelled s x))
        if d.isPath then
          Walk.lift (existingPath context document.path (d.spelled s x) target)
        else
          (Deeper.level (context.withStrict strict) n).assign document.path (d.spelled s x)
            target) := by
    refine andThen (C.lifts fun _ => checkValue_blameless _ _) fun _ => ?_
    split
    · exact C.lifts fun _ => existingPath_blameless _ _
    · exact hassign
  -- only a text can stand for documents to load
  unfold value
  generalize hy : d.spelled s x = y at hplain
  cases y with
  | text pattern =>
    obtain rfl := hx pattern hy
    simp only
    split
    · next hload => exact loaded_compares h hfactory hload pattern hv
    · exact hplain
  | _ => exact hplain

/-- A slot is compared as its field is; where the document does not set it, both walks take the
    default. -/
theorem slot_compares {f : Field} (hv : Built target s) (hf : (f, s) ∈ fs)
    (hd : directives f = .ok d)
    (hfield : ∀ x, C.Compares ⟨document, .field d s, x⟩
      (field context (Deeper.level context n) document.path d x target)
      (field (context.withStrict strict) (Deeper.level (context.withStrict strict) n)
        document.path d x target)) :
    C.Compares ⟨document, .value (.record fs), .map es⟩
      (slot context (Deeper.level context n) document.path es f d target)
      (slot (context.withStrict strict) (Deeper.level (context.withStrict strict) n)
        document.path es f d target) := by
  have habsent (hp : soundFields fs = true) : Blameless (fields.absentField d target) :=
    absentField_blameless hv (directed_of_mem hp hf hd)
  cases hv with
  | absent => exact C.of_fail fun hp => absurd rfl (directed_of_mem hp hf hd).ne_absent
  | _ =>
    simp only [slot]
    split
    · next x hx => exact C.enters (hfield x) (.slot hf hd hx) rfl
    · exact C.lifts habsent

mutual
/-- Binding a field is compared by what its tag asks for: a factory, documents to load, or the
    value. -/
theorem field_compares (hfactories : context.factories = .standard) (h : C.Level n)
    (document : Document) (d : Directives) (x : Data) :
    (target : Value) → {s : Shape} → Built target s →
      C.Compares ⟨document, .field d s, x⟩
        (field context (Deeper.level context n) document.path d x target)
        (field (context.withStrict strict) (Deeper.level (context.withStrict strict) n)
          document.path d x target)
  | target, s, hv => by
    cases hfactory : d.factory? with
    | some name =>
      cases hget : Factories.standard.get? name with
      | none =>
        rw [field_unknownFactory hfactory (hfactories ▸ hget),
          field_unknownFactory hfactory (hfactories ▸ hget)]
        -- a declared factory that does not exist is the declarations' fault
        refine C.of_fail fun hp => ?_
        obtain ⟨f, hf, -⟩ := hp.of_factory_some hfactory
        cases hf.symm.trans hget
      | some f =>
        rw [field_factory hfactory (hfactories ▸ hget), field_factory hfactory (hfactories ▸ hget)]
        by_cases hs : s = f.shape
        · subst hs
          exact C.enters (h.fill document f x hv) (.fill hfactory hget) rfl
        · -- and so is one that makes values of another shape
          obtain ⟨cause, hcause⟩ := exists_fill_eq_fail hv hs document.path x n
          rw [hcause, hcause]
          refine C.of_fail fun hp => ?_
          obtain ⟨f', hf', hshape⟩ := hp.of_factory_some hfactory
          obtain rfl := Option.some.inj (hf'.symm.trans hget)
          exact absurd hshape hs
    | none =>
      by_cases hbare : IsBare d target x
      · obtain ⟨sub, raw, variant, slots, hsub, rfl, rfl⟩ := hbare
        rw [field_bare hfactory hsub, field_bare hfactory hsub]
        -- the text stands for a record with one field, which the checks of the tag do not see
        have hspelled : Enters context.files ⟨document, .field d s, .text raw⟩
            ⟨document, .value s, d.spelled s (.text raw)⟩ := .plain hfactory
        cases hv with
        | record hslots =>
          simp only [Directives.spelled, hsub] at hspelled
          have hfields := fields_compares hfactories h document [(sub, .text raw)] slots hslots
            fun _ _ hf => hf
          have hrecord := C.enters (C.of_names (C.checked hslots hfields)) hspelled rfl
          exact andThen hrecord fun _ => C.gives _
        | member hslots =>
          simp only [Directives.spelled, hsub] at hspelled
          have hfields := fields_compares hfactories h document [(sub, .text raw)] slots hslots
            fun _ _ hf => hf
          have hrecord := C.enters (C.enters (C.of_names (C.checked hslots hfields)) .chosen rfl)
            hspelled rfl
          exact andThen hrecord fun _ => C.gives _
      · rw [field_value hfactory hbare, field_value hfactory hbare, taken_eq_spelled hv hbare]
        refine value_compares h hfactory (fun raw hraw => ?_) hv
        exact eq_text_of_taken ((taken_eq_spelled hv hbare).trans hraw)
/-- The fields of a record are compared one by one, each among the names of the whole record. -/
theorem fields_compares (hfactories : context.factories = .standard) (h : C.Level n)
    (document : Document) (es : List (String × Data)) :
    (slots : Slots) → {fs all : Fields} → SlotsBuilt slots fs →
      (∀ f s, (f, s) ∈ fs → (f, s) ∈ all) →
        C.Names ⟨document, .value (.record all), .map es⟩
          (fields context (Deeper.level context n) document.path es slots)
          (fields (context.withStrict strict) (Deeper.level (context.withStrict strict) n)
            document.path es slots)
  | [], _, _, _, _ => by
    rw [fields, fields]
    exact C.of_pure _
  | (f, target) :: rest, _, all, .cons (s := s) hv hslots, hall => by
    have hmem : (f, s) ∈ all := hall f s List.mem_cons_self
    have hread (hp : soundFields all = true) : Blameless (directives f) := by
      rw [soundFields_eq_all, List.all_eq_true] at hp
      obtain ⟨d, hd, -⟩ := directed_of_soundField (hp _ hmem)
      exact hd ▸ blameless_ok d
    have hothers := fields_compares hfactories h document es rest hslots fun f s hf =>
      hall f s (List.mem_cons_of_mem _ hf)
    rw [fields_cons, fields_cons]
    refine C.bind_names (C.located (C.lifts hread)) fun d l m hd => ?_
    have hd : directives f = .ok d := (Ensures.lift_ok _).located _ l d m hd
    have hslot : C.Compares ⟨document, .value (.record all), .map es⟩
        (slot context (Deeper.level context n) document.path es f d target)
        (slot (context.withStrict strict) (Deeper.level (context.withStrict strict) n)
          document.path es f d target) :=
      slot_compares hv hmem hd fun x => field_compares hfactories h document d x target hv
    refine C.bind_names (C.of_modify _) fun _ _ _ _ => ?_
    refine C.bind_names (C.located hslot) fun bound _ _ _ => ?_
    exact C.bind_names hothers fun filled _ _ _ => C.of_pure _
end

section

variable (hfactories : context.factories = .standard)

include hfactories

/-- The inside of a record is compared after the check of its keys, which only one of the contexts
    may make. -/
theorem recordInside_compares (h : C.Level n) (document : Document) (es : List (String × Data))
    (hslots : SlotsBuilt slots fs) :
    C.Names ⟨document, .value (.record fs), .map es⟩
      (recordInside context (Deeper.level context n) document.path es slots)
      (recordInside (context.withStrict strict) (Deeper.level (context.withStrict strict) n)
        document.path es slots) :=
  C.checked hslots (fields_compares hfactories h document es slots hslots fun _ _ hf => hf)

theorem assign_record_compares (h : C.Level n) (document : Document) (es : List (String × Data))
    (hslots : SlotsBuilt slots fs) (variant : Option Variant) :
    C.Compares ⟨document, .value (.record fs), .map es⟩
      (do
        let filled ← recordInside context (Deeper.level context n) document.path es slots
        pure (Value.record variant filled))
      (do
        let filled ← recordInside (context.withStrict strict)
          (Deeper.level (context.withStrict strict) n) document.path es slots
        pure (Value.record variant filled)) :=
  andThen (C.of_names (recordInside_compares hfactories h document es hslots)) fun _ => C.gives _

theorem assign_compares (h : C.Level n) (document : Document) (data : Data)
    (hv : target.BoundAs s) :
    C.Compares ⟨document, .value s, data⟩
      (assign context (Deeper.level context n) document.path data target)
      (assign (context.withStrict strict) (Deeper.level (context.withStrict strict) n)
        document.path data target) := by
  unfold assign
  split
  · -- null is put anywhere, and looks at no keys
    exact C.gives _
  · split
    -- a record is bound from a map, whether it is a member of a family or not
    · split
      · cases hv with
        | built hv =>
          cases hv with
          | record hslots => exact assign_record_compares hfactories h document _ hslots _
          | member hslots =>
            exact C.enters (assign_record_compares hfactories h document _ hslots _) .chosen rfl
        | member hslots => exact assign_record_compares hfactories h document _ hslots _
      · exact C.of_fail fun _ => rfl
    -- a map from a map
    · split
      · cases hv with
        | built hv =>
          cases hv with
          | map _ _ =>
            refine andThen (insideMap (entries_compares ?_ ?_ eachEntry_nil)) fun _ => C.gives _
            · exact fun x v hv => Deeper.level_builds n _ _ hv
            · exact fun x hx v hv => C.enters (h.assign document x.2 (.built hv)) (.entry hx) rfl
      · exact C.of_fail fun _ => rfl
    -- a list from a list
    · split
      · cases hv with
        | built hv =>
          cases hv with
          | list _ =>
            refine andThen (insideList (items_compares (fun x hx => ?_) _)) fun _ => C.gives _
            exact C.enters (h.assign document x (.built (built_zero _))) (.item hx) rfl
      · exact C.of_fail fun _ => rfl
    -- and anything else from a scalar
    · exact C.lifts fun _ => scalar_blameless _ _

end

/-- Members of a family are compared by the names that they stand under. -/
theorem byName_compares (h : C.Level n) (document : Document) {f : Factory} {family : Family}
    {member : Platform → Variant} (hf : f.byName? = some (family, member))
    {unknown : String → Cause} (hunknown : ∀ key, (unknown key).blamesSchema = false) (data : Data)
    (hv : Built target (.map (.oneOf family))) :
    C.Compares ⟨document, .filled f, data⟩
      (byName (Deeper.level context n) f family member unknown document.path data target)
      (byName (Deeper.level (context.withStrict strict) n) f family member unknown document.path
        data target) := by
  unfold byName
  split
  · next es =>
    cases hv
    simp only [if_true]
    refine andThen (insideMap (members_compares hunknown ?_ _)) fun _ => C.gives _
    intro x hx zero hzero
    obtain ⟨p, hp, rfl⟩ := Option.map_eq_some_iff.mp hzero
    have hmember : (member p).zero.BoundAs (.record (member p).fields) :=
      .member (slotsHave_zero _).built
    exact C.enters (h.assign document x.2 hmember) (.member hf hx hp) rfl
  · exact C.of_fail fun _ => rfl

theorem fill_compares (h : C.Level n) (document : Document) (f : Factory) (data : Data)
    (hv : Built target f.shape) :
    C.Compares ⟨document, .filled f, data⟩
      (fill (Deeper.level context n) f document.path data target)
      (fill (Deeper.level (context.withStrict strict) n) f document.path data target) := by
  cases f with
  | actions =>
    cases hv
    cases data with
    | list xs =>
      refine andThen (insideList (items_compares (fun x hx => ?_) _)) fun _ => C.gives _
      exact C.enters (h.action document x) (.actions hx) rfl
    | _ => exact C.of_fail fun _ => rfl
  | action =>
    obtain ⟨variant, slots, rfl, hfamily, -⟩ := hv.exists_member
    cases variant with
    | action k => exact C.enters (h.action document data) .action rfl
    | _ => cases hfamily
  | sandboxes => exact byName_compares h document rfl (fun _ => rfl) data hv
  | environments => exact byName_compares h document rfl (fun _ => rfl) data hv

/-- Making an action is compared: the entry is read alike, and then its payload is bound. -/
theorem action_compares (h : C.Level n) (document : Document) (entry : Data) :
    C.Compares ⟨document, .entry, entry⟩
      (action (Deeper.level context n) document.path entry)
      (action (Deeper.level (context.withStrict strict) n) document.path entry) := by
  refine C.bind (C.lifts fun _ => Entry.read_blameless entry) fun plan l m hplan => ?_
  have hread : Entry.read entry = .ok plan := Ensures.lift_ok _ l plan m hplan
  have hmember : (Variant.action plan.kind).zero.BoundAs
      (.record (Variant.action plan.kind).fields) := .member (slotsHave_zero _).built
  have hpayload := C.enters (h.assign document (.map plan.payload) hmember) (.payload hread) rfl
  exact andThen hpayload fun _ => C.gives _

/-! ## §4 Levels -/

variable (C)

/-- The functions of binding compare at every place, however deep they may go. -/
theorem level (hfactories : context.factories = .standard) (n : Nat) : C.Level n := by
  induction n with
  | zero =>
    exact ⟨fun _ _ _ _ _ => C.of_fail fun _ => rfl, fun _ _ _ _ _ => C.of_fail fun _ => rfl,
      fun _ _ => C.of_fail fun _ => rfl⟩
  | succ n ih =>
    exact ⟨fun document data _ _ hv => assign_compares hfactories ih document data hv,
      fun document f data _ hv => fill_compares ih document f data hv,
      fun document entry => action_compares ih document entry⟩

/-- A record that is bound from the outside compares, and its errors name their documents. -/
theorem record (hfactories : context.factories = .standard) (document : Document)
    (es : List (String × Data)) (hslots : SlotsBuilt slots fs) (n : Nat) :
    C.Names ⟨document, .value (.record fs), .map es⟩
      (recordInside context (Deeper.level context n) document.path es slots)
      (recordInside (context.withStrict strict) (Deeper.level (context.withStrict strict) n)
        document.path es slots) :=
  recordInside_compares hfactories (C.level hfactories n) document es hslots

end Place.Comparison

end Testbed
