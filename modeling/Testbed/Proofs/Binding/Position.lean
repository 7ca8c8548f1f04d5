import Testbed.Proofs.Binding.Inside
import Testbed.Proofs.Binding.Payload
import Testbed.Proofs.Binding.Surroundings
import Testbed.Proofs.Value.Serialized

/-!
# Positions

What a walk is about to do with the data that it has come to is a `Position`: bind it by the shape
of a value, bind it as a field, make an action from it, or read it as the payload of an action's
key. `Enters` are the steps that a walk takes from the data at one position to data inside, and the
position that it comes to there.

Each step leaves a function from what the inside comes to, to what the outside comes to, and the
function is the same whatever stands inside (`Enters.fills`). Between positions that have a value,
such a function puts what the inside comes to into the outside where the step leads.
-/

namespace Testbed

/-! ## §1 Positions -/

/-- The family that a factory fills a map with by the names of platforms, and its members. -/
def Factory.byName? : Factory → Option (Family × (Platform → Variant))
  | .sandboxes => some (.sandbox, .sandbox)
  | .environments => some (.environment, .environment)
  | _ => none

/-- What a walk is about to do with some data: bind it by the shape of a value, bind it as a field
    with directives, make an action from it, or make one from it as the payload of a key. -/
inductive Position where
  | value (target : Value)
  | field (directives : Directives) (target : Value)
  | entry
  | payload (key : String)

namespace Position

/-- What data at a position comes to, with so many levels left. -/
def outcome (context : Context) (document : Path) (n : Nat) : Position → Data → Except Cause Value
  | value target, x => ((Deeper.level context n).assign document x target).outcome
  | field d target, x =>
    (Binding.field context (Deeper.level context n) document d x target).outcome
  | entry, x => ((Deeper.level context n).action document x).outcome
  | payload key, x => ((Deeper.level context n).action document (.map [(key, x)])).outcome

/-- A value is bound by its shape, with one level less for what is inside. -/
theorem value_outcome_succ (context : Context) (document : Path) (n : Nat) (target : Value)
    (x : Data) : outcome context document (n + 1) (value target) x =
      (Binding.assign context (Deeper.level context n) document x target).outcome :=
  rfl

/-- The value that is bound at a position. -/
def target? : Position → Option Value
  | value target => some target
  | field _ target => some target
  | _ => none

/-- Whether data stands for itself at a position: null counts as absent, and where a record is bound
    a bare text may stand for one. -/
def Takes (s : Position) (x : Data) : Prop :=
  x ≠ .null ∧
    ((∃ variant slots, s = value (.record variant slots)) → ∀ text, x ≠ .text text)

/-- Whether the value that is bound at a position is of a shape that keeps to the rules. -/
def IsTidy (s : Position) : Prop :=
  ∀ target, s.target? = some target → ∃ e : Shape, e.isTidy = true ∧ Value.HasShape target e

/-- The steps that a walk takes from data at a position to data inside, and where it comes to. -/
inductive Enters (context : Context) : Position → Data → Step → Position → Prop
  | slot {variant : Option Variant} {slots : Slots} {f : Field} {target : Value} {d : Directives}
      {es : List (String × Data)} (hslot : (f, target) ∈ slots)
      (hd : Binding.directives f = .ok d) :
      Enters context (value (.record variant slots)) (.map es) (.key (Binding.documentName f d))
        (field d target)
  | entry {e : Shape} {old : List (String × Value)} {es : List (String × Data)} {key : String} :
      Enters context (value (.map e old)) (.map es) (.key key) (value e.zero)
  | item {e : Shape} {old : List Value} {xs : List Data} {i : Nat} :
      Enters context (value (.list e old)) (.list xs) (.index i) (value e.zero)
  | plain {d : Directives} {target : Value} {x : Data} {t : Step} {s : Position}
      (hd : d.factory? = none)
      (h : Enters context (value target) (Binding.taken d target x) t s) :
      Enters context (field d target) x t s
  | member {d : Directives} {name : String} {f : Factory} {family : Family}
      {member : Platform → Variant} {old : List (String × Value)} {es : List (String × Data)}
      {key : String} {p : Platform} (hd : d.factory? = some name)
      (hf : context.factories.get? name = some f) (hmember : f.byName? = some (family, member))
      (hp : Platform.ofName? key = some p) :
      Enters context (field d (.map (.oneOf family) old)) (.map es) (.key key)
        (value (member p).zero)
  -- into actions, their keys and their payloads
  | action {d : Directives} {name : String} {old : List Value} {xs : List Data} {i : Nat}
      (hd : d.factory? = some name) (hf : context.factories.get? name = some .actions) :
      Enters context (field d (.list (.oneOf .action) old)) (.list xs) (.index i) Position.entry
  | single {d : Directives} {name : String} {k : ActionKind} {slots : Slots} {x : Data} {t : Step}
      {s : Position} (hd : d.factory? = some name)
      (hf : context.factories.get? name = some .action) (h : Enters context Position.entry x t s) :
      Enters context (field d (.record (some (.action k)) slots)) x t s
  | key {key : String} {x : Data} :
      Enters context Position.entry (.map [(key, x)]) (.key key) (payload key)
  | payload {key : String} {es : List (String × Data)} {plan : Plan} {t : Step} {s : Position}
      (hplan : Entry.readKeyed key (.map es) = .ok plan)
      (h : Enters context (value (Variant.action plan.kind).zero) (.map es) t s) :
      Enters context (payload key) (.map es) t s
  | group {key : String} {xs : List Data} {plan : Plan} {t : Step} {s s' : Position}
      (hplan : Entry.readKeyed key (.list xs) = .ok plan)
      (h : Enters context (value (Variant.action plan.kind).zero) (.map [("actions", .list xs)])
        (.key "actions") s)
      (h' : Enters context s (.list xs) t s') :
      Enters context (payload key) (.list xs) t s'

variable {context : Context} {document : Path} {s s' : Position} {x : Data} {t : Step}

/-- Where a shape is tidy, so is the position at which its value is bound. -/
theorem isTidy_zero {e : Shape} (he : e.isTidy = true) : (value e.zero).IsTidy := by
  rintro target ⟨rfl⟩
  exact ⟨e, he, Value.hasShape_zero e⟩

theorem isTidy_variant (v : Variant) : (value v.zero).IsTidy := by
  rintro target ⟨rfl⟩
  exact ⟨.oneOf v.family, rfl, .member (Value.slotsHave_zero v.fields)⟩

/-- Steps keep to tidy positions. -/
theorem Enters.isTidy (h : Enters context s x t s') (hs : s.IsTidy) : s'.IsTidy := by
  induction h with
  | slot hslot hd =>
    obtain ⟨e, he, hrecord⟩ := hs _ rfl
    obtain ⟨fields, hslots, ht, -⟩ := hrecord.ofRecord he
    rintro target ⟨rfl⟩
    exact (hslots.of_mem ht hslot).2
  | entry =>
    obtain ⟨e, he, hmap⟩ := hs _ rfl
    cases hmap
    exact isTidy_zero (by simpa [Shape.isTidy] using he)
  | item =>
    obtain ⟨e, he, hlist⟩ := hs _ rfl
    cases hlist
    simp only [Shape.isTidy, Bool.and_eq_true] at he
    exact isTidy_zero he.2
  | plain hd h ih => exact ih hs
  | member => exact isTidy_variant _
  | action => simp [IsTidy, target?]
  | single hd hf h ih => exact ih (by simp [IsTidy, target?])
  | key => simp [IsTidy, target?]
  | payload hplan h ih => exact ih (isTidy_variant _)
  | group hplan h h' ih ih' => exact ih' (ih (isTidy_variant _))

/-! ## §2 What a step leaves around -/

/-- Whether what data at a position comes to is a function of what the data comes to that a step
    leads to, whatever stands there. Where both positions have values, the function puts the one
    into the other. -/
def Fills (context : Context) (document : Path) (s : Position) (n : Nat) (x : Data) (t : Step)
    (s' : Position) : Prop :=
  ∃ n' f,
    (∀ y, s'.Takes y →
      s.outcome context document n (Data.setChild t y x) = f (s'.outcome context document n' y)) ∧
    (s.target?.isSome → s'.target?.isSome → Value.Holds t f)

/-- Where everything is too deep, nothing inside makes a difference. -/
theorem fills_of_tooDeep {n : Nat}
    (h : ∀ y, s.outcome context document n y = Walk.tooDeep) :
    Fills context document s n x t s' :=
  ⟨0, fun _ => Walk.tooDeep, fun _ _ => h _, fun _ _ => Value.holds_error t _⟩

/-- A record comes to a function of what each of its slots comes to, which the function puts into
    its slot. -/
theorem slot_fills (hstrict : context.strict = false) {variant : Option Variant} {slots : Slots}
    (hs : (value (.record variant slots)).IsTidy) {f : Field} {target : Value} {d : Directives}
    (hslot : (f, target) ∈ slots) (hd : Binding.directives f = .ok d) (es : List (String × Data))
    (n : Nat) :
    Fills context document (value (.record variant slots)) n (.map es)
      (.key (Binding.documentName f d)) (field d target) := by
  obtain ⟨e, he, hrecord⟩ := hs _ rfl
  obtain ⟨fields, hslots, ht, -⟩ := hrecord.ofRecord he
  obtain ⟨hname, e', he', htarget⟩ := hslots.of_mem ht hslot
  obtain ⟨before, after, rfl, hothers⟩ := hslots.split ht hslot
  have hident : f.ident = Binding.documentName f d := (Binding.documentName_eq hname hd).symm
  cases n with
  | zero => exact fills_of_tooDeep fun _ => rfl
  | succ n =>
    let bind (es : List (String × Data)) (e : Field × Value) : Except Cause (Field × Value) :=
      (e.1, ·) <$> Binding.slotOutcome context (Deeper.level context n) document es e.1 e.2
    refine ⟨n, Value.among (before.mapM (bind es)) (after.mapM (bind es)) (f, ·)
      (.record variant), ?_, ?_⟩
    · intro y hy
      -- no other slot looks under the name of this one
      have hsame (l : Slots) (hl : ∀ e ∈ l, e ∈ before ∨ e ∈ after) :
          l.mapM (bind (Keyed.insert (Binding.documentName f d) y es)) = l.mapM (bind es) := by
        apply mapM_eq_of_forall
        intro e he
        obtain ⟨name, hname, hne⟩ := hothers e (hl e he)
        simp only [bind]
        rw [Binding.slotOutcome_insert_of_ne hname (hident ▸ hne)]
      have hbound : bind (Keyed.insert (Binding.documentName f d) y es) (f, target) =
          (f, ·) <$> (field d target).outcome context document n y := by
        simp only [bind]
        rw [Binding.slotOutcome_present hd (htarget.ne_absent he')
          (Binding.present?_insert hy.1 _ es)]
        rfl
      rw [Data.setChild, value_outcome_succ,
        Binding.assign_record_outcome hstrict (Deeper.level_self _),
        Value.map_mapM_append_cons _ _ _ hbound, hsame before fun _ => .inl,
        hsame after fun _ => .inr]
    · intro _ _
      apply Value.holds_slot (Binding.documentName?_of_directives hd)
      exact fun s hs => hident ▸ hothers s (.inl hs)

/-- A map comes to a function of what each of its entries comes to, which the function puts under
    its key. -/
theorem entry_fills {es : List (String × Data)} (hes : Keyed.Ordered es) {key : String} {x : Data}
    (hx : Keyed.get? key es = some x) (e : Shape) (old : List (String × Value)) (n : Nat) :
    Fills context document (value (.map e old)) n (.map es) (.key key) (value e.zero) := by
  obtain ⟨before, after, rfl, hbefore, hinsert⟩ := hes.split hx
  cases n with
  | zero => exact fills_of_tooDeep fun _ => rfl
  | succ n =>
    let bind (e' : String × Data) : Except Cause (String × Value) :=
      (e'.1, ·) <$> ((Deeper.level context n).assign document e'.2 e.zero).outcome
    refine ⟨n, Value.among (before.mapM bind) (after.mapM bind) (key, ·) (.map e), ?_, ?_⟩
    · intro y _
      have hordered : Keyed.Ordered (before ++ (key, y) :: after) := hinsert y ▸ hes.insert key y
      rw [Data.setChild, hinsert, value_outcome_succ,
        Binding.assign_map_outcome (Deeper.level_self _) hordered]
      exact Value.map_mapM_append_cons bind before after rfl
    · intro _ _
      apply Value.holds_entry
      intro a ha
      rwa [Keyed.keys, names_of_mapM ha]

/-- A list comes to a function of what each of its items comes to, which the function puts at its
    index. -/
theorem item_fills {xs : List Data} {i : Nat} {x : Data} (hx : xs[i]? = some x) (e : Shape)
    (old : List Value) (n : Nat) :
    Fills context document (value (.list e old)) n (.list xs) (.index i) (value e.zero) := by
  obtain ⟨hi, -⟩ := List.getElem?_eq_some_iff.mp hx
  cases n with
  | zero => exact fills_of_tooDeep fun _ => rfl
  | succ n =>
    let bind (x : Data) : Except Cause Value :=
      ((Deeper.level context n).assign document x e.zero).outcome
    refine ⟨n, Value.among ((xs.take i).mapM bind) ((xs.drop (i + 1)).mapM bind) id (.list e),
      ?_, ?_⟩
    · intro y _
      rw [Data.setChild, List.set_eq_take_append_cons_drop, if_pos hi, value_outcome_succ,
        Binding.assign_list_outcome (Deeper.level_self _)]
      exact Value.map_mapM_append_cons bind (xs.take i) (xs.drop (i + 1)) (id_map _).symm
    · intro _ _
      apply Value.holds_item
      intro a ha
      rw [length_of_mapM ha, List.length_take, min_eq_left hi.le]

/-- A field whose tag names a factory comes to what the factory makes. -/
theorem field_outcome_factory {d : Directives} {name : String} {f : Factory}
    (hd : d.factory? = some name) (hf : context.factories.get? name = some f) (target : Value)
    (n : Nat) (x : Data) :
    (field d target).outcome context document n x =
      ((Deeper.level context n).fill f document x target).outcome := by
  rw [← Binding.field_factory hd hf]
  rfl

theorem level_fill (n : Nat) (f : Factory) (x : Data) (target : Value) :
    (Deeper.level context (n + 1)).fill f document x target =
      Binding.fill (Deeper.level context n) f document x target :=
  rfl

/-- A factory for a family makes its members by name. -/
theorem fill_of_byName? {f : Factory} {family : Family} {member : Platform → Variant}
    (h : f.byName? = some (family, member)) :
    ∃ unknown, ∀ deeper document x target,
      Binding.fill deeper f document x target =
        Binding.byName deeper f family member unknown document x target := by
  cases f <;> cases h
  · exact ⟨_, fun _ _ _ _ => rfl⟩
  · exact ⟨_, fun _ _ _ _ => rfl⟩

/-- A family comes to a function of what each of its members comes to, which the function puts under
    the member's name. -/
theorem member_fills {d : Directives} {name : String} {f : Factory} {family : Family}
    {member : Platform → Variant} (hd : d.factory? = some name)
    (hf : context.factories.get? name = some f) (hmember : f.byName? = some (family, member))
    {es : List (String × Data)} (hes : Keyed.Ordered es) {key : String} {x : Data}
    (hx : Keyed.get? key es = some x) {p : Platform} (hp : Platform.ofName? key = some p)
    (old : List (String × Value)) (n : Nat) :
    Fills context document (field d (.map (.oneOf family) old)) n (.map es) (.key key)
      (value (member p).zero) := by
  obtain ⟨unknown, hfill⟩ := fill_of_byName? hmember
  obtain ⟨before, after, rfl, hbefore, hinsert⟩ := hes.split hx
  cases n with
  | zero => exact fills_of_tooDeep fun y => by rw [field_outcome_factory hd hf]; rfl
  | succ n =>
    -- each entry is bound to the member its key names, from zero
    let bind (e : String × Data) : Except Cause (String × Value) :=
      (e.1, ·) <$> (Platform.ofName? e.1).elim (.error (unknown e.1)) fun p =>
        ((Deeper.level context n).assign document e.2 (member p).zero).outcome
    refine ⟨n, Value.among (before.mapM bind) (after.mapM bind) (key, ·) (.map (.oneOf family)),
      ?_, ?_⟩
    · intro y _
      have hbound : bind (key, y) =
          (key, ·) <$> (value (member p).zero).outcome context document n y := by
        simp only [bind, hp]
        rfl
      have hordered : Keyed.Ordered (before ++ (key, y) :: after) := hinsert y ▸ hes.insert key y
      rw [Data.setChild, hinsert, field_outcome_factory hd hf, level_fill, hfill,
        Binding.byName_outcome (Deeper.level_self _) hordered]
      exact Value.map_mapM_append_cons bind before after hbound
    · intro _ _
      apply Value.holds_entry
      intro a ha
      rwa [Keyed.keys, names_of_mapM ha]

/-- A list of actions comes to a function of what each of its entries is made into. -/
theorem action_fills {d : Directives} {name : String} (hd : d.factory? = some name)
    (hf : context.factories.get? name = some .actions) {xs : List Data} {i : Nat} {x : Data}
    (hx : xs[i]? = some x) (old : List Value) (n : Nat) :
    Fills context document (field d (.list (.oneOf .action) old)) n (.list xs) (.index i)
      Position.entry := by
  obtain ⟨hi, -⟩ := List.getElem?_eq_some_iff.mp hx
  cases n with
  | zero => exact fills_of_tooDeep fun y => by rw [field_outcome_factory hd hf]; rfl
  | succ n =>
    let bind (x : Data) : Except Cause Value :=
      ((Deeper.level context n).action document x).outcome
    refine ⟨n, Value.among ((xs.take i).mapM bind) ((xs.drop (i + 1)).mapM bind) id
      (.list (.oneOf .action)), ?_, by simp [target?]⟩
    intro y _
    rw [Data.setChild, List.set_eq_take_append_cons_drop, if_pos hi, field_outcome_factory hd hf,
      level_fill, Binding.fill_actions_outcome (Deeper.level_self _)]
    exact Value.map_mapM_append_cons bind (xs.take i) (xs.drop (i + 1)) (id_map _).symm

/-- Bare texts are put into fields before or after something else is put among them. -/
theorem Enters.taken_setChild {d : Directives} {target : Value}
    (h : Enters context (value target) (Binding.taken d target x) t s') {y : Data}
    (hy : s'.Takes y) :
    Binding.taken d target (Data.setChild t y x) =
      Data.setChild t y (Binding.taken d target x) := by
  unfold Binding.taken at h ⊢
  generalize d.string? = string at h ⊢
  cases string with
  | none => rfl
  | some sub =>
    cases x with
    | map es =>
      cases target with
      | map e old =>
        by_cases he : e.isRecord
        · simp only [he, if_true] at h ⊢
          cases h with
          | entry =>
            -- the elements are records, so what takes the place of one is no bare text
            have hzero : ∃ variant slots, e.zero = .record variant slots := by
              cases e with
              | record fields => exact ⟨_, _, rfl⟩
              | oneOf family => exact ⟨_, _, rfl⟩
              | _ => simp [Shape.isRecord] at he
            have htext : ∀ s, y ≠ .text s := by
              obtain ⟨variant, slots, hzero⟩ := hzero
              exact hy.2 ⟨variant, slots, by rw [hzero]⟩
            simp [Data.setChild, Binding.expanded_insert sub _ htext, he]
        · cases t <;> simp [Data.setChild, he]
      | _ => cases t <;> rfl
    | list xs => cases t <;> rfl
    | _ => rfl

/-- A field without a factory comes to what its value comes to, where the tag takes the data as it
    stands. -/
theorem plain_fills {d : Directives} (hd : d.factory? = none) {target : Value}
    (hx : x.IsOrdered) {y : Data} (hy : Data.child? t x = some y) {n : Nat}
    (hsame : ∀ z, s'.Takes z → Binding.taken d target (Data.setChild t z x) =
      Data.setChild t z (Binding.taken d target x))
    (h : Fills context document (value target) n (Binding.taken d target x) t s') :
    Fills context document (field d target) n x t s' := by
  obtain ⟨n', f, houtcome, hholds⟩ := h
  have hinside : x.isScalar = false := Data.isScalar_of_child? hy
  obtain ⟨y', hy'⟩ : ∃ y', Data.child? t (Binding.taken d target x) = some y' :=
    Binding.child?_taken hy
  have hinside' := Data.isScalar_of_child? hy'
  obtain ⟨cause, hpath⟩ : ∃ cause,
      Binding.existingPath context document (Binding.taken d target x) target = .error cause :=
    Binding.existingPath_of_not_isScalar hinside'
  refine ⟨n', fun z => do
    Binding.checkValue d (Binding.taken d target x)
    if d.isPath then .error cause else f z, ?_, ?_⟩
  · intro z hz
    have hset : (Data.setChild t z x).isScalar = false := by rwa [Data.isScalar_setChild]
    have hfield : (field d target).outcome context document n (Data.setChild t z x) = _ :=
      Binding.field_outcome (Deeper.level_self n) hd hset
    rw [hsame z hz, Binding.checkValue_setChild (Binding.isOrdered_taken hx) hy',
      Binding.existingPath_setChild hinside', hpath] at hfield
    simp only [← houtcome z hz]
    exact hfield
  · intro hs hs'
    apply Value.Holds.checked
    split
    · exact Value.holds_error t cause
    · exact hholds rfl hs'

/-- A payload comes to its fields, bound and finished with what the key says. -/
theorem payload_outcome_succ {key : String} {plan : Plan}
    (h : Entry.readKeyed key x = .ok plan) (n : Nat) :
    outcome context document (n + 1) (payload key) x =
      plan.finish <$>
        outcome context document n (value (Variant.action plan.kind).zero) (.map plan.payload) := by
  have hread : Entry.read (.map [(key, x)]) = .ok plan := h
  show (Binding.action (Deeper.level context n) document (.map [(key, x)])).outcome = _
  rw [Binding.action_outcome (Deeper.level_self _), hread]
  rfl

/-- A field with one action comes to what its entry is made into. -/
theorem single_fills {d : Directives} {name : String} {k : ActionKind} {slots : Slots}
    (hd : d.factory? = some name) (hf : context.factories.get? name = some .action)
    (h : Enters context Position.entry x t s)
    (hentry : ∀ n, Fills context document Position.entry n x t s) (n : Nat) :
    Fills context document (field d (.record (some (.action k)) slots)) n x t s := by
  cases n with
  | zero => exact fills_of_tooDeep fun _ => by rw [field_outcome_factory hd hf]; rfl
  | succ n =>
    obtain ⟨n', f, houtcome, -⟩ := hentry n
    refine ⟨n', f, ?_, ?_⟩
    · intro z hz
      rw [← houtcome z hz, field_outcome_factory hd hf, level_fill]
      rfl
    · -- an action has no value until it is read
      cases h
      simp [target?]

/-- The plan for a payload is the same, whatever is set inside of the payload. -/
theorem payload_fills {key : String} {es : List (String × Data)} {plan : Plan}
    (hplan : Entry.readKeyed key (.map es) = .ok plan) (hes : Keyed.Ordered es) {y : Data}
    (hy : Data.child? t (.map es) = some y)
    (hvalue : ∀ n,
      Fills context document (value (Variant.action plan.kind).zero) n (.map es) t s) (n : Nat) :
    Fills context document (payload key) n (.map es) t s := by
  obtain rfl := Entry.payload_of_readKeyed_map hplan
  cases n with
  | zero => exact fills_of_tooDeep fun _ => rfl
  | succ n =>
    obtain ⟨n', f, houtcome, -⟩ := hvalue n
    refine ⟨n', fun v => plan.finish <$> f v, ?_, by simp [target?]⟩
    intro z hz
    cases t with
    | index i => simp [Data.child?] at hy
    | key name =>
      have hkeys := hes.keys_insert hy z
      have hread : Entry.readKeyed key (.map (Keyed.insert name z plan.payload)) =
          .ok { plan with payload := Keyed.insert name z plan.payload } := by
        rw [Entry.readKeyed_map (fun _ => Entry.expectationKind_eq_of_keys_eq none hkeys)
          fun _ => Keyed.has_eq_of_keys_eq hkeys "action", hplan]
        rfl
      rw [Data.setChild, payload_outcome_succ hread]
      exact congrArg (plan.finish <$> ·) (houtcome z hz)

/-- The plan for a list is the same, whatever is set inside of the list. -/
theorem group_fills {key : String} {xs : List Data} {plan : Plan}
    (hplan : Entry.readKeyed key (.list xs) = .ok plan)
    (hactions : ∀ n, Fills context document (value (Variant.action plan.kind).zero) n
      (.map [("actions", .list xs)]) (.key "actions") s)
    (hitem : ∀ n, Fills context document s n (.list xs) t s') (n : Nat) :
    Fills context document (payload key) n (.list xs) t s' := by
  cases n with
  | zero => exact fills_of_tooDeep fun _ => rfl
  | succ n =>
    obtain ⟨n₁, f, houtcome, -⟩ := hactions n
    obtain ⟨n₂, f', houtcome', -⟩ := hitem n₁
    refine ⟨n₂, fun v => plan.finish <$> f (f' v), ?_, by simp [target?]⟩
    intro z hz
    obtain ⟨xs', hxs'⟩ : ∃ xs', Data.setChild t z (.list xs) = .list xs' := by
      cases t <;> exact ⟨_, rfl⟩
    have hread : Entry.readKeyed key (.list xs') =
        .ok { plan with payload := [("actions", .list xs')] } := by
      rw [Entry.readKeyed_list xs, hplan]
      rfl
    have hset : Data.setChild (.key "actions") (.list xs') (.map [("actions", .list xs)]) =
        .map [("actions", .list xs')] := by simp [Data.setChild, Keyed.insert]
    rw [hxs', payload_outcome_succ hread]
    show plan.finish <$> _ = plan.finish <$> _
    rw [← houtcome' z hz, hxs', ← houtcome (.list xs') ⟨by simp, by simp⟩, hset]

/-- What data inside data at a position comes to is all that the outside knows of it. -/
theorem Enters.fills (hstrict : context.strict = false) (h : Enters context s x t s')
    (hs : s.IsTidy) (hx : x.IsOrdered) {y : Data} (hy : Data.child? t x = some y) (n : Nat) :
    Fills context document s n x t s' := by
  -- by induction on the step: those into fields and payloads go on by the shape of a value
  induction h generalizing y n with
  | slot hslot hd => exact slot_fills hstrict hs hslot hd _ n
  | entry => exact entry_fills (hx _ rfl) hy _ _ n
  | item => exact item_fills hy _ _ n
  | plain hd h ih =>
    obtain ⟨y', hy'⟩ := Binding.child?_taken hy
    exact plain_fills hd hx hy (fun z hz => h.taken_setChild hz)
      (ih hs (Binding.isOrdered_taken hx) hy' n)
  | member hd hf hmember hp => exact member_fills hd hf hmember (hx _ rfl) hy hp _ n
  | action hd hf => exact action_fills hd hf hy _ n
  | single hd hf h ih =>
    exact single_fills hd hf h (fun n => ih (by simp [IsTidy, target?]) hx hy n) n
  | key =>
    refine ⟨n, id, ?_, by simp [target?]⟩
    intro z _
    simp [Data.setChild, Keyed.insert, outcome]
  | payload hplan h ih =>
    exact payload_fills hplan (hx _ rfl) hy (fun n => ih (isTidy_variant _) hx hy n) n
  | group hplan h h' ih ih' =>
    have hmap {xs : List Data} : (Data.map [("actions", .list xs)]).IsOrdered := by
      rintro _ ⟨rfl⟩
      simp [Keyed.Ordered]
    have hactions {xs : List Data} : Data.child? (.key "actions") (.map [("actions", .list xs)]) =
        some (.list xs) := by simp [Data.child?, Keyed.get?]
    exact group_fills hplan (fun n => ih (isTidy_variant _) hmap hactions n)
      (fun n => ih' (h.isTidy (isTidy_variant _)) (by simp [Data.IsOrdered]) hy n) n

end Position

end Testbed
