import Testbed.Proofs.Binding.Faults
import Testbed.Proofs.Data.Sorted
import Testbed.Proofs.Number.Singles

/-!
# What a walk visits

A walk that fills values from the data of one document alone checks one thing after the other. Each
check is a `Visit`: the route to what is looked at, and what the check comes to. `visits` lists them
in the order of the walk, without any walking: of a record first its keys, where they are checked,
then its fields as they are declared; the entries of a map in the order of their keys, and the items
of a list one after the other.

A visit that fails says what is at its route (`Visit.leads_of_mem_visits`), unless it blames the
declarations: then there need not be anything.
-/

namespace Testbed

open Binding Value Number

/-- A check on a walk: the route to what is looked at, and what the check comes to. -/
structure Visit where
  route : Route
  check : Except Cause Unit

namespace Visit

/-- A visit that something comes of. -/
def of {α : Type} (r : Route) (x : Except Cause α) : Visit :=
  ⟨r, (fun _ => ()) <$> x⟩

/-! ## §1 The order of a walk -/

/-- The visit of a key, which has to be one of some names. -/
def key (names : List String) (r : Route) (name : String) : Visit :=
  ⟨r ++ [.key name], if names.contains name then .ok () else .error (.unknownKey name)⟩

/-- The visits of the keys of a record, which have to name fields. -/
def keys (r : Route) (es : List (String × Data)) (slots : Slots) : List Visit :=
  match documentNames slots with
  | .error cause => [⟨r, .error cause⟩]
  | .ok names => es.map fun e => key names r e.1

variable (context : Context) (document : Path) (below : Route → Data → Value → List Visit)

/-- The visits of a field: where nothing is under its name it takes its default, and otherwise what
    is there is checked, and bound as a path or by its shape. -/
def field (r : Route) (es : List (String × Data)) (s : Field × Value) : List Visit :=
  match directives s.1 with
  | .error cause => [⟨r, .error cause⟩]
  | .ok d =>
    let inside := r ++ [.key (documentName s.1 d)]
    match s.2 with
    | .absent => [⟨inside, .error (.missingField s.1.owner s.1.ident)⟩]
    | target =>
      match present? (documentName s.1 d) es with
      | none => [of inside (fields.absentField d target)]
      | some x =>
        of inside (checkValue d x) ::
          if d.isPath then [of inside (existingPath context document x target)]
          else below inside x target

/-- The visits of a record: its keys first, where they are checked, and then its fields. -/
def record (r : Route) (es : List (String × Data)) (slots : Slots) : List Visit :=
  (if context.strict then keys r es slots else []) ++
    slots.flatMap (field context document below r es)

/-- The visits of entries, which stand in the order of their keys. -/
def entries (r : Route) (zero : Value) (es : List (String × Data)) : List Visit :=
  es.flatMap fun e => below (r ++ [.key e.1]) e.2 zero

/-- The visits of items, the first of which has the given index. -/
def items (r : Route) (zero : Value) : Nat → List Data → List Visit
  | _, [] => []
  | i, x :: rest => below (r ++ [.index i]) x zero ++ items r zero (i + 1) rest

end Visit

/-- The visits of a walk that binds data by the shape of a value, with so many levels left. -/
def visits (context : Context) (document : Path) : Nat → Route → Data → Value → List Visit
  | 0, r, _, _ => [⟨r, .error (.tooDeep maxDepth)⟩]
  | n + 1, r, data, target =>
    match data with
    | .null => []
    | _ =>
      match target with
      | .record _ slots =>
        match data with
        | .map es => Visit.record context document (visits context document n) r es slots
        | _ => [⟨r, .error (mismatch "map" data)⟩]
      | .map e _ =>
        match data with
        | .map es => Visit.entries (visits context document n) r e.zero es
        | _ => [⟨r, .error (mismatch "map" data)⟩]
      | .list e _ =>
        match data with
        | .list xs => Visit.items (visits context document n) r e.zero 0 xs
        | _ => [⟨r, .error (mismatch "list" data)⟩]
      | _ => [Visit.of r (scalar data target)]

/-! ## §2 What causes say -/

/-- The text that messages give to a number: an integer as it is, and a float; an integer that no
    document can hold is the float that it is stored as. -/
inductive Data.IsNumberText : Data → String → Prop
  | int (n : Int) : IsNumberText (.int n) (toString n)
  | float (x : Binary) : IsNumberText (.float x) x.messageText
  | large {n : Int} (h : Data.isInteger n = false) :
      IsNumberText (.int n) (Binary.ofInt n).messageText

/-- Whether a cause describes what is at a route. -/
def Cause.Describes (document : Path) (r : Route) (x : Data) : Cause → Prop
  | .mismatch _ found => found = x.kind
  | .overflow value _ => x.IsNumberText value
  | .notAllowed s allowed => x = .text s ∧ s ∉ allowed
  | .pathNotFound path => ∃ raw, x = .text raw ∧ path = resolvePath document raw
  | .keysMissing keys => ∃ es, x = .map es ∧ ∀ key ∈ keys, key ∉ Keyed.keys es
  | .unknownKey key => r.getLast? = some (.key key)
  | .tooDeep levels => levels = maxDepth
  | _ => False

/-- Whether what a check comes to, if it fails, describes what is at a route or blames the
    declarations. -/
def Explains {α : Type} (document : Path) (r : Route) (x : Data) (check : Except Cause α) : Prop :=
  ∀ cause, check = .error cause → cause.blamesSchema = true ∨ cause.Describes document r x

section

variable {α : Type} {context : Context} {document : Path} {r : Route} {x : Data} {target : Value}
  {d : Directives}

theorem explains_ok (a : α) : Explains document r x (Except.ok a) := by
  rintro cause ⟨⟩

theorem explains_error {cause : Cause} (h : cause.Describes document r x) :
    Explains document r x (.error cause : Except Cause α) := by
  rintro _ ⟨⟩
  exact .inr h

theorem explains_mismatch (expected : String) :
    Explains document r x (.error (mismatch expected x) : Except Cause α) :=
  explains_error rfl

/-- Checks one after the other are explained by the data that they look at. -/
theorem Explains.bind {β : Type} {check : Except Cause α} {f : α → Except Cause β}
    (h : Explains document r x check) (hf : ∀ a, Explains document r x (f a)) :
    Explains document r x (check >>= f) := by
  cases check with
  | ok a => exact hf a
  | error cause =>
    rintro _ ⟨⟩
    exact h cause rfl

/-! ## §3 Checks -/

theorem explains_allowedCheck : Explains document r x (allowedCheck d x) := by
  unfold allowedCheck
  cases d.allowed? with
  | none => exact explains_ok _
  | some allowed =>
    cases x with
    | text s =>
      simp only
      split
      · exact explains_ok _
      · next hs => exact explains_error ⟨rfl, hs⟩
    | _ => exact explains_mismatch _

theorem explains_presenceCheck : Explains document r x (presenceCheck d x) := by
  unfold presenceCheck
  cases d.keys? with
  | none => exact explains_ok _
  | some keys =>
    cases x with
    | map es =>
      simp only
      split
      · exact explains_ok _
      · next hnone =>
        refine explains_error ⟨es, rfl, fun key hkey hmem => hnone ?_⟩
        exact List.any_eq_true.mpr ⟨key, hkey, Keyed.has_iff_mem_keys.mpr hmem⟩
    | _ => exact explains_mismatch _

theorem explains_checkValue : Explains document r x (checkValue d x) := by
  rw [checkValue_eq]
  exact explains_allowedCheck.bind fun _ => explains_presenceCheck

theorem explains_existingPath : Explains document r x (existingPath context document x target) := by
  unfold existingPath
  cases x with
  | text raw =>
    simp only
    split
    · cases target <;> first | exact explains_ok _ | exact explains_error rfl
    · exact explains_error ⟨raw, rfl, rfl⟩
  | _ => exact explains_mismatch _

/-- A float that does not fit a single is a number of the document, or stands for an integer that
    no document can hold. -/
theorem explains_float {w : FloatWidth} {y : Binary} {value : String}
    (h : y.exceedsSingle = true → x.IsNumberText value) :
    Explains document r x
      ((Value.ofFloat? w y).elim (.error (.overflow value w.name)) .ok : Except Cause Value) := by
  cases w with
  | f64 => exact explains_ok _
  | f32 =>
    cases hy : y.exceedsSingle with
    | false =>
      rw [ofFloat?, hy]
      exact explains_ok _
    | true =>
      rw [ofFloat?, hy]
      exact explains_error (h hy)

/-- What is said of a scalar is explained by the scalar. -/
theorem explains_scalar : Explains document r x (scalar x target) := by
  cases target with
  | bool b => cases x <;> first | exact explains_ok _ | exact explains_mismatch _
  | text s => cases x <;> first | exact explains_ok _ | exact explains_mismatch _
  | int w m =>
    cases x with
    | int n =>
      simp only [scalar_int, ofInt?]
      split
      · exact explains_ok _
      · exact explains_error (.int n)
    | _ => exact explains_mismatch _
  | float w y =>
    cases x with
    | int n =>
      rw [scalar_floatOfInt]
      refine explains_float fun hlarge => .large ?_
      by_contra hn
      rw [Binary.exceedsSingle_ofInt (by simpa using hn)] at hlarge
      cases hlarge
    | float y => exact scalar_float w y _ ▸ explains_float fun _ => .float y
    | _ => exact explains_mismatch _
  | _ => exact explains_ok _

end

/-! ## §4 Declarations -/

/-- Whether all that a computation can be stopped by blames the declarations. -/
def BlamesSchema {α : Type} (x : Except Cause α) : Prop :=
  ∀ cause, x = .error cause → cause.blamesSchema = true

section

variable {α : Type} {d : Directives} {target : Value}

theorem blamesSchema_ok (a : α) : BlamesSchema (Except.ok a) := by
  rintro cause ⟨⟩

theorem blamesSchema_error {cause : Cause} (h : cause.blamesSchema = true) :
    BlamesSchema (.error cause : Except Cause α) := by
  rintro _ ⟨⟩
  exact h

theorem BlamesSchema.bind {β : Type} {x : Except Cause α} {f : α → Except Cause β}
    (hx : BlamesSchema x) (hf : ∀ a, BlamesSchema (f a)) : BlamesSchema (x >>= f) := by
  cases x with
  | ok a => exact hf a
  | error cause => exact blamesSchema_error (hx cause rfl)

/-- A tag that cannot be read is the fault of the declarations. -/
theorem directives_blamesSchema (f : Field) : BlamesSchema (directives f) := by
  unfold directives
  split
  · exact blamesSchema_ok _
  · exact blamesSchema_error rfl

theorem documentNames_blamesSchema (slots : Slots) : BlamesSchema (documentNames slots) := by
  induction slots with
  | nil => exact blamesSchema_ok _
  | cons s rest ih =>
    exact (directives_blamesSchema s.1).bind fun _ => ih.bind fun _ => blamesSchema_ok _

/-- A default that cannot be read is the fault of the declarations. -/
theorem ofDefault_blamesSchema (raw : String) : BlamesSchema (ofDefault raw target) := by
  cases target with
  | bool b =>
    rw [ofDefault_bool]
    split
    · exact blamesSchema_ok _
    · exact blamesSchema_error rfl
  | int w n =>
    rw [ofDefault_int]
    split
    · next m _ =>
      cases ofInt? w m with
      | none => exact blamesSchema_error rfl
      | some v => exact blamesSchema_ok _
    · exact blamesSchema_error rfl
  | text s => exact blamesSchema_ok _
  | _ => exact blamesSchema_error rfl

/-- What is wrong with a default is the fault of the declarations. -/
theorem absentField_blamesSchema : BlamesSchema (fields.absentField d target) := by
  unfold fields.absentField
  split
  · exact ofDefault_blamesSchema _
  · exact blamesSchema_ok _

end

/-! ## §5 Visits -/

/-- Whether a visit, if it fails and the declarations are not to blame, is one of something inside
    of the data at a route, and says what is there. -/
def Visit.Leads (document : Path) (r : Route) (x : Data) (v : Visit) : Prop :=
  ∀ cause, v.check = .error cause → cause.blamesSchema = false →
    ∃ q y, v.route = r ++ q ∧ Data.at? q x = some y ∧ cause.Describes document v.route y

namespace Visit

variable {α : Type} {context : Context} {document : Path} {r : Route} {x y : Data} {t : Step}
  {v : Visit} {below : Route → Data → Value → List Visit}

theorem leads_of_schema {check : Except Cause Unit} (h : BlamesSchema check) (r q : Route) :
    Leads document r x ⟨q, check⟩ := by
  intro cause hcause hblameless
  rw [h cause hcause] at hblameless
  cases hblameless

theorem leads_of_blames {check : Except Cause α} (h : BlamesSchema check) (r q : Route) :
    Leads document r x (of q check) := by
  apply leads_of_schema
  intro cause hcause
  cases check with
  | ok a => cases hcause
  | error c => exact h cause (congrArg _ (Except.error.inj hcause))

theorem leads_of_explains {check : Except Cause Unit} (h : Explains document r x check) :
    Leads document r x ⟨r, check⟩ := by
  intro cause hcause hblameless
  refine ⟨[], x, (List.append_nil r).symm, rfl, (h cause hcause).resolve_left ?_⟩
  simp [hblameless]

theorem leads_of {check : Except Cause α} (h : Explains document r x check) :
    Leads document r x (of r check) := by
  apply leads_of_explains
  intro cause hcause
  cases check with
  | ok a => cases hcause
  | error c => exact h cause (congrArg _ (Except.error.inj hcause))

/-- What leads into something inside leads into what holds it. -/
theorem Leads.step (h : Leads document (r ++ [t]) y v) (hy : Data.child? t x = some y) :
    Leads document r x v := by
  intro cause hcause hblameless
  obtain ⟨q, z, hroute, hz, hdescribes⟩ := h cause hcause hblameless
  refine ⟨t :: q, z, by simp [hroute], ?_, hdescribes⟩
  rw [Data.at?, hy, Option.bind_some, hz]

/-- A key that is refused leads to its entry. -/
theorem leads_of_mem_keys {es : List (String × Data)} {slots : Slots}
    (hes : (Data.map es).Ordered) (hv : v ∈ keys r es slots) : Leads document r (.map es) v := by
  unfold keys at hv
  split at hv
  · next cause hnames =>
    obtain rfl := List.mem_singleton.mp hv
    exact leads_of_schema (blamesSchema_error (documentNames_blamesSchema slots cause hnames)) _ _
  · next names _ =>
    obtain ⟨⟨name, x⟩, hmem, rfl⟩ := List.mem_map.mp hv
    have hget : Data.child? (.key name) (.map es) = some x :=
      Keyed.get?_eq_some_of_mem (hes.isOrdered es rfl).nodup_keys hmem
    refine (leads_of_explains ?_).step hget
    split
    · exact explains_ok _
    · exact explains_error (by simp [Cause.Describes])

section

variable (hbelow : ∀ {r x target v}, Data.Ordered x → v ∈ below r x target → Leads document r x v)

include hbelow

/-- The visits of a field lead to what is under its name. -/
theorem leads_of_mem_field {es : List (String × Data)} {s : Field × Value}
    (hes : (Data.map es).Ordered) (hv : v ∈ field context document below r es s) :
    Leads document r (.map es) v := by
  unfold field at hv
  split at hv
  · next cause hread =>
    obtain rfl := List.mem_singleton.mp hv
    exact leads_of_schema (blamesSchema_error (directives_blamesSchema _ cause hread)) _ _
  · next d hread =>
    simp only at hv
    split at hv
    · obtain rfl := List.mem_singleton.mp hv
      exact leads_of_schema (blamesSchema_error rfl) _ _
    · split at hv
      · obtain rfl := List.mem_singleton.mp hv
        exact leads_of_blames absentField_blamesSchema _ _
      · next x hx =>
        obtain ⟨hget, -⟩ := Option.filter_eq_some_iff.mp hx
        have hchild : Data.child? (.key (documentName s.1 d)) (.map es) = some x := hget
        refine Leads.step ?_ hchild
        rcases List.mem_cons.mp hv with rfl | hv
        · exact leads_of explains_checkValue
        · split at hv
          · obtain rfl := List.mem_singleton.mp hv
            exact leads_of explains_existingPath
          · exact hbelow (hes.child? hchild) hv

/-- The visits of a record lead into its data. -/
theorem leads_of_mem_record {es : List (String × Data)} {slots : Slots}
    (hes : (Data.map es).Ordered) (hv : v ∈ record context document below r es slots) :
    Leads document r (.map es) v := by
  rcases List.mem_append.mp hv with hv | hv
  · split at hv
    · exact leads_of_mem_keys hes hv
    · cases hv
  · obtain ⟨s, -, hv⟩ := List.mem_flatMap.mp hv
    exact leads_of_mem_field hbelow hes hv

/-- The visits of items lead into the list, each to its own index. -/
theorem leads_of_mem_items {xs : List Data} {zero : Value} (hxs : (Data.list xs).Ordered)
    (before : List Data) {rest : List Data} (hsplit : xs = before ++ rest)
    (hv : v ∈ items below r zero before.length rest) : Leads document r (.list xs) v := by
  induction rest generalizing before with
  | nil => cases hv
  | cons x rest ih =>
    rcases List.mem_append.mp hv with hv | hv
    · have hchild : Data.child? (.index before.length) (.list xs) = some x := by
        simp [Data.child?, hsplit]
      exact (hbelow (hxs.child? hchild) hv).step hchild
    · exact ih (before ++ [x]) (by simp [hsplit]) (by simpa using hv)

/-- The visits of entries lead into the map, each to its own key. -/
theorem leads_of_mem_entries {es : List (String × Data)} {zero : Value}
    (hes : (Data.map es).Ordered)
    (hv : v ∈ entries below r zero es) : Leads document r (.map es) v := by
  obtain ⟨⟨key, x⟩, hmem, hv⟩ := List.mem_flatMap.mp hv
  have hchild : Data.child? (.key key) (.map es) = some x :=
    Keyed.get?_eq_some_of_mem (hes.isOrdered es rfl).nodup_keys hmem
  exact (hbelow (hes.child? hchild) hv).step hchild

end

/-- Every visit that fails says what is at its route, if the declarations are not to blame. -/
theorem leads_of_mem_visits {n : Nat} {target : Value} (hx : Data.Ordered x)
    (hv : v ∈ visits context document n r x target) : Leads document r x v := by
  -- by induction on the levels: what is below leads into a part of the data, and so into the whole
  induction n generalizing r x target v with
  | zero =>
    obtain rfl := List.mem_singleton.mp hv
    exact leads_of_explains (explains_error rfl)
  | succ n ih =>
    unfold visits at hv
    split at hv
    · cases hv
    · split at hv
      · split at hv
        · exact leads_of_mem_record ih hx hv
        · obtain rfl := List.mem_singleton.mp hv
          exact leads_of_explains (explains_mismatch _)
      · split at hv
        · exact leads_of_mem_entries ih hx hv
        · obtain rfl := List.mem_singleton.mp hv
          exact leads_of_explains (explains_mismatch _)
      · split at hv
        · exact leads_of_mem_items ih hx [] rfl hv
        · obtain rfl := List.mem_singleton.mp hv
          exact leads_of_explains (explains_mismatch _)
      · obtain rfl := List.mem_singleton.mp hv
        exact leads_of explains_scalar

end Visit

end Testbed
