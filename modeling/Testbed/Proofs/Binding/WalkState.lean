import Mathlib.Order.Lattice
import Testbed.Binding.Walker

/-!
# The state of a walker

How deep a walk may go is a matter of levels: each is made from the one below it. A walker has a
state instead: where it is, which document it is in, and how many calls are open. A call is counted
before it begins, refused where too many are open, and discounted when it comes back, with a result
or without. The state is changed by every step and goes from one call to the next.

`StateWalk` are walks that change this state, and the functions of binding are told once more for
them: the two are different programs, so their agreement is shown function by function
(`Calls.level_agree`). Every call restores the state but for the location, and there are never more
calls open than may be. What would happen below that does not matter, so anything can be put there.
-/

namespace Testbed

/-- What a walker knows of the walk that is going on. -/
structure WalkState where
  location : Location
  document : Path
  /-- How many calls are open. -/
  depth : Nat
  /-- How many calls have been open at most. -/
  peak : Nat

/-- A walk that changes the state of a walker. -/
abbrev StateWalk := EStateM Error WalkState

/-- What a walk may call. -/
structure Calls where
  assign : Data → Value → StateWalk Value
  fill : Factory → Data → Value → StateWalk Value
  action : Data → StateWalk Value

namespace StateWalk

variable {α : Type}

/-! ## §1 Steps -/

/-- Stops with a cause. -/
def fail (cause : Cause) : StateWalk α :=
  throw (.cause cause)

/-- Goes on with a result, or stops with its cause. -/
def lift : Except Cause α → StateWalk α
  | .ok x => pure x
  | .error cause => fail cause

/-- Moves the location. -/
def move (step : Location → Location) : StateWalk Unit :=
  modify fun b => { b with location := step b.location }

/-- The document that the walker is in. -/
def document : StateWalk Path := do
  return (← get).document

/-- Adds the document and the location of the state to an error. -/
def located (k : StateWalk α) : StateWalk α := fun b =>
  match k b with
  | .ok x after => .ok x after
  | .error e after => .error (e.locate after.document after.location.text) after

/-- Walks in another document, and returns to the one before. -/
def inDocument (path : Path) (k : StateWalk α) : StateWalk α := fun b =>
  match located k { b with document := path } with
  | .ok x after => .ok x { after with document := b.document }
  | .error e after => .error e { after with document := b.document }

/-- Makes a call, unless there are too many open. -/
def descend (k : StateWalk α) : StateWalk α := fun b =>
  if b.depth < maxDepth then
    match k { b with depth := b.depth + 1, peak := max b.peak (b.depth + 1) } with
    | .ok x after => .ok x { after with depth := after.depth - 1 }
    | .error e after => .error e { after with depth := after.depth - 1 }
  else fail (.tooDeep maxDepth) b

/-- Walks the inside of a map. -/
def insideMap (k : StateWalk α) : StateWalk α := do
  move Location.openMap
  let x ← k
  move Location.close
  pure x

/-- Walks the inside of a list. -/
def insideList (k : StateWalk α) : StateWalk α := do
  move Location.openList
  let x ← k
  move Location.close
  pure x

/-! ## §2 Binding -/

/-- Makes an item for each of some things, the first of which has the given index. -/
def items (make : α → StateWalk Value) : Nat → List α → StateWalk (List Value)
  | _, [] => pure []
  | index, x :: rest => do
    move (Location.atIndex index)
    let v ← make x
    let vs ← items make (index + 1) rest
    pure (v :: vs)

/-- Fills the entries under the keys of some things. -/
def entries (element : Shape) (fill : α → Value → StateWalk Value) :
    List (String × α) → List (String × Value) → StateWalk (List (String × Value))
  | [], filled => pure filled
  | (key, x) :: rest, filled => do
    move (Location.atField key)
    let v ← fill x ((Keyed.get? key filled).getD element.zero)
    entries element fill rest (Keyed.insert key v filled)

/-- Fills a member of a family for each key, which names it. -/
def members (member? : String → Option Value) (unknown : String → Cause)
    (fill : Data → Value → StateWalk Value) :
    List (String × Data) → List (String × Value) → StateWalk (List (String × Value))
  | [], filled => pure filled
  | (key, x) :: rest, filled => do
    move (Location.atField key)
    match member? key with
    | none => fail (unknown key)
    | some zero => do
      let v ← fill x zero
      members member? unknown fill rest (Keyed.insert key v filled)

/-- Refuses the first key that names none of the fields. -/
def checkKeys (data : List (String × Data)) (slots : Slots) : StateWalk Unit := do
  let names ← located (lift (Binding.documentNames slots))
  match data.find? fun (key, _) => !names.contains key with
  | none => pure ()
  | some (key, _) => do
    move (Location.atField key)
    located (fail (.unknownKey key))

/-- Loads the documents of a pattern into a list or a map. -/
def loaded (context : Context) (calls : Calls) (pattern : String) (target : Value) :
    StateWalk Value := do
  let path ← document
  let documents ← lift (Document.loadMatching context.files path.directory pattern)
  let fill (d : Document) (v : Value) : StateWalk Value :=
    inDocument d.path (calls.assign (.map d.entries) v)
  match target with
  | .list e _ => do
    let vs ← insideList (items (fun d => fill d e.zero) 0 documents)
    pure (.list e vs)
  | .map e _ => do
    let es ← insideMap (entries e fill (documents.map fun d => (d.name, d)) [])
    pure (.map e es)
  | v => fail (.notLoadable v.kind)

/-- Binds a value that no factory and no shorthand has taken over. -/
def value (context : Context) (calls : Calls) (d : Directives) (data : Data) (target : Value) :
    StateWalk Value :=
  let plain : StateWalk Value := do
    lift (Binding.checkValue d data)
    if d.isPath then do
      let path ← document
      lift (Binding.existingPath context path data target)
    else calls.assign data target
  match data with
  | .text pattern => if d.isLoadable then loaded context calls pattern target else plain
  | _ => plain

mutual
/-- Binds one field according to its directives. -/
def field (context : Context) (calls : Calls) (d : Directives) (data : Data) (target : Value) :
    StateWalk Value :=
  match d.factory? with
  | some name =>
    match context.factories.get? name with
    | some f => calls.fill f data target
    | none => fail (.unknownFactory name)
  | none =>
    match d.string?, data, target with
    | some sub, .text s, .record variant slots => do
      let bare := [(sub, Data.text s)]
      let filled ← insideMap do
        if context.strict then checkKeys bare slots
        fields context calls bare slots
      pure (.record variant filled)
    | some sub, .map es, .map e old =>
      if e.isRecord then value context calls d (.map (Binding.expanded sub es)) (.map e old)
      else value context calls d data target
    | _, _, _ => value context calls d data target
/-- Binds the fields of a record, one after the other. -/
def fields (context : Context) (calls : Calls) (data : List (String × Data)) :
    Slots → StateWalk Slots
  | [] => pure []
  | (f, target) :: rest => do
    let d ← located (lift (Binding.directives f))
    let name := Binding.documentName f d
    move (Location.atField name)
    let bound ← located <|
      match target with
      | .absent => fail (.missingField f.owner f.ident)
      | target =>
        match Keyed.get? name data with
        | some .null => lift (Binding.fields.absentField d target)
        | some x => field context calls d x target
        | none => lift (Binding.fields.absentField d target)
    let filled ← fields context calls data rest
    pure ((f, bound) :: filled)
end

/-- Binds the fields of a record inside a map. -/
def recordInside (context : Context) (calls : Calls) (data : List (String × Data))
    (slots : Slots) : StateWalk Slots :=
  insideMap do
    if context.strict then checkKeys data slots
    fields context calls data slots

/-- Binds data by the shape of a value. -/
def assign (context : Context) (calls : Calls) (data : Data) (target : Value) : StateWalk Value :=
  match data with
  | .null => pure target.reset
  | _ =>
    match target with
    | .record variant slots =>
      match data with
      | .map es => do
        let filled ← recordInside context calls es slots
        pure (.record variant filled)
      | _ => fail (Binding.mismatch "map" data)
    | .map e _ =>
      match data with
      | .map es => do
        let filled ← insideMap (entries e calls.assign es [])
        pure (.map e filled)
      | _ => fail (Binding.mismatch "map" data)
    | .list e _ =>
      match data with
      | .list xs => do
        let filled ← insideList (items (fun x => calls.assign x e.zero) 0 xs)
        pure (.list e filled)
      | _ => fail (Binding.mismatch "list" data)
    | _ => lift (Binding.scalar data target)

/-- Fills a map whose keys name the members of a family. -/
def byName (calls : Calls) (f : Factory) (family : Family) (member : Platform → Variant)
    (unknown : String → Cause) (data : Data) (target : Value) : StateWalk Value :=
  match data with
  | .map es =>
    match target with
    | .map (.oneOf g) _ =>
      if g = family then do
        let member? key := (Platform.ofName? key).map fun p => (member p).zero
        let filled ← insideMap (members member? unknown calls.assign es [])
        pure (.map (.oneOf g) filled)
      else fail (.factoryTarget f.name)
    | _ => fail (.factoryTarget f.name)
  | _ => fail (Binding.mismatch "map" data)

/-- Fills a value by a factory. -/
def fill (calls : Calls) (f : Factory) (data : Data) (target : Value) : StateWalk Value :=
  match f with
  | .actions =>
    match data with
    | .list xs =>
      match target with
      | .list (.oneOf .action) _ => do
        let filled ← insideList (items calls.action 0 xs)
        pure (.list (.oneOf .action) filled)
      | _ => fail (.factoryTarget f.name)
    | _ => fail (Binding.mismatch "list" data)
  | .action =>
    match target with
    | .record (some (.action _)) _ => calls.action data
    | _ => fail (.factoryTarget f.name)
  | .sandboxes => byName calls f .sandbox .sandbox .unknownSandbox data target
  | .environments => byName calls f .environment .environment .unknownEnvironment data target

/-- Makes an action from an entry. -/
def action (calls : Calls) (entry : Data) : StateWalk Value := do
  let plan ← lift (Entry.read entry)
  let bound ← calls.assign (.map plan.payload) (Variant.action plan.kind).zero
  pure (plan.finish bound)

end StateWalk

namespace Calls

/-- Calls that count themselves, and make the calls of others. -/
def step (context : Context) (calls : Calls) : Calls :=
  ⟨fun data target => StateWalk.descend (StateWalk.assign context calls data target),
    fun f data target => StateWalk.descend (StateWalk.fill calls f data target),
    fun entry => StateWalk.descend (StateWalk.action calls entry)⟩

/-- The calls above others, which are `n` calls further down. -/
def level (context : Context) (below : Calls) : Nat → Calls
  | 0 => below
  | n + 1 => step context (level context below n)

end Calls

namespace StateWalk

/-! ## §3 Agreement -/

variable {α β : Type}

/-- What a walk comes to, with the state as it was but for the location and the peak. -/
def entered (b : WalkState) (peak : Nat) :
    EStateM.Result Error Location α → EStateM.Result Error WalkState α
  | .ok x reached => .ok x { b with location := reached, peak := peak }
  | .error e reached => .error e { b with location := reached, peak := peak }

/-- Whether a walk that changes the state goes as a walk does, in a document and with so many calls
    open: it comes to the same and leaves the state as it was, but for the location. No more calls
    are open meanwhile than may be. -/
def Agrees (document : Path) (depth : Nat) (k : StateWalk α) (w : Walk α) : Prop :=
  ∀ b : WalkState, b.document = document → b.depth = depth →
    ∃ peak ≤ max b.peak maxDepth, k b = entered b peak (w b.location)

namespace Agrees

variable {path : Path} {n : Nat} {k : StateWalk α} {w : Walk α}

theorem pure (x : α) : Agrees path n (pure x) (pure x) :=
  fun b _ _ => ⟨b.peak, le_max_left _ _, rfl⟩

theorem fail (cause : Cause) :
    Agrees path n (StateWalk.fail cause : StateWalk α) (Walk.fail cause) :=
  fun b _ _ => ⟨b.peak, le_max_left _ _, rfl⟩

theorem lift (x : Except Cause α) : Agrees path n (StateWalk.lift x) (Walk.lift x) := by
  cases x with
  | ok x => exact pure x
  | error cause => exact fail cause

theorem move (step : Location → Location) :
    Agrees path n (StateWalk.move step) (modify step : Walk Unit) :=
  fun b _ _ => ⟨b.peak, le_max_left _ _, rfl⟩

theorem bind {f : α → StateWalk β} {g : α → Walk β} (hk : Agrees path n k w)
    (hf : ∀ x, Agrees path n (f x) (g x)) : Agrees path n (k >>= f) (w >>= g) := by
  intro b hdocument hdepth
  obtain ⟨peak, hpeak, heq⟩ := hk b hdocument hdepth
  simp only [Bind.bind, EStateM.bind, heq]
  cases w b.location with
  | error e reached => exact ⟨peak, hpeak, rfl⟩
  | ok x reached =>
    -- the rest goes on from states that differ in the location and the peak alone
    obtain ⟨peak', hpeak', heq'⟩ :=
      hf x { b with location := reached, peak := peak } hdocument hdepth
    refine ⟨peak', hpeak'.trans (max_le hpeak (le_max_right _ _)), ?_⟩
    exact heq'

/-- The document is the one of the state. -/
theorem document {f : Path → StateWalk α} (h : Agrees path n (f path) w) :
    Agrees path n (StateWalk.document >>= f) w := by
  rintro b rfl hdepth
  exact h b rfl hdepth

/-- The state knows the document that an error is located in. -/
theorem located (h : Agrees path n k w) :
    Agrees path n (StateWalk.located k) (Walk.located path w) := by
  rintro b rfl hdepth
  obtain ⟨peak, hpeak, heq⟩ := h b rfl hdepth
  refine ⟨peak, hpeak, ?_⟩
  simp only [StateWalk.located, Walk.located, heq]
  cases w b.location <;> rfl

/-- Another document is left again. -/
theorem inDocument {other : Path} (h : Agrees other n k w) :
    Agrees path n (StateWalk.inDocument other k) (Walk.located other w) := by
  rintro b - hdepth
  obtain ⟨peak, hpeak, heq⟩ := h.located { b with document := other } rfl hdepth
  refine ⟨peak, hpeak, ?_⟩
  simp only [StateWalk.inDocument, heq]
  cases Walk.located other w b.location <;> rfl

/-- A call is discounted when it comes back. -/
theorem descend (hn : n < maxDepth) (h : Agrees path (n + 1) k w) :
    Agrees path n (StateWalk.descend k) w := by
  rintro b hdocument rfl
  obtain ⟨peak, hpeak, heq⟩ := h { b with depth := b.depth + 1, peak := max b.peak (b.depth + 1) }
    hdocument rfl
  have hopen : max b.peak (b.depth + 1) ≤ max b.peak maxDepth := by omega
  refine ⟨peak, hpeak.trans (max_le hopen (le_max_right _ _)), ?_⟩
  simp only [StateWalk.descend, if_pos hn, heq]
  cases w b.location <;> rfl

/-- A call too many is refused. -/
theorem refused (hn : maxDepth ≤ n) :
    Agrees path n (StateWalk.descend k) (Walk.fail (.tooDeep maxDepth)) := by
  rintro b - rfl
  refine ⟨b.peak, le_max_left _ _, ?_⟩
  simp only [StateWalk.descend, if_neg (not_lt.mpr hn)]
  rfl

theorem insideMap (h : Agrees path n k w) : Agrees path n (StateWalk.insideMap k) w.insideMap :=
  bind (move _) fun _ => bind h fun x => bind (move _) fun _ => pure x

theorem insideList (h : Agrees path n k w) : Agrees path n (StateWalk.insideList k) w.insideList :=
  bind (move _) fun _ => bind h fun x => bind (move _) fun _ => pure x

end Agrees

end StateWalk

/-- Whether calls, with so many of them open, agree with what a walk may call. -/
structure Calls.Agree (n : Nat) (c : Calls) (d : Deeper) : Prop where
  assign : ∀ path data target,
    StateWalk.Agrees path n (c.assign data target) (d.assign path data target)
  fill : ∀ f path data target,
    StateWalk.Agrees path n (c.fill f data target) (d.fill f path data target)
  action : ∀ path entry, StateWalk.Agrees path n (c.action entry) (d.action path entry)

namespace StateWalk

/-! ## §4 The functions of binding -/

variable {α : Type} {context : Context} {calls : Calls} {deeper : Deeper} {path : Path} {n : Nat}

theorem items_agree {make : α → StateWalk Value} {make' : α → Walk Value}
    (h : ∀ x, Agrees path n (make x) (make' x)) (index : Nat) (xs : List α) :
    Agrees path n (items make index xs) (Binding.items make' index xs) := by
  induction xs generalizing index with
  | nil => exact .pure _
  | cons x rest ih =>
    exact .bind (.move _) fun _ => .bind (h x) fun v => .bind (ih _) fun vs => .pure _

theorem entries_agree {fill : α → Value → StateWalk Value} {fill' : α → Value → Walk Value}
    (h : ∀ x v, Agrees path n (fill x v) (fill' x v)) (element : Shape) (xs : List (String × α))
    (filled : List (String × Value)) :
    Agrees path n (entries element fill xs filled) (Binding.entries element fill' xs filled) := by
  induction xs generalizing filled with
  | nil => exact .pure _
  | cons e rest ih =>
    exact .bind (.move _) fun _ => .bind (h _ _) fun v => ih _

theorem members_agree {fill : Data → Value → StateWalk Value} {fill' : Data → Value → Walk Value}
    (h : ∀ x v, Agrees path n (fill x v) (fill' x v)) (member? : String → Option Value)
    (unknown : String → Cause) (es : List (String × Data)) (filled : List (String × Value)) :
    Agrees path n (members member? unknown fill es filled)
      (Binding.members member? unknown fill' es filled) := by
  induction es generalizing filled with
  | nil => exact .pure _
  | cons e rest ih =>
    obtain ⟨key, x⟩ := e
    refine .bind (.move _) fun _ => ?_
    cases member? key with
    | none => exact .fail _
    | some zero => exact .bind (h _ _) fun v => ih _

theorem checkKeys_agree (data : List (String × Data)) (slots : Slots) :
    Agrees path n (checkKeys data slots) (Binding.checkKeys path data slots) := by
  refine .bind (.located (.lift _)) fun names => ?_
  cases data.find? fun e => !names.contains e.1 with
  | none => exact .pure _
  | some e => exact .bind (.move _) fun _ => .located (.fail _)

section

variable (h : calls.Agree n deeper)

include h

/-- Documents that are loaded become the document of the state for as long as they are bound, and
    the one from before is put back. -/
theorem loaded_agree (pattern : String) (target : Value) :
    Agrees path n (loaded context calls pattern target)
      (Binding.loaded context deeper path pattern target) := by
  refine .document (.bind (.lift _) fun documents => ?_)
  have hfill (d : Document) (v : Value) : Agrees path n
      (inDocument d.path (calls.assign (.map d.entries) v))
      (Walk.located d.path (deeper.assign d.path (.map d.entries) v)) :=
    .inDocument (h.assign _ _ _)
  cases target with
  | list e _ => exact .bind (.insideList (items_agree (fun d => hfill d _) _ _)) fun _ => .pure _
  | map e _ => exact .bind (.insideMap (entries_agree hfill _ _ _)) fun _ => .pure _
  | _ => exact .fail _

theorem value_agree (d : Directives) (data : Data) (target : Value) :
    Agrees path n (value context calls d data target)
      (Binding.value context deeper path d data target) := by
  have hplain : Agrees path n
      (do
        lift (Binding.checkValue d data)
        if d.isPath then do
          let path ← document
          lift (Binding.existingPath context path data target)
        else calls.assign data target)
      (do
        Walk.lift (Binding.checkValue d data)
        if d.isPath then Walk.lift (Binding.existingPath context path data target)
        else deeper.assign path data target) := by
    refine .bind (.lift _) fun _ => ?_
    split
    · exact .document (.lift _)
    · exact h.assign _ _ _
  unfold value Binding.value
  cases data with
  | text pattern =>
    simp only
    split
    · exact loaded_agree h _ _
    · exact hplain
  | _ => exact hplain

omit h in
/-- A record is bound inside a map, after its keys are checked where they are. -/
theorem recordInside_agree_of {data : List (String × Data)} {slots : Slots}
    (h : Agrees path n (fields context calls data slots)
      (Binding.fields context deeper path data slots)) :
    Agrees path n (recordInside context calls data slots)
      (Binding.recordInside context deeper path data slots) := by
  unfold recordInside Binding.recordInside
  apply Agrees.insideMap
  cases context.strict with
  | false => exact h
  | true => exact .bind (checkKeys_agree _ _) fun _ => h

end

mutual
/-- Fields agree, whatever their tags ask for. -/
theorem field_agree (h : calls.Agree n deeper) (d : Directives) (data : Data) (target : Value) :
    Agrees path n (field context calls d data target)
      (Binding.field context deeper path d data target) := by
  unfold field Binding.field
  cases d.factory? with
  | some name =>
    simp only
    cases context.factories.get? name with
    | some f => exact h.fill _ _ _ _
    | none => exact .fail _
  | none =>
    cases d.string? with
    | none => exact value_agree h _ _ _
    | some sub =>
      cases data with
      | text s =>
        cases target with
        | record variant slots =>
          exact .bind (recordInside_agree_of (fields_agree h _ slots)) fun _ => .pure _
        | _ => exact value_agree h _ _ _
      | map es =>
        cases target with
        | map e old =>
          simp only
          split
          · exact value_agree h _ _ _
          · exact value_agree h _ _ _
        | _ => exact value_agree h _ _ _
      | _ => exact value_agree h _ _ _
/-- Fields agree one after the other, by induction on the slots. -/
theorem fields_agree (h : calls.Agree n deeper) (data : List (String × Data)) :
    (slots : Slots) → Agrees path n (fields context calls data slots)
      (Binding.fields context deeper path data slots)
  | [] => by
    rw [fields, Binding.fields]
    exact .pure _
  | (f, target) :: rest => by
    rw [fields, Binding.fields]
    refine .bind (.located (.lift _)) fun d => .bind (.move _) fun _ => ?_
    refine .bind (.located ?_) fun bound => .bind (fields_agree h _ rest) fun _ => .pure _
    cases target with
    | absent => exact .fail _
    | _ =>
      simp only
      cases Keyed.get? (Binding.documentName f d) data with
      | none => exact .lift _
      | some x =>
        cases x with
        | null => exact .lift _
        | _ => exact field_agree h _ _ _
end

section

variable (h : calls.Agree n deeper)

include h

theorem assign_agree (data : Data) (target : Value) :
    Agrees path n (assign context calls data target)
      (Binding.assign context deeper path data target) := by
  unfold assign Binding.assign
  cases data with
  | null => exact .pure _
  | _ =>
    cases target with
    | record variant slots =>
      first
        | exact .bind (recordInside_agree_of (fields_agree h _ _)) fun _ => .pure _
        | exact .fail _
    | map e old =>
      first
        | exact .bind (.insideMap (entries_agree (h.assign _) _ _ _)) fun _ => .pure _
        | exact .fail _
    | list e old =>
      first
        | exact .bind (.insideList (items_agree (fun x => h.assign _ x _) _ _)) fun _ => .pure _
        | exact .fail _
    | _ => exact .lift _

theorem byName_agree (f : Factory) (family : Family) (member : Platform → Variant)
    (unknown : String → Cause) (data : Data) (target : Value) :
    Agrees path n (byName calls f family member unknown data target)
      (Binding.byName deeper f family member unknown path data target) := by
  have hmap (es : List (String × Data)) (e : Shape) (old : List (String × Value)) :
      Agrees path n (byName calls f family member unknown (.map es) (.map e old))
        (Binding.byName deeper f family member unknown path (.map es) (.map e old)) := by
    cases e with
    | oneOf g =>
      simp only [byName, Binding.byName]
      split
      · exact .bind (.insideMap (members_agree (h.assign _) _ _ _ _)) fun _ => .pure _
      · exact .fail _
    | _ => exact .fail _
  cases data with
  | map es =>
    cases target with
    | map e old => exact hmap es e old
    | _ => exact .fail _
  | _ => exact .fail _

theorem fill_agree (f : Factory) (data : Data) (target : Value) :
    Agrees path n (fill calls f data target) (Binding.fill deeper f path data target) := by
  cases f with
  | actions =>
    have hlist (xs : List Data) (e : Shape) (old : List Value) :
        Agrees path n (fill calls .actions (.list xs) (.list e old))
          (Binding.fill deeper .actions path (.list xs) (.list e old)) := by
      cases e with
      | oneOf family =>
        cases family with
        | action => exact .bind (.insideList (items_agree (h.action _) _ _)) fun _ => .pure _
        | _ => exact .fail _
      | _ => exact .fail _
    cases data with
    | list xs =>
      cases target with
      | list e old => exact hlist xs e old
      | _ => exact .fail _
    | _ => exact .fail _
  | action =>
    cases target with
    | record variant slots =>
      rcases variant with _ | variant
      · exact .fail _
      · cases variant with
        | action kind => exact h.action _ _
        | _ => exact .fail _
    | _ => exact .fail _
  | sandboxes => exact byName_agree h _ _ _ _ _ _
  | environments => exact byName_agree h _ _ _ _ _ _

/-- Making an action agrees: the plan is the same, and its payload is bound below. -/
theorem action_agree (entry : Data) :
    Agrees path n (action calls entry) (Binding.action deeper path entry) :=
  .bind (.lift _) fun _ => .bind (h.assign _ _ _) fun _ => .pure _

end

end StateWalk

namespace Calls

variable {context : Context} {n : Nat}

/-- While a call more may be open, making one goes down a level. -/
theorem Agree.step {calls : Calls} {deeper : Deeper} (hn : n < maxDepth)
    (h : calls.Agree (n + 1) deeper) :
    (Calls.step context calls).Agree n (Deeper.step context deeper) where
  assign _ data target := .descend hn (StateWalk.assign_agree h data target)
  fill f _ data target := .descend hn (StateWalk.fill_agree h f data target)
  action _ entry := .descend hn (StateWalk.action_agree h entry)

/-- Where all calls that may be open are open, another one is refused, as on the lowest level. -/
theorem step_refused (hn : maxDepth ≤ n) (calls : Calls) :
    (Calls.step context calls).Agree n Deeper.bottom where
  assign _ _ _ := .refused hn
  fill _ _ _ _ := .refused hn
  action _ _ := .refused hn

/-- Calls that change the state agree with the levels that are left, if there are more of them than
    levels; what is below of them is never called. -/
theorem level_agree (context : Context) (below : Calls) {m : Nat} (h : maxDepth - n < m) :
    (level context below m).Agree n (Deeper.level context (maxDepth - n)) := by
  induction m generalizing n with
  | zero => exact absurd h (Nat.not_lt_zero _)
  | succ m ih =>
    by_cases hn : n < maxDepth
    · obtain ⟨left, hleft⟩ : ∃ left, maxDepth - n = left + 1 := Nat.exists_eq_add_one.mpr (by omega)
      have hbelow : maxDepth - (n + 1) = left := by omega
      have hcalls := ih (n := n + 1) (by omega)
      rw [hbelow] at hcalls
      rw [hleft]
      exact hcalls.step hn
    · rw [Nat.sub_eq_zero_of_le (not_lt.mp hn)]
      exact step_refused (not_lt.mp hn) _

end Calls

namespace Walker

variable {α : Type}

/-! ## §5 Walkers -/

/-- After a walk as many calls are open as before it. -/
theorem depth_run (w : Walker) (walk : Deeper → Path → Walk α) :
    (w.run walk).2.depth = w.depth := by
  unfold run
  cases walk (Deeper.level w.context (maxDepth - w.depth)) w.document w.location <;> rfl

/-- The state that a walker begins with. -/
def state (w : Walker) : WalkState :=
  ⟨w.location, w.document, w.depth, w.depth⟩

/-- Runs a walk that changes the state, with any calls below those that may be open. -/
def runState (w : Walker) (below : Calls) (walk : Calls → StateWalk α) :
    Except Error α × WalkState :=
  match walk (Calls.level w.context below (maxDepth + 1)) w.state with
  | .ok x b => (.ok x, b)
  | .error e b => (.error e, b)

/-- A walk that changes the state comes to the same and leaves the walker at the same place; all
    else in the state is as before. -/
theorem runState_eq_run (w : Walker) (below : Calls) {k : Calls → StateWalk α}
    {walk : Deeper → Path → Walk α}
    (h : StateWalk.Agrees w.document w.depth (k (Calls.level w.context below (maxDepth + 1)))
      (walk (Deeper.level w.context (maxDepth - w.depth)) w.document)) :
    ∃ peak ≤ max w.depth maxDepth,
      w.runState below k =
        ((w.run walk).1, { w.state with location := (w.run walk).2.location, peak }) := by
  obtain ⟨peak, hpeak, heq⟩ := h w.state rfl rfl
  refine ⟨peak, hpeak, ?_⟩
  have hlocation : w.state.location = w.location := rfl
  rw [hlocation] at heq
  simp only [runState, run, heq]
  cases walk (Deeper.level w.context (maxDepth - w.depth)) w.document w.location <;> rfl

/-- The calls that a walker makes agree with the levels it has left. -/
theorem calls_agree (w : Walker) (below : Calls) :
    (Calls.level w.context below (maxDepth + 1)).Agree w.depth
      (Deeper.level w.context (maxDepth - w.depth)) :=
  Calls.level_agree w.context below (by omega)

/-- Making an action restores the state but for the location. -/
theorem runState_action (w : Walker) (below : Calls) (entry : Data) :
    ∃ peak ≤ max w.depth maxDepth,
      w.runState below (·.action entry) =
        ((w.action entry).1, { w.state with location := (w.action entry).2.location, peak }) :=
  w.runState_eq_run below ((w.calls_agree below).action w.document entry)

end Walker

end Testbed
