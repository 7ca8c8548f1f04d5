import Testbed.Proofs.Binding.Parts
import Testbed.Proofs.Binding.Visits
import Testbed.Proofs.Rig.Located

/-!
# Where walks stop

A walk keeps its location in step with what it does: it opens a frame for every map and every list,
moves on from entry to entry and from item to item, and closes the frame behind it; but where it is
stopped it leaves the frames open. `Follows` says that a walk goes by a list of visits: it has a
result where none of them fails, and is then at a place that is known; and otherwise it is stopped
by the first that fails, with the location of the route of that visit.

Values are literal if the fields inside of them leave everything to the document that is walked.
Walks that fill literal values go by `visits` (`Deeper.level_follows`); so an error of such a walk
leads to its cause, and everything that is visited before is in order (`Walker.config_visits`).
-/

namespace Testbed

open Binding Walk Value

/-! ## §1 Literal values -/

/-- Whether a field is bound from what is under its name: no factory fills it, nothing is loaded for
    it, and no bare text stands for a record in it. -/
def Field.isLiteral (f : Field) : Bool :=
  match directives f with
  | .ok d => d.factory?.isNone && !d.isLoadable && d.string?.isNone
  | .error _ => true

/-- A field is literal if its tag asks for no factory, loads nothing and takes no bare text. -/
theorem Field.isLiteral_iff {f : Field} {d : Directives} (hd : directives f = .ok d) :
    f.isLiteral = true ↔ d.factory? = none ∧ d.isLoadable = false ∧ d.string? = none := by
  simp [Field.isLiteral, hd, and_assoc]

/-- Whether all fields inside of a value are bound from what is under their names. Items and entries
    are bound anew, so only those that the shape of a list or a map makes count. -/
inductive Value.IsLiteral : Value → Prop
  | bool (b : Bool) : IsLiteral (bool b)
  | int (w : IntWidth) (n : Int) : IsLiteral (int w n)
  | float (w : FloatWidth) (x : Number.Binary) : IsLiteral (float w x)
  | text (s : String) : IsLiteral (text s)
  | list {e : Shape} (items : List Value) (he : IsLiteral e.zero) : IsLiteral (list e items)
  | map {e : Shape} (entries : List (String × Value)) (he : IsLiteral e.zero) :
      IsLiteral (map e entries)
  | record (variant : Option Variant) {slots : Slots}
      (hfields : ∀ f v, (f, v) ∈ slots → f.isLiteral = true)
      (hvalues : ∀ f v, (f, v) ∈ slots → IsLiteral v) : IsLiteral (record variant slots)
  | absent : IsLiteral absent

mutual
/-- Whether all fields inside of a shape are bound from what is under their names. Families are left
    out: it takes a value to say which fields a member has. -/
def Shape.isLiteral : Shape → Bool
  | .list e => e.isLiteral
  | .map e => e.isLiteral
  | .record fields => literalFields fields
  | .oneOf _ => false
  | _ => true
/-- Whether all fields, and those inside of them, are bound from what is under their names. -/
def literalFields : Fields → Bool
  | [] => true
  | (f, s) :: rest => f.isLiteral && s.isLiteral && literalFields rest
end

mutual
/-- Values of a literal shape have only literal fields. -/
theorem Value.Built.isLiteral {v : Value} : (s : Shape) → Built v s → s.isLiteral = true →
    v.IsLiteral
  | .bool, .bool b, _ => .bool b
  | .int _, .int w n, _ => .int w n
  | .float _, .float w x, _ => .float w x
  | .text, .text raw, _ => .text raw
  | .absent, .absent, _ => .absent
  | .list e, .list _, he => .list _ (Built.isLiteral e (built_zero e) he)
  | .map e, .map _ _, he => .map _ (Built.isLiteral e (built_zero e) he)
  | .record fields, .record hslots, hfields =>
    have h := SlotsBuilt.isLiteral fields hslots hfields
    .record none (fun f v hv => (h f v hv).1) fun f v hv => (h f v hv).2
/-- Slots of literal fields are literal, with all that is inside. -/
theorem Value.SlotsBuilt.isLiteral {slots : Slots} : (fields : Fields) → SlotsBuilt slots fields →
    literalFields fields = true → ∀ f v, (f, v) ∈ slots → f.isLiteral = true ∧ v.IsLiteral
  | [], .nil, _ => fun _ _ hv => by cases hv
  | (f, s) :: rest, .cons hv hslots, h => by
    simp only [literalFields, Bool.and_eq_true] at h
    intro g w hw
    rcases List.mem_cons.mp hw with heq | hw
    · obtain ⟨rfl, rfl⟩ := Prod.mk.inj heq
      exact ⟨h.1.1, Built.isLiteral s hv h.1.2⟩
    · exact SlotsBuilt.isLiteral rest hslots h.2 g w hw
end

/-! ## §2 Locations of routes -/

/-- The frame that is open after a step. -/
def Step.frame : Step → Frame
  | .key name => .field (some name)
  | .index i => .index (some i)

namespace Location

/-- The location of what is at a route. -/
def of (r : Route) : Location := ⟨(r.map Step.frame).reverse⟩

/-- Whether a location is one in the map at a route. -/
def InMap (r : Route) (l : Location) : Prop :=
  ∃ name, l = ⟨.field name :: (of r).frames⟩

/-- Whether a location is one in the list at a route. -/
def InList (r : Route) (l : Location) : Prop :=
  ∃ position, l = ⟨.index position :: (of r).frames⟩

variable {r : Route} {l : Location}

/-- The location of a longer route has one frame more. -/
theorem of_append (r : Route) (t : Step) : of (r ++ [t]) = ⟨t.frame :: (of r).frames⟩ := by
  simp [of]

theorem inMap_of (r : Route) (name : String) : InMap r (of (r ++ [.key name])) :=
  ⟨some name, of_append r _⟩

theorem inList_of (r : Route) (i : Nat) : InList r (of (r ++ [.index i])) :=
  ⟨some i, of_append r _⟩

theorem InMap.atField (h : InMap r l) (name : String) : l.atField name = of (r ++ [.key name]) := by
  obtain ⟨old, rfl⟩ := h
  exact (of_append r (.key name)).symm

theorem InList.atIndex (h : InList r l) (i : Nat) : l.atIndex i = of (r ++ [.index i]) := by
  obtain ⟨old, rfl⟩ := h
  exact (of_append r (.index i)).symm

theorem InMap.close (h : InMap r l) : l.close = of r := by
  obtain ⟨old, rfl⟩ := h
  rfl

theorem InList.close (h : InList r l) : l.close = of r := by
  obtain ⟨old, rfl⟩ := h
  rfl

end Location

/-! ## §3 Walks by visits -/

namespace Visit

/-- The route and the cause of a visit that fails. -/
def failure? (v : Visit) : Option (Route × Cause) :=
  match v.check with
  | .ok _ => none
  | .error cause => some (v.route, cause)

/-- The first visit that fails. -/
def firstFailure? (vs : List Visit) : Option (Route × Cause) :=
  vs.findSome? failure?

variable {vs vs' : List Visit} {r : Route} {cause : Cause}

/-- Of visits one after the other, the first failure is that of the first part, if there is one. -/
theorem firstFailure?_append :
    firstFailure? (vs ++ vs') = (firstFailure? vs).or (firstFailure? vs') :=
  List.findSome?_append

/-- Before the first visit that fails all are in order. -/
theorem exists_before_of_firstFailure? (h : firstFailure? vs = some (r, cause)) :
    ∃ before after, vs = before ++ ⟨r, .error cause⟩ :: after ∧
      ∀ v ∈ before, v.check = .ok () := by
  induction vs with
  | nil => cases h
  | cons v rest ih =>
    obtain ⟨route, check⟩ := v
    cases check with
    | error c =>
      obtain ⟨rfl, rfl⟩ := Prod.mk.inj (Option.some.inj h)
      exact ⟨[], rest, rfl, by simp⟩
    | ok u =>
      obtain ⟨before, after, rfl, hbefore⟩ := ih h
      exact ⟨⟨route, .ok u⟩ :: before, after, rfl, List.forall_mem_cons.mpr ⟨rfl, hbefore⟩⟩

end Visit

/-- Whether an error comes of a cause at a route. If the declarations are not to blame, it is
    located there, or the walk has stopped there. -/
def Error.IsOf (document : Path) (r : Route) (cause : Cause) (stopped : Location) (e : Error) :
    Prop :=
  e.root = cause ∧ (cause.blamesSchema = false →
    e = .located document (Location.of r).text (.cause cause) ∨
      e = .cause cause ∧ stopped = Location.of r)

namespace Walk

variable {α β : Type}

/-- Whether a walk from a location goes by visits: it has a result where none of them fails, and
    ends at one of some places; otherwise it is stopped by the first that fails. -/
def Follows (document : Path) (vs : List Visit) (P : Location → Prop) (l : Location)
    (w : Walk α) : Prop :=
  match w l with
  | .ok _ m => Visit.firstFailure? vs = none ∧ P m
  | .error e m => ∃ r cause, Visit.firstFailure? vs = some (r, cause) ∧ e.IsOf document r cause m

namespace Follows

variable {document : Path} {vs vs' : List Visit} {P Q : Location → Prop} {l : Location}
  {w : Walk α} {r : Route}

theorem pure (x : α) (h : P l) : Follows document [] P l (Pure.pure x) :=
  ⟨rfl, h⟩

theorem bind {f : α → Walk β} (hw : Follows document vs P l w)
    (hf : ∀ x m, P m → Follows document vs' Q m (f x)) :
    Follows document (vs ++ vs') Q l (w >>= f) := by
  unfold Follows at hw ⊢
  simp only [Bind.bind, EStateM.bind]
  cases hl : w l with
  | ok x m =>
    rw [hl] at hw
    -- nothing has failed so far, so the rest counts
    have hrest := hf x m hw.2
    unfold Follows at hrest
    simp only [Visit.firstFailure?_append, hw.1, Option.none_or]
    exact hrest
  | error e m =>
    rw [hl] at hw
    obtain ⟨r, cause, hfirst, he⟩ := hw
    exact ⟨r, cause, by rw [Visit.firstFailure?_append, hfirst, Option.some_or], he⟩

/-- What visits nothing may follow. -/
theorem andThen {f : α → Walk β} (hw : Follows document vs P l w)
    (hf : ∀ x m, P m → Follows document [] Q m (f x)) : Follows document vs Q l (w >>= f) := by
  have h := hw.bind hf
  rwa [List.append_nil] at h

theorem map (f : α → β) (hw : Follows document vs P l w) :
    Follows document vs P l (w >>= fun x => Pure.pure (f x)) :=
  hw.andThen fun x _ hm => .pure (f x) hm

/-- Visits whose first failure is the same do not differ. -/
theorem congr (h : Follows document vs P l w)
    (heq : Visit.firstFailure? vs = Visit.firstFailure? vs') : Follows document vs' P l w := by
  unfold Follows at h ⊢
  rwa [← heq]

/-- Where a walk is stopped in any case, nothing of the rest is visited. -/
theorem stop {f : α → Walk β} (h : Follows document vs (fun _ => False) l w) :
    Follows document vs P l (w >>= f) :=
  h.andThen fun _ _ hm => hm.elim

/-- Moving the location fails nowhere. -/
theorem move {step : Location → Location} {f : Unit → Walk β}
    (h : Follows document vs P (step l) (f ())) :
    Follows document vs P l ((modify step : Walk Unit) >>= f) :=
  h

theorem lift {x : Except Cause α} :
    Follows document [Visit.of r x] (· = .of r) (.of r) (Walk.lift x) := by
  cases x with
  | ok a => exact ⟨rfl, rfl⟩
  | error cause => exact ⟨r, cause, rfl, rfl, fun _ => .inr ⟨rfl, rfl⟩⟩

theorem fail (cause : Cause) :
    Follows document [⟨r, .error cause⟩] P (.of r) (Walk.fail cause : Walk α) :=
  ⟨r, cause, rfl, rfl, fun _ => .inr ⟨rfl, rfl⟩⟩

/-- Where the declarations are to blame, it does not matter where the walk is. -/
theorem blame {cause : Cause} (h : cause.blamesSchema = true) :
    Follows document [⟨r, .error cause⟩] P l (Walk.fail cause : Walk α) :=
  ⟨r, cause, rfl, rfl, fun hblameless => by simp [h] at hblameless⟩

theorem located (h : Follows document vs P l w) :
    Follows document vs P l (w.located document) := by
  unfold Follows at h ⊢
  simp only [Walk.located]
  cases hl : w l with
  | ok x m =>
    rw [hl] at h
    exact h
  | error e m =>
    rw [hl] at h
    obtain ⟨r, cause, hfirst, rfl, hplace⟩ := h
    refine ⟨r, _, hfirst, Error.root_locate _ _ _, fun hblameless => .inl ?_⟩
    rcases hplace hblameless with he | ⟨he, rfl⟩
    · rw [he]
      rfl
    · rw [he]
      rfl

theorem insideMap (h : ∀ l, l.InMap r → Follows document vs (Location.InMap r) l w) :
    Follows document vs (· = .of r) (.of r) w.insideMap :=
  .move ((h _ ⟨none, rfl⟩).andThen fun _ _ hm => ⟨rfl, hm.close⟩)

theorem insideList (h : ∀ l, l.InList r → Follows document vs (Location.InList r) l w) :
    Follows document vs (· = .of r) (.of r) w.insideList :=
  .move ((h _ ⟨none, rfl⟩).andThen fun _ _ hm => ⟨rfl, hm.close⟩)

end Follows

end Walk

/-- Whether what a walk may call one level further down to fill literal values goes by visits. -/
def Deeper.Follows (document : Path) (below : Route → Data → Value → List Visit) (d : Deeper) :
    Prop :=
  ∀ r x target, x.Ordered → target.IsLiteral →
    Walk.Follows document (below r x target) (· = .of r) (.of r) (d.assign document x target)

namespace Binding

variable {α : Type} {context : Context} {deeper : Deeper} {document : Path} {r : Route}
  {below : Route → Data → Value → List Visit} {l : Location}

/-! ## §4 Items, entries and keys -/

theorem items_follows (h : deeper.Follows document below) {e : Shape} (he : e.zero.IsLiteral)
    (index : Nat) {xs : List Data} (hxs : ∀ x ∈ xs, x.Ordered) (hl : l.InList r) :
    Follows document (Visit.items below r e.zero index xs) (Location.InList r) l
      (items (fun x => deeper.assign document x e.zero) index xs) := by
  induction xs generalizing index l with
  | nil => exact .pure _ hl
  | cons x rest ih =>
    obtain ⟨hx, hrest⟩ := List.forall_mem_cons.mp hxs
    refine .move ?_
    rw [hl.atIndex]
    refine (h _ x _ hx he).bind fun v m hm => ?_
    subst hm
    exact (ih _ hrest (Location.inList_of r index)).map _

/-- Entries are visited in the order of their keys, each bound into a new value. -/
theorem entries_follows (h : deeper.Follows document below) {e : Shape} (he : e.zero.IsLiteral)
    {es : List (String × Data)} (hes : Keyed.Ordered es) (hinside : ∀ k x, (k, x) ∈ es → x.Ordered)
    {filled : List (String × Value)} (hfilled : Keyed.Before filled es) (hl : l.InMap r) :
    Follows document (Visit.entries below r e.zero es) (Location.InMap r) l
      (entries e (deeper.assign document) es filled) := by
  induction es generalizing filled l with
  | nil => exact .pure _ hl
  | cons entry rest ih =>
    obtain ⟨key, x⟩ := entry
    refine .move ?_
    rw [hl.atField, hfilled.get?_eq_none, Option.getD_none]
    refine (h _ x _ (hinside _ _ List.mem_cons_self) he).bind fun v m hm => ?_
    subst hm
    rw [hfilled.insert]
    exact ih (Keyed.ordered_cons.mp hes).2 (fun k x hx => hinside k x (List.mem_cons_of_mem _ hx))
      (hfilled.append hes v) (Location.inMap_of r key)

/-- The first key without a field is the first one whose visit fails. -/
theorem firstFailure?_keys (names : List String) (r : Route) (es : List (String × Data)) :
    Visit.firstFailure? (es.map fun e => Visit.key names r e.1) =
      (es.find? fun (key, _) => !names.contains key).map
        fun e => (r ++ [.key e.1], .unknownKey e.1) := by
  induction es with
  | nil => rfl
  | cons e rest ih =>
    obtain ⟨key, x⟩ := e
    rw [List.map_cons, List.find?_cons, Visit.key]
    simp only
    cases names.contains key with
    | true => exact ih
    | false => rfl

/-- The check of keys visits them in their order, up to the first that names no field. -/
theorem checkKeys_follows (es : List (String × Data)) (slots : Slots) (hl : l.InMap r) :
    Follows document (Visit.keys r es slots) (Location.InMap r) l
      (checkKeys document es slots) := by
  cases hnames : documentNames slots with
  | error cause =>
    rw [checkKeys, checkNames, Visit.keys, hnames]
    exact .stop (.located (.blame (documentNames_blamesSchema slots cause hnames)))
  | ok names =>
    have hlookup : located document (lift (.ok names)) = pure names := rfl
    have hkeys := firstFailure?_keys names r es
    rw [checkKeys, checkNames, Visit.keys, hnames, hlookup, pure_bind]
    simp only
    split
    · next hfind =>
      -- nothing is moved where all names are known
      rw [hfind] at hkeys
      exact ⟨hkeys, hl⟩
    · next key x hfind =>
      -- the walk looks for the key without visiting those before it, which are in order
      rw [hfind] at hkeys
      have hkey : Follows document [⟨r ++ [.key key], .error (.unknownKey key)⟩]
          (Location.InMap r) l (do
            modify (Location.atField key)
            located document (fail (.unknownKey key) : Walk Unit)) := by
        refine .move ?_
        rw [hl.atField]
        exact .located (.fail _)
      exact hkey.congr hkeys.symm

/-! ## §5 Fields and values -/

/-- What nothing is loaded for is checked and bound. -/
theorem value_eq {d : Directives} (hload : d.isLoadable = false) (x : Data) (target : Value) :
    value context deeper document d x target = (do
      Walk.lift (checkValue d x)
      if d.isPath then Walk.lift (existingPath context document x target)
      else deeper.assign document x target) := by
  cases x with
  | text s => simp only [value, hload, Bool.false_eq_true, if_false]
  | _ => rfl

section

variable {es : List (String × Data)} {f : Field} {d : Directives} {target : Value} {x : Data}

/-- What stands under the name of a literal field is checked, and then it is a path or goes one
    level further down. -/
theorem field_follows (h : deeper.Follows document below) (hfactory : d.factory? = none)
    (hload : d.isLoadable = false) (hstring : d.string? = none) (hx : x.Ordered)
    (ht : target.IsLiteral) :
    Follows document
      (.of r (checkValue d x) ::
        if d.isPath then [.of r (existingPath context document x target)] else below r x target)
      (· = .of r) (.of r) (field context deeper document d x target) := by
  have hbare : ¬ IsBare d target x := by
    rintro ⟨sub, raw, variant, slots, hsub, -, -⟩
    rw [hstring] at hsub
    cases hsub
  have htaken : taken d target x = x := by
    simp only [taken, hstring]
  have hbound : Follows document
      (if d.isPath then [.of r (existingPath context document x target)] else below r x target)
      (· = .of r) (.of r)
      (if d.isPath then lift (existingPath context document x target)
        else deeper.assign document x target) := by
    split
    · exact .lift
    · exact h r x target hx ht
  rw [field_value hfactory hbare, htaken, value_eq hload]
  refine (Follows.lift (x := checkValue d x)).bind fun u m hm => ?_
  rw [hm]
  exact hbound

/-- The walk of a slot stays at the name of its field. -/
theorem slot_follows (h : deeper.Follows document below) (hes : (Data.map es).Ordered)
    (hd : directives f = .ok d) (hf : f.isLiteral = true) (ht : target.IsLiteral) :
    Follows document (Visit.field context document below r es (f, target))
      (· = .of (r ++ [.key (documentName f d)])) (.of (r ++ [.key (documentName f d)]))
      (slot context deeper document es f d target) := by
  obtain ⟨hfactory, hload, hstring⟩ := (Field.isLiteral_iff hd).mp hf
  rw [Visit.field, hd]
  cases target with
  | absent => exact .blame rfl
  | _ =>
    simp only [slot]
    cases hpresent : present? (documentName f d) es with
    | none => exact .lift
    | some x =>
      have hx : Data.child? (.key (documentName f d)) (.map es) = some x :=
        (Option.filter_eq_some_iff.mp hpresent).1
      exact field_follows h hfactory hload hstring (hes.child? hx) ht

/-- Fields follow each other; a tag that cannot be read stops the walk wherever it is. -/
theorem fields_follows (h : deeper.Follows document below) (hes : (Data.map es).Ordered)
    {slots : Slots} (hfields : ∀ f v, (f, v) ∈ slots → f.isLiteral = true)
    (hvalues : ∀ f v, (f, v) ∈ slots → v.IsLiteral) (hl : l.InMap r) :
    Follows document (slots.flatMap (Visit.field context document below r es)) (Location.InMap r) l
      (fields context deeper document es slots) := by
  -- by induction on the slots, for any place in the map: where a field is left is one again
  induction slots generalizing l with
  | nil =>
    rw [fields]
    exact .pure _ hl
  | cons s rest ih =>
    obtain ⟨f, target⟩ := s
    have hrest {l : Location} (hl : l.InMap r) :=
      ih (fun f v hv => hfields f v (List.mem_cons_of_mem _ hv))
        (fun f v hv => hvalues f v (List.mem_cons_of_mem _ hv)) hl
    cases hd : directives f with
    | error cause =>
      have hstop : Follows document [⟨r, .error cause⟩] (Location.InMap r) l
          (fields context deeper document es ((f, target) :: rest)) := by
        rw [fields_cons, hd]
        exact .stop (.located (.blame (directives_blamesSchema f cause hd)))
      refine hstop.congr ?_
      rw [List.flatMap_cons, Visit.field, hd]
      rfl
    | ok d =>
      have hslot : Follows document (Visit.field context document below r es (f, target)) _ _ _ :=
        slot_follows h hes hd (hfields f target List.mem_cons_self)
          (hvalues f target List.mem_cons_self)
      rw [List.flatMap_cons, fields_cons_of_directives hd]
      refine .move ?_
      rw [hl.atField]
      refine hslot.located.bind fun v m hm => ?_
      rw [hm]
      exact (hrest (Location.inMap_of r _)).map _

/-- A record visits its keys first and then its fields, in the order of their declaration. -/
theorem recordInside_follows (h : deeper.Follows document below) (hes : (Data.map es).Ordered)
    {slots : Slots} (hfields : ∀ f v, (f, v) ∈ slots → f.isLiteral = true)
    (hvalues : ∀ f v, (f, v) ∈ slots → v.IsLiteral) :
    Follows document (Visit.record context document below r es slots) (· = .of r) (.of r)
      (recordInside context deeper document es slots) := by
  refine .insideMap fun l hl => ?_
  rw [Visit.record]
  split
  · exact (checkKeys_follows es slots hl).bind fun _ m hm => fields_follows h hes hfields hvalues hm
  · exact fields_follows h hes hfields hvalues hl

end

/-! ## §6 Levels -/

/-- Binding by a shape makes the visits of its kind of value, with those of the level below
    inside. -/
theorem assign_follows {n : Nat}
    (h : (Deeper.level context n).Follows document (visits context document n)) {x : Data}
    {target : Value} (hx : x.Ordered) (ht : target.IsLiteral) :
    Follows document (visits context document (n + 1) r x target) (· = .of r) (.of r)
      (assign context (Deeper.level context n) document x target) := by
  unfold assign visits
  -- null is bound to anything; otherwise it takes the kind of data that the value asks for
  cases hx with
  | null => exact .pure _ rfl
  | map hes hinside =>
    cases ht with
    | record variant hfields hvalues =>
      exact (recordInside_follows h (.map hes hinside) hfields hvalues).map _
    | map old he =>
      refine (Follows.insideMap fun l hl => ?_).map _
      exact entries_follows h he hes hinside (Keyed.before_nil _) hl
    | list old he => exact .fail _
    | _ => exact .lift
  | list hxs =>
    cases ht with
    | list old he =>
      refine (Follows.insideList fun l hl => ?_).map _
      exact items_follows h he 0 hxs hl
    | record variant hfields hvalues => exact .fail _
    | map old he => exact .fail _
    | _ => exact .lift
  | _ => cases ht <;> first | exact .fail _ | exact .lift

end Binding

/-- Walks that fill literal values go by their visits, however many levels are left. -/
theorem Deeper.level_follows (context : Context) (document : Path) (n : Nat) :
    (Deeper.level context n).Follows document (visits context document n) := by
  intro r x target hx ht
  induction n generalizing r x target with
  | zero => exact .fail _
  | succ n ih => exact assign_follows ih hx ht

/-! ## §7 Walks of documents -/

/-- Where the walk of a document fills a literal record and is stopped by an error that does not
    blame the declarations, the location leads to the cause: it is that of a route in the document,
    and the cause describes what is at its end. The visit there is the first of the walk that
    fails. -/
theorem Walker.config_visits (w : Walker) {path document : Path} {es : List (String × Data)}
    {variant : Option Variant} {slots : Slots} {location : String} {source : Error}
    (hes : (Data.map es).Ordered) (hliteral : (Value.record variant slots).IsLiteral)
    (he : (w.config path (.map es) (.record variant slots)).1 =
      .error (.located document location source))
    (hblameless : source.root.blamesSchema = false) :
    ∃ r cause x before after,
      document = path ∧ location = (Location.of r).text ∧ source = .cause cause ∧
        Data.at? r (.map es) = some x ∧ cause.Describes path r x ∧
        Visit.record w.context path (visits w.context path maxDepth) [] es slots =
          before ++ ⟨r, .error cause⟩ :: after ∧
        ∀ v ∈ before, v.check = .ok () := by
  rw [config_record] at he
  cases hliteral with
  | record variant hfields hvalues =>
    have hwalk : Follows path (Visit.record w.context path (visits w.context path maxDepth) [] es
        slots) (· = .of []) .outside
        (recordInside w.context (Deeper.level w.context maxDepth) path es slots) :=
      recordInside_follows (Deeper.level_follows w.context path maxDepth) hes hfields hvalues
    unfold Follows at hwalk
    split at hwalk
    · next hok =>
      rw [hok] at he
      cases he
    · next e m hstopped =>
      rw [hstopped] at he
      cases he
      obtain ⟨r, cause, hfirst, hroot, hplace⟩ := hwalk
      have hcause : cause.blamesSchema = false := hroot ▸ hblameless
      -- the walk has stopped at the first visit that fails, and the ones before it have passed
      obtain ⟨before, after, hvisits, hbefore⟩ := Visit.exists_before_of_firstFailure? hfirst
      have hmem : (⟨r, .error cause⟩ : Visit) ∈
          Visit.record w.context path (visits w.context path maxDepth) [] es slots := by
        simp [hvisits]
      -- the visits of data in order lead into it
      obtain ⟨q, x, hq, hx, hdescribes⟩ :=
        Visit.leads_of_mem_record Visit.leads_of_mem_visits hes hmem cause rfl hcause
      obtain rfl : r = q := hq
      rcases hplace hcause with heq | ⟨heq, -⟩
      · cases heq
        exact ⟨r, cause, x, before, after, rfl, rfl, rfl, hx, hdescribes, hvisits, hbefore⟩
      · -- an error that nothing is added to is not one with a location
        cases heq

/-- The second of two rules has an operator that does not exist. -/
theorem Walker.config_visits_operator :
    let w := Walker.fresh ⟨StoredFiles.empty.fileSystem, .standard, true⟩
    let slots := Fields.zero Rig.metricsExpectation
    let es : List (String × Data) := [("rules", .list [
      .map [("metric", .text "mean"), ("operator", .text "lt")],
      .map [("metric", .text "errors"), ("operator", .text "like")]])]
    let cause : Cause := .notAllowed "like" ["eq", "ne", "lt", "gt", "le", "ge"]
    (w.config "main.yaml" (.map es) (.record none slots)).1 =
        .error (.located "main.yaml" "rules[1].operator" (.cause cause)) ∧
      ∃ r x before after, "rules[1].operator" = (Location.of r).text ∧
        Data.at? r (.map es) = some x ∧ cause.Describes "main.yaml" r x ∧
        Visit.record w.context "main.yaml" (visits w.context "main.yaml" maxDepth) [] es slots =
          before ++ ⟨r, .error cause⟩ :: after ∧
        ∀ v ∈ before, v.check = .ok () := by
  intro w slots es cause
  have herror : error? (w.config "main.yaml" (.map es) (.record none slots)).1 =
      some (.located "main.yaml" "rules[1].operator" (.cause cause)) := by
    decide +kernel
  have hes : (Data.map es).Ordered := Data.ordered_of_isSorted _ (by decide +kernel)
  have hliteral : (Value.record none slots).IsLiteral :=
    Built.isLiteral (.record Rig.metricsExpectation) (.record (slotsHave_zero _).built)
      (by decide +kernel)
  obtain ⟨r, c, x, before, after, -, hlocation, hcause, hx, hdescribes, hvisits, hbefore⟩ :=
    Walker.config_visits w hes hliteral (error_of_error?_eq_some herror) rfl
  cases hcause
  exact ⟨error_of_error?_eq_some herror, r, x, before, after, hlocation, hx, hdescribes, hvisits,
    hbefore⟩

end Testbed
