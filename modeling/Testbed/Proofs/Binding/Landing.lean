import Mathlib.Data.Option.NAry
import Testbed.Proofs.Binding.Comparing
import Testbed.Proofs.Binding.Loading
import Testbed.Proofs.Binding.Segments

/-!
# Where what is bound comes to stand

Binding puts what it binds into something: a field into its record, an item into its list, a
document that is loaded into the list or the map that it is loaded for. `Place.Puts` are the steps
from a place to those that binding it calls for, each with the route from what the one place comes
to, to what the other one comes to; there is none where something else is put over it afterwards.
`Lands` goes any number of such steps.

`Place.Gives` says that a walk of a place gives a value. Where a place gives a value, so does every
place that a step leads to, and its value stands where the step says (`Puts.gives`); so the same
holds along all steps (`Lands.gives`). A walk of a whole has passed through all the parts, each in
its own document.
-/

namespace Testbed

open Binding Walk

/-! ## §1 Routes that may be covered -/

/-- The route of one step, unless something is put over what it leads to. -/
def Step.route? (covered : Prop) [Decidable covered] (t : Step) : Option Route :=
  if covered then none else some [t]

namespace Value

/-- Whether a value stands where a route leads in another one, if there is a route. -/
def Stands (r : Option Route) (w v : Value) : Prop :=
  ∀ q ∈ r, at? q v = some w

variable {u v w : Value} {r r' : Option Route} {t : Step}

theorem stands_self (v : Value) : Stands (some []) v v := by
  rintro _ ⟨rfl⟩
  rfl

theorem stands_child (h : child? t v = some w) : Stands (some [t]) w v := by
  rintro _ ⟨rfl⟩
  rwa [at?_singleton]

theorem stands_route? {covered : Prop} [Decidable covered] (h : ¬ covered → child? t v = some w) :
    Stands (t.route? covered) w v := by
  unfold Step.route?
  split
  · rintro _ ⟨⟩
  · next hcovered => exact stands_child (h hcovered)

/-- What stands in something that stands in a third stands in that, along both routes. -/
theorem Stands.trans (h : Stands r v u) (h' : Stands r' w v) :
    Stands (Option.map₂ (· ++ ·) r r') w u := by
  intro q hq
  obtain ⟨a, b, ha, hb, rfl⟩ := Option.mem_map₂_iff.mp hq
  rw [at?_append, h a ha, Option.bind_some]
  exact h' b hb

end Value

/-- Whether the key of an action puts a text into a field. -/
def Plan.sets (plan : Plan) (ident : String) : Bool :=
  nameField? plan.kind = some ident && plan.name.isSome ||
    ident = "service" && plan.kind ≠ .not && plan.service.isSome

/-- A field that the key does not set is as it was bound. -/
theorem Plan.child?_finish (plan : Plan) {context : Context} {document : Path} {bound w : Value}
    {ident : String} {es : List (String × Data)}
    (hbound : Bound context document (Variant.action plan.kind).zero (.map es) bound)
    (hsets : ¬ plan.sets ident = true) (hw : Value.child? (.key ident) bound = some w) :
    Value.child? (.key ident) (plan.finish bound) = some w := by
  have htidy := Rig.action_tidy plan.kind
  obtain ⟨slots, -, rfl, hslots, -⟩ := exists_slots_of_bound hbound
  have hbuilt : Value.Built (Value.record (some (.action plan.kind)) slots) (.oneOf .action) :=
    .member hslots
  obtain ⟨slots', hfinish⟩ := plan.exists_finish plan.kind slots
  have hslots' : Value.SlotsBuilt slots' (Rig.action plan.kind) := by
    have hfinished := Plan.built_finish hbuilt plan
    rw [hfinish] at hfinished
    obtain ⟨variant, _, heq, -, hslots'⟩ := hfinished.exists_member
    obtain ⟨⟨rfl⟩, rfl⟩ := Value.record.inj heq
    exact hslots'
  have hslot : (plan.finish (Value.record (some (.action plan.kind)) slots)).slot? ident =
      (Value.record (some (.action plan.kind)) slots).slot? ident := by
    rw [plan.slot?_finish hslots]
    simp only [Plan.sets, Bool.or_eq_true, Bool.and_eq_true, decide_eq_true_eq, not_or, not_and,
      Bool.not_eq_true, Option.isSome_eq_false_iff, Option.isNone_iff_eq_none] at hsets
    split
    · next hname => rw [hsets.1 hname]; rfl
    · split
      · next hservice => rw [hsets.2 hservice]; rfl
      · rfl
  rw [hfinish] at hslot ⊢
  have hname := hslots'.slotNamed?_eq htidy (some (.action plan.kind)) ident
  exact (hname.trans (hslot.trans (hslots.slotNamed?_eq htidy _ ident).symm)).trans hw

/-! ## §2 Steps -/

namespace Place

/-- The steps from a place to those that binding it calls for, and the route to what is bound
    there in what the place comes to. -/
inductive Puts (files : FileSystem) : Place → Option Route → Place → Prop
  | slot {document : Document} {fs : Fields} {f : Field} {s : Shape} {d : Directives}
      {es : List (String × Data)} {x : Data} (hf : (f, s) ∈ fs) (hd : directives f = .ok d)
      (hx : present? (documentName f d) es = some x) :
      Puts files ⟨document, .value (.record fs), .map es⟩ (some [.key f.ident])
        ⟨document, .field d s, x⟩
  -- a key that comes again is filled again
  | entry {document : Document} {e : Shape} {before after : List (String × Data)} {key : String}
      {x : Data} :
      Puts files ⟨document, .value (.map e), .map (before ++ (key, x) :: after)⟩
        ((Step.key key).route? (key ∈ Keyed.keys after)) ⟨document, .value e, x⟩
  | item {document : Document} {e : Shape} {xs : List Data} {i : Nat} {x : Data}
      (hx : xs[i]? = some x) :
      Puts files ⟨document, .value (.list e), .list xs⟩ (some [.index i]) ⟨document, .value e, x⟩
  | plain {document : Document} {d : Directives} {s : Shape} {x : Data}
      (hfactory : d.factory? = none) (hpath : d.isPath = false)
      (hload : ∀ pattern, x = .text pattern → d.isLoadable = false) :
      Puts files ⟨document, .field d s, x⟩ (some []) ⟨document, .value s, d.spelled s x⟩
  -- documents are walked where they are, for the list or the map that the pattern stands for
  | loadItem {document d' : Document} {d : Directives} {e : Shape} {pattern : String}
      {documents : List Document} {i : Nat} (hfactory : d.factory? = none)
      (hload : d.isLoadable = true)
      (hdocuments : Document.loadMatching files document.path.directory pattern = .ok documents)
      (hd' : documents[i]? = some d') :
      Puts files ⟨document, .field d (.list e), .text pattern⟩ (some [.index i])
        ⟨d', .value e, d'.data⟩
  | loadEntry {document d' : Document} {d : Directives} {e : Shape} {pattern : String}
      {before after : List Document} (hfactory : d.factory? = none) (hload : d.isLoadable = true)
      (hdocuments : Document.loadMatching files document.path.directory pattern =
        .ok (before ++ d' :: after)) :
      Puts files ⟨document, .field d (.map e), .text pattern⟩
        ((Step.key d'.name).route? (d'.name ∈ after.map Document.name)) ⟨d', .value e, d'.data⟩
  | fill {document : Document} {d : Directives} {s : Shape} {name : String} {f : Factory} {x : Data}
      (hname : d.factory? = some name) (hf : Factories.standard.get? name = some f) :
      Puts files ⟨document, .field d s, x⟩ (some []) ⟨document, .filled f, x⟩
  | member {document : Document} {f : Factory} {family : Family} {member : Platform → Variant}
      {before after : List (String × Data)} {key : String} {x : Data} {p : Platform}
      (hf : f.byName? = some (family, member)) (hp : Platform.ofName? key = some p) :
      Puts files ⟨document, .filled f, .map (before ++ (key, x) :: after)⟩
        ((Step.key key).route? (key ∈ Keyed.keys after))
        ⟨document, .value (.record (member p).fields), x⟩
  | actions {document : Document} {xs : List Data} {i : Nat} {x : Data} (hx : xs[i]? = some x) :
      Puts files ⟨document, .filled .actions, .list xs⟩ (some [.index i]) ⟨document, .entry, x⟩
  | action {document : Document} {x : Data} :
      Puts files ⟨document, .filled .action, x⟩ (some []) ⟨document, .entry, x⟩
  -- the service and the name of a key are put over those of the payload
  | payload {document : Document} {x y : Data} {plan : Plan} {f : Field} {s : Shape}
      {d : Directives} (hplan : Entry.read x = .ok plan)
      (hf : (f, s) ∈ (Variant.action plan.kind).fields) (hd : directives f = .ok d)
      (hy : present? (documentName f d) plan.payload = some y) :
      Puts files ⟨document, .entry, x⟩ ((Step.key f.ident).route? (plan.sets f.ident = true))
        ⟨document, .field d s, y⟩

/-- Any number of steps from a place, and the route that they make together. -/
inductive Lands (files : FileSystem) (p : Place) : Option Route → Place → Prop
  | here : Lands files p (some []) p
  | step {q q' : Place} {r r' : Option Route} (h : Lands files p r q) (hstep : Puts files q r' q') :
      Lands files p (Option.map₂ (· ++ ·) r r') q'

variable {files : FileSystem} {p q : Place} {r : Option Route}

/-- What binding puts somewhere it comes to. -/
theorem Puts.reaches (h : Puts files p r q) : Reaches files p q := by
  cases h with
  | slot hf hd hx => exact (Enters.slot hf hd hx).reaches
  | entry => exact (Enters.entry List.mem_append_cons_self).reaches
  | item hx => exact (Enters.item (List.mem_of_getElem? hx)).reaches
  | plain hfactory _ _ => exact (Enters.plain hfactory).reaches
  | loadItem hfactory hload hdocuments hd' =>
    exact (Enters.load ⟨hfactory, hload, .inl rfl, hdocuments, List.mem_of_getElem? hd'⟩).reaches
  | loadEntry hfactory hload hdocuments =>
    exact (Enters.load ⟨hfactory, hload, .inr rfl, hdocuments, List.mem_append_cons_self⟩).reaches
  | fill hname hf => exact (Enters.fill hname hf).reaches
  | member hf hp => exact (Enters.member hf List.mem_append_cons_self hp).reaches
  | actions hx => exact (Enters.actions (List.mem_of_getElem? hx)).reaches
  | action => exact Enters.action.reaches
  | payload hplan hf hd hy =>
    exact (Enters.payload hplan).reaches.trans (Enters.slot hf hd hy).reaches

/-- Where something lands, its walk has come. -/
theorem Lands.reaches (h : Lands files p r q) : Reaches files p q := by
  induction h with
  | here => exact .refl
  | step _ hstep ih => exact ih.trans hstep.reaches

/-! ## §3 Everything that is reached -/

theorem spelled_text {d : Directives} {s e : Shape} (hs : s = .list e ∨ s = .map e)
    (raw : String) : d.spelled s (.text raw) = .text raw := by
  rcases hs with rfl | rfl <;> (unfold Directives.spelled; split <;> first | contradiction | rfl)

/-- The shape of a path, and of what a pattern stands for, calls for nothing more by itself. -/
theorem not_enters_plain {document : Document} {d : Directives} {s : Shape} {x : Data}
    (hd : Directed d s) (hfactory : d.factory? = none)
    (hstop : d.isPath = true ∨ ∃ pattern, x = .text pattern ∧ d.isLoadable = true) (q : Place) :
    ¬ Enters files ⟨document, .value s, d.spelled s x⟩ q := by
  cases hd with
  | factory hname _ _ => cases hname.symm.trans hfactory
  | shape _ _ hsuits =>
    rcases hstop with hpath | ⟨pattern, rfl, hload⟩
    · obtain ⟨rfl, -, -⟩ := hsuits.path hpath
      rintro ⟨⟩
      contradiction
    · obtain ⟨⟨e, hs⟩, -⟩ := hsuits.loadable hload
      rw [spelled_text hs]
      rcases hs with rfl | rfl <;> rintro ⟨⟩ <;> contradiction

/-- The places that a walk comes to: those where something is put, the payload of an action, which
    is put together with the key, and shapes that call for nothing more. -/
inductive Covered (files : FileSystem) (p : Place) : Place → Prop
  | lands {q : Place} {r : Option Route} (h : Lands files p r q) : Covered files p q
  | payload {document : Document} {x : Data} {plan : Plan} {r : Option Route}
      (h : Lands files p r ⟨document, .entry, x⟩) (hplan : Entry.read x = .ok plan) :
      Covered files p
        ⟨document, .value (.record (Variant.action plan.kind).fields), .map plan.payload⟩
  | stop {document : Document} {s : Shape} {x : Data}
      (h : ∀ q, ¬ Enters files ⟨document, .value s, x⟩ q) :
      Covered files p ⟨document, .value s, x⟩

/-- A step from a place that is covered goes to one that is. -/
theorem Covered.step {q' : Place} (h : Covered files p q) (hq : q.IsSound)
    (hstep : Enters files q q') : Covered files p q' := by
  cases h with
  | lands h =>
    cases hstep with
    | slot hf hd hx => exact .lands (.step h (.slot hf hd hx))
    | entry hx =>
      obtain ⟨before, after, rfl⟩ := List.append_of_mem hx
      exact .lands (.step h .entry)
    | item hx =>
      obtain ⟨i, hi⟩ := List.mem_iff_getElem?.mp hx
      exact .lands (.step h (.item hi))
    | @plain document d s x hfactory =>
      -- what is bound as a path, or loaded, calls for nothing inside of it
      by_cases hstop : d.isPath = true ∨ ∃ pattern, x = .text pattern ∧ d.isLoadable = true
      · exact .stop (not_enters_plain hq hfactory hstop)
      · obtain ⟨hpath, hload⟩ := not_or.mp hstop
        refine .lands (.step h (.plain hfactory (by simpa using hpath) fun pattern hx => ?_))
        by_contra hloadable
        exact hload ⟨pattern, hx, by simpa using hloadable⟩
    | load hload =>
      obtain ⟨hfactory, hload, rfl | rfl, hdocuments, hd'⟩ := hload
      · obtain ⟨i, hi⟩ := List.mem_iff_getElem?.mp hd'
        exact .lands (.step h (.loadItem hfactory hload hdocuments hi))
      · obtain ⟨before, after, rfl⟩ := List.append_of_mem hd'
        exact .lands (.step h (.loadEntry hfactory hload hdocuments))
    | fill hname hf => exact .lands (.step h (.fill hname hf))
    | member hf hx hp =>
      obtain ⟨before, after, rfl⟩ := List.append_of_mem hx
      exact .lands (.step h (.member hf hp))
    | actions hx =>
      obtain ⟨i, hi⟩ := List.mem_iff_getElem?.mp hx
      exact .lands (.step h (.actions hi))
    | action => exact .lands (.step h .action)
    | chosen => cases hq
    | payload hplan => exact .payload h hplan
  | payload h hplan =>
    -- the payload of an action is a record, and from a record there are only fields to go to
    cases hstep with
    | slot hf hd hx => exact .lands (.step h (.payload hplan hf hd hx))
    | load hload => cases hload
  | stop h => exact absurd hstep (h q')

/-- From a sound place walks come to places that are covered, and to no others. -/
theorem Reaches.covered (h : Reaches files p q) (hp : p.IsSound) : Covered files p q := by
  induction h with
  | refl => exact .lands .here
  | tail hreach hstep ih => exact ih.step (Reaches.isSound hreach hp) hstep

/-- What a walk binds as a field is put somewhere. -/
theorem Reaches.lands {document : Document} {d : Directives} {s : Shape} {x : Data}
    (h : Reaches files p ⟨document, .field d s, x⟩) (hp : p.IsSound) :
    ∃ r, Lands files p r ⟨document, .field d s, x⟩ := by
  cases h.covered hp with
  | lands h => exact ⟨_, h⟩

end Place

/-! ## §4 What walks of places give -/

namespace Place

/-- Whether a walk of a place gives a value: with some number of levels left, and in place of a
    value that is put together as the place asks for. -/
def Gives (context : Context) : Place → Value → Prop
  | ⟨document, .value s, x⟩, v =>
    s.isSound = true ∧ s.isTidy = true ∧ ∃ n target, Value.BoundAs target s ∧
      ((Deeper.level context n).assign document.path x target).outcome = .ok v
  | ⟨document, .field d s, x⟩, v =>
    Directed d s ∧ s.isTidy = true ∧ ∃ n target, Value.Built target s ∧
      (field context (Deeper.level context n) document.path d x target).outcome = .ok v
  | ⟨document, .filled f, x⟩, v =>
    ∃ n target, Value.Built target f.shape ∧
      ((Deeper.level context n).fill f document.path x target).outcome = .ok v
  | ⟨document, .entry, x⟩, v =>
    ∃ n, ((Deeper.level context n).action document.path x).outcome = .ok v

end Place

namespace Value

theorem BoundAs.exists_list {e : Shape} {v : Value} (h : v.BoundAs (.list e)) :
    ∃ old, v = .list e old := by
  cases h with
  | built h =>
    cases h with
    | list _ => exact ⟨_, rfl⟩

theorem BoundAs.exists_map {e : Shape} {v : Value} (h : v.BoundAs (.map e)) :
    ∃ old, v = .map e old := by
  cases h with
  | built h =>
    cases h with
    | map _ _ => exact ⟨_, rfl⟩

end Value

namespace Place

variable {context : Context} {document : Document} {fs : Fields} {f : Field} {s e : Shape}
  {d : Directives} {es : List (String × Data)} {x : Data} {v : Value}

/-- A field is bound from what is present under its name, and stands in the record. -/
theorem Gives.slot (h : Gives context ⟨document, .value (.record fs), .map es⟩ v)
    (hf : (f, s) ∈ fs) (hd : directives f = .ok d)
    (hx : present? (documentName f d) es = some x) :
    ∃ w, Gives context ⟨document, .field d s, x⟩ w ∧ Value.child? (.key f.ident) v = some w := by
  obtain ⟨hsound, htidy, n, target, htarget, h⟩ := h
  obtain ⟨variant, slots, rfl, hslots⟩ := htarget.exists_record
  have hdirected := directed_of_mem hsound hf hd
  obtain ⟨target, hmem, hbuilt⟩ := hslots.exists_slot hf
  have habsent : target ≠ .absent := by
    rintro rfl
    cases hbuilt
    exact hdirected.ne_absent rfl
  cases n with
  | zero => cases h
  | succ n =>
    have hrecord : (assign context (Deeper.level context n) document.path (.map es)
        (.record variant slots)).outcome = .ok v := h
    rw [assign_record_outcome_checked (Deeper.level_self n)] at hrecord
    obtain ⟨_, -, hmade⟩ := exists_ok_of_bind hrecord
    obtain ⟨w, hw, hslot⟩ := child?_of_slots hslots htidy hmem hmade
    rw [slotOutcome_present hd habsent hx] at hslot
    exact ⟨w, ⟨hdirected, isTidy_of_mem htidy hf, n, target, hbuilt, hslot⟩, hw⟩

/-- Every entry of a map is bound like one that is alone, and the last one with a key stands
    there. -/
theorem Gives.entries (h : Gives context ⟨document, .value (.map e), .map es⟩ v) :
    ∃ filled, v = .map e filled ∧
      EachFilled (fun _ x w => Gives context ⟨document, .value e, x⟩ w) es [] filled := by
  obtain ⟨hsound, htidy, n, target, htarget, h⟩ := h
  obtain ⟨old, rfl⟩ := htarget.exists_map
  cases n with
  | zero => cases h
  | succ n =>
    have hfill : FillsAfresh ((Deeper.level context n).assign document.path) e :=
      Deeper.level_fillsAfresh n document.path e
    have hmap : Ensures (fun v => ∃ filled, v = .map e filled ∧
        EachFilled (fun _ x w => Gives context ⟨document, .value e, x⟩ w) es [] filled)
        (assign context (Deeper.level context n) document.path (.map es) (.map e old)) := by
      refine (Ensures.insideMap (entries_ensures_each hfill es eachEntry_nil)).bind
        fun filled hfilled => .pure ⟨filled, rfl, hfilled.mono fun _ x w hw => ?_⟩
      exact ⟨hsound, htidy, n, e.zero, .built (Value.built_zero e), hw⟩
    exact hmap.outcome h

/-- What binds a list binds each item, and has its value at the index. -/
theorem Gives.item {xs : List Data} {i : Nat}
    (h : Gives context ⟨document, .value (.list e), .list xs⟩ v) (hx : xs[i]? = some x) :
    ∃ w, Gives context ⟨document, .value e, x⟩ w ∧ Value.child? (.index i) v = some w := by
  obtain ⟨hsound, htidy, n, target, htarget, h⟩ := h
  obtain ⟨old, rfl⟩ := htarget.exists_list
  cases n with
  | zero => cases h
  | succ n =>
    have hlist : (assign context (Deeper.level context n) document.path (.list xs)
        (.list e old)).outcome = .ok v := h
    rw [assign_list_outcome (Deeper.level_self n)] at hlist
    obtain ⟨vs, hvs, rfl⟩ := exists_ok_of_map hlist
    obtain ⟨w, hw, hbound⟩ := exists_getElem?_of_mapM hvs hx
    have htidy : e.isTidy = true := (Bool.and_eq_true_iff.mp htidy).2
    exact ⟨w, ⟨hsound, htidy, n, e.zero, .built (Value.built_zero e), hbound⟩, hw⟩

/-- A field that no directive takes care of gives what its data is bound to by its shape. -/
theorem Gives.plain (h : Gives context ⟨document, .field d s, x⟩ v) (hfactory : d.factory? = none)
    (hpath : d.isPath = false) (hload : ∀ pattern, x = .text pattern → d.isLoadable = false) :
    Gives context ⟨document, .value s, d.spelled s x⟩ v := by
  obtain ⟨hd, htidy, n, target, htarget, h⟩ := h
  cases hd with
  | factory hname _ _ => cases hname.symm.trans hfactory
  | shape _ hsound hsuits =>
    by_cases hbare : IsBare d target x
    · -- a bare text goes no level deeper, so the record that stands for it is one level up
      obtain ⟨sub, raw, variant, slots, hsub, rfl, rfl⟩ := hbare
      rw [field_bare hfactory hsub] at h
      cases htarget with
      | record hslots =>
        refine ⟨hsound, htidy, n + 1, _, .built (.record hslots), ?_⟩
        simp only [Directives.spelled, hsub]
        exact h
      | member _ => cases hsound
    · have htaken := taken_eq_spelled htarget hbare
      rw [field_value hfactory hbare, htaken, value_outcome (Deeper.level_self n) ?_] at h
      · obtain ⟨_, -, hassign⟩ := exists_ok_of_bind h
        rw [hpath] at hassign
        exact ⟨hsound, htidy, n, target, .built htarget, hassign⟩
      · exact fun raw hraw => hload raw (eq_text_of_taken (htaken.trans hraw))

/-- A pattern gives what the documents that it loads are bound to. -/
theorem Gives.loaded {pattern : String} (h : Gives context ⟨document, .field d s, .text pattern⟩ v)
    (hfactory : d.factory? = none) (hload : d.isLoadable = true)
    (hs : s = .list e ∨ s = .map e) :
    e.isSound = true ∧ e.isTidy = true ∧ ∃ n target, Value.Built target s ∧
      (Binding.loaded context (Deeper.level context n) document.path pattern target).outcome =
        .ok v := by
  obtain ⟨hd, htidy, n, target, htarget, h⟩ := h
  cases hd with
  | factory hname _ _ => cases hname.symm.trans hfactory
  | shape _ hsound _ =>
    have hbare : ¬ IsBare d target (.text pattern) := by
      rintro ⟨_, _, _, _, -, -, rfl⟩
      rcases hs with rfl | rfl <;> cases htarget
    rw [field_value hfactory hbare, taken_text] at h
    simp only [Binding.value, hload, if_true] at h
    rcases hs with rfl | rfl
    · exact ⟨hsound, (Bool.and_eq_true_iff.mp htidy).2, n, target, htarget, h⟩
    · exact ⟨hsound, htidy, n, target, htarget, h⟩

/-- What binds a list of documents binds each document, and has its value at the index. -/
theorem Gives.loadItem {pattern : String} {documents : List Document} {d' : Document} {i : Nat}
    (h : Gives context ⟨document, .field d (.list e), .text pattern⟩ v)
    (hfactory : d.factory? = none) (hload : d.isLoadable = true)
    (hdocuments :
      Document.loadMatching context.files document.path.directory pattern = .ok documents)
    (hd' : documents[i]? = some d') :
    ∃ w, Gives context ⟨d', .value e, d'.data⟩ w ∧ Value.child? (.index i) v = some w := by
  obtain ⟨hsound, htidy, n, target, htarget, hloaded⟩ := h.loaded hfactory hload (.inl rfl)
  cases htarget with
  | list _ =>
    rw [loaded_list_outcome (Deeper.level_self n), hdocuments, ok_bind] at hloaded
    obtain ⟨vs, hvs, rfl⟩ := exists_ok_of_map hloaded
    obtain ⟨w, hw, hbound⟩ := exists_getElem?_of_mapM hvs hd'
    exact ⟨w, ⟨hsound, htidy, n, e.zero, .built (Value.built_zero e), hbound⟩, hw⟩

/-- What binds a map of documents binds the last with each name, and has its value under the
    name. -/
theorem Gives.loadEntry {pattern : String} {before after : List Document} {d' : Document}
    (h : Gives context ⟨document, .field d (.map e), .text pattern⟩ v)
    (hfactory : d.factory? = none) (hload : d.isLoadable = true)
    (hdocuments : Document.loadMatching context.files document.path.directory pattern =
      .ok (before ++ d' :: after)) :
    ∃ w, Gives context ⟨d', .value e, d'.data⟩ w ∧
      (d'.name ∉ after.map Document.name → Value.child? (.key d'.name) v = some w) := by
  obtain ⟨hsound, htidy, n, target, htarget, hloaded⟩ := h.loaded hfactory hload (.inr rfl)
  cases htarget with
  | map _ _ =>
    obtain ⟨es, rfl, -, heach⟩ := loaded_map_outcome n hdocuments hloaded
    obtain ⟨w, hbound, hw⟩ := heach.each (before.map fun m => (m.name, m)) d'.name d'
      (after.map fun m => (m.name, m)) (by simp)
    refine ⟨w, ⟨hsound, htidy, n, e.zero, .built (Value.built_zero e), hbound⟩, fun hafter => hw ?_⟩
    rwa [Keyed.keys, List.map_map]

/-- What a factory fills a field with is what the field gives. -/
theorem Gives.filled {name : String} {f : Factory} (hfactories : context.factories = .standard)
    (h : Gives context ⟨document, .field d s, x⟩ v) (hname : d.factory? = some name)
    (hf : Factories.standard.get? name = some f) : Gives context ⟨document, .filled f, x⟩ v := by
  obtain ⟨hd, -, n, target, htarget, h⟩ := h
  cases hd with
  | @factory name' f' hname' hf' _ =>
    obtain rfl : name' = name := Option.some.inj (hname'.symm.trans hname)
    obtain rfl : f' = f := Option.some.inj (hf'.symm.trans hf)
    rw [field_factory hname (hfactories ▸ hf)] at h
    exact ⟨n, target, htarget, h⟩
  | shape hfactory _ _ => cases hfactory.symm.trans hname

/-- Every member of a family is bound alone, and the last one with a key stands there. -/
theorem Gives.members {f : Factory} {family : Family} {member : Platform → Variant}
    (h : Gives context ⟨document, .filled f, .map es⟩ v) (hf : f.byName? = some (family, member)) :
    ∃ filled, v = .map (.oneOf family) filled ∧
      EachFilled (fun key x w => ∀ p, Platform.ofName? key = some p →
        Gives context ⟨document, .value (.record (member p).fields), x⟩ w) es [] filled := by
  obtain ⟨n, target, htarget, h⟩ := h
  have hshape : f.shape = .map (.oneOf family) := by cases f <;> cases hf <;> rfl
  rw [hshape] at htarget
  cases htarget with
  | @map _ old _ _ =>
    cases n with
    | zero => cases h
    | succ n =>
      obtain ⟨unknown, hfill⟩ := Position.fill_of_byName? hf
      rw [Position.level_fill, hfill] at h
      have hself : (Deeper.level context n).Approximates (Deeper.level context n) :=
        Deeper.level_self n
      have hmembers : Ensures (fun v => ∃ filled, v = .map (.oneOf family) filled ∧
          EachFilled (fun key x w => ∀ p, Platform.ofName? key = some p →
            Gives context ⟨document, .value (.record (member p).fields), x⟩ w) es [] filled)
          (byName (Deeper.level context n) f family member unknown document.path (.map es)
            (.map (.oneOf family) old)) := by
        rw [byName, if_pos rfl]
        have heach := members_ensures_each (hself.assign document.path)
        refine (heach _ unknown es []).insideMap.bind fun filled hfilled =>
          .pure ⟨filled, rfl, hfilled.mono fun key x w hw p hp => ?_⟩
        obtain ⟨zero, hzero, hbound⟩ := hw
        rw [hp] at hzero
        obtain rfl := Option.some.inj hzero
        exact ⟨Rig.variant_sound _, Rig.variant_tidy _, n, _,
          .member (Value.slotsHave_zero _).built, hbound⟩
      exact hmembers.outcome h

/-- What makes a list of actions makes each entry, and has its action at the index. -/
theorem Gives.actions {xs : List Data} {i : Nat}
    (h : Gives context ⟨document, .filled .actions, .list xs⟩ v) (hx : xs[i]? = some x) :
    ∃ w, Gives context ⟨document, .entry, x⟩ w ∧ Value.child? (.index i) v = some w := by
  obtain ⟨n, target, htarget, h⟩ := h
  cases htarget with
  | list _ =>
    cases n with
    | zero => cases h
    | succ n =>
      rw [Position.level_fill, fill_actions_outcome (Deeper.level_self n)] at h
      obtain ⟨vs, hvs, rfl⟩ := exists_ok_of_map h
      obtain ⟨w, hw, hbound⟩ := exists_getElem?_of_mapM hvs hx
      exact ⟨w, ⟨n, hbound⟩, hw⟩

/-- What fills a field with one action makes the entry. -/
theorem Gives.action (h : Gives context ⟨document, .filled .action, x⟩ v) :
    Gives context ⟨document, .entry, x⟩ v := by
  obtain ⟨n, target, htarget, h⟩ := h
  obtain ⟨variant, slots, rfl, hfamily, -⟩ := htarget.exists_member
  cases n with
  | zero => cases h
  | succ n =>
    cases variant with
    | action k => exact ⟨n, h⟩
    | _ => cases hfamily

/-- A field of a payload stands in the action, unless the key sets it. -/
theorem Gives.payload {y : Data} {plan : Plan} (h : Gives context ⟨document, .entry, x⟩ v)
    (hplan : Entry.read x = .ok plan) (hf : (f, s) ∈ (Variant.action plan.kind).fields)
    (hd : directives f = .ok d) (hy : present? (documentName f d) plan.payload = some y) :
    ∃ w, Gives context ⟨document, .field d s, y⟩ w ∧
      (¬ plan.sets f.ident = true → Value.child? (.key f.ident) v = some w) := by
  obtain ⟨n, h⟩ := h
  cases n with
  | zero => cases h
  | succ n =>
    have haction : (Binding.action (Deeper.level context n) document.path x).outcome = .ok v := h
    rw [action_outcome (Deeper.level_self n), hplan, ok_bind] at haction
    obtain ⟨bound, hbound, hfinish⟩ := exists_ok_of_bind haction
    obtain rfl := Except.ok.inj hfinish
    have hpayload : Gives context ⟨document, .value (.record (Variant.action plan.kind).fields),
        .map plan.payload⟩ bound :=
      ⟨Rig.variant_sound _, Rig.variant_tidy _, n, _, .member (Value.slotsHave_zero _).built,
        hbound⟩
    obtain ⟨w, hw, hchild⟩ := hpayload.slot hf hd hy
    exact ⟨w, hw, fun hsets => plan.child?_finish ⟨n, hbound⟩ hsets hchild⟩

/-! ## §5 Steps and walks -/

variable {p q : Place} {r : Option Route}

/-- Where a place gives a value, what binding puts somewhere is given as well, and stands there. -/
theorem Puts.gives (hfactories : context.factories = .standard) (h : Puts context.files p r q)
    (hp : Gives context p v) : ∃ w, Gives context q w ∧ Value.Stands r w v := by
  cases h with
  | slot hf hd hx =>
    obtain ⟨w, hw, hchild⟩ := hp.slot hf hd hx
    exact ⟨w, hw, Value.stands_child hchild⟩
  | entry =>
    obtain ⟨filled, rfl, heach⟩ := hp.entries
    obtain ⟨w, hw, hchild⟩ := heach.each _ _ _ _ rfl
    exact ⟨w, hw, Value.stands_route? hchild⟩
  | item hx =>
    obtain ⟨w, hw, hchild⟩ := hp.item hx
    exact ⟨w, hw, Value.stands_child hchild⟩
  | plain hfactory hpath hload => exact ⟨v, hp.plain hfactory hpath hload, Value.stands_self v⟩
  | loadItem hfactory hload hdocuments hd' =>
    obtain ⟨w, hw, hchild⟩ := hp.loadItem hfactory hload hdocuments hd'
    exact ⟨w, hw, Value.stands_child hchild⟩
  | loadEntry hfactory hload hdocuments =>
    obtain ⟨w, hw, hchild⟩ := hp.loadEntry hfactory hload hdocuments
    exact ⟨w, hw, Value.stands_route? hchild⟩
  | fill hname hf => exact ⟨v, hp.filled hfactories hname hf, Value.stands_self v⟩
  | member hf hplatform =>
    obtain ⟨filled, rfl, heach⟩ := hp.members hf
    obtain ⟨w, hw, hchild⟩ := heach.each _ _ _ _ rfl
    exact ⟨w, hw _ hplatform, Value.stands_route? hchild⟩
  | actions hx =>
    obtain ⟨w, hw, hchild⟩ := hp.actions hx
    exact ⟨w, hw, Value.stands_child hchild⟩
  | action => exact ⟨v, hp.action, Value.stands_self v⟩
  | payload hplan hf hd hy =>
    obtain ⟨w, hw, hchild⟩ := hp.payload hplan hf hd hy
    exact ⟨w, hw, Value.stands_route? hchild⟩

/-- What a walk gives has in it what it gives on its way. -/
theorem Lands.gives (hfactories : context.factories = .standard) (h : Lands context.files p r q)
    (hp : Gives context p v) : ∃ w, Gives context q w ∧ Value.Stands r w v := by
  induction h with
  | here => exact ⟨v, hp, Value.stands_self v⟩
  | step _ hstep ih =>
    obtain ⟨u, hu, hstands⟩ := ih
    obtain ⟨w, hw, hstands'⟩ := hstep.gives hfactories hu
    exact ⟨w, hw, hstands.trans hstands'⟩

/-- A path gives the text of what it means in its document, and that exists. -/
theorem Gives.path {raw : String} (h : Gives context ⟨document, .field d s, .text raw⟩ v)
    (hpath : d.isPath = true) :
    v = .text (resolvePath document.path raw) ∧
      context.files.isPresent (resolvePath document.path raw) = true := by
  obtain ⟨hd, -, n, target, htarget, h⟩ := h
  cases hd with
  | factory _ _ hfree => cases hfree.path.symm.trans hpath
  | shape hfactory _ hsuits =>
    obtain ⟨rfl, -, -⟩ := hsuits.path hpath
    have hload : d.isLoadable = false := by
      by_contra hload
      obtain ⟨⟨e, he⟩, -⟩ := hsuits.loadable (by simpa using hload)
      rcases he with he | he <;> cases he
    cases htarget with
    | text t =>
      rw [field_value hfactory (by rintro ⟨_, _, _, _, -, -, ⟨⟩⟩), taken_text,
        value_outcome (Deeper.level_self n) fun _ _ => hload] at h
      obtain ⟨_, -, hexists⟩ := exists_ok_of_bind h
      rw [if_pos hpath, existingPath] at hexists
      split at hexists
      · next hpresent => exact ⟨(Except.ok.inj hexists).symm, hpresent⟩
      · cases hexists

end Place

end Testbed
