import Mathlib.Logic.Relation
import Testbed.Proofs.Binding.Building
import Testbed.Proofs.Binding.Grammar
import Testbed.Proofs.Binding.Routing
import Testbed.Proofs.Rig.Spelling

/-!
# Where walks come to

A walk comes to places: some data of a document, and what it is bound as. `Enters` are the steps
from a place to the places that binding it calls for: the fields of a record, entries and items, the
documents that a pattern loads, the members and the actions that factories make. It goes by shapes
alone, so it is the same whatever the values hold and whether or not unknown keys are refused. A map
that is bound as a record is a map whose keys are to name the record's fields.

What binding makes up itself stays close to the document. The places that a walk comes to hold data
that stands in their document, or a record that is put around such data under names of its fields
(`Reaches.isGenuine`); and where the tags of a record can be followed, they can be followed at every
place that its walk comes to (`Reaches.isSound`).
-/

namespace Testbed

open Binding

/-! ## §1 Places -/

/-- What data is bound as: by a shape, as a field with directives, by a factory, or as an action. -/
inductive Role where
  | value (s : Shape)
  | field (d : Directives) (s : Shape)
  | filled (f : Factory)
  | entry

/-- The data that a field is bound from by its shape: bare texts are put into a field, where they
    stand for a record. -/
def Directives.spelled (d : Directives) (s : Shape) (x : Data) : Data :=
  match d.string?, x, s with
  | some sub, .text raw, .record _ => .map [(sub, .text raw)]
  | some sub, .text raw, .oneOf _ => .map [(sub, .text raw)]
  | some sub, .map es, .map e => if e.isRecord then .map (expanded sub es) else .map es
  | _, x, _ => x

/-- A place that a walk comes to: the document, what the data is bound as, and the data. -/
structure Place where
  document : Document
  role : Role
  data : Data

namespace Place

/-- The documents that a pattern at a place loads, and the shape that each of them is bound by. -/
inductive Loads (files : FileSystem) : Place → Document → Shape → Prop
  | mk {document d' : Document} {d : Directives} {s e : Shape} {pattern : String}
      {documents : List Document} (hfactory : d.factory? = none) (hload : d.isLoadable = true)
      (hs : s = .list e ∨ s = .map e)
      (hdocuments : Document.loadMatching files document.path.directory pattern = .ok documents)
      (hd' : d' ∈ documents) : Loads files ⟨document, .field d s, .text pattern⟩ d' e

/-- The steps from a place to those that binding it calls for. -/
inductive Enters (files : FileSystem) : Place → Place → Prop
  | slot {document : Document} {fs : Fields} {f : Field} {s : Shape} {d : Directives}
      {es : List (String × Data)} {x : Data} (hf : (f, s) ∈ fs) (hd : directives f = .ok d)
      (hx : present? (documentName f d) es = some x) :
      Enters files ⟨document, .value (.record fs), .map es⟩ ⟨document, .field d s, x⟩
  | entry {document : Document} {e : Shape} {es : List (String × Data)} {key : String} {x : Data}
      (hx : (key, x) ∈ es) :
      Enters files ⟨document, .value (.map e), .map es⟩ ⟨document, .value e, x⟩
  | item {document : Document} {e : Shape} {xs : List Data} {x : Data} (hx : x ∈ xs) :
      Enters files ⟨document, .value (.list e), .list xs⟩ ⟨document, .value e, x⟩
  | plain {document : Document} {d : Directives} {s : Shape} {x : Data}
      (hfactory : d.factory? = none) :
      Enters files ⟨document, .field d s, x⟩ ⟨document, .value s, d.spelled s x⟩
  | load {p : Place} {d : Document} {e : Shape} (h : Loads files p d e) :
      Enters files p ⟨d, .value e, d.data⟩
  | fill {document : Document} {d : Directives} {s : Shape} {name : String} {f : Factory} {x : Data}
      (hname : d.factory? = some name) (hf : Factories.standard.get? name = some f) :
      Enters files ⟨document, .field d s, x⟩ ⟨document, .filled f, x⟩
  -- into members, and into actions and their payloads
  | chosen {document : Document} {v : Variant} {x : Data} :
      Enters files ⟨document, .value (.oneOf v.family), x⟩ ⟨document, .value (.record v.fields), x⟩
  | member {document : Document} {f : Factory} {family : Family} {member : Platform → Variant}
      {es : List (String × Data)} {key : String} {x : Data} {p : Platform}
      (hf : f.byName? = some (family, member)) (hx : (key, x) ∈ es)
      (hp : Platform.ofName? key = some p) :
      Enters files ⟨document, .filled f, .map es⟩
        ⟨document, .value (.record (member p).fields), x⟩
  | actions {document : Document} {xs : List Data} {x : Data} (hx : x ∈ xs) :
      Enters files ⟨document, .filled .actions, .list xs⟩ ⟨document, .entry, x⟩
  | action {document : Document} {x : Data} :
      Enters files ⟨document, .filled .action, x⟩ ⟨document, .entry, x⟩
  | payload {document : Document} {x : Data} {plan : Plan} (hplan : Entry.read x = .ok plan) :
      Enters files ⟨document, .entry, x⟩
        ⟨document, .value (.record (Variant.action plan.kind).fields), .map plan.payload⟩

/-- Whether a walk that has come to a place may come to another one. -/
def Reaches (files : FileSystem) : Place → Place → Prop :=
  Relation.ReflTransGen (Enters files)

variable {files : FileSystem} {p q : Place}

theorem Enters.reaches (h : Enters files p q) : Reaches files p q :=
  Relation.ReflTransGen.single h

end Place

/-- The place where a whole document is bound as a record with some fields. -/
def Document.placeAs (d : Document) (fs : Fields) : Place :=
  ⟨d, .value (.record fs), d.data⟩

/-- The place where the walk of a whole document begins. -/
def Document.place (d : Document) : Place :=
  d.placeAs Rig.config

/-! ## §2 Data that stands in a document -/

namespace Data

/-- Whether data is other data, or stands inside of it. -/
inductive Within : Data → Data → Prop
  | self {x : Data} : Within x x
  | item {x y : Data} {xs : List Data} (hy : y ∈ xs) (h : Within x y) : Within x (.list xs)
  | entry {x y : Data} {es : List (String × Data)} {key : String} (hy : (key, y) ∈ es)
      (h : Within x y) : Within x (.map es)

variable {x y z : Data}

theorem Within.trans (h : Within x y) (h' : Within y z) : Within x z := by
  induction h' with
  | self => exact h
  | item hy _ ih => exact .item hy ih
  | entry hy _ ih => exact .entry hy ih

theorem Within.of_item {xs : List Data} (h : Within (.list xs) y) (hx : x ∈ xs) : Within x y :=
  Within.trans (.item hx .self) h

theorem Within.of_entry {es : List (String × Data)} {key : String} (h : Within (.map es) y)
    (hx : (key, x) ∈ es) : Within x y :=
  Within.trans (.entry hx .self) h

end Data

/-- Whether data that is bound by a shape stands in other data, but for records that are put around
    it under names of their fields. -/
inductive Stems (home : Data) : Shape → Data → Prop
  | literal {s : Shape} {x : Data} (h : x.Within home) : Stems home s x
  | record {fs : Fields} {es : List (String × Data)}
      (h : ∀ key y, (key, y) ∈ es → Fields.Knows fs key ∧ y.Within home) :
      Stems home (.record fs) (.map es)
  | map {e : Shape} {es : List (String × Data)} (h : ∀ key y, (key, y) ∈ es → Stems home e y) :
      Stems home (.map e) (.map es)

namespace Stems

variable {home x : Data} {e s : Shape} {fs : Fields} {es : List (String × Data)}

theorem entry (h : Stems home (.map e) (.map es)) {key : String} (hx : (key, x) ∈ es) :
    Stems home e x := by
  cases h with
  | literal h => exact .literal (h.of_entry hx)
  | map h => exact h key x hx

theorem item {xs : List Data} (h : Stems home (.list e) (.list xs)) (hx : x ∈ xs) :
    Stems home e x := by
  cases h with
  | literal h => exact .literal (h.of_item hx)

/-- What stands under a name in a record stands in the document. -/
theorem within_of_present (h : Stems home (.record fs) (.map es)) {name : String}
    (hx : present? name es = some x) : x.Within home := by
  have hmem := Keyed.mem_of_get?_eq_some (Option.eq_some_of_filter_eq_some hx)
  cases h with
  | literal h => exact h.of_entry hmem
  | record h => exact (h name x hmem).2

/-- Where a key is not known, nothing was put around the data. -/
theorem within_of_not_knows (h : Stems home (.record fs) (.map es)) {key : String}
    (hkey : key ∈ Keyed.keys es) (hunknown : ¬ Fields.Knows fs key) :
    (Data.map es).Within home := by
  cases h with
  | literal h => exact h
  | record h =>
    obtain ⟨e, he, rfl⟩ := List.mem_map.mp hkey
    exact absurd (h e.1 e.2 he).1 hunknown

/-- A bare text is put into a field that the record has. -/
theorem bare {sub raw : String} (hsub : Fields.knows fs sub = true)
    (hraw : (Data.text raw).Within home) :
    Stems home (.record fs) (.map [(sub, .text raw)]) := by
  refine .record fun key y hy => ?_
  obtain ⟨rfl, rfl⟩ := Prod.mk.inj (List.mem_singleton.mp hy)
  exact ⟨Fields.knows_iff.mp hsub, hraw⟩

/-- Data whose bare texts are spelled out still stems from the document. -/
theorem expanded {sub : String} (hsub : Fields.knows fs sub = true)
    (hes : (Data.map es).Within home) :
    Stems home (.map (.record fs)) (.map (expanded sub es)) := by
  refine .map fun key y hy => ?_
  rcases mem_expanded hy with hy | ⟨raw, hraw, rfl⟩
  · exact .literal (hes.of_entry hy)
  · exact bare hsub (hes.of_entry hraw)

/-- What a field is bound from stands in the document, as far as it was not put there. -/
theorem spelled {d : Directives} (hd : d.string?.all s.takesText = true) (hx : x.Within home) :
    Stems home s (d.spelled s x) := by
  unfold Directives.spelled
  split
  · next sub raw fs hsub =>
    exact bare (by simpa [hsub, Shape.takesText] using hd) hx
  · next sub raw f hsub => simp [hsub, Shape.takesText] at hd
  · next sub es e hsub =>
    split
    · next he =>
      cases e with
      | record fs => exact expanded (by simpa [hsub, Shape.takesText] using hd) hx
      | oneOf f => simp [hsub, Shape.takesText] at hd
      | _ => cases he
    · exact .literal hx
  · exact .literal hx

/-- The payload of an action stands in the document, or is the list of a group's actions. -/
theorem payload {plan : Plan} (hx : x.Within home) (hplan : Entry.read x = .ok plan) :
    Stems home (.record (Variant.action plan.kind).fields) (.map plan.payload) := by
  rcases Entry.payload_of_read hplan with hnil | ⟨key, rfl⟩ | ⟨key, xs, rfl, hpayload, hkind⟩
  · rw [hnil]
    exact .record nofun
  · exact .literal (hx.of_entry List.mem_cons_self)
  · rw [hpayload]
    refine .record fun name y hy => ?_
    obtain ⟨rfl, rfl⟩ := Prod.mk.inj (List.mem_singleton.mp hy)
    exact ⟨Rig.knows_actions hkind, hx.of_entry List.mem_cons_self⟩

end Stems

namespace Place

/-- Whether the data of a place stands in its document, as far as it was not put there. -/
def IsGenuine : Place → Prop
  | ⟨document, .value s, x⟩ => s.isSpelled = true ∧ Stems document.data s x
  | ⟨document, .field d s, x⟩ =>
    s.isSpelled = true ∧ d.string?.all s.takesText = true ∧ x.Within document.data
  | ⟨document, _, x⟩ => x.Within document.data

variable {files : FileSystem} {p q : Place}

theorem Enters.isGenuine (h : Enters files p q) (hp : p.IsGenuine) : q.IsGenuine := by
  cases h with
  | slot hf hd hx =>
    obtain ⟨hs, hstems⟩ := hp
    obtain ⟨hfield, hs⟩ := spelled_of_mem hs hf
    refine ⟨hs, ?_, hstems.within_of_present hx⟩
    simpa [spelledField, hd] using hfield
  | entry hx => exact ⟨hp.1, hp.2.entry hx⟩
  | item hx => exact ⟨hp.1, hp.2.item hx⟩
  | plain _ => exact ⟨hp.1, .spelled hp.2.1 hp.2.2⟩
  | load h =>
    obtain ⟨-, -, rfl | rfl, -, -⟩ := h
    · exact ⟨hp.1, .literal .self⟩
    · exact ⟨hp.1, .literal .self⟩
  | fill _ _ => exact hp.2.2
  | chosen =>
    obtain ⟨-, hstems⟩ := hp
    cases hstems with
    | literal h => exact ⟨Rig.variant_spelled _, .literal h⟩
  | member _ hx _ => exact ⟨Rig.variant_spelled _, .literal (Data.Within.of_entry hp hx)⟩
  | actions hx => exact Data.Within.of_item hp hx
  | action => exact hp
  | payload hplan => exact ⟨Rig.variant_spelled _, .payload hp hplan⟩

/-- Walks come to data that stands in its document, as far as it was not put there. -/
theorem Reaches.isGenuine (h : Reaches files p q) (hp : p.IsGenuine) : q.IsGenuine := by
  induction h with
  | refl => exact hp
  | tail _ hstep ih => exact hstep.isGenuine ih

/-- A key that names no field of the record that a map is bound as stands in a document. -/
theorem within_of_not_knows {d document : Document} {fs : Fields} {es : List (String × Data)}
    (h : Reaches files d.place ⟨document, .value (.record fs), .map es⟩) {key : String}
    (hkey : key ∈ Keyed.keys es) (hunknown : ¬ Fields.Knows fs key) :
    (Data.map es).Within document.data := by
  have hstart : d.place.IsGenuine := ⟨Rig.config_spelled, .literal .self⟩
  exact (h.isGenuine hstart).2.within_of_not_knows hkey hunknown

/-! ## §3 Sound places -/

/-- Whether what the tags ask for at a place can be done. -/
def IsSound : Place → Prop
  | ⟨_, .value s, _⟩ => s.isSound = true
  | ⟨_, .field d s, _⟩ => Directed d s
  | _ => True

theorem Enters.isSound (h : Enters files p q) (hp : p.IsSound) : q.IsSound := by
  cases h with
  | slot hf hd _ => exact directed_of_mem hp hf hd
  | entry _ => exact hp
  | item _ => exact hp
  | plain hfactory => exact (hp.of_factory_none hfactory).1
  | load h =>
    obtain ⟨hfactory, -, hs, -, -⟩ := h
    have hsound := (hp.of_factory_none hfactory).1
    rcases hs with rfl | rfl <;> exact hsound
  | chosen => cases hp
  | member _ _ _ => exact Rig.variant_sound _
  | payload _ => exact Rig.variant_sound _
  | _ => trivial

/-- Walks keep to shapes whose tags are sound. -/
theorem Reaches.isSound (h : Reaches files p q) (hp : p.IsSound) : q.IsSound := by
  induction h with
  | refl => exact hp
  | tail _ hstep ih => exact hstep.isSound ih

end Place

end Testbed
