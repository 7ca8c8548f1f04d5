import Testbed.Proofs.Binding.Lineage
import Testbed.Proofs.Rig.Restored
import Testbed.Proofs.Rig.Spelling

/-!
# Refinement is conservative

A sandbox or an environment that refines another one embeds it as its parent, and the parent cannot
tell that it is embedded.

- A walk of a map into a member comes to a walk into each slot that it declares itself, and a walk
  into the parent (`Walker.assignLineage_refine_eq_ok_iff`).
- An overwrite that begins with the name of a field of the parent passes the member's own slots by
  and edits the parent (`Lineage.overwrite_refine`).

Both together are `refinement_conservative`, which also says that the member with its parents is
what a record with all its slots in one list stands for.
-/

namespace Testbed

open Binding

/-! ## §1 What a member embeds -/

namespace Variant

/-- The fields that a member declares itself. -/
def own : Variant → Fields
  | .sandbox p => Rig.sandboxOwn p
  | .environment p => Rig.environmentOwn p
  | .action k => Rig.action k

/-- The fields of a member and of the parents that it embeds. -/
def lineage : Variant → Lineage Shape
  | .sandbox p => Rig.lineage Rig.sandboxOwn p
  | .environment p => Rig.lineage Rig.environmentOwn p
  | .action k => .root (Rig.action k)

/-- The member that a member refines directly. -/
def refines? : Variant → Option Variant
  | .sandbox p => (Rig.refines? p).map .sandbox
  | .environment p => (Rig.refines? p).map .environment
  | .action _ => none

variable {v u : Variant}

/-- The fields of a member are those of its lineage, in one list. -/
theorem fields_eq_flat (v : Variant) : v.fields = v.lineage.flat := by
  cases v <;> rfl

/-- A member that refines another one has its own fields, and the lineage of the other. -/
theorem lineage_of_refines? (h : v.refines? = some u) : v.lineage = .refine v.own u.lineage := by
  cases v with
  | sandbox p =>
    obtain ⟨q, hq, rfl⟩ := Option.map_eq_some_iff.mp h
    exact Rig.lineage_of_refines hq
  | environment p =>
    obtain ⟨q, hq, rfl⟩ := Option.map_eq_some_iff.mp h
    exact Rig.lineage_of_refines hq
  | action k => cases h

/-- A member that refines another one has its own fields before those of the other. -/
theorem fields_of_refines? (h : v.refines? = some u) : v.fields = v.own ++ u.fields := by
  rw [fields_eq_flat, lineage_of_refines? h, Lineage.flat, ← fields_eq_flat]

/-- A field is written in documents under its name. -/
theorem documentName?_of_mem {fields : Fields} (ht : tidyFields fields = true) {e : Field × Shape}
    (h : e ∈ fields) : e.1.documentName? = some e.1.ident := by
  induction fields with
  | nil => simp at h
  | cons first rest ih =>
    obtain ⟨hname, -, -, -, hrest⟩ := tidyFields_cons.mp ht
    rcases List.mem_cons.mp h with rfl | h
    · exact hname
    · exact ih hrest h

/-- No field that a member declares itself hides one of its parent's. -/
theorem documentName?_own (h : v.refines? = some u) {name : String}
    (hname : u.fields.Knows name) :
    ∀ e ∈ v.own, ∃ n, e.1.documentName? = some n ∧ n ≠ name := by
  have htidy := Rig.variant_tidy v
  rw [fields_of_refines? h, tidyFields_append] at htidy
  obtain ⟨hown, hbase, hdistinct⟩ := htidy
  obtain ⟨f, s, hf, hfname⟩ := hname
  obtain rfl : f.ident = name := Option.some.inj ((documentName?_of_mem hbase hf).symm.trans hfname)
  intro e he
  exact ⟨e.1.ident, documentName?_of_mem hown he, (hdistinct e he _ hf).symm⟩

end Variant

/-- Whether a record and its parents have the fields that are declared for each, with values of
    their shapes. -/
inductive Lineage.Has : Lineage Value → Lineage Shape → Prop
  | root {own : Slots} {fields : Fields} (hown : Value.SlotsHave own fields) :
      Has (.root own) (.root fields)
  | refine {own : Slots} {fields : Fields} {parent : Lineage Value} {declared : Lineage Shape}
      (hown : Value.SlotsHave own fields) (hparent : parent.Has declared) :
      Has (.refine own parent) (.refine fields declared)

/-- A new record has the shapes of its lineage. -/
theorem Lineage.has_zero (declared : Lineage Shape) : declared.zero.Has declared := by
  induction declared with
  | root fields => exact .root (Value.slotsHave_zero fields)
  | refine fields declared ih => exact .refine (Value.slotsHave_zero fields) ih

/-- Slots of fields that come in two parts come in these parts too. -/
theorem Value.SlotsHave.append {slots : Slots} {own base : Fields}
    (h : SlotsHave slots (own ++ base)) :
    SlotsHave (slots.take own.length) own ∧ SlotsHave (slots.drop own.length) base := by
  induction own generalizing slots with
  | nil => exact ⟨.nil, h⟩
  | cons e rest ih =>
    cases h with
    | cons hv hslots =>
      obtain ⟨hown, hbase⟩ := ih hslots
      exact ⟨.cons hv hown, hbase⟩

/-- Every record of a member with all its slots in one list stands for one with its parents. -/
theorem Lineage.exists_has_of_slotsHave {declared : Lineage Shape} {slots : Slots}
    (h : Value.SlotsHave slots declared.flat) :
    ∃ r : Lineage Value, r.Has declared ∧ r.flat = slots := by
  induction declared generalizing slots with
  | root fields => exact ⟨.root slots, .root h, rfl⟩
  | refine fields declared ih =>
    obtain ⟨hown, hbase⟩ := h.append
    obtain ⟨parent, hparent, hflat⟩ := ih hbase
    refine ⟨.refine _ parent, .refine hown hparent, ?_⟩
    rw [flat, hflat, List.take_append_drop]

/-! ## §2 Walks -/

namespace Lineage

variable {context : Context} {d : Deeper} {document : Path} {es : List (String × Data)}

/-- No walk of fields depends on where it begins, those of what is refined included. -/
theorem fields_approximates (h : d.Approximates d) (data : List (String × Data))
    (r : Lineage Value) :
    (r.fields context d document data).Approximates (r.fields context d document data) := by
  have hslots (slots : Slots) : (Binding.fields context d document data slots).Approximates
      (Binding.fields context d document data slots) :=
    Walk.Congruence.fields h rfl data slots (.refl slots)
  induction r with
  | root own => exact .bind (hslots own) fun _ => .pure _
  | refine own parent ih => exact .bind (hslots own) fun _ => .bind ih fun _ => .pure _

/-- A record without a parent is bound slot by slot. -/
theorem fields_root_outcome (h : d.Approximates d) (own : Slots) :
    ((root own).fields context d document es).outcome =
      root <$> own.mapM fun s => (s.1, ·) <$> slotOutcome context d document es s.1 s.2 := by
  rw [fields, Walk.outcome_bind fun _ => .pure _, Binding.fields_outcome h]
  rfl

/-- The parent of a record is bound after the record's own slots, and to the same as by itself. -/
theorem fields_refine_outcome (h : d.Approximates d) (own : Slots) (parent : Lineage Value) :
    ((refine own parent).fields context d document es).outcome = (do
      let filled ← own.mapM fun s => (s.1, ·) <$> slotOutcome context d document es s.1 s.2
      let inherited ← (parent.fields context d document es).outcome
      .ok (refine filled inherited)) := by
  have hparent : (parent.fields context d document es).Approximates
      (parent.fields context d document es) := fields_approximates h es parent
  rw [fields, Walk.outcome_bind fun _ => .bind hparent fun _ => .pure _, Binding.fields_outcome h]
  congr 1
  funext filled
  rw [Walk.outcome_bind fun _ => .pure _]
  rfl

/-- No walk inside of a record depends on where it begins. -/
theorem recordInside_approximates (hstrict : context.strict = false) (h : d.Approximates d)
    (data : List (String × Data)) (r : Lineage Value) :
    (r.recordInside context d document data).Approximates
      (r.recordInside context d document data) := by
  rw [recordInside, hstrict]
  exact .insideMap (fields_approximates h data r)

/-- Where unknown keys are let through, a record is what its fields are bound to. -/
theorem recordInside_outcome (hstrict : context.strict = false) (h : d.Approximates d)
    (r : Lineage Value) :
    (r.recordInside context d document es).outcome = (r.fields context d document es).outcome := by
  rw [recordInside, hstrict]
  exact Walk.outcome_insideMap (fields_approximates h es r)

end Lineage

namespace Walker

variable {w : Walker} {es : List (String × Data)}

/-- A walk of a map into a record comes to what the fields of the record are bound to one level
    further down. -/
theorem assignLineage_eq_ok_iff (hstrict : w.context.strict = false) {r r' : Lineage Value} :
    (w.assignLineage (.map es) r).1 = .ok r' ↔ ∃ n, maxDepth - w.depth = n + 1 ∧
      (r.fields w.context (Deeper.level w.context n) w.document es).outcome = .ok r' := by
  have hrun := w.run_outcome fun _ document =>
    Lineage.assignAt w.context (maxDepth - w.depth) document (.map es) r
  rw [← assignLineage] at hrun
  cases hn : maxDepth - w.depth with
  | zero =>
    rw [hn] at hrun
    constructor
    · intro h
      rw [h] at hrun
      cases hrun
    · rintro ⟨n, hdepth, -⟩
      cases hdepth
  | succ n =>
    have hself : (Deeper.level w.context n).Approximates (Deeper.level w.context n) :=
      Deeper.level_self n
    rw [hn, Lineage.assignAt, Lineage.assign,
      (Lineage.recordInside_approximates hstrict hself es r).outcome_eq,
      Lineage.recordInside_outcome hstrict hself] at hrun
    constructor
    · intro h
      rw [h] at hrun
      exact ⟨n, rfl, hrun.symm⟩
    · rintro ⟨m, hm, hfields⟩
      obtain rfl : n = m := Nat.succ.inj hm
      rw [hfields] at hrun
      exact ok_of_mapError_eq_ok hrun

/-- Whether a slot by itself is filled from a map, and with what. -/
def Fills (w : Walker) (es : List (String × Data)) (s s' : Field × Value) : Prop :=
  (w.assignLineage (.map es) (.root [s])).1 = .ok (.root [s'])

/-- A walker fills a slot with what the slot comes to on the level below. -/
theorem fills_iff (hstrict : w.context.strict = false) {s s' : Field × Value} :
    w.Fills es s s' ↔ ∃ n, maxDepth - w.depth = n + 1 ∧
      (s.1, ·) <$> slotOutcome w.context (Deeper.level w.context n) w.document es s.1 s.2 =
        .ok s' := by
  rw [Fills, assignLineage_eq_ok_iff hstrict]
  refine exists_congr fun n => and_congr_right fun _ => ?_
  rw [Lineage.fields_root_outcome (Deeper.level_self n)]
  constructor
  · intro h
    obtain ⟨slots, hslots, heq⟩ := exists_ok_of_map h
    obtain rfl := Lineage.root.inj heq
    obtain ⟨y, zs, hy, -, hys⟩ := exists_ok_of_mapM_cons hslots
    obtain ⟨rfl, -⟩ := List.cons.inj hys
    exact hy
  · intro h
    have hslots : [s].mapM (fun s => (s.1, ·) <$>
        slotOutcome w.context (Deeper.level w.context n) w.document es s.1 s.2) = .ok [s'] :=
      mapM_eq_ok_iff.mpr (.cons h .nil)
    rw [hslots]
    rfl

/-- Slots are filled together where each can be filled by itself. -/
theorem exists_forall₂_fills_iff {slots : Slots} :
    (∃ slots', List.Forall₂ (w.Fills es) slots slots') ↔ ∀ s ∈ slots, ∃ s', w.Fills es s s' := by
  induction slots with
  | nil => simp
  | cons s rest ih =>
    rw [List.forall_mem_cons, ← ih]
    constructor
    · rintro ⟨_, hslots⟩
      cases hslots with
      | cons hs hrest => exact ⟨⟨_, hs⟩, _, hrest⟩
    · rintro ⟨⟨s', hs⟩, rest', hrest⟩
      exact ⟨s' :: rest', .cons hs hrest⟩

/-- A walk of a map into a record with a parent is one into each slot of its own, and one into the
    parent. -/
theorem assignLineage_refine_eq_ok_iff (hstrict : w.context.strict = false) {own : Slots}
    {p r' : Lineage Value} :
    (w.assignLineage (.map es) (.refine own p)).1 = .ok r' ↔ ∃ own' p', r' = .refine own' p' ∧
      List.Forall₂ (w.Fills es) own own' ∧ (w.assignLineage (.map es) p).1 = .ok p' := by
  simp only [assignLineage_eq_ok_iff hstrict]
  constructor
  · rintro ⟨n, hn, hfields⟩
    rw [Lineage.fields_refine_outcome (Deeper.level_self n)] at hfields
    obtain ⟨own', hown, hrest⟩ := exists_ok_of_bind hfields
    obtain ⟨p', hp, hpure⟩ := exists_ok_of_bind hrest
    refine ⟨own', p', (Except.ok.inj hpure).symm, ?_, n, hn, hp⟩
    exact (mapM_eq_ok_iff.mp hown).imp fun _ _ hs => (fills_iff hstrict).mpr ⟨n, hn, hs⟩
  · rintro ⟨own', p', rfl, hown, n, hn, hp⟩
    refine ⟨n, hn, ?_⟩
    have hmade := mapM_eq_ok_iff.mpr <| hown.imp fun s s' hs => by
      obtain ⟨m, hm, hslot⟩ := (fills_iff hstrict).mp hs
      obtain rfl : m = n := by omega
      exact hslot
    rw [Lineage.fields_refine_outcome (Deeper.level_self n), hmade, ok_bind, hp, ok_bind]

end Walker

/-! ## §3 Overwrites -/

namespace Lineage

/-- An edit by a name that is none of a record's own is left to what the record refines. -/
theorem editOwn?_eq_none {name : String} {own : Slots}
    (hown : ∀ s ∈ own, ∃ n, s.1.documentName? = some n ∧ n ≠ name) (edit : Edit) :
    editOwn? name edit own = none := by
  induction own with
  | nil => rfl
  | cons s rest ih =>
    obtain ⟨field, v⟩ := s
    obtain ⟨⟨n, hn, hne⟩, hrest⟩ := List.forall_mem_cons.mp hown
    unfold Field.documentName? at hn
    unfold editOwn?
    cases hread : Directives.read field.tag with
    | error key => simp [hread] at hn
    | ok d =>
      obtain rfl : d.name?.getD field.ident = n := by simpa [hread] using hn
      simp only [hne, if_false, ih hrest, Option.map_none]

/-- An overwrite whose route begins with a name that no slot of a record's own has is one of the
    parent. -/
theorem overwrite_refine {route : String} {segment : Segment}
    (hsegment : Segment.read ((Text.pieces '.' route).headD "") = .ok segment) {own : Slots}
    (hown : ∀ s ∈ own, ∃ n, s.1.documentName? = some n ∧ n ≠ segment.name) (raw : String)
    (p : Lineage Value) :
    (refine own p).overwrite route raw = (p.overwrite route raw).map (refine own) := by
  unfold overwrite
  cases hread : Segment.readRoute route with
  | error cause => rfl
  | ok segments =>
    obtain ⟨rest, rfl⟩ : ∃ rest, segments = segment :: rest := by
      unfold Segment.readRoute at hread
      split at hread
      · next hempty =>
        subst hempty
        cases hsegment
      · cases hpieces : Text.pieces '.' route with
        | nil => rw [hpieces] at hsegment; cases hsegment
        | cons piece pieces =>
          rw [hpieces] at hsegment hread
          obtain ⟨first, rest, hfirst, -, rfl⟩ := exists_ok_of_mapM_cons hread
          obtain rfl := Except.ok.inj (hfirst.symm.trans hsegment)
          exact ⟨rest, rfl⟩
    simp only [setAt, editField, editOwn?_eq_none hown]
    rfl

end Lineage

/-! ## §4 Both -/

open Value

/-- Along the chains of sandboxes and environments a value `r` is its own slots and its parent `p`,
    a value of the member that it refines. Where unknown keys are let through, a walk of a map into
    `r` succeeds exactly when the map can be walked into each slot of its own and into `p`, and
    leaves what these walks leave; and an overwrite that begins with the name of a field of `p` is
    the overwrite of `p`. Both are what happens to the record that has the slots of `r` and of its
    parents in one list. -/
theorem refinement_conservative {v u : Variant} (hrefines : v.refines? = some u)
    {r : Lineage Value} (hr : r.Has v.lineage) :
    ∃ own p, r = .refine own p ∧ SlotsHave own v.own ∧ p.Has u.lineage ∧
      (∀ (w : Walker) (es : List (String × Data)), w.context.strict = false →
        ((∃ r', (w.assignLineage (.map es) r).1 = .ok r') ↔
          (∀ s ∈ own, ∃ s', w.Fills es s s') ∧
            ∃ p', (w.assignLineage (.map es) p).1 = .ok p') ∧
        ∀ r', (w.assignLineage (.map es) r).1 = .ok r' →
          ∃ own' p', r' = .refine own' p' ∧ List.Forall₂ (w.Fills es) own own' ∧
            (w.assignLineage (.map es) p).1 = .ok p') ∧
      (∀ (route raw : String) (segment : Segment),
        Segment.read ((Text.pieces '.' route).headD "") = .ok segment →
        u.fields.Knows segment.name →
          r.overwrite route raw = (p.overwrite route raw).map (.refine own)) ∧
      (∀ (w : Walker) (es : List (String × Data)),
        w.assign (.map es) (record (some v) r.flat) =
          (w.assignLineage (.map es) r).map ((fun r' => record (some v) r'.flat) <$> ·) id) ∧
      ∀ route raw : String, overwrite route raw (record (some v) r.flat) =
        (r.overwrite route raw).map fun r' => record (some v) r'.flat := by
  rw [Variant.lineage_of_refines? hrefines] at hr
  cases hr with
  | @refine own _ p _ hown hp =>
    refine ⟨own, p, rfl, hown, hp, ?walks, ?overwrites,
      fun w es => w.assign_flat (fun hnull => by cases hnull) _,
      fun route raw => overwrite_flat route raw _ _⟩
    case walks =>
      intro w es hstrict
      -- own slots and parent are walked apart, and put together again
      have hiff (r' : Lineage Value) :
          (w.assignLineage (.map es) (.refine own p)).1 = .ok r' ↔ _ :=
        Walker.assignLineage_refine_eq_ok_iff hstrict
      refine ⟨?_, fun r' => (hiff r').mp⟩
      rw [← Walker.exists_forall₂_fills_iff]
      constructor
      · rintro ⟨r', hr'⟩
        obtain ⟨own', p', -, hown', hp'⟩ := (hiff r').mp hr'
        exact ⟨⟨own', hown'⟩, p', hp'⟩
      · rintro ⟨⟨own', hown'⟩, p', hp'⟩
        exact ⟨_, (hiff _).mpr ⟨own', p', rfl, hown', hp'⟩⟩
    case overwrites =>
      intro route raw segment hsegment hknows
      refine Lineage.overwrite_refine hsegment (fun s hs => ?_) raw p
      obtain ⟨e, he, hfield⟩ := hown.mem hs
      exact hfield ▸ Variant.documentName?_own hrefines hknows e he

/-- A sandbox for `docker` embeds one for containers, whose image is tagged alike in both. -/
theorem refinement_conservative_docker :
    let r := (Variant.sandbox .docker).lineage.zero
    let w := Walker.fresh ⟨StoredFiles.empty.fileSystem, .standard, false⟩
    let es := [("image", Data.text "web"), ("network_name", Data.text "net")]
    (Variant.sandbox .docker).refines? = some (.sandbox .container) ∧
      r.Has (Variant.sandbox .docker).lineage ∧
      ∃ own p, r = .refine own p ∧
        ((∃ r', (w.assignLineage (.map es) r).1 = .ok r') ↔
          (∀ s ∈ own, ∃ s', w.Fills es s s') ∧
            ∃ p', (w.assignLineage (.map es) p).1 = .ok p') ∧
        r.overwrite "image.tag" "latest" =
          (p.overwrite "image.tag" "latest").map (.refine own) := by
  intro r w es
  have hr : r.Has (Variant.sandbox .docker).lineage := Lineage.has_zero _
  obtain ⟨own, p, heq, -, -, hwalk, hover, -⟩ :=
    refinement_conservative (v := .sandbox .docker) (u := .sandbox .container) rfl hr
  have himage : (Variant.sandbox .container).fields.Knows "image" :=
    Fields.knows_iff.mp (by decide +kernel)
  exact ⟨rfl, hr, own, p, heq, (hwalk w es rfl).1,
    hover "image.tag" "latest" ⟨"image", none⟩ (by decide +kernel) himage⟩

end Testbed
