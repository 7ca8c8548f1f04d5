import Testbed.Proofs.Binding.Grammar
import Testbed.Proofs.Binding.Settled
import Testbed.Proofs.Binding.Position
import Testbed.Proofs.Rig.ActionSlots

/-!
# Which actions are accepted

An entry makes an action exactly where it has a form of the grammar and its payload can be walked
into the record of its verb: each field that is bound by its shape takes what is under its name, and
the fields that are filled by factories are given actions that are accepted in turn
(`action_ok_iff`). Walks that are too deep are left out; so an entry that is accepted makes an
action wherever there are levels enough.
-/

namespace Testbed

/-! ## §1 Acceptance -/

/-- Whether data stands, among the entries for an action, under the name of a field that a factory
    fills. -/
def Given (kind : ActionKind) (es : List (String × Data)) (factory : String) (x : Data) : Prop :=
  ∃ f target d, (f, target) ∈ Fields.zero (Rig.action kind) ∧ Binding.directives f = .ok d ∧
    d.factory? = some factory ∧ Binding.present? (Binding.documentName f d) es = some x

/-- Data that is given for a factory is what the field with the factory in its tag finds under its
    name. -/
theorem Given.filled {kind : ActionKind} {es : List (String × Data)} {factory : String} {x : Data}
    (h : Given kind es factory x) :
    ∃ f target d, (f, target) ∈ Fields.zero (Rig.action kind) ∧ Binding.directives f = .ok d ∧
      d.factory? = some factory ∧ Binding.present? (Binding.documentName f d) es = some x ∧
      Rig.Filled d target := by
  obtain ⟨f, target, d, hmem, hd, hfactory, hx⟩ := h
  obtain ⟨d', hd', -, hfilled⟩ := Rig.filled_of_mem hmem
  obtain rfl : d' = d := Except.ok.inj (hd'.symm.trans hd)
  exact ⟨f, target, d', hmem, hd, hfactory, hx, hfilled⟩

/-- Which entries are accepted as actions. A text names a service for a verb that needs no payload.
    A key with its payload has one of the forms, and the payload can be walked into the record of
    its verb: where keys are checked, they name fields; each field that no factory fills takes what
    is under its name, or its default; and what is given for nested actions is accepted. -/
inductive Accepted (context : Context) (document : Path) : Data → Prop
  | shorthand {verb service : String} {kind : ActionKind}
      (hverb : (verb, kind) ∈ Entry.shorthandVerbs) (hservice : service ≠ "")
      (hslash : '/' ∉ service.toList) : Accepted context document (.text (verb ++ "/" ++ service))
  | keyed {key : String} {payload : Data} {kind : ActionKind} {es : List (String × Data)}
      (hform : Entry.Form key payload kind es)
      (hknown : context.strict = true →
        ∀ k ∈ Keyed.keys es, k ∈ (Fields.zero (Rig.action kind)).map (·.1.ident))
      (hplain : ∀ f target d, (f, target) ∈ Fields.zero (Rig.action kind) →
        Binding.directives f = .ok d → d.factory? = none →
        ∃ n v, Binding.slotOutcome context (Deeper.level context n) document es f target = .ok v)
      (hlist : ∀ x, Given kind es "actions" x → ∃ xs, x = .list xs)
      (hactions : ∀ xs, Given kind es "actions" (.list xs) →
        ∀ entry ∈ xs, Accepted context document entry)
      (haction : ∀ x, Given kind es "action" x → Accepted context document x) :
      Accepted context document (.map [(key, payload)])

/-! ## §2 Walking payloads -/

section

open Binding Walk Position

variable {context : Context} {document : Path} {kind : ActionKind} {es : List (String × Data)}

/-- The fields of actions are named in documents as they are named here. -/
theorem documentNames_action (kind : ActionKind) :
    documentNames (Fields.zero (Rig.action kind)) =
      .ok ((Fields.zero (Rig.action kind)).map (·.1.ident)) :=
  documentNames_of_slotsHave (Value.slotsHave_zero _) (Rig.action_tidy kind)

/-- The keys of a record of an action are checked and found to name fields, or are not checked. -/
theorem keysCheck_ok_iff :
    keysCheck context document es (Fields.zero (Rig.action kind)) = .ok () ↔
      (context.strict = true →
        ∀ k ∈ Keyed.keys es, k ∈ (Fields.zero (Rig.action kind)).map (·.1.ident)) := by
  unfold keysCheck
  split
  · next hstrict => simp [checkKeys_ok_iff (documentNames_action kind), hstrict]
  · next hstrict => simp [hstrict]

/-- Walking entries into the record of an action, one level down. -/
theorem action_value_outcome (n : Nat) :
    outcome context document (n + 1) (.value (Variant.action kind).zero) (.map es) =
      keysCheck context document es (Fields.zero (Rig.action kind)) >>= fun _ =>
        .record (some (.action kind)) <$>
          (Fields.zero (Rig.action kind)).mapM fun s => (s.1, ·) <$>
            slotOutcome context (Deeper.level context n) document es s.1 s.2 :=
  assign_record_outcome_checked (Deeper.level_self _) _ _

/-- What is given to a field that a factory fills is bound by the factory. -/
theorem slotOutcome_factory {f : Field} {target : Value} {d : Directives} {name : String}
    {factory : Factory} (hd : directives f = .ok d) (hname : d.factory? = some name)
    (hfactory : context.factories.get? name = some factory) (htarget : target ≠ .absent)
    {x : Data} (hx : present? (documentName f d) es = some x) (n : Nat) :
    slotOutcome context (Deeper.level context n) document es f target =
      ((Deeper.level context n).fill factory document x target).outcome :=
  (slotOutcome_present hd htarget hx).trans (field_outcome_factory hname hfactory target n x)

/-- What an entry comes to, as reading goes. -/
theorem entry_outcome_succ (n : Nat) (entry : Data) :
    outcome context document (n + 1) .entry entry = (do
      let plan ← Entry.read entry
      let bound ← outcome context document n (.value (Variant.action plan.kind).zero)
        (.map plan.payload)
      pure (plan.finish bound)) :=
  action_outcome (Deeper.level_self _) entry

theorem standard_actions (h : context.factories = .standard) :
    context.factories.get? "actions" = some .actions := by
  rw [h]
  decide

theorem standard_action (h : context.factories = .standard) :
    context.factories.get? "action" = some .action := by
  rw [h]
  decide

/-! ## §3 What is accepted settles -/

/-- A payload settles in the record of its verb if the fields do. -/
theorem settles_action_value
    (hkeys : keysCheck context document es (Fields.zero (Rig.action kind)) = .ok ())
    (hslots : ∀ f target, (f, target) ∈ Fields.zero (Rig.action kind) →
      ∀ n, Settles (slotOutcome context (Deeper.level context n) document es f target)) (n : Nat) :
    Settles (outcome context document n (.value (Variant.action kind).zero) (.map es)) := by
  cases n with
  | zero => exact settles_tooDeep
  | succ n =>
    rw [action_value_outcome, hkeys, ok_bind]
    apply Settles.map
    apply settles_mapM
    intro s hs
    exact (hslots s.1 s.2 hs n).map _

/-- An entry settles where its payload does, on every level. -/
theorem settles_entry {entry : Data} (hread : Entry.Reads entry kind es)
    (hpayload : ∀ n,
      Settles (outcome context document n (.value (Variant.action kind).zero) (.map es)))
    (n : Nat) :
    Settles (outcome context document n .entry entry) := by
  obtain ⟨plan, hplan, rfl, rfl⟩ := Entry.reads_iff.mp hread
  cases n with
  | zero => exact settles_tooDeep
  | succ n =>
    rw [entry_outcome_succ, hplan, ok_bind]
    exact (hpayload n).bind fun bound => settles_ok (plan.finish bound)

/-- An accepted entry is bound or too deep; no check refuses it. -/
theorem settles_of_accepted (hfactories : context.factories = .standard) {entry : Data}
    (h : Accepted context document entry) (n : Nat) :
    Settles (outcome context document n .entry entry) := by
  -- by induction on the acceptance, which knows the nested actions, for all numbers of levels
  induction h generalizing n with
  | @shorthand verb service kind hverb hservice hslash =>
    refine settles_entry (.shorthand hverb hservice hslash) ?_ n
    apply settles_action_value
    · exact keysCheck_ok_iff.mpr (by simp)
    · intro f target hmem n
      -- without a payload every field takes its default
      obtain ⟨d, hd, ⟨v, hv⟩, hfilled⟩ := Rig.filled_of_mem hmem
      rw [slotOutcome_absent hd hfilled.ne_absent rfl, hv]
      exact settles_ok v
  | @keyed key payload kind es hform hknown hplain hlist hactions haction ihactions ihaction =>
    refine settles_entry (.keyed hform) ?_ n
    apply settles_action_value
    · exact keysCheck_ok_iff.mpr hknown
    · intro f target hmem n
      -- a field is left out, or is filled in one of three ways
      obtain ⟨d, hd, ⟨v, hv⟩, hfilled⟩ := Rig.filled_of_mem hmem
      have habsent := hfilled.ne_absent
      cases hx : present? (documentName f d) es with
      | none =>
        rw [slotOutcome_absent hd habsent hx, hv]
        exact settles_ok v
      | some x =>
        cases hfilled with
        | plain hfactory _ =>
          refine settles_of_levels (fun hle => ?_) (hplain f target d hmem hd hfactory) n
          exact slotOutcome_approximates (Deeper.level_approximates hle) es f target
        | actions hfactory =>
          have hgiven : Given kind es "actions" x := ⟨f, _, d, hmem, hd, hfactory, hx⟩
          obtain ⟨xs, rfl⟩ := hlist x hgiven
          rw [slotOutcome_factory hd hfactory (standard_actions hfactories) habsent hx]
          cases n with
          | zero => exact settles_tooDeep
          | succ n =>
            rw [level_fill, fill_actions_outcome (Deeper.level_self _)]
            exact (settles_mapM fun entry hentry => ihactions xs hgiven entry hentry n).map _
        | action hfactory =>
          have hgiven : Given kind es "action" x := ⟨f, _, d, hmem, hd, hfactory, hx⟩
          rw [slotOutcome_factory hd hfactory (standard_action hfactories) habsent hx]
          cases n with
          | zero => exact settles_tooDeep
          | succ n => exact ihaction x hgiven n

/-! ## §4 What has a result is accepted -/

/-- Whether all fields of an action are bound from entries, with so many levels left. -/
def FieldsBound (context : Context) (document : Path) (kind : ActionKind)
    (es : List (String × Data)) (n : Nat) : Prop :=
  ∀ f target, (f, target) ∈ Fields.zero (Rig.action kind) →
    ∃ w, slotOutcome context (Deeper.level context n) document es f target = .ok w

/-- Where the payload of an action is bound, its keys are known and each of its fields is bound. -/
theorem fieldsBound_of_ok {n : Nat} {bound : Value}
    (h : outcome context document (n + 1) (.value (Variant.action kind).zero) (.map es) =
      .ok bound) :
    keysCheck context document es (Fields.zero (Rig.action kind)) = .ok () ∧
      FieldsBound context document kind es n := by
  rw [action_value_outcome] at h
  obtain ⟨_, hkeys, hrecord⟩ := exists_ok_of_bind h
  obtain ⟨slots, hslots, -⟩ := exists_ok_of_map hrecord
  refine ⟨hkeys, fun f target hmem => ?_⟩
  obtain ⟨s, hs⟩ := exists_ok_of_mapM hslots _ hmem
  obtain ⟨w, hw, -⟩ := exists_ok_of_map hs
  exact ⟨w, hw⟩

section

variable {n : Nat} {x : Data}

/-- A factory has filled the fields that it is asked for. -/
theorem Given.filled_ok {name : String} {factory : Factory} (hx : Given kind es name x)
    (hget : context.factories.get? name = some factory)
    (hbound : FieldsBound context document kind es n) :
    ∃ d target w, Rig.Filled d target ∧ d.factory? = some name ∧
      ((Deeper.level context n).fill factory document x target).outcome = .ok w := by
  obtain ⟨f, target, d, hmem, hd, hname, hpresent, hfilled⟩ := hx.filled
  obtain ⟨w, hw⟩ := hbound f target hmem
  rw [slotOutcome_factory hd hname hget hfilled.ne_absent hpresent] at hw
  exact ⟨d, target, w, hfilled, hname, hw⟩

/-- Where the fields of an action are bound, what is given for its nested actions is a list, and
    each of its entries is made on a lower level. -/
theorem Given.actions_ok (hx : Given kind es "actions" x)
    (hfactories : context.factories = .standard)
    (hbound : FieldsBound context document kind es n) :
    ∃ xs, x = .list xs ∧
      ∀ entry ∈ xs, ∃ m < n, ∃ w, outcome context document m .entry entry = .ok w := by
  obtain ⟨d, target, v, hfilled, hname, hv⟩ :=
    hx.filled_ok (standard_actions hfactories) hbound
  cases n with
  | zero => cases hv
  | succ m =>
    cases hfilled with
    | plain hnone => simp [hnone] at hname
    | action hother => simp [hother] at hname
    | actions =>
      cases x with
      | list xs =>
        refine ⟨xs, rfl, fun entry hentry => ⟨m, by omega, ?_⟩⟩
        rw [level_fill, fill_actions_outcome (Deeper.level_self _)] at hv
        obtain ⟨vs, hvs, -⟩ := exists_ok_of_map hv
        exact exists_ok_of_mapM hvs entry hentry
      | _ => cases hv

/-- Where the fields of an action are bound, the entry that is given for its nested action is made
    on a lower level. -/
theorem Given.action_ok (hx : Given kind es "action" x)
    (hfactories : context.factories = .standard)
    (hbound : FieldsBound context document kind es n) :
    ∃ m < n, ∃ w, outcome context document m .entry x = .ok w := by
  obtain ⟨d, target, v, hfilled, hname, hv⟩ :=
    hx.filled_ok (standard_action hfactories) hbound
  cases n with
  | zero => cases hv
  | succ m =>
    cases hfilled with
    | plain hnone => simp [hnone] at hname
    | actions hother => simp [hother] at hname
    | action => exact ⟨m, by omega, v, hv⟩

end

/-- An entry that is made into an action is accepted. The levels go down with each nested entry. -/
theorem accepted_of_ok (hfactories : context.factories = .standard) {n : Nat} {entry : Data}
    {v : Value} (h : outcome context document n .entry entry = .ok v) :
    Accepted context document entry := by
  -- by induction on the levels: a nested action is walked with fewer of them left
  induction n using Nat.strong_induction_on generalizing entry v with
  | _ n ih =>
    cases n with
    | zero => cases h
    | succ n =>
      rw [entry_outcome_succ] at h
      obtain ⟨plan, hplan, hrest⟩ := exists_ok_of_bind h
      obtain ⟨bound, hbound, -⟩ := exists_ok_of_bind hrest
      obtain ⟨kind, es, hreads, hvalue⟩ : ∃ kind es, Entry.Reads entry kind es ∧
          outcome context document n (.value (Variant.action kind).zero) (.map es) = .ok bound :=
        ⟨_, _, Entry.reads_iff.mpr ⟨plan, hplan, rfl, rfl⟩, hbound⟩
      cases hreads with
      | shorthand hverb hservice hslash => exact .shorthand hverb hservice hslash
      | keyed hform =>
        cases n with
        | zero => cases hvalue
        | succ n =>
          obtain ⟨hkeys, hfields⟩ := fieldsBound_of_ok hvalue
          refine .keyed hform (keysCheck_ok_iff.mp hkeys) ?_ ?_ ?_ ?_
          · intro f target d hmem _ _
            obtain ⟨w, hw⟩ := hfields f target hmem
            exact ⟨n, w, hw⟩
          · intro x hx
            obtain ⟨xs, hxs, -⟩ := hx.actions_ok hfactories hfields
            exact ⟨xs, hxs⟩
          · intro xs hx entry hentry
            obtain ⟨_, ⟨rfl⟩, hentries⟩ := hx.actions_ok hfactories hfields
            obtain ⟨m, hm, w, hw⟩ := hentries entry hentry
            exact ih m (by omega) hw
          · intro x hx
            obtain ⟨m, hm, w, hw⟩ := hx.action_ok hfactories hfields
            exact ih m (by omega) hw

/-- An entry on which no walk is too deep makes an action exactly where it is accepted, whatever the
    walker has done before. -/
theorem action_ok_iff (w : Walker) (hfactories : w.context.factories = .standard) {entry : Data}
    (hdepth : ∀ e, (w.action entry).1 = .error e → e.root ≠ .tooDeep maxDepth) :
    (∃ v, (w.action entry).1 = .ok v) ↔ Accepted w.context w.document entry := by
  have hrun : (w.action entry).1.mapError Error.root =
      outcome w.context w.document (maxDepth - w.depth) .entry entry :=
    (w.run_outcome _).trans
      (((Deeper.level_self _).action w.document entry).outcome_eq w.location)
  constructor
  · rintro ⟨v, hv⟩
    rw [hv] at hrun
    exact accepted_of_ok hfactories hrun.symm
  · intro h
    cases hv : (w.action entry).1 with
    | ok v => exact ⟨v, rfl⟩
    | error e =>
      -- what is accepted fails only for being too deep
      rw [hv] at hrun
      rcases settles_of_accepted hfactories h (maxDepth - w.depth) with hdeep | ⟨v, hok⟩
      · rw [hdeep] at hrun
        exact absurd (Except.error.inj hrun) (by simpa [Walk.tooDeep] using hdepth e hv)
      · rw [hok] at hrun
        cases hrun

/-- A negated action is accepted; a parallel group with a name is not. -/
theorem action_ok_iff_negation :
    let context : Context := ⟨StoredFiles.empty.fileSystem, .standard, false⟩
    Accepted context "" (.map [("not", .map [("action", .map [("stop/web", .null)])])]) ∧
      ¬ Accepted context "" (.map [("parallel/web/load", .list [.text "bench/web"])]) := by
  intro context
  let walker := Walker.fresh context
  let negation := Data.map [("not", .map [("action", .map [("stop/web", .null)])])]
  constructor
  · have hsome : (walker.action negation).1.toOption.isSome = true := by decide +kernel
    obtain ⟨v, hv⟩ := Option.isSome_iff_exists.mp hsome
    have hok : (walker.action negation).1 = .ok v := ok_of_toOption_eq_some hv
    refine (action_ok_iff walker rfl fun e he => ?_).mp ⟨v, hok⟩
    cases hok.symm.trans he
  · have hfail : (walker.action (.map [("parallel/web/load", .list [.text "bench/web"])])).1 =
        .error (.cause (.badAction "parallel/web/load" (.nameForbidden "parallel"))) := rfl
    intro haccepted
    obtain ⟨v, hv⟩ := (action_ok_iff walker rfl (by simp [hfail, Error.root])).mpr haccepted
    rw [hfail] at hv
    cases hv

end

end Testbed
