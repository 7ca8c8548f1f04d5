import Testbed.Proofs.Binding.Acceptance
import Testbed.Proofs.Binding.Checked
import Testbed.Proofs.Binding.Parts

/-!
# What the key of an action says

The segments of a key are a verb, a service and a name. The action that is made from a key and its
payload has the verb of the key, and the service and the name wherever the key has them; everything
else it has from the payload, walked alone into the record of the verb (`action_fromKey`). A key
that has a segment too many for its verb is not accepted, so none is lost.
-/

namespace Testbed

open Binding Walk Value

/-! ## §1 The segments of a key -/

namespace Entry

variable {key verb : String} {rest : List String} {kind : ActionKind} {payload : Data}
  {es : List (String × Data)}

/-- The verbs whose actions keep their results under an identifier. -/
def resultVerbs : List String := ["request", "bench", "execute"]

/-- The verbs whose actions are reported under a name. -/
def namedVerbs : List String := ["expect", "sequential"]

/-- Whether an action of a kind is what a verb stands for; an expectation is of the kind that the
    payload has the key for. -/
def IsVerbOf (verb : String) (es : List (String × Data)) (kind : ActionKind) : Prop :=
  kind.verb = verb ∧ (verb = "expect" → ∃ type, (type, kind) ∈ expectationTypes ∧
    (Keyed.keys es).filter (· ∈ Keyed.keys expectationTypes) = [type])

/-- A verb in one of the tables is the verb of its kind. -/
theorem isVerbOf_of_mem {verbs : List (String × ActionKind)} (h : (verb, kind) ∈ verbs)
    (hverbs : ∀ e ∈ verbs, e.2.verb = e.1 ∧ e.1 ≠ "expect") : IsVerbOf verb es kind :=
  ⟨(hverbs _ h).1, fun hexpect => absurd hexpect (hverbs _ h).2⟩

/-- A key with its payload stands for an action of its verb. -/
theorem Form.isVerbOf (h : Form key payload kind es) (hkey : IsKey key (verb :: rest)) :
    IsVerbOf verb es kind := by
  cases h with
  | lifeCycle hverb hkey' _ =>
    obtain ⟨rfl, -⟩ := List.cons.inj (isKey_unique hkey hkey')
    exact isVerbOf_of_mem hverb (by decide)
  | workload hverb hkey' _ =>
    obtain ⟨rfl, -⟩ := List.cons.inj (isKey_unique hkey hkey')
    exact isVerbOf_of_mem hverb (by decide)
  | parallel hkey' _ _ =>
    obtain ⟨rfl, -⟩ := List.cons.inj (isKey_unique hkey hkey')
    exact ⟨rfl, by simp⟩
  | sequential hkey' _ =>
    obtain ⟨rfl, -⟩ := List.cons.inj (isKey_unique hkey hkey')
    exact ⟨rfl, by simp⟩
  | not hkey' _ =>
    obtain ⟨rfl, -⟩ := List.cons.inj (isKey_unique hkey hkey')
    exact ⟨rfl, by simp⟩
  | @expect _ type _ _ hkey' _ htype hkind =>
    obtain ⟨rfl, -⟩ := List.cons.inj (isKey_unique hkey hkey')
    have hexpect : ∀ e ∈ expectationTypes, e.2.verb = "expect" := by decide
    exact ⟨hexpect _ hkind, fun _ => ⟨type, hkind, htype⟩⟩

/-- A negation has neither a service nor a name. -/
theorem Form.alone (h : Form key payload .not es) (hkey : IsKey key (verb :: rest)) :
    rest = [] := by
  cases h with
  | not hkey' _ => exact (List.cons.inj (isKey_unique hkey hkey')).2
  | lifeCycle hverb _ _ => exact absurd hverb (by simp [lifeCycleVerbs])
  | workload hverb _ _ => exact absurd hverb (by simp [workloadVerbs])
  | expect _ _ _ hkind => exact absurd hkind (by simp [expectationTypes])

/-- Where an action has no field for it, the key has no name. -/
theorem Form.noName (h : Form key payload kind es) (hkey : IsKey key (verb :: rest))
    (hkind : Plan.nameField? kind = none) : rest[1]? = none := by
  cases h with
  | lifeCycle _ hkey' _ =>
    obtain ⟨-, rfl⟩ := List.cons.inj (isKey_unique hkey hkey')
    rfl
  | workload hverb _ _ =>
    have hnames : ∀ e ∈ workloadVerbs, Plan.nameField? e.2 ≠ none := by decide
    exact absurd hkind (hnames _ hverb)
  | parallel hkey' hlength _ =>
    obtain ⟨-, rfl⟩ := List.cons.inj (isKey_unique hkey hkey')
    exact List.getElem?_eq_none hlength
  | sequential _ _ => cases hkind
  | not hkey' _ =>
    obtain ⟨-, rfl⟩ := List.cons.inj (isKey_unique hkey hkey')
    rfl
  | expect _ _ _ htype =>
    have hnames : ∀ e ∈ expectationTypes, Plan.nameField? e.2 ≠ none := by decide
    exact absurd hkind (hnames _ htype)

end Entry

/-! ## §2 What a key sets -/

namespace Plan

variable {kind : ActionKind} {slots : Slots}

/-- The field that a key sets has the text from the key, and its own where the key has none. -/
theorem slot?_setText_self {ident : String} {raw : Option String} {variant : Option Variant}
    (h : ((record variant slots).slot? ident).isSome = true) :
    (setText (some ident) raw (record variant slots)).slot? ident =
      (raw.map .text).or ((record variant slots).slot? ident) := by
  cases raw with
  | none => rfl
  | some raw =>
    obtain ⟨w, hw⟩ := Option.isSome_iff_exists.mp h
    exact (slot?_setSlot variant slots ident ident _).trans (by rw [if_pos rfl, hw]; rfl)

/-- Setting a field leaves a record with its variant and its other fields. -/
theorem exists_setText (ident raw : Option String) (variant : Option Variant) (slots : Slots) :
    ∃ slots', setText ident raw (record variant slots) = record variant slots' := by
  cases ident with
  | none => exact ⟨slots, rfl⟩
  | some ident =>
    cases raw with
    | none => exact ⟨slots, rfl⟩
    | some raw => exact ⟨_, rfl⟩

/-- Whether a record declares a field. -/
def declares (fs : Fields) (ident : String) : Bool :=
  fs.any (·.1.ident = ident)

/-- An action has the fields that are declared for its kind. -/
theorem isSome_slot? (h : SlotsBuilt slots (Rig.action kind)) {ident : String}
    (hident : declares (Rig.action kind) ident = true) :
    ((record (some (.action kind)) slots).slot? ident).isSome = true := by
  obtain ⟨⟨f, s⟩, hfield, heq⟩ := List.any_eq_true.mp hident
  obtain rfl : f.ident = ident := by simpa using heq
  obtain ⟨w, hw, -⟩ := h.exists_slot hfield
  rw [h.slot?_of_mem (Rig.action_tidy kind) _ hw]
  rfl

/-- Every kind of action but negation has a service. -/
theorem declares_service (hkind : kind ≠ .not) : declares (Rig.action kind) "service" = true := by
  cases kind <;> first | rfl | exact absurd rfl hkind

/-- The field for the name of an action is declared for its kind. -/
theorem declares_nameField {ident : String} (h : nameField? kind = some ident) :
    declares (Rig.action kind) ident = true := by
  cases kind <;> cases h <;> rfl

/-- The name and the service of an action are different fields. -/
theorem nameField?_ne_service : nameField? kind ≠ some "service" := by
  cases kind <;> decide

/-- A field of the finished action: the one that a name goes into, the service, or another. -/
theorem slot?_finish (plan : Plan) (h : SlotsBuilt slots (Rig.action plan.kind)) (ident : String) :
    (plan.finish (record (some (.action plan.kind)) slots)).slot? ident =
      if nameField? plan.kind = some ident then
        (plan.name.map .text).or ((record (some (.action plan.kind)) slots).slot? ident)
      else if ident = "service" ∧ plan.kind ≠ .not then
        (plan.service.map .text).or ((record (some (.action plan.kind)) slots).slot? ident)
      else (record (some (.action plan.kind)) slots).slot? ident := by
  -- the service is set first, then the name, and they go into different fields
  rw [finish]
  obtain ⟨slots', hservice⟩ := exists_setText (if plan.kind = .not then none else some "service")
    plan.service (some (.action plan.kind)) slots
  have hother (hident : ident = "service" → plan.kind = .not) :
      (record (some (.action plan.kind)) slots').slot? ident =
        (record (some (.action plan.kind)) slots).slot? ident := by
    rw [← hservice]
    apply slot?_setText
    split
    · simp
    · next hkind => exact fun heq => hkind (hident (Option.some.inj heq).symm)
  rw [hservice]
  split
  · next hname =>
    have hident : ident = "service" → plan.kind = .not := by
      rintro rfl
      exact absurd hname nameField?_ne_service
    rw [hname, slot?_setText_self, hother hident]
    rw [hother hident]
    exact isSome_slot? h (declares_nameField hname)
  · next hname =>
    rw [slot?_setText hname]
    split
    · next hident =>
      obtain ⟨rfl, hkind⟩ := hident
      rw [if_neg hkind] at hservice
      rw [← hservice, slot?_setText_self (isSome_slot? h (declares_service hkind))]
    · next hident => exact hother fun heq => by_contra fun hkind => hident ⟨heq, hkind⟩

/-- Finishing an action leaves it one of its kind. -/
theorem exists_finish (plan : Plan) (kind : ActionKind) (slots : Slots) :
    ∃ slots', plan.finish (record (some (.action kind)) slots) =
      record (some (.action kind)) slots' := by
  obtain ⟨slots₁, h₁⟩ := exists_setText (if plan.kind = .not then none else some "service")
    plan.service (some (.action kind)) slots
  rw [finish, h₁]
  exact exists_setText _ _ _ _

/-- The key of an entry does not change the kind of its action. -/
theorem actionKind?_finish (plan : Plan) (slots : Slots) :
    (plan.finish (record (some (.action kind)) slots)).actionKind? = some kind := by
  obtain ⟨slots', hslots'⟩ := exists_finish plan kind slots
  rw [hslots']
  rfl

end Plan

/-! ## §3 The service of a payload -/

section

variable {context : Context} {document : Path} {kind : ActionKind} {es : List (String × Data)}
  {bound : Value} {n : Nat}

/-- The text among entries under a key, or none. -/
def textUnder (key : String) (es : List (String × Data)) : String :=
  match present? key es with
  | some (.text s) => s
  | _ => ""

/-- What is bound in place of a text was one, if it was not null. -/
theorem text_of_level_assign {x : Data} {t : String} {v : Value} (hx : x.isNull = false)
    (h : ((Deeper.level context n).assign document x (.text t)).outcome = .ok v) :
    ∃ s, x = .text s ∧ v = .text s := by
  cases n with
  | zero => cases h
  | succ n =>
    cases x with
    | null => cases hx
    | text s =>
      cases h
      exact ⟨s, rfl, rfl⟩
    | _ => cases h

/-- The first field of an action, but for a negation, is its service. -/
theorem exists_serviceField (hkind : kind ≠ .not) :
    ∃ owner, (⟨owner, "service", "service"⟩, .text "") ∈ Fields.zero (Rig.action kind) := by
  cases kind <;> first | exact ⟨_, List.mem_cons_self⟩ | exact absurd rfl hkind

theorem read_service : Directives.read "service" = .ok ⟨[("name", "service")]⟩ := by
  decide +kernel

/-- The service of a payload is the text under its key, or empty. -/
theorem slotOutcome_service {owner : String} {w : Value}
    (h : slotOutcome context (Deeper.level context n) document es ⟨owner, "service", "service"⟩
      (.text "") = .ok w) : w = .text (textUnder "service" es) := by
  have hd : directives ⟨owner, "service", "service"⟩ = .ok ⟨[("name", "service")]⟩ := by
    rw [directives, read_service]
  rw [textUnder]
  cases hx : present? "service" es with
  | none =>
    rw [slotOutcome_absent hd (by simp) hx] at h
    exact (Except.ok.inj h).symm
  | some x =>
    rw [slotOutcome_present hd (by simp) hx, field_value rfl (by rintro ⟨_, _, _, _, ⟨⟩, -, -⟩),
      value_outcome (Deeper.level_self n) (fun _ _ => rfl)] at h
    obtain ⟨_, -, hassign⟩ := exists_ok_of_bind h
    obtain ⟨-, hnull⟩ := Option.filter_eq_some_iff.mp hx
    have htaken : taken ⟨[("name", "service")]⟩ (.text "") x = x := by cases x <;> rfl
    rw [htaken] at hassign
    obtain ⟨raw, rfl, rfl⟩ := text_of_level_assign (by simpa using hnull) hassign
    rfl

/-- A payload is bound to an action of its kind, each field from what stands under its name. -/
theorem exists_slots_of_bound
    (h : Bound context document (Variant.action kind).zero (.map es) bound) :
    ∃ slots n, bound = record (some (.action kind)) slots ∧ SlotsBuilt slots (Rig.action kind) ∧
      record (some (.action kind)) <$> ((Fields.zero (Rig.action kind)).mapM fun s => (s.1, ·) <$>
        slotOutcome context (Deeper.level context n) document es s.1 s.2) = .ok bound := by
  obtain ⟨variant, slots, rfl, -, hslots⟩ :=
    (h.built (built_variant (.action kind))).exists_member
  rcases h.record_cases with ⟨hnull, -⟩ | ⟨es, n, ⟨⟩, hrecord⟩
  · cases hnull
  · obtain ⟨filled, -, heq⟩ := exists_ok_of_map hrecord
    obtain ⟨⟨rfl⟩, rfl⟩ := Value.record.inj heq
    exact ⟨filled, n, rfl, hslots, hrecord⟩

/-- The service that a payload is bound to is the text under its name, or none. -/
theorem service_of_bound (hkind : kind ≠ .not)
    (h : Bound context document (Variant.action kind).zero (.map es) bound) :
    bound.slot? "service" = some (.text (textUnder "service" es)) := by
  obtain ⟨owner, hmem⟩ := exists_serviceField hkind
  obtain ⟨slots, n, rfl, hslots, hrecord⟩ := exists_slots_of_bound h
  obtain ⟨w, hw, hslot⟩ :=
    child?_of_slots (slotsHave_zero _).built (Rig.action_tidy kind) hmem hrecord
  rw [← hslots.slotNamed?_eq (Rig.action_tidy kind), ← slotOutcome_service hslot]
  exact hw

end

/-! ## §4 Actions from keys -/

/-- Whether an action is what a key and a payload say: it has the verb and, where they are there,
    the service and the name of the key, and everything else is as in `bound`, which the payload
    alone is bound to. -/
structure FromKey (verb : String) (rest : List String) (es : List (String × Data))
    (bound v : Value) : Prop where
  hasKind : v.actionKind? = bound.actionKind?
  hasVerb : v.verb = verb
  /-- The service is that of the key, or else that of the payload, or empty. -/
  service : verb ≠ "not" → v.service = rest[0]?.getD (textUnder "service" es)
  /-- A negation has no more segments. -/
  alone : verb = "not" → rest = []
  /-- An identifier is the third segment, or what the payload gives. -/
  id : verb ∈ Entry.resultVerbs →
    v.slot? "id" = (rest[1]?.map .text).or (bound.slot? "id")
  /-- A name is the third segment, or what the payload gives. -/
  name : verb ∈ Entry.namedVerbs →
    v.slot? "name" = (rest[1]?.map .text).or (bound.slot? "name")
  /-- There is no third segment for any other verb. -/
  noName : verb ∉ Entry.resultVerbs → verb ∉ Entry.namedVerbs → rest[1]? = none
  /-- All other fields are those of the payload. -/
  others : ∀ ident, ident ≠ "service" → (verb ∈ Entry.resultVerbs → ident ≠ "id") →
    (verb ∈ Entry.namedVerbs → ident ≠ "name") → v.slot? ident = bound.slot? ident

namespace Plan

variable {kind : ActionKind}

/-- The field that a name goes into, by the verb. -/
theorem nameField?_eq (kind : ActionKind) :
    nameField? kind =
      if kind.verb ∈ Entry.resultVerbs then some "id"
      else if kind.verb ∈ Entry.namedVerbs then some "name"
      else none := by
  cases kind <;> decide

theorem verb_eq_not_iff : kind.verb = "not" ↔ kind = .not := by
  cases kind <;> decide

/-- The verbs of results are not among those whose actions have names. -/
theorem resultVerbs_not_named : ∀ verb ∈ Entry.resultVerbs, verb ∉ Entry.namedVerbs := by
  decide

/-- The plan of a key makes an action as the key says. -/
theorem fromKey_finish {context : Context} {document : Path} {key verb : String}
    {rest : List String} {payload : Data} {plan : Plan} {bound : Value}
    (hform : Entry.Form key payload plan.kind plan.payload)
    (hkey : Entry.IsKey key (verb :: rest)) (hservice : plan.service = rest[0]?)
    (hname : plan.name = rest[1]?)
    (hbound : Bound context document (Variant.action plan.kind).zero (.map plan.payload) bound) :
    FromKey verb rest plan.payload bound (plan.finish bound) := by
  obtain ⟨rfl, -⟩ := hform.isVerbOf hkey
  have hpayload (hkind : plan.kind ≠ .not) := service_of_bound hkind hbound
  -- an action is bound as a record, so what the key says is put into its slots
  obtain ⟨slots, n, rfl, hslots, -⟩ := exists_slots_of_bound hbound
  have hkind : (plan.finish (record (some (.action plan.kind)) slots)).actionKind? =
      some plan.kind := actionKind?_finish plan slots
  have hslot := slot?_finish plan hslots
  have hfield := nameField?_eq plan.kind
  refine ⟨hkind, by simp [Value.verb, hkind], ?_, ?_, ?_, ?_, ?_, ?_⟩
  · -- the service: the text from the key where there is one, else that of the payload
    intro hverb
    have hnot : plan.kind ≠ .not := mt verb_eq_not_iff.mpr hverb
    obtain ⟨filled, hfilled⟩ := exists_finish plan plan.kind slots
    have hset := hslot "service"
    rw [if_neg nameField?_ne_service, if_pos ⟨rfl, hnot⟩, hpayload hnot, hservice] at hset
    rw [hfilled] at hset ⊢
    rw [service_eq hnot, hset]
    cases rest[0]? <;> rfl
  · intro hverb
    have hnot := verb_eq_not_iff.mp hverb
    rw [hnot] at hform
    exact hform.alone hkey
  · intro hverb
    rw [if_pos hverb] at hfield
    rw [hslot, if_pos hfield, hname]
  · intro hverb
    rw [if_neg fun h => resultVerbs_not_named _ h hverb, if_pos hverb] at hfield
    rw [hslot, if_pos hfield, hname]
  · intro hresult hnamed
    rw [if_neg hresult, if_neg hnamed] at hfield
    exact hform.noName hkey hfield
  · -- every other field is none of the two that the key sets
    intro ident hident hid hnamed
    rw [hslot, if_neg ?_, if_neg fun h => hident h.1]
    rw [hfield]
    split_ifs with hresult hnames
    · exact fun h => hid hresult (Option.some.inj h).symm
    · exact fun h => hnamed hnames (Option.some.inj h).symm
    · simp

end Plan

/-- An action that is made from a key with its payload has the verb of the key, and its service and
    its name where they are there; everything else is as the payload alone is walked into the record
    of the verb, which for an expectation is that of its type. -/
theorem Walker.action_fromKey (w : Walker) {key : String} {payload : Data} {v : Value}
    (h : (w.action (.map [(key, payload)])).1 = .ok v) :
    ∃ verb rest kind es bound, Entry.IsKey key (verb :: rest) ∧
      Entry.Form key payload kind es ∧ Entry.IsVerbOf verb es kind ∧
      (w.assign (.map es) (Variant.action kind).zero).1 = .ok bound ∧
      FromKey verb rest es bound v := by
  have hrun := w.root_action (.map [(key, payload)])
  have hassign (es : List (String × Data)) (kind : ActionKind) :=
    w.root_assign (.map es) (Variant.action kind).zero
  rw [h] at hrun
  cases hn : maxDepth - w.depth with
  | zero =>
    rw [hn] at hrun
    cases hrun
  | succ n =>
    rw [hn] at hrun hassign
    -- the key is read, the payload walked one level further down, and the plan finished
    have hentry := (entry_outcome_succ n _).symm.trans hrun.symm
    obtain ⟨plan, hread, hbind⟩ := exists_ok_of_bind hentry
    obtain ⟨bound, hbound, hfinish⟩ := exists_ok_of_bind hbind
    obtain rfl := Except.ok.inj hfinish
    obtain ⟨hform, verb, rest, hkey, hservice, hname⟩ :=
      Entry.form_and_segments_of_readKeyed hread
    refine ⟨verb, rest, plan.kind, plan.payload, bound, hkey, hform, hform.isVerbOf hkey, ?_,
      Plan.fromKey_finish hform hkey hservice hname ⟨n, hbound⟩⟩
    -- at the place of the walker the payload comes to the same as one level further down
    rcases ((Deeper.level_approximates n.le_succ).assign _ _ _).outcome with hdeep | heq
    · exact absurd (hdeep.symm.trans hbound) (by simp [tooDeep])
    · exact ok_of_mapError_eq_ok ((hassign _ _).trans (heq.symm.trans hbound))

/-- An expectation with the service and the name of its key, though its payload has others. -/
theorem Walker.action_fromKey_expectation :
    let walker := Walker.fresh ⟨StoredFiles.empty.fileSystem, .standard, true⟩
    let payload := Data.map [("name", .text "other"), ("output", .map []),
      ("service", .text "db"), ("timeout", .int 5)]
    ∃ v, (walker.action (.map [("expect/web/login", payload)])).1 = .ok v ∧
      v.service = "web" ∧
      ∃ verb rest kind es bound, Entry.IsKey "expect/web/login" (verb :: rest) ∧
        Entry.Form "expect/web/login" payload kind es ∧ Entry.IsVerbOf verb es kind ∧
        (walker.assign (.map es) (Variant.action kind).zero).1 = .ok bound ∧
        FromKey verb rest es bound v := by
  intro walker payload
  have hsome : ((walker.action (.map [("expect/web/login", payload)])).1.toOption.map service) =
      some "web" := by decide +kernel
  obtain ⟨v, hv, hservice⟩ := Option.map_eq_some_iff.mp hsome
  have hok := ok_of_toOption_eq_some hv
  exact ⟨v, hok, hservice, walker.action_fromKey hok⟩

end Testbed
