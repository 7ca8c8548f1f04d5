import Testbed.Proofs.Binding.Payload
import Testbed.Proofs.Results
import Testbed.Proofs.Text.Pieces

/-!
# The grammar of action entries

Which entries can be read, what kind of action each makes and from which map, said without the
order of the checks: `Form` for keys with their payloads, `Reads` for whole entries. Reading agrees
with it (`reads_iff`).
-/

namespace Testbed

namespace Text

/-- What is cut into pieces is the pieces with separators between them. -/
theorem eq_of_piecesOf {sep : Char} {cs p : List Char} {ps : List (List Char)}
    (h : piecesOf sep cs = p :: ps) : cs = p ++ ps.flatMap (sep :: ·) := by
  induction cs generalizing p ps with
  | nil =>
    simp only [piecesOf, List.cons.injEq] at h
    obtain ⟨rfl, rfl⟩ := h
    rfl
  | cons c cs ih =>
    obtain ⟨q, qs, hq⟩ := List.exists_cons_of_ne_nil (piecesOf_ne_nil sep cs)
    by_cases hc : c = sep
    · subst hc
      rw [piecesOf_sep, hq, List.cons.injEq] at h
      obtain ⟨rfl, rfl⟩ := h
      simp [← ih hq]
    · rw [piecesOf_cons_of_ne hc hq, List.cons.injEq] at h
      obtain ⟨rfl, rfl⟩ := h
      simp [← ih hq]

/-- A text is cut in two where one separator is in it. -/
theorem pieces_eq_pair_iff {s p q : String} :
    pieces '/' s = [p, q] ↔ s = p ++ "/" ++ q ∧ '/' ∉ p.toList ∧ '/' ∉ q.toList := by
  constructor
  · intro h
    obtain ⟨cs, ds, hpieces⟩ : ∃ cs ds, piecesOf '/' s.toList = [cs, ds] := by
      have hlength : (piecesOf '/' s.toList).length = 2 := by
        simpa [pieces] using congrArg List.length h
      exact List.length_eq_two.mp hlength
    simp only [pieces, hpieces, List.map_cons, List.map_nil, List.cons.injEq, and_true] at h
    obtain ⟨rfl, rfl⟩ := h
    have hmem := not_mem_of_mem_piecesOf '/' s.toList
    rw [hpieces] at hmem
    refine ⟨?_, by simpa using hmem cs (by simp), by simpa using hmem ds (by simp)⟩
    rw [← String.toList_inj, eq_of_piecesOf hpieces]
    simp
  · rintro ⟨rfl, hp, hq⟩
    have hcut : piecesOf '/' (p ++ "/" ++ q).toList = [p.toList, q.toList] := by
      rw [String.toList_append, String.toList_append, List.append_assoc]
      exact (piecesOf_append_sep hp q.toList).trans (by rw [piecesOf_of_not_mem hq])
    rw [pieces, hcut]
    simp

end Text

/-- Whether actions of a kind are nothing without a service. -/
def ActionKind.needsService : ActionKind → Bool
  | bench | execute | request | start | stop | restart | reload => true
  | _ => false

namespace Entry

variable {key verb : String} {kind : ActionKind} {payload : Data} {es : List (String × Data)}
  {plan : Plan}

/-! ## §1 Keys and payloads -/

/-- Whether a key is cut into segments, at most three and none of them empty. -/
def IsKey (key : String) (segments : List String) : Prop :=
  Text.pieces '/' key = segments ∧ segments.length ≤ 3 ∧ "" ∉ segments

/-- The verbs on the life of services. -/
def lifeCycleVerbs : List (String × ActionKind) :=
  [("start", .start), ("stop", .stop), ("restart", .restart), ("reload", .reload)]

/-- The verbs of work that a service is given. -/
def workloadVerbs : List (String × ActionKind) :=
  [("request", .request), ("bench", .bench), ("execute", .execute)]

/-- The verbs that a text alone may have. -/
def shorthandVerbs : List (String × ActionKind) :=
  [("bench", .bench), ("execute", .execute)]

/-- The keys that settle the kind of an expectation. -/
def expectationTypes : List (String × ActionKind) :=
  [("custom", .expectCustom), ("metrics", .expectMetrics), ("output", .expectOutput),
    ("response", .expectResponse)]

/-- The map that a payload stands for. -/
inductive StandsFor : Data → List (String × Data) → Prop
  | null : StandsFor .null []
  | map (es : List (String × Data)) : StandsFor (.map es) es

/-- The map that the payload of a group stands for. -/
inductive GroupStandsFor : Data → List (String × Data) → Prop
  | plain {payload : Data} {es : List (String × Data)} (h : StandsFor payload es) :
      GroupStandsFor payload es
  | list (xs : List Data) : GroupStandsFor (.list xs) [("actions", .list xs)]

/-- Which keys with which payloads stand for an action, its kind, and the map it is made from. -/
inductive Form (key : String) : Data → ActionKind → List (String × Data) → Prop
  | lifeCycle {verb service : String} {kind : ActionKind} {payload : Data}
      {es : List (String × Data)} (hverb : (verb, kind) ∈ lifeCycleVerbs)
      (hkey : IsKey key [verb, service]) (hpayload : StandsFor payload es) :
      Form key payload kind es
  | workload {verb service : String} {names : List String} {kind : ActionKind} {payload : Data}
      {es : List (String × Data)} (hverb : (verb, kind) ∈ workloadVerbs)
      (hkey : IsKey key (verb :: service :: names)) (hpayload : StandsFor payload es) :
      Form key payload kind es
  | parallel {services : List String} {payload : Data} {es : List (String × Data)}
      (hkey : IsKey key ("parallel" :: services)) (hname : services.length ≤ 1)
      (hpayload : GroupStandsFor payload es) : Form key payload .parallel es
  | sequential {names : List String} {payload : Data} {es : List (String × Data)}
      (hkey : IsKey key ("sequential" :: names)) (hpayload : GroupStandsFor payload es) :
      Form key payload .sequential es
  | not {es : List (String × Data)} (hkey : IsKey key ["not"])
      (haction : Keyed.has "action" es = true) : Form key (.map es) .not es
  | expect {names : List String} {type : String} {kind : ActionKind} {es : List (String × Data)}
      (hkey : IsKey key ("expect" :: names))
      (hkeys : ∀ k ∈ Keyed.keys es, k ∈ sharedKeys ∨ k ∈ Keyed.keys expectationTypes)
      (htype : (Keyed.keys es).filter (· ∈ Keyed.keys expectationTypes) = [type])
      (hkind : (type, kind) ∈ expectationTypes) : Form key (.map es) kind es

/-- Which entries stand for an action, its kind, and the map it is made from. -/
inductive Reads : Data → ActionKind → List (String × Data) → Prop
  | shorthand {verb service : String} {kind : ActionKind} (hverb : (verb, kind) ∈ shorthandVerbs)
      (hservice : service ≠ "") (hslash : '/' ∉ service.toList) :
      Reads (.text (verb ++ "/" ++ service)) kind []
  | keyed {key : String} {payload : Data} {kind : ActionKind} {es : List (String × Data)}
      (hform : Form key payload kind es) : Reads (.map [(key, payload)]) kind es

/-! ## §2 Verbs -/

/-- The verbs of the life cycle are those of its table. -/
theorem verb?_eq_lifeCycle_iff :
    verb? verb = some (.lifeCycle kind) ↔ (verb, kind) ∈ lifeCycleVerbs := by
  unfold verb?
  split <;> simp_all [lifeCycleVerbs, eq_comm]

theorem verb?_eq_workload_iff :
    verb? verb = some (.workload kind) ↔ (verb, kind) ∈ workloadVerbs := by
  unfold verb?
  split <;> simp_all [workloadVerbs, eq_comm]

theorem verb?_eq_group_iff :
    verb? verb = some (.group kind) ↔
      verb = "parallel" ∧ kind = .parallel ∨ verb = "sequential" ∧ kind = .sequential := by
  unfold verb?
  split <;> simp_all [eq_comm]

theorem verb?_eq_not_iff : verb? verb = some .not ↔ verb = "not" := by
  unfold verb?
  split <;> simp_all

theorem verb?_eq_expect_iff : verb? verb = some .expect ↔ verb = "expect" := by
  unfold verb?
  split <;> simp_all

/-! ## §3 Reading -/

/-- What is a key by the grammar is read as its segments. -/
theorem key_read_of_isKey {segments : List String} (h : IsKey key segments) :
    Key.read key = .ok ⟨key, segments.headD "", segments[1]?, segments[2]?⟩ := by
  obtain ⟨rfl, hlength, hempty⟩ := h
  simp [Key.read, not_lt.mpr hlength, hempty]

/-- What is read as a key is one by the grammar. -/
theorem isKey_of_key_read {k : Key} (h : Key.read key = .ok k) :
    ∃ verb rest, IsKey key (verb :: rest) ∧ k = ⟨key, verb, rest[0]?, rest[1]?⟩ := by
  obtain ⟨verb, rest, hpieces⟩ : ∃ verb rest, Text.pieces '/' key = verb :: rest := by
    apply List.exists_cons_of_ne_nil
    simpa [Text.pieces] using Text.piecesOf_ne_nil '/' key.toList
  rw [Key.read, hpieces] at h
  split at h
  · cases h
  · next hlength =>
    split at h
    · cases h
    · next hempty =>
      exact ⟨verb, rest, ⟨hpieces, not_lt.mp hlength, hempty⟩, (Except.ok.inj h).symm⟩

/-- The payload of an entry is a map, or null for an empty one. -/
theorem payloadMap_eq_ok_iff : payloadMap payload = .ok es ↔ StandsFor payload es := by
  constructor
  · intro h
    cases payload with
    | null => cases h; exact .null
    | map entries => cases h; exact .map _
    | _ => cases h
  · rintro (_ | _) <;> rfl

/-- The payload of a group is a map, null, or the list of its actions. -/
theorem groupMap_eq_ok_iff : groupMap payload = .ok es ↔ GroupStandsFor payload es := by
  constructor
  · intro h
    cases payload with
    | list xs => cases h; exact .list xs
    | _ => exact .plain (payloadMap_eq_ok_iff.mp h)
  · intro h
    cases h with
    | list xs => rfl
    | plain h => cases h <;> rfl

theorem expectation?_eq_some_iff :
    expectation? key = some kind ↔ (key, kind) ∈ expectationTypes := by
  unfold expectation?
  split <;> simp_all [expectationTypes, eq_comm]

theorem expectation?_eq_none_iff :
    expectation? key = none ↔ key ∉ Keyed.keys expectationTypes := by
  unfold expectation?
  split <;> simp_all [expectationTypes, Keyed.keys]

/-- Once a type is found, all other keys have to be those of every expectation. -/
theorem expectationKind_some_eq_ok_iff {type : String} {found : ActionKind} :
    expectationKind (some (type, found)) es = .ok kind ↔
      (∀ k ∈ Keyed.keys es, k ∈ sharedKeys) ∧ found = kind := by
  induction es with
  | nil => simp [expectationKind]
  | cons e rest ih =>
    obtain ⟨k, x⟩ := e
    by_cases hk : k ∈ sharedKeys
    · rw [expectationKind, if_pos hk, ih]
      simp [hk]
    · rw [expectationKind, if_neg hk]
      cases expectation? k <;> simp [hk]

/-- The kind of an expectation is settled where all keys are among those that an expectation may
    have, and only one is not among those of every expectation. -/
theorem expectationKind_eq_ok_iff :
    expectationKind none es = .ok kind ↔
      (∀ k ∈ Keyed.keys es, k ∈ sharedKeys ∨ k ∈ Keyed.keys expectationTypes) ∧
        ∃ type, (type, kind) ∈ expectationTypes ∧
          (Keyed.keys es).filter (· ∈ Keyed.keys expectationTypes) = [type] := by
  have hapart : ∀ k ∈ sharedKeys, k ∉ Keyed.keys expectationTypes := by decide
  induction es with
  | nil => simp [expectationKind]
  | cons e rest ih =>
    obtain ⟨k, x⟩ := e
    by_cases hk : k ∈ sharedKeys
    · rw [expectationKind, if_pos hk]
      refine ih.trans ?_
      simp [hk, hapart k hk]
    · rw [expectationKind, if_neg hk]
      cases htype : expectation? k with
      | none =>
        have hnone := expectation?_eq_none_iff.mp htype
        simp [hk, hnone]
      | some found =>
        -- the key is the type, so the rest has to be without one
        have hmem := expectation?_eq_some_iff.mp htype
        have hkeys : k ∈ Keyed.keys expectationTypes := List.mem_map.mpr ⟨_, hmem, rfl⟩
        simp only [expectationKind_some_eq_ok_iff, Keyed.keys_cons, List.forall_mem_cons, hk, hkeys,
          List.filter_cons, decide_true, if_true, List.cons.injEq, List.filter_eq_nil_iff]
        constructor
        · rintro ⟨hall, rfl⟩
          exact ⟨⟨.inr trivial, fun a ha => .inl (hall a ha)⟩, k, hmem, rfl,
            fun a ha => by simpa using hapart a (hall a ha)⟩
        · rintro ⟨⟨-, hall⟩, type, hkind, rfl, hnone⟩
          refine ⟨fun a ha => (hall a ha).resolve_right (by simpa using hnone a ha), ?_⟩
          exact Option.some.inj (htype.symm.trans (expectation?_eq_some_iff.mpr hkind))

section

variable {k : Key}

theorem requireService_eq_ok_iff : k.requireService = .ok () ↔ k.service.isSome = true := by
  unfold Key.requireService
  split <;> simp_all [bad]

theorem forbidService_eq_ok_iff : k.forbidService = .ok () ↔ k.service = none := by
  unfold Key.forbidService
  split <;> simp_all [bad, Option.isSome_iff_ne_none]

theorem forbidName_eq_ok_iff : k.forbidName = .ok () ↔ k.name = none := by
  unfold Key.forbidName
  split <;> simp_all [bad, Option.isSome_iff_ne_none]

end

/-- A key and its payload that can be read have one of the forms, and the service and the name that
    are read are the segments after the verb. -/
theorem form_and_segments_of_readKeyed (h : readKeyed key payload = .ok plan) :
    Form key payload plan.kind plan.payload ∧ ∃ verb rest, IsKey key (verb :: rest) ∧
      plan.service = rest[0]? ∧ plan.name = rest[1]? := by
  -- the key can be read, and its verb says which checks the rest has passed
  obtain ⟨k, hread, h⟩ := exists_ok_of_bind h
  obtain ⟨verb, rest, hkey, rfl⟩ := isKey_of_key_read hread
  cases hverb : verb? verb with
  | none => simp only [hverb] at h; cases h
  | some v =>
    simp only [hverb] at h
    cases v with
    | expect =>
      obtain rfl := verb?_eq_expect_iff.mp hverb
      cases payload with
      | map es =>
        obtain ⟨kind, hkind, hplan⟩ := exists_ok_of_bind h
        cases hplan
        obtain ⟨hkeys, type, htype, hfilter⟩ := expectationKind_eq_ok_iff.mp hkind
        exact ⟨.expect hkey hkeys hfilter htype, _, _, hkey, rfl, rfl⟩
      | _ => cases h
    | not =>
      obtain rfl := verb?_eq_not_iff.mp hverb
      obtain ⟨_, hservice, hplan⟩ := exists_ok_of_bind h
      obtain rfl : rest = [] := by simpa using forbidService_eq_ok_iff.mp hservice
      cases payload with
      | map es =>
        cases haction : Keyed.has "action" es with
        | false => simp [haction, bad] at hplan
        | true =>
          simp only [haction, if_true] at hplan
          cases hplan
          exact ⟨.not hkey haction, _, _, hkey, rfl, rfl⟩
      | _ => cases hplan
    | group kind =>
      rcases verb?_eq_group_iff.mp hverb with ⟨rfl, rfl⟩ | ⟨rfl, rfl⟩
      · obtain ⟨_, hname, h⟩ := exists_ok_of_bind h
        obtain ⟨es, hes, hplan⟩ := exists_ok_of_bind h
        cases hplan
        have hlength : rest.length ≤ 1 :=
          List.getElem?_eq_none_iff.mp (forbidName_eq_ok_iff.mp hname)
        exact ⟨.parallel hkey hlength (groupMap_eq_ok_iff.mp hes), _, _, hkey, rfl, rfl⟩
      · obtain ⟨es, hes, hplan⟩ := exists_ok_of_bind h
        cases hplan
        exact ⟨.sequential hkey (groupMap_eq_ok_iff.mp hes), _, _, hkey, rfl, rfl⟩
    | lifeCycle kind =>
      obtain ⟨_, hservice, h⟩ := exists_ok_of_bind h
      obtain ⟨_, hname, h⟩ := exists_ok_of_bind h
      obtain ⟨es, hes, hplan⟩ := exists_ok_of_bind h
      cases hplan
      have hsome : 0 < rest.length := by simpa using requireService_eq_ok_iff.mp hservice
      have hnone : rest.length ≤ 1 := by simpa using forbidName_eq_ok_iff.mp hname
      obtain ⟨service, rfl⟩ : ∃ service, rest = [service] :=
        List.length_eq_one_iff.mp (le_antisymm hnone hsome)
      exact ⟨.lifeCycle (verb?_eq_lifeCycle_iff.mp hverb) hkey (payloadMap_eq_ok_iff.mp hes), _, _,
        hkey, rfl, rfl⟩
    | workload kind =>
      obtain ⟨_, hservice, h⟩ := exists_ok_of_bind h
      obtain ⟨es, hes, hplan⟩ := exists_ok_of_bind h
      cases hplan
      have hsome : 0 < rest.length := by simpa using requireService_eq_ok_iff.mp hservice
      obtain ⟨service, names, rfl⟩ : ∃ service names, rest = service :: names :=
        List.exists_cons_of_length_pos hsome
      exact ⟨.workload (verb?_eq_workload_iff.mp hverb) hkey (payloadMap_eq_ok_iff.mp hes), _, _,
        hkey, rfl, rfl⟩

/-- An entry that is read has a form of the grammar. -/
theorem form_of_readKeyed (h : readKeyed key payload = .ok plan) :
    Form key payload plan.kind plan.payload :=
  (form_and_segments_of_readKeyed h).1

/-- An entry with a form of the grammar is read as the form says. -/
theorem readKeyed_of_form (h : Form key payload kind es) :
    ∃ plan, readKeyed key payload = .ok plan ∧ plan.kind = kind ∧ plan.payload = es := by
  unfold readKeyed
  cases h with
  | lifeCycle hverb hkey hpayload =>
    rw [key_read_of_isKey hkey]
    simp only [bind, Except.bind, List.headD_cons, verb?_eq_lifeCycle_iff.mpr hverb]
    exact ⟨_, by rw [payloadMap_eq_ok_iff.mpr hpayload]; rfl, rfl, rfl⟩
  | workload hverb hkey hpayload =>
    rw [key_read_of_isKey hkey]
    simp only [bind, Except.bind, List.headD_cons, verb?_eq_workload_iff.mpr hverb]
    exact ⟨_, by rw [payloadMap_eq_ok_iff.mpr hpayload]; rfl, rfl, rfl⟩
  | @parallel services _ _ hkey hname hpayload =>
    rw [key_read_of_isKey hkey]
    have hverb : verb? "parallel" = some (.group .parallel) := rfl
    have hnone : ("parallel" :: services)[2]? = none := List.getElem?_eq_none (by simpa using hname)
    simp only [bind, Except.bind, List.headD_cons, hverb, Key.forbidName, hnone]
    exact ⟨_, by rw [groupMap_eq_ok_iff.mpr hpayload]; rfl, rfl, rfl⟩
  | sequential hkey hpayload =>
    rw [key_read_of_isKey hkey]
    have hverb : verb? "sequential" = some (.group .sequential) := rfl
    simp only [bind, Except.bind, List.headD_cons, hverb]
    exact ⟨_, by rw [groupMap_eq_ok_iff.mpr hpayload]; rfl, rfl, rfl⟩
  | not hkey haction =>
    rw [key_read_of_isKey hkey]
    have hverb : verb? "not" = some .not := rfl
    simp only [bind, Except.bind, List.headD_cons, hverb, haction]
    exact ⟨_, rfl, rfl, rfl⟩
  | expect hkey hkeys htype hkind =>
    rw [key_read_of_isKey hkey]
    have hverb : verb? "expect" = some .expect := rfl
    simp only [bind, Except.bind, List.headD_cons, hverb,
      expectationKind_eq_ok_iff.mpr ⟨hkeys, _, hkind, htype⟩]
    exact ⟨_, rfl, rfl, rfl⟩

/-- A bare text that is read stands for an entry of the grammar. -/
theorem reads_of_readShorthand {raw : String} (h : readShorthand raw = .ok plan) :
    Reads (.text raw) plan.kind plan.payload := by
  unfold readShorthand at h
  split at h
  · next verb service hpieces =>
    obtain ⟨rfl, -, hslash⟩ := Text.pieces_eq_pair_iff.mp hpieces
    split at h
    · cases h
    · next hempty =>
      have hservice : service ≠ "" := fun hs => hempty (.inr hs)
      split at h
      · cases h
        exact .shorthand (by simp [shorthandVerbs]) hservice hslash
      · cases h
        exact .shorthand (by simp [shorthandVerbs]) hservice hslash
      · cases h
  · cases h

/-- An entry can be read where it has one of the forms, and is read as the form says. -/
theorem reads_iff {entry : Data} :
    Reads entry kind es ↔ ∃ plan, read entry = .ok plan ∧ plan.kind = kind ∧ plan.payload = es := by
  constructor
  · rintro (@⟨verb, service, kind, hverb, hservice, hslash⟩ | hform)
    · have hread (hplain : '/' ∉ verb.toList) :
          Text.pieces '/' (verb ++ "/" ++ service) = [verb, service] :=
        Text.pieces_eq_pair_iff.mpr ⟨rfl, hplain, hslash⟩
      have hempty (hverb : verb ≠ "") : ¬ (verb = "" ∨ service = "") := not_or.mpr ⟨hverb, hservice⟩
      simp only [shorthandVerbs, List.mem_cons, Prod.mk.injEq, List.not_mem_nil, or_false] at hverb
      rcases hverb with ⟨rfl, rfl⟩ | ⟨rfl, rfl⟩
      · rw [read, readShorthand, hread (by decide)]
        exact ⟨_, if_neg (hempty (by decide)), rfl, rfl⟩
      · rw [read, readShorthand, hread (by decide)]
        exact ⟨_, if_neg (hempty (by decide)), rfl, rfl⟩
    · exact readKeyed_of_form hform
  · rintro ⟨plan, hread, rfl, rfl⟩
    unfold read at hread
    split at hread
    · exact reads_of_readShorthand hread
    · exact .keyed (form_of_readKeyed hread)
    all_goals cases hread

/-- The map that an action is made from is empty, or is what stands under the key of the entry, or
    holds the list that stands there, where the action is a group. -/
theorem payload_of_read {entry : Data} (h : read entry = .ok plan) :
    plan.payload = [] ∨ (∃ key, entry = .map [(key, .map plan.payload)]) ∨
      ∃ key xs, entry = .map [(key, .list xs)] ∧ plan.payload = [("actions", .list xs)] ∧
        (plan.kind = .parallel ∨ plan.kind = .sequential) := by
  have hreads := reads_iff.mpr ⟨plan, h, rfl, rfl⟩
  generalize plan.kind = kind, plan.payload = es at hreads
  have hstands {key : String} {payload : Data} (h : StandsFor payload es) :
      es = [] ∨ ∃ key', Data.map [(key, payload)] = .map [(key', .map es)] := by
    cases h with
    | null => exact .inl rfl
    | map => exact .inr ⟨key, rfl⟩
  have hgroup {key : String} {payload : Data} (h : GroupStandsFor payload es)
      (hkind : kind = .parallel ∨ kind = .sequential) :
      es = [] ∨ (∃ key', Data.map [(key, payload)] = .map [(key', .map es)]) ∨
        ∃ key' xs, Data.map [(key, payload)] = .map [(key', .list xs)] ∧
          es = [("actions", .list xs)] ∧ (kind = .parallel ∨ kind = .sequential) := by
    cases h with
    | plain h => exact (hstands h).imp_right .inl
    | list xs => exact .inr (.inr ⟨key, xs, rfl, rfl, hkind⟩)
  cases hreads with
  | shorthand => exact .inl rfl
  | keyed hform =>
    cases hform with
    | lifeCycle _ _ h => exact (hstands h).imp_right .inl
    | workload _ _ h => exact (hstands h).imp_right .inl
    | parallel _ _ h => exact hgroup h (.inl rfl)
    | sequential _ h => exact hgroup h (.inr rfl)
    | not _ _ => exact .inr (.inl ⟨_, rfl⟩)
    | expect _ _ _ _ => exact .inr (.inl ⟨_, rfl⟩)

/-! ## §4 Services -/

/-- A key has its segments in one way only. -/
theorem isKey_unique {segments segments' : List String} (h : IsKey key segments)
    (h' : IsKey key segments') : segments = segments' :=
  h.1.symm.trans h'.1

/-- The second segment of a key is a service, and not empty. -/
theorem exists_service {service : String} {names rest : List String}
    (h : IsKey key (verb :: service :: names)) {verb' : String}
    (h' : IsKey key (verb' :: rest)) (hservice : plan.service = rest[0]?) :
    ∃ service, plan.service = some service ∧ service ≠ "" := by
  obtain ⟨rfl, rfl⟩ := List.cons.inj (isKey_unique h h')
  refine ⟨service, hservice, ?_⟩
  rintro rfl
  exact h.2.2 (by simp)

/-- A key of an action that needs a service names one. -/
theorem service_of_readKeyed (h : readKeyed key payload = .ok plan)
    (hneeds : plan.kind.needsService = true) :
    ∃ service, plan.service = some service ∧ service ≠ "" := by
  obtain ⟨hform, verb, rest, hkey, hservice, -⟩ := form_and_segments_of_readKeyed h
  generalize plan.kind = kind at hform hneeds
  generalize plan.payload = es at hform
  cases hform with
  | lifeCycle _ hsegments _ => exact exists_service hsegments hkey hservice
  | workload _ hsegments _ => exact exists_service hsegments hkey hservice
  | expect _ _ _ htype =>
    have hno : ∀ e ∈ expectationTypes, e.2.needsService = false := by decide
    simp [hno _ htype] at hneeds
  | _ => cases hneeds

/-- An entry that is read has a service where its kind needs one. -/
theorem service_of_read {entry : Data} (h : read entry = .ok plan)
    (hneeds : plan.kind.needsService = true) :
    ∃ service, plan.service = some service ∧ service ≠ "" := by
  unfold read at h
  split at h
  · unfold readShorthand at h
    split at h
    · next verb service hpieces =>
      split at h
      · cases h
      · next hempty =>
        refine ⟨service, ?_, fun hs => hempty (.inr hs)⟩
        split at h <;> cases h <;> rfl
    · cases h
  · exact service_of_readKeyed h hneeds
  all_goals cases h

end Entry

end Testbed
