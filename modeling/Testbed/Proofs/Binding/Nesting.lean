import Testbed.Proofs.Binding.WalkState
import Testbed.Proofs.Binding.Segments

/-!
# How deep actions nest

An entry takes three calls: the entry itself, the walk of its payload, and the factory that fills
the field with the actions inside. So of the calls that may be open an entry that is accepted has
two left where it stands, and three more for every level above it (`levels_of_nests`), which makes
42 levels below the outermost entry. A chain of negations reaches them (`negations_outcome`).
-/

namespace Testbed

open Binding Walk Value Position

/-! ## §1 Entries in entries -/

namespace Entry

/-- Whether an entry stands directly in another one: as what a negation negates, or among the
    members of a group, which are a list or stand in a map. -/
inductive Encloses : Data → Data → Prop
  | negated {key : String} {rest : List String} {es : List (String × Data)} {inner : Data}
      (hkey : Text.pieces '/' key = "not" :: rest) (hinner : Keyed.get? "action" es = some inner)
      (hnull : inner ≠ .null) : Encloses (.map [(key, .map es)]) inner
  | listed {key verb : String} {rest : List String} {xs : List Data} {inner : Data}
      (hkey : Text.pieces '/' key = verb :: rest) (hverb : verb ∈ ["parallel", "sequential"])
      (hinner : inner ∈ xs) : Encloses (.map [(key, .list xs)]) inner
  | grouped {key verb : String} {rest : List String} {es : List (String × Data)} {xs : List Data}
      {inner : Data} (hkey : Text.pieces '/' key = verb :: rest)
      (hverb : verb ∈ ["parallel", "sequential"])
      (hlist : Keyed.get? "actions" es = some (.list xs)) (hinner : inner ∈ xs) :
      Encloses (.map [(key, .map es)]) inner

/-- Whether there is an entry so many levels below an entry. -/
inductive Nests : Nat → Data → Prop
  | outermost (entry : Data) : Nests 0 entry
  | inside {n : Nat} {outer inner : Data} (h : Encloses outer inner) (hinner : Nests n inner) :
      Nests (n + 1) outer

/-- So many negations around a benchmark. -/
def negations : Nat → Data
  | 0 => .text "bench/a"
  | n + 1 => .map [("not", .map [("action", negations n)])]

theorem negations_ne_null (n : Nat) : negations n ≠ .null := by
  cases n <;> simp [negations]

/-- A chain of negations nests as deep as it is long. -/
theorem nests_negations (n : Nat) : Nests n (negations n) := by
  induction n with
  | zero => exact .outermost _
  | succ n ih =>
    have hkey : Text.pieces '/' "not" = ["not"] := by decide
    exact .inside (.negated hkey rfl (negations_ne_null n)) ih

variable {key : String} {kind : ActionKind} {es es' : List (String × Data)} {xs : List Data}

/-- An entry is of the kind that its verb says. -/
theorem Form.verb_eq {payload : Data} {verb : String} {rest : List String}
    (h : Form key payload kind es) (hkey : Text.pieces '/' key = verb :: rest) :
    kind.verb = verb := by
  obtain ⟨verb', rest', hkey'⟩ : ∃ verb' rest', IsKey key (verb' :: rest') := by
    cases h <;> exact ⟨_, _, by assumption⟩
  obtain ⟨rfl, -⟩ := List.cons.inj (hkey'.1.symm.trans hkey)
  exact (h.isVerbOf hkey').1

/-- A map is walked as it is. -/
theorem Form.eq_of_map (h : Form key (.map es') kind es) : es = es' := by
  cases h with
  | lifeCycle _ _ hpayload => cases hpayload; rfl
  | workload _ _ hpayload => cases hpayload; rfl
  | parallel _ _ hpayload => cases hpayload with | plain h => cases h; rfl
  | sequential _ hpayload => cases hpayload with | plain h => cases h; rfl
  | not _ _ => rfl
  | expect _ _ _ _ => rfl

/-- A list is walked as the actions of a group. -/
theorem Form.eq_of_list (h : Form key (.list xs) kind es) : es = [("actions", .list xs)] := by
  cases h with
  | lifeCycle _ _ hpayload => cases hpayload
  | workload _ _ hpayload => cases hpayload
  | parallel _ _ hpayload =>
    cases hpayload with
    | plain h => cases h
    | list _ => rfl
  | sequential _ hpayload =>
    cases hpayload with
    | plain h => cases h
    | list _ => rfl

end Entry

/-! ## §2 Levels -/

section

variable {context : Context} {document : Path} {kind : ActionKind} {es : List (String × Data)}
  {outer inner : Data} {n : Nat} {v : Value}

theorem present?_eq_some {name : String} {x : Data} (hx : Keyed.get? name es = some x)
    (hnull : x ≠ .null) : present? name es = some x := by
  rw [present?, hx]
  cases x <;> first | rfl | exact absurd rfl hnull

theorem read_action : Directives.read "action,factory=action" =
    .ok ⟨[("factory", "action"), ("name", "action")]⟩ := by
  decide +kernel

theorem read_actions : Directives.read "actions,factory=actions" =
    .ok ⟨[("factory", "actions"), ("name", "actions")]⟩ := by
  decide +kernel

theorem given_action {x : Data} (hx : Keyed.get? "action" es = some x) (hnull : x ≠ .null) :
    Given .not es "action" x :=
  ⟨⟨"NotAction", "action", "action,factory=action"⟩, Family.action.initial,
    ⟨[("factory", "action"), ("name", "action")]⟩, List.mem_cons_self,
    by rw [directives, read_action], rfl, present?_eq_some hx hnull⟩

theorem given_actions {xs : List Data} (hkind : kind = .parallel ∨ kind = .sequential)
    (hx : Keyed.get? "actions" es = some (.list xs)) : Given kind es "actions" (.list xs) := by
  obtain ⟨owner, hmem⟩ : ∃ owner,
      (⟨owner, "actions", "actions,factory=actions"⟩, .list (.oneOf .action) []) ∈
        Fields.zero (Rig.action kind) := by
    rcases hkind with rfl | rfl
    · exact ⟨"ParallelAction", List.mem_of_getElem? (i := 1) rfl⟩
    · exact ⟨"SequentialAction", List.mem_of_getElem? (i := 2) rfl⟩
  exact ⟨_, _, ⟨[("factory", "actions"), ("name", "actions")]⟩, hmem,
    by rw [directives, read_actions], rfl, present?_eq_some hx (by simp)⟩

theorem group_of_verb {verb : String} (hverb : verb ∈ ["parallel", "sequential"])
    (h : kind.verb = verb) : kind = .parallel ∨ kind = .sequential := by
  subst h
  revert hverb
  cases kind <;> decide

/-- An entry in another one is given to the factory for one action, or to that for several. -/
theorem Entry.Encloses.given (h : Entry.Encloses outer inner) (hreads : Entry.Reads outer kind es) :
    Given kind es "action" inner ∨ ∃ xs, inner ∈ xs ∧ Given kind es "actions" (.list xs) := by
  cases h with
  | negated hkey hinner hnull =>
    cases hreads with
    | keyed hform =>
      obtain rfl := Plan.verb_eq_not_iff.mp (hform.verb_eq hkey)
      obtain rfl := hform.eq_of_map
      exact .inl (given_action hinner hnull)
  | listed hkey hverb hinner =>
    cases hreads with
    | keyed hform =>
      obtain rfl := hform.eq_of_list
      exact .inr ⟨_, hinner, given_actions (group_of_verb hverb (hform.verb_eq hkey)) rfl⟩
  | grouped hkey hverb hlist hinner =>
    cases hreads with
    | keyed hform =>
      obtain rfl := hform.eq_of_map
      exact .inr ⟨_, hinner, given_actions (group_of_verb hverb (hform.verb_eq hkey)) hlist⟩

/-- What has a result was read, and its fields were bound two levels further down. -/
theorem exists_bound_of_entry {entry : Data} (h : outcome context document n .entry entry = .ok v) :
    ∃ kind es m, n = m + 2 ∧ Entry.Reads entry kind es ∧
      FieldsBound context document kind es m := by
  rcases n with _ | n
  · cases h
  rw [entry_outcome_succ] at h
  obtain ⟨plan, hplan, hrest⟩ := exists_ok_of_bind h
  obtain ⟨bound, hbound, -⟩ := exists_ok_of_bind hrest
  rcases n with _ | m
  · cases hbound
  exact ⟨plan.kind, plan.payload, m, rfl, Entry.reads_iff.mpr ⟨plan, hplan, rfl, rfl⟩,
    (fieldsBound_of_ok hbound).2⟩

/-- An entry that stands in one that is accepted is accepted three levels further down. -/
theorem Entry.Encloses.outcome_ok (hfactories : context.factories = .standard)
    (h : Entry.Encloses outer inner) (hv : outcome context document n .entry outer = .ok v) :
    ∃ m, m + 3 ≤ n ∧ ∃ w, outcome context document m .entry inner = .ok w := by
  obtain ⟨kind, es, m, rfl, hreads, hbound⟩ := exists_bound_of_entry hv
  rcases h.given hreads with hgiven | ⟨xs, hinner, hgiven⟩
  · obtain ⟨m', hm', hw⟩ := hgiven.action_ok hfactories hbound
    exact ⟨m', by omega, hw⟩
  · obtain ⟨_, ⟨rfl⟩, hentries⟩ := hgiven.actions_ok hfactories hbound
    obtain ⟨m', hm', hw⟩ := hentries inner hinner
    exact ⟨m', by omega, hw⟩

/-- What is accepted has had three levels for each entry above the innermost one, and two for
    that. -/
theorem levels_of_nests (hfactories : context.factories = .standard) {k : Nat} {entry : Data}
    (h : Entry.Nests k entry) (hv : outcome context document n .entry entry = .ok v) :
    3 * k + 2 ≤ n := by
  -- by induction on the nesting: each entry leaves three levels less to the one in it
  induction h generalizing n v with
  | outermost entry =>
    obtain ⟨_, _, m, rfl, -, -⟩ := exists_bound_of_entry hv
    omega
  | inside hencloses _ ih =>
    obtain ⟨m, hm, w, hw⟩ := hencloses.outcome_ok hfactories hv
    have hinner := ih hw
    omega

/-! ## §3 Chains of negations -/

/-- Fields of an action that nothing is given to take their defaults. -/
theorem exists_slots_of_absent (context : Context) (deeper : Deeper) (document : Path)
    {slots : Slots} (hslots : ∀ s ∈ slots, s ∈ Fields.zero (Rig.action kind))
    (habsent : ∀ s ∈ slots, ∀ d, directives s.1 = .ok d → present? (documentName s.1 d) es = none) :
    ∃ bound, (slots.mapM fun s => (s.1, ·) <$>
      slotOutcome context deeper document es s.1 s.2) = .ok bound := by
  apply exists_mapM_eq_ok
  intro s hs
  obtain ⟨d, hd, ⟨w, hw⟩, hfilled⟩ := Rig.filled_of_mem (hslots s hs)
  rw [slotOutcome_absent hd hfilled.ne_absent (habsent s hs d hd), hw]
  exact ⟨(s.1, w), rfl⟩

/-- An entry without a payload takes two levels. -/
theorem benchmark_outcome (document : Path) (n : Nat) :
    ∃ v, outcome context document (n + 2) .entry (.text "bench/a") = .ok v := by
  have hread : Entry.read (.text "bench/a") = .ok ⟨.bench, [], some "a", none⟩ := by rfl
  have hkeys : keysCheck context document [] (Fields.zero (Rig.action .bench)) = .ok () :=
    keysCheck_ok_iff.mpr (by simp)
  have habsent : ∀ s ∈ Fields.zero (Rig.action .bench), ∀ d, directives s.1 = .ok d →
      present? (documentName s.1 d) [] = none := fun _ _ _ _ => rfl
  obtain ⟨slots, hslots⟩ :=
    exists_slots_of_absent context (Deeper.level context n) document (fun _ => id) habsent
  refine ⟨Plan.finish ⟨.bench, [], some "a", none⟩ (.record (some (.action .bench)) slots), ?_⟩
  rw [entry_outcome_succ, hread, ok_bind, action_value_outcome, hkeys, ok_bind, hslots]
  rfl

/-- The fields of a negation besides the action. -/
def negationRest : Slots :=
  Fields.zero (declare "NotAction" Rig.conduct)

/-- The action that is given to a negation is given to no other field. -/
theorem absent_negationRest {s : Field × Value} (h : s ∈ negationRest) {d : Directives}
    (hd : directives s.1 = .ok d) (x : Data) :
    present? (documentName s.1 d) [("action", x)] = none := by
  have hall : (negationRest.all fun s => s.1.documentName? ≠ some "action") = true := by
    decide +kernel
  have hname := List.all_eq_true.mp hall _ h
  rw [documentName?_of_directives hd] at hname
  have hne : documentName s.1 d ≠ "action" := by simpa using hname
  simp [present?, Keyed.get?, hne.symm]

/-- A negation is what the action in it comes to, put among its other fields. -/
theorem negation_outcome (hfactories : context.factories = .standard) (document : Path)
    (hinner : inner ≠ .null) (n : Nat) :
    ∃ wrap : Value → Value,
      outcome context document (n + 2) .entry (.map [("not", .map [("action", inner)])]) =
        wrap <$> ((Deeper.level context n).fill .action document inner
          Family.action.initial).outcome := by
  have hread : Entry.read (.map [("not", .map [("action", inner)])]) =
      .ok ⟨.not, [("action", inner)], none, none⟩ := by rfl
  have hkeys : keysCheck context document [("action", inner)] (Fields.zero (Rig.action .not)) =
      .ok () := keysCheck_ok_iff.mpr fun _ k hk => by
    obtain rfl : k = "action" := by simpa using hk
    exact List.mem_cons_self
  have hd : directives ⟨"NotAction", "action", "action,factory=action"⟩ =
      .ok ⟨[("factory", "action"), ("name", "action")]⟩ := by rw [directives, read_action]
  have hpresent : present? "action" [("action", inner)] = some inner :=
    present?_eq_some rfl hinner
  have hfill : slotOutcome context (Deeper.level context n) document [("action", inner)]
      ⟨"NotAction", "action", "action,factory=action"⟩ Family.action.initial = _ :=
    slotOutcome_factory hd rfl (standard_action hfactories) (by simp [Family.initial]) hpresent n
  -- the other fields take their defaults, whatever the action comes to
  have hmem : ∀ s ∈ negationRest, s ∈ Fields.zero (Rig.action .not) :=
    fun _ => List.mem_cons_of_mem _
  obtain ⟨rest, hrest⟩ := exists_slots_of_absent context (Deeper.level context n) document hmem
    fun s hs d hd => absent_negationRest hs hd inner
  refine ⟨fun w => Plan.finish ⟨.not, [("action", inner)], none, none⟩
    (.record (some (.action .not)) ((⟨"NotAction", "action", "action,factory=action"⟩, w) :: rest)),
    ?_⟩
  have hslots : Fields.zero (Rig.action .not) =
      (⟨"NotAction", "action", "action,factory=action"⟩, Family.action.initial) ::
        negationRest := rfl
  rw [entry_outcome_succ, hread, ok_bind, action_value_outcome, hkeys, ok_bind, hslots,
    List.mapM_cons, hrest, hfill]
  cases ((Deeper.level context n).fill .action document inner Family.action.initial).outcome <;> rfl

/-- A chain of negations takes three levels for each and two for what is negated; with fewer it is
    too deep. -/
theorem negations_outcome (hfactories : context.factories = .standard) (document : Path)
    (k n : Nat) :
    (3 * k + 2 ≤ n →
      ∃ v, outcome context document n .entry (Entry.negations k) = .ok v) ∧
    (n < 3 * k + 2 → outcome context document n .entry (Entry.negations k) = tooDeep) := by
  induction k generalizing n with
  | zero =>
    rcases n with _ | _ | n
    · exact ⟨by omega, fun _ => rfl⟩
    · exact ⟨by omega, fun _ => rfl⟩
    · exact ⟨fun _ => benchmark_outcome document n, by omega⟩
  | succ k ih =>
    have hnegation := negation_outcome hfactories document (Entry.negations_ne_null k)
    -- one more negation takes three levels: the entry, its payload and what it negates
    rcases n with _ | _ | _ | n
    · exact ⟨by omega, fun _ => rfl⟩
    · exact ⟨by omega, fun _ => rfl⟩
    · obtain ⟨wrap, hwrap⟩ := hnegation 0
      exact ⟨by omega, fun _ => hwrap⟩
    · obtain ⟨wrap, hwrap⟩ := hnegation (n + 1)
      have hinner : ((Deeper.level context (n + 1)).fill .action document (Entry.negations k)
          Family.action.initial).outcome =
            outcome context document n .entry (Entry.negations k) := rfl
      rw [hinner] at hwrap
      obtain ⟨hok, hdeep⟩ := ih n
      constructor
      · intro hn
        obtain ⟨v, hv⟩ := hok (by omega)
        exact ⟨wrap v, by rw [Entry.negations, hwrap, hv]; rfl⟩
      · intro hn
        rw [Entry.negations, hwrap, hdeep (by omega)]
        rfl

end

/-! ## §4 Walkers -/

/-- The nesting of actions is bounded. A walker that has not been anywhere accepts no entry in which
    there is one more than 42 levels below; of the chains of negations it accepts those of up to 42,
    and the others are too deep. A walker that keeps its state has never more than 128 calls open
    while it makes an action, and as many afterwards as before, whether there is one or not. -/
theorem Walker.action_bounded (context : Context) (hfactories : context.factories = .standard) :
    (∀ k entry v, 42 < k → Entry.Nests k entry →
      ((Walker.fresh context).action entry).1 ≠ .ok v) ∧
    (∀ k, ((∃ v, ((Walker.fresh context).action (Entry.negations k)).1 = .ok v) ↔ k ≤ 42) ∧
      (42 < k → ∃ e, ((Walker.fresh context).action (Entry.negations k)).1 = .error e ∧
        e.root = .tooDeep 128)) ∧
    (∀ (w : Walker) (below : Calls) (entry : Data), w.depth ≤ 128 →
      ∃ state, w.runState below (·.action entry) = ((w.action entry).1, state) ∧
        state.location = (w.action entry).2.location ∧ state.document = w.document ∧
        state.peak ≤ 128 ∧ state.depth = w.depth ∧ (w.action entry).2.depth = w.depth) := by
  -- a new walker has all 128 levels left
  have hrun (entry : Data) : ((Walker.fresh context).action entry).1.mapError Error.root =
      outcome context "" 128 .entry entry := (Walker.fresh context).root_action entry
  refine ⟨?_, fun k => ⟨⟨?_, ?_⟩, ?_⟩, ?_⟩
  · intro k entry v hk hnests hv
    have hok := hrun entry
    rw [hv] at hok
    -- each entry takes three levels, and of 128 there is room for 42
    have hlevels := levels_of_nests hfactories hnests hok.symm
    omega
  · rintro ⟨v, hv⟩
    have hok := hrun (Entry.negations k)
    rw [hv] at hok
    have hlevels := levels_of_nests hfactories (Entry.nests_negations k) hok.symm
    omega
  · intro hk
    obtain ⟨v, hv⟩ := (negations_outcome hfactories "" k 128).1 (by omega)
    exact ⟨v, ok_of_mapError_eq_ok ((hrun _).trans hv)⟩
  · intro hk
    have hdeep := (hrun _).trans ((negations_outcome hfactories "" k 128).2 (by omega))
    cases hv : ((Walker.fresh context).action (Entry.negations k)).1 with
    | ok v =>
      rw [hv] at hdeep
      cases hdeep
    | error e =>
      rw [hv] at hdeep
      exact ⟨e, rfl, Except.error.inj hdeep⟩
  · intro w below entry hdepth
    obtain ⟨peak, hpeak, heq⟩ := w.runState_action below entry
    exact ⟨_, heq, rfl, rfl, hpeak.trans (max_le hdepth (le_refl _)), rfl, w.depth_run _⟩

/-- The bound is met: 42 negations are accepted, and 43 are not. -/
theorem Walker.action_bounded_negations :
    let walker := Walker.fresh ⟨StoredFiles.empty.fileSystem, .standard, true⟩
    (∃ v, (walker.action (Entry.negations 42)).1 = .ok v) ∧
      ∃ e, (walker.action (Entry.negations 43)).1 = .error e ∧ e.root = .tooDeep 128 := by
  intro walker
  obtain ⟨-, hchain, -⟩ :=
    Walker.action_bounded ⟨StoredFiles.empty.fileSystem, .standard, true⟩ rfl
  exact ⟨(hchain 42).1.mpr (le_refl _), (hchain 43).2 (by decide)⟩

end Testbed
