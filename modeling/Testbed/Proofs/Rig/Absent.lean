import Testbed.Proofs.Binding.Routing

/-!
# Null and absent

A record is bound field by field, and a field whose data is null is bound as if there were no data.
So a key that is null can be taken out of any map that is read as the fields of a record, wherever
in a document the map stands, and the document stands for the same (`resolve_erase_null`).

Three readers of such maps look for keys without looking under them: the check that one of some keys
is there, the check that a negation has an action, and the search for the type of an expectation.
Where one of them asks for the key it has to stay: a negation of null is taken, and a negation of
nothing is not (`resolve_erase_null_action`).
-/

namespace Testbed

namespace Keyed

variable {α : Type}

/-- The entries under other keys. -/
def erase (key : String) (entries : List (String × α)) : List (String × α) :=
  entries.filter fun e => e.1 ≠ key

theorem get?_erase (key other : String) (entries : List (String × α)) :
    get? other (erase key entries) = if other = key then none else get? other entries := by
  induction entries with
  | nil => simp [erase, get?]
  | cons e rest ih =>
    obtain ⟨k, v⟩ := e
    by_cases hk : k = key <;> by_cases ho : k = other <;> simp_all [erase, get?]

theorem has_erase_of_ne {key other : String} (h : other ≠ key) (entries : List (String × α)) :
    has other (erase key entries) = has other entries := by
  rw [has, get?_erase, if_neg h, has]

end Keyed

/-! ## §1 What a record shows -/

namespace Binding

variable {context : Context} {deeper : Deeper} {document : Path} {d : Directives}
  {es : List (String × Data)} {key : String}

/-- A null entry counts as absent, so erasing it makes no difference. -/
theorem present?_erase (hnull : Keyed.get? key es = some .null) (name : String) :
    present? name (Keyed.erase key es) = present? name es := by
  unfold present?
  rw [Keyed.get?_erase]
  split
  · next h => rw [h, hnull]; rfl
  · rfl

/-- A record is bound alike with a null entry and without it. -/
theorem assign_record_erase (hstrict : context.strict = false) (h : deeper.Approximates deeper)
    (hnull : Keyed.get? key es = some .null) (variant : Option Variant) (slots : Slots) :
    (assign context deeper document (.map (Keyed.erase key es)) (.record variant slots)).outcome =
      (assign context deeper document (.map es) (.record variant slots)).outcome := by
  rw [assign_record_outcome hstrict h, assign_record_outcome hstrict h]
  congr 1
  apply mapM_eq_of_forall
  intro s _
  rw [slotOutcome_congr fun directives _ => present?_erase hnull (documentName s.1 directives)]

/-- A check for keys is passed without a key as it is with it, if another one is there. -/
theorem checkValue_erase
    (h : ∀ keys, d.keys? = some keys → key ∈ keys →
      ∃ other ∈ keys, other ≠ key ∧ Keyed.has other es = true) :
    checkValue d (.map (Keyed.erase key es)) = checkValue d (.map es) := by
  have hany (keys : List String) (hkeys : d.keys? = some keys) :
      keys.any (Keyed.has · (Keyed.erase key es)) = keys.any (Keyed.has · es) := by
    rw [Bool.eq_iff_iff, List.any_eq_true, List.any_eq_true]
    constructor
    · rintro ⟨k, hk, hhas⟩
      have hne : k ≠ key := by
        rintro rfl
        simp [Keyed.has, Keyed.get?_erase] at hhas
      exact ⟨k, hk, by rwa [Keyed.has_erase_of_ne hne] at hhas⟩
    · rintro ⟨k, hk, hhas⟩
      by_cases hne : k = key
      · obtain ⟨other, hother, hne, hhas⟩ := h keys hkeys (hne ▸ hk)
        exact ⟨other, hother, by rwa [Keyed.has_erase_of_ne hne]⟩
      · exact ⟨k, hk, by rwa [Keyed.has_erase_of_ne hne]⟩
  unfold checkValue
  cases hkeys : d.keys? with
  | none => rfl
  | some keys => simp only [hany keys hkeys]; rfl

end Binding

namespace Entry

/-- The keys that all expectations have say nothing about the kind of one. -/
theorem expectationKind_erase {key : String} (hkey : key ∈ sharedKeys)
    (found : Option (String × ActionKind)) (es : List (String × Data)) :
    expectationKind found (Keyed.erase key es) = expectationKind found es := by
  induction es generalizing found with
  | nil => rfl
  | cons e rest ih =>
    obtain ⟨k, x⟩ := e
    by_cases hk : k = key
    · subst hk
      rw [expectationKind, if_pos hkey, ← ih found]
      simp [Keyed.erase]
    · have hcons : Keyed.erase key ((k, x) :: rest) = (k, x) :: Keyed.erase key rest := by
        simp [Keyed.erase, hk]
      rw [hcons]
      simp only [expectationKind, ih]

end Entry

/-! ## §2 Maps that are read as fields -/

namespace Position

variable {context : Context} {document : Path} {s : Position} {es : List (String × Data)}
  {key : String}

/-- Whether a map at a position is read as the fields of a record: where a record is bound by its
    shape, by itself or as a field, and as the payload of an action. -/
def ReadsFields : Position → Prop
  | value target => ∃ variant slots, target = .record variant slots
  | field d target => d.factory? = none ∧ ∃ variant slots, target = .record variant slots
  | entry => False
  | payload _ => True

/-- Whether it is looked for a key in a map at a position whatever is under the key: where it is the
    only one there of the keys of which one is needed; in a negation the action; and in an
    expectation all that not every expectation has. -/
def Asks (s : Position) (key : String) (es : List (String × Data)) : Prop :=
  match s with
  | field d _ => ∃ keys, d.keys? = some keys ∧ key ∈ keys ∧
      ∀ other ∈ keys, other ≠ key → Keyed.has other es = false
  | payload raw => Entry.verbOf? raw = some .not ∧ key = "action" ∨
      Entry.verbOf? raw = some .expect ∧ key ∉ Entry.sharedKeys
  | _ => False

/-- Where the key of an entry is refused, so is the entry. -/
theorem payload_outcome_error {key : String} {x : Data} {cause : Cause} {n : Nat}
    (h : Entry.readKeyed key x = .error cause) :
    outcome context document (n + 1) (payload key) x = .error cause := by
  have hread : Entry.read (.map [(key, x)]) = .error cause := h
  show (Binding.action (Deeper.level context n) document (.map [(key, x)])).outcome = _
  rw [Binding.action_outcome (Deeper.level_self _), hread]
  rfl

section

variable {variant : Option Variant} {slots : Slots}

theorem value_outcome_erase (hstrict : context.strict = false)
    (hnull : Keyed.get? key es = some .null) (n : Nat) :
    (value (.record variant slots)).outcome context document n (.map (Keyed.erase key es)) =
      (value (.record variant slots)).outcome context document n (.map es) := by
  cases n with
  | zero => rfl
  | succ n =>
    rw [value_outcome_succ, value_outcome_succ,
      Binding.assign_record_erase hstrict (Deeper.level_self n) hnull]

/-- A field is bound alike with a null entry and without it, where its tag does not ask for the
    key. -/
theorem field_outcome_erase (hstrict : context.strict = false) {d : Directives}
    (hfactory : d.factory? = none) (hnull : Keyed.get? key es = some .null)
    (hasks : ¬ (field d (.record variant slots)).Asks key es) (n : Nat) :
    (field d (.record variant slots)).outcome context document n (.map (Keyed.erase key es)) =
      (field d (.record variant slots)).outcome context document n (.map es) := by
  have hcheck : Binding.checkValue d (.map (Keyed.erase key es)) =
      Binding.checkValue d (.map es) := by
    apply Binding.checkValue_erase
    intro keys hkeys hkey
    by_contra hnone
    refine hasks ⟨keys, hkeys, hkey, fun other hother hne => ?_⟩
    by_contra hhas
    exact hnone ⟨other, hother, hne, by simpa using hhas⟩
  have htaken (es : List (String × Data)) :
      Binding.taken d (.record variant slots) (.map es) = .map es := by
    unfold Binding.taken
    cases d.string? <;> rfl
  show (Binding.field _ _ _ _ _ _).outcome = (Binding.field _ _ _ _ _ _).outcome
  rw [Binding.field_outcome (Deeper.level_self n) hfactory rfl,
    Binding.field_outcome (Deeper.level_self n) hfactory rfl, htaken, htaken, hcheck]
  congr 1
  funext _
  split
  · rfl
  · exact value_outcome_erase hstrict hnull n

end

/-- An action is made alike with a null entry and without it, where its verb does not ask for the
    key. -/
theorem payload_outcome_erase (hstrict : context.strict = false) {raw : String}
    (hnull : Keyed.get? key es = some .null) (hasks : ¬ (payload raw).Asks key es) (n : Nat) :
    (payload raw).outcome context document n (.map (Keyed.erase key es)) =
      (payload raw).outcome context document n (.map es) := by
  have hread : Entry.readKeyed raw (.map (Keyed.erase key es)) =
      (fun plan => { plan with payload := Keyed.erase key es }) <$>
        Entry.readKeyed raw (.map es) := by
    apply Entry.readKeyed_map
    · intro hexpect
      apply Entry.expectationKind_erase
      by_contra hkey
      exact hasks (.inr ⟨hexpect, hkey⟩)
    · intro hnot
      apply Keyed.has_erase_of_ne
      intro hkey
      exact hasks (.inl ⟨hnot, hkey.symm⟩)
  cases n with
  | zero => rfl
  | succ n =>
    cases hplan : Entry.readKeyed raw (.map es) with
    | error cause =>
      rw [hplan] at hread
      rw [payload_outcome_error hplan, payload_outcome_error hread]
    | ok plan =>
      rw [hplan] at hread
      obtain rfl := Entry.payload_of_readKeyed_map hplan
      rw [payload_outcome_succ hplan, payload_outcome_succ hread]
      exact congrArg (plan.finish <$> ·) (value_outcome_erase hstrict hnull n)

/-- Where no one asks for a key that is null, a map that is read as fields comes to the same without
    it. -/
theorem outcome_erase (hstrict : context.strict = false) (hs : s.ReadsFields)
    (hnull : Keyed.get? key es = some .null) (hasks : ¬ s.Asks key es) (n : Nat) :
    s.outcome context document n (.map (Keyed.erase key es)) =
      s.outcome context document n (.map es) := by
  cases s with
  | value target =>
    obtain ⟨variant, slots, rfl⟩ := hs
    exact value_outcome_erase hstrict hnull n
  | field d target =>
    obtain ⟨hfactory, variant, slots, rfl⟩ := hs
    exact field_outcome_erase hstrict hfactory hnull hasks n
  | entry => exact hs.elim
  | payload raw => exact payload_outcome_erase hstrict hnull hasks n

end Position

namespace Rig

open Position

variable {context : Context}

/-! ## §3 Documents -/

/-- Taking a null out of a map that is read as the fields of a record, wherever in a document the
    map stands, changes neither whether documents and overwrites stand for a configuration nor which
    one they stand for, unless the key is one that is asked for there. -/
theorem resolve_erase_null (hstrict : context.strict = false) {d : Document} (hd : d.data.Ordered)
    {r : Route} {s : Position} (hlead : Leads context (fun _ => True) whole d.data r s)
    (hfields : s.ReadsFields) {es : List (String × Data)}
    (hes : Data.at? r d.data = some (.map es)) {key : String}
    (hnull : Keyed.get? key es = some .null) (hasks : ¬ s.Asks key es)
    (before after : List Document) (overwrites : List (String × String)) :
    (resolve context (before ++ d.put r (.map (Keyed.erase key es)) :: after) overwrites).toOption =
      (resolve context (before ++ d :: after) overwrites).toOption := by
  apply resolve_toOption_congr
  apply bindDocument_put_toOption hstrict hd hlead hes
  · exact takes_of_not_isScalar s rfl
  · exact takes_of_not_isScalar s rfl
  · exact fun _ => ⟨_, rfl⟩
  · exact outcome_erase hstrict hfields hnull hasks

/-- A document with one action. -/
def acting (key : String) (payload : List (String × Data)) : Document :=
  ⟨"main.yaml", [("spec", .map [("instances",
    .list [.map [("actions", .list [.map [(key, .map payload)]])]])])]⟩

/-- The way to the payload of the one action. -/
theorem leads_acting (key : String) (payload : List (String × Data)) {r : Route} {s : Position}
    (h : Leads withoutFiles (fun _ => True) (.payload key) (.map payload) r s) :
    Leads withoutFiles (fun _ => True) whole (acting key payload).data
      (.key "spec" :: .key "instances" :: .index 0 :: .key "actions" :: .index 0 :: .key key :: r)
      s := by
  have hspec : Binding.directives ⟨"Config", "spec", "spec"⟩ = .ok ⟨[("name", "spec")]⟩ := rfl
  have hinstances : Binding.directives ⟨"Spec", "instances", "instances,loadable"⟩ =
      .ok ⟨[("loadable", "true"), ("name", "instances")]⟩ := rfl
  have hactions : Binding.directives ⟨"Instance", "actions", "actions,factory=actions"⟩ =
      .ok ⟨[("factory", "actions"), ("name", "actions")]⟩ := rfl
  have hkey : Data.child? (.key key) (.map [(key, .map payload)]) = some (.map payload) := by
    simp [Data.child?, Keyed.get?]
  exact .step (.slot (List.mem_of_getElem? (i := 5) rfl) hspec) trivial rfl
    (.step (.plain rfl (.slot (List.mem_of_getElem? (i := 1) rfl) hinstances)) trivial rfl
      (.step (.plain rfl .item) trivial rfl
        (.step (.slot (List.mem_of_getElem? (i := 4) rfl) hactions) trivial rfl
          (.step (.action rfl rfl) trivial rfl (.step .key trivial hkey h)))))

/-- A timeout of null in the payload of an action. -/
theorem resolve_erase_null_timeout :
    (resolve withoutFiles [acting "start/web" [("when", .text "always")]] []).toOption =
      (resolve withoutFiles
        [acting "start/web" [("timeout", .null), ("when", .text "always")]] []).toOption := by
  let d := acting "start/web" [("timeout", .null), ("when", .text "always")]
  have hordered : d.data.Ordered := Data.ordered_of_isSorted _ (by decide +kernel)
  have hspec : Binding.directives ⟨"Config", "spec", "spec"⟩ = .ok ⟨[("name", "spec")]⟩ := rfl
  have hinstances : Binding.directives ⟨"Spec", "instances", "instances,loadable"⟩ =
      .ok ⟨[("loadable", "true"), ("name", "instances")]⟩ := rfl
  have hactions : Binding.directives ⟨"Instance", "actions", "actions,factory=actions"⟩ =
      .ok ⟨[("factory", "actions"), ("name", "actions")]⟩ := rfl
  have hlead : Leads withoutFiles (fun _ => True) whole d.data
      [.key "spec", .key "instances", .index 0, .key "actions", .index 0, .key "start/web"]
      (.payload "start/web") :=
    .step (.slot (List.mem_of_getElem? (i := 5) rfl) hspec) trivial rfl
      (.step (.plain rfl (.slot (List.mem_of_getElem? (i := 1) rfl) hinstances)) trivial rfl
        (.step (.plain rfl .item) trivial rfl
          (.step (.slot (List.mem_of_getElem? (i := 4) rfl) hactions) trivial rfl
            (.step (.action rfl rfl) trivial rfl (.step .key trivial rfl (.here _ _))))))
  have hasks : ¬ (Position.payload "start/web").Asks "timeout"
      [("timeout", .null), ("when", .text "always")] := by
    rintro (⟨-, hkey⟩ | ⟨-, hkey⟩)
    · exact absurd hkey (by decide)
    · exact hkey (by decide)
  exact resolve_erase_null rfl hordered hlead trivial rfl rfl hasks [] [] []

/-- A negation of null is taken, and one of nothing is not. -/
theorem resolve_erase_null_action :
    (resolve withoutFiles [acting "not" [("action", .null)]] []).toOption.isSome = true ∧
      Keyed.erase "action" [("action", Data.null)] = [] ∧
      (resolve withoutFiles [acting "not" []] []).toOption.isNone = true := by
  refine ⟨?_, rfl, ?_⟩ <;> decide +kernel

end Rig

end Testbed
