import Testbed.Proofs.Binding.Building
import Testbed.Proofs.Binding.Grammar
import Testbed.Proofs.Binding.Inside
import Testbed.Proofs.Rig.Tags
import Testbed.Proofs.Value.Within
import Testbed.Rig.View

/-!
# What walks let through

A field lets through what its directives demand: a text that is allowed, the path of something that
exists, a map with one of some keys; or it is empty. `Valid` says so of every record within a value,
and of every action that needs a service that it has one. Every walk gives valid values: whether a
field is bound, takes its default or goes back to zero, from a document or from one that is loaded,
by its shape or by a factory (`Deeper.level_validates`).
-/

namespace Testbed

open Binding Value

/-- Whether a field with directives lets a value through, or the value is empty. -/
structure Checked (files : FileSystem) (d : Directives) (v : Value) : Prop where
  allowed : ∀ allowed, d.allowed? = some allowed → ∃ s, v = .text s ∧ (s ∈ allowed ∨ s = "")
  path : d.isPath = true → ∃ p, v = .text p ∧ (p = "" ∨ files.isPresent p = true)
  keys : ∀ keys, d.keys? = some keys → ∀ e es, v = .map e es →
    es = [] ∨ ∃ key ∈ keys, Keyed.has key es = true

/-- Whether a record holds what its fields let through, and has a service if it needs one. -/
structure Passed (files : FileSystem) (v : Value) : Prop where
  slots : ∀ variant slots, v = .record variant slots → ∀ f w, (f, w) ∈ slots →
    ∀ d, directives f = .ok d → Checked files d w
  service : ∀ kind, v.actionKind? = some kind → kind.needsService = true → v.service ≠ ""

/-- Whether all records within a value hold what their fields let through. -/
abbrev Valid (files : FileSystem) : Value → Prop :=
  Everywhere (Passed files)

/-- Whether slots hold valid values that their fields let through. -/
def SlotsValid (files : FileSystem) (slots : Slots) : Prop :=
  ∀ f w, (f, w) ∈ slots → (∀ d, directives f = .ok d → Checked files d w) ∧ Valid files w

section

variable {files : FileSystem} {d : Directives} {v w : Value} {s e : Shape} {slots : Slots}
  {fs : Fields}

/-! ## §1 Valid values -/

theorem passed_of_ne_record (h : ∀ variant slots, v ≠ record variant slots) : Passed files v := by
  refine ⟨fun variant slots heq => absurd heq (h variant slots), fun kind hkind => ?_⟩
  cases v with
  | record variant slots => exact absurd rfl (h variant slots)
  | _ => cases hkind

theorem valid_of_isScalar (hv : v.isScalar = true) : Valid files v := by
  refine everywhere_of_isScalar hv (passed_of_ne_record ?_)
  rintro variant slots rfl
  cases hv

theorem valid_list {items : List Value} (h : ∀ v ∈ items, Valid files v) :
    Valid files (list e items) :=
  everywhere_list.mpr ⟨passed_of_ne_record (by simp), h⟩

theorem valid_map {es : List (String × Value)} (h : ∀ key v, (key, v) ∈ es → Valid files v) :
    Valid files (map e es) :=
  everywhere_map.mpr ⟨passed_of_ne_record (by simp), h⟩

/-- A record is valid where its slots are, and where it has a service if it is an action that needs
    one. -/
theorem valid_record {variant : Option Variant} (hslots : SlotsValid files slots)
    (hservice : ∀ kind, variant = some (.action kind) → kind.needsService = true →
      (record variant slots).service ≠ "") : Valid files (record variant slots) := by
  refine everywhere_record.mpr ⟨⟨?_, ?_⟩, fun f w hw => (hslots f w hw).2⟩
  · rintro _ _ ⟨⟩ f w hw
    exact (hslots f w hw).1
  · intro kind hkind
    apply hservice kind
    unfold actionKind? at hkind
    split at hkind <;> simp_all

theorem slotsValid_nil : SlotsValid files [] := by
  intro f w hw
  cases hw

/-- A slot more is valid where its value is and has passed the checks of its tag. -/
theorem slotsValid_cons {f : Field} {rest : Slots} (hf : directives f = .ok d)
    (hchecked : Checked files d v) (hv : Valid files v) (hrest : SlotsValid files rest) :
    SlotsValid files ((f, v) :: rest) := by
  intro g w hw
  rcases List.mem_cons.mp hw with heq | hw
  · obtain ⟨rfl, rfl⟩ := Prod.mk.inj heq
    refine ⟨fun d' hd' => ?_, hv⟩
    obtain rfl := Except.ok.inj (hf.symm.trans hd')
    exact hchecked
  · exact hrest g w hw

/-! ## §2 Zero values -/

/-- A field filled by a factory lets everything through. -/
theorem checked_of_free (h : d.Free) (v : Value) : Checked files d v where
  allowed allowed hallowed := by simp [h.allowed] at hallowed
  path hpath := by simp [h.path] at hpath
  keys keys hkeys := by simp [h.keys] at hkeys

/-- What is no text is asked for its keys alone. -/
theorem checked_of_suits (hsuits : d.Suits s) (hs : s ≠ .text)
    (hkeys : ∀ keys, d.keys? = some keys → ∀ e es, v = .map e es →
      es = [] ∨ ∃ key ∈ keys, Keyed.has key es = true) : Checked files d v where
  allowed allowed hallowed := absurd (hsuits.allowed allowed hallowed).1 hs
  path hpath := absurd (hsuits.path hpath).1 hs
  keys := hkeys

/-- A value that no document has set passes the checks of a tag that suits its shape. -/
theorem checked_zeroWith (initial : Family → Value) (hsuits : d.Suits s) (hs : s.isSound = true) :
    Checked files d (s.zeroWith initial) := by
  cases s with
  | text =>
    refine ⟨fun _ _ => ⟨"", rfl, .inr rfl⟩, fun _ => ⟨"", rfl, .inl rfl⟩, ?_⟩
    rintro _ _ _ _ ⟨⟩
  | oneOf family => cases hs
  | map e =>
    refine checked_of_suits hsuits (by simp) ?_
    rintro _ _ _ _ ⟨⟩
    exact .inl rfl
  | _ =>
    refine checked_of_suits hsuits (by simp) ?_
    rintro _ _ _ _ ⟨⟩

mutual
/-- The zero value of a sound shape is valid, if those of the families are. -/
theorem valid_zeroWith {initial : Family → Value} (h : ∀ f, Valid files (initial f)) :
    (s : Shape) → s.isSound = true → Valid files (s.zeroWith initial)
  | .bool, _ => valid_of_isScalar rfl
  | .int _, _ => valid_of_isScalar rfl
  | .float _, _ => valid_of_isScalar rfl
  | .text, _ => valid_of_isScalar rfl
  | .list _, _ => valid_list (by simp)
  | .map _, _ => valid_map (by simp)
  | .record fields, hs => valid_record (slotsValid_zeroWith h fields hs) (by simp)
  | .oneOf _, hs => by cases hs
  | .absent, hs => by cases hs
theorem slotsValid_zeroWith {initial : Family → Value} (h : ∀ f, Valid files (initial f)) :
    (fields : Fields) → soundFields fields = true →
      SlotsValid files (zeroSlotsWith initial fields)
  | [], _ => slotsValid_nil
  | (f, s) :: rest, hsound => by
    obtain ⟨hfield, hrest⟩ := soundFields_cons.mp hsound
    obtain ⟨d, hd, hdirected⟩ := directed_of_soundField hfield
    have hothers := slotsValid_zeroWith h rest hrest
    cases hdirected with
    | shape _ hs hsuits =>
      exact slotsValid_cons hd (checked_zeroWith initial hsuits hs) (valid_zeroWith h s hs) hothers
    | @factory name f _ _ hfree =>
      refine slotsValid_cons hd (checked_of_free hfree _) ?_ hothers
      cases f with
      | actions => exact valid_list (by simp)
      | action => exact h .action
      | sandboxes => exact valid_map (by simp)
      | environments => exact valid_map (by simp)
end

/-- What a family starts with holds no other members, and needs no service. -/
theorem valid_initial (f : Family) : Valid files f.initial := by
  have habsent (f : Family) : Valid files ((fun _ => .absent : Family → Value) f) :=
    valid_of_isScalar rfl
  apply valid_record (slotsValid_zeroWith habsent _ (Rig.variant_sound f.first))
  rintro kind hkind hneeds
  cases f <;> cases hkind
  cases hneeds

theorem slotsValid_zero (h : soundFields fs = true) : SlotsValid files (Fields.zero fs) :=
  slotsValid_zeroWith valid_initial fs h

theorem valid_zero (hd : Directed d s) : Valid files s.zero := by
  cases hd with
  | shape _ hs _ => exact valid_zeroWith valid_initial s hs
  | @factory name f _ _ _ =>
    cases f with
    | actions => exact valid_list (by simp)
    | action => exact valid_initial .action
    | sandboxes => exact valid_map (by simp)
    | environments => exact valid_map (by simp)

/-- The value that a field begins with passes the checks of its tag if the tag is sound. -/
theorem checked_zero (hd : Directed d s) : Checked files d s.zero := by
  cases hd with
  | shape _ hs hsuits => exact checked_zeroWith _ hsuits hs
  | factory _ _ hfree => exact checked_of_free hfree _

end

namespace Binding

open Walk

variable {context : Context} {document : Path} {d : Directives} {target v : Value} {s : Shape}

/-! ## §3 Scalars -/

theorem isScalar_of_built {w : Value} (hv : Built v s) (hw : Built w s)
    (h : v.isScalar = true) : w.isScalar = true := by
  cases hv with
  | bool _ | int _ _ | float _ _ | text _ | absent =>
    cases hw
    rfl
  | _ => cases h

theorem isScalar_of_ofDefault {raw : String} (h : ofDefault raw s.zero = .ok v) :
    v.isScalar = true := by
  have hbuilt := built_of_ofDefault (built_zero s) h
  cases s with
  | bool | int _ | text => exact isScalar_of_built (built_zero _) hbuilt rfl
  | oneOf f => cases f <;> cases h
  | _ => cases h

/-- A default is one that its field lets through. -/
theorem checked_of_absentField (hv : Built target s) (hd : Directed d s)
    (h : fields.absentField d target = .ok v) :
    Checked context.files d v ∧ Valid context.files v := by
  rw [absentField_eq_zero hv, fields.absentField] at h
  split at h
  · next raw hraw =>
    cases hd with
    | factory _ _ hfree => simp [hfree.default] at hraw
    | shape _ hs hsuits =>
      have hscalar := isScalar_of_ofDefault h
      refine ⟨⟨?_, ?_, ?_⟩, valid_of_isScalar hscalar⟩
      · intro allowed hallowed
        obtain ⟨rfl, hin⟩ := hsuits.allowed allowed hallowed
        cases h
        exact ⟨raw, rfl, .inl (hin raw hraw)⟩
      · intro hpath
        simp [(hsuits.path hpath).2.1] at hraw
      · rintro _ _ _ _ rfl
        cases hscalar
  · cases h
    rw [(built_zero s).reset_eq]
    exact ⟨checked_zero hd, valid_zero hd⟩

/-- A path that exists is let through, since nothing else is asked of it. -/
theorem checked_of_existingPath {data : Data} (hsuits : d.Suits s) (hd : d.isPath = true)
    (h : existingPath context document data target = .ok v) :
    Checked context.files d v ∧ Valid context.files v := by
  obtain ⟨p, rfl, hp⟩ : ∃ p, v = .text p ∧ context.files.isPresent p = true := by
    unfold existingPath at h
    split at h
    · simp only at h
      split at h
      · next hpresent =>
        split at h
        · cases h
          exact ⟨_, rfl, hpresent⟩
        · cases h
      · cases h
    · cases h
  refine ⟨⟨?_, fun _ => ⟨p, rfl, .inr hp⟩, ?_⟩, valid_of_isScalar rfl⟩
  · intro allowed hallowed
    simp [(hsuits.path hd).2.2] at hallowed
  · rintro _ _ _ _ ⟨⟩

/-- What the check of an enumeration lets through is a text that is on its list. -/
theorem exists_text_of_allowedCheck {data : Data} {allowed : List String}
    (hd : d.allowed? = some allowed) (h : allowedCheck d data = .ok ()) :
    ∃ raw, data = .text raw ∧ raw ∈ allowed := by
  unfold allowedCheck at h
  rw [hd] at h
  cases data with
  | text raw =>
    simp only at h
    split at h
    · next hraw => exact ⟨raw, rfl, hraw⟩
    · cases h
  | _ => cases h

/-- What the check for keys lets through is a map that has one of them. -/
theorem exists_key_of_presenceCheck {data : Data} {keys : List String}
    (hd : d.keys? = some keys) (h : presenceCheck d data = .ok ()) :
    ∃ es, data = .map es ∧ ∃ key ∈ keys, Keyed.has key es = true := by
  unfold presenceCheck at h
  rw [hd] at h
  cases data with
  | map es =>
    simp only at h
    split at h
    · next hkeys => exact ⟨es, rfl, List.any_eq_true.mp hkeys⟩
    · cases h
  | _ => cases h

end Binding

/-! ## §4 Actions -/

namespace Plan

variable {files : FileSystem} {kind : ActionKind} {v : Value}

/-- Whether a field is not one that a key sets, or lets every text through. -/
def isOpen (e : Field × Shape) : Bool :=
  e.1.ident ∉ ["service", "id", "name"] ||
    match directives e.1 with
    | .ok d => d.allowed?.isNone && !d.isPath
    | .error _ => false

/-- The fields that the key of an entry may set are checked for nothing, in every kind of action. -/
theorem isOpen_action (kind : ActionKind) : (Rig.action kind).all isOpen = true := by
  cases kind <;> decide +kernel

/-- Any text passes the checks of a field that the key of an entry may set. -/
theorem checked_of_isOpen {f : Field} {s : Shape} (h : (f, s) ∈ Rig.action kind)
    (hf : f.ident ∈ ["service", "id", "name"]) {d : Directives} (hd : directives f = .ok d)
    (raw : String) : Checked files d (.text raw) := by
  have hopen := List.all_eq_true.mp (isOpen_action kind) _ h
  simp only [isOpen, hf, hd, not_true_eq_false, decide_false, Bool.false_or, Bool.and_eq_true,
    Option.isNone_iff_eq_none, Bool.not_eq_true'] at hopen
  refine ⟨fun allowed hallowed => ?_, fun hpath => ?_, fun _ _ _ _ => nofun⟩
  · simp [hopen.1] at hallowed
  · simp [hopen.2] at hpath

/-- Whether a value is an action of a kind with valid slots. -/
def IsValidAction (files : FileSystem) (kind : ActionKind) (v : Value) : Prop :=
  ∃ slots, v = .record (some (.action kind)) slots ∧ SlotsBuilt slots (Rig.action kind) ∧
    SlotsValid files slots

/-- A valid action remains one when its service or its name is set. -/
theorem IsValidAction.setText (h : IsValidAction files kind v) {ident : Option String}
    (hident : ∀ i ∈ ident, i ∈ ["service", "id", "name"]) (raw : Option String) :
    IsValidAction files kind (setText ident raw v) := by
  cases ident with
  | none => exact h
  | some ident =>
    cases raw with
    | none => exact h
    | some raw =>
      obtain ⟨slots, rfl, hbuilt, hslots⟩ := h
      obtain ⟨variant, slots', heq, -, hbuilt'⟩ :=
        (built_setText (.member (v := .action kind) hbuilt) hident (some raw)).exists_member
      cases heq
      refine ⟨_, rfl, hbuilt', fun f w hw => ?_⟩
      obtain ⟨⟨g, x⟩, hx, heq⟩ := List.mem_map.mp hw
      obtain ⟨rfl, rfl⟩ := Prod.mk.inj heq
      split
      · next hset =>
        obtain ⟨s, hs, -⟩ := hbuilt.exists_field hx
        have hin : g.ident ∈ ["service", "id", "name"] := hset ▸ hident ident rfl
        exact ⟨fun d hd => checked_of_isOpen hs hin hd raw, valid_of_isScalar rfl⟩
      · exact hslots g x hx

/-- A valid action remains one when the key of its entry has been taken into account. -/
theorem IsValidAction.finish {plan : Plan} (h : IsValidAction files plan.kind v) :
    IsValidAction files plan.kind (plan.finish v) := by
  refine (h.setText ?_ plan.service).setText (nameField?_mem plan.kind) plan.name
  split <;> simp

/-- The service of an action is the text of its field, unless it is a negation, which asks the
    nested action. -/
theorem service_eq (hkind : kind ≠ .not) (slots : Slots) :
    (record (some (.action kind)) slots).service =
      (((record (some (.action kind)) slots).slot? "service").bind text?).getD "" := by
  cases kind <;> first | rfl | exact absurd rfl hkind

theorem slot?_setText {ident raw : Option String} {other : String} (hident : ident ≠ some other)
    (variant : Option Variant) (slots : Slots) :
    (setText ident raw (record variant slots)).slot? other =
      (record variant slots).slot? other := by
  cases ident with
  | none => rfl
  | some ident =>
    cases raw with
    | none => rfl
    | some raw =>
      have hne : other ≠ ident := fun heq => hident (congrArg some heq.symm)
      exact (slot?_setSlot variant slots ident other _).trans (if_neg hne)

/-- What needs a service has a field for it. -/
theorem exists_service_field (hneeds : kind.needsService = true) :
    ∃ f s, (f, s) ∈ Rig.action kind ∧ f.ident = "service" := by
  have hany : (Rig.action kind).any (·.1.ident = "service") = true := by
    cases kind <;> first | rfl | cases hneeds
  obtain ⟨⟨f, s⟩, hmem, hident⟩ := List.any_eq_true.mp hany
  exact ⟨f, s, hmem, by simpa using hident⟩

/-- The service of a key is that of the action. -/
theorem service_finish {plan : Plan} (h : IsValidAction files plan.kind v)
    (hneeds : plan.kind.needsService = true) {service : String}
    (hservice : plan.service = some service) : (plan.finish v).service = service := by
  have hnot : plan.kind ≠ .not := by
    intro hkind
    rw [hkind] at hneeds
    cases hneeds
  have hname : nameField? plan.kind ≠ some "service" := by
    cases plan.kind <;> decide
  obtain ⟨slots', hfinish, -, -⟩ := h.finish
  obtain ⟨slots, rfl, hbuilt, -⟩ := h
  obtain ⟨f, s, hfield, hident⟩ := exists_service_field hneeds
  obtain ⟨w, hw, -⟩ := hbuilt.exists_slot hfield
  have hold := hbuilt.slot?_of_mem (Rig.action_tidy plan.kind) (some (.action plan.kind)) hw
  -- the name that is set last leaves the service alone
  have hslot : (plan.finish (record (some (.action plan.kind)) slots)).slot? "service" =
      some (.text service) := by
    rw [Plan.finish, if_neg hnot, hservice]
    refine (slot?_setText hname _ _).trans ?_
    rw [hident] at hold
    exact (slot?_setSlot _ slots "service" "service" _).trans (by rw [if_pos rfl, hold]; rfl)
  rw [hfinish] at hslot ⊢
  rw [service_eq hnot, hslot]
  rfl

/-- A bound payload with the service and the name from the key is a valid action: where one is
    needed, the reader has seen a service. -/
theorem valid_finish {plan : Plan} (h : IsValidAction files plan.kind v) {entry : Data}
    (hread : Entry.read entry = .ok plan) : Valid files (plan.finish v) := by
  have hservice (hneeds : plan.kind.needsService = true) : (plan.finish v).service ≠ "" := by
    obtain ⟨service, hservice, hne⟩ := Entry.service_of_read hread hneeds
    rwa [service_finish h hneeds hservice]
  obtain ⟨slots, hfinish, -, hslots⟩ := h.finish
  rw [hfinish] at hservice ⊢
  refine valid_record hslots ?_
  rintro kind ⟨⟩
  exact hservice

end Plan

/-! ## §5 Walks -/

/-- Whether a value is a member of a family with valid slots; it is the one that it is bound in
    place of, unless it is bound from null. -/
def IsValidMember (files : FileSystem) (variant : Variant) (x : Data) (v : Value) : Prop :=
  ∃ variant' slots, v = .record (some variant') slots ∧ variant'.family = variant.family ∧
    (x ≠ .null → variant' = variant) ∧ SlotsValid files slots

/-- What is known of a value that is bound by its shape. -/
structure BoundValid (files : FileSystem) (x : Data) (v w : Value) : Prop where
  builds : ∀ s, v.Built s → w.Built s
  text : ∀ raw old, x = .text raw → v = .text old → w = .text raw
  keys : ∀ es e filled, x = .map es → w = .map e filled →
    ∀ key, Keyed.has key es = true → Keyed.has key filled = true
  valid : ∀ s, v.Built s → s.isSound = true → Valid files w
  member : ∀ variant : Variant, v = variant.zero → IsValidMember files variant x w

section

variable {files : FileSystem} {d : Directives} {x : Data} {v w : Value} {s e : Shape}

/-- Null resets a value, which is valid then like one that is new. -/
theorem boundValid_null (v : Value) : BoundValid files .null v v.reset where
  builds _ hv := hv.reset
  text _ _ := nofun
  keys _ _ _ := nofun
  valid s hv hs := by
    rw [hv.reset_eq]
    exact valid_zeroWith valid_initial s hs
  member variant hv := by
    subst hv
    refine ⟨variant.family.first, Fields.zero variant.family.first.fields,
      Family.initial_eq _, ?_, fun hnull => absurd rfl hnull, slotsValid_zero (Rig.variant_sound _)⟩
    cases variant.family <;> rfl

theorem boundValid_scalar (hv : v.isScalar = true) (h : scalar x v = .ok w) :
    BoundValid files x v w where
  builds _ hs := built_of_scalar hs h
  text raw old hx hold := by
    subst hx hold
    cases h
    rfl
  keys es e filled hx hw := by
    -- no scalar is taken from a map
    subst hx hw
    cases v with
    | list _ _ | map _ _ | record _ _ => cases hv
    | _ => cases h
  valid s hs _ := valid_of_isScalar (isScalar_of_built hs (built_of_scalar hs h) hv)
  member variant hzero := by
    subst hzero
    cases hv

theorem boundValid_list {xs : List Data} {old items : List Value}
    (hitems : ∀ v ∈ items, Built v e ∧ (e.isSound = true → Valid files v)) :
    BoundValid files (.list xs) (.list e old) (.list e items) where
  builds _ hv := by
    cases hv
    exact .list fun v hmem => (hitems v hmem).1
  text _ _ := nofun
  keys _ _ _ := nofun
  valid _ hv hs := by
    cases hv
    exact valid_list fun v hmem => (hitems v hmem).2 hs
  member _ := nofun

theorem boundValid_map {es : List (String × Data)} {old entries : List (String × Value)}
    (hentries : EachEntry (fun _ v => Built v e ∧ (e.isSound = true → Valid files v)) entries)
    (hkeys : ∀ key, Keyed.has key es = true → Keyed.has key entries = true) :
    BoundValid files (.map es) (.map e old) (.map e entries) where
  builds _ hv := by
    cases hv
    exact .map hentries.order fun key v hmem => (hentries.each key v hmem).1
  text _ _ := nofun
  keys _ _ _ hx hw := by
    cases hx
    cases hw
    exact hkeys
  valid _ hv hs := by
    cases hv
    exact valid_map fun key v hmem => (hentries.each key v hmem).2 hs
  member _ := nofun

theorem boundValid_record {es : List (String × Data)} {variant : Option Variant}
    {slots slots' : Slots} (hbuilt : ∀ fs, SlotsBuilt slots fs → SlotsBuilt slots' fs)
    (hvalid : ∀ fs, SlotsBuilt slots fs → soundFields fs = true → SlotsValid files slots') :
    BoundValid files (.map es) (.record variant slots) (.record variant slots') where
  builds _ hv := by
    cases hv with
    | record hslots => exact .record (hbuilt _ hslots)
    | member hslots => exact .member (hbuilt _ hslots)
  text _ _ := nofun
  keys _ _ _ _ := nofun
  valid _ hv hs := by
    cases hv with
    | record hslots => exact valid_record (hvalid _ hslots hs) (by simp)
    | member _ => cases hs
  member other hzero := by
    obtain ⟨rfl, rfl⟩ := Value.record.inj hzero
    exact ⟨other, slots', rfl, rfl, fun _ => rfl,
      hvalid _ (slotsHave_zero other.fields).built (Rig.variant_sound other)⟩

/-- What passes the checks is bound to what its field lets through. -/
theorem BoundValid.checked (h : BoundValid files x v w) (hsuits : d.Suits s)
    (hpath : d.isPath = false) (hcheck : checkValue d x = .ok ()) (hv : Built v s) :
    Checked files d w := by
  rw [checkValue_eq] at hcheck
  obtain ⟨_, hallowed, hpresence⟩ := exists_ok_of_bind hcheck
  refine ⟨fun allowed hd => ?_, by simp [hpath], fun keys hd e filled hw => ?_⟩
  · obtain ⟨rfl, -⟩ := hsuits.allowed allowed hd
    obtain ⟨raw, rfl, hraw⟩ := exists_text_of_allowedCheck hd hallowed
    cases hv with
    | text old => exact ⟨raw, h.text raw old rfl rfl, .inl hraw⟩
  · obtain ⟨es, rfl, key, hkey, hhas⟩ := exists_key_of_presenceCheck hd hpresence
    exact .inr ⟨key, hkey, h.keys es e filled rfl hw key hhas⟩

/-- A list or a map for which a pattern stands is asked for nothing. -/
theorem checked_of_isLoadable (hsuits : d.Suits s) (hload : d.isLoadable = true) (v : Value) :
    Checked files d v := by
  obtain ⟨hcontainer, hkeys⟩ := hsuits.loadable hload
  refine checked_of_suits hsuits ?_ (by simp [hkeys])
  obtain ⟨e, rfl | rfl⟩ := hcontainer <;> simp

/-- The members of the families besides actions need no service. -/
theorem IsValidMember.valid {variant : Variant} (h : IsValidMember files variant x v)
    (hfamily : variant.family ≠ .action) : Valid files v := by
  obtain ⟨variant', slots, rfl, hvariant, -, hslots⟩ := h
  refine valid_record hslots ?_
  rintro kind ⟨⟩
  exact absurd hvariant.symm hfamily

end

/-- What is bound or filled is valid, and a field holds what it lets through. -/
def Binding.validity {context : Context} (hfactories : context.factories = .standard) :
    Binding.Postcondition context where
  Bound := BoundValid context.files
  Filled f v w := (building context).Filled f v w ∧ (Built v f.shape → Valid context.files w)
  Field d v w := (building context).Field d v w ∧
    ∀ s, Directed d s → Built v s → Checked context.files d w ∧ Valid context.files w
  SlotsBound slots slots' := (building context).SlotsBound slots slots' ∧
    ∀ fs, SlotsBuilt slots fs → soundFields fs = true → SlotsValid context.files slots'
  Stands e v := Built v e ∧ (e.isSound = true → Valid context.files v)
  Made v := Built v (.oneOf .action) ∧ Valid context.files v
  null := boundValid_null
  scalar := boundValid_scalar
  list := boundValid_list
  map := boundValid_map
  record hslots := boundValid_record hslots.1 hslots.2
  zero e := ⟨built_zero e, valid_zeroWith valid_initial e⟩
  again hv h := ⟨h.builds _ hv.1, h.valid _ hv.1⟩
  absent h := ⟨(building context).absent h, fun s hd hv => checked_of_absentField hv hd h⟩
  loadedList hfactory hload hitems := by
    refine ⟨(building context).loadedList hfactory hload fun v hv => (hitems v hv).1,
      fun s hd hv => ?_⟩
    obtain ⟨hs, hsuits⟩ := hd.of_factory_none hfactory
    cases hv
    exact ⟨checked_of_isLoadable hsuits hload _, valid_list fun v hv => (hitems v hv).2 hs⟩
  loadedMap hfactory hload hentries := by
    refine ⟨(building context).loadedMap hfactory hload
      ⟨hentries.order, fun key v hv => (hentries.each key v hv).1⟩, fun s hd hv => ?_⟩
    obtain ⟨hs, hsuits⟩ := hd.of_factory_none hfactory
    cases hv
    exact ⟨checked_of_isLoadable hsuits hload _,
      valid_map fun key v hv => (hentries.each key v hv).2 hs⟩
  path hfactory hpath h := ⟨(building context).path hfactory hpath h, fun s hd _ =>
    checked_of_existingPath (hd.of_factory_none hfactory).2 hpath h⟩
  bound hfactory hpath hcheck h := by
    refine ⟨h.builds, fun s hd hv => ?_⟩
    obtain ⟨hs, hsuits⟩ := hd.of_factory_none hfactory
    exact ⟨h.checked hsuits hpath hcheck hv, h.valid s hv hs⟩
  bare hfactory hslots := by
    refine ⟨(building context).bare hfactory hslots.1, fun s hd hv => ?_⟩
    obtain ⟨hs, hsuits⟩ := hd.of_factory_none hfactory
    cases hv with
    | record h =>
      exact ⟨checked_of_suits hsuits (by simp) (by simp),
        valid_record (hslots.2 _ h hs) (by simp)⟩
    | member _ => cases hs
  filled hname hget h := by
    refine ⟨h.1, fun s hd hv => ?_⟩
    cases hd with
    | @factory name' f' hname' hf hfree =>
      obtain rfl : _ = name' := Option.some.inj (hname.symm.trans hname')
      rw [hfactories] at hget
      obtain rfl : _ = f' := Option.some.inj (hget.symm.trans hf)
      exact ⟨checked_of_free hfree _, h.2 hv⟩
    | shape hfactory _ _ => cases hname.symm.trans hfactory
  nil := ⟨(building context).nil, fun _ _ _ => slotsValid_nil⟩
  cons hread hv hslots := by
    refine ⟨(building context).cons hread hv.1 hslots.1, fun fs h hsound => ?_⟩
    cases h with
    | cons hbuilt hrest =>
      obtain ⟨hfield, hothers⟩ := soundFields_cons.mp hsound
      obtain ⟨d, hd, hdirected⟩ := directed_of_soundField hfield
      obtain rfl := Except.ok.inj (hread.symm.trans hd)
      obtain ⟨hchecked, hvalid⟩ := hv.2 _ hdirected hbuilt
      exact slotsValid_cons hread hchecked hvalid (hslots.2 _ hrest hothers)
  sandboxes hentries := by
    constructor
    · refine (building context).sandboxes ⟨hentries.order, fun key v hv => ?_⟩
      obtain ⟨p, x, hbound⟩ := hentries.each key v hv
      exact ⟨p, x, hbound.builds⟩
    · refine fun _ => valid_map fun key v hv => ?_
      obtain ⟨p, x, hbound⟩ := hentries.each key v hv
      exact (hbound.member (.sandbox p) rfl).valid (by simp [Variant.family])
  environments hentries := by
    constructor
    · refine (building context).environments ⟨hentries.order, fun key v hv => ?_⟩
      obtain ⟨p, x, hbound⟩ := hentries.each key v hv
      exact ⟨p, x, hbound.builds⟩
    · refine fun _ => valid_map fun key v hv => ?_
      obtain ⟨p, x, hbound⟩ := hentries.each key v hv
      exact (hbound.member (.environment p) rfl).valid (by simp [Variant.family])
  actions hitems := ⟨(building context).actions fun v hv => (hitems v hv).1,
    fun _ => valid_list fun v hv => (hitems v hv).2⟩
  action hmade := ⟨(building context).action hmade.1, fun _ => hmade.2⟩
  made hread h := by
    have hbuilt := h.builds _ (built_variant (.action _))
    obtain ⟨variant, slots, rfl, -, hvariant, hslots⟩ := h.member _ rfl
    obtain rfl := hvariant (by simp)
    obtain ⟨variant, slots', heq, -, hslots'⟩ := hbuilt.exists_member
    cases heq
    exact ⟨Plan.built_finish hbuilt _, Plan.valid_finish ⟨slots, rfl, hslots', hslots⟩ hread⟩

/-- Walks give valid values, however deep they may go. -/
theorem Deeper.level_validates {context : Context} (hfactories : context.factories = .standard)
    (n : Nat) (document : Path) (data : Data) {target : Value} {s : Shape} (hv : target.Built s)
    (hs : s.isSound = true) :
    ((level context n).assign document data target).Ensures (Valid context.files) :=
  (((Binding.validity hfactories).level n).assign document data target).mono
    fun _ h => h.valid s hv hs

end Testbed
