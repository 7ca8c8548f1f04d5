import Testbed.Proofs.Binding.Checked
import Testbed.Proofs.Binding.Landing
import Testbed.Proofs.Data.Formats

/-!
# Routes to the paths of a rig

Something may be put over what binding has put somewhere: a key may come again in a map, the
documents that a map is loaded from may share a name, and the key of an action sets some of its
texts. In a rig this does not happen to a path. There are no keys that come again in data that
stands in order, patterns load lists only (`Rig.variant_listed`), and the texts that a key sets are
no paths (`Plan.isOpen_action`). So there is a route to every path (`Place.Lands.exists_route`).
-/

namespace Testbed

open Binding

/-! ## §1 Patterns -/

/-- Whether a pattern under a field loads a list. -/
def listedField (field : Field) : Shape → Bool
  | .map _ =>
    match directives field with
    | .ok d => !d.isLoadable
    | .error _ => true
  | _ => true

mutual
/-- Whether patterns load lists in a shape, up to the fields of families. -/
def Shape.isListed : Shape → Bool
  | .list e => e.isListed
  | .map e => e.isListed
  | .record fields => listedFields fields
  | _ => true
/-- Whether patterns load lists in the fields of a record. -/
def listedFields : Fields → Bool
  | [] => true
  | (field, s) :: rest => listedField field s && s.isListed && listedFields rest
end

theorem listedFields_eq_all (fs : Fields) :
    listedFields fs = fs.all fun e => listedField e.1 e.2 && e.2.isListed := by
  induction fs with
  | nil => rfl
  | cons e rest ih => rw [listedFields, ih, List.all_cons]

theorem listed_of_mem {fs : Fields} (h : listedFields fs = true) {f : Field} {s : Shape}
    (hf : (f, s) ∈ fs) : listedField f s = true ∧ s.isListed = true := by
  rw [listedFields_eq_all, List.all_eq_true] at h
  simpa only [Bool.and_eq_true] using h _ hf

namespace Rig

/-- Patterns load lists, and no maps, throughout a configuration. -/
theorem config_listed : listedFields config = true := by
  decide +kernel

/-- Patterns load lists, and no maps, in all members of families. -/
theorem variant_listed (variant : Variant) : listedFields variant.fields = true := by
  rw [listedFields_eq_all]
  refine all_variant (fun p => ?_) (fun p => ?_) (fun k => ?_) variant
  · cases p <;> decide +kernel
  · cases p <;> decide +kernel
  · have hconduct := @all_conduct (fun e => listedField e.1 e.2 && e.2.isListed)
      (fun _ _ _ _ => rfl) (by decide +kernel)
    cases k <;> simp only [action, lifeCycle, expectation, hconduct] <;> decide +kernel

end Rig

/-! ## §2 Data in order -/

namespace Data.Ordered

variable {es : List (String × Data)}

theorem expanded (h : Ordered (.map es)) (sub : String) :
    Ordered (.map (Binding.expanded sub es)) := by
  refine .map ?_ fun key y hy => ?_
  · rw [Keyed.ordered_iff_keys, keys_expanded, ← Keyed.ordered_iff_keys]
    exact h.isOrdered es rfl
  · rcases mem_expanded hy with hy | ⟨raw, -, rfl⟩
    · exact h.entry hy
    · exact (Ordered.text raw).singleton sub

/-- What is put around bare texts keeps the order. -/
theorem spelled {x : Data} (h : Ordered x) (d : Directives) (s : Shape) :
    (d.spelled s x).Ordered := by
  unfold Directives.spelled
  split
  · exact h.singleton _
  · exact h.singleton _
  · split
    · exact h.expanded _
    · exact h
  · exact h

/-- The payload of an action is in order where its entry is. -/
theorem payload {x : Data} {plan : Plan} (h : Ordered x) (hplan : Entry.read x = .ok plan) :
    Ordered (.map plan.payload) := by
  rcases Entry.payload_of_read hplan with hnil | ⟨key, rfl⟩ | ⟨key, xs, rfl, hpayload, -⟩
  · rw [hnil]
    exact ordered_nil
  · exact h.entry List.mem_cons_self
  · rw [hpayload]
    exact (h.entry List.mem_cons_self).singleton _

end Data.Ordered

/-! ## §3 Routes -/

/-- The fields that a key sets hold texts, which are no paths. -/
theorem Plan.text_of_sets {plan : Plan} {f : Field} {s : Shape} {d : Directives}
    (h : plan.sets f.ident = true) (hf : (f, s) ∈ Rig.action plan.kind)
    (hd : directives f = .ok d) : s = .text ∧ d.isPath = false := by
  have hident : f.ident ∈ ["service", "id", "name"] := by
    simp only [sets, Bool.or_eq_true, Bool.and_eq_true, decide_eq_true_eq] at h
    rcases h with ⟨hname, -⟩ | ⟨⟨hservice, -⟩, -⟩
    · exact nameField?_mem plan.kind _ hname
    · simp [hservice]
  constructor
  · have htext := List.all_eq_true.mp (isSetByText_action plan.kind) _ hf
    unfold isSetByText at htext
    split at htext
    · assumption
    · simp [hident] at htext
  · have hopen := List.all_eq_true.mp (isOpen_action plan.kind) _ hf
    simp only [isOpen, hident, hd, not_true_eq_false, decide_false, Bool.false_or,
      Bool.and_eq_true, Bool.not_eq_true'] at hopen
    exact hopen.2

theorem Step.isSome_route? {covered : Prop} [Decidable covered] (h : ¬ covered) (t : Step) :
    (t.route? covered).isSome = true := by
  rw [route?, if_neg h]
  rfl

namespace Place

/-- Whether the data of a place is in order, and patterns load lists as far as its shape goes. -/
def IsOrderly : Place → Prop
  | ⟨_, .value s, x⟩ => s.isListed = true ∧ x.Ordered
  | ⟨_, .field d s, x⟩ =>
    (d.isLoadable = true → ∀ e, s ≠ .map e) ∧ s.isListed = true ∧ x.Ordered
  | ⟨_, _, x⟩ => x.Ordered

/-- Whether a place is that of a text that is no path. -/
def IsWord : Place → Prop
  | ⟨_, .value s, _⟩ => s = .text
  | ⟨_, .field d s, _⟩ => s = .text ∧ Directed d s ∧ d.isPath = false
  | _ => False

variable {files : FileSystem} {p q : Place} {r : Option Route}

/-- A field of an orderly record is an orderly place. -/
theorem isOrderly_slot {document : Document} {fs : Fields} {f : Field} {s : Shape} {d : Directives}
    {es : List (String × Data)} {x : Data} (hfs : listedFields fs = true)
    (hes : Data.Ordered (.map es)) (hf : (f, s) ∈ fs) (hd : directives f = .ok d)
    (hx : present? (documentName f d) es = some x) : IsOrderly ⟨document, .field d s, x⟩ := by
  obtain ⟨hfield, hs⟩ := listed_of_mem hfs hf
  refine ⟨?_, hs, hes.entry (Keyed.mem_of_get?_eq_some (Option.eq_some_of_filter_eq_some hx))⟩
  rintro hload e rfl
  simp [listedField, hd, hload] at hfield

/-- Steps keep to orderly places. -/
theorem Puts.isOrderly (h : Puts files p r q) (hp : p.IsOrderly) : q.IsOrderly := by
  cases h with
  | slot hf hd hx => exact isOrderly_slot hp.1 hp.2 hf hd hx
  | entry => exact ⟨hp.1, hp.2.entry List.mem_append_cons_self⟩
  | item hx => exact ⟨hp.1, hp.2.item (List.mem_of_getElem? hx)⟩
  | plain _ _ _ => exact ⟨hp.2.1, hp.2.2.spelled _ _⟩
  | loadItem _ _ hdocuments hd' =>
    exact ⟨hp.2.1, Document.loadMatching_ordered hdocuments (List.mem_of_getElem? hd')⟩
  | loadEntry _ _ hdocuments =>
    exact ⟨hp.2.1, Document.loadMatching_ordered hdocuments List.mem_append_cons_self⟩
  | fill _ _ => exact hp.2.2
  | member _ _ => exact ⟨Rig.variant_listed _, Data.Ordered.entry hp List.mem_append_cons_self⟩
  | actions hx => exact Data.Ordered.item hp (List.mem_of_getElem? hx)
  | action => exact hp
  | payload hplan hf hd hy =>
    exact isOrderly_slot (Rig.variant_listed _) (Data.Ordered.payload hp hplan) hf hd hy

/-- Something may be put over texts that are no paths, and over nothing else. -/
theorem Puts.exists_route (h : Puts files p r q) (hp : p.IsOrderly) :
    r.isSome = true ∨ q.IsWord := by
  cases h with
  | entry => exact .inl (Step.isSome_route? hp.2.notMem_keys _)
  | loadEntry _ hload _ => exact absurd rfl (hp.1 hload _)
  | member _ _ => exact .inl (Step.isSome_route? (Data.Ordered.notMem_keys hp) _)
  | @payload _ _ _ plan f s d _ hf hd _ =>
    by_cases hsets : plan.sets f.ident = true
    · obtain ⟨rfl, hpath⟩ := Plan.text_of_sets hsets hf hd
      exact .inr ⟨rfl, directed_of_mem (Rig.variant_sound _) hf hd, hpath⟩
    · exact .inl (Step.isSome_route? hsets _)
  | _ => exact .inl rfl

/-- Nothing but texts that are no paths comes after one. -/
theorem Puts.isWord (h : Puts files p r q) (hp : p.IsWord) : q.IsWord := by
  cases h with
  | plain _ _ _ => exact hp.1
  | fill hname hf =>
    obtain ⟨rfl, hd, -⟩ := hp
    generalize hs : Shape.text = s at hd
    cases hd with
    | @factory _ f _ _ _ => cases f <;> cases hs
    | shape hfactory _ _ => cases hfactory.symm.trans hname
  | slot _ _ _ | entry | item _ => cases hp
  | loadItem _ _ _ _ | loadEntry _ _ _ => cases hp.1
  | member _ _ | actions _ | action | payload _ _ _ _ => cases hp

/-- Where the document is in order, there is a route to what is put somewhere, unless it is a text
    that is no path. -/
theorem Lands.exists_route (h : Lands files p r q) (hp : p.IsOrderly) :
    q.IsOrderly ∧ (r.isSome = true ∨ q.IsWord) := by
  induction h with
  | here => exact ⟨hp, .inl rfl⟩
  | step _ hstep ih =>
    obtain ⟨hq, hroute⟩ := ih
    refine ⟨hstep.isOrderly hq, ?_⟩
    rcases hroute with hr | hword
    · rcases hstep.exists_route hq with hr' | hword
      · obtain ⟨_, rfl⟩ := Option.isSome_iff_exists.mp hr
        obtain ⟨_, rfl⟩ := Option.isSome_iff_exists.mp hr'
        exact .inl rfl
      · exact .inr hword
    · exact .inr (hstep.isWord hword)

end Place

end Testbed
