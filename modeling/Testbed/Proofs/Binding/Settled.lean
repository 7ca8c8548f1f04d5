import Testbed.Proofs.Binding.Inside
import Testbed.Proofs.Results
import Testbed.Proofs.Rig.Schema

/-!
# Results, given levels enough

A computation settles if it comes to a result or is too deep. What settles at one number of levels
settles at every other, so with levels enough there is a result. The check of a record's keys
settles at once: it is passed where they name fields.
-/

namespace Testbed

/-! ## §1 Results, given levels enough -/

namespace Walk

variable {α β : Type}

/-- Whether a computation comes to a result, or is too deep. -/
def Settles (x : Except Cause α) : Prop :=
  x = tooDeep ∨ ∃ v, x = .ok v

theorem settles_ok (v : α) : Settles (.ok v) :=
  .inr ⟨v, rfl⟩

theorem settles_tooDeep : Settles (tooDeep : Except Cause α) :=
  .inl rfl

/-- A computation settles where its parts do. -/
theorem Settles.bind {x : Except Cause α} {f : α → Except Cause β} (hx : Settles x)
    (hf : ∀ v, Settles (f v)) : Settles (x >>= f) := by
  rcases hx with rfl | ⟨v, rfl⟩
  · exact settles_tooDeep
  · exact hf v

theorem Settles.map {x : Except Cause α} (hx : Settles x) (f : α → β) : Settles (f <$> x) := by
  rcases hx with rfl | ⟨v, rfl⟩
  · exact settles_tooDeep
  · exact settles_ok (f v)

theorem settles_mapM {f : α → Except Cause β} {xs : List α} (h : ∀ x ∈ xs, Settles (f x)) :
    Settles (xs.mapM f) := by
  induction xs with
  | nil => exact settles_ok []
  | cons x rest ih =>
    obtain ⟨hx, hrest⟩ := List.forall_mem_cons.mp h
    rw [List.mapM_cons]
    exact hx.bind fun y => (ih hrest).bind fun ys => settles_ok (y :: ys)

/-- What approximates something with a result has it too, or is too deep. -/
theorem settles_of_levels {f : Nat → Except Cause α}
    (happrox : ∀ {m n}, m ≤ n → f m = tooDeep ∨ f m = f n) (h : ∃ n v, f n = .ok v) (m : Nat) :
    Settles (f m) := by
  obtain ⟨n, v, hv⟩ := h
  rcases Nat.le_total m n with hle | hle
  · exact (happrox hle).imp_right fun heq => ⟨v, heq.trans hv⟩
  · rcases happrox hle with hdeep | heq
    · rw [hdeep] at hv
      cases hv
    · exact .inr ⟨v, heq.symm.trans hv⟩

end Walk

namespace Binding

open Walk

variable {document : Path} {es : List (String × Data)} {slots : Slots}

/-! ## §2 The keys of records -/

/-- Fields are known by their identifiers. -/
theorem documentNames_of_slotsHave {fields : Fields} (h : Value.SlotsHave slots fields)
    (ht : tidyFields fields = true) : documentNames slots = .ok (slots.map (·.1.ident)) := by
  induction slots generalizing fields with
  | nil => rfl
  | cons e rest ih =>
    cases h with
    | @cons field v s _ fields hv hslots =>
      obtain ⟨hname, -, -, -, hrest⟩ := tidyFields_cons.mp ht
      rw [documentNames, ih hslots hrest]
      cases hread : Directives.read field.tag with
      | error key => simp [Field.documentName?, hread] at hname
      | ok d =>
        have hd : directives field = .ok d := by rw [directives, hread]
        rw [hd]
        simp [documentName_eq hname hd]

/-- Keys are taken where they name fields. -/
theorem checkKeys_ok_iff {names : List String} (h : documentNames slots = .ok names) :
    (checkKeys document es slots).outcome = .ok () ↔ ∀ key ∈ Keyed.keys es, key ∈ names := by
  rw [checkKeys, checkNames, outcome_bind ?under, outcome_located, outcome_lift, h, ok_bind]
  case under =>
    intro names
    split
    · exact .pure _
    · exact .bind (.modify _ _) fun _ => .located _ _ (.fail _)
  split
  · next hfind =>
    have hall := List.find?_eq_none.mp hfind
    simp only [outcome_pure, true_iff]
    intro key hkey
    obtain ⟨e, he, rfl⟩ := List.mem_map.mp hkey
    simpa using hall e he
  · next key x hfind =>
    have hmem := List.mem_of_find?_eq_some hfind
    have hunknown := List.find?_some hfind
    rw [outcome_modify_bind _ fun _ => .located _ _ (.fail _), outcome_located, outcome_fail]
    simp only [reduceCtorEq, false_iff]
    intro hall
    have hknown := hall key (List.mem_map.mpr ⟨_, hmem, rfl⟩)
    simp [hknown] at hunknown

end Binding

end Testbed
