import Mathlib.Data.List.Pairwise
import Testbed.Proofs.Overwrite.Setting

/-!
# The order of overwrites

Overwrites whose routes have different segments set different leaves, and none of them makes or
hides the leaf of another: what an overwrite adds to a map is a scalar, and no route leads through
a scalar. So two such overwrites commute, failures included, and a list of them gives one result in
every order. Applied once more they change nothing, since each finds its own text already stored.
-/

namespace Testbed.Value

/-! ## §1 Two leaves -/

/-- Once a text is stored at a route, another one is stored at a different route exactly where it
    could be stored before. -/
theorem setLeaf?_of_setLeaf?_eq_some {q r : Route} (hne : q ≠ r) {raw raw' : String}
    {v v' : Value} (h : setLeaf? raw' r v = some v') :
    setLeaf? raw q v' = (setLeaf? raw q v).bind (setLeaf? raw' r) := by
  obtain ⟨x, w, hr, hw, rfl⟩ := setLeaf?_eq_some_iff.mp h
  have hset := (store?_of_store?_eq_some hw).1
  rw [setLeaf?, leaf?_put_of_ne hr hset hne, setLeaf?]
  cases hq : leaf? q v with
  | none => rfl
  | some y =>
    simp only [Option.bind_some]
    cases hu : store? raw y with
    | none => rfl
    | some u =>
      -- neither leaf is disturbed by what is put at the other
      have hleaf : leaf? r (put q u v) = some x := by
        rw [leaf?_put_of_ne hq (store?_of_store?_eq_some hu).1 (Ne.symm hne), hr]
      simp [setLeaf?, hleaf, hw, put_comm hq hr hne]

/-- Texts stored at different routes commute: either order fails where the other does, and both
    make the same value. -/
theorem setLeaf?_comm {q r : Route} (hne : q ≠ r) (raw raw' : String) (v : Value) :
    (setLeaf? raw q v).bind (setLeaf? raw' r) = (setLeaf? raw' r v).bind (setLeaf? raw q) := by
  cases hr : setLeaf? raw' r v with
  | some v' => exact (setLeaf?_of_setLeaf?_eq_some hne hr).symm
  | none =>
    cases hq : setLeaf? raw q v with
    | none => rfl
    | some v' =>
      -- the other one fails after it as it fails before it
      simp [setLeaf?_of_setLeaf?_eq_some (Ne.symm hne) hq, hr]

/-- A text that is stored already is stored again without a change. -/
theorem setLeaf?_idem {raw : String} {r : Route} {v v' : Value} (h : setLeaf? raw r v = some v') :
    setLeaf? raw r v' = some v' := by
  obtain ⟨x, w, hr, hw, rfl⟩ := setLeaf?_eq_some_iff.mp h
  obtain ⟨hset, hagain⟩ := store?_of_store?_eq_some hw
  exact setLeaf?_eq_some_iff.mpr ⟨w, w, leaf?_put_self hr hset, hagain, put_put_self hr w w⟩

/-! ## §2 Two overwrites -/

/-- Overwrites whose routes have different segments, as far as these can be read. -/
def Apart (p q : String × String) : Prop :=
  ∀ segments, Segment.readRoute p.1 = .ok segments → Segment.readRoute q.1 ≠ .ok segments

/-- What an overwrite makes, if it succeeds. -/
def overwritten? (p : String × String) (v : Value) : Option Value :=
  (overwrite p.1 p.2 v).toOption

/-- Two overwrites that are apart come to the same in any order. -/
theorem overwritten?_comm {p q : String × String} (h : Apart p q) (v : Value) :
    (overwritten? p v).bind (overwritten? q) = (overwritten? q v).bind (overwritten? p) := by
  unfold overwritten?
  simp only [overwrite_toOption]
  cases hp : Segment.readRoute p.1 with
  | error cause => simp [Except.toOption]
  | ok segments =>
    cases hq : Segment.readRoute q.1 with
    | error cause => simp [Except.toOption]
    | ok others =>
      -- different segments stand for different routes
      have hne : Segment.route segments ≠ Segment.route others := by
        intro hroute
        obtain rfl := Segment.route_injective hroute
        exact h segments hp hq
      exact setLeaf?_comm hne p.2 q.2 v

/-- An overwrite that has been applied changes nothing again. -/
theorem overwritten?_idem {p : String × String} {v v' : Value} (h : overwritten? p v = some v') :
    overwritten? p v' = some v' := by
  unfold overwritten? at h ⊢
  rw [overwrite_toOption] at h ⊢
  obtain ⟨segments, hread, hset⟩ := Option.bind_eq_some_iff.mp h
  rw [hread, Option.bind_some, setLeaf?_idem hset]

/-! ## §3 Lists of overwrites -/

/-- What overwrites make of what others have made before, if all succeed. -/
def overwrittenAll? (pairs : List (String × String)) (made : Option Value) : Option Value :=
  pairs.foldl (fun made p => made.bind (overwritten? p)) made

theorem overwrittenAll?_none (pairs : List (String × String)) :
    overwrittenAll? pairs none = none := by
  induction pairs with
  | nil => rfl
  | cons p rest ih => exact ih

/-- What every single overwrite keeps is kept by all of them. -/
theorem overwrittenAll?_induction {P : Value → Prop} {pairs : List (String × String)}
    (hstep : ∀ p ∈ pairs, ∀ v v', P v → overwritten? p v = some v' → P v') {v v' : Value} (hv : P v)
    (h : overwrittenAll? pairs (some v) = some v') : P v' := by
  induction pairs generalizing v with
  | nil =>
    obtain rfl := Option.some.inj h
    exact hv
  | cons p rest ih =>
    have hrest : overwrittenAll? rest (overwritten? p v) = some v' := h
    cases hp : overwritten? p v with
    | none =>
      rw [hp, overwrittenAll?_none] at hrest
      cases hrest
    | some u =>
      have hu := hstep p List.mem_cons_self v u hv hp
      exact ih (fun q hq => hstep q (List.mem_cons_of_mem _ hq)) hu (hp ▸ hrest)

/-- Overwriting one after the other succeeds where each overwrite does. -/
theorem overwriteAll_toOption (pairs : List (String × String)) (v : Value) :
    (overwriteAll pairs v).toOption = overwrittenAll? pairs (some v) := by
  induction pairs generalizing v with
  | nil => rfl
  | cons p rest ih =>
    obtain ⟨route, raw⟩ := p
    show _ = overwrittenAll? rest (overwritten? (route, raw) v)
    rw [overwriteAll]
    cases hfault : (overwrite route raw v).fault with
    | none =>
      have hmade : overwritten? (route, raw) v = some (overwrite route raw v).value := by
        simp [overwritten?, After.toOption, hfault]
      rw [hmade]
      exact ih _
    | some fault =>
      -- nothing is tried after a failure
      have hmade : overwritten? (route, raw) v = none := by
        simp [overwritten?, After.toOption, hfault]
      rw [hmade, overwrittenAll?_none]
      simp [After.toOption, hfault]

/-- Overwrites that are apart come to the same in any order. -/
theorem overwrittenAll?_perm {pairs pairs' : List (String × String)} (hperm : pairs'.Perm pairs)
    (hapart : pairs.Pairwise Apart) (made : Option Value) :
    overwrittenAll? pairs' made = overwrittenAll? pairs made := by
  -- commuting is symmetric, so the order of the list plays no part in it, and what is in the list
  -- twice commutes with itself
  have hcomm : ∀ p ∈ pairs, ∀ q ∈ pairs, ∀ v,
      (overwritten? p v).bind (overwritten? q) = (overwritten? q v).bind (overwritten? p) := by
    have hsymm : Std.Symm fun p q : String × String => ∀ v,
        (overwritten? p v).bind (overwritten? q) = (overwritten? q v).bind (overwritten? p) :=
      ⟨fun p q h v => (h v).symm⟩
    intro p hp q hq
    exact (hapart.imp fun h => overwritten?_comm h).forall_of_forall (fun _ _ _ => rfl) hp hq
  symm
  apply hperm.symm.foldl_eq'
  intro p hp q hq z
  cases z with
  | none => rfl
  | some v => exact hcomm p hp q hq v

/-- After all overwrites of a list, each of them finds its text stored already. -/
theorem overwritten?_of_overwrittenAll? {pairs : List (String × String)}
    (hapart : pairs.Pairwise Apart) {v v' : Value}
    (h : overwrittenAll? pairs (some v) = some v') {p : String × String} (hp : p ∈ pairs) :
    overwritten? p v' = some v' := by
  -- the overwrite could as well have come last
  have hlast : (pairs.erase p ++ [p]).Perm pairs :=
    List.perm_append_comm.trans (List.perm_cons_erase hp).symm
  rw [← overwrittenAll?_perm hlast hapart, overwrittenAll?, List.foldl_append] at h
  obtain ⟨u, -, hu⟩ := Option.bind_eq_some_iff.mp h
  exact overwritten?_idem hu

/-- Overwrites that change nothing one by one change nothing together. -/
theorem overwrittenAll?_of_forall {pairs : List (String × String)} {v : Value}
    (h : ∀ p ∈ pairs, overwritten? p v = some v) : overwrittenAll? pairs (some v) = some v := by
  induction pairs with
  | nil => rfl
  | cons p rest ih =>
    show overwrittenAll? rest (overwritten? p v) = some v
    rw [h p (List.mem_cons_self ..)]
    apply ih
    intro q hq
    exact h q (List.mem_cons_of_mem _ hq)

/-- Overwrites whose routes have pairwise different segments make one result in every order: all
    orders fail, or all make the same value. That value is the end: the same overwrites, in any
    order, succeed on it and leave it as it is. -/
theorem overwriteAll_perm {pairs pairs' : List (String × String)} (hapart : pairs.Pairwise Apart)
    (hperm : pairs'.Perm pairs) (target : Value) :
    (overwriteAll pairs' target).toOption = (overwriteAll pairs target).toOption ∧
      ∀ result, overwriteAll pairs target = .done result →
        ∀ again : List (String × String), again.Perm pairs →
          overwriteAll again result = .done result := by
  constructor
  · rw [overwriteAll_toOption, overwriteAll_toOption, overwrittenAll?_perm hperm hapart]
  · intro result hresult again hagain
    rw [← After.toOption_eq_some_iff, overwriteAll_toOption] at hresult ⊢
    apply overwrittenAll?_of_forall
    intro p hp
    exact overwritten?_of_overwrittenAll? hapart hresult (hagain.mem_iff.mp hp)

/-- A port and two new entries of one map, overwritten in two orders. -/
theorem overwriteAll_perm_server :
    let pairs := [("port", "81"), ("parameters.limit", "1G"), ("parameters.mode", "fast")]
    let reversed := [("parameters.mode", "fast"), ("parameters.limit", "1G"), ("port", "81")]
    let server := record none (Fields.zero Rig.server)
    pairs.Pairwise Apart ∧ reversed.Perm pairs ∧ (overwriteAll pairs server).fault = none ∧
      (overwriteAll reversed server).toOption = (overwriteAll pairs server).toOption ∧
      overwriteAll reversed (overwriteAll pairs server).value =
        .done (overwriteAll pairs server).value := by
  intro pairs reversed server
  have hport : Segment.readRoute "port" = .ok [⟨"port", none⟩] := rfl
  have hlimit : Segment.readRoute "parameters.limit" =
      .ok [⟨"parameters", none⟩, ⟨"limit", none⟩] := rfl
  have hmode : Segment.readRoute "parameters.mode" =
      .ok [⟨"parameters", none⟩, ⟨"mode", none⟩] := rfl
  have hapart : pairs.Pairwise Apart := by
    simp [pairs, Apart, hport, hlimit, hmode]
  have hperm : reversed.Perm pairs := by decide
  have hfault : (overwriteAll pairs server).fault = none := by decide +kernel
  have hdone : overwriteAll pairs server = .done (overwriteAll pairs server).value := by
    rw [← After.toOption_eq_some_iff]
    simp [After.toOption, hfault]
  obtain ⟨hsame, hagain⟩ := overwriteAll_perm hapart hperm server
  exact ⟨hapart, hperm, hfault, hsame, hagain _ hdone reversed hperm⟩

end Testbed.Value
