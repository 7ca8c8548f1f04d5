import Testbed.Binding.Entry
import Testbed.Proofs.Keyed.Order

/-!
# What reading an entry looks at

A plan takes its payload over as it is. Besides that, reading a key looks into a payload at two
places only: the keys of an expectation settle its kind, and a negation must have a key `action`.
So another payload gives the same plan, but for the payload itself, where it shows the same there
(`readKeyed_map`); and the items of a list are not looked at (`readKeyed_list`).
-/

namespace Testbed.Entry

variable {raw : String} {es es' : List (String × Data)} {plan : Plan}

/-- What the verb of a key makes of it. -/
def verbOf? (raw : String) : Option Verb :=
  (Key.read raw).toOption.bind fun key => verb? key.verb

/-- An expectation is made out from the keys of its payload. -/
theorem expectationKind_eq_of_keys_eq (found : Option (String × ActionKind))
    (h : Keyed.keys es' = Keyed.keys es) :
    expectationKind found es' = expectationKind found es := by
  induction es generalizing es' found with
  | nil =>
    obtain rfl : es' = [] := by simpa [Keyed.keys] using h
    rfl
  | cons e rest ih =>
    cases es' with
    | nil => simp at h
    | cons e' rest' =>
      obtain ⟨key, x⟩ := e
      obtain ⟨key', x'⟩ := e'
      simp only [Keyed.keys_cons, List.cons.injEq] at h
      obtain ⟨rfl, hrest⟩ := h
      simp only [expectationKind, ih _ hrest]

/-- Payloads that look the same to the verb of a key give the same plan, each with the payload. -/
theorem readKeyed_map
    (hexpect : verbOf? raw = some .expect → expectationKind none es' = expectationKind none es)
    (hnot : verbOf? raw = some .not → Keyed.has "action" es' = Keyed.has "action" es) :
    readKeyed raw (.map es') =
      (fun plan => { plan with payload := es' }) <$> readKeyed raw (.map es) := by
  unfold readKeyed
  cases hread : Key.read raw with
  | error cause => rfl
  | ok key =>
    have hverb : verbOf? raw = verb? key.verb := by
      rw [verbOf?, hread]
      rfl
    rw [hverb] at hexpect hnot
    simp only [bind, Except.bind]
    -- only expect and not look into the payload, and what they ask of it is the same for both
    generalize verb? key.verb = verb at hexpect hnot ⊢
    cases verb with
    | none => rfl
    | some verb =>
      cases verb with
      | expect =>
        simp only [hexpect rfl]
        cases expectationKind none es <;> rfl
      | not =>
        simp only [hnot rfl]
        cases key.forbidService with
        | error cause => rfl
        | ok _ => cases Keyed.has "action" es <;> rfl
      | group kind =>
        cases key.forbidName <;> cases kind <;> rfl
      | lifeCycle kind =>
        cases key.requireService <;> cases key.forbidName <;> rfl
      | workload kind => cases key.requireService <;> rfl

/-- A plan takes its payload over. -/
theorem payload_of_readKeyed_map (h : readKeyed raw (.map es) = .ok plan) : plan.payload = es := by
  have hself : readKeyed raw (.map es) =
      (fun plan => { plan with payload := es }) <$> readKeyed raw (.map es) :=
    readKeyed_map (fun _ => rfl) fun _ => rfl
  rw [h] at hself
  exact congrArg Plan.payload (Except.ok.inj hself)

/-- Lists give the same plan, each with the map that has it for its actions. -/
theorem readKeyed_list (xs xs' : List Data) :
    readKeyed raw (.list xs') =
      (fun plan => { plan with payload := [("actions", .list xs')] }) <$>
        readKeyed raw (.list xs) := by
  unfold readKeyed
  cases Key.read raw with
  | error cause => rfl
  | ok key =>
    simp only [bind, Except.bind]
    cases verb? key.verb with
    | none => rfl
    | some verb =>
      cases verb with
      | expect => rfl
      | not => cases key.forbidService <;> rfl
      | group kind => cases key.forbidName <;> cases kind <;> rfl
      | lifeCycle kind => cases key.requireService <;> cases key.forbidName <;> rfl
      | workload kind => cases key.requireService <;> rfl

end Testbed.Entry
