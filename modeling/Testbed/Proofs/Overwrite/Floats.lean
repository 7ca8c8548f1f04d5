import Testbed.Proofs.Data.Leaves
import Testbed.Proofs.Number.Overflow
import Testbed.Proofs.Overwrite.Leaf

/-!
# Floats from decimal numerals

A decimal numeral that overwrites a float is read as a double first, and the double is checked
against the width of the float. A single refuses the finite doubles that no single comes near, but
no width refuses an infinity, and every numeral from the bound of the doubles on is read as one. So
overflow is detected between the largest single and that bound, and beyond it the float becomes
infinite and is listed as null (`overwrite_decimal`).
-/

namespace Testbed

open Number Number.Binary

/-! ## §1 What a float takes -/

/-- The largest decimals that are read as doubles no larger than the greatest single: half a unit of
    a double above it. -/
def singleReach : ℚ :=
  (2 ^ 24 - 1) * 2 ^ (104 : Int) + 2 ^ (74 : Int)

/-- Whether a width refuses the decimals of a magnitude as too large. -/
def FloatWidth.Refuses : FloatWidth → ℚ → Prop
  | .f32, q => singleReach < q ∧ q < Width.double.overflow
  | .f64, _ => False

namespace Value

section

variable (negative : Bool) (digits : Nat) (exponent : Int)

/-- As a double the greatest single has an even mantissa, so the midpoint above it still reaches
    it. -/
theorem exceedsSingle_ofDecimal_iff :
    (ofDecimal negative digits exponent).exceedsSingle = true ↔
      FloatWidth.f32.Refuses (digits * 10 ^ exponent) := by
  have hgreatest : greatestSingle = ((2 ^ 24 - 1) * 2 ^ 29 : Nat) * 2 ^ (75 : Int) := by
    norm_num [greatestSingle]
  have hreach : (((2 ^ 24 - 1) * 2 ^ 29 : Nat) + 1 / 2 : ℚ) * 2 ^ (75 : Int) = singleReach := by
    norm_num [singleReach]
  rw [exceedsSingle_iff, ofDecimal_isFinite_iff, hgreatest,
    exceeds_ofDecimal_iff (by decide) (by decide), Beyond, hreach, FloatWidth.Refuses]
  constructor
  · rintro ⟨hfinite, hlarge | ⟨hodd, -⟩⟩
    · exact ⟨hlarge, hfinite⟩
    · exact absurd hodd (by decide)
  · rintro ⟨hlarge, hfinite⟩
    exact ⟨hfinite, .inl hlarge⟩

/-- A float of any width takes a decimal that the width does not refuse, and is finite with it
    exactly below the bound of the doubles. -/
theorem ofFloat?_ofDecimal (w : FloatWidth) :
    (w.Refuses (digits * 10 ^ exponent) →
        ofFloat? w (ofDecimal negative digits exponent) = none) ∧
      (¬ w.Refuses (digits * 10 ^ exponent) →
        ∃ y, ofFloat? w (ofDecimal negative digits exponent) = some (float w y) ∧
          (y.isFinite = true ↔ (digits : ℚ) * 10 ^ exponent < Width.double.overflow)) := by
  have hfinite := ofDecimal_isFinite_iff negative digits exponent
  cases w with
  | f64 => exact ⟨False.elim, fun _ => ⟨_, rfl, hfinite⟩⟩
  | f32 =>
    rw [← exceedsSingle_ofDecimal_iff negative digits exponent]
    constructor
    · intro hlarge
      simp [ofFloat?, hlarge]
    · intro hsmall
      have hle : (ofDecimal negative digits exponent).exceedsSingle = false := by
        simpa using hsmall
      refine ⟨(ofDecimal negative digits exponent).toSingle, by simp [ofFloat?, hle], ?_⟩
      rw [← hfinite]
      refine ⟨fun h => ?_, fun h => toSingle_isFinite h hle⟩
      -- an infinity stays one as a single
      cases hread : ofDecimal negative digits exponent with
      | finite negative m e => rfl
      | infinite negative => simp [hread, toSingle, isFinite] at h
      | nan => simp [hread, toSingle, isFinite] at h

end

/-- What a decimal numeral makes of a float. -/
theorem setScalar_decimal {raw : String} {q : ℚ} (hraw : IsDecimal raw.toList q) (w : FloatWidth)
    (x : Binary) :
    (w.Refuses q → (setScalar raw (float w x)).fault = some (.overflow raw w.name)) ∧
      (¬ w.Refuses q → ∃ y, store? raw (float w x) = some (float w y) ∧
        (y.isFinite = true ↔ q < Width.double.overflow)) := by
  obtain ⟨negative, digits, exponent, hread, rfl⟩ := hraw.readFloat
  obtain ⟨hrefused, htaken⟩ := ofFloat?_ofDecimal negative digits exponent w
  constructor
  · intro hq
    simp only [setScalar, hread, hrefused hq]
    rfl
  · intro hq
    obtain ⟨y, hy, hfinite⟩ := htaken hq
    exact ⟨y, by rw [store?_float, hread]; exact hy, hfinite⟩

end Value

/-! ## §2 What a float is listed as -/

/-- The text of a number has no letter but the one that marks its exponent. -/
theorem n_notMem_text (l : Layout) {x : Digits} (hds : ∀ c ∈ x.digits, c.isDigit) :
    'n' ∉ l.text x := by
  have hdigits : 'n' ∉ x.digits := fun hmem => absurd (hds _ hmem) (by decide)
  have htake (i : Nat) : 'n' ∉ x.digits.take i := fun hmem => hdigits (List.mem_of_mem_take hmem)
  have hdrop (i : Nat) : 'n' ∉ x.digits.drop i := fun hmem => hdigits (List.mem_of_mem_drop hmem)
  have hpower : 'n' ∉ Nat.toDigits 10 (x.point - 1).natAbs :=
    fun hmem => absurd (isDigit_of_mem_toDigits hmem) (by decide)
  unfold Layout.text positionalText exponentText
  simp only
  split_ifs
  · simp [hdigits]
  · simp [hdigits]
  · simp [hdigits]
  · simp [htake, hdrop]
  · split <;> simp only [List.mem_append, List.mem_cons, htake, hdrop, hpower, or_false, false_or]
    · simp
    · simp
  · split <;> simp only [List.mem_append, List.mem_cons, htake, hdrop, hpower, or_false, false_or]
    · simp
    · simp

/-- A float is listed as null exactly if it is not finite. -/
theorem Value.leafText_float (w : FloatWidth) (x : Binary) :
    Data.leafText (float w x).toData = "null" ↔ x.isFinite = false := by
  cases x with
  | finite negative m e =>
    simp only [isFinite, Bool.true_eq_false, iff_false]
    intro htext
    have hn : 'n' ∈ (Layout.scientific.ofFinite negative m e).toList := by
      have hlisted : Layout.scientific.ofFinite negative m e = "null" := htext
      simp [hlisted]
    rw [Layout.ofFinite, String.toList_ofList, List.mem_append] at hn
    rcases hn with hsign | hmem
    · cases negative <;> simp at hsign
    · exact n_notMem_text .scientific (fun c => isDigit_of_mem_shortest) hmem
  | infinite negative => exact iff_of_true rfl rfl
  | nan => exact iff_of_true rfl rfl

/-! ## §3 Overwriting a float -/

namespace Value

/-- A finite float overwritten with a decimal numeral. Below the bound of the doubles it is finite
    afterwards, and where its width refuses the numeral the overwrite fails with an overflow and
    changes nothing. From the bound on no width refuses it, and the float becomes infinite and is
    listed as null. -/
theorem overwrite_decimal {route raw : String} {segments : List Segment} {target : Value}
    {w : FloatWidth} {x : Binary} {q : ℚ} (hroute : Segment.readRoute route = .ok segments)
    (hleaf : leaf? (Segment.route segments) target = some (float w x)) (hx : x.isFinite = true)
    (hraw : IsDecimal raw.toList q) :
    ∃ y, leaf? (Segment.route segments) (overwrite route raw target).value = some (float w y) ∧
      (y.isFinite = true ↔ q < Width.double.overflow) ∧
      (Data.leafText (float w y).toData = "null" ↔ Width.double.overflow ≤ q) ∧
      (w.Refuses q → overwrite route raw target =
        .failed (.overwrite route raw (.cause (.overflow raw w.name))) target) ∧
      (¬ w.Refuses q →
        overwrite route raw target = .done (put (Segment.route segments) (float w y) target)) := by
  obtain ⟨hrefused, htaken⟩ := setScalar_decimal hraw w x
  have hlisted {y : Binary} (hy : y.isFinite = true ↔ q < Width.double.overflow) :
      Data.leafText (float w y).toData = "null" ↔ Width.double.overflow ≤ q := by
    rw [leafText_float, ← not_lt, ← hy, Bool.not_eq_true]
  by_cases hq : w.Refuses q
  · have hfailed := overwrite_eq_failed hroute hleaf (hrefused hq)
    have hbelow : x.isFinite = true ↔ q < Width.double.overflow := by
      cases w with
      | f32 => exact iff_of_true hx hq.2
      | f64 => exact hq.elim
    refine ⟨x, ?_, hbelow, hlisted hbelow, fun _ => hfailed, fun h => absurd hq h⟩
    rw [hfailed]
    exact hleaf
  · obtain ⟨y, hstore, hy⟩ := htaken hq
    have hdone := overwrite_eq_done hroute hleaf hstore
    refine ⟨y, ?_, hy, hlisted hy, fun h => absurd h hq, fun _ => hdone⟩
    rw [hdone]
    exact leaf?_put_self hleaf rfl

/-- The one field of a record is the leaf at its name. -/
theorem leaf?_single {f : Field} {name : String} (hname : f.documentName? = some name)
    (variant : Option Variant) {x : Value} (hx : x.isSettable = true) :
    leaf? (Segment.route [⟨name, none⟩]) (record variant [(f, x)]) = some x := by
  simp [Segment.route_cons, leaf?, child?, slotNamed?, hname, hx]

/-- A single does not take a decimal of forty digits, and keeps what it holds. -/
theorem overwrite_decimal_single :
    let target : Value := .record none [(⟨"Numbers", "ratio", "ratio"⟩, .float .f32 zero)]
    overwrite "ratio" "-1e39" target =
      .failed (.overwrite "ratio" "-1e39" (.cause (.overflow "-1e39" "f32"))) target := by
  intro target
  have hroute : Segment.readRoute "ratio" = .ok [⟨"ratio", none⟩] :=
    ok_of_toOption_eq_some (by decide +kernel)
  have hleaf : leaf? (Segment.route [⟨"ratio", none⟩]) target = some (.float .f32 zero) :=
    leaf?_single (by decide +kernel) none rfl
  have hraw : IsDecimal "-1e39".toList (1 * 10 ^ (39 : Int)) :=
    .mk .minus (@IsMantissaOf.whole ['1'] (by simp) (by simp))
      (.some (.inl rfl) (@IsInteger.plain ['3', '9'] (by simp) (by simp)))
  have hbelow : (1 * 10 ^ (39 : Int) : ℚ) < Width.double.overflow := by
    calc (1 * 10 ^ (39 : Int) : ℚ) < 1 * 2 ^ (130 : Int) := by norm_num
      _ ≤ (2 ^ 53 - 1 / 2) * 2 ^ (971 : Int) :=
          mul_le_mul (by norm_num) (zpow_le_zpow_right₀ one_le_two (by decide)) (by positivity)
            (by norm_num)
  have hrefused : FloatWidth.f32.Refuses (1 * 10 ^ (39 : Int)) :=
    ⟨by norm_num [singleReach], hbelow⟩
  obtain ⟨y, -, -, -, hfailed, -⟩ := overwrite_decimal hroute hleaf rfl hraw
  exact hfailed hrefused

/-- A double takes a numeral above its bound; it is infinite afterwards, and listed as null. -/
theorem overwrite_takes_infinite :
    let target (x : Binary) : Value := .record none [(⟨"N", "x", "x"⟩, .float .f64 x)]
    IsDecimal "1e400".toList (1 * 10 ^ (400 : Int)) ∧
      overwrite "x" "1e400" (target zero) = .done (target (.infinite false)) ∧
      Data.leafText (float .f64 (.infinite false)).toData = "null" := by
  intro target
  have hroute : Segment.readRoute "x" = .ok [⟨"x", none⟩] :=
    ok_of_toOption_eq_some (by decide +kernel)
  have hname : (⟨"N", "x", "x"⟩ : Field).documentName? = some "x" := by decide +kernel
  have hread : readFloat "1e400".toList = .ok (.infinite false) :=
    ok_of_toOption_eq_some (by decide +kernel)
  have hstore : store? "1e400" (.float .f64 zero) = some (.float .f64 (.infinite false)) := by
    rw [store?_float, hread]
    rfl
  have hdone := overwrite_eq_done hroute (leaf?_single hname none rfl) hstore
  refine ⟨?_, ?_, rfl⟩
  · exact .mk .none (@IsMantissaOf.whole ['1'] (by simp) (by simp))
      (.some (.inl rfl) (@IsInteger.plain ['4', '0', '0'] (by simp) (by simp)))
  · rw [hdone]
    simp [Segment.route_cons, put, setChild, putSlot, hname, target]

end Value

end Testbed
