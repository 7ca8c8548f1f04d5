import Testbed.Proofs.Overwrite.Reading
import Testbed.Proofs.Overwrite.Settable
import Testbed.Proofs.Rig.Located

/-!
# Ways to write an integer

An integer comes into a field from a document, from the default of the field, or from the text of
an overwrite. Each way reads through bounds of its own before the width of the field is checked:
data holds the integers of a signed and of an unsigned word, a default is read between the bounds
of a double word, and an overwrite between those of a signed word. So the three ways agree, except
that an overwrite refuses what an unsigned word alone holds (`integer_ways`).
-/

namespace Testbed

open Number Binding Walk

/-! ## §1 Numerals above the bounds -/

namespace Number

/-- Digits that write more than the bound are too large, since what they write only grows. -/
theorem readUp_eq_tooLarge {high : Int} {value : Nat} (hvalue : (value : Int) ≤ high)
    {cs : List Char} (hcs : ∀ c ∈ cs, c.isDigit) (hlarge : high < Nat.ofDigitChars 10 cs value) :
    readUp high value cs = .error .tooLarge := by
  induction cs generalizing value with
  | nil =>
    rw [Nat.ofDigitChars_nil] at hlarge
    omega
  | cons c cs ih =>
    obtain ⟨hc, hrest⟩ := List.forall_mem_cons.mp hcs
    have hnext : (value : Int) * 10 + (c.toNat - '0'.toNat : Nat) =
        (10 * value + (c.toNat - '0'.toNat) : Nat) := by
      push_cast
      ring
    simp only [readUp, digitValue?_eq_some hc, hnext]
    split
    · rfl
    · rw [Nat.ofDigitChars_cons] at hlarge
      exact ih (by omega) hrest hlarge

/-- The text of an integer above the bounds is too large to be read. -/
theorem readInt_toString_eq_tooLarge {low high n : Int} (hhigh : 0 ≤ high) (hn : high < n) :
    readInt low high (toString n).toList = .error .tooLarge := by
  obtain ⟨m, rfl⟩ := Int.eq_ofNat_of_zero_le (by omega : 0 ≤ n)
  have htext : (toString (m : Int)).toList = Nat.toDigits 10 m := Nat.toList_repr
  have hdigits : ∀ c ∈ Nat.toDigits 10 m, c.isDigit := fun c => isDigit_of_mem_toDigits
  have hread : readUp high (0 : Nat) (Nat.toDigits 10 m) = .error .tooLarge :=
    readUp_eq_tooLarge (by simpa using hhigh) hdigits (by rwa [Nat.ofDigitChars_ten_toDigits])
  rw [htext]
  obtain ⟨c, ds, hcons⟩ := List.exists_cons_of_ne_nil (Nat.toDigits_ne_nil (b := 10) (n := m))
  -- a digit is no sign
  have hc : c.isDigit := hdigits c (by simp [hcons])
  have hplus : c ≠ '+' := by
    rintro rfl
    exact absurd hc (by simp)
  have hminus : c ≠ '-' := by
    rintro rfl
    exact absurd hc (by simp)
  rw [hcons] at hread ⊢
  simpa [readInt, hplus, hminus] using hread

end Number

/-! ## §2 Records of one field -/

section

variable {w : Walker} {path : Path} {f : Field} {d : Directives} {target : Value}
  {es : List (String × Data)}

/-- A record with one field takes maps that have no other key. -/
theorem checkKeys_single (hread : directives f = .ok d)
    (hes : ∀ e ∈ es, e.1 = documentName f d) (l : Location) :
    checkKeys path es [(f, target)] l = .ok () l := by
  have hnames : documentNames [(f, target)] = .ok [documentName f d] := by
    simp only [documentNames, hread, ok_bind]
  have hfind : es.find? (fun e => !([documentName f d].contains e.1)) = none := by
    simpa using hes
  rw [checkKeys, checkNames, hnames]
  simp only [lift, located, Bind.bind, EStateM.bind, pure, EStateM.pure]
  rw [hfind]
  rfl

/-- A record of one field is what the field is bound to, and an error is located at the field. -/
theorem Walker.config_single (hread : directives f = .ok d)
    (hes : ∀ e ∈ es, e.1 = documentName f d) {bound : Except Cause Value}
    (hslot : slot w.context (Deeper.level w.context maxDepth) path es f d target = lift bound)
    (variant : Option Variant) :
    (w.config path (.map es) (.record variant [(f, target)])).1 =
      ((fun v => .record variant [(f, v)]) <$> bound).mapError
        fun cause => .located path (documentName f d) (.cause cause) := by
  have hinside (l : Location) :
      (do
        if w.context.strict then checkKeys path es [(f, target)]
        fields w.context (Deeper.level w.context maxDepth) path es [(f, target)] : Walk Slots) l =
      located path (lift ((fun v => [(f, v)]) <$> bound)) (l.atField (documentName f d)) := by
    rw [fields_cons_of_directives hread, hslot, fields]
    cases w.context.strict with
    | false => cases bound <;> rfl
    | true =>
      simp only [if_true, Bind.bind, EStateM.bind, checkKeys_single hread hes]
      cases bound <;> rfl
  rw [Walker.config_record, recordInside, insideMap, Walk.modify_bind_apply]
  simp only [Bind.bind, EStateM.bind] at hinside ⊢
  rw [hinside]
  cases bound with
  | ok v => rfl
  | error cause =>
    have hplace : ((Location.outside.openMap).atField (documentName f d)).text =
        documentName f d := by
      simp [Location.outside, Location.openMap, Location.atField, Location.text,
        Location.framesText, Location.frameText]
    show Except.error (Error.located path _ _) = _
    rw [hplace]
    rfl

end

/-! ## §3 Fields for integers -/

/-- Whether directives leave it to the width of a field which integers it takes. -/
structure Directives.Unrestricted (d : Directives) : Prop where
  factory : d.factory? = none
  allowed : d.allowed? = none
  keys : d.keys? = none
  path : d.isPath = false

variable {f : Field} {d : Directives} {n : Int}

/-- An integer from data is stored, if it has the width. -/
theorem storeScalar_int (k : IntWidth) (n old : Int) :
    storeScalar (.int n) (.int k old) =
      if k.holds n then .done (.int k n)
      else .failed (.overflow (toString n) k.name) (.int k old) := by
  simp only [storeScalar, Value.ofInt?]
  split <;> rfl

/-- An integer in a document is stored in the slot of its field. -/
theorem slot_int (hd : d.Unrestricted) (context : Context) (path : Path) (k : IntWidth)
    (n old : Int) :
    slot context (Deeper.level context maxDepth) path [(documentName f d, .int n)] f d
        (.int k old) =
      lift (storeScalar (.int n) (.int k old)).result := by
  have hpresent : present? (documentName f d) [(documentName f d, .int n)] = some (.int n) := by
    simp [present?, Keyed.get?, Option.filter, Data.isNull]
  have hcheck : checkValue d (.int n) = .ok () := by
    simp only [checkValue, hd.allowed, hd.keys]
    rfl
  have hbare : ¬ IsBare d (.int k old) (.int n) := by
    rintro ⟨_, _, _, _, -, htext, -⟩
    cases htext
  have htaken : taken d (.int k old) (.int n) = .int n := by
    unfold taken
    split
    · next h _ => cases h
    · rfl
  simp only [slot, hpresent]
  rw [field_value hd.factory hbare, htaken]
  simp only [value, hcheck, hd.path]
  rfl

/-- A default between the bounds of a word is stored, if it has the width. -/
theorem storeDefault_int (hn : Data.isInteger n = true) (k : IntWidth) (old : Int) :
    storeDefault (toString n) (.int k old) =
      if k.holds n then .done (.int k n)
      else .failed (.badDefault (toString n) k.name .outOfRange) (.int k old) := by
  simp only [Data.isInteger, Bool.and_eq_true, decide_eq_true_eq] at hn
  have hbounds : -defaultBound ≤ n ∧ n ≤ defaultBound - 1 := by
    simp only [defaultBound]
    omega
  have hread : readInt (-defaultBound) (defaultBound - 1) (toString n).toList = .ok n :=
    readInt_toString (by decide) (by decide) hbounds.1 hbounds.2
  simp only [storeDefault, hread, Value.ofInt?]
  split <;> rfl

/-- Without data the default of a field is stored in its slot. -/
theorem slot_default {raw : String} (hdefault : d.default? = some raw) (context : Context)
    (path : Path) (k : IntWidth) (old : Int) :
    slot context (Deeper.level context maxDepth) path [] f d (.int k old) =
      lift (storeDefault raw (.int k old)).result := by
  have hpresent : present? (documentName f d) [] = none := rfl
  simp only [slot, hpresent, fields.absentField, hdefault, ofDefault]

/-- An overwrite stores an integer that has the width, and not that of an unsigned word alone. -/
theorem setScalar_int (hn : Data.isInteger n = true) (k : IntWidth) (old : Int) :
    Value.setScalar (toString n) (.int k old) =
      if k.holds n ∧ (k = .u64 → n ≤ IntWidth.i64.high) then .done (.int k n)
      else .failed (.overflow (toString n) k.name) (.int k old) := by
  simp only [Data.isInteger, Bool.and_eq_true, decide_eq_true_eq] at hn
  by_cases hhigh : n ≤ IntWidth.i64.high
  · have hread : readInt IntWidth.i64.low IntWidth.i64.high (toString n).toList = .ok n :=
      readInt_toString (by decide) (by decide) hn.1 hhigh
    simp only [Value.setScalar, hread, Value.ofInt?, hhigh, implies_true, and_true]
    by_cases hk : k.holds n = true <;> simp [hk]
  · have hread : readInt IntWidth.i64.low IntWidth.i64.high (toString n).toList =
        .error .tooLarge :=
      readInt_toString_eq_tooLarge (by decide) (by omega)
    -- no other width holds what a signed word does not
    have hheld : ¬ (k.holds n ∧ (k = .u64 → n ≤ IntWidth.i64.high)) := by
      rintro ⟨hk, hunsigned⟩
      by_cases hwidth : k = .u64
      · exact hhigh (hunsigned hwidth)
      · exact hhigh (Value.holds_i64 hwidth hk).2
    simp only [Value.setScalar, hread, if_neg hheld]

/-- An overwrite of the one field of a record sets it as a scalar. -/
theorem overwrite_single (hread : directives f = .ok d) (hname : Step.IsName (documentName f d))
    (raw : String) (variant : Option Variant) (k : IntWidth) (old : Int) :
    Value.overwrite (documentName f d) raw (.record variant [(f, .int k old)]) =
      let a := Value.setScalar raw (.int k old)
      ⟨a.fault.map fun cause => .overwrite (documentName f d) raw (.cause cause),
        .record variant [(f, a.value)]⟩ := by
  have htag : Directives.read f.tag = .ok d := by
    unfold directives at hread
    split at hread
    · next d' htag => rw [htag, Except.ok.inj hread]
    · cases hread
  have hroute : Segment.readRoute (documentName f d) = .ok [⟨documentName f d, none⟩] := by
    have hwritable : ∀ s ∈ [(⟨documentName f d, none⟩ : Segment)], s.IsWritable := by
      simpa [Segment.IsWritable] using hname
    exact Segment.readRoute_text (by simp) hwritable
  have hslot : Value.editSlot (documentName f d)
      (Value.editIndexed ⟨documentName f d, none⟩ (Value.setAt raw [])) [(f, .int k old)] =
      (Value.setScalar raw (.int k old)).map fun v => [(f, v)] := by
    simp only [Value.editSlot, htag, documentName, if_true]
    rfl
  have hset : Value.setAt raw [⟨documentName f d, none⟩] (.record variant [(f, .int k old)]) =
      ((Value.setScalar raw (.int k old)).map fun v => [(f, v)]).map (.record variant) := by
    rw [Value.setAt, hslot]
  rw [Value.overwrite, hroute]
  simp only [hset, After.map_fault, After.map_value]

/-! ## §4 The three ways -/

/-- An integer that data can hold is written into a field from a document, from the default of the
    field and from an overwrite with its text. Where the integer has the width of the field all
    three store it, and where it has not all three fail with its overflow and leave in the slot what
    was there; but an overwrite also refuses the integers of an unsigned word that no signed word
    holds. -/
theorem integer_ways (hread : directives f = .ok d) (hd : d.Unrestricted)
    (hname : Step.IsName (documentName f d)) (hn : Data.isInteger n = true) (w : Walker)
    (path : Path) (variant : Option Variant) (k : IntWidth) (old : Int) :
    let name := documentName f d
    let record (m : Int) : Value := .record variant [(f, .int k m)]
    -- from a document
    (storeScalar (.int n) (.int k old) =
        (if k.holds n then .done (.int k n)
        else .failed (.overflow (toString n) k.name) (.int k old)) ∧
      (w.config path (.map [(name, .int n)]) (record old)).1 =
        if k.holds n then .ok (record n)
        else .error (.located path name (.cause (.overflow (toString n) k.name)))) ∧
    -- from the default
    (d.default? = some (toString n) →
      storeDefault (toString n) (.int k old) =
        (if k.holds n then .done (.int k n)
        else .failed (.badDefault (toString n) k.name .outOfRange) (.int k old)) ∧
      (w.config path (.map []) (record old)).1 =
        if k.holds n then .ok (record n)
        else .error
          (.located path name (.cause (.badDefault (toString n) k.name .outOfRange)))) ∧
    -- from an overwrite
    Value.overwrite name (toString n) (record old) =
      if k.holds n ∧ (k = .u64 → n ≤ IntWidth.i64.high) then .done (record n)
      else .failed (.overwrite name (toString n) (.cause (.overflow (toString n) k.name)))
        (record old) := by
  intro name record
  refine ⟨⟨storeScalar_int k n old, ?_⟩, fun hdefault => ⟨storeDefault_int hn k old, ?_⟩, ?_⟩
  · have hdocument := Walker.config_single hread (by simp) (slot_int hd w.context path k n old)
      variant
    rw [storeScalar_int] at hdocument
    refine hdocument.trans ?_
    split <;> rfl
  · have habsent := Walker.config_single hread (by simp)
      (slot_default hdefault w.context path k old) variant
    rw [storeDefault_int hn] at habsent
    refine habsent.trans ?_
    split <;> rfl
  · rw [overwrite_single hread hname, setScalar_int hn]
    split <;> rfl

/-- The greatest integer of a signed byte is written in all three ways. -/
theorem integer_ways_byte :
    let f : Field := ⟨"Counter", "ticks", "ticks,default=127"⟩
    let w := Walker.fresh ⟨StoredFiles.empty.fileSystem, .standard, true⟩
    let record (m : Int) : Value := .record none [(f, .int .i8 m)]
    (w.config "main.yaml" (.map [("ticks", .int 127)]) (record 5)).1 = .ok (record 127) ∧
      (w.config "main.yaml" (.map []) (record 5)).1 = .ok (record 127) ∧
      Value.overwrite "ticks" "127" (record 5) = .done (record 127) := by
  intro f w record
  have hread : directives f = .ok ⟨[("default", "127"), ("name", "ticks")]⟩ :=
    ok_of_toOption_eq_some (by decide +kernel)
  have hd : Directives.Unrestricted ⟨[("default", "127"), ("name", "ticks")]⟩ :=
    ⟨by decide, by decide, by decide, by decide⟩
  obtain ⟨⟨-, hdocument⟩, hdefault, hoverwrite⟩ :=
    integer_ways (n := 127) hread hd (by decide) (by decide) w "main.yaml" none .i8 5
  exact ⟨hdocument, (hdefault (by decide +kernel)).2, hoverwrite⟩

/-- The first integer above the signed words is an unsigned word; a document and a default store
    it, and an overwrite refuses it. -/
theorem overwrite_refuses_word :
    let f : Field := ⟨"Counter", "ticks", "ticks,default=9223372036854775808"⟩
    let w := Walker.fresh ⟨StoredFiles.empty.fileSystem, .standard, true⟩
    let record (m : Int) : Value := .record none [(f, .int .u64 m)]
    let raw := "9223372036854775808"
    IntWidth.u64.holds (2 ^ 63) = true ∧
      (w.config "main.yaml" (.map [("ticks", .int (2 ^ 63))]) (record 5)).1 =
        .ok (record (2 ^ 63)) ∧
      (w.config "main.yaml" (.map []) (record 5)).1 = .ok (record (2 ^ 63)) ∧
      Value.overwrite "ticks" raw (record 5) =
        .failed (.overwrite "ticks" raw (.cause (.overflow raw "u64"))) (record 5) := by
  intro f w record raw
  have hread : directives f = .ok ⟨[("default", raw), ("name", "ticks")]⟩ :=
    ok_of_toOption_eq_some (by decide +kernel)
  have hd : Directives.Unrestricted ⟨[("default", raw), ("name", "ticks")]⟩ :=
    ⟨by decide, by decide, by decide, by decide⟩
  have hn : Data.isInteger (2 ^ 63) = true := by decide
  have htext : raw = toString (2 ^ 63 : Int) := by decide +kernel
  have hdefault : Directives.default? ⟨[("default", raw), ("name", "ticks")]⟩ =
      some (toString (2 ^ 63 : Int)) := by decide +kernel
  have hrefused : Value.setScalar raw (.int .u64 5) =
      .failed (.overflow raw "u64") (.int .u64 5) := by
    rw [htext, setScalar_int hn]
    rfl
  refine ⟨by decide, ?_, ?_, ?_⟩
  · exact Walker.config_single hread (by decide)
      (slot_int hd w.context "main.yaml" .u64 (2 ^ 63) 5) none
  · exact Walker.config_single hread (by simp)
      (slot_default hdefault w.context "main.yaml" .u64 5) none
  · have hoverwrite := overwrite_single hread (by decide) raw none .u64 5
    rw [hrefused] at hoverwrite
    exact hoverwrite

end Testbed
