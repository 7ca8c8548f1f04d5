import Mathlib.Data.List.Nodup
import Mathlib.Data.List.TakeWhile
import Testbed.Directives
import Testbed.Proofs.Keyed.Order
import Testbed.Proofs.Text.Pieces

/-!
# Tags

A tag is a list of segments with commas between them. A segment `key=value` gives a value to a key,
and where a key comes again the value that it is given last counts (`last?`).

- `read_eq` says what a tag is read as: the segments that name a key (`keyed`) are put one after the
  other over the name that stands in front, unless one of them names a key that does not exist.
- `read_tag` says that settings are read back from the tag that they are written in, and which tags
  cannot be read.
-/

namespace Testbed

namespace Keyed

variable {α : Type}

/-- The value that a key is given last. -/
def last? (key : String) (entries : List (String × α)) : Option α :=
  get? key entries.reverse

theorem get?_append (key : String) (first second : List (String × α)) :
    get? key (first ++ second) = (get? key first).or (get? key second) := by
  induction first with
  | nil => rfl
  | cons e rest ih =>
    obtain ⟨k, v⟩ := e
    rw [List.cons_append, get?, get?, ih]
    split <;> rfl

/-- Of entries that are put over others the last one with a key is found. -/
theorem get?_union_eq_last? (key : String) (first second : List (String × α)) :
    get? key (union first second) = (last? key second).or (get? key first) := by
  induction second generalizing first with
  | nil => rfl
  | cons e rest ih =>
    obtain ⟨k, v⟩ := e
    have hcons : union first ((k, v) :: rest) = union (insert k v first) rest := rfl
    rw [hcons, ih, last?, last?, List.reverse_cons, get?_append, get?_insert, get?, get?,
      Option.or_assoc]
    by_cases hkey : key = k
    · simp [hkey]
    · simp [hkey, Ne.symm hkey]

theorem last?_cons (key : String) (e : String × α) (entries : List (String × α)) :
    last? key (e :: entries) =
      (last? key entries).or (if key = e.1 then some e.2 else none) := by
  rw [last?, List.reverse_cons, get?_append, last?]
  by_cases hkey : key = e.1
  · simp [get?, hkey]
  · simp [get?, hkey, Ne.symm hkey]

/-- Where no key comes again, the last value of a key is its only one. -/
theorem last?_eq_some_iff {entries : List (String × α)} (h : (keys entries).Nodup) {key : String}
    {value : α} : last? key entries = some value ↔ (key, value) ∈ entries := by
  have hreverse : (keys entries.reverse).Nodup := by
    rw [keys, List.map_reverse]
    exact List.nodup_reverse.mpr h
  rw [last?]
  constructor
  · intro hlast
    exact List.mem_reverse.mp (mem_of_get?_eq_some hlast)
  · intro hmem
    exact get?_eq_some_of_mem hreverse (List.mem_reverse.mpr hmem)

end Keyed

namespace Directives

/-! ## §1 Segments -/

/-- The key that a segment names: its text before the first `=`, or all of it. -/
def keyOf (segment : String) : String :=
  String.ofList (segment.toList.takeWhile (· ≠ '='))

/-- The segment that gives a key a value. -/
def setting (s : String × String) : String :=
  s.1 ++ "=" ++ s.2

/-- The segments of a tag that name a key: all of them, except a first one without `=`. -/
def keyed (tag : String) : List String :=
  match Text.pieces ',' tag with
  | [] => []
  | first :: rest => if '=' ∈ first.toList then first :: rest else rest

/-- What stands in front of the keys: a name, unless it is empty. -/
def front (tag : String) : List (String × String) :=
  match Text.pieces ',' tag with
  | [] => []
  | first :: _ => if '=' ∈ first.toList ∨ first = "" then [] else [("name", first)]

theorem assignment_fst (segment : String) : (assignment segment).1 = keyOf segment := by
  rw [assignment, Text.cutFirst, keyOf]
  cases hcut : Text.cutFirstOf '=' segment.toList with
  | none =>
    -- without a `=` nothing ends the key
    have hall : segment.toList.takeWhile (· ≠ '=') = segment.toList := by
      rw [List.takeWhile_eq_self_iff]
      intro c hc
      have hne : c ≠ '=' := fun heq => Text.cutFirstOf_eq_none_iff.mp hcut (heq ▸ hc)
      simpa using hne
    rw [hall, String.ofList_toList]
    rfl
  | some cut =>
    obtain ⟨before, after⟩ := cut
    obtain ⟨hsegment, hbefore⟩ := Text.cutFirstOf_eq_some hcut
    have hkey : segment.toList.takeWhile (· ≠ '=') = before := by
      rw [hsegment, List.takeWhile_append_of_pos, List.takeWhile_cons]
      · simp
      · intro c hc
        have hne : c ≠ '=' := fun heq => hbefore (heq ▸ hc)
        simpa using hne
    rw [hkey]
    rfl

/-- No key that exists holds a `=`. -/
theorem equals_notMem_of_known {key : String} (h : key ∈ known) : '=' ∉ key.toList := by
  have hall : ∀ k ∈ known, '=' ∉ k.toList := by decide
  exact hall key h

theorem comma_notMem_of_known {key : String} (h : key ∈ known) : ',' ∉ key.toList := by
  have hall : ∀ k ∈ known, ',' ∉ k.toList := by decide
  exact hall key h

/-- A value may hold a `=`: the first one ends the key. -/
theorem assignment_setting {s : String × String} (h : s.1 ∈ known) :
    assignment (setting s) = s := by
  have htext : (setting s).toList = s.1.toList ++ '=' :: s.2.toList := by simp [setting]
  rw [assignment, Text.cutFirst, htext, Text.cutFirstOf_append_sep (equals_notMem_of_known h)]
  simp

theorem map_assignment_setting {settings : List (String × String)}
    (h : ∀ s ∈ settings, s.1 ∈ known) :
    (settings.map setting).map assignment = settings := by
  rw [List.map_map]
  calc settings.map (assignment ∘ setting)
    _ = settings.map id := List.map_congr_left fun s hs => assignment_setting (h s hs)
    _ = settings := List.map_id settings

/-! ## §2 Reading -/

/-- Segments are put one after the other over the values so far, up to one whose key does not
    exist. -/
theorem assign_eq (values : List (String × String)) (segments : List String) :
    assign values segments =
      match segments.find? (keyOf · ∉ known) with
      | some segment => .error (keyOf segment)
      | none => .ok (Keyed.union values (segments.map assignment)) := by
  induction segments generalizing values with
  | nil => rfl
  | cons segment rest ih =>
    have hkey := assignment_fst segment
    rw [assign, List.find?_cons, List.map_cons]
    simp only [hkey]
    by_cases hknown : keyOf segment ∈ known
    · -- the value of the segment is put over those before it
      have hunion : Keyed.union values (assignment segment :: rest.map assignment) =
          Keyed.union (Keyed.insert (keyOf segment) (assignment segment).2 values)
            (rest.map assignment) := by
        rw [← hkey]
        rfl
      simp only [hknown, if_true, ih, not_true_eq_false, decide_false, hunion]
    · simp only [hknown, if_false, not_false_eq_true, decide_true]

/-- What a tag is read as. -/
theorem read_eq (tag : String) :
    read tag =
      match (keyed tag).find? (keyOf · ∉ known) with
      | some segment => .error (keyOf segment)
      | none => .ok ⟨Keyed.union (front tag) ((keyed tag).map assignment)⟩ := by
  have hassign (values : List (String × String)) (segments : List String) :
      Directives.mk <$> assign values segments =
        match segments.find? (keyOf · ∉ known) with
        | some segment => .error (keyOf segment)
        | none => .ok ⟨Keyed.union values (segments.map assignment)⟩ := by
    rw [assign_eq]
    cases segments.find? (keyOf · ∉ known) <;> rfl
  rw [read, keyed, front]
  cases hpieces : Text.pieces ',' tag with
  | nil => rfl
  | cons first rest =>
    -- the first segment names a key, or it is a name, or there is nothing in it
    by_cases hequals : '=' ∈ first.toList
    · simp only [hequals, if_true, true_or, hassign]
    · by_cases hempty : first = ""
      · subst hempty
        simp only [hequals, if_false, or_true, if_true, hassign]
      · simp only [hequals, hempty, if_false, or_false, hassign]

/-- Where the segments that name a key are settings, they are put over what stands in front. -/
theorem read_of_keyed {tag : String} {settings : List (String × String)}
    (hkeyed : keyed tag = settings.map setting) (h : ∀ s ∈ settings, s.1 ∈ known) :
    read tag = .ok ⟨Keyed.union (front tag) settings⟩ := by
  have hfind : (settings.map setting).find? (keyOf · ∉ known) = none := by
    rw [List.find?_eq_none]
    intro segment hsegment
    obtain ⟨s, hs, rfl⟩ := List.mem_map.mp hsegment
    have hkey : keyOf (setting s) = s.1 := by rw [← assignment_fst, assignment_setting (h s hs)]
    simpa [hkey] using h s hs
  rw [read_eq, hkeyed, hfind, map_assignment_setting h]

/-! ## §3 Writing -/

/-- Whether a key exists and a value can be written in a tag. -/
def IsSetting (s : String × String) : Prop :=
  s.1 ∈ known ∧ ',' ∉ s.2.toList

instance : DecidablePred IsSetting := fun _ => inferInstanceAs (Decidable (_ ∧ _))

/-- Whether a text in front of the settings is a name. -/
def IsBareName (name : String) : Prop :=
  name ≠ "" ∧ ',' ∉ name.toList ∧ '=' ∉ name.toList

instance : DecidablePred IsBareName := fun _ => inferInstanceAs (Decidable (_ ∧ _))

/-- Whether directives hold, in the order of the keys, what settings give last, and nothing else. -/
structure Holds (d : Directives) (settings : List (String × String)) : Prop where
  ordered : Keyed.Ordered d.values
  value : ∀ key, d.get? key = Keyed.last? key settings

variable {name : String} {settings : List (String × String)}

theorem comma_notMem_setting {s : String × String} (h : IsSetting s) :
    ',' ∉ (setting s).toList := by
  have hkey := comma_notMem_of_known h.1
  simpa [setting, hkey] using h.2

theorem comma_notMem_settings (h : ∀ s ∈ settings, IsSetting s) :
    ∀ segment ∈ settings.map setting, ',' ∉ segment.toList := by
  intro segment hsegment
  obtain ⟨s, hs, rfl⟩ := List.mem_map.mp hsegment
  exact comma_notMem_setting (h s hs)

theorem pieces_tag {segments : List String} (hne : segments ≠ [])
    (h : ∀ segment ∈ segments, ',' ∉ segment.toList) :
    Text.pieces ',' (",".intercalate segments) = segments := by
  have hcommas : ∀ p ∈ segments.map String.toList, ',' ∉ p := by
    intro p hp
    obtain ⟨segment, hsegment, rfl⟩ := List.mem_map.mp hp
    exact h segment hsegment
  have hmap : segments.map String.toList ≠ [] := by simpa using hne
  have hcomma : ",".toList = [','] := rfl
  rw [Text.pieces, String.toList_intercalate, hcomma, Text.piecesOf_intercalate hmap hcommas]
  simp [Function.comp_def]

/-- A tag that is written without a name has only settings. -/
theorem keyed_settings (h : ∀ s ∈ settings, IsSetting s) :
    keyed (",".intercalate (settings.map setting)) = settings.map setting ∧
      front (",".intercalate (settings.map setting)) = [] := by
  cases settings with
  | nil => exact ⟨rfl, rfl⟩
  | cons s rest =>
    have hpieces := pieces_tag (by simp) (comma_notMem_settings h)
    have hequals : '=' ∈ (setting s).toList := by simp [setting]
    rw [keyed, front, hpieces, List.map_cons]
    simp only [hequals, if_true, true_or, and_self]

/-- A name that stands in front is no setting. -/
theorem keyed_named (hname : IsBareName name) (h : ∀ s ∈ settings, IsSetting s) :
    keyed (",".intercalate (name :: settings.map setting)) = settings.map setting ∧
      front (",".intercalate (name :: settings.map setting)) = [("name", name)] := by
  obtain ⟨hne, hcomma, hequals⟩ := hname
  have hpieces := pieces_tag (by simp)
    (List.forall_mem_cons.mpr ⟨hcomma, comma_notMem_settings h⟩)
  rw [keyed, front, hpieces]
  simp only [hequals, hne, if_false, or_self, and_self]

/-- What is given with a tag is held, whatever was given to a key before. -/
theorem holds_ofList (settings : List (String × String)) :
    Holds ⟨Keyed.ofList settings⟩ settings where
  ordered := Keyed.ordered_ofList settings
  value key := by
    show Keyed.get? key (Keyed.union [] settings) = _
    rw [Keyed.get?_union_eq_last?, Keyed.get?, Option.or_none]

/-- Directives that hold settings for different keys are these settings, in order of the keys. -/
theorem Holds.perm {d : Directives} (h : d.Holds settings)
    (hkeys : (Keyed.keys settings).Nodup) : d.values.Perm settings := by
  -- two lists without repetitions are compared by what is in them
  have hvalues : d.values.Nodup := List.Nodup.of_map _ h.ordered.nodup_keys
  have hsettings : settings.Nodup := List.Nodup.of_map _ hkeys
  rw [List.perm_ext_iff_of_nodup hvalues hsettings]
  rintro ⟨key, value⟩
  calc (key, value) ∈ d.values
    _ ↔ Keyed.get? key d.values = some value :=
      ⟨Keyed.get?_eq_some_of_mem h.ordered.nodup_keys, Keyed.mem_of_get?_eq_some⟩
    _ ↔ Keyed.last? key settings = some value := by rw [← h.value key, get?]
    _ ↔ (key, value) ∈ settings := Keyed.last?_eq_some_iff hkeys

/-- A tag is refused for the first key that does not exist. -/
theorem read_eq_error_iff {tag key : String} :
    read tag = .error key ↔
      ∃ before segment after, keyed tag = before ++ segment :: after ∧
        (∀ s ∈ before, keyOf s ∈ known) ∧ keyOf segment = key ∧ key ∉ known := by
  rw [read_eq]
  constructor
  · intro h
    split at h
    · next segment hfind =>
      obtain rfl := Except.error.inj h
      obtain ⟨hunknown, before, after, hkeyed, hbefore⟩ := List.find?_eq_some_iff_append.mp hfind
      refine ⟨before, segment, after, hkeyed, fun s hs => ?_, rfl, by simpa using hunknown⟩
      simpa using hbefore s hs
    · cases h
  · rintro ⟨before, segment, after, hkeyed, hbefore, rfl, hunknown⟩
    have hfind : (keyed tag).find? (keyOf · ∉ known) = some segment := by
      rw [List.find?_eq_some_iff_append]
      exact ⟨by simpa using hunknown, before, after, hkeyed, fun s hs => by simpa using hbefore s hs⟩
    rw [hfind]

/-- A tag is refused if any of its keys does not exist. -/
theorem exists_read_eq_error_iff {tag : String} :
    (∃ key, read tag = .error key) ↔ ∃ segment ∈ keyed tag, keyOf segment ∉ known := by
  constructor
  · rintro ⟨key, h⟩
    obtain ⟨before, segment, after, hkeyed, -, rfl, hunknown⟩ := read_eq_error_iff.mp h
    exact ⟨segment, by simp [hkeyed], hunknown⟩
  · rintro ⟨segment, hsegment, hunknown⟩
    rw [read_eq]
    split
    · next first _ => exact ⟨keyOf first, rfl⟩
    · next hfind =>
      -- nothing is found, though the segment is there to be found
      rw [List.find?_eq_none] at hfind
      exact absurd (hfind segment hsegment) (by simpa using hunknown)

/-- Settings are read back from the tag that they are written in, in whatever order they stand: the
    tag is read as what they give last, which is all that they give where no key comes again. A name
    in front is read as a setting that comes before the others. And a tag is refused exactly where a
    segment names a key that does not exist; the first such key is the error. -/
theorem read_tag :
    (∀ settings : List (String × String), (∀ s ∈ settings, IsSetting s) →
      ∃ d, read (",".intercalate (settings.map setting)) = .ok d ∧ d.Holds settings ∧
        ((Keyed.keys settings).Nodup → d.values.Perm settings)) ∧
    (∀ (name : String) (settings : List (String × String)), IsBareName name →
      (∀ s ∈ settings, IsSetting s) →
      ∃ d, read (",".intercalate (name :: settings.map setting)) = .ok d ∧
        d.Holds (("name", name) :: settings) ∧
        d.name? = some ((Keyed.last? "name" settings).getD name) ∧
        ∀ key, key ≠ "name" → d.get? key = Keyed.last? key settings) ∧
    (∀ tag, (∃ key, read tag = .error key) ↔ ∃ segment ∈ keyed tag, keyOf segment ∉ known) ∧
    ∀ tag key, read tag = .error key ↔
      ∃ before segment after, keyed tag = before ++ segment :: after ∧
        (∀ s ∈ before, keyOf s ∈ known) ∧ keyOf segment = key ∧ key ∉ known := by
  refine ⟨?_, ?_, fun tag => exists_read_eq_error_iff, fun tag key => read_eq_error_iff⟩
  · intro settings h
    obtain ⟨hkeyed, hfront⟩ := keyed_settings h
    have hread := read_of_keyed hkeyed fun s hs => (h s hs).1
    rw [hfront] at hread
    exact ⟨_, hread, holds_ofList settings, (holds_ofList settings).perm⟩
  · intro name settings hname h
    obtain ⟨hkeyed, hfront⟩ := keyed_named hname h
    have hread := read_of_keyed hkeyed fun s hs => (h s hs).1
    rw [hfront] at hread
    have hholds := holds_ofList (("name", name) :: settings)
    refine ⟨_, hread, hholds, ?_, ?_⟩
    · rw [name?]
      show Directives.get? ⟨Keyed.ofList (("name", name) :: settings)⟩ "name" = _
      rw [hholds.value, Keyed.last?_cons, if_pos rfl]
      cases Keyed.last? "name" settings <;> rfl
    · intro key hkey
      show Directives.get? ⟨Keyed.ofList (("name", name) :: settings)⟩ key = _
      rw [hholds.value, Keyed.last?_cons, if_neg hkey, Option.or_none]

/-- A name in front is overridden, and of two defaults the second counts. An empty segment is
    refused as a key, before another one that does not exist. -/
theorem read_tag_sandbox :
    (∃ d, read "sandbox,default=a=b,enum=local|docker,name=box,default=local" = .ok d ∧
      d.name? = some "box" ∧ d.default? = some "local" ∧ d.get? "enum" = some "local|docker") ∧
    read "sandbox,path,,min=3" = .error "" := by
  obtain ⟨-, hnamed, -, herror⟩ := read_tag
  obtain ⟨d, hread, -, hname, hothers⟩ := hnamed "sandbox"
    [("default", "a=b"), ("enum", "local|docker"), ("name", "box"), ("default", "local")]
    (by decide) (by decide)
  refine ⟨⟨d, hread, hname, hothers "default" (by decide), hothers "enum" (by decide)⟩, ?_⟩
  exact (herror "sandbox,path,,min=3" "").mpr ⟨["path"], "", ["min=3"], by decide⟩

end Directives

end Testbed
