import Testbed.Proofs.Data.Written
import Testbed.Proofs.Number.Decimal
import Testbed.Proofs.Overwrite.Setting
import Testbed.Proofs.Value.Frame
import Testbed.Proofs.Value.Serialized

/-!
# What an overwrite does

A successful overwrite of a configuration changes its data, and the JSON of it, at one route, the
one that the text of its route spells, and what stands there afterwards is what the other text
denotes. Either a scalar of the same kind stood there before, or the route leads to a new key of a
map that is there and holds scalars. Nothing else is touched: values away from the route are the
same, and on the way to it lists keep their lengths, maps their keys and records their variants.
The result is again a configuration.
-/

namespace Testbed.Value

open Number Number.Binary

/-! ## §1 What a text denotes -/

/-- What a text denotes in place of a scalar of a configuration. -/
inductive Denotes (raw : String) : Value → Value → Prop
  | text (s : String) : Denotes raw (text s) (text raw)
  | int {w : IntWidth} {n m : Int} (hraw : IsInteger raw.toList m) (hm : w.holds m = true) :
      Denotes raw (int w n) (int w m)
  | float {x y : Binary} (hraw : readFloat raw.toList = .ok y) :
      Denotes raw (float .f64 x) (float .f64 y)

/-- What is stored in a leaf is what the text denotes there, and of the leaf's shape. -/
theorem denotes_of_store? {raw : String} {x w : Value} {e : Shape} (hx : HasShape x e)
    (he : e.isTidy = true) (h : store? raw x = some w) : Denotes raw x w ∧ HasShape w e := by
  cases hx with
  | text s =>
    obtain rfl := Option.some.inj ((store?_text raw s).symm.trans h)
    exact ⟨.text s, .text raw⟩
  | @int k n hn =>
    -- read as a signed word first, then checked against the width of the field
    rw [store?_int] at h
    obtain ⟨m, hread, hstore⟩ := Option.bind_eq_some_iff.mp h
    obtain ⟨hm, rfl⟩ := ofInt?_eq_some_iff.mp hstore
    have hok : readInt IntWidth.i64.low IntWidth.i64.high raw.toList = .ok m :=
      ok_of_toOption_eq_some hread
    obtain ⟨hraw, -⟩ := (readInt_eq_ok_iff (by decide) (by decide)).mp hok
    exact ⟨.int hraw hm, .int hm⟩
  | @float k x hk =>
    obtain rfl : k = .f64 := by simpa [Shape.isTidy] using he
    rw [store?_float] at h
    obtain ⟨y, hread, hstore⟩ := Option.bind_eq_some_iff.mp h
    obtain rfl : float .f64 y = w := Option.some.inj hstore
    have hok : readFloat raw.toList = .ok y := ok_of_toOption_eq_some hread
    exact ⟨.float hok, .float ⟨readFloat_fits hok, by simp⟩⟩
  | _ => simp [store?, setScalar] at h

/-! ## §2 The effect -/

/-- Whether the values on the way to a route, its end apart, have the same outlines in both. -/
def SameWay (r : Route) (v v' : Value) : Prop :=
  ∀ q, q <+: r → q ≠ r → (at? q v').map outline = (at? q v).map outline

/-- How one configuration comes from another when `raw` is stored at a route, in place of the
    scalar `old` that stood there, or as a new entry of a map whose entries start as `old`. -/
structure Effect (raw : String) (r : Route) (old new c c' : Value) : Prop where
  config : IsConfig c'
  denotes : Denotes raw old new
  data : c'.toData = Data.put r new.toData c.toData
  -- in JSON a float that is not finite stands there as null
  json : c'.toData.written = Data.put r new.toData.written c.toData.written
  shown : Data.at? r c'.toData = some new.toData
  unrelated : ∀ q, ¬ q <+: r → ¬ r <+: q → Data.at? q c'.toData = Data.at? q c.toData
  stored : at? r c' = some new
  away : ∀ q, ¬ q <+: r → at? q c' = at? q c
  place : (at? r c = some old ∧ SameWay r c c') ∨
    ∃ outer name e entries, r = outer ++ [.key name] ∧ Keyed.get? name entries = none ∧
      e.zero = old ∧ at? outer c = some (map e entries) ∧
      at? outer c' = some (map e (Keyed.insert name new entries)) ∧ SameWay outer c c'

/-- Storing in a leaf has its effect, whether the leaf is there or a map has it ready. -/
theorem effect_of_setLeaf? {raw : String} {r : Route} {c c' : Value} (hc : IsConfig c)
    (h : setLeaf? raw r c = some c') : ∃ old new, Effect raw r old new c c' := by
  obtain ⟨old, new, hleaf, hstore, rfl⟩ := setLeaf?_eq_some_iff.mp h
  have htidy : (Shape.record Rig.config).isTidy = true := Rig.config_tidy
  obtain ⟨e, he, hold, hkeep⟩ := HasShape.leaf? hc htidy hleaf
  obtain ⟨hdenotes, hnew⟩ := denotes_of_store? hold he hstore
  have hset : new.isSettable = true := (store?_of_store?_eq_some hstore).1
  have hconfig : IsConfig (put r new c) := hkeep new hnew
  have hdata := toData_put hc htidy hleaf hconfig htidy
  have hjson : (put r new c).toData.written = Data.put r new.toData.written c.toData.written := by
    rw [hdata, Data.put_written]
  have hstored := at?_put_of_leaf? hleaf new
  have hshown : Data.at? r (put r new c).toData = some new.toData := by
    rw [toData_at? hconfig htidy, hstored]
    rfl
  have hunrelated : ∀ q, ¬ q <+: r → ¬ r <+: q →
      Data.at? q (put r new c).toData = Data.at? q c.toData := by
    intro q hqr hrq
    rw [hdata, Data.at?_put_of_apart hqr hrq]
  have haway : ∀ q, ¬ q <+: r → at? q (put r new c) = at? q c := by
    intro q hq
    exact at?_put_of_not_prefix hleaf hset hq
  refine ⟨old, new, hconfig, hdenotes, hdata, hjson, hshown, hunrelated, hstored, haway, ?_⟩
  -- the leaf was there, or a map had it ready
  rcases at?_of_leaf? hleaf with hat | ⟨outer, name, e', entries, rfl, hmap, hget, hzero⟩
  · left
    refine ⟨hat, ?_⟩
    intro q hq hne
    exact outline_at?_put hat hq hne new
  · -- the new entry replaces the map that it is put into
    have hhas : Keyed.has name entries = false := by simp [Keyed.has, hget]
    have hput : put (outer ++ [.key name]) new c =
        put outer (map e' (Keyed.insert name new entries)) c := by
      rw [put_append hmap]
      simp [put, setChild, Keyed.put, hhas]
    right
    refine ⟨outer, name, e', entries, rfl, hget, hzero, hmap, ?_, ?_⟩
    · rw [hput]
      exact at?_put_self hmap _
    · intro q hq hne
      rw [hput]
      exact outline_at?_put hmap hq hne _

/-- A successful overwrite of a configuration stores its text at the route that its segments spell,
    and does nothing else. -/
theorem overwrite_effect {c c' : Value} (hc : IsConfig c) {route raw : String}
    (h : overwrite route raw c = .done c') :
    ∃ segments old new, Segment.readRoute route = .ok segments ∧
      Effect raw (Segment.route segments) old new c c' := by
  have hmade : (overwrite route raw c).toOption = some c' := by rw [h]; rfl
  rw [overwrite_toOption] at hmade
  obtain ⟨segments, hread, hset⟩ := Option.bind_eq_some_iff.mp hmade
  obtain ⟨old, new, heffect⟩ := effect_of_setLeaf? hc hset
  exact ⟨segments, old, new, ok_of_toOption_eq_some hread, heffect⟩

/-- A new parameter of a server. -/
theorem overwrite_effect_parameter :
    ∃ c', IsConfig oneServer ∧ overwrite "servers[0].parameters.limit" "1G" oneServer = .done c' ∧
      ∃ segments old new, Segment.readRoute "servers[0].parameters.limit" = .ok segments ∧
        Effect "1G" (Segment.route segments) old new oneServer c' := by
  have hfault : (overwrite "servers[0].parameters.limit" "1G" oneServer).fault = none := by
    decide +kernel
  have hdone : overwrite "servers[0].parameters.limit" "1G" oneServer =
      .done (overwrite "servers[0].parameters.limit" "1G" oneServer).value := by
    rw [← After.toOption_eq_some_iff]
    simp [After.toOption, hfault]
  exact ⟨_, isConfig_oneServer, hdone, overwrite_effect isConfig_oneServer hdone⟩

end Testbed.Value
