import Testbed.Proofs.Binding.VisitOrder
import Testbed.Proofs.Data.Distinct
import Testbed.Proofs.Overwrite.Reading

/-!
# One spelling of routes

A route is written in two places: a listing writes the path of a leaf step by step, from the outside
in, and a location writes the frames that are open, each behind those around it. Both put a point in
front of every name but the first, and write the same text where no name is empty
(`Location.text_of`). An overwrite reads that text back as the segments of the route
(`Segment.readRoute_renderings`).
-/

namespace Testbed

/-! ## §1 Locations -/

namespace Location

/-- Opens a map or a list, and moves to where a step leads in it. -/
def enter (l : Location) : Step → Location
  | .key name => l.openMap.atField name
  | .index i => l.openList.atIndex i

theorem enter_of (r : Route) (t : Step) : (of r).enter t = of (r ++ [t]) := by
  rw [of_append]
  cases t <;> rfl

/-- The steps of a route lead from outside of everything to its location. -/
theorem foldl_enter (r : Route) : r.foldl enter .outside = of r := by
  induction r using List.reverseRecOn with
  | nil => rfl
  | append_singleton r t ih => rw [List.foldl_append, ih, List.foldl_cons, List.foldl_nil, enter_of]

/-- The text of a location grows by that of its last frame. -/
theorem text_of_append (r : Route) (t : Step) :
    (of (r ++ [t])).text = (of r).text ++ frameText r.isEmpty t.frame := by
  have houtermost : (of r).frames.isEmpty = r.isEmpty := by
    cases r <;> simp [of]
  rw [of_append, text, framesText, houtermost]
  rfl

/-- The text of a location is the path that a listing writes for its route. -/
theorem text_of {r : Route} (h : ∀ name, .key name ∈ r → name ≠ "") :
    (of r).text = Route.text r := by
  -- by induction from the inside out, which is how a location is written
  induction r using List.reverseRecOn with
  | nil => rfl
  | append_singleton r t ih =>
    have houter : ∀ name, .key name ∈ r → name ≠ "" :=
      fun name hname => h name (List.mem_append_left _ hname)
    have hlisted : Route.text (r ++ [t]) = Route.textFrom (Route.text r) [t] :=
      Segment.textFrom_append "" r [t]
    rw [text_of_append, ih houter, hlisted]
    cases t with
    | key name =>
      show Route.text r ++ ((if r.isEmpty then "" else ".") ++ name) =
        Data.keyRoute (Route.text r) name
      rw [Data.keyRoute]
      by_cases hempty : r = []
      · -- the outermost name has no point in front
        subst hempty
        simp [Route.text, Route.textFrom]
      · have htext : Route.text r ≠ "" := (Route.text_eq_empty_iff houter).not.mpr hempty
        simp [hempty, htext, String.append_assoc]
    | index i =>
      show Route.text r ++ s!"[{i}]" = s!"{Route.text r}[{i}]"
      simp [toString, String.append_assoc]

end Location

/-! ## §2 Segments -/

namespace Segment

variable {segments : List Segment}

/-- A route of segments that can be written can be written. -/
theorem isWritable_route (h : ∀ s ∈ segments, s.IsWritable) :
    Route.IsWritable (route segments) := by
  intro name hname
  obtain ⟨s, hs, hstep⟩ := List.mem_flatMap.mp hname
  have hsame : name = s.name := by simpa [steps] using hstep
  exact hsame ▸ (h s hs).1

/-- A route is written in one way. Where its names can be written and its indices are not larger
    than can be read, the location that its steps lead to is written as a listing writes the path of
    the leaf at its end; and what is written is read back as the segments of the route. -/
theorem readRoute_renderings (hne : segments ≠ []) (h : ∀ s ∈ segments, s.IsWritable) :
    ∃ path,
      (∀ d l, Data.at? (route segments) d = some l → l.isScalar = true →
        (path, Data.leafText l) ∈ (Data.leaves d).entries) ∧
      path = Route.text (route segments) ∧
      ((route segments).foldl Location.enter .outside).text = path ∧
      readRoute path = .ok segments := by
  refine ⟨_, fun d l hat hl => Data.mem_leaves_of_at? hat hl, rfl, ?_, readRoute_text hne h⟩
  rw [Location.foldl_enter]
  exact Location.text_of fun name hname => (isWritable_route h name hname).1

/-- The name of the first server. -/
theorem readRoute_renderings_server :
    let segments : List Segment := [⟨"servers", some 0⟩, ⟨"name", none⟩]
    (∀ s ∈ segments, s.IsWritable) ∧
      ((route segments).foldl Location.enter .outside).text = "servers[0].name" ∧
      readRoute "servers[0].name" = .ok segments := by
  intro segments
  have hwritable : ∀ s ∈ segments, s.IsWritable := by
    unfold segments IsWritable
    decide
  obtain ⟨path, -, rfl, hlocation, hread⟩ := readRoute_renderings (by simp [segments]) hwritable
  exact ⟨hwritable, hlocation, hread⟩

end Segment

end Testbed
