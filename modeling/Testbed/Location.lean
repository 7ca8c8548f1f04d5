/-!
# Locations

Where in a document a walk has come to: a frame for every map and list that is open, with the
field or the index that is looked at. A location is written as a route, `spec.instances[0].name`.
-/

namespace Testbed

/-- An open map with its current field, or an open list with its current index. -/
inductive Frame where
  | field (name : Option String)
  | index (position : Option Nat)
deriving DecidableEq, Repr

/-- The open frames, the innermost first. -/
structure Location where
  frames : List Frame
deriving DecidableEq, Repr

namespace Location

/-- Outside of everything. -/
def outside : Location := ⟨[]⟩

/-- How many frames are open. -/
def depth (l : Location) : Nat := l.frames.length

/-- Opens a map. -/
def openMap (l : Location) : Location := ⟨.field none :: l.frames⟩

/-- Opens a list. -/
def openList (l : Location) : Location := ⟨.index none :: l.frames⟩

/-- Leaves the innermost frame. -/
def close (l : Location) : Location := ⟨l.frames.tail⟩

/-- Moves to a field of the innermost map; inside a list nothing moves. -/
def atField (name : String) (l : Location) : Location :=
  match l.frames with
  | .field _ :: outer => ⟨.field (some name) :: outer⟩
  | _ => l

/-- Moves to an index of the innermost list; inside a map nothing moves. -/
def atIndex (position : Nat) (l : Location) : Location :=
  match l.frames with
  | .index _ :: outer => ⟨.index (some position) :: outer⟩
  | _ => l

/-- The text of a frame; a field that is not the outermost frame is set off by a dot. -/
def frameText (outermost : Bool) : Frame → String
  | .field name => (if outermost then "" else ".") ++ name.getD ""
  | .index (some i) => s!"[{i}]"
  | .index none => ""

/-- The text of frames, the innermost first. -/
def framesText : List Frame → String
  | [] => ""
  | f :: outer => framesText outer ++ frameText outer.isEmpty f

/-- The route to the location. -/
def text (l : Location) : String := framesText l.frames

end Location

end Testbed
