/-
# Snapshots

A snapshot holds the transforms in force by their source topics.  It is never altered,
only replaced by another one, so whoever holds it goes on seeing it unchanged.

The transforms are chosen from definitions in order of preference: for each source
topic the first one that is usable.  A definition is usable if its version is positive
and fits a word, and if its expression compiles; one that is not leaves the topic to
the next.
-/
import Reshape.Keyed
import Reshape.Store
import Reshape.Transform

namespace Reshape

namespace Transform

/-- The transform of a definition with a given version. -/
def ofDefinition (d : Definition) (version : UInt32) (p : Expression.Program) : Transform :=
  ⟨d.id, d.source, d.target, version, d.expression, p⟩

/-- The transform of a definition, if it is usable. -/
def ofDefinition? (engine : Expression.Engine) (d : Definition) : Option Transform :=
  if 1 ≤ d.version ∧ d.version.toInt ≤ Word.maxUInt32 then
    match engine d.expression with
    | .ok p => some (ofDefinition d (.ofInt d.version.toInt) p)
    | .error _ => none
  else none

end Transform

/-- The transforms in force by their source topics. -/
abbrev Snapshot := Keyed Transform

namespace Snapshot

/-- The snapshot with a transform added, unless its source topic has one already. -/
def offer (s : Snapshot) (t : Transform) : Snapshot :=
  if s.contains t.source then s else s.insert t.source t

/-- The first transform of each source topic. -/
def ofTransforms (ts : List Transform) : Snapshot := ts.foldl offer .empty

/-- The transforms chosen from definitions in order of preference. -/
def build (engine : Expression.Engine) (ds : List Definition) : Snapshot :=
  ofTransforms (ds.filterMap (Transform.ofDefinition? engine))

/-- The transforms chosen from what a store holds for a workspace. -/
def load (engine : Expression.Engine) (workspace? : Option String) (s : Store) :
    Except Store.Fault Snapshot :=
  (s.findActive workspace?).map (build engine)

/-- The source topics in ascending order. -/
def topics (s : Snapshot) : List String := s.names

end Snapshot

end Reshape
