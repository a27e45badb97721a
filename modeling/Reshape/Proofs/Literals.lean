/-
# Literals are scalars

A text has literals for null, truth values, numbers and strings, and for nothing else: arrays
and objects are constructed.  So the literals of a tree that a text compiles to are scalars,
at whatever depth they stand (`hasScalarLiterals_of_compileTree`).
-/
import Reshape.Proofs.Parsing
import Reshape.Proofs.Written

namespace Reshape.Expression

namespace Tree

/-- Whether a tree is no literal but that of a scalar. -/
def isWritten : Tree → Bool
  | .literal (.array _) | .literal (.object _) => false
  | _ => true

/-- All literals inside the tree are scalars. -/
def HasScalarLiterals (t : Tree) : Prop := t.all isWritten = true

namespace HasScalarLiterals

variable {t u : Tree}

theorem of_mem_parts (h : t.HasScalarLiterals) (hu : u ∈ t.parts) : u.HasScalarLiterals :=
  (all_iff.1 h).2 u hu

theorem isWritten (h : t.HasScalarLiterals) : t.isWritten = true := (all_iff.1 h).1

end HasScalarLiterals

end Tree

/-- **The literals of a compiled text are scalars.** -/
theorem hasScalarLiterals_of_compileTree {source : String} {t : Tree}
    (h : compileTree source = .ok t) : t.HasScalarLiterals := by
  obtain ⟨here, later, s, -, hrun⟩ := Parser.exists_whole_of_compileTree h
  -- the places of calls do not matter here
  have hpoints : Parser.Points (fun _ => True) (fun t => t.WrittenAt fun _ => True)
      Parser.whole := Parser.points_whole
  have hreports := hpoints ⟨here, later, []⟩ fun _ _ => trivial
  rw [hrun] at hreports
  refine Tree.all_iff_forall_inside.2 fun u hu => ?_
  have hu := hreports.of_ok.1 u hu
  unfold Tree.isWritten
  split
  · exact hu.elim
  · exact hu.elim
  · rfl

end Reshape.Expression
