import Mathlib.Algebra.GroupWithZero.Nat
import Mathlib.Data.Nat.Cast.Defs

/-!
# Instances under a name

What the numerals and the texts of the definitions rest on. An instance that is a constant keeps a
definition free of auxiliary proofs, so that it reads the same in whatever order the modules are
loaded.
-/

namespace WorldZk.NamedInstances

scoped instance two_atLeastTwo : Nat.AtLeastTwo 2 := ⟨by decide⟩

scoped instance three_atLeastTwo : Nat.AtLeastTwo 3 := ⟨by decide⟩

scoped instance four_atLeastTwo : Nat.AtLeastTwo 4 := ⟨by decide⟩

scoped instance five_atLeastTwo : Nat.AtLeastTwo 5 := ⟨by decide⟩

scoped instance two_neZero : NeZero 2 := ⟨by decide⟩

scoped instance text_lawfulBEq : LawfulBEq (List Char) := inferInstance

end WorldZk.NamedInstances
