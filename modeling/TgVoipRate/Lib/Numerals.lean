import Mathlib.Data.Nat.Cast.Defs

/-!
# Numerals

A numeral in a field rests on a proof that it is at least two. Here are the proofs for the numerals
of this development. With names they are the same ones in all definitions, in whatever module; left
to itself each definition would get a proof of its own.
-/

namespace Numerals

instance atLeastTwo_2 : Nat.AtLeastTwo 2 := inferInstance

instance atLeastTwo_3 : Nat.AtLeastTwo 3 := inferInstance

instance atLeastTwo_7 : Nat.AtLeastTwo 7 := inferInstance

instance atLeastTwo_10 : Nat.AtLeastTwo 10 := inferInstance

instance atLeastTwo_99 : Nat.AtLeastTwo 99 := inferInstance

instance atLeastTwo_100 : Nat.AtLeastTwo 100 := inferInstance

instance atLeastTwo_1000 : Nat.AtLeastTwo 1000 := inferInstance

instance atLeastTwo_10000 : Nat.AtLeastTwo 10000 := inferInstance

end Numerals
