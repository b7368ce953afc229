import Mathlib

/-!
# The order of the integers

`Int.instLinearOrder` before any other order on the integers, for the
modules whose definitions compute with it.
-/

namespace MineBot

namespace IntOrder

scoped instance intLinearOrder : LinearOrder Int := Int.instLinearOrder

scoped instance intPreorder : Preorder Int := Int.instLinearOrder.toPreorder

end IntOrder

end MineBot
