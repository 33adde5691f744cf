import Mathlib.Logic.Function.Basic

/-!
The images of `sdvbs_common.h`.
-/

namespace BlackboxProfiling.SdVbs

structure I2D where
  width : Nat
  height : Nat
  data : Nat → Int

/-- `subsref`: rows one after the other. -/
def I2D.subsref (image : I2D) (i j : Nat) : Int := image.data (i * image.width + j)

structure F2D (V : Type) where
  width : Nat
  height : Nat
  data : Nat → V

def F2D.subsref {V : Type} (image : F2D V) (i j : Nat) : V := image.data (i * image.width + j)

end BlackboxProfiling.SdVbs
