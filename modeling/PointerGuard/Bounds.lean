import PointerGuard.Config
import PointerGuard.Violation

namespace PointerGuard

/-- `width` bytes at `ptr` lie in `[base, bound)`. -/
def InBounds (ptr width base bound : Word) : Prop :=
  base.toNat ≤ ptr.toNat ∧ ptr.toNat + width.toNat ≤ bound.toNat

instance (ptr width base bound : Word) : Decidable (InBounds ptr width base bound) :=
  inferInstanceAs (Decidable (_ ∧ _))

def spatialCheck (lenient : Leniency) (ptr width base bound : Word) : Except Violation Unit :=
  if InBounds ptr width base bound ∨ (lenient.ignoreMissing ∧ base = 0) ∨
      (lenient.allowZeroWidth ∧ width = 0) then
    .ok ()
  else .error (.outOfBounds ptr base bound width)

def callCheck (lenient : Leniency) (ptr base bound : Word) : Except Violation Unit :=
  if (base = bound ∧ ptr = base) ∨ (lenient.ignoreMissing ∧ base = 0) then .ok ()
  else .error (.invalidCallTarget ptr base bound)

/-- The bounds common to two pairs of bounds. -/
def shrinkBounds (new old : Word × Word) : Word × Word :=
  (max new.1 old.1, min new.2 old.2)

end PointerGuard
