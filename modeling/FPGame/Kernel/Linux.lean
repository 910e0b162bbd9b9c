import Mathlib.Data.Int.Notation
import Mathlib.Data.Nat.Notation

/-!
# Kernel constants

The error numbers that the drivers return, and the encoding of ioctl commands.
-/

set_option autoImplicit false

namespace FPGame.Linux

def EBUSY : ℤ := 16
def EFAULT : ℤ := 14
def EINVAL : ℤ := 22

/-- `_IOC(dir, type, nr, size)`; the fields are or-ed without masks. -/
def ioc (dir type nr size : ℕ) : ℕ := dir <<< 30 ||| type <<< 8 ||| nr ||| size <<< 16

end FPGame.Linux
