import Mathlib.Algebra.Ring.Nat
import Mathlib.Tactic.Common

namespace LibRtmp

inductive ErrorCode where
  | ok | io | timeout | protocol | handshake | chunk | amf | unsupported | auth | internal
  deriving DecidableEq, Repr

inductive FrameType where
  | audio | video | script | metadata
  deriving DecidableEq, Repr

def usizeMax : Nat := 2 ^ 64 - 1

def isizeMax : Nat := 2 ^ 63 - 1

def satAdd (a b : Nat) : Nat := min (a + b) usizeMax

theorem sat_add_eq {a b : Nat} (h : a + b ≤ usizeMax) : satAdd a b = a + b :=
  Nat.min_eq_left h

end LibRtmp
