import Mathlib.Algebra.GroupWithZero.Nat

namespace HilLab.Rtl.Common

/-- The two synchroniser flip-flops; input samples are digital here. -/
structure Sync2ff (W : Nat) where
  first : BitVec W
  syncReg : BitVec W

variable {W : Nat}

def Sync2ff.reset : Sync2ff W := { first := 0, syncReg := 0 }

def Sync2ff.step (s : Sync2ff W) (asyncIn : BitVec W) : Sync2ff W :=
  { first := asyncIn, syncReg := s.first }

def Sync2ff.bit (s : Sync2ff W) (k : Nat) : Bool := s.syncReg.getLsbD k

def timebaseStep (timestamp : BitVec 64) : BitVec 64 := timestamp + 1

/-- The buses of the core carry the phases u, v and w. -/
instance phases_neZero : NeZero 3 := ⟨by decide⟩

end HilLab.Rtl.Common
