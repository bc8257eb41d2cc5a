/-
  Regrid.Rig.Cache — a stamped cache over a version and a builder laid down beforehand.

  The builder counts its builds, fails when it is told to, and otherwise raises the
  version by a given step and delivers the new version with the count.
-/

import Regrid.Rig

namespace Regrid

structure RigCache where
  cache : Stamped (Int × Int)
  version : Int
  fails : Bool
  bump : Int
  builds : Int

namespace RigCache

def start (version : Int) : RigCache := ⟨Stamped.empty, version, false, 0, 0⟩

def build : EStateM Fault RigCache (Int × Int) := do
  modify fun c => { c with builds := c.builds + 1 }
  if (← get).fails then throw (.scripted "build failed")
  modify fun c => { c with version := c.version + c.bump }
  let c ← get
  return (c.version, c.builds)

def keeper (owner : String) : Stamped.Keeper RigCache (Int × Int) where
  cache := cache
  put s c := { c with cache := s }
  live := version
  build := build
  owner := owner

def read (owner : String) : EStateM Fault RigCache (Int × Int) := Stamped.read (keeper owner)

def forget (c : RigCache) : RigCache := { c with cache := c.cache.forget }

def defaultOwner : String := "cache"

end RigCache

end Regrid
