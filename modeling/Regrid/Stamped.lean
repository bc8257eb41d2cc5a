/-
  Regrid.Stamped — a value kept with the version it was built for.

  The value answers every read until the live version passes its stamp; then the next
  read builds it anew. A live version below the stamp means that the source of versions
  went back, and is refused. `unset` is the stamp of a cache that holds nothing, and it
  is older than any version a mesh starts from; forgetting the value brings it back.

  `probe` decides what a read does, `store` and `forget` are the two changes, and `read`
  puts them together over any state that keeps such a cache (`Keeper`). The stamp is the
  version read before the build, whatever the build does to the version. A build that
  fails, and a refused read, leave the cache as it was.
-/

import Regrid.Fault

namespace Regrid

structure Stamped (α : Type) where
  value : Option α
  stamp : Int
  builds : Nat
  deriving DecidableEq, Repr

namespace Stamped

/-- The stamp of nothing. -/
def unset : Int := -1

def empty {α : Type} : Stamped α := ⟨none, unset, 0⟩

/-- What a read at a live version does. -/
inductive Probe (α : Type) where
  | refuse
  | answer (v : α)
  | build
  deriving DecidableEq, Repr

variable {α S : Type}

def probe (c : Stamped α) (live : Int) : Probe α :=
  if live < c.stamp then .refuse
  else
    match c.value with
    | none => .build
    | some v => if c.stamp < live then .build else .answer v

def store (c : Stamped α) (live : Int) (v : α) : Stamped α := ⟨some v, live, c.builds + 1⟩

def forget (c : Stamped α) : Stamped α := { c with value := none, stamp := unset }

/-- How a state keeps a cache: where it is, what versions and builds it, what is noted. -/
structure Keeper (S α : Type) where
  cache : S → Stamped α
  put : Stamped α → S → S
  live : S → Int
  build : EStateM Fault S α
  owner : String
  onRefuse : Fault → S → S := fun _ s => s
  onBuild : Int → S → S := fun _ s => s

/-- The value for the live version. A refusal shows both versions, and they are taken to be short enough to be
    written (`Fault.raised`): versions count changes. -/
def read (k : Keeper S α) : EStateM Fault S α := do
  let s ← get
  let live := k.live s
  match (k.cache s).probe live with
  | .answer v => return v
  | .refuse =>
    let fault := Fault.stale live (k.cache s).stamp k.owner
    modify (k.onRefuse fault)
    throw fault
  | .build =>
    let v ← k.build
    modify fun t => k.onBuild live (k.put ((k.cache t).store live v) t)
    return v

end Stamped

end Regrid
