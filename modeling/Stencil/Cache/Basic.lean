import Stencil.Text.Basic

/-!
# Caches

A cache keeps what has been loaded under the path it was loaded for, and counts
how often it could answer from memory. A load that fails leaves no entry.
-/

namespace Stencil

structure Cache (α : Type) where
  entries : List (Text × α)
  hits : Nat
  misses : Nat

namespace Cache

def empty : Cache α := ⟨[], 0, 0⟩

def find? (cache : Cache α) (path : Text) : Option α :=
  (cache.entries.find? fun entry => entry.1 == path).map (·.2)

def contains (cache : Cache α) (path : Text) : Bool :=
  cache.entries.any fun entry => entry.1 == path

def size (cache : Cache α) : Nat :=
  cache.entries.length

def paths (cache : Cache α) : List Text :=
  cache.entries.map (·.1)

def insert (cache : Cache α) (path : Text) (value : α) : Cache α :=
  { cache with entries := cache.entries.filter (fun entry => entry.1 != path) ++ [(path, value)] }

def hit (cache : Cache α) : Cache α :=
  { cache with hits := cache.hits + 1 }

def miss (cache : Cache α) : Cache α :=
  { cache with misses := cache.misses + 1 }

def get (cache : Cache α) (path : Text) (load : Unit → Except ε α) : Except ε α × Cache α :=
  match cache.find? path with
  | some value => (.ok value, cache.hit)
  | none =>
      match load () with
      | .ok value => (.ok value, cache.miss.insert path value)
      | .error e => (.error e, cache.miss)

def drop (cache : Cache α) (path : Text) : Cache α :=
  { cache with entries := cache.entries.filter fun entry => entry.1 != path }

def clear (cache : Cache α) : Cache α :=
  { cache with entries := [] }

end Cache
end Stencil
