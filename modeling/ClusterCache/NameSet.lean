/-
# Sets of cache names

A node tells the others which caches it holds by sending the set of their names.  A set keeps its
names in the order of their bytes, so one set has one listing.  `NameSet.addAndRemove` makes two
changes at once: it adds first, so a name that is both added and removed ends up absent.
-/

import Std.Data.TreeSet
import ClusterCache.Text.Outline

namespace ClusterCache

/-- A finite set of names. -/
structure NameSet where
  names : Std.TreeSet String

namespace NameSet

/-- The set without names. -/
def empty : NameSet := ⟨∅⟩

/-- The set of the names in a list; a name that comes twice counts once. -/
def ofList (names : List String) : NameSet := ⟨names.foldl (fun s n => s.insert n) ∅⟩

/-- The names, in the order of their bytes. -/
def toList (s : NameSet) : List String := s.names.toList

/-- The number of names. -/
def size (s : NameSet) : Nat := s.names.size

/-- Whether the set has no names. -/
def isEmpty (s : NameSet) : Bool := s.names.isEmpty

/-- Whether a name is in the set. -/
def contains (s : NameSet) (name : String) : Bool := s.names.contains name

/-- Adds a name; tells whether it was absent. -/
def add (s : NameSet) (name : String) : Bool × NameSet :=
  (!s.contains name, ⟨s.names.insert name⟩)

/-- Removes a name; tells whether it was present. -/
def remove (s : NameSet) (name : String) : Bool × NameSet :=
  (s.contains name, ⟨s.names.erase name⟩)

/-- Adds one name and then removes another; tells whether either step changed the set. -/
def addAndRemove (s : NameSet) (added removed : String) : Bool × NameSet :=
  let (wasAbsent, s) := s.add added
  let (wasPresent, s) := s.remove removed
  (wasAbsent || wasPresent, s)

/-- The names as texts in braces. -/
def outline (s : NameSet) : Text.Outline := .set (s.toList.map .text)

end NameSet
end ClusterCache
