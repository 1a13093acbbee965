import SolutionGraph.Configuration
import SolutionGraph.Include.Directive

/-!
# Caches of directives

A cache keeps the directives of files that were read before, by the place of the file and the configuration in use. It
holds a limited number of files, and the one that was not asked for the longest goes first. An entry is never renewed: a
cache belongs to an analysis of files that do not change.
-/

namespace SolutionGraph.Include

/-- What an entry of a cache is about. -/
structure CacheKey where
  /-- The file that was read. -/
  path : Path
  /-- The configuration it was read for. -/
  configuration : Option ConfigurationName

instance : BEq CacheKey := ⟨fun a b => a.path.same b.path && a.configuration == b.configuration⟩

/-- The directives of files that were read before. -/
structure DirectiveCache where
  /-- How many files the cache holds at most. -/
  capacity : Nat
  /-- The entries, the one that was used last first. -/
  entries : List (CacheKey × List Directive)

namespace DirectiveCache

/-- How many files a cache holds if nothing is said about it. -/
def defaultCapacity : Nat := 4096

/-- A cache that holds nothing yet. -/
def empty (capacity : Nat) : DirectiveCache := ⟨capacity, []⟩

/-- How many files are in the cache. -/
def size (cache : DirectiveCache) : Nat := cache.entries.length

/-- The directives under a key. -/
def get? (cache : DirectiveCache) (key : CacheKey) : Option (List Directive) :=
  (cache.entries.find? fun e => e.1 == key).map Prod.snd

/-- The cache with an entry made the one that was used last. -/
def touch (cache : DirectiveCache) (key : CacheKey) : DirectiveCache :=
  let (used, others) := cache.entries.partition fun e => e.1 == key
  { cache with entries := used ++ others }

/-- The cache with the directives of a file, at the cost of the entry that was not used the longest. -/
def insert (cache : DirectiveCache) (key : CacheKey) (directives : List Directive) : DirectiveCache :=
  let others := cache.entries.filter fun e => !(e.1 == key)
  { cache with entries := (key, directives) :: others.take (cache.capacity - 1) }

end DirectiveCache

end SolutionGraph.Include
