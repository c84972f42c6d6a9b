/-!
Upper bounds on what is read. An input beyond a bound is refused, never cut short.
-/

namespace Linkage

/-- The largest archive, the most entries in one, and the largest single file, all in bytes but for
the entries. -/
structure Limits where
  archiveBytes : Nat := 512 * 1024 * 1024
  archiveEntries : Nat := 200000
  entryBytes : Nat := 64 * 1024 * 1024
  deriving DecidableEq, Repr

end Linkage
