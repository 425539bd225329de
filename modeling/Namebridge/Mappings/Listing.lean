import Namebridge.Mappings
import Namebridge.Text.Utf8

/-!
# Listings

A table written out to be looked at: a line `key->value` for each entry, in the order of the bytes
of the keys. The listing does not depend on the order in which the entries were inserted.
-/

namespace Namebridge.NameTable

/-- The entries of a table in the order of the bytes of their keys. -/
def sortedEntries (t : NameTable) : List (String × String) :=
  t.entries.mergeSort fun a b => Utf8.le a.1 b.1

/-- The line of an entry. -/
def listingLine (entry : String × String) : String := entry.1 ++ "->" ++ entry.2 ++ "\n"

/-- The listing of a table. -/
def listing (t : NameTable) : String := String.join (t.sortedEntries.map listingLine)

end Namebridge.NameTable
