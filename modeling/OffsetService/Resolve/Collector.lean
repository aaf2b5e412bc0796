import OffsetService.Query

/-!
# Collecting addresses

A collector holds the names that a query asks for and the addresses found so far. The first address
offered for a wanted name stays; it is complete when every wanted name has one.
-/

namespace OffsetService

/-- Wanted names, and the addresses found for some of them. -/
structure Collector where
  wanted : NameSet
  found : SymbolMap

namespace Collector

/-- Nothing found yet. -/
def start (wanted : NameSet) : Collector := ⟨wanted, NameMap.empty⟩

/-- The collector after an address is offered for a name. -/
def offer (c : Collector) (name : String) (address : UInt64) : Collector :=
  if c.wanted.contains name then
    { c with found := c.found.addNew name address.toInt64 }
  else c

/-- Whether every wanted name has an address. -/
def isComplete (c : Collector) : Bool :=
  c.found.size == c.wanted.size

end Collector

end OffsetService
