import OffsetService.Bytes
import OffsetService.Identity
import OffsetService.Traced

/-!
# Deliveries

What an archive gives when it is asked for a database is a `Delivery`: the bytes that it wrote, and
a fault if it failed after writing them. An archive may answer each request differently, so it is a
function of the number of requests before.
-/

namespace OffsetService

/-- The bytes that an archive wrote, and the fault with which it then failed. -/
structure Delivery where
  events : List Event
  written : Bytes
  fault : Option Fault

/-- An archive: what it delivers for an identity, after so many earlier requests. -/
abbrev Source := Nat → Identity → Delivery

namespace Delivery

/-- A delivery of these bytes. -/
def complete (bytes : Bytes) : Delivery := ⟨[], bytes, none⟩

/-- A delivery that broke off after these bytes. -/
def broken (bytes : Bytes) (fault : Fault) : Delivery := ⟨[], bytes, some fault⟩

end Delivery

end OffsetService
