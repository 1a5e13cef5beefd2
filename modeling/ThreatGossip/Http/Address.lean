/-!
Where a peer takes sync messages.
-/
namespace ThreatGossip.Http

def syncPath : String := "/federation/sync"

/-- The URL for sync messages at an address: slashes at its end do not count, and without a scheme
it is plain HTTP. -/
def syncUrl (address : String) : String :=
  let base := (address.toList.reverse.dropWhile (· == '/')).reverse
  let known := "http://".toList.isPrefixOf base || "https://".toList.isPrefixOf base
  (if known then "" else "http://") ++ String.ofList base ++ syncPath

end ThreatGossip.Http
