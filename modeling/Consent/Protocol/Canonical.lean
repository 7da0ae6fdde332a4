import Consent.Repository.RegistryText

/-!
Canonical texts other than those of the registry, octet by octet: the key under which the
client caches a reply (`consent/client.cc`), and the scope of a cleanup listing
(`common/cleanup_cursor.cc`).
-/
namespace Consent.Canonical
open Wire (octets)
open RegistryText (Text Fields part)

/-! ### The key of a cached reply -/

/-- Fields of a request that do not matter for its reply. -/
def ignored : List Text := ["id", "client_request_id", "operation_id", "deadline_ms"].map octets

def cacheKey (message : Fields) : Text :=
  message.toList.foldl (fun key field =>
    if ignored.contains field.1 then key else key ++ part field.1 ++ part field.2) []

/-! ### The scope of a cleanup listing -/

structure Context where
  holder : Text
  «instance» : Text
  subject : Text
  profile : Text
  reconcile : Bool
  deriving DecidableEq

def scopeInput (c : Context) : Text :=
  [c.holder, c.instance, c.subject, c.profile].foldl (fun input field => input ++ part field) [] ++
    octets (if c.reconcile then "1" else "0")

/-- `CleanupScope`, with the hexadecimal digest of a text. -/
def cleanupScope (sha256 : Text → String) (c : Context) : String := sha256 (scopeInput c)

end Consent.Canonical
