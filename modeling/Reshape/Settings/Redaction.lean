/-
# Redaction

Addresses are shown without the credentials in them: what stands between the scheme
and the last at sign is masked.
-/
import Reshape.Text.Search

namespace Reshape.Settings

open Text (cut cutLast)

/-- What ends the scheme of an address. -/
def schemeEnd : List Char := [':', '/', '/']

/-- What is shown in the place of credentials. -/
def mask : List Char := ['*', '*', '*', ':', '*', '*', '*']

/-- The address with its credentials masked.  An address has credentials if a character
stands between its scheme and its last at sign. -/
def redact (uri : List Char) : List Char :=
  match cut schemeEnd uri with
  | none => uri
  | some (scheme, rest) =>
    match cutLast '@' rest with
    | some (_ :: _, host) => scheme ++ schemeEnd ++ mask ++ '@' :: host
    | _ => uri

/-- `redact` on strings. -/
def redacted (uri : String) : String := String.ofList (redact uri.toList)

end Reshape.Settings
