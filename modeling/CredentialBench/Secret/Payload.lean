import CredentialBench.Digest.Sha256
import CredentialBench.Json.Value
import CredentialBench.Secret.Key
import CredentialBench.Text.Utf8

/-!
# Secret payloads

What a read serves is a function of the key and the version alone, so a driver can tell which
version it was served. Every text names the service and the version, joined by `-v`; the digest of
a trust bundle is taken of exactly that name.
-/

namespace CredentialBench.Secret

open Json

/-- A service at a version. -/
def tag (service : String) (version : Positive) : String := service ++ "-v" ++ version.text

/-- The digest that stands for a trusted authority's fingerprint. -/
def fingerprint (service : String) (version : Positive) : String :=
  Digest.Sha256.hex (Text.Utf8.bytes (tag service version))

/-- The text that stands for the certificates of the trusted authorities. -/
def bundle (service : String) (version : Positive) : String :=
  "-----BEGIN CERTIFICATE-----\nSMOKE-" ++ tag service version ++ "\n-----END CERTIFICATE-----"

/-- The data of a secret at a version, without an envelope. -/
def data (key : Key) (version : Positive) : Value :=
  match key.item with
  | .secretId => .object [("secret_id", .string ("synced-secret-id-" ++ tag key.service version))]
  | .eab => .object [
      ("hmac", .string ("synced-hmac-" ++ tag key.service version)),
      ("kid", .string ("synced-kid-" ++ tag key.service version))]
  | .httpResponderHmac =>
    .object [("hmac", .string ("synced-responder-hmac-" ++ tag key.service version))]
  | .trust => .object [
      ("ca_bundle_pem", .string (bundle key.service version)),
      ("trusted_ca_sha256", .array [.string (fingerprint key.service version)])]

/-- The data in the envelope of a versioned key-value store. -/
def payload (key : Key) (version : Positive) : Value :=
  .object [("data", .object [("data", data key version)])]

/-- The token that every login is given. -/
def clientToken : String := "mock-client-token"

/-- What a login answers. -/
def loginAnswer : Value := .object [("auth", .object [("client_token", .string clientToken)])]

/-- What a question for the store's health answers. -/
def healthAnswer : Value := .object [("initialized", .boolean true), ("sealed", .boolean false)]

end CredentialBench.Secret
