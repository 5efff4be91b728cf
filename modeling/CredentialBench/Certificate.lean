import CredentialBench.Net.Ip

/-!
# Stub certificates

What a stub certificate states. Its key and its signature are of no interest and not kept: nothing
vouches for a stub, it only has to be readable and to carry the right name.
-/

namespace CredentialBench

/-- A name besides the subject's that a certificate is valid for. -/
inductive AlternativeName
  | dns (name : String)
  | ip (address : Net.Ip)
  deriving DecidableEq

/-- The statement of a certificate. -/
structure Certificate where
  commonName : String
  alternativeName : AlternativeName
  /-- The object identifier of the key's algorithm. -/
  keyAlgorithm : String
  /-- From the first to the last moment of its validity. -/
  seconds : Nat
  deriving DecidableEq

/-- Keys on elliptic curves. -/
def Certificate.ellipticCurve : String := "1.2.840.10045.2.1"

/-- The certificate of a name for some days; a name that is an address is stated as one. -/
def Certificate.ofName (name : String) (days : Nat) : Certificate where
  commonName := name
  alternativeName := match Net.Ip.ofText? name with
    | some ip => .ip ip
    | none => .dns name
  keyAlgorithm := ellipticCurve
  seconds := days * 86400

end CredentialBench
