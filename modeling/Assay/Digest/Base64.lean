import Assay.Digest.Sha256

/-!
# Base 64

Bytes as text, three bytes in four characters; and the short name of a command, which is the start
of its digest.
-/

namespace Assay.Digest

def alphabet : List Char :=
  "ABCDEFGHIJKLMNOPQRSTUVWXYZabcdefghijklmnopqrstuvwxyz0123456789+/".toList

def digit (n : Nat) : Char := alphabet.getD (n % 64) '='

/-- The characters of some bytes. -/
def base64 : List UInt8 → List Char
  | a :: b :: c :: rest =>
    let n := a.toNat * 65536 + b.toNat * 256 + c.toNat
    digit (n / 262144) :: digit (n / 4096) :: digit (n / 64) :: digit n :: base64 rest
  | [a, b] =>
    let n := a.toNat * 65536 + b.toNat * 256
    [digit (n / 262144), digit (n / 4096), digit (n / 64), '=']
  | [a] =>
    let n := a.toNat * 65536
    [digit (n / 262144), digit (n / 4096), '=', '=']
  | [] => []

/-- The first eight characters of the digest of a text. -/
def summary (s : String) : String :=
  String.ofList ((base64 (sha256 s.toUTF8.toList)).take 8)

end Assay.Digest
