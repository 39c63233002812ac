import Matchmaker.Decimal.Digits
import Matchmaker.Digest.Sha256
import Matchmaker.Queue.Attribute

/-!
What makes two jobs wait in one queue: equal definitions. A definition is identified by the digest
of its canonical text, in which every text carries its length and an absent set differs from an
empty one.
-/
namespace Matchmaker

structure Definition where
  ownerIdentity : String
  ownerGroup : String
  setup : String
  /-- In seconds. -/
  cpuTime : Nat
  /-- The declared sets; an attribute without one accepts any value. -/
  values : Attribute.Table (Option TextSet)
  deriving DecidableEq

namespace Definition

/-- A text behind its length in UTF-8 bytes. -/
def measured (s : String) : List Char := Decimal.natChars s.utf8ByteSize ++ ':' :: s.toList

def canonicalField (name : String) (content : List Char) : List Char :=
  name.toList ++ '=' :: content ++ [';']

def canonicalSet : Option TextSet → List Char
  | none => ['*']
  | some values => '[' :: values.toList.flatMap (fun value => measured value ++ [',']) ++ [']']

def canonical (d : Definition) : List Char :=
  canonicalField "ownerIdentity" (measured d.ownerIdentity)
    ++ canonicalField "ownerGroup" (measured d.ownerGroup)
    ++ canonicalField "setup" (measured d.setup)
    ++ canonicalField "cpuTime" (Decimal.natChars d.cpuTime)
    ++ d.values.entries.flatMap fun (a, declared) => canonicalField a.tag (canonicalSet declared)

def fingerprint (d : Definition) : String := Digest.sha256Text (String.ofList d.canonical)

end Definition

end Matchmaker
