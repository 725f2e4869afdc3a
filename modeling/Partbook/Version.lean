/-!
The version of this library.
-/
namespace Partbook

structure Version where
  major : Nat
  minor : Nat
  patch : Nat
deriving DecidableEq, Repr

def Version.text (version : Version) : String :=
  toString version.major ++ "." ++ toString version.minor ++ "." ++ toString version.patch

def version : Version := ⟨0, 1, 0⟩

end Partbook
