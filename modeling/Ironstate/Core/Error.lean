/-!
# Restore errors

`error.rs`. A boxed decode error is its message.
-/

namespace Ironstate

/-- `enum RestoreError`. -/
inductive RestoreError where
  | newerThanBinary (found supports : Nat)
  | unknownVersion (found : Nat)
  | decode (version : Nat) (source : String)
  deriving DecidableEq, Repr

end Ironstate
