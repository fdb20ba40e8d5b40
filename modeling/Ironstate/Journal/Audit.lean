import Ironstate.Aggregate.StableHash
import Ironstate.Journal.Replay

/-!
# Audit digests

`audit_digest` of `stablehash.rs` and `replay_hash` of `replay.rs`. The hash is third-party code, a
function of the bytes. That a state has a `StableHash` impl is a value for it in the syntax of
`Ironstate.Aggregate.StableHash`.
-/

namespace Ironstate

open StableHash (Decls Target Ty Val CanonicalEncoder)

variable {A : AggregateRules} {decls : Decls} {target : Target} {ty : Ty}
variable (blake3 : List UInt8 → Vector UInt8 32)

/-- `struct AuditDigest`. -/
structure AuditDigest where
  bytes : Vector UInt8 32
  deriving DecidableEq

/-- `audit_digest`. -/
def auditDigest (value : Val decls target ty) : AuditDigest :=
  let enc := value.encode CanonicalEncoder.new
  ⟨blake3 enc.bytes⟩

/-- `replay_hash`. -/
def replayHash (stable : A.State → Val decls target ty) (snapshot : Snapshot A)
    (events : List (VersionedEvent A)) : Except RestoreError AuditDigest :=
  match replay snapshot events with
  | .error error => .error error
  | .ok aggregate => .ok (auditDigest blake3 (stable aggregate.state))

end Ironstate
