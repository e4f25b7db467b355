import NwcMobile.Host

/-!
The import of an application's legacy connections into the registry.
-/

namespace NwcMobile

open Program Prog

/-- One trusted authorization with its original creation time and usage. -/
structure LegacyConnectionImport where
  connection : NewConnection
  createdAt : UnixTimestamp
  budgetUsedSat : Nat

def LegacyConnectionImport.isImportOf (legacy : LegacyConnectionImport)
    (active : ActiveConnection) : Bool :=
  active.id == legacy.connection.id && active.clientPubkey == legacy.connection.clientPubkey &&
    active.walletServicePubkey == legacy.connection.walletServicePubkey &&
    active.relays == legacy.connection.relays && active.policy == legacy.connection.policy &&
    active.encryption == legacy.connection.encryption && active.createdAt == legacy.createdAt &&
    active.expiresAt == legacy.connection.expiresAt

structure LegacyMigrationResult where
  revokedConnectionIds : List ConnectionId
  revokedClientPubkeys : List PublicKey
deriving DecidableEq

/-- `migrate_legacy_batch`, with the tombstones found so far in `result`. -/
def migrateLegacyBatch : List LegacyConnectionImport → LegacyMigrationResult →
    HostProg (Except RegistryError LegacyMigrationResult)
  | [], result => pure (.ok result)
  | legacy :: rest, result => do
    let stored ← registry (.loadConnection legacy.connection.id)
    match stored with
    | .error error => pure (.error error)
    | .ok none => do
      let now ← clockNow
      let imported ← registry (.importConnection legacy.connection legacy.createdAt
        legacy.budgetUsedSat now)
      match imported with
      | .error error => pure (.error error)
      | .ok _ => migrateLegacyBatch rest result
    | .ok (some (.active active)) =>
      if legacy.isImportOf active then migrateLegacyBatch rest result
      else pure (.error .corruptData)
    | .ok (some (.tombstoned _)) =>
      migrateLegacyBatch rest
        { revokedConnectionIds := result.revokedConnectionIds ++ [legacy.connection.id]
          revokedClientPubkeys := result.revokedClientPubkeys ++ [legacy.connection.clientPubkey] }

end NwcMobile
