import Mathlib.Data.List.Basic

/-!
# Signing a sighash on the card

`derive_and_sign` is a generator: it yields one APDU for the card, built from the
derivation path and the sighash's 32 bytes, is resumed with the card's answer, and
decodes that answer into a signature or an error.  A `Command` is such a generator, and
`Command.run` drives it against a card, the function from what is sent to what comes back.

The protobuf messages and the conversions between them and bytes (`try_into` to an APDU,
`decode_and_check`, `Signature::from_compact`, the numbering of `from_i32`) live outside
this development and are the fields of `Codec`.

It is transcribed as written, one command sent and one answer decoded, with each status
of the card mapped to its own result as the source's `match` lists them.
-/

namespace Bitkey.Wca

/-- The errors of `CommandError` that `derive_and_sign` names; `other` is each of the rest,
which only the conversions return. -/
inductive CommandError where
  | keyGenerationFailed
  | generalCommandError
  | unauthenticated
  | unspecifiedCommandError
  | invalidResponse
  | missingMessage
  | other (code : Nat)
deriving DecidableEq, Repr

/-- A generator of the card's commands: it yields bytes to send, and is resumed with the
bytes that came back. -/
inductive Command (α : Type) where
  | done (result : Except CommandError α)
  | yield (apdu : List UInt8) (resume : List UInt8 → Command α)

/-- Drive a command against a card. -/
def Command.run {α : Type} (card : List UInt8 → List UInt8) :
    Command α → Except CommandError α
  | .done result => result
  | .yield apdu resume => (resume (card apdu)).run card

/-- A 32-byte hash. -/
structure Hash32 where
  bytes : List UInt8
  length_eq : bytes.length = 32

/-- `Sighash`. -/
inductive Sighash where
  | legacy (sighash : Hash32)
  | segwitV0 (sighash : Hash32)

/-- `ThirtyTwoByteHash::into_32`. -/
def Sighash.into32 : Sighash → Hash32
  | .legacy sighash | .segwitV0 sighash => sighash

/-- `DeriveAndSignRspStatus`. -/
inductive DeriveAndSignRspStatus where
  | unspecified
  | success
  | derivationFailed
  | error
  | unauthenticated
deriving DecidableEq, Repr

/-- `DeriveKeyDescriptorAndSignCmd`, over the protobuf derivation path `π`. -/
structure DeriveKeyDescriptorAndSignCmd (π : Type) where
  derivationPath : Option π
  hash : List UInt8

/-- `DeriveAndSignRsp`. -/
structure DeriveAndSignRsp where
  status : Int
  signature : List UInt8

/-- `wallet_rsp::Msg`: the answer to this command, or any other. -/
inductive Msg where
  | deriveAndSignRsp (rsp : DeriveAndSignRsp)
  | other

/-- What `derive_and_sign` takes from outside this file, over derivation paths `δ`, their
protobuf form `π`, APDU commands `κ` and signatures `Signature`. -/
structure Codec (δ π κ Signature : Type) where
  derivationPathInto : δ → π
  commandTryInto : DeriveKeyDescriptorAndSignCmd π → Except CommandError κ
  commandInto : κ → List UInt8
  decodeAndCheck : List UInt8 → Except CommandError (Option Msg)
  statusFromI32 : Int → Option DeriveAndSignRspStatus
  signatureFromCompact : List UInt8 → Except CommandError Signature

variable {δ π κ Signature : Type} (W : Codec δ π κ Signature)

/-- The match on the card's message. -/
def signatureOfMsg : Msg → Except CommandError Signature
  | .deriveAndSignRsp ⟨status, signature⟩ =>
    match W.statusFromI32 status with
    | some .success => W.signatureFromCompact signature
    | some .derivationFailed => .error .keyGenerationFailed
    | some .error => .error .generalCommandError
    | some .unauthenticated => .error .unauthenticated
    | some .unspecified => .error .unspecifiedCommandError
    | none => .error .invalidResponse
  | _ => .error .missingMessage

/-- From the card's answer on: `decode_and_check`, then `msg.ok_or(MissingMessage)`. -/
def signatureOfResponse (data : List UInt8) : Except CommandError Signature := do
  let msg ← W.decodeAndCheck data
  let message ← msg.elim (.error .missingMessage) .ok
  signatureOfMsg W message

/-- `derive_and_sign`. -/
def deriveAndSign (sighash : Sighash) (derivationPath : δ) : Command Signature :=
  let sighashSlice := sighash.into32
  match W.commandTryInto ⟨some (W.derivationPathInto derivationPath), sighashSlice.bytes⟩ with
  | .error e => .done (.error e)
  | .ok apdu => .yield (W.commandInto apdu) fun data ↦ .done (signatureOfResponse W data)

end Bitkey.Wca
