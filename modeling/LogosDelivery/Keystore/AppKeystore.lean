import LogosDelivery.Lib.Json

/-! # The keystore of membership credentials

`waku_keystore/keystore.nim` and `utils.nim`: one file holds the JSON text of a keystore, whose
credentials are keyfiles under the hashes of the contracts and tree indexes of their memberships.
An addition reads the file, and writes it anew after it was moved to a backup.  In each call one of
the file operations can fail.

Texts are lists of characters.  SHA-256 and the encryption of the keyfiles are parameters.  Where an
error quotes an exception, its text ends before the quotation. -/

namespace LogosDelivery.Keystore

open Lib

abbrev Text := List Char

structure AppInfo where
  application : Text
  appIdentifier : Text
  version : Text

@[ext]
structure MembershipContract where
  chainId : Text
  address : Text
deriving DecidableEq

structure IdentityCredential where
  idTrapdoor : List (Fin 256)
  idNullifier : List (Fin 256)
  idSecretHash : List (Fin 256)
  idCommitment : List (Fin 256)
deriving DecidableEq

structure KeystoreMembership where
  membershipContract : MembershipContract
  treeIndex : ℕ
  identityCredential : IdentityCredential
  userMessageLimit : ℕ
deriving DecidableEq

inductive AppKeystoreErrorKind where
  | keystoreOsError
  | keystoreJsonKeyError
  | keystoreJsonValueMismatchError
  | keystoreJsonError
  | keystoreKeystoreDoesNotExist
  | keystoreCreateKeyfileError
  | keystoreReadKeyfileError
  | keystoreCredentialNotFoundError
deriving DecidableEq

structure AppKeystoreError where
  kind : AppKeystoreErrorKind
  msg : String
deriving DecidableEq

/-- The text that is hashed: the chain id, the address and the tree index, one after the other. -/
def keyText (m : KeystoreMembership) : Text :=
  m.membershipContract.chainId ++ m.membershipContract.address ++ Nat.toDigits 10 m.treeIndex

/-! ### The bytes of a credential -/

def bytesJson (bytes : List (Fin 256)) : Json := .arr (bytes.map fun b : Fin 256 => .int b.val)

/-- `%credential`. -/
def KeystoreMembership.toJson (credential : KeystoreMembership) : Json :=
  .obj [
    ("membershipContract".toList, .obj [
      ("chainId".toList, .str credential.membershipContract.chainId),
      ("address".toList, .str credential.membershipContract.address)]),
    ("treeIndex".toList, .int credential.treeIndex),
    ("identityCredential".toList, .obj [
      ("idTrapdoor".toList, bytesJson credential.identityCredential.idTrapdoor),
      ("idNullifier".toList, bytesJson credential.identityCredential.idNullifier),
      ("idSecretHash".toList, bytesJson credential.identityCredential.idSecretHash),
      ("idCommitment".toList, bytesJson credential.identityCredential.idCommitment)]),
    ("userMessageLimit".toList, .int credential.userMessageLimit)]

def encode (credential : KeystoreMembership) : Text := credential.toJson.toUgly

/-- A number from `2 ^ 63` on is no `int64`. -/
def getBiggestInt : Json → ℕ
  | .int n => if n < 2 ^ 63 then n else 0
  | _ => 0

instance keyfileByteNeZero : NeZero (256 : ℕ) := ⟨by decide⟩

def toByteSeq (node : Json) : List (Fin 256) :=
  node.getElems.map fun item => Fin.ofNat 256 (getBiggestInt item)

def toKeystoreMembership (node : Json) : Option KeystoreMembership := do
  let contract ← node.field? "membershipContract".toList
  let credential ← node.field? "identityCredential".toList
  let chainId ← contract.field? "chainId".toList
  let address ← contract.field? "address".toList
  let treeIndex ← node.field? "treeIndex".toList
  let idTrapdoor ← credential.field? "idTrapdoor".toList
  let idNullifier ← credential.field? "idNullifier".toList
  let idSecretHash ← credential.field? "idSecretHash".toList
  let idCommitment ← credential.field? "idCommitment".toList
  let userMessageLimit ← node.field? "userMessageLimit".toList
  return {
    membershipContract := ⟨chainId.getStr, address.getStr⟩
    treeIndex := getBiggestInt treeIndex
    identityCredential := ⟨toByteSeq idTrapdoor, toByteSeq idNullifier, toByteSeq idSecretHash,
      toByteSeq idCommitment⟩
    userMessageLimit := getBiggestInt userMessageLimit }

def decode (encodedCredential : Text) : Option KeystoreMembership :=
  (Json.parseJson encodedCredential).bind toKeystoreMembership

/-! ### The libraries -/

/-- A numeral and a contract address. -/
def MembershipContract.Valid (contract : MembershipContract) : Prop :=
  (contract.chainId ≠ [] ∧ ∀ c ∈ contract.chainId, c.isDigit = true) ∧
    ∃ hex, contract.address = '0' :: 'x' :: hex ∧ hex.length = 40 ∧
      ∀ c ∈ hex, (Json.hexValue c).isSome = true

/-- The texts of SHA-256; on what is hashed here it has no collisions and no spaces. -/
structure Sha256 where
  digest : Text → Text
  injective : ∀ m m' : KeystoreMembership, m.membershipContract.Valid →
    m'.membershipContract.Valid → digest (keyText m) = digest (keyText m') → keyText m = keyText m'
  noSpace : ∀ m : KeystoreMembership, m.membershipContract.Valid → ' ' ∉ digest (keyText m)

/-- Keyfiles, made with random draws of the kind `ρ`; one opens with its password to its secret. -/
structure KeyfileLibrary (ρ : Type) where
  createKeyFileJson : Text → Text → ρ → Except String Json
  decodeKeyFileJson : Json → Text → Except String Text
  decode_create : ∀ secret password draw keyfile,
    createKeyFileJson secret password draw = .ok keyfile →
      decodeKeyFileJson keyfile password = .ok secret
  noSpace : ∀ secret password draw keyfile,
    createKeyFileJson secret password draw = .ok keyfile → keyfile.NoSpace

def KeystoreMembership.hash (sha256 : Sha256) (m : KeystoreMembership) : Text :=
  sha256.digest (keyText m)

/-! ### The files -/

/-- The keystore and its backup. -/
structure Files where
  keystore : Option Text
  backup : Option Text

/-- The file operations of a call. -/
inductive FileOp where
  | openToCreate
  | createPermissions
  | createWrite
  | createSeparator
  | openToLoad
  | moveToBackup
  | openToSave
  | savePermissions
  | saveWrite
  | saveSeparator
  | removeUnsaved
  | restoreBackup
  | removeBackup
deriving DecidableEq

/-- The operation of a call that fails; a write leaves `written` characters of its text. -/
structure Fault where
  op : FileOp
  written : ℕ
deriving DecidableEq

section

variable (fault : Option Fault)

def fails (op : FileOp) : Bool := fault.any fun fault => decide (fault.op = op)

/-- What a write leaves, and whether it went through. -/
def write (op : FileOp) (text : Text) : Text × Bool :=
  match fault with
  | none => (text, true)
  | some fault => if fault.op = op then (text.take fault.written, false) else (text, true)

/-- What `createAppKeystore` and `save` write into the file that they opened. -/
def writeText (permissions text separator : FileOp) (json sep : Text) : Text × Bool :=
  if fails fault permissions then ([], false)
  else
    let written := write fault text json
    if !written.2 then written
    else
      let writtenSep := write fault separator sep
      (written.1 ++ writtenSep.1, writtenSep.2)

/-- `%keystore`, with the given credentials. -/
def keystoreJson (appInfo : AppInfo) (credentials : List (Text × Json)) : Json :=
  .obj [
    ("application".toList, .str appInfo.application),
    ("appIdentifier".toList, .str appInfo.appIdentifier),
    ("credentials".toList, .obj credentials),
    ("version".toList, .str appInfo.version)]

def createAppKeystore (files : Files) (appInfo : AppInfo) (separator : Text) :
    Files × Except AppKeystoreError Unit :=
  if fails fault .openToCreate then
    (files, .error ⟨.keystoreOsError, "Cannot open file for writing"⟩)
  else
    let written := writeText fault .createPermissions .createWrite .createSeparator
      (keystoreJson appInfo []).toUgly separator
    ({ files with keystore := some written.1 },
      if written.2 then .ok ()
      else .error ⟨.keystoreOsError, "error while writing keystore: "⟩)

def save (files : Files) (json : Json) (separator : Text) : Files × Except AppKeystoreError Unit :=
  if files.keystore.isSome && fails fault .moveToBackup then
    (files, .error ⟨.keystoreOsError, "could not backup keystore: "⟩)
  else
    let files : Files := if files.keystore.isSome then ⟨none, files.keystore⟩ else files
    if fails fault .openToSave then
      (files, .error ⟨.keystoreOsError, "error in waku_keystore save: "⟩)
    else
      let written := writeText fault .savePermissions .saveWrite .saveSeparator json.toUgly separator
      let saved := { files with keystore := some (files.keystore.getD [] ++ written.1) }
      if !written.2 then
        if files.backup.isNone then
          (saved, .error ⟨.keystoreOsError, "could not write keystore: "⟩)
        else if fails fault .removeUnsaved then
          (saved, .error ⟨.keystoreOsError, "could not restore keystore backup: "⟩)
        else if fails fault .restoreBackup then
          ({ saved with keystore := none },
            .error ⟨.keystoreOsError, "could not restore keystore backup: "⟩)
        else (⟨files.backup, none⟩, .error ⟨.keystoreOsError, "could not write keystore: "⟩)
      else if files.backup.isSome && fails fault .removeBackup then
        (saved, .error ⟨.keystoreOsError, "could not remove keystore backup: "⟩)
      else ({ saved with backup := none }, .ok ())

end

/-! ### Loading -/

/-- The pieces of a text between the separators; `skip` characters of a separator are left. -/
def split (separator : Text) : ℕ → Text → Text → List Text
  | _, piece, [] => [piece.reverse]
  | skip, piece, c :: rest =>
      if 0 < skip then split separator (skip - 1) piece rest
      else if separator ≠ [] ∧ separator.isPrefixOf (c :: rest) = true then
        piece.reverse :: split separator (separator.length - 1) [] rest
      else split separator 0 (c :: piece) rest

/-- The text of a field. -/
def fieldText (data : Json) (key : String) : Text := ((data.field? key.toList).map Json.getStr).getD []

/-- The checks of a keystore that was parsed. -/
def checkKeystore (data : Json) (appInfo : AppInfo) : Except AppKeystoreError Json :=
  if !(["application", "appIdentifier", "credentials", "version"].all
      fun key => data.hasKey key.toList) then
    .error ⟨.keystoreJsonKeyError, "Missing required fields in keystore"⟩
  else if fieldText data "application" ≠ appInfo.application then
    .error ⟨.keystoreJsonValueMismatchError, "Application does not match. Expected '" ++
      String.ofList appInfo.application ++ "' but got '" ++
      String.ofList (fieldText data "application") ++ "'"⟩
  else if fieldText data "appIdentifier" ≠ appInfo.appIdentifier then
    .error ⟨.keystoreJsonValueMismatchError, "AppIdentifier does not match. Expected '" ++
      String.ofList appInfo.appIdentifier ++ "' but got '" ++
      String.ofList (fieldText data "appIdentifier") ++ "'"⟩
  else if fieldText data "version" ≠ appInfo.version then
    .error ⟨.keystoreJsonValueMismatchError, "Version does not match. Expected '" ++
      String.ofList appInfo.version ++ "' but got '" ++ String.ofList (fieldText data "version") ++
      "'"⟩
  else .ok data

/-- The loop over the pieces of the file, of which the first that looks like an object decides. -/
def loadPieces (appInfo : AppInfo) : List Text → Except AppKeystoreError Json
  | [] => .error ⟨.keystoreKeystoreDoesNotExist, "The keystore file could not be parsed"⟩
  | keystore :: rest =>
      if keystore.head? ≠ some '{' ∨ keystore.getLast? ≠ some '}' then loadPieces appInfo rest
      else
        match Json.parseJson keystore with
        | none => .error ⟨.keystoreJsonError, "error during loading keystore, JsonParsingError: "⟩
        | some data => checkKeystore data appInfo

/-- What is made of the contents of the file. -/
def readKeystore (contents : Text) (appInfo : AppInfo) (separator : Text) :
    Except AppKeystoreError Json :=
  let fileContents := (contents.filter (· ≠ ' ')).filter (· ≠ '\n')
  loadPieces appInfo (split separator 0 [] fileContents)

def loadAppKeystore (fault : Option Fault) (files : Files) (appInfo : AppInfo) (separator : Text) :
    Files × Except AppKeystoreError Json :=
  let created :=
    if files.keystore.isNone then createAppKeystore fault files appInfo separator
    else (files, .ok ())
  match created.2 with
  | .error e => (created.1, .error e)
  | .ok () =>
      if fails fault .openToLoad then
        (created.1, .error ⟨.keystoreOsError, "Cannot open file for reading"⟩)
      else (created.1, readKeystore (created.1.keystore.getD []) appInfo separator)

/-! ### Adding and getting credentials -/

section

variable {ρ : Type} (sha256 : Sha256) (keyfiles : KeyfileLibrary ρ)

def newline : Text := ['\n']

def addMembershipCredentials (fault : Option Fault) (files : Files)
    (membership : KeystoreMembership) (password : Text) (draw : ρ) (appInfo : AppInfo)
    (separator : Text) : Files × Except AppKeystoreError Unit :=
  let loaded := loadAppKeystore fault files appInfo separator
  match loaded.2 with
  | .error e => (loaded.1, .error e)
  | .ok jsonKeystore =>
      match jsonKeystore.field? "credentials".toList with
      | none => save fault loaded.1 jsonKeystore separator
      | some keystoreCredentials =>
          let key := membership.hash sha256
          if keystoreCredentials.hasKey key then (loaded.1, .ok ())
          else
            match keyfiles.createKeyFileJson (encode membership) password draw with
            | .error e => (loaded.1, .error ⟨.keystoreCreateKeyfileError, e⟩)
            | .ok keyfile =>
                save fault loaded.1
                  (jsonKeystore.setField "credentials".toList
                    (keystoreCredentials.setField key keyfile))
                  separator

def severalCredentials : String :=
  "Credential not found in keystore. There are multiple credentials in this keystore, " ++
    "please check if you have used the correct parameters."

/-- The credential that a query asks for: the only one there is, or the one under its hash. -/
def queriedCredential (keystoreCredentials : List (Text × Json)) (query : KeystoreMembership) :
    Except AppKeystoreError Json :=
  match keystoreCredentials with
  | [] => .error ⟨.keystoreCredentialNotFoundError, "No credentials found in keystore"⟩
  | [credential] => .ok credential.2
  | _ =>
      match keystoreCredentials.lookup (query.hash sha256) with
      | none => .error ⟨.keystoreCredentialNotFoundError, severalCredentials⟩
      | some credential => .ok credential

/-- Of a query whose file operations do not fail; `none` is the `ResultDefect` of a credential that
does not decode. -/
def getMembershipCredentials (files : Files) (password : Text) (query : KeystoreMembership)
    (appInfo : AppInfo) : Option (Except AppKeystoreError KeystoreMembership) :=
  match (loadAppKeystore none files appInfo newline).2 with
  | .error e => some (.error e)
  | .ok jsonKeystore =>
      match jsonKeystore.field? "credentials".toList with
      | none => some (.error ⟨.keystoreOsError, ""⟩)
      | some keystoreCredentials =>
          match queriedCredential sha256 keystoreCredentials.getFields query with
          | .error e => some (.error e)
          | .ok keystoreCredential =>
              match keyfiles.decodeKeyFileJson keystoreCredential password with
              | .error e => some (.error ⟨.keystoreReadKeyfileError, e⟩)
              | .ok decodedKeyfile => (decode decodedKeyfile).map .ok

end

end LogosDelivery.Keystore
