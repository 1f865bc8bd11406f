import NaturalMold.FallibleSteps
import NaturalMold.OrderedDictionaries
import NaturalMold.PagedPasses

/-! # Re-encrypting credentials after a key rotation -/

namespace NaturalMold.CredentialRotation

open KeyedTables PagedPasses

abbrev Uuid := String

inductive Failure
  | tenantKey (message : String)
  | tenantKeyNotFound (message : String)
  | tenantKeyDestroyed (message : String)
  | decryption
  | value (message : String)
  deriving DecidableEq

structure CipherKey where
  raw : String
  keyId : String

structure TenantDataKey where
  keyId : String
  raw : String
  deriving DecidableEq

inductive KeyStatus
  | active | retired | destroyed
  deriving DecidableEq

structure KeyEntry where
  version : ℕ
  status : KeyStatus
  wrapped : Option String
  wrapKeyId : String

/-- `tenants.data_keys`. -/
structure DataKeys where
  activeKeyId : Option String := none
  destroyed : Bool := false
  keys : OrderedDict String KeyEntry := .empty
  legacy01Closed : Bool := false

structure Credential (Blob : Type) where
  id : Uuid
  tenantId : Option Uuid
  isSystem : Bool
  dataEncrypted : Blob
  keyId : String
  fieldKeys : List String
  deriving DecidableEq

structure AuditLog where
  credentialId : Uuid
  action : String
  source : String
  keyId : String

/-- What a pass changes besides the credentials. -/
structure World where
  tenants : OrderedDict Uuid DataKeys
  auditLogs : List AuditLog := []

structure Settings where
  tenantDataKeysEnabled : Bool
  activeKey : CipherKey

/-- The ciphers, the wrapping of data keys and the JSON text of a payload.  What draws random bytes
is told the number of attempts before it. -/
structure Cryptography (Payload Blob : Type) where
  dumps : Payload → String
  parse : String → Except Failure Payload
  fieldKeys : Payload → List String
  blobVersion : Blob → Except Failure ℕ
  tenantBlobKeyId : Blob → Except Failure String
  decrypt : Blob → Except Failure String
  encrypt : ℕ → String → CipherKey → Blob
  decryptTenant : Blob → TenantDataKey → String → Except Failure String
  encryptTenant : ℕ → String → TenantDataKey → String → Except Failure Blob
  unwrapDataKey : Uuid → String → KeyEntry → Except Failure String
  wrapDataKey : ℕ → Uuid → String → Except Failure String
  keyIdCandidates : ℕ → List String
  tokenBytes : ℕ → String

def tenantKeyPrefix : String := "t:"

def tenantKeyId (key : TenantDataKey) : String :=
  tenantKeyPrefix ++ key.keyId

def isTenantKeyId (keyId : String) : Bool :=
  tenantKeyPrefix.toList.isPrefixOf keyId.toList

theorem isTenantKeyId_tenantKeyId (key : TenantDataKey) : isTenantKeyId (tenantKeyId key) := by
  rw [isTenantKeyId, tenantKeyId, String.toList_append, List.isPrefixOf_iff_prefix]
  exact List.prefix_append _ _

/-- `tenant_aad`, for the table and the field of a credential's payload. -/
def aad (tenantId : Option Uuid) (rowId : Uuid) : String :=
  "|".intercalate ["moldy-tenant-v1", tenantId.getD "None", "credentials", rowId, "data_encrypted"]

section Keys

variable {Payload Blob : Type} (crypto : Cryptography Payload Blob) (settings : Settings)

def readState (world : World) (tenantId : Uuid) : Except Failure DataKeys :=
  match world.tenants.get? tenantId with
  | none => .error (.tenantKeyNotFound "company has no data keys")
  | some state => .ok state

def usableEntry (state : DataKeys) (keyId : String) : Except Failure KeyEntry :=
  if state.destroyed || (state.keys.get? keyId).any (fun entry => entry.status = .destroyed) then
    .error (.tenantKeyDestroyed "company data key was destroyed")
  else
    match (state.keys.get? keyId).filter fun entry => entry.wrapped.isSome with
    | none => .error (.tenantKeyNotFound "company has no data key with this id")
    | some entry => .ok entry

def unwrap (tenantId : Uuid) (keyId : String) (entry : KeyEntry) :
    Except Failure TenantDataKey := do
  let raw ← crypto.unwrapDataKey tenantId keyId entry
  return { keyId := keyId, raw := raw }

/-- `tenant_keys.get_key`. -/
def getKey (world : World) (tenantId : Uuid) (keyId : String) : Except Failure TenantDataKey := do
  let state ← readState world tenantId
  let entry ← usableEntry state keyId
  unwrap crypto tenantId keyId entry

def newKey (count : ℕ) (tenantId : Uuid) (state : DataKeys) :
    Except Failure (TenantDataKey × DataKeys) := do
  Fallible.ensure (!state.destroyed) (.tenantKeyDestroyed "company data keys were destroyed")
  match ((crypto.keyIdCandidates count).take 8).find? (fun keyId => keyId ∉ state.keys.keys) with
  | none => .error (.tenantKey "could not allocate a unique company key id")
  | some keyId => do
      let raw := crypto.tokenBytes count
      let version := ((state.keys.entries.map fun entry => entry.2.version).foldl max 0) + 1
      let wrapped ← crypto.wrapDataKey version tenantId raw
      let entry : KeyEntry :=
        { version := version
          status := .active
          wrapped := some wrapped
          wrapKeyId := settings.activeKey.keyId }
      return ({ keyId := keyId, raw := raw },
        { state with
          keys := state.keys.set keyId entry
          activeKeyId := some keyId })

def ensureActiveKey (count : ℕ) (tenantId : Uuid) (world : World) :
    Except Failure TenantDataKey × World :=
  match readState world tenantId with
  | .error failure => (.error failure, world)
  | .ok state =>
      match state.activeKeyId with
      | some active => (usableEntry state active >>= unwrap crypto tenantId active, world)
      | none =>
          match newKey crypto settings count tenantId state with
          | .error failure => (.error failure, world)
          | .ok (key, state) =>
              (.ok key, { world with tenants := world.tenants.set tenantId state })

def legacy01Closed (world : World) (tenantId : Uuid) : Except Failure Bool := do
  let state ← readState world tenantId
  return state.legacy01Closed

/-- A new credential under the instance key clears the closure of its company. -/
def reopenLegacy01 (tenantId : Uuid) (world : World) : World :=
  match world.tenants.get? tenantId with
  | none => world
  | some state =>
      if state.legacy01Closed then
        { world with tenants := world.tenants.set tenantId { state with legacy01Closed := false } }
      else world

end Keys

section Sealing

variable {Payload Blob : Type} (crypto : Cryptography Payload Blob) (settings : Settings)

def companyRow (credential : Credential Blob) : Bool :=
  credential.tenantId.isSome && !credential.isSystem

def usesTenantKey (credential : Credential Blob) : Bool :=
  settings.tenantDataKeysEnabled && companyRow credential

/-- Once format 0x01 is closed for a company, its rows are no longer read in it. -/
def requireLegacy01Open (world : World) (credential : Credential Blob) : Except Failure Unit :=
  match credential.tenantId with
  | none => .ok ()
  | some tenantId =>
      if usesTenantKey settings credential then do
        let closed ← legacy01Closed world tenantId
        Fallible.ensure (!closed)
          (.tenantKey "format 0x01 is closed for this company's credentials")
      else .ok ()

def openTenantBlob (world : World) (credential : Credential Blob) : Except Failure String :=
  match credential.tenantId with
  | none => .error (.tenantKey "company-key ciphertext on a row without a company")
  | some tenantId => do
      let keyId ← crypto.tenantBlobKeyId credential.dataEncrypted
      let key ← getKey crypto world tenantId keyId
      crypto.decryptTenant credential.dataEncrypted key (aad credential.tenantId credential.id)

def openPayload (world : World) (credential : Credential Blob) : Except Failure Payload := do
  let version ← crypto.blobVersion credential.dataEncrypted
  let text ←
    if version = 2 then openTenantBlob crypto world credential
    else do
      requireLegacy01Open settings world credential
      crypto.decrypt credential.dataEncrypted
  crypto.parse text

def Credential.withBlob (credential : Credential Blob) (blob : Blob) (keyId : String)
    (fieldKeys : List String) : Credential Blob :=
  { credential with
    dataEncrypted := blob
    keyId := keyId
    fieldKeys := fieldKeys }

def sealingKey (count : ℕ) (tenantId : Uuid) (pinned : Option TenantDataKey) (world : World) :
    Except Failure TenantDataKey × World :=
  match pinned with
  | some key => (.ok key, world)
  | none => ensureActiveKey crypto settings count tenantId world

def sealWithTenantKey (count : ℕ) (credential : Credential Blob) (data : Payload)
    (key : TenantDataKey) : Except Failure (Credential Blob) := do
  let blob ← crypto.encryptTenant count (crypto.dumps data) key
    (aad credential.tenantId credential.id)
  return credential.withBlob blob (tenantKeyId key) (crypto.fieldKeys data)

def sealWithInstanceKey (count : ℕ) (credential : Credential Blob) (data : Payload) :
    Credential Blob :=
  credential.withBlob (crypto.encrypt count (crypto.dumps data) settings.activeKey)
    settings.activeKey.keyId (crypto.fieldKeys data)

/-- `seal`: the credential with its new blob, key id and names of fields. -/
def sealCredential (count : ℕ) (credential : Credential Blob) (data : Payload)
    (pinned : Option TenantDataKey) (world : World) :
    Except Failure (Credential Blob) × World :=
  match credential.tenantId with
  | none => (.ok (sealWithInstanceKey crypto settings count credential data), world)
  | some tenantId =>
      if usesTenantKey settings credential then
        let (key, world) := sealingKey crypto settings count tenantId pinned world
        (key >>= sealWithTenantKey crypto count credential data, world)
      else
        (.ok (sealWithInstanceKey crypto settings count credential data),
          if credential.isSystem then world else reopenLegacy01 tenantId world)

variable [DecidableEq Blob]

/-- `re_encrypt_with_active_key`, with the log of a blob that has changed. -/
def reEncryptWithActiveKey (pinned : Option TenantDataKey) (count : ℕ)
    (credential : Credential Blob) (world : World) :
    Except Failure (Credential Blob) × World :=
  match openPayload crypto settings world credential with
  | .error failure => (.error failure, world)
  | .ok data =>
      match sealCredential crypto settings count credential data pinned world with
      | (.error failure, world) => (.error failure, world)
      | (.ok updated, world) =>
          if updated.dataEncrypted = credential.dataEncrypted then (.ok updated, world)
          else
            (.ok updated,
              { world with auditLogs := world.auditLogs ++
                [{ credentialId := updated.id
                   action := "rotate"
                   source := "rotation"
                   keyId := updated.keyId }] })

end Sealing

/-- The two callers of `_re_encrypt_matching`. -/
inductive Rotation
  | toActiveKey
  | tenantRows (tenantId : Uuid) (key : TenantDataKey)

section Passes

variable {Payload Blob : Type} [DecidableEq Blob] (crypto : Cryptography Payload Blob)
  (settings : Settings)

/-- The selection `base`. -/
def Rotation.matching (credential : Credential Blob) : Rotation → Bool
  | .toActiveKey =>
      !isTenantKeyId credential.keyId &&
        (credential.keyId ≠ settings.activeKey.keyId ||
          (settings.tenantDataKeysEnabled && companyRow credential))
  | .tenantRows tenantId key =>
      credential.tenantId = some tenantId && !credential.isSystem &&
        credential.keyId ≠ tenantKeyId key

def Rotation.pinned : Rotation → Option TenantDataKey
  | .toActiveKey => none
  | .tenantRows _ key => some key

/-- `still_current`: the data key of a company's pass is still its active one. -/
def Rotation.stillCurrent (world : World) : Rotation → Bool
  | .toActiveKey => true
  | .tenantRows tenantId key =>
      (world.tenants.get? tenantId).any fun state => state.activeKeyId = some key.keyId

/-- The database lists the rows of a page in any order. -/
structure Listing (Blob : Type) where
  arrange : ℕ → List (Credential Blob) → List (Credential Blob)
  perm : ∀ page rows, (arrange page rows).Perm rows

def Rotation.pass (rotation : Rotation) (batchSize : ℕ) (listing : Listing Blob) :
    Pass (Credential Blob) World where
  batchSize := batchSize
  matching credential := rotation.matching settings credential
  current world := rotation.stillCurrent world
  attempt count credential world :=
    let (outcome, world) :=
      reEncryptWithActiveKey crypto settings rotation.pinned count credential world
    (outcome.toOption, world)
  arrange := listing.arrange
  perm := listing.perm

/-- `_re_encrypt_matching`, with fuel for its pages. -/
def reEncryptMatching (rotation : Rotation) (batchSize : ℕ) (listing : Listing Blob)
    (credentials : Table (@Credential.id Blob)) (world : World) (fuel : ℕ) :
    Option (Progress (@Credential.id Blob) World) :=
  run (rotation.pass crypto settings batchSize listing) fuel 0
    { table := credentials, outside := world }

end Passes

section Attempts

variable {Payload Blob : Type} {crypto : Cryptography Payload Blob} {settings : Settings}

/-- The row and its company stay the same, and the key is the one the settings ask for. -/
structure Sealed (settings : Settings) (pinned : Option TenantDataKey)
    (credential updated : Credential Blob) : Prop where
  id : updated.id = credential.id
  tenantId : updated.tenantId = credential.tenantId
  isSystem : updated.isSystem = credential.isSystem
  tenantKey : usesTenantKey settings credential →
    ∃ key, updated.keyId = tenantKeyId key ∧ ∀ wanted ∈ pinned, key = wanted
  instanceKey : usesTenantKey settings credential = false →
    updated.keyId = settings.activeKey.keyId

theorem sealed_withInstanceKey {credential : Credential Blob} (count : ℕ) (data : Payload)
    (pinned : Option TenantDataKey) (uses : usesTenantKey settings credential = false) :
    Sealed settings pinned credential
    (sealWithInstanceKey crypto settings count credential data) where
  id := rfl
  tenantId := rfl
  isSystem := rfl
  tenantKey used := absurd used (by simp [uses])
  instanceKey _ := rfl

theorem usesTenantKey_of_tenantId_none {credential : Credential Blob}
    (foreign : credential.tenantId = none) : usesTenantKey settings credential = false := by
  simp [usesTenantKey, companyRow, foreign]

theorem sealed_of_sealCredential {count : ℕ} {credential updated : Credential Blob}
    {data : Payload} {pinned : Option TenantDataKey} {world : World}
    (result : (sealCredential crypto settings count credential data pinned world).1 = .ok updated) :
    Sealed settings pinned credential updated := by
  rw [sealCredential] at result
  split at result
  · next foreign =>
      cases result
      exact sealed_withInstanceKey count data pinned (usesTenantKey_of_tenantId_none foreign)
  · next tenantId company =>
      split at result
      · next uses =>
          obtain ⟨key, ensured, written⟩ := Fallible.bind_eq_ok.mp result
          obtain ⟨blob, _, rest⟩ := Fallible.bind_eq_ok.mp written
          cases rest
          refine ⟨rfl, rfl, rfl, fun _ => ⟨key, rfl, ?_⟩, fun unused => ?_⟩
          · rintro wanted pin
            rw [Option.mem_def] at pin
            rw [pin] at ensured
            exact (Except.ok.inj ensured).symm
          · rw [uses] at unused
            cases unused
      · next unused =>
          cases result
          exact sealed_withInstanceKey count data pinned (Bool.eq_false_of_not_eq_true unused)

/-- A pinned key leaves the data keys of the companies as they are. -/
theorem world_sealCredential {count : ℕ} {credential : Credential Blob} {data : Payload}
    {key : TenantDataKey} {world : World} (uses : usesTenantKey settings credential) :
    (sealCredential crypto settings count credential data (some key) world).2 = world := by
  rw [sealCredential]
  split
  · rfl
  · rw [if_pos uses]
    rfl

variable [DecidableEq Blob]

theorem sealed_of_reEncrypt {pinned : Option TenantDataKey} {count : ℕ}
    {credential updated : Credential Blob} {world : World}
    (result : (reEncryptWithActiveKey crypto settings pinned count credential world).1 =
      .ok updated) : Sealed settings pinned credential updated := by
  rw [reEncryptWithActiveKey] at result
  split at result
  · cases result
  · next data _ =>
      split at result
      · cases result
      · next stored _ sealing =>
          have same : stored = updated := by
            split at result
            · exact Except.ok.inj result
            · exact Except.ok.inj result
          apply sealed_of_sealCredential
          rw [sealing, same]

theorem tenants_reEncrypt {key : TenantDataKey} {count : ℕ} {credential : Credential Blob}
    {world : World} (uses : usesTenantKey settings credential) :
    (reEncryptWithActiveKey crypto settings (some key) count credential world).2.tenants =
      world.tenants := by
  rw [reEncryptWithActiveKey]
  split
  · rfl
  · next data _ =>
      have kept : (sealCredential crypto settings count credential data (some key) world).2 =
        world := world_sealCredential uses
      split
      · next sealing => rw [← kept, sealing]
      · next sealing =>
          rw [sealing] at kept
          split
          · rw [← kept]
          · rw [← kept]

end Attempts

section Passes

variable {Payload Blob : Type} {crypto : Cryptography Payload Blob} {settings : Settings}

/-- The pass over a company's rows is only for an instance that uses company keys. -/
def Rotation.Enabled (settings : Settings) : Rotation → Prop
  | .toActiveKey => True
  | .tenantRows _ _ => settings.tenantDataKeysEnabled

theorem Rotation.not_matching_of_sealed {rotation : Rotation} (enabled : rotation.Enabled settings)
    {credential updated : Credential Blob} (selected : rotation.matching settings credential)
    (sealed : Sealed settings rotation.pinned credential updated) :
    rotation.matching settings updated = false := by
  cases rotation with
  | toActiveKey =>
      cases uses : usesTenantKey settings credential with
      | true =>
          obtain ⟨key, keyId, _⟩ := sealed.tenantKey uses
          rw [Rotation.matching, keyId, isTenantKeyId_tenantKeyId]
          rfl
      | false =>
          have unused : (settings.tenantDataKeysEnabled && companyRow updated) = false := by
            rw [← uses, usesTenantKey, companyRow, companyRow, sealed.tenantId, sealed.isSystem]
          rw [Rotation.matching, unused, sealed.instanceKey uses]
          simp
  | tenantRows tenantId key =>
      simp only [Rotation.matching, Bool.and_eq_true, decide_eq_true_eq, Bool.not_eq_true',
        ne_eq] at selected
      have uses : usesTenantKey settings credential := by
        simp [usesTenantKey, companyRow, selected.1.1, selected.1.2,
          show settings.tenantDataKeysEnabled = true from enabled]
      obtain ⟨used, keyId, pinned⟩ := sealed.tenantKey uses
      rw [Rotation.matching, keyId, pinned key rfl]
      simp

theorem Rotation.stillCurrent_of_tenants {rotation : Rotation} {world next : World}
    (same : next.tenants = world.tenants) :
    rotation.stillCurrent next = rotation.stillCurrent world := by
  cases rotation with
  | toActiveKey => rfl
  | tenantRows => rw [Rotation.stillCurrent, Rotation.stillCurrent, same]

theorem eq_ok_of_toOption {Value : Type} {outcome : Except Failure Value} {value : Value}
    (found : outcome.toOption = some value) : outcome = .ok value := by
  cases outcome with
  | error => cases found
  | ok => exact congrArg Except.ok (Option.some.inj found)

variable [DecidableEq Blob]

theorem lawful_pass {rotation : Rotation} (enabled : rotation.Enabled settings) {batchSize : ℕ}
    (positive : 0 < batchSize) (listing : Listing Blob) :
    Lawful Credential.id (rotation.pass crypto settings batchSize listing) where
  positive := positive
  keeps count credential world updated result :=
    (sealed_of_reEncrypt (eq_ok_of_toOption result)).id
  leaves count credential world updated selected result :=
    Rotation.not_matching_of_sealed enabled selected
      (sealed_of_reEncrypt (eq_ok_of_toOption result))
  current count credential world selected current := by
    cases rotation with
    | toActiveKey => rfl
    | tenantRows tenantId key =>
        have uses : usesTenantKey settings credential := by
          simp only [Rotation.pass, Rotation.matching, Bool.and_eq_true, decide_eq_true_eq,
            Bool.not_eq_true', ne_eq] at selected
          simp [usesTenantKey, companyRow, selected.1.1, selected.1.2,
            show settings.tenantDataKeysEnabled = true from enabled]
        have same := @Rotation.stillCurrent_of_tenants (.tenantRows tenantId key) world _
          (@tenants_reEncrypt _ _ crypto _ _ key count _ world uses)
        exact same.trans current

/-- A pass ends with every matching row attempted once; the rows that still match are those that
failed, as they were. -/
theorem exists_reEncryptMatching (crypto : Cryptography Payload Blob) (settings : Settings)
    (rotation : Rotation) (batchSize : ℕ) (listing : Listing Blob)
    (credentials : Table (@Credential.id Blob)) (world : World)
    (positive : 0 < batchSize) (enabled : rotation.Enabled settings)
    (current : rotation.stillCurrent world) :
    ∃ bound, ∀ fuel, bound ≤ fuel → ∃ final,
      reEncryptMatching crypto settings rotation batchSize listing credentials world fuel =
        some final ∧
      Completed (rotation.pass crypto settings batchSize listing) credentials final := by
  refine ⟨(credentials.rows.filter (rotation.matching settings)).length + 1, fun fuel enough => ?_⟩
  exact exists_run (lawful_pass enabled positive listing) (consistent_start current) fuel 0 enough

end Passes

/-- A blob that shows what it was made of. -/
inductive OpenBlob
  | underInstanceKey (salt : ℕ) (keyId text : String)
  | underTenantKey (salt : ℕ) (keyId text associated : String)
  deriving DecidableEq

def openCryptography : Cryptography String OpenBlob where
  dumps text := text
  parse text := .ok text
  fieldKeys _ := []
  blobVersion
    | .underInstanceKey _ _ _ => .ok 1
    | .underTenantKey _ _ _ _ => .ok 2
  tenantBlobKeyId
    | .underInstanceKey _ _ _ => .error .decryption
    | .underTenantKey _ keyId _ _ => .ok keyId
  decrypt
    | .underInstanceKey _ _ text => .ok text
    | .underTenantKey _ _ _ _ => .error .decryption
  encrypt salt text key := .underInstanceKey salt key.keyId text
  decryptTenant
    | .underInstanceKey _ _ _, _, _ => .error .decryption
    | .underTenantKey _ keyId text associated, key, wanted =>
        if keyId = key.keyId ∧ associated = wanted then .ok text else .error .decryption
  encryptTenant salt text key associated := .ok (.underTenantKey salt key.keyId text associated)
  unwrapDataKey _ _ entry := .ok (entry.wrapped.getD "")
  wrapDataKey _ _ raw := .ok raw
  keyIdCandidates _ := ["00000000000a"]
  tokenBytes _ := "raw"

def dataKey : TenantDataKey := { keyId := "00000000000a", raw := "raw" }

def companies : OrderedDict Uuid DataKeys :=
  OrderedDict.empty.set "company"
    { activeKeyId := some dataKey.keyId
      keys := OrderedDict.empty.set dataKey.keyId
        { version := 1, status := .active, wrapped := some "raw", wrapKeyId := "01234567" } }

def keySettings (tenantDataKeysEnabled : Bool) : Settings where
  tenantDataKeysEnabled := tenantDataKeysEnabled
  activeKey := { raw := "instance", keyId := "01234567" }

/-- A credential of the company under the instance key. -/
def stale (salt : ℕ) : Credential OpenBlob where
  id := "credential"
  tenantId := some "company"
  isSystem := false
  dataEncrypted := .underInstanceKey salt "01234567" "payload"
  keyId := "01234567"
  fieldKeys := []

def staleTable : Table (@Credential.id OpenBlob) where
  rows := [stale 0]
  distinct := List.nodup_singleton _

def inOrder : Listing OpenBlob where
  arrange _ rows := rows
  perm _ _ := List.Perm.rfl

/-- The one credential of the company is sealed with the data key of the company. -/
theorem exists_reEncryptMatching_company :
    ∃ bound, ∀ fuel, bound ≤ fuel → ∃ final,
      reEncryptMatching openCryptography (keySettings true) (.tenantRows "company" dataKey) 1
        inOrder staleTable { tenants := companies } fuel = some final ∧
      Completed ((Rotation.tenantRows "company" dataKey).pass openCryptography (keySettings true) 1
        inOrder) staleTable final :=
  exists_reEncryptMatching openCryptography (keySettings true) (.tenantRows "company" dataKey) 1
    inOrder staleTable { tenants := companies } Nat.one_pos rfl rfl

/-- The pass over the company's rows while no company keys are used. -/
def unusedKeyPass : Pass (Credential OpenBlob) World :=
  (Rotation.tenantRows "company" dataKey).pass openCryptography (keySettings false) 1 inOrder

/-- The credential is sealed with the instance key again. -/
theorem exists_attempt_stale (count salt : ℕ) {world : World}
    (unchanged : world.tenants = companies) :
    ∃ next, unusedKeyPass.attempt count (stale salt) world = (some (stale count), next) ∧
      next.tenants = companies := by
  have opened : openPayload openCryptography (keySettings false) world (stale salt) =
    .ok "payload" := rfl
  have reopened : reopenLegacy01 "company" world = world := by
    rw [reopenLegacy01, unchanged]
    rfl
  have resealed : sealCredential openCryptography (keySettings false) count (stale salt) "payload"
      (some dataKey) world = (.ok (stale count), world) := by
    change (_, reopenLegacy01 "company" world) = _
    rw [reopened]
    rfl
  change ∃ next, ((reEncryptWithActiveKey openCryptography (keySettings false) (some dataKey) count
    (stale salt) world).1.toOption, (reEncryptWithActiveKey openCryptography (keySettings false)
      (some dataKey) count (stale salt) world).2) = _ ∧ _
  rw [reEncryptWithActiveKey, opened]
  dsimp only
  rw [resealed]
  dsimp only
  split
  · exact ⟨world, rfl, unchanged⟩
  · exact ⟨_, rfl, unchanged⟩

theorem run_stale (fuel page : ℕ) (progress : Progress (@Credential.id OpenBlob) World) (salt : ℕ)
    (rows : progress.table.rows = [stale salt]) (failed : progress.failed = [])
    (unchanged : progress.outside.tenants = companies) :
    run unusedKeyPass fuel page progress = none := by
  induction fuel generalizing page progress salt with
  | zero => rfl
  | succ fuel ih =>
      have current : unusedKeyPass.current progress.outside = true := by
        change (progress.outside.tenants.get? "company").any _ = true
        rw [unchanged]
        rfl
      have fetched : fetch unusedKeyPass page progress = [stale salt] := by
        rw [fetch, candidates, rows, failed]
        rfl
      obtain ⟨next, attempt, kept⟩ :=
        exists_attempt_stale progress.attempted.length salt unchanged
      have step : attemptRow unusedKeyPass progress (stale salt) =
          { progress with
            table := progress.table.save (stale progress.attempted.length)
            outside := next
            attempted := progress.attempted ++ ["credential"]
            handled := progress.handled + 1 } := by
        rw [attemptRow, attempt]
        rfl
      rw [run, current, fetched]
      simp only [List.foldl_cons, List.foldl_nil, step]
      apply ih (page + 1) _ progress.attempted.length
      · change (progress.table.rows.map _) = _
        rw [rows]
        rfl
      · exact failed
      · exact kept

/-- Where company keys are not used, a company's pass with its active key never ends once its
pages are full. -/
theorem not_ends_unusedKey :
    (Rotation.tenantRows "company" dataKey).stillCurrent { tenants := companies } = true ∧
      ∀ fuel, reEncryptMatching openCryptography (keySettings false)
        (.tenantRows "company" dataKey) 1 inOrder staleTable { tenants := companies } fuel = none :=
  ⟨rfl, fun fuel => run_stale fuel 0 _ 0 rfl rfl rfl⟩

end NaturalMold.CredentialRotation
