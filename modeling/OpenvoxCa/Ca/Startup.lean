import OpenvoxCa.Ca.Import
import OpenvoxCa.Conc.Pool

/-!
# Starting a certificate authority

What the participants of a cluster do to the store before anything is served: a replica that
starts (`Init`), an operator who creates the key of the authority (`LoadOrCreateCAKey`) and one who
installs a certificate for it (`ImportCACertificate`). All of them check what is there and write
what is missing, several blobs one after the other, and any of them may stop between any two
requests.

The model follows `init.go`, `keyprovider.go` and `caImport.go`, for a key that is stored locally,
and the three functions of the etcd backend that touch the inventory: `AppendEntry`, `putInventory`
and `replaceInventoryOnce`. What the revocation list says is of no concern here – `Import` has it –
and so only its presence is kept; a list that does not parse or is refused is a request that fails.

A participant that crashes takes no step any more, and the lock it holds is released: the session it
belongs to ends. A request that reports a failure may have taken effect.
-/

namespace OpenvoxCa.Ca.Startup

open Conc

/-! ### The machine -/

/-- **The state of the store**, and what the replicas have come to. -/
structure State where
  /-- `KeyCAKey`: the key of the authority, by its public half. -/
  caKey : Option PublicKey := none
  /-- `KeyCACert`: the bundle, the authority's own certificate first. -/
  caCert : Option (List Certificate) := none
  /-- Whether there is a `KeyCAPubKey`. -/
  pubKey : Bool := false
  /-- Whether there is a `KeyCRL`. -/
  crl : Bool := false
  /-- Whether there is a `KeySerial`. -/
  serial : Bool := false
  /-- `inventory/data`: the presence marker of the inventory. -/
  marker : Bool := false
  /-- `inventory/entries/`, in the order of their numbers. -/
  entries : List InventoryEntry := []
  /-- The revision of the store. -/
  revision : ℕ := 0
  /-- The revision at which `inventory/seq` was last written; 0 when it is missing. -/
  seqRevision : ℕ := 0
  /-- The lock `lockNameBootstrap` of the cluster. -/
  bootstrapLock : Option Tid := none
  /-- Whether `Init` has returned at the replica, and returned no error. -/
  started : Replica → Bool := fun _ => false
  /-- The participants that have crashed. -/
  dead : List Tid := []
  /-- The bundles that have been stored so far, the latest first. -/
  bundles : List (List Certificate) := []
  /-- How many bundles had been stored when the participant began to start. -/
  begun : Tid → ℕ := fun _ => 0
  /-- Those who have found no inventory and are about to create one. -/
  touching : List Tid := []

inductive Failure
  /-- `fs.ErrNotExist`. -/
  | notExist
  /-- Any other failure of a request. -/
  | unavailable
  /-- `CA private key does not match CA certificate's public key`. -/
  | keyMismatch
  /-- A CA key of a type that cannot sign: `checkCAKeyType`. -/
  | keyType
  /-- `a CA key already exists … but the CA certificate is missing`. -/
  | keyWithoutCert
  /-- `a CA certificate exists but its key is missing`. -/
  | certWithoutKey
  /-- `no CA exists in the configured storage, and this caller will not create one`. -/
  | noBootstrap
  /-- `failed to load existing CA`. -/
  | loadFailed
  /-- `ErrKeyProviderKeyNotFound`. -/
  | keyNotFound
  /-- A bundle that does not parse, or is not in order. -/
  | badBundle
  /-- `ErrCACertExists`. -/
  | caCertExists
  /-- `ErrDuplicateSerial`. -/
  | duplicateSerial (serial : Text)
  /-- `inventory append failed: too many concurrent writers`. -/
  | appendContention
  /-- `inventory replace failed: too many concurrent writers`. -/
  | replaceContention
  deriving DecidableEq

/-- One write of a transaction on the inventory. Each of them writes the counter too. -/
inductive InvOp
  /-- Delete every entry and the indexes. -/
  | clear
  | putEntry (e : InventoryEntry)
  /-- `markerTouchOp`. -/
  | touch
  deriving DecidableEq

inductive Cmd
  /-- The participant begins to start. -/
  | begin
  | ensureDirs
  /-- `InitHMAC`, which touches neither the key nor the certificate of the authority. -/
  | initHMAC
  | lockBootstrap
  | unlockBootstrap
  /-- `GetCAKey`, and parsing what it returns. -/
  | getCAKey
  | hasCAKey
  | saveCAKey (key : PublicKey)
  | getCACert
  | hasCACert
  | saveCACert (bundle : List Certificate)
  | generateKey
  /-- The serial number, the time and the signature of a self-signed certificate. -/
  | selfSign (key : PublicKey)
  | savePubKey
  /-- `GetCRL`, and parsing what it returns. -/
  | getCRL
  | updateCRL
  /-- `planCRLImport`: whether the chain is to be written. -/
  | planCRLImport
  | resignStoredCRL
  | hasSerial
  | writeSerial
  | now
  /-- `backend.Exists` of `KeyInventory`. -/
  | hasInventory
  /-- The read of the counter in `replaceInventoryOnce`. -/
  | readSeq
  /-- The read of `AppendEntry`: the counter, and whether the serial is taken. -/
  | readFence (serial : Text)
  /-- A transaction guarded on the revision of the counter and, for an append, on the serial not
  being taken. -/
  | commit (rev : ℕ) (absent : Option Text) (ops : List InvOp)
  /-- `txnBackoff`. -/
  | backoff
  | awaitStarted
  /-- The replica begins to serve. -/
  | setStarted
  | crash (victim : Tid)

def Cmd.Ans : Cmd → Type
  | begin => Unit
  | ensureDirs => Except Failure Unit
  | initHMAC => Except Failure Unit
  | lockBootstrap => Except Failure Unit
  | unlockBootstrap => Unit
  | getCAKey => Except Failure PublicKey
  | hasCAKey => Except Failure Bool
  | saveCAKey _ => Except Failure Unit
  | getCACert => Except Failure (List Certificate)
  | hasCACert => Except Failure Bool
  | saveCACert _ => Except Failure Unit
  | generateKey => Except Failure PublicKey
  | selfSign _ => Except Failure Certificate
  | savePubKey => Except Failure Unit
  | getCRL => Except Failure Unit
  | updateCRL => Except Failure Unit
  | planCRLImport => Except Failure Bool
  | resignStoredCRL => Except Failure Unit
  | hasSerial => Except Failure Bool
  | writeSerial => Except Failure Unit
  | now => Time
  | hasInventory => Except Failure Bool
  | readSeq => Except Failure ℕ
  | readFence _ => Except Failure (ℕ × Bool)
  | commit _ _ _ => Except Failure (Option ℕ)
  | backoff => Except Failure Unit
  | awaitStarted => Unit
  | setStarted => Unit
  | crash _ => Unit

/-- The interface to the store and to the process. -/
abbrev interface : Interface := ⟨Cmd, Cmd.Ans⟩

abbrev Prog := Conc.Prog interface Failure

def cmd (c : Cmd) : Prog c.Ans := Conc.Prog.cmd (I := interface) c

/-- **What the environment decides about a request**: whether it fails, whether it takes effect all
the same, and what is drawn, read from a clock or decided by data that is not modelled. -/
structure Choice where
  fails : Bool := false
  /-- A write that reports a failure has taken effect. -/
  lands : Bool := false
  /-- The key that is generated. -/
  key : PublicKey := ⟨.ecdsa .p256, 0⟩
  now : Time := 0
  serialNumber : ℤ := 0
  signature : ℕ := 0
  /-- `CASubjectName` of the participant's configuration. -/
  subject : Name := { commonName := [] }
  /-- `caValidity` of the participant's configuration. -/
  caValidity : Duration := 0
  /-- Whether an import has a chain to write. -/
  changes : Bool := true

/-- The certificate `bootstrapCA` signs for itself. -/
def selfSigned (key : PublicKey) (ch : Choice) : Certificate where
  serialNumber := ch.serialNumber
  subject := ch.subject
  notBefore := ch.now - 24 * hour
  notAfter := ch.now + ch.caValidity
  publicKey := key
  signedBy := key
  isCA := true
  maySignCertificates := true
  maySignCRLs := true
  signature := ch.signature

def read {α : Type} (ch : Choice) (s : State) (r : Except Failure α) :
    Option (Except Failure α × State) :=
  some (if ch.fails then .error .unavailable else r, s)

def write (ch : Choice) (s s' : State) : Option (Except Failure Unit × State) :=
  some (if ch.fails then (.error .unavailable, if ch.lands then s' else s) else (.ok (), s'))

/-- A blob, or `fs.ErrNotExist`. -/
def orNotExist {α : Type} : Option α → Except Failure α
  | some a => .ok a
  | none => .error .notExist

/-- What one write of a transaction does. -/
def InvOp.apply (s : State) : InvOp → State
  | clear => { s with entries := [] }
  | putEntry e => { s with entries := s.entries ++ [e] }
  | touch => { s with marker := true }

def State.committed (s : State) (ops : List InvOp) : State :=
  { ops.foldl InvOp.apply s with
    revision := s.revision + 1
    seqRevision := s.revision + 1 }

def State.taken (s : State) (serial : Text) : Bool := s.entries.any fun e => e.serial = serial

def State.guarded (s : State) (rev : ℕ) (absent : Option Text) : Bool :=
  decide (s.seqRevision = rev) && match absent with
    | some serial => !s.taken serial
    | none => true

/-- **What a request does**, of a participant that is alive. A thread that cannot have a lock
waits. -/
def step (t : Tid) (s : State) : (c : Cmd) → Choice → Option (c.Ans × State)
  | .begin, _ => some ((), { s with begun := Function.update s.begun t s.bundles.length })
  | .ensureDirs, ch => read ch s (.ok ())
  | .initHMAC, ch => read ch s (.ok ())
  | .lockBootstrap, ch =>
      if ch.fails then some (.error .unavailable, s)
      else if s.bootstrapLock = none then some (.ok (), { s with bootstrapLock := some t })
      else none
  | .unlockBootstrap, _ => some ((), { s with
      bootstrapLock := none
      touching := s.touching.filter (· ≠ t) })
  | .getCAKey, ch => read ch s (orNotExist s.caKey)
  | .hasCAKey, ch => read ch s (.ok s.caKey.isSome)
  | .saveCAKey key, ch => write ch s { s with caKey := some key }
  | .getCACert, ch => read ch s (orNotExist s.caCert)
  | .hasCACert, ch => read ch s (.ok s.caCert.isSome)
  | .saveCACert bundle, ch =>
      write ch s { s with caCert := some bundle, bundles := bundle :: s.bundles }
  | .generateKey, ch => read ch s (.ok ch.key)
  | .selfSign key, ch => read ch s (.ok (selfSigned key ch))
  | .savePubKey, ch => write ch s { s with pubKey := true }
  | .getCRL, ch => read ch s (if s.crl then .ok () else .error .notExist)
  | .updateCRL, ch => write ch s { s with crl := true }
  | .planCRLImport, ch => read ch s (.ok ch.changes)
  | .resignStoredCRL, ch => read ch s (.ok ())
  | .hasSerial, ch => read ch s (.ok s.serial)
  | .writeSerial, ch => write ch s { s with serial := true }
  | .now, ch => some (ch.now, s)
  | .hasInventory, ch =>
      -- Whoever finds no inventory goes on to create one.
      some (if ch.fails then (.error .unavailable, s)
        else if s.marker then (.ok true, s)
        else (.ok false, { s with touching := t :: s.touching }))
  | .readSeq, ch => read ch s (.ok s.seqRevision)
  | .readFence serial, ch => read ch s (.ok (s.seqRevision, s.taken serial))
  | .commit rev absent ops, ch =>
      -- The guards are on the revision of the counter, and on the serial being free.
      some (if ch.fails && !ch.lands then (.error .unavailable, s)
        else if s.guarded rev absent then
          (if ch.fails then .error .unavailable else .ok (some (s.revision + 1)), s.committed ops)
        else (if ch.fails then .error .unavailable else .ok none, s))
  | .backoff, ch => read ch s (.ok ())
  | .awaitStarted, _ => if s.started t.replica then some ((), s) else none
  | .setStarted, _ => some ((), { s with started := Function.update s.started t.replica true })
  | .crash victim, _ => some ((), { s with
      dead := victim :: s.dead
      bootstrapLock := if s.bootstrapLock = some victim then none else s.bootstrapLock
      touching := s.touching.filter (· ≠ victim) })

/-- **What a request does**: nothing is done by the dead. -/
def exec (t : Tid) (s : State) (c : Cmd) (ch : Choice) : Option (c.Ans × State) :=
  if t ∈ s.dead then none else step t s c ch

abbrev machine : Machine interface := ⟨State, Tid, Choice, exec⟩

/-! ### The inventory -/

def etcdMaxTxnRetries : ℕ := 16

/-- The attempts of `AppendEntry`. -/
def appendAttempts (e : InventoryEntry) : ℕ → Prog Unit
  | 0 => .fail .appendContention
  | n + 1 => (cmd (.readFence e.serial)).orFail.bind fun fence =>
      if fence.2 then .fail (.duplicateSerial e.serial)
      else (cmd (.commit fence.1 (some e.serial) [.putEntry e, .touch])).orFail.bind fun resp =>
        match resp with
        | some _ => .ret ()
        | none => (cmd .backoff).orFail.bind fun _ => appendAttempts e n

def appendEntry (e : InventoryEntry) : Prog Unit := appendAttempts e etcdMaxTxnRetries

/-- `replaceInventoryOnce` with no record to import: the structure is cleared, then the marker is
written. The answer is whether there was a conflict. -/
def replaceInventoryOnce : Prog Bool :=
  (cmd .readSeq).orFail.bind fun rev =>
    (cmd (.commit rev none [.clear])).orFail.bind fun resp =>
      match resp with
      | none => .ret true
      | some rev => (cmd (.commit rev none [.touch])).orFail.bind fun resp => .ret resp.isNone

/-- The attempts of `putInventory`. -/
def putAttempts : ℕ → Prog Unit
  | 0 => .fail .replaceContention
  | n + 1 => replaceInventoryOnce.bind fun conflict =>
      if conflict then (cmd .backoff).orFail.bind fun _ => putAttempts n else .ret ()

/-- `putInventory` of an empty blob. -/
def putInventory : Prog Unit := putAttempts etcdMaxTxnRetries

/-- `TouchInventory`: an empty inventory, if there is none. -/
def touchInventory : Prog Unit :=
  (cmd .hasInventory).orFail.bind fun ok => if ok then .ret () else putInventory

/-! ### Starting -/

/-- `WithLock` with the name `lockNameBootstrap`. -/
def withBootstrapLock {α : Type} (body : Prog α) : Prog α :=
  (cmd .lockBootstrap).orFail.bind fun _ => body.ensure (cmd .unlockBootstrap)

/-- The serial counter is written, if there is none. -/
def ensureSerial : Prog Unit :=
  (cmd .hasSerial).orFail.bind fun has => if has then .ret () else (cmd .writeSerial).orFail

/-- `loadCA`: the stored key, and the first certificate of the stored bundle, if it binds the
key. -/
def loadCA : Prog (PublicKey × Certificate) :=
  (cmd .getCAKey).orFail.bind fun key =>
    (cmd .getCACert).orFail.bind fun bundle =>
      match bundle with
      | [] => .fail .badBundle
      | cert :: _ =>
          if checkCAKeyType cert.publicKey then
            if cert.publicKey = key then .ret (key, cert) else .fail .keyMismatch
          else .fail .keyType

def seedSupportingStateLocked : Prog Unit :=
  (cmd .savePubKey).orFail.bind fun _ =>
    (cmd .getCRL).bind fun
      | .ok _ => .ret ()
      | .error .notExist =>
          (cmd .updateCRL).orFail.bind fun _ => touchInventory.bind fun _ => ensureSerial
      | .error e => .fail e

def seedSupportingState : Prog Unit := withBootstrapLock seedSupportingStateLocked

/-- `finishLoadExisting`. The serial index and the certificate index, whose failures are logged,
are left out. -/
def finishLoadExisting (seed : Prog Unit) : Prog Unit :=
  (cmd .getCRL).bind fun
    | .ok _ => .ret ()
    | .error .notExist => seed.bind fun _ => (cmd .getCRL).orFail
    | .error e => .fail e

/-- `bootstrapCA`: a key and a certificate for it, a public key, a list and an inventory. -/
def bootstrapCA : Prog (PublicKey × Certificate) :=
  (cmd .generateKey).orFail.bind fun key =>
    (cmd (.selfSign key)).orFail.bind fun cert =>
      (cmd (.saveCAKey key)).orFail.bind fun _ =>
        (cmd (.saveCACert [cert])).orFail.bind fun _ =>
          (cmd .savePubKey).orFail.bind fun _ =>
            (cmd .updateCRL).orFail.bind fun _ => touchInventory.bind fun _ => .ret (key, cert)

/-- What `Init` does under the lock: it looks again, and generates an authority only where neither a
key nor a certificate is stored. -/
def initLocked (noBootstrap : Bool) : Prog (PublicKey × Certificate) :=
  (loadCA.attempt : Prog (Except Failure (PublicKey × Certificate))).bind fun
    | .ok pair => (finishLoadExisting seedSupportingStateLocked).bind fun _ => .ret pair
    | .error _ =>
        (cmd .hasCACert).orFail.bind fun hasCert =>
          (cmd .hasCAKey).orFail.bind fun hasKey =>
            match hasCert, hasKey with
            | false, true => .fail .keyWithoutCert
            | true, false => .fail .certWithoutKey
            | false, false => if noBootstrap then .fail .noBootstrap else bootstrapCA
            | true, true => .fail .loadFailed

/-- **`Init`**, with a key that is stored locally: the pair it has loaded. -/
def init (noBootstrap : Bool) : Prog (PublicKey × Certificate) :=
  (cmd .begin).bind fun _ =>
    (cmd .ensureDirs).orFail.bind fun _ =>
      (cmd .initHMAC).orFail.bind fun _ =>
        (loadCA.attempt : Prog (Except Failure (PublicKey × Certificate))).bind fun
          | .ok pair => (finishLoadExisting seedSupportingState).bind fun _ => .ret pair
          | .error _ => withBootstrapLock (initLocked noBootstrap)

/-! ### Operators -/

/-- What `LoadOrCreateCAKey` does under the lock: nothing, if there is a key by now. -/
def createCAKeyLocked : Prog (Option PublicKey) :=
  (cmd .hasCAKey).orFail.bind fun hasKey =>
    if hasKey then .ret none
    else
      (cmd .generateKey).orFail.bind fun key =>
        (cmd .ensureDirs).orFail.bind fun _ =>
          (cmd (.saveCAKey key)).orFail.bind fun _ => .ret (some key)

/-- `LoadOrCreateCAKey`, with a key that is stored locally. -/
def loadOrCreateCAKey (create : Bool) : Prog PublicKey :=
  (cmd .hasCAKey).orFail.bind fun hasKey =>
    if hasKey then (cmd .getCAKey).orFail
    else if create then
      (withBootstrapLock createCAKeyLocked).bind fun created =>
        match created with
        | some key => .ret key
        | none => (cmd .getCAKey).orFail
    else .fail .keyNotFound

/-- `ParseCABundle`, `ValidateCABundleOrder` and `AssertSignerMatchesCert`, in a row. The bundle is
what it parses to, if it parses. -/
def checkBundle (bundle : Option (List Certificate)) (signer : PublicKey) :
    Prog (List Certificate) :=
  match bundle with
  | none => .fail .badBundle
  | some certs => (cmd .now).bind fun now =>
      if validateCABundleOrder now certs then
        match certs with
        | [] => .fail .badBundle
        | cert :: rest =>
            if cert.publicKey = signer then .ret (cert :: rest) else .fail .keyMismatch
      else .fail .badBundle

/-- `importCAMaterial`, with no key to write. -/
def importCAMaterial (bundle : Option (List Certificate)) (signer : PublicKey) : Prog Unit :=
  (checkBundle bundle signer).bind fun certs =>
    (cmd .ensureDirs).orFail.bind fun _ =>
      (cmd .planCRLImport).orFail.bind fun _ =>
        (cmd (.saveCACert certs)).orFail.bind fun _ =>
          (cmd .savePubKey).orFail.bind fun _ =>
            (cmd .planCRLImport).orFail.bind fun changed =>
              (if changed then (cmd .updateCRL).orFail else .ret ()).bind fun _ =>
                ensureSerial.bind fun _ => touchInventory

/-- The section of `ImportCACertificate` under the bootstrap lock. -/
def importLocked (bundle : Option (List Certificate)) (signer : PublicKey) (force : Bool) :
    Prog Unit :=
  (cmd .hasCACert).orFail.bind fun hasCert =>
    if hasCert && !force then .fail .caCertExists
    else
      (if hasCert then (cmd .resignStoredCRL).orFail else .ret ()).bind fun _ =>
        importCAMaterial bundle signer

def importCACertificate (bundle : Option (List Certificate)) (signer : PublicKey) (force : Bool) :
    Prog Unit :=
  (checkBundle bundle signer).bind fun _ => withBootstrapLock (importLocked bundle signer force)

/-- `openvox-ca import-ca-cert`: the signer is the key of the authority. -/
def importCommand (bundle : Option (List Certificate)) (force : Bool) : Prog Unit :=
  (loadOrCreateCAKey false).bind fun signer =>
    (checkBundle bundle signer).bind fun _ => importCACertificate bundle signer force

/-! ### The workload -/

/-- What a participant may do. A replica issues once it has started. -/
inductive Op
  | init (noBootstrap : Bool)
  | createKey (create : Bool)
  | importCert (bundle : Option (List Certificate)) (force : Bool)
  | issue (e : InventoryEntry)
  | crash (victim : Tid)

/-- What it returns: the pair that was loaded, if it was a start. -/
abbrev Res := Option (PublicKey × Certificate)

def operation : Op → Prog Res
  | .init noBootstrap => (init noBootstrap).bind fun pair =>
      (cmd .setStarted).bind fun _ => .ret (some pair)
  | .createKey create => (loadOrCreateCAKey create).bind fun _ => .ret none
  | .importCert bundle force => (importCommand bundle force).bind fun _ => .ret none
  | .issue e => (cmd .awaitStarted).bind fun _ => (appendEntry e).bind fun _ => .ret none
  | .crash victim => (cmd (.crash victim)).bind fun _ => .ret none

/-- **Any number of replicas and operators.** -/
abbrev work : Workload interface Tid := ⟨Op, Failure, Res, fun _ op => operation op⟩

/-- The participants in the middle of a run. -/
abbrev Cluster := Pool machine work

abbrev Event := Label machine work

end OpenvoxCa.Ca.Startup
