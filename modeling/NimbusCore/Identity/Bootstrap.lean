import NimbusCore.Store.Raft
import NimbusCore.Support.Results

/-!
# Identity — bootstrap, enrolment, and where the data encryption key comes from

`internal/identity`, `RequestSVID` of `internal/apiserver/identity_service.go` and
`loadOrBootstrapIdentity` of `cmd/nimbus-apiserver`.  A bootstrap node draws a certificate authority
and a data encryption key (DEK) at its first start, saves both under its data directory, and reads
them back at every later start.  Every other control-plane node asks the bootstrap node for a
certificate and is given the DEK with it.  The store is opened with the DEK.

SPIFFE, X.509, PEM and the JSON of the saved state are a parameter (`Pki`), with what the code
relies on in `Pki.Lawful`.  What the random source, the clock and the operating system deliver
during one start is a `StartDraw`.

* `load_save`: what is saved is what is loaded.
* `loadOrBootstrapIdentity_persists`: after a start of a bootstrap node the saved state holds the
  DEK of the start.
* `requestSVID_dek`: a control-plane node is given the DEK of the service.
-/

namespace NimbusCore.Identity

open Store

/-- `persistedBootstrap`. -/
structure PersistedBootstrap where
  trustDomain : GoString
  caKeyPem : GoString
  caCertPem : GoString
  dek : Bytes

/-- The libraries the package calls.  An operation that draws on randomness or the clock takes
that as a seed. -/
structure Pki where
  TrustDomain : Type
  SpiffeID : Type
  PrivateKey : Type
  PublicKey : Type
  Certificate : Type
  Csr : Type
  trustDomainFromString : GoString → Option TrustDomain
  trustDomainString : TrustDomain → GoString
  fromPath : TrustDomain → GoString → Option SpiffeID
  memberOf : SpiffeID → TrustDomain → Bool
  publicKey : PrivateKey → PublicKey
  marshalECPrivateKey : PrivateKey → Option Bytes
  parseECPrivateKey : Bytes → Option PrivateKey
  raw : Certificate → Bytes
  parseCertificate : Bytes → Option Certificate
  parseCertificateRequest : Bytes → Option Csr
  checkSignature : Csr → Bool
  ecdsaPublicKey : Csr → Option PublicKey
  pemEncode : GoString → Bytes → GoString
  pemDecode : GoString → Option Bytes
  marshalIndent : PersistedBootstrap → Bytes
  unmarshal : Bytes → Option PersistedBootstrap
  /-- `x509.CreateCertificate` on the template of `NewCA`. -/
  selfSign : (seed : Bytes) → TrustDomain → PrivateKey → Option Bytes
  /-- `x509.CreateCertificate` on the template of `IssueSVID`. -/
  sign : (seed : Bytes) → (ttl : Int) → Certificate → PrivateKey → PublicKey → SpiffeID →
    Option Bytes

/-- The types of the two PEM blocks. -/
def pemTypeKey : GoString := goString "EC PRIVATE KEY"
def pemTypeCertificate : GoString := goString "CERTIFICATE"

/-- What the code relies on of the libraries: what is written is read back. -/
structure Pki.Lawful (P : Pki) : Prop where
  trustDomain : ∀ td, P.trustDomainFromString (P.trustDomainString td) = some td
  key : ∀ k der, P.marshalECPrivateKey k = some der → P.parseECPrivateKey der = some k
  certificate : ∀ c, P.parseCertificate (P.raw c) = some c
  pem : ∀ type der, P.pemDecode (P.pemEncode type der) = some der
  json : ∀ td key cert dek,
    let st := ⟨P.trustDomainString td, P.pemEncode pemTypeKey key,
      P.pemEncode pemTypeCertificate cert, dek⟩
    P.unmarshal (P.marshalIndent st) = some st

/-- The errors of the package, of the service and of the start. -/
inductive IdentityError where
  /-- `os.IsNotExist`. -/
  | notExist
  /-- "identity: marshal CA key: %w". -/
  | marshalKey
  /-- "identity: write bootstrap state: %w". -/
  | writeState
  /-- "identity: parse bootstrap state: %w". -/
  | parseState
  /-- "identity: parse persisted trust domain: %w". -/
  | parseTrustDomain
  /-- "identity: decode persisted CA key PEM". -/
  | decodeKeyPem
  /-- "identity: parse persisted CA key: %w". -/
  | parseKey
  /-- "identity: decode persisted CA cert PEM". -/
  | decodeCertPem
  /-- "identity: parse persisted CA cert: %w". -/
  | parseCert
  /-- "identity: invalid trust domain %q: %w". -/
  | invalidTrustDomain (trustDomain : GoString)
  /-- "identity: generate CA key: %w". -/
  | generateCAKey
  /-- "identity: generate serial number: %w". -/
  | serial
  /-- "identity: self-sign CA cert: %w". -/
  | selfSign
  /-- "identity: parse CA cert: %w". -/
  | parseCACert
  /-- "identity: %s is not a member of trust domain %s". -/
  | notMember
  /-- "identity: issue SVID for %s: %w". -/
  | issue
  /-- `x509.ParseCertificate`'s own error. -/
  | parseIssued
  /-- "identity: generate key: %w". -/
  | generateKey
  /-- "identity: create CSR: %w". -/
  | createCSR
  /-- `spiffeid.FromPathf`'s own error. -/
  | spiffeID
  /-- `rand.Read`'s own error. -/
  | random
  /-- "apiserver: create data dir: %w". -/
  | createDataDir
  /-- "apiserver: persist bootstrap identity: %w". -/
  | persist (err : IdentityError)
  /-- "apiserver: load persisted bootstrap identity from %s: %w". -/
  | loadPersisted (path : GoString) (err : IdentityError)
  /-- `PermissionDenied`: "invalid join token". -/
  | invalidJoinToken
  /-- `InvalidArgument`: "node_name is required". -/
  | nodeNameRequired
  /-- `InvalidArgument`: "parse CSR: %v". -/
  | parseCSR
  /-- `InvalidArgument`: "CSR signature invalid: %v". -/
  | csrSignature
  /-- `InvalidArgument`: "CSR must use an ECDSA public key". -/
  | csrPublicKey
  /-- `InvalidArgument`: "role must be SVID_ROLE_NODE, SVID_ROLE_CONTROL_PLANE, or
  SVID_ROLE_CLIENT". -/
  | role
  /-- `Internal`: "build SPIFFE ID: %v". -/
  | buildSpiffeID
  /-- `Internal`: "issue SVID: %v". -/
  | issueSVID (err : IdentityError)
  /-- "identity: RequestSVID: %w", when the service is not reached. -/
  | unreachable
  /-- "identity: RequestSVID: %w". -/
  | requestSVID (err : IdentityError)
  /-- "identity: parse issued certificate: %w". -/
  | parseIssuedCertificate
  /-- "identity: parse trust bundle: %w". -/
  | parseTrustBundle

variable (P : Pki)

/-! ### The certificate authority -/

/-- `CA`. -/
structure CA where
  trustDomain : P.TrustDomain
  cert : P.Certificate
  key : P.PrivateKey

/-- `SVID`: the key material, and the trust bundle. -/
structure SVID where
  key : P.PrivateKey
  cert : P.Certificate
  bundle : P.Certificate

variable {P}

/-- `DefaultSVIDTTL`, in nanoseconds. -/
def defaultSVIDTTL : Int := 3600 * 10 ^ 9

/-- `NewCA`. -/
def newCA (P : Pki) (trustDomain : GoString) (key : Option P.PrivateKey) (seed : Option Bytes) :
    Except IdentityError (CA P) := do
  let td ← (P.trustDomainFromString trustDomain).orError (.invalidTrustDomain trustDomain)
  let key ← key.orError .generateCAKey
  let seed ← seed.orError .serial
  let der ← (P.selfSign seed td key).orError .selfSign
  let cert ← (P.parseCertificate der).orError .parseCACert
  return ⟨td, cert, key⟩

/-- `CA.IssueSVID`. -/
def CA.issueSVID (ca : CA P) (pub : P.PublicKey) (id : P.SpiffeID) (ttl : Int)
    (seed : Option Bytes) : Except IdentityError P.Certificate := do
  require (P.memberOf id ca.trustDomain) .notMember
  let seed ← seed.orError .serial
  let ttl := if ttl ≤ 0 then defaultSVIDTTL else ttl
  let der ← (P.sign seed ttl ca.cert ca.key pub id).orError .issue
  (P.parseCertificate der).orError .parseIssued

/-! ### The saved state -/

/-- The files of a node, by path. -/
abbrev Files := Dict GoString Bytes

/-- `SaveBootstrapState`, where `written` tells whether `os.WriteFile` succeeds. -/
def saveBootstrapState (files : Files) (path : GoString) (ca : CA P) (dek : Bytes)
    (written : Bool) : Except IdentityError Files := do
  let keyDER ← (P.marshalECPrivateKey ca.key).orError .marshalKey
  let state : PersistedBootstrap :=
    { trustDomain := P.trustDomainString ca.trustDomain
      caKeyPem := P.pemEncode pemTypeKey keyDER
      caCertPem := P.pemEncode pemTypeCertificate (P.raw ca.cert)
      dek := dek }
  require written .writeState
  return files.insert path (P.marshalIndent state)

/-- `LoadBootstrapState`. -/
def loadBootstrapState (P : Pki) (files : Files) (path : GoString) :
    Except IdentityError (CA P × Bytes) := do
  let raw ← (files.lookup path).orError .notExist
  let state ← (P.unmarshal raw).orError .parseState
  let td ← (P.trustDomainFromString state.trustDomain).orError .parseTrustDomain
  let keyBlock ← (P.pemDecode state.caKeyPem).orError .decodeKeyPem
  let key ← (P.parseECPrivateKey keyBlock).orError .parseKey
  let certBlock ← (P.pemDecode state.caCertPem).orError .decodeCertPem
  let cert ← (P.parseCertificate certBlock).orError .parseCert
  return (⟨td, cert, key⟩, state.dek)

variable {files : Files} {dek : Bytes}

/-- **What is saved is what is loaded.** -/
theorem load_save (hP : P.Lawful) {files' : Files} {path : GoString} {ca : CA P} {written : Bool}
    (h : saveBootstrapState files path ca dek written = .ok files') :
    loadBootstrapState P files' path = .ok (ca, dek) := by
  obtain ⟨keyDER, hkey, h⟩ := Except.bind_eq_ok.mp h
  obtain ⟨-, -, h⟩ := Except.bind_eq_ok.mp h
  cases h
  rw [Option.orError_eq_ok] at hkey
  have hjson := hP.json ca.trustDomain keyDER (P.raw ca.cert) dek
  simp [loadBootstrapState, Option.orError, hjson, hP.trustDomain, hP.pem, hP.key _ _ hkey,
    hP.certificate, pure, Except.pure]

/-! ### The identity service -/

/-- `SVIDRole`. -/
inductive SVIDRole where
  | unspecified
  | node
  | controlPlane
  | client
  | unrecognized (code : Int)
  deriving DecidableEq

/-- `RequestSVIDRequest`. -/
structure RequestSVIDRequest where
  joinToken : GoString
  csrDer : Bytes
  nodeName : GoString
  role : SVIDRole

/-- `RequestSVIDResponse`. -/
structure RequestSVIDResponse where
  certDer : Bytes
  trustBundleDer : Bytes
  dataEncryptionKey : Bytes

/-- `identityService`. -/
structure IdentityService (P : Pki) where
  ca : CA P
  joinToken : GoString
  svidTTL : Int
  dataEncryptionKey : Bytes

/-- The path of the SPIFFE ID of a role. -/
def idPath (role : SVIDRole) (name : GoString) : Option GoString :=
  match role with
  | .node => some (goString "/node/" ++ name)
  | .controlPlane => some (goString "/control-plane/" ++ name)
  | .client => some (goString "/client/" ++ name)
  | .unspecified | .unrecognized _ => none

/-- `RequestSVID`. -/
def IdentityService.requestSVID (svc : IdentityService P) (req : RequestSVIDRequest)
    (seed : Option Bytes) : Except IdentityError RequestSVIDResponse := do
  require (req.joinToken = svc.joinToken) .invalidJoinToken
  require (req.nodeName ≠ []) .nodeNameRequired
  let csr ← (P.parseCertificateRequest req.csrDer).orError .parseCSR
  require (P.checkSignature csr) .csrSignature
  let pub ← (P.ecdsaPublicKey csr).orError .csrPublicKey
  let path ← (idPath req.role req.nodeName).orError .role
  let id ← (P.fromPath svc.ca.trustDomain path).orError .buildSpiffeID
  let cert ← (svc.ca.issueSVID pub id svc.svidTTL seed).mapError .issueSVID
  return { certDer := P.raw cert
           trustBundleDer := P.raw svc.ca.cert
           dataEncryptionKey := if req.role = .controlPlane then svc.dataEncryptionKey else [] }

/-- **A control-plane node is given the key the service was made with**; other roles are given
none. -/
theorem requestSVID_dek {svc : IdentityService P} {req : RequestSVIDRequest} {seed : Option Bytes}
    {resp : RequestSVIDResponse} (h : svc.requestSVID req seed = .ok resp) :
    resp.dataEncryptionKey = if req.role = .controlPlane then svc.dataEncryptionKey else [] := by
  simp only [IdentityService.requestSVID, Except.bind_eq_ok] at h
  obtain ⟨_, -, _, -, _, -, _, -, _, -, _, -, _, -, _, -, h⟩ := h
  cases h
  rfl

/-! ### The start of a control-plane node -/

/-- The flags `loadOrBootstrapIdentity` reads, and the path of the saved state. -/
structure StartConfig where
  bootstrap : Bool
  trustDomain : GoString
  nodeID : GoString
  joinToken : GoString
  statePath : GoString

/-- What one start meets: what the random source and the clock deliver, whether the directory and
the file can be written, and whether the bootstrap node is reached. -/
structure StartDraw (P : Pki) where
  caKey : Option P.PrivateKey
  caSeed : Option Bytes
  dek : Option { dek : Bytes // dek.length = EncryptionKeySize }
  mkdir : Bool
  written : Bool
  key : Option P.PrivateKey
  csr : Option Bytes
  reached : Bool
  seed : Option Bytes

/-- `Enroll`, of the node `name` in the role `role` at the service `svc`. -/
def enroll (svc : IdentityService P) (joinToken name : GoString) (role : SVIDRole)
    (draw : StartDraw P) : Except IdentityError (SVID P × Bytes) := do
  let key ← draw.key.orError .generateKey
  let csrDER ← draw.csr.orError .createCSR
  require draw.reached .unreachable
  let resp ← (svc.requestSVID ⟨joinToken, csrDER, name, role⟩ draw.seed).mapError .requestSVID
  let cert ← (P.parseCertificate resp.certDer).orError .parseIssuedCertificate
  let caCert ← (P.parseCertificate resp.trustBundleDer).orError .parseTrustBundle
  return (⟨key, cert, caCert⟩, resp.dataEncryptionKey)

/-- The first start of a bootstrap node: a new authority and a new key, saved. -/
def bootstrapNew (cfg : StartConfig) (files : Files) (draw : StartDraw P) :
    Except IdentityError (Files × CA P × Bytes) := do
  let ca ← newCA P cfg.trustDomain draw.caKey draw.caSeed
  let dek ← draw.dek.orError .random
  require draw.mkdir .createDataDir
  let files ← (saveBootstrapState files cfg.statePath ca dek.1 draw.written).mapError .persist
  return (files, ca, dek.1)

/-- The authority and the key of a bootstrap node: the saved ones, or new ones when nothing is
saved. -/
def loadOrBootstrapState (cfg : StartConfig) (files : Files) (draw : StartDraw P) :
    Except IdentityError (Files × CA P × Bytes) :=
  match loadBootstrapState P files cfg.statePath with
  | .ok (ca, dek) => .ok (files, ca, dek)
  | .error .notExist => bootstrapNew cfg files draw
  | .error err => .error (.loadPersisted cfg.statePath err)

/-- What `loadOrBootstrapIdentity` returns, with the files it leaves. -/
structure Started (P : Pki) where
  files : Files
  svid : SVID P
  ca : Option (CA P)
  dek : Bytes

/-- `loadOrBootstrapIdentity`.  A node that does not bootstrap enrols at `svc`. -/
def loadOrBootstrapIdentity (cfg : StartConfig) (svc : IdentityService P) (files : Files)
    (draw : StartDraw P) : Except IdentityError (Started P) :=
  if cfg.bootstrap then do
    let (files, ca, dek) ← loadOrBootstrapState cfg files draw
    let key ← draw.key.orError .generateKey
    let id ← (P.fromPath ca.trustDomain (goString "/control-plane/" ++ cfg.nodeID)).orError
      .spiffeID
    let cert ← ca.issueSVID (P.publicKey key) id defaultSVIDTTL draw.seed
    return ⟨files, ⟨key, cert, ca.cert⟩, some ca, dek⟩
  else do
    let (svid, dek) ← enroll svc cfg.joinToken cfg.nodeID .controlPlane draw
    return ⟨files, svid, none, dek⟩

variable {cfg : StartConfig} {svc : IdentityService P} {draw : StartDraw P} {st : Started P}

/-- After a start of a bootstrap node the saved state holds the authority and the key it runs
with. -/
theorem loadOrBootstrapState_persists (hP : P.Lawful) {files' : Files}
    {ca : CA P} (h : loadOrBootstrapState cfg files draw = .ok (files', ca, dek)) :
    loadBootstrapState P files' cfg.statePath = .ok (ca, dek) := by
  simp only [loadOrBootstrapState] at h
  split at h
  · next hload => cases h; exact hload
  · simp only [bootstrapNew, Except.bind_eq_ok] at h
    obtain ⟨ca', -, dek', -, -, -, files₁, hsave, h⟩ := h
    cases h
    exact load_save hP (Except.mapError_eq_ok.mp hsave)
  · cases h

theorem loadOrBootstrapIdentity_persists (hP : P.Lawful) (hb : cfg.bootstrap = true)
    (h : loadOrBootstrapIdentity cfg svc files draw = .ok st) :
    ∃ ca, st.ca = some ca ∧ loadBootstrapState P st.files cfg.statePath = .ok (ca, st.dek) := by
  rw [loadOrBootstrapIdentity, if_pos hb] at h
  obtain ⟨⟨files', ca, dek⟩, hst, h⟩ := Except.bind_eq_ok.mp h
  simp only [Except.bind_eq_ok] at h
  obtain ⟨_, -, _, -, _, -, h⟩ := h
  cases h
  exact ⟨ca, rfl, loadOrBootstrapState_persists hP hst⟩

/-- A bootstrap node that finds its saved state runs with it. -/
theorem loadOrBootstrapIdentity_reuses (hb : cfg.bootstrap = true) {ca : CA P}
    (hload : loadBootstrapState P files cfg.statePath = .ok (ca, dek))
    (h : loadOrBootstrapIdentity cfg svc files draw = .ok st) :
    st.files = files ∧ st.ca = some ca ∧ st.dek = dek := by
  rw [loadOrBootstrapIdentity, if_pos hb, loadOrBootstrapState, hload] at h
  simp only [Except.ok_bind, Except.bind_eq_ok] at h
  obtain ⟨_, -, _, -, _, -, h⟩ := h
  cases h
  exact ⟨rfl, rfl, rfl⟩

/-- A node that joins runs with the key of the service it enrols at. -/
theorem loadOrBootstrapIdentity_joins (hb : cfg.bootstrap = false)
    (h : loadOrBootstrapIdentity cfg svc files draw = .ok st) :
    st.files = files ∧ st.ca = none ∧ st.dek = svc.dataEncryptionKey := by
  rw [loadOrBootstrapIdentity, if_neg (by simp [hb])] at h
  obtain ⟨⟨svid, dek⟩, he, h⟩ := Except.bind_eq_ok.mp h
  cases h
  simp only [enroll, Except.bind_eq_ok] at he
  obtain ⟨_, -, _, -, _, -, resp, hresp, _, -, _, -, he⟩ := he
  cases he
  exact ⟨rfl, rfl, requestSVID_dek (Except.mapError_eq_ok.mp hresp)⟩

end NimbusCore.Identity
