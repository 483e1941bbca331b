import OpenvoxCa.Api.ClientCrl
import OpenvoxCa.Data.Escape

/-!
# Who may reach which handler

Two readers of a request path. The route table of `handlers.go` is matched by `net/http`, which
splits the escaped path at its slashes and decodes the segments; `newAuthMiddleware` runs before it
and classifies the decoded path by what it begins with (`lookupTier` in `auth.go`). The two tables
are written separately, and nothing in the code makes them agree.

They do (`access_follows_route`). A pattern of the table is a few literal segments with at most one
wildcard behind them, so that the decoded path of a request that matches begins with a text that
only depends on the route, and each test of `lookupTier` is decided by that text: whatever the
wildcard stands for cannot make a difference (`tierOf_append`). That leaves a finite table to look
at.

What `net/http` does is stated as `Dispatches`: any route that matches may be the one that is taken.
Certificate verification and the state of this CA's own CRL are parameters of the middleware.
Logging, metrics and the principal handed to the handler are left out.
-/

namespace OpenvoxCa.Api

open Ca (Time)

/-! ### The route table -/

inductive Handler
  | getStatus | putStatus | deleteStatus | putStatusBySerial | getStatuses
  | getRequest | putRequest | deleteRequest | getCert | putCert | getCRL | reissueCRL
  | ocsp | getExpirations | postSign | postSignAll | putClean | postGenerate
  | postCertificateRenewal | live | ready | startup
  deriving DecidableEq, Repr

/-- A pattern: literal segments, and the name of a wildcard behind them if there is one. -/
structure Pattern where
  literals : List Text
  wildcard : Option Text := none
  deriving DecidableEq, Repr

/-- A line of the table. -/
structure Route where
  method : Text
  path : Pattern
  handler : Handler
  deriving DecidableEq, Repr

/-- A route whose path is one segment and a wildcard. -/
def wildRoute (method segment wildcard : String) (handler : Handler) : Route :=
  ⟨method.toList, ⟨[segment.toList], some wildcard.toList⟩, handler⟩

/-- A route whose path is fixed. -/
def fixedRoute (method : String) (segments : List String) (handler : Handler) : Route :=
  ⟨method.toList, ⟨segments.map String.toList, none⟩, handler⟩

/-- `routes` of `Routes`. -/
def routes : List Route :=
  [wildRoute "GET" "certificate_status" "subject" .getStatus,
    wildRoute "PUT" "certificate_status" "subject" .putStatus,
    wildRoute "DELETE" "certificate_status" "subject" .deleteStatus,
    wildRoute "PUT" "certificate_status_by_serial" "serial" .putStatusBySerial,
    wildRoute "GET" "certificate_statuses" "ignored" .getStatuses,
    wildRoute "GET" "certificate_request" "subject" .getRequest,
    wildRoute "PUT" "certificate_request" "subject" .putRequest,
    wildRoute "DELETE" "certificate_request" "subject" .deleteRequest,
    wildRoute "GET" "certificate" "subject" .getCert,
    wildRoute "PUT" "certificate" "subject" .putCert,
    fixedRoute "GET" ["certificate_revocation_list", "ca"] .getCRL,
    fixedRoute "PUT" ["certificate_revocation_list", "ca"] .reissueCRL,
    fixedRoute "POST" ["ocsp"] .ocsp,
    wildRoute "GET" "ocsp" "request" .ocsp,
    fixedRoute "GET" ["expirations"] .getExpirations,
    fixedRoute "POST" ["sign"] .postSign,
    fixedRoute "POST" ["sign", "all"] .postSignAll,
    fixedRoute "PUT" ["clean"] .putClean,
    wildRoute "POST" "generate" "subject" .postGenerate,
    fixedRoute "POST" ["certificate_renewal"] .postCertificateRenewal]

/-- The probes, which have no prefixed path. -/
def healthRoutes : List Route :=
  [fixedRoute "GET" ["healthz", "live"] .live,
    fixedRoute "GET" ["healthz", "ready"] .ready,
    fixedRoute "GET" ["healthz", "startup"] .startup]

/-- The segments of the prefix under which agents ask. -/
def prefixSegments : List Text := ["puppet-ca".toList, "v1".toList]

/-- The route under the prefix. -/
def Route.prefixed (r : Route) : Route :=
  { r with path := { r.path with literals := prefixSegments ++ r.path.literals } }

/-- **Everything that `Routes` registers.** -/
def table : List Route :=
  routes.flatMap (fun r => [r, r.prefixed]) ++ healthRoutes

/-! ### Dispatch -/

/-- Match decoded segments with a pattern; the value of the wildcard, which is not empty. -/
def Pattern.matchSegments (p : Pattern) (segs : List Text) : Option (Option Text) :=
  match p.wildcard with
  | none => if segs = p.literals then some none else none
  | some _ =>
    match segs.getLast? with
    | some value =>
      if segs.dropLast = p.literals ∧ value ≠ [] then some (some value) else none
    | none => none

/-- A pattern for `GET` serves `HEAD` as well. -/
def Route.serves (r : Route) (method : Text) : Bool :=
  r.method = method || (r.method = "GET".toList && method = "HEAD".toList)

/-- **The request is dispatched**: some route serves the method, and the decoded segments of the
escaped path match its pattern. -/
def Dispatches (method escaped : Text) (r : Route) (value : Option Text) : Prop :=
  r ∈ table ∧ r.serves method = true ∧ escaped.head? = some '/' ∧
    ∃ segs, (Data.segments escaped).mapM Data.unescape = some segs ∧
      r.path.matchSegments segs = some value

/-! ### Tiers -/

inductive AuthTier
  | tierPublic | tierOwnClient | tierSelfOrAdmin | tierAdminOnly
  deriving DecidableEq, Repr

/-- The tiers, in the order of the constants. -/
def AuthTier.strength : AuthTier → ℕ
  | .tierPublic => 0
  | .tierOwnClient => 1
  | .tierSelfOrAdmin => 2
  | .tierAdminOnly => 3

/-- `strings.TrimPrefix`. -/
def trimStart (s start : Text) : Text :=
  if start.isPrefixOf s then s.drop start.length else s

/-- What agents put in front of a path. -/
def agentPath : Text := "/puppet-ca/v1".toList

/-- `lookupTier`, on the path without what agents put in front of it. -/
def tierOf (method p : Text) (allowPublicStatus : Bool) : AuthTier :=
  if method = "GET".toList ∧ "/healthz/".toList.isPrefixOf p then .tierPublic
  else if method = "GET".toList ∧ "/certificate/".toList.isPrefixOf p then .tierPublic
  else if method = "GET".toList ∧ "/certificate_revocation_list/".toList.isPrefixOf p then
    .tierPublic
  else if method = "PUT".toList ∧ "/certificate_request/".toList.isPrefixOf p then .tierPublic
  else if "/ocsp".toList.isPrefixOf p then .tierPublic
  else if method = "GET".toList ∧ "/certificate_status/".toList.isPrefixOf p then
    if allowPublicStatus then .tierPublic else .tierAdminOnly
  else if method = "GET".toList ∧ p = "/expirations".toList then .tierPublic
  else if method = "GET".toList ∧ "/certificate_request/".toList.isPrefixOf p then
    .tierSelfOrAdmin
  else if method = "POST".toList ∧ p = "/certificate_renewal".toList then .tierOwnClient
  else .tierAdminOnly

/-! ### The middleware -/

/-- An extension of a client certificate: its identifier, and the string that its value encodes, if
it encodes one and nothing else. -/
structure CertExtension where
  id : List ℕ
  value : Option Text
  deriving DecidableEq, Repr

/-- A certificate that a client presents. -/
structure PeerCert extends ClientCert where
  extensions : List CertExtension := []
  deriving DecidableEq, Repr

def oidPpCliAuth : List ℕ := [1, 3, 6, 1, 4, 1, 34380, 1, 3, 39]

def hasPpCliAuth (cert : PeerCert) : Bool :=
  match cert.extensions.find? fun ext => ext.id = oidPpCliAuth with
  | some ext => ext.value = some "true".toList
  | none => false

structure TrustDomain where
  name : Text := []
  roots : List ClientCert
  /-- The names with admin authority; nothing, if the domain was not built by a constructor. -/
  admins : Option (List Text) := none
  own : Bool := false
  ppCliAuth : Bool := false
  crls : Option ClientCRLSet := none

def TrustDomain.isAdminCN (d : TrustDomain) (cn : Text) : Bool :=
  match d.admins with
  | some cns => cn ∈ cns
  | none => false

def isAdmin (d : TrustDomain) (cert : PeerCert) : Bool :=
  d.isAdminCN cert.commonName || (d.ppCliAuth && hasPpCliAuth cert)

structure AuthConfig where
  domains : List TrustDomain
  allowPublicStatus : Bool := false
  clientRevocationPolicy : Text := []

def AuthConfig.revocationPolicy (cfg : AuthConfig) : Text :=
  if cfg.clientRevocationPolicy = [] then revocationRequire else cfg.clientRevocationPolicy

def lookupTier (method path : Text) (cfg : Option AuthConfig) : AuthTier :=
  tierOf method (trimStart path agentPath) (cfg.any AuthConfig.allowPublicStatus)

def extractPathSubject (path : Text) : Text :=
  let path := trimStart path agentPath
  let starts := ["/certificate/".toList, "/certificate_status/".toList,
    "/certificate_request/".toList]
  match starts.find? fun start => start.isPrefixOf path with
  | some start => trimStart path start
  | none => []

/-- What the middleware asks of the rest of the program. -/
structure AuthEnv where
  /-- `Certificate.Verify` for client authentication, under the anchors given and with the
  intermediates given: the first chain, if there is one. -/
  verify : List ClientCert → PeerCert → List PeerCert → Option (List ClientCert)
  /-- `IsRevokedSerial`; nothing, if it fails. -/
  isRevokedSerial : ℤ → Option Bool
  now : Time

/-- `attribute`: the first domain that verifies the certificate, and the chain it built. -/
def attributeClient (env : AuthEnv) (cert : PeerCert) (presented : List PeerCert) :
    List TrustDomain → Option (TrustDomain × List ClientCert)
  | [] => none
  | d :: domains =>
    match env.verify d.roots cert presented with
    | some chain => some (d, chain)
    | none => attributeClient env cert presented domains

/-- Why a request is answered with `403`. -/
inductive Denial
  /-- `client certificate required`. -/
  | certificateRequired
  /-- `access denied`. -/
  | accessDenied
  deriving DecidableEq, Repr

/-- Whether the client is revoked, or that cannot be told. -/
def isRevoked (env : AuthEnv) (cfg : AuthConfig) (d : TrustDomain) (chain : List ClientCert)
    (cert : PeerCert) : Bool :=
  if d.own then env.isRevokedSerial cert.serialNumber ≠ some false
  else match checkChainRevocation chain d.crls cfg.revocationPolicy env.now with
    | .ok _ => false
    | .error _ => true

/-- Whether a client of domain `d` may pass a tier. -/
def passes (d : TrustDomain) (cert : PeerCert) (path : Text) : AuthTier → Bool
  | .tierOwnClient => d.own
  | .tierSelfOrAdmin =>
    let subject := extractPathSubject path
    isAdmin d cert || (d.own && subject ≠ [] && cert.commonName = subject)
  | .tierAdminOnly => isAdmin d cert
  -- `unclassified route`; a public one has been served before.
  | .tierPublic => false

/-- **`newAuthMiddleware`**: whether a request with the certificates `peer` is handed to the
routes. -/
def authorise (env : AuthEnv) (cfg : Option AuthConfig) (method path : Text)
    (peer : List PeerCert) : Except Denial Unit :=
  match cfg with
  | none => .ok ()
  | some cfg =>
    let tier := lookupTier method path (some cfg)
    if tier = .tierPublic then .ok ()
    else match peer with
      | [] => .error .certificateRequired
      | cert :: presented =>
        match attributeClient env cert presented cfg.domains with
        | none => .error .accessDenied
        | some (d, chain) =>
          if isRevoked env cfg d chain cert then .error .accessDenied
          else if passes d cert path tier then .ok ()
          else .error .accessDenied

/-! ### The text that decides -/

/-- What the decoded path begins with. -/
def Pattern.text (p : Pattern) : Text :=
  Data.join p.literals ++ if p.wildcard.isSome then ['/'] else []

variable {value : Option Text}

theorem Pattern.join_of_match {p : Pattern} {segs : List Text}
    (h : p.matchSegments segs = some value) : Data.join segs = p.text ++ value.getD [] := by
  unfold matchSegments at h
  cases hwild : p.wildcard with
  | none =>
    simp only [hwild, Option.ite_none_right_eq_some, Option.some.injEq] at h
    obtain ⟨rfl, rfl⟩ := h
    simp [text, hwild]
  | some name =>
    simp only [hwild] at h
    cases hlast : segs.getLast? with
    | none => simp [hlast] at h
    | some v =>
      simp only [hlast, Option.ite_none_right_eq_some, Option.some.injEq] at h
      obtain ⟨⟨hlit, -⟩, rfl⟩ := h
      have hsegs : segs = p.literals ++ [v] := by
        rw [← hlit, List.dropLast_append_getLast? v hlast]
      simp [text, hwild, hsegs, Data.join]

theorem Pattern.value_isSome {p : Pattern} {segs : List Text}
    (h : p.matchSegments segs = some value) : value.isSome = p.wildcard.isSome := by
  unfold matchSegments at h
  cases hwild : p.wildcard with
  | none =>
    simp only [hwild, Option.ite_none_right_eq_some, Option.some.injEq] at h
    rw [← h.2]
  | some name =>
    simp only [hwild] at h
    split at h
    · simp only [Option.ite_none_right_eq_some, Option.some.injEq] at h
      rw [← h.2]
      rfl
    · cases h

/-- What `lookupTier` looks for at the beginning of a path. -/
def tierStarts : List Text :=
  ["/healthz/".toList, "/certificate/".toList, "/certificate_revocation_list/".toList,
    "/certificate_request/".toList, "/ocsp".toList, "/certificate_status/".toList]

/-- What `lookupTier` compares the whole path with. -/
def tierPaths : List Text := ["/expirations".toList, "/certificate_renewal".toList]

/-- The text decides every test of `lookupTier`, whatever comes behind it. -/
def Decides (lit : Text) : Prop :=
  (∀ start ∈ tierStarts, lit.isPrefixOf start = true → start.isPrefixOf lit = true) ∧
    ∀ path ∈ tierPaths, lit.isPrefixOf path = false

instance (lit : Text) : Decidable (Decides lit) := by
  unfold Decides
  infer_instance

variable {path method escaped : Text}

theorem ne_of_not_isPrefixOf {lit : Text} (h : lit.isPrefixOf path = false) (s : Text) :
    lit ++ s ≠ path := by
  rintro rfl
  have hpre : lit.isPrefixOf (lit ++ s) = true :=
    List.isPrefixOf_iff_prefix.mpr (List.prefix_append lit s)
  rw [h] at hpre
  cases hpre

/-- **What the wildcard stands for makes no difference.** -/
theorem tierOf_append {lit : Text} (h : Decides lit) (method s : Text) (a : Bool) :
    tierOf method (lit ++ s) a = tierOf method lit a := by
  obtain ⟨hstarts, hpaths⟩ := h
  have hstart : ∀ start ∈ tierStarts, start.isPrefixOf (lit ++ s) = start.isPrefixOf lit :=
    fun start hmem => Data.isPrefixOf_append_eq (hstarts start hmem) s
  have hne : ∀ path ∈ tierPaths, lit ++ s ≠ path :=
    fun path hmem => ne_of_not_isPrefixOf (hpaths path hmem) s
  have hne' : ∀ path ∈ tierPaths, lit ≠ path := by
    intro path hmem
    have := ne_of_not_isPrefixOf (hpaths path hmem) []
    rwa [List.append_nil] at this
  simp only [tierStarts, tierPaths, List.forall_mem_cons, List.not_mem_nil, IsEmpty.forall_iff,
    implies_true, and_true] at hstart hne hne'
  simp only [tierOf, hstart, hne, hne']

/-- What agents put in front of a path is taken off it. -/
theorem trimStart_append (start s : Text) : trimStart (start ++ s) start = s := by
  have hpre : start.isPrefixOf (start ++ s) = true :=
    List.isPrefixOf_iff_prefix.mpr (List.prefix_append start s)
  rw [trimStart, if_pos hpre, List.drop_left]

theorem trimStart_of_differs {lit start : Text} (h : lit.isPrefixOf start = false)
    (h' : start.isPrefixOf lit = false) (s : Text) : trimStart (lit ++ s) start = lit ++ s := by
  have hpre : start.isPrefixOf (lit ++ s) = false := by
    rw [Data.isPrefixOf_append_eq (fun hc => by rw [h] at hc; cases hc), h']
  rw [trimStart, hpre]
  rfl

/-! ### What is asked -/

/-- **The tier of a handler**: what it takes to reach it. -/
def handlerTier (allowPublicStatus : Bool) : Handler → AuthTier
  | .getStatus => if allowPublicStatus then .tierPublic else .tierAdminOnly
  | .getRequest => .tierSelfOrAdmin
  | .postCertificateRenewal => .tierOwnClient
  | .putRequest | .getCert | .getCRL | .ocsp | .getExpirations | .live | .ready | .startup =>
    .tierPublic
  | _ => .tierAdminOnly

/-- The first domain whose anchors verify the certificate. -/
def FirstVerifier (env : AuthEnv) (domains : List TrustDomain) (cert : PeerCert)
    (presented : List PeerCert) (d : TrustDomain) : Prop :=
  ∃ before after, domains = before ++ d :: after ∧
    (∀ d' ∈ before, env.verify d'.roots cert presented = none) ∧
    (env.verify d.roots cert presented).isSome = true

/-- The client has presented a certificate that some domain verifies, and `P` holds of it and of the
first domain that does. -/
def VerifiedAs (env : AuthEnv) (cfg : AuthConfig) (peer : List PeerCert)
    (P : TrustDomain → PeerCert → Prop) : Prop :=
  ∃ cert presented d, peer = cert :: presented ∧
    FirstVerifier env cfg.domains cert presented d ∧ P d cert

/-- **What a tier admits**, for a request whose wildcard stands for `value`: as an administrator or
as the subject, a client is admitted by the first domain that verifies it, and as the subject only
by the CA's own. -/
def Admitted (env : AuthEnv) (cfg : AuthConfig) (peer : List PeerCert) (value : Option Text) :
    AuthTier → Prop
  | .tierPublic => True
  | .tierOwnClient => VerifiedAs env cfg peer fun d _ => d.own = true
  | .tierSelfOrAdmin => VerifiedAs env cfg peer fun d cert =>
      isAdmin d cert = true ∨ d.own = true ∧ value = some cert.commonName
  | .tierAdminOnly => VerifiedAs env cfg peer fun d cert => isAdmin d cert = true

/-- What is open to everyone. -/
def openHandlers : List Handler :=
  [.getCert, .getCRL, .getExpirations, .ocsp, .live, .ready, .startup, .putRequest]

/-! ### The two tables agree -/

/-- What has to be looked at of a route: the text decides, the tier of the method is the handler's,
and the one that `HEAD` falls into is that of administrators or public. -/
def Route.Sound (r : Route) (a : Bool) : Prop :=
  r.path.text.isPrefixOf agentPath = false ∧ agentPath.isPrefixOf r.path.text = false ∧
    (r.path.wildcard.isSome = true → Decides r.path.text) ∧
    tierOf r.method r.path.text a = handlerTier a r.handler ∧
    (r.method = "GET".toList → tierOf "HEAD".toList r.path.text a = .tierAdminOnly ∧
        r.handler ≠ .postCertificateRenewal ∨
      tierOf "HEAD".toList r.path.text a = handlerTier a r.handler) ∧
    (r.handler = .getRequest → r.path.text = "/certificate_request/".toList ∧
      r.path.wildcard.isSome = true)

instance (r : Route) (a : Bool) : Decidable (r.Sound a) := by
  unfold Route.Sound
  infer_instance

theorem sound_routes (a : Bool) : ∀ r ∈ routes ++ healthRoutes, r.Sound a := by
  cases a <;> decide

theorem Pattern.text_prefixed (r : Route) :
    r.prefixed.path.text = agentPath ++ r.path.text := by
  have hjoin : Data.join prefixSegments = agentPath := by decide
  change Data.join (prefixSegments ++ r.path.literals) ++ _ = agentPath ++ (_ ++ _)
  rw [← hjoin, Data.join, List.flatMap_append, List.append_assoc]
  rfl

/-- **The path that a tier is computed from**: the text of a route of the table, and what its
wildcard stands for. -/
theorem exists_route_of_dispatches {r : Route} (hdisp : Dispatches method escaped r value)
    (hpath : Data.unescape escaped = some path) :
    ∃ r₀ ∈ routes ++ healthRoutes, r₀.handler = r.handler ∧ r₀.serves method = true ∧
      value.isSome = r₀.path.wildcard.isSome ∧
      trimStart path agentPath = r₀.path.text ++ value.getD [] := by
  obtain ⟨hmem, hserves, hslash, segs, hsegs, hmatch⟩ := hdisp
  obtain ⟨segs', hsegs', rfl⟩ := Data.unescape_eq_join hslash hpath
  obtain rfl := Option.some.inj (hsegs.symm.trans hsegs')
  rw [Pattern.join_of_match hmatch]
  have hbare : ∀ r' ∈ routes ++ healthRoutes,
      trimStart (r'.path.text ++ value.getD []) agentPath = r'.path.text ++ value.getD [] := by
    intro r' hr'
    have hsound := sound_routes true r' hr'
    exact trimStart_of_differs hsound.1 hsound.2.1 _
  rcases List.mem_append.mp hmem with hmem | hmem
  · obtain ⟨r₀, hr₀, hr⟩ := List.mem_flatMap.mp hmem
    have hr₀' : r₀ ∈ routes ++ healthRoutes := List.mem_append_left _ hr₀
    rcases List.mem_cons.mp hr with rfl | hr
    · exact ⟨r, hr₀', rfl, hserves, Pattern.value_isSome hmatch, hbare r hr₀'⟩
    · obtain rfl := List.mem_singleton.mp hr
      have hvalue : value.isSome = r₀.prefixed.path.wildcard.isSome := Pattern.value_isSome hmatch
      refine ⟨r₀, hr₀', rfl, hserves, hvalue, ?_⟩
      rw [Pattern.text_prefixed, List.append_assoc, trimStart_append]
  · have hr' : r ∈ routes ++ healthRoutes := List.mem_append_right _ hmem
    exact ⟨r, hr', rfl, hserves, Pattern.value_isSome hmatch, hbare r hr'⟩

/-- **The tier of a dispatched request** is the handler's or, for `HEAD`, that of
administrators. -/
theorem lookupTier_of_dispatches {r : Route} (cfg : AuthConfig)
    (hdisp : Dispatches method escaped r value) (hpath : Data.unescape escaped = some path) :
    lookupTier method path (some cfg) = handlerTier cfg.allowPublicStatus r.handler ∨
      lookupTier method path (some cfg) = .tierAdminOnly ∧
        r.handler ≠ .postCertificateRenewal := by
  obtain ⟨r₀, hr₀, hhandler, hserves, hvalue, htrim⟩ := exists_route_of_dispatches hdisp hpath
  obtain ⟨-, -, hdecides, htier, hhead, -⟩ := sound_routes cfg.allowPublicStatus r₀ hr₀
  have htext : lookupTier method path (some cfg) =
      tierOf method r₀.path.text cfg.allowPublicStatus := by
    rw [lookupTier, htrim]
    change tierOf method _ cfg.allowPublicStatus = _
    cases value with
    | none => rw [Option.getD_none, List.append_nil]
    | some v => exact tierOf_append (hdecides hvalue.symm) method v _
  rw [htext, ← hhandler]
  rcases Bool.or_eq_true _ _ ▸ hserves with hmethod | hmethod
  · rw [← of_decide_eq_true hmethod]
    exact Or.inl htier
  · obtain ⟨hget, hmethod⟩ := Bool.and_eq_true _ _ ▸ hmethod
    rw [of_decide_eq_true hmethod]
    exact (hhead (of_decide_eq_true hget)).symm

/-- The subject that is compared with the client's name is the one the handler acts on. -/
theorem extractPathSubject_of_dispatches {r : Route} (hdisp : Dispatches method escaped r value)
    (hpath : Data.unescape escaped = some path) (hget : r.handler = .getRequest) :
    value = some (extractPathSubject path) := by
  obtain ⟨r₀, hr₀, hhandler, -, hvalue, htrim⟩ := exists_route_of_dispatches hdisp hpath
  obtain ⟨htext, hwild⟩ := (sound_routes true r₀ hr₀).2.2.2.2.2 (hhandler.trans hget)
  obtain ⟨v, rfl⟩ := Option.isSome_iff_exists.mp (hvalue.trans hwild)
  rw [htext, Option.getD_some] at htrim
  have hfind : (["/certificate/".toList, "/certificate_status/".toList,
      "/certificate_request/".toList].find? fun start =>
        start.isPrefixOf ("/certificate_request/".toList ++ v)) =
      some "/certificate_request/".toList := rfl
  rw [extractPathSubject, htrim]
  simp only [hfind, trimStart_append]

/-! ### Who is admitted -/

variable {env : AuthEnv}

theorem firstVerifier_of_attribute {cert : PeerCert} {presented : List PeerCert}
    {domains : List TrustDomain} {d : TrustDomain} {chain : List ClientCert}
    (h : attributeClient env cert presented domains = some (d, chain)) :
    FirstVerifier env domains cert presented d := by
  induction domains with
  | nil => cases h
  | cons d' domains ih =>
    rw [attributeClient] at h
    cases hverify : env.verify d'.roots cert presented with
    | some chain' =>
      rw [hverify] at h
      obtain ⟨rfl, -⟩ := Prod.mk.inj (Option.some.inj h)
      exact ⟨[], domains, rfl, nofun, by rw [hverify]; rfl⟩
    | none =>
      rw [hverify] at h
      obtain ⟨before, after, rfl, hbefore, hd⟩ := ih h
      exact ⟨d' :: before, after, rfl, List.forall_mem_cons.mpr ⟨hverify, hbefore⟩, hd⟩

variable {cfg : AuthConfig} {peer : List PeerCert}

/-- What the middleware lets through. -/
theorem authorise_ok (h : authorise env (some cfg) method path peer = .ok ()) :
    lookupTier method path (some cfg) = .tierPublic ∨
      VerifiedAs env cfg peer fun d cert =>
        passes d cert path (lookupTier method path (some cfg)) = true := by
  simp only [authorise] at h
  split at h
  · next hpublic => exact Or.inl hpublic
  · cases peer with
    | nil => cases h
    | cons cert presented =>
      refine Or.inr ?_
      simp only at h
      split at h
      · cases h
      · next d chain hattr =>
        split at h
        · cases h
        · split at h
          · next hpasses =>
            exact ⟨cert, presented, d, rfl, firstVerifier_of_attribute hattr, hpasses⟩
          · cases h

theorem VerifiedAs.imp {P Q : TrustDomain → PeerCert → Prop} (h : VerifiedAs env cfg peer P)
    (himp : ∀ d cert, P d cert → Q d cert) : VerifiedAs env cfg peer Q := by
  obtain ⟨cert, presented, d, hpeer, hfirst, hP⟩ := h
  exact ⟨cert, presented, d, hpeer, hfirst, himp d cert hP⟩

/-- What is computed admits no more than what is asked. -/
theorem Admitted.of_authorise
    (hself : lookupTier method path (some cfg) = .tierSelfOrAdmin →
      value = some (extractPathSubject path))
    (h : authorise env (some cfg) method path peer = .ok ()) :
    Admitted env cfg peer value (lookupTier method path (some cfg)) := by
  rcases authorise_ok h with hpublic | hverified
  · rw [hpublic]
    trivial
  · cases htier : lookupTier method path (some cfg) with
    | tierPublic => trivial
    | tierOwnClient =>
      rw [htier] at hverified
      exact hverified
    | tierSelfOrAdmin =>
      rw [htier] at hverified
      refine hverified.imp fun d cert hpasses => ?_
      simp only [passes, Bool.or_eq_true, Bool.and_eq_true, decide_eq_true_eq] at hpasses
      rcases hpasses with hadmin | ⟨⟨hown, -⟩, hname⟩
      · exact Or.inl hadmin
      · exact Or.inr ⟨hown, by rw [hself htier, hname]⟩
    | tierAdminOnly =>
      rw [htier] at hverified
      exact hverified

/-- Administrators may do everything but renew. -/
theorem Admitted.of_adminOnly {tier : AuthTier} (h : Admitted env cfg peer value .tierAdminOnly)
    (htier : tier ≠ .tierOwnClient) : Admitted env cfg peer value tier := by
  cases tier with
  | tierPublic => trivial
  | tierOwnClient => exact absurd rfl htier
  | tierSelfOrAdmin => exact VerifiedAs.imp h fun d cert hadmin => Or.inl hadmin
  | tierAdminOnly => exact h

theorem handlerTier_eq_ownClient {a : Bool} {handler : Handler}
    (h : handlerTier a handler = .tierOwnClient) : handler = .postCertificateRenewal := by
  cases handler <;> first | rfl | (cases a <;> cases h)

theorem handlerTier_eq_public {a : Bool} {handler : Handler}
    (h : handlerTier a handler = .tierPublic) :
    handler ∈ openHandlers ∨ handler = .getStatus ∧ a = true := by
  revert h
  cases a <;> cases handler <;> decide

theorem handlerTier_eq_selfOrAdmin {a : Bool} {handler : Handler}
    (h : handlerTier a handler = .tierSelfOrAdmin) : handler = .getRequest := by
  cases handler <;> first | rfl | (cases a <;> cases h)

/-- **Access control follows the route.** Of every request that the route table dispatches, with
its path percent-encoded in any way:

* the tier computed from the decoded path is not weaker than the handler's;
* where it is that of the subject itself or an administrator, the subject compared with the client's
  name is the one the handler acts on;
* if it is let through, then its client is one that the handler's tier admits, and the computed tier
  too: as an administrator or as the subject by the first domain that verifies it, and as the
  subject only by the CA's own;
* if it is let through without a verified certificate, then the handler is one of those open to
  everyone, or the status of a certificate where that is allowed. -/
theorem access_follows_route (env : AuthEnv) (cfg : AuthConfig) {method escaped path : Text}
    {r : Route} {value : Option Text} (peer : List PeerCert)
    (hdisp : Dispatches method escaped r value) (hpath : Data.unescape escaped = some path) :
    (handlerTier cfg.allowPublicStatus r.handler).strength ≤
        (lookupTier method path (some cfg)).strength ∧
    (lookupTier method path (some cfg) = .tierSelfOrAdmin →
      value = some (extractPathSubject path)) ∧
    (authorise env (some cfg) method path peer = .ok () →
      Admitted env cfg peer value (lookupTier method path (some cfg)) ∧
      Admitted env cfg peer value (handlerTier cfg.allowPublicStatus r.handler) ∧
      (¬VerifiedAs env cfg peer (fun _ _ => True) →
        r.handler ∈ openHandlers ∨ r.handler = .getStatus ∧ cfg.allowPublicStatus = true)) := by
  have htier := lookupTier_of_dispatches cfg hdisp hpath
  have hself : lookupTier method path (some cfg) = .tierSelfOrAdmin →
      value = some (extractPathSubject path) := by
    intro hlookup
    rcases htier with htier | ⟨htier, -⟩
    · exact extractPathSubject_of_dispatches hdisp hpath
        (handlerTier_eq_selfOrAdmin (htier.symm.trans hlookup))
    · cases htier.symm.trans hlookup
  refine ⟨?_, hself, fun hok => ?_⟩
  · rcases htier with htier | ⟨htier, -⟩
    · rw [htier]
    · rw [htier]
      cases handlerTier cfg.allowPublicStatus r.handler <;> decide
  · have hadmitted := Admitted.of_authorise hself hok
    have hhandler : Admitted env cfg peer value
        (handlerTier cfg.allowPublicStatus r.handler) := by
      rcases htier with htier | ⟨htier, hne⟩
      · rwa [htier] at hadmitted
      · rw [htier] at hadmitted
        exact hadmitted.of_adminOnly fun hown => hne (handlerTier_eq_ownClient hown)
    refine ⟨hadmitted, hhandler, fun hnone => ?_⟩
    -- Every tier but the public one asks for a verified certificate.
    cases hpublic : handlerTier cfg.allowPublicStatus r.handler with
    | tierPublic => exact handlerTier_eq_public hpublic
    | tierOwnClient | tierSelfOrAdmin | tierAdminOnly =>
      rw [hpublic] at hhandler
      exact absurd (VerifiedAs.imp hhandler fun _ _ _ => trivial) hnone

/-! ### An agent reads its own request -/

/-- A CA that verifies whatever is presented under its own anchor, and has revoked nothing. -/
def sampleEnv : AuthEnv where
  verify := fun roots cert _ => if roots = [] then none else some (cert.toClientCert :: roots)
  isRevokedSerial := fun _ => some false
  now := 0

/-- The CA alone, without administrators. -/
def sampleAuth : AuthConfig := { domains := [{ roots := [foreignCA], own := true }] }

/-- The certificate of an agent named `a/b`. -/
def slashedAgent : PeerCert :=
  { serialNumber := 5, commonName := "a/b".toList, publicKey := 7 }

/-- Its request is reached although its name is encoded, and by its name. -/
theorem access_follows_route_encoded :
    authorise sampleEnv (some sampleAuth) "GET".toList
        "/puppet-ca/v1/certificate_request/a/b".toList [slashedAgent] = .ok () ∧
      Admitted sampleEnv sampleAuth [slashedAgent] (some "a/b".toList)
        (handlerTier false .getRequest) := by
  have hdisp : Dispatches "GET".toList "/puppet%2Dca/v1/certificate_request/a%2fb".toList
      (wildRoute "GET" "certificate_request" "subject" .getRequest).prefixed
      (some "a/b".toList) :=
    ⟨by decide, by decide, by decide,
      ["puppet-ca".toList, "v1".toList, "certificate_request".toList, "a/b".toList],
      by decide, by decide⟩
  have hpath : Data.unescape "/puppet%2Dca/v1/certificate_request/a%2fb".toList =
      some "/puppet-ca/v1/certificate_request/a/b".toList := by decide
  have hok : authorise sampleEnv (some sampleAuth) "GET".toList
      "/puppet-ca/v1/certificate_request/a/b".toList [slashedAgent] = .ok () := by
    decide
  exact ⟨hok, ((access_follows_route sampleEnv sampleAuth [slashedAgent] hdisp hpath).2.2 hok).2.1⟩

/-! ### Revoked clients -/

/-- **A client that may be revoked is refused** on every route that is not public: one of this CA
unless its serial is known not to be revoked, and one of another domain, under every policy but
`skip`, if a loaded CRL lists a certificate of its chain, be that CRL complete, current or not. -/
theorem revoked_client_refused (htier : lookupTier method path (some cfg) ≠ .tierPublic)
    (hclient : attributeClient env cert presented cfg.domains = some (d, chain))
    (hrevoked : d.own = true ∧ env.isRevokedSerial cert.serialNumber ≠ some false ∨
      d.own = false ∧ cfg.revocationPolicy ≠ revocationSkip ∧
        ∃ checkSignatureFrom crls anchors, OneKey checkSignatureFrom crls anchors ∧
          d.crls = some (newClientCRLSet checkSignatureFrom crls anchors) ∧
          ∃ pair ∈ chain.zip chain.tail, ListedBy checkSignatureFrom crls anchors pair.1 pair.2) :
    authorise env (some cfg) method path (cert :: presented) = .error .accessDenied := by
  have hdenied : isRevoked env cfg d chain cert = true := by
    unfold isRevoked
    rcases hrevoked with ⟨hown, hserial⟩ | ⟨hown, hskip, check, crls, anchors, hone, hset, pair,
      hpair, hlisted⟩
    · simp [hown, hserial]
    · have hbad : checkChainRevocation chain d.crls cfg.revocationPolicy env.now ≠ .ok () := by
        rw [hset]
        rcases eq_or_ne cfg.revocationPolicy revocationCheck with hcheck | hcheck
        · rw [hcheck, Ne, check_ok_iff hone]
          exact fun h => h pair hpair hlisted
        · rw [Ne, require_ok_iff hone hskip hcheck]
          exact fun h => (h.2 pair hpair).2 hlisted
      simp only [hown, Bool.false_eq_true, if_false]
      split
      · exact absurd ‹_› hbad
      · rfl
  simp [authorise, htier, hclient, hdenied]

/-- Two anchors of one name, and an administrator of the first. -/
def foreignDomain (crls : List ClientCRL) : TrustDomain where
  roots := [foreignCA]
  admins := some ["a/b".toList]
  crls := some (newClientCRLSet sampleCheck crls [siblingCA, foreignCA])

def foreignAuth (crls : List ClientCRL) : AuthConfig := { domains := [foreignDomain crls] }

/-- The full lists, which are current and empty, have the administrator admitted, and with the delta
beside them it is refused; so is a client of this CA of whose serial nothing is known. -/
theorem revoked_client_refused_sample :
    authorise sampleEnv (some (foreignAuth [emptyList siblingCA, emptyList foreignCA]))
      "PUT".toList "/clean".toList [slashedAgent] = .ok () ∧
    authorise sampleEnv (some (foreignAuth [emptyList siblingCA, emptyList foreignCA,
      sampleDelta])) "PUT".toList "/clean".toList [slashedAgent] = .error .accessDenied ∧
    authorise { sampleEnv with isRevokedSerial := fun _ => none } (some sampleAuth) "PUT".toList
      "/clean".toList [slashedAgent] = .error .accessDenied := by
  refine ⟨by decide, revoked_client_refused (by decide) rfl
    (.inr ⟨rfl, by decide, sampleCheck, _, _, ?_, rfl,
    (slashedAgent.toClientCert, foreignCA), List.mem_singleton.mpr rfl, ?_⟩),
    revoked_client_refused (by decide) rfl (.inl ⟨rfl, by decide⟩)⟩
  · intro crl _ a _ b _ ha hb
    exact List.singleton_inj.mp ((of_decide_eq_true ha).symm.trans (of_decide_eq_true hb))
  · exact ⟨sampleDelta, by simp, ⟨foreignCA, by simp, rfl, rfl⟩, List.mem_singleton.mpr rfl⟩

end OpenvoxCa.Api
