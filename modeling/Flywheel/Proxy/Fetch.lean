import Flywheel.Proxy.Upstream

/-!
# One fetch of the package proxy (`ProxyService::fetch_url`)

A fetch reads the reference of its target, answers from the cache while the reference is
within the revalidation TTL, and goes upstream otherwise. Bodies are located twice: the
fetch locates metadata documents to rewrite them, and `outcome_response`
(`transport/http/packages.rs`) locates a raw file only when the response is built.

A fetch is one of many tasks. `Point` names the moments at which it touches the cache, and
`Surroundings` says what it meets there: what others have done to the cache meanwhile, the
time, an error, and what the upstream answers. All of it is arbitrary.
-/

set_option autoImplicit false

namespace Flywheel

open Lib

/-! ## The cache as a fetch sees it -/

/-- A body that was found, with its record. -/
structure Located where
  metadata : ArtifactMetadata
  file : Bytes

/-- References, records and body files. -/
structure PackageCache where
  reference : ChannelId → Bytes → Option ReferenceRecord
  record : ChannelId → ArtifactId → Option ArtifactMetadata
  body : ChannelId → ArtifactId → Option Bytes

namespace PackageCache

variable (cache : PackageCache) (c : ChannelId)

/-- `CacheService::locate`: a record whose body is gone is removed and reported as a miss. -/
def locate (a : ArtifactId) : Option Located × PackageCache :=
  match cache.record c a, cache.body c a with
  | some metadata, some file => (some ⟨metadata, file⟩, cache)
  | some _, none =>
    (none, { cache with record := fun c' a' =>
      if c' = c ∧ a' = a then none else cache.record c' a' })
  | none, _ => (none, cache)

/-- `commit_staged`: a body or a record that exists is kept. -/
def publish (a : ArtifactId) (metadata : ArtifactMetadata) (file : Bytes) : PackageCache :=
  { cache with
    record := fun c' a' =>
      if c' = c ∧ a' = a then some ((cache.record c a).getD metadata) else cache.record c' a'
    body := fun c' a' =>
      if c' = c ∧ a' = a then some ((cache.body c a).getD file) else cache.body c' a' }

def bindReference (name : Bytes) (record : ReferenceRecord) : PackageCache :=
  { cache with reference := fun c' n =>
      if c' = c ∧ n = name then some record else cache.reference c' n }

end PackageCache

/-- The moments at which a fetch touches the cache. -/
inductive Point where
  | resolve
  | locate
  /-- The reference is read again behind the coalescing lock. -/
  | recheck
  | relocate
  | publish
  | bind
  /-- The body of a reference that the upstream has confirmed. -/
  | confirm
  /-- `serve_artifact`. -/
  | serve
  deriving DecidableEq

structure Surroundings (U : Type) where
  upstream : Upstream U
  sha256 : Bytes → Digest
  zstdDecode : Bytes → Option Bytes
  /-- The rewriting of a metadata document. -/
  rewriteDocument : U → Transform → Bytes → Except ProxyError Bytes
  now : Point → UInt64
  /-- What other tasks have done to the cache by then. -/
  interfere : Point → PackageCache → PackageCache
  fails : Point → Option CacheError
  /-- A slot for one more upstream fetch, and one for serving a body. -/
  permit : Bool
  foreground : Bool
  /-- Whether the space ledger admits the body. -/
  admits : Bool
  expirySeconds : UInt64

variable {U : Type}

/-- What a fetch answers with. -/
inductive ProxyOutcome where
  | artifact (a : ArtifactId)
  | cachedMetadata (body : Bytes) (contentType : Option String)
  | upstream (status : Nat) (body : Bytes) (contentType : Option String)
  | upstreamStream (status : Nat) (body : Bytes) (contentType : Option String)

inductive Admission where
  | published (a : ArtifactId)
  | rejected

/-- The monad of a fetch. -/
abbrev Fetch (U : Type) : Type → Type := EStateM ProxyError (World U PackageCache)

namespace Surroundings

variable (env : Surroundings U) (c : ChannelId)

/-- One operation of the cache: others act first, then it fails or takes effect. -/
def operate {α : Type} (p : Point) (f : PackageCache → α × PackageCache) : Fetch U α := fun w =>
  let cache := env.interfere p w.cache
  match env.fails p with
  | some error => .error (.cache error) { w with cache }
  | none => .ok (f cache).1 { w with cache := (f cache).2 }

def resolveReference (p : Point) (name : Bytes) : Fetch U (Option ReferenceRecord) :=
  env.operate p fun cache => (cache.reference c name, cache)

def locate (p : Point) (a : ArtifactId) : Fetch U (Option Located) :=
  env.operate p fun cache => cache.locate c a

def bindReferenceWithValidators (name : Bytes) (a : ArtifactId) (etag lastModified : Option String) :
    Fetch U Unit :=
  env.operate .bind fun cache =>
    ((), cache.bindReference c name ⟨a, env.now .bind, etag, lastModified⟩)

/-- The record of a body that the proxy stores. -/
def metadataOf (contentType : Option String) (body : Bytes) : ArtifactMetadata where
  contentLen := body.length
  contentType := contentType
  createdAt := env.now .publish
  eligibleAt := saturatingAdd (env.now .publish) env.expirySeconds
  storedLen := body.length
  encoding := .identity

/-- `CacheService::publish_or_reject` of an upstream body: content-addressed, without a
reference, identity-encoded. -/
def publishOrReject (contentType : Option String) (body : Bytes) :
    Fetch U (Except CacheError Admission) := fun w =>
  let cache := env.interfere .publish w.cache
  match env.fails .publish with
  | some error => .ok (.error error) { w with cache }
  | none =>
    if env.admits then
      let a := ArtifactId.fromDigest (env.sha256 body)
      .ok (.ok (.published a))
        { w with cache := cache.publish c a (env.metadataOf contentType body) body }
    else .ok (.ok .rejected) { w with cache }

end Surroundings

/-! ## The fetch -/

/-- `proxy_reference`: the stored name of a target and its variant. -/
def proxyReference (sha256 : Bytes → Digest) (protocol : Protocol) (url variant : String) : Bytes :=
  let url := url.toUTF8.toList
  let digest := sha256 (beBytes (UInt64.ofNat url.length) ++ url ++ variant.toUTF8.toList)
  ("proxy:" ++ protocol.name ++ ":").toUTF8.toList ++ hexEncode digest.bytes

namespace ProxyService

variable (service : ProxyService U) (env : Surroundings U) (c : ChannelId)

def rewriteMetadata (url : U) (transform : Transform) (bytes : Bytes) : Except ProxyError Bytes :=
  match transform with
  | .none => .ok bytes
  | transform => env.rewriteDocument url transform bytes

/-- `cached_outcome`, whose lookup happens at `p`. A raw file is not looked up here. -/
def cachedOutcome (p : Point) (a : ArtifactId) (url : U) (transform : Transform) :
    Fetch U (Option ProxyOutcome) :=
  if transform = .none then return some (.artifact a)
  else do
    match ← env.locate c p a with
    | none => return none
    | some located =>
      if located.metadata.encoding ≠ .identity then
        throw (.malformed "cached package metadata has an unsupported encoding")
      else
        let body ← MonadExcept.ofExcept (rewriteMetadata env url transform located.file)
        return some (.cachedMetadata body located.metadata.contentType)

/-- The reference is within the revalidation TTL. -/
def fresh (now : UInt64) (record : ReferenceRecord) : Bool :=
  decide (saturatingSub now record.updatedAt < service.ttl)

/-- `fresh_outcome`, with the clock read at `p` and the lookup at `q`. -/
def freshOutcome (p q : Point) (record : Option ReferenceRecord) (url : U)
    (transform : Transform) : Fetch U (Option ProxyOutcome) :=
  match record.filter (service.fresh (env.now p)) with
  | none => return none
  | some record => cachedOutcome env c q record.artifact url transform

/-- `revalidated`: rebind the reference, then serve the cached body. -/
def revalidated (name : Bytes) (current : Option ReferenceRecord) (url : U)
    (transform : Transform) : Fetch U ProxyOutcome :=
  match current with
  | none => throw (.unavailable "upstream returned 304 without a cached value")
  | some record => do
    env.bindReferenceWithValidators c name record.artifact record.etag record.lastModified
    match ← cachedOutcome env c .confirm record.artifact url transform with
    | none => throw (.unavailable "upstream returned 304 for a missing cached body")
    | some outcome => return outcome

/-- The raw-file branch: stream the body into the cache, or past it. -/
def storeFile (name : Bytes) (response : UpstreamResponse) : Fetch U ProxyOutcome := do
  match ← env.publishOrReject c response.contentType response.body with
  | .error error => throw (.cache error)
  | .ok (.published a) =>
    env.bindReferenceWithValidators c name a response.etag response.lastModified
    return .artifact a
  | .ok .rejected =>
    return .upstreamStream response.status response.body response.contentType

/-- `serve_metadata`: store the document as it came and answer with the rewritten one. -/
def serveMetadata (name : Bytes) (response : UpstreamResponse) (rewritten : Bytes) :
    Fetch U ProxyOutcome := do
  match ← env.publishOrReject c response.contentType response.body with
  | .ok (.published a) =>
    env.bindReferenceWithValidators c name a response.etag response.lastModified
    return .cachedMetadata rewritten response.contentType
  | .ok .rejected | .error .outOfSpace =>
    return .upstream 200 rewritten response.contentType
  | .error error => throw (.cache error)

/-- What `fetch_url` does with a response other than a 304. -/
def storeResponse (name : Bytes) (url : U) (transform : Transform) (response : UpstreamResponse) :
    Fetch U ProxyOutcome :=
  if ¬ isSuccess response.status then
    return .upstream response.status response.body response.contentType
  else if transform = .none then storeFile env c name response
  else do
    let rewritten ← MonadExcept.ofExcept (rewriteMetadata env url transform response.body)
    serveMetadata env c name response rewritten

/-- What `fetch_url` does once the recheck has found nothing fresh. -/
def fetchUpstream (protocol : Protocol) (url : U) (transform : Transform) (name : Bytes)
    (current : Option ReferenceRecord) : Fetch U ProxyOutcome :=
  if ¬ env.permit then throw .busy
  else do
    let response ← service.sendValidated env.upstream protocol url current transform.upstreamAccept
    if response.status = 304 then revalidated env c name current url transform
    else storeResponse env c name url transform response

/-- The part of `fetch_url` behind the coalescing lock: whoever held it may already have
refreshed this reference. -/
def fetchCoalesced (protocol : Protocol) (url : U) (transform : Transform) (name : Bytes) :
    Fetch U ProxyOutcome := do
  let current ← env.resolveReference c .recheck name
  match ← service.freshOutcome env c .recheck .relocate current url transform with
  | some outcome => return outcome
  | none => service.fetchUpstream env c protocol url transform name current

def fetchUrl (protocol : Protocol) (url : U) (transform : Transform) : Fetch U ProxyOutcome := do
  let name := proxyReference env.sha256 protocol (service.urls.asStr url) transform.cacheVariant
  let cached ← env.resolveReference c .resolve name
  match ← service.freshOutcome env c .resolve .locate cached url transform with
  | some outcome => return outcome
  | none => service.fetchCoalesced env c protocol url transform name

def fetch (protocol : Protocol) (path : String) (transform : Transform) : Fetch U ProxyOutcome := do
  let url ← MonadExcept.ofExcept (service.url protocol path)
  service.fetchUrl env c protocol url transform

def fetchEncodedUrl (protocol : Protocol) (encoded suffix : String) : Fetch U ProxyOutcome := do
  let url ← MonadExcept.ofExcept (service.encodedUrl protocol encoded suffix)
  service.fetchUrl env c protocol url .none

end ProxyService

/-! ## The response (`transport/http/packages.rs`) -/

structure Response where
  status : Nat
  contentType : Option String
  body : Bytes
  deriving DecidableEq

/-- The bytes a client without `Accept-Encoding` and `Range` gets of a body. -/
def Located.contents (zstdDecode : Bytes → Option Bytes) (located : Located) : Bytes :=
  match located.metadata.encoding with
  | .identity => located.file.take located.metadata.contentLen
  -- a broken frame ends the body early
  | .zstd => ((zstdDecode located.file).getD []).take located.metadata.contentLen

namespace Surroundings

variable (env : Surroundings U) (c : ChannelId)

/-- `serve_artifact` of a plain GET. -/
def serveArtifact (a : ArtifactId) (cache : PackageCache) : Response :=
  if ¬ env.foreground then ⟨429, none, []⟩
  else
    match env.fails .serve with
    | some _ => ⟨500, none, []⟩
    | none =>
      match ((env.interfere .serve cache).locate c a).1 with
      | none => ⟨404, none, []⟩
      | some located => ⟨200, located.metadata.contentType, located.contents env.zstdDecode⟩

def outcomeResponse (outcome : ProxyOutcome) (cache : PackageCache) : Response :=
  match outcome with
  | .artifact a => env.serveArtifact c a cache
  | .cachedMetadata body contentType => ⟨200, contentType, body⟩
  | .upstream status body contentType => ⟨status, contentType, body⟩
  | .upstreamStream status body contentType => ⟨status, contentType, body⟩

def proxyFailure : ProxyError → Response
  | .busy => ⟨429, none, []⟩
  | .disallowedOrigin => ⟨403, none, []⟩
  | .invalidEncodedUrl | .url _ | .malformed _ => ⟨502, none, []⟩
  | .http _ | .unavailable _ | .cache _ => ⟨502, none, []⟩

/-- What the client gets for the result of a fetch. -/
def respond : EStateM.Result ProxyError (World U PackageCache) ProxyOutcome → Response
  | .ok outcome w => env.outcomeResponse c outcome w.cache
  | .error error _ => proxyFailure error

end Surroundings

namespace ProxyService

/-! ## Whom a fetch contacts -/

variable {service : ProxyService U} {env : Surroundings U} {c : ChannelId} {protocol : Protocol}

/-- The cache's operations send nothing. -/
theorem operate_contacts {α : Type} (p : Point) (f : PackageCache → α × PackageCache) (n : Nat) :
    Always (service.Contacts protocol n) (env.operate p f) (service.Contacts protocol n) := by
  intro w hw
  unfold Surroundings.operate
  cases env.fails p <;> exact hw

theorem publishOrReject_contacts (contentType : Option String) (body : Bytes) (n : Nat) :
    Always (service.Contacts protocol n) (env.publishOrReject c contentType body)
      (service.Contacts protocol n) := by
  intro w hw
  unfold Surroundings.publishOrReject
  cases env.fails .publish with
  | some error => exact hw
  | none => cases env.admits <;> exact hw

theorem cachedOutcome_contacts (p : Point) (a : ArtifactId) (url : U) (transform : Transform)
    (n : Nat) :
    Always (service.Contacts protocol n) (cachedOutcome env c p a url transform)
      (service.Contacts protocol n) := by
  unfold cachedOutcome
  split
  · exact Triple.pure fun _ hw => hw
  · refine Triple.bind (operate_contacts p _ n) fun found => ?_
    cases found with
    | none => exact Triple.pure fun _ hw => hw
    | some located =>
      dsimp only
      split
      · exact Triple.throw fun _ hw => hw
      · refine Triple.bind (Triple.ofExcept (fun _ _ _ hw => hw) fun _ _ _ hw => hw) fun body => ?_
        exact Triple.pure fun _ hw => hw

theorem freshOutcome_contacts (p q : Point) (record : Option ReferenceRecord) (url : U)
    (transform : Transform) (n : Nat) :
    Always (service.Contacts protocol n) (service.freshOutcome env c p q record url transform)
      (service.Contacts protocol n) := by
  unfold freshOutcome
  split
  · exact Triple.pure fun _ hw => hw
  · exact cachedOutcome_contacts _ _ _ _ n

theorem revalidated_contacts (name : Bytes) (current : Option ReferenceRecord) (url : U)
    (transform : Transform) (n : Nat) :
    Always (service.Contacts protocol n) (revalidated env c name current url transform)
      (service.Contacts protocol n) := by
  unfold revalidated
  split
  · exact Triple.throw fun _ hw => hw
  · refine Triple.bind (operate_contacts _ _ n) fun _ => ?_
    refine Triple.bind (cachedOutcome_contacts _ _ _ _ n) fun outcome => ?_
    cases outcome with
    | none => exact Triple.throw fun _ hw => hw
    | some outcome => exact Triple.pure fun _ hw => hw

theorem storeResponse_contacts (name : Bytes) (url : U) (transform : Transform)
    (response : UpstreamResponse) (n : Nat) :
    Always (service.Contacts protocol n) (storeResponse env c name url transform response)
      (service.Contacts protocol n) := by
  have hbind : ∀ (a : ArtifactId) (outcome : ProxyOutcome),
      Always (service.Contacts protocol n)
        (env.bindReferenceWithValidators c name a response.etag response.lastModified >>=
          fun _ => pure outcome) (service.Contacts protocol n) := by
    intro a outcome
    refine Triple.bind (operate_contacts _ _ n) fun _ => ?_
    exact Triple.pure fun _ hw => hw
  unfold storeResponse
  split
  · exact Triple.pure fun _ hw => hw
  · split
    · refine Triple.bind (publishOrReject_contacts _ _ n) fun admission => ?_
      split
      · exact Triple.throw fun _ hw => hw
      · exact hbind _ _
      · exact Triple.pure fun _ hw => hw
    · refine Triple.bind (Triple.ofExcept (fun _ _ _ hw => hw) fun _ _ _ hw => hw)
        fun rewritten => ?_
      refine Triple.bind (publishOrReject_contacts _ _ n) fun admission => ?_
      split
      · exact hbind _ _
      · exact Triple.pure fun _ hw => hw
      · exact Triple.pure fun _ hw => hw
      · exact Triple.throw fun _ hw => hw

/-- A fetch of an allowed target goes upstream at most once. -/
theorem fetchUrl_contacts {url : U} (hurl : service.Allows protocol url) (transform : Transform) :
    Always (service.Contacts protocol 0) (service.fetchUrl env c protocol url transform)
      (service.Contacts protocol (3 * (redirectHopLimit + 1))) := by
  have hnone : ∀ w : World U PackageCache, service.Contacts protocol 0 w →
      service.Contacts protocol (3 * (redirectHopLimit + 1)) w :=
    fun w hw => hw.mono (Nat.zero_le _)
  have hquiet : ∀ {α : Type} {m : Fetch U α},
      Always (service.Contacts protocol 0) m (service.Contacts protocol 0) →
      Triple (service.Contacts protocol 0) m (fun _ => service.Contacts protocol 0)
        (fun _ => service.Contacts protocol (3 * (redirectHopLimit + 1))) :=
    fun hm => hm.conseq (fun _ h => h) (fun _ _ h => h) fun _ => hnone
  unfold fetchUrl
  refine Triple.bind (hquiet (operate_contacts _ _ 0)) fun cached => ?_
  refine Triple.bind (hquiet (freshOutcome_contacts _ _ _ _ _ 0)) fun outcome => ?_
  cases outcome with
  | some outcome => exact Triple.pure hnone
  | none =>
    dsimp only
    unfold fetchCoalesced
    refine Triple.bind (hquiet (operate_contacts _ _ 0)) fun current => ?_
    refine Triple.bind (hquiet (freshOutcome_contacts _ _ _ _ _ 0)) fun outcome => ?_
    cases outcome with
    | some outcome => exact Triple.pure hnone
    | none =>
      dsimp only
      unfold fetchUpstream
      split
      · exact Triple.throw hnone
      · have hsend := sendValidated_contacts (κ := PackageCache) env.upstream hurl current
          transform.upstreamAccept 0
        rw [Nat.zero_add] at hsend
        refine Triple.bind hsend fun response => ?_
        split
        · exact revalidated_contacts _ _ _ _ _
        · exact storeResponse_contacts _ _ _ _ _

/-- **The proxy never contacts a disallowed origin.** Whatever the client asks for, whatever
the upstream answers and whatever happens to the cache meanwhile, every request that one
fetch hands to the HTTP client goes to an origin allowed for its protocol, and there are at
most three for each of the hops. -/
theorem fetch_contacts_allowed_origins (service : ProxyService U) (env : Surroundings U)
    (c : ChannelId) (protocol : Protocol) (cache : PackageCache) :
    (∀ path transform, service.Contacts protocol (3 * (redirectHopLimit + 1))
      (finalState (service.fetch env c protocol path transform ⟨cache, []⟩))) ∧
    (∀ encoded suffix, service.Contacts protocol (3 * (redirectHopLimit + 1))
      (finalState (service.fetchEncodedUrl env c protocol encoded suffix ⟨cache, []⟩))) := by
  have hstart : service.Contacts protocol 0 (⟨cache, []⟩ : World U PackageCache) :=
    ⟨fun q hq => absurd hq List.not_mem_nil, Nat.le_refl 0⟩
  have htarget : ∀ (target : Except ProxyError U) (transform : Transform),
      (∀ url, target = .ok url → service.Allows protocol url) →
      Always (service.Contacts protocol 0)
        ((MonadExcept.ofExcept target : Fetch U U) >>= fun url =>
          service.fetchUrl env c protocol url transform)
        (service.Contacts protocol (3 * (redirectHopLimit + 1))) := by
    intro target transform hallowed
    refine Triple.bind (Q := fun url w => service.Allows protocol url ∧
      service.Contacts protocol 0 w) ?_ ?_
    · refine Triple.ofExcept (fun url w hok hw => ⟨hallowed url hok, hw⟩) ?_
      exact fun _ w _ hw => hw.mono (Nat.zero_le _)
    · rintro url w ⟨hurl, hw⟩
      exact fetchUrl_contacts hurl transform w hw
  constructor
  · intro path transform
    exact (htarget _ transform fun url h => service.allows_of_url h).finalState hstart
  · intro encoded suffix
    exact (htarget _ .none fun url h => service.allows_of_encodedUrl h).finalState hstart

end ProxyService

end Flywheel
