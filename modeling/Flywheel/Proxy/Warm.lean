import Flywheel.Proxy.Eviction

/-!
# Cold and warm metadata

A metadata document that comes from the upstream is stored as it came and answered rewritten,
with the content type of the response. Within the revalidation TTL it is then answered from
the cache. The cache is content-addressed: if the bytes are stored already, by whatever route,
`commit_publication` keeps the record and the body that are there. So the warm answer has the
content type of whoever stored the bytes first, and `cached_outcome` refuses a body that was
stored compressed, which `serve_artifact` would decode.

- `GoesUpstream`: a fetch that finds nothing fresh and gets a 200.
- `Warm`: a second fetch of the same target within the TTL, with no eviction in between.
- `Reusable`: what the cache may hold under the digest for the two answers to be the same.
-/

set_option autoImplicit false

namespace Flywheel

open Lib

variable {U : Type}

/-! ## What others leave alone -/

/-- The record and the body of the artifact are left alone at `p`. -/
def Surroundings.KeepsArtifact (env : Surroundings U) (p : Point) (c : ChannelId)
    (a : ArtifactId) : Prop :=
  ∀ cache, (env.interfere p cache).record c a = cache.record c a ∧
    (env.interfere p cache).body c a = cache.body c a

/-- The reference is left alone at `p`. -/
def Surroundings.KeepsReference (env : Surroundings U) (p : Point) (c : ChannelId)
    (name : Bytes) : Prop :=
  ∀ cache, (env.interfere p cache).reference c name = cache.reference c name

theorem Surroundings.KeepsArtifact.find {env : Surroundings U} {p : Point} {c : ChannelId}
    {a : ArtifactId} (h : env.KeepsArtifact p c a) (cache : PackageCache) :
    (env.interfere p cache).find c a = cache.find c a := by
  rw [PackageCache.find_eq, PackageCache.find_eq, (h cache).1, (h cache).2]

/-- An operation that does not fail. -/
theorem Surroundings.operate_ok {env : Surroundings U} {p : Point} (h : env.fails p = none)
    {α : Type} (f : PackageCache → α × PackageCache) (w : World U PackageCache) :
    env.operate p f w =
      .ok (f (env.interfere p w.cache)).1 { w with cache := (f (env.interfere p w.cache)).2 } := by
  unfold Surroundings.operate
  rw [h]

namespace ProxyService

variable (service : ProxyService U) (env : Surroundings U) (c : ChannelId) (protocol : Protocol)
  (url : U) (transform : Transform)

/-- The reference of the target. -/
def nameOf : Bytes :=
  proxyReference env.sha256 protocol (service.urls.asStr url) transform.cacheVariant

/-- The artifact a document is stored as. -/
def artifactOf (response : UpstreamResponse) : ArtifactId := .fromDigest (env.sha256 response.body)

/-! ## The first fetch -/

/-- From `w` the fetch finds nothing fresh, goes upstream and gets a 200. -/
def GoesUpstream (w w' : World U PackageCache) (response : UpstreamResponse) : Prop :=
  ∃ cached current w₁ w₂ w₃ w₄,
    env.resolveReference c .resolve (service.nameOf env protocol url transform) w = .ok cached w₁ ∧
    service.freshOutcome env c .resolve .locate cached url transform w₁ = .ok none w₂ ∧
    env.resolveReference c .recheck (service.nameOf env protocol url transform) w₂ =
      .ok current w₃ ∧
    service.freshOutcome env c .recheck .relocate current url transform w₃ = .ok none w₄ ∧
    env.permit = true ∧
    service.sendValidated env.upstream protocol url current transform.upstreamAccept w₄ =
      .ok response w' ∧
    response.status = 200

variable {service env c protocol url transform}

/-- What is left of such a fetch is to store the response. -/
theorem GoesUpstream.fetchUrl {w w' : World U PackageCache} {response : UpstreamResponse}
    (h : service.GoesUpstream env c protocol url transform w w' response) :
    service.fetchUrl env c protocol url transform w =
      storeResponse env c (service.nameOf env protocol url transform) url transform response w' := by
  obtain ⟨cached, current, w₁, w₂, w₃, w₄, hresolve, hlook, hrecheck, hlook', hpermit, hsend,
    hstatus⟩ := h
  rw [ProxyService.fetchUrl, ← nameOf, bind_ok hresolve, bind_ok hlook]
  dsimp only
  rw [fetchCoalesced, bind_ok hrecheck, bind_ok hlook']
  dsimp only
  rw [fetchUpstream, if_neg (not_not_intro hpermit), bind_ok hsend, if_neg (by rw [hstatus]; decide)]

/-- What storing a document with a 200 leaves behind, when it is answered as stored. -/
structure Stored (env : Surroundings U) (c : ChannelId) (name : Bytes) (url : U)
    (transform : Transform) (response : UpstreamResponse) (w w' : World U PackageCache)
    (body : Bytes) (contentType : Option String) : Prop where
  rewrites : rewriteMetadata env url transform response.body = .ok body
  contentType : contentType = response.contentType
  cache : w'.cache = (env.interfere .bind ((env.interfere .publish w.cache).publish c
    (artifactOf env response) (env.metadataOf response.contentType response.body)
      response.body)).bindReference c name
        ⟨artifactOf env response, env.now .bind, response.etag, response.lastModified⟩

/-- Whatever keeps the document from being stored shows in the outcome. -/
theorem serveMetadata_stored {name : Bytes} {response : UpstreamResponse} {rewritten body : Bytes}
    {w w' : World U PackageCache} {contentType : Option String}
    (hrewrite : rewriteMetadata env url transform response.body = .ok rewritten)
    (h : serveMetadata env c name response rewritten w =
      .ok (.cachedMetadata body contentType) w') :
    Stored env c name url transform response w w' body contentType := by
  rw [serveMetadata] at h
  cases hpublish : env.fails .publish with
  | some error =>
    have hrun : env.publishOrReject c response.contentType response.body w =
        .ok (.error error) { w with cache := env.interfere .publish w.cache } := by
      rw [Surroundings.publishOrReject, hpublish]
    rw [bind_ok hrun] at h
    cases error with
    | outOfSpace => cases h
    | other reason => cases h
  | none =>
    cases hadmits : env.admits with
    | false =>
      have hrun : env.publishOrReject c response.contentType response.body w =
          .ok (.ok .rejected) { w with cache := env.interfere .publish w.cache } := by
        simp [Surroundings.publishOrReject, hpublish, hadmits]
      rw [bind_ok hrun] at h
      cases h
    | true =>
      have hrun : env.publishOrReject c response.contentType response.body w =
          .ok (.ok (.published (artifactOf env response))) { w with
            cache := (env.interfere .publish w.cache).publish c (artifactOf env response)
              (env.metadataOf response.contentType response.body) response.body } := by
        simp [Surroundings.publishOrReject, hpublish, hadmits, artifactOf]
      rw [bind_ok hrun] at h
      dsimp only at h
      cases hbind : env.fails .bind with
      | some error =>
        have hfail : ∀ w₁, env.bindReferenceWithValidators c name (artifactOf env response)
            response.etag response.lastModified w₁ =
              .error (.cache error) { w₁ with cache := env.interfere .bind w₁.cache } := by
          intro w₁
          rw [Surroundings.bindReferenceWithValidators, Surroundings.operate, hbind]
        rw [bind_error (hfail _)] at h
        cases h
      | none =>
        rw [Surroundings.bindReferenceWithValidators,
          bind_ok (Surroundings.operate_ok hbind _ _)] at h
        cases h
        exact ⟨hrewrite, rfl, rfl⟩

theorem storeResponse_stored {name : Bytes} {response : UpstreamResponse}
    {w w' : World U PackageCache} {body : Bytes} {contentType : Option String}
    (hstatus : response.status = 200) (htransform : transform ≠ .none)
    (h : storeResponse env c name url transform response w =
      .ok (.cachedMetadata body contentType) w') :
    Stored env c name url transform response w w' body contentType := by
  rw [storeResponse, if_neg (by rw [hstatus]; decide), if_neg htransform] at h
  cases hrewrite : rewriteMetadata env url transform response.body with
  | error e =>
    rw [hrewrite] at h
    cases h
  | ok rewritten =>
    rw [hrewrite] at h
    exact serveMetadata_stored hrewrite h

/-! ## The second fetch -/

/-- A second fetch of the target, in `env'`: the code and the digests are the same, nothing
fails, the reference is within the TTL, and since the document was stored nobody has evicted
it or rebound its reference. -/
structure Warm (service : ProxyService U) (env env' : Surroundings U) (c : ChannelId)
    (name : Bytes) (a : ArtifactId) : Prop where
  sha256 : env'.sha256 = env.sha256
  rewriteDocument : env'.rewriteDocument = env.rewriteDocument
  resolves : env'.fails .resolve = none
  locates : env'.fails .locate = none
  inTtl : saturatingSub (env'.now .resolve) (env.now .bind) < service.ttl
  stays : env.KeepsArtifact .bind c a
  kept : env'.KeepsArtifact .resolve c a
  keptStill : env'.KeepsArtifact .locate c a
  bound : env'.KeepsReference .resolve c name

/-- What the cache holds under the digest of the document can stand in for it: the record, if
there is one, says identity encoding and the document's content type, and the body, if there
is one, rewrites to the same. -/
def Reusable (env : Surroundings U) (c : ChannelId) (url : U) (transform : Transform)
    (response : UpstreamResponse) (cache : PackageCache) : Prop :=
  (∀ metadata, cache.record c (artifactOf env response) = some metadata →
    metadata.encoding = .identity ∧ metadata.contentType = response.contentType) ∧
  ∀ file, cache.body c (artifactOf env response) = some file →
    rewriteMetadata env url transform file = rewriteMetadata env url transform response.body

/-- What a lookup finds once the document was stored. -/
theorem Stored.find {name : Bytes} {response : UpstreamResponse} {w w' : World U PackageCache}
    {body : Bytes} {contentType : Option String}
    (h : Stored env c name url transform response w w' body contentType)
    (hstays : env.KeepsArtifact .bind c (artifactOf env response)) :
    w'.cache.find c (artifactOf env response) = some
      ⟨((env.interfere .publish w.cache).record c (artifactOf env response)).getD
          (env.metadataOf response.contentType response.body),
        ((env.interfere .publish w.cache).body c (artifactOf env response)).getD
          response.body⟩ := by
  rw [h.cache, PackageCache.find_bindReference, hstays.find, PackageCache.find_publish]

theorem Stored.reference {name : Bytes} {response : UpstreamResponse}
    {w w' : World U PackageCache} {body : Bytes} {contentType : Option String}
    (h : Stored env c name url transform response w w' body contentType) :
    w'.cache.reference c name =
      some ⟨artifactOf env response, env.now .bind, response.etag, response.lastModified⟩ := by
  rw [h.cache]
  simp [PackageCache.bindReference]

/-- The answer from the cache is made of what the lookup finds. -/
theorem cachedOutcome_located (url : U) (htransform : transform ≠ .none) {p : Point} {a : ArtifactId}
    {w w' : World U PackageCache} {located : Located}
    (h : env.locate c p a w = .ok (some located) w') :
    cachedOutcome env c p a url transform w =
      if located.metadata.encoding ≠ .identity then
        .error (.malformed "cached package metadata has an unsupported encoding") w'
      else
        match rewriteMetadata env url transform located.file with
        | .error error => .error error w'
        | .ok body => .ok (some (.cachedMetadata body located.metadata.contentType)) w' := by
  rw [cachedOutcome, if_neg htransform, bind_ok h]
  dsimp only
  by_cases hencoding : located.metadata.encoding = .identity
  · rw [if_neg (not_not_intro hencoding), if_neg (not_not_intro hencoding)]
    cases rewriteMetadata env url transform located.file with
    | error error => rfl
    | ok body => rfl
  · rw [if_pos hencoding, if_pos hencoding]
    rfl

theorem Warm.fetchUrl {env' : Surroundings U} {cache : PackageCache} {a : ArtifactId}
    {etag lastModified : Option String} {located : Located}
    (h : Warm service env env' c (service.nameOf env protocol url transform) a)
    (log : List (Request U)) (htransform : transform ≠ .none)
    (hbound : cache.reference c (service.nameOf env protocol url transform) =
      some ⟨a, env.now .bind, etag, lastModified⟩)
    (hfound : cache.find c a = some located) :
    ∃ w'', service.fetchUrl env' c protocol url transform ⟨cache, log⟩ =
      if located.metadata.encoding ≠ .identity then
        .error (.malformed "cached package metadata has an unsupported encoding") w''
      else
        match rewriteMetadata env url transform located.file with
        | .error error => .error error w''
        | .ok body => .ok (.cachedMetadata body located.metadata.contentType) w'' := by
  have hname : service.nameOf env' protocol url transform =
      service.nameOf env protocol url transform := by rw [nameOf, nameOf, h.sha256]
  have hrewrite : rewriteMetadata env' url transform = rewriteMetadata env url transform := by
    funext bytes
    simp only [rewriteMetadata, h.rewriteDocument]
  have hfresh : service.fresh (env'.now .resolve) ⟨a, env.now .bind, etag, lastModified⟩ = true :=
    decide_eq_true h.inTtl
  rw [ProxyService.fetchUrl, ← nameOf, hname, Surroundings.resolveReference,
    bind_ok (Surroundings.operate_ok h.resolves _ _)]
  dsimp only
  have hlocate : env'.locate c .locate a
      ⟨env'.interfere .resolve cache, log⟩ = .ok (some located)
        ⟨((env'.interfere .locate (env'.interfere .resolve cache)).locate c a).2, log⟩ := by
    have hlocated : ((env'.interfere .locate (env'.interfere .resolve cache)).locate c a).1 =
        some located := by
      show PackageCache.find _ c a = some located
      rw [h.keptStill.find, h.kept.find, hfound]
    rw [Surroundings.locate, Surroundings.operate_ok h.locates, hlocated]
  rw [h.bound, hbound, freshOutcome_fresh hfresh]
  have hcached := cachedOutcome_located url htransform hlocate
  rw [hrewrite] at hcached
  refine ⟨⟨((env'.interfere .locate (env'.interfere .resolve cache)).locate c a).2, log⟩, ?_⟩
  by_cases hencoding : located.metadata.encoding = .identity
  · rw [if_neg (not_not_intro hencoding)] at hcached ⊢
    cases hresult : rewriteMetadata env url transform located.file with
    | error error =>
      rw [hresult] at hcached
      exact bind_error hcached
    | ok body =>
      rw [hresult] at hcached
      exact bind_ok hcached
  · rw [if_pos hencoding] at hcached ⊢
    exact bind_error hcached

/-- **Cold and warm answers.** A fetch has gone upstream, got a 200 and stored the document. A
second fetch of the target within the TTL, with no eviction in between, gives the same body and
the same content type exactly when what the cache held under the document's digest at the
moment it was stored can stand in for the document. -/
theorem warm_answer_agrees_iff (service : ProxyService U) (env env' : Surroundings U)
    (c : ChannelId) (protocol : Protocol) (url : U) (transform : Transform)
    (htransform : transform ≠ .none) {w w₁ w' : World U PackageCache}
    {response : UpstreamResponse} {body : Bytes} {contentType : Option String}
    (hupstream : service.GoesUpstream env c protocol url transform w w₁ response)
    (hfirst : service.fetchUrl env c protocol url transform w =
      .ok (.cachedMetadata body contentType) w')
    (hwarm : Warm service env env' c (service.nameOf env protocol url transform)
      (artifactOf env response)) (log : List (Request U)) :
    (∃ w'', service.fetchUrl env' c protocol url transform ⟨w'.cache, log⟩ =
      .ok (.cachedMetadata body contentType) w'') ↔
      Reusable env c url transform response (env.interfere .publish w₁.cache) := by
  rw [hupstream.fetchUrl] at hfirst
  have hstatus : response.status = 200 := by
    obtain ⟨_, _, _, _, _, _, -, -, -, -, -, -, hstatus⟩ := hupstream
    exact hstatus
  have hstored := storeResponse_stored hstatus htransform hfirst
  obtain ⟨w'', hsecond⟩ := hwarm.fetchUrl log htransform hstored.reference
    (hstored.find hwarm.stays)
  rw [hsecond, hstored.contentType, Reusable, hstored.rewrites]
  -- what is kept is what was there, or what was just stored
  cases hrecord : (env.interfere .publish w₁.cache).record c (artifactOf env response) with
  | none =>
    cases hbody : (env.interfere .publish w₁.cache).body c (artifactOf env response) with
    | none => simp [Surroundings.metadataOf, hstored.rewrites]
    | some file =>
      cases hfile : rewriteMetadata env url transform file <;>
        simp [Surroundings.metadataOf, hfile]
  | some metadata =>
    by_cases hencoding : metadata.encoding = .identity
    · cases hbody : (env.interfere .publish w₁.cache).body c (artifactOf env response) with
      | none => simp [hencoding, hstored.rewrites]
      | some file =>
        cases hfile : rewriteMetadata env url transform file <;>
          simp [hencoding, hfile, and_comm]
    · simp [hencoding]

/-! ## Runs in peace -/

/-- Nobody interferes, nothing fails, and the upstream always sends `response`. -/
structure Peaceful (env : Surroundings U) (response : UpstreamResponse) : Prop where
  alone : ∀ p cache, env.interfere p cache = cache
  works : ∀ p, env.fails p = none
  permit : env.permit = true
  admits : env.admits = true
  answers : ∀ log q, env.upstream log q = .response response
  status : response.status = 200

theorem Peaceful.sendValidated {response : UpstreamResponse} (h : Peaceful env response)
    (current : Option ReferenceRecord) (accept : Option String) (w : World U PackageCache) :
    service.sendValidated env.upstream protocol url current accept w =
      .ok response { w with log := w.log ++ [conditionalRequest url current accept] } := by
  have hsend : sendAttempts env.upstream (conditionalRequest url current accept) 3 w =
      .ok response { w with log := w.log ++ [conditionalRequest url current accept] } := by
    have hfirst : send env.upstream (conditionalRequest url current accept) w =
        .ok (.response response)
          { w with log := w.log ++ [conditionalRequest url current accept] } := by
      rw [send, h.answers]
    rw [sendAttempts, bind_ok hfirst]
    simp [h.status, isServerError]
    rfl
  rw [ProxyService.sendValidated, followRedirects, bind_ok hsend,
    if_pos (by rw [h.status]; decide)]
  rfl

/-- A target without a reference is fetched and stored. -/
theorem Peaceful.first {response : UpstreamResponse} (h : Peaceful env response)
    (service : ProxyService U) (c : ChannelId) (protocol : Protocol) (url : U)
    (transform : Transform) (htransform : transform ≠ .none) {body : Bytes}
    (hrewrite : rewriteMetadata env url transform response.body = .ok body)
    {cache : PackageCache}
    (habsent : cache.reference c (service.nameOf env protocol url transform) = none) :
    ∃ w₁ w', service.GoesUpstream env c protocol url transform ⟨cache, []⟩ w₁ response ∧
      w₁.cache = cache ∧
      service.fetchUrl env c protocol url transform ⟨cache, []⟩ =
        .ok (.cachedMetadata body response.contentType) w' := by
  have hresolve : ∀ p (w : World U PackageCache), w.cache = cache → env.resolveReference c p
      (service.nameOf env protocol url transform) w = .ok none w := by
    intro p w hw
    rw [Surroundings.resolveReference, Surroundings.operate_ok (h.works p), h.alone, hw, habsent,
      ← hw]
  have hupstream : service.GoesUpstream env c protocol url transform ⟨cache, []⟩
      ⟨cache, [conditionalRequest url none transform.upstreamAccept]⟩ response :=
    ⟨none, none, _, _, _, _, hresolve _ _ rfl, freshOutcome_stale rfl _, hresolve _ _ rfl,
      freshOutcome_stale rfl _, h.permit, h.sendValidated none _ _, h.status⟩
  have hbind : ∀ name a etag lastModified (w : World U PackageCache),
      ∃ w', env.bindReferenceWithValidators c name a etag lastModified w = .ok () w' := by
    intro name a etag lastModified w
    exact ⟨_, Surroundings.operate_ok (h.works .bind) _ w⟩
  obtain ⟨w', hw'⟩ := hbind (service.nameOf env protocol url transform) (artifactOf env response)
    response.etag response.lastModified ⟨cache.publish c (artifactOf env response)
      (env.metadataOf response.contentType response.body) response.body,
      [conditionalRequest url none transform.upstreamAccept]⟩
  refine ⟨_, w', hupstream, rfl, ?_⟩
  have hpublish : env.publishOrReject c response.contentType response.body
      ⟨cache, [conditionalRequest url none transform.upstreamAccept]⟩ =
        .ok (.ok (.published (artifactOf env response)))
          ⟨cache.publish c (artifactOf env response)
            (env.metadataOf response.contentType response.body) response.body,
            [conditionalRequest url none transform.upstreamAccept]⟩ := by
    simp [Surroundings.publishOrReject, h.works, h.admits, h.alone, artifactOf]
  rw [hupstream.fetchUrl, storeResponse, if_neg (by rw [h.status]; decide), if_neg htransform,
    hrewrite]
  show serveMetadata env c _ response body _ = _
  rw [serveMetadata, bind_ok hpublish]
  exact bind_ok hw'

theorem Peaceful.warm {response : UpstreamResponse} (h : Peaceful env response) {name : Bytes}
    {a : ArtifactId} (hinTtl : saturatingSub (env.now .resolve) (env.now .bind) < service.ttl) :
    Warm service env env c name a where
  sha256 := rfl
  rewriteDocument := rfl
  resolves := h.works _
  locates := h.works _
  inTtl := hinTtl
  stays _ := by rw [h.alone]; exact ⟨rfl, rfl⟩
  kept _ := by rw [h.alone]; exact ⟨rfl, rfl⟩
  keptStill _ := by rw [h.alone]; exact ⟨rfl, rfl⟩
  bound _ := by rw [h.alone]

end ProxyService

/-! ### The same bytes by another route -/

namespace ProxyService

/-- A Python project page of one byte, sent as HTML. -/
def pageResponse : UpstreamResponse := ⟨200, none, some "text/html", some "v1", none, [97]⟩

def pageSurroundings : Surroundings String :=
  { sampleSurroundings with
    upstream := fun _ _ => .response pageResponse
    interfere := fun _ cache => cache }

theorem page_peaceful : Peaceful pageSurroundings pageResponse :=
  ⟨fun _ _ => rfl, fun _ => rfl, rfl, rfl, fun _ _ => rfl, rfl⟩

/-- A cache that holds nothing. -/
def emptyCache : PackageCache := ⟨fun _ _ => none, fun _ _ => none, fun _ _ => none⟩

/-- The byte was uploaded before: as a raw artifact with a content type of its own, or to
the HTTP build cache, which compresses. -/
def uploadedRaw : PackageCache :=
  emptyCache.publish .default (artifactOf pageSurroundings pageResponse)
    ⟨1, some "application/octet-stream", 50, 1050, 1, .identity⟩ [97]

def uploadedCompressed : PackageCache :=
  emptyCache.publish .default (artifactOf pageSurroundings pageResponse)
    ⟨1, some "text/html", 50, 1050, 10, .zstd⟩ [0x28, 0xb5, 0x2f, 0xfd, 0x00, 0x58, 9, 0, 0, 97]

/-- The page is fetched cold from the given cache, stored, and then fetched warm. -/
def WarmDiffers (cache : PackageCache) : Prop :=
  ∃ w₁ w' body contentType,
    sampleService.GoesUpstream pageSurroundings .default .python pythonProject
      (.pythonHtml "" true) ⟨cache, []⟩ w₁ pageResponse ∧
    sampleService.fetchUrl pageSurroundings .default .python pythonProject (.pythonHtml "" true)
      ⟨cache, []⟩ = .ok (.cachedMetadata body contentType) w' ∧
    Warm sampleService pageSurroundings pageSurroundings .default
      (sampleService.nameOf pageSurroundings .python pythonProject (.pythonHtml "" true))
      (artifactOf pageSurroundings pageResponse) ∧
    ¬ ∃ w'', sampleService.fetchUrl pageSurroundings .default .python pythonProject
      (.pythonHtml "" true) ⟨w'.cache, []⟩ = .ok (.cachedMetadata body contentType) w''

/-- The warm answer is made of what is there already. -/
theorem warmDiffers_of_find {cache : PackageCache} {metadata : ArtifactMetadata} {file : Bytes}
    (habsent : ∀ name, cache.reference .default name = none)
    (hrecord : cache.record .default (artifactOf pageSurroundings pageResponse) = some metadata)
    (hbody : cache.body .default (artifactOf pageSurroundings pageResponse) = some file)
    (hother : metadata.encoding ≠ .identity ∨ metadata.contentType ≠ some "text/html") :
    WarmDiffers cache := by
  have hwarm : Warm sampleService pageSurroundings pageSurroundings .default
      (sampleService.nameOf pageSurroundings .python pythonProject (.pythonHtml "" true))
      (artifactOf pageSurroundings pageResponse) := page_peaceful.warm (by decide)
  obtain ⟨w₁, w', hupstream, hcache, hfirst⟩ := page_peaceful.first sampleService
    .default .python pythonProject (.pythonHtml "" true) nofun rfl (habsent _)
  refine ⟨w₁, w', [97], some "text/html", hupstream, hfirst, hwarm, ?_⟩
  rw [hupstream.fetchUrl] at hfirst
  have htransform : Transform.pythonHtml "" true ≠ .none := nofun
  have hstored := storeResponse_stored rfl htransform hfirst
  have hfound := hstored.find hwarm.stays
  rw [show pageSurroundings.interfere .publish w₁.cache = cache from hcache, hrecord, hbody]
    at hfound
  obtain ⟨w'', hsecond⟩ := hwarm.fetchUrl [] htransform hstored.reference hfound
  rw [hsecond]
  rintro ⟨w₂, hsame⟩
  dsimp only [Option.getD_some] at hsame
  split at hsame
  · cases hsame
  · rename_i hencoding
    rcases hother with hne | hne
    · exact hencoding hne
    · have hrewrite : rewriteMetadata pageSurroundings pythonProject (.pythonHtml "" true) file =
          .ok file := rfl
      rw [hrewrite] at hsame
      simp only [EStateM.Result.ok.injEq, ProxyOutcome.cachedMetadata.injEq] at hsame
      exact hne hsame.1.2

/-- After the raw upload the warm page has the upload's content type; after the compressed one
it is an error. -/
theorem warm_answer_differs : WarmDiffers uploadedRaw ∧ WarmDiffers uploadedCompressed := by
  constructor
  · have hrecord : uploadedRaw.record .default (artifactOf pageSurroundings pageResponse) =
        some ⟨1, some "application/octet-stream", 50, 1050, 1, .identity⟩ := by
      simp [uploadedRaw, PackageCache.publish, emptyCache]
    exact warmDiffers_of_find (fun _ => rfl) hrecord
      (by simp [uploadedRaw, PackageCache.publish]; rfl) (.inr (by decide))
  · have hrecord : uploadedCompressed.record .default (artifactOf pageSurroundings pageResponse) =
        some ⟨1, some "text/html", 50, 1050, 10, .zstd⟩ := by
      simp [uploadedCompressed, PackageCache.publish, emptyCache]
    exact warmDiffers_of_find (fun _ => rfl) hrecord
      (by simp [uploadedCompressed, PackageCache.publish]; rfl) (.inl (by decide))

/-- The page was stored before, with the content type it is sent with. -/
def uploadedPage : PackageCache :=
  emptyCache.publish .default (artifactOf pageSurroundings pageResponse)
    ⟨1, some "text/html", 50, 1050, 1, .identity⟩ [97]

/-- What is there already is kept, and the two answers are the same. -/
theorem warm_page_agrees : ∃ w' w'',
    sampleService.fetchUrl pageSurroundings .default .python pythonProject (.pythonHtml "" true)
      ⟨uploadedPage, []⟩ = .ok (.cachedMetadata [97] (some "text/html")) w' ∧
    sampleService.fetchUrl pageSurroundings .default .python pythonProject (.pythonHtml "" true)
      ⟨w'.cache, []⟩ = .ok (.cachedMetadata [97] (some "text/html")) w'' := by
  obtain ⟨w₁, w', hupstream, hcache, hfirst⟩ := page_peaceful.first sampleService
    .default .python pythonProject (.pythonHtml "" true) nofun rfl
    (show uploadedPage.reference .default _ = none from rfl)
  have hreusable : Reusable pageSurroundings .default pythonProject (.pythonHtml "" true)
      pageResponse (pageSurroundings.interfere .publish w₁.cache) := by
    rw [show pageSurroundings.interfere .publish w₁.cache = uploadedPage from hcache]
    constructor
    · intro metadata hmetadata
      have hrecord : uploadedPage.record .default (artifactOf pageSurroundings pageResponse) =
          some ⟨1, some "text/html", 50, 1050, 1, .identity⟩ := by
        simp [uploadedPage, PackageCache.publish, emptyCache]
      cases hrecord.symm.trans hmetadata
      exact ⟨rfl, rfl⟩
    · intro file hfile
      have hbody : uploadedPage.body .default (artifactOf pageSurroundings pageResponse) =
          some [97] := by
        simp [uploadedPage, PackageCache.publish]
        rfl
      cases hbody.symm.trans hfile
      rfl
  obtain ⟨w'', hsecond⟩ := (warm_answer_agrees_iff sampleService pageSurroundings pageSurroundings
    .default .python pythonProject (.pythonHtml "" true) nofun hupstream hfirst
    (page_peaceful.warm (by decide)) []).mpr hreusable
  exact ⟨w', w'', hfirst, hsecond⟩

end ProxyService

end Flywheel
