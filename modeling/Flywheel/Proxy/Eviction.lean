import Flywheel.Proxy.Fetch

/-!
# Evicted packages

A reference does not pin its body: the body may be evicted while the reference is still
fresh, or between any two steps of a fetch. Here everything else goes right (`OnlyEvictions`)
and the upstream serves a body `b`, with a 304 for validators that match it (`Offers`).

`cached_outcome` answers a raw file (`Transform::None`) without looking whether its body is
there, although `fresh_outcome` promises a body that is still on disk, so an evicted file
is a 404 for as long as its reference stays fresh or is confirmed. A metadata document is
looked up, but a body that is gone does not keep the fetch from sending the validators, and
the 304 they earn leaves nothing to answer with.

`Transparent` is the exact condition under which the client gets `b` all the same.
-/

set_option autoImplicit false

namespace Flywheel

open Lib

variable {U : Type}

/-! ## Evictions -/

namespace PackageCache

variable (cache : PackageCache)

/-- Evict the records and bodies that are `gone`. -/
def evict (gone : ChannelId → ArtifactId → Bool) : PackageCache :=
  { cache with
    record := fun c a => if gone c a then none else cache.record c a
    body := fun c a => if gone c a then none else cache.body c a }

/-- What a lookup finds. -/
def find (c : ChannelId) (a : ArtifactId) : Option Located := (cache.locate c a).1

@[simp] theorem evict_reference (gone : ChannelId → ArtifactId → Bool) :
    (cache.evict gone).reference = cache.reference := rfl

theorem find_eq (c : ChannelId) (a : ArtifactId) :
    cache.find c a =
      (cache.record c a).bind fun metadata => (cache.body c a).map fun file => ⟨metadata, file⟩ := by
  unfold find locate
  cases cache.record c a <;> cases cache.body c a <;> rfl

@[simp] theorem find_evict (gone : ChannelId → ArtifactId → Bool) (c : ChannelId) (a : ArtifactId) :
    (cache.evict gone).find c a = if gone c a then none else cache.find c a := by
  rw [find_eq, find_eq]
  by_cases hgone : gone c a <;> simp [evict, hgone]

/-- A body that is gone stays gone. -/
theorem find_evict_of_none {cache : PackageCache} (gone : ChannelId → ArtifactId → Bool)
    {c : ChannelId} {a : ArtifactId} (h : cache.find c a = none) :
    (cache.evict gone).find c a = none := by
  rw [find_evict, h, ite_self]

@[simp] theorem find_bindReference (c c' : ChannelId) (name : Bytes) (record : ReferenceRecord)
    (a : ArtifactId) : (cache.bindReference c name record).find c' a = cache.find c' a := by
  rw [find_eq, find_eq]
  rfl

@[simp] theorem find_publish (c : ChannelId) (a : ArtifactId) (metadata : ArtifactMetadata)
    (file : Bytes) : (cache.publish c a metadata file).find c a =
      some ⟨(cache.record c a).getD metadata, (cache.body c a).getD file⟩ := by
  rw [find_eq]
  simp [publish]

theorem locate_reference (c : ChannelId) (a : ArtifactId) :
    (cache.locate c a).2.reference = cache.reference := by
  unfold locate
  cases cache.record c a <;> cases cache.body c a <;> rfl

/-- A lookup removes a record only where there is no body, so later lookups find the same. -/
theorem find_locate (c : ChannelId) (a : ArtifactId) :
    (cache.locate c a).2.find c a = cache.find c a := by
  rw [find_eq, find_eq]
  unfold locate
  cases hrecord : cache.record c a <;> cases hbody : cache.body c a <;> simp [hrecord, hbody]

end PackageCache

/-- Nothing but evictions happens around a fetch, and nothing else goes wrong. -/
structure OnlyEvictions (env : Surroundings U) (gone : Point → ChannelId → ArtifactId → Bool) :
    Prop where
  evicts : ∀ p cache, env.interfere p cache = cache.evict (gone p)
  works : ∀ p, env.fails p = none
  permit : env.permit = true
  foreground : env.foreground = true

/-- The upstream has `b` for the target: it answers 304 when the validators match and sends
`b` otherwise, in particular to an unconditional GET. -/
structure Offers (upstream : Upstream U) (url : U) (accept : Option String)
    (confirms : Option String → Option String → Bool) (b : Bytes) : Prop where
  unconditional : confirms none none = false
  full : ∀ log q, q.url = url → q.accept = accept →
    confirms q.ifNoneMatch q.ifModifiedSince = false →
      ∃ r, upstream log q = .response r ∧ r.status = 200 ∧ r.body = b
  notModified : ∀ log q, q.url = url → q.accept = accept →
    confirms q.ifNoneMatch q.ifModifiedSince = true →
      ∃ r, upstream log q = .response r ∧ r.status = 304

/-! ## Operations of the cache -/

section Runs

variable {env : Surroundings U} {gone : Point → ChannelId → ArtifactId → Bool}
variable (h : OnlyEvictions env gone) (c : ChannelId) (w : World U PackageCache)

include h

theorem OnlyEvictions.operate {α : Type} (p : Point) (f : PackageCache → α × PackageCache) :
    env.operate p f w =
      .ok (f (w.cache.evict (gone p))).1 { w with cache := (f (w.cache.evict (gone p))).2 } := by
  unfold Surroundings.operate
  rw [h.works p, h.evicts]

theorem OnlyEvictions.resolveReference (p : Point) (name : Bytes) :
    env.resolveReference c p name w =
      .ok (w.cache.reference c name) { w with cache := w.cache.evict (gone p) } :=
  h.operate w p _

theorem OnlyEvictions.locate {p : Point} {a : ArtifactId} {found : Option Located}
    (hfound : (w.cache.evict (gone p)).find c a = found) :
    env.locate c p a w = .ok found { w with cache := ((w.cache.evict (gone p)).locate c a).2 } := by
  rw [← hfound]
  exact h.operate w p _

/-- A bind leaves the bodies alone. -/
theorem OnlyEvictions.bindReference (name : Bytes) (a : ArtifactId)
    (etag lastModified : Option String) :
    ∃ w', env.bindReferenceWithValidators c name a etag lastModified w = .ok () w' ∧
      ∀ a', w'.cache.find c a' = (w.cache.evict (gone .bind)).find c a' :=
  ⟨_, h.operate w .bind _, fun _ => PackageCache.find_bindReference ..⟩

theorem OnlyEvictions.serveArtifact (a : ArtifactId) (cache : PackageCache) :
    env.serveArtifact c a cache =
      match (cache.evict (gone .serve)).find c a with
      | none => ⟨404, none, []⟩
      | some located =>
        ⟨200, located.metadata.contentType, located.contents env.zstdDecode⟩ := by
  unfold Surroundings.serveArtifact
  rw [h.foreground, h.works, h.evicts]
  rfl

/-- A raw file is served as `b` exactly when the lookup finds a copy that reads as `b`. -/
theorem OnlyEvictions.serve_iff (a : ArtifactId) (cache : PackageCache) (b : Bytes) :
    (env.serveArtifact c a cache).status = 200 ∧ (env.serveArtifact c a cache).body = b ↔
      ∃ located, (cache.evict (gone .serve)).find c a = some located ∧
        located.contents env.zstdDecode = b := by
  rw [h.serveArtifact]
  cases (cache.evict (gone .serve)).find c a with
  | none => simp
  | some located => simp

end Runs

/-- The one request that an upstream with `b` needs. -/
theorem sendValidated_offers {service : ProxyService U} {upstream : Upstream U} {url : U}
    {accept : Option String} {confirms : Option String → Option String → Bool} {b : Bytes}
    (h : Offers upstream url accept confirms b) (protocol : Protocol)
    (current : Option ReferenceRecord) (w : World U PackageCache) :
    ∃ r log, service.sendValidated upstream protocol url current accept w =
        .ok r { w with log := log } ∧
      (confirms (current.bind (·.etag)) (current.bind (·.lastModified)) = true →
        r.status = 304) ∧
      (confirms (current.bind (·.etag)) (current.bind (·.lastModified)) = false →
        r.status = 200 ∧ r.body = b) := by
  -- a first answer that is neither a server error nor a redirect is the last one
  have hfinal : ∀ r, upstream w.log (conditionalRequest url current accept) = .response r →
      isServerError r.status = false → isRedirect r.status = false →
      service.sendValidated upstream protocol url current accept w =
        .ok r { w with log := w.log ++ [conditionalRequest url current accept] } := by
    intro r hr hserver hredirect
    have hsend : send upstream (conditionalRequest url current accept) w =
        .ok (.response r) { w with log := w.log ++ [conditionalRequest url current accept] } := by
      rw [send, hr]
    have hattempts : sendAttempts upstream (conditionalRequest url current accept) 3 w =
        .ok r { w with log := w.log ++ [conditionalRequest url current accept] } := by
      rw [sendAttempts, bind_ok hsend]
      simp only [hserver]
      rfl
    unfold ProxyService.sendValidated redirectHopLimit
    rw [ProxyService.followRedirects, bind_ok hattempts]
    simp only [hredirect]
    rfl
  cases hconfirms : confirms (current.bind (·.etag)) (current.bind (·.lastModified)) with
  | true =>
    obtain ⟨r, hr, hstatus⟩ := h.notModified w.log (conditionalRequest url current accept) rfl rfl
      hconfirms
    refine ⟨r, _, hfinal r hr ?_ ?_, fun _ => hstatus, (by intro hno; cases hno)⟩
    · rw [hstatus]
      decide
    · rw [hstatus]
      decide
  | false =>
    obtain ⟨r, hr, hstatus, hbody⟩ := h.full w.log (conditionalRequest url current accept) rfl rfl
      hconfirms
    refine ⟨r, _, hfinal r hr ?_ ?_, (by intro hyes; cases hyes),
      fun _ => ⟨hstatus, hbody⟩⟩
    · rw [hstatus]
      decide
    · rw [hstatus]
      decide

/-! ## When an eviction goes unnoticed -/

/-- The copy of `a` that evictions at the points leave. -/
def held (gone : Point → ChannelId → ArtifactId → Bool) (cache : PackageCache)
    (points : List Point) (c : ChannelId) (a : ArtifactId) : Option Located :=
  (points.foldl (fun k p => k.evict (gone p)) cache).find c a

namespace Surroundings

variable (env : Surroundings U)

/-- A copy was found and reads as `b`. -/
def Reads (b : Bytes) (found : Option Located) : Prop :=
  ∃ located, found = some located ∧ located.contents env.zstdDecode = b

/-- A copy that a metadata fetch can answer `rendered` from. -/
def Rewrites (url : U) (transform : Transform) (rendered : Bytes) (located : Located) : Prop :=
  located.metadata.encoding = .identity ∧
    ProxyService.rewriteMetadata env url transform located.file = .ok rendered

/-- The file that was just stored for `b`, unless it was passed through uncached, is still
there when it is served, and what the store keeps under its digest reads as `b`. -/
def StaysStored (gone : Point → ChannelId → ArtifactId → Bool) (c : ChannelId)
    (cache : PackageCache) (b : Bytes) : Prop :=
  let a := ArtifactId.fromDigest (env.sha256 b)
  let k := [Point.resolve, .recheck, .publish].foldl (fun k p => k.evict (gone p)) cache
  env.admits = true → gone .bind c a = false ∧ gone .serve c a = false ∧
    Located.contents env.zstdDecode
      ⟨(k.record c a).getD (env.metadataOf none b), (k.body c a).getD b⟩ = b

end Surroundings

namespace ProxyService

variable (service : ProxyService U) (env : Surroundings U)
variable (gone : Point → ChannelId → ArtifactId → Bool) (c : ChannelId) (cache : PackageCache)
variable (confirms : Option String → Option String → Bool)

/-- Raw files. A reference that is fresh, or that the upstream confirms, is answered with its
artifact: a copy that reads as `b` must be left at the lookup of `serve_artifact`. -/
def FileTransparent (record : Option ReferenceRecord) (b : Bytes) : Prop :=
  match record with
  | none => env.StaysStored gone c cache b
  | some r =>
    if service.fresh (env.now .resolve) r then
      env.Reads b (held gone cache [.resolve, .serve] c r.artifact)
    else if service.fresh (env.now .recheck) r then
      env.Reads b (held gone cache [.resolve, .recheck, .serve] c r.artifact)
    else if confirms r.etag r.lastModified then
      env.Reads b (held gone cache [.resolve, .recheck, .bind, .serve] c r.artifact)
    else env.StaysStored gone c cache b

/-- Metadata. A copy found for a fresh reference is the answer; a body that is gone must not
have validators the upstream would confirm; and the body of a stale reference that the
upstream confirms must be there at the lookup after it. -/
def MetadataTransparent (record : Option ReferenceRecord) (url : U) (transform : Transform)
    (rendered : Bytes) : Prop :=
  match record with
  | none => True
  | some r =>
    if service.fresh (env.now .resolve) r then
      match held gone cache [.resolve, .locate] c r.artifact with
      | some located => env.Rewrites url transform rendered located
      | none => confirms r.etag r.lastModified = false
    else if service.fresh (env.now .recheck) r then
      match held gone cache [.resolve, .recheck, .relocate] c r.artifact with
      | some located => env.Rewrites url transform rendered located
      | none => confirms r.etag r.lastModified = false
    else confirms r.etag r.lastModified = true →
      ∃ located, held gone cache [.resolve, .recheck, .bind, .confirm] c r.artifact =
        some located ∧ env.Rewrites url transform rendered located

/-- The evictions around a fetch do not show in its response. -/
def Transparent (protocol : Protocol) (url : U) (transform : Transform) (b rendered : Bytes) :
    Prop :=
  let record := cache.reference c
    (proxyReference env.sha256 protocol (service.urls.asStr url) transform.cacheVariant)
  if transform = .none then service.FileTransparent env gone c cache confirms record b
  else service.MetadataTransparent env gone c cache confirms record url transform rendered

variable {service env gone c confirms}
variable {protocol : Protocol} {url : U} {transform : Transform} {name b rendered : Bytes}

/-- A response of 200 with the given body. -/
def Carries (response : Response) (body : Bytes) : Prop :=
  response.status = 200 ∧ response.body = body

theorem not_carries_failure (error : ProxyError) (body : Bytes) :
    ¬ Carries (Surroundings.proxyFailure error) body := by
  rintro ⟨hstatus, -⟩
  cases error <;> cases hstatus

/-! ### The answer from the cache -/

theorem freshOutcome_stale {p q : Point} {record : Option ReferenceRecord}
    (hstale : record.filter (service.fresh (env.now p)) = none) (w : World U PackageCache) :
    service.freshOutcome env c p q record url transform w = .ok none w := by
  rw [freshOutcome, hstale]
  rfl

theorem freshOutcome_fresh {p q : Point} {r : ReferenceRecord}
    (hfresh : service.fresh (env.now p) r = true) :
    service.freshOutcome env c p q (some r) url transform =
      cachedOutcome env c q r.artifact url transform := by
  have hfilter : (some r).filter (service.fresh (env.now p)) = some r := by
    rw [Option.filter_some, if_pos hfresh]
  rw [freshOutcome, hfilter]

theorem cachedOutcome_file (p : Point) (a : ArtifactId) (w : World U PackageCache) :
    cachedOutcome env c p a url .none w = .ok (some (.artifact a)) w := rfl

/-- A metadata document that is gone is a miss. -/
theorem cachedOutcome_gone (h : OnlyEvictions env gone) (htransform : transform ≠ .none)
    {p : Point} {a : ArtifactId} {w : World U PackageCache}
    (hgone : (w.cache.evict (gone p)).find c a = none) :
    cachedOutcome env c p a url transform w =
      .ok none { w with cache := ((w.cache.evict (gone p)).locate c a).2 } := by
  rw [cachedOutcome, if_neg htransform, bind_ok (h.locate c w hgone)]
  rfl

/-- One that is there is the answer, and the right one exactly when the copy rewrites to
`rendered`. -/
theorem cachedOutcome_found (h : OnlyEvictions env gone) (htransform : transform ≠ .none)
    {p : Point} {a : ArtifactId} {w : World U PackageCache} {located : Located}
    (hfound : (w.cache.evict (gone p)).find c a = some located) (rendered : Bytes) :
    (∃ outcome w', cachedOutcome env c p a url transform w = .ok (some outcome) w' ∧
      (Carries (env.respond c (.ok outcome w')) rendered ↔
        env.Rewrites url transform rendered located)) ∨
    (∃ error w', cachedOutcome env c p a url transform w = .error error w' ∧
      ¬ env.Rewrites url transform rendered located) := by
  rw [cachedOutcome, if_neg htransform, bind_ok (h.locate c w hfound)]
  dsimp only
  by_cases hencoding : located.metadata.encoding = .identity
  · rw [if_neg (not_not_intro hencoding)]
    cases hrewrite : rewriteMetadata env url transform located.file with
    | ok body =>
      refine .inl ⟨.cachedMetadata body located.metadata.contentType, _, rfl, ?_⟩
      simp [Carries, Surroundings.respond, Surroundings.outcomeResponse, Surroundings.Rewrites,
        hencoding, hrewrite]
    | error e =>
      refine .inr ⟨e, _, rfl, ?_⟩
      rintro ⟨-, hok⟩
      rw [hrewrite] at hok
      cases hok
  · rw [if_pos hencoding]
    exact .inr ⟨_, _, rfl, fun hok => hencoding hok.1⟩

/-! ### The answer of the upstream -/

/-- A confirmed raw file is answered unseen. -/
theorem revalidated_file (h : OnlyEvictions env gone) (r : ReferenceRecord)
    (w : World U PackageCache) (b : Bytes) :
    Carries (env.respond c (revalidated env c name (some r) url .none w)) b ↔
      env.Reads b (((w.cache.evict (gone .bind)).evict (gone .serve)).find c r.artifact) := by
  obtain ⟨w', hbind, hsame⟩ := h.bindReference c w name r.artifact r.etag r.lastModified
  rw [revalidated, bind_ok hbind, bind_ok (cachedOutcome_file .confirm r.artifact _)]
  refine (h.serve_iff c r.artifact _ b).trans ?_
  rw [PackageCache.find_evict, hsame, ← PackageCache.find_evict]
  rfl

/-- A confirmed document needs its body. -/
theorem revalidated_metadata (h : OnlyEvictions env gone) (htransform : transform ≠ .none)
    (r : ReferenceRecord) (w : World U PackageCache) (rendered : Bytes) :
    Carries (env.respond c (revalidated env c name (some r) url transform w)) rendered ↔
      ∃ located, ((w.cache.evict (gone .bind)).evict (gone .confirm)).find c r.artifact =
        some located ∧ env.Rewrites url transform rendered located := by
  obtain ⟨w', hbind, hsame⟩ := h.bindReference c w name r.artifact r.etag r.lastModified
  rw [PackageCache.find_evict, ← hsame, ← PackageCache.find_evict, revalidated, bind_ok hbind]
  cases hfind : (w'.cache.evict (gone .confirm)).find c r.artifact with
  | none =>
    rw [bind_ok (cachedOutcome_gone h htransform hfind)]
    refine iff_of_false (not_carries_failure _ _) ?_
    rintro ⟨located, hlocated, -⟩
    cases hlocated
  | some located =>
    have hunique : (∃ l, some located = some l ∧ env.Rewrites url transform rendered l) ↔
        env.Rewrites url transform rendered located := by simp
    rw [hunique]
    rcases cachedOutcome_found h htransform hfind rendered with
      ⟨outcome, w'', hrun, hiff⟩ | ⟨error, w'', hrun, hnot⟩
    · rw [bind_ok hrun]
      exact hiff
    · rw [bind_error hrun]
      exact iff_of_false (not_carries_failure _ _) hnot

/-- What storing a body comes to: it is refused, or a copy is kept under its digest. -/
theorem publishOrReject_cases (h : OnlyEvictions env gone) (contentType : Option String)
    (body : Bytes) (w : World U PackageCache) :
    (env.admits = false ∧
      ∃ w', env.publishOrReject c contentType body w = .ok (.ok .rejected) w') ∨
    (env.admits = true ∧ ∃ w',
      env.publishOrReject c contentType body w =
        .ok (.ok (.published (ArtifactId.fromDigest (env.sha256 body)))) w' ∧
      w'.cache = (w.cache.evict (gone .publish)).publish c (ArtifactId.fromDigest (env.sha256 body))
        (env.metadataOf contentType body) body) := by
  cases hadmits : env.admits with
  | false =>
    refine .inl ⟨rfl, ⟨env.interfere .publish w.cache, w.log⟩, ?_⟩
    rw [Surroundings.publishOrReject, h.works, hadmits]
    rfl
  | true =>
    refine .inr ⟨rfl, ⟨_, w.log⟩, ?_, rfl⟩
    rw [Surroundings.publishOrReject, h.works, hadmits, h.evicts]
    rfl

/-- A document that came from the upstream is answered whatever becomes of its copy. -/
theorem storeResponse_metadata (h : OnlyEvictions env gone) (htransform : transform ≠ .none)
    {response : UpstreamResponse} (hstatus : response.status = 200) (hbody : response.body = b)
    (hrendered : rewriteMetadata env url transform b = .ok rendered) (w : World U PackageCache) :
    Carries (env.respond c (storeResponse env c name url transform response w)) rendered := by
  have hsuccess : isSuccess response.status = true := by
    rw [hstatus]
    rfl
  have hrewrite : (MonadExcept.ofExcept (rewriteMetadata env url transform response.body) :
      Fetch U Bytes) w = .ok rendered w := by
    rw [hbody, hrendered]
    rfl
  rw [storeResponse, if_neg (not_not_intro hsuccess), if_neg htransform, bind_ok hrewrite]
  unfold serveMetadata
  rcases publishOrReject_cases h response.contentType response.body w with
    ⟨-, w', hpublish⟩ | ⟨-, w', hpublish, -⟩
  · rw [bind_ok hpublish]
    exact ⟨rfl, rfl⟩
  · obtain ⟨w'', hbind, -⟩ := h.bindReference c w' name
      (ArtifactId.fromDigest (env.sha256 response.body)) response.etag response.lastModified
    rw [bind_ok hpublish]
    dsimp only
    rw [bind_ok hbind]
    exact ⟨rfl, rfl⟩

/-- The content type of a record does not show in the bytes. -/
theorem contents_metadataOf (zstdDecode : Bytes → Option Bytes) (record : Option ArtifactMetadata)
    (contentType : Option String) (b file : Bytes) :
    Located.contents zstdDecode ⟨record.getD (env.metadataOf contentType b), file⟩ =
      Located.contents zstdDecode ⟨record.getD (env.metadataOf none b), file⟩ := by
  cases record <;> rfl

/-- A raw file that came from the upstream is stored and looked up again. -/
theorem storeResponse_file (h : OnlyEvictions env gone) {response : UpstreamResponse}
    (hstatus : response.status = 200) (hbody : response.body = b) (cache : PackageCache)
    {w : World U PackageCache}
    (hw : w.cache = (cache.evict (gone .resolve)).evict (gone .recheck)) :
    Carries (env.respond c (storeResponse env c name url .none response w)) b ↔
      env.StaysStored gone c cache b := by
  have hsuccess : isSuccess response.status = true := by
    rw [hstatus]
    rfl
  rw [storeResponse, if_neg (not_not_intro hsuccess), if_pos rfl]
  unfold storeFile Surroundings.StaysStored
  rcases publishOrReject_cases h response.contentType response.body w with
    ⟨hadmits, w', hpublish⟩ | ⟨hadmits, w', hpublish, hcache⟩
  · rw [bind_ok hpublish]
    refine iff_of_true ⟨hstatus, hbody⟩ fun hyes => ?_
    rw [hadmits] at hyes
    cases hyes
  · obtain ⟨w'', hbind, hsame⟩ := h.bindReference c w' name
      (ArtifactId.fromDigest (env.sha256 response.body)) response.etag response.lastModified
    rw [bind_ok hpublish]
    dsimp only
    rw [bind_ok hbind]
    refine (h.serve_iff c _ _ b).trans ?_
    rw [PackageCache.find_evict, hsame, PackageCache.find_evict, hcache, hw, hbody]
    simp only [PackageCache.find_publish, hadmits, forall_const, List.foldl_cons, List.foldl_nil]
    cases gone .serve c (ArtifactId.fromDigest (env.sha256 b)) with
    | true => simp
    | false =>
      cases gone .bind c (ArtifactId.fromDigest (env.sha256 b)) with
      | true => simp
      | false => simp [contents_metadataOf]

/-- Upstream, a fetch ends in one of two ways: its validators are confirmed, or it gets `b`. -/
theorem fetchUpstream_cases (h : OnlyEvictions env gone)
    (hoffers : Offers env.upstream url transform.upstreamAccept confirms b) (name : Bytes)
    (current : Option ReferenceRecord) (w : World U PackageCache) :
    ∃ w', w'.cache = w.cache ∧
      ((confirms (current.bind (·.etag)) (current.bind (·.lastModified)) = true ∧
        service.fetchUpstream env c protocol url transform name current w =
          revalidated env c name current url transform w') ∨
      (confirms (current.bind (·.etag)) (current.bind (·.lastModified)) = false ∧
        ∃ response, response.status = 200 ∧ response.body = b ∧
          service.fetchUpstream env c protocol url transform name current w =
            storeResponse env c name url transform response w')) := by
  obtain ⟨r, log, hsend, hyes, hno⟩ := sendValidated_offers hoffers protocol
    current w
  refine ⟨⟨w.cache, log⟩, rfl, ?_⟩
  have hpermit : ¬ ¬ env.permit = true := not_not_intro h.permit
  rw [fetchUpstream, if_neg hpermit, bind_ok hsend]
  cases hconfirms : confirms (current.bind (·.etag)) (current.bind (·.lastModified)) with
  | true => exact .inl ⟨rfl, by rw [if_pos (hyes hconfirms)]⟩
  | false =>
    obtain ⟨hstatus, hbody⟩ := hno hconfirms
    refine .inr ⟨rfl, r, hstatus, hbody, ?_⟩
    rw [if_neg (by rw [hstatus]; decide)]

variable (service c protocol name) in
/-- A raw file behind the coalescing lock. -/
theorem fetchCoalesced_file (h : OnlyEvictions env gone)
    (hoffers : Offers env.upstream url Transform.none.upstreamAccept confirms b)
    {w : World U PackageCache} (hw : w.cache = cache.evict (gone .resolve)) :
    Carries (env.respond c (service.fetchCoalesced env c protocol url .none name w)) b ↔
      match cache.reference c name with
      | none => env.StaysStored gone c cache b
      | some r =>
        if service.fresh (env.now .recheck) r then
          env.Reads b (held gone cache [.resolve, .recheck, .serve] c r.artifact)
        else if confirms r.etag r.lastModified then
          env.Reads b (held gone cache [.resolve, .recheck, .bind, .serve] c r.artifact)
        else env.StaysStored gone c cache b := by
  have hrecord : w.cache.reference c name = cache.reference c name := by rw [hw]; rfl
  rw [fetchCoalesced, bind_ok (h.resolveReference c w .recheck name), hrecord]
  cases hreference : cache.reference c name with
  | none =>
    rw [bind_ok (freshOutcome_stale rfl _)]
    obtain ⟨w', hcache, ⟨hconfirms, -⟩ | ⟨-, response, hstatus, hbody, hrun⟩⟩ :=
      fetchUpstream_cases h hoffers name none
        ⟨w.cache.evict (gone .recheck), w.log⟩
    · have hyes : confirms none none = true := hconfirms
      rw [hoffers.unconditional] at hyes
      cases hyes
    · dsimp only
      rw [hrun]
      exact storeResponse_file h hstatus hbody cache (by rw [hcache, hw])
  | some r =>
    dsimp only
    by_cases hfresh : service.fresh (env.now .recheck) r = true
    · rw [freshOutcome_fresh hfresh, bind_ok (cachedOutcome_file .relocate r.artifact _),
        if_pos hfresh]
      refine (h.serve_iff c r.artifact _ b).trans ?_
      rw [hw]
      rfl
    · have hstale : (some r).filter (service.fresh (env.now .recheck)) = none := by
        rw [Option.filter_some, if_neg hfresh]
      rw [bind_ok (freshOutcome_stale hstale _), if_neg hfresh]
      obtain ⟨w', hcache, ⟨hconfirms, hrun⟩ | ⟨hconfirms, response, hstatus, hbody, hrun⟩⟩ :=
        fetchUpstream_cases h hoffers name
          (some r) ⟨w.cache.evict (gone .recheck), w.log⟩
      · rw [if_pos (show confirms r.etag r.lastModified = true from hconfirms)]
        dsimp only
        rw [hrun, revalidated_file h, hcache, hw]
        rfl
      · rw [if_neg (by rw [show confirms r.etag r.lastModified = false from hconfirms]; decide)]
        dsimp only
        rw [hrun]
        exact storeResponse_file h hstatus hbody cache (by rw [hcache, hw])

variable (service c protocol name) in
/-- A metadata document behind the coalescing lock. -/
theorem fetchCoalesced_metadata (h : OnlyEvictions env gone) (htransform : transform ≠ .none)
    (hoffers : Offers env.upstream url transform.upstreamAccept confirms b)
    (hrendered : rewriteMetadata env url transform b = .ok rendered) (w : World U PackageCache) :
    Carries (env.respond c (service.fetchCoalesced env c protocol url transform name w))
        rendered ↔
      match w.cache.reference c name with
      | none => True
      | some r =>
        if service.fresh (env.now .recheck) r then
          match ((w.cache.evict (gone .recheck)).evict (gone .relocate)).find c r.artifact with
          | some located => env.Rewrites url transform rendered located
          | none => confirms r.etag r.lastModified = false
        else confirms r.etag r.lastModified = true →
          ∃ located, (((w.cache.evict (gone .recheck)).evict (gone .bind)).evict
              (gone .confirm)).find c r.artifact = some located ∧
            env.Rewrites url transform rendered located := by
  rw [fetchCoalesced, bind_ok (h.resolveReference c w .recheck name)]
  cases hreference : w.cache.reference c name with
  | none =>
    rw [bind_ok (freshOutcome_stale rfl _)]
    obtain ⟨w', -, ⟨hconfirms, -⟩ | ⟨-, response, hstatus, hbody, hrun⟩⟩ :=
      fetchUpstream_cases h hoffers name none ⟨w.cache.evict (gone .recheck), w.log⟩
    · have hyes : confirms none none = true := hconfirms
      rw [hoffers.unconditional] at hyes
      cases hyes
    · dsimp only
      rw [hrun]
      exact iff_true_intro (storeResponse_metadata h htransform hstatus hbody hrendered w')
  | some r =>
    -- the fetch goes upstream from a cache `k`
    have hupstream : ∀ k : World U PackageCache,
        Carries (env.respond c
          (service.fetchUpstream env c protocol url transform name (some r) k)) rendered ↔
        (confirms r.etag r.lastModified = true →
          ∃ located, ((k.cache.evict (gone .bind)).evict (gone .confirm)).find c r.artifact =
            some located ∧ env.Rewrites url transform rendered located) := by
      intro k
      obtain ⟨w', hcache, ⟨hconfirms, hrun⟩ | ⟨hconfirms, response, hstatus, hbody, hrun⟩⟩ :=
        fetchUpstream_cases h hoffers name (some r) k
      · have hyes : confirms r.etag r.lastModified = true := hconfirms
        rw [hrun, revalidated_metadata h htransform, hcache, hyes]
        simp
      · have hno : confirms r.etag r.lastModified = false := hconfirms
        rw [hrun, hno]
        exact iff_of_true (storeResponse_metadata h htransform hstatus hbody hrendered w') nofun
    dsimp only
    by_cases hfresh : service.fresh (env.now .recheck) r = true
    · rw [freshOutcome_fresh hfresh, if_pos hfresh]
      cases hfind : ((w.cache.evict (gone .recheck)).evict (gone .relocate)).find c r.artifact with
      | some located =>
        rcases cachedOutcome_found (w := ⟨w.cache.evict (gone .recheck), w.log⟩) h htransform hfind
          rendered with ⟨outcome, w', hrun, hiff⟩ | ⟨error, w', hrun, hnot⟩
        · rw [bind_ok hrun]
          exact hiff
        · rw [bind_error hrun]
          exact iff_of_false (not_carries_failure _ _) hnot
      | none =>
        rw [bind_ok (cachedOutcome_gone (w := ⟨w.cache.evict (gone .recheck), w.log⟩) h htransform
          hfind)]
        refine (hupstream _).trans ?_
        have hlost := PackageCache.find_evict_of_none (gone .confirm)
          (PackageCache.find_evict_of_none (gone .bind)
            ((PackageCache.find_locate _ c r.artifact).trans hfind))
        rw [hlost]
        simp
    · have hstale : (some r).filter (service.fresh (env.now .recheck)) = none := by
        rw [Option.filter_some, if_neg hfresh]
      rw [bind_ok (freshOutcome_stale hstale _), if_neg hfresh]
      exact hupstream _

theorem fetchUrl_file (h : OnlyEvictions env gone)
    (hoffers : Offers env.upstream url Transform.none.upstreamAccept confirms b)
    (log : List (Request U)) :
    Carries (env.respond c (service.fetchUrl env c protocol url .none ⟨cache, log⟩)) b ↔
      service.FileTransparent env gone c cache confirms
        (cache.reference c
          (proxyReference env.sha256 protocol (service.urls.asStr url) Transform.none.cacheVariant))
        b := by
  rw [fetchUrl, bind_ok (h.resolveReference c ⟨cache, log⟩ .resolve _)]
  have hcoalesced := fetchCoalesced_file service c cache protocol (proxyReference env.sha256 protocol
    (service.urls.asStr url) Transform.none.cacheVariant) h hoffers
      (w := ⟨cache.evict (gone .resolve), log⟩) rfl
  unfold FileTransparent
  cases hreference : cache.reference c (proxyReference env.sha256 protocol (service.urls.asStr url)
      Transform.none.cacheVariant) with
  | none =>
    rw [hreference] at hcoalesced
    rw [bind_ok (freshOutcome_stale rfl _)]
    exact hcoalesced
  | some r =>
    rw [hreference] at hcoalesced
    dsimp only
    by_cases hfresh : service.fresh (env.now .resolve) r = true
    · rw [freshOutcome_fresh hfresh, bind_ok (cachedOutcome_file .locate r.artifact _),
        if_pos hfresh]
      exact h.serve_iff c r.artifact _ b
    · have hstale : (some r).filter (service.fresh (env.now .resolve)) = none := by
        rw [Option.filter_some, if_neg hfresh]
      rw [bind_ok (freshOutcome_stale hstale _), if_neg hfresh]
      exact hcoalesced

theorem fetchUrl_metadata (h : OnlyEvictions env gone) (htransform : transform ≠ .none)
    (hoffers : Offers env.upstream url transform.upstreamAccept confirms b)
    (hrendered : rewriteMetadata env url transform b = .ok rendered) (log : List (Request U)) :
    Carries (env.respond c (service.fetchUrl env c protocol url transform ⟨cache, log⟩))
        rendered ↔
      service.MetadataTransparent env gone c cache confirms
        (cache.reference c
          (proxyReference env.sha256 protocol (service.urls.asStr url) transform.cacheVariant))
        url transform rendered := by
  have hcoalesced := fetchCoalesced_metadata service c protocol
    (proxyReference env.sha256 protocol (service.urls.asStr url) transform.cacheVariant) h
    htransform hoffers hrendered
  rw [fetchUrl, bind_ok (h.resolveReference c ⟨cache, log⟩ .resolve _)]
  unfold MetadataTransparent
  cases hreference : cache.reference c (proxyReference env.sha256 protocol (service.urls.asStr url)
      transform.cacheVariant) with
  | none =>
    rw [bind_ok (freshOutcome_stale rfl _)]
    refine (hcoalesced ⟨cache.evict (gone .resolve), log⟩).trans ?_
    rw [PackageCache.evict_reference, hreference]
  | some r =>
    dsimp only
    by_cases hfresh : service.fresh (env.now .resolve) r = true
    · rw [freshOutcome_fresh hfresh, if_pos hfresh]
      cases hfind : held gone cache [.resolve, .locate] c r.artifact with
      | some located =>
        rcases cachedOutcome_found (w := ⟨cache.evict (gone .resolve), log⟩) h htransform hfind
          rendered with ⟨outcome, w', hrun, hiff⟩ | ⟨error, w', hrun, hnot⟩
        · rw [bind_ok hrun]
          exact hiff
        · rw [bind_error hrun]
          exact iff_of_false (not_carries_failure _ _) hnot
      | none =>
        rw [bind_ok (cachedOutcome_gone (w := ⟨cache.evict (gone .resolve), log⟩) h htransform
          hfind)]
        refine (hcoalesced _).trans ?_
        dsimp only
        -- gone at the first lookup, the body is gone at every later one
        have hlost := (PackageCache.find_locate ((cache.evict (gone .resolve)).evict (gone .locate))
          c r.artifact).trans hfind
        rw [PackageCache.locate_reference, PackageCache.evict_reference,
          PackageCache.evict_reference, hreference]
        dsimp only
        rw [PackageCache.find_evict_of_none _ (PackageCache.find_evict_of_none _ hlost),
          PackageCache.find_evict_of_none _ (PackageCache.find_evict_of_none _
            (PackageCache.find_evict_of_none _ hlost))]
        simp
    · have hstale : (some r).filter (service.fresh (env.now .resolve)) = none := by
        rw [Option.filter_some, if_neg hfresh]
      rw [bind_ok (freshOutcome_stale hstale _), if_neg hfresh]
      refine (hcoalesced ⟨cache.evict (gone .resolve), log⟩).trans ?_
      rw [PackageCache.evict_reference, hreference]
      rfl

/-- **When evictions go unnoticed.** If the upstream has `b`, and nothing but evictions
interferes, then the response to a fetch is a 200 carrying `b`, rewritten for the transform,
exactly under the condition `Transparent` on the reference and on the copies of its body that
are left at the lookups. -/
theorem evictions_unnoticed_iff (service : ProxyService U) (env : Surroundings U)
    (gone : Point → ChannelId → ArtifactId → Bool) (c : ChannelId) (protocol : Protocol)
    (path : String) (url : U) (transform : Transform) (cache : PackageCache) (b rendered : Bytes)
    (confirms : Option String → Option String → Bool)
    (hpath : service.url protocol path = .ok url) (h : OnlyEvictions env gone)
    (hoffers : Offers env.upstream url transform.upstreamAccept confirms b)
    (hrendered : rewriteMetadata env url transform b = .ok rendered) :
    Carries (env.respond c (service.fetch env c protocol path transform ⟨cache, []⟩)) rendered ↔
      service.Transparent env gone c cache confirms protocol url transform b rendered := by
  have htarget : (MonadExcept.ofExcept (service.url protocol path) : Fetch U U) ⟨cache, []⟩ =
      .ok url ⟨cache, []⟩ := by
    rw [hpath]
    rfl
  rw [fetch, bind_ok htarget, Transparent]
  by_cases htransform : transform = .none
  · subst htransform
    -- a raw file is not rewritten
    have hsame : b = rendered := Except.ok.inj hrendered
    subst hsame
    exact fetchUrl_file cache h hoffers []
  · rw [if_neg htransform]
    exact fetchUrl_metadata cache h htransform hoffers hrendered []

/-! ### A Go module and a Python project -/

def goModule : String := "https://proxy.golang.org/m/@v/v1.mod"

def pythonProject : String := "https://pypi.org/simple/m/"

/-- The `url` crate on these two targets. -/
def sampleUrls : UrlLib String where
  parse s := .ok s
  join base path := .ok (base ++ path)
  asStr u := u
  origin u :=
    if u = pythonProject then .tuple "https" "pypi.org" 443
    else .tuple "https" "proxy.golang.org" 443
  scheme _ := "https"
  username _ := ""
  password _ := none
  path u := if u = pythonProject then "/simple/m/" else "/m/@v/v1.mod"
  setPath u _ := u
  base64Decode _ := none

def sampleService : ProxyService String where
  urls := sampleUrls
  bases :=
    { go := "https://proxy.golang.org/"
      python := "https://pypi.org/simple/"
      npm := "https://registry.npmjs.org/"
      cargoIndex := "https://index.crates.io/"
      cargoCrate := "https://static.crates.io/crates/" }
  allowed :=
    { go := [.tuple "https" "proxy.golang.org" 443]
      python := [.tuple "https" "pypi.org" 443, .tuple "https" "files.pythonhosted.org" 443]
      npm := [.tuple "https" "registry.npmjs.org" 443]
      cargoIndex := [.tuple "https" "index.crates.io" 443]
      cargoCrate := [.tuple "https" "static.crates.io" 443] }
  ttl := 300

def digestOfNat (n : Nat) : Digest := ⟨(beDigits 256 32 n).map UInt8.ofNat, by simp⟩

/-- SHA-256 of the body `a` and of what names the references of the two targets. -/
def packageSha256 (bytes : Bytes) : Digest :=
  if bytes = [97] then
    digestOfNat 0xca978112ca1bbdcafac231b39a23dc4da786eff8147c4e72b9807785afee48bb
  else if bytes = beBytes 36 ++ goModule.toUTF8.toList then
    digestOfNat 0x531a568cd8b1276ee9b40791ee0fa901dde68ac6411cc64cebc22c7b9a6eac40
  else digestOfNat 0xb67201857ebbdff3369f47739fbb9705145cd3feb535639ed202775d1a6c1720

/-- The upstream sends `a` under the entity tag `v1`; a document without links is rewritten
to itself; nothing is evicted while the fetch runs. -/
def sampleSurroundings : Surroundings String where
  upstream _ q :=
    if q.ifNoneMatch = some "v1" then .response ⟨304, none, none, some "v1", none, []⟩
    else .response ⟨200, none, none, some "v1", none, [97]⟩
  sha256 := packageSha256
  zstdDecode _ := none
  rewriteDocument _ _ bytes := .ok bytes
  now _ := 150
  interfere _ cache := cache.evict fun _ _ => false
  fails _ := none
  permit := true
  foreground := true
  admits := true
  expirySeconds := 1000

/-- The references were bound at time 100 to the artifact of `a`, whose body is on disk or
gone. -/
def sampleCache (body : Option Bytes) : PackageCache where
  reference _ _ := some ⟨.fromDigest (packageSha256 [97]), 100, some "v1", none⟩
  record _ _ := some ⟨1, none, 90, 1090, 1, .identity⟩
  body _ _ := body

theorem sample_onlyEvictions :
    OnlyEvictions sampleSurroundings fun _ _ _ => false :=
  ⟨fun _ _ => rfl, fun _ => rfl, rfl, rfl⟩

theorem sample_offers (url : String) (accept : Option String) :
    Offers sampleSurroundings.upstream url accept (fun etag _ => decide (etag = some "v1")) [97] where
  unconditional := rfl
  full := by
    intro log q _ _ hno
    refine ⟨_, if_neg (of_decide_eq_false hno), rfl, rfl⟩
  notModified := by
    intro log q _ _ hyes
    exact ⟨_, if_pos (of_decide_eq_true hyes), rfl⟩

/-- The bodies are evicted while the references are fresh. The Go module is a 404 until its
reference expires; the Python project is asked for again with its validators, and the 304 is
a 502. The upstream has both. -/
theorem evicted_package_lost :
    OnlyEvictions sampleSurroundings (fun _ _ _ => false) ∧
    (∀ url accept, Offers sampleSurroundings.upstream url accept
      (fun etag _ => decide (etag = some "v1")) [97]) ∧
    sampleSurroundings.respond .default (sampleService.fetch sampleSurroundings .default .go
      "m/@v/v1.mod" .none ⟨sampleCache none, []⟩) = ⟨404, none, []⟩ ∧
    sampleSurroundings.respond .default (sampleService.fetch sampleSurroundings .default .python
      "m/" (.pythonHtml "" true) ⟨sampleCache none, []⟩) = ⟨502, none, []⟩ :=
  ⟨sample_onlyEvictions, sample_offers, by decide, by decide⟩

/-- Everything is evicted between the reference and the lookup, and once more before the
publication. -/
def evictedThere (p : Point) (_ : ChannelId) (_ : ArtifactId) : Bool := p = .locate || p = .publish

def evictingSurroundings : Surroundings String :=
  { sampleSurroundings with
    interfere := fun p cache => cache.evict (evictedThere p)
    now := fun _ => 450 }

/-- The references have no validators. -/
def unmarkedCache (updatedAt : UInt64) : PackageCache :=
  { sampleCache (some [97]) with
    reference := fun _ _ => some ⟨.fromDigest (packageSha256 [97]), updatedAt, none, none⟩ }

theorem evicting_onlyEvictions : OnlyEvictions evictingSurroundings evictedThere :=
  ⟨fun _ _ => rfl, fun _ => rfl, rfl, rfl⟩

/-- The reference of the Go module has expired, that of the Python project is fresh; both bodies
are evicted under way, and both are fetched and served. -/
theorem evicted_package_served :
    Carries (evictingSurroundings.respond .default (sampleService.fetch evictingSurroundings
      .default .go "m/@v/v1.mod" .none ⟨unmarkedCache 100, []⟩)) [97] ∧
    Carries (evictingSurroundings.respond .default (sampleService.fetch evictingSurroundings
      .default .python "m/" (.pythonHtml "" true) ⟨unmarkedCache 200, []⟩)) [97] := by
  constructor
  · refine (evictions_unnoticed_iff sampleService evictingSurroundings evictedThere .default
      .go "m/@v/v1.mod" goModule .none (unmarkedCache 100) [97] [97]
      (fun etag _ => decide (etag = some "v1")) (by decide) evicting_onlyEvictions
      (sample_offers _ _) rfl).mpr ?_
    exact fun _ => ⟨rfl, rfl, rfl⟩
  · refine (evictions_unnoticed_iff sampleService evictingSurroundings evictedThere .default
      .python "m/" pythonProject (.pythonHtml "" true) (unmarkedCache 200) [97] [97]
      (fun etag _ => decide (etag = some "v1")) (by decide) evicting_onlyEvictions
      (sample_offers _ _) rfl).mpr ?_
    exact rfl

end ProxyService

end Flywheel
