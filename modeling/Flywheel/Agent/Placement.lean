import Flywheel.Agent.Ring
import Flywheel.Transport.Http

/-!
# Placement (`agent/mod.rs`, `classify`)

The agent takes the routing key of a request from the raw path by hand; the shard takes the
object from the same path by its router, which decodes what it captures. The two views of one
path agree on the kind of the object, and the id of the agent is the raw text of the name
(`classify_of_resolve`). `Flywheel/Agent/Spelling.lean` says when two paths of one object
have one id.

- `resolve`: the object of the shard that a path leads to; its handlers read that object and
  no other (`reader_eq_readObject`).
- `classify_of_route`: what the agent makes of a path that the shard has a route for.
-/

set_option autoImplicit false

namespace Flywheel.Agent

open Lib Http

/-! ## Paths -/

/-- `split('/')`. -/
def splitSlash (text : String) : List String := (text.toList.splitOn '/').map String.ofList

/-- `trim_start_matches('/')`. -/
def trimSlashes (text : String) : String := String.ofList (text.toList.dropWhile (· = '/'))

/-- A text that starts with a slash has an empty first segment. -/
theorem splitSlash_slash {text : String} {rest : List Char} (h : text.toList = '/' :: rest) :
    (splitSlash text).head? = some "" := by
  rw [splitSlash, h, List.splitOn_eq_splitOnP, List.splitOnP_cons_eq_if_modifyHead]
  rfl

/-! ## The agent -/

inductive RouteClass where
  | buildCacheRead
  | buildCacheWrite
  | passthrough
  deriving DecidableEq

structure RoutedKey where
  kind : String
  id : String
  routeClass : RouteClass
  deriving DecidableEq

/-- How a route fails when no owner can be reached. -/
def routeClass (method : Method) (segments : List String) : RouteClass :=
  if segments.head? = some "build-cache" then
    match method with
    | .get | .head => .buildCacheRead
    | .put => .buildCacheWrite
    | .other name => if name = "POST" then .buildCacheWrite else .passthrough
    | _ => .passthrough
  else .passthrough

def classify (method : Method) (path : String) : RoutedKey :=
  let segments := splitSlash (trimSlashes path)
  let keyed (kind id : String) : RoutedKey := ⟨kind, id, routeClass method segments⟩
  match segments with
  | ["artifacts", _, digest] => keyed "artifact" digest
  | ["build-cache", "bazel", "cas", hash] => keyed "artifact" hash
  | ["build-cache", "bazel", "ac", hash] => keyed "bazel-action" hash
  | ["build-cache", "http", key] => keyed "http-cache" key
  | ["references", reference] => keyed "reference" reference
  | "proxy" :: protocol :: first :: rest =>
    ⟨protocol, "/".intercalate (first :: rest), .passthrough⟩
  | _ => ⟨"path", path, .passthrough⟩

/-! ## The shard -/

/-- What the data routes read and write. -/
inductive StoredObject (U : Type) where
  | artifact (id : ArtifactId)
  | reference (name : Bytes)
  | buildKey (key : BuildKey)
  | proxy (protocol : Protocol) (url : U) (variant : String)
  deriving DecidableEq

section

variable {ι U : Type} (server : Http.Server ι) (proxy : ProxyService U)

/-- The object of a fetch, if its target is a URL that the proxy may ask for. -/
def fetched (protocol : Protocol) (target : Except ProxyError U) (variant : String) :
    Option (StoredObject U) :=
  target.toOption.map fun url => .proxy protocol url variant

/-- `fetch_python_simple` of a bare route. -/
def pythonSimpleObject (path : String) (accept : Option String) : Option (StoredObject U) := do
  let transform ← server.services.pythonSimple (routePrefix none) path accept
  fetched .python (proxy.url .python path) transform.cacheVariant

/-- The object that the handler of a route resolves its captures to, for an `Accept` header;
`cargo_config` has none. -/
def objectOf (route : DataRoute) (captures : Http.Server.Captures) (accept : Option String) :
    Option (StoredObject U) := do
  let decoded ← server.decode captures
  match route with
  | .artifact =>
    let algorithm ← decoded.lookup "algorithm"
    let digest ← decoded.lookup "digest"
    (ArtifactId.parse (utf8 algorithm) (utf8 digest)).map .artifact
  | .reference => (Http.Server.parseReference (← decoded.lookup "reference")).map .reference
  | .httpCache => return .buildKey (.http (utf8 (← decoded.lookup "key")))
  | .bazelAc => return .buildKey (.bazelAc (utf8 (← decoded.lookup "hash")))
  | .bazelCas =>
    (ArtifactId.parse (utf8 "sha256") (utf8 (← decoded.lookup "hash"))).map .artifact
  | .go => fetched .go (proxy.url .go (← decoded.lookup "path")) ""
  | .pythonSimpleRoot => pythonSimpleObject server proxy "" accept
  | .pythonSimple => pythonSimpleObject server proxy (← decoded.lookup "path") accept
  | .pythonFile =>
    let encoded ← decoded.lookup "encoded"
    let found := companionSuffixes.findSome? fun suffix =>
      (stripSuffix suffix encoded).map fun encoded => (encoded, suffix)
    let (encoded, suffix) := found.getD (encoded, "")
    fetched .python (proxy.encodedUrl .python encoded suffix) ""
  | .npm =>
    let path ← decoded.lookup "path"
    match stripPrefix "-/tarball/" path with
    | some encoded => fetched .npm (proxy.encodedUrl .npm encoded "") ""
    | none =>
      let transform ← server.services.npmMetadata (routePrefix none) accept
      fetched .npm (proxy.url .npm path) transform.cacheVariant
  | .cargoConfig => none
  | .cargoIndex => fetched .cargoIndex (proxy.url .cargoIndex (← decoded.lookup "path")) ""
  | .cargoCrate =>
    let name ← decoded.lookup "crate"
    let version ← decoded.lookup "version"
    if name.isEmpty || version.isEmpty || name.contains '/' || version.contains '/' then none
    else
      fetched .cargoCrate
        (proxy.url .cargoCrate (name ++ "/" ++ name ++ "-" ++ version ++ ".crate")) ""

/-- The route of a bare path. -/
def routeOf (path : String) : Option (DataRoute × Http.Server.Captures × List String) := do
  let rest ← stripPrefix "/" path
  let (route, captures) ← DataRoute.ofPath (splitSlash rest)
  return (route, captures, splitSlash rest)

def resolve (path : String) (accept : Option String) : Option (StoredObject U) := do
  let (route, captures, _) ← routeOf path
  objectOf server proxy route captures accept

end

/-! ## Kinds -/

/-- The kind of key the agent gives to a route. -/
def routeKind : DataRoute → String
  | .artifact | .bazelCas => "artifact"
  | .reference => "reference"
  | .httpCache => "http-cache"
  | .bazelAc => "bazel-action"
  | .go => "go"
  | .pythonSimpleRoot | .pythonSimple | .pythonFile => "python"
  | .npm => "npm"
  | .cargoConfig | .cargoIndex | .cargoCrate => "cargo"

/-- The text a path names its object with: the last segment, or on the proxy routes
everything behind the ecosystem. -/
def routeText : DataRoute → List String → String
  | .artifact, segments | .reference, segments | .httpCache, segments | .bazelAc, segments
  | .bazelCas, segments => segments.getLastD ""
  | _, segments => "/".intercalate (segments.drop 2)

def spelling (path : String) : Option String :=
  (routeOf path).map fun found => routeText found.1 found.2.2

def objectKind {U : Type} : StoredObject U → String
  | .artifact _ => "artifact"
  | .reference _ => "reference"
  | .buildKey (.http _) => "http-cache"
  | .buildKey (.bazelAc _) => "bazel-action"
  | .proxy .go _ _ => "go"
  | .proxy .python _ _ => "python"
  | .proxy .npm _ _ => "npm"
  | .proxy .cargoIndex _ _ | .proxy .cargoCrate _ _ => "cargo"

section

variable {ι U : Type} {server : Http.Server ι} {proxy : ProxyService U} {route : DataRoute}
  {captures : Http.Server.Captures} {accept : Option String} {object : StoredObject U}
  {segments : List String}

theorem fetched_kind {protocol : Protocol} {target : Except ProxyError U} {variant : String}
    (h : fetched protocol target variant = some object) :
    ∃ url, object = .proxy protocol url variant := by
  obtain ⟨url, -, rfl⟩ := Option.map_eq_some_iff.mp h
  exact ⟨url, rfl⟩

theorem pythonSimpleObject_kind {path : String}
    (h : pythonSimpleObject server proxy path accept = some object) :
    objectKind object = "python" := by
  obtain ⟨transform, -, h⟩ := Option.bind_eq_some_iff.mp h
  obtain ⟨url, rfl⟩ := fetched_kind h
  rfl

/-- A route leads to objects of its kind only. -/
theorem objectOf_kind (h : objectOf server proxy route captures accept = some object) :
    objectKind object = routeKind route := by
  obtain ⟨decoded, -, h⟩ := Option.bind_eq_some_iff.mp h
  cases route with
  | artifact =>
    obtain ⟨algorithm, -, h⟩ := Option.bind_eq_some_iff.mp h
    obtain ⟨digest, -, h⟩ := Option.bind_eq_some_iff.mp h
    obtain ⟨id, -, rfl⟩ := Option.map_eq_some_iff.mp h
    rfl
  | reference =>
    obtain ⟨text, -, h⟩ := Option.bind_eq_some_iff.mp h
    obtain ⟨name, -, rfl⟩ := Option.map_eq_some_iff.mp h
    rfl
  | httpCache =>
    obtain ⟨key, -, h⟩ := Option.bind_eq_some_iff.mp h
    cases h
    rfl
  | bazelAc =>
    obtain ⟨hash, -, h⟩ := Option.bind_eq_some_iff.mp h
    cases h
    rfl
  | bazelCas =>
    obtain ⟨hash, -, h⟩ := Option.bind_eq_some_iff.mp h
    obtain ⟨id, -, rfl⟩ := Option.map_eq_some_iff.mp h
    rfl
  | go =>
    obtain ⟨path, -, h⟩ := Option.bind_eq_some_iff.mp h
    obtain ⟨url, rfl⟩ := fetched_kind h
    rfl
  | pythonSimpleRoot => exact pythonSimpleObject_kind h
  | pythonSimple =>
    obtain ⟨path, -, h⟩ := Option.bind_eq_some_iff.mp h
    exact pythonSimpleObject_kind h
  | pythonFile =>
    obtain ⟨encoded, -, h⟩ := Option.bind_eq_some_iff.mp h
    obtain ⟨url, rfl⟩ := fetched_kind h
    rfl
  | npm =>
    obtain ⟨path, -, h⟩ := Option.bind_eq_some_iff.mp h
    split at h
    · obtain ⟨url, rfl⟩ := fetched_kind h
      rfl
    · obtain ⟨transform, -, h⟩ := Option.bind_eq_some_iff.mp h
      obtain ⟨url, rfl⟩ := fetched_kind h
      rfl
  | cargoConfig => cases h
  | cargoIndex =>
    obtain ⟨path, -, h⟩ := Option.bind_eq_some_iff.mp h
    obtain ⟨url, rfl⟩ := fetched_kind h
    rfl
  | cargoCrate =>
    obtain ⟨name, -, h⟩ := Option.bind_eq_some_iff.mp h
    obtain ⟨version, -, h⟩ := Option.bind_eq_some_iff.mp h
    split at h
    · cases h
    · obtain ⟨url, rfl⟩ := fetched_kind h
      rfl

end

/-! ## What the shard reads -/

/-- What a read of an object on a bare route does, of whichever route it is; a fetch goes by
the URL and is left to the proxy. -/
def readObject {ι U : Type} (server : Http.Server ι) (request : Http.Request) :
    StoredObject U → Option (Handling ι Http.Response)
  | .artifact id =>
    some (server.serveArtifact server.services.permit .default id request.headers
      (request.method = .head))
  | .reference name => some do
    acquireForeground server.services.permit
    match ← call (server.services.resolveReference .default name) with
    | some (some artifact) =>
      return ⟨200, [("content-type", "application/json")], Http.Server.bindingBody artifact⟩
    | some none => return apiError 404 "reference_not_found" "reference does not exist"
    | none => return apiError 500 "internal" "reference lookup failed"
  | .buildKey key => some (server.serveReferenceArtifact request ⟨.default, none, false⟩ key)
  | .proxy _ _ _ => none

/-- The handlers of the shard read the object that a route is resolved to. -/
theorem reader_eq_readObject {ι U : Type} {server : Http.Server ι} {proxy : ProxyService U}
    {route : DataRoute} {captures decoded : Http.Server.Captures} {accept : Option String}
    {object : StoredObject U} {request : Http.Request} {handling : Handling ι Http.Response}
    (hdecoded : server.decode captures = some decoded) (hbare : decoded.lookup "channel" = none)
    (hobject : objectOf server proxy route captures accept = some object)
    (hread : readObject server request object = some handling) :
    server.reader route request captures = handling := by
  have hcontext : server.channelContext request captures = pure ⟨.default, none, false⟩ := by
    simp [Http.Server.channelContext, hdecoded, orReturn, hbare]
  have hpath : ∀ name value, decoded.lookup name = some value →
      server.path request captures name = pure value := by
    intro name value hvalue
    rw [Http.Server.path, hdecoded, Option.bind_some, hvalue]
    rfl
  have hkind := objectOf_kind hobject
  rw [objectOf, hdecoded, Option.bind_eq_bind, Option.bind_some] at hobject
  cases route with
  | artifact =>
    obtain ⟨algorithm, halgorithm, hobject⟩ := Option.bind_eq_some_iff.mp hobject
    obtain ⟨digest, hdigest, hobject⟩ := Option.bind_eq_some_iff.mp hobject
    obtain ⟨id, hid, rfl⟩ := Option.map_eq_some_iff.mp hobject
    cases hread
    show server.getArtifact request captures = _
    rw [Http.Server.getArtifact, hcontext, hpath _ _ halgorithm, hpath _ _ hdigest]
    simp [hid, orReturn]
  | reference =>
    obtain ⟨text, htext, hobject⟩ := Option.bind_eq_some_iff.mp hobject
    obtain ⟨name, hname, rfl⟩ := Option.map_eq_some_iff.mp hobject
    cases hread
    show server.getReference request captures = _
    rw [Http.Server.getReference, hcontext, hpath _ _ htext, pure_bind, pure_bind, hname]
    rfl
  | httpCache =>
    obtain ⟨key, hkey, hobject⟩ := Option.bind_eq_some_iff.mp hobject
    cases hobject
    cases hread
    show server.getHttpCache request captures = _
    rw [Http.Server.getHttpCache, hcontext, hpath _ _ hkey]
    simp
  | bazelAc =>
    obtain ⟨hash, hhash, hobject⟩ := Option.bind_eq_some_iff.mp hobject
    cases hobject
    cases hread
    show server.getBazelAc request captures = _
    rw [Http.Server.getBazelAc, hcontext, hpath _ _ hhash]
    simp
  | bazelCas =>
    obtain ⟨hash, hhash, hobject⟩ := Option.bind_eq_some_iff.mp hobject
    obtain ⟨id, hid, rfl⟩ := Option.map_eq_some_iff.mp hobject
    cases hread
    show server.getBazelCas request captures = _
    rw [Http.Server.getBazelCas, hcontext, hpath _ _ hhash]
    simp [hid, orReturn]
  | _ =>
    -- the other routes are of the proxy, and have no read here
    cases object with
    | proxy _ _ _ => cases hread
    | artifact _ => simp [objectKind, routeKind] at hkind
    | reference _ => simp [objectKind, routeKind] at hkind
    | buildKey key => cases key <;> simp [objectKind, routeKind] at hkind

/-! ## What the agent makes of a route -/

/-- The key of a path by its segments. -/
def segmentKey : List String → Option (String × String)
  | ["artifacts", _, digest] => some ("artifact", digest)
  | ["build-cache", "bazel", "cas", hash] => some ("artifact", hash)
  | ["build-cache", "bazel", "ac", hash] => some ("bazel-action", hash)
  | ["build-cache", "http", key] => some ("http-cache", key)
  | ["references", reference] => some ("reference", reference)
  | "proxy" :: protocol :: first :: rest => some (protocol, "/".intercalate (first :: rest))
  | _ => none

theorem classify_of_segmentKey {method : Method} {path kind id : String}
    (h : segmentKey (splitSlash (trimSlashes path)) = some (kind, id)) :
    (classify method path).kind = kind ∧ (classify method path).id = id := by
  unfold classify
  dsimp only
  unfold segmentKey at h
  split at h <;> cases h <;> exact ⟨rfl, rfl⟩

/-- A wildcard captures something, so there is a segment for it. -/
theorem ne_nil_of_capture {rest : List String}
    (h : ([("path", "/".intercalate rest)] : Http.Server.Captures).all fun c => !c.2.isEmpty) :
    ∃ first others, rest = first :: others := by
  cases rest with
  | nil => exact absurd h (by decide)
  | cons first others => exact ⟨first, others, rfl⟩

theorem segmentKey_of_route {segments : List String} {route : DataRoute}
    {captures : Http.Server.Captures} (h : DataRoute.ofPath segments = some (route, captures)) :
    segmentKey segments = some (routeKind route, routeText route segments) := by
  obtain ⟨hcandidate, hcaptures⟩ := Option.filter_eq_some_iff.mp h
  unfold DataRoute.candidate at hcandidate
  split at hcandidate <;> cases hcandidate
  -- the wildcards of the proxy routes
  case h_6 | h_11 =>
    obtain ⟨first, others, rfl⟩ := ne_nil_of_capture hcaptures
    rfl
  all_goals rfl

theorem segmentKey_empty {segments : List String} (h : segments.head? = some "") :
    segmentKey segments = none := by
  cases segments with
  | nil => cases h
  | cons first rest =>
    cases h
    rfl

/-- A path that the shard has a route for has one slash in front, so the agent and the shard
see the same segments. -/
theorem trimSlashes_of_route {path : String} {route : DataRoute} {captures : Http.Server.Captures}
    {segments : List String} (h : routeOf path = some (route, captures, segments)) :
    splitSlash (trimSlashes path) = segments ∧
      DataRoute.ofPath segments = some (route, captures) := by
  obtain ⟨rest, hrest, h⟩ := Option.bind_eq_some_iff.mp h
  obtain ⟨⟨found, caught⟩, hfound, h⟩ := Option.bind_eq_some_iff.mp h
  cases h
  refine ⟨?_, hfound⟩
  obtain ⟨tail, htail, rfl⟩ := Option.map_eq_some_iff.mp hrest
  have hpath : path.toList = '/' :: tail := eq_append_of_isPrefixOf? htail
  have htrim : trimSlashes path = String.ofList tail := by
    rw [trimSlashes, hpath, List.dropWhile_cons_of_pos (by decide)]
    cases tail with
    | nil => rfl
    | cons c tail =>
      by_cases hc : c = '/'
      · subst hc
        have hhead := splitSlash_slash (String.toList_ofList (l := '/' :: tail))
        cases (segmentKey_empty hhead).symm.trans (segmentKey_of_route hfound)
      · rw [List.dropWhile_cons_of_neg (by simpa using hc)]
  rw [htrim]

theorem classify_of_route {path : String} {route : DataRoute} {captures : Http.Server.Captures}
    {segments : List String} (h : routeOf path = some (route, captures, segments))
    (method : Method) :
    (classify method path).kind = routeKind route ∧
      (classify method path).id = routeText route segments := by
  obtain ⟨hsegments, hroute⟩ := trimSlashes_of_route h
  exact classify_of_segmentKey (by rw [hsegments, segmentKey_of_route hroute])

/-- What a path that leads to an object looks like to the agent. -/
theorem classify_of_resolve {ι U : Type} {server : Http.Server ι} {proxy : ProxyService U}
    {path : String} {accept : Option String} {object : StoredObject U}
    (h : resolve server proxy path accept = some object) (method : Method) :
    (classify method path).kind = objectKind object ∧
      spelling path = some (classify method path).id := by
  obtain ⟨⟨route, captures, segments⟩, hroute, hobject⟩ := Option.bind_eq_some_iff.mp h
  obtain ⟨hkind, hid⟩ := classify_of_route hroute method
  refine ⟨hkind.trans (objectOf_kind hobject).symm, ?_⟩
  rw [spelling, hroute, hid]
  rfl

end Flywheel.Agent
