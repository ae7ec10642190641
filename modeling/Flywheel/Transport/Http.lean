import Flywheel.Proxy.Fetch
import Flywheel.Proxy.Links
import Flywheel.Transport.BuildCache

/-!
# Requests under `/channels/{id}` (`transport/http`)

The router, the extractors and the handlers, up to the calls into the cache, the proxy and
the channel service. Most data handlers take a `ChannelContext`, whose extractor authorizes
the request before the rest of the handler runs. `put_reference` holds that rejection back
until its body has parsed. The management handlers authorize by themselves, `patch_channel`
after it has looked at its payload.

What the handlers call is a parameter (`Services`): any functions of their arguments and of
the state of the shard, which may also do what others do to the shard meanwhile. So are the
libraries (`HttpLib`), which see the request only.

- `Handling`: a request being handled; an early return is an error that carries the response.
- `Denied`: with a given record, the program stops with a response that is the same in all
  states, and leaves the state as it was.
-/

set_option autoImplicit false

namespace Flywheel

open Lib

def Access.isProtected : Access → Bool
  | .open => false
  | .token _ => true

namespace Http

/-! ## Messages -/

inductive Method where
  | get
  | head
  | put
  | patch
  | delete
  | other (name : String)
  deriving DecidableEq

/-- Names in lower case; a value is any string of bytes. -/
abbrev Headers := List (String × Bytes)

structure Request where
  method : Method
  /-- The segments of the path, as they were sent. -/
  path : List String
  headers : Headers
  /-- The chunks of the body. -/
  body : List Bytes

structure Response where
  status : Nat
  headers : List (String × String)
  body : Bytes
  deriving DecidableEq

def utf8 (text : String) : Bytes := text.toUTF8.toList

def statusOnly (status : Nat) : Response := ⟨status, [], []⟩

def json (status : Nat) (body : String) : Response :=
  ⟨status, [("content-type", "application/json")], utf8 body⟩

def apiError (status : Nat) (code message : String) : Response :=
  json status ("\x7b\"code\":\"" ++ code ++ "\",\"message\":\"" ++ message ++ "\"\x7d")

def busyResponse : Response := ⟨429, [("retry-after", "1")], []⟩

/-- A route exists, but not for this method. -/
def methodNotAllowed (allow : String) : Response := ⟨405, [("allow", allow)], []⟩

/-- `HeaderMap::get` and `HeaderValue::to_str`: the first value of a name, if it is visible
ASCII. -/
def headerText (headers : Headers) (name : String) : Option String :=
  (headers.lookup name).bind fun value =>
    if value.all fun b => (32 ≤ b && b < 127) || b == 9 then
      some (String.ofList (value.map fun b => Char.ofNat b.toNat))
    else none

/-- `str::parse::<u64>`. -/
def parseU64 (text : String) : Option UInt64 :=
  let digits := (stripPrefix "+" text).getD text
  if digits.isEmpty || !digits.all Char.isDigit then none
  else
    let n := ofDigits 10 (digits.toList.map fun c => c.toNat - 48)
    if n < 2 ^ 64 then some (UInt64.ofNat n) else none

def contentType (headers : Headers) : Option String := headerText headers "content-type"

def contentLength (headers : Headers) : Option UInt64 :=
  (headerText headers "content-length").bind parseU64

/-! ## What the server is made of -/

/-- The body of `put_reference`. -/
structure ArtifactBinding where
  algorithm : String
  digest : String

/-- The libraries. -/
structure HttpLib where
  sha256 : Bytes → Digest
  /-- Percent-decoding of a capture, if the result is UTF-8. -/
  percentDecode : String → Option String
  /-- `STANDARD.decode`. -/
  base64Decode : String → Option ByteArray
  /-- The `Json` extractor of `put_reference`, or what it answers instead. -/
  jsonBinding : Request → Except Response ArtifactBinding
  /-- The `expiry_seconds` of a payload that `patch_channel` accepts. -/
  jsonPatch : Request → Option (Option UInt64)
  /-- What the `Path` extractor answers to captures that are not UTF-8. -/
  pathRejection : Request → Response

/-- A service: it returns a value and leaves the shard in a new state. -/
abbrev Service (ι α : Type) := Shared ι → α × Shared ι

/-- What the handlers call once they have authorized the request, and what they meet. -/
structure Services (ι : Type) where
  /-- The record of the channel cannot be read, at first or under the gate. -/
  storeFails : Bool
  recheckFails : Bool
  /-- Whether there is a slot of the foreground budget, and later a second one. -/
  permit : Bool
  permitAgain : Bool
  /-- Make the gate of a channel and wait for its shared side. -/
  awaitGate : ChannelId → Shared ι → Shared ι
  publish : PublishRequest → Option UInt64 → Service ι (Except UploadError Bool)
  /-- `serve_artifact` behind its permit. -/
  serveArtifact : ChannelId → ArtifactId → Headers → Bool → Service ι Response
  /-- `none` is a failed lookup. -/
  resolveReference : ChannelId → Bytes → Service ι (Option (Option ArtifactId))
  bindReference : ChannelId → Bytes → ArtifactId → Service ι (Except UploadError Unit)
  deleteReference : ChannelId → Bytes → Service ι (Except UploadError Unit)
  /-- `Transform::python_simple` and `Transform::npm_metadata`: what the `Accept` header
  asks for, if the proxy has it. -/
  pythonSimple : String → String → Option String → Option Transform
  npmMetadata : String → Option String → Option Transform
  fetch : ChannelId → Protocol → String → Transform → Service ι (Except ProxyError ProxyOutcome)
  fetchEncodedUrl : ChannelId → Protocol → String → String →
    Service ι (Except ProxyError ProxyOutcome)
  /-- Store a record; whether it succeeded. -/
  storeChannel : ChannelRecord → Service ι Bool
  /-- `finish_deletion` behind the exclusive side of the gate. -/
  finishDeletion : ChannelId → Service ι Bool

structure Server (ι : Type) extends HttpLib where
  services : Services ι

/-- A request being handled. An early return is an error that carries the response. -/
abbrev Handling (ι : Type) : Type → Type := EStateM Response (Shared ι)

section Handling

variable {ι α : Type}

def call (service : Service ι α) : Handling ι α := fun s => .ok (service s).1 (service s).2

/-- The value, or an early return. -/
def orReturn (value : Option α) (response : Response) : Handling ι α :=
  match value with
  | some a => pure a
  | none => throw response

/-- An extractor whose rejection the handler takes as a value. -/
def attempt (m : Handling ι α) : Handling ι (Except Response α) := fun s =>
  match m s with
  | .ok a t => .ok (.ok a) t
  | .error response t => .ok (.error response) t

/-- `acquire_foreground`. -/
def acquireForeground (available : Bool) : Handling ι Unit :=
  if available then pure () else throw busyResponse

end Handling

/-! ## Authorization -/

/-- The cases of `ChannelError` that the routes tell apart. -/
inductive ChannelError where
  | notFound
  | unauthorized
  | deleting
  | defaultChannel
  | store
  deriving DecidableEq

def channelFailure : ChannelError → Response
  | .notFound | .deleting => apiError 404 "channel_not_found" "channel does not exist"
  | .unauthorized =>
    let response := apiError 401 "unauthorized" "channel credentials are required"
    { response with
      headers := response.headers ++ [("www-authenticate", "Bearer realm=\"flywheel\"")] }
  | .defaultChannel => apiError 409 "default_channel" "the default channel cannot be deleted"
  | .store => apiError 500 "internal" "channel operation failed"

def invalidChannel : Response := apiError 400 "invalid_channel" "channel identifier is invalid"

namespace Server

variable {ι : Type} (server : Server ι)

/-- `credential`: a bearer token, the password of basic credentials, or the token itself. -/
def credential (headers : Headers) : Option String :=
  (headerText headers "authorization").bind fun authorization =>
    match stripPrefix "Bearer " authorization with
    | some token => some token
    | none =>
      match stripPrefix "Basic " authorization with
      | some encoded =>
        (server.base64Decode encoded).bind fun decoded =>
          (String.fromUTF8? decoded).bind fun text => (cut ':' text).2
      | none => (stripPrefix "flywheel_" authorization).map fun _ => authorization

/-- `ChannelService::authorize`; `fails` says that the store cannot read the record. -/
def authorize (fails : Bool) (c : ChannelId) (credential : Option String) :
    Handling ι ChannelRecord := fun s =>
  if fails then .error (channelFailure .store) s
  else
    match s.channel c with
    | none => .error (channelFailure .notFound) s
    | some record =>
      if ¬ authorizeRecord server.sha256 record (credential.map utf8) then
        .error (channelFailure .unauthorized) s
      else if record.state ≠ .active then .error (channelFailure .deleting) s
      else .ok record s

/-- `ChannelService::authorize_with_lease`. -/
def authorizeWithLease (c : ChannelId) (credential : Option String) :
    Handling ι ChannelRecord := do
  let _ ← server.authorize server.services.storeFails c credential
  modify (server.services.awaitGate c)
  server.authorize server.services.recheckFails c credential

def authorizeChannel (channel : String) (headers : Headers) : Handling ι ChannelRecord := do
  let c ← orReturn (ChannelId.parse channel) invalidChannel
  server.authorize server.services.storeFails c (server.credential headers)

def channelLease (channel : String) (headers : Headers) : Handling ι ChannelRecord := do
  let c ← orReturn (ChannelId.parse channel) invalidChannel
  server.authorizeWithLease c (server.credential headers)

/-! ## Extractors -/

/-- The captures of a route by name, as they were sent. -/
abbrev Captures := List (String × String)

/-- `Path` decodes all captures of the request, whichever of them it is asked for. -/
def decode (captures : Captures) : Option Captures :=
  captures.mapM fun p => (server.percentDecode p.2).map (Prod.mk p.1)

/-- A field of the `Path` extractor of a handler. -/
def path (request : Request) (captures : Captures) (name : String) : Handling ι String :=
  orReturn ((server.decode captures).bind (List.lookup name)) (server.pathRejection request)

structure ChannelContext where
  channel : ChannelId
  scope : Option ChannelId
  accessControl : Bool


/-- The extractor of `ChannelContext`: the bare routes resolve to the default channel. -/
def channelContext (request : Request) (captures : Captures) : Handling ι ChannelContext := do
  let decoded ← orReturn (server.decode captures) invalidChannel
  match decoded.lookup "channel" with
  | none => return ⟨.default, none, false⟩
  | some channel =>
    let record ← server.authorizeChannel channel request.headers
    return ⟨record.id, some record.id, record.access.isProtected⟩

/-! ## Artifacts -/

/-- `cache_write_failure`; only the lack of space comes with a retry hint. -/
def writeFailure (error : UploadError) : Response :=
  match error with
  | .outOfSpace => ⟨507, [("retry-after", "1")], []⟩
  | error => statusOnly (cacheWriteFailure error)

def writeFailureWithBypass (error : UploadError) : Response :=
  statusOnly (cacheWriteFailureWithBypass error).status

def publishById (request : Request) (context : ChannelContext) (artifact : ArtifactId)
    (created : Response) (existing : Response) : Handling ι Response := do
  acquireForeground server.services.permit
  let outcome ← call (server.services.publish
    { channel := context.channel
      target := .byId artifact
      contentType := contentType request.headers
      stream := request.body
      durability := .durable
      encoding := .identity } (contentLength request.headers))
  match outcome with
  | .ok true => return created
  | .ok false => return existing
  | .error error => return writeFailure error

def serveArtifact (permit : Bool) (c : ChannelId) (artifact : ArtifactId) (headers : Headers)
    (head : Bool) : Handling ι Response := do
  acquireForeground permit
  call (server.services.serveArtifact c artifact headers head)

def putArtifact (request : Request) (captures : Captures) : Handling ι Response := do
  let context ← server.channelContext request captures
  let algorithm ← server.path request captures "algorithm"
  let digest ← server.path request captures "digest"
  let artifact ← orReturn (ArtifactId.parse (utf8 algorithm) (utf8 digest)) (statusOnly 400)
  server.publishById request context artifact (statusOnly 201) (statusOnly 204)

def getArtifact (request : Request) (captures : Captures) : Handling ι Response := do
  let context ← server.channelContext request captures
  let algorithm ← server.path request captures "algorithm"
  let digest ← server.path request captures "digest"
  let artifact ← orReturn (ArtifactId.parse (utf8 algorithm) (utf8 digest)) (statusOnly 400)
  server.serveArtifact server.services.permit context.channel artifact request.headers
    (request.method = .head)

/-! ## References -/

def invalidReference : Response := apiError 400 "invalid_reference" "reference is not URL-safe"

/-- `Reference::parse`. -/
def parseReference (text : String) : Option Bytes :=
  if Reference.isValid (utf8 text) then some (utf8 text) else none

/-- The answer to a change of a reference. -/
def referenceResponse (message : String) : Except UploadError Unit → Response
  | .ok () => statusOnly 204
  | .error .channelDeleting | .error .missingChannel =>
    apiError 404 "channel_not_found" "channel does not exist"
  | .error _ => apiError 500 "internal" message

/-- The rejection of the channel waits until the other extractors have succeeded. -/
def putReference (request : Request) (captures : Captures) : Handling ι Response := do
  let context ← attempt (server.channelContext request captures)
  let text ← server.path request captures "reference"
  let binding ← MonadExcept.ofExcept (server.jsonBinding request)
  let context ← MonadExcept.ofExcept context
  let reference ← orReturn (parseReference text) invalidReference
  let artifact ← orReturn (ArtifactId.parse (utf8 binding.algorithm) (utf8 binding.digest))
    (apiError 400 "invalid_artifact" "artifact identity is invalid")
  acquireForeground server.services.permit
  let outcome ← call (server.services.bindReference context.channel reference artifact)
  return referenceResponse "reference update failed" outcome

/-- The body that `get_reference` answers with. -/
def bindingBody (artifact : ArtifactId) : Bytes :=
  utf8 "\x7b\"algorithm\":\"sha256\",\"digest\":\"" ++ hexEncode artifact.digest.bytes ++
    utf8 "\"\x7d"

def getReference (request : Request) (captures : Captures) : Handling ι Response := do
  let context ← server.channelContext request captures
  let text ← server.path request captures "reference"
  let reference ← orReturn (parseReference text) invalidReference
  acquireForeground server.services.permit
  match ← call (server.services.resolveReference context.channel reference) with
  | some (some artifact) =>
    return ⟨200, [("content-type", "application/json")], bindingBody artifact⟩
  | some none => return apiError 404 "reference_not_found" "reference does not exist"
  | none => return apiError 500 "internal" "reference lookup failed"

def deleteReference (request : Request) (captures : Captures) : Handling ι Response := do
  let context ← server.channelContext request captures
  let text ← server.path request captures "reference"
  let reference ← orReturn (parseReference text) invalidReference
  acquireForeground server.services.permit
  let outcome ← call (server.services.deleteReference context.channel reference)
  return referenceResponse "reference deletion failed" outcome

/-! ## Build caches -/

/-- The part that `put_http_cache` and `put_bazel_ac` share. -/
def putBuildKey (request : Request) (context : ChannelContext) (key : BuildKey) :
    Handling ι Response := do
  if !key.isValid then throw (statusOnly 400)
  acquireForeground server.services.permit
  let outcome ← call (server.services.publish
    (key.putRequest context.channel (contentType request.headers) request.body)
    (contentLength request.headers))
  match outcome with
  | .ok _ => return statusOnly 200
  | .error error => return writeFailureWithBypass error

/-- `serve_reference_artifact`: the first permit is given back before the second is taken. -/
def serveReferenceArtifact (request : Request) (context : ChannelContext) (key : BuildKey) :
    Handling ι Response := do
  acquireForeground server.services.permit
  match ← call (server.services.resolveReference context.channel key.reference) with
  | some (some artifact) =>
    server.serveArtifact server.services.permitAgain context.channel artifact request.headers
      (request.method = .head)
  | some none => return statusOnly 404
  | none => return statusOnly 500

def putHttpCache (request : Request) (captures : Captures) : Handling ι Response := do
  let context ← server.channelContext request captures
  let key ← server.path request captures "key"
  server.putBuildKey request context (.http (utf8 key))

def getHttpCache (request : Request) (captures : Captures) : Handling ι Response := do
  let context ← server.channelContext request captures
  let key ← server.path request captures "key"
  server.serveReferenceArtifact request context (.http (utf8 key))

def putBazelAc (request : Request) (captures : Captures) : Handling ι Response := do
  let context ← server.channelContext request captures
  let hash ← server.path request captures "hash"
  server.putBuildKey request context (.bazelAc (utf8 hash))

def getBazelAc (request : Request) (captures : Captures) : Handling ι Response := do
  let context ← server.channelContext request captures
  let hash ← server.path request captures "hash"
  server.serveReferenceArtifact request context (.bazelAc (utf8 hash))

def putBazelCas (request : Request) (captures : Captures) : Handling ι Response := do
  let context ← server.channelContext request captures
  let hash ← server.path request captures "hash"
  let artifact ← orReturn (ArtifactId.parse (utf8 "sha256") (utf8 hash)) (statusOnly 400)
  server.publishById request context artifact (statusOnly 200) (statusOnly 200)

def getBazelCas (request : Request) (captures : Captures) : Handling ι Response := do
  let context ← server.channelContext request captures
  let hash ← server.path request captures "hash"
  let artifact ← orReturn (ArtifactId.parse (utf8 "sha256") (utf8 hash)) (statusOnly 400)
  server.serveArtifact server.services.permit context.channel artifact request.headers
    (request.method = .head)

/-! ## Packages (`packages.rs`) -/

def proxyFailure : ProxyError → Response
  | .busy => busyResponse
  | .disallowedOrigin => statusOnly 403
  | .invalidEncodedUrl | .url _ | .malformed _ => statusOnly 502
  | .http _ | .unavailable _ | .cache _ => statusOnly 502

def contentTypeHeader (contentType : Option String) : List (String × String) :=
  (contentType.map (Prod.mk "content-type")).toList

def outcomeResponse (c : ChannelId) : ProxyOutcome → Handling ι Response
  | .artifact artifact => server.serveArtifact server.services.permit c artifact [] false
  | .cachedMetadata body contentType =>
    return ⟨200, ("content-length", toString body.length) :: contentTypeHeader contentType, body⟩
  | .upstream status body contentType | .upstreamStream status body contentType =>
    return ⟨status, contentTypeHeader contentType, body⟩

/-- `fetch` and `fetch_encoded` of `packages.rs`. -/
def respond (c : ChannelId) (service : Service ι (Except ProxyError ProxyOutcome)) :
    Handling ι Response := do
  match ← call service with
  | .ok outcome => server.outcomeResponse c outcome
  | .error error => return proxyFailure error

def go (request : Request) (captures : Captures) : Handling ι Response := do
  let context ← server.channelContext request captures
  let path ← server.path request captures "path"
  server.respond context.channel (server.services.fetch context.channel .go path .none)

def fetchPythonSimple (request : Request) (context : ChannelContext) (path : String) :
    Handling ι Response := do
  let accept := headerText request.headers "accept"
  let transform ← orReturn
    (server.services.pythonSimple (routePrefix context.scope) path accept) (statusOnly 406)
  server.respond context.channel (server.services.fetch context.channel .python path transform)

def pythonSimple (request : Request) (captures : Captures) : Handling ι Response := do
  let context ← server.channelContext request captures
  let path ← server.path request captures "path"
  server.fetchPythonSimple request context path

def pythonSimpleRoot (request : Request) (captures : Captures) : Handling ι Response := do
  let context ← server.channelContext request captures
  server.fetchPythonSimple request context ""

def pythonFile (request : Request) (captures : Captures) : Handling ι Response := do
  let context ← server.channelContext request captures
  let encoded ← server.path request captures "encoded"
  let found := companionSuffixes.findSome? fun suffix =>
    (stripSuffix suffix encoded).map fun encoded => (encoded, suffix)
  let (encoded, suffix) := found.getD (encoded, "")
  server.respond context.channel
    (server.services.fetchEncodedUrl context.channel .python encoded suffix)

def npm (request : Request) (captures : Captures) : Handling ι Response := do
  let context ← server.channelContext request captures
  let path ← server.path request captures "path"
  match stripPrefix "-/tarball/" path with
  | some encoded =>
    server.respond context.channel (server.services.fetchEncodedUrl context.channel .npm encoded "")
  | none =>
    let accept := headerText request.headers "accept"
    let transform ← orReturn
      (server.services.npmMetadata (routePrefix context.scope) accept) (statusOnly 406)
    server.respond context.channel (server.services.fetch context.channel .npm path transform)

def cargoIndex (request : Request) (captures : Captures) : Handling ι Response := do
  let context ← server.channelContext request captures
  let path ← server.path request captures "path"
  server.respond context.channel (server.services.fetch context.channel .cargoIndex path .none)

def cargoConfig (request : Request) (captures : Captures) : Handling ι Response := do
  let context ← server.channelContext request captures
  return json 200 ("\x7b\"api\":null,\"auth-required\":" ++ toString context.accessControl ++
    ",\"dl\":\"" ++ routePrefix context.scope ++ "/proxy/cargo/crates\"\x7d")

def cargoCrate (request : Request) (captures : Captures) : Handling ι Response := do
  let context ← server.channelContext request captures
  let name ← server.path request captures "crate"
  let version ← server.path request captures "version"
  if name.isEmpty || version.isEmpty || name.contains '/' || version.contains '/' then
    throw (statusOnly 400)
  server.respond context.channel (server.services.fetch context.channel .cargoCrate
    (name ++ "/" ++ name ++ "-" ++ version ++ ".crate") .none)

/-! ## Management -/

def lifecycleText : Lifecycle → String
  | .active => "active"
  | .deleting => "deleting"

/-- `ChannelView` of a record, without a token. -/
def channelView (record : ChannelRecord) : Response :=
  json 200 ("\x7b\"channel\":\"" ++ record.id.text ++
    "\",\"access_control\":" ++ toString record.access.isProtected ++
    ",\"expiry_seconds\":" ++ toString record.expirySeconds.toNat ++
    ",\"state\":\"" ++ lifecycleText record.state ++ "\"\x7d")

def getChannel (request : Request) (captures : Captures) : Handling ι Response := do
  let channel ← server.path request captures "channel"
  let record ← server.authorizeChannel channel request.headers
  return channelView record

def patchChannel (request : Request) (captures : Captures) : Handling ι Response := do
  let channel ← server.path request captures "channel"
  let patch ← orReturn (server.jsonPatch request)
    (apiError 400 "invalid_patch" "only expiry_seconds may be changed")
  let record ← server.channelLease channel request.headers
  let record := { record with expirySeconds := patch.getD record.expirySeconds }
  if record.expirySeconds = 0 then throw (apiError 400 "invalid_policy" "expiry must be positive")
  if ← call (server.services.storeChannel record) then return channelView record
  else return channelFailure .store

/-- `delete_channel` with `ChannelService::delete`. -/
def deleteChannel (request : Request) (captures : Captures) : Handling ι Response := do
  let channel ← server.path request captures "channel"
  let c ← orReturn (ChannelId.parse channel) invalidChannel
  if c = .default then throw (channelFailure .defaultChannel)
  let record ← server.authorizeWithLease c (server.credential request.headers)
  if !(← call (server.services.storeChannel { record with state := .deleting })) then
    throw (channelFailure .store)
  if ← call (server.services.finishDeletion c) then return statusOnly 202
  else return channelFailure .store

end Server

/-! ## Routes -/

/-- The routes of `data_router`. -/
inductive DataRoute where
  | artifact
  | reference
  | httpCache
  | bazelAc
  | bazelCas
  | go
  | pythonSimpleRoot
  | pythonSimple
  | pythonFile
  | npm
  | cargoConfig
  | cargoIndex
  | cargoCrate
  deriving DecidableEq

namespace DataRoute

def candidate : List String → Option (DataRoute × Server.Captures)
  | ["artifacts", algorithm, digest] =>
    some (.artifact, [("algorithm", algorithm), ("digest", digest)])
  | ["references", name] => some (.reference, [("reference", name)])
  | ["build-cache", "http", key] => some (.httpCache, [("key", key)])
  | ["build-cache", "bazel", "ac", hash] => some (.bazelAc, [("hash", hash)])
  | ["build-cache", "bazel", "cas", hash] => some (.bazelCas, [("hash", hash)])
  | "proxy" :: "go" :: rest => some (.go, [("path", "/".intercalate rest)])
  | ["proxy", "python", "simple"] | ["proxy", "python", "simple", ""] =>
    some (.pythonSimpleRoot, [])
  | "proxy" :: "python" :: "simple" :: rest =>
    some (.pythonSimple, [("path", "/".intercalate rest)])
  | ["proxy", "python", "files", encoded] => some (.pythonFile, [("encoded", encoded)])
  | "proxy" :: "npm" :: rest => some (.npm, [("path", "/".intercalate rest)])
  | ["proxy", "cargo", "index", "config.json"] => some (.cargoConfig, [])
  | "proxy" :: "cargo" :: "index" :: rest =>
    some (.cargoIndex, [("path", "/".intercalate rest)])
  | ["proxy", "cargo", "crates", crate, version, "download"] =>
    some (.cargoCrate, [("crate", crate), ("version", version)])
  | _ => none

/-- The route of a path. Neither a capture nor a wildcard matches the empty string. -/
def ofPath (path : List String) : Option (DataRoute × Server.Captures) :=
  (candidate path).filter fun found => found.2.all fun capture => !capture.2.isEmpty

def allow : DataRoute → String
  | .artifact | .httpCache | .bazelAc | .bazelCas => "GET,HEAD,PUT"
  | .reference => "GET,HEAD,PUT,DELETE"
  | _ => "GET,HEAD"

end DataRoute

namespace Server

variable {ι : Type} (server : Server ι)

abbrev Handler (ι : Type) := Request → Captures → Handling ι Response

/-- The handler of a GET; it also answers HEAD. -/
def reader : DataRoute → Handler ι
  | .artifact => server.getArtifact
  | .reference => server.getReference
  | .httpCache => server.getHttpCache
  | .bazelAc => server.getBazelAc
  | .bazelCas => server.getBazelCas
  | .go => server.go
  | .pythonSimpleRoot => server.pythonSimpleRoot
  | .pythonSimple => server.pythonSimple
  | .pythonFile => server.pythonFile
  | .npm => server.npm
  | .cargoConfig => server.cargoConfig
  | .cargoIndex => server.cargoIndex
  | .cargoCrate => server.cargoCrate

def dataHandler : DataRoute → Method → Option (Handler ι)
  | route, .get | route, .head => some (server.reader route)
  | .artifact, .put => some server.putArtifact
  | .reference, .put => some server.putReference
  | .reference, .delete => some server.deleteReference
  | .httpCache, .put => some server.putHttpCache
  | .bazelAc, .put => some server.putBazelAc
  | .bazelCas, .put => some server.putBazelCas
  | _, _ => none

def channelHandler : Method → Option (Handler ι)
  | .get | .head => some server.getChannel
  | .patch => some server.patchChannel
  | .delete => some server.deleteChannel
  | _ => none

/-- `data_router` behind a prefix with the captures `outer`. -/
def dataRouter (request : Request) (outer : Captures) (path : List String) :
    Handling ι Response :=
  match DataRoute.ofPath path with
  | none => throw (statusOnly 404)
  | some (route, captures) =>
    match server.dataHandler route request.method with
    | none => throw (methodNotAllowed route.allow)
    | some handler => handler request (outer ++ captures)

/-- `router`, without registration, health and metrics. -/
def router (request : Request) : Handling ι Response :=
  match request.path with
  | ["channels", channel] =>
    if channel.isEmpty then throw (statusOnly 404)
    else
      match server.channelHandler request.method with
      | none => throw (methodNotAllowed "GET,HEAD,PATCH,DELETE")
      | some handler => handler request [("channel", channel)]
  | "channels" :: channel :: rest =>
    if channel.isEmpty then throw (statusOnly 404)
    else server.dataRouter request [("channel", channel)] rest
  | rest => server.dataRouter request [] rest

/-- The response to a request and what becomes of the shard; HEAD sends no body. -/
def serve (request : Request) (s : Shared ι) : Response × Shared ι :=
  let answer (response : Response) : Response :=
    if request.method = .head then { response with body := [] } else response
  match server.router request s with
  | .ok response t => (answer response, t)
  | .error response t => (answer response, t)

/-! ## What a request without the token can do -/

section Denied

variable {α β : Type} {c : ChannelId} {record : ChannelRecord}

/-- While the channel has this record, the program stops with one and the same response and
changes nothing. -/
def Denied (c : ChannelId) (record : ChannelRecord) (m : Handling ι α) : Prop :=
  ∃ response, ∀ s : Shared ι, s.channel c = some record → m s = .error response s

theorem denied_throw (response : Response) :
    Denied c record (throw response : Handling ι α) :=
  ⟨response, fun _ _ => rfl⟩

theorem Denied.bind {m : Handling ι α} (h : Denied c record m) (f : α → Handling ι β) :
    Denied c record (m >>= f) := by
  obtain ⟨response, hm⟩ := h
  exact ⟨response, fun s hs => bind_error (hm s hs)⟩

theorem denied_orReturn {value : Option α} {response : Response} {f : α → Handling ι β}
    (h : ∀ a, value = some a → Denied c record (f a)) :
    Denied c record (orReturn value response >>= f) := by
  cases value with
  | none => exact (denied_throw response).bind f
  | some a => exact h a rfl

theorem denied_ofExcept {x : Except Response α} {f : α → Handling ι β}
    (h : ∀ a, x = .ok a → Denied c record (f a)) :
    Denied c record (MonadExcept.ofExcept x >>= f) := by
  cases x with
  | error response => exact (denied_throw response).bind f
  | ok a => exact h a rfl

/-- A rejection that is held back still denies the rest, if the rest gives it in the end. -/
theorem Denied.attempt_bind {m : Handling ι α} (h : Denied c record m)
    {f : Except Response α → Handling ι β}
    (hf : ∀ response, Denied c record (f (.error response))) :
    Denied c record (attempt m >>= f) := by
  obtain ⟨response, hm⟩ := h
  obtain ⟨response', hrest⟩ := hf response
  refine ⟨response', fun s hs => ?_⟩
  have hattempt : attempt m s = .ok (.error response) s := by
    simp only [attempt, hm s hs]
  rw [bind_ok hattempt]
  exact hrest s hs

end Denied

section Unauthorized

variable {server}
variable {c : ChannelId} {record : ChannelRecord} {digest : Digest} {request : Request}

/-- The credential of the request is not the token of the channel. -/
def Unauthorized (server : Server ι) (record : ChannelRecord) (headers : Headers) : Prop :=
  authorizeRecord server.sha256 record ((server.credential headers).map utf8) = false

theorem unauthorized_of_token (haccess : record.access = .token digest)
    (hcredential : ∀ candidate, server.credential request.headers = some candidate →
      server.sha256 (utf8 candidate) ≠ digest) :
    Unauthorized server record request.headers := by
  rw [Unauthorized, authorizeRecord, haccess]
  cases hcand : server.credential request.headers with
  | none => rfl
  | some candidate => exact beq_eq_false_iff_ne.mpr (hcredential candidate hcand).symm

theorem authorize_denied {credential : Option String}
    (h : authorizeRecord server.sha256 record (credential.map utf8) = false) (fails : Bool) :
    Denied c record (server.authorize fails c credential) := by
  cases fails with
  | true => exact ⟨_, fun s _ => rfl⟩
  | false =>
    refine ⟨channelFailure .unauthorized, fun s hs => ?_⟩
    simp [authorize, hs, h]

/-- The routes authorize as the operations of the shard do. -/
theorem authorize_eq_ok {E : Env ι} (hsha : server.sha256 = E.sha256) {credential : Option String}
    {s t : Shared ι} :
    server.authorize false c credential s = .ok record t ↔
      t = s ∧ Flywheel.authorize E s c (credential.map utf8) = some record := by
  rw [Flywheel.authorize, ← hsha]
  cases hs : s.channel c with
  | none => simp [authorize, hs]
  | some found =>
    cases hauth : authorizeRecord server.sha256 found (credential.map utf8) with
    | false => simp [authorize, hs, hauth, Option.filter]
    | true =>
      cases hstate : found.state with
      | active => simp [authorize, hs, hauth, hstate, Option.filter, and_comm, eq_comm]
      | deleting => simp [authorize, hs, hauth, hstate, Option.filter]

variable {channel : String} (hparse : ChannelId.parse channel = some c)
  (hdenied : Unauthorized server record request.headers)

include hparse hdenied

theorem authorizeChannel_denied :
    Denied c record (server.authorizeChannel channel request.headers) := by
  refine denied_orReturn fun c' hc' => ?_
  obtain rfl : c = c' := Option.some.inj (hparse.symm.trans hc')
  exact authorize_denied hdenied _

theorem channelLease_denied : Denied c record (server.channelLease channel request.headers) := by
  refine denied_orReturn fun c' hc' => ?_
  obtain rfl : c = c' := Option.some.inj (hparse.symm.trans hc')
  exact (authorize_denied hdenied _).bind _

variable {raw : String} (hraw : server.percentDecode raw = some channel) (captures : Captures)

omit hparse hdenied in
include hraw in
/-- Whatever else is captured, the first capture is the channel. -/
theorem decode_channel {decoded : Captures}
    (h : server.decode (("channel", raw) :: captures) = some decoded) :
    decoded.lookup "channel" = some channel := by
  rw [decode, List.mapM_cons, hraw] at h
  simp only [Option.map_some, Option.bind_eq_bind, Option.bind_some] at h
  obtain ⟨rest, -, hrest⟩ := Option.bind_eq_some_iff.mp h
  cases hrest
  rfl

include hraw

theorem channelContext_denied :
    Denied c record (server.channelContext request (("channel", raw) :: captures)) := by
  refine denied_orReturn fun decoded hdecoded => ?_
  rw [decode_channel hraw captures hdecoded]
  exact (authorizeChannel_denied hparse hdenied).bind _

theorem putReference_denied :
    Denied c record (server.putReference request (("channel", raw) :: captures)) := by
  refine Denied.attempt_bind (channelContext_denied hparse hdenied hraw captures) fun response => ?_
  refine denied_orReturn fun text _ => ?_
  refine denied_ofExcept fun binding _ => ?_
  exact (denied_throw response).bind _

/-- All data handlers authorize the channel before they answer. -/
theorem dataHandler_denied {route : DataRoute} {handler : Handler ι}
    (h : server.dataHandler route request.method = some handler) :
    Denied c record (handler request (("channel", raw) :: captures)) := by
  have hcontext := channelContext_denied hparse hdenied hraw captures
  have hreader : Denied c record (server.reader route request (("channel", raw) :: captures)) := by
    cases route <;> exact hcontext.bind _
  unfold dataHandler at h
  split at h
  · exact Option.some.inj h ▸ hreader
  · exact Option.some.inj h ▸ hreader
  -- the uploads and `delete_reference` start with the context as well
  case h_4 => exact Option.some.inj h ▸ putReference_denied hparse hdenied hraw captures
  case h_9 => cases h
  all_goals exact Option.some.inj h ▸ hcontext.bind _

omit hparse hdenied in
/-- The management handlers see the channel as their only capture. -/
theorem denied_channel {α : Type} {f : String → Handling ι α} (h : Denied c record (f channel)) :
    Denied c record (server.path request [("channel", raw)] "channel" >>= f) := by
  refine denied_orReturn fun channel' hchannel' => ?_
  obtain ⟨decoded, hdecoded, hlookup⟩ := Option.bind_eq_some_iff.mp hchannel'
  rw [decode_channel hraw [] hdecoded] at hlookup
  cases hlookup
  exact h

theorem patchChannel_denied : Denied c record (server.patchChannel request [("channel", raw)]) := by
  refine denied_channel hraw ?_
  refine denied_orReturn fun patch _ => ?_
  exact (channelLease_denied hparse hdenied).bind _

theorem deleteChannel_denied :
    Denied c record (server.deleteChannel request [("channel", raw)]) := by
  refine denied_channel hraw ?_
  refine denied_orReturn fun c' hc' => ?_
  obtain rfl : c = c' := Option.some.inj (hparse.symm.trans hc')
  by_cases hdefault : c = .default
  · rw [if_pos hdefault]
    exact (denied_throw _).bind _
  · rw [if_neg hdefault]
    have hlease :
        Denied c record (server.authorizeWithLease c (server.credential request.headers)) :=
      (authorize_denied hdenied _).bind _
    exact hlease.bind _

theorem channelHandler_denied {handler : Handler ι}
    (h : server.channelHandler request.method = some handler) :
    Denied c record (handler request [("channel", raw)]) := by
  unfold channelHandler at h
  split at h
  · cases h
    exact denied_channel hraw ((authorizeChannel_denied hparse hdenied).bind _)
  · cases h
    exact denied_channel hraw ((authorizeChannel_denied hparse hdenied).bind _)
  · cases h
    exact patchChannel_denied hparse hdenied hraw
  · cases h
    exact deleteChannel_denied hparse hdenied hraw
  · cases h

theorem router_denied {rest : List String} (hpath : request.path = "channels" :: raw :: rest) :
    Denied c record (server.router request) := by
  unfold router
  rw [hpath]
  split
  · next channel' heq =>
    cases heq
    split
    · exact denied_throw _
    · split
      · exact denied_throw _
      · next handler hhandler => exact channelHandler_denied hparse hdenied hraw hhandler
  · next channel' rest' _ heq =>
    cases heq
    split
    · exact denied_throw _
    · unfold dataRouter
      split
      · exact denied_throw _
      · split
        · exact denied_throw _
        · next handler hhandler =>
          exact dataHandler_denied hparse hdenied hraw _ hhandler
  · next hne => exact absurd rfl (hne _ _)

end Unauthorized

/-- The path of the request is under `/channels/{id}`, where the id is that of `c`. -/
def Addresses (request : Request) (c : ChannelId) : Prop :=
  ∃ raw channel rest, request.path = "channels" :: raw :: rest ∧
    server.percentDecode raw = some channel ∧ ChannelId.parse channel = some c

/-- Without the token of a protected channel, the response is the same in any two states with
the channel's record, and neither state changes. -/
theorem protected_channel_reveals_nothing (request : Request) {c : ChannelId}
    (haddresses : server.Addresses request c) {record : ChannelRecord} {digest : Digest}
    (haccess : record.access = .token digest)
    (hcredential : ∀ candidate, server.credential request.headers = some candidate →
      server.sha256 (utf8 candidate) ≠ digest)
    {s s' : Shared ι} (hs : s.channel c = some record) (hs' : s'.channel c = some record) :
    (server.serve request s).1 = (server.serve request s').1 ∧
      (server.serve request s).2 = s ∧ (server.serve request s').2 = s' := by
  obtain ⟨raw, channel, rest, hpath, hraw, hparse⟩ := haddresses
  have hdenied := unauthorized_of_token haccess hcredential
  obtain ⟨response, hresponse⟩ := router_denied hparse hdenied hraw hpath
  rw [serve, serve, hresponse s hs, hresponse s' hs']
  exact ⟨rfl, rfl, rfl⟩

/-! ## A protected channel -/

def guardedChannel : ChannelId := ⟨1⟩

/-- Its token is `a`. -/
def guardedRecord : ChannelRecord where
  id := guardedChannel
  access := .token sampleDigest
  expirySeconds := 100
  state := .active
  createdAt := 0

def guardedShard : Shared (BitVec 128) :=
  (Shared.fresh (BitVec 128) 100 0).commit .durable (·.storeChannel guardedRecord)

/-- The same shard with a reference `x` in the channel. -/
def boundShard : Shared (BitVec 128) :=
  guardedShard.commit .durable
    (·.bindReference guardedChannel (utf8 "x") ⟨sampleArtifact, 0, none, none⟩)

/-- A server whose reference routes read the shard. Its paths have no escapes and its
requests no bodies. -/
def sampleServer : Server (BitVec 128) where
  sha256 := sampleEnv.sha256
  percentDecode := some
  base64Decode _ := none
  jsonBinding _ := .error (statusOnly 415)
  jsonPatch _ := none
  pathRejection _ := statusOnly 400
  services :=
    { storeFails := false
      recheckFails := false
      permit := true
      permitAgain := true
      awaitGate := fun c s => (s.gate c).1
      publish := fun _ _ s => (.error .other, s)
      serveArtifact := fun _ _ _ _ s => (statusOnly 404, s)
      resolveReference := fun c name s => (some ((s.reference c name).map (·.artifact)), s)
      bindReference := fun _ _ _ s => (.error .other, s)
      deleteReference := fun c name s => (.ok (), s.commit .durable (·.deleteReference c name))
      pythonSimple := fun _ _ _ => none
      npmMetadata := fun _ _ => none
      fetch := fun _ _ _ _ s => (.error .busy, s)
      fetchEncodedUrl := fun _ _ _ _ s => (.error .busy, s)
      storeChannel := fun record s => (true, s.commit .durable (·.storeChannel record))
      finishDeletion := fun c s => (true, s.commit .durable (·.finishChannelDeletion c)) }

/-- `DELETE /channels/{id}/references/x` with a bearer token. -/
def deleteRequest (token : String) : Request where
  method := .delete
  path := ["channels", guardedChannel.text, "references", "x"]
  headers := [("authorization", utf8 ("Bearer " ++ token))]
  body := []

theorem deleteRequest_addresses (token : String) :
    sampleServer.Addresses (deleteRequest token) guardedChannel :=
  ⟨_, _, _, rfl, rfl, ChannelId.parse_eq_some.mpr rfl⟩

theorem guardedShard_channel : guardedShard.channel guardedChannel = some guardedRecord := by
  simp [guardedShard, Shared.channel, guardedRecord]

theorem boundShard_channel : boundShard.channel guardedChannel = some guardedRecord := by
  rw [← guardedShard_channel, boundShard, Shared.channel, Shared.commit_current]
  rfl

/-- A wrong token leaves the reference alone, and does not learn that it is there. -/
theorem wrong_token_reveals_nothing :
    guardedShard.reference guardedChannel (utf8 "x") ≠
        boundShard.reference guardedChannel (utf8 "x") ∧
      (sampleServer.serve (deleteRequest "b") guardedShard).1 =
        (sampleServer.serve (deleteRequest "b") boundShard).1 ∧
      (sampleServer.serve (deleteRequest "b") guardedShard).2 = guardedShard ∧
      (sampleServer.serve (deleteRequest "b") boundShard).2 = boundShard := by
  have hdiffer : guardedShard.reference guardedChannel (utf8 "x") ≠
      boundShard.reference guardedChannel (utf8 "x") := by
    have hbound : boundShard.reference guardedChannel (utf8 "x") =
        some ⟨sampleArtifact, 0, none, none⟩ := by
      simp [boundShard, Shared.reference]
    have hguarded : guardedShard.reference guardedChannel (utf8 "x") = none := by
      rw [guardedShard, Shared.reference, Shared.commit_current]
      rfl
    rw [hbound, hguarded]
    exact (Option.some_ne_none _).symm
  have hcredential : sampleServer.credential (deleteRequest "b").headers = some "b" := by
    decide +kernel
  have hhash : sampleServer.sha256 (utf8 "b") ≠ sampleDigest := by decide +kernel
  refine ⟨hdiffer, protected_channel_reveals_nothing sampleServer (deleteRequest "b")
    (deleteRequest_addresses "b") rfl ?_ guardedShard_channel boundShard_channel⟩
  intro candidate hcandidate
  obtain rfl : "b" = candidate := Option.some.inj (hcredential.symm.trans hcandidate)
  exact hhash

end Server

end Http

end Flywheel
