import Flywheel.Channel
import Flywheel.Storage.Metadata

/-!
# The package proxy: protocols, origins and targets (`src/proxy/mod.rs`)

A request names its upstream either by a path, which is joined to the protocol's base and
may itself be an absolute URL, or by a base64url-encoded URL. Both go through
`check_origin` before anything is sent.

The `url` crate is a parameter (`UrlLib`). Of its origins the proxy relies on one thing: an
opaque origin, that of a URL without a host and port, equals no other origin.
-/

set_option autoImplicit false

namespace Flywheel

open Lib

/-! ## URLs and origins -/

/-- `url::Origin`. Every opaque origin is a fresh one, so none is equal to any other. -/
inductive Origin where
  | opaqueOrigin
  | tuple (scheme host : String) (port : UInt16)

/-- Equality of origins as `HashSet::contains` sees it. -/
def Origin.same : Origin → Origin → Bool
  | .tuple s h p, .tuple s' h' p' => decide (s = s' ∧ h = h' ∧ p = p')
  | _, _ => false

/-- What the proxy uses of the `url` and `base64` crates. -/
structure UrlLib (U : Type) where
  parse : String → Except String U
  join : U → String → Except String U
  asStr : U → String
  origin : U → Origin
  scheme : U → String
  username : U → String
  password : U → Option String
  path : U → String
  setPath : U → String → U
  /-- `URL_SAFE_NO_PAD.decode`. -/
  base64Decode : String → Option ByteArray

inductive Protocol where
  | go
  | python
  | npm
  | cargoIndex
  | cargoCrate
  deriving DecidableEq

def Protocol.name : Protocol → String
  | .go => "go"
  | .python => "python"
  | .npm => "npm"
  | .cargoIndex => "cargo-index"
  | .cargoCrate => "cargo-crate"

/-- How the body of a response is rewritten for the client. -/
inductive Transform where
  | none
  | pythonHtml (routePrefix : String) (isProjectPage : Bool)
  | pythonJson (routePrefix : String) (isProjectPage : Bool)
  | npmMetadata (routePrefix : String) (abbreviated : Bool)
  deriving DecidableEq

namespace Transform

def upstreamAccept : Transform → Option String
  | .pythonHtml _ _ => some "application/vnd.pypi.simple.v1+html"
  | .pythonJson _ _ => some "application/vnd.pypi.simple.v1+json"
  | .npmMetadata _ true => some "application/vnd.npm.install-v1+json"
  | .npmMetadata _ false => some "application/json"
  | .none => Option.none

def cacheVariant : Transform → String
  | .pythonHtml _ _ => "html"
  | .pythonJson _ _ => "json"
  | .npmMetadata _ true => "install-v1"
  | .npmMetadata _ false => "full"
  | .none => ""

end Transform

/-! ## Errors -/

/-- A failed exchange with the upstream, as `reqwest::Error` reports it. -/
structure HttpError where
  isConnect : Bool
  isTimeout : Bool
  deriving DecidableEq

/-- `CacheError`: running out of space is told apart from everything else. -/
inductive CacheError where
  | outOfSpace
  | other (reason : String)
  deriving DecidableEq

inductive ProxyError where
  | busy
  | invalidEncodedUrl
  | disallowedOrigin
  | url (reason : String)
  | http (error : HttpError)
  | unavailable (reason : String)
  | malformed (reason : String)
  | cache (error : CacheError)
  deriving DecidableEq

/-! ## The service -/

structure UpstreamBases (U : Type) where
  go : U
  python : U
  npm : U
  cargoIndex : U
  cargoCrate : U

def UpstreamBases.forProtocol {U : Type} (b : UpstreamBases U) : Protocol → U
  | .go => b.go
  | .python => b.python
  | .npm => b.npm
  | .cargoIndex => b.cargoIndex
  | .cargoCrate => b.cargoCrate

/-- The origins each protocol may fetch from. -/
structure AllowedOrigins where
  go : List Origin
  python : List Origin
  npm : List Origin
  cargoIndex : List Origin
  cargoCrate : List Origin

def AllowedOrigins.forProtocol (a : AllowedOrigins) : Protocol → List Origin
  | .go => a.go
  | .python => a.python
  | .npm => a.npm
  | .cargoIndex => a.cargoIndex
  | .cargoCrate => a.cargoCrate

structure ProxyService (U : Type) where
  urls : UrlLib U
  bases : UpstreamBases U
  allowed : AllowedOrigins
  /-- `proxy_revalidation_seconds`. -/
  ttl : UInt64

/-- The configuration `ProxyService::new` reads. -/
structure ProxyConfig where
  goUpstream : String
  pythonUpstream : String
  npmUpstream : String
  cargoIndexUpstream : String
  cargoCrateUpstream : String
  proxyAllowedOrigins : List String
  proxyRevalidationSeconds : UInt64

/-- Download origins that PyPI's simple index links to. -/
def pythonDownloadOrigins : List String := ["https://files.pythonhosted.org"]

namespace ProxyService

variable {U : Type}

def originOf (urls : UrlLib U) (entry : String) : Except String Origin := do
  return urls.origin (← urls.parse entry)

def originSet (urls : UrlLib U) (base : U) (shared : List Origin) (defaults : List String) :
    Except String (List Origin) := do
  return urls.origin base :: shared ++ (← defaults.mapM (originOf urls))

def new (urls : UrlLib U) (config : ProxyConfig) : Except String (ProxyService U) := do
  let bases : UpstreamBases U :=
    { go := ← urls.parse config.goUpstream
      python := ← urls.parse config.pythonUpstream
      npm := ← urls.parse config.npmUpstream
      cargoIndex := ← urls.parse config.cargoIndexUpstream
      cargoCrate := ← urls.parse config.cargoCrateUpstream }
  let shared ← config.proxyAllowedOrigins.mapM (originOf urls)
  let allowed : AllowedOrigins :=
    { go := ← originSet urls bases.go shared []
      python := ← originSet urls bases.python shared pythonDownloadOrigins
      npm := ← originSet urls bases.npm shared []
      cargoIndex := ← originSet urls bases.cargoIndex shared []
      cargoCrate := ← originSet urls bases.cargoCrate shared [] }
  return { urls, bases, allowed, ttl := config.proxyRevalidationSeconds }

variable (service : ProxyService U)

/-- The URL's origin is in the protocol's allowed set. -/
def Allows (protocol : Protocol) (url : U) : Prop :=
  (service.allowed.forProtocol protocol).any (Origin.same (service.urls.origin url)) = true

instance (protocol : Protocol) (url : U) : Decidable (service.Allows protocol url) :=
  inferInstanceAs (Decidable (_ = _))

def checkOrigin (protocol : Protocol) (url : U) : Except ProxyError Unit :=
  if service.Allows protocol url then .ok () else .error .disallowedOrigin

/-- An opaque origin is refused whatever the configuration allows. -/
theorem checkOrigin_opaque {protocol : Protocol} {url : U}
    (h : service.urls.origin url = .opaqueOrigin) :
    service.checkOrigin protocol url = .error .disallowedOrigin := by
  have hnone : ¬ service.Allows protocol url := by
    simp [Allows, h, Origin.same]
  simp [checkOrigin, hnone]

theorem allows_of_checkOrigin {protocol : Protocol} {url : U} {u : Unit}
    (h : service.checkOrigin protocol url = .ok u) : service.Allows protocol url := by
  unfold checkOrigin at h
  split at h
  · assumption
  · cases h

/-- A target that was let through is an allowed one. -/
theorem allows_of_checked {protocol : Protocol} {url target : U}
    (h : (service.checkOrigin protocol url).map (fun _ => url) = .ok target) :
    service.Allows protocol target := by
  cases hcheck : service.checkOrigin protocol url with
  | error e =>
    rw [hcheck] at h
    cases h
  | ok u =>
    rw [hcheck] at h
    cases h
    exact service.allows_of_checkOrigin hcheck

/-- `ProxyService::url`: the target of a path. -/
def url (protocol : Protocol) (path : String) : Except ProxyError U :=
  -- `join` replaces the base entirely when the path is itself an absolute URL
  match service.urls.join (service.bases.forProtocol protocol) path with
  | .error reason => .error (.url reason)
  | .ok url => (service.checkOrigin protocol url).map fun _ => url

theorem allows_of_url {protocol : Protocol} {path : String} {target : U}
    (h : service.url protocol path = .ok target) : service.Allows protocol target := by
  unfold url at h
  split at h
  · cases h
  · exact service.allows_of_checked h

/-- The target of an encoded URL, with a companion suffix appended to its path. -/
def encodedUrl (protocol : Protocol) (encoded suffix : String) : Except ProxyError U :=
  match service.urls.base64Decode encoded with
  | none => .error .invalidEncodedUrl
  | some bytes =>
    match String.fromUTF8? bytes with
    | none => .error .invalidEncodedUrl
    | some value =>
      match service.urls.parse value with
      | .error reason => .error (.url reason)
      | .ok url =>
        let urls := service.urls
        if (urls.scheme url ≠ "http" ∧ urls.scheme url ≠ "https") ∨ urls.username url ≠ "" ∨
            (urls.password url).isSome then
          .error .invalidEncodedUrl
        else
          let url :=
            if suffix ≠ "" then urls.setPath url (urls.path url ++ suffix) else url
          (service.checkOrigin protocol url).map fun _ => url

theorem allows_of_encodedUrl {protocol : Protocol} {encoded suffix : String} {target : U}
    (h : service.encodedUrl protocol encoded suffix = .ok target) :
    service.Allows protocol target := by
  unfold encodedUrl at h
  split at h
  · cases h
  · split at h
    · cases h
    · split at h
      · cases h
      · dsimp only at h
        split at h
        · cases h
        · -- the check is made on the URL with its suffix
          exact service.allows_of_checked h

end ProxyService

end Flywheel
