import Mathlib.Data.List.Basic

/-!
# The configuration (`src/config.rs`)

The fields `Config::validate` looks at and the byte limit of maintenance, and its checks in the
source's order with the source's messages. `Url::parse` is a parameter; of a URL only the scheme
and whether it has a host are looked at. An entry is quoted in a message as a string literal.
-/

set_option autoImplicit false

namespace Flywheel

structure Config where
  maxUploadBytes : UInt64
  defaultExpirySeconds : UInt64
  goUpstream : String
  pythonUpstream : String
  npmUpstream : String
  cargoIndexUpstream : String
  cargoCrateUpstream : String
  proxyConcurrency : Nat
  upstreamTimeoutSeconds : UInt64
  proxyAllowedOrigins : List String
  foregroundConcurrency : Nat
  reservationExtentBytes : UInt64
  lowWatermarkBytes : UInt64
  highWatermarkBytes : UInt64
  bloomBits : Nat
  reclaimCandidateLimit : Nat
  reclaimByteLimit : UInt64

/-- `anyhow::ensure!`. -/
def ensure (condition : Bool) (message : String) : Except String Unit :=
  if condition then .ok () else .error message

theorem ensure_bind_eq_ok {α : Type} {condition : Bool} {message : String}
    {rest : Unit → Except String α} {x : α} (h : (ensure condition message >>= rest) = .ok x) :
    condition = true ∧ rest () = .ok x := by
  cases condition with
  | true => exact ⟨rfl, h⟩
  | false => cases h

namespace Config

/-- What a URL is asked for. -/
structure UrlShape where
  scheme : String
  hasHost : Bool

variable (parse : String → Except String UrlShape)

def validateUpstream (entry : String × String) : Except String Unit :=
  match parse entry.2 with
  | .ok _ => .ok ()
  | .error error => .error (entry.1 ++ " URL is invalid: " ++ error)

def validateOrigin (entry : String) : Except String Unit :=
  match parse entry with
  | .ok origin =>
    ensure ((origin.scheme == "http" || origin.scheme == "https") && origin.hasHost)
      ("allowed origin " ++ entry.quote ++ " must be an http(s) URL with a host")
  | .error error => .error ("allowed origin " ++ entry.quote ++ " is invalid: " ++ error)

def validate (config : Config) : Except String Unit := do
  ensure (config.maxUploadBytes > 0) "max upload bytes must be positive"
  ensure (config.defaultExpirySeconds > 0) "default expiry seconds must be positive"
  ensure (config.proxyConcurrency > 0) "proxy concurrency must be positive"
  ensure (config.upstreamTimeoutSeconds > 0) "upstream timeout must be positive"
  ensure (config.foregroundConcurrency > 0) "foreground concurrency must be positive"
  ensure (config.reservationExtentBytes > 0) "reservation extent must be positive"
  ensure (config.highWatermarkBytes >= config.lowWatermarkBytes)
    "high watermark must be at least the low watermark"
  ensure (config.bloomBits > 0) "bloom filter bits must be positive"
  ensure (config.reclaimCandidateLimit > 0) "reclaim candidate limit must be positive"
  [("go upstream", config.goUpstream), ("python upstream", config.pythonUpstream),
    ("npm upstream", config.npmUpstream), ("cargo index upstream", config.cargoIndexUpstream),
    ("cargo crate upstream", config.cargoCrateUpstream)].forM (validateUpstream parse)
  config.proxyAllowedOrigins.forM (validateOrigin parse)

/-- A configuration that passes has a positive default expiry. -/
theorem defaultExpirySeconds_pos {config : Config} (h : config.validate parse = .ok ()) :
    0 < config.defaultExpirySeconds := by
  have hexpiry := (ensure_bind_eq_ok (ensure_bind_eq_ok h).2).1
  exact of_decide_eq_true hexpiry

/-- A configuration that passes has a recent-use filter and lets maintenance look at a row. -/
theorem maintenance_pos {config : Config} (h : config.validate parse = .ok ()) :
    0 < config.bloomBits ∧ 0 < config.reclaimCandidateLimit := by
  have hextent := (ensure_bind_eq_ok (ensure_bind_eq_ok (ensure_bind_eq_ok
    (ensure_bind_eq_ok (ensure_bind_eq_ok h).2).2).2).2).2
  have hwatermarks := (ensure_bind_eq_ok (ensure_bind_eq_ok hextent).2).2
  have hbits := ensure_bind_eq_ok hwatermarks
  exact ⟨of_decide_eq_true hbits.1, of_decide_eq_true (ensure_bind_eq_ok hbits.2).1⟩

/-- A configuration that passes has its watermarks in order. -/
theorem watermarks_le {config : Config} (h : config.validate parse = .ok ()) :
    config.lowWatermarkBytes ≤ config.highWatermarkBytes := by
  have hextent := (ensure_bind_eq_ok (ensure_bind_eq_ok (ensure_bind_eq_ok
    (ensure_bind_eq_ok (ensure_bind_eq_ok h).2).2).2).2).2
  exact of_decide_eq_true (ensure_bind_eq_ok (ensure_bind_eq_ok hextent).2).1

end Config

/-- The defaults of `Config::new`, with another default expiry. -/
def sampleConfig (defaultExpirySeconds : UInt64) : Config where
  maxUploadBytes := 10 * 1024 * 1024 * 1024
  defaultExpirySeconds := defaultExpirySeconds
  goUpstream := "https://proxy.golang.org/"
  pythonUpstream := "https://pypi.org/simple/"
  npmUpstream := "https://registry.npmjs.org/"
  cargoIndexUpstream := "https://index.crates.io/"
  cargoCrateUpstream := "https://static.crates.io/crates/"
  proxyConcurrency := 64
  upstreamTimeoutSeconds := 30
  proxyAllowedOrigins := []
  foregroundConcurrency := 256
  reservationExtentBytes := 64 * 1024 * 1024
  lowWatermarkBytes := 2 * 1024 * 1024 * 1024
  highWatermarkBytes := 8 * 1024 * 1024 * 1024
  bloomBits := 1048576
  reclaimCandidateLimit := 256
  reclaimByteLimit := 8 * 1024 * 1024 * 1024

/-- `Url::parse` on the URLs of the defaults. -/
def sampleParse (url : String) : Except String Config.UrlShape :=
  if url ∈ ["https://proxy.golang.org/", "https://pypi.org/simple/",
      "https://registry.npmjs.org/", "https://index.crates.io/",
      "https://static.crates.io/crates/"] then .ok ⟨"https", true⟩
  else .error "relative URL without a base"

theorem sampleConfig_valid : (sampleConfig 604800).validate sampleParse = .ok () := by
  decide

end Flywheel
