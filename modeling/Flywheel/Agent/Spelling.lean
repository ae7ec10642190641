import Flywheel.Agent.Escapes
import Flywheel.Agent.Placement

/-!
# Spellings of one object (`agent/mod.rs`, `transport/http/packages.rs`)

The agent places a request by the raw text of a name, while the shard takes several texts for
one object: with or without escapes, with or without the slash after `simple`, and on the
package routes any text that leads to the same URL. `placement_agrees_iff` says when two paths
of one object are placed alike.

- `decode_of_store`: the name of an object of the store stands in the path, up to escapes.
- `decode_of_target`: so does the text by which a handler asks the proxy (`Target`).
- `target_of_appended`: where that text is what the URL has behind the base, the URL has no
  other.
-/

set_option autoImplicit false

namespace Flywheel.Agent

open Lib Http

/-! ## What the shard asks the proxy for -/

/-- How a route of the proxy names a file of its upstream. -/
inductive Naming where
  | path (text : String)
  | crate (name version : String)
  | encodedUrl (encoded suffix : String)
  deriving DecidableEq

structure Target where
  protocol : Protocol
  naming : Naming
  deriving DecidableEq

def cratePath (name version : String) : String := name ++ "/" ++ name ++ "-" ++ version ++ ".crate"

/-- What is joined to the base of the protocol. -/
def Target.relative (target : Target) : Option String :=
  match target.naming with
  | .path text => some text
  | .crate name version => some (cratePath name version)
  | .encodedUrl _ _ => none

section

variable {ι U : Type} (server : Http.Server ι) (proxy : ProxyService U)

def Target.url (target : Target) : Except ProxyError U :=
  match target.naming with
  | .path text => proxy.url target.protocol text
  | .crate name version => proxy.url target.protocol (cratePath name version)
  | .encodedUrl encoded suffix => proxy.encodedUrl target.protocol encoded suffix

/-- The target of a route, from its decoded captures; the routes of the store have none. -/
def targetOf (route : DataRoute) (captures : Http.Server.Captures) : Option Target := do
  let decoded ← server.decode captures
  match route with
  | .go => return ⟨.go, .path (← decoded.lookup "path")⟩
  | .pythonSimpleRoot => return ⟨.python, .path ""⟩
  | .pythonSimple => return ⟨.python, .path (← decoded.lookup "path")⟩
  | .pythonFile =>
    let encoded ← decoded.lookup "encoded"
    let found := companionSuffixes.findSome? fun suffix =>
      (stripSuffix suffix encoded).map fun encoded => (encoded, suffix)
    let (encoded, suffix) := found.getD (encoded, "")
    return ⟨.python, .encodedUrl encoded suffix⟩
  | .npm =>
    let path ← decoded.lookup "path"
    match stripPrefix "-/tarball/" path with
    | some encoded => return ⟨.npm, .encodedUrl encoded ""⟩
    | none => return ⟨.npm, .path path⟩
  | .cargoIndex => return ⟨.cargoIndex, .path (← decoded.lookup "path")⟩
  | .cargoCrate =>
    let name ← decoded.lookup "crate"
    let version ← decoded.lookup "version"
    if name.isEmpty || version.isEmpty || name.contains '/' || version.contains '/' then none
    else return ⟨.cargoCrate, .crate name version⟩
  | _ => none

def target (path : String) : Option Target := do
  let (route, captures, _) ← routeOf path
  targetOf server route captures

/-- The URL is the base with the path behind it. -/
def Target.Appended (target : Target) : Prop :=
  ∃ text url, target.relative = some text ∧ target.url proxy = .ok url ∧
    proxy.urls.asStr url = proxy.urls.asStr (proxy.bases.forProtocol target.protocol) ++ text

end

section

variable {ι U : Type} {server : Http.Server ι} {proxy : ProxyService U} {route : DataRoute}
  {captures : Http.Server.Captures} {accept : Option String} {object : StoredObject U}
  {segments : List String}

theorem fetched_eq_some {protocol protocol' : Protocol} {found : Except ProxyError U}
    {variant variant' : String} {url : U}
    (h : fetched protocol' found variant' = some (.proxy protocol url variant)) :
    protocol' = protocol ∧ found = .ok url := by
  obtain ⟨url, hurl, heq⟩ := Option.map_eq_some_iff.mp h
  cases heq
  cases found with
  | error e => cases hurl
  | ok u =>
    cases hurl
    exact ⟨rfl, rfl⟩

/-- An object of the proxy is the answer to its target. -/
theorem targetOf_of_objectOf {protocol : Protocol} {url : U} {variant : String}
    (h : objectOf server proxy route captures accept = some (.proxy protocol url variant)) :
    ∃ found, targetOf server route captures = some found ∧ found.protocol = protocol ∧
      found.url proxy = .ok url := by
  obtain ⟨decoded, hdecoded, h⟩ := Option.bind_eq_some_iff.mp h
  rw [targetOf, hdecoded, Option.bind_eq_bind, Option.bind_some]
  cases route with
  | artifact =>
    obtain ⟨algorithm, -, h⟩ := Option.bind_eq_some_iff.mp h
    obtain ⟨digest, -, h⟩ := Option.bind_eq_some_iff.mp h
    obtain ⟨id, -, h⟩ := Option.map_eq_some_iff.mp h
    cases h
  | reference =>
    obtain ⟨text, -, h⟩ := Option.bind_eq_some_iff.mp h
    obtain ⟨name, -, h⟩ := Option.map_eq_some_iff.mp h
    cases h
  | httpCache =>
    obtain ⟨key, -, h⟩ := Option.bind_eq_some_iff.mp h
    cases h
  | bazelAc =>
    obtain ⟨hash, -, h⟩ := Option.bind_eq_some_iff.mp h
    cases h
  | bazelCas =>
    obtain ⟨hash, -, h⟩ := Option.bind_eq_some_iff.mp h
    obtain ⟨id, -, h⟩ := Option.map_eq_some_iff.mp h
    cases h
  | go =>
    obtain ⟨path, hpath, h⟩ := Option.bind_eq_some_iff.mp h
    obtain ⟨rfl, hurl⟩ := fetched_eq_some h
    exact ⟨⟨.go, .path path⟩, by simp [hpath], rfl, hurl⟩
  | pythonSimpleRoot =>
    obtain ⟨transform, -, h⟩ := Option.bind_eq_some_iff.mp h
    obtain ⟨rfl, hurl⟩ := fetched_eq_some h
    exact ⟨⟨.python, .path ""⟩, rfl, rfl, hurl⟩
  | pythonSimple =>
    obtain ⟨path, hpath, h⟩ := Option.bind_eq_some_iff.mp h
    obtain ⟨transform, -, h⟩ := Option.bind_eq_some_iff.mp h
    obtain ⟨rfl, hurl⟩ := fetched_eq_some h
    exact ⟨⟨.python, .path path⟩, by simp [hpath], rfl, hurl⟩
  | pythonFile =>
    obtain ⟨encoded, hencoded, h⟩ := Option.bind_eq_some_iff.mp h
    obtain ⟨rfl, hurl⟩ := fetched_eq_some h
    exact ⟨⟨.python, .encodedUrl _ _⟩, by rw [hencoded]; rfl, rfl, hurl⟩
  | npm =>
    obtain ⟨path, hpath, h⟩ := Option.bind_eq_some_iff.mp h
    split at h
    · rename_i encoded hencoded
      obtain ⟨rfl, hurl⟩ := fetched_eq_some h
      exact ⟨⟨.npm, .encodedUrl encoded ""⟩, by simp [hpath, hencoded], rfl, hurl⟩
    · rename_i hnone
      obtain ⟨transform, -, h⟩ := Option.bind_eq_some_iff.mp h
      obtain ⟨rfl, hurl⟩ := fetched_eq_some h
      exact ⟨⟨.npm, .path path⟩, by simp [hpath, hnone], rfl, hurl⟩
  | cargoConfig => cases h
  | cargoIndex =>
    obtain ⟨path, hpath, h⟩ := Option.bind_eq_some_iff.mp h
    obtain ⟨rfl, hurl⟩ := fetched_eq_some h
    exact ⟨⟨.cargoIndex, .path path⟩, by simp [hpath], rfl, hurl⟩
  | cargoCrate =>
    obtain ⟨name, hname, h⟩ := Option.bind_eq_some_iff.mp h
    obtain ⟨version, hversion, h⟩ := Option.bind_eq_some_iff.mp h
    split at h
    · cases h
    · rename_i hnames
      obtain ⟨rfl, hurl⟩ := fetched_eq_some h
      refine ⟨⟨.cargoCrate, .crate name version⟩, ?_, rfl, hurl⟩
      rw [hname, hversion]
      exact if_neg hnames

/-- The routes of the store ask for nothing. -/
theorem targetOf_of_store (h : objectOf server proxy route captures accept = some object)
    (hstore : ∀ protocol url variant, object ≠ .proxy protocol url variant) :
    targetOf server route captures = none := by
  have hkind := objectOf_kind h
  obtain ⟨decoded, hdecoded, -⟩ := Option.bind_eq_some_iff.mp h
  rw [targetOf, hdecoded, Option.bind_eq_bind, Option.bind_some]
  cases object with
  | proxy protocol url variant => exact absurd rfl (hstore protocol url variant)
  | artifact _ | reference _ => cases route <;> first | rfl | simp [objectKind, routeKind] at hkind
  | buildKey key =>
    cases key <;> cases route <;> first | rfl | simp [objectKind, routeKind] at hkind

/-- Crates come from their own upstream, and are named without a slash. -/
theorem targetOf_crate {found : Target} (h : targetOf server route captures = some found) :
    (found.protocol = .cargoCrate ∧ ∃ name version, found.naming = .crate name version ∧
      '/' ∉ name.toList) ∨
    (found.protocol ≠ .cargoCrate ∧ ∀ name version, found.naming ≠ .crate name version) := by
  obtain ⟨decoded, hdecoded, h⟩ := Option.bind_eq_some_iff.mp h
  cases route with
  | artifact | reference | httpCache | bazelAc | bazelCas | cargoConfig => cases h
  | pythonSimpleRoot =>
    cases h
    exact .inr ⟨nofun, fun _ _ => nofun⟩
  | go | pythonSimple | pythonFile | cargoIndex =>
    obtain ⟨text, -, h⟩ := Option.bind_eq_some_iff.mp h
    cases h
    exact .inr ⟨nofun, fun _ _ => nofun⟩
  | npm =>
    obtain ⟨path, -, h⟩ := Option.bind_eq_some_iff.mp h
    split at h <;> cases h <;> exact .inr ⟨nofun, fun _ _ => nofun⟩
  | cargoCrate =>
    obtain ⟨name, -, h⟩ := Option.bind_eq_some_iff.mp h
    obtain ⟨version, -, h⟩ := Option.bind_eq_some_iff.mp h
    split at h
    · cases h
    · rename_i hnames
      cases h
      refine .inl ⟨rfl, name, version, rfl, ?_⟩
      simp only [Bool.or_eq_true, not_or, String.contains_char_eq, decide_eq_true_eq] at hnames
      exact hnames.1.2

/-! ## Names -/

/-- What an escaped name of an object of the store stands for. -/
def storeName : StoredObject U → Option Bytes
  | .artifact id => some (hexEncode id.digest.bytes)
  | .reference name => some name
  | .buildKey (.http key) => some key
  | .buildKey (.bazelAc hash) => some hash
  | .proxy _ _ _ => none

/-- What stands behind the ecosystem in a path for the target, escapes apart. The list of
projects has two forms. -/
def Target.text (target : Target) (slash : Bool) : String :=
  match target.protocol, target.naming with
  | .python, .path text =>
    if text = "" then if slash then "simple/" else "simple" else "/".intercalate ["simple", text]
  | .python, .encodedUrl encoded suffix => "/".intercalate ["files", encoded ++ suffix]
  | .npm, .encodedUrl encoded _ => "-/tarball/" ++ encoded
  | .cargoIndex, .path text => "/".intercalate ["index", text]
  | _, .crate name version => "/".intercalate ["crates", name, version, "download"]
  | _, .path text => text
  | _, .encodedUrl encoded suffix => encoded ++ suffix

/-- The name ends in a slash. -/
def slashed (text : String) : Bool := text.toList.getLast? = some '/'

theorem utf8_empty : utf8 "" = [] := by
  rw [utf8, toList_toUTF8]
  rfl

theorem utf8_eq_nil {text : String} (h : utf8 text = []) : text = "" :=
  toUTF8_inj (h.trans utf8_empty.symm)

theorem utf8_append (s t : String) : utf8 (s ++ t) = utf8 s ++ utf8 t := by
  rw [utf8, utf8, utf8, toList_toUTF8, toList_toUTF8, toList_toUTF8]
  simp

theorem utf8_intercalate (s : String) {l : List String} (h : l ≠ []) :
    utf8 ("/".intercalate (s :: l)) = utf8 s ++ 47 :: utf8 ("/".intercalate l) := by
  have hslash : utf8 "/" = [47] := by
    rw [utf8, toList_toUTF8]
    rfl
  rw [String.intercalate_cons_of_ne_nil h, utf8_append, utf8_append, hslash, List.append_assoc,
    List.singleton_append]

/-- Names are decoded segment by segment. -/
theorem decode_intercalate {raw decoded : List String}
    (h : List.Forall₂ (fun r d => utf8 d = percentDecodeBytes (utf8 r)) raw decoded) :
    percentDecodeBytes (utf8 ("/".intercalate raw)) = utf8 ("/".intercalate decoded) := by
  induction h with
  | nil =>
    rw [String.intercalate_nil, utf8_empty]
    rfl
  | @cons r d raw decoded hhead htail ih =>
    cases htail with
    | nil =>
      rw [String.intercalate_singleton, String.intercalate_singleton, hhead]
    | cons hnext hrest =>
      rw [utf8_intercalate r (List.cons_ne_nil _ _), utf8_intercalate d (List.cons_ne_nil _ _),
        percentDecodeBytes_slash, ih, hhead]

/-- A word of the route stands in front of a capture. -/
theorem decode_word (word : String) {raw decoded : String} (hword : (37 : UInt8) ∉ utf8 word)
    (h : utf8 decoded = percentDecodeBytes (utf8 raw)) :
    percentDecodeBytes (utf8 ("/".intercalate [word, raw])) =
      utf8 ("/".intercalate [word, decoded]) :=
  decode_intercalate (.cons (percentDecodeBytes_of_not_mem hword).symm (.cons h .nil))

theorem intercalate_cons (word : String) {rest : List String} (h : rest ≠ []) :
    "/".intercalate (word :: rest) = "/".intercalate [word, "/".intercalate rest] := by
  rw [String.intercalate_cons_of_ne_nil h, String.intercalate_cons_of_ne_nil (List.cons_ne_nil _ _),
    String.intercalate_singleton]

/-- A decoded capture has the bytes that its text stands for. -/
theorem lookup_decode (hdecoder : server.percentDecode = percentDecode)
    {decoded : Http.Server.Captures} {name raw value : String}
    (h : server.decode captures = some decoded) (hraw : captures.lookup name = some raw)
    (hvalue : decoded.lookup name = some value) :
    utf8 value = percentDecodeBytes (utf8 raw) := by
  induction captures generalizing decoded with
  | nil => cases hraw
  | cons capture captures ih =>
    obtain ⟨key, text⟩ := capture
    rw [Http.Server.decode, List.mapM_cons] at h
    obtain ⟨first, hfirst, h⟩ := Option.bind_eq_some_iff.mp h
    obtain ⟨others, hothers, h⟩ := Option.bind_eq_some_iff.mp h
    obtain ⟨plain, hplain, rfl⟩ := Option.map_eq_some_iff.mp hfirst
    cases h
    rw [List.lookup_cons] at hraw hvalue
    split at hraw
    · rename_i hkey
      rw [hkey] at hvalue
      cases hraw
      cases hvalue
      exact utf8_of_percentDecode (hdecoder ▸ hplain)
    · rename_i hkey
      rw [hkey] at hvalue
      exact ih hothers hraw hvalue

/-- The name of an object of the store is what the last segment stands for. -/
theorem decode_of_store (hdecoder : server.percentDecode = percentDecode)
    (hroute : DataRoute.ofPath segments = some (route, captures))
    (hobject : objectOf server proxy route captures accept = some object) {name : Bytes}
    (hname : storeName object = some name) :
    percentDecodeBytes (utf8 (routeText route segments)) = name := by
  have hkind := objectOf_kind hobject
  obtain ⟨hcandidate, -⟩ := Option.filter_eq_some_iff.mp hroute
  obtain ⟨decoded, hdecoded, hfound⟩ := Option.bind_eq_some_iff.mp hobject
  clear hobject
  unfold DataRoute.candidate at hcandidate
  split at hcandidate <;> cases hcandidate
  case h_1 =>
    obtain ⟨algorithm, -, hfound⟩ := Option.bind_eq_some_iff.mp hfound
    obtain ⟨digest, hdigest, hfound⟩ := Option.bind_eq_some_iff.mp hfound
    obtain ⟨id, hid, rfl⟩ := Option.map_eq_some_iff.mp hfound
    cases hname
    rw [ArtifactId.hexEncode_of_parse hid, lookup_decode hdecoder hdecoded rfl hdigest]
    rfl
  case h_2 =>
    obtain ⟨text, htext, hfound⟩ := Option.bind_eq_some_iff.mp hfound
    obtain ⟨found, hparsed, rfl⟩ := Option.map_eq_some_iff.mp hfound
    cases hname
    unfold Http.Server.parseReference at hparsed
    split at hparsed
    · cases hparsed
      exact (lookup_decode hdecoder hdecoded rfl htext).symm
    · cases hparsed
  case h_3 =>
    obtain ⟨key, hkey, hfound⟩ := Option.bind_eq_some_iff.mp hfound
    cases hfound
    cases hname
    exact (lookup_decode hdecoder hdecoded rfl hkey).symm
  case h_4 =>
    obtain ⟨hash, hhash, hfound⟩ := Option.bind_eq_some_iff.mp hfound
    cases hfound
    cases hname
    exact (lookup_decode hdecoder hdecoded rfl hhash).symm
  case h_5 =>
    obtain ⟨hash, hhash, hfound⟩ := Option.bind_eq_some_iff.mp hfound
    obtain ⟨id, hid, rfl⟩ := Option.map_eq_some_iff.mp hfound
    cases hname
    rw [ArtifactId.hexEncode_of_parse hid, lookup_decode hdecoder hdecoded rfl hhash]
    rfl
  all_goals
    -- the other routes are of the proxy
    cases object with
    | proxy _ _ _ => cases hname
    | artifact _ => simp [objectKind, routeKind] at hkind
    | reference _ => simp [objectKind, routeKind] at hkind
    | buildKey key => cases key <;> simp [objectKind, routeKind] at hkind

/-- The encoded URL and the suffix of a companion make up the capture. -/
theorem append_of_companion (capture : String) :
    let found := (companionSuffixes.findSome? fun suffix =>
      (stripSuffix suffix capture).map fun encoded => (encoded, suffix)).getD (capture, "")
    found.1 ++ found.2 = capture := by
  intro found
  cases hfound : companionSuffixes.findSome? fun suffix =>
      (stripSuffix suffix capture).map fun encoded => (encoded, suffix) with
  | none =>
    have heq : found = (capture, "") := congrArg (Option.getD · (capture, "")) hfound
    rw [heq, String.append_empty]
  | some companion =>
    have heq : found = companion := congrArg (Option.getD · (capture, "")) hfound
    obtain ⟨before, suffix, after, -, hsuffix, -⟩ := List.findSome?_eq_some_iff.mp hfound
    obtain ⟨encoded, hencoded, rfl⟩ := Option.map_eq_some_iff.mp hsuffix
    rw [heq, eq_append_of_stripSuffix hencoded]

/-- What stands behind the ecosystem is the text of the target. -/
theorem decode_of_target (hdecoder : server.percentDecode = percentDecode)
    (hroute : DataRoute.ofPath segments = some (route, captures)) {found : Target}
    (hfound : targetOf server route captures = some found) :
    percentDecodeBytes (utf8 (routeText route segments)) =
      utf8 (found.text (slashed (routeText route segments))) := by
  obtain ⟨hcandidate, hcaptures⟩ := Option.filter_eq_some_iff.mp hroute
  obtain ⟨decoded, hdecoded, h⟩ := Option.bind_eq_some_iff.mp hfound
  clear hfound hroute
  unfold DataRoute.candidate at hcandidate
  split at hcandidate <;> cases hcandidate
  case h_1 | h_2 | h_3 | h_4 | h_5 | h_12 => cases h
  case h_6 rest =>
    obtain ⟨path, hpath, h⟩ := Option.bind_eq_some_iff.mp h
    cases h
    exact (lookup_decode hdecoder hdecoded rfl hpath).symm
  case h_7 | h_8 =>
    -- the list of projects, without and with the slash
    cases h
    decide +kernel
  case h_9 rest _ =>
    obtain ⟨path, hpath, h⟩ := Option.bind_eq_some_iff.mp h
    cases h
    obtain ⟨first, others, rfl⟩ := ne_nil_of_capture hcaptures
    have hdecode := lookup_decode hdecoder hdecoded rfl hpath
    have hne : path ≠ "" := by
      rintro rfl
      -- a capture is not empty, and then neither is what it stands for
      have hraw : "/".intercalate (first :: others) = "" :=
        utf8_eq_nil (percentDecodeBytes_eq_nil (hdecode.symm.trans utf8_empty))
      rw [hraw] at hcaptures
      exact absurd hcaptures (by decide)
    have htext : ∀ slash, Target.text ⟨.python, .path path⟩ slash =
        "/".intercalate ["simple", path] := fun slash => if_neg hne
    rw [htext, ← decode_word "simple" (by decide +kernel) hdecode]
    exact congrArg _ (congrArg _ (intercalate_cons _ (List.cons_ne_nil _ _)))
  case h_10 encoded =>
    obtain ⟨path, hpath, h⟩ := Option.bind_eq_some_iff.mp h
    cases h
    have hdecode := lookup_decode hdecoder hdecoded rfl hpath
    refine Eq.trans (decode_word "files" (by decide +kernel) hdecode) ?_
    have hfile := congrArg (fun name => utf8 ("/".intercalate ["files", name]))
      (append_of_companion path)
    exact hfile.symm
  case h_11 rest =>
    obtain ⟨path, hpath, h⟩ := Option.bind_eq_some_iff.mp h
    have hdecode := lookup_decode hdecoder hdecoded rfl hpath
    split at h
    · rename_i encoded hencoded
      cases h
      rw [eq_append_of_stripPrefix hencoded] at hdecode
      exact hdecode.symm
    · cases h
      exact hdecode.symm
  case h_13 =>
    obtain ⟨path, hpath, h⟩ := Option.bind_eq_some_iff.mp h
    cases h
    obtain ⟨first, others, rfl⟩ := ne_nil_of_capture hcaptures
    have hdecode := lookup_decode hdecoder hdecoded rfl hpath
    refine Eq.trans ?_ (decode_word "index" (by decide +kernel) hdecode)
    exact congrArg _ (congrArg _ (intercalate_cons _ (List.cons_ne_nil _ _)))
  case h_14 =>
    obtain ⟨name, hname, h⟩ := Option.bind_eq_some_iff.mp h
    obtain ⟨version, hversion, h⟩ := Option.bind_eq_some_iff.mp h
    split at h
    · cases h
    · cases h
      have hcrates : utf8 "crates" = percentDecodeBytes (utf8 "crates") :=
        (percentDecodeBytes_of_not_mem (by decide +kernel)).symm
      have hdownload : utf8 "download" = percentDecodeBytes (utf8 "download") :=
        (percentDecodeBytes_of_not_mem (by decide +kernel)).symm
      exact decode_intercalate (.cons hcrates (.cons (lookup_decode hdecoder hdecoded rfl hname)
        (.cons (lookup_decode hdecoder hdecoded rfl hversion) (.cons hdownload .nil))))

end

/-! ## Agreement -/

section

variable {ι U : Type} {server : Http.Server ι} {proxy : ProxyService U}

theorem segments_of_target {segments : List String} {route : DataRoute}
    {captures : Http.Server.Captures} {found : Target}
    (hroute : DataRoute.ofPath segments = some (route, captures))
    (hfound : targetOf server route captures = some found) :
    ∃ rest, rest ≠ [] ∧ segments = "proxy" :: routeKind route :: rest ∧
      routeText route segments = "/".intercalate rest := by
  obtain ⟨hcandidate, hcaptures⟩ := Option.filter_eq_some_iff.mp hroute
  obtain ⟨decoded, hdecoded, h⟩ := Option.bind_eq_some_iff.mp hfound
  clear hfound hroute
  unfold DataRoute.candidate at hcandidate
  split at hcandidate <;> cases hcandidate
  case h_1 | h_2 | h_3 | h_4 | h_5 | h_12 => cases h
  case h_6 | h_11 =>
    obtain ⟨first, others, rfl⟩ := ne_nil_of_capture hcaptures
    exact ⟨_, List.cons_ne_nil _ _, rfl, rfl⟩
  all_goals exact ⟨_, List.cons_ne_nil _ _, rfl, rfl⟩

theorem eq_of_intercalate {rest rest' : List String} (hne : rest ≠ []) (hne' : rest' ≠ [])
    (hplain : ∀ t ∈ rest, '/' ∉ t.toList) (hplain' : ∀ t ∈ rest', '/' ∉ t.toList)
    (h : "/".intercalate rest = "/".intercalate rest') : rest = rest' := by
  have hjoin : ∀ l : List String, "/".intercalate l = join '/' l := by
    intro l
    rw [← String.toList_inj, String.toList_intercalate, join]
    exact String.toList_ofList.symm
  rw [hjoin, hjoin] at h
  rw [← split_join hplain hne, ← split_join hplain' hne', h]

/-- No segment of a routed path has a slash. -/
theorem plain_of_route {p : String} {route : DataRoute} {captures : Http.Server.Captures}
    {segments : List String} (h : routeOf p = some (route, captures, segments)) :
    ∀ t ∈ segments, '/' ∉ t.toList := by
  intro t ht
  rw [← (trimSlashes_of_route h).1] at ht
  exact not_mem_of_mem_split ht

/-- The target is told by the ecosystem and the text behind it. -/
theorem target_of_text {p q : String} {route route' : DataRoute}
    {captures captures' : Http.Server.Captures} {segments segments' : List String}
    {found found' : Target} (hp : routeOf p = some (route, captures, segments))
    (hq : routeOf q = some (route', captures', segments'))
    (hfound : targetOf server route captures = some found)
    (hfound' : targetOf server route' captures' = some found')
    (hkind : routeKind route = routeKind route')
    (htext : routeText route segments = routeText route' segments') : found = found' := by
  obtain ⟨-, hroute⟩ := trimSlashes_of_route hp
  obtain ⟨-, hroute'⟩ := trimSlashes_of_route hq
  obtain ⟨rest, hne, hrest, hjoined⟩ := segments_of_target hroute hfound
  obtain ⟨rest', hne', hrest', hjoined'⟩ := segments_of_target hroute' hfound'
  have hplain : ∀ t ∈ rest, '/' ∉ t.toList := fun t ht => plain_of_route hp t (by
    rw [hrest]
    exact List.mem_cons_of_mem _ (List.mem_cons_of_mem _ ht))
  have hplain' : ∀ t ∈ rest', '/' ∉ t.toList := fun t ht => plain_of_route hq t (by
    rw [hrest']
    exact List.mem_cons_of_mem _ (List.mem_cons_of_mem _ ht))
  have hsame := eq_of_intercalate hne hne' hplain hplain'
    (hjoined.symm.trans (htext.trans hjoined'))
  rw [hrest, hsame, hkind, ← hrest', hroute'] at hroute
  cases hroute
  exact Option.some.inj (hfound.symm.trans hfound')

/-- A crate's path has the name before its first slash. -/
theorem cratePath_inj {name name' version version' : String} (hname : '/' ∉ name.toList)
    (hname' : '/' ∉ name'.toList) (h : cratePath name version = cratePath name' version') :
    name = name' ∧ version = version' := by
  have hcut : ∀ n v, '/' ∉ n.toList →
      cut '/' (cratePath n v) = (n, some (n ++ "-" ++ v ++ ".crate")) := by
    intro n v hn
    have happend : cratePath n v = n ++ String.singleton '/' ++ (n ++ "-" ++ v ++ ".crate") := by
      simp only [cratePath, String.append_assoc]
      rfl
    rw [happend, cut_append hn]
  have hboth := (hcut name version hname).symm.trans ((congrArg (cut '/') h).trans
    (hcut name' version' hname'))
  obtain ⟨rfl, hfile⟩ := Prod.mk.inj hboth
  refine ⟨rfl, ?_⟩
  have hfile := congrArg String.toList (Option.some.inj hfile)
  simp only [String.toList_append, List.append_assoc] at hfile
  have hversion := List.append_cancel_left (List.append_cancel_left hfile)
  exact String.toList_inj.mp (List.append_cancel_right hversion)

/-- Targets of one URL that stand behind the base in it are the same. -/
theorem target_of_appended {found found' : Target} {captures captures' : Http.Server.Captures}
    {route route' : DataRoute} (hfound : targetOf server route captures = some found)
    (hfound' : targetOf server route' captures' = some found')
    (hprotocol : found.protocol = found'.protocol) (hurl : found.url proxy = found'.url proxy)
    (happended : found.Appended proxy) (happended' : found'.Appended proxy) : found = found' := by
  obtain ⟨text, url, htext, hfetched, hbehind⟩ := happended
  obtain ⟨text', url', htext', hfetched', hbehind'⟩ := happended'
  have hsame : text = text' := by
    cases hfetched.symm.trans (hurl.trans hfetched')
    rw [hprotocol] at hbehind
    have happend := congrArg String.toList (hbehind.symm.trans hbehind')
    rw [String.toList_append, String.toList_append] at happend
    exact String.toList_inj.mp (List.append_cancel_left happend)
  subst hsame
  obtain ⟨protocol, naming⟩ := found
  obtain ⟨protocol', naming'⟩ := found'
  cases hprotocol
  obtain ⟨hcrate, name, version, hnaming, hname⟩ | ⟨hcrate, hnaming⟩ := targetOf_crate hfound
  · obtain ⟨-, name', version', hnaming', hname'⟩ | ⟨hother, -⟩ := targetOf_crate hfound'
    · cases hnaming
      cases hnaming'
      have hpath : cratePath name version = cratePath name' version' :=
        Option.some.inj (htext.trans htext'.symm)
      obtain ⟨rfl, rfl⟩ := cratePath_inj hname hname' hpath
      rfl
    · exact absurd hcrate hother
  · obtain ⟨hother, -⟩ | ⟨-, hnaming'⟩ := targetOf_crate hfound'
    · exact absurd hother hcrate
    · cases naming with
      | crate name version => exact absurd rfl (hnaming name version)
      | encodedUrl encoded suffix => cases htext
      | path path =>
        cases naming' with
        | crate name version => exact absurd rfl (hnaming' name version)
        | encodedUrl encoded suffix => cases htext'
        | path path' =>
          cases htext
          cases htext'
          rfl

end

/-- How two paths write the name of their object: the same of its bytes are escaped, with the
digits in the same case; both or neither end in a slash; and a package is asked for under one
name, unless each path is what stands behind the base in the URL. -/
structure SpelledAlike {ι U : Type} (server : Http.Server ι) (proxy : ProxyService U)
    (p q : String) : Prop where
  escapes : (spelling p).map escapes = (spelling q).map escapes
  slash : (spelling p).map slashed = (spelling q).map slashed
  target : target server p = target server q ∨
    ∃ found found', target server p = some found ∧ target server q = some found' ∧
      found.Appended proxy ∧ found'.Appended proxy

section

variable {ι U : Type} {server : Http.Server ι} {proxy : ProxyService U} {p q : String}
  {accept accept' : Option String} {object : StoredObject U} {id id' : String}

/-- Two spellings of one object that are alike are one text. -/
theorem eq_of_spelledAlike (hdecoder : server.percentDecode = percentDecode)
    (hp : resolve server proxy p accept = some object)
    (hq : resolve server proxy q accept' = some object) (hid : spelling p = some id)
    (hid' : spelling q = some id') (halike : SpelledAlike server proxy p q) : id = id' := by
  obtain ⟨⟨route, captures, segments⟩, hroute, hobject⟩ := Option.bind_eq_some_iff.mp hp
  obtain ⟨⟨route', captures', segments'⟩, hroute', hobject'⟩ := Option.bind_eq_some_iff.mp hq
  obtain ⟨hescapes, hslash, htarget⟩ := halike
  rw [hid, hid'] at hescapes hslash
  have hescapes : escapes id = escapes id' := Option.some.inj hescapes
  have hslash : slashed id = slashed id' := Option.some.inj hslash
  rw [spelling, hroute] at hid
  rw [spelling, hroute'] at hid'
  cases hid
  cases hid'
  refine eq_of_escapes ?_ hescapes
  have hfound := (trimSlashes_of_route hroute).2
  have hfound' := (trimSlashes_of_route hroute').2
  cases hstore : storeName object with
  | some name =>
    rw [decode_of_store hdecoder hfound hobject hstore,
      decode_of_store hdecoder hfound' hobject' hstore]
  | none =>
    cases object with
    | artifact _ | reference _ => cases hstore
    | buildKey key => cases key <;> cases hstore
    | proxy protocol url variant =>
      obtain ⟨found, htargetOf, hprotocol, hurl⟩ := targetOf_of_objectOf hobject
      obtain ⟨found', htargetOf', hprotocol', hurl'⟩ := targetOf_of_objectOf hobject'
      have hp : target server p = some found := by
        rw [target, hroute]
        exact htargetOf
      have hq : target server q = some found' := by
        rw [target, hroute']
        exact htargetOf'
      have hsame : found = found' := by
        rw [hp, hq] at htarget
        obtain hsame | ⟨_, _, heq, heq', happended, happended'⟩ := htarget
        · exact Option.some.inj hsame
        · cases heq
          cases heq'
          exact target_of_appended htargetOf htargetOf' (hprotocol.trans hprotocol'.symm)
            (hurl.trans hurl'.symm) happended happended'
      rw [decode_of_target hdecoder hfound htargetOf, decode_of_target hdecoder hfound' htargetOf',
        hsame, hslash]

theorem spelledAlike_of_eq (hp : resolve server proxy p accept = some object)
    (hq : resolve server proxy q accept' = some object) (h : spelling p = spelling q) :
    SpelledAlike server proxy p q := by
  obtain ⟨⟨route, captures, segments⟩, hroute, hobject⟩ := Option.bind_eq_some_iff.mp hp
  obtain ⟨⟨route', captures', segments'⟩, hroute', hobject'⟩ := Option.bind_eq_some_iff.mp hq
  refine ⟨by rw [h], by rw [h], .inl ?_⟩
  rw [target, target, hroute, hroute']
  show targetOf server route captures = targetOf server route' captures'
  by_cases hproxy : ∃ protocol url variant, object = .proxy protocol url variant
  · obtain ⟨protocol, url, variant, rfl⟩ := hproxy
    obtain ⟨found, hfound, -⟩ := targetOf_of_objectOf hobject
    obtain ⟨found', hfound', -⟩ := targetOf_of_objectOf hobject'
    have htext : routeText route segments = routeText route' segments' := by
      rw [spelling, spelling, hroute, hroute'] at h
      exact Option.some.inj h
    have hkind := (objectOf_kind hobject).symm.trans (objectOf_kind hobject')
    rw [hfound, hfound', target_of_text hroute hroute' hfound hfound' hkind htext]
  · have hstore : ∀ protocol url variant, object ≠ .proxy protocol url variant :=
      fun protocol url variant heq => hproxy ⟨protocol, url, variant, heq⟩
    rw [targetOf_of_store hobject hstore, targetOf_of_store hobject' hstore]

end

/-- Two paths of one object get the same kind and id, and then one owner on every ring,
exactly if they spell its name alike. -/
theorem placement_agrees_iff {ι U : Type} (server : Http.Server ι)
    (hdecoder : server.percentDecode = percentDecode) (proxy : ProxyService U) (p q : String)
    (accept accept' : Option String) (object : StoredObject U)
    (hp : resolve server proxy p accept = some object)
    (hq : resolve server proxy q accept' = some object) (method method' : Method) :
    ((classify method p).kind = (classify method' q).kind ∧
      (classify method p).id = (classify method' q).id ∧
      ∀ (sha256 : Bytes → Digest) (ring : Ring),
        (keyPosition sha256 (classify method p).kind (classify method p).id).bind ring.owner =
          (keyPosition sha256 (classify method' q).kind (classify method' q).id).bind ring.owner) ↔
    SpelledAlike server proxy p q := by
  obtain ⟨hpkind, hpid⟩ := classify_of_resolve hp method
  obtain ⟨hqkind, hqid⟩ := classify_of_resolve hq method'
  constructor
  · rintro ⟨-, hid, -⟩
    exact spelledAlike_of_eq hp hq (by rw [hpid, hqid, hid])
  · intro halike
    have hkind := hpkind.trans hqkind.symm
    have hid := eq_of_spelledAlike hdecoder hp hq hpid hqid halike
    refine ⟨hkind, hid, ?_⟩
    intro sha256 ring
    rw [hkind, hid]

/-! ## One object by two requests -/

def decodingServer : Http.Server (BitVec 128) := { Http.Server.sampleServer with percentDecode }

theorem routeOf_join {segments : List String} (hplain : ∀ t ∈ segments, '/' ∉ t.toList)
    (hne : segments ≠ []) : routeOf ("/" ++ join '/' segments) =
      (DataRoute.ofPath segments).map fun found => (found.1, found.2, segments) := by
  have hsplit : splitSlash (join '/' segments) = segments := split_join hplain hne
  rw [routeOf, stripPrefix_append, Option.bind_eq_bind, Option.bind_some, hsplit]
  cases DataRoute.ofPath segments <;> rfl

/-- Sixty-four zeros, the first of them escaped. -/
def escapedDigits : String := "%30" ++ String.ofList (List.replicate 63 '0')

def zeroDigits : String := String.ofList (List.replicate 64 '0')

def zeroArtifact : ArtifactId := ⟨⟨List.replicate 32 0, length_zeros⟩⟩

theorem decode_escapedDigits : percentDecode escapedDigits = some zeroDigits := by decide +kernel

theorem parse_zeroDigits : ArtifactId.parse (utf8 "sha256") (utf8 zeroDigits) =
    some zeroArtifact := by
  decide +kernel

theorem decode_artifact :
    decodingServer.decode [("algorithm", "sha256"), ("digest", escapedDigits)] =
      some [("algorithm", "sha256"), ("digest", zeroDigits)] := by
  have hword : percentDecode "sha256" = some "sha256" := by decide +kernel
  have hdecoder : decodingServer.percentDecode = percentDecode := rfl
  simp [Http.Server.decode, hdecoder, hword, decode_escapedDigits]

theorem decode_bazel :
    decodingServer.decode [("hash", escapedDigits)] = some [("hash", zeroDigits)] := by
  have hdecoder : decodingServer.percentDecode = percentDecode := rfl
  simp [Http.Server.decode, hdecoder, decode_escapedDigits]

theorem routeOf_artifact : routeOf ("/artifacts/sha256/" ++ escapedDigits) =
    some (.artifact, [("algorithm", "sha256"), ("digest", escapedDigits)],
      ["artifacts", "sha256", escapedDigits]) := by
  have hpath : "/artifacts/sha256/" ++ escapedDigits =
      "/" ++ join '/' ["artifacts", "sha256", escapedDigits] := by
    rw [← String.toList_inj]
    simp [join, List.intercalate]
  rw [hpath, routeOf_join (by decide +kernel) (List.cons_ne_nil _ _)]
  rfl

theorem routeOf_bazel : routeOf ("/build-cache/bazel/cas/" ++ escapedDigits) =
    some (.bazelCas, [("hash", escapedDigits)],
      ["build-cache", "bazel", "cas", escapedDigits]) := by
  have hpath : "/build-cache/bazel/cas/" ++ escapedDigits =
      "/" ++ join '/' ["build-cache", "bazel", "cas", escapedDigits] := by
    rw [← String.toList_inj]
    simp [join, List.intercalate]
  rw [hpath, routeOf_join (by decide +kernel) (List.cons_ne_nil _ _)]
  rfl

/-- An artifact is placed alike by the route of artifacts and by the one of Bazel, with the
same digit escaped. -/
theorem placement_of_one_digest :
    (classify .get ("/artifacts/sha256/" ++ escapedDigits)).kind =
        (classify .put ("/build-cache/bazel/cas/" ++ escapedDigits)).kind ∧
      (classify .get ("/artifacts/sha256/" ++ escapedDigits)).id =
        (classify .put ("/build-cache/bazel/cas/" ++ escapedDigits)).id := by
  have hartifact : resolve decodingServer SampleUrl.service
      ("/artifacts/sha256/" ++ escapedDigits) none = some (.artifact zeroArtifact) := by
    rw [resolve, routeOf_artifact]
    show objectOf decodingServer SampleUrl.service .artifact _ none = _
    rw [objectOf, decode_artifact]
    simp [List.lookup_cons, parse_zeroDigits]
  have hbazel : resolve decodingServer SampleUrl.service
      ("/build-cache/bazel/cas/" ++ escapedDigits) none = some (.artifact zeroArtifact) := by
    rw [resolve, routeOf_bazel]
    show objectOf decodingServer SampleUrl.service .bazelCas _ none = _
    rw [objectOf, decode_bazel]
    simp [parse_zeroDigits]
  have halike : SpelledAlike decodingServer SampleUrl.service
      ("/artifacts/sha256/" ++ escapedDigits) ("/build-cache/bazel/cas/" ++ escapedDigits) := by
    refine ⟨?_, ?_, .inl ?_⟩
    · rw [spelling, spelling, routeOf_artifact, routeOf_bazel]
      rfl
    · rw [spelling, spelling, routeOf_artifact, routeOf_bazel]
      rfl
    · rw [target, target, routeOf_artifact, routeOf_bazel]
      simp [targetOf, decode_artifact, decode_bazel]
  obtain ⟨hkind, hid, -⟩ := (placement_agrees_iff decodingServer rfl SampleUrl.service _ _ none none
    _ hartifact hbazel .get .put).mpr halike
  exact ⟨hkind, hid⟩

/-- An escape that stands for the character it replaces sends a reference elsewhere. -/
theorem placement_escaped :
    ¬ ∀ (p q : String) (object : StoredObject SampleUrl),
      resolve decodingServer SampleUrl.service p none = some object →
      resolve decodingServer SampleUrl.service q none = some object →
      (classify .get p).kind = (classify .get q).kind ∧
        (classify .get p).id = (classify .get q).id := by
  intro hall
  have hplain : resolve decodingServer SampleUrl.service "/references/a-b" none =
      some (.reference (utf8 "a-b")) := by decide +kernel
  have hescaped : resolve decodingServer SampleUrl.service "/references/a%2Db" none =
      some (.reference (utf8 "a-b")) := by decide +kernel
  have hid := (hall _ _ _ hplain hescaped).2
  revert hid
  decide +kernel

end Flywheel.Agent
