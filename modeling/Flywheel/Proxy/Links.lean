import Flywheel.Lib.Text
import Flywheel.Proxy.Service

/-!
# Download links (`src/proxy/mod.rs`, `transport/http/packages.rs`)

In the documents it hands out, the proxy replaces the links to files by links to itself:
`href` and `data-provenance` of the anchors of a Python project page, `url` and
`provenance` of the files of its JSON form, and `tarball` in npm metadata. The new link holds
the joined URL in base64url. Python keeps the fragment beside it, which carries the file's
hash, and clients ask for companion files by appending `.metadata` or `.asc` to the path.

The rewriters replace a link when its origin is allowed (`rewriteLink`); the routes accept
the encoded URL only if it is also `http` or `https` and has no user name and no password
(`encodedUrl`). `leadsBack_iff` says when the new link leads back to the old one.

What these functions take from the `url`, `base64` and `html_escape` crates is a parameter
(`LinkLib`); `LinkLib.Lawful` lists what is relied upon.
-/

set_option autoImplicit false

namespace Flywheel

open Lib

/-! ## The crates -/

structure LinkLib (U : Type) where
  fragment : U → Option String
  setFragment : U → Option String → U
  query : U → Option String
  makeRelative : U → U → Option String
  /-- `URL_SAFE_NO_PAD.encode`. -/
  base64Encode : ByteArray → String
  decodeHtmlEntities : String → String

def companionSuffixes : List String := [".metadata", ".asc"]

structure LinkLib.Lawful {U : Type} (urls : UrlLib U) (links : LinkLib U) : Prop where
  decode_encode : ∀ bytes, urls.base64Decode (links.base64Encode bytes) = some bytes
  encode_plain : ∀ bytes c, c ∈ (links.base64Encode bytes).toList → base64Plain c = true
  parse_asStr : ∀ u, urls.parse (urls.asStr u) = .ok u
  fragment_bare : ∀ u, links.fragment (links.setFragment u none) = none
  bare_bare : ∀ u, links.setFragment (links.setFragment u none) none = links.setFragment u none
  origin_bare : ∀ u, urls.origin (links.setFragment u none) = urls.origin u
  scheme_bare : ∀ u, urls.scheme (links.setFragment u none) = urls.scheme u
  username_bare : ∀ u, urls.username (links.setFragment u none) = urls.username u
  password_bare : ∀ u, urls.password (links.setFragment u none) = urls.password u
  /-- An opaque path loses its trailing spaces with the fragment. -/
  path_bare : ∀ u, (urls.scheme u = "http" ∨ urls.scheme u = "https") →
    urls.path (links.setFragment u none) = urls.path u
  query_bare : ∀ u, links.query (links.setFragment u none) = links.query u
  /-- The path of an `http` or `https` URL can be extended. -/
  path_setPath : ∀ u suffix, (urls.scheme u = "http" ∨ urls.scheme u = "https") →
    suffix ∈ companionSuffixes → urls.path (urls.setPath u (urls.path u ++ suffix)) =
      urls.path u ++ suffix
  /-- The origin of a `blob` URL is in its path. -/
  origin_setPath : ∀ u path, (urls.scheme u = "http" ∨ urls.scheme u = "https") →
    urls.origin (urls.setPath u path) = urls.origin u
  query_setPath : ∀ u path, links.query (urls.setPath u path) = links.query u
  fragment_setPath : ∀ u path, links.fragment (urls.setPath u path) = links.fragment u
  /-- A character reference starts with an ampersand. -/
  decode_append : ∀ p s, '&' ∉ p.toList →
    links.decodeHtmlEntities (p ++ s) = p ++ links.decodeHtmlEntities s
  decode_empty : links.decodeHtmlEntities "" = ""

/-! ## Writing links -/

/-- `ChannelContext::route_prefix`; the bare routes have no scope. -/
def routePrefix : Option ChannelId → String
  | none => ""
  | some c => "/channels/" ++ c.text

inductive LinkKind where
  | pythonHtml
  | pythonJson
  | npm
  deriving DecidableEq

def LinkKind.protocol : LinkKind → Protocol
  | .pythonHtml | .pythonJson => .python
  | .npm => .npm

namespace ProxyService

variable {U : Type} (service : ProxyService U) (links : LinkLib U)

/-- What the value of an attribute or of a JSON string stands for. -/
def readLink : LinkKind → String → String
  | .pythonHtml, value => links.decodeHtmlEntities value
  | .pythonJson, value | .npm, value => value

def encodeUrl (url : U) : String := links.base64Encode (service.urls.asStr url).toUTF8

def routedDownloadUrl (routePrefix route : String) (upstream : U) : String :=
  let fragment := links.fragment upstream
  let encoded := service.encodeUrl links (links.setFragment upstream none)
  let routed := routePrefix ++ route ++ "/" ++ encoded
  match fragment with
  | some fragment => routed ++ "#" ++ fragment
  | none => routed

/-- The link that replaces one to `url`. -/
def downloadLink (kind : LinkKind) (routePrefix : String) (url : U) : String :=
  match kind with
  | .pythonHtml | .pythonJson =>
    service.routedDownloadUrl links routePrefix "/proxy/python/files" url
  -- the tarball link is the whole URL, its fragment included
  | .npm => routePrefix ++ "/proxy/npm/-/tarball/" ++ service.encodeUrl links url

/-- What `rewrite_python`, `rewrite_python_json` and `rewrite_tarballs` replace a value by,
on a page that holds download links; `none` leaves it. -/
def rewriteLink (kind : LinkKind) (upstream : U) (routePrefix value : String) : Option String :=
  match service.urls.join upstream (readLink links kind value) with
  | .error _ => none
  | .ok url =>
    if service.Allows kind.protocol url then some (service.downloadLink links kind routePrefix url)
    else none

/-- The handler that `rewrite_python` attaches to anchors. The list of projects links to
project pages, not to files. -/
def rewriteAnchor (upstream : U) (routePrefix : String) (isProjectPage : Bool)
    (href provenance : Option String) : Option String × Option String :=
  let rewrite (value : String) : String :=
    (service.rewriteLink links .pythonHtml upstream routePrefix value).getD value
  if isProjectPage then (href.map rewrite, provenance.map rewrite)
  else
    (href.map fun value =>
      match service.urls.join upstream (links.decodeHtmlEntities value) with
      | .error _ => value
      | .ok url =>
        match links.makeRelative upstream url with
        | none => value
        | some relative =>
          if "../".toList.isPrefixOf relative.toList then value
          else routePrefix ++ "/proxy/python/simple/" ++
            String.ofList (trimStart relative.toList), provenance)
where
  /-- `trim_start_matches("./")`. -/
  trimStart : List Char → List Char
    | '.' :: '/' :: rest => trimStart rest
    | rest => rest

/-! ## Following links -/

/-- `python_file`: the target of a file or of one of its companions. -/
def pythonFile (encoded : String) : Except ProxyError U :=
  let found := companionSuffixes.findSome? fun suffix =>
    (stripSuffix suffix encoded).map fun encoded => (encoded, suffix)
  service.encodedUrl .python (found.getD (encoded, "")).1 (found.getD (encoded, "")).2

/-- The tarball branch of `npm`; `none` asks for metadata. -/
def npmTarball (path : String) : Option (Except ProxyError U) :=
  (stripPrefix "-/tarball/" path).map fun encoded => service.encodedUrl .npm encoded ""

/-- What is asked of the upstream when a client follows a link to `/proxy/python/files/{encoded}`
or `/proxy/npm/{*path}`; the fragment stays with the client. -/
def follow (kind : LinkKind) (routePrefix link : String) : Option (Except ProxyError U) :=
  let path := (cut '#' link).1
  match kind with
  | .pythonHtml | .pythonJson =>
    (stripPrefix (routePrefix ++ "/proxy/python/files/") path).bind fun encoded =>
      if '/' ∈ encoded.toList then none else some (service.pythonFile encoded)
  | .npm => (stripPrefix (routePrefix ++ "/proxy/npm/") path).bind service.npmTarball

/-- The link of a companion file. -/
def companion (link suffix : String) : String := (cut '#' link).1 ++ suffix

/-! ## What a link should do -/

/-- Following the link requests `url`; a request carries no fragment. -/
def Requests (kind : LinkKind) (routePrefix link : String) (url : U) : Prop :=
  ∃ target, service.follow kind routePrefix link = some (.ok target) ∧
    links.setFragment target none = url

/-- Following the link requests `url` with the suffix appended to its path. -/
def RequestsCompanion (kind : LinkKind) (routePrefix link suffix : String) (url : U) : Prop :=
  ∃ target, service.follow kind routePrefix link = some (.ok target) ∧
    service.urls.origin target = service.urls.origin url ∧
    service.urls.path target = service.urls.path url ++ suffix ∧
    links.query target = links.query url ∧ links.fragment target = none

/-- The proxy would not fetch the file that a value links to. -/
def Refuses (kind : LinkKind) (upstream : U) (value : String) : Prop :=
  ∀ url, service.urls.join upstream (readLink links kind value) = .ok url →
    ∃ e, service.encodedUrl kind.protocol
      (service.encodeUrl links (links.setFragment url none)) "" = .error e

/-- A replaced link leads back to what it replaced, and a link that would be refused is not
replaced. -/
def LeadsBack (kind : LinkKind) (upstream : U) (routePrefix value : String) : Prop :=
  (∀ link, service.rewriteLink links kind upstream routePrefix value = some link →
    ∃ url, service.urls.join upstream (readLink links kind value) = .ok url ∧
      service.Requests links kind routePrefix (readLink links kind link)
        (links.setFragment url none) ∧
      (kind ≠ .npm →
        (∀ suffix ∈ companionSuffixes, service.RequestsCompanion links kind routePrefix
          (companion (readLink links kind link) suffix) suffix url) ∧
        (cut '#' (readLink links kind link)).2 = links.fragment url)) ∧
  (service.Refuses links kind upstream value →
    service.rewriteLink links kind upstream routePrefix value = none)

/-- The encoded form of a URL is accepted, origin apart. -/
def Encodable (url : U) : Prop :=
  (service.urls.scheme url = "http" ∨ service.urls.scheme url = "https") ∧
    service.urls.username url = "" ∧ service.urls.password url = none

/-- A link of an allowed origin can be encoded, and its fragment can stand in an attribute
as it is. -/
def Replaceable (kind : LinkKind) (upstream : U) (value : String) : Prop :=
  ∀ url, service.urls.join upstream (readLink links kind value) = .ok url →
    service.Allows kind.protocol url → service.Encodable url ∧
      (kind = .pythonHtml → ∀ fragment, links.fragment url = some fragment →
        links.decodeHtmlEntities fragment = fragment)

end ProxyService

/-! ## The text of links -/

/-- A character that ends the path of a link or starts a character reference. -/
def linkMark (c : Char) : Bool := c == '#' || c == '&'

theorem not_linkMark_of_plain {c : Char} (h : base64Plain c = true) : linkMark c = false := by
  cases hmark : linkMark c with
  | false => rfl
  | true =>
    rcases (Bool.or_eq_true _ _).mp hmark with hc | hc
    all_goals
      rw [eq_of_beq hc] at h
      cases h

theorem crockford_not_linkMark (d : Nat) : linkMark (Char.ofNat (crockford d).toNat) = false := by
  have key : ∀ x < 32, linkMark (Char.ofNat (crockford x).toNat) = false := by decide
  by_cases hd : d < 32
  · exact key d hd
  · rw [crockford, List.getD_eq_getElem?_getD, List.getElem?_eq_none (by simpa using hd)]
    decide

theorem not_linkMark_of_all {text : String}
    (h : text.toList.all (fun c => !linkMark c) = true) : ∀ c ∈ text.toList, linkMark c = false := by
  intro c hc
  simpa using List.all_eq_true.mp h c hc

theorem routePrefix_not_linkMark (scope : Option ChannelId) :
    ∀ c ∈ (routePrefix scope).toList, linkMark c = false := by
  cases scope with
  | none => simp [routePrefix]
  | some channel =>
    have hroute : ∀ c ∈ "/channels/".toList, linkMark c = false :=
      not_linkMark_of_all (by decide)
    intro c hc
    rw [routePrefix, String.toList_append, List.mem_append] at hc
    rcases hc with hc | hc
    · exact hroute c hc
    · rw [ChannelId.text, String.toList_ofList] at hc
      obtain ⟨b, hb, rfl⟩ := List.mem_map.mp hc
      obtain ⟨d, -, rfl⟩ := List.mem_map.mp hb
      exact crockford_not_linkMark d

namespace ProxyService

section Lawful

variable {U : Type} {service : ProxyService U} {links : LinkLib U}
variable (laws : links.Lawful service.urls)

include laws

/-! ## Encoded URLs -/

/-- The routes get back the URL that was encoded. -/
theorem encodedUrl_encodeUrl (protocol : Protocol) (url : U) (suffix : String) :
    service.encodedUrl protocol (service.encodeUrl links url) suffix =
      if (service.urls.scheme url ≠ "http" ∧ service.urls.scheme url ≠ "https") ∨
          service.urls.username url ≠ "" ∨ (service.urls.password url).isSome then
        .error .invalidEncodedUrl
      else
        let target := if suffix ≠ "" then
          service.urls.setPath url (service.urls.path url ++ suffix) else url
        (service.checkOrigin protocol target).map fun _ => target := by
  rw [encodedUrl, encodeUrl, laws.decode_encode]
  simp only [fromUTF8?_toUTF8, laws.parse_asStr]

/-- An accepted URL can be encoded. -/
theorem encodable_of_encodedUrl {protocol : Protocol} {url target : U} {suffix : String}
    (h : service.encodedUrl protocol (service.encodeUrl links url) suffix = .ok target) :
    service.Encodable url := by
  rw [encodedUrl_encodeUrl laws] at h
  split at h
  · cases h
  · rename_i hgood
    simp only [not_or, not_and_or, not_not, Bool.not_eq_true, Option.isSome_eq_false_iff,
      Option.isNone_iff_eq_none] at hgood
    exact ⟨hgood.1, hgood.2.1, hgood.2.2⟩

theorem encodedUrl_of_encodable {protocol : Protocol} {url : U} (h : service.Encodable url)
    (hallows : service.Allows protocol url) {suffix : String} :
    service.encodedUrl protocol (service.encodeUrl links url) suffix =
      .ok (if suffix ≠ "" then service.urls.setPath url (service.urls.path url ++ suffix)
        else url) := by
  obtain ⟨hscheme, huser, hpassword⟩ := h
  rw [encodedUrl_encodeUrl laws, if_neg]
  · have hallowed : ∀ target : U, service.urls.origin target = service.urls.origin url →
        service.checkOrigin protocol target = .ok () := by
      intro target horigin
      rw [checkOrigin, if_pos]
      rw [Allows, horigin]
      exact hallows
    dsimp only
    split
    · rw [hallowed _ (laws.origin_setPath _ _ hscheme)]
      rfl
    · rw [hallowed _ rfl]
      rfl
  · rintro (hbad | hbad | hbad)
    · exact hscheme.elim hbad.1 hbad.2
    · exact hbad huser
    · rw [hpassword] at hbad
      cases hbad

/-- Without its fragment, a URL is as good as before. -/
theorem encodable_bare {url : U} :
    service.Encodable (links.setFragment url none) ↔ service.Encodable url := by
  rw [Encodable, laws.scheme_bare, laws.username_bare, laws.password_bare, Encodable]

theorem allows_bare {protocol : Protocol} {url : U} :
    service.Allows protocol (links.setFragment url none) ↔ service.Allows protocol url := by
  rw [Allows, laws.origin_bare, Allows]

theorem not_mem_encodeUrl {url : U} {c : Char} (hc : base64Plain c = false) :
    c ∉ (service.encodeUrl links url).toList := by
  intro hmem
  rw [laws.encode_plain _ c hmem] at hc
  cases hc

theorem pythonFile_encodeUrl (url : U) :
    service.pythonFile (service.encodeUrl links url) =
      service.encodedUrl .python (service.encodeUrl links url) "" := by
  have hdot : '.' ∉ (service.encodeUrl links url).toList := not_mem_encodeUrl laws (by decide)
  have hfound : ∀ suffix ∈ companionSuffixes,
      stripSuffix suffix (service.encodeUrl links url) = none := by
    intro suffix hsuffix
    refine stripSuffix_eq_none ?_ hdot
    have key : ∀ s ∈ companionSuffixes, '.' ∈ s.toList := by decide
    exact key suffix hsuffix
  rw [pythonFile, List.findSome?_eq_none_iff.mpr]
  · rfl
  · intro suffix hsuffix
    rw [hfound suffix hsuffix]
    rfl

omit laws in
theorem pythonFile_companion (url : U) {suffix : String} (hsuffix : suffix ∈ companionSuffixes) :
    service.pythonFile (service.encodeUrl links url ++ suffix) =
      service.encodedUrl .python (service.encodeUrl links url) suffix := by
  -- `.metadata` is tried first, and no text ends in both
  have hother : stripSuffix ".metadata" (service.encodeUrl links url ++ ".asc") = none := by
    have hmetadata : ".metadata".toList.reverse = ['a', 't', 'a', 'd', 'a', 't', 'e', 'm', '.'] := by
      decide
    have hasc : ".asc".toList.reverse = ['c', 's', 'a', '.'] := by decide
    rw [stripSuffix_eq, String.toList_append, List.reverse_append, hmetadata, hasc]
    rfl
  rw [pythonFile, companionSuffixes]
  rcases List.mem_pair.mp hsuffix with rfl | rfl
  · simp only [List.findSome?_cons, stripSuffix_append]
    rfl
  · simp only [List.findSome?_cons, stripSuffix_append, hother]
    rfl

/-! ## What clients read -/

/-- The path of a rewritten Python link. -/
def fileBase (service : ProxyService U) (links : LinkLib U) (scope : Option ChannelId) (url : U) :
    String :=
  routePrefix scope ++ "/proxy/python/files/" ++
    service.encodeUrl links (links.setFragment url none)

theorem fileBase_not_mem (scope : Option ChannelId) (url : U) {c : Char} (hc : linkMark c = true) :
    c ∉ (fileBase service links scope url).toList := by
  have hroute : ∀ c ∈ "/proxy/python/files/".toList, linkMark c = false :=
    not_linkMark_of_all (by decide)
  intro hmem
  rw [fileBase, String.toList_append, String.toList_append, List.mem_append, List.mem_append]
    at hmem
  have hnot : linkMark c = false := by
    rcases hmem with (hmem | hmem) | hmem
    · exact routePrefix_not_linkMark scope c hmem
    · exact hroute c hmem
    · exact not_linkMark_of_plain (laws.encode_plain _ c hmem)
  rw [hc] at hnot
  cases hnot

omit laws in
theorem routedDownloadUrl_eq (scope : Option ChannelId) (url : U) :
    service.routedDownloadUrl links (routePrefix scope) "/proxy/python/files" url =
      fileBase service links scope url ++
        match links.fragment url with
        | some fragment => "#" ++ fragment
        | none => "" := by
  have hroute : "/proxy/python/files" ++ "/" = "/proxy/python/files/" := by decide
  have hbase : routePrefix scope ++ "/proxy/python/files" ++ "/" =
      routePrefix scope ++ "/proxy/python/files/" := by
    rw [String.append_assoc, hroute]
  simp only [routedDownloadUrl, fileBase, hbase]
  cases links.fragment url with
  | none => simp
  | some fragment => simp [String.append_assoc]

/-- A client that reads a rewritten Python link finds its path as it was written; the
fragment is read like the rest of the document. -/
theorem cut_readLink {kind : LinkKind} (hkind : kind ≠ .npm) (scope : Option ChannelId) (url : U) :
    cut '#' (readLink links kind (service.downloadLink links kind (routePrefix scope) url)) =
      (fileBase service links scope url, (links.fragment url).map (readLink links kind)) := by
  have hhash := fileBase_not_mem laws scope url (c := '#') (by decide)
  have hamp := fileBase_not_mem laws scope url (c := '&') (by decide)
  have hread : readLink links kind (service.downloadLink links kind (routePrefix scope) url) =
      fileBase service links scope url ++
        match links.fragment url with
        | some fragment => "#" ++ readLink links kind fragment
        | none => "" := by
    cases kind with
    | npm => exact absurd rfl hkind
    | pythonJson =>
      rw [downloadLink, routedDownloadUrl_eq]
      cases links.fragment url <;> rfl
    | pythonHtml =>
      rw [downloadLink, routedDownloadUrl_eq, readLink, laws.decode_append _ _ hamp]
      cases links.fragment url with
      | none => rw [laws.decode_empty]
      | some fragment =>
        rw [laws.decode_append _ _ (by decide)]
        rfl
  rw [hread]
  cases links.fragment url with
  | none =>
    simp only [String.append_empty]
    exact cut_of_not_mem hhash
  | some fragment =>
    have hsingle : ("#" : String) = String.singleton '#' := by decide
    rw [← String.append_assoc, hsingle]
    exact cut_append hhash _

/-- Where a link with the path of a rewritten one leads. -/
theorem follow_file {kind : LinkKind} (hkind : kind ≠ .npm) {scope : Option ChannelId} {url : U}
    {link : String} (hlink : (cut '#' link).1 = fileBase service links scope url) :
    service.follow kind (routePrefix scope) link =
      some (service.encodedUrl .python (service.encodeUrl links (links.setFragment url none)) "") := by
  have hslash : '/' ∉ (service.encodeUrl links (links.setFragment url none)).toList :=
    not_mem_encodeUrl laws (by decide)
  cases kind with
  | npm => exact absurd rfl hkind
  | pythonHtml | pythonJson =>
    simp only [follow, hlink, fileBase, stripPrefix_append, Option.bind_some]
    rw [if_neg hslash, pythonFile_encodeUrl laws]

theorem follow_companion {kind : LinkKind} (hkind : kind ≠ .npm) {scope : Option ChannelId}
    {url : U} {link suffix : String} (hlink : (cut '#' link).1 = fileBase service links scope url)
    (hsuffix : suffix ∈ companionSuffixes) :
    service.follow kind (routePrefix scope) (companion link suffix) =
      some (service.encodedUrl .python (service.encodeUrl links (links.setFragment url none))
        suffix) := by
  have hmarks : ∀ s ∈ companionSuffixes, '#' ∉ s.toList ∧ '/' ∉ s.toList := by decide
  have hhash : '#' ∉ (fileBase service links scope url ++ suffix).toList := by
    rw [String.toList_append, List.mem_append, not_or]
    exact ⟨fileBase_not_mem laws scope url (by decide), (hmarks suffix hsuffix).1⟩
  have hslash : '/' ∉
      (service.encodeUrl links (links.setFragment url none) ++ suffix).toList := by
    rw [String.toList_append, List.mem_append, not_or]
    exact ⟨not_mem_encodeUrl laws (by decide), (hmarks suffix hsuffix).2⟩
  have hpath : (cut '#' (companion link suffix)).1 =
      routePrefix scope ++ "/proxy/python/files/" ++
        (service.encodeUrl links (links.setFragment url none) ++ suffix) := by
    rw [companion, hlink, cut_of_not_mem hhash, fileBase, String.append_assoc]
  cases kind with
  | npm => exact absurd rfl hkind
  | pythonHtml | pythonJson =>
    simp only [follow, hpath, stripPrefix_append, Option.bind_some]
    rw [if_neg hslash, pythonFile_companion _ hsuffix]

theorem follow_tarball (scope : Option ChannelId) (url : U) :
    service.follow .npm (routePrefix scope)
        (routePrefix scope ++ "/proxy/npm/-/tarball/" ++ service.encodeUrl links url) =
      some (service.encodedUrl .npm (service.encodeUrl links url) "") := by
  have hroute : "/proxy/npm/-/tarball/" = "/proxy/npm/" ++ "-/tarball/" := by decide
  have hmarks : '#' ∉ "/proxy/npm/-/tarball/".toList := by decide
  have hhash : '#' ∉ (routePrefix scope ++ "/proxy/npm/-/tarball/" ++
      service.encodeUrl links url).toList := by
    rw [String.toList_append, String.toList_append, List.mem_append, List.mem_append, not_or,
      not_or]
    refine ⟨⟨fun hmem => ?_, hmarks⟩, not_mem_encodeUrl laws (by decide)⟩
    exact absurd (routePrefix_not_linkMark scope _ hmem) (by decide)
  simp only [follow, cut_of_not_mem hhash]
  rw [hroute, ← String.append_assoc, String.append_assoc, stripPrefix_append]
  simp [npmTarball, stripPrefix_append]

/-! ## When links lead back -/

omit laws in
/-- The rewriters replace exactly the links of allowed origins. -/
theorem rewriteLink_eq_some {kind : LinkKind} {upstream : U} {routePrefix value link : String} :
    service.rewriteLink links kind upstream routePrefix value = some link ↔
      ∃ url, service.urls.join upstream (readLink links kind value) = .ok url ∧
        service.Allows kind.protocol url ∧ service.downloadLink links kind routePrefix url = link := by
  unfold rewriteLink
  cases service.urls.join upstream (readLink links kind value) with
  | error reason => simp
  | ok url => simp

/-- A link that leads back was encodable. -/
theorem replaceable_of_leadsBack {kind : LinkKind} {upstream : U} {scope : Option ChannelId}
    {value : String} (h : service.LeadsBack links kind upstream (routePrefix scope) value) :
    service.Replaceable links kind upstream value := by
  intro url hurl hallows
  obtain ⟨url', hurl', ⟨target, hfollow, -⟩, hpython⟩ :=
    h.1 _ (rewriteLink_eq_some.mpr ⟨url, hurl, hallows, rfl⟩)
  obtain rfl : url' = url := Except.ok.inj (hurl'.symm.trans hurl)
  by_cases hkind : kind = .npm
  · subst hkind
    rw [readLink, downloadLink, follow_tarball laws] at hfollow
    exact ⟨encodable_of_encodedUrl laws (Option.some.inj hfollow), nofun⟩
  · have hcut := cut_readLink laws hkind scope url'
    rw [follow_file laws hkind (congrArg Prod.fst hcut)] at hfollow
    have hgood := encodable_of_encodedUrl laws (Option.some.inj hfollow)
    refine ⟨(encodable_bare laws).mp hgood, ?_⟩
    rintro rfl fragment hfragment
    obtain ⟨-, hkept⟩ := hpython hkind
    rw [hcut, hfragment] at hkept
    exact Option.some.inj hkept

/-- A link that is encodable leads back. -/
theorem leadsBack_of_replaceable {kind : LinkKind} {upstream : U} {scope : Option ChannelId}
    {value : String} (h : service.Replaceable links kind upstream value) :
    service.LeadsBack links kind upstream (routePrefix scope) value := by
  constructor
  · intro link hlink
    obtain ⟨url, hurl, hallows, rfl⟩ := rewriteLink_eq_some.mp hlink
    obtain ⟨hgood, hfragment⟩ := h url hurl hallows
    refine ⟨url, hurl, ?_⟩
    by_cases hkind : kind = .npm
    · subst hkind
      have hallowsNpm : service.Allows .npm url := hallows
      refine ⟨⟨url, ?_, rfl⟩, fun hnpm => absurd rfl hnpm⟩
      rw [readLink, downloadLink, follow_tarball laws,
        encodedUrl_of_encodable laws hgood hallowsNpm]
      rfl
    · have hcut := cut_readLink laws hkind scope url
      have hpath := congrArg Prod.fst hcut
      have hbare := (encodable_bare laws).mpr hgood
      have hprotocol : kind.protocol = .python := by
        cases kind with
        | npm => exact absurd rfl hkind
        | _ => rfl
      have hallowsBare : service.Allows .python (links.setFragment url none) :=
        (allows_bare laws).mpr (hprotocol ▸ hallows)
      refine ⟨⟨links.setFragment url none, ?_, laws.bare_bare url⟩, fun _ => ⟨?_, ?_⟩⟩
      · rw [follow_file laws hkind hpath, encodedUrl_of_encodable laws hbare hallowsBare]
        rfl
      · intro suffix hsuffix
        have hne : suffix ≠ "" := by
          rintro rfl
          revert hsuffix
          decide
        refine ⟨service.urls.setPath (links.setFragment url none)
          (service.urls.path (links.setFragment url none) ++ suffix), ?_, ?_, ?_, ?_, ?_⟩
        · rw [follow_companion laws hkind hpath hsuffix,
            encodedUrl_of_encodable laws hbare hallowsBare, if_pos hne]
        · rw [laws.origin_setPath _ _ hbare.1, laws.origin_bare]
        · rw [laws.path_setPath _ _ hbare.1 hsuffix, laws.path_bare _ hgood.1]
        · rw [laws.query_setPath, laws.query_bare]
        · rw [laws.fragment_setPath, laws.fragment_bare]
      · rw [hcut]
        cases hf : links.fragment url with
        | none => rfl
        | some fragment =>
          cases kind with
          | npm => exact absurd rfl hkind
          | pythonJson => rfl
          | pythonHtml => exact congrArg some (hfragment rfl fragment hf)
  · intro hrefuses
    cases hrewrite : service.rewriteLink links kind upstream (routePrefix scope) value with
    | none => rfl
    | some link =>
      obtain ⟨url, hurl, hallows, -⟩ := rewriteLink_eq_some.mp hrewrite
      obtain ⟨e, he⟩ := hrefuses url hurl
      rw [encodedUrl_of_encodable laws ((encodable_bare laws).mpr (h url hurl hallows).1)
        ((allows_bare laws).mpr hallows)] at he
      cases he

/-- A replaced link leads back, and a link the proxy would refuse is left, exactly if links
of allowed origins are `http` or `https` URLs without user name and password and, in HTML,
have a fragment without character references. -/
theorem leadsBack_iff (kind : LinkKind) (upstream : U) (scope : Option ChannelId)
    (value : String) :
    service.LeadsBack links kind upstream (routePrefix scope) value ↔
      service.Replaceable links kind upstream value :=
  ⟨replaceable_of_leadsBack laws, leadsBack_of_replaceable laws⟩

end Lawful

end ProxyService

/-! ## One upstream

The URLs of one host, with or without a user name. On them these functions do what the
crates do; dot segments and percent-encoding do not occur. -/

structure SampleUrl where
  user : Bool
  path : String
  query : Option String
  fragment : Option String
  path_plain : '#' ∉ path.toList ∧ '?' ∉ path.toList
  query_plain : ∀ q, query = some q → '#' ∉ q.toList
  deriving DecidableEq

namespace SampleUrl

def base (user : Bool) : String :=
  if user then "https://user@pypi.example" else "https://pypi.example"

/-- A URL from what follows its host. -/
def ofTail (user : Bool) (tail : String) : SampleUrl where
  user := user
  path := (cut '?' (cut '#' tail).1).1
  query := (cut '?' (cut '#' tail).1).2
  fragment := (cut '#' tail).2
  path_plain := ⟨fun h => not_mem_cut '#' tail (mem_of_mem_cut.1 h), not_mem_cut '?' _⟩
  query_plain q hq h := not_mem_cut '#' tail (mem_of_mem_cut.2 q hq h)

def parse (s : String) : Except String SampleUrl :=
  match stripPrefix (base true) s, stripPrefix (base false) s with
  | some tail, _ => .ok (ofTail true tail)
  | none, some tail => .ok (ofTail false tail)
  | none, none => .error "relative URL without a base"

/-- The path with the query. -/
def resource (u : SampleUrl) : String :=
  match u.query with
  | some query => u.path ++ String.singleton '?' ++ query
  | none => u.path

def tail (u : SampleUrl) : String :=
  match u.fragment with
  | some fragment => u.resource ++ String.singleton '#' ++ fragment
  | none => u.resource

/-- The path up to its last segment. -/
def directory (u : SampleUrl) : String :=
  String.ofList (u.path.toList.reverse.dropWhile (· ≠ '/')).reverse

/-- `&amp;` and `&lt;`. -/
def decodeEntities : List Char → List Char
  | '&' :: 'a' :: 'm' :: 'p' :: ';' :: rest => '&' :: decodeEntities rest
  | '&' :: 'l' :: 't' :: ';' :: rest => '<' :: decodeEntities rest
  | c :: rest => c :: decodeEntities rest
  | [] => []

def urls : UrlLib SampleUrl where
  parse := parse
  join u value :=
    match parse value with
    | .ok url => .ok url
    | .error _ => .ok (ofTail u.user (u.directory ++ value))
  asStr u := base u.user ++ u.tail
  origin _ := .tuple "https" "pypi.example" 443
  scheme _ := "https"
  username u := if u.user then "user" else ""
  password _ := none
  path := path
  setPath u path :=
    if h : '#' ∉ path.toList ∧ '?' ∉ path.toList then { u with path := path, path_plain := h } else u
  base64Decode s := (base64urlDecode s.toList).map fun bytes => ⟨bytes.toArray⟩

def links : LinkLib SampleUrl where
  fragment := fragment
  setFragment u fragment := { u with fragment := fragment }
  query := query
  makeRelative _ _ := none
  base64Encode bytes := String.ofList (base64url bytes.data.toList)
  decodeHtmlEntities s := String.ofList (decodeEntities s.toList)

theorem resource_plain (u : SampleUrl) : '#' ∉ u.resource.toList := by
  rw [resource]
  split
  · rename_i query hquery
    simp [String.toList_append, u.path_plain.1, u.query_plain query hquery]
  · exact u.path_plain.1

theorem cut_resource (u : SampleUrl) : cut '?' u.resource = (u.path, u.query) := by
  rw [resource]
  split
  · rename_i query hquery
    rw [cut_append u.path_plain.2, hquery]
  · rename_i hquery
    rw [cut_of_not_mem u.path_plain.2, hquery]

theorem cut_tail (u : SampleUrl) : cut '#' u.tail = (u.resource, u.fragment) := by
  rw [tail]
  split
  · rename_i fragment hfragment
    rw [cut_append u.resource_plain, hfragment]
  · rename_i hfragment
    rw [cut_of_not_mem u.resource_plain, hfragment]

theorem ofTail_tail (u : SampleUrl) : ofTail u.user u.tail = u := by
  have hresource := u.cut_resource
  have htail := u.cut_tail
  cases u
  simp only [ofTail, htail, hresource]

theorem parse_asStr (u : SampleUrl) : parse (base u.user ++ u.tail) = .ok u := by
  have huser : (base true).toList = "https://".toList ++ "user@pypi.example".toList := by
    decide
  have hplain : (base false).toList = "https://".toList ++ "pypi.example".toList := by
    decide
  rw [parse]
  cases hu : u.user with
  | true =>
    rw [stripPrefix_append, ← hu]
    exact congrArg Except.ok u.ofTail_tail
  | false =>
    have hnone : stripPrefix (base true) (base false ++ u.tail) = none := by
      rw [stripPrefix, String.toList_append, huser, hplain]
      rfl
    rw [hnone, stripPrefix_append, ← hu]
    exact congrArg Except.ok u.ofTail_tail

theorem decodeEntities_append {p : List Char} (h : '&' ∉ p) (s : List Char) :
    decodeEntities (p ++ s) = p ++ decodeEntities s := by
  induction p with
  | nil => rfl
  | cons c p ih =>
    obtain ⟨hc, hp⟩ := not_or.mp (mt List.mem_cons.mpr h)
    rw [List.cons_append, decodeEntities, ih hp]
    · rfl
    · rintro rest rfl
      exact absurd rfl hc
    · rintro rest rfl
      exact absurd rfl hc

theorem lawful : links.Lawful urls where
  decode_encode bytes := by
    simp [urls, links, base64urlDecode_base64url]
  encode_plain bytes c hc := by
    have hmem : c ∈ base64url bytes.data.toList := by simpa [links] using hc
    exact base64Plain_of_mem hmem
  parse_asStr := parse_asStr
  fragment_bare _ := rfl
  bare_bare _ := rfl
  origin_bare _ := rfl
  scheme_bare _ := rfl
  username_bare _ := rfl
  password_bare _ := rfl
  path_bare _ _ := rfl
  query_bare _ := rfl
  path_setPath u suffix _ hsuffix := by
    have hmarks : ∀ s ∈ companionSuffixes, '#' ∉ s.toList ∧ '?' ∉ s.toList := by decide
    have hplain : '#' ∉ (u.path ++ suffix).toList ∧ '?' ∉ (u.path ++ suffix).toList := by
      simp only [String.toList_append, List.mem_append, not_or]
      exact ⟨⟨u.path_plain.1, (hmarks suffix hsuffix).1⟩, u.path_plain.2, (hmarks suffix hsuffix).2⟩
    show (urls.setPath u (u.path ++ suffix)).path = u.path ++ suffix
    unfold urls
    dsimp only
    rw [dif_pos hplain]
  origin_setPath _ _ _ := rfl
  query_setPath u path := by
    show (urls.setPath u path).query = u.query
    unfold urls
    dsimp only
    split <;> rfl
  fragment_setPath u path := by
    show (urls.setPath u path).fragment = u.fragment
    unfold urls
    dsimp only
    split <;> rfl
  decode_append p s hp := by
    show String.ofList (decodeEntities (p ++ s).toList) = p ++ String.ofList (decodeEntities s.toList)
    rw [String.toList_append, decodeEntities_append hp, String.ofList_append, String.ofList_toList]
  decode_empty := by decide

/-- A service whose only upstream is that host. -/
def service : ProxyService SampleUrl where
  urls := urls
  bases :=
    { go := ofTail false "/"
      python := ofTail false "/simple/"
      npm := ofTail false "/"
      cargoIndex := ofTail false "/"
      cargoCrate := ofTail false "/" }
  allowed :=
    { go := [], python := [.tuple "https" "pypi.example" 443]
      npm := [.tuple "https" "pypi.example" 443], cargoIndex := [], cargoCrate := [] }
  ttl := 300

/-- The page of the project `demo`, fetched with or without a user name. -/
def projectPage (user : Bool) : SampleUrl := ofTail user "/simple/demo/"

end SampleUrl

/-- The upstream is configured with a user name, which every relative link inherits. The
link is replaced, and the route refuses what it stands for. -/
theorem credentials_refused :
    SampleUrl.service.rewriteLink SampleUrl.links .pythonJson (SampleUrl.projectPage true)
        (routePrefix none) "demo.whl" = some
      "/proxy/python/files/aHR0cHM6Ly91c2VyQHB5cGkuZXhhbXBsZS9zaW1wbGUvZGVtby9kZW1vLndobA" ∧
    SampleUrl.service.follow .pythonJson (routePrefix none)
        "/proxy/python/files/aHR0cHM6Ly91c2VyQHB5cGkuZXhhbXBsZS9zaW1wbGUvZGVtby9kZW1vLndobA" =
      some (.error .invalidEncodedUrl) ∧
    ¬ SampleUrl.service.LeadsBack SampleUrl.links .pythonJson (SampleUrl.projectPage true)
      (routePrefix none) "demo.whl" := by
  have hrewrite : SampleUrl.service.rewriteLink SampleUrl.links .pythonJson
      (SampleUrl.projectPage true) (routePrefix none) "demo.whl" = some
        "/proxy/python/files/aHR0cHM6Ly91c2VyQHB5cGkuZXhhbXBsZS9zaW1wbGUvZGVtby9kZW1vLndobA" := by
    decide +kernel
  have hfollow : SampleUrl.service.follow .pythonJson (routePrefix none)
      "/proxy/python/files/aHR0cHM6Ly91c2VyQHB5cGkuZXhhbXBsZS9zaW1wbGUvZGVtby9kZW1vLndobA" =
        some (.error .invalidEncodedUrl) := by
    have hbase : (cut '#'
        "/proxy/python/files/aHR0cHM6Ly91c2VyQHB5cGkuZXhhbXBsZS9zaW1wbGUvZGVtby9kZW1vLndobA").1 =
          ProxyService.fileBase SampleUrl.service SampleUrl.links none
            (.ofTail true "/simple/demo/demo.whl") := by
      decide +kernel
    have huser : SampleUrl.service.urls.username (SampleUrl.links.setFragment
        (.ofTail true "/simple/demo/demo.whl") none) ≠ "" := by
      decide
    have hkind : LinkKind.pythonJson ≠ .npm := fun h => by cases h
    rw [ProxyService.follow_file SampleUrl.lawful hkind hbase,
      ProxyService.encodedUrl_encodeUrl SampleUrl.lawful, if_pos (.inr (.inl huser))]
  refine ⟨hrewrite, hfollow, fun h => ?_⟩
  obtain ⟨url, -, ⟨target, htarget, -⟩, -⟩ := h.1 _ hrewrite
  cases hfollow.symm.trans htarget

/-- Without one, the link leads back and keeps its hash. -/
theorem hashed_link_leadsBack :
    SampleUrl.service.LeadsBack SampleUrl.links .pythonHtml (SampleUrl.projectPage false)
      (routePrefix none) "demo.whl?a=1&amp;b=2#sha256=abc" := by
  refine (ProxyService.leadsBack_iff SampleUrl.lawful _ _ none _).mpr ?_
  intro url hurl _
  have hjoin : SampleUrl.service.urls.join (SampleUrl.projectPage false)
      (ProxyService.readLink SampleUrl.links .pythonHtml "demo.whl?a=1&amp;b=2#sha256=abc") =
        .ok (.ofTail false "/simple/demo/demo.whl?a=1&b=2#sha256=abc") := by
    decide +kernel
  cases hjoin.symm.trans hurl
  refine ⟨⟨.inr rfl, rfl, rfl⟩, fun _ fragment hfragment => ?_⟩
  have hhash : SampleUrl.links.fragment
      (.ofTail false "/simple/demo/demo.whl?a=1&b=2#sha256=abc") = some "sha256=abc" := by
    decide
  cases hhash.symm.trans hfragment
  decide

end Flywheel
