import Flywheel.Lib.Json
import Flywheel.Proxy.Links

/-!
# Rewriting package metadata (`rewrite_tarballs`, `rewrite_python_json`)

npm metadata has its download links under the name `tarball`, wherever that stands; the JSON form of
a Python project page has them under `url` and `provenance` of the files it lists. Each rewriter
replaces the strings there that lead to an allowed origin by links to the proxy (`rewriteLink`), and
changes nothing else: `tarballs_replaced` and `files_replaced` say which paths these are.

`rewrite_tarballs` goes down everywhere but below a `tarball`, whether or not that was replaced. The
text of documents is `serde_json`'s, a parameter.
-/

set_option autoImplicit false

namespace Flywheel

open Lib

/-- `serde_json`: the document of a text and the text of a document. -/
structure SerdeJson (N : Type) where
  fromSlice : Bytes → Except String (Json N)
  toVec : Json N → Except String Bytes

/-- Parse, rewrite, print; what cannot be parsed is named in the error. -/
def SerdeJson.rewrite {N : Type} (serde : SerdeJson N) (name : String) (f : Json N → Json N)
    (bytes : Bytes) : Except ProxyError Bytes :=
  match serde.fromSlice bytes with
  | .error error => .error (.malformed ("invalid " ++ name ++ " metadata: " ++ error))
  | .ok metadata => (serde.toVec (f metadata)).mapError .malformed

namespace ProxyService

variable {U N : Type} (service : ProxyService U) (links : LinkLib U) (upstream : U)
variable (routePrefix : String)

/-! ## The rewriters -/

/-- The new value of a field that may hold a link. -/
def rewriteString (kind : LinkKind) : Json N → Json N
  | .string text => .string ((service.rewriteLink links kind upstream routePrefix text).getD text)
  | value => value

mutual

def rewriteTarballs : Json N → Json N
  | .object fields => .object (rewriteFields fields)
  | .array items => .array (rewriteItems items)
  | value => value

def rewriteFields : List (String × Json N) → List (String × Json N)
  | [] => []
  | (name, value) :: fields =>
    (name, if name = "tarball" then service.rewriteString links upstream routePrefix .npm value
      else rewriteTarballs value) :: rewriteFields fields

def rewriteItems : List (Json N) → List (Json N)
  | [] => []
  | value :: items => rewriteTarballs value :: rewriteItems items

end

def rewriteNpm (serde : SerdeJson N) (bytes : Bytes) : Except ProxyError Bytes :=
  serde.rewrite "npm" (service.rewriteTarballs links upstream routePrefix) bytes

/-- The two fields of a file, one after the other. -/
def rewriteFile (file : Json N) : Json N :=
  ["url", "provenance"].foldl
    (fun file field =>
      file.mapKey field (service.rewriteString links upstream routePrefix .pythonJson)) file

/-- The files of a project page. -/
def rewriteFiles (metadata : Json N) : Json N :=
  metadata.mapKey "files" fun files =>
    files.mapItems (service.rewriteFile links upstream routePrefix)

def rewritePythonJson (serde : SerdeJson N) (isProjectPage : Bool) (bytes : Bytes) :
    Except ProxyError Bytes :=
  serde.rewrite "Python" (fun metadata =>
    if isProjectPage then service.rewriteFiles links upstream routePrefix metadata
    else metadata) bytes

/-! ## Where the links are -/

/-- The value is a string that leads to an allowed origin, and `link` is the link to that. -/
def Leads (kind : LinkKind) (value : Json N) (path : Json.Path) (link : String) : Prop :=
  ∃ text url, value.at? path = some (.string text) ∧
    service.urls.join upstream (readLink links kind text) = .ok url ∧
    service.Allows kind.protocol url ∧ service.downloadLink links kind routePrefix url = link

/-- A field named `tarball` that is not below another one. -/
def TarballSite (value : Json N) (path : Json.Path) (link : String) : Prop :=
  ∃ outer, path = outer ++ [.key "tarball"] ∧ .key "tarball" ∉ outer ∧
    service.Leads links upstream routePrefix .npm value path link

/-- The `url` or the `provenance` of a file. -/
def FileSite (value : Json N) (path : Json.Path) (link : String) : Prop :=
  ∃ i field, field ∈ ["url", "provenance"] ∧ path = [.key "files", .index i, .key field] ∧
    service.Leads links upstream routePrefix .pythonJson value path link

variable {service links upstream routePrefix} {kind : LinkKind}

theorem leads_iff {value : Json N} {path : Json.Path} {link : String} :
    service.Leads links upstream routePrefix kind value path link ↔
      ∃ text, value.at? path = some (.string text) ∧
        service.rewriteLink links kind upstream routePrefix text = some link := by
  simp only [rewriteLink_eq_some, Leads, exists_and_left]

/-- A string is replaced where it leads to a link. -/
theorem string_replaced (value : Json N) :
    Json.Replaces (fun path link => path = [] ∧ service.Leads links upstream routePrefix kind value [] link)
      value (service.rewriteString links upstream routePrefix kind value) := by
  have hother : ∀ v : Json N, (∀ text, v ≠ .string text) → ∀ (path : Json.Path) link,
      ¬ (path = [] ∧ service.Leads links upstream routePrefix kind v [] link) := by
    rintro v hv path link ⟨-, text, url, htext, -⟩
    exact hv text (Option.some.inj htext)
  cases value with
  | string text =>
    intro path
    cases path with
    | nil =>
      cases hlink : service.rewriteLink links kind upstream routePrefix text with
      | none =>
        refine ⟨?_, fun _ => ?_⟩
        · rintro link ⟨-, hleads⟩
          obtain ⟨text', htext, hsome⟩ := leads_iff.mp hleads
          cases htext
          cases hlink.symm.trans hsome
        · rw [rewriteString, hlink]
          rfl
      | some link =>
        refine ⟨?_, fun hnone => ?_⟩
        · rintro link' ⟨-, hleads⟩
          obtain ⟨text', htext, hsome⟩ := leads_iff.mp hleads
          cases htext
          rw [rewriteString, hsome]
          rfl
        · exact absurd ⟨rfl, leads_iff.mpr ⟨text, rfl, hlink⟩⟩ (hnone link)
    | cons step rest =>
      refine ⟨?_, fun _ => rfl⟩
      rintro link ⟨hpath, -⟩
      cases hpath
  | null => exact Json.Replaces.of_eq (hother _ nofun)
  | bool b => exact Json.Replaces.of_eq (hother _ nofun)
  | number n => exact Json.Replaces.of_eq (hother _ nofun)
  | array items => exact Json.Replaces.of_eq (hother _ nofun)
  | object fields => exact Json.Replaces.of_eq (hother _ nofun)

/-! ## npm -/

/-- One level of the recursion: the value of a field by its name. -/
def rewriteField (service : ProxyService U) (links : LinkLib U) (upstream : U)
    (routePrefix name : String) (value : Json N) : Json N :=
  if name = "tarball" then service.rewriteString links upstream routePrefix .npm value
  else service.rewriteTarballs links upstream routePrefix value

theorem rewriteTarballs_object (fields : List (String × Json N)) :
    service.rewriteTarballs links upstream routePrefix (.object fields) =
      (Json.object fields).mapFields (service.rewriteField links upstream routePrefix) := by
  rw [rewriteTarballs]
  show Json.object _ = Json.object _
  congr 1
  induction fields with
  | nil => rfl
  | cons field fields ih =>
    obtain ⟨name, value⟩ := field
    rw [rewriteFields, ih]
    rfl

theorem rewriteTarballs_array (items : List (Json N)) :
    service.rewriteTarballs links upstream routePrefix (.array items) =
      (Json.array items).mapItems (service.rewriteTarballs links upstream routePrefix) := by
  rw [rewriteTarballs]
  show Json.array _ = Json.array _
  congr 1
  induction items with
  | nil => rfl
  | cons value items ih =>
    rw [rewriteItems, ih]
    rfl

theorem shape_rewriteTarballs (value : Json N) :
    (service.rewriteTarballs links upstream routePrefix value).shape = value.shape := by
  cases value with
  | object fields => rw [rewriteTarballs_object, Json.shape_mapFields]
  | array items => rw [rewriteTarballs_array, Json.shape_mapItems]
  | null => rfl
  | bool b => rfl
  | number n => rfl
  | string text => rfl

theorem get?_rewriteTarballs (value : Json N) (step : Json.Step) :
    (service.rewriteTarballs links upstream routePrefix value).get? step =
      (value.get? step).map (if step = .key "tarball" then
        service.rewriteString links upstream routePrefix .npm
      else service.rewriteTarballs links upstream routePrefix) := by
  cases value with
  | object fields =>
    rw [rewriteTarballs_object]
    cases step with
    | key name =>
      rw [Json.get?_mapFields_key]
      congr 1
      funext value
      by_cases hname : name = "tarball"
      · rw [rewriteField, if_pos hname, if_pos (congrArg Json.Step.key hname)]
      · rw [rewriteField, if_neg hname, if_neg fun heq => hname (Json.Step.key.inj heq)]
    | index i => rfl
  | array items =>
    rw [rewriteTarballs_array]
    cases step with
    | key name => rfl
    | index i => rw [Json.get?_mapItems_index, if_neg nofun]
  | null => cases step <;> rfl
  | bool b => cases step <;> rfl
  | number n => cases step <;> rfl
  | string text => cases step <;> rfl

theorem leads_cons {value below : Json N} {step : Json.Step} {path : Json.Path} {link : String}
    (hget : value.get? step = some below) :
    service.Leads links upstream routePrefix kind value (step :: path) link ↔
      service.Leads links upstream routePrefix kind below path link := by
  simp only [Leads, Json.at?, hget, Option.bind_some]

theorem not_leads_of_get? {value : Json N} {step : Json.Step} {path : Json.Path} {link : String}
    (hget : value.get? step = none) :
    ¬ service.Leads links upstream routePrefix kind value (step :: path) link := by
  rintro ⟨text, url, htext, -⟩
  rw [Json.at?, hget] at htext
  cases htext

/-- Behind another step than `tarball` the sites are those of what is there. -/
theorem tarballSite_cons {value below : Json N} {step : Json.Step} {path : Json.Path} {link : String}
    (hstep : step ≠ .key "tarball") (hget : value.get? step = some below) :
    service.TarballSite links upstream routePrefix value (step :: path) link ↔
      service.TarballSite links upstream routePrefix below path link := by
  constructor
  · rintro ⟨outer, hpath, houter, hleads⟩
    cases outer with
    | nil =>
      cases hpath
      exact absurd rfl hstep
    | cons step' outer =>
      cases hpath
      exact ⟨outer, rfl, fun hmem => houter (List.mem_cons_of_mem _ hmem), (leads_cons hget).mp hleads⟩
  · rintro ⟨outer, rfl, houter, hleads⟩
    refine ⟨step :: outer, rfl, fun hmem => ?_, (leads_cons hget).mpr hleads⟩
    rcases List.mem_cons.mp hmem with heq | hmem
    · exact hstep heq.symm
    · exact houter hmem

/-- Behind a `tarball` there is one site at most, its value. -/
theorem tarballSite_tarball {value below : Json N} {path : Json.Path} {link : String}
    (hget : value.get? (.key "tarball") = some below) :
    service.TarballSite links upstream routePrefix value (.key "tarball" :: path) link ↔
      path = [] ∧ service.Leads links upstream routePrefix .npm below [] link := by
  constructor
  · rintro ⟨outer, hpath, houter, hleads⟩
    cases outer with
    | nil =>
      cases hpath
      exact ⟨rfl, (leads_cons hget).mp hleads⟩
    | cons step outer =>
      cases hpath
      exact absurd List.mem_cons_self houter
  · rintro ⟨rfl, hleads⟩
    exact ⟨[], rfl, List.not_mem_nil, (leads_cons hget).mpr hleads⟩

/-- `rewrite_tarballs` replaces the tarball links, and nothing else. -/
theorem tarballs_replaced (value : Json N) :
    Json.Replaces (service.TarballSite links upstream routePrefix value) value
      (service.rewriteTarballs links upstream routePrefix value) := by
  intro path
  -- down the path, one level of the rewriting at a time
  induction path generalizing value with
  | nil =>
    refine ⟨?_, fun _ => congrArg some (shape_rewriteTarballs value)⟩
    rintro link ⟨outer, hpath, -⟩
    cases outer <;> cases hpath
  | cons step path ih =>
    rw [Json.at?, Json.at?, get?_rewriteTarballs]
    cases hget : value.get? step with
    | none =>
      refine ⟨?_, fun _ => rfl⟩
      rintro link ⟨outer, -, -, hleads⟩
      exact absurd hleads (not_leads_of_get? hget)
    | some below =>
      by_cases hstep : step = .key "tarball"
      · subst hstep
        rw [if_pos rfl]
        simp only [tarballSite_tarball hget]
        exact string_replaced below path
      · rw [if_neg hstep]
        simp only [tarballSite_cons hstep hget]
        exact ih below

/-! ## Python -/

theorem file_replaced (file : Json N) :
    Json.Replaces (fun path link => ∃ field, field ∈ ["url", "provenance"] ∧ path = [.key field] ∧
        service.Leads links upstream routePrefix .pythonJson file path link) file
      (service.rewriteFile links upstream routePrefix file) := by
  let rewrite := service.rewriteString (N := N) links upstream routePrefix .pythonJson
  have hfield : ∀ (field : String) (file : Json N),
      Json.Replaces (fun path link => path = [.key field] ∧
        service.Leads links upstream routePrefix .pythonJson file path link) file
        (file.mapKey field rewrite) := by
    intro field file
    refine (Json.Replaces.mapKey fun value _ => string_replaced value).congr fun path link => ?_
    constructor
    · rintro ⟨value, rest, hget, rfl, rfl, hleads⟩
      exact ⟨rfl, (leads_cons hget).mpr hleads⟩
    · rintro ⟨rfl, hleads⟩
      cases hget : file.get? (.key field) with
      | none => exact absurd hleads (not_leads_of_get? hget)
      | some value => exact ⟨value, [], hget, rfl, rfl, (leads_cons hget).mp hleads⟩
  -- the second field is as it was when the first has been rewritten
  have hkept : ∀ link, service.Leads links upstream routePrefix .pythonJson
      (file.mapKey "url" rewrite) [.key "provenance"] link ↔
        service.Leads links upstream routePrefix .pythonJson file [.key "provenance"] link := by
    intro link
    have hget : (file.mapKey "url" rewrite).get? (.key "provenance") =
        file.get? (.key "provenance") := by
      rw [Json.mapKey, Json.get?_mapFields_key]
      simp
    simp only [Leads, Json.at?, hget]
  refine ((hfield "url" file).trans (hfield "provenance" (file.mapKey "url" rewrite)) ?_).congr ?_
  · rintro path link link' ⟨rfl, -⟩ ⟨hpath, -⟩
    revert hpath
    decide
  · intro path link
    constructor
    · rintro (⟨rfl, hleads⟩ | ⟨rfl, hleads⟩)
      · exact ⟨"url", by decide, rfl, hleads⟩
      · exact ⟨"provenance", by decide, rfl, (hkept link).mp hleads⟩
    · rintro ⟨field, hmem, rfl, hleads⟩
      rcases List.mem_cons.mp hmem with rfl | hmem
      · exact .inl ⟨rfl, hleads⟩
      · obtain rfl := List.mem_singleton.mp hmem
        exact .inr ⟨rfl, (hkept link).mpr hleads⟩

/-- The files of a project page have their links replaced, and nothing else is. -/
theorem files_replaced (metadata : Json N) :
    Json.Replaces (service.FileSite links upstream routePrefix metadata) metadata
      (service.rewriteFiles links upstream routePrefix metadata) := by
  refine (Json.Replaces.mapKey fun files _ => Json.Replaces.mapItems file_replaced).congr
    fun path link => ?_
  constructor
  · rintro ⟨files, rest, hfiles, rfl, i, file, rest', hfile, rfl, field, hmem, rfl, hleads⟩
    exact ⟨i, field, hmem, rfl, (leads_cons hfiles).mpr ((leads_cons hfile).mpr hleads)⟩
  · rintro ⟨i, field, hmem, rfl, hleads⟩
    cases hfiles : metadata.get? (.key "files") with
    | none => exact absurd hleads (not_leads_of_get? hfiles)
    | some files =>
      have hleads := (leads_cons hfiles).mp hleads
      cases hfile : files.get? (.index i) with
      | none => exact absurd hleads (not_leads_of_get? hfile)
      | some file =>
        exact ⟨files, _, hfiles, rfl, i, file, _, hfile, rfl, field, hmem, rfl,
          (leads_cons hfile).mp hleads⟩

/-! ## Documents -/

theorem rewrite_eq_ok {serde : SerdeJson N} {name : String} {f : Json N → Json N}
    {bytes out : Bytes} (h : serde.rewrite name f bytes = .ok out) :
    ∃ metadata, serde.fromSlice bytes = .ok metadata ∧ serde.toVec (f metadata) = .ok out := by
  unfold SerdeJson.rewrite at h
  cases hparse : serde.fromSlice bytes with
  | error error =>
    rw [hparse] at h
    cases h
  | ok metadata =>
    rw [hparse] at h
    dsimp only at h
    refine ⟨metadata, rfl, ?_⟩
    cases hprint : serde.toVec (f metadata) with
    | error error =>
      rw [hprint] at h
      cases h
    | ok text =>
      rw [hprint] at h
      cases h
      rfl

/-- **Rewriting changes links only**: in npm metadata the strings under `tarball`, outside of other
tarballs, that lead to an allowed origin; in the JSON form of a Python project page the `url` and
`provenance` of its files that do; in the list of projects nothing. -/
theorem rewriting_frame (service : ProxyService U) (links : LinkLib U) (upstream : U)
    (routePrefix : String) (serde : SerdeJson N) :
    (∀ value : Json N, Json.Replaces (service.TarballSite links upstream routePrefix value) value
      (service.rewriteTarballs links upstream routePrefix value)) ∧
    (∀ bytes out, service.rewriteNpm links upstream routePrefix serde bytes = .ok out →
      ∃ metadata, serde.fromSlice bytes = .ok metadata ∧
        serde.toVec (service.rewriteTarballs links upstream routePrefix metadata) = .ok out) ∧
    ∀ isProjectPage bytes out,
      service.rewritePythonJson links upstream routePrefix serde isProjectPage bytes = .ok out →
      ∃ metadata rewritten, serde.fromSlice bytes = .ok metadata ∧ serde.toVec rewritten = .ok out ∧
        (isProjectPage = true → Json.Replaces
          (service.FileSite links upstream routePrefix metadata) metadata rewritten) ∧
        (isProjectPage = false → rewritten = metadata) := by
  refine ⟨tarballs_replaced, fun _ _ => rewrite_eq_ok, fun isProjectPage bytes out hout => ?_⟩
  obtain ⟨metadata, hparse, hprint⟩ := rewrite_eq_ok hout
  refine ⟨metadata, _, hparse, hprint, fun hpage => ?_, fun hlist => ?_⟩
  · rw [if_pos hpage]
    exact files_replaced metadata
  · rw [hlist]
    rfl

end ProxyService

end Flywheel
