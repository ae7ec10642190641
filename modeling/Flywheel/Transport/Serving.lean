import Flywheel.Transport.Ranges

/-!
# Responses with a body (`serve_artifact` in `transport/http/mod.rs`)

`serve_artifact` answers a GET or HEAD from the record and the opened file of an artifact.
Ranges are for GETs of bodies stored as they are; a zstd frame is passed through to a client
that accepts it and decoded for others. Encoding, range, emptiness and method share one set of
variables, so the response is compared with the artifact as a whole: `Coherent` ties record and
file to the logical bytes, and `Consistent` says what the status, the headers and the body of a
response have to do with them and with each other.

`http`'s builder takes a content type only if it is a header value; `none` is the panic of its
`unwrap`. Records take theirs from header values.
-/

set_option autoImplicit false

namespace Flywheel.Http

open Lib

/-! ## The source -/

/-- `str::trim`; in a header value only blanks and tabs are white space. -/
def trim (text : List Char) : List Char :=
  ((text.dropWhile Char.isWhitespace).reverse.dropWhile Char.isWhitespace).reverse

def acceptsZstd (headers : Headers) : Bool :=
  (headerText headers "accept-encoding").any fun value =>
    (value.toList.splitOn ',').any fun token =>
      trim ((trim token).takeWhile (· ≠ ';')) == "zstd".toList

/-- `Display` of an artifact identity, in quotes. -/
def etag (artifact : ArtifactId) : String :=
  "\"sha256:" ++ String.ofList ((hexEncode artifact.digest.bytes).map fun b => Char.ofNat b.toNat)
    ++ "\""

/-- What `HeaderValue::try_from` accepts; the bytes of a character beyond ASCII all are. -/
def isHeaderValue (text : String) : Bool :=
  text.toList.all fun c => (32 ≤ c.toNat && c.toNat != 127) || c == '\t'

def RangeSelection.isPartial : RangeSelection → Bool
  | .partialRange _ _ => true
  | _ => false

/-- First and last byte and the length of what is sent of a body of length `len`. -/
def RangeSelection.extent (len : UInt64) : RangeSelection → UInt64 × UInt64 × UInt64
  | .partialRange start finish => (start, finish, finish - start + 1)
  | _ => (0, saturatingSub len 1, len)

end Flywheel.Http

namespace Flywheel

open Lib Http

section Serve

variable (zstdDecode : Bytes → Option Bytes) (located : Located) (artifact : ArtifactId)
variable (headers : Headers) (head : Bool)

/-- Only identity GETs look at the `Range` header. -/
def Located.range : RangeSelection :=
  if !head && located.metadata.encoding == .identity then
    parseRange (headers.lookup "range") (UInt64.ofNat located.metadata.contentLen)
  else .full

def Located.passthrough : Bool :=
  located.metadata.encoding == .zstd && acceptsZstd headers

/-- The headers of a response that is no 416, in the order they are added. -/
def Located.responseHeaders : List (String × String) :=
  let range := located.range headers head
  let contentLen := UInt64.ofNat located.metadata.contentLen
  let (start, finish, length) := range.extent contentLen
  let passthrough := located.passthrough headers
  [("content-length",
      if passthrough then toString located.metadata.storedLen else toString length.toNat),
    ("etag", etag artifact)] ++
  (if located.metadata.encoding = .identity then [("accept-ranges", "bytes")] else []) ++
  (if located.metadata.encoding = .zstd then [("vary", "accept-encoding")] else []) ++
  (if passthrough then [("content-encoding", "zstd")] else []) ++
  (match located.metadata.contentType with
    | some contentType => [("content-type", contentType)]
    | none => []) ++
  (if range.isPartial then
    [("content-range", "bytes " ++ toString start.toNat ++ "-" ++ toString finish.toNat ++ "/" ++
      toString contentLen.toNat)]
  else [])

/-- The bytes a GET sends; a broken frame ends the body early. -/
def Located.responseBody : Bytes :=
  let (start, _, length) :=
    (located.range headers head).extent (UInt64.ofNat located.metadata.contentLen)
  match located.metadata.encoding with
  | .zstd =>
    if located.passthrough headers then located.file
    else ((zstdDecode located.file).getD []).take length.toNat
  | .identity => (located.file.drop start.toNat).take length.toNat

/-- `serve_artifact` behind its lookup; `seeks` says whether the file can be positioned. -/
def Located.serve (seeks : Bool) : Option Http.Response :=
  let range := located.range headers head
  let (start, _, length) := range.extent (UInt64.ofNat located.metadata.contentLen)
  if range = .unsatisfiable then
    some
      { status := 416
        headers := [("accept-ranges", "bytes"),
          ("content-range", "bytes */" ++ toString (UInt64.ofNat located.metadata.contentLen).toNat),
          ("etag", etag artifact)]
        body := [] }
  else if !located.metadata.contentType.all isHeaderValue then none
  else
    let response : Http.Response :=
      { status := if range.isPartial then 206 else 200
        headers := located.responseHeaders artifact headers head
        body := [] }
    if head || (length = 0 && !located.passthrough headers) then some response
    else if located.metadata.encoding = .identity ∧ start > 0 ∧ !seeks then some (statusOnly 500)
    else some { response with body := located.responseBody zstdDecode headers head }

end Serve

namespace Http

/-- `serve_artifact`. -/
def serveArtifact (zstdDecode : Bytes → Option Bytes) (permit : Bool)
    (located : Except Unit (Option Located)) (artifact : ArtifactId) (headers : Headers)
    (head seeks : Bool) : Option Response :=
  if !permit then some busyResponse
  else
    match located with
    | .error _ => some (statusOnly 500)
    | .ok none => some (statusOnly 404)
    | .ok (some located) => located.serve zstdDecode artifact headers head seeks

/-! ## Consistency -/

/-- Record and file of an artifact whose logical bytes are `body`. -/
structure Coherent (zstdDecode : Bytes → Option Bytes) (located : Located) (body : Bytes) :
    Prop where
  contentLen : located.metadata.contentLen = body.length
  storedLen : located.metadata.storedLen = located.file.length
  decoded : match located.metadata.encoding with
    | .identity => located.file = body
    | .zstd => zstdDecode located.file = some body
  /-- Lengths are `u64`. -/
  fits : body.length < 2 ^ 64
  contentType : located.metadata.contentType.all isHeaderValue = true

def Response.header (response : Response) (name : String) : Option String :=
  response.headers.lookup name

/-- The body with its content encoding undone. -/
def Response.decoded (zstdDecode : Bytes → Option Bytes) (response : Response) : Option Bytes :=
  if response.header "content-encoding" = some "zstd" then zstdDecode response.body
  else some response.body

/-- What a response has to do with the artifact: `serves` is the answer to the same request
with other headers and as a GET. -/
structure Response.Consistent (response : Response) (zstdDecode : Bytes → Option Bytes)
    (located : Located) (body : Bytes) (headers : Headers) (head : Bool)
    (serves : Headers → Option Response) : Prop where
  length : head = false → ∀ text, response.header "content-length" = some text →
    text = toString response.body.length
  /-- Without the header there is no body: the range cannot be satisfied, or reading failed. -/
  announced : response.header "content-length" = none →
    response.body = [] ∧ response.status ≠ 200 ∧ response.status ≠ 206
  headed : head = true → response.status = 200 ∧ response.body = [] ∧
    ∀ headers' : Headers, headers'.lookup "range" = none →
      headers'.lookup "accept-encoding" = headers.lookup "accept-encoding" →
      ∃ full, serves headers' = some full ∧ full.status = 200 ∧
        response.header "content-length" = some (toString full.body.length)
  whole : head = false → response.status = 200 → response.decoded zstdDecode = some body
  part : response.status = 206 → located.metadata.encoding = .identity ∧ head = false ∧
    ∃ start finish, start ≤ finish ∧ finish < body.length ∧
      response.header "content-range" = some ("bytes " ++ toString start ++ "-" ++
        toString finish ++ "/" ++ toString body.length) ∧
      response.body = (body.drop start).take (finish - start + 1)
  unsatisfiable : response.status = 416 →
    response.header "content-range" = some ("bytes */" ++ toString body.length)
  encoded : response.header "content-encoding" = some "zstd" ↔
    located.metadata.encoding = .zstd ∧ acceptsZstd headers = true
  frame : head = false → response.header "content-encoding" = some "zstd" →
    response.body = located.file

end Http

/-! ## Headers -/

section Headers

variable (located : Located) (artifact : ArtifactId) (headers : Headers) (head : Bool)

theorem lookup_contentLength :
    (located.responseHeaders artifact headers head).lookup "content-length" =
      some (if located.passthrough headers then toString located.metadata.storedLen
        else toString ((located.range headers head).extent
          (UInt64.ofNat located.metadata.contentLen)).2.2.toNat) := by
  simp [Located.responseHeaders]

theorem lookup_contentEncoding :
    (located.responseHeaders artifact headers head).lookup "content-encoding" =
      if located.passthrough headers then some "zstd" else none := by
  cases hencoding : located.metadata.encoding <;>
    cases hpassthrough : located.passthrough headers <;>
    cases hpartial : (located.range headers head).isPartial <;>
    cases htype : located.metadata.contentType <;>
    simp [Located.responseHeaders, hencoding, hpassthrough, hpartial, htype, List.lookup_cons]

theorem lookup_contentRange :
    (located.responseHeaders artifact headers head).lookup "content-range" =
      if (located.range headers head).isPartial then
        some ("bytes " ++ toString ((located.range headers head).extent
          (UInt64.ofNat located.metadata.contentLen)).1.toNat ++ "-" ++
          toString ((located.range headers head).extent
            (UInt64.ofNat located.metadata.contentLen)).2.1.toNat ++ "/" ++
          toString (UInt64.ofNat located.metadata.contentLen).toNat)
      else none := by
  cases hencoding : located.metadata.encoding <;>
    cases hpassthrough : located.passthrough headers <;>
    cases hpartial : (located.range headers head).isPartial <;>
    cases htype : located.metadata.contentType <;>
    simp [Located.responseHeaders, hencoding, hpassthrough, hpartial, htype, List.lookup_cons]

end Headers

/-! ## Responses -/

section Responses

variable {zstdDecode : Bytes → Option Bytes} {located : Located} {body : Bytes}

theorem Http.Coherent.toNat_contentLen (h : Coherent zstdDecode located body) :
    (UInt64.ofNat located.metadata.contentLen).toNat = body.length := by
  rw [h.contentLen, UInt64.toNat_ofNat_of_lt' h.fits]

theorem Http.Coherent.responseBody_full (h : Coherent zstdDecode located body)
    {headers : Headers} (hrange : located.range headers false = .full) :
    located.responseBody zstdDecode headers false =
      if located.passthrough headers then located.file else body := by
  have hlen := h.toNat_contentLen
  have hdecoded := h.decoded
  simp only [Located.responseBody, hrange, RangeSelection.extent]
  cases hencoding : located.metadata.encoding with
  | identity =>
    have hfile : located.file = body := by rwa [hencoding] at hdecoded
    simp [Located.passthrough, hencoding, hfile, hlen]
  | zstd =>
    have hfile : zstdDecode located.file = some body := by rwa [hencoding] at hdecoded
    simp [hfile, hlen]

/-- A GET of the whole representation. -/
theorem Http.Coherent.serve_full (h : Coherent zstdDecode located body) (artifact : ArtifactId)
    {headers : Headers} (hrange : located.range headers false = .full) (seeks : Bool) :
    located.serve zstdDecode artifact headers false seeks = some
      { status := 200
        headers := located.responseHeaders artifact headers false
        body := if located.passthrough headers then located.file else body } := by
  have hlen := h.toNat_contentLen
  simp only [Located.serve, hrange, RangeSelection.extent, RangeSelection.isPartial,
    h.contentType, h.responseBody_full hrange]
  by_cases hempty : UInt64.ofNat located.metadata.contentLen = 0 ∧
      located.passthrough headers = false
  · -- an empty body is answered without opening a stream
    have hnil : body = [] := by
      rw [hempty.1] at hlen
      exact List.eq_nil_of_length_eq_zero hlen.symm
    simp [hempty.1, hempty.2, hnil]
  · have hstream : ¬ ((UInt64.ofNat located.metadata.contentLen = 0 : Bool) &&
        !located.passthrough headers) = true := by
      simpa using hempty
    simp [hstream]

/-- A GET of a part. -/
theorem Http.Coherent.serve_part (h : Coherent zstdDecode located body) (artifact : ArtifactId)
    {headers : Headers} {start finish : UInt64}
    (hrange : located.range headers false = .partialRange start finish) (seeks : Bool) :
    located.metadata.encoding = .identity ∧ start.toNat ≤ finish.toNat ∧
      finish.toNat < body.length ∧
      (located.serve zstdDecode artifact headers false seeks = some (statusOnly 500) ∨
        located.serve zstdDecode artifact headers false seeks = some
          { status := 206
            headers := located.responseHeaders artifact headers false
            body := (body.drop start.toNat).take (finish.toNat - start.toNat + 1) }) := by
  have hlen := h.toNat_contentLen
  have hdecoded := h.decoded
  have hparsed := hrange
  unfold Located.range at hparsed
  split at hparsed
  · rename_i hidentity
    have hencoding : located.metadata.encoding = .identity := by simpa using hidentity
    obtain ⟨hle, hlt⟩ := parseRange_bounds hparsed
    have hlength := toNat_interval hle hlt
    have hfile : located.file = body := by rwa [hencoding] at hdecoded
    have hne : finish - start + 1 ≠ 0 := by
      intro hzero
      rw [hzero] at hlength
      cases hlength
    refine ⟨hencoding, UInt64.le_iff_toNat_le.mp hle, ?_, ?_⟩
    · rw [← hlen]
      exact UInt64.lt_iff_toNat_lt.mp hlt
    · by_cases hseek : start > 0 ∧ seeks = false
      · left
        simp [Located.serve, hrange, RangeSelection.extent, h.contentType, hne, hencoding,
          hseek.1, hseek.2]
      · right
        have hread : ¬ (0 < start ∧ seeks = false) := hseek
        simp [Located.serve, hrange, RangeSelection.extent, RangeSelection.isPartial,
          h.contentType, hne, hencoding, hread, Located.responseBody, hfile, hlength]
  · cases hparsed

theorem range_of_lookup_eq_none {headers : Headers} (hrange : headers.lookup "range" = none) :
    located.range headers false = .full := by
  unfold Located.range
  split
  · rw [hrange]
    rfl
  · rfl

theorem passthrough_congr {headers headers' : Headers}
    (h : headers'.lookup "accept-encoding" = headers.lookup "accept-encoding") :
    located.passthrough headers' = located.passthrough headers := by
  simp only [Located.passthrough, acceptsZstd, headerText_eq, h]

theorem passthrough_iff {headers : Headers} : located.passthrough headers = true ↔
    located.metadata.encoding = .zstd ∧ acceptsZstd headers = true := by
  simp [Located.passthrough]

/-- The length that is announced for the whole representation. -/
theorem Http.Coherent.lookup_length (h : Coherent zstdDecode located body)
    (artifact : ArtifactId) {headers : Headers} {head : Bool}
    (hrange : located.range headers head = .full) :
    (located.responseHeaders artifact headers head).lookup "content-length" = some
      (toString (if located.passthrough headers then located.file else body).length) := by
  rw [lookup_contentLength, hrange]
  split
  · rw [h.storedLen]
  · simp only [RangeSelection.extent, h.toNat_contentLen]

theorem header_contentEncoding_iff (artifact : ArtifactId) (headers : Headers) (head : Bool) :
    (located.responseHeaders artifact headers head).lookup "content-encoding" = some "zstd" ↔
      located.passthrough headers = true := by
  rw [lookup_contentEncoding]
  cases located.passthrough headers <;> simp

/-- The whole representation is consistent. -/
theorem Http.Coherent.full_consistent (h : Coherent zstdDecode located body)
    (artifact : ArtifactId) {headers : Headers} (hrange : located.range headers false = .full)
    (serves : Headers → Option Http.Response) :
    Http.Response.Consistent
      { status := 200
        headers := located.responseHeaders artifact headers false
        body := if located.passthrough headers then located.file else body }
      zstdDecode located body headers false serves := by
  have hlength := h.lookup_length artifact hrange
  have hencoding := @header_contentEncoding_iff located artifact headers false
  constructor
  case length => exact fun _ text htext => Option.some.inj (htext.symm.trans hlength)
  case announced =>
    intro hnone
    cases hlength.symm.trans hnone
  case headed => exact fun hhead => absurd hhead Bool.false_ne_true
  case whole =>
    intro _ _
    show (if List.lookup "content-encoding" _ = some "zstd" then _ else _) = _
    by_cases hpass : located.passthrough headers = true
    · have hdecoded := h.decoded
      rw [(passthrough_iff.mp hpass).1] at hdecoded
      rw [if_pos (hencoding.mpr hpass), if_pos hpass]
      exact hdecoded
    · rw [if_neg (mt hencoding.mp hpass), if_neg hpass]
  case part => exact fun hstatus => absurd (show 200 = 206 from hstatus) (by decide)
  case unsatisfiable => exact fun hstatus => absurd (show 200 = 416 from hstatus) (by decide)
  case encoded => exact hencoding.trans passthrough_iff
  case frame => exact fun _ hzstd => if_pos (hencoding.mp hzstd)

/-- A response without a body to a GET of an identity artifact. -/
theorem bodyless_consistent (hidentity : located.metadata.encoding = .identity)
    {status : Nat} {fields : List (String × String)} {headers : Headers}
    (hwhole : status ≠ 200) (hpart : status ≠ 206)
    (hlength : fields.lookup "content-length" = none)
    (hencoding : fields.lookup "content-encoding" = none)
    (hrange : status = 416 →
      fields.lookup "content-range" = some ("bytes */" ++ toString body.length))
    (serves : Headers → Option Http.Response) :
    Http.Response.Consistent ⟨status, fields, []⟩ zstdDecode located body headers false serves := by
  constructor
  case length =>
    intro _ text htext
    cases hlength.symm.trans htext
  case announced => exact fun _ => ⟨rfl, hwhole, hpart⟩
  case headed => exact fun hhead => absurd hhead Bool.false_ne_true
  case whole => exact fun _ hstatus => absurd hstatus hwhole
  case part => exact fun hstatus => absurd hstatus hpart
  case unsatisfiable => exact hrange
  case encoded =>
    refine iff_of_false (fun hzstd => ?_) fun hzstd => ?_
    · cases hencoding.symm.trans hzstd
    · cases hidentity.symm.trans hzstd.1
  case frame =>
    intro _ hzstd
    cases hencoding.symm.trans hzstd

/-- A part is consistent. -/
theorem Http.Coherent.part_consistent (h : Coherent zstdDecode located body)
    (artifact : ArtifactId) {headers : Headers} {start finish : UInt64}
    (hrange : located.range headers false = .partialRange start finish)
    (hidentity : located.metadata.encoding = .identity) (hle : start.toNat ≤ finish.toNat)
    (hlt : finish.toNat < body.length) (serves : Headers → Option Http.Response) :
    Http.Response.Consistent
      { status := 206
        headers := located.responseHeaders artifact headers false
        body := (body.drop start.toNat).take (finish.toNat - start.toNat + 1) }
      zstdDecode located body headers false serves := by
  have hpass : located.passthrough headers = false := by simp [Located.passthrough, hidentity]
  have hencoding := @header_contentEncoding_iff located artifact headers false
  have hinterval : (finish - start + 1).toNat = finish.toNat - start.toNat + 1 := by
    refine @toNat_interval _ _ (UInt64.ofNat located.metadata.contentLen)
      (UInt64.le_iff_toNat_le.mpr hle) (UInt64.lt_iff_toNat_lt.mpr ?_)
    rwa [h.toNat_contentLen]
  have hlength := lookup_contentLength located artifact headers false
  rw [hpass, hrange] at hlength
  simp only [RangeSelection.extent, hinterval, Bool.false_eq_true, if_false] at hlength
  constructor
  case length =>
    intro _ text htext
    have htext := Option.some.inj (htext.symm.trans hlength)
    rw [htext, List.length_take, List.length_drop]
    congr 1
    omega
  case announced =>
    intro hnone
    cases hlength.symm.trans hnone
  case headed => exact fun hhead => absurd hhead Bool.false_ne_true
  case whole => exact fun _ hstatus => absurd (show 206 = 200 from hstatus) (by decide)
  case part =>
    refine fun _ => ⟨hidentity, rfl, start.toNat, finish.toNat, hle, hlt, ?_, rfl⟩
    have hfield := lookup_contentRange located artifact headers false
    rw [hrange, RangeSelection.isPartial, if_pos rfl, h.toNat_contentLen] at hfield
    exact hfield
  case unsatisfiable => exact fun hstatus => absurd (show 206 = 416 from hstatus) (by decide)
  case encoded => exact hencoding.trans passthrough_iff
  case frame =>
    intro _ hzstd
    rw [hencoding.mp hzstd] at hpass
    cases hpass

/-- The answers to a GET. -/
theorem Http.Coherent.get_consistent (h : Coherent zstdDecode located body)
    (artifact : ArtifactId) (headers : Headers) (seeks : Bool)
    (serves : Headers → Option Http.Response) :
    ∃ response, located.serve zstdDecode artifact headers false seeks = some response ∧
      response.Consistent zstdDecode located body headers false serves := by
  cases hrange : located.range headers false with
  | full =>
    exact ⟨_, h.serve_full artifact hrange seeks, h.full_consistent artifact hrange serves⟩
  | unsatisfiable =>
    have hidentity : located.metadata.encoding = .identity := by
      by_contra hno
      simp [Located.range, hno] at hrange
    refine ⟨_, by simp only [Located.serve, hrange, RangeSelection.extent, if_true]; rfl, ?_⟩
    refine bodyless_consistent hidentity (by decide) (by decide) rfl rfl (fun _ => ?_) serves
    rw [h.toNat_contentLen]
    rfl
  | partialRange start finish =>
    obtain ⟨hidentity, hle, hlt, hserve⟩ := h.serve_part artifact hrange seeks
    rcases hserve with hfailed | hserved
    · refine ⟨_, hfailed, bodyless_consistent hidentity (by decide) (by decide) rfl rfl ?_ serves⟩
      exact fun hstatus => absurd hstatus (by decide)
    · exact ⟨_, hserved, h.part_consistent artifact hrange hidentity hle hlt serves⟩

/-- The answer to a HEAD describes what a GET without a range sends. -/
theorem Http.Coherent.head_consistent (h : Coherent zstdDecode located body)
    (artifact : ArtifactId) (headers : Headers) (seeks : Bool) :
    ∃ response, located.serve zstdDecode artifact headers true seeks = some response ∧
      response.Consistent zstdDecode located body headers true
        fun headers' => located.serve zstdDecode artifact headers' false seeks := by
  have hrange : located.range headers true = .full := rfl
  have hlength := h.lookup_length artifact hrange
  have hencoding := @header_contentEncoding_iff located artifact headers true
  refine ⟨{ status := 200, headers := located.responseHeaders artifact headers true, body := [] },
    ?_, ?_⟩
  · simp [Located.serve, hrange, RangeSelection.isPartial, h.contentType]
  constructor
  case length => exact fun hhead => absurd hhead.symm Bool.false_ne_true
  case announced =>
    intro hnone
    cases hlength.symm.trans hnone
  case headed =>
    refine fun _ => ⟨rfl, rfl, fun headers' hnorange haccept => ?_⟩
    refine ⟨_, h.serve_full artifact (range_of_lookup_eq_none hnorange) seeks, rfl, ?_⟩
    rw [passthrough_congr haccept]
    exact hlength
  case whole => exact fun hhead => absurd hhead.symm Bool.false_ne_true
  case part => exact fun hstatus => absurd (show 200 = 206 from hstatus) (by decide)
  case unsatisfiable => exact fun hstatus => absurd (show 200 = 416 from hstatus) (by decide)
  case encoded => exact hencoding.trans passthrough_iff
  case frame => exact fun hhead => absurd hhead.symm Bool.false_ne_true

/-- **Responses are consistent.** Whatever the headers and the method, an artifact whose record
and file are coherent is answered, and the answer agrees with the artifact and with itself. -/
theorem responses_consistent (zstdDecode : Bytes → Option Bytes) (located : Located)
    (body : Bytes) (h : Http.Coherent zstdDecode located body) (artifact : ArtifactId)
    (headers : Headers) (head seeks : Bool) :
    ∃ response,
      serveArtifact zstdDecode true (.ok (some located)) artifact headers head seeks =
        some response ∧
      response.Consistent zstdDecode located body headers head fun headers' =>
        serveArtifact zstdDecode true (.ok (some located)) artifact headers' false seeks := by
  cases head with
  | false => exact h.get_consistent artifact headers seeks _
  | true => exact h.head_consistent artifact headers seeks

/-- A zstd frame with one raw block that holds the byte `a`. -/
def letterFrame : Bytes := [0x28, 0xb5, 0x2f, 0xfd, 0x20, 0x01, 0x09, 0x00, 0x00, 0x61]

/-- The decoder on that frame. -/
def letterDecode (frame : Bytes) : Option Bytes := if frame = letterFrame then some [97] else none

def letterLocated : Located where
  metadata := ⟨1, some "text/plain", 0, 0, 10, .zstd⟩
  file := letterFrame

def letterArtifact : ArtifactId := ⟨⟨List.replicate 32 0, length_zeros⟩⟩

/-- The body `a` is stored as a frame and asked for without a word about encodings. -/
theorem letter_served :
    Http.Coherent letterDecode letterLocated [97] ∧ ∃ response,
      serveArtifact letterDecode true (.ok (some letterLocated)) letterArtifact [] false true =
        some response ∧
      response.Consistent letterDecode letterLocated [97] [] false fun headers' =>
        serveArtifact letterDecode true (.ok (some letterLocated)) letterArtifact headers' false
          true := by
  have hcoherent : Http.Coherent letterDecode letterLocated [97] :=
    ⟨rfl, rfl, rfl, by decide, by decide⟩
  exact ⟨hcoherent, responses_consistent letterDecode letterLocated [97] hcoherent letterArtifact
    [] false true⟩

end Responses

end Flywheel
