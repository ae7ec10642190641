import Flywheel.Transport.Serving

/-!
# Accepted codings (`accepts_zstd`)

An `Accept-Encoding` value is a list of elements between commas. An element is a coding, in any
case and with blanks around it, and then parameters, each behind a semicolon; a `q` parameter of
value zero refuses the coding.

`accepts_zstd` looks at the coding of each element and not at its parameters. It therefore respects
the client unless the client names the coding only to refuse it (`OnlyRefused`), and a stored frame
is sent exactly where `accepts_zstd` says so.
-/

set_option autoImplicit false

namespace Flywheel.Http

open Lib

/-! ## Trimming -/

section Trim

variable {text text' : List Char}

/-- Nothing but blanks. -/
def Blank (text : List Char) : Prop := ∀ c ∈ text, c.isWhitespace = true

theorem Blank.trim_append (h : Blank text') : trim (text' ++ text) = trim text := by
  rw [trim, List.dropWhile_append_of_pos h, ← trim]

theorem Blank.trim_append' (h : Blank text') : trim (text ++ text') = trim text := by
  rw [trim, trim, List.dropWhile_append]
  split
  · rename_i hnil
    have hblank : text'.dropWhile Char.isWhitespace = [] := List.dropWhile_eq_nil_iff.mpr h
    rw [List.isEmpty_iff] at hnil
    rw [hblank, hnil]
  · have hreverse : ∀ c ∈ text'.reverse, c.isWhitespace = true := fun c hc =>
      h c (List.mem_reverse.mp hc)
    rw [List.reverse_append, List.dropWhile_append_of_pos hreverse]

/-- What trimming takes away is blank. -/
theorem exists_trim (text : List Char) :
    ∃ before after, Blank before ∧ Blank after ∧ text = before ++ (trim text ++ after) := by
  have hblank : ∀ text : List Char, Blank (text.takeWhile Char.isWhitespace) := fun _ _ hc =>
    List.mem_takeWhile_imp hc
  refine ⟨text.takeWhile Char.isWhitespace,
    ((text.dropWhile Char.isWhitespace).reverse.takeWhile Char.isWhitespace).reverse,
    hblank text, fun c hc => hblank _ c (List.mem_reverse.mp hc), ?_⟩
  rw [trim, ← List.reverse_append, List.takeWhile_append_dropWhile, List.reverse_reverse,
    List.takeWhile_append_dropWhile]

/-- Blanks around a text do not matter for what stands before a separator. -/
theorem trim_takeWhile_trim {p : Char → Bool} (hp : ∀ c, c.isWhitespace = true → p c = true) :
    trim ((trim text).takeWhile p) = trim (text.takeWhile p) := by
  obtain ⟨before, after, hbefore, hafter, htext⟩ := exists_trim text
  have hstart : text.takeWhile p = before ++ (trim text ++ after).takeWhile p := by
    conv_lhs => rw [htext]
    exact List.takeWhile_append_of_pos fun c hc => hp c (hbefore c hc)
  rw [hstart, hbefore.trim_append, List.takeWhile_append]
  split
  · rename_i hwhole
    have hall : after.takeWhile p = after := List.takeWhile_eq_self_iff.mpr fun c hc =>
      hp c (hafter c hc)
    have hself : (trim text).takeWhile p = trim text :=
      (List.takeWhile_prefix p).eq_of_length hwhole
    rw [hall, hafter.trim_append', hself]
  · rfl

end Trim

/-! ## The grammar -/

/-- The elements of the value. -/
def elements (value : String) : List (List Char) := value.toList.splitOn ','

/-- The element gives `coding`, with blanks around it. -/
def Gives (element coding : List Char) : Prop :=
  ∃ before after, Blank before ∧ Blank after ∧
    element.takeWhile (· ≠ ';') = before ++ (coding ++ after)

/-- Codings are told apart without regard to case. -/
def NamesZstd (element : List Char) : Prop :=
  ∃ coding, coding.map Char.toLower = "zstd".toList ∧ Gives element coding

/-- `0`, `0.`, `0.0`, and so on. -/
def isZero : List Char → Bool
  | ['0'] => true
  | '0' :: '.' :: decimals => decimals.all (· == '0')
  | _ => false

/-- `q=0`, with blanks wherever they may stand. -/
def isZeroWeight (parameter : List Char) : Bool :=
  (trim (parameter.takeWhile (· ≠ '='))).map Char.toLower == ['q'] &&
    isZero (trim ((parameter.dropWhile (· ≠ '=')).drop 1))

/-- Some parameter is a weight of zero. -/
def refuses (element : List Char) : Bool := ((element.splitOn ';').drop 1).any isZeroWeight

/-- The client takes zstd. -/
def TakesZstd (headers : Headers) : Prop :=
  ∃ value, headerText headers "accept-encoding" = some value ∧
    ∃ element ∈ elements value, NamesZstd element ∧ refuses element = false

/-- The client writes the coding in lower case, and refuses it wherever it names it. -/
def OnlyRefused (headers : Headers) : Prop :=
  ∃ value, headerText headers "accept-encoding" = some value ∧
    (∃ element ∈ elements value, Gives element "zstd".toList) ∧
    ∀ element ∈ elements value, NamesZstd element → refuses element = true

/-! ## What the check comes to -/

/-- The comparison of `accepts_zstd` is about the coding as it is written. -/
theorem token_eq_iff (token : List Char) :
    trim ((trim token).takeWhile (· ≠ ';')) = "zstd".toList ↔ Gives token "zstd".toList := by
  have hblank : ∀ c : Char, c.isWhitespace = true → decide (c ≠ ';') = true := by
    intro c hc
    refine decide_eq_true fun hsemi => ?_
    rw [hsemi] at hc
    exact Bool.false_ne_true hc
  rw [trim_takeWhile_trim hblank]
  constructor
  · intro htrim
    obtain ⟨before, after, hbefore, hafter, htext⟩ := exists_trim (token.takeWhile (· ≠ ';'))
    rw [htrim] at htext
    exact ⟨before, after, hbefore, hafter, htext⟩
  · rintro ⟨before, after, hbefore, hafter, htext⟩
    rw [htext, hbefore.trim_append, hafter.trim_append']
    decide

theorem acceptsZstd_iff (headers : Headers) : acceptsZstd headers = true ↔
    ∃ value, headerText headers "accept-encoding" = some value ∧
      ∃ element ∈ elements value, Gives element "zstd".toList := by
  simp only [acceptsZstd, Option.any_eq_true, List.any_eq_true, beq_iff_eq, token_eq_iff, elements]

/-- The check respects the client unless the client only refuses. -/
theorem acceptsZstd_respects (headers : Headers) :
    (acceptsZstd headers = true → TakesZstd headers) ↔ ¬ OnlyRefused headers := by
  rw [acceptsZstd_iff]
  constructor
  · rintro h ⟨value, hvalue, hspelled, hrefused⟩
    obtain ⟨value', hvalue', element, hmem, hnames, htakes⟩ := h ⟨value, hvalue, hspelled⟩
    obtain rfl : value = value' := Option.some.inj (hvalue.symm.trans hvalue')
    exact Bool.false_ne_true (htakes.symm.trans (hrefused element hmem hnames))
  · rintro h ⟨value, hvalue, hspelled⟩
    by_contra hnot
    refine h ⟨value, hvalue, hspelled, fun element hmem hnames => ?_⟩
    by_contra htakes
    exact hnot ⟨value, hvalue, element, hmem, hnames, Bool.eq_false_iff.mpr htakes⟩

/-- The client is respected in every answer: the frame goes to those who take it, the body to all
others. -/
def Respected (zstdDecode : Bytes → Option Bytes) (headers : Headers) : Prop :=
  (acceptsZstd headers = true → TakesZstd headers) ∧
    ∀ located body, Coherent zstdDecode located body → located.metadata.encoding = .zstd →
      ∀ artifact head seeks, ∃ response,
        serveArtifact zstdDecode true (.ok (some located)) artifact headers head seeks =
          some response ∧
        (response.header "content-encoding" = some "zstd" → TakesZstd headers) ∧
        (¬ TakesZstd headers → response.header "content-encoding" ≠ some "zstd" ∧
          (head = false → response.body = body))

/-- A frame is passed through exactly where the check says so, and decoded otherwise. -/
theorem answer_of_acceptsZstd {zstdDecode : Bytes → Option Bytes} {located : Located} {body : Bytes}
    (h : Coherent zstdDecode located body) (hzstd : located.metadata.encoding = .zstd)
    (artifact : ArtifactId) (headers : Headers) (head seeks : Bool) :
    ∃ response,
      serveArtifact zstdDecode true (.ok (some located)) artifact headers head seeks =
        some response ∧
      (response.header "content-encoding" = some "zstd" ↔ acceptsZstd headers = true) ∧
      (acceptsZstd headers = false → head = false → response.body = body) := by
  have hpass : located.passthrough headers = true ↔ acceptsZstd headers = true := by
    rw [passthrough_iff]
    exact and_iff_right hzstd
  cases head with
  | false =>
    have hrange : located.range headers false = .full := by simp [Located.range, hzstd]
    refine ⟨_, h.serve_full artifact hrange seeks, ?_, fun hno _ => ?_⟩
    · exact (header_contentEncoding_iff artifact headers false).trans hpass
    · have hnot : ¬ located.passthrough headers = true := by
        rw [hpass, hno]
        exact Bool.false_ne_true
      exact if_neg hnot
  | true =>
    obtain ⟨response, hserve, hconsistent⟩ := h.head_consistent artifact headers seeks
    refine ⟨response, hserve, ?_, fun _ hhead => absurd hhead.symm Bool.false_ne_true⟩
    exact hconsistent.encoded.trans (and_iff_right hzstd)

/-- **Refused codings**: a client is sent no coding it refused, and the body in every other case,
unless it names zstd only to refuse it. -/
theorem refused_codings (zstdDecode : Bytes → Option Bytes) (headers : Headers) :
    Respected zstdDecode headers ↔ ¬ OnlyRefused headers := by
  rw [← acceptsZstd_respects]
  constructor
  · exact fun h => h.1
  · intro hrespects
    refine ⟨hrespects, fun located body hcoherent hzstd artifact head seeks => ?_⟩
    obtain ⟨response, hserve, hencoding, hbody⟩ :=
      answer_of_acceptsZstd hcoherent hzstd artifact headers head seeks
    refine ⟨response, hserve, fun hframe => hrespects (hencoding.mp hframe), fun hnot => ?_⟩
    have hno : ¬ acceptsZstd headers = true := mt hrespects hnot
    exact ⟨mt hencoding.mp hno, hbody (Bool.eq_false_iff.mpr hno)⟩

/-- `Accept-Encoding: zstd;q=0`, in bytes. -/
def refusingHeaders : Headers := [("accept-encoding", [122, 115, 116, 100, 59, 113, 61, 48])]

/-- A client that opts out of zstd is sent the frame. -/
theorem refused_coding_sent :
    acceptsZstd refusingHeaders = true ∧ ¬ TakesZstd refusingHeaders ∧
      ∃ response, serveArtifact letterDecode true (.ok (some letterLocated)) letterArtifact
          refusingHeaders false true = some response ∧
        response.header "content-encoding" = some "zstd" ∧ response.body = letterFrame := by
  refine ⟨by decide +kernel, ?_, ?_⟩
  · rintro ⟨value, hvalue, element, hmem, -, htakes⟩
    have hall : ((headerText refusingHeaders "accept-encoding").all fun value =>
        (elements value).all refuses) = true := by decide +kernel
    rw [hvalue, Option.all_some, List.all_eq_true] at hall
    exact Bool.false_ne_true (htakes.symm.trans (hall element hmem))
  · refine ⟨_, rfl, ?_, ?_⟩
    · decide +kernel
    · decide +kernel

end Flywheel.Http
