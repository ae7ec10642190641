import Mathlib
import Flywheel.Lib.Float
import Flywheel.Lib.Maximal
import Flywheel.Lib.Text

/-!
# Accept negotiation (`negotiate_python`, `negotiate_npm`)

Two representations compete: the protocol's default, which takes the ties of wildcards, and the
other one, which a client gets that asks for nothing. A header is gone through once, and for each of
the two the most specific range that names it is kept, with the best quality among those.

Over qualities that are numbers this is the maximum that a header defines, in whatever order its
ranges stand (`Right`). A quality may be NaN, though, and what is kept first then stays: the answer
depends on the order unless the other representation wins anyway (`Steady`, `fair_iff`).
-/

set_option autoImplicit false

namespace Flywheel.Negotiation

open Lib

/-! ## The functions -/

/-- How specific a range is about a representation, and the quality it gives it. -/
abbrev Offer := ℕ × F32

def mediaRange (range : String) : String × F32 :=
  let fields := split ';' range
  let mediaType := asciiLower (trimWhiteSpace (fields.head?.getD ""))
  let parameters := fields.tail.filterMap fun field =>
    match cut '=' (trimWhiteSpace field) with
    | (name, some value) => some (name, value)
    | (_, none) => none
  let quality := (parameters.findSome? fun (name, value) =>
    if asciiLower (trimWhiteSpace name) = "q" then F32.parse (trimWhiteSpace value).toList
    else none).getD F32.one
  (mediaType, Unordered.clamp F32.zero F32.one quality)

/-- The second is more specific, or as specific and better. -/
def Outdone (current next : Offer) : Prop :=
  current.1 < next.1 ∨ (next.1 = current.1 ∧ current.2.Below next.2)

instance : DecidableRel Outdone := fun _ _ => inferInstanceAs (Decidable (_ ∨ _))

def offer (candidate : Option Offer) (specificity : ℕ) (quality : F32) : Option Offer :=
  keepBest Outdone candidate (specificity, quality)

def Outranks (preferred other : Offer) : Prop :=
  other.2.Below preferred.2 ∨ (preferred.2.Same other.2 ∧ 0 < preferred.1 ∧ other.1 ≤ preferred.1)

instance : DecidableRel Outranks := fun _ _ => inferInstanceAs (Decidable (_ ∨ _))

def acceptable (candidate : Option Offer) : Option Offer :=
  candidate.filter fun candidate => F32.zero.Below candidate.2

/-- How specific a media type is about the default and about the other representation. -/
abbrev Table := String → Option ℕ × Option ℕ

/-- One range of the header. -/
def offerRange (table : Table) (candidates : Option Offer × Option Offer) (range : String) :
    Option Offer × Option Offer :=
  let (mediaType, quality) := mediaRange range
  let offerAt (candidate : Option Offer) : Option ℕ → Option Offer
    | some specificity => offer candidate specificity quality
    | none => candidate
  (offerAt candidates.1 (table mediaType).1, offerAt candidates.2 (table mediaType).2)

def verdict : Option Offer → Option Offer → Option Bool
  | none, none => none
  | none, some _ => some false
  | some _, none => some true
  | some preferred, some other => some (decide (Outranks preferred other))

/-- The header is there and is not blank. -/
def given (accept : Option String) : Option String :=
  accept.filter fun value => trimWhiteSpace value ≠ ""

/-- Whether the default is chosen, if one of the two is. -/
def negotiate (table : Table) (accept : Option String) : Option Bool :=
  match given accept with
  | none => some false
  | some accept =>
    let (preferred, other) := (split ',' accept).foldl (offerRange table) (none, none)
    verdict (acceptable preferred) (acceptable other)

inductive PythonRepresentation where
  | html
  | json
  deriving DecidableEq

/-- JSON, then HTML. -/
def pythonTable : Table
  | "application/vnd.pypi.simple.v1+json" | "application/vnd.pypi.simple.latest+json" =>
    (some 2, none)
  | "application/vnd.pypi.simple.v1+html" | "application/vnd.pypi.simple.latest+html"
  | "text/html" => (none, some 2)
  | "application/*" => (some 1, some 1)
  | "text/*" => (none, some 1)
  | "*/*" => (some 0, some 0)
  | _ => (none, none)

def pythonRepresentation (preferred : Bool) : PythonRepresentation :=
  if preferred then .json else .html

def negotiatePython (accept : Option String) : Option PythonRepresentation :=
  (negotiate pythonTable accept).map pythonRepresentation

/-- The abbreviated document, then the full one. -/
def npmTable : Table
  | "application/vnd.npm.install-v1+json" => (some 2, none)
  | "application/json" => (none, some 2)
  | "application/*" => (some 1, some 1)
  | "*/*" => (some 0, some 0)
  | _ => (none, none)

/-- Whether the document is abbreviated. -/
def negotiateNpm (accept : Option String) : Option Bool := negotiate npmTable accept

/-! ## What a header says -/

/-- The media ranges of a header. A blank one has none. -/
def ranges (accept : Option String) : List String :=
  match given accept with
  | none => []
  | some accept => split ',' accept

/-- The same media ranges, in another order and any number of times. -/
def Rearranged (accept accept' : Option String) : Prop :=
  ∀ range, range ∈ ranges accept' ↔ range ∈ ranges accept

/-- How specific a media type is about one of the two. -/
def Table.specificity (table : Table) (preferred : Bool) (mediaType : String) : Option ℕ :=
  if preferred then (table mediaType).1 else (table mediaType).2

/-- What a range offers to one of the two. -/
def Table.offer? (table : Table) (preferred : Bool) (range : String) : Option Offer :=
  (table.specificity preferred (mediaRange range).1).map fun s => (s, (mediaRange range).2)

/-- What a header offers to each of the two. -/
def Table.offers (table : Table) (accept : Option String) (preferred : Bool) : Set Offer :=
  {o | ∃ range ∈ ranges accept, table.offer? preferred range = some o}

/-- `q` is the best quality, as far as they are numbers, of the most specific offers. -/
structure IsBest (offers : Set Offer) (s : ℕ) (q : WithBot (WithTop ℤ)) : Prop where
  offered : (s, .number q) ∈ offers
  specific : ∀ o ∈ offers, o.1 ≤ s
  best : ∀ q', (s, .number q') ∈ offers → q' ≤ q

/-- The best quality is positive, and a NaN stands beside it. -/
def Spoiled (offers : Set Offer) : Prop :=
  ∃ s q, IsBest offers s q ∧ 0 < q ∧ (s, .nan) ∈ offers

/-- The representation has the highest quality of all that are acceptable, and it is not named by a
wildcard alone where another of the same quality is named explicitly. None is chosen where none is
acceptable. -/
structure Highest {R : Type} (offers : R → Set Offer) (answer : Option R) : Prop where
  chosen : ∀ r, answer = some r → ∃ s q, IsBest (offers r) s q ∧ 0 < q ∧
    ∀ r' s' q', IsBest (offers r') s' q' → 0 < q' → q' ≤ q ∧ (q' = q → 2 ≤ s' → 2 ≤ s)
  refused : answer = none → ∀ r s q, IsBest (offers r) s q → ¬ 0 < q

/-- The answer is the same for every arrangement of the header, and it is the highest. -/
structure Fair {R : Type} (offers : Option String → R → Set Offer)
    (negotiate : Option String → Option R) (accept : Option String) : Prop where
  rearranged : ∀ accept', Rearranged accept accept' → negotiate accept' = negotiate accept
  highest : ranges accept ≠ [] → Highest (offers accept) (negotiate accept)

/-- With these offers the representation is chosen over the other. -/
def Beats : Bool → Offer → Offer → Prop
  | true, own, theirs => Outranks own theirs
  | false, own, theirs => ¬ Outranks theirs own

/-- Where one of the two is spoiled, the other is not, and it wins against the best quality of the
spoiled one. -/
def Steady (offers : Bool → Set Offer) : Prop :=
  ∀ b, Spoiled (offers b) → ¬ Spoiled (offers !b) ∧ ∃ s q, IsBest (offers !b) s q ∧ 0 < q ∧
    ∀ s' q', IsBest (offers b) s' q' → Beats (!b) (s, .number q) (s', .number q')

/-! ## One representation -/

instance : IsStrictOrder Offer Outdone where
  irrefl o := by
    rintro (hlt | ⟨-, hlt⟩)
    · exact lt_irrefl _ hlt
    · exact Unordered.not_below_self _ hlt
  trans a b c := by
    rintro (hab | ⟨hab, hq⟩) (hbc | ⟨hbc, hq'⟩)
    · exact .inl (hab.trans hbc)
    · exact .inl (hbc ▸ hab)
    · exact .inl (hab ▸ hbc)
    · exact .inr ⟨hbc.trans hab, hq.trans hq'⟩

section Representation

variable {offers : Set Offer} {l : List Offer} {s s' : ℕ} {q q' : WithBot (WithTop ℤ)}

theorem IsBest.unique (h : IsBest offers s q) (h' : IsBest offers s' q') : s' = s ∧ q' = q := by
  obtain rfl : s' = s := le_antisymm (h.specific _ h'.offered) (h'.specific _ h.offered)
  exact ⟨rfl, le_antisymm (h.best _ h'.offered) (h'.best _ h.offered)⟩

/-- What an offer is not outdone by: less specific ones, and those of the same specificity that are
not better. -/
theorem not_outdone_iff {o o' : Offer} :
    ¬ Outdone o o' ↔ o'.1 ≤ o.1 ∧ (o'.1 = o.1 → ¬ o.2.Below o'.2) := by
  rw [Outdone, not_or, not_lt, not_and]

theorem isBest_iff : IsBest offers s q ↔
    (s, .number q) ∈ offers ∧ ∀ o ∈ offers, ¬ Outdone (s, .number q) o := by
  constructor
  · intro h
    refine ⟨h.offered, fun o ho => not_outdone_iff.mpr ⟨h.specific o ho, fun hs hlt => ?_⟩⟩
    obtain ⟨s', quality⟩ := o
    obtain rfl : s' = s := hs
    obtain ⟨q', rfl, hlt'⟩ := Unordered.exists_of_below hlt
    exact (h.best q' ho).not_gt hlt'
  · rintro ⟨hoffered, hmax⟩
    refine ⟨hoffered, fun o ho => (not_outdone_iff.mp (hmax o ho)).1, fun q' hq' => ?_⟩
    exact le_of_not_gt ((not_outdone_iff.mp (hmax _ hq')).2 rfl)

theorem mem_acceptable {candidate : Option Offer} {o : Offer} : o ∈ acceptable candidate ↔
    candidate = some o ∧ ∃ q, o.2 = .number q ∧ 0 < q := by
  rw [acceptable, Option.mem_def, Option.filter_eq_some_iff, decide_eq_true_iff]
  refine and_congr_right fun _ => ⟨Unordered.exists_of_below, ?_⟩
  rintro ⟨q, hq, hpos⟩
  rw [hq]
  exact hpos

/-- The candidate of a representation once all its offers are gone through, if it is acceptable. -/
def accepted (l : List Offer) : Option Offer := acceptable (l.foldl (keepBest Outdone) none)

/-- What is accepted is the best there is. -/
theorem isBest_of_accepted {o : Offer} (h : o ∈ accepted l) :
    ∃ s q, o = (s, .number q) ∧ IsBest {o | o ∈ l} s q ∧ 0 < q := by
  obtain ⟨hfold, q, hq, hpos⟩ := mem_acceptable.mp h
  obtain ⟨s, quality⟩ := o
  obtain rfl : quality = .number q := hq
  exact ⟨s, q, rfl, isBest_iff.mpr (foldl_keepBest_unbeaten hfold), hpos⟩

/-- Where nothing is spoiled the best there is is accepted. -/
theorem accepted_of_isBest (hclean : ¬ Spoiled {o | o ∈ l}) (h : IsBest {o | o ∈ l} s q)
    (hpos : 0 < q) : accepted l = some (s, .number q) := by
  have hne : l ≠ [] := List.ne_nil_of_mem h.offered
  obtain ⟨⟨s', quality⟩, hfold⟩ := Option.ne_none_iff_exists'.mp
    (foldl_keepBest_ne_none (r := Outdone) hne)
  obtain ⟨hmem, hmax⟩ := foldl_keepBest_unbeaten hfold
  have hs : s' = s :=
    le_antisymm (h.specific _ hmem) (not_outdone_iff.mp (hmax _ h.offered)).1
  cases quality with
  | nan => exact absurd ⟨s, q, h, hpos, hs ▸ hmem⟩ hclean
  | number q' =>
    obtain ⟨rfl, rfl⟩ := h.unique (isBest_iff.mpr ⟨hmem, hmax⟩)
    exact mem_acceptable.mpr ⟨hfold, q', rfl, hpos⟩

/-- An offer nothing is better than is kept when it comes first. -/
theorem accepted_cons {o : Offer} (h : ∀ o' ∈ l, ¬ Outdone o o') :
    accepted (o :: l) = acceptable (some o) :=
  congrArg acceptable (foldl_keepBest_of_unbeaten h)

theorem IsBest.accepted_first (h : IsBest {o | o ∈ l} s q) (hpos : 0 < q) :
    accepted ((s, .number q) :: l) = some (s, .number q) := by
  rw [accepted_cons (isBest_iff.mp h).2]
  exact mem_acceptable.mpr ⟨rfl, q, rfl, hpos⟩

/-- And so is a NaN, which is not acceptable. -/
theorem IsBest.accepted_nan_first (h : IsBest {o | o ∈ l} s q) :
    accepted ((s, .nan) :: l) = none := by
  have hmax : ∀ o ∈ l, ¬ Outdone (s, .nan) o := fun o ho =>
    not_outdone_iff.mpr ⟨h.specific o ho, fun _ => Unordered.not_nan_below _⟩
  rw [accepted_cons hmax]
  refine Option.eq_none_iff_forall_not_mem.mpr fun o ho => ?_
  obtain ⟨hsome, q, hq, -⟩ := mem_acceptable.mp ho
  cases hsome
  cases hq

end Representation

/-! ## The two together -/

section Verdict

variable {offers : Bool → Set Offer} {answer answer' : Option Bool} {b : Bool}

theorem beats_not {own theirs : Offer} : Beats (!b) theirs own ↔ ¬ Beats b own theirs := by
  cases b with
  | false => exact not_not.symm
  | true => rfl

/-- Who beats the other has no lower quality, and is named explicitly if the other is and the
qualities are equal. -/
theorem Beats.le {s s' : ℕ} {q q' : WithBot (WithTop ℤ)}
    (h : Beats b (s, .number q) (s', .number q')) : q' ≤ q ∧ (q' = q → 2 ≤ s' → 2 ≤ s) := by
  cases b with
  | true =>
    obtain hlt | ⟨hsame, -, hs⟩ := h
    · have hlt : q' < q := hlt
      exact ⟨hlt.le, fun heq => absurd heq hlt.ne⟩
    · have hsame : q = q' := hsame
      exact ⟨hsame.ge, fun _ hexplicit => le_trans hexplicit hs⟩
  | false =>
    obtain ⟨hle, hno⟩ := not_or.mp h
    refine ⟨le_of_not_gt hle, fun heq hexplicit => ?_⟩
    by_contra hwild
    have hpos : 0 < s' := by omega
    have hs : s ≤ s' := by omega
    exact hno ⟨heq, hpos, hs⟩

theorem verdict_eq_none (candidate : Bool → Option Offer) :
    verdict (candidate true) (candidate false) = none ↔ ∀ b, candidate b = none := by
  rw [Bool.forall_bool]
  cases candidate true <;> cases candidate false <;> simp [verdict]

theorem verdict_eq_some (candidate : Bool → Option Offer) :
    verdict (candidate true) (candidate false) = some b ↔
      ∃ own ∈ candidate b, ∀ theirs ∈ candidate !b, Beats b own theirs := by
  cases b with
  | true =>
    cases htrue : candidate true <;> cases hfalse : candidate false <;>
      simp [verdict, Beats, hfalse]
  | false =>
    cases htrue : candidate true <;> cases hfalse : candidate false <;>
      simp [verdict, Beats, htrue]

/-- The answer that the best offers call for. -/
def Right (offers : Bool → Set Offer) : Option Bool → Prop
  | none => ∀ b s q, IsBest (offers b) s q → ¬ 0 < q
  | some b => ∃ s q, IsBest (offers b) s q ∧ 0 < q ∧
    ∀ s' q', IsBest (offers !b) s' q' → 0 < q' → Beats b (s, .number q) (s', .number q')

theorem Right.unique (h : Right offers answer) (h' : Right offers answer') : answer' = answer := by
  cases answer with
  | none =>
    cases answer' with
    | none => rfl
    | some b =>
      obtain ⟨s, q, hbest, hpos, -⟩ := h'
      exact absurd hpos (h b s q hbest)
  | some b =>
    obtain ⟨s, q, hbest, hpos, hbeats⟩ := h
    cases answer' with
    | none => exact absurd hpos (h' b s q hbest)
    | some b' =>
      by_cases hb : b' = b
      · rw [hb]
      · obtain rfl : b' = !b := Bool.eq_not.mpr hb
        obtain ⟨s', q', hbest', hpos', hbeats'⟩ := h'
        rw [Bool.not_not] at hbeats'
        exact absurd (hbeats s' q' hbest' hpos') (beats_not.mp (hbeats' s q hbest hpos))

theorem Right.highest (h : Right offers answer) : Highest offers answer := by
  refine ⟨fun b hb => ?_, fun hnone => ?_⟩
  · subst hb
    obtain ⟨s, q, hbest, hpos, hbeats⟩ := h
    refine ⟨s, q, hbest, hpos, fun b' s' q' hbest' hpos' => ?_⟩
    by_cases hb : b' = b
    · subst hb
      obtain ⟨rfl, rfl⟩ := hbest.unique hbest'
      exact ⟨le_refl _, fun _ => id⟩
    · obtain rfl : b' = !b := Bool.eq_not.mpr hb
      exact (hbeats s' q' hbest' hpos').le
  · subst hnone
    exact h

/-- The verdict is right unless what is spoiled could have won. -/
theorem right_of_steady {lists : Bool → List Offer} (h : Steady fun b => {o | o ∈ lists b}) :
    Right (fun b => {o | o ∈ lists b})
      (verdict (accepted (lists true)) (accepted (lists false))) := by
  cases hverdict : verdict (accepted (lists true)) (accepted (lists false)) with
  | none =>
    have hnone := (verdict_eq_none fun b => accepted (lists b)).mp hverdict
    intro b s q hbest hpos
    by_cases hspoiled : Spoiled {o | o ∈ lists b}
    · obtain ⟨hclean, s', q', hbest', hpos', -⟩ := h b hspoiled
      cases (hnone !b).symm.trans (accepted_of_isBest hclean hbest' hpos')
    · cases (hnone b).symm.trans (accepted_of_isBest hspoiled hbest hpos)
  | some b =>
    obtain ⟨own, hown, hbeats⟩ :=
      (verdict_eq_some fun b => accepted (lists b)).mp hverdict
    obtain ⟨s, q, rfl, hbest, hpos⟩ := isBest_of_accepted hown
    refine ⟨s, q, hbest, hpos, fun s' q' hbest' hpos' => ?_⟩
    by_cases hspoiled : Spoiled {o | o ∈ lists !b}
    · obtain ⟨-, s'', q'', hbest'', -, hwins⟩ := h (!b) hspoiled
      simp only [Bool.not_not] at hbest'' hwins
      obtain ⟨rfl, rfl⟩ := hbest.unique hbest''
      exact hwins s' q' hbest'
    · exact hbeats _ (accepted_of_isBest hspoiled hbest' hpos')

end Verdict

/-! ## Headers -/

section Headers

variable {table : Table} {accept accept' : Option String}

/-- The offers to one of the two, in the order of the header. -/
def Table.offerList (table : Table) (accept : Option String) (preferred : Bool) : List Offer :=
  (ranges accept).filterMap (table.offer? preferred)

theorem mem_offerList (b : Bool) : {o | o ∈ table.offerList accept b} = table.offers accept b :=
  Set.ext fun _ => List.mem_filterMap

/-- Each of the two candidates is kept on its own. -/
theorem foldl_offerRange (l : List String) (preferred other : Option Offer) :
    l.foldl (offerRange table) (preferred, other) =
      ((l.filterMap (table.offer? true)).foldl (keepBest Outdone) preferred,
        (l.filterMap (table.offer? false)).foldl (keepBest Outdone) other) := by
  induction l generalizing preferred other with
  | nil => rfl
  | cons range l ih =>
    rw [List.foldl_cons, List.filterMap_cons, List.filterMap_cons]
    simp only [offerRange, Table.offer?, Table.specificity]
    cases (table (mediaRange range).1).1 <;> cases (table (mediaRange range).1).2 <;>
      exact ih _ _

theorem negotiate_eq (h : ranges accept ≠ []) : negotiate table accept =
    verdict (accepted (table.offerList accept true)) (accepted (table.offerList accept false)) := by
  rw [negotiate, Table.offerList, Table.offerList, ranges] at *
  cases hgiven : given accept with
  | none =>
    rw [hgiven] at h
    exact absurd rfl h
  | some value =>
    dsimp only
    rw [foldl_offerRange]
    rfl

theorem negotiate_of_ranges_nil (h : ranges accept = []) : negotiate table accept = some false := by
  cases hgiven : given accept with
  | none => rw [negotiate, hgiven]
  | some value =>
    rw [ranges, hgiven] at h
    exact absurd h (split_ne_nil ',' value)

theorem Rearranged.offers_eq (h : Rearranged accept accept') :
    table.offers accept' = table.offers accept := by
  funext b
  ext o
  simp only [Table.offers, Set.mem_ofPred_eq, h _]

/-- Any range of a header may be said first. -/
theorem exists_first {range : String} (h : range ∈ ranges accept) :
    ∃ accept', Rearranged accept accept' ∧ ranges accept' = range :: ranges accept := by
  have hcomma : ∀ range ∈ ranges accept, ',' ∉ range.toList := by
    intro range hrange
    rw [ranges] at hrange
    split at hrange
    · cases hrange
    · exact not_mem_of_mem_split hrange
  obtain ⟨first, rest, hranges⟩ := List.exists_cons_of_ne_nil (List.ne_nil_of_mem h)
  have hgiven : given (some (join ',' (range :: ranges accept))) =
      some (join ',' (range :: ranges accept)) := by
    refine Option.filter_eq_some_iff.mpr ⟨rfl, decide_eq_true ?_⟩
    refine trimWhiteSpace_ne_empty (c := ',') (by decide) ?_
    rw [hranges]
    exact mem_join ',' range first rest
  have hsplit : ranges (some (join ',' (range :: ranges accept))) = range :: ranges accept := by
    rw [ranges, hgiven]
    refine split_join (fun t ht => ?_) (List.cons_ne_nil _ _)
    obtain rfl | ht := List.mem_cons.mp ht
    · exact hcomma _ h
    · exact hcomma t ht
  refine ⟨_, fun range' => ?_, hsplit⟩
  rw [hsplit, List.mem_cons, or_iff_right_of_imp]
  rintro rfl
  exact h

end Headers

/-! ## When the answer is fair -/

section Fair

variable {table : Table} {accept : Option String} {b : Bool}

/-- Where one of the two is spoiled, an arrangement refuses it and another one accepts it. So only
the other can be what every arrangement chooses, and it wins against the best of the first. -/
theorem Fair.of_spoiled (h : Fair table.offers (negotiate table) accept)
    (hspoiled : Spoiled (table.offers accept b)) :
    negotiate table accept = some (!b) ∧ ∃ s q, IsBest (table.offers accept !b) s q ∧ 0 < q ∧
      ∀ s' q', IsBest (table.offers accept b) s' q' → Beats (!b) (s, .number q) (s', .number q') := by
  obtain ⟨s, q, hbest, hpos, hnan⟩ := hspoiled
  obtain ⟨numbered, hnumbered, hoffer⟩ := hbest.offered
  obtain ⟨unordered, hunordered, hoffer'⟩ := hnan
  rw [← mem_offerList] at hbest
  obtain ⟨accepting, hsame, hranges⟩ := exists_first hnumbered
  obtain ⟨refusing, hsame', hranges'⟩ := exists_first hunordered
  have hanswer := h.rearranged accepting hsame
  have hanswer' := h.rearranged refusing hsame'
  have haccepted : accepted (table.offerList accepting b) = some (s, .number q) := by
    rw [Table.offerList, hranges, List.filterMap_cons_some hoffer]
    exact hbest.accepted_first hpos
  have hrefused : accepted (table.offerList refusing b) = none := by
    rw [Table.offerList, hranges', List.filterMap_cons_some hoffer']
    exact hbest.accepted_nan_first
  rw [negotiate_eq (by rw [hranges]; exact List.cons_ne_nil _ _)] at hanswer
  rw [negotiate_eq (by rw [hranges']; exact List.cons_ne_nil _ _)] at hanswer'
  have hchosen : negotiate table accept = some !b := by
    cases hcase : negotiate table accept with
    | none =>
      have hnone := (verdict_eq_none fun b => accepted (table.offerList accepting b)).mp
        (hanswer.trans hcase)
      cases (hnone b).symm.trans haccepted
    | some b' =>
      by_cases hb : b' = b
      · subst hb
        obtain ⟨own, hown, -⟩ :=
          (verdict_eq_some fun b => accepted (table.offerList refusing b)).mp
            (hanswer'.trans hcase)
        cases hrefused.symm.trans hown
      · rw [Bool.eq_not.mpr hb]
  refine ⟨hchosen, ?_⟩
  obtain ⟨own, hown, hbeats⟩ :=
    (verdict_eq_some fun b => accepted (table.offerList accepting b)).mp
      (hanswer.trans hchosen)
  obtain ⟨s', q', rfl, hbest', hpos'⟩ := isBest_of_accepted hown
  rw [mem_offerList, hsame.offers_eq] at hbest'
  refine ⟨s', q', hbest', hpos', fun s'' q'' hbest'' => ?_⟩
  rw [← mem_offerList] at hbest''
  obtain ⟨rfl, rfl⟩ := hbest.unique hbest''
  rw [Bool.not_not] at hbeats
  exact hbeats _ haccepted

theorem fair_iff :
    Fair table.offers (negotiate table) accept ↔ Steady (table.offers accept) := by
  constructor
  · intro h b hspoiled
    obtain ⟨hchosen, hwins⟩ := h.of_spoiled hspoiled
    refine ⟨fun hspoiled' => ?_, hwins⟩
    obtain ⟨hchosen', -⟩ := h.of_spoiled hspoiled'
    rw [Bool.not_not, hchosen, Option.some.injEq] at hchosen'
    exact Bool.not_ne_self b hchosen'
  · intro h
    have hright : ∀ accept', table.offers accept' = table.offers accept → ranges accept' ≠ [] →
        Right (table.offers accept) (negotiate table accept') := by
      intro accept' hsame hne
      rw [negotiate_eq hne, ← hsame]
      have hsteady : Steady (table.offers accept') := hsame ▸ h
      have hlists : (fun b => {o | o ∈ table.offerList accept' b}) = table.offers accept' :=
        funext mem_offerList
      rw [← hlists] at hsteady ⊢
      exact right_of_steady hsteady
    refine ⟨fun accept' hsame => ?_, fun hne => (hright accept rfl hne).highest⟩
    by_cases hne : ranges accept = []
    · have hne' : ranges accept' = [] := List.eq_nil_iff_forall_not_mem.mpr fun range hrange => by
        rw [hsame range, hne] at hrange
        exact List.not_mem_nil hrange
      rw [negotiate_of_ranges_nil hne, negotiate_of_ranges_nil hne']
    · have hne' : ranges accept' ≠ [] := by
        obtain ⟨range, hrange⟩ := List.exists_mem_of_ne_nil _ hne
        exact List.ne_nil_of_mem ((hsame range).mpr hrange)
      exact (hright accept rfl hne).unique (hright accept' hsame.offers_eq hne')

end Fair

/-! ## The two protocols -/

section Names

variable {R : Type} {name : Bool → R} {offers : R → Set Offer}

/-- The representations may go by other names. -/
theorem highest_map (hname : name.Bijective) {answer : Option Bool} :
    Highest offers (answer.map name) ↔ Highest (fun b => offers (name b)) answer := by
  constructor
  · intro h
    refine ⟨fun b hb => ?_, fun hnone b => h.refused (by rw [hnone]; rfl) (name b)⟩
    obtain ⟨s, q, hbest, hpos, hmax⟩ := h.chosen (name b) (by rw [hb]; rfl)
    exact ⟨s, q, hbest, hpos, fun b' => hmax (name b')⟩
  · intro h
    refine ⟨fun r hr => ?_, fun hnone r => ?_⟩
    · obtain ⟨b, hb, rfl⟩ := Option.map_eq_some_iff.mp hr
      obtain ⟨s, q, hbest, hpos, hmax⟩ := h.chosen b hb
      refine ⟨s, q, hbest, hpos, fun r' => ?_⟩
      obtain ⟨b', rfl⟩ := hname.surjective r'
      exact hmax b'
    · obtain ⟨b, rfl⟩ := hname.surjective r
      exact h.refused (Option.map_eq_none_iff.mp hnone) b

theorem fair_map (hname : name.Bijective) {offers : Option String → R → Set Offer}
    {negotiate : Option String → Option Bool} {accept : Option String} :
    Fair offers (fun accept => (negotiate accept).map name) accept ↔
      Fair (fun accept b => offers accept (name b)) negotiate accept := by
  constructor
  · intro h
    refine ⟨fun accept' hsame => ?_, fun hne => (highest_map hname).mp (h.highest hne)⟩
    exact Option.map_injective hname.injective (h.rearranged accept' hsame)
  · intro h
    refine ⟨fun accept' hsame => ?_, fun hne => (highest_map hname).mpr (h.highest hne)⟩
    exact congrArg (Option.map name) (h.rearranged accept' hsame)

end Names

def pythonOffers (accept : Option String) (representation : PythonRepresentation) : Set Offer :=
  pythonTable.offers accept (representation = .json)

theorem pythonOffers_representation (accept : Option String) (b : Bool) :
    pythonOffers accept (pythonRepresentation b) = pythonTable.offers accept b := by
  cases b <;> rfl

theorem pythonRepresentation_bijective : pythonRepresentation.Bijective := by
  refine ⟨?_, fun r => ?_⟩
  · intro b b' h
    cases b <;> cases b' <;> first | rfl | cases h
  · cases r with
    | html => exact ⟨false, rfl⟩
    | json => exact ⟨true, rfl⟩

/-- **Negotiation**: the answer is the highest, and the same for every arrangement of the header,
unless a representation that a NaN may hide could have won. -/
theorem negotiation_fair (accept : Option String) :
    (Fair pythonOffers negotiatePython accept ↔ Steady (pythonTable.offers accept)) ∧
      (Fair npmTable.offers negotiateNpm accept ↔ Steady (npmTable.offers accept)) := by
  refine ⟨?_, fair_iff⟩
  have hmap : Fair pythonOffers negotiatePython accept ↔
      Fair (fun accept b => pythonOffers accept (pythonRepresentation b)) (negotiate pythonTable)
        accept :=
    fair_map pythonRepresentation_bijective
  simp only [pythonOffers_representation] at hmap
  exact hmap.trans fair_iff

/-- The same two ranges, with the NaN first and with the NaN last. -/
theorem nan_hides_document : ∃ accept accept', Rearranged accept accept' ∧
    negotiateNpm accept = none ∧ negotiateNpm accept' = some false ∧
    ¬ Fair npmTable.offers negotiateNpm accept := by
  have hranges : ranges (some "application/json;q=nan, application/json;q=0.5") =
      ["application/json;q=nan", " application/json;q=0.5"] := by
    decide +kernel
  have hranges' : ranges (some " application/json;q=0.5,application/json;q=nan") =
      [" application/json;q=0.5", "application/json;q=nan"] := by
    decide +kernel
  have hsame : Rearranged (some "application/json;q=nan, application/json;q=0.5")
      (some " application/json;q=0.5,application/json;q=nan") := by
    intro range
    rw [hranges, hranges', List.mem_pair, List.mem_pair, or_comm]
  have hnone : negotiateNpm (some "application/json;q=nan, application/json;q=0.5") = none := by
    decide +kernel
  have hfull : negotiateNpm (some " application/json;q=0.5,application/json;q=nan") =
      some false := by
    decide +kernel
  refine ⟨_, _, hsame, hnone, hfull, fun hfair => ?_⟩
  cases hfull.symm.trans ((hfair.rearranged _ hsame).trans hnone)

end Flywheel.Negotiation
