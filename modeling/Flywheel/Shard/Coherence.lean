import Flywheel.Shard.Ownership
import Flywheel.Shard.Sample

/-!
# Records describe the bodies they stand for

A record and a body are written and removed by separate actions, so either may be left
over alone: an eviction that fails after its unlink leaves a record, a publication that
fails after its rename leaves a body. A later publication of the same artifact then keeps
the left-over half as it is and adds only the missing one: `publish_reserved` keeps a
file that exists, `commit_publication` keeps a record that exists, and neither looks at
the encoding. `Coherent` therefore fails after an interrupted eviction and a publication in
the other encoding (`coherence_lost`).

It holds along every run in which each publication that finds exactly one half finds one
that fits it (`FitsLeftovers`, a condition on the state at its existence check).
-/

set_option autoImplicit false

namespace Flywheel

open Lib

variable {ι : Type} {E : Env ι}

/-! ## Coherence -/

/-- The record `m` describes the file `f` as a stored form of the artifact `a`. -/
def Describes (E : Env ι) (m : ArtifactMetadata) (f : Bytes) (a : ArtifactId) : Prop :=
  f.length = m.storedLen ∧
    ∃ body, E.decode m.encoding f = some body ∧ body.length = m.contentLen ∧
      E.sha256 body = a.digest

/-- Every record with a body describes it. -/
def Coherent (E : Env ι) (s : Shared ι) : Prop :=
  ∀ c a m f, s.record c a = some m → s.body c a = some f → Describes E m f a

/-- Moving the deadline does not change what a record describes. -/
theorem Describes.requeue {m : ArtifactMetadata} {f : Bytes} {a : ArtifactId}
    (h : Describes E m f a) (t : UInt64) : Describes E { m with eligibleAt := t } f a := h

namespace PublishRequest

/-- A left-over record fits the upload: same encoding and lengths. -/
def FitsRecord (E : Env ι) (r : PublishRequest) (m : ArtifactMetadata) : Prop :=
  m.encoding = r.encoding ∧ m.storedLen = (r.stored E).length ∧ m.contentLen = r.body.length

/-- A left-over file fits the upload: same length, and it decodes to the same body. -/
def FitsFile (E : Env ι) (r : PublishRequest) (f : Bytes) : Prop :=
  f.length = (r.stored E).length ∧ E.decode r.encoding f = some r.body

variable {r : PublishRequest}

/-- The staged file fits. -/
theorem fitsFile_stored : r.FitsFile E (r.stored E) :=
  ⟨rfl, E.decode_encode r.encoding r.stream⟩

/-- The record a publication writes describes every file that fits. -/
theorem FitsFile.describes {f : Bytes} (h : r.FitsFile E f) (hchecked : r.Checked E)
    (fence : Fence) (now : UInt64) : Describes E (r.metadata E fence now) f (r.artifact E) :=
  ⟨h.1, r.body, h.2, rfl, hchecked⟩

/-- A record that fits describes the staged file. -/
theorem FitsRecord.describes {m : ArtifactMetadata} (h : r.FitsRecord E m)
    (hchecked : r.Checked E) : Describes E m (r.stored E) (r.artifact E) := by
  obtain ⟨hencoding, hstored, hcontent⟩ := h
  refine ⟨hstored.symm, r.body, ?_, hcontent.symm, hchecked⟩
  rw [hencoding]
  exact E.decode_encode r.encoding r.stream

end PublishRequest

/-! ## The runs -/

/-- Publications, lookups, maintenance and startup recovery, with failures and crashes. -/
def Interrupted (p : Shard ι) : Action ι → Prop
  | .thread i _ => ¬ (p.task i).isDelete
  | .crash => True
  | .losePower _ _ => False

/-- A publication that finds exactly one of record and body finds one that fits it. -/
def FitsLeftovers (E : Env ι) (p : Shard ι) : Action ι → Prop
  | .thread i (.run _) =>
    match p.task i with
    | .publish r (.tryExists _) =>
      (∀ m, p.shared.record r.channel (r.artifact E) = some m →
        p.shared.body r.channel (r.artifact E) = none → r.FitsRecord E m) ∧
      (∀ f, p.shared.body r.channel (r.artifact E) = some f →
        p.shared.record r.channel (r.artifact E) = none → r.FitsFile E f)
    | _ => True
  | _ => True

/-! ## The invariant -/

/-- The content of the body in a view. -/
def View.content (v : View) : Option Bytes := v.body.bind Kind.bytes

/-- Past its existence check, a publication knows that what it keeps fits. -/
def Fitting (E : Env ι) (v : View) : Task → Prop
  | .publish r pc =>
    match pc with
    | .rename _ => ∀ m, v.record = some m → r.FitsRecord E m
    | .removeStaged _ | .syncParent _ | .commitRead _ =>
      v.record = none → ∀ f, v.content = some f → r.FitsFile E f
    | .commitWrite _ found => found = false → ∀ f, v.content = some f → r.FitsFile E f
    | _ => True
  | _ => True

variable [DecidableEq ι] {i : ι} {e : Event} {s s' : Shared ι} {t t' : Task}

/-- A publication's own steps establish that what it keeps fits. -/
theorem fitting_publish {p p' : Shard ι} {r : PublishRequest} {pc pc' : PublishPc}
    (hpc : p.task i = .publish r pc) (hfits : FitsLeftovers E p (.thread i e))
    (hstep : publishStep E i r pc e p.shared = some (p'.shared, .publish r pc'))
    (hknows : Knows E ((Task.publish r pc').view E p'.shared i) (.publish r pc'))
    (hJ : Fitting E ((Task.publish r pc).view E p.shared i) (.publish r pc)) :
    Fitting E ((Task.publish r pc').view E p'.shared i) (.publish r pc') := by
  have h := publishStep_to hstep
  cases pc' with
  | removeStaged f =>
    obtain ⟨rfl, hs, -⟩ := h
    obtain ⟨now, rfl⟩ := event_of_tryExists hstep (.inl rfl)
    simp only [FitsLeftovers, hpc] at hfits
    rw [hs]
    exact fun hrecord g hg => hfits.2 g hg hrecord
  | rename f =>
    obtain ⟨rfl, hs, hnone⟩ := h
    obtain ⟨now, rfl⟩ := event_of_tryExists hstep (.inr rfl)
    simp only [FitsLeftovers, hpc] at hfits
    have hbody : p.shared.body r.channel (r.artifact E) = none := by
      rw [Shared.body, Disk.content]
      exact Option.bind_eq_none_iff.mpr fun k hk => by cases hnone.symm.trans hk
    rw [hs]
    exact fun m hm => hfits.1 m hm hbody
  | syncParent f =>
    intro _ g hg
    rw [View.content, hknows.2] at hg
    obtain rfl : r.stored E = g := Option.some.inj hg
    exact PublishRequest.fitsFile_stored
  | commitRead f =>
    have hbody : p'.shared.kindAt (r.final E) = p.shared.kindAt (r.final E) :=
      (publish_move hstep).body_change r.channel (r.artifact E) |>.keep_of (by
        rcases h with ⟨rfl, -⟩ | ⟨rfl, -⟩ <;> rfl)
    have hrecord : p'.shared.record r.channel (r.artifact E) =
        p.shared.record r.channel (r.artifact E) := by
      rcases h with ⟨-, hs⟩ | ⟨-, hs⟩ <;> rw [hs] <;> rfl
    intro hnone g hg
    have hg' : (p.shared.kindAt (r.final E)).bind Kind.bytes = some g := by rw [← hbody]; exact hg
    have hnone' : p.shared.record r.channel (r.artifact E) = none := by rw [← hrecord]; exact hnone
    rcases h with ⟨rfl, -⟩ | ⟨rfl, -⟩
    · exact hJ hnone' g hg'
    · exact hJ hnone' g hg'
  | commitWrite f found =>
    obtain ⟨rfl, hs, -⟩ := h
    intro hfalse
    have hnone : p.shared.record r.channel (r.artifact E) = none := by
      have hfound : found = (p'.shared.record r.channel (r.artifact E)).isSome := hknows.2.2
      rw [hfalse, hs] at hfound
      exact Option.isNone_iff_eq_none.mp (by simpa using hfound.symm)
    rw [hs]
    exact hJ hnone
  | _ => trivial

/-- One step of a run that meets the condition keeps `Fitting` and `Coherent`. -/
theorem coherent_fire {p p' : Shard ι} (hlocked : Locked E p) (hdelete : ¬ (p.task i).isDelete)
    (hknows : ∀ j, Knows E ((p.task j).view E p.shared j) (p.task j))
    (hfits : FitsLeftovers E p (.thread i e)) (hfire : p.fire E i e = some p')
    (hJ : ∀ j, Fitting E ((p.task j).view E p.shared j) (p.task j)) (hC : Coherent E p.shared) :
    (∀ j, Fitting E ((p'.task j).view E p'.shared j) (p'.task j)) ∧ Coherent E p'.shared := by
  have hstep := (Shard.fire_eq_some hfire).1
  refine ⟨assertion_fire hlocked hfire hdelete hJ ?_, ?_⟩
  · -- the stepping thread: only publications have something to show
    have hknows' := knows_local hstep (hknows i)
    revert hstep hknows'
    cases hp' : p'.task i with
    | publish r pc' =>
      intro hstep hknows'
      rcases step_from hstep with ⟨-, -, rfl⟩ | ⟨pc, hpc, -⟩
      · trivial
      · have hJi := hJ i
        rw [hpc] at hstep hJi
        exact fitting_publish hpc hfits hstep hknows' hJi
    | _ => exact fun _ _ => trivial
  · -- the records and bodies: each kind of change either comes with its counterpart or fits
    have hmove := step_move hstep
    have hki := hknows i
    have hJi := hJ i
    intro c a m f hm hf
    rw [Shared.body_eq] at hf
    cases hmove.record_change c a with
    | keep hrecord =>
      rw [hrecord] at hm
      cases hmove.body_change c a with
      | keep hbody =>
        rw [hbody] at hf
        exact hC c a m f hm hf
      | @renamed r g ht ht' hc ha hbody =>
        subst hc ha
        rw [ht] at hki hJi
        rw [hbody, show p.shared.kindAt _ = _ from hki.1] at hf
        obtain rfl : r.stored E = f := Option.some.inj hf
        exact (hJi m hm).describes hki.2.1
      | evicted _ _ _ hbody | reconciled _ hbody | deleted _ hbody =>
        rw [hbody] at hf
        cases hf
    | @created r g now ht hc ha hrecord =>
      subst hc ha
      rw [(hmove.body_change _ _).keep_of (by rw [ht]; rfl)] at hf
      rw [ht] at hki hJi
      obtain rfl : r.metadata E g now = m := Option.some.inj (hrecord.symm.trans hm)
      exact (hJi rfl f hf).describes hki.1 g now
    | @requeued candidate m₀ new ht ha hrecord =>
      subst ha
      rw [(hmove.body_change _ _).keep_of (by rw [ht]; rfl)] at hf
      rw [ht] at hki
      obtain rfl : { m₀ with eligibleAt := new } = m := Option.some.inj (hrecord.symm.trans hm)
      exact (hC c candidate.artifact m₀ f hki hf).requeue new
    | healed _ hrecord | evicted _ _ _ hrecord | deleted _ hrecord =>
      rw [hrecord] at hm
      cases hm

/-! ## Every run -/

omit [DecidableEq ι] in
theorem fitting_lost (v : View) (t : Task) : Fitting E v t.lost := by
  cases t <;> trivial

theorem coherent_of_reach {p : Shard ι}
    (h : (shard E).Reach (fun p a => Interrupted p a ∧ FitsLeftovers E p a) p) :
    Coherent E p.shared := by
  have hnodelete : ∀ (p : Shard ι) a, Interrupted p a ∧ FitsLeftovers E p a → NoDelete p a := by
    rintro p (⟨i, e⟩ | _ | _) ⟨hi, -⟩
    · exact hi
    · trivial
    · trivial
  have hinv : (∀ j, Fitting E ((p.task j).view E p.shared j) (p.task j)) ∧
      Coherent E p.shared := by
    refine h.invariant_of_reach (I := fun p =>
      (∀ j, Fitting E ((p.task j).view E p.shared j) (p.task j)) ∧ Coherent E p.shared) ?_ ?_
    · rintro _ ⟨expirySeconds, now, rfl⟩
      exact ⟨fun _ => trivial, fun c a m f hm => by cases hm⟩
    · rintro x a y hx ⟨hJ, hC⟩ ⟨hint, hfits⟩ hstep
      cases a with
      | thread i e =>
        exact coherent_fire (locked_of_reach hx) hint (knows_of_reach hnodelete hx) hfits hstep hJ hC
      | crash =>
        obtain rfl : y = x.crash := hstep
        refine ⟨fun j => fitting_lost _ (x.task j), fun c a m f hm hf => hC c a m f hm ?_⟩
        rw [Shared.body_eq] at hf ⊢
        rw [← x.shared.restart_kindAt (isTmpPath_path c a)]
        exact hf
      | losePower d z => exact hint.elim
  exact hinv.2

/-- In every state of every run that meets the condition, records describe their bodies,
and so do the hits of lookups that are not interrupted. -/
theorem coherent_of_fitting {p : Shard ι}
    (h : (shard E).Reach (fun p a => Interrupted p a ∧ FitsLeftovers E p a) p) :
    Coherent E p.shared ∧
      ∀ i c a m f now now' p₁ p₂, p.task i = .locate c a .read →
        p.fire E i (.run now) = some p₁ → p₁.fire E i (.run now') = some p₂ →
        p₂.task i = .done (.located c a (some (m, f))) → Describes E m f a := by
  have hcoherent := coherent_of_reach h
  refine ⟨hcoherent, ?_⟩
  intro i c a m f now now' p₁ p₂ hread h₁ h₂ hdone
  have hstep₂ := (Shard.fire_eq_some h₂).1
  rw [hdone] at hstep₂
  obtain ⟨hopen, hbody⟩ := step_to_hit hstep₂
  have hstep₁ := (Shard.fire_eq_some h₁).1
  rw [hread, hopen] at hstep₁
  rcases step_from hstep₁ with ⟨hidle, -⟩ | ⟨pc, -, -, hsame, hrecord⟩
  · cases hidle
  · rw [hsame] at hbody
    exact hcoherent c a m f hrecord hbody

/-! ## A left-over half -/

instance (p : Shard ι) : DecidablePred (Interrupted p)
  | .thread i _ => inferInstanceAs (Decidable ¬ (p.task i).isDelete)
  | .crash => .isTrue trivial
  | .losePower _ _ => .isFalse id

/-- Publish the body `a`, start to evict it, let the eviction fail once the body is unlinked,
and publish the body again in another encoding. -/
def republish (encoding : StoredEncoding) : List (Action (BitVec 128)) :=
  .thread 0 (.start (.publish (sampleUpload .default .bestEffort .identity))) :: steps 0 100 14 ++
  .thread 1 (.start (.maintain .default ⟨200, sampleArtifact⟩ .evict)) :: steps 1 300 3 ++
  .thread 1 .fail ::
  .thread 2 (.start (.publish (sampleUpload .default .bestEffort encoding))) :: steps 2 400 14

/-- After an interrupted eviction, a publication in the other encoding leaves a record of
one identity byte beside a file that is a ten-byte frame. -/
theorem coherence_lost : ∃ p : Shard (BitVec 128),
    (shard sampleEnv).Reach Interrupted p ∧
      p.shared.record .default sampleArtifact = some ⟨1, none, 100, 200, 1, .identity⟩ ∧
      p.shared.body .default sampleArtifact = some (rawFrame [97]) ∧
      ¬ Coherent sampleEnv p.shared := by
  obtain ⟨p, hp, hcheck⟩ := reach_of_sampleRun (G := Interrupted)
    (fun p a => decide (Interrupted p a)) (fun _ _ => of_decide_eq_true) (republish .zstd)
    (fun p => decide (p.shared.record .default sampleArtifact =
        some ⟨1, none, 100, 200, 1, .identity⟩ ∧
      p.shared.body .default sampleArtifact = some (rawFrame [97]))) (by decide)
  obtain ⟨hrecord, hbody⟩ := of_decide_eq_true hcheck
  refine ⟨p, hp, hrecord, hbody, fun hcoherent => ?_⟩
  exact absurd (hcoherent _ _ _ _ hrecord hbody).1 (by decide)

/-- The condition at a publication's existence check, evaluated. -/
def fitsLeftovers (E : Env ι) (p : Shard ι) : Action ι → Bool
  | .thread i (.run _) =>
    match p.task i with
    | .publish r (.tryExists _) =>
      match p.shared.record r.channel (r.artifact E), p.shared.body r.channel (r.artifact E) with
      | some m, none =>
        decide (m.encoding = r.encoding ∧ m.storedLen = (r.stored E).length ∧
          m.contentLen = r.body.length)
      | none, some f =>
        decide (f.length = (r.stored E).length ∧ E.decode r.encoding f = some r.body)
      | _, _ => true
    | _ => true
  | _ => true

omit [DecidableEq ι] in
theorem fitsLeftovers_sound {p : Shard ι} {a : Action ι} (h : fitsLeftovers E p a = true) :
    FitsLeftovers E p a := by
  cases a with
  | thread i e =>
    cases e with
    | run now =>
      unfold FitsLeftovers
      unfold fitsLeftovers at h
      grind [PublishRequest.FitsRecord, PublishRequest.FitsFile]
    | _ => trivial
  | _ => trivial

/-- Published again in the same encoding, the left-over record describes the new body. -/
theorem coherent_after_republish : ∃ p : Shard (BitVec 128),
    (shard sampleEnv).Reach (fun p a => Interrupted p a ∧ FitsLeftovers sampleEnv p a) p ∧
      p.shared.record .default sampleArtifact = some ⟨1, none, 100, 200, 1, .identity⟩ ∧
      p.shared.body .default sampleArtifact = some [97] ∧
      Describes sampleEnv ⟨1, none, 100, 200, 1, .identity⟩ [97] sampleArtifact := by
  obtain ⟨p, hp, hcheck⟩ := reach_of_sampleRun
    (G := fun p a => Interrupted p a ∧ FitsLeftovers sampleEnv p a)
    (fun p a => decide (Interrupted p a) && fitsLeftovers sampleEnv p a)
    (fun p a h => by
      rw [Bool.and_eq_true] at h
      exact ⟨of_decide_eq_true h.1, fitsLeftovers_sound h.2⟩)
    (republish .identity)
    (fun p => decide (p.shared.record .default sampleArtifact =
        some ⟨1, none, 100, 200, 1, .identity⟩ ∧
      p.shared.body .default sampleArtifact = some [97])) (by decide)
  obtain ⟨hrecord, hbody⟩ := of_decide_eq_true hcheck
  exact ⟨p, hp, hrecord, hbody, (coherent_of_fitting hp).1 _ _ _ _ hrecord hbody⟩

end Flywheel
