import Flywheel.Shard.EvictionQueue
import Flywheel.Shard.Gates

/-!
# What publications report

A publication reads whether there is a record in one step and writes its batch in a later one. It
holds the stripe of the artifact and the shared side of the channel's gate in between, so that no
lookup, no eviction and no deletion comes in, and the record is as it was (`Found`). So the answer,
Created or Existing, is about the moment of the batch.

A record comes about in one other way only: a requeue writes back what it has read, though a
deletion of the channel has cleared it since.
-/

set_option autoImplicit false

namespace Flywheel

open Lib

variable {ι : Type} [DecidableEq ι] {E : Env ι} {i j : ι} {e : Event} {s s' : Shared ι}
  {t t' : Task} {p p' q : Shard ι} {c : ChannelId} {a : ArtifactId} {r : PublishRequest}

/-- What becomes of a record that is there. -/
inductive Loss (t : Task) (c : ChannelId) (a : ArtifactId) : Prop where
  | healed {found : Option ArtifactMetadata} (ht : t = .locate c a (.removeWrite found))
  | evicted {candidate : Candidate} {decision : Decision} {found : Option ArtifactMetadata}
    (ht : t = .maintain c candidate decision (.evictWrite found)) (ha : candidate.artifact = a)
  | deleted {credential : Option Bytes} {g : Nat} (ht : t = .delete c credential (.deleteData g))

/-- A record stays, or one of three kinds of task has taken it away. -/
theorem Move.record_loss (h : Move E i s t s' t') (hbefore : (s.record c a).isSome) :
    (s'.record c a).isSome ∨ Loss t c a := by
  cases h.record_change c a with
  | keep hsame => exact .inl (hsame ▸ hbefore)
  | created now ht hc ha hrecord => exact .inl (by rw [hrecord]; rfl)
  | requeued ht ha hrecord => exact .inl (by rw [hrecord]; rfl)
  | healed ht => exact .inr (.healed ht)
  | evicted ht ha => exact .inr (.evicted ht ha)
  | deleted ht hnone =>
    -- the other steps of a deletion write to the registry only
    cases h.store with
    | @deleteData c' credential g ht' hs =>
      by_cases hc : c' = c
      · subst hc
        exact .inr (.deleted ht')
      · refine .inl ?_
        have hsame : s'.record c a = s.record c a := by simp [Shared.record, hs, hc]
        rwa [hsame]
    | keep hs => exact .inl (by rwa [Shared.record, hs])
    | delete ht' hs =>
      have hsame : s'.record c a = s.record c a := by simp [Shared.record, hs]
      exact .inl (by rwa [hsame])
    | finish ht' hs =>
      have hsame : s'.record c a = s.record c a := by simp [Shared.record, hs]
      exact .inl (by rwa [hsame])
    | publication now ht' => subst ht'; cases ht
    | heal ht' => subst ht'; cases ht
    | requeue ht' => subst ht'; cases ht
    | evict ht' => subst ht'; cases ht
    | reference now ht' => subst ht'; cases ht
    | register ht' => subst ht'; cases ht
    | patch ht' => subst ht'; cases ht

/-- A publication that has found a record is right about it until it writes. -/
def Found (E : Env ι) (p : Shard ι) : Prop :=
  ∀ j r f, p.task j = .publish r (.commitWrite f true) →
    (p.shared.record r.channel (r.artifact E)).isSome

/-- Nobody takes the record away while a publication holds the stripe and the gate. -/
theorem Found.fire (h : Found E p) (hlocked : Locked E p) (hgated : Gated p)
    (hfire : p.fire E i e = some p') : Found E p' := by
  obtain ⟨hown, hother⟩ := Shard.fire_eq_some hfire
  intro j r f ht
  by_cases hj : j = i
  · subst hj
    have hfrom := step_from hown
    rw [ht] at hfrom
    obtain ⟨-, -, hpc⟩ | ⟨pc, -, -, hs, hfound⟩ := hfrom
    · cases hpc
    · rw [hs]
      exact hfound.symm
  · rw [hother j hj] at ht
    refine ((step_move hown).record_loss (h j r f ht)).resolve_right fun hloss => ?_
    have hstripe : (p.task j).stripe E = some (E.stripe r.channel (r.artifact E)) := by
      rw [ht]
      rfl
    have hfenced : (p.task j).fenced = some r.channel := by
      rw [ht]
      rfl
    cases hloss with
    | healed hi => exact hj (hlocked.eq_of_stripe hstripe (by rw [hi]; rfl))
    | evicted hi ha => exact hj (hlocked.eq_of_stripe hstripe (by rw [hi, ← ha]; rfl))
    | @deleted credential g hi =>
      have hwrite : (p.task i).writeGate = some (r.channel, g) := by
        rw [hi]
        rfl
      exact hgated.not_fenced hlocked hwrite j hfenced

theorem lost_ne_publish (t : Task) (r : PublishRequest) (pc : PublishPc) :
    t.lost ≠ .publish r pc := by
  cases t <;> rintro ⟨⟩

theorem found_of_reach {G : Shard ι → Action ι → Prop} (h : (shard E).Reach G p) : Found E p := by
  refine h.invariant_of_reach (I := Found E) ?_ fun x act y hx hfound _ hstep => ?_
  · rintro _ ⟨expirySeconds, now, rfl⟩ j r f ⟨⟩
  · cases act with
    | thread i e => exact hfound.fire (locked_of_reach hx) (gated_of_reach hx) hstep
    | crash =>
      obtain rfl : y = x.crash := hstep
      exact fun j r f ht => absurd ht (lost_ne_publish (x.task j) r _)
    | losePower d z =>
      obtain ⟨-, -, rfl⟩ := hstep
      exact fun j r f ht => absurd ht (lost_ne_publish (x.task j) r _)

theorem done_of_lost {created : Bool} (h : t.lost = .done (.published r created)) :
    t = .done (.published r created) := by
  cases t with
  | done o => exact h
  | _ => cases h

/-- No step here takes the record of `(c, a)` away. -/
def Keeping (c : ChannelId) (a : ArtifactId) (p : Shard ι) : Action ι → Prop
  | .thread i _ => ¬ Loss (p.task i) c a
  | .crash => True
  | .losePower _ _ => False

/-- What the answer of a publication says about the record before and after its batch. -/
structure Reported (E : Env ι) (p p' : Shard ι) (r : PublishRequest) (created : Bool) : Prop where
  made : created = true → p.shared.record r.channel (r.artifact E) = none ∧
    ∃ f now, p'.shared.record r.channel (r.artifact E) = some (r.metadata E f now)
  existing : created = false → ∃ m, p.shared.record r.channel (r.artifact E) = some m ∧
    p'.shared.record r.channel (r.artifact E) = some m

/-- A publication is answered by the step that writes its batch. -/
theorem step_to_answer {created : Bool}
    (h : Task.step E i e s t = some (s', .done (.published r created))) :
    ∃ f now, t = .publish r (.commitWrite f (!created)) ∧
      s' = r.release E i f (s.commit r.durability (r.batch E f (!created) now)) := by
  obtain ⟨f, found, now, rfl, hs⟩ := step_to_published h
  cases e with
  | run now =>
    obtain ⟨-, hdone⟩ := Prod.mk.inj (Option.some.inj h)
    cases hdone
    exact ⟨f, _, by rw [Bool.not_not], by rw [Bool.not_not]; exact hs⟩
  | fail =>
    obtain ⟨-, hdone⟩ := Prod.mk.inj (Option.some.inj h)
    cases hdone
  | _ => cases h

theorem reported_of_step (hreading : Reading ((p.task i).view E p.shared i).record (p.task i))
    (hfound : Found E p) (hfire : p.fire E i e = some p') {created : Bool}
    (hdone : p'.task i = .done (.published r created)) : Reported E p p' r created := by
  have hown := (Shard.fire_eq_some hfire).1
  rw [hdone] at hown
  obtain ⟨f, now, ht, hs⟩ := step_to_answer hown
  have hrecord : p'.shared.record r.channel (r.artifact E) =
      if created = true then some (r.metadata E f now)
      else p.shared.record r.channel (r.artifact E) := by
    rw [hs]
    show (Shared.commit _ _ _).record _ _ = _
    rw [Shared.commit_record, PublishRequest.batch, RocksMetadata.commitBatch_artifact]
    cases created <;> simp [Shared.record]
  cases created with
  | true =>
    refine ⟨fun _ => ⟨?_, f, now, by rw [hrecord, if_pos rfl]⟩, fun h => by cases h⟩
    rw [ht] at hreading
    exact hreading rfl
  | false =>
    refine ⟨(fun h => by cases h), fun _ => ?_⟩
    obtain ⟨m, hm⟩ := Option.isSome_iff_exists.mp (hfound i r f ht)
    exact ⟨m, hm, by rw [hrecord, if_neg Bool.false_ne_true, hm]⟩

/-- Where a record comes from. -/
inductive PublishedFrom (E : Env ι) (t t' : Task) (c : ChannelId) (a : ArtifactId) : Prop where
  | published {r : PublishRequest} (ht' : t' = .done (.published r true)) (hc : r.channel = c)
    (ha : r.artifact E = a)
  /-- It was there when the pass read it. -/
  | requeued {candidate : Candidate} {new : UInt64} {m : ArtifactMetadata}
    (ht : t = .maintain c candidate (.requeue new) (.requeueWrite m)) (ha : candidate.artifact = a)

theorem origin_of_step (hfire : p.fire E i e = some p') (hnone : p.shared.record c a = none)
    (hsome : (p'.shared.record c a).isSome) : PublishedFrom E (p.task i) (p'.task i) c a := by
  have hown := (Shard.fire_eq_some hfire).1
  cases (step_move hown).record_change c a with
  | keep h =>
    rw [h, hnone] at hsome
    cases hsome
  | @created r f now ht hc ha h =>
    refine .published (r := r) ?_ hc ha
    rw [ht] at hown
    cases e with
    | run now =>
      obtain ⟨-, ht'⟩ := Prod.mk.inj (Option.some.inj hown)
      exact ht'.symm
    | fail =>
      -- a batch that fails leaves the store alone
      obtain ⟨hs, -⟩ := Prod.mk.inj (Option.some.inj hown)
      have hsame : p'.shared.record c a = p.shared.record c a := by
        rw [← hs]
        rfl
      rw [hsame, hnone] at hsome
      cases hsome
    | _ => cases hown
  | requeued ht ha h => exact .requeued ht ha
  | healed ht h | evicted ht ha hfound h | deleted ht h =>
    rw [h] at hsome
    cases hsome

/-- **Publications answer the truth.** Under every interleaving a publication answers Created
exactly if its batch has made the record, and Existing only if the record was there, and is as it
was; a record comes about by a publication that answers Created, or by a requeue across a deletion
of its channel, or by a loss of power; and while nothing takes a record away, no publication of
its artifact answers Created. -/
theorem publications_report {G : Shard ι → Action ι → Prop} (h : (shard E).Reach G p) :
    (∀ i e p' r created, p.fire E i e = some p' → p'.task i = .done (.published r created) →
      Reported E p p' r created) ∧
    (∀ act p' c a, (shard E).step p act p' → p.shared.record c a = none →
      (p'.shared.record c a).isSome → (∃ d x, act = .losePower d x) ∨
        ∃ i e, act = .thread i e ∧ PublishedFrom E (p.task i) (p'.task i) c a) ∧
    (∀ c a q, (p.shared.record c a).isSome → (shard E).Steps (Keeping c a) p q →
      (q.shared.record c a).isSome ∧ ∀ i r, q.task i = .done (.published r true) →
        r.channel = c → r.artifact E = a → p.task i = .done (.published r true)) := by
  have hreported : ∀ {x : Shard ι}, (shard E).Reach G x ∨ (shard E).Reach (fun _ _ => True) x →
      ∀ i e y r created, x.fire E i e = some y → y.task i = .done (.published r created) →
        Reported E x y r created := by
    intro x hx i e y r created hfire hdone
    have hreach : (shard E).Reach (fun _ _ => True) x :=
      hx.elim (fun hx => hx.mono fun _ _ _ => trivial) id
    exact reported_of_step (reading_of_reach hreach i) (found_of_reach hreach) hfire hdone
  refine ⟨hreported (.inl h), fun act p' c a hstep hnone hsome => ?_, fun c a q hrecord hsteps => ?_⟩
  · cases act with
    | thread i e => exact .inr ⟨i, e, rfl, origin_of_step hstep hnone hsome⟩
    | crash =>
      obtain rfl : p' = p.crash := hstep
      have hsame : p.crash.shared.record c a = p.shared.record c a := rfl
      rw [hsame, hnone] at hsome
      cases hsome
    | losePower d x => exact .inl ⟨d, x, rfl⟩
  · refine hsteps.preserves_of_reach (G := fun _ _ => True) (I := fun x =>
      (x.shared.record c a).isSome ∧ ∀ i r, x.task i = .done (.published r true) →
        r.channel = c → r.artifact E = a → p.task i = .done (.published r true)) ?_
      (fun _ _ _ => trivial) (h.mono fun _ _ _ => trivial) ⟨hrecord, fun _ _ ht _ _ => ht⟩
    rintro x act y hx ⟨hsome, hold⟩ hkeeping hstep
    cases act with
    | thread i e =>
      obtain ⟨hown, hother⟩ := Shard.fire_eq_some hstep
      refine ⟨((step_move hown).record_loss hsome).resolve_right hkeeping, ?_⟩
      intro k r hk hc ha
      by_cases hki : k = i
      · subst hki
        have hnone := ((hreported (.inr hx) k e y r true hstep hk).made rfl).1
        rw [hc, ha] at hnone
        rw [hnone] at hsome
        cases hsome
      · rw [hother k hki] at hk
        exact hold k r hk hc ha
    | crash =>
      obtain rfl : y = x.crash := hstep
      refine ⟨hsome, fun k r hk hc ha => hold k r ?_ hc ha⟩
      exact done_of_lost hk
    | losePower d z => exact absurd hkeeping id

/-- Whoever steps is not at work on anything but a publication. -/
def onlyPublishes (p : Shard (BitVec 128)) : Action (BitVec 128) → Bool
  | .thread i _ =>
    match p.task i with
    | .publish .. | .idle => true
    | _ => false
  | _ => false

theorem keeping_of_onlyPublishes (p : Shard (BitVec 128)) (act : Action (BitVec 128))
    (h : onlyPublishes p act = true) : Keeping c a p act := by
  cases act with
  | thread i e =>
    intro hloss
    cases hloss with
    | healed ht | evicted ht | deleted ht =>
      rw [onlyPublishes, ht] at h
      cases h
  | _ => cases h

def firstUpload : List (Action (BitVec 128)) :=
  .thread 0 (.start (.publish (sampleUpload .default .bestEffort .identity))) :: steps 0 100 14

def secondUpload : List (Action (BitVec 128)) :=
  .thread 1 (.start (.publish (sampleUpload .default .bestEffort .identity))) :: steps 1 200 13

/-- The second of two uploads of an artifact answers Existing. -/
theorem second_upload_exists : ∃ p q : Shard (BitVec 128),
    (shard sampleEnv).Reach (fun _ _ => True) p ∧
    (shard sampleEnv).Steps (Keeping .default sampleArtifact) p q ∧
    (q.shared.record .default sampleArtifact).isSome ∧
    q.task 1 = .done (.published (sampleUpload .default .bestEffort .identity) false) := by
  have hrun : (sampleRun (fun _ _ => true) firstUpload).any (fun p =>
      (p.shared.record .default sampleArtifact).isSome &&
        (System.exec (Shard.act sampleEnv) onlyPublishes p secondUpload).any fun q =>
          decide (q.task 1 = .done (.published (sampleUpload .default .bestEffort .identity) false))) =
      true := by
    decide
  obtain ⟨p, hp, hrecord⟩ := reach_of_sampleRun (G := fun _ _ => True) _ (fun _ _ _ => trivial) _ _
    hrun
  obtain ⟨hrecord, hsecond⟩ := (Bool.and_eq_true _ _).mp hrecord
  obtain ⟨q, hsteps, hq⟩ := steps_of_sample onlyPublishes keeping_of_onlyPublishes hsecond
  obtain ⟨-, -, hkept⟩ := publications_report hp
  exact ⟨p, q, hp, hsteps, (hkept _ _ q hrecord hsteps).1, of_decide_eq_true hq⟩

end Flywheel
