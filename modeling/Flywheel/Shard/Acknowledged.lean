import Flywheel.Shard.Coherence

/-!
# Acknowledged publications stay

Without failures, crashes and deletions a record and its body come and go together: a task
that separates them holds the stripe until it has reunited them. The one exception is the
self-heal of `locate_local`, which decides on an `open` it made without the stripe and does
not look again once it has the stripe. If an eviction and a new publication slip in
between, it removes the record of the new body (`acknowledged_publication_lost`);
`reconcile` re-checks in the same situation.

`NoStaleHeal` excludes exactly that: no publication renames its body in while a lookup of
the artifact is on its way from a failed open to the self-heal. Along every run that meets
it, `Settled` holds: records and bodies are paired except between the two halves of a
publication or an eviction, and a self-heal finds no body. From there on an acknowledged
publication answers every later lookup until it is evicted.
-/

set_option autoImplicit false

namespace Flywheel

open Lib

variable {ι : Type} {E : Env ι}

/-! ## The runs -/

/-- Any interleaving of the operations, without failures, crashes and deletions. -/
def Uninterrupted (p : Shard ι) : Action ι → Prop
  | .thread i e => ¬ (p.task i).isDelete ∧ e.isFail = false
  | _ => False

/-- No publication renames its body in while a lookup of the artifact is between its failed
open and its self-heal. -/
def NoStaleHeal (E : Env ι) (p : Shard ι) : Action ι → Prop
  | .thread i _ =>
    match p.task i with
    | .publish r (.rename _) => ∀ j, p.task j ≠ .locate r.channel (r.artifact E) .stripe
    | _ => True
  | _ => True

/-- Any interleaving without a stale self-heal. -/
def Undisturbed (E : Env ι) (p : Shard ι) (a : Action ι) : Prop :=
  Uninterrupted p a ∧ NoStaleHeal E p a

theorem Undisturbed.noDelete (p : Shard ι) (a : Action ι) (h : Undisturbed E p a) :
    NoDelete p a := by
  cases a with
  | thread i e => exact h.1.1
  | crash => trivial
  | losePower d x => trivial

/-! ## Pairing -/

/-- Record and body are both there or both absent. -/
def Paired (s : Shared ι) (c : ChannelId) (a : ArtifactId) : Prop :=
  (s.record c a).isSome = (s.kindAt (path c a)).isSome

/-- The task is between the two halves of a publication or an eviction of `(c, a)`. -/
def Task.midway (E : Env ι) (c : ChannelId) (a : ArtifactId) : Task → Prop
  | .publish r pc =>
    r.channel = c ∧ r.artifact E = a ∧
      match pc with
      | .syncParent _ | .commitRead _ | .commitWrite _ _ => True
      | _ => False
  | .maintain c' candidate _ pc =>
    c' = c ∧ candidate.artifact = a ∧
      match pc with
      | .evictRead | .evictWrite _ => True
      | _ => False
  | _ => False

/-- The task is a lookup of `(c, a)` whose open failed. -/
def Task.healing (c : ChannelId) (a : ArtifactId) : Task → Prop
  | .locate c' a' pc =>
    c' = c ∧ a' = a ∧
      match pc with
      | .stripe | .removeRead | .removeWrite _ => True
      | _ => False
  | _ => False

theorem Task.midway.owns {c : ChannelId} {a : ArtifactId} {t : Task} (h : t.midway E c a) :
    t.owns E = some (c, a) := by
  cases t with
  | publish r pc =>
    obtain ⟨rfl, rfl, hpc⟩ := h
    cases pc <;> first | rfl | exact hpc.elim
  | maintain c' candidate decision pc =>
    obtain ⟨rfl, rfl, hpc⟩ := h
    cases pc <;> first | rfl | exact hpc.elim
  | _ => exact h.elim

/-- An eviction past its pre-read has a current candidate, or its artifact is paired. -/
def Settles (v : View) : Task → Prop
  | .maintain _ candidate _ pc =>
    match pc with
    | .evictRead | .evictWrite _ =>
      v.record.map (·.eligibleAt) = some candidate.eligibleAt ∨ v.record.isSome = v.body.isSome
    | _ => True
  | _ => True

structure Settled (E : Env ι) (p : Shard ι) : Prop where
  paired : ∀ c a, Paired p.shared c a ∨ ∃ j, (p.task j).midway E c a
  settles : ∀ j, Settles ((p.task j).view E p.shared j) (p.task j)
  healing : ∀ j c a, (p.task j).healing c a → p.shared.kindAt (path c a) = none

variable {i : ι} {e : Event} {p p' : Shard ι}

/-- Whoever holds the stripe of `(c, a)` without being midway finds it paired. -/
theorem Settled.paired_of_owns (h : Settled E p) (hlocked : Locked E p) {c : ChannelId}
    {a : ArtifactId} (hown : (p.task i).owns E = some (c, a))
    (hmid : ¬ (p.task i).midway E c a) : Paired p.shared c a := by
  rcases h.paired c a with hpaired | ⟨j, hj⟩
  · exact hpaired
  · have hji : j = i := hlocked.eq_of_stripe (k := E.stripe c a)
      (by rw [Task.stripe, hj.owns]; rfl) (by rw [Task.stripe, hown]; rfl)
    exact absurd (hji ▸ hj) hmid

/-- A publication's existence check finds both halves or none. -/
theorem Settled.fits (h : Settled E p) (hlocked : Locked E p)
    (hfile : ∀ c a, p.shared.kindAt (path c a) ≠ some .dir) (a : Action ι) :
    FitsLeftovers E p a := by
  cases a with
  | thread i e =>
    cases e with
    | run now =>
      unfold FitsLeftovers
      dsimp only
      split
      · rename_i r f ht
        have hpaired : Paired p.shared r.channel (r.artifact E) :=
          h.paired_of_owns hlocked (i := i) (by rw [ht]; rfl) (by rw [ht]; simp [Task.midway])
        rw [Paired, ← p.shared.body_isSome (hfile _ _)] at hpaired
        refine ⟨fun m hm hbody => ?_, fun g hg hrecord => ?_⟩
        · rw [hm, hbody] at hpaired
          cases hpaired
        · rw [hg, hrecord] at hpaired
          cases hpaired
      · trivial
    | _ => trivial
  | _ => trivial

/-! ## One step -/

variable [DecidableEq ι]

/-- A lookup heals only after it saw no body, and no publication slips in. -/
theorem Settled.healing_fire (h : Settled E p) (hlocked : Locked E p)
    (hfile : ∀ c a, p.shared.kindAt (path c a) ≠ some .dir) (hdelete : ¬ (p.task i).isDelete)
    (hguard : NoStaleHeal E p (.thread i e)) (hfire : p.fire E i e = some p') :
    ∀ j c a, (p'.task j).healing c a → p'.shared.kindAt (path c a) = none := by
  have hstep := (Shard.fire_eq_some hfire).1
  have hmove := step_move hstep
  refine Pool.fire_inv (J := fun s _ t => ∀ c a, t.healing c a → s.kindAt (path c a) = none)
    h.healing hfire ?_ ?_
  · -- the stepping thread
    intro c a hheal
    cases ht' : p'.task i with
    | locate c' a' pc' =>
      rw [ht'] at hstep hheal
      obtain ⟨rfl, rfl, hpc'⟩ := hheal
      rcases step_from hstep with ⟨-, -, rfl⟩ | ⟨pc, ht, hfrom⟩
      · exact hpc'.elim
      · cases pc' with
        | read | «open» => exact hpc'.elim
        | stripe =>
          obtain ⟨⟨m, rfl⟩, hs, hbody⟩ := hfrom
          have hsome := p.shared.body_isSome (hfile c' a')
          rw [hbody] at hsome
          rw [hs]
          exact Option.isNone_iff_eq_none.mp (by simpa using hsome.symm)
        | removeRead =>
          obtain ⟨rfl, hlock⟩ := hfrom
          obtain ⟨m, -, hs⟩ := Shared.lockStripe_eq_some hlock
          rw [hs]
          exact h.healing i c' a' (by rw [ht]; exact ⟨rfl, rfl, trivial⟩)
        | removeWrite found =>
          obtain ⟨rfl, hs, -⟩ := hfrom
          rw [hs]
          exact h.healing i c' a' (by rw [ht]; exact ⟨rfl, rfl, trivial⟩)
    | _ =>
      rw [ht'] at hheal
      exact hheal.elim
  · -- another lookup: only a rename could bring a body back
    intro j hne hj c a hheal
    have hnone := hj c a hheal
    cases hmove.body_change c a with
    | keep hkeep => rw [hkeep, hnone]
    | @renamed r f ht ht' hc ha hkind =>
      subst hc ha
      cases hj' : p.task j with
      | locate c' a' pc =>
        rw [hj'] at hheal
        obtain ⟨rfl, rfl, hpc⟩ := hheal
        cases pc with
        | read | «open» => exact hpc.elim
        | stripe =>
          simp only [NoStaleHeal, ht] at hguard
          exact absurd hj' (hguard j)
        | removeRead | removeWrite =>
          exact absurd (hlocked.eq_of_stripe (k := E.stripe r.channel (r.artifact E))
            (by rw [hj']; rfl) (by rw [ht]; rfl)) hne
      | _ =>
        rw [hj'] at hheal
        exact hheal.elim
    | evicted _ _ _ hkind | reconciled _ hkind => exact hkind
    | deleted ht => exact absurd ht hdelete

theorem Settled.settles_fire (h : Settled E p) (hlocked : Locked E p)
    (hknows : ∀ j, Knows E ((p.task j).view E p.shared j) (p.task j))
    (hdelete : ¬ (p.task i).isDelete) (hfire : p.fire E i e = some p') :
    ∀ j, Settles ((p'.task j).view E p'.shared j) (p'.task j) := by
  have hstep := (Shard.fire_eq_some hfire).1
  refine assertion_fire hlocked hfire hdelete h.settles ?_
  cases ht' : p'.task i with
  | maintain c candidate decision pc' =>
    rw [ht'] at hstep
    rcases step_from hstep with ⟨-, -, rfl⟩ | ⟨pc, ht, hfrom⟩
    · trivial
    · cases pc' with
      | evictRead =>
        rcases hfrom with ⟨rfl, hs, -⟩ | ⟨rfl, hs⟩
        · -- a stale candidate: nothing was unlinked, so the artifact is still paired
          have hpaired : Paired p.shared c candidate.artifact :=
            h.paired_of_owns hlocked (i := i) (by rw [ht]; rfl) (by rw [ht]; simp [Task.midway])
          rw [hs]
          exact .inr hpaired
        · have hki := hknows i
          rw [ht] at hki
          rw [hs]
          exact .inl hki
      | evictWrite found =>
        obtain ⟨rfl, hs, -⟩ := hfrom
        have hi := h.settles i
        rw [ht] at hi
        rw [hs]
        exact hi
      | _ => trivial
  | _ => trivial

/-- A step that neither fails nor starts an operation is resolved by a clock reading. -/
theorem event_of_midway {s s' : Shared ι} {t t' : Task} {c : ChannelId} {a : ArtifactId}
    (hmid : t.midway E c a) (hfail : e.isFail = false)
    (hstep : Task.step E i e s t = some (s', t')) : ∃ now, e = .run now := by
  cases e with
  | run now => exact ⟨now, rfl⟩
  | fail => cases hfail
  | start op | remove q =>
    cases t with
    | publish r pc => cases pc <;> first | exact hmid.2.2.elim | cases hstep
    | maintain c candidate decision pc => cases pc <;> first | exact hmid.2.2.elim | cases hstep
    | _ => exact hmid.elim

/-- The second half of a publication or an eviction reunites record and body. -/
theorem Settled.midway_fire (h : Settled E p)
    (hknows : Knows E ((p.task i).view E p.shared i) (p.task i)) (hfail : e.isFail = false)
    (hfire : p.fire E i e = some p') {c : ChannelId} {a : ArtifactId}
    (hmid : (p.task i).midway E c a) :
    Paired p'.shared c a ∨ (p'.task i).midway E c a := by
  have hstep := (Shard.fire_eq_some hfire).1
  have hbody := (step_move hstep).body_change c a
  have hsettles := h.settles i
  obtain ⟨now, rfl⟩ := event_of_midway hmid hfail hstep
  cases ht : p.task i with
  | publish r pc =>
    rw [ht] at hmid hstep hknows hbody
    obtain ⟨rfl, rfl, hpc⟩ := hmid
    cases pc with
    | syncParent f | commitRead f =>
      obtain ⟨-, ht'⟩ := Prod.mk.inj (Option.some.inj hstep)
      rw [← ht']
      exact .inr ⟨rfl, rfl, trivial⟩
    | commitWrite f found =>
      obtain ⟨hs, -⟩ := Prod.mk.inj (Option.some.inj hstep)
      obtain ⟨-, hsome, hfound⟩ := hknows
      -- The commit writes the record, unless it found one there.
      have hrecord : (p'.shared.record r.channel (r.artifact E)).isSome = true := by
        rw [← hs]
        show ((p.shared.commit r.durability (r.batch E f found now)).record _ _).isSome = true
        rw [Shared.commit_record, PublishRequest.batch, RocksMetadata.commitBatch_artifact]
        cases found with
        | false => simp
        | true => exact hfound.symm
      left
      rw [Paired, hrecord, hbody.keep_of rfl]
      exact hsome.symm
    | _ => exact hpc.elim
  | maintain c' candidate decision pc =>
    rw [ht] at hmid hstep hknows hsettles hbody
    obtain ⟨rfl, rfl, hpc⟩ := hmid
    cases pc with
    | evictRead =>
      obtain ⟨-, ht'⟩ := Prod.mk.inj (Option.some.inj hstep)
      rw [← ht']
      exact .inr ⟨rfl, rfl, trivial⟩
    | evictWrite found =>
      obtain ⟨hs, -⟩ := Prod.mk.inj (Option.some.inj hstep)
      obtain ⟨hfound, hnone⟩ := hknows
      have hrecord : p'.shared.record c' candidate.artifact =
          if found.map (·.eligibleAt) = some candidate.eligibleAt then none
          else p.shared.record c' candidate.artifact := by
        rw [← hs]
        show (p.shared.commit .bestEffort _).record _ _ = _
        rw [Shared.commit_record, RocksMetadata.evictBatch_artifact]
        simp only [and_self, and_true]
        rfl
      left
      rw [Paired, hbody.keep_of rfl, hrecord]
      -- The eviction deletes the record that it has chosen, and no later one.
      by_cases hmatch : found.map (·.eligibleAt) = some candidate.eligibleAt
      · have hgone : p.shared.kindAt (path c' candidate.artifact) = none :=
          hnone (hfound ▸ hmatch)
        rw [if_pos hmatch, hgone]
        rfl
      · rw [if_neg hmatch]
        exact hsettles.resolve_left (hfound ▸ hmatch)
    | _ => exact hpc.elim
  | _ =>
    rw [ht] at hmid
    exact hmid.elim

/-- Records and bodies stay paired, except where a task has the other half still to do. -/
theorem Settled.paired_fire (h : Settled E p)
    (hknows : ∀ j, Knows E ((p.task j).view E p.shared j) (p.task j))
    (hdelete : ¬ (p.task i).isDelete) (hfail : e.isFail = false)
    (hfire : p.fire E i e = some p') (c : ChannelId) (a : ArtifactId) :
    Paired p'.shared c a ∨ ∃ j, (p'.task j).midway E c a := by
  obtain ⟨hstep, hothers⟩ := Shard.fire_eq_some hfire
  have hmove := step_move hstep
  by_cases hmid : (p.task i).midway E c a
  · exact (h.midway_fire (hknows i) hfail hfire hmid).imp_right fun hi => ⟨i, hi⟩
  rcases h.paired c a with hpaired | ⟨j, hj⟩
  · have hki := hknows i
    rw [Paired] at hpaired ⊢
    cases hmove.record_change c a with
    | keep hrecord =>
      rw [hrecord]
      cases hmove.body_change c a with
      | keep hbody => exact .inl (by rw [hbody, hpaired])
      | renamed _ ht' hc ha => exact .inr ⟨i, by rw [ht']; exact ⟨hc, ha, trivial⟩⟩
      | evicted _ ht' ha => exact .inr ⟨i, by rw [ht']; exact ⟨rfl, ha, trivial⟩⟩
      | reconciled ht hbody =>
        rw [ht] at hki
        have hnone : p.shared.record c a = none := hki
        exact .inl (by rw [hbody, hnone]; rfl)
      | deleted ht => exact absurd ht hdelete
    | created now ht hc ha => exact absurd (by rw [ht]; exact ⟨hc, ha, trivial⟩) hmid
    | @requeued candidate m new ht ha hrecord =>
      subst ha
      rw [ht] at hki
      have hsome : p.shared.record c candidate.artifact = some m := hki
      rw [hsome] at hpaired
      rw [hrecord, (hmove.body_change _ _).keep_of (by rw [ht]; rfl)]
      exact .inl hpaired
    | healed ht hrecord =>
      have hnone := h.healing i c a (by rw [ht]; exact ⟨rfl, rfl, trivial⟩)
      rw [hrecord, (hmove.body_change _ _).keep_of (by rw [ht]; rfl), hnone]
      exact .inl rfl
    | evicted ht ha => exact absurd (by rw [ht]; exact ⟨rfl, ha, trivial⟩) hmid
    | deleted ht => exact absurd ht hdelete
  · have hji : j ≠ i := fun hji => hmid (hji ▸ hj)
    exact .inr ⟨j, by rw [hothers j hji]; exact hj⟩

/-- Along every run that meets the condition the shard is settled. -/
theorem settled_of_reach
    (h : (shard E).Reach (Undisturbed E) p) : Settled E p := by
  refine h.invariant_of_reach ?_ ?_
  · rintro _ ⟨expirySeconds, now, rfl⟩
    refine ⟨fun c a => .inl ?_, fun _ => trivial, fun _ _ _ hheal => hheal.elim⟩
    simp [Paired, Shard.fresh]
  · rintro x act y hx hsettled ⟨hact, hguard⟩ hstep
    cases act with
    | thread i e =>
      have hlocked := locked_of_reach hx
      have hknows := knows_of_reach Undisturbed.noDelete hx
      exact ⟨hsettled.paired_fire hknows hact.1 hact.2 hstep,
        hsettled.settles_fire hlocked hknows hact.1 hstep,
        hsettled.healing_fire hlocked (body_is_file_of_reach Undisturbed.noDelete hx) hact.1 hguard hstep⟩
    | crash => exact hact.elim
    | losePower d z => exact hact.elim

/-! ## After the acknowledgement -/

/-- Record and body are both there. -/
def Present (s : Shared ι) (c : ChannelId) (a : ArtifactId) : Prop :=
  (s.record c a).isSome ∧ (s.kindAt (path c a)).isSome

/-- What is present stays, with the same body, until an eviction unlinks it. -/
theorem Settled.present_fire (h : Settled E p)
    (hknows : ∀ j, Knows E ((p.task j).view E p.shared j) (p.task j))
    (hdelete : ¬ (p.task i).isDelete) (hfire : p.fire E i e = some p') {c : ChannelId}
    {a : ArtifactId} (hkeep : NotEvicting c a p (.thread i e)) (hp : Present p.shared c a) :
    Present p'.shared c a ∧ p'.shared.kindAt (path c a) = p.shared.kindAt (path c a) := by
  have hmove := step_move (Shard.fire_eq_some hfire).1
  have hki := hknows i
  have hbody : p'.shared.kindAt (path c a) = p.shared.kindAt (path c a) := by
    cases hmove.body_change c a with
    | keep hkeep => exact hkeep
    | renamed ht _ hc ha =>
      -- a publication renames only where it found no body
      subst hc ha
      rw [ht] at hki
      have hnone : p.shared.kindAt (path _ _) = none := hki.2.2
      rw [Present, hnone] at hp
      cases hp.2
    | evicted ht _ ha => exact absurd (by rw [ht, Task.evicts, ha]) hkeep
    | reconciled ht =>
      rw [ht] at hki
      have hnone : p.shared.record c a = none := hki
      rw [Present, hnone] at hp
      cases hp.1
    | deleted ht => exact absurd ht hdelete
  refine ⟨⟨?_, by rw [hbody]; exact hp.2⟩, hbody⟩
  cases hmove.record_change c a with
  | keep hrecord => rw [hrecord]; exact hp.1
  | created now _ _ _ hrecord => rw [hrecord]; rfl
  | requeued _ _ hrecord => rw [hrecord]; rfl
  | healed ht =>
    have hnone := h.healing i c a (by rw [ht]; exact ⟨rfl, rfl, trivial⟩)
    rw [Present, hnone] at hp
    cases hp.2
  | evicted ht ha hfound =>
    subst ha
    rw [ht] at hki
    obtain ⟨hrecord, hgone⟩ := hki
    have hnone : p.shared.kindAt (path _ _) = none := hgone (hrecord ▸ hfound)
    rw [Present, hnone] at hp
    cases hp.2
  | deleted ht => exact absurd ht hdelete

/-- A lookup of `(c, a)` that will hit, or has hit. -/
def Served (E : Env ι) (c : ChannelId) (a : ArtifactId) (s : Shared ι) : Task → Prop
  | .locate c' a' pc =>
    c' = c → a' = a →
      match pc with
      | .read => True
      | .open m => ∀ f, s.body c a = some f → Describes E m f a
      | _ => False
  | .done (.located c' a' hit) =>
    c' = c → a' = a → ∃ m f, hit = some (m, f) ∧ Describes E m f a
  | _ => True

theorem served_local {s s' : Shared ι} {t t' : Task} {c : ChannelId} {a : ArtifactId}
    (hstep : Task.step E i e s t = some (s', t')) (hcoherent : Coherent E s)
    (hrecord : (s.record c a).isSome) (hbody : (s.body c a).isSome) (h : Served E c a s t) :
    Served E c a s' t' := by
  cases t' with
  | locate c' a' pc' =>
    rintro rfl rfl
    rcases step_from hstep with ⟨-, -, rfl⟩ | ⟨pc, rfl, hfrom⟩
    · trivial
    · cases pc' with
      | read => trivial
      | «open» m =>
        obtain ⟨rfl, rfl, hm⟩ := hfrom
        exact fun f hf => hcoherent _ _ m f hm hf
      | stripe =>
        obtain ⟨-, -, hnone⟩ := hfrom
        rw [hnone] at hbody
        cases hbody
      | removeRead =>
        obtain ⟨rfl, -⟩ := hfrom
        exact h rfl rfl
      | removeWrite found =>
        obtain ⟨rfl, -⟩ := hfrom
        exact h rfl rfl
  | done o =>
    cases o with
    | located c' a' hit =>
      rintro rfl rfl
      obtain ⟨pc, rfl, hend⟩ := step_to_located hstep
      rcases hend with ⟨-, -, hnone, -⟩ | ⟨m, f, rfl, -, hf, ho⟩ | ⟨found, rfl, -⟩ | ⟨ho, -⟩
      · rw [hnone] at hrecord
        cases hrecord
      · cases ho
        exact ⟨m, f, rfl, h rfl rfl f hf⟩
      · exact (h rfl rfl).elim
      · cases ho
    | _ => trivial
  | _ => trivial

/-- What holds of `(c, a)` from an acknowledgement on, for the lookups in `later`. -/
structure Answered (E : Env ι) (c : ChannelId) (a : ArtifactId) (later : ι → Prop) (p : Shard ι) :
    Prop where
  present : Present p.shared c a
  served : ∀ j, later j → Served E c a p.shared (p.task j)

/-- Where nothing is ever left over, records describe their bodies. -/
theorem coherent_of_undisturbed (h : (shard E).Reach (Undisturbed E) p) : Coherent E p.shared := by
  refine coherent_of_reach (h.mono_of_reach ?_)
  intro x act hx hact
  have hfits := (settled_of_reach hx).fits (locked_of_reach hx)
    (body_is_file_of_reach Undisturbed.noDelete hx) act
  refine ⟨?_, hfits⟩
  cases act with
  | thread i e => exact hact.1.1
  | crash => trivial
  | losePower d z => exact hact.1

/-- A publication is acknowledged with record and body in place. -/
theorem present_of_published (hknows : Knows E ((p.task i).view E p.shared i) (p.task i))
    (hfire : p.fire E i e = some p') {r : PublishRequest} {created : Bool}
    (hdone : p'.task i = .done (.published r created)) :
    Present p'.shared r.channel (r.artifact E) := by
  have hstep := (Shard.fire_eq_some hfire).1
  have hbody := (step_move hstep).body_change r.channel (r.artifact E)
  rw [hdone] at hstep
  obtain ⟨f, found, now, ht, hs⟩ := step_to_published hstep
  rw [ht] at hknows hbody
  obtain ⟨-, hsome, hfound⟩ := hknows
  refine ⟨?_, by rw [hbody.keep_of rfl]; exact hsome⟩
  rw [hs]
  show ((p.shared.commit r.durability (r.batch E f found now)).record _ _).isSome = true
  rw [Shared.commit_record, PublishRequest.batch, RocksMetadata.commitBatch_artifact]
  cases found with
  | false => simp
  | true => exact hfound.symm

/-- From an acknowledgement on, until an eviction unlinks the body. -/
theorem Answered.fire {c : ChannelId} {a : ArtifactId} {later : ι → Prop}
    (hreach : (shard E).Reach (Undisturbed E) p) (h : Answered E c a later p)
    (hact : Undisturbed E p (.thread i e)) (hkeep : NotEvicting c a p (.thread i e))
    (hfire : p.fire E i e = some p') : Answered E c a later p' := by
  obtain ⟨hstep, hothers⟩ := Shard.fire_eq_some hfire
  obtain ⟨hpresent, hsame⟩ := (settled_of_reach hreach).present_fire
    (knows_of_reach Undisturbed.noDelete hreach) hact.1.1 hfire hkeep h.present
  have hbody : (p.shared.body c a).isSome := by
    rw [p.shared.body_isSome (body_is_file_of_reach Undisturbed.noDelete hreach c a)]
    exact h.present.2
  refine ⟨hpresent, fun j hj => ?_⟩
  by_cases hji : j = i
  · subst hji
    exact served_local hstep (coherent_of_undisturbed hreach) h.present.1 hbody (h.served j hj)
  · -- the body is the same, so the lookup still opens what its record describes
    have hserved := h.served j hj
    rw [hothers j hji]
    cases ht : p.task j with
    | locate c' a' pc =>
      rw [ht] at hserved
      intro hc ha
      have hpc := hserved hc ha
      cases pc with
      | «open» m =>
        intro f hf
        rw [Shared.body_eq, hsame, ← Shared.body_eq] at hf
        exact hpc f hf
      | read => trivial
      | stripe | removeRead | removeWrite => exact hpc.elim
    | done o =>
      rw [ht] at hserved
      cases o with
      | located c' a' hit => exact hserved
      | _ => trivial
    | _ => trivial

/-- A lookup that will be answered is not blocked, and returns the body in its second step. -/
theorem Answered.progress {c : ChannelId} {a : ArtifactId} {later : ι → Prop} (now : UInt64)
    (h : Answered E c a later p) (hfile : p.shared.kindAt (path c a) ≠ some .dir) {j : ι}
    (hj : later j) {pc : LocatePc} (ht : p.task j = .locate c a pc) :
    ∃ p', p.fire E j (.run now) = some p' ∧
      ((pc = .read ∧ ∃ m, p'.task j = .locate c a (.open m)) ∨
        ∃ m f, p'.task j = .done (.located c a (some (m, f)))) := by
  have hserved := h.served j hj
  rw [ht] at hserved
  have hpc := hserved rfl rfl
  cases pc with
  | read =>
    obtain ⟨m, hm⟩ := Option.isSome_iff_exists.mp h.present.1
    refine ⟨p.withTask j (.locate c a (.open m)), Shard.fire_withTask ?_,
      .inl ⟨rfl, m, p.withTask_task ..⟩⟩
    rw [ht]
    simp [Task.step, locateStep, hm]
  | «open» m =>
    obtain ⟨f, hf⟩ := Option.isSome_iff_exists.mp ((p.shared.body_isSome hfile).trans h.present.2)
    refine ⟨p.withTask j (.done (.located c a (some (m, f)))), Shard.fire_withTask ?_,
      .inr ⟨m, f, p.withTask_task ..⟩⟩
    rw [ht]
    simp [Task.step, locateStep, hf]
  | stripe | removeRead | removeWrite => exact hpc.elim

/-- In every run without a stale self-heal, a self-heal finds no body, and a publication
that was acknowledged answers every lookup that starts later, until an eviction unlinks the
body: such a lookup is never blocked, and returns a body of the artifact. -/
theorem acknowledged_publication_kept (h : (shard E).Reach (Undisturbed E) p) :
    (∀ i c a found, p.task i = .locate c a (.removeWrite found) →
      p.shared.kindAt (path c a) = none) ∧
    ∀ i e p₁ r created p₂, Undisturbed E p (.thread i e) → p.fire E i e = some p₁ →
      p₁.task i = .done (.published r created) →
      (shard E).Steps
        (fun q act => Undisturbed E q act ∧ NotEvicting r.channel (r.artifact E) q act) p₁ p₂ →
      ∀ j, p₁.task j = .idle →
        (∀ hit, p₂.task j = .done (.located r.channel (r.artifact E) hit) →
          ∃ m f, hit = some (m, f) ∧ Describes E m f (r.artifact E)) ∧
        ∀ pc now, p₂.task j = .locate r.channel (r.artifact E) pc →
          ∃ p₃, p₂.fire E j (.run now) = some p₃ ∧
            ((pc = .read ∧ ∃ m, p₃.task j = .locate r.channel (r.artifact E) (.open m)) ∨
              ∃ m f, p₃.task j = .done (.located r.channel (r.artifact E) (some (m, f)))) := by
  constructor
  · intro i c a found ht
    exact (settled_of_reach h).healing i c a (by rw [ht]; exact ⟨rfl, rfl, trivial⟩)
  intro i e p₁ r created p₂ hact hfire hdone hsteps j hidle
  have hreach₁ : (shard E).Reach (Undisturbed E) p₁ := h.tail hact hfire
  have hpresent := present_of_published (knows_of_reach Undisturbed.noDelete h i) hfire hdone
  have hanswered : Answered E r.channel (r.artifact E) (fun k => p₁.task k = .idle) p₂ := by
    refine hsteps.preserves_of_reach (G := Undisturbed E)
      (I := Answered E r.channel (r.artifact E) fun k => p₁.task k = .idle) ?_
      (fun _ _ ha => ha.1) hreach₁ ⟨hpresent, fun k hk => by rw [hk]; trivial⟩
    intro x act y hx hI hact hstep
    cases act with
    | thread k ev => exact hI.fire hx hact.1 hact.2 hstep
    | crash => exact hact.1.1.elim
    | losePower d z => exact hact.1.1.elim
  refine ⟨fun hit ht => ?_, fun pc now ht => ?_⟩
  · have hserved := hanswered.served j hidle
    rw [ht] at hserved
    exact hserved rfl rfl
  · have hreach₂ := hreach₁.steps (hsteps.mono fun _ _ ha => ha.1)
    exact hanswered.progress now (body_is_file_of_reach Undisturbed.noDelete hreach₂ _ _) hidle ht

/-! ## A stale self-heal -/

instance (p : Shard ι) : DecidablePred (Uninterrupted p)
  | .thread i e => inferInstanceAs (Decidable (¬ (p.task i).isDelete ∧ e.isFail = false))
  | .crash | .losePower _ _ => .isFalse id

/-- The schedule up to the second acknowledgement: a publication, an eviction up to its
unlink, a lookup that `heals` or that does not start before the eviction is over, the rest
of the eviction, and a second publication short of its last step. -/
def evictAndRepublish (heals : Bool) : List (Action (BitVec 128)) :=
  .thread 0 (.start (.publish (sampleUpload .default .bestEffort .identity))) :: steps 0 100 14 ++
  .thread 1 (.start (.maintain .default ⟨200, sampleArtifact⟩ .evict)) :: steps 1 300 3 ++
  (if heals then .thread 2 (.start (.locate .default sampleArtifact)) :: steps 2 310 2 else []) ++
  steps 1 320 2 ++
  .thread 3 (.start (.publish (sampleUpload .default .bestEffort .identity))) :: steps 3 400 13

/-- A lookup that found no body while the artifact was evicted removes the record of the
body that was published since, and the next lookup misses. -/
theorem acknowledged_publication_lost : ∃ p p₁ p₂ p₃ : Shard (BitVec 128),
    (shard sampleEnv).Reach Uninterrupted p ∧ Uninterrupted p (.thread 3 (.run 400)) ∧
      p.fire sampleEnv 3 (.run 400) = some p₁ ∧
      p₁.task 3 = .done (.published (sampleUpload .default .bestEffort .identity) true) ∧
      p₁.task 4 = .idle ∧
      (shard sampleEnv).Steps
        (fun q act => Uninterrupted q act ∧ NotEvicting .default sampleArtifact q act) p₁ p₂ ∧
      (∃ found, p₂.task 2 = .locate .default sampleArtifact (.removeWrite found)) ∧
      p₂.shared.body .default sampleArtifact = some [97] ∧
      (shard sampleEnv).Steps
        (fun q act => Uninterrupted q act ∧ NotEvicting .default sampleArtifact q act) p₂ p₃ ∧
      p₃.task 4 = .done (.located .default sampleArtifact none) := by
  let ok : Shard (BitVec 128) → Action (BitVec 128) → Bool := fun q act =>
    decide (Uninterrupted q act ∧ NotEvicting .default sampleArtifact q act)
  have hrun : (sampleRun (fun q act => decide (Uninterrupted q act))
      (evictAndRepublish true)).any (fun p =>
    (p.fire sampleEnv 3 (.run 400)).any fun p₁ =>
      decide (Uninterrupted p (.thread 3 (.run 400)) ∧
        p₁.task 3 = .done (.published (sampleUpload .default .bestEffort .identity) true) ∧
        p₁.task 4 = .idle) &&
      (System.exec (Shard.act sampleEnv) ok p₁ (steps 2 410 2)).any fun p₂ =>
        decide (p₂.task 2 = .locate .default sampleArtifact
          (.removeWrite (p₂.shared.record .default sampleArtifact)) ∧
          p₂.shared.body .default sampleArtifact = some [97]) &&
        (System.exec (Shard.act sampleEnv) ok p₂
          (steps 2 420 1 ++ .thread 4 (.start (.locate .default sampleArtifact)) ::
            steps 4 430 1)).any fun p₃ =>
          decide (p₃.task 4 = .done (.located .default sampleArtifact none))) = true := by
    decide
  obtain ⟨p, hp, hp'⟩ := reach_of_sampleRun _ (fun _ _ => of_decide_eq_true) _ _ hrun
  obtain ⟨p₁, hfire, h₁⟩ := (Option.any_eq_true _ _).mp hp'
  obtain ⟨⟨hact, hdone, hidle⟩, h₂⟩ := (Bool.and_eq_true _ _).mp h₁ |>.imp_left of_decide_eq_true
  obtain ⟨p₂, hsteps₂, h₂⟩ := steps_of_sample ok (fun _ _ => of_decide_eq_true) h₂
  obtain ⟨⟨hheal, hbody⟩, h₃⟩ := (Bool.and_eq_true _ _).mp h₂ |>.imp_left of_decide_eq_true
  obtain ⟨p₃, hsteps₃, h₃⟩ := steps_of_sample ok (fun _ _ => of_decide_eq_true) h₃
  exact ⟨p, p₁, p₂, p₃, hp, hact, hfire, hdone, hidle, hsteps₂, ⟨_, hheal⟩, hbody, hsteps₃,
    of_decide_eq_true h₃⟩

/-- The condition of the theorem, evaluated on a shard where only the threads in `L` run. -/
def undisturbed (E : Env ι) (L : List ι) (p : Shard ι) (a : Action ι) : Bool :=
  decide (Uninterrupted p a) &&
    match a with
    | .thread i _ =>
      match p.task i with
      | .publish r (.rename _) =>
        L.all fun j => p.task j != .locate r.channel (r.artifact E) .stripe
      | _ => true
    | _ => true

omit [DecidableEq ι] in
theorem undisturbed_sound {L : List ι} {a : Action ι} (hp : Busy L p)
    (h : undisturbed E L p a = true) : Undisturbed E p a := by
  obtain ⟨hact, hstale⟩ := (Bool.and_eq_true _ _).mp h
  refine ⟨of_decide_eq_true hact, ?_⟩
  cases a with
  | thread i e =>
    unfold NoStaleHeal
    dsimp only at hstale ⊢
    split
    · rename_i r f ht
      simp only [ht, List.all_eq_true, bne_iff_ne, ne_eq] at hstale
      intro j hj
      by_cases hmem : j ∈ L
      · exact hstale j hmem hj
      · rw [hp j hmem] at hj
        cases hj
    · trivial
  | _ => trivial

/-- When the lookup does not overlap the eviction, the artifact stays. -/
theorem acknowledged_publication_hit : ∃ p p₁ p₂ : Shard (BitVec 128),
    (shard sampleEnv).Reach (Undisturbed sampleEnv) p ∧
      p.fire sampleEnv 3 (.run 400) = some p₁ ∧
      p₁.task 3 = .done (.published (sampleUpload .default .bestEffort .identity) true) ∧
      (shard sampleEnv).Steps (fun q act => Undisturbed sampleEnv q act ∧
        NotEvicting .default sampleArtifact q act) p₁ p₂ ∧
      p₂.task 4 = .done (.located .default sampleArtifact
        (some (⟨1, none, 400, 500, 1, .identity⟩, [97]))) ∧
      Describes sampleEnv ⟨1, none, 400, 500, 1, .identity⟩ [97] sampleArtifact := by
  let L : List (BitVec 128) := [0, 1, 2, 3, 4]
  let ok : Shard (BitVec 128) → Action (BitVec 128) → Bool := fun q act =>
    undisturbed sampleEnv L q act && decide (NotEvicting .default sampleArtifact q act)
  have hok : ∀ q act, Busy L q → ok q act = true →
      Undisturbed sampleEnv q act ∧ NotEvicting .default sampleArtifact q act := by
    intro q act hq h
    obtain ⟨hact, hkeep⟩ := (Bool.and_eq_true _ _).mp h
    exact ⟨undisturbed_sound hq hact, of_decide_eq_true hkeep⟩
  have hrun : (System.exec (Shard.act sampleEnv) (fun p a => a.within L && undisturbed sampleEnv L p a)
      (Shard.fresh _ 100 0) (evictAndRepublish false)).any (fun p =>
    (p.fire sampleEnv 3 (.run 400)).any fun p₁ =>
      undisturbed sampleEnv L p (.thread 3 (.run 400)) &&
      decide (p₁.task 3 = .done (.published (sampleUpload .default .bestEffort .identity) true) ∧
        p₁.task 4 = .idle) &&
      (System.exec (Shard.act sampleEnv) (fun p a => a.within L && ok p a) p₁
        (.thread 2 (.start (.locate .default sampleArtifact)) :: steps 2 410 2 ++
          .thread 4 (.start (.locate .default sampleArtifact)) :: steps 4 430 2)).any fun p₂ =>
        decide (p₂.task 4 = .done (.located .default sampleArtifact
          (some (⟨1, none, 400, 500, 1, .identity⟩, [97]))))) = true := by
    decide
  obtain ⟨p, hsteps, hbusy, hp'⟩ := steps_of_busySample (G := Undisturbed sampleEnv) _
    (fun _ _ => undisturbed_sound) (Busy.fresh L 100 0) hrun
  have hp : (shard sampleEnv).Reach (Undisturbed sampleEnv) p := ⟨_, ⟨_, _, rfl⟩, hsteps⟩
  obtain ⟨p₁, hfire, h₁⟩ := (Option.any_eq_true _ _).mp hp'
  obtain ⟨h₁, h₂⟩ := (Bool.and_eq_true _ _).mp h₁
  obtain ⟨hact, hdone, hidle⟩ := (Bool.and_eq_true _ _).mp h₁ |>.imp_right of_decide_eq_true
  have hbusy₁ : Busy L p₁ := hbusy.step (a := .thread 3 (.run 400)) rfl hfire
  obtain ⟨p₂, hsteps₂, -, h₂⟩ := steps_of_busySample ok hok hbusy₁ h₂
  have hlocated := of_decide_eq_true h₂
  have hkept := ((acknowledged_publication_kept hp).2 3 (.run 400) p₁
    (sampleUpload .default .bestEffort .identity) true p₂ (undisturbed_sound hbusy hact) hfire hdone
    hsteps₂ 4 hidle).1 _ hlocated
  obtain ⟨m, f, hmf, hdescribes⟩ := hkept
  cases hmf
  exact ⟨p, p₁, p₂, hp, hfire, hdone, hsteps₂, hlocated, hdescribes⟩

end Flywheel
