import Flywheel.Shard.Acknowledged
import Flywheel.Shard.Durability

/-!
# Best-effort publications after a loss of power

A best-effort publication fsyncs nothing, so a loss of power may keep the entry of a body
and drop part of its content. A lookup takes any file it can open for the body, so it then
hits with fewer bytes than the record says (`truncated_hit`).

`best_effort_outcomes` says that this is all that can go wrong: after any history of
best-effort publications and any loss of power, every later lookup returns what was
published, or misses and leaves no record, exactly if no body whose entry and record both
survived has lost content.
-/

set_option autoImplicit false

namespace Flywheel

open Lib

variable {ι : Type} {E : Env ι} {i : ι} {e : Event} {s s' : Shared ι} {t t' : Task}
variable {p p' q q' : Shard ι} {c : ChannelId} {a : ArtifactId}

/-! ## The runs -/

def Op.isUpload : Op → Bool
  | .publish r => r.durability == .bestEffort
  | .reference .. | .register _ | .patch .. => true
  | _ => false

def Task.isUpload : Task → Bool
  | .idle | .done _ | .reference .. | .register .. | .patch .. => true
  | .publish r _ => r.durability == .bestEffort
  | _ => false

def Op.isLookup : Op → Bool
  | .locate .. | .reconcile .. => true
  | _ => false

def Task.isLookup : Task → Bool
  | .idle | .done _ | .locate .. | .reconcile .. => true
  | _ => false

/-- The operation an event starts, if any, meets `ok`. -/
def Event.starts (ok : Op → Bool) : Event → Bool
  | .start op => ok op
  | _ => true

/-- Best-effort publications, beside registrations, patches and references. -/
def Uploading (p : Shard ι) : Action ι → Prop
  | .thread i e => e.isFail = false ∧ (p.task i).isUpload = true ∧ e.starts Op.isUpload = true
  | _ => False

/-- Lookups and startup recovery. -/
def LookingUp (p : Shard ι) : Action ι → Prop
  | .thread i e => e.isFail = false ∧ (p.task i).isLookup = true ∧ e.starts Op.isLookup = true
  | _ => False

section Steps

variable [DecidableEq ι]

theorem isUpload_of_step (h : Task.step E i e s t = some (s', t')) (ht : t.isUpload = true)
    (hstart : e.starts Op.isUpload = true) : t'.isUpload = true := by
  cases t with
  | idle =>
    cases e with
    | start op =>
      cases op with
      | register record =>
        rw [Task.step, startTask] at h
        split at h <;> cases h
        rfl
      | publish r => cases h; exact hstart
      | reference | patch => cases h; rfl
      | _ => cases hstart
    | _ => cases h
  | publish r pc => rcases publishStep_task h with ⟨pc', rfl⟩ | ⟨o, rfl⟩ <;> first | exact ht | rfl
  | reference c name op pc => rcases referenceStep_task h with ⟨pc', rfl⟩ | ⟨o, rfl⟩ <;> rfl
  | register record pc => rcases registerStep_task h with ⟨pc', rfl⟩ | ⟨o, rfl⟩ <;> rfl
  | patch c credential expirySeconds pc =>
    rcases patchStep_task h with ⟨pc', rfl⟩ | ⟨o, rfl⟩ <;> rfl
  | done o => cases h
  | _ => cases ht

/-- In a history of uploads every task is one. -/
theorem isUpload_of_reach (h : (shard E).Reach Uploading p) (j : ι) :
    (p.task j).isUpload = true := by
  refine h.invariant (I := fun p => ∀ j, (p.task j).isUpload = true) ?_ ?_ j
  · rintro _ ⟨expirySeconds, now, rfl⟩ j
    rfl
  · intro x act y hx hact hstep j
    cases act with
    | thread i e =>
      obtain ⟨hi, hothers⟩ := Shard.fire_eq_some hstep
      by_cases hji : j = i
      · subst hji
        exact isUpload_of_step hi hact.2.1 hact.2.2
      · rw [hothers j hji]
        exact hx j
    | crash => exact hact.elim
    | losePower d z => exact hact.elim

/-- Where nobody looks up, nothing is healed. -/
theorem undisturbed_of_uploading (h : (shard E).Reach Uploading p) :
    (shard E).Reach (Undisturbed E) p := by
  refine h.mono_of_reach ?_
  intro x act hx hact
  cases act with
  | thread i e =>
    refine ⟨⟨fun hdelete => ?_, hact.1⟩, ?_⟩
    · have hi := hact.2.1
      cases ht : x.task i with
      | delete =>
        rw [ht] at hi
        cases hi
      | _ =>
        rw [ht] at hdelete
        exact hdelete.elim
    · unfold NoStaleHeal
      dsimp only
      split
      · intro j hj
        have hupload := isUpload_of_reach hx j
        rw [hj] at hupload
        cases hupload
      · trivial
  | crash => exact hact.elim
  | losePower d z => exact hact.elim

/-! ## The history -/

/-- Every record that may survive describes the body. -/
def Recorded (E : Env ι) (s : Shared ι) : Prop :=
  s.store.Always fun x => ∀ c a m, x.artifact c a = some m →
    ∃ f, s.body c a = some f ∧ Describes E m f a

theorem Recorded.fire (h : Recorded E p.shared) (hreach : (shard E).Reach Uploading p)
    (hact : Uploading p (.thread i e)) (hfire : p.fire E i e = some p') :
    Recorded E p'.shared := by
  have hmove := step_move (Shard.fire_eq_some hfire).1
  have hundisturbed := undisturbed_of_uploading hreach
  have hknows := knows_of_reach Undisturbed.noDelete hundisturbed i
  have hupload := hact.2.1
  -- uploads never change a body that is there
  have hbody : ∀ c a f, p.shared.body c a = some f → p'.shared.body c a = some f := by
    intro c a f hf
    rw [Shared.body_eq] at hf ⊢
    cases hmove.body_change c a with
    | keep hs => rwa [hs]
    | renamed ht _ hc ha =>
      subst hc ha
      rw [ht] at hknows
      have hnone : p.shared.kindAt (path _ _) = none := hknows.2.2
      rw [hnone] at hf
      cases hf
    | evicted ht | reconciled ht =>
      rw [ht] at hupload
      cases hupload
    | deleted ht =>
      cases hdelete : p.task i with
      | delete =>
        rw [hdelete] at hupload
        cases hupload
      | _ =>
        rw [hdelete] at ht
        exact ht.elim
  refine hmove.always (fun x hx c a m hm => ?_) fun c a m hm => ?_
  · obtain ⟨f, hf, hdescribes⟩ := h x hx c a m hm
    exact ⟨f, hbody c a f hf, hdescribes⟩
  · have hreach' : (shard E).Reach Uploading p' := hreach.tail hact hfire
    have hundisturbed' := undisturbed_of_uploading hreach'
    have hm' : p'.shared.record c a = some m := hm
    cases hmove.record_change c a with
    | keep hs =>
      rw [hs] at hm'
      obtain ⟨f, hf, hdescribes⟩ := h.current c a m hm'
      exact ⟨f, hbody c a f hf, hdescribes⟩
    | created now ht hc ha hs =>
      subst hc ha
      rw [ht] at hknows
      have hsome := p.shared.body_isSome
        (body_is_file_of_reach Undisturbed.noDelete hundisturbed _ _) |>.trans hknows.2.1
      obtain ⟨f, hf⟩ := Option.isSome_iff_exists.mp hsome
      have hf' := hbody _ _ f hf
      exact ⟨f, hf', coherent_of_undisturbed hundisturbed' _ _ m f hm' hf'⟩
    | requeued ht =>
      rw [ht] at hupload
      cases hupload
    | healed _ hs | evicted _ _ _ hs | deleted _ hs =>
      rw [hs] at hm'
      cases hm'

theorem recorded_of_reach (h : (shard E).Reach Uploading p) : Recorded E p.shared := by
  refine h.invariant_of_reach (I := fun p => Recorded E p.shared) ?_ ?_
  · rintro _ ⟨expirySeconds, now, rfl⟩
    refine Journal.Always.synced fun c a m hm => ?_
    cases hm
  · intro x act y hx hrecorded hact hstep
    cases act with
    | thread i e => exact hrecorded.fire hx hact hstep
    | crash => exact hact.elim
    | losePower d z => exact hact.elim

end Steps

/-! ## Lookups after a restart -/

/-- What a lookup that started after `p` has seen of it. -/
def Seen (p q : Shard ι) : Task → Prop
  | .locate c a (.open m) => p.shared.record c a = some m
  | .done (.located c a (some (m, f))) =>
    p.shared.record c a = some m ∧ p.shared.body c a = some f
  | .done (.located c a none) => q.shared.record c a = none
  | _ => True

/-- While shards only look things up, records and bodies only disappear. -/
structure Looked (p q : Shard ι) : Prop where
  record : ∀ c a m, q.shared.record c a = some m → p.shared.record c a = some m
  body : ∀ c a f, q.shared.body c a = some f → p.shared.body c a = some f
  seen : ∀ j, p.task j = .idle → Seen p q (q.task j)

theorem Looked.start (p : Shard ι) : Looked p p := by
  refine ⟨fun _ _ _ => id, fun _ _ _ => id, fun j hj => ?_⟩
  rw [hj]
  trivial

section Fire

variable [DecidableEq ι]

/-- A lookup removes records, startup recovery removes bodies, and neither adds any. -/
theorem shrinks_of_lookingUp (hact : LookingUp q (.thread i e)) (hfire : q.fire E i e = some q') :
    (∀ c a m, q'.shared.record c a = some m → q.shared.record c a = some m) ∧
      ∀ c a f, q'.shared.body c a = some f → q.shared.body c a = some f := by
  have hmove := step_move (Shard.fire_eq_some hfire).1
  have hlookup := hact.2.1
  have hdelete : ¬ (q.task i).isDelete := by
    intro hdelete
    cases ht : q.task i with
    | delete =>
      rw [ht] at hlookup
      cases hlookup
    | _ =>
      rw [ht] at hdelete
      exact hdelete.elim
  refine ⟨fun c a m hm => ?_, fun c a f hf => ?_⟩
  · cases hmove.record_change c a with
    | keep hs => rwa [hs] at hm
    | created _ ht | requeued ht | evicted ht =>
      rw [ht] at hlookup
      cases hlookup
    | healed _ hs =>
      rw [hs] at hm
      cases hm
    | deleted ht => exact absurd ht hdelete
  · rw [Shared.body_eq] at hf ⊢
    cases hmove.body_change c a with
    | keep hs => rwa [hs] at hf
    | renamed ht | evicted ht =>
      rw [ht] at hlookup
      cases hlookup
    | reconciled _ hs =>
      rw [hs] at hf
      cases hf
    | deleted ht => exact absurd ht hdelete

theorem Looked.fire (h : Looked p q) (hact : LookingUp q (.thread i e))
    (hfire : q.fire E i e = some q') : Looked p q' := by
  obtain ⟨hstep, hothers⟩ := Shard.fire_eq_some hfire
  obtain ⟨hrecord, hbody⟩ := shrinks_of_lookingUp hact hfire
  have hnone : ∀ {c a}, q.shared.record c a = none → q'.shared.record c a = none := by
    intro c a hq
    refine Option.eq_none_iff_forall_ne_some.mpr fun m hm => ?_
    rw [hrecord c a m hm] at hq
    cases hq
  refine ⟨fun c a m hm => h.record c a m (hrecord c a m hm),
    fun c a f hf => h.body c a f (hbody c a f hf), fun j hj => ?_⟩
  have hseen := h.seen j hj
  by_cases hji : j = i
  · subst hji
    cases ht' : q'.task j with
    | locate c a pc' =>
      cases pc' with
      | «open» m =>
        rw [ht'] at hstep
        rcases step_from hstep with ⟨-, -, hpc⟩ | ⟨pc, -, -, -, hm⟩
        · cases hpc
        · exact h.record c a m hm
      | _ => trivial
    | done o =>
      cases o with
      | located c a hit =>
        rw [ht'] at hstep
        rcases hit with _ | ⟨m, f⟩
        · obtain ⟨pc, -, hend⟩ := step_to_located hstep
          rcases hend with ⟨-, hs, hmiss, -⟩ | ⟨m, f, -, -, -, ho⟩ | ⟨found, -, -, hs⟩ | ⟨ho, -⟩
          · exact hnone hmiss
          · cases ho
          · show q'.shared.record c a = none
            rw [hs]
            show (q.shared.commit .bestEffort _).record c a = none
            rw [Shared.commit_record, RocksMetadata.removeBatch_artifact, if_pos ⟨rfl, rfl⟩]
          · cases ho
        · obtain ⟨ht, hf⟩ := step_to_hit hstep
          rw [ht] at hseen
          exact ⟨hseen, h.body c a f hf⟩
      | _ => trivial
    | _ => trivial
  · rw [hothers j hji]
    cases ht : q.task j with
    | locate c a pc =>
      rw [ht] at hseen
      cases pc with
      | «open» m => exact hseen
      | _ => trivial
    | done o =>
      rw [ht] at hseen
      cases o with
      | located c a hit =>
        rcases hit with _ | ⟨m, f⟩
        · exact hnone hseen
        · exact hseen
      | _ => trivial
    | _ => trivial

theorem looked_of_steps (h : (shard E).Steps LookingUp p q) : Looked p q := by
  refine h.preserves (I := Looked p) ?_ (Looked.start p)
  intro x act y hx hact hstep
  cases act with
  | thread i e => exact hx.fire hact hstep
  | crash => exact hact.elim
  | losePower d z => exact hact.elim

/-- A lookup of an artifact with record and body hits. -/
theorem locate_hits {j : ι} {m : ArtifactMetadata} {f : Bytes} (hidle : p.task j = .idle)
    (hm : p.shared.record c a = some m) (hf : p.shared.body c a = some f) :
    ∃ q, (shard E).Steps LookingUp p q ∧ q.task j = .done (.located c a (some (m, f))) := by
  have h₁ : p.fire E j (.start (.locate c a)) = some (p.withTask j (.locate c a .read)) :=
    Shard.fire_withTask (by rw [hidle]; rfl)
  have h₂ : (p.withTask j (.locate c a .read)).fire E j (.run 0) =
      some ((p.withTask j (.locate c a .read)).withTask j (.locate c a (.open m))) :=
    Shard.fire_withTask (by simp [Task.step, locateStep, hm])
  have h₃ : (p.withTask j (.locate c a (.open m))).fire E j (.run 0) =
      some ((p.withTask j (.locate c a (.open m))).withTask j
        (.done (.located c a (some (m, f))))) :=
    Shard.fire_withTask (by simp [Task.step, locateStep, hf])
  rw [Shard.withTask_withTask] at h₂ h₃
  have hact : ∀ ev : Event, ev.isFail = false → ev.starts Op.isLookup = true →
      ∀ {q : Shard ι}, (q.task j).isLookup = true → LookingUp q (.thread j ev) :=
    fun _ hfail hstart _ hlookup => ⟨hfail, hlookup, hstart⟩
  refine ⟨p.withTask j (.done (.located c a (some (m, f)))), ?_, Shard.withTask_task ..⟩
  refine Relation.ReflTransGen.head ⟨.thread j _, hact _ rfl rfl (by rw [hidle]; rfl), h₁⟩ ?_
  refine Relation.ReflTransGen.head
    ⟨.thread j _, hact _ rfl rfl (by rw [Shard.withTask_task]; rfl), h₂⟩ ?_
  exact Relation.ReflTransGen.single
    ⟨.thread j _, hact _ rfl rfl (by rw [Shard.withTask_task]; rfl), h₃⟩

/-! ## The outcomes -/

/-- No body whose entry and record both survived has lost content. -/
def NotTruncated (p p' : Shard ι) : Prop :=
  ∀ c a, (p'.shared.record c a).isSome → (p'.shared.body c a).isSome →
    p'.shared.body c a = p.shared.body c a

/-- A hit returns the bytes published before the loss, as its record describes them; a miss
leaves no record. -/
def Honest (E : Env ι) (p q : Shard ι) (c : ChannelId) (a : ArtifactId) :
    Option (ArtifactMetadata × Bytes) → Prop
  | some (m, f) => p.shared.body c a = some f ∧ Describes E m f a
  | none => q.shared.record c a = none

/-- After a history of best-effort publications and a loss of power, every later lookup is
honest exactly if no surviving body with a surviving record was truncated. -/
theorem best_effort_outcomes {d : FsDisk} {x : RocksMetadata}
    (h : (shard E).Reach Uploading p) (hloss : (shard E).step p (.losePower d x) p')
    (hspare : ∃ j, p.task j = .idle) :
    (∀ q, (shard E).Steps LookingUp p' q → ∀ j c a hit, p'.task j = .idle →
      q.task j = .done (.located c a hit) → Honest E p q c a hit) ↔ NotTruncated p p' := by
  obtain ⟨-, hx, rfl⟩ := hloss
  constructor
  · -- a truncated body is hit by the next lookup
    intro hhonest c a hrecord hbody
    obtain ⟨m, hm⟩ := Option.isSome_iff_exists.mp hrecord
    obtain ⟨f, hf⟩ := Option.isSome_iff_exists.mp hbody
    obtain ⟨j, hj⟩ := hspare
    have hidle : (p.losePower d x).task j = .idle := congrArg Task.lost hj
    obtain ⟨q, hsteps, hq⟩ := locate_hits (E := E) hidle hm hf
    have hsame := (hhonest q hsteps j c a _ hidle hq).1
    rw [hf, hsame]
  · intro hkept q hsteps j c a hit hidle hq
    have hseen := (looked_of_steps hsteps).seen j hidle
    rw [hq] at hseen
    rcases hit with _ | ⟨m, f⟩
    · exact hseen
    · obtain ⟨hm, hf⟩ := hseen
      have hsame := hkept c a (by rw [hm]; rfl) (by rw [hf]; rfl)
      obtain ⟨g, hg, hdescribes⟩ := recorded_of_reach h x hx c a m hm
      rw [hsame, hg] at hf
      cases hf
      exact ⟨hg, hdescribes⟩

/-! ## A truncated body -/

instance (p : Shard ι) : DecidablePred (Uploading p)
  | .thread i e => inferInstanceAs (Decidable (e.isFail = false ∧ (p.task i).isUpload = true ∧
      e.starts Op.isUpload = true))
  | .crash | .losePower _ _ => .isFalse id

instance (p : Shard ι) : DecidablePred (LookingUp p)
  | .thread i e => inferInstanceAs (Decidable (e.isFail = false ∧ (p.task i).isLookup = true ∧
      e.starts Op.isLookup = true))
  | .crash | .losePower _ _ => .isFalse id

/-- A best-effort publication of the body `a`. -/
def upload : List (Action (BitVec 128)) :=
  .thread 0 (.start (.publish (sampleUpload .default .bestEffort .identity))) :: steps 0 100 14

/-- A loss of power keeps the record and the entry of a body, and none of its content: the
next lookup hits with an empty file where the record says one byte. -/
theorem truncated_hit : ∃ (p p' q : Shard (BitVec 128)) (d : FsDisk) (x : RocksMetadata),
    (shard sampleEnv).Reach Uploading p ∧ (shard sampleEnv).step p (.losePower d x) p' ∧
      (shard sampleEnv).Steps LookingUp p' q ∧ p'.task 1 = .idle ∧
      q.task 1 = .done (.located .default sampleArtifact
        (some (⟨1, none, 100, 200, 1, .identity⟩, []))) := by
  have hrun : (sampleRun (fun p a => decide (Uploading p a)) upload).any (fun p =>
    p.shared.disk.mayKeep (fun _ => true) &&
    decide ((p.powerCut (fun _ => true) 0).task 1 = .idle) &&
    (System.exec (Shard.act sampleEnv) (fun p a => decide (LookingUp p a))
      (p.powerCut (fun _ => true) 0)
      (.thread 1 (.start (.locate .default sampleArtifact)) :: steps 1 200 2)).any fun q =>
        decide (q.task 1 = .done (.located .default sampleArtifact
          (some (⟨1, none, 100, 200, 1, .identity⟩, []))))) = true := by
    decide +kernel
  obtain ⟨p, hp, h⟩ := reach_of_sampleRun _ (fun _ _ => of_decide_eq_true) _ _ hrun
  obtain ⟨h, hq⟩ := (Bool.and_eq_true _ _).mp h
  obtain ⟨hkeep, hidle⟩ := (Bool.and_eq_true _ _).mp h
  obtain ⟨q, hsteps, hlocated⟩ := steps_of_sample _ (fun _ _ => of_decide_eq_true) hq
  exact ⟨p, _, q, _, _, hp, step_of_powerCut hkeep 0, hsteps, of_decide_eq_true hidle,
    of_decide_eq_true hlocated⟩

/-- Where the loss of power drops the body as a whole, the next lookup misses and removes the
record. -/
theorem dropped_body_missed : ∃ p q : Shard (BitVec 128),
    (shard sampleEnv).Reach Uploading p ∧
      NotTruncated p (p.powerCut (fun _ => false) 0) ∧
      (shard sampleEnv).Steps LookingUp (p.powerCut (fun _ => false) 0) q ∧
      ((p.powerCut (fun _ => false) 0).shared.record .default sampleArtifact).isSome ∧
      q.task 1 = .done (.located .default sampleArtifact none) ∧
      q.shared.record .default sampleArtifact = none := by
  have hrun : (sampleRun (fun p a => decide (Uploading p a)) upload).any (fun p =>
    p.shared.disk.mayKeep (fun _ => false) && decide (p.task 1 = .idle) &&
    ((p.powerCut (fun _ => false) 0).shared.record .default sampleArtifact).isSome &&
    (System.exec (Shard.act sampleEnv) (fun p a => decide (LookingUp p a))
      (p.powerCut (fun _ => false) 0)
      (.thread 1 (.start (.locate .default sampleArtifact)) :: steps 1 200 5)).any fun q =>
        decide (q.task 1 = .done (.located .default sampleArtifact none))) = true := by
    decide +kernel
  obtain ⟨p, hp, h⟩ := reach_of_sampleRun _ (fun _ _ => of_decide_eq_true) _ _ hrun
  obtain ⟨h, hq⟩ := (Bool.and_eq_true _ _).mp h
  obtain ⟨h, hrecord⟩ := (Bool.and_eq_true _ _).mp h
  obtain ⟨hkeep, hidle⟩ := (Bool.and_eq_true _ _).mp h
  have hidle := of_decide_eq_true hidle
  obtain ⟨q, hsteps, hlocated⟩ := steps_of_sample _ (fun _ _ => of_decide_eq_true) hq
  have hlocated := of_decide_eq_true hlocated
  have hkept : NotTruncated p (p.powerCut (fun _ => false) 0) := by
    intro c a _ hbody
    have hnone : (p.powerCut (fun _ => false) 0).shared.kindAt (path c a) = none := by
      refine (Shared.restart_kindAt _ (isTmpPath_path c a)).trans ?_
      show (p.shared.disk.afterLoss (fun _ => false) 0).kindAt (path c a) = none
      rw [Disk.kindAt, Disk.afterLoss_apply]
      cases p.shared.disk[path c a]? <;> rfl
    rw [Shared.body_eq, hnone] at hbody
    cases hbody
  have hidle' : (p.powerCut (fun _ => false) 0).task 1 = .idle := congrArg Task.lost hidle
  have hhonest := (best_effort_outcomes hp (step_of_powerCut hkeep 0) ⟨1, hidle⟩).mpr hkept q hsteps
    1 _ _ none hidle' hlocated
  exact ⟨p, q, hp, hkept, hsteps, hrecord, hlocated, hhonest⟩

end Fire

end Flywheel
