import Flywheel.Shard.Ownership

/-!
# References, and what lookups return for them

- `Move.reference_change`: the only steps that change a reference are the commit of a
  publication under that name, a reference operation on it, and the deletion of its channel.
- `Only P Q`: runs whose publications all meet `P`, whose reference operations are all on
  names that meet `Q`, and that delete no channel. Processes may crash, operations may fail.
- `Encoded E enc S`: when every publication stores a body from `S` in the encoding `enc`, so
  does every record, file and hit. Two halves of one artifact may still stem from different
  publications: their bodies have the same digest.
-/

set_option autoImplicit false

namespace Flywheel

open Lib

variable {ι : Type}

/-- The visible record of a reference. -/
def Shared.reference (s : Shared ι) (c : ChannelId) (name : Bytes) : Option ReferenceRecord :=
  s.store.current.reference c name

variable [DecidableEq ι] {E : Env ι} {i : ι} {e : Event} {s s' : Shared ι} {t t' : Task}

/-! ## What a step does to a reference -/

inductive ReferenceChange (E : Env ι) (s : Shared ι) (t : Task) (s' : Shared ι) (c : ChannelId)
    (name : Bytes) : Prop
  | keep (h : s'.reference c name = s.reference c name)
  | published {r : PublishRequest} {f : Fence} {found : Bool}
    (ht : t = .publish r (.commitWrite f found)) (hc : r.channel = c)
    (hname : r.target = .contentAddressed (some name))
    (h : s'.reference c name = some ⟨r.artifact E, f.stagedAt, none, none⟩)
  | written {op : ReferenceOp} {g : Nat} (ht : t = .reference c name op (.write g))
  | deleted (ht : t.isDelete) (h : s'.reference c name = none)

theorem Move.reference_change (h : Move E i s t s' t') (c : ChannelId) (name : Bytes) :
    ReferenceChange E s t s' c name := by
  cases h.store with
  | keep hs => exact .keep (by rw [Shared.reference, hs, Shared.reference])
  | @publication r f found now ht hs =>
    have hbatch : s'.reference c name =
        (r.batch E f found now s.store.current).reference c name := by
      rw [Shared.reference, hs, Shared.commit_current]
    rw [PublishRequest.batch, RocksMetadata.commitBatch_reference] at hbatch
    cases htarget : r.target with
    | byId a =>
      rw [PublishRequest.reference, htarget] at hbatch
      exact .keep hbatch
    | contentAddressed name' =>
      rw [PublishRequest.reference, htarget] at hbatch
      cases name' with
      | none => exact .keep hbatch
      | some name' =>
        by_cases hkey : r.channel = c ∧ name' = name
        · obtain ⟨rfl, rfl⟩ := hkey
          exact .published ht rfl htarget (by simpa using hbatch)
        · refine .keep ?_
          simpa [hkey, Shared.reference] using hbatch
  | heal ht hs => exact .keep (by rw [Shared.reference, hs, Shared.commit_current]; rfl)
  | requeue ht hs => exact .keep (by rw [Shared.reference, hs, Shared.commit_current]; rfl)
  | evict ht hs =>
    exact .keep (by
      rw [Shared.reference, hs, Shared.commit_current, RocksMetadata.evictBatch_reference]
      rfl)
  | @reference c' name' op g now ht hs =>
    by_cases hkey : c' = c ∧ name' = name
    · obtain ⟨rfl, rfl⟩ := hkey
      exact .written ht
    · refine .keep ?_
      rw [Shared.reference, hs]
      cases op <;> simp [ReferenceOp.commit, hkey, Shared.reference]
  | register ht hs => exact .keep (by rw [Shared.reference, hs, Shared.commit_current]; rfl)
  | patch ht hs => exact .keep (by rw [Shared.reference, hs, Shared.commit_current]; rfl)
  | delete ht hs => exact .keep (by rw [Shared.reference, hs, Shared.commit_current]; rfl)
  | @deleteData c' credential g ht hs =>
    by_cases hkey : c' = c
    · exact .deleted (ht ▸ trivial) (by simp [Shared.reference, hs, hkey])
    · exact .keep (by simp [Shared.reference, hs, hkey])
  | finish ht hs => exact .keep (by rw [Shared.reference, hs, Shared.commit_current]; rfl)

/-! ## Returned operations -/

/-- An operation that has returned takes no further step. -/
theorem fire_done {p p' : Shard ι} {k : ι} {o : Outcome} (hfire : p.fire E i e = some p')
    (hk : p.task k = .done o) : p'.task k = .done o := by
  obtain ⟨hstep, hother⟩ := Shard.fire_eq_some hfire
  by_cases hki : k = i
  · subst hki
    rw [hk] at hstep
    cases hstep
  · rw [hother k hki, hk]

/-! ## Runs with one kind of publication -/

section Only

variable (P : PublishRequest → Prop) (Q : Bytes → Prop)

def Op.Only : Op → Prop
  | .publish r => P r
  | .reference _ name _ => Q name
  | .delete _ _ | .resume _ => False
  | _ => True

def Event.Only : Event → Prop
  | .start op => op.Only P Q
  | _ => True

def Only (_ : Shard ι) : Action ι → Prop
  | .thread _ e => e.Only P Q
  | .crash => True
  | .losePower _ _ => False

/-- What is left of the condition once an operation has started. -/
def Task.Only : Task → Prop
  | .publish r _ | .done (.published r _) => P r
  | .reference _ name _ _ => Q name
  | .delete .. => False
  | _ => True

end Only

variable {P : PublishRequest → Prop} {Q : Bytes → Prop}

omit [DecidableEq ι] in
theorem startTask_only {op : Op} (hop : op.Only P Q) (h : startTask s op = some (s', t')) :
    t'.Only P Q := by
  cases op with
  | publish r | reference c name op =>
    cases h
    exact hop
  | register record =>
    rw [startTask] at h
    split at h
    · cases h
      trivial
    · cases h
  | delete c credential | resume c => exact hop.elim
  | _ =>
    cases h
    trivial

theorem step_only (he : e.Only P Q) (ht : t.Only P Q)
    (h : Task.step E i e s t = some (s', t')) : t'.Only P Q := by
  have hdone : ∀ o, t' = .done o → t'.Only P Q := by
    rintro o rfl
    cases o with
    | published r created =>
      obtain ⟨f, found, now, rfl, -⟩ := step_to_published h
      exact ht
    | _ => trivial
  -- every other step stays in its operation
  cases t with
  | idle =>
    cases e with
    | start op => exact startTask_only he h
    | _ => cases h
  | publish r pc =>
    rcases publishStep_task h with ⟨pc', rfl⟩ | ⟨o, ho⟩
    · exact ht
    · exact hdone o ho
  | locate c a pc =>
    rcases locateStep_task h with ⟨pc', rfl⟩ | ⟨o, ho⟩
    · trivial
    · exact hdone o ho
  | maintain c candidate decision pc =>
    rcases maintainStep_task h with ⟨pc', rfl⟩ | ⟨o, ho⟩
    · trivial
    · exact hdone o ho
  | reconcile c a pc =>
    rcases reconcileStep_task h with ⟨pc', rfl⟩ | ⟨o, ho⟩
    · trivial
    · exact hdone o ho
  | reference c name op pc =>
    rcases referenceStep_task h with ⟨pc', rfl⟩ | ⟨o, ho⟩
    · exact ht
    · exact hdone o ho
  | register record pc =>
    rcases registerStep_task h with ⟨pc', rfl⟩ | ⟨o, ho⟩
    · trivial
    · exact hdone o ho
  | patch c credential expirySeconds pc =>
    rcases patchStep_task h with ⟨pc', rfl⟩ | ⟨o, ho⟩
    · trivial
    · exact hdone o ho
  | delete c credential pc => exact ht.elim
  | done o => cases h

omit [DecidableEq ι] in
theorem lost_only (ht : t.Only P Q) : t.lost.Only P Q := by
  cases t with
  | done o => exact ht
  | _ => trivial

theorem only_of_reach {p : Shard ι} (h : (shard E).Reach (Only P Q) p) (i : ι) :
    (p.task i).Only P Q := by
  refine h.invariant (I := fun p => ∀ i, (p.task i).Only P Q) ?_ ?_ i
  · rintro _ ⟨expirySeconds, now, rfl⟩ i
    trivial
  · intro x a y hx ha hstep j
    cases a with
    | thread i e =>
      obtain ⟨hown, hother⟩ := Shard.fire_eq_some hstep
      by_cases hji : j = i
      · subst hji
        exact step_only ha (hx j) hown
      · rw [hother j hji]
        exact hx j
    | crash =>
      obtain rfl : y = x.crash := hstep
      exact lost_only (hx j)
    | losePower d z => exact ha.elim

omit [DecidableEq ι] in
theorem Task.Only.not_isDelete (h : t.Only P Q) : ¬ t.isDelete := by
  intro hdelete
  cases t with
  | delete c credential pc => exact h
  | _ => exact hdelete

/-- Such runs are runs without deletions. -/
theorem noDelete_of_only {p : Shard ι} (h : (shard E).Reach (Only P Q) p) :
    (shard E).Reach NoDelete p := by
  refine h.mono_of_reach ?_
  intro x a hx ha
  cases a with
  | thread i e => exact (only_of_reach hx i).not_isDelete
  | _ => trivial

/-! ## What is stored -/

/-- The record `m` of `a` was written for a body from `S` in the encoding `enc`. -/
def RecordOf (E : Env ι) (enc : StoredEncoding) (S : Set Bytes) (a : ArtifactId)
    (m : ArtifactMetadata) : Prop :=
  m.encoding = enc ∧ ∃ body ∈ S, E.sha256 body = a.digest ∧ m.contentLen = body.length

/-- The file `f` of `a` holds a body from `S` in the encoding `enc`. -/
def FileOf (E : Env ι) (enc : StoredEncoding) (S : Set Bytes) (a : ArtifactId) (f : Bytes) :
    Prop :=
  ∃ body ∈ S, E.sha256 body = a.digest ∧ E.decode enc f = some body

structure Encoded (E : Env ι) (enc : StoredEncoding) (S : Set Bytes) (p : Shard ι) : Prop where
  record : ∀ c a m, p.shared.record c a = some m → RecordOf E enc S a m
  body : ∀ c a f, p.shared.body c a = some f → FileOf E enc S a f
  -- a lookup keeps the record it has read while others replace it
  opened : ∀ i c a m, p.task i = .locate c a (.open m) → RecordOf E enc S a m
  hit : ∀ i c a m f, p.task i = .done (.located c a (some (m, f))) →
    RecordOf E enc S a m ∧ FileOf E enc S a f

variable {enc : StoredEncoding} {S : Set Bytes}

theorem Encoded.fire {p p' : Shard ι} (h : Encoded E enc S p)
    (hpublish : ∀ r pc, p.task i = .publish r pc → r.encoding = enc ∧ r.body ∈ S)
    (hknows : Knows E ((p.task i).view E p.shared i) (p.task i))
    (hfire : p.fire E i e = some p') : Encoded E enc S p' := by
  obtain ⟨hstep, hother⟩ := Shard.fire_eq_some hfire
  have hmove := step_move hstep
  refine ⟨?_, ?_, ?_, ?_⟩
  · intro c a m hm
    cases hmove.record_change c a with
    | keep hkeep => exact h.record c a m (hkeep ▸ hm)
    | @created r f now ht hc ha hcreated =>
      rw [hcreated] at hm
      cases hm
      rw [ht] at hknows
      obtain ⟨henc, hS⟩ := hpublish _ _ ht
      exact ⟨henc, r.body, hS, ha ▸ hknows.1, rfl⟩
    | @requeued candidate m' new ht ha hrequeued =>
      rw [hrequeued] at hm
      cases hm
      rw [ht] at hknows
      have hrecord : p.shared.record c candidate.artifact = some m' := hknows
      exact h.record c a m' (ha ▸ hrecord)
    | healed _ hnone | evicted _ _ _ hnone | deleted _ hnone =>
      rw [hnone] at hm
      cases hm
  · intro c a f hf
    rw [Shared.body_eq] at hf
    cases hmove.body_change c a with
    | keep hkeep =>
      rw [hkeep] at hf
      exact h.body c a f hf
    | @renamed r fence ht _ hc ha hkind =>
      rw [ht] at hknows
      have hpart : p.shared.kindAt (r.part E i) = some (.file (r.stored E) r.synced) := hknows.1
      rw [hkind, hpart] at hf
      cases hf
      obtain ⟨henc, hS⟩ := hpublish _ _ ht
      refine ⟨r.body, hS, ha ▸ hknows.2.1, ?_⟩
      rw [← henc]
      exact E.decode_encode r.encoding r.stream
    | evicted _ _ _ hnone | reconciled _ hnone | deleted _ hnone =>
      rw [hnone] at hf
      cases hf
  · intro j c a m hj
    by_cases hji : j = i
    · subst hji
      rw [hj] at hstep
      rcases step_from hstep with ⟨-, -, hread⟩ | ⟨pc, -, -, -, hm⟩
      · cases hread
      · exact h.record c a m hm
    · exact h.opened j c a m (hother j hji ▸ hj)
  · intro j c a m f hj
    by_cases hji : j = i
    · subst hji
      rw [hj] at hstep
      obtain ⟨hopen, hbody⟩ := step_to_hit hstep
      exact ⟨h.opened j c a m hopen, h.body c a f hbody⟩
    · exact h.hit j c a m f (hother j hji ▸ hj)

omit [DecidableEq ι] in
theorem Encoded.crash {p : Shard ι} (h : Encoded E enc S p) : Encoded E enc S p.crash := by
  refine ⟨h.record, ?_, ?_, ?_⟩
  · intro c a f hf
    rw [Shared.body_eq] at hf
    have hkeep : p.crash.shared.kindAt (path c a) = p.shared.kindAt (path c a) :=
      Shared.restart_kindAt _ (isTmpPath_path c a)
    rw [hkeep] at hf
    exact h.body c a f hf
  · intro j c a m hj
    have hlost : (p.task j).lost = .locate c a (.open m) := hj
    cases hp : p.task j <;> rw [hp] at hlost <;> cases hlost
  · intro j c a m f hj
    have hlost : (p.task j).lost = .done (.located c a (some (m, f))) := hj
    refine h.hit j c a m f ?_
    cases hp : p.task j <;> rw [hp] at hlost <;> cases hlost
    rfl

/-- In runs whose publications all store bodies from `S` in one encoding, that is what is
recorded, stored and found. -/
theorem encoded_of_reach {p : Shard ι}
    (h : (shard E).Reach (Only (fun r => r.encoding = enc ∧ r.body ∈ S) Q) p) :
    Encoded E enc S p := by
  refine h.invariant_of_reach ?_ ?_
  · rintro _ ⟨expirySeconds, now, rfl⟩
    refine ⟨?_, ?_, nofun, nofun⟩
    · intro c a m hm
      cases hm
    · intro c a f hf
      rw [Shared.body_eq] at hf
      cases hf
  · intro x a y hx hencoded ha hstep
    cases a with
    | thread i e =>
      have honly := only_of_reach hx i
      refine hencoded.fire ?_
        (knows_of_reach (fun _ _ => id) (noDelete_of_only hx) i) hstep
      intro r pc hr
      rw [hr] at honly
      exact honly
    | crash =>
      obtain rfl : y = x.crash := hstep
      exact hencoded.crash
    | losePower d z => exact ha.elim

end Flywheel
