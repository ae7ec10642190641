import Flywheel.Shard.Steps

/-!
# What one step does to the shared state

`Move` sorts every step of every task by its effect: on the stripe and the gates the
thread holds (`StripeMove`, `GateMove`), on the store (`StoreMove`, one case for each
batch), on the disk (`DiskMove`), on the map of gates (`GatesMove`) and on the identifiers
drawn (`IssuedMove`). `step_move` is the one place where all steps of all operations are
gone through; everything that does not depend on what a task has read before is derived
from it.
-/

set_option autoImplicit false

namespace Flywheel

open Lib

variable {ι : Type} [DecidableEq ι] {E : Env ι} {i : ι} {e : Event} {s s' : Shared ι} {t t' : Task}

/-! ## Effects -/

/-- What a step of thread `i` does with the mutex it holds. -/
inductive StripeMove (i : ι) (m : Mutexes ι) : Option Nat → Mutexes ι → Option Nat → Prop
  | keep {k : Option Nat} : StripeMove i m k m k
  | take {k : Nat} {m' : Mutexes ι} (h : m.lock k i = some m') : StripeMove i m none m' (some k)
  | drop {k : Nat} : StripeMove i m (some k) (m.unlock k) none

/-- What a step of thread `i` does with the gates it holds: the shared side of the first,
the exclusive side of the second. -/
inductive GateMove (i : ι) (m : Nat → RwLock ι) :
    Option (ChannelId × Nat) → Option (ChannelId × Nat) → (Nat → RwLock ι) →
      Option (ChannelId × Nat) → Option (ChannelId × Nat) → Prop
  | keep {r w : Option (ChannelId × Nat)} : GateMove i m r w m r w
  | takeRead {c : ChannelId} {g : Nat} {l : RwLock ι} (h : (m g).read i = some l) :
    GateMove i m none none (Function.update m g l) (some (c, g)) none
  | dropRead {c : ChannelId} {g : Nat} :
    GateMove i m (some (c, g)) none (Function.update m g ((m g).releaseRead i)) none none
  | takeWrite {c : ChannelId} {g : Nat} {l : RwLock ι} (h : (m g).write i = some l) :
    GateMove i m none none (Function.update m g l) none (some (c, g))
  | dropWrite {c : ChannelId} {g : Nat} :
    GateMove i m none (some (c, g)) (Function.update m g (m g).releaseWrite) none none

/-- Which batch a step writes. -/
inductive StoreMove (E : Env ι) (s : Shared ι) (t : Task) (s' : Shared ι) : Prop
  | keep (h : s'.store = s.store)
  | publication {r : PublishRequest} {f : Fence} {found : Bool} (now : UInt64)
    (ht : t = .publish r (.commitWrite f found))
    (h : s'.store = (s.commit r.durability (r.batch E f found now)).store)
  | heal {c : ChannelId} {a : ArtifactId} {found : Option ArtifactMetadata}
    (ht : t = .locate c a (.removeWrite found))
    (h : s'.store = (s.commit .bestEffort (·.removeBatch c a found)).store)
  | requeue {c : ChannelId} {candidate : Candidate} {m : ArtifactMetadata} {new : UInt64}
    (ht : t = .maintain c candidate (.requeue new) (.requeueWrite m))
    (h : s'.store = (s.commit .bestEffort
      (·.requeueBatch c candidate.artifact m candidate.eligibleAt new)).store)
  | evict {c : ChannelId} {candidate : Candidate} {decision : Decision}
    {found : Option ArtifactMetadata} (ht : t = .maintain c candidate decision (.evictWrite found))
    (h : s'.store = (s.commit .bestEffort
      (fun x => (x.evictBatch c candidate.artifact found candidate.eligibleAt).1)).store)
  | reference {c : ChannelId} {name : Bytes} {op : ReferenceOp} {g : Nat} (now : UInt64)
    (ht : t = .reference c name op (.write g)) (h : s'.store = (op.commit c name now s).store)
  | register {record : ChannelRecord} (ht : t = .register record .write)
    (h : s'.store = (s.commit .durable (·.storeChannel record)).store)
  | patch {c : ChannelId} {credential : Option Bytes} {expirySeconds : Option UInt64} {g : Nat}
    {record : ChannelRecord} (ht : t = .patch c credential expirySeconds (.store g record))
    (h : s'.store = (s.commit .durable (·.storeChannel record)).store)
  | delete {c : ChannelId} {credential : Option Bytes} {g : Nat} {record : ChannelRecord}
    (ht : t = .delete c credential (.store g record))
    (h : s'.store = (s.commit .durable (·.storeChannel { record with state := .deleting })).store)
  | deleteData {c : ChannelId} {credential : Option Bytes} {g : Nat}
    (ht : t = .delete c credential (.deleteData g))
    (h : s'.store = (s.commit .durable (·.deleteChannelData c)).store)
  | finish {c : ChannelId} {credential : Option Bytes} {g : Nat}
    (ht : t = .delete c credential (.finish g))
    (h : s'.store = (s.commit .durable (·.finishChannelDeletion c)).store)

/-- What a step does to the disk. -/
inductive DiskMove (E : Env ι) (i : ι) (s : Shared ι) (t : Task) (s' : Shared ι) (t' : Task) :
    Prop
  | keep (h : s'.disk = s.disk)
  | stageDir {r : PublishRequest} (ht : t = .publish r .stageDir)
    (h : s'.disk = s.disk.mkdirAll (tmpDir r.channel))
  | stageOpen {r : PublishRequest} (ht : t = .publish r .stageOpen)
    (h : s.disk.createNew (r.part E i) = some s'.disk)
  | stageWrite {r : PublishRequest} (ht : t = .publish r .stageWrite)
    (h : s'.disk = s.disk.write (r.part E i) (r.stored E))
  | stageSync {r : PublishRequest} (ht : t = .publish r .stageSync)
    (h : s'.disk = (s.syncDisk r.durability (·.syncFile (r.part E i))).disk)
  | shardDir {r : PublishRequest} {f : Fence} (ht : t = .publish r (.publishDir f))
    (h : s'.disk = s.disk.mkdirAll (shardDir r.channel (r.artifact E)))
  | removePart {r : PublishRequest} {f : Fence}
    (ht : t = .publish r (.removeStaged f) ∨ t = .publish r .discard ∨
      t = .publish r (.discardLocked f))
    (h : s'.disk = s.disk.unlink (r.part E i))
  | rename {r : PublishRequest} {f : Fence} (ht : t = .publish r (.rename f))
    (ht' : t' = .publish r (.syncParent f))
    (h : s.disk.rename (r.part E i) (r.final E) = some s'.disk)
  | syncParent {r : PublishRequest} {f : Fence} (ht : t = .publish r (.syncParent f))
    (h : s'.disk =
      (s.syncDisk r.durability (·.syncDir (Flywheel.shardDir r.channel (r.artifact E)))).disk)
  | evict {c : ChannelId} {candidate : Candidate} {decision : Decision}
    (ht : t = .maintain c candidate decision .unlink)
    (ht' : t' = .maintain c candidate decision .evictRead)
    (h : s'.disk = s.disk.unlink (path c candidate.artifact))
  | reconcile {c : ChannelId} {a : ArtifactId} (ht : t = .reconcile c a .remove)
    (h : s'.disk = s.disk.unlink (path c a))
  | removeDir {c : ChannelId} {credential : Option Bytes} {g : Nat} (p : Path)
    (ht : t = .delete c credential (.removeDir g)) (hp : removable s.disk c p = true)
    (h : s'.disk = s.disk.unlink p)

/-- What a step does to the map of gates. -/
inductive GatesMove (s : Shared ι) (t : Task) (s' : Shared ι) : Prop
  | keep (h : s'.gates = s.gates) (hn : s'.nextGate = s.nextGate)
  | lookup (c : ChannelId) (h : s'.gates = (s.gate c).1.gates)
    (hn : s'.nextGate = (s.gate c).1.nextGate)
  | forget {c : ChannelId} {credential : Option Bytes} {g : Nat}
    (ht : t = .delete c credential (.forget g)) (h : s'.gates = (s.forget c).gates)
    (hn : s'.nextGate = s.nextGate)

/-- What a step does to the identifiers drawn so far. -/
inductive IssuedMove (s : Shared ι) (t : Task) (s' : Shared ι) (t' : Task) : Prop
  | keep (h : s'.issued = s.issued)
  | draw {record : ChannelRecord} (ht : t = .idle) (ht' : t' = .register record .read)
    (hfresh : s.issued record.id = false) (hactive : record.state = .active)
    (h : s'.issued = Function.update s.issued record.id true)

/-- Everything a step of thread `i` does to the shared state. -/
structure Move (E : Env ι) (i : ι) (s : Shared ι) (t : Task) (s' : Shared ι) (t' : Task) :
    Prop where
  stripe : StripeMove i s.stripes (t.stripe E) s'.stripes (t'.stripe E)
  gate : GateMove i s.locks t.readGate t.writeGate s'.locks t'.readGate t'.writeGate
  store : StoreMove E s t s'
  disk : DiskMove E i s t s' t'
  gates : GatesMove s t s'
  issued : IssuedMove s t s' t'

/-- A step that only reads, or only moves locks. -/
theorem Move.quiet (hstripe : StripeMove i s.stripes (t.stripe E) s'.stripes (t'.stripe E))
    (hgate : GateMove i s.locks t.readGate t.writeGate s'.locks t'.readGate t'.writeGate)
    (hrest : (s'.store, s'.disk, s'.gates, s'.nextGate, s'.issued) =
      (s.store, s.disk, s.gates, s.nextGate, s.issued)) :
    Move E i s t s' t' := by
  simp only [Prod.mk.injEq] at hrest
  obtain ⟨hstore, hdisk, hgates, hnext, hissued⟩ := hrest
  exact ⟨hstripe, hgate, .keep hstore, .keep hdisk, .keep hgates hnext, .keep hissued⟩

/-- A step that writes a batch. -/
theorem Move.batch (hstripe : StripeMove i s.stripes (t.stripe E) s'.stripes (t'.stripe E))
    (hgate : GateMove i s.locks t.readGate t.writeGate s'.locks t'.readGate t'.writeGate)
    (hstore : StoreMove E s t s')
    (hrest : (s'.disk, s'.gates, s'.nextGate, s'.issued) =
      (s.disk, s.gates, s.nextGate, s.issued)) :
    Move E i s t s' t' := by
  simp only [Prod.mk.injEq] at hrest
  obtain ⟨hdisk, hgates, hnext, hissued⟩ := hrest
  exact ⟨hstripe, hgate, hstore, .keep hdisk, .keep hgates hnext, .keep hissued⟩

/-- A step that writes to the disk. -/
theorem Move.file (hstripe : StripeMove i s.stripes (t.stripe E) s'.stripes (t'.stripe E))
    (hgate : GateMove i s.locks t.readGate t.writeGate s'.locks t'.readGate t'.writeGate)
    (hdisk : DiskMove E i s t s' t')
    (hrest : (s'.store, s'.gates, s'.nextGate, s'.issued) =
      (s.store, s.gates, s.nextGate, s.issued)) :
    Move E i s t s' t' := by
  simp only [Prod.mk.injEq] at hrest
  obtain ⟨hstore, hgates, hnext, hissued⟩ := hrest
  exact ⟨hstripe, hgate, .keep hstore, hdisk, .keep hgates hnext, .keep hissued⟩

/-- A step that looks up the gate of `c`. -/
theorem Move.lookup (c : ChannelId) (hs : s' = (s.gate c).1) (hstripe : t'.stripe E = t.stripe E)
    (hread : t'.readGate = t.readGate) (hwrite : t'.writeGate = t.writeGate) :
    Move E i s t s' t' := by
  subst hs
  refine ⟨?_, ?_, .keep rfl, .keep rfl, .lookup c rfl rfl, .keep rfl⟩
  · rw [hstripe]
    exact .keep
  · rw [hread, hwrite]
    exact .keep

/-! ## Acquiring -/

omit [DecidableEq ι] in
theorem Shared.lockStripe_eq_some {k : Nat} (h : s.lockStripe k i = some s') :
    ∃ m, s.stripes.lock k i = some m ∧ s' = { s with stripes := m } := by
  obtain ⟨m, hm, rfl⟩ := Option.map_eq_some_iff.mp h
  exact ⟨m, hm, rfl⟩

theorem Shared.lockRead_eq_some {g : Nat} (h : s.lockRead g i = some s') :
    ∃ l, (s.locks g).read i = some l ∧ s' = { s with locks := Function.update s.locks g l } := by
  obtain ⟨l, hl, rfl⟩ := Option.map_eq_some_iff.mp h
  exact ⟨l, hl, rfl⟩

theorem Shared.lockWrite_eq_some {g : Nat} (h : s.lockWrite g i = some s') :
    ∃ l, (s.locks g).write i = some l ∧ s' = { s with locks := Function.update s.locks g l } := by
  obtain ⟨l, hl, rfl⟩ := Option.map_eq_some_iff.mp h
  exact ⟨l, hl, rfl⟩

/-! ## Every step of every operation -/

theorem publish_move {r : PublishRequest} {pc : PublishPc}
    (h : publishStep E i r pc e s = some (s', t')) : Move E i s (.publish r pc) s' t' := by
  rcases publishStep_task h with ⟨pc', rfl⟩ | ⟨o, rfl⟩
  · have hfrom := publishStep_to h
    cases pc' with
    | stageDir => exact hfrom.elim
    | stageOpen =>
      obtain ⟨rfl, rfl⟩ := hfrom
      exact .file .keep .keep (.stageDir rfl rfl) rfl
    | stageWrite =>
      obtain ⟨rfl, d, hd, rfl⟩ := hfrom
      exact .file .keep .keep (.stageOpen rfl hd) rfl
    | stageSync =>
      obtain ⟨rfl, rfl⟩ := hfrom
      exact .file .keep .keep (.stageWrite rfl rfl) rfl
    | fenceGate stagedAt =>
      obtain ⟨rfl, rfl⟩ := hfrom
      exact .file .keep .keep (.stageSync rfl rfl) rfl
    | fenceLock stagedAt g =>
      obtain ⟨rfl, hs, -⟩ := hfrom
      exact .lookup r.channel hs rfl rfl rfl
    | fenceCheck stagedAt g =>
      obtain ⟨rfl, hlock⟩ := hfrom
      obtain ⟨l, hl, rfl⟩ := Shared.lockRead_eq_some hlock
      exact .quiet .keep (.takeRead hl) rfl
    | stripe | removeStaged | rename | commitWrite =>
      obtain ⟨rfl, rfl, -⟩ := hfrom
      exact .quiet .keep .keep rfl
    | publishDir f =>
      obtain ⟨rfl, hlock⟩ := hfrom
      obtain ⟨m, hm, rfl⟩ := Shared.lockStripe_eq_some hlock
      exact .quiet (.take hm) .keep rfl
    | tryExists f =>
      obtain ⟨rfl, -, rfl⟩ := hfrom
      exact .file .keep .keep (.shardDir rfl rfl) rfl
    | syncParent f =>
      obtain ⟨rfl, d, hd, rfl⟩ := hfrom
      exact .file .keep .keep (.rename rfl rfl hd) rfl
    | commitRead f =>
      rcases hfrom with ⟨rfl, rfl⟩ | ⟨rfl, rfl⟩
      · exact .file .keep .keep (.removePart (.inl rfl) rfl) rfl
      · exact .file .keep .keep (.syncParent rfl rfl) rfl
    | discard =>
      rcases hfrom with ⟨rfl, rfl | rfl | rfl⟩ | ⟨stagedAt, g, rfl, rfl⟩
      · exact .quiet .keep .keep rfl
      · exact .quiet .keep .keep rfl
      · exact .quiet .keep .keep rfl
      · exact .quiet .keep .dropRead rfl
    | discardLocked f =>
      rcases hfrom with ⟨rfl, rfl | rfl | rfl | rfl⟩ <;> exact .quiet .keep .keep rfl
  · rcases publishStep_end h with ⟨f, found, now, rfl, rfl, rfl⟩ | ⟨rfl, hend⟩
    · exact .batch .drop .dropRead (.publication now rfl rfl) rfl
    · rcases hend with ⟨rfl, rfl | rfl⟩ | ⟨rfl, rfl⟩ |
        ⟨f, rfl, rfl | rfl | ⟨found, rfl⟩ | rfl⟩ | ⟨f, rfl, rfl⟩
      · exact .quiet .keep .keep rfl
      · exact .quiet .keep .keep rfl
      · exact .file .keep .keep (.removePart (f := ⟨0, 0, 0⟩) (.inr (.inl rfl)) rfl) rfl
      · exact .quiet .drop .dropRead rfl
      · exact .quiet .drop .dropRead rfl
      · exact .quiet .drop .dropRead rfl
      · exact .quiet .drop .dropRead rfl
      · exact .file .drop .dropRead (.removePart (.inr (.inr rfl)) rfl) rfl

theorem locate_move {c : ChannelId} {a : ArtifactId} {pc : LocatePc}
    (h : locateStep E i c a pc e s = some (s', t')) : Move E i s (.locate c a pc) s' t' := by
  rcases locateStep_task h with ⟨pc', rfl⟩ | ⟨o, rfl⟩
  · have hfrom := locateStep_to h
    cases pc' with
    | read => exact hfrom.elim
    | «open» | removeWrite =>
      obtain ⟨rfl, rfl, -⟩ := hfrom
      exact .quiet .keep .keep rfl
    | stripe =>
      obtain ⟨⟨m, rfl⟩, rfl, -⟩ := hfrom
      exact .quiet .keep .keep rfl
    | removeRead =>
      obtain ⟨rfl, hlock⟩ := hfrom
      obtain ⟨m, hm, rfl⟩ := Shared.lockStripe_eq_some hlock
      exact .quiet (.take hm) .keep rfl
  · rcases locateStep_end h with ⟨rfl, rfl, -⟩ | ⟨m, bytes, rfl, rfl, -⟩ | ⟨found, rfl, -, rfl⟩ |
      ⟨-, ⟨rfl, rfl | ⟨m, rfl⟩⟩ | ⟨rfl, rfl | ⟨found, rfl⟩⟩⟩
    · exact .quiet .keep .keep rfl
    · exact .quiet .keep .keep rfl
    · exact .batch .drop .keep (.heal rfl rfl) rfl
    · exact .quiet .keep .keep rfl
    · exact .quiet .keep .keep rfl
    · exact .quiet .drop .keep rfl
    · exact .quiet .drop .keep rfl

theorem maintain_move {c : ChannelId} {candidate : Candidate} {decision : Decision}
    {pc : MaintainPc} (h : maintainStep E i c candidate decision pc e s = some (s', t')) :
    Move E i s (.maintain c candidate decision pc) s' t' := by
  rcases maintainStep_task h with ⟨pc', rfl⟩ | ⟨o, rfl⟩
  · have hfrom := maintainStep_to h
    cases pc' with
    | stripe => exact hfrom.elim
    | requeueRead | preRead =>
      obtain ⟨rfl, hlock, -⟩ := hfrom
      obtain ⟨m, hm, rfl⟩ := Shared.lockStripe_eq_some hlock
      exact .quiet (.take hm) .keep rfl
    | requeueWrite | unlink | evictWrite =>
      obtain ⟨rfl, rfl, -⟩ := hfrom
      exact .quiet .keep .keep rfl
    | evictRead =>
      rcases hfrom with ⟨rfl, rfl, -⟩ | ⟨rfl, rfl⟩
      · exact .quiet .keep .keep rfl
      · exact .file .keep .keep (.evict rfl rfl rfl) rfl
  · rcases maintainStep_end h with ⟨-, rfl, rfl⟩ | ⟨-, m, new, rfl, rfl, rfl⟩ |
      ⟨-, found, rfl, rfl⟩ | ⟨-, hne, rfl⟩
    · exact .quiet .drop .keep rfl
    · exact .batch .drop .keep (.requeue rfl rfl) rfl
    · exact .batch .drop .keep (.evict rfl rfl) rfl
    · refine .quiet ?_ .keep rfl
      have hheld : (Task.maintain c candidate decision pc).stripe E =
          some (E.stripe c candidate.artifact) := by
        cases pc with
        | stripe => exact absurd rfl hne
        | _ => rfl
      rw [hheld]
      exact .drop

theorem reconcile_move {c : ChannelId} {a : ArtifactId} {pc : ReconcilePc}
    (h : reconcileStep E i c a pc e s = some (s', t')) :
    Move E i s (.reconcile c a pc) s' t' := by
  rcases reconcileStep_task h with ⟨pc', rfl⟩ | ⟨o, rfl⟩
  · have hfrom := reconcileStep_to h
    cases pc' with
    | read => exact hfrom.elim
    | stripe =>
      obtain ⟨rfl, rfl⟩ := hfrom
      exact .quiet .keep .keep rfl
    | reread =>
      obtain ⟨rfl, hlock⟩ := hfrom
      obtain ⟨m, hm, rfl⟩ := Shared.lockStripe_eq_some hlock
      exact .quiet (.take hm) .keep rfl
    | remove =>
      obtain ⟨rfl, rfl, -⟩ := hfrom
      exact .quiet .keep .keep rfl
  · rcases reconcileStep_end h with ⟨-, ⟨rfl, rfl⟩ | ⟨rfl | rfl, rfl⟩ | ⟨rfl, rfl⟩⟩
    · exact .quiet .keep .keep rfl
    · exact .quiet .drop .keep rfl
    · exact .quiet .drop .keep rfl
    · exact .file .drop .keep (.reconcile rfl rfl) rfl

theorem reference_move {c : ChannelId} {name : Bytes} {op : ReferenceOp} {pc : ReferencePc}
    (h : referenceStep i c name op pc e s = some (s', t')) :
    Move E i s (.reference c name op pc) s' t' := by
  rcases referenceStep_task h with ⟨pc', rfl⟩ | ⟨o, rfl⟩
  · have hfrom := referenceStep_to h
    cases pc' with
    | fenceGate => exact hfrom.elim
    | fenceLock g =>
      obtain ⟨rfl, hs, -⟩ := hfrom
      exact .lookup c hs rfl rfl rfl
    | fenceCheck g =>
      obtain ⟨rfl, hlock⟩ := hfrom
      obtain ⟨l, hl, rfl⟩ := Shared.lockRead_eq_some hlock
      exact .quiet .keep (.takeRead hl) rfl
    | write g =>
      obtain ⟨rfl, rfl, -⟩ := hfrom
      exact .quiet .keep .keep rfl
  · rcases referenceStep_end h with ⟨-, g, now, rfl, rfl⟩ | ⟨-, g, rfl | rfl, rfl⟩
    · exact .batch .keep .dropRead (.reference now rfl rfl) rfl
    · exact .quiet .keep .dropRead rfl
    · exact .quiet .keep .dropRead rfl

theorem register_move {record : ChannelRecord} {pc : RegisterPc}
    (h : registerStep record pc e s = some (s', t')) :
    Move E i s (.register record pc) s' t' := by
  rcases registerStep_task h with ⟨pc', rfl⟩ | ⟨o, rfl⟩
  · have hfrom := registerStep_to h
    cases pc' with
    | read => exact hfrom.elim
    | write =>
      obtain ⟨rfl, rfl, -⟩ := hfrom
      exact .quiet .keep .keep rfl
    | gate =>
      obtain ⟨rfl, rfl⟩ := hfrom
      exact .batch .keep .keep (.register rfl rfl) rfl
  · rcases registerStep_end h with ⟨-, rfl, hs⟩ | ⟨-, rfl | rfl, rfl⟩
    · exact .lookup record.id hs rfl rfl rfl
    · exact .quiet .keep .keep rfl
    · exact .quiet .keep .keep rfl

theorem patch_move {c : ChannelId} {credential : Option Bytes} {expirySeconds : Option UInt64}
    {pc : PatchPc} (h : patchStep E i c credential expirySeconds pc e s = some (s', t')) :
    Move E i s (.patch c credential expirySeconds pc) s' t' := by
  rcases patchStep_task h with ⟨pc', rfl⟩ | ⟨o, rfl⟩
  · have hfrom := patchStep_to h
    cases pc' with
    | authorize => exact hfrom.elim
    | gate | store =>
      obtain ⟨rfl, rfl, -⟩ := hfrom
      exact .quiet .keep .keep rfl
    | lock g =>
      obtain ⟨rfl, hs, -⟩ := hfrom
      exact .lookup c hs rfl rfl rfl
    | recheck g =>
      obtain ⟨rfl, hlock⟩ := hfrom
      obtain ⟨l, hl, rfl⟩ := Shared.lockRead_eq_some hlock
      exact .quiet .keep (.takeRead hl) rfl
  · rcases patchStep_end h with ⟨-, g, record, rfl, rfl⟩ |
      ⟨-, ⟨rfl, rfl⟩ | ⟨g, rfl | ⟨record, rfl⟩, rfl⟩⟩
    · exact .batch .keep .dropRead (.patch rfl rfl) rfl
    · exact .quiet .keep .keep rfl
    · exact .quiet .keep .dropRead rfl
    · exact .quiet .keep .dropRead rfl

theorem delete_move {c : ChannelId} {credential : Option Bytes} {pc : DeletePc}
    (h : deleteStep E i c credential pc e s = some (s', t')) :
    Move E i s (.delete c credential pc) s' t' := by
  rcases deleteStep_task h with ⟨pc', rfl⟩ | ⟨o, rfl⟩
  · have hfrom := deleteStep_to h
    cases pc' with
    | authorize | resumeRead => exact hfrom.elim
    | gate | store | finish =>
      obtain ⟨rfl, rfl, -⟩ := hfrom
      exact .quiet .keep .keep rfl
    | lock | exclusiveLock =>
      obtain ⟨rfl, hs, -⟩ := hfrom
      exact .lookup c hs rfl rfl rfl
    | recheck g =>
      obtain ⟨rfl, hlock⟩ := hfrom
      obtain ⟨l, hl, rfl⟩ := Shared.lockRead_eq_some hlock
      exact .quiet .keep (.takeRead hl) rfl
    | exclusiveGate =>
      rcases hfrom with ⟨g, record, rfl, rfl⟩ | ⟨rfl, rfl, -⟩
      · exact .batch .keep .dropRead (.delete rfl rfl) rfl
      · exact .quiet .keep .keep rfl
    | deleteData g =>
      obtain ⟨rfl, hlock⟩ := hfrom
      obtain ⟨l, hl, rfl⟩ := Shared.lockWrite_eq_some hlock
      exact .quiet .keep (.takeWrite hl) rfl
    | removeDir g =>
      rcases hfrom with ⟨rfl, rfl⟩ | ⟨rfl, p, hp, rfl⟩
      · exact .batch .keep .keep (.deleteData rfl rfl) rfl
      · exact .file .keep .keep (.removeDir p rfl hp rfl) rfl
    | forget g =>
      obtain ⟨rfl, rfl⟩ := hfrom
      exact .batch .keep .keep (.finish rfl rfl) rfl
  · rcases deleteStep_end h with ⟨-, g, rfl, rfl⟩ | ⟨-, rfl | rfl, rfl⟩ |
      ⟨-, g, rfl | ⟨record, rfl⟩, rfl⟩ | ⟨-, g, rfl | rfl | rfl, rfl⟩
    · exact ⟨.keep, .dropWrite, .keep rfl, .keep rfl, .forget rfl rfl rfl, .keep rfl⟩
    · exact .quiet .keep .keep rfl
    · exact .quiet .keep .keep rfl
    · exact .quiet .keep .dropRead rfl
    · exact .quiet .keep .dropRead rfl
    all_goals exact .quiet .keep .dropWrite rfl

theorem start_move {op : Op} (h : startTask s op = some (s', t')) :
    Move E i s .idle s' t' := by
  cases op with
  | register record =>
    rw [startTask] at h
    split at h
    · rename_i hfresh
      cases h
      exact ⟨.keep, .keep, .keep rfl, .keep rfl, .keep rfl rfl,
        .draw rfl rfl hfresh.1 hfresh.2 rfl⟩
    · cases h
  | delete c credential =>
    rw [startTask] at h
    split at h <;> cases h <;> exact .quiet .keep .keep rfl
  | _ =>
    cases h
    exact .quiet .keep .keep rfl

/-- Every step of every task, sorted by its effect. -/
theorem step_move (h : Task.step E i e s t = some (s', t')) : Move E i s t s' t' := by
  cases t with
  | idle =>
    cases e with
    | start op => exact start_move h
    | _ => cases h
  | publish r pc => exact publish_move h
  | locate c a pc => exact locate_move h
  | maintain c candidate decision pc => exact maintain_move h
  | reconcile c a pc => exact reconcile_move h
  | reference c name op pc => exact reference_move h
  | register record pc => exact register_move h
  | patch c credential expirySeconds pc => exact patch_move h
  | delete c credential pc => exact delete_move h
  | done o => cases h

end Flywheel
