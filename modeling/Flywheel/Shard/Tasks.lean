import Flywheel.Shard.State

/-!
# The operations of a shard, step by step

Each operation of `CacheService` and `ChannelService` is a task: a program counter between
two of its indivisible actions, which are single store reads, store batches, filesystem
calls and lock acquisitions. A step function takes one action; `none` means that the task
has to wait for a lock. The tasks of one shard interleave freely (`Shard/Machine.lean`).

- `publishStep`: `publish_or_reject`, that is `stage_reserved`, `channel_fence`,
  `publish_reserved` and `commit_publication` (`cache/service.rs`, `artifact_files.rs`);
- `locateStep`: `locate_local` with its self-heal;
- `maintainStep`: one candidate of `run_maintenance_once`;
- `reconcileStep`: one file of the startup scan;
- `referenceStep`: `bind_reference_with_validators` and `delete_reference`;
- `registerStep`, `patchStep`, `deleteStep`: the channel lifecycle (`channel/service.rs`).

A lock is released together with the last action taken under it: nothing can tell the two
apart, since other tasks only wait for it. Any fallible action may fail (`Event.fail`) and
then takes the source's error path. Admission against the space ledger is one of the ways
staging may fail.
-/

set_option autoImplicit false

namespace Flywheel

open Lib

/-! ## Requests -/

inductive PublicationTarget where
  | byId (artifact : ArtifactId)
  | contentAddressed (reference : Option Bytes)
  deriving DecidableEq

structure PublishRequest where
  channel : ChannelId
  target : PublicationTarget
  contentType : Option String
  stream : List Bytes
  durability : Durability
  encoding : StoredEncoding
  deriving DecidableEq

/-- What maintenance does with a candidate: a recently used one moves to a new deadline. -/
inductive Decision where
  | requeue (newDeadline : UInt64)
  | evict
  deriving DecidableEq

inductive ReferenceOp where
  | bind (artifact : ArtifactId) (etag lastModified : Option String) (durability : Durability)
  | delete
  deriving DecidableEq

/-- What a client, the maintenance worker or startup may ask for. -/
inductive Op where
  | publish (r : PublishRequest)
  | locate (c : ChannelId) (a : ArtifactId)
  | maintain (c : ChannelId) (candidate : Candidate) (decision : Decision)
  | reconcile (c : ChannelId) (a : ArtifactId)
  | reference (c : ChannelId) (name : Bytes) (op : ReferenceOp)
  | register (record : ChannelRecord)
  | patch (c : ChannelId) (credential : Option Bytes) (expirySeconds : Option UInt64)
  | delete (c : ChannelId) (credential : Option Bytes)
  | resume (c : ChannelId)

/-- What an operation returned; `located` carries the record and the opened bytes. -/
inductive Outcome where
  | published (r : PublishRequest) (created : Bool)
  | located (c : ChannelId) (a : ArtifactId) (hit : Option (ArtifactMetadata × Bytes))
  | deleted (c : ChannelId)
  | ok
  | failed
  deriving DecidableEq

/-! ## Program counters -/

/-- The fence of a publication: its gate, when staging ended, and the channel's expiry. -/
structure Fence where
  gate : Nat
  stagedAt : UInt64
  expirySeconds : UInt64
  deriving DecidableEq

inductive PublishPc where
  | stageDir
  | stageOpen
  | stageWrite
  | stageSync
  | fenceGate (stagedAt : UInt64)
  | fenceLock (stagedAt : UInt64) (g : Nat)
  | fenceCheck (stagedAt : UInt64) (g : Nat)
  | stripe (f : Fence)
  | publishDir (f : Fence)
  | tryExists (f : Fence)
  | removeStaged (f : Fence)
  | rename (f : Fence)
  | syncParent (f : Fence)
  | commitRead (f : Fence)
  | commitWrite (f : Fence) (found : Bool)
  /-- `Reservation::discard` outside the locks. -/
  | discard
  /-- `Reservation::discard` inside `ArtifactFiles::publish`, under gate and stripe. -/
  | discardLocked (f : Fence)
  deriving DecidableEq

inductive LocatePc where
  | read
  | open (m : ArtifactMetadata)
  | stripe
  | removeRead
  | removeWrite (found : Option ArtifactMetadata)
  deriving DecidableEq

inductive MaintainPc where
  | stripe
  | requeueRead
  | requeueWrite (m : ArtifactMetadata)
  | preRead
  | unlink
  | evictRead
  | evictWrite (found : Option ArtifactMetadata)
  deriving DecidableEq

inductive ReconcilePc where
  | read
  | stripe
  | reread
  | remove
  deriving DecidableEq

inductive ReferencePc where
  | fenceGate
  | fenceLock (g : Nat)
  | fenceCheck (g : Nat)
  | write (g : Nat)
  deriving DecidableEq

inductive RegisterPc where
  | read
  | write
  | gate
  deriving DecidableEq

inductive PatchPc where
  | authorize
  | gate
  | lock (g : Nat)
  | recheck (g : Nat)
  | store (g : Nat) (record : ChannelRecord)
  deriving DecidableEq

inductive DeletePc where
  | authorize
  | gate
  | lock (g : Nat)
  | recheck (g : Nat)
  | store (g : Nat) (record : ChannelRecord)
  /-- `resume_deletions` reads the registry and enters where `delete` drops its lease. -/
  | resumeRead
  | exclusiveGate
  | exclusiveLock (g : Nat)
  | deleteData (g : Nat)
  | removeDir (g : Nat)
  | finish (g : Nat)
  | forget (g : Nat)
  deriving DecidableEq

/-- One operation in progress, not yet started, or returned. -/
inductive Task where
  | idle
  | publish (r : PublishRequest) (pc : PublishPc)
  | locate (c : ChannelId) (a : ArtifactId) (pc : LocatePc)
  | maintain (c : ChannelId) (candidate : Candidate) (decision : Decision) (pc : MaintainPc)
  | reconcile (c : ChannelId) (a : ArtifactId) (pc : ReconcilePc)
  | reference (c : ChannelId) (name : Bytes) (op : ReferenceOp) (pc : ReferencePc)
  | register (record : ChannelRecord) (pc : RegisterPc)
  | patch (c : ChannelId) (credential : Option Bytes) (expirySeconds : Option UInt64) (pc : PatchPc)
  | delete (c : ChannelId) (credential : Option Bytes) (pc : DeletePc)
  | done (o : Outcome)
  deriving DecidableEq

/-- What resolves a step: the clock it reads, the entry `remove_dir_all` comes to next, or
that the action fails. -/
inductive Event where
  | start (op : Op)
  | run (now : UInt64)
  | remove (p : Path)
  | fail

def Event.isFail : Event → Bool
  | .fail => true
  | _ => false

/-! ## Publication -/

namespace PublishRequest

variable {ι : Type} (E : Env ι) (r : PublishRequest)

/-- The logical bytes of the upload. -/
def body : Bytes := r.stream.flatten

/-- The bytes staged for the upload. -/
def stored : Bytes := E.encode r.encoding r.stream

def artifact : ArtifactId :=
  match r.target with
  | .byId a => a
  | .contentAddressed _ => .fromDigest (E.sha256 r.body)

/-- The reference a content-addressed publication commits with its record. -/
def reference (stagedAt : UInt64) : Option (Bytes × ReferenceRecord) :=
  match r.target with
  | .byId _ => none
  | .contentAddressed name => name.map fun name => (name, ⟨r.artifact E, stagedAt, none, none⟩)

def metadata (f : Fence) (now : UInt64) : ArtifactMetadata where
  contentLen := r.body.length
  contentType := r.contentType
  createdAt := now
  eligibleAt := saturatingAdd now f.expirySeconds
  storedLen := (r.stored E).length
  encoding := r.encoding

/-- The batch of `commit_publication`. -/
def batch (f : Fence) (found : Bool) (now : UInt64) (x : RocksMetadata) : RocksMetadata :=
  x.commitBatch r.channel (r.artifact E) found (r.metadata E f now) (r.reference E f.stagedAt)

/-- The staged file of thread `i`. -/
def part (i : ι) : Path := tmpPath r.channel (E.partName i)

/-- Where the body is published. -/
def final : Path := path r.channel (r.artifact E)

end PublishRequest

section Steps

variable {ι : Type} [DecidableEq ι] (E : Env ι) (i : ι)

/-- Drop the stripe and the fence at the end of `commit_staged`. -/
def PublishRequest.release (r : PublishRequest) (f : Fence) (s : Shared ι) : Shared ι :=
  (s.unlockStripe (E.stripe r.channel (r.artifact E))).unlockRead f.gate i

def publishStep (r : PublishRequest) :
    PublishPc → Event → Shared ι → Option (Shared ι × Task)
  | .stageDir, .run _, s =>
    some (s.onDisk (·.mkdirAll (tmpDir r.channel)), .publish r .stageOpen)
  | .stageDir, .fail, s => some (s, .done .failed)
  | .stageOpen, .run _, s =>
    match s.disk.createNew (r.part E i) with
    | some d => some ({ s with disk := d }, .publish r .stageWrite)
    | none => some (s, .publish r .discard)
  | .stageOpen, .fail, s => some (s, .publish r .discard)
  -- the chunks of the stream reach the file; a failure may leave part of them behind
  | .stageWrite, .run _, s =>
    some (s.onDisk (·.write (r.part E i) (r.stored E)), .publish r .stageSync)
  | .stageWrite, .fail, s => some (s, .publish r .discard)
  | .stageSync, .run now, s =>
    some (s.syncDisk r.durability (·.syncFile (r.part E i)), .publish r (.fenceGate now))
  | .stageSync, .fail, s => some (s, .publish r .discard)
  | .fenceGate stagedAt, .run _, s =>
    some ((s.gate r.channel).1, .publish r (.fenceLock stagedAt (s.gate r.channel).2))
  | .fenceLock stagedAt g, .run _, s =>
    (s.lockRead g i).map fun s => (s, .publish r (.fenceCheck stagedAt g))
  | .fenceCheck stagedAt g, .run _, s =>
    match s.channel r.channel with
    | some record =>
      if record.state = .active then
        some (s, .publish r (.stripe ⟨g, stagedAt, record.expirySeconds⟩))
      else some (s.unlockRead g i, .publish r .discard)
    | none => some (s.unlockRead g i, .publish r .discard)
  | .fenceCheck _ g, .fail, s => some (s.unlockRead g i, .publish r .discard)
  | .stripe f, .run _, s =>
    (s.lockStripe (E.stripe r.channel (r.artifact E)) i).map fun s =>
      (s, .publish r (.publishDir f))
  | .publishDir f, .run _, s =>
    if E.sha256 r.body ≠ (r.artifact E).digest then some (s, .publish r (.discardLocked f))
    else some (s.onDisk (·.mkdirAll (shardDir r.channel (r.artifact E))), .publish r (.tryExists f))
  | .publishDir f, .fail, s => some (s, .publish r (.discardLocked f))
  | .tryExists f, .run _, s =>
    if (s.kindAt (r.final E)).isSome then some (s, .publish r (.removeStaged f))
    else some (s, .publish r (.rename f))
  | .tryExists f, .fail, s => some (s, .publish r (.discardLocked f))
  | .removeStaged f, .run _, s =>
    if (s.kindAt (r.part E i)).isSome then
      some (s.onDisk (·.unlink (r.part E i)), .publish r (.commitRead f))
    else some (s, .publish r (.discardLocked f))
  | .removeStaged f, .fail, s => some (s, .publish r (.discardLocked f))
  | .rename f, .run _, s =>
    match s.disk.rename (r.part E i) (r.final E) with
    | some d => some ({ s with disk := d }, .publish r (.syncParent f))
    | none => some (s, .publish r (.discardLocked f))
  | .rename f, .fail, s => some (s, .publish r (.discardLocked f))
  -- from here on the reservation is `Published`, so a failure leaves the body in place
  | .syncParent f, .run _, s =>
    some (s.syncDisk r.durability (·.syncDir (shardDir r.channel (r.artifact E))),
      .publish r (.commitRead f))
  | .syncParent f, .fail, s => some (r.release E i f s, .done .failed)
  | .commitRead f, .run _, s =>
    some (s, .publish r (.commitWrite f (s.record r.channel (r.artifact E)).isSome))
  | .commitRead f, .fail, s => some (r.release E i f s, .done .failed)
  | .commitWrite f found, .run now, s =>
    some (r.release E i f (s.commit r.durability (r.batch E f found now)),
      .done (.published r !found))
  | .commitWrite f _, .fail, s => some (r.release E i f s, .done .failed)
  | .discard, .run _, s => some (s.onDisk (·.unlink (r.part E i)), .done .failed)
  | .discard, .fail, s => some (s, .done .failed)
  | .discardLocked f, .run _, s =>
    some (r.release E i f (s.onDisk (·.unlink (r.part E i))), .done .failed)
  | .discardLocked f, .fail, s => some (r.release E i f s, .done .failed)
  | _, _, _ => none

/-! ## Lookup, maintenance and startup recovery -/

def locateStep (c : ChannelId) (a : ArtifactId) :
    LocatePc → Event → Shared ι → Option (Shared ι × Task)
  | .read, .run _, s =>
    match s.record c a with
    | some m => some (s, .locate c a (.open m))
    | none => some (s, .done (.located c a none))
  | .read, .fail, s => some (s, .done .failed)
  | .open m, .run _, s =>
    match s.body c a with
    | some bytes => some (s, .done (.located c a (some (m, bytes))))
    | none => some (s, .locate c a .stripe)
  | .open _, .fail, s => some (s, .done .failed)
  | .stripe, .run _, s =>
    (s.lockStripe (E.stripe c a) i).map fun s => (s, .locate c a .removeRead)
  | .removeRead, .run _, s => some (s, .locate c a (.removeWrite (s.record c a)))
  | .removeRead, .fail, s => some (s.unlockStripe (E.stripe c a), .done .failed)
  | .removeWrite found, .run _, s =>
    some ((s.commit .bestEffort (·.removeBatch c a found)).unlockStripe (E.stripe c a),
      .done (.located c a none))
  | .removeWrite _, .fail, s => some (s.unlockStripe (E.stripe c a), .done .failed)
  | _, _, _ => none

def maintainStep (c : ChannelId) (candidate : Candidate) (decision : Decision) :
    MaintainPc → Event → Shared ι → Option (Shared ι × Task)
  | .stripe, .run _, s =>
    (s.lockStripe (E.stripe c candidate.artifact) i).map fun s =>
      (s, .maintain c candidate decision
        (match decision with | .requeue _ => .requeueRead | .evict => .preRead))
  | .requeueRead, .run _, s =>
    match s.record c candidate.artifact with
    | some m =>
      if m.eligibleAt ≠ candidate.eligibleAt then
        some (s.unlockStripe (E.stripe c candidate.artifact), .done .ok)
      else some (s, .maintain c candidate decision (.requeueWrite m))
    | none => some (s.unlockStripe (E.stripe c candidate.artifact), .done .ok)
  | .requeueWrite m, .run _, s =>
    match decision with
    | .requeue new =>
      some ((s.commit .bestEffort
          (·.requeueBatch c candidate.artifact m candidate.eligibleAt new)).unlockStripe
            (E.stripe c candidate.artifact), .done .ok)
    | .evict => none
  | .preRead, .run _, s =>
    if (s.record c candidate.artifact).map (·.eligibleAt) = some candidate.eligibleAt then
      some (s, .maintain c candidate decision .unlink)
    else some (s, .maintain c candidate decision .evictRead)
  | .unlink, .run _, s =>
    some (s.onDisk (·.unlink (path c candidate.artifact)), .maintain c candidate decision .evictRead)
  | .evictRead, .run _, s =>
    some (s, .maintain c candidate decision (.evictWrite (s.record c candidate.artifact)))
  | .evictWrite found, .run _, s =>
    some ((s.commit .bestEffort
        (fun x => (x.evictBatch c candidate.artifact found candidate.eligibleAt).1)).unlockStripe
          (E.stripe c candidate.artifact), .done .ok)
  | .stripe, .fail, _ => none
  | _, .fail, s => some (s.unlockStripe (E.stripe c candidate.artifact), .done .failed)
  | _, _, _ => none

def reconcileStep (c : ChannelId) (a : ArtifactId) :
    ReconcilePc → Event → Shared ι → Option (Shared ι × Task)
  | .read, .run _, s =>
    if (s.record c a).isSome then some (s, .done .ok) else some (s, .reconcile c a .stripe)
  | .read, .fail, s => some (s, .done .failed)
  | .stripe, .run _, s =>
    (s.lockStripe (E.stripe c a) i).map fun s => (s, .reconcile c a .reread)
  | .reread, .run _, s =>
    if (s.record c a).isSome then some (s.unlockStripe (E.stripe c a), .done .ok)
    else some (s, .reconcile c a .remove)
  | .reread, .fail, s => some (s.unlockStripe (E.stripe c a), .done .failed)
  | .remove, .run _, s =>
    some ((s.onDisk (·.unlink (path c a))).unlockStripe (E.stripe c a), .done .ok)
  | .remove, .fail, s => some (s.unlockStripe (E.stripe c a), .done .failed)
  | _, _, _ => none

/-! ## References -/

/-- The write of a reference operation. -/
def ReferenceOp.commit (op : ReferenceOp) (c : ChannelId) (name : Bytes) (now : UInt64)
    (s : Shared ι) : Shared ι :=
  s.commit (match op with | .bind _ _ _ durability => durability | .delete => .durable)
    (match op with
      | .bind artifact etag lastModified _ =>
        (·.bindReference c name ⟨artifact, now, etag, lastModified⟩)
      | .delete => (·.deleteReference c name))

def referenceStep (c : ChannelId) (name : Bytes) (op : ReferenceOp) :
    ReferencePc → Event → Shared ι → Option (Shared ι × Task)
  | .fenceGate, .run _, s => some ((s.gate c).1, .reference c name op (.fenceLock (s.gate c).2))
  | .fenceLock g, .run _, s => (s.lockRead g i).map fun s => (s, .reference c name op (.fenceCheck g))
  | .fenceCheck g, .run _, s =>
    match s.channel c with
    | some record =>
      if record.state = .active then some (s, .reference c name op (.write g))
      else some (s.unlockRead g i, .done .failed)
    | none => some (s.unlockRead g i, .done .failed)
  | .fenceCheck g, .fail, s => some (s.unlockRead g i, .done .failed)
  | .write g, .run now, s => some ((op.commit c name now s).unlockRead g i, .done .ok)
  | .write g, .fail, s => some (s.unlockRead g i, .done .failed)
  | _, _, _ => none

/-! ## The channel lifecycle -/

/-- `ChannelService::authorize`: the record, if the credential opens it and it is active. -/
def authorize (s : Shared ι) (c : ChannelId) (credential : Option Bytes) : Option ChannelRecord :=
  (s.channel c).filter fun record =>
    authorizeRecord E.sha256 record credential && record.state == .active

def registerStep (record : ChannelRecord) :
    RegisterPc → Event → Shared ι → Option (Shared ι × Task)
  | .read, .run _, s =>
    if (s.channel record.id).isSome then some (s, .done .failed)
    else some (s, .register record .write)
  | .read, .fail, s => some (s, .done .failed)
  | .write, .run _, s =>
    some (s.commit .durable (·.storeChannel record), .register record .gate)
  | .write, .fail, s => some (s, .done .failed)
  | .gate, .run _, s => some ((s.gate record.id).1, .done .ok)
  | _, _, _ => none

/-- `patch_channel`: `authorize_with_lease`, the policy check, `update_expiry`. -/
def patchStep (c : ChannelId) (credential : Option Bytes) (expirySeconds : Option UInt64) :
    PatchPc → Event → Shared ι → Option (Shared ι × Task)
  | .authorize, .run _, s =>
    if (authorize E s c credential).isSome then some (s, .patch c credential expirySeconds .gate)
    else some (s, .done .failed)
  | .authorize, .fail, s => some (s, .done .failed)
  | .gate, .run _, s => some ((s.gate c).1, .patch c credential expirySeconds (.lock (s.gate c).2))
  | .lock g, .run _, s =>
    (s.lockRead g i).map fun s => (s, .patch c credential expirySeconds (.recheck g))
  | .recheck g, .run _, s =>
    match authorize E s c credential with
    | some record =>
      let expiry := expirySeconds.getD record.expirySeconds
      if expiry = 0 then some (s.unlockRead g i, .done .failed)
      else some (s, .patch c credential expirySeconds
        (.store g { record with expirySeconds := expiry }))
    | none => some (s.unlockRead g i, .done .failed)
  | .recheck g, .fail, s => some (s.unlockRead g i, .done .failed)
  | .store g record, .run _, s =>
    some ((s.commit .durable (·.storeChannel record)).unlockRead g i, .done .ok)
  | .store g _, .fail, s => some (s.unlockRead g i, .done .failed)
  | _, _, _ => none

/-- The paths `remove_dir_all` still has to remove. -/
def channelEntries (d : FsDisk) (c : ChannelId) : List Path :=
  (d.toList.map (·.1)).filter (channelDir c).isPrefixOf

/-- Whether `remove_dir_all` may remove `p` next: it is in the channel's directory and has
no entry left below it. -/
def removable (d : FsDisk) (c : ChannelId) (p : Path) : Bool :=
  (channelEntries d c).contains p && (channelEntries d c).all fun q => q == p || !p.isPrefixOf q

def deleteStep (c : ChannelId) (credential : Option Bytes) :
    DeletePc → Event → Shared ι → Option (Shared ι × Task)
  | .authorize, .run _, s =>
    if (authorize E s c credential).isSome then some (s, .delete c credential .gate)
    else some (s, .done .failed)
  | .authorize, .fail, s => some (s, .done .failed)
  | .gate, .run _, s => some ((s.gate c).1, .delete c credential (.lock (s.gate c).2))
  | .lock g, .run _, s => (s.lockRead g i).map fun s => (s, .delete c credential (.recheck g))
  | .recheck g, .run _, s =>
    match authorize E s c credential with
    | some record => some (s, .delete c credential (.store g record))
    | none => some (s.unlockRead g i, .done .failed)
  | .recheck g, .fail, s => some (s.unlockRead g i, .done .failed)
  | .store g record, .run _, s =>
    some ((s.commit .durable (·.storeChannel { record with state := .deleting })).unlockRead g i,
      .delete c credential .exclusiveGate)
  | .store g _, .fail, s => some (s.unlockRead g i, .done .failed)
  | .resumeRead, .run _, s =>
    if (s.channel c).any (·.state == .deleting) then some (s, .delete c credential .exclusiveGate)
    else some (s, .done .ok)
  | .resumeRead, .fail, s => some (s, .done .failed)
  | .exclusiveGate, .run _, s =>
    some ((s.gate c).1, .delete c credential (.exclusiveLock (s.gate c).2))
  | .exclusiveLock g, .run _, s =>
    (s.lockWrite g i).map fun s => (s, .delete c credential (.deleteData g))
  | .deleteData g, .run _, s =>
    some (s.commit .durable (·.deleteChannelData c), .delete c credential (.removeDir g))
  | .removeDir g, .remove p, s =>
    if removable s.disk c p then some (s.onDisk (·.unlink p), .delete c credential (.removeDir g))
    else none
  | .removeDir g, .run _, s =>
    if (channelEntries s.disk c).isEmpty then some (s, .delete c credential (.finish g)) else none
  | .finish g, .run _, s =>
    some (s.commit .durable (·.finishChannelDeletion c), .delete c credential (.forget g))
  | .deleteData g, .fail, s | .removeDir g, .fail, s | .finish g, .fail, s =>
    some (s.unlockWrite g, .done .failed)
  | .forget g, .run _, s => some ((s.forget c).unlockWrite g, .done (.deleted c))
  | _, _, _ => none

/-! ## Tasks -/

/-- A thread takes up an operation. A registration draws an identifier that was never
drawn before; `delete` refuses the Default Channel. -/
def startTask (s : Shared ι) : Op → Option (Shared ι × Task)
  | .publish r => some (s, .publish r .stageDir)
  | .locate c a => some (s, .locate c a .read)
  | .maintain c candidate decision => some (s, .maintain c candidate decision .stripe)
  | .reconcile c a => some (s, .reconcile c a .read)
  | .reference c name op => some (s, .reference c name op .fenceGate)
  | .register record =>
    if s.issued record.id = false ∧ record.state = .active then
      some ({ s with issued := Function.update s.issued record.id true }, .register record .read)
    else none
  | .patch c credential expirySeconds => some (s, .patch c credential expirySeconds .authorize)
  | .delete c credential =>
    if c = .default then some (s, .done .failed) else some (s, .delete c credential .authorize)
  | .resume c => some (s, .delete c none .resumeRead)

/-- One indivisible step of thread `i`. -/
def Task.step (e : Event) (s : Shared ι) : Task → Option (Shared ι × Task)
  | .idle =>
    match e with
    | .start op => startTask s op
    | _ => none
  | .publish r pc => publishStep E i r pc e s
  | .locate c a pc => locateStep E i c a pc e s
  | .maintain c candidate decision pc => maintainStep E i c candidate decision pc e s
  | .reconcile c a pc => reconcileStep E i c a pc e s
  | .reference c name op pc => referenceStep i c name op pc e s
  | .register record pc => registerStep record pc e s
  | .patch c credential expirySeconds pc => patchStep E i c credential expirySeconds pc e s
  | .delete c credential pc => deleteStep E i c credential pc e s
  | .done _ => none

end Steps

end Flywheel
