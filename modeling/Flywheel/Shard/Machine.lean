import Flywheel.Shard.Tasks

/-!
# The shard as a transition system

Any number of threads run one operation each over the shared state (`Pool`), one
indivisible step at a time. Beside the threads' steps there are two more actions: the
process may crash, which loses the locks and every operation in flight, and the machine
may lose power, which also loses what had not reached the disk. After either, startup
clears the staging directories; the operations it resumes are ordinary threads.

- `shard E`: the system; it starts from a new store that holds the Default Channel.
- `Shard.act`: the same steps as a function, for running a given schedule.
- `Task.owns`, `Task.readGate`, `Task.writeGate`: the locks a task holds between two of its
  steps.
-/

set_option autoImplicit false

namespace Flywheel

open Lib

variable {ι : Type}

abbrev Shard (ι : Type) : Type := Pool ι (Shared ι) Task

/-! ## Restarts -/

/-- What is left of an operation when the process dies: nobody hears its outcome. -/
def Task.lost : Task → Task
  | .idle => .idle
  | .done o => .done o
  | _ => .done .failed

/-- The process dies and a new one starts. -/
def Shard.crash (p : Shard ι) : Shard ι := ⟨p.shared.restart, fun i => (p.task i).lost⟩

/-- The machine loses power: of the disk `d` is left, of the store `x`. -/
def Shard.losePower (p : Shard ι) (d : FsDisk) (x : RocksMetadata) : Shard ι :=
  Shard.crash { p with shared := { p.shared with disk := d, store := Journal.synced x } }

/-! ## The system -/

inductive Action (ι : Type) where
  | thread (i : ι) (e : Event)
  | crash
  | losePower (d : FsDisk) (x : RocksMetadata)

/-- The shard of a new data directory, once `ensure_default` has run. -/
def Shared.fresh (ι : Type) (expirySeconds now : UInt64) : Shared ι where
  store := Journal.synced (RocksMetadata.empty.storeChannel
    ⟨.default, .open, expirySeconds, .active, now⟩)
  disk := ∅
  stripes := Mutexes.free
  gates := fun _ => none
  nextGate := 0
  locks := fun _ => RwLock.free
  issued := fun c => c == .default

@[simp] theorem Shared.fresh_record (expirySeconds now : UInt64) (c : ChannelId)
    (a : ArtifactId) : (Shared.fresh ι expirySeconds now).record c a = none := rfl

@[simp] theorem Shared.fresh_kindAt (expirySeconds now : UInt64) (p : Path) :
    (Shared.fresh ι expirySeconds now).kindAt p = none := rfl

theorem Shared.fresh_channel (expirySeconds now : UInt64) (c : ChannelId) :
    (Shared.fresh ι expirySeconds now).channel c =
      if ChannelId.default = c then some ⟨.default, .open, expirySeconds, .active, now⟩
      else none := by
  simp only [Shared.fresh, Shared.channel, Journal.synced_current,
    RocksMetadata.storeChannel_channel]
  rfl

def Shard.fresh (ι : Type) (expirySeconds now : UInt64) : Shard ι :=
  ⟨Shared.fresh ι expirySeconds now, fun _ => .idle⟩

variable [DecidableEq ι]

/-- Thread `j` is at the task `t`, and nothing else is different. -/
def Shard.withTask (p : Shard ι) (j : ι) (t : Task) : Shard ι :=
  ⟨p.shared, Function.update p.task j t⟩

@[simp] theorem Shard.withTask_shared (p : Shard ι) (j : ι) (t : Task) :
    (p.withTask j t).shared = p.shared := rfl

@[simp] theorem Shard.withTask_task (p : Shard ι) (j : ι) (t : Task) :
    (p.withTask j t).task j = t := Function.update_self ..

@[simp] theorem Shard.withTask_withTask (p : Shard ι) (j : ι) (t t' : Task) :
    (p.withTask j t).withTask j t' = p.withTask j t' := by
  simp [withTask]

/-- Thread `i` of a shard takes a step. -/
def Shard.fire (E : Env ι) (p : Shard ι) (i : ι) (e : Event) : Option (Shard ι) :=
  Pool.fire (fun i e s t => Task.step E i e s t) p i e

def shard (E : Env ι) : System (Shard ι) (Action ι) where
  init p := ∃ expirySeconds now, p = Shard.fresh ι expirySeconds now
  step p a p' :=
    match a with
    | .thread i e => p.fire E i e = some p'
    | .crash => p' = p.crash
    | .losePower d x =>
      Disk.LosePower p.shared.disk d ∧ p.shared.store.Survives x ∧ p' = p.losePower d x

/-- A step that leaves the shared state alone. -/
theorem Shard.fire_withTask {E : Env ι} {p : Shard ι} {j : ι} {e : Event} {t : Task}
    (h : Task.step E j e p.shared (p.task j) = some (p.shared, t)) :
    p.fire E j e = some (p.withTask j t) := by
  rw [Shard.fire, Pool.fire, h]
  rfl

theorem Shard.fire_eq_some {E : Env ι} {p p' : Shard ι} {i : ι} {e : Event}
    (h : p.fire E i e = some p') :
    Task.step E i e p.shared (p.task i) = some (p'.shared, p'.task i) ∧
      ∀ j, j ≠ i → p'.task j = p.task j :=
  Pool.fire_eq_some h

/-- The actions that a schedule determines: everything but what a loss of power leaves. -/
def Shard.act (E : Env ι) (p : Shard ι) : Action ι → Option (Shard ι)
  | .thread i e => p.fire E i e
  | .crash => some p.crash
  | .losePower _ _ => none

theorem Shard.step_of_act {E : Env ι} {p p' : Shard ι} {a : Action ι}
    (h : p.act E a = some p') : (shard E).step p a p' := by
  cases a with
  | thread i e => exact h
  | crash => exact (Option.some.inj h).symm
  | losePower d x => cases h

/-! ## The locks a task holds -/

/-- The artifact whose stripe a task holds between two steps. -/
def Task.owns (E : Env ι) : Task → Option (ChannelId × ArtifactId)
  | .publish r pc =>
    match pc with
    | .publishDir _ | .tryExists _ | .removeStaged _ | .rename _ | .syncParent _ | .commitRead _
    | .commitWrite _ _ | .discardLocked _ => some (r.channel, r.artifact E)
    | _ => none
  | .locate c a pc =>
    match pc with
    | .removeRead | .removeWrite _ => some (c, a)
    | _ => none
  | .maintain c candidate _ pc =>
    match pc with
    | .stripe => none
    | _ => some (c, candidate.artifact)
  | .reconcile c a pc =>
    match pc with
    | .reread | .remove => some (c, a)
    | _ => none
  | _ => none

/-- The stripe a task holds between two steps. -/
def Task.stripe (E : Env ι) (t : Task) : Option Nat := (t.owns E).map fun k => E.stripe k.1 k.2

/-- The gate a task holds the shared side of, with the channel it was looked up for. -/
def Task.readGate : Task → Option (ChannelId × Nat)
  | .publish r pc =>
    match pc with
    | .fenceCheck _ g => some (r.channel, g)
    | .stripe f | .publishDir f | .tryExists f | .removeStaged f | .rename f | .syncParent f
    | .commitRead f | .commitWrite f _ | .discardLocked f => some (r.channel, f.gate)
    | _ => none
  | .reference c _ _ pc =>
    match pc with
    | .fenceCheck g | .write g => some (c, g)
    | _ => none
  | .patch c _ _ pc =>
    match pc with
    | .recheck g | .store g _ => some (c, g)
    | _ => none
  | .delete c _ pc =>
    match pc with
    | .recheck g | .store g _ => some (c, g)
    | _ => none
  | _ => none

/-- The gate a task holds the exclusive side of, with the channel it was looked up for. -/
def Task.writeGate : Task → Option (ChannelId × Nat)
  | .delete c _ pc =>
    match pc with
    | .deleteData g | .removeDir g | .finish g | .forget g => some (c, g)
    | _ => none
  | _ => none

end Flywheel
