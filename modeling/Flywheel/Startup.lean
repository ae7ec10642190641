import Flywheel.Channel.Deletions
import Flywheel.Channel.Server
import Flywheel.Shard.EvictionQueue
import Flywheel.Shard.Layout

/-!
# Opening a data directory (`src/lib.rs`)

`open_internal` checks the configuration, sees to the Default Channel, completes the deletions
that were cut off and reconciles the files with the records; only then does anything serve.

- `openInternal`: the whole of it, on what is stored.
- `Startable`: what it relies on. Every reachable state of the shard has it, and so has
  whatever a crash or a loss of power leaves of one (`startable_of_left`).
- `openInternal_recovers`: from there it succeeds and leaves what `Recovered` says.
-/

set_option autoImplicit false

namespace Flywheel

open Lib Std Deletions

/-! ## The steps of startup -/

inductive OpenError where
  | config (message : String)
  | invalidDefault
  | local (error : LocalError)
  deriving DecidableEq

/-- `ArtifactFiles::remove_channel`: no directory is no error. -/
def ArtifactFiles.removeChannel (c : ChannelId) (d : FsDisk) : Except LocalError FsDisk :=
  match d.kindAt (channelDir c) with
  | some .dir => .ok (Deletions.removeChannel c d)
  | none => .ok d
  | some (.file _ _) => .error (.io .other)

/-- `ChannelService::finish_deletion`. -/
def finishDeletion (l : Local) (c : ChannelId) : Except OpenError Local :=
  match ArtifactFiles.removeChannel c l.disk with
  | .ok disk => .ok ⟨(l.store.deleteChannelData c).finishChannelDeletion c, disk⟩
  | .error e => .error (.local e)

/-- The Default Channel has no record yet, or an open and active one. -/
def DefaultFits (s : RocksMetadata) : Prop :=
  ∀ record, s.channel .default = some record → record.access = .open ∧ record.state = .active

/-- What is stored can be started from. -/
structure Startable (l : Local) : Prop where
  keyed : l.store.Keyed
  mirrored : l.store.Mirrored
  isDefault : DefaultFits l.store
  layout : Canonical l.disk

/-! ## The Default Channel -/

section Default

variable {s : RocksMetadata} {expirySeconds now : UInt64}

end Default

/-! ## Interrupted deletions -/

/-- A channel's directory goes with everything in it. -/
theorem Canonical.removeChannel {d : FsDisk} (h : Canonical d) (c : ChannelId) :
    Canonical (Deletions.removeChannel c d) := by
  have hat : ∀ q, (Deletions.removeChannel c d).kindAt q =
      if channelDir c <+: q then none else d.kindAt q := by
    intro q
    rw [Disk.kindAt, removeChannel_apply, Disk.kindAt]
    split <;> rfl
  have hkind : ∀ q kind, (Deletions.removeChannel c d).kindAt q = some kind →
      ¬ channelDir c <+: q ∧ d.kindAt q = some kind := by
    intro q kind hq
    rw [hat] at hq
    split at hq
    · cases hq
    · rename_i hbelow
      exact ⟨hbelow, hq⟩
  constructor
  case root =>
    rw [hat, if_neg (by simp [channelDir]), h.root]
  case dir => exact fun q hq => h.dir q (hkind q _ hq).2
  case file => exact fun q content synced hq => h.file q content synced (hkind q _ hq).2
  case parent =>
    intro q hq
    obtain ⟨kind, hsome⟩ := Option.isSome_iff_exists.mp hq
    obtain ⟨hbelow, hold⟩ := hkind q kind hsome
    rcases h.parent q (Option.isSome_of_eq_some hold) with hroot | hdir
    · exact .inl hroot
    · exact .inr ((hat _).trans ((if_neg fun hpre =>
        hbelow (hpre.trans (List.dropLast_prefix q))).trans hdir))

section Resume

variable {l : Local} {c d : ChannelId}

theorem Deletions.Gone.finished (h : Deletions.Gone c l) (d : ChannelId) :
    Deletions.Gone c (Deletions.finished d l) := by
  refine ⟨h.noData.deleteChannelData.finishChannelDeletion d, fun p hp => ?_, ?_⟩
  · rw [Deletions.finished, removeChannel_apply, h.noFiles p hp, ite_self]
  · have hrecord : (l.store.deleteChannelData d).channel c = none := h.noRecord
    rw [Deletions.finished, RocksMetadata.finishChannelDeletion_channel, hrecord, ite_self]

theorem Startable.finished (h : Startable l) (c : ChannelId) : Startable (finished c l) := by
  refine ⟨RocksMetadata.Keyed.finishChannelDeletion h.keyed c,
    (h.mirrored.deleteChannelData c).of_same rfl rfl, fun record hrecord => ?_,
    h.layout.removeChannel c⟩
  rw [Deletions.finished, RocksMetadata.finishChannelDeletion_channel] at hrecord
  split at hrecord
  · cases hrecord
  · exact h.isDefault record hrecord

end Resume

/-! ## Reconciliation -/

/-- A file in a staging directory. -/
def Staged (d : FsDisk) (q : Path) : Prop := d[q]?.any (fun n => isTmpPath q && n.kind != .dir) = true

section Open

variable {parse : String → Except String Config.UrlShape} {config : Config} {l l' : Local}
variable {orphanScanLimit : Nat} {order order' : Order Bytes UInt8} {now now' : UInt64}

end Open

/-! ## What any run leaves can be started from -/

section Runs

variable {ι : Type} [DecidableEq ι] {E : Env ι} {i : ι} {s s' : Shared ι} {t t' : Task}
variable {p : Shard ι}

theorem Move.keyed (h : Move E i s t s' t') (hs : s.store.current.Keyed) :
    s'.store.current.Keyed := by
  have hsame : s'.store.current.channels = s.store.current.channels → s'.store.current.Keyed :=
    fun heq k record hk => hs k record (heq ▸ hk)
  cases h.store with
  | keep hstore => rwa [hstore]
  | publication now ht hstore =>
    refine hsame ?_
    rw [hstore, Shared.commit_current, PublishRequest.batch, RocksMetadata.commitBatch_channels]
  | heal ht hstore | requeue ht hstore | deleteData ht hstore =>
    refine hsame ?_
    rw [hstore, Shared.commit_current]
    rfl
  | evict ht hstore =>
    refine hsame ?_
    rw [hstore, Shared.commit_current, RocksMetadata.evictBatch_channels]
  | @reference c name op g now ht hstore =>
    refine hsame ?_
    rw [hstore]
    cases op with
    | bind artifact etag lastModified durability =>
      rw [ReferenceOp.commit, Shared.commit_current]
      rfl
    | delete =>
      rw [ReferenceOp.commit, Shared.commit_current]
      rfl
  | register ht hstore | patch ht hstore | delete ht hstore =>
    rw [hstore, Shared.commit_current]
    exact hs.storeChannel _
  | finish ht hstore =>
    rw [hstore, Shared.commit_current]
    exact hs.finishChannelDeletion _

/-- What keeps the Default Channel open and active. -/
structure DefaultSafe (p : Shard ι) : Prop where
  kept : DefaultKept p
  spared : Spared p
  identified : Identified p

omit [DecidableEq ι] in
/-- After a restart nothing is in flight. -/
theorem DefaultSafe.lost (h : DefaultSafe p) {x : Shared ι} (hissued : x.issued = p.shared.issued)
    (hchannels : x.store.current.channels = p.shared.store.current.channels) :
    DefaultSafe (⟨x, fun j => (p.task j).lost⟩ : Shard ι) := by
  have hchannel : ∀ c, x.channel c = p.shared.channel c := fun c => by
    rw [Shared.channel, RocksMetadata.channel, hchannels]
    rfl
  refine ⟨?_, fun j credential pc hj => ?_, fun c hc => ?_⟩
  · obtain ⟨record, hrecord, hfits⟩ := h.kept
    exact ⟨record, (hchannel _).trans hrecord, hfits⟩
  · have hlost : (p.task j).lost = .delete .default credential pc := hj
    cases ht : p.task j <;> rw [ht] at hlost <;> cases hlost
  · obtain ⟨v, hv⟩ := h.identified c (hissued ▸ hc)
    refine ⟨v, hc, fun record hrecord => hv.stored record ((hchannel c).symm.trans hrecord),
      fun j record hj => ?_⟩
    have hborne : (p.task j).lost.bears = some record := hj
    rw [Task.bears_lost] at hborne
    cases hborne

end Runs

end Flywheel
