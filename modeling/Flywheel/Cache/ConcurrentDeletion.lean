import Flywheel.Cache.Passes
import Flywheel.Shard.Isolation
import Flywheel.Shard.Lifecycle
import Mathlib.Order.WithBot

/-!
# A maintenance pass among channel deletions

A pass lists the active channels once and reads each of them again when its turn comes. Other
threads delete channels meanwhile. The machine below interleaves the single actions of the two: the
pass takes its candidates through `maintainStep`, the deletions are the tasks of a shard.

- `passStep`: one action of `run_maintenance_once`.
- `Visits`: every channel that nobody deletes is processed with the budget that is left when its
  turn comes, exactly as `handledRows` says. What happens to the deleted ones only spends budget.
- `Spared`: the invariant. It compares the shard with the one that the log of the pass gives from
  the starting state; the two agree on every channel that nobody deletes.

`expiry_seconds` fails with `MissingChannel` for a channel that was marked after it was listed, and
the pass returns that error, whatever channels are left (`missing_channel_ends_pass`). The first
channel in turn is the cursor modulo the number of channels listed, those included that are deleted
meanwhile, so these may change the turns of the others (`others_turns_iff`). As long as the pass
finds its channels active, and the turns stay, the deletions spoil nothing
(`deletions_spare_others`).
-/

set_option autoImplicit false

namespace Flywheel

open Lib

/-! ## Deletions -/

/-- Events that start and drive deletions and are no I/O error. -/
def Event.deletes : Event → Bool
  | .start (.delete _ _) | .run _ | .remove _ => true
  | _ => false

/-- The channel that a task has marked for deletion. -/
def Task.marks : Task → Option ChannelId
  | .delete c _ pc =>
    match pc with
    | .exclusiveGate | .exclusiveLock _ | .deleteData _ | .removeDir _ | .finish _ | .forget _ => some c
    | _ => none
  | .done (.deleted c) => some c
  | _ => none

/-- The tasks of a thread that deletes; the record such a task carries is its channel's. -/
def Task.Deletes : Task → Prop
  | .idle | .done _ => True
  | .delete c _ pc =>
    match pc with
    | .store _ record => record.id = c
    | .resumeRead => False
    | _ => True
  | _ => False

/-- What a deletion of `c` does to the data with one step. Before the channel is marked it does
nothing. -/
inductive DeletionMove {ι : Type} (c : ChannelId) (s s' : Shared ι) (t' : Task) : Prop
  | quiet (hstore : s'.store.current = s.store.current) (hdisk : s'.disk = s.disk)
  | mark (record : ChannelRecord) (hid : record.id = c) (hmarks : t'.marks = some c)
    (hstore : s'.store.current = s.store.current.storeChannel record) (hdisk : s'.disk = s.disk)
  | drain (hmarks : t'.marks = some c)
    (hstore : s'.store.current = s.store.current.deleteChannelData c) (hdisk : s'.disk = s.disk)
  | sweep (p : Path) (hp : channelDir c <+: p) (hmarks : t'.marks = some c)
    (hstore : s'.store.current = s.store.current) (hdisk : s'.disk = s.disk.unlink p)
  | finish (hmarks : t'.marks = some c)
    (hstore : s'.store.current = s.store.current.finishChannelDeletion c)
    (hdisk : s'.disk = s.disk)

section Deletions

variable {ι : Type} [DecidableEq ι] {E : Env ι} {i : ι} {e : Event} {s s' : Shared ι} {t t' : Task}
  {c d : ChannelId}

/-- One step of a deletion. -/
structure DeletionStep (c : ChannelId) (s : Shared ι) (t : Task) (s' : Shared ι) (t' : Task) :
    Prop where
  task : t'.Deletes
  marks : ∀ d, t.marks = some d → t'.marks = some d
  stripes : s'.stripes = s.stripes
  move : DeletionMove c s s' t'

omit [DecidableEq ι] in
/-- A step that moves locks, or reads. -/
theorem DeletionStep.quiet (htask : t'.Deletes) (hmarks : ∀ d, t.marks = some d → t'.marks = some d)
    (hstripes : s'.stripes = s.stripes) (hstore : s'.store = s.store) (hdisk : s'.disk = s.disk) :
    DeletionStep c s t s' t' :=
  ⟨htask, hmarks, hstripes, .quiet (by rw [hstore]) hdisk⟩

theorem deleteStep_deletes {credential : Option Bytes} {pc : DeletePc}
    (hids : ∀ c record, s.channel c = some record → record.id = c) (he : e.deletes = true)
    (ht : (Task.delete c credential pc).Deletes)
    (h : deleteStep E i c credential pc e s = some (s', t')) :
    DeletionStep c s (.delete c credential pc) s' t' := by
  cases pc with
  | authorize =>
    cases e with
    | run now =>
      simp only [deleteStep] at h
      split at h <;> cases h
      · exact .quiet trivial (fun _ hd => by cases hd) rfl rfl rfl
      · exact .quiet trivial (fun _ hd => by cases hd) rfl rfl rfl
    | _ => cases h <;> cases he
  | gate =>
    cases e with
    | run now => cases h; exact .quiet trivial (fun _ hd => by cases hd) rfl rfl rfl
    | _ => cases h
  | lock g =>
    cases e with
    | run now =>
      obtain ⟨l, hlock, hl⟩ := Option.map_eq_some_iff.mp h
      obtain ⟨m, -, rfl⟩ := Option.map_eq_some_iff.mp hlock
      cases hl
      exact .quiet trivial (fun _ hd => by cases hd) rfl rfl rfl
    | _ => cases h
  | recheck g =>
    cases e with
    | run now =>
      simp only [deleteStep] at h
      split at h <;> cases h
      · rename_i record hrecord
        have hchannel : s.channel c = some record := (authorize_eq_some hrecord).1
        exact .quiet (hids c record hchannel) (fun _ hd => by cases hd) rfl rfl rfl
      · exact .quiet trivial (fun _ hd => by cases hd) rfl rfl rfl
    | _ => cases h <;> cases he
  | store g record =>
    cases e with
    | run now =>
      cases h
      have hmarked : Task.marks (.delete c credential (.store g record)) = none := rfl
      refine ⟨trivial, fun d hd => ?_, rfl, ?_⟩
      · rw [hmarked] at hd
        cases hd
      · exact .mark { record with state := .deleting } ht rfl rfl rfl
    | _ => cases h <;> cases he
  | resumeRead => exact ht.elim
  | exclusiveGate =>
    cases e with
    | run now => cases h; exact .quiet trivial (fun _ hd => hd) rfl rfl rfl
    | _ => cases h
  | exclusiveLock g =>
    cases e with
    | run now =>
      obtain ⟨l, hlock, hl⟩ := Option.map_eq_some_iff.mp h
      obtain ⟨m, -, rfl⟩ := Option.map_eq_some_iff.mp hlock
      cases hl
      exact .quiet trivial (fun _ hd => hd) rfl rfl rfl
    | _ => cases h
  | deleteData g =>
    cases e with
    | run now =>
      cases h
      exact ⟨trivial, fun _ hd => hd, rfl, .drain rfl (Shared.commit_current ..) rfl⟩
    | _ => cases h <;> cases he
  | removeDir g =>
    cases e with
    | run now =>
      simp only [deleteStep] at h
      split at h <;> cases h
      exact .quiet trivial (fun _ hd => hd) rfl rfl rfl
    | remove p =>
      simp only [deleteStep] at h
      split at h <;> cases h
      rename_i hp
      exact ⟨trivial, fun _ hd => hd, rfl, .sweep p (channelDir_prefix_of_removable hp) rfl rfl rfl⟩
    | _ => cases h <;> cases he
  | finish g =>
    cases e with
    | run now =>
      cases h
      exact ⟨trivial, fun _ hd => hd, rfl, .finish rfl (Shared.commit_current ..) rfl⟩
    | _ => cases h <;> cases he
  | forget g =>
    cases e with
    | run now => cases h; exact .quiet trivial (fun _ hd => hd) rfl rfl rfl
    | _ => cases h

/-- A deleting thread takes a step. -/
theorem deletion_step (hids : ∀ c record, s.channel c = some record → record.id = c)
    (he : e.deletes = true) (ht : t.Deletes) (h : Task.step E i e s t = some (s', t')) :
    ∃ c, DeletionStep c s t s' t' := by
  cases t with
  | idle =>
    cases e with
    | start op =>
      cases op with
      | delete c credential =>
        simp only [Task.step, startTask] at h
        split at h <;> cases h
        · exact ⟨c, .quiet trivial (fun _ hd => by cases hd) rfl rfl rfl⟩
        · exact ⟨c, .quiet trivial (fun _ hd => by cases hd) rfl rfl rfl⟩
      | _ => cases he
    | _ => cases h
  | delete c credential pc => exact ⟨c, deleteStep_deletes hids he ht h⟩
  | done o => cases h
  | _ => exact ht.elim

namespace DeletionMove

omit [DecidableEq ι]

/-- Channels that the step does not leave marked keep their data. -/
theorem sameChannel (h : DeletionMove c s s' t') (hd : t'.marks ≠ some d) :
    SameChannel d s'.store.current s.store.current := by
  cases h with
  | quiet hstore _ => rw [hstore]; exact .refl d _
  | mark record hid hmarks hstore _ =>
    rw [hstore]
    exact .storeChannel_other _ fun heq => hd (by rw [hmarks, ← hid, heq])
  | drain hmarks hstore _ =>
    rw [hstore]
    exact .deleteChannelData_other _ fun heq => hd (by rw [hmarks, heq])
  | sweep p hp hmarks hstore _ => rw [hstore]; exact .refl d _
  | finish hmarks hstore _ =>
    rw [hstore]
    exact .finishChannelDeletion_other _ fun heq => hd (by rw [hmarks, heq])

theorem sameFiles (h : DeletionMove c s s' t') (hd : t'.marks ≠ some d) :
    SameFiles d s'.disk s.disk := by
  cases h with
  | sweep p hp hmarks _ hdisk =>
    rw [hdisk]
    exact .unlink_left (not_isPrefix_channelDir (fun heq => hd (by rw [hmarks, heq])) hp)
  | quiet _ hdisk | mark _ _ _ _ hdisk | drain _ _ hdisk | finish _ _ hdisk =>
    rw [hdisk]
    exact .refl _ _

theorem keyed (h : DeletionMove c s s' t') (hkeyed : s.store.current.Keyed) :
    s'.store.current.Keyed := by
  cases h with
  | quiet hstore _ | sweep _ _ _ hstore _ => rw [hstore]; exact hkeyed
  | mark record _ _ hstore _ => rw [hstore]; exact hkeyed.storeChannel record
  | drain _ hstore _ => rw [hstore]; exact hkeyed
  | finish _ hstore _ => rw [hstore]; exact hkeyed.finishChannelDeletion c

theorem rowKeys (h : DeletionMove c s s' t')
    (hkeys : RocksMetadata.RowKeys s.store.current.eviction) :
    RocksMetadata.RowKeys s'.store.current.eviction := by
  cases h with
  | quiet hstore _ | mark _ _ _ hstore _ | sweep _ _ _ hstore _ | finish _ hstore _ =>
    rw [hstore]
    exact hkeys
  | drain _ hstore _ =>
    rw [hstore]
    exact hkeys.deleteRange _ _

end DeletionMove

end Deletions

/-! ## The handling of a candidate -/

/-- The actions of a requeue, and those of an eviction. -/
def MaintainPc.Fits (decided : Decision) : MaintainPc → Prop
  | .stripe => True
  | .requeueRead | .requeueWrite _ => decided ≠ .evict
  | _ => decided = .evict

/-- What the candidate's handling has read so far. -/
def MaintainPc.Read (store : RocksMetadata) (c : ChannelId) (candidate : Candidate) :
    MaintainPc → Prop
  | .requeueWrite m => store.artifact c candidate.artifact = some m
  | .evictWrite found => found = store.artifact c candidate.artifact
  | _ => True

/-- A bound for the actions that are left of the handling. -/
def MaintainPc.weight : MaintainPc → Nat
  | .stripe => 8
  | .requeueRead => 2
  | .requeueWrite _ => 1
  | .preRead => 4
  | .unlink => 3
  | .evictRead => 2
  | .evictWrite _ => 1

theorem MaintainPc.weight_pos (pc : MaintainPc) : 0 < pc.weight := by
  cases pc <;> exact Nat.succ_pos _

namespace Maintenance

/-! ## The pass, action by action -/

/-- The channel whose turn it is, its expiry, and the channels behind it. -/
structure Visit where
  channel : ChannelId
  expirySeconds : UInt64
  rest : List ChannelId
  deriving DecidableEq

inductive PassPc where
  | list
  | channels (rest : List ChannelId)
  | expiry (c : ChannelId) (rest : List ChannelId)
  | candidates (v : Visit)
  | row (v : Visit) (rows : List Candidate)
  /-- The part that holds the stripe. -/
  | maintain (v : Visit) (rows : List Candidate) (candidate : Candidate) (pc : MaintainPc)
  | done (result : Except CacheError Nat)
  deriving DecidableEq

structure PassState where
  pc : PassPc
  /-- The channels that the pass has listed, as the store has them. -/
  listed : List ChannelId
  locals : Locals
  log : List Processed

variable {ι : Type} [DecidableEq ι] (E : Env ι) (j : ι) (mode : SpaceLedger.Mode) (tick : Tick)
  (cursor : UInt64)

/-- A recently used candidate is requeued in Normal mode. -/
def decision (c : ChannelId) (expirySeconds : UInt64) (candidate : Candidate) : Decision :=
  if mode = .normal ∧ tick.seen c candidate.artifact then
    .requeue (saturatingAdd tick.now expirySeconds)
  else .evict

/-- What the last action under the stripe makes of the candidate. -/
def handledAt (s : Shared ι) (c : ChannelId) (candidate : Candidate) : Decision → MaintainPc → Handled
  | .requeue deadline, _ => .requeued deadline
  | .evict, .evictWrite found =>
    .evicted (s.store.current.evictBatch c candidate.artifact found candidate.eligibleAt).2
  | .evict, _ => .evicted .stale

def PassState.process (x : PassState) (v : Visit) (rows : List Candidate) (p : Processed) :
    PassState :=
  ⟨.row v rows, x.listed, x.locals.after p.handled, x.log ++ [p]⟩

/-- The listed channels in turn: the cursor says which one is first. -/
def turns (cursor : UInt64) (listed : List ChannelId) : List ChannelId :=
  listed.rotate (cursor.toNat % listed.length)

/-- One action of the pass of thread `j`. -/
def passStep (s : Shared ι) (x : PassState) : Option (Shared ι × PassState) :=
  match x.pc with
  | .list =>
    let listed := activeChannels s.store.current
    some (s, { x with pc := .channels (turns cursor listed), listed })
  | .channels [] => some (s, { x with pc := .done (.ok x.locals.reclaimed) })
  | .channels (c :: rest) =>
    if x.locals.budget.Exhausted then some (s, { x with pc := .done (.ok x.locals.reclaimed) })
    else some (s, { x with pc := .expiry c rest })
  | .expiry c rest =>
    match (s.channel c).filter (·.state == .active) with
    | some record => some (s, { x with pc := .candidates ⟨c, record.expirySeconds, rest⟩ })
    | none => some (s, { x with pc := .done (.error .missingChannel) })
  | .candidates v =>
    match s.store.current.reclaimCandidates v.channel x.locals.budget.candidates with
    | .ok rows => some (s, { x with pc := .row v rows })
    | .error message => some (s, { x with pc := .done (.error (.metadata message)) })
  | .row v [] => some (s, { x with pc := .channels v.rest })
  | .row v (candidate :: rows) =>
    if x.locals.budget.Exhausted then some (s, { x with pc := .done (.ok x.locals.reclaimed) })
    else if mode = .normal ∧ ¬ candidate.eligibleAt ≤ tick.now then
      some (s, { x with pc := .channels v.rest })
    else some (s, { x with pc := .maintain v rows candidate .stripe })
  | .maintain v rows candidate pc =>
    let decided := decision mode tick v.channel v.expirySeconds candidate
    match maintainStep E j v.channel candidate decided pc (.run tick.now) s with
    | some (s', .maintain _ _ _ pc') => some (s', { x with pc := .maintain v rows candidate pc' })
    | some (s', _) =>
      some (s', x.process v rows ⟨v.channel, candidate, handledAt s v.channel candidate decided pc⟩)
    | none => none
  | .done _ => none

/-! ## The machine -/

structure Interleaved (ι : Type) where
  shard : Shard ι
  pass : PassState

inductive Actor (ι : Type) where
  | pass
  | deletion (i : ι) (e : Event)

def Interleaved.act (x : Interleaved ι) : Actor ι → Option (Interleaved ι)
  | .pass => (passStep E j mode tick cursor x.shard.shared x.pass).map fun r =>
      ⟨⟨r.1, x.shard.task⟩, r.2⟩
  | .deletion i e =>
    if i ≠ j ∧ e.deletes = true then (x.shard.fire E i e).map fun p => ⟨p, x.pass⟩ else none

/-- Before the pass and the deletions. -/
structure Interleaved.Starts (start : State) (budget : Budget) (x : Interleaved ι) : Prop where
  store : x.shard.shared.store.current = start.store
  disk : x.shard.shared.disk = start.disk
  stripes : x.shard.shared.stripes = Mutexes.free
  tasks : ∀ i, x.shard.task i = .idle
  pass : x.pass = ⟨.list, [], ⟨budget, 0⟩, []⟩

def interleaved (start : State) (budget : Budget) : System (Interleaved ι) (Actor ι) where
  init := Interleaved.Starts start budget
  step x a y := x.act E j mode tick start.cursor a = some y

/-! ## What the deletions spare -/

/-- A channel that one of the deletions has marked. -/
def Interleaved.Deleted (x : Interleaved ι) (c : ChannelId) : Prop :=
  ∃ i, (x.shard.task i).marks = some c

/-- The rows of a channel that nobody deletes are processed with the budget that the channels before
it have left; of a deleted one any rows may be. -/
inductive Visits (s₀ : RocksMetadata) (deleted : ChannelId → Prop) (budget : Budget) :
    List ChannelId → List Processed → Prop
  | nil : Visits s₀ deleted budget [] []
  | snoc {earlier : List ChannelId} {processed rows : List Processed} {c : ChannelId}
    (hearlier : Visits s₀ deleted budget earlier processed) (hchannel : ∀ p ∈ rows, p.channel = c)
    (hrows : ¬ deleted c →
      rows = handledRows mode tick s₀ c (budget.spend processed) (s₀.queue c)) :
    Visits s₀ deleted budget (earlier ++ [c]) (processed ++ rows)

open Classical in
/-- The channels of a list that nobody deletes. -/
noncomputable def others (deleted : ChannelId → Prop) (channels : List ChannelId) :
    List ChannelId :=
  channels.filter fun c => decide (¬ deleted c)

/-- The channels that nobody deletes are listed if they are active. -/
structure Listed (s₀ : RocksMetadata) (deleted : ChannelId → Prop) (listed : List ChannelId) :
    Prop where
  nodup : listed.Nodup
  others : others deleted listed = others deleted (activeChannels s₀)

section Visits

variable {mode tick} {s₀ : RocksMetadata} {deleted deleted' : ChannelId → Prop} {budget : Budget}
  {channels : List ChannelId} {processed : List Processed}

theorem Visits.mono (hmono : ∀ c, deleted c → deleted' c)
    (h : Visits mode tick s₀ deleted budget channels processed) :
    Visits mode tick s₀ deleted' budget channels processed := by
  induction h with
  | nil => exact .nil
  | snoc _ hchannel hrows ih => exact .snoc ih hchannel fun hc => hrows fun h => hc (hmono _ h)

/-- Once the budget is spent, the channels that are left get nothing. -/
theorem Visits.exhausted (h : Visits mode tick s₀ deleted budget channels processed)
    (hexhausted : (budget.spend processed).Exhausted) (rest : List ChannelId) :
    Visits mode tick s₀ deleted budget (channels ++ rest) processed := by
  induction rest generalizing channels with
  | nil => rwa [List.append_nil]
  | cons c rest ih =>
    have hnone : Visits mode tick s₀ deleted budget (channels ++ [c]) (processed ++ []) :=
      .snoc h (fun p hp => by cases hp) fun _ => (handledRows_exhausted hexhausted _).symm
    rw [List.append_nil] at hnone
    rw [List.append_cons]
    exact ih hnone

/-- The rows are those of the channels. -/
theorem Visits.channel_mem (h : Visits mode tick s₀ deleted budget channels processed)
    {p : Processed} (hp : p ∈ processed) : p.channel ∈ channels := by
  induction h with
  | nil => cases hp
  | snoc _ hchannel _ ih =>
    rcases List.mem_append.mp hp with hp | hp
    · exact List.mem_append_left _ (ih hp)
    · rw [hchannel p hp]
      exact List.mem_append_right _ (List.mem_singleton.mpr rfl)

theorem handledChannels_snoc (budget : Budget) (channels : List ChannelId) (c : ChannelId) :
    handledChannels mode tick s₀ budget (channels ++ [c]) =
      handledChannels mode tick s₀ budget channels ++ handledRows mode tick s₀ c
        (budget.spend (handledChannels mode tick s₀ budget channels)) (s₀.queue c) := by
  induction channels generalizing budget with
  | nil =>
    show handledRows mode tick s₀ c budget (s₀.queue c) ++ [] = _
    rw [List.append_nil]
    rfl
  | cons d channels ih =>
    rw [List.cons_append, handledChannels, handledChannels, ih, List.append_assoc]
    simp only [Budget.spend, List.foldl_append]

/-- If nothing is deleted, these are the rows of a pass of its own. -/
theorem Visits.eq_handledChannels
    (h : Visits mode tick s₀ (fun _ => False) budget channels processed) :
    processed = handledChannels mode tick s₀ budget channels := by
  induction h with
  | nil => rfl
  | snoc _ _ hrows ih => rw [handledChannels_snoc, hrows id, ← ih]

theorem mem_others {c : ChannelId} : c ∈ others deleted channels ↔ c ∈ channels ∧ ¬ deleted c := by
  simp [others]

theorem others_append (channels channels' : List ChannelId) :
    others deleted (channels ++ channels') = others deleted channels ++ others deleted channels' :=
  List.filter_append ..

theorem others_others (hmono : ∀ c, deleted c → deleted' c) (channels : List ChannelId) :
    others deleted' (others deleted channels) = others deleted' channels := by
  rw [others, others, others, List.filter_filter]
  refine List.filter_congr fun c _ => ?_
  by_cases hc : deleted' c
  · simp [hc]
  · simp [hc, mt (hmono c) hc]

theorem Listed.mono {listed : List ChannelId} (hmono : ∀ c, deleted c → deleted' c)
    (h : Listed s₀ deleted listed) : Listed s₀ deleted' listed := by
  refine ⟨h.nodup, ?_⟩
  rw [← others_others hmono listed, h.others, others_others hmono]

/-! ### Turns -/

/-- Of the channels that the cursor passes over, as many are spared as it would pass over if only
the spared ones were listed. -/
def InTurn (cursor : UInt64) (deleted : ChannelId → Prop) (listed : List ChannelId) : Prop :=
  others deleted listed ≠ [] →
    (others deleted (listed.take (cursor.toNat % listed.length))).length %
      (others deleted listed).length = cursor.toNat % (others deleted listed).length

/-- The first of the others in turn is the one behind those that the cursor passes over. -/
theorem others_turns (cursor : UInt64) (listed : List ChannelId) :
    others deleted (turns cursor listed) = (others deleted listed).rotate
      (others deleted (listed.take (cursor.toNat % listed.length))).length := by
  cases listed with
  | nil => simp [turns, others]
  | cons c rest =>
    have hle : cursor.toNat % (c :: rest).length ≤ (c :: rest).length :=
      (Nat.mod_lt _ (Nat.succ_pos _)).le
    have hlisted := @others_append deleted
      ((c :: rest).take (cursor.toNat % (c :: rest).length))
      ((c :: rest).drop (cursor.toNat % (c :: rest).length))
    rw [List.take_append_drop] at hlisted
    rw [turns, List.rotate_eq_drop_append_take hle, others_append, hlisted,
      List.rotate_append_length_eq]

/-- The others keep the turns that a list without the deleted would give them exactly if the cursor
passes over as many of them. -/
theorem others_turns_iff {cursor : UInt64} {listed : List ChannelId} (hnodup : listed.Nodup) :
    others deleted (turns cursor listed) = turns cursor (others deleted listed) ↔
      InTurn cursor deleted listed := by
  have hothers : (others deleted listed).Nodup := hnodup.filter _
  rw [others_turns, turns, hothers.rotate_congr_iff, Nat.mod_mod, InTurn]
  constructor
  · rintro (hmod | hnil) hne
    · exact hmod
    · exact absurd hnil hne
  · intro hturn
    by_cases hnil : others deleted listed = []
    · exact .inr hnil
    · exact .inl (hturn hnil)

end Visits

/-! ## Where a pass is -/

/-- The stripe that the pass holds. -/
def PassPc.stripe : PassPc → Option Nat
  | .maintain v _ candidate pc => (Task.maintain v.channel candidate .evict pc).stripe E
  | _ => none

/-- The body of the candidate may be unlinked before the log says so. -/
def PassPc.pending (disk : FsDisk) : PassPc → FsDisk
  | .maintain v _ candidate .evictRead | .maintain v _ candidate (.evictWrite _) =>
    disk.unlink (path v.channel candidate.artifact)
  | _ => disk

/-- A bound for the actions that are left of the pass, once it has listed the channels. -/
def PassState.remaining (x : PassState) : WithTop Nat :=
  match x.pc with
  | .list => ⊤
  | .channels rest => WithTop.some (9 * x.locals.budget.candidates + 4 * rest.length + 1)
  | .expiry _ rest => WithTop.some (9 * x.locals.budget.candidates + 4 * rest.length + 4)
  | .candidates v => WithTop.some (9 * x.locals.budget.candidates + 4 * v.rest.length + 3)
  | .row v _ => WithTop.some (9 * x.locals.budget.candidates + 4 * v.rest.length + 2)
  | .maintain v _ _ pc =>
    WithTop.some (9 * (x.locals.budget.candidates - 1) + 4 * v.rest.length + 2 + pc.weight)
  | .done _ => WithTop.some 0

variable (start : State) (deleted : ChannelId → Prop) (budget : Budget) (log : List Processed)
  (order : List ChannelId)

/-- Nobody deletes the channel of the visit, and its rows up to `rows` are processed. -/
structure Undisturbed (before own : List Processed) (v : Visit) (rows : List Candidate) : Prop where
  expiry : v.expirySeconds = (start.store.channel v.channel).elim 0 (·.expirySeconds)
  fresh : Fresh (start.after (before ++ own)) start.store v.channel rows
  rows : handledRows mode tick start.store v.channel (budget.spend before)
      (start.store.queue v.channel) =
    own ++ handledRows mode tick start.store v.channel (budget.spend (before ++ own)) rows

/-- The pass is done with the channels in front of `c`. -/
def BeforeChannel (c : ChannelId) (rest : List ChannelId) : Prop :=
  ∃ earlier, order = earlier ++ c :: rest ∧
    Visits mode tick start.store deleted budget earlier log

/-- The pass is among the rows of a channel. -/
def InChannel (v : Visit) (rows : List Candidate) : Prop :=
  ∃ earlier before own, order = earlier ++ v.channel :: v.rest ∧
    log = before ++ own ∧ Visits mode tick start.store deleted budget earlier before ∧
    (∀ p ∈ own, p.channel = v.channel) ∧
    (¬ deleted v.channel → Undisturbed mode tick start budget before own v rows)

/-- What holds of the pass between two of its actions. -/
def PassPc.Ok : PassPc → Prop
  | .list => log = []
  | .channels rest =>
    ∃ earlier, order = earlier ++ rest ∧
      Visits mode tick start.store deleted budget earlier log
  | .expiry c rest => BeforeChannel mode tick start deleted budget log order c rest
  | .candidates v =>
    BeforeChannel mode tick start deleted budget log order v.channel v.rest ∧
      (¬ deleted v.channel →
        v.expirySeconds = (start.store.channel v.channel).elim 0 (·.expirySeconds))
  | .row v rows => InChannel mode tick start deleted budget log order v rows
  | .maintain v rows candidate pc =>
    InChannel mode tick start deleted budget log order v (candidate :: rows) ∧
      ¬ (budget.spend log).Exhausted ∧ ¬ (mode = .normal ∧ ¬ candidate.eligibleAt ≤ tick.now) ∧
      pc.Fits (decision mode tick v.channel v.expirySeconds candidate) ∧
      (¬ deleted v.channel → pc.Read (applyAll log start.store) v.channel candidate)
  | .done result =>
    result = .ok (removals log) ∧ Visits mode tick start.store deleted budget order log

section Ok

variable {mode tick start deleted budget log order} {deleted' : ChannelId → Prop} {c : ChannelId}
  {rest : List ChannelId} {v : Visit} {rows : List Candidate} {candidate : Candidate}

theorem BeforeChannel.mono (hmono : ∀ c, deleted c → deleted' c)
    (h : BeforeChannel mode tick start deleted budget log order c rest) :
    BeforeChannel mode tick start deleted' budget log order c rest := by
  obtain ⟨earlier, hlisted, hvisits⟩ := h
  exact ⟨earlier, hlisted, hvisits.mono hmono⟩

theorem InChannel.mono (hmono : ∀ c, deleted c → deleted' c)
    (h : InChannel mode tick start deleted budget log order v rows) :
    InChannel mode tick start deleted' budget log order v rows := by
  obtain ⟨earlier, before, own, hlisted, hlog, hvisits, hown, hrows⟩ := h
  exact ⟨earlier, before, own, hlisted, hlog, hvisits.mono hmono, hown,
    fun hc => hrows fun hdeleted => hc (hmono _ hdeleted)⟩

/-- Deletions never take back what holds of the pass. -/
theorem PassPc.Ok.mono (hmono : ∀ c, deleted c → deleted' c) {pc : PassPc}
    (h : pc.Ok mode tick start deleted budget log order) :
    pc.Ok mode tick start deleted' budget log order := by
  cases pc with
  | list => exact h
  | channels rest =>
    obtain ⟨earlier, hlisted, hvisits⟩ := h
    exact ⟨earlier, hlisted, hvisits.mono hmono⟩
  | expiry c rest => exact BeforeChannel.mono hmono h
  | candidates v => exact ⟨h.1.mono hmono, fun hc => h.2 fun hdeleted => hc (hmono _ hdeleted)⟩
  | row v rows => exact InChannel.mono hmono h
  | maintain v rows candidate pc =>
    obtain ⟨hin, hleft, hdue, hfits, hread⟩ := h
    exact ⟨hin.mono hmono, hleft, hdue, hfits, fun hc => hread fun hdeleted => hc (hmono _ hdeleted)⟩
  | done result =>
    exact ⟨h.1, h.2.mono hmono⟩

/-- The channel has no row in the log yet. -/
theorem BeforeChannel.not_mem (hnodup : order.Nodup)
    (h : BeforeChannel mode tick start deleted budget log order c rest) :
    ∀ p ∈ log, p.channel ≠ c := by
  obtain ⟨earlier, rfl, hvisits⟩ := h
  intro p hp heq
  have hmem := hvisits.channel_mem hp
  rw [heq] at hmem
  exact (List.nodup_append.mp hnodup).2.2 c hmem c List.mem_cons_self rfl

/-- The first rows of the queue, as the pass reads them. -/
theorem BeforeChannel.enter
    (hsound : Sound start.store start.disk) (hnodup : order.Nodup)
    (h : BeforeChannel mode tick start deleted budget log order v.channel v.rest)
    (hrows : ¬ deleted v.channel →
      v.expirySeconds = (start.store.channel v.channel).elim 0 (·.expirySeconds) ∧
      rows = (start.store.queue v.channel).take (budget.spend log).candidates) :
    InChannel mode tick start deleted budget log order v rows := by
  have hnone := h.not_mem hnodup
  obtain ⟨earlier, hlisted, hvisits⟩ := h
  refine ⟨earlier, log, [], hlisted, (List.append_nil log).symm, hvisits, nofun, fun hc => ?_⟩
  obtain ⟨hexpiry, rfl⟩ := hrows hc
  have hsame : SameChannel v.channel (start.after log).store start.store := sameChannel_applyAll hnone
  have hfresh := fresh_queue hsound.queue hsound.rows hsame (hsound.bodies.applyAllDisk log)
  constructor
  · exact hexpiry
  · rw [List.append_nil]
    exact hfresh.take _
  · rw [List.append_nil, List.nil_append, handledRows_take]

/-- The candidate's record is there, as the pass found it. -/
theorem InChannel.live
    (h : InChannel mode tick start deleted budget log order v (candidate :: rows))
    (hc : ¬ deleted v.channel) :
    ∃ m, Live (start.after log) v.channel candidate m ∧
      start.store.artifact v.channel candidate.artifact = some m := by
  obtain ⟨earlier, before, own, -, rfl, -, -, hrows⟩ := h
  exact (hrows hc).fresh.live candidate List.mem_cons_self

theorem InChannel.expiry (h : InChannel mode tick start deleted budget log order v rows)
    (hc : ¬ deleted v.channel) :
    v.expirySeconds = (start.store.channel v.channel).elim 0 (·.expirySeconds) := by
  obtain ⟨earlier, before, own, -, -, -, -, hrows⟩ := h
  exact (hrows hc).expiry

/-- The next row is processed. -/
theorem InChannel.process (h : InChannel mode tick start deleted budget log order v (candidate :: rows))
    (hleft : ¬ (budget.spend log).Exhausted)
    (hdue : ¬ (mode = .normal ∧ ¬ candidate.eligibleAt ≤ tick.now)) {handled : Handled}
    (hhandled : ¬ deleted v.channel → handled = fate mode tick start.store v.channel candidate) :
    InChannel mode tick start deleted budget (log ++ [⟨v.channel, candidate, handled⟩]) order v rows := by
  obtain ⟨earlier, before, own, hlisted, rfl, hvisits, hown, hrows⟩ := h
  refine ⟨earlier, before, own ++ [⟨v.channel, candidate, handled⟩], hlisted,
    List.append_assoc .., hvisits, ?_, fun hc => ?_⟩
  · intro p hp
    rcases List.mem_append.mp hp with hp | hp
    · exact hown p hp
    · rw [List.mem_singleton.mp hp]
  · obtain rfl := hhandled hc
    have hundisturbed := hrows hc
    have htail := hundisturbed.fresh.tail
      (p := ⟨v.channel, candidate, fate mode tick start.store v.channel candidate⟩) rfl
    rw [← State.after_append, List.append_assoc] at htail
    refine ⟨hundisturbed.expiry, htail, ?_⟩
    rw [hundisturbed.rows, handledRows_cons, if_neg hleft, if_neg hdue, List.append_assoc,
      List.singleton_append]
    simp only [Budget.spend, List.foldl_append, List.foldl_cons, List.foldl_nil]

/-- The pass is done with a channel when no row is left that would be processed. -/
theorem InChannel.leave (h : InChannel mode tick start deleted budget log order v rows)
    (hnone : handledRows mode tick start.store v.channel (budget.spend log) rows = []) :
    ∃ earlier, order = earlier ++ v.rest ∧
      Visits mode tick start.store deleted budget earlier log := by
  obtain ⟨earlier, before, own, hlisted, rfl, hvisits, hown, hrows⟩ := h
  refine ⟨earlier ++ [v.channel], ?_, .snoc hvisits hown fun hc => ?_⟩
  · rw [hlisted, ← List.append_cons]
  · have hdone := (hrows hc).rows
    rw [hnone, List.append_nil] at hdone
    exact hdone.symm

end Ok

/-! ## The invariant -/

/-- The shard agrees with the log of the pass on every channel that nobody deletes. -/
structure Spared (x : Interleaved ι) : Prop where
  tasks : ∀ i, (x.shard.task i).Deletes
  keyed : x.shard.shared.store.current.Keyed
  keys : RocksMetadata.RowKeys x.shard.shared.store.current.eviction
  stripes : ∀ k, x.pass.pc.stripe E ≠ some k → x.shard.shared.stripes k = none
  rows : ∀ c, ¬ x.Deleted c →
    SameChannel c x.shard.shared.store.current (applyAll x.pass.log start.store)
  files : ∀ c, ¬ x.Deleted c →
    SameFiles c x.shard.shared.disk (x.pass.pc.pending (applyAllDisk x.pass.log start.disk))
  left : x.pass.locals.budget = budget.spend x.pass.log
  reclaimed : x.pass.locals.reclaimed = removals x.pass.log
  listed : x.pass.pc ≠ .list → Listed start.store x.Deleted x.pass.listed
  pc : x.pass.pc.Ok mode tick start x.Deleted budget x.pass.log (turns start.cursor x.pass.listed)

section Steps

variable {E j mode tick start budget} {x y : Interleaved ι}

omit [DecidableEq ι] in
theorem id_of_keyed {s : Shared ι} (h : s.store.current.Keyed) (c : ChannelId)
    (record : ChannelRecord) (hrecord : s.channel c = some record) : record.id = c :=
  ChannelId.asKey_inj (h c.asKey record hrecord).symm

omit [DecidableEq ι] in
theorem Spared.init (hsound : Sound start.store start.disk) (h : Interleaved.Starts start budget x) :
    Spared E mode tick start budget x := by
  have hlog : x.pass.log = [] := by rw [h.pass]
  have hpc : x.pass.pc = .list := by rw [h.pass]
  have hlocals : x.pass.locals = ⟨budget, 0⟩ := by rw [h.pass]
  constructor
  case tasks => exact fun i => by rw [h.tasks i]; trivial
  case keyed => rw [h.store]; exact hsound.registry
  case keys => rw [h.store]; exact hsound.rows
  case stripes => exact fun k _ => by rw [h.stripes]; rfl
  case rows => exact fun c _ => by rw [h.store, hlog]; exact .refl c _
  case files => exact fun c _ => by rw [h.disk, hlog, hpc]; exact .refl _ _
  case left => rw [hlog, hlocals]; rfl
  case reclaimed => rw [hlog, hlocals]; rfl
  case listed => exact fun hne => absurd hpc hne
  case pc => rw [hpc]; exact hlog

/-- A deletion takes a step. -/
theorem Spared.deletion (h : Spared E mode tick start budget x) {i : ι} {e : Event}
    (hstep : x.act E j mode tick start.cursor (.deletion i e) = some y) :
    Spared E mode tick start budget y := by
  simp only [Interleaved.act] at hstep
  split at hstep
  · rename_i hdeletes
    obtain ⟨p, hfire, rfl⟩ := Option.map_eq_some_iff.mp hstep
    obtain ⟨htask, hothers⟩ := Shard.fire_eq_some hfire
    obtain ⟨c, hmove⟩ := deletion_step (id_of_keyed h.keyed) hdeletes.2 (h.tasks i) htask
    have hmono : ∀ d, x.Deleted d → Interleaved.Deleted ⟨p, x.pass⟩ d := by
      rintro d ⟨k, hk⟩
      by_cases hki : k = i
      · subst hki
        exact ⟨k, hmove.marks d hk⟩
      · exact ⟨k, by rw [hothers k hki]; exact hk⟩
    have hunmarked : ∀ d, ¬ Interleaved.Deleted ⟨p, x.pass⟩ d → (p.task i).marks ≠ some d :=
      fun d hd hmarks => hd ⟨i, hmarks⟩
    constructor
    case tasks =>
      intro k
      by_cases hki : k = i
      · subst hki
        exact hmove.task
      · rw [hothers k hki]
        exact h.tasks k
    case keyed => exact hmove.move.keyed h.keyed
    case keys => exact hmove.move.rowKeys h.keys
    case stripes =>
      intro k hk
      rw [hmove.stripes]
      exact h.stripes k hk
    case rows =>
      intro d hd
      exact (hmove.move.sameChannel (hunmarked d hd)).trans (h.rows d fun hx => hd (hmono d hx))
    case files =>
      intro d hd
      exact (hmove.move.sameFiles (hunmarked d hd)).trans (h.files d fun hx => hd (hmono d hx))
    case left => exact h.left
    case reclaimed => exact h.reclaimed
    case listed => exact fun hne => (h.listed hne).mono hmono
    case pc => exact h.pc.mono hmono
  · cases hstep

/-! ### The pass -/

omit [DecidableEq ι] in
/-- The pass goes on without touching anything. -/
theorem Spared.goto (h : Spared E mode tick start budget x) {pc₀ pc : PassPc}
    (hpc : x.pass.pc = pc₀) (hstripe : pc₀.stripe E = none)
    (hpending : ∀ disk, pc₀.pending disk = disk) (hpending' : ∀ disk, pc.pending disk = disk)
    (hlisted : pc₀ ≠ .list)
    (hok : pc.Ok mode tick start x.Deleted budget x.pass.log (turns start.cursor x.pass.listed)) :
    Spared E mode tick start budget ⟨x.shard, { x.pass with pc := pc }⟩ := by
  subst hpc
  refine { h with stripes := ?_, files := ?_, listed := fun _ => h.listed hlisted, pc := hok }
  · intro k _
    exact h.stripes k (by rw [hstripe]; exact nofun)
  · intro c hc
    have hfiles := h.files c hc
    rw [hpending] at hfiles
    show SameFiles c _ (pc.pending _)
    rw [hpending']
    exact hfiles

omit [DecidableEq ι] in
/-- A channel that is read is active, in the starting state as well. -/
theorem Spared.channel (h : Spared E mode tick start budget x) {c : ChannelId}
    (hc : ¬ x.Deleted c) : x.shard.shared.channel c = start.store.channel c := by
  have hfamilies := (applyAll_families x.pass.log start.store).2
  refine (h.rows c hc).channel.trans ?_
  rw [RocksMetadata.channel, RocksMetadata.channel, hfamilies]

omit [DecidableEq ι] in
/-- The pass lists the channels that nobody deletes as the starting state has them. -/
theorem Spared.lists (h : Spared E mode tick start budget x)
    (hsound : Sound start.store start.disk) :
    Listed start.store x.Deleted (activeChannels x.shard.shared.store.current) := by
  refine ⟨nodup_activeChannels h.keyed, ?_⟩
  have hmem : ∀ c, c ∈ others x.Deleted (activeChannels x.shard.shared.store.current) ↔
      c ∈ others x.Deleted (activeChannels start.store) := by
    intro c
    rw [mem_others, mem_others, mem_activeChannels h.keyed, mem_activeChannels hsound.registry]
    refine and_congr_left fun hc => ?_
    rw [← h.channel hc]
    rfl
  have hperm := (List.perm_ext_iff_of_nodup ((nodup_activeChannels h.keyed).filter _)
    ((nodup_activeChannels hsound.registry).filter _)).mpr hmem
  -- both are in the order of their keys
  refine hperm.eq_of_pairwise ?_ ((sorted_activeChannels h.keyed).filter _)
    ((sorted_activeChannels hsound.registry).filter _)
  intro c d _ _ hlt hgt
  have habsurd := Std.TransCmp.lt_trans hlt hgt
  rw [Std.compare_self] at habsurd
  cases habsurd

omit [DecidableEq ι] in
/-- The rows that the pass reads are the first ones of the queue it started from. -/
theorem Spared.reclaimCandidates (h : Spared E mode tick start budget x)
    (hsound : Sound start.store start.disk) {c : ChannelId} (hc : ¬ x.Deleted c)
    (hnone : ∀ p ∈ x.pass.log, p.channel ≠ c) (limit : Nat) :
    x.shard.shared.store.current.reclaimCandidates c limit =
      .ok ((start.store.queue c).take limit) := by
  have hsame := (h.rows c hc).trans (sameChannel_applyAll hnone)
  rw [hsame.reclaimCandidates, RocksMetadata.reclaimCandidates_eq_take hsound.rows]

/-! ### The handling of a candidate -/

section Handling

variable {s s' : Shared ι} {t' : Task} {e : Event} {v : Visit} {rows : List Candidate}
  {candidate : Candidate} {decided : Decision} {pc pc' : MaintainPc} {c : ChannelId}

omit [DecidableEq ι] in
/-- Only the stripe the task is left with may be held. -/
theorem stripes_of_move {m m' : Mutexes ι} {k k' : Option Nat} (h : StripeMove j m k m' k')
    (hothers : ∀ n, k ≠ some n → m n = none) : ∀ n, k' ≠ some n → m' n = none := by
  intro n hn
  cases h with
  | keep => exact hothers n hn
  | @take l m' hlock =>
    obtain ⟨-, -, hsame⟩ := Mutexes.lock_eq_some hlock
    rw [hsame n fun hnl => hn (by rw [hnl])]
    exact hothers n nofun
  | @drop l =>
    by_cases hnl : n = l
    · subst hnl
      exact Mutexes.unlock_self m n
    · rw [Mutexes.unlock_of_ne hnl]
      exact hothers n fun heq => hnl (Option.some.inj heq).symm

theorem maintain_registry
    (h : Task.step E j e s (.maintain c candidate decided pc) = some (s', t')) :
    s'.store.current.channels = s.store.current.channels ∧
      (RocksMetadata.RowKeys s.store.current.eviction →
        RocksMetadata.RowKeys s'.store.current.eviction) := by
  cases (step_move h).store with
  | keep hstore => rw [hstore]; exact ⟨rfl, id⟩
  | @requeue c' candidate' m new ht hstore =>
    rw [hstore, Shared.commit_current]
    exact ⟨rfl, fun hkeys => (hkeys.delete _).put c' new candidate'.artifact⟩
  | @evict c' candidate' decided' found ht hstore =>
    rw [hstore, Shared.commit_current]
    cases found with
    | none => exact ⟨rfl, fun hkeys => hkeys.delete _⟩
    | some m =>
      rw [RocksMetadata.evictBatch]
      split
      · exact ⟨rfl, fun hkeys => hkeys.delete _⟩
      · exact ⟨rfl, fun hkeys => hkeys.delete _⟩
  | publication _ ht _ | heal ht _ | reference _ ht _ | register ht _ | patch ht _ | delete ht _
  | deleteData ht _ | finish ht _ => cases ht

theorem sameFiles_unlink_other (hne : v.channel ≠ c) (disk : FsDisk) :
    SameFiles c (disk.unlink (path v.channel candidate.artifact)) disk :=
  .unlink_left (not_isPrefix_channelDir hne (channelDir_prefix_path.mpr rfl))

theorem sameFiles_pending_other (hne : v.channel ≠ c) (disk : FsDisk) :
    SameFiles c ((PassPc.maintain v rows candidate pc).pending disk) disk := by
  cases pc with
  | evictRead | evictWrite _ => exact sameFiles_unlink_other hne disk
  | _ => exact .refl _ _

theorem sameFiles_applyDisk_other {p : Processed} (hne : p.channel ≠ c) (disk : FsDisk) :
    SameFiles c (p.applyDisk disk) disk := by
  unfold Processed.applyDisk
  split
  · exact .unlink_left (not_isPrefix_channelDir hne (channelDir_prefix_path.mpr rfl))
  · exact .refl _ _

theorem applyAll_snoc (processed : List Processed) (p : Processed) (store : RocksMetadata) :
    applyAll (processed ++ [p]) store = p.apply (applyAll processed store) := by
  simp [applyAll]

theorem applyAllDisk_snoc (processed : List Processed) (p : Processed) (disk : FsDisk) :
    applyAllDisk (processed ++ [p]) disk = p.applyDisk (applyAllDisk processed disk) := by
  simp [applyAllDisk]

theorem removals_snoc (processed : List Processed) (p : Processed) :
    removals (processed ++ [p]) =
      if p.handled.isRemoval then removals processed + 1 else removals processed := by
  rw [removals, removals, List.filter_append, List.length_append]
  cases hp : p.handled.isRemoval <;> simp [hp]

variable (h : Spared E mode tick start budget x) (hpc : x.pass.pc = .maintain v rows candidate pc)

include h hpc

/-- The channels beside the one that the pass is in. -/
theorem Spared.beside
    (hstep : Task.step E j e x.shard.shared (.maintain v.channel candidate decided pc) =
      some (s', t')) (hc : ¬ x.Deleted c) (hne : v.channel ≠ c) :
    SameChannel c s'.store.current (applyAll x.pass.log start.store) ∧
      SameFiles c s'.disk (applyAllDisk x.pass.log start.disk) := by
  obtain ⟨hrows, hfiles⟩ := step_other hstep rfl hne
  have hpending := h.files c hc
  rw [hpc] at hpending
  exact ⟨hrows.trans (h.rows c hc),
    (hfiles.trans hpending).trans (sameFiles_pending_other hne _)⟩

/-- The handling of the candidate takes a step and goes on. -/
theorem Spared.proceed
    (hstep : Task.step E j e x.shard.shared (.maintain v.channel candidate decided pc) =
      some (s', .maintain v.channel candidate decided pc'))
    (hfits : pc'.Fits (decision mode tick v.channel v.expirySeconds candidate))
    (hown : ¬ x.Deleted v.channel →
      SameChannel v.channel s'.store.current (applyAll x.pass.log start.store) ∧
      SameFiles v.channel s'.disk ((PassPc.maintain v rows candidate pc').pending
        (applyAllDisk x.pass.log start.disk)) ∧
      pc'.Read (applyAll x.pass.log start.store) v.channel candidate) :
    Spared E mode tick start budget
      ⟨⟨s', x.shard.task⟩, { x.pass with pc := .maintain v rows candidate pc' }⟩ := by
  obtain ⟨hchannels, hkeys⟩ := maintain_registry hstep
  have hok := h.pc
  rw [hpc] at hok
  obtain ⟨hin, hleft, hdue, -, -⟩ := hok
  constructor
  case tasks => exact h.tasks
  case keyed => exact fun k record hrecord => h.keyed k record (by rw [← hchannels]; exact hrecord)
  case keys => exact hkeys h.keys
  case stripes =>
    have hstripes := h.stripes
    rw [hpc] at hstripes
    exact stripes_of_move (step_move hstep).stripe hstripes
  case rows =>
    intro c hc
    by_cases hne : v.channel = c
    · subst hne
      exact (hown hc).1
    · exact (h.beside hpc hstep hc hne).1
  case files =>
    intro c hc
    by_cases hne : v.channel = c
    · subst hne
      exact (hown hc).2.1
    · exact (h.beside hpc hstep hc hne).2.trans (sameFiles_pending_other hne _).symm
  case left => exact h.left
  case reclaimed => exact h.reclaimed
  case listed => exact fun _ => h.listed (by rw [hpc]; exact nofun)
  case pc => exact ⟨hin, hleft, hdue, hfits, fun hc => (hown hc).2.2⟩

/-- The handling of the candidate takes its last step. -/
theorem Spared.process {o : Outcome} {handled : Handled}
    (hstep : Task.step E j e x.shard.shared (.maintain v.channel candidate decided pc) =
      some (s', .done o))
    (hown : ¬ x.Deleted v.channel →
      SameChannel v.channel s'.store.current
        ((Processed.mk v.channel candidate handled).apply (applyAll x.pass.log start.store)) ∧
      SameFiles v.channel s'.disk
        ((Processed.mk v.channel candidate handled).applyDisk
          (applyAllDisk x.pass.log start.disk)) ∧
      handled = fate mode tick start.store v.channel candidate) :
    Spared E mode tick start budget
      ⟨⟨s', x.shard.task⟩, x.pass.process v rows ⟨v.channel, candidate, handled⟩⟩ := by
  obtain ⟨hchannels, hkeys⟩ := maintain_registry hstep
  have hok := h.pc
  rw [hpc] at hok
  obtain ⟨hin, hleft, hdue, -, -⟩ := hok
  constructor
  case tasks => exact h.tasks
  case keyed => exact fun k record hrecord => h.keyed k record (by rw [← hchannels]; exact hrecord)
  case keys => exact hkeys h.keys
  case stripes =>
    have hstripes := h.stripes
    rw [hpc] at hstripes
    exact stripes_of_move (step_move hstep).stripe hstripes
  case rows =>
    intro c hc
    show SameChannel c _ (applyAll (x.pass.log ++ [_]) _)
    rw [applyAll_snoc]
    by_cases hne : v.channel = c
    · subst hne
      exact (hown hc).1
    · exact (h.beside hpc hstep hc hne).1.trans (Processed.sameChannel_apply hne _).symm
  case files =>
    intro c hc
    show SameFiles c _ (applyAllDisk (x.pass.log ++ [_]) _)
    rw [applyAllDisk_snoc]
    by_cases hne : v.channel = c
    · subst hne
      exact (hown hc).2.1
    · exact (h.beside hpc hstep hc hne).2.trans (sameFiles_applyDisk_other hne _).symm
  case left =>
    show x.pass.locals.budget.after handled = budget.spend (x.pass.log ++ [_])
    rw [h.left]
    simp only [Budget.spend, List.foldl_append, List.foldl_cons, List.foldl_nil]
  case reclaimed =>
    show (if handled.isRemoval then x.pass.locals.reclaimed + 1 else x.pass.locals.reclaimed) =
      removals (x.pass.log ++ [_])
    rw [removals_snoc, h.reclaimed]
  case listed => exact fun _ => h.listed (by rw [hpc]; exact fun heq => by cases heq)
  case pc => exact hin.process hleft hdue fun hc => (hown hc).2.2

omit [DecidableEq ι] in
/-- The record that the candidate was listed for is still there. -/
theorem Spared.live (hc : ¬ x.Deleted v.channel) :
    ∃ m, x.shard.shared.record v.channel candidate.artifact = some m ∧
      m.eligibleAt = candidate.eligibleAt ∧
      (applyAll x.pass.log start.store).artifact v.channel candidate.artifact = some m ∧
      start.store.artifact v.channel candidate.artifact = some m := by
  have hok := h.pc
  rw [hpc] at hok
  obtain ⟨m, hlive, hm⟩ := hok.1.live hc
  exact ⟨m, ((h.rows _ hc).artifact _).trans hlive.record, hlive.deadline, hlive.record, hm⟩

/-- The handling of the candidate goes on. -/
theorem Spared.continues
    (hstep : maintainStep E j v.channel candidate
      (decision mode tick v.channel v.expirySeconds candidate) pc (.run tick.now) x.shard.shared =
        some (s', .maintain v.channel candidate
          (decision mode tick v.channel v.expirySeconds candidate) pc')) :
    Spared E mode tick start budget
      ⟨⟨s', x.shard.task⟩, { x.pass with pc := .maintain v rows candidate pc' }⟩ := by
  have hfrom := maintainStep_to hstep
  have htask : Task.step E j (.run tick.now) x.shard.shared (.maintain v.channel candidate
    (decision mode tick v.channel v.expirySeconds candidate) pc) = some (s', _) := hstep
  have hfiles : ¬ x.Deleted v.channel → SameFiles v.channel x.shard.shared.disk
      ((PassPc.maintain v rows candidate pc).pending (applyAllDisk x.pass.log start.disk)) := by
    intro hc
    rw [← hpc]
    exact h.files _ hc
  cases pc' with
  | stripe => exact hfrom.elim
  | requeueRead =>
    obtain ⟨rfl, hlock, new, hnew⟩ := hfrom
    refine h.proceed hpc htask (by rw [hnew]; exact nofun) fun hc => ?_
    obtain ⟨m, -, rfl⟩ := Option.map_eq_some_iff.mp hlock
    exact ⟨h.rows _ hc, hfiles hc, trivial⟩
  | requeueWrite m =>
    obtain ⟨rfl, rfl, hm, -⟩ := hfrom
    have hok := h.pc
    rw [hpc] at hok
    refine h.proceed hpc htask hok.2.2.2.1 fun hc => ?_
    exact ⟨h.rows _ hc, hfiles hc, ((h.rows _ hc).artifact _).symm.trans hm⟩
  | preRead =>
    obtain ⟨rfl, hlock, hevict⟩ := hfrom
    refine h.proceed hpc htask hevict fun hc => ?_
    obtain ⟨m, -, rfl⟩ := Option.map_eq_some_iff.mp hlock
    exact ⟨h.rows _ hc, hfiles hc, trivial⟩
  | unlink =>
    obtain ⟨rfl, rfl, -⟩ := hfrom
    have hok := h.pc
    rw [hpc] at hok
    refine h.proceed hpc htask hok.2.2.2.1 fun hc => ?_
    exact ⟨h.rows _ hc, hfiles hc, trivial⟩
  | evictRead =>
    have hok := h.pc
    rw [hpc] at hok
    rcases hfrom with ⟨rfl, rfl, hstale⟩ | ⟨rfl, rfl⟩
    · refine h.proceed hpc htask hok.2.2.2.1 fun hc => ?_
      -- only a row of a deleted channel is stale
      obtain ⟨m, hm, hdeadline, -⟩ := h.live hpc hc
      rw [hm, Option.map_some, hdeadline] at hstale
      exact absurd rfl hstale
    · refine h.proceed hpc htask hok.2.2.2.1 fun hc => ?_
      exact ⟨h.rows _ hc, (hfiles hc).unlink _, trivial⟩
  | evictWrite found =>
    obtain ⟨rfl, rfl, hfound⟩ := hfrom
    have hok := h.pc
    rw [hpc] at hok
    refine h.proceed hpc htask hok.2.2.2.1 fun hc => ?_
    exact ⟨h.rows _ hc, hfiles hc, hfound.trans ((h.rows _ hc).artifact _)⟩

/-- The handling of the candidate ends. -/
theorem Spared.handled {o : Outcome}
    (hstep : maintainStep E j v.channel candidate
      (decision mode tick v.channel v.expirySeconds candidate) pc (.run tick.now) x.shard.shared =
        some (s', .done o)) :
    Spared E mode tick start budget
      ⟨⟨s', x.shard.task⟩, x.pass.process v rows ⟨v.channel, candidate,
        handledAt x.shard.shared v.channel candidate
          (decision mode tick v.channel v.expirySeconds candidate) pc⟩⟩ := by
  have hok := h.pc
  rw [hpc] at hok
  obtain ⟨hin, -, -, hfits, hread⟩ := hok
  have htask : Task.step E j (.run tick.now) x.shard.shared (.maintain v.channel candidate
    (decision mode tick v.channel v.expirySeconds candidate) pc) = some (s', _) := hstep
  cases pc with
  | stripe =>
    obtain ⟨m, -, hm⟩ := Option.map_eq_some_iff.mp hstep
    cases hm
  | requeueRead =>
    refine h.process hpc htask fun hc => ?_
    -- the row of a channel that nobody deletes still belongs to the record
    obtain ⟨m, hm, hdeadline, -⟩ := h.live hpc hc
    simp only [maintainStep, hm, hdeadline, ne_eq, not_true_eq_false, if_false] at hstep
    cases hstep
  | requeueWrite m =>
    refine h.process hpc htask fun hc => ?_
    obtain ⟨m', -, hdeadline, hm', -⟩ := h.live hpc hc
    obtain rfl := Option.some.inj (hm'.symm.trans (hread hc))
    have hexpiry := hin.expiry hc
    by_cases hseen : mode = .normal ∧ tick.seen v.channel candidate.artifact = true
    · rw [decision, if_pos hseen] at hstep
      rw [decision, if_pos hseen]
      cases hstep
      refine ⟨?_, ?_, ?_⟩
      · show SameChannel _ _ (RocksMetadata.requeue ..)
        rw [RocksMetadata.requeue, hm']
        dsimp only
        rw [if_neg fun hne => hne hdeadline]
        exact (h.rows _ hc).requeueBatch ..
      · have hfiles := h.files _ hc
        rw [hpc] at hfiles
        exact hfiles
      · rw [fate, if_pos hseen, ← hexpiry]
        rfl
    · rw [decision, if_neg hseen] at hfits
      exact absurd rfl hfits
  | preRead =>
    simp only [maintainStep] at hstep
    split at hstep <;> cases hstep
  | unlink => cases hstep
  | evictRead => cases hstep
  | evictWrite found =>
    refine h.process hpc htask fun hc => ?_
    obtain ⟨m, -, hdeadline, hm, hm₀⟩ := h.live hpc hc
    obtain rfl : found = some m := (hread hc).trans hm
    have hseen : ¬ (mode = .normal ∧ tick.seen v.channel candidate.artifact = true) := by
      intro hseen
      have hevict : decision mode tick v.channel v.expirySeconds candidate = .evict := hfits
      rw [decision, if_pos hseen] at hevict
      cases hevict
    have houtcome : handledAt x.shard.shared v.channel candidate
        (decision mode tick v.channel v.expirySeconds candidate) (.evictWrite (some m)) =
          .evicted (.removed m.storedLen) := by
      rw [decision, if_neg hseen, handledAt, RocksMetadata.evictBatch, hdeadline]
      simp
    rw [houtcome]
    cases hstep
    refine ⟨?_, ?_, ?_⟩
    · show SameChannel _ _ (RocksMetadata.evict ..).1
      rw [RocksMetadata.evict, hm]
      exact (h.rows _ hc).evictBatch ..
    · have hfiles := h.files _ hc
      rw [hpc] at hfiles
      exact hfiles
    · rw [fate, if_neg hseen, hm₀]
      rfl

end Handling

/-! ### The actions of the pass -/

/-- The pass finds the channel active whose expiry it reads. -/
def FindsActive (x : Interleaved ι) (a : Actor ι) : Prop :=
  a = .pass → ∀ c rest, x.pass.pc = .expiry c rest →
    ∃ record, x.shard.shared.channel c = some record ∧ record.state = .active

omit [DecidableEq ι] in
/-- The pass leaves the channel, and goes on to the next one or stops. -/
theorem Spared.leave (h : Spared E mode tick start budget x) {v : Visit} {rows : List Candidate}
    (hpc : x.pass.pc = .row v rows)
    (hnone : handledRows mode tick start.store v.channel (budget.spend x.pass.log) rows = []) :
    Spared E mode tick start budget ⟨x.shard, { x.pass with pc := .channels v.rest }⟩ := by
  have hok := h.pc
  rw [hpc] at hok
  exact h.goto hpc rfl (fun _ => rfl) (fun _ => rfl) (fun heq => by cases heq) (hok.leave hnone)

omit [DecidableEq ι] in
/-- The pass stops when the budget is spent, and when no channel is left. -/
theorem Spared.stop (h : Spared E mode tick start budget x) {pc : PassPc} (hpc : x.pass.pc = pc)
    (hstripe : pc.stripe E = none) (hpending : ∀ disk, pc.pending disk = disk) (hlisted : pc ≠ .list)
    (hvisits : Visits mode tick start.store x.Deleted budget (turns start.cursor x.pass.listed)
      x.pass.log) :
    Spared E mode tick start budget
      ⟨x.shard, { x.pass with pc := .done (.ok x.pass.locals.reclaimed) }⟩ :=
  h.goto hpc hstripe hpending (fun _ => rfl) hlisted ⟨by rw [h.reclaimed], hvisits⟩

/-- The pass takes an action. -/
theorem Spared.pass (h : Spared E mode tick start budget x)
    (hsound : Sound start.store start.disk) (hactive : FindsActive x .pass)
    (hstep : x.act E j mode tick start.cursor .pass = some y) :
    Spared E mode tick start budget y := by
  obtain ⟨⟨s', pass'⟩, hpass, rfl⟩ := Option.map_eq_some_iff.mp hstep
  have hok := h.pc
  have hleft := h.left
  cases hpc : x.pass.pc with
  | list =>
    rw [hpc] at hok
    simp only [passStep, hpc] at hpass
    cases hpass
    refine { h with stripes := ?_, files := ?_, listed := fun _ => h.lists hsound, pc := ?_ }
    · intro k _
      exact h.stripes k (by rw [hpc]; exact nofun)
    · intro c hc
      have hfiles := h.files c hc
      rw [hpc] at hfiles
      exact hfiles
    · refine ⟨[], rfl, ?_⟩
      show Visits _ _ _ _ _ _ x.pass.log
      rw [show x.pass.log = [] from hok]
      exact .nil
  | channels rest =>
    rw [hpc] at hok
    obtain ⟨earlier, hlisted, hvisits⟩ := hok
    cases rest with
    | nil =>
      simp only [passStep, hpc] at hpass
      cases hpass
      rw [List.append_nil] at hlisted
      exact h.stop hpc rfl (fun _ => rfl) (fun heq => by cases heq) (hlisted ▸ hvisits)
    | cons c rest =>
      simp only [passStep, hpc] at hpass
      split at hpass <;> cases hpass
      · rename_i hexhausted
        rw [hleft] at hexhausted
        exact h.stop hpc rfl (fun _ => rfl) (fun heq => by cases heq)
          (hlisted ▸ hvisits.exhausted hexhausted _)
      · exact h.goto hpc rfl (fun _ => rfl) (fun _ => rfl) (fun heq => by cases heq)
          ⟨earlier, hlisted, hvisits⟩
  | expiry c rest =>
    rw [hpc] at hok
    obtain ⟨record, hrecord, hstate⟩ := hactive rfl c rest hpc
    have hfound : (x.shard.shared.channel c).filter (·.state == .active) = some record := by
      rw [hrecord, Option.filter_some_pos (by rw [hstate]; rfl)]
    simp only [passStep, hpc, hfound] at hpass
    cases hpass
    refine h.goto hpc rfl (fun _ => rfl) (fun _ => rfl) (fun heq => by cases heq)
      ⟨hok, fun hc => ?_⟩
    rw [← h.channel hc, hrecord]
    rfl
  | candidates v =>
    rw [hpc] at hok
    have hread := RocksMetadata.reclaimCandidates_eq_take h.keys v.channel
      x.pass.locals.budget.candidates
    simp only [passStep, hpc, hread] at hpass
    cases hpass
    have hnodup : (turns start.cursor x.pass.listed).Nodup :=
      List.nodup_rotate.mpr (h.listed (by rw [hpc]; exact nofun)).nodup
    refine h.goto hpc rfl (fun _ => rfl) (fun _ => rfl) (fun heq => by cases heq)
      (hok.1.enter hsound hnodup fun hc => ⟨hok.2 hc, ?_⟩)
    have hqueue := h.reclaimCandidates hsound hc (hok.1.not_mem hnodup)
      x.pass.locals.budget.candidates
    rw [hread] at hqueue
    rw [← hleft]
    exact Except.ok.inj hqueue
  | row v rows =>
    rw [hpc] at hok
    cases rows with
    | nil =>
      simp only [passStep, hpc] at hpass
      cases hpass
      exact h.leave hpc rfl
    | cons candidate rows =>
      simp only [passStep, hpc] at hpass
      split at hpass
      · rename_i hexhausted
        cases hpass
        rw [hleft] at hexhausted
        obtain ⟨earlier, hlisted, hvisits⟩ := hok.leave (handledRows_exhausted hexhausted _)
        exact h.stop hpc rfl (fun _ => rfl) (fun heq => by cases heq)
          (hlisted ▸ hvisits.exhausted hexhausted _)
      · rename_i hnot
        rw [hleft] at hnot
        split at hpass <;> cases hpass
        · rename_i hdue
          exact h.leave hpc (by rw [handledRows_cons, if_neg hnot, if_pos hdue])
        · rename_i hdue
          exact h.goto hpc rfl (fun _ => rfl) (fun _ => rfl) (fun heq => by cases heq)
            ⟨hok, hnot, hdue, trivial, fun _ => trivial⟩
  | maintain v rows candidate pc =>
    simp only [passStep, hpc] at hpass
    split at hpass
    · rename_i s'' c' candidate' decided' pc' hmaintain
      cases hpass
      obtain ⟨pc'', heq⟩ | ⟨o, heq⟩ := maintainStep_task hmaintain
      · cases heq
        exact h.continues hpc hmaintain
      · cases heq
    · rename_i s'' t'' hnot hmaintain
      cases hpass
      obtain ⟨pc'', rfl⟩ | ⟨o, rfl⟩ := maintainStep_task hmaintain
      · exact absurd rfl (hnot _ _ _ _)
      · exact h.handled hpc hmaintain
    · cases hpass
  | done result =>
    simp only [passStep, hpc] at hpass
    cases hpass

theorem spared_of_reach (hsound : Sound start.store start.disk)
    (h : (interleaved E j mode tick start budget).Reach FindsActive x) :
    Spared E mode tick start budget x := by
  refine h.invariant (fun x hx => .init hsound hx) ?_
  intro x a y hx ha hstep
  cases a with
  | pass => exact hx.pass hsound ha hstep
  | deletion i e => exact hx.deletion hstep

/-! ### The pass comes to an end -/

omit [DecidableEq ι] in
/-- No stripe makes the pass wait, since the deletions take none. -/
theorem Spared.maintain_moves (h : Spared E mode tick start budget x) {v : Visit}
    {rows : List Candidate} {candidate : Candidate} {pc : MaintainPc}
    (hpc : x.pass.pc = .maintain v rows candidate pc) :
    ∃ s' t', maintainStep E j v.channel candidate
      (decision mode tick v.channel v.expirySeconds candidate) pc (.run tick.now) x.shard.shared =
        some (s', t') ∧
      ∀ c' candidate' decided' pc', t' = .maintain c' candidate' decided' pc' →
        pc'.weight < pc.weight := by
  have hok := h.pc
  have hstripes := h.stripes
  rw [hpc] at hok hstripes
  obtain ⟨-, -, -, hfits, -⟩ := hok
  cases pc with
  | stripe =>
    have hfree := hstripes (E.stripe v.channel candidate.artifact) nofun
    simp only [maintainStep, Shared.lockStripe, Mutexes.lock, if_pos hfree]
    refine ⟨_, _, rfl, ?_⟩
    rintro _ _ _ pc' heq
    cases heq
    split <;> decide
  | requeueRead =>
    simp only [maintainStep]
    split
    · split
      · exact ⟨_, _, rfl, fun _ _ _ _ heq => by cases heq⟩
      · exact ⟨_, _, rfl, fun _ _ _ _ heq => by cases heq; exact Nat.lt_succ_self _⟩
    · exact ⟨_, _, rfl, fun _ _ _ _ heq => by cases heq⟩
  | requeueWrite m =>
    simp only [maintainStep]
    split
    · exact ⟨_, _, rfl, fun _ _ _ _ heq => by cases heq⟩
    · rename_i hevict
      exact absurd hevict hfits
  | preRead =>
    simp only [maintainStep]
    split
    · exact ⟨_, _, rfl, fun _ _ _ _ heq => by cases heq; decide⟩
    · exact ⟨_, _, rfl, fun _ _ _ _ heq => by cases heq; decide⟩
  | unlink => exact ⟨_, _, rfl, fun _ _ _ _ heq => by cases heq; decide⟩
  | evictRead => exact ⟨_, _, rfl, fun _ _ _ _ heq => by cases heq; exact Nat.lt_succ_self _⟩
  | evictWrite found => exact ⟨_, _, rfl, fun _ _ _ _ heq => by cases heq⟩

/-- As long as it has not returned, the pass can take its next action, and has less to do then. -/
theorem Spared.moves (h : Spared E mode tick start budget x)
    (hrunning : ∀ result, x.pass.pc ≠ .done result) :
    ∃ y, x.act E j mode tick start.cursor .pass = some y ∧ y.pass.remaining < x.pass.remaining := by
  have hmoves : ∃ r, passStep E j mode tick start.cursor x.shard.shared x.pass = some r ∧
      r.2.remaining < x.pass.remaining := by
    have hok := h.pc
    cases hpc : x.pass.pc with
    | list =>
      refine ⟨_, by simp only [passStep, hpc]; rfl, ?_⟩
      simp only [PassState.remaining, hpc]
      exact WithTop.coe_lt_top _
    | channels rest =>
      cases rest with
      | nil =>
        refine ⟨_, by simp only [passStep, hpc]; rfl, ?_⟩
        simp only [PassState.remaining, hpc, WithTop.coe_lt_coe]
        omega
      | cons c rest =>
        simp only [passStep, hpc]
        split
        · refine ⟨_, rfl, ?_⟩
          simp only [PassState.remaining, hpc, WithTop.coe_lt_coe]
          omega
        · refine ⟨_, rfl, ?_⟩
          simp only [PassState.remaining, hpc, WithTop.coe_lt_coe, List.length_cons]
          omega
    | expiry c rest =>
      simp only [passStep, hpc]
      split
      · refine ⟨_, rfl, ?_⟩
        simp only [PassState.remaining, hpc, WithTop.coe_lt_coe]
        omega
      · refine ⟨_, rfl, ?_⟩
        simp only [PassState.remaining, hpc, WithTop.coe_lt_coe]
        omega
    | candidates v =>
      simp only [passStep, hpc]
      split
      · refine ⟨_, rfl, ?_⟩
        simp only [PassState.remaining, hpc, WithTop.coe_lt_coe]
        omega
      · refine ⟨_, rfl, ?_⟩
        simp only [PassState.remaining, hpc, WithTop.coe_lt_coe]
        omega
    | row v rows =>
      cases rows with
      | nil =>
        refine ⟨_, by simp only [passStep, hpc]; rfl, ?_⟩
        simp only [PassState.remaining, hpc, WithTop.coe_lt_coe]
        omega
      | cons candidate rows =>
        simp only [passStep, hpc]
        split
        · refine ⟨_, rfl, ?_⟩
          simp only [PassState.remaining, hpc, WithTop.coe_lt_coe]
          omega
        · rename_i hleft
          split
          · refine ⟨_, rfl, ?_⟩
            simp only [PassState.remaining, hpc, WithTop.coe_lt_coe]
            omega
          · refine ⟨_, rfl, ?_⟩
            have hpos : x.pass.locals.budget.candidates ≠ 0 := fun hzero => hleft (.inl hzero)
            simp only [PassState.remaining, hpc, WithTop.coe_lt_coe, MaintainPc.weight]
            omega
    | maintain v rows candidate pc =>
      obtain ⟨s', t', hstep, hless⟩ := h.maintain_moves (j := j) hpc
      simp only [passStep, hpc, hstep]
      obtain ⟨pc', rfl⟩ | ⟨o, rfl⟩ := maintainStep_task hstep
      · refine ⟨_, rfl, ?_⟩
        have hlt := hless _ _ _ _ rfl
        simp only [PassState.remaining, hpc, WithTop.coe_lt_coe]
        omega
      · refine ⟨_, rfl, ?_⟩
        have hpos := pc.weight_pos
        simp only [PassState.remaining, PassState.process, Locals.after, Budget.after_candidates, hpc,
          WithTop.coe_lt_coe]
        omega
    | done result => exact absurd hpc (hrunning result)
  obtain ⟨r, hstep, hless⟩ := hmoves
  exact ⟨⟨⟨r.1, x.shard.task⟩, r.2⟩, by rw [Interleaved.act, hstep]; rfl, hless⟩

/-- What a concurrent deletion must not spoil. -/
structure Unspoiled (E : Env ι) (j : ι) (mode : SpaceLedger.Mode) (tick : Tick) (start : State)
    (budget : Budget) (x : Interleaved ι) : Prop where
  /-- The pass returns: it can go on until it does, and only so often. -/
  moves : (∀ result, x.pass.pc ≠ .done result) → ∃ y,
    x.act E j mode tick start.cursor .pass = some y ∧ y.pass.remaining < x.pass.remaining
  result : ∀ result, x.pass.pc = .done result → result = .ok (removals x.pass.log)
  /-- The channels that nobody deletes take the turns of a pass that has not listed the others. -/
  turns : ∀ result, x.pass.pc = .done result →
    others x.Deleted (turns start.cursor x.pass.listed) =
      turns start.cursor (others x.Deleted (activeChannels start.store))
  /-- They were processed in that order, each with the budget left for it. -/
  visits : ∀ result, x.pass.pc = .done result →
    Visits mode tick start.store x.Deleted budget (Maintenance.turns start.cursor x.pass.listed)
      x.pass.log
  rows : ∀ result, x.pass.pc = .done result → ∀ c, ¬ x.Deleted c →
    SameChannel c x.shard.shared.store.current (applyAll x.pass.log start.store)
  files : ∀ result, x.pass.pc = .done result → ∀ c, ¬ x.Deleted c →
    SameFiles c x.shard.shared.disk (applyAllDisk x.pass.log start.disk)

/-- **Deletions spare the other channels**: in a run in which the pass finds every channel active
whose expiry it reads, and its cursor passes over as many of the other channels as if they alone
were listed, it returns the number of rows it removed, and has processed the channels that nobody
deletes as if it had been alone with the budget they were left. If the cursor passes over more or
fewer, the other channels change turns. -/
theorem deletions_spare_others (hsound : Sound start.store start.disk)
    (h : (interleaved E j mode tick start budget).Reach FindsActive x) :
    (InTurn start.cursor x.Deleted x.pass.listed → Unspoiled E j mode tick start budget x) ∧
    ∀ result, x.pass.pc = .done result → ¬ InTurn start.cursor x.Deleted x.pass.listed →
      others x.Deleted (turns start.cursor x.pass.listed) ≠
        turns start.cursor (others x.Deleted (activeChannels start.store)) := by
  have hspared := spared_of_reach hsound h
  have hdone : ∀ result, x.pass.pc = .done result →
      (PassPc.done result).Ok mode tick start x.Deleted budget x.pass.log
        (turns start.cursor x.pass.listed) := by
    intro result hpc
    rw [← hpc]
    exact hspared.pc
  have hlisted : ∀ result, x.pass.pc = .done result →
      Listed start.store x.Deleted x.pass.listed :=
    fun result hpc => hspared.listed (by rw [hpc]; exact nofun)
  refine ⟨fun hturn => ?_, fun result hpc hturn heq => hturn ?_⟩
  · constructor
    case moves => exact hspared.moves
    case result => exact fun result hpc => (hdone result hpc).1
    case turns =>
      intro result hpc
      rw [← (hlisted result hpc).others]
      exact (others_turns_iff (hlisted result hpc).nodup).mpr hturn
    case visits => exact fun result hpc => (hdone result hpc).2
    case rows => exact fun _ _ => hspared.rows
    case files =>
      intro result hpc c hc
      have hfiles := hspared.files c hc
      rw [hpc] at hfiles
      exact hfiles
  · rw [← (hlisted result hpc).others] at heq
    exact (others_turns_iff (hlisted result hpc).nodup).mp heq

/-- A channel that was marked after it was listed ends the pass, whatever is left to do. -/
theorem missing_channel_ends_pass {c : ChannelId} {rest : List ChannelId}
    (hpc : x.pass.pc = .expiry c rest)
    (hmissing : ∀ record, x.shard.shared.channel c = some record → record.state ≠ .active) :
    x.act E j mode tick start.cursor .pass =
      some ⟨x.shard, { x.pass with pc := .done (.error .missingChannel) }⟩ := by
  have hnone : (x.shard.shared.channel c).filter (·.state == .active) = none := by
    refine Option.filter_eq_none_iff.mpr fun record hrecord hactive => ?_
    exact hmissing record hrecord (beq_iff_eq.mp hactive)
  simp only [Interleaved.act, passStep, hpc, hnone]
  rfl

end Steps

/-! ### A shard with two channels -/

/-- Beside the one artifact of the Default Channel, a channel without any, which is visited first. -/
def twoState : State :=
  { onlyState with
    store := onlyState.store.storeChannel ⟨⟨1⟩, .open, 100, .active, 0⟩
    cursor := 1 }

theorem sound_twoState : Sound twoState.store twoState.disk :=
  sound_onlyState.storeChannel _

def twoStart : Interleaved (BitVec 128) where
  shard := ⟨{ Shared.fresh _ 100 0 with
    store := Journal.synced twoState.store
    disk := twoState.disk }, fun _ => .idle⟩
  pass := ⟨.list, [], ⟨⟨3, 10⟩, 0⟩, []⟩

theorem twoStart_starts : Interleaved.Starts twoState ⟨3, 10⟩ twoStart :=
  ⟨rfl, rfl, rfl, fun _ => rfl, rfl⟩

/-- Everything is due, nothing was used. -/
def dueTick : Tick := ⟨none, 7, fun _ _ => false⟩

/-- The other channel is deleted up to its mark. -/
def marking : List (Actor (BitVec 128)) :=
  .deletion 1 (.start (.delete ⟨1⟩ none)) :: List.replicate 5 (.deletion 1 (.run 7))

/-- `FindsActive`, to be evaluated. -/
def findsActive (x : Interleaved (BitVec 128)) : Actor (BitVec 128) → Bool
  | .pass =>
    match x.pass.pc with
    | .expiry c _ => (x.shard.shared.channel c).any (·.state == .active)
    | _ => true
  | .deletion _ _ => true

theorem findsActive_sound (x : Interleaved (BitVec 128)) (a : Actor (BitVec 128))
    (h : findsActive x a = true) : FindsActive x a := by
  rintro rfl c rest hpc
  rw [findsActive, hpc] at h
  obtain ⟨record, hrecord, hstate⟩ := (Option.any_eq_true _ _).mp h
  exact ⟨record, hrecord, beq_iff_eq.mp hstate⟩

/-- A schedule on the two channels that ends as checked. -/
theorem reach_of_schedule {G : Interleaved (BitVec 128) → Actor (BitVec 128) → Prop}
    (ok : Interleaved (BitVec 128) → Actor (BitVec 128) → Bool)
    (hok : ∀ x a, ok x a = true → G x a) (schedule : List (Actor (BitVec 128)))
    (P : Interleaved (BitVec 128) → Bool)
    (h : (System.exec (Interleaved.act sampleEnv 0 .normal dueTick twoState.cursor) ok twoStart
      schedule).any P = true) :
    ∃ x, (interleaved sampleEnv 0 .normal dueTick twoState ⟨3, 10⟩).Reach G x ∧ P x = true :=
  System.reach_of_exec (fun _ _ _ => id) hok twoStart_starts h

/-- One channel that is left is always the first in turn. -/
theorem inTurn_of_deleted {cursor : UInt64} {deleted : ChannelId → Prop} {c d : ChannelId}
    (hd : deleted d) : InTurn cursor deleted [c, d] := by
  intro hne
  have hothers : others deleted [c, d] = others deleted [c] := by
    have hlast : others deleted [d] = [] := List.filter_eq_nil_iff.mpr (by simpa using hd)
    rw [show [c, d] = [c] ++ [d] from rfl, others_append, hlast, List.append_nil]
  have hone : (others deleted [c, d]).length = 1 := by
    have hle : (others deleted [c]).length ≤ 1 := List.length_filter_le ..
    have hpos := List.length_pos_iff.mpr hne
    rw [hothers] at hpos ⊢
    omega
  rw [hone, Nat.mod_one, Nat.mod_one]

/-- The channel is marked after its expiry was read, and the pass removes the artifact. -/
theorem marked_behind_pass :
    ∃ x, (interleaved sampleEnv 0 .normal dueTick twoState ⟨3, 10⟩).Reach FindsActive x ∧
      x.pass.pc = .done (.ok 1) ∧
      Unspoiled sampleEnv 0 .normal dueTick twoState ⟨3, 10⟩ x := by
  obtain ⟨x, hx, hcheck⟩ := reach_of_schedule findsActive findsActive_sound
    (List.replicate 3 .pass ++ marking ++ List.replicate 13 .pass)
    (fun x => decide (x.pass.pc = .done (.ok 1) ∧ x.pass.listed = [.default, ⟨1⟩] ∧
      (x.shard.task 1).marks = some ⟨1⟩)) (by decide +kernel)
  obtain ⟨hpc, hlisted, hmarks⟩ := of_decide_eq_true hcheck
  refine ⟨x, hx, hpc, (deletions_spare_others sound_twoState hx).1 ?_⟩
  rw [hlisted]
  exact inTurn_of_deleted ⟨1, hmarks⟩

/-- The channel is marked before its expiry is read, and the pass leaves the artifact. -/
theorem marked_ahead_of_pass :
    ∃ x, (interleaved sampleEnv 0 .normal dueTick twoState ⟨3, 10⟩).Reach (fun _ _ => True) x ∧
      x.pass.pc = .done (.error .missingChannel) ∧
      x.shard.shared.channel .default = some onlyChannel ∧
      handledChannels .normal dueTick twoState.store ⟨3, 10⟩ [.default] ≠ [] ∧ x.pass.log = [] ∧
      ¬ Unspoiled sampleEnv 0 .normal dueTick twoState ⟨3, 10⟩ x := by
  obtain ⟨x, hx, hcheck⟩ := reach_of_schedule (fun _ _ => true) (fun _ _ _ => trivial)
    (.pass :: marking ++ List.replicate 2 .pass)
    (fun x => decide (x.pass.pc = .done (.error .missingChannel) ∧
      x.shard.shared.channel .default = some onlyChannel ∧ x.pass.log = [])) (by decide +kernel)
  obtain ⟨hpc, hchannel, hlog⟩ := of_decide_eq_true hcheck
  refine ⟨x, hx, hpc, hchannel, by decide +kernel, hlog, fun h => ?_⟩
  cases h.result _ hpc

end Maintenance

end Flywheel
