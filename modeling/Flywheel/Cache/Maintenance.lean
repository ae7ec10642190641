import Flywheel.Cache.Space
import Flywheel.Lib.Program
import Flywheel.Storage.Candidates
import Flywheel.Storage.Recovery
import Mathlib.Data.List.Rotate

/-!
# One maintenance pass (`CacheService::run_maintenance_once`)

A pass goes through the active channels, from a cursor on, and through the first rows of each
channel's eviction queue. Two budgets for the whole pass, rows and bytes, end it wherever they run
out. In Normal mode it also leaves a channel at the first row that is not due.

The loops below are those of the source, on the store, the files, the ledger and the cursor. They
also keep a log of the rows they processed, which nothing reads.

`handledRows` says what a pass makes of a queue with given budgets, as a function of the store it
started from, and `handledChannels` strings the channels together. `channelLoop_eq` is the
refinement: the loops log exactly that, and the store and the files are those of the log.
-/

set_option autoImplicit false

namespace Flywheel

open Lib Std

namespace Maintenance

/-! ## The state of a pass -/

inductive CacheError where
  | localError (error : LocalError)
  | metadata (message : String)
  | missingChannel
  deriving DecidableEq

/-- What became of a candidate. -/
inductive Handled where
  | requeued (deadline : UInt64)
  | evicted (outcome : Evicted)
  deriving DecidableEq

structure Processed where
  channel : ChannelId
  candidate : Candidate
  handled : Handled
  deriving DecidableEq

structure State where
  store : RocksMetadata
  disk : FsDisk
  space : SpaceLedger.State
  /-- `maintenance_cursor`, which wraps. -/
  cursor : UInt64
  log : List Processed

/-- What a pass takes from its surroundings: what `free_bytes` and the clock report, and the
recent-use filter. -/
structure Tick where
  observation : Option UInt64
  now : UInt64
  seen : ChannelId → ArtifactId → Bool

structure Budget where
  candidates : Nat
  bytes : Nat
  deriving DecidableEq

def Budget.Exhausted (budget : Budget) : Prop := budget.candidates = 0 ∨ budget.bytes = 0

instance (budget : Budget) : Decidable budget.Exhausted :=
  inferInstanceAs (Decidable (budget.candidates = 0 ∨ budget.bytes = 0))

/-- The local variables of the loops. -/
structure Locals where
  budget : Budget
  reclaimed : Nat
  deriving DecidableEq

abbrev Pass (α : Type) : Type := EStateM CacheError State α

/-! ## The pass -/

def onStore (f : RocksMetadata → RocksMetadata) : Pass Unit :=
  modify fun s => { s with store := f s.store }

/-- `ArtifactFiles::remove`. -/
def removeBody (c : ChannelId) (a : ArtifactId) : Pass Unit := do
  let s ← get
  let disk ← MonadExcept.ofExcept ((ArtifactFiles.remove c a s.disk).mapError .localError)
  set { s with disk := disk }

def evict (c : ChannelId) (candidate : Candidate) : Pass Evicted := do
  let s ← get
  let (store, outcome) := s.store.evict c candidate.artifact candidate.eligibleAt
  set { s with store := store }
  return outcome

variable (mode : SpaceLedger.Mode) (tick : Tick)

/-- The part of the candidate loop that holds the stripe. -/
def processCandidate (c : ChannelId) (expirySeconds : UInt64) (candidate : Candidate) :
    Pass Handled := do
  if mode = .normal ∧ tick.seen c candidate.artifact then
    let deadline := saturatingAdd tick.now expirySeconds
    onStore fun store => store.requeue c candidate.artifact candidate.eligibleAt deadline
    return .requeued deadline
  if ((← get).store.artifact c candidate.artifact).any (·.eligibleAt == candidate.eligibleAt) then
    removeBody c candidate.artifact
  let outcome ← evict c candidate
  return .evicted outcome

def Handled.freed : Handled → Nat
  | .evicted (.removed storedLen) => storedLen
  | _ => 0

def Handled.isRemoval : Handled → Bool
  | .evicted (.removed _) => true
  | _ => false

/-- `remaining_candidates -= 1`, and `remaining_bytes.saturating_sub(stored_len)`. -/
def Budget.after (budget : Budget) (handled : Handled) : Budget :=
  ⟨budget.candidates - 1, budget.bytes - handled.freed⟩

@[simp] theorem Budget.after_candidates (budget : Budget) (handled : Handled) :
    (budget.after handled).candidates = budget.candidates - 1 := rfl

@[simp] theorem Budget.after_bytes (budget : Budget) (handled : Handled) :
    (budget.after handled).bytes = budget.bytes - handled.freed := rfl

def Locals.after (l : Locals) (handled : Handled) : Locals :=
  ⟨l.budget.after handled, if handled.isRemoval then l.reclaimed + 1 else l.reclaimed⟩

/-- The loop over the candidates of a channel; `true` stands for `break 'channels`. -/
def candidateLoop (c : ChannelId) (expirySeconds : UInt64) :
    List Candidate → Locals → Pass (Locals × Bool)
  | [], l => return (l, false)
  | candidate :: rest, l => do
    if l.budget.Exhausted then
      return (l, true)
    if mode = .normal ∧ ¬ candidate.eligibleAt ≤ tick.now then
      return (l, false)
    let handled ← processCandidate mode tick c expirySeconds candidate
    modify fun s => { s with log := s.log ++ [⟨c, candidate, handled⟩] }
    candidateLoop c expirySeconds rest (l.after handled)

/-- `expiry_seconds`. -/
def expirySeconds (c : ChannelId) : Pass UInt64 := do
  match ((← get).store.channel c).filter (·.state == .active) with
  | some record => return record.expirySeconds
  | none => throw .missingChannel

def reclaimCandidates (c : ChannelId) (limit : Nat) : Pass (List Candidate) := do
  MonadExcept.ofExcept (((← get).store.reclaimCandidates c limit).mapError .metadata)

/-- The loop `'channels`. -/
def channelLoop : List ChannelId → Locals → Pass Locals
  | [], l => return l
  | c :: rest, l => do
    if l.budget.Exhausted then
      return l
    let expiry ← expirySeconds c
    let candidates ← reclaimCandidates c l.budget.candidates
    let (l, stop) ← candidateLoop mode tick c expiry candidates l
    if stop then return l else channelLoop rest l

/-- `channels`: the active ones, in the order of the registry. -/
def activeChannels (store : RocksMetadata) : List ChannelId :=
  (store.channelRecords.filter (·.state == .active)).map (·.id)

/-- The cursor moves on if there is any channel; the list starts from where it was. -/
def rotatedChannels : Pass (List ChannelId) := do
  let s ← get
  let channels := activeChannels s.store
  if channels.isEmpty then
    return channels
  set { s with cursor := s.cursor + 1 }
  return channels.rotate (s.cursor.toNat % channels.length)

/-- `refresh` and `mode` of the ledger. -/
def refreshedMode (policy : SpacePolicy) (tick : Tick) : Pass SpaceLedger.Mode :=
  modifyGet fun s =>
    let (mode, space) := SpaceLedger.mode policy
      (SpaceLedger.refreshLocked tick.observation s.space)
    (mode, { s with space := space })

def runMaintenanceOnce (policy : SpacePolicy) (reclaimByteLimit : Nat) (tick : Tick) (limit : Nat) :
    Pass Nat := do
  let mode ← refreshedMode policy tick
  let channels ← rotatedChannels
  let l ← channelLoop mode tick channels ⟨⟨limit, reclaimByteLimit⟩, 0⟩
  return l.reclaimed

/-! ## What a pass makes of the queues -/

/-- What becomes of a row with a record, given the store the pass started from. -/
def fate (s₀ : RocksMetadata) (c : ChannelId) (candidate : Candidate) : Handled :=
  if mode = .normal ∧ tick.seen c candidate.artifact then
    .requeued (saturatingAdd tick.now ((s₀.channel c).elim 0 (·.expirySeconds)))
  else
    .evicted (.removed ((s₀.artifact c candidate.artifact).elim 0 (·.storedLen)))

/-- The rows of a queue that a pass processes with the budget it comes with. -/
def handledRows (s₀ : RocksMetadata) (c : ChannelId) : Budget → List Candidate → List Processed
  | _, [] => []
  | budget, candidate :: rest =>
    if budget.Exhausted then []
    else if mode = .normal ∧ ¬ candidate.eligibleAt ≤ tick.now then []
    else
      let handled := fate mode tick s₀ c candidate
      ⟨c, candidate, handled⟩ :: handledRows s₀ c (budget.after handled) rest

def Budget.spend (budget : Budget) (processed : List Processed) : Budget :=
  processed.foldl (fun budget p => budget.after p.handled) budget

/-- Every channel gets what the ones before it have left. -/
def handledChannels (s₀ : RocksMetadata) : Budget → List ChannelId → List Processed
  | _, [] => []
  | budget, c :: rest =>
    let processed := handledRows mode tick s₀ c budget (s₀.queue c)
    processed ++ handledChannels s₀ (budget.spend processed) rest

/-- What processing a row does to the store. -/
def Processed.apply (p : Processed) (store : RocksMetadata) : RocksMetadata :=
  match p.handled with
  | .requeued deadline =>
    store.requeue p.channel p.candidate.artifact p.candidate.eligibleAt deadline
  | .evicted _ => (store.evict p.channel p.candidate.artifact p.candidate.eligibleAt).1

/-- What processing a row does to the files. -/
def Processed.applyDisk (p : Processed) (disk : FsDisk) : FsDisk :=
  if p.handled.isRemoval then disk.unlink (path p.channel p.candidate.artifact) else disk

def applyAll (processed : List Processed) (store : RocksMetadata) : RocksMetadata :=
  processed.foldl (fun store p => p.apply store) store

def applyAllDisk (processed : List Processed) (disk : FsDisk) : FsDisk :=
  processed.foldl (fun disk p => p.applyDisk disk) disk

/-- The state after the rows were processed. -/
def State.after (s : State) (processed : List Processed) : State :=
  { s with
    store := applyAll processed s.store
    disk := applyAllDisk processed s.disk
    log := s.log ++ processed }

/-- How many rows were removed. -/
def removals (processed : List Processed) : Nat := (processed.filter (·.handled.isRemoval)).length

/-! ## The loops refine it -/

section Refinement

variable {mode tick} {s : State} {c : ChannelId} {s₀ : RocksMetadata}

/-- The row belongs to the record, and its body can be removed. -/
structure Live (s : State) (c : ChannelId) (candidate : Candidate) (m : ArtifactMetadata) : Prop where
  record : s.store.artifact c candidate.artifact = some m
  deadline : m.eligibleAt = candidate.eligibleAt
  body : s.disk.kindAt (path c candidate.artifact) ≠ some .dir

theorem processCandidate_eq {candidate : Candidate} {m : ArtifactMetadata} {expiry : UInt64}
    (h : Live s c candidate m) {handled : Handled}
    (hhandled : handled = if mode = .normal ∧ tick.seen c candidate.artifact
      then .requeued (saturatingAdd tick.now expiry) else .evicted (.removed m.storedLen)) :
    processCandidate mode tick c expiry candidate s =
      .ok handled { s with
        store := (Processed.mk c candidate handled).apply s.store
        disk := (Processed.mk c candidate handled).applyDisk s.disk } := by
  subst hhandled
  unfold processCandidate
  by_cases hseen : mode = .normal ∧ tick.seen c candidate.artifact = true
  · rw [if_pos hseen, if_pos hseen]
    rfl
  · have hmatch : (s.store.artifact c candidate.artifact).any
        (·.eligibleAt == candidate.eligibleAt) = true := by
      rw [h.record, Option.any_some, h.deadline, beq_self_eq_true]
    have hget : (get : Pass State) s = .ok s s := rfl
    have hremove : removeBody c candidate.artifact s =
        .ok () { s with disk := s.disk.unlink (path c candidate.artifact) } := by
      rw [removeBody, bind_ok hget, remove_eq h.body]
      rfl
    have houtcome : (s.store.evict c candidate.artifact candidate.eligibleAt).2 =
        .removed m.storedLen := by
      rw [RocksMetadata.evict, h.record, RocksMetadata.evictBatch, h.deadline]
      simp
    have hevict : evict c candidate { s with disk := s.disk.unlink (path c candidate.artifact) } =
        .ok (.removed m.storedLen)
          { s with
            disk := s.disk.unlink (path c candidate.artifact)
            store := (s.store.evict c candidate.artifact candidate.eligibleAt).1 } := by
      rw [← houtcome]
      rfl
    rw [if_neg hseen, if_neg hseen, bind_ok hget, if_pos hmatch, bind_ok hremove]
    show (evict c candidate >>= fun outcome => pure (Handled.evicted outcome)) _ = _
    rw [bind_ok hevict]
    rfl

/-- Processing a row leaves the records of the others. -/
theorem Processed.apply_artifact_of_ne {p : Processed} {c' : ChannelId} {a : ArtifactId}
    (hne : ¬ (p.channel = c' ∧ p.candidate.artifact = a)) (store : RocksMetadata) :
    (p.apply store).artifact c' a = store.artifact c' a := by
  unfold Processed.apply
  cases p.handled with
  | requeued deadline =>
    dsimp only
    unfold RocksMetadata.requeue
    cases store.artifact p.channel p.candidate.artifact with
    | none => rfl
    | some m =>
      dsimp only
      split
      · rfl
      · rw [RocksMetadata.requeueBatch_artifact, if_neg hne]
  | evicted outcome =>
    dsimp only
    rw [RocksMetadata.evict, RocksMetadata.evictBatch_artifact, if_neg fun h => hne h.2]

theorem Processed.applyDisk_of_ne {p : Processed} {q : Path}
    (hne : q ≠ path p.channel p.candidate.artifact) (disk : FsDisk) :
    (p.applyDisk disk)[q]? = disk[q]? := by
  unfold Processed.applyDisk
  split
  · rw [Disk.unlink_apply, if_neg (Ne.symm hne)]
  · rfl

/-- The rows are those of records, one each, and their bodies can be removed. -/
structure Fresh (s : State) (s₀ : RocksMetadata) (c : ChannelId) (rows : List Candidate) : Prop where
  live : ∀ candidate ∈ rows, ∃ m, Live s c candidate m ∧ s₀.artifact c candidate.artifact = some m
  distinct : (rows.map (·.artifact)).Nodup

theorem Fresh.tail {candidate : Candidate} {rows : List Candidate} {p : Processed}
    (h : Fresh s s₀ c (candidate :: rows)) (hcandidate : p.candidate = candidate) : Fresh (s.after [p]) s₀ c rows := by
  obtain ⟨hnotin, hdistinct⟩ := List.nodup_cons.mp h.distinct
  refine ⟨fun other hother => ?_, hdistinct⟩
  obtain ⟨m, hlive, hm⟩ := h.live other (List.mem_cons_of_mem _ hother)
  have hne : p.candidate.artifact ≠ other.artifact := by
    intro heq
    rw [hcandidate] at heq
    exact hnotin (List.mem_map.mpr ⟨other, hother, heq.symm⟩)
  refine ⟨m, ⟨?_, hlive.deadline, ?_⟩, hm⟩
  · exact (Processed.apply_artifact_of_ne (fun h => hne h.2) s.store).trans hlive.record
  · have hpath : path c other.artifact ≠ path p.channel p.candidate.artifact := fun heq =>
      hne (path_inj.mp heq).2.symm
    rw [State.after]
    show Disk.kindAt (p.applyDisk s.disk) _ ≠ _
    rw [Disk.kindAt_congr (Processed.applyDisk_of_ne hpath s.disk)]
    exact hlive.body

theorem Fresh.take {rows : List Candidate} (h : Fresh s s₀ c rows) (n : Nat) :
    Fresh s s₀ c (rows.take n) := by
  refine ⟨fun candidate hmem => h.live candidate (List.mem_of_mem_take hmem), ?_⟩
  rw [List.map_take]
  exact h.distinct.sublist (List.take_sublist _ _)

@[simp] theorem State.after_nil (s : State) : s.after [] = s := by
  simp [State.after, applyAll, applyAllDisk]

theorem State.after_append (s : State) (x y : List Processed) :
    s.after (x ++ y) = (s.after x).after y := by
  simp [State.after, applyAll, applyAllDisk]

/-- What the loop over a queue leaves behind. -/
structure Loops (s : State) (l : Locals) (processed : List Processed) (l' : Locals) (s' : State) :
    Prop where
  state : s' = s.after processed
  budget : l'.budget = l.budget.spend processed
  reclaimed : l'.reclaimed = l.reclaimed + removals processed

theorem Loops.nil (s : State) (l : Locals) : Loops s l [] l s :=
  ⟨(State.after_nil s).symm, rfl, rfl⟩

theorem Loops.append {l l' l'' : Locals} {s' s'' : State} {x y : List Processed}
    (hx : Loops s l x l' s') (hy : Loops s' l' y l'' s'') : Loops s l (x ++ y) l'' s'' := by
  constructor
  case state => rw [hy.state, hx.state, State.after_append]
  case budget => rw [hy.budget, hx.budget, Budget.spend, Budget.spend, Budget.spend, List.foldl_append]
  case reclaimed =>
    rw [hy.reclaimed, hx.reclaimed, removals, removals, removals, List.filter_append,
      List.length_append, Nat.add_assoc]

theorem Loops.single (s : State) (l : Locals) (p : Processed) :
    Loops s l [p] (l.after p.handled) (s.after [p]) := by
  refine ⟨rfl, rfl, ?_⟩
  rw [Locals.after, removals]
  cases hremoval : p.handled.isRemoval <;> simp [hremoval]

theorem candidateLoop_eq {expiry : UInt64}
    (hexpiry : expiry = (s₀.channel c).elim 0 (·.expirySeconds)) {rows : List Candidate}
    {l : Locals} (h : Fresh s s₀ c rows) :
    ∃ l' stop s', candidateLoop mode tick c expiry rows l s = .ok (l', stop) s' ∧
      Loops s l (handledRows mode tick s₀ c l.budget rows) l' s' ∧
      (stop = true → l'.budget.Exhausted) := by
  induction rows generalizing s l with
  | nil => exact ⟨l, false, s, rfl, Loops.nil s l, fun h => by cases h⟩
  | cons candidate rows ih =>
    unfold candidateLoop handledRows
    by_cases hexhausted : l.budget.Exhausted
    · rw [if_pos hexhausted, if_pos hexhausted]
      exact ⟨l, true, s, rfl, Loops.nil s l, fun _ => hexhausted⟩
    · rw [if_neg hexhausted, if_neg hexhausted]
      by_cases hdue : mode = .normal ∧ ¬ candidate.eligibleAt ≤ tick.now
      · rw [if_pos hdue, if_pos hdue]
        exact ⟨l, false, s, rfl, Loops.nil s l, fun h => by cases h⟩
      · rw [if_neg hdue, if_neg hdue]
        obtain ⟨m, hlive, hm⟩ := h.live candidate List.mem_cons_self
        have hfate : fate mode tick s₀ c candidate = if mode = .normal ∧ tick.seen c candidate.artifact
            then .requeued (saturatingAdd tick.now expiry) else .evicted (.removed m.storedLen) := by
          rw [fate, hm, ← hexpiry]
          rfl
        have hprocess := processCandidate_eq hlive hfate
        have hstep := Loops.single s l ⟨c, candidate, fate mode tick s₀ c candidate⟩
        obtain ⟨l', stop, s', hloop, hloops, hstop⟩ := ih
          (l := l.after (fate mode tick s₀ c candidate))
          (h.tail (p := ⟨c, candidate, fate mode tick s₀ c candidate⟩) rfl)
        refine ⟨l', stop, s', ?_, hstep.append hloops, hstop⟩
        rw [bind_ok hprocess]
        exact hloop

theorem handledRows_cons (budget : Budget) (candidate : Candidate) (rows : List Candidate) :
    handledRows mode tick s₀ c budget (candidate :: rows) =
      if budget.Exhausted then []
      else if mode = .normal ∧ ¬ candidate.eligibleAt ≤ tick.now then []
      else ⟨c, candidate, fate mode tick s₀ c candidate⟩ ::
        handledRows mode tick s₀ c (budget.after (fate mode tick s₀ c candidate)) rows := rfl

/-- A pass never gets to a row behind its budget, so it need not read it. -/
theorem handledRows_take (budget : Budget) (rows : List Candidate) :
    handledRows mode tick s₀ c budget (rows.take budget.candidates) =
      handledRows mode tick s₀ c budget rows := by
  induction rows generalizing budget with
  | nil => rw [List.take_nil]
  | cons candidate rows ih =>
    cases hcandidates : budget.candidates with
    | zero =>
      have hexhausted : budget.Exhausted := .inl hcandidates
      rw [List.take_zero]
      unfold handledRows
      rw [if_pos hexhausted]
    | succ n =>
      have hrest := ih (budget.after (fate mode tick s₀ c candidate))
      have hafter : (budget.after (fate mode tick s₀ c candidate)).candidates = n := by
        rw [Budget.after_candidates, hcandidates]
        rfl
      rw [hafter] at hrest
      rw [List.take_succ_cons, handledRows_cons, handledRows_cons, hrest]

theorem handledRows_exhausted {budget : Budget} (h : budget.Exhausted) (rows : List Candidate) :
    handledRows mode tick s₀ c budget rows = [] := by
  cases rows with
  | nil => rfl
  | cons candidate rows =>
    unfold handledRows
    rw [if_pos h]

theorem handledChannels_exhausted {budget : Budget} (h : budget.Exhausted)
    (channels : List ChannelId) : handledChannels mode tick s₀ budget channels = [] := by
  induction channels with
  | nil => rfl
  | cons c channels ih =>
    rw [handledChannels, handledRows_exhausted h]
    exact ih

/-- Processing a row of another channel leaves a channel alone. -/
theorem Processed.sameChannel_apply {p : Processed} (hne : p.channel ≠ c) (store : RocksMetadata) :
    SameChannel c (p.apply store) store := by
  unfold Processed.apply
  cases p.handled with
  | requeued deadline =>
    dsimp only
    unfold RocksMetadata.requeue
    cases store.artifact p.channel p.candidate.artifact with
    | none => exact SameChannel.refl c store
    | some m =>
      dsimp only
      split
      · exact SameChannel.refl c store
      · exact SameChannel.requeueBatch_other _ hne ..
  | evicted outcome => exact SameChannel.evictBatch_other _ hne ..

theorem sameChannel_applyAll {processed : List Processed} {store : RocksMetadata}
    (h : ∀ p ∈ processed, p.channel ≠ c) : SameChannel c (applyAll processed store) store := by
  induction processed generalizing store with
  | nil => exact SameChannel.refl c store
  | cons p processed ih =>
    exact (ih fun p' hp' => h p' (List.mem_cons_of_mem p hp')).trans
      (Processed.sameChannel_apply (h p List.mem_cons_self) store)

/-- No directory is in the place of a body. -/
def Bodies (disk : FsDisk) : Prop := ∀ c a, disk.kindAt (path c a) ≠ some .dir

theorem Bodies.applyDisk {disk : FsDisk} (h : Bodies disk) (p : Processed) :
    Bodies (p.applyDisk disk) := by
  intro c a hdir
  unfold Processed.applyDisk at hdir
  split at hdir
  · rw [(Without.unlink disk (path p.channel p.candidate.artifact)).kindAt_of_some hdir] at hdir
    exact h c a hdir
  · exact h c a hdir

theorem Bodies.applyAllDisk {disk : FsDisk} (h : Bodies disk) (processed : List Processed) :
    Bodies (applyAllDisk processed disk) := by
  induction processed generalizing disk with
  | nil => exact h
  | cons p processed ih => exact ih (h.applyDisk p)

theorem channel_of_mem_handledRows {budget : Budget} {rows : List Candidate} {p : Processed}
    (h : p ∈ handledRows mode tick s₀ c budget rows) : p.channel = c := by
  induction rows generalizing budget with
  | nil => cases h
  | cons candidate rows ih =>
    rw [handledRows_cons] at h
    split at h
    · cases h
    · split at h
      · cases h
      · rcases List.mem_cons.mp h with rfl | h
        · rfl
        · exact ih h

theorem record_of_mem_queue (hmatches : s₀.QueueMatches)
    (hkeys : RocksMetadata.RowKeys s₀.eviction) {candidate : Candidate}
    (hmem : candidate ∈ s₀.queue c) :
    ∃ m, s₀.artifact c candidate.artifact = some m ∧ m.eligibleAt = candidate.eligibleAt :=
  (hmatches c candidate.artifact candidate.eligibleAt).mp ((RocksMetadata.mem_queue hkeys).mp hmem)

/-- An artifact has one row. -/
theorem distinct_queue (hmatches : s₀.QueueMatches) (hkeys : RocksMetadata.RowKeys s₀.eviction)
    (c : ChannelId) : ((s₀.queue c).map (·.artifact)).Nodup := by
  refine List.pairwise_map.mpr ((RocksMetadata.isQueue_queue hkeys c).nodup.imp_of_mem ?_)
  intro x y hx hy hne hartifact
  obtain ⟨m, hm, hdeadline⟩ := record_of_mem_queue hmatches hkeys hx
  obtain ⟨m', hm', hdeadline'⟩ := record_of_mem_queue hmatches hkeys hy
  rw [hartifact, hm'] at hm
  obtain rfl := Option.some.inj hm
  obtain ⟨t, a⟩ := x
  obtain ⟨t', a'⟩ := y
  exact hne (congr (congrArg Candidate.mk (hdeadline.symm.trans hdeadline')) hartifact)

/-- The queue of a channel that was left alone is fresh. -/
theorem fresh_queue (hmatches : s₀.QueueMatches) (hkeys : RocksMetadata.RowKeys s₀.eviction)
    (hsame : SameChannel c s.store s₀) (hbodies : Bodies s.disk) : Fresh s s₀ c (s₀.queue c) := by
  refine ⟨fun candidate hmem => ?_, distinct_queue hmatches hkeys c⟩
  obtain ⟨m, hm, hdeadline⟩ := record_of_mem_queue hmatches hkeys hmem
  exact ⟨m, ⟨(hsame.artifact _).trans hm, hdeadline, hbodies c candidate.artifact⟩, hm⟩

theorem channelLoop_eq (hmatches : s₀.QueueMatches) (hkeys : RocksMetadata.RowKeys s₀.eviction)
    {channels : List ChannelId} (hnodup : channels.Nodup)
    (hactive : ∀ c ∈ channels, ∃ record, s₀.channel c = some record ∧ record.state = .active)
    {l : Locals} (hsame : ∀ c ∈ channels, SameChannel c s.store s₀) (hbodies : Bodies s.disk) :
    ∃ l' s', channelLoop mode tick channels l s = .ok l' s' ∧
      Loops s l (handledChannels mode tick s₀ l.budget channels) l' s' := by
  induction channels generalizing s l with
  | nil => exact ⟨l, s, rfl, Loops.nil s l⟩
  | cons c channels ih =>
    obtain ⟨hnotin, hnodup⟩ := List.nodup_cons.mp hnodup
    unfold channelLoop
    by_cases hexhausted : l.budget.Exhausted
    · rw [if_pos hexhausted, handledChannels_exhausted hexhausted]
      exact ⟨l, s, rfl, Loops.nil s l⟩
    · have hc := hsame c List.mem_cons_self
      obtain ⟨record, hrecord, hstate⟩ := hactive c List.mem_cons_self
      have hexpiry : expirySeconds c s = .ok record.expirySeconds s := by
        have hget : (get : Pass State) s = .ok s s := rfl
        rw [expirySeconds, bind_ok hget, hc.channel, hrecord,
          Option.filter_some_pos (by rw [hstate]; rfl)]
        rfl
      have hcandidates : reclaimCandidates c l.budget.candidates s =
          .ok ((s₀.queue c).take l.budget.candidates) s := by
        have hget : (get : Pass State) s = .ok s s := rfl
        rw [reclaimCandidates, bind_ok hget, hc.reclaimCandidates,
          RocksMetadata.reclaimCandidates_eq_take hkeys]
        rfl
      have hrecorded : record.expirySeconds = (s₀.channel c).elim 0 (·.expirySeconds) := by
        rw [hrecord]
        rfl
      obtain ⟨l₁, stop, s₁, hloop, hloops, hstop⟩ := candidateLoop_eq (l := l) hrecorded
        ((fresh_queue hmatches hkeys hc hbodies).take l.budget.candidates)
      rw [handledRows_take] at hloops
      rw [if_neg hexhausted, bind_ok hexpiry, bind_ok hcandidates, bind_ok hloop]
      dsimp only
      cases hstopped : stop with
      | true =>
        -- the budget that ended this channel is exhausted for the rest, too
        refine ⟨l₁, s₁, rfl, ?_⟩
        rw [handledChannels, ← hloops.budget, handledChannels_exhausted (hstop hstopped), List.append_nil]
        exact hloops
      | false =>
        have hothers : ∀ c' ∈ channels, SameChannel c' s₁.store s₀ := by
          intro c' hc'
          rw [hloops.state]
          refine (sameChannel_applyAll fun p hp hpc => ?_).trans
            (hsame c' (List.mem_cons_of_mem c hc'))
          obtain rfl := (channel_of_mem_handledRows hp).symm.trans hpc
          exact hnotin hc'
        obtain ⟨l', s', hrest, hrests⟩ := ih hnodup
          (fun c' hc' => hactive c' (List.mem_cons_of_mem c hc')) (l := l₁) hothers
          (by rw [hloops.state]; exact hbodies.applyAllDisk _)
        refine ⟨l', s', hrest, ?_⟩
        rw [handledChannels, ← hloops.budget]
        exact hloops.append hrests

/-! ### The channels of a pass -/

theorem mem_activeChannels (h : s₀.Keyed) :
    c ∈ activeChannels s₀ ↔ ∃ record, s₀.channel c = some record ∧ record.state = .active := by
  simp only [activeChannels, RocksMetadata.channelRecords, List.mem_map, List.mem_filter,
    Prod.exists, exists_eq_right, beq_iff_eq]
  constructor
  · rintro ⟨record, ⟨⟨k, hmem⟩, hstate⟩, rfl⟩
    have hk := ExtTreeMap.mem_toList_iff_getElem?_eq_some.mp hmem
    obtain rfl := h k record hk
    exact ⟨record, hk, hstate⟩
  · rintro ⟨record, hrecord, hstate⟩
    refine ⟨record, ⟨⟨c.asKey, ?_⟩, hstate⟩, ?_⟩
    · exact ExtTreeMap.mem_toList_iff_getElem?_eq_some.mpr hrecord
    · exact ChannelId.asKey_inj (h _ _ hrecord).symm

/-- The channels are listed in the order of their keys. -/
theorem sorted_activeChannels (h : s₀.Keyed) :
    (activeChannels s₀).Pairwise fun c d => compare c.asKey d.asKey = .lt := by
  rw [activeChannels, RocksMetadata.channelRecords, List.filter_map, List.map_map,
    List.pairwise_map]
  refine (s₀.channels.ordered_keys_toList.filter _).imp_of_mem ?_
  rintro ⟨k, record⟩ ⟨k', record'⟩ hmem hmem' hlt
  have hk := h k record (ExtTreeMap.mem_toList_iff_getElem?_eq_some.mp (List.mem_of_mem_filter hmem))
  have hk' := h k' record'
    (ExtTreeMap.mem_toList_iff_getElem?_eq_some.mp (List.mem_of_mem_filter hmem'))
  rw [hk, hk'] at hlt
  exact hlt

theorem nodup_activeChannels (h : s₀.Keyed) : (activeChannels s₀).Nodup := by
  refine (sorted_activeChannels h).imp ?_
  rintro c d hlt rfl
  rw [Std.compare_self] at hlt
  cases hlt

/-- The channels in the order of the pass that starts with the cursor. -/
def visited (s₀ : RocksMetadata) (cursor : UInt64) : List ChannelId :=
  (activeChannels s₀).rotate (cursor.toNat % (activeChannels s₀).length)

theorem mem_visited (cursor : UInt64) : c ∈ visited s₀ cursor ↔ c ∈ activeChannels s₀ :=
  List.mem_rotate

theorem nodup_visited (h : s₀.Keyed) (cursor : UInt64) : (visited s₀ cursor).Nodup :=
  List.nodup_rotate.mpr (nodup_activeChannels h)

/-- The cursor stays where it is if there is nothing to visit. -/
def nextCursor (s₀ : RocksMetadata) (cursor : UInt64) : UInt64 :=
  if (activeChannels s₀).isEmpty then cursor else cursor + 1

theorem rotatedChannels_eq (s : State) :
    rotatedChannels s =
      .ok (visited s.store s.cursor) { s with cursor := nextCursor s.store s.cursor } := by
  have hget : (get : Pass State) s = .ok s s := rfl
  rw [rotatedChannels, bind_ok hget, nextCursor]
  cases hempty : (activeChannels s.store).isEmpty with
  | true =>
    rw [visited, List.isEmpty_iff.mp hempty, List.rotate_nil]
    rfl
  | false => rfl

/-- The mode a pass runs in. -/
def passMode (policy : SpacePolicy) (observation : Option UInt64) (space : SpaceLedger.State) :
    SpaceLedger.Mode :=
  (SpaceLedger.mode policy (SpaceLedger.refreshLocked observation space)).1

/-- What a pass needs of the store and of the files: queue and records in bijection, a registry
under its own keys, and no directory where a body belongs. -/
structure Sound (store : RocksMetadata) (disk : FsDisk) : Prop where
  queue : store.QueueMatches
  rows : RocksMetadata.RowKeys store.eviction
  registry : store.Keyed
  bodies : Bodies disk

/-- What a pass processes. -/
def handledPass (policy : SpacePolicy) (reclaimByteLimit : Nat) (tick : Tick) (limit : Nat)
    (s : State) : List Processed :=
  handledChannels (passMode policy tick.observation s.space) tick s.store ⟨limit, reclaimByteLimit⟩
    (visited s.store s.cursor)

/-- A pass returns, and does what `handledPass` says. -/
theorem runMaintenanceOnce_after (h : Sound s.store s.disk) (policy : SpacePolicy)
    (reclaimByteLimit limit : Nat) :
    runMaintenanceOnce policy reclaimByteLimit tick limit s =
      .ok (removals (handledPass policy reclaimByteLimit tick limit s))
        (State.after { s with
          space := (SpaceLedger.mode policy (SpaceLedger.refreshLocked tick.observation s.space)).2
          cursor := nextCursor s.store s.cursor }
          (handledPass policy reclaimByteLimit tick limit s)) := by
  let s₁ : State := { s with
    space := (SpaceLedger.mode policy (SpaceLedger.refreshLocked tick.observation s.space)).2 }
  have hmode : refreshedMode policy tick s = .ok (passMode policy tick.observation s.space) s₁ := rfl
  obtain ⟨l', s', hloop, hloops⟩ := channelLoop_eq
    (s := { s₁ with cursor := nextCursor s.store s.cursor })
    (l := ⟨⟨limit, reclaimByteLimit⟩, 0⟩) h.queue h.rows
    (nodup_visited h.registry s.cursor)
    (fun c hc => (mem_activeChannels h.registry).mp ((mem_visited s.cursor).mp hc))
    (fun c _ => SameChannel.refl c s.store) h.bodies
  rw [runMaintenanceOnce, bind_ok hmode, bind_ok (rotatedChannels_eq s₁), bind_ok hloop]
  have hreclaimed := hloops.reclaimed
  rw [Nat.zero_add] at hreclaimed
  rw [handledPass, ← hreclaimed]
  exact congrArg (EStateM.Result.ok l'.reclaimed) hloops.state

theorem runMaintenanceOnce_eq (h : Sound s.store s.disk) (policy : SpacePolicy)
    (reclaimByteLimit limit : Nat) :
    ∃ s', runMaintenanceOnce policy reclaimByteLimit tick limit s =
        .ok (removals (handledPass policy reclaimByteLimit tick limit s)) s' ∧
      s'.store = applyAll (handledPass policy reclaimByteLimit tick limit s) s.store ∧
      s'.disk = applyAllDisk (handledPass policy reclaimByteLimit tick limit s) s.disk ∧
      s'.cursor = nextCursor s.store s.cursor ∧
      s'.log = s.log ++ handledPass policy reclaimByteLimit tick limit s :=
  ⟨_, runMaintenanceOnce_after h policy reclaimByteLimit limit, rfl, rfl, rfl, rfl⟩

end Refinement

end Maintenance

end Flywheel
