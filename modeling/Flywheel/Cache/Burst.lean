import Flywheel.Cache.Windows

/-!
# Maintenance bursts (`run_maintenance_burst` of `main.rs`)

Under pressure the maintenance worker runs one pass after the other: as long as the ledger says
Reclaiming, and nobody asks for a shutdown. Every pass is followed by a rotation of the recent-use
filters.

The bursts here run on a shard that has nothing else to do. What the passes observe of the disk, of
the clock and of the shutdown is whatever it may be (`Round`).

- `burst_drains`: what a burst has removed as long as it goes on.
- `burst_ends`: when it ends, and what the last pass still knows of recent use.
-/

set_option autoImplicit false

namespace Flywheel

open Lib

namespace SpaceLedger

variable {policy : SpacePolicy} {state : State}

/-- The mode asks for no more than the flag remembers, so that asking again answers the same. -/
theorem mode_mode (hle : policy.lowWatermark ≤ policy.highWatermark) (state : State) :
    mode policy (mode policy state).2 = mode policy state := by
  have havailable : ∀ b, availableLocked policy { state with reclaiming := b } =
      availableLocked policy state := fun b => rfl
  cases hreclaiming : state.reclaiming with
  | true =>
    by_cases hhigh : availableLocked policy state ≥ policy.highWatermark
    · have hlow : ¬ availableLocked policy state < policy.lowWatermark :=
        UInt64.not_lt.mpr (UInt64.le_trans hle hhigh)
      simp [mode, hreclaiming, hhigh, havailable, hlow]
    · simp [mode, hreclaiming, hhigh]
  | false =>
    by_cases hlow : availableLocked policy state < policy.lowWatermark
    · have hhigh : ¬ availableLocked policy state ≥ policy.highWatermark :=
        UInt64.not_le.mpr (UInt64.lt_of_lt_of_le hlow hle)
      simp [mode, hreclaiming, hlow, havailable, hhigh]
    · simp [mode, hreclaiming, hlow]

/-- Only `mode` moves the flag. -/
theorem refreshLocked_reclaiming (observation : Option UInt64) (state : State) :
    (refreshLocked observation state).reclaiming = state.reclaiming := by
  cases observation with
  | none => rfl
  | some free => rfl

/-- The watermarks that the mode speaks of. -/
theorem mode_watermarks (hle : policy.lowWatermark ≤ policy.highWatermark) (state : State) :
    ((mode policy state).1 = .normal ∧ (mode policy state).2.reclaiming = false ∧
      policy.lowWatermark ≤ availableLocked policy (mode policy state).2 ∧
      (state.reclaiming = true →
        policy.highWatermark ≤ availableLocked policy (mode policy state).2)) ∨
    ((mode policy state).1 = .reclaiming ∧ (mode policy state).2.reclaiming = true) := by
  cases hreclaiming : state.reclaiming with
  | true =>
    by_cases hhigh : availableLocked policy state ≥ policy.highWatermark
    · have hmode : mode policy state = (.normal, { state with reclaiming := false }) := by
        simp [mode, hreclaiming, hhigh]
      rw [hmode]
      exact .inl ⟨rfl, rfl, UInt64.le_trans hle hhigh, fun _ => hhigh⟩
    · have hmode : mode policy state = (.reclaiming, state) := by
        simp [mode, hreclaiming, hhigh]
      rw [hmode]
      exact .inr ⟨rfl, hreclaiming⟩
  | false =>
    by_cases hlow : availableLocked policy state < policy.lowWatermark
    · have hmode : mode policy state = (.reclaiming, { state with reclaiming := true }) := by
        simp [mode, hreclaiming, hlow]
      rw [hmode]
      exact .inr ⟨rfl, rfl⟩
    · have hmode : mode policy state = (.normal, state) := by
        simp [mode, hreclaiming, hlow]
      rw [hmode]
      exact .inl ⟨rfl, hreclaiming, UInt64.not_lt.mp hlow, fun h => by cases h⟩

end SpaceLedger

namespace RecentUse

variable {words : Nat} {r : RecentUse words}

/-- Nothing is remembered. -/
def Cold (r : RecentUse words) : Prop := ∀ i, r.filters i = Vector.replicate words 0

theorem Cold.rotate (h : r.Cold) : r.rotate.Cold := by
  intro i
  show Function.update r.filters r.passive (Vector.replicate words 0) i = _
  by_cases hi : i = r.passive
  · rw [hi, Function.update_self]
  · rw [Function.update_of_ne hi, h]

/-- Two rotations forget everything. -/
theorem cold_rotate_rotate (r : RecentUse words) : r.rotate.rotate.Cold := by
  have hback : r.rotate.passive = r.active := by
    show r.active + 1 + 1 = r.active
    generalize r.active = i
    revert i
    decide
  intro i
  show Function.update r.rotate.filters r.rotate.passive (Vector.replicate words 0) i = _
  by_cases hi : i = r.rotate.passive
  · rw [hi, Function.update_self]
  · rw [Function.update_of_ne hi]
    rcases r.eq_active_or_passive i with hactive | hpassive
    · exact absurd (hactive.trans hback.symm) hi
    · show Function.update r.filters r.passive (Vector.replicate words 0) i = _
      rw [hpassive, Function.update_self]

theorem cold_iterate (r : RecentUse words) {k : Nat} (hk : 2 ≤ k) : (rotate^[k] r).Cold := by
  obtain ⟨j, rfl⟩ := Nat.exists_eq_add_of_le hk
  rw [Nat.add_comm, Function.iterate_add_apply]
  induction j with
  | zero => exact r.cold_rotate_rotate
  | succ j ih =>
    rw [Function.iterate_succ_apply']
    exact (ih (Nat.le_add_right 2 j)).rotate

theorem Cold.seen (h : r.Cold) (hwords : 0 < words) (seed : UInt64) : r.seen seed = some false := by
  obtain ⟨b, hseen, hb⟩ := seen_eq hwords r seed
  cases b with
  | false => exact hseen
  | true =>
    obtain ⟨i, hi⟩ := hb.mp rfl
    have hprobe : (positions words seed).head? ≠ none := by simp [positions, probes]
    obtain ⟨p, hp⟩ := Option.ne_none_iff_exists'.mp hprobe
    have hholds := hi p (List.mem_of_mem_head? hp)
    rw [h i] at hholds
    exact absurd hholds (not_holds_replicate words p)

end RecentUse

namespace Maintenance

/-! ## What a pass in Reclaiming mode takes -/

section Drain

variable {policy : SpacePolicy} {reclaimByteLimit limit n : Nat} {tick : Tick} {s s' t : State}
  {c : ChannelId} {s₀ : RocksMetadata}

/-- How many rows wait in the queues of the active channels. -/
def queued (store : RocksMetadata) : Nat :=
  ((activeChannels store).map fun c => (store.queue c).length).sum

theorem sum_ofChannel {channels : List ChannelId} (hnodup : channels.Nodup)
    {processed : List Processed} (h : ∀ p ∈ processed, p.channel ∈ channels) :
    (channels.map fun c => (ofChannel c processed).length).sum = processed.length := by
  induction processed with
  | nil =>
    have hnil : ∀ c, (ofChannel c []).length = 0 := fun c => rfl
    simp [hnil]
  | cons p processed ih =>
    have hcons : ∀ c, (ofChannel c (p :: processed)).length =
        (if p.channel = c then 1 else 0) + (ofChannel c processed).length := by
      intro c
      rw [ofChannel, List.filter_cons]
      by_cases hpc : p.channel = c
      · rw [if_pos (decide_eq_true hpc), if_pos hpc, List.length_cons, Nat.add_comm]
        rfl
      · rw [if_neg (by simpa using hpc), if_neg hpc, Nat.zero_add]
        rfl
    have hone : (channels.map fun c => if p.channel = c then 1 else 0).sum = 1 := by
      rw [List.sum_map_eq_nsmul_single p.channel _ fun c hc _ => if_neg (Ne.symm hc), if_pos rfl,
        List.count_eq_one_of_mem hnodup (h p List.mem_cons_self)]
      rfl
    simp only [hcons]
    rw [List.sum_map_add, hone, ih fun q hq => h q (List.mem_cons_of_mem p hq), List.length_cons,
      Nat.add_comm]

/-- A budget that is left finds the first row there is. -/
theorem handledChannels_eq_nil {budget : Budget} (hbudget : ¬ budget.Exhausted)
    {channels : List ChannelId} (h : handledChannels .reclaiming tick s₀ budget channels = []) :
    ∀ c ∈ channels, s₀.queue c = [] := by
  induction channels with
  | nil => exact fun c hc => by cases hc
  | cons d channels ih =>
    rw [handledChannels] at h
    obtain ⟨hrows, hrest⟩ := List.append_eq_nil_iff.mp h
    have hempty : s₀.queue d = [] := by
      cases hqueue : s₀.queue d with
      | nil => rfl
      | cons candidate rest =>
        rw [hqueue, handledRows_cons, if_neg hbudget, if_neg (by rintro ⟨⟨⟩, -⟩)] at hrows
        cases hrows
    rw [hrows] at hrest
    intro c hc
    rcases List.mem_cons.mp hc with rfl | hc
    · exact hempty
    · exact ih hrest c hc

namespace Passed

/-- The queue of a channel loses at its front what the pass has processed. -/
theorem queue (h : Passed policy reclaimByteLimit limit tick s s' n) (hs : Sound s.store s.disk)
    (hmode : passMode policy tick.observation s.space = .reclaiming) (c : ChannelId) :
    (ofChannel c (handledPass policy reclaimByteLimit tick limit s)).map (·.candidate) ++
      s'.store.queue c = s.store.queue c := by
  have hbefore := RocksMetadata.isQueue_queue hs.rows c
  obtain ⟨rest, hrest⟩ := h.effect.prefixes c _ hbefore
  have hdistinct := distinct_queue hs.queue hs.rows c
  rw [← hrest, List.map_append, List.nodup_append] at hdistinct
  have hafter : IsQueue s'.store c rest := by
    refine ⟨fun candidate => ?_, ?_⟩
    · by_cases hmem : (c, candidate.artifact) ∈
          (handledPass policy reclaimByteLimit tick limit s).map Processed.identity
      · obtain ⟨p, hp, hidentity⟩ := List.mem_map.mp hmem
        obtain ⟨hchannel, hartifact⟩ := Prod.mk.inj hidentity
        have hgone := (h.effect.reclaimed hmode p hp).row candidate.eligibleAt
        rw [hchannel, hartifact] at hgone
        constructor
        · intro hin
          have hfront : p.candidate.artifact ∈
              ((ofChannel c (handledPass policy reclaimByteLimit tick limit s)).map
                (·.candidate)).map (·.artifact) :=
            List.mem_map.mpr ⟨_, List.mem_map.mpr
              ⟨p, List.mem_filter.mpr ⟨hp, decide_eq_true hchannel⟩, rfl⟩, rfl⟩
          exact absurd hartifact (hdistinct.2.2 _ hfront _ (List.mem_map.mpr ⟨_, hin, rfl⟩))
        · intro hrow
          rw [hgone] at hrow
          cases hrow
      · rw [(h.effect.others c candidate.artifact hmem).2, ← hbefore.mem candidate, ← hrest,
          List.mem_append]
        refine ⟨.inr, fun hin => hin.resolve_left fun hfront => hmem ?_⟩
        obtain ⟨p, hp, rfl⟩ := List.mem_map.mp hfront
        obtain ⟨hp, hchannel⟩ := List.mem_filter.mp hp
        exact List.mem_map.mpr ⟨p, hp, Prod.ext (of_decide_eq_true hchannel) rfl⟩
    · exact hbefore.ordered.sublist (hrest ▸ List.sublist_append_right _ _)
  rw [(RocksMetadata.isQueue_queue h.sound.rows c).unique hafter, hrest]

theorem count_eq (h : Passed policy reclaimByteLimit limit tick s s' n)
    (hmode : passMode policy tick.observation s.space = .reclaiming) :
    n = (handledPass policy reclaimByteLimit tick limit s).length := by
  rw [h.count, removals, List.filter_eq_self.mpr]
  intro p hp
  obtain ⟨m, -, hhandled⟩ := (h.effect.reclaimed hmode p hp).length
  rw [hhandled]
  rfl

theorem queued_eq (h : Passed policy reclaimByteLimit limit tick s s' n)
    (hs : Sound s.store s.disk)
    (hmode : passMode policy tick.observation s.space = .reclaiming) :
    queued s'.store + n = queued s.store := by
  have hlength : ∀ c, (s.store.queue c).length = (s'.store.queue c).length +
      (ofChannel c (handledPass policy reclaimByteLimit tick limit s)).length := by
    intro c
    rw [← h.queue hs hmode c, List.length_append, List.length_map, Nat.add_comm]
  have hchannels : ∀ p ∈ handledPass policy reclaimByteLimit tick limit s,
      p.channel ∈ activeChannels s.store := fun p hp =>
    (mem_visited s.cursor).mp (planned_handledChannels p hp).1
  rw [queued, queued, activeChannels_congr h.channels]
  simp only [hlength]
  rw [List.sum_map_add, sum_ofChannel (nodup_activeChannels hs.registry) hchannels,
    h.count_eq hmode]

/-- With something to spend, a pass that takes nothing has found nothing. -/
theorem pos (h : Passed policy reclaimByteLimit limit tick s s' n)
    (hmode : passMode policy tick.observation s.space = .reclaiming) (hlimit : 0 < limit)
    (hbytes : 0 < reclaimByteLimit) (hqueued : 0 < queued s.store) : 0 < n := by
  by_contra hzero
  have hnil : handledPass policy reclaimByteLimit tick limit s = [] :=
    List.length_eq_zero_iff.mp (by rw [← h.count_eq hmode]; exact Nat.eq_zero_of_not_pos hzero)
  have hbudget : ¬ (Budget.mk limit reclaimByteLimit).Exhausted := by
    rintro (hnone | hnone)
    · exact absurd hnone (Nat.ne_of_gt hlimit)
    · exact absurd hnone (Nat.ne_of_gt hbytes)
  rw [handledPass, hmode] at hnil
  have hempty := handledChannels_eq_nil hbudget hnil
  have hsum : queued s.store = 0 := by
    rw [queued, List.sum_eq_zero]
    intro k hk
    obtain ⟨c, hc, rfl⟩ := List.mem_map.mp hk
    rw [hempty c ((mem_visited s.cursor).mpr hc)]
    rfl
  rw [hsum] at hqueued
  exact Nat.lt_irrefl 0 hqueued

end Passed

/-- What passes in Reclaiming mode make of a shard: the rows they processed are gone from the
fronts of their queues, with their records and bodies, and everything else is left. -/
structure Reclaimed (s t : State) (processed : List Processed) : Prop where
  sound : Sound t.store t.disk
  channels : t.store.channels = s.store.channels
  references : t.store.references = s.store.references
  log : t.log = s.log ++ processed
  queue : ∀ c, (ofChannel c processed).map (·.candidate) ++ t.store.queue c = s.store.queue c
  removed : ∀ p ∈ processed, p.handled.isRemoval = true ∧
    t.store.artifact p.channel p.candidate.artifact = none ∧
    t.disk[path p.channel p.candidate.artifact]? = none
  others : ∀ c a, (c, a) ∉ processed.map Processed.identity →
    t.store.artifact c a = s.store.artifact c a ∧ t.disk[path c a]? = s.disk[path c a]?

theorem Reclaimed.refl (h : Sound s.store s.disk) : Reclaimed s s [] where
  sound := h
  channels := rfl
  references := rfl
  log := (List.append_nil _).symm
  queue c := rfl
  removed p hp := by cases hp
  others c a _ := ⟨rfl, rfl⟩

theorem Passed.reclaimed (h : Passed policy reclaimByteLimit limit tick s s' n)
    (hs : Sound s.store s.disk)
    (hmode : passMode policy tick.observation s.space = .reclaiming)
    (hlog : s'.log = s.log ++ handledPass policy reclaimByteLimit tick limit s) :
    Reclaimed s s' (handledPass policy reclaimByteLimit tick limit s) where
  sound := h.sound
  channels := h.channels
  references := h.effect.references
  log := hlog
  queue := h.queue hs hmode
  removed p hp := by
    have hremoved := h.effect.reclaimed hmode p hp
    obtain ⟨m, -, hhandled⟩ := hremoved.length
    refine ⟨?_, hremoved.record, hremoved.body⟩
    rw [hhandled]
    rfl
  others c a hnot := by
    refine ⟨(h.effect.others c a hnot).1, h.effect.files _ fun p hp heq => hnot ?_⟩
    obtain ⟨hchannel, hartifact⟩ := path_inj.mp heq
    exact List.mem_map.mpr ⟨p, hp, Prod.ext hchannel.symm hartifact.symm⟩

theorem Reclaimed.trans {x y : List Processed} (h : Reclaimed s s' x) (h' : Reclaimed s' t y) :
    Reclaimed s t (x ++ y) where
  sound := h'.sound
  channels := h'.channels.trans h.channels
  references := h'.references.trans h.references
  log := by rw [h'.log, h.log, List.append_assoc]
  queue c := by
    rw [ofChannel_append, List.map_append, List.append_assoc, h'.queue, h.queue]
  removed p hp := by
    rcases List.mem_append.mp hp with hp | hp
    · obtain ⟨hremoval, hrecord, hbody⟩ := h.removed p hp
      by_cases hagain : (p.channel, p.candidate.artifact) ∈ y.map Processed.identity
      · obtain ⟨q, hq, hidentity⟩ := List.mem_map.mp hagain
        obtain ⟨hchannel, hartifact⟩ := Prod.mk.inj hidentity
        have hgone := (h'.removed q hq).2
        rw [hchannel, hartifact] at hgone
        exact ⟨hremoval, hgone⟩
      · obtain ⟨hsame, hsameBody⟩ := h'.others _ _ hagain
        exact ⟨hremoval, hsame.trans hrecord, hsameBody.trans hbody⟩
    · exact h'.removed p hp
  others c a hnot := by
    rw [List.map_append, List.mem_append, not_or] at hnot
    obtain ⟨hx, hy⟩ := hnot
    obtain ⟨hrecord, hbody⟩ := h.others c a hx
    obtain ⟨hrecord', hbody'⟩ := h'.others c a hy
    exact ⟨hrecord'.trans hrecord, hbody'.trans hbody⟩

end Drain

end Maintenance

namespace Node

/-! ## Bursts -/

/-- What the world brings to one round of a burst: to its pass, and afterwards. -/
structure Round where
  observation : Option UInt64
  now : UInt64
  /-- The shutdown has been asked for when the pass is over. -/
  cancelled : Bool
  /-- It is asked for while the worker waits before the next round. -/
  interrupted : Bool

inductive BurstEnd where
  | failed (error : Maintenance.CacheError)
  /-- The ledger no longer says Reclaiming. -/
  | settled
  | cancelled
  deriving DecidableEq

section Burst

variable {words : Nat} (hash : ChannelId → ArtifactId → UInt64) (policy : SpacePolicy)
  (config : Config)

/-- `is_reclaiming` asks the ledger, whose flag may move with the answer. -/
def isReclaiming (x : Node words) : Bool × Node words :=
  let (mode, space) := SpaceLedger.mode policy x.cache.space
  (mode == .reclaiming, { x with cache.space := space })

/-- `run_maintenance_burst`, and what each pass returned. Without an end it is still going when
the rounds are over. -/
def runMaintenanceBurst : List Round → Node words → Option BurstEnd × List Nat × Node words
  | [], x => (none, [], x)
  | round :: rest, x =>
    match runMaintenanceOnce hash policy config round.observation round.now x with
    | (.error error, x) => (some (.failed error), [], x)
    | (.ok reclaimed, x) =>
      let (reclaiming, x) := x.isReclaiming policy
      if !reclaiming then (some .settled, [reclaimed], x)
      else if round.cancelled then (some .cancelled, [reclaimed], x)
      -- only a pass that reclaimed nothing is followed by a wait
      else if reclaimed = 0 ∧ round.interrupted then (some .cancelled, [reclaimed], x)
      else
        let (result, counts, x) := runMaintenanceBurst rest x
        (result, reclaimed :: counts, x)

/-- What the pass of a round takes from its surroundings. -/
def tick (x : Node words) (round : Round) : Maintenance.Tick :=
  ⟨round.observation, round.now, fun c a => x.recentUse.seen (hash c a) == some true⟩

end Burst

section Bursts

open Maintenance

variable {words : Nat} {hash : ChannelId → ArtifactId → UInt64} {policy : SpacePolicy}
  {config : Config} {round : Round} {rounds : List Round} {counts : List Nat} {x y : Node words}

/-- The mode of the pass of a round. -/
def roundMode (policy : SpacePolicy) (x : Node words) (round : Round) : SpaceLedger.Mode :=
  passMode policy round.observation x.cache.space

/-- A round's pass has returned `n` and left the shard as `y`. -/
structure Ran (hash : ChannelId → ArtifactId → UInt64) (policy : SpacePolicy) (config : Config)
    (x : Node words) (round : Round) (n : Nat) (y : Node words) : Prop where
  passed : Passed policy config.reclaimByteLimit.toNat config.reclaimCandidateLimit
    (x.tick hash round) x.cache y.cache n
  space : y.cache.space =
    (SpaceLedger.mode policy (SpaceLedger.refreshLocked round.observation x.cache.space)).2
  log : y.cache.log = x.cache.log ++ handledPass policy config.reclaimByteLimit.toNat
    (x.tick hash round) config.reclaimCandidateLimit x.cache
  recentUse : y.recentUse = x.recentUse.rotate

theorem runMaintenanceOnce_ran (hash : ChannelId → ArtifactId → UInt64) (policy : SpacePolicy)
    (config : Config) (h : Sound x.cache.store x.cache.disk) (round : Round) :
    ∃ n y, runMaintenanceOnce hash policy config round.observation round.now x = (.ok n, y) ∧
      Ran hash policy config x round n y := by
  have hrun := @runMaintenanceOnce_after (x.tick hash round) x.cache h policy
    config.reclaimByteLimit.toNat config.reclaimCandidateLimit
  have hcall : ∀ {n s}, Maintenance.runMaintenanceOnce policy config.reclaimByteLimit.toNat
      (x.tick hash round) config.reclaimCandidateLimit x.cache = .ok n s →
      runMaintenanceOnce hash policy config round.observation round.now x =
        (.ok n, ⟨s, x.recentUse.rotate⟩) := by
    intro n s hok
    unfold tick at hok
    simp only [runMaintenanceOnce, hok]
  exact ⟨_, _, hcall hrun, passed_of_run h hrun, rfl, rfl, rfl⟩

/-- Nothing has happened to the ledger since the pass asked it. -/
theorem Ran.isReclaiming (hle : policy.lowWatermark ≤ policy.highWatermark) {n : Nat}
    (h : Ran hash policy config x round n y) :
    y.isReclaiming policy = (roundMode policy x round == .reclaiming, y) := by
  have hsame : SpaceLedger.mode policy y.cache.space =
      (roundMode policy x round, y.cache.space) := by
    rw [h.space, SpaceLedger.mode_mode hle]
    rfl
  rw [Node.isReclaiming, hsame]

/-- How a burst goes on after its first pass. -/
theorem runMaintenanceBurst_cons (hle : policy.lowWatermark ≤ policy.highWatermark) {n : Nat}
    (hcall : runMaintenanceOnce hash policy config round.observation round.now x = (.ok n, y))
    (hran : Ran hash policy config x round n y) (rest : List Round) :
    runMaintenanceBurst hash policy config (round :: rest) x =
      if roundMode policy x round = .normal then (some .settled, [n], y)
      else if round.cancelled ∨ (n = 0 ∧ round.interrupted) then (some .cancelled, [n], y)
      else
        let (result, counts, z) := runMaintenanceBurst hash policy config rest y
        (result, n :: counts, z) := by
  rw [runMaintenanceBurst, hcall]
  dsimp only
  rw [hran.isReclaiming hle]
  dsimp only
  cases hmode : roundMode policy x round with
  | normal => rfl
  | reclaiming =>
    have hnot : ¬ SpaceLedger.Mode.reclaiming = .normal := by decide
    have hon : ¬ (!(SpaceLedger.Mode.reclaiming == .reclaiming)) = true := by decide
    rw [if_neg hon, if_neg hnot]
    by_cases hcancelled : round.cancelled = true
    · rw [if_pos hcancelled, if_pos (.inl hcancelled)]
    · rw [if_neg hcancelled]
      by_cases hwait : n = 0 ∧ round.interrupted = true
      · rw [if_pos hwait, if_pos (.inr hwait)]
      · rw [if_neg hwait, if_neg (not_or.mpr ⟨hcancelled, hwait⟩)]

/-- What a burst has done as long as it is still going. -/
structure Going (config : Config) (x y : Node words) (counts : List Nat) (processed : List Processed) :
    Prop where
  reclaimed : Reclaimed x.cache y.cache processed
  count : counts.sum = processed.length
  queued : queued y.cache.store + counts.sum = queued x.cache.store
  progress : 0 < config.reclaimByteLimit.toNat → 0 < config.reclaimCandidateLimit →
    min counts.length (Maintenance.queued x.cache.store) ≤ counts.sum ∧
      (0 ∈ counts → Maintenance.queued y.cache.store = 0)
  flag : x.cache.space.reclaiming = true ∨ counts ≠ [] → y.cache.space.reclaiming = true
  rotated : y.recentUse = RecentUse.rotate^[counts.length] x.recentUse

theorem Going.refl (config : Config) (h : Sound x.cache.store x.cache.disk) :
    Going config x x [] [] where
  reclaimed := .refl h
  count := rfl
  queued := rfl
  progress _ _ := by
    refine ⟨?_, fun h => by cases h⟩
    show min 0 _ ≤ 0
    omega
  flag h := h.resolve_right fun hne => hne rfl
  rotated := rfl

theorem Ran.going {n : Nat} {z : Node words} {processed : List Processed}
    (h : Ran hash policy config x round n y) (hs : Sound x.cache.store x.cache.disk)
    (hle : policy.lowWatermark ≤ policy.highWatermark)
    (hmode : roundMode policy x round = .reclaiming) (hrest : Going config y z counts processed) :
    ∃ processed, Going config x z (n :: counts) processed := by
  have hqueued := h.passed.queued_eq hs hmode
  refine ⟨_, (h.passed.reclaimed hs hmode h.log).trans hrest.reclaimed, ?_, ?_, ?_, ?_, ?_⟩
  · rw [List.sum_cons, List.length_append, hrest.count, ← h.passed.count_eq hmode]
  · have hafter := hrest.queued
    rw [List.sum_cons]
    omega
  · intro hbytes hlimit
    obtain ⟨hleast, hzero⟩ := hrest.progress hbytes hlimit
    have hpos := h.passed.pos hmode hlimit hbytes
    have hafter := hrest.queued
    refine ⟨?_, fun hmem => ?_⟩
    · rw [List.sum_cons, List.length_cons]
      omega
    · rcases List.mem_cons.mp hmem with hn | hmem
      · omega
      · exact hzero hmem
  · intro _
    refine hrest.flag (.inl ?_)
    rw [h.space]
    rcases SpaceLedger.mode_watermarks hle
      (SpaceLedger.refreshLocked round.observation x.cache.space) with ⟨hnormal, -⟩ | ⟨-, hflag⟩
    · cases hmode.symm.trans hnormal
    · exact hflag
  · rw [hrest.rotated, h.recentUse, List.length_cons, Function.iterate_succ_apply]

theorem roundMode_eq_reclaiming (h : roundMode policy x round ≠ .normal) :
    roundMode policy x round = .reclaiming := by
  cases hmode : roundMode policy x round with
  | normal => exact absurd hmode h
  | reclaiming => rfl

/-- Every pass of a burst that is still going ran in Reclaiming mode. -/
theorem going_of_burst (hle : policy.lowWatermark ≤ policy.highWatermark)
    (h : Sound x.cache.store x.cache.disk)
    (hburst : runMaintenanceBurst hash policy config rounds x = (none, counts, y)) :
    counts.length = rounds.length ∧ ∃ processed, Going config x y counts processed := by
  induction rounds generalizing x counts with
  | nil =>
    cases hburst
    exact ⟨rfl, [], .refl config h⟩
  | cons round rest ih =>
    obtain ⟨n, z, hcall, hran⟩ :=
      runMaintenanceOnce_ran hash policy config h round
    rw [runMaintenanceBurst_cons hle hcall hran] at hburst
    split at hburst
    · cases hburst
    · rename_i hmode
      split at hburst
      · cases hburst
      · obtain ⟨hend, hcounts⟩ := Prod.mk.inj hburst
        obtain ⟨hcounts, hy⟩ := Prod.mk.inj hcounts
        have hrest : runMaintenanceBurst hash policy config rest z =
            (none, (runMaintenanceBurst hash policy config rest z).2.1, y) := by
          rw [← hend, ← hy]
        obtain ⟨hlength, processed, hgoing⟩ := ih hran.passed.sound hrest
        rw [← hcounts]
        refine ⟨by rw [List.length_cons, List.length_cons, hlength], ?_⟩
        exact hran.going h hle (roundMode_eq_reclaiming hmode) hgoing

/-- A burst that ends does so with the pass that does not let it go on. -/
structure Ended (hash : ChannelId → ArtifactId → UInt64) (policy : SpacePolicy) (config : Config)
    (rounds : List Round) (x y : Node words) (result : BurstEnd) (counts : List Nat) : Prop where
  last : ∃ earlier n z round processed, counts = earlier ++ [n] ∧ round ∈ rounds ∧
    Going config x z earlier processed ∧ Ran hash policy config z round n y ∧
    (result = .settled ∧ roundMode policy z round = .normal ∨
      result = .cancelled ∧ roundMode policy z round = .reclaiming ∧
        (round.cancelled = true ∨ round.interrupted = true))

theorem ended_of_burst (hle : policy.lowWatermark ≤ policy.highWatermark)
    (h : Sound x.cache.store x.cache.disk) {result : BurstEnd}
    (hburst : runMaintenanceBurst hash policy config rounds x = (some result, counts, y)) :
    Ended hash policy config rounds x y result counts := by
  induction rounds generalizing x counts with
  | nil => cases hburst
  | cons round rest ih =>
    obtain ⟨n, z, hcall, hran⟩ :=
      runMaintenanceOnce_ran hash policy config h round
    rw [runMaintenanceBurst_cons hle hcall hran] at hburst
    split at hburst
    · rename_i hmode
      cases hburst
      exact ⟨[], n, x, round, [], rfl, List.mem_cons_self, .refl config h, hran,
        .inl ⟨rfl, hmode⟩⟩
    · rename_i hmode
      split at hburst
      · rename_i hcancelled
        cases hburst
        exact ⟨[], n, x, round, [], rfl, List.mem_cons_self, .refl config h, hran,
          .inr ⟨rfl, roundMode_eq_reclaiming hmode, hcancelled.imp_right And.right⟩⟩
      · obtain ⟨hend, hcounts⟩ := Prod.mk.inj hburst
        obtain ⟨hcounts, hy⟩ := Prod.mk.inj hcounts
        have hrest : runMaintenanceBurst hash policy config rest z =
            (some result, (runMaintenanceBurst hash policy config rest z).2.1, y) := by
          rw [← hend, ← hy]
        obtain ⟨earlier, m, w, last, processed, hearlier, hmem, hgoing, hlast, hresult⟩ :=
          (ih hran.passed.sound hrest).last
        obtain ⟨processed', hgoing'⟩ := hran.going h hle (roundMode_eq_reclaiming hmode) hgoing
        refine ⟨n :: earlier, m, w, last, processed', ?_, List.mem_cons_of_mem _ hmem, hgoing',
          hlast, hresult⟩
        rw [← hcounts, hearlier]
        rfl

/-! ## What bursts come to -/

/-- The policy of a shard with this configuration. -/
def spacePolicy (config : Config) (emergencyHeadroom : UInt64) : SpacePolicy :=
  ⟨config.lowWatermarkBytes, config.highWatermarkBytes, emergencyHeadroom⟩

/-- No record without a row. -/
theorem artifact_none_of_queue {store : RocksMetadata} {disk : FsDisk} (h : Sound store disk)
    {c : ChannelId} (hqueue : store.queue c = []) (a : ArtifactId) : store.artifact c a = none := by
  cases hartifact : store.artifact c a with
  | none => rfl
  | some m =>
    have hrow := (h.queue c a m.eligibleAt).mpr ⟨m, hartifact, rfl⟩
    have hmem : (⟨m.eligibleAt, a⟩ : Candidate) ∈ store.queue c :=
      (RocksMetadata.mem_queue h.rows).mpr hrow
    rw [hqueue] at hmem
    cases hmem

/-- **A burst drains the queues.** Whatever the disk reports, a burst that is still going after some
rounds has removed, oldest first, at least a row for each round, or all there were; what it has not
removed is as it was, and it waits only when nothing is left. -/
theorem burst_drains (parse : String → Except String Config.UrlShape) (config : Config)
    (hvalid : config.validate parse = .ok ()) (hbytes : 0 < config.reclaimByteLimit)
    (emergencyHeadroom : UInt64) (h : Sound x.cache.store x.cache.disk)
    (hburst : runMaintenanceBurst hash (spacePolicy config emergencyHeadroom) config rounds x =
      (none, counts, y)) :
    ∃ processed, Reclaimed x.cache y.cache processed ∧ processed.length = counts.sum ∧
      min rounds.length (queued x.cache.store) ≤ processed.length ∧
      (0 ∈ counts → queued y.cache.store = 0) ∧
      (queued x.cache.store ≤ rounds.length →
        ∀ c ∈ activeChannels x.cache.store, ∀ a, y.cache.store.artifact c a = none) := by
  have hle : config.lowWatermarkBytes ≤ config.highWatermarkBytes :=
    Config.watermarks_le parse hvalid
  obtain ⟨hlength, processed, hgoing⟩ := going_of_burst hle h hburst
  obtain ⟨hprogress, hzero⟩ := hgoing.progress (UInt64.lt_iff_toNat_lt.mp hbytes)
    (Config.maintenance_pos parse hvalid).2
  rw [hlength, hgoing.count] at hprogress
  refine ⟨processed, hgoing.reclaimed, hgoing.count.symm, hprogress, hzero, fun hrounds c hc a => ?_⟩
  have hqueued := hgoing.queued
  have hnone : queued y.cache.store = 0 := by
    rw [hgoing.count] at hqueued
    omega
  refine artifact_none_of_queue hgoing.reclaimed.sound ?_ a
  have hcy : c ∈ activeChannels y.cache.store := by
    rw [activeChannels_congr hgoing.reclaimed.channels]
    exact hc
  exact List.length_eq_zero_iff.mp
    (List.sum_eq_zero_iff_forall_eq_nat.mp hnone _ (List.mem_map.mpr ⟨c, hcy, rfl⟩))

/-- A burst whose one round finds the disk full has removed the one artifact. -/
theorem onlyState_drained : ∃ (counts : List Nat) (y : Node (wordsFor (sampleConfig 604800).bloomBits)),
    runMaintenanceBurst (fun _ _ => 7) (spacePolicy (sampleConfig 604800) 0) (sampleConfig 604800)
      [⟨some 100, 7, false, false⟩] ⟨onlyState, RecentUse.new _⟩ = (none, counts, y) ∧
    ∀ a, y.cache.store.artifact .default a = none := by
  let x : Node (wordsFor (sampleConfig 604800).bloomBits) := ⟨onlyState, RecentUse.new _⟩
  obtain ⟨n, y, hcall, hran⟩ := runMaintenanceOnce_ran (x := x) (fun _ _ => 7)
    (spacePolicy (sampleConfig 604800) 0) (sampleConfig 604800) sound_onlyState ⟨some 100, 7, false, false⟩
  have hburst : runMaintenanceBurst (fun _ _ => 7) (spacePolicy (sampleConfig 604800) 0)
      (sampleConfig 604800) [⟨some 100, 7, false, false⟩] x = (none, [n], y) := by
    rw [runMaintenanceBurst_cons (by decide) hcall hran, if_neg (by decide), if_neg (by simp)]
    rfl
  have hqueued : queued onlyState.store ≤ 1 := by
    rw [queued, activeChannels_onlyState, List.map_singleton, List.sum_singleton,
      (RocksMetadata.isQueue_queue sound_onlyState.rows .default).unique isQueue_onlyState]
    exact Nat.le_refl 1
  obtain ⟨processed, -, -, -, -, hgone⟩ := burst_drains sampleParse (sampleConfig 604800)
    sampleConfig_valid (by decide) 0 (x := x) sound_onlyState hburst
  refine ⟨[n], y, hburst, hgone hqueued .default ?_⟩
  show ChannelId.default ∈ activeChannels onlyState.store
  rw [activeChannels_onlyState]
  exact List.mem_singleton.mpr rfl

/-- **How a burst ends.** No pass fails. A burst ends with the high watermark restored, if it was
ever reclaiming, or with a shutdown; and from its third pass on, it has forgotten all recent use, so
that it removes every row it processes, in Normal mode, too. -/
theorem burst_ends (parse : String → Except String Config.UrlShape) (config : Config)
    (hvalid : config.validate parse = .ok ()) (emergencyHeadroom : UInt64)
    {x y : Node (wordsFor config.bloomBits)} (h : Sound x.cache.store x.cache.disk)
    {result : BurstEnd}
    (hburst : runMaintenanceBurst hash (spacePolicy config emergencyHeadroom) config rounds x =
      (some result, counts, y)) :
    let available := SpaceLedger.availableLocked (spacePolicy config emergencyHeadroom) y.cache.space
    (result = .settled ∧ y.cache.space.reclaiming = false ∧ config.lowWatermarkBytes ≤ available ∧
        (x.cache.space.reclaiming = true ∨ 2 ≤ counts.length →
          config.highWatermarkBytes ≤ available) ∨
      result = .cancelled ∧ y.cache.space.reclaiming = true ∧
        ∃ round ∈ rounds, round.cancelled = true ∨ round.interrupted = true) ∧
    ∃ processed, y.cache.log = x.cache.log ++ processed ∧ removals processed = counts.sum ∧
      (3 ≤ counts.length → ∀ p ∈ processed, p.handled.isRemoval = true) := by
  have hle : config.lowWatermarkBytes ≤ config.highWatermarkBytes :=
    Config.watermarks_le parse hvalid
  obtain ⟨earlier, n, z, round, processed, rfl, hmem, hgoing, hran, hresult⟩ :=
    (ended_of_burst hle h hburst).last
  have hflag : x.cache.space.reclaiming = true ∨ 2 ≤ (earlier ++ [n]).length →
      (SpaceLedger.refreshLocked round.observation z.cache.space).reclaiming = true := by
    intro hbefore
    rw [SpaceLedger.refreshLocked_reclaiming]
    refine hgoing.flag (hbefore.imp_right ?_)
    intro hlength hnil
    rw [hnil] at hlength
    exact absurd hlength (Nat.lt_irrefl 1)
  refine ⟨?_, processed ++ handledPass (spacePolicy config emergencyHeadroom)
    config.reclaimByteLimit.toNat (z.tick hash round) config.reclaimCandidateLimit z.cache, ?_, ?_, ?_⟩
  · rw [hran.space]
    have hwatermarks := @SpaceLedger.mode_watermarks (spacePolicy config emergencyHeadroom) hle
      (SpaceLedger.refreshLocked round.observation z.cache.space)
    rcases hresult with ⟨rfl, hmode⟩ | ⟨rfl, hmode, hcancelled⟩
    · rcases hwatermarks with ⟨-, hdown, hlow, hhigh⟩ | ⟨hup, -⟩
      · exact .inl ⟨rfl, hdown, hlow, fun hbefore => hhigh (hflag hbefore)⟩
      · cases hup.symm.trans hmode
    · rcases hwatermarks with ⟨hdown, -⟩ | ⟨-, hup⟩
      · cases hdown.symm.trans hmode
      · exact .inr ⟨rfl, hup, round, hmem, hcancelled⟩
  · rw [hran.log, hgoing.reclaimed.log, List.append_assoc]
  · have hall : removals processed = processed.length := by
      rw [removals, List.filter_eq_self.mpr fun p hp => (hgoing.reclaimed.removed p hp).1]
    have hsum : removals (processed ++ handledPass (spacePolicy config emergencyHeadroom)
        config.reclaimByteLimit.toNat (z.tick hash round) config.reclaimCandidateLimit z.cache) =
          removals processed + n := by
      rw [hran.passed.count, removals, List.filter_append, List.length_append]
      rfl
    rw [hsum, hall, ← hgoing.count, List.sum_append, List.sum_singleton]
  · intro hthree p hp
    rw [List.length_append, List.length_singleton] at hthree
    rcases List.mem_append.mp hp with hp | hp
    · exact (hgoing.reclaimed.removed p hp).1
    · have hremoved : Maintenance.Removed z.cache.store y.cache.store y.cache.disk p := by
        cases hmode : roundMode (spacePolicy config emergencyHeadroom) z round with
        | reclaiming => exact hran.passed.effect.reclaimed hmode p hp
        | normal =>
          refine hran.passed.effect.unseen hmode p hp ?_
          have hcold : z.recentUse.Cold := by
            rw [hgoing.rotated]
            exact RecentUse.cold_iterate _ (by omega)
          show (z.recentUse.seen (hash p.channel p.candidate.artifact) == some true) = false
          rw [hcold.seen (wordsFor_pos (Config.maintenance_pos parse hvalid).1)]
          rfl
      obtain ⟨m, -, hhandled⟩ := hremoved.length
      rw [hhandled]
      rfl

/-- The second round finds the disk empty again. -/
theorem onlyState_restored :
    ∃ (counts : List Nat) (y : Node (wordsFor (sampleConfig 604800).bloomBits)),
      runMaintenanceBurst (fun _ _ => 7) (spacePolicy (sampleConfig 604800) 0) (sampleConfig 604800)
        [⟨some 100, 7, false, false⟩, ⟨some 8589934592, 8, false, false⟩]
        ⟨onlyState, RecentUse.new _⟩ = (some .settled, counts, y) ∧
      (sampleConfig 604800).highWatermarkBytes ≤
        SpaceLedger.availableLocked (spacePolicy (sampleConfig 604800) 0) y.cache.space := by
  let x : Node (wordsFor (sampleConfig 604800).bloomBits) := ⟨onlyState, RecentUse.new _⟩
  obtain ⟨n, y, hcall, hran⟩ := runMaintenanceOnce_ran (x := x) (fun _ _ => 7)
    (spacePolicy (sampleConfig 604800) 0) (sampleConfig 604800) sound_onlyState ⟨some 100, 7, false, false⟩
  obtain ⟨m, z, hcall', hran'⟩ := runMaintenanceOnce_ran (fun _ _ => 7)
    (spacePolicy (sampleConfig 604800) 0) (sampleConfig 604800) hran.passed.sound ⟨some 8589934592, 8, false, false⟩
  have hmode : roundMode (spacePolicy (sampleConfig 604800) 0) y
      ⟨some 8589934592, 8, false, false⟩ = .normal := by
    rw [roundMode, hran.space]
    decide
  have hburst : runMaintenanceBurst (fun _ _ => 7) (spacePolicy (sampleConfig 604800) 0)
      (sampleConfig 604800) [⟨some 100, 7, false, false⟩, ⟨some 8589934592, 8, false, false⟩] x =
        (some .settled, [n, m], z) := by
    rw [runMaintenanceBurst_cons (by decide) hcall hran, if_neg (by decide), if_neg (by simp),
      runMaintenanceBurst_cons (by decide) hcall' hran', if_pos hmode]
  obtain ⟨hend, -⟩ := burst_ends sampleParse (sampleConfig 604800) sampleConfig_valid 0 (x := x)
    sound_onlyState hburst
  rcases hend with ⟨-, -, -, hhigh⟩ | ⟨hcancelled, -⟩
  · exact ⟨[n, m], z, hburst, hhigh (.inr (Nat.le_refl 2))⟩
  · cases hcancelled

end Bursts

end Node

end Flywheel
