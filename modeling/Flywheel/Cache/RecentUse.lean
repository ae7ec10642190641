import Flywheel.Cache.Passes
import Flywheel.Config
import Flywheel.Lib.Bits
import Mathlib.Logic.Relation

/-!
# Recent use (`src/cache/recent_use.rs`)

Two Bloom filters of one width: a lookup that hits marks the active one, a rotation clears the
other and makes it active. A mark is therefore seen until the second rotation after it
(`InWindow`, `Remembered`), and a pass in Normal mode requeues what is seen.

A filter is a vector of words; an access outside it would panic and is `none` here. The number of
bits is that of the words, for which the vector has been allocated, so it is below `2 ^ 64`. The
hash of a channel and a digest is a parameter.
-/

set_option autoImplicit false

namespace Flywheel

open Lib Std

/-! ## The filters -/

/-- `PROBES`. -/
def probes : Nat := 4

/-- `bits.div_ceil(64)`. -/
def wordsFor (bits : Nat) : Nat := (bits + 63) / 64

theorem wordsFor_pos {bits : Nat} (h : 0 < bits) : 0 < wordsFor bits := by
  unfold wordsFor
  omega

structure RecentUse (words : Nat) where
  filters : Fin 2 → Vector UInt64 words
  /-- Only `0` and `1` are ever stored. -/
  active : Fin 2

namespace RecentUse

variable {words : Nat} (r : RecentUse words) (seed : UInt64)

def new (words : Nat) : RecentUse words := ⟨fun _ => Vector.replicate words 0, 0⟩

/-- `positions`, from the hash of the element. -/
def positions (words : Nat) (seed : UInt64) : List Nat :=
  let start := seed &&& 0xffffffff
  let step := (seed >>> 32) ||| 1
  (List.range probes).map fun probe => (start + step * UInt64.ofNat probe).toNat % (words * 64)

def mark : Option (RecentUse words) :=
  ((positions words seed).foldlM setBit (r.filters r.active)).map fun filter =>
    { r with filters := Function.update r.filters r.active filter }

def contains (filter : Fin 2) : Option Bool := allBits (r.filters filter) (positions words seed)

def seen : Option Bool := do if ← r.contains seed 0 then some true else r.contains seed 1

/-- `(active & 1) ^ 1`. -/
def passive : Fin 2 := r.active + 1

def rotate : RecentUse words where
  filters := Function.update r.filters r.passive (Vector.replicate words 0)
  active := r.passive

/-! ## What a filter remembers -/

/-- The element was marked in filter `i`, or others cover its positions. -/
def Marked (i : Fin 2) : Prop := ∀ p ∈ positions words seed, Holds (r.filters i) p

/-- Marked since the last rotation. -/
def InWindow : Prop := r.Marked seed r.active

/-- Marked since the rotation before the last one. -/
def Remembered : Prop := ∃ i, r.Marked seed i

variable {r seed}

/-- Every probe falls into the vector. -/
theorem positions_lt (hwords : 0 < words) (seed : UInt64) :
    ∀ p ∈ positions words seed, p < words * 64 := by
  intro p hp
  obtain ⟨probe, -, rfl⟩ := List.mem_map.mp hp
  exact Nat.mod_lt _ (Nat.mul_pos hwords (by decide))

theorem active_ne_passive (r : RecentUse words) : r.active ≠ r.passive := by
  unfold passive
  generalize r.active = i
  revert i
  decide

theorem eq_active_or_passive (r : RecentUse words) (i : Fin 2) : i = r.active ∨ i = r.passive := by
  unfold passive
  generalize r.active = j
  revert i j
  decide

/-- What marking does to the bits. -/
theorem mark_holds (hwords : 0 < words) (r : RecentUse words) (seed : UInt64) :
    ∃ r', r.mark seed = some r' ∧ r'.active = r.active ∧
      (∀ p, Holds (r'.filters r.active) p ↔ p ∈ positions words seed ∨ Holds (r.filters r.active) p) ∧
      r'.filters r.passive = r.filters r.passive := by
  obtain ⟨filter, hset, hfilter⟩ := setBits_holds (w := r.filters r.active)
    (positions_lt hwords seed)
  refine ⟨{ r with filters := Function.update r.filters r.active filter }, ?_, rfl, fun p => ?_, ?_⟩
  · rw [mark, hset]
    rfl
  · show Holds (Function.update r.filters r.active filter r.active) p ↔ _
    rw [Function.update_self]
    exact hfilter p
  · exact Function.update_of_ne r.active_ne_passive.symm _ _

/-- Marking marks, and forgets nothing. -/
theorem mark_eq (hwords : 0 < words) : ∃ r', r.mark seed = some r' ∧ r'.active = r.active ∧
    r'.InWindow seed ∧ ∀ seed' i, r.Marked seed' i → r'.Marked seed' i := by
  obtain ⟨r', hmark, hactive, hset, hother⟩ := mark_holds hwords r seed
  refine ⟨r', hmark, hactive, fun p hp => ?_, fun seed' i hmarked p hp => ?_⟩
  · rw [hactive, hset]
    exact .inl hp
  · obtain rfl | rfl := r.eq_active_or_passive i
    · rw [hset]
      exact .inr (hmarked p hp)
    · rw [hother]
      exact hmarked p hp

theorem InWindow.remembered (h : r.InWindow seed) : r.Remembered seed := ⟨r.active, h⟩

/-- Reading answers whether some filter has all positions. -/
theorem seen_eq (hwords : 0 < words) (r : RecentUse words) (seed : UInt64) :
    ∃ b, r.seen seed = some b ∧ (b = true ↔ r.Remembered seed) := by
  obtain ⟨b, hb, hmarked⟩ := allBits_eq (w := r.filters 0) (positions_lt hwords seed)
  obtain ⟨b', hb', hmarked'⟩ := allBits_eq (w := r.filters 1) (positions_lt hwords seed)
  rw [seen, contains, hb]
  cases b with
  | true => exact ⟨true, rfl, fun _ => ⟨0, hmarked.mp rfl⟩, fun _ => rfl⟩
  | false =>
    refine ⟨b', hb', fun h => ⟨1, hmarked'.mp h⟩, ?_⟩
    rintro ⟨i, hi⟩
    have htwo : ∀ i : Fin 2, i = 0 ∨ i = 1 := by decide
    obtain rfl | rfl := htwo i
    · exact absurd (hmarked.mpr hi) Bool.false_ne_true
    · exact hmarked'.mpr hi

/-- There are no false negatives. -/
theorem seen_of_remembered (hwords : 0 < words) (h : r.Remembered seed) :
    r.seen seed = some true := by
  obtain ⟨b, hseen, hb⟩ := seen_eq hwords r seed
  rw [hseen, hb.mpr h]

/-- A mark of the current window outlives the rotation. -/
theorem InWindow.rotate (h : r.InWindow seed) : r.rotate.Remembered seed := by
  refine ⟨r.active, fun p hp => ?_⟩
  show Holds (Function.update r.filters r.passive (Vector.replicate words 0) r.active) p
  rw [Function.update_of_ne r.active_ne_passive]
  exact h p hp

end RecentUse

/-! ## A pass keeps what it has seen -/

namespace Maintenance

/-- The artifact keeps its record, up to the deadline, and its body. -/
structure Kept (c : ChannelId) (a : ArtifactId) (s₀ s : State) : Prop where
  record : ∀ m, s₀.store.artifact c a = some m →
    ∃ deadline, s.store.artifact c a = some { m with eligibleAt := deadline }
  body : s.disk[path c a]? = s₀.disk[path c a]?

section Seen

variable {tick : Tick} {c : ChannelId} {a : ArtifactId} {s₀ : State}

theorem Kept.refl (c : ChannelId) (a : ArtifactId) (s : State) : Kept c a s s :=
  ⟨fun m hm => ⟨m.eligibleAt, hm⟩, rfl⟩

/-- A part of the pass that keeps the artifact, however it ends. -/
def Keeps (c : ChannelId) (a : ArtifactId) (s₀ : State) {α : Type} (m : Pass α) : Prop :=
  Always (Kept c a s₀) m (Kept c a s₀)

theorem Keeps.pure {α : Type} (x : α) : Keeps c a s₀ (pure x : Pass α) := fun _ h => h

theorem Keeps.bind {α β : Type} {m : Pass α} {f : α → Pass β} (hm : Keeps c a s₀ m)
    (hf : ∀ x, Keeps c a s₀ (f x)) : Keeps c a s₀ (m >>= f) := Triple.bind hm hf

theorem Keeps.ite {α : Type} {p : Prop} [Decidable p] {m m' : Pass α} (hm : p → Keeps c a s₀ m)
    (hm' : ¬ p → Keeps c a s₀ m') : Keeps c a s₀ (if p then m else m') := by
  split
  · exact hm ‹_›
  · exact hm' ‹_›

theorem Keeps.get : Keeps c a s₀ (get : Pass State) := fun _ h => h

/-- Requeuing changes no more than a deadline. -/
theorem requeue_artifact (store : RocksMetadata) (c' : ChannelId) (a' : ArtifactId)
    (old new : UInt64) {m : ArtifactMetadata} (hm : store.artifact c a = some m) :
    ∃ deadline, (store.requeue c' a' old new).artifact c a =
      some { m with eligibleAt := deadline } := by
  unfold RocksMetadata.requeue
  cases hfound : store.artifact c' a' with
  | none => exact ⟨m.eligibleAt, hm⟩
  | some found =>
    dsimp only
    split
    · exact ⟨m.eligibleAt, hm⟩
    · rw [RocksMetadata.requeueBatch_artifact]
      split
      · rename_i heq
        obtain ⟨rfl, rfl⟩ := heq
        rw [hfound] at hm
        exact ⟨new, by rw [Option.some.inj hm]⟩
      · exact ⟨m.eligibleAt, hm⟩

theorem keeps_requeue (c' : ChannelId) (a' : ArtifactId) (old new : UInt64) :
    Keeps c a s₀ (onStore fun store => store.requeue c' a' old new) := by
  intro s hs
  refine ⟨fun m hm => ?_, hs.body⟩
  obtain ⟨deadline, hrecord⟩ := hs.record m hm
  exact requeue_artifact (m := { m with eligibleAt := deadline }) s.store c' a' old new hrecord

theorem keeps_removeBody {c' : ChannelId} {a' : ArtifactId} (hne : ¬ (c' = c ∧ a' = a)) :
    Keeps c a s₀ (removeBody c' a') := by
  intro s hs
  have hget : (get : Pass State) s = .ok s s := rfl
  rw [removeBody, bind_ok hget]
  cases hremove : ArtifactFiles.remove c' a' s.disk with
  | error e => exact hs
  | ok disk =>
    refine ⟨hs.record, Eq.trans ?_ hs.body⟩
    show disk[path c a]? = s.disk[path c a]?
    have hpath : path c' a' ≠ path c a := fun heq => hne (path_inj.mp heq)
    unfold ArtifactFiles.remove removeFile at hremove
    cases hkind : s.disk.kindAt (path c' a') with
    | none =>
      rw [hkind] at hremove
      cases hremove
      rfl
    | some kind =>
      rw [hkind] at hremove
      cases kind with
      | dir => cases hremove
      | file content synced =>
        cases hremove
        rw [Disk.unlink_apply, if_neg hpath]

theorem keeps_evict {c' : ChannelId} {q : Candidate} (hne : ¬ (c' = c ∧ q.artifact = a)) :
    Keeps c a s₀ (evict c' q) := by
  intro s hs
  refine ⟨fun m hm => ?_, hs.body⟩
  obtain ⟨deadline, hrecord⟩ := hs.record m hm
  refine ⟨deadline, Eq.trans ?_ hrecord⟩
  show (s.store.evict c' q.artifact q.eligibleAt).1.artifact c a = _
  rw [RocksMetadata.evict, RocksMetadata.evictBatch_artifact, if_neg fun h => hne h.2]

/-- Whatever the pass comes to, it requeues the artifact or processes another one. -/
theorem keeps_processCandidate (hseen : tick.seen c a = true) (c' : ChannelId) (expiry : UInt64)
    (q : Candidate) : Keeps c a s₀ (processCandidate .normal tick c' expiry q) := by
  unfold processCandidate
  refine Keeps.ite (fun _ => (keeps_requeue c' _ _ _).bind fun _ => Keeps.pure _) fun hunseen => ?_
  have hne : ¬ (c' = c ∧ q.artifact = a) := by
    rintro ⟨rfl, rfl⟩
    exact hunseen ⟨rfl, hseen⟩
  refine Keeps.get.bind fun s => ?_
  refine Keeps.ite (fun _ => (keeps_removeBody hne).bind fun _ => ?_) fun _ => ?_
  · exact (keeps_evict hne).bind fun _ => Keeps.pure _
  · exact (keeps_evict hne).bind fun _ => Keeps.pure _

theorem keeps_candidateLoop (hseen : tick.seen c a = true) (c' : ChannelId) (expiry : UInt64)
    (rows : List Candidate) (l : Locals) :
    Keeps c a s₀ (candidateLoop .normal tick c' expiry rows l) := by
  induction rows generalizing l with
  | nil => exact Keeps.pure _
  | cons q rows ih =>
    unfold candidateLoop
    refine Keeps.ite (fun _ => Keeps.pure _) fun _ => Keeps.ite (fun _ => Keeps.pure _) fun _ => ?_
    refine (keeps_processCandidate hseen c' expiry q).bind fun handled => ?_
    have hlog : Keeps c a s₀ (modify fun s : State => { s with log := s.log ++ [⟨c', q, handled⟩] }) :=
      fun s hs => ⟨hs.record, hs.body⟩
    exact hlog.bind fun _ => ih _

theorem keeps_channelLoop (hseen : tick.seen c a = true) (channels : List ChannelId) (l : Locals) :
    Keeps c a s₀ (channelLoop .normal tick channels l) := by
  induction channels generalizing l with
  | nil => exact Keeps.pure _
  | cons c' channels ih =>
    have hexpiry : Keeps c a s₀ (expirySeconds c') := by
      refine Keeps.get.bind fun s => ?_
      split
      · exact Keeps.pure _
      · exact fun s hs => hs
    have hcandidates : Keeps c a s₀ (reclaimCandidates c' l.budget.candidates) :=
      Keeps.get.bind fun s => Triple.ofExcept (fun _ _ _ hs => hs) fun _ _ _ hs => hs
    unfold channelLoop
    refine Keeps.ite (fun _ => Keeps.pure _) fun _ => hexpiry.bind fun expiry =>
      hcandidates.bind fun candidates => (keeps_candidateLoop hseen c' expiry candidates l).bind ?_
    rintro ⟨l', stop⟩
    exact Keeps.ite (fun _ => Keeps.pure _) fun _ => ih l'

/-- A pass in Normal mode keeps what the filter has seen, whether it returns or fails. -/
theorem kept_of_seen (policy : SpacePolicy) (reclaimByteLimit limit : Nat) {s : State}
    (hmode : passMode policy tick.observation s.space = .normal) (hseen : tick.seen c a = true) :
    Kept c a s (finalState (runMaintenanceOnce policy reclaimByteLimit tick limit s)) := by
  let s₁ : State := { s with
    space := (SpaceLedger.mode policy (SpaceLedger.refreshLocked tick.observation s.space)).2 }
  have hrefresh : refreshedMode policy tick s = .ok .normal s₁ := by
    rw [← hmode]
    rfl
  rw [runMaintenanceOnce, bind_ok hrefresh, bind_ok (rotatedChannels_eq s₁)]
  have hloop : Keeps c a s (channelLoop .normal tick (visited s.store s.cursor)
      ⟨⟨limit, reclaimByteLimit⟩, 0⟩ >>= fun l => pure l.reclaimed) :=
    (keeps_channelLoop hseen _ _).bind fun l => Keeps.pure _
  exact Always.finalState hloop ⟨(Kept.refl c a s).record, rfl⟩

end Seen

end Maintenance

/-! ## Lookups and maintenance calls -/

/-- A shard of one process, with its recent-use filters. -/
structure Node (words : Nat) where
  cache : Maintenance.State
  recentUse : RecentUse words

namespace Node

variable {words : Nat} (hash : ChannelId → ArtifactId → UInt64)

/-- `CacheService::locate`; a missing body takes its record with it. -/
def locate (c : ChannelId) (a : ArtifactId) (x : Node words) :
    Option (Option ArtifactMetadata × Node words) :=
  match x.cache.store.artifact c a with
  | none => some (none, x)
  | some metadata =>
    match x.cache.disk.kindAt (path c a) with
    | none => some (none, { x with cache.store := x.cache.store.removeArtifact c a })
    | some _ => (x.recentUse.mark (hash c a)).map fun r => (some metadata, { x with recentUse := r })

/-- `Flywheel::run_maintenance_once`: a pass that fails is not followed by a rotation. -/
def runMaintenanceOnce (policy : SpacePolicy) (config : Config) (observation : Option UInt64)
    (now : UInt64) (x : Node words) : Except Maintenance.CacheError Nat × Node words :=
  let seen c a := x.recentUse.seen (hash c a) == some true
  match Maintenance.runMaintenanceOnce policy config.reclaimByteLimit.toNat ⟨observation, now, seen⟩
      config.reclaimCandidateLimit x.cache with
  | .ok n s => (.ok n, ⟨s, x.recentUse.rotate⟩)
  | .error e s => (.error e, { x with cache := s })

/-- Lookups in any channels, one after the other. -/
def Lookups : Node words → Node words → Prop :=
  Relation.ReflTransGen fun x y => ∃ c a found, locate hash c a x = some (found, y)

variable {hash} {x y : Node words} {c c' : ChannelId} {a a' : ArtifactId}

/-- A lookup marks, or leaves the filters alone. -/
theorem locate_recentUse (hwords : 0 < words) {found : Option ArtifactMetadata}
    (h : locate hash c' a' x = some (found, y)) :
    y.recentUse.active = x.recentUse.active ∧
      (∀ seed i, x.recentUse.Marked seed i → y.recentUse.Marked seed i) ∧
      (found.isSome → y.recentUse.InWindow (hash c' a')) := by
  unfold locate at h
  split at h
  · cases h
    exact ⟨rfl, fun _ _ h => h, nofun⟩
  · split at h
    · cases h
      exact ⟨rfl, fun _ _ h => h, nofun⟩
    · obtain ⟨r, hmark, hactive, hwindow, hmarked⟩ :=
        @RecentUse.mark_eq _ x.recentUse (hash c' a') hwords
      rw [hmark] at h
      cases h
      exact ⟨hactive, hmarked, fun _ => hwindow⟩

theorem Lookups.inWindow (hwords : 0 < words) (h : Lookups hash x y) {seed : UInt64}
    (hx : x.recentUse.InWindow seed) : y.recentUse.InWindow seed := by
  induction h with
  | refl => exact hx
  | tail _ hstep ih =>
    obtain ⟨c', a', found, hlocate⟩ := hstep
    obtain ⟨hactive, hmarked, -⟩ := locate_recentUse hwords hlocate
    rw [RecentUse.InWindow, hactive]
    exact hmarked _ _ ih

theorem Lookups.remembered (hwords : 0 < words) (h : Lookups hash x y) {seed : UInt64}
    (hx : x.recentUse.Remembered seed) : y.recentUse.Remembered seed := by
  induction h with
  | refl => exact hx
  | tail _ hstep ih =>
    obtain ⟨c', a', found, hlocate⟩ := hstep
    obtain ⟨i, hi⟩ := ih
    exact ⟨i, (locate_recentUse hwords hlocate).2.1 _ _ hi⟩

variable {policy : SpacePolicy} {config : Config} {observation : Option UInt64} {now : UInt64}
  {result : Except Maintenance.CacheError Nat}

/-- A call in Normal mode keeps what is remembered. -/
theorem kept_of_remembered (hwords : 0 < words) (hx : x.recentUse.Remembered (hash c a))
    (hcall : runMaintenanceOnce hash policy config observation now x = (result, y))
    (hmode : Maintenance.passMode policy observation x.cache.space = .normal) :
    Maintenance.Kept c a x.cache y.cache := by
  have hseen : (x.recentUse.seen (hash c a) == some true) = true := by
    rw [RecentUse.seen_of_remembered hwords hx]
    rfl
  let tick : Maintenance.Tick :=
    ⟨observation, now, fun c a => x.recentUse.seen (hash c a) == some true⟩
  have hkept := @Maintenance.kept_of_seen tick c a policy
    config.reclaimByteLimit.toNat config.reclaimCandidateLimit x.cache hmode hseen
  unfold runMaintenanceOnce at hcall
  dsimp only at hcall
  split at hcall
  · rename_i n s hrun
    cases hcall
    rw [hrun] at hkept
    exact hkept
  · rename_i e s hrun
    cases hcall
    rw [hrun] at hkept
    exact hkept

/-- After a call a mark of the window before it is remembered. -/
theorem remembered_of_call (hx : x.recentUse.InWindow (hash c a))
    (hcall : runMaintenanceOnce hash policy config observation now x = (result, y)) :
    y.recentUse.Remembered (hash c a) := by
  unfold runMaintenanceOnce at hcall
  dsimp only at hcall
  split at hcall
  · cases hcall
    exact RecentUse.InWindow.rotate hx
  · cases hcall
    exact RecentUse.InWindow.remembered hx

/-- **What was read survives**: after a lookup that hit, neither the next maintenance call nor the
one after it evicts the artifact when it runs in Normal mode, whatever is looked up in between. -/
theorem recently_read_survives (parse : String → Except String Config.UrlShape) (config : Config)
    (hvalid : config.validate parse = .ok ()) (policy : SpacePolicy)
    {x₀ x₁ x₂ x₃ x₄ x₅ : Node (wordsFor config.bloomBits)} {metadata : ArtifactMetadata}
    (hhit : locate hash c a x₀ = some (some metadata, x₁)) (hbefore : Lookups hash x₁ x₂)
    {observation observation' : Option UInt64} {now now' : UInt64}
    {result result' : Except Maintenance.CacheError Nat}
    (hcall : runMaintenanceOnce hash policy config observation now x₂ = (result, x₃))
    (hbetween : Lookups hash x₃ x₄)
    (hcall' : runMaintenanceOnce hash policy config observation' now' x₄ = (result', x₅)) :
    (Maintenance.passMode policy observation x₂.cache.space = .normal →
      Maintenance.Kept c a x₂.cache x₃.cache) ∧
    (Maintenance.passMode policy observation' x₄.cache.space = .normal →
      Maintenance.Kept c a x₄.cache x₅.cache) := by
  have hwords := wordsFor_pos (Config.maintenance_pos parse hvalid).1
  have hmarked : x₂.recentUse.InWindow (hash c a) :=
    hbefore.inWindow hwords ((locate_recentUse hwords hhit).2.2 rfl)
  have hremembered : x₄.recentUse.Remembered (hash c a) :=
    hbetween.remembered hwords (remembered_of_call hmarked hcall)
  exact ⟨kept_of_remembered hwords hmarked.remembered hcall,
    kept_of_remembered hwords hremembered hcall'⟩

/-- The one artifact of a shard is read, and the next pass keeps it. -/
theorem onlyState_survives :
    ∃ x₁ : Node (wordsFor (sampleConfig 604800).bloomBits),
      locate (fun _ _ => 7) .default Maintenance.onlyArtifact
        ⟨Maintenance.onlyState, RecentUse.new _⟩ = some (some Maintenance.onlyMetadata, x₁) ∧
      Maintenance.Kept .default Maintenance.onlyArtifact x₁.cache
        (runMaintenanceOnce (fun _ _ => 7) ⟨0, 0, 0⟩ (sampleConfig 604800) (some 100) 9 x₁).2.cache := by
  have hwords : 0 < wordsFor (sampleConfig 604800).bloomBits := wordsFor_pos (by decide)
  obtain ⟨r, hmark, -⟩ := (RecentUse.new (wordsFor (sampleConfig 604800).bloomBits)).mark_eq
    hwords
  have hrecord : Maintenance.onlyState.store.artifact .default Maintenance.onlyArtifact =
      some Maintenance.onlyMetadata := by decide +kernel
  have hbody : Maintenance.onlyState.disk.kindAt (path .default Maintenance.onlyArtifact) =
      some (.file [97] true) := by decide +kernel
  have hhit : locate (fun _ _ => 7) .default Maintenance.onlyArtifact
      ⟨Maintenance.onlyState, RecentUse.new (wordsFor (sampleConfig 604800).bloomBits)⟩ =
        some (some Maintenance.onlyMetadata, ⟨Maintenance.onlyState, r⟩) := by
    rw [locate, hrecord]
    dsimp only
    rw [hbody]
    dsimp only
    rw [hmark]
    rfl
  have hmode : Maintenance.passMode ⟨0, 0, 0⟩ (some 100) Maintenance.onlyState.space = .normal := by
    decide
  let afterwards := runMaintenanceOnce (fun _ _ => 7) ⟨0, 0, 0⟩ (sampleConfig 604800) (some 100) 9
    (⟨Maintenance.onlyState, r⟩ : Node (wordsFor (sampleConfig 604800).bloomBits))
  have hagain := (Prod.eta (runMaintenanceOnce (fun _ _ => 7) ⟨0, 0, 0⟩ (sampleConfig 604800) none 0
    afterwards.2)).symm
  exact ⟨_, hhit, (recently_read_survives sampleParse (sampleConfig 604800) sampleConfig_valid
    ⟨0, 0, 0⟩ hhit .refl rfl .refl hagain).1 hmode⟩

end Node

end Flywheel
