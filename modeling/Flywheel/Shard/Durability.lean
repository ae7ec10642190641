import Flywheel.Shard.Ownership
import Flywheel.Shard.Sample

/-!
# Durable acknowledgements

A durable publication fsyncs the staged file, renames it, fsyncs the directory it is renamed
into and writes its batch synchronously. Two things it does not see to:

- `create_dir_all` may have just made the directories above the body, and no one ever fsyncs
  those that hold them (`durable_publication_lost`);
- a body that is there already may stem from a publication that fsynced nothing.

`FindsDurable` is the state at the existence check in which neither matters: the directories
have reached the platter, or the body has, with everything on its way. Along every run that
meets it, what a durable publication acknowledged stays until it is evicted, whatever power
losses happen (`durable_publication_survives`).
-/

set_option autoImplicit false

namespace Flywheel

open Lib

variable {ι : Type} {E : Env ι} {i : ι} {e : Event} {s s' : Shared ι} {t t' : Task}
variable {c : ChannelId} {a : ArtifactId}

/-! ## Bodies on the platter -/

/-- The file is a stored form of the artifact: it decodes to a body with its digest. -/
def Complete (E : Env ι) (a : ArtifactId) (f : Bytes) : Prop :=
  ∃ encoding body, E.decode encoding f = some body ∧ E.sha256 body = a.digest

/-- The artifact has a complete body that no loss of power can touch. -/
def Whole (E : Env ι) (s : Shared ι) (c : ChannelId) (a : ArtifactId) : Prop :=
  ∃ f, s.disk.Durable (path c a) f ∧ Complete E a f

theorem PublishRequest.complete_stored {r : PublishRequest} (h : r.Checked E) :
    Complete E (r.artifact E) (r.stored E) :=
  ⟨r.encoding, r.body, E.decode_encode r.encoding r.stream, h⟩

theorem Whole.body (h : Whole E s c a) :
    ∃ f, s.body c a = some f ∧ Complete E a f := by
  obtain ⟨f, ⟨-, l, hf⟩, hcomplete⟩ := h
  exact ⟨f, by rw [Shared.body, Disk.content, Disk.kindAt, hf]; rfl, hcomplete⟩

theorem Whole.kindAt_isSome (h : Whole E s c a) : (s.kindAt (path c a)).isSome := by
  obtain ⟨f, ⟨-, l, hf⟩, -⟩ := h
  rw [Shared.kindAt, Disk.kindAt, hf]
  rfl

/-! ## The runs -/

def Task.isLocate : Task → Bool
  | .locate .. => true
  | _ => false

/-- Publications, maintenance, startup recovery and channel operations other than
deletions, with failures, crashes and losses of power. -/
def Publishing (p : Shard ι) : Action ι → Prop
  | .thread i _ => ¬ (p.task i).isDelete ∧ (p.task i).isLocate = false
  | _ => True

/-- A durable publication that finds a body finds a complete one on the platter; one that
finds none finds the directories on its way there. -/
def FindsDurable (E : Env ι) (p : Shard ι) : Action ι → Prop
  | .thread i (.run _) =>
    match p.task i with
    | .publish r (.tryExists _) => r.durability = .durable →
      if (p.shared.kindAt (r.final E)).isSome then Whole E p.shared r.channel (r.artifact E)
      else p.shared.disk.Linked (shardDir r.channel (r.artifact E))
    | _ => True
  | _ => True

/-! ## What a step leaves alone -/

/-- The artifact whose body the next step of a task renames or unlinks. -/
def Task.moves (E : Env ι) : Task → Option (ChannelId × ArtifactId)
  | .publish r (.rename _) => some (r.channel, r.artifact E)
  | .maintain c candidate _ .unlink => some (c, candidate.artifact)
  | .reconcile c a .remove => some (c, a)
  | _ => none

theorem Task.owns_of_moves {k : ChannelId × ArtifactId} (h : t.moves E = some k) :
    t.owns E = some k := by
  cases t with
  | publish r pc => cases pc <;> first | exact h | cases h
  | maintain c' candidate decision pc => cases pc <;> first | exact h | cases h
  | reconcile c' a' pc => cases pc <;> first | exact h | cases h
  | _ => cases h

variable [DecidableEq ι]

/-- A step leaves every node alone but staged files and the body it moves; an fsync may
link it. -/
theorem Move.node_frame (h : Move E i s t s' t') (hdelete : ¬ t.isDelete) {q : Path}
    {n : Node UInt8} (hn : s.disk[q]? = some n) (htmp : ∀ c name, q ≠ tmpPath c name)
    (hmoves : ∀ c a, t.moves E = some (c, a) → q ≠ path c a) :
    ∃ l, s'.disk[q]? = some ⟨n.kind, l⟩ ∧ (n.linked = true → l = true) := by
  have hsame : s'.disk[q]? = s.disk[q]? →
      ∃ l, s'.disk[q]? = some ⟨n.kind, l⟩ ∧ (n.linked = true → l = true) :=
    fun heq => ⟨n.linked, heq.trans hn, id⟩
  have hpart : ∀ r : PublishRequest, q ≠ r.part E i := fun r => htmp _ _
  have hunlink : ∀ p', s'.disk = s.disk.unlink p' → q ≠ p' → s'.disk[q]? = s.disk[q]? := by
    intro p' hd hne
    rw [hd, Disk.unlink_apply, if_neg (Ne.symm hne)]
  have hmkdir : ∀ p', s'.disk = s.disk.mkdirAll p' → s'.disk[q]? = s.disk[q]? := by
    intro p' hd
    rw [hd, Disk.mkdirAll_apply, Option.or_of_isSome (by rw [hn]; rfl)]
  cases h.disk with
  | keep hd => exact hsame (by rw [hd])
  | stageDir ht hd | shardDir ht hd => exact hsame (hmkdir _ hd)
  | stageOpen ht hd =>
    exact hsame (by rw [(Disk.createNew_eq_some hd).2, if_neg (Ne.symm (hpart _))])
  | stageWrite ht hd => exact hsame (by rw [hd, Disk.write_apply_of_ne _ (hpart _)])
  | @stageSync r ht hd =>
    refine hsame ?_
    rw [hd]
    cases r.durability with
    | durable => exact Disk.syncFile_apply_of_ne _ (hpart r)
    | bestEffort => rfl
  | removePart ht hd => exact hsame (hunlink _ hd (hpart _))
  | @rename r f ht ht' hd =>
    obtain ⟨m, -, hd'⟩ := Disk.rename_eq_some hd
    have hfinal : q ≠ r.final E := hmoves _ _ (by rw [ht]; rfl)
    refine hsame ?_
    rw [hd', if_neg hfinal.symm, if_neg (hpart r).symm]
  | @syncParent r f ht hd =>
    rw [hd]
    cases r.durability with
    | durable =>
      show ∃ l, (s.disk.syncDir _)[q]? = some ⟨n.kind, l⟩ ∧ (n.linked = true → l = true)
      rw [Disk.syncDir_apply, hn, Option.map_some]
      split
      · exact ⟨true, rfl, fun _ => rfl⟩
      · exact ⟨n.linked, rfl, id⟩
    | bestEffort => exact ⟨n.linked, hn, id⟩
  | evict ht ht' hd => exact hsame (hunlink _ hd (hmoves _ _ (by rw [ht]; rfl)))
  | reconcile ht hd => exact hsame (hunlink _ hd (hmoves _ _ (by rw [ht]; rfl)))
  | removeDir p' ht => exact absurd (ht ▸ trivial) hdelete

/-- Directories that reached the platter stay there. -/
theorem Move.linked_frame (h : Move E i s t s' t') (hdelete : ¬ t.isDelete)
    (hl : s.disk.Linked (shardDir c a)) : s'.disk.Linked (shardDir c a) := by
  refine hl.imp fun q n hq hn hlink => ?_
  obtain ⟨l, hl', himp⟩ := h.node_frame hdelete hn
    (fun c' name hne => not_tmpPath_prefix_shardDir c' c name a (hne ▸ hq))
    (fun c' a' _ hne => not_path_prefix_shardDir c' c a' a (hne ▸ hq))
  exact ⟨_, hl', himp hlink⟩

/-- A body on the platter stays there unless it is the one that is moved. -/
theorem Move.whole_frame (h : Move E i s t s' t') (hdelete : ¬ t.isDelete)
    (hmoves : t.moves E ≠ some (c, a)) (hw : Whole E s c a) : Whole E s' c a := by
  have hnode : ∀ {q n}, q <+: path c a → s.disk[q]? = some n →
      ∃ l, s'.disk[q]? = some ⟨n.kind, l⟩ ∧ (n.linked = true → l = true) := by
    intro q n hq hn
    refine h.node_frame hdelete hn
      (fun c' name hne => not_tmpPath_prefix_path c' c name a (hne ▸ hq)) fun c' a' hm hne => ?_
    obtain ⟨rfl, rfl⟩ := path_prefix_path (hne ▸ hq)
    exact hmoves hm
  obtain ⟨f, ⟨hl, l, hf⟩, hcomplete⟩ := hw
  refine ⟨f, ⟨hl.imp fun q n hq hn hlink => ?_, ?_⟩, hcomplete⟩
  · obtain ⟨l', hl', himp⟩ := hnode hq hn
    exact ⟨_, hl', himp hlink⟩
  · obtain ⟨l', hl', -⟩ := hnode (List.prefix_refl _) hf
    exact ⟨l', hl'⟩

/-! ## Durable publications in progress -/

/-- What a durable publication can rely on past its existence check. -/
def Placing (E : Env ι) (s : Shared ι) : Task → Prop
  | .publish r pc => r.durability = .durable →
    match pc with
    | .rename _ | .syncParent _ => s.disk.Linked (shardDir r.channel (r.artifact E))
    | .removeStaged _ | .commitRead _ | .commitWrite _ _ => Whole E s r.channel (r.artifact E)
    | _ => True
  | _ => True

omit [DecidableEq ι] in
/-- Fsyncing the directory completes the way to a body that was fsynced. -/
theorem whole_of_syncDir {r : PublishRequest} (hchecked : r.Checked E)
    (hl : s.disk.Linked (shardDir r.channel (r.artifact E)))
    (hbody : s.kindAt (r.final E) = some (.file (r.stored E) true)) :
    Whole E (s.onDisk (·.syncDir (shardDir r.channel (r.artifact E)))) r.channel
      (r.artifact E) := by
  obtain ⟨⟨kind, l⟩, hn, rfl⟩ := Option.map_eq_some_iff.mp hbody
  have hfile : (s.disk.syncDir (shardDir r.channel (r.artifact E)))[r.final E]? =
      some ⟨.file (r.stored E) true, true⟩ := by
    rw [Disk.syncDir_apply, hn, Option.map_some, if_pos ⟨path_ne_nil _ _, dropLast_path _ _⟩]
  refine ⟨r.stored E, ⟨fun q hq hne => ?_, true, hfile⟩, r.complete_stored hchecked⟩
  rcases List.prefix_concat_iff.mp hq with rfl | hq
  · exact ⟨_, hfile, rfl⟩
  · exact hl.syncDir _ q hq hne

/-- A durable publication's own steps. -/
theorem placing_publish {p p' : Shard ι} {r : PublishRequest} {pc pc' : PublishPc}
    (hpc : p.task i = .publish r pc) (hguard : FindsDurable E p (.thread i e))
    (hstep : publishStep E i r pc e p.shared = some (p'.shared, .publish r pc'))
    (hknows : Knows E ((Task.publish r pc).view E p.shared i) (.publish r pc))
    (h : Placing E p.shared (.publish r pc)) : Placing E p'.shared (.publish r pc') := by
  intro hdurable
  have hfrom := publishStep_to hstep
  have hmove := publish_move hstep
  have hsynced : r.synced = true := by rw [PublishRequest.synced, hdurable]
  cases pc' with
  | removeStaged f =>
    obtain ⟨rfl, hs, hsome⟩ := hfrom
    obtain ⟨now, rfl⟩ := event_of_tryExists hstep (.inl rfl)
    simp only [FindsDurable, hpc] at hguard
    rw [hs]
    simpa only [hsome, if_true] using hguard hdurable
  | rename f =>
    obtain ⟨rfl, hs, hnone⟩ := hfrom
    obtain ⟨now, rfl⟩ := event_of_tryExists hstep (.inr rfl)
    simp only [FindsDurable, hpc] at hguard
    have hlinked := hguard hdurable
    rw [hnone] at hlinked
    rw [hs]
    exact hlinked
  | syncParent f =>
    obtain ⟨rfl, -⟩ := hfrom
    exact hmove.linked_frame id (h hdurable)
  | commitRead f =>
    rcases hfrom with ⟨rfl, -⟩ | ⟨rfl, hs⟩
    · exact hmove.whole_frame id (by simp [Task.moves]) (h hdurable)
    · obtain ⟨hchecked, hbody⟩ := hknows
      rw [hsynced] at hbody
      rw [hs, hdurable]
      exact whole_of_syncDir hchecked (h hdurable) hbody
  | commitWrite f found =>
    obtain ⟨rfl, hs, -⟩ := hfrom
    rw [hs]
    exact h hdurable
  | _ => trivial

/-- What a durable publication relies on survives the steps of the others. -/
theorem placing_fire {p p' : Shard ι} (hlocked : Locked E p) (hdelete : ¬ (p.task i).isDelete)
    (hknows : ∀ j, Knows E ((p.task j).view E p.shared j) (p.task j))
    (hguard : FindsDurable E p (.thread i e)) (hfire : p.fire E i e = some p')
    (h : ∀ j, Placing E p.shared (p.task j)) : ∀ j, Placing E p'.shared (p'.task j) := by
  have hstep := (Shard.fire_eq_some hfire).1
  have hmove := step_move hstep
  refine Pool.fire_inv (J := fun s _ t => Placing E s t) h hfire ?_ ?_
  · revert hstep
    cases hp' : p'.task i with
    | publish r pc' =>
      intro hstep
      rcases step_from hstep with ⟨-, -, rfl⟩ | ⟨pc, hpc, -⟩
      · exact fun _ => trivial
      · have hki := hknows i
        have hi := h i
        rw [hpc] at hstep hki hi
        exact placing_publish hpc hguard hstep hki hi
    | _ => exact fun _ => trivial
  · intro j hne hj
    cases ht : p.task j with
    | publish r pc =>
      rw [ht] at hj
      intro hdurable
      -- whoever moves this body holds its stripe
      have hfree : (p.task j).owns E = some (r.channel, r.artifact E) →
          (p.task i).moves E ≠ some (r.channel, r.artifact E) := by
        intro hown hmoves
        exact hne (hlocked.eq_of_stripe (k := E.stripe r.channel (r.artifact E))
          (by rw [Task.stripe, hown]; rfl) (by rw [Task.stripe, Task.owns_of_moves hmoves]; rfl))
      cases pc with
      | rename | syncParent => exact hmove.linked_frame hdelete (hj hdurable)
      | removeStaged | commitRead | commitWrite =>
        exact hmove.whole_frame hdelete (hfree (by rw [ht]; rfl)) (hj hdurable)
      | _ => trivial
    | _ => trivial

omit [DecidableEq ι] in
theorem placing_lost (s : Shared ι) (t : Task) : Placing E s t.lost := by
  cases t <;> trivial

omit [DecidableEq ι] in
theorem Publishing.noDelete (p : Shard ι) (a : Action ι) (h : Publishing p a) : NoDelete p a := by
  cases a with
  | thread i e => exact h.1
  | _ => trivial

theorem placing_of_reach {p : Shard ι}
    (h : (shard E).Reach (fun p a => Publishing p a ∧ FindsDurable E p a) p) :
    ∀ j, Placing E p.shared (p.task j) := by
  refine h.invariant_of_reach (I := fun p => ∀ j, Placing E p.shared (p.task j)) ?_ ?_
  · rintro _ ⟨expirySeconds, now, rfl⟩ j
    trivial
  · rintro x act y hx hplacing ⟨hact, hguard⟩ hstep
    cases act with
    | thread i e =>
      exact placing_fire (locked_of_reach hx) hact.1
        (knows_of_reach (fun p a h => Publishing.noDelete p a h.1) hx) hguard hstep hplacing
    | crash =>
      obtain rfl : y = x.crash := hstep
      exact fun j => placing_lost _ (x.task j)
    | losePower d z =>
      obtain ⟨-, -, rfl⟩ := hstep
      exact fun j => placing_lost _ (x.task j)

/-! ## After the acknowledgement -/

/-- The body is on the platter, and every state of the store that may survive has the
record. -/
structure Kept (E : Env ι) (c : ChannelId) (a : ArtifactId) (s : Shared ι) : Prop where
  whole : Whole E s c a
  record : s.store.Always fun x => (x.artifact c a).isSome

omit [DecidableEq ι] in
theorem Shared.always_commit {P : RocksMetadata → Prop} {durability : Durability}
    {batch : RocksMetadata → RocksMetadata} (h : s.store.Always P)
    (hb : P (batch s.store.current)) : (s.commit durability batch).store.Always P := by
  cases durability with
  | durable => exact Journal.Always.writeSync hb
  | bestEffort => exact h.write hb

/-- What holds of every state that may survive, and of the new one, keeps holding. -/
theorem Move.always (h : Move E i s t s' t') {P : RocksMetadata → Prop} (hP : s.store.Always P)
    (hcurrent : P s'.store.current) : s'.store.Always P := by
  have hcommit : ∀ {durability batch}, s'.store = (s.commit durability batch).store →
      s'.store.Always P := by
    intro durability batch hs
    rw [hs] at hcurrent ⊢
    rw [Shared.commit_current] at hcurrent
    exact Shared.always_commit hP hcurrent
  cases h.store with
  | keep hs => rwa [hs]
  | publication now ht hs => exact hcommit hs
  | reference now ht hs => exact hcommit hs
  | heal ht hs | requeue ht hs | evict ht hs | register ht hs | patch ht hs | delete ht hs
  | deleteData ht hs | finish ht hs => exact hcommit hs

/-- Until an eviction unlinks the body, no step takes back what was acknowledged. -/
theorem Kept.fire {p p' : Shard ι} (h : Kept E c a p.shared)
    (hknows : Knows E ((p.task i).view E p.shared i) (p.task i))
    (hact : Publishing p (.thread i e)) (hkeep : NotEvicting c a p (.thread i e))
    (hfire : p.fire E i e = some p') : Kept E c a p'.shared := by
  have hmove := step_move (Shard.fire_eq_some hfire).1
  have hsome := h.whole.kindAt_isSome
  have hrecord : (p.shared.record c a).isSome := h.record.current
  refine ⟨hmove.whole_frame hact.1 ?_ h.whole, hmove.always h.record ?_⟩
  · intro hmoves
    cases ht : p.task i with
    | publish r pc =>
      rw [ht] at hmoves hknows
      cases pc with
      | rename f =>
        -- a publication renames only where it found no body
        cases hmoves
        have hnone : p.shared.kindAt (path _ _) = none := hknows.2.2
        rw [hnone] at hsome
        cases hsome
      | _ => cases hmoves
    | maintain c' candidate decision pc =>
      rw [ht] at hmoves
      cases pc with
      | unlink => exact absurd (by rw [ht]; exact hmoves) hkeep
      | _ => cases hmoves
    | reconcile c' a' pc =>
      rw [ht] at hmoves hknows
      cases pc with
      | remove =>
        cases hmoves
        have hnone : p.shared.record c a = none := hknows
        rw [hnone] at hrecord
        cases hrecord
      | _ => cases hmoves
    | _ =>
      rw [ht] at hmoves
      cases hmoves
  · show (p'.shared.record c a).isSome
    cases hmove.record_change c a with
    | keep hs => rw [hs]; exact hrecord
    | created now _ _ _ hs => rw [hs]; rfl
    | requeued _ _ hs => rw [hs]; rfl
    | healed ht =>
      have hlocate := hact.2
      rw [ht] at hlocate
      cases hlocate
    | evicted ht ha hfound =>
      subst ha
      rw [ht] at hknows
      obtain ⟨hfound', hgone⟩ := hknows
      have hnone : p.shared.kindAt (path _ _) = none := hgone (hfound' ▸ hfound)
      rw [hnone] at hsome
      cases hsome
    | deleted ht => exact absurd ht hact.1

omit [DecidableEq ι] in
/-- Startup clears staged files only. -/
theorem Whole.restart (h : Whole E s c a) : Whole E s.restart c a := by
  obtain ⟨f, hf, hcomplete⟩ := h
  exact ⟨f, hf.congr fun q hq _ => removeTemporaryFiles_of_not_tmp _ (isTmpPath_of_isPrefix hq),
    hcomplete⟩

omit [DecidableEq ι] in
theorem Kept.crash {p : Shard ι} (h : Kept E c a p.shared) : Kept E c a p.crash.shared :=
  ⟨h.whole.restart, h.record⟩

omit [DecidableEq ι] in
/-- A loss of power takes nothing back either. -/
theorem Kept.losePower {p : Shard ι} (h : Kept E c a p.shared) {d : FsDisk} {x : RocksMetadata}
    (hd : Disk.LosePower p.shared.disk d) (hx : p.shared.store.Survives x) :
    Kept E c a (p.losePower d x).shared := by
  obtain ⟨f, hf, hcomplete⟩ := h.whole
  have hwhole : Whole E { p.shared with disk := d, store := Journal.synced x } c a :=
    ⟨f, hd.durable (path_ne_nil _ _) hf, hcomplete⟩
  exact ⟨hwhole.restart, Journal.Always.synced (h.record x hx)⟩

/-- A durable publication is acknowledged with everything on the platter. -/
theorem kept_of_published {p p' : Shard ι}
    (hknows : Knows E ((p.task i).view E p.shared i) (p.task i))
    (hplacing : Placing E p.shared (p.task i)) (hfire : p.fire E i e = some p')
    {r : PublishRequest} {created : Bool} (hdone : p'.task i = .done (.published r created))
    (hdurable : r.durability = .durable) : Kept E r.channel (r.artifact E) p'.shared := by
  have hstep := (Shard.fire_eq_some hfire).1
  have hmove := step_move hstep
  rw [hdone] at hstep
  obtain ⟨f, found, now, ht, hs⟩ := step_to_published hstep
  rw [ht] at hknows hplacing hmove
  refine ⟨hmove.whole_frame id (by simp [Task.moves]) (hplacing hdurable), ?_⟩
  have hrecord : ((r.batch E f found now p.shared.store.current).artifact r.channel
      (r.artifact E)).isSome := by
    rw [PublishRequest.batch, RocksMetadata.commitBatch_artifact]
    cases found with
    | false => simp
    | true => exact hknows.2.2.symm
  rw [hs, hdurable]
  exact Journal.Always.writeSync hrecord

/-- In every run that meets the condition, an artifact whose durable publication returned
`Ok` has its record and its complete body in every later state, after any crash and any loss
of power, until an eviction unlinks the body. -/
theorem durable_publication_survives {p p₁ p₂ : Shard ι}
    (h : (shard E).Reach (fun p a => Publishing p a ∧ FindsDurable E p a) p)
    (hact : Publishing p (.thread i e) ∧ FindsDurable E p (.thread i e))
    (hfire : p.fire E i e = some p₁) {r : PublishRequest} {created : Bool}
    (hdone : p₁.task i = .done (.published r created)) (hdurable : r.durability = .durable)
    (hsteps : (shard E).Steps (fun q act => (Publishing q act ∧ FindsDurable E q act) ∧
      NotEvicting r.channel (r.artifact E) q act) p₁ p₂) :
    (p₂.shared.record r.channel (r.artifact E)).isSome ∧
      ∃ f, p₂.shared.body r.channel (r.artifact E) = some f ∧ Complete E (r.artifact E) f := by
  have hG : ∀ (p : Shard ι) a, Publishing p a ∧ FindsDurable E p a → NoDelete p a :=
    fun p a h => Publishing.noDelete p a h.1
  have hkept : Kept E r.channel (r.artifact E) p₂.shared := by
    refine hsteps.preserves_of_reach
      (G := fun q act => Publishing q act ∧ FindsDurable E q act)
      (I := fun q => Kept E r.channel (r.artifact E) q.shared) ?_ (fun _ _ ha => ha.1)
      (h.tail hact hfire)
      (kept_of_published (knows_of_reach hG h i) (placing_of_reach h i) hfire hdone hdurable)
    intro x act y hx hI hact hstep
    cases act with
    | thread j ev => exact hI.fire (knows_of_reach hG hx j) hact.1.1 hact.2 hstep
    | crash =>
      obtain rfl : y = x.crash := hstep
      exact hI.crash
    | losePower d z =>
      obtain ⟨hd, hz, rfl⟩ := hstep
      exact hI.losePower hd hz
  exact ⟨hkept.record.current, hkept.whole.body⟩

/-! ## A lost directory -/

instance (p : Shard ι) : DecidablePred (Publishing p)
  | .thread i _ =>
    inferInstanceAs (Decidable (¬ (p.task i).isDelete ∧ (p.task i).isLocate = false))
  | .crash | .losePower _ _ => .isTrue trivial

/-- A loss of power that keeps what the store holds. -/
def Shard.powerCut (p : Shard ι) (keep : Path → Bool) (len : Nat) : Shard ι :=
  p.losePower (p.shared.disk.afterLoss keep len) p.shared.store.current

theorem step_of_powerCut {p : Shard ι} {keep : Path → Bool}
    (h : p.shared.disk.mayKeep keep = true) (len : Nat) :
    (shard E).step p (.losePower (p.shared.disk.afterLoss keep len) p.shared.store.current)
      (p.powerCut keep len) :=
  ⟨Disk.losePower_afterLoss h len, .inl rfl, rfl⟩

/-- The first durable publication of a channel is acknowledged, and a loss of power drops the
directories it has made. -/
theorem durable_publication_lost : ∃ (p p₁ p₂ : Shard (BitVec 128)) (d : FsDisk)
    (x : RocksMetadata), (shard sampleEnv).Reach Publishing p ∧
      Publishing p (.thread 0 (.run 100)) ∧ p.fire sampleEnv 0 (.run 100) = some p₁ ∧
      p₁.task 0 = .done (.published (sampleUpload .default .durable .identity) true) ∧
      (shard sampleEnv).step p₁ (.losePower d x) p₂ ∧
      (p₂.shared.record .default sampleArtifact).isSome ∧
      p₂.shared.body .default sampleArtifact = none := by
  have hrun : (sampleRun (fun p a => decide (Publishing p a))
      (.thread 0 (.start (.publish (sampleUpload .default .durable .identity))) ::
        steps 0 100 13)).any (fun p =>
    decide (Publishing p (.thread 0 (.run 100))) &&
    (p.fire sampleEnv 0 (.run 100)).any fun p₁ =>
      decide (p₁.task 0 = .done (.published (sampleUpload .default .durable .identity) true)) &&
      p₁.shared.disk.mayKeep (fun _ => false) &&
      decide ((p₁.powerCut (fun _ => false) 0).shared.record .default sampleArtifact ≠ none ∧
        (p₁.powerCut (fun _ => false) 0).shared.body .default sampleArtifact = none)) = true := by
    decide +kernel
  obtain ⟨p, hp, h⟩ := reach_of_sampleRun _ (fun _ _ => of_decide_eq_true) _ _ hrun
  obtain ⟨hact, h⟩ := (Bool.and_eq_true _ _).mp h
  obtain ⟨p₁, hfire, h⟩ := (Option.any_eq_true _ _).mp h
  obtain ⟨h, hleft⟩ := (Bool.and_eq_true _ _).mp h
  obtain ⟨hdone, hkeep⟩ := (Bool.and_eq_true _ _).mp h
  obtain ⟨hrecord, hbody⟩ := of_decide_eq_true hleft
  exact ⟨p, p₁, _, _, _, hp, of_decide_eq_true hact, hfire, of_decide_eq_true hdone,
    step_of_powerCut hkeep 0, Option.isSome_iff_ne_none.mpr hrecord, hbody⟩

/-- The condition at the existence check, evaluated where it finds no body. -/
def findsDurable (E : Env ι) (p : Shard ι) : Action ι → Bool
  | .thread i (.run _) =>
    match p.task i with
    | .publish r (.tryExists _) =>
      r.durability == .bestEffort ||
        ((p.shared.kindAt (r.final E)).isNone &&
          p.shared.disk.isLinked (shardDir r.channel (r.artifact E)))
    | _ => true
  | _ => true

omit [DecidableEq ι] in
theorem findsDurable_sound {p : Shard ι} {act : Action ι} (h : findsDurable E p act = true) :
    FindsDurable E p act := by
  cases act with
  | thread i e =>
    cases e with
    | run now =>
      unfold FindsDurable
      unfold findsDurable at h
      dsimp only at h ⊢
      split
      · rename_i r f ht
        simp only [ht, Bool.or_eq_true, beq_iff_eq, Bool.and_eq_true,
          Option.isNone_iff_eq_none] at h
        intro hdurable
        rcases h with hbest | ⟨hnone, hlinked⟩
        · rw [hdurable] at hbest
          cases hbest
        · rw [hnone]
          exact Disk.linked_of_isLinked hlinked
      · trivial
    | _ => trivial
  | _ => trivial

/-- When the directories survived an earlier loss of power, the next durable publication
survives all later ones. -/
theorem durable_publication_after_loss : ∃ p p₁ p₂ : Shard (BitVec 128),
    (shard sampleEnv).Reach (fun p a => Publishing p a ∧ FindsDurable sampleEnv p a) p ∧
      p.fire sampleEnv 1 (.run 200) = some p₁ ∧
      p₁.task 1 = .done (.published (sampleUpload .default .durable .identity) false) ∧
      p₂ = p₁.powerCut (fun _ => true) 0 ∧
      (p₂.shared.record .default sampleArtifact).isSome ∧
      ∃ f, p₂.shared.body .default sampleArtifact = some f ∧ Complete sampleEnv sampleArtifact f := by
  let ok : Shard (BitVec 128) → Action (BitVec 128) → Bool :=
    fun p a => decide (Publishing p a) && findsDurable sampleEnv p a
  have hok : ∀ p a, ok p a = true → Publishing p a ∧ FindsDurable sampleEnv p a := by
    intro p a h
    obtain ⟨hact, hguard⟩ := (Bool.and_eq_true _ _).mp h
    exact ⟨of_decide_eq_true hact, findsDurable_sound hguard⟩
  -- the directories are kept, the best-effort body is not
  let dirs : Path → Bool := fun q => decide (q.length ≤ 4)
  have hrun : (sampleRun ok
      (.thread 0 (.start (.publish (sampleUpload .default .bestEffort .identity))) ::
        steps 0 100 14)).any (fun p₀ =>
    p₀.shared.disk.mayKeep dirs &&
    (System.exec (Shard.act sampleEnv) ok (p₀.powerCut dirs 0)
      (.thread 1 (.start (.publish (sampleUpload .default .durable .identity))) ::
        steps 1 200 13)).any fun p =>
      ok p (.thread 1 (.run 200)) &&
      (p.fire sampleEnv 1 (.run 200)).any fun p₁ =>
        decide (p₁.task 1 =
          .done (.published (sampleUpload .default .durable .identity) false)) &&
        p₁.shared.disk.mayKeep (fun _ => true)) = true := by
    decide +kernel
  obtain ⟨p₀, hp₀, h⟩ := reach_of_sampleRun ok hok _ _ hrun
  obtain ⟨hkeep, h⟩ := (Bool.and_eq_true _ _).mp h
  have hcut : (shard sampleEnv).Reach (fun p a => Publishing p a ∧ FindsDurable sampleEnv p a)
      (p₀.powerCut dirs 0) :=
    System.Reach.tail (a := Action.losePower _ _) hp₀ ⟨trivial, trivial⟩ (step_of_powerCut hkeep 0)
  obtain ⟨p, hsteps, h⟩ := steps_of_sample ok hok h
  have hp := hcut.steps hsteps
  obtain ⟨hact, h⟩ := (Bool.and_eq_true _ _).mp h
  obtain ⟨p₁, hfire, h⟩ := (Option.any_eq_true _ _).mp h
  obtain ⟨hdone, hkeep₁⟩ := (Bool.and_eq_true _ _).mp h
  have hlast : (shard sampleEnv).Steps
      (fun q act => (Publishing q act ∧ FindsDurable sampleEnv q act) ∧
        NotEvicting .default sampleArtifact q act) p₁ (p₁.powerCut (fun _ => true) 0) :=
    Relation.ReflTransGen.single
      ⟨.losePower _ _, ⟨⟨trivial, trivial⟩, trivial⟩, step_of_powerCut hkeep₁ 0⟩
  obtain ⟨hrecord, hbody⟩ := durable_publication_survives hp (hok _ _ hact) hfire
    (of_decide_eq_true hdone) rfl hlast
  exact ⟨p, p₁, _, hp, hfire, of_decide_eq_true hdone, rfl, hrecord, hbody⟩

end Flywheel
