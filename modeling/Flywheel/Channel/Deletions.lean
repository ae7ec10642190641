import Flywheel.Shard.Isolation

/-!
# Interrupted deletions (`channel/service.rs`)

`delete` persists the `Deleting` record and then runs `finish_deletion`: the rows go in one
batch, the directory entry by entry, the registry record last. A crash may come between any
two of these, and `resume_deletions` of the next startup runs `finish_deletion` again for
every channel whose record says so. Startup runs it before anything else is served, so a state
is what is stored and what the one process is doing.

- `finishStep`, `act`: the steps of `finish_deletion`, and of the process around it. Any step
  may fail: `delete` then returns the error and startup gives up.
- `Finishes`: complete runs of `finish_deletion`; `Finishes.eq_finished` says what they compute.
- `Inv`: relative to what was stored when the deletion was cut off, every marked channel is
  gone or still marked, and the others are as they were.
-/

set_option autoImplicit false

namespace Flywheel

open Lib Std

/-! ## The registry -/

namespace RocksMetadata

/-- The channels `resume_deletions` goes through. -/
def deletingChannels (s : RocksMetadata) : List ChannelId :=
  (s.channelRecords.filter (·.state == .deleting)).map (·.id)

/-- The channel's record says that it is being deleted. -/
def Marked (s : RocksMetadata) (c : ChannelId) : Prop :=
  ∃ record, s.channel c = some record ∧ record.state = .deleting

variable {s : RocksMetadata} {c : ChannelId}

theorem NoData.finishChannelDeletion (h : NoData c s) (d : ChannelId) :
    NoData c (s.finishChannelDeletion d) :=
  ⟨h.artifacts, h.references, h.eviction⟩

theorem Keyed.mem_deletingChannels (h : s.Keyed) : c ∈ s.deletingChannels ↔ s.Marked c := by
  simp only [deletingChannels, channelRecords, List.mem_map, List.mem_filter, Prod.exists,
    exists_eq_right, beq_iff_eq]
  constructor
  · rintro ⟨record, ⟨⟨k, hmem⟩, hstate⟩, rfl⟩
    have hk := ExtTreeMap.mem_toList_iff_getElem?_eq_some.mp hmem
    obtain rfl := h k record hk
    exact ⟨record, hk, hstate⟩
  · rintro ⟨record, hrecord, hstate⟩
    refine ⟨record, ⟨⟨c.asKey, ?_⟩, hstate⟩, ?_⟩
    · exact ExtTreeMap.mem_toList_iff_getElem?_eq_some.mpr hrecord
    · exact ChannelId.asKey_inj (h _ _ hrecord).symm

end RocksMetadata

namespace Deletions

/-! ## The steps of a deletion -/

/-- What is stored: the metadata and the files. -/
structure Local where
  store : RocksMetadata
  disk : FsDisk

inductive Pc where
  | deleteData
  | removeDir
  | finish
  deriving DecidableEq

inductive Action where
  | next
  /-- `remove_dir_all` comes to an entry. -/
  | remove (p : Path)
  | fail
  | crash
  | start
  deriving DecidableEq

/-- One step of `finish_deletion`; `none` for the next step when it has returned. -/
def finishStep (c : ChannelId) : Pc → Action → Local → Option (Local × Option Pc)
  | .deleteData, .next, l =>
    some ({ l with store := l.store.deleteChannelData c }, some .removeDir)
  | .removeDir, .remove p, l =>
    if l.disk.isDir (channelDir c) ∧ removable l.disk c p then
      some ({ l with disk := l.disk.unlink p }, some .removeDir)
    else none
  | .removeDir, .next, l =>
    if (channelEntries l.disk c).isEmpty then some (l, some .finish) else none
  | .finish, .next, l => some ({ l with store := l.store.finishChannelDeletion c }, none)
  | _, _, _ => none

/-- What the process is doing. -/
inductive Process where
  /-- In `delete`, behind the mark. -/
  | deleting (c : ChannelId) (pc : Pc)
  /-- `delete` has returned. -/
  | idle
  | down
  /-- In `resume_deletions`, at the first of the channels left. -/
  | resuming (c : ChannelId) (pc : Pc) (rest : List ChannelId)
  /-- `resume_deletions` has returned Ok. -/
  | resumed
  deriving DecidableEq

structure State extends Local where
  process : Process

/-- The loop of `resume_deletions` comes to the next channel. -/
def resumeNext : List ChannelId → Process
  | [] => .resumed
  | c :: rest => .resuming c .deleteData rest

def act (s : State) : Action → Option State
  | .crash => some { s with process := .down }
  | .start =>
    match s.process with
    | .down => some { s with process := resumeNext s.store.deletingChannels }
    | _ => none
  | .fail =>
    match s.process with
    | .deleting _ _ => some { s with process := .idle }
    | .resuming _ _ _ => some { s with process := .down }
    | _ => none
  | a =>
    match s.process with
    | .deleting c pc =>
      (finishStep c pc a s.toLocal).map fun x =>
        ⟨x.1, match x.2 with | some pc => .deleting c pc | none => .idle⟩
    | .resuming c pc rest =>
      (finishStep c pc a s.toLocal).map fun x =>
        ⟨x.1, match x.2 with | some pc => .resuming c pc rest | none => resumeNext rest⟩
    | _ => none

/-- A deletion is behind its mark, or the process is down; anything else may be stored. -/
def deletions : System State Action where
  init s := s.store.Keyed ∧
    (s.process = .down ∨ ∃ c, s.store.Marked c ∧ s.process = .deleting c .deleteData)
  step s a s' := act s a = some s'

/-! ## What one step of `finish_deletion` does -/

/-- Nothing is left of the channel. -/
structure Gone (c : ChannelId) (l : Local) : Prop where
  noData : l.store.NoData c
  noFiles : ∀ p, channelDir c <+: p → l.disk[p]? = none
  noRecord : l.store.channel c = none

/-- How far `finish_deletion` has come. -/
def Progress (c : ChannelId) (l : Local) : Pc → Prop
  | .deleteData => True
  | .removeDir => l.store.NoData c
  | .finish => l.store.NoData c ∧ ∀ p, channelDir c <+: p → l.disk[p]? = none

theorem noFiles_of_isEmpty {c : ChannelId} {d : FsDisk}
    (h : (channelEntries d c).isEmpty = true) : ∀ p, channelDir c <+: p → d[p]? = none := by
  intro p hp
  cases hd : d[p]? with
  | none => rfl
  | some n =>
    have hmem : p ∈ channelEntries d c := by
      rw [channelEntries, List.mem_filter, List.mem_map]
      exact ⟨⟨(p, n), ExtTreeMap.mem_toList_iff_getElem?_eq_some.mpr hd, rfl⟩,
        List.isPrefixOf_iff_prefix.mpr hp⟩
    rw [List.isEmpty_iff.mp h] at hmem
    cases hmem

/-- Everything a step does to what is stored. -/
structure FinishMove (c : ChannelId) (pc : Pc) (l l' : Local) (pc' : Option Pc) : Prop where
  others : ∀ d, c ≠ d → SameChannel d l'.store l.store ∧ SameFiles d l'.disk l.disk
  keyed : l.store.Keyed → l'.store.Keyed
  gone : Gone c l → Gone c l'
  /-- Until it returns, the record stays. -/
  record : pc'.isSome → l'.store.channel c = l.store.channel c
  progress : Progress c l pc → ∀ q, pc' = some q → Progress c l' q
  returned : Progress c l pc → pc' = none → Gone c l'

variable {c d : ChannelId} {pc : Pc} {a : Action} {l l' : Local} {pc' : Option Pc}

theorem finishStep_move (h : finishStep c pc a l = some (l', pc')) :
    FinishMove c pc l l' pc' := by
  cases pc with
  | deleteData =>
    cases a with
    | next =>
      cases h
      refine ⟨fun d hne => ⟨.deleteChannelData_other _ hne, .refl _ _⟩, fun h => h,
        fun h => ⟨h.noData.deleteChannelData, h.noFiles, h.noRecord⟩, fun _ => rfl,
        fun _ q hq => ?_, fun _ hnone => by cases hnone⟩
      cases hq
      exact .deleteChannelData_self _ c
    | _ => cases h
  | removeDir =>
    cases a with
    | next =>
      simp only [finishStep] at h
      split at h
      · rename_i hempty
        cases h
        refine ⟨fun d _ => ⟨.refl d _, .refl _ _⟩, fun h => h, fun h => h, fun _ => rfl,
          fun hprogress q hq => ?_, fun _ hnone => by cases hnone⟩
        cases hq
        exact ⟨hprogress, noFiles_of_isEmpty hempty⟩
      · cases h
    | remove p =>
      simp only [finishStep] at h
      split at h
      · rename_i hp
        cases h
        have hbelow := channelDir_prefix_of_removable hp.2
        refine ⟨fun d hne => ⟨.refl d _, .unlink_left (not_isPrefix_channelDir hne hbelow)⟩,
          fun h => h, fun h => ⟨h.noData, fun q hq => ?_, h.noRecord⟩, fun _ => rfl,
          fun hprogress q hq => ?_, fun _ hnone => by cases hnone⟩
        · rw [Disk.unlink_apply, h.noFiles q hq, ite_self]
        · cases hq
          exact hprogress
      · cases h
    | _ => cases h
  | finish =>
    cases a with
    | next =>
      cases h
      refine ⟨fun d hne => ⟨.finishChannelDeletion_other _ hne, .refl _ _⟩,
        fun h => h.finishChannelDeletion c,
        fun h => ⟨h.noData.finishChannelDeletion c, h.noFiles, by simp⟩,
        fun hsome => (by cases hsome), fun _ q hq => (by cases hq),
        fun hprogress _ => ⟨hprogress.1.finishChannelDeletion c, hprogress.2, by simp⟩⟩
    | _ => cases h

/-- What is gone stays gone. -/
theorem FinishMove.gone_all (h : FinishMove c pc l l' pc') (hd : Gone d l) : Gone d l' := by
  by_cases hne : c = d
  · subst hne
    exact h.gone hd
  · obtain ⟨hrows, hfiles⟩ := h.others d hne
    refine ⟨⟨fun k hk => ?_, fun k hk => ?_, fun k hk => ?_⟩, fun p hp => ?_, ?_⟩
    · rw [hrows.artifacts k hk, hd.noData.artifacts k hk]
    · rw [hrows.references k hk, hd.noData.references k hk]
    · rw [hrows.eviction k hk, hd.noData.eviction k hk]
    · rw [hfiles p hp, hd.noFiles p hp]
    · rw [hrows.channel, hd.noRecord]

/-! ## Along a run -/

/-- What is stored, against what was stored when the deletion was cut off. -/
structure Stored (l₀ l : Local) : Prop where
  keyed : l.store.Keyed
  others : ∀ d, ¬ l₀.store.Marked d → SameChannel d l.store l₀.store ∧ SameFiles d l.disk l₀.disk
  marked : ∀ d, l₀.store.Marked d → Gone d l ∨ l.store.channel d = l₀.store.channel d

theorem Stored.move {l₀ : Local} (h : Stored l₀ l) (hc : l₀.store.Marked c)
    (hmove : FinishMove c pc l l' pc') (hprogress : Progress c l pc) : Stored l₀ l' := by
  refine ⟨hmove.keyed h.keyed, fun d hd => ?_, fun d hd => ?_⟩
  · have hne : c ≠ d := fun hcd => hd (hcd ▸ hc)
    obtain ⟨hrows, hfiles⟩ := hmove.others d hne
    exact ⟨hrows.trans (h.others d hd).1, hfiles.trans (h.others d hd).2⟩
  · rcases h.marked d hd with hgone | hkept
    · exact .inl (hmove.gone_all hgone)
    · by_cases hne : c = d
      · subst hne
        cases pc' with
        | some q => exact .inr ((hmove.record rfl).trans hkept)
        | none => exact .inl (hmove.returned hprogress rfl)
      · exact .inr ((hmove.others d hne).1.channel.trans hkept)

/-- What the process is at: it works on marked channels only, and `resume_deletions` has
every marked channel behind it or before it. -/
def Process.Ok (l₀ l : Local) : Process → Prop
  | .deleting c pc => l₀.store.Marked c ∧ Progress c l pc
  | .resuming c pc rest =>
    (l₀.store.Marked c ∧ Progress c l pc) ∧ (∀ d ∈ rest, l₀.store.Marked d) ∧
      ∀ d, l₀.store.Marked d → d = c ∨ d ∈ rest ∨ Gone d l
  | .resumed => ∀ d, l₀.store.Marked d → Gone d l
  | .idle | .down => True

theorem Process.ok_resumeNext {l₀ : Local} {rest : List ChannelId}
    (hrest : ∀ d ∈ rest, l₀.store.Marked d)
    (hall : ∀ d, l₀.store.Marked d → d ∈ rest ∨ Gone d l) : (resumeNext rest).Ok l₀ l := by
  cases rest with
  | nil =>
    intro d hd
    rcases hall d hd with hmem | hgone
    · cases hmem
    · exact hgone
  | cons c rest =>
    refine ⟨⟨hrest c List.mem_cons_self, trivial⟩,
      fun d hd => hrest d (List.mem_cons_of_mem c hd), fun d hd => ?_⟩
    rcases hall d hd with hmem | hgone
    · rcases List.mem_cons.mp hmem with rfl | hmem
      · exact .inl rfl
      · exact .inr (.inl hmem)
    · exact .inr (.inr hgone)

structure Inv (l₀ : Local) (s : State) : Prop where
  stored : Stored l₀ s.toLocal
  process : s.process.Ok l₀ s.toLocal

theorem Inv.init {s : State} (h : deletions.init s) : Inv s.toLocal s := by
  obtain ⟨hkeyed, hprocess⟩ := h
  refine ⟨⟨hkeyed, fun d _ => ⟨.refl d _, .refl _ _⟩, fun d _ => .inr rfl⟩, ?_⟩
  rcases hprocess with hdown | ⟨c, hc, hdeleting⟩
  · rw [hdown]; trivial
  · rw [hdeleting]; exact ⟨hc, trivial⟩

/-- A startup goes through what is left of the marked channels. -/
theorem Inv.started {l₀ : Local} {s : State} (h : Stored l₀ s.toLocal) :
    (resumeNext s.store.deletingChannels).Ok l₀ s.toLocal := by
  refine Process.ok_resumeNext (fun d hd => ?_) fun d hd => ?_
  · obtain ⟨record, hrecord, hstate⟩ := h.keyed.mem_deletingChannels.mp hd
    by_contra hunmarked
    exact hunmarked ⟨record, (h.others d hunmarked).1.channel.symm.trans hrecord, hstate⟩
  · rcases h.marked d hd with hgone | hkept
    · exact .inr hgone
    · obtain ⟨record, hrecord, hstate⟩ := hd
      exact .inl (h.keyed.mem_deletingChannels.mpr ⟨record, hkept.trans hrecord, hstate⟩)

/-- A step of `finish_deletion` in `delete` or in `resume_deletions`. -/
theorem Inv.work {l₀ : Local} {s s' : State} {a : Action} (h : Inv l₀ s)
    (ha : a = .next ∨ ∃ p, a = .remove p) (hact : act s a = some s') : Inv l₀ s' := by
  obtain ⟨l, process⟩ := s
  have hprocess := h.process
  cases process with
  | deleting c pc =>
    obtain ⟨⟨l', pc'⟩, hstep, rfl⟩ : ∃ x, finishStep c pc a l = some x ∧ (⟨x.1, match x.2 with
        | some pc => .deleting c pc
        | none => .idle⟩ : State) = s' := by
      rcases ha with rfl | ⟨p, rfl⟩ <;> exact Option.map_eq_some_iff.mp hact
    have hmove := finishStep_move hstep
    refine ⟨h.stored.move hprocess.1 hmove hprocess.2, ?_⟩
    cases pc' with
    | some q => exact ⟨hprocess.1, hmove.progress hprocess.2 q rfl⟩
    | none => trivial
  | resuming c pc rest =>
    obtain ⟨⟨l', pc'⟩, hstep, rfl⟩ : ∃ x, finishStep c pc a l = some x ∧ (⟨x.1, match x.2 with
        | some pc => .resuming c pc rest
        | none => resumeNext rest⟩ : State) = s' := by
      rcases ha with rfl | ⟨p, rfl⟩ <;> exact Option.map_eq_some_iff.mp hact
    have hmove := finishStep_move hstep
    obtain ⟨⟨hc, hprogress⟩, hrest, hall⟩ := hprocess
    refine ⟨h.stored.move hc hmove hprogress, ?_⟩
    cases pc' with
    | some q =>
      refine ⟨⟨hc, hmove.progress hprogress q rfl⟩, hrest, fun d hd => ?_⟩
      rcases hall d hd with rfl | hmem | hgone
      · exact .inl rfl
      · exact .inr (.inl hmem)
      · exact .inr (.inr (hmove.gone_all hgone))
    | none =>
      refine Process.ok_resumeNext hrest fun d hd => ?_
      rcases hall d hd with rfl | hmem | hgone
      · exact .inr (hmove.returned hprogress rfl)
      · exact .inl hmem
      · exact .inr (hmove.gone_all hgone)
  | idle | down | resumed => rcases ha with rfl | ⟨p, rfl⟩ <;> cases hact

theorem Inv.step {l₀ : Local} {s s' : State} {a : Action} (h : Inv l₀ s)
    (hact : act s a = some s') : Inv l₀ s' := by
  cases a with
  | next => exact h.work (.inl rfl) hact
  | remove p => exact h.work (.inr ⟨p, rfl⟩) hact
  | crash =>
    cases hact
    exact ⟨h.stored, trivial⟩
  | fail =>
    obtain ⟨l, process⟩ := s
    cases process with
    | deleting c pc => cases hact; exact ⟨h.stored, trivial⟩
    | resuming c pc rest => cases hact; exact ⟨h.stored, trivial⟩
    | idle | down | resumed => cases hact
  | start =>
    obtain ⟨l, process⟩ := s
    cases process with
    | down => cases hact; exact ⟨h.stored, Inv.started h.stored⟩
    | deleting c pc | resuming c pc rest | idle | resumed => cases hact

/-! ## What a complete run of `finish_deletion` computes -/

/-- From the step `pc` on, `finish_deletion` may return Ok with `l'` stored. -/
inductive Finishes (c : ChannelId) : Pc → Local → Local → Prop
  | returned {pc : Pc} {a : Action} {l l' : Local}
    (h : finishStep c pc a l = some (l', none)) : Finishes c pc l l'
  | step {pc q : Pc} {a : Action} {l l' l'' : Local}
    (h : finishStep c pc a l = some (l', some q)) (hrest : Finishes c q l' l'') :
    Finishes c pc l l''

/-- The directory of the channel and everything in it removed. -/
def removeChannel (c : ChannelId) (d : FsDisk) : FsDisk :=
  eraseWhere (fun p _ => (channelDir c).isPrefixOf p) d

def finished (c : ChannelId) (l : Local) : Local :=
  ⟨(l.store.deleteChannelData c).finishChannelDeletion c, removeChannel c l.disk⟩

theorem removeChannel_apply (c : ChannelId) (d : FsDisk) (p : Path) :
    (removeChannel c d)[p]? = if channelDir c <+: p then none else d[p]? := by
  rw [removeChannel, eraseWhere_apply]
  by_cases hp : channelDir c <+: p
  · cases d[p]? <;> simp [hp]
  · have hp' : (channelDir c).isPrefixOf p = false := by
      rwa [Bool.eq_false_iff, ne_eq, List.isPrefixOf_iff_prefix]
    cases d[p]? <;> simp [hp, hp']

theorem removeChannel_of_noFiles {d : FsDisk} (h : ∀ p, channelDir c <+: p → d[p]? = none) :
    removeChannel c d = d := by
  refine ExtTreeMap.ext_getElem? fun p => ?_
  rw [removeChannel_apply]
  split
  · rename_i hp
    exact (h p hp).symm
  · rfl

/-- An entry removed on the way makes no difference at the end. -/
theorem removeChannel_unlink {d : FsDisk} {p : Path} (hp : channelDir c <+: p) :
    removeChannel c (d.unlink p) = removeChannel c d := by
  refine ExtTreeMap.ext_getElem? fun q => ?_
  rw [removeChannel_apply, removeChannel_apply, Disk.unlink_apply]
  by_cases hq : channelDir c <+: q
  · rw [if_pos hq, if_pos hq]
  · rw [if_neg fun (heq : p = q) => hq (heq ▸ hp)]

/-- The result from each of the steps on. -/
def finishedFrom (c : ChannelId) (l : Local) : Pc → Local
  | .deleteData => finished c l
  | .removeDir => ⟨l.store.finishChannelDeletion c, removeChannel c l.disk⟩
  | .finish => ⟨l.store.finishChannelDeletion c, l.disk⟩

theorem finishedFrom_step {q : Pc} (h : finishStep c pc a l = some (l', some q)) :
    finishedFrom c l pc = finishedFrom c l' q := by
  cases pc with
  | deleteData =>
    cases a with
    | next => cases h; rfl
    | _ => cases h
  | removeDir =>
    cases a with
    | next =>
      simp only [finishStep] at h
      split at h
      · rename_i hempty
        cases h
        rw [finishedFrom, finishedFrom, removeChannel_of_noFiles (noFiles_of_isEmpty hempty)]
      · cases h
    | remove p =>
      simp only [finishStep] at h
      split at h
      · rename_i hp
        cases h
        rw [finishedFrom, finishedFrom,
          removeChannel_unlink (channelDir_prefix_of_removable hp.2)]
      · cases h
    | _ => cases h
  | finish =>
    cases a with
    | next => cases h
    | _ => cases h

theorem finishedFrom_returned (h : finishStep c pc a l = some (l', none)) :
    finishedFrom c l pc = l' := by
  cases pc with
  | deleteData =>
    cases a with
    | next => cases h
    | _ => cases h
  | removeDir =>
    cases a with
    | next =>
      simp only [finishStep] at h
      split at h <;> cases h
    | remove p =>
      simp only [finishStep] at h
      split at h <;> cases h
    | _ => cases h
  | finish =>
    cases a with
    | next => cases h; rfl
    | _ => cases h

/-- In whatever order the directory was emptied, the result is one. -/
theorem Finishes.eq_finishedFrom (h : Finishes c pc l l') : l' = finishedFrom c l pc := by
  induction h with
  | returned h => exact (finishedFrom_returned h).symm
  | step h _ ih => rw [ih, finishedFrom_step h]

theorem finished_finished (c : ChannelId) (l : Local) : finished c (finished c l) = finished c l := by
  have hfiles : removeChannel c (removeChannel c l.disk) = removeChannel c l.disk :=
    removeChannel_of_noFiles fun p hp => by rw [removeChannel_apply, if_pos hp]
  have hrange : ∀ {V : Type} (f : Family V), (f.deleteRange c.asKey (prefixEnd c.asKey)).deleteRange
      c.asKey (prefixEnd c.asKey) = f.deleteRange c.asKey (prefixEnd c.asKey) := by
    intro V f
    refine ExtTreeMap.ext_getElem? fun k => ?_
    rw [Family.get_deleteRange, Family.get_deleteRange]
    split <;> rfl
  have hchannels : (l.store.channels.delete c.asKey).delete c.asKey =
      l.store.channels.delete c.asKey := by
    refine ExtTreeMap.ext_getElem? fun k => ?_
    rw [Family.get_delete, Family.get_delete]
    split <;> rfl
  simp only [finished, RocksMetadata.deleteChannelData, RocksMetadata.finishChannelDeletion, hfiles,
    hrange, hchannels]

/-- On its own result `finish_deletion` runs through, and nothing changes. -/
theorem Finishes.again (h : Finishes c .deleteData l l') :
    Finishes c .deleteData l' l' ∧ ∀ l'', Finishes c .deleteData l' l'' → l'' = l' := by
  obtain rfl : l' = finished c l := h.eq_finishedFrom
  have hsame : ∀ l'', Finishes c .deleteData (finished c l) l'' → l'' = finished c l := by
    intro l'' hagain
    rw [hagain.eq_finishedFrom, finishedFrom, finished_finished]
  have hempty : (channelEntries (removeChannel c l.disk) c).isEmpty = true := by
    rw [List.isEmpty_iff, List.eq_nil_iff_forall_not_mem]
    intro p hp
    obtain ⟨hmem, hbelow⟩ := List.mem_filter.mp hp
    obtain ⟨⟨_, n⟩, hn, rfl⟩ := List.mem_map.mp hmem
    have hnone := ExtTreeMap.mem_toList_iff_getElem?_eq_some.mp hn
    rw [removeChannel_apply, if_pos (List.isPrefixOf_iff_prefix.mp hbelow)] at hnone
    cases hnone
  -- the three steps, with nothing to remove in the second
  have hrun : ∃ l'', Finishes c .deleteData (finished c l) l'' :=
    ⟨_, .step (a := .next) rfl (.step (a := .next) (q := .finish) (if_pos hempty)
      (.returned (a := .next) rfl))⟩
  obtain ⟨l'', hrun⟩ := hrun
  obtain rfl := hsame l'' hrun
  exact ⟨hrun, hsame⟩

/-! ## Any number of crashes -/

/-- Whatever was stored when the deletion was cut off, however often the process dies and at
whatever step: channels that were not marked are as they were at every moment; when
`resume_deletions` has returned, nothing is left of those that were; and `finish_deletion` does
nothing to its own result. -/
theorem interrupted_deletions_resume {start s : State} (hstart : deletions.init start)
    (hrun : deletions.Steps (fun _ _ => True) start s) :
    (∀ d, ¬ start.store.Marked d →
      SameChannel d s.store start.store ∧ SameFiles d s.disk start.disk) ∧
    (s.process = .resumed → ∀ c, start.store.Marked c → Gone c s.toLocal) ∧
    ∀ c l l', Finishes c .deleteData l l' →
      Finishes c .deleteData l' l' ∧ ∀ l'', Finishes c .deleteData l' l'' → l'' = l' := by
  have hinv : Inv start.toLocal s :=
    hrun.preserves (fun _ _ _ h _ hstep => h.step hstep) (Inv.init hstart)
  refine ⟨hinv.stored.others, fun hresumed => ?_, fun c l l' h => h.again⟩
  have hprocess := hinv.process
  rw [hresumed] at hprocess
  exact hprocess

/-- A deletion that is at its first step, with one record of the channel and a directory;
beside it a channel that was marked too, with a record. -/
def twoMarked : State where
  store := (((RocksMetadata.empty.storeChannel ⟨⟨1⟩, .open, 100, .deleting, 0⟩).storeChannel
    ⟨⟨2⟩, .open, 100, .deleting, 0⟩).commitBatch ⟨1⟩ sampleArtifact false
      ⟨1, none, 0, 100, 1, .identity⟩ none).commitBatch ⟨2⟩ sampleArtifact false
        ⟨1, none, 0, 100, 1, .identity⟩ none
  disk := (∅ : FsDisk).mkdirAll (tmpDir ⟨1⟩)
  process := .deleting ⟨1⟩ .deleteData

theorem twoMarked_init : deletions.init twoMarked := by
  refine ⟨?_, .inr ⟨⟨1⟩, ⟨⟨⟨1⟩, .open, 100, .deleting, 0⟩, by decide, rfl⟩, rfl⟩⟩
  have hkeyed : ((RocksMetadata.empty.storeChannel ⟨⟨1⟩, .open, 100, .deleting, 0⟩).storeChannel
      ⟨⟨2⟩, .open, 100, .deleting, 0⟩).Keyed :=
    (RocksMetadata.Keyed.empty.storeChannel _).storeChannel _
  exact hkeyed

/-- The process dies before anything but the rows is gone, dies again inside the removal of
the directory, and then starts in peace. -/
def twoCrashes : List Action :=
  [.next, .crash, .start, .next, .remove (tmpDir ⟨1⟩), .crash, .start, .next,
    .remove (channelDir ⟨1⟩), .next, .next, .next, .next, .next]

theorem twoCrashes_run : ∃ s, deletions.Steps (fun _ _ => True) twoMarked s ∧
    s.process = .resumed ∧ s.store.artifact ⟨2⟩ sampleArtifact = none := by
  have hexec : (System.exec act (fun _ _ => true) twoMarked twoCrashes).any (fun s =>
      decide (s.process = .resumed ∧ s.store.artifact ⟨2⟩ sampleArtifact = none)) = true := by
    decide
  obtain ⟨s, hs, hend⟩ := (Option.any_eq_true _ _).mp hexec
  exact ⟨s, System.steps_of_exec (fun _ _ _ h => h) (fun _ _ _ => trivial) hs,
    of_decide_eq_true hend⟩

theorem interrupted_twice : ∃ s, deletions.Steps (fun _ _ => True) twoMarked s ∧
    Gone ⟨1⟩ s.toLocal ∧ Gone ⟨2⟩ s.toLocal := by
  obtain ⟨s, hrun, hresumed, -⟩ := twoCrashes_run
  have hgone := (interrupted_deletions_resume twoMarked_init hrun).2.1 hresumed
  exact ⟨s, hrun, hgone ⟨1⟩ ⟨⟨⟨1⟩, .open, 100, .deleting, 0⟩, by decide, rfl⟩,
    hgone ⟨2⟩ ⟨⟨⟨2⟩, .open, 100, .deleting, 0⟩, by decide, rfl⟩⟩

/-- A deletion of one channel is cut off; the startup that completes it takes the rows of
another channel that was marked. -/
theorem resume_deletes_other_marked : ∃ s, deletions.init twoMarked ∧
    twoMarked.process = .deleting ⟨1⟩ .deleteData ∧
    deletions.Steps (fun _ _ => True) twoMarked s ∧ s.process = .resumed ∧
    ¬ ∀ d, d ≠ ⟨1⟩ → SameChannel d s.store twoMarked.store ∧ SameFiles d s.disk twoMarked.disk := by
  obtain ⟨s, hrun, hresumed, hnone⟩ := twoCrashes_run
  refine ⟨s, twoMarked_init, rfl, hrun, hresumed, fun hsame => ?_⟩
  have hrow := (hsame ⟨2⟩ (by decide)).1.artifact sampleArtifact
  rw [hnone] at hrow
  exact absurd hrow.symm (by decide)

end Deletions

end Flywheel
