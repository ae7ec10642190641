import Flywheel.Shard.Moves
import Flywheel.Shard.Sample

/-!
# The lifecycle of a channel

A channel goes from absent over active and deleting back to absent, and its identifier is
never drawn again. `PATCH` and `DELETE` both write back a whole record they have read
under the shared side of the gate, so a patch that read the active record may store it
after a deletion has stored the deleting one (`deletion_undone`).

`Doomed c` says that nothing in the shard can make `c` active again: it is kept by every
step of every run, by crashes and by losses of power. Where no patch is between its read
and its write when a deletion stores its mark (`NoStalePatch`), every channel that is
deleting is doomed.
-/

set_option autoImplicit false

namespace Flywheel

open Lib

variable {ι : Type} {E : Env ι} {i : ι} {e : Event} {s s' : Shared ι} {t t' : Task}

/-! ## What becomes of a registry record -/

/-- What becomes of the registry record of `c` in a step. -/
inductive ChannelChange (s : Shared ι) (t : Task) (s' : Shared ι) (c : ChannelId) : Prop
  | keep (h : s'.channel c = s.channel c)
  | registered {record : ChannelRecord} (ht : t = .register record .write) (hc : record.id = c)
    (h : s'.channel c = some record)
  | patched {c' : ChannelId} {credential : Option Bytes} {expirySeconds : Option UInt64} {g : Nat}
    {record : ChannelRecord} (ht : t = .patch c' credential expirySeconds (.store g record))
    (hc : record.id = c) (h : s'.channel c = some record)
  | marked {c' : ChannelId} {credential : Option Bytes} {g : Nat} {record : ChannelRecord}
    (ht : t = .delete c' credential (.store g record)) (hc : record.id = c)
    (h : s'.channel c = some { record with state := .deleting })
  | finished {credential : Option Bytes} {g : Nat} (ht : t = .delete c credential (.finish g))
    (h : s'.channel c = none)

/-- Every state a loss of power may fall back to has the same registry. -/
def Shared.RegistrySynced (s : Shared ι) : Prop :=
  s.store.Always fun x => x.channels = s.store.current.channels

theorem Shared.RegistrySynced.commit (h : s.RegistrySynced) {durability : Durability}
    {batch : RocksMetadata → RocksMetadata}
    (hbatch : (batch s.store.current).channels = s.store.current.channels) :
    (s.commit durability batch).RegistrySynced := by
  cases durability with
  | durable => exact Journal.Always.writeSync rfl
  | bestEffort =>
    refine Journal.Always.write (fun x hx => ?_) rfl
    exact (h x hx).trans hbatch.symm

theorem Shared.RegistrySynced.durable (s : Shared ι) (batch : RocksMetadata → RocksMetadata) :
    (s.commit .durable batch).RegistrySynced := Journal.Always.writeSync rfl

section Moves

variable [DecidableEq ι]

theorem Move.channel_change (h : Move E i s t s' t') (c : ChannelId) :
    ChannelChange s t s' c := by
  have hkeep : s'.store.current.channels = s.store.current.channels → ChannelChange s t s' c := by
    intro hc
    exact .keep (by rw [Shared.channel, RocksMetadata.channel, hc]; rfl)
  have hstored : ∀ record : ChannelRecord,
      s'.store = (s.commit .durable (·.storeChannel record)).store →
        s'.channel c = if record.id = c then some record else s.channel c := by
    intro record hs
    simp [Shared.channel, hs]
  cases h.store with
  | keep hs => exact hkeep (by rw [hs])
  | publication now ht hs => exact hkeep (by simp [hs, PublishRequest.batch])
  | heal ht hs | requeue ht hs | deleteData ht hs =>
    refine hkeep ?_
    rw [hs, Shared.commit_current]
    rfl
  | evict ht hs => exact hkeep (by simp [hs])
  | @reference c' name op g now ht hs =>
    refine hkeep ?_
    rw [hs]
    cases op <;> rw [ReferenceOp.commit, Shared.commit_current] <;> rfl
  | @register record ht hs =>
    by_cases hid : record.id = c
    · exact .registered ht hid (by rw [hstored record hs, if_pos hid])
    · exact .keep (by rw [hstored record hs, if_neg hid])
  | @patch c' credential expirySeconds g record ht hs =>
    by_cases hid : record.id = c
    · exact .patched ht hid (by rw [hstored record hs, if_pos hid])
    · exact .keep (by rw [hstored record hs, if_neg hid])
  | @delete c' credential g record ht hs =>
    have hchannel := hstored { record with state := .deleting } hs
    by_cases hid : record.id = c
    · exact .marked ht hid (by rw [hchannel, if_pos hid])
    · exact .keep (by rw [hchannel, if_neg hid])
  | @finish c' credential g ht hs =>
    have hchannel : s'.channel c = if c' = c then none else s.channel c := by
      simp [Shared.channel, hs]
    by_cases hid : c' = c
    · subst hid
      exact .finished ht (by rw [hchannel, if_pos rfl])
    · exact .keep (by rw [hchannel, if_neg hid])

/-- Registry records are written synchronously, and no other batch changes them. -/
theorem Move.registry_synced (h : Move E i s t s' t') (hs : s.RegistrySynced) :
    s'.RegistrySynced := by
  have hstore : ∀ {x : Shared ι}, s'.store = x.store → x.RegistrySynced → s'.RegistrySynced := by
    intro x hx hsynced
    rw [Shared.RegistrySynced, hx]
    exact hsynced
  cases h.store with
  | keep h => exact hstore h hs
  | publication now ht h => exact hstore h (hs.commit (by simp [PublishRequest.batch]))
  | heal ht h | requeue ht h => exact hstore h (hs.commit rfl)
  | evict ht h => exact hstore h (hs.commit (by simp))
  | @reference c' name op g now ht h =>
    refine hstore h ?_
    cases op <;> exact hs.commit rfl
  | register ht h | patch ht h | delete ht h | deleteData ht h | finish ht h =>
    exact hstore h (.durable s _)

/-- An identifier that was drawn stays drawn. -/
theorem Move.issued_mono (h : Move E i s t s' t') {c : ChannelId} (hc : s.issued c = true) :
    s'.issued c = true := by
  cases h.issued with
  | keep hkeep => rw [hkeep, hc]
  | @draw record _ _ _ _ hs =>
    rw [hs]
    by_cases hrecord : c = record.id
    · rw [hrecord, Function.update_self]
    · rw [Function.update_of_ne hrecord, hc]

end Moves

/-! ## The records in flight -/

/-- The channel whose record a registration will create. -/
def Task.registers : Task → Option ChannelId
  | .register record .read | .register record .write => some record.id
  | _ => none

/-- The channel whose record a task has read and will write back. -/
def Task.writesBack : Task → Option ChannelId
  | .patch c _ _ (.store _ _) | .delete c _ (.store _ _) => some c
  | _ => none

/-- The channel whose record a patch has read and will write back. -/
def Task.patches : Task → Option ChannelId
  | .patch c _ _ (.store _ _) => some c
  | _ => none

/-- The record a task carries is its channel's; a patch and a registration carry an active
one. -/
def Task.Named : Task → Prop
  | .patch c _ _ (.store _ record) => record.id = c ∧ record.state = .active
  | .delete c _ (.store _ record) => record.id = c
  | .register record _ => record.state = .active
  | _ => True

theorem Task.writesBack_of_patches {c : ChannelId} (h : t.patches = some c) :
    t.writesBack = some c := by
  cases t with
  | patch c' credential expirySeconds pc =>
    cases pc with
    | store => exact h
    | _ => cases h
  | _ => cases h

section Steps

variable [DecidableEq ι]

/-- A registration in progress was just drawn, or is past its check. -/
theorem registers_of_step (h : Task.step E i e s t = some (s', t')) {c : ChannelId}
    (hc : t'.registers = some c) :
    (t = .idle ∧ s.issued c = false ∧ s'.issued c = true) ∨
      (s' = s ∧ ∃ record, record.id = c ∧ t = .register record .read) := by
  cases t' with
  | register record pc' =>
    have hfrom := step_from h
    cases pc' with
    | read =>
      cases hc
      rcases hfrom with ⟨rfl, hfresh, -, -, hs⟩ | ⟨pc, -, hnone⟩
      · exact .inl ⟨rfl, hfresh, by simp [hs]⟩
      · exact hnone.elim
    | write =>
      cases hc
      rcases hfrom with ⟨-, -, -, hpc, -⟩ | ⟨pc, ht, rfl, hs, -⟩
      · cases hpc
      · exact .inr ⟨hs, record, rfl, ht⟩
    | gate => cases hc
  | _ => cases hc

/-- Whoever is about to write a record back has just found it, or found it before. -/
theorem writesBack_of_step (h : Task.step E i e s t = some (s', t')) {c : ChannelId}
    (hc : t'.writesBack = some c) : ∃ record, s.channel c = some record ∧ record.state = .active := by
  cases t' with
  | patch c' credential expirySeconds pc' =>
    cases pc' with
    | store g record =>
      cases hc
      rcases step_from h with ⟨-, -, hpc⟩ | ⟨pc, -, -, -, old, hold, hactive, -⟩
      · cases hpc
      · exact ⟨old, hold, hactive⟩
    | _ => cases hc
  | delete c' credential pc' =>
    cases pc' with
    | store g record =>
      cases hc
      rcases step_from h with ⟨-, -, ⟨hpc, -⟩ | hpc⟩ | ⟨pc, -, -, -, hrecord, hactive⟩
      · cases hpc
      · cases hpc
      · exact ⟨record, hrecord, hactive⟩
    | _ => cases hc
  | _ => cases hc

theorem named_of_step (h : Task.step E i e s t = some (s', t')) (ht : t.Named)
    (hids : ∀ c record, s.channel c = some record → record.id = c) : t'.Named := by
  cases t' with
  | patch c credential expirySeconds pc' =>
    cases pc' with
    | store g record =>
      rcases step_from h with ⟨-, -, hpc⟩ | ⟨pc, -, -, -, old, hold, hactive, hrecord⟩
      · cases hpc
      · rw [hrecord]
        exact ⟨hids c old hold, hactive⟩
    | _ => trivial
  | delete c credential pc' =>
    cases pc' with
    | store g record =>
      rcases step_from h with ⟨-, -, ⟨hpc, -⟩ | hpc⟩ | ⟨pc, -, -, -, hrecord, -⟩
      · cases hpc
      · cases hpc
      · exact hids c record hrecord
    | _ => trivial
  | register record pc' =>
    rcases step_from h with ⟨-, -, hactive, -⟩ | ⟨pc, rfl, -⟩
    · exact hactive
    · exact ht
  | _ => trivial

end Steps

/-! ## The registry in every run -/

/-- The channel has no record, and nobody is about to write one back. -/
structure Vacant (c : ChannelId) (p : Shard ι) : Prop where
  absent : p.shared.channel c = none
  unread : ∀ k, (p.task k).writesBack ≠ some c

structure Registry (p : Shard ι) : Prop where
  named : ∀ j, (p.task j).Named
  ids : ∀ c record, p.shared.channel c = some record → record.id = c
  synced : p.shared.RegistrySynced
  unissued : ∀ c, p.shared.issued c = false → Vacant c p ∧ ∀ k, (p.task k).registers ≠ some c
  registering : ∀ j c, (p.task j).registers = some c →
    p.shared.issued c = true ∧ Vacant c p ∧ ∀ k, (p.task k).registers = some c → k = j

variable {p p' : Shard ι}

/-- The identifier was drawn and its registration is over. -/
structure Drawn (c : ChannelId) (p : Shard ι) : Prop where
  issued : p.shared.issued c = true
  unregistered : ∀ k, (p.task k).registers ≠ some c

/-- A channel that is not vacant was drawn. -/
theorem Registry.drawn (h : Registry p) {c : ChannelId} (hc : ¬ Vacant c p) : Drawn c p := by
  refine ⟨?_, fun k hk => hc (h.registering k c hk).2.1⟩
  by_contra hissued
  exact hc (h.unissued c (Bool.eq_false_iff.mpr hissued)).1

theorem Registry.drawn_of_channel (h : Registry p) {c : ChannelId} {record : ChannelRecord}
    (hrecord : p.shared.channel c = some record) : Drawn c p := by
  refine h.drawn fun hvacant => ?_
  rw [hvacant.absent] at hrecord
  cases hrecord

variable [DecidableEq ι]

/-- An vacant channel stays vacant while its registration has not written its record. -/
theorem Vacant.fire {c : ChannelId} (h : Vacant c p) (hnamed : (p.task i).Named)
    (hfire : p.fire E i e = some p') (hwrite : ∀ record, record.id = c →
      p.task i ≠ .register record .write) : Vacant c p' := by
  obtain ⟨hstep, hothers⟩ := Shard.fire_eq_some hfire
  refine ⟨?_, fun k hk => ?_⟩
  · have hi := h.unread i
    cases (step_move hstep).channel_change c with
    | keep hkeep => rw [hkeep, h.absent]
    | registered ht hc => exact absurd ht (hwrite _ hc)
    | patched ht hc =>
      rw [ht] at hnamed hi
      exact absurd (congrArg some (hnamed.1.symm.trans hc)) hi
    | marked ht hc =>
      rw [ht] at hnamed hi
      exact absurd (congrArg some (Eq.trans (Eq.symm hnamed) hc)) hi
    | finished ht hnone => exact hnone
  · by_cases hki : k = i
    · subst hki
      obtain ⟨record, hrecord, -⟩ := writesBack_of_step hstep hk
      rw [h.absent] at hrecord
      cases hrecord
    · rw [hothers k hki] at hk
      exact h.unread k hk

theorem Registry.fire (h : Registry p) (hfire : p.fire E i e = some p') : Registry p' := by
  obtain ⟨hstep, hothers⟩ := Shard.fire_eq_some hfire
  have hmove := step_move hstep
  have hnamed' := named_of_step hstep (h.named i) h.ids
  refine ⟨fun j => ?_, fun c record hrecord => ?_, hmove.registry_synced h.synced, ?_, ?_⟩
  · by_cases hji : j = i
    · subst hji
      exact hnamed'
    · rw [hothers j hji]
      exact h.named j
  · have hi := h.named i
    cases hmove.channel_change c with
    | keep hkeep =>
      rw [hkeep] at hrecord
      exact h.ids c record hrecord
    | registered ht hc hs | patched ht hc hs | marked ht hc hs =>
      rw [hs] at hrecord
      cases hrecord
      exact hc
    | finished ht hs =>
      rw [hs] at hrecord
      cases hrecord
  · -- an identifier not drawn yet was not drawn before either
    intro c hfresh
    have hold : p.shared.issued c = false := by
      cases hmove.issued with
      | keep hkeep => rwa [hkeep] at hfresh
      | @draw record _ _ hrecord _ hs =>
        by_cases hc : c = record.id
        · rw [hs, hc, Function.update_self] at hfresh
          cases hfresh
        · rwa [hs, Function.update_of_ne hc] at hfresh
    obtain ⟨hvacant, hnone⟩ := h.unissued c hold
    refine ⟨hvacant.fire (h.named i) hfire fun record hc ht => hnone i ?_, fun k hk => ?_⟩
    · rw [ht, ← hc]
      rfl
    · by_cases hki : k = i
      · subst hki
        rcases registers_of_step hstep hk with ⟨-, -, hissued⟩ | ⟨-, record, hc, ht⟩
        · rw [hfresh] at hissued
          cases hissued
        · exact hnone k (by rw [ht, ← hc]; rfl)
      · rw [hothers k hki] at hk
        exact hnone k hk
  · intro j c hj
    by_cases hji : j = i
    · subst hji
      rcases registers_of_step hstep hj with ⟨ht, hfresh, hissued⟩ | ⟨hs, record, hc, ht⟩
      · -- just drawn
        obtain ⟨hvacant, hnone⟩ := h.unissued c hfresh
        refine ⟨hissued, hvacant.fire (h.named j) hfire fun record _ hwrite => ?_, fun k hk => ?_⟩
        · rw [ht] at hwrite
          cases hwrite
        · by_contra hkj
          rw [hothers k hkj] at hk
          exact hnone k hk
      · -- past its check
        obtain ⟨hissued, hvacant, hunique⟩ := h.registering j c (by rw [ht, ← hc]; rfl)
        refine ⟨by rw [hs]; exact hissued,
          hvacant.fire (h.named j) hfire fun record _ hwrite => ?_, fun k hk => ?_⟩
        · rw [ht] at hwrite
          cases hwrite
        · by_contra hkj
          rw [hothers k hkj] at hk
          exact hkj (hunique k hk)
    · rw [hothers j hji] at hj
      obtain ⟨hissued, hvacant, hunique⟩ := h.registering j c hj
      refine ⟨hmove.issued_mono hissued,
        hvacant.fire (h.named i) hfire fun record hc hwrite => ?_, fun k hk => ?_⟩
      · exact hji (hunique i (by rw [hwrite, ← hc]; rfl)).symm
      · by_cases hki : k = i
        · subst hki
          rcases registers_of_step hstep hk with ⟨-, hfresh, -⟩ | ⟨-, record, hc, ht⟩
          · rw [hissued] at hfresh
            cases hfresh
          · exact hunique k (by rw [ht, ← hc]; rfl)
        · rw [hothers k hki] at hk
          exact hunique k hk

omit [DecidableEq ι] in
theorem Task.lost_carries_nothing (t : Task) :
    t.lost.Named ∧ t.lost.registers = none ∧ t.lost.writesBack = none := by
  cases t <;> exact ⟨trivial, rfl, rfl⟩

omit [DecidableEq ι] in
/-- A new process finds the registry as it was. -/
theorem Registry.lost (h : Registry p) (hlost : ∀ j, ∃ t : Task, p'.task j = t.lost)
    (hissued : p'.shared.issued = p.shared.issued)
    (hchannels : p'.shared.store.current.channels = p.shared.store.current.channels)
    (hsynced : p'.shared.RegistrySynced) : Registry p' := by
  have hchannel : ∀ c, p'.shared.channel c = p.shared.channel c := by
    intro c
    rw [Shared.channel, RocksMetadata.channel, hchannels]
    rfl
  have hnothing : ∀ j, (p'.task j).Named ∧ (p'.task j).registers = none ∧
      (p'.task j).writesBack = none := by
    intro j
    obtain ⟨t, ht⟩ := hlost j
    rw [ht]
    exact t.lost_carries_nothing
  refine ⟨fun j => (hnothing j).1, fun c record hrecord => ?_, hsynced, fun c hfresh => ?_,
    fun j c hj => ?_⟩
  · rw [hchannel c] at hrecord
    exact h.ids c record hrecord
  · rw [hissued] at hfresh
    refine ⟨⟨?_, fun k hk => ?_⟩, fun k hk => ?_⟩
    · rw [hchannel c]
      exact (h.unissued c hfresh).1.absent
    · rw [(hnothing k).2.2] at hk
      cases hk
    · rw [(hnothing k).2.1] at hk
      cases hk
  · rw [(hnothing j).2.1] at hj
    cases hj

/-- In every state of every run. -/
theorem registry_of_reach {G : Shard ι → Action ι → Prop} (h : (shard E).Reach G p) :
    Registry p := by
  refine h.invariant ?_ ?_
  · rintro _ ⟨expirySeconds, now, rfl⟩
    have hchannel := @Shared.fresh_channel ι expirySeconds now
    refine ⟨fun j => trivial, fun c record hrecord => ?_, Journal.Always.synced rfl, ?_,
      fun j c hj => by cases hj⟩
    · rw [Shard.fresh, hchannel c] at hrecord
      split at hrecord
      · rename_i hc
        cases hrecord
        exact hc
      · cases hrecord
    · intro c hfresh
      have hc : ¬ ChannelId.default = c := by
        rintro rfl
        cases hfresh
      exact ⟨⟨by rw [Shard.fresh, hchannel c, if_neg hc], fun k hk => by cases hk⟩, fun k hk => by cases hk⟩
  · intro x a y hx _ hstep
    cases a with
    | thread i e => exact hx.fire hstep
    | crash =>
      obtain rfl : y = x.crash := hstep
      exact hx.lost (fun j => ⟨x.task j, rfl⟩) rfl rfl hx.synced
    | losePower d z =>
      obtain ⟨-, hz, rfl⟩ := hstep
      exact hx.lost (fun j => ⟨x.task j, rfl⟩) rfl (hx.synced z hz) (Journal.Always.synced rfl)

/-! ## Channels that are going away -/

/-- An identifier is drawn once. -/
theorem Drawn.fire {c : ChannelId} (h : Drawn c p) (hfire : p.fire E i e = some p') :
    Drawn c p' := by
  obtain ⟨hstep, hothers⟩ := Shard.fire_eq_some hfire
  refine ⟨(step_move hstep).issued_mono h.issued, fun k hk => ?_⟩
  by_cases hki : k = i
  · subst hki
    rcases registers_of_step hstep hk with ⟨-, hfresh, -⟩ | ⟨-, record, hc, ht⟩
    · rw [h.issued] at hfresh
      cases hfresh
    · exact h.unregistered k (by rw [ht, ← hc]; rfl)
  · rw [hothers k hki] at hk
    exact h.unregistered k hk

omit [DecidableEq ι] in
theorem Drawn.lost {c : ChannelId} (h : Drawn c p) {x : Shared ι}
    (hissued : x.issued = p.shared.issued) :
    Drawn c (⟨x, fun j => (p.task j).lost⟩ : Shard ι) := by
  refine ⟨by rw [hissued, h.issued], fun k hk => ?_⟩
  rw [((p.task k).lost_carries_nothing).2.1] at hk
  cases hk

/-- Nothing in the shard can make `c` active again. -/
structure Doomed (c : ChannelId) (p : Shard ι) : Prop where
  drawn : Drawn c p
  inactive : ∀ record, p.shared.channel c = some record → record.state = .deleting
  unpatched : ∀ k, (p.task k).patches ≠ some c

/-- A doomed channel is never registered, patched or read as active again. -/
theorem Doomed.fire {c : ChannelId} (h : Doomed c p) (hregistry : Registry p)
    (hfire : p.fire E i e = some p') : Doomed c p' := by
  obtain ⟨hstep, hothers⟩ := Shard.fire_eq_some hfire
  have hmove := step_move hstep
  refine ⟨h.drawn.fire hfire, fun record hrecord => ?_, fun k hk => ?_⟩
  · have hnamed := hregistry.named i
    cases hmove.channel_change c with
    | keep hkeep =>
      rw [hkeep] at hrecord
      exact h.inactive record hrecord
    | registered ht hc => exact absurd (by rw [ht, ← hc]; rfl) (h.drawn.unregistered i)
    | patched ht hc =>
      rw [ht] at hnamed
      exact absurd (by rw [ht, ← hc, hnamed.1]; rfl) (h.unpatched i)
    | marked ht hc hs =>
      rw [hs] at hrecord
      cases hrecord
      rfl
    | finished ht hs =>
      rw [hs] at hrecord
      cases hrecord
  · by_cases hki : k = i
    · subst hki
      obtain ⟨record, hrecord, hactive⟩ := writesBack_of_step hstep (Task.writesBack_of_patches hk)
      rw [h.inactive record hrecord] at hactive
      cases hactive
    · rw [hothers k hki] at hk
      exact h.unpatched k hk

/-- Whatever happens, a doomed channel stays doomed. -/
theorem Doomed.step {c : ChannelId} {a : Action ι} (h : Doomed c p) (hregistry : Registry p)
    (hstep : (shard E).step p a p') : Doomed c p' := by
  have hlost : ∀ {x : Shared ι}, x.issued = p.shared.issued →
      x.store.current.channels = p.shared.store.current.channels →
        Doomed c (⟨x, fun j => (p.task j).lost⟩ : Shard ι) := by
    intro x hissued hchannels
    refine ⟨h.drawn.lost hissued, fun record hrecord => h.inactive record ?_, fun k hk => ?_⟩
    · rw [Shared.channel, RocksMetadata.channel, hchannels] at hrecord
      exact hrecord
    · have hback := Task.writesBack_of_patches hk
      rw [((p.task k).lost_carries_nothing).2.2] at hback
      cases hback
  cases a with
  | thread i e => exact h.fire hregistry hstep
  | crash =>
    obtain rfl : p' = p.crash := hstep
    exact hlost rfl rfl
  | losePower d x =>
    obtain ⟨-, hx, rfl⟩ := hstep
    exact hlost rfl (hregistry.synced x hx)

/-! ## Deletions and stale patches -/

/-- When a deletion stores its mark, no patch of the channel is between its read of the
record under the gate and its write. -/
def NoStalePatch (p : Shard ι) : Action ι → Prop
  | .thread i _ =>
    match p.task i with
    | .delete c _ (.store _ _) => ∀ j, (p.task j).patches ≠ some c
    | _ => True
  | _ => True

/-- Storing the mark dooms the channel. -/
theorem doomed_of_marked (h : Registry p) (hguard : NoStalePatch p (.thread i e))
    (hfire : p.fire E i e = some p') {c : ChannelId} {credential : Option Bytes} {g : Nat}
    {record : ChannelRecord} (ht : p.task i = .delete c credential (.store g record))
    (hs : p'.shared.channel c = some { record with state := .deleting }) : Doomed c p' := by
  obtain ⟨hstep, hothers⟩ := Shard.fire_eq_some hfire
  refine ⟨(h.fire hfire).drawn_of_channel hs, fun record' hrecord => ?_, fun k hk => ?_⟩
  · rw [hs] at hrecord
    cases hrecord
    rfl
  · by_cases hki : k = i
    · subst hki
      rw [ht] at hstep
      cases ht' : p'.task k with
      | patch c' credential' expirySeconds pc =>
        rw [ht'] at hstep
        rcases step_from hstep with ⟨hidle, -⟩ | ⟨pc', hpatch, -⟩
        · cases hidle
        · cases hpatch
      | _ =>
        rw [ht'] at hk
        cases hk
    · rw [hothers k hki] at hk
      simp only [NoStalePatch, ht] at hguard
      exact hguard k hk

/-- Along runs without a stale patch, every channel that is deleting is doomed. -/
theorem doomed_of_reach (h : (shard E).Reach NoStalePatch p) {c : ChannelId}
    {record : ChannelRecord} (hrecord : p.shared.channel c = some record)
    (hstate : record.state = .deleting) : Doomed c p := by
  have hall : ∀ c record, p.shared.channel c = some record → record.state = .deleting →
      Doomed c p := by
    refine h.invariant_of_reach (I := fun p => ∀ c record, p.shared.channel c = some record →
      record.state = .deleting → Doomed c p) ?_ ?_
    · rintro _ ⟨expirySeconds, now, rfl⟩ c record hrecord hstate
      rw [Shard.fresh, Shared.fresh_channel] at hrecord
      split at hrecord
      · cases hrecord
        cases hstate
      · cases hrecord
    · intro x a y hx hdoomed hguard hstep c record hrecord hstate
      have hregistry := registry_of_reach hx
      have hkeep : y.shared.channel c = x.shared.channel c → Doomed c y := by
        intro hsame
        rw [hsame] at hrecord
        exact (hdoomed c record hrecord hstate).step hregistry hstep
      cases a with
      | thread i e =>
        have hnamed := hregistry.named i
        cases (step_move (Shard.fire_eq_some hstep).1).channel_change c with
        | keep hsame => exact hkeep hsame
        | registered ht hc hs =>
          rw [hs] at hrecord
          cases hrecord
          rw [ht] at hnamed
          rw [show _ = Lifecycle.active from hnamed] at hstate
          cases hstate
        | patched ht hc hs =>
          rw [hs] at hrecord
          cases hrecord
          rw [ht] at hnamed
          rw [hnamed.2] at hstate
          cases hstate
        | @marked c' credential g old ht hc hs =>
          have hc' : c' = c := by
            rw [ht] at hnamed
            exact (Eq.symm hnamed).trans hc
          subst hc'
          exact doomed_of_marked hregistry hguard hstep ht hs
        | finished ht hs =>
          rw [hs] at hrecord
          cases hrecord
      | crash =>
        obtain rfl : y = x.crash := hstep
        exact hkeep rfl
      | losePower d z =>
        obtain ⟨hlose, hz, rfl⟩ := hstep
        refine hkeep ?_
        show z.channel c = x.shared.store.current.channel c
        rw [RocksMetadata.channel, hregistry.synced z hz]
        rfl
  exact hall c record hrecord hstate

/-- Once the persisted record of a channel is deleting, no later one is active: not in any
interleaving, and not after a crash or a loss of power, as long as no patch is stale when a
deletion stores its mark. -/
theorem deletion_is_final {p q : Shard ι} (h : (shard E).Reach NoStalePatch p)
    (hsteps : (shard E).Steps NoStalePatch p q) {c : ChannelId} {record record' : ChannelRecord}
    (hrecord : p.shared.channel c = some record) (hstate : record.state = .deleting)
    (hrecord' : q.shared.channel c = some record') : record'.state = .deleting := by
  have hdoomed : Doomed c q := by
    refine hsteps.preserves_of_reach (I := Doomed c) ?_ (fun _ _ => id) h
      (doomed_of_reach h hrecord hstate)
    intro x a y hx hdoomed _ hstep
    exact hdoomed.step (registry_of_reach hx) hstep
  exact hdoomed.inactive record' hrecord'

/-! ## A stale patch -/

/-- An ordinary channel and the record it is registered with. -/
def sampleChannel : ChannelId := ⟨7⟩

def sampleRecord (expirySeconds : UInt64) (state : Lifecycle) : ChannelRecord :=
  ⟨sampleChannel, .open, expirySeconds, state, 5⟩

/-- Register the channel, let thread 1 take that many steps of a patch and then let thread 2
delete the channel up to the mark. -/
def patchAndMark (patchSteps : Nat) : List (Action (BitVec 128)) :=
  .thread 0 (.start (.register (sampleRecord 100 .active))) :: steps 0 5 3 ++
  .thread 1 (.start (.patch sampleChannel none (some 50))) :: steps 1 10 patchSteps ++
  .thread 2 (.start (.delete sampleChannel none)) :: steps 2 20 5

/-- A patch that read the active record stores it after the deletion's mark. -/
theorem deletion_undone : ∃ p q : Shard (BitVec 128),
    (shard sampleEnv).Reach (fun _ _ => True) p ∧ (shard sampleEnv).Steps (fun _ _ => True) p q ∧
      p.shared.channel sampleChannel = some (sampleRecord 100 .deleting) ∧
      q.shared.channel sampleChannel = some (sampleRecord 50 .active) := by
  have hrun : (sampleRun (fun _ _ => true) (patchAndMark 4)).any (fun p =>
    decide (p.shared.channel sampleChannel = some (sampleRecord 100 .deleting)) &&
      (System.exec (Shard.act sampleEnv) (fun _ _ => true) p (steps 1 30 1)).any fun q =>
        decide (q.shared.channel sampleChannel = some (sampleRecord 50 .active))) = true := by
    decide
  obtain ⟨p, hp, hp'⟩ := reach_of_sampleRun (G := fun _ _ => True) _ (fun _ _ _ => trivial) _ _ hrun
  obtain ⟨hrecord, hq⟩ := (Bool.and_eq_true _ _).mp hp'
  obtain ⟨q, hsteps, hrecord'⟩ := steps_of_sample (G := fun _ _ => True) (fun _ _ => true)
    (fun _ _ _ => trivial) hq
  exact ⟨p, q, hp, hsteps, of_decide_eq_true hrecord, of_decide_eq_true hrecord'⟩

/-- The condition of the theorem, evaluated on a shard where only the threads in `L` run. -/
def noStalePatch (L : List ι) (p : Shard ι) : Action ι → Bool
  | .thread i _ =>
    match p.task i with
    | .delete c _ (.store _ _) => L.all fun j => (p.task j).patches != some c
    | _ => true
  | _ => true

omit [DecidableEq ι] in
theorem noStalePatch_sound {L : List ι} {a : Action ι} (hp : Busy L p)
    (h : noStalePatch L p a = true) : NoStalePatch p a := by
  cases a with
  | thread i e =>
    unfold NoStalePatch
    unfold noStalePatch at h
    dsimp only at h ⊢
    split
    · rename_i c credential g record ht
      simp only [ht, List.all_eq_true, bne_iff_ne, ne_eq] at h
      intro j hj
      by_cases hmem : j ∈ L
      · exact h j hmem hj
      · rw [hp j hmem] at hj
        cases hj
    · trivial
  | _ => trivial

/-- When the patch is over before the mark is stored, a crash and the resumed deletion find
the channel deleting. -/
theorem deletion_resumed : ∃ p q : Shard (BitVec 128),
    (shard sampleEnv).Reach NoStalePatch p ∧ (shard sampleEnv).Steps NoStalePatch p q ∧
      p.shared.channel sampleChannel = some (sampleRecord 50 .deleting) ∧
      q.task 3 = .delete sampleChannel none .exclusiveGate ∧
      ∃ record, q.shared.channel sampleChannel = some record ∧ record.state = .deleting := by
  let L : List (BitVec 128) := [0, 1, 2, 3]
  have hrun : (System.exec (Shard.act sampleEnv) (fun p a => a.within L && noStalePatch L p a)
      (Shard.fresh _ 100 0) (patchAndMark 5)).any (fun p =>
    decide (p.shared.channel sampleChannel = some (sampleRecord 50 .deleting)) &&
    (System.exec (Shard.act sampleEnv) (fun p a => a.within L && noStalePatch L p a) p
      (.crash :: .thread 3 (.start (.resume sampleChannel)) :: steps 3 40 1)).any fun q =>
        decide (q.task 3 = .delete sampleChannel none .exclusiveGate) &&
        (q.shared.channel sampleChannel).isSome) = true := by
    decide
  obtain ⟨p, hsteps, hbusy, hp'⟩ := steps_of_busySample (G := NoStalePatch) _
    (fun _ _ => noStalePatch_sound) (Busy.fresh L 100 0) hrun
  have hp : (shard sampleEnv).Reach NoStalePatch p := ⟨_, ⟨_, _, rfl⟩, hsteps⟩
  obtain ⟨hrecord, hq⟩ := (Bool.and_eq_true _ _).mp hp'
  obtain ⟨q, hsteps, -, hq⟩ := steps_of_busySample (G := NoStalePatch) _
    (fun _ _ => noStalePatch_sound) hbusy hq
  obtain ⟨htask, hsome⟩ := (Bool.and_eq_true _ _).mp hq
  obtain ⟨record, hrecord'⟩ := Option.isSome_iff_exists.mp hsome
  have hfinal := deletion_is_final hp hsteps (of_decide_eq_true hrecord) rfl hrecord'
  exact ⟨p, q, hp, hsteps, of_decide_eq_true hrecord, of_decide_eq_true htask, record, hrecord',
    hfinal⟩

end Flywheel
