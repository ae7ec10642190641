import Flywheel.Config
import Flywheel.Shard.Lifecycle

/-!
# The registry across restarts

A server is a shard with the process around it: startup runs `ensure_default` before anything
is served, and the handlers of `transport/http/mod.rs` check what they pass on to the channel
service. Registrations, patches, deletions and resumed deletions interleave as in the shard;
the process may die or lose power at any moment, startup included, and start again with any
configuration that `Config::validate` accepts.

Five operations write a whole record they have built or read before. What each of them carries
(`Task.bears`) is the key to the invariants:

- `Steady c v`: every stored record of `c`, and every one still in flight, has the id, access
  and time of creation in `v`;
- `Positive`: stored or in flight, no record has expiry zero;
- `Spared`: no deletion of the Default Channel is past the point where it is refused.
-/

set_option autoImplicit false

namespace Flywheel

open Lib

variable {ι : Type}

/-! ## What is fixed at registration -/

/-- The values of a record that no operation is meant to change. -/
def ChannelRecord.identity (record : ChannelRecord) : ChannelId × Access × UInt64 :=
  (record.id, record.access, record.createdAt)

/-- The record a task has built or read and is going to write. -/
def Task.bears : Task → Option ChannelRecord
  | .register record .read | .register record .write => some record
  | .patch _ _ _ (.store _ record) => some record
  | .delete _ _ (.store _ record) => some record
  | _ => none

theorem Task.bears_lost (t : Task) : t.lost.bears = none := by
  cases t <;> rfl

/-- A record in flight is a registration's or will be written back. -/
theorem Task.registers_or_writesBack {t : Task} (hnamed : t.Named) {record : ChannelRecord}
    (h : t.bears = some record) : t.registers = some record.id ∨ t.writesBack = some record.id := by
  cases t with
  | register r pc =>
    cases pc with
    | read | write => cases h; exact .inl rfl
    | gate => cases h
  | patch c credential expirySeconds pc =>
    cases pc with
    | store g r =>
      cases h
      exact .inr (congrArg some hnamed.1.symm)
    | _ => cases h
  | delete c credential pc =>
    cases pc with
    | store g r =>
      cases h
      exact .inr (congrArg some (Eq.symm hnamed))
    | _ => cases h
  | _ => cases h

section Steps

variable [DecidableEq ι] {E : Env ι} {i : ι} {e : Event} {s s' : Shared ι} {t t' : Task}

/-- `patch_channel` refuses an expiry of zero. -/
theorem patchStep_expiry {c : ChannelId} {credential : Option Bytes}
    {expirySeconds : Option UInt64} {pc : PatchPc} {g : Nat} {record : ChannelRecord}
    (h : patchStep E i c credential expirySeconds pc e s =
      some (s', .patch c credential expirySeconds (.store g record))) :
    record.expirySeconds ≠ 0 := by
  revert h
  fun_cases patchStep E i c credential expirySeconds pc e s <;> intro h <;>
    simp only [Option.some.injEq, Prod.mk.injEq, reduceCtorEq, and_false,
      Option.map_eq_some_iff] at h <;>
    grind

/-- A record in flight was in flight before, is a new registration's, or has just been read;
a patch has changed its expiry, but not to zero. -/
theorem bears_of_step (h : Task.step E i e s t = some (s', t')) {record : ChannelRecord}
    (hrecord : t'.bears = some record) :
    t.bears = some record ∨
    (e = .start (.register record) ∧ s.issued record.id = false) ∨
    ∃ c old, s.channel c = some old ∧ record = { old with expirySeconds := record.expirySeconds } ∧
      (record = old ∨ record.expirySeconds ≠ 0) := by
  cases t' with
  | register r pc' =>
    cases pc' with
    | read =>
      cases hrecord
      rcases step_from h with ⟨rfl, hfresh, -⟩ | ⟨pc, -, hnone⟩
      · refine .inr (.inl ⟨?_, hfresh⟩)
        cases e with
        | start op =>
          cases op with
          | register r =>
            simp only [Task.step, startTask] at h
            split at h
            · cases h; rfl
            · cases h
          | delete c credential =>
            simp only [Task.step, startTask] at h
            split at h <;> cases h
          | _ => cases h
        | _ => cases h
      · exact hnone.elim
    | write =>
      cases hrecord
      rcases step_from h with ⟨-, -, -, hpc, -⟩ | ⟨pc, rfl, rfl, -⟩
      · cases hpc
      · exact .inl rfl
    | gate => cases hrecord
  | patch c credential expirySeconds pc' =>
    cases pc' with
    | store g r =>
      cases hrecord
      rcases step_from h with ⟨-, -, hpc⟩ | ⟨pc, rfl, -, -, old, hold, -, hr⟩
      · cases hpc
      · exact .inr (.inr ⟨c, old, hold, hr, .inr (patchStep_expiry h)⟩)
    | _ => cases hrecord
  | delete c credential pc' =>
    cases pc' with
    | store g r =>
      cases hrecord
      rcases step_from h with ⟨-, -, ⟨hpc, -⟩ | hpc⟩ | ⟨pc, rfl, -, -, hold, -⟩
      · cases hpc
      · cases hpc
      · exact .inr (.inr ⟨c, record, hold, rfl, .inl rfl⟩)
    | _ => cases hrecord
  | _ => cases hrecord

end Steps

/-! ## Invariants of the shard -/

/-- Whatever is stored of `c` or will be has the values in `v`. -/
structure Steady (c : ChannelId) (v : ChannelId × Access × UInt64) (p : Shard ι) : Prop where
  issued : p.shared.issued c = true
  stored : ∀ record, p.shared.channel c = some record → record.identity = v
  borne : ∀ j record, (p.task j).bears = some record → record.id = c → record.identity = v

/-- No record, stored or in flight, has expiry zero. -/
structure Positive (p : Shard ι) : Prop where
  stored : ∀ c record, p.shared.channel c = some record → record.expirySeconds ≠ 0
  borne : ∀ j record, (p.task j).bears = some record → record.expirySeconds ≠ 0

/-- No deletion of the Default Channel has got anywhere. -/
def Spared (p : Shard ι) : Prop :=
  ∀ j credential pc, p.task j = .delete .default credential pc → pc = .resumeRead

/-- The Default Channel is there, open and active. -/
def DefaultKept (p : Shard ι) : Prop :=
  ∃ record, p.shared.channel .default = some record ∧ record.access = .open ∧ record.state = .active

section Fire

variable [DecidableEq ι] {E : Env ι} {p p' : Shard ι} {i : ι} {e : Event}

theorem Steady.fire {c : ChannelId} {v : ChannelId × Access × UInt64} (h : Steady c v p)
    (hregistry : Registry p) (hfire : p.fire E i e = some p') : Steady c v p' := by
  obtain ⟨hstep, hothers⟩ := Shard.fire_eq_some hfire
  have hmove := step_move hstep
  refine ⟨hmove.issued_mono h.issued, fun record hrecord => ?_, fun j record hj hid => ?_⟩
  · cases hmove.channel_change c with
    | keep hkeep => exact h.stored record (hkeep ▸ hrecord)
    | @registered r ht hc hs | @patched c' credential expirySeconds g r ht hc hs =>
      rw [hs] at hrecord
      cases hrecord
      exact h.borne i record (by rw [ht]; rfl) hc
    | @marked c' credential g r ht hc hs =>
      rw [hs] at hrecord
      cases hrecord
      exact h.borne i r (by rw [ht]; rfl) hc
    | finished ht hs =>
      rw [hs] at hrecord
      cases hrecord
  · by_cases hji : j = i
    · subst hji
      rcases bears_of_step hstep hj with hbefore | ⟨-, hfresh⟩ | ⟨c', old, hold, hr, -⟩
      · exact h.borne j record hbefore hid
      · rw [hid, h.issued] at hfresh
        cases hfresh
      · have hsame : record.identity = old.identity := by rw [hr]; rfl
        have hc : c' = c := by
          rw [← hregistry.ids c' old hold, ← hid]
          exact (congrArg Prod.fst hsame).symm
        rw [hsame]
        exact h.stored old (hc ▸ hold)
    · rw [hothers j hji] at hj
      exact h.borne j record hj hid

/-- Every identifier that was drawn has its values. -/
def Identified (p : Shard ι) : Prop := ∀ c, p.shared.issued c = true → ∃ v, Steady c v p

theorem Identified.fire (h : Identified p) (hregistry : Registry p) (hfire : p.fire E i e = some p') :
    Identified p' := by
  intro c hc
  by_cases hissued : p.shared.issued c = true
  · obtain ⟨v, hv⟩ := h c hissued
    exact ⟨v, hv.fire hregistry hfire⟩
  · -- `c` is being drawn: nothing of it was there
    obtain ⟨hstep, hothers⟩ := Shard.fire_eq_some hfire
    obtain ⟨hvacant, hnone⟩ := hregistry.unissued c (Bool.eq_false_iff.mpr hissued)
    have hmove := step_move hstep
    cases hmove.issued with
    | keep hkeep =>
      rw [hkeep] at hc
      exact absurd hc hissued
    | @draw record ht ht' hfresh hactive hs =>
      refine ⟨record.identity, hc, fun r hr => ?_, fun j r hj hid => ?_⟩
      · have habsent : p'.shared.channel c = none :=
          (hvacant.fire (hregistry.named i) hfire fun _ _ hwrite => by rw [ht] at hwrite; cases hwrite).absent
        rw [habsent] at hr
        cases hr
      · by_cases hji : j = i
        · subst hji
          rw [ht'] at hj
          cases hj
          rfl
        · rw [hothers j hji] at hj
          rcases Task.registers_or_writesBack (hregistry.named j) hj with hreg | hback
          · exact absurd (hid ▸ hreg) (hnone j)
          · exact absurd (hid ▸ hback) (hvacant.unread j)

theorem Positive.fire (h : Positive p) (hfire : p.fire E i e = some p')
    (hregister : ∀ record, e = .start (.register record) → record.expirySeconds ≠ 0) :
    Positive p' := by
  obtain ⟨hstep, hothers⟩ := Shard.fire_eq_some hfire
  refine ⟨fun c record hrecord => ?_, fun j record hj => ?_⟩
  · cases (step_move hstep).channel_change c with
    | keep hkeep => exact h.stored c record (hkeep ▸ hrecord)
    | @registered r ht hc hs | @patched c' credential expirySeconds g r ht hc hs =>
      rw [hs] at hrecord
      cases hrecord
      exact h.borne i record (by rw [ht]; rfl)
    | @marked c' credential g r ht hc hs =>
      rw [hs] at hrecord
      cases hrecord
      exact h.borne i r (by rw [ht]; rfl)
    | finished ht hs =>
      rw [hs] at hrecord
      cases hrecord
  · by_cases hji : j = i
    · subst hji
      rcases bears_of_step hstep hj with hbefore | ⟨he, -⟩ | ⟨c, old, hold, -, rfl | hpositive⟩
      · exact h.borne j record hbefore
      · exact hregister record he
      · exact h.stored c record hold
      · exact hpositive
    · rw [hothers j hji] at hj
      exact h.borne j record hj

theorem Spared.fire (h : Spared p) (hdefault : DefaultKept p) (hfire : p.fire E i e = some p') :
    Spared p' := by
  obtain ⟨hstep, hothers⟩ := Shard.fire_eq_some hfire
  intro j credential pc' hj
  by_cases hji : j = i
  · subst hji
    rw [hj] at hstep
    rcases step_from hstep with ⟨-, -, ⟨-, hne⟩ | hpc⟩ | ⟨pc, ht, hfrom⟩
    · exact absurd rfl hne
    · exact hpc
    · -- the only way on is for a channel that is being deleted
      obtain rfl := h j credential pc ht
      obtain ⟨record, hrecord, -, hactive⟩ := hdefault
      cases pc' with
      | exclusiveGate =>
        rcases hfrom with ⟨g, r, hpc, -⟩ | ⟨-, -, r, hr, hdeleting⟩
        · cases hpc
        · rw [hrecord] at hr
          cases hr
          rw [hactive] at hdeleting
          cases hdeleting
      | removeDir g => rcases hfrom with ⟨hpc, -⟩ | ⟨hpc, -⟩ <;> cases hpc
      | authorize | resumeRead => exact hfrom.elim
      | gate | lock g | recheck g | store g r | exclusiveLock g | deleteData g | finish g
      | forget g => cases hfrom.1
  · rw [hothers j hji] at hj
    exact h j credential pc' hj

theorem DefaultKept.fire (h : DefaultKept p) (hspared : Spared p) (hregistry : Registry p)
    (hagree : Identified p) (hfire : p.fire E i e = some p') : DefaultKept p' := by
  obtain ⟨hstep, -⟩ := Shard.fire_eq_some hfire
  obtain ⟨old, hold, hopen, hactive⟩ := h
  have hdrawn := hregistry.drawn_of_channel hold
  obtain ⟨v, hv⟩ := hagree .default hdrawn.issued
  have hnamed := hregistry.named i
  cases (step_move hstep).channel_change .default with
  | keep hkeep => exact ⟨old, hkeep.trans hold, hopen, hactive⟩
  | registered ht hc => exact absurd (by rw [ht, ← hc]; rfl) (hdrawn.unregistered i)
  | @patched c' credential expirySeconds g r ht hc hs =>
    -- what the patch carries is what is stored, up to its expiry
    have hsame : r.identity = old.identity :=
      (hv.borne i r (by rw [ht]; rfl) hc).trans (hv.stored old hold).symm
    rw [ht] at hnamed
    exact ⟨r, hs, (congrArg (fun x => x.2.1) hsame).trans hopen, hnamed.2⟩
  | @marked c' credential g r ht hc hs =>
    rw [ht] at hnamed
    obtain rfl : c' = .default := (Eq.symm hnamed).trans hc
    cases hspared i credential _ ht
  | finished ht hs => cases hspared i _ _ ht

end Fire

/-! ## The server -/

/-- Where `ensure_default` is; `create_channel` looks before it writes. -/
inductive EnsurePc where
  | read
  | createRead (record : ChannelRecord)
  | createWrite (record : ChannelRecord)
  | reread
  | check (record : ChannelRecord)

inductive Phase where
  | down
  | ensuring (config : Config) (pc : EnsurePc)
  /-- `ensure_default` has returned Ok. -/
  | serving (config : Config)

structure Server (ι : Type) where
  shard : Shard ι
  phase : Phase

/-- The body of a registration request. -/
structure RegisterChannel where
  accessControl : Option Bool
  expirySeconds : Option UInt64

inductive ServerAction (ι : Type) where
  | start (config : Config)
  | ensure (now : UInt64)
  | ensureFail
  /-- A registration request, with the identifier and the token drawn for it. -/
  | register (i : ι) (request : RegisterChannel) (id : ChannelId) (token : Bytes) (now : UInt64)
  | thread (i : ι) (e : Event)
  | crash
  | losePower (d : FsDisk) (x : RocksMetadata)

/-- The actions a restart consists of. -/
def ServerAction.isRestart : ServerAction ι → Bool
  | .register _ _ _ _ _ | .thread _ _ => false
  | _ => true

/-- One step of `ensure_default`. -/
def ensureStep (config : Config) (now : UInt64) : EnsurePc → Shared ι → Shared ι × Phase
  | .read, s =>
    match s.channel .default with
    | some record => (s, .ensuring config (.check record))
    | none => (s, .ensuring config
        (.createRead ⟨.default, .open, config.defaultExpirySeconds, .active, now⟩))
  | .createRead record, s =>
    if (s.channel record.id).isSome then (s, .ensuring config .reread)
    else (s, .ensuring config (.createWrite record))
  | .createWrite record, s =>
    (s.commit .durable (·.storeChannel record), .ensuring config (.check record))
  | .reread, s =>
    match s.channel .default with
    | some record => (s, .ensuring config (.check record))
    | none => (s, .down)
  -- anything else is `InvalidDefault`, and the process exits
  | .check record, s =>
    if record.access ≠ .open ∨ record.state ≠ .active then (s, .down)
    else ((s.gate .default).1, .serving config)

/-- `register_channel`: the record `register` is asked to create; `none` is the response
`invalid_policy`. -/
def registerChannel (E : Env ι) (config : Config) (request : RegisterChannel) (id : ChannelId)
    (token : Bytes) (now : UInt64) : Option ChannelRecord :=
  let isProtected := request.accessControl.getD false
  let expirySeconds := request.expirySeconds.getD config.defaultExpirySeconds
  if expirySeconds = 0 then none
  else some ⟨id, if isProtected then .token (E.sha256 token) else .open, expirySeconds, .active, now⟩

/-- A new data directory; the identifier of the Default Channel is never drawn. -/
def Server.blank (ι : Type) : Server ι where
  shard := ⟨{ Shared.fresh ι 0 0 with store := Journal.synced .empty }, fun _ => .idle⟩
  phase := .down

variable [DecidableEq ι]

def server (E : Env ι) (parse : String → Except String Config.UrlShape) :
    System (Server ι) (ServerAction ι) where
  init s := s = .blank ι
  step s a s' :=
    match a with
    | .start config =>
      s.phase = .down ∧ config.validate parse = .ok () ∧ s' = { s with phase := .ensuring config .read }
    | .ensure now => ∃ config pc, s.phase = .ensuring config pc ∧
        s' = ⟨⟨(ensureStep config now pc s.shard.shared).1, s.shard.task⟩,
          (ensureStep config now pc s.shard.shared).2⟩
    | .ensureFail => (∃ config pc, s.phase = .ensuring config pc) ∧ s' = { s with phase := .down }
    | .register i request id token now => ∃ config, s.phase = .serving config ∧
        match registerChannel E config request id token now with
        | none => s' = s
        | some record =>
          ∃ p, s.shard.fire E i (.start (.register record)) = some p ∧ s' = { s with shard := p }
    | .thread i e => (∃ config, s.phase = .serving config) ∧
        (∀ record, e ≠ .start (.register record)) ∧
          ∃ p, s.shard.fire E i e = some p ∧ s' = { s with shard := p }
    | .crash => s' = ⟨s.shard.crash, .down⟩
    | .losePower d x =>
      Disk.LosePower s.shard.shared.disk d ∧ s.shard.shared.store.Survives x ∧
        s' = ⟨s.shard.losePower d x, .down⟩

/-! ## Every reachable state -/

/-- Nothing is in flight. -/
def Lost (p : Shard ι) : Prop := ∀ j, ∃ t : Task, p.task j = t.lost

/-- What startup carries, against what is stored. -/
def EnsurePc.Ok (s : Shared ι) : EnsurePc → Prop
  | .createRead record | .createWrite record =>
    s.channel .default = none ∧ record.id = .default ∧ record.access = .open ∧
      record.state = .active ∧ record.expirySeconds ≠ 0
  | .check record => s.channel .default = some record
  | .read | .reread => True

def Phase.Ok (p : Shard ι) : Phase → Prop
  | .down => Lost p
  | .ensuring config pc => Lost p ∧ config.defaultExpirySeconds ≠ 0 ∧ pc.Ok p.shared
  | .serving _ => (p.shared.channel .default).isSome = true

structure Server.Inv (s : Server ι) : Prop where
  nilIssued : s.shard.shared.issued .default = true
  registry : Registry s.shard
  agree : Identified s.shard
  positive : Positive s.shard
  isDefault : ∀ record, s.shard.shared.channel .default = some record →
    record.access = .open ∧ record.state = .active
  spared : Spared s.shard
  phase : s.phase.Ok s.shard

omit [DecidableEq ι] in
/-- A process that has nothing in flight: what is left to show is about what is stored. -/
theorem Server.Inv.lost {s s' : Server ι} (h : s.Inv) (hlost : Lost s'.shard)
    (hissued : s'.shard.shared.issued = s.shard.shared.issued)
    (hchannels : s'.shard.shared.store.current.channels = s.shard.shared.store.current.channels)
    (hsynced : s'.shard.shared.RegistrySynced) (hphase : s'.phase.Ok s'.shard) : s'.Inv := by
  have hchannel : ∀ c, s'.shard.shared.channel c = s.shard.shared.channel c := by
    intro c
    rw [Shared.channel, RocksMetadata.channel, hchannels]
    rfl
  have hbears : ∀ j, (s'.shard.task j).bears = none := by
    intro j
    obtain ⟨t, ht⟩ := hlost j
    rw [ht, t.bears_lost]
  refine ⟨by rw [hissued, h.nilIssued], h.registry.lost hlost hissued hchannels hsynced,
    fun c hc => ?_,
    ⟨fun c record hrecord => ?_, fun j record hj => ?_⟩, fun record hrecord => ?_,
    fun j credential pc hj => ?_, hphase⟩
  · rw [hissued] at hc
    obtain ⟨v, hv⟩ := h.agree c hc
    refine ⟨v, by rw [hissued, hc], fun record hrecord => ?_, fun j record hj => ?_⟩
    · exact hv.stored record (hchannel c ▸ hrecord)
    · rw [hbears j] at hj
      cases hj
  · exact h.positive.stored c record (hchannel c ▸ hrecord)
  · rw [hbears j] at hj
    cases hj
  · exact h.isDefault record (hchannel .default ▸ hrecord)
  · obtain ⟨t, ht⟩ := hlost j
    rw [ht] at hj
    cases t <;> cases hj

omit [DecidableEq ι] in
/-- Startup writes the record of the Default Channel where there is none. -/
theorem Server.Inv.created {s s' : Server ι} {record : ChannelRecord} (h : s.Inv)
    (hlost : Lost s.shard) (hrecord : (EnsurePc.createWrite record).Ok s.shard.shared)
    (hs' : s'.shard = ⟨s.shard.shared.commit .durable (·.storeChannel record), s.shard.task⟩)
    (hphase : s'.phase.Ok s'.shard) : s'.Inv := by
  obtain ⟨hnone, hid, hopen, hactive, hexpiry⟩ := hrecord
  obtain ⟨p', phase'⟩ := s'
  subst hs'
  have hchannel : ∀ c, (s.shard.shared.commit .durable (·.storeChannel record)).channel c =
      if ChannelId.default = c then some record else s.shard.shared.channel c := by
    intro c
    rw [Shared.channel, Shared.commit_current, RocksMetadata.storeChannel_channel, hid]
    rfl
  -- Every task of before was lost in the crash, so none carries a record.
  have hbears : ∀ j, (s.shard.task j).bears = none := by
    intro j
    obtain ⟨t, ht⟩ := hlost j
    rw [ht, t.bears_lost]
  have hnothing : ∀ j, (s.shard.task j).registers = none ∧ (s.shard.task j).writesBack = none := by
    intro j
    obtain ⟨t, ht⟩ := hlost j
    rw [ht]
    exact t.lost_carries_nothing.2
  refine ⟨h.nilIssued,
    ⟨h.registry.named, fun c r hr => ?_, .durable _ _, fun c hc => ?_, fun j c hj => ?_⟩,
    fun c hc => ?_, ⟨fun c r hr => ?_, fun j r hj => ?_⟩, fun r hr => ?_, h.spared, hphase⟩
  · rw [hchannel c] at hr
    split at hr
    · rename_i hc
      cases hr
      exact hid.trans hc
    · exact h.registry.ids c r hr
  · have hc' : s.shard.shared.issued c = false := hc
    -- The nil identifier counts as issued, so the new record takes none that is free.
    have hne : ¬ ChannelId.default = c := by
      rintro rfl
      rw [h.nilIssued] at hc'
      cases hc'
    obtain ⟨hvacant, hregisters⟩ := h.registry.unissued c hc'
    exact ⟨⟨by rw [hchannel c, if_neg hne, hvacant.absent], hvacant.unread⟩, hregisters⟩
  · rw [(hnothing j).1] at hj
    cases hj
  · by_cases hdefault : ChannelId.default = c
    · subst hdefault
      refine ⟨record.identity, hc, fun r hr => ?_, fun j r hj => ?_⟩
      · rw [hchannel, if_pos rfl] at hr
        cases hr
        rfl
      · rw [hbears j] at hj
        cases hj
    · obtain ⟨v, hv⟩ := h.agree c hc
      refine ⟨v, hc, fun r hr => ?_, hv.borne⟩
      rw [hchannel c, if_neg hdefault] at hr
      exact hv.stored r hr
  · rw [hchannel c] at hr
    split at hr
    · cases hr
      exact hexpiry
    · exact h.positive.stored c r hr
  · rw [hbears j] at hj
    cases hj
  · rw [hchannel, if_pos rfl] at hr
    cases hr
    exact ⟨hopen, hactive⟩

variable {E : Env ι} {parse : String → Except String Config.UrlShape} {s s' : Server ι}

omit [DecidableEq ι] in
theorem Server.Inv.defaultKept (h : s.Inv)
    (hsome : (s.shard.shared.channel .default).isSome = true) : DefaultKept s.shard := by
  obtain ⟨record, hrecord⟩ := Option.isSome_iff_exists.mp hsome
  exact ⟨record, hrecord, h.isDefault record hrecord⟩

/-- A thread of the serving process takes a step. -/
theorem Server.Inv.fire {config : Config} {i : ι} {e : Event} {p : Shard ι} (h : s.Inv)
    (hserving : s.phase = .serving config) (hfire : s.shard.fire E i e = some p)
    (hregister : ∀ record, e = .start (.register record) → record.expirySeconds ≠ 0) :
    Server.Inv { s with shard := p } := by
  have hphase := h.phase
  rw [hserving] at hphase
  have hdefault := h.defaultKept hphase
  have hdefault' := hdefault.fire h.spared h.registry h.agree hfire
  obtain ⟨hstep, -⟩ := Shard.fire_eq_some hfire
  refine ⟨(step_move hstep).issued_mono h.nilIssued, h.registry.fire hfire,
    h.agree.fire h.registry hfire, h.positive.fire hfire hregister, fun record hrecord => ?_,
    h.spared.fire hdefault hfire, ?_⟩
  · obtain ⟨r, hr, hok⟩ := hdefault'
    rw [hr] at hrecord
    cases hrecord
    exact hok
  · rw [hserving]
    obtain ⟨r, hr, -⟩ := hdefault'
    show (p.shared.channel .default).isSome = true
    rw [hr]
    rfl

omit [DecidableEq ι] in
/-- A step of `ensure_default` that writes nothing. -/
theorem Server.Inv.unwritten {x : Shared ι} {phase : Phase} (h : s.Inv) (hlost : Lost s.shard)
    (hstore : x.store = s.shard.shared.store) (hissued : x.issued = s.shard.shared.issued)
    (hphase : phase.Ok ⟨x, s.shard.task⟩) : Server.Inv ⟨⟨x, s.shard.task⟩, phase⟩ := by
  refine h.lost hlost hissued (by rw [hstore]) ?_ hphase
  show x.RegistrySynced
  rw [Shared.RegistrySynced, hstore]
  exact h.registry.synced

omit [DecidableEq ι] in
theorem Server.Inv.ensure {config : Config} {pc : EnsurePc} (h : s.Inv)
    (hphase : s.phase = .ensuring config pc) (now : UInt64) :
    Server.Inv ⟨⟨(ensureStep config now pc s.shard.shared).1, s.shard.task⟩,
      (ensureStep config now pc s.shard.shared).2⟩ := by
  have hok := h.phase
  rw [hphase] at hok
  obtain ⟨hlost, hexpiry, hpc⟩ := hok
  cases pc with
  | read =>
    cases hchannel : s.shard.shared.channel .default with
    | some record =>
      simp only [ensureStep, hchannel]
      exact h.unwritten hlost rfl rfl ⟨hlost, hexpiry, hchannel⟩
    | none =>
      simp only [ensureStep, hchannel]
      exact h.unwritten hlost rfl rfl ⟨hlost, hexpiry, hchannel, rfl, rfl, rfl, hexpiry⟩
  | createRead record =>
    have hnone : s.shard.shared.channel record.id = none := hpc.2.1 ▸ hpc.1
    simp only [ensureStep, hnone, Option.isSome_none, Bool.false_eq_true, if_false]
    exact h.unwritten hlost rfl rfl ⟨hlost, hexpiry, hpc⟩
  | createWrite record =>
    refine h.created hlost hpc rfl ⟨hlost, hexpiry, ?_⟩
    simp [EnsurePc.Ok, ensureStep, Shared.channel, hpc.2.1]
  | reread =>
    cases hchannel : s.shard.shared.channel .default with
    | some record =>
      simp only [ensureStep, hchannel]
      exact h.unwritten hlost rfl rfl ⟨hlost, hexpiry, hchannel⟩
    | none =>
      simp only [ensureStep, hchannel]
      exact h.unwritten hlost rfl rfl hlost
  | check record =>
    have hstored : s.shard.shared.channel .default = some record := hpc
    obtain ⟨hopen, hactive⟩ := h.isDefault record hstored
    simp only [ensureStep, hopen, hactive, ne_eq, not_true_eq_false, or_self, if_false]
    refine h.unwritten hlost rfl rfl ?_
    show (s.shard.shared.channel .default).isSome = true
    rw [hstored]
    rfl

theorem Server.Inv.step {a : ServerAction ι} (h : s.Inv) (hstep : (server E parse).step s a s') :
    s'.Inv := by
  cases a with
  | start config =>
    obtain ⟨hdown, hvalid, rfl⟩ := hstep
    have hlost := h.phase
    rw [hdown] at hlost
    have hpositive := Config.defaultExpirySeconds_pos parse hvalid
    refine h.unwritten hlost rfl rfl ⟨hlost, fun hzero => ?_, trivial⟩
    rw [hzero] at hpositive
    exact absurd hpositive (by decide)
  | ensure now =>
    obtain ⟨config, pc, hphase, rfl⟩ := hstep
    exact h.ensure hphase now
  | ensureFail =>
    obtain ⟨⟨config, pc, hphase⟩, rfl⟩ := hstep
    have hok := h.phase
    rw [hphase] at hok
    exact h.unwritten hok.1 rfl rfl hok.1
  | register i request id token now =>
    obtain ⟨config, hserving, hrest⟩ := hstep
    cases hrecord : registerChannel E config request id token now with
    | none =>
      rw [hrecord] at hrest
      obtain rfl := hrest
      exact h
    | some record =>
      rw [hrecord] at hrest
      obtain ⟨p, hfire, rfl⟩ := hrest
      refine h.fire hserving hfire fun r hr => ?_
      cases hr
      simp only [registerChannel] at hrecord
      split at hrecord
      · cases hrecord
      · rename_i hexpiry
        cases hrecord
        exact hexpiry
  | thread i e =>
    obtain ⟨⟨config, hserving⟩, hnot, p, hfire, rfl⟩ := hstep
    exact h.fire hserving hfire fun record he => absurd he (hnot record)
  | crash =>
    obtain rfl : s' = ⟨s.shard.crash, .down⟩ := hstep
    have hlost : Lost s.shard.crash := fun j => ⟨s.shard.task j, rfl⟩
    exact h.lost hlost rfl rfl h.registry.synced hlost
  | losePower d x =>
    obtain ⟨-, hx, rfl⟩ := hstep
    have hlost : Lost (s.shard.losePower d x) := fun j => ⟨s.shard.task j, rfl⟩
    exact h.lost hlost rfl (h.registry.synced x hx) (Journal.Always.synced rfl) hlost

omit [DecidableEq ι] in
theorem Server.Inv.blank : (Server.blank ι).Inv := by
  have hchannel : ∀ c, (Server.blank ι).shard.shared.channel c = none := fun c => by
    simp [Server.blank, Shared.channel, RocksMetadata.channel, RocksMetadata.empty]
  have habsent : ∀ c r, (Server.blank ι).shard.shared.channel c ≠ some r := by
    intro c r hr
    rw [hchannel c] at hr
    cases hr
  -- no thread has taken up anything
  have hwrites : ∀ k c, ((Server.blank ι).shard.task k).writesBack ≠ some c := by
    intro k c hk
    cases hk
  have hregisters : ∀ k c, ((Server.blank ι).shard.task k).registers ≠ some c := by
    intro k c hk
    cases hk
  have hbears : ∀ k r, ((Server.blank ι).shard.task k).bears ≠ some r := by
    intro k r hk
    cases hk
  refine ⟨rfl, ⟨fun _ => trivial, fun c r hr => absurd hr (habsent c r), Journal.Always.synced rfl,
    fun c _ => ⟨⟨hchannel c, fun k => hwrites k c⟩, fun k => hregisters k c⟩,
    fun j c hj => absurd hj (hregisters j c)⟩, fun c hc => ?_,
    ⟨fun c r hr => absurd hr (habsent c r), fun j r hj => absurd hj (hbears j r)⟩,
    fun r hr => absurd hr (habsent .default r), fun j credential pc hj => ?_,
    fun j => ⟨.idle, rfl⟩⟩
  · exact ⟨(c, .open, 0), hc, fun r hr => absurd hr (habsent c r),
      fun j r hj => absurd hj (hbears j r)⟩
  · cases hj

theorem Server.inv_of_reach (h : (server E parse).Reach (fun _ _ => True) s) : s.Inv := by
  refine h.invariant ?_ fun _ _ _ hx _ hstep => hx.step hstep
  rintro _ rfl
  exact Server.Inv.blank

/-! ## Once the Default Channel is there -/

/-- A restart neither changes a record nor brings one into flight. -/
theorem Server.Inv.restart {a : ServerAction ι} (h : s.Inv)
    (hready : (s.shard.shared.channel .default).isSome = true) (ha : a.isRestart = true)
    (hstep : (server E parse).step s a s') :
    (∀ c, s'.shard.shared.channel c = s.shard.shared.channel c) ∧
      s'.shard.shared.issued = s.shard.shared.issued ∧
        ∀ j, s'.shard.task j = s.shard.task j ∨ (s'.shard.task j).bears = none := by
  cases a with
  | start config =>
    obtain ⟨-, -, rfl⟩ := hstep
    exact ⟨fun _ => rfl, rfl, fun _ => .inl rfl⟩
  | ensureFail =>
    obtain ⟨-, rfl⟩ := hstep
    exact ⟨fun _ => rfl, rfl, fun _ => .inl rfl⟩
  | ensure now =>
    obtain ⟨config, pc, hphase, rfl⟩ := hstep
    have hok := h.phase
    rw [hphase] at hok
    obtain ⟨record, hrecord⟩ := Option.isSome_iff_exists.mp hready
    refine ⟨fun c => ?_, ?_, fun _ => .inl rfl⟩ <;> cases pc with
    | read | reread => simp only [ensureStep, hrecord]
    | createRead r | createWrite r =>
      have hnone := hok.2.2.1
      rw [hrecord] at hnone
      cases hnone
    | check r =>
      simp only [ensureStep]
      split <;> rfl
  | register | thread => cases ha
  | crash =>
    obtain rfl : s' = ⟨s.shard.crash, .down⟩ := hstep
    exact ⟨fun _ => rfl, rfl, fun j => .inr (s.shard.task j).bears_lost⟩
  | losePower d x =>
    obtain ⟨-, hx, rfl⟩ := hstep
    refine ⟨fun c => ?_, rfl, fun j => .inr (s.shard.task j).bears_lost⟩
    show x.channels[c.asKey]? = s.shard.shared.store.current.channels[c.asKey]?
    rw [h.registry.synced x hx]

/-- An action that is no restart is a step of a thread, or a request that was refused. -/
theorem server_fire {a : ServerAction ι} (ha : a.isRestart = false)
    (hstep : (server E parse).step s a s') :
    s' = s ∨ ∃ i e p config, s.phase = .serving config ∧ s.shard.fire E i e = some p ∧
      s' = { s with shard := p } := by
  cases a with
  | register i request id token now =>
    obtain ⟨config, hserving, hrest⟩ := hstep
    cases hrecord : registerChannel E config request id token now with
    | none =>
      rw [hrecord] at hrest
      exact .inl hrest
    | some record =>
      rw [hrecord] at hrest
      obtain ⟨p, hfire, rfl⟩ := hrest
      exact .inr ⟨i, _, p, config, hserving, hfire, rfl⟩
  | thread i e =>
    obtain ⟨⟨config, hserving⟩, -, p, hfire, rfl⟩ := hstep
    exact .inr ⟨i, e, p, config, hserving, hfire, rfl⟩
  | start | ensure | ensureFail | crash | losePower => cases ha

/-- The Default Channel does not go away. -/
theorem Server.Inv.ready {a : ServerAction ι} (h : s.Inv)
    (hready : (s.shard.shared.channel .default).isSome = true)
    (hstep : (server E parse).step s a s') :
    (s'.shard.shared.channel .default).isSome = true := by
  cases ha : a.isRestart with
  | true => rw [(h.restart hready ha hstep).1, hready]
  | false =>
    rcases server_fire ha hstep with rfl | ⟨i, e, p, config, -, hfire, rfl⟩
    · exact hready
    · obtain ⟨record, hrecord, -⟩ :=
        (h.defaultKept hready).fire h.spared h.registry h.agree hfire
      show (p.shared.channel .default).isSome = true
      rw [hrecord]
      rfl

theorem Server.Inv.steady {a : ServerAction ι} {c : ChannelId}
    {v : ChannelId × Access × UInt64} (h : s.Inv)
    (hready : (s.shard.shared.channel .default).isSome = true) (hv : Steady c v s.shard)
    (hstep : (server E parse).step s a s') : Steady c v s'.shard := by
  cases ha : a.isRestart with
  | true =>
    obtain ⟨hchannel, hissued, htask⟩ := h.restart hready ha hstep
    refine ⟨by rw [hissued, hv.issued], fun record hrecord => ?_, fun j record hj hid => ?_⟩
    · exact hv.stored record (hchannel c ▸ hrecord)
    · rcases htask j with hsame | hnone
      · exact hv.borne j record (hsame ▸ hj) hid
      · rw [hnone] at hj
        cases hj
  | false =>
    rcases server_fire ha hstep with rfl | ⟨i, e, p, config, -, hfire, rfl⟩
    · exact hv
    · exact hv.fire h.registry hfire

/-- From a state on in which the Default Channel is there, its records keep their values. -/
theorem Server.Inv.steady_steps {x y : Server ι} {c : ChannelId}
    {v : ChannelId × Access × UInt64} (h : x.Inv)
    (hready : (x.shard.shared.channel .default).isSome = true) (hv : Steady c v x.shard)
    (hrun : (server E parse).Steps (fun _ _ => True) x y) : Steady c v y.shard := by
  have hall : y.Inv ∧ (y.shard.shared.channel .default).isSome = true ∧ Steady c v y.shard := by
    refine hrun.preserves (I := fun z => z.Inv ∧ (z.shard.shared.channel .default).isSome = true ∧
      Steady c v z.shard) ?_ ⟨h, hready, hv⟩
    rintro z a z' ⟨hz, hdefault, hsteady⟩ - hstep
    exact ⟨hz.step hstep, hz.ready hdefault hstep, hz.steady hdefault hsteady hstep⟩
  exact hall.2.2

theorem Server.ready_of_serving {x y : Server ι} {config : Config}
    (hx : (server E parse).Reach (fun _ _ => True) x) (hserving : x.phase = .serving config)
    (hrun : (server E parse).Steps (fun _ _ => True) x y) :
    (y.shard.shared.channel .default).isSome = true := by
  have hinv := Server.inv_of_reach hx
  have hfirst : (x.shard.shared.channel .default).isSome = true := by
    have hphase := hinv.phase
    rw [hserving] at hphase
    exact hphase
  have hboth : y.Inv ∧ (y.shard.shared.channel .default).isSome = true := by
    refine hrun.preserves
      (I := fun z => z.Inv ∧ (z.shard.shared.channel .default).isSome = true) ?_ ⟨hinv, hfirst⟩
    rintro z a z' ⟨hz, hdefault⟩ - hstep
    exact ⟨hz.step hstep, hz.ready hdefault hstep⟩
  exact hboth.2

/-- In every state after the first successful `ensure_default`: the Default Channel is there,
open and active; what a channel was registered with, or has in its record, is what its record
says in every later state; a restart changes nothing of the Default Channel's record; and every
expiry is positive. -/
theorem registry_invariants (E : Env ι) (parse : String → Except String Config.UrlShape)
    {x y : Server ι} {config : Config} (hx : (server E parse).Reach (fun _ _ => True) x)
    (hserving : x.phase = .serving config)
    (hrun : (server E parse).Steps (fun _ _ => True) x y) :
    (∃ record, y.shard.shared.channel .default = some record ∧ record.id = .default ∧
      record.access = .open ∧ record.state = .active) ∧
    (∀ c record, (y.shard.shared.channel c = some record ∨
        (record.id = c ∧ ∃ i, y.shard.task i = .register record .write)) →
      ∀ z record', (server E parse).Steps (fun _ _ => True) y z →
        z.shard.shared.channel c = some record' →
          record'.id = record.id ∧ record'.access = record.access ∧
            record'.createdAt = record.createdAt) ∧
    (∀ a z, a.isRestart = true → (server E parse).step y a z →
      z.shard.shared.channel .default = y.shard.shared.channel .default) ∧
    ∀ c record, y.shard.shared.channel c = some record → 0 < record.expirySeconds := by
  have hinv : y.Inv := Server.inv_of_reach (hx.steps hrun)
  have hready := Server.ready_of_serving hx hserving hrun
  refine ⟨?_, fun c record hrecord z record' hz hrecord' => ?_,
    fun a z ha hstep => (hinv.restart hready ha hstep).1 .default, fun c record hrecord => ?_⟩
  · obtain ⟨record, hrecord, hopen, hactive⟩ := hinv.defaultKept hready
    exact ⟨record, hrecord, hinv.registry.ids .default record hrecord, hopen, hactive⟩
  · -- the record in `y` fixes the values of the channel from there on
    obtain ⟨v, hv, hidentity⟩ : ∃ v, Steady c v y.shard ∧ record.identity = v := by
      rcases hrecord with hstored | ⟨hid, i, hregister⟩
      · obtain ⟨v, hv⟩ := hinv.agree c (hinv.registry.drawn_of_channel hstored).issued
        exact ⟨v, hv, hv.stored record hstored⟩
      · have hissued := (hinv.registry.registering i c (by rw [hregister, ← hid]; rfl)).1
        obtain ⟨v, hv⟩ := hinv.agree c hissued
        exact ⟨v, hv, hv.borne i record (by rw [hregister]; rfl) hid⟩
    have hlater := (hinv.steady_steps hready hv hz).stored record' hrecord'
    rw [← hidentity] at hlater
    exact ⟨congrArg (·.1) hlater, congrArg (·.2.1) hlater, congrArg (·.2.2) hlater⟩
  · have hne := hinv.positive.stored c record hrecord
    exact UInt64.pos_iff_ne_zero.mpr hne

/-! ### A patched expiry across a restart -/

/-- The actions that a schedule determines. -/
def Server.act (E : Env ι) (parse : String → Except String Config.UrlShape) (s : Server ι) :
    ServerAction ι → Option (Server ι)
  | .start config =>
    match s.phase, config.validate parse with
    | .down, .ok () => some { s with phase := .ensuring config .read }
    | _, _ => none
  | .ensure now =>
    match s.phase with
    | .ensuring config pc => some ⟨⟨(ensureStep config now pc s.shard.shared).1, s.shard.task⟩,
        (ensureStep config now pc s.shard.shared).2⟩
    | _ => none
  | .thread i (.start (.patch c credential expirySeconds)) =>
    match s.phase with
    | .serving _ => (s.shard.fire E i (.start (.patch c credential expirySeconds))).map
        fun p => { s with shard := p }
    | _ => none
  | .thread i (.run now) =>
    match s.phase with
    | .serving _ => (s.shard.fire E i (.run now)).map fun p => { s with shard := p }
    | _ => none
  | .crash => some ⟨s.shard.crash, .down⟩
  | _ => none

theorem Server.step_of_act {a : ServerAction ι} (h : s.act E parse a = some s') :
    (server E parse).step s a s' := by
  obtain ⟨shard, phase⟩ := s
  cases a with
  | start config =>
    simp only [Server.act] at h
    split at h
    · rename_i hvalid
      cases h
      exact ⟨rfl, hvalid, rfl⟩
    · cases h
  | ensure now =>
    simp only [Server.act] at h
    split at h
    · cases h
      exact ⟨_, _, rfl, rfl⟩
    · cases h
  | thread i e =>
    cases e with
    | start op =>
      cases op with
      | patch c credential expirySeconds =>
        simp only [Server.act] at h
        split at h
        · obtain ⟨p, hfire, rfl⟩ := Option.map_eq_some_iff.mp h
          exact ⟨⟨_, rfl⟩, nofun, p, hfire, rfl⟩
        · cases h
      | _ => cases h
    | run now =>
      simp only [Server.act] at h
      split at h
      · obtain ⟨p, hfire, rfl⟩ := Option.map_eq_some_iff.mp h
        exact ⟨⟨_, rfl⟩, nofun, p, hfire, rfl⟩
      · cases h
    | _ => cases h
  | crash => cases h; rfl
  | ensureFail | register | losePower => cases h

/-- A first start with expiry 100. -/
def firstStart : List (ServerAction (BitVec 128)) :=
  [.start (sampleConfig 100), .ensure 0, .ensure 0, .ensure 0, .ensure 0]

/-- A patch of the Default Channel to expiry 7, a crash, and a start with expiry 200. -/
def patchAndRestart : List (ServerAction (BitVec 128)) :=
  .thread 1 (.start (.patch .default none (some 7))) ::
    List.replicate 5 (.thread 1 (.run 0)) ++
      [.crash, .start (sampleConfig 200), .ensure 0, .ensure 0]

/-- After the restart the patched expiry is there, and the record is open and active. -/
theorem patched_expiry_kept : ∃ y record,
    (server sampleEnv sampleParse).Reach (fun _ _ => True) y ∧
      y.shard.shared.channel .default = some record ∧ record.expirySeconds = 7 ∧
        record.access = .open ∧ record.state = .active := by
  have hexec : ((System.exec (Server.act sampleEnv sampleParse) (fun _ _ => true)
      (Server.blank _) firstStart).bind fun x =>
        if x.phase matches .serving _ then
          System.exec (Server.act sampleEnv sampleParse) (fun _ _ => true) x patchAndRestart
        else none).any (fun y => (y.shard.shared.channel .default).any
          (·.expirySeconds == 7)) = true := by
    decide
  obtain ⟨y, hy, hexpiry⟩ := (Option.any_eq_true _ _).mp hexec
  obtain ⟨x, hx, hrest⟩ := Option.bind_eq_some_iff.mp hy
  split at hrest
  · rename_i hserving
    have hreach : (server sampleEnv sampleParse).Reach (fun _ _ => True) x :=
      ⟨_, rfl, System.steps_of_exec (fun _ _ _ => Server.step_of_act) (fun _ _ _ => trivial) hx⟩
    have hrun : (server sampleEnv sampleParse).Steps (fun _ _ => True) x y :=
      System.steps_of_exec (fun _ _ _ => Server.step_of_act) (fun _ _ _ => trivial) hrest
    obtain ⟨config, hconfig⟩ : ∃ config, x.phase = .serving config := by
      cases hphase : x.phase with
      | serving config => exact ⟨config, rfl⟩
      | down | ensuring config pc => rw [hphase] at hserving; cases hserving
    obtain ⟨record, hrecord, -, hopen, hactive⟩ :=
      (registry_invariants sampleEnv sampleParse hreach hconfig hrun).1
    rw [hrecord] at hexpiry
    exact ⟨y, record, hreach.steps hrun, hrecord, by simpa using hexpiry, hopen, hactive⟩
  · cases hrest

end Flywheel
