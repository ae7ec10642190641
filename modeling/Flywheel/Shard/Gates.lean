import Flywheel.Shard.Lifecycle
import Flywheel.Shard.Locking

/-!
# The channel gates

A gate is made when somebody first asks for it and forgotten at the end of a deletion, so
over time a channel may have several. `Gated` is what makes them work all the same, in
every run:

- until a deletion has removed the registry record for good (`Gone`), everybody who has
  asked for the gate of a channel was given the same one;
- whoever is past the check for an active channel (`Task.fenced`) works on a channel whose
  record is still there.

Together with the exclusion of the two sides of a gate this gives `Gated.not_fenced`: while a
deletion holds the exclusive side, nobody is past the check.
-/

set_option autoImplicit false

namespace Flywheel

open Lib

variable {ι : Type} {E : Env ι} {i : ι} {e : Event} {s s' : Shared ι} {t t' : Task}

/-! ## Where a task is -/

/-- The gate a task was given: it waits for the gate or holds one of its sides. -/
def Task.gate : Task → Option (ChannelId × Nat)
  | .publish r (.fenceLock _ g) => some (r.channel, g)
  | .reference c _ _ (.fenceLock g) => some (c, g)
  | .patch c _ _ (.lock g) => some (c, g)
  | .delete c _ (.lock g) | .delete c _ (.exclusiveLock g) => some (c, g)
  | t => t.readGate.or t.writeGate

/-- The channel a task found active and works on under its gate. -/
def Task.fenced : Task → Option ChannelId
  | .publish r pc =>
    match pc with
    | .stripe _ | .publishDir _ | .tryExists _ | .removeStaged _ | .rename _ | .syncParent _
    | .commitRead _ | .commitWrite _ _ | .discardLocked _ => some r.channel
    | _ => none
  | .reference c _ _ (.write _) => some c
  | _ => none

/-- The channel a task has found and is about to delete. -/
def Task.deletes : Task → Option ChannelId
  | .delete c _ pc =>
    match pc with
    | .authorize | .resumeRead => none
    | _ => some c
  | _ => none

/-- The channel whose record a task has removed. -/
def Task.forgets : Task → Option ChannelId
  | .delete c _ (.forget _) => some c
  | .done (.deleted c) => some c
  | _ => none

theorem Task.gate_of_readGate {c : ChannelId} {g : Nat} (h : t.readGate = some (c, g)) :
    t.gate = some (c, g) := by
  cases t with
  | publish r pc => cases pc <;> first | exact h | cases h
  | reference c' name op pc => cases pc <;> first | exact h | cases h
  | patch c' credential expirySeconds pc => cases pc <;> first | exact h | cases h
  | delete c' credential pc => cases pc <;> first | exact h | cases h
  | _ => cases h

theorem Task.gate_of_writeGate {c : ChannelId} {g : Nat} (h : t.writeGate = some (c, g)) :
    t.gate = some (c, g) := by
  cases t with
  | delete c' credential pc => cases pc <;> first | exact h | cases h
  | _ => cases h

theorem Task.readGate_of_fenced {c : ChannelId} (h : t.fenced = some c) :
    ∃ g, t.readGate = some (c, g) := by
  cases t with
  | publish r pc => cases pc <;> first | (cases h; exact ⟨_, rfl⟩) | cases h
  | reference c' name op pc => cases pc <;> first | (cases h; exact ⟨_, rfl⟩) | cases h
  | _ => cases h

theorem Task.readGate_of_writesBack {c : ChannelId} (h : t.writesBack = some c) :
    ∃ g, t.readGate = some (c, g) := by
  cases t with
  | patch c' credential expirySeconds pc => cases pc <;> first | (cases h; exact ⟨_, rfl⟩) | cases h
  | delete c' credential pc => cases pc <;> first | (cases h; exact ⟨_, rfl⟩) | cases h
  | _ => cases h

section Steps

variable [DecidableEq ι]

/-- A task keeps the gate it has, or has just asked for it. -/
theorem gate_of_step (h : Task.step E i e s t = some (s', t')) {c : ChannelId} {g : Nat}
    (hg : t'.gate = some (c, g)) :
    t.gate = some (c, g) ∨ (s'.gates = (s.gate c).1.gates ∧ g = (s.gate c).2) := by
  -- By where the task has got to: each program counter has few that lead to it.
  have hfrom := step_from h
  cases t' with
  | publish r pc' =>
    rcases hfrom with ⟨-, -, rfl⟩ | ⟨pc, rfl, hfrom⟩
    · cases hg
    cases pc' with
    | fenceLock stagedAt g' =>
      cases hg
      obtain ⟨-, rfl, rfl⟩ := hfrom
      exact .inr ⟨rfl, rfl⟩
    | fenceCheck | publishDir | syncParent =>
      obtain ⟨rfl, -⟩ := hfrom
      exact .inl hg
    | stripe | tryExists | removeStaged | rename | commitWrite =>
      obtain ⟨rfl, -, -⟩ := hfrom
      exact .inl hg
    | commitRead f =>
      rcases hfrom with ⟨rfl, -⟩ | ⟨rfl, -⟩ <;> exact .inl hg
    | discardLocked f =>
      rcases hfrom with ⟨-, rfl | rfl | rfl | rfl⟩ <;> exact .inl hg
    | _ => cases hg
  | reference c' name op pc' =>
    rcases hfrom with ⟨-, -, rfl⟩ | ⟨pc, rfl, hfrom⟩
    · cases hg
    cases pc' with
    | fenceGate => cases hg
    | fenceLock g' =>
      cases hg
      obtain ⟨-, rfl, rfl⟩ := hfrom
      exact .inr ⟨rfl, rfl⟩
    | fenceCheck | write =>
      obtain ⟨rfl, -⟩ := hfrom
      exact .inl hg
  | patch c' credential expirySeconds pc' =>
    rcases hfrom with ⟨-, -, rfl⟩ | ⟨pc, rfl, hfrom⟩
    · cases hg
    cases pc' with
    | authorize | gate => cases hg
    | lock g' =>
      cases hg
      obtain ⟨-, rfl, rfl⟩ := hfrom
      exact .inr ⟨rfl, rfl⟩
    | recheck | store =>
      obtain ⟨rfl, -⟩ := hfrom
      exact .inl hg
  | delete c' credential pc' =>
    rcases hfrom with ⟨-, -, ⟨rfl, -⟩ | rfl⟩ | ⟨pc, rfl, hfrom⟩
    · cases hg
    · cases hg
    cases pc' with
    | lock | exclusiveLock =>
      cases hg
      obtain ⟨-, rfl, rfl⟩ := hfrom
      exact .inr ⟨rfl, rfl⟩
    | recheck | store | deleteData | finish | forget =>
      obtain ⟨rfl, -⟩ := hfrom
      exact .inl hg
    | removeDir =>
      rcases hfrom with ⟨rfl, -⟩ | ⟨rfl, -⟩ <;> exact .inl hg
    | _ => cases hg
  | _ => cases hg

/-- Who works under the fence did so before, or has just found the channel active. -/
theorem fenced_of_step (h : Task.step E i e s t = some (s', t')) {c : ChannelId}
    (hc : t'.fenced = some c) : t.fenced = some c ∨ (s' = s ∧ (s.channel c).isSome) := by
  have hfrom := step_from h
  cases t' with
  | publish r pc' =>
    rcases hfrom with ⟨-, -, rfl⟩ | ⟨pc, rfl, hfrom⟩
    · cases hc
    cases pc' with
    | stripe f =>
      cases hc
      obtain ⟨-, rfl, record, hrecord, -⟩ := hfrom
      exact .inr ⟨rfl, by rw [hrecord]; rfl⟩
    | publishDir | tryExists | removeStaged | rename | syncParent | commitWrite =>
      obtain ⟨rfl, -⟩ := hfrom
      exact .inl hc
    | commitRead f =>
      rcases hfrom with ⟨rfl, -⟩ | ⟨rfl, -⟩ <;> exact .inl hc
    | discardLocked f =>
      rcases hfrom with ⟨-, rfl | rfl | rfl | rfl⟩ <;> exact .inl hc
    | _ => cases hc
  | reference c' name op pc' =>
    rcases hfrom with ⟨-, -, rfl⟩ | ⟨pc, rfl, hfrom⟩
    · cases hc
    cases pc' with
    | write g =>
      cases hc
      obtain ⟨-, rfl, record, hrecord, -⟩ := hfrom
      exact .inr ⟨rfl, by rw [hrecord]; rfl⟩
    | _ => cases hc
  | _ => cases hc

/-- A deletion in progress was one before, or has just found its channel. -/
theorem deletes_of_step (h : Task.step E i e s t = some (s', t')) {c : ChannelId}
    (hc : t'.deletes = some c) : t.deletes = some c ∨ ∃ record, s.channel c = some record := by
  cases t' with
  | delete c' credential pc' =>
    rcases step_from h with ⟨-, -, ⟨rfl, -⟩ | rfl⟩ | ⟨pc, rfl, hfrom⟩
    · cases hc
    · cases hc
    cases pc' with
    | authorize | resumeRead => cases hc
    | gate =>
      cases hc
      obtain ⟨-, -, record, hrecord, -⟩ := hfrom
      exact .inr ⟨record, hrecord⟩
    | exclusiveGate =>
      rcases hfrom with ⟨g, record, rfl, -⟩ | ⟨-, -, record, hrecord, -⟩
      · exact .inl hc
      · cases hc
        exact .inr ⟨record, hrecord⟩
    | removeDir =>
      rcases hfrom with ⟨rfl, -⟩ | ⟨rfl, -⟩ <;> exact .inl hc
    | lock | recheck | store | exclusiveLock | deleteData | finish | forget =>
      obtain ⟨rfl, -⟩ := hfrom
      exact .inl hc
  | _ => cases hc

/-- A record that is removed was just removed, or before. -/
theorem forgets_of_step (h : Task.step E i e s t = some (s', t')) {c : ChannelId}
    (hc : t'.forgets = some c) :
    t.forgets = some c ∨ ∃ credential g, t = .delete c credential (.finish g) ∧
      t' = .delete c credential (.forget g) := by
  cases t' with
  | delete c' credential pc' =>
    cases pc' with
    | forget g =>
      cases hc
      rcases step_from h with ⟨-, -, ⟨hpc, -⟩ | hpc⟩ | ⟨pc, rfl, rfl, -⟩
      · cases hpc
      · cases hpc
      · exact .inr ⟨credential, g, rfl, rfl⟩
    | _ => cases hc
  | done o =>
    cases o with
    | deleted c' =>
      cases hc
      obtain ⟨credential, g, rfl, -⟩ := step_to_deleted h
      exact .inl rfl
    | _ => cases hc
  | _ => cases hc

end Steps

/-! ## Channels that are gone -/

/-- The record of the channel is removed for good. -/
structure Gone (c : ChannelId) (p : Shard ι) : Prop where
  drawn : Drawn c p
  vacant : Vacant c p

/-- Everybody who has asked for the gate of `c` was given the current one. -/
def Agree (c : ChannelId) (p : Shard ι) : Prop :=
  ∀ k g, (p.task k).gate = some (c, g) → p.shared.gates c = some g

structure Gated (p : Shard ι) : Prop where
  gates : ∀ c, Gone c p ∨ Agree c p
  fenced : ∀ k c, (p.task k).fenced = some c → (p.shared.channel c).isSome
  deletes : ∀ k c, (p.task k).deletes = some c → Drawn c p
  forgets : ∀ k c, (p.task k).forgets = some c → Gone c p

variable {p p' : Shard ι}

theorem Gone.not_isSome {c : ChannelId} (h : Gone c p) : ¬ (p.shared.channel c).isSome := by
  rw [h.vacant.absent]
  exact Bool.false_ne_true

/-- Two tasks that have a gate of one channel have the same one, unless the channel is gone. -/
theorem Gated.gate_eq (h : Gated p) {c : ChannelId} (hc : ¬ Gone c p) {j k : ι} {g g' : Nat}
    (hj : (p.task j).gate = some (c, g)) (hk : (p.task k).gate = some (c, g')) : g = g' := by
  have hagree := (h.gates c).resolve_left hc
  exact Option.some.inj ((hagree j g hj).symm.trans (hagree k g' hk))

/-- Where a deletion holds the exclusive side, nobody holds the shared one. -/
theorem Gated.not_reading (h : Gated p) (hlocked : Locked E p) {c : ChannelId} (hc : ¬ Gone c p)
    {j k : ι} {g g' : Nat} (hk : (p.task k).writeGate = some (c, g))
    (hj : (p.task j).readGate = some (c, g')) : False := by
  obtain rfl : g = g' := h.gate_eq hc (Task.gate_of_writeGate hk) (Task.gate_of_readGate hj)
  exact hlocked.gate_excl hj hk

/-- Where a deletion holds the exclusive side, nobody works under the fence. -/
theorem Gated.not_fenced (h : Gated p) (hlocked : Locked E p) {c : ChannelId} {k : ι} {g : Nat}
    (hk : (p.task k).writeGate = some (c, g)) (j : ι) : (p.task j).fenced ≠ some c := by
  intro hj
  obtain ⟨g', hread⟩ := Task.readGate_of_fenced hj
  exact h.not_reading hlocked (fun hgone => hgone.not_isSome (h.fenced j c hj)) hk hread

variable [DecidableEq ι]

theorem Gone.fire {c : ChannelId} (h : Gone c p) (hregistry : Registry p)
    (hfire : p.fire E i e = some p') : Gone c p' := by
  refine ⟨h.drawn.fire hfire, h.vacant.fire (hregistry.named i) hfire fun record hc ht => ?_⟩
  exact h.drawn.unregistered i (by rw [ht, ← hc]; rfl)

/-- Removing the record under the exclusive side removes it for good. -/
theorem gone_of_finish (h : Gated p) (hlocked : Locked E p) (hregistry : Registry p)
    (hfire : p.fire E i e = some p') {c : ChannelId} {credential : Option Bytes} {g : Nat}
    (ht : p.task i = .delete c credential (.finish g))
    (ht' : p'.task i = .delete c credential (.forget g)) : Gone c p' := by
  by_cases hgone : Gone c p
  · exact hgone.fire hregistry hfire
  obtain ⟨hstep, hothers⟩ := Shard.fire_eq_some hfire
  refine ⟨(h.deletes i c (by rw [ht]; rfl)).fire hfire, ?_, fun k hk => ?_⟩
  · rw [ht, ht'] at hstep
    rcases step_from hstep with ⟨hidle, -⟩ | ⟨pc, -, -, hs⟩
    · cases hidle
    · simp [hs, Shared.channel]
  · by_cases hki : k = i
    · subst hki
      rw [ht'] at hk
      cases hk
    · rw [hothers k hki] at hk
      obtain ⟨g', hread⟩ := Task.readGate_of_writesBack hk
      exact h.not_reading hlocked hgone (k := i) (by rw [ht]; rfl) hread

omit [DecidableEq ι] in
/-- The gate a lookup returns is the current one from then on. -/
theorem Shared.gate_gates (s : Shared ι) (c c' : ChannelId) :
    (s.gate c).1.gates c' = if c' = c then some (s.gate c).2 else s.gates c' := by
  simp [Shared.gate, Function.update_apply]

theorem Gated.agree_fire (h : Gated p) (hregistry : Registry p)
    (hfire : p.fire E i e = some p') (c : ChannelId) : Gone c p' ∨ Agree c p' := by
  by_cases hgone : Gone c p
  · exact .inl (hgone.fire hregistry hfire)
  obtain ⟨hstep, hothers⟩ := Shard.fire_eq_some hfire
  have hagree := (h.gates c).resolve_left hgone
  -- what the others were given stays current
  have hkeep : ∀ g, p.shared.gates c = some g → p'.shared.gates c = some g := by
    intro g hg
    cases (step_move hstep).gates with
    | keep hs => rw [hs, hg]
    | lookup c' hs =>
      rw [hs, Shared.gate_gates]
      split
      · rename_i hc
        subst hc
        simp [Shared.gate, hg]
      · exact hg
    | @forget c' credential g' ht hs =>
      have hne : c ≠ c' := by
        rintro rfl
        exact hgone (h.forgets i c (by rw [ht]; rfl))
      rw [hs]
      exact (Function.update_of_ne hne ..).trans hg
  refine .inr fun k g hk => ?_
  by_cases hki : k = i
  · subst hki
    rcases gate_of_step hstep hk with hold | ⟨hs, hg⟩
    · exact hkeep g (hagree k g hold)
    · rw [hs, Shared.gate_gates, if_pos rfl, hg]
  · rw [hothers k hki] at hk
    exact hkeep g (hagree k g hk)

/-- Only a deletion that holds the exclusive side removes a record. -/
theorem Gated.fenced_fire (h : Gated p) (hlocked : Locked E p) (hfire : p.fire E i e = some p')
    {k : ι} {c : ChannelId} (hk : (p'.task k).fenced = some c) : (p'.shared.channel c).isSome := by
  obtain ⟨hstep, hothers⟩ := Shard.fire_eq_some hfire
  have hsome : (p.task k).fenced = some c → (p'.shared.channel c).isSome := by
    intro hold
    have hsome := h.fenced k c hold
    cases (step_move hstep).channel_change c with
    | keep hs => rwa [hs]
    | registered _ _ hs | patched _ _ hs | marked _ _ hs => rw [hs]; rfl
    | finished ht => exact absurd hold (h.not_fenced hlocked (k := i) (by rw [ht]; rfl) k)
  by_cases hki : k = i
  · subst hki
    rcases fenced_of_step hstep hk with hold | ⟨hs, hchannel⟩
    · exact hsome hold
    · rwa [hs]
  · exact hsome (by rwa [hothers k hki] at hk)

theorem Gated.fire (h : Gated p) (hlocked : Locked E p) (hregistry : Registry p)
    (hfire : p.fire E i e = some p') : Gated p' := by
  obtain ⟨hstep, hothers⟩ := Shard.fire_eq_some hfire
  refine ⟨h.agree_fire hregistry hfire, fun k c hk => h.fenced_fire hlocked hfire hk, ?_, ?_⟩
  · intro k c hk
    by_cases hki : k = i
    · subst hki
      rcases deletes_of_step hstep hk with hold | ⟨record, hrecord⟩
      · exact (h.deletes k c hold).fire hfire
      · exact (hregistry.drawn_of_channel hrecord).fire hfire
    · rw [hothers k hki] at hk
      exact (h.deletes k c hk).fire hfire
  · intro k c hk
    by_cases hki : k = i
    · subst hki
      rcases forgets_of_step hstep hk with hold | ⟨credential, g, ht, ht'⟩
      · exact (h.forgets k c hold).fire hregistry hfire
      · exact gone_of_finish h hlocked hregistry hfire ht ht'
    · rw [hothers k hki] at hk
      exact (h.forgets k c hk).fire hregistry hfire

omit [DecidableEq ι] in
/-- A new process: nobody has a gate, and what is gone stays gone. -/
theorem Gated.lost (h : Gated p) {x : Shared ι} (hissued : x.issued = p.shared.issued)
    (hchannels : x.store.current.channels = p.shared.store.current.channels) :
    Gated (⟨x, fun j => (p.task j).lost⟩ : Shard ι) := by
  refine ⟨fun c => .inr fun k g hk => ?_, fun k c hk => ?_, fun k c hk => ?_, fun k c hk => ?_⟩
  · dsimp only at hk
    cases ht : p.task k <;> rw [ht] at hk <;> cases hk
  · dsimp only at hk
    cases ht : p.task k <;> rw [ht] at hk <;> cases hk
  · dsimp only at hk
    cases ht : p.task k <;> rw [ht] at hk <;> cases hk
  · have hold : (p.task k).forgets = some c := by
      dsimp only at hk
      cases ht : p.task k <;> rw [ht] at hk <;> first | exact hk | cases hk
    have hgone := h.forgets k c hold
    refine ⟨hgone.drawn.lost hissued, ?_, fun j hj => ?_⟩
    · rw [Shared.channel, RocksMetadata.channel, hchannels]
      exact hgone.vacant.absent
    · rw [((p.task j).lost_carries_nothing).2.2] at hj
      cases hj

/-- In every state of every run. -/
theorem gated_of_reach {G : Shard ι → Action ι → Prop} (h : (shard E).Reach G p) : Gated p := by
  refine h.invariant_of_reach ?_ ?_
  · rintro _ ⟨expirySeconds, now, rfl⟩
    refine ⟨fun c => .inr fun k g hk => ?_, fun k c hk => ?_, fun k c hk => ?_, fun k c hk => ?_⟩
    all_goals cases hk
  · intro x a y hx hgated _ hstep
    have hregistry := registry_of_reach hx
    cases a with
    | thread i e => exact hgated.fire (locked_of_reach hx) hregistry hstep
    | crash =>
      obtain rfl : y = x.crash := hstep
      exact hgated.lost rfl rfl
    | losePower d z =>
      obtain ⟨-, hz, rfl⟩ := hstep
      exact hgated.lost rfl (hregistry.synced z hz)

end Flywheel
