import Flywheel.Cacheprog.Merge
import Flywheel.Cacheprog.Protocol
import Flywheel.Lib.Transition

/-!
# The end of a build (`finalize` of `cacheprog/session.rs`)

When a build ends, its helper reads the manifest under the session's label, merges in the actions
that the build used and writes the result back. The key is a register of the shard: a write
replaces what is there, whoever wrote it. What the merge promises (builds that share a label
accumulate) therefore holds as long as each write replaces a manifest that still has what the
finished helpers have used.

- `Finalize.step`: the read and the write of a helper.
- `Current`: a helper that writes has read, and does not drop, what those that have finished have
  used.
- `builds_accumulate`: what the register then holds of the helpers that have finished; a helper
  that writes otherwise takes an action away.

A body is taken for what `serde_json` makes of it.
-/

set_option autoImplicit false

namespace Flywheel.Cacheprog

open Lib Std

/-! ## Finalize -/

/-- What a body is taken for: a manifest of another version is none. -/
def ofVersion (body : Option Manifest) : Option Manifest :=
  body.filter (·.version = manifestVersion)

inductive Finalize where
  | ready
  /-- The answer to the GET. -/
  | read (stored : Option Manifest)
  | finished

namespace Finalize

inductive Event where
  | get
  /-- The PUT, and whether the shard has stored its body. -/
  | put (stored : Bool)
  deriving DecidableEq

/-- The used actions and the clock of a helper, and what is under the key. -/
def step (used : Usage) (now : UInt64) (e : Event) (body : Option Manifest) :
    Finalize → Option (Option Manifest × Finalize)
  | ready =>
    match e with
    | .get => if used.entries = [] then some (body, finished) else some (body, read (ofVersion body))
    | .put _ => none
  | read stored =>
    match e with
    | .put true => some (mergeManifest stored used.entries now, finished)
    | .put false => some (body, finished)
    | .get => none
  | finished => none

end Finalize

/-- Any number of helpers with one label. -/
abbrev Finalizers (ι : Type) : Type := Pool ι (Option Manifest) Finalize

namespace Finalizers

structure Action (ι : Type) where
  helper : ι
  event : Finalize.Event

variable {ι : Type}

/-- Every body that is put is stored. -/
def Stores (a : Action ι) : Prop := a.event ≠ .put false

instance (a : Action ι) : Decidable (Stores a) := inferInstanceAs (Decidable (_ ≠ _))

/-- An action is there with the time of some helper. -/
def Seen (now : ι → UInt64) (entries : Family ManifestEntry) (action : Bytes) : Prop :=
  ∃ entry i, entries[action]? = some entry ∧ entry.lastSeen = now i

/-- What a helper has read of an action, it keeps: it is not too old for its clock, and of what it
merges fewer than the cap come after. -/
def Holds (stored : Option Manifest) (used : Usage) (now : UInt64) (action : Bytes) : Prop :=
  ∃ entry, (storedEntries stored)[action]? = some entry ∧
    saturatingSub now entry.lastSeen ≤ manifestMaxAgeSeconds ∧
    (Later stored used now entry.lastSeen action).ncard < manifestMaxEntries

section

variable (used : ι → Usage) (now : ι → UInt64)

/-- A helper that writes has used itself, or has read and keeps, every action of those that have
finished. -/
def Current (p : Finalizers ι) (a : Action ι) : Prop :=
  ∀ stored, a.event = .put true → p.task a.helper = .read stored →
    ∀ j, p.task j = .finished → ∀ action ∈ (used j).actions,
      action ∈ (used a.helper).actions ∨ Holds stored (used a.helper) (now a.helper) action

variable [DecidableEq ι]

def fire (p : Finalizers ι) (a : Action ι) : Option (Finalizers ι) :=
  Pool.fire (fun i e body f => Finalize.step (used i) (now i) e body f) p a.helper a.event

def system (initial : Option Manifest) : System (Finalizers ι) (Action ι) where
  init p := p = ⟨initial, fun _ => .ready⟩
  step p a p' := p.fire used now a = some p'

end

/-! ## One write -/

section

variable {used : ι → Usage} {now : ι → UInt64} {kept : Finset Bytes} {earliest : UInt64}
  {stored : Option Manifest}

/-- What a helper has not used is there after its write exactly if it has read and keeps it. -/
theorem isSome_merge_iff {used : Usage} {now : UInt64} {action : Bytes}
    (hunused : action ∉ used.actions) :
    ((mergeManifest stored used.entries now).entries[action]?).isSome ↔
      Holds stored used now action := by
  rw [Option.isSome_iff_exists]
  constructor
  · rintro ⟨entry, hentry⟩
    obtain ⟨⟨u, hu, -⟩ | ⟨-, hget, hage⟩, hlater⟩ := get_mergeManifest.mp hentry
    · exact absurd (List.mem_map.mpr ⟨_, hu, rfl⟩) hunused
    · exact ⟨entry, hget, hage, hlater⟩
  · rintro ⟨entry, hget, hage, hlater⟩
    exact ⟨entry, get_mergeManifest.mpr ⟨.inr ⟨hunused, hget, hage⟩, hlater⟩⟩

/-- The actions seen since the earliest clock are among those to be kept. -/
def Recent (kept : Finset Bytes) (earliest : UInt64) (entries : Family ManifestEntry) : Prop :=
  ∀ action entry, entries[action]? = some entry → earliest ≤ entry.lastSeen → action ∈ kept

variable (hclocks : ∀ i j, saturatingSub (now i) (now j) ≤ manifestMaxAgeSeconds)
  (hearliest : ∀ i, earliest ≤ now i) (hcard : kept.card ≤ manifestMaxEntries)
  (hused : ∀ i, ∀ action ∈ (used i).actions, action ∈ kept)
  (hrecent : Recent kept earliest (storedEntries stored)) (i : ι)

include hused hrecent

theorem recent_offer : Recent kept earliest (offer stored (used i) (now i)) := by
  intro action entry hentry hseen
  rcases get_offer.mp hentry with ⟨u, hmem, -⟩ | ⟨-, hget, -⟩
  · exact hused i action (List.mem_map.mpr ⟨_, hmem, rfl⟩)
  · exact hrecent action entry hget hseen

theorem recent_mergeManifest :
    Recent kept earliest (mergeManifest stored (used i).entries (now i)).entries := by
  intro action entry hentry hseen
  exact recent_offer hused hrecent i action entry (get_of_evict hentry) hseen

include hcard

/-- What is on offer with a time not before the earliest clock is not evicted. -/
theorem get_of_offered {action : Bytes} {entry : ManifestEntry}
    (h : Offered stored (used i) (now i) action entry) (hseen : earliest ≤ entry.lastSeen) :
    (mergeManifest stored (used i).entries (now i)).entries[action]? = some entry :=
  get_evict_of_kept hcard (recent_offer hused hrecent i) (get_offer.mpr h) hseen

include hearliest

theorem isSome_of_used {action : Bytes} (h : action ∈ (used i).actions) :
    ((mergeManifest stored (used i).entries (now i)).entries[action]?).isSome := by
  obtain ⟨⟨action, u⟩, hmem, rfl⟩ := List.mem_map.mp h
  have hget := get_of_offered hcard hused hrecent i (.inl ⟨u, hmem, rfl⟩) (hearliest i)
  exact Option.isSome_iff_exists.mpr ⟨_, hget⟩

include hclocks

/-- What a helper has read with the time of a helper, it keeps. -/
theorem holds_of_seen {action : Bytes} (hunused : action ∉ (used i).actions)
    (h : Seen now (storedEntries stored) action) : Holds stored (used i) (now i) action := by
  obtain ⟨entry, j, hentry, hseen⟩ := h
  have hoffered : Offered stored (used i) (now i) action entry :=
    .inr ⟨hunused, hentry, hseen ▸ hclocks i j⟩
  have hget := get_of_offered hcard hused hrecent i hoffered (hseen ▸ hearliest j)
  exact (isSome_merge_iff hunused).mp (Option.isSome_iff_exists.mpr ⟨entry, hget⟩)

end

/-! ## Runs -/

/-- What is stored, or was read, has only so many recent actions, and what is stored has what the
finished helpers have used. -/
structure Ok (used : ι → Usage) (kept : Finset Bytes) (earliest : UInt64) (p : Finalizers ι) :
    Prop where
  recent : Recent kept earliest (storedEntries (ofVersion p.shared))
  read : ∀ i stored, p.task i = .read stored → Recent kept earliest (storedEntries stored)
  finished : ∀ i, p.task i = .finished → ∀ action ∈ (used i).actions,
    ((storedEntries (ofVersion p.shared))[action]?).isSome

section

variable [DecidableEq ι] {used : ι → Usage} {now : ι → UInt64} {kept : Finset Bytes}
  {earliest : UInt64}

theorem storedEntries_mergeManifest (stored : Option Manifest) (used : Usage) (now : UInt64) :
    storedEntries (ofVersion (some (mergeManifest stored used.entries now))) =
      (mergeManifest stored used.entries now).entries := rfl

/-- The step of a helper gives it a new state and leaves the others theirs. -/
theorem task_update {p : Finalizers ι} {i j : ι} {f f' : Finalize}
    (h : Function.update p.task i f j = f') : j = i ∧ f = f' ∨ j ≠ i ∧ p.task j = f' := by
  rcases eq_or_ne j i with rfl | hne
  · exact .inl ⟨rfl, by rwa [Function.update_self] at h⟩
  · exact .inr ⟨hne, by rwa [Function.update_of_ne hne] at h⟩

/-- A helper goes on without a write. -/
theorem Ok.goes_on {p : Finalizers ι} {i : ι} {f : Finalize} (h : p.Ok used kept earliest)
    (hread : ∀ stored, f = .read stored → Recent kept earliest (storedEntries stored))
    (hfinished : f = .finished → (used i).actions = []) :
    Ok used kept earliest (⟨p.shared, Function.update p.task i f⟩ : Finalizers ι) := by
  refine ⟨h.recent, fun j stored hj => ?_, fun j hj action haction => ?_⟩
  · rcases task_update hj with ⟨-, hf⟩ | ⟨-, hold⟩
    · exact hread stored hf
    · exact h.read j stored hold
  · rcases task_update hj with ⟨rfl, hf⟩ | ⟨-, hold⟩
    · rw [hfinished hf] at haction
      cases haction
    · exact h.finished j hold action haction

section

variable (hearliest : ∀ i, earliest ≤ now i) (hcard : kept.card ≤ manifestMaxEntries)
  (hused : ∀ i, ∀ action ∈ (used i).actions, action ∈ kept)

include hearliest hcard hused

theorem Ok.step {p p' : Finalizers ι} {a : Action ι} (h : p.Ok used kept earliest)
    (hstores : Stores a) (hcurrent : p.Current used now a)
    (hstep : p.fire used now a = some p') : p'.Ok used kept earliest := by
  obtain ⟨i, e⟩ := a
  obtain ⟨⟨body, f⟩, hfinalize, rfl⟩ := Option.map_eq_some_iff.mp hstep
  have hfinalize : Finalize.step (used i) (now i) e p.shared (p.task i) = some (body, f) :=
    hfinalize
  dsimp only
  cases htask : p.task i with
  | ready =>
    rw [htask] at hfinalize
    cases e with
    | get =>
      rw [Finalize.step] at hfinalize
      split at hfinalize
      · rename_i hempty
        cases hfinalize
        refine h.goes_on (fun _ hread => by cases hread) fun _ => ?_
        rw [Usage.actions, hempty]
        rfl
      · cases hfinalize
        refine h.goes_on (fun stored hread => ?_) (fun hfinished => by cases hfinished)
        cases hread
        exact h.recent
    | put stored => cases hfinalize
  | read stored =>
    rw [htask] at hfinalize
    cases e with
    | get => cases hfinalize
    | put written =>
      cases written with
      | false => exact absurd rfl hstores
      | true =>
        cases hfinalize
        have hrecent := h.read i stored htask
        refine ⟨?_, fun j stored' hj => ?_, fun j hj action haction => ?_⟩
        · show Recent kept earliest (storedEntries (ofVersion (some _)))
          rw [storedEntries_mergeManifest]
          exact recent_mergeManifest hused hrecent i
        · rcases task_update hj with ⟨-, habsurd⟩ | ⟨-, hold⟩
          · cases habsurd
          · exact h.read j stored' hold
        · show ((storedEntries (ofVersion (some _)))[action]?).isSome
          rw [storedEntries_mergeManifest]
          by_cases hmem : action ∈ (used i).actions
          · exact isSome_of_used hearliest hcard hused hrecent i hmem
          · rcases task_update hj with ⟨rfl, -⟩ | ⟨-, hold⟩
            · exact absurd haction hmem
            · -- of those that had finished, the helper has read and keeps every action
              have hholds := (hcurrent stored rfl htask j hold action haction).resolve_left hmem
              exact (isSome_merge_iff hmem).mpr hholds
  | finished =>
    rw [htask] at hfinalize
    cases hfinalize

theorem reach_ok {initial : Option Manifest}
    (hinitial : Recent kept earliest (storedEntries (ofVersion initial))) {p : Finalizers ι}
    (h : (system used now initial).Reach (fun p a => Stores a ∧ p.Current used now a) p) :
    p.Ok used kept earliest := by
  refine h.invariant (I := Ok used kept earliest) ?_ ?_
  · rintro p₀ rfl
    exact ⟨hinitial, (fun _ _ hj => by cases hj), (fun _ hj => by cases hj)⟩
  · rintro p a p' hp ⟨hstores, hcurrent⟩ hstep
    exact Ok.step hearliest hcard hused hp hstores hcurrent hstep

end

/-- A helper that writes without an action of one that has finished takes it away. -/
theorem lost_of_not_current {p p' : Finalizers ι} {a : Action ι} (hnot : ¬ p.Current used now a)
    (hstep : p.fire used now a = some p') :
    ∃ j, p'.task j = .finished ∧ ∃ action ∈ (used j).actions,
      (storedEntries (ofVersion p'.shared))[action]? = none := by
  obtain ⟨i, e⟩ := a
  rw [Current] at hnot
  push Not at hnot
  obtain ⟨stored, rfl, htask, j, hj, action, haction, hunused, hdropped⟩ := hnot
  obtain ⟨⟨body, f⟩, hfinalize, rfl⟩ := Option.map_eq_some_iff.mp hstep
  have hfinalize : Finalize.step (used i) (now i) (.put true) p.shared (p.task i) =
      some (body, f) := hfinalize
  dsimp only at htask hunused hdropped
  rw [htask] at hfinalize
  cases hfinalize
  have hne : j ≠ i := by
    rintro rfl
    cases hj.symm.trans htask
  refine ⟨j, (Function.update_of_ne hne ..).trans hj, action, haction, ?_⟩
  show (storedEntries (ofVersion (some _)))[action]? = none
  rw [storedEntries_mergeManifest]
  exact Option.not_isSome_iff_eq_none.mp fun hsome => hdropped ((isSome_merge_iff hunused).mp hsome)

/-- With no more actions that were used or seen since the earliest clock than the cap: as long as
every helper that writes has used itself, or has read and keeps, the actions of those that have
finished, the manifest has every action of every helper that has finished. A helper that writes
otherwise takes such an action away. With clocks within the retention window, what a helper has
read with the time of a helper, it keeps. -/
theorem builds_accumulate (used : ι → Usage) (now : ι → UInt64)
    (initial : Option Manifest) (kept : Finset Bytes) (earliest : UInt64)
    (hclocks : ∀ i j, saturatingSub (now i) (now j) ≤ manifestMaxAgeSeconds)
    (hearliest : ∀ i, earliest ≤ now i) (hcard : kept.card ≤ manifestMaxEntries)
    (hused : ∀ i, ∀ action ∈ (used i).actions, action ∈ kept)
    (hinitial : Recent kept earliest (storedEntries (ofVersion initial))) {p : Finalizers ι}
    (h : (system used now initial).Reach (fun p a => Stores a ∧ p.Current used now a) p) :
    (∀ i, p.task i = .finished → ∀ action ∈ (used i).actions,
      ((storedEntries (ofVersion p.shared))[action]?).isSome) ∧
    (∀ a p', ¬ p.Current used now a → p.fire used now a = some p' →
      ∃ j, p'.task j = .finished ∧ ∃ action ∈ (used j).actions,
        (storedEntries (ofVersion p'.shared))[action]? = none) ∧
    ∀ i stored, p.task i = .read stored → ∀ action ∉ (used i).actions,
      Seen now (storedEntries stored) action → Holds stored (used i) (now i) action := by
  have hok := reach_ok hearliest hcard hused hinitial h
  refine ⟨hok.finished, fun a p' hnot hstep => lost_of_not_current hnot hstep, ?_⟩
  intro i stored htask action hunused hseen
  exact holds_of_seen hclocks hearliest hcard hused (hok.read i stored htask) i hunused hseen

end

/-! ### Two helpers -/

/-- The first helper has used the action `a`, the second `b`. -/
def sampleUsed (second : Bool) : Usage :=
  ⟨[(if second then [98] else [97], ⟨[48, 48], 1⟩)], List.nodup_singleton _⟩

def sampleNow (_ : Bool) : UInt64 := 1000

def sampleKept : Finset Bytes := {[97], [98]}

def sampleFinalizers : Finalizers Bool := ⟨none, fun _ => .ready⟩

/-- Both have finished, and the manifest has the action of the second and, or not, of the first. -/
def sampleFinished (first : Bool) (p : Finalizers Bool) : Bool :=
  match p.task false, p.task true with
  | .finished, .finished =>
    ((storedEntries (ofVersion p.shared))[([97] : Bytes)]?).isSome == first &&
      ((storedEntries (ofVersion p.shared))[([98] : Bytes)]?).isSome
  | _, _ => false

/-- Whether a step is current, where all that is merged is below the cap. -/
def isCurrent (p : Finalizers Bool) (a : Action Bool) : Bool :=
  match p.task a.helper with
  | .read stored =>
    decide ((offer stored (sampleUsed a.helper) 1000).size < manifestMaxEntries) &&
    [false, true].all fun j =>
      match p.task j with
      | .finished => (sampleUsed j).actions.all fun action =>
          (sampleUsed a.helper).actions.contains action ||
            ((storedEntries stored)[action]?).any (·.lastSeen = 1000)
      | _ => true
  | _ => true

theorem current_of_isCurrent {p : Finalizers Bool} {a : Action Bool} (h : isCurrent p a = true) :
    p.Current sampleUsed sampleNow a := by
  intro stored _ htask j hj action haction
  rw [isCurrent, htask] at h
  obtain ⟨hsize, h⟩ := (Bool.and_eq_true _ _).mp h
  have hhelper := List.all_eq_true.mp h j (by cases j <;> decide)
  rw [hj] at hhelper
  rcases Bool.or_eq_true_iff.mp (List.all_eq_true.mp hhelper action haction) with hused | hread
  · exact .inl (List.contains_iff_mem.mp hused)
  · obtain ⟨entry, hentry, hseen⟩ := (Option.any_eq_true _ _).mp hread
    have hseen : entry.lastSeen = 1000 := of_decide_eq_true hseen
    refine .inr ⟨entry, hentry, ?_, ?_⟩
    · rw [hseen, sampleNow]
      decide
    · rw [ncard_later]
      have hle := List.countP_le_length
        (p := fun b => decide (compareAge (entry.lastSeen, action) b = .lt))
        (l := byAge (offer stored (sampleUsed a.helper) (sampleNow a.helper)))
      rw [length_byAge] at hle
      exact hle.trans_lt (of_decide_eq_true hsize)

theorem sample_clocks (i j : Bool) :
    saturatingSub (sampleNow i) (sampleNow j) ≤ manifestMaxAgeSeconds := by
  rw [sampleNow, sampleNow]
  decide

theorem sample_kept (i : Bool) : ∀ action ∈ (sampleUsed i).actions, action ∈ sampleKept := by
  cases i <;> decide

/-- The second helper reads what the first has written. -/
theorem helpers_in_turn :
    ∃ p : Finalizers Bool, (system sampleUsed sampleNow none).Reach
        (fun p a => Stores a ∧ p.Current sampleUsed sampleNow a) p ∧
      sampleFinished true p = true ∧
      ∀ i, p.task i = .finished → ∀ action ∈ (sampleUsed i).actions,
        ((storedEntries (ofVersion p.shared))[action]?).isSome := by
  have hexec : (System.exec (fire sampleUsed sampleNow)
      (fun p a => decide (Stores a) && isCurrent p a) sampleFinalizers
      [⟨false, .get⟩, ⟨false, .put true⟩, ⟨true, .get⟩, ⟨true, .put true⟩]).any
      (sampleFinished true) = true := by
    decide
  obtain ⟨p, hreach, hcheck⟩ := System.reach_of_exec (S := system sampleUsed sampleNow none)
    (G := fun p a => Stores a ∧ p.Current sampleUsed sampleNow a) (fun _ _ _ h => h)
    (fun p a h => by
      obtain ⟨hstores, hcurrent⟩ := (Bool.and_eq_true _ _).mp h
      exact ⟨of_decide_eq_true hstores, current_of_isCurrent hcurrent⟩)
    rfl hexec
  refine ⟨p, hreach, hcheck, ?_⟩
  exact (builds_accumulate sampleUsed sampleNow none sampleKept 1000 sample_clocks
    (fun _ => UInt64.le_refl _) (by decide) sample_kept
    (fun _ _ hentry => by simp [ofVersion, storedEntries] at hentry) hreach).1

/-- Both helpers read before either writes: the second takes the action of the first away. -/
theorem helpers_overlap :
    (∀ i j, saturatingSub (sampleNow i) (sampleNow j) ≤ manifestMaxAgeSeconds) ∧
      sampleKept.card < manifestMaxEntries ∧
      (∀ i, ∀ action ∈ (sampleUsed i).actions, action ∈ sampleKept) ∧
      ¬ ∀ p : Finalizers Bool, (system sampleUsed sampleNow none).Reach (fun _ a => Stores a) p →
        (∀ i, p.task i = .finished) → ∀ i, ∀ action ∈ (sampleUsed i).actions,
          ((storedEntries (ofVersion p.shared))[action]?).isSome := by
  refine ⟨sample_clocks, by decide, sample_kept, fun hall => ?_⟩
  have hexec : (System.exec (fire sampleUsed sampleNow)
      (fun _ a => decide (Stores a)) sampleFinalizers
      [⟨false, .get⟩, ⟨true, .get⟩, ⟨false, .put true⟩, ⟨true, .put true⟩]).any
      (sampleFinished false) = true := by
    decide
  obtain ⟨p, hreach, hcheck⟩ := System.reach_of_exec (S := system sampleUsed sampleNow none)
    (G := fun _ a => Stores a) (fun _ _ _ h => h) (fun _ _ h => of_decide_eq_true h) rfl hexec
  unfold sampleFinished at hcheck
  split at hcheck
  · rename_i hfirst hsecond
    have hfinished : ∀ i, p.task i = .finished := by
      intro i
      cases i with
      | false => exact hfirst
      | true => exact hsecond
    have hmissing := ((Bool.and_eq_true _ _).mp hcheck).1
    rw [hall p hreach hfinished false [97] (by decide)] at hmissing
    cases hmissing
  · cases hcheck

end Finalizers

end Flywheel.Cacheprog
