import Flywheel.Artifact

/-!
# The space ledger (`src/cache/space.rs`)

One mutex guards the ledger's counters, so each method below is one indivisible action,
with one exception: `SpaceLedger::refresh` calls `free_bytes()` *before* it takes the lock.
It is two actions, the sample and the update, and only the update is a function of the
ledger (`refreshLocked`).

The counters are `u64` and saturate. `reserve_room` is the arithmetic of an admitted
reservation in natural numbers: an admission of at least one byte means that no sum of
`available_locked` saturated.
-/

set_option autoImplicit false

namespace Flywheel

/-- Watermarks and headroom that shape reservation and reclamation decisions. -/
structure SpacePolicy where
  lowWatermark : UInt64
  highWatermark : UInt64
  emergencyHeadroom : UInt64

namespace SpaceLedger

inductive Mode where
  | normal
  | reclaiming
  deriving DecidableEq

/-- The state behind the ledger's mutex. -/
structure State where
  freeObserved : UInt64
  reserved : UInt64
  committedSince : UInt64
  degraded : Bool
  reclaiming : Bool
  deriving DecidableEq

/-- The ledger `SpaceLedger::new` builds before its first `refresh`. -/
def new : State := ⟨0, 0, 0, true, false⟩

/-- What `refresh` does once it holds the lock, with the observation it took before. -/
def refreshLocked (observation : Option UInt64) (state : State) : State :=
  match observation with
  | some free => { state with freeObserved := free, committedSince := 0, degraded := false }
  | none => { state with degraded := true }

def availableLocked (policy : SpacePolicy) (state : State) : UInt64 :=
  let spokenFor :=
    saturatingAdd (saturatingAdd state.reserved state.committedSince) policy.emergencyHeadroom
  saturatingSub state.freeObserved spokenFor

/-- The maintenance mode, with low/high watermark hysteresis. -/
def mode (policy : SpacePolicy) (state : State) : Mode × State :=
  let available := availableLocked policy state
  if state.reclaiming then
    if available ≥ policy.highWatermark then (.normal, { state with reclaiming := false })
    else (.reclaiming, state)
  else if available < policy.lowWatermark then (.reclaiming, { state with reclaiming := true })
  else (.normal, state)

def tryReserve (policy : SpacePolicy) (state : State) (bytes : UInt64) : Bool × State :=
  if state.degraded then (false, state)
  else if availableLocked policy state < bytes then (false, state)
  else (true, { state with reserved := saturatingAdd state.reserved bytes })

def release (state : State) (bytes : UInt64) : State :=
  { state with reserved := saturatingSub state.reserved bytes }

def commit (state : State) (bytes : UInt64) : State :=
  { state with
    reserved := saturatingSub state.reserved bytes
    committedSince := saturatingAdd state.committedSince bytes }

variable {policy : SpacePolicy} {state : State} {bytes : UInt64}

/-- `mode` only moves the hysteresis flag. -/
theorem mode_counters (policy : SpacePolicy) (state : State) :
    (mode policy state).2.freeObserved = state.freeObserved ∧
      (mode policy state).2.reserved = state.reserved ∧
      (mode policy state).2.committedSince = state.committedSince ∧
      (mode policy state).2.degraded = state.degraded := by
  unfold mode
  dsimp only
  split
  · split <;> exact ⟨rfl, rfl, rfl, rfl⟩
  · split <;> exact ⟨rfl, rfl, rfl, rfl⟩

/-- A reservation is refused and changes nothing, or is admitted and adds its bytes. -/
theorem tryReserve_cases (policy : SpacePolicy) (state : State) (bytes : UInt64) :
    tryReserve policy state bytes = (false, state) ∨
      (state.degraded = false ∧ bytes ≤ availableLocked policy state ∧
        tryReserve policy state bytes =
          (true, { state with reserved := saturatingAdd state.reserved bytes })) := by
  unfold tryReserve
  split
  · exact .inl rfl
  · rename_i hdegraded
    split
    · exact .inl rfl
    · rename_i hroom
      exact .inr ⟨by simpa using hdegraded, UInt64.not_lt.mp hroom, rfl⟩

/-- What is available to an admitted reservation is really there: the saturated sums of
`available_locked` are exact as soon as one byte is. -/
theorem reserve_room (hbytes : bytes ≠ 0) (h : bytes ≤ availableLocked policy state) :
    state.reserved.toNat + state.committedSince.toNat + policy.emergencyHeadroom.toNat +
      bytes.toNat ≤ state.freeObserved.toNat := by
  have hpos : 0 < bytes.toNat := by
    have : bytes.toNat ≠ 0 := fun h0 => hbytes (UInt64.toNat_inj.mp h0)
    omega
  have hle := UInt64.le_iff_toNat_le.mp h
  simp only [availableLocked, toNat_saturatingSub, toNat_saturatingAdd] at hle
  have hobserved := state.freeObserved.toNat_lt
  omega

/-- The reserved counter does not saturate at an admission. -/
theorem toNat_reserve (h : bytes ≤ availableLocked policy state) :
    (saturatingAdd state.reserved bytes).toNat = state.reserved.toNat + bytes.toNat := by
  rw [toNat_saturatingAdd]
  have hreserved := state.reserved.toNat_lt
  by_cases hbytes : bytes = 0
  · subst hbytes
    show min (state.reserved.toNat + 0) _ = state.reserved.toNat + 0
    omega
  · have hroom := reserve_room hbytes h
    have hobserved := state.freeObserved.toNat_lt
    omega

end SpaceLedger

end Flywheel
