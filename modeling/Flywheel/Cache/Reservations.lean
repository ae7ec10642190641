import Flywheel.Cache.Space
import Flywheel.Lib.Totals

/-!
# Reservations and their settlement (`src/storage/local/artifact_files.rs`)

The bytes a `Reservation` has taken from the ledger change hands: `commit` turns a part into
usage and gives the rest back, `discard` and `Drop` hand what is outstanding to a
`PendingSettlement`, which waits for the removal of a temporary file, in the caller or in a
spawned task, and settles itself when it is dropped before that.

Each step of a holder makes at most one call of the ledger (`LedgerCall`), so holders
interleave between any two calls. `Reservation::commit` makes two; between them the holder is
`committing` and still has to release the slack.

- `Holder.step_owed`: what a holder owes changes by exactly the bytes of its call.
- `Conserved`: the reserved counter is what the holders owe, the three terms of
  `available_locked` fit a `u64`, and every byte taken is owed, released or committed.
- `reservations_conserved`: hence no counter ever saturates; only the difference that
  `available_locked` reports does, when less is free than is spoken for.

The path of a temporary file and the directory calls are left to `Shard/Tasks.lean`.
-/

set_option autoImplicit false

namespace Flywheel

open Lib SpaceLedger

/-! ## Holders -/

/-- What is on disk for an outstanding reservation. -/
inductive ReservationState where
  | vacant
  | temporary
  | published
  deriving DecidableEq

structure Reservation where
  outstanding : UInt64
  state : ReservationState
  deriving DecidableEq

/-- The call of the ledger a step makes. -/
inductive LedgerCall where
  | quiet
  | tryReserve (bytes : UInt64)
  | release (bytes : UInt64)
  | commit (bytes : UInt64)
  deriving DecidableEq

/-- Who holds the bytes of one reservation. -/
inductive Holder where
  | unborn
  /-- A live `Reservation` between two of its methods. -/
  | held (r : Reservation)
  /-- Inside `Reservation::commit`, before the slack is released. -/
  | committing (r : Reservation) (slack : UInt64)
  /-- At the end of `Reservation::commit`: the consumed value is dropped. -/
  | dropping (r : Reservation)
  /-- A `PendingSettlement` that waits for the removal of the temporary file. -/
  | pending (outstanding : UInt64)
  | settled
  deriving DecidableEq

namespace Reservation

/-- `Reservation::new`. -/
def new : Reservation := ⟨0, .vacant⟩

/-- The bytes that `reserve` adds once they are admitted. -/
def add (r : Reservation) (bytes : UInt64) : Reservation :=
  { r with outstanding := saturatingAdd r.outstanding bytes }

/-- `Reservation::discard`, up to the await of `remove_file`. -/
def discard (r : Reservation) : LedgerCall × Holder :=
  match r.state with
  | .vacant => (.release r.outstanding, .settled)
  | .temporary => (.quiet, .pending r.outstanding)
  | .published => (.commit r.outstanding, .settled)

/-- `Reservation::drop`; the removal of a temporary file is spawned on the runtime, if there
is one. -/
def drop (runtime : Bool) (r : Reservation) : LedgerCall × Holder :=
  if r.outstanding = 0 ∧ r.state ≠ .temporary then (.quiet, .settled)
  else
    match r.state with
    | .vacant => (.release r.outstanding, .settled)
    | .published => (.commit r.outstanding, .settled)
    | .temporary =>
      if runtime then (.quiet, .pending r.outstanding) else (.commit r.outstanding, .settled)

end Reservation

/-- What happens to a holder. -/
inductive HolderEvent where
  | create
  | reserve (bytes : UInt64)
  /-- `mark_temporary`, `mark_vacant`, `mark_published`. -/
  | mark (state : ReservationState)
  | commit (bytes : UInt64)
  /-- The second half of `commit`. -/
  | releaseSlack
  | discard
  | drop (runtime : Bool)
  /-- The removal of the temporary file returned: it is gone, or the removal failed. -/
  | removed (gone : Bool)
  /-- The awaiting `discard` or the spawned task is cancelled. -/
  | cancel
  deriving DecidableEq

/-- One step of a holder, with the ledger's answer to a reservation. -/
def Holder.step (admits : UInt64 → Bool) : HolderEvent → Holder → Option (LedgerCall × Holder)
  | .create, .unborn => some (.quiet, .held .new)
  | .reserve bytes, .held r =>
    if bytes = 0 then some (.quiet, .held (r.add bytes))
    else some (.tryReserve bytes, .held (if admits bytes then r.add bytes else r))
  | .mark state, .held r => some (.quiet, .held { r with state })
  | .commit bytes, .held r =>
    let committed := min bytes r.outstanding
    let slack := r.outstanding - committed
    some (.commit committed,
      if slack > 0 then .committing r slack else .dropping { r with outstanding := 0 })
  | .releaseSlack, .committing r slack =>
    some (.release slack, .dropping { r with outstanding := 0 })
  | .discard, .held r => some r.discard
  | .drop runtime, .held r => some (r.drop runtime)
  | .drop runtime, .dropping r => some (r.drop runtime)
  -- `settle_removal`: `Ok` and `NotFound` release, any other error commits
  | .removed gone, .pending n => some (if gone then .release n else .commit n, .settled)
  -- `PendingSettlement::drop`
  | .cancel, .pending n => some (if n > 0 then .commit n else .quiet, .settled)
  | _, _ => none

/-- The `outstanding` field of a live `Reservation` or `PendingSettlement`. -/
def Holder.outstanding : Holder → Nat
  | .held r | .committing r _ | .dropping r => r.outstanding.toNat
  | .pending n => n.toNat
  | .unborn | .settled => 0

/-- The bytes a holder still has to settle. -/
def Holder.owed : Holder → Nat
  | .held r | .dropping r => r.outstanding.toNat
  | .committing _ slack => slack.toNat
  | .pending n => n.toNat
  | .unborn | .settled => 0

/-- Between the two ledger calls of `Reservation::commit`. -/
def Holder.isCommitting : Holder → Bool
  | .committing _ _ => true
  | _ => false

theorem Holder.owed_eq_outstanding {h : Holder} (hc : h.isCommitting = false) :
    h.owed = h.outstanding := by
  cases h with
  | committing => cases hc
  | _ => rfl

/-! ## What a step owes -/

/-- What a step does to the bytes its holder owes, by the call it makes. -/
def Holder.Owes (admits : UInt64 → Bool) (h h' : Holder) : LedgerCall → Prop
  | .quiet => h'.owed = h.owed
  | .tryReserve bytes =>
    bytes ≠ 0 ∧ ∃ r, h = .held r ∧ h' = .held (if admits bytes then r.add bytes else r)
  | .release bytes | .commit bytes => h.owed = bytes.toNat + h'.owed

theorem Reservation.toNat_add (r : Reservation) (bytes : UInt64) :
    (r.add bytes).outstanding.toNat = min (r.outstanding.toNat + bytes.toNat) (2 ^ 64 - 1) :=
  toNat_saturatingAdd ..

theorem Reservation.discard_owes (admits : UInt64 → Bool) (r : Reservation) :
    Holder.Owes admits (.held r) r.discard.2 r.discard.1 := by
  unfold discard
  split <;> rfl

theorem Reservation.drop_owes (admits : UInt64 → Bool) (runtime : Bool) (r : Reservation)
    {h : Holder} (hr : h.owed = r.outstanding.toNat) :
    Holder.Owes admits h (r.drop runtime).2 (r.drop runtime).1 := by
  unfold drop
  split
  · rename_i hzero
    show 0 = h.owed
    rw [hr, hzero.1]
    rfl
  · split
    · exact hr
    · exact hr
    · cases runtime with
      | true => exact hr.symm
      | false => exact hr

/-- A call moves what its holder owes by exactly its bytes. -/
theorem Holder.step_owed {admits : UInt64 → Bool} {e : HolderEvent} {h h' : Holder}
    {call : LedgerCall} (hstep : h.step admits e = some (call, h')) : h.Owes admits h' call := by
  cases h with
  | unborn =>
    cases e <;> cases hstep
    rfl
  | held r =>
    cases e with
    | reserve bytes =>
      rw [Holder.step] at hstep
      split at hstep
      · rename_i hzero
        cases hstep
        -- A request for no bytes adds none.
        have hlt := r.outstanding.toNat_lt
        show (r.add bytes).outstanding.toNat = r.outstanding.toNat
        rw [Reservation.toNat_add, hzero]
        show min (_ + 0) _ = _
        omega
      · rename_i hne
        cases hstep
        exact ⟨hne, r, rfl, rfl⟩
    | mark state =>
      cases hstep
      rfl
    | commit bytes =>
      cases hstep
      -- What is committed is taken off; the slack is released by the next call, if there is any.
      have hmin : min bytes r.outstanding ≤ r.outstanding := by
        show (if bytes ≤ r.outstanding then bytes else r.outstanding) ≤ r.outstanding
        split
        · assumption
        · exact UInt64.le_refl _
      have hsub := UInt64.toNat_sub_of_le _ _ hmin
      have hle := UInt64.le_iff_toNat_le.mp hmin
      show r.outstanding.toNat = _ + _
      split
      · show _ = _ + (r.outstanding - min bytes r.outstanding).toNat
        omega
      · rename_i hzero
        have hzero := UInt64.le_iff_toNat_le.mp (UInt64.not_lt.mp hzero)
        show _ = _ + 0
        have h0 : (0 : UInt64).toNat = 0 := rfl
        omega
    | discard =>
      have hdiscard := Option.some.inj hstep
      have howes := r.discard_owes admits
      rw [hdiscard] at howes
      exact howes
    | drop runtime =>
      have hdrop := Option.some.inj hstep
      have howes := r.drop_owes admits runtime (h := .held r) rfl
      rw [hdrop] at howes
      exact howes
    | _ => cases hstep
  | committing r slack =>
    cases e <;> cases hstep
    rfl
  | dropping r =>
    cases e with
    | drop runtime =>
      have hdrop := Option.some.inj hstep
      have howes := r.drop_owes admits runtime (h := .dropping r) rfl
      rw [hdrop] at howes
      exact howes
    | _ => cases hstep
  | pending n =>
    cases e with
    | removed gone => cases gone <;> cases hstep <;> rfl
    | cancel =>
      rw [Holder.step] at hstep
      split at hstep
      · cases hstep
        rfl
      · rename_i hzero
        cases hstep
        have hzero := UInt64.le_iff_toNat_le.mp (UInt64.not_lt.mp hzero)
        exact (Nat.le_zero.mp hzero).symm
    | _ => cases hstep
  | settled => cases e <;> cases hstep

/-! ## The system -/

/-- The ledger's answer to `try_reserve`. -/
def admits (policy : SpacePolicy) (ledger : State) (bytes : UInt64) : Bool :=
  (tryReserve policy ledger bytes).1

def LedgerCall.apply (policy : SpacePolicy) (ledger : State) : LedgerCall → State
  | .quiet => ledger
  | .tryReserve bytes => (SpaceLedger.tryReserve policy ledger bytes).2
  | .release bytes => SpaceLedger.release ledger bytes
  | .commit bytes => SpaceLedger.commit ledger bytes

/-- A holder and the bytes its calls have taken, given back and turned into usage so far. -/
structure Account where
  holder : Holder
  taken : Nat
  released : Nat
  committed : Nat
  deriving DecidableEq

namespace Account

def new : Account := ⟨.unborn, 0, 0, 0⟩

/-- Book a call. -/
def book (a : Account) (admits : UInt64 → Bool) (holder : Holder) : LedgerCall → Account
  | .quiet => { a with holder }
  | .tryReserve bytes =>
    { a with holder, taken := if admits bytes then a.taken + bytes.toNat else a.taken }
  | .release bytes => { a with holder, released := a.released + bytes.toNat }
  | .commit bytes => { a with holder, committed := a.committed + bytes.toNat }

/-- One step of a holder over the ledger. -/
def step (policy : SpacePolicy) (e : HolderEvent) (ledger : State) (a : Account) :
    Option (State × Account) :=
  (a.holder.step (admits policy ledger) e).map fun (call, holder) =>
    (call.apply policy ledger, a.book (admits policy ledger) holder call)

end Account

abbrev Reservations (ι : Type) : Type := Pool ι State Account

namespace Reservations

inductive Action (ι : Type) where
  | thread (i : ι) (e : HolderEvent)
  /-- A refresh takes the lock with the observation it sampled. -/
  | refresh (observation : Option UInt64)
  | mode

/-- `SpaceLedger::new` before its first refresh, and no reservation. -/
def new (ι : Type) : Reservations ι := ⟨SpaceLedger.new, fun _ => .new⟩

variable {ι : Type} [DecidableEq ι]

def fire (policy : SpacePolicy) (p : Reservations ι) : Action ι → Option (Reservations ι)
  | .thread i e => Pool.fire (fun _ e ledger a => Account.step policy e ledger a) p i e
  | .refresh observation => some { p with shared := refreshLocked observation p.shared }
  | .mode => some { p with shared := (SpaceLedger.mode policy p.shared).2 }

end Reservations

/-- Any number of reservations over one ledger. -/
def reservations (ι : Type) [DecidableEq ι] (policy : SpacePolicy) :
    System (Reservations ι) (Reservations.Action ι) where
  init p := p = Reservations.new ι
  step p a p' := p.fire policy a = some p'

/-! ## Saturating arithmetic -/

/-- Where the source computes with saturation. -/
inductive Site where
  /-- The sums of `available_locked`. -/
  | spokenFor
  /-- The difference that `available_locked` reports. -/
  | available
  | tryReserve
  | release
  | commit
  /-- `Reservation::reserve`, of its own bytes. -/
  | outstanding
  deriving DecidableEq

/-- A saturating operation and its arguments. -/
inductive Saturating where
  | add (site : Site) (a b : UInt64)
  | sub (site : Site) (a b : UInt64)
  deriving DecidableEq

def Saturating.site : Saturating → Site
  | .add site _ _ | .sub site _ _ => site

/-- The exact result does not fit. -/
def Saturating.Clamps : Saturating → Prop
  | .add _ a b => 2 ^ 64 ≤ a.toNat + b.toNat
  | .sub _ a b => a.toNat < b.toNat

instance : DecidablePred Saturating.Clamps
  | .add _ a b => inferInstanceAs (Decidable (2 ^ 64 ≤ a.toNat + b.toNat))
  | .sub _ a b => inferInstanceAs (Decidable (a.toNat < b.toNat))

/-- The operations of `available_locked`. -/
def available (policy : SpacePolicy) (ledger : State) : List Saturating :=
  let recorded := saturatingAdd ledger.reserved ledger.committedSince
  [.add .spokenFor ledger.reserved ledger.committedSince,
    .add .spokenFor recorded policy.emergencyHeadroom,
    .sub .available ledger.freeObserved (saturatingAdd recorded policy.emergencyHeadroom)]

/-- The operations of a call of the ledger. -/
def LedgerCall.performed (policy : SpacePolicy) (ledger : State) : LedgerCall → List Saturating
  | .quiet => []
  | .tryReserve bytes =>
    if ledger.degraded then []
    else available policy ledger ++
      if admits policy ledger bytes then [.add .tryReserve ledger.reserved bytes] else []
  | .release bytes => [.sub .release ledger.reserved bytes]
  | .commit bytes =>
    [.sub .commit ledger.reserved bytes, .add .commit ledger.committedSince bytes]

/-- The operations of `Reservation` itself. -/
def Holder.performed (admits : UInt64 → Bool) : HolderEvent → Holder → List Saturating
  | .reserve bytes, .held r =>
    if bytes = 0 ∨ admits bytes then [.add .outstanding r.outstanding bytes] else []
  | _, _ => []

namespace Reservations

variable {ι : Type}

/-- The saturating operations an action performs. -/
def performed (policy : SpacePolicy) (p : Reservations ι) : Action ι → List Saturating
  | .thread i e =>
    match (p.task i).holder.step (admits policy p.shared) e with
    | some (call, _) =>
      call.performed policy p.shared ++ (p.task i).holder.performed (admits policy p.shared) e
    | none => []
  | .refresh _ => []
  | .mode => available policy p.shared

/-- The bytes all holders owe. -/
def owed [Fintype ι] (p : Reservations ι) : Nat := p.total fun a => a.holder.owed

/-- The `outstanding` fields of all holders. -/
def outstanding [Fintype ι] (p : Reservations ι) : Nat := p.total fun a => a.holder.outstanding

/-- What is spoken for is there. -/
def Fits (policy : SpacePolicy) (p : Reservations ι) : Prop :=
  p.shared.reserved.toNat + p.shared.committedSince.toNat + policy.emergencyHeadroom.toNat ≤
    p.shared.freeObserved.toNat

/-! ## Conservation -/

/-- What every run keeps. -/
structure Conserved [Fintype ι] (policy : SpacePolicy) (p : Reservations ι) : Prop where
  reserved_eq : p.shared.reserved.toNat = p.owed
  spoken_lt : p.shared.reserved.toNat + p.shared.committedSince.toNat +
    policy.emergencyHeadroom.toNat < 2 ^ 64
  settled_once : ∀ i, (p.task i).taken =
    (p.task i).released + (p.task i).committed + (p.task i).holder.owed

variable [Fintype ι] {policy : SpacePolicy} {p p' : Reservations ι} {i : ι}

theorem conserved_new (policy : SpacePolicy) : Conserved policy (new ι) where
  reserved_eq := by
    show 0 = ∑ _ : ι, 0
    simp
  spoken_lt := by
    have := policy.emergencyHeadroom.toNat_lt
    show 0 + 0 + _ < _
    omega
  settled_once := fun _ => rfl

/-- A holder owes no more than is reserved. -/
theorem Conserved.owed_le (h : Conserved policy p) (i : ι) :
    (p.task i).holder.owed ≤ p.shared.reserved.toNat :=
  h.reserved_eq ▸ p.le_total (fun a => a.holder.owed) i

/-- The counters after a refresh or a look at the mode. -/
theorem Conserved.of_counters (h : Conserved policy p) (htask : p'.task = p.task)
    (hreserved : p'.shared.reserved = p.shared.reserved)
    (hcommitted : p'.shared.committedSince.toNat ≤ p.shared.committedSince.toNat) :
    Conserved policy p' where
  reserved_eq := by
    rw [hreserved, h.reserved_eq, owed, owed, Pool.total, Pool.total, htask]
  spoken_lt := by
    have := h.spoken_lt
    rw [hreserved]
    omega
  settled_once := by
    rw [htask]
    exact h.settled_once

variable [DecidableEq ι]

/-- The call and the next holder behind a thread's step. -/
theorem fire_thread {e : HolderEvent} (h : p.fire policy (.thread i e) = some p') :
    ∃ call holder, (p.task i).holder.step (admits policy p.shared) e = some (call, holder) ∧
      p'.shared = call.apply policy p.shared ∧
      p'.task i = (p.task i).book (admits policy p.shared) holder call ∧
      (∀ j, j ≠ i → p'.task j = p.task j) ∧
      p'.owed + (p.task i).holder.owed = p.owed + (p'.task i).holder.owed := by
  have h : Pool.fire (fun _ e ledger a => Account.step policy e ledger a) p i e = some p' := h
  have htotal := Pool.total_fire h fun a => a.holder.owed
  obtain ⟨hstep, hother⟩ := Pool.fire_eq_some h
  obtain ⟨⟨call, holder⟩, hholder, heq⟩ := Option.map_eq_some_iff.mp hstep
  obtain ⟨hs, ht⟩ := Prod.mk.inj heq
  exact ⟨call, holder, hholder, hs.symm, ht.symm, hother, htotal⟩

omit [DecidableEq ι] in
/-- One account and the counters move together. -/
theorem Conserved.replace (h : Conserved policy p) (hother : ∀ j, j ≠ i → p'.task j = p.task j)
    (htotal : p'.owed + (p.task i).holder.owed = p.owed + (p'.task i).holder.owed)
    (hreserved : p'.shared.reserved.toNat + (p.task i).holder.owed =
      p.shared.reserved.toNat + (p'.task i).holder.owed)
    (hspoken : p'.shared.reserved.toNat + p'.shared.committedSince.toNat +
      policy.emergencyHeadroom.toNat < 2 ^ 64)
    (hsettled : (p'.task i).taken =
      (p'.task i).released + (p'.task i).committed + (p'.task i).holder.owed) :
    Conserved policy p' where
  reserved_eq := by
    have := h.reserved_eq
    omega
  spoken_lt := hspoken
  settled_once := by
    intro j
    by_cases hji : j = i
    · subst hji
      exact hsettled
    · rw [hother j hji]
      exact h.settled_once j

theorem Conserved.thread {e : HolderEvent} (h : Conserved policy p)
    (hfire : p.fire policy (.thread i e) = some p') : Conserved policy p' := by
  obtain ⟨call, holder, hstep, hs, ht, hother, htotal⟩ := fire_thread hfire
  have howes := Holder.step_owed hstep
  have hle := h.owed_le i
  have hspoken := h.spoken_lt
  have hsettled := h.settled_once i
  cases call with
  | quiet =>
    have howed : (p'.task i).holder.owed = (p.task i).holder.owed := by
      rw [ht]
      exact howes
    refine h.replace hother htotal ?_ ?_ ?_
    · rw [hs, howed]
      rfl
    · rw [hs]
      exact hspoken
    · rw [howed, ht]
      exact hsettled
  | tryReserve bytes =>
    obtain ⟨hne, r, hr, rfl⟩ := howes
    have howed : (p.task i).holder.owed = r.outstanding.toNat := by
      rw [hr]
      rfl
    rcases tryReserve_cases policy p.shared bytes with hno | ⟨-, hroom, hyes⟩
    · -- refused: nothing moves
      have hadmits : admits policy p.shared bytes = false := by rw [admits, hno]
      have hshared : p'.shared = p.shared := by rw [hs, LedgerCall.apply, hno]
      have howed' : (p'.task i).holder.owed = r.outstanding.toNat := by
        rw [ht, Account.book, hadmits]
        rfl
      refine h.replace hother htotal ?_ ?_ ?_
      · rw [hshared, howed, howed']
      · rw [hshared]
        exact hspoken
      · rw [howed', ← howed, ht, Account.book, hadmits]
        exact hsettled
    · have hadmits : admits policy p.shared bytes = true := by rw [admits, hyes]
      have hshared : p'.shared =
          { p.shared with reserved := saturatingAdd p.shared.reserved bytes } := by
        rw [hs, LedgerCall.apply, hyes]
      have howed' : (p'.task i).holder.owed = (r.add bytes).outstanding.toNat := by
        rw [ht, Account.book, hadmits]
        rfl
      -- an admitted request fits the observation, so neither sum saturates
      have hexact := toNat_reserve hroom
      have hfits := reserve_room hne hroom
      have hfree := p.shared.freeObserved.toNat_lt
      have hadd := r.toNat_add bytes
      refine h.replace hother htotal ?_ ?_ ?_
      · rw [hshared, howed, howed']
        show (saturatingAdd p.shared.reserved bytes).toNat + _ = _
        omega
      · rw [hshared]
        show (saturatingAdd p.shared.reserved bytes).toNat + p.shared.committedSince.toNat + _ < _
        omega
      · rw [howed', ht, Account.book, hadmits]
        show (p.task i).taken + bytes.toNat = (p.task i).released + (p.task i).committed + _
        omega
  | release bytes =>
    have howed : (p.task i).holder.owed = bytes.toNat + (p'.task i).holder.owed := by
      rw [ht]
      exact howes
    have hsub := toNat_saturatingSub p.shared.reserved bytes
    refine h.replace hother htotal ?_ ?_ ?_
    · rw [hs]
      show (saturatingSub p.shared.reserved bytes).toNat + _ = _
      omega
    · rw [hs]
      show (saturatingSub p.shared.reserved bytes).toNat + p.shared.committedSince.toNat + _ < _
      omega
    · rw [ht] at howed ⊢
      show (p.task i).taken = (p.task i).released + bytes.toNat + (p.task i).committed + _
      omega
  | commit bytes =>
    have howed : (p.task i).holder.owed = bytes.toNat + (p'.task i).holder.owed := by
      rw [ht]
      exact howes
    have hsub := toNat_saturatingSub p.shared.reserved bytes
    have hadd := toNat_saturatingAdd p.shared.committedSince bytes
    refine h.replace hother htotal ?_ ?_ ?_
    · rw [hs]
      show (saturatingSub p.shared.reserved bytes).toNat + _ = _
      omega
    · rw [hs]
      show (saturatingSub p.shared.reserved bytes).toNat +
        (saturatingAdd p.shared.committedSince bytes).toNat + _ < _
      omega
    · rw [ht] at howed ⊢
      show (p.task i).taken = (p.task i).released + ((p.task i).committed + bytes.toNat) + _
      omega

theorem Conserved.fire {a : Action ι} (h : Conserved policy p)
    (hfire : p.fire policy a = some p') : Conserved policy p' := by
  cases a with
  | thread i e => exact h.thread hfire
  | refresh observation =>
    cases hfire
    refine h.of_counters rfl ?_ ?_
    · cases observation <;> rfl
    · cases observation with
      | none => exact Nat.le_refl _
      | some free => exact Nat.zero_le _
  | mode =>
    cases hfire
    obtain ⟨-, hreserved, hcommitted, -⟩ := mode_counters policy p.shared
    exact h.of_counters rfl hreserved (Nat.le_of_eq (congrArg _ hcommitted))

theorem conserved_of_reach (h : (reservations ι policy).Reach (fun _ _ => True) p) :
    Conserved policy p := by
  refine h.invariant ?_ fun x a y hx _ hfire => hx.fire hfire
  rintro _ rfl
  exact conserved_new policy

/-! ## No counter saturates -/

omit [DecidableEq ι] in
theorem Conserved.available_exact (h : Conserved policy p) {op : Saturating}
    (hop : op ∈ available policy p.shared) (hclamps : op.Clamps) :
    op.site = .available := by
  have hspoken := h.spoken_lt
  have hadd := toNat_saturatingAdd p.shared.reserved p.shared.committedSince
  simp only [available, List.mem_cons, List.not_mem_nil, or_false] at hop
  rcases hop with rfl | rfl | rfl
  · have hclamps : 2 ^ 64 ≤ p.shared.reserved.toNat + p.shared.committedSince.toNat := hclamps
    omega
  · have hclamps : 2 ^ 64 ≤ (saturatingAdd p.shared.reserved p.shared.committedSince).toNat +
      policy.emergencyHeadroom.toNat := hclamps
    omega
  · rfl

/-- An admitted request fits beside everything that is spoken for. -/
theorem room_of_admits {ledger : State} {bytes : UInt64} (hbytes : bytes ≠ 0)
    (h : admits policy ledger bytes = true) :
    ledger.reserved.toNat + ledger.committedSince.toNat + policy.emergencyHeadroom.toNat +
      bytes.toNat ≤ ledger.freeObserved.toNat := by
  rcases tryReserve_cases policy ledger bytes with hno | ⟨-, hroom, -⟩
  · rw [admits, hno] at h
    cases h
  · exact reserve_room hbytes hroom

omit [DecidableEq ι] in
/-- The ledger's own sums are exact. -/
theorem Conserved.call_exact (h : Conserved policy p) {holder : Holder} {call : LedgerCall}
    (howes : (p.task i).holder.Owes (admits policy p.shared) holder call) {op : Saturating}
    (hop : op ∈ call.performed policy p.shared) (hclamps : op.Clamps) :
    op.site = .available := by
  have hle := h.owed_le i
  have hspoken := h.spoken_lt
  cases call with
  | quiet => cases hop
  | tryReserve bytes =>
    obtain ⟨hne, -⟩ := howes
    rw [LedgerCall.performed] at hop
    split at hop
    · cases hop
    · rcases List.mem_append.mp hop with hop | hop
      · exact h.available_exact hop hclamps
      · split at hop
        · rename_i hadmits
          have hroom := room_of_admits hne hadmits
          have hfree := p.shared.freeObserved.toNat_lt
          rw [List.mem_singleton.mp hop] at hclamps
          have hclamps : 2 ^ 64 ≤ p.shared.reserved.toNat + bytes.toNat := hclamps
          omega
        · cases hop
  | release bytes =>
    have howes : (p.task i).holder.owed = bytes.toNat + holder.owed := howes
    rw [List.mem_singleton.mp hop] at hclamps
    have hclamps : p.shared.reserved.toNat < bytes.toNat := hclamps
    omega
  | commit bytes =>
    have howes : (p.task i).holder.owed = bytes.toNat + holder.owed := howes
    simp only [LedgerCall.performed, List.mem_cons, List.not_mem_nil, or_false] at hop
    rcases hop with rfl | rfl
    · have hclamps : p.shared.reserved.toNat < bytes.toNat := hclamps
      omega
    · have hclamps : 2 ^ 64 ≤ p.shared.committedSince.toNat + bytes.toNat := hclamps
      omega

omit [DecidableEq ι] in
/-- So is the sum a `Reservation` keeps of its own bytes. -/
theorem Conserved.holder_exact (h : Conserved policy p) {e : HolderEvent} {op : Saturating}
    (hop : op ∈ (p.task i).holder.performed (admits policy p.shared) e) : ¬ op.Clamps := by
  have hle := h.owed_le i
  have hspoken := h.spoken_lt
  unfold Holder.performed at hop
  split at hop
  · rename_i bytes r hr
    have howed : (p.task i).holder.owed = r.outstanding.toNat := by
      rw [hr]
      rfl
    split at hop
    · rename_i hadmitted
      rw [List.mem_singleton.mp hop]
      show ¬ 2 ^ 64 ≤ r.outstanding.toNat + bytes.toNat
      by_cases hbytes : bytes = 0
      · have hzero : bytes.toNat = 0 := congrArg UInt64.toNat hbytes
        omega
      · have hroom := room_of_admits hbytes (hadmitted.resolve_left hbytes)
        have hfree := p.shared.freeObserved.toNat_lt
        omega
    · cases hop
  · cases hop

omit [DecidableEq ι] in
theorem Conserved.exact (h : Conserved policy p) {a : Action ι} {op : Saturating}
    (hop : op ∈ p.performed policy a) (hclamps : op.Clamps) :
    op.site = .available := by
  cases a with
  | refresh observation => cases hop
  | mode => exact h.available_exact hop hclamps
  | thread i e =>
    rw [performed] at hop
    split at hop
    · rename_i call holder hstep
      rcases List.mem_append.mp hop with hop | hop
      · exact h.call_exact (Holder.step_owed hstep) hop hclamps
      · exact absurd hclamps (h.holder_exact hop)
    · cases hop

/-! ## Room between two refreshes -/

/-- Every action but a refresh with a new observation. -/
def KeepsObservation (_ : Reservations ι) (a : Action ι) : Prop := ∀ free, a ≠ .refresh (some free)

omit [Fintype ι] [DecidableEq ι] in
theorem fits_of_admits {bytes : UInt64} (hbytes : bytes ≠ 0)
    (h : admits policy p.shared bytes = true)
    (hs : p'.shared = (LedgerCall.tryReserve bytes).apply policy p.shared) : Fits policy p' := by
  rcases tryReserve_cases policy p.shared bytes with hno | ⟨-, hroom, hyes⟩
  · rw [admits, hno] at h
    cases h
  · have hexact := toNat_reserve hroom
    have hfits := reserve_room hbytes hroom
    rw [Fits, hs, LedgerCall.apply, hyes]
    show (saturatingAdd p.shared.reserved bytes).toNat + p.shared.committedSince.toNat + _ ≤
      p.shared.freeObserved.toNat
    omega

theorem Fits.fire {a : Action ι} (hfits : Fits policy p) (h : Conserved policy p)
    (ha : KeepsObservation p a) (hfire : p.fire policy a = some p') : Fits policy p' := by
  cases a with
  | mode =>
    cases hfire
    obtain ⟨hfree, hreserved, hcommitted, -⟩ := mode_counters policy p.shared
    rw [Fits, hfree, hreserved, hcommitted]
    exact hfits
  | refresh observation =>
    cases observation with
    | some free => exact absurd rfl (ha free)
    | none =>
      cases hfire
      exact hfits
  | thread i e =>
    obtain ⟨call, holder, hstep, hs, -, -, -⟩ := fire_thread hfire
    have howes := Holder.step_owed hstep
    have hle := h.owed_le i
    have hfits : p.shared.reserved.toNat + p.shared.committedSince.toNat +
      policy.emergencyHeadroom.toNat ≤ p.shared.freeObserved.toNat := hfits
    cases call with
    | quiet =>
      rw [Fits, hs]
      exact hfits
    | tryReserve bytes =>
      by_cases hadmits : admits policy p.shared bytes = true
      · exact fits_of_admits howes.1 hadmits hs
      · rcases tryReserve_cases policy p.shared bytes with hno | ⟨-, -, hyes⟩
        · rw [Fits, hs, LedgerCall.apply, hno]
          exact hfits
        · rw [admits, hyes] at hadmits
          exact absurd rfl hadmits
    | release bytes =>
      have hsub := toNat_saturatingSub p.shared.reserved bytes
      rw [Fits, hs]
      show (saturatingSub p.shared.reserved bytes).toNat + p.shared.committedSince.toNat + _ ≤
        p.shared.freeObserved.toNat
      omega
    | commit bytes =>
      have howes : (p.task i).holder.owed = bytes.toNat + holder.owed := howes
      have hsub := toNat_saturatingSub p.shared.reserved bytes
      have hadd := toNat_saturatingAdd p.shared.committedSince bytes
      rw [Fits, hs]
      show (saturatingSub p.shared.reserved bytes).toNat +
        (saturatingAdd p.shared.committedSince bytes).toNat + _ ≤ p.shared.freeObserved.toNat
      omega

/-- From an admitted reservation to the next observation, what is spoken for is there. -/
theorem fits_until_refresh {q : Reservations ι} {bytes : UInt64}
    (h : (reservations ι policy).Reach (fun _ _ => True) p) (hbytes : bytes ≠ 0)
    (hadmits : admits policy p.shared bytes = true)
    (hfire : p.fire policy (.thread i (.reserve bytes)) = some p')
    (hq : (reservations ι policy).Steps KeepsObservation p' q) : Fits policy q := by
  have hp' : (reservations ι policy).Reach (fun _ _ => True) p' := h.tail trivial hfire
  refine hq.preserves_of_reach (fun x a y hx hI ha hfire => ?_) (fun _ _ _ => trivial) hp' ?_
  · exact Fits.fire hI (conserved_of_reach hx) ha hfire
  · obtain ⟨call, holder, hstep, hs, -, -, -⟩ := fire_thread hfire
    -- the only step of a `reserve` with bytes to ask for is the call of the ledger
    have hcall : call = .tryReserve bytes := by
      unfold Holder.step at hstep
      split at hstep <;> simp_all
    rw [hcall] at hs
    exact fits_of_admits hbytes hadmits hs

/-- **Reservation conservation.** In every run, the reserved counter is the sum of what the
holders owe, which is their `outstanding` outside `Reservation::commit`; every byte taken is
owed, released or committed, in exactly one way; no saturating operation clamps, except for
the difference `available_locked` reports; and from an admitted reservation to the next
observation what is spoken for is there. -/
theorem reservations_conserved (ι : Type) [Fintype ι] [DecidableEq ι] (policy : SpacePolicy) :
    (∀ p : Reservations ι, (reservations ι policy).Reach (fun _ _ => True) p →
      p.shared.reserved.toNat = p.owed ∧
      ((∀ i, (p.task i).holder.isCommitting = false) → p.owed = p.outstanding) ∧
      (∀ i, (p.task i).taken =
        (p.task i).released + (p.task i).committed + (p.task i).holder.owed) ∧
      ∀ a, ∀ op ∈ p.performed policy a, op.Clamps → op.site = .available) ∧
    ∀ (p p' q : Reservations ι) (i : ι) (bytes : UInt64),
      (reservations ι policy).Reach (fun _ _ => True) p → bytes ≠ 0 →
      admits policy p.shared bytes = true →
      p.fire policy (.thread i (.reserve bytes)) = some p' →
      (reservations ι policy).Steps KeepsObservation p' q → Fits policy q := by
  constructor
  · intro p h
    have hinv := conserved_of_reach h
    refine ⟨hinv.reserved_eq, fun hidle => ?_, hinv.settled_once, fun a op hop => hinv.exact hop⟩
    exact Finset.sum_congr rfl fun i _ => Holder.owed_eq_outstanding (hidle i)
  · intro p p' q i bytes h hbytes hadmits hfire hq
    exact fits_until_refresh h hbytes hadmits hfire hq

/-- A ledger with a headroom of 10 bytes. -/
def headroomPolicy : SpacePolicy := ⟨0, 0, 10⟩

/-- A refresh that observes 100 free bytes, and a reservation of 50. -/
def reserved50 : List (Action (Fin 1)) :=
  [.refresh (some 100), .thread 0 .create, .thread 0 (.reserve 50)]

theorem reach_of_actions (actions : List (Action (Fin 1))) (check : Reservations (Fin 1) → Bool)
    (h : (System.exec (fire headroomPolicy) (fun _ _ => true) (new (Fin 1)) actions).any check =
      true) :
    ∃ p, (reservations (Fin 1) headroomPolicy).Reach (fun _ _ => True) p ∧ check p = true :=
  System.reach_of_exec (S := reservations (Fin 1) headroomPolicy) (fun _ _ _ hfire => hfire)
    (fun _ _ _ => trivial) rfl h

/-- Before the first observation `mode` subtracts the headroom from nothing, and inside
`commit(20)` of 50 bytes the counter is already down to the slack. -/
theorem difference_clamps :
    (∃ p, (reservations (Fin 1) headroomPolicy).Reach (fun _ _ => True) p ∧
      ∃ op ∈ p.performed headroomPolicy .mode, op.Clamps) ∧
    ∃ p, (reservations (Fin 1) headroomPolicy).Reach (fun _ _ => True) p ∧
      p.shared.reserved.toNat = 30 ∧ p.outstanding = 50 := by
  constructor
  · exact ⟨new (Fin 1), ⟨_, rfl, .refl⟩, .sub .available 0 10, by decide, by decide⟩
  · obtain ⟨p, hp, hcheck⟩ := reach_of_actions (reserved50 ++ [.thread 0 (.commit 20)])
      (fun p => decide (p.shared.reserved.toNat = 30 ∧ p.outstanding = 50)) (by decide)
    exact ⟨p, hp, of_decide_eq_true hcheck⟩

/-- Whether an action keeps the observation. -/
def keepsObservation : Action (Fin 1) → Bool
  | .refresh (some _) => false
  | _ => true

/-- A reservation of 50 bytes for a temporary file whose `discard` is cancelled while the file
is being removed: the settlement commits the bytes, once, and the headroom is kept. -/
theorem cancelled_discard_settled :
    ∃ q : Reservations (Fin 1), (reservations (Fin 1) headroomPolicy).Reach (fun _ _ => True) q ∧
      (q.task 0).holder = .settled ∧ (q.task 0).taken = 50 ∧
      (q.task 0).taken = (q.task 0).released + (q.task 0).committed ∧
      q.shared.reserved.toNat = q.owed ∧ Fits headroomPolicy q := by
  obtain ⟨p, hp, hcheck⟩ := reach_of_actions (reserved50.take 2)
    (fun p => admits headroomPolicy p.shared 50 &&
      (p.fire headroomPolicy (.thread 0 (.reserve 50))).any fun p' : Reservations (Fin 1) =>
        (System.exec (fire headroomPolicy) (fun _ => keepsObservation) p'
          [.thread 0 (.mark .temporary), .thread 0 .discard, .thread 0 .cancel]).any
            fun q : Reservations (Fin 1) => decide ((q.task 0).holder = .settled ∧ (q.task 0).taken = 50)) (by decide)
  obtain ⟨hadmits, hnext⟩ := Bool.and_eq_true_iff.mp hcheck
  obtain ⟨p', hp', hnext⟩ := (Option.any_eq_true _ _).mp hnext
  obtain ⟨q, hq, hend⟩ := (Option.any_eq_true _ _).mp hnext
  obtain ⟨hsettled, htaken⟩ := of_decide_eq_true hend
  have hsteps : (reservations (Fin 1) headroomPolicy).Steps KeepsObservation p' q := by
    refine System.steps_of_exec (fun _ _ _ hfire => hfire) (fun _ a ha free hfree => ?_) hq
    rw [hfree] at ha
    cases ha
  have hq : (reservations (Fin 1) headroomPolicy).Reach (fun _ _ => True) q :=
    (hp.tail trivial hp').steps (hsteps.mono fun _ _ _ => trivial)
  obtain ⟨hconserved, hfits⟩ := reservations_conserved (Fin 1) headroomPolicy
  obtain ⟨hreserved, -, honce, -⟩ := hconserved q hq
  refine ⟨q, hq, hsettled, htaken, ?_, hreserved, ?_⟩
  · have hzero : (q.task 0).holder.owed = 0 := by
      rw [hsettled]
      rfl
    rw [honce 0, hzero]
    rfl
  · exact hfits p p' q 0 50 hp (by decide) hadmits hp' hsteps

end Reservations

end Flywheel
