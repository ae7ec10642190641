import Flywheel.Cache.Space
import Flywheel.Lib.Totals

/-!
# Writers, refreshes and the disk

Any number of writers share the ledger. Each holds a reservation, fills a file under it and
settles it (`Reservation` in `src/storage/local/artifact_files.rs`); evictions free space;
refreshes sample the free space and later, under the lock, replace the observation. Every
method of the ledger is one action of `capacity`, a refresh is two.

A refresh resets `committed_since`. That is right for commits whose bytes the sample has
already seen, and wrong for a writer that writes *and* commits between the sample and the
update: its bytes are then in neither number. The comment on `refresh` says that sample and
reset happen under the lock; the code samples first.

- `Capacity.Accounts`: what every run keeps. The reserved counter is the sum of the
  outstanding reservations, and each pending sample can account for every byte that moved
  since it was taken.
- `Sample.Covered`: the commits since the sample moved no more bytes than outstanding writers
  had already put on disk when it was taken, or evictions have freed since.
- `observed_of_covered`: along runs whose updates are covered the ledger never promises more
  than the disk has.
-/

set_option autoImplicit false

namespace Flywheel

open Lib SpaceLedger

/-! ## The system -/

/-- A reservation and the bytes of its file that are on disk; a writer never writes more
than it has reserved. -/
structure Writer where
  outstanding : UInt64
  written : Nat
  written_le : written ≤ outstanding.toNat

namespace Writer

/-- `Reservation::new`. -/
def new : Writer := ⟨0, 0, Nat.zero_le _⟩

/-- `bytes` more are reserved. -/
def reserve (w : Writer) (bytes : UInt64) : Writer where
  outstanding := saturatingAdd w.outstanding bytes
  written := w.written
  written_le := by
    have hle := w.written_le
    have hlt := w.outstanding.toNat_lt
    rw [toNat_saturatingAdd]
    omega

/-- `n` more bytes reach the disk. -/
def write (w : Writer) (n : Nat) (h : w.written + n ≤ w.outstanding.toNat) : Writer :=
  ⟨w.outstanding, w.written + n, h⟩

/-- The file is removed. -/
def unlink (w : Writer) : Writer := ⟨w.outstanding, 0, Nat.zero_le _⟩

/-- `bytes` of the reservation that are not on disk are given back. -/
def release (w : Writer) (bytes : UInt64) (h : w.written + bytes.toNat ≤ w.outstanding.toNat) :
    Writer where
  outstanding := saturatingSub w.outstanding bytes
  written := w.written
  written_le := by
    rw [toNat_saturatingSub]
    omega

/-- `bytes` of the reservation become usage; the file's bytes go with them. -/
def commit (w : Writer) (bytes : UInt64) : Writer where
  outstanding := saturatingSub w.outstanding bytes
  written := w.written - bytes.toNat
  written_le := by
    have hle := w.written_le
    rw [toNat_saturatingSub]
    omega

/-- Reserved bytes that are still to be written. -/
def unwritten (w : Writer) : Nat := w.outstanding.toNat - w.written

end Writer

/-- A refresh between its two actions: what it saw and, since then, what the other actions
did to the disk. -/
structure Sample where
  /-- `free_bytes()`; `none` when the observation failed. -/
  observation : Option UInt64
  /-- What outstanding reservations had on disk when the sample was taken. -/
  written : Nat
  /-- Bytes on disk that commits moved out of the outstanding reservations since. -/
  committed : Nat
  /-- Bytes that evictions freed since. -/
  freed : Nat

/-- The commits since the sample are covered by bytes the sample saw on disk and by space
freed since. -/
def Sample.Covered (p : Sample) : Prop := p.committed ≤ p.written + p.freed

instance (p : Sample) : Decidable p.Covered := inferInstanceAs (Decidable (_ ≤ _))

variable {ι : Type}

/-- The ledger, the disk's real free space, the writers and the refreshes under way. -/
structure Capacity (ι : Type) where
  ledger : SpaceLedger.State
  free : Nat
  writer : ι → Writer
  pending : List Sample

namespace Capacity

inductive Action (ι : Type) where
  /-- A refresh calls `free_bytes()`, which may fail. -/
  | sample (ok : Bool)
  /-- The `k`-th refresh under way takes the lock and updates the ledger. -/
  | update (k : Nat)
  | mode
  /-- `Reservation::reserve`. -/
  | reserve (i : ι) (bytes : UInt64)
  | write (i : ι) (n : Nat)
  | unlink (i : ι)
  | release (i : ι) (bytes : UInt64)
  | commit (i : ι) (bytes : UInt64)
  /-- Maintenance removes a stored body of `n` bytes. -/
  | evict (n : Nat)

variable [Fintype ι] [DecidableEq ι]

/-- All bytes reserved. -/
def outstanding (s : Capacity ι) : Nat := ∑ i, (s.writer i).outstanding.toNat

/-- All bytes of outstanding reservations on disk. -/
def written (s : Capacity ι) : Nat := ∑ i, (s.writer i).written

/-- All bytes of outstanding reservations still to be written. -/
def unwritten (s : Capacity ι) : Nat := ∑ i, (s.writer i).unwritten

/-- Replace the writer `i`. -/
def setWriter (s : Capacity ι) (i : ι) (w : Writer) : Capacity ι :=
  { s with writer := Function.update s.writer i w }

/-- `Reservation::reserve`: a request for no bytes does not reach the ledger. -/
def reserve (policy : SpacePolicy) (s : Capacity ι) (i : ι) (bytes : UInt64) :
    Bool × Capacity ι :=
  if bytes = 0 then (true, s.setWriter i ((s.writer i).reserve bytes))
  else
    match tryReserve policy s.ledger bytes with
    | (true, ledger) => (true, { s.setWriter i ((s.writer i).reserve bytes) with ledger })
    | (false, ledger) => (false, { s with ledger })

/-- One action; `none` when a writer may not take it or the disk has no room for it. -/
def fire (policy : SpacePolicy) (s : Capacity ι) : Action ι → Option (Capacity ι)
  | .sample ok =>
    let observation := if ok then some (UInt64.ofNat s.free) else none
    some { s with pending := s.pending ++ [⟨observation, s.written, 0, 0⟩] }
  | .update k =>
    s.pending[k]?.map fun p =>
      { s with ledger := refreshLocked p.observation s.ledger, pending := s.pending.eraseIdx k }
  | .mode => some { s with ledger := (SpaceLedger.mode policy s.ledger).2 }
  | .reserve i bytes => some (s.reserve policy i bytes).2
  | .write i n =>
    if h : (s.writer i).written + n ≤ (s.writer i).outstanding.toNat ∧ n ≤ s.free then
      some { s.setWriter i ((s.writer i).write n h.1) with free := s.free - n }
    else none
  | .unlink i =>
    some { s.setWriter i (s.writer i).unlink with free := s.free + (s.writer i).written }
  | .release i bytes =>
    if h : (s.writer i).written + bytes.toNat ≤ (s.writer i).outstanding.toNat then
      some { s.setWriter i ((s.writer i).release bytes h) with
        ledger := SpaceLedger.release s.ledger bytes }
    else none
  | .commit i bytes =>
    if bytes ≤ (s.writer i).outstanding then
      some { s.setWriter i ((s.writer i).commit bytes) with
        ledger := SpaceLedger.commit s.ledger bytes
        pending := s.pending.map fun p =>
          { p with committed := p.committed + min bytes.toNat (s.writer i).written } }
    else none
  | .evict n =>
    -- free space, files under way and the evicted body are all on one disk of a `u64` size
    if s.free + s.written + n < 2 ^ 64 then
      some { s with
        free := s.free + n
        pending := s.pending.map fun p => { p with freed := p.freed + n } }
    else none

/-- `SpaceLedger::new` over any disk, before its first refresh. -/
def start (free : Nat) : Capacity ι := ⟨SpaceLedger.new, free, fun _ => Writer.new, []⟩

end Capacity

variable [Fintype ι] [DecidableEq ι]

/-- The interleavings of writers, refreshes and evictions. -/
def capacity (ι : Type) [Fintype ι] [DecidableEq ι] (policy : SpacePolicy) :
    System (Capacity ι) (Capacity.Action ι) where
  init := fun s => ∃ free < 2 ^ 64, s = Capacity.start free
  step := fun s a t => s.fire policy a = some t

namespace Capacity

variable {policy : SpacePolicy} {s t : Capacity ι}

/-! ## Totals -/

/-- A total over the writers changes by what the replaced writer changes. -/
theorem sum_setWriter (f : Writer → Nat) (s : Capacity ι) (i : ι) (w : Writer) :
    ∑ j, f ((s.setWriter i w).writer j) + f (s.writer i) = ∑ j, f (s.writer j) + f w :=
  sum_update f s.writer i w

theorem outstanding_setWriter (s : Capacity ι) (i : ι) (w : Writer) :
    (s.setWriter i w).outstanding + (s.writer i).outstanding.toNat =
      s.outstanding + w.outstanding.toNat :=
  sum_setWriter (fun w => w.outstanding.toNat) s i w

theorem written_setWriter (s : Capacity ι) (i : ι) (w : Writer) :
    (s.setWriter i w).written + (s.writer i).written = s.written + w.written :=
  sum_setWriter (fun w => w.written) s i w

omit [DecidableEq ι] in
theorem outstanding_le (s : Capacity ι) (i : ι) :
    (s.writer i).outstanding.toNat ≤ s.outstanding :=
  le_sum (fun w => w.outstanding.toNat) s.writer i

omit [DecidableEq ι] in
/-- Every reserved byte is on disk or still to be written. -/
theorem written_add_unwritten (s : Capacity ι) : s.written + s.unwritten = s.outstanding := by
  unfold written unwritten outstanding
  rw [← Finset.sum_add_distrib]
  refine Finset.sum_congr rfl fun i _ => ?_
  have hle := (s.writer i).written_le
  show _ + (_ - _) = _
  omega

/-! ## What every run keeps -/

/-- The reserved counter is the sum of the outstanding reservations, and every sample under
way accounts for the bytes that moved since it was taken. -/
structure Accounts (s : Capacity ι) : Prop where
  reserved_eq : s.ledger.reserved.toNat = s.outstanding
  disk_lt : s.free + s.written < 2 ^ 64
  sampled : ∀ p ∈ s.pending, ∀ v, p.observation = some v →
    v.toNat + p.written + p.freed = s.free + s.written + p.committed

/-- The ledger promises no more than the disk has, counting what outstanding reservations
have already taken of it. -/
def Observed (s : Capacity ι) : Prop :=
  s.ledger.freeObserved.toNat ≤ s.ledger.committedSince.toNat + s.free + s.written

omit [DecidableEq ι] in
theorem Accounts.start {free : Nat} (hfree : free < 2 ^ 64) :
    (start free : Capacity ι).Accounts where
  reserved_eq := by
    show 0 = ∑ _ : ι, 0
    simp
  disk_lt := by
    show free + ∑ _ : ι, 0 < 2 ^ 64
    simpa using hfree
  sampled := by
    intro p hp
    cases hp

/-- A reservation moves the reserved counter and the writer by the same amount. -/
theorem reserve_spec (policy : SpacePolicy) (h : s.Accounts) (i : ι) (bytes : UInt64) :
    ((s.reserve policy i bytes).2.ledger.reserved.toNat =
        (s.reserve policy i bytes).2.outstanding) ∧
      (s.reserve policy i bytes).2.written = s.written ∧
      (s.reserve policy i bytes).2.free = s.free ∧
      (s.reserve policy i bytes).2.pending = s.pending ∧
      (s.reserve policy i bytes).2.ledger.freeObserved = s.ledger.freeObserved ∧
      (s.reserve policy i bytes).2.ledger.committedSince = s.ledger.committedSince := by
  have hreserved := h.reserved_eq
  have houtstanding := outstanding_setWriter s i ((s.writer i).reserve bytes)
  have hwritten := written_setWriter s i ((s.writer i).reserve bytes)
  have hle := outstanding_le s i
  have hlt := s.ledger.reserved.toNat_lt
  have hreserve : ((s.writer i).reserve bytes).outstanding.toNat =
      min ((s.writer i).outstanding.toNat + bytes.toNat) (2 ^ 64 - 1) :=
    toNat_saturatingAdd ..
  have hsame : ((s.writer i).reserve bytes).written = (s.writer i).written := rfl
  unfold reserve
  split
  · -- no bytes: the ledger is not asked
    rename_i hzero
    subst hzero
    have hzero : (0 : UInt64).toNat = 0 := rfl
    refine ⟨?_, ?_, rfl, rfl, rfl, rfl⟩
    · show s.ledger.reserved.toNat = (s.setWriter i _).outstanding
      omega
    · show (s.setWriter i _).written = s.written
      omega
  · rename_i hbytes
    rcases tryReserve_cases policy s.ledger bytes with
      hrefused | ⟨-, hroom, hadmitted⟩
    · rw [hrefused]
      exact ⟨hreserved, rfl, rfl, rfl, rfl, rfl⟩
    · rw [hadmitted]
      have hexact := toNat_reserve hroom
      have hfits := (saturatingAdd s.ledger.reserved bytes).toNat_lt
      refine ⟨?_, ?_, rfl, rfl, rfl, rfl⟩
      · show (saturatingAdd s.ledger.reserved bytes).toNat = (s.setWriter i _).outstanding
        omega
      · show (s.setWriter i _).written = s.written
        omega

/-! ## What a guarded action does -/

theorem fire_write {i : ι} {n : Nat} (h : s.fire policy (.write i n) = some t) :
    n ≤ s.free ∧ t.free = s.free - n ∧ t.ledger = s.ledger ∧ t.pending = s.pending ∧
      t.outstanding = s.outstanding ∧ t.written = s.written + n := by
  simp only [fire] at h
  split at h
  · rename_i hroom
    cases h
    have hout := outstanding_setWriter s i ((s.writer i).write n hroom.1)
    have hwritten := written_setWriter s i ((s.writer i).write n hroom.1)
    have hsame : ((s.writer i).write n hroom.1).outstanding = (s.writer i).outstanding := rfl
    have hmore : ((s.writer i).write n hroom.1).written = (s.writer i).written + n := rfl
    rw [hsame] at hout
    refine ⟨hroom.2, rfl, rfl, rfl, ?_, ?_⟩
    · show (s.setWriter i _).outstanding = _
      omega
    · show (s.setWriter i _).written = _
      omega
  · cases h

theorem fire_unlink {i : ι} (h : s.fire policy (.unlink i) = some t) :
    t.free + t.written = s.free + s.written ∧ t.ledger = s.ledger ∧ t.pending = s.pending ∧
      t.outstanding = s.outstanding := by
  cases h
  have hout := outstanding_setWriter s i (s.writer i).unlink
  have hwritten := written_setWriter s i (s.writer i).unlink
  have hsame : (s.writer i).unlink.outstanding = (s.writer i).outstanding := rfl
  have hnone : (s.writer i).unlink.written = 0 := rfl
  rw [hsame] at hout
  refine ⟨?_, rfl, rfl, ?_⟩
  · show s.free + (s.writer i).written + (s.setWriter i _).written = _
    omega
  · show (s.setWriter i _).outstanding = _
    omega

theorem fire_release {i : ι} {bytes : UInt64}
    (h : s.fire policy (.release i bytes) = some t) :
    bytes.toNat ≤ s.outstanding ∧ t.ledger = SpaceLedger.release s.ledger bytes ∧
      t.free = s.free ∧ t.pending = s.pending ∧ t.outstanding = s.outstanding - bytes.toNat ∧
      t.written = s.written := by
  simp only [fire] at h
  split at h
  · rename_i hroom
    cases h
    have hout := outstanding_setWriter s i ((s.writer i).release bytes hroom)
    have hwritten := written_setWriter s i ((s.writer i).release bytes hroom)
    have hle := outstanding_le s i
    have hless : ((s.writer i).release bytes hroom).outstanding.toNat =
        (s.writer i).outstanding.toNat - bytes.toNat := toNat_saturatingSub ..
    have hsame : ((s.writer i).release bytes hroom).written = (s.writer i).written := rfl
    refine ⟨by omega, rfl, rfl, rfl, ?_, ?_⟩
    · show (s.setWriter i _).outstanding = _
      omega
    · show (s.setWriter i _).written = _
      omega
  · cases h

theorem fire_commit {i : ι} {bytes : UInt64} (h : s.fire policy (.commit i bytes) = some t) :
    ∃ moved, moved ≤ bytes.toNat ∧ bytes.toNat ≤ s.outstanding ∧
      t.ledger = SpaceLedger.commit s.ledger bytes ∧ t.free = s.free ∧
      t.pending = s.pending.map (fun p => { p with committed := p.committed + moved }) ∧
      t.outstanding = s.outstanding - bytes.toNat ∧ t.written + moved = s.written := by
  simp only [fire] at h
  split at h
  · rename_i hroom
    cases h
    have hout := outstanding_setWriter s i ((s.writer i).commit bytes)
    have hwritten := written_setWriter s i ((s.writer i).commit bytes)
    have hle := outstanding_le s i
    have hbytes := UInt64.le_iff_toNat_le.mp hroom
    have hless : ((s.writer i).commit bytes).outstanding.toNat =
        (s.writer i).outstanding.toNat - bytes.toNat := toNat_saturatingSub ..
    have hrest : ((s.writer i).commit bytes).written = (s.writer i).written - bytes.toNat := rfl
    refine ⟨min bytes.toNat (s.writer i).written, by omega, by omega, rfl, rfl, rfl, ?_, ?_⟩
    · show (s.setWriter i _).outstanding = _
      omega
    · show (s.setWriter i _).written + _ = _
      omega
  · cases h

theorem fire_evict {n : Nat} (h : s.fire policy (.evict n) = some t) :
    s.free + s.written + n < 2 ^ 64 ∧ t.free = s.free + n ∧ t.ledger = s.ledger ∧
      t.pending = s.pending.map (fun p => { p with freed := p.freed + n }) ∧
      t.outstanding = s.outstanding ∧ t.written = s.written := by
  simp only [fire] at h
  split at h
  · rename_i hroom
    cases h
    exact ⟨hroom, rfl, rfl, rfl, rfl, rfl⟩
  · cases h

/-! ## Steps -/

omit [DecidableEq ι] in
/-- No sample is taken or dropped and the disk is accounted for as before. -/
theorem Accounts.of_same (h : s.Accounts) (hreserved : t.ledger.reserved.toNat = t.outstanding)
    (hfree : t.free + t.written = s.free + s.written) (hpending : t.pending = s.pending) :
    t.Accounts where
  reserved_eq := hreserved
  disk_lt := by
    rw [hfree]
    exact h.disk_lt
  sampled := by
    intro p hp v hv
    rw [hpending] at hp
    have hsampled := h.sampled p hp v hv
    omega

/-- Every action keeps the accounts, whether or not its refresh is covered. -/
theorem fire_accounts {a : Action ι} (h : s.Accounts) (hfire : s.fire policy a = some t) :
    t.Accounts := by
  have hreserved := h.reserved_eq
  have hlt := h.disk_lt
  cases a with
  | sample ok =>
    cases hfire
    refine ⟨hreserved, hlt, ?_⟩
    intro p hp v hv
    rcases List.mem_append.mp hp with hold | hnew
    · exact h.sampled p hold v hv
    · rw [List.mem_singleton] at hnew
      subst hnew
      -- the fresh sample has seen the disk as it is
      cases ok with
      | false => cases hv
      | true =>
        cases hv
        show (UInt64.ofNat s.free).toNat + s.written + 0 = s.free + s.written + 0
        rw [UInt64.toNat_ofNat_of_lt' (by show s.free < 2 ^ 64; omega)]
  | update k =>
    obtain ⟨p, hp, rfl⟩ := Option.map_eq_some_iff.mp hfire
    refine ⟨?_, hlt, fun q hq => h.sampled q (List.mem_of_mem_eraseIdx hq)⟩
    show (refreshLocked p.observation s.ledger).reserved.toNat = s.outstanding
    cases p.observation <;> exact hreserved
  | mode =>
    cases hfire
    refine h.of_same ?_ rfl rfl
    show (SpaceLedger.mode policy s.ledger).2.reserved.toNat = s.outstanding
    rw [(mode_counters policy s.ledger).2.1]
    exact hreserved
  | reserve i bytes =>
    cases hfire
    obtain ⟨hres, hwritten, hfree, hpending, -, -⟩ := reserve_spec policy h i bytes
    exact h.of_same hres (by rw [hwritten, hfree]) hpending
  | write i n =>
    obtain ⟨hroom, hfree, hledger, hpending, hout, hwritten⟩ := fire_write hfire
    exact h.of_same (by rw [hledger, hout, hreserved]) (by omega) hpending
  | unlink i =>
    obtain ⟨hfree, hledger, hpending, hout⟩ := fire_unlink hfire
    exact h.of_same (by rw [hledger, hout, hreserved]) hfree hpending
  | release i bytes =>
    obtain ⟨-, hledger, hfree, hpending, hout, hwritten⟩ := fire_release hfire
    refine h.of_same ?_ (by omega) hpending
    rw [hledger, hout, ← hreserved]
    exact toNat_saturatingSub ..
  | commit i bytes =>
    obtain ⟨moved, -, -, hledger, hfree, hpending, hout, hwritten⟩ := fire_commit hfire
    refine ⟨?_, by omega, ?_⟩
    · rw [hledger, hout, ← hreserved]
      exact toNat_saturatingSub ..
    · intro p hp v hv
      rw [hpending] at hp
      obtain ⟨q, hq, rfl⟩ := List.mem_map.mp hp
      have hsampled := h.sampled q hq v hv
      show v.toNat + q.written + q.freed = t.free + t.written + (q.committed + moved)
      omega
  | evict n =>
    obtain ⟨hroom, hfree, hledger, hpending, hout, hwritten⟩ := fire_evict hfire
    refine ⟨by rw [hledger, hout, hreserved], by omega, ?_⟩
    intro p hp v hv
    rw [hpending] at hp
    obtain ⟨q, hq, rfl⟩ := List.mem_map.mp hp
    have hsampled := h.sampled q hq v hv
    show v.toNat + q.written + (q.freed + n) = t.free + t.written + q.committed
    omega

/-- An update with a successful sample leaves the ledger right exactly when the sample's
commits are covered. -/
theorem observed_update_iff (h : s.Accounts) {k : Nat} {p : Sample} {v : UInt64}
    (hp : s.pending[k]? = some p) (hv : p.observation = some v)
    (hfire : s.fire policy (.update k) = some t) : t.Observed ↔ p.Covered := by
  obtain ⟨q, hq, rfl⟩ := Option.map_eq_some_iff.mp hfire
  rw [hp] at hq
  cases hq
  have hsampled := h.sampled p (List.mem_of_getElem? hp) v hv
  have hzero : (0 : UInt64).toNat = 0 := rfl
  rw [Observed, Sample.Covered, hv]
  show v.toNat ≤ (0 : UInt64).toNat + s.free + s.written ↔ _
  omega

/-- The actions the ledger's promise survives: an update with a successful sample must find
the commits since that sample covered. -/
def Covers (s : Capacity ι) : Action ι → Prop
  | .update k => ∀ p, s.pending[k]? = some p → p.observation.isSome → p.Covered
  | _ => True

instance (s : Capacity ι) (a : Action ι) : Decidable (s.Covers a) :=
  match a with
  | .update k =>
    inferInstanceAs (Decidable (∀ p ∈ s.pending[k]?, p.observation.isSome → p.Covered))
  | .sample _ | .mode | .reserve _ _ | .write _ _ | .unlink _ | .release _ _ | .commit _ _
  | .evict _ => .isTrue trivial

theorem fire_observed {a : Action ι} (h : s.Accounts) (hobs : s.Observed) (hcov : s.Covers a)
    (hfire : s.fire policy a = some t) : t.Observed := by
  have hobserved : s.ledger.freeObserved.toNat ≤
      s.ledger.committedSince.toNat + s.free + s.written := hobs
  cases a with
  | sample ok =>
    cases hfire
    exact hobs
  | update k =>
    obtain ⟨p, hp, ht⟩ := Option.map_eq_some_iff.mp hfire
    cases hv : p.observation with
    | some v => exact (observed_update_iff h hp hv hfire).mpr (hcov p hp (by rw [hv]; rfl))
    | none =>
      -- a failed observation keeps the counters
      subst ht
      rw [hv]
      exact hobs
  | mode =>
    cases hfire
    obtain ⟨hfree, -, hcommitted, -⟩ := mode_counters policy s.ledger
    show (SpaceLedger.mode policy s.ledger).2.freeObserved.toNat ≤
      (SpaceLedger.mode policy s.ledger).2.committedSince.toNat + s.free + s.written
    rw [hfree, hcommitted]
    exact hobs
  | reserve i bytes =>
    cases hfire
    obtain ⟨-, hwritten, hfree, -, hobserved', hcommitted⟩ := reserve_spec policy h i bytes
    rw [Observed, hwritten, hfree, hobserved', hcommitted]
    exact hobs
  | write i n =>
    obtain ⟨hroom, hfree, hledger, -, -, hwritten⟩ := fire_write hfire
    rw [Observed, hledger]
    omega
  | unlink i =>
    obtain ⟨hfree, hledger, -, -⟩ := fire_unlink hfire
    rw [Observed, hledger]
    omega
  | release i bytes =>
    obtain ⟨-, hledger, hfree, -, -, hwritten⟩ := fire_release hfire
    rw [Observed, hledger, hfree, hwritten]
    exact hobs
  | commit i bytes =>
    obtain ⟨moved, hmoved, -, hledger, hfree, -, -, hwritten⟩ := fire_commit hfire
    have hlt := s.ledger.freeObserved.toNat_lt
    rw [Observed, hledger]
    show s.ledger.freeObserved.toNat ≤
      (saturatingAdd s.ledger.committedSince bytes).toNat + t.free + t.written
    -- should the counter saturate, it is past every observation
    rw [toNat_saturatingAdd]
    omega
  | evict n =>
    obtain ⟨-, hfree, hledger, -, -, hwritten⟩ := fire_evict hfire
    rw [Observed, hledger]
    omega

/-! ## Runs -/

theorem accounts_of_reach {G : Capacity ι → Action ι → Prop}
    (h : (capacity ι policy).Reach G s) : s.Accounts := by
  refine h.invariant ?_ ?_
  · rintro _ ⟨free, hfree, rfl⟩
    exact Accounts.start hfree
  · intro x a y hx _ hstep
    exact fire_accounts hx hstep

/-- Along runs whose updates are covered the ledger promises no more than the disk has. -/
theorem observed_of_covered (h : (capacity ι policy).Reach Covers s) : s.Observed := by
  refine h.invariant_of_reach ?_ ?_
  · rintro _ ⟨free, -, rfl⟩
    exact Nat.zero_le _
  · intro x a y hx hobs hcov hstep
    exact fire_observed (accounts_of_reach hx) hobs hcov hstep

/-- An admitted reservation of at least one byte leaves the headroom, and room for every
reserved byte that is still to be written. -/
theorem reserve_headroom (h : s.Accounts) (hobs : s.Observed) {i : ι} {bytes : UInt64}
    (hbytes : bytes ≠ 0) (hadmitted : (s.reserve policy i bytes).1 = true) :
    policy.emergencyHeadroom.toNat + (s.reserve policy i bytes).2.unwritten ≤
      (s.reserve policy i bytes).2.free := by
  obtain ⟨hreserved, hwritten, hfree, -, -, -⟩ := reserve_spec policy h i bytes
  have htotal := written_add_unwritten (s.reserve policy i bytes).2
  have hobserved : s.ledger.freeObserved.toNat ≤
      s.ledger.committedSince.toNat + s.free + s.written := hobs
  rcases tryReserve_cases policy s.ledger bytes with hrefused | ⟨-, hroom, hadmit⟩
  · rw [reserve, if_neg hbytes, hrefused] at hadmitted
    cases hadmitted
  · have hfits := reserve_room hbytes hroom
    have hexact := toNat_reserve hroom
    have hledger : (s.reserve policy i bytes).2.ledger.reserved =
        saturatingAdd s.ledger.reserved bytes := by
      rw [reserve, if_neg hbytes, hadmit]
    rw [hledger] at hreserved
    omega

/-! ## The writers of the code -/

/-- `Reservation::commit`: the file's bytes become usage, then the slack is released. -/
def commitActions (i : ι) (w : Writer) (bytes : UInt64) : List (Action ι) :=
  let committed := min bytes w.outstanding
  let slack := w.outstanding - committed
  .commit i committed :: if slack > 0 then [.release i slack] else []

/-- How a failed operation leaves its file: none was created or it is gone, it could be
removed, or it stays (a removal that fails, or a body already published). -/
inductive Leftover where
  | absent
  | removed
  | kept

/-- `Reservation::discard` and the settlement of a cancelled operation: capacity is released
only once the file is known to be absent. -/
def discardActions (i : ι) (w : Writer) : Leftover → List (Action ι)
  | .absent => [.release i w.outstanding]
  | .removed => [.unlink i, .release i w.outstanding]
  | .kept => [.commit i w.outstanding]

omit [Fintype ι] in
@[simp] theorem setWriter_self (s : Capacity ι) (i : ι) (w : Writer) :
    (s.setWriter i w).writer i = w :=
  Function.update_self ..

theorem fire_commit_self (policy : SpacePolicy) (s : Capacity ι) {i : ι} {bytes : UInt64}
    (h : bytes ≤ (s.writer i).outstanding) :
    ∃ t, s.fire policy (.commit i bytes) = some t ∧ t.writer i = (s.writer i).commit bytes := by
  simp only [fire, if_pos h]
  exact ⟨_, rfl, setWriter_self ..⟩

theorem fire_release_self (policy : SpacePolicy) (s : Capacity ι) {i : ι} {bytes : UInt64}
    (h : (s.writer i).written + bytes.toNat ≤ (s.writer i).outstanding.toNat) :
    ∃ t, s.fire policy (.release i bytes) = some t ∧
      t.writer i = (s.writer i).release bytes h := by
  simp only [fire, dif_pos h]
  exact ⟨_, rfl, setWriter_self ..⟩

theorem toNat_min (a b : UInt64) : (min a b).toNat = min a.toNat b.toNat := by
  show (if a ≤ b then a else b).toNat = _
  split <;> rename_i h <;> rw [UInt64.le_iff_toNat_le] at h <;> omega

/-- The actions of `Reservation::commit`, given at least the bytes written, are never
blocked, and end the reservation. -/
theorem exec_commitActions (s : Capacity ι) (i : ι) (bytes : UInt64)
    (hbytes : (s.writer i).written ≤ bytes.toNat) :
    ∃ t, System.exec (fire policy) (fun _ _ => true) s (commitActions i (s.writer i) bytes) =
      some t ∧ (t.writer i).outstanding = 0 := by
  have hle := (s.writer i).written_le
  have hmin := toNat_min bytes (s.writer i).outstanding
  have hcommit : min bytes (s.writer i).outstanding ≤ (s.writer i).outstanding := by
    rw [UInt64.le_iff_toNat_le]
    omega
  obtain ⟨t, hfire, hwriter⟩ := fire_commit_self policy s hcommit
  have hout : (t.writer i).outstanding =
      (s.writer i).outstanding - min bytes (s.writer i).outstanding := by
    rw [hwriter]
    exact if_pos hcommit
  -- the commit took every byte on disk along, so the slack is free to go
  have hwritten : (t.writer i).written = 0 := by
    rw [hwriter]
    show (s.writer i).written - _ = 0
    omega
  dsimp only [commitActions]
  split
  · have hrelease : (t.writer i).written + (t.writer i).outstanding.toNat ≤
        (t.writer i).outstanding.toNat := by omega
    obtain ⟨t', hfire', hwriter'⟩ := fire_release_self policy t hrelease
    refine ⟨t', ?_, ?_⟩
    · rw [hout] at hfire'
      simp [System.exec, hfire, hfire']
    · rw [hwriter']
      exact saturatingSub_self _
  · rename_i hslack
    refine ⟨t, by simp [System.exec, hfire], ?_⟩
    rw [hout]
    exact UInt64.le_zero_iff.mp (UInt64.not_lt.mp hslack)

/-- So are those of `discard`, when what it says about the file is so. -/
theorem exec_discardActions (s : Capacity ι) (i : ι) (leftover : Leftover)
    (habsent : leftover = .absent → (s.writer i).written = 0) :
    ∃ t, System.exec (fire policy) (fun _ _ => true) s
      (discardActions i (s.writer i) leftover) = some t ∧ (t.writer i).outstanding = 0 := by
  cases leftover with
  | absent =>
    have hrelease : (s.writer i).written + (s.writer i).outstanding.toNat ≤
        (s.writer i).outstanding.toNat := by
      rw [habsent rfl]
      omega
    obtain ⟨t, hfire, hwriter⟩ := fire_release_self policy s hrelease
    refine ⟨t, by simp [discardActions, System.exec, hfire], ?_⟩
    rw [hwriter]
    exact saturatingSub_self _
  | removed =>
    have hunlink : s.fire policy (.unlink i) = some { s.setWriter i (s.writer i).unlink with
        free := s.free + (s.writer i).written } := rfl
    have hrelease : ((s.setWriter i (s.writer i).unlink).writer i).written +
        (s.writer i).outstanding.toNat ≤
          ((s.setWriter i (s.writer i).unlink).writer i).outstanding.toNat := by
      rw [setWriter_self]
      show 0 + (s.writer i).outstanding.toNat ≤ (s.writer i).outstanding.toNat
      omega
    obtain ⟨t, hfire, hwriter⟩ := fire_release_self policy
      { s.setWriter i (s.writer i).unlink with free := s.free + (s.writer i).written } hrelease
    refine ⟨t, by simp [discardActions, System.exec, hunlink, hfire], ?_⟩
    rw [hwriter]
    show saturatingSub ((s.setWriter i _).writer i).outstanding _ = 0
    rw [setWriter_self]
    exact saturatingSub_self _
  | kept =>
    obtain ⟨t, hfire, hwriter⟩ :=
      fire_commit_self policy s (UInt64.le_refl (s.writer i).outstanding)
    refine ⟨t, by simp [discardActions, System.exec, hfire], ?_⟩
    rw [hwriter]
    exact saturatingSub_self _

/-! ## The ledger's promise -/

/-- After a successful last observation, the observed free space less the bytes committed
since is at most the real free space and what outstanding reservations have written. -/
def Sound (s : Capacity ι) : Prop :=
  s.ledger.degraded = false →
    s.ledger.freeObserved.toNat ≤ s.ledger.committedSince.toNat + s.free + s.written

/-- **A refresh keeps concurrent commits exactly when they are covered.** In every run whose
updates find the commits since their sample covered, the ledger is sound in every state, and
each admitted reservation leaves the emergency headroom and room for all reserved bytes that
are still to be written. In any run, an update that is not covered makes it unsound. -/
theorem refresh_keeps_commits (policy : SpacePolicy) :
    (∀ s : Capacity ι, (capacity ι policy).Reach Covers s →
      s.Sound ∧ ∀ i bytes, bytes ≠ 0 → (s.reserve policy i bytes).1 = true →
        policy.emergencyHeadroom.toNat + (s.reserve policy i bytes).2.unwritten ≤
          (s.reserve policy i bytes).2.free) ∧
    (∀ s t : Capacity ι, (capacity ι policy).Reach (fun _ _ => True) s → ∀ k p,
      s.pending[k]? = some p → p.observation.isSome → ¬ p.Covered →
        s.fire policy (.update k) = some t → ¬ t.Sound) := by
  constructor
  · intro s hreach
    have hobs := observed_of_covered hreach
    refine ⟨fun _ => hobs, fun i bytes hbytes hadmitted => ?_⟩
    exact reserve_headroom (accounts_of_reach hreach) hobs hbytes hadmitted
  · intro s t hreach k p hp hsome hcov hfire hsound
    obtain ⟨v, hv⟩ := Option.isSome_iff_exists.mp hsome
    refine hcov ((observed_update_iff (accounts_of_reach hreach) hp hv hfire).mp (hsound ?_))
    obtain ⟨q, hq, rfl⟩ := Option.map_eq_some_iff.mp hfire
    rw [hp] at hq
    cases hq
    show (refreshLocked p.observation s.ledger).degraded = false
    rw [hv]
    rfl

/-- A ledger with a headroom of 10 bytes. -/
def samplePolicy : SpacePolicy := ⟨0, 0, 10⟩

/-- A first refresh; a writer reserves 50 bytes; the second refresh takes its sample, and
other actions happen before it updates the ledger. -/
def interrupted {ι : Type} (writer : ι) (before between : List (Action ι)) : List (Action ι) :=
  [.sample true, .update 0, .reserve writer 50] ++ before ++ [.sample true] ++ between

/-- Run a schedule on a disk of 100 free bytes and check the state it leads to. -/
theorem reach_of_interrupted {G : Capacity (Fin 2) → Action (Fin 2) → Prop}
    (ok : Capacity (Fin 2) → Action (Fin 2) → Bool) (hok : ∀ x a, ok x a = true → G x a)
    (as : List (Action (Fin 2))) (check : Capacity (Fin 2) → Bool)
    (h : (System.exec (fire samplePolicy) ok (start 100) as).map check = some true) :
    ∃ s, (capacity (Fin 2) samplePolicy).Reach G s ∧ check s = true := by
  obtain ⟨s, hs, hcheck⟩ := Option.map_eq_some_iff.mp h
  refine ⟨s, ⟨_, ⟨100, by decide, rfl⟩, ?_⟩, hcheck⟩
  exact System.steps_of_exec (fun _ _ _ hfire => hfire) hok hs

/-- A writer writes and commits its 50 bytes between the sample and the update: the ledger
forgets the commit and admits a reservation of 80 bytes while 50 are free. -/
theorem refresh_loses_commit : ∃ s : Capacity (Fin 2),
    (capacity (Fin 2) samplePolicy).Reach (fun _ _ => True) s ∧ ¬ s.Sound ∧
      (s.reserve samplePolicy 1 80).1 = true ∧
      (s.reserve samplePolicy 1 80).2.free <
        samplePolicy.emergencyHeadroom.toNat + (s.reserve samplePolicy 1 80).2.unwritten := by
  obtain ⟨s, hs, hcheck⟩ := reach_of_interrupted (G := fun _ _ => True) (fun _ _ => true)
    (fun _ _ _ => trivial) (interrupted 0 [] [.write 0 50, .commit 0 50, .update 0])
    (fun s => decide (s.ledger.degraded = false ∧
      s.ledger.committedSince.toNat + s.free + s.written < s.ledger.freeObserved.toNat ∧
      (s.reserve samplePolicy 1 80).1 = true ∧
      (s.reserve samplePolicy 1 80).2.free <
        samplePolicy.emergencyHeadroom.toNat + (s.reserve samplePolicy 1 80).2.unwritten))
    (by decide)
  obtain ⟨hdegraded, hlost, hadmitted, hroom⟩ := of_decide_eq_true hcheck
  refine ⟨s, hs, fun hsound => ?_, hadmitted, hroom⟩
  have hle := hsound hdegraded
  omega

/-- The same writer, but its bytes reach the disk before the sample: the ledger forgets
nothing and admits 40 bytes of the 50 that are left. Were they written after it, the update
would make the ledger unsound. -/
theorem refresh_keeps_written_commit :
    (∃ s : Capacity (Fin 2), (capacity (Fin 2) samplePolicy).Reach Covers s ∧ s.Sound ∧
      s.ledger.freeObserved = 50 ∧ (s.reserve samplePolicy 1 40).1 = true ∧
      samplePolicy.emergencyHeadroom.toNat + (s.reserve samplePolicy 1 40).2.unwritten ≤
        (s.reserve samplePolicy 1 40).2.free) ∧
    (∃ s t : Capacity (Fin 2), (capacity (Fin 2) samplePolicy).Reach (fun _ _ => True) s ∧
      s.fire samplePolicy (.update 0) = some t ∧ ¬ t.Sound) := by
  constructor
  · obtain ⟨s, hs, hcheck⟩ := reach_of_interrupted (G := Covers)
      (fun s a => decide (s.Covers a)) (fun _ _ => of_decide_eq_true)
      (interrupted 0 [.write 0 50] [.commit 0 50, .update 0])
      (fun s => decide (s.ledger.freeObserved = 50 ∧ (s.reserve samplePolicy 1 40).1 = true))
      (by decide)
    obtain ⟨hobserved, hadmitted⟩ := of_decide_eq_true hcheck
    have hpromise := (refresh_keeps_commits samplePolicy).1 s hs
    exact ⟨s, hs, hpromise.1, hobserved, hadmitted, hpromise.2 1 40 (by decide) hadmitted⟩
  · obtain ⟨s, hs, hcheck⟩ := reach_of_interrupted (G := fun _ _ => True) (fun _ _ => true)
      (fun _ _ _ => trivial) (interrupted 0 [] [.write 0 50, .commit 0 50])
      (fun s => s.pending[0]?.any fun p : Sample => p.observation.isSome && !decide p.Covered)
      (by decide)
    cases hp : s.pending[0]? with
    | none =>
      rw [hp] at hcheck
      cases hcheck
    | some p =>
      rw [hp] at hcheck
      obtain ⟨hsome, hcov⟩ := Bool.and_eq_true_iff.mp hcheck
      have hfire : ∃ t, s.fire samplePolicy (.update 0) = some t := by
        simp only [fire, hp]
        exact ⟨_, rfl⟩
      obtain ⟨t, hfire⟩ := hfire
      refine ⟨s, t, hs, hfire, ?_⟩
      exact (refresh_keeps_commits samplePolicy).2 s t hs 0 p hp hsome (by simpa using hcov) hfire

end Capacity

end Flywheel
