import Flywheel.Agent.Ring

/-!
# The routing state (`agent/discovery.rs`)

The agent keeps the discovered members with their consecutive failures and retry deadlines,
the continuum over those that are not ejected, and the soonest deadline. All of it is behind
one lock. `ring` and `record_success` look at the state under the read lock first and repeat
the look under the write lock, so a call that gets that far does to the state it finds there
what it would have done to it from the start: every call takes effect in its last critical
section, with a clock reading that may be older than those of calls before it.

- `RingInner.Ok`: what every call keeps (`perform_ok`).
- `recordFailure_cases`, `ring_cases`, `applySnapshot_find`: what the calls do, in terms of who
  is found under an id.
-/

set_option autoImplicit false

namespace Flywheel.Agent

open Lib

/-! ## Members with their health -/

structure MemberHealth where
  member : RingMember
  failures : UInt32
  /-- The deadline while the member is ejected. -/
  nextRetry : Option UInt64
  deriving DecidableEq

namespace MemberHealth

def id (health : MemberHealth) : String := health.member.id

/-- A member whose deadline has passed is eligible again, with a clean record. -/
def reinstate (now : UInt64) (health : MemberHealth) : MemberHealth :=
  match health.nextRetry with
  | some deadline =>
    if deadline ≤ now then { health with nextRetry := none, failures := 0 } else health
  | none => health

variable (now : UInt64) (health : MemberHealth)

@[simp] theorem reinstate_member : (health.reinstate now).member = health.member := by
  unfold reinstate
  split
  · split <;> rfl
  · rfl

@[simp] theorem reinstate_id : (health.reinstate now).id = health.id := by
  rw [id, reinstate_member]
  rfl

variable {now health}

theorem reinstate_of_none (h : health.nextRetry = none) : health.reinstate now = health := by
  rw [reinstate, h]

theorem reinstate_of_lt {deadline : UInt64} (h : health.nextRetry = some deadline)
    (hlt : now < deadline) : health.reinstate now = health := by
  rw [reinstate, h]
  exact if_neg (UInt64.not_le.mpr hlt)

theorem reinstate_of_le {deadline : UInt64} (h : health.nextRetry = some deadline)
    (hle : deadline ≤ now) :
    health.reinstate now = { health with nextRetry := none, failures := 0 } := by
  rw [reinstate, h]
  exact if_pos hle

/-- Who is not ejected after a look at the deadlines. -/
theorem reinstate_eq_none (h : (health.reinstate now).nextRetry = none) :
    (health.nextRetry = none ∧ health.reinstate now = health) ∨
      (health.nextRetry.isSome ∧ (health.reinstate now).failures = 0) := by
  cases hretry : health.nextRetry with
  | none => exact .inl ⟨rfl, reinstate_of_none hretry⟩
  | some deadline =>
    refine .inr ⟨rfl, ?_⟩
    by_cases hle : deadline ≤ now
    · rw [reinstate_of_le hretry hle]
    · rw [reinstate_of_lt hretry (UInt64.not_le.mp hle), hretry] at h
      cases h

/-- What becomes of the failures and of the deadline depends on nothing else. -/
theorem reinstate_congr (now : UInt64) {other : MemberHealth}
    (hfailures : other.failures = health.failures)
    (hretry : other.nextRetry = health.nextRetry) :
    (other.reinstate now).failures = (health.reinstate now).failures ∧
      (other.reinstate now).nextRetry = (health.reinstate now).nextRetry := by
  unfold reinstate
  rw [hretry]
  split
  · split
    · exact ⟨rfl, rfl⟩
    · exact ⟨hfailures, hretry⟩
  · exact ⟨hfailures, hretry⟩

end MemberHealth

/-! ## The state -/

structure RingInner where
  members : List MemberHealth
  ring : Ring
  earliestRetry : Option UInt64
  lastRefresh : Option UInt64
  lastError : Option String
  deriving DecidableEq

/-- What a `RingState` is made with. -/
structure RingState where
  sha256 : Bytes → Digest
  failureLimit : UInt32
  retryTimeoutSeconds : UInt64
  one_le_limit : 1 ≤ failureLimit.toNat

namespace RingState

/-- `RingState::new`; a failure limit of zero counts as one. -/
def new (sha256 : Bytes → Digest) (failureLimit : UInt32) (retryTimeoutSeconds : UInt64) :
    RingState where
  sha256 := sha256
  failureLimit := max failureLimit 1
  retryTimeoutSeconds := retryTimeoutSeconds
  one_le_limit := by
    show 1 ≤ (if failureLimit ≤ 1 then 1 else failureLimit : UInt32).toNat
    split
    · exact le_refl _
    · rename_i h
      exact Nat.le_of_lt (UInt32.lt_iff_toNat_lt.mp (UInt32.not_le.mp h))

variable (state : RingState)

def initial : RingInner where
  members := []
  ring := .new state.sha256 []
  earliestRetry := none
  lastRefresh := none
  lastError := none

/-- The loop of `rebuild`: the members, the soonest deadline and who is eligible. -/
def rebuildLoop (now : UInt64) :
    List MemberHealth → Option UInt64 → List RingMember →
      List MemberHealth × Option UInt64 × List RingMember
  | [], earliest, eligible => ([], earliest, eligible)
  | health :: rest, earliest, eligible =>
    match health.nextRetry with
    | some deadline =>
      if deadline ≤ now then
        let tail := rebuildLoop now rest earliest (eligible ++ [health.member])
        ({ health with nextRetry := none, failures := 0 } :: tail.1, tail.2)
      else
        let soonest := earliest.elim deadline fun soonest => min soonest deadline
        let tail := rebuildLoop now rest (some soonest) eligible
        (health :: tail.1, tail.2)
    | none =>
      let tail := rebuildLoop now rest earliest (eligible ++ [health.member])
      (health :: tail.1, tail.2)

def rebuild (inner : RingInner) (now : UInt64) : RingInner :=
  let (members, earliest, eligible) := rebuildLoop now inner.members none []
  { inner with members, ring := .new state.sha256 eligible, earliestRetry := earliest }

/-- `member` and `member_mut`: where the binary search ends. -/
def search (members : List MemberHealth) (id : String) : Option Nat :=
  binarySearchBy (fun health => compare health.id id) members

def member (members : List MemberHealth) (id : String) : Option MemberHealth :=
  (search members id).bind fun index => members[index]?

/-- `earliest_retry.is_none_or(|deadline| now < deadline)`. -/
def upToDate (inner : RingInner) (now : UInt64) : Bool :=
  inner.earliestRetry.all fun deadline => now < deadline

def ring (inner : RingInner) (now : UInt64) : Ring × RingInner :=
  if upToDate inner now then (inner.ring, inner)
  -- behind the write lock
  else if upToDate inner now then (inner.ring, inner)
  else
    let inner := state.rebuild inner now
    (inner.ring, inner)

def recordSuccess (inner : RingInner) (id : String) : RingInner :=
  if (member inner.members id).all fun found => found.failures == 0 then inner
  else
    match search inner.members id with
    | some index =>
      { inner with members := inner.members.modify index fun h => { h with failures := 0 } }
    | none => inner

/-- `saturating_add(1)`. -/
def countFailure (failures : UInt32) : UInt32 :=
  if failures.toNat + 1 < 2 ^ 32 then failures + 1 else failures

def recordFailure (inner : RingInner) (now : UInt64) (id : String) : Bool × RingInner :=
  match search inner.members id with
  | none => (false, inner)
  | some index =>
    let members := inner.members.modify index fun h =>
      { h with failures := countFailure h.failures }
    let spared := members[index]?.all fun found =>
      found.nextRetry.isSome || found.failures < state.failureLimit
    if spared then (false, { inner with members })
    else
      let deadline := now + state.retryTimeoutSeconds
      let members := members.modify index fun h => { h with nextRetry := some deadline }
      (true, state.rebuild { inner with members } now)

/-- What a snapshot keeps of the members there were. -/
def carryOver (members : List MemberHealth) (discovered : RingMember) : MemberHealth where
  member := discovered
  failures := (member members discovered.id).elim 0 MemberHealth.failures
  nextRetry := (member members discovered.id).bind MemberHealth.nextRetry

def applySnapshot (inner : RingInner) (now : UInt64) (discovered : List RingMember) : RingInner :=
  let members := indexByKey MemberHealth.id (discovered.map (carryOver inner.members))
  state.rebuild { inner with members, lastRefresh := some now, lastError := none } now

def recordRefreshError (inner : RingInner) (error : String) : RingInner :=
  { inner with lastError := some error }

/-- A call with what the clock said. -/
inductive Call where
  | ring (now : UInt64)
  | recordSuccess (id : String)
  | recordFailure (now : UInt64) (id : String)
  | applySnapshot (now : UInt64) (discovered : List RingMember)
  | recordRefreshError (error : String)
  deriving DecidableEq

def perform (inner : RingInner) : Call → RingInner
  | .ring now => (state.ring inner now).2
  | .recordSuccess id => recordSuccess inner id
  | .recordFailure now id => (state.recordFailure inner now id).2
  | .applySnapshot now discovered => state.applySnapshot inner now discovered
  | .recordRefreshError error => recordRefreshError inner error

end RingState

/-! ## The invariant -/

/-- The members that are not ejected. -/
def eligible (members : List MemberHealth) : List RingMember :=
  (members.filter fun health => health.nextRetry.isNone).map MemberHealth.member

theorem mem_eligible {members : List MemberHealth} {m : RingMember} :
    m ∈ eligible members ↔ ∃ health ∈ members, health.nextRetry = none ∧ health.member = m := by
  simp only [eligible, List.mem_map, List.mem_filter, Option.isNone_iff_eq_none]
  exact ⟨fun ⟨h, ⟨hm, hn⟩, he⟩ => ⟨h, hm, hn, he⟩, fun ⟨h, hm, hn, he⟩ => ⟨h, ⟨hm, hn⟩, he⟩⟩

namespace RingInner

def find (inner : RingInner) (id : String) : Option MemberHealth :=
  findKey MemberHealth.id id inner.members

def ejected (inner : RingInner) (id : String) : Bool :=
  (inner.find id).any fun health => health.nextRetry.isSome

/-- What every call keeps: the members are an index by id, the continuum is over those that
are not ejected, the earliest deadline is the least there is, and who is not ejected is
below the limit. -/
structure Ok (state : RingState) (inner : RingInner) : Prop where
  ordered : StrictlyOrdered MemberHealth.id inner.members
  ring_eq : inner.ring = .new state.sha256 (eligible inner.members)
  earliest_mem : ∀ deadline, inner.earliestRetry = some deadline →
    ∃ health ∈ inner.members, health.nextRetry = some deadline
  earliest_le : ∀ health ∈ inner.members, ∀ deadline, health.nextRetry = some deadline →
    ∃ earliest, inner.earliestRetry = some earliest ∧ earliest ≤ deadline
  below_limit : ∀ health ∈ inner.members, health.nextRetry = none →
    health.failures < state.failureLimit

end RingInner

namespace RingState

variable {state : RingState} {inner : RingInner}

/-! ### Rebuilding -/

theorem rebuildLoop_members (now : UInt64) (members : List MemberHealth)
    (earliest : Option UInt64) (found : List RingMember) :
    (rebuildLoop now members earliest found).1 = members.map (MemberHealth.reinstate now) := by
  induction members generalizing earliest found with
  | nil => rfl
  | cons health members ih =>
    rw [rebuildLoop, List.map_cons, MemberHealth.reinstate]
    split
    · split
      · exact congrArg _ (ih _ _)
      · exact congrArg _ (ih _ _)
    · exact congrArg _ (ih _ _)

theorem rebuildLoop_eligible (now : UInt64) (members : List MemberHealth)
    (earliest : Option UInt64) (found : List RingMember) :
    (rebuildLoop now members earliest found).2.2 =
      found ++ eligible (members.map (MemberHealth.reinstate now)) := by
  induction members generalizing earliest found with
  | nil => exact (List.append_nil found).symm
  | cons health members ih =>
    rw [rebuildLoop, List.map_cons, MemberHealth.reinstate]
    split
    · split
      · exact (ih _ _).trans (List.append_assoc ..)
      · rename_i hretry hle
        refine (ih _ _).trans ?_
        simp [eligible, hretry]
    · rename_i hretry
      refine (ih _ _).trans ?_
      simp [eligible, hretry]

/-- The lesser of two deadlines is one of them, and not past the other. -/
theorem min_deadline (a b : UInt64) : min a b = a ∧ a ≤ b ∨ min a b = b ∧ b ≤ a := by
  by_cases h : a ≤ b
  · exact .inl ⟨if_pos h, h⟩
  · exact .inr ⟨if_neg h, UInt64.le_of_lt (UInt64.not_le.mp h)⟩

theorem min_deadline_le (a b : UInt64) : min a b ≤ a ∧ min a b ≤ b := by
  rcases min_deadline a b with ⟨hmin, hle⟩ | ⟨hmin, hle⟩
  · rw [hmin]
    exact ⟨UInt64.le_refl a, hle⟩
  · rw [hmin]
    exact ⟨hle, UInt64.le_refl b⟩

theorem rebuildLoop_earliest_mem {now deadline : UInt64} {members : List MemberHealth}
    {earliest : Option UInt64} {found : List RingMember}
    (h : (rebuildLoop now members earliest found).2.1 = some deadline) :
    earliest = some deadline ∨
      ∃ health ∈ members.map (MemberHealth.reinstate now), health.nextRetry = some deadline := by
  induction members generalizing earliest found with
  | nil => exact .inl h
  | cons health members ih =>
    rw [rebuildLoop] at h
    rw [List.map_cons]
    split at h
    · rename_i due hretry
      split at h
      · exact (ih h).imp_right fun ⟨x, hx, hd⟩ => ⟨x, List.mem_cons_of_mem _ hx, hd⟩
      · rename_i hle
        have hout := MemberHealth.reinstate_of_lt hretry (UInt64.not_le.mp hle)
        rcases ih h with hacc | ⟨x, hx, hd⟩
        · -- the accumulator is the old one or this deadline
          cases earliest with
          | none =>
            refine .inr ⟨_, List.mem_cons_self, ?_⟩
            rw [hout, hretry]
            exact hacc
          | some soonest =>
            rw [Option.elim_some, Option.some.injEq] at hacc
            rcases min_deadline soonest due with ⟨hmin, -⟩ | ⟨hmin, -⟩
            · exact .inl (by rw [← hacc, hmin])
            · refine .inr ⟨_, List.mem_cons_self, ?_⟩
              rw [hout, hretry, ← hacc, hmin]
        · exact .inr ⟨x, List.mem_cons_of_mem _ hx, hd⟩
    · exact (ih h).imp_right fun ⟨x, hx, hd⟩ => ⟨x, List.mem_cons_of_mem _ hx, hd⟩

theorem rebuildLoop_earliest_le {now deadline : UInt64} {members : List MemberHealth}
    {earliest : Option UInt64} {found : List RingMember}
    (h : earliest = some deadline ∨
      ∃ health ∈ members.map (MemberHealth.reinstate now), health.nextRetry = some deadline) :
    ∃ soonest, (rebuildLoop now members earliest found).2.1 = some soonest ∧
      soonest ≤ deadline := by
  induction members generalizing earliest found deadline with
  | nil =>
    rcases h with hacc | ⟨health, hmem, -⟩
    · exact ⟨deadline, hacc, UInt64.le_refl _⟩
    · cases hmem
  | cons health members ih =>
    rw [rebuildLoop]
    split
    · rename_i due hretry
      split
      · -- reinstateted: not among the deadlines any more
        rename_i hle
        rw [List.map_cons, MemberHealth.reinstate_of_le hretry hle] at h
        refine ih (h.imp_right ?_)
        rintro ⟨x, hx, hd⟩
        rcases List.mem_cons.mp hx with rfl | hx
        · cases hd
        · exact ⟨x, hx, hd⟩
      · rename_i hle
        rw [List.map_cons, MemberHealth.reinstate_of_lt hretry (UInt64.not_le.mp hle)] at h
        -- the accumulator is at or before the old one and this deadline
        have hacc : ∀ d, earliest = some d ∨ due = d →
            (earliest.elim due fun soonest => min soonest due) ≤ d := by
          intro d hd
          cases earliest with
          | none =>
            rcases hd with hd | rfl
            · cases hd
            · exact UInt64.le_refl _
          | some soonest =>
            rw [Option.elim_some]
            rcases hd with hd | rfl
            · cases hd
              exact (min_deadline_le _ _).1
            · exact (min_deadline_le _ _).2
        have hcase : (earliest = some deadline ∨ due = deadline) ∨
            ∃ x ∈ members.map (MemberHealth.reinstate now), x.nextRetry = some deadline := by
          rcases h with h | ⟨x, hx, hd⟩
          · exact .inl (.inl h)
          · rcases List.mem_cons.mp hx with rfl | hx
            · exact .inl (.inr (Option.some.inj (hretry.symm.trans hd)))
            · exact .inr ⟨x, hx, hd⟩
        rcases hcase with hcase | hcase
        · obtain ⟨soonest, hs, hsle⟩ := ih (.inl rfl)
          exact ⟨soonest, hs, UInt64.le_trans hsle (hacc deadline hcase)⟩
        · exact ih (.inr hcase)
    · rename_i hretry
      rw [List.map_cons, MemberHealth.reinstate_of_none hretry] at h
      refine ih (h.imp_right ?_)
      rintro ⟨x, hx, hd⟩
      rcases List.mem_cons.mp hx with rfl | hx
      · rw [hretry] at hd
        cases hd
      · exact ⟨x, hx, hd⟩

@[simp] theorem rebuild_members (now : UInt64) :
    (state.rebuild inner now).members = inner.members.map (MemberHealth.reinstate now) :=
  rebuildLoop_members now inner.members none []

theorem rebuild_find (now : UInt64) (id : String) :
    (state.rebuild inner now).find id = (inner.find id).map (MemberHealth.reinstate now) := by
  rw [RingInner.find, rebuild_members]
  exact findKey_map (MemberHealth.reinstate_id now) inner.members id

/-- Rebuilding restores everything but the order of the members and the limit. -/
theorem rebuild_ok {now : UInt64} (hordered : StrictlyOrdered MemberHealth.id inner.members)
    (hlimit : ∀ health ∈ inner.members, health.nextRetry = none →
      health.failures < state.failureLimit) : (state.rebuild inner now).Ok state where
  ordered := by
    rw [rebuild_members]
    refine List.pairwise_map.mpr (hordered.imp ?_)
    intro a b hlt
    rw [MemberHealth.reinstate_id, MemberHealth.reinstate_id]
    exact hlt
  ring_eq := by
    rw [rebuild_members]
    exact congrArg (Ring.new state.sha256) (rebuildLoop_eligible now inner.members none [])
  earliest_mem := by
    intro deadline h
    rw [rebuild_members]
    rcases rebuildLoop_earliest_mem h with hnone | hmem
    · cases hnone
    · exact hmem
  earliest_le := by
    intro health hmem deadline hd
    rw [rebuild_members] at hmem
    exact rebuildLoop_earliest_le (.inr ⟨health, hmem, hd⟩)
  below_limit := by
    intro health hmem hnone
    rw [rebuild_members, List.mem_map] at hmem
    obtain ⟨before, hbefore, rfl⟩ := hmem
    rcases MemberHealth.reinstate_eq_none hnone with ⟨hno, heq⟩ | ⟨-, hzero⟩
    · rw [heq]
      exact hlimit before hbefore hno
    · rw [hzero]
      exact UInt32.lt_iff_toNat_lt.mpr state.one_le_limit

end RingState

/-! ### Changing one member -/

namespace RingInner

variable {state : RingState} {inner : RingInner}

/-- What `member_mut` is used for. -/
def update (inner : RingInner) (id : String) (f : MemberHealth → MemberHealth) : RingInner :=
  { inner with members := inner.members.map fun h => if h.id = id then f h else h }

/-- The earliest deadline is the least of those there are. -/
theorem Ok.earliestRetry_eq_some (hok : inner.Ok state) (deadline : UInt64) :
    inner.earliestRetry = some deadline ↔
      (∃ health ∈ inner.members, health.nextRetry = some deadline) ∧
        ∀ health ∈ inner.members, ∀ other, health.nextRetry = some other → deadline ≤ other := by
  constructor
  · intro h
    refine ⟨hok.earliest_mem deadline h, ?_⟩
    intro health hmem other hother
    obtain ⟨earliest, hearliest, hle⟩ := hok.earliest_le health hmem other hother
    cases h.symm.trans hearliest
    exact hle
  · rintro ⟨⟨health, hmem, hretry⟩, hleast⟩
    obtain ⟨earliest, hearliest, hle⟩ := hok.earliest_le health hmem deadline hretry
    obtain ⟨least, hmem', hretry'⟩ := hok.earliest_mem earliest hearliest
    rw [hearliest, UInt64.le_antisymm hle (hleast least hmem' earliest hretry')]

theorem Ok.earliestRetry_eq_none (hok : inner.Ok state) :
    inner.earliestRetry = none ↔ ∀ health ∈ inner.members, health.nextRetry = none := by
  constructor
  · intro h health hmem
    cases hretry : health.nextRetry with
    | none => rfl
    | some deadline =>
      obtain ⟨earliest, hearliest, -⟩ := hok.earliest_le health hmem deadline hretry
      cases h.symm.trans hearliest
  · intro hall
    cases h : inner.earliestRetry with
    | none => rfl
    | some deadline =>
      obtain ⟨health, hmem, hretry⟩ := hok.earliest_mem deadline h
      cases (hall health hmem).symm.trans hretry

theorem Ok.find_iff (hok : inner.Ok state) {id : String} {health : MemberHealth} :
    inner.find id = some health ↔ health ∈ inner.members ∧ health.id = id :=
  hok.ordered.findKey_eq_some

section

variable {f : MemberHealth → MemberHealth} (hid : ∀ h, (f h).id = h.id)

include hid

theorem update_find (x id : String) :
    (inner.update x f).find id = if id = x then (inner.find id).map f else inner.find id := by
  have hkey : ∀ h : MemberHealth, (if h.id = x then f h else h).id = h.id := by
    intro h
    split
    · exact hid h
    · rfl
  refine (findKey_map hkey inner.members id).trans ?_
  cases hfind : findKey MemberHealth.id id inner.members with
  | none => simp [find, hfind]
  | some health =>
    have hh : health.id = id := key_of_findKey hfind
    simp only [find, hfind, Option.map_some, hh]
    split <;> rfl

theorem update_ordered (hordered : StrictlyOrdered MemberHealth.id inner.members) (x : String) :
    StrictlyOrdered MemberHealth.id (inner.update x f).members := by
  refine List.pairwise_map.mpr (hordered.imp ?_)
  intro a b hlt
  have hkey : ∀ h : MemberHealth, (if h.id = x then f h else h).id = h.id := by
    intro h
    split
    · exact hid h
    · rfl
  rw [hkey, hkey]
  exact hlt

end

/-- A change that leaves the deadlines alone leaves the continuum alone. -/
theorem Ok.update (hok : inner.Ok state) {x : String} {f : MemberHealth → MemberHealth}
    (hmember : ∀ h, (f h).member = h.member) (hretry : ∀ h, (f h).nextRetry = h.nextRetry)
    (hlimit : ∀ h ∈ inner.members, h.id = x → h.nextRetry = none →
      (f h).failures < state.failureLimit) : (inner.update x f).Ok state := by
  have hmember' : ∀ h : MemberHealth, (if h.id = x then f h else h).member = h.member := by
    intro h
    split
    · exact hmember h
    · rfl
  have hretry' : ∀ h : MemberHealth, (if h.id = x then f h else h).nextRetry = h.nextRetry := by
    intro h
    split
    · exact hretry h
    · rfl
  have hid : ∀ h, (f h).id = h.id := fun h => congrArg RingMember.id (hmember h)
  refine ⟨update_ordered hid hok.ordered x, ?_, ?_, ?_, ?_⟩
  · refine hok.ring_eq.trans (congrArg _ ?_)
    show eligible inner.members = eligible (inner.members.map _)
    simp only [eligible, List.filter_map, List.map_map, Function.comp_def, hmember', hretry']
  · intro deadline h
    obtain ⟨health, hmem, hd⟩ := hok.earliest_mem deadline h
    exact ⟨_, List.mem_map_of_mem hmem, (hretry' health).trans hd⟩
  · intro health hmem deadline hd
    obtain ⟨before, hbefore, rfl⟩ := List.mem_map.mp hmem
    exact hok.earliest_le before hbefore deadline ((hretry' before).symm.trans hd)
  · intro health hmem hnone
    obtain ⟨before, hbefore, rfl⟩ := List.mem_map.mp hmem
    have hnone : before.nextRetry = none := (hretry' before).symm.trans hnone
    split
    · rename_i hx
      exact hlimit before hbefore hx hnone
    · exact hok.below_limit before hbefore hnone

end RingInner

namespace RingState

variable {state : RingState} {inner : RingInner}

/-! ### The calls -/

theorem member_eq_find (hordered : StrictlyOrdered MemberHealth.id inner.members) (id : String) :
    member inner.members id = inner.find id :=
  binarySearchBy_bind hordered id

/-- Where the search ends there is the member, and changing it there is an update. -/
theorem search_cases (hordered : StrictlyOrdered MemberHealth.id inner.members) (id : String) :
    (search inner.members id = none ∧ inner.find id = none) ∨
      ∃ index health, search inner.members id = some index ∧
        inner.members[index]? = some health ∧ inner.find id = some health ∧
        ∀ f, { inner with members := inner.members.modify index f } = inner.update id f := by
  have hfind := member_eq_find hordered id
  cases hsearch : search inner.members id with
  | none =>
    rw [member, hsearch] at hfind
    exact .inl ⟨rfl, hfind.symm⟩
  | some index =>
    obtain ⟨health, hget, hid⟩ := getElem?_of_binarySearchBy hsearch
    rw [member, hsearch, Option.bind_some, hget] at hfind
    refine .inr ⟨index, health, rfl, hget, hfind.symm, fun f => ?_⟩
    rw [RingInner.update, modify_of_binarySearchBy hordered hsearch]

def reset (health : MemberHealth) : MemberHealth := { health with failures := 0 }

def count (health : MemberHealth) : MemberHealth :=
  { health with failures := countFailure health.failures }

def eject (deadline : UInt64) (health : MemberHealth) : MemberHealth :=
  { health with failures := countFailure health.failures, nextRetry := some deadline }

theorem recordSuccess_eq (hordered : StrictlyOrdered MemberHealth.id inner.members)
    (id : String) : recordSuccess inner id = inner.update id reset := by
  unfold recordSuccess
  rw [member_eq_find hordered]
  split
  · -- nothing to reset: the update changes nothing either
    rename_i hall
    have hsame : ∀ h ∈ inner.members, (if h.id = id then reset h else h) = h := by
      intro h hmem
      split
      · rename_i hid
        have hfind : inner.find id = some h := hordered.findKey_eq_some.mpr ⟨hmem, hid⟩
        rw [hfind, Option.all_some, beq_iff_eq] at hall
        rw [reset, ← hall]
      · rfl
    rw [RingInner.update, List.map_congr_left hsame, List.map_id']
  · rename_i hall
    rcases search_cases hordered id with ⟨-, hnone⟩ | ⟨index, health, hsearch, -, -, hmodify⟩
    · rw [hnone] at hall
      exact absurd rfl hall
    · rw [hsearch]
      exact hmodify reset

/-- What `record_failure` does: nothing to a member that is not there; one that is ejected
already or still below the limit is counted; else it is ejected. -/
theorem recordFailure_cases (hordered : StrictlyOrdered MemberHealth.id inner.members)
    (now : UInt64) (id : String) :
    (inner.find id = none ∧ state.recordFailure inner now id = (false, inner)) ∨
    ∃ health, inner.find id = some health ∧
      (((health.nextRetry.isSome ∨ countFailure health.failures < state.failureLimit) ∧
        state.recordFailure inner now id = (false, inner.update id count)) ∨
      (health.nextRetry = none ∧ ¬ countFailure health.failures < state.failureLimit ∧
        state.recordFailure inner now id =
          (true,
            state.rebuild (inner.update id (eject (now + state.retryTimeoutSeconds))) now))) := by
  unfold recordFailure
  rcases search_cases hordered id with
    ⟨hsearch, hnone⟩ | ⟨index, health, hsearch, hget, hfind, hmodify⟩
  · rw [hsearch]
    exact .inl ⟨hnone, rfl⟩
  · refine .inr ⟨health, hfind, ?_⟩
    rw [hsearch]
    dsimp only
    rw [List.getElem?_modify_eq, hget, Option.map_eq_map, Option.map_some, Option.all_some]
    split
    · rename_i hspared
      refine .inl ⟨?_, ?_⟩
      · simpa using hspared
      · rw [hmodify]
        rfl
    · rename_i hspared
      have hboth : health.nextRetry = none ∧
          ¬ countFailure health.failures < state.failureLimit := by
        simpa using hspared
      refine .inr ⟨hboth.1, hboth.2, ?_⟩
      rw [List.modify_modify_eq, hmodify]
      rfl

theorem ring_cases (state : RingState) (inner : RingInner) (now : UInt64) :
    (upToDate inner now = true ∧ state.ring inner now = (inner.ring, inner)) ∨
      (upToDate inner now = false ∧
        state.ring inner now = ((state.rebuild inner now).ring, state.rebuild inner now)) := by
  unfold ring
  cases upToDate inner now with
  | true => exact .inl ⟨rfl, rfl⟩
  | false => exact .inr ⟨rfl, rfl⟩

/-- After a snapshot there are the members it lists, with what is carried over. -/
theorem applySnapshot_find (now : UInt64) (discovered : List RingMember) (id : String) :
    (state.applySnapshot inner now discovered).find id =
      (findKey RingMember.id id discovered).map fun m =>
        (carryOver inner.members m).reinstate now := by
  have hkey : ∀ m, (carryOver inner.members m).id = m.id := fun _ => rfl
  rw [applySnapshot, rebuild_find, RingInner.find, findKey_indexByKey,
    findKey_map hkey, Option.map_map]
  rfl

theorem carryOver_eq (hordered : StrictlyOrdered MemberHealth.id inner.members) (m : RingMember) :
    carryOver inner.members m =
      ⟨m, (inner.find m.id).elim 0 MemberHealth.failures,
        (inner.find m.id).bind MemberHealth.nextRetry⟩ := by
  rw [carryOver, member_eq_find hordered]

/-! ### Every call keeps the invariant -/

theorem initial_ok : state.initial.Ok state where
  ordered := List.Pairwise.nil
  ring_eq := rfl
  earliest_mem := fun _ h => by cases h
  earliest_le := fun _ h => by cases h
  below_limit := fun _ h => by cases h

theorem recordFailure_ok (hok : inner.Ok state) (now : UInt64) (id : String) :
    (state.recordFailure inner now id).2.Ok state := by
  rcases recordFailure_cases hok.ordered now id with
    ⟨-, heq⟩ | ⟨health, hfind, ⟨hspared, heq⟩ | ⟨-, -, heq⟩⟩
  · rw [heq]
    exact hok
  · rw [heq]
    refine hok.update (fun _ => rfl) (fun _ => rfl) ?_
    intro h hmem hid hnone
    have hsame : some h = some health := (hok.find_iff.mpr ⟨hmem, hid⟩).symm.trans hfind
    cases hsame
    rcases hspared with hsome | hlt
    · rw [hnone] at hsome
      cases hsome
    · exact hlt
  · rw [heq]
    refine rebuild_ok (RingInner.update_ordered (f := eject _) (fun _ => rfl) hok.ordered id) ?_
    intro h hmem hnone
    obtain ⟨before, hbefore, rfl⟩ := List.mem_map.mp hmem
    split at hnone
    · cases hnone
    · rename_i hid
      rw [if_neg hid]
      exact hok.below_limit before hbefore hnone

theorem applySnapshot_ok (hok : inner.Ok state) (now : UInt64) (discovered : List RingMember) :
    (state.applySnapshot inner now discovered).Ok state := by
  refine rebuild_ok (strictlyOrdered_indexByKey _ _) ?_
  intro health hmem hnone
  have hindex := (strictlyOrdered_indexByKey _ _).findKey_eq_some.mpr ⟨hmem, rfl⟩
  rw [findKey_indexByKey] at hindex
  obtain ⟨m, -, rfl⟩ := List.mem_map.mp (mem_of_findKey hindex)
  rw [carryOver_eq hok.ordered] at hnone ⊢
  cases hfind : inner.find m.id with
  | none => exact UInt32.lt_iff_toNat_lt.mpr state.one_le_limit
  | some previous =>
    rw [hfind] at hnone
    exact hok.below_limit previous (hok.find_iff.mp hfind).1 hnone

theorem perform_ok (hok : inner.Ok state) (call : Call) : (state.perform inner call).Ok state := by
  cases call with
  | ring now =>
    rcases ring_cases state inner now with ⟨-, heq⟩ | ⟨-, heq⟩
    · rw [perform, heq]
      exact hok
    · rw [perform, heq]
      exact rebuild_ok hok.ordered hok.below_limit
  | recordSuccess id =>
    rw [perform, recordSuccess_eq hok.ordered]
    refine hok.update (fun _ => rfl) (fun _ => rfl) ?_
    intro h _ _ _
    exact UInt32.lt_iff_toNat_lt.mpr state.one_le_limit
  | recordFailure now id => exact recordFailure_ok hok now id
  | applySnapshot now discovered => exact applySnapshot_ok hok now discovered
  | recordRefreshError error => exact ⟨hok.1, hok.2, hok.3, hok.4, hok.5⟩

/-! ### Histories -/

/-- The state after a history, the latest call first. -/
def after (state : RingState) : List Call → RingInner
  | [] => state.initial
  | call :: earlier => state.perform (state.after earlier) call

theorem after_ok (state : RingState) (history : List Call) :
    (state.after history).Ok state := by
  induction history with
  | nil => exact initial_ok
  | cons call earlier ih => exact perform_ok ih call

end RingState

end Flywheel.Agent
