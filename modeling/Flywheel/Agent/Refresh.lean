import Flywheel.Agent.Discovery
import Mathlib.Data.List.DropRight

/-!
# Discovery passes (`agent/discovery.rs`, `refresh_once`)

A pass asks for the SRV records of the shard service, then for the addresses of each target,
and replaces the membership. The answers come in any order. The least address of a target is
taken whatever the order, but of two records with one canonical id the earlier one is kept:
the stable sort leaves them in the order of the answer and `dedup_by` drops the later.

- `discovered`: what a pass hands to `apply_snapshot`.
- `refresh_ring_find`: who is in the continuum after a pass.
- `refresh_converges_iff`: two agents that see one answer in different orders end with one
  continuum exactly if records that share an id ask for one address.
-/

set_option autoImplicit false

namespace Flywheel.Agent

open Lib

/-! ## Answers -/

/-- `Ord` of `IpAddr`: IPv4 before IPv6, each by its octets. -/
def IpAddr.key : IpAddr → ℕ ×ₗ ℕ
  | .v4 bits => toLex (0, bits.toNat)
  | .v6 bits => toLex (1, bits.toNat)

theorem IpAddr.key_injective : Function.Injective IpAddr.key := by
  intro a b h
  have hfst : (ofLex a.key).1 = (ofLex b.key).1 := by rw [h]
  have hsnd : (ofLex a.key).2 = (ofLex b.key).2 := by rw [h]
  cases a with
  | v4 bits =>
    cases b with
    | v4 other => exact congrArg IpAddr.v4 (BitVec.eq_of_toNat_eq hsnd)
    | v6 other => cases hfst
  | v6 bits =>
    cases b with
    | v4 other => cases hfst
    | v6 other => exact congrArg IpAddr.v6 (BitVec.eq_of_toNat_eq hsnd)

instance : LinearOrder IpAddr := LinearOrder.lift' IpAddr.key IpAddr.key_injective

structure SrvRecord where
  target : String
  port : UInt16
  deriving DecidableEq

structure SrvSnapshot where
  records : List SrvRecord
  ttl : Nat

structure Resolver where
  srv : String → Except String SrvSnapshot
  ips : String → Except String (List IpAddr)

/-- Lowercase, without the trailing dots. -/
def canonicalMemberId (target : String) : String :=
  String.ofList ((target.toList.rdropWhile (· = '.')).map Char.toLower)

/-! ## The pass -/

namespace RingState

/-- The last address of every member. -/
def knownAddresses (inner : RingInner) : List (String × SocketAddr) :=
  inner.members.map fun health => (health.id, health.member.address)

/-- The map collected from them; a later entry replaces an earlier one. -/
def knownAddress (inner : RingInner) (id : String) : Option SocketAddr :=
  ((knownAddresses inner).reverse.find? fun entry => entry.1 = id).map Prod.snd

/-- Where a record's target is reached: the least of its addresses, or the last one known. -/
def targetIp (resolver : Resolver) (inner : RingInner) (target : String) : Option IpAddr :=
  match resolver.ips target with
  | .ok ips =>
    match ips.min? with
    | some ip => some ip
    | none => (knownAddress inner (canonicalMemberId target)).map SocketAddr.ip
  | .error _ => (knownAddress inner (canonicalMemberId target)).map SocketAddr.ip

def memberOf (resolver : Resolver) (inner : RingInner) (record : SrvRecord) : Option RingMember :=
  (targetIp resolver inner record.target).map fun ip =>
    ⟨canonicalMemberId record.target, ⟨ip, record.port⟩⟩

def discovered (resolver : Resolver) (inner : RingInner) (records : List SrvRecord) :
    List RingMember :=
  records.filterMap (memberOf resolver inner)

/-- `refresh_once`; a failed SRV lookup leaves the state alone. -/
def refreshOnce (state : RingState) (resolver : Resolver) (srvName : String) (inner : RingInner)
    (now : UInt64) : Except String Nat × RingInner :=
  match resolver.srv srvName with
  | .error error => (.error error, inner)
  | .ok snapshot =>
    (.ok snapshot.ttl,
      state.applySnapshot inner now (discovered resolver inner snapshot.records))

/-! ## Who is in the continuum -/

variable {state : RingState} {inner : RingInner} {now : UInt64}

/-- The member is ejected and its deadline is still ahead. -/
def StaysOut (inner : RingInner) (now : UInt64) (id : String) : Prop :=
  ∃ deadline, (inner.find id).bind MemberHealth.nextRetry = some deadline ∧ now < deadline

theorem eligible_ordered {members : List MemberHealth}
    (h : StrictlyOrdered MemberHealth.id members) :
    StrictlyOrdered RingMember.id (eligible members) :=
  List.pairwise_map.mpr (h.filter _)

/-- The continuum has its members in the order of the list. -/
theorem ring_members (hok : inner.Ok state) : inner.ring.members = eligible inner.members := by
  rw [hok.ring_eq, Ring.new_members]
  exact (eligible_ordered hok.ordered).indexByKey_eq

theorem mem_ring_members (hok : inner.Ok state) {m : RingMember} :
    m ∈ inner.ring.members ↔
      ∃ health, inner.find m.id = some health ∧ health.nextRetry = none ∧ health.member = m := by
  rw [ring_members hok, mem_eligible]
  constructor
  · rintro ⟨health, hmem, hno, rfl⟩
    exact ⟨health, hok.find_iff.mpr ⟨hmem, rfl⟩, hno, rfl⟩
  · rintro ⟨health, hfind, hno, hm⟩
    exact ⟨health, (hok.find_iff.mp hfind).1, hno, hm⟩

/-- After a snapshot, the continuum has the first listed member of every id that is not kept
out. -/
theorem applySnapshot_mem_ring (hok : inner.Ok state) {listed : List RingMember} {m : RingMember} :
    m ∈ (state.applySnapshot inner now listed).ring.members ↔
      findKey RingMember.id m.id listed = some m ∧ ¬ StaysOut inner now m.id := by
  rw [mem_ring_members (applySnapshot_ok hok now listed), applySnapshot_find]
  have hretry : ∀ first, findKey RingMember.id m.id listed = some first →
      (((carryOver inner.members first).reinstate now).nextRetry = none ↔
        ¬ StaysOut inner now m.id) := by
    intro first hfirst
    have hcarried : (carryOver inner.members first).nextRetry =
        (inner.find m.id).bind MemberHealth.nextRetry := by
      rw [carryOver_eq hok.ordered, key_of_findKey hfirst]
    cases hdeadline : (carryOver inner.members first).nextRetry with
    | none =>
      rw [MemberHealth.reinstate_of_none hdeadline, hdeadline]
      refine ⟨fun _ => ?_, fun _ => rfl⟩
      rintro ⟨deadline, hd, -⟩
      cases (hdeadline.symm.trans hcarried).trans hd
    | some deadline =>
      have hd := hcarried.symm.trans hdeadline
      by_cases hle : deadline ≤ now
      · rw [MemberHealth.reinstate_of_le hdeadline hle]
        refine ⟨fun _ => ?_, fun _ => rfl⟩
        rintro ⟨other, hother, hlt⟩
        cases hd.symm.trans hother
        exact UInt64.not_le.mpr hlt hle
      · have hlt := UInt64.not_le.mp hle
        rw [MemberHealth.reinstate_of_lt hdeadline hlt, hdeadline]
        refine ⟨fun h => ?_, fun h => absurd ⟨deadline, hd, hlt⟩ h⟩
        cases h
  constructor
  · rintro ⟨health, hfind, hno, hm⟩
    obtain ⟨first, hfirst, rfl⟩ := Option.map_eq_some_iff.mp hfind
    have hm : first = m := (MemberHealth.reinstate_member now _).symm.trans hm
    exact ⟨hm ▸ hfirst, (hretry first hfirst).mp hno⟩
  · rintro ⟨hfirst, hin⟩
    refine ⟨_, by rw [hfirst]; rfl, (hretry m hfirst).mpr hin, ?_⟩
    exact MemberHealth.reinstate_member now _

/-! ## Answers in different orders -/

def SameAnswer {α : Type} (same : α → α → Prop) : Except String α → Except String α → Prop
  | .ok a, .ok b => same a b
  | .error _, .error _ => True
  | _, _ => False

/-- The same records as often, and the same addresses for each target, in any order. -/
structure Reordered (resolver resolver' : Resolver) (srvName : String) : Prop where
  srv : SameAnswer (fun a b => a.records.Perm b.records) (resolver.srv srvName)
    (resolver'.srv srvName)
  ips : ∀ target, SameAnswer (fun a b => ∀ ip, ip ∈ a ↔ ip ∈ b) (resolver.ips target)
    (resolver'.ips target)

variable {resolver resolver' : Resolver} {srvName : String}

theorem min?_congr {ips ips' : List IpAddr} (h : ∀ ip, ip ∈ ips ↔ ip ∈ ips') :
    ips.min? = ips'.min? := by
  apply Option.ext
  intro ip
  rw [List.min?_eq_some_iff, List.min?_eq_some_iff]
  simp only [h]

theorem Reordered.targetIp_eq (h : Reordered resolver resolver' srvName) (inner : RingInner)
    (target : String) : targetIp resolver inner target = targetIp resolver' inner target := by
  have hips := h.ips target
  unfold targetIp
  cases hr : resolver.ips target with
  | error _ =>
    cases hr' : resolver'.ips target with
    | error _ => rfl
    | ok _ =>
      rw [hr, hr'] at hips
      exact hips.elim
  | ok ips =>
    cases hr' : resolver'.ips target with
    | error _ =>
      rw [hr, hr'] at hips
      exact hips.elim
    | ok ips' =>
      rw [hr, hr'] at hips
      dsimp only
      rw [min?_congr hips]

theorem Reordered.discovered_perm (h : Reordered resolver resolver' srvName) (inner : RingInner)
    {records records' : List SrvRecord} (hperm : records.Perm records') :
    (discovered resolver inner records).Perm (discovered resolver' inner records') := by
  have hmember : memberOf resolver inner = memberOf resolver' inner := by
    funext record
    rw [memberOf, memberOf, h.targetIp_eq]
  rw [discovered, discovered, hmember]
  exact hperm.filterMap _

/-- Records that share an id ask for one address, where an address is asked for at all and
the member is not kept out. -/
def OneAddress (resolver : Resolver) (inner : RingInner) (now : UInt64)
    (records : List SrvRecord) : Prop :=
  ∀ a ∈ records, ∀ b ∈ records, canonicalMemberId a.target = canonicalMemberId b.target →
    ¬ StaysOut inner now (canonicalMemberId a.target) →
    ∀ ip ip', targetIp resolver inner a.target = some ip →
      targetIp resolver inner b.target = some ip' → ip = ip' ∧ a.port = b.port

theorem mem_discovered {records : List SrvRecord} {m : RingMember} :
    m ∈ discovered resolver inner records ↔ ∃ record ∈ records,
      ∃ ip, targetIp resolver inner record.target = some ip ∧
        m = ⟨canonicalMemberId record.target, ⟨ip, record.port⟩⟩ := by
  rw [discovered, List.mem_filterMap]
  simp only [memberOf, Option.map_eq_some_iff]
  exact ⟨fun ⟨r, hr, ip, hip, hm⟩ => ⟨r, hr, ip, hip, hm.symm⟩,
    fun ⟨r, hr, ip, hip, hm⟩ => ⟨r, hr, ip, hip, hm.symm⟩⟩

/-- With one address for an id, the order does not decide who is kept. -/
theorem findKey_perm {listed listed' : List RingMember} {id : String} (hperm : listed.Perm listed')
    (hone : ∀ a ∈ listed, ∀ b ∈ listed, a.id = id → b.id = id → a = b) :
    findKey RingMember.id id listed = findKey RingMember.id id listed' := by
  cases hfind : findKey RingMember.id id listed with
  | none =>
    symm
    rw [findKey_eq_none] at hfind ⊢
    exact fun a ha => hfind a (hperm.mem_iff.mpr ha)
  | some a =>
    have ha := mem_of_findKey hfind
    have haid := key_of_findKey hfind
    have hsome : (findKey RingMember.id id listed').isSome :=
      findKey_isSome.mpr ⟨a, hperm.mem_iff.mp ha, haid⟩
    obtain ⟨b, hb⟩ := Option.isSome_iff_exists.mp hsome
    rw [hb, hone a ha b (hperm.mem_iff.mpr (mem_of_findKey hb)) haid (key_of_findKey hb)]

theorem refresh_eq (hok : inner.Ok state) (h : Reordered resolver resolver' srvName)
    (hone : ∀ snapshot, resolver.srv srvName = .ok snapshot →
      OneAddress resolver inner now snapshot.records) :
    (state.refreshOnce resolver srvName inner now).2.ring =
      (state.refreshOnce resolver' srvName inner now).2.ring := by
  have hsrv := h.srv
  unfold refreshOnce
  cases hr : resolver.srv srvName with
  | error _ =>
    cases hr' : resolver'.srv srvName with
    | error _ => rfl
    | ok _ =>
      rw [hr, hr'] at hsrv
      exact hsrv.elim
  | ok snapshot =>
    cases hr' : resolver'.srv srvName with
    | error _ =>
      rw [hr, hr'] at hsrv
      exact hsrv.elim
    | ok snapshot' =>
      rw [hr, hr'] at hsrv
      have hperm := h.discovered_perm inner hsrv
      have hok₁ := applySnapshot_ok hok now (discovered resolver inner snapshot.records)
      have hok₂ := applySnapshot_ok hok now (discovered resolver' inner snapshot'.records)
      dsimp only
      rw [hok₁.ring_eq, hok₂.ring_eq, ← ring_members hok₁, ← ring_members hok₂]
      -- both lists of members are indexes by id, so they agree if their elements do
      refine congrArg (Ring.new state.sha256) ?_
      have hordered₁ := eligible_ordered hok₁.ordered
      have hordered₂ := eligible_ordered hok₂.ordered
      rw [← ring_members hok₁] at hordered₁
      rw [← ring_members hok₂] at hordered₂
      refine hordered₁.ext hordered₂ fun id => Option.ext fun m => ?_
      rw [hordered₁.findKey_eq_some, hordered₂.findKey_eq_some, applySnapshot_mem_ring hok,
        applySnapshot_mem_ring hok]
      by_cases hout : StaysOut inner now m.id
      · simp [hout]
      · rw [findKey_perm hperm]
        intro a ha b hb haid hbid
        obtain ⟨record, hrecord, ip, hip, rfl⟩ := mem_discovered.mp ha
        obtain ⟨record', hrecord', ip', hip', rfl⟩ := mem_discovered.mp hb
        have haid : canonicalMemberId record.target = m.id := haid
        have hbid : canonicalMemberId record'.target = m.id := hbid
        obtain ⟨rfl, hport⟩ := hone snapshot hr record hrecord record' hrecord'
          (haid.trans hbid.symm) (by rwa [haid]) ip ip' hip hip'
        rw [haid.trans hbid.symm, hport]

/-- The resolver that answers with a given list of records. -/
def answering (resolver : Resolver) (records : List SrvRecord) (ttl : Nat) : Resolver :=
  { resolver with srv := fun _ => .ok ⟨records, ttl⟩ }

/-- The record that comes first decides the address of its id. -/
theorem refresh_front (hok : inner.Ok state) {record : SrvRecord} {rest : List SrvRecord}
    {ttl : Nat} {ip : IpAddr} (hip : targetIp resolver inner record.target = some ip)
    (hin : ¬ StaysOut inner now (canonicalMemberId record.target)) {m : RingMember}
    (hid : m.id = canonicalMemberId record.target) :
    m ∈ (state.refreshOnce (answering resolver (record :: rest) ttl) srvName inner
        now).2.ring.members ↔ m.address = ⟨ip, record.port⟩ := by
  show m ∈ (state.applySnapshot inner now
    (discovered (answering resolver (record :: rest) ttl) inner (record :: rest))).ring.members ↔ _
  have hcons : discovered (answering resolver (record :: rest) ttl) inner (record :: rest) =
      ⟨canonicalMemberId record.target, ⟨ip, record.port⟩⟩ ::
        discovered (answering resolver (record :: rest) ttl) inner rest := by
    refine List.filterMap_cons_some ?_
    show (targetIp resolver inner record.target).map _ = _
    rw [hip]
    rfl
  rw [applySnapshot_mem_ring hok, hcons, findKey_cons, if_pos hid.symm, hid]
  constructor
  · rintro ⟨heq, -⟩
    cases heq
    rfl
  · intro haddress
    refine ⟨?_, hin⟩
    rw [← hid, ← haddress]

/-- Whatever the order of the answers, agents in one state come to one continuum, exactly if
the records that share an id ask for one address. -/
theorem refresh_converges_iff (state : RingState) (history : List Call) (now : UInt64)
    (resolver : Resolver) (srvName : String) :
    (∀ resolver', Reordered resolver resolver' srvName →
      (state.refreshOnce resolver srvName (state.after history) now).2.ring.members =
        (state.refreshOnce resolver' srvName (state.after history) now).2.ring.members ∧
      ∀ position,
        (state.refreshOnce resolver srvName (state.after history) now).2.ring.owner position =
        (state.refreshOnce resolver' srvName (state.after history) now).2.ring.owner position) ↔
    ∀ snapshot, resolver.srv srvName = .ok snapshot →
      OneAddress resolver (state.after history) now snapshot.records := by
  have hok := after_ok state history
  constructor
  · intro hsame snapshot hsnapshot a ha b hb hid hin ip ip' hip hip'
    -- move one of the two records to the front, then the other
    have hfront : ∀ record ∈ snapshot.records, Reordered resolver
        (answering resolver (record :: snapshot.records.erase record) snapshot.ttl) srvName := by
      intro record hrecord
      refine ⟨?_, fun target => ?_⟩
      · rw [hsnapshot]
        exact List.perm_cons_erase hrecord
      · show SameAnswer _ (resolver.ips target) (resolver.ips target)
        cases resolver.ips target with
        | error _ => exact trivial
        | ok _ => exact fun _ => Iff.rfl
    obtain ⟨hmembers, -⟩ := hsame _ (hfront a ha)
    obtain ⟨hmembers', -⟩ := hsame _ (hfront b hb)
    have hlisted : (⟨canonicalMemberId a.target, ⟨ip, a.port⟩⟩ : RingMember) ∈
        (state.refreshOnce (answering resolver (a :: snapshot.records.erase a) snapshot.ttl) srvName
          (state.after history) now).2.ring.members :=
      (refresh_front hok hip hin rfl).mpr rfl
    rw [← hmembers, hmembers'] at hlisted
    have haddress := (refresh_front hok hip' (hid ▸ hin) hid).mp hlisted
    exact ⟨congrArg SocketAddr.ip haddress, congrArg SocketAddr.port haddress⟩
  · intro hone resolver' h
    have heq := refresh_eq hok h hone
    exact ⟨congrArg Ring.members heq, fun position => by rw [heq]⟩

/-! ### One target on two ports -/

def sampleResolver (records : List SrvRecord) : Resolver where
  srv _ := .ok ⟨records, 30⟩
  ips _ := .ok [.v4 0x0a000002#32]

def sampleRecords : List SrvRecord := [⟨"flywheel-1.cache.", 8080⟩, ⟨"flywheel-1.cache.", 8081⟩]

/-- Two agents without members yet that see the two records in different orders send the same
keys to different ports. -/
theorem refresh_two_ports :
    ¬ ∀ (state : RingState) (history : List Call) (now : UInt64) (resolver resolver' : Resolver)
        (srvName : String), Reordered resolver resolver' srvName →
      (state.refreshOnce resolver srvName (state.after history) now).2.ring.members =
        (state.refreshOnce resolver' srvName (state.after history) now).2.ring.members ∧
      ∀ position,
        (state.refreshOnce resolver srvName (state.after history) now).2.ring.owner position =
        (state.refreshOnce resolver' srvName (state.after history) now).2.ring.owner position := by
  intro hall
  have hreordered : Reordered (sampleResolver sampleRecords)
      (sampleResolver sampleRecords.reverse) "_http._tcp.flywheel" := by
    refine ⟨(List.reverse_perm _).symm, fun target => ?_⟩
    exact fun _ => Iff.rfl
  have hmembers := (hall (new (fun _ => ⟨List.replicate 32 0, rfl⟩) 1 30) [] 0 _ _ _ hreordered).1
  revert hmembers
  decide

end RingState

end Flywheel.Agent
