import Flywheel.Artifact
import Flywheel.Lib.Ordered
import Flywheel.Lib.Text
import Mathlib.Data.Prod.Lex
import Mathlib.Data.String.Basic

/-!
# The routing ring (`agent/ring.rs`)

Every member of the ring stands at 160 places of a continuum of 64-bit positions, found by
hashing its id. A key goes to the member at the first place at or past the key's position,
around the end of the continuum if need be. Where places of two members coincide the sort
puts the lesser index first, and indices are in the order of the ids.

The continuum as a set of positions with ids (`continuum`) does not know of indices. `owner`
picks the next of it (`owner_isNext`), which is why taking members away moves no key of the
others (`owner_without`). SHA-256 is a parameter: any function will do.
-/

set_option autoImplicit false

namespace Flywheel.Agent

open Lib

/-! ## Routing keys -/

def routingVersion : String := "flywheel-routing-v1"

def virtualNodes : Nat := 160

/-- `to_be_bytes` of a `u16`. -/
def be16 (n : Nat) : Bytes := (beDigits 256 2 n).map UInt8.ofNat

/-- `len_u16_be(part) || part` for each part; a part may be too long for its prefix. -/
def encodeParts : List String → Option Bytes
  | [] => some []
  | part :: parts =>
    let bytes := part.toUTF8.toList
    if bytes.length < 2 ^ 16 then
      (encodeParts parts).map fun rest => be16 bytes.length ++ bytes ++ rest
    else none

def routingKey (kind id : String) : Option Bytes := encodeParts [routingVersion, kind, id]

/-- The length of a part has room in a `u16`. -/
def FitsPrefix (part : String) : Prop := part.toUTF8.toList.length < 2 ^ 16

@[simp] theorem length_be16 (n : Nat) : (be16 n).length = 2 := by simp [be16]

theorem be16_inj {m n : Nat} (hm : m < 2 ^ 16) (hn : n < 2 ^ 16) (h : be16 m = be16 n) : m = n :=
  map_ofNat_beDigits_inj (w := 2) hm hn h

theorem encodeParts_cons {part : String} {parts : List String} {key : Bytes} :
    encodeParts (part :: parts) = some key ↔ FitsPrefix part ∧ ∃ rest,
      encodeParts parts = some rest ∧
        key = be16 part.toUTF8.toList.length ++ (part.toUTF8.toList ++ rest) := by
  rw [encodeParts, FitsPrefix]
  split
  · rename_i hfits
    rw [Option.map_eq_some_iff]
    simp only [List.append_assoc, hfits, true_and, eq_comm]
  · rename_i hfits
    simp only [hfits, false_and, reduceCtorEq]

/-- The length in front of a part says where the part ends. -/
theorem encodeParts_inj {parts parts' : List String} {key : Bytes} (h : encodeParts parts = some key)
    (h' : encodeParts parts' = some key) : parts = parts' := by
  induction parts generalizing parts' key with
  | nil =>
    cases h
    cases parts' with
    | nil => rfl
    | cons part' parts' =>
      obtain ⟨-, rest', -, hkey⟩ := encodeParts_cons.mp h'
      have hlen := congrArg List.length hkey
      simp only [List.length_nil, List.length_append, length_be16] at hlen
      omega
  | cons part parts ih =>
    obtain ⟨hfits, rest, hrest, rfl⟩ := encodeParts_cons.mp h
    cases parts' with
    | nil =>
      have hlen := congrArg List.length (Option.some.inj h')
      simp only [List.length_nil, List.length_append, length_be16] at hlen
      omega
    | cons part' parts' =>
      obtain ⟨hfits', rest', hrest', hkey⟩ := encodeParts_cons.mp h'
      obtain ⟨hlen, htail⟩ := List.append_inj hkey (by simp)
      obtain ⟨hbytes, hrests⟩ := List.append_inj htail (be16_inj hfits hfits' hlen)
      rw [toUTF8_inj hbytes, ih hrest (hrests ▸ hrest')]

theorem encodeParts_eq_none {parts : List String} :
    encodeParts parts = none ↔ ∃ part ∈ parts, ¬ FitsPrefix part := by
  induction parts with
  | nil => simp [encodeParts]
  | cons part parts ih =>
    rw [List.exists_mem_cons_iff, ← ih, encodeParts, FitsPrefix]
    split
    · rename_i hfits
      simp only [Option.map_eq_none_iff, hfits, not_true_eq_false, false_or]
    · rename_i hfits
      simp only [hfits, not_false_eq_true, true_or]

theorem routingKey_inj {kind id kind' id' : String} {key : Bytes}
    (h : routingKey kind id = some key) (h' : routingKey kind' id' = some key) :
    kind = kind' ∧ id = id' := by
  have hparts := encodeParts_inj h h'
  simpa using hparts

theorem routingKey_eq_none {kind id : String} :
    routingKey kind id = none ↔ ¬ (FitsPrefix kind ∧ FitsPrefix id) := by
  have hversion : FitsPrefix routingVersion := by
    show routingVersion.toUTF8.toList.length < 2 ^ 16
    decide +kernel
  rw [routingKey, encodeParts_eq_none, not_and_or]
  simp [hversion]

section

variable (sha256 : Bytes → Digest)

/-- The first eight bytes of the hash, big-endian. -/
def position (bytes : Bytes) : UInt64 :=
  UInt64.ofNat (ofDigits 256 (((sha256 bytes).bytes.take 8).map UInt8.toNat))

def keyPosition (kind id : String) : Option UInt64 := (routingKey kind id).map (position sha256)

/-! ## Members -/

inductive IpAddr where
  | v4 (bits : BitVec 32)
  | v6 (bits : BitVec 128)
  deriving DecidableEq

structure SocketAddr where
  ip : IpAddr
  port : UInt16
  deriving DecidableEq

/-- The id is the canonical SRV target; the address is only where it lives now. -/
structure RingMember where
  id : String
  address : SocketAddr
  deriving DecidableEq

/-! ## The ring -/

structure Ring where
  members : List RingMember
  /-- Positions with the index of their member, sorted. -/
  points : List (UInt64 × Nat)
  deriving DecidableEq

/-- The place of a virtual node. -/
def vnodePoint (id : String) (vnode : Nat) : UInt64 :=
  position sha256 (id.toUTF8.toList ++ be16 vnode)

/-- The bytes hashed for a virtual node. -/
def vnodeInput (id : String) (vnode : Nat) : Bytes := id.toUTF8.toList ++ be16 vnode

omit sha256 in
/-- The number of the node is as long for every node, so no id runs into it. -/
theorem vnodeInput_inj {id id' : String} {vnode vnode' : Nat} (hvnode : vnode < virtualNodes)
    (hvnode' : vnode' < virtualNodes) (h : vnodeInput id vnode = vnodeInput id' vnode') :
    id = id' ∧ vnode = vnode' := by
  obtain ⟨hid, hnumber⟩ := List.append_inj' h (by simp)
  unfold virtualNodes at hvnode hvnode'
  exact ⟨toUTF8_inj hid, be16_inj (by omega) (by omega) hnumber⟩

namespace Ring

/-- The order of `(u64, usize)`. -/
def pointKey (point : UInt64 × Nat) : ℕ ×ₗ ℕ := toLex (point.1.toNat, point.2)

def new (members : List RingMember) : Ring :=
  let members := indexByKey RingMember.id members
  let points := members.zipIdx.flatMap fun (member, index) =>
    (List.range virtualNodes).map fun vnode => (vnodePoint sha256 member.id vnode, index)
  { members, points := sortByKey pointKey points }

def isEmpty (ring : Ring) : Bool := ring.members.isEmpty

def owner (ring : Ring) (position : UInt64) : Option RingMember :=
  if ring.points.isEmpty then none
  else
    let index := partitionPoint (fun point => point.1 < position) ring.points % ring.points.length
    ring.points[index]?.bind fun point => ring.members[point.2]?

/-- The points of one id. -/
def pointsOf (ring : Ring) (id : String) : List (UInt64 × Nat) :=
  ring.points.filter fun point => ring.members[point.2]?.any fun member => member.id = id

/-! ## The continuum -/

/-- A position with the id that stands there; ties go to the lesser id. -/
abbrev Place := ℕ ×ₗ String

def Place.pos (place : Place) : ℕ := (ofLex place).1

def Place.id (place : Place) : String := (ofLex place).2

def continuum (members : List RingMember) : Set Place :=
  {place | ∃ member ∈ members, ∃ vnode < virtualNodes,
    place = toLex ((vnodePoint sha256 member.id vnode).toNat, member.id)}

variable {sha256} {members members' : List RingMember} {member : RingMember}

theorem mem_continuum_iff {place : Place} :
    place ∈ continuum sha256 members ↔ place.id ∈ members.map RingMember.id ∧
      ∃ vnode < virtualNodes, place.pos = (vnodePoint sha256 place.id vnode).toNat := by
  constructor
  · rintro ⟨member, hmember, vnode, hvnode, rfl⟩
    exact ⟨List.mem_map_of_mem hmember, vnode, hvnode, rfl⟩
  · rintro ⟨hid, vnode, hvnode, hpos⟩
    obtain ⟨member, hmember, hid⟩ := List.mem_map.mp hid
    refine ⟨member, hmember, vnode, hvnode, ?_⟩
    rw [hid, ← hpos]
    rfl

theorem continuum_mono (h : members.map RingMember.id ⊆ members'.map RingMember.id) :
    continuum sha256 members ⊆ continuum sha256 members' := by
  intro place hplace
  obtain ⟨hid, hpos⟩ := mem_continuum_iff.mp hplace
  exact mem_continuum_iff.mpr ⟨h hid, hpos⟩

/-- Sorting and deduplicating the members changes no place. -/
theorem continuum_indexByKey :
    continuum sha256 (indexByKey RingMember.id members) = continuum sha256 members :=
  Set.Subset.antisymm (continuum_mono fun _ => mem_map_indexByKey.mp)
    (continuum_mono fun _ => mem_map_indexByKey.mpr)

theorem new_members : (new sha256 members).members = indexByKey RingMember.id members := rfl

theorem pairwise_points :
    (new sha256 members).points.Pairwise fun a b => pointKey a ≤ pointKey b :=
  pairwise_sortByKey pointKey _

/-- A point is a virtual node of the member it refers to. -/
theorem mem_points {point : UInt64 × Nat} :
    point ∈ (new sha256 members).points ↔
      ∃ member, (new sha256 members).members[point.2]? = some member ∧
        ∃ vnode < virtualNodes, point.1 = vnodePoint sha256 member.id vnode := by
  show point ∈ sortByKey pointKey _ ↔ _
  rw [(perm_sortByKey _ _).mem_iff, List.mem_flatMap]
  constructor
  · rintro ⟨⟨member, index⟩, hmem, hpoint⟩
    obtain ⟨vnode, hvnode, rfl⟩ := List.mem_map.mp hpoint
    exact ⟨member, List.mem_zipIdx_iff_getElem?.mp hmem, vnode, List.mem_range.mp hvnode, rfl⟩
  · rintro ⟨member, hmember, vnode, hvnode, hpoint⟩
    refine ⟨(member, point.2), List.mem_zipIdx_iff_getElem?.mpr hmember, ?_⟩
    exact List.mem_map.mpr ⟨vnode, List.mem_range.mpr hvnode, by rw [← hpoint]⟩

/-- The place behind a point: its index replaced by the id of the member. -/
def placeOf (ring : Ring) (key : ℕ ×ₗ ℕ) : Place :=
  toLex ((ofLex key).1, (ring.members[(ofLex key).2]?.map RingMember.id).getD "")

theorem placeOf_pointKey {ring : Ring} {point : UInt64 × Nat}
    (h : ring.members[point.2]? = some member) :
    ring.placeOf (pointKey point) = toLex (point.1.toNat, member.id) := by
  show toLex (point.1.toNat, (ring.members[point.2]?.map RingMember.id).getD "") = _
  rw [h]
  rfl

/-- Indices are in the order of the ids. -/
theorem placeOf_monotone :
    MonotoneOn (new sha256 members).placeOf
      {key | ∃ point ∈ (new sha256 members).points, pointKey point = key} := by
  rintro _ ⟨point, hpoint, rfl⟩ _ ⟨point', hpoint', rfl⟩ hle
  obtain ⟨member, hmember, -⟩ := mem_points.mp hpoint
  obtain ⟨member', hmember', -⟩ := mem_points.mp hpoint'
  rw [placeOf_pointKey hmember, placeOf_pointKey hmember']
  rcases Prod.Lex.le_iff.mp hle with hlt | ⟨heq, hindex⟩
  · exact Prod.Lex.le_iff.mpr (.inl hlt)
  · refine Prod.Lex.le_iff.mpr (.inr ⟨heq, ?_⟩)
    obtain ⟨hi, rfl⟩ := List.getElem?_eq_some_iff.mp hmember
    obtain ⟨hi', rfl⟩ := List.getElem?_eq_some_iff.mp hmember'
    have hindex : point.2 ≤ point'.2 := hindex
    rcases Nat.lt_or_eq_of_le hindex with hlt | hsame
    · exact le_of_lt (List.pairwise_iff_getElem.mp
        (strictlyOrdered_indexByKey RingMember.id members) point.2 point'.2 hi hi' hlt)
    · show (new sha256 members).members[point.2].id ≤ (new sha256 members).members[point'.2].id
      simp only [hsame, le_refl]

theorem placeOf_image :
    (new sha256 members).placeOf ''
      {key | ∃ point ∈ (new sha256 members).points, pointKey point = key} =
        continuum sha256 members := by
  rw [← continuum_indexByKey]
  apply Set.Subset.antisymm
  · rintro _ ⟨_, ⟨point, hpoint, rfl⟩, rfl⟩
    obtain ⟨member, hmember, vnode, hvnode, hpos⟩ := mem_points.mp hpoint
    rw [placeOf_pointKey hmember, hpos]
    exact ⟨member, List.mem_of_getElem? hmember, vnode, hvnode, rfl⟩
  · rintro _ ⟨member, hmember, vnode, hvnode, rfl⟩
    obtain ⟨index, hindex⟩ := List.getElem?_of_mem hmember
    have hpoint : (vnodePoint sha256 member.id vnode, index) ∈ (new sha256 members).points :=
      mem_points.mpr ⟨member, hindex, vnode, hvnode, rfl⟩
    exact ⟨_, ⟨_, hpoint, rfl⟩, placeOf_pointKey hindex⟩

/-! ## Owners -/

/-- The owner of a position stands at the next place of the continuum, and is the first
member of its id that the ring was built from. -/
theorem owner_isNext {p : UInt64} (h : (new sha256 members).owner p = some member) :
    (∃ place, IsNext Place.pos (continuum sha256 members) p.toNat place ∧
      place.id = member.id) ∧ findKey RingMember.id member.id members = some member := by
  unfold owner at h
  split at h
  · cases h
  · obtain ⟨point, hpoint, hmember⟩ := Option.bind_eq_some_iff.mp h
    have hnext : IsNext (fun key : ℕ ×ₗ ℕ => (ofLex key).1)
        {key | ∃ point ∈ (new sha256 members).points, pointKey point = key} p.toNat
        (pointKey point) := by
      have hbelow : (fun point : UInt64 × Nat => decide (point.1 < p)) =
          fun point => decide ((ofLex (pointKey point)).1 < p.toNat) := by
        funext point
        exact decide_eq_decide.mpr UInt64.lt_iff_toNat_lt
      rw [hbelow] at hpoint
      exact isNext_partitionPoint pairwise_points p.toNat hpoint
    have himage := hnext.image Place.pos placeOf_monotone fun _ _ => rfl
    rw [placeOf_image, placeOf_pointKey hmember] at himage
    refine ⟨⟨_, himage, rfl⟩, ?_⟩
    rw [← findKey_indexByKey]
    exact (strictlyOrdered_indexByKey _ _).findKey_eq_some.mpr
      ⟨List.mem_of_getElem? hmember, rfl⟩

theorem owner_eq_none {p : UInt64} : (new sha256 members).owner p = none ↔ members = [] := by
  constructor
  · intro h
    by_contra hne
    obtain ⟨first, hfirst⟩ := List.exists_mem_of_ne_nil members hne
    -- some member is in the index, so there is a point, and its index is in range
    have hsome : (findKey RingMember.id first.id (indexByKey RingMember.id members)).isSome := by
      rw [findKey_indexByKey]
      exact findKey_isSome.mpr ⟨first, hfirst, rfl⟩
    obtain ⟨member, hmember⟩ := Option.isSome_iff_exists.mp hsome
    obtain ⟨index, hindex⟩ := List.getElem?_of_mem (mem_of_findKey hmember)
    have hpoint : (vnodePoint sha256 member.id 0, index) ∈ (new sha256 members).points :=
      mem_points.mpr ⟨member, hindex, 0, by decide, rfl⟩
    have hlen : 0 < (new sha256 members).points.length := List.length_pos_of_mem hpoint
    unfold owner at h
    rw [if_neg (by simpa using List.ne_nil_of_mem hpoint)] at h
    dsimp only at h
    have hlt := Nat.mod_lt
      (partitionPoint (fun point => decide (point.1 < p)) (new sha256 members).points) hlen
    rw [List.getElem?_eq_getElem hlt, Option.bind_some] at h
    obtain ⟨owner, howner, -⟩ := mem_points.mp (List.getElem_mem hlt)
    rw [howner] at h
    cases h
  · rintro rfl
    rfl

theorem findKey_filter_ne {x : String} {id : String} (h : id ≠ x) :
    findKey RingMember.id id (members.filter fun m => m.id ≠ x) =
      findKey RingMember.id id members := by
  induction members with
  | nil => rfl
  | cons m members ih =>
    by_cases hm : m.id = x
    · have hne : m.id ≠ id := fun hid => h (hid.symm.trans hm)
      rw [List.filter_cons_of_neg (by simpa using hm), ih, findKey_cons, if_neg hne]
    · rw [List.filter_cons_of_pos (by simpa using hm), findKey_cons, findKey_cons, ih]

/-- Taking the members of one id away keeps the owner of every position that was not theirs,
and gives theirs to others, if there are any. -/
theorem owner_without (sha256 : Bytes → Digest) (members : List RingMember) (x : String)
    (p : UInt64) :
    (((new sha256 members).owner p).map RingMember.id ≠ some x →
      (new sha256 (members.filter fun m => m.id ≠ x)).owner p = (new sha256 members).owner p) ∧
    (((new sha256 members).owner p).map RingMember.id = some x →
      ((new sha256 (members.filter fun m => m.id ≠ x)).owner p).map RingMember.id ≠ some x) ∧
    ((new sha256 (members.filter fun m => m.id ≠ x)).owner p = none ↔
      ∀ m ∈ members, m.id = x) := by
  have hnone : (new sha256 (members.filter fun m => m.id ≠ x)).owner p = none ↔
      ∀ m ∈ members, m.id = x := by
    rw [owner_eq_none, List.filter_eq_nil_iff]
    simp
  refine ⟨?_, ?_, hnone⟩
  · intro hx
    cases howner : (new sha256 members).owner p with
    | none =>
      rw [owner_eq_none.mp howner, List.filter_nil, owner_eq_none]
    | some o =>
      obtain ⟨⟨place, hnext, hplace⟩, hfirst⟩ := owner_isNext howner
      have hid : o.id ≠ x := by
        intro hid
        rw [howner, Option.map_some, hid] at hx
        exact hx rfl
      have hkept : findKey RingMember.id o.id (members.filter fun m => m.id ≠ x) = some o :=
        (findKey_filter_ne hid).trans hfirst
      cases howner' : (new sha256 (members.filter fun m => m.id ≠ x)).owner p with
      | none => exact absurd (hnone.mp howner' o (mem_of_findKey hfirst)) hid
      | some o' =>
        obtain ⟨⟨place', hnext', hplace'⟩, hfirst'⟩ := owner_isNext howner'
        -- the place of `o` is still there, so it is still the next one
        have hstill : IsNext Place.pos
            (continuum sha256 (members.filter fun m => m.id ≠ x)) p.toNat place := by
          refine hnext.subset (continuum_mono ?_) ?_
          · exact List.map_subset _ (List.filter_subset_self members)
          · obtain ⟨-, hpos⟩ := mem_continuum_iff.mp hnext.mem
            refine mem_continuum_iff.mpr ⟨?_, hpos⟩
            rw [hplace]
            exact List.mem_map_of_mem (mem_of_findKey hkept)
        have hsame : o'.id = o.id := by rw [← hplace', ← hplace, hstill.unique hnext']
        rw [hsame, hkept] at hfirst'
        exact hfirst'.symm
  · intro _ hx'
    obtain ⟨o', howner', hid'⟩ := Option.map_eq_some_iff.mp hx'
    have hmem := mem_of_findKey (owner_isNext howner').2
    rw [List.mem_filter] at hmem
    exact absurd hid' (by simpa using hmem.2)

/-! ## The points of a member -/

theorem index_lt {point : UInt64 × Nat} (h : point ∈ (new sha256 members).points) :
    point.2 < (new sha256 members).members.length := by
  obtain ⟨member, hmember, -⟩ := mem_points.mp h
  exact (List.getElem?_eq_some_iff.mp hmember).1

/-- The points of an entry of the index. -/
def entryPoints (sha256 : Bytes → Digest) (entry : RingMember × Nat) : List (UInt64 × Nat) :=
  (List.range virtualNodes).map fun vnode => (vnodePoint sha256 entry.1.id vnode, entry.2)

theorem strictlyOrdered_zipIdx (members : List RingMember) :
    StrictlyOrdered (fun entry => entry.1.id) (indexByKey RingMember.id members).zipIdx := by
  have hfst : (((indexByKey RingMember.id members).zipIdx).map Prod.fst).Pairwise
      fun a b => a.id < b.id := by
    rw [List.zipIdx_map_fst]
    exact strictlyOrdered_indexByKey RingMember.id members
  rw [List.pairwise_map] at hfst
  exact hfst

theorem perm_pointsOf {id : String} {entry : RingMember × Nat}
    (h : findKey (fun entry => entry.1.id) id (indexByKey RingMember.id members).zipIdx =
      some entry) :
    ((new sha256 members).pointsOf id).Perm (entryPoints sha256 entry) := by
  let named := fun point : UInt64 × Nat =>
    (new sha256 members).members[point.2]?.any fun member => decide (member.id = id)
  have hnamed : ∀ entry ∈ (indexByKey RingMember.id members).zipIdx,
      (entryPoints sha256 entry).filter named =
        if entry.1.id = id then entryPoints sha256 entry else [] := by
    rintro ⟨m, i⟩ hmem
    have hget : (new sha256 members).members[i]? = some m := List.mem_zipIdx_iff_getElem?.mp hmem
    have hall : ∀ point ∈ entryPoints sha256 (m, i), named point = decide (m.id = id) := by
      intro point hpoint
      obtain ⟨vnode, -, rfl⟩ := List.mem_map.mp hpoint
      show (new sha256 members).members[i]?.any _ = _
      rw [hget, Option.any_some]
    by_cases hid : m.id = id
    · rw [if_pos hid, List.filter_eq_self]
      intro point hpoint
      rw [hall point hpoint, decide_eq_true hid]
    · rw [if_neg hid, List.filter_eq_nil_iff]
      intro point hpoint
      rw [hall point hpoint, decide_eq_false hid]
      exact Bool.false_ne_true
  have hfilter : ((indexByKey RingMember.id members).zipIdx.flatMap (entryPoints sha256)).filter
      named = entryPoints sha256 entry := by
    rw [List.filter_flatMap, List.flatMap_congr hnamed, flatMap_ite,
      (strictlyOrdered_zipIdx members).filter_eq h, List.flatMap_singleton]
  rw [← hfilter]
  exact (perm_sortByKey pointKey _).filter named

/-- Every id has a point for each virtual node, however many members were given under it. -/
theorem positions_pointsOf {id : String} (h : id ∈ members.map RingMember.id) :
    (((new sha256 members).pointsOf id).map Prod.fst).Perm
      ((List.range virtualNodes).map fun vnode => position sha256 (vnodeInput id vnode)) := by
  obtain ⟨member, hmember, hid⟩ := List.mem_map.mp (mem_map_indexByKey.mpr h)
  obtain ⟨index, hindex⟩ := List.getElem?_of_mem hmember
  have hentry : findKey (fun entry : RingMember × Nat => entry.1.id) id
      (indexByKey RingMember.id members).zipIdx = some (member, index) :=
    (strictlyOrdered_zipIdx members).findKey_eq_some.mpr
      ⟨List.mem_zipIdx_iff_getElem?.mpr hindex, hid⟩
  refine ((perm_pointsOf hentry).map Prod.fst).trans (List.Perm.of_eq ?_)
  rw [entryPoints, List.map_map, ← hid]
  rfl

/-- **The ring is the continuum of its members, and keys are told apart**: `owner` picks the next
place at or past the position and around, or none without members; every index of a point is that
of a member; every id has its virtual nodes; no two nodes hash the same bytes; a routing key stands
for one kind and id, and there is one whenever both fit their length prefix. -/
theorem ring_and_routing_keys (sha256 : Bytes → Digest) :
    (∀ (members : List RingMember) (p : UInt64),
      ((new sha256 members).owner p = none ↔ members = []) ∧
      (∀ member, (new sha256 members).owner p = some member →
        findKey RingMember.id member.id members = some member ∧
        ∃ place, IsNext Place.pos (continuum sha256 members) p.toNat place ∧
          place.id = member.id)) ∧
    (∀ members : List RingMember,
      (∀ point ∈ (new sha256 members).points, point.2 < (new sha256 members).members.length) ∧
      ∀ id ∈ members.map RingMember.id, (((new sha256 members).pointsOf id).map Prod.fst).Perm
        ((List.range virtualNodes).map fun vnode => position sha256 (vnodeInput id vnode))) ∧
    (∀ id vnode id' vnode', vnode < virtualNodes → vnode' < virtualNodes →
      vnodeInput id vnode = vnodeInput id' vnode' → id = id' ∧ vnode = vnode') ∧
    (∀ kind id kind' id' key, routingKey kind id = some key → routingKey kind' id' = some key →
      kind = kind' ∧ id = id') ∧
    (∀ kind id, routingKey kind id = none ↔ ¬ (FitsPrefix kind ∧ FitsPrefix id)) := by
  refine ⟨fun members p => ⟨owner_eq_none, fun member howner => ?_⟩,
    fun members => ⟨fun _ => index_lt, fun _ => positions_pointsOf⟩,
    fun _ _ _ _ => vnodeInput_inj, fun _ _ _ _ _ => routingKey_inj, fun _ _ => routingKey_eq_none⟩
  obtain ⟨hnext, hfirst⟩ := owner_isNext howner
  exact ⟨hfirst, hnext⟩

end Ring

end

end Flywheel.Agent
