import Flywheel.Cacheprog.Manifest
import Mathlib.Data.Set.Card

/-!
# What a merge keeps (`merge_manifest`)

What was used, and what was stored for other actions and is not too old, is on offer (`Offered`).
If that is more than the cap, the entries seen longest ago go, and among those seen at one time the
lesser actions. An entry is kept exactly if fewer than the cap come after it (`get_mergeManifest`).

A clock that is ahead writes entries that come after those of this build, however recently these
were used. What was just used is therefore kept only as long as few enough such entries are stored.
-/

set_option autoImplicit false

namespace Flywheel.Cacheprog

open Lib Std

/-- What a build has used; a hash map has every action once. -/
structure Usage where
  entries : List (Bytes × UsedEntry)
  nodup : (entries.map Prod.fst).Nodup

def Usage.actions (used : Usage) : List Bytes := used.entries.map Prod.fst

/-- The entry of an action that was used. -/
def UsedEntry.seenAt (entry : UsedEntry) (now : UInt64) : ManifestEntry :=
  ⟨entry.output, entry.size, now⟩

section

variable (stored : Option Manifest) (used : Usage) (now : UInt64)

/-- What a merge may keep. -/
def Offered (action : Bytes) (entry : ManifestEntry) : Prop :=
  (∃ u, (action, u) ∈ used.entries ∧ entry = u.seenAt now) ∨
    (action ∉ used.actions ∧ (storedEntries stored)[action]? = some entry ∧
      saturatingSub now entry.lastSeen ≤ manifestMaxAgeSeconds)

/-- The actions on offer that come after one seen at a time. -/
def Later (seen : UInt64) (action : Bytes) : Set Bytes :=
  {b | ∃ entry, Offered stored used now b entry ∧
    compareAge (seen, action) (entry.lastSeen, b) = .lt}

/-- What is on offer, before the cap. -/
def offer : Family ManifestEntry :=
  insertUsed now used.entries (retain now (storedEntries stored))

end

/-! ## Entries in order -/

section

variable {entries entries' : Family ManifestEntry} {action : Bytes} {entry : ManifestEntry}
  {cap : Nat}

theorem asymm_compareAge (a b : UInt64 × Bytes) (h : compareAge a b = .lt) :
    ¬ compareAge b a = .lt := by
  have hswap : compareAge b a = (compareAge a b).swap := OrientedCmp.eq_swap
  rw [hswap, h]
  decide

theorem compareAge_of_lt {a b : UInt64 × Bytes} (h : a.1 < b.1) : compareAge a b = .lt :=
  Ordering.then_eq_lt.mpr (.inl (compare_eq_lt.mpr h))

theorem strict_byAge : (byAge entries).Pairwise fun a b => compareAge a b = .lt := by
  have hne : (byAge entries).Pairwise fun a b => a.2 ≠ b.2 := List.pairwise_map.mp nodup_byAge
  refine (pairwise_byAge.and hne).imp ?_
  rintro a b ⟨hle, hne⟩
  cases hcmp : compareAge a b with
  | lt => rfl
  | eq =>
    obtain ⟨-, haction⟩ := Ordering.then_eq_eq.mp hcmp
    exact absurd (LawfulEqOrd.eq_of_compare haction) hne
  | gt =>
    rw [hcmp] at hle
    cases hle

theorem nodup_of_byAge : (byAge entries).Nodup := List.Nodup.of_map _ nodup_byAge

/-- The cap keeps the last of them. -/
theorem get_evict_iff_mem : (evict cap entries)[action]? = some entry ↔
    entries[action]? = some entry ∧
      (entry.lastSeen, action) ∈ (byAge entries).drop (entries.size - cap) := by
  by_cases hget : entries[action]? = some entry
  · rw [hget]
    have hmem : (entry.lastSeen, action) ∈ byAge entries := mem_byAge.mpr ⟨entry, hget, rfl⟩
    rw [evict]
    split
    · have hsplit : (entry.lastSeen, action) ∈ (byAge entries).take (entries.size - cap) ↔
          (entry.lastSeen, action) ∉ (byAge entries).drop (entries.size - cap) := by
        have hnodup := @nodup_of_byAge entries
        rw [← List.take_append_drop (entries.size - cap) (byAge entries)] at hmem hnodup
        have hapart := (List.nodup_append.mp hnodup).2.2
        constructor
        · exact fun htake hdrop => hapart _ htake _ hdrop rfl
        · exact fun hdrop => (List.mem_append.mp hmem).resolve_right hdrop
      have hkeys : action ∈ ((byAge entries).take (entries.size - cap)).map Prod.snd ↔
          (entry.lastSeen, action) ∈ (byAge entries).take (entries.size - cap) := by
        constructor
        · intro h
          obtain ⟨pair, hpair, rfl⟩ := List.mem_map.mp h
          obtain ⟨entry', hentry', hseen⟩ := mem_byAge.mp (List.mem_of_mem_take hpair)
          obtain rfl := Option.some.inj (hget.symm.trans hentry')
          rwa [hseen]
        · exact fun h => List.mem_map.mpr ⟨_, h, rfl⟩
      rw [get_foldl_delete, hget]
      by_cases hdrop : (entry.lastSeen, action) ∈ (byAge entries).drop (entries.size - cap)
      · rw [if_neg fun h => hsplit.mp (hkeys.mp h) hdrop]
        simp [hdrop]
      · rw [if_pos (hkeys.mpr (hsplit.mpr hdrop))]
        simp [hdrop]
    · rename_i hfits
      rw [Nat.sub_eq_zero_of_le (Nat.le_of_not_lt hfits), List.drop_zero, hget]
      simp [hmem]
  · exact iff_of_false (fun h => hget (get_of_evict h)) fun h => hget h.1

/-- An entry is kept if fewer than the cap come after it. -/
theorem get_evict_iff : (evict cap entries)[action]? = some entry ↔
    entries[action]? = some entry ∧
      ((byAge entries).countP fun b => compareAge (entry.lastSeen, action) b = .lt) < cap := by
  rw [get_evict_iff_mem]
  refine and_congr_right fun hget => ?_
  have hmem : (entry.lastSeen, action) ∈ byAge entries := mem_byAge.mpr ⟨entry, hget, rfl⟩
  have hself : ¬ compareAge (entry.lastSeen, action) (entry.lastSeen, action) = .lt := fun h =>
    asymm_compareAge _ _ h h
  have hcount : ((byAge entries).countP
      fun b => compareAge (entry.lastSeen, action) b = .lt) < entries.size := by
    rw [← length_byAge]
    exact List.countP_lt_length_iff.mpr ⟨_, hmem, by simpa using hself⟩
  rw [mem_drop_iff_countP asymm_compareAge strict_byAge hmem (by rw [length_byAge]; omega),
    length_byAge]
  omega

theorem size_evict_le : (evict cap entries).size ≤ cap := by
  have hsubset : byAge (evict cap entries) ⊆ (byAge entries).drop (entries.size - cap) := by
    rintro ⟨seen, action⟩ hmem
    obtain ⟨entry, hentry, rfl⟩ := mem_byAge.mp hmem
    exact (get_evict_iff_mem.mp hentry).2
  have hle := (List.Nodup.subperm nodup_of_byAge hsubset).length_le
  rw [length_byAge, List.length_drop, length_byAge] at hle
  omega

/-- Between what is kept and what was there, the cap keeps the same. -/
theorem evict_of_between
    (hkept : ∀ (action : Bytes) (entry : ManifestEntry), (evict cap entries)[action]? = some entry →
      entries'[action]? = some entry)
    (hthere : ∀ (action : Bytes) (entry : ManifestEntry), entries'[action]? = some entry →
      entries[action]? = some entry) :
    evict cap entries' = evict cap entries := by
  have hsubset : byAge entries' ⊆ byAge entries := by
    intro pair hpair
    obtain ⟨entry, hentry, hseen⟩ := mem_byAge.mp hpair
    exact mem_byAge.mpr ⟨entry, hthere _ _ hentry, hseen⟩
  have hsublist : (byAge entries').Sublist (byAge entries) := by
    have hantisymm : Std.Antisymm fun a b : UInt64 × Bytes => compareAge a b = .lt :=
      ⟨fun a b hab hba => absurd hba (asymm_compareAge a b hab)⟩
    exact List.sublist_of_subperm_of_pairwise (List.Nodup.subperm nodup_of_byAge hsubset)
      strict_byAge strict_byAge
  have hdrop := drop_eq_of_sublist (n := entries.size - cap) nodup_of_byAge hsublist (by
    rintro ⟨seen, action⟩ hmem
    obtain ⟨entry, hentry, rfl⟩ := mem_byAge.mp (List.mem_of_mem_drop hmem)
    exact mem_byAge.mpr ⟨entry, hkept _ _ (get_evict_iff_mem.mpr ⟨hentry, hmem⟩), rfl⟩)
  have hleft : (byAge entries').drop (entries'.size - cap) =
      (byAge entries).drop (entries.size - cap) := by
    have hle := hsublist.length_le
    rw [length_byAge, length_byAge] at hdrop hle
    rw [← hdrop]
    by_cases hfits : entries.size ≤ cap
    · rw [Nat.sub_eq_zero_of_le (hle.trans hfits), Nat.sub_eq_zero_of_le hfits, Nat.sub_zero,
        Nat.sub_eq_zero_of_le hle]
    · rw [show entries.size - (entries.size - cap) = cap by omega]
  refine ExtTreeMap.ext_getElem? fun action => Option.ext fun entry => ?_
  rw [get_evict_iff_mem, get_evict_iff_mem, hleft]
  constructor
  · exact fun h => ⟨hthere _ _ h.1, h.2⟩
  · exact fun h => ⟨hkept _ _ (get_evict_iff_mem.mpr h), h.2⟩

end

/-! ## The merge -/

section

variable {stored : Option Manifest} {used : Usage} {now : UInt64} {action : Bytes}
  {entry : ManifestEntry}

theorem get_insertUsed_iff {used : List (Bytes × UsedEntry)} (hnodup : (used.map Prod.fst).Nodup)
    (entries : Family ManifestEntry) : (insertUsed now used entries)[action]? = some entry ↔
      (∃ u, (action, u) ∈ used ∧ entry = u.seenAt now) ∨
        (action ∉ used.map Prod.fst ∧ entries[action]? = some entry) := by
  induction used generalizing entries with
  | nil => simp [insertUsed]
  | cons pair used ih =>
    obtain ⟨key, u⟩ := pair
    obtain ⟨hkey, hnodup⟩ := List.nodup_cons.mp hnodup
    have hstep : insertUsed now ((key, u) :: used) entries =
        insertUsed now used (entries.put key (u.seenAt now)) := rfl
    rw [hstep, ih hnodup, Family.get_put]
    by_cases heq : key = action
    · subst heq
      have hnot : ∀ u', (key, u') ∉ used := fun u' hmem => hkey (List.mem_map.mpr ⟨_, hmem, rfl⟩)
      simp only [hnot, false_and, exists_false, false_or, if_true, Option.some.injEq,
        List.mem_cons, Prod.mk.injEq, true_and, or_false, exists_eq_left, List.map_cons,
        true_or, not_true_eq_false, or_false]
      exact ⟨fun h => h.2.symm, fun h => ⟨hkey, h.symm⟩⟩
    · have hne : action ≠ key := Ne.symm heq
      simp [heq, hne]

theorem get_offer : (offer stored used now)[action]? = some entry ↔
    Offered stored used now action entry := by
  rw [offer, get_insertUsed_iff used.nodup, Offered]
  refine or_congr_right (and_congr_right fun _ => ?_)
  rw [retain, eraseWhere_apply]
  cases hget : (storedEntries stored)[action]? with
  | none => simp
  | some entry' =>
    by_cases hage : saturatingSub now entry'.lastSeen ≤ manifestMaxAgeSeconds
    · simp only [Option.any_some, hage, decide_true, Bool.not_true, Bool.false_eq_true, if_false,
        Option.some.injEq]
      exact ⟨fun h => ⟨h, h ▸ hage⟩, fun h => h.1⟩
    · simp only [Option.any_some, hage, decide_false, Bool.not_false, if_true, reduceCtorEq,
        Option.some.injEq, false_iff, not_and]
      exact fun h => h ▸ hage

theorem later_eq (seen : UInt64) (action : Bytes) : Later stored used now seen action =
    ((((byAge (offer stored used now)).filter fun b => compareAge (seen, action) b = .lt).map
      Prod.snd).toFinset : Set Bytes) := by
  ext b
  rw [Finset.mem_coe, List.mem_toFinset, List.mem_map]
  constructor
  · rintro ⟨entry, hentry, hlater⟩
    refine ⟨(entry.lastSeen, b), List.mem_filter.mpr ⟨?_, decide_eq_true hlater⟩, rfl⟩
    exact mem_byAge.mpr ⟨entry, get_offer.mpr hentry, rfl⟩
  · rintro ⟨⟨seen', b⟩, hmem, rfl⟩
    obtain ⟨hpair, hlater⟩ := List.mem_filter.mp hmem
    obtain ⟨entry, hentry, rfl⟩ := mem_byAge.mp hpair
    exact ⟨entry, get_offer.mp hentry, of_decide_eq_true hlater⟩

theorem ncard_later (seen : UInt64) (action : Bytes) : (Later stored used now seen action).ncard =
    (byAge (offer stored used now)).countP fun b => compareAge (seen, action) b = .lt := by
  rw [later_eq, Set.ncard_coe_finset, List.toFinset_card_of_nodup, List.length_map,
    List.countP_eq_length_filter]
  exact nodup_byAge.sublist (List.filter_sublist.map _)

theorem finite_later (seen : UInt64) (action : Bytes) :
    (Later stored used now seen action).Finite := by
  rw [later_eq]
  exact Finset.finite_toSet _

/-- What is kept. -/
theorem get_mergeManifest : (mergeManifest stored used.entries now).entries[action]? = some entry ↔
    Offered stored used now action entry ∧
      (Later stored used now entry.lastSeen action).ncard < manifestMaxEntries := by
  rw [ncard_later, ← get_offer]
  exact get_evict_iff

/-- What is dropped is not more recent than what is kept. -/
theorem le_of_dropped {action' : Bytes} {entry' : ManifestEntry}
    (h : Offered stored used now action entry)
    (hdropped : (mergeManifest stored used.entries now).entries[action]? = none)
    (hkept : (mergeManifest stored used.entries now).entries[action']? = some entry') :
    entry.lastSeen ≤ entry'.lastSeen := by
  by_contra hlt
  have hnot : ¬ (Later stored used now entry.lastSeen action).ncard < manifestMaxEntries := by
    intro hfew
    rw [get_mergeManifest.mpr ⟨h, hfew⟩] at hdropped
    cases hdropped
  have hafter : compareAge (entry'.lastSeen, action') (entry.lastSeen, action) = .lt :=
    compareAge_of_lt (UInt64.not_le.mp hlt)
  have hsubset : Later stored used now entry.lastSeen action ⊆
      Later stored used now entry'.lastSeen action' := by
    rintro b ⟨eb, hb, hlater⟩
    exact ⟨eb, hb, TransCmp.lt_trans hafter hlater⟩
  have hle := Set.ncard_le_ncard hsubset (finite_later _ _)
  exact hnot (hle.trans_lt (get_mergeManifest.mp hkept).2)

/-- A second merge of the same usage at the same time. -/
theorem merge_again : mergeManifest (some (mergeManifest stored used.entries now)) used.entries now =
    mergeManifest stored used.entries now := by
  have hentries : evict manifestMaxEntries
      (offer (some (mergeManifest stored used.entries now)) used now) =
        evict manifestMaxEntries (offer stored used now) := by
    refine evict_of_between ?_ ?_
    · intro action entry hkept
      rw [get_offer]
      rcases (get_mergeManifest.mp hkept).1 with hused | ⟨hnot, -, hage⟩
      · exact .inl hused
      · exact .inr ⟨hnot, hkept, hage⟩
    · intro action entry hentry
      rw [get_offer] at hentry ⊢
      rcases hentry with hused | ⟨-, hkept, -⟩
      · exact .inl hused
      · exact (get_mergeManifest.mp hkept).1
  exact congrArg (Manifest.mk manifestVersion) hentries

theorem get_used {u : UsedEntry} (h : (action, u) ∈ used.entries) :
    (mergeManifest stored used.entries now).entries[action]? = some (u.seenAt now) ↔
      (Later stored used now now action).ncard < manifestMaxEntries := by
  rw [get_mergeManifest]
  exact and_iff_right (.inl ⟨u, h, rfl⟩)

/-- Only what was used now, or seen later elsewhere, comes after an action that was used. -/
theorem ncard_later_lt (hpast : ∀ b entry, b ∉ used.actions →
      (storedEntries stored)[b]? = some entry → entry.lastSeen < now)
    (haction : action ∈ used.actions) :
    (Later stored used now now action).ncard < used.entries.length := by
  have hsubset : Later stored used now now action ⊆ (used.actions.toFinset.erase action : Set Bytes) := by
    rintro b ⟨entry, hentry, hlater⟩
    rcases hentry with ⟨u, hmem, rfl⟩ | ⟨hnot, hget, -⟩
    · have hne : b ≠ action := by
        rintro rfl
        exact asymm_compareAge _ _ hlater hlater
      rw [Finset.mem_coe, Finset.mem_erase, List.mem_toFinset]
      exact ⟨hne, List.mem_map.mpr ⟨_, hmem, rfl⟩⟩
    · have hbefore : compareAge (entry.lastSeen, b) (now, action) = .lt :=
        compareAge_of_lt (hpast b entry hnot hget)
      exact absurd hlater (asymm_compareAge _ _ hbefore)
  have hle := Set.ncard_le_ncard hsubset (Finset.finite_toSet _)
  have hcard : used.actions.toFinset.card = used.entries.length :=
    (List.toFinset_card_of_nodup used.nodup).trans (by simp)
  have herase := Finset.card_erase_lt_of_mem (List.mem_toFinset.mpr haction)
  rw [Set.ncard_coe_finset] at hle
  omega

end

/-- **What a merge keeps**: no more than the cap; only what was used, seen now, or what was stored
for other actions and is no older than two weeks; of what was used, what fewer than the cap come
after, so all of it when the usage is within the cap and nothing else stored was seen now or later;
of what is on offer, the most recent. Merging the same usage again changes nothing. -/
theorem merge_keeps_latest (stored : Option Manifest) (used : Usage) (now : UInt64) :
    (mergeManifest stored used.entries now).entries.size ≤ manifestMaxEntries ∧
    (∀ action entry, (mergeManifest stored used.entries now).entries[action]? = some entry →
      Offered stored used now action entry) ∧
    (∀ action u, (action, u) ∈ used.entries →
      ((mergeManifest stored used.entries now).entries[action]? = some (u.seenAt now) ↔
        (Later stored used now now action).ncard < manifestMaxEntries)) ∧
    (used.entries.length ≤ manifestMaxEntries →
      (∀ action entry, action ∉ used.actions → (storedEntries stored)[action]? = some entry →
        entry.lastSeen < now) →
      ∀ action u, (action, u) ∈ used.entries →
        (mergeManifest stored used.entries now).entries[action]? = some (u.seenAt now)) ∧
    (∀ action entry, Offered stored used now action entry →
      (mergeManifest stored used.entries now).entries[action]? = none →
      ∀ (action' : Bytes) (entry' : ManifestEntry),
        (mergeManifest stored used.entries now).entries[action']? = some entry' →
        entry.lastSeen ≤ entry'.lastSeen) ∧
    mergeManifest (some (mergeManifest stored used.entries now)) used.entries now =
      mergeManifest stored used.entries now := by
  refine ⟨size_evict_le, fun _ _ hget => (get_mergeManifest.mp hget).1, fun _ _ => get_used,
    fun hcard hpast action u hu => ?_, fun _ _ hoffered hdropped _ _ => le_of_dropped hoffered hdropped,
    merge_again⟩
  have haction : action ∈ used.actions := List.mem_map.mpr ⟨(action, u), hu, rfl⟩
  have hlater := ncard_later_lt hpast haction
  exact (get_used hu).mpr (by omega)

/-! ## A clock that is ahead -/

/-- Actions with two-byte names. -/
def numbered (n : Nat) : Bytes := (beDigits 256 2 n).map UInt8.ofNat

theorem numbered_inj {m n : Nat} (hm : m < 2 ^ 16) (hn : n < 2 ^ 16)
    (h : numbered m = numbered n) : m = n :=
  map_ofNat_beDigits_inj (w := 2) hm hn h

/-- Many actions, each used once. -/
def numberedUsage (n : Nat) (hn : n ≤ 2 ^ 16) : Usage where
  entries := (List.range n).map fun i => (numbered i, ⟨[], 1⟩)
  nodup := by
    rw [List.map_map]
    refine List.nodup_range.map_on fun i hi j hj h => ?_
    exact numbered_inj ((List.mem_range.mp hi).trans_le hn) ((List.mem_range.mp hj).trans_le hn) h

theorem length_numberedUsage {n : Nat} (hn : n ≤ 2 ^ 16) :
    (numberedUsage n hn).entries.length = n := by
  simp [numberedUsage]

theorem not_mem_numberedUsage {n : Nat} (hn : n ≤ 2 ^ 16) :
    ([97] : Bytes) ∉ (numberedUsage n hn).actions := by
  intro hmem
  obtain ⟨⟨b, u⟩, hu, hb⟩ := List.mem_map.mp hmem
  obtain ⟨i, -, hi⟩ := List.mem_map.mp hu
  have hname : numbered i = [97] := (congrArg Prod.fst hi).trans hb
  have hlength := congrArg List.length hname
  simp [numbered] at hlength

/-- What a build has left whose clock was a minute ahead. -/
def aheadManifest (used : Usage) : Manifest := ⟨manifestVersion, insertUsed 1060 used.entries ∅⟩

/-- The one action that the next build uses. -/
def oneUsage : Usage := ⟨[([97], ⟨[], 7⟩)], by decide⟩

theorem oneUsage_dropped {full : Usage} (hlength : manifestMaxEntries ≤ full.entries.length)
    (hother : ([97] : Bytes) ∉ full.actions) :
    (mergeManifest (some (aheadManifest full)) oneUsage.entries 1000).entries[([97] : Bytes)]? =
      none := by
  cases hget : (mergeManifest (some (aheadManifest full)) oneUsage.entries
      1000).entries[([97] : Bytes)]? with
  | none => rfl
  | some entry =>
    exfalso
    obtain ⟨hoffered, hfew⟩ := get_mergeManifest.mp hget
    have hseen : entry.lastSeen = 1000 := by
      rcases hoffered with ⟨u, -, rfl⟩ | ⟨hnot, -⟩
      · rfl
      · exact absurd (by decide) hnot
    have hsubset : (full.actions.toFinset : Set Bytes) ⊆
        Later (some (aheadManifest full)) oneUsage 1000 entry.lastSeen [97] := by
      intro b hb
      rw [Finset.mem_coe, List.mem_toFinset] at hb
      obtain ⟨⟨b, u⟩, hu, rfl⟩ := List.mem_map.mp hb
      have hage : saturatingSub 1000 1060 ≤ manifestMaxAgeSeconds := by decide
      refine ⟨u.seenAt 1060, .inr ⟨fun hmem => ?_, ?_, hage⟩, ?_⟩
      · have hname : b = [97] := List.mem_singleton.mp hmem
        rw [hname] at hb
        exact hother hb
      · exact (get_insertUsed_iff full.nodup ∅).mpr (.inl ⟨u, hu, rfl⟩)
      · rw [hseen]
        exact compareAge_of_lt (show (1000 : UInt64) < 1060 by decide)
    have hle := Set.ncard_le_ncard hsubset (finite_later _ _)
    have hcard : full.actions.toFinset.card = full.entries.length :=
      (List.toFinset_card_of_nodup full.nodup).trans (by simp)
    rw [Set.ncard_coe_finset] at hle
    omega

/-- A full manifest from a clock that is ahead keeps the one action of the next build out. -/
theorem used_action_dropped : oneUsage.entries.length ≤ manifestMaxEntries ∧
    (mergeManifest (some (aheadManifest (numberedUsage manifestMaxEntries (by decide))))
      oneUsage.entries 1000).entries[([97] : Bytes)]? = none := by
  exact ⟨by decide, oneUsage_dropped (length_numberedUsage _).ge (not_mem_numberedUsage _)⟩

end Flywheel.Cacheprog
