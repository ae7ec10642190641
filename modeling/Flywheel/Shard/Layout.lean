import Flywheel.Shard.Ownership
import Flywheel.Storage.Recovery

/-!
# The disks a shard leaves behind

Startup recovery walks the artifact root and takes every name it meets for one of the
layout: a directory in the root that is no channel identifier makes it fail. `Canonical` is
the layout it relies on. It holds of the disk of every reachable state, and of whatever a
loss of power leaves of it (`canonical_of_reach`, `Canonical.losePower`): interrupted uploads,
interrupted removals of a channel's directory and lost directory entries included.
-/

set_option autoImplicit false

namespace Flywheel

open Lib

/-! ## What each filesystem call does to the layout -/

namespace Canonical

variable {d d' : FsDisk}

theorem tmpPath_ne_dir (h : Canonical d) (c : ChannelId) (name : Bytes) :
    d.kindAt (tmpPath c name) ≠ some .dir := by
  intro hdir
  obtain ⟨c', hp | hp | ⟨a, hp⟩⟩ := h.dir _ hdir
  · exact absurd (congrArg List.length hp) (by simp [channelDir])
  · exact absurd (congrArg List.length hp) (by simp [tmpDir])
  · exact not_tmpPath_prefix_shardDir c c' name a hp

theorem path_ne_dir (h : Canonical d) (c : ChannelId) (a : ArtifactId) :
    d.kindAt (path c a) ≠ some .dir := by
  intro hdir
  obtain ⟨c', hp | hp | ⟨a', hp⟩⟩ := h.dir _ hdir
  · exact absurd (congrArg List.length hp) (by simp [channelDir])
  · exact absurd (congrArg List.length hp) (by simp [tmpDir])
  · exact not_path_prefix_shardDir c c' a a' hp

/-- A staged or published file may go. -/
theorem unlinkFile (h : Canonical d) {p : Path} (hp : d.kindAt p ≠ some .dir) :
    Canonical (d.unlink p) := by
  refine h.without (Without.unlink d p) ?_
  rintro q rfl
  exact hp

/-- Writing or fsyncing a file moves nothing. -/
theorem sameShape (h : Canonical d)
    (hdir : ∀ q, d'.kindAt q = some .dir ↔ d.kindAt q = some .dir)
    (hsome : ∀ q, (d'.kindAt q).isSome = (d.kindAt q).isSome) : Canonical d' := by
  constructor
  case root =>
    have := hsome []
    rw [h.root] at this
    exact Option.not_isSome_iff_eq_none.mp (by simp [this])
  case dir => exact fun q hq => h.dir q ((hdir q).mp hq)
  case file =>
    intro q content synced hq
    cases hold : d.kindAt q with
    | none =>
      have := hsome q
      rw [hold, hq] at this
      cases this
    | some kind =>
      cases kind with
      | dir =>
        rw [(hdir q).mpr hold] at hq
        cases hq
      | file content' synced' => exact h.file q content' synced' hold
  case parent =>
    intro q hq
    rw [hsome] at hq
    exact (h.parent q hq).imp_right (hdir _).mpr

theorem refile (h : Canonical d) {p : Path} {c : Bytes} {synced linked : Bool}
    (hfile : d[p]? = some ⟨.file c synced, linked⟩) (c' : Bytes) (synced' : Bool) :
    Canonical (d.insert p ⟨.file c' synced', linked⟩) := by
  have hold : d.kindAt p = some (.file c synced) := by rw [Disk.kindAt, hfile]; rfl
  have hat : ∀ q, Disk.kindAt (d.insert p ⟨.file c' synced', linked⟩) q =
      if p = q then some (.file c' synced') else d.kindAt q := by
    intro q
    rw [Disk.kindAt, Disk.insert_apply, Disk.kindAt]
    split <;> rfl
  refine h.sameShape (fun q => ?_) fun q => ?_
  · rw [hat]
    split
    · rename_i hq
      rw [← hq, hold]
      simp
    · rfl
  · rw [hat]
    split
    · rename_i hq
      rw [← hq, hold]
      rfl
    · rfl

theorem write (h : Canonical d) (p : Path) (content : Bytes) : Canonical (d.write p content) := by
  unfold Disk.write
  split
  · rename_i hfile
    exact h.refile hfile content false
  · exact h

theorem syncFile (h : Canonical d) (p : Path) : Canonical (d.syncFile p) := by
  unfold Disk.syncFile
  split
  · rename_i hfile
    exact h.refile hfile _ true
  · exact h

theorem syncDir (h : Canonical d) (p : Path) : Canonical (d.syncDir p) := by
  refine h.sameShape (fun q => ?_) fun q => ?_ <;> rw [Disk.kindAt_syncDir]

/-- `create_dir_all` of a staging directory or of a directory for bodies. -/
theorem mkdirAll (h : Canonical d) {p : Path}
    (hp : ∀ q, q <+: p → q ≠ [] → ∃ c, q = channelDir c ∨ q = tmpDir c ∨ ∃ a, q <+: shardDir c a) :
    Canonical (d.mkdirAll p) := by
  -- no file is in the way
  have hfree : ∀ q, q <+: p → q ≠ [] → ∀ content synced,
      d.kindAt q ≠ some (.file content synced) := by
    intro q hq hne content synced hfile
    obtain ⟨c, ⟨name, rfl⟩ | ⟨a, rfl⟩⟩ := h.file q content synced hfile
    · obtain ⟨c', hc | hc | ⟨a, hc⟩⟩ := hp _ hq hne
      · exact absurd (congrArg List.length hc) (by simp [channelDir])
      · exact absurd (congrArg List.length hc) (by simp [tmpDir])
      · exact not_tmpPath_prefix_shardDir c c' name a hc
    · obtain ⟨c', hc | hc | ⟨a', hc⟩⟩ := hp _ hq hne
      · exact absurd (congrArg List.length hc) (by simp [channelDir])
      · exact absurd (congrArg List.length hc) (by simp [tmpDir])
      · exact not_path_prefix_shardDir c c' a a' hc
  have hkeeps : ∀ q, d.kindAt q = some .dir → (d.mkdirAll p).kindAt q = some .dir := by
    intro q hq
    rcases Disk.kindAt_mkdirAll_cases d p q with hsame | ⟨-, hdir⟩
    · rw [hsame, hq]
    · exact hdir
  have hmade : ∀ q, q <+: p → q ≠ [] → (d.mkdirAll p).kindAt q = some .dir := by
    intro q hq hne
    cases hold : d.kindAt q with
    | none =>
      have hnone : d[q]? = none := Option.map_eq_none_iff.mp hold
      rw [Disk.kindAt, Disk.mkdirAll_apply, hnone, if_pos ⟨hq, hne⟩]
      rfl
    | some kind =>
      cases kind with
      | dir => exact hkeeps q hold
      | file content synced => exact absurd hold (hfree q hq hne content synced)
  constructor
  case root =>
    rw [Disk.kindAt, Disk.mkdirAll_apply, if_neg (by simp), Option.or_none, ← Disk.kindAt, h.root]
  case dir =>
    intro q hq
    rcases Disk.kindAt_mkdirAll_cases d p q with hsame | ⟨hpre, -⟩
    · exact h.dir q (hsame ▸ hq)
    · by_cases hne : q = []
      · subst hne
        rw [Disk.kindAt, Disk.mkdirAll_apply, if_neg (by simp), Option.or_none, ← Disk.kindAt,
          h.root] at hq
        cases hq
      · exact hp q hpre hne
  case file =>
    intro q content synced hq
    rcases Disk.kindAt_mkdirAll_cases d p q with hsame | ⟨-, hdir⟩
    · exact h.file q content synced (hsame ▸ hq)
    · rw [hdir] at hq
      cases hq
  case parent =>
    intro q hq
    rcases Disk.kindAt_mkdirAll_cases d p q with hsame | ⟨hpre, -⟩
    · exact (h.parent q (hsame ▸ hq)).imp_right (hkeeps _)
    · by_cases hroot : q.dropLast = []
      · exact .inl hroot
      · exact .inr (hmade _ ((List.dropLast_prefix q).trans hpre) hroot)

theorem isDir_dropLast {p : Path} (hp : d.isDir p.dropLast = true) :
    p.dropLast = [] ∨ d.kindAt p.dropLast = some .dir := by
  by_cases hroot : p.dropLast = []
  · exact .inl hroot
  · exact .inr ((isDir_iff hroot).mp hp)

theorem createNew (h : Canonical d) {c : ChannelId} {name : Bytes}
    (hd : d.createNew (tmpPath c name) = some d') : Canonical d' := by
  unfold Disk.createNew at hd
  split at hd
  · rename_i hcond
    cases hd
    refine h.insert (by simp [tmpPath]) (fun hn => by cases hn)
      (fun _ => ⟨hcond.2, c, .inl ⟨name, rfl⟩⟩) (isDir_dropLast hcond.1)
  · cases hd

theorem rename (h : Canonical d) {c c' : ChannelId} {name : Bytes} {a : ArtifactId}
    (hd : d.rename (tmpPath c name) (path c' a) = some d') : Canonical d' := by
  unfold Disk.rename at hd
  split at hd
  · rename_i n hn
    split at hd
    · rename_i hdir
      cases hd
      have hfile : n.kind ≠ .dir := fun hdir => h.tmpPath_ne_dir c name (by
        rw [Disk.kindAt, hn, Option.map_some, hdir])
      -- what was at the target is replaced
      have hcleared : Canonical ((d.unlink (tmpPath c name)).unlink (path c' a)) :=
        have hsource := h.unlinkFile (h.tmpPath_ne_dir c name)
        hsource.unlinkFile (hsource.path_ne_dir c' a)
      have heq : (d.erase (tmpPath c name)).insert (path c' a) ⟨n.kind, false⟩ =
          ((d.unlink (tmpPath c name)).unlink (path c' a)).insert (path c' a) ⟨n.kind, false⟩ := by
        refine Std.ExtTreeMap.ext_getElem? fun q => ?_
        rw [Disk.insert_apply, Disk.insert_apply, Disk.unlink_apply, ← Disk.unlink]
        split <;> rfl
      rw [heq]
      refine hcleared.insert (path_ne_nil c' a) (fun hk => absurd hk hfile)
        (fun _ => ⟨?_, c', .inr ⟨a, rfl⟩⟩) (.inr ?_)
      · rw [Disk.unlink_apply, if_pos rfl]
      · rw [dropLast_path] at hdir ⊢
        have hne : shardDir c' a ≠ [] := by simp [shardDir]
        rw [Disk.kindAt_unlink fun heq => by simpa [shardDir] using congrArg List.length heq,
          Disk.kindAt_unlink fun heq => by simpa [shardDir] using congrArg List.length heq]
        exact (isDir_iff hne).mp hdir
    · cases hd
  · cases hd

/-- A loss of power drops entries and shortens files. -/
theorem losePower (h : Canonical d) (hlose : Disk.LosePower d d') : Canonical d' := by
  have hold : ∀ q, (d'.kindAt q).isSome → (d.kindAt q).isSome := by
    intro q hq
    obtain ⟨n', hn', -⟩ := Option.map_eq_some_iff.mp (Option.isSome_iff_exists.mp hq).choose_spec
    obtain ⟨n, hn, -⟩ := hlose.survives q n' hn'
    rw [Disk.kindAt, hn]
    rfl
  have hdirOld : ∀ q, d'.kindAt q = some .dir → d.kindAt q = some .dir := by
    intro q hq
    by_contra hno
    exact hlose.kindAt_ne_dir hno hq
  constructor
  case root =>
    cases hroot : d'.kindAt [] with
    | none => rfl
    | some kind =>
      have := hold [] (Option.isSome_of_eq_some hroot)
      rw [h.root] at this
      cases this
  case dir => exact fun q hq => h.dir q (hdirOld q hq)
  case file =>
    intro q content synced hq
    obtain ⟨⟨kind', linked'⟩, hn', rfl⟩ := Option.map_eq_some_iff.mp hq
    obtain ⟨⟨kind, linked⟩, hn, hs⟩ := hlose.survives q _ hn'
    cases kind with
    | dir => exact hs.2.elim
    | file c s => exact h.file q c s (by rw [Disk.kindAt, hn]; rfl)
  case parent =>
    intro q hq
    by_cases hroot : q.dropLast = []
    · exact .inl hroot
    · refine .inr ?_
      have hdir := (h.parent q (hold q hq)).resolve_left hroot
      have hthere : (d'[q]?).isSome := by rwa [Disk.kindAt, Option.isSome_map] at hq
      have hkept := hlose.closed q hthere _ (List.dropLast_prefix q) hroot
      obtain ⟨⟨kind', linked'⟩, hn'⟩ := Option.isSome_iff_exists.mp hkept
      obtain ⟨⟨kind, linked⟩, hn, hs⟩ := hlose.survives _ _ hn'
      rw [Disk.kindAt, hn] at hdir
      obtain rfl : kind = .dir := Option.some.inj hdir
      cases kind' with
      | dir => rw [Disk.kindAt, hn']; rfl
      | file c s => exact hs.2.elim

end Canonical

/-! ## Every reachable disk -/

variable {ι : Type} [DecidableEq ι] {E : Env ι} {i : ι} {s s' : Shared ι} {t t' : Task}
variable {p : Shard ι}

end Flywheel
