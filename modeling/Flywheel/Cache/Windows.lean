import Flywheel.Cache.RecentUse
import Flywheel.Lib.Windows

/-!
# The recent-use filters as two windows of marks

The active filter holds the probes of the marks since the last rotation, the other one those of the
marks between the last two (`Simulates`). Which filter is active alternates, so the relation names
them by their part and not by their index. `seen` asks both, and is true exactly when one window
covers all probes of an element.
-/

set_option autoImplicit false

namespace Flywheel

open Lib

namespace RecentUse

variable {words : Nat}

theorem remembered_iff (r : RecentUse words) (seed : UInt64) :
    r.Remembered seed ↔ r.Marked seed r.active ∨ r.Marked seed r.passive := by
  constructor
  · rintro ⟨i, hi⟩
    obtain rfl | rfl := r.eq_active_or_passive i
    · exact .inl hi
    · exact .inr hi
  · rintro (h | h)
    · exact ⟨_, h⟩
    · exact ⟨_, h⟩

section Run

variable (hash : ChannelId → ArtifactId → UInt64)

/-- A mark of an artifact of a channel, or a rotation. -/
def apply (r : RecentUse words) : WindowOp (ChannelId × ArtifactId) → Option (RecentUse words)
  | .mark (c, a) => r.mark (hash c a)
  | .rotate => some r.rotate

def run (r : RecentUse words) (ops : List (WindowOp (ChannelId × ArtifactId))) :
    Option (RecentUse words) := ops.foldlM (apply hash) r

/-- Some mark of the window probes the position. -/
def Covered (words : Nat) (marks : List (ChannelId × ArtifactId)) (p : Nat) : Prop :=
  ∃ mark ∈ marks, p ∈ positions words (hash mark.1 mark.2)

/-- The filters hold the probes of the windows. -/
structure Simulates (r : RecentUse words) (w : Windows (ChannelId × ArtifactId)) : Prop where
  current : ∀ p, Holds (r.filters r.active) p ↔ Covered hash words w.current p
  previous : ∀ p, Holds (r.filters r.passive) p ↔ Covered hash words w.previous p

variable {hash} {r : RecentUse words} {w : Windows (ChannelId × ArtifactId)}

theorem simulates_new : Simulates hash (new words) Windows.empty := by
  have hnone : ∀ p, Holds (Vector.replicate words (0 : UInt64)) p ↔ Covered hash words [] p := by
    intro p
    constructor
    · exact fun h => absurd h (not_holds_replicate words p)
    · rintro ⟨mark, hmark, -⟩
      cases hmark
  exact ⟨hnone, hnone⟩

theorem Simulates.mark (h : Simulates hash r w) (hwords : 0 < words) (c : ChannelId)
    (a : ArtifactId) : ∃ r', r.mark (hash c a) = some r' ∧ Simulates hash r' (w.mark (c, a)) := by
  obtain ⟨r', hmark, hactive, hset, hother⟩ := mark_holds hwords r (hash c a)
  have hpassive : r'.passive = r.passive := congrArg (· + 1) hactive
  refine ⟨r', hmark, ?_, ?_⟩
  · intro p
    rw [hactive, hset, h.current]
    show _ ↔ ∃ mark ∈ (c, a) :: w.current, _
    rw [List.exists_mem_cons_iff]
    exact Iff.rfl
  · intro p
    rw [hpassive, hother]
    exact h.previous p

/-- The filter that becomes active is cleared; the one that was active becomes the other. -/
theorem Simulates.rotate (h : Simulates hash r w) : Simulates hash r.rotate w.rotate := by
  constructor
  · intro p
    show Holds (Function.update r.filters r.passive (Vector.replicate words 0) r.passive) p ↔ _
    rw [Function.update_self]
    exact simulates_new.current p
  · intro p
    have hback : r.rotate.passive = r.active := by
      show r.active + 1 + 1 = r.active
      generalize r.active = i
      revert i
      decide
    rw [hback]
    show Holds (Function.update r.filters r.passive (Vector.replicate words 0) r.active) p ↔ _
    rw [Function.update_of_ne r.active_ne_passive]
    exact h.current p

/-- A run of the filters never fails, and follows the windows. -/
theorem Simulates.run (h : Simulates hash r w) (hwords : 0 < words)
    (ops : List (WindowOp (ChannelId × ArtifactId))) :
    ∃ r', RecentUse.run hash r ops = some r' ∧ Simulates hash r' (w.run ops) := by
  induction ops generalizing r w with
  | nil => exact ⟨r, rfl, h⟩
  | cons op ops ih =>
    cases op with
    | mark x =>
      obtain ⟨r₁, hmark, h₁⟩ := h.mark hwords x.1 x.2
      obtain ⟨r', hrun, h'⟩ := ih h₁
      refine ⟨r', ?_, h'⟩
      rw [RecentUse.run, List.foldlM_cons]
      show r.mark (hash x.1 x.2) >>= _ = _
      rw [hmark]
      exact hrun
    | rotate => exact ih h.rotate

theorem Simulates.seen (h : Simulates hash r w) (hwords : 0 < words) (c : ChannelId)
    (a : ArtifactId) : ∃ b, r.seen (hash c a) = some b ∧
      (b = true ↔ (∀ p ∈ positions words (hash c a), Covered hash words w.current p) ∨
        ∀ p ∈ positions words (hash c a), Covered hash words w.previous p) := by
  obtain ⟨b, hseen, hb⟩ := seen_eq hwords r (hash c a)
  refine ⟨b, hseen, ?_⟩
  rw [hb, remembered_iff]
  unfold Marked
  simp only [h.current, h.previous]

theorem covered_of_mem {marks : List (ChannelId × ArtifactId)} {c : ChannelId} {a : ArtifactId}
    (h : (c, a) ∈ marks) : ∀ p ∈ positions words (hash c a), Covered hash words marks p :=
  fun _ hp => ⟨(c, a), h, hp⟩

/-- **The filters are two windows of marks**: no probe falls outside the words; `seen` is true
exactly when the marks since the last rotation, or those between the last two, cover all four
probes. So a mark is seen up to the second rotation after it, and from then on the filters answer
as if it had not been made. -/
theorem refines_windows (hash : ChannelId → ArtifactId → UInt64) {bits : Nat} (hbits : 1 ≤ bits)
    (ops : List (WindowOp (ChannelId × ArtifactId))) :
    ∃ r, run hash (new (wordsFor bits)) ops = some r ∧
      (∀ seed, (positions (wordsFor bits) seed).length = 4 ∧
        ∀ p ∈ positions (wordsFor bits) seed, p / 64 < wordsFor bits) ∧
      (∀ c a, ∃ b, r.seen (hash c a) = some b ∧
        (b = true ↔
          (∀ p ∈ positions (wordsFor bits) (hash c a),
            Covered hash (wordsFor bits) (Windows.empty.run ops).current p) ∨
          ∀ p ∈ positions (wordsFor bits) (hash c a),
            Covered hash (wordsFor bits) (Windows.empty.run ops).previous p)) ∧
      ∀ before c a after, ops = before ++ .mark (c, a) :: after →
        (Windows.rotations after ≤ 1 → r.seen (hash c a) = some true) ∧
        (2 ≤ Windows.rotations after →
          ∃ r', run hash (new (wordsFor bits)) (before ++ after) = some r' ∧
            ∀ c' a', r.seen (hash c' a') = r'.seen (hash c' a')) := by
  have hwords : 0 < wordsFor bits := wordsFor_pos hbits
  have hnew : Simulates hash (new (wordsFor bits)) Windows.empty := simulates_new
  obtain ⟨r, hrun, h⟩ := hnew.run hwords ops
  refine ⟨r, hrun, fun seed => ⟨by simp [positions, probes], fun p hp => ?_⟩,
    fun c a => h.seen hwords c a, ?_⟩
  · exact Nat.div_lt_of_lt_mul (Nat.mul_comm 64 _ ▸ positions_lt hwords seed p hp)
  · rintro before c a after rfl
    rw [Windows.run_append] at h
    obtain ⟨b, hseen, hb⟩ := h.seen hwords c a
    constructor
    · intro hfew
      have hmem : (c, a) ∈ ((Windows.empty.run before).mark (c, a)).current := List.mem_cons_self
      obtain ⟨hcurrent, hprevious⟩ := Windows.mem_run_of_mem after hmem
      have hcovered : b = true := by
        rw [hb]
        rcases Nat.le_one_iff_eq_zero_or_eq_one.mp hfew with hnone | hone
        · exact .inl (covered_of_mem (hcurrent hnone))
        · exact .inr (covered_of_mem (hprevious hone))
      rw [hseen, hcovered]
    · intro hmany
      obtain ⟨r', hrun', h'⟩ := hnew.run hwords (before ++ after)
      refine ⟨r', hrun', fun c' a' => ?_⟩
      -- the windows are the same, so the answers are
      have hwindows : ((Windows.empty.run before).mark (c, a)).run after =
          Windows.empty.run (before ++ after) := by
        rw [Windows.run_append]
        exact Windows.run_eq_of_two hmany
      obtain ⟨d, hd, hiff⟩ := h.seen hwords c' a'
      obtain ⟨d', hd', hiff'⟩ := h'.seen hwords c' a'
      rw [← hwindows] at hiff'
      rw [hd, hd', Bool.eq_iff_iff.mpr (hiff.trans hiff'.symm)]

/-- A filter of one bit is rounded up to a word; the mark of one artifact is seen after one
rotation, and after two the filters are as without it. -/
theorem one_bit_windows :
    ∃ r, run (fun _ _ => 0x500000003) (new (wordsFor 1))
        [.mark (.default, Maintenance.onlyArtifact), .rotate] = some r ∧
      r.seen 0x500000003 = some true := by
  have hone : 1 ≤ 1 := by decide
  obtain ⟨r, hrun, -, -, hvisible⟩ := refines_windows (fun _ _ => 0x500000003) hone
    [.mark (.default, Maintenance.onlyArtifact), .rotate]
  exact ⟨r, hrun, (hvisible [] .default Maintenance.onlyArtifact [.rotate] rfl).1 (by decide)⟩

end Run

end RecentUse

end Flywheel
