import Flywheel.Shard.Tasks
import Flywheel.Storage.Staging

/-!
# Publishing an upload (`CacheService::publish`, `src/cache/service.rs`)

An upload is staged, fenced against a deletion of its channel, renamed to its final path and
recorded. Whatever fails hands the reservation and the temporary file to one `discard`.

Gates and stripes are left out: a single call only ever waits for them. The store may fail the two
calls that are made of it (`Outage`).
-/

set_option autoImplicit false

namespace Flywheel

open Lib

/-- `impl Reserver for SpaceLedger`. -/
def SpaceLedger.reserver (policy : SpacePolicy) : Reserver SpaceLedger.State :=
  ⟨SpaceLedger.tryReserve policy, SpaceLedger.release, SpaceLedger.commit⟩

/-! ## The rename -/

namespace ArtifactFiles

variable {ρ : Type} (R : Reserver ρ) (io : Io) (upload : Upload)

def renameFile (src p : Path) (disk : FsDisk) : Except IoErrorKind FsDisk :=
  match disk.rename src p with
  | some disk => .ok disk
  | none => .error .notFound

/-- `tokio::fs::rename`; `false` is `AlreadyExists`. -/
def renameStaged (artifact : ArtifactId) : Staging ρ Bool :=
  tryCatch (do
    call io (renameFile upload.part (path upload.channel artifact))
    return true) fun error =>
      if error = .io .alreadyExists then return false else throw error

/-- The body is there already: the staged one goes. -/
def removeStaged : Staging ρ Bool := do
  call io (removeFile · upload.part)
  mark .vacant
  return false

/-- `mark_published`. -/
def markPublished : Staging ρ Unit := do
  mark .published
  modify fun w => { w with renamed := true }

/-- `publish_reserved`. -/
def publishReserved (artifact : ArtifactId) (digest : Digest) : Staging ρ Bool :=
  if digest ≠ artifact.digest then throw .digestMismatch
  else do
    call io fun disk => .ok (disk.mkdirAll (shardDir upload.channel artifact))
    if ← query io fun disk => (disk.kindAt (path upload.channel artifact)).isSome then
      removeStaged io upload
    else if ← renameStaged io upload artifact then
      markPublished
      if upload.durability = .durable then
        call io fun disk => .ok (disk.syncDir (shardDir upload.channel artifact))
      return true
    else removeStaged io upload

/-- `publish`; whether the body was installed by this call. -/
def publish (artifact : ArtifactId) (staged : StagedArtifact) : Staging ρ Bool :=
  tryCatch (publishReserved io upload artifact staged.digest) fun error => do
    discard R io upload
    throw error

end ArtifactFiles

/-! ## What an upload holds -/

namespace ArtifactFiles

theorem path_ne_part {upload : Upload} {c : ChannelId} {a : ArtifactId} :
    path c a ≠ upload.part :=
  path_ne_tmpPath _ _ _ _

theorem part_not_prefix_tmpDir {upload : Upload} {c : ChannelId} :
    ¬ upload.part <+: tmpDir c :=
  not_tmpPath_prefix_tmpDir _ _ _

section Held

variable {policy : SpacePolicy} {enc : Encoder} {io : Io} {extent : Extent} {upload : Upload}
  {w₀ w w' : World SpaceLedger.State}

/-- Before the rename, an upload has changed the ledger by what it holds, and no final file. -/
structure Held (upload : Upload) (w₀ w : World SpaceLedger.State) : Prop where
  ledger : w.ledger = { w₀.ledger with reserved := w.ledger.reserved }
  reserved : w.ledger.reserved.toNat = w₀.ledger.reserved.toNat + w.reservation.outstanding.toNat
  final : ∀ c a, w.disk.kindAt (path c a) = w₀.disk.kindAt (path c a)
  vacant : w.reservation.state = .vacant → w₀.disk.kindAt upload.part = none →
    w.disk.kindAt upload.part = none
  state : w.reservation.state ≠ .published
  renamed : w.renamed = false

/-- The temporary file is the reservation's. -/
def Armed (upload : Upload) (w₀ w : World SpaceLedger.State) : Prop :=
  Held upload w₀ w ∧ w.reservation.state = .temporary

/-- Nothing is left of the upload. -/
structure Settled (upload : Upload) (w₀ w : World SpaceLedger.State) : Prop where
  ledger : w.ledger = w₀.ledger
  final : ∀ c a, w.disk.kindAt (path c a) = w₀.disk.kindAt (path c a)
  part : w₀.disk.kindAt upload.part = none → w.disk.kindAt upload.part = none

/-- The temporary file was removed, or was not there. -/
def Cleaned (w : World SpaceLedger.State) : Prop :=
  ∀ error, w.removal = some (.error error) → error = .io .notFound

theorem Held.congr (h : Held upload w₀ w) (hledger : w'.ledger = w.ledger)
    (hreservation : w'.reservation = w.reservation) (hrenamed : w'.renamed = w.renamed)
    (hfinal : ∀ c a, w'.disk.kindAt (path c a) = w.disk.kindAt (path c a))
    (hpart : w.reservation.state = .vacant → w.disk.kindAt upload.part = none →
      w'.disk.kindAt upload.part = none) : Held upload w₀ w' where
  ledger := by rw [hledger]; exact h.ledger
  reserved := by rw [hledger, hreservation]; exact h.reserved
  final c a := (hfinal c a).trans (h.final c a)
  vacant hstate hfresh := by
    rw [hreservation] at hstate
    exact hpart hstate (h.vacant hstate hfresh)
  state := by rw [hreservation]; exact h.state
  renamed := hrenamed.trans h.renamed

/-- While the temporary file is the upload's, only the final files have to stay. -/
theorem Armed.congr (h : Armed upload w₀ w) (hledger : w'.ledger = w.ledger)
    (hreservation : w'.reservation = w.reservation) (hrenamed : w'.renamed = w.renamed)
    (hfinal : ∀ c a, w'.disk.kindAt (path c a) = w.disk.kindAt (path c a)) :
    Armed upload w₀ w' := by
  refine ⟨h.1.congr hledger hreservation hrenamed hfinal fun hvacant => ?_, ?_⟩
  · rw [h.2] at hvacant
    cases hvacant
  · rw [hreservation]
    exact h.2

/-- What the ledger admits, the reservation holds: neither counter saturates. -/
theorem reserve_held (h : Held upload w₀ w) (bytes : UInt64) :
    Held upload w₀ (reserve (SpaceLedger.reserver policy) bytes w).2 := by
  have houtstanding := w.reservation.toNat_add bytes
  have hlt := w.reservation.outstanding.toNat_lt
  by_cases hzero : bytes = 0
  · have hsame : (w.reservation.add bytes).outstanding = w.reservation.outstanding := by
      rw [hzero] at houtstanding ⊢
      change _ = min (_ + 0) _ at houtstanding
      exact UInt64.toNat_inj.mp (by omega)
    rw [reserve, if_pos hzero]
    exact ⟨h.ledger, by rw [hsame]; exact h.reserved, h.final, h.vacant, h.state, h.renamed⟩
  · rw [reserve, if_neg hzero]
    rcases SpaceLedger.tryReserve_cases policy w.ledger bytes with hrefused | ⟨-, hroom, hadmitted⟩
    · simp only [SpaceLedger.reserver, hrefused]
      exact ⟨h.ledger, h.reserved, h.final, h.vacant, h.state, h.renamed⟩
    · simp only [SpaceLedger.reserver, hadmitted]
      have hreserved := SpaceLedger.toNat_reserve hroom
      have hsmall := (saturatingAdd w.ledger.reserved bytes).toNat_lt
      have hheld := h.reserved
      refine ⟨?_, ?_, h.final, h.vacant, h.state, h.renamed⟩
      · exact congrArg (fun ledger : SpaceLedger.State =>
          { ledger with reserved := saturatingAdd w.ledger.reserved bytes }) h.ledger
      · show (saturatingAdd w.ledger.reserved bytes).toNat =
          _ + (w.reservation.add bytes).outstanding.toNat
        omega

theorem reserve_armed (h : Armed upload w₀ w) (bytes : UInt64) :
    Armed upload w₀ (reserve (SpaceLedger.reserver policy) bytes w).2 := by
  refine ⟨reserve_held h.1 bytes, ?_⟩
  obtain ⟨ledger, outstanding, hw'⟩ := @reserve_extended _ (SpaceLedger.reserver policy) bytes w
  rw [hw']
  exact h.2

/-- The inner loop holds what it takes. -/
theorem extendTo_armed (len : UInt64) (h : Armed upload w₀ w) :
    Armed upload w₀ (finalState (extendTo (SpaceLedger.reserver policy) extent len w)) := by
  induction w using extendTo.induct (SpaceLedger.reserver policy) extent len with
  | case1 w hlen hreserved ih =>
    rw [extendTo, dif_pos hlen, dif_pos hreserved]
    exact ih (reserve_armed h _)
  | case2 w hlen hrefused =>
    rw [extendTo, dif_pos hlen, dif_neg hrefused]
    exact reserve_armed h _
  | case3 w hlen =>
    rw [extendTo, dif_neg hlen]
    exact h

/-! ### Staging -/

/-- A call that leaves the final files alone. -/
theorem call_armed {f : FsDisk → Except IoErrorKind FsDisk}
    (hf : ∀ disk disk', f disk = .ok disk' →
      ∀ c a, disk'.kindAt (path c a) = disk.kindAt (path c a)) :
    Always (Armed upload w₀) (call io f) (Armed upload w₀) := by
  intro w hw
  have hcall := @call_spec _ io f w
  cases hrun : call io f w with
  | ok _ w' =>
    rw [hrun] at hcall
    obtain ⟨disk, hdisk, rfl⟩ := hcall
    exact hw.congr rfl rfl rfl (hf _ _ hdisk)
  | error e w' =>
    rw [hrun] at hcall
    obtain ⟨-, rfl⟩ := hcall
    exact hw.congr rfl rfl rfl fun _ _ => rfl

theorem query_armed {α : Type} (f : FsDisk → α) :
    Always (Armed upload w₀) (query io f) (Armed upload w₀) := by
  intro w hw
  cases hio : io w.calls with
  | some fault =>
    have hquery : query io f w = .error (.io fault.kind) { w with calls := w.calls + 1 } := by
      rw [query, hio]
    rw [hquery]
    exact hw.congr rfl rfl rfl fun _ _ => rfl
  | none =>
    have hquery : query io f w = .ok (f w.disk) { w with calls := w.calls + 1 } := by
      rw [query, hio]
    rw [hquery]
    exact hw.congr rfl rfl rfl fun _ _ => rfl

theorem writeAll_armed (chunks : List Bytes) (chunk : Bytes) :
    Always (Armed upload w₀) (writeAll enc io upload chunks chunk) (Armed upload w₀) := by
  intro w hw
  cases hio : io w.calls with
  | some fault =>
    have hwrite : ∃ left, writeAll enc io upload chunks chunk w = .error (.io fault.kind) { w with
        calls := w.calls + 1
        writes := w.writes ++ [Write.mk (enc.written upload.encoding (chunks ++ [chunk])).length
          w.reservation.outstanding]
        disk := w.disk.write upload.part left } := by
      rw [writeAll]
      simp only [hio]
      exact ⟨_, rfl⟩
    obtain ⟨left, hwrite⟩ := hwrite
    rw [hwrite]
    exact hw.congr rfl rfl rfl fun c a => Disk.kindAt_write path_ne_part _
  | none =>
    have hwrite : ∃ content, writeAll enc io upload chunks chunk w = .ok () { w with
        calls := w.calls + 1
        writes := w.writes ++ [Write.mk (enc.written upload.encoding (chunks ++ [chunk])).length
          w.reservation.outstanding]
        disk := w.disk.write upload.part content } := by
      rw [writeAll]
      simp only [hio]
      exact ⟨_, rfl⟩
    obtain ⟨content, hwrite⟩ := hwrite
    rw [hwrite]
    exact hw.congr rfl rfl rfl fun c a => Disk.kindAt_write path_ne_part _

theorem stageChunk_armed (item : Item) (l : Local) :
    Always (Armed upload w₀)
      (stageChunk (SpaceLedger.reserver policy) enc io extent upload item l)
      (Armed upload w₀) := by
  cases item with
  | error message => exact Triple.throw fun _ => id
  | ok chunk =>
    refine Triple.ite (fun _ => Triple.throw fun _ => id) fun _ => ?_
    refine Triple.ite (fun _ => Triple.throw fun _ => id) fun _ => ?_
    refine Triple.bind (Q := fun _ => Armed upload w₀) (fun w hw => ?_) fun _ =>
      Triple.bind (writeAll_armed l.chunks chunk) fun _ => Triple.pure fun _ => id
    have hextended := @extendTo_armed policy extent upload w₀ w
      (l.len + UInt64.ofNat chunk.length) hw
    cases hrun : extendTo (SpaceLedger.reserver policy) extent
        (l.len + UInt64.ofNat chunk.length) w with
    | ok _ w' =>
      rw [hrun] at hextended
      exact hextended
    | error e w' =>
      rw [hrun] at hextended
      exact hextended

theorem poll_armed : Always (Armed upload w₀) poll (Armed upload w₀) :=
  fun _ hw => hw.congr rfl rfl rfl fun _ _ => rfl

theorem stageLoop_armed (items : List Item) (l : Local) :
    Always (Armed upload w₀)
      (stageLoop (SpaceLedger.reserver policy) enc io extent upload items l)
      (Armed upload w₀) := by
  induction items generalizing l with
  | nil => exact Triple.bind poll_armed fun _ => Triple.pure fun _ => id
  | cons item rest ih =>
    exact Triple.bind poll_armed fun _ => Triple.bind (stageChunk_armed item l) fun l' => ih l'

theorem topUp_armed (stored : UInt64) :
    Always (Armed upload w₀) (topUp (SpaceLedger.reserver policy) stored) (Armed upload w₀) := by
  intro w hw
  unfold topUp
  by_cases hcovered : stored ≤ w.reservation.outstanding
  · rw [if_pos hcovered]
    exact hw
  · rw [if_neg hcovered]
    have hreserved := @reserve_armed policy upload w₀ w hw (stored - w.reservation.outstanding)
    generalize reserve (SpaceLedger.reserver policy) (stored - w.reservation.outstanding) w =
      reserved at hreserved
    obtain ⟨admitted, w'⟩ := reserved
    cases admitted <;> exact hreserved

theorem complete_armed (l : Local) :
    Always (Armed upload w₀) (complete (SpaceLedger.reserver policy) enc io upload l)
      (Armed upload w₀) := by
  refine Triple.bind (Q := fun _ => Armed upload w₀) (call_armed fun disk disk' hdisk c a => ?_)
    fun _ => Triple.bind (Q := fun _ => Armed upload w₀) ?_
      fun stored => Triple.bind (topUp_armed stored) fun _ => ?_
  · dsimp only at hdisk
    split at hdisk
    · cases hdisk
    · cases hdisk
      exact Disk.kindAt_write path_ne_part _
  · unfold storedLen
    cases upload.encoding with
    | identity => exact Triple.pure fun _ => id
    | zstd => exact query_armed _
  · have hdone : ∀ staged : StagedArtifact, Always (Armed upload w₀)
        (pure staged : Staging SpaceLedger.State StagedArtifact) (Armed upload w₀) :=
      fun staged => Triple.pure fun _ => id
    split
    · refine Triple.bind (call_armed fun disk disk' hdisk c a => ?_) fun _ => hdone _
      cases hdisk
      exact Disk.kindAt_syncFile path_ne_part
    · exact hdone _

/-- The path of the temporary file is the reservation's before the file is made. -/
theorem openPart_armed :
    Triple (fun w => Held upload w₀ w ∧ w.reservation.state = .vacant) (openPart io upload)
      (fun _ => Armed upload w₀) (fun _ => Held upload w₀) := by
  refine Triple.bind (Q := fun _ => Held upload w₀) ?_ fun _ => Triple.bind
    (Q := fun _ => Armed upload w₀) ?_ fun _ => Triple.conseq (call_armed ?_) (fun _ => id)
      (fun _ _ => id) fun _ _ h => h.1
  · rintro w ⟨hw, -⟩
    have hcall := @call_spec _ io (fun disk => .ok (disk.mkdirAll (tmpDir upload.channel))) w
    cases hrun : call io (fun disk => .ok (disk.mkdirAll (tmpDir upload.channel))) w with
    | ok _ w' =>
      rw [hrun] at hcall
      obtain ⟨disk, hdisk, rfl⟩ := hcall
      cases hdisk
      refine hw.congr rfl rfl rfl (fun c a => Disk.kindAt_mkdirAll (by simp)) fun _ hnone => ?_
      exact (Disk.kindAt_mkdirAll part_not_prefix_tmpDir).trans hnone
    | error e w' =>
      rw [hrun] at hcall
      obtain ⟨-, rfl⟩ := hcall
      exact hw.congr rfl rfl rfl (fun _ _ => rfl) fun _ => id
  · intro w hw
    exact ⟨⟨hw.ledger, hw.reserved, hw.final, nofun, nofun, hw.renamed⟩, rfl⟩
  · intro disk disk' hdisk c a
    rw [openNew] at hdisk
    split at hdisk
    · rename_i hnew
      cases hdisk
      exact Disk.kindAt_createNew hnew path_ne_part
    · split at hdisk <;> cases hdisk

theorem stageReserved_armed (stream : List Item) :
    Triple (fun w => Held upload w₀ w ∧ w.reservation.state = .vacant)
      (stageReserved (SpaceLedger.reserver policy) enc io extent upload stream)
      (fun _ => Armed upload w₀) (fun _ => Held upload w₀) := by
  refine Triple.bind openPart_armed fun _ => ?_
  refine Triple.conseq (P := Armed upload w₀) (Q := fun _ => Armed upload w₀)
    (E := fun _ => Armed upload w₀) ?_ (fun _ => id) (fun _ _ => id) fun _ _ h => h.1
  exact Triple.bind (stageLoop_armed stream _) fun l => complete_armed l

/-! ### The rename -/

theorem removeFile_ok {disk disk' : FsDisk} {p : Path} (h : removeFile disk p = .ok disk') :
    disk' = disk.unlink p := by
  unfold removeFile at h
  split at h <;> cases h
  rfl

theorem removeFile_notFound {disk : FsDisk} {p : Path}
    (h : removeFile disk p = .error .notFound) : disk.kindAt p = none := by
  unfold removeFile at h
  split at h
  · cases h
  · cases h
  · assumption

theorem removeStaged_held :
    Triple (Armed upload w₀) (removeStaged io upload)
      (fun installed w => installed = false ∧ Held upload w₀ w) (fun _ => Held upload w₀) := by
  intro w hw
  have hcall := @call_spec _ io (removeFile · upload.part) w
  unfold removeStaged
  cases hrun : call io (removeFile · upload.part) w with
  | error e w' =>
    rw [hrun] at hcall
    obtain ⟨-, rfl⟩ := hcall
    have hheld : Armed upload w₀ { w with calls := w.calls + 1 } :=
      hw.congr rfl rfl rfl fun _ _ => rfl
    rw [bind_error hrun]
    exact hheld.1
  | ok _ w' =>
    rw [hrun] at hcall
    obtain ⟨disk, hdisk, rfl⟩ := hcall
    rw [bind_ok hrun, removeFile_ok hdisk]
    have hheld := hw.1
    refine ⟨rfl, hheld.ledger, hheld.reserved, fun c a => ?_, fun _ _ => ?_, nofun, hheld.renamed⟩
    · exact (Disk.kindAt_unlink path_ne_part).trans (hheld.final c a)
    · exact Disk.kindAt_unlink_self ..

/-- A refused rename moves nothing. -/
theorem renameStaged_armed (artifact : ArtifactId) :
    Triple (Armed upload w₀) (renameStaged io upload artifact)
      (fun moved w => moved = false → Armed upload w₀ w) (fun _ => Armed upload w₀) := by
  refine Triple.tryCatch (E := fun _ => Armed upload w₀) (fun w hw => ?_) fun e => ?_
  · have hcall := @call_spec _ io (renameFile upload.part (path upload.channel artifact)) w
    cases hrun : call io (renameFile upload.part (path upload.channel artifact)) w with
    | error e w' =>
      rw [hrun] at hcall
      obtain ⟨-, rfl⟩ := hcall
      rw [bind_error hrun]
      exact hw.congr rfl rfl rfl fun _ _ => rfl
    | ok _ w' =>
      rw [bind_ok hrun]
      intro hmoved
      cases hmoved
  · refine Triple.ite (fun _ => Triple.pure fun _ h _ => h) fun _ => Triple.throw fun _ => id

/-- The state in which a failed upload gives up: only a call of the filesystem fails behind the
rename. -/
def Failed (upload : Upload) (w₀ : World SpaceLedger.State) (e : LocalError)
    (w : World SpaceLedger.State) : Prop :=
  (w.renamed = true ∧ ∃ kind, e = .io kind) ∨ Held upload w₀ w

theorem publishReserved_spec (artifact : ArtifactId) (digest : Digest) :
    Triple (Armed upload w₀) (publishReserved io upload artifact digest)
      (fun installed w => if installed then w.renamed = true else Held upload w₀ w)
      (Failed upload w₀) := by
  have hfailed : ∀ {e : LocalError} {w : World SpaceLedger.State}, Armed upload w₀ w →
      Failed upload w₀ e w := fun h => .inr h.1
  have hremove : Triple (Armed upload w₀) (removeStaged io upload)
      (fun installed w => if installed then w.renamed = true else Held upload w₀ w)
      (Failed upload w₀) := by
    refine removeStaged_held.conseq (fun _ => id) ?_ fun _ _ => .inr
    rintro installed w ⟨rfl, hheld⟩
    exact hheld
  refine Triple.ite (fun _ => Triple.throw fun _ => hfailed) fun _ => ?_
  refine Triple.bind (Q := fun _ => Armed upload w₀) ((call_armed fun disk disk' hdisk c a => ?_).conseq
    (fun _ => id) (fun _ _ => id) fun _ _ => hfailed) fun _ => ?_
  · cases hdisk
    exact Disk.kindAt_mkdirAll (by simp)
  refine Triple.bind (Q := fun _ => Armed upload w₀) ((query_armed _).conseq
    (fun _ => id) (fun _ _ => id) fun _ _ => hfailed) fun there => ?_
  refine Triple.ite (fun _ => hremove) fun _ => ?_
  refine Triple.bind ((renameStaged_armed artifact).conseq (fun _ => id) (fun _ _ => id)
    fun _ _ => hfailed) fun moved => ?_
  cases moved with
  | false => exact hremove.conseq (fun _ h => h rfl) (fun _ _ => id) fun _ _ => id
  | true =>
    -- from here on the body has its final name
    have hdone : Triple (fun w : World SpaceLedger.State => w.renamed = true) (pure true)
        (fun installed w => if installed then w.renamed = true else Held upload w₀ w)
        (Failed upload w₀) := Triple.pure fun _ => id
    have hmark : Triple (fun w : World SpaceLedger.State => true = false → Armed upload w₀ w)
        markPublished (fun _ w => w.renamed = true) (Failed upload w₀) := fun w _ => by
      show ({ w with renamed := true } : World SpaceLedger.State).renamed = true
      rfl
    refine Triple.bind hmark fun _ => ?_
    refine Triple.ite (fun _ => Triple.bind (Q := fun _ w => w.renamed = true) (fun w hw => ?_)
      fun _ => hdone) fun _ => hdone
    have hcall := @call_spec _ io
      (fun disk => .ok (disk.syncDir (shardDir upload.channel artifact))) w
    cases hrun : call io (fun disk => .ok (disk.syncDir (shardDir upload.channel artifact))) w with
    | error e w' =>
      rw [hrun] at hcall
      obtain ⟨hkind, rfl⟩ := hcall
      exact .inl ⟨hw, hkind⟩
    | ok _ w' =>
      rw [hrun] at hcall
      obtain ⟨disk, -, rfl⟩ := hcall
      exact hw

/-! ### The cleanup -/

/-- How an upload that gave up leaves the files and the ledger. -/
def GaveUp (upload : Upload) (w₀ : World SpaceLedger.State) (late : Prop)
    (w : World SpaceLedger.State) : Prop :=
  (w.renamed = true ∧ late) ∨ (w.renamed = false ∧ (Cleaned w → Settled upload w₀ w))

theorem GaveUp.imp {late late' : Prop} (h : GaveUp upload w₀ late w) (hlate : late → late') :
    GaveUp upload w₀ late' w :=
  Or.imp_left (And.imp_right hlate) h

theorem release_held (h : Held upload w₀ w) :
    SpaceLedger.release w.ledger w.reservation.outstanding = w₀.ledger := by
  have hreserved : saturatingSub w.ledger.reserved w.reservation.outstanding =
      w₀.ledger.reserved := by
    refine UInt64.toNat_inj.mp ?_
    rw [toNat_saturatingSub, h.reserved]
    omega
  show { w.ledger with reserved := saturatingSub w.ledger.reserved w.reservation.outstanding } = _
  rw [hreserved, h.ledger]

/-- Once its temporary file is gone, nothing is left of an upload that is discarded. -/
theorem discard_settles (h : Held upload w₀ w) :
    ∃ w', discard (SpaceLedger.reserver policy) io upload w = .ok () w' ∧
      w'.renamed = false ∧ (Cleaned w' → Settled upload w₀ w') := by
  have hreleased := release_held h
  rw [discard]
  cases hstate : w.reservation.state with
  | vacant =>
    exact ⟨_, rfl, h.renamed, fun _ => ⟨hreleased, h.final, h.vacant hstate⟩⟩
  | published => exact absurd hstate h.state
  | temporary =>
    have hcall := @call_spec _ io (removeFile · upload.part) { w with reservation := .new }
    dsimp only
    cases hrun : call io (removeFile · upload.part) { w with reservation := .new } with
    | ok _ w' =>
      rw [hrun] at hcall
      obtain ⟨disk, hdisk, rfl⟩ := hcall
      refine ⟨_, rfl, h.renamed, fun _ => ⟨hreleased, fun c a => ?_, fun _ => ?_⟩⟩
      · dsimp only
        rw [removeFile_ok hdisk]
        exact (Disk.kindAt_unlink path_ne_part).trans (h.final c a)
      · dsimp only
        rw [removeFile_ok hdisk]
        exact Disk.kindAt_unlink_self ..
    | error e w' =>
      rw [hrun] at hcall
      obtain ⟨-, rfl⟩ := hcall
      refine ⟨_, rfl, h.renamed, fun hcleaned => ?_⟩
      obtain rfl : e = .io .notFound := hcleaned e rfl
      exact ⟨hreleased, h.final, fun _ => removeFile_notFound (call_notFound hrun)⟩

theorem discard_gaveUp {late : Prop} (h : (w.renamed = true ∧ late) ∨ Held upload w₀ w) :
    ∃ w', discard (SpaceLedger.reserver policy) io upload w = .ok () w' ∧
      GaveUp upload w₀ late w' := by
  rcases h with ⟨hrenamed, hlate⟩ | hheld
  · obtain ⟨w', hdiscard, -, hkept⟩ := @discard_ok _ (SpaceLedger.reserver policy) io upload w
    exact ⟨w', hdiscard, .inl ⟨hkept.trans hrenamed, hlate⟩⟩
  · obtain ⟨w', hdiscard, hrenamed, hsettled⟩ := @discard_settles policy io upload w₀ w hheld
    exact ⟨w', hdiscard, .inr ⟨hrenamed, hsettled⟩⟩

/-- A step that fails discards. -/
theorem orDiscard_gaveUp {α : Type} {m : Staging SpaceLedger.State α}
    {P : World SpaceLedger.State → Prop} {Q : α → World SpaceLedger.State → Prop}
    {late : LocalError → Prop}
    (h : Triple P m Q fun e w => (w.renamed = true ∧ late e) ∨ Held upload w₀ w) :
    Triple P (tryCatch m fun error => do
        discard (SpaceLedger.reserver policy) io upload
        throw error) Q fun e => GaveUp upload w₀ (late e) := by
  refine Triple.tryCatch h fun e w hw => ?_
  obtain ⟨w', hdiscard, hgave⟩ := @discard_gaveUp policy io upload w₀ w (late e) hw
  rw [bind_ok hdiscard]
  exact hgave

theorem publish_spec (artifact : ArtifactId) (staged : StagedArtifact) :
    Triple (Armed upload w₀) (publish (SpaceLedger.reserver policy) io upload artifact staged)
      (fun installed w => if installed then w.renamed = true else Held upload w₀ w)
      (fun e => GaveUp upload w₀ (∃ kind, e = .io kind)) :=
  orDiscard_gaveUp (publishReserved_spec artifact staged.digest)

/-- A reservation that is refused leaves the ledger as it is. -/
theorem reserve_refused {bytes : UInt64}
    (h : (reserve (SpaceLedger.reserver policy) bytes w).1 = false) :
    (reserve (SpaceLedger.reserver policy) bytes w).2.ledger = w.ledger := by
  by_cases hzero : bytes = 0
  · rw [reserve, if_pos hzero] at h
    cases h
  · rw [reserve, if_neg hzero] at h ⊢
    rcases SpaceLedger.tryReserve_cases policy w.ledger bytes with hrefused | ⟨-, -, hadmitted⟩
    · simp only [SpaceLedger.reserver, hrefused]
    · simp only [SpaceLedger.reserver, hadmitted] at h
      cases h

/-- What an upload is admitted with, it holds; one that is turned away holds nothing. -/
theorem reserveInitial_held :
    Triple (· = w₀) (reserveInitial (SpaceLedger.reserver policy) extent upload)
      (fun admitted w => (Held upload w₀ w ∧ w.reservation.state = .vacant) ∧
        (admitted = false → w.polls = w₀.polls ∧ w.renamed = false ∧ Settled upload w₀ w))
      (fun _ => GaveUp upload w₀ False) := by
  rintro w rfl
  have hnew : Held upload w
      { w with reservation := .new, writes := [], removal := none, renamed := false } :=
    ⟨rfl, rfl, fun _ _ => rfl, fun _ => id, nofun, rfl⟩
  have hheld := @reserve_held policy upload w _ hnew (initial extent upload)
  have hrefused := @reserve_refused policy
    { w with reservation := .new, writes := [], removal := none, renamed := false }
    (initial extent upload)
  obtain ⟨ledger, outstanding, hextended⟩ := @reserve_extended _ (SpaceLedger.reserver policy)
    (initial extent upload)
    { w with reservation := .new, writes := [], removal := none, renamed := false }
  have hpolls := congrArg World.polls hextended
  have hstate := congrArg (·.reservation.state) hextended
  exact ⟨⟨hheld, hstate⟩, fun hnot =>
    ⟨hpolls, hheld.renamed, hrefused hnot, hheld.final, hheld.vacant hstate⟩⟩

theorem stage_spec (stream : List Item) :
    Triple (· = w₀) (stage (SpaceLedger.reserver policy) enc io extent upload stream)
      (fun outcome w => match outcome with
        | .ready _ => Armed upload w₀ w
        | .rejected rest => rest = stream ∧ w.polls = w₀.polls ∧ w.renamed = false ∧
            Settled upload w₀ w)
      (fun _ => GaveUp upload w₀ False) := by
  refine Triple.bind reserveInitial_held fun admitted => ?_
  cases admitted with
  | false => exact Triple.pure fun w h => ⟨rfl, h.2 rfl⟩
  | true =>
    have hstaged : Triple (fun w => (Held upload w₀ w ∧ w.reservation.state = .vacant) ∧
          (true = false → w.polls = w₀.polls ∧ w.renamed = false ∧ Settled upload w₀ w))
        (stageReserved (SpaceLedger.reserver policy) enc io extent upload stream)
        (fun _ => Armed upload w₀) (fun _ w => (w.renamed = true ∧ False) ∨ Held upload w₀ w) :=
      (stageReserved_armed stream).conseq (fun _ h => h.1) (fun _ _ => id) fun _ _ => .inr
    exact Triple.bind (orDiscard_gaveUp hstaged) fun staged => Triple.pure fun _ => id

end Held

end ArtifactFiles

/-! ## The service -/

namespace Publication

inductive CacheError where
  | localError (error : LocalError)
  | metadata (message : String)
  | missingChannel
  | channelDeleting
  deriving DecidableEq

/-- The calls of the store that fail. -/
structure Outage where
  channel : Option String
  commit : Option String

/-- What `clock.now()` reports before and after the rename. -/
structure Clock where
  stagedAt : UInt64
  now : UInt64

structure Request where
  upload : Upload
  target : PublicationTarget
  contentType : Option String
  stream : List Item

structure World where
  files : ArtifactFiles.World SpaceLedger.State
  store : RocksMetadata

/-- `Publication`. -/
structure Published where
  artifact : ArtifactId
  created : Bool

inductive Admission where
  | published (publication : Published)
  | rejected (stream : List Item)

abbrev Service (α : Type) : Type := EStateM CacheError World α

variable {α : Type} (policy : SpacePolicy) (enc : Encoder) (io : Io) (extent : Extent)
  (outage : Outage) (clock : Clock)

/-- A call of `self.files`. -/
def onFiles (m : ArtifactFiles.Staging SpaceLedger.State α) : Service α := fun w =>
  match m w.files with
  | .ok a files => .ok a { w with files := files }
  | .error error files => .error (.localError error) { w with files := files }

/-- `channel_fence`, of which the expiry is left. -/
def channelFence (c : ChannelId) : Service UInt64 := fun w =>
  match outage.channel with
  | some message => .error (.metadata message) w
  | none =>
    match w.store.channel c with
    | some record =>
      if record.state = .active then .ok record.expirySeconds w else .error .channelDeleting w
    | none => .error .missingChannel w

/-- `commit_publication`. -/
def commitPublication (c : ChannelId) (artifact : ArtifactId) (metadata : ArtifactMetadata)
    (reference : Option (Bytes × ReferenceRecord)) : Service Bool := fun w =>
  match outage.commit with
  | some message => .error (.metadata message) w
  | none =>
    let (store, created) := w.store.commitPublication c artifact metadata reference
    .ok created { w with store := store }

/-- A failing step gives the reservation back before it returns. -/
def orDiscard (upload : Upload) (m : Service α) : Service α :=
  tryCatch m fun error => do
    onFiles (ArtifactFiles.discard (SpaceLedger.reserver policy) io upload)
    throw error

/-- `commit_staged`. -/
def commitStaged (request : Request) (artifact : ArtifactId)
    (reference : Option (Bytes × ReferenceRecord)) (staged : StagedArtifact) :
    Service Published := do
  let upload := request.upload
  let expirySeconds ← orDiscard policy io upload (channelFence outage upload.channel)
  let installed ←
    onFiles (ArtifactFiles.publish (SpaceLedger.reserver policy) io upload artifact staged)
  let created ← orDiscard policy io upload (commitPublication outage upload.channel artifact
    { contentLen := staged.len.toNat
      contentType := request.contentType
      createdAt := clock.now
      eligibleAt := saturatingAdd clock.now expirySeconds
      storedLen := staged.storedLen.toNat
      encoding := staged.encoding } reference)
  onFiles (ArtifactFiles.commit (SpaceLedger.reserver policy)
    (if installed then staged.storedLen else 0))
  return ⟨artifact, created⟩

/-- The artifact that is published, and the reference that is bound to it. -/
def resolve (target : PublicationTarget) (digest : Digest) :
    ArtifactId × Option (Bytes × ReferenceRecord) :=
  match target with
  | .byId artifact => (artifact, none)
  | .contentAddressed reference =>
    let artifact := ArtifactId.fromDigest digest
    (artifact, reference.map fun name => (name, ⟨artifact, clock.stagedAt, none, none⟩))

/-- `publish_or_reject`. -/
def publishOrReject (request : Request) : Service Admission := do
  match ← onFiles (ArtifactFiles.stage (SpaceLedger.reserver policy) enc io extent request.upload
    request.stream) with
  | .rejected stream => return .rejected stream
  | .ready staged =>
    let (artifact, reference) := resolve clock request.target staged.digest
    let publication ← commitStaged policy io outage clock request artifact reference staged
    return .published publication

/-- `publish`. -/
def publish (request : Request) : Service Published := do
  match ← publishOrReject policy enc io extent outage clock request with
  | .published publication => return publication
  | .rejected _ => throw (.localError .outOfSpace)

/-! ## Failed publications -/

section Failed

open ArtifactFiles

variable {policy : SpacePolicy} {enc : Encoder} {io : Io} {extent : Extent}
  {outage : Outage} {clock : Clock} {request : Request}
  {w₀ : ArtifactFiles.World SpaceLedger.State} {store : RocksMetadata}

/-- What a rule says of the files, with the store it leaves alone. -/
theorem onFiles_triple {m : ArtifactFiles.Staging SpaceLedger.State α}
    {P : ArtifactFiles.World SpaceLedger.State → Prop}
    {Q : α → ArtifactFiles.World SpaceLedger.State → Prop}
    {E : LocalError → ArtifactFiles.World SpaceLedger.State → Prop} (h : Triple P m Q E) :
    Triple (fun w => P w.files ∧ w.store = store) (onFiles m)
      (fun a w => Q a w.files ∧ w.store = store)
      (fun e w => (∃ error, e = .localError error ∧ E error w.files) ∧ w.store = store) := by
  rintro w ⟨hw, hstore⟩
  have hrun := h w.files hw
  unfold onFiles
  cases hm : m w.files with
  | ok a files =>
    rw [hm] at hrun
    exact ⟨hrun, hstore⟩
  | error e files =>
    rw [hm] at hrun
    exact ⟨⟨e, rfl, hrun⟩, hstore⟩

/-- Only a call of the filesystem or of the store fails behind the rename. -/
def Late (e : CacheError) : Prop :=
  (∃ kind, e = .localError (.io kind)) ∨ ∃ message, e = .metadata message

/-- A failed publication: the store is as it was, and the upload gave up. -/
def Fails (upload : Upload) (w₀ : ArtifactFiles.World SpaceLedger.State) (store : RocksMetadata)
    (e : CacheError) (w : World) : Prop :=
  GaveUp upload w₀ (Late e) w.files ∧ w.store = store

theorem orDiscard_fails {upload : Upload} {m : Service α} {P : World → Prop}
    {Q : α → World → Prop}
    (h : Triple P m Q fun e w => ((w.files.renamed = true ∧ Late e) ∨ Held upload w₀ w.files) ∧
      w.store = store) :
    Triple P (orDiscard policy io upload m) Q (Fails upload w₀ store) := by
  refine Triple.tryCatch h fun e w hw => ?_
  obtain ⟨files, hdiscard, hgave⟩ := @discard_gaveUp policy io upload w₀ w.files (Late e) hw.1
  have hrun : onFiles (discard (SpaceLedger.reserver policy) io upload) w =
      .ok () { w with files := files } := by
    unfold onFiles
    rw [hdiscard]
  rw [bind_ok hrun]
  exact ⟨hgave, hw.2⟩

theorem channelFence_spec (c : ChannelId) {P : World → Prop} :
    Triple P (channelFence outage c) (fun _ => P) (fun _ => P) := by
  intro w hw
  unfold channelFence
  cases outage.channel with
  | some message => exact hw
  | none =>
    cases w.store.channel c with
    | none => exact hw
    | some record =>
      dsimp only
      by_cases hactive : record.state = .active
      · rw [if_pos hactive]
        exact hw
      · rw [if_neg hactive]
        exact hw

theorem commitPublication_spec (c : ChannelId) (artifact : ArtifactId)
    (metadata : ArtifactMetadata) (reference : Option (Bytes × ReferenceRecord))
    {P : World → Prop} :
    Triple P (commitPublication outage c artifact metadata reference) (fun _ _ => True)
      (fun e w => (∃ message, e = .metadata message) ∧ P w) := by
  intro w hw
  unfold commitPublication
  cases outage.commit with
  | some message => exact ⟨⟨message, rfl⟩, hw⟩
  | none => trivial

theorem commitStaged_spec (artifact : ArtifactId)
    (reference : Option (Bytes × ReferenceRecord)) (staged : StagedArtifact) :
    Triple (fun w => Armed request.upload w₀ w.files ∧ w.store = store)
      (commitStaged policy io outage clock request artifact reference staged) (fun _ _ => True)
      (Fails request.upload w₀ store) := by
  refine Triple.bind (orDiscard_fails ((channelFence_spec request.upload.channel).conseq
    (fun _ => id) (fun _ _ => id) fun _ w h => ⟨.inr h.1.1, h.2⟩)) fun expirySeconds => ?_
  refine Triple.bind ((onFiles_triple (publish_spec artifact staged)).conseq (fun _ => id)
    (fun _ _ => id) ?_) fun installed => ?_
  · rintro e w ⟨⟨error, rfl, hgave⟩, hstore⟩
    refine ⟨hgave.imp ?_, hstore⟩
    rintro ⟨kind, rfl⟩
    exact .inl ⟨kind, rfl⟩
  refine Triple.bind (orDiscard_fails ((commitPublication_spec _ _ _ _).conseq (fun _ => id)
    (fun _ _ => id) ?_)) fun created => ?_
  · rintro e w ⟨hmessage, hinstalled, hstore⟩
    cases installed with
    | true => exact ⟨.inl ⟨hinstalled, .inr hmessage⟩, hstore⟩
    | false => exact ⟨.inr hinstalled, hstore⟩
  -- the rest does not fail
  · exact fun w _ => trivial

theorem publishOrReject_spec :
    Triple (fun w => w.files = w₀ ∧ w.store = store)
      (publishOrReject policy enc io extent outage clock request)
      (fun admission w => match admission with
        | .published _ => True
        | .rejected stream => (stream = request.stream ∧ w.files.polls = w₀.polls ∧
            w.files.renamed = false ∧ ArtifactFiles.Settled request.upload w₀ w.files) ∧
          w.store = store)
      (Fails request.upload w₀ store) := by
  refine Triple.bind ((onFiles_triple (stage_spec request.stream)).conseq (fun _ => id)
    (fun _ _ => id) ?_) fun outcome => ?_
  · rintro e w ⟨⟨error, rfl, hgave⟩, hstore⟩
    exact ⟨hgave.imp False.elim, hstore⟩
  cases outcome with
  | rejected stream => exact Triple.pure fun w => id
  | ready staged =>
    exact Triple.bind (commitStaged_spec _ _ staged) fun publication => Triple.pure fun _ => id

theorem publish_spec :
    Triple (fun w => w.files = w₀ ∧ w.store = store)
      (publish policy enc io extent outage clock request) (fun _ _ => True)
      (Fails request.upload w₀ store) := by
  refine Triple.bind publishOrReject_spec fun admission => ?_
  cases admission with
  | published publication => exact Triple.pure fun _ => id
  | rejected stream =>
    exact Triple.throw fun w h => ⟨.inr ⟨h.1.2.2.1, fun _ => h.1.2.2.2⟩, h.2⟩

/-- A publication that fails before its body has its final name changes no final file and no
record, leaves no temporary file that could be removed, and gives back all it reserved; nothing
else than a call of the filesystem or of the store fails behind the rename. One that is turned
away hands its body back unread. -/
theorem failed_publication_changes_nothing (policy : SpacePolicy) (enc : Encoder) (io : Io)
    (extent : Extent) (outage : Outage) (clock : Clock) (request : Request) (w : World) :
    (∀ e w', publish policy enc io extent outage clock request w = .error e w' →
      (w'.files.renamed = true → Late e) ∧
      (w'.files.renamed = false → Cleaned w'.files →
        w'.store = w.store ∧ w'.files.ledger = w.files.ledger ∧
        (∀ c a, w'.files.disk.kindAt (path c a) = w.files.disk.kindAt (path c a)) ∧
        (w.files.disk.kindAt request.upload.part = none →
          w'.files.disk.kindAt request.upload.part = none))) ∧
    (∀ stream w', publishOrReject policy enc io extent outage clock request w =
        .ok (.rejected stream) w' →
      stream = request.stream ∧ w'.files.polls = w.files.polls ∧ w'.store = w.store ∧
        w'.files.ledger = w.files.ledger ∧
        ∀ c a, w'.files.disk.kindAt (path c a) = w.files.disk.kindAt (path c a)) := by
  constructor
  · intro e w' hrun
    have hspec := @publish_spec policy enc io extent outage clock request w.files w.store w
      ⟨rfl, rfl⟩
    rw [hrun] at hspec
    obtain ⟨⟨hrenamed, hlate⟩ | ⟨hrenamed, hsettled⟩, hstore⟩ := hspec
    · exact ⟨fun _ => hlate, fun hnot => absurd (hrenamed.symm.trans hnot) nofun⟩
    · refine ⟨fun hyes => absurd (hrenamed.symm.trans hyes) nofun, fun _ hcleaned => ?_⟩
      obtain ⟨hledger, hfinal, hpart⟩ := hsettled hcleaned
      exact ⟨hstore, hledger, hfinal, hpart⟩
  · intro stream w' hrun
    have hspec := @publishOrReject_spec policy enc io extent outage clock request w.files w.store w
      ⟨rfl, rfl⟩
    rw [hrun] at hspec
    obtain ⟨⟨hstream, hpolls, -, hsettled⟩, hstore⟩ := hspec
    exact ⟨hstream, hpolls, hstore, hsettled.ledger, hsettled.final⟩

/-! ### An upload whose stream fails -/

/-- The stream fails after its first chunk. -/
def failingRequest : Request where
  upload := ArtifactFiles.sampleUpload
  target := .contentAddressed none
  contentType := none
  stream := [.ok (sampleBody.take 3), .error "injected upload failure"]

def openWorld : World where
  files :=
    { disk := ∅
      ledger := ⟨100, 0, 0, false, false⟩
      reservation := .new
      calls := 0
      polls := 0
      writes := []
      removal := none
      renamed := false }
  store := RocksMetadata.empty.storeChannel ⟨.default, .open, 3600, .active, 0⟩

/-- The upload failed with the error of its stream before it renamed anything, and its file is
removed. -/
def streamFailed (text : String) : EStateM.Result CacheError World Published → Bool
  | .error (.localError (.stream message)) w' =>
    message == text && !w'.files.renamed && (w'.files.removal matches some (.ok ()))
  | _ => false

theorem of_streamFailed {text : String} {r : EStateM.Result CacheError World Published}
    (h : streamFailed text r = true) :
    ∃ w', r = .error (.localError (.stream text)) w' ∧ w'.files.renamed = false ∧
      Cleaned w'.files := by
  unfold streamFailed at h
  split at h
  · rename_i message w'
    simp only [Bool.and_eq_true, beq_iff_eq, Bool.not_eq_true'] at h
    obtain ⟨⟨rfl, hrenamed⟩, hremoval⟩ := h
    refine ⟨w', rfl, hrenamed, ?_⟩
    intro error herror
    rw [herror] at hremoval
    cases hremoval
  · cases h

/-- The upload fails with the error of its stream, and its file is removed. -/
theorem failing_stream_changes_nothing :
    ∃ w', publish ⟨0, 0, 0⟩ sampleEncoder (fun _ => none) ⟨4, by decide⟩ ⟨none, none⟩ ⟨0, 0⟩
        failingRequest openWorld =
          .error (.localError (.stream "injected upload failure")) w' ∧
      w'.store = openWorld.store ∧ w'.files.ledger = openWorld.files.ledger ∧
      w'.files.disk.kindAt failingRequest.upload.part = none := by
  obtain ⟨w', hrun, hrenamed, hcleaned⟩ := @of_streamFailed "injected upload failure"
    (publish ⟨0, 0, 0⟩ sampleEncoder (fun _ => none) ⟨4, by decide⟩ ⟨none, none⟩ ⟨0, 0⟩
      failingRequest openWorld) (by decide +kernel)
  obtain ⟨hstore, hledger, -, hpart⟩ := ((failed_publication_changes_nothing ⟨0, 0, 0⟩
    sampleEncoder (fun _ => none) ⟨4, by decide⟩ ⟨none, none⟩ ⟨0, 0⟩ failingRequest
      openWorld).1 _ w' hrun).2 hrenamed hcleaned
  exact ⟨w', hrun, hstore, hledger, hpart (by decide +kernel)⟩

end Failed

end Publication

end Flywheel
