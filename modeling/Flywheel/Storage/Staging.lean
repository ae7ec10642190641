import Flywheel.Cache.Reservations
import Flywheel.Lib.Program
import Flywheel.Storage.Metadata
import Flywheel.Storage.Recovery

/-!
# Staging a body (`ArtifactFiles::stage`, `src/storage/local/artifact_files.rs`)

An upload reserves capacity, streams its chunks into a temporary file, and extends the reservation
ahead of every chunk. Three rules meet: a declared length is reserved at once, an unknown one extent
by extent, and a zstd frame that grew past the reservation tops it up at the end.

The filesystem may fail any call (`Io`); a failed write leaves a part of its chunk behind. `NotFound`
is reported only where there is nothing. The world also keeps what nothing reads: the calls of
`write_all`, and how the temporary file was removed.

`extendTo` is the inner loop. It ends because `saturating_add` of an extent moves every outstanding
reservation that is still below some length (`lt_saturatingAdd`).
-/

set_option autoImplicit false

namespace Flywheel

open Lib

/-! ## Surroundings -/

/-- `trait Reserver`. -/
structure Reserver (ρ : Type) where
  tryReserve : ρ → UInt64 → Bool × ρ
  release : ρ → UInt64 → ρ
  commit : ρ → UInt64 → ρ

/-- What staging takes from other crates. -/
structure Encoder where
  sha256 : Bytes → Digest
  /-- The frame the encoder writes for a stream; it may depend on the chunks. -/
  zstdEncode : List Bytes → Bytes
  /-- The part of the frame that has reached the file before `shutdown`. -/
  zstdWritten : List Bytes → Bytes

/-- The stored bytes of a stream. -/
def Encoder.encode (enc : Encoder) : StoredEncoding → List Bytes → Bytes
  | .identity, chunks => chunks.flatten
  | .zstd, chunks => enc.zstdEncode chunks

/-- What the file holds while the stream is written. -/
def Encoder.written (enc : Encoder) : StoredEncoding → List Bytes → Bytes
  | .identity, chunks => chunks.flatten
  | .zstd, chunks => enc.zstdWritten chunks

/-- A failing call of the filesystem; `written` is how much of a chunk a failing write leaves. -/
structure Fault where
  taken : Bool
  written : Nat

def Fault.kind (fault : Fault) : IoErrorKind := if fault.taken then .alreadyExists else .other

/-- Which calls of the filesystem fail, by their number. -/
abbrev Io : Type := Nat → Option Fault

/-- `reservation_extent`, which `ArtifactFiles::open` raises to one. -/
structure Extent where
  bytes : UInt64
  pos : 0 < bytes.toNat

/-- The arguments of `stage` but for the stream, and the name of the temporary file. -/
structure Upload where
  channel : ChannelId
  name : Bytes
  maxBytes : UInt64
  contentLength : Option UInt64
  durability : Durability
  encoding : StoredEncoding

/-- The temporary file. -/
def Upload.part (upload : Upload) : Path := tmpPath upload.channel upload.name

/-- An item of the body stream. -/
abbrev Item : Type := Except String Bytes

structure StagedArtifact where
  digest : Digest
  len : UInt64
  storedLen : UInt64
  encoding : StoredEncoding

inductive StageOutcome where
  | ready (staged : StagedArtifact)
  | rejected (stream : List Item)

namespace ArtifactFiles

/-! ## The world -/

/-- A call of `write_all`: what the file holds with it, and what was reserved. -/
structure Write where
  total : Nat
  outstanding : UInt64

structure World (ρ : Type) where
  disk : FsDisk
  ledger : ρ
  reservation : Reservation
  /-- The calls of the filesystem and of the stream so far. -/
  calls : Nat
  polls : Nat
  writes : List Write
  /-- The result of the `remove_file` in `discard`. -/
  removal : Option (Except LocalError Unit)
  renamed : Bool

abbrev Staging (ρ α : Type) : Type := EStateM LocalError (World ρ) α

variable {ρ α : Type} (R : Reserver ρ) (enc : Encoder) (io : Io) (extent : Extent) (upload : Upload)

/-- A call of the filesystem. -/
def call (f : FsDisk → Except IoErrorKind FsDisk) : Staging ρ Unit := fun w =>
  match io w.calls with
  | some fault => .error (.io fault.kind) { w with calls := w.calls + 1 }
  | none =>
    match f w.disk with
    | .ok disk => .ok () { w with calls := w.calls + 1, disk := disk }
    | .error kind => .error (.io kind) { w with calls := w.calls + 1 }

/-- A call that reads what the filesystem has. -/
def query (f : FsDisk → α) : Staging ρ α := fun w =>
  match io w.calls with
  | some fault => .error (.io fault.kind) { w with calls := w.calls + 1 }
  | none => .ok (f w.disk) { w with calls := w.calls + 1 }

/-! ## Reservations -/

/-- `Reservation::reserve`. -/
def reserve (bytes : UInt64) (w : World ρ) : Bool × World ρ :=
  if bytes = 0 then (true, { w with reservation := w.reservation.add bytes })
  else
    match R.tryReserve w.ledger bytes with
    | (true, ledger) => (true, { w with ledger := ledger, reservation := w.reservation.add bytes })
    | (false, ledger) => (false, { w with ledger := ledger })

/-- `mark_temporary`, `mark_vacant`, `mark_published`. -/
def mark (state : ReservationState) : Staging ρ Unit :=
  modify fun w => { w with reservation := { w.reservation with state := state } }

/-- `Reservation::commit`. -/
def commit (bytes : UInt64) : Staging ρ Unit :=
  modify fun w =>
    let committed := min bytes w.reservation.outstanding
    let slack := w.reservation.outstanding - committed
    let ledger := R.commit w.ledger committed
    { w with
      ledger := if slack > 0 then R.release ledger slack else ledger
      reservation := { w.reservation with outstanding := 0 } }

/-- `settle_removal`. -/
def settle (outstanding : UInt64) (removed : Except LocalError Unit) (ledger : ρ) : ρ :=
  match removed with
  | .ok () | .error (.io .notFound) => R.release ledger outstanding
  | .error _ => R.commit ledger outstanding

/-- `Reservation::discard`. -/
def discard : Staging ρ Unit := fun w =>
  let outstanding := w.reservation.outstanding
  let w' := { w with reservation := .new }
  match w.reservation.state with
  | .vacant => .ok () { w' with ledger := R.release w.ledger outstanding }
  | .published => .ok () { w' with ledger := R.commit w.ledger outstanding }
  | .temporary =>
    match call io (removeFile · upload.part) w' with
    | .ok () w' =>
      .ok () { w' with
        ledger := settle R outstanding (.ok ()) w'.ledger
        removal := some (.ok ()) }
    | .error error w' =>
      .ok () { w' with
        ledger := settle R outstanding (.error error) w'.ledger
        removal := some (.error error) }

/-! ## The loops -/

/-- Adding at least one moves everything that is below another length. -/
theorem lt_saturatingAdd {outstanding len : UInt64} (h : outstanding < len) :
    outstanding.toNat < (saturatingAdd outstanding extent.bytes).toNat := by
  have hlt := UInt64.lt_iff_toNat_lt.mp h
  have hlen := len.toNat_lt
  have hpos := extent.pos
  rw [toNat_saturatingAdd]
  omega

theorem reserve_outstanding {bytes : UInt64} {w : World ρ} (h : (reserve R bytes w).1 = true) :
    (reserve R bytes w).2.reservation = w.reservation.add bytes := by
  unfold reserve at h ⊢
  by_cases hzero : bytes = 0
  · rw [if_pos hzero]
  · rw [if_neg hzero] at h ⊢
    split at h
    · rfl
    · cases h

/-- `while len > reservation.outstanding`. -/
def extendTo (len : UInt64) (w : World ρ) : EStateM.Result LocalError (World ρ) Unit :=
  if _hlen : w.reservation.outstanding < len then
    if _hreserved : (reserve R extent.bytes w).1 = true then
      extendTo len (reserve R extent.bytes w).2
    else .error .outOfSpace (reserve R extent.bytes w).2
  else .ok () w
termination_by len.toNat - w.reservation.outstanding.toNat
decreasing_by
  rw [reserve_outstanding R _hreserved]
  have hmore : w.reservation.outstanding.toNat < _ := lt_saturatingAdd extent _hlen
  have hlt := UInt64.lt_iff_toNat_lt.mp _hlen
  show len.toNat - (saturatingAdd w.reservation.outstanding extent.bytes).toNat < _
  omega

/-- The local variables of the loop: `len`, and the chunks that hasher and writer were given. -/
structure Local where
  len : UInt64
  chunks : List Bytes

/-- `writer.write_all`. -/
def writeAll (chunks : List Bytes) (chunk : Bytes) : Staging ρ Unit := fun w =>
  let content := enc.written upload.encoding (chunks ++ [chunk])
  let w' := { w with
    calls := w.calls + 1
    writes := w.writes ++ [Write.mk content.length w.reservation.outstanding] }
  match io w.calls with
  | some fault =>
    let left := enc.written upload.encoding (chunks ++ [chunk.take fault.written])
    .error (.io fault.kind) { w' with disk := w.disk.write upload.part left }
  | none => .ok () { w' with disk := w.disk.write upload.part content }

/-- The body of the loop. -/
def stageChunk : Item → Local → Staging ρ Local
  | .error message, _ => throw (.stream message)
  | .ok chunk, l =>
    if 2 ^ 64 ≤ l.len.toNat + chunk.length then throw .tooLarge
    else
      let len := l.len + UInt64.ofNat chunk.length
      if upload.maxBytes < len then throw .tooLarge
      else do
        extendTo R extent len
        writeAll enc io upload l.chunks chunk
        return ⟨len, l.chunks ++ [chunk]⟩

def poll : Staging ρ Unit := modify fun w => { w with polls := w.polls + 1 }

/-- `while let Some(chunk) = stream.next().await`. -/
def stageLoop : List Item → Local → Staging ρ Local
  | [], l => do
    poll
    return l
  | item :: rest, l => do
    poll
    let l ← stageChunk R enc io extent upload item l
    stageLoop rest l

/-! ## Staging -/

/-- `create_new`; an existing name is refused, and so is one without a directory. -/
def openNew (p : Path) (disk : FsDisk) : Except IoErrorKind FsDisk :=
  match disk.createNew p with
  | some disk => .ok disk
  | none => if (disk.kindAt p).isSome then .error .alreadyExists else .error .notFound

/-- `writer.finish`; no file is as long as `u64` cannot say. -/
def finish (chunks : List Bytes) : Staging ρ Unit :=
  call io fun disk =>
    let content := enc.encode upload.encoding chunks
    if 2 ^ 64 ≤ content.length then .error .other else .ok (disk.write upload.part content)

/-- `file.metadata().len()`. -/
def storedLen (l : Local) : Staging ρ UInt64 :=
  match upload.encoding with
  | .identity => pure l.len
  | .zstd => query io fun disk => UInt64.ofNat ((disk.content upload.part).elim 0 (·.length))

/-- The reservation catches up with what was stored. -/
def topUp (stored : UInt64) : Staging ρ Unit := fun w =>
  if stored ≤ w.reservation.outstanding then .ok () w
  else
    match reserve R (stored - w.reservation.outstanding) w with
    | (true, w) => .ok () w
    | (false, w) => .error .outOfSpace w

/-- Up to the loop: the temporary file is there, and empty. -/
def openPart : Staging ρ Unit := do
  call io fun disk => .ok (disk.mkdirAll (tmpDir upload.channel))
  mark .temporary
  call io (openNew upload.part)

/-- After the loop: the frame is closed, its length read back, the body flushed. -/
def complete (l : Local) : Staging ρ StagedArtifact := do
  finish enc io upload l.chunks
  let stored ← storedLen io upload l
  topUp R stored
  if upload.durability = .durable then
    call io fun disk => .ok (disk.syncFile upload.part)
  return ⟨enc.sha256 l.chunks.flatten, l.len, stored, upload.encoding⟩

/-- `stage_reserved`. -/
def stageReserved (stream : List Item) : Staging ρ StagedArtifact := do
  openPart io upload
  let l ← stageLoop R enc io extent upload stream ⟨0, []⟩
  complete R enc io upload l

/-- What an upload reserves before it looks at its body. -/
def initial : UInt64 := (upload.contentLength.map fun len => min len upload.maxBytes).getD extent.bytes

/-- `Reservation::new`, and the reservation up front. -/
def reserveInitial : Staging ρ Bool := fun w =>
  let (admitted, w) := reserve R (initial extent upload)
    { w with reservation := .new, writes := [], removal := none, renamed := false }
  .ok admitted w

/-- `stage`. -/
def stage (stream : List Item) : Staging ρ StageOutcome := do
  if ← reserveInitial R extent upload then
    let staged ← tryCatch (stageReserved R enc io extent upload stream) fun error => do
      discard R io upload
      throw error
    return .ready staged
  else return .rejected stream

/-! ## Frames -/

section Frames

variable {R enc io extent upload} {w w' w'' : World ρ}

/-- Only the ledger and what is outstanding may differ. -/
def Extended (w w' : World ρ) : Prop :=
  ∃ ledger outstanding, w' =
    { w with ledger := ledger, reservation := { w.reservation with outstanding := outstanding } }

theorem Extended.refl (w : World ρ) : Extended w w := ⟨w.ledger, w.reservation.outstanding, rfl⟩

theorem Extended.trans (h : Extended w w') (h' : Extended w' w'') : Extended w w'' := by
  obtain ⟨ledger, outstanding, rfl⟩ := h
  obtain ⟨ledger', outstanding', rfl⟩ := h'
  exact ⟨ledger', outstanding', rfl⟩

theorem reserve_extended (bytes : UInt64) (w : World ρ) : Extended w (reserve R bytes w).2 := by
  unfold reserve
  by_cases hzero : bytes = 0
  · rw [if_pos hzero]
    exact ⟨w.ledger, _, rfl⟩
  · rw [if_neg hzero]
    split
    · exact ⟨_, _, rfl⟩
    · exact ⟨_, w.reservation.outstanding, rfl⟩

/-- The inner loop leaves with enough reserved, or out of space. -/
theorem extendTo_spec (len : UInt64) (w : World ρ) :
    match extendTo R extent len w with
    | .ok _ w' => Extended w w' ∧ len ≤ w'.reservation.outstanding
    | .error e w' => Extended w w' ∧ e = .outOfSpace := by
  induction w using extendTo.induct R extent len with
  | case1 w hlen hreserved ih =>
    rw [extendTo, dif_pos hlen, dif_pos hreserved]
    split at ih
    · exact ⟨(reserve_extended _ w).trans ih.1, ih.2⟩
    · exact ⟨(reserve_extended _ w).trans ih.1, ih.2⟩
  | case2 w hlen hrefused =>
    rw [extendTo, dif_pos hlen, dif_neg hrefused]
    exact ⟨reserve_extended _ w, rfl⟩
  | case3 w hlen =>
    rw [extendTo, dif_neg hlen]
    exact ⟨.refl w, UInt64.not_lt.mp hlen⟩

/-- A call does what it is for, or fails and does nothing. -/
theorem call_spec (f : FsDisk → Except IoErrorKind FsDisk) (w : World ρ) :
    match call io f w with
    | .ok _ w' => ∃ disk, f w.disk = .ok disk ∧ w' = { w with calls := w.calls + 1, disk := disk }
    | .error e w' => (∃ kind, e = .io kind) ∧ w' = { w with calls := w.calls + 1 } := by
  cases hio : io w.calls with
  | some fault =>
    have hcall : call io f w = .error (.io fault.kind) { w with calls := w.calls + 1 } := by
      rw [call, hio]
    rw [hcall]
    exact ⟨⟨fault.kind, rfl⟩, rfl⟩
  | none =>
    cases hf : f w.disk with
    | ok disk =>
      have hcall : call io f w = .ok () { w with calls := w.calls + 1, disk := disk } := by
        rw [call, hio]
        simp only [hf]
      rw [hcall]
      exact ⟨disk, rfl, rfl⟩
    | error kind =>
      have hcall : call io f w = .error (.io kind) { w with calls := w.calls + 1 } := by
        rw [call, hio]
        simp only [hf]
      rw [hcall]
      exact ⟨⟨kind, rfl⟩, rfl⟩

/-- What is not there is reported by the filesystem itself. -/
theorem call_notFound {f : FsDisk → Except IoErrorKind FsDisk}
    (h : call io f w = .error (.io .notFound) w') : f w.disk = .error .notFound := by
  unfold call at h
  cases hio : io w.calls with
  | some fault =>
    rw [hio] at h
    simp only [EStateM.Result.error.injEq, LocalError.io.injEq, Fault.kind] at h
    split at h <;> cases h.1
  | none =>
    rw [hio] at h
    cases hf : f w.disk with
    | ok disk =>
      simp only [hf] at h
      cases h
    | error kind =>
      simp only [hf] at h
      cases h
      rfl

end Frames

/-! ## The loop -/

section Loop

variable {R enc io extent upload} {l l' : Local} {w w' : World ρ}

/-- What the loop has staged so far. -/
structure Sound (upload : Upload) (l : Local) (w : World ρ) : Prop where
  len : l.len.toNat = l.chunks.flatten.length
  file : ∃ content synced, w.disk.kindAt upload.part = some (.file content synced)

/-- No chunk was written verbatim beyond what was reserved. -/
def Covered (upload : Upload) (w : World ρ) : Prop :=
  upload.encoding = .identity → ∀ write ∈ w.writes, write.total ≤ write.outstanding.toNat

/-- The chunk makes the body too large. -/
def Exceeds (upload : Upload) (len : Nat) (item : Item) : Prop :=
  ∃ chunk, item = .ok chunk ∧ upload.maxBytes.toNat < len + chunk.length

theorem Sound.extended (h : Sound upload l w) (hextended : Extended w w') : Sound upload l w' := by
  obtain ⟨ledger, outstanding, rfl⟩ := hextended
  exact ⟨h.len, h.file⟩

/-- The file takes the chunk, and had the room for it. -/
theorem writeAll_spec {chunks : List Bytes} {chunk : Bytes}
    (hfile : ∃ content synced, w.disk.kindAt upload.part = some (.file content synced))
    (hroom : (chunks ++ [chunk]).flatten.length ≤ w.reservation.outstanding.toNat) :
    match writeAll enc io upload chunks chunk w with
    | .ok _ w' => (∃ content synced, w'.disk.kindAt upload.part = some (.file content synced)) ∧
        (Covered upload w → Covered upload w')
    | .error e w' => (∃ kind, e = .io kind) ∧ (Covered upload w → Covered upload w') := by
  obtain ⟨content, synced, hkind⟩ := hfile
  have hcovered : Covered upload w → ∀ disk : FsDisk, Covered upload { w with
      calls := w.calls + 1
      writes := w.writes ++ [Write.mk (enc.written upload.encoding (chunks ++ [chunk])).length
        w.reservation.outstanding]
      disk := disk } := by
    intro hbefore disk hidentity write hwrite
    rcases List.mem_append.mp hwrite with hwrite | hwrite
    · exact hbefore hidentity write hwrite
    · rw [List.mem_singleton.mp hwrite, hidentity]
      exact hroom
  unfold writeAll
  dsimp only
  split
  · rename_i hrun
    split at hrun
    · cases hrun
    · cases hrun
      exact ⟨⟨_, _, Disk.kindAt_write_self hkind _⟩, fun hbefore => hcovered hbefore _⟩
  · rename_i hrun
    split at hrun
    · cases hrun
      exact ⟨⟨_, rfl⟩, fun hbefore => hcovered hbefore _⟩
    · cases hrun

theorem stageChunk_spec (h : Sound upload l w) (item : Item) :
    match stageChunk R enc io extent upload item l w with
    | .ok l' w' => (∃ chunk, item = .ok chunk ∧ l'.chunks = l.chunks ++ [chunk]) ∧
        ¬ Exceeds upload l.len.toNat item ∧ Sound upload l' w' ∧
        (Covered upload w → Covered upload w')
    | .error e w' => (e = .tooLarge ↔ Exceeds upload l.len.toNat item) ∧
        (Covered upload w → Covered upload w') := by
  cases item with
  | error message =>
    refine ⟨⟨nofun, ?_⟩, id⟩
    rintro ⟨chunk, hchunk, -⟩
    cases hchunk
  | ok chunk =>
    have hmax := upload.maxBytes.toNat_lt
    by_cases hoverflow : 2 ^ 64 ≤ l.len.toNat + chunk.length
    · simp only [stageChunk, if_pos hoverflow]
      exact ⟨⟨fun _ => ⟨chunk, rfl, by omega⟩, fun _ => rfl⟩, id⟩
    · have hlen : (l.len + UInt64.ofNat chunk.length).toNat = l.len.toNat + chunk.length := by
        rw [UInt64.toNat_add, UInt64.toNat_ofNat', Nat.add_mod_mod, Nat.mod_eq_of_lt (by omega)]
      by_cases hlarge : upload.maxBytes < l.len + UInt64.ofNat chunk.length
      · simp only [stageChunk, if_neg hoverflow, if_pos hlarge]
        rw [UInt64.lt_iff_toNat_lt, hlen] at hlarge
        exact ⟨⟨fun _ => ⟨chunk, rfl, hlarge⟩, fun _ => rfl⟩, id⟩
      · simp only [stageChunk, if_neg hoverflow, if_neg hlarge]
        rw [UInt64.lt_iff_toNat_lt, hlen] at hlarge
        have hfits : ¬ Exceeds upload l.len.toNat (.ok chunk) := by
          rintro ⟨chunk', hchunk', hexceeds⟩
          cases hchunk'
          exact hlarge hexceeds
        have hextend := @extendTo_spec ρ R extent (l.len + UInt64.ofNat chunk.length) w
        cases hrun : extendTo R extent (l.len + UInt64.ofNat chunk.length) w with
        | error e w₁ =>
          rw [hrun] at hextend
          obtain ⟨⟨ledger, outstanding, rfl⟩, rfl⟩ := hextend
          rw [bind_error hrun]
          exact ⟨⟨nofun, fun hexceeds => absurd hexceeds hfits⟩, id⟩
        | ok _ w₁ =>
          rw [hrun] at hextend
          obtain ⟨hextended, houtstanding⟩ := hextend
          rw [bind_ok hrun]
          have hsound := h.extended hextended
          have hroom : (l.chunks ++ [chunk]).flatten.length ≤ w₁.reservation.outstanding.toNat := by
            rw [UInt64.le_iff_toNat_le, hlen, h.len] at houtstanding
            rw [List.flatten_append, List.length_append]
            simpa using houtstanding
          have hcovered : Covered upload w → Covered upload w₁ := by
            obtain ⟨ledger, outstanding, rfl⟩ := hextended
            exact id
          have hwrite := @writeAll_spec ρ enc io upload w₁ l.chunks chunk hsound.file hroom
          cases hwritten : writeAll enc io upload l.chunks chunk w₁ with
          | error e w₂ =>
            rw [hwritten] at hwrite
            obtain ⟨⟨kind, rfl⟩, hkept⟩ := hwrite
            rw [bind_error hwritten]
            exact ⟨⟨nofun, fun hexceeds => absurd hexceeds hfits⟩, hkept ∘ hcovered⟩
          | ok _ w₂ =>
            rw [hwritten] at hwrite
            obtain ⟨hfile, hkept⟩ := hwrite
            rw [bind_ok hwritten]
            refine ⟨⟨chunk, rfl, rfl⟩, hfits, ⟨?_, hfile⟩, hkept ∘ hcovered⟩
            show (l.len + UInt64.ofNat chunk.length).toNat = (l.chunks ++ [chunk]).flatten.length
            rw [hlen, h.len, List.flatten_append, List.length_append]
            simp

theorem stageLoop_cons {item : Item} {rest : List Item} :
    stageLoop R enc io extent upload (item :: rest) l w =
      (stageChunk R enc io extent upload item l >>= stageLoop R enc io extent upload rest)
        { w with polls := w.polls + 1 } :=
  rfl

/-- What was taken from the stream is what was staged. -/
theorem stageLoop_spec {items : List Item} (h : Sound upload l w) :
    match stageLoop R enc io extent upload items l w with
    | .ok l' w' => (∃ chunks, items = chunks.map .ok ∧ l'.chunks = l.chunks ++ chunks) ∧
        Sound upload l' w' ∧ (Covered upload w → Covered upload w')
    | .error _ w' => Covered upload w → Covered upload w' := by
  induction items generalizing l w with
  | nil =>
    show (∃ chunks : List Bytes, ([] : List Item) = chunks.map .ok ∧
      l.chunks = l.chunks ++ chunks) ∧ Sound upload l { w with polls := w.polls + 1 } ∧
        (Covered upload w → Covered upload { w with polls := w.polls + 1 })
    exact ⟨⟨[], rfl, (List.append_nil _).symm⟩, ⟨h.len, h.file⟩, id⟩
  | cons item rest ih =>
    rw [stageLoop_cons]
    have hpolled : Sound upload l { w with polls := w.polls + 1 } := ⟨h.len, h.file⟩
    have hchunk := @stageChunk_spec ρ R enc io extent upload l _ hpolled item
    cases hrun : stageChunk R enc io extent upload item l { w with polls := w.polls + 1 } with
    | error e w₁ =>
      rw [hrun] at hchunk
      rw [bind_error hrun]
      exact hchunk.2
    | ok l₁ w₁ =>
      rw [hrun] at hchunk
      obtain ⟨⟨chunk, rfl, hchunks⟩, -, hsound, hcovered⟩ := hchunk
      have hrest := ih hsound
      rw [bind_ok hrun]
      split at hrest
      · obtain ⟨⟨chunks, rfl, hmore⟩, hsound', hcovered'⟩ := hrest
        refine ⟨⟨chunk :: chunks, rfl, ?_⟩, hsound', hcovered' ∘ hcovered⟩
        rw [hmore, hchunks, List.append_assoc]
        rfl
      · exact hrest ∘ hcovered

/-- The loop gives up a body as too large at the first chunk that makes it so. -/
theorem stageLoop_tooLarge {items : List Item} (h : Sound upload l w) :
    (∃ w', stageLoop R enc io extent upload items l w = .error .tooLarge w') ↔
      ∃ (chunks : List Bytes) (chunk : Bytes) (after : List Item),
        items = chunks.map .ok ++ .ok chunk :: after ∧
        (∃ l' w', stageLoop R enc io extent upload (chunks.map .ok) l w = .ok l' w') ∧
        upload.maxBytes.toNat < l.len.toNat + chunks.flatten.length + chunk.length := by
  induction items generalizing l w with
  | nil =>
    constructor
    · rintro ⟨w', hrun⟩
      cases hrun
    · rintro ⟨chunks, chunk, after, hitems, -⟩
      cases chunks <;> cases hitems
  | cons item rest ih =>
    have hpolled : Sound upload l { w with polls := w.polls + 1 } := ⟨h.len, h.file⟩
    have hchunk := @stageChunk_spec ρ R enc io extent upload l _ hpolled item
    cases hrun : stageChunk R enc io extent upload item l { w with polls := w.polls + 1 } with
    | error e w₁ =>
      rw [hrun] at hchunk
      rw [stageLoop_cons, bind_error hrun]
      constructor
      · rintro ⟨w', herror⟩
        cases herror
        obtain ⟨chunk, rfl, hlarge⟩ := hchunk.1.mp rfl
        exact ⟨[], chunk, rest, rfl, ⟨l, _, rfl⟩, hlarge⟩
      · rintro ⟨chunks, chunk, after, hitems, ⟨l', w', hbefore⟩, hlarge⟩
        cases chunks with
        | nil =>
          cases hitems
          exact ⟨w₁, by rw [hchunk.1.mpr ⟨chunk, rfl, hlarge⟩]⟩
        | cons first chunks =>
          -- the chunk that fails is among those that were taken
          cases hitems
          rw [List.map_cons, stageLoop_cons, bind_error hrun] at hbefore
          cases hbefore
    | ok l₁ w₁ =>
      rw [hrun] at hchunk
      obtain ⟨⟨first, rfl, hchunks⟩, hfits, hsound, -⟩ := hchunk
      have hlen : l₁.len.toNat = l.len.toNat + first.length := by
        rw [hsound.len, h.len, hchunks, List.flatten_append, List.length_append]
        simp
      rw [stageLoop_cons, bind_ok hrun, ih hsound, hlen]
      constructor
      · rintro ⟨chunks, chunk, after, rfl, ⟨l', w', hbefore⟩, hlarge⟩
        refine ⟨first :: chunks, chunk, after, rfl, ⟨l', w', ?_⟩, ?_⟩
        · rw [List.map_cons, stageLoop_cons, bind_ok hrun, hbefore]
        · rw [List.flatten_cons, List.length_append]
          omega
      · rintro ⟨chunks, chunk, after, hitems, ⟨l', w', hbefore⟩, hlarge⟩
        cases chunks with
        | nil =>
          cases hitems
          exact absurd ⟨_, rfl, hlarge⟩ hfits
        | cons _ chunks =>
          cases hitems
          rw [List.map_cons, stageLoop_cons, bind_ok hrun] at hbefore
          rw [List.flatten_cons, List.length_append] at hlarge
          exact ⟨chunks, chunk, after, rfl, ⟨l', w', hbefore⟩, by omega⟩

end Loop

/-! ## Before and after the loop -/

section Stage

variable {R enc io extent upload} {l : Local} {w : World ρ} {writes : List Write}

/-- A call that keeps a fact about the file and touches no record. -/
theorem call_triple {f : FsDisk → Except IoErrorKind FsDisk} {P Q : World ρ → Prop}
    (hok : ∀ w disk, P w → f w.disk = .ok disk →
      Q { w with calls := w.calls + 1, disk := disk }) :
    Triple (fun w => P w ∧ w.writes = writes) (call io f) (fun _ w => Q w ∧ w.writes = writes)
      (fun e w => e ≠ .tooLarge ∧ w.writes = writes) := by
  rintro w ⟨hw, hwrites⟩
  have hcall := @call_spec ρ io f w
  cases hrun : call io f w with
  | ok _ w' =>
    rw [hrun] at hcall
    obtain ⟨disk, hdisk, rfl⟩ := hcall
    exact ⟨hok w disk hw hdisk, hwrites⟩
  | error e w' =>
    rw [hrun] at hcall
    obtain ⟨⟨kind, rfl⟩, rfl⟩ := hcall
    exact ⟨nofun, hwrites⟩

/-- The file is there, and nothing has been staged. -/
theorem openPart_spec :
    Triple (fun w : World ρ => w.writes = writes) (openPart io upload)
      (fun _ w => Sound upload ⟨0, []⟩ w ∧ w.writes = writes)
      (fun e w => e ≠ .tooLarge ∧ w.writes = writes) := by
  refine Triple.conseq (P := fun w => True ∧ w.writes = writes) ?_ (fun _ h => ⟨trivial, h⟩)
    (fun _ _ => id) fun _ _ => id
  refine Triple.bind (call_triple (Q := fun _ => True) fun _ _ _ _ => trivial) fun _ => ?_
  refine Triple.bind (Q := fun _ w => True ∧ w.writes = writes) (fun w h => ?_) fun _ => ?_
  · exact h
  refine call_triple fun w disk _ hdisk => ⟨rfl, ?_⟩
  rw [openNew] at hdisk
  split at hdisk
  · rename_i hnew
    cases hdisk
    exact ⟨[], false, Disk.kindAt_createNew_self hnew⟩
  · split at hdisk <;> cases hdisk

/-- The body is stored. -/
structure Stored (enc : Encoder) (upload : Upload) (l : Local) (w : World ρ) : Prop where
  len : l.len.toNat = l.chunks.flatten.length
  small : (enc.encode upload.encoding l.chunks).length < 2 ^ 64
  file : ∃ synced, w.disk.kindAt upload.part = some (.file (enc.encode upload.encoding l.chunks) synced)

theorem finish_spec :
    Triple (fun w : World ρ => Sound upload l w ∧ w.writes = writes)
      (finish enc io upload l.chunks) (fun _ w => Stored enc upload l w ∧ w.writes = writes)
      (fun e w => e ≠ .tooLarge ∧ w.writes = writes) := by
  refine call_triple fun w disk hsound hdisk => ?_
  dsimp only at hdisk
  split at hdisk
  · cases hdisk
  · rename_i hsmall
    cases hdisk
    obtain ⟨content, synced, hkind⟩ := hsound.file
    exact ⟨hsound.len, Nat.lt_of_not_le hsmall, false, Disk.kindAt_write_self hkind _⟩

/-- The stored length is the length of the file. -/
theorem storedLen_spec :
    Triple (fun w : World ρ => Stored enc upload l w ∧ w.writes = writes) (storedLen io upload l)
      (fun stored w => (Stored enc upload l w ∧
        stored.toNat = (enc.encode upload.encoding l.chunks).length) ∧ w.writes = writes)
      (fun e w => e ≠ .tooLarge ∧ w.writes = writes) := by
  rintro w ⟨hstored, hwrites⟩
  unfold storedLen
  cases hencoding : upload.encoding with
  | identity =>
    exact ⟨⟨hstored, hstored.len⟩, hwrites⟩
  | zstd =>
    dsimp only
    obtain ⟨synced, hkind⟩ := hstored.file
    cases hio : io w.calls with
    | some fault =>
      have hquery : ∀ f : FsDisk → UInt64,
          query io f w = .error (.io fault.kind) { w with calls := w.calls + 1 } := by
        intro f
        rw [query, hio]
      rw [hquery]
      exact ⟨nofun, hwrites⟩
    | none =>
      have hquery : ∀ f : FsDisk → UInt64,
          query io f w = .ok (f w.disk) { w with calls := w.calls + 1 } := by
        intro f
        rw [query, hio]
      rw [hquery]
      refine ⟨⟨⟨hstored.len, hstored.small, synced, hkind⟩, ?_⟩, hwrites⟩
      have hsmall := hstored.small
      rw [Disk.content, hkind]
      rw [hencoding] at hsmall ⊢
      exact UInt64.toNat_ofNat_of_lt' hsmall

/-- What is stored is reserved. -/
theorem topUp_spec (stored : UInt64) :
    match topUp R stored w with
    | .ok _ w' => Extended w w' ∧ stored ≤ w'.reservation.outstanding
    | .error e w' => Extended w w' ∧ e = .outOfSpace := by
  unfold topUp
  by_cases hcovered : stored ≤ w.reservation.outstanding
  · rw [if_pos hcovered]
    exact ⟨.refl w, hcovered⟩
  · rw [if_neg hcovered]
    have hextended := @reserve_extended ρ R (stored - w.reservation.outstanding) w
    have houtstanding := @reserve_outstanding ρ R (stored - w.reservation.outstanding) w
    generalize reserve R (stored - w.reservation.outstanding) w = reserved at hextended houtstanding
    obtain ⟨admitted, w'⟩ := reserved
    cases admitted with
    | false => exact ⟨hextended, rfl⟩
    | true =>
      refine ⟨hextended, ?_⟩
      have hadd : w'.reservation = _ := houtstanding rfl
      have hle : w.reservation.outstanding ≤ stored := by
        rw [UInt64.not_le] at hcovered
        exact UInt64.le_of_lt hcovered
      have hsub := UInt64.toNat_sub_of_le _ _ hle
      have hlt := stored.toNat_lt
      rw [UInt64.le_iff_toNat_le, hadd, Reservation.toNat_add, hsub]
      rw [UInt64.le_iff_toNat_le] at hle
      omega

/-- What `stage_reserved` hands on, and what is there. -/
def Ready (enc : Encoder) (upload : Upload) (chunks : List Bytes) (staged : StagedArtifact)
    (w : World ρ) : Prop :=
  staged.digest = enc.sha256 chunks.flatten ∧ staged.len.toNat = chunks.flatten.length ∧
    staged.encoding = upload.encoding ∧
    w.disk.content upload.part = some (enc.encode upload.encoding chunks) ∧
    staged.storedLen.toNat = (enc.encode upload.encoding chunks).length ∧
    staged.storedLen ≤ w.reservation.outstanding

theorem complete_spec :
    Triple (fun w : World ρ => Sound upload l w ∧ w.writes = writes)
      (complete R enc io upload l)
      (fun staged w => Ready enc upload l.chunks staged w ∧ w.writes = writes)
      (fun e w => e ≠ .tooLarge ∧ w.writes = writes) := by
  refine Triple.bind finish_spec fun _ => Triple.bind storedLen_spec fun stored => ?_
  refine Triple.bind (Q := fun _ w => (Stored enc upload l w ∧
    stored.toNat = (enc.encode upload.encoding l.chunks).length ∧
    stored ≤ w.reservation.outstanding) ∧ w.writes = writes) ?_ fun _ => ?_
  · rintro w ⟨⟨hstored, hlen⟩, hwrites⟩
    have htop := @topUp_spec ρ R w stored
    cases hrun : topUp R stored w with
    | ok _ w' =>
      rw [hrun] at htop
      obtain ⟨⟨ledger, outstanding, rfl⟩, hle⟩ := htop
      exact ⟨⟨⟨hstored.len, hstored.small, hstored.file⟩, hlen, hle⟩, hwrites⟩
    | error e w' =>
      rw [hrun] at htop
      obtain ⟨⟨ledger, outstanding, rfl⟩, rfl⟩ := htop
      exact ⟨nofun, hwrites⟩
  have hready : Triple (fun w : World ρ => (Stored enc upload l w ∧
        stored.toNat = (enc.encode upload.encoding l.chunks).length ∧
        stored ≤ w.reservation.outstanding) ∧ w.writes = writes)
      (pure ⟨enc.sha256 l.chunks.flatten, l.len, stored, upload.encoding⟩)
      (fun staged w => Ready enc upload l.chunks staged w ∧ w.writes = writes)
      (fun (e : LocalError) w => e ≠ .tooLarge ∧ w.writes = writes) := by
    refine Triple.pure fun w h => ?_
    obtain ⟨⟨hstored, hlen, hle⟩, hwrites⟩ := h
    obtain ⟨synced, hkind⟩ := hstored.file
    have hcontent : w.disk.content upload.part = some (enc.encode upload.encoding l.chunks) := by
      rw [Disk.content, hkind]
      rfl
    exact ⟨⟨rfl, hstored.len, rfl, hcontent, hlen, hle⟩, hwrites⟩
  split
  · refine Triple.bind (call_triple fun w disk h hdisk => ?_) fun _ => hready
    cases hdisk
    obtain ⟨hstored, hlen, hle⟩ := h
    obtain ⟨synced, hkind⟩ := hstored.file
    exact ⟨⟨hstored.len, hstored.small, true, Disk.kindAt_syncFile_self hkind⟩, hlen, hle⟩
  · exact hready

/-- The chunks of a body, staged into a new file. -/
theorem stageReserved_spec {stream : List Item} (hwrites : w.writes = []) :
    match stageReserved R enc io extent upload stream w with
    | .ok staged w' => (∃ chunks : List Bytes, stream = chunks.map .ok ∧
        Ready enc upload chunks staged w') ∧ Covered upload w'
    | .error _ w' => Covered upload w' := by
  have hnone : ∀ {w' : World ρ}, w'.writes = [] → Covered upload w' := by
    intro w' hw' _ write hwrite
    rw [hw'] at hwrite
    cases hwrite
  have hopen := @openPart_spec ρ io upload [] w hwrites
  rw [stageReserved]
  cases hopened : openPart io upload w with
  | error e w₁ =>
    rw [hopened] at hopen
    rw [bind_error hopened]
    exact hnone hopen.2
  | ok _ w₁ =>
    rw [hopened] at hopen
    rw [bind_ok hopened]
    have hloop := @stageLoop_spec ρ R enc io extent upload _ w₁ stream hopen.1
    cases hlooped : stageLoop R enc io extent upload stream ⟨0, []⟩ w₁ with
    | error e w₂ =>
      rw [hlooped] at hloop
      rw [bind_error hlooped]
      exact hloop (hnone hopen.2)
    | ok l w₂ =>
      rw [hlooped] at hloop
      obtain ⟨⟨chunks, hstream, hchunks⟩, hsound, hcovered⟩ := hloop
      rw [bind_ok hlooped]
      have hcovered := hcovered (hnone hopen.2)
      have hcomplete := @complete_spec ρ R enc io upload l w₂.writes w₂ ⟨hsound, rfl⟩
      have hsame : ∀ {w' : World ρ}, w'.writes = w₂.writes → Covered upload w' := by
        intro w' hw' hidentity
        rw [hw']
        exact hcovered hidentity
      cases hcompleted : complete R enc io upload l w₂ with
      | error e w₃ =>
        rw [hcompleted] at hcomplete
        exact hsame hcomplete.2
      | ok staged w₃ =>
        rw [hcompleted] at hcomplete
        rw [List.nil_append] at hchunks
        exact ⟨⟨chunks, hstream, hchunks ▸ hcomplete.1⟩, hsame hcomplete.2⟩

/-- Only the loop finds a body too large. -/
theorem stageReserved_tooLarge {stream : List Item} :
    (∃ w', stageReserved R enc io extent upload stream w = .error .tooLarge w') ↔
      ∃ w₁, openPart io upload w = .ok () w₁ ∧ Sound upload ⟨0, []⟩ w₁ ∧
        ∃ w', stageLoop R enc io extent upload stream ⟨0, []⟩ w₁ = .error .tooLarge w' := by
  have hopen := @openPart_spec ρ io upload w.writes w rfl
  rw [stageReserved]
  cases hopened : openPart io upload w with
  | error e w₁ =>
    rw [hopened] at hopen
    rw [bind_error hopened]
    constructor
    · rintro ⟨w', hrun⟩
      cases hrun
      exact absurd rfl hopen.1
    · rintro ⟨w', hrun, -⟩
      cases hrun
  | ok _ w₁ =>
    rw [hopened] at hopen
    rw [bind_ok hopened]
    constructor
    · rintro ⟨w', hrun⟩
      refine ⟨w₁, rfl, hopen.1, ?_⟩
      have hloop := @stageLoop_spec ρ R enc io extent upload _ w₁ stream hopen.1
      cases hlooped : stageLoop R enc io extent upload stream ⟨0, []⟩ w₁ with
      | error e w₂ =>
        rw [bind_error hlooped] at hrun
        cases hrun
        exact ⟨w', rfl⟩
      | ok l w₂ =>
        rw [hlooped] at hloop
        have hcomplete := @complete_spec ρ R enc io upload l w₂.writes w₂ ⟨hloop.2.1, rfl⟩
        rw [bind_ok hlooped] at hrun
        rw [hrun] at hcomplete
        exact absurd rfl hcomplete.1
    · rintro ⟨w', hrun, -, w'', hlooped⟩
      cases hrun
      exact ⟨w'', by rw [bind_error hlooped]⟩

/-- Whatever the removal reports, `discard` returns. -/
theorem discard_ok (w : World ρ) :
    ∃ w', discard R io upload w = .ok () w' ∧ w'.writes = w.writes ∧ w'.renamed = w.renamed := by
  rw [discard]
  cases w.reservation.state with
  | vacant => exact ⟨_, rfl, rfl, rfl⟩
  | published => exact ⟨_, rfl, rfl, rfl⟩
  | temporary =>
    have hcall := @call_spec ρ io (removeFile · upload.part) { w with reservation := .new }
    dsimp only
    cases hrun : call io (removeFile · upload.part) { w with reservation := .new } with
    | ok _ w' =>
      rw [hrun] at hcall
      obtain ⟨disk, -, rfl⟩ := hcall
      exact ⟨_, rfl, rfl, rfl⟩
    | error e w' =>
      rw [hrun] at hcall
      obtain ⟨-, rfl⟩ := hcall
      exact ⟨_, rfl, rfl, rfl⟩

/-- The world in which an upload that was admitted starts, or that it is turned away in. -/
theorem reserveInitial_eq (w : World ρ) :
    ∃ admitted w', reserveInitial R extent upload w = .ok admitted w' ∧ w'.writes = [] := by
  have hextended := @reserve_extended ρ R (initial extent upload)
    { w with reservation := .new, writes := [], removal := none, renamed := false }
  refine ⟨_, _, rfl, ?_⟩
  obtain ⟨ledger, outstanding, hw'⟩ := hextended
  exact congrArg World.writes hw'

/-- An upload is turned away, staged, or given up. -/
theorem stage_cases (stream : List Item) (w : World ρ) :
    (∃ w₁, reserveInitial R extent upload w = .ok false w₁ ∧ w₁.writes = [] ∧
      stage R enc io extent upload stream w = .ok (.rejected stream) w₁) ∨
    (∃ w₁, reserveInitial R extent upload w = .ok true w₁ ∧ w₁.writes = [] ∧
      ((∃ staged w₂, stageReserved R enc io extent upload stream w₁ = .ok staged w₂ ∧
        stage R enc io extent upload stream w = .ok (.ready staged) w₂) ∨
      ∃ e w₂ w₃, stageReserved R enc io extent upload stream w₁ = .error e w₂ ∧
        discard R io upload w₂ = .ok () w₃ ∧
        stage R enc io extent upload stream w = .error e w₃)) := by
  obtain ⟨admitted, w₁, hadmission, hwrites⟩ := @reserveInitial_eq ρ R extent upload w
  cases admitted with
  | false =>
    refine .inl ⟨w₁, hadmission, hwrites, ?_⟩
    rw [stage, bind_ok hadmission]
    rfl
  | true =>
    refine .inr ⟨w₁, hadmission, hwrites, ?_⟩
    rw [stage, bind_ok hadmission, if_pos rfl]
    cases hstaged : stageReserved R enc io extent upload stream w₁ with
    | ok staged w₂ =>
      exact .inl ⟨staged, w₂, rfl, bind_ok (tryCatch_ok hstaged)⟩
    | error e w₂ =>
      obtain ⟨w₃, hdiscard, -⟩ := @discard_ok ρ R io upload w₂
      refine .inr ⟨e, w₂, w₃, rfl, hdiscard, bind_error ((tryCatch_error hstaged).trans ?_)⟩
      exact bind_ok hdiscard

/-- A body is too large exactly when its loop finds it so. -/
theorem stage_tooLarge {stream : List Item} :
    (∃ w', stage R enc io extent upload stream w = .error .tooLarge w') ↔
      ∃ w₁, reserveInitial R extent upload w = .ok true w₁ ∧
        ∃ w', stageReserved R enc io extent upload stream w₁ = .error .tooLarge w' := by
  rcases @stage_cases ρ R enc io extent upload stream w with
    ⟨w₁, hadmission, -, hstage⟩ |
    ⟨w₁, hadmission, -, ⟨staged, w₂, hrun, hstage⟩ | ⟨e, w₂, w₃, hrun, -, hstage⟩⟩
  · rw [hstage]
    constructor
    · rintro ⟨w', herror⟩
      cases herror
    · rintro ⟨w', hadmission', -⟩
      rw [hadmission] at hadmission'
      cases hadmission'
  · rw [hstage]
    constructor
    · rintro ⟨w', herror⟩
      cases herror
    · rintro ⟨w', hadmission', w'', herror⟩
      rw [hadmission] at hadmission'
      cases hadmission'
      rw [hrun] at herror
      cases herror
  · rw [hstage]
    constructor
    · rintro ⟨w', herror⟩
      cases herror
      exact ⟨w₁, hadmission, w₂, hrun⟩
    · rintro ⟨w', hadmission', w'', herror⟩
      rw [hadmission] at hadmission'
      cases hadmission'
      rw [hrun] at herror
      cases herror
      exact ⟨w₃, rfl⟩

/-- What `commit` is told to commit, when there is that much; the slack goes back. -/
theorem commit_eq {stored : UInt64} (h : stored ≤ w.reservation.outstanding) :
    ∃ slack : UInt64, w.reservation.outstanding.toNat = stored.toNat + slack.toNat ∧
      commit R stored w = .ok () { w with
        ledger := if slack > 0 then R.release (R.commit w.ledger stored) slack
          else R.commit w.ledger stored
        reservation := { w.reservation with outstanding := 0 } } := by
  have hmin : min stored w.reservation.outstanding = stored := if_pos h
  have hsub := UInt64.toNat_sub_of_le _ _ h
  have hle := UInt64.le_iff_toNat_le.mp h
  refine ⟨w.reservation.outstanding - stored, by omega, ?_⟩
  show EStateM.Result.ok () _ = _
  simp only [hmin]

end Stage

/-! ## Every run -/

/-- No sequence of extents stays below a length forever. -/
theorem extends_finite (len : UInt64) (run : Nat → World ρ) :
    ¬ ∀ n, (run n).reservation.outstanding < len ∧
      reserve R extent.bytes (run n) = (true, run (n + 1)) := by
  intro hrun
  have hgrows : ∀ n, n ≤ (run n).reservation.outstanding.toNat := by
    intro n
    induction n with
    | zero => exact Nat.zero_le _
    | succ n ih =>
      obtain ⟨hlt, hreserve⟩ := hrun n
      have hmore := lt_saturatingAdd extent hlt
      have hadd := @reserve_outstanding ρ R extent.bytes (run n)
      rw [hreserve] at hadd
      rw [hadd rfl]
      show n + 1 ≤ (saturatingAdd _ _).toNat
      omega
  have hlt := UInt64.lt_iff_toNat_lt.mp (hrun len.toNat).1
  have hle := hgrows len.toNat
  omega

/-- The inner loop makes progress, a body is too large exactly when a prefix of what was taken is,
no chunk is written verbatim ahead of its reservation, and what is ready to be published is stored,
reserved and described as it is. -/
theorem staging_loop (stream : List Item) (w : World ρ) :
    (∀ (len : UInt64) (run : Nat → World ρ), ¬ ∀ n, (run n).reservation.outstanding < len ∧
      reserve R extent.bytes (run n) = (true, run (n + 1))) ∧
    ((∃ w', stage R enc io extent upload stream w = .error .tooLarge w') ↔
      ∃ (chunks : List Bytes) (chunk : Bytes) (after : List Item),
        stream = chunks.map .ok ++ .ok chunk :: after ∧
        (∃ w₁ w₂ l w₃, reserveInitial R extent upload w = .ok true w₁ ∧ openPart io upload w₁ = .ok () w₂ ∧
          stageLoop R enc io extent upload (chunks.map .ok) ⟨0, []⟩ w₂ = .ok l w₃) ∧
        upload.maxBytes.toNat < chunks.flatten.length + chunk.length) ∧
    (upload.encoding = .identity →
      ∀ write ∈ (finalState (stage R enc io extent upload stream w)).writes,
        write.total ≤ write.outstanding.toNat) ∧
    (∀ staged w', stage R enc io extent upload stream w = .ok (.ready staged) w' →
      (∃ chunks : List Bytes, stream = chunks.map .ok ∧ Ready enc upload chunks staged w') ∧
      ∃ slack : UInt64, w'.reservation.outstanding.toNat = staged.storedLen.toNat + slack.toNat ∧
        commit R staged.storedLen w' = .ok () { w' with
          ledger := if slack > 0 then R.release (R.commit w'.ledger staged.storedLen) slack
            else R.commit w'.ledger staged.storedLen
          reservation := { w'.reservation with outstanding := 0 } }) := by
  refine ⟨extends_finite R extent, ?_, ?_, ?_⟩
  · rw [stage_tooLarge]
    simp only [stageReserved_tooLarge]
    constructor
    · rintro ⟨w₁, hadmission, w₂, hopen, hsound, hloop⟩
      obtain ⟨chunks, chunk, after, hstream, ⟨l, w₃, htaken⟩, hlarge⟩ :=
        (stageLoop_tooLarge hsound).mp hloop
      refine ⟨chunks, chunk, after, hstream, ⟨w₁, w₂, l, w₃, hadmission, hopen, htaken⟩, ?_⟩
      simpa using hlarge
    · rintro ⟨chunks, chunk, after, hstream, ⟨w₁, w₂, l, w₃, hadmission, hopen, htaken⟩, hlarge⟩
      have hopened := @openPart_spec ρ io upload w₁.writes w₁ rfl
      rw [hopen] at hopened
      refine ⟨w₁, hadmission, w₂, hopen, hopened.1, (stageLoop_tooLarge hopened.1).mpr ?_⟩
      refine ⟨chunks, chunk, after, hstream, ⟨l, w₃, htaken⟩, ?_⟩
      simpa using hlarge
  · intro hidentity
    rcases @stage_cases ρ R enc io extent upload stream w with
      ⟨w₁, -, hwrites, hstage⟩ |
      ⟨w₁, -, hwrites, ⟨staged, w₂, hrun, hstage⟩ | ⟨e, w₂, w₃, hrun, hdiscard, hstage⟩⟩
    · rw [hstage]
      show ∀ write ∈ w₁.writes, _
      rw [hwrites]
      exact fun write hwrite => absurd hwrite (List.not_mem_nil)
    · have hspec := @stageReserved_spec ρ R enc io extent upload w₁ stream hwrites
      rw [hrun] at hspec
      rw [hstage]
      exact hspec.2 hidentity
    · have hspec := @stageReserved_spec ρ R enc io extent upload w₁ stream hwrites
      obtain ⟨w₃', hdiscard', hkept, -⟩ := @discard_ok ρ R io upload w₂
      rw [hdiscard] at hdiscard'
      cases hdiscard'
      rw [hrun] at hspec
      rw [hstage]
      show ∀ write ∈ w₃.writes, _
      rw [hkept]
      exact hspec hidentity
  · intro staged w' hready
    rcases @stage_cases ρ R enc io extent upload stream w with
      ⟨w₁, -, -, hstage⟩ |
      ⟨w₁, -, hwrites, ⟨staged', w₂, hrun, hstage⟩ | ⟨e, w₂, w₃, -, -, hstage⟩⟩
    · rw [hstage] at hready
      cases hready
    · rw [hstage] at hready
      cases hready
      have hspec := @stageReserved_spec ρ R enc io extent upload w₁ stream hwrites
      rw [hrun] at hspec
      obtain ⟨⟨chunks, hstream, hbody⟩, -⟩ := hspec
      exact ⟨⟨chunks, hstream, hbody⟩, commit_eq hbody.2.2.2.2.2⟩
    · rw [hstage] at hready
      cases hready

/-! ## An upload of unknown length -/

/-- A reserver with a fixed capacity. -/
structure Accounting where
  capacity : UInt64
  reserved : UInt64
  committed : UInt64

def Accounting.reserver : Reserver Accounting where
  tryReserve a bytes :=
    if saturatingSub a.capacity (a.reserved + a.committed) < bytes then (false, a)
    else (true, { a with reserved := a.reserved + bytes })
  release a bytes := { a with reserved := a.reserved - bytes }
  commit a bytes := { a with reserved := a.reserved - bytes, committed := a.committed + bytes }

/-- The body `abcdefghijkl`. -/
def sampleBody : Bytes := [97, 98, 99, 100, 101, 102, 103, 104, 105, 106, 107, 108]

/-- The digest is right for the sample body; no frame is asked for. -/
def sampleEncoder : Encoder where
  sha256 body :=
    if body = sampleBody then
      ⟨(beDigits 256 32 0xd682ed4ca4d989c134ec94f1551e1ec580dd6d5a6ecde9f3d35e6e4a717fbde4).map
        UInt8.ofNat, by simp⟩
    else ⟨List.replicate 32 0, length_zeros⟩
  zstdEncode := List.flatten
  zstdWritten := List.flatten

def sampleUpload : Upload where
  channel := .default
  name := [120]
  maxBytes := 12
  contentLength := none
  durability := .bestEffort
  encoding := .identity

def sampleChunks : List Bytes :=
  [sampleBody.take 3, (sampleBody.drop 3).take 4, sampleBody.drop 7]

def sampleWorld : World Accounting where
  disk := ∅
  ledger := ⟨12, 0, 0⟩
  reservation := .new
  calls := 0
  polls := 0
  writes := []
  removal := none
  renamed := false

/-- Three extents of four bytes hold the body of twelve. -/
theorem unknown_length_reserves_every_extent :
    ∃ staged w', stage Accounting.reserver sampleEncoder (fun _ => none) ⟨4, by decide⟩ sampleUpload
        (sampleChunks.map .ok) sampleWorld = .ok (.ready staged) w' ∧
      (staged.len = 12 ∧ w'.ledger.reserved = 12 ∧ w'.writes.length = 3) ∧
      ∃ chunks : List Bytes, (sampleChunks.map .ok : List Item) = chunks.map .ok ∧
        Ready sampleEncoder sampleUpload chunks staged w' := by
  have hsample : ((match stage Accounting.reserver sampleEncoder (fun _ => none) ⟨4, by decide⟩
      sampleUpload (sampleChunks.map .ok) sampleWorld with
    | .ok (.ready staged) w' =>
      staged.len == 12 && w'.ledger.reserved == 12 && w'.writes.length == 3
    | _ => false) : Bool) = true := by
    decide +kernel
  split at hsample
  · rename_i staged w' hrun
    obtain ⟨⟨chunks, hchunks, hready⟩, -⟩ := (staging_loop Accounting.reserver sampleEncoder
      (fun _ => none) ⟨4, by decide⟩ sampleUpload (sampleChunks.map .ok) sampleWorld).2.2.2
        staged w' hrun
    simp only [Bool.and_eq_true, beq_iff_eq] at hsample
    exact ⟨staged, w', hrun, ⟨hsample.1.1, hsample.1.2, hsample.2⟩, chunks, hchunks, hready⟩
  · cases hsample

end ArtifactFiles

end Flywheel
