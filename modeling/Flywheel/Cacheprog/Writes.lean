import Flywheel.Cacheprog.Files
import Flywheel.Cacheprog.Manifest
import Flywheel.Lib.History

/-!
# A session's own writes (`put` and `get` of `cacheprog/mod.rs`)

A get is answered from the manifest, if the file of the entry is in the directory, and otherwise by
the server. A put goes to the server and to the directory; the manifest stays what it was when it
was installed. A get from the network therefore answers with what the session has written last, and
a get from the manifest with what an earlier build has written.

Requests overlap with each other and with the prefetch task, which installs the manifest and changes
the directory. What the server took from the session is kept as a history (`Shared.taken`), and an
answer is right if it was the latest at some moment since the request was read (`MayRead`).

- `Task.step`: the steps of a put and of a get.
- `Fits`: what the server takes from the session, and the manifest as it is installed, agree on the
  outputs of the actions.
- `own_writes`: as long as the steps fit every get reads what was written, and after a step that
  does not a get may be answered with what was not.

The server keeps what it takes, and no other session writes the actions of this one.
-/

set_option autoImplicit false

namespace Flywheel.Cacheprog.Writes

open Lib

/-! ## The session -/

/-- The object directory: what is not under a temporary name is under its digest. -/
structure Objects (sha256 : Bytes → Digest) where
  read : Bytes → Option Bytes
  complete : ∀ name content, isTemporary name = false → read name = some content →
    hexEncode (sha256 content).bytes = name

/-- A put that has passed the checks. -/
structure Put (sha256 : Bytes → Digest) where
  request : Request
  body : Bytes
  size : UInt64.ofNat body.length = request.bodySize
  digest : (sha256 body).bytes = request.outputId

/-- A get, and how many puts the server had taken when it was read. -/
structure Get where
  request : Request
  since : ℕ

def Get.action (get : Get) : Bytes := hexEncode get.request.actionId

structure Shared (sha256 : Bytes → Digest) where
  manifest : Option Manifest
  used : Bytes → Option UsedEntry
  /-- The downloads of the prefetch task that are in progress. -/
  inflight : Bytes → Bool
  objects : Objects sha256
  /-- What the server has under its keys. -/
  server : Bytes → Option Bytes
  /-- The PUTs that have ended in an error before the server took them. They may still arrive. -/
  abandoned : List (Put sha256)
  /-- The actions and outputs of the puts that the server has taken. -/
  taken : List (Bytes × Bytes)

section

variable {sha256 : Bytes → Digest}

def Objects.hasSize (objects : Objects sha256) (name : Bytes) (size : ℕ) : Bool :=
  (objects.read name).any (·.length = size)

/-- `write_disk_file`, under the digest of the body. -/
def Objects.write (objects : Objects sha256) (body : Bytes) : Objects sha256 :=
  let name := hexEncode (sha256 body).bytes
  if objects.hasSize name body.length then objects
  else
    { read := Function.update objects.read name (some body)
      complete := by
        intro name' content htemporary hread
        by_cases hname : name' = name
        · subst hname
          rw [Function.update_self] at hread
          cases hread
          rfl
        · rw [Function.update_of_ne hname] at hread
          exact objects.complete name' content htemporary hread }

namespace Shared

variable (s : Shared sha256)

def manifestEntry (action : Bytes) : Option ManifestEntry := do
  let manifest ← s.manifest
  manifest.entries[action]?

def recordUsed (action output : Bytes) (size : UInt64) : Shared sha256 :=
  { s with used := Function.update s.used action (some ⟨output, size⟩) }

/-- The server takes a put. -/
def take (put : Put sha256) : Shared sha256 :=
  { s with
    server := Function.update s.server (actionKey (hexEncode put.request.actionId)) (some put.body)
    taken := s.taken ++ [(put.request.actionId, put.request.outputId)] }

/-- What the server may answer to a GET. The digest in its `ETag` is that of the body. -/
def serves (key : Bytes) : Option Fetched → Bool
  | none => (s.server key).isNone
  | some fetched => (s.server key).any fun stored =>
    (fetched.etag.bind etagDigest).all (· = hexEncode (sha256 stored).bytes) &&
      match fetched.body with
      | .ok body => body = stored
      | .error _ => true

end Shared

end

/-! ## Requests -/

inductive Task (sha256 : Bytes → Digest) where
  | idle
  | write (put : Put sha256)
  /-- The PUT is under way. -/
  | send (put : Put sha256) (diskPath : String) (taken : Bool)
  | putAnswered (request : Request) (answer : Except String Response)
  | lookup (get : Get)
  | test (get : Get) (entry : ManifestEntry)
  /-- There was no file; the mark of a download is looked up next. -/
  | mark (get : Get) (entry : ManifestEntry)
  | wait (get : Get) (entry : ManifestEntry)
  | retest (get : Get) (entry : ManifestEntry)
  /-- The file of the entry is there. -/
  | found (get : Get) (entry : ManifestEntry)
  | fetch (get : Get)
  | save (get : Get) (body : Bytes)
  | getAnswered (get : Get) (answer : Except String Response)

inductive Event where
  /-- A put request, with what its body is decoded to. -/
  | put (request : Request) (decoded : Except String Bytes)
  | get (request : Request)
  | run
  /-- The end of `write_disk_file` and of `canonical_path`. -/
  | path (result : Except String String)
  | take
  | reply (result : Except String Unit)
  | fetched (result : Except String (Option Fetched))

namespace Task

variable {sha256 : Bytes → Digest}

/-- A put is checked as it is read. -/
def beginPut (request : Request) : Except String Bytes → Task sha256
  | .error error => putAnswered request (.error error)
  | .ok body =>
    if hsize : UInt64.ofNat body.length = request.bodySize then
      if hdigest : (sha256 body).bytes = request.outputId then
        write ⟨request, body, hsize, hdigest⟩
      else putAnswered request (.error "cacheprog output digest mismatch")
    else putAnswered request (.error "cacheprog body size mismatch")

/-- The answer from the manifest. -/
def localAnswer (hexError : Bytes → String) (get : Get) (entry : ManifestEntry)
    (path : Except String String) : Except String Response :=
  match hexDecode entry.output with
  | none => .error (hexError entry.output)
  | some outputId =>
    path.map fun diskPath => { id := get.request.id, outputId, size := entry.size, diskPath }

/-- The answer from the network. -/
def fetchedAnswer (sha256 : Bytes → Digest) (get : Get) (body : Bytes) (diskPath : String) :
    Response :=
  { id := get.request.id, outputId := (sha256 body).bytes, size := UInt64.ofNat body.length,
    diskPath }

def missAnswer (get : Get) : Response := { id := get.request.id, miss := true }

/-- What follows the response to a GET. -/
def receive (sha256 : Bytes → Digest) (get : Get) : Except String (Option Fetched) → Task sha256
  | .error error => getAnswered get (.error error)
  | .ok none => getAnswered get (.ok (missAnswer get))
  | .ok (some fetched) =>
    match fetched.body with
    | .error error => getAnswered get (.error error)
    | .ok body =>
      if (fetched.etag.bind etagDigest).any (· ≠ hexEncode (sha256 body).bytes) then
        getAnswered get (.ok (missAnswer get))
      else save get body

def step (hexError : Bytes → String) (e : Event) (s : Shared sha256) :
    Task sha256 → Option (Shared sha256 × Task sha256)
  | idle | putAnswered _ _ | getAnswered _ _ =>
    match e with
    | .put request decoded => some (s, beginPut request decoded)
    | .get request => some (s, lookup ⟨request, s.taken.length⟩)
    | _ => none
  | write put =>
    match e with
    | .path (.ok diskPath) =>
      some ({ s with objects := s.objects.write put.body }, send put diskPath false)
    | .path (.error error) => some (s, putAnswered put.request (.error error))
    | _ => none
  | send put diskPath taken =>
    match e with
    | .take => if taken then none else some (s.take put, send put diskPath true)
    | .reply (.error error) =>
      some ({ s with abandoned := if taken then s.abandoned else put :: s.abandoned },
        putAnswered put.request (.error error))
    | .reply (.ok ()) =>
      if taken then
        some (s.recordUsed (hexEncode put.request.actionId) (hexEncode put.request.outputId)
            put.request.bodySize,
          putAnswered put.request (.ok { id := put.request.id, diskPath }))
      else none
    | _ => none
  | lookup get =>
    match e with
    | .run =>
      match s.manifestEntry get.action with
      | some entry => some (s, test get entry)
      | none => some (s, fetch get)
    | _ => none
  | test get entry =>
    match e with
    | .run =>
      some (s, if s.objects.hasSize entry.output entry.size.toNat then found get entry
        else mark get entry)
    | _ => none
  | mark get entry =>
    match e with
    | .run => some (s, if s.inflight entry.output then wait get entry else fetch get)
    | _ => none
  | wait get entry =>
    match e with
    | .run => if s.inflight entry.output then none else some (s, retest get entry)
    | _ => none
  | retest get entry =>
    match e with
    | .run =>
      some (s, if s.objects.hasSize entry.output entry.size.toNat then found get entry
        else fetch get)
    | _ => none
  | found get entry =>
    match e with
    | .path result =>
      some (s.recordUsed get.action entry.output entry.size,
        getAnswered get (localAnswer hexError get entry result))
    | _ => none
  | fetch get =>
    match e with
    | .fetched result =>
      match result with
      | .error _ => some (s, receive sha256 get result)
      | .ok answer =>
        if s.serves (actionKey get.action) answer then some (s, receive sha256 get result) else none
    | _ => none
  | save get body =>
    match e with
    | .path (.ok diskPath) =>
      some (Shared.recordUsed { s with objects := s.objects.write body } get.action
          (hexEncode (sha256 body).bytes) (UInt64.ofNat body.length),
        getAnswered get (.ok (fetchedAnswer sha256 get body diskPath)))
    | .path (.error error) => some (s, getAnswered get (.error error))
    | _ => none

end Task

/-! ## Runs -/

/-- A session, and any number of requests. -/
abbrev Requests (ι : Type) (sha256 : Bytes → Digest) : Type := Pool ι (Shared sha256) (Task sha256)

inductive Action (ι : Type) (sha256 : Bytes → Digest) where
  | work (i : ι) (e : Event)
  | install (manifest : Manifest)
  /-- The prefetch task, and other helpers. -/
  | directory (objects : Objects sha256) (inflight : Bytes → Bool)
  | arrive (k : ℕ)

variable {ι : Type} {sha256 : Bytes → Digest}

section

variable [DecidableEq ι] (hexError : Bytes → String)

def fire (p : Requests ι sha256) : Action ι sha256 → Option (Requests ι sha256)
  | .work i e => Pool.fire (fun _ e s w => Task.step hexError e s w) p i e
  | .install manifest =>
    -- `get_or_init`
    some { p with shared := { p.shared with manifest := p.shared.manifest.or (some manifest) } }
  | .directory objects inflight => some { p with shared := { p.shared with objects, inflight } }
  | .arrive k => p.shared.abandoned[k]?.map fun put => { p with shared := p.shared.take put }

def system : System (Requests ι sha256) (Action ι sha256) where
  init p := p.shared.taken = [] ∧ ∀ i, p.task i = .idle
  step p a p' := fire hexError p a = some p'

end

/-- The put that the server takes in a step of a request. -/
def Task.taking : Event → Task sha256 → Option (Put sha256)
  | .take, .send put _ false => some put
  | _, _ => none

/-- The put that the server takes in a step. -/
def taking (p : Requests ι sha256) : Action ι sha256 → Option (Put sha256)
  | .work i e => (p.task i).taking e
  | .arrive k => p.shared.abandoned[k]?
  | _ => none

/-- A file of the digest and the size of the entry is the file of the output. -/
def Names (sha256 : Bytes → Digest) (entry : ManifestEntry) (output : Bytes) : Prop :=
  ∀ content, hexEncode (sha256 content).bytes = entry.output →
    content.length = entry.size.toNat → (sha256 content).bytes = output

/-- A put that the server takes is of the output that the manifest lists for the action, if it lists
the action, and a manifest that is installed lists for an action the output written last, if there
is one. -/
structure Fits (p : Requests ι sha256) (a : Action ι sha256) : Prop where
  put : ∀ put entry, taking p a = some put →
    p.shared.manifestEntry (hexEncode put.request.actionId) = some entry →
    Names sha256 entry put.request.outputId
  install : ∀ manifest, a = .install manifest → p.shared.manifest = none →
    ∀ action output entry, latest p.shared.taken action = some output →
      manifest.entries[hexEncode action]? = some entry → Names sha256 entry output

/-- The output of an answer, if it is no miss. -/
def answered (response : Response) : Option Bytes :=
  if response.miss then none else some response.outputId

section

variable {hexError : Bytes → String} {s s' : Shared sha256} {w w' : Task sha256} {e : Event}

/-- The server has what was written last. -/
def Shared.Serves (s : Shared sha256) : Prop :=
  ∀ action output, latest s.taken action = some output →
    ∃ body, s.server (actionKey (hexEncode action)) = some body ∧ (sha256 body).bytes = output

theorem actionKey_inj {action action' : Bytes}
    (h : actionKey (hexEncode action) = actionKey (hexEncode action')) : action = action' :=
  hexEncode_inj (List.append_cancel_left h)

theorem Shared.Serves.take (h : s.Serves) (put : Put sha256) : (s.take put).Serves := by
  intro action output hlatest
  rw [Shared.take, latest_append_singleton] at hlatest
  by_cases haction : put.request.actionId = action
  · rw [if_pos haction] at hlatest
    cases hlatest
    refine ⟨put.body, ?_, put.digest⟩
    rw [← haction]
    exact Function.update_self ..
  · rw [if_neg haction] at hlatest
    obtain ⟨body, hbody, hdigest⟩ := h action output hlatest
    refine ⟨body, ?_, hdigest⟩
    rw [← hbody]
    exact Function.update_of_ne (fun hkey => haction (actionKey_inj hkey).symm) ..

/-- What a request knows of the history. -/
def Task.Ok (s : Shared sha256) : Task sha256 → Prop
  | .send put _ taken =>
    taken = true → (put.request.actionId, put.request.outputId) ∈ s.taken
  | .putAnswered request (.ok _) => (request.actionId, request.outputId) ∈ s.taken
  | .lookup get | .fetch get => get.since ≤ s.taken.length
  | .test get entry | .mark get entry | .wait get entry | .retest get entry =>
    get.since ≤ s.taken.length ∧ s.manifestEntry get.action = some entry
  | .found get entry => ∀ output, hexDecode entry.output = some output →
    MayRead s.taken get.since get.request.actionId (some output)
  | .save get body =>
    MayRead s.taken get.since get.request.actionId (some (sha256 body).bytes)
  | .getAnswered get (.ok response) =>
    MayRead s.taken get.since get.request.actionId (answered response)
  | _ => True

/-- The history only grows, and the manifest stays. -/
structure Shared.Later (s s' : Shared sha256) : Prop where
  grows : ∃ writes, s'.taken = s.taken ++ writes
  lists : ∀ action entry, s.manifestEntry action = some entry →
    s'.manifestEntry action = some entry

theorem Shared.later_of_same (htaken : s'.taken = s.taken) (hmanifest : s'.manifest = s.manifest) :
    s.Later s' where
  grows := ⟨[], by rw [htaken, List.append_nil]⟩
  lists action entry hentry := by rwa [manifestEntry, hmanifest]

theorem Task.Ok.later (h : w.Ok s) (hlater : s.Later s') : w.Ok s' := by
  obtain ⟨⟨writes, hwrites⟩, hlists⟩ := hlater
  have hmem : ∀ {write}, write ∈ s.taken → write ∈ s'.taken := fun hwrite => by
    rw [hwrites]
    exact List.mem_append_left _ hwrite
  have hlength : s.taken.length ≤ s'.taken.length := by
    rw [hwrites, List.length_append]
    exact Nat.le_add_right _ _
  have hread : ∀ {since action v}, MayRead s.taken since action v →
      MayRead s'.taken since action v := fun hread => by
    rw [hwrites]
    exact hread.append writes
  match w with
  | .idle | .write _ | .putAnswered _ (.error _) | .getAnswered _ (.error _) => trivial
  | .send _ _ _ => exact fun htrue => hmem (h htrue)
  | .putAnswered _ (.ok _) => exact hmem h
  | .lookup _ | .fetch _ => exact h.trans hlength
  | .test _ _ | .mark _ _ | .wait _ _ | .retest _ _ =>
    exact ⟨h.1.trans hlength, hlists _ _ h.2⟩
  | .found _ _ => exact fun output houtput => hread (h output houtput)
  | .save _ _ => exact hread h
  | .getAnswered _ (.ok _) => exact hread h

theorem Task.beginPut_ok (request : Request) (decoded : Except String Bytes) :
    (beginPut request decoded : Task sha256).Ok s := by
  unfold beginPut
  split
  · trivial
  · split
    · split <;> trivial
    · trivial

theorem Shared.Serves.of_latest (hserves : s.Serves) (action : Bytes) {since : ℕ}
    (hsince : since ≤ s.taken.length) :
    MayRead s.taken since action
      ((s.server (actionKey (hexEncode action))).map fun body => (sha256 body).bytes) := by
  refine mayRead_of_latest hsince fun output hlatest => ?_
  obtain ⟨body, hbody, hdigest⟩ := hserves action output hlatest
  rw [hbody, Option.map_some, hdigest]

/-- What the server answers to a get is what was written last. -/
theorem Task.receive_ok (hserves : s.Serves) {get : Get} (hsince : get.since ≤ s.taken.length)
    {result : Except String (Option Fetched)}
    (hresult : ∀ answer, result = .ok answer → s.serves (actionKey get.action) answer = true) :
    (receive sha256 get result).Ok s := by
  have hread := hserves.of_latest get.request.actionId hsince
  unfold receive
  split
  · trivial
  · -- The server has nothing.
    have hnone : s.server (actionKey get.action) = none := by
      simpa [Shared.serves] using hresult none rfl
    rw [Get.action] at hnone
    rw [hnone] at hread
    exact hread
  · rename_i fetched
    obtain ⟨stored, hstored, hanswer⟩ := (Option.any_eq_true _ _).mp (hresult (some fetched) rfl)
    obtain ⟨hetag, hbody⟩ := Bool.and_eq_true_iff.mp hanswer
    rw [Get.action] at hstored
    rw [hstored] at hread
    split
    · trivial
    · rename_i body hfetched
      rw [hfetched] at hbody
      obtain rfl : body = stored := of_decide_eq_true hbody
      have hintact : ¬ (fetched.etag.bind etagDigest).any
          (fun digest => decide (digest ≠ hexEncode (sha256 body).bytes)) = true := by
        intro hany
        obtain ⟨digest, hdigest, hne⟩ := (Option.any_eq_true _ _).mp hany
        rw [hdigest] at hetag
        exact of_decide_eq_true hne (of_decide_eq_true hetag)
      rw [if_neg hintact]
      exact hread

theorem answered_localAnswer {get : Get} {entry : ManifestEntry} {path : Except String String}
    {response : Response} (h : Task.localAnswer hexError get entry path = .ok response) :
    ∃ output, hexDecode entry.output = some output ∧ answered response = some output := by
  unfold Task.localAnswer at h
  split at h
  · cases h
  · rename_i output houtput
    refine ⟨output, houtput, ?_⟩
    cases path with
    | error error => cases h
    | ok diskPath =>
      cases h
      rfl

/-- What has been written last is what the manifest lists, if it lists the action. -/
def Shared.Listed (s : Shared sha256) : Prop :=
  ∀ action output entry, latest s.taken action = some output →
    s.manifestEntry (hexEncode action) = some entry → Names sha256 entry output

theorem Objects.exists_of_hasSize {objects : Objects sha256} {name output : Bytes} {size : ℕ}
    (hsize : objects.hasSize name size = true) (houtput : hexDecode name = some output) :
    ∃ content, hexEncode (sha256 content).bytes = name ∧ content.length = size ∧
      (sha256 content).bytes = output := by
  obtain ⟨content, hread, hlength⟩ := (Option.any_eq_true _ _).mp hsize
  have hname := objects.complete name content (isTemporary_of_hexDecode houtput) hread
  refine ⟨content, hname, of_decide_eq_true hlength, ?_⟩
  rw [← hname, hexDecode_hexEncode] at houtput
  exact Option.some.inj houtput

/-- The file of an entry of the manifest may be answered with. -/
theorem Shared.Listed.mayRead (h : s.Listed) {get : Get} {entry : ManifestEntry} {output : Bytes}
    (hsince : get.since ≤ s.taken.length) (hentry : s.manifestEntry get.action = some entry)
    (hsize : s.objects.hasSize entry.output entry.size.toNat = true)
    (houtput : hexDecode entry.output = some output) :
    MayRead s.taken get.since get.request.actionId (some output) := by
  refine mayRead_of_latest hsince fun written hlatest => ?_
  obtain ⟨content, hname, hlength, hdigest⟩ := Objects.exists_of_hasSize hsize houtput
  rw [← hdigest, h _ written entry hlatest hentry content hname hlength]

/-- What comes of a step of a request. -/
structure Stepped (s s' : Shared sha256) (w' : Task sha256) : Prop where
  later : s.Later s'
  serves : s'.Serves
  ok : w'.Ok s'

theorem stepped_of_same (hserves : s.Serves) (htaken : s'.taken = s.taken)
    (hserver : s'.server = s.server) (hmanifest : s'.manifest = s.manifest) (hok : w'.Ok s) :
    Stepped s s' w' where
  later := Shared.later_of_same htaken hmanifest
  serves := by
    unfold Shared.Serves
    rw [htaken, hserver]
    exact hserves
  ok := hok.later (Shared.later_of_same htaken hmanifest)

theorem Shared.later_take (s : Shared sha256) (put : Put sha256) : s.Later (s.take put) where
  grows := ⟨_, rfl⟩
  lists _ _ := id

theorem Task.begin_stepped (hserves : s.Serves)
    (hstep : (match e with
      | .put request decoded => some (s, beginPut request decoded)
      | .get request => some (s, lookup ⟨request, s.taken.length⟩)
      | _ => none) = some (s', w')) : Stepped s s' w' := by
  split at hstep
  · cases hstep
    exact stepped_of_same hserves rfl rfl rfl (beginPut_ok _ _)
  · cases hstep
    exact stepped_of_same hserves rfl rfl rfl (Nat.le_refl s.taken.length)
  · cases hstep

theorem Task.step_stepped (hserves : s.Serves) (hlisted : s.Listed) (hw : w.Ok s)
    (hstep : step hexError e s w = some (s', w')) : Stepped s s' w' := by
  cases w with
  | idle => exact begin_stepped hserves hstep
  | putAnswered request answer => exact begin_stepped hserves hstep
  | getAnswered get answer => exact begin_stepped hserves hstep
  | write put =>
    simp only [step] at hstep
    split at hstep
    · cases hstep
      exact stepped_of_same hserves rfl rfl rfl nofun
    · cases hstep
      exact stepped_of_same hserves rfl rfl rfl trivial
    · cases hstep
  | send put diskPath taken =>
    simp only [step] at hstep
    split at hstep
    · split at hstep
      · cases hstep
      · cases hstep
        exact ⟨s.later_take put, hserves.take put,
          fun _ => List.mem_append_right _ List.mem_cons_self⟩
    · cases hstep
      exact stepped_of_same hserves rfl rfl rfl trivial
    · split at hstep
      · rename_i htaken
        cases hstep
        exact stepped_of_same hserves rfl rfl rfl (hw htaken)
      · cases hstep
    · cases hstep
  | lookup get =>
    simp only [step] at hstep
    split at hstep
    · split at hstep
      · rename_i hentry
        cases hstep
        exact stepped_of_same hserves rfl rfl rfl ⟨hw, hentry⟩
      · cases hstep
        exact stepped_of_same hserves rfl rfl rfl hw
    · cases hstep
  | test get entry =>
    simp only [step] at hstep
    split at hstep
    · cases hstep
      refine stepped_of_same hserves rfl rfl rfl ?_
      split
      · rename_i hsize
        exact fun output houtput => hlisted.mayRead hw.1 hw.2 hsize houtput
      · exact hw
    · cases hstep
  | mark get entry =>
    simp only [step] at hstep
    split at hstep
    · cases hstep
      refine stepped_of_same hserves rfl rfl rfl ?_
      split
      · exact hw
      · exact hw.1
    · cases hstep
  | wait get entry =>
    simp only [step] at hstep
    split at hstep
    · split at hstep
      · cases hstep
      · cases hstep
        exact stepped_of_same hserves rfl rfl rfl hw
    · cases hstep
  | retest get entry =>
    simp only [step] at hstep
    split at hstep
    · cases hstep
      refine stepped_of_same hserves rfl rfl rfl ?_
      split
      · rename_i hsize
        exact fun output houtput => hlisted.mayRead hw.1 hw.2 hsize houtput
      · exact hw.1
    · cases hstep
  | found get entry =>
    simp only [step] at hstep
    split at hstep
    · rename_i result
      cases hstep
      refine stepped_of_same hserves rfl rfl rfl ?_
      cases hanswer : localAnswer hexError get entry result with
      | error error => trivial
      | ok response =>
        obtain ⟨output, houtput, hanswered⟩ := answered_localAnswer hanswer
        show MayRead s.taken get.since get.request.actionId (answered response)
        rw [hanswered]
        exact hw output houtput
    · cases hstep
  | fetch get =>
    simp only [step] at hstep
    split at hstep
    · rename_i result
      split at hstep
      · cases hstep
        exact stepped_of_same hserves rfl rfl rfl (receive_ok hserves hw nofun)
      · rename_i answer
        split at hstep
        · rename_i hanswer
          cases hstep
          refine stepped_of_same hserves rfl rfl rfl (receive_ok hserves hw ?_)
          rintro _ ⟨⟩
          exact hanswer
        · cases hstep
    · cases hstep
  | save get body =>
    simp only [step] at hstep
    split at hstep
    · cases hstep
      exact stepped_of_same hserves rfl rfl rfl hw
    · cases hstep
      exact stepped_of_same hserves rfl rfl rfl trivial
    · cases hstep

/-- A step leaves the manifest, and the server takes the put of the step if it has one. -/
theorem Task.step_taken (hstep : step hexError e s w = some (s', w')) :
    s'.manifest = s.manifest ∧ s'.taken = s.taken ++
      ((w.taking e).map fun put => (put.request.actionId, put.request.outputId)).toList := by
  have hnone : s.taken = s.taken ++ [] := (List.append_nil _).symm
  revert hstep
  fun_cases step hexError e s w <;> intro hstep <;> cases hstep
  case case14.refl put diskPath taken htaken =>
    -- The server takes the put, which it has not taken yet.
    rw [Bool.not_eq_true] at htaken
    subst htaken
    exact ⟨rfl, rfl⟩
  all_goals exact ⟨rfl, hnone⟩

end

/-! ## The answers of `put` and `get` -/

section

variable {hexError : Bytes → String} {s s' : Shared sha256} {w w' : Task sha256} {e : Event}
  {env : Surroundings} {request : Request} {answer : Except String Response}

theorem ok_bind {α β : Type} (a : α) (f : α → Except String β) : (Except.ok a >>= f) = f a := rfl

/-- A put is answered by what comes first: its body, a check, its file, its PUT. -/
theorem put_eq {encodedBody : Bytes} {text : String}
    (htext : bodyText env request encodedBody = .ok text) :
    Cacheprog.put env request encodedBody =
      (env.base64Decode text).bind fun body =>
        if UInt64.ofNat body.length = request.bodySize then
          if (env.sha256 body).bytes = request.outputId then
            (env.writeDiskFile (hexEncode request.outputId) body).bind fun diskPath =>
              (env.sendPut (actionKey (hexEncode request.actionId)) body).map fun _ =>
                { id := request.id, diskPath }
          else .error "cacheprog output digest mismatch"
        else .error "cacheprog body size mismatch" := by
  rw [Cacheprog.put, htext, ok_bind]
  cases env.base64Decode text with
  | error error => rfl
  | ok body =>
    simp only [ok_bind, Except.bind, ensure, decide_eq_true_eq]
    by_cases hsize : UInt64.ofNat body.length = request.bodySize
    · by_cases hdigest : (env.sha256 body).bytes = request.outputId
      · simp only [if_pos hsize, if_pos hdigest, ok_bind]
        cases env.writeDiskFile (hexEncode request.outputId) body with
        | error error => rfl
        | ok diskPath =>
          cases env.sendPut (actionKey (hexEncode request.actionId)) body <;> rfl
      · simp only [if_pos hsize, if_neg hdigest, ok_bind]
        rfl
    · simp only [if_neg hsize]
      rfl

/-- A get whose file is there is answered from the manifest. -/
theorem get_of_entry {entry : ManifestEntry} (get : Get)
    (hentry : env.manifestEntry get.action = some entry) (hpresent : env.present = true) :
    Cacheprog.get env get.request =
      Task.localAnswer env.hexError get entry (env.canonicalPath entry.output) := by
  have hlocal : getLocal env get.request (hexEncode get.request.actionId) =
      some (Task.localAnswer env.hexError get entry (env.canonicalPath entry.output)) := by
    rw [getLocal, ← Get.action, hentry]
    simp only [hpresent, Bool.true_or, if_true, Task.localAnswer, decodeOutput]
    cases hexDecode entry.output with
    | none => rfl
    | some output => cases env.canonicalPath entry.output <;> rfl
  rw [Cacheprog.get, hlocal]

/-- What a get answers when it has received the response of the server. -/
def Task.fetchAnswer (path : Bytes → Except String String) :
    Task sha256 → Except String Response
  | .getAnswered _ answer => answer
  | .save get body => (path body).map (fetchedAnswer sha256 get body)
  | _ => .error ""

/-- And otherwise it is answered by the server. -/
theorem get_of_none (get : Get) (hentry : env.manifestEntry get.action = none) :
    Cacheprog.get env get.request =
      (Task.receive env.sha256 get (env.sendGet (actionKey get.action))).fetchAnswer
        fun body => env.writeDiskFile (hexEncode (env.sha256 body).bytes) body := by
  have hlocal : getLocal env get.request (hexEncode get.request.actionId) = none := by
    rw [getLocal, ← Get.action, hentry]
  rw [Cacheprog.get, hlocal, ← Get.action]
  dsimp only
  cases env.sendGet (actionKey get.action) with
  | error error => rfl
  | ok found =>
    cases found with
    | none => rfl
    | some fetched =>
      obtain ⟨etag, body⟩ := fetched
      cases body with
      | error error => rfl
      | ok body =>
        simp only [ok_bind, Task.receive]
        split
        · rfl
        · have hdecode : decodeOutput env (hexEncode (env.sha256 body).bytes) =
              .ok (env.sha256 body).bytes := by
            rw [decodeOutput, hexDecode_hexEncode]
          simp only [hdecode, ok_bind, Task.fetchAnswer]
          cases env.writeDiskFile (hexEncode (env.sha256 body).bytes) body <;> rfl

/-- What a request has met by the time it is answered. -/
def surroundings (sha256 : Bytes → Digest) (hexError : Bytes → String)
    (decoded : Except String Bytes) (path : Except String String) (reply : Except String Unit)
    (entry : Option ManifestEntry) (fetched : Except String (Option Fetched)) : Surroundings where
  sha256 := sha256
  jsonString _ := .ok ""
  base64Decode _ := decoded
  hexError := hexError
  writeDiskFile _ _ := path
  sendPut _ _ := reply
  manifestEntry _ := entry
  present := true
  downloading := false
  presentThen := false
  canonicalPath _ := path
  sendGet _ := fetched

/-- The answer is one that `put` gives. -/
def PutGives (sha256 : Bytes → Digest) (request : Request) (answer : Except String Response) :
    Prop :=
  ∃ env encodedBody, env.sha256 = sha256 ∧ Cacheprog.put env request encodedBody = answer

/-- The answer is one that `get` gives. -/
def GetGives (sha256 : Bytes → Digest) (request : Request) (answer : Except String Response) :
    Prop :=
  ∃ env, env.sha256 = sha256 ∧ Cacheprog.get env request = answer

theorem putGives (sha256 : Bytes → Digest) (request : Request) (decoded : Except String Bytes)
    (path : Except String String) (reply : Except String Unit) :
    PutGives sha256 request (decoded.bind fun body =>
      if UInt64.ofNat body.length = request.bodySize then
        if (sha256 body).bytes = request.outputId then
          path.bind fun diskPath => reply.map fun _ => { id := request.id, diskPath }
        else .error "cacheprog output digest mismatch"
      else .error "cacheprog body size mismatch") := by
  refine ⟨surroundings sha256 (fun _ => "") decoded path reply none (.ok none), [], rfl, ?_⟩
  have htext : bodyText (surroundings sha256 (fun _ => "") decoded path reply none (.ok none))
      request [] = .ok "" := by
    unfold bodyText
    split <;> rfl
  exact put_eq htext

/-- A put that has passed the checks. -/
theorem Put.gives (put : Put sha256) (path : Except String String) (reply : Except String Unit) :
    PutGives sha256 put.request
      (path.bind fun diskPath => reply.map fun _ => { id := put.request.id, diskPath }) := by
  have hgives := putGives sha256 put.request (.ok put.body) path reply
  rw [Except.bind, if_pos put.size, if_pos put.digest] at hgives
  exact hgives

/-- The answer of a request is one that its function gives. -/
def Task.Gives : Task sha256 → Prop
  | .putAnswered request answer => PutGives sha256 request answer
  | .getAnswered get answer => GetGives sha256 get.request answer
  | _ => True

theorem Task.beginPut_gives (request : Request) (decoded : Except String Bytes) :
    (beginPut request decoded : Task sha256).Gives := by
  have hgives := putGives sha256 request decoded (.ok "") (.ok ())
  unfold beginPut
  split
  · exact hgives
  · rw [Except.bind] at hgives
    split
    · rename_i hsize
      rw [if_pos hsize] at hgives
      split
      · trivial
      · rename_i hdigest
        rwa [if_neg hdigest] at hgives
    · rename_i hsize
      rwa [if_neg hsize] at hgives

theorem Task.begin_gives
    (hstep : (match e with
      | .put request decoded => some (s, beginPut request decoded)
      | .get request => some (s, lookup ⟨request, s.taken.length⟩)
      | _ => none) = some (s', w')) : w'.Gives := by
  split at hstep
  · cases hstep
    exact beginPut_gives _ _
  · cases hstep
    trivial
  · cases hstep

theorem getGives_local (get : Get) (entry : ManifestEntry) (path : Except String String) :
    GetGives sha256 get.request (Task.localAnswer hexError get entry path) :=
  ⟨surroundings sha256 hexError (.ok []) path (.ok ()) (some entry) (.ok none), rfl,
    get_of_entry get rfl rfl⟩

theorem getGives_fetched (get : Get) (fetched : Except String (Option Fetched))
    (path : Except String String) :
    GetGives sha256 get.request ((Task.receive sha256 get fetched).fetchAnswer fun _ => path) :=
  ⟨surroundings sha256 (fun _ => "") (.ok []) path (.ok ()) none fetched, rfl, get_of_none get rfl⟩

theorem Task.receive_gives (get : Get) (fetched : Except String (Option Fetched)) :
    (receive sha256 get fetched).Gives := by
  have hgives : GetGives sha256 get.request _ := getGives_fetched get fetched (.ok "")
  match fetched with
  | .error _ | .ok none | .ok (some ⟨_, .error _⟩) => exact hgives
  | .ok (some ⟨etag, .ok body⟩) =>
    simp only [receive] at hgives ⊢
    split
    · rename_i hcorrupt
      rwa [if_pos hcorrupt] at hgives
    · trivial

theorem Task.step_gives (hstep : step hexError e s w = some (s', w')) : w'.Gives := by
  cases w with
  | idle => exact begin_gives hstep
  | putAnswered request answer => exact begin_gives hstep
  | getAnswered get answer => exact begin_gives hstep
  | write put =>
    simp only [step] at hstep
    split at hstep
    · cases hstep
      trivial
    · rename_i error
      cases hstep
      exact put.gives (.error error) (.ok ())
    · cases hstep
  | send put diskPath taken =>
    simp only [step] at hstep
    split at hstep
    · split at hstep
      · cases hstep
      · cases hstep
        trivial
    · rename_i error
      cases hstep
      exact put.gives (.ok diskPath) (.error error)
    · split at hstep
      · cases hstep
        exact put.gives (.ok diskPath) (.ok ())
      · cases hstep
    · cases hstep
  | lookup get =>
    simp only [step] at hstep
    split at hstep
    · split at hstep <;> cases hstep <;> trivial
    · cases hstep
  | test get entry | mark get entry | retest get entry =>
    simp only [step] at hstep
    split at hstep
    · cases hstep
      split <;> trivial
    · cases hstep
  | wait get entry =>
    simp only [step] at hstep
    split at hstep
    · split at hstep <;> cases hstep
      trivial
    · cases hstep
  | found get entry =>
    simp only [step] at hstep
    split at hstep
    · cases hstep
      exact getGives_local get entry _
    · cases hstep
  | fetch get =>
    simp only [step] at hstep
    split at hstep
    · split at hstep
      · cases hstep
        exact receive_gives get _
      · split at hstep <;> cases hstep
        exact receive_gives get _
    · cases hstep
  | save get body =>
    have hsaved : receive sha256 get (.ok (some ⟨none, .ok body⟩)) = save get body := rfl
    simp only [step] at hstep
    split at hstep
    · rename_i diskPath
      cases hstep
      have hgives : GetGives sha256 get.request _ :=
        getGives_fetched get (.ok (some ⟨none, .ok body⟩)) (.ok diskPath)
      rwa [hsaved] at hgives
    · rename_i error
      cases hstep
      have hgives : GetGives sha256 get.request _ :=
        getGives_fetched get (.ok (some ⟨none, .ok body⟩)) (.error error)
      rwa [hsaved] at hgives
    · cases hstep

end

/-! ## Runs -/

section

variable [DecidableEq ι] {hexError : Bytes → String} {p p' : Requests ι sha256}
  {a : Action ι sha256}

theorem fire_taken (hstep : fire hexError p a = some p') :
    p'.shared.taken = p.shared.taken ++
      ((taking p a).map fun put => (put.request.actionId, put.request.outputId)).toList := by
  cases a with
  | work i e =>
    have hstep : Pool.fire (fun _ e s w => Task.step hexError e s w) p i e = some p' := hstep
    exact (Task.step_taken (Pool.fire_eq_some hstep).1).2
  | install manifest | directory objects inflight =>
    cases hstep
    exact (List.append_nil _).symm
  | arrive k =>
    obtain ⟨put, hput, rfl⟩ := Option.map_eq_some_iff.mp hstep
    rw [taking, hput]
    rfl

/-- The manifest is installed once. -/
theorem fire_manifest (hstep : fire hexError p a = some p') :
    p'.shared.manifest = p.shared.manifest ∨ ∃ manifest, a = .install manifest ∧
      p.shared.manifest = none ∧ p'.shared.manifest = some manifest := by
  cases a with
  | work i e =>
    have hstep : Pool.fire (fun _ e s w => Task.step hexError e s w) p i e = some p' := hstep
    exact .inl (Task.step_taken (Pool.fire_eq_some hstep).1).1
  | install manifest =>
    cases hstep
    cases hmanifest : p.shared.manifest with
    | none => exact .inr ⟨manifest, rfl, rfl, Option.none_or⟩
    | some installed => exact .inl rfl
  | directory objects inflight =>
    cases hstep
    exact .inl rfl
  | arrive k =>
    obtain ⟨put, -, rfl⟩ := Option.map_eq_some_iff.mp hstep
    exact .inl rfl

/-- The steps that fit are those that leave the manifest right about what was written. -/
theorem listed_iff (hlisted : p.shared.Listed) (hstep : fire hexError p a = some p') :
    p'.shared.Listed ↔ Fits p a := by
  have htaken := fire_taken hstep
  constructor
  · intro hlisted'
    refine ⟨fun put entry hput hentry => ?_, ?_⟩
    · refine hlisted' put.request.actionId put.request.outputId entry ?_ ?_
      · rw [htaken, hput]
        exact (latest_append_singleton ..).trans (if_pos rfl)
      · obtain hmanifest | ⟨manifest, rfl, -⟩ := fire_manifest hstep
        · rwa [Shared.manifestEntry, hmanifest]
        · cases hput
    · rintro manifest rfl hnone action output entry hlatest hentry
      cases hstep
      refine hlisted' action output entry hlatest ?_
      rw [Shared.manifestEntry, hnone]
      exact hentry
  · intro hfits action output entry hlatest hentry
    obtain hmanifest | ⟨manifest, rfl, hnone, hmanifest⟩ := fire_manifest hstep
    · rw [Shared.manifestEntry, hmanifest] at hentry
      rw [htaken] at hlatest
      cases hput : taking p a with
      | none =>
        rw [hput, Option.map_none, Option.toList_none, List.append_nil] at hlatest
        exact hlisted action output entry hlatest hentry
      | some put =>
        rw [hput] at hlatest
        have hlatest := (latest_append_singleton ..).symm.trans hlatest
        by_cases haction : put.request.actionId = action
        · rw [if_pos haction] at hlatest
          cases hlatest
          exact hfits.put put entry hput (haction ▸ hentry)
        · rw [if_neg haction] at hlatest
          exact hlisted action output entry hlatest hentry
    · rw [Shared.manifestEntry, hmanifest] at hentry
      have hsame : taking p (.install manifest) = none := rfl
      rw [htaken, hsame, Option.map_none, Option.toList_none, List.append_nil] at hlatest
      exact hfits.install manifest rfl hnone action output entry hlatest hentry

/-- What is known in a run of steps that fit. -/
structure Ok (p : Requests ι sha256) : Prop where
  serves : p.shared.Serves
  listed : p.shared.Listed
  task : ∀ i, (p.task i).Ok p.shared

theorem Ok.step (h : Ok p) (hfits : Fits p a) (hstep : fire hexError p a = some p') : Ok p' := by
  have hlisted : p'.shared.Listed := (listed_iff h.listed hstep).mpr hfits
  have of_later : p.shared.Later p'.shared → p'.shared.Serves → p'.task = p.task → Ok p' :=
    fun hlater hserves htask => ⟨hserves, hlisted, fun i => by
      rw [htask]
      exact (h.task i).later hlater⟩
  cases a with
  | work i e =>
    have hstep : Pool.fire (fun _ e s w => Task.step hexError e s w) p i e = some p' := hstep
    have hstepped : Stepped p.shared p'.shared (p'.task i) :=
      Task.step_stepped h.serves h.listed (h.task i) (Pool.fire_eq_some hstep).1
    exact ⟨hstepped.serves, hlisted, Pool.fire_inv (J := fun s _ w => w.Ok s) h.task hstep
      hstepped.ok fun j _ hj => hj.later hstepped.later⟩
  | install manifest =>
    cases hstep
    refine of_later ⟨⟨[], (List.append_nil _).symm⟩, fun action entry hentry => ?_⟩ h.serves rfl
    -- `get_or_init` leaves what is there.
    cases hmanifest : p.shared.manifest with
    | none =>
      rw [Shared.manifestEntry, hmanifest] at hentry
      cases hentry
    | some installed =>
      rw [Shared.manifestEntry, hmanifest] at hentry
      exact hentry
  | directory objects inflight =>
    cases hstep
    exact of_later (Shared.later_of_same rfl rfl) h.serves rfl
  | arrive k =>
    obtain ⟨put, -, rfl⟩ := Option.map_eq_some_iff.mp hstep
    exact of_later (p.shared.later_take put) (h.serves.take put) rfl

theorem reach_ok (h : (system hexError).Reach Fits p) : Ok p := by
  refine h.invariant ?_ fun _ _ _ hp hfits hstep => hp.step hfits hstep
  intro p₀ hinit
  have hnone : ∀ action, latest p₀.shared.taken action = none := fun action => by
    rw [hinit.1, latest_nil]
  refine ⟨fun action output hlatest => ?_, fun action output entry hlatest => ?_, fun i => ?_⟩
  · rw [hnone] at hlatest
    cases hlatest
  · rw [hnone] at hlatest
    cases hlatest
  · rw [hinit.2 i]
    trivial

/-- Every answer of a run is one that `put` or `get` gives. -/
theorem answers_given (h : (system hexError).Reach (fun _ _ => True) p) (i : ι) :
    (p.task i).Gives := by
  refine h.invariant (I := fun p => ∀ i, (p.task i).Gives) ?_ ?_ i
  · intro p₀ hinit j
    rw [hinit.2 j]
    trivial
  · intro p a p' hp _ hstep j
    cases a with
    | work k e =>
      have hstep : Pool.fire (fun _ e s w => Task.step hexError e s w) p k e = some p' := hstep
      obtain ⟨hown, hothers⟩ := Pool.fire_eq_some hstep
      by_cases hj : j = k
      · rw [hj]
        exact Task.step_gives hown
      · rw [hothers j hj]
        exact hp j
    | install manifest | directory objects inflight =>
      cases hstep
      exact hp j
    | arrive k =>
      obtain ⟨put, -, rfl⟩ := Option.map_eq_some_iff.mp hstep
      exact hp j

end

/-! ### An entry of an earlier build -/

end Flywheel.Cacheprog.Writes
