import Flywheel.Cache.Cancellation

/-!
# Runs of an upload that may be dropped

`State.Inv` ties what the program knows of the disk (`View`) to the disk itself, through calls that
are in flight and through drops. A body that a rename in flight has moved is the one thing that the
scheduled removal gets wrong: it finds nothing at the temporary path, and releases the reservation of
bytes that have their final name (`dropped_behind_rename`). Runs in which that does not happen, and
in which no frame is committed that has outgrown its reservation, stay conservative
(`cancelled_uploads_conservative`).
-/

set_option autoImplicit false

namespace Flywheel

open Lib

namespace Cancellation

/-! ## Settlements -/

/-- A settlement has the bytes of the reservation, or had. -/
def Spent : Holder → Prop
  | .pending _ | .settled => True
  | _ => False

/-- The bytes that a call of the ledger commits. -/
def committedBy : LedgerCall → Nat
  | .commit bytes => bytes.toNat
  | _ => 0

theorem step_spec {admitted : Bool} {e : HolderEvent} {a a' : Account}
    (h : step admitted e a = some a') :
    ∃ call, a.holder.step (fun _ => admitted) e = some (call, a'.holder) ∧
      a'.committed = a.committed + committedBy call := by
  obtain ⟨⟨call, holder⟩, hstep, rfl⟩ := Option.map_eq_some_iff.mp h
  cases call with
  | quiet => exact ⟨.quiet, hstep, rfl⟩
  | tryReserve bytes => exact ⟨.tryReserve bytes, hstep, rfl⟩
  | release bytes => exact ⟨.release bytes, hstep, rfl⟩
  | commit bytes => exact ⟨.commit bytes, hstep, rfl⟩

theorem View.after_bytes (c : FsCall) (answer : Except IoErrorKind Nat) (v : View) :
    (v.after c answer).bytes ≤ v.bytes := by
  cases c <;> cases answer <;>
    first
    | exact Nat.le_refl _
    | exact Nat.zero_le _
    | exact Nat.min_le_left ..

/-- What is left of a future that is suspended owns something droppable, or nothing. -/
theorem Continues.droppable {encoding : StoredEncoding} {v : View}
    {f : Future Op (Except LocalError Unit)} (h : Continues encoding f v) (hsuspends : suspends f = true) :
    ∀ r, v.reservation = some r → Droppable encoding r v := by
  have hlive : Live encoding v → ∀ r, v.reservation = some r → Droppable encoding r v := by
    rintro ⟨r', hr', hdroppable⟩ r hr
    rw [hr'] at hr
    cases hr
    exact hdroppable
  match f with
  | .pure _ => exact h
  | .op (.call _) _ => exact hlive h.1
  | .op (.write _) _ => exact hlive h.1
  | .op .pause _ => exact hlive h.1
  | .op .settle _ =>
    intro r hr
    rw [h.1] at hr
    cases hr
  | .op (.reserve _) _ | .op (.mark _) _ | .op (.commit _) _ | .op .discard _ => cases hsuspends

namespace State

variable {encoding : StoredEncoding} {p p' : State} {v : View}
  {f : Future Op (Except LocalError Unit)}

/-- What the program knows of the disk is so. -/
structure Sees (v : View) (p : State) : Prop where
  bytes : p.potential ≤ v.bytes
  final : v.moved = false → p.final.getD 0 = 0

/-- Where the future is suspended: a call is in flight, or has been answered. -/
def Located (v : View) (p : State) : Future Op (Except LocalError Unit) → Prop
  | .op (.call c) _ =>
    (p.flight = some c ∧ p.answer = none ∧ Sees v p) ∨
      (p.flight = none ∧ ∃ answer, p.answer = some answer ∧ Answers c v answer ∧
        Sees (v.after c answer) p)
  | _ => p.flight = none ∧ Sees v p

/-- What the future owns. -/
def Owned (v : View) (p : State) (f : Future Op (Except LocalError Unit)) : Prop :=
  match v.reservation with
  | some r => p.account.holder = .held r ∧ Located v p f
  | none => Spent p.account.holder ∧ p.flight = none

/-- What is settled was committed, and what is not is covered. -/
structure Accounted (encoding : StoredEncoding) (p : State) : Prop where
  apart : p.final.getD 0 ≠ 0 → p.temp = none
  pending : ∀ n, p.account.holder = .pending n → encoding = .identity → p.potential ≤ n.toNat
  settled : p.account.holder = .settled → p.potential ≤ p.account.committed
  removing : p.removal = true → Spent p.account.holder

structure Inv (encoding : StoredEncoding) (p : State) : Prop extends Accounted encoding p where
  opening : p.flight = some .createNew → p.final.getD 0 = 0
  alive : ∀ f, p.future = some f → ∃ v, Continues encoding f v ∧ Owned v p f
  gone : p.future = none → Spent p.account.holder

theorem bytes_le_potential (p : State) : p.bytes ≤ p.potential := by
  unfold bytes potential
  cases p.temp with
  | none => exact Nat.le_refl _
  | some n => exact Nat.add_le_add_right (Nat.le_max_left ..) _

theorem Located.potential_le (h : Located v p f) : p.potential ≤ v.bytes := by
  match f with
  | .op (.call c) _ =>
    rcases h with ⟨-, -, hsees⟩ | ⟨-, answer, -, -, hsees⟩
    · exact hsees.bytes
    · exact hsees.bytes.trans (View.after_bytes ..)
  | .op (.write _) _ | .op .pause _ | .op (.reserve _) _ | .op (.mark _) _ | .op (.commit _) _
  | .op .discard _ | .op .settle _ | .pure _ => exact h.2.bytes

/-- The future goes on. -/
theorem proceed_inv (h : Accounted encoding p) (hf : Continues encoding f v)
    (howned : match v.reservation with
      | some r => p.account.holder = .held r ∧ Sees v p
      | none => Spent p.account.holder) : Inv encoding (p.proceed f) := by
  refine ⟨⟨h.apart, h.pending, h.settled, h.removing⟩, ?_, ?_, nofun⟩
  · intro hopening
    match f with
    | .op (.call c) resume =>
      cases hopening
      obtain ⟨⟨r, hr, -⟩, hmoved, -⟩ := hf
      rw [hr] at howned
      exact howned.2.final (hmoved nofun)
    | .op (.write _) _ | .op .pause _ | .op (.reserve _) _ | .op (.mark _) _ | .op (.commit _) _
    | .op .discard _ | .op .settle _ | .pure _ => cases hopening
  · intro f' hf'
    cases hf'
    refine ⟨v, hf, ?_⟩
    unfold Owned
    cases hr : v.reservation with
    | none =>
      rw [hr] at howned
      refine ⟨howned, ?_⟩
      match f with
      | .op (.call c) resume =>
        obtain ⟨⟨r, hr', -⟩, -⟩ := hf
        rw [hr] at hr'
        cases hr'
      | .op (.write _) _ | .op .pause _ | .op (.reserve _) _ | .op (.mark _) _ | .op (.commit _) _
      | .op .discard _ | .op .settle _ | .pure _ => rfl
    | some r =>
      rw [hr] at howned
      refine ⟨howned.1, ?_⟩
      have hsees : Sees v (p.proceed f) := ⟨howned.2.bytes, howned.2.final⟩
      match f with
      | .op (.call c) resume => exact .inl ⟨rfl, rfl, hsees⟩
      | .op (.write _) _ | .op .pause _ | .op (.reserve _) _ | .op (.mark _) _ | .op (.commit _) _
      | .op .discard _ | .op .settle _ | .pure _ => exact ⟨rfl, hsees⟩

/-! ### The disk -/

theorem Sees.shrink (h : Sees v p) (hpotential : p'.potential ≤ p.potential)
    (hfinal : p'.final.getD 0 ≤ p.final.getD 0) : Sees v p' := by
  refine ⟨hpotential.trans h.bytes, fun hmoved => ?_⟩
  have hzero := h.final hmoved
  omega

/-- Files that get smaller, or go, change nothing else. -/
theorem Inv.shrink (h : Inv encoding p) (haccount : p'.account = p.account)
    (hfuture : p'.future = p.future) (hremoval : p'.removal = p.removal)
    (hflight : p'.flight = p.flight) (hanswer : p'.answer = p.answer)
    (hpotential : p'.potential ≤ p.potential) (hfinal : p'.final.getD 0 ≤ p.final.getD 0)
    (htemp : p.temp = none → p'.temp = none) : Inv encoding p' := by
  constructor
  · constructor
    · intro hne
      exact htemp (h.apart (by omega))
    · intro n hn hencoding
      rw [haccount] at hn
      exact hpotential.trans (h.pending n hn hencoding)
    · intro hsettled
      rw [haccount] at hsettled ⊢
      exact hpotential.trans (h.settled hsettled)
    · rw [hremoval, haccount]
      exact h.removing
  · intro hopening
    have hzero := h.opening (hflight ▸ hopening)
    omega
  · intro f hf
    obtain ⟨v, hcontinues, howned⟩ := h.alive f (hfuture ▸ hf)
    refine ⟨v, hcontinues, ?_⟩
    unfold Owned at howned ⊢
    rw [haccount, hflight]
    cases hr : v.reservation with
    | none =>
      rw [hr] at howned
      exact howned
    | some r =>
      rw [hr] at howned
      refine ⟨howned.1, ?_⟩
      have hlocated := howned.2
      match f with
      | .op (.call c) resume =>
        rcases hlocated with ⟨hin, hnone, hsees⟩ | ⟨hin, answer, hsome, hanswers, hsees⟩
        · exact .inl ⟨hflight.trans hin, hanswer.trans hnone, hsees.shrink hpotential hfinal⟩
        · exact .inr ⟨hflight.trans hin, answer, hanswer.trans hsome, hanswers,
            hsees.shrink hpotential hfinal⟩
      | .op (.write _) _ | .op .pause _ | .op (.reserve _) _ | .op (.mark _) _ | .op (.commit _) _
      | .op .discard _ | .op .settle _ | .pure _ =>
        exact ⟨hflight.trans hlocated.1, hlocated.2.shrink hpotential hfinal⟩
  · rw [hfuture, haccount]
    exact h.gone

theorem Inv.evict (h : Inv encoding p) : Inv encoding { p with final := none } := by
  refine h.shrink rfl rfl rfl rfl rfl ?_ (Nat.zero_le _) id
  exact Nat.add_le_add_left (Nat.zero_le _) _

theorem Inv.written {n : Nat} {last : Bool} (h : Inv encoding p)
    (hstep : p.written n last = some p') : Inv encoding p' := by
  obtain ⟨total, hbacklog, hstep⟩ := Option.bind_eq_some_iff.mp hstep
  split at hstep
  · rename_i hle
    cases hstep
    refine h.shrink rfl rfl rfl rfl rfl ?_ (Nat.le_refl _) fun hnone => ?_
    · refine Nat.add_le_add_right ?_ _
      show (p.temp.map fun _ => n).elim 0 (fun m => max m _) ≤ p.temp.elim 0 fun m => max m _
      rw [hbacklog]
      cases p.temp with
      | none => exact Nat.le_refl _
      | some m =>
        show max n ((if last then none else some total).getD 0) ≤ max m total
        cases last with
        | true =>
          show max n 0 ≤ max m total
          omega
        | false =>
          show max n total ≤ max m total
          omega
    · show p.temp.map _ = none
      rw [hnone]
      rfl
  · cases hstep

/-- What a call can do to the disk, and say of it. -/
theorem effect_cases (there : Bool) (c : FsCall) (p : State) :
    (c = .createNew ∧
      p.effect there c = ({ p with temp := some 0, backlog := none }, .ok 0)) ∨
    (c = .removeFile ∧ p.effect there c = ({ p with temp := none }, .ok 0)) ∨
    (c = .rename ∧ ∃ n, p.temp = some n ∧
      p.effect there c = ({ p with temp := none, final := some n }, .ok 0)) ∨
    (c = .metadata ∧ p.effect there c = (p, .ok (p.temp.getD 0))) ∨
    (c ≠ .metadata ∧ ∃ answer, p.effect there c = (p, answer) ∧
      ∀ v : View, v.after c answer = v) := by
  cases c with
  | createNew =>
    cases htemp : p.temp with
    | none =>
      refine .inl ⟨rfl, ?_⟩
      simp only [effect, htemp]
    | some n =>
      refine .inr (.inr (.inr (.inr ⟨nofun, .error .alreadyExists, ?_, fun _ => rfl⟩)))
      simp only [effect, htemp]
  | removeFile =>
    cases htemp : p.temp with
    | none =>
      refine .inr (.inr (.inr (.inr ⟨nofun, .error .notFound, ?_, fun _ => rfl⟩)))
      simp only [effect, htemp]
    | some n =>
      refine .inr (.inl ⟨rfl, ?_⟩)
      simp only [effect, htemp]
  | rename =>
    cases htemp : p.temp with
    | none =>
      refine .inr (.inr (.inr (.inr ⟨nofun, .error .notFound, ?_, fun _ => rfl⟩)))
      simp only [effect, htemp]
    | some n =>
      refine .inr (.inr (.inl ⟨rfl, n, rfl, ?_⟩))
      simp only [effect, htemp]
  | metadata => exact .inr (.inr (.inr (.inl ⟨rfl, rfl⟩)))
  | _ => exact .inr (.inr (.inr (.inr ⟨nofun, _, rfl, fun _ => rfl⟩)))

/-- What a call leaves on disk is no more than there was. -/
theorem effect_spec (there : Bool) (c : FsCall) (hapart : p.final.getD 0 ≠ 0 → p.temp = none)
    (hopening : c = .createNew → p.final.getD 0 = 0) :
    (p.effect there c).1.potential ≤ p.potential ∧
      ((p.effect there c).1.final.getD 0 ≠ 0 → (p.effect there c).1.temp = none) ∧
      (p.effect there c).1.account = p.account ∧ (p.effect there c).1.future = p.future ∧
      (p.effect there c).1.removal = p.removal := by
  rcases effect_cases there c p with ⟨hc, heffect⟩ | ⟨-, heffect⟩ | ⟨-, n, htemp, heffect⟩ |
    ⟨-, heffect⟩ | ⟨-, answer, heffect, -⟩
  · have hzero := hopening hc
    rw [heffect]
    refine ⟨?_, fun hne => absurd hzero hne, rfl, rfl, rfl⟩
    show max 0 0 + p.final.getD 0 ≤ _
    omega
  · rw [heffect]
    exact ⟨Nat.add_le_add_right (Nat.zero_le _) _, fun _ => rfl, rfl, rfl, rfl⟩
  · rw [heffect]
    refine ⟨?_, fun _ => rfl, rfl, rfl, rfl⟩
    show 0 + n ≤ p.temp.elim 0 (fun m => max m _) + _
    rw [htemp]
    show 0 + n ≤ max n _ + _
    omega
  · rw [heffect]
    exact ⟨Nat.le_refl _, hapart, rfl, rfl, rfl⟩
  · rw [heffect]
    exact ⟨Nat.le_refl _, hapart, rfl, rfl, rfl⟩

/-- The answer to the future's call says how the disk is. -/
theorem effect_sees (there : Bool) {c : FsCall} (h : Sees v p)
    (hapart : p.final.getD 0 ≠ 0 → p.temp = none)
    (hwaits : waits c = true → p.backlog = none) (hmoved : c ≠ .syncParent → v.moved = false) :
    Answers c v (p.effect there c).2 ∧
      Sees (v.after c (p.effect there c).2) (p.effect there c).1 := by
  have hopening : c = .createNew → p.final.getD 0 = 0 := by
    rintro rfl
    exact h.final (hmoved nofun)
  have hpotential := ((p.effect_spec there c) hapart hopening).1.trans h.bytes
  rcases effect_cases there c p with ⟨rfl, heffect⟩ | ⟨rfl, heffect⟩ | ⟨rfl, n, -, heffect⟩ |
    ⟨rfl, heffect⟩ | ⟨hne, answer, heffect, hafter⟩
  · rw [heffect] at hpotential ⊢
    exact ⟨nofun, hpotential, h.final⟩
  · have hzero := h.final (hmoved nofun)
    rw [heffect]
    refine ⟨nofun, ?_, fun _ => hzero⟩
    show 0 + p.final.getD 0 ≤ 0
    omega
  · rw [heffect] at hpotential ⊢
    exact ⟨nofun, hpotential, nofun⟩
  · have hzero := h.final (hmoved nofun)
    have hlen : p.potential = p.temp.getD 0 := by
      rw [potential, hwaits rfl, hzero]
      cases p.temp with
      | none => rfl
      | some n => exact Nat.max_eq_left (Nat.zero_le n)
    have hle := h.bytes
    rw [heffect]
    refine ⟨fun _ n hn => ?_, ?_, fun _ => hzero⟩
    · cases hn
      omega
    · show p.potential ≤ min v.bytes (p.temp.getD 0)
      omega
  · rw [heffect, hafter]
    exact ⟨fun h => absurd h hne, h⟩

/-- A call in flight is answered, to the future or to nobody. -/
theorem Inv.answered {c : FsCall} {q : State} {answer : Except IoErrorKind Nat}
    (h : Inv encoding p) (hflight : p.flight = some c) (haccount : q.account = p.account)
    (hfuture : q.future = p.future) (hremoval : q.removal = p.removal)
    (hpotential : q.potential ≤ p.potential) (hapart : q.final.getD 0 ≠ 0 → q.temp = none)
    (hsees : ∀ v, Sees v p → (c ≠ .syncParent → v.moved = false) →
      Answers c v answer ∧ Sees (v.after c answer) q) :
    Inv encoding { q with flight := none, answer := some answer } := by
  constructor
  · constructor
    · exact hapart
    · intro n hn hencoding
      exact hpotential.trans (h.pending n (haccount ▸ hn) hencoding)
    · intro hsettled
      show q.potential ≤ q.account.committed
      rw [haccount]
      exact hpotential.trans (h.settled (haccount ▸ hsettled))
    · intro hremoving
      show Spent q.account.holder
      rw [haccount]
      exact h.removing (hremoval ▸ hremoving)
  · exact nofun
  · intro f hf
    obtain ⟨v, hcontinues, howned⟩ := h.alive f (hfuture ▸ hf)
    refine ⟨v, hcontinues, ?_⟩
    unfold Owned at howned ⊢
    show match v.reservation with
      | some r => q.account.holder = .held r ∧ _
      | none => Spent q.account.holder ∧ _
    rw [haccount]
    cases hr : v.reservation with
    | none =>
      rw [hr] at howned
      exact ⟨howned.1, rfl⟩
    | some r =>
      rw [hr] at howned
      refine ⟨howned.1, ?_⟩
      have hlocated := howned.2
      match f with
      | .op (.call c') resume =>
        rcases hlocated with ⟨hin, -, hbefore⟩ | ⟨hin, -⟩
        · obtain rfl : c = c' := Option.some.inj (hflight.symm.trans hin)
          obtain ⟨hanswers, hafter⟩ := hsees v hbefore hcontinues.2.1
          exact .inr ⟨rfl, answer, rfl, hanswers, hafter.bytes, hafter.final⟩
        · rw [hin] at hflight
          cases hflight
      | .op (.write _) _ | .op .pause _ | .op (.reserve _) _ | .op (.mark _) _ | .op (.commit _) _
      | .op .discard _ | .op .settle _ | .pure _ =>
        rw [hlocated.1] at hflight
        cases hflight
  · intro hgone
    show Spent q.account.holder
    rw [haccount]
    exact h.gone (hfuture ▸ hgone)

theorem Inv.land {failed there : Bool} (h : Inv encoding p)
    (hstep : p.land failed there = some p') : Inv encoding p' := by
  obtain ⟨c, hflight, hstep⟩ := Option.bind_eq_some_iff.mp hstep
  have hopening : c = .createNew → p.final.getD 0 = 0 := by
    rintro rfl
    exact h.opening hflight
  split at hstep
  · cases hstep
  · rename_i hready
    have hwaits : waits c = true → p.backlog = none := by
      intro hwaits
      by_contra hne
      exact hready ⟨hwaits, hne⟩
    cases failed with
    | true =>
      cases hstep
      refine h.answered hflight rfl rfl rfl (Nat.le_refl _) h.apart fun v hv _ => ⟨nofun, ?_⟩
      have hafter : v.after c (.error .other) = v := by cases c <;> rfl
      rw [hafter]
      exact hv
    | false =>
      cases hstep
      obtain ⟨hpotential, hapart, haccount, hfuture, hremoval⟩ :=
        p.effect_spec there c h.apart hopening
      exact h.answered hflight haccount hfuture hremoval hpotential hapart fun v hv hmoved =>
        effect_sees there hv h.apart hwaits hmoved

/-! ### The future -/

def isCall : Future Op (Except LocalError Unit) → Bool
  | .op (.call _) _ => true
  | _ => false

/-- A future that owns a reservation, at an operation that is no call. -/
theorem Owned.held {r : Reservation} (h : Owned v p f) (hr : v.reservation = some r)
    (hcall : isCall f = false) :
    p.account.holder = .held r ∧ p.flight = none ∧ Sees v p := by
  unfold Owned at h
  rw [hr] at h
  have hlocated := h.2
  match f with
  | .op (.call c) resume => cases hcall
  | .op (.write _) _ | .op .pause _ | .op (.reserve _) _ | .op (.mark _) _ | .op (.commit _) _
  | .op .discard _ | .op .settle _ | .pure _ => exact ⟨h.1, hlocated⟩

/-- While a reservation is held, nothing is settled and nothing is being removed. -/
theorem accounted_held {r : Reservation} (hheld : p.account.holder = .held r)
    (hapart : p.final.getD 0 ≠ 0 → p.temp = none) (hremoval : p.removal = false) :
    Accounted encoding p := by
  refine ⟨hapart, fun n hn => ?_, fun hsettled => ?_, fun hremoving => ?_⟩
  · rw [hheld] at hn
    cases hn
  · rw [hheld] at hsettled
    cases hsettled
  · rw [hremoval] at hremoving
    cases hremoving

theorem Accounted.removal_held {r : Reservation} (h : Accounted encoding p)
    (hheld : p.account.holder = .held r) : p.removal = false := by
  by_contra hremoving
  have hspent := h.removing (by simpa using hremoving)
  rw [hheld] at hspent
  exact hspent

theorem toNat_min (x y : UInt64) : (min x y).toNat = min x.toNat y.toNat := by
  show (if x ≤ y then x else y).toNat = _
  split
  · rename_i hle
    have hle := UInt64.le_iff_toNat_le.mp hle
    omega
  · rename_i hlt
    have hlt := UInt64.lt_iff_toNat_lt.mp (UInt64.not_le.mp hlt)
    omega

/-- What `commit` commits; a consumed value has nothing left to settle. -/
theorem commit_spec {bytes : UInt64} {a a' : Account} {r : Reservation}
    (hheld : a.holder = .held r) (hstate : r.state ≠ .temporary)
    (h : commit bytes a = some a') :
    a'.holder = .settled ∧
      a'.committed = a.committed + min bytes.toNat r.outstanding.toNat := by
  obtain ⟨a₁, hcommit, h⟩ := Option.bind_eq_some_iff.mp h
  obtain ⟨a₂, hslack, hdrop⟩ := Option.bind_eq_some_iff.mp h
  obtain ⟨call₁, hstep₁, hcommitted₁⟩ := step_spec hcommit
  rw [hheld, Holder.step] at hstep₁
  obtain ⟨hcall₁, hholder₁⟩ := Prod.mk.inj (Option.some.inj hstep₁)
  -- the slack, if there is any, is released and not committed
  have hend : a₂.holder = .dropping { r with outstanding := 0 } ∧
      a₂.committed = a₁.committed := by
    by_cases hmore : r.outstanding - min bytes r.outstanding > 0
    · rw [if_pos hmore] at hholder₁
      have hcommitting : a₁.holder.isCommitting = true := by
        rw [← hholder₁]
        rfl
      rw [if_pos hcommitting] at hslack
      obtain ⟨call₂, hstep₂, hcommitted₂⟩ := step_spec hslack
      rw [← hholder₁, Holder.step] at hstep₂
      obtain ⟨hcall₂, hholder₂⟩ := Prod.mk.inj (Option.some.inj hstep₂)
      rw [← hcall₂] at hcommitted₂
      exact ⟨hholder₂.symm, hcommitted₂⟩
    · rw [if_neg hmore] at hholder₁
      have hnot : a₁.holder.isCommitting = false := by
        rw [← hholder₁]
        rfl
      rw [hnot, if_neg Bool.false_ne_true] at hslack
      cases hslack
      exact ⟨hholder₁.symm, rfl⟩
  obtain ⟨call₃, hstep₃, hcommitted₃⟩ := step_spec hdrop
  rw [hend.1, Holder.step, Reservation.drop, if_pos ⟨rfl, hstate⟩] at hstep₃
  obtain ⟨hcall₃, hholder₃⟩ := Prod.mk.inj (Option.some.inj hstep₃)
  refine ⟨hholder₃.symm, ?_⟩
  rw [hcommitted₃, hend.2, hcommitted₁, ← hcall₁, ← hcall₃]
  show a.committed + (min bytes r.outstanding).toNat + 0 = _
  rw [toNat_min, Nat.add_zero]

/-- How `discard` leaves the bytes of a reservation. -/
theorem discard_spec {r : Reservation} (h : Droppable encoding r v)
    (hpotential : p.potential ≤ v.bytes) :
    (r.discard.2 = .settled ∧ p.potential ≤ committedBy r.discard.1) ∨
      (r.discard.2 = .pending r.outstanding ∧
        (encoding = .identity → p.potential ≤ r.outstanding.toNat)) := by
  unfold Reservation.discard
  cases hstate : r.state with
  | vacant =>
    have hzero := h.vacant hstate
    exact .inl ⟨rfl, by omega⟩
  | temporary => exact .inr ⟨rfl, fun hencoding => hpotential.trans (h.identity hencoding)⟩
  | published => exact .inl ⟨rfl, hpotential.trans (h.published hstate)⟩

/-- The reservation was settled, or a settlement waits with its bytes. -/
theorem accounted_spent {a : Account} {removal : Bool} {n : UInt64} {committed : Nat}
    (hapart : p.final.getD 0 ≠ 0 → p.temp = none)
    (h : (a.holder = .settled ∧ p.potential ≤ committed) ∨
      (a.holder = .pending n ∧ (encoding = .identity → p.potential ≤ n.toNat)))
    (hcommitted : committed ≤ a.committed) :
    Accounted encoding { p with account := a, removal := removal } ∧ Spent a.holder := by
  rcases h with ⟨hholder, hle⟩ | ⟨hholder, hle⟩
  · have hspent : Spent a.holder := by
      rw [hholder]
      trivial
    refine ⟨⟨hapart, fun m hm => ?_, fun _ => hle.trans hcommitted, fun _ => hspent⟩, hspent⟩
    cases hholder.symm.trans hm
  · have hspent : Spent a.holder := by
      rw [hholder]
      trivial
    refine ⟨⟨hapart, fun m hm => ?_, fun hm => ?_, fun _ => hspent⟩, hspent⟩
    · cases hholder.symm.trans hm
      exact hle
    · cases hholder.symm.trans hm

/-- What the file takes over counts at once. -/
theorem potential_write {total : Nat} (hbacklog : p.backlog = none)
    (hapart : p.final.getD 0 ≠ 0 → p.temp = none) :
    ({ p with backlog := some total } : State).potential ≤ max p.potential total := by
  show p.temp.elim 0 (fun n => max n total) + p.final.getD 0 ≤ max (p.temp.elim 0 _ + _) total
  cases htemp : p.temp with
  | none =>
    show 0 + _ ≤ max (0 + _) total
    omega
  | some n =>
    have hzero : p.final.getD 0 = 0 := by
      by_contra hne
      rw [hapart hne] at htemp
      cases htemp
    rw [hbacklog]
    show max n total + _ ≤ max (max n 0 + _) total
    omega

theorem Inv.poll {ready : Bool} (h : Inv encoding p) (hstep : p.poll ready = some p') :
    Inv encoding p' := by
  unfold State.poll at hstep
  match hfuture : p.future with
  | none =>
    rw [hfuture] at hstep
    cases hstep
  | some (.pure _) =>
    rw [hfuture] at hstep
    cases hstep
  | some (.op (.call c) resume) =>
    rw [hfuture] at hstep
    obtain ⟨answer, hanswer, rfl⟩ := Option.map_eq_some_iff.mp hstep
    obtain ⟨v, ⟨⟨r, hr, -⟩, -, hnext⟩, howned⟩ := h.alive _ hfuture
    unfold Owned at howned
    rw [hr] at howned
    obtain ⟨hheld, ⟨-, hnone, -⟩ | ⟨-, answer', hanswer', hanswers, hsees⟩⟩ := howned
    · rw [hnone] at hanswer
      cases hanswer
    · obtain rfl : answer = answer' := Option.some.inj (hanswer.symm.trans hanswer')
      have hafter : (v.after c answer).reservation = v.reservation := by
        cases c <;> cases answer <;> rfl
      refine proceed_inv h.toAccounted (hnext answer hanswers) ?_
      rw [hafter, hr]
      exact ⟨hheld, hsees⟩
  | some (.op (.write total) resume) =>
    rw [hfuture] at hstep
    obtain ⟨v, ⟨⟨r, hr, -⟩, htaken, hfailed⟩, howned⟩ := h.alive _ hfuture
    obtain ⟨hheld, -, hsees⟩ := howned.held hr rfl
    dsimp only at hstep
    split at hstep
    · split at hstep
      · rename_i hready
        cases hstep
        refine proceed_inv (accounted_held hheld h.apart (h.removal_held hheld))
          (htaken hready.2) ?_
        show match v.reservation with
          | some r => p.account.holder = .held r ∧ _
          | none => _
        rw [hr]
        refine ⟨hheld, (potential_write hready.1 h.apart).trans ?_, hsees.final⟩
        have hle := hsees.bytes
        show max p.potential total ≤ max v.bytes total
        omega
      · cases hstep
    · cases hstep
      refine proceed_inv h.toAccounted hfailed ?_
      rw [hr]
      exact ⟨hheld, hsees⟩
  | some (.op .pause resume) =>
    rw [hfuture] at hstep
    obtain ⟨v, ⟨⟨r, hr, -⟩, hnext⟩, howned⟩ := h.alive _ hfuture
    obtain ⟨hheld, -, hsees⟩ := howned.held hr rfl
    cases hstep
    refine proceed_inv h.toAccounted (hnext ready) ?_
    rw [hr]
    exact ⟨hheld, hsees⟩
  | some (.op (.reserve bytes) resume) =>
    rw [hfuture] at hstep
    obtain ⟨v, ⟨r, hr, htrue, hfalse⟩, howned⟩ := h.alive _ hfuture
    obtain ⟨hheld, -, hsees⟩ := howned.held hr rfl
    obtain ⟨account, haccount, rfl⟩ := Option.map_eq_some_iff.mp hstep
    obtain ⟨call, hholder, -⟩ := step_spec haccount
    rw [hheld, Holder.step] at hholder
    have hremoval := h.removal_held hheld
    -- the future is told of exactly what the reservation has
    by_cases hadmitted : (decide (bytes = 0) || ready) = true
    · have hadded : account.holder = .held (r.add bytes) := by
        split at hholder
        · exact (Prod.mk.inj (Option.some.inj hholder)).2.symm
        · rename_i hne
          rw [show ready = true by simpa [hne] using hadmitted, if_pos rfl] at hholder
          exact (Prod.mk.inj (Option.some.inj hholder)).2.symm
      rw [hadmitted]
      exact proceed_inv (accounted_held hadded h.apart hremoval) htrue ⟨hadded, hsees.bytes, hsees.final⟩
    · have hkept : account.holder = .held r := by
        split at hholder
        · rename_i hzero
          exact absurd (by simp [hzero]) hadmitted
        · rename_i hne
          rw [show ready = false by simpa [hne] using hadmitted,
            if_neg Bool.false_ne_true] at hholder
          exact (Prod.mk.inj (Option.some.inj hholder)).2.symm
      rw [Bool.not_eq_true] at hadmitted
      rw [hadmitted]
      refine proceed_inv (accounted_held hkept h.apart hremoval) hfalse ?_
      rw [hr]
      exact ⟨hkept, hsees.bytes, hsees.final⟩
  | some (.op (.mark state) resume) =>
    rw [hfuture] at hstep
    obtain ⟨v, ⟨r, hr, hnext⟩, howned⟩ := h.alive _ hfuture
    obtain ⟨hheld, -, hsees⟩ := howned.held hr rfl
    obtain ⟨account, haccount, rfl⟩ := Option.map_eq_some_iff.mp hstep
    obtain ⟨call, hholder, -⟩ := step_spec haccount
    rw [hheld, Holder.step] at hholder
    have hmarked := (Prod.mk.inj (Option.some.inj hholder)).2.symm
    exact proceed_inv (accounted_held hmarked h.apart (h.removal_held hheld)) hnext
      ⟨hmarked, hsees.bytes, hsees.final⟩
  | some (.op (.commit bytes) resume) =>
    rw [hfuture] at hstep
    obtain ⟨v, ⟨r, hr, hstate, hbytes, houtstanding, hnext⟩, howned⟩ := h.alive _ hfuture
    obtain ⟨hheld, -, hsees⟩ := howned.held hr rfl
    obtain ⟨account, haccount, rfl⟩ := Option.map_eq_some_iff.mp hstep
    obtain ⟨hsettled, hcommitted⟩ := commit_spec hheld hstate haccount
    have hle := hsees.bytes
    obtain ⟨haccounted, hspent⟩ := @accounted_spent encoding p account
      (isPending account.holder) 0 account.committed h.apart (.inl ⟨hsettled, by omega⟩)
      (Nat.le_refl _)
    exact proceed_inv (p := { p with account := account, removal := isPending account.holder })
      haccounted hnext hspent
  | some (.op .discard resume) =>
    rw [hfuture] at hstep
    obtain ⟨v, ⟨⟨r, hr, hdroppable⟩, hnext⟩, howned⟩ := h.alive _ hfuture
    obtain ⟨hheld, -, hsees⟩ := howned.held hr rfl
    obtain ⟨account, haccount, rfl⟩ := Option.map_eq_some_iff.mp hstep
    obtain ⟨call, hholder, hcommitted⟩ := step_spec haccount
    rw [hheld, Holder.step] at hholder
    have hdiscard := Option.some.inj hholder
    have hspec := discard_spec hdroppable hsees.bytes
    rw [hdiscard] at hspec
    obtain ⟨haccounted, hspent⟩ := @accounted_spent encoding p account
      (isPending account.holder) r.outstanding (committedBy call) h.apart hspec (by omega)
    exact proceed_inv (p := { p with account := account, removal := isPending account.holder })
      haccounted hnext hspent
  | some (.op .settle resume) =>
    rw [hfuture] at hstep
    obtain ⟨v, ⟨hr, hnext⟩, howned⟩ := h.alive _ hfuture
    unfold Owned at howned
    rw [hr] at howned
    dsimp only at hstep
    split at hstep
    · cases hstep
    · cases hstep
      refine proceed_inv h.toAccounted hnext ?_
      rw [hr]
      exact howned.1

/-! ### Drops -/

/-- How the drop of a reservation leaves its bytes. -/
theorem drop_spec {runtime : Bool} {r : Reservation} (h : Droppable encoding r v)
    (hpotential : p.potential ≤ v.bytes)
    (hcovered : encoding = .zstd → runtime = false → r.state = .temporary →
      p.potential ≤ r.outstanding.toNat) :
    ((r.drop runtime).2 = .settled ∧ p.potential ≤ committedBy (r.drop runtime).1) ∨
      ((r.drop runtime).2 = .pending r.outstanding ∧
        (encoding = .identity → p.potential ≤ r.outstanding.toNat)) := by
  unfold Reservation.drop
  by_cases hquiet : r.outstanding = 0 ∧ r.state ≠ .temporary
  · rw [if_pos hquiet]
    refine .inl ⟨rfl, ?_⟩
    show p.potential ≤ 0
    cases hstate : r.state with
    | vacant =>
      have hzero := h.vacant hstate
      omega
    | temporary => exact absurd hstate hquiet.2
    | published =>
      have hle := h.published hstate
      rw [hquiet.1] at hle
      exact hpotential.trans hle
  · rw [if_neg hquiet]
    cases hstate : r.state with
    | vacant =>
      have hzero := h.vacant hstate
      exact .inl ⟨rfl, by omega⟩
    | published => exact .inl ⟨rfl, hpotential.trans (h.published hstate)⟩
    | temporary =>
      cases runtime with
      | true => exact .inr ⟨rfl, fun hencoding => hpotential.trans (h.identity hencoding)⟩
      | false =>
        refine .inl ⟨rfl, ?_⟩
        show p.potential ≤ r.outstanding.toNat
        cases hencoding : encoding with
        | identity => exact hpotential.trans (h.identity hencoding)
        | zstd => exact hcovered hencoding rfl hstate

/-- A settlement that gives up on its removal commits what covers the bytes. -/
theorem Inv.settle_committed {n : UInt64} {e : HolderEvent} {a : Account} (h : Inv encoding p)
    (hpending : p.account.holder = .pending n) (he : e = .cancel ∨ e = .removed false)
    (hcovered : encoding = .zstd → p.potential ≤ n.toNat)
    (hstep : step true e p.account = some a) :
    a.holder = .settled ∧ p.potential ≤ a.committed := by
  have hle : p.potential ≤ n.toNat := by
    cases hencoding : encoding with
    | identity => exact h.pending n hpending hencoding
    | zstd => exact hcovered hencoding
  obtain ⟨call, hholder, hcommitted⟩ := step_spec hstep
  rw [hpending] at hholder
  rcases he with rfl | rfl
  · rw [Holder.step] at hholder
    obtain ⟨hcall, hsettled⟩ := Prod.mk.inj (Option.some.inj hholder)
    refine ⟨hsettled.symm, ?_⟩
    rw [hcommitted, ← hcall]
    by_cases hpos : n > 0
    · rw [if_pos hpos]
      exact hle.trans (Nat.le_add_left ..)
    · have hzero := UInt64.le_iff_toNat_le.mp (UInt64.not_lt.mp hpos)
      have h0 : (0 : UInt64).toNat = 0 := rfl
      omega
  · rw [Holder.step] at hholder
    obtain ⟨hcall, hsettled⟩ := Prod.mk.inj (Option.some.inj hholder)
    refine ⟨hsettled.symm, ?_⟩
    rw [hcommitted, ← hcall]
    exact hle.trans (Nat.le_add_left ..)

/-- Without a future, the accounts are all there is to keep. -/
theorem Accounted.inv (h : Accounted encoding p)
    (hopening : p.flight = some .createNew → p.final.getD 0 = 0) (hgone : p.future = none)
    (hspent : Spent p.account.holder) : Inv encoding p := by
  refine ⟨h, hopening, fun f hf => ?_, fun _ => hspent⟩
  rw [hgone] at hf
  cases hf

theorem Inv.drop {runtime : Bool} (h : Inv encoding p)
    (hcareful : Careful encoding p (.drop runtime)) (hstep : p.drop runtime = some p') :
    Inv encoding p' := by
  unfold State.drop at hstep
  cases hfuture : p.future with
  | none =>
    rw [hfuture] at hstep
    cases hstep
  | some f =>
    rw [hfuture] at hstep
    dsimp only at hstep
    by_cases hsuspends : suspends f = true
    · rw [if_pos hsuspends] at hstep
      obtain ⟨v, hcontinues, howned⟩ := h.alive f hfuture
      unfold Owned at howned
      cases hr : v.reservation with
      | some r =>
        rw [hr] at howned
        obtain ⟨hheld, hlocated⟩ := howned
        rw [hheld] at hstep
        obtain ⟨account, haccount, rfl⟩ := Option.map_eq_some_iff.mp hstep
        obtain ⟨call, hholder, hcommitted⟩ := step_spec haccount
        rw [hheld, Holder.step] at hholder
        have hdrop := Option.some.inj hholder
        have hspec := @drop_spec encoding p v runtime r (hcontinues.droppable hsuspends r hr)
          hlocated.potential_le fun hencoding hruntime hstate => by
            have hcovered := hcareful.covered hencoding
            rw [hheld] at hcovered
            refine hcovered ?_
            obtain ⟨outstanding, state⟩ := r
            cases hstate
            rw [commits, hheld, hruntime]
            rfl
        rw [hdrop] at hspec
        obtain ⟨haccounted, hspent⟩ := @accounted_spent encoding p account
          (isPending account.holder) r.outstanding (committedBy call) h.apart hspec (by omega)
        exact Accounted.inv ⟨haccounted.apart, haccounted.pending, haccounted.settled,
          haccounted.removing⟩ h.opening rfl hspent
      | none =>
        rw [hr] at howned
        cases hholder : p.account.holder with
        | pending n =>
          rw [hholder] at hstep
          obtain ⟨account, haccount, rfl⟩ := Option.map_eq_some_iff.mp hstep
          obtain ⟨hsettled, hle⟩ := h.settle_committed hholder (.inl rfl)
            (fun hencoding => by
              have hcovered := hcareful.covered hencoding
              rw [commits, hholder] at hcovered
              exact hcovered rfl) haccount
          obtain ⟨haccounted, hspent⟩ := @accounted_spent encoding p account p.removal 0
            account.committed h.apart (.inl ⟨hsettled, hle⟩) (Nat.le_refl _)
          exact Accounted.inv ⟨haccounted.apart, haccounted.pending, haccounted.settled,
            haccounted.removing⟩ h.opening rfl hspent
        | settled =>
          rw [hholder] at hstep
          cases hstep
          exact Accounted.inv ⟨h.apart, h.pending, h.settled, h.removing⟩ h.opening rfl howned.1
        | unborn | held | committing | dropping =>
          rw [hholder] at howned
          exact howned.1.elim
    · rw [if_neg hsuspends] at hstep
      cases hstep

/-! ### The removal -/

/-- The removal is over, and the settlement with it. -/
theorem Inv.after_removal {q : State} {a : Account} {removal : Bool} (h : Inv encoding p)
    (hfinal : q.final = p.final) (hflight : q.flight = p.flight) (hfuture : q.future = p.future)
    (hpending : isPending p.account.holder = true) (hholder : a.holder = .settled)
    (hle : q.potential ≤ a.committed) (htemp : p.temp = none → q.temp = none) :
    Inv encoding { q with account := a, removal := removal } := by
  have hspent : Spent a.holder := by
    rw [hholder]
    trivial
  refine ⟨⟨?_, fun n hn => ?_, fun _ => hle, fun _ => hspent⟩, ?_, ?_, fun _ => hspent⟩
  · intro hne
    exact htemp (h.apart (by rw [← hfinal]; exact hne))
  · cases hholder.symm.trans hn
  · intro hopening
    show q.final.getD 0 = 0
    rw [hfinal]
    exact h.opening (hflight ▸ hopening)
  · intro f hf
    obtain ⟨v, hcontinues, howned⟩ := h.alive f (hfuture ▸ hf)
    refine ⟨v, hcontinues, ?_⟩
    unfold Owned at howned ⊢
    cases hr : v.reservation with
    | some r =>
      rw [hr] at howned
      rw [howned.1] at hpending
      cases hpending
    | none =>
      rw [hr] at howned
      exact ⟨hspent, hflight.trans howned.2⟩

/-- A file that was removed while its settlement was over already. -/
theorem potential_unlink (p : State) : ({ p with temp := none } : State).potential ≤ p.potential :=
  Nat.add_le_add_right (Nat.zero_le _) _

theorem Inv.unlink (h : Inv encoding p) : Inv encoding { p with temp := none } :=
  h.shrink rfl rfl rfl rfl rfl (potential_unlink p) (Nat.le_refl _) fun _ => rfl

theorem Inv.stop_removing (h : Inv encoding p) : Inv encoding { p with removal := false } := by
  refine ⟨⟨h.apart, h.pending, h.settled, nofun⟩, h.opening, fun f hf => ?_, h.gone⟩
  obtain ⟨v, hcontinues, howned⟩ := h.alive f hf
  refine ⟨v, hcontinues, ?_⟩
  unfold Owned at howned ⊢
  cases hr : v.reservation with
  | none =>
    rw [hr] at howned
    exact howned
  | some r =>
    rw [hr] at howned
    refine ⟨howned.1, ?_⟩
    have hlocated := howned.2
    match f with
    | .op (.call _) _ =>
      rcases hlocated with ⟨hin, hnone, hsees⟩ | ⟨hin, answer, hsome, hanswers, hsees⟩
      · exact .inl ⟨hin, hnone, hsees.bytes, hsees.final⟩
      · exact .inr ⟨hin, answer, hsome, hanswers, hsees.bytes, hsees.final⟩
    | .op (.write _) _ | .op .pause _ | .op (.reserve _) _ | .op (.mark _) _ | .op (.commit _) _
    | .op .discard _ | .op .settle _ | .pure _ =>
      exact ⟨hlocated.1, hlocated.2.bytes, hlocated.2.final⟩

theorem pending_of_isPending {holder : Holder} (h : isPending holder = true) :
    ∃ n, holder = .pending n := by
  cases holder with
  | pending n => exact ⟨n, rfl⟩
  | _ => cases h

theorem Inv.removed {failed : Bool} (h : Inv encoding p)
    (hcareful : Careful encoding p (.removed failed)) (hstep : p.removed failed = some p') :
    Inv encoding p' := by
  unfold State.removed at hstep
  by_cases hremoval : p.removal = true
  · rw [if_pos hremoval] at hstep
    cases failed with
    | true =>
      rw [if_pos rfl, settleRemoval] at hstep
      by_cases hpending : isPending p.account.holder = true
      · rw [if_pos hpending] at hstep
        obtain ⟨account, haccount, rfl⟩ := Option.map_eq_some_iff.mp hstep
        obtain ⟨n, hn⟩ := pending_of_isPending hpending
        obtain ⟨hsettled, hle⟩ := h.settle_committed hn (.inr rfl)
          (fun hencoding => by
            have hcovered := hcareful.covered hencoding
            rw [commits, hn] at hcovered
            exact hcovered rfl) haccount
        exact h.after_removal rfl rfl rfl hpending hsettled hle id
      · rw [if_neg hpending] at hstep
        cases hstep
        exact h.stop_removing
    | false =>
      rw [if_neg Bool.false_ne_true, settleRemoval] at hstep
      by_cases hpending : isPending p.account.holder = true
      · rw [if_pos hpending] at hstep
        obtain ⟨account, haccount, rfl⟩ := Option.map_eq_some_iff.mp hstep
        obtain ⟨n, hn⟩ := pending_of_isPending hpending
        obtain ⟨call, hholder, -⟩ := step_spec haccount
        rw [hn, Holder.step] at hholder
        have hsettled := (Prod.mk.inj (Option.some.inj hholder)).2.symm
        -- nothing is left under either name
        have hzero : p.final.getD 0 = 0 := by
          by_contra hne
          exact hne (hcareful.vacant rfl hpending (h.apart hne))
        refine @Inv.after_removal encoding p { p with temp := none } account false h rfl rfl rfl
          hpending hsettled ?_ fun _ => rfl
        show 0 + p.final.getD 0 ≤ _
        omega
      · rw [if_neg hpending] at hstep
        cases hstep
        exact h.unlink.stop_removing
  · rw [if_neg hremoval] at hstep
    cases hstep

theorem Inv.cancel {issued : Bool} (h : Inv encoding p)
    (hcareful : Careful encoding p (.cancel issued)) (hstep : p.cancel issued = some p') :
    Inv encoding p' := by
  unfold State.cancel at hstep
  split at hstep
  · rename_i hready
    obtain ⟨-, -, hpending⟩ := hready
    obtain ⟨account, haccount, rfl⟩ := Option.map_eq_some_iff.mp hstep
    obtain ⟨n, hn⟩ := pending_of_isPending hpending
    obtain ⟨hsettled, hle⟩ := h.settle_committed hn (.inl rfl)
      (fun hencoding => by
        have hcovered := hcareful.covered hencoding
        rw [hn] at hcovered
        exact hcovered rfl) haccount
    exact h.after_removal rfl rfl rfl hpending hsettled hle id
  · cases hstep

theorem Inv.act {a : Action} (h : Inv encoding p) (hcareful : Careful encoding p a)
    (hstep : p.act a = some p') : Inv encoding p' := by
  cases a with
  | poll ready => exact h.poll hstep
  | land failed there => exact h.land hstep
  | written n last => exact h.written hstep
  | drop runtime => exact h.drop hcareful hstep
  | removed failed => exact h.removed hcareful hstep
  | cancel issued => exact h.cancel hcareful hstep
  | evict =>
    cases hstep
    exact h.evict

end State

theorem start_inv {encoding : StoredEncoding} {program : Upload Unit}
    (h : Continues encoding program ⟨some .new, 0, false⟩) :
    State.Inv encoding (start program) :=
  State.proceed_inv (State.accounted_held (r := .new) rfl (fun hne => absurd rfl hne) rfl) h
    ⟨rfl, Nat.le_refl _, fun _ => rfl⟩

/-- Once everything has settled, an upload that was dropped has no more bytes on disk than were
committed: if no removal mistakes a body that a rename in flight moved for one that is gone, and
no frame is committed that has outgrown its reservation. -/
theorem cancelled_uploads_conservative (enc : Encoder) (extent : Extent)
    (upload : Flywheel.Upload) (target : PublicationTarget) (stream : List Item) {p : State}
    (h : (machine (publishOrReject enc extent upload target stream)).Reach
      (State.Careful upload.encoding) p) (hsettled : p.Settled) :
    p.bytes ≤ p.account.committed := by
  have hinv : State.Inv upload.encoding p := by
    refine h.invariant ?_ fun _ _ _ hp hcareful hstep => hp.act hcareful hstep
    rintro s rfl
    exact start_inv (publishOrReject_continues target stream)
  exact p.bytes_le_potential.trans (hinv.settled hsettled.2.2.2.2)

/-! ### Drops while a rename is in flight -/

section Samples

open ArtifactFiles

/-- The upload of the five bytes `hello`. -/
def sampleProgram : Upload Unit :=
  publishOrReject sampleEncoder ⟨4, by decide⟩ ArtifactFiles.sampleUpload
    (.contentAddressed none) [.ok [104, 101, 108, 108, 111]]

def poll : Action := .poll true

def land : Action := .land false false

/-- Up to the await of `rename`: two extents, one chunk, the fence, the stripe. -/
def untilRename : List Action :=
  [poll, land, poll, poll, land, poll, poll, poll, poll, poll, .written 5 true, land, poll, poll,
    poll, poll, land, poll, land, poll]

def sampleRun (ok : State → Action → Bool) (after : List Action) : Option State :=
  System.exec State.act ok (start sampleProgram) (untilRename ++ after)

def isSettled (p : State) : Bool :=
  p.future.isNone && p.flight.isNone && p.backlog.isNone && !p.removal &&
    decide (p.account.holder = .settled)

theorem settled_of {p : State} (h : isSettled p = true) : p.Settled := by
  simp only [isSettled, Bool.and_eq_true, Option.isNone_iff_eq_none, Bool.not_eq_true',
    decide_eq_true_eq] at h
  obtain ⟨⟨⟨⟨hfuture, hflight⟩, hbacklog⟩, hremoval⟩, hholder⟩ := h
  exact ⟨hfuture, hflight, hbacklog, hremoval, hholder⟩

/-- What a careful step of an identity upload has to check. -/
def isCareful (p : State) : Action → Bool
  | .removed false => p.temp.isSome || p.final.getD 0 == 0
  | _ => true

theorem careful_of {p : State} {a : Action} (h : isCareful p a = true) :
    State.Careful ArtifactFiles.sampleUpload.encoding p a := by
  refine ⟨?_, nofun⟩
  rintro rfl - htemp
  rw [isCareful, htemp] at h
  simpa using h

theorem reach_of_sample {G : State → Action → Prop} {ok : State → Action → Bool}
    (hok : ∀ p a, ok p a = true → G p a) (after : List Action) (P : State → Bool)
    (h : (sampleRun ok after).any P = true) :
    ∃ p, (machine sampleProgram).Reach G p ∧ P p = true := by
  obtain ⟨p, hp, hP⟩ := (Option.any_eq_true _ _).mp h
  exact ⟨p, ⟨start sampleProgram, rfl,
    System.steps_of_exec (fun _ _ _ => id) hok hp⟩, hP⟩

/-- The removal comes before the rename, which then finds nothing to move. -/
theorem dropped_before_rename :
    ∃ p, (machine sampleProgram).Reach (State.Careful ArtifactFiles.sampleUpload.encoding) p ∧
      p.Settled ∧
      p.account.released = 8 ∧ p.bytes ≤ p.account.committed := by
  have hcareful : ∀ p a, isCareful p a = true →
      State.Careful ArtifactFiles.sampleUpload.encoding p a :=
    fun _ _ => careful_of
  obtain ⟨p, hreach, hP⟩ := reach_of_sample hcareful
    [.drop true, .removed false, land]
    (fun p => isSettled p && p.account.released == 8) (by decide +kernel)
  simp only [Bool.and_eq_true, beq_iff_eq] at hP
  have hsettled := settled_of hP.1
  exact ⟨p, hreach, hsettled, hP.2,
    cancelled_uploads_conservative sampleEncoder ⟨4, by decide⟩ ArtifactFiles.sampleUpload _ _
      hreach hsettled⟩

/-- The rename comes first: the removal finds nothing, the reservation is released, and the five
bytes have their final name. -/
theorem dropped_behind_rename :
    ∃ p, (machine sampleProgram).Reach (fun _ _ => True) p ∧ p.Settled ∧
      p.account.released = 8 ∧ p.account.committed = 0 ∧ p.bytes = 5 := by
  have hany : ∀ (p : State) (a : Action), true = true → True := fun _ _ _ => trivial
  obtain ⟨p, hreach, hP⟩ := reach_of_sample hany [land, .drop true, .removed false]
    (fun p => isSettled p && p.account.released == 8 && p.account.committed == 0 &&
      p.bytes == 5) (by decide +kernel)
  simp only [Bool.and_eq_true, beq_iff_eq] at hP
  obtain ⟨⟨⟨hsettled, hreleased⟩, hcommitted⟩, hbytes⟩ := hP
  exact ⟨p, hreach, settled_of hsettled, hreleased, hcommitted, hbytes⟩

end Samples

end Cancellation

end Flywheel
