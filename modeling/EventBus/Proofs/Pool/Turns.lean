import EventBus.Pool.Session
import EventBus.Proofs.Sync.Permits
import Mathlib.Logic.Relation
import Mathlib.Tactic.Common

/-!
Requests for the tokens of a pool under any scheduling: requests are made, tokens given back,
the pool is cancelled and time goes by at any moment, and of those who can act anyone may be
next. What one step does to the tokens and to the requests is said once, and from it follows
that every token is either free, kept for one who waits, or held; that no one waits while a
token is free; and that whoever could make use of a turn is to have one.
-/

namespace EventBus.Pool

namespace Slot

def isHeld : Slot → Bool
  | .held => true
  | _ => false

def isAsking : Slot → Bool
  | .asking _ _ => true
  | _ => false

/-- How many places in the line of a pool, or tokens kept there, belong to a request. -/
def claims : Slot → Nat
  | .waiting _ => 1
  | _ => 0

end Slot

namespace Session

/-- How many requests hold a token. -/
def held (s : Session) : Nat := s.slots.countP Slot.isHeld

def turn (s : Session) (n : Nat) : Session := { s with ready := s.ready.erase n }.act n

inductive Step (s : Session) : Session → Prop where
  | acquire (timeout : Nat) (canceled : Bool) : Step s (s.acquire timeout canceled)
  | release (n : Nat) : Step s (s.release n)
  | cancel : Step s s.cancel
  | reach {now : Nat} (h : s.now ≤ now) : Step s (s.reach now)
  | turn {n : Nat} (h : n ∈ s.ready) : Step s (s.turn n)

def Reaches : Session → Session → Prop := Relation.ReflTransGen Step

/-- No one can act. -/
def AtRest (s : Session) : Prop := s.step? = none

/-- What becomes of a request, and of the tokens with it. -/
inductive Exchange (n : Nat) : Slot → Semaphore Nat → Slot → Semaphore Nat → Prop where
  | refuse {timeout canceled tokens} (error : BusError) :
      Exchange n (.asking timeout canceled) tokens (.failed error) tokens
  | take {timeout canceled tokens tokens'} (h : tokens.take? = some tokens') :
      Exchange n (.asking timeout canceled) tokens .held tokens'
  | wait {timeout canceled tokens} (h : tokens.free = 0) (deadline : Nat) :
      Exchange n (.asking timeout canceled) tokens (.waiting deadline) (tokens.wait n)
  | redeem {deadline tokens} (h : tokens.isGranted n = true) :
      Exchange n (.waiting deadline) tokens .held (tokens.redeem n)
  | leave {deadline tokens} (error : BusError) :
      Exchange n (.waiting deadline) tokens (.failed error) (tokens.leave n).1
  | release {tokens} : Exchange n .held tokens .released tokens.release.1

/-- What a step does, apart from saying who is to act. -/
inductive Change (s s' : Session) : Prop where
  | same (hpool : s'.pool = s.pool) (hslots : s'.slots = s.slots)
  | ask (timeout : Nat) (canceled : Bool) (hpool : s'.pool = s.pool)
      (hslots : s'.slots = s.slots ++ [.asking timeout canceled])
  | exchange {n : Nat} {old new : Slot} (hold : s.slots[n]? = some old)
      (hslots : s'.slots = s.slots.set n new) (hsize : s'.pool.size = s.pool.size)
      (h : Exchange n old s.pool.tokens new s'.pool.tokens)

variable {s s' : Session} {n m : Nat} {old new : Slot} {tokens tokens' : Semaphore Nat}

theorem atRest_iff : s.AtRest ↔ s.ready = [] := by
  unfold AtRest step?
  cases s.ready <;> simp

section Rousing

/-- Nothing has changed but that some requests are to act as well. -/
structure Roused (who : Nat → Prop) (s s' : Session) : Prop where
  pool : s'.pool = s.pool
  slots : s'.slots = s.slots
  now : s'.now = s.now
  canceled : s'.canceled = s.canceled
  mem_ready : ∀ n, n ∈ s'.ready ↔ n ∈ s.ready ∨ who n
  nodup : s.ready.Nodup → s'.ready.Nodup

theorem Roused.refl (s : Session) : Roused (fun _ => False) s s :=
  ⟨rfl, rfl, rfl, rfl, by simp, id⟩

theorem roused_wake (s : Session) (n : Nat) : Roused (· = n) s (s.wake n) := by
  unfold wake
  split
  next hready =>
    have hmem : n ∈ s.ready := by simpa using hready
    refine ⟨rfl, rfl, rfl, rfl, fun m => ⟨Or.inl, ?_⟩, id⟩
    rintro (h | rfl)
    · exact h
    · exact hmem
  next hready =>
    have hmem : n ∉ s.ready := by simpa using hready
    refine ⟨rfl, rfl, rfl, rfl, by simp, fun hnodup => ?_⟩
    exact List.nodup_append.mpr ⟨hnodup, by simp, by grind⟩

theorem roused_wakeIf (s : Session) (next : Option Nat) :
    Roused (next = some ·) s (s.wakeIf next) := by
  cases next with
  | none => exact ⟨rfl, rfl, rfl, rfl, by simp [wakeIf], id⟩
  | some m =>
    have hwake := roused_wake s m
    exact { hwake with mem_ready := fun n => by simp [wakeIf, hwake.mem_ready, eq_comm] }

/-- Those of a list who are picked are to act. -/
theorem roused_foldl (entries : List (Nat × Nat)) (picked : Nat × Nat → Bool) (s : Session) :
    Roused (fun n => ∃ entry ∈ entries, picked entry = true ∧ entry.1 = n) s
      (entries.foldl (fun s entry => if picked entry then s.wake entry.1 else s) s) := by
  induction entries generalizing s with
  | nil => exact ⟨rfl, rfl, rfl, rfl, by simp, id⟩
  | cons entry entries ih =>
    rw [List.foldl_cons]
    split
    next hpicked =>
      have hfirst := roused_wake s entry.1
      have hrest := ih (s.wake entry.1)
      refine ⟨hrest.pool.trans hfirst.pool, hrest.slots.trans hfirst.slots,
        hrest.now.trans hfirst.now, hrest.canceled.trans hfirst.canceled, fun n => ?_,
        fun h => hrest.nodup (hfirst.nodup h)⟩
      rw [hrest.mem_ready, hfirst.mem_ready, or_assoc]
      simp [hpicked, @eq_comm _ n]
    next hpicked =>
      have hrest := ih s
      exact { hrest with mem_ready := fun n => by simp [hrest.mem_ready, hpicked] }

theorem mem_deadlines {deadline : Nat} :
    (n, deadline) ∈ s.deadlines ↔ s.slots[n]? = some (.waiting deadline) := by
  unfold deadlines
  rw [List.mem_filterMap]
  constructor
  · rintro ⟨⟨slot, m⟩, hmem, hslot⟩
    have hat := List.mem_zipIdx_iff_getElem?.mp hmem
    cases slot with
    | waiting d =>
      obtain ⟨rfl, rfl⟩ := Prod.mk.inj (Option.some.inj hslot)
      exact hat
    | _ => cases hslot
  · intro h
    exact ⟨(.waiting deadline, n), List.mem_zipIdx_iff_getElem?.mpr h, rfl⟩

theorem roused_cancel (s : Session) :
    Roused (fun n => ∃ deadline, s.slots[n]? = some (.waiting deadline))
      { s with canceled := true } s.cancel := by
  have h := roused_foldl s.deadlines (fun _ => true) { s with canceled := true }
  refine { h with mem_ready := fun n => (h.mem_ready n).trans (or_congr_right ?_) }
  constructor
  · rintro ⟨⟨m, deadline⟩, hmem, -, rfl⟩
    exact ⟨deadline, mem_deadlines.mp hmem⟩
  · rintro ⟨deadline, hslot⟩
    exact ⟨(n, deadline), mem_deadlines.mpr hslot, rfl, rfl⟩

theorem reach_eq_foldl (s : Session) (now : Nat) : s.reach now = s.deadlines.foldl
    (fun s entry => if decide (entry.2 ≤ now) then s.wake entry.1 else s) { s with now } := by
  simp [reach]

theorem roused_reach (s : Session) (now : Nat) :
    Roused (fun n => ∃ deadline ≤ now, s.slots[n]? = some (.waiting deadline))
      { s with now } (s.reach now) := by
  have h := roused_foldl s.deadlines (fun entry => decide (entry.2 ≤ now)) { s with now }
  rw [reach_eq_foldl]
  refine { h with mem_ready := fun n => (h.mem_ready n).trans (or_congr_right ?_) }
  constructor
  · rintro ⟨⟨m, deadline⟩, hmem, hdue, rfl⟩
    exact ⟨deadline, by simpa using hdue, mem_deadlines.mp hmem⟩
  · rintro ⟨deadline, hdue, hslot⟩
    exact ⟨(n, deadline), mem_deadlines.mpr hslot, by simpa using hdue, rfl⟩

end Rousing

section Acting

/-- What a request can do on its turn, and when. -/
inductive Acted (s : Session) (n : Nat) : Session → Prop where
  | refuse {timeout : Nat} {canceled : Bool} (hslot : s.slots[n]? = some (.asking timeout canceled))
      (h : (canceled || s.canceled) = true) : Acted s n (s.put n (.failed .canceled))
  | take {timeout : Nat} {canceled : Bool} {tokens : Semaphore Nat}
      (hslot : s.slots[n]? = some (.asking timeout canceled))
      (hlive : (canceled || s.canceled) = false) (htake : s.pool.tokens.take? = some tokens) :
      Acted s n (({ s with pool := { s.pool with tokens } } : Session).put n .held)
  | wait {timeout : Nat} {canceled : Bool} (hslot : s.slots[n]? = some (.asking timeout canceled))
      (hlive : (canceled || s.canceled) = false) (hfree : s.pool.tokens.free = 0)
      (hpatient : 0 < timeout) :
      Acted s n (({ s with pool := { s.pool with tokens := s.pool.tokens.wait n } } : Session).put n
        (.waiting (s.now + timeout)))
  | lapse {timeout : Nat} {canceled : Bool} (hslot : s.slots[n]? = some (.asking timeout canceled))
      (hlive : (canceled || s.canceled) = false) (hfree : s.pool.tokens.free = 0)
      (himpatient : timeout = 0) : Acted s n (s.put n (.failed .timedOut))
  | redeem {deadline : Nat} (hslot : s.slots[n]? = some (.waiting deadline))
      (hlive : s.canceled = false) (hgranted : s.pool.tokens.isGranted n = true) :
      Acted s n (({ s with pool := { s.pool with tokens := s.pool.tokens.redeem n } } : Session).put
        n .held)
  | leave {deadline : Nat} (hslot : s.slots[n]? = some (.waiting deadline)) (error : BusError) :
      Acted s n ((({ s with pool := (s.pool.leave n).1 } : Session).put n (.failed error)).wakeIf
        (s.pool.leave n).2)
  | keep {deadline : Nat} (hslot : s.slots[n]? = some (.waiting deadline))
      (hlive : s.canceled = false) (hgranted : s.pool.tokens.isGranted n = false)
      (hearly : s.now < deadline) : Acted s n s
  | idle (hasking : ∀ timeout canceled, s.slots[n]? ≠ some (.asking timeout canceled))
      (hwaiting : ∀ deadline, s.slots[n]? ≠ some (.waiting deadline)) : Acted s n s

theorem put_of_getElem? {slot : Slot} (hslot : s.slots[n]? = some slot) : s.put n slot = s := by
  obtain ⟨hlt, hget⟩ := List.getElem?_eq_some_iff.mp hslot
  rw [put, ← hget, List.set_getElem_self]

theorem act_asking {timeout : Nat} {canceled : Bool}
    (hslot : s.slots[n]? = some (.asking timeout canceled)) :
    s.act n = ({ s with pool := (s.pool.request n (canceled || s.canceled) (0 < timeout)).2 } :
      Session).settleSlot n (s.now + timeout)
        (s.pool.request n (canceled || s.canceled) (0 < timeout)).1 := by
  unfold act
  rw [hslot]

theorem act_waiting {deadline : Nat} (hslot : s.slots[n]? = some (.waiting deadline)) :
    s.act n = (({ s with pool := (s.pool.review n s.canceled (deadline ≤ s.now)).2.1 } :
      Session).settleSlot n deadline (s.pool.review n s.canceled (deadline ≤ s.now)).1).wakeIf
        (s.pool.review n s.canceled (deadline ≤ s.now)).2.2 := by
  unfold act
  rw [hslot]

theorem acted (s : Session) (n : Nat) : Acted s n (s.act n) := by
  cases hslot : s.slots[n]? with
  | none =>
    have hact : s.act n = s := by
      unfold act
      rw [hslot]
    rw [hact]
    exact .idle (by simp [hslot]) (by simp [hslot])
  | some slot =>
    cases slot with
    | asking timeout canceled =>
      rw [act_asking hslot, Pool.request]
      split
      next h => exact .refuse hslot h
      next h =>
        have hlive := Bool.eq_false_iff.mpr h
        cases htake : s.pool.tokens.take? with
        | some tokens => exact .take hslot hlive htake
        | none =>
          have hfree := Semaphore.take?_eq_none_iff.mp htake
          dsimp only
          split
          next hpatient => exact .wait hslot hlive hfree (by simpa using hpatient)
          next hpatient => exact .lapse hslot hlive hfree (by simpa using hpatient)
    | waiting deadline =>
      rw [act_waiting hslot, Pool.review]
      split
      next => exact .leave hslot .canceled
      next h =>
        have hlive := Bool.eq_false_iff.mpr h
        split
        next hgranted => exact .redeem hslot hlive hgranted
        next hgranted =>
          split
          next => exact .leave hslot .timedOut
          next hdue =>
            change Acted s n (s.put n (.waiting deadline))
            rw [put_of_getElem? hslot]
            exact .keep hslot hlive (by simpa using hgranted) (by simpa using hdue)
    | _ =>
      have hact : s.act n = s := by
        unfold act
        rw [hslot]
      rw [hact]
      exact .idle (by simp [hslot]) (by simp [hslot])

end Acting

section Changes

theorem Roused.change {who : Nat → Prop} (h : Roused who s s') : Change s s' :=
  .same h.pool h.slots

theorem Change.roused {who : Nat → Prop} {s'' : Session} (change : Change s s')
    (h : Roused who s' s'') : Change s s'' := by
  cases change with
  | same hpool hslots => exact .same (h.pool.trans hpool) (h.slots.trans hslots)
  | ask timeout canceled hpool hslots =>
    exact .ask timeout canceled (h.pool.trans hpool) (h.slots.trans hslots)
  | exchange hold hslots hsize hexchange =>
    exact .exchange hold (h.slots.trans hslots) (h.pool ▸ hsize) (h.pool ▸ hexchange)

theorem Acted.change (h : Acted s n s') : Change s s' := by
  cases h with
  | refuse hslot _ => exact .exchange hslot rfl rfl (.refuse .canceled)
  | take hslot _ htake => exact .exchange hslot rfl rfl (.take htake)
  | wait hslot _ hfree _ => exact .exchange hslot rfl rfl (.wait hfree _)
  | lapse hslot _ _ _ => exact .exchange hslot rfl rfl (.refuse .timedOut)
  | redeem hslot _ hgranted => exact .exchange hslot rfl rfl (.redeem hgranted)
  | leave hslot error =>
    have hleft : Change s (({ s with pool := (s.pool.leave n).1 } : Session).put n
        (.failed error)) := .exchange hslot rfl rfl (.leave error)
    exact hleft.roused (roused_wakeIf _ _)
  | keep _ _ _ _ => exact .same rfl rfl
  | idle _ _ => exact .same rfl rfl

/-- Giving a token back that is not held changes nothing. -/
theorem release_eq (s : Session) (n : Nat) :
    s.slots[n]? = some .held ∧
      s.release n = (({ s with pool := s.pool.release.1 } : Session).put n .released).wakeIf
        s.pool.release.2 ∨ s.slots[n]? ≠ some .held ∧ s.release n = s := by
  unfold release
  split
  next hslot => exact Or.inl ⟨hslot, rfl⟩
  next hslot => exact Or.inr ⟨hslot, rfl⟩

theorem Step.change (step : Step s s') : Change s s' := by
  cases step with
  | acquire timeout canceled =>
    have hasked : Change s { s with slots := s.slots ++ [Slot.asking timeout canceled] } :=
      .ask timeout canceled rfl rfl
    exact hasked.roused (roused_wake _ _)
  | release n =>
    rcases release_eq s n with ⟨hslot, heq⟩ | ⟨-, heq⟩
    · have hgiven : Change s (({ s with pool := s.pool.release.1 } : Session).put n .released) :=
        .exchange hslot rfl rfl .release
      rw [heq]
      exact hgiven.roused (roused_wakeIf _ _)
    · rw [heq]
      exact .same rfl rfl
  | cancel =>
    have hcanceled : Change s { s with canceled := true } := .same rfl rfl
    exact hcanceled.roused (roused_cancel s)
  | @reach now h =>
    have hlater : Change s { s with now } := .same rfl rfl
    exact hlater.roused (roused_reach s now)
  | @turn n h =>
    have hact := acted { s with ready := s.ready.erase n } n
    cases hact.change with
    | same hpool hslots => exact .same hpool hslots
    | ask timeout canceled hpool hslots => exact .ask timeout canceled hpool hslots
    | exchange hold hslots hsize hexchange => exact .exchange hold hslots hsize hexchange

end Changes

section Accounts

/-- The places in line and the tokens kept are those of the requests that wait, no token is
lost, and no one waits while one is free. -/
structure Accounted (s : Session) : Prop where
  conserved : s.pool.tokens.spare + s.held = s.pool.size
  orderly : s.pool.tokens.Orderly
  claims : ∀ n, s.pool.tokens.claims n = s.slots[n]?.elim 0 Slot.claims

theorem countP_set_add (p : Slot → Bool) {slots : List Slot} (hold : slots[n]? = some old) :
    (slots.set n new).countP p + (if p old then 1 else 0) =
      slots.countP p + (if p new then 1 else 0) := by
  obtain ⟨hlt, hget⟩ := List.getElem?_eq_some_iff.mp hold
  have hpos : p old = true → 0 < slots.countP p := fun h =>
    List.countP_pos_iff.mpr ⟨old, hget ▸ List.getElem_mem hlt, h⟩
  rw [List.countP_set hlt, hget]
  cases hheld : p old with
  | false => simp
  | true =>
    have h := hpos hheld
    simp only [if_true]
    omega

/-- A request and its token change together. -/
theorem Exchange.spare (h : Exchange n old tokens new tokens') :
    tokens'.spare + (if new.isHeld then 1 else 0) =
      tokens.spare + (if old.isHeld then 1 else 0) := by
  cases h with
  | refuse _ => rfl
  | take htake => exact Semaphore.spare_of_take? htake
  | wait _ _ => rfl
  | redeem hgranted => exact Semaphore.spare_redeem hgranted
  | leave _ => exact Semaphore.spare_leave tokens n
  | release => exact Semaphore.spare_release tokens

theorem Exchange.orderly (h : Exchange n old tokens new tokens') (orderly : tokens.Orderly) :
    tokens'.Orderly := by
  cases h with
  | refuse _ => exact orderly
  | take htake => exact Semaphore.orderly_of_take? htake orderly
  | wait hfree _ => exact Semaphore.orderly_wait hfree n
  | redeem _ => exact Semaphore.orderly_redeem orderly n
  | leave _ => exact Semaphore.orderly_leave orderly n
  | release => exact Semaphore.orderly_release orderly

theorem Exchange.claims_self (h : Exchange n old tokens new tokens')
    (hclaims : tokens.claims n = old.claims) : tokens'.claims n = new.claims := by
  cases h with
  | refuse _ => exact hclaims
  | take htake => exact (Semaphore.claims_of_take? htake n).trans hclaims
  | wait _ _ =>
    rw [Semaphore.claims_wait_self, hclaims]
    rfl
  | redeem hgranted =>
    have h := Semaphore.claims_redeem_self hgranted
    rw [hclaims] at h
    exact Nat.succ.inj h
  | leave _ =>
    have h := Semaphore.claims_leave_self (hclaims ▸ Nat.one_pos : 0 < tokens.claims n)
    rw [hclaims] at h
    exact Nat.succ.inj h
  | release => exact (Semaphore.claims_release tokens n).trans hclaims

theorem Exchange.claims_of_ne (h : Exchange n old tokens new tokens') (hne : m ≠ n) :
    tokens'.claims m = tokens.claims m := by
  cases h with
  | refuse _ => rfl
  | take htake => exact Semaphore.claims_of_take? htake m
  | wait _ _ => exact Semaphore.claims_wait_of_ne tokens hne
  | redeem _ => exact Semaphore.claims_redeem_of_ne tokens hne
  | leave _ => exact Semaphore.claims_leave_of_ne tokens hne
  | release => exact Semaphore.claims_release tokens m

theorem Accounted.change (h : Accounted s) (change : Change s s') : Accounted s' := by
  cases change with
  | same hpool hslots =>
    refine ⟨?_, hpool ▸ h.orderly, fun n => ?_⟩
    · rw [hpool, held, hslots]
      exact h.conserved
    · rw [hpool, hslots]
      exact h.claims n
  | ask timeout canceled hpool hslots =>
    refine ⟨?_, hpool ▸ h.orderly, fun n => ?_⟩
    · rw [hpool, held, hslots, List.countP_append]
      exact h.conserved
    · rw [hpool, hslots, h.claims n]
      rcases Nat.lt_trichotomy n s.slots.length with hlt | rfl | hgt
      · rw [List.getElem?_append_left hlt]
      · simp [Slot.claims]
      · have hnone : s.slots[n]? = none := List.getElem?_eq_none (Nat.le_of_lt hgt)
        have hnone' : (s.slots ++ [Slot.asking timeout canceled])[n]? = none :=
          List.getElem?_eq_none (by simpa using Nat.succ_le_of_lt hgt)
        rw [hnone, hnone']
  | @exchange n old new hold hslots hsize hexchange =>
    have hlt : n < s.slots.length := (List.getElem?_eq_some_iff.mp hold).1
    refine ⟨?_, hexchange.orderly h.orderly, fun m => ?_⟩
    · have hheld := @countP_set_add n old new Slot.isHeld s.slots hold
      rw [← hslots] at hheld
      have hspare := hexchange.spare
      have hall := h.conserved
      rw [hsize]
      unfold held at hall ⊢
      omega
    · rw [hslots]
      rcases eq_or_ne m n with rfl | hne
      · have hclaims := h.claims m
        rw [hold] at hclaims
        rw [List.getElem?_set_self hlt]
        exact hexchange.claims_self hclaims
      · rw [List.getElem?_set_ne hne.symm, hexchange.claims_of_ne hne]
        exact h.claims m

theorem accounted_ofSize (size : Nat) : Accounted (ofSize size) :=
  ⟨rfl, Or.inl rfl, fun _ => rfl⟩

end Accounts

section Waking

/-- A turn would make a difference to the request. -/
def Stirs (s : Session) (n : Nat) : Prop :=
  (∃ timeout canceled, s.slots[n]? = some (.asking timeout canceled)) ∨
    ∃ deadline, s.slots[n]? = some (.waiting deadline) ∧
      (s.canceled = true ∨ n ∈ s.pool.tokens.granted ∨ deadline ≤ s.now)

/-- Everyone to whom a turn would make a difference is to have one. -/
structure Woken (s : Session) : Prop where
  stirs : ∀ n, s.Stirs n → n ∈ s.ready
  nodup : s.ready.Nodup
  bound : ∀ n ∈ s.ready, n < s.slots.length

theorem Accounted.waiting_iff (h : Accounted s) :
    (∃ deadline, s.slots[n]? = some (.waiting deadline)) ↔
      n ∈ s.pool.tokens.waiting ∨ n ∈ s.pool.tokens.granted := by
  have hclaims := h.claims n
  have hzero : s.pool.tokens.claims n = 0 ↔ _ := Semaphore.claims_eq_zero_iff
  cases hslot : s.slots[n]? with
  | none =>
    rw [hslot] at hclaims
    simpa [← not_or] using hzero.mp hclaims
  | some slot =>
    rw [hslot] at hclaims
    cases slot with
    | waiting deadline =>
      rw [hclaims] at hzero
      simpa [← not_or, Slot.claims] using hzero
    | _ => simpa [← not_or] using hzero.mp hclaims

theorem Accounted.lt_of_waiting (h : Accounted s) (hn : n ∈ s.pool.tokens.waiting) :
    n < s.slots.length := by
  obtain ⟨deadline, hslot⟩ := h.waiting_iff.mpr (Or.inl hn)
  exact (List.getElem?_eq_some_iff.mp hslot).1

theorem Stirs.lt_length (h : s.Stirs n) : n < s.slots.length := by
  rcases h with ⟨_, _, hslot⟩ | ⟨_, hslot, _⟩ <;> exact (List.getElem?_eq_some_iff.mp hslot).1

theorem Roused.woken {who : Nat → Prop} (h : Roused who s s') (hnodup : s.ready.Nodup)
    (hstirs : ∀ n, s.Stirs n → n ∈ s.ready ∨ who n)
    (hbound : ∀ n, n ∈ s.ready ∨ who n → n < s.slots.length) : Woken s' where
  stirs := by
    intro n hn
    rw [Stirs, h.slots, h.canceled, h.pool, h.now] at hn
    exact (h.mem_ready n).mpr (hstirs n hn)
  nodup := h.nodup hnodup
  bound := by
    intro n hn
    rw [h.slots]
    exact hbound n ((h.mem_ready n).mp hn)

/-- An exchange stirs no one else but the one to whom a token passes on. -/
theorem Stirs.of_put {pool : Pool Nat} {slot : Slot} {next : Option Nat}
    (h : Stirs (({ s with pool } : Session).put n slot) m) (hne : m ≠ n)
    (hgranted : m ∈ pool.tokens.granted → m ∈ s.pool.tokens.granted ∨ next = some m) :
    s.Stirs m ∨ next = some m := by
  unfold Stirs put at h
  rw [List.getElem?_set_ne hne.symm] at h
  rcases h with hasking | ⟨deadline, hslot, hcanceled | hkept | hdue⟩
  · exact Or.inl (Or.inl hasking)
  · exact Or.inl (Or.inr ⟨deadline, hslot, Or.inl hcanceled⟩)
  · rcases hgranted hkept with hkept | hnext
    · exact Or.inl (Or.inr ⟨deadline, hslot, Or.inr (Or.inl hkept)⟩)
    · exact Or.inr hnext
  · exact Or.inl (Or.inr ⟨deadline, hslot, Or.inr (Or.inr hdue)⟩)

/-- After an exchange those who stir are to act: the others as before, together with the one to
whom a token passes on, and the request itself does not stir. -/
theorem woken_put (pool : Pool Nat) {slot : Slot} (next : Option Nat) (h : Accounted s)
    (hnodup : s.ready.Nodup) (hbound : ∀ m ∈ s.ready, m < s.slots.length)
    (hstirs : ∀ m, m ≠ n → s.Stirs m → m ∈ s.ready)
    (hself : ¬ Stirs (({ s with pool } : Session).put n slot) n)
    (hgranted : ∀ m, m ∈ pool.tokens.granted → m ∈ s.pool.tokens.granted ∨ next = some m)
    (hnext : ∀ m, next = some m → m ∈ s.pool.tokens.waiting) :
    Woken ((({ s with pool } : Session).put n slot).wakeIf next) := by
  refine (roused_wakeIf _ next).woken hnodup (fun m hm => ?_) (fun m hm => ?_)
  · have hne : m ≠ n := by
      rintro rfl
      exact hself hm
    exact (hm.of_put hne (hgranted m)).imp_left (hstirs m hne)
  · have hlt : m < s.slots.length := hm.elim (hbound m) fun hm => h.lt_of_waiting (hnext m hm)
    simpa [put] using hlt

theorem not_stirs_put {pool : Pool Nat} {slot : Slot} (hasking : slot.isAsking = false)
    (hwaiting : slot.claims = 0) : ¬ Stirs (({ s with pool } : Session).put n slot) n := by
  intro h
  have hlt := h.lt_length
  rw [put, List.length_set] at hlt
  unfold Stirs put at h
  rw [List.getElem?_set_self hlt] at h
  rcases h with ⟨_, _, hslot⟩ | ⟨_, hslot, _⟩
  · cases Option.some.inj hslot
    cases hasking
  · cases Option.some.inj hslot
    cases hwaiting

theorem mem_waiting_of_leave (h : (tokens.leave n).2 = some m) : m ∈ tokens.waiting := by
  rw [Semaphore.waiting_of_leave h]
  exact List.mem_cons_self

theorem mem_waiting_of_release (h : tokens.release.2 = some m) : m ∈ tokens.waiting := by
  rw [Semaphore.waiting_release, h]
  exact List.mem_cons_self

theorem Acted.woken (acted : Acted s n s') (h : Accounted s) (hnodup : s.ready.Nodup)
    (hbound : ∀ m ∈ s.ready, m < s.slots.length)
    (hstirs : ∀ m, m ≠ n → s.Stirs m → m ∈ s.ready) : Woken s' := by
  have hidle : ¬ s.Stirs n → Woken s := by
    refine fun hself => ⟨fun m hm => ?_, hnodup, hbound⟩
    rcases eq_or_ne m n with rfl | hne
    · exact absurd hm hself
    · exact hstirs m hne hm
  cases acted with
  | refuse _ _ | lapse _ _ _ _ =>
    exact woken_put s.pool none h hnodup hbound hstirs
      (not_stirs_put rfl rfl) (fun _ => Or.inl) nofun
  | take _ _ htake =>
    have hgranted := (Semaphore.free_of_take? htake).2.2
    exact woken_put _ none h hnodup hbound hstirs (not_stirs_put rfl rfl)
      (fun m hm => Or.inl (hgranted ▸ hm)) nofun
  | @wait timeout canceled hslot hlive hfree hpatient =>
    have hself : ¬ Stirs (({ s with pool := { s.pool with tokens := s.pool.tokens.wait n } } :
        Session).put n (.waiting (s.now + timeout))) n := by
      have hclaims := h.claims n
      rw [hslot] at hclaims
      intro hn
      have hlt := hn.lt_length
      rw [put, List.length_set] at hlt
      unfold Stirs put at hn
      rw [List.getElem?_set_self hlt] at hn
      rcases hn with ⟨_, _, hnew⟩ | ⟨_, hnew, hcanceled | hkept | hdue⟩
      · cases hnew
      · rw [hcanceled, Bool.or_true] at hlive
        cases hlive
      · exact (Semaphore.claims_eq_zero_iff.mp hclaims).2 hkept
      · cases hnew
        exact absurd hdue (Nat.not_le_of_lt (Nat.lt_add_of_pos_right hpatient))
    exact woken_put _ none h hnodup hbound hstirs hself (fun _ => Or.inl) nofun
  | redeem _ _ _ =>
    exact woken_put _ none h hnodup hbound hstirs (not_stirs_put rfl rfl)
      (fun m hm => Or.inl (List.mem_of_mem_erase hm)) nofun
  | leave _ error =>
    exact woken_put _ _ h hnodup hbound hstirs (not_stirs_put rfl rfl)
      (fun m hm => Semaphore.granted_leave hm) (fun m hm => mem_waiting_of_leave hm)
  | keep hslot hlive hgranted hearly =>
    refine hidle ?_
    rintro (⟨_, _, hasking⟩ | ⟨deadline, hwaiting, hwhy⟩)
    · rw [hslot] at hasking
      cases hasking
    · rw [hslot] at hwaiting
      cases hwaiting
      rcases hwhy with hcanceled | hkept | hdue
      · rw [hlive] at hcanceled
        cases hcanceled
      · rw [Semaphore.isGranted_iff.mpr hkept] at hgranted
        cases hgranted
      · exact absurd hdue (Nat.not_le_of_lt hearly)
  | idle hasking hwaiting =>
    refine hidle ?_
    rintro (⟨_, _, hslot⟩ | ⟨_, hslot, _⟩)
    · exact hasking _ _ hslot
    · exact hwaiting _ hslot

theorem Woken.step (woken : Woken s) (h : Accounted s) (step : Step s s') : Woken s' := by
  cases step with
  | acquire timeout canceled =>
    refine (roused_wake _ _).woken woken.nodup (fun n hn => ?_) (fun n hn => ?_)
    · rcases eq_or_ne n s.slots.length with rfl | hne
      · exact Or.inr rfl
      · have hlt : n < s.slots.length := by
          have hlt := hn.lt_length
          simp only [List.length_append, List.length_singleton] at hlt
          omega
        unfold Stirs at hn
        rw [List.getElem?_append_left hlt] at hn
        exact Or.inl (woken.stirs n hn)
    · simp only [List.length_append, List.length_singleton]
      rcases hn with hready | rfl
      · exact Nat.lt_succ_of_lt (woken.bound n hready)
      · exact Nat.lt_succ_self _
  | release n =>
    rcases release_eq s n with ⟨-, heq⟩ | ⟨-, heq⟩
    · rw [heq]
      refine woken_put _ _ h woken.nodup woken.bound (fun m _ => woken.stirs m)
        (not_stirs_put rfl rfl) (fun m hm => ?_) (fun m hm => mem_waiting_of_release hm)
      have hgranted := Semaphore.granted_release s.pool.tokens
      have hm : m ∈ s.pool.tokens.release.1.granted := hm
      rw [hgranted, List.mem_append, Option.mem_toList] at hm
      exact hm
    · rw [heq]
      exact woken
  | cancel =>
    refine (roused_cancel s).woken woken.nodup (fun n hn => ?_) (fun n hn => ?_)
    · rcases hn with hasking | ⟨deadline, hslot, -⟩
      · exact Or.inl (woken.stirs n (Or.inl hasking))
      · exact Or.inr ⟨deadline, hslot⟩
    · rcases hn with hready | ⟨deadline, hslot⟩
      · exact woken.bound n hready
      · exact (List.getElem?_eq_some_iff.mp hslot).1
  | @reach now _ =>
    refine (roused_reach s now).woken woken.nodup (fun n hn => ?_) (fun n hn => ?_)
    · rcases hn with hasking | ⟨deadline, hslot, hcanceled | hkept | hdue⟩
      · exact Or.inl (woken.stirs n (Or.inl hasking))
      · exact Or.inl (woken.stirs n (Or.inr ⟨deadline, hslot, Or.inl hcanceled⟩))
      · exact Or.inl (woken.stirs n (Or.inr ⟨deadline, hslot, Or.inr (Or.inl hkept)⟩))
      · exact Or.inr ⟨deadline, hdue, hslot⟩
    · rcases hn with hready | ⟨deadline, -, hslot⟩
      · exact woken.bound n hready
      · exact (List.getElem?_eq_some_iff.mp hslot).1
  | @turn n hn =>
    have hasked : Change s { s with ready := s.ready.erase n } := .same rfl rfl
    refine (acted { s with ready := s.ready.erase n } n).woken (h.change hasked)
      (woken.nodup.erase n) (fun m hm => woken.bound m (List.mem_of_mem_erase hm))
      (fun m hne hm => ?_)
    exact (List.mem_erase_of_ne hne).mpr (woken.stirs m hm)

theorem woken_ofSize (size : Nat) : Woken (ofSize size) where
  stirs := by simp [Stirs, ofSize]
  nodup := List.nodup_nil
  bound := nofun

/-- What holds of every session, whatever was done to it. -/
structure Sound (s : Session) : Prop where
  accounted : Accounted s
  woken : Woken s

theorem Sound.reaches (sound : Sound s) (steps : s.Reaches s') : Sound s' := by
  induction steps with
  | refl => exact sound
  | tail _ step ih =>
    exact ⟨ih.accounted.change step.change, ih.woken.step ih.accounted step⟩

theorem sound_of_reaches {size : Nat} (steps : (ofSize size).Reaches s) : Sound s :=
  Sound.reaches ⟨accounted_ofSize size, woken_ofSize size⟩ steps

theorem Sound.not_stirs (sound : Sound s) (rest : s.AtRest) : ¬ s.Stirs n := by
  intro hn
  have hready := sound.woken.stirs n hn
  rw [atRest_iff.mp rest] at hready
  cases hready

/-- At rest no token is kept for anyone. -/
theorem Sound.granted_eq_nil (sound : Sound s) (rest : s.AtRest) :
    s.pool.tokens.granted = [] := by
  refine List.eq_nil_iff_forall_not_mem.mpr fun n hn => ?_
  obtain ⟨deadline, hslot⟩ := sound.accounted.waiting_iff.mpr (Or.inr hn)
  exact sound.not_stirs rest (Or.inr ⟨deadline, hslot, Or.inr (Or.inl hn)⟩)

end Waking

end Session

end EventBus.Pool
