import EventBus.Proofs.Pool.Driven
import Mathlib.Data.List.Nodup

/-!
Who gets the tokens of a pool. Those who wait stand in line in the order in which they began
to: a token that comes back goes to the first of them, and while anyone is in line no token is
free that one who comes later could take. A token kept for one who gives up passes on, so that
at rest every token is free or held, and none is free while someone waits.
-/

namespace EventBus.Pool.Session

variable {s s' start : Session} {n m first later : Nat} {old new : Slot}
  {tokens tokens' : Semaphore Nat}

/-- Waits, and no token is kept for it. -/
def InLine (s : Session) (n : Nat) : Prop :=
  (∃ deadline, s.slots[n]? = some (.waiting deadline)) ∧ n ∉ s.pool.tokens.granted

/-- Has been given a token: holds it, has given it back, or has it kept. -/
def Served (s : Session) (n : Nat) : Prop :=
  s.slots[n]? = some .held ∨ s.slots[n]? = some .released ∨ n ∈ s.pool.tokens.granted

section Order

theorem Accounted.claims_le_one (h : Accounted s) (n : Nat) : s.pool.tokens.claims n ≤ 1 := by
  rw [h.claims n]
  cases s.slots[n]? with
  | none => exact Nat.zero_le 1
  | some slot => cases slot <;> simp [Slot.claims]

theorem Accounted.inLine_iff (h : Accounted s) : s.InLine n ↔ n ∈ s.pool.tokens.waiting := by
  rw [InLine, h.waiting_iff]
  constructor
  · rintro ⟨hwaiting | hkept, hnot⟩
    · exact hwaiting
    · exact absurd hkept hnot
  · intro hwaiting
    refine ⟨Or.inl hwaiting, fun hkept => ?_⟩
    have hone := h.claims_le_one n
    have hline := List.count_pos_iff.mpr hwaiting
    have hkept := List.count_pos_iff.mpr hkept
    rw [Semaphore.claims, List.count_append] at hone
    omega

theorem Accounted.granted_nodup (h : Accounted s) : s.pool.tokens.granted.Nodup := by
  apply List.nodup_iff_count_le_one.mpr
  intro n
  have hone := h.claims_le_one n
  rw [Semaphore.claims, List.count_append] at hone
  omega

/-- The line only loses members, or gains one who asks at its end. -/
theorem Exchange.waiting (h : Exchange n old tokens new tokens') :
    List.Sublist tokens'.waiting tokens.waiting ∨
      old.isAsking = true ∧ tokens'.waiting = tokens.waiting ++ [n] := by
  cases h with
  | refuse _ => exact Or.inl (List.Sublist.refl _)
  | take htake =>
    rw [(Semaphore.free_of_take? htake).2.1]
    exact Or.inl (List.Sublist.refl _)
  | wait _ _ => exact Or.inr ⟨rfl, rfl⟩
  | redeem _ => exact Or.inl (List.Sublist.refl _)
  | leave _ => exact Or.inl (Semaphore.waiting_leave_sublist tokens n)
  | release =>
    rw [Semaphore.waiting_release tokens]
    exact Or.inl (List.sublist_append_right _ _)

/-- A token is kept for no one but the first in line. -/
theorem Exchange.granted (h : Exchange n old tokens new tokens') (hm : m ∈ tokens'.granted) :
    m ∈ tokens.granted ∨ tokens.waiting = m :: tokens'.waiting := by
  cases h with
  | refuse _ => exact Or.inl hm
  | take htake =>
    rw [(Semaphore.free_of_take? htake).2.2] at hm
    exact Or.inl hm
  | wait _ _ => exact Or.inl hm
  | redeem _ => exact Or.inl (List.mem_of_mem_erase hm)
  | leave _ => exact (Semaphore.granted_leave hm).imp_right Semaphore.waiting_of_leave
  | release =>
    rw [Semaphore.granted_release, List.mem_append, Option.mem_toList] at hm
    refine hm.imp_right fun hnext => ?_
    have hline := Semaphore.waiting_release tokens
    rw [hnext] at hline
    exact hline

/-- One who comes to hold a token had it kept, or found one free with no one in line. -/
theorem Exchange.holder (h : Exchange n old tokens new tokens') (orderly : tokens.Orderly)
    (hnew : new = .held ∨ new = .released) :
    old = .held ∨ n ∈ tokens.granted ∨ tokens'.waiting = [] := by
  cases h with
  | refuse _ | wait _ _ | leave _ => rcases hnew with hnew | hnew <;> cases hnew
  | take htake =>
    obtain ⟨hfree, hwaiting, -⟩ := Semaphore.free_of_take? htake
    have hnone : tokens.waiting = [] := orderly.resolve_right (by omega)
    exact Or.inr (Or.inr (hwaiting.trans hnone))
  | redeem hgranted => exact Or.inr (Or.inl (Semaphore.isGranted_iff.mp hgranted))
  | release => exact Or.inl rfl

theorem Exchange.not_asking (h : Exchange n old tokens new tokens') : new.isAsking = false := by
  cases h <;> rfl

theorem Change.waiting (change : Change s s') :
    List.Sublist s'.pool.tokens.waiting s.pool.tokens.waiting ∨
      ∃ n slot, s.slots[n]? = some slot ∧ slot.isAsking = true ∧
        s'.pool.tokens.waiting = s.pool.tokens.waiting ++ [n] := by
  cases change with
  | same hpool _ | ask _ _ hpool _ =>
    rw [hpool]
    exact Or.inl (List.Sublist.refl _)
  | exchange hold _ _ hexchange =>
    exact hexchange.waiting.imp_right fun ⟨hasking, hline⟩ => ⟨_, _, hold, hasking, hline⟩

theorem Change.served (change : Change s s') (orderly : s.pool.tokens.Orderly)
    (hm : s'.Served m) :
    s.Served m ∨ s.pool.tokens.waiting = m :: s'.pool.tokens.waiting ∨
      s'.pool.tokens.waiting = [] := by
  cases change with
  | same hpool hslots =>
    rw [Served, hpool, hslots] at hm
    exact Or.inl hm
  | ask timeout canceled hpool hslots =>
    have hslot : ∀ slot, slot ≠ .asking timeout canceled → s'.slots[m]? = some slot →
        s.slots[m]? = some slot := by
      intro slot hne hslot
      rw [hslots, List.getElem?_append] at hslot
      split at hslot
      · exact hslot
      · have hlast := List.mem_of_getElem? hslot
        exact absurd (List.mem_singleton.mp hlast) hne
    rw [Served, hpool] at hm
    exact Or.inl (hm.imp (hslot _ nofun) (Or.imp_left (hslot _ nofun)))
  | @exchange n old new hold hslots _ hexchange =>
    have hlt : n < s.slots.length := (List.getElem?_eq_some_iff.mp hold).1
    have hkept : m ∈ s'.pool.tokens.granted → s.Served m ∨
        s.pool.tokens.waiting = m :: s'.pool.tokens.waiting ∨ s'.pool.tokens.waiting = [] :=
      fun hkept => (hexchange.granted hkept).imp (Or.inr ∘ Or.inr) Or.inl
    rcases eq_or_ne n m with rfl | hne
    · have hnew : s'.slots[n]? = some new := by rw [hslots, List.getElem?_set_self hlt]
      have hholds : new = .held ∨ new = .released → s.Served n ∨
          s.pool.tokens.waiting = n :: s'.pool.tokens.waiting ∨ s'.pool.tokens.waiting = [] := by
        intro hholds
        rcases hexchange.holder orderly hholds with rfl | hgranted | hnone
        · exact Or.inl (Or.inl hold)
        · exact Or.inl (Or.inr (Or.inr hgranted))
        · exact Or.inr (Or.inr hnone)
      rw [Served, hnew, Option.some_inj, Option.some_inj] at hm
      rcases hm with hheld | hreleased | hgranted
      · exact hholds (Or.inl hheld)
      · exact hholds (Or.inr hreleased)
      · exact hkept hgranted
    · have hsame : s'.slots[m]? = s.slots[m]? := by rw [hslots, List.getElem?_set_ne hne]
      rw [Served, hsame] at hm
      rcases hm with hheld | hreleased | hgranted
      · exact Or.inl (Or.inl hheld)
      · exact Or.inl (Or.inr (Or.inl hreleased))
      · exact hkept hgranted

/-- One request has been looked at, and as long as it is in line the other has not been served
and is not ahead of it. -/
structure Before (first later : Nat) (s : Session) : Prop where
  asked : ∃ slot, s.slots[first]? = some slot ∧ slot.isAsking = false
  behind : first ∈ s.pool.tokens.waiting →
    ¬ s.Served later ∧ ¬ List.Sublist [later, first] s.pool.tokens.waiting

theorem Change.not_asking (change : Change s s')
    (h : ∃ slot, s.slots[m]? = some slot ∧ slot.isAsking = false) :
    ∃ slot, s'.slots[m]? = some slot ∧ slot.isAsking = false := by
  obtain ⟨slot, hslot, hnot⟩ := h
  cases change with
  | same _ hslots => exact ⟨slot, by rwa [hslots], hnot⟩
  | ask timeout canceled _ hslots =>
    refine ⟨slot, ?_, hnot⟩
    rw [hslots, List.getElem?_append_left (List.getElem?_eq_some_iff.mp hslot).1]
    exact hslot
  | @exchange n old new hold hslots _ hexchange =>
    have hlt : n < s.slots.length := (List.getElem?_eq_some_iff.mp hold).1
    rw [hslots]
    rcases eq_or_ne n m with rfl | hne
    · exact ⟨new, List.getElem?_set_self hlt, hexchange.not_asking⟩
    · exact ⟨slot, (List.getElem?_set_ne hne).trans hslot, hnot⟩

/-- One who joins at the end gets ahead of no one. -/
theorem sublist_of_sublist_concat {line : List Nat} (hne : first ≠ n)
    (h : List.Sublist [later, first] (line ++ [n])) : List.Sublist [later, first] line := by
  rw [← List.reverse_sublist] at h ⊢
  simp only [List.reverse_append, List.reverse_cons, List.reverse_nil, List.nil_append,
    List.singleton_append] at h ⊢
  exact (List.cons_sublist_cons'.mp h).resolve_right fun hlast => hne hlast.1

theorem Before.change (before : Before first later s) (orderly : s.pool.tokens.Orderly)
    (change : Change s s') : Before first later s' where
  asked := change.not_asking before.asked
  behind := by
    intro hfirst
    obtain ⟨slot, hslot, hnot⟩ := before.asked
    have hline : first ∈ s.pool.tokens.waiting ∧
        ¬ List.Sublist [later, first] s'.pool.tokens.waiting := by
      rcases change.waiting with hsub | ⟨n, asking, hasking, htrue, hline⟩
      · have hwas := hsub.subset hfirst
        exact ⟨hwas, fun hahead => (before.behind hwas).2 (hahead.trans hsub)⟩
      · have hne : first ≠ n := by
          rintro rfl
          rw [hslot] at hasking
          cases hasking
          rw [hnot] at htrue
          cases htrue
        rw [hline, List.mem_append, List.mem_singleton] at hfirst
        have hwas := hfirst.resolve_right hne
        rw [hline]
        exact ⟨hwas, fun hahead => (before.behind hwas).2 (sublist_of_sublist_concat hne hahead)⟩
    obtain ⟨hwas, hnotAhead⟩ := hline
    refine ⟨fun hserved => ?_, hnotAhead⟩
    rcases change.served orderly hserved with hserved | hnext | hnone
    · exact (before.behind hwas).1 hserved
    · apply (before.behind hwas).2
      rw [hnext]
      exact (List.singleton_sublist.mpr hfirst).cons_cons later
    · rw [hnone] at hfirst
      cases hfirst

theorem Before.reaches (before : Before first later start) (sound : Sound start)
    (steps : start.Reaches s) : Before first later s := by
  induction steps with
  | refl => exact before
  | tail steps step ih => exact ih.change (sound.reaches steps).accounted.orderly step.change

/-- No one is served before one who was in line already. -/
theorem Sound.not_served (sound : Sound start) (steps : start.Reaches s)
    (hfirst : start.InLine first) (hlater : ¬ start.InLine later) (hnot : ¬ start.Served later)
    (hstill : s.InLine first) : ¬ s.Served later := by
  have hstart : Before first later start := by
    obtain ⟨⟨deadline, hslot⟩, -⟩ := hfirst
    refine ⟨⟨_, hslot, rfl⟩, fun _ => ⟨hnot, fun hahead => ?_⟩⟩
    apply hlater
    exact sound.accounted.inLine_iff.mpr (hahead.subset List.mem_cons_self)
  have hbefore := hstart.reaches sound steps
  exact (hbefore.behind ((sound.reaches steps).accounted.inLine_iff.mp hstill)).1

end Order

section Canceled

/-- Asked when cancelled already: not looked at yet, or refused. -/
def Refused (s : Session) (n timeout : Nat) (canceled : Bool) : Prop :=
  s.slots[n]? = some (.asking timeout canceled) ∧ (canceled || s.canceled) = true ∨
    s.slots[n]? = some (.failed .canceled)

variable {timeout : Nat} {canceled : Bool}

theorem Acted.slots_of_ne (acted : Acted s n s') (hne : n ≠ m) :
    s'.slots[m]? = s.slots[m]? ∧ s'.canceled = s.canceled := by
  cases acted with
  | refuse _ _ | take _ _ _ | wait _ _ _ _ | lapse _ _ _ _ | redeem _ _ _ =>
    exact ⟨List.getElem?_set_ne hne, rfl⟩
  | leave _ error =>
    have hwoken := roused_wakeIf
      (({ s with pool := (s.pool.leave n).1 } : Session).put n (.failed error)) (s.pool.leave n).2
    rw [hwoken.slots, hwoken.canceled]
    exact ⟨List.getElem?_set_ne hne, rfl⟩
  | keep _ _ _ _ | idle _ _ => exact ⟨rfl, rfl⟩

theorem Acted.refused (acted : Acted s n s') (h : s.Refused n timeout canceled) :
    s'.slots[n]? = some (.failed .canceled) := by
  rcases h with ⟨hslot, hcanceled⟩ | hslot
  · cases acted with
    | refuse _ _ =>
      exact List.getElem?_set_self (List.getElem?_eq_some_iff.mp hslot).1
    | take hslot' hlive _ | wait hslot' hlive _ _ | lapse hslot' hlive _ _ =>
      rw [hslot] at hslot'
      cases hslot'
      rw [hcanceled] at hlive
      cases hlive
    | redeem hslot' _ _ | leave hslot' _ | keep hslot' _ _ _ =>
      rw [hslot] at hslot'
      cases hslot'
    | idle hasking _ => exact absurd hslot (hasking _ _)
  · cases acted with
    | keep _ _ _ _ | idle _ _ => exact hslot
    | refuse hslot' _ | take hslot' _ _ | wait hslot' _ _ _ | lapse hslot' _ _ _
    | redeem hslot' _ _ | leave hslot' _ =>
      rw [hslot] at hslot'
      cases hslot'

theorem Refused.step (h : s.Refused n timeout canceled) (step : Step s s') :
    s'.Refused n timeout canceled := by
  have hsame : s'.slots[n]? = s.slots[n]? → (s.canceled = true → s'.canceled = true) →
      s'.Refused n timeout canceled := by
    intro hslots hcanceled
    rw [Refused, hslots]
    refine h.imp_left fun ⟨hslot, hrefused⟩ => ⟨hslot, ?_⟩
    rw [Bool.or_eq_true] at hrefused ⊢
    exact hrefused.imp_right hcanceled
  have hlt : n < s.slots.length := by
    rcases h with ⟨hslot, _⟩ | hslot <;> exact (List.getElem?_eq_some_iff.mp hslot).1
  cases step with
  | acquire timeout' canceled' =>
    have hasked := roused_wake
      { s with slots := s.slots ++ [Slot.asking timeout' canceled'] } s.slots.length
    refine hsame ?_ fun hcanceled => hasked.canceled.trans hcanceled
    rw [acquire, hasked.slots, List.getElem?_append_left hlt]
  | release m =>
    rcases release_eq s m with ⟨hheld, heq⟩ | ⟨-, heq⟩
    · have hgiven := roused_wakeIf
        (({ s with pool := s.pool.release.1 } : Session).put m .released) s.pool.release.2
      have hne : m ≠ n := by
        rintro rfl
        rcases h with ⟨hslot, _⟩ | hslot <;> rw [hheld] at hslot <;> cases hslot
      rw [heq] at hsame ⊢
      refine hsame ?_ fun hcanceled => hgiven.canceled.trans hcanceled
      rw [hgiven.slots]
      exact List.getElem?_set_ne hne
    · rw [heq]
      exact h
  | cancel =>
    refine hsame ?_ fun _ => (roused_cancel s).canceled
    rw [(roused_cancel s).slots]
  | @reach now _ =>
    refine hsame ?_ fun hcanceled => (roused_reach s now).canceled.trans hcanceled
    rw [(roused_reach s now).slots]
  | @turn m _ =>
    have hacted := acted { s with ready := s.ready.erase m } m
    rcases eq_or_ne m n with rfl | hne
    · exact Or.inr (hacted.refused h)
    · obtain ⟨hslots, hcanceled⟩ := hacted.slots_of_ne hne
      exact hsame hslots fun htrue => hcanceled.trans htrue

theorem Refused.reaches (h : start.Refused n timeout canceled) (steps : start.Reaches s) :
    s.Refused n timeout canceled := by
  induction steps with
  | refl => exact h
  | tail _ step ih => exact ih.step step

end Canceled

section Outcome

theorem Change.size_eq (change : Change s s') : s'.pool.size = s.pool.size := by
  cases change with
  | same hpool _ | ask _ _ hpool _ => rw [hpool]
  | exchange _ _ hsize _ => exact hsize

theorem size_of_reaches {size : Nat} (steps : (ofSize size).Reaches s) :
    s.pool.size = min size maxSize := by
  induction steps with
  | refl => rfl
  | tail _ step ih => exact step.change.size_eq.trans ih

/-- A request that finds a free token has it after its turn, however short its patience. -/
theorem turn_of_free {timeout : Nat} (hslot : s.slots[n]? = some (.asking timeout false))
    (hlive : s.canceled = false) (hfree : 0 < s.pool.available) :
    (s.turn n).slots[n]? = some .held ∧ (s.turn n).pool.available + 1 = s.pool.available := by
  have hacted : Acted { s with ready := s.ready.erase n } n (s.turn n) := acted _ _
  have hlt : n < s.slots.length := (List.getElem?_eq_some_iff.mp hslot).1
  generalize s.turn n = t at hacted ⊢
  cases hacted with
  | take _ _ htake =>
    exact ⟨List.getElem?_set_self hlt, (Semaphore.free_of_take? htake).1.symm⟩
  | wait _ _ hnone _ | lapse _ _ hnone _ => exact absurd hnone hfree.ne'
  | refuse hslot' h =>
    rw [hslot] at hslot'
    cases hslot'
    rw [hlive] at h
    cases h
  | redeem hslot' _ _ | leave hslot' _ | keep hslot' _ _ _ =>
    rw [hslot] at hslot'
    cases hslot'
  | idle hasking _ => exact absurd hslot (hasking _ _)

/-- At every moment each token is free, held, or kept for a different one of those who wait, and
letting everyone act brings the session to rest: then every token is free or held, and none is
free while someone waits. One who was in line before another began to wait is served before it.
A request that has failed has no token, one made when cancelled already is refused, and one that
finds a free token has it after its turn, even without patience. -/
theorem tokens_go_down_the_line {size : Nat} (before : (ofSize size).Reaches start)
    (since : start.Reaches s) :
    s.pool.size = min size maxSize ∧
    s.pool.available + s.pool.tokens.granted.length + s.held = s.pool.size ∧
    s.pool.tokens.granted.Nodup ∧
    (∀ n ∈ s.pool.tokens.granted, ∃ deadline, s.slots[n]? = some (.waiting deadline)) ∧
    (s.Reaches s.settled ∧ s.settled.AtRest) ∧
    (s.AtRest → s.pool.available + s.held = s.pool.size ∧
      ∀ n deadline : Nat, s.slots[n]? = some (.waiting deadline) → s.pool.available = 0) ∧
    (∀ first later : Nat, start.InLine first → ¬ start.InLine later → ¬ start.Served later →
      s.InLine first → ¬ s.Served later) ∧
    (∀ (n : Nat) (error : BusError), s.slots[n]? = some (.failed error) → ¬ s.InLine n ∧ ¬ s.Served n) ∧
    (∀ (n timeout : Nat) (canceled : Bool),
      start.slots[n]? = some (.asking timeout canceled) → (canceled || start.canceled) = true →
      (s.slots[n]? = some (.asking timeout canceled) ∨ s.slots[n]? = some (.failed .canceled)) ∧
        (s.AtRest → s.slots[n]? = some (.failed .canceled))) ∧
    ∀ n timeout : Nat, s.slots[n]? = some (.asking timeout false) → s.canceled = false →
      0 < s.pool.available →
      (s.turn n).slots[n]? = some .held ∧
        (s.turn n).pool.available + 1 = s.pool.available := by
  have early := sound_of_reaches before
  have sound := early.reaches since
  have hkept : ∀ n ∈ s.pool.tokens.granted, ∃ deadline, s.slots[n]? = some (.waiting deadline) :=
    fun n hn => sound.accounted.waiting_iff.mpr (Or.inr hn)
  refine ⟨size_of_reaches (before.trans since), sound.accounted.conserved,
    sound.accounted.granted_nodup, hkept, ⟨reaches_settled s, sound.settled_atRest⟩, fun rest => ?_,
    fun first later => early.not_served since, fun n error hslot => ?_,
    fun n timeout canceled hslot hcanceled => ?_, fun n timeout => turn_of_free⟩
  · constructor
    · have hall := sound.accounted.conserved
      rw [Semaphore.spare, sound.granted_eq_nil rest] at hall
      exact hall
    · intro n deadline hslot
      have hline : n ∈ s.pool.tokens.waiting := by
        have hclaims := sound.accounted.waiting_iff.mp ⟨deadline, hslot⟩
        rw [sound.granted_eq_nil rest] at hclaims
        exact hclaims.resolve_right List.not_mem_nil
      exact sound.accounted.orderly.resolve_left (List.ne_nil_of_mem hline)
  · have hnot : ∀ deadline : Nat, s.slots[n]? ≠ some (.waiting deadline) := by simp [hslot]
    refine ⟨fun hline => ?_, ?_⟩
    · obtain ⟨⟨deadline, hwaiting⟩, -⟩ := hline
      exact hnot deadline hwaiting
    · rintro (hheld | hreleased | hgranted)
      · simp [hslot] at hheld
      · simp [hslot] at hreleased
      · obtain ⟨deadline, hwaiting⟩ := hkept n hgranted
        exact hnot deadline hwaiting
  · have hrefused : s.Refused n timeout canceled :=
      Refused.reaches (Or.inl ⟨hslot, hcanceled⟩) since
    refine ⟨hrefused.imp_left And.left, fun rest => ?_⟩
    refine hrefused.resolve_left fun hasking => ?_
    exact sound.not_stirs rest (Or.inl ⟨timeout, canceled, hasking.1⟩)

/-- One request holds the token, one waits, and one has just been made. -/
def crowded : Session :=
  (((((ofSize 1).acquire 9 false).turn 0).acquire 9 false).turn 1).acquire 9 false

/-- The token comes back at the moment in which the pool is cancelled: it is kept for the first
in line, passes on to the second, and is free when both have given up. -/
def abandoned : Session := ((((crowded.turn 2).release 0).cancel).turn 1).turn 2

theorem crowded_reached : (ofSize 1).Reaches crowded := by
  have h : (ofSize 1).Reaches (ofSize 1) := .refl
  have h := h.tail (.acquire 9 false)
  have h := h.tail (@Step.turn _ 0 (by decide))
  have h := h.tail (.acquire 9 false)
  have h := h.tail (@Step.turn _ 1 (by decide))
  exact h.tail (.acquire 9 false)

theorem abandoned_reached : crowded.Reaches abandoned := by
  have h : crowded.Reaches crowded := .refl
  have h := h.tail (@Step.turn _ 2 (by decide))
  have h := h.tail (.release 0)
  have h := h.tail .cancel
  have h := h.tail (@Step.turn _ 1 (by decide))
  exact h.tail (@Step.turn _ 2 (by decide))

theorem abandoned_token_is_free :
    (ofSize 1).Reaches crowded ∧ crowded.Reaches abandoned ∧ crowded.InLine 1 ∧
      abandoned.slots[1]? = some (.failed .canceled) ∧
      abandoned.slots[2]? = some (.failed .canceled) ∧ abandoned.pool.available = 1 := by
  obtain ⟨-, -, -, -, -, hrest, -⟩ := tokens_go_down_the_line crowded_reached abandoned_reached
  have hall := (hrest rfl).1
  exact ⟨crowded_reached, abandoned_reached, ⟨⟨9, rfl⟩, nofun⟩, rfl, rfl, hall⟩

end Outcome

end EventBus.Pool.Session
