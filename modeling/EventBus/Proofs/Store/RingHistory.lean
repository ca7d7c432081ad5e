import EventBus.Store.Ring
import Mathlib.Data.Nat.ModEq
import Mathlib.Tactic.Common

/-!
A ring against the unbounded history of what was written to it. The event at a position of
the history lives in the slot of that position modulo the capacity, until a whole turn of
later events has passed. Every call keeps this, so after any run the ring still holds the
end of the history, and a refused call changes nothing.
-/

namespace EventBus.Ring

/-- What a ring knows of a history: its counters, and the slot of each position within one
turn of the end. -/
structure Reflects (ring : Ring) (history : List Event) (shut : Bool) : Prop where
  size_eq : ring.slots.size = ring.capacity
  next_eq : 0 < ring.capacity → ring.next = history.length % ring.capacity
  len_eq : ring.len = min ring.capacity history.length
  slot_eq : ∀ i, i < history.length → history.length ≤ i + ring.capacity →
    ring.slots[i % ring.capacity]? = some history[i]?
  closed_eq : ring.closed = shut

theorem ofCapacity_reflects (capacity : Nat) : Reflects (ofCapacity capacity) [] false where
  size_eq := by simp [ofCapacity]
  next_eq := by simp [ofCapacity]
  len_eq := by simp [ofCapacity]
  slot_eq := by simp
  closed_eq := rfl

/-- Positions less than a turn apart have different slots. -/
private theorem slot_ne_of_lt {i n : Nat} (capacity : Nat) (hlt : i < n)
    (hturn : n < i + capacity) :
    i % capacity ≠ n % capacity := by
  intro heq
  have hdvd : capacity ∣ n - i := (Nat.modEq_iff_dvd' hlt.le).mp heq
  have hle : capacity ≤ n - i := Nat.le_of_dvd (by omega) hdvd
  omega

/-- Writing one event appends it to the history. The new position takes the slot of the one
a whole turn back, which the invariant no longer speaks of. -/
theorem Reflects.push {ring : Ring} {history : List Event} {shut : Bool}
    (h : Reflects ring history shut) (hpos : 0 < ring.capacity) (event : Event) :
    Reflects (ring.push event) (history ++ [event]) shut where
  size_eq := by simpa [Ring.push] using h.size_eq
  next_eq := by
    intro _
    simp only [Ring.push, List.length_append, List.length_singleton, h.next_eq hpos]
    exact Nat.mod_add_mod history.length ring.capacity 1
  len_eq := by
    simp only [Ring.push, List.length_append, List.length_singleton, h.len_eq]
    omega
  slot_eq := by
    intro i hi hturn
    simp only [List.length_append, List.length_singleton] at hi hturn
    simp only [Ring.push] at hturn ⊢
    rw [h.next_eq hpos]
    rcases Nat.lt_succ_iff_lt_or_eq.mp hi with hold | rfl
    · have hslot := slot_ne_of_lt ring.capacity hold (by omega)
      rw [Array.getElem?_setIfInBounds_ne hslot.symm, h.slot_eq i hold (by omega),
        List.getElem?_append_left hold]
    · have hbound : history.length % ring.capacity < ring.slots.size := by
        rw [h.size_eq]
        exact Nat.mod_lt _ hpos
      rw [Array.getElem?_setIfInBounds_self_of_lt hbound]
      simp
  closed_eq := h.closed_eq

@[simp] theorem push_capacity (ring : Ring) (event : Event) :
    (ring.push event).capacity = ring.capacity := rfl

theorem Reflects.foldl_push {ring : Ring} {history : List Event} {shut : Bool}
    (h : Reflects ring history shut) (hpos : 0 < ring.capacity) (batch : List Event) :
    Reflects (batch.foldl Ring.push ring) (history ++ batch) shut := by
  induction batch generalizing ring history with
  | nil => simpa using h
  | cons event events ih =>
      have hnext := ih (h.push hpos event) (by simpa using hpos)
      simpa using hnext

/-- Writing a batch appends it to the history, also where no slot can keep any of it. -/
theorem Reflects.pushAll {ring : Ring} {history : List Event} {shut : Bool}
    (h : Reflects ring history shut) (batch : List Event) :
    Reflects (ring.pushAll batch) (history ++ batch) shut := by
  unfold Ring.pushAll
  split
  next hzero =>
    exact ⟨h.size_eq, by omega, by simp [h.len_eq, hzero], by omega, h.closed_eq⟩
  next hpos => exact h.foldl_push (Nat.pos_of_ne_zero hpos) batch

/-- The slot so many writes back belongs to the position so far from the end. -/
theorem Reflects.slotBack_eq {ring : Ring} {history : List Event} {shut : Bool}
    (h : Reflects ring history shut) {back : Nat} (hback : back ≤ ring.len) (hpos : 0 < back) :
    ring.slotBack back = (history.length - back) % ring.capacity := by
  rw [h.len_eq] at hback
  have hcapacity : 0 < ring.capacity := by omega
  have hsplit : history.length + ring.capacity - back =
      (history.length - back) + ring.capacity := by omega
  have hturns := Nat.mod_add_div history.length ring.capacity
  rw [slotBack, h.next_eq hcapacity, ← Nat.add_mod_right (history.length - back), ← hsplit]
  generalize history.length / ring.capacity = turns at hturns
  have hsum : history.length + ring.capacity - back =
      (history.length % ring.capacity + ring.capacity - back) + ring.capacity * turns := by
    omega
  rw [hsum, Nat.add_mul_mod_self_left]

/-- Counting from one and looking up one position less collects the front of a list. -/
private theorem filterMap_range'_eq_take {l : List Event} {f : Nat → Option Event} {n : Nat}
    (hn : n ≤ l.length) (hf : ∀ i, i < n → f (i + 1) = l[i]?) :
    (List.range' 1 n).filterMap f = l.take n := by
  induction n with
  | zero => rfl
  | succ n ih =>
      have hfront := ih (by omega) (fun i hi => hf i (by omega))
      have hlast : f (1 + n) = some l[n] := by
        rw [Nat.add_comm, hf n (by omega), List.getElem?_eq_getElem]
      rw [List.range'_1_concat, List.filterMap_append, hfront, List.take_add_one,
        List.getElem?_eq_getElem (by omega)]
      simp [hlast]

/-- Reading back gives the end of the history, newest first. -/
theorem Reflects.recent_eq {ring : Ring} {history : List Event} {shut : Bool}
    (h : Reflects ring history shut) (n : Nat) :
    ring.recent n = history.reverse.take (min n ring.len) := by
  have hlen := h.len_eq
  unfold recent
  apply filterMap_range'_eq_take
  · simp only [List.length_reverse]
    omega
  · intro i hi
    have hslot : ring.slots[ring.slotBack (i + 1)]? = some history[history.length - (i + 1)]? := by
      rw [h.slotBack_eq (by omega) (by omega)]
      exact h.slot_eq _ (by omega) (by omega)
    rw [hslot, Option.join_some, List.getElem?_reverse (by omega)]
    congr 1
    omega

/-- A call on a ring. Its caller may have been cancelled before; `recent` does not ask. -/
inductive Call where
  | reopen (canceled : Bool)
  | close (canceled : Bool)
  | write (canceled : Bool) (batch : List Event)
  | read (canceled : Bool) (query : Query)
  | recent (n : Nat)

inductive Outcome where
  | done
  | stream (stream : Stream)
  | events (events : List Event)

def Call.perform (ring : Ring) : Call → Except StoreError Outcome × Ring
  | .reopen canceled =>
      let answer := Ring.reopen canceled ring
      (answer.result.map fun _ => .done, answer.store)
  | .close canceled =>
      let answer := Ring.close canceled ring
      (answer.result.map fun _ => .done, answer.store)
  | .write canceled batch =>
      let answer := Ring.write canceled batch ring
      (answer.result.map fun _ => .done, answer.store)
  | .read canceled query =>
      let answer := Ring.read canceled query ring
      (answer.result.map .stream, answer.store)
  | .recent n => (.ok (.events (ring.recent n)), ring)

def Call.refusal? (ring : Ring) (call : Call) : Option StoreError :=
  match (call.perform ring).1 with
  | .error error => some error
  | .ok _ => none

def run (ring : Ring) (calls : List Call) : Ring :=
  calls.foldl (fun ring call => (call.perform ring).2) ring

/-- The calls, each with its answer. -/
def log (ring : Ring) : List Call → List (Call × Except StoreError Outcome)
  | [] => []
  | call :: calls => (call, (call.perform ring).1) :: log (call.perform ring).2 calls

def added : Call × Except StoreError Outcome → List Event
  | (.write _ batch, .ok _) => batch
  | _ => []

/-- The batches whose write succeeded, one after the other. -/
def written (log : List (Call × Except StoreError Outcome)) : List Event := log.flatMap added

/-- A successful `reopen` or `close`, and whether it was the latter. -/
def turned? : Call × Except StoreError Outcome → Option Bool
  | (.reopen _, .ok _) => some false
  | (.close _, .ok _) => some true
  | _ => none

/-- The last successful `reopen` or `close` was a `close`. -/
def shutBy (log : List (Call × Except StoreError Outcome)) : Bool :=
  (log.filterMap turned?).getLast?.getD false

/-- One call keeps what a ring knows, with the history and the state of use it leads to. -/
theorem Reflects.perform {ring : Ring} {history : List Event} {shut : Bool}
    (h : Reflects ring history shut) (call : Call) :
    Reflects (call.perform ring).2 (history ++ added (call, (call.perform ring).1))
      ((turned? (call, (call.perform ring).1)).getD shut) := by
  cases call with
  | reopen canceled =>
      cases canceled with
      | false =>
          simpa [Call.perform, Ring.reopen, Except.map, added, turned?] using
            { h with closed_eq := rfl : Reflects { ring with closed := false } history false }
      | true => simpa [Call.perform, Ring.reopen, Except.map, added, turned?] using h
  | close canceled =>
      simpa [Call.perform, Ring.close, Except.map, added, turned?] using
        { h with closed_eq := rfl : Reflects { ring with closed := true } history true }
  | write canceled batch =>
      have hbatch := h.pushAll batch
      cases canceled <;> cases hclosed : ring.closed <;>
        simpa [Call.perform, Ring.write, hclosed, Except.map, added, turned?]
  | read canceled query =>
      cases canceled <;> cases hclosed : ring.closed <;>
        simpa [Call.perform, Ring.read, hclosed, Except.map, added, turned?]
  | recent n => simpa [Call.perform, added, turned?] using h

theorem pushAll_capacity (ring : Ring) (batch : List Event) :
    (ring.pushAll batch).capacity = ring.capacity := by
  unfold Ring.pushAll
  split
  · rfl
  · induction batch generalizing ring with
    | nil => rfl
    | cons event events ih => simpa using ih (ring.push event) (by simpa)

theorem Call.perform_capacity (ring : Ring) (call : Call) :
    (call.perform ring).2.capacity = ring.capacity := by
  cases call with
  | reopen canceled => cases canceled <;> rfl
  | close canceled => rfl
  | write canceled batch =>
      simp only [Call.perform, Ring.write]
      split
      · rfl
      · split
        · rfl
        · exact pushAll_capacity ring batch
  | read canceled query =>
      simp only [Call.perform, Ring.read]
      split
      · rfl
      · split <;> rfl
  | recent n => rfl

/-- What a ring knows is kept along a run, whose log only grows at its end. -/
theorem Reflects.run {ring : Ring} {before : List (Call × Except StoreError Outcome)}
    (h : Reflects ring (written before) (shutBy before)) (calls : List Call) :
    Reflects (Ring.run ring calls) (written (before ++ log ring calls))
      (shutBy (before ++ log ring calls)) := by
  induction calls generalizing ring before with
  | nil => simpa [Ring.run, log] using h
  | cons call calls ih =>
      have hstep := h.perform call
      have hwritten : written before ++ added (call, (call.perform ring).1) =
          written (before ++ [(call, (call.perform ring).1)]) := by
        simp [written]
      have hshut : (turned? (call, (call.perform ring).1)).getD (shutBy before) =
          shutBy (before ++ [(call, (call.perform ring).1)]) := by
        unfold shutBy
        cases hturned : turned? (call, (call.perform ring).1) <;> simp [hturned]
      rw [hwritten, hshut] at hstep
      simpa [Ring.run, log] using ih hstep

theorem run_capacity (ring : Ring) (calls : List Call) :
    (run ring calls).capacity = ring.capacity := by
  induction calls generalizing ring with
  | nil => rfl
  | cons call calls ih =>
      simpa [run, call.perform_capacity ring] using ih (call.perform ring).2

theorem refusal_write (ring : Ring) (canceled : Bool) (batch : List Event) :
    (Call.write canceled batch).refusal? ring =
      if canceled then some .canceled else if ring.closed then some .closed else none := by
  cases canceled <;> cases hclosed : ring.closed <;>
    simp [Call.refusal?, Call.perform, Ring.write, Except.map, hclosed]

theorem refusal_read (ring : Ring) (canceled : Bool) (query : Query) :
    (Call.read canceled query).refusal? ring =
      if canceled then some .canceled else if ring.closed then some .closed else none := by
  cases canceled <;> cases hclosed : ring.closed <;>
    simp [Call.refusal?, Call.perform, Ring.read, Except.map, hclosed]

theorem Call.perform_of_refused (ring : Ring) (call : Call) (error : StoreError)
    (h : call.refusal? ring = some error) : (call.perform ring).2 = ring := by
  cases call with
  | reopen canceled =>
      cases canceled with
      | false => simp [Call.refusal?, Call.perform, Ring.reopen, Except.map] at h
      | true => rfl
  | close canceled => simp [Call.refusal?, Call.perform, Ring.close, Except.map] at h
  | write canceled batch =>
      rw [refusal_write] at h
      cases canceled <;> cases hclosed : ring.closed <;>
        simp_all [Call.perform, Ring.write]
  | read canceled query =>
      simp only [Call.perform, Ring.read]
      split
      · rfl
      · split <;> rfl
  | recent n => rfl

/-- A ring is the end of the history of its successful writes. After any calls, cancelled or
not, on a ring of any capacity, reading back gives the last events of that history, newest
first. Writing and reading are refused exactly to a cancelled caller and out of use, and a
refused call leaves everything as it was. -/
theorem run_holds_end_of_history (capacity : Nat) (calls : List Call) :
    let ring := run (ofCapacity capacity) calls
    let history := written (log (ofCapacity capacity) calls)
    let shut := shutBy (log (ofCapacity capacity) calls)
    (∀ n, ring.recent n = history.reverse.take (min n (min capacity history.length))) ∧
    ring.len = min capacity history.length ∧
    ring.closed = shut ∧
    (∀ canceled batch, (Call.write canceled batch).refusal? ring =
      if canceled then some .canceled else if shut then some .closed else none) ∧
    (∀ canceled query, (Call.read canceled query).refusal? ring =
      if canceled then some .canceled else if shut then some .closed else none) ∧
    ∀ call error, Call.refusal? ring call = some error → (call.perform ring).2 = ring := by
  intro ring history shut
  have hreflects : Reflects ring history shut := by
    have hempty : Reflects (ofCapacity capacity) (written []) (shutBy []) :=
      ofCapacity_reflects capacity
    exact hempty.run calls
  have hcapacity : ring.capacity = capacity := run_capacity (ofCapacity capacity) calls
  have hlen : ring.len = min capacity history.length := by
    rw [hreflects.len_eq, hcapacity]
  refine ⟨?_, hlen, hreflects.closed_eq, ?_, ?_, ?_⟩
  · intro n
    rw [hreflects.recent_eq n, hlen]
  · intro canceled batch
    rw [refusal_write, hreflects.closed_eq]
  · intro canceled query
    rw [refusal_read, hreflects.closed_eq]
  · intro call error hrefused
    exact call.perform_of_refused ring error hrefused

/-- Two slots after three writes, with the ring out of use. -/
theorem wrapped_ring_refuses_write :
    let numbered (n : Int) : Event := ⟨none, .number (.int n), none⟩
    let ring := run (ofCapacity 2)
      [.write false [numbered 1, numbered 2, numbered 3], .close true]
    ring.recent 5 = [numbered 3, numbered 2] ∧
    Call.refusal? ring (.write false [numbered 4]) = some .closed ∧
    ((Call.write false [numbered 4]).perform ring).2 = ring := by
  intro numbered ring
  obtain ⟨hrecent, -, -, -, -, hkept⟩ := run_holds_end_of_history 2
    [.write false [numbered 1, numbered 2, numbered 3], .close true]
  have hrefused : Call.refusal? ring (.write false [numbered 4]) = some .closed := rfl
  exact ⟨hrecent 5, hrefused, hkept _ _ hrefused⟩

end EventBus.Ring
