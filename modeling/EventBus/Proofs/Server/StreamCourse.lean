import EventBus.Proofs.Server.RecordReading
import EventBus.Server.Service
import EventBus.Store.Recorder
import Mathlib.Data.List.Basic

/-!
A stream from its opening on. Whatever else happens to the server, a stream that is asked for its
next frame sends what it holds, or asks its subscription for a batch and sends the first event of
that, until it has sent as many events as it may. So what it has sent and what it holds and may
still send are always the first events of all the batches it was given, and its text reads back as
one record for each event it has sent.
-/

namespace EventBus.Server

variable {σ : Type}

/-- The characters that a frame adds to the text of its stream. -/
def Frame.chars : Frame → List Char
  | .record text => text.toList
  | _ => []

/-- The text of a stream after some frames. -/
def streamed (frames : List Frame) : List Char := frames.flatMap Frame.chars

/-- The events of an answer of a subscription. -/
def given : Bus.Received → List Event
  | .batch events => events
  | .pending => []
  | .ended => []

/-- The answer of its subscription, if a stream needs one for its next frame. -/
def answers (server : Server σ) (stream : EventStream) : List Bus.Received :=
  match stream.left, stream.rest with
  | 0, _ => []
  | _ + 1, _ :: _ => []
  | _ + 1, [] => [(server.bus.receive stream.consumer).1]

/-- What has happened to a stream since some start: the answers its subscription gave and the
frames it has sent. Between two frames the server may change in any way that leaves the stream as
it is. -/
inductive Course (number : Nat) (start : Server σ) :
    List Bus.Received → List Frame → Server σ → Prop where
  | start : Course number start [] [] start
  | around {received : List Bus.Received} {frames : List Frame} {server other : Server σ}
      (h : Course number start received frames server)
      (hkept : other.stream? number = server.stream? number) :
      Course number start received frames other
  | pull {received : List Bus.Received} {frames : List Frame} {server : Server σ}
      {stream : EventStream} (h : Course number start received frames server)
      (hstream : server.stream? number = some stream) :
      Course number start (received ++ server.answers stream)
        (frames ++ [(server.nextFrame number stream).1]) (server.nextFrame number stream).2

/-- What a frame is and what it leaves of a stream, by what the stream holds and is given. -/
inductive Pulled (stream : EventStream) (received : List Bus.Received) :
    Frame → EventStream → Prop where
  | spent (hleft : stream.left = 0) (hreceived : received = []) :
      Pulled stream received .ended stream
  | sent {event : Event} {next : EventStream} (hopen : stream.left ≠ 0)
      (hheld : stream.rest ++ received.flatMap given = event :: next.rest)
      (hleft : next.left = stream.left - 1) :
      Pulled stream received (.record (Record.text event)) next
  | idle {frame : Frame} {next : EventStream} (hopen : stream.left ≠ 0)
      (hheld : stream.rest ++ received.flatMap given = [])
      (hframe : frame = .pending ∨ frame = .record Record.keepAlive)
      (hleft : next.left = stream.left) (hrest : next.rest = []) :
      Pulled stream received frame next
  | ended {next : EventStream} (hopen : stream.left ≠ 0)
      (hheld : stream.rest ++ received.flatMap given = []) (hended : .ended ∈ received)
      (hleft : next.left = 0) (hrest : next.rest = []) : Pulled stream received .ended next

section Pulls

variable {server : Server σ} {number limit : Nat} {stream : EventStream}

theorem stream?_setStream (hstream : server.stream? number = some stream)
    (next : Option EventStream) : (server.setStream number next).stream? number = next := by
  have hlength : number < server.streams.length := by
    by_contra hge
    rw [stream?, List.getElem?_eq_none (Nat.not_lt.mp hge)] at hstream
    cases hstream
  rw [stream?, setStream, List.getElem?_set_self hlength]
  rfl

theorem pulled_send (hstream : server.stream? number = some stream) (hopen : stream.left ≠ 0)
    {event : Event} {rest : List Event} {received : List Bus.Received}
    (hheld : stream.rest ++ received.flatMap given = event :: rest) :
    ∃ next, (server.send number stream event rest).2.stream? number = some next ∧
      Pulled stream received (server.send number stream event rest).1 next :=
  ⟨_, stream?_setStream hstream _, .sent hopen hheld rfl⟩

theorem pulled_idle (hstream : server.stream? number = some stream) (hopen : stream.left ≠ 0)
    (hrest : stream.rest = []) {received : List Bus.Received}
    (hreceived : received.flatMap given = []) :
    ∃ next, (server.idle number stream).2.stream? number = some next ∧
      Pulled stream received (server.idle number stream).1 next := by
  have hheld : stream.rest ++ received.flatMap given = [] := by
    rw [hrest, hreceived, List.append_nil]
  unfold idle
  split
  · exact ⟨_, stream?_setStream hstream _, .idle hopen hheld (Or.inr rfl) rfl hrest⟩
  · exact ⟨stream, hstream, .idle hopen hheld (Or.inl rfl) rfl hrest⟩

/-- All that asking a stream for a frame can do. -/
theorem pulled_nextFrame (hstream : server.stream? number = some stream) :
    ∃ next, (server.nextFrame number stream).2.stream? number = some next ∧
      Pulled stream (server.answers stream) (server.nextFrame number stream).1 next := by
  unfold nextFrame
  split
  next hspent =>
    have hanswers : server.answers stream = [] := by simp only [answers, hspent]
    exact ⟨stream, hstream, .spent hspent hanswers⟩
  next hopen =>
    obtain ⟨less, hless⟩ := Nat.exists_eq_succ_of_ne_zero hopen
    cases hrest : stream.rest with
    | cons event rest =>
        have hanswers : server.answers stream = [] := by simp only [answers, hless, hrest]
        refine pulled_send hstream hopen ?_
        rw [hanswers, hrest, List.flatMap_nil, List.append_nil]
    | nil =>
        cases hreceived : server.bus.receive stream.consumer with
        | mk received bus =>
            have hkept : ({ server with bus } : Server σ).stream? number = some stream := hstream
            have hanswers : server.answers stream = [received] := by
              simp only [answers, hless, hrest, hreceived]
            rw [hanswers]
            cases received with
            | batch batch =>
                cases batch with
                | nil => exact pulled_idle hkept hopen hrest rfl
                | cons event rest =>
                    refine pulled_send hkept hopen ?_
                    rw [hrest, List.nil_append, List.flatMap_singleton, given]
            | pending => exact pulled_idle hkept hopen hrest rfl
            | ended =>
                have hheld : stream.rest ++ [Bus.Received.ended].flatMap given = [] := by
                  rw [hrest]
                  rfl
                refine ⟨{ stream with left := 0, rest := [] },
                  @stream?_setStream σ _ number stream ?_ _,
                  .ended hopen hheld List.mem_cons_self rfl rfl⟩
                exact hstream

/-- What a stream has sent, was given and still holds. -/
structure Account (limit : Nat) (received : List Bus.Received) (frames : List Frame)
    (sent : List Event) (stream : EventStream) : Prop where
  /-- The text so far reads as the records of the events sent, whatever comes after. -/
  read : ∀ more, Record.read (streamed frames ++ more) =
    sent.map Record.fields ++ Record.read more
  held : sent ++ stream.rest.take stream.left = (received.flatMap given).take limit
  isOpen : stream.left ≠ 0 →
    sent ++ stream.rest = received.flatMap given ∧ sent.length + stream.left = limit
  /-- Only the limit or the end of its subscription keeps a stream from sending more. -/
  closed : stream.left = 0 → sent.length = limit ∨ .ended ∈ received
  ended : frames.getLast? = some .ended → stream.left = 0
  pending : frames.getLast? = some .pending → stream.rest = []

theorem streamed_append (frames : List Frame) (frame : Frame) (more : List Char) :
    streamed (frames ++ [frame]) ++ more = streamed frames ++ (frame.chars ++ more) := by
  simp [streamed]

variable {received : List Bus.Received} {frames : List Frame} {sent : List Event}

theorem account_start (hleft : stream.left = limit) (hrest : stream.rest = []) :
    Account limit [] [] [] stream where
  read more := rfl
  held := by simp [hrest]
  isOpen _ := by simp [hrest, hleft]
  closed hclosed := Or.inl (hclosed.symm.trans hleft)
  ended h := by cases h
  pending h := by cases h

/-- A frame without an event changes nothing in what has been sent. -/
theorem Account.read_quiet (h : Account limit received frames sent stream) {frame : Frame}
    (hquiet : ∀ more, Record.read (frame.chars ++ more) = Record.read more) (more : List Char) :
    Record.read (streamed (frames ++ [frame]) ++ more) =
      sent.map Record.fields ++ Record.read more := by
  rw [streamed_append, h.read, hquiet]

/-- What has been sent together with what a stream then holds is all that it was given. -/
theorem Account.sent_held (h : Account limit received frames sent stream)
    (hopen : stream.left ≠ 0) {more : List Bus.Received} {held : List Event}
    (hheld : stream.rest ++ more.flatMap given = held) :
    sent ++ held = (received ++ more).flatMap given := by
  rw [List.flatMap_append, ← (h.isOpen hopen).1, List.append_assoc, hheld]

/-- As long as a stream may send more, what it has sent is within the limit. -/
theorem Account.take_sent (h : Account limit received frames sent stream)
    (hopen : stream.left ≠ 0) : sent.take limit = sent :=
  List.take_of_length_le (by rw [← (h.isOpen hopen).2]; exact Nat.le_add_right _ _)

/-- Each frame keeps the account of its stream. -/
theorem Account.pull (h : Account limit received frames sent stream) {more : List Bus.Received}
    {frame : Frame} {next : EventStream} (hpulled : Pulled stream more frame next) :
    ∃ sent, Account limit (received ++ more) (frames ++ [frame]) sent next := by
  cases hpulled with
  | spent hleft hreceived =>
      rw [hreceived, List.append_nil]
      exact ⟨sent, {
        read := h.read_quiet fun _ => rfl
        held := h.held
        isOpen := h.isOpen
        closed := h.closed
        ended := fun _ => hleft
        pending := by simp }⟩
  | @sent event _ hopen hheld hleft =>
      have hall := h.sent_held hopen hheld
      rw [List.append_cons] at hall
      have hlength : (sent ++ [event]).length + next.left = limit := by
        rw [List.length_append, List.length_singleton, hleft, ← (h.isOpen hopen).2]
        omega
      refine ⟨sent ++ [event], {
        read := fun text => ?_
        held := ?_
        isOpen := fun _ => ⟨hall, hlength⟩
        closed := fun hclosed => Or.inl (by rw [← hlength, hclosed, Nat.add_zero])
        ended := by simp
        pending := by simp }⟩
      · rw [streamed_append, h.read, Frame.chars, Record.read_text_append]
        simp
      · rw [← hall, ← hlength, List.take_length_add_append]
  | idle hopen hheld hframe hleft hrest =>
      have hall := h.sent_held hopen hheld
      refine ⟨sent, {
        read := h.read_quiet ?_
        held := ?_
        isOpen := fun _ => ⟨hrest ▸ hall, hleft ▸ (h.isOpen hopen).2⟩
        closed := fun hclosed => absurd (hleft.symm.trans hclosed) hopen
        ended := ?_
        pending := fun _ => hrest }⟩
      · rcases hframe with rfl | rfl
        · exact fun _ => rfl
        · exact Record.read_keepAlive_append
      · rw [← hall, hrest, List.take_nil, List.append_nil, h.take_sent hopen]
      · rcases hframe with rfl | rfl <;> simp
  | ended hopen hheld hended hleft hrest =>
      have hall := h.sent_held hopen hheld
      refine ⟨sent, {
        read := h.read_quiet fun _ => rfl
        held := ?_
        isOpen := fun hmore => absurd hleft hmore
        closed := fun _ => Or.inr (List.mem_append_right _ hended)
        ended := fun _ => hleft
        pending := fun _ => hrest }⟩
      rw [← hall, hrest, List.take_nil, List.append_nil, h.take_sent hopen]

theorem account_of_course {start : Server σ} (hstart : start.stream? number = some stream)
    (hleft : stream.left = limit) (hrest : stream.rest = [])
    (h : Course number start received frames server) :
    ∃ sent stream, server.stream? number = some stream ∧
      Account limit received frames sent stream := by
  induction h with
  | start => exact ⟨[], stream, hstart, account_start hleft hrest⟩
  | around _ hkept ih =>
      obtain ⟨sent, stream, hstream, haccount⟩ := ih
      exact ⟨sent, stream, hkept.trans hstream, haccount⟩
  | @pull _ _ _ stream _ hstream ih =>
      obtain ⟨sent, held, hheld, haccount⟩ := ih
      obtain rfl : held = stream := Option.some.inj (hheld.symm.trans hstream)
      obtain ⟨next, hnext, hpulled⟩ := pulled_nextFrame hstream
      obtain ⟨more, hmore⟩ := haccount.pull hpulled
      exact ⟨more, next, hnext, hmore⟩

theorem stream?_addStream (server : Server σ) (consumer : Bus.ConsumerId) :
    (server.addStream consumer).stream? server.streams.length =
      some ⟨consumer, server.sessionLimit, [], server.bus.now + keepAliveAfter⟩ := by
  rw [stream?, addStream, List.getElem?_concat_length]
  rfl

/-- A stream that is opened may send as many events as the server says, and holds none. -/
theorem stream?_openStream {server : Server σ} {query : Query}
    (hopened : (server.openStream false query).1 = some (.stream number)) :
    ∃ stream, (server.openStream false query).2.stream? number = some stream ∧
      stream.left = server.sessionLimit ∧ stream.rest = [] := by
  cases hsent : (server.remark (requestedLine query)).bus.subscribe
      (server.remark (requestedLine query)).bus.canceled query feedPlaces with
  | mk answer opened =>
      simp only [openStream, hsent] at hopened ⊢
      cases answer with
      | ok =>
          obtain rfl : server.streams.length = number := by
            simpa [Response.stream, remark] using hopened
          exact ⟨_, stream?_addStream _ _, rfl, rfl⟩
      | full => cases hopened
      | failed error => simp [Response.stream, Response.ofError, Response.ofText] at hopened

/-- Reading from a stream is a course of it, with the bus at work between two frames. -/
theorem Course.read [Store σ] {start : Server σ} (h : Course number start received frames server)
    (most : Nat) :
    ∃ more added, Course number start (received ++ more) (frames ++ added)
        (server.read number most).2.2 ∧
      (server.read number most).1.toList = streamed added := by
  induction most generalizing received frames server with
  | zero =>
      refine ⟨[], [], ?_, rfl⟩
      rw [List.append_nil, List.append_nil]
      exact h
  | succ most ih =>
      cases hstream : server.stream? number with
      | none =>
          simp only [Server.read, hstream]
          refine ⟨[], [], ?_, rfl⟩
          rw [List.append_nil, List.append_nil]
          exact h
      | some stream =>
          have hpull := h.pull hstream
          cases hframe : server.nextFrame number stream with
          | mk frame next =>
              rw [hframe] at hpull
              simp only [Server.read, hstream, hframe]
              cases frame with
              | record text =>
                  have hsettled := hpull.around (show
                    ({ next with bus := next.bus.settle } : Server σ).stream? number =
                      next.stream? number from rfl)
                  obtain ⟨more, added, hcourse, htext⟩ := ih hsettled
                  rw [List.append_assoc, List.append_assoc] at hcourse
                  refine ⟨_, _, hcourse, ?_⟩
                  rw [String.toList_append, htext]
                  rfl
              | pending => exact ⟨_, _, hpull, rfl⟩
              | ended => exact ⟨_, _, hpull, rfl⟩

/-- The text of an opened stream reads as one record for each event it has sent, with the fields
of that event and nothing else. These are the first events of the batches its subscription gave, as
many as the session limit lets through: none is held back when the stream waits or is over, and it
is over only at the limit or when its subscription is. -/
theorem opened_stream_reads_back {server after : Server σ} {query : Query}
    (hopened : (server.openStream false query).1 = some (.stream number))
    (h : Course number (server.openStream false query).2 received frames after) :
    ∃ sent held, sent ++ held = (received.flatMap given).take server.sessionLimit ∧
      Record.read (streamed frames) = sent.map Record.fields ∧
      (frames.getLast? = some .pending ∨ frames.getLast? = some .ended → held = []) ∧
      (frames.getLast? = some .ended →
        sent.length = server.sessionLimit ∨ .ended ∈ received) := by
  obtain ⟨stream, hstream, hleft, hrest⟩ := stream?_openStream hopened
  obtain ⟨sent, now, -, haccount⟩ := account_of_course hstream hleft hrest h
  refine ⟨sent, now.rest.take now.left, haccount.held, ?_, ?_, ?_⟩
  · have hread := haccount.read []
    rwa [List.append_nil, Record.read_nil, List.append_nil] at hread
  · rintro (hpending | hended)
    · rw [haccount.pending hpending, List.take_nil]
    · rw [haccount.ended hended, List.take_zero]
  · exact fun hended => haccount.closed (haccount.ended hended)

end Pulls

/-- Events whose texts try to break their lines. -/
def breakingBatch : List Event :=
  [⟨some " :a", .string "\n\ndata: x\r", some "1\nid: 2"⟩, ⟨some "b\r", .null, some ""⟩]

def liveQuery : Query := ⟨false, 10, .pass⟩

/-- A server with a bus of its own whose streams send up to three events. -/
def loneServer : Server Recorder := create (Bus.create ⟨2, 10, 5, 5⟩ none).start 3

/-- The server once a stream was opened and two batches have come to it. -/
def fedServer : Server Recorder :=
  let opened := (loneServer.openStream false liveQuery).2
  let publish (bus : Bus Recorder) := (bus.publish false breakingBatch).2.settle
  { opened with bus := publish (publish opened.bus.settle) }

/-- The limit cuts the second batch in two. -/
theorem breaking_batches_read_back :
    (loneServer.openStream false liveQuery).1 = some (.stream 0) ∧
      ∃ received frames after,
        Course 0 (loneServer.openStream false liveQuery).2 received frames after ∧
          received.flatMap given = breakingBatch ++ breakingBatch ∧
          frames.getLast? = some .ended ∧
          Record.read (streamed frames) =
            ((breakingBatch ++ breakingBatch).take 3).map Record.fields := by
  have hopened : (loneServer.openStream false liveQuery).1 = some (.stream 0) := by
    decide +kernel
  have h : Course 0 (loneServer.openStream false liveQuery).2 [] [] fedServer := .around .start rfl
  have h := @Course.pull _ _ _ _ _ _ ⟨1, 3, [], 15000⟩ h rfl
  have h := @Course.pull _ _ _ _ _ _ ⟨1, 2, breakingBatch.drop 1, 15000⟩ h rfl
  have h := @Course.pull _ _ _ _ _ _ ⟨1, 1, [], 15000⟩ h rfl
  have h := @Course.pull _ _ _ _ _ _ ⟨1, 0, breakingBatch.drop 1, 15000⟩ h rfl
  obtain ⟨sent, held, hall, hread, hheld, -⟩ := opened_stream_reads_back hopened h
  refine ⟨hopened, _, _, _, h, rfl, rfl, ?_⟩
  obtain rfl : held = [] := hheld (Or.inr rfl)
  rw [List.append_nil] at hall
  rw [hread, hall]
  rfl

end EventBus.Server
