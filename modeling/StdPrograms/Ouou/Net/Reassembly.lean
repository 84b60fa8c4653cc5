import StdPrograms.Ouou.Net.Frame

/-!
Contract: what the event loop makes of a stream of frames that arrives in
chunks.

Owns the exact condition on the cuts and the payloads under which every message
is handled once, in order, and the buffer ends empty. A message is handled as
soon as its payload is there, but the buffer is advanced over its tail as well; a
tail that arrives later is left in front of the next header. The payload is
decoded from a buffer that may go on behind it, and a value that its type does
not carry comes out as another one.

Does not own the decoding of payloads.
-/

namespace StdPrograms.Ouou

open StdPrograms.Foundation

namespace Client

section Outcomes

variable (package : Package)

/-- The chunks one by one, after what an earlier round returned. -/
def resume : Client × Option PyError → List Bytes → Client × Option PyError
  | (self, none), chunks => feed package self chunks
  | (self, some error), _ => (self, some error)

/-- No exception, nothing left over, and one handled message for each of these. -/
def Delivers (outcome : Client × Option PyError) (before messages : List Message) : Prop :=
  outcome.2 = none ∧ outcome.1.buf = [] ∧ ∃ handled, outcome.1.handled = before ++ handled ∧
    List.Forall₂ SameMessage handled messages

end Outcomes

variable {package : Package} {self : Client}

theorem feed_cons (data : Bytes) (rest : List Bytes) :
    feed package self (data :: rest) = resume package (_handle_data package self data) rest := by
  rw [feed]
  split
  next failed => rw [failed, resume]
  next finished => rw [finished, resume]

theorem _handle_data_nonempty {data : Bytes} (some : data ≠ []) :
    _handle_data package self data =
      drain package (self.buf ++ data).length { self with buf := self.buf ++ data } := by
  rw [_handle_data, if_neg (by simpa using some)]

/-! ### One round -/

theorem drain_waits (rounds : Nat)
    (waits : Message.allfrombytes package self.buf false = .ok none) :
    drain package rounds self = (self, none) := by
  cases rounds with
  | zero => rfl
  | succ rounds => rw [drain, waits]

theorem drain_takes (rounds : Nat) {p : Message}
    (parsed : Message.allfrombytes package self.buf false = .ok (some p)) :
    drain package (rounds + 1) self = drain package rounds (self.turn p) := by
  rw [drain, parsed]

theorem drain_raises (rounds : Nat) {error : PyError}
    (raised : Message.allfrombytes package self.buf false = .error error) :
    drain package (rounds + 1) self = (self, some error) := by
  rw [drain, raised]

/-! ### What has been handled stays handled -/

theorem drain_handled (rounds : Nat) (self : Client) :
    self.handled <+: (drain package rounds self).1.handled := by
  induction rounds generalizing self with
  | zero => exact List.prefix_refl _
  | succ rounds inductionHypothesis =>
      unfold drain
      split
      next => exact List.prefix_refl _
      next => exact List.prefix_refl _
      next p _ =>
        exact (List.prefix_append _ [p]).trans (inductionHypothesis (self.turn p))

theorem _handle_data_handled (self : Client) (data : Bytes) :
    self.handled <+: (_handle_data package self data).1.handled := by
  by_cases none : data = []
  · subst none
    show self.handled <+: self._close.handled
    unfold _close
    split <;> exact List.prefix_refl _
  · rw [_handle_data_nonempty none]
    exact drain_handled _ { self with buf := self.buf ++ data }

theorem resume_handled (outcome : Client × Option PyError) (chunks : List Bytes) :
    outcome.1.handled <+: (resume package outcome chunks).1.handled := by
  induction chunks generalizing outcome with
  | nil => obtain ⟨self, _ | error⟩ := outcome <;> exact List.prefix_refl _
  | cons data rest inductionHypothesis =>
      obtain ⟨self, _ | error⟩ := outcome
      · rw [resume, feed_cons]
        exact (_handle_data_handled self data).trans (inductionHypothesis _)
      · exact List.prefix_refl _

/-- A message that has just been handled is the next one in every later list. -/
theorem handled_first (rounds : Nat) (chunks : List Bytes) (p : Message) :
    self.handled ++ [p] <+:
      (resume package (drain package rounds (self.turn p)) chunks).1.handled :=
  (drain_handled rounds (self.turn p)).trans (resume_handled _ _)

/-- Once `p` has been handled, it has to be the next message. -/
theorem delivers_cons {outcome : Client × Option PyError} {before messages : List Message}
    {p message : Message} (handled : before ++ [p] <+: outcome.1.handled) :
    Delivers outcome before (message :: messages) ↔
      SameMessage p message ∧ Delivers outcome (before ++ [p]) messages := by
  constructor
  · rintro ⟨finished, empty, all, layout, same⟩
    cases same with
    | @cons head _ later _ sameHead sameLater =>
        rw [layout, List.prefix_append_right_inj] at handled
        cases (List.cons_prefix_cons.mp handled).1
        exact ⟨sameHead, finished, empty, later, by rw [layout]; simp, sameLater⟩
  · rintro ⟨sameHead, finished, empty, later, layout, sameLater⟩
    exact ⟨finished, empty, p :: later, by rw [layout]; simp, .cons sameHead sameLater⟩

/-! ### Behind a stray tail -/

/-- With a tail in front of the next header, nothing that follows is delivered. -/
theorem not_delivers_behind_tail {messages : List Message} {encodings : List Bytes}
    (frames : List.Forall₂ (Frame package) messages encodings) (chunks : List Bytes)
    (nonempty : ∀ chunk ∈ chunks, chunk ≠ []) (self : Client)
    (stream : self.buf ++ chunks.flatten = MSG_TAIL :: encodings.flatten) :
    ¬ Delivers (feed package self chunks) self.handled messages := by
  induction chunks generalizing self with
  | nil =>
      rintro ⟨-, empty, -⟩
      rw [show self.buf = [] from empty] at stream
      cases stream
  | cons data rest inductionHypothesis =>
      have some : data ≠ [] := nonempty data (by simp)
      let received : Client := { self with buf := self.buf ++ data }
      have stream' : received.buf ++ rest.flatten = MSG_TAIL :: encodings.flatten := by
        rw [← stream, List.flatten_cons, ← List.append_assoc]
      have isPrefix : received.buf <+: MSG_TAIL :: encodings.flatten := ⟨_, stream'⟩
      obtain ⟨rounds, isSucc⟩ : ∃ rounds, (self.buf ++ data).length = rounds + 1 :=
        Nat.exists_eq_succ_of_ne_zero (by simp [some])
      rw [feed_cons, _handle_data_nonempty some, isSucc]
      show ¬ Delivers (resume package (drain package (rounds + 1) received) rest)
        received.handled messages
      cases parsed : Message.allfrombytes package received.buf false with
      | error error =>
          rw [drain_raises _ parsed]
          rintro ⟨finished, -⟩
          cases finished
      | ok result =>
          cases result with
          | none =>
              rw [drain_waits _ parsed]
              exact inductionHypothesis (fun chunk member => nonempty chunk (by simp [member]))
                received stream'
          | some p =>
              obtain ⟨long, id⟩ := allfromstream_msg_id parsed
              have stripped := (isPrefix_stripTail received.buf).trans isPrefix
              cases frames with
              | nil =>
                  have single := stripped.length_le
                  have seven : Header.type_size = 7 := rfl
                  simp only [List.flatten_nil, List.length_singleton] at single
                  omega
              | cons frame frames =>
                  rw [drain_takes _ parsed, delivers_cons (handled_first rounds rest p)]
                  rintro ⟨⟨sameId, -⟩, -⟩
                  exact frame.strange _ _ stripped long (id.symm.trans sameId)

/-! ### What has arrived -/

/-- What has been received with the chunk that brings the byte before `stop`. -/
def receivedAt (stop : Nat) : Bytes → List Bytes → Bytes
  | received, [] => received
  | received, data :: rest =>
      if stop ≤ received.length then received else receivedAt stop (received ++ data) rest

/-- What has arrived behind `stop` by then. -/
def arrived (received : Bytes) (chunks : List Bytes) (stop : Nat) : Bytes :=
  (receivedAt stop received chunks).drop stop

/-- Every message reads back among the bytes that have arrived with its frame; the
first frame begins at `start`. -/
def EachReadsBack (arrived : Nat → Bytes) : Nat → List Message → List Bytes → Prop
  | start, message :: messages, encoding :: encodings =>
      message.ReadsBack encoding (Frame.behind (arrived (start + encoding.length))) ∧
        EachReadsBack arrived (start + encoding.length) messages encodings
  | _, _, _ => True

theorem receivedAt_of_le {stop : Nat} {received : Bytes} (chunks : List Bytes)
    (there : stop ≤ received.length) : receivedAt stop received chunks = received := by
  cases chunks with
  | nil => rfl
  | cons => rw [receivedAt, if_pos there]

theorem receivedAt_append (front received : Bytes) (chunks : List Bytes) (stop : Nat) :
    receivedAt (front.length + stop) (front ++ received) chunks =
      front ++ receivedAt stop received chunks := by
  induction chunks generalizing received with
  | nil => rfl
  | cons data rest inductionHypothesis =>
      simp only [receivedAt, List.length_append, Nat.add_le_add_iff_left]
      split
      next => rfl
      next => rw [List.append_assoc, inductionHypothesis]

theorem arrived_append (front received : Bytes) (chunks : List Bytes) (stop : Nat) :
    arrived (front ++ received) chunks (front.length + stop) = arrived received chunks stop := by
  rw [arrived, receivedAt_append, List.drop_length_add_append, arrived]

theorem arrived_whole (front more : Bytes) (chunks : List Bytes) :
    arrived (front ++ more) chunks front.length = more := by
  rw [arrived, receivedAt_of_le chunks (by simp), List.drop_left]

theorem arrived_later {stop : Nat} {received : Bytes} (data : Bytes) (rest : List Bytes)
    (missing : received.length < stop) :
    arrived received (data :: rest) stop = arrived (received ++ data) rest stop := by
  rw [arrived, receivedAt, if_neg (by omega), arrived]

theorem eachReadsBack_congr {left right : Nat → Bytes} {start : Nat} {messages : List Message}
    {encodings : List Bytes} (agree : ∀ stop, start ≤ stop → left stop = right stop) :
    EachReadsBack left start messages encodings ↔ EachReadsBack right start messages encodings := by
  induction messages generalizing start encodings with
  | nil => rfl
  | cons message messages inductionHypothesis =>
      cases encodings with
      | nil => rfl
      | cons encoding encodings =>
          rw [EachReadsBack, EachReadsBack, agree _ (by omega),
            inductionHypothesis fun stop behind => agree stop (by omega)]

theorem eachReadsBack_shift (arrived : Nat → Bytes) (offset start : Nat) (messages : List Message)
    (encodings : List Bytes) :
    EachReadsBack arrived (offset + start) messages encodings ↔
      EachReadsBack (fun stop => arrived (offset + stop)) start messages encodings := by
  induction messages generalizing start encodings with
  | nil => rfl
  | cons message messages inductionHypothesis =>
      cases encodings with
      | nil => rfl
      | cons encoding encodings =>
          rw [EachReadsBack, EachReadsBack, Nat.add_assoc, inductionHypothesis]

/-- A frame that has arrived, and the ones behind it. -/
theorem eachReadsBack_whole {message : Message} {encoding more : Bytes} {chunks : List Bytes}
    {messages : List Message} {encodings : List Bytes} :
    EachReadsBack (arrived (encoding ++ more) chunks) 0 (message :: messages)
        (encoding :: encodings) ↔
      message.ReadsBack encoding (Frame.behind more) ∧
        EachReadsBack (arrived more chunks) 0 messages encodings := by
  rw [EachReadsBack, Nat.zero_add, arrived_whole, ← Nat.add_zero encoding.length,
    eachReadsBack_shift]
  simp only [arrived_append]

/-- A frame that has not yet arrived waits for the next chunk. -/
theorem eachReadsBack_waits {message : Message} {encoding received data : Bytes}
    {rest : List Bytes} {messages : List Message} {encodings : List Bytes}
    (short : received.length < encoding.length) :
    EachReadsBack (arrived received (data :: rest)) 0 (message :: messages)
        (encoding :: encodings) ↔
      EachReadsBack (arrived (received ++ data) rest) 0 (message :: messages)
        (encoding :: encodings) := by
  rw [EachReadsBack, EachReadsBack, Nat.zero_add, arrived_later data rest short,
    eachReadsBack_congr fun stop behind => arrived_later data rest (by omega)]

/-! ### The exact condition -/

/-- The bytes received so far end between a payload and its tail, and the payload
does not end like a tail itself. -/
def CutBeforeTail (encodings : List Bytes) (received : Bytes) : Prop :=
  ∃ before encoding after, encodings = before ++ encoding :: after ∧
    received = before.flatten ++ encoding.dropLast ∧
    encoding.dropLast.getLast? ≠ some MSG_TAIL

theorem not_cutBeforeTail_nil (received : Bytes) : ¬ CutBeforeTail [] received := by
  rintro ⟨before, encoding, after, layout, -⟩
  cases before <;> cases layout

/-- A cut within the first frame, or behind it. -/
theorem cutBeforeTail_cons {encoding received : Bytes} {encodings : List Bytes} :
    CutBeforeTail (encoding :: encodings) received ↔
      (received = encoding.dropLast ∧ encoding.dropLast.getLast? ≠ some MSG_TAIL) ∨
        ∃ later, received = encoding ++ later ∧ CutBeforeTail encodings later := by
  constructor
  · rintro ⟨before, cut, after, layout, isReceived, untailed⟩
    cases before with
    | nil =>
        obtain ⟨rfl, rfl⟩ := List.cons.inj layout
        exact .inl ⟨isReceived, untailed⟩
    | cons head before =>
        obtain ⟨rfl, rfl⟩ := List.cons.inj layout
        exact .inr ⟨before.flatten ++ cut.dropLast, by rw [isReceived]; simp,
          before, cut, after, rfl, rfl, untailed⟩
  · rintro (⟨isReceived, untailed⟩ | ⟨later, isReceived, before, cut, after, layout, rfl, untailed⟩)
    · exact ⟨[], encoding, encodings, rfl, isReceived, untailed⟩
    · exact ⟨encoding :: before, cut, after, by rw [layout]; rfl,
        by rw [isReceived]; simp, untailed⟩

/-- How a buffer relates to the frame in front of the stream. -/
inductive Arrival (package : Package) (message : Message) (encoding later buf rest : Bytes) : Prop
  | whole (more : Bytes) (received : buf = encoding ++ more) (remaining : later = more ++ rest)
  | untailed (received : buf = encoding.dropLast) (remaining : rest = MSG_TAIL :: later)
      (untailed : encoding.dropLast.getLast? ≠ some MSG_TAIL)
  | incomplete (waits : Message.allfrombytes package buf false = .ok none)
      (short : buf.length < encoding.length)
      (noCut : ¬ (buf = encoding.dropLast ∧ encoding.dropLast.getLast? ≠ some MSG_TAIL))

theorem arrival {message : Message} {encoding later buf rest : Bytes}
    (frame : Frame package message encoding) (stream : buf ++ rest = encoding ++ later) :
    Arrival package message encoding later buf rest := by
  have joined : buf ++ rest = encoding.dropLast ++ MSG_TAIL :: later := by
    rw [stream]
    conv_lhs => rw [frame.split]
    simp
  have size : encoding.length = encoding.dropLast.length + 1 := by
    conv_lhs => rw [frame.split]
    simp
  rcases List.append_eq_append_iff.mp joined with ⟨missing, isFront, isRest⟩ | ⟨back, isBuf, isTail⟩
  · by_cases untailed : missing = [] ∧ encoding.dropLast.getLast? ≠ some MSG_TAIL
    · obtain ⟨rfl, untailed⟩ := untailed
      rw [List.append_nil] at isFront
      exact .untailed isFront.symm isRest untailed
    · refine .incomplete (frame.allfrombytes_part isFront ?_) ?_ ?_
      · by_contra neither
        obtain ⟨some, tailed⟩ := not_or.mp neither
        have none := not_not.mp some
        rw [none, List.append_nil] at isFront
        exact untailed ⟨none, by rwa [isFront]⟩
      · rw [size, isFront, List.length_append]
        omega
      · rintro ⟨isBuf, lastByte⟩
        rw [← isBuf] at isFront
        exact untailed ⟨by simpa using isFront, lastByte⟩
  · cases back with
    | nil =>
        rw [List.append_nil] at isBuf
        by_cases untailed : encoding.dropLast.getLast? = some MSG_TAIL
        · have nothingMissing : encoding.dropLast = buf ++ [] := by rw [isBuf, List.append_nil]
          refine .incomplete (frame.allfrombytes_part nothingMissing (.inr (by rwa [isBuf]))) ?_
            fun cut => cut.2 untailed
          rw [size, isBuf]
          omega
        · exact .untailed isBuf isTail.symm untailed
    | cons tail more =>
        obtain ⟨rfl, remaining⟩ := List.cons.inj isTail
        refine .whole more ?_ remaining
        rw [isBuf]
        conv_rhs => rw [frame.split]
        simp

theorem cutBeforeTail_append {message : Message} {encoding later : Bytes}
    {encodings : List Bytes} (frame : Frame package message encoding) :
    CutBeforeTail (encoding :: encodings) (encoding ++ later) ↔ CutBeforeTail encodings later := by
  rw [cutBeforeTail_cons]
  constructor
  · rintro (⟨isCut, -⟩ | ⟨later', same, cut⟩)
    · have lengths := congrArg List.length isCut
      rw [frame.split] at lengths
      simp at lengths
    · rwa [List.append_cancel_left same]
  · exact fun cut => .inr ⟨later, rfl, cut⟩

theorem not_cutBeforeTail_short {encoding received : Bytes} {encodings : List Bytes}
    (short : received.length < encoding.length)
    (noCut : ¬ (received = encoding.dropLast ∧ encoding.dropLast.getLast? ≠ some MSG_TAIL)) :
    ¬ CutBeforeTail (encoding :: encodings) received := by
  rw [cutBeforeTail_cons]
  rintro (cut | ⟨later, rfl, -⟩)
  · exact noCut cut
  · rw [List.length_append] at short
    omega

/-- A client that has a round on its buffer in front of it, and then `chunks`, delivers every
message unless some cut, the present one included, falls before a tail, or some message does not
read back. -/
def Decides (package : Package) (chunks : List Bytes) (rounds : Nat) (self : Client)
    (messages : List Message) (encodings : List Bytes) : Prop :=
  Delivers (resume package (drain package rounds self) chunks) self.handled messages ↔
    (∀ part, part <+: chunks → ¬ CutBeforeTail encodings (self.buf ++ part.flatten)) ∧
      EachReadsBack (arrived self.buf chunks) 0 messages encodings

/-- Whatever is in the buffer, with as many rounds as it has bytes. -/
def DecidedByCuts (package : Package) (chunks : List Bytes) : Prop :=
  ∀ {messages : List Message} {encodings : List Bytes},
    List.Forall₂ (Frame package) messages encodings →
    ∀ (rounds : Nat) (self : Client), self.buf.length ≤ rounds →
      self.buf ++ chunks.flatten = encodings.flatten →
      Decides package chunks rounds self messages encodings

theorem not_delivers_raised {error : PyError} {chunks : List Bytes} {before : List Message}
    {messages : List Message} :
    ¬ Delivers (resume package (self, some error) chunks) before messages := by
  rintro ⟨finished, -⟩
  cases finished

/-- Where no frame is left, nothing is. -/
theorem decides_nothing {chunks : List Bytes} {rounds : Nat}
    (nonempty : ∀ chunk ∈ chunks, chunk ≠ []) (stream : self.buf ++ chunks.flatten = []) :
    Decides package chunks rounds self [] [] := by
  obtain ⟨empty, allEmpty⟩ := List.append_eq_nil_iff.mp stream
  have noChunks : chunks = [] := List.eq_nil_iff_forall_not_mem.mpr fun chunk member =>
    nonempty chunk member (List.flatten_eq_nil_iff.mp allEmpty chunk member)
  have waits : Message.allfrombytes package self.buf false = .ok none := by
    rw [empty]
    exact Message.allfromstream_short false (by decide)
  subst noChunks
  rw [Decides, drain_waits rounds waits]
  exact ⟨fun _ => ⟨fun part _ => not_cutBeforeTail_nil _, trivial⟩,
    fun _ => ⟨rfl, empty, [], (List.append_nil _).symm, .nil⟩⟩

section FirstFrame

variable {message : Message} {messages : List Message} {encoding : Bytes} {encodings : List Bytes}
  {chunks : List Bytes} {rounds : Nat}

/-- The first frame has arrived: it is handled, and what is behind it decides about the others. -/
theorem decides_whole {more : Bytes} (frame : Frame package message encoding)
    (received : self.buf = encoding ++ more)
    (others : ∀ p : Message, (self.turn p).buf = more →
      Decides package chunks rounds (self.turn p) messages encodings) :
    Decides package chunks (rounds + 1) self (message :: messages) (encoding :: encodings) := by
  have answer := frame.allfrombytes_whole more
  rw [← received] at answer
  generalize parsed : Message.allfrombytes package self.buf false = result at answer
  rw [Decides, received, eachReadsBack_whole]
  cases answer with
  | raises error lost =>
      rw [drain_raises rounds parsed]
      exact iff_of_false not_delivers_raised fun read => lost read.2.1
  | handled p size same =>
      have rest : self.buf.drop p.size = more := by
        rw [received, size, List.drop_left]
      rw [drain_takes rounds parsed, delivers_cons (handled_first rounds chunks p)]
      have decided := others p (by rw [turn_buf, rest])
      rw [Decides, turn_handled, turn_buf, rest] at decided
      simp only [decided, same, List.append_assoc, cutBeforeTail_append frame]
      exact and_left_comm

/-- The first frame has arrived without its tail: nothing is delivered behind it. -/
theorem decides_untailed (frame : Frame package message encoding)
    (frames : List.Forall₂ (Frame package) messages encodings)
    (nonempty : ∀ chunk ∈ chunks, chunk ≠ []) (received : self.buf = encoding.dropLast)
    (remaining : chunks.flatten = MSG_TAIL :: encodings.flatten)
    (untailed : encoding.dropLast.getLast? ≠ some MSG_TAIL) :
    Decides package chunks (rounds + 1) self (message :: messages) (encoding :: encodings) := by
  have answer := frame.allfrombytes_untailed untailed
  rw [← received] at answer
  generalize parsed : Message.allfrombytes package self.buf false = result at answer
  refine iff_of_false ?_ fun clear => ?_
  · cases answer with
    | raises error lost =>
        rw [drain_raises rounds parsed]
        exact not_delivers_raised
    | handled p size same =>
        have rest : self.buf.drop p.size = [] := by
          rw [received, size, List.drop_eq_nil_iff, List.length_dropLast]
          omega
        have waits : Message.allfrombytes package ([] : Bytes) false = .ok none :=
          Message.allfromstream_short false (by decide)
        rw [drain_takes rounds parsed, delivers_cons (handled_first rounds chunks p)]
        rintro ⟨-, delivered⟩
        rw [drain_waits rounds (by rw [turn_buf, rest]; exact waits)] at delivered
        exact not_delivers_behind_tail frames chunks nonempty (self.turn p)
          (by rw [turn_buf, rest, remaining]; rfl) delivered
  · refine clear.1 [] List.nil_prefix ?_
    rw [List.flatten_nil, List.append_nil, cutBeforeTail_cons]
    exact .inl ⟨received, untailed⟩

/-- A part of the first frame has arrived: the round ends, and the next chunk decides. -/
theorem decides_incomplete {data : Bytes} {rest : List Bytes} (some : data ≠ [])
    (waits : Message.allfrombytes package self.buf false = .ok none)
    (short : self.buf.length < encoding.length)
    (noCut : ¬ (self.buf = encoding.dropLast ∧ encoding.dropLast.getLast? ≠ Option.some MSG_TAIL))
    (later : Decides package rest (self.buf ++ data).length { self with buf := self.buf ++ data }
      (message :: messages) (encoding :: encodings)) :
    Decides package (data :: rest) rounds self (message :: messages) (encoding :: encodings) := by
  rw [Decides, drain_waits rounds waits, resume, feed_cons, _handle_data_nonempty some]
  rw [Decides] at later
  rw [later, eachReadsBack_waits short]
  refine and_congr_left fun _ => ⟨?_, ?_⟩
  · intro clear part isPart
    rcases List.prefix_cons_iff.mp isPart with rfl | ⟨front, rfl, isFront⟩
    · rw [List.flatten_nil, List.append_nil]
      exact not_cutBeforeTail_short short noCut
    · rw [List.flatten_cons, ← List.append_assoc]
      exact clear front isFront
  · intro clear part isPart
    have whole := clear (data :: part) (List.cons_prefix_cons.mpr ⟨rfl, isPart⟩)
    rwa [List.flatten_cons, ← List.append_assoc] at whole

end FirstFrame

theorem decidedByCuts_step {chunks : List Bytes} (nonempty : ∀ chunk ∈ chunks, chunk ≠ [])
    (later : ∀ data rest, chunks = data :: rest → DecidedByCuts package rest) :
    DecidedByCuts package chunks := by
  intro messages encodings frames
  induction frames with
  | nil => exact fun _ _ _ stream => decides_nothing nonempty stream
  | @cons message encoding messages encodings frame frames inductionHypothesis =>
      intro rounds self bound stream
      have nonempty' := List.length_pos_iff.mpr frame.nonempty
      rw [List.length_dropLast] at nonempty'
      cases arrival frame stream with
      | whole more received remaining =>
          rw [received, List.length_append] at bound
          obtain ⟨rounds, rfl⟩ : ∃ fewer, rounds = fewer + 1 :=
            Nat.exists_eq_succ_of_ne_zero (by omega)
          refine decides_whole frame received fun p behind => inductionHypothesis rounds _ ?_ ?_
          · rw [behind]
            omega
          · rw [behind]
            exact remaining.symm
      | untailed received remaining untailed =>
          rw [received, List.length_dropLast] at bound
          obtain ⟨rounds, rfl⟩ : ∃ fewer, rounds = fewer + 1 :=
            Nat.exists_eq_succ_of_ne_zero (by omega)
          exact decides_untailed frame frames nonempty received remaining untailed
      | incomplete waits short noCut =>
          cases chunks with
          | nil =>
              have lengths := congrArg List.length stream
              simp at lengths
              omega
          | cons data rest =>
              refine decides_incomplete (nonempty data (by simp)) waits short noCut ?_
              refine later data rest rfl (.cons frame frames) _ _ le_rfl ?_
              rw [List.append_assoc]
              exact stream

theorem decidedByCuts (chunks : List Bytes) (nonempty : ∀ chunk ∈ chunks, chunk ≠ []) :
    DecidedByCuts package chunks := by
  induction chunks with
  | nil => exact decidedByCuts_step nonempty nofun
  | cons data rest inductionHypothesis =>
      refine decidedByCuts_step nonempty fun data' rest' isCons => ?_
      cases isCons
      exact inductionHypothesis fun chunk member => nonempty chunk (by simp [member])

end Client

/-- A heartbeat with `pid` 1. -/
def heartbeat : Message := Response_5517.new [("pid", .int 1)]

def heartbeatBytes : Bytes := [0x7b, 0x8d, 0x15, 0, 0, 2, 0, 1, 0, 0x7d]

theorem heartbeat_sent : heartbeat.Sent asciiHost heartbeatBytes where
  topLevel := rfl
  uncompressed := rfl
  registered := by
    have member : Response_5517 ∈ responseClasses asciiHost := by simp [responseClasses]
    exact get_owner_cls_response member rfl rfl rfl
  notMultiple := by decide
  encoded := by decide +kernel

theorem heartbeats_sent : List.Forall₂ (fun message encoding => message.Sent asciiHost encoding)
    [heartbeat, heartbeat] [heartbeatBytes, heartbeatBytes] :=
  .cons heartbeat_sent (.cons heartbeat_sent .nil)

theorem Client.eachReadsBack_of_inRange {host : Host} {messages : List Message}
    {encodings : List Bytes}
    (sent : List.Forall₂ (fun message encoding => message.Sent host encoding) messages encodings)
    (inRange : ∀ message ∈ messages, message.cls.InRange message.attributes)
    (arrived : Nat → Bytes) (start : Nat) : EachReadsBack arrived start messages encodings := by
  induction sent generalizing start with
  | nil => trivial
  | cons head _ inductionHypothesis =>
      exact ⟨head.readsBack_of_inRange (inRange _ (by simp)) _,
        inductionHypothesis (fun message member => inRange message (by simp [member])) _⟩

/-- With every value in the range of its type, the cuts alone decide. -/
theorem Client.feed_delivers_inRange_iff {host : Host} {messages : List Message}
    {encodings chunks : List Bytes}
    (sent : List.Forall₂ (fun message encoding => message.Sent host encoding) messages encodings)
    (inRange : ∀ message ∈ messages, message.cls.InRange message.attributes)
    (nonempty : ∀ chunk ∈ chunks, chunk ≠ []) (stream : chunks.flatten = encodings.flatten) :
    Delivers (feed (package host) {} chunks) [] messages ↔
      ∀ part, part <+: chunks → ¬ CutBeforeTail encodings part.flatten := by
  have decided := decidedByCuts chunks nonempty (frames_of_sent sent) 0 {} le_rfl stream
  exact decided.trans (and_iff_left (eachReadsBack_of_inRange sent inRange _ _))

/-- A trade of `2 ^ 29`, which a packed volume reads as an exponent. -/
def largeTrade : Message :=
  Response_5503.new
    [ ("close_price", .int 0), ("data_pos", .int 0), ("need_clear_local", .int 0),
      ("fields", .list [.int 4]), ("data", .list [.list [.int 0x20000000]]) ]

/-- Its frame comes in one piece, and the trade is of nothing. -/
example :
    (largeTrade.tobytes false).2 = .ok [0x7b, 0x7f, 0x15, 0, 0, 17, 0,
      0, 0, 0, 0, 0, 0, 0, 0, 0, 1, 4, 1, 0, 0, 0, 0, 0x20, 0x7d] ∧
    ((Client.feed (package asciiHost) {} [[0x7b, 0x7f, 0x15, 0, 0, 17, 0,
      0, 0, 0, 0, 0, 0, 0, 0, 0, 1, 4, 1, 0, 0, 0, 0, 0x20, 0x7d]]).1.handled.map
        fun message => message.attributes.get "data") =
      [some (.list [.obj ["volume"] [("volume", .int 0)]])] :=
  ⟨rfl, rfl⟩

end StdPrograms.Ouou
