import StdPrograms.Release.Framing
import StdPrograms.Release.PacketBounds

/-!
Contract: the receive loop of `Login::on_readable` on a stream of packets.

Owns the loop around `append`, `is_complete`, `dispatch` and `reset`, and the
exact condition on the cuts of the stream under which it dispatches the packets
that were sent. The loop hands `append` the beginning of its buffer in every
round, and `append` copies up to the announced length however much of it has
arrived; where several packets meet in one buffer, both only go well by chance.

Does not own what `dispatch` does with a packet.
-/

namespace StdPrograms.Release

open StdPrograms.Foundation

/-! ### The loop -/

/-- An exception, or a loop that makes no progress. -/
inductive Interrupted where
  | thrown (error : ExceptBase)
  | endless
deriving DecidableEq

/-- `inpkt_`, and the packets that were dispatched. -/
structure Receiver where
  inpkt : IPacket := IPacket.reset
  dispatched : List Bytes := []
deriving DecidableEq

namespace Receiver

/-- What follows an `append`: a complete packet is dispatched and reset. -/
def settle (self : Receiver) (inpkt : IPacket) : Receiver :=
  if inpkt.is_complete then
    { inpkt := IPacket.reset, dispatched := self.dispatched ++ [inpkt.received] }
  else { self with inpkt := inpkt }

/-- The loop, with `nbuf` bytes left to append. `buf` is not advanced. -/
def appendLoop (buf : Bytes) : Nat → Receiver → Nat → Except Interrupted Receiver
  | 0, _, _ => .error .endless
  | rounds + 1, self, nbuf =>
      match self.inpkt.append (buf.take nbuf) with
      | .error error => .error (.thrown error)
      | .ok (inpkt, ncopy) =>
          if 0 < nbuf - ncopy then appendLoop buf rounds (self.settle inpkt) (nbuf - ncopy)
          else .ok (self.settle inpkt)

/-- One result of `recv`. A round copies at least one byte, or makes no progress. -/
def on_readable (self : Receiver) (buf : Bytes) : Except Interrupted Receiver :=
  appendLoop buf buf.length self buf.length

def run : Receiver → List Bytes → Except Interrupted Receiver
  | self, [] => .ok self
  | self, buf :: rest =>
      match self.on_readable buf with
      | .error interrupted => .error interrupted
      | .ok self => run self rest

/-- The loop dispatches these packets from these results of `recv`. -/
def Dispatches (self : Receiver) (packets chunks : List Bytes) : Prop :=
  ∃ final, run self chunks = .ok final ∧ final.dispatched = packets

/-! ### The condition -/

/-- The packets that are left, and how much of the first one has arrived, after
`count` more bytes. -/
def advance : List Bytes → Nat → Nat → List Bytes × Nat
  | [], _, _ => ([], 0)
  | packet :: later, started, count =>
      if started + count < packet.length then (packet :: later, started + count)
      else advance later 0 (count - (packet.length - started))

/-- The first `count` bytes of the packets, cut where a packet ends. -/
def segments : List Bytes → Nat → List Bytes
  | [], _ => []
  | packet :: later, count =>
      if count ≤ packet.length then [packet.take count]
      else packet :: segments later (count - packet.length)

/-- The chunk stays inside the packet that it starts in; or it starts no later than
at the end of that packet's header, and whatever it holds of later packets is how
the chunk itself begins. -/
def ChunkBenign : List Bytes → Nat → Bytes → Prop
  | [], _, _ => True
  | packet :: later, started, chunk =>
      chunk.length ≤ packet.length - started ∨
        (started ≤ kHdrLen ∧
          ∀ segment ∈ segments later (chunk.length - (packet.length - started)),
            segment <+: chunk)

/-- Every chunk is benign, where it arrives. -/
def Benign : List Bytes → Nat → List Bytes → Prop
  | _, _, [] => True
  | packets, started, chunk :: rest =>
      ChunkBenign packets started chunk ∧
        Benign (advance packets started chunk.length).1 (advance packets started chunk.length).2
          rest

/-! ### A receiver that can no longer succeed -/

/-- What was dispatched is wrong, or what has been received is not how the next
packet begins. -/
def Doomed (packets : List Bytes) (self : Receiver) : Prop :=
  ¬ self.dispatched <+: packets ∨ ∃ packet later,
    packets = self.dispatched ++ packet :: later ∧ ¬ self.inpkt.received <+: packet

variable {packets : List Bytes} {self : Receiver}

theorem Doomed.not_dispatched (doomed : Doomed packets self) : self.dispatched ≠ packets := by
  rintro rfl
  rcases doomed with notPrefix | ⟨packet, later, layout, -⟩
  · exact notPrefix (List.prefix_refl _)
  · have lengths := congrArg List.length layout
    simp at lengths

theorem doomed_settle {inpkt : IPacket} {packet : Bytes} {later : List Bytes}
    (expected : packets = self.dispatched ++ packet :: later)
    (complete : inpkt.is_complete = true → inpkt.received ≠ packet)
    (incomplete : ¬ inpkt.is_complete = true → ¬ inpkt.received <+: packet) :
    Doomed packets (self.settle inpkt) := by
  unfold settle
  split
  next done =>
    refine .inl fun isPrefix => complete done ?_
    rw [expected, List.prefix_append_right_inj] at isPrefix
    exact (List.cons_prefix_cons.mp isPrefix).1
  next notDone => exact .inr ⟨packet, later, expected, incomplete notDone⟩

theorem Doomed.settle (doomed : Doomed packets self) {inpkt : IPacket}
    (extends_ : self.inpkt.received <+: inpkt.received) : Doomed packets (self.settle inpkt) := by
  rcases doomed with notPrefix | ⟨packet, later, expected, notBegun⟩
  · refine .inl fun isPrefix => notPrefix (List.IsPrefix.trans ?_ isPrefix)
    unfold Receiver.settle
    split
    · exact List.prefix_append _ _
    · exact List.prefix_refl _
  · refine doomed_settle expected (fun _ same => notBegun ?_) fun _ begun => notBegun ?_
    · rwa [← same]
    · exact extends_.trans begun

theorem Doomed.appendLoop {buf : Bytes} (doomed : Doomed packets self) {rounds nbuf : Nat}
    {after : Receiver} (finished : appendLoop buf rounds self nbuf = .ok after) :
    Doomed packets after := by
  induction rounds generalizing self nbuf with
  | zero => cases finished
  | succ rounds inductionHypothesis =>
      rw [Receiver.appendLoop] at finished
      split at finished
      next => contradiction
      next inpkt ncopy appended =>
        have isCopy := (IPacket.append_copies appended).1
        have settled : Doomed packets (self.settle inpkt) := doomed.settle (by
          rw [isCopy]
          exact List.prefix_append _ _)
        split at finished
        · exact inductionHypothesis settled finished
        · cases Except.ok.inj finished
          exact settled

theorem Doomed.not_dispatches (doomed : Doomed packets self) (chunks : List Bytes) :
    ¬ Dispatches self packets chunks := by
  induction chunks generalizing self with
  | nil =>
      rintro ⟨final, finished, dispatched⟩
      cases Except.ok.inj finished
      exact doomed.not_dispatched dispatched
  | cons chunk rest inductionHypothesis =>
      rintro ⟨final, finished, dispatched⟩
      rw [run] at finished
      split at finished
      next => contradiction
      next after received =>
        exact inductionHypothesis (doomed.appendLoop received) ⟨final, finished, dispatched⟩

/-! ### A receiver in step with the stream -/

/-- The dispatched packets are the first ones, and of the next one the first
`started` bytes have been received. -/
structure InStep (packets remaining : List Bytes) (started : Nat) (receiver : Receiver) :
    Prop where
  split : packets = receiver.dispatched ++ remaining
  begun : receiver.inpkt = { received := (remaining.headD []).take started, pos := kHdrLen }
  started : ∀ packet later, remaining = packet :: later → started < packet.length

theorem Framed.positive {packet : Bytes} (framed : Framed packet) : 0 < packet.length := by
  rw [framed.announces]
  exact Nat.add_pos_left (by decide) _

theorem advance_zero {later : List Bytes} (framed : ∀ packet ∈ later, Framed packet) :
    advance later 0 0 = (later, 0) := by
  cases later with
  | nil => rfl
  | cons packet later =>
      rw [advance, if_pos]
      have := Framed.positive (framed packet (by simp))
      omega

/-- After a dispatch the next packet is awaited from its start. -/
theorem inStep_dispatched {packet : Bytes} {later : List Bytes}
    (expected : packets = self.dispatched ++ packet :: later)
    (framed : ∀ packet ∈ later, Framed packet) {inpkt : IPacket}
    (complete : inpkt.is_complete = true) (received : inpkt.received = packet) :
    InStep packets later 0 (self.settle inpkt) := by
  rw [settle, if_pos complete, received]
  refine ⟨by rw [expected]; simp, by rw [List.take_zero]; rfl, ?_⟩
  rintro next rest rfl
  exact Framed.positive (framed next (by simp))

/-- More of a packet that is not complete yet. -/
theorem inStep_begun {packet : Bytes} {later : List Bytes} {count : Nat}
    (expected : packets = self.dispatched ++ packet :: later) (framed : Framed packet)
    (part : count < packet.length) :
    InStep packets (packet :: later) count
      (self.settle { received := packet.take count, pos := kHdrLen }) := by
  have incomplete : ¬ IPacket.is_complete ⟨packet.take count, kHdrLen⟩ = true := by
    rw [← List.take_append_drop count packet] at framed
    rw [IPacket.is_complete_framed framed, List.drop_eq_nil_iff]
    omega
  rw [settle, if_neg incomplete]
  refine ⟨expected, rfl, ?_⟩
  rintro _ _ ⟨⟩
  exact part

/-- What an `append` inside one packet leaves, in step with the stream. -/
theorem inStep_advance {packet : Bytes} {later : List Bytes} {count : Nat}
    (expected : packets = self.dispatched ++ packet :: later)
    (framed : ∀ packet' ∈ packet :: later, Framed packet') (started : Nat)
    (inside : started + count ≤ packet.length) :
    InStep packets (advance (packet :: later) started count).1
      (advance (packet :: later) started count).2
      (self.settle { received := packet.take (started + count), pos := kHdrLen }) := by
  have framedPacket := framed packet (by simp)
  have framedLater : ∀ packet' ∈ later, Framed packet' :=
    fun packet' member => framed packet' (by simp [member])
  rw [advance]
  by_cases part : started + count < packet.length
  · rw [if_pos part]
    exact inStep_begun expected framedPacket part
  · have whole : started + count = packet.length := by omega
    have nothing : count - (packet.length - started) = 0 := by omega
    rw [if_neg part, nothing, advance_zero framedLater, whole, List.take_length]
    refine inStep_dispatched expected framedLater ?_ rfl
    rw [← List.append_nil packet] at framedPacket
    exact (IPacket.is_complete_framed framedPacket).mpr rfl

/-! ### Rounds that start with a fresh packet -/

section Rounds

variable {buf : Bytes}

/-- A round with a fresh packet either takes the first segment, or dooms the
receiver. -/
theorem fresh_round {packet : Bytes} {later : List Bytes} {count copied : Nat} {inpkt : IPacket}
    (expected : packets = self.dispatched ++ packet :: later)
    (fresh : self.inpkt = IPacket.reset) (inside : count ≤ buf.length)
    (wrong : ¬ packet.take count <+: buf)
    (appended : self.inpkt.append (buf.take count) = .ok (inpkt, copied)) :
    Doomed packets (self.settle inpkt) := by
  rw [fresh] at appended
  obtain ⟨isCopy, bounded⟩ := IPacket.append_copies appended
  have received : inpkt.received = buf.take copied := by
    rw [isCopy, List.length_take] at *
    simp only [IPacket.reset, List.nil_append, List.take_take]
    rw [Nat.min_eq_left (by omega)]
  refine doomed_settle expected (fun _ same => wrong ?_) fun incomplete begun => wrong ?_
  · rw [← same, received]
    exact (List.take_prefix _ _).trans (List.take_prefix _ _)
  · have all := IPacket.append_incomplete appended incomplete
    rw [List.length_take, Nat.min_eq_left inside] at all
    rw [received, all] at begun
    have same := List.prefix_iff_eq_take.mp begun
    rw [List.length_take, Nat.min_eq_left inside] at same
    rw [← same]
    exact List.take_prefix _ _

/-- A round with a fresh packet takes the first segment, if the buffer begins
with it. -/
theorem fresh_append {packet : Bytes} {count : Nat} (framed : Framed packet)
    (fresh : self.inpkt = IPacket.reset) (inside : count ≤ buf.length)
    (right : packet.take count <+: buf) :
    self.inpkt.append (buf.take count) =
      .ok ({ received := packet.take (min count packet.length), pos := kHdrLen },
        min count packet.length) := by
  have length : (buf.take count).length = count := by
    rw [List.length_take]
    omega
  have agrees : buf.take count <+: packet ∨ packet <+: buf.take count := by
    by_cases whole : count ≤ packet.length
    · left
      have same : packet.take count = buf.take count := by
        have taken := List.prefix_iff_eq_take.mp right
        rwa [List.length_take, Nat.min_eq_left whole] at taken
      rw [← same]
      exact List.take_prefix _ _
    · right
      rw [List.take_of_length_le (by omega)] at right
      exact List.prefix_take_iff.mpr ⟨right, by omega⟩
  have appended := IPacket.reset.append_framed framed agrees (.inl (Nat.zero_le kHdrLen))
  rw [fresh, appended, length]
  have beginning : (buf.take count).take (min count packet.length) =
      packet.take (min count packet.length) :=
    take_eq_take_of_agrees agrees (by rw [length]; omega) (by omega)
  rw [beginning]
  rfl

/-- A round that takes a whole packet goes on with a fresh one. -/
theorem fresh_whole_round {packet : Bytes} {later : List Bytes} {rounds count : Nat}
    (expected : packets = self.dispatched ++ packet :: later)
    (framed : ∀ packet' ∈ packet :: later, Framed packet') (fresh : self.inpkt = IPacket.reset)
    (inside : count ≤ buf.length) (more : packet.length < count) (right : packet <+: buf) :
    ∃ settled, appendLoop buf (rounds + 1) self count =
        appendLoop buf rounds settled (count - packet.length) ∧
      InStep packets later 0 settled := by
  have framedPacket := framed packet (by simp)
  have whole : packet.take count = packet := List.take_of_length_le (by omega)
  have complete : IPacket.is_complete ⟨packet, kHdrLen⟩ = true := by
    have exact : Framed (packet ++ []) := by rwa [List.append_nil]
    exact (IPacket.is_complete_framed exact).mpr rfl
  refine ⟨self.settle ⟨packet, kHdrLen⟩, ?_, inStep_dispatched expected
    (fun packet' member => framed packet' (by simp [member])) complete rfl⟩
  rw [appendLoop, fresh_append framedPacket fresh inside (by rwa [whole]),
    Nat.min_eq_right (by omega), List.take_length]
  dsimp only
  rw [if_pos (by omega)]

theorem InStep.fresh {later : List Bytes} (inStep : InStep packets later 0 self) :
    self.inpkt = IPacket.reset := by
  rw [inStep.begun, List.take_zero]
  rfl

/-- Fresh rounds over buffer bytes that begin with every segment. -/
theorem appendLoop_right {later : List Bytes} {rounds count : Nat}
    (expected : packets = self.dispatched ++ later) (framed : ∀ packet ∈ later, Framed packet)
    (fresh : self.inpkt = IPacket.reset) (positive : 0 < count) (enough : count ≤ rounds)
    (inside : count ≤ buf.length) (available : count ≤ later.flatten.length)
    (right : ∀ segment ∈ segments later count, segment <+: buf) :
    ∃ after, appendLoop buf rounds self count = .ok after ∧
      InStep packets (advance later 0 count).1 (advance later 0 count).2 after := by
  induction later generalizing self rounds count with
  | nil =>
      simp at available
      omega
  | cons packet later inductionHypothesis =>
      obtain ⟨rounds, rfl⟩ := Nat.exists_eq_succ_of_ne_zero (by omega : rounds ≠ 0)
      have framedPacket := framed packet (by simp)
      have size := Framed.positive framedPacket
      by_cases part : count ≤ packet.length
      · rw [segments, if_pos part] at right
        rw [appendLoop, fresh_append framedPacket fresh inside (right _ (by simp)), Nat.min_eq_left part]
        dsimp only
        rw [if_neg (by omega)]
        have advanced := inStep_advance expected framed 0 (by omega : 0 + count ≤ packet.length)
        rw [Nat.zero_add] at advanced
        exact ⟨_, rfl, advanced⟩
      · rw [segments, if_neg part] at right
        obtain ⟨settled, goesOn, inStep⟩ := fresh_whole_round expected framed fresh inside
          (by omega) (right packet (by simp))
        rw [List.flatten_cons, List.length_append] at available
        obtain ⟨after, finished, inStepAfter⟩ := inductionHypothesis inStep.split
          (fun packet' member => framed packet' (by simp [member])) inStep.fresh
          (by omega : 0 < count - packet.length) (by omega : count - packet.length ≤ rounds)
          (by omega) (by omega) fun segment member => right segment (by simp [member])
        refine ⟨after, goesOn.trans finished, ?_⟩
        rw [advance, if_neg (by omega)]
        exact inStepAfter

/-- Fresh rounds over buffer bytes that do not begin with some segment. -/
theorem appendLoop_wrong {later : List Bytes} {rounds count : Nat} {after : Receiver}
    (expected : packets = self.dispatched ++ later) (framed : ∀ packet ∈ later, Framed packet)
    (fresh : self.inpkt = IPacket.reset) (inside : count ≤ buf.length)
    (wrong : ¬ ∀ segment ∈ segments later count, segment <+: buf)
    (finished : appendLoop buf rounds self count = .ok after) : Doomed packets after := by
  induction later generalizing self rounds count with
  | nil => exact absurd (by simp [segments]) wrong
  | cons packet later inductionHypothesis =>
      cases rounds with
      | zero => cases finished
      | succ rounds =>
          by_cases begins : packet.take count <+: buf
          · rw [segments] at wrong
            by_cases part : count ≤ packet.length
            · rw [if_pos part] at wrong
              exact absurd (by simpa using begins) wrong
            · rw [if_neg part, List.forall_mem_cons] at wrong
              rw [List.take_of_length_le (by omega)] at begins
              obtain ⟨settled, goesOn, inStep⟩ := fresh_whole_round expected framed fresh inside
                (by omega) begins
              rw [goesOn] at finished
              exact inductionHypothesis inStep.split
                (fun packet' member => framed packet' (by simp [member])) inStep.fresh (by omega)
                (fun all => wrong ⟨begins, all⟩) finished
          · rw [appendLoop] at finished
            split at finished
            next => contradiction
            next inpkt ncopy appended =>
              have doomed := fresh_round expected fresh inside begins appended
              split at finished
              · exact doomed.appendLoop finished
              · cases Except.ok.inj finished
                exact doomed

end Rounds

/-! ### One chunk -/

section Chunk

variable {packet chunk tail : Bytes} {later : List Bytes} {started : Nat}

/-- The first round of a chunk, and the rounds behind it. -/
theorem on_readable_eq (some : chunk ≠ []) :
    self.on_readable chunk =
      match self.inpkt.append chunk with
      | .error error => .error (.thrown error)
      | .ok (inpkt, ncopy) =>
          if 0 < chunk.length - ncopy then
            appendLoop chunk (chunk.length - 1) (self.settle inpkt) (chunk.length - ncopy)
          else .ok (self.settle inpkt) := by
  obtain ⟨rounds, isSucc⟩ := Nat.exists_eq_add_one.mpr (List.length_pos_iff.mpr some)
  have isRounds : rounds = chunk.length - 1 := by omega
  rw [on_readable, isSucc, appendLoop, ← isSucc, isRounds, List.take_length]

/-- The first round completes the packet, or takes the whole chunk. -/
theorem first_append (inStep : InStep packets (packet :: later) started self)
    (framed : Framed packet) (stream : chunk ++ tail = packet.drop started ++ later.flatten)
    (bound : started ≤ kHdrLen ∨ chunk.length ≤ packet.length - started) :
    self.inpkt.append chunk =
      .ok ({ received := packet.take (started + min chunk.length (packet.length - started))
             pos := kHdrLen }, min chunk.length (packet.length - started)) := by
  have below := inStep.started packet later rfl
  have begun : self.inpkt = { received := packet.take started, pos := kHdrLen } := inStep.begun
  have missing : (packet.drop started).length = packet.length - started := List.length_drop
  have whole : Framed (self.inpkt.received ++ packet.drop started) := by
    rw [begun]
    dsimp only
    rwa [List.take_append_drop]
  have agrees : chunk <+: packet.drop started ∨ packet.drop started <+: chunk :=
    List.prefix_or_prefix_of_prefix ⟨tail, stream⟩ (List.prefix_append _ _)
  have appended := self.inpkt.append_framed whole agrees (by
    rw [begun, missing]
    simp only [List.length_take]
    omega)
  have beginning : chunk.take (min chunk.length (packet.length - started)) =
      (packet.drop started).take (min chunk.length (packet.length - started)) :=
    take_eq_take_of_agrees agrees (by omega) (by omega)
  rw [appended, missing, beginning, begun]
  dsimp only
  rw [List.take_add]

/-- Once a packet is whole, the next one is awaited. -/
theorem inStep_whole (inStep : InStep packets (packet :: later) started self)
    (framed : ∀ packet' ∈ packet :: later, Framed packet') :
    InStep packets later 0 (self.settle { received := packet, pos := kHdrLen }) := by
  have exact : Framed (packet ++ []) := by
    rw [List.append_nil]
    exact framed packet (by simp)
  exact inStep_dispatched inStep.split (fun packet' member => framed packet' (by simp [member]))
    ((IPacket.is_complete_framed exact).mpr rfl) rfl

theorem remaining_length (stream : chunk ++ tail = packet.drop started ++ later.flatten) :
    chunk.length - (packet.length - started) ≤ later.flatten.length := by
  have lengths := congrArg List.length stream
  rw [List.length_append, List.length_append, List.length_drop] at lengths
  omega

/-- Behind the header, a chunk with more than is missing overshoots the packet. -/
theorem overshoots {inpkt : IPacket} {ncopy : Nat}
    (inStep : InStep packets (packet :: later) started self) (framed : Framed packet)
    (some : chunk ≠ []) (beyond : packet.length - started < chunk.length)
    (late : kHdrLen < started) (appended : self.inpkt.append chunk = .ok (inpkt, ncopy)) :
    packet.length < inpkt.received.length := by
  have below := inStep.started packet later rfl
  have begun : self.inpkt = { received := packet.take started, pos := kHdrLen } := inStep.begun
  have length : self.inpkt.received.length = started := by
    rw [begun, List.length_take]
    omega
  have size : self.inpkt.pktLen = packet.length - kHdrLen := by
    have announces := framed.announces
    rw [← List.take_append_drop started packet, announced_append _ (by
      rw [List.length_take]
      omega), List.take_append_drop] at announces
    rw [IPacket.pktLen_eq, begun]
    dsimp only
    omega
  have copied := IPacket.append_behind_header (by omega) some appended
  obtain ⟨isCopy, bounded⟩ := IPacket.append_copies appended
  rw [isCopy]
  simp only [List.length_append, length, List.length_take]
  omega

theorem on_readable_benign (inStep : InStep packets (packet :: later) started self)
    (framed : ∀ packet' ∈ packet :: later, Framed packet') (some : chunk ≠ [])
    (stream : chunk ++ tail = packet.drop started ++ later.flatten)
    (benign : ChunkBenign (packet :: later) started chunk) :
    ∃ after, self.on_readable chunk = .ok after ∧
      InStep packets (advance (packet :: later) started chunk.length).1
        (advance (packet :: later) started chunk.length).2 after := by
  have below := inStep.started packet later rfl
  have appended := first_append inStep (framed packet (by simp)) stream (by
    rcases benign with inside | ⟨early, -⟩
    · exact .inr inside
    · exact .inl early)
  rw [on_readable_eq some, appended]
  dsimp only
  by_cases inside : chunk.length ≤ packet.length - started
  · rw [Nat.min_eq_left inside, if_neg (by omega)]
    exact ⟨_, rfl, inStep_advance inStep.split framed started (by omega)⟩
  · obtain ⟨-, right⟩ := benign.resolve_left inside
    have completed : started + (packet.length - started) = packet.length := by omega
    rw [Nat.min_eq_right (by omega), if_pos (by omega), completed, List.take_length]
    have settled := inStep_whole inStep framed
    obtain ⟨after, finished, inStepAfter⟩ := appendLoop_right settled.split
      (fun packet' member => framed packet' (by simp [member])) settled.fresh
      (by omega : 0 < chunk.length - (packet.length - started))
      (by omega : chunk.length - (packet.length - started) ≤ chunk.length - 1) (by omega)
      (remaining_length stream) right
    refine ⟨after, finished, ?_⟩
    rw [advance, if_neg (by omega)]
    exact inStepAfter

/-- A chunk that is not benign dooms the receiver, if the loop ends at all. -/
theorem on_readable_malign {after : Receiver}
    (inStep : InStep packets (packet :: later) started self)
    (framed : ∀ packet' ∈ packet :: later, Framed packet') (some : chunk ≠ [])
    (stream : chunk ++ tail = packet.drop started ++ later.flatten)
    (malign : ¬ ChunkBenign (packet :: later) started chunk)
    (finished : self.on_readable chunk = .ok after) : Doomed packets after := by
  have below := inStep.started packet later rfl
  obtain ⟨beyond, wrong⟩ := not_or.mp malign
  rw [on_readable_eq some] at finished
  by_cases early : started ≤ kHdrLen
  · rw [first_append inStep (framed packet (by simp)) stream (.inl early)] at finished
    dsimp only at finished
    have completed : started + (packet.length - started) = packet.length := by omega
    rw [Nat.min_eq_right (by omega), if_pos (by omega), completed, List.take_length] at finished
    have settled := inStep_whole inStep framed
    exact appendLoop_wrong settled.split
      (fun packet' member => framed packet' (by simp [member])) settled.fresh (by omega)
      (fun all => wrong ⟨early, all⟩) finished
  · split at finished
    next => contradiction
    next inpkt ncopy appended =>
      have overshot := overshoots inStep (framed packet (by simp)) some (by omega) (by omega) appended
      have doomed := doomed_settle inStep.split
        (fun _ same => by rw [same] at overshot; exact absurd overshot (Nat.lt_irrefl _))
        fun _ begun => absurd begun.length_le (by omega)
      split at finished
      · exact doomed.appendLoop finished
      · cases Except.ok.inj finished
        exact doomed

end Chunk

/-! ### All chunks -/

/-- What is still to come of the packets that are left. -/
def remainder (remaining : List Bytes) (started : Nat) : Bytes :=
  (remaining.headD []).drop started ++ remaining.tail.flatten

theorem remainder_zero (remaining : List Bytes) : remainder remaining 0 = remaining.flatten := by
  cases remaining <;> rfl

theorem remainder_advance {remaining : List Bytes} {started : Nat} (count : Nat)
    (begun : started ≤ (remaining.headD []).length) :
    remainder (advance remaining started count).1 (advance remaining started count).2 =
      (remainder remaining started).drop count := by
  induction remaining generalizing started count with
  | nil => simp [advance, remainder]
  | cons packet later inductionHypothesis =>
      have below : started ≤ packet.length := begun
      have missing : (packet.drop started).length = packet.length - started := List.length_drop
      have unfolded : remainder (packet :: later) started =
          packet.drop started ++ later.flatten := rfl
      rw [advance, unfolded]
      by_cases part : started + count < packet.length
      · rw [if_pos part, List.drop_append_of_le_length (by omega), List.drop_drop]
        rfl
      · rw [if_neg part, inductionHypothesis _ (Nat.zero_le _), remainder_zero, List.drop_append,
          List.drop_eq_nil_of_le (by omega : (packet.drop started).length ≤ count),
          List.nil_append, missing]

theorem advance_subset (remaining : List Bytes) (started count : Nat) :
    (advance remaining started count).1 ⊆ remaining := by
  induction remaining generalizing started count with
  | nil => exact List.nil_subset _
  | cons packet later inductionHypothesis =>
      rw [advance]
      split
      · exact List.Subset.refl _
      · exact List.subset_cons_of_subset _ (inductionHypothesis 0 _)

/-- A receiver in step with the stream dispatches the packets exactly when every
chunk to come is benign. -/
theorem dispatches_iff {remaining chunks : List Bytes} {started : Nat}
    (inStep : InStep packets remaining started self)
    (framed : ∀ packet ∈ remaining, Framed packet) (some : ∀ chunk ∈ chunks, chunk ≠ [])
    (stream : chunks.flatten = remainder remaining started) :
    Dispatches self packets chunks ↔ Benign remaining started chunks := by
  induction chunks generalizing self remaining started with
  | nil =>
      refine iff_of_true ⟨self, rfl, ?_⟩ trivial
      cases remaining with
      | nil => rw [inStep.split, List.append_nil]
      | cons packet later =>
          have below := inStep.started packet later rfl
          have lengths := congrArg List.length stream
          simp only [List.flatten_nil, List.length_nil, remainder, List.headD_cons,
            List.length_append, List.length_drop] at lengths
          omega
  | cons chunk rest inductionHypothesis =>
      have someChunk : chunk ≠ [] := some chunk (by simp)
      cases remaining with
      | nil =>
          refine absurd ?_ someChunk
          have none : chunk ++ rest.flatten = [] := by simpa [remainder] using stream
          exact (List.append_eq_nil_iff.mp none).1
      | cons packet later =>
          have whole : chunk ++ rest.flatten = packet.drop started ++ later.flatten := stream
          rw [Benign]
          by_cases benign : ChunkBenign (packet :: later) started chunk
          · rw [and_iff_right benign]
            obtain ⟨after, received, inStepAfter⟩ :=
              on_readable_benign inStep framed someChunk whole benign
            have streamAfter : rest.flatten = remainder
                (advance (packet :: later) started chunk.length).1
                (advance (packet :: later) started chunk.length).2 := by
              rw [remainder_advance _ (Nat.le_of_lt (inStep.started packet later rfl)), ← stream,
                List.flatten_cons, List.drop_left]
            rw [← inductionHypothesis inStepAfter
              (fun packet' member => framed packet' (advance_subset _ _ _ member))
              (fun chunk' member => some chunk' (by simp [member])) streamAfter]
            rw [Dispatches, run, received]
            rfl
          · refine iff_of_false ?_ fun all => benign all.1
            rintro ⟨final, finished, dispatched⟩
            rw [run] at finished
            split at finished
            next => contradiction
            next after received =>
              exact (on_readable_malign inStep framed someChunk whole benign
                received).not_dispatches rest ⟨final, finished, dispatched⟩

/-- The packets that were wound and sent are dispatched, each with its own header
and data, exactly when every result of `recv` is benign. -/
theorem wound_dispatches_iff {packets : List OPacket} {chunks : List Bytes}
    (built : ∀ packet ∈ packets, packet.Built) (some : ∀ chunk ∈ chunks, chunk ≠ [])
    (stream : chunks.flatten = (packets.map fun packet => packet.wind.getBuf).flatten) :
    Dispatches {} (packets.map fun packet => packet.wind.getBuf) chunks ↔
      Benign (packets.map fun packet => packet.wind.getBuf) 0 chunks := by
  have framed : ∀ bytes ∈ packets.map fun packet => packet.wind.getBuf, Framed bytes := by
    intro bytes member
    obtain ⟨packet, isPacket, rfl⟩ := List.mem_map.mp member
    have inBuffer := (built packet isPacket).inBuffer
    exact packet.wind_framed inBuffer.whole inBuffer.bounded
  refine dispatches_iff ⟨rfl, by rw [List.take_zero]; rfl, ?_⟩ framed some ?_
  · intro packet later isHead
    exact Framed.positive (framed packet (by rw [isHead]; simp))
  · rw [stream, remainder_zero]

/-- Two packets without data, each in a result of its own. -/
theorem two_headers_dispatches_iff :
    let packet := OPacket.new fun _ => 0
    Dispatches {} [packet.wind.getBuf, packet.wind.getBuf]
        [packet.wind.getBuf, packet.wind.getBuf] ↔
      Benign [packet.wind.getBuf, packet.wind.getBuf] 0
        [packet.wind.getBuf, packet.wind.getBuf] := by
  have built : ∀ packet ∈ [OPacket.new fun _ => 0, OPacket.new fun _ => 0], packet.Built := by
    simpa using OPacket.Built.new _
  refine wound_dispatches_iff built ?_ rfl
  simp only [List.mem_cons, List.not_mem_nil, or_false, or_self, forall_eq]
  exact List.ne_nil_of_length_pos (by rw [OPacket.getBuf_length]; decide)

/-- A packet of four data bytes, and one without data behind it. -/
def overshotPackets : List OPacket :=
  [((OPacket.new fun _ => 0).write_uint32 5).packet, OPacket.new fun _ => 0]

/-- The first result ends one byte into the data of the first packet. -/
def overshotChunks : List Bytes :=
  [[0x50, 0x50, 0, 0, 4, 0, 0, 0, 0, 0, 0, 0, 5],
    [0, 0, 0, 0x50, 0x50, 0, 0, 0, 0, 0, 0, 0, 0, 0, 0]]

/-- The data is cut, and `append` copies beyond its end: nothing is dispatched. -/
theorem overshotChunks_not_dispatches :
    (∀ packet ∈ overshotPackets, packet.Built) ∧ (∀ chunk ∈ overshotChunks, chunk ≠ []) ∧
      overshotChunks.flatten = (overshotPackets.map fun packet => packet.wind.getBuf).flatten ∧
      ¬ Dispatches {} (overshotPackets.map fun packet => packet.wind.getBuf) overshotChunks := by
  refine ⟨?_, by decide, by decide, ?_⟩
  · intro packet member
    rcases List.mem_pair.mp member with rfl | rfl
    · refine .call (.int .uint32 5) (.new _) ?_
      exact (Memory.writtenBelow_store (OPacket.new_invariant _).written _ _).mpr
        (.inr (by decide))
    · exact .new _
  · rintro ⟨final, finished, dispatched⟩
    have computed : run {} overshotChunks = .ok final := finished
    have nothing : run {} overshotChunks = .ok { inpkt := ⟨_, kHdrLen⟩, dispatched := [] } := rfl
    cases Except.ok.inj (computed.symm.trans nothing)
    contradiction

end Receiver

end StdPrograms.Release
