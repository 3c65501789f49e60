/-
# `Mqtt.Queue` — the queue of messages to send

`sendbuf` holds the packets from the front and, from the end downwards, one
`struct mqtt_queued_message` for each.  `MessageQueue` is that layout, with the functions of
`mqtt.c` on it; `Queue` is the list of messages it stands for.  The two agree on every operation,
and packets and headers never meet (`run_tracks`).
-/
import SmartHome.Lib.Arena
import SmartHome.Lib.Entries
import SmartHome.Mqtt.Header

namespace SmartHome.Mqtt

open Arena Entries

/-- `enum MQTTQueuedMessageState`. -/
inductive MessageState where
  | unsent
  | awaitingAck
  | complete
  deriving DecidableEq, Repr

/-- `struct mqtt_queued_message`, without its pointer and size. -/
structure Status where
  state : MessageState
  timeSent : Nat
  controlType : ControlType
  /-- whatever the memory held, where the control type has none -/
  packetId : BitVec 16
  deriving DecidableEq, Repr

/-- `struct mqtt_queued_message`; the pointer is an offset in the block. -/
abbrev QueuedMessage := Slot Status

/-- A queued message with the bytes it points at. -/
abbrev Message := Record Byte Status

def Status.IsComplete (s : Status) : Prop := s.state = .complete

instance (s : Status) : Decidable s.IsComplete := inferInstanceAs (Decidable (_ = _))

/-- The condition in `mqtt_mq_find`.  Without a packet id a complete message is passed over, with
one it is not. -/
def Status.Matches (controlType : ControlType) (packetId : Option (BitVec 16)) (s : Status) :
    Prop :=
  s.controlType = controlType ∧
    (packetId = none ∧ s.state ≠ .complete ∨ packetId = some s.packetId)

instance (controlType : ControlType) (packetId : Option (BitVec 16)) (s : Status) :
    Decidable (s.Matches controlType packetId) :=
  inferInstanceAs (Decidable (_ ∧ _))

/-! ## The block -/

/-- `struct mqtt_message_queue`: the bytes from `mem_start` to `curr`, and the headers from
`mem_end` down to `queue_tail`. -/
structure MessageQueue where
  memSize : Nat
  /-- `sizeof(struct mqtt_queued_message)` -/
  entrySize : Nat
  mem : List Byte
  entries : List QueuedMessage

/-- `mqtt_mq_currsz`, from the offsets of `queue_tail` and `curr`. -/
def currSz (memSize entrySize curr length : Nat) : Nat :=
  let queueTail := memSize - entrySize * length
  if queueTail - entrySize ≤ curr then 0 else queueTail - entrySize - curr

namespace MessageQueue

def init (memSize entrySize : Nat) : MessageQueue := ⟨memSize, entrySize, [], []⟩

def currSz (mq : MessageQueue) : Nat :=
  Mqtt.currSz mq.memSize mq.entrySize mq.mem.length mq.entries.length

/-- The packet is in place at `curr`; `mqtt_mq_register`, and what the caller sets in the
header. -/
def register (mq : MessageQueue) (bytes : List Byte) (status : Status) : MessageQueue :=
  { mq with
    mem := mq.mem ++ bytes
    entries := mq.entries ++ [⟨mq.mem.length, bytes.length, status⟩] }

/-- Where the loop over the headers goes on. -/
def isComplete (e : QueuedMessage) : Bool := decide e.tag.IsComplete

/-- `mqtt_mq_clean`: the complete messages at the head go, the others move up. -/
def clean (mq : MessageQueue) : MessageQueue :=
  let newHead := (mq.entries.takeWhile isComplete).length
  match mq.entries.drop newHead with
  | [] => { mq with mem := [], entries := [] }
  | head :: rest =>
      if newHead = 0 then
        mq
      else
        { mq with
          mem := mq.mem.drop head.start
          entries := (head :: rest).map (Slot.back head.start) }

/-- `mqtt_mq_find`: the index of the message. -/
def find (mq : MessageQueue) (controlType : ControlType) (packetId : Option (BitVec 16)) :
    Option Nat :=
  mq.entries.findIdx? fun e => e.tag.Matches controlType packetId

/-- An assignment to the header of message `i`. -/
def update (mq : MessageQueue) (i : Nat) (f : Status → Status) : MessageQueue :=
  { mq with entries := mq.entries.modify i fun e => { e with tag := f e.tag } }

/-- `msg->start[0] |= flags`. -/
def orFirst (mq : MessageQueue) (i : Nat) (flags : Byte) : MessageQueue :=
  match mq.entries[i]? with
  | none => mq
  | some e => { mq with mem := mq.mem.modify e.start (· ||| flags) }

end MessageQueue

/-! ## The list -/

/-- The messages in the queue, oldest first. -/
structure Queue where
  memSize : Nat
  entrySize : Nat
  messages : List Message

namespace Queue

def init (memSize entrySize : Nat) : Queue := ⟨memSize, entrySize, []⟩

def currSz (mq : Queue) : Nat :=
  Mqtt.currSz mq.memSize mq.entrySize (used mq.messages) mq.messages.length

def register (mq : Queue) (bytes : List Byte) (status : Status) : Queue :=
  { mq with messages := mq.messages ++ [⟨bytes, status⟩] }

def clean (mq : Queue) : Queue :=
  { mq with messages := mq.messages.dropWhile fun m => m.tag.IsComplete }

def find (mq : Queue) (controlType : ControlType) (packetId : Option (BitVec 16)) : Option Nat :=
  mq.messages.findIdx? fun m => m.tag.Matches controlType packetId

def update (mq : Queue) (i : Nat) (f : Status → Status) : Queue :=
  { mq with messages := mq.messages.modify i fun m => { m with tag := f m.tag } }

def orFirst (mq : Queue) (i : Nat) (flags : Byte) : Queue :=
  { mq with
    messages := mq.messages.modify i fun m => { m with bytes := m.bytes.modify 0 (· ||| flags) } }

end Queue

theorem Queue.matches_of_find {mq : Queue} {controlType : ControlType}
    {packetId : Option (BitVec 16)}
    {i : Nat} (h : mq.find controlType packetId = some i) {m : Message}
    (hm : mq.messages[i]? = some m) : m.tag.Matches controlType packetId := by
  obtain ⟨hi, hmatch, _⟩ := List.findIdx?_eq_some_iff_getElem.mp h
  rw [List.getElem?_eq_getElem hi] at hm
  cases hm
  exact of_decide_eq_true hmatch

theorem Queue.ne_of_find_eq_none {mq : Queue} {controlType : ControlType} {packetId : BitVec 16}
    (h : mq.find controlType (some packetId) = none) {m : Message} (hm : m ∈ mq.messages)
    (htype : m.tag.controlType = controlType) : m.tag.packetId ≠ packetId := by
  intro hid
  have hnot := List.findIdx?_eq_none_iff.mp h m hm
  exact of_decide_eq_false hnot ⟨htype, .inr (congrArg some hid.symm)⟩

/-! ## The block stands for the list -/

/-- The block holds the messages, one behind the other from its start, and the headers have
their place behind them. -/
structure MessageQueue.Holds (mq : MessageQueue) (q : Queue) : Prop where
  memSize : mq.memSize = q.memSize
  entrySize : mq.entrySize = q.entrySize
  laid : Laid 0 mq.entries mq.mem.length
  messages : contents mq.mem mq.entries = q.messages
  room : mq.mem.length + mq.entrySize * mq.entries.length ≤ mq.memSize

namespace MessageQueue.Holds

variable {mq : MessageQueue} {q : Queue}

theorem init (memSize entrySize : Nat) :
    (MessageQueue.init memSize entrySize).Holds (.init memSize entrySize) where
  memSize := rfl
  entrySize := rfl
  laid := rfl
  messages := rfl
  room := Nat.zero_le _

theorem length (h : mq.Holds q) : mq.entries.length = q.messages.length := by
  rw [← h.messages, contents, List.length_map]

theorem currSz (h : mq.Holds q) : mq.currSz = q.currSz := by
  have hused := h.laid.used (Nat.le_refl _)
  rw [h.messages, Nat.zero_add] at hused
  rw [MessageQueue.currSz, Queue.currSz, h.memSize, h.entrySize, h.length, hused]

theorem register (h : mq.Holds q) {bytes : List Byte} (hfit : bytes.length ≤ mq.currSz)
    (hpos : 0 < bytes.length) (status : Status) :
    (mq.register bytes status).Holds (q.register bytes status) where
  memSize := h.memSize
  entrySize := h.entrySize
  laid := h.laid.append bytes status
  messages := by
    rw [Queue.register, ← h.messages]
    exact contents_append h.laid bytes status
  room := by
    have hroom := h.room
    simp only [MessageQueue.currSz, Mqtt.currSz] at hfit
    simp only [MessageQueue.register, List.length_append, List.length_singleton, Nat.mul_add]
    split at hfit <;> omega

theorem clean (h : mq.Holds q) : mq.clean.Holds q.clean := by
  have hsplit : mq.entries.takeWhile isComplete ++ mq.entries.dropWhile isComplete = mq.entries :=
    List.takeWhile_append_dropWhile
  have hdrop : mq.entries.drop (mq.entries.takeWhile isComplete).length =
      mq.entries.dropWhile isComplete := by
    conv_lhs => rw [← hsplit]
    rw [List.drop_left' (by rw [hsplit])]
  have hmessages : q.clean.messages = contents mq.mem (mq.entries.dropWhile isComplete) := by
    rw [Queue.clean, ← h.messages, contents, contents, List.dropWhile_map]
    rfl
  obtain ⟨m, hlaid, hrest⟩ := laid_append.mp (hsplit.symm ▸ h.laid)
  have hroom := h.room
  unfold MessageQueue.clean
  simp only [hdrop]
  cases hdw : mq.entries.dropWhile isComplete with
  | nil =>
      rw [hdw] at hmessages
      exact ⟨h.memSize, h.entrySize, rfl, hmessages.symm, Nat.zero_le _⟩
  | cons head rest =>
      rw [hdw] at hmessages hrest hsplit
      obtain ⟨rfl, -⟩ := id hrest
      by_cases hzero : (mq.entries.takeWhile isComplete).length = 0
      · have hnil := List.eq_nil_of_length_eq_zero hzero
        rw [hnil, List.nil_append] at hsplit
        rw [hsplit] at hmessages
        simp only [hzero, if_true]
        exact ⟨h.memSize, h.entrySize, h.laid, hmessages.symm, hroom⟩
      · simp only [hzero, if_false]
        refine ⟨h.memSize, h.entrySize, ?_, ?_, ?_⟩
        · have hback := hrest.back (Nat.le_refl head.start)
          rw [Nat.sub_self] at hback
          rw [List.length_drop]
          exact hback
        · rw [hmessages]
          exact contents_back hrest
        · have hlen : rest.length + 1 ≤ mq.entries.length := by
            rw [← hsplit, List.length_append, List.length_cons]
            omega
          have hmul := Nat.mul_le_mul_left mq.entrySize hlen
          simp only [List.length_drop, List.length_map, List.length_cons]
          omega

theorem find (h : mq.Holds q) (controlType : ControlType) (packetId : Option (BitVec 16)) :
    mq.find controlType packetId = q.find controlType packetId := by
  rw [MessageQueue.find, Queue.find, ← h.messages, contents, List.findIdx?_map]
  rfl

theorem update (h : mq.Holds q) (i : Nat) (f : Status → Status) :
    (mq.update i f).Holds (q.update i f) where
  memSize := h.memSize
  entrySize := h.entrySize
  laid := (laid_modify_tag f i).mpr h.laid
  messages := by
    rw [Queue.update, ← h.messages]
    exact contents_modify_tag f i
  room := by
    rw [MessageQueue.update, List.length_modify]
    exact h.room

theorem orFirst (h : mq.Holds q) {i : Nat} (hpos : ∀ m ∈ q.messages, 0 < m.bytes.length)
    (flags : Byte) : (mq.orFirst i flags).Holds (q.orFirst i flags) := by
  unfold MessageQueue.orFirst
  cases hi : mq.entries[i]? with
  | none =>
      have hlen : q.messages.length ≤ i := by
        rw [← h.length]
        exact List.getElem?_eq_none_iff.mp hi
      have hsame : q.orFirst i flags = q := by
        rw [Queue.orFirst, List.modify_eq_self hlen]
      rw [hsame]
      exact h
  | some e =>
      have hmem : e.record mq.mem ∈ q.messages := by
        rw [← h.messages]
        exact List.mem_map_of_mem (List.mem_of_getElem? hi)
      have hsize : 0 < e.size := by
        have hlen := hpos _ hmem
        rw [Slot.record, Slot.bytes, List.length_take] at hlen
        omega
      refine ⟨h.memSize, h.entrySize, ?_, ?_, ?_⟩
      · rw [List.length_modify]
        exact h.laid
      · rw [Queue.orFirst, ← h.messages]
        exact contents_modify h.laid hi hsize _
      · rw [List.length_modify]
        exact h.room

end MessageQueue.Holds

/-! ## Whole runs -/

/-- What the client does to its queue.  A packet is registered where it has been packed, into
`curr_sz` bytes. -/
inductive QueueOp where
  | register (bytes : List Byte) (status : Status)
  | clean
  | update (i : Nat) (f : Status → Status)
  | orFirst (i : Nat) (flags : Byte)

def Fits (bytes : List Byte) (currSz : Nat) : Prop := 0 < bytes.length ∧ bytes.length ≤ currSz

instance (bytes : List Byte) (currSz : Nat) : Decidable (Fits bytes currSz) :=
  inferInstanceAs (Decidable (_ ∧ _))

def MessageQueue.apply (mq : MessageQueue) : QueueOp → Option MessageQueue
  | .register bytes status =>
      if Fits bytes mq.currSz then some (mq.register bytes status) else none
  | .clean => some mq.clean
  | .update i f => some (mq.update i f)
  | .orFirst i flags => some (mq.orFirst i flags)

def Queue.apply (mq : Queue) : QueueOp → Option Queue
  | .register bytes status =>
      if Fits bytes mq.currSz then some (mq.register bytes status) else none
  | .clean => some mq.clean
  | .update i f => some (mq.update i f)
  | .orFirst i flags => some (mq.orFirst i flags)

def MessageQueue.run (mq : MessageQueue) : List QueueOp → Option MessageQueue
  | [] => some mq
  | op :: ops => (mq.apply op).bind fun mq => mq.run ops

def Queue.run (mq : Queue) : List QueueOp → Option Queue
  | [] => some mq
  | op :: ops => (mq.apply op).bind fun mq => mq.run ops

def Queue.Filled (q : Queue) : Prop := ∀ m ∈ q.messages, 0 < m.bytes.length

theorem Queue.Filled.register {q : Queue} (h : q.Filled) {bytes : List Byte}
    (hpos : 0 < bytes.length) (status : Status) : (q.register bytes status).Filled := by
  intro m hm
  rcases List.mem_append.mp hm with hm | hm
  · exact h m hm
  · rw [List.mem_singleton.mp hm]
    exact hpos

theorem Queue.Filled.clean {q : Queue} (h : q.Filled) : q.clean.Filled := fun m hm =>
  h m ((List.dropWhile_suffix _).subset hm)

theorem Queue.Filled.update {q : Queue} (h : q.Filled) (i : Nat) (f : Status → Status) :
    (q.update i f).Filled :=
  forall_mem_modify (P := fun m : Message => 0 < m.bytes.length) h fun _ hm => hm

theorem Queue.Filled.orFirst {q : Queue} (h : q.Filled) (i : Nat) (flags : Byte) :
    (q.orFirst i flags).Filled := by
  refine forall_mem_modify (P := fun m : Message => 0 < m.bytes.length) h ?_
  intro m hm
  rw [List.length_modify]
  exact hm

/-- The block holds the list, in a buffer of this size. -/
structure Tracks (memSize entrySize : Nat) (mq : MessageQueue) (q : Queue) : Prop where
  holds : mq.Holds q
  filled : q.Filled
  size : mq.memSize = memSize ∧ mq.entrySize = entrySize

variable {memSize entrySize : Nat} {mq : MessageQueue} {q : Queue}

theorem Tracks.clean_size : mq.clean.memSize = mq.memSize ∧ mq.clean.entrySize = mq.entrySize := by
  unfold MessageQueue.clean
  dsimp only
  split
  · exact ⟨rfl, rfl⟩
  · split <;> exact ⟨rfl, rfl⟩

theorem Tracks.orFirst_size (i : Nat) (flags : Byte) :
    (mq.orFirst i flags).memSize = mq.memSize ∧
      (mq.orFirst i flags).entrySize = mq.entrySize := by
  unfold MessageQueue.orFirst
  split <;> exact ⟨rfl, rfl⟩

theorem apply_refines (h : Tracks memSize entrySize mq q) (op : QueueOp) :
    Option.Rel (Tracks memSize entrySize) (mq.apply op) (q.apply op) := by
  cases op with
  | register bytes status =>
      simp only [MessageQueue.apply, Queue.apply, h.holds.currSz]
      by_cases hfit : Fits bytes q.currSz
      · have hroom : bytes.length ≤ mq.currSz := by
          rw [h.holds.currSz]
          exact hfit.2
        rw [if_pos hfit, if_pos hfit]
        exact .some ⟨h.holds.register hroom hfit.1 status, h.filled.register hfit.1 status, h.size⟩
      · rw [if_neg hfit, if_neg hfit]
        exact .none
  | clean =>
      refine .some ⟨h.holds.clean, h.filled.clean, ?_⟩
      rw [Tracks.clean_size.1, Tracks.clean_size.2]
      exact h.size
  | update i f => exact .some ⟨h.holds.update i f, h.filled.update i f, h.size⟩
  | orFirst i flags =>
      refine .some ⟨h.holds.orFirst h.filled flags, h.filled.orFirst i flags, ?_⟩
      rw [(Tracks.orFirst_size i flags).1, (Tracks.orFirst_size i flags).2]
      exact h.size

theorem rel_bind {α β γ δ : Type} {r : α → β → Prop} {t : γ → δ → Prop} {x : Option α}
    {y : Option β} {f : α → Option γ} {g : β → Option δ} (h : Option.Rel r x y)
    (hfg : ∀ a b, r a b → Option.Rel t (f a) (g b)) : Option.Rel t (x.bind f) (y.bind g) := by
  cases h with
  | none => exact .none
  | some hab => exact hfg _ _ hab

theorem exists_of_rel {α β : Type} {r : α → β → Prop} {x : Option α} {b : β}
    (h : Option.Rel r x (some b)) : ∃ a, x = some a ∧ r a b := by
  cases x with
  | none => cases h
  | some a =>
      cases h with
      | some hab => exact ⟨a, rfl, hab⟩

theorem Tracks.init (memSize entrySize : Nat) :
    Tracks memSize entrySize (.init memSize entrySize) (.init memSize entrySize) :=
  ⟨.init memSize entrySize, nofun, rfl, rfl⟩

/-- **The block is a list.** Any operations go through on the block as they do on the list of
messages, and leave the two in step. -/
theorem run_tracks (h : Tracks memSize entrySize mq q) (ops : List QueueOp) :
    Option.Rel (Tracks memSize entrySize) (mq.run ops) (q.run ops) := by
  induction ops generalizing mq q with
  | nil => exact .some h
  | cons op ops ih => exact rel_bind (apply_refines h op) fun _ _ hq => ih hq

end SmartHome.Mqtt
