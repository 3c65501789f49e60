/-
# `Mqtt.Header` — the fixed header of a packet

Every packet begins with a control byte, type and flags, and the length of what
follows it at seven bits to a byte.  `packFixedHeader` and `unpackFixedHeader` are the
two functions of `mqtt.c`, on lists of bytes; a pointer that moves through the buffer is the
list of the bytes from it on.
-/
import SmartHome.Lib.Framing
import SmartHome.Lib.Varint
import SmartHome.Packet
import Mathlib.Tactic.Ring

namespace SmartHome.Mqtt

open Framing

/-- `uint8_t`. -/
abbrev Byte := BitVec 8

/-- `enum MQTTErrors`, the negative ones that this client can get. -/
inductive Error where
  | controlForbiddenType
  | controlInvalidFlags
  | connectClientIdRefused
  | connectNullWillMessage
  | connectForbiddenWillQos
  | connackForbiddenFlags
  | connackForbiddenCode
  | publishForbiddenQos
  | subscribeTooManyTopics
  | malformedResponse
  | unsubscribeTooManyTopics
  | responseInvalidControlType
  | connectNotCalled
  | sendBufferIsFull
  | socketError
  | malformedRequest
  | recvBufferTooSmall
  | ackOfUnknown
  | connectionRefused
  | subscribeFailed
  | invalidRemainingLength
  | cleanSessionIsRequired
  deriving DecidableEq, Repr

/-- `enum MQTTControlPacketType`. -/
inductive ControlType where
  | connect
  | connack
  | publish
  | puback
  | pubrec
  | pubrel
  | pubcomp
  | subscribe
  | suback
  | unsubscribe
  | unsuback
  | pingreq
  | pingresp
  | disconnect
  deriving DecidableEq, Repr

/-- The value of the enumerator. -/
def ControlType.code : ControlType → BitVec 4
  | .connect => 1
  | .connack => 2
  | .publish => 3
  | .puback => 4
  | .pubrec => 5
  | .pubrel => 6
  | .pubcomp => 7
  | .subscribe => 8
  | .suback => 9
  | .unsubscribe => 10
  | .unsuback => 11
  | .pingreq => 12
  | .pingresp => 13
  | .disconnect => 14

def ControlType.all : List ControlType :=
  [.connect, .connack, .publish, .puback, .pubrec, .pubrel, .pubcomp, .subscribe, .suback,
    .unsubscribe, .unsuback, .pingreq, .pingresp, .disconnect]

/-- The case of a `switch` over the type. -/
def ControlType.ofCode (c : BitVec 4) : Option ControlType :=
  ControlType.all.find? fun t => t.code == c

@[simp] theorem ControlType.ofCode_code (t : ControlType) : ControlType.ofCode t.code = some t := by
  cases t <;> decide

theorem ControlType.code_of_ofCode {c : BitVec 4} {t : ControlType}
    (h : ControlType.ofCode c = some t) : t.code = c := by
  simpa using List.find?_some (show ControlType.all.find? (fun t => t.code == c) = some t from h)

/-- `struct mqtt_fixed_header`.  The type is whatever stands in the upper half of the control
byte, an enumerator or not. -/
structure FixedHeader where
  controlType : BitVec 4
  controlFlags : BitVec 4
  remainingLength : Nat
  deriving DecidableEq, Repr

/-! ## `mqtt_fixed_header_rules` -/

def controlTypeIsValid : List Bool :=
  [false, true, true, true, true, true, true, true,
    true, true, true, true, true, true, true, false]

def requiredFlags : List (BitVec 4) :=
  [0, 0, 0, 0, 0, 0, 2, 0, 2, 0, 2, 0, 0, 0, 0, 0]

def maskRequiredFlags : List (BitVec 4) :=
  [0, 15, 15, 0, 15, 15, 15, 15, 15, 15, 15, 15, 15, 15, 15, 0]

/-- `MQTT_BITFIELD_RULE_VIOLOATION`. -/
def bitfieldRuleViolation (bitfield ruleValue ruleMask : BitVec 4) : BitVec 4 :=
  (bitfield ^^^ ruleValue) &&& ruleMask

def fixedHeaderRuleViolation (fixedHeader : FixedHeader) : Option Error :=
  let controlType := fixedHeader.controlType.toNat
  let requiredFlags := requiredFlags.getD controlType 0
  let maskRequiredFlags := maskRequiredFlags.getD controlType 0
  if controlTypeIsValid.getD controlType false = false then
    some .controlForbiddenType
  else if bitfieldRuleViolation fixedHeader.controlFlags requiredFlags maskRequiredFlags ≠ 0 then
    some .controlInvalidFlags
  else
    none

/-- The flags a packet of this type carries: a publish has its own, the others fixed ones. -/
def ControlType.FlagsOk (t : ControlType) (flags : BitVec 4) : Prop :=
  t = .publish ∨ flags = requiredFlags.getD t.code.toNat 0

instance (t : ControlType) (flags : BitVec 4) : Decidable (t.FlagsOk flags) :=
  inferInstanceAs (Decidable (_ ∨ _))

theorem ruleViolation_eq_none {t : ControlType} {flags : BitVec 4} (h : t.FlagsOk flags) (n : Nat) :
    fixedHeaderRuleViolation ⟨t.code, flags, n⟩ = none := by
  revert h
  show t.FlagsOk flags → fixedHeaderRuleViolation ⟨t.code, flags, 0⟩ = none
  revert flags
  cases t <;> decide

/-! ## Packing -/

/-- The `ssize_t` of a packing function, and the bytes it leaves in the buffer: an error; zero, with
what it has written of the header by then; or the number of the bytes of the packet. -/
inductive Packed where
  | failed (e : Error)
  | full (written : List Byte)
  | wrote (bytes : List Byte)
  deriving DecidableEq, Repr

def Packed.IsFull : Packed → Prop
  | .full _ => True
  | .failed _ | .wrote _ => False

instance : DecidablePred Packed.IsFull
  | .full _ => isTrue trivial
  | .failed _ | .wrote _ => isFalse id

/-- The packet is longer than the buffer. -/
def Packed.Overruns (bufsz : Nat) : Packed → Prop
  | .wrote bytes => bufsz < bytes.length
  | .failed _ | .full _ => False

instance (bufsz : Nat) : DecidablePred (Packed.Overruns bufsz)
  | .wrote bytes => inferInstanceAs (Decidable (bufsz < bytes.length))
  | .failed _ | .full _ => isFalse id

/-- The first byte of the header. -/
def controlByte (fixedHeader : FixedHeader) : Byte :=
  ((fixedHeader.controlType.setWidth 8 <<< 4) &&& 0xF0) |||
    (fixedHeader.controlFlags.setWidth 8 &&& 0x0F)

/-- One byte of the length. -/
def lengthByte (remainingLength : Nat) : Byte :=
  let byte : Byte := BitVec.ofNat 8 (remainingLength &&& 0x7F)
  if 127 < remainingLength then byte ||| 0x80 else byte

/-- The loop over the bytes of the length, when `bufsz` bytes are left from the byte before it on:
the bytes written, and whether they are all. -/
def packRemainingLength : (bufsz : Nat) → (remainingLength : Nat) → List Byte × Bool
  | 0, _ => ([], false)
  | bufsz + 1, remainingLength =>
      if bufsz = 0 then
        ([], false)
      else
        let byte := lengthByte remainingLength
        if byte &&& 0x80 ≠ 0 then
          let (bytes, all) := packRemainingLength bufsz (remainingLength >>> 7)
          (byte :: bytes, all)
        else
          ([byte], true)

def packFixedHeader (bufsz : Nat) (fixedHeader : FixedHeader) : Packed :=
  match fixedHeaderRuleViolation fixedHeader with
  | some e => .failed e
  | none =>
      if bufsz = 0 then
        .full []
      else if 256 * 1024 * 1024 ≤ fixedHeader.remainingLength then
        -- the control byte is there by now
        .failed .invalidRemainingLength
      else
        match packRemainingLength bufsz fixedHeader.remainingLength with
        | (bytes, false) => .full (controlByte fixedHeader :: bytes)
        | (bytes, true) =>
            -- what is left behind the header has to hold the rest of the packet
            if bufsz - 1 - bytes.length < fixedHeader.remainingLength then
              .full (controlByte fixedHeader :: bytes)
            else
              .wrote (controlByte fixedHeader :: bytes)

/-! ## Unpacking -/

/-- The loop over the bytes of the length; the bytes are those behind the one it stands on.
The answer is the length and how many bytes of it there were. -/
def unpackRemainingLength (lshift remainingLength : Nat) : List Byte → Scan Error Nat
  | [] => if lshift = 28 then .failed .invalidRemainingLength else .more
  | byte :: rest =>
      if lshift = 28 then
        .failed .invalidRemainingLength
      else
        let remainingLength := remainingLength + ((byte &&& 0x7F).toNat <<< lshift)
        if byte &&& 0x80 ≠ 0 then
          match unpackRemainingLength (lshift + 7) remainingLength rest with
          | .failed e => .failed e
          | .more => .more
          | .frame n used => .frame n (used + 1)
        else
          .frame remainingLength 1

def unpackFixedHeader : List Byte → Scan Error FixedHeader
  | [] => .more
  | control :: rest =>
      match unpackRemainingLength 0 0 rest with
      | .failed e => .failed e
      | .more => .more
      | .frame remainingLength used =>
          let fixedHeader : FixedHeader :=
            { controlType := (control >>> 4).setWidth 4
              controlFlags := (control &&& 0x0F).setWidth 4
              remainingLength }
          match fixedHeaderRuleViolation fixedHeader with
          | some e => .failed e
          | none =>
              if rest.length - used < remainingLength then
                .more
              else
                .frame fixedHeader (1 + used)

/-! ## The bytes of the length -/

/-- The bytes write this length. -/
def IsLength (n : Nat) (bytes : List Byte) : Prop :=
  Varint.Encodes 128 n (bytes.map BitVec.toNat)

theorem lengthByte_of_lt : ∀ n < 128, (lengthByte n).toNat = n := by
  decide +kernel

theorem lengthByte_of_ge {n : Nat} (h : 128 ≤ n) : (lengthByte n).toNat = n % 128 + 128 := by
  have hmask : n &&& 0x7F = n % 128 := Nat.and_two_pow_sub_one_eq_mod n 7
  have htable : ∀ m < 128, (BitVec.ofNat 8 m ||| 0x80).toNat = m + 128 := by decide +kernel
  rw [← htable (n % 128) (Nat.mod_lt n (by decide))]
  simp only [lengthByte, hmask, if_pos (show 127 < n from h)]

theorem continueBit_eq_zero_iff (byte : Byte) : byte &&& 0x80 = 0 ↔ byte.toNat < 128 := by
  revert byte
  decide +kernel

theorem lowBits (byte : Byte) : (byte &&& 0x7F).toNat = byte.toNat % 128 := by
  rw [BitVec.toNat_and]
  exact Nat.and_two_pow_sub_one_eq_mod byte.toNat 7

theorem isLength_of_lt {n : Nat} (h : n < 128) : IsLength n [lengthByte n] := by
  show Varint.Encodes 128 n [(lengthByte n).toNat]
  rw [lengthByte_of_lt n h]
  exact .last h

theorem isLength_cons_iff {n : Nat} {bytes : List Byte} (h : 128 ≤ n) :
    IsLength n (lengthByte n :: bytes) ↔ IsLength (n / 128) bytes := by
  show Varint.Encodes 128 n ((lengthByte n).toNat :: bytes.map BitVec.toNat) ↔ _
  rw [Varint.encodes_cons_iff h, lengthByte_of_ge h]
  exact and_iff_right rfl

theorem IsLength.unique {n : Nat} {bytes bytes' : List Byte} (h : IsLength n bytes)
    (h' : IsLength n bytes') : bytes = bytes' :=
  List.map_injective_iff.mpr (fun _ _ => BitVec.eq_of_toNat_eq) (Varint.Encodes.unique h h')

theorem exists_isLength (n : Nat) : ∃ bytes, IsLength n bytes := by
  obtain ⟨ds, hds⟩ := Varint.exists_encodes (by decide : 1 < 128) n
  have hbytes : (ds.map (BitVec.ofNat 8)).map BitVec.toNat = ds := by
    rw [List.map_map]
    refine (List.map_congr_left ?_).trans (List.map_id ds)
    intro d hd
    have hlt := hds.digit_lt (by decide) d hd
    show (BitVec.ofNat 8 d).toNat = d
    rw [BitVec.toNat_ofNat]
    omega
  refine ⟨ds.map (BitVec.ofNat 8), ?_⟩
  rw [IsLength, hbytes]
  exact hds

theorem IsLength.length_pos {n : Nat} {bytes : List Byte} (h : IsLength n bytes) :
    0 < bytes.length := by
  simpa using Varint.Encodes.length_pos h

theorem IsLength.length_le_four_iff {n : Nat} {bytes : List Byte} (h : IsLength n bytes) :
    bytes.length ≤ 4 ↔ n < 256 * 1024 * 1024 := by
  simpa using Varint.Encodes.length_le_iff (by decide) h 3

/-- The number of the bytes is the size that `packetSize` counts with. -/
theorem IsLength.length_eq {n : Nat} {bytes : List Byte} (h : IsLength n bytes) :
    bytes.length = lengthBytes n := by
  induction n using Nat.strong_induction_on generalizing bytes with
  | _ n ih =>
      rw [lengthBytes]
      by_cases hn : 127 < n
      · obtain ⟨rest, hrest⟩ := exists_isLength (n / 128)
        have hsplit := h.unique ((isLength_cons_iff hn).mpr hrest)
        rw [if_pos hn, hsplit, List.length_cons, Nat.shiftRight_eq_div_pow,
          ih (n / 128) (Nat.div_lt_self (by omega) (by decide)) hrest, Nat.add_comm]
      · rw [if_neg hn, h.unique (isLength_of_lt (by omega)), List.length_singleton]

theorem packRemainingLength_eq {n : Nat} {bytes : List Byte} (h : IsLength n bytes) (bufsz : Nat) :
    packRemainingLength bufsz n = (bytes.take (bufsz - 1), decide (bytes.length < bufsz)) := by
  induction bufsz generalizing n bytes with
  | zero => rfl
  | succ bufsz ih =>
      have hpos := h.length_pos
      by_cases hroom : bufsz = 0
      · subst hroom
        rw [packRemainingLength, if_pos rfl, decide_eq_false (by omega)]
        rfl
      obtain ⟨room, rfl⟩ : ∃ room, bufsz = room + 1 := ⟨bufsz - 1, by omega⟩
      rw [packRemainingLength, if_neg hroom, Nat.add_sub_cancel]
      by_cases hn : n < 128
      · have hstop : lengthByte n &&& 0x80 = 0 := by
          rw [continueBit_eq_zero_iff, lengthByte_of_lt n hn]
          exact hn
        obtain rfl : bytes = [lengthByte n] := h.unique (isLength_of_lt hn)
        rw [decide_eq_true (by simp only [List.length_singleton]; omega)]
        simp only [hstop, ne_eq, not_true_eq_false, if_false, List.take_succ_cons, List.take_nil]
      · have hge : 128 ≤ n := Nat.not_lt.mp hn
        have hgo : lengthByte n &&& 0x80 ≠ 0 := by
          rw [ne_eq, continueBit_eq_zero_iff, lengthByte_of_ge hge]
          omega
        obtain ⟨rest, hrest⟩ := exists_isLength (n / 128)
        obtain rfl : bytes = lengthByte n :: rest := h.unique ((isLength_cons_iff hge).mpr hrest)
        simp only [hgo, ne_eq, not_false_eq_true, if_true, Nat.shiftRight_eq_div_pow, ih hrest,
          Nat.add_sub_cancel, List.take_succ_cons, List.length_cons, Nat.add_lt_add_iff_right]

/-! ## Reading the length back -/

theorem unpackRemainingLength_of_isLength {n : Nat} {bytes : List Byte} (h : IsLength n bytes)
    {lshift acc : Nat} (hfit : lshift + 7 * bytes.length ≤ 28) (rest : List Byte) :
    unpackRemainingLength lshift acc (bytes ++ rest) =
      .frame (acc + n <<< lshift) bytes.length := by
  induction bytes generalizing n lshift acc with
  | nil => exact absurd h.length_pos (Nat.lt_irrefl 0)
  | cons byte bytes ih =>
      simp only [List.length_cons] at hfit
      rw [List.cons_append, unpackRemainingLength, if_neg (by omega)]
      by_cases hn : n < 128
      · obtain ⟨rfl, rfl⟩ := List.cons.inj (h.unique (isLength_of_lt hn))
        have hstop : lengthByte n &&& 0x80 = 0 := by
          rw [continueBit_eq_zero_iff, lengthByte_of_lt n hn]
          exact hn
        simp only [hstop, ne_eq, not_true_eq_false, if_false, lowBits, lengthByte_of_lt n hn,
          Nat.mod_eq_of_lt hn, List.length_singleton]
      · have hge : 128 ≤ n := Nat.not_lt.mp hn
        obtain ⟨tail, htail⟩ := exists_isLength (n / 128)
        obtain ⟨rfl, rfl⟩ := List.cons.inj (h.unique ((isLength_cons_iff hge).mpr htail))
        have hgo : lengthByte n &&& 0x80 ≠ 0 := by
          rw [ne_eq, continueBit_eq_zero_iff, lengthByte_of_ge hge]
          omega
        have hlow : (lengthByte n &&& 0x7F).toNat = n % 128 := by
          rw [lowBits, lengthByte_of_ge hge]
          omega
        have hsum : (n % 128) <<< lshift + (n / 128) <<< (lshift + 7) = n <<< lshift := by
          simp only [Nat.shiftLeft_eq, Nat.pow_add]
          calc n % 128 * 2 ^ lshift + n / 128 * (2 ^ lshift * 2 ^ 7)
              = (128 * (n / 128) + n % 128) * 2 ^ lshift := by ring
            _ = n * 2 ^ lshift := by rw [Nat.div_add_mod]
        have hfit' : lshift + 7 + 7 * bytes.length ≤ 28 := by omega
        simp only [hgo, ne_eq, not_false_eq_true, if_true, hlow, ih htail hfit',
          List.length_cons, Nat.add_assoc, hsum]

theorem unpackRemainingLength_used {lshift acc n used : Nat} {xs : List Byte}
    (h : unpackRemainingLength lshift acc xs = .frame n used) : 0 < used ∧ used ≤ xs.length := by
  induction xs generalizing lshift acc used with
  | nil =>
      rw [unpackRemainingLength] at h
      split at h <;> cases h
  | cons byte xs ih =>
      simp only [unpackRemainingLength] at h
      split at h
      · cases h
      split at h
      · split at h
        · cases h
        · cases h
        · rename_i used' hrest
          cases h
          obtain ⟨hpos, hle⟩ := ih hrest
          exact ⟨by omega, by simpa using hle⟩
      · cases h
        exact ⟨by omega, by simp⟩

theorem unpackRemainingLength_settled {lshift acc : Nat} {xs : List Byte}
    (h : unpackRemainingLength lshift acc xs ≠ .more) (ys : List Byte) :
    unpackRemainingLength lshift acc (xs ++ ys) = unpackRemainingLength lshift acc xs := by
  induction xs generalizing lshift acc with
  | nil =>
      by_cases hlast : lshift = 28
      · cases ys <;> simp [unpackRemainingLength, hlast]
      · exact absurd (by rw [unpackRemainingLength, if_neg hlast]) h
  | cons byte xs ih =>
      rw [List.cons_append]
      simp only [unpackRemainingLength] at h ⊢
      by_cases hlast : lshift = 28
      · simp [hlast]
      by_cases hgo : byte &&& 0x80 = 0
      · simp only [hlast, hgo, if_false, ne_eq, not_true_eq_false]
      · simp only [hlast, hgo, if_false, ne_eq, not_false_eq_true, if_true] at h ⊢
        rw [ih ?_]
        intro hmore
        rw [hmore] at h
        exact h rfl

/-! ## Header out, header in -/

@[simp] theorem controlType_controlByte (h : FixedHeader) :
    (controlByte h >>> 4).setWidth 4 = h.controlType := by
  have htable : ∀ t flags : BitVec 4,
      (controlByte ⟨t, flags, 0⟩ >>> 4).setWidth 4 = t := by decide +kernel
  exact htable h.controlType h.controlFlags

@[simp] theorem controlFlags_controlByte (h : FixedHeader) :
    (controlByte h &&& 0x0F).setWidth 4 = h.controlFlags := by
  have htable : ∀ t flags : BitVec 4,
      (controlByte ⟨t, flags, 0⟩ &&& 0x0F).setWidth 4 = flags := by decide +kernel
  exact htable h.controlType h.controlFlags

/-- The bytes are the header. -/
structure IsHeader (h : FixedHeader) (bytes : List Byte) : Prop where
  rule : fixedHeaderRuleViolation h = none
  bound : h.remainingLength < 256 * 1024 * 1024
  bytes : ∃ length, IsLength h.remainingLength length ∧ bytes = controlByte h :: length

theorem IsHeader.length_eq {h : FixedHeader} {bytes : List Byte} (hh : IsHeader h bytes) :
    bytes.length = 1 + lengthBytes h.remainingLength := by
  obtain ⟨length, hlength, rfl⟩ := hh.bytes
  rw [List.length_cons, hlength.length_eq, Nat.add_comm]

/-- `mqtt_pack_fixed_header` writes the header as far as the buffer reaches; it returns zero where
the buffer does not hold the whole packet. -/
theorem IsHeader.pack {h : FixedHeader} {bytes : List Byte} (hh : IsHeader h bytes)
    (bufsz : Nat) :
    packFixedHeader bufsz h =
      if bytes.length + h.remainingLength ≤ bufsz then .wrote bytes
      else .full (bytes.take bufsz) := by
  obtain ⟨length, hlength, rfl⟩ := hh.bytes
  have hbound := hh.bound
  simp only [packFixedHeader, hh.rule, List.length_cons]
  cases bufsz with
  | zero =>
      rw [if_pos rfl, if_neg (by omega)]
      rfl
  | succ bufsz =>
      rw [if_neg (Nat.succ_ne_zero bufsz), if_neg (by omega), packRemainingLength_eq hlength,
        Nat.add_sub_cancel]
      by_cases hlt : length.length < bufsz + 1
      · rw [decide_eq_true hlt, List.take_of_length_le (Nat.lt_succ_iff.mp hlt),
          List.take_of_length_le (show (controlByte h :: length).length ≤ bufsz + 1 from hlt)]
        show (if bufsz - length.length < h.remainingLength then _ else _) = _
        split
        · rw [if_neg (by omega)]
        · rw [if_pos (by omega)]
      · rw [decide_eq_false hlt, if_neg (by omega)]
        rfl

theorem exists_isHeader {h : FixedHeader} (hrule : fixedHeaderRuleViolation h = none)
    (hbound : h.remainingLength < 256 * 1024 * 1024) : ∃ bytes, IsHeader h bytes := by
  obtain ⟨length, hlength⟩ := exists_isLength h.remainingLength
  exact ⟨_, hrule, hbound, length, hlength, rfl⟩

theorem IsHeader.unpack {h : FixedHeader} {bytes : List Byte} (hh : IsHeader h bytes)
    (rest : List Byte) :
    unpackFixedHeader (bytes ++ rest) =
      if rest.length < h.remainingLength then .more else .frame h bytes.length := by
  obtain ⟨length, hlength, rfl⟩ := hh.bytes
  have hfour := hlength.length_le_four_iff.mpr hh.bound
  have hread : unpackRemainingLength 0 0 (length ++ rest) =
      .frame (0 + h.remainingLength <<< 0) length.length :=
    unpackRemainingLength_of_isLength hlength (by omega) rest
  have hleft : (length ++ rest).length - length.length = rest.length := by
    rw [List.length_append, Nat.add_sub_cancel_left]
  rw [Nat.zero_add, Nat.shiftLeft_zero] at hread
  simp only [List.cons_append, unpackFixedHeader, hread, controlType_controlByte,
    controlFlags_controlByte, hh.rule, hleft, List.length_cons, Nat.add_comm 1]

/-- **The fixed header comes back as it went out.** What `mqtt_pack_fixed_header` writes leaves
room for the rest of the packet, and `mqtt_unpack_fixed_header` reads the same header from it as
soon as that rest is there, whatever the bytes behind it are. -/
theorem unpackFixedHeader_packFixedHeader {bufsz : Nat} {h : FixedHeader} {header : List Byte}
    (hpack : packFixedHeader bufsz h = .wrote header) (rest : List Byte) :
    header.length = 1 + lengthBytes h.remainingLength ∧
      header.length + h.remainingLength ≤ bufsz ∧
      unpackFixedHeader (header ++ rest) =
        if rest.length < h.remainingLength then .more else .frame h header.length := by
  have hrule : fixedHeaderRuleViolation h = none := by
    cases hrule : fixedHeaderRuleViolation h with
    | none => rfl
    | some e =>
        simp only [packFixedHeader, hrule] at hpack
        cases hpack
  have hbound : h.remainingLength < 256 * 1024 * 1024 := by
    refine Nat.not_le.mp fun hle => ?_
    simp only [packFixedHeader, hrule, if_pos hle] at hpack
    split at hpack <;> cases hpack
  obtain ⟨header', hheader⟩ := exists_isHeader hrule hbound
  rw [hheader.pack] at hpack
  split at hpack
  · rename_i hroom
    cases hpack
    exact ⟨hheader.length_eq, hroom, hheader.unpack rest⟩
  · cases hpack

theorem unpackFixedHeader_packFixedHeader_321 :
    ([0x30, 0xC1, 0x02] : List Byte).length = 1 + lengthBytes 321 ∧
      ([0x30, 0xC1, 0x02] : List Byte).length + 321 ≤ 2048 ∧
      unpackFixedHeader ([0x30, 0xC1, 0x02] ++ [0x00]) = .more :=
  unpackFixedHeader_packFixedHeader (h := ⟨3, 0, 321⟩) (by decide) [0x00]

theorem unpackFixedHeader_used {xs : List Byte} {h : FixedHeader} {used : Nat}
    (hs : unpackFixedHeader xs = .frame h used) :
    1 < used ∧ used + h.remainingLength ≤ xs.length ∧ fixedHeaderRuleViolation h = none := by
  unfold unpackFixedHeader at hs
  split at hs
  · cases hs
  split at hs
  · cases hs
  · cases hs
  rename_i control rest n used' hread
  obtain ⟨hpos, hle⟩ := unpackRemainingLength_used hread
  simp only at hs
  split at hs
  · cases hs
  rename_i hrule
  split at hs
  · cases hs
  · cases hs
    refine ⟨by omega, ?_, hrule⟩
    simp only [List.length_cons]
    omega

theorem unpackFixedHeader_settled {xs : List Byte} (h : unpackFixedHeader xs ≠ .more)
    (ys : List Byte) : unpackFixedHeader (xs ++ ys) = unpackFixedHeader xs := by
  cases xs with
  | nil => exact absurd rfl h
  | cons control rest =>
      have hread : unpackRemainingLength 0 0 rest ≠ .more := by
        intro hmore
        exact h (by rw [unpackFixedHeader, hmore])
      rw [List.cons_append]
      simp only [unpackFixedHeader, unpackRemainingLength_settled hread ys] at h ⊢
      cases hlen : unpackRemainingLength 0 0 rest with
      | failed e => rfl
      | more => rfl
      | frame n used =>
          simp only [hlen] at h ⊢
          split at h
          · rfl
          split at h
          · exact absurd rfl h
          · rename_i hroom
            obtain ⟨_, hle⟩ := unpackRemainingLength_used hlen
            have hroom' : ¬ (rest ++ ys).length - used < n := by
              rw [List.length_append]
              omega
            rw [if_neg hroom, if_neg hroom']

end SmartHome.Mqtt
