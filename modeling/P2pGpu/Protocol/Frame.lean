import P2pGpu.Data.LittleEndian
import P2pGpu.Protocol.Invariants

namespace P2pGpu.Protocol.Frame

open LittleEndian

def kProtocolVersion : UInt16 := 1
def kFrameMagic : UInt32 := 0x50324750
def kHeaderBytes : Nat := 16
def kFrameAlignment : Nat := 8
def kMaxEnvelopeBytes : UInt32 := 64 * 1024

-- The one flag that has a meaning.
def kPayloadFollows : UInt16 := 1

structure Header where
  magic : UInt32
  protocolVer : UInt16
  flags : UInt16
  fbLen : UInt32
  reserved : UInt32
deriving DecidableEq, Repr

def Header.payloadFollows (h : Header) : Bool := h.flags &&& kPayloadFollows != 0

structure FrameRegions where
  header : Header
  fb : List UInt8
  payload : List UInt8
deriving DecidableEq, Repr

-- Parses, and validates nothing.
def parseHeader : List UInt8 → Option Header
  | [m₀, m₁, m₂, m₃, v₀, v₁, f₀, f₁, l₀, l₁, l₂, l₃, r₀, r₁, r₂, r₃] =>
      some {
        magic := readU32LE m₀ m₁ m₂ m₃
        protocolVer := readU16LE v₀ v₁
        flags := readU16LE f₀ f₁
        fbLen := readU32LE l₀ l₁ l₂ l₃
        reserved := readU32LE r₀ r₁ r₂ r₃ }
  | _ => none

def encodeHeader (h : Header) : List UInt8 :=
  writeU32LE h.magic ++ writeU16LE h.protocolVer ++ writeU16LE h.flags ++ writeU32LE h.fbLen ++
    writeU32LE h.reserved

-- The address is that of the buffer in which the frame lies.
def splitFrame (address : Nat) (frame : List UInt8) : Except Error FrameRegions :=
  if frame ≠ [] ∧ address % kFrameAlignment ≠ 0 then
    .error (makeError .internal "frame buffer is not 8-byte aligned")
  else if frame.length < kHeaderBytes then
    .error (makeError .malformedMessage "frame shorter than header")
  else
    match parseHeader (frame.take kHeaderBytes) with
    | none => .error (makeError .malformedMessage "header parse failed")
    | some hdr =>
        if hdr.magic ≠ kFrameMagic then .error (makeError .malformedMessage "bad magic")
        else if hdr.protocolVer ≠ kProtocolVersion then
          .error ⟨.versionMismatch, "protocol version mismatch", true⟩
        else if kMaxEnvelopeBytes < hdr.fbLen then
          .error (makeError .payloadTooLarge "fb_len exceeds kMaxEnvelopeBytes")
        else
          let fbEnd := kHeaderBytes + hdr.fbLen.toNat
          if frame.length < fbEnd then
            .error (makeError .malformedMessage "frame shorter than declared fb_len")
          else
            let out : FrameRegions :=
              ⟨hdr, (frame.drop kHeaderBytes).take hdr.fbLen.toNat, frame.drop fbEnd⟩
            if hdr.payloadFollows && out.payload.isEmpty then
              .error (makeError .orphanPayload "payload_follows set but no payload")
            else if !hdr.payloadFollows && !out.payload.isEmpty then
              .error (makeError .orphanPayload "trailing bytes without payload_follows")
            else if hdr.reserved ≠ 0 then
              .error (makeError .malformedMessage "reserved header field is not zero")
            else if kMaxOutputBytes < out.payload.length then
              .error (makeError .payloadTooLarge "payload exceeds kMaxOutputBytes")
            else .ok out

def frameHeader (envelope payload : List UInt8) : Header where
  magic := kFrameMagic
  protocolVer := kProtocolVersion
  flags := if payload.isEmpty then 0 else kPayloadFollows
  fbLen := UInt32.ofNat envelope.length
  reserved := 0

def encodeFrame (envelope payload : List UInt8) : List UInt8 :=
  encodeHeader (frameHeader envelope payload) ++ envelope ++ payload

@[simp] theorem length_encodeHeader (h : Header) : (encodeHeader h).length = kHeaderBytes := rfl

@[simp] theorem parseHeader_encodeHeader (h : Header) : parseHeader (encodeHeader h) = some h := by
  show some _ = some h
  simp only [readU32LE_write, readU16LE_write]

@[simp] theorem take_encodeHeader (h : Header) (rest : List UInt8) :
    (encodeHeader h ++ rest).take kHeaderBytes = encodeHeader h :=
  List.take_left' (length_encodeHeader h)

theorem encodeHeader_parseHeader {bytes : List UInt8} {h : Header}
    (hparse : parseHeader bytes = some h) : encodeHeader h = bytes := by
  unfold parseHeader at hparse
  split at hparse
  · cases hparse
    simp only [encodeHeader, writeU32LE_read, writeU16LE_read]
    rfl
  · cases hparse

@[simp] theorem payloadFollows_frameHeader (envelope payload : List UInt8) :
    (frameHeader envelope payload).payloadFollows = !payload.isEmpty := by
  unfold Header.payloadFollows frameHeader
  cases payload.isEmpty
  · show (kPayloadFollows &&& kPayloadFollows != 0) = true
    decide
  · show ((0 : UInt16) &&& kPayloadFollows != 0) = false
    decide

theorem fbLen_frameHeader {envelope : List UInt8} (payload : List UInt8)
    (h : envelope.length ≤ kMaxEnvelopeBytes.toNat) :
    (frameHeader envelope payload).fbLen.toNat = envelope.length := by
  have hmax : kMaxEnvelopeBytes.toNat < UInt32.size := by decide
  exact UInt32.toNat_ofNat_of_lt' (Nat.lt_of_le_of_lt h hmax)

theorem splitFrame_encodeFrame {address : Nat} {envelope payload : List UInt8}
    (haligned : address % kFrameAlignment = 0)
    (henvelope : envelope.length ≤ kMaxEnvelopeBytes.toNat)
    (hpayload : payload.length ≤ kMaxOutputBytes) :
    splitFrame address (encodeFrame envelope payload) =
      .ok ⟨frameHeader envelope payload, envelope, payload⟩ := by
  have hlen := fbLen_frameHeader payload henvelope
  have hsize : (encodeFrame envelope payload).length =
      kHeaderBytes + envelope.length + payload.length := by
    simp [encodeFrame]
    omega
  have hhead : (encodeFrame envelope payload).take kHeaderBytes =
      encodeHeader (frameHeader envelope payload) := by
    rw [encodeFrame, List.append_assoc]
    exact take_encodeHeader _ _
  have hbody : (encodeFrame envelope payload).drop kHeaderBytes = envelope ++ payload := by
    rw [encodeFrame, List.append_assoc]
    exact List.drop_left' rfl
  have hrest : (encodeFrame envelope payload).drop (kHeaderBytes + envelope.length) = payload := by
    rw [← List.drop_drop, hbody]
    exact List.drop_left' rfl
  have hbound : ¬ kMaxEnvelopeBytes < (frameHeader envelope payload).fbLen := by
    rw [UInt32.lt_iff_toNat_lt, hlen]
    omega
  unfold splitFrame
  rw [if_neg (by simp [haligned]), if_neg (by omega), hhead, parseHeader_encodeHeader]
  dsimp only
  rw [if_neg (by simp [frameHeader]), if_neg (by simp [frameHeader]), if_neg hbound, hlen,
    if_neg (by omega), hbody, hrest, List.take_left' rfl, payloadFollows_frameHeader,
    if_neg (by simp), if_neg (by simp), if_neg (by simp [frameHeader]), if_neg (by omega)]

-- What an accepted frame is made of.
structure Accepted (frame : List UInt8) (r : FrameRegions) : Prop where
  magic : r.header.magic = kFrameMagic
  protocolVer : r.header.protocolVer = kProtocolVersion
  bound : r.header.fbLen ≤ kMaxEnvelopeBytes
  reserved : r.header.reserved = 0
  follows : r.header.payloadFollows = !r.payload.isEmpty
  fbLen : r.header.fbLen.toNat = r.fb.length
  payload : r.payload.length ≤ kMaxOutputBytes
  bytes : frame = encodeHeader r.header ++ r.fb ++ r.payload

-- What is not refused has passed the check.
theorem passes {c : Prop} [Decidable c] {e : Error} {rest : Except Error FrameRegions}
    {r : FrameRegions} (h : (if c then .error e else rest) = .ok r) : ¬c ∧ rest = .ok r := by
  by_cases hc : c
  · rw [if_pos hc] at h
    cases h
  · rw [if_neg hc] at h
    exact ⟨hc, h⟩

theorem follows_of_checks {flag empty : Bool} (horphan : ¬(flag && empty) = true)
    (hunclaimed : ¬(!flag && !empty) = true) : flag = !empty := by
  cases flag <;> cases empty
  · exact absurd rfl hunclaimed
  · rfl
  · rfl
  · exact absurd rfl horphan

theorem splitFrame_ok {address : Nat} {frame : List UInt8} {r : FrameRegions}
    (h : splitFrame address frame = .ok r) : Accepted frame r := by
  unfold splitFrame at h
  obtain ⟨-, h⟩ := passes h
  obtain ⟨-, h⟩ := passes h
  cases hparse : parseHeader (frame.take kHeaderBytes) with
  | none =>
      rw [hparse] at h
      cases h
  | some hdr =>
  rw [hparse] at h
  obtain ⟨hmagic, h⟩ := passes h
  obtain ⟨hver, h⟩ := passes h
  obtain ⟨hbound, h⟩ := passes h
  obtain ⟨hsize, h⟩ := passes h
  obtain ⟨horphan, h⟩ := passes h
  obtain ⟨hunclaimed, h⟩ := passes h
  obtain ⟨hreserved, h⟩ := passes h
  obtain ⟨hpayload, h⟩ := passes h
  cases h
  have hhead := encodeHeader_parseHeader hparse
  refine ⟨not_not.mp hmagic, not_not.mp hver, UInt32.not_lt.mp hbound, not_not.mp hreserved, ?_, ?_,
    Nat.not_lt.mp hpayload, ?_⟩
  · exact follows_of_checks horphan hunclaimed
  · simp only [List.length_take, List.length_drop]
    omega
  · rw [hhead, ← List.drop_drop, List.append_assoc, List.take_append_drop, List.take_append_drop]

-- The parser looks at one flag. The others stand in the frame as the peer sent them.
theorem flags_payloadFollows {r : FrameRegions} {frame : List UInt8} (h : Accepted frame r) :
    r.header.flags &&& kPayloadFollows = (frameHeader r.fb r.payload).flags := by
  have hbit : r.header.flags &&& kPayloadFollows = 0 ∨
      r.header.flags &&& kPayloadFollows = kPayloadFollows := by
    have hone : (r.header.flags &&& kPayloadFollows).toNat = r.header.flags.toNat % 2 ^ 1 :=
      Nat.and_two_pow_sub_one_eq_mod _ 1
    rcases Nat.mod_two_eq_zero_or_one r.header.flags.toNat with hz | ho
    · exact .inl (UInt16.toNat_inj.mp (hone.trans hz))
    · exact .inr (UInt16.toNat_inj.mp (hone.trans ho))
  have hfollows := h.follows
  unfold Header.payloadFollows at hfollows
  unfold frameHeader
  cases hp : r.payload.isEmpty with
  | true =>
      rw [hp] at hfollows
      simpa using hfollows
  | false =>
      rw [hp] at hfollows
      simpa using hbit.resolve_left (by simpa using hfollows)

theorem header_eq {r : FrameRegions} {frame : List UInt8} (h : Accepted frame r) :
    r.header = { frameHeader r.fb r.payload with flags := r.header.flags } := by
  have hlen : r.header.fbLen = UInt32.ofNat r.fb.length := by
    rw [← h.fbLen, UInt32.ofNat_toNat]
  obtain ⟨⟨magic, ver, flags, len, reserved⟩, fb, payload⟩ := r
  obtain rfl : magic = kFrameMagic := h.magic
  obtain rfl : ver = kProtocolVersion := h.protocolVer
  obtain rfl : reserved = 0 := h.reserved
  obtain rfl : len = UInt32.ofNat fb.length := hlen
  rfl

theorem flags_eq_iff {r : FrameRegions} {frame : List UInt8} (h : Accepted frame r) :
    r.header.flags = (frameHeader r.fb r.payload).flags ↔
      r.header.flags &&& ~~~kPayloadFollows = 0 := by
  have hknown := flags_payloadFollows h
  have hsplit : r.header.flags =
      r.header.flags &&& kPayloadFollows ||| r.header.flags &&& ~~~kPayloadFollows := by
    apply UInt16.toBitVec_inj.mp
    ext i hi
    simp [← Bool.and_or_distrib_left]
  constructor
  · intro hsame
    rw [hsame, frameHeader]
    dsimp only
    cases r.payload.isEmpty <;> decide
  · intro hrest
    rw [hrest, UInt16.or_zero] at hsplit
    exact hsplit.trans hknown

theorem frame_codec :
    (∀ (address : Nat) (envelope payload : List UInt8), address % kFrameAlignment = 0 →
      envelope.length ≤ kMaxEnvelopeBytes.toNat → payload.length ≤ kMaxOutputBytes →
      ∃ header, splitFrame address (encodeFrame envelope payload) =
        .ok ⟨header, envelope, payload⟩) ∧
    ∀ (address : Nat) (frame : List UInt8) (r : FrameRegions), splitFrame address frame = .ok r →
      frame = encodeHeader { frameHeader r.fb r.payload with flags := r.header.flags } ++ r.fb ++
        r.payload ∧
      r.header.flags &&& kPayloadFollows = (frameHeader r.fb r.payload).flags ∧
      (frame = encodeFrame r.fb r.payload ↔ r.header.flags &&& ~~~kPayloadFollows = 0) := by
  refine ⟨fun address envelope payload haligned henvelope hpayload =>
    ⟨_, splitFrame_encodeFrame haligned henvelope hpayload⟩, fun address frame r hok => ?_⟩
  have haccepted := splitFrame_ok hok
  have hheader := header_eq haccepted
  have hbytes : frame =
      encodeHeader { frameHeader r.fb r.payload with flags := r.header.flags } ++ r.fb ++
        r.payload := by
    rw [← hheader]
    exact haccepted.bytes
  refine ⟨hbytes, flags_payloadFollows haccepted, ?_⟩
  rw [← flags_eq_iff haccepted]
  constructor
  · intro hsame
    have hhead := congrArg (fun bytes => parseHeader (bytes.take kHeaderBytes))
      (hbytes.symm.trans hsame)
    simp only [encodeFrame, List.append_assoc, take_encodeHeader, parseHeader_encodeHeader,
      Option.some.injEq] at hhead
    have hflags := congrArg Header.flags hhead
    exact hflags
  · intro hflags
    rw [hbytes, hflags]
    rfl

-- A bare envelope, with a flag set that has no meaning.
def flagged : List UInt8 := encodeHeader { frameHeader [] [] with flags := 2 }

theorem splitFrame_flagged :
    splitFrame 0 flagged = .ok ⟨{ frameHeader [] [] with flags := 2 }, [], []⟩ := by
  rfl

theorem flagged_ne : flagged ≠ encodeFrame [] [] := by decide +kernel

theorem unknown_flag_passes :
    ¬ ((∀ (address : Nat) (envelope payload : List UInt8), address % kFrameAlignment = 0 →
      envelope.length ≤ kMaxEnvelopeBytes.toNat → payload.length ≤ kMaxOutputBytes →
      ∃ header, splitFrame address (encodeFrame envelope payload) =
        .ok ⟨header, envelope, payload⟩) ∧
    ∀ (address : Nat) (frame : List UInt8) (r : FrameRegions), splitFrame address frame = .ok r →
      frame = encodeFrame r.fb r.payload) := by
  rintro ⟨-, hall⟩
  have hsame := hall 0 flagged _ splitFrame_flagged
  exact flagged_ne hsame

theorem frame_codec_result :
    (∃ header, splitFrame 8 (encodeFrame [1, 2, 3, 4] [5]) = .ok ⟨header, [1, 2, 3, 4], [5]⟩) ∧
      flagged = encodeHeader { frameHeader [] [] with flags := 2 } ++ [] ++ [] :=
  ⟨frame_codec.1 8 [1, 2, 3, 4] [5] (by decide) (by decide) (by decide),
    (frame_codec.2 0 flagged _ splitFrame_flagged).1⟩

end P2pGpu.Protocol.Frame
