import Adventure.Proofs.Save.Record
/-! Frames taken apart. Just the framed payloads are accepted, and of other bytes the first thing that is wrong is
reported. A record is so long as its header says, so no part of it and nothing longer is a record. -/
namespace Adventure.Save

open MessagePack (Bytes bigEndian ofBigEndian length_bigEndian bigEndian_ofBigEndian ofBigEndian_lt)

/-! ### What is accepted and what is refused -/

/-- A header of the present version with as many bytes behind it as it says. -/
structure Frames (header : Header) (payload bytes : Bytes) : Prop where
  bytes : bytes = header.encode ++ payload
  version : header.version = currentVersion
  length : header.length.toNat = payload.length

/-- What is wrong with bytes that frame nothing. Whatever is checked before it is in order. -/
inductive Refuses : Bytes → Error → Prop where
  | truncated {bytes : Bytes} (h : bytes.length < headerLength) : Refuses bytes .truncatedHeader
  | magic {tag : Bytes} {version code : UInt16} {length : UInt32} {rest : Bytes} (htag : tag.length = 4)
      (hne : tag ≠ magic) : Refuses (fieldBytes tag version code length ++ rest) .badMagic
  | version {version code : UInt16} {length : UInt32} {rest : Bytes} (hne : version ≠ currentVersion) :
      Refuses (fieldBytes magic version code length ++ rest) (.unsupportedVersion version)
  | kind {code : UInt16} {length : UInt32} {rest : Bytes} (hne : ∀ kind, code ≠ RecordKind.code kind) :
      Refuses (fieldBytes magic currentVersion code length ++ rest) (.unknownRecordKind code)
  | length {kind : RecordKind} {length : UInt32} {payload : Bytes} (hne : length.toNat ≠ payload.length) :
      Refuses (fieldBytes magic currentVersion kind.code length ++ payload) (.lengthMismatch length payload.length)

variable {bytes tag rest payload : Bytes} {header : Header} {kind : RecordKind} {version code : UInt16}
  {length : UInt32} {e : Error}

/-! ### The fields of a header -/

theorem RecordKind.ofCode?_eq_some_iff : ofCode? code = some kind ↔ code = kind.code := by
  refine ⟨fun h => ?_, fun h => h ▸ ofCode?_code kind⟩
  unfold ofCode? at h
  split at h
  · next hcode => cases h; exact beq_iff_eq.1 hcode
  · split at h
    · next hcode => cases h; exact beq_iff_eq.1 hcode
    · cases h

theorem RecordKind.ofCode?_eq_none_iff : ofCode? code = none ↔ ∀ kind, code ≠ RecordKind.code kind := by
  rw [Option.eq_none_iff_forall_ne_some]
  exact forall_congr' fun kind => not_congr ofCode?_eq_some_iff

/-- Any twelve bytes are the fields of some header. -/
theorem exists_fieldBytes (h : headerLength ≤ bytes.length) : ∃ tag version code length rest,
    tag.length = 4 ∧ bytes = fieldBytes tag version code length ++ rest := by
  have hfield : ∀ start width, start + width ≤ headerLength →
      bigEndian width (ofBigEndian ((bytes.drop start).take width)) = (bytes.drop start).take width ∧
        ofBigEndian ((bytes.drop start).take width) < MessagePack.span width := by
    intro start width hle
    have hwidth : ((bytes.drop start).take width).length = width := by
      rw [List.length_take, List.length_drop]
      omega
    have hsame := bigEndian_ofBigEndian ((bytes.drop start).take width)
    have hlt := ofBigEndian_lt ((bytes.drop start).take width)
    rw [hwidth] at hsame hlt
    exact ⟨hsame, hlt⟩
  obtain ⟨hversion, hversionLt⟩ := hfield 4 2 (by decide)
  obtain ⟨hcode, hcodeLt⟩ := hfield 6 2 (by decide)
  obtain ⟨hlength, hlengthLt⟩ := hfield 8 4 (by decide)
  refine ⟨bytes.take 4, .ofNat (ofBigEndian ((bytes.drop 4).take 2)), .ofNat (ofBigEndian ((bytes.drop 6).take 2)),
    .ofNat (ofBigEndian ((bytes.drop 8).take 4)), bytes.drop headerLength, ?_, ?_⟩
  · rw [List.length_take]
    exact Nat.min_eq_left (Nat.le_trans (by decide) h)
  · rw [fieldBytes, UInt16.toNat_ofNat_of_lt' hversionLt, UInt16.toNat_ofNat_of_lt' hcodeLt,
      UInt32.toNat_ofNat_of_lt' hlengthLt, hversion, hcode, hlength, ← List.take_add, ← List.take_add,
      ← List.take_add, headerLength, List.take_append_drop]

/-! ### Taking a frame apart -/

theorem decodeEnvelope_of_error (h : Header.decode bytes = .error e) : decodeEnvelope bytes = .error e := by
  simp [decodeEnvelope, h, bind, Except.bind]

theorem Frames.decodeEnvelope_eq (h : Frames header payload bytes) : decodeEnvelope bytes = .ok (header, payload) := by
  rw [h.bytes]
  exact decodeEnvelope_append h.version h.length.symm

theorem Refuses.decodeEnvelope_eq (h : Refuses bytes e) : decodeEnvelope bytes = .error e := by
  cases h with
  | truncated h => exact decodeEnvelope_of_error (if_pos h)
  | magic htag hne =>
      refine decodeEnvelope_of_error ?_
      rw [Header.decode_fieldBytes htag, if_pos hne]
  | version hne =>
      refine decodeEnvelope_of_error ?_
      rw [Header.decode_fieldBytes rfl, if_neg (not_not_intro rfl), if_pos hne]
  | kind hne =>
      refine decodeEnvelope_of_error ?_
      rw [Header.decode_fieldBytes rfl, if_neg (not_not_intro rfl), if_neg (not_not_intro rfl),
        RecordKind.ofCode?_eq_none_iff.2 hne]
  | @length kind length payload hne =>
      have hdecode := Header.decode_encode_append (h := ⟨currentVersion, kind, length⟩) rfl payload
      have hpayload : (fieldBytes Save.magic currentVersion kind.code length ++ payload).drop headerLength = payload :=
        List.drop_left' (length_fieldBytes rfl _ _ _)
      rw [Header.encode_eq] at hdecode
      rw [decodeEnvelope_of_ok hdecode, hpayload, if_neg (Ne.symm hne)]

/-- Bytes frame a payload, or something is wrong with them. -/
theorem frames_or_refuses (bytes : Bytes) :
    (∃ header payload, Frames header payload bytes) ∨ ∃ e, Refuses bytes e := by
  by_cases hshort : bytes.length < headerLength
  · exact .inr ⟨_, .truncated hshort⟩
  · obtain ⟨tag, version, code, length, rest, htag, rfl⟩ := exists_fieldBytes (Nat.not_lt.1 hshort)
    by_cases hmagic : tag = magic
    · subst hmagic
      by_cases hversion : version = currentVersion
      · subst hversion
        cases hcode : RecordKind.ofCode? code with
        | none => exact .inr ⟨_, .kind (RecordKind.ofCode?_eq_none_iff.1 hcode)⟩
        | some kind =>
            obtain rfl := RecordKind.ofCode?_eq_some_iff.1 hcode
            by_cases hlength : length.toNat = rest.length
            · exact .inl ⟨⟨currentVersion, kind, length⟩, rest, rfl, rfl, hlength⟩
            · exact .inr ⟨_, .length hlength⟩
      · exact .inr ⟨_, .version hversion⟩
    · exact .inr ⟨_, .magic htag hmagic⟩

theorem decodeEnvelope_eq_ok_iff : decodeEnvelope bytes = .ok (header, payload) ↔ Frames header payload bytes := by
  refine ⟨fun h => ?_, Frames.decodeEnvelope_eq⟩
  rcases frames_or_refuses bytes with ⟨header', payload', hframes⟩ | ⟨e, hrefuses⟩
  · cases hframes.decodeEnvelope_eq.symm.trans h
    exact hframes
  · cases hrefuses.decodeEnvelope_eq.symm.trans h

theorem decodeEnvelope_eq_error_iff : decodeEnvelope bytes = .error e ↔ Refuses bytes e := by
  refine ⟨fun h => ?_, Refuses.decodeEnvelope_eq⟩
  rcases frames_or_refuses bytes with ⟨header, payload, hframes⟩ | ⟨e', hrefuses⟩
  · cases hframes.decodeEnvelope_eq.symm.trans h
  · cases hrefuses.decodeEnvelope_eq.symm.trans h
    exact hrefuses

/-! ### Records -/

theorem frames_of_encodeEnvelope (h : encodeEnvelope kind payload = .ok bytes) :
    Frames ⟨currentVersion, kind, .ofNat payload.length⟩ payload bytes := by
  unfold encodeEnvelope at h
  split at h
  · next hlt => cases h; exact ⟨rfl, rfl, UInt32.toNat_ofNat_of_lt' hlt⟩
  · cases h

/-- Whatever stands behind a header in place of its payload has to have the same length. -/
theorem Frames.replaced (h : Frames header payload bytes) {other : Bytes} (hlength : other.length ≠ payload.length) :
    decodeEnvelope (header.encode ++ other) = .error (.lengthMismatch header.length other.length) := by
  have hne : header.length.toNat ≠ other.length := by
    rw [h.length]
    exact hlength.symm
  rw [Header.encode_eq, h.version]
  exact (Refuses.length hne).decodeEnvelope_eq

theorem Frames.cut_short (h : Frames header payload bytes) {n : Nat} (hn : n < bytes.length) :
    decodeEnvelope (bytes.take n) = .error
      (if n < headerLength then .truncatedHeader else .lengthMismatch header.length (n - headerLength)) := by
  have htake : (bytes.take n).length = n := by
    rw [List.length_take]
    omega
  split
  · next hshort => exact (Refuses.truncated (by rwa [htake])).decodeEnvelope_eq
  · next hlong =>
    have hpayload : (payload.take (n - headerLength)).length = n - headerLength := by
      rw [h.bytes, List.length_append, header.length_encode] at hn
      rw [List.length_take]
      omega
    have hbytes : bytes.take n = header.encode ++ payload.take (n - headerLength) := by
      rw [h.bytes, List.take_append, header.length_encode, List.take_of_length_le]
      rw [header.length_encode]
      exact Nat.not_lt.1 hlong
    rw [hbytes, h.replaced ?_, hpayload]
    rw [h.bytes, List.length_append, header.length_encode] at hn
    omega

theorem Frames.drawn_out (h : Frames header payload bytes) {more : Bytes} (hmore : more ≠ []) :
    decodeEnvelope (bytes ++ more) = .error (.lengthMismatch header.length (payload.length + more.length)) := by
  have hlength : (payload ++ more).length ≠ payload.length := by
    simpa using hmore
  rw [h.bytes, List.append_assoc, h.replaced hlength, List.length_append]

/-- Just the framed payloads are accepted. Other bytes are refused for the first thing that is wrong with them, and
no part of a record nor anything longer is a record. -/
theorem decodeEnvelope_frames (bytes : Bytes) :
    (∀ header payload, decodeEnvelope bytes = .ok (header, payload) ↔ Frames header payload bytes) ∧
      (∀ e, decodeEnvelope bytes = .error e ↔ Refuses bytes e) ∧
      ∀ kind v, encodeRecord kind v = .ok bytes →
        decodeEnvelope bytes = .ok (⟨currentVersion, kind, .ofNat v.encode.length⟩, v.encode) ∧
        (∀ n < bytes.length, decodeEnvelope (bytes.take n) = .error
          (if n < headerLength then .truncatedHeader
            else .lengthMismatch (.ofNat v.encode.length) (n - headerLength))) ∧
        ∀ more, more ≠ [] → decodeEnvelope (bytes ++ more) =
          .error (.lengthMismatch (.ofNat v.encode.length) (v.encode.length + more.length)) := by
  refine ⟨fun _ _ => decodeEnvelope_eq_ok_iff, fun _ => decodeEnvelope_eq_error_iff, fun kind v h => ?_⟩
  have hframes := frames_of_encodeEnvelope h
  exact ⟨hframes.decodeEnvelope_eq, fun n hn => hframes.cut_short hn, fun more hmore => hframes.drawn_out hmore⟩

def chimeValue : MessagePack.Value :=
  .array [.text [0x68, 0x69], .nil]

def chimeRecord : Bytes :=
  [0x47, 0x4C, 0x55, 0x45, 0, 1, 0, 2, 0, 0, 0, 5, 0x92, 0xA2, 0x68, 0x69, 0xC0]

/-- The version, the kind and the length are wrong. -/
def spoiltRecord : Bytes :=
  [0x47, 0x4C, 0x55, 0x45, 2, 3, 0, 9, 0, 0, 0, 5]

theorem decodeEnvelope_frames_chime :
    encodeRecord .interpreter chimeValue = .ok chimeRecord ∧
      decodeEnvelope chimeRecord = .ok (⟨1, .interpreter, 5⟩, [0x92, 0xA2, 0x68, 0x69, 0xC0]) ∧
      decodeEnvelope (chimeRecord.take 11) = .error .truncatedHeader ∧
      decodeEnvelope (chimeRecord.take 14) = .error (.lengthMismatch 5 2) ∧
      decodeEnvelope (chimeRecord ++ [0, 0]) = .error (.lengthMismatch 5 7) ∧
      decodeEnvelope spoiltRecord = .error (.unsupportedVersion 0x203) := by
  have hencode : encodeRecord .interpreter chimeValue = .ok chimeRecord := by decide +kernel
  obtain ⟨-, -, hrecord⟩ := decodeEnvelope_frames chimeRecord
  obtain ⟨hdecode, hcut, hdrawn⟩ := hrecord _ _ hencode
  have hspoilt := ((decodeEnvelope_frames spoiltRecord).2.1 (.unsupportedVersion 0x203)).2
    (@Refuses.version 0x203 9 5 [] (by decide))
  exact ⟨hencode, hdecode, hcut 11 (by decide), hcut 14 (by decide), hdrawn [0, 0] (by decide), hspoilt⟩

end Adventure.Save
