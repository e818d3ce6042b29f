import Mathlib.Data.List.Nodup
import Adventure.Save.State
import Adventure.Proofs.Save.MessagePack
/-! Records come back as they were saved: each field from its name, each record from its frame. -/
namespace Adventure

theorem Text.decode?_encode (s : String) : decode? (encode s) = some s := by
  have hbytes : (⟨(encode s).toArray⟩ : ByteArray) = s.toUTF8 := by simp [encode]
  rw [decode?, hbytes, String.fromUTF8?, String.toUTF8_eq_toByteArray, dif_pos s.isValidUTF8]
  rfl

theorem Text.encode_inj {a b : String} (h : encode a = encode b) : a = b := by
  have hdecode := congrArg decode? h
  rw [decode?_encode, decode?_encode] at hdecode
  exact Option.some.inj hdecode

namespace MessagePack.Value

/-! ### Fields -/

@[simp] theorem toText?_ofText (s : String) : (ofText s).toText? = some s :=
  Text.decode?_encode s

theorem toNat?_ofNat {max n : Nat} (h : n ≤ max) (hmax : max < UInt64.size) :
    (ofNat n).toNat? max = some n := by
  have hn : n.toUInt64.toNat = n := by
    simpa [Nat.toUInt64] using Nat.mod_eq_of_lt (Nat.lt_of_le_of_lt h hmax)
  rw [ofNat, toNat?, hn, if_pos h]

@[simp] theorem toUInt8?_ofNat (n : UInt8) : (ofNat n.toNat).toUInt8? = some n := by
  rw [toUInt8?, toNat?_ofNat (Nat.le_sub_one_of_lt n.toNat_lt) (by decide), Option.map_some, Nat.toUInt8,
    UInt8.ofNat_toNat]

@[simp] theorem toUInt16?_ofNat (n : UInt16) : (ofNat n.toNat).toUInt16? = some n := by
  rw [toUInt16?, toNat?_ofNat (Nat.le_sub_one_of_lt n.toNat_lt) (by decide), Option.map_some,
    Nat.toUInt16, UInt16.ofNat_toNat]

@[simp] theorem toUInt32?_ofNat (n : UInt32) : (ofNat n.toNat).toUInt32? = some n := by
  rw [toUInt32?, toNat?_ofNat (Nat.le_sub_one_of_lt n.toNat_lt) (by decide), Option.map_some,
    Nat.toUInt32, UInt32.ofNat_toNat]

@[simp] theorem toUInt64?_ofNat (n : UInt64) : (ofNat n.toNat).toUInt64? = some n := by
  rw [toUInt64?, toNat?_ofNat (Nat.le_sub_one_of_lt n.toNat_lt) (by decide), Option.map_some,
    Nat.toUInt64, UInt64.ofNat_toNat]

@[simp] theorem toBool?_bool (b : Bool) : (bool b).toBool? = some b := rfl

theorem toList?_ofList {α : Type} {f : α → Value} {g : Value → Option α} (h : ∀ a, g (f a) = some a)
    (as : List α) : (ofList f as).toList? g = some as := by
  rw [ofList, toList?, items?, Option.bind_eq_bind, Option.bind_some]
  induction as with
  | nil => rfl
  | cons a as ih => simp [h, ih]

theorem toPair?_array {α β : Type} {f : Value → Option α} {g : Value → Option β} {v w : Value} {a : α}
    {b : β} (hv : f v = some a) (hw : g w = some b) : (array [v, w]).toPair? f g = some (a, b) := by
  simp [toPair?, row?, hv, hw]

theorem toOption?_of_ne_nil {α : Type} {f : Value → Option α} {v : Value} {a : α} (hnil : v ≠ .nil)
    (h : f v = some a) : v.toOption? f = some (some a) := by
  cases v with
  | nil => exact absurd rfl hnil
  | _ => simp only [toOption?, h, Option.map_some]

/-! ### Records -/

theorem key_ofText {names : List String} (h : names.Nodup) {index : Nat} {name : String}
    (hname : names[index]? = some name) : key names (ofText name) = .field index := by
  have hfind : names.findIdx? (fun n => Text.encode n == Text.encode name) = some index := by
    obtain ⟨hlt, rfl⟩ := List.getElem?_eq_some_iff.1 hname
    rw [List.findIdx?_eq_some_iff_getElem]
    refine ⟨hlt, beq_self_eq_true _, fun j hj => ?_⟩
    have hne : names[j] ≠ names[index] := by
      intro heq
      exact absurd ((List.Nodup.getElem_inj_iff h).1 heq) (Nat.ne_of_lt hj)
    simpa using fun heq => hne (Text.encode_inj heq)
  simp only [ofText, key, key.named, hfind]

theorem placeEntries_record {done rest : List (String × Value)}
    (h : ((done ++ rest).map Prod.fst).Nodup) :
    placeEntries ((done ++ rest).map Prod.fst)
      (done.map (fun field => some field.2) ++ rest.map fun _ => none)
      (rest.map fun (name, v) => (ofText name, v)) =
        some ((done ++ rest).map fun field => some field.2) := by
  induction rest generalizing done with
  | nil => simp [placeEntries]
  | cons field rest ih =>
      obtain ⟨name, v⟩ := field
      have hname : ((done ++ (name, v) :: rest).map Prod.fst)[done.length]? = some name := by simp
      have hplace := @ih (done ++ [(name, v)]) (by simpa using h)
      simp only [List.map_cons, placeEntries, key_ofText h hname]
      simpa using hplace

theorem fields?_record {fields : List (String × Value)} {names : List String}
    (hnames : fields.map Prod.fst = names) (h : names.Nodup) :
    (record fields).fields? names = some (fields.map fun field => some field.2) := by
  subst hnames
  have hplace := @placeEntries_record [] fields h
  rw [record, fields?, List.map_map]
  exact hplace

end MessagePack.Value

open MessagePack (Value)

/-! ### Saved games -/

theorem Script.RoomTransition.ofValue?_toValue (t : RoomTransition) : ofValue? t.toValue = some t := by
  have hfields : t.toValue.fields? ["current", "previous"] = some _ := Value.fields?_record rfl (by simp)
  rw [ofValue?, hfields]
  simp

theorem Script.WaitTag.toUInt8?_code (tag : WaitTag) :
    (Value.ofNat tag.code).toUInt8? = some tag.code.toUInt8 := by
  cases tag <;> rfl

theorem Script.WaitTag.ofCode?_code (tag : WaitTag) : ofCode? (tag.code % 256) = some tag := by
  cases tag <;> rfl

theorem Script.SavedScript.ofValue?_toValue (s : SavedScript) : ofValue? s.toValue = some s := by
  have hfields : s.toValue.fields? ["signature", "wait", "delay_remaining_ms"] = some _ :=
    Value.fields?_record rfl (by simp)
  rw [ofValue?, hfields]
  simp [WaitTag.toUInt8?_code, WaitTag.ofCode?_code]

theorem Script.SoundBinding.ofValue?_toValue (b : SoundBinding) : ofValue? b.toValue = some b := by
  have hfields : b.toValue.fields? ["id", "variable"] = some _ := Value.fields?_record rfl (by simp)
  rw [ofValue?, hfields]
  simp

theorem Script.InterpreterState.ofValue?_toValue (s : InterpreterState) :
    ofValue? s.toValue = some s := by
  have hfields : s.toValue.fields? ["queue", "sound_bindings"] = some _ :=
    Value.fields?_record rfl (by simp)
  rw [ofValue?, hfields]
  simp [Value.toList?_ofList SavedScript.ofValue?_toValue, Value.toList?_ofList SoundBinding.ofValue?_toValue]

theorem toLine?_lineValue (entry : String × UInt32) : toLine? (lineValue entry) = some entry :=
  Value.toPair?_array (Value.toText?_ofText entry.1) (Value.toUInt32?_ofNat entry.2)

theorem RandomVariable.ofValue?_toValue (r : RandomVariable) : ofValue? r.toValue = some r := by
  have hfields : r.toValue.fields? ["name", "max"] = some _ := Value.fields?_record rfl (by simp)
  rw [ofValue?, hfields]
  simp

theorem VariableSnapshot.toEntry?_entryValue (entry : String × UInt8) :
    toEntry? (entryValue entry) = some entry :=
  Value.toPair?_array (Value.toText?_ofText entry.1) (Value.toUInt8?_ofNat entry.2)

theorem VariableSnapshot.ofValue?_toValue (s : VariableSnapshot) : ofValue? s.toValue = some s := by
  have hfields :
      s.toValue.fields? ["globals", "locals", "local_names", "randoms", "last_changed"] = some _ :=
    Value.fields?_record rfl (by simp)
  rw [ofValue?, hfields]
  simp [Value.toList?_ofList toEntry?_entryValue, Value.toList?_ofList Value.toText?_ofText,
    Value.toList?_ofList RandomVariable.ofValue?_toValue]

theorem ConversationSnapshot.ofValue?_toValue (s : ConversationSnapshot) : ofValue? s.toValue = some s := by
  have hfields : s.toValue.fields? ["name", "current", "visible", "destroyed"] = some _ :=
    Value.fields?_record rfl (by simp)
  have hcurrent : (Value.ofOption (fun n => .ofNat n.toNat) s.current).toOption? Value.toUInt32? =
      some s.current := by
    cases s.current with
    | none => rfl
    | some n => exact Value.toOption?_of_ne_nil nofun (Value.toUInt32?_ofNat n)
  rw [ofValue?, hfields]
  simp [hcurrent, Value.toList?_ofList Value.toBool?_bool]

theorem SaveState.ofValue?_toValue (s : SaveState) : ofValue? s.toValue = some s := by
  have hfields :
      s.toValue.fields? ["rooms", "variables", "script_lines", "interpreter", "conversation"] = some _ :=
    Value.fields?_record rfl (by simp)
  have hconversation : (Value.ofOption ConversationSnapshot.toValue s.conversation).toOption?
      ConversationSnapshot.ofValue? = some s.conversation := by
    cases s.conversation with
    | none => rfl
    | some c => exact Value.toOption?_of_ne_nil nofun c.ofValue?_toValue
  rw [ofValue?, hfields]
  simp [Script.RoomTransition.ofValue?_toValue, VariableSnapshot.ofValue?_toValue,
    Script.InterpreterState.ofValue?_toValue, Value.toList?_ofList toLine?_lineValue, hconversation]

theorem InterpreterRecord.ofValue?_toValue (r : InterpreterRecord) : ofValue? r.toValue = some r := by
  have hpair := Value.toPair?_array (Script.InterpreterState.ofValue?_toValue r.state)
    (Value.toList?_ofList toLine?_lineValue r.lines)
  simp [ofValue?, toValue, hpair]

/-! ### Depths -/

namespace MessagePack.Value

theorem shallow_ofText (depth : Nat) (s : String) : (ofText s).Shallow (depth + 1) := trivial

theorem shallow_ofNat (depth n : Nat) : (ofNat n).Shallow (depth + 1) := trivial

theorem shallow_record {depth : Nat} {fields : List (String × Value)}
    (h : ∀ field ∈ fields, field.2.Shallow (depth + 1)) : (record fields).Shallow (depth + 2) := by
  refine ⟨Nat.succ_ne_zero depth, fun e he => ?_⟩
  obtain ⟨field, hfield, rfl⟩ := List.mem_map.1 he
  exact ⟨shallow_ofText depth field.1, h field hfield⟩

theorem shallow_ofList {α : Type} {depth : Nat} {f : α → Value} (h : ∀ a, (f a).Shallow (depth + 1))
    (as : List α) : (ofList f as).Shallow (depth + 2) := by
  refine ⟨Nat.succ_ne_zero depth, fun v hv => ?_⟩
  obtain ⟨a, -, rfl⟩ := List.mem_map.1 hv
  exact h a

theorem shallow_pair {depth : Nat} {v w : Value} (hv : v.Shallow (depth + 1)) (hw : w.Shallow (depth + 1)) :
    (array [v, w]).Shallow (depth + 2) :=
  ⟨Nat.succ_ne_zero depth, by simp [hv, hw]⟩

theorem shallow_ofOption {α : Type} {depth : Nat} {f : α → Value} (h : ∀ a, (f a).Shallow (depth + 1))
    (a : Option α) : (ofOption f a).Shallow (depth + 1) := by
  cases a with
  | none => trivial
  | some a => exact h a

end MessagePack.Value

theorem Script.InterpreterState.shallow_toValue (depth : Nat) (s : InterpreterState) :
    s.toValue.Shallow (depth + 6) := by
  have hscript : ∀ q : SavedScript, q.toValue.Shallow (depth + 4) := fun q =>
    Value.shallow_record (by simp [Value.shallow_ofText, Value.shallow_ofNat])
  have hbinding : ∀ b : SoundBinding, b.toValue.Shallow (depth + 4) := fun b =>
    Value.shallow_record (by simp [Value.shallow_ofText, Value.shallow_ofNat])
  exact Value.shallow_record (by simp [Value.shallow_ofList hscript, Value.shallow_ofList hbinding])

theorem shallow_lineValue (depth : Nat) (entry : String × UInt32) : (lineValue entry).Shallow (depth + 2) :=
  Value.shallow_pair (Value.shallow_ofText depth entry.1) (Value.shallow_ofNat depth _)

theorem VariableSnapshot.shallow_toValue (depth : Nat) (s : VariableSnapshot) :
    s.toValue.Shallow (depth + 5) := by
  have hentry : ∀ e, (entryValue e).Shallow (depth + 3) := fun e =>
    Value.shallow_pair (Value.shallow_ofText _ e.1) (Value.shallow_ofNat _ _)
  have hname : ∀ name, (Value.ofText name).Shallow (depth + 3) := fun name => Value.shallow_ofText _ name
  have hrandom : ∀ r : RandomVariable, r.toValue.Shallow (depth + 3) := fun r =>
    Value.shallow_record (by simp [Value.shallow_ofText, Value.shallow_ofNat])
  exact Value.shallow_record (by simp [Value.shallow_ofList hentry, Value.shallow_ofList hname,
    Value.shallow_ofList hrandom, Value.shallow_ofNat])

theorem ConversationSnapshot.shallow_toValue (depth : Nat) (s : ConversationSnapshot) :
    s.toValue.Shallow (depth + 4) := by
  have hcurrent : ∀ n : UInt32, (Value.ofNat n.toNat).Shallow (depth + 3) := fun n =>
    Value.shallow_ofNat _ _
  have hflag : ∀ b, (Value.bool b).Shallow (depth + 2) := fun _ => trivial
  exact Value.shallow_record (by simp [Value.shallow_ofText, Value.shallow_ofOption hcurrent,
    Value.shallow_ofList hflag])

theorem SaveState.shallow_toValue (depth : Nat) (s : SaveState) : s.toValue.Shallow (depth + 7) := by
  have hrooms : s.rooms.toValue.Shallow (depth + 6) :=
    Value.shallow_record (by simp [Value.shallow_ofNat])
  have hvars : s.vars.toValue.Shallow (depth + 6) := s.vars.shallow_toValue (depth + 1)
  have hlines : (Value.ofList lineValue s.scriptLines).Shallow (depth + 6) :=
    Value.shallow_ofList (shallow_lineValue (depth + 3)) s.scriptLines
  have hinterpreter : s.interpreter.toValue.Shallow (depth + 6) := s.interpreter.shallow_toValue depth
  have hconversation : (Value.ofOption ConversationSnapshot.toValue s.conversation).Shallow (depth + 6) :=
    Value.shallow_ofOption (ConversationSnapshot.shallow_toValue (depth + 2)) s.conversation
  exact Value.shallow_record (by simp [hrooms, hvars, hlines, hinterpreter, hconversation])

theorem InterpreterRecord.shallow_toValue (depth : Nat) (r : InterpreterRecord) :
    r.toValue.Shallow (depth + 7) :=
  Value.shallow_pair (r.state.shallow_toValue depth)
    (Value.shallow_ofList (shallow_lineValue (depth + 3)) r.lines)

/-! ### Frames -/

namespace Save
open MessagePack (Bytes bigEndian ofBigEndian ofBigEndian_bigEndian length_bigEndian)

variable {kind : RecordKind} {payload bytes : Bytes}

theorem RecordKind.ofCode?_code (kind : RecordKind) : ofCode? kind.code = some kind := by
  cases kind <;> rfl

/-- Twelve bytes with the fields of a header, whatever these hold. -/
def fieldBytes (tag : Bytes) (version code : UInt16) (length : UInt32) : Bytes :=
  tag ++ bigEndian 2 version.toNat ++ bigEndian 2 code.toNat ++ bigEndian 4 length.toNat

theorem length_fieldBytes {tag : Bytes} (htag : tag.length = 4) (version code : UInt16) (length : UInt32) :
    (fieldBytes tag version code length).length = headerLength := by
  simp [fieldBytes, htag, headerLength]

theorem Header.encode_eq (h : Header) : h.encode = fieldBytes magic h.version h.kind.code h.length := rfl

theorem Header.length_encode (h : Header) : h.encode.length = headerLength := by
  rw [encode_eq, length_fieldBytes rfl]

theorem ofBigEndian_take_drop (before : Bytes) {rest bs : Bytes} {w n start : Nat}
    (hn : n < MessagePack.span w) (hstart : before.length = start)
    (hbs : before ++ (bigEndian w n ++ rest) = bs) : ofBigEndian ((bs.drop start).take w) = n := by
  rw [← hbs, List.drop_left' hstart, List.take_left' (length_bigEndian w n), ofBigEndian_bigEndian,
    Nat.mod_eq_of_lt hn]

/-- The fields are checked from the first to the last. -/
theorem Header.decode_fieldBytes {tag rest : Bytes} {version code : UInt16} {length : UInt32}
    (htag : tag.length = 4) :
    decode (fieldBytes tag version code length ++ rest) =
      if tag ≠ magic then .error .badMagic
      else if version ≠ currentVersion then .error (.unsupportedVersion version)
      else
        match RecordKind.ofCode? code with
        | none => .error (.unknownRecordKind code)
        | some kind => .ok { version, kind, length } := by
  have hfull : ¬(fieldBytes tag version code length ++ rest).length < headerLength := by
    rw [List.length_append, length_fieldBytes htag]
    omega
  have hmagic : (fieldBytes tag version code length ++ rest).take 4 = tag := by
    rw [fieldBytes, List.append_assoc, List.append_assoc, List.append_assoc]
    exact List.take_left' htag
  have hfound : ofBigEndian (((fieldBytes tag version code length ++ rest).drop 4).take 2) = version.toNat :=
    ofBigEndian_take_drop tag (by simpa [MessagePack.span] using version.toNat_lt) htag
      (by simp only [fieldBytes, List.append_assoc]; rfl)
  have hcode : ofBigEndian (((fieldBytes tag version code length ++ rest).drop 6).take 2) = code.toNat :=
    ofBigEndian_take_drop (tag ++ bigEndian 2 version.toNat) (by simpa [MessagePack.span] using code.toNat_lt)
      (by simp [htag]) (by simp only [fieldBytes, List.append_assoc]; rfl)
  have hlength : ofBigEndian (((fieldBytes tag version code length ++ rest).drop 8).take 4) = length.toNat :=
    ofBigEndian_take_drop (tag ++ bigEndian 2 version.toNat ++ bigEndian 2 code.toNat)
      (by simpa [MessagePack.span] using length.toNat_lt) (by simp [htag])
      (by simp only [fieldBytes, List.append_assoc]; rfl)
  have hdecode := decode.eq_1 (fieldBytes tag version code length ++ rest)
  simp only [if_neg hfull, hmagic, hfound, hcode, hlength, Nat.toUInt16, UInt16.ofNat_toNat, Nat.toUInt32,
    UInt32.ofNat_toNat] at hdecode
  exact hdecode

theorem Header.decode_encode_append {h : Header} (hversion : h.version = currentVersion) (rest : Bytes) :
    decode (h.encode ++ rest) = .ok h := by
  rw [encode_eq, decode_fieldBytes rfl, RecordKind.ofCode?_code]
  simp only [ne_eq, not_true_eq_false, if_false, hversion]
  rw [← hversion]

theorem decodeEnvelope_of_ok {header : Header} (h : Header.decode bytes = .ok header) : decodeEnvelope bytes =
    if (bytes.drop headerLength).length = header.length.toNat then .ok (header, bytes.drop headerLength)
    else .error (.lengthMismatch header.length (bytes.drop headerLength).length) := by
  simp only [decodeEnvelope, h, bind, Except.bind, pure, Except.pure, throw, throwThe, MonadExceptOf.throw, ne_eq,
    ite_not]

theorem decodeEnvelope_append {header : Header} (hversion : header.version = currentVersion)
    (hlength : payload.length = header.length.toNat) :
    decodeEnvelope (header.encode ++ payload) = .ok (header, payload) := by
  have hpayload : (header.encode ++ payload).drop headerLength = payload :=
    List.drop_left' header.length_encode
  rw [decodeEnvelope_of_ok (Header.decode_encode_append hversion payload), hpayload, if_pos hlength]

theorem decodeEnvelope_encodeEnvelope (h : encodeEnvelope kind payload = .ok bytes) :
    ∃ header, decodeEnvelope bytes = .ok (header, payload) ∧ header.kind = kind ∧
      payload.length < UInt32.size := by
  unfold encodeEnvelope at h
  split at h
  · next hlength =>
    cases h
    refine ⟨_, decodeEnvelope_append rfl ?_, rfl, hlength⟩
    simpa using (Nat.mod_eq_of_lt hlength).symm
  · cases h

/-- A record comes back from its frame, if it was not too long to be framed. -/
theorem decodeRecord_encodeRecord {α : Type} {v : MessagePack.Value} {read : MessagePack.Value → Option α}
    {a : α} (h : encodeRecord kind v = .ok bytes) (hshallow : v.Shallow MessagePack.maxDepth)
    (hread : read v = some a) : decodeRecord kind read bytes = .ok a := by
  obtain ⟨header, hdecode, hkind, hlength⟩ := decodeEnvelope_encodeEnvelope h
  have hvalue := MessagePack.decode?_encode (hshallow.fits hlength)
  simp [decodeRecord, hdecode, hkind, hvalue, hread, bind, Except.bind, pure, Except.pure]

/-- Whoever asks for a record of another kind is told so, and nothing of the payload is read. -/
theorem decodeRecord_of_ne {α : Type} {other : RecordKind} {v : MessagePack.Value}
    (h : encodeRecord kind v = .ok bytes) (hne : kind ≠ other) (read : MessagePack.Value → Option α) :
    decodeRecord other read bytes = .error (.wrongRecordKind other kind) := by
  obtain ⟨header, hdecode, hkind, -⟩ := decodeEnvelope_encodeEnvelope h
  simp [decodeRecord, hdecode, hkind, hne, bind, Except.bind, throw, throwThe, MonadExceptOf.throw]

theorem exists_encodeRecord (kind : RecordKind) {v : MessagePack.Value} (h : v.encode.length < UInt32.size) :
    ∃ bytes, encodeRecord kind v = .ok bytes :=
  ⟨_, if_pos h⟩

end Save

theorem SaveState.ofBytes_toBytes {s : SaveState} {bytes : MessagePack.Bytes} (h : s.toBytes = .ok bytes) :
    ofBytes bytes = .ok s :=
  Save.decodeRecord_encodeRecord h (s.shallow_toValue 1017) s.ofValue?_toValue

theorem InterpreterRecord.ofBytes_toBytes {r : InterpreterRecord} {bytes : MessagePack.Bytes}
    (h : r.toBytes = .ok bytes) : ofBytes bytes = .ok r :=
  Save.decodeRecord_encodeRecord h (r.shallow_toValue 1017) r.ofValue?_toValue

/-- Both kinds of records are written unless they are too long to be framed, they come back as they were, and
neither is taken for the other one. -/
theorem Save.records_decode (s : SaveState) (r : InterpreterRecord)
    (hs : s.toValue.encode.length < UInt32.size) (hr : r.toValue.encode.length < UInt32.size) :
    (∃ bytes, s.toBytes = .ok bytes ∧ SaveState.ofBytes bytes = .ok s ∧
      ∀ {α : Type} (read : MessagePack.Value → Option α),
        decodeRecord .interpreter read bytes = .error (.wrongRecordKind .interpreter .session)) ∧
      ∃ bytes, r.toBytes = .ok bytes ∧ InterpreterRecord.ofBytes bytes = .ok r ∧
        ∀ {α : Type} (read : MessagePack.Value → Option α),
          decodeRecord .session read bytes = .error (.wrongRecordKind .session .interpreter) := by
  obtain ⟨sessionBytes, hsession⟩ := exists_encodeRecord .session hs
  obtain ⟨interpreterBytes, hinterpreter⟩ := exists_encodeRecord .interpreter hr
  constructor
  · refine ⟨sessionBytes, hsession, SaveState.ofBytes_toBytes hsession, fun read => ?_⟩
    exact decodeRecord_of_ne hsession (by decide) read
  · refine ⟨interpreterBytes, hinterpreter, InterpreterRecord.ofBytes_toBytes hinterpreter, fun read => ?_⟩
    exact decodeRecord_of_ne hinterpreter (by decide) read

/-- A game that is saved while a script waits, a sound plays and somebody talks. -/
def duskSave : SaveState where
  rooms := ⟨100, 98⟩
  vars := ⟨[("LAMP", 1)], [("KEY", 255)], ["KEY", "Ö"], [⟨"DICE", 6⟩], 4294967295⟩
  scriptLines := [("0100.rom:2", 300), ("0100.rom:9", 4294967295)]
  interpreter := ⟨[⟨"0100.rom:2", .delay, 70000⟩, ⟨"", .movie, 0⟩], [⟨128, "BELL"⟩]⟩
  conversation := some ⟨"warden", some 3, [true, false], [false, false]⟩

theorem Save.records_decode_dusk :
    duskSave.toValue.encode.length < UInt32.size ∧
      (InterpreterRecord.mk duskSave.interpreter duskSave.scriptLines).toValue.encode.length < UInt32.size ∧
      (∃ bytes, duskSave.toBytes = .ok bytes ∧ SaveState.ofBytes bytes = .ok duskSave ∧
        InterpreterRecord.ofBytes bytes = .error (.wrongRecordKind .interpreter .session)) ∧
      ∃ bytes, (InterpreterRecord.mk duskSave.interpreter duskSave.scriptLines).toBytes = .ok bytes ∧
        InterpreterRecord.ofBytes bytes = .ok ⟨duskSave.interpreter, duskSave.scriptLines⟩ ∧
        SaveState.ofBytes bytes = .error (.wrongRecordKind .session .interpreter) := by
  have hs : duskSave.toValue.encode.length < UInt32.size := by decide +kernel
  have hr : (InterpreterRecord.mk duskSave.interpreter duskSave.scriptLines).toValue.encode.length <
      UInt32.size := by decide +kernel
  obtain ⟨⟨bytes, hwrite, hread, hother⟩, bytes', hwrite', hread', hother'⟩ := records_decode _ _ hs hr
  exact ⟨hs, hr, ⟨bytes, hwrite, hread, hother _⟩, bytes', hwrite', hread', hother' _⟩

end Adventure
