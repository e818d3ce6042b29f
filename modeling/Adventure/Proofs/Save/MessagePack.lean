import Mathlib.Data.List.Induction
import Mathlib.Tactic.Ring
import Adventure.Save.MessagePack
/-! Reading back what was written. A value that is not nested too deep and whose parts are not too long
comes back from its bytes, whatever follows them. -/
namespace Adventure.MessagePack

/-! ### Numbers -/

theorem span_pos (width : Nat) : 0 < span width := by
  induction width with
  | zero => exact Nat.one_pos
  | succ width ih => exact Nat.mul_pos (by decide) ih

@[simp] theorem length_bigEndian (width n : Nat) : (bigEndian width n).length = width := by
  induction width with
  | zero => rfl
  | succ width ih => simp [bigEndian, ih]

theorem foldl_bigEndian (width n start : Nat) :
    (bigEndian width n).foldl (fun n b => n * 256 + b.toNat) start = start * span width + n % span width := by
  induction width generalizing start with
  | zero => simp [bigEndian, span, Nat.mod_one]
  | succ width ih =>
      have hbyte : (n / span width % 256).toUInt8.toNat = n / span width % 256 := by
        simp [Nat.toUInt8]
      have hmod : n % (256 * span width) = n % span width + span width * (n / span width % 256) := by
        rw [Nat.mul_comm, Nat.mod_mul]
      rw [bigEndian, List.foldl_cons, ih, hbyte, span, hmod]
      ring

theorem ofBigEndian_bigEndian (width n : Nat) : ofBigEndian (bigEndian width n) = n % span width := by
  rw [ofBigEndian, foldl_bigEndian, Nat.zero_mul, Nat.zero_add]

theorem ofBigEndian_concat (bs : Bytes) (b : UInt8) : ofBigEndian (bs ++ [b]) = ofBigEndian bs * 256 + b.toNat := by
  rw [ofBigEndian, List.foldl_append]
  rfl

theorem ofBigEndian_lt (bs : Bytes) : ofBigEndian bs < span bs.length := by
  induction bs using List.reverseRecOn with
  | nil => exact span_pos 0
  | append_singleton bs b ih =>
      have hb := b.toNat_lt
      rw [ofBigEndian_concat, List.length_append, List.length_singleton, span]
      omega

theorem ofBigEndian_inj {as bs : Bytes} (hlength : as.length = bs.length) (h : ofBigEndian as = ofBigEndian bs) :
    as = bs := by
  induction as using List.reverseRecOn generalizing bs with
  | nil => exact (List.length_eq_zero_iff.1 hlength.symm).symm
  | append_singleton as a ih =>
      cases bs using List.reverseRecOn with
      | nil => simp at hlength
      | append_singleton bs b =>
          rw [ofBigEndian_concat, ofBigEndian_concat] at h
          have ha := a.toNat_lt
          have hb := b.toNat_lt
          have hrest : ofBigEndian as = ofBigEndian bs := by omega
          have hlast : a = b := UInt8.toNat_inj.1 (by omega)
          rw [ih (by simpa using hlength) hrest, hlast]

/-- Bytes are those of the number that they spell. -/
theorem bigEndian_ofBigEndian (bs : Bytes) : bigEndian bs.length (ofBigEndian bs) = bs := by
  refine ofBigEndian_inj (length_bigEndian _ _) ?_
  rw [ofBigEndian_bigEndian, Nat.mod_eq_of_lt (ofBigEndian_lt bs)]

theorem takeBytes?_append (bs rest : Bytes) : takeBytes? bs.length (bs ++ rest) = some (bs, rest) := by
  induction bs with
  | nil => rfl
  | cons b bs ih => simp [takeBytes?, ih]

theorem takeNumber?_bigEndian (width n : Nat) (rest : Bytes) :
    takeNumber? width (bigEndian width n ++ rest) = some (n % span width, rest) := by
  have htake := takeBytes?_append (bigEndian width n) rest
  rw [length_bigEndian] at htake
  simp only [takeNumber?, htake, Option.map_some, ofBigEndian_bigEndian]

theorem numbered_bigEndian {w n : Nat} (h : n < span w) (rest : Bytes) (head : Nat → Head) :
    numbered w (bigEndian w n ++ rest) head = some (head n, rest) := by
  simp only [numbered, takeNumber?_bigEndian, Option.map_some, Nat.mod_eq_of_lt h]

theorem ofTwosComplement_twosComplement {width : Nat} {n : Int} (hlow : -(span width : Int) ≤ 2 * n)
    (hhigh : 2 * n < span width) : ofTwosComplement width (twosComplement width n) = n := by
  have hpos : (0 : Int) < span width := by exact_mod_cast span_pos width
  unfold ofTwosComplement twosComplement
  rcases Int.lt_or_le n 0 with hneg | hnonneg
  · have hmod : n % (span width : Int) = n + span width := by
      rw [← Int.add_emod_right, Int.emod_eq_of_lt (by omega) (by omega)]
    rw [hmod, if_neg (by omega)]
    omega
  · rw [Int.emod_eq_of_lt hnonneg (by omega), if_pos (by omega)]
    omega

theorem twosComplement_lt (width : Nat) (n : Int) : twosComplement width n < span width := by
  have hpos : (0 : Int) < span width := by exact_mod_cast span_pos width
  have hmod := Int.emod_lt_of_pos n hpos
  have hnonneg := Int.emod_nonneg n (Int.ne_of_gt hpos)
  unfold twosComplement
  omega

/-! ### Heads -/

section
variable {b : UInt8} {n : Nat}

theorem readHead_small (h : b.toNat < 0x80) (bs : Bytes) :
    readHead (b :: bs) = some (.whole (.unsigned b.toNat.toUInt64), bs) := by
  simp only [readHead, if_pos h]

theorem readHead_smallMap (h : 0x80 ≤ b.toNat) (h' : b.toNat < 0x90) (bs : Bytes) :
    readHead (b :: bs) = some (.map (b.toNat - 0x80), bs) := by
  simp only [readHead, if_neg (Nat.not_lt.2 h), if_pos h']

theorem readHead_smallArray (h : 0x90 ≤ b.toNat) (h' : b.toNat < 0xA0) (bs : Bytes) :
    readHead (b :: bs) = some (.array (b.toNat - 0x90), bs) := by
  have h₁ : ¬b.toNat < 0x80 := by omega
  simp only [readHead, if_neg h₁, if_neg (Nat.not_lt.2 h), if_pos h']

theorem readHead_smallText (h : 0xA0 ≤ b.toNat) (h' : b.toNat < 0xC0) (bs : Bytes) :
    readHead (b :: bs) = some (.text (b.toNat - 0xA0), bs) := by
  have h₁ : ¬b.toNat < 0x80 := by omega
  have h₂ : ¬b.toNat < 0x90 := by omega
  simp only [readHead, if_neg h₁, if_neg h₂, if_neg (Nat.not_lt.2 h), if_pos h']

theorem readHead_smallSigned (h : 0xE0 ≤ b.toNat) (bs : Bytes) :
    readHead (b :: bs) = some (signedHead 1 b.toNat, bs) := by
  have h₁ : ¬b.toNat < 0x80 := by omega
  have h₂ : ¬b.toNat < 0x90 := by omega
  have h₃ : ¬b.toNat < 0xA0 := by omega
  have h₄ : ¬b.toNat < 0xC0 := by omega
  simp only [readHead, if_neg h₁, if_neg h₂, if_neg h₃, if_neg h₄, if_pos h]

theorem toNat_toUInt8 (h : n < 0x100) : n.toUInt8.toNat = n := by
  simpa [Nat.toUInt8] using Nat.mod_eq_of_lt h

theorem readHead_encodeUnsigned (n : UInt64) (rest : Bytes) :
    readHead (encodeUnsigned n.toNat ++ rest) = some (.whole (.unsigned n), rest) := by
  have hn : n.toNat.toUInt64 = n := UInt64.ofNat_toNat
  have hnumbered : ∀ {w : Nat}, n.toNat < span w →
      numbered w (bigEndian w n.toNat ++ rest) (fun n => .whole (.unsigned n.toUInt64)) =
        some (.whole (.unsigned n), rest) := by
    intro w h
    rw [numbered_bigEndian h, hn]
  unfold encodeUnsigned
  split
  · next h =>
    have hbyte : n.toNat.toUInt8.toNat = n.toNat := toNat_toUInt8 (by omega)
    rw [List.singleton_append, readHead_small (by rwa [hbyte]), hbyte, hn]
  · split
    · next h => exact hnumbered (w := 1) (by simpa [span] using h)
    · split
      · next h => exact hnumbered (w := 2) (by simpa [span] using h)
      · split
        · next h => exact hnumbered (w := 4) (by simpa [span] using h)
        · exact hnumbered (w := 8) (by simpa [span] using n.toNat_lt)

theorem readHead_encodeSigned (n : Int64) (rest : Bytes) :
    readHead (encodeSigned n.toInt ++ rest) = some (.whole (.signed n), rest) := by
  have hlow := n.le_toInt
  have hhigh := n.toInt_lt
  have hsigned : ∀ {w : Nat}, -(span w : Int) ≤ 2 * n.toInt → 2 * n.toInt < span w →
      signedHead w (twosComplement w n.toInt) = .whole (.signed n) := by
    intro w h₁ h₂
    rw [signedHead, ofTwosComplement_twosComplement h₁ h₂, Int64.ofInt_toInt]
  have hnumbered : ∀ {w : Nat}, -(span w : Int) ≤ 2 * n.toInt → 2 * n.toInt < span w →
      numbered w (bigEndian w (twosComplement w n.toInt) ++ rest) (signedHead w) =
        some (.whole (.signed n), rest) := by
    intro w h₁ h₂
    rw [numbered_bigEndian (twosComplement_lt w n.toInt), hsigned h₁ h₂]
  unfold encodeSigned
  split
  · next h =>
    have hone : bigEndian 1 (twosComplement 1 n.toInt) = [(twosComplement 1 n.toInt).toUInt8] := by
      have hlt := twosComplement_lt 1 n.toInt
      have hmod : twosComplement 1 n.toInt % 256 = twosComplement 1 n.toInt :=
        Nat.mod_eq_of_lt (by simpa [span] using hlt)
      simp only [bigEndian, span, Nat.div_one, hmod]
    have hbyte : (twosComplement 1 n.toInt).toUInt8.toNat = twosComplement 1 n.toInt :=
      toNat_toUInt8 (by simpa [span] using twosComplement_lt 1 n.toInt)
    have hge : 0xE0 ≤ twosComplement 1 n.toInt := by
      simp only [twosComplement, span]
      omega
    rw [hone, List.singleton_append, readHead_smallSigned (by rwa [hbyte]), hbyte,
      hsigned (by simp [span]; omega) (by simp [span]; omega)]
  · split
    · next h => exact hnumbered (w := 1) (by simp [span]; omega) (by simp [span]; omega)
    · split
      · next h => exact hnumbered (w := 2) (by simp [span]; omega) (by simp [span]; omega)
      · split
        · next h => exact hnumbered (w := 4) (by simp [span]; omega) (by simp [span]; omega)
        · exact hnumbered (w := 8) (by simp [span]; omega) (by simp [span]; omega)

theorem readHead_textHead (h : n < span 4) (rest : Bytes) :
    readHead (textHead n ++ rest) = some (.text n, rest) := by
  unfold textHead
  split
  · next hn =>
    have hbyte : (0xA0 + n).toUInt8.toNat = 0xA0 + n := toNat_toUInt8 (by omega)
    rw [List.singleton_append, readHead_smallText (by omega) (by omega), hbyte, Nat.add_sub_cancel_left]
  · split
    · next hn => exact numbered_bigEndian (w := 1) (by simpa [span] using hn) rest .text
    · split
      · next hn => exact numbered_bigEndian (w := 2) (by simpa [span] using hn) rest .text
      · exact numbered_bigEndian h rest .text

theorem readHead_binaryHead (h : n < span 4) (rest : Bytes) :
    readHead (binaryHead n ++ rest) = some (.binary n, rest) := by
  unfold binaryHead
  split
  · next hn => exact numbered_bigEndian (w := 1) (by simpa [span] using hn) rest .binary
  · split
    · next hn => exact numbered_bigEndian (w := 2) (by simpa [span] using hn) rest .binary
    · exact numbered_bigEndian h rest .binary

theorem readHead_arrayHead (h : n < span 4) (rest : Bytes) :
    readHead (arrayHead n ++ rest) = some (.array n, rest) := by
  unfold arrayHead
  split
  · next hn =>
    have hbyte : (0x90 + n).toUInt8.toNat = 0x90 + n := toNat_toUInt8 (by omega)
    rw [List.singleton_append, readHead_smallArray (by omega) (by omega), hbyte, Nat.add_sub_cancel_left]
  · split
    · next hn => exact numbered_bigEndian (w := 2) (by simpa [span] using hn) rest .array
    · exact numbered_bigEndian h rest .array

theorem readHead_mapHead (h : n < span 4) (rest : Bytes) :
    readHead (mapHead n ++ rest) = some (.map n, rest) := by
  unfold mapHead
  split
  · next hn =>
    have hbyte : (0x80 + n).toUInt8.toNat = 0x80 + n := toNat_toUInt8 (by omega)
    rw [List.singleton_append, readHead_smallMap (by omega) (by omega), hbyte, Nat.add_sub_cancel_left]
  · split
    · next hn => exact numbered_bigEndian (w := 2) (by simpa [span] using hn) rest .map
    · exact numbered_bigEndian h rest .map

theorem readHead_extensionHead (h : n < span 4) (rest : Bytes) :
    readHead (extensionHead n ++ rest) = some (.extension n, rest) := by
  unfold extensionHead
  split
  · next hn => rw [hn]; rfl
  · split
    · next hn => rw [hn]; rfl
    · split
      · next hn => rw [hn]; rfl
      · split
        · next hn => rw [hn]; rfl
        · split
          · next hn => rw [hn]; rfl
          · split
            · next hn => exact numbered_bigEndian (w := 1) (by simpa [span] using hn) rest .extension
            · split
              · next hn => exact numbered_bigEndian (w := 2) (by simpa [span] using hn) rest .extension
              · exact numbered_bigEndian h rest .extension

end

/-! ### Values -/

/-- The parts are not too long to write their length in four bytes, and lie less than so many levels
deep. -/
def Value.Fits : Nat → Value → Prop
  | 0, _ => False
  | _ + 1, .text bytes => bytes.length < span 4
  | _ + 1, .binary bytes => bytes.length < span 4
  | depth + 1, .array items => depth ≠ 0 ∧ items.length < span 4 ∧ ∀ v ∈ items, v.Fits depth
  | depth + 1, .map entries =>
    depth ≠ 0 ∧ entries.length < span 4 ∧ ∀ e ∈ entries, e.1.Fits depth ∧ e.2.Fits depth
  | depth + 1, .extension _ data => depth ≠ 0 ∧ data.length < span 4
  | _ + 1, _ => True

/-- Reads a value back, and leaves what follows it. -/
def Rereads (read : ValueReader) (v : Value) : Prop :=
  ∀ rest, read (v.encode ++ rest) = some (v, rest)

theorem readItems_encodeItems {read : ValueReader} {items : List Value} (h : ∀ v ∈ items, Rereads read v)
    (rest : Bytes) : readItems read items.length (encodeItems items ++ rest) = some (items, rest) := by
  induction items with
  | nil => rfl
  | cons v items ih =>
      have hitems := ih fun w hw => h w (List.mem_cons_of_mem v hw)
      rw [encodeItems, List.append_assoc, List.length_cons, readItems, h v List.mem_cons_self]
      simp [hitems]

theorem readEntries_encodeEntries {read : ValueReader} {entries : List (Value × Value)}
    (h : ∀ e ∈ entries, Rereads read e.1 ∧ Rereads read e.2) (rest : Bytes) :
    readEntries read entries.length (encodeEntries entries ++ rest) = some (entries, rest) := by
  induction entries with
  | nil => rfl
  | cons e entries ih =>
      obtain ⟨k, v⟩ := e
      have hentries := ih fun w hw => h w (List.mem_cons_of_mem _ hw)
      obtain ⟨hk, hv⟩ := h (k, v) List.mem_cons_self
      rw [encodeEntries, List.append_assoc, List.append_assoc, List.length_cons, readEntries, hk]
      simp [hv _, hentries]

theorem readValue_of_whole {depth : Nat} {v : Value} {bs rest : Bytes}
    (h : readHead bs = some (.whole v, rest)) : readValue (depth + 1) bs = some (v, rest) := by
  simp [readValue, h]

/-- A value comes back from its bytes, whatever follows them. -/
theorem rereads_readValue {depth : Nat} {v : Value} (h : v.Fits depth) : Rereads (readValue depth) v := by
  induction depth generalizing v with
  | zero => exact absurd h (by simp [Value.Fits])
  | succ depth ih =>
      intro rest
      cases v with
      | nil => exact readValue_of_whole rfl
      | bool b => cases b <;> exact readValue_of_whole rfl
      | unsigned n => exact readValue_of_whole (readHead_encodeUnsigned n rest)
      | signed n => exact readValue_of_whole (readHead_encodeSigned n rest)
      | float32 bits =>
          have hbits := numbered_bigEndian (w := 4) (by simpa [span] using bits.toNat_lt) rest
            fun n => .whole (.float32 n.toUInt32)
          rw [Nat.toUInt32, UInt32.ofNat_toNat] at hbits
          exact readValue_of_whole hbits
      | float64 bits =>
          have hbits := numbered_bigEndian (w := 8) (by simpa [span] using bits.toNat_lt) rest
            fun n => .whole (.float64 n.toUInt64)
          rw [Nat.toUInt64, UInt64.ofNat_toNat] at hbits
          exact readValue_of_whole hbits
      | text bytes =>
          rw [Value.encode, List.append_assoc]
          simp [readValue, readHead_textHead h, takeBytes?_append]
      | binary bytes =>
          rw [Value.encode, List.append_assoc]
          simp [readValue, readHead_binaryHead h, takeBytes?_append]
      | array items =>
          obtain ⟨hdepth, hlength, hitems⟩ := h
          have hread := readItems_encodeItems (fun v hv => ih (hitems v hv)) rest
          rw [Value.encode, List.append_assoc]
          simp [readValue, readHead_arrayHead hlength, hdepth, hread]
      | map entries =>
          obtain ⟨hdepth, hlength, hentries⟩ := h
          have hread := readEntries_encodeEntries
            (fun e he => ⟨ih (hentries e he).1, ih (hentries e he).2⟩) rest
          rw [Value.encode, List.append_assoc]
          simp [readValue, readHead_mapHead hlength, hdepth, hread]
      | extension tag data =>
          obtain ⟨hdepth, hlength⟩ := h
          rw [Value.encode, List.append_assoc]
          simp [readValue, readHead_extensionHead hlength, hdepth, readExtension, takeNumber?, takeBytes?,
            takeBytes?_append, ofBigEndian]

theorem decode?_encode {v : Value} (h : v.Fits maxDepth) : decode? v.encode = some v := by
  have hread := rereads_readValue h []
  rw [List.append_nil] at hread
  rw [decode?, hread, Option.map_some]

/-! ### Lengths -/

/-- The parts lie less than so many levels deep. -/
def Value.Shallow : Nat → Value → Prop
  | 0, _ => False
  | depth + 1, .array items => depth ≠ 0 ∧ ∀ v ∈ items, v.Shallow depth
  | depth + 1, .map entries => depth ≠ 0 ∧ ∀ e ∈ entries, e.1.Shallow depth ∧ e.2.Shallow depth
  | depth + 1, .extension _ _ => depth ≠ 0
  | _ + 1, _ => True

theorem Value.encode_ne_nil (v : Value) : v.encode ≠ [] := by
  cases v with
  | nil => exact List.cons_ne_nil _ _
  | bool b => cases b <;> exact List.cons_ne_nil _ _
  | unsigned n =>
      intro h
      have hread := readHead_encodeUnsigned n []
      rw [List.append_nil, show encodeUnsigned n.toNat = [] from h] at hread
      cases hread
  | signed n =>
      intro h
      have hread := readHead_encodeSigned n []
      rw [List.append_nil, show encodeSigned n.toInt = [] from h] at hread
      cases hread
  | float32 bits => exact List.cons_ne_nil _ _
  | float64 bits => exact List.cons_ne_nil _ _
  | text bytes =>
      rw [Value.encode, textHead]
      repeat' split
      all_goals exact List.cons_ne_nil _ _
  | binary bytes =>
      rw [Value.encode, binaryHead]
      repeat' split
      all_goals exact List.cons_ne_nil _ _
  | array items =>
      rw [Value.encode, arrayHead]
      repeat' split
      all_goals exact List.cons_ne_nil _ _
  | map entries =>
      rw [Value.encode, mapHead]
      repeat' split
      all_goals exact List.cons_ne_nil _ _
  | extension tag data =>
      rw [Value.encode]
      exact List.append_ne_nil_of_right_ne_nil _ (List.cons_ne_nil _ _)

theorem length_encodeItems_ge {items : List Value} {v : Value} (h : v ∈ items) :
    v.encode.length ≤ (encodeItems items).length := by
  induction items with
  | nil => cases h
  | cons w items ih =>
      rw [encodeItems, List.length_append]
      rcases List.mem_cons.1 h with rfl | h
      · exact Nat.le_add_right _ _
      · exact Nat.le_trans (ih h) (Nat.le_add_left _ _)

theorem length_le_length_encodeItems (items : List Value) : items.length ≤ (encodeItems items).length := by
  induction items with
  | nil => exact Nat.le_refl _
  | cons v items ih =>
      have hv := List.length_pos_iff.2 v.encode_ne_nil
      rw [encodeItems, List.length_append, List.length_cons]
      omega

theorem length_encodeEntries_ge {entries : List (Value × Value)} {e : Value × Value} (h : e ∈ entries) :
    e.1.encode.length ≤ (encodeEntries entries).length ∧
      e.2.encode.length ≤ (encodeEntries entries).length := by
  induction entries with
  | nil => cases h
  | cons d entries ih =>
      rw [encodeEntries, List.length_append, List.length_append]
      rcases List.mem_cons.1 h with rfl | h
      · omega
      · have hle := ih h
        omega

theorem length_le_length_encodeEntries (entries : List (Value × Value)) :
    entries.length ≤ (encodeEntries entries).length := by
  induction entries with
  | nil => exact Nat.le_refl _
  | cons e entries ih =>
      have he := List.length_pos_iff.2 e.1.encode_ne_nil
      rw [encodeEntries, List.length_append, List.length_append, List.length_cons]
      omega

theorem Value.Shallow.fits {depth : Nat} {v : Value} (h : v.Shallow depth)
    (hlength : v.encode.length < span 4) : v.Fits depth := by
  induction depth generalizing v with
  | zero => exact absurd h (by simp [Value.Shallow])
  | succ depth ih =>
      cases v with
      | text bytes =>
          rw [Value.encode, List.length_append] at hlength
          exact Nat.lt_of_le_of_lt (Nat.le_add_left _ _) hlength
      | binary bytes =>
          rw [Value.encode, List.length_append] at hlength
          exact Nat.lt_of_le_of_lt (Nat.le_add_left _ _) hlength
      | array items =>
          obtain ⟨hdepth, hitems⟩ := h
          rw [Value.encode, List.length_append] at hlength
          have hparts : (encodeItems items).length < span 4 := by omega
          exact ⟨hdepth, Nat.lt_of_le_of_lt (length_le_length_encodeItems items) hparts, fun v hv =>
            ih (hitems v hv) (Nat.lt_of_le_of_lt (length_encodeItems_ge hv) hparts)⟩
      | map entries =>
          obtain ⟨hdepth, hentries⟩ := h
          rw [Value.encode, List.length_append] at hlength
          have hparts : (encodeEntries entries).length < span 4 := by omega
          exact ⟨hdepth, Nat.lt_of_le_of_lt (length_le_length_encodeEntries entries) hparts, fun e he =>
            ⟨ih (hentries e he).1 (Nat.lt_of_le_of_lt (length_encodeEntries_ge he).1 hparts),
              ih (hentries e he).2 (Nat.lt_of_le_of_lt (length_encodeEntries_ge he).2 hparts)⟩⟩
      | extension tag data =>
          rw [Value.encode, List.length_append, List.length_cons] at hlength
          exact ⟨h, by omega⟩
      | _ => trivial

end Adventure.MessagePack
