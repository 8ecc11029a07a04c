import PyAtlas.Atlas.Load

/-!
# Decoding source files

The text of a source file is read in UTF-8 where that is possible, and what the file says of its
encoding is looked at only where it is not. So a declaration of Latin-1 counts unless the bytes are
UTF-8 as well. For bytes that are all ASCII the two encodings agree, and for no others: a byte
beyond ASCII is one character in Latin-1 and only a part of one in UTF-8.

## Key definitions
- `Encoding.declaresLatin1`: a comment on one of the first two lines names Latin-1.
- `Encoding.declaredText?`: the text in the encoding that is declared.

## Key results
- `Encoding.utf8?_eq_some_iff`: the texts that bytes encode in UTF-8.
- `Encoding.utf8?_eq_latin1_iff`: where both encodings agree.
- `FileSystem.declaration_honoured_iff`: where a source file is read in the declared encoding.
-/

namespace PyAtlas

namespace Encoding

variable {bytes : List UInt8} {cs : List Char}

/-- A comment on one of the first two lines names Latin-1. -/
def declaresLatin1 (bytes : List UInt8) : Bool :=
  (declaredEncoding? bytes).any latin1Names.contains

/-- The text in the encoding that is declared, which is UTF-8 where Latin-1 is not. -/
def declaredText? (bytes : List UInt8) : Option (List Char) :=
  if declaresLatin1 bytes then some (latin1 bytes) else utf8? bytes

/-! ### The two encodings -/

/-- Bytes encode a text in UTF-8 if they are the codes of its characters. -/
theorem utf8?_eq_some_iff : utf8? bytes = some cs ↔ cs.flatMap String.utf8EncodeChar = bytes := by
  have hbytes : (String.ofList cs).toByteArray = ⟨bytes.toArray⟩
      ↔ cs.flatMap String.utf8EncodeChar = bytes := by
    rw [String.toByteArray_ofList, List.utf8Encode, ByteArray.ext_iff, List.data_toByteArray,
      ← Array.toList_inj]
  rw [← hbytes, utf8?, Option.map_eq_some_iff]
  constructor
  · rintro ⟨text, htext, rfl⟩
    rw [String.fromUTF8?] at htext
    split at htext
    · obtain rfl := Option.some.inj htext
      rw [String.ofList_toList]
      rfl
    · cases htext
  · intro hencodes
    refine ⟨String.ofList cs, ?_, String.toList_ofList⟩
    rw [String.fromUTF8?, ← hencodes, dif_pos (String.ofList cs).isValidUTF8]
    exact congrArg some (String.toByteArray_inj.1 rfl)

/-- The character of a byte in Latin-1. -/
theorem toNat_latin1Char (b : UInt8) : (Char.ofNat b.toNat).toNat = b.toNat := by
  have hvalid : b.toNat.isValidChar := .inl (Nat.lt_trans b.toNat_lt (by decide))
  rw [Char.ofNat, dif_pos hvalid]
  rfl

theorem latin1Char_le_iff (b : UInt8) : (Char.ofNat b.toNat).val.toNat ≤ 127 ↔ b < 0x80 := by
  show (Char.ofNat b.toNat).toNat ≤ 127 ↔ b.toNat < 128
  rw [toNat_latin1Char, Nat.lt_succ_iff]

/-- A byte of ASCII is the code of its character. -/
theorem utf8EncodeChar_latin1Char {b : UInt8} (h : b < 0x80) :
    String.utf8EncodeChar (Char.ofNat b.toNat) = [b] := by
  rw [String.utf8EncodeChar, if_pos ((latin1Char_le_iff b).2 h)]
  show [UInt8.ofNat (Char.ofNat b.toNat).toNat] = [b]
  rw [toNat_latin1Char, UInt8.ofNat_toNat]

/-- The character of a byte beyond ASCII takes more than one byte. -/
theorem one_lt_length_latin1Char {b : UInt8} (h : ¬ b < 0x80) :
    1 < (String.utf8EncodeChar (Char.ofNat b.toNat)).length := by
  rw [String.utf8EncodeChar, if_neg (mt (latin1Char_le_iff b).1 h)]
  split
  · exact Nat.one_lt_two
  · split <;> exact Nat.succ_lt_succ (Nat.succ_pos _)

/-- The characters of some bytes take at least as many bytes, and more if a byte is beyond ASCII. -/
theorem length_encode_latin1 (bytes : List UInt8) :
    bytes.length ≤ ((latin1 bytes).flatMap String.utf8EncodeChar).length
      ∧ ((∃ b ∈ bytes, ¬ b < 0x80) →
        bytes.length < ((latin1 bytes).flatMap String.utf8EncodeChar).length) := by
  induction bytes with
  | nil => exact ⟨Nat.le_refl 0, nofun⟩
  | cons b bytes ih =>
    obtain ⟨hle, hlt⟩ := ih
    have hpos : 1 ≤ (String.utf8EncodeChar (Char.ofNat b.toNat)).length := by
      rw [String.length_utf8EncodeChar]
      exact Char.utf8Size_pos _
    have hcons : ((latin1 (b :: bytes)).flatMap String.utf8EncodeChar).length
        = (String.utf8EncodeChar (Char.ofNat b.toNat)).length
          + ((latin1 bytes).flatMap String.utf8EncodeChar).length := by
      rw [latin1, List.map_cons, List.flatMap_cons, List.length_append]
      rfl
    rw [hcons, List.length_cons]
    refine ⟨by omega, fun ⟨c, hc, hbeyond⟩ => ?_⟩
    rcases List.mem_cons.1 hc with rfl | hc
    · have hlong := one_lt_length_latin1Char hbeyond
      omega
    · have hmore := hlt ⟨c, hc, hbeyond⟩
      omega

/-- Both encodings give the same text exactly where all bytes are ASCII. -/
theorem utf8?_eq_latin1_iff : utf8? bytes = some (latin1 bytes) ↔ ∀ b ∈ bytes, b < 0x80 := by
  rw [utf8?_eq_some_iff]
  constructor
  · intro hencodes b hb
    refine Decidable.byContradiction fun hbeyond => ?_
    have hmore := (length_encode_latin1 bytes).2 ⟨b, hb, hbeyond⟩
    rw [hencodes] at hmore
    exact Nat.lt_irrefl _ hmore
  · intro hascii
    induction bytes with
    | nil => rfl
    | cons b bytes ih =>
      obtain ⟨hb, hbytes⟩ := List.forall_mem_cons.1 hascii
      show String.utf8EncodeChar (Char.ofNat b.toNat)
        ++ (latin1 bytes).flatMap String.utf8EncodeChar = _
      rw [utf8EncodeChar_latin1Char hb, ih hbytes]
      rfl

/-! ### What is read -/

/-- Bytes that do not begin with a byte order mark are all text. -/
theorem dropMark_of_not_prefix (h : ¬ [0xEF, 0xBB, 0xBF] <+: bytes) : dropMark bytes = bytes := by
  unfold dropMark
  split
  · exact absurd ⟨_, rfl⟩ h
  · rfl

/-- UTF-8 comes first, and a declaration of Latin-1 second. -/
theorem decodeSource?_eq (h : dropMark bytes = bytes) : decodeSource? bytes
    = ((utf8? bytes).or (if declaresLatin1 bytes then some (latin1 bytes) else none)).map
      String.ofList := by
  rw [decodeSource?, h, declaresLatin1]
  cases utf8? bytes with
  | some text => rfl
  | none =>
    cases declaredEncoding? bytes with
    | none => rfl
    | some name =>
      show (if latin1Names.contains name then _ else _)
        = Option.map String.ofList (if latin1Names.contains name then _ else _)
      split <;> rfl

/-- The text in the declared encoding is read, unless Latin-1 is declared and the bytes are UTF-8
    with a byte beyond ASCII. -/
theorem decodeSource?_eq_declared_iff (h : dropMark bytes = bytes) :
    decodeSource? bytes = (declaredText? bytes).map String.ofList
      ↔ ¬ (declaresLatin1 bytes = true ∧ (utf8? bytes).isSome = true
        ∧ ∃ b ∈ bytes, ¬ b < 0x80) := by
  rw [decodeSource?_eq h, declaredText?]
  cases hdeclared : declaresLatin1 bytes with
  | false => simp
  | true =>
    cases hutf8 : utf8? bytes with
    | none => simp
    | some text =>
      -- Both encodings give a text, so the question is where they agree.
      have hagree : utf8? bytes = some (latin1 bytes) ↔ _ := utf8?_eq_latin1_iff
      have htexts : String.ofList text = String.ofList (latin1 bytes) ↔ text = latin1 bytes :=
        String.ofList_inj
      rw [hutf8, Option.some.injEq, ← htexts] at hagree
      simpa using hagree

end Encoding

namespace FileSystem

open Encoding

/-- Reading a source file comes to its text, or to the report that it has none. -/
theorem readSource_eq {files : FileSystem} {path : String} {content : ByteArray}
    (h : files.read path = .ok content) : files.readSource path
      = (decodeSource? content.toList).elim (.error (.undecodable path)) .ok := by
  rw [readSource, h]
  dsimp only
  cases decodeSource? content.toList <;> rfl

/-- Different texts, or one and none, are told apart. -/
theorem elim_error_ok_inj {e : ImportError} {a b : Option String} :
    a.elim (Except.error e) Except.ok = b.elim (Except.error e) Except.ok ↔ a = b := by
  cases a <;> cases b <;> simp

/-- A source file is to be read in Latin-1 if that is declared, and in UTF-8 otherwise, with an
    error if it is no UTF-8. All files are read so but those that declare Latin-1 and are UTF-8 as
    well, with a byte beyond ASCII: what is UTF-8 is read in UTF-8. -/
theorem declaration_honoured_iff {files : FileSystem} {path : String} {content : ByteArray}
    (hread : files.read path = .ok content) (hmark : ¬ [0xEF, 0xBB, 0xBF] <+: content.toList) :
    let bytes := content.toList
    (files.readSource path
        = (if declaresLatin1 bytes then .ok (String.ofList (latin1 bytes))
          else match utf8? bytes with
            | some text => .ok (String.ofList text)
            | none => .error (.undecodable path))
      ↔ ¬ (declaresLatin1 bytes = true ∧ (utf8? bytes).isSome = true
        ∧ ∃ b ∈ bytes, ¬ b < 0x80))
      ∧ ∀ text, utf8? bytes = some text → files.readSource path = .ok (String.ofList text) := by
  intro bytes
  have hall : dropMark bytes = bytes := dropMark_of_not_prefix hmark
  have hdeclared : (if declaresLatin1 bytes then .ok (String.ofList (latin1 bytes))
      else match utf8? bytes with
        | some text => .ok (String.ofList text)
        | none => .error (.undecodable path))
      = ((declaredText? bytes).map String.ofList).elim
        (Except.error (ImportError.undecodable path)) Except.ok := by
    rw [declaredText?]
    split
    · rfl
    · cases utf8? bytes <;> rfl
  rw [readSource_eq hread]
  refine ⟨?_, fun text htext => ?_⟩
  · rw [hdeclared, elim_error_ok_inj]
    exact decodeSource?_eq_declared_iff hall
  · rw [decodeSource?_eq hall, htext]
    rfl

/-- A file that declares Latin-1 and is no UTF-8 is read in Latin-1. -/
theorem declaration_honoured_iff_of_latin1 :
    let content : ByteArray := ⟨#[0x23, 0x63, 0x6F, 0x64, 0x69, 0x6E, 0x67, 0x3A, 0x6C, 0x31, 0x0A,
      0x78, 0x3D, 0x22, 0xE9, 0x22, 0x0A]⟩
    let files : FileSystem := ⟨[("m.py", .file content)]⟩
    files.read "m.py" = .ok content ∧ ¬ [0xEF, 0xBB, 0xBF] <+: content.toList
      ∧ files.readSource "m.py" = .ok "#coding:l1\nx=\"é\"\n" := by
  intro content files
  have hread : files.read "m.py" = .ok content := rfl
  have hmark : ¬ [0xEF, 0xBB, 0xBF] <+: content.toList := by decide +kernel
  have hlatin1 : declaresLatin1 content.toList = true ∧ utf8? content.toList = none
      ∧ String.ofList (latin1 content.toList) = "#coding:l1\nx=\"é\"\n" := by decide +kernel
  obtain ⟨hdeclared, hutf8, htext⟩ := hlatin1
  refine ⟨hread, hmark, ?_⟩
  rw [(declaration_honoured_iff hread hmark).1.2 (by rw [hutf8]; nofun), if_pos hdeclared, htext]

/-- A file that declares Latin-1 and is UTF-8 is not read in Latin-1. -/
theorem declaration_passed_over : ¬ ∀ (files : FileSystem) (path : String) (content : ByteArray),
    files.read path = .ok content → ¬ [0xEF, 0xBB, 0xBF] <+: content.toList →
      declaresLatin1 content.toList = true →
        files.readSource path = .ok (String.ofList (latin1 content.toList)) := by
  intro hall
  have hread := hall ⟨[("m.py", .file "# coding: latin-1\n\"é\"\n".toUTF8)]⟩ "m.py" _ rfl
    (by decide +kernel) (by decide +kernel)
  have hutf8 : decodeSource? "# coding: latin-1\n\"é\"\n".toUTF8.toList
      = some "# coding: latin-1\n\"é\"\n" := by decide +kernel
  rw [readSource_eq rfl, hutf8] at hread
  have htext := Except.ok.inj hread
  revert htext
  decide +kernel

end FileSystem

end PyAtlas
