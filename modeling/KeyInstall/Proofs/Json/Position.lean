import Mathlib.Data.List.DropRight
import KeyInstall.Json.Fault

/-!
# Positions and the bytes of a text

A position says of the bytes before it how many line feeds there are and how
many bytes follow the last one (`ofOffset_eq`). The site of a fault that lies
within a text is the position after some of its bytes
(`exists_position_eq`), and stays there when more text follows
(`position_extend`).
-/

namespace KeyInstall.Json

open KeyInstall.Text (byteSize)

/-! ## Bytes -/

/-- The bytes of a text in UTF-8. -/
def bytes (text : List Char) : List UInt8 := text.flatMap String.utf8EncodeChar

theorem bytes_cons (c : Char) (text : List Char) :
    bytes (c :: text) = String.utf8EncodeChar c ++ bytes text :=
  List.flatMap_cons

theorem bytes_append (first second : List Char) :
    bytes (first ++ second) = bytes first ++ bytes second :=
  List.flatMap_append

theorem length_bytes (text : List Char) : (bytes text).length = byteSize text := by
  induction text with
  | nil => rfl
  | cons c text ih =>
    rw [bytes_cons, List.length_append, String.length_utf8EncodeChar, ih, Text.byteSize_cons]

theorem bytes_toList (text : String) : bytes text.toList = text.toUTF8.data.toList := by
  rw [String.toUTF8_eq_toByteArray, ← String.utf8Encode_toList, List.utf8Encode,
    List.data_toByteArray]
  rfl

/-- Only the line feed has the byte of a line feed. -/
theorem ne_lineFeed_of_mem {c : Char} (other : c ≠ '\n') :
    ∀ byte ∈ String.utf8EncodeChar c, byte ≠ 10 := by
  have value : c.val.toNat ≠ 10 := fun same => other (Char.toNat_inj.mp same)
  have small : ∀ n : Nat, n % 256 ≠ 10 → UInt8.ofNat n ≠ 10 := by
    intro n different same
    exact different (by simpa using congrArg UInt8.toNat same)
  intro byte member
  simp only [String.utf8EncodeChar] at member
  split at member
  · rw [List.mem_singleton.mp member]
    exact small _ (by omega)
  · split at member
    · simp only [List.mem_cons, List.not_mem_nil, or_false] at member
      rcases member with rfl | rfl <;> exact small _ (by omega)
    · split at member
      · simp only [List.mem_cons, List.not_mem_nil, or_false] at member
        rcases member with rfl | rfl | rfl <;> exact small _ (by omega)
      · simp only [List.mem_cons, List.not_mem_nil, or_false] at member
        rcases member with rfl | rfl | rfl | rfl <;> exact small _ (by omega)

/-! ## Positions after bytes -/

/-- The position after one more byte. -/
def Position.next (position : Position) (byte : UInt8) : Position :=
  if byte = 10 then ⟨position.line + 1, 0⟩ else ⟨position.line, position.column + 1⟩

theorem foldl_next_of_ne (start : Position) {line : List UInt8} (other : ∀ byte ∈ line, byte ≠ 10) :
    line.foldl Position.next start = ⟨start.line, start.column + line.length⟩ := by
  induction line generalizing start with
  | nil => rfl
  | cons byte line ih =>
    rw [List.forall_mem_cons] at other
    rw [List.foldl_cons, ih _ other.2, Position.next, if_neg other.1, List.length_cons,
      Nat.add_right_comm, Nat.add_assoc]

/-- A text is passed byte by byte, also inside of its characters. -/
theorem advance_eq (start : Position) (text : List Char) (count : Nat) :
    Position.advance start text count = ((bytes text).take count).foldl Position.next start := by
  induction text generalizing start count with
  | nil => simp [Position.advance, bytes]
  | cons c text ih =>
    rw [Position.advance, bytes_cons]
    split
    · rename_i none
      rw [none]
      rfl
    · rename_i some
      split
      · rename_i lineFeed
        obtain ⟨fewer, rfl⟩ := Nat.exists_eq_succ_of_ne_zero some
        rw [lineFeed, ih]
        rfl
      · rename_i other
        have plain := ne_lineFeed_of_mem other
        split
        · rename_i inside
          have cut : ((String.utf8EncodeChar c).take count).length = count := by
            rw [List.length_take, String.length_utf8EncodeChar]
            omega
          rw [List.take_append_of_le_length (by rw [String.length_utf8EncodeChar]; omega),
            foldl_next_of_ne start fun byte member => plain byte (List.mem_of_mem_take member), cut]
        · rename_i beyond
          have whole : (String.utf8EncodeChar c).take count = String.utf8EncodeChar c :=
            List.take_of_length_le (by rw [String.length_utf8EncodeChar]; omega)
          rw [ih, List.take_append, List.foldl_append, whole, foldl_next_of_ne start plain,
            String.length_utf8EncodeChar]

/-- The position after some bytes: line feeds are counted from one, and then the
bytes after the last of them. -/
def Position.afterBytes (before : List UInt8) : Position :=
  ⟨before.count 10 + 1, (before.rtakeWhile (· ≠ 10)).length⟩

theorem foldl_next_eq (before : List UInt8) :
    before.foldl Position.next ⟨1, 0⟩ = .afterBytes before := by
  -- Bytes are added at the end, where the last line is.
  induction before using List.reverseRecOn with
  | nil => rfl
  | append_singleton before byte ih =>
    rw [List.foldl_append, ih, List.foldl_cons, List.foldl_nil, Position.next,
      Position.afterBytes, Position.afterBytes, List.count_append, List.rtakeWhile_concat]
    split
    · rename_i lineFeed
      simp [lineFeed]
    · rename_i other
      simp [other]

theorem ofOffset_eq (text : List Char) (count : Nat) :
    Position.ofOffset text count = .afterBytes ((bytes text).take count) := by
  rw [Position.ofOffset, advance_eq, foldl_next_eq]

theorem ofOffset_append {text : List Char} {count : Nat} (within : count ≤ byteSize text)
    (more : List Char) :
    Position.ofOffset (text ++ more) count = Position.ofOffset text count := by
  rw [ofOffset_eq, ofOffset_eq, bytes_append,
    List.take_append_of_le_length (by rwa [length_bytes])]

/-! ## Sites -/

/-- A site is at a rest of a text, and not beyond its end. -/
def Site.Within (text : List Char) : Site → Prop
  | .before rest => rest <:+ text
  | .after rest taken => rest <:+ text ∧ taken ≤ byteSize rest
  | .inside _ => False

/-- The same site when more text follows. At the end of a text nothing was
looked at. -/
def Site.extend (more : List Char) : Site → Site
  | .before [] => .after more 0
  | .before (c :: rest) => .before (c :: (rest ++ more))
  | .after rest taken => .after (rest ++ more) taken
  | .inside position => .inside position

def Fault.extend (more : List Char) (fault : Fault) : Fault :=
  ⟨fault.cause, fault.site.extend more⟩

theorem byteSize_le_of_suffix {rest text : List Char} (suffix : rest <:+ text) :
    byteSize rest ≤ byteSize text := by
  obtain ⟨front, rfl⟩ := suffix
  rw [Text.byteSize_append]
  omega

theorem offset_append (text rest more : List Char) :
    offset (text ++ more) (rest ++ more) = offset text rest := by
  rw [offset, offset, Text.byteSize_append, Text.byteSize_append]
  omega

/-- The number of bytes up to a site. -/
def Site.offset (text : List Char) : Site → Nat
  | .before [] => byteSize text
  | .before (c :: rest) => Json.offset text (c :: rest) + 1
  | .after rest taken => Json.offset text rest + taken
  | .inside _ => 0

variable {text : List Char} {site : Site}

theorem Site.Within.offset_le (within : site.Within text) : site.offset text ≤ byteSize text := by
  cases site with
  | before rest =>
    have small := byteSize_le_of_suffix within
    cases rest with
    | nil => exact Nat.le_refl _
    | cons c rest =>
      have one := c.utf8Size_pos
      simp only [Text.byteSize_cons] at small
      simp only [Site.offset, Json.offset, Text.byteSize_cons]
      omega
  | after rest taken =>
    obtain ⟨suffix, bound⟩ := within
    have small := byteSize_le_of_suffix suffix
    simp only [Site.offset, Json.offset]
    omega
  | inside => cases within

theorem Site.Within.position_eq (within : site.Within text) :
    site.position text = .ofOffset text (site.offset text) := by
  cases site with
  | before rest => cases rest <;> rfl
  | after => rfl
  | inside => cases within

/-- A site is at the position after some bytes of the text. -/
theorem Site.Within.exists_position_eq (within : site.Within text) :
    ∃ before, before <+: bytes text ∧ site.position text = .afterBytes before := by
  refine ⟨(bytes text).take (site.offset text), List.take_prefix _ _, ?_⟩
  rw [within.position_eq, ofOffset_eq]

theorem Site.offset_extend (text : List Char) (site : Site) (more : List Char) :
    (site.extend more).offset (text ++ more) = site.offset text := by
  cases site with
  | before rest =>
    cases rest with
    | nil => simp [Site.extend, Site.offset, Json.offset]
    | cons c rest =>
      simp only [Site.extend, Site.offset]
      rw [← List.cons_append, offset_append]
  | after rest taken => simp only [Site.extend, Site.offset, offset_append]
  | inside => rfl

theorem Site.Within.extend (within : site.Within text) (more : List Char) :
    (site.extend more).Within (text ++ more) := by
  have moved : ∀ {rest : List Char}, rest <:+ text → rest ++ more <:+ text ++ more := by
    rintro rest ⟨front, rfl⟩
    exact ⟨front, (List.append_assoc _ _ _).symm⟩
  cases site with
  | before rest =>
    cases rest with
    | nil => exact ⟨List.suffix_append text more, Nat.zero_le _⟩
    | cons c rest => exact moved within
  | after rest taken =>
    obtain ⟨suffix, bound⟩ := within
    refine ⟨moved suffix, ?_⟩
    rw [Text.byteSize_append]
    omega
  | inside => cases within

/-- Text that follows does not move a site. -/
theorem Site.Within.position_extend (within : site.Within text) (more : List Char) :
    (site.extend more).position (text ++ more) = site.position text := by
  rw [(within.extend more).position_eq, Site.offset_extend, within.position_eq,
    ofOffset_append within.offset_le]

end KeyInstall.Json
