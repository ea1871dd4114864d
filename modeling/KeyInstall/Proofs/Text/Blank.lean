import Mathlib.Data.List.DropRight
import KeyInstall.Text.Blank

/-!
# Texts between blanks

A text that is not all blank is some blanks, a core whose two ends are not blank,
and some blanks again (`Between`), in one way only (`Between.unique`). Trimming
leaves the core (`Between.trim_eq`, `exists_between`), so blanks that are put
around a text make no difference to it (`trim_padded`).

Which characters are blank is told once more by their ranges (`WhiteSpace`).
-/

namespace KeyInstall.Text

/-! ## White space -/

/-- The property `White_Space`, by ranges of code points. -/
def WhiteSpace (c : Char) : Prop :=
  (0x09 ≤ c.toNat ∧ c.toNat ≤ 0x0D) ∨ c.toNat = 0x20 ∨ c.toNat = 0x85 ∨ c.toNat = 0xA0 ∨
    c.toNat = 0x1680 ∨ (0x2000 ≤ c.toNat ∧ c.toNat ≤ 0x200A) ∨ c.toNat = 0x2028 ∨
    c.toNat = 0x2029 ∨ c.toNat = 0x202F ∨ c.toNat = 0x205F ∨ c.toNat = 0x3000

theorem isBlank_iff {c : Char} : isBlank c = true ↔ WhiteSpace c := by
  simp only [isBlank, blankCodePoints, List.contains_eq_mem, List.mem_cons, List.not_mem_nil,
    or_false, decide_eq_true_eq, WhiteSpace]
  constructor <;> omega

/-- Characters that show as nothing or as a gap, or that separate what is around
them, and are no white space. -/
def lookAlikes : List Char :=
  ['\x00', '\x1c', '\x1d', '\x1e', '\x1f', '\u00ad', '\u180e', '\u200b', '\u200c', '\u200d',
    '\u2060', '\ufeff']

theorem not_whiteSpace_of_mem_lookAlikes {c : Char} (member : c ∈ lookAlikes) :
    ¬ WhiteSpace c := by
  have none : lookAlikes.all (fun c => !isBlank c) = true := by decide
  have visible := List.all_eq_true.mp none c member
  rw [← isBlank_iff]
  simpa using visible

/-! ## Cores -/

/-- A text is some white space, a core that neither begins nor ends with such, and
some white space. -/
structure Between (before core after text : List Char) : Prop where
  whole : text = before ++ core ++ after
  blankBefore : ∀ c ∈ before, WhiteSpace c
  blankAfter : ∀ c ∈ after, WhiteSpace c
  first : ∃ c, core.head? = some c ∧ ¬ WhiteSpace c
  last : ∃ c, core.getLast? = some c ∧ ¬ WhiteSpace c

variable {before core after text : List Char}

theorem trimEnd_eq (text : List Char) : trimEnd text = text.rdropWhile isBlank := rfl

/-- Nothing is dropped in front of a character that is not blank. -/
theorem dropWhile_isBlank_of_head? {c : Char} (head : text.head? = some c)
    (visible : ¬ WhiteSpace c) : text.dropWhile isBlank = text := by
  cases text with
  | nil => rfl
  | cons d rest =>
    cases head
    exact List.dropWhile_cons_of_neg (by rwa [isBlank_iff])

/-- What comes before a core is all that is blank there. -/
theorem Between.dropWhile_eq (between : Between before core after text) :
    text.dropWhile isBlank = core ++ after := by
  obtain ⟨c, head, visible⟩ := between.first
  have blank : ∀ c ∈ before, isBlank c = true := fun c member =>
    isBlank_iff.mpr (between.blankBefore c member)
  rw [between.whole, List.append_assoc, List.dropWhile_append_of_pos blank]
  exact dropWhile_isBlank_of_head? (by rw [List.head?_append, head]; rfl) visible

/-- Trimming leaves the core. -/
theorem Between.trim_eq (between : Between before core after text) : trim text = core := by
  obtain ⟨c, last, visible⟩ := between.last
  have blank : ∀ c ∈ after.reverse, isBlank c = true := fun c member =>
    isBlank_iff.mpr (between.blankAfter c (List.mem_reverse.mp member))
  rw [trim, between.dropWhile_eq, trimEnd, List.reverse_append,
    List.dropWhile_append_of_pos blank,
    dropWhile_isBlank_of_head? (by rw [List.head?_reverse, last]) visible, List.reverse_reverse]

/-- A text has one core, and the blanks around it are given with it. -/
theorem Between.unique {before' core' after' : List Char}
    (one : Between before core after text) (two : Between before' core' after' text) :
    before = before' ∧ core = core' ∧ after = after' := by
  have cores : core = core' := one.trim_eq.symm.trans two.trim_eq
  have rests : core ++ after = core' ++ after' := one.dropWhile_eq.symm.trans two.dropWhile_eq
  have whole : before ++ (core ++ after) = before' ++ (core ++ after) := by
    rw [← List.append_assoc, ← one.whole, rests, ← List.append_assoc, ← two.whole]
  rw [← cores] at rests
  exact ⟨List.append_cancel_right whole, cores, List.append_cancel_left rests⟩

/-- Nothing is left of a text only if all of it is blank. -/
theorem trim_eq_nil_iff : trim text = [] ↔ ∀ c ∈ text, isBlank c = true := by
  rw [trim, trimEnd_eq, List.rdropWhile_eq_nil_iff]
  constructor
  · intro blank c member
    rw [← List.takeWhile_append_dropWhile (p := isBlank) (l := text), List.mem_append] at member
    exact member.elim (fun front => List.mem_takeWhile_imp front) (blank c)
  · intro blank c member
    exact blank c ((List.dropWhile_suffix isBlank).mem member)

/-- What is left of a text is its core. -/
theorem exists_between (nonempty : trim text ≠ []) :
    ∃ before after, Between before (trim text) after text := by
  refine ⟨text.takeWhile isBlank, (text.dropWhile isBlank).rtakeWhile isBlank, ?_, ?_, ?_, ?_, ?_⟩
  · rw [trim, trimEnd_eq, List.append_assoc, List.rdropWhile_append_rtakeWhile,
      List.takeWhile_append_dropWhile]
  · exact fun c member => isBlank_iff.mp (List.mem_takeWhile_imp member)
  · exact fun c member => isBlank_iff.mp (List.mem_rtakeWhile_imp member)
  · -- The core is what the text without its first blanks begins with.
    have begins : trim text <+: text.dropWhile isBlank := List.rdropWhile_prefix isBlank _
    have visible := List.head_dropWhile_not isBlank (begins.ne_nil nonempty)
    refine ⟨(trim text).head nonempty, List.head?_eq_some_head nonempty, ?_⟩
    rw [begins.head nonempty, ← isBlank_iff, visible]
    exact Bool.false_ne_true
  · refine ⟨(trim text).getLast nonempty, List.getLast?_eq_some_getLast nonempty, ?_⟩
    rw [← isBlank_iff]
    exact List.rdropWhile_last_not isBlank _ nonempty

/-- White space around a text makes no difference to what is left of it. -/
theorem trim_padded (blankBefore : ∀ c ∈ before, WhiteSpace c)
    (blankAfter : ∀ c ∈ after, WhiteSpace c) (text : List Char) :
    trim (before ++ text ++ after) = trim text := by
  by_cases nothing : trim text = []
  · rw [nothing, trim_eq_nil_iff]
    rw [trim_eq_nil_iff] at nothing
    intro c member
    rw [List.mem_append, List.mem_append] at member
    rcases member with (member | member) | member
    · exact isBlank_iff.mpr (blankBefore c member)
    · exact nothing c member
    · exact isBlank_iff.mpr (blankAfter c member)
  · -- The core stays, with more white space on both of its sides.
    obtain ⟨inner, outer, between⟩ := exists_between nothing
    have wider : Between (before ++ inner) (trim text) (outer ++ after) (before ++ text ++ after) := by
      refine ⟨?_, ?_, ?_, between.first, between.last⟩
      · conv_lhs => rw [between.whole]
        simp only [List.append_assoc]
      · exact List.forall_mem_append.mpr ⟨blankBefore, between.blankBefore⟩
      · exact List.forall_mem_append.mpr ⟨between.blankAfter, blankAfter⟩
    exact wider.trim_eq

end KeyInstall.Text
