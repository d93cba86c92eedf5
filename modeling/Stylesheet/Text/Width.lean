/-!
# Texts and their widths

A text is a list of characters. Offsets and widths count the bytes of its UTF-8 form, so not every
offset falls between two characters: cutting a text answers `none` where the cut would split one,
or lie past the end.

* `Text.drop?_width_append`, `Text.take?_width_append`: cutting after a part gives back what
  follows it and the part itself.
-/
namespace Stylesheet

/-- A text, character by character. -/
abbrev Text := List Char

namespace Text

/-- The bytes a text takes. -/
def width : Text → Nat
  | [] => 0
  | c :: cs => c.utf8Size + width cs

/-- The text after its first `n` bytes. -/
def drop? : Nat → Text → Option Text
  | 0, cs => some cs
  | _ + 1, [] => none
  | n + 1, c :: cs => if c.utf8Size ≤ n + 1 then drop? (n + 1 - c.utf8Size) cs else none

/-- The first `n` bytes of a text. -/
def take? : Nat → Text → Option Text
  | 0, _ => some []
  | _ + 1, [] => none
  | n + 1, c :: cs =>
    if c.utf8Size ≤ n + 1 then (take? (n + 1 - c.utf8Size) cs).map (c :: ·) else none

/-- Whether an offset falls between two characters of a text, or at one of its ends. -/
def isBoundary (text : Text) (n : Nat) : Bool := (drop? n text).isSome

@[simp] theorem width_nil : width [] = 0 := rfl

@[simp] theorem width_cons (c : Char) (cs : Text) : width (c :: cs) = c.utf8Size + width cs := rfl

@[simp] theorem width_append (a b : Text) : width (a ++ b) = width a + width b := by
  induction a with
  | nil => simp
  | cons c cs ih => simp [ih, Nat.add_assoc]

theorem width_pos {text : Text} (h : text ≠ []) : 0 < width text := by
  obtain ⟨c, cs, rfl⟩ := List.exists_cons_of_ne_nil h
  have := c.utf8Size_pos
  rw [width_cons]
  omega

@[simp] theorem drop?_zero (text : Text) : drop? 0 text = some text := by
  cases text <;> rfl

@[simp] theorem take?_zero (text : Text) : take? 0 text = some [] := by
  cases text <;> rfl

theorem drop?_width_append (a b : Text) : drop? (width a) (a ++ b) = some b := by
  induction a with
  | nil => simp
  | cons c cs ih =>
    obtain ⟨n, hn⟩ : ∃ n, c.utf8Size + width cs = n + 1 :=
      ⟨c.utf8Size + width cs - 1, by have := c.utf8Size_pos; omega⟩
    have hle : c.utf8Size ≤ n + 1 := by omega
    have hrest : n + 1 - c.utf8Size = width cs := by omega
    simp [hn, drop?, hle, hrest, ih]

theorem isBoundary_width_append (a b : Text) : isBoundary (a ++ b) (width a) := by
  rw [isBoundary, drop?_width_append]
  rfl

theorem take?_width_append (a b : Text) : take? (width a) (a ++ b) = some a := by
  induction a with
  | nil => simp
  | cons c cs ih =>
    obtain ⟨n, hn⟩ : ∃ n, c.utf8Size + width cs = n + 1 :=
      ⟨c.utf8Size + width cs - 1, by have := c.utf8Size_pos; omega⟩
    have hle : c.utf8Size ≤ n + 1 := by omega
    have hrest : n + 1 - c.utf8Size = width cs := by omega
    simp [hn, take?, hle, hrest, ih]

end Text

end Stylesheet
